import Mathlib.Algebra.Order.BigOperators.GroupWithZero.Finset
import Mathlib.Data.Fintype.BigOperators
import Mathlib.Data.Int.CardIntervalMod
import Mathlib.Data.List.Nodup
import Mathlib.Logic.Function.Basic

namespace MasterAI

section

variable {α : Type*} {deck : Nat → α} {n i : Nat} {x : α} {picks : List Nat} {cards : List α}

/-- The places below `n` hold different things. -/
def PlacesDiffer (deck : Nat → α) (n : Nat) : Prop := ∀ i < n, ∀ j < n, deck i = deck j → i = j

def InPlaces (deck : Nat → α) (n : Nat) (x : α) : Prop := ∃ i < n, deck i = x

/-- A place is drawn, and what the last place holds takes it over. -/
def fillGap (deck : Nat → α) (n i : Nat) : Nat → α := Function.update deck i (deck (n - 1))

theorem fillGap_of_lt (hi : i < n) {j : Nat} (hj : j < n - 1) :
    ∃ k < n, k ≠ i ∧ fillGap deck n i j = deck k := by
  by_cases hji : j = i
  · subst hji
    exact ⟨n - 1, by omega, by omega, Function.update_self ..⟩
  · exact ⟨j, by omega, hji, Function.update_of_ne hji ..⟩

theorem inPlaces_fillGap (hdeck : PlacesDiffer deck n) (hi : i < n) :
    InPlaces (fillGap deck n i) (n - 1) x ↔ InPlaces deck n x ∧ x ≠ deck i := by
  constructor
  · rintro ⟨j, hj, rfl⟩
    obtain ⟨k, hk, hki, heq⟩ := fillGap_of_lt hi hj
    rw [heq]
    exact ⟨⟨k, hk, rfl⟩, fun h => hki (hdeck k hk i hi h)⟩
  · rintro ⟨⟨k, hk, rfl⟩, hne⟩
    have hki : k ≠ i := fun h => hne (congrArg deck h)
    by_cases hlast : k = n - 1
    · subst hlast
      exact ⟨i, by omega, Function.update_self ..⟩
    · exact ⟨k, by omega, Function.update_of_ne hki ..⟩

theorem PlacesDiffer.fillGap (hdeck : PlacesDiffer deck n) (hi : i < n) :
    PlacesDiffer (fillGap deck n i) (n - 1) := by
  intro a ha b hb h
  by_cases hai : a = i
  · by_cases hbi : b = i
    · exact hai.trans hbi.symm
    · rw [hai, MasterAI.fillGap, Function.update_self, Function.update_of_ne hbi] at h
      have := hdeck (n - 1) (by omega) b (by omega) h
      omega
  · by_cases hbi : b = i
    · rw [hbi, MasterAI.fillGap, Function.update_self, Function.update_of_ne hai] at h
      have := hdeck a (by omega) (n - 1) (by omega) h
      omega
    · rw [MasterAI.fillGap, Function.update_of_ne hai, Function.update_of_ne hbi] at h
      exact hdeck a (by omega) b (by omega) h

/-- What is drawn place by place, from a deck of `n` that shrinks by one each time. -/
def drawn (deck : Nat → α) (n : Nat) : List Nat → List α
  | [] => []
  | i :: picks => deck i :: drawn (fillGap deck n i) (n - 1) picks

/-- Each pick is one of the places that are left. -/
def PicksFit (n : Nat) : List Nat → Prop
  | [] => True
  | i :: picks => i < n ∧ PicksFit (n - 1) picks

theorem drawn_length (deck : Nat → α) (n : Nat) (picks : List Nat) : (drawn deck n picks).length = picks.length := by
  induction picks generalizing deck n with
  | nil => rfl
  | cons i picks ih => rw [drawn, List.length_cons, List.length_cons, ih]

theorem inPlaces_of_mem_drawn (hdeck : PlacesDiffer deck n) (hpicks : PicksFit n picks)
    (hx : x ∈ drawn deck n picks) : InPlaces deck n x := by
  induction picks generalizing deck n with
  | nil => simp [drawn] at hx
  | cons i picks ih =>
    rcases List.mem_cons.mp hx with rfl | hx
    · exact ⟨i, hpicks.1, rfl⟩
    · exact ((inPlaces_fillGap hdeck hpicks.1).mp (ih (hdeck.fillGap hpicks.1) hpicks.2 hx)).1

/-- Nothing is drawn twice. -/
theorem drawn_nodup (hdeck : PlacesDiffer deck n) (hpicks : PicksFit n picks) : (drawn deck n picks).Nodup := by
  induction picks generalizing deck n with
  | nil => exact List.nodup_nil
  | cons i picks ih =>
    refine List.nodup_cons.mpr ⟨?_, ih (hdeck.fillGap hpicks.1) hpicks.2⟩
    intro hmem
    have hleft := inPlaces_of_mem_drawn (hdeck.fillGap hpicks.1) hpicks.2 hmem
    exact ((inPlaces_fillGap hdeck hpicks.1).mp hleft).2 rfl

/-- Each selection in each order is drawn. -/
theorem exists_picks (hdeck : PlacesDiffer deck n) (hnodup : cards.Nodup) (hcards : ∀ x ∈ cards, InPlaces deck n x) :
    ∃ picks, PicksFit n picks ∧ drawn deck n picks = cards := by
  induction cards generalizing deck n with
  | nil => exact ⟨[], trivial, rfl⟩
  | cons x cards ih =>
    obtain ⟨i, hi, rfl⟩ := hcards x List.mem_cons_self
    obtain ⟨hnotMem, hnodup⟩ := List.nodup_cons.mp hnodup
    have hrest : ∀ y ∈ cards, InPlaces (fillGap deck n i) (n - 1) y := by
      intro y hy
      refine (inPlaces_fillGap hdeck hi).mpr ⟨hcards y (List.mem_cons_of_mem _ hy), ?_⟩
      rintro rfl
      exact hnotMem hy
    obtain ⟨picks, hpicks, hdrawn⟩ := ih (hdeck.fillGap hi) hnodup hrest
    exact ⟨i :: picks, ⟨hi, hpicks⟩, by rw [drawn, hdrawn]⟩

/-- Different picks draw different things. -/
theorem drawn_inj (hdeck : PlacesDiffer deck n) {picks' : List Nat} (hpicks : PicksFit n picks)
    (hpicks' : PicksFit n picks') (h : drawn deck n picks = drawn deck n picks') : picks = picks' := by
  induction picks generalizing deck n picks' with
  | nil =>
    cases picks' with
    | nil => rfl
    | cons i picks' => simp [drawn] at h
  | cons i picks ih =>
    cases picks' with
    | nil => simp [drawn] at h
    | cons j picks' =>
      obtain ⟨hfirst, hrest⟩ := List.cons.inj h
      cases hdeck i hpicks.1 j hpicks'.1 hfirst
      rw [ih (hdeck.fillGap hpicks.1) hpicks.2 hpicks'.2 hrest]

theorem picksFit_getElem (hpicks : PicksFit n picks) {j : Nat} (hj : j < picks.length) : picks[j] < n - j := by
  induction picks generalizing n j with
  | nil => simp at hj
  | cons i picks ih =>
    cases j with
    | zero => exact hpicks.1
    | succ j =>
      have := ih hpicks.2 (j := j) (by simpa using hj)
      rw [List.getElem_cons_succ]
      omega

/-- Picks that come from larger numbers, each reduced to the number of places that are left. -/
def reduced (n : Nat) : List Nat → List Nat
  | [] => []
  | x :: xs => x % n :: reduced (n - 1) xs

theorem reduced_length (n : Nat) (xs : List Nat) : (reduced n xs).length = xs.length := by
  induction xs generalizing n with
  | nil => rfl
  | cons x xs ih => rw [reduced, List.length_cons, List.length_cons, ih]

theorem reduced_getElem {n : Nat} {xs : List Nat} {j : Nat} (hj : j < (reduced n xs).length) (hjx : j < xs.length) :
    (reduced n xs)[j] = xs[j] % (n - j) := by
  induction xs generalizing n j with
  | nil => exact absurd hjx (Nat.not_lt_zero j)
  | cons x xs ih =>
    cases j with
    | zero => rfl
    | succ j =>
      have hrest : j < (reduced (n - 1) xs).length := by simpa [reduced] using hj
      have := ih hrest (by simpa using hjx)
      simp only [reduced, List.getElem_cons_succ, this]
      rw [Nat.sub_sub, Nat.add_comm 1 j]

theorem picksFit_reduced {n : Nat} {xs : List Nat} (hlen : xs.length ≤ n) : PicksFit n (reduced n xs) := by
  induction xs generalizing n with
  | nil => trivial
  | cons x xs ih =>
    rw [List.length_cons] at hlen
    exact ⟨Nat.mod_lt x (by omega), ih (by omega)⟩

/-- How many of the numbers below `N` have a remainder. -/
theorem card_remainder {N m r : Nat} (hr : r < m) :
    N / m ≤ (Finset.univ.filter fun x : Fin N => (x : Nat) % m = r).card ∧
      (Finset.univ.filter fun x : Fin N => (x : Nat) % m = r).card ≤ N / m + 1 := by
  have hcount : (Finset.univ.filter fun x : Fin N => (x : Nat) % m = r).card = N.count (· ≡ r [MOD m]) := by
    rw [Nat.count_eq_card_filter_range, ← Finset.card_map Fin.valEmbedding]
    congr 1
    ext x
    simp only [Finset.mem_map, Finset.mem_filter, Finset.mem_univ, true_and, Fin.valEmbedding_apply,
      Finset.mem_range, Nat.ModEq, Nat.mod_eq_of_lt hr]
    constructor
    · rintro ⟨y, hy, rfl⟩
      exact ⟨y.isLt, hy⟩
    · rintro ⟨hx, hrem⟩
      exact ⟨⟨x, hx⟩, hrem, rfl⟩
  rw [hcount, Nat.count_modEq_card N (Nat.zero_lt_of_lt hr) r]
  split <;> omega

/-- How many sequences of numbers below `N` are reduced to given picks. -/
theorem card_reduced {N k : Nat} (hpicks : PicksFit n picks) (hlen : picks.length = k) :
    ∏ j : Fin k, N / (n - j) ≤
        (Finset.univ.filter fun f : Fin k → Fin N => reduced n (List.ofFn fun j => (f j : Nat)) = picks).card ∧
      (Finset.univ.filter fun f : Fin k → Fin N => reduced n (List.ofFn fun j => (f j : Nat)) = picks).card ≤
        ∏ j : Fin k, (N / (n - j) + 1) := by
  subst hlen
  have hprod : (Finset.univ.filter fun f : Fin picks.length → Fin N =>
      reduced n (List.ofFn fun j => (f j : Nat)) = picks) =
      Fintype.piFinset fun j : Fin picks.length =>
        Finset.univ.filter fun x : Fin N => (x : Nat) % (n - j) = picks[j] := by
    ext f
    simp only [Finset.mem_filter, Finset.mem_univ, true_and, Fintype.mem_piFinset]
    constructor
    · intro h j
      have hj : (j : Nat) < (reduced n (List.ofFn fun j => (f j : Nat))).length := by
        rw [h]
        exact j.isLt
      have hget := reduced_getElem hj (by rw [List.length_ofFn]; exact j.isLt)
      rw [List.getElem_ofFn] at hget
      rw [← hget]
      exact List.getElem_of_eq h hj
    · intro h
      refine List.ext_getElem (by rw [reduced_length, List.length_ofFn]) fun j hj hj' => ?_
      rw [reduced_getElem hj (by rw [List.length_ofFn]; exact hj'), List.getElem_ofFn]
      exact h ⟨j, hj'⟩
  rw [hprod, Fintype.card_piFinset]
  exact ⟨Finset.prod_le_prod (fun _ _ => Nat.zero_le _) fun j _ => (card_remainder (picksFit_getElem hpicks j.isLt)).1,
    Finset.prod_le_prod (fun _ _ => Nat.zero_le _) fun j _ => (card_remainder (picksFit_getElem hpicks j.isLt)).2⟩

end

end MasterAI
