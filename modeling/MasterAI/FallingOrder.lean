import Mathlib.Data.List.Sort

namespace MasterAI

/-- A number comes before another where its key is higher, or the keys are the same and it is lower. -/
def Before (f : Nat → Nat) (a b : Nat) : Prop := f b < f a ∨ f a = f b ∧ a < b

instance (f : Nat → Nat) (a b : Nat) : Decidable (Before f a b) := inferInstanceAs (Decidable (_ ∨ _))

/-- The first unused number of those with the highest key, among the numbers below a bound. -/
def firstBest (f : Nat → Nat) (used : List Nat) : Nat → Option Nat
  | 0 => none
  | s + 1 =>
    if s ∈ used then firstBest f used s
    else
      match firstBest f used s with
      | none => some s
      | some best => if f s > f best then some s else some best

/-- The numbers below a bound by falling key, after a number of choices. -/
def fallingChoices (n : Nat) (f : Nat → Nat) : Nat → List Nat
  | 0 => []
  | pos + 1 =>
    match firstBest f (fallingChoices n f pos) n with
    | none => fallingChoices n f pos
    | some s => fallingChoices n f pos ++ [s]

def fallingOrder (n : Nat) (f : Nat → Nat) : List Nat := fallingChoices n f n

section

variable {f f' : Nat → Nat} {used l : List Nat} {n a b pos : Nat}

theorem before_irrefl (a : Nat) : ¬Before f a a := by
  rintro (h | h) <;> omega

theorem Before.not_swap (h : Before f a b) : ¬Before f b a := by
  rcases h with h | h
  · rintro (h' | h') <;> omega
  · rintro (h' | h') <;> omega

theorem Before.ge (h : Before f a b) : f b ≤ f a := by
  rcases h with h | h <;> omega

/-- The choice is unused and comes before every other unused number. -/
theorem firstBest_spec (f : Nat → Nat) (used : List Nat) (n : Nat) :
    (firstBest f used n = none ∧ ∀ s < n, s ∈ used) ∨
      ∃ best, firstBest f used n = some best ∧ best < n ∧ best ∉ used ∧
        ∀ s < n, s ∉ used → s ≠ best → Before f best s := by
  induction n with
  | zero => exact .inl ⟨rfl, by omega⟩
  | succ n ih =>
    rw [firstBest]
    by_cases hused : n ∈ used
    · rw [if_pos hused]
      rcases ih with ⟨hnone, hall⟩ | ⟨best, hbest, hlt, hfree, hfirst⟩
      · refine .inl ⟨hnone, ?_⟩
        intro s hs
        by_cases hn : s = n
        · rw [hn]
          exact hused
        · exact hall s (by omega)
      · refine .inr ⟨best, hbest, by omega, hfree, ?_⟩
        intro s hs hsfree hne
        have hn : s ≠ n := by
          rintro rfl
          exact hsfree hused
        exact hfirst s (by omega) hsfree hne
    · rw [if_neg hused]
      rcases ih with ⟨hnone, hall⟩ | ⟨best, hbest, hlt, hfree, hfirst⟩
      · rw [hnone]
        refine .inr ⟨n, rfl, by omega, hused, ?_⟩
        intro s hs hsfree hne
        exact absurd (hall s (by omega)) hsfree
      · rw [hbest]
        by_cases hbetter : f n > f best
        · refine .inr ⟨n, if_pos hbetter, by omega, hused, ?_⟩
          intro s hs hsfree hne
          by_cases hsbest : s = best
          · rw [hsbest]
            exact .inl hbetter
          · have := (hfirst s (by omega) hsfree hsbest).ge
            exact .inl (by omega)
        · refine .inr ⟨best, if_neg hbetter, by omega, hfree, ?_⟩
          intro s hs hsfree hne
          by_cases hn : s = n
          · rw [hn]
            by_cases heq : f best = f n
            · exact .inr ⟨heq, hlt⟩
            · exact .inl (by omega)
          · exact hfirst s (by omega) hsfree hne

/-- Some of the numbers below a bound, in order and before all others. -/
structure Chosen (n : Nat) (f : Nat → Nat) (l : List Nat) : Prop where
  nodup : l.Nodup
  bound : ∀ a ∈ l, a < n
  sorted : l.Pairwise (Before f)
  first : ∀ a ∈ l, ∀ s < n, s ∉ l → Before f a s

theorem Chosen.push (h : Chosen n f l) (hb : b < n) (hfree : b ∉ l)
    (hfirst : ∀ s < n, s ∉ l → s ≠ b → Before f b s) : Chosen n f (l ++ [b]) := by
  refine ⟨?_, ?_, ?_, ?_⟩
  · rw [List.nodup_append]
    refine ⟨h.nodup, List.nodup_singleton b, ?_⟩
    rintro a ha c hc rfl
    rw [List.mem_singleton.mp hc] at ha
    exact hfree ha
  · intro a ha
    rcases List.mem_append.mp ha with ha | ha
    · exact h.bound a ha
    · rw [List.mem_singleton.mp ha]
      exact hb
  · rw [List.pairwise_append]
    refine ⟨h.sorted, List.pairwise_singleton _ b, ?_⟩
    intro a ha c hc
    rw [List.mem_singleton.mp hc]
    exact h.first a ha b hb hfree
  · intro a ha s hs hout
    rw [List.mem_append, not_or, List.mem_singleton] at hout
    rcases List.mem_append.mp ha with ha | ha
    · exact h.first a ha s hs hout.1
    · rw [List.mem_singleton.mp ha]
      exact hfirst s hs hout.1 hout.2

theorem fallingChoices_chosen (n : Nat) (f : Nat → Nat) (pos : Nat) :
    Chosen n f (fallingChoices n f pos) ∧ (pos ≤ n → (fallingChoices n f pos).length = pos) := by
  induction pos with
  | zero => exact ⟨⟨List.nodup_nil, by simp [fallingChoices], List.Pairwise.nil, by simp [fallingChoices]⟩, fun _ => rfl⟩
  | succ pos ih =>
    obtain ⟨hchosen, hlength⟩ := ih
    rw [fallingChoices]
    rcases firstBest_spec f (fallingChoices n f pos) n with
      ⟨hnone, hall⟩ | ⟨best, hbest, hlt, hfree, hfirst⟩
    · rw [hnone]
      refine ⟨hchosen, ?_⟩
      intro hpos
      have hsub : List.range n ⊆ fallingChoices n f pos := fun s hs => hall s (List.mem_range.mp hs)
      have hle := (List.subperm_of_subset List.nodup_range hsub).length_le
      rw [List.length_range, hlength (by omega)] at hle
      omega
    · rw [hbest]
      refine ⟨hchosen.push hlt hfree hfirst, ?_⟩
      intro hpos
      show (fallingChoices n f pos ++ [best]).length = pos + 1
      rw [List.length_append, hlength (by omega)]
      rfl

theorem fallingOrder_length (n : Nat) (f : Nat → Nat) : (fallingOrder n f).length = n :=
  (fallingChoices_chosen n f n).2 (le_refl n)

theorem fallingOrder_sorted (n : Nat) (f : Nat → Nat) : (fallingOrder n f).Pairwise (Before f) :=
  (fallingChoices_chosen n f n).1.sorted

theorem fallingOrder_perm (n : Nat) (f : Nat → Nat) : (fallingOrder n f).Perm (List.range n) := by
  have hchosen : Chosen n f (fallingOrder n f) := (fallingChoices_chosen n f n).1
  have hsub : fallingOrder n f ⊆ List.range n := fun a ha => List.mem_range.mpr (hchosen.bound a ha)
  refine (List.subperm_of_subset hchosen.nodup hsub).perm_of_length_le ?_
  rw [fallingOrder_length, List.length_range]

theorem mem_fallingOrder : a ∈ fallingOrder n f ↔ a < n := by
  rw [(fallingOrder_perm n f).mem_iff, List.mem_range]

/-- The position of a number in an ordered list is how many come before it. -/
theorem idxOf_eq_countP (hsorted : l.Pairwise (Before f)) (ha : a ∈ l) :
    l.idxOf a = l.countP fun b => Before f b a := by
  induction l with
  | nil => simp at ha
  | cons b l ih =>
    obtain ⟨hfirst, hrest⟩ := List.pairwise_cons.mp hsorted
    by_cases hab : b = a
    · subst hab
      have hzero : (b :: l).countP (fun c => Before f c b) = 0 := by
        rw [List.countP_eq_zero]
        intro c hc
        rw [decide_eq_true_eq]
        rcases List.mem_cons.mp hc with rfl | hc
        · exact before_irrefl c
        · exact (hfirst c hc).not_swap
      rw [hzero, List.idxOf_cons_self]
    · have ha : a ∈ l := (List.mem_cons.mp ha).resolve_left fun h => hab h.symm
      rw [List.idxOf_cons_ne _ hab, ih hrest ha, List.countP_cons_of_pos (by simpa using hfirst a ha)]

theorem idxOf_fallingOrder (ha : a < n) :
    (fallingOrder n f).idxOf a = (List.range n).countP fun b => Before f b a := by
  rw [idxOf_eq_countP (fallingOrder_sorted n f) (mem_fallingOrder.mpr ha)]
  exact (fallingOrder_perm n f).countP_eq _

/-- The same keys come out in the same order. -/
theorem map_fallingOrder (hperm : ((List.range n).map f).Perm ((List.range n).map f')) :
    (fallingOrder n f).map f = (fallingOrder n f').map f' := by
  have hfall : ∀ f : Nat → Nat, ((fallingOrder n f).map f).Pairwise (· ≥ ·) := by
    intro f
    rw [List.pairwise_map]
    exact (fallingOrder_sorted n f).imp fun h => h.ge
  refine List.Perm.eq_of_pairwise ?_ (hfall f) (hfall f') ?_
  · intro a b _ _ hab hba
    exact Nat.le_antisymm hba hab
  · exact (((fallingOrder_perm n f).map f).trans hperm).trans ((fallingOrder_perm n f').map f').symm

/-- Where the numbers below a bound come before all others, they have the first positions. -/
theorem idxOf_fallingOrder_lt_iff {k : Nat} (hfirst : ∀ u < k, ∀ s < n, k ≤ s → Before f u s) (ha : a < n) :
    (fallingOrder n f).idxOf a < k ↔ a < k := by
  rw [idxOf_fallingOrder ha, List.countP_eq_length_filter]
  constructor
  · intro hlt
    by_contra hout
    have hsub : List.range k ⊆ (List.range n).filter fun b => Before f b a := by
      intro u hu
      have hu := List.mem_range.mp hu
      refine List.mem_filter.mpr ⟨List.mem_range.mpr (by omega), ?_⟩
      rw [decide_eq_true_eq]
      exact hfirst u hu a ha (by omega)
    have hle := (List.subperm_of_subset List.nodup_range hsub).length_le
    rw [List.length_range] at hle
    omega
  · intro hak
    have hsub : ((List.range n).filter fun b => Before f b a) ⊆ (List.range k).erase a := by
      intro u hu
      obtain ⟨hun, hbefore⟩ := List.mem_filter.mp hu
      rw [decide_eq_true_eq] at hbefore
      have hne : u ≠ a := by
        rintro rfl
        exact before_irrefl u hbefore
      have huk : u < k := by
        by_contra hout
        exact hbefore.not_swap (hfirst a hak u (List.mem_range.mp hun) (by omega))
      exact (List.mem_erase_of_ne hne).mpr (List.mem_range.mpr huk)
    have hle := (List.subperm_of_subset (List.nodup_range.filter _) hsub).length_le
    rw [List.length_erase_of_mem (List.mem_range.mpr hak), List.length_range] at hle
    omega

/-- The number at a position of the order. -/
def placed (n : Nat) (f : Nat → Nat) (p : Nat) : Nat := (fallingOrder n f).getD p 0

theorem placed_eq {p : Nat} (hp : p < (fallingOrder n f).length) : placed n f p = (fallingOrder n f)[p] := by
  simp [placed, hp]

theorem placed_lt {p : Nat} (hp : p < n) : placed n f p < n := by
  have hlength := fallingOrder_length n f
  rw [placed_eq (by omega)]
  exact mem_fallingOrder.mp (List.getElem_mem _)

theorem idxOf_placed {p : Nat} (hp : p < n) : (fallingOrder n f).idxOf (placed n f p) = p := by
  have hlength := fallingOrder_length n f
  rw [placed_eq (by omega)]
  exact (fallingChoices_chosen n f n).1.nodup.idxOf_getElem p _

theorem placed_idxOf (ha : a < n) : placed n f ((fallingOrder n f).idxOf a) = a := by
  have hmem : a ∈ fallingOrder n f := mem_fallingOrder.mpr ha
  rw [placed_eq (List.idxOf_lt_length_iff.mpr hmem)]
  exact List.getElem_idxOf _

theorem placed_before {p q : Nat} (hpq : p < q) (hq : q < n) : Before f (placed n f p) (placed n f q) := by
  have hlength := fallingOrder_length n f
  rw [placed_eq (by omega), placed_eq (by omega)]
  exact List.pairwise_iff_getElem.mp (fallingOrder_sorted n f) p q (by omega) (by omega) hpq

/-- The same keys stand at the same positions. -/
theorem key_placed (hperm : ((List.range n).map f).Perm ((List.range n).map f')) {p : Nat} (hp : p < n) :
    f (placed n f p) = f' (placed n f' p) := by
  have hlength := fallingOrder_length n f
  have hlength' := fallingOrder_length n f'
  have hmap := congrArg (fun l => l[p]?) (map_fallingOrder hperm)
  simp only [List.getElem?_map, List.getElem?_eq_getElem (show p < (fallingOrder n f).length by omega),
    List.getElem?_eq_getElem (show p < (fallingOrder n f').length by omega), Option.map_some, Option.some.injEq] at hmap
  rw [placed_eq (by omega), placed_eq (by omega)]
  exact hmap

end

end MasterAI
