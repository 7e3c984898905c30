import Mathlib.Algebra.GroupWithZero.Nat
import Mathlib.Data.Nat.Choose.Basic
import Mathlib.Data.List.Basic

namespace MasterAI

/-- The falling tuples of some numbers below a bound, in the order of nested loops over them. -/
def fallingTuples : Nat → Nat → List (List Nat)
  | 0, _ => [[]]
  | k + 1, n => (List.range' k (n - k)).flatMap fun c => (fallingTuples k c).map fun t => c :: t

/-- A tuple of falling numbers below a bound. -/
structure FallingBelow (n : Nat) (t : List Nat) : Prop where
  falls : t.Pairwise (· > ·)
  lt : ∀ c ∈ t, c < n

/-- The place of a falling tuple among those of its length. -/
def tupleNumber : List Nat → Nat
  | [] => 0
  | c :: t => c.choose (t.length + 1) + tupleNumber t

section

variable {k n m c : Nat} {t : List Nat}

theorem fallingBelow_nil : FallingBelow n [] := ⟨List.Pairwise.nil, by simp⟩

theorem fallingBelow_cons : FallingBelow n (c :: t) ↔ c < n ∧ FallingBelow c t := by
  constructor
  · rintro ⟨hfalls, hlt⟩
    obtain ⟨hhead, htail⟩ := List.pairwise_cons.mp hfalls
    exact ⟨hlt c (by simp), htail, hhead⟩
  · rintro ⟨hc, hfalls, hlt⟩
    refine ⟨List.pairwise_cons.mpr ⟨hlt, hfalls⟩, ?_⟩
    intro d hd
    rcases List.mem_cons.mp hd with rfl | hd
    · exact hc
    · exact (hlt d hd).trans hc

theorem FallingBelow.length_le (h : FallingBelow n t) : t.length ≤ n := by
  induction t generalizing n with
  | nil => exact Nat.zero_le n
  | cons c t ih =>
    obtain ⟨hc, ht⟩ := fallingBelow_cons.mp h
    have := ih ht
    simp only [List.length_cons]
    omega

instance : Decidable (FallingBelow n t) :=
  decidable_of_iff (t.Pairwise (· > ·) ∧ ∀ c ∈ t, c < n) ⟨fun h => ⟨h.1, h.2⟩, fun h => ⟨h.falls, h.lt⟩⟩

/-- The tuples below the next bound are the old ones and those that start with the bound. -/
theorem fallingTuples_succ :
    fallingTuples (k + 1) (n + 1) = fallingTuples (k + 1) n ++ (fallingTuples k n).map fun t => n :: t := by
  rcases Nat.lt_or_ge n k with hlt | hge
  · obtain ⟨j, rfl⟩ : ∃ j, k = j + 1 := ⟨k - 1, by omega⟩
    have hnone : n + 1 - (j + 1) = 0 ∧ n - (j + 1) = 0 ∧ n - j = 0 := by omega
    simp only [fallingTuples, hnone.1, hnone.2.1, hnone.2.2]
    rfl
  · have hsplit : n + 1 - k = (n - k) + 1 := by omega
    have hlast : k + 1 * (n - k) = n := by omega
    rw [fallingTuples, hsplit, List.range'_concat, hlast, List.flatMap_append, List.flatMap_singleton, fallingTuples]

theorem fallingTuples_length (k n : Nat) : (fallingTuples k n).length = n.choose k := by
  induction n generalizing k with
  | zero =>
    cases k with
    | zero => rfl
    | succ k => simp [fallingTuples]
  | succ n ih =>
    cases k with
    | zero => simp [fallingTuples]
    | succ k => rw [fallingTuples_succ, List.length_append, List.length_map, ih, ih, Nat.choose_succ_succ, Nat.add_comm]

theorem fallingTuples_initial (k : Nat) (hmn : m ≤ n) : ∃ rest, fallingTuples k n = fallingTuples k m ++ rest := by
  induction hmn with
  | refl => exact ⟨[], (List.append_nil _).symm⟩
  | step _ ih =>
    obtain ⟨rest, hrest⟩ := ih
    cases k with
    | zero => exact ⟨[], rfl⟩
    | succ k => exact ⟨rest ++ _, by rw [fallingTuples_succ, hrest, List.append_assoc]⟩

/-- A falling tuple stands at its number. -/
theorem FallingBelow.getElem? (h : FallingBelow n t) : (fallingTuples t.length n)[tupleNumber t]? = some t := by
  induction t generalizing n with
  | nil => rfl
  | cons c t ih =>
    obtain ⟨hc, ht⟩ := fallingBelow_cons.mp h
    obtain ⟨rest, hrest⟩ := fallingTuples_initial (t.length + 1) hc
    have htail := ih ht
    obtain ⟨hlt, -⟩ := List.getElem?_eq_some_iff.mp htail
    have hbound : tupleNumber (c :: t) < (fallingTuples (t.length + 1) (c + 1)).length := by
      rw [fallingTuples_succ, List.length_append, List.length_map, tupleNumber, fallingTuples_length]
      omega
    rw [List.length_cons, hrest, List.getElem?_append_left hbound, fallingTuples_succ, tupleNumber,
      ← fallingTuples_length (t.length + 1) c, List.getElem?_append_right (Nat.le_add_right _ _), Nat.add_sub_cancel_left,
      List.getElem?_map, htail]
    rfl

theorem FallingBelow.tupleNumber_lt (h : FallingBelow n t) : tupleNumber t < n.choose t.length := by
  obtain ⟨hlt, -⟩ := List.getElem?_eq_some_iff.mp h.getElem?
  rwa [fallingTuples_length] at hlt

/-- The tuples that start below a number come first. -/
theorem sum_choose_range (k n : Nat) : ((List.range n).map fun c => (c + 1).choose (k + 1)).sum = (n + 1).choose (k + 2) := by
  induction n with
  | zero => simp [Nat.choose_eq_zero_of_lt]
  | succ n ih =>
    rw [List.range_succ, List.map_append, List.sum_append, ih, Nat.choose_succ_succ (n + 1), Nat.add_comm]
    simp

end

end MasterAI
