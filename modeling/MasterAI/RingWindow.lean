import Mathlib.Data.List.Range

namespace MasterAI

section

variable {α : Type*} {data data' : Nat → α} {size start head used : Nat} {xs : List α}

/-- The cells of a ring from a position on. -/
def ringWindow (data : Nat → α) (size start n : Nat) : List α :=
  (List.range n).map fun i => data ((start + i) % size)

/-- The cells of a stretch of memory. -/
def copyOut (data : Nat → α) (start n : Nat) : List α := (List.range n).map fun i => data (start + i)

/-- The memory after a block is copied to a position. -/
def copyIn (data : Nat → α) (start : Nat) (xs : List α) : Nat → α :=
  fun j => if start ≤ j then (xs[j - start]?).getD (data j) else data j

/-- The ring from a position on holds the new block, and all other cells are as before. -/
structure StoredAt (size start : Nat) (xs : List α) (data data' : Nat → α) : Prop where
  stored : ∀ k (hk : k < xs.length), data' ((start + k) % size) = xs[k]
  kept : ∀ j, (∀ k < xs.length, j ≠ (start + k) % size) → data' j = data j

/-- A sum of a position and a distance passes the end of the ring at most once. -/
theorem ring_mod {a b : Nat} (ha : a < size) (hb : b ≤ size) :
    (a + b) % size = if a + b < size then a + b else a + b - size := by
  by_cases h : a + b < size
  · rw [if_pos h, Nat.mod_eq_of_lt h]
  · rw [if_neg h, Nat.mod_eq_sub_mod (by omega), Nat.mod_eq_of_lt (by omega)]

theorem ringWindow_length (n : Nat) : (ringWindow data size start n).length = n := by
  simp [ringWindow]

theorem ringWindow_add (m n : Nat) :
    ringWindow data size start (m + n) =
      ringWindow data size start m ++ ringWindow data size ((start + m) % size) n := by
  unfold ringWindow
  rw [List.range_add, List.map_append, List.map_map]
  congr 1
  refine List.map_congr_left fun i _ => ?_
  simp only [Function.comp_apply, Nat.mod_add_mod, Nat.add_assoc]

/-- Cells that are read across the end of the ring are those of its window. -/
theorem ringWindow_eq_copyOut {n : Nat} (hstart : start < size) (hn : n ≤ size) :
    ringWindow data size start n =
      if start + n > size then copyOut data start (size - start) ++ copyOut data 0 (n - (size - start))
      else copyOut data start n := by
  by_cases hwrap : start + n > size
  · obtain ⟨m, rfl⟩ := Nat.exists_eq_add_of_le (show size - start ≤ n by omega)
    have hzero : (start + (size - start)) % size = 0 := by
      rw [show start + (size - start) = size by omega, Nat.mod_self]
    rw [if_pos hwrap, ringWindow_add, hzero, Nat.add_sub_cancel_left]
    congr 1
    · refine List.map_congr_left fun i hi => ?_
      have hi := List.mem_range.mp hi
      rw [Nat.mod_eq_of_lt (by omega)]
    · refine List.map_congr_left fun i hi => ?_
      have hi := List.mem_range.mp hi
      rw [Nat.mod_eq_of_lt (by omega)]
  · rw [if_neg hwrap]
    refine List.map_congr_left fun i hi => ?_
    have hi := List.mem_range.mp hi
    rw [Nat.mod_eq_of_lt (by omega)]

theorem copyIn_inside {j : Nat} (hlo : start ≤ j) (hhi : j - start < xs.length) :
    copyIn data start xs j = xs[j - start] := by
  simp [copyIn, hlo, hhi]

theorem copyIn_outside {j : Nat} (h : j < start ∨ start + xs.length ≤ j) : copyIn data start xs j = data j := by
  unfold copyIn
  rcases h with h | h
  · rw [if_neg (by omega)]
  · by_cases hlo : start ≤ j
    · rw [if_pos hlo, List.getElem?_eq_none (by omega)]
      rfl
    · rw [if_neg hlo]

theorem copyOut_length (n : Nat) : (copyOut data start n).length = n := by
  simp [copyOut]

theorem copyOut_add (m n : Nat) : copyOut data start (m + n) = copyOut data start m ++ copyOut data (start + m) n := by
  unfold copyOut
  rw [List.range_add, List.map_append, List.map_map]
  congr 1
  refine List.map_congr_left fun i _ => ?_
  rw [Function.comp_apply, Nat.add_assoc]

theorem copyOut_congr {n : Nat} (h : ∀ j, start ≤ j → j < start + n → data j = data' j) :
    copyOut data start n = copyOut data' start n := by
  refine List.map_congr_left fun i hi => ?_
  have hi := List.mem_range.mp hi
  apply h <;> omega

theorem copyOut_copyIn (xs : List α) : copyOut (copyIn data start xs) start xs.length = xs := by
  apply List.ext_getElem
  · exact copyOut_length _
  · intro i hi hi'
    simp only [copyOut, List.getElem_map, List.getElem_range]
    rw [copyIn_inside (by omega) (by omega)]
    congr 1
    omega

/-- A block copied behind another one extends it. -/
theorem copyOut_copyIn_extend (h : copyOut data 0 start = xs) (ys : List α) :
    copyOut (copyIn data start ys) 0 (start + ys.length) = xs ++ ys := by
  have hkept : copyOut (copyIn data start ys) 0 start = copyOut data 0 start :=
    copyOut_congr fun j _ hj => copyIn_outside (by omega)
  rw [copyOut_add, Nat.zero_add, hkept, h, copyOut_copyIn]

/-- Two blocks copied one behind the other are read as one. -/
theorem copyOut_copyIn_append (xs ys : List α) :
    copyOut (copyIn (copyIn data 0 xs) xs.length ys) 0 (xs.length + ys.length) = xs ++ ys :=
  copyOut_copyIn_extend (copyOut_copyIn xs) ys

theorem storedAt_copyIn (hstart : start + xs.length ≤ size) : StoredAt size start xs data (copyIn data start xs) where
  stored := by
    intro k hk
    rw [Nat.mod_eq_of_lt (by omega), copyIn_inside (by omega) (by omega)]
    congr 1
    omega
  kept := by
    intro j hj
    apply copyIn_outside
    by_contra hin
    have hne := hj (j - start) (by omega)
    rw [Nat.mod_eq_of_lt (by omega)] at hne
    omega

/-- A block that is written in two pieces, at the end and at the start of the ring. -/
theorem storedAt_split (hstart : start < size) (hfits : xs.length ≤ size) (hwrap : size < start + xs.length) :
    StoredAt size start xs data
      (copyIn (copyIn data start (xs.take (size - start))) 0 (xs.drop (size - start))) where
  stored := by
    intro k hk
    rw [ring_mod hstart (by omega)]
    by_cases hlow : start + k < size
    · rw [if_pos hlow, copyIn_outside (by rw [List.length_drop]; omega),
        copyIn_inside (by omega) (by rw [List.length_take]; omega), List.getElem_take]
      congr 1
      omega
    · rw [if_neg hlow, copyIn_inside (by omega) (by rw [List.length_drop]; omega), List.getElem_drop]
      congr 1
      omega
  kept := by
    intro j hj
    by_cases hlow : j < xs.length - (size - start)
    · have hne := hj (size - start + j) (by omega)
      rw [ring_mod hstart (by omega), if_neg (by omega)] at hne
      omega
    · rw [copyIn_outside (by rw [List.length_drop]; omega)]
      apply copyIn_outside
      rw [List.length_take]
      by_contra hin
      have hne := hj (j - start) (by omega)
      rw [ring_mod hstart (by omega), if_pos (by omega)] at hne
      omega

theorem StoredAt.append {y : List α} {data'' : Nat → α} (h : StoredAt size start xs data data')
    (h' : StoredAt size ((start + xs.length) % size) y data' data'') (hstart : start < size)
    (hfits : xs.length + y.length ≤ size) : StoredAt size start (xs ++ y) data data'' where
  stored := by
    intro k hk
    rw [List.length_append] at hk
    by_cases hfirst : k < xs.length
    · rw [List.getElem_append_left hfirst, ← h.stored k hfirst]
      apply h'.kept
      intro i hi
      rw [Nat.mod_add_mod, ring_mod hstart (by omega), Nat.add_assoc, ring_mod hstart (by omega)]
      split <;> split <;> omega
    · rw [List.getElem_append_right (by omega), ← h'.stored (k - xs.length) (by omega), Nat.mod_add_mod]
      congr 2
      omega
  kept := by
    intro j hj
    rw [h'.kept j ?_, h.kept j ?_]
    · intro k hk
      exact hj k (by rw [List.length_append]; omega)
    · intro k hk
      have hne := hj (xs.length + k) (by rw [List.length_append]; omega)
      rwa [Nat.mod_add_mod, Nat.add_assoc]

/-- A block written behind the used cells extends their window. -/
theorem StoredAt.ringWindow (h : StoredAt size ((head + used) % size) xs data data') (hhead : head < size)
    (hfits : used + xs.length ≤ size) :
    ringWindow data' size head (used + xs.length) = ringWindow data size head used ++ xs := by
  rw [ringWindow_add]
  congr 1
  · refine List.map_congr_left fun i hi => ?_
    have hi := List.mem_range.mp hi
    apply h.kept
    intro k hk
    rw [Nat.mod_add_mod, ring_mod hhead (by omega), Nat.add_assoc, ring_mod hhead (by omega)]
    split <;> split <;> omega
  · apply List.ext_getElem
    · simp [MasterAI.ringWindow]
    · intro k hk hk'
      simp only [MasterAI.ringWindow, List.getElem_map, List.getElem_range]
      exact h.stored k hk'

end

end MasterAI
