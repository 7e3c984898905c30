import Mathlib.Data.List.Basic
import Mathlib.Logic.Function.Basic

namespace MasterAI

section

variable {ν : Type*} {next : ν → Option ν} {head p : Option ν} {f : ν → Bool} {x y : ν} {xs ys : List ν} {n k : Nat}

/-- The nodes that are reached from a head by following links. -/
def Linked (next : ν → Option ν) : Option ν → List ν → Prop
  | head, [] => head = none
  | head, x :: xs => head = some x ∧ Linked next (next x) xs

/-- What a walk along a chain comes to: the node it looks for and the one before it, or the end. -/
inductive Walk (ν : Type*)
  | found (pre : Option ν) (node : ν)
  | absent (count : Nat)

/-- A walk along a chain; nothing where it does not end in time. -/
def walk (next : ν → Option ν) (hit : ν → Bool) : Nat → Option ν → Nat → Option ν → Option (Walk ν)
  | 0, _, _, _ => none
  | _ + 1, _, count, none => some (.absent count)
  | fuel + 1, pre, count, some x =>
    if hit x then some (.found pre x) else walk next hit fuel (some x) (count + 1) (next x)

/-- A walk along a chain stops at the first node that it looks for. -/
theorem walk_linked (h : Linked next head xs) (hfuel : xs.length < n) :
    (∃ before y after, xs = before ++ y :: after ∧ f y = true ∧
        walk next f n p k head = some (.found (before.getLast?.or p) y)) ∨
      (∀ y ∈ xs, f y = false) ∧ walk next f n p k head = some (.absent (k + xs.length)) := by
  induction xs generalizing head p k n with
  | nil =>
    obtain ⟨n, rfl⟩ := Nat.exists_eq_succ_of_ne_zero (show n ≠ 0 by omega)
    obtain rfl : head = none := h
    exact Or.inr ⟨by simp, rfl⟩
  | cons x xs ih =>
    rw [List.length_cons] at hfuel ⊢
    obtain ⟨n, rfl⟩ := Nat.exists_eq_succ_of_ne_zero (show n ≠ 0 by omega)
    obtain ⟨rfl, hrest⟩ := h
    by_cases hx : f x = true
    · exact Or.inl ⟨[], x, xs, rfl, hx, by simp [walk, hx]⟩
    · rcases ih (p := some x) (k := k + 1) (n := n) hrest (by omega) with
        ⟨before, y, after, rfl, hy, hwalk⟩ | ⟨hnone, hwalk⟩
      · refine Or.inl ⟨x :: before, y, after, rfl, hy, ?_⟩
        rw [walk, if_neg hx, hwalk]
        cases before with
        | nil => rfl
        | cons z zs => simp [List.getLast?_cons]
      · refine Or.inr ⟨?_, ?_⟩
        · intro y hy
          rcases List.mem_cons.mp hy with rfl | hy
          · simpa using hx
          · exact hnone y hy
        · rw [walk, if_neg hx, hwalk]
          congr 2
          omega

/-- Only the links of the nodes of a chain matter. -/
theorem Linked.congr {next' : ν → Option ν} (h : Linked next head xs) (hsame : ∀ x ∈ xs, next' x = next x) :
    Linked next' head xs := by
  induction xs generalizing head with
  | nil => exact h
  | cons y ys ih =>
    refine ⟨h.1, ?_⟩
    rw [hsame y (by simp)]
    exact ih h.2 fun x hx => hsame x (List.mem_cons_of_mem _ hx)

/-- A chain is determined by its head and the links. -/
theorem Linked.unique (h : Linked next head xs) (h' : Linked next head ys) : xs = ys := by
  induction xs generalizing head ys with
  | nil =>
    cases ys with
    | nil => rfl
    | cons y ys => exact absurd (h.symm.trans h'.1) (by simp)
  | cons x xs ih =>
    cases ys with
    | nil => exact absurd (h'.symm.trans h.1) (by simp)
    | cons y ys =>
      obtain ⟨rfl, hxs⟩ := h
      obtain ⟨hhead, hys⟩ := h'
      cases hhead
      rw [ih hxs hys]

/-- Two chains are one where the last link of the first leads to the second. -/
theorem Linked.append (h : Linked next head (xs ++ [y])) {next' : ν → Option ν}
    (hsame : ∀ x ∈ xs, next' x = next x) (hys : Linked next' (next' y) ys) : Linked next' head (xs ++ y :: ys) := by
  induction xs generalizing head with
  | nil => exact ⟨h.1, hys⟩
  | cons x xs ih =>
    refine ⟨h.1, ?_⟩
    rw [hsame x (by simp)]
    exact ih h.2 fun z hz => hsame z (by simp [hz])

variable [DecidableEq ν]

theorem Linked.update (h : Linked next head xs) (hx : x ∉ xs) (v : Option ν) :
    Linked (Function.update next x v) head xs := by
  refine h.congr fun y hy => Function.update_of_ne ?_ _ _
  rintro rfl
  exact hx hy

theorem Linked.push (h : Linked next head xs) (hx : x ∉ xs) : Linked (Function.update next x head) (some x) (x :: xs) := by
  refine ⟨rfl, ?_⟩
  rw [Function.update_self]
  exact h.update hx head

/-- A node inside a chain is taken out by linking the one before it to the one behind it. -/
theorem Linked.unlink (h : Linked next head (xs ++ y :: x :: ys)) (hnodup : (xs ++ y :: x :: ys).Nodup) :
    Linked (Function.update next y (next x)) head (xs ++ y :: ys) := by
  induction xs generalizing head with
  | nil =>
    obtain ⟨hhead, -, hrest⟩ := h
    have hy : y ∉ ys := by
      intro hmem
      simp [hmem] at hnodup
    refine ⟨hhead, ?_⟩
    rw [Function.update_self]
    exact hrest.update hy _
  | cons z zs ih =>
    have hz : z ≠ y := by
      rintro rfl
      simp at hnodup
    refine ⟨h.1, ?_⟩
    rw [Function.update_of_ne hz]
    exact ih h.2 (List.nodup_cons.mp hnodup).2

end

end MasterAI
