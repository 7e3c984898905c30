import Mathlib.Data.List.Basic
import Mathlib.Order.Basic

namespace MasterAI

section

variable {α β γ : Type*} {f : α → List β} {xs ys : List α} {b c i m : Nat}

/-- Where the elements that come from an element begin in a flattened list. -/
def offset (f : α → List β) (xs : List α) (b : Nat) : Nat := ((xs.take b).flatMap f).length

theorem offset_zero : offset f xs 0 = 0 := rfl

theorem offset_length : offset f xs xs.length = (xs.flatMap f).length := by
  rw [offset, List.take_length]

theorem offset_succ (hb : b < xs.length) : offset f xs (b + 1) = offset f xs b + (f xs[b]).length := by
  rw [offset, offset, List.take_add_one, List.getElem?_eq_getElem hb, List.flatMap_append, List.length_append]
  simp

theorem offset_add_append :
    offset f (xs ++ ys) (xs.length + b) = (xs.flatMap f).length + offset f ys b := by
  rw [offset, offset, List.take_length_add_append, List.flatMap_append, List.length_append]

theorem offset_append_left (hb : b ≤ xs.length) : offset f (xs ++ ys) b = offset f xs b := by
  rw [offset, offset, List.take_append_of_le_length hb]

theorem offset_mono (hbc : b ≤ c) : offset f xs b ≤ offset f xs c := by
  obtain ⟨d, rfl⟩ := Nat.exists_eq_add_of_le hbc
  rw [offset, offset, List.take_add, List.flatMap_append, List.length_append]
  omega

theorem flatMap_take_drop (f : α → List β) (xs : List α) (b : Nat) :
    xs.flatMap f = (xs.take b).flatMap f ++ (xs.drop b).flatMap f := by
  rw [← List.flatMap_append, List.take_append_drop]

theorem take_offset : (xs.flatMap f).take (offset f xs b) = (xs.take b).flatMap f := by
  rw [flatMap_take_drop f xs b, offset, List.take_left]

/-- The elements from the offset on are those of the element itself. -/
theorem getElem?_offset (hb : b < xs.length) (hi : i < (f xs[b]).length) :
    (xs.flatMap f)[offset f xs b + i]? = (f xs[b])[i]? := by
  rw [flatMap_take_drop f xs b, offset, List.getElem?_append_right (by omega), Nat.add_sub_cancel_left,
    List.drop_eq_getElem_cons hb, List.flatMap_cons, List.getElem?_append_left hi]

/-- Every position of a flattened list lies behind the offset of one element. -/
theorem exists_offset (hm : m < (xs.flatMap f).length) :
    ∃ b < xs.length, offset f xs b ≤ m ∧ m < offset f xs (b + 1) := by
  induction xs generalizing m with
  | nil => simp at hm
  | cons x xs ih =>
    by_cases hfirst : m < (f x).length
    · exact ⟨0, by simp, by simp [offset], by simpa [offset] using hfirst⟩
    · rw [List.flatMap_cons, List.length_append] at hm
      obtain ⟨b, hb, hlo, hhi⟩ := ih (m := m - (f x).length) (by omega)
      refine ⟨b + 1, by rw [List.length_cons]; omega, ?_, ?_⟩
      · simp only [offset, List.take_succ_cons, List.flatMap_cons, List.length_append] at hlo ⊢
        omega
      · simp only [offset, List.take_succ_cons, List.flatMap_cons, List.length_append] at hhi ⊢
        omega

theorem offset_unique (hlo : offset f xs b ≤ m) (hhi : m < offset f xs (b + 1)) (hlo' : offset f xs c ≤ m)
    (hhi' : m < offset f xs (c + 1)) : b = c := by
  rcases Nat.lt_trichotomy b c with hlt | heq | hlt
  · have : offset f xs (b + 1) ≤ offset f xs c := offset_mono (by omega)
    omega
  · exact heq
  · have : offset f xs (c + 1) ≤ offset f xs b := offset_mono (by omega)
    omega

/-- The elements some levels below an element, where each level has its own successors. -/
def descend (next : Nat → α → List α) : Nat → Nat → α → List α
  | 0, _, x => [x]
  | k + 1, level, x => (next level x).flatMap (descend next k (level + 1))

variable {next : Nat → α → List α} {level k l : Nat} {x : α}

theorem descend_add :
    descend next (k + l) level x = (descend next k level x).flatMap (descend next l (level + k)) := by
  induction k generalizing level x with
  | zero => simp [descend]
  | succ k ih =>
    rw [Nat.add_right_comm, descend, descend, List.flatMap_assoc]
    congr 1
    funext y
    rw [ih, Nat.add_right_comm, Nat.add_assoc]

theorem flatMap_descend_add :
    (xs.flatMap (descend next k level)).flatMap (descend next l (level + k)) = xs.flatMap (descend next (k + l) level) := by
  rw [List.flatMap_assoc]
  congr 1
  funext y
  exact descend_add.symm

/-- Offsets over two steps down are offsets over one. -/
theorem offset_offset :
    offset (descend next l (level + k)) (xs.flatMap (descend next k level)) (offset (descend next k level) xs b) =
      offset (descend next (k + l) level) xs b := by
  rw [offset, take_offset, flatMap_descend_add]
  rfl

end

end MasterAI
