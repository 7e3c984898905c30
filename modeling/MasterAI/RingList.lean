import Mathlib.Data.List.Chain
import Mathlib.Logic.Function.Basic

namespace MasterAI

section

variable {ν : Type*} {next prev next' prev' : ν → Option ν} {head : Option ν} {p x y z : ν} {xs ys : List ν}

/-- Two nodes that are linked to each other. -/
def Joined (next prev : ν → Option ν) (x y : ν) : Prop := next x = some y ∧ prev y = some x

/-- A list of nodes that are joined in a circle, with a head that points to the first of them. -/
structure Ring (next prev : ν → Option ν) (head : Option ν) (xs : List ν) : Prop where
  first : head = xs.head?
  row : xs.IsChain (Joined next prev)
  closed : ∀ x ∈ xs.head?, ∀ y ∈ xs.getLast?, Joined next prev y x

/-- Of a row only the links between its nodes matter. -/
theorem row_congr (h : (x :: xs).IsChain (Joined next prev)) (hnext : ∀ y ∈ (x :: xs).dropLast, next' y = next y)
    (hprev : ∀ y ∈ xs, prev' y = prev y) : (x :: xs).IsChain (Joined next' prev') := by
  induction xs generalizing x with
  | nil => simp
  | cons y ys ih =>
    obtain ⟨hjoined, hrest⟩ := List.isChain_cons_cons.mp h
    refine List.isChain_cons_cons.mpr ⟨⟨?_, ?_⟩, ih hrest (fun z hz => hnext z ?_) fun z hz => hprev z (by simp [hz])⟩
    · rw [hnext x (by simp)]
      exact hjoined.1
    · rw [hprev y (by simp)]
      exact hjoined.2
    · rw [List.dropLast_cons_of_ne_nil (by simp)]
      exact List.mem_cons_of_mem _ hz

theorem Ring.congr (h : Ring next prev head xs) (hnext : ∀ y ∈ xs, next' y = next y)
    (hprev : ∀ y ∈ xs, prev' y = prev y) : Ring next' prev' head xs := by
  refine ⟨h.first, ?_, fun x hx y hy => ?_⟩
  · cases xs with
    | nil => simp
    | cons x xs =>
      exact row_congr h.row (fun y hy => hnext y ((List.dropLast_sublist _).mem hy)) fun y hy => hprev y (by simp [hy])
  · have hjoined := h.closed x hx y hy
    exact ⟨(hnext y (List.mem_of_mem_getLast? hy)).trans hjoined.1,
      (hprev x (List.mem_of_mem_head? hx)).trans hjoined.2⟩

theorem Ring.single (hnext : next x = some x) (hprev : prev x = some x) : Ring next prev (some x) [x] := by
  refine ⟨rfl, by simp, fun a ha b hb => ?_⟩
  simp only [List.head?_cons, List.getLast?_singleton, Option.mem_some] at ha hb
  subst ha hb
  exact ⟨hnext, hprev⟩

theorem notMem_dropLast {l : List ν} (hlast : l.getLast? = some z) (hnodup : l.Nodup) : z ∉ l.dropLast := by
  rw [← List.dropLast_append_getLast? z hlast] at hnodup
  intro hmem
  exact (List.nodup_append.mp hnodup).2.2 z hmem z (by simp) rfl

theorem Ring.prev_first (h : Ring next prev head (x :: xs)) (hlast : (x :: xs).getLast? = some z) :
    prev x = some z :=
  (h.closed x rfl z hlast).2

variable [DecidableEq ν]

/-- A node is put in front of the first one, between it and the last. -/
theorem Ring.pushFront (h : Ring next prev head (x :: xs)) (hlast : (x :: xs).getLast? = some z)
    (hnodup : (p :: x :: xs).Nodup) :
    Ring (Function.update (Function.update next z (some p)) p (some x))
      (Function.update (Function.update prev p (some z)) x (some p)) (some p) (p :: x :: xs) := by
  obtain ⟨hp, hx, -⟩ : p ∉ x :: xs ∧ x ∉ xs ∧ xs.Nodup := by simpa using hnodup
  have hz := List.mem_of_mem_getLast? hlast
  have hzp : z ≠ p := fun heq => hp (heq ▸ hz)
  have hxp : x ≠ p := fun heq => hp (by simp [heq])
  have hdrop := notMem_dropLast hlast (List.nodup_cons.mp hnodup).2
  refine ⟨rfl, List.isChain_cons_cons.mpr ⟨⟨?_, ?_⟩, row_congr h.row ?_ ?_⟩, ?_⟩
  · exact Function.update_self _ _ _
  · exact Function.update_self _ _ _
  · intro y hy
    have hyp : y ≠ p := fun heq => hp (heq ▸ (List.dropLast_sublist _).mem hy)
    have hyz : y ≠ z := fun heq => hdrop (heq ▸ hy)
    rw [Function.update_of_ne hyp, Function.update_of_ne hyz]
  · intro y hy
    have hyx : y ≠ x := fun heq => hx (heq ▸ hy)
    have hyp : y ≠ p := fun heq => hp (heq ▸ List.mem_cons_of_mem _ hy)
    rw [Function.update_of_ne hyx, Function.update_of_ne hyp]
  · intro a ha b hb
    rw [List.head?_cons, Option.mem_some] at ha
    rw [List.getLast?_cons_cons, hlast, Option.mem_some] at hb
    subst ha hb
    refine ⟨?_, ?_⟩
    · rw [Function.update_of_ne hzp, Function.update_self]
    · rw [Function.update_of_ne hxp.symm, Function.update_self]

/-- A row becomes a ring when its last node is joined to the first. -/
theorem Ring.ofRow (h : (x :: ys).IsChain (Joined next prev)) (hlast : (x :: ys).getLast? = some z)
    (hnodup : (x :: ys).Nodup) :
    Ring (Function.update next z (some x)) (Function.update prev x (some z)) (some x) (x :: ys) := by
  have hdrop := notMem_dropLast hlast hnodup
  refine ⟨rfl, row_congr h ?_ ?_, ?_⟩
  · intro y hy
    have hyz : y ≠ z := fun heq => hdrop (heq ▸ hy)
    rw [Function.update_of_ne hyz]
  · intro y hy
    have hyx : y ≠ x := fun heq => (List.nodup_cons.mp hnodup).1 (heq ▸ hy)
    rw [Function.update_of_ne hyx]
  · intro a ha b hb
    rw [List.head?_cons, Option.mem_some] at ha
    rw [hlast, Option.mem_some] at hb
    subst ha hb
    exact ⟨Function.update_self _ _ _, Function.update_self _ _ _⟩

/-- The last node is taken out, and the one before it is joined to the first. -/
theorem Ring.popBack (h : Ring next prev head (x :: ys ++ [p])) (hlast : (x :: ys).getLast? = some z)
    (hnodup : (x :: ys ++ [p]).Nodup) :
    prev p = some z ∧ Ring (Function.update next z (some x)) (Function.update prev x (some z)) head (x :: ys) := by
  obtain ⟨hrow, -, hjoin⟩ := List.isChain_append.mp h.row
  refine ⟨(hjoin z hlast p rfl).2, ?_⟩
  rw [show head = some x from h.first]
  exact Ring.ofRow hrow hlast (List.nodup_append.mp hnodup).1

end

end MasterAI
