import Mathlib.Data.List.Nodup
import Mathlib.Logic.Function.Basic

namespace MasterAI

section

variable {α : Type*} {m q q' : Nat} {f : Nat → List α} {l : List α} {x : α}

/-- The elements of the first `m` lists of a family. -/
def gather (m : Nat) (f : Nat → List α) : List α := (List.range m).flatMap f

theorem mem_gather (hq : q < m) (hx : x ∈ f q) : x ∈ gather m f :=
  List.mem_flatMap.mpr ⟨q, List.mem_range.mpr hq, hx⟩

/-- One list of a family stands apart from the others. -/
theorem gather_perm (hq : q < m) (f : Nat → List α) :
    (gather m f).Perm (f q ++ ((List.range m).erase q).flatMap f) := by
  have hperm := (List.perm_cons_erase (List.mem_range.mpr hq)).flatMap_right f
  rwa [List.flatMap_cons] at hperm

theorem flatMap_erase_update (m q : Nat) (f : Nat → List α) (l : List α) :
    ((List.range m).erase q).flatMap (Function.update f q l) = ((List.range m).erase q).flatMap f := by
  apply List.flatMap_congr
  intro i hi
  have hne : i ≠ q := fun heq => List.nodup_range.not_mem_erase (heq ▸ hi)
  rw [Function.update_of_ne hne]

/-- Another list in the place of one of the family. -/
theorem gather_update (hq : q < m) (f : Nat → List α) (l : List α) :
    (gather m (Function.update f q l) ++ f q).Perm (gather m f ++ l) := by
  have hnew := gather_perm hq (Function.update f q l)
  rw [Function.update_self, flatMap_erase_update] at hnew
  refine (hnew.append_right (f q)).trans (List.Perm.trans ?_ ((gather_perm hq f).append_right l).symm)
  refine List.perm_append_comm.trans ?_
  rw [List.append_assoc]
  exact List.perm_append_comm.append_left (f q)

/-- One list of the family grows by an element. -/
theorem gather_update_cons (hq : q < m) (hl : l.Perm (x :: f q)) :
    (gather m (Function.update f q l)).Perm (x :: gather m f) := by
  have hmoved := (gather_update hq f l).trans (hl.append_left (gather m f))
  exact (List.perm_append_right_iff (f q)).mp (hmoved.trans List.perm_middle)

/-- One list of the family gives up an element. -/
theorem gather_update_uncons (hq : q < m) (hl : (f q).Perm (x :: l)) :
    (gather m f).Perm (x :: gather m (Function.update f q l)) := by
  have hback := gather_update_cons (f := Function.update f q l) (l := f q) hq (by rwa [Function.update_self])
  rwa [Function.update_idem, Function.update_eq_self] at hback

theorem nodup_of_gather (hnodup : (gather m f).Nodup) (hq : q < m) : (f q).Nodup :=
  (List.nodup_append.mp ((gather_perm hq f).nodup_iff.mp hnodup)).1

/-- An element of a family without repetitions is in one list only. -/
theorem notMem_of_gather (hnodup : (gather m f).Nodup) (hq : q < m) (hq' : q' < m) (hne : q' ≠ q)
    (hx : x ∈ f q) : x ∉ f q' := by
  intro hx'
  have hsplit := (gather_perm hq f).nodup_iff.mp hnodup
  have hmem : q' ∈ (List.range m).erase q := (List.mem_erase_of_ne hne).mpr (List.mem_range.mpr hq')
  exact (List.nodup_append.mp hsplit).2.2 x hx x (List.mem_flatMap.mpr ⟨q', hmem, hx'⟩) rfl

end

end MasterAI
