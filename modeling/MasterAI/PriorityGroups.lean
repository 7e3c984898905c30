import Mathlib.Data.List.Perm.Basic
import Mathlib.Order.Lattice

namespace MasterAI

section

variable {κ β γ : Type*} {groups : List (κ × List β)} {p : β → Bool}

/-- The groups without the elements that are taken, and without the groups that have none left. -/
def leftGroups (p : β → Bool) (groups : List (κ × List β)) : List (κ × List β) :=
  (groups.map fun g => (g.1, g.2.filter fun x => !p x)).filter fun g => !g.2.isEmpty

/-- The elements that are taken, group by group. -/
def takenGroups (p : β → Bool) (groups : List (κ × List β)) : List β := groups.flatMap fun g => g.2.filter p

theorem leftGroups_cons (p : β → Bool) (k : κ) (xs : List β) (groups : List (κ × List β)) :
    leftGroups p ((k, xs) :: groups) =
      if (xs.filter fun x => !p x).isEmpty then leftGroups p groups
      else (k, xs.filter fun x => !p x) :: leftGroups p groups := by
  rw [leftGroups, List.map_cons, List.filter_cons]
  cases (xs.filter fun x => !p x).isEmpty with
  | true => rfl
  | false => rfl

theorem takenGroups_cons (p : β → Bool) (k : κ) (xs : List β) (groups : List (κ × List β)) :
    takenGroups p ((k, xs) :: groups) = xs.filter p ++ takenGroups p groups :=
  List.flatMap_cons

theorem mem_leftGroups {g : κ × List β} :
    g ∈ leftGroups p groups ↔ (∃ xs, (g.1, xs) ∈ groups ∧ g.2 = xs.filter fun x => !p x) ∧ g.2 ≠ [] := by
  unfold leftGroups
  rw [List.mem_filter, List.mem_map, Bool.not_eq_true', List.isEmpty_eq_false_iff]
  refine and_congr_left fun _ => ⟨?_, ?_⟩
  · rintro ⟨⟨k, xs⟩, hmem, rfl⟩
    exact ⟨xs, hmem, rfl⟩
  · rintro ⟨xs, hmem, hxs⟩
    exact ⟨(g.1, xs), hmem, Prod.ext rfl hxs.symm⟩

variable [LinearOrder κ] {k : κ} {x : β}

/-- An element goes to the end of the group of its key, which is put in its place where there is none. -/
def insertGroup (k : κ) (x : β) : List (κ × List β) → List (κ × List β)
  | [] => [(k, [x])]
  | (k', xs) :: groups =>
    if k' = k then (k', xs ++ [x]) :: groups
    else if k < k' then (k, [x]) :: (k', xs) :: groups
    else (k', xs) :: insertGroup k x groups

theorem map_insertGroup (f : β → γ) (k : κ) (x : β) (groups : List (κ × List β)) :
    (insertGroup k x groups).map (fun g => (g.1, g.2.map f)) =
      insertGroup k (f x) (groups.map fun g => (g.1, g.2.map f)) := by
  induction groups with
  | nil => rfl
  | cons g groups ih =>
    obtain ⟨k', xs⟩ := g
    rw [insertGroup, List.map_cons, insertGroup]
    split
    · simp
    · split
      · rfl
      · rw [List.map_cons, ih]

/-- A group after an insertion is a group from before it with another key, or the group that got the element. -/
theorem mem_insertGroup (hsorted : groups.Pairwise fun g g' => g.1 < g'.1) {g : κ × List β}
    (hg : g ∈ insertGroup k x groups) :
    (g ∈ groups ∧ g.1 ≠ k) ∨ (∃ xs, (k, xs) ∈ groups ∧ g = (k, xs ++ [x])) ∨
      ((∀ g' ∈ groups, g'.1 ≠ k) ∧ g = (k, [x])) := by
  induction groups with
  | nil =>
    right
    right
    exact ⟨by simp, List.mem_singleton.mp hg⟩
  | cons g' groups ih =>
    obtain ⟨k', xs⟩ := g'
    obtain ⟨hfirst, hrest⟩ := List.pairwise_cons.mp hsorted
    rw [insertGroup] at hg
    split at hg
    · rename_i hk
      subst hk
      rcases List.mem_cons.mp hg with rfl | hg
      · right
        left
        exact ⟨xs, List.mem_cons_self, rfl⟩
      · left
        exact ⟨List.mem_cons_of_mem _ hg, (hfirst g hg).ne'⟩
    · rename_i hk
      split at hg
      · rename_i hlt
        have hnone : ∀ g' ∈ (k', xs) :: groups, k < g'.1 := by
          intro g' hg'
          rcases List.mem_cons.mp hg' with rfl | hg'
          · exact hlt
          · exact hlt.trans (hfirst g' hg')
        rcases List.mem_cons.mp hg with rfl | hg
        · right
          right
          exact ⟨fun g' hg' => (hnone g' hg').ne', rfl⟩
        · left
          exact ⟨hg, (hnone g hg).ne'⟩
      · rcases List.mem_cons.mp hg with rfl | hg
        · left
          exact ⟨List.mem_cons_self, hk⟩
        · rcases ih hrest hg with ⟨hmem, hne⟩ | ⟨ys, hmem, rfl⟩ | ⟨hnone, rfl⟩
          · left
            exact ⟨List.mem_cons_of_mem _ hmem, hne⟩
          · right
            left
            exact ⟨ys, List.mem_cons_of_mem _ hmem, rfl⟩
          · right
            right
            exact ⟨List.forall_mem_cons.mpr ⟨hk, hnone⟩, rfl⟩

theorem exists_key_insertGroup (k : κ) (x : β) (groups : List (κ × List β)) :
    ∃ g ∈ insertGroup k x groups, g.1 = k := by
  induction groups with
  | nil => exact ⟨(k, [x]), List.mem_singleton_self _, rfl⟩
  | cons g groups ih =>
    obtain ⟨k', xs⟩ := g
    rw [insertGroup]
    split
    · rename_i hk
      exact ⟨(k', xs ++ [x]), List.mem_cons_self, hk⟩
    · split
      · exact ⟨(k, [x]), List.mem_cons_self, rfl⟩
      · obtain ⟨g, hg, hkey⟩ := ih
        exact ⟨g, List.mem_cons_of_mem _ hg, hkey⟩

/-- No key is lost. -/
theorem exists_key_insertGroup_of_mem {g : κ × List β} (hg : g ∈ groups) (k : κ) (x : β) :
    ∃ g' ∈ insertGroup k x groups, g'.1 = g.1 := by
  induction groups with
  | nil => simp at hg
  | cons g' groups ih =>
    obtain ⟨k', xs⟩ := g'
    rw [insertGroup]
    rcases List.mem_cons.mp hg with rfl | hg
    · split
      · exact ⟨_, List.mem_cons_self, rfl⟩
      · split
        · exact ⟨_, List.mem_cons_of_mem _ List.mem_cons_self, rfl⟩
        · exact ⟨_, List.mem_cons_self, rfl⟩
    · split
      · exact ⟨g, List.mem_cons_of_mem _ hg, rfl⟩
      · split
        · exact ⟨g, List.mem_cons_of_mem _ (List.mem_cons_of_mem _ hg), rfl⟩
        · obtain ⟨g', hg', hkey⟩ := ih hg
          exact ⟨g', List.mem_cons_of_mem _ hg', hkey⟩

theorem pairwise_insertGroup (hsorted : groups.Pairwise fun g g' => g.1 < g'.1) :
    (insertGroup k x groups).Pairwise fun g g' => g.1 < g'.1 := by
  induction groups with
  | nil => exact List.pairwise_singleton _ _
  | cons g groups ih =>
    obtain ⟨k', xs⟩ := g
    obtain ⟨hfirst, hrest⟩ := List.pairwise_cons.mp hsorted
    rw [insertGroup]
    split
    · exact List.pairwise_cons.mpr ⟨hfirst, hrest⟩
    · rename_i hk
      split
      · rename_i hlt
        refine List.pairwise_cons.mpr ⟨?_, hsorted⟩
        intro g' hg'
        rcases List.mem_cons.mp hg' with rfl | hg'
        · exact hlt
        · exact hlt.trans (hfirst g' hg')
      · rename_i hlt
        refine List.pairwise_cons.mpr ⟨?_, ih hrest⟩
        intro g' hg'
        have hkk : k' < k := lt_of_le_of_ne (not_lt.mp hlt) hk
        rcases mem_insertGroup hrest hg' with ⟨hmem, _⟩ | ⟨ys, _, rfl⟩ | ⟨_, rfl⟩
        · exact hfirst g' hmem
        · exact hkk
        · exact hkk

/-- The groups hold a list, in its order, under rising keys. -/
structure Grouped (key : β → κ) (groups : List (κ × List β)) (l : List β) : Prop where
  sorted : groups.Pairwise fun g g' => g.1 < g'.1
  nonempty : ∀ g ∈ groups, g.2 ≠ []
  group : ∀ g ∈ groups, g.2 = l.filter fun x => key x = g.1
  covers : ∀ x ∈ l, ∃ g ∈ groups, g.1 = key x

variable {key : β → κ} {l : List β} {R : β → β → Prop}

theorem Grouped.empty : Grouped key [] [] where
  sorted := .nil
  nonempty := by simp
  group := by simp
  covers := by simp

theorem Grouped.filter_eq_nil (h : Grouped key groups l) (hk : ∀ g ∈ groups, g.1 ≠ k) :
    (l.filter fun x => key x = k) = [] := by
  rw [List.filter_eq_nil_iff]
  intro x hx hkey
  obtain ⟨g, hg, hgx⟩ := h.covers x hx
  exact hk g hg (hgx.trans (of_decide_eq_true hkey))

theorem Grouped.insert (h : Grouped key groups l) (x : β) :
    Grouped key (insertGroup (key x) x groups) (l ++ [x]) where
  sorted := pairwise_insertGroup h.sorted
  nonempty := by
    intro g hg
    rcases mem_insertGroup h.sorted hg with ⟨hmem, _⟩ | ⟨xs, _, rfl⟩ | ⟨_, rfl⟩
    · exact h.nonempty g hmem
    · simp
    · simp
  group := by
    intro g hg
    rw [List.filter_append]
    rcases mem_insertGroup h.sorted hg with ⟨hmem, hne⟩ | ⟨xs, hmem, rfl⟩ | ⟨hnone, rfl⟩
    · rw [← h.group g hmem, List.filter_cons_of_neg (by simpa using hne.symm), List.filter_nil, List.append_nil]
    · have hxs : xs = l.filter fun y => key y = key x := h.group _ hmem
      rw [← hxs, List.filter_cons_of_pos (by simp), List.filter_nil]
    · rw [h.filter_eq_nil hnone, List.filter_cons_of_pos (by simp), List.filter_nil, List.nil_append]
  covers := by
    intro y hy
    rcases List.mem_append.mp hy with hy | hy
    · obtain ⟨g, hg, hkey⟩ := h.covers y hy
      obtain ⟨g', hg', hkey'⟩ := exists_key_insertGroup_of_mem hg (key x) x
      exact ⟨g', hg', hkey'.trans hkey⟩
    · rw [List.mem_singleton.mp hy]
      exact exists_key_insertGroup (key x) x groups

/-- What is left is grouped as before. -/
theorem Grouped.left (h : Grouped key groups l) (p : β → Bool) :
    Grouped key (leftGroups p groups) (l.filter fun x => !p x) where
  sorted := by
    unfold leftGroups
    apply List.Pairwise.filter
    rw [List.pairwise_map]
    exact h.sorted
  nonempty := fun _ hg => (mem_leftGroups.mp hg).2
  group := by
    intro g hg
    obtain ⟨⟨xs, hmem, hxs⟩, _⟩ := mem_leftGroups.mp hg
    have hgroup : xs = l.filter fun x => key x = g.1 := h.group _ hmem
    rw [hxs, hgroup]
    exact List.filter_comm ..
  covers := by
    intro x hx
    obtain ⟨hx, hp⟩ := List.mem_filter.mp hx
    obtain ⟨g, hg, hkey⟩ := h.covers x hx
    refine ⟨(g.1, g.2.filter fun x => !p x), mem_leftGroups.mpr ⟨⟨g.2, hg, rfl⟩, ?_⟩, hkey⟩
    have hxg : x ∈ g.2 := by
      rw [h.group g hg]
      exact List.mem_filter.mpr ⟨hx, by simpa using hkey.symm⟩
    exact List.ne_nil_of_mem (List.mem_filter.mpr ⟨hxg, hp⟩)

/-- Under different keys that cover a list, the parts of the keys make up the list. -/
theorem flatMap_filter_perm {keys : List κ} (hkeys : keys.Nodup) (h : ∀ x ∈ l, key x ∈ keys) :
    (keys.flatMap fun k => l.filter fun x => key x = k).Perm l := by
  induction keys generalizing l with
  | nil =>
    cases l with
    | nil => exact .refl _
    | cons x l =>
      have hx := h x List.mem_cons_self
      simp at hx
  | cons k keys ih =>
    obtain ⟨hk, hkeys⟩ := List.nodup_cons.mp hkeys
    have hother : (keys.flatMap fun k' => l.filter fun x => key x = k') =
        keys.flatMap fun k' => (l.filter fun x => !decide (key x = k)).filter fun x => key x = k' := by
      apply List.flatMap_congr
      intro k' hk'
      rw [List.filter_filter]
      apply List.filter_congr
      intro x _
      by_cases hx : key x = k'
      · have hne : k' ≠ k := fun heq => hk (heq ▸ hk')
        simp [hx, hne]
      · simp [hx]
    have hrest := ih (l := l.filter fun x => !decide (key x = k)) hkeys <| by
      intro x hx
      obtain ⟨hx, hne⟩ := List.mem_filter.mp hx
      rcases List.mem_cons.mp (h x hx) with heq | hmem
      · simp [heq] at hne
      · exact hmem
    rw [List.flatMap_cons, hother]
    exact (hrest.append_left _).trans (List.filter_append_perm _ l)

/-- Exactly the elements that are to be taken are taken, and each as often as it is there. -/
theorem Grouped.taken_perm (h : Grouped key groups l) (p : β → Bool) : (takenGroups p groups).Perm (l.filter p) := by
  have hkeys : (groups.map Prod.fst).Nodup := by
    rw [List.Nodup, List.pairwise_map]
    exact h.sorted.imp ne_of_lt
  have htaken : takenGroups p groups = (groups.map Prod.fst).flatMap fun k => (l.filter p).filter fun x => key x = k := by
    rw [takenGroups, List.flatMap_map]
    apply List.flatMap_congr
    intro g hg
    rw [h.group g hg]
    exact List.filter_comm ..
  rw [htaken]
  apply flatMap_filter_perm hkeys
  intro x hx
  obtain ⟨g, hg, hkey⟩ := h.covers x (List.mem_of_mem_filter hx)
  exact List.mem_map.mpr ⟨g, hg, hkey⟩

/-- The elements are taken in the order of their keys, and in the order of the list within a key. -/
theorem Grouped.taken_pairwise (h : Grouped key groups l) (hl : l.Pairwise R) (p : β → Bool) :
    (takenGroups p groups).Pairwise fun x y => key x < key y ∨ (key x = key y ∧ R x y) := by
  have hmem : ∀ g ∈ groups, ∀ x ∈ g.2.filter p, key x = g.1 := by
    intro g hg x hx
    have hx := List.mem_of_mem_filter hx
    rw [h.group g hg] at hx
    exact of_decide_eq_true (List.mem_filter.mp hx).2
  unfold takenGroups
  rw [List.pairwise_flatMap]
  refine ⟨?_, ?_⟩
  · intro g hg
    have hgroup : (g.2.filter p).Pairwise R := by
      rw [h.group g hg]
      exact (hl.filter _).filter _
    refine hgroup.imp_of_mem fun {x y} hx hy hR => ?_
    right
    exact ⟨(hmem g hg x hx).trans (hmem g hg y hy).symm, hR⟩
  · refine h.sorted.imp_of_mem fun {g g'} hg hg' hlt x hx y hy => ?_
    left
    rw [hmem g hg x hx, hmem g' hg' y hy]
    exact hlt

end

end MasterAI
