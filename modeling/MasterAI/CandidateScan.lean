import Mathlib.Data.List.Induction
import Mathlib.Order.Defs.PartialOrder

namespace MasterAI

section FirstBest

variable {ι α : Type*} (better : α → α → Prop)

/-- An entry that beats the bound, every entry before it, and is beaten by no entry after it. -/
def FirstBest (bound : α) (entries : List (ι × α)) (e : ι × α) : Prop :=
  better e.2 bound ∧ ∃ before after, entries = before ++ e :: after ∧
    (∀ x ∈ before, better e.2 x.2) ∧ ∀ x ∈ after, ¬better x.2 e.2

variable {better} {e : ι × α} {entries : List (ι × α)} {bound : α}

theorem FirstBest.mem (h : FirstBest better bound entries e) : e ∈ entries := by
  obtain ⟨_, before, after, rfl, _⟩ := h
  simp

theorem FirstBest.not_better (hasymm : ∀ a b, better a b → ¬better b a) (h : FirstBest better bound entries e) :
    ∀ x ∈ entries, ¬better x.2 e.2 := by
  obtain ⟨_, before, after, rfl, hbefore, hafter⟩ := h
  intro x hx
  rcases List.mem_append.mp hx with hx | hx
  · exact hasymm _ _ (hbefore x hx)
  rcases List.mem_cons.mp hx with rfl | hx
  · exact fun hself => hasymm _ _ hself hself
  · exact hafter x hx

theorem FirstBest.append_worse {x : ι × α} (h : FirstBest better bound entries e) (hx : ¬better x.2 e.2) :
    FirstBest better bound (entries ++ [x]) e := by
  obtain ⟨hbound, before, after, rfl, hbefore, hafter⟩ := h
  refine ⟨hbound, before, after ++ [x], by simp, hbefore, ?_⟩
  intro y hy
  rcases List.mem_append.mp hy with hy | hy
  · exact hafter y hy
  · rw [List.mem_singleton.mp hy]
    exact hx

theorem FirstBest.append_better {x : ι × α} (hweak : ∀ a b c, better a b → better a c ∨ better c b)
    (hasymm : ∀ a b, better a b → ¬better b a) (h : FirstBest better bound entries e) (hx : better x.2 e.2) :
    FirstBest better bound (entries ++ [x]) x := by
  have hmin := h.not_better hasymm
  have hbound : better x.2 bound :=
    (hweak x.2 e.2 bound hx).resolve_right fun hb => hasymm _ _ hb h.1
  refine ⟨hbound, entries, [], rfl, fun y hy => ?_, by simp⟩
  exact (hweak x.2 e.2 y.2 hx).resolve_right (hmin y hy)

/-- Among entries in the order of their keys, the first best one beats every entry of a lower key. -/
theorem FirstBest.better_of_key_lt [Preorder ι] (hsorted : entries.Pairwise fun x y => x.1 ≤ y.1)
    (h : FirstBest better bound entries e) : ∀ x ∈ entries, x.1 < e.1 → better e.2 x.2 := by
  obtain ⟨_, before, after, rfl, hbefore, _⟩ := h
  intro x hx hlt
  rcases List.mem_append.mp hx with hx | hx
  · exact hbefore x hx
  have hle : e.1 ≤ x.1 := by
    rcases List.mem_cons.mp hx with rfl | hx
    · exact le_rfl
    · exact (List.pairwise_cons.mp (List.pairwise_append.mp hsorted).2.1).1 x hx
  exact absurd hle hlt.not_ge

/-- The scan that keeps the first entry whose value beats the best value so far. -/
def scanBest (better : α → α → Prop) [DecidableRel better] (start : ι × α) (entries : List (ι × α)) : ι × α :=
  entries.foldl (fun best e => if better e.2 best.2 then e else best) start

variable [DecidableRel better]

theorem scanBest_append_singleton (start x : ι × α) :
    scanBest better start (entries ++ [x]) =
      if better x.2 (scanBest better start entries).2 then x else scanBest better start entries := by
  rw [scanBest, List.foldl_append]
  rfl

/-- The scan ends with its start where no entry beats it, and else with the first of the best entries. -/
theorem scanBest_spec (hweak : ∀ a b c, better a b → better a c ∨ better c b)
    (hasymm : ∀ a b, better a b → ¬better b a) (start : ι × α) (entries : List (ι × α)) :
    (scanBest better start entries = start ∧ ∀ e ∈ entries, ¬better e.2 start.2) ∨
      FirstBest better start.2 entries (scanBest better start entries) := by
  induction entries using List.reverseRecOn with
  | nil => exact .inl ⟨rfl, by simp⟩
  | append_singleton entries x ih =>
    rw [scanBest_append_singleton]
    split
    next hx =>
      right
      rcases ih with ⟨hstart, hnone⟩ | hbest
      · rw [hstart] at hx
        refine ⟨hx, entries, [], rfl, fun y hy => ?_, by simp⟩
        exact (hweak x.2 start.2 y.2 hx).resolve_right (hnone y hy)
      · exact hbest.append_better hweak hasymm hx
    next hx =>
      rcases ih with ⟨hstart, hnone⟩ | hbest
      · left
        refine ⟨hstart, fun y hy => ?_⟩
        rcases List.mem_append.mp hy with hy | hy
        · exact hnone y hy
        · rw [List.mem_singleton.mp hy, ← hstart]
          exact hx
      · exact .inr (hbest.append_worse hx)

theorem scanBest_mem_or_start (better : α → α → Prop) [DecidableRel better] (start : ι × α) (entries : List (ι × α)) :
    scanBest better start entries = start ∨ scanBest better start entries ∈ entries := by
  induction entries using List.reverseRecOn with
  | nil => exact .inl rfl
  | append_singleton entries x ih =>
    rw [scanBest_append_singleton]
    split
    · simp
    · rcases ih with hstart | hmem
      · exact .inl hstart
      · exact .inr (by simp [hmem])

end FirstBest

section Collect

variable {β : Type*}

/-- What the rounds of a counting loop append to a list; nothing where a round fails. -/
def collectLoop (f : Nat → Option (List β)) : Nat → Option (List β)
  | 0 => some []
  | n + 1 => (collectLoop f n).bind fun collected => (f n).map fun more => collected ++ more

variable {f : Nat → Option (List β)} {n : Nat}

theorem collectLoop_isSome : (collectLoop f n).isSome ↔ ∀ i < n, (f i).isSome := by
  induction n with
  | zero => simp [collectLoop]
  | succ n ih =>
    cases hc : collectLoop f n with
    | none =>
      simp only [hc, Option.isSome_none, Bool.false_eq_true, false_iff] at ih
      simp only [collectLoop, hc, Option.bind_none, Option.isSome_none, Bool.false_eq_true, false_iff]
      exact fun hall => ih fun i hi => hall i (by omega)
    | some collected =>
      simp only [hc, Option.isSome_some, true_iff] at ih
      simp only [collectLoop, hc, Option.bind_some, Option.isSome_map]
      constructor
      · intro hlast i hi
        rcases Nat.lt_succ_iff_lt_or_eq.mp hi with hi | rfl
        · exact ih i hi
        · exact hlast
      · exact fun hall => hall n (by omega)

theorem mem_collectLoop {collected : List β} (h : collectLoop f n = some collected) {e : β} :
    e ∈ collected ↔ ∃ i < n, ∃ more, f i = some more ∧ e ∈ more := by
  induction n generalizing collected with
  | zero =>
    obtain rfl := Option.some.inj h
    simp
  | succ n ih =>
    obtain ⟨before, hbefore, h⟩ := Option.bind_eq_some_iff.mp h
    obtain ⟨last, hlast, rfl⟩ := Option.map_eq_some_iff.mp h
    rw [List.mem_append, ih hbefore]
    constructor
    · rintro (⟨i, hi, more, hmore, hmem⟩ | hmem)
      · exact ⟨i, by omega, more, hmore, hmem⟩
      · exact ⟨n, by omega, last, hlast, hmem⟩
    · rintro ⟨i, hi, more, hmore, hmem⟩
      rcases Nat.lt_succ_iff_lt_or_eq.mp hi with hi | rfl
      · exact .inl ⟨i, hi, more, hmore, hmem⟩
      · rw [hlast, Option.some.injEq] at hmore
        rw [hmore]
        exact .inr hmem

/-- Rounds that append entries under their own number give a list in the order of the keys. -/
theorem collectLoop_sorted {α : Type*} {f : Nat → Option (List (Nat × α))} {collected : List (Nat × α)}
    (hkey : ∀ i more, f i = some more → ∀ e ∈ more, e.1 = i) (h : collectLoop f n = some collected) :
    collected.Pairwise fun x y => x.1 ≤ y.1 := by
  induction n generalizing collected with
  | zero =>
    obtain rfl := Option.some.inj h
    exact List.Pairwise.nil
  | succ n ih =>
    obtain ⟨before, hbefore, h⟩ := Option.bind_eq_some_iff.mp h
    obtain ⟨last, hlast, rfl⟩ := Option.map_eq_some_iff.mp h
    refine List.pairwise_append.mpr ⟨ih hbefore, ?_, fun x hx y hy => ?_⟩
    · refine List.pairwise_of_forall_mem_list fun x hx y hy => ?_
      exact Nat.le_of_eq ((hkey n last hlast x hx).trans (hkey n last hlast y hy).symm)
    · obtain ⟨i, hi, more, hmore, hmem⟩ := (mem_collectLoop hbefore).mp hx
      rw [hkey i more hmore x hmem, hkey n last hlast y hy]
      exact Nat.le_of_lt hi

end Collect

end MasterAI
