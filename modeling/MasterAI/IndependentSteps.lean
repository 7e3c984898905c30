import Mathlib.Data.List.Nodup

namespace MasterAI

section

variable {σ β κ : Type*} {step : σ → β → Option σ} {key : β → κ}

/-- A step may be made before all steps with other keys. -/
theorem foldlM_cons_of_commute
    (hcomm : ∀ s b c, key b ≠ key c → (step s b).bind (step · c) = (step s c).bind (step · b))
    {b : β} {before : List β} (hbefore : ∀ c ∈ before, key c ≠ key b) (after : List β) (s : σ) :
    (before ++ b :: after).foldlM step s = (b :: (before ++ after)).foldlM step s := by
  induction before generalizing s with
  | nil => rfl
  | cons c before ih =>
    obtain ⟨hc, hbefore⟩ := List.forall_mem_cons.mp hbefore
    have hswap := hcomm s c b hc
    calc (c :: before ++ b :: after).foldlM step s
        = (step s c).bind fun t => (before ++ b :: after).foldlM step t := rfl
      _ = (step s c).bind fun t => (step t b).bind fun u => (before ++ after).foldlM step u := by
        congr 1
        funext t
        exact ih hbefore t
      _ = ((step s c).bind (step · b)).bind fun u => (before ++ after).foldlM step u := by
        rw [Option.bind_assoc]
      _ = ((step s b).bind (step · c)).bind fun u => (before ++ after).foldlM step u := by
        rw [hswap]
      _ = (b :: (c :: before ++ after)).foldlM step s := by
        rw [Option.bind_assoc]
        rfl

/-- Where steps with different keys commute, a run depends on the order of the steps of each key alone. -/
theorem foldlM_eq_of_filter_eq [DecidableEq κ]
    (hcomm : ∀ s b c, key b ≠ key c → (step s b).bind (step · c) = (step s c).bind (step · b))
    {l l' : List β} (h : ∀ k, l.filter (key · = k) = l'.filter (key · = k)) (s : σ) :
    l.foldlM step s = l'.foldlM step s := by
  induction l generalizing l' s with
  | nil =>
    cases l' with
    | nil => rfl
    | cons c l' =>
      have hc := h (key c)
      simp at hc
  | cons b l ih =>
    have hb := h (key b)
    rw [List.filter_cons_of_pos (by simp)] at hb
    obtain ⟨before, after, rfl, hbefore, _, hafter⟩ := List.filter_eq_cons_iff.mp hb.symm
    have hkeys : ∀ c ∈ before, key c ≠ key b := by
      intro c hc hkey
      exact hbefore c hc (by simpa using hkey)
    rw [foldlM_cons_of_commute hcomm hkeys, List.foldlM_cons, List.foldlM_cons]
    congr 1
    funext t
    apply ih
    intro k
    by_cases hk : key b = k
    · subst hk
      have hnone : before.filter (key · = key b) = [] := List.filter_eq_nil_iff.mpr hbefore
      rw [List.filter_append, hnone, List.nil_append, hafter]
    · have hk' := h k
      rw [List.filter_cons_of_neg (by simpa using hk), List.filter_append,
        List.filter_cons_of_neg (by simpa using hk)] at hk'
      rw [hk', List.filter_append]

theorem foldlM_flatMap {ι : Type*} (keys : List ι) (steps : ι → List β) (s : σ) :
    (keys.flatMap steps).foldlM step s = keys.foldlM (fun s i => (steps i).foldlM step s) s := by
  induction keys generalizing s with
  | nil => rfl
  | cons i keys ih =>
    rw [List.flatMap_cons, List.foldlM_append, List.foldlM_cons]
    congr 1
    funext t
    exact ih t

end

/-- The elements of one key, where each key brings its own elements. -/
theorem filter_flatMap_filter {β ι : Type*} [DecidableEq ι] {index : β → ι} {keys : List ι} {p : β → Bool} {i : ι}
    (hkeys : keys.Nodup) (hp : ∀ b, p b = true → index b = i) (l : List β) :
    (keys.flatMap fun j => l.filter (index · = j)).filter p = if i ∈ keys then l.filter p else [] := by
  induction keys with
  | nil => rfl
  | cons j keys ih =>
    obtain ⟨hj, hkeys⟩ := List.nodup_cons.mp hkeys
    rw [List.flatMap_cons, List.filter_append, ih hkeys, List.filter_filter]
    by_cases hij : i = j
    · subst hij
      rw [if_neg hj, if_pos List.mem_cons_self, List.append_nil]
      apply List.filter_congr
      intro b _
      cases hb : p b with
      | false => simp
      | true => simp [hp b hb]
    · have hnone : (l.filter fun b => p b && decide (index b = j)) = [] := by
        rw [List.filter_eq_nil_iff]
        intro b _ hb
        obtain ⟨hb, hbj⟩ := Bool.and_eq_true_iff.mp hb
        exact hij ((hp b hb).symm.trans (of_decide_eq_true hbj))
      rw [hnone, List.nil_append]
      simp only [List.mem_cons, hij, false_or]

end MasterAI
