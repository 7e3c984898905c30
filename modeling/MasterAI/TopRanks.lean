import MasterAI.HandScans

namespace MasterAI

namespace HoldemHandEvaluator

variable {hrs l xs : List Int} {r x y : Int} {k : Nat}

/-- Falling ranks, with the unused places at the end. -/
def Falling (hrs : List Int) : Prop := hrs.Pairwise fun a b => b < a ∨ b = -1

/-- A rank stands among the highest ones or below all of them. -/
def Kept (hrs : List Int) (x : Int) : Prop := x ∈ hrs ∨ ∀ hr ∈ hrs, x < hr

theorem pushTop_length (r : Int) (hrs : List Int) : (pushTop r hrs).length = hrs.length := by
  induction hrs with
  | nil => rfl
  | cons hr hrs ih =>
    unfold pushTop
    split_ifs with h
    · simp
    · simp [ih]

theorem pushTop_subset (hx : x ∈ pushTop r hrs) : x = r ∨ x ∈ hrs := by
  induction hrs with
  | nil => cases hx
  | cons hr hrs ih =>
    unfold pushTop at hx
    split_ifs at hx with h
    · rcases List.mem_cons.mp hx with rfl | hx
      · exact Or.inl rfl
      · exact Or.inr ((List.dropLast_subset _ hx))
    · rcases List.mem_cons.mp hx with rfl | hx
      · exact Or.inr (by simp)
      · rcases ih hx with rfl | hx
        · exact Or.inl rfl
        · exact Or.inr (List.mem_cons_of_mem _ hx)

/-- The new rank takes a place only above another rank. -/
theorem exists_lt_of_mem_pushTop (hr : r ∈ pushTop r hrs) (hnot : r ∉ hrs) : ∃ hr ∈ hrs, hr < r := by
  induction hrs with
  | nil => cases hr
  | cons hr' hrs ih =>
    unfold pushTop at hr
    split_ifs at hr with h
    · exact ⟨hr', by simp, h⟩
    · rcases List.mem_cons.mp hr with rfl | hr
      · exact absurd (by simp) hnot
      · obtain ⟨y, hy, hlt⟩ := ih hr fun hmem => hnot (List.mem_cons_of_mem _ hmem)
        exact ⟨y, List.mem_cons_of_mem _ hy, hlt⟩

theorem falling_pushTop (h : Falling hrs) (hr : 0 ≤ r) (hnot : r ∉ hrs) : Falling (pushTop r hrs) := by
  induction hrs with
  | nil => exact h
  | cons hr' hrs ih =>
    obtain ⟨hhead, htail⟩ := List.pairwise_cons.mp h
    unfold pushTop
    split_ifs with hlt
    · refine List.pairwise_cons.mpr ⟨fun y hy => ?_, h.sublist (List.dropLast_sublist _)⟩
      rcases List.mem_cons.mp (List.dropLast_subset _ hy) with rfl | hy
      · exact Or.inl hlt
      · rcases hhead y hy with hy | hy
        · exact Or.inl (by omega)
        · exact Or.inr hy
    · have hne : r ≠ hr' := fun heq => hnot (by simp [heq])
      refine List.pairwise_cons.mpr ⟨fun y hy => ?_, ih htail fun hmem => hnot (List.mem_cons_of_mem _ hmem)⟩
      rcases pushTop_subset hy with rfl | hy
      · exact Or.inl (by omega)
      · exact hhead y hy

/-- No rank gets lost: what falls out stands below all that stay. -/
theorem kept_pushTop (h : Falling hrs) (hr : 0 ≤ r) (hnot : r ∉ hrs) (hx : 0 ≤ x) (hkept : x = r ∨ Kept hrs x) :
    Kept (pushTop r hrs) x := by
  induction hrs with
  | nil => exact Or.inr fun y hy => by cases hy
  | cons hr' hrs ih =>
    obtain ⟨hhead, htail⟩ := List.pairwise_cons.mp h
    have hlow : (∀ y ∈ hr' :: hrs, x < y) → ∀ y ∈ pushTop r (hr' :: hrs), x < y := by
      intro hbelow y hy
      rcases pushTop_subset hy with rfl | hmem
      · obtain ⟨z, hz, hzr⟩ := exists_lt_of_mem_pushTop hy hnot
        have := hbelow z hz
        omega
      · exact hbelow y hmem
    by_cases hbelow : ∀ y ∈ hr' :: hrs, x < y
    · exact Or.inr (hlow hbelow)
    · have hfound : x = r ∨ x ∈ hr' :: hrs := by
        rcases hkept with heq | hmem | hbelow'
        · exact Or.inl heq
        · exact Or.inr hmem
        · exact absurd hbelow' hbelow
      unfold pushTop
      split_ifs with hlt
      · rcases hfound with rfl | hmem
        · exact Or.inl (by simp)
        · obtain ⟨front, last, hsplit⟩ : ∃ front last, hr' :: hrs = front ++ [last] :=
            ⟨_, _, (List.dropLast_append_getLast (List.cons_ne_nil hr' hrs)).symm⟩
          have hle : x ≤ hr' := by
            rcases List.mem_cons.mp hmem with rfl | hmem
            · exact le_rfl
            · have := hhead x hmem
              omega
          rw [hsplit] at h hmem ⊢
          rw [List.dropLast_concat]
          rcases List.mem_append.mp hmem with hmem | hmem
          · exact Or.inl (List.mem_cons_of_mem _ hmem)
          · obtain rfl := List.mem_singleton.mp hmem
            refine Or.inr fun y hy => ?_
            rcases List.mem_cons.mp hy with rfl | hy
            · omega
            · have := (List.pairwise_append.mp h).2.2 y hy x (by simp)
              omega
      · rcases hfound with rfl | hmem
        · have hne : x ≠ hr' := fun heq => hnot (by simp [heq])
          rcases ih htail (fun hmem => hnot (List.mem_cons_of_mem _ hmem)) (Or.inl rfl) with hmem | hbelow'
          · exact Or.inl (List.mem_cons_of_mem _ hmem)
          · refine Or.inr fun y hy => ?_
            rcases List.mem_cons.mp hy with rfl | hy
            · omega
            · exact hbelow' y hy
        · rcases List.mem_cons.mp hmem with rfl | hrest
          · exact Or.inl (by simp)
          · rcases ih htail (fun hmem => hnot (List.mem_cons_of_mem _ hmem)) (Or.inr (Or.inl hrest)) with hmem' | hbelow'
            · exact Or.inl (List.mem_cons_of_mem _ hmem')
            · refine Or.inr fun y hy => ?_
              rcases List.mem_cons.mp hy with rfl | hy
              · have := hhead x hrest
                omega
              · exact hbelow' y hy

/-- What the loop over the ranks has collected. -/
structure Collects (hrs l : List Int) : Prop where
  falling : Falling hrs
  subset : ∀ hr ∈ hrs, hr = -1 ∨ hr ∈ l
  kept : ∀ x ∈ l, Kept hrs x

theorem Collects.push (h : Collects hrs l) (hl : ∀ x ∈ l, 0 ≤ x) (hr : 0 ≤ r) (hnot : r ∉ l) :
    Collects (pushTop r hrs) (r :: l) := by
  have hfresh : r ∉ hrs := by
    intro hmem
    rcases h.subset r hmem with heq | hmem
    · omega
    · exact hnot hmem
  refine ⟨falling_pushTop h.falling hr hfresh, fun y hy => ?_, fun x hx => ?_⟩
  · rcases pushTop_subset hy with rfl | hy
    · exact Or.inr (by simp)
    · exact (h.subset y hy).imp_right (List.mem_cons_of_mem _)
  · rcases List.mem_cons.mp hx with rfl | hx
    · exact kept_pushTop h.falling hr hfresh hr (Or.inl rfl)
    · exact kept_pushTop h.falling hr hfresh (hl x hx) (Or.inr (h.kept x hx))

theorem collects_topRanks (k : Nat) (hnodup : l.Nodup) (hl : ∀ x ∈ l, 0 ≤ x) :
    Collects (topRanks k l) l ∧ (topRanks k l).length = k := by
  have hfold : ∀ (rest seen hrs : List Int), (rest ++ seen).Nodup → (∀ x ∈ rest ++ seen, 0 ≤ x) → Collects hrs seen →
      Collects (rest.foldl (fun hrs r => pushTop r hrs) hrs) (rest ++ seen) ∧
        (rest.foldl (fun hrs r => pushTop r hrs) hrs).length = hrs.length := by
    intro rest
    induction rest with
    | nil => exact fun seen hrs _ _ h => ⟨h, rfl⟩
    | cons r rest ih =>
      intro seen hrs hnodup hpos h
      have hmiddle : (rest ++ r :: seen).Perm (r :: rest ++ seen) := List.perm_middle
      have hnodup' := hmiddle.nodup_iff.mpr hnodup
      have hnot : r ∉ seen := (List.nodup_cons.mp (List.nodup_append.mp hnodup').2.1).1
      obtain ⟨hcollects, hlength⟩ := ih (r :: seen) (pushTop r hrs) hnodup'
        (fun x hx => hpos x (hmiddle.subset hx))
        (h.push (fun x hx => hpos x (by simp [hx])) (hpos r (by simp)) hnot)
      rw [pushTop_length] at hlength
      exact ⟨⟨hcollects.falling, fun y hy => (hcollects.subset y hy).imp_right fun hmem => hmiddle.subset hmem,
        fun x hx => hcollects.kept x (hmiddle.symm.subset hx)⟩, hlength⟩
  have hstart : Collects (List.replicate k (-1)) [] := by
    exact ⟨List.pairwise_replicate.mpr (Or.inr (Or.inr rfl)), fun hr hmem => Or.inl (List.eq_of_mem_replicate hmem),
      by simp⟩
  have h := hfold l [] (List.replicate k (-1)) (by simpa using hnodup) (by simpa using hl) hstart
  rw [List.append_nil, List.length_replicate] at h
  exact h

/-- With enough ranks, the loop collects the highest ones: they fall, and no others of the ranks that fall are
higher in any place. -/
theorem topRanks_spec (hnodup : l.Nodup) (hl : ∀ x ∈ l, 0 ≤ x) (hk : k ≤ l.length) :
    (topRanks k l).length = k ∧ (topRanks k l).Pairwise (· > ·) ∧ topRanks k l ⊆ l ∧ ∀ x ∈ l, Kept (topRanks k l) x := by
  obtain ⟨h, hlength⟩ := collects_topRanks k hnodup hl
  have hused : -1 ∉ topRanks k l := by
    intro hmem
    have hall : -1 :: l ⊆ topRanks k l := by
      intro x hx
      rcases List.mem_cons.mp hx with rfl | hx
      · exact hmem
      · rcases h.kept x hx with hx' | hbelow
        · exact hx'
        · have := hbelow (-1) hmem
          have := hl x hx
          omega
    have hfresh : -1 ∉ l := fun hneg => by have := hl (-1) hneg; omega
    have hle := (List.subperm_of_subset (List.nodup_cons.mpr ⟨hfresh, hnodup⟩) hall).length_le
    rw [List.length_cons, hlength] at hle
    omega
  refine ⟨hlength, ?_, fun x hx => ?_, h.kept⟩
  · refine h.falling.imp_of_mem fun {a b} _ hb hab => ?_
    rcases hab with hlt | heq
    · exact hlt
    · exact absurd (heq ▸ hb) hused
  · rcases h.subset x hx with heq | hmem
    · exact absurd (heq ▸ hx) hused
    · exact hmem

/-- Falling ranks that are each kept by the highest ones are not above them in any place. -/
theorem forall₂_le_of_kept (hhrs : hrs.Pairwise (· > ·)) (hxs : xs.Pairwise (· > ·)) (hkept : ∀ x ∈ xs, Kept hrs x)
    (hlength : xs.length = hrs.length) : List.Forall₂ (· ≤ ·) xs hrs := by
  induction xs generalizing hrs with
  | nil =>
    obtain rfl := List.length_eq_zero_iff.mp hlength.symm
    exact .nil
  | cons x xs ih =>
    cases hrs with
    | nil => cases hlength
    | cons hr hrs =>
      obtain ⟨hhead, htail⟩ := List.pairwise_cons.mp hhrs
      obtain ⟨hx, hxs⟩ := List.pairwise_cons.mp hxs
      have hle : x ≤ hr := by
        rcases hkept x (by simp) with hmem | hbelow
        · rcases List.mem_cons.mp hmem with rfl | hmem
          · exact le_rfl
          · exact (hhead x hmem).le
        · exact (hbelow hr (by simp)).le
      refine .cons hle (ih htail hxs (fun y hy => ?_) (by simpa using hlength))
      have hlt := hx y hy
      rcases hkept y (List.mem_cons_of_mem _ hy) with hmem | hbelow
      · rcases List.mem_cons.mp hmem with rfl | hmem
        · omega
        · exact Or.inl hmem
      · exact Or.inr fun z hz => hbelow z (List.mem_cons_of_mem _ hz)

end HoldemHandEvaluator

end MasterAI
