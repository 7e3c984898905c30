import Mathlib.Algebra.BigOperators.Group.Finset.Basic
import Mathlib.Data.Finset.Max
import Mathlib.Data.Finset.Sort
import Mathlib.Data.Fintype.Perm
import Mathlib.Data.List.Sort
import Mathlib.GroupTheory.Perm.DomMulAct
import Mathlib.Order.PiLex

namespace MasterAI

section

variable {ι κ κ' γ : Type*}

/-- The codes fall along the elements of each label. -/
def FallingLabels [LT ι] [LE γ] (f : ι → κ) (c : ι → γ) : Prop := ∀ i j, i < j → f i = f j → c j ≤ c i

variable [Fintype ι] [DecidableEq ι] [DecidableEq κ] [DecidableEq κ'] {f : ι → κ} {f' : ι → κ'} {c c' : ι → γ}
  {σ τ : Equiv.Perm ι}

/-- The permutations that keep the labels. -/
def labelPerms (f : ι → κ) : Finset (Equiv.Perm ι) := Finset.univ.filter fun σ => f ∘ σ = f

theorem mem_labelPerms : σ ∈ labelPerms f ↔ ∀ i, f (σ i) = f i := by
  rw [labelPerms, Finset.mem_filter]
  exact ⟨fun h i => congrFun h.2 i, fun h => ⟨Finset.mem_univ σ, funext h⟩⟩

theorem labelPerms_mul (hσ : σ ∈ labelPerms f) (hτ : τ ∈ labelPerms f) : σ * τ ∈ labelPerms f := by
  rw [mem_labelPerms] at hσ hτ ⊢
  exact fun i => (hσ (τ i)).trans (hτ i)

theorem labelPerms_inv (hσ : σ ∈ labelPerms f) : σ⁻¹ ∈ labelPerms f := by
  rw [mem_labelPerms] at hσ ⊢
  intro i
  have hback : σ (σ⁻¹ i) = i := σ.apply_symm_apply i
  rw [← hσ (σ⁻¹ i), hback]

/-- Only which elements share a label matters. -/
theorem labelPerms_congr (h : ∀ i j, f i = f j ↔ f' i = f' j) : labelPerms f = labelPerms f' := by
  ext σ
  rw [mem_labelPerms, mem_labelPerms]
  exact forall_congr' fun i => h (σ i) i

/-- The labels are kept by the permutations of the elements of each. -/
theorem card_labelPerms (f : ι → κ) {labels : Finset κ} (hlabels : ∀ i, f i ∈ labels) :
    (labelPerms f).card = ∏ k ∈ labels, (Finset.univ.filter fun i => f i = k).card.factorial := by
  rw [labelPerms, ← Fintype.card_subtype, DomMulAct.stabilizer_card']
  simp only [Fintype.card_subtype]
  refine Finset.prod_subset (Finset.image_subset_iff.mpr fun i _ => hlabels i) fun k _ hk => ?_
  have hnone : Finset.univ.filter (fun i => f i = k) = ∅ := Finset.filter_eq_empty_iff.mpr fun i _ hi =>
    hk (Finset.mem_image.mpr ⟨i, Finset.mem_univ i, hi⟩)
  rw [hnone, Finset.card_empty, Nat.factorial_zero]

/-- The images of some codes under the permutations that keep the labels. -/
def codeOrbit [DecidableEq γ] (f : ι → κ) (c : ι → γ) : Finset (ι → γ) := 
  (labelPerms f).image fun σ : Equiv.Perm ι => c ∘ σ

theorem mem_codeOrbit [DecidableEq γ] : c' ∈ codeOrbit f c ↔ ∃ σ ∈ labelPerms f, c ∘ σ = c' := Finset.mem_image

/-- The images of an image are the same ones. -/
theorem codeOrbit_eq [DecidableEq γ] (h : c' ∈ codeOrbit f c) : codeOrbit f c' = codeOrbit f c := by
  obtain ⟨σ, hσ, rfl⟩ := mem_codeOrbit.mp h
  ext d
  rw [mem_codeOrbit, mem_codeOrbit]
  constructor
  · rintro ⟨τ, hτ, rfl⟩
    exact ⟨σ * τ, labelPerms_mul hσ hτ, rfl⟩
  · rintro ⟨τ, hτ, rfl⟩
    refine ⟨σ⁻¹ * τ, labelPerms_mul (labelPerms_inv hσ) hτ, funext fun i => ?_⟩
    exact congrArg c (σ.apply_symm_apply (τ i))

/-- As many permutations as keep labels and codes lead to each image. -/
theorem card_codeOrbit [DecidableEq γ] (f : ι → κ) (c : ι → γ) :
    (codeOrbit f c).card * (labelPerms fun i => (f i, c i)).card = (labelPerms f).card := by
  rw [Finset.card_eq_sum_card_image (fun σ : Equiv.Perm ι => c ∘ σ) (labelPerms f)]
  refine (Finset.sum_const_nat fun b hb => ?_).symm
  obtain ⟨τ, hτ, rfl⟩ := Finset.mem_image.mp hb
  refine Finset.card_nbij' (· * τ⁻¹) (· * τ) ?_ ?_ ?_ ?_
  · intro σ hσ
    obtain ⟨hlabels, hcodes⟩ := Finset.mem_filter.mp hσ
    have hkept := mem_labelPerms.mp (labelPerms_mul hlabels (labelPerms_inv hτ))
    refine mem_labelPerms.mpr fun i => Prod.ext (hkept i) ?_
    have hcode := congrFun hcodes (τ⁻¹ i)
    simpa using hcode
  · intro σ hσ
    have hkept := mem_labelPerms.mp hσ
    refine Finset.mem_filter.mpr ⟨?_, funext fun i => (Prod.mk.inj (hkept (τ i))).2⟩
    exact labelPerms_mul (mem_labelPerms.mpr fun i => (Prod.mk.inj (hkept i)).1) hτ
  · intro σ _
    simp
  · intro σ _
    simp

end

section

variable {ι κ γ : Type*} [LinearOrder ι] [Fintype ι] [DecidableEq κ] [LinearOrder γ] {f : ι → κ} {c : ι → γ} {σ : Equiv.Perm ι}

/-- Codes that fall along each label are not moved by a permutation of the labels after which they still fall. -/
theorem FallingLabels.unique (h : FallingLabels f c) (h' : FallingLabels f (c ∘ σ)) (hσ : σ ∈ labelPerms f) :
    c ∘ σ = c := by
  funext i
  -- the elements with the label of `i` in order
  have hl : ∀ j, j ∈ (Finset.univ.filter fun j => f j = f i).sort (· ≤ ·) ↔ f j = f i := fun j => by
    rw [Finset.mem_sort, Finset.mem_filter, and_iff_right (Finset.mem_univ j)]
  have hsorted := (Finset.univ.filter fun j => f j = f i).sortedLT_sort.pairwise
  have hnodup := (Finset.univ.filter fun j => f j = f i).sort_nodup (· ≤ ·)
  generalize (Finset.univ.filter fun j => f j = f i).sort (· ≤ ·) = l at hl hsorted hnodup
  have hfalls : ∀ c : ι → γ, FallingLabels f c → (l.map c).Pairwise (· ≥ ·) := fun c hc =>
    List.pairwise_map.mpr (hsorted.imp_of_mem fun {j k} hj hk hlt =>
      hc j k hlt (((hl j).mp hj).trans ((hl k).mp hk).symm))
  have hperm : (l.map σ).Perm l := by
    refine (List.perm_ext_iff_of_nodup (hnodup.map σ.injective) hnodup).mpr fun j => ?_
    rw [List.mem_map, hl]
    constructor
    · rintro ⟨k, hk, rfl⟩
      exact (mem_labelPerms.mp hσ k).trans ((hl k).mp hk)
    · intro hj
      refine ⟨σ⁻¹ j, (hl _).mpr ?_, σ.apply_symm_apply j⟩
      rw [← hj]
      exact mem_labelPerms.mp (labelPerms_inv hσ) j
  have hmap := hperm.map c
  rw [List.map_map] at hmap
  have heq := hmap.eq_of_pairwise' (hfalls _ h') (hfalls _ h)
  exact List.map_inj_left.mp heq i ((hl i).mpr rfl)

/-- Some permutation of each label makes the codes fall along it. -/
theorem exists_fallingLabels (f : ι → κ) (c : ι → γ) : ∃ σ ∈ labelPerms f, FallingLabels f (c ∘ σ) := by
  -- the permutation with the images that come last in the lexicographic order
  obtain ⟨σ, hσ, hmax⟩ := (labelPerms f).exists_max_image (fun σ : Equiv.Perm ι => toLex (c ∘ σ))
    ⟨1, mem_labelPerms.mpr fun _ => rfl⟩
  refine ⟨σ, hσ, fun i j hij hlabel => ?_⟩
  by_contra hlt
  rw [not_le] at hlt
  have hswap : Equiv.swap i j ∈ labelPerms f := mem_labelPerms.mpr fun k => by
    by_cases hki : k = i
    · rw [hki, Equiv.swap_apply_left, hlabel]
    · by_cases hkj : k = j
      · rw [hkj, Equiv.swap_apply_right, hlabel]
      · rw [Equiv.swap_apply_of_ne_of_ne hki hkj]
  have hle := hmax _ (labelPerms_mul hσ hswap)
  have hless := Pi.lex_desc (f := (c ∘ σ) ∘ Equiv.swap i j) hij.le (by simpa using hlt)
  have hback : ((c ∘ σ) ∘ Equiv.swap i j) ∘ Equiv.swap i j = c ∘ σ := by
    funext k
    simp
  rw [hback] at hless
  exact absurd hle (not_le.mpr hless)

end

end MasterAI
