import MasterAI.LabelOrbits
import MasterAI.SuitSymmetry

namespace MasterAI

namespace SGame

section Codes

variable {g : SGame} {cards other : List Nat} {sg : SuitGroups} {m : Nat → Nat} {s c : Nat} {σ : Equiv.Perm (Fin g.numSuits)}

/-- The code of the ranks of each suit. -/
def suitCodes (g : SGame) (cards : List Nat) (s : Fin g.numSuits) : Nat := g.seenRanks cards s

def groupLabels (g : SGame) (sg : SuitGroups) (s : Fin g.numSuits) : Nat := groupOf sg s

noncomputable def SuitPerm.toPerm (hm : g.SuitPerm m) : Equiv.Perm (Fin g.numSuits) :=
  Equiv.ofBijective (fun s => ⟨m s, hm.lt s s.isLt⟩) (Finite.injective_iff_bijective.mp fun s t heq =>
    Fin.ext (hm.inj s s.isLt t t.isLt (Fin.mk.inj heq)))

theorem SuitPerm.toPerm_val (hm : g.SuitPerm m) (s : Fin g.numSuits) : (hm.toPerm s : Nat) = m s := rfl

/-- A permutation of the suits of the game as a map of numbers. -/
def suitMap (σ : Equiv.Perm (Fin g.numSuits)) (s : Nat) : Nat := if h : s < g.numSuits then σ ⟨s, h⟩ else s

theorem suitMap_val (s : Fin g.numSuits) : suitMap σ s = σ s := by
  rw [suitMap, dif_pos s.isLt]

theorem suitPerm_suitMap (σ : Equiv.Perm (Fin g.numSuits)) : g.SuitPerm (suitMap σ) := by
  refine ⟨fun s hs => ?_, fun s hs t ht heq => ?_⟩
  · rw [suitMap, dif_pos hs]
    exact (σ ⟨s, hs⟩).isLt
  · rw [suitMap, suitMap, dif_pos hs, dif_pos ht] at heq
    exact Fin.mk.inj (σ.injective (Fin.ext heq))

/-- Falling lists with the same cards are the same. -/
theorem falling_ext (h : cards.Pairwise (· > ·)) (h' : other.Pairwise (· > ·)) (hmem : ∀ c, c ∈ cards ↔ c ∈ other) :
    cards = other := by
  have hperm : cards.Perm other := (List.perm_ext_iff_of_nodup (h.imp fun hgt => Nat.ne_of_gt hgt)
    (h'.imp fun hgt => Nat.ne_of_gt hgt)).mpr hmem
  exact hperm.eq_of_pairwise (fun a b _ _ hab hba => absurd hab (Nat.lt_asymm hba)) h h'

/-- Some cards from high to low. -/
def fallingOf (cards : List Nat) : List Nat := cards.dedup.insertionSort (· ≥ ·)

theorem mem_fallingOf : c ∈ fallingOf cards ↔ c ∈ cards := by
  rw [fallingOf, (List.perm_insertionSort _ _).mem_iff, List.mem_dedup]

theorem fallingOf_falling (cards : List Nat) : (fallingOf cards).Pairwise (· > ·) := by
  have hsorted := cards.dedup.pairwise_insertionSort (· ≥ ·)
  have hnodup : (fallingOf cards).Nodup := (List.perm_insertionSort _ _).nodup_iff.mpr cards.nodup_dedup
  exact (hsorted.and hnodup).imp fun hpq => lt_of_le_of_ne hpq.1 hpq.2.symm

/-- The codes tell the cards. -/
theorem mem_iff_suitCodes (g : SGame) (c : Nat) :
    c ∈ cards ↔ (g.suitCodes cards ⟨g.suit c, suit_lt c⟩).testBit (g.rank c) = true := mem_iff_testBit g cards c

theorem suitCodes_congr (hmem : ∀ c, c ∈ cards ↔ c ∈ other) : g.suitCodes cards = g.suitCodes other := by
  funext s
  refine seenRanks_congr fun r => ?_
  simp only [hmem]

theorem falling_of_suitCodes (h : cards.Pairwise (· > ·)) (h' : other.Pairwise (· > ·))
    (hcodes : g.suitCodes cards = g.suitCodes other) : cards = other := by
  refine falling_ext h h' fun c => ?_
  rw [mem_iff_suitCodes g, mem_iff_suitCodes g, hcodes]

/-- A permutation of the suits permutes the codes. -/
theorem SuitPerm.suitCodes_map (hm : g.SuitPerm m) (cards : List Nat) :
    g.suitCodes (cards.map (g.mapSuit m)) ∘ hm.toPerm = g.suitCodes cards := by
  funext s
  exact hm.seenRanks_map s.isLt

theorem suitCodes_suitMap (σ : Equiv.Perm (Fin g.numSuits)) (cards : List Nat) :
    g.suitCodes (cards.map (g.mapSuit (suitMap σ⁻¹))) = g.suitCodes cards ∘ σ := by
  funext s
  have hs : suitMap σ⁻¹ (σ s) = s := by
    rw [suitMap_val]
    exact congrArg Fin.val (σ.symm_apply_apply s)
  have hmap : g.seenRanks (cards.map (g.mapSuit (suitMap σ⁻¹))) (suitMap σ⁻¹ (σ s)) = g.seenRanks cards (σ s) :=
    (suitPerm_suitMap σ⁻¹).seenRanks_map (σ s).isLt
  rw [hs] at hmap
  exact hmap

end Codes

section Orbits

variable {g : SGame} {cards other : List Nat} {streets : List (List Nat)} {sg : SuitGroups} {m : Nat → Nat} {s : Nat}

/-- The falling lists of the cards that some maps of the suits make of a set of cards. -/
def imagesUnder (g : SGame) (allowed : (Nat → Nat) → Prop) (cards : List Nat) : Set (List Nat) :=
  { other | other.Pairwise (· > ·) ∧ ∃ m, allowed m ∧ ∀ c, c ∈ other ↔ c ∈ cards.map (g.mapSuit m) }

/-- A permutation of the suits that leaves the cards of every street as they are. -/
structure FixesStreets (g : SGame) (streets : List (List Nat)) (m : Nat → Nat) : Prop where
  perm : g.SuitPerm m
  fixes : ∀ street ∈ streets, ∀ c, c ∈ street ↔ c ∈ street.map (g.mapSuit m)

/-- A permutation of the suits of each group. -/
structure KeepsGroups (g : SGame) (sg : SuitGroups) (m : Nat → Nat) : Prop where
  perm : g.SuitPerm m
  keeps : ∀ s < g.numSuits, groupOf sg (m s) = groupOf sg s

/-- Streets that were dealt one after the other, each a canonical set of cards, with the suit groups behind them. -/
inductive DealtStreets (g : SGame) : List (List Nat) → SuitGroups → Prop
  | root : DealtStreets g [] noGroups
  | next {streets : List (List Nat)} {sg : SuitGroups} {cards : List Nat} (h : DealtStreets g streets sg)
      (falls : cards.Pairwise (· > ·)) (undealt : ∀ c ∈ cards, c < g.numCardsInDeck ∧ c ∉ streets.flatten)
      (canonical : g.numMappings cards sg ≠ some 0) : DealtStreets g (streets ++ [cards]) (g.updateSuitGroups cards sg)

theorem SuitPerm.fixes_iff (hm : g.SuitPerm m) :
    (∀ c, c ∈ cards ↔ c ∈ cards.map (g.mapSuit m)) ↔ ∀ s < g.numSuits, g.seenRanks cards (m s) = g.seenRanks cards s := by
  have hmap : ∀ s < g.numSuits, g.seenRanks (cards.map (g.mapSuit m)) (m s) = g.seenRanks cards s := fun s hs =>
    hm.seenRanks_map hs
  constructor
  · intro h s hs
    rw [← hmap s hs]
    exact congrFun (suitCodes_congr (g := g) h) ⟨m s, hm.lt s hs⟩
  · intro h c
    obtain ⟨s, hs⟩ := hm.toPerm.surjective ⟨g.suit c, suit_lt c⟩
    have hsuit : m s = g.suit c := congrArg Fin.val hs
    rw [mem_iff_testBit g, mem_iff_testBit g (cards.map _), ← hsuit, hmap s s.isLt, h s s.isLt]

/-- Leaving the streets as they are is permuting the suits of each group. -/
theorem DealtStreets.fixesStreets_iff (h : g.DealtStreets streets sg) (hsuits : g.numSuits ≤ 4) :
    g.FixesStreets streets m ↔ g.KeepsGroups sg m := by
  induction h with
  | root =>
    refine ⟨fun hm => ⟨hm.perm, fun s _ => ?_⟩, fun hm => ⟨hm.perm, by simp⟩⟩
    rw [groupOf_noGroups, groupOf_noGroups]
  | @next streets sg cards _ _ _ _ ih =>
    have hboth : g.FixesStreets (streets ++ [cards]) m ↔
        g.FixesStreets streets m ∧ ∀ s < g.numSuits, g.seenRanks cards (m s) = g.seenRanks cards s := by
      constructor
      · intro hm
        exact ⟨⟨hm.perm, fun street hstreet => hm.fixes street (List.mem_append_left _ hstreet)⟩,
          hm.perm.fixes_iff.mp (hm.fixes cards (by simp))⟩
      · rintro ⟨hm, hcards⟩
        refine ⟨hm.perm, fun street hstreet => ?_⟩
        rcases List.mem_append.mp hstreet with hstreet | hstreet
        · exact hm.fixes street hstreet
        · rw [List.mem_singleton.mp hstreet]
          exact hm.perm.fixes_iff.mpr hcards
    rw [hboth, ih]
    constructor
    · rintro ⟨hm, hcards⟩
      exact ⟨hm.perm, fun s hs => (updateSuitGroups_eq_iff hsuits (hm.perm.lt s hs) hs).mpr
        ⟨hm.keeps s hs, hcards s hs⟩⟩
    · intro hm
      have hsame := fun s (hs : s < g.numSuits) =>
        (updateSuitGroups_eq_iff hsuits (hm.perm.lt s hs) hs).mp (hm.keeps s hs)
      exact ⟨⟨hm.perm, fun s hs => (hsame s hs).1⟩, fun s hs => (hsame s hs).2⟩

theorem DealtStreets.valid (h : g.DealtStreets streets sg) (hsuits : g.numSuits ≤ 4) : ValidGroups g.numSuits sg := by
  induction h with
  | root => exact noGroups_valid g.numSuits
  | next _ _ _ _ _ => exact updateSuitGroups_valid hsuits

/-- The images under the permutations of the groups are those whose codes are images of the codes. -/
theorem mem_imagesUnder_groups :
    other ∈ g.imagesUnder (g.KeepsGroups sg) cards ↔
      other.Pairwise (· > ·) ∧ g.suitCodes other ∈ codeOrbit (g.groupLabels sg) (g.suitCodes cards) := by
  refine and_congr_right fun hfalls => ?_
  rw [mem_codeOrbit]
  constructor
  · rintro ⟨m, hm, hmem⟩
    have hlabels : hm.perm.toPerm ∈ labelPerms (g.groupLabels sg) :=
      mem_labelPerms.mpr fun s => hm.keeps s s.isLt
    refine ⟨hm.perm.toPerm⁻¹, labelPerms_inv hlabels, ?_⟩
    rw [suitCodes_congr (g := g) hmem, ← hm.perm.suitCodes_map cards]
    funext s
    exact congrArg (g.suitCodes (cards.map (g.mapSuit m))) (hm.perm.toPerm.apply_symm_apply s)
  · rintro ⟨σ, hσ, hcodes⟩
    have hkeeps := mem_labelPerms.mp (labelPerms_inv hσ)
    refine ⟨suitMap σ⁻¹, ⟨suitPerm_suitMap σ⁻¹, fun s hs => ?_⟩, fun c => ?_⟩
    · have hs' := suitMap_val (σ := σ⁻¹) ⟨s, hs⟩
      dsimp only at hs'
      rw [hs']
      exact hkeeps ⟨s, hs⟩
    · rw [mem_iff_suitCodes g, mem_iff_suitCodes g, suitCodes_suitMap, hcodes]

theorem self_mem_images (hfalls : cards.Pairwise (· > ·)) : cards ∈ g.imagesUnder (g.KeepsGroups sg) cards := by
  refine mem_imagesUnder_groups.mpr ⟨hfalls, mem_codeOrbit.mpr ⟨1, mem_labelPerms.mpr fun _ => rfl, rfl⟩⟩

/-- Every image of the codes is that of a set of cards. -/
theorem exists_image (c' : Fin g.numSuits → Nat) (hc' : c' ∈ codeOrbit (g.groupLabels sg) (g.suitCodes cards)) :
    ∃ other ∈ g.imagesUnder (g.KeepsGroups sg) cards, g.suitCodes other = c' := by
  obtain ⟨σ, hσ, rfl⟩ := mem_codeOrbit.mp hc'
  have hcodes : g.suitCodes (fallingOf (cards.map (g.mapSuit (suitMap σ⁻¹)))) = g.suitCodes cards ∘ σ := by
    rw [suitCodes_congr fun c => mem_fallingOf, suitCodes_suitMap]
  refine ⟨_, mem_imagesUnder_groups.mpr ⟨fallingOf_falling _, ?_⟩, hcodes⟩
  rw [hcodes]
  exact mem_codeOrbit.mpr ⟨σ, hσ, rfl⟩

theorem ncard_images : (g.imagesUnder (g.KeepsGroups sg) cards).ncard = (codeOrbit (g.groupLabels sg) (g.suitCodes cards)).card := by
  have himage : g.suitCodes '' g.imagesUnder (g.KeepsGroups sg) cards =
      ↑(codeOrbit (g.groupLabels sg) (g.suitCodes cards)) := by
    ext c'
    constructor
    · rintro ⟨other, hother, rfl⟩
      exact (mem_imagesUnder_groups.mp hother).2
    · exact exists_image c'
  have hinj : Set.InjOn g.suitCodes (g.imagesUnder (g.KeepsGroups sg) cards) := fun x hx y hy heq =>
    falling_of_suitCodes hx.1 hy.1 heq
  rw [← Set.ncard_coe_finset, ← himage, hinj.ncard_image]

end Orbits

end SGame

end MasterAI
