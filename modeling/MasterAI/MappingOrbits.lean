import MasterAI.SuitOrbits
import Mathlib.Algebra.BigOperators.Group.List.Basic
import Mathlib.Data.List.Find
import Mathlib.Data.List.GetD

namespace MasterAI

/-- How many permutations of the suits keep the groups. -/
def groupOrder (n : Nat) (sg : SuitGroups) : Nat := ((groupSizes n sg).map Nat.factorial).prod

/-- The number that the loop over the groups comes to is that of the permutations up to those of the new groups. -/
def mapsOrders (n : Nat) (sg : SuitGroups) (suits : List Nat) : Bool :=
  (mapGroups n suits sg (List.range n) ⟨sg, groupSizes n sg, 1⟩).join.elim true fun m =>
    m.num * groupOrder n (refinedGroups n sg suits) = groupOrder n sg

theorem mapsOrders_all :
    ([1, 2, 3, 4].all fun n => groupLists.all fun sg => [3, 2, 1, 0].sublists.all fun suits =>
      !decide (ValidGroups n sg) || !(suits.all fun s => s < n) || mapsOrders n sg suits) = true := by
  decide +kernel

section

variable {n k num : Nat} {sg : SuitGroups} {suits size : List Nat} {same same' : Nat → Nat → Bool}

theorem suitClasses_congr (h : ∀ s < n, ∀ t < n, same s t = same' s t) : suitClasses n same = suitClasses n same' := by
  unfold suitClasses
  refine List.map_congr_left fun t _ => ?_
  by_cases ht : t < n
  · have hfind : (List.range t).find? (fun s => same s t) = (List.range t).find? fun s => same' s t :=
      List.find?_congr fun s hs => h s (by have := List.mem_range.mp hs; omega) t ht
    rw [if_pos ht, if_pos ht, hfind]
  · rw [if_neg ht, if_neg ht]

theorem groups_ext {sg' : SuitGroups} (hlength : sg.length = 4) (hlength' : sg'.length = 4)
    (h : ∀ t < 4, groupOf sg t = groupOf sg' t) : sg = sg' := by
  refine List.ext_getElem (hlength.trans hlength'.symm) fun t ht ht' => ?_
  have hget := h t (by omega)
  rwa [groupOf, groupOf, List.getD_eq_getElem _ _ ht, List.getD_eq_getElem _ _ ht'] at hget

/-- Groups are the classes of the suits that share one. -/
theorem ValidGroups.suitClasses_eq (h : ValidGroups n sg) (hn : n ≤ 4) :
    suitClasses n (fun s t => groupOf sg s = groupOf sg t) = sg := by
  obtain ⟨hlength, hfirst, hrest⟩ := h
  have hsame : ∀ t < 4, groupOf (suitClasses n fun s t => groupOf sg s = groupOf sg t) t = groupOf sg t := by
    intro t ht
    by_cases htn : t < n
    · obtain ⟨hle, hclass, hbefore⟩ := @suitClasses_first n t (fun s t => groupOf sg s = groupOf sg t)
        (by simp) hn htn
      rw [decide_eq_true_eq] at hclass
      obtain ⟨hlow, hidem⟩ := hfirst t htn
      have hless := (hfirst _ (show groupOf (suitClasses n fun s t => groupOf sg s = groupOf sg t) t < n by omega)).1
      by_contra hne
      have hfound := hbefore (groupOf sg t) (by omega)
      rw [decide_eq_false_iff_not] at hfound
      exact hfound hidem
    · rw [groupOf_suitClasses ht, if_neg htn, hrest t ht (by omega)]
  exact groups_ext (by simp [suitClasses]) hlength hsame

theorem mapGroups_order (hvalid : ValidGroups n sg) (hpos : 0 < n) (hn : n ≤ 4) (hfall : suits.Pairwise (· > ·))
    (hlt : ∀ s ∈ suits, s < n)
    (hmap : mapGroups n suits sg (List.range n) ⟨sg, groupSizes n sg, k⟩ =
      some (some ⟨refinedGroups n sg suits, size, k * num⟩)) (hk : 0 < k) :
    num * groupOrder n (refinedGroups n sg suits) = groupOrder n sg := by
  have hcheck := of_groupLists mapsOrders_all hvalid hpos hn hfall hlt
  rw [mapGroups_num] at hmap
  obtain ⟨result, hresult, hmapped⟩ := Option.map_eq_some_iff.mp hmap
  obtain ⟨m, rfl, hm⟩ := Option.map_eq_some_iff.mp hmapped
  rw [mapsOrders, hresult] at hcheck
  have hnum : m.num = num := Nat.eq_of_mul_eq_mul_left hk (Mappings.mk.inj hm).2.2
  rw [← hnum]
  simpa using hcheck

end

namespace SGame

section

variable {g : SGame} {n k m : Nat} {sg : SuitGroups} {cards other : List Nat} {blocks : List (List Nat)}

/-- The groups that the codes of some cards leave. -/
theorem updateSuitGroups_block {block rest : List Nat} {r : Nat} (hrank : ∀ c ∈ block, g.rank c = r)
    (hfall : (block.map g.suit).Pairwise (· > ·)) (hlower : ∀ c ∈ rest, g.rank c < r) (hsuits : g.numSuits ≤ 4) :
    g.updateSuitGroups rest (refinedGroups g.numSuits sg (block.map g.suit)) = g.updateSuitGroups (block ++ rest) sg := by
  refine suitClasses_congr fun s hs t ht => decide_eq_decide.mpr ?_
  rw [refinedGroups_eq_iff hsuits hs ht, seenRanks_block hrank hfall hlower, seenRanks_block hrank hfall hlower]
  have hlt : g.seenRanks rest s < 2 ^ r := seenRanks_lt hlower
  have hlt' : g.seenRanks rest t < 2 ^ r := seenRanks_lt hlower
  by_cases hps : s ∈ block.map g.suit <;> by_cases hpt : t ∈ block.map g.suit
  · simp [hps, hpt]
  · simp only [hps, hpt, iff_false, not_true, and_false, false_and, if_true, if_false, false_iff, not_and]
    omega
  · simp only [hps, hpt, iff_true, and_false, false_and, if_true, if_false, false_iff, not_and]
    omega
  · simp [hps, hpt]

theorem updateSuitGroups_nil (hvalid : ValidGroups g.numSuits sg) (hsuits : g.numSuits ≤ 4) : g.updateSuitGroups [] sg = sg :=
  (suitClasses_congr fun _ _ _ _ => decide_eq_decide.mpr (and_iff_left rfl)).trans (hvalid.suitClasses_eq hsuits)

theorem mapRanks_order (hblocks : FallingBlocks g blocks) (hsuits : g.numSuits ≤ 4) (hvalid : ValidGroups g.numSuits sg)
    (hk : 0 < k) (hmap : mapRanks g.numSuits (blocks.map (List.map g.suit)) ⟨sg, groupSizes g.numSuits sg, k⟩ = some m)
    (hm : m ≠ 0) : m * groupOrder g.numSuits (g.updateSuitGroups blocks.flatten sg) = k * groupOrder g.numSuits sg := by
  induction blocks generalizing sg k with
  | nil =>
    rw [List.flatten_nil, updateSuitGroups_nil hvalid hsuits, ← Option.some.inj hmap]
  | cons block blocks ih =>
    obtain ⟨⟨r, hrank, hlower⟩, hfall, hrest⟩ := hblocks
    have hlt : ∀ s ∈ block.map g.suit, s < g.numSuits := by
      intro s hs
      obtain ⟨c, -, rfl⟩ := List.mem_map.mp hs
      exact suit_lt c
    rw [List.map_cons, mapRanks] at hmap
    rw [List.flatten_cons, ← updateSuitGroups_block hrank hfall hlower hsuits]
    rcases mapGroups_spec hvalid g.suits_pos hsuits hfall hlt k with ⟨_, hgroups⟩ | ⟨_, num, hnum, _, hgroups⟩
    · rw [hgroups] at hmap
      exact absurd (Option.some.inj hmap).symm hm
    · have horder := mapGroups_order hvalid g.suits_pos hsuits hfall hlt hgroups hk
      rw [hgroups] at hmap
      rw [ih hrest (refinedGroups_valid hsuits) (Nat.mul_pos hk hnum) hmap, ← horder, Nat.mul_assoc]

theorem card_filter_fin (n : Nat) (p : Nat → Prop) [DecidablePred p] :
    (Finset.univ.filter fun i : Fin n => p i).card = (List.range n).countP fun s => p s := by
  have hrange : List.range n = (List.finRange n).map Fin.val := (List.map_coe_finRange_eq_range).symm
  rw [hrange, List.countP_map, Finset.card_def, Finset.filter_val, ← Multiset.countP_eq_card_filter, Fin.univ_def]
  exact Multiset.coe_countP _ _

theorem card_labelPerms_groups (hvalid : ValidGroups g.numSuits sg) :
    (labelPerms (g.groupLabels sg)).card = groupOrder g.numSuits sg := by
  have hlabels : ∀ s, g.groupLabels sg s ∈ Finset.range g.numSuits := fun s =>
    Finset.mem_range.mpr ((hvalid.2.1 s s.isLt).1.trans_lt s.isLt)
  rw [card_labelPerms _ hlabels, groupOrder, groupSizes, List.map_map, ← List.prod_toFinset _ List.nodup_range,
    List.toFinset_range]
  refine Finset.prod_congr rfl fun k _ => congrArg Nat.factorial ?_
  exact card_filter_fin g.numSuits fun s => groupOf sg s = k

theorem groupOrder_pos (hvalid : ValidGroups g.numSuits sg) : 0 < groupOrder g.numSuits sg := by
  rw [← card_labelPerms_groups hvalid]
  exact Finset.card_pos.mpr ⟨1, mem_labelPerms.mpr fun _ => rfl⟩

/-- The number of mappings times the permutations that are left is the number of permutations before. -/
theorem numMappings_order (hsuits : g.numSuits ≤ 4) (hvalid : ValidGroups g.numSuits sg) (hfall : cards.Pairwise (· > ·))
    (hnum : g.numMappings cards sg = some m) (hm : m ≠ 0) :
    m * groupOrder g.numSuits (g.updateSuitGroups cards sg) = groupOrder g.numSuits sg := by
  rw [numMappings, if_neg (by omega)] at hnum
  have horder := mapRanks_order (fallingBlocks_rankBlocks hfall) hsuits hvalid Nat.one_pos hnum hm
  rwa [rankBlocks_flatten, Nat.one_mul] at horder

/-- The new groups are kept by the permutations that keep the groups and the codes. -/
theorem labelPerms_update (hsuits : g.numSuits ≤ 4) :
    (labelPerms fun s => (g.groupLabels sg s, g.suitCodes cards s)) = labelPerms (g.groupLabels (g.updateSuitGroups cards sg)) :=
  labelPerms_congr fun s t => by
    rw [Prod.mk.injEq]
    exact (updateSuitGroups_eq_iff hsuits s.isLt t.isLt).symm

theorem numMappings_ncard (hsuits : g.numSuits ≤ 4) (hvalid : ValidGroups g.numSuits sg) (hfall : cards.Pairwise (· > ·))
    (hnum : g.numMappings cards sg = some m) (hm : m ≠ 0) : m = (g.imagesUnder (g.KeepsGroups sg) cards).ncard := by
  have hnew : ValidGroups g.numSuits (g.updateSuitGroups cards sg) := updateSuitGroups_valid hsuits
  have hcard := card_codeOrbit (g.groupLabels sg) (g.suitCodes cards)
  rw [labelPerms_update hsuits, card_labelPerms_groups hnew, card_labelPerms_groups hvalid, ← ncard_images,
    ← numMappings_order hsuits hvalid hfall hnum hm] at hcard
  exact (Nat.eq_of_mul_eq_mul_right (groupOrder_pos hnew) hcard).symm

/-- A set of cards that counts, being the one that stands for its images. -/
def Canonical (g : SGame) (sg : SuitGroups) (cards : List Nat) : Prop := ∃ m, g.numMappings cards sg = some m ∧ 0 < m

theorem canonical_iff (hsuits : g.numSuits ≤ 4) (hvalid : ValidGroups g.numSuits sg) (hfall : cards.Pairwise (· > ·)) :
    g.Canonical sg cards ↔ FallingLabels (g.groupLabels sg) (g.suitCodes cards) := by
  obtain ⟨m, hm, _, hiff⟩ := numMappings_spec hsuits hvalid hfall
  have hcanonical : g.Canonical sg cards ↔ m ≠ 0 := by
    unfold Canonical
    rw [hm]
    constructor
    · rintro ⟨m', hm', hpos⟩
      rw [Option.some.inj hm']
      exact hpos.ne'
    · exact fun hne => ⟨m, rfl, Nat.pos_of_ne_zero hne⟩
  rw [hcanonical, hiff]
  constructor
  · exact fun h s t hst hsame => h s t hst t.isLt hsame
  · exact fun h s t hst ht hsame => h ⟨s, by omega⟩ ⟨t, ht⟩ hst hsame

/-- Of the images of a set of cards one counts. -/
theorem canonical_unique (hsuits : g.numSuits ≤ 4) (hvalid : ValidGroups g.numSuits sg) (hfall : cards.Pairwise (· > ·))
    (hcards : g.Canonical sg cards) (hother : other ∈ g.imagesUnder (g.KeepsGroups sg) cards)
    (hcanonical : g.Canonical sg other) : other = cards := by
  obtain ⟨hother, horbit⟩ := mem_imagesUnder_groups.mp hother
  obtain ⟨σ, hσ, hcodes⟩ := mem_codeOrbit.mp horbit
  rw [canonical_iff hsuits hvalid hother, ← hcodes] at hcanonical
  rw [canonical_iff hsuits hvalid hfall] at hcards
  refine falling_of_suitCodes (g := g) hother hfall ?_
  rw [← hcodes]
  exact hcards.unique hcanonical hσ

theorem images_eq (hother : other ∈ g.imagesUnder (g.KeepsGroups sg) cards) :
    g.imagesUnder (g.KeepsGroups sg) other = g.imagesUnder (g.KeepsGroups sg) cards := by
  ext x
  rw [mem_imagesUnder_groups, mem_imagesUnder_groups, codeOrbit_eq (mem_imagesUnder_groups.mp hother).2]

theorem exists_canonical (hsuits : g.numSuits ≤ 4) (hvalid : ValidGroups g.numSuits sg) (cards : List Nat) :
    ∃ other ∈ g.imagesUnder (g.KeepsGroups sg) cards, g.Canonical sg other := by
  obtain ⟨σ, hσ, hfalls⟩ := exists_fallingLabels (g.groupLabels sg) (g.suitCodes cards)
  obtain ⟨other, hother, hcodes⟩ := exists_image _ (mem_codeOrbit.mpr ⟨σ, hσ, rfl⟩)
  refine ⟨other, hother, (canonical_iff hsuits hvalid hother.1).mpr ?_⟩
  rwa [hcodes]

theorem existsUnique_canonical (hsuits : g.numSuits ≤ 4) (hvalid : ValidGroups g.numSuits sg) (cards : List Nat) :
    ∃! other, other ∈ g.imagesUnder (g.KeepsGroups sg) cards ∧ g.Canonical sg other := by
  obtain ⟨other, hother, hcanonical⟩ := exists_canonical hsuits hvalid cards
  refine ⟨other, ⟨hother, hcanonical⟩, fun x hx => ?_⟩
  refine canonical_unique hsuits hvalid hother.1 hcanonical ?_ hx.2
  rw [images_eq hother]
  exact hx.1

end

section Dealt

variable {g : SGame} {n m : Nat} {sg : SuitGroups} {cards other : List Nat} {streets : List (List Nat)}

theorem DealtStreets.images_eq (h : g.DealtStreets streets sg) (hsuits : g.numSuits ≤ 4) (cards : List Nat) :
    g.imagesUnder (g.FixesStreets streets) cards = g.imagesUnder (g.KeepsGroups sg) cards := by
  unfold imagesUnder
  simp only [h.fixesStreets_iff hsuits]

theorem DealtStreets.deck (h : g.DealtStreets streets sg) :
    streets.flatten.Nodup ∧ ∀ c ∈ streets.flatten, c < g.numCardsInDeck := by
  induction h with
  | root => simp
  | @next streets sg cards _ hfalls hundealt _ ih =>
    rw [List.flatten_append, List.flatten_singleton]
    refine ⟨List.nodup_append.mpr ⟨ih.1, hfalls.imp fun hgt => Nat.ne_of_gt hgt, fun c hc d hd heq => ?_⟩, fun c hc => ?_⟩
    · exact (hundealt d hd).2 (heq ▸ hc)
    · rcases List.mem_append.mp hc with hc | hc
      · exact ih.2 c hc
      · exact (hundealt c hc).1

/-- An image of undealt cards is one of the lists of as many undealt cards. -/
theorem image_undealt (hcards : cards ∈ fallingCards streets.flatten n g.numCardsInDeck)
    (hother : other ∈ g.imagesUnder (g.FixesStreets streets) cards) :
    other ∈ fallingCards streets.flatten n g.numCardsInDeck := by
  obtain ⟨hlength, hfall, hundealt⟩ := mem_fallingCards.mp hcards
  obtain ⟨hfalls, m, hm, hmem⟩ := hother
  have hnodup : other.Nodup := hfalls.imp fun hgt => Nat.ne_of_gt hgt
  have hperm : other.Perm (cards.map (g.mapSuit m)) := (List.perm_ext_iff_of_nodup hnodup
    (hm.perm.nodup_map (hfall.imp fun hgt => Nat.ne_of_gt hgt))).mpr hmem
  refine mem_fallingCards.mpr ⟨by rw [hperm.length_eq, List.length_map, hlength], hfalls, fun c hc => ?_⟩
  obtain ⟨d, hd, rfl⟩ := List.mem_map.mp ((hmem c).mp hc)
  refine ⟨hm.perm.mapSuit_lt (hundealt d hd).1, fun hdealt => ?_⟩
  obtain ⟨street, hstreet, hin⟩ := List.mem_flatten.mp hdealt
  rw [hm.fixes street hstreet, hm.perm.mem_map] at hin
  exact (hundealt d hd).2 (List.mem_flatten.mpr ⟨street, hstreet, hin⟩)

/-- The sum of the sizes of the parts, each counted at the element that stands for it. -/
theorem sum_of_representatives {α : Type} [DecidableEq α] {l : List α} (hnodup : l.Nodup) {num : α → Nat} {r : α → α}
    (hrep : ∀ x ∈ l, r x ∈ l) (hnum : ∀ y ∈ l, num y = (l.toFinset.filter fun x => r x = y).card) :
    (l.map num).sum = l.length := by
  have hcard := Finset.card_eq_sum_card_fiberwise (s := l.toFinset) (t := l.toFinset) (f := r) fun x hx => by
    simpa using hrep x (by simpa using hx)
  rw [List.toFinset_card_of_nodup hnodup, List.sum_toFinset _ hnodup] at hcard
  rw [hcard]
  exact congrArg List.sum (List.map_congr_left hnum)

/-- A byte holds the number of mappings. -/
theorem entryOf_numVariants (hsuits : g.numSuits ≤ 4) (hvalid : ValidGroups g.numSuits sg) (hfall : cards.Pairwise (· > ·))
    (hlength : cards.length ≤ 3) (hnum : g.numMappings cards sg = some m) : (g.entryOf sg cards).numVariants = m := by
  obtain ⟨m', hm', hle, _⟩ := numMappings_spec hsuits hvalid hfall
  obtain rfl := Option.some.inj (hnum.symm.trans hm')
  have hpow : 6 ^ cards.length ≤ 6 ^ 3 := Nat.pow_le_pow_right (by omega) hlength
  have hentry : (g.entryOf sg cards).numMappings = m := by
    rw [entryOf, hnum]
    rfl
  rw [TypicalEntry.numVariants, hentry, Nat.mod_eq_of_lt (by omega)]

/-- The variants of all sets of cards are as many as the sets. -/
theorem DealtStreets.sum_numVariants (h : g.DealtStreets streets sg) (hsuits : g.numSuits ≤ 4)
    (hn : n = 1 ∨ n = 2 ∨ n = 3) :
    ∃ entries, g.typicalCards n streets.flatten sg = some entries ∧
      (entries.map TypicalEntry.numVariants).sum = entries.length := by
  have hvalid := h.valid hsuits
  obtain ⟨hnodup, hlt⟩ := h.deck
  refine ⟨_, typicalCards_eq hsuits hvalid hnodup hlt hn, ?_⟩
  rw [List.map_map, List.length_map]
  choose rep hrep using fun cards => exists_canonical hsuits hvalid cards
  have himages := fun cards (hcards : cards ∈ fallingCards streets.flatten n g.numCardsInDeck) other
      (hother : other ∈ g.imagesUnder (g.KeepsGroups sg) cards) =>
    image_undealt hcards (by rwa [h.images_eq hsuits])
  refine sum_of_representatives fallingCards_nodup (r := rep) (fun x hx => himages x hx _ (hrep x).1) fun y hy => ?_
  obtain ⟨hlength, hfall, _⟩ := mem_fallingCards.mp hy
  obtain ⟨m, hm, _⟩ := numMappings_spec hsuits hvalid hfall
  rw [Function.comp_apply, entryOf_numVariants hsuits hvalid hfall (by omega) hm]
  by_cases hzero : m = 0
  · rw [hzero, eq_comm, Finset.card_eq_zero, Finset.filter_eq_empty_iff]
    rintro x _ rfl
    obtain ⟨m', hm', hpos⟩ := (hrep x).2
    rw [Option.some.inj (hm.symm.trans hm')] at hzero
    omega
  · have hpart : (↑((fallingCards streets.flatten n g.numCardsInDeck).toFinset.filter fun x => rep x = y) : Set (List Nat)) =
        g.imagesUnder (g.KeepsGroups sg) y := by
      ext x
      rw [Finset.mem_coe, Finset.mem_filter, List.mem_toFinset]
      constructor
      · rintro ⟨hx, rfl⟩
        rw [SGame.images_eq (hrep x).1]
        exact self_mem_images (mem_fallingCards.mp hx).2.1
      · intro hx
        refine ⟨himages y hy x hx, ?_⟩
        refine canonical_unique hsuits hvalid hfall ⟨m, hm, Nat.pos_of_ne_zero hzero⟩ ?_ (hrep x).2
        rw [← SGame.images_eq hx]
        exact (hrep x).1
    rw [numMappings_ncard hsuits hvalid hfall hm hzero, ← hpart, Set.ncard_coe_finset]

end Dealt

/-- A flop with two cards of one suit and a card of another, and the suit groups behind it. -/
def suitedFlop : List Nat := [48, 44, 41]

def suitedFlopGroups : SuitGroups := holdem.updateSuitGroups suitedFlop noGroups

theorem dealtStreets_suitedFlop : holdem.DealtStreets [suitedFlop] suitedFlopGroups :=
  @DealtStreets.next holdem [] noGroups suitedFlop .root (by decide) (by decide) (by decide +kernel)

end SGame

end MasterAI
