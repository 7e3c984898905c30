import MasterAI.HandEvaluatorBest
import MasterAI.HighlightRanks
import MasterAI.HighlightStraight

namespace MasterAI

namespace HighlightCard

open HoldemHandEvaluator (Deal rankCounts suitRanks HasStraight Value topRanks)

/-- The suit of a card as a number. -/
def suitCode (card : List Char) : Int := (card2Suit card).toNat

/-- The card with the same rank and suit among the numbers of the evaluator. -/
def cardNumber (card : List Char) : Int :=
  HoldemHandEvaluator.makeCard (card2Rank card) (cardSuits.idxOf (card2Suit card))

section Numbers

variable {cards : List (List Char)} {card other : List Char} {s : Char}

theorem ValidCard.ext (h : ValidCard card) (h' : ValidCard other) (hrank : card2Rank card = card2Rank other)
    (hsuit : card2Suit card = card2Suit other) : card = other := by
  have hchar := (h.rankChar_eq h'.rank_range).mpr hrank
  have hchar' := (h'.rankChar_eq h'.rank_range).mpr rfl
  obtain ⟨c, _, s, _, rfl⟩ := h
  obtain ⟨c', _, s', _, rfl⟩ := h'
  have hc : c = c' := hchar.symm.trans hchar'
  have hs : s = s' := hsuit
  rw [hc, hs]

theorem ValidCard.suit_idx (h : ValidCard card) : cardSuits.idxOf (card2Suit card) < 4 := List.idxOf_lt_length_iff.mpr h.suit_mem

theorem ValidCard.rank_cardNumber (h : ValidCard card) : HoldemHandEvaluator.rank (cardNumber card) = card2Rank card := by
  have hsuit := h.suit_idx
  unfold HoldemHandEvaluator.rank cardNumber HoldemHandEvaluator.makeCard HoldemHandEvaluator.numSuits
  omega

theorem ValidCard.suit_cardNumber (h : ValidCard card) :
    HoldemHandEvaluator.suit (cardNumber card) = cardSuits.idxOf (card2Suit card) := by
  have hsuit := h.suit_idx
  unfold HoldemHandEvaluator.suit cardNumber HoldemHandEvaluator.makeCard HoldemHandEvaluator.numSuits
  omega

theorem ValidCard.cardNumber_inj (h : ValidCard card) (h' : ValidCard other) (heq : cardNumber card = cardNumber other) :
    card = other := by
  have hrank := congrArg HoldemHandEvaluator.rank heq
  have hsuit := congrArg HoldemHandEvaluator.suit heq
  rw [h.rank_cardNumber, h'.rank_cardNumber] at hrank
  rw [h.suit_cardNumber, h'.suit_cardNumber] at hsuit
  exact h.ext h' hrank ((List.idxOf_inj h.suit_mem).mp (by omega))

/-- Five to seven different valid cards. -/
structure HighlightCards (cards : List (List Char)) : Prop where
  valid : ∀ card ∈ cards, ValidCard card
  nodup : cards.Nodup
  five : 5 ≤ cards.length
  seven : cards.length ≤ 7

theorem HighlightCards.deal (h : HighlightCards cards) : Deal (cards.map cardNumber) where
  nodup := h.nodup.map_on fun c hc d hd heq => (h.valid c hc).cardNumber_inj (h.valid d hd) heq
  card := by
    rintro _ hn
    obtain ⟨card, hcard, rfl⟩ := List.mem_map.mp hn
    have hrank := (h.valid card hcard).rank_range
    have hsuit := (h.valid card hcard).suit_idx
    unfold cardNumber HoldemHandEvaluator.makeCard HoldemHandEvaluator.numSuits
    omega
  five := by
    rw [List.length_map]
    exact h.five
  seven := by
    rw [List.length_map]
    exact h.seven

theorem HighlightCards.ranks_cardNumber (h : HighlightCards cards) :
    (cards.map cardNumber).map HoldemHandEvaluator.rank = cards.map card2Rank := by
  rw [List.map_map]
  exact List.map_congr_left fun card hcard => (h.valid card hcard).rank_cardNumber

theorem HighlightCards.rankCounts_cardNumber (h : HighlightCards cards) (r : Int) :
    HoldemHandEvaluator.rankCounts (cards.map cardNumber) r = (cards.map card2Rank).count r := by
  rw [HoldemHandEvaluator.rankCounts_eq_count, h.ranks_cardNumber]

theorem HighlightCards.suitRanks_cardNumber (h : HighlightCards cards) (s : Char) :
    HoldemHandEvaluator.suitRanks (cards.map cardNumber) (cardSuits.idxOf s) = getRanksOfSuit cards s := by
  rw [HoldemHandEvaluator.suitRanks, getRanksOfSuit, List.filter_map, List.map_map]
  have hfilter : (cards.filter ((fun c => decide (HoldemHandEvaluator.suit c = cardSuits.idxOf s)) ∘ cardNumber)) =
      cards.filter fun c => card2Suit c = s := by
    refine List.filter_congr fun card hcard => ?_
    have hvalid := h.valid card hcard
    rw [Function.comp_apply, hvalid.suit_cardNumber, decide_eq_decide]
    constructor
    · exact fun heq => (List.idxOf_inj hvalid.suit_mem).mp (by omega)
    · exact fun heq => by rw [heq]
  rw [hfilter]
  exact List.map_congr_left fun card hcard => (h.valid card (List.mem_of_mem_filter hcard)).rank_cardNumber

theorem suitCode_eq_iff : suitCode card = suitCode other ↔ card2Suit card = card2Suit other := by
  unfold suitCode
  rw [Int.natCast_inj, Char.toNat_inj]

/-- The best hand of the cards is that of their numbers. -/
theorem HighlightCards.bestHand_iff (h : HighlightCards cards) {v : HandRank} :
    BestHand card2Rank suitCode cards v ↔ Value (cards.map cardNumber) v := by
  rw [← h.deal.bestHand_iff]
  refine (bestHand_map_iff (fun c hc d hd heq => (h.valid c hc).cardNumber_inj (h.valid d hd) heq)
    (fun c hc => (h.valid c hc).rank_cardNumber) fun c hc d hd => ?_).symm
  rw [(h.valid c hc).suit_cardNumber, (h.valid d hd).suit_cardNumber, suitCode_eq_iff]
  constructor
  · exact fun heq => (List.idxOf_inj (h.valid c hc).suit_mem).mp (by omega)
  · exact fun heq => by rw [heq]

end Numbers

section Stages

variable {cards : List (List Char)} {entries rest : List (Int × Nat)} {l xs : List Int} {t p q : Int} {n : Nat}

theorem forall₂_antisymm {ys : List Int} (h : List.Forall₂ (· ≤ ·) xs ys) (h' : List.Forall₂ (· ≤ ·) ys xs) : xs = ys := by
  induction h with
  | nil => rfl
  | cons hle _ ih =>
    obtain ⟨hge, hrest⟩ := List.forall₂_cons.mp h'
    rw [le_antisymm hle hge, ih hrest]

/-- Falling ranks that no other rank exceeds are the highest ones. -/
theorem topRanks_eq (hnodup : l.Nodup) (hl : ∀ x ∈ l, 0 ≤ x) (hxs : xs.Pairwise (· > ·)) (hsub : xs ⊆ l)
    (hkept : ∀ x ∈ l, x ∈ xs ∨ ∀ y ∈ xs, x < y) : topRanks xs.length l = xs := by
  have hle := (List.subperm_of_subset (hxs.imp fun hgt => ne_of_gt hgt) hsub).length_le
  obtain ⟨hlength, hfalls, htop, hall⟩ := HoldemHandEvaluator.topRanks_spec hnodup hl hle
  refine forall₂_antisymm ?_ ?_
  · exact HoldemHandEvaluator.forall₂_le_of_kept hxs hfalls (fun x hx => hkept x (htop hx)) hlength
  · exact HoldemHandEvaluator.forall₂_le_of_kept hfalls hxs (fun x hx => hall x (hsub hx)) hlength.symm

/-- The different ranks of the cards from the highest one down. -/
def rankList (cards : List (List Char)) : List Int := (cards.map card2Rank).dedup.insertionSort (· ≥ ·)

theorem mem_rankList {x : Int} : x ∈ rankList cards ↔ x ∈ cards.map card2Rank := by
  rw [rankList, (List.perm_insertionSort _ _).mem_iff, List.mem_dedup]

theorem rankList_falling (cards : List (List Char)) : (rankList cards).Pairwise (· > ·) := by
  have hnodup : (rankList cards).Nodup := (List.perm_insertionSort _ _).nodup_iff.mpr (List.nodup_dedup _)
  have hsorted := (cards.map card2Rank).dedup.pairwise_insertionSort (· ≥ ·)
  exact (hsorted.and hnodup).imp fun hpq => lt_of_le_of_ne hpq.1 hpq.2.symm

theorem HighlightCards.rank_range (h : HighlightCards cards) : ∀ x ∈ cards.map card2Rank, 0 ≤ x ∧ x ≤ 12 := by
  intro x hx
  obtain ⟨card, hcard, rfl⟩ := List.mem_map.mp hx
  exact (h.valid card hcard).rank_range

/-- The first rank that is none of some is the highest such rank. -/
theorem highestOther {taken : List Int} (hother : ∃ x ∈ cards.map card2Rank, x ∉ taken) :
    ∃ k, (rankList cards).find? (fun x => x ∉ taken) = some k ∧ k ∈ cards.map card2Rank ∧ k ∉ taken ∧
      ∀ x ∈ cards.map card2Rank, x ∉ taken → x ≤ k := by
  cases hfind : (rankList cards).find? fun x => x ∉ taken with
  | none =>
    obtain ⟨x, hx, hnot⟩ := hother
    have hin := List.find?_eq_none.mp hfind x (mem_rankList.mpr hx)
    simp [hnot] at hin
  | some k =>
    refine ⟨k, rfl, mem_rankList.mp (List.mem_of_find?_eq_some hfind), by simpa using List.find?_some hfind,
      fun x hx hnot => ?_⟩
    exact HoldemHandEvaluator.le_of_find? (rankList_falling cards) hfind (mem_rankList.mpr hx) (by simpa using hnot)

/-- The counts of the entries are those of the ranks. -/
theorem CountList.mem_iff (hentries : CountList (cards.map card2Rank) entries) {x : Int} :
    (x, n) ∈ entries ∧ 0 < n ↔ (cards.map card2Rank).count x = n ∧ 0 < n := by
  rw [hentries.mem]
  constructor
  · rintro ⟨⟨_, hcount⟩, hpos⟩
    exact ⟨hcount.symm, hpos⟩
  · rintro ⟨hcount, hpos⟩
    exact ⟨⟨List.count_pos_iff.mp (hcount.symm ▸ hpos), hcount.symm⟩, hpos⟩

/-- With four ranks at most there is no straight flush. -/
theorem HighlightCards.below_straightFlush_of_few (h : HighlightCards cards)
    (hentries : CountList (cards.map card2Rank) entries) (hfew : entries.length ≤ 4) :
    HoldemHandEvaluator.Below (cards.map cardNumber) Category.straightFlush.order := by
  refine (HoldemHandEvaluator.below_nine _).step (c := .straightFlush) fun ks hks => ?_
  obtain ⟨r, rfl⟩ := List.length_eq_one_iff.mp (HoldemHandEvaluator.Shows.length hks)
  obtain ⟨s, hs⟩ := HoldemHandEvaluator.shows_straightFlush_iff.mp hks
  have hsub : Category.straightRanks r ⊆ entries.map Prod.fst := by
    intro x hx
    have hrank := HoldemHandEvaluator.suitRanks_subset _ s (hs.2 hx)
    rw [h.ranks_cardNumber] at hrank
    exact List.mem_map.mpr ⟨(x, (cards.map card2Rank).count x), (hentries.mem _).mpr ⟨hrank, rfl⟩, rfl⟩
  have hle := (List.subperm_of_subset (HoldemHandEvaluator.straightRanks_nodup r) hsub).length_le
  rw [HoldemHandEvaluator.straightRanks_length, List.length_map] at hle
  omega

/-- Without a straight flush, what `analyzeStraight` says of all ranks is what there is of straights. -/
theorem HighlightCards.straightsAbove (h : HighlightCards cards)
    (hno : ∀ s, HoldemHandEvaluator.flushSuit (cards.map cardNumber) = some s →
      ∀ r, ¬HasStraight (suitRanks (cards.map cardNumber) s) r) :
    HoldemHandEvaluator.StraightsAbove (cards.map cardNumber) (HoldemHandEvaluator.flushSuit (cards.map cardNumber)) 2
      ((analyzeStraight cards (rankList cards) none).map Prod.fst) := by
  have hiff : ∀ r, HasStraight ((cards.map cardNumber).map HoldemHandEvaluator.rank) r ↔ HasStraight (rankList cards) r := by
    intro r
    rw [h.ranks_cardNumber]
    exact ⟨fun hr => hr.mono fun x hx => mem_rankList.mpr hx, fun hr => hr.mono fun x hx => mem_rankList.mp hx⟩
  rcases analyzeStraight_spec cards none (rankList_falling cards)
    (fun x hx => h.rank_range x (mem_rankList.mp hx)) with ⟨hnone, hall⟩ | ⟨r, hsome, hr, hhighest⟩
  · rw [hnone]
    refine ⟨fun s hs q _ => hno s hs q, fun q _ hq => absurd ((hiff q).mp hq) (hall q), fun x hx => by cases hx⟩
  · rw [hsome]
    refine ⟨fun s hs q _ => hno s hs q, fun q _ hq => ⟨r, rfl, hhighest q ((hiff q).mp hq)⟩, fun x hx => ?_⟩
    obtain rfl := Option.some.inj hx
    have hlow := hr.1
    exact ⟨by omega, (hiff _).mpr hr⟩

end Stages

end HighlightCard

end MasterAI
