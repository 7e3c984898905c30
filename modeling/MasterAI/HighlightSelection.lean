import MasterAI.HandEvaluatorPoker
import MasterAI.HighlightTypes

namespace MasterAI

namespace HighlightCard

open HoldemHandEvaluator (Deal rankCounts suitRanks flushSuit HasStraight Value topRanks CountRanks Below StraightsAbove)
open Category (straightRanks)

section Suits

variable {cards : List (List Char)} {xs ranks : List Int} {counts : List (Int × Nat)} {rest : List (Char × Nat)}
  {suit : Option Char} {s : Char} {r : Int} {n : Nat}

/-- Every rank of some is that of a card with the suit, if there is one. -/
theorem available_first (hvalid : ∀ card ∈ cards, ValidCard card)
    (h : ∀ x ∈ xs, ∃ card ∈ cards, IsPick suit x card) : Available cards suit (xs.map fun x => (x, 0)) := by
  intro key hkey
  obtain ⟨x, hx, rfl⟩ := List.mem_map.mp hkey
  obtain ⟨card, hcard, hpick⟩ := h x hx
  refine ⟨?_, List.countP_pos_iff.mpr ⟨card, hcard, by simpa using hpick⟩⟩
  change 0 ≤ x ∧ x ≤ 12
  rw [← hpick.1]
  exact (hvalid card hcard).rank_range

theorem exists_pick_of_suit (hr : r ∈ getRanksOfSuit cards s) : ∃ card ∈ cards, IsPick (some s) r card := by
  obtain ⟨card, hmem, hrank⟩ := List.mem_map.mp hr
  obtain ⟨hcard, hsuit⟩ := List.mem_filter.mp hmem
  refine ⟨card, hcard, hrank, fun t ht => ?_⟩
  rw [← Option.some.inj ht]
  simpa using hsuit

theorem exists_pick (hr : r ∈ cards.map card2Rank) : ∃ card ∈ cards, IsPick none r card := by
  obtain ⟨card, hcard, hrank⟩ := List.mem_map.mp hr
  exact ⟨card, hcard, hrank, fun t ht => by cases ht⟩

theorem nodup_firsts (h : xs.Nodup) : (xs.map fun x => ((x, 0) : Int × Nat)).Nodup :=
  h.map fun _ _ heq => congrArg Prod.fst heq

theorem map_fst_firsts (xs : List Int) : (xs.map fun x => ((x, 0) : Int × Nat)).map Prod.fst = xs := by
  rw [List.map_map]
  exact List.map_id xs

/-- With a suit the first five ranks are pushed. -/
theorem setWinCardIndexes_suit (hvalid : ∀ card ∈ cards, ValidCard card)
    (h : ∀ x ∈ ranks, ∃ card ∈ cards, IsPick (some s) x card) :
    setWinCardIndexes cards ranks counts (some s) =
      pushPicks cards (some s) ((ranks.take stdHandNum).map fun x => (x, 0)) [] := by
  have hbounded : setWinCardIndexes cards ranks counts (some s) =
      pushBounded cards (some s) (ranks.map fun x => (x, 0)) [] := by
    rw [pushBounded, List.foldl_map]
    rfl
  rw [hbounded, pushBounded_eq hvalid (available_first hvalid h), List.map_take]
  rfl

theorem mem_suitedRanks {x : Int} :
    x ∈ (getRanksOfSuit cards s).insertionSort (· ≥ ·) ↔ x ∈ getRanksOfSuit cards s :=
  (List.perm_insertionSort _ _).mem_iff

theorem HighlightCards.suit_mem (h : HighlightCards cards) (hs : s ∈ cards.map card2Suit) : s ∈ cardSuits := by
  obtain ⟨card, hcard, rfl⟩ := List.mem_map.mp hs
  exact (h.valid card hcard).suit_mem

theorem length_getRanksOfSuit (cards : List (List Char)) (s : Char) :
    (getRanksOfSuit cards s).length = (cards.map card2Suit).count s := by
  rw [getRanksOfSuit, List.length_map, List.count, List.countP_map, List.countP_eq_length_filter]
  exact congrArg List.length (List.filter_congr fun card _ => by simp [beq_eq_decide])

/-- The suit with the most cards is the flush suit, if there is one. -/
theorem HighlightCards.flushSuit_first (h : HighlightCards cards)
    (hsuits : CountList (cards.map card2Suit) ((s, n) :: rest)) :
    flushSuit (cards.map cardNumber) = if n ≥ stdHandNum then some (cardSuits.idxOf s : Int) else none := by
  obtain ⟨hmem, hcount⟩ := (hsuits.mem (s, n)).mp (by simp)
  dsimp only at hmem hcount
  have hs := h.suit_mem hmem
  have hlength : (suitRanks (cards.map cardNumber) (cardSuits.idxOf s)).length = n := by
    rw [h.suitRanks_cardNumber, length_getRanksOfSuit, hcount]
  split
  next hmany =>
    cases hflush : flushSuit (cards.map cardNumber) with
    | none =>
      have hfew := HoldemHandEvaluator.flushSuit_none hflush (cardSuits.idxOf s)
      unfold stdHandNum at hmany
      omega
    | some t => rw [(h.deal.flushSuit_some hflush).2 (cardSuits.idxOf s) (by rw [hlength]; exact hmany)]
  next hfew =>
    cases hflush : flushSuit (cards.map cardNumber) with
    | none => rfl
    | some t =>
      have hmany := (h.deal.flushSuit_some hflush).1
      obtain ⟨x, hx⟩ := List.exists_mem_of_length_pos (l := suitRanks (cards.map cardNumber) t) (by omega)
      obtain ⟨number, hnumber, _⟩ := List.mem_map.mp hx
      obtain ⟨hin, hsuit⟩ := List.mem_filter.mp hnumber
      obtain ⟨card, hcard, rfl⟩ := List.mem_map.mp hin
      have ht : (cardSuits.idxOf (card2Suit card) : Int) = t := by
        rw [← (h.valid card hcard).suit_cardNumber]
        simpa using hsuit
      rw [← ht, h.suitRanks_cardNumber, length_getRanksOfSuit] at hmany
      have hother := (hsuits.mem (card2Suit card, (cards.map card2Suit).count (card2Suit card))).mpr
        ⟨List.mem_map_of_mem hcard, rfl⟩
      have hle : (cards.map card2Suit).count (card2Suit card) ≤ n := by
        rcases List.mem_cons.mp hother with heq | hother
        · exact (Prod.mk.inj heq).2.le
        · have hfirst := hsuits.head hother
          dsimp only at hfirst
          omega
      unfold stdHandNum at hfew
      omega

theorem HighlightCards.suitedRanks_falling (h : HighlightCards cards) (s : Char) :
    ((getRanksOfSuit cards s).insertionSort (· ≥ ·)).Pairwise (· > ·) := by
  have hnodup := HoldemHandEvaluator.suitRanks_nodup h.deal.nodup (cardSuits.idxOf s)
  rw [h.suitRanks_cardNumber] at hnodup
  have hsorted := (getRanksOfSuit cards s).pairwise_insertionSort (· ≥ ·)
  have hboth := hsorted.and ((List.perm_insertionSort _ _).nodup_iff.mpr hnodup)
  exact hboth.imp fun hpq => lt_of_le_of_ne hpq.1 hpq.2.symm

theorem HighlightCards.suitedRanks_range (h : HighlightCards cards) :
    ∀ x ∈ (getRanksOfSuit cards s).insertionSort (· ≥ ·), 0 ≤ x ∧ x ≤ 12 := by
  intro x hx
  obtain ⟨card, hmem, rfl⟩ := List.mem_map.mp (mem_suitedRanks.mp hx)
  exact (h.valid card (List.mem_of_mem_filter hmem)).rank_range

/-- The cards of the highest straight of the flush suit. -/
theorem HighlightCards.best_straightFlush (h : HighlightCards cards)
    (hflush : flushSuit (cards.map cardNumber) = some (cardSuits.idxOf s : Int))
    (hr : HasStraight ((getRanksOfSuit cards s).insertionSort (· ≥ ·)) r)
    (hhighest : ∀ q, HasStraight ((getRanksOfSuit cards s).insertionSort (· ≥ ·)) q → q ≤ r) :
    BestSelection cards (if r = aceRank then royalFlush else straightFlush)
      (pushPicks cards (some s) ((straightRanks r).map fun x => (x, 0)) []) := by
  have hv := h.deal.value_straightFlush (r := r) hflush
    (by rw [h.suitRanks_cardNumber]; exact hr.mono fun x hx => mem_suitedRanks.mp hx)
    fun q hq => hhighest q (by
      rw [h.suitRanks_cardNumber] at hq
      exact hq.mono fun x hx => mem_suitedRanks.mpr hx)
  have havailable : Available cards (some s) ((straightRanks r).map fun x => (x, 0)) :=
    available_first h.valid fun x hx => exists_pick_of_suit (mem_suitedRanks.mp (hr.2 hx))
  have hselected := h.selection hv havailable
    (nodup_firsts (HoldemHandEvaluator.straightRanks_nodup r))
    (by rw [List.length_map, HoldemHandEvaluator.straightRanks_length]) (map_fst_firsts _) fun _ => Option.some_ne_none s
  simpa [typeOf] using hselected

/-- Without a straight in the flush suit its five highest cards. -/
theorem HighlightCards.best_flush (h : HighlightCards cards)
    (hflush : flushSuit (cards.map cardNumber) = some (cardSuits.idxOf s : Int))
    (hbelow : Below (cards.map cardNumber) Category.fullHouse.order) :
    BestSelection cards flush
      (setWinCardIndexes cards ((getRanksOfSuit cards s).insertionSort (· ≥ ·)) counts (some s)) := by
  have hfalls := h.suitedRanks_falling s
  have hrange := h.suitedRanks_range (s := s)
  have hfive := (h.deal.flushSuit_some hflush).1
  have hv := h.deal.value_flush hbelow hflush
  rw [h.suitRanks_cardNumber] at hfive hv
  have hnodup : (getRanksOfSuit cards s).Nodup := by
    rw [← h.suitRanks_cardNumber s]
    exact HoldemHandEvaluator.suitRanks_nodup h.deal.nodup _
  rw [← List.length_insertionSort (· ≥ ·)] at hfive
  rw [topRanks_take hnodup (fun x hx => (hrange x (mem_suitedRanks.mpr hx)).1) hfalls (fun _ => mem_suitedRanks.symm)
    hfive] at hv
  rw [setWinCardIndexes_suit h.valid fun x hx => exists_pick_of_suit (mem_suitedRanks.mp hx)]
  refine h.selection hv
    (available_first h.valid fun x hx => exists_pick_of_suit (mem_suitedRanks.mp (List.mem_of_mem_take hx)))
    (nodup_firsts ?_) ?_ (map_fst_firsts _) fun _ => Option.some_ne_none s
  · exact (hfalls.imp fun hgt => ne_of_gt hgt).sublist (List.take_sublist _ _)
  · rw [List.length_map]
    exact List.length_take_of_le hfive

theorem HighlightCards.best_straight (h : HighlightCards cards) (hbelow : Below (cards.map cardNumber) Category.flush.order)
    (hstraights : StraightsAbove (cards.map cardNumber) (flushSuit (cards.map cardNumber)) 2 (some r)) :
    BestSelection cards straight (pushPicks cards none ((straightRanks r).map fun x => (x, 0)) []) := by
  have hv := h.deal.value_straight hbelow hstraights
  have hr := (hstraights.isStraight r rfl).2
  rw [h.ranks_cardNumber] at hr
  exact h.selection hv (available_first h.valid fun x hx => exists_pick (hr.2 hx))
    (nodup_firsts (HoldemHandEvaluator.straightRanks_nodup r))
    (by rw [List.length_map, HoldemHandEvaluator.straightRanks_length]) (map_fst_firsts _) fun hone => absurd hone id

end Suits

section Ranks

variable {cards : List (List Char)} {rest : List (Int × Nat)} {t : Int} {n : Nat}

/-- The count of the second entry bounds all that follow. -/
theorem ones_of_second (hentries : CountList (cards.map card2Rank) ((t, n) :: rest))
    (hsecond : ((rest[0]?).map Prod.snd).getD 0 ≤ 1) : ∀ e ∈ rest, e.2 = 1 := by
  intro e he
  have hpos := hentries.count_pos (p := e) (by simp [he])
  obtain ⟨first, rest, rfl⟩ := List.exists_cons_of_ne_nil (List.ne_nil_of_mem he)
  have hone : first.2 ≤ 1 := hsecond
  rcases List.mem_cons.mp he with rfl | hlater
  · omega
  · have hcmp := (List.pairwise_cons.mp (List.pairwise_cons.mp hentries.sorted).2).1 e hlater
    unfold CmpByValue at hcmp
    split at hcmp <;> omega

/-- The counts that neither four of a kind nor a full house leaves. -/
theorem counts_below_fullHouse (hentries : CountList (cards.map card2Rank) ((t, n) :: rest)) (hn : n ≤ 3)
    (hfull : ¬(n = 3 ∧ ((rest[0]?).map Prod.snd).getD 0 ≥ 2)) :
    (n = 3 ∧ ∀ e ∈ rest, e.2 = 1) ∨ (n = 2 ∧ ∃ q rest', rest = (q, 2) :: rest') ∨ (n = 2 ∧ ∀ e ∈ rest, e.2 = 1) ∨
      (n = 1 ∧ ∀ e ∈ rest, e.2 = 1) := by
  have hpos := hentries.count_pos (p := (t, n)) (by simp)
  dsimp only at hpos
  have hle : ((rest[0]?).map Prod.snd).getD 0 ≤ n := by
    cases rest with
    | nil => exact Nat.zero_le n
    | cons e rest =>
      change e.2 ≤ n
      rcases hentries.head (q := e) (by simp) with hlt | ⟨heq, _⟩
      · exact hlt.le
      · exact heq.le
  by_cases hones : ((rest[0]?).map Prod.snd).getD 0 ≤ 1
  · have hall := ones_of_second hentries hones
    obtain rfl | rfl | rfl : n = 3 ∨ n = 2 ∨ n = 1 := by omega
    · exact .inl ⟨rfl, hall⟩
    · exact .inr (.inr (.inl ⟨rfl, hall⟩))
    · exact .inr (.inr (.inr ⟨rfl, hall⟩))
  · refine .inr (.inl ⟨by omega, ?_⟩)
    cases rest with
    | nil => exact absurd (Nat.zero_le 1) hones
    | cons e rest =>
      have htwo : e.2 = 2 := by
        change ¬e.2 ≤ 1 at hones
        change ¬(n = 3 ∧ e.2 ≥ 2) at hfull
        change e.2 ≤ n at hle
        omega
      exact ⟨e.1, rest, by rw [← htwo]⟩

/-- Such counts make no full house. -/
theorem HighlightCards.below_fullHouse (h : HighlightCards cards)
    (hentries : CountList (cards.map card2Rank) ((t, n) :: rest)) (hn : n ≤ 3)
    (hfull : ¬(n = 3 ∧ ((rest[0]?).map Prod.snd).getD 0 ≥ 2))
    (hbelow : Below (cards.map cardNumber) Category.straightFlush.order) :
    Below (cards.map cardNumber) Category.fullHouse.order := by
  have hquads := HoldemHandEvaluator.below_quads hbelow (h.le_three hentries hn)
  rcases counts_below_fullHouse hentries hn hfull with ⟨rfl, hones⟩ | ⟨rfl, q, rest, rfl⟩ | ⟨rfl, hones⟩ | ⟨rfl, hones⟩
  · exact h.deal.below_fullHouse hquads (h.countRanks_trips hentries hones) (.inr rfl)
  · exact h.deal.below_fullHouse hquads (h.countRanks_twoPair hentries) (.inl rfl)
  · exact h.deal.below_fullHouse hquads (h.countRanks_pair hentries hones) (.inl rfl)
  · exact h.deal.below_fullHouse hquads
      (h.countRanks_noPair hentries (List.forall_mem_cons.mpr ⟨rfl, hones⟩)) (.inl rfl)

/-- The choice by ranks when there is neither a straight nor anything above. -/
theorem HighlightCards.best_ofRanks (h : HighlightCards cards)
    (hentries : CountList (cards.map card2Rank) ((t, n) :: rest)) (hn : n ≤ 3)
    (hfull : ¬(n = 3 ∧ ((rest[0]?).map Prod.snd).getD 0 ≥ 2))
    (hbelow : Below (cards.map cardNumber) Category.straight.order) :
    BestSelection cards
      (if n ≥ 3 then threeOfAKind
        else if n = 2 ∧ ((rest[0]?).map Prod.snd).getD 0 = 2 then twoPair
        else if n = 2 then pair
        else highCard)
      (setWinCardIndexes cards (rankList cards) ((t, n) :: rest) none) := by
  rcases counts_below_fullHouse hentries hn hfull with ⟨rfl, hones⟩ | ⟨rfl, q, rest, rfl⟩ | ⟨rfl, hones⟩ | ⟨rfl, hones⟩
  · exact h.best_threeOfAKind hentries hones hbelow
  · exact h.best_twoPair hentries (h.deal.below_threeOfAKind hbelow (h.countRanks_twoPair hentries))
  · have hcounts := h.countRanks_pair hentries hones
    have hsecond : ¬(2 = 2 ∧ ((rest[0]?).map Prod.snd).getD 0 = 2) := by
      rintro ⟨_, htwo⟩
      cases rest with
      | nil => cases htwo
      | cons e rest =>
        have hone := hones e (by simp)
        change e.2 = 2 at htwo
        omega
    rw [if_neg (by decide), if_neg hsecond, if_pos rfl]
    exact h.best_onePair hentries hones
      (h.deal.below_twoPair (h.deal.below_threeOfAKind hbelow hcounts) hcounts (.inr rfl))
  · have hall : ∀ e ∈ (t, 1) :: rest, e.2 = 1 := List.forall_mem_cons.mpr ⟨rfl, hones⟩
    have hcounts := h.countRanks_noPair hentries hall
    exact h.best_noPair hentries hall (h.deal.below_pair
      (h.deal.below_twoPair (h.deal.below_threeOfAKind hbelow hcounts) hcounts (.inl rfl)) hcounts)

/-- The choice among the cards of a suit that five cards share. -/
theorem HighlightCards.best_suited (h : HighlightCards cards)
    (hentries : CountList (cards.map card2Rank) ((t, n) :: rest)) (hn : n ≤ 3)
    (hfull : ¬(n = 3 ∧ ((rest[0]?).map Prod.snd).getD 0 ≥ 2))
    (hflush : flushSuit (cards.map cardNumber) = some (cardSuits.idxOf s : Int)) :
    ∃ type idx, (analyzeStraight cards ((getRanksOfSuit cards s).insertionSort (· ≥ ·)) (some s)).elim
        (flush, setWinCardIndexes cards ((getRanksOfSuit cards s).insertionSort (· ≥ ·)) ((t, n) :: rest) (some s))
        (fun found => (if found.1 = aceRank then royalFlush else straightFlush, found.2)) = (type, idx) ∧
      BestSelection cards type idx := by
  rcases analyzeStraight_spec cards (some s) (h.suitedRanks_falling s)
    h.suitedRanks_range with ⟨hnone, hall⟩ | ⟨r, hsome, hr, hhighest⟩
  · rw [hnone]
    have hbelow := h.deal.below_straightFlush (h.straightsAbove fun s' hs' q hq => hall q (by
      obtain rfl := Option.some.inj (hflush.symm.trans hs')
      rw [h.suitRanks_cardNumber] at hq
      exact hq.mono fun x hx => mem_suitedRanks.mpr hx))
    exact ⟨_, _, rfl, h.best_flush hflush (h.below_fullHouse hentries hn hfull hbelow)⟩
  · rw [hsome]
    exact ⟨_, _, rfl, h.best_straightFlush hflush hr hhighest⟩

/-- The choice where no suit has five cards. -/
theorem HighlightCards.best_unsuited (h : HighlightCards cards)
    (hentries : CountList (cards.map card2Rank) ((t, n) :: rest)) (hn : n ≤ 3)
    (hfull : ¬(n = 3 ∧ ((rest[0]?).map Prod.snd).getD 0 ≥ 2)) (hflush : flushSuit (cards.map cardNumber) = none) :
    ∃ type idx, (analyzeStraight cards (rankList cards) none).elim
        (if n ≥ 3 then threeOfAKind
          else if n = 2 ∧ ((rest[0]?).map Prod.snd).getD 0 = 2 then twoPair
          else if n = 2 then pair
          else highCard, setWinCardIndexes cards (rankList cards) ((t, n) :: rest) none)
        (fun found => (straight, found.2)) = (type, idx) ∧
      BestSelection cards type idx := by
  have hstraights := h.straightsAbove fun s' hs' => by
    rw [hflush] at hs'
    cases hs'
  have hbelow := HoldemHandEvaluator.below_flush
    (h.below_fullHouse hentries hn hfull (h.deal.below_straightFlush hstraights)) hflush
  rcases analyzeStraight_spec cards none (rankList_falling cards)
    (fun x hx => h.rank_range x (mem_rankList.mp hx)) with ⟨hnone, _⟩ | ⟨r, hsome, _⟩
  · rw [hnone] at hstraights ⊢
    exact ⟨_, _, rfl, h.best_ofRanks hentries hn hfull (HoldemHandEvaluator.below_straight hbelow hstraights)⟩
  · rw [hsome] at hstraights ⊢
    exact ⟨_, _, rfl, h.best_straight hbelow hstraights⟩

/-- For five to seven different cards the selection is a best hand, and the type is its category. -/
theorem analyzeCards_best (h : HighlightCards cards) :
    ∃ type idx, analyzeCards cards = some (type, idx) ∧ BestSelection cards type idx := by
  have hentries := countList_sortMapByValue (cards.map card2Rank)
  have hsuits := countList_sortMapByValue (cards.map card2Suit)
  have hfive := h.five
  unfold analyzeCards
  dsimp only
  generalize sortMapByValue (countVecEle (cards.map card2Rank)) = entries at hentries
  generalize sortMapByValue (countVecEle (cards.map card2Suit)) = suits at hsuits
  change ∃ type idx, _ ∧ BestSelection cards type idx
  have hsum := hentries.sum
  have hsuitSum := hsuits.sum
  rw [List.length_map] at hsum hsuitSum
  obtain _ | ⟨⟨t, n⟩, rest⟩ := entries
  · rw [List.map_nil, List.sum_nil] at hsum
    omega
  obtain _ | ⟨⟨s, m⟩, others⟩ := suits
  · rw [List.map_nil, List.sum_nil] at hsuitSum
    omega
  simp only [List.getElem?_cons_zero, List.getElem?_cons_succ, Option.bind_some]
  have hfour : n ≤ 4 := by
    have hle := HoldemHandEvaluator.rankCounts_le h.deal.nodup t
    rw [h.count_of_mem hentries (e := (t, n)) (by simp)] at hle
    exact hle
  split
  next hquads =>
    subst hquads
    exact ⟨_, _, rfl, h.best_quads hentries⟩
  next hnotFour =>
    have hn : n ≤ 3 := by omega
    split
    next hfull =>
      obtain ⟨rfl, hsecond⟩ := hfull
      obtain _ | ⟨⟨p, m⟩, rest⟩ := rest
      · cases hsecond
      · exact ⟨_, _, rfl, h.best_fullHouse hentries hsecond⟩
    next hfull =>
      have hs := h.suit_mem ((hsuits.mem (s, m)).mp (by simp)).1
      have hflush := h.flushSuit_first hsuits
      split
      next hmany =>
        rw [if_pos hmany.1] at hflush
        obtain ⟨type, idx, hchoice, hbest⟩ := h.best_suited hentries hn hfull hflush
        exact ⟨type, idx, congrArg some hchoice, hbest⟩
      next hfew =>
        have hnull : '\x00' ∉ cardSuits := by decide
        rw [if_neg fun hmany => hfew ⟨hmany, fun heq => hnull (heq ▸ hs)⟩] at hflush
        obtain ⟨type, idx, hchoice, hbest⟩ := h.best_unsuited hentries hn hfull hflush
        exact ⟨type, idx, congrArg some hchoice, hbest⟩

theorem analyzeCards_best_wheel :
    HighlightCards [['A', 's'], ['9', 'h'], ['2', 'd'], ['3', 's'], ['4', 's'], ['2', 's'], ['5', 's']] ∧
      ∃ type idx, analyzeCards [['A', 's'], ['9', 'h'], ['2', 'd'], ['3', 's'], ['4', 's'], ['2', 's'], ['5', 's']] =
          some (type, idx) ∧
        BestSelection [['A', 's'], ['9', 'h'], ['2', 'd'], ['3', 's'], ['4', 's'], ['2', 's'], ['5', 's']] type idx := by
  have h : HighlightCards [['A', 's'], ['9', 'h'], ['2', 'd'], ['3', 's'], ['4', 's'], ['2', 's'], ['5', 's']] := by
    refine ⟨fun card hcard => ?_, by decide, by decide, by decide⟩
    have hall : ([['A', 's'], ['9', 'h'], ['2', 'd'], ['3', 's'], ['4', 's'], ['2', 's'], ['5', 's']].all fun card =>
        cardRanks.any fun r => cardSuits.any fun s => card = [r, s]) = true := by decide
    have hany := List.all_eq_true.mp hall card hcard
    simp only [List.any_eq_true, decide_eq_true_eq] at hany
    exact hany
  exact ⟨h, analyzeCards_best h⟩

end Ranks

end HighlightCard

end MasterAI
