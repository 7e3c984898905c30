import MasterAI.HighlightBest
import Mathlib.Algebra.Order.BigOperators.Group.List

namespace MasterAI

namespace HighlightCard

open HoldemHandEvaluator (Deal rankCounts HasStraight Value topRanks CountRanks Below)

/-- The type that is reported for a hand, an ace-high straight flush being a royal flush. -/
def typeOf (v : HandRank) : Int :=
  match v.category with
  | .noPair => highCard
  | .pair => pair
  | .twoPair => twoPair
  | .threeOfAKind => threeOfAKind
  | .straight => straight
  | .flush => flush
  | .fullHouse => fullHouse
  | .quads => fourOfAKind
  | .straightFlush => if v.kickers = [aceRank] then royalFlush else straightFlush

/-- Five different positions whose cards make the best hand, and its type. -/
structure BestSelection (cards : List (List Char)) (type : Int) (idx : List Nat) : Prop where
  five : idx.length = 5
  nodup : idx.Nodup
  lt : ∀ i ∈ idx, i < cards.length
  best : ∃ v, Makes card2Rank suitCode (idx.map fun i => cards.getD i []) v ∧
    BestHand card2Rank suitCode cards v ∧ typeOf v = type

section

variable {cards : List (List Char)} {entries rest : List (Int × Nat)} {keys : List (Int × Nat)} {suit : Option Char}
  {l f : List Int} {t p q k x : Int} {n m : Nat} {v : HandRank}

/-- Pushes of the five ranks of the best value, of one suit where it asks for it. -/
theorem HighlightCards.selection (h : HighlightCards cards) (hv : Value (cards.map cardNumber) v)
    (havailable : Available cards suit keys) (hkeys : keys.Nodup) (hfive : keys.length = 5)
    (hranks : keys.map Prod.fst = v.category.fiveRanks v.kickers) (hsuit : v.category.OneSuit → suit ≠ none) :
    BestSelection cards (typeOf v) (pushPicks cards suit keys []) := by
  have hselected := pushPicks_selected h.valid havailable hkeys
  refine ⟨?_, hselected.nodup, hselected.lt, v, ⟨hv.shows.1, ?_, fun hone => ?_⟩, h.bestHand_iff.mpr hv, rfl⟩
  · rw [pushPicks_length h.valid havailable, hfive]
    rfl
  · rw [List.map_map]
    exact List.Perm.of_eq (hselected.ranks.trans hranks)
  · obtain ⟨s, rfl⟩ := Option.ne_none_iff_exists'.mp (hsuit hone)
    refine ⟨s.toNat, fun card hcard => ?_⟩
    obtain ⟨i, hi, rfl⟩ := List.mem_map.mp hcard
    rw [suitCode, hselected.suits s rfl i hi]

theorem topRanks_one_eq (hl : ∀ x ∈ l, 0 ≤ x) (hk : k ∈ l) (hmax : ∀ x ∈ l, x ≤ k) : topRanks 1 l = [k] := by
  obtain ⟨m, htop, hm, hall⟩ := HoldemHandEvaluator.topRanks_one hl (List.ne_nil_of_mem hk)
  rw [htop, le_antisymm (hmax m hm) (hall k hk)]

/-- The highest ranks are the first ones of a falling list of the same ranks. -/
theorem topRanks_take (hnodup : l.Nodup) (hl : ∀ x ∈ l, 0 ≤ x) (hf : f.Pairwise (· > ·)) (hmem : ∀ x, x ∈ l ↔ x ∈ f)
    (hm : m ≤ f.length) : topRanks m l = f.take m := by
  have hlength : (f.take m).length = m := List.length_take_of_le hm
  have hsplit : (f.take m ++ f.drop m).Pairwise (· > ·) := by
    rw [List.take_append_drop]
    exact hf
  obtain ⟨htake, _, hbefore⟩ := List.pairwise_append.mp hsplit
  have htop := topRanks_eq hnodup hl htake (fun x hx => (hmem x).mpr (List.mem_of_mem_take hx)) fun x hx => by
    have hin := (hmem x).mp hx
    rw [← List.take_append_drop m f, List.mem_append] at hin
    exact hin.imp_right fun hdrop y hy => hbefore y hy x hdrop
  rw [hlength] at htop
  exact htop

variable (h : HighlightCards cards) (hentries : CountList (cards.map card2Rank) entries)

include h hentries

theorem HighlightCards.count_of_mem {e : Int × Nat} (he : e ∈ entries) : rankCounts (cards.map cardNumber) e.1 = e.2 := by
  rw [h.rankCounts_cardNumber, ((hentries.mem e).mp he).2]

theorem HighlightCards.mem_of_count (hx : 0 < rankCounts (cards.map cardNumber) x) :
    (x, rankCounts (cards.map cardNumber) x) ∈ entries := by
  rw [h.rankCounts_cardNumber] at hx ⊢
  exact (hentries.mem _).mpr ⟨List.count_pos_iff.mp hx, rfl⟩

omit h hentries

/-- The ranks of entries that each have the same count fall. -/
theorem falling_of_singles (hsorted : rest.Pairwise CmpByValue) (hones : ∀ e ∈ rest, e.2 = 1) :
    (rest.map Prod.fst).Pairwise (· > ·) := by
  rw [List.pairwise_map]
  refine hsorted.imp_of_mem fun {e e'} he he' hcmp => ?_
  unfold CmpByValue at hcmp
  rwa [if_pos (by rw [hones e he, hones e' he'])] at hcmp

theorem length_le_sum (hpos : ∀ e ∈ rest, 0 < e.2) : rest.length ≤ (rest.map Prod.snd).sum := by
  induction rest with
  | nil => exact le_rfl
  | cons e rest ih =>
    have hhead := hpos e (by simp)
    have htail := ih fun e' he' => hpos e' (List.mem_cons_of_mem _ he')
    rw [List.length_cons, List.map_cons, List.sum_cons]
    omega

theorem sum_of_ones (hones : ∀ e ∈ rest, e.2 = 1) : (rest.map Prod.snd).sum = rest.length := by
  induction rest with
  | nil => rfl
  | cons e rest ih =>
    rw [List.map_cons, List.sum_cons, hones e (by simp), ih fun e' he' => hones e' (List.mem_cons_of_mem _ he'),
      List.length_cons, Nat.add_comm]

/-- The sum of the counts behind the first entry. -/
theorem HighlightCards.rest_sum (h : HighlightCards cards) (hentries : CountList (cards.map card2Rank) ((t, n) :: rest)) :
    rest.length ≤ (rest.map Prod.snd).sum ∧ 5 ≤ n + (rest.map Prod.snd).sum ∧ n + (rest.map Prod.snd).sum ≤ 7 := by
  have hsum := hentries.sum
  rw [List.map_cons, List.sum_cons, List.length_map] at hsum
  have hfive := h.five
  have hseven := h.seven
  exact ⟨length_le_sum fun e he => hentries.count_pos (List.mem_cons_of_mem _ he), by omega, by omega⟩

theorem HighlightCards.best_quads (h : HighlightCards cards) (hentries : CountList (cards.map card2Rank) ((t, 4) :: rest)) :
    BestSelection cards fourOfAKind (setWinCardIndexes cards (rankList cards) ((t, 4) :: rest) none) := by
  obtain ⟨hlength, hfive, hseven⟩ := h.rest_sum hentries
  have hother : ∃ x ∈ cards.map card2Rank, x ∉ [t] := by
    cases rest with
    | nil => simp at hfive
    | cons e rest =>
      refine ⟨e.1, ((hentries.mem e).mp (by simp)).1, fun hmem => ?_⟩
      have hnodup := (List.nodup_cons.mp hentries.keys_nodup).1
      rw [List.mem_singleton] at hmem
      exact hnodup (by rw [← hmem]; simp)
  obtain ⟨k, hfind, hk, hnot, hmax⟩ := highestOther hother
  have hcount := h.count_of_mem hentries (e := (t, 4)) (by simp)
  have hbelow := h.below_straightFlush_of_few hentries (by simp only [List.length_cons]; omega)
  obtain ⟨k', htop, hv⟩ := h.deal.value_quads hbelow hcount fun q _ hq => by
    have hmem := h.mem_of_count hentries (x := q) (by omega)
    rw [hq] at hmem
    rcases List.mem_cons.mp hmem with heq | hmem
    · rw [(Prod.mk.inj heq).1]
    · rcases hentries.head hmem with hlt | ⟨_, hlt⟩
      · omega
      · exact hlt.le
  have hkeq : k' = k := by
    have hone := topRanks_one_eq (l := (cards.map card2Rank).filter fun r1 => r1 ≠ t) (k := k)
      (fun x hx => (h.rank_range x (List.mem_of_mem_filter hx)).1)
      (List.mem_filter.mpr ⟨hk, by simpa using hnot⟩)
      (fun x hx => hmax x (List.mem_of_mem_filter hx) (by simpa using (List.mem_filter.mp hx).2))
    rw [h.ranks_cardNumber, hone] at htop
    exact (List.cons.inj htop).1.symm
  subst hkeq
  rw [setWinCardIndexes_quads h.valid hentries hfind]
  have hne : t ≠ k' := fun heq => hnot (by simp [heq])
  refine h.selection (v := ⟨.quads, [t, k']⟩) hv ?_ ?_ rfl rfl fun hone => by cases hone
  · refine (available_iff h.valid).mpr ?_
    rw [h.rankCounts_cardNumber] at hcount
    have hpos := List.count_pos_iff.mpr hk
    simp only [List.forall_mem_cons, List.not_mem_nil, false_imp_iff, implies_true, and_true, hcount]
    omega
  · simp [hne]

/-- A rank of some count stands first or comes after the first entry in the order. -/
theorem HighlightCards.count_cases (h : HighlightCards cards) (hentries : CountList (cards.map card2Rank) ((t, n) :: rest))
    (hx : 0 < rankCounts (cards.map cardNumber) x) :
    x = t ∧ rankCounts (cards.map cardNumber) x = n ∨
      (x, rankCounts (cards.map cardNumber) x) ∈ rest ∧ (rankCounts (cards.map cardNumber) x < n ∨
        rankCounts (cards.map cardNumber) x = n ∧ x < t) := by
  rcases List.mem_cons.mp (h.mem_of_count hentries hx) with heq | hmem
  · exact .inl (Prod.mk.inj heq)
  · exact .inr ⟨hmem, hentries.head hmem⟩

/-- Where the other ranks are there once, the first is the only one that is there more often. -/
theorem HighlightCards.only_first (h : HighlightCards cards)
    (hentries : CountList (cards.map card2Rank) ((t, n) :: rest)) (hones : ∀ e ∈ rest, e.2 = 1)
    (hx : 1 < rankCounts (cards.map cardNumber) x) : x = t := by
  rcases h.count_cases hentries (x := x) (by omega) with ⟨heq, _⟩ | ⟨hmem, _⟩
  · exact heq
  · have hone := hones _ hmem
    dsimp only at hone
    omega

/-- The same for the entries behind the first. -/
theorem second_cases (hsorted : ((q, m) :: rest).Pairwise CmpByValue) (hx : (x, n) ∈ (q, m) :: rest) :
    x = q ∧ n = m ∨ (x, n) ∈ rest ∧ (n < m ∨ n = m ∧ x < q) := by
  rcases List.mem_cons.mp hx with heq | hmem
  · exact .inl (Prod.mk.inj heq)
  · refine .inr ⟨hmem, ?_⟩
    have hcmp := (List.pairwise_cons.mp hsorted).1 _ hmem
    unfold CmpByValue at hcmp
    split at hcmp
    next heq => exact .inr ⟨heq.symm, hcmp⟩
    next => exact .inl hcmp

theorem HighlightCards.le_three (h : HighlightCards cards) (hentries : CountList (cards.map card2Rank) ((t, n) :: rest))
    (hn : n ≤ 3) (x : Int) : rankCounts (cards.map cardNumber) x ≤ 3 := by
  by_contra hmore
  rcases h.count_cases hentries (x := x) (by omega) with ⟨_, hcount⟩ | ⟨_, hless⟩
  · omega
  · omega

theorem HighlightCards.countRanks_fullHouse (h : HighlightCards cards)
    (hentries : CountList (cards.map card2Rank) ((t, 3) :: (p, m) :: rest)) (hm : 2 ≤ m) :
    CountRanks (cards.map cardNumber) (some t) (some p) none := by
  obtain ⟨_, _, hseven⟩ := h.rest_sum hentries
  rw [List.map_cons, List.sum_cons] at hseven
  have ht := h.count_of_mem hentries (e := (t, 3)) (by simp)
  have hp := h.count_of_mem hentries (e := (p, m)) (by simp)
  dsimp only at hp
  have htp : t ≠ p := fun heq => (List.nodup_cons.mp hentries.keys_nodup).1 (by simp [heq])
  have hsecond := (List.pairwise_cons.mp hentries.sorted).2
  have hle := h.le_three hentries le_rfl p
  refine ⟨h.le_three hentries le_rfl, ⟨ht, fun x _ _ hx => ?_⟩, ⟨⟨by omega, fun heq => htp (Option.some.inj heq).symm⟩,
    fun x _ _ hx => ?_⟩, fun hnone => by cases hnone⟩
  · rcases h.count_cases hentries (x := x) (by omega) with ⟨heq, _⟩ | ⟨_, hless⟩
    · omega
    · omega
  · obtain ⟨hcount, hne⟩ := hx
    rcases h.count_cases hentries (x := x) (by omega) with ⟨heq, _⟩ | ⟨hmem, _⟩
    · exact absurd (congrArg some heq) hne
    rcases second_cases hsecond hmem with ⟨heq, _⟩ | ⟨hlater, hless⟩
    · exact heq.le
    · -- a third rank of two cards and a second one of three are too many cards
      have hsum := List.single_le_sum (fun _ _ => Nat.zero_le _) _ (List.mem_map_of_mem (f := Prod.snd) hlater)
      dsimp only at hsum
      omega

theorem HighlightCards.countRanks_trips (h : HighlightCards cards)
    (hentries : CountList (cards.map card2Rank) ((t, 3) :: rest)) (hones : ∀ e ∈ rest, e.2 = 1) :
    CountRanks (cards.map cardNumber) (some t) none none := by
  refine ⟨h.le_three hentries le_rfl, ⟨h.count_of_mem hentries (e := (t, 3)) (by simp), fun x _ _ hx => ?_⟩,
    fun x _ _ hx => ?_, fun hnone => by cases hnone⟩
  · rcases h.count_cases hentries (x := x) (by omega) with ⟨heq, _⟩ | ⟨_, hless⟩
    · exact heq.le
    · omega
  · obtain ⟨hcount, hne⟩ := hx
    exact hne (congrArg some (h.only_first hentries hones (by omega)))

/-- The first of some entries of two cards or fewer is the highest pair. -/
theorem HighlightCards.highest_pair (h : HighlightCards cards)
    (hentries : CountList (cards.map card2Rank) ((p, 2) :: rest)) :
    HoldemHandEvaluator.IsHighest (fun r => rankCounts (cards.map cardNumber) r = 3) none ∧
      HoldemHandEvaluator.IsHighest (fun r => (rankCounts (cards.map cardNumber) r = 2 ∨
        rankCounts (cards.map cardNumber) r = 3) ∧ some r ≠ none) (some p) := by
  have hp := h.count_of_mem hentries (e := (p, 2)) (by simp)
  dsimp only at hp
  refine ⟨fun x _ _ hx => ?_, ⟨by simp [hp], fun x _ _ hx => ?_⟩⟩
  · rcases h.count_cases hentries (x := x) (by omega) with ⟨_, hcount⟩ | ⟨_, hless⟩
    · omega
    · omega
  · have hcount := hx.1
    rcases h.count_cases hentries (x := x) (by omega) with ⟨heq, _⟩ | ⟨_, hless⟩
    · exact heq.le
    · omega

theorem HighlightCards.countRanks_twoPair (h : HighlightCards cards)
    (hentries : CountList (cards.map card2Rank) ((p, 2) :: (q, 2) :: rest)) :
    CountRanks (cards.map cardNumber) none (some p) (some q) := by
  obtain ⟨hthree, hpair⟩ := h.highest_pair hentries
  have hq := h.count_of_mem hentries (e := (q, 2)) (by simp)
  have hpq : p ≠ q := fun heq => (List.nodup_cons.mp hentries.keys_nodup).1 (by simp [heq])
  have hsecond := (List.pairwise_cons.mp hentries.sorted).2
  refine ⟨h.le_three hentries (by decide), hthree, hpair, fun _ => ⟨⟨hq, fun heq => hpq (Option.some.inj heq).symm⟩,
    fun x _ _ hx => ?_⟩⟩
  obtain ⟨hcount, hne⟩ := hx
  rcases h.count_cases hentries (x := x) (by omega) with ⟨heq, _⟩ | ⟨hmem, _⟩
  · exact absurd (congrArg some heq) hne
  rw [hcount] at hmem
  rcases second_cases hsecond hmem with ⟨heq, _⟩ | ⟨_, hless⟩
  · exact heq.le
  · omega

theorem HighlightCards.countRanks_pair (h : HighlightCards cards)
    (hentries : CountList (cards.map card2Rank) ((p, 2) :: rest)) (hones : ∀ e ∈ rest, e.2 = 1) :
    CountRanks (cards.map cardNumber) none (some p) none := by
  obtain ⟨hthree, hpair⟩ := h.highest_pair hentries
  refine ⟨h.le_three hentries (by decide), hthree, hpair, fun _ x _ _ hx => ?_⟩
  obtain ⟨hcount, hne⟩ := hx
  exact hne (congrArg some (h.only_first hentries hones (by omega)))

theorem HighlightCards.countRanks_noPair (h : HighlightCards cards) (hentries : CountList (cards.map card2Rank) entries)
    (hones : ∀ e ∈ entries, e.2 = 1) : CountRanks (cards.map cardNumber) none none none := by
  have hone : ∀ x, rankCounts (cards.map cardNumber) x ≤ 1 := by
    intro x
    by_contra hmore
    have hcount := hones _ (h.mem_of_count hentries (x := x) (by omega))
    dsimp only at hcount
    omega
  refine ⟨fun x => (hone x).trans (by decide), fun x _ _ hx => ?_, fun x _ _ hx => ?_, fun _ x _ _ hx => ?_⟩
  · have hle := hone x
    omega
  · have hle := hone x
    have hcount := hx.1
    omega
  · have hle := hone x
    have hcount := hx.1
    omega

/-- The ranks other than the first are those of the other entries. -/
theorem mem_filter_rest (hentries : CountList (cards.map card2Rank) ((t, n) :: rest)) :
    x ∈ (cards.map card2Rank).filter (fun r => r ≠ t) ↔ x ∈ rest.map Prod.fst := by
  rw [List.mem_filter]
  have hnot := (List.nodup_cons.mp hentries.keys_nodup).1
  constructor
  · rintro ⟨hx, hne⟩
    rcases List.mem_cons.mp ((hentries.mem (x, (cards.map card2Rank).count x)).mpr ⟨hx, rfl⟩) with heq | hmem
    · simp [(Prod.mk.inj heq).1] at hne
    · exact List.mem_map.mpr ⟨_, hmem, rfl⟩
  · intro hx
    obtain ⟨e, he, rfl⟩ := List.mem_map.mp hx
    refine ⟨((hentries.mem e).mp (List.mem_cons_of_mem _ he)).1, ?_⟩
    have hne : e.1 ≠ t := fun heq => hnot (List.mem_map.mpr ⟨e, he, heq⟩)
    simpa using hne

/-- Behind the first entry with single cards the highest other ranks come first. -/
theorem HighlightCards.topRanks_rest (h : HighlightCards cards)
    (hentries : CountList (cards.map card2Rank) ((t, n) :: rest)) (hones : ∀ e ∈ rest, e.2 = 1) (hm : m ≤ rest.length) :
    topRanks m (((cards.map cardNumber).map HoldemHandEvaluator.rank).filter fun r => r ≠ t) =
      (rest.map Prod.fst).take m := by
  have hnodup : (((cards.map cardNumber).map HoldemHandEvaluator.rank).filter fun r => r ≠ t).Nodup := by
    refine HoldemHandEvaluator.nodup_of_rankCounts fun x hx => ?_
    by_contra hmore
    rcases h.count_cases hentries (x := x) (by omega) with ⟨heq, _⟩ | ⟨hmem, _⟩
    · simp [heq] at hx
    · have hone := hones _ hmem
      dsimp only at hone
      omega
  rw [h.ranks_cardNumber] at hnodup ⊢
  refine topRanks_take hnodup (fun x hx => (h.rank_range x (List.mem_of_mem_filter hx)).1)
    (falling_of_singles (List.pairwise_cons.mp hentries.sorted).2 hones) (fun x => mem_filter_rest hentries) ?_
  rwa [List.length_map]

/-- The first five cards make the best value. -/
theorem HighlightCards.plain_selection (h : HighlightCards cards)
    (hentries : CountList (cards.map card2Rank) ((t, n) :: rest)) (hn : n ≤ 3)
    (hpairs : ¬(((t, n) :: rest).length = 4 ∧ (((t, n) :: rest).map Prod.snd).take 3 = [2, 2, 2]))
    (hv : Value (cards.map cardNumber) v) (hfive : ((spread ((t, n) :: rest)).take 5).length = 5)
    (hranks : ((spread ((t, n) :: rest)).take 5).map Prod.fst = v.category.fiveRanks v.kickers)
    (hsuit : ¬v.category.OneSuit) :
    BestSelection cards (typeOf v) (setWinCardIndexes cards (rankList cards) ((t, n) :: rest) none) := by
  rw [setWinCardIndexes_plain h.valid hentries hn hpairs]
  have havailable : Available cards none ((spread ((t, n) :: rest)).take 5) := fun key hkey =>
    available_spread h.valid hentries key (List.mem_of_mem_take hkey)
  exact h.selection hv havailable ((spread_nodup hentries.keys_nodup).sublist (List.take_sublist _ _)) hfive hranks
    fun hone => absurd hone hsuit

theorem HighlightCards.best_fullHouse (h : HighlightCards cards)
    (hentries : CountList (cards.map card2Rank) ((t, 3) :: (p, m) :: rest)) (hm : 2 ≤ m) :
    BestSelection cards fullHouse (setWinCardIndexes cards (rankList cards) ((t, 3) :: (p, m) :: rest) none) := by
  obtain ⟨hlength, _, hseven⟩ := h.rest_sum hentries
  have hcounts := h.countRanks_fullHouse hentries hm
  have hle := h.le_three hentries le_rfl p
  rw [h.count_of_mem hentries (e := (p, m)) (by simp)] at hle
  dsimp only at hle
  have hfew : rest.length ≤ 2 := by
    have hpos := length_le_sum (show ∀ e ∈ rest, 0 < e.2 from fun e he => hentries.count_pos (by simp [he]))
    rw [List.map_cons, List.sum_cons] at hseven
    omega
  have hbelow := h.below_straightFlush_of_few hentries (by simp only [List.length_cons]; omega)
  have hv := h.deal.value_fullHouse (HoldemHandEvaluator.below_quads hbelow hcounts.le_three) hcounts
  refine h.plain_selection hentries le_rfl (fun hpairs => by simp at hpairs) hv ?_ ?_ id
  · obtain rfl | rfl : m = 2 ∨ m = 3 := by omega
    · simp [spread_cons, List.range_succ]
    · simp [spread_cons, List.range_succ]
  · obtain rfl | rfl : m = 2 ∨ m = 3 := by omega
    · simp [spread_cons, List.range_succ, Category.fiveRanks]
    · simp [spread_cons, List.range_succ, Category.fiveRanks]

theorem HighlightCards.best_threeOfAKind (h : HighlightCards cards)
    (hentries : CountList (cards.map card2Rank) ((t, 3) :: rest)) (hones : ∀ e ∈ rest, e.2 = 1)
    (hbelow : Below (cards.map cardNumber) Category.straight.order) :
    BestSelection cards threeOfAKind (setWinCardIndexes cards (rankList cards) ((t, 3) :: rest) none) := by
  obtain ⟨_, hfive, _⟩ := h.rest_sum hentries
  have hsum := sum_of_ones hones
  obtain ⟨a, b, htop, hv⟩ := h.deal.value_threeOfAKind hbelow (h.countRanks_trips hentries hones)
  rw [h.topRanks_rest hentries hones (by omega)] at htop
  obtain ⟨x, rest, rfl⟩ := List.exists_cons_of_length_pos (l := rest) (by omega)
  obtain ⟨y, rest, rfl⟩ := List.exists_cons_of_length_pos (l := rest) (by
    rw [List.length_cons] at hsum
    omega)
  obtain ⟨a', one⟩ := x
  obtain ⟨b', one'⟩ := y
  obtain rfl : one = 1 := hones (a', one) (by simp)
  obtain rfl : one' = 1 := hones (b', one') (by simp)
  simp only [List.map_cons, List.take_succ_cons, List.take_zero, List.cons.injEq, and_true] at htop
  obtain ⟨rfl, rfl⟩ := htop
  refine h.plain_selection hentries le_rfl (fun hpairs => by simp at hpairs) hv ?_ ?_ id
  · simp [spread_cons, List.range_succ]
  · simp [spread_cons, List.range_succ, Category.fiveRanks]

theorem HighlightCards.best_onePair (h : HighlightCards cards)
    (hentries : CountList (cards.map card2Rank) ((p, 2) :: rest)) (hones : ∀ e ∈ rest, e.2 = 1)
    (hbelow : Below (cards.map cardNumber) Category.twoPair.order) :
    BestSelection cards pair (setWinCardIndexes cards (rankList cards) ((p, 2) :: rest) none) := by
  obtain ⟨_, hfive, _⟩ := h.rest_sum hentries
  have hsum := sum_of_ones hones
  obtain ⟨a, b, c, htop, hv⟩ := h.deal.value_pair hbelow (h.countRanks_pair hentries hones)
  rw [h.topRanks_rest hentries hones (by omega)] at htop
  obtain ⟨x, y, z, rest, rfl⟩ : ∃ x y z rest', rest = x :: y :: z :: rest' := by
    rcases rest with _ | ⟨x, _ | ⟨y, _ | ⟨z, rest⟩⟩⟩
    all_goals simp at hfive hsum ⊢
    all_goals omega
  obtain ⟨a', one⟩ := x
  obtain ⟨b', one'⟩ := y
  obtain ⟨c', one''⟩ := z
  obtain rfl : one = 1 := hones (a', one) (by simp)
  obtain rfl : one' = 1 := hones (b', one') (by simp)
  obtain rfl : one'' = 1 := hones (c', one'') (by simp)
  simp only [List.map_cons, List.take_succ_cons, List.take_zero, List.cons.injEq, and_true] at htop
  obtain ⟨rfl, rfl, rfl⟩ := htop
  refine h.plain_selection hentries (by decide) (fun hpairs => by simp at hpairs) hv ?_ ?_ id
  · simp [spread_cons, List.range_succ]
  · simp [spread_cons, List.range_succ, Category.fiveRanks]

theorem spread_of_ones (hones : ∀ e ∈ entries, e.2 = 1) : (spread entries).map Prod.fst = entries.map Prod.fst := by
  induction entries with
  | nil => rfl
  | cons e entries ih =>
    rw [spread_cons, List.map_append, ih fun e' he' => hones e' (List.mem_cons_of_mem _ he'), hones e (by simp)]
    rfl

theorem HighlightCards.best_noPair (h : HighlightCards cards)
    (hentries : CountList (cards.map card2Rank) ((t, 1) :: rest)) (hones : ∀ e ∈ (t, 1) :: rest, e.2 = 1)
    (hbelow : Below (cards.map cardNumber) Category.pair.order) :
    BestSelection cards highCard (setWinCardIndexes cards (rankList cards) ((t, 1) :: rest) none) := by
  obtain ⟨_, hfive, _⟩ := h.rest_sum hentries
  have hsum := sum_of_ones fun e he => hones e (List.mem_cons_of_mem _ he)
  have hv := h.deal.value_noPair hbelow (h.countRanks_noPair hentries hones)
  have hfalls := falling_of_singles hentries.sorted hones
  have hnodup : (cards.map card2Rank).Nodup := by
    refine List.nodup_iff_count_le_one.mpr fun x => ?_
    by_contra hmore
    have hpos : 0 < (cards.map card2Rank).count x := by omega
    have hone := hones (x, (cards.map card2Rank).count x) ((hentries.mem _).mpr ⟨List.count_pos_iff.mp hpos, rfl⟩)
    dsimp only at hone
    omega
  have hmem : ∀ x, x ∈ cards.map card2Rank ↔ x ∈ ((t, 1) :: rest).map Prod.fst := by
    intro x
    constructor
    · exact fun hx => List.mem_map.mpr ⟨_, (hentries.mem (x, (cards.map card2Rank).count x)).mpr ⟨hx, rfl⟩, rfl⟩
    · intro hx
      obtain ⟨e, he, rfl⟩ := List.mem_map.mp hx
      exact ((hentries.mem e).mp he).1
  rw [h.ranks_cardNumber, topRanks_take hnodup (fun x hx => (h.rank_range x hx).1) hfalls hmem
    (by rw [List.length_map, List.length_cons]; omega)] at hv
  have hranks : ((spread ((t, 1) :: rest)).take 5).map Prod.fst = (((t, 1) :: rest).map Prod.fst).take 5 := by
    rw [List.map_take, spread_of_ones hones]
  refine h.plain_selection hentries (by decide) (fun hpairs => by simp at hpairs) hv ?_ hranks id
  have hlength := congrArg List.length hranks
  rw [List.length_map, List.length_take (l := List.map _ _), List.length_map, List.length_cons] at hlength
  omega

/-- With two pairs the kicker is the highest of the other ranks. -/
theorem HighlightCards.value_twoPair (h : HighlightCards cards)
    (hentries : CountList (cards.map card2Rank) ((p, 2) :: (q, 2) :: rest))
    (hbelow : Below (cards.map cardNumber) Category.threeOfAKind.order) (hk : k ∈ cards.map card2Rank)
    (hnot : k ∉ [p, q]) (hmax : ∀ x ∈ cards.map card2Rank, x ∉ [p, q] → x ≤ k) :
    Value (cards.map cardNumber) ⟨.twoPair, [p, q, k]⟩ := by
  obtain ⟨k', htop, hv⟩ := h.deal.value_twoPair hbelow (h.countRanks_twoPair hentries)
  have hone := topRanks_one_eq (l := (cards.map card2Rank).filter fun r => r ≠ p ∧ r ≠ q) (k := k)
    (fun x hx => (h.rank_range x (List.mem_of_mem_filter hx)).1)
    (List.mem_filter.mpr ⟨hk, by simpa using hnot⟩)
    (fun x hx => hmax x (List.mem_of_mem_filter hx) (by simpa using (List.mem_filter.mp hx).2))
  rw [h.ranks_cardNumber, hone] at htop
  rw [(List.cons.inj htop).1]
  exact hv

/-- The ranks besides two pairs are those of the other entries. -/
theorem mem_other_entries (hentries : CountList (cards.map card2Rank) ((p, 2) :: (q, 2) :: rest))
    (hx : x ∈ cards.map card2Rank) (hnot : x ∉ [p, q]) : ∃ e ∈ rest, e.1 = x := by
  have hmem := (hentries.mem (x, (cards.map card2Rank).count x)).mpr ⟨hx, rfl⟩
  simp only [List.mem_cons, List.not_mem_nil, or_false, not_or, Prod.mk.injEq] at hmem hnot
  rcases hmem with ⟨heq, _⟩ | ⟨heq, _⟩ | hmem
  · exact absurd heq hnot.1
  · exact absurd heq hnot.2
  · exact ⟨_, hmem, rfl⟩

theorem CountList.third_not_mem {l : List Int} (hentries : CountList l ((p, 2) :: (q, 2) :: (k, n) :: rest)) :
    p ≠ q ∧ k ∉ [p, q] := by
  have hkeys := hentries.keys_nodup
  simp only [List.map_cons, List.nodup_cons, List.mem_cons, not_or] at hkeys
  obtain ⟨⟨hpq, hpk, _⟩, ⟨hqk, _⟩, _⟩ := hkeys
  simp only [List.mem_cons, List.not_mem_nil, or_false, not_or]
  exact ⟨hpq, fun heq => hpk heq.symm, fun heq => hqk heq.symm⟩

/-- With three pairs the highest rank beside the first two is pushed last. -/
theorem HighlightCards.best_threePairs {y : Int × Nat} (h : HighlightCards cards)
    (hentries : CountList (cards.map card2Rank) ((p, 2) :: (q, 2) :: (k, 2) :: y :: rest))
    (hbelow : Below (cards.map cardNumber) Category.threeOfAKind.order) :
    BestSelection cards twoPair (setWinCardIndexes cards (rankList cards) ((p, 2) :: (q, 2) :: (k, 2) :: y :: rest) none) := by
  obtain ⟨hpq, hnot⟩ := CountList.third_not_mem hentries
  obtain ⟨_, hfive, hseven⟩ := h.rest_sum hentries
  have hk : k ∈ cards.map card2Rank := ((hentries.mem (k, 2)).mp (by simp)).1
  have hy := hentries.count_pos (p := y) (by simp)
  have hlast : rest = [] := by
    have hmore := length_le_sum (show ∀ e ∈ rest, 0 < e.2 from fun e he => hentries.count_pos (by simp [he]))
    simp only [List.map_cons, List.sum_cons] at hseven
    exact List.length_eq_zero_iff.mp (by omega)
  subst hlast
  obtain ⟨k', hfind, hk', hnot', hmax⟩ := highestOther ⟨k, hk, hnot⟩
  obtain ⟨y, c⟩ := y
  rw [setWinCardIndexes_threePairs h.valid hentries hfind]
  have hv := h.value_twoPair hentries hbelow hk' hnot' hmax
  have hcountp := ((hentries.mem (p, 2)).mp (by simp)).2
  have hcountq := ((hentries.mem (q, 2)).mp (by simp)).2
  simp only [List.mem_cons, List.not_mem_nil, or_false, not_or] at hnot'
  refine h.selection (v := ⟨.twoPair, [p, q, k']⟩) hv ?_ ?_ rfl rfl fun hone => absurd hone id
  · refine (available_iff h.valid).mpr ?_
    have hkpos := List.count_pos_iff.mpr hk'
    dsimp only at hcountp hcountq
    simp only [List.forall_mem_cons, List.not_mem_nil, false_imp_iff, implies_true, and_true, ← hcountp, ← hcountq]
    omega
  · have hpk : ¬p = k' := fun heq => hnot'.1 heq.symm
    have hqk : ¬q = k' := fun heq => hnot'.2 heq.symm
    simp [hpq, hpk, hqk]

theorem HighlightCards.best_twoPair (h : HighlightCards cards)
    (hentries : CountList (cards.map card2Rank) ((p, 2) :: (q, 2) :: rest))
    (hbelow : Below (cards.map cardNumber) Category.threeOfAKind.order) :
    BestSelection cards twoPair (setWinCardIndexes cards (rankList cards) ((p, 2) :: (q, 2) :: rest) none) := by
  obtain ⟨_, hfive, hseven⟩ := h.rest_sum hentries
  rw [List.map_cons, List.sum_cons] at hfive hseven
  cases rest with
  | nil => simp at hfive
  | cons e rest =>
    obtain ⟨k, n⟩ := e
    have hpos := hentries.count_pos (p := (k, n)) (by simp)
    obtain ⟨hpq, hnot⟩ := CountList.third_not_mem hentries
    have hk : k ∈ cards.map card2Rank := ((hentries.mem (k, n)).mp (by simp)).1
    have hbehind := List.pairwise_cons.mp (List.pairwise_cons.mp hentries.sorted).2
    have hsecond := hbehind.1 (k, n) (by simp)
    have hle : n ≤ 2 := by
      unfold CmpByValue at hsecond
      split at hsecond <;> omega
    by_cases hthree : n = 2 ∧ rest ≠ []
    · obtain ⟨rfl, hrest⟩ := hthree
      obtain ⟨y, rest, rfl⟩ := List.exists_cons_of_ne_nil hrest
      exact h.best_threePairs hentries hbelow
    · have hmax : ∀ x ∈ cards.map card2Rank, x ∉ [p, q] → x ≤ k := by
        intro x hx hxnot
        obtain ⟨e, he, rfl⟩ := mem_other_entries hentries hx hxnot
        obtain ⟨x, c⟩ := e
        rcases second_cases hbehind.2 he with ⟨heq, _⟩ | ⟨hmem, hless⟩
        · exact heq.le
        · have hne : rest ≠ [] := List.ne_nil_of_mem hmem
          have hcpos := hentries.count_pos (p := (x, c)) (by simp [hmem])
          have hn : ¬n = 2 := fun hn => hthree ⟨hn, hne⟩
          omega
      have hv := h.value_twoPair hentries hbelow hk hnot hmax
      refine h.plain_selection hentries (by decide) (fun hpairs => ?_) hv ?_ ?_ id
      · obtain ⟨hlength, hcounts⟩ := hpairs
        simp only [List.map_cons, List.take_succ_cons, List.cons.injEq, List.length_cons] at hlength hcounts
        refine hthree ⟨hcounts.2.2.1, ?_⟩
        rintro rfl
        simp at hlength
      · obtain rfl | rfl : n = 1 ∨ n = 2 := by omega
        · simp [spread_cons, List.range_succ]
        · simp [spread_cons, List.range_succ]
      · obtain rfl | rfl : n = 1 ∨ n = 2 := by omega
        · simp [spread_cons, List.range_succ, Category.fiveRanks]
        · simp [spread_cons, List.range_succ, Category.fiveRanks]

end

end HighlightCard

end MasterAI
