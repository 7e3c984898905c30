import Mathlib.Data.List.Nodup
import MasterAI.HandEvaluator
import MasterAI.PokerHands

namespace MasterAI

namespace HoldemHandEvaluator

open Category (straightRanks)

variable {cards l : List Int} {r s x : Int}

/-- Five to seven distinct cards of the deck. -/
structure Deal (cards : List Int) : Prop where
  nodup : cards.Nodup
  card : ∀ c ∈ cards, 0 ≤ c ∧ c < 52
  five : 5 ≤ cards.length
  seven : cards.length ≤ 7

theorem rankCounts_eq_count (cards : List Int) (r : Int) : rankCounts cards r = (cards.map rank).count r := by
  unfold rankCounts List.count
  rw [List.countP_map]
  congr 1

/-- The ranks of the cards of a suit. -/
def suitRanks (cards : List Int) (s : Int) : List Int := (cards.filter fun c => suit c = s).map rank

theorem suitCounts_eq_length (cards : List Int) (s : Int) : suitCounts cards s = (suitRanks cards s).length := by
  unfold suitCounts suitRanks
  rw [List.length_map, List.countP_eq_length_filter]

theorem Deal.rank_range (hd : Deal cards) (hx : x ∈ cards.map rank) : 0 ≤ x ∧ x ≤ 12 := by
  obtain ⟨c, hc, rfl⟩ := List.mem_map.mp hx
  have hcard := hd.card c hc
  unfold rank numSuits
  omega

theorem suitRanks_subset (cards : List Int) (s : Int) : suitRanks cards s ⊆ cards.map rank := by
  intro x hx
  obtain ⟨c, hc, rfl⟩ := List.mem_map.mp hx
  exact List.mem_map.mpr ⟨c, List.mem_of_mem_filter hc, rfl⟩

/-- Cards of one suit have different ranks. -/
theorem suitRanks_nodup (hnodup : cards.Nodup) (s : Int) : (suitRanks cards s).Nodup := by
  refine List.Nodup.map_on ?_ (hnodup.filter _)
  intro c hc d hd heq
  have hcs : suit c = s := by simpa using (List.mem_filter.mp hc).2
  have hds : suit d = s := by simpa using (List.mem_filter.mp hd).2
  unfold rank suit numSuits at *
  omega

/-- At most four cards of one rank. -/
theorem rankCounts_le (hnodup : cards.Nodup) (r : Int) : rankCounts cards r ≤ 4 := by
  have hsub : cards.filter (fun c => rank c = r) ⊆ [r * 4, r * 4 + 1, r * 4 + 2, r * 4 + 3] := by
    intro c hc
    have hrank : rank c = r := by simpa using (List.mem_filter.mp hc).2
    simp only [List.mem_cons, List.not_mem_nil, or_false]
    unfold rank numSuits at hrank
    omega
  have hle := (List.subperm_of_subset (hnodup.filter _) hsub).length_le
  rwa [← List.countP_eq_length_filter] at hle

theorem suitCounts_add_le {t : Int} (hne : s ≠ t) (cards : List Int) :
    suitCounts cards s + suitCounts cards t ≤ cards.length := by
  unfold suitCounts
  induction cards with
  | nil => simp
  | cons c cards ih =>
    rw [List.countP_cons, List.countP_cons, List.length_cons]
    by_cases hs : suit c = s
    · simp only [hs, hne, decide_true, decide_false, if_true, Bool.false_eq_true, if_false]
      omega
    · simp only [hs, decide_false, Bool.false_eq_true, if_false]
      split_ifs <;> omega

/-- Five cards of the flush suit leave too few for another suit. -/
theorem Deal.flushSuit_some (hd : Deal cards) (h : flushSuit cards = some s) :
    5 ≤ (suitRanks cards s).length ∧ ∀ t, 5 ≤ (suitRanks cards t).length → t = s := by
  have hfive : 5 ≤ suitCounts cards s := by simpa using List.find?_some h
  rw [← suitCounts_eq_length]
  refine ⟨hfive, fun t ht => ?_⟩
  rw [← suitCounts_eq_length] at ht
  by_contra hne
  have hadd := suitCounts_add_le hne cards
  have hseven := hd.seven
  omega

theorem flushSuit_none (h : flushSuit cards = none) (t : Int) : (suitRanks cards t).length < 5 := by
  by_contra hge
  rw [← suitCounts_eq_length] at hge
  have hpos : 0 < cards.countP fun c => suit c = t := by
    change 0 < suitCounts cards t
    omega
  obtain ⟨c, -, hc⟩ := List.countP_pos_iff.mp hpos
  have hmem : t ∈ ([0, 1, 2, 3] : List Int) := by
    have hsuit : suit c = t := by simpa using hc
    simp only [List.mem_cons, List.not_mem_nil, or_false]
    unfold suit numSuits at hsuit
    omega
  have hnone := List.find?_eq_none.mp h t hmem
  simp only [decide_eq_true_eq] at hnone
  omega

theorem mem_straightRanks (hr : 3 ≤ r ∧ r ≤ 12) :
    x ∈ straightRanks r ↔ (r - 4 ≤ x ∧ x ≤ r ∧ 0 ≤ x) ∨ (r = 3 ∧ x = 12) := by
  unfold Category.straightRanks
  split_ifs with h <;> simp only [List.mem_cons, List.not_mem_nil, or_false] <;> omega

theorem straightRanks_nodup (r : Int) : (straightRanks r).Nodup := by
  unfold Category.straightRanks
  split_ifs with h
  · decide
  · simp only [List.nodup_cons, List.mem_cons, List.not_mem_nil, or_false, not_or, not_false_eq_true, List.nodup_nil,
      and_true]
    omega

theorem straightRanks_length (r : Int) : (straightRanks r).length = 5 := by
  unfold Category.straightRanks
  split_ifs <;> rfl

/-- All ranks of a straight are there. -/
def HasStraight (ranks : List Int) (r : Int) : Prop := (3 ≤ r ∧ r ≤ 12) ∧ straightRanks r ⊆ ranks

theorem hasRank_iff (hx : -1 ≤ x) : hasRank cards x = true ↔ (if x = -1 then 12 else x) ∈ cards.map rank := by
  have hcount : ∀ y, rankCounts cards y > 0 ↔ y ∈ cards.map rank := by
    intro y
    rw [rankCounts_eq_count]
    exact List.count_pos_iff
  unfold hasRank
  simp only [hcount, decide_eq_true_eq]
  split_ifs with h
  · subst h
    simp
  · constructor
    · rintro (⟨-, hmem⟩ | ⟨heq, -⟩)
      · exact hmem
      · exact absurd heq h
    · intro hmem
      exact Or.inl ⟨by omega, hmem⟩

/-- The search for ranks in a row finds as many as it is to, or a rank that is missing. -/
theorem runEnd_spec (cards : List Int) (left : Nat) (r : Int) :
    (runEnd cards left r = r - left ∧ ∀ x, r - left < x → x ≤ r → hasRank cards x = true) ∨
      (r - left < runEnd cards left r ∧ runEnd cards left r ≤ r ∧ hasRank cards (runEnd cards left r) = false) := by
  induction left generalizing r with
  | zero => exact Or.inl ⟨by simp [runEnd], fun x hlow hhigh => by omega⟩
  | succ left ih =>
    unfold runEnd
    by_cases hr : hasRank cards r = true
    · rw [if_pos hr]
      rcases ih (r - 1) with ⟨hend, hall⟩ | ⟨hlow, hhigh, hmissing⟩
      · refine Or.inl ⟨by rw [hend]; omega, fun x hxlow hxhigh => ?_⟩
        by_cases heq : x = r
        · rw [heq]
          exact hr
        · exact hall x (by omega) (by omega)
      · exact Or.inr ⟨by omega, by omega, hmissing⟩
    · rw [if_neg hr]
      exact Or.inr ⟨by omega, by omega, by simpa using hr⟩

/-- A rank that is missing rules out the straights that need it. -/
theorem not_hasStraight_of_missing (hx : -1 ≤ x) (hmissing : hasRank cards x = false) (hr : 3 ≤ r ∧ r ≤ 12)
    (hrange : r - 4 ≤ x ∧ x ≤ r) : ¬HasStraight (cards.map rank) r := by
  rintro ⟨-, hsub⟩
  have hmem : (if x = -1 then 12 else x) ∈ cards.map rank := by
    refine hsub ((mem_straightRanks hr).mpr ?_)
    split_ifs with h <;> omega
  rw [← hasRank_iff hx, hmissing] at hmem
  cases hmem

/-- One round of the loop over the straights. -/
theorem runEnd_straight (cards : List Int) (hr : 3 ≤ r ∧ r ≤ 12) :
    (runEnd cards 5 r = r - 4 - 1 ∧ HasStraight (cards.map rank) r) ∨
      (runEnd cards 5 r ≠ r - 4 - 1 ∧ runEnd cards 5 r ≤ r ∧
        ∀ q, runEnd cards 5 r ≤ q → q ≤ r → ¬HasStraight (cards.map rank) q) := by
  rcases runEnd_spec cards 5 r with ⟨hend, hall⟩ | ⟨hlow, hhigh, hmissing⟩
  · refine Or.inl ⟨by omega, hr, fun x hx => ?_⟩
    rcases (mem_straightRanks hr).mp hx with ⟨hxlow, hxhigh, hpos⟩ | ⟨hthree, htwelve⟩
    · have hmem := (hasRank_iff (by omega)).mp (hall x (by omega) hxhigh)
      rwa [if_neg (by omega)] at hmem
    · have hmem := (hasRank_iff (x := -1) (by omega)).mp (hall (-1) (by omega) (by omega))
      rw [htwelve]
      simpa using hmem
  · refine Or.inr ⟨by omega, hhigh, fun q hq hqr hstraight => ?_⟩
    exact not_hasStraight_of_missing (by omega) hmissing hstraight.1 ⟨by omega, hq⟩ hstraight

/-- Five cards of the flush suit in a straight are all its ranks. -/
theorem straightFlushCards_eq_iff (hnodup : cards.Nodup) (hd : ∀ c ∈ cards, 0 ≤ c) (hr : 3 ≤ r ∧ r ≤ 12) :
    straightFlushCards cards s r = 5 ↔ HasStraight (suitRanks cards s) r := by
  have hcount : straightFlushCards cards s r = ((suitRanks cards s).filter (· ∈ straightRanks r)).length := by
    unfold straightFlushCards suitRanks
    rw [List.filter_map, List.length_map, List.filter_filter, ← List.countP_eq_length_filter]
    refine List.countP_congr fun c hc => ?_
    have hpos := hd c hc
    have hrank : 0 ≤ rank c := by unfold rank numSuits; omega
    simp only [Function.comp_apply, Bool.and_eq_true, decide_eq_true_eq, mem_straightRanks hr]
    omega
  have hfilter := (suitRanks_nodup hnodup s).filter (fun x => decide (x ∈ straightRanks r))
  have hsub : (suitRanks cards s).filter (· ∈ straightRanks r) ⊆ straightRanks r := fun x hx => by
    simpa using (List.mem_filter.mp hx).2
  rw [hcount]
  constructor
  · intro hfive
    refine ⟨hr, fun x hx => ?_⟩
    have hperm := (List.subperm_of_subset hfilter hsub).perm_of_length_le (by rw [hfive, straightRanks_length])
    exact List.mem_of_mem_filter (hperm.mem_iff.mpr hx)
  · rintro ⟨-, hall⟩
    have hsub' : straightRanks r ⊆ (suitRanks cards s).filter (· ∈ straightRanks r) := fun x hx =>
      List.mem_filter.mpr ⟨hall hx, by simpa using hx⟩
    have hle := (List.subperm_of_subset hfilter hsub).length_le
    have hge := (List.subperm_of_subset (straightRanks_nodup r) hsub').length_le
    rw [straightRanks_length] at hle hge
    omega

theorem HasStraight.mono {ranks ranks' : List Int} (h : HasStraight ranks r) (hsub : ranks ⊆ ranks') :
    HasStraight ranks' r := ⟨h.1, fun _ hx => hsub (h.2 hx)⟩

/-- What the loop over the straights knows before a round: the straights above the rank. -/
structure StraightsAbove (cards : List Int) (flush : Option Int) (r : Int) (straightRank : Option Int) : Prop where
  noFlush : ∀ s, flush = some s → ∀ q, r < q → ¬HasStraight (suitRanks cards s) q
  found : ∀ q, r < q → HasStraight (cards.map rank) q → ∃ x, straightRank = some x ∧ q ≤ x
  isStraight : ∀ x, straightRank = some x → r < x ∧ HasStraight (cards.map rank) x

/-- The outcome of the loop over the straights. -/
def StraightScan.Correct (cards : List Int) (flush : Option Int) : StraightScan → Prop
  | .straightFlush x => ∃ s, flush = some s ∧ HasStraight (suitRanks cards s) x ∧
      ∀ q, HasStraight (suitRanks cards s) q → q ≤ x
  | .highest straightRank => StraightsAbove cards flush 2 straightRank

theorem StraightsAbove.skip {flush straightRank : Option Int} {q : Int} (h : StraightsAbove cards flush r straightRank)
    (hq : q ≤ r) (hskip : ∀ x, q < x → x ≤ r → ¬HasStraight (cards.map rank) x) :
    StraightsAbove cards flush q straightRank := by
  refine ⟨fun s hs x hx hstraight => ?_, fun x hx hstraight => ?_, fun x hx => ?_⟩
  · by_cases hxr : r < x
    · exact h.noFlush s hs x hxr hstraight
    · exact hskip x hx (by omega) (hstraight.mono (suitRanks_subset cards s))
  · by_cases hxr : r < x
    · exact h.found x hxr hstraight
    · exact absurd hstraight (hskip x hx (by omega))
  · obtain ⟨hrx, hstraight⟩ := h.isStraight x hx
    exact ⟨by omega, hstraight⟩

/-- The loop over the straights. -/
theorem scanStraights_spec (hd : Deal cards) {flush straightRank : Option Int} {rounds : Nat}
    (hr : 3 ≤ r ∧ r ≤ 12) (hrounds : r < rounds + 3) (h : StraightsAbove cards flush r straightRank)
    (hnone : flush = none → straightRank = none) :
    (scanStraights cards flush rounds r straightRank).Correct cards flush := by
  induction rounds generalizing r straightRank with
  | zero => omega
  | succ rounds ih =>
    unfold scanStraights
    rcases runEnd_straight cards hr with ⟨hend, hstraight⟩ | ⟨hend, hle, hmissing⟩
    · simp only [if_pos hend]
      cases flush with
      | none =>
        refine ⟨fun s hs => absurd hs (by simp), fun q hq hq' => ?_, fun x hx => ?_⟩
        · by_cases hqr : r < q
          · obtain ⟨x, hx, -⟩ := h.found q hqr hq'
            rw [hnone rfl] at hx
            cases hx
          · exact ⟨r, rfl, by omega⟩
        · cases hx
          exact ⟨by omega, hstraight⟩
      | some s =>
        dsimp only
        by_cases hfive : straightFlushCards cards s r = 5
        · rw [if_pos hfive]
          have hflush := (straightFlushCards_eq_iff hd.nodup (fun c hc => (hd.card c hc).1) hr).mp hfive
          refine ⟨s, rfl, hflush, fun q hq => ?_⟩
          by_contra hlt
          exact h.noFlush s rfl q (by omega) hq
        · rw [if_neg hfive]
          have hnext : StraightsAbove cards (some s) (r - 1) (straightRank.or (some r)) := by
            refine ⟨fun t ht q hq hflush => ?_, fun q hq hq' => ?_, fun x hx => ?_⟩
            · cases ht
              by_cases hqr : r < q
              · exact h.noFlush s rfl q hqr hflush
              · obtain rfl : q = r := by omega
                exact hfive ((straightFlushCards_eq_iff hd.nodup (fun c hc => (hd.card c hc).1) hr).mpr hflush)
            · cases hsr : straightRank with
              | none =>
                refine ⟨r, rfl, ?_⟩
                by_contra hlt
                obtain ⟨x, hx, -⟩ := h.found q (by omega) hq'
                rw [hsr] at hx
                cases hx
              | some x =>
                refine ⟨x, rfl, ?_⟩
                by_cases hqr : r < q
                · obtain ⟨y, hy, hqy⟩ := h.found q hqr hq'
                  rw [hsr] at hy
                  cases hy
                  exact hqy
                · have hx := (h.isStraight x hsr).1
                  omega
            · cases hsr : straightRank with
              | none =>
                rw [hsr] at hx
                cases hx
                exact ⟨by omega, hstraight⟩
              | some y =>
                rw [hsr] at hx
                cases hx
                obtain ⟨hlt, hy⟩ := h.isStraight _ hsr
                exact ⟨by omega, hy⟩
          by_cases hlow : r - 1 < 3
          · rw [if_pos hlow]
            obtain rfl : r = 3 := by omega
            exact hnext
          · rw [if_neg hlow]
            exact ih (by omega) (by omega) hnext (fun hnone => by cases hnone)
    · simp only [if_neg hend]
      have hskip : StraightsAbove cards flush (runEnd cards 5 r - 1) straightRank :=
        h.skip (by omega) fun x hx hxr => hmissing x (by omega) hxr
      by_cases hlow : runEnd cards 5 r - 1 < 3
      · rw [if_pos hlow]
        exact h.skip (by omega) fun x hx hxr => hmissing x (by omega) hxr
      · rw [if_neg hlow]
        exact ih (by omega) (by omega) hskip hnone

end HoldemHandEvaluator

end MasterAI
