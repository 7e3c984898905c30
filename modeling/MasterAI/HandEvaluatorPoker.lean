import MasterAI.HandEvaluatorStages

namespace MasterAI

namespace HoldemHandEvaluator

variable {cards other : List Int} {v w : HandRank} {straightRank three pair pair2 : Option Int}

theorem five_entries {hrs : List Int} (h : hrs.length = 5) :
    digits hrs = hrs.getD 0 (-1) * 28561 + hrs.getD 1 (-1) * 2197 + hrs.getD 2 (-1) * 169 + hrs.getD 3 (-1) * 13 +
      hrs.getD 4 (-1) := by
  obtain ⟨a, rest, rfl⟩ := List.exists_cons_of_length_eq_add_one h
  obtain ⟨b, rest, rfl⟩ := List.exists_cons_of_length_eq_add_one (show rest.length = 3 + 1 by simpa using h)
  obtain ⟨c, d, e, rfl⟩ := List.length_eq_three.mp (show rest.length = 3 by simpa using h)
  simp only [digits, List.foldl_cons, List.foldl_nil, List.getD_cons_zero, List.getD_cons_succ]
  omega

/-- The value of cards without a full house and without a flush. -/
theorem Deal.rankValue_noFlush (hd : Deal cards) (hstraights : StraightsAbove cards (flushSuit cards) 2 straightRank)
    (hbelow : Below cards Category.flush.order) (h : CountRanks cards three pair pair2)
    (hnone : three = none ∨ pair = none) :
    ∃ v, Value cards v ∧ rankValue cards none straightRank three pair pair2 = code v := by
  have hfive := hd.five
  have hthree : cards.length ≠ 3 := by omega
  have hfour : cards.length ≠ 4 := by omega
  have hmany : ¬cards.length < 5 := by omega
  cases straightRank with
  | some r =>
    refine ⟨_, hd.value_straight hbelow hstraights, ?_⟩
    rcases hnone with rfl | rfl
    · simp [rankValue, code, base, digits]
    · cases three <;> simp [rankValue, code, base, digits]
  | none =>
    have hbelow := below_straight hbelow hstraights
    cases three with
    | some t =>
      obtain rfl : pair = none := by simpa using hnone
      obtain ⟨a, b, htop, hvalue⟩ := hd.value_threeOfAKind hbelow h
      refine ⟨_, hvalue, ?_⟩
      simp only [rankValue, if_neg hthree, if_neg hfour, htop, code, base, digits, List.foldl_cons, List.foldl_nil,
        List.getD_cons_zero, List.getD_cons_succ]
      omega
    | none =>
      have hbelow := hd.below_threeOfAKind hbelow h
      cases pair with
      | some p =>
        cases pair2 with
        | some q =>
          obtain ⟨k, htop, hvalue⟩ := hd.value_twoPair hbelow h
          refine ⟨_, hvalue, ?_⟩
          simp only [rankValue, if_neg hmany, htop, code, base, digits, List.foldl_cons, List.foldl_nil,
            List.getD_cons_zero]
          omega
        | none =>
          obtain ⟨a, b, c, htop, hvalue⟩ := hd.value_pair (hd.below_twoPair hbelow h (Or.inr rfl)) h
          refine ⟨_, hvalue, ?_⟩
          simp only [rankValue, if_neg hthree, if_neg hfour, htop, code, base, digits, List.foldl_cons, List.foldl_nil,
            List.getD_cons_zero, List.getD_cons_succ]
          omega
      | none =>
        have hvalue := hd.value_noPair (hd.below_pair (hd.below_twoPair hbelow h (Or.inl rfl)) h) h
        refine ⟨_, hvalue, ?_⟩
        have hdigits := five_entries (Shows.length hvalue.shows)
        simp only at hdigits
        simp only [rankValue, if_neg hthree, if_neg hfour, code, base, hdigits]
        omega

/-- The value of cards without a straight flush and without quads. -/
theorem Deal.rankValue_value (hd : Deal cards) (hstraights : StraightsAbove cards (flushSuit cards) 2 straightRank)
    (hbelow : Below cards Category.quads.order) (h : CountRanks cards three pair pair2) :
    ∃ v, Value cards v ∧ rankValue cards (flushSuit cards) straightRank three pair pair2 = code v := by
  have hfive := hd.five
  by_cases hfull : ∃ t p, three = some t ∧ pair = some p
  · obtain ⟨t, p, rfl, rfl⟩ := hfull
    refine ⟨_, hd.value_fullHouse hbelow h, ?_⟩
    simp only [rankValue, code, base, digits, List.foldl_cons, List.foldl_nil]
    omega
  · have hnone : three = none ∨ pair = none := by
      cases three with
      | none => exact Or.inl rfl
      | some t =>
        cases pair with
        | none => exact Or.inr rfl
        | some p => exact absurd ⟨t, p, rfl, rfl⟩ hfull
    have hbelow := hd.below_fullHouse hbelow h hnone
    cases hflush : flushSuit cards with
    | some s =>
      have hvalue := hd.value_flush hbelow hflush
      have hdigits := five_entries (Shows.length hvalue.shows)
      refine ⟨_, hvalue, ?_⟩
      have hrankValue : rankValue cards (some s) straightRank three pair pair2 =
          kFlush + digits (topRanks 5 (suitRanks cards s)) := by
        rw [hdigits]
        rcases hnone with rfl | rfl
        · simp only [rankValue, suitRanks]
          omega
        · cases three <;>
          · simp only [rankValue, suitRanks]
            omega
      exact hrankValue
    | none =>
      have hbelow := below_flush hbelow hflush
      exact hd.rankValue_noFlush hstraights hbelow h hnone

/-- `Evaluate` returns the value of the best hand that the cards show. -/
theorem Deal.evaluate_value (hd : Deal cards) : ∃ v, Value cards v ∧ evaluate cards = code v := by
  have hfive := hd.five
  unfold evaluate
  rw [if_neg (by omega), if_neg (by omega), if_neg (by omega)]
  have hstraights := hd.scanStraights_correct
  cases hscan : scanStraights cards (flushSuit cards) 10 12 none with
  | straightFlush r =>
    rw [hscan] at hstraights
    obtain ⟨s, hs, hstraight, hhighest⟩ := hstraights
    exact ⟨_, hd.value_straightFlush hs hstraight hhighest, by simp [code, base, digits]⟩
  | highest straightRank =>
    rw [hscan] at hstraights
    have hbelow := hd.below_straightFlush hstraights
    have hpassed : CountsPassed cards [] none none none := ⟨by simp, rfl, rfl, fun _ => rfl⟩
    have hcounts : (scanCounts cards ranksDown none none none).Correct cards := scanCounts_spec (List.nil_append _) hpassed
    cases hcount : scanCounts cards ranksDown none none none with
    | quads r =>
      rw [hcount] at hcounts
      obtain ⟨-, hr, hhighest⟩ := hcounts
      obtain ⟨k, htop, hvalue⟩ := hd.value_quads hbelow hr hhighest
      refine ⟨_, hvalue, ?_⟩
      simp only [htop, code, base, digits, List.foldl_cons, List.foldl_nil, List.getD_cons_zero]
      omega
    | ranks three pair pair2 =>
      rw [hcount] at hcounts
      have hranks := CountsPassed.countRanks hd hcounts
      exact hd.rankValue_value hstraights (below_quads hbelow hranks.le_three) hranks

end HoldemHandEvaluator

end MasterAI
