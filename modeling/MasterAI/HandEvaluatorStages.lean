import MasterAI.HandEvaluatorValue

namespace MasterAI

namespace HoldemHandEvaluator

variable {cards ks l : List Int} {r s t p q x : Int} {straightRank : Option Int}

theorem Deal.range_of_count (hd : Deal cards) (h : 1 ≤ rankCounts cards x) : 0 ≤ x ∧ x ≤ 12 :=
  hd.rank_range (one_le_rankCounts_iff.mp h)

theorem Deal.ranks_nonneg (hd : Deal cards) : ∀ x ∈ cards.map rank, 0 ≤ x := fun _ hx => (hd.rank_range hx).1

/-- The cards that are not of some rank. -/
theorem length_filter_ne (cards : List Int) (r : Int) :
    ((cards.map rank).filter fun x => x ≠ r).length + rankCounts cards r = cards.length := by
  have hsum := List.length_eq_length_filter_add (l := cards.map rank) fun x => decide (x ≠ r)
  rw [List.length_map] at hsum
  rw [rankCounts_eq_count, List.count, List.countP_eq_length_filter]
  have hsame : (cards.map rank).filter (fun x => !decide (x ≠ r)) = (cards.map rank).filter fun x => x == r :=
    List.filter_congr fun x _ => by simp [beq_eq_decide]
  rw [hsame] at hsum
  omega

/-- Ranks of which there is one card each. -/
theorem nodup_of_rankCounts {P : Int → Bool} (h : ∀ x, P x = true → rankCounts cards x ≤ 1) :
    ((cards.map rank).filter P).Nodup := by
  rw [List.nodup_iff_count_le_one]
  intro x
  by_cases hP : P x = true
  · have hle := (List.filter_sublist (l := cards.map rank) (p := P)).count_le x
    rw [← rankCounts_eq_count] at hle
    exact hle.trans (h x hP)
  · rw [List.count_eq_zero.mpr fun hmem => hP (List.mem_filter.mp hmem).2]
    exact Nat.zero_le 1

theorem Deal.value_quads (hd : Deal cards) (hbelow : Below cards Category.straightFlush.order)
    (hr : rankCounts cards r = 4) (hhighest : ∀ q ∈ ranksDown, rankCounts cards q = 4 → q ≤ r) :
    ∃ k, topRanks 1 ((cards.map rank).filter fun r1 => r1 ≠ r) = [k] ∧ Value cards ⟨.quads, [r, k]⟩ := by
  have hlength := length_filter_ne cards r
  have hfive := hd.five
  obtain ⟨k, htop, hmem, hall⟩ := topRanks_one (l := (cards.map rank).filter fun r1 => r1 ≠ r)
    (fun x hx => hd.ranks_nonneg x (List.mem_of_mem_filter hx)) (fun hnil => by rw [hnil] at hlength; simp at hlength; omega)
  obtain ⟨hk, hne⟩ := List.mem_filter.mp hmem
  have hkr : r ≠ k := Ne.symm (by simpa using hne)
  refine ⟨k, htop, hbelow.value hd (c := .quads) (shows_quads_iff.mpr ⟨hkr, hr.ge, hk⟩) fun ls hls => ?_⟩
  obtain ⟨r', k', rfl⟩ := List.length_eq_two.mp (Shows.length hls)
  obtain ⟨hne', hr', hk'⟩ := shows_quads_iff.mp hls
  have hfour := rankCounts_le hd.nodup r'
  have hrange := hd.range_of_count (x := r') (by omega)
  have hle := hhighest r' (mem_ranksDown.mpr hrange) (by omega)
  have hkrange := hd.rank_range hk'
  have hkpos := hd.rank_range hk
  have hsame : r' = r → k' ≤ k := fun heq =>
    hall k' (List.mem_filter.mpr ⟨hk', by rw [← heq]; simpa using Ne.symm hne'⟩)
  simp only [digits, List.foldl_cons, List.foldl_nil]
  omega

theorem below_quads (hbelow : Below cards Category.straightFlush.order)
    (hcount : ∀ x, rankCounts cards x ≤ 3) : Below cards Category.quads.order := by
  refine hbelow.step (c := .quads) fun ks hks => ?_
  obtain ⟨r', k', rfl⟩ := List.length_eq_two.mp (Shows.length hks)
  have := (shows_quads_iff.mp hks).2.1
  have := hcount r'
  omega

/-- What the counts say about cards without quads. -/
structure CountRanks (cards : List Int) (three pair pair2 : Option Int) : Prop where
  le_three : ∀ x, rankCounts cards x ≤ 3
  highestThree : IsHighest (fun r => rankCounts cards r = 3) three
  highestPair : IsHighest (fun r => (rankCounts cards r = 2 ∨ rankCounts cards r = 3) ∧ some r ≠ three) pair
  highestPair2 : three = none → IsHighest (fun r => rankCounts cards r = 2 ∧ some r ≠ pair) pair2

variable {three pair pair2 : Option Int}

theorem CountsPassed.countRanks (hd : Deal cards) (h : CountsPassed cards ranksDown three pair pair2) :
    CountRanks cards three pair pair2 := by
  obtain ⟨hthree, hpair, hpair2⟩ := h.highest
  refine ⟨fun x => ?_, hthree, hpair, hpair2⟩
  by_contra hmore
  have hle := rankCounts_le hd.nodup x
  exact h.noFour x (mem_ranksDown.mpr (hd.range_of_count (by omega))) (by omega)

theorem Deal.value_fullHouse (hd : Deal cards) (hbelow : Below cards Category.quads.order)
    (h : CountRanks cards (some t) (some p) pair2) : Value cards ⟨.fullHouse, [t, p]⟩ := by
  obtain ⟨ht, htop⟩ := h.highestThree
  obtain ⟨⟨hp, hne⟩, hptop⟩ := h.highestPair
  have htp : t ≠ p := fun heq => hne (by rw [heq])
  refine hbelow.value hd (c := .fullHouse) (shows_fullHouse_iff.mpr ⟨htp, ht.ge, by omega⟩) fun ls hls => ?_
  obtain ⟨t', p', rfl⟩ := List.length_eq_two.mp (Shows.length hls)
  obtain ⟨hne', ht', hp'⟩ := shows_fullHouse_iff.mp hls
  have htrange := hd.range_of_count (x := t') (by omega)
  have hprange := hd.range_of_count (x := p') (by omega)
  have hppos := hd.range_of_count (x := p) (by omega)
  have hthree := h.le_three t'
  have hthree' := h.le_three p'
  have hle := htop t' htrange.1 htrange.2 (by omega)
  have hsame : t' = t → p' ≤ p := fun heq =>
    hptop p' hprange.1 hprange.2 ⟨by omega, fun hsome => hne' (by rw [heq, Option.some.inj hsome])⟩
  simp only [digits, List.foldl_cons, List.foldl_nil]
  omega

/-- Three cards of a rank and two of another one are found by the loop. -/
theorem Deal.below_fullHouse (hd : Deal cards) (hbelow : Below cards Category.quads.order)
    (h : CountRanks cards three pair pair2) (hnone : three = none ∨ pair = none) :
    Below cards Category.fullHouse.order := by
  refine hbelow.step (c := .fullHouse) fun ks hks => ?_
  obtain ⟨t', p', rfl⟩ := List.length_eq_two.mp (Shows.length hks)
  obtain ⟨hne, ht, hp⟩ := shows_fullHouse_iff.mp hks
  have htrange := hd.range_of_count (x := t') (by omega)
  have hprange := hd.range_of_count (x := p') (by omega)
  have hthree := h.le_three t'
  have hthree' := h.le_three p'
  have hhighest := h.highestThree
  have hpair := h.highestPair
  cases three with
  | none => exact hhighest t' htrange.1 htrange.2 (by omega)
  | some t =>
    obtain rfl : pair = none := by simpa using hnone
    by_cases heq : t' = t
    · exact hpair p' hprange.1 hprange.2 ⟨by omega, fun hsome => hne (by rw [heq, Option.some.inj hsome])⟩
    · exact hpair t' htrange.1 htrange.2 ⟨by omega, fun hsome => heq (Option.some.inj hsome)⟩

/-- Kickers that fall and stand among some ranks are not above the highest of these. -/
theorem digits_le_topRanks {k : Nat} (hnodup : l.Nodup) (hl : ∀ x ∈ l, 0 ≤ x) (hk : k ≤ l.length) (hlength : ks.length = k)
    (hfalling : ks.Pairwise (· > ·)) (hsub : ks ⊆ l) : List.Forall₂ (· ≤ ·) ks (topRanks k l) := by
  obtain ⟨htop, htopFalling, -, hkept⟩ := topRanks_spec hnodup hl hk
  exact forall₂_le_of_kept htopFalling hfalling (fun x hx => hkept x (hsub hx)) (by rw [hlength, htop])

theorem Deal.value_flush (hd : Deal cards) (hbelow : Below cards Category.fullHouse.order)
    (hs : flushSuit cards = some s) : Value cards ⟨.flush, topRanks 5 (suitRanks cards s)⟩ := by
  obtain ⟨hfive, honly⟩ := hd.flushSuit_some hs
  have hnodup := suitRanks_nodup hd.nodup s
  have hpos : ∀ x ∈ suitRanks cards s, 0 ≤ x := fun x hx => hd.ranks_nonneg x (suitRanks_subset cards s hx)
  obtain ⟨hlength, hfalling, hsub, -⟩ := topRanks_spec hnodup hpos hfive
  refine hbelow.value hd (c := .flush) (shows_flush_iff.mpr ⟨⟨hlength, hfalling⟩, s, hsub⟩) fun ls hls => ?_
  obtain ⟨⟨hlength', hfalling'⟩, s', hsub'⟩ := shows_flush_iff.mp hls
  have hmany := (List.subperm_of_subset (hfalling'.imp fun hlt => ne_of_gt hlt) hsub').length_le
  obtain rfl := honly s' (by omega)
  exact digits_le_of_forall₂ (digits_le_topRanks hnodup hpos hfive hlength' hfalling' hsub')

theorem below_flush (hbelow : Below cards Category.fullHouse.order) (hs : flushSuit cards = none) :
    Below cards Category.flush.order := by
  refine hbelow.step (c := .flush) fun ks hks => ?_
  obtain ⟨⟨hlength, hfalling⟩, s, hsub⟩ := shows_flush_iff.mp hks
  have hmany := (List.subperm_of_subset (hfalling.imp fun hlt => ne_of_gt hlt) hsub).length_le
  have hfew := flushSuit_none hs s
  omega

theorem Deal.value_straight (hd : Deal cards) (hbelow : Below cards Category.flush.order)
    (h : StraightsAbove cards (flushSuit cards) 2 (some r)) : Value cards ⟨.straight, [r]⟩ := by
  refine hbelow.value hd (c := .straight) (shows_straight_iff.mpr (h.isStraight r rfl).2) fun ls hls => ?_
  obtain ⟨q, rfl⟩ := List.length_eq_one_iff.mp (Shows.length hls)
  have hstraight := shows_straight_iff.mp hls
  have hrange := hstraight.1
  obtain ⟨x, hx, hle⟩ := h.found q (by omega) hstraight
  cases hx
  simpa [digits] using hle

theorem below_straight (hbelow : Below cards Category.flush.order)
    (h : StraightsAbove cards (flushSuit cards) 2 none) : Below cards Category.straight.order := by
  refine hbelow.step (c := .straight) fun ks hks => ?_
  obtain ⟨q, rfl⟩ := List.length_eq_one_iff.mp (Shows.length hks)
  have hstraight := shows_straight_iff.mp hks
  have hrange := hstraight.1
  obtain ⟨x, hx, -⟩ := h.found q (by omega) hstraight
  cases hx

theorem Deal.value_threeOfAKind (hd : Deal cards) (hbelow : Below cards Category.straight.order)
    (h : CountRanks cards (some t) none pair2) :
    ∃ a b, topRanks 2 ((cards.map rank).filter fun r => r ≠ t) = [a, b] ∧ Value cards ⟨.threeOfAKind, [t, a, b]⟩ := by
  obtain ⟨ht, htop⟩ := h.highestThree
  have hpair := h.highestPair
  have hlength := length_filter_ne cards t
  have hfive := hd.five
  have hnodup : ((cards.map rank).filter fun r => r ≠ t).Nodup := by
    refine nodup_of_rankCounts fun x hx => ?_
    by_contra hmore
    have hne : x ≠ t := by simpa using hx
    have hrange := hd.range_of_count (x := x) (by omega)
    have hle := h.le_three x
    exact hpair x hrange.1 hrange.2 ⟨by omega, fun hsome => hne (Option.some.inj hsome)⟩
  have hpos : ∀ x ∈ (cards.map rank).filter fun r => r ≠ t, 0 ≤ x := fun x hx =>
    hd.ranks_nonneg x (List.mem_of_mem_filter hx)
  obtain ⟨htopLength, hfalling, hsub, -⟩ := topRanks_spec (k := 2) hnodup hpos (by omega)
  obtain ⟨a, b, heq⟩ := List.length_eq_two.mp htopLength
  rw [heq] at hfalling hsub
  have hmem : ∀ x ∈ [a, b], x ∈ cards.map rank ∧ x ≠ t := fun x hx => by
    have hfilter := List.mem_filter.mp (hsub hx)
    exact ⟨hfilter.1, by simpa using hfilter.2⟩
  have hba : b < a := by simpa using hfalling
  refine ⟨a, b, heq, hbelow.value hd (c := .threeOfAKind)
    (shows_threeOfAKind_iff.mpr ⟨⟨fun hin => (hmem t hin).2 rfl, hba⟩, ht.ge, fun x hx => (hmem x hx).1⟩) fun ls hls => ?_⟩
  obtain ⟨t', a', b', rfl⟩ := List.length_eq_three.mp (Shows.length hls)
  obtain ⟨⟨hnot, hlt⟩, ht', hsub'⟩ := shows_threeOfAKind_iff.mp hls
  have hrange := hd.range_of_count (x := t') (by omega)
  have hthree := h.le_three t'
  have hle := htop t' hrange.1 hrange.2 (by omega)
  have hrange' := hd.rank_range (hsub' (a := a') (by simp))
  have hrange'' := hd.rank_range (hsub' (a := b') (by simp))
  have hapos := hd.rank_range (hmem a (by simp)).1
  have hbpos := hd.rank_range (hmem b (by simp)).1
  have hsame : t' = t → a' ≤ a ∧ b' ≤ b := by
    rintro rfl
    have hforall := digits_le_topRanks hnodup hpos (by omega) (show [a', b'].length = 2 from rfl) (by simpa using hlt)
      fun x hx => List.mem_filter.mpr ⟨hsub' hx, by
        have hne : x ≠ t' := fun heq => hnot (heq ▸ hx)
        simpa using hne⟩
    rw [heq] at hforall
    simpa using hforall
  simp only [digits, List.foldl_cons, List.foldl_nil]
  omega

theorem Deal.below_threeOfAKind (hd : Deal cards) (hbelow : Below cards Category.straight.order)
    (h : CountRanks cards none pair pair2) : Below cards Category.threeOfAKind.order := by
  refine hbelow.step (c := .threeOfAKind) fun ks hks => ?_
  obtain ⟨t', a', b', rfl⟩ := List.length_eq_three.mp (Shows.length hks)
  have ht := (shows_threeOfAKind_iff.mp hks).2.1
  have hrange := hd.range_of_count (x := t') (by omega)
  have hle := h.le_three t'
  exact h.highestThree t' hrange.1 hrange.2 (by omega)

/-- Without three of a kind there are two cards of a rank at most. -/
theorem CountRanks.le_two (h : CountRanks cards none pair pair2) (hd : Deal cards) (x : Int) : rankCounts cards x ≤ 2 := by
  by_contra hmore
  have hle := h.le_three x
  have hrange := hd.range_of_count (x := x) (by omega)
  exact h.highestThree x hrange.1 hrange.2 (by omega)

theorem Deal.value_twoPair (hd : Deal cards) (hbelow : Below cards Category.threeOfAKind.order)
    (h : CountRanks cards none (some p) (some q)) :
    ∃ k, topRanks 1 ((cards.map rank).filter fun r => r ≠ p ∧ r ≠ q) = [k] ∧ Value cards ⟨.twoPair, [p, q, k]⟩ := by
  obtain ⟨⟨hp, -⟩, hptop⟩ := h.highestPair
  obtain ⟨⟨hq, hqp⟩, hqtop⟩ := h.highestPair2 rfl
  have htwo := h.le_two hd
  have hqrange := hd.range_of_count (x := q) (by omega)
  have hprange := hd.range_of_count (x := p) (by omega)
  have hqlt : q < p := by
    have hle := hptop q hqrange.1 hqrange.2 ⟨Or.inl hq, by simp⟩
    have hne : q ≠ p := fun heq => hqp (by rw [heq])
    omega
  have hptwo := htwo p
  have hlength := length_filter_ne cards p
  have hfive := hd.five
  have hne : (cards.map rank).filter (fun r => r ≠ p ∧ r ≠ q) ≠ [] := by
    intro hnil
    have hall : ∀ x ∈ (cards.map rank).filter fun r => r ≠ p, x = q := by
      intro x hx
      obtain ⟨hx, hxp⟩ := List.mem_filter.mp hx
      by_contra hxq
      have hmem : x ∈ (cards.map rank).filter fun r => r ≠ p ∧ r ≠ q :=
        List.mem_filter.mpr ⟨hx, by simpa using ⟨by simpa using hxp, hxq⟩⟩
      rw [hnil] at hmem
      cases hmem
    have hcount := (List.filter_sublist (l := cards.map rank) (p := fun r => decide (r ≠ p))).count_le q
    rw [List.eq_replicate_iff.mpr ⟨rfl, hall⟩, List.count_replicate_self, ← rankCounts_eq_count] at hcount
    omega
  obtain ⟨k, htop, hmem, hall⟩ := topRanks_one (fun x hx => hd.ranks_nonneg x (List.mem_of_mem_filter hx)) hne
  obtain ⟨hk, hkne⟩ := List.mem_filter.mp hmem
  obtain ⟨hkp, hkq⟩ : k ≠ p ∧ k ≠ q := by simpa using hkne
  have hkpos := hd.rank_range hk
  refine ⟨k, htop, hbelow.value hd (c := .twoPair)
    (shows_twoPair_iff.mpr ⟨⟨hqlt, by simp [hkp, hkq]⟩, by omega, hq.ge, hk⟩) fun ls hls => ?_⟩
  obtain ⟨p', q', k', rfl⟩ := List.length_eq_three.mp (Shows.length hls)
  obtain ⟨⟨hlt', hnot'⟩, hp', hq', hk'⟩ := shows_twoPair_iff.mp hls
  have hprange' := hd.range_of_count (x := p') (by omega)
  have hqrange' := hd.range_of_count (x := q') (by omega)
  have hkrange' := hd.rank_range hk'
  have hptwo' := htwo p'
  have hqtwo' := htwo q'
  have hple := hptop p' hprange'.1 hprange'.2 ⟨by omega, by simp⟩
  have hqle : p' = p → q' ≤ q := fun heq =>
    hqtop q' hqrange'.1 hqrange'.2 ⟨by omega, fun hsome => by rw [Option.some.inj hsome] at hlt'; omega⟩
  have hkle : p' = p → q' = q → k' ≤ k := by
    rintro rfl rfl
    obtain ⟨hkp', hkq'⟩ : k' ≠ p' ∧ k' ≠ q' := by simpa using hnot'
    exact hall k' (List.mem_filter.mpr ⟨hk', by simp [hkp', hkq']⟩)
  simp only [digits, List.foldl_cons, List.foldl_nil]
  omega

/-- Two ranks with two cards each are found by the loop. -/
theorem Deal.below_twoPair (hd : Deal cards) (hbelow : Below cards Category.threeOfAKind.order)
    (h : CountRanks cards none pair pair2) (hnone : pair = none ∨ pair2 = none) : Below cards Category.twoPair.order := by
  refine hbelow.step (c := .twoPair) fun ks hks => ?_
  obtain ⟨p', q', k', rfl⟩ := List.length_eq_three.mp (Shows.length hks)
  obtain ⟨⟨hlt, -⟩, hp, hq, -⟩ := shows_twoPair_iff.mp hks
  have hprange := hd.range_of_count (x := p') (by omega)
  have hqrange := hd.range_of_count (x := q') (by omega)
  have hptwo := h.le_two hd p'
  have hqtwo := h.le_two hd q'
  have hpair := h.highestPair
  have hpair2 := h.highestPair2 rfl
  cases pair with
  | none => exact hpair p' hprange.1 hprange.2 ⟨by omega, by simp⟩
  | some p =>
    obtain rfl : pair2 = none := by simpa using hnone
    by_cases heq : p' = p
    · exact hpair2 q' hqrange.1 hqrange.2 ⟨by omega, fun hsome => by rw [← Option.some.inj hsome] at heq; omega⟩
    · exact hpair2 p' hprange.1 hprange.2 ⟨by omega, fun hsome => heq (Option.some.inj hsome)⟩

theorem Deal.value_pair (hd : Deal cards) (hbelow : Below cards Category.twoPair.order)
    (h : CountRanks cards none (some p) none) :
    ∃ a b c, topRanks 3 ((cards.map rank).filter fun r => r ≠ p) = [a, b, c] ∧ Value cards ⟨.pair, [p, a, b, c]⟩ := by
  obtain ⟨⟨hp, -⟩, hptop⟩ := h.highestPair
  have hpair2 := h.highestPair2 rfl
  have htwo := h.le_two hd
  have hptwo := htwo p
  have hlength := length_filter_ne cards p
  have hfive := hd.five
  have hnodup : ((cards.map rank).filter fun r => r ≠ p).Nodup := by
    refine nodup_of_rankCounts fun x hx => ?_
    by_contra hmore
    have hne : x ≠ p := by simpa using hx
    have hrange := hd.range_of_count (x := x) (by omega)
    have hle := htwo x
    exact hpair2 x hrange.1 hrange.2 ⟨by omega, fun hsome => hne (Option.some.inj hsome)⟩
  have hpos : ∀ x ∈ (cards.map rank).filter fun r => r ≠ p, 0 ≤ x := fun x hx =>
    hd.ranks_nonneg x (List.mem_of_mem_filter hx)
  obtain ⟨htopLength, hfalling, hsub, -⟩ := topRanks_spec (k := 3) hnodup hpos (by omega)
  obtain ⟨a, b, c, heq⟩ := List.length_eq_three.mp htopLength
  rw [heq] at hfalling hsub
  have hmem : ∀ x ∈ [a, b, c], x ∈ cards.map rank ∧ x ≠ p := fun x hx => by
    have hfilter := List.mem_filter.mp (hsub hx)
    exact ⟨hfilter.1, by simpa using hfilter.2⟩
  refine ⟨a, b, c, heq, hbelow.value hd (c := .pair)
    (shows_pair_iff.mpr ⟨⟨fun hin => (hmem p hin).2 rfl, hfalling⟩, by omega, fun x hx => (hmem x hx).1⟩) fun ls hls => ?_⟩
  obtain ⟨p', a', b', c', rfl⟩ : ∃ p' a' b' c', ls = [p', a', b', c'] := by
    have hfour : ls.length = 4 := Shows.length hls
    obtain ⟨p', rest, rfl⟩ := List.exists_cons_of_length_eq_add_one hfour
    obtain ⟨a', b', c', rfl⟩ := List.length_eq_three.mp (show rest.length = 3 by simpa using hfour)
    exact ⟨p', a', b', c', rfl⟩
  obtain ⟨⟨hnot, hfalling'⟩, hp', hsub'⟩ := shows_pair_iff.mp hls
  have hrange := hd.range_of_count (x := p') (by omega)
  have hptwo' := htwo p'
  have hle := hptop p' hrange.1 hrange.2 ⟨by omega, by simp⟩
  have hranks : ∀ x ∈ [a', b', c'], 0 ≤ x ∧ x ≤ 12 := fun x hx => hd.rank_range (hsub' hx)
  have htops : ∀ x ∈ [a, b, c], 0 ≤ x ∧ x ≤ 12 := fun x hx => hd.rank_range (hmem x hx).1
  have hsame : p' = p → a' ≤ a ∧ b' ≤ b ∧ c' ≤ c := by
    rintro rfl
    have hforall := digits_le_topRanks hnodup hpos (by omega) (show [a', b', c'].length = 3 from rfl) hfalling'
      fun x hx => List.mem_filter.mpr ⟨hsub' hx, by
        have hne : x ≠ p' := fun heq => hnot (heq ▸ hx)
        simpa using hne⟩
    rw [heq] at hforall
    simpa using hforall
  simp only [List.forall_mem_cons, List.not_mem_nil, false_imp_iff, implies_true, and_true] at hranks htops
  simp only [digits, List.foldl_cons, List.foldl_nil]
  omega

theorem Deal.below_pair (hd : Deal cards) (hbelow : Below cards Category.twoPair.order)
    (h : CountRanks cards none none pair2) : Below cards Category.pair.order := by
  refine hbelow.step (c := .pair) fun ks hks => ?_
  have hfour : ks.length = 4 := Shows.length hks
  obtain ⟨p', rest, rfl⟩ := List.exists_cons_of_length_eq_add_one hfour
  obtain ⟨a', b', c', rfl⟩ := List.length_eq_three.mp (show rest.length = 3 by simpa using hfour)
  have hp := (shows_pair_iff.mp hks).2.1
  have hrange := hd.range_of_count (x := p') (by omega)
  have hle := h.le_two hd p'
  exact h.highestPair p' hrange.1 hrange.2 ⟨by omega, by simp⟩

theorem Deal.value_noPair (hd : Deal cards) (hbelow : Below cards Category.pair.order)
    (h : CountRanks cards none none pair2) : Value cards ⟨.noPair, topRanks 5 (cards.map rank)⟩ := by
  have hnodup : (cards.map rank).Nodup := by
    rw [List.nodup_iff_count_le_one]
    intro x
    by_contra hmore
    rw [← rankCounts_eq_count] at hmore
    have hrange := hd.range_of_count (x := x) (by omega)
    have hle := h.le_two hd x
    exact h.highestPair x hrange.1 hrange.2 ⟨by omega, by simp⟩
  have hfive : 5 ≤ (cards.map rank).length := by rw [List.length_map]; exact hd.five
  obtain ⟨hlength, hfalling, hsub, -⟩ := topRanks_spec hnodup hd.ranks_nonneg hfive
  refine hbelow.value hd (c := .noPair) (shows_noPair_iff.mpr ⟨⟨hlength, hfalling⟩, hsub⟩) fun ls hls => ?_
  obtain ⟨⟨hlength', hfalling'⟩, hsub'⟩ := shows_noPair_iff.mp hls
  exact digits_le_of_forall₂ (digits_le_topRanks hnodup hd.ranks_nonneg hfive hlength' hfalling' hsub')

end HoldemHandEvaluator

end MasterAI
