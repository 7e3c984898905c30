import MasterAI.HandEvaluatorBest
import MasterAI.HandMaker

namespace MasterAI

namespace HoldemHandEvaluator

variable {cards ks : List Int} {v w : HandRank} {c : Category} {p a b d a' b' d' t m l x y r0 r1 : Int}

theorem Ordered.length_fiveRanks (h : c.Ordered ks) : (c.fiveRanks ks).length = 5 := by
  unfold Category.Ordered at h
  split at h
  case h_5 => simp [Category.fiveRanks, Category.straightRanks, apply_ite List.length]
  case h_9 => simp [Category.fiveRanks, Category.straightRanks, apply_ite List.length]
  all_goals first | exact h.1 | rfl | exact h.elim

/-- Five cards have the ranks of their best hand. -/
theorem Deal.bestHand_ranks (hd : Deal cards) (hfive : cards.length = 5) (h : BestHand rank suit cards v) :
    v.category.Ordered v.kickers ∧ (v.category.fiveRanks v.kickers).Perm (cards.map rank) := by
  obtain ⟨hordered, hshow⟩ := (hd.bestHand_iff.mp h).shows
  refine ⟨hordered, ?_⟩
  have hsubperm : (v.category.fiveRanks v.kickers).Subperm (cards.map rank) := by
    split_ifs at hshow with hone
    · obtain ⟨s, hs⟩ := hshow
      exact hs.trans (List.filter_sublist.map rank).subperm
    · exact hshow
  refine hsubperm.perm_of_length_le ?_
  rw [List.length_map, hfive, Ordered.length_fiveRanks hordered]

/-- Below two pairs there are five different ranks or one pair. -/
theorem Ordered.low (h : c.Ordered ks) (hlow : c.order < Category.twoPair.order) :
    (c = .noPair ∧ (c.fiveRanks ks).Nodup) ∨
      ∃ p a b d, c = .pair ∧ ks = [p, a, b, d] ∧ p ∉ [a, b, d] ∧ d < b ∧ b < a := by
  cases c with
  | noPair => exact Or.inl ⟨rfl, h.2.imp ne_of_gt⟩
  | pair =>
    obtain ⟨p, rest, rfl⟩ := List.exists_cons_of_length_eq_add_one (Category.Ordered.length h)
    obtain ⟨a, b, d, rfl⟩ := List.length_eq_three.mp (Nat.succ.inj (Category.Ordered.length h))
    obtain ⟨hnot, hfalls⟩ := h
    simp only [List.pairwise_cons, List.mem_cons, List.not_mem_nil, or_false, forall_eq_or_imp, forall_eq] at hfalls
    exact Or.inr ⟨p, a, b, d, rfl, rfl, hnot, hfalls.2.1, hfalls.1.1⟩
  | _ => exact absurd hlow (by decide)

/-- Five ranks with one of them twice and no other twice make a pair. -/
theorem Ordered.pair_of_count (h : c.Ordered ks) (htwo : (c.fiveRanks ks).count t = 2)
    (hone : ∀ z, z ≠ t → (c.fiveRanks ks).count z ≤ 1) :
    c = .pair ∧ ∃ a b d, ks = [t, a, b, d] ∧ d < b ∧ b < a := by
  have hmost : ∀ z, (c.fiveRanks ks).count z ≤ 2 := fun z => by
    by_cases hz : z = t
    · rw [hz, htwo]
    · exact (hone z hz).trans (by decide)
  have heq : ∀ z, 2 ≤ (c.fiveRanks ks).count z → z = t := fun z hz => by
    by_contra hne
    have hle := hone z hne
    omega
  have hdouble : ¬(c.fiveRanks ks).Nodup := fun hnodup => by
    have hle := List.nodup_iff_count_le_one.mp hnodup t
    omega
  have hstraight : ∀ r, (Category.straightRanks r).Nodup := fun r => by
    unfold Category.straightRanks
    split
    · decide
    · simp only [List.nodup_cons, List.mem_cons, List.not_mem_nil, or_false, not_or, not_false_eq_true, List.nodup_nil,
        and_true]
      omega
  unfold Category.Ordered at h
  split at h
  case h_1 => exact absurd (h.2.imp ne_of_gt) hdouble
  case h_2 p a b d =>
    obtain rfl := heq p (by simp [Category.fiveRanks])
    obtain ⟨-, hfalls⟩ := h
    simp only [List.pairwise_cons, List.mem_cons, List.not_mem_nil, or_false, forall_eq_or_imp, forall_eq] at hfalls
    exact ⟨rfl, a, b, d, rfl, hfalls.2.1, hfalls.1.1⟩
  case h_3 p q k =>
    have hp := heq p (by simp [Category.fiveRanks])
    have hq := heq q (by
      simp only [Category.fiveRanks, List.count_cons, beq_self_eq_true, if_true, List.count_nil]
      omega)
    omega
  case h_4 q a b =>
    have hle := hmost q
    simp [Category.fiveRanks] at hle
  case h_5 => exact absurd (hstraight _) hdouble
  case h_6 => exact absurd (h.2.imp ne_of_gt) hdouble
  case h_7 q k =>
    have hle := hmost q
    simp [Category.fiveRanks] at hle
  case h_8 q k =>
    have hle := hmost q
    simp [Category.fiveRanks] at hle
  case h_9 => exact absurd (hstraight _) hdouble
  case h_10 => exact h.elim

/-- Three falling ranks two of which are known. -/
theorem falling_three (hfalls : d < b ∧ b < a) (hperm : [a, b, d].Perm [m, l, y]) (hml : l < m) :
    (y < l ∧ a = m ∧ b = l ∧ d = y) ∨ (l < y ∧ y < m ∧ a = m ∧ b = y ∧ d = l) ∨ (m < y ∧ a = y ∧ b = m ∧ d = l) := by
  have hmem : ∀ z, z ∈ [a, b, d] → z = m ∨ z = l ∨ z = y := fun z hz => by simpa using hperm.subset hz
  have hm : m = a ∨ m = b ∨ m = d := by simpa using hperm.symm.subset (List.mem_cons_self ..)
  have ha := hmem a (by simp)
  have hb := hmem b (by simp)
  have hd := hmem d (by simp)
  omega

/-- A higher card in the place of another makes no lower kickers. -/
theorem falling_three_le (hfalls : d < b ∧ b < a) (hperm : [a, b, d].Perm [m, l, y]) (hfalls' : d' < b' ∧ b' < a')
    (hperm' : [a', b', d'].Perm [m, l, x]) (hml : l < m) (hxy : x ≤ y) : ¬[a, b, d] < [a', b', d'] := by
  simp only [List.cons_lt_cons_iff, List.not_lt_nil, and_false, or_false]
  rcases falling_three hfalls hperm hml with ⟨_, rfl, rfl, rfl⟩ | ⟨_, _, rfl, rfl, rfl⟩ | ⟨_, rfl, rfl, rfl⟩ <;>
    rcases falling_three hfalls' hperm' hml with ⟨_, rfl, rfl, rfl⟩ | ⟨_, _, rfl, rfl, rfl⟩ | ⟨_, rfl, rfl, rfl⟩ <;>
      omega

/-- How often each rank is there beside a pair. -/
theorem pair_counts (hperm : [p, p, a, b, d].Perm ks) (hnot : p ∉ [a, b, d]) (hnodup : [a, b, d].Nodup) :
    ks.count p = 2 ∧ ∀ z, z ≠ p → ks.count z ≤ 1 := by
  refine ⟨?_, fun z hz => ?_⟩
  · rw [← hperm.count_eq]
    simp [List.count_eq_zero.mpr hnot]
  · have hle := List.nodup_iff_count_le_one.mp hnodup z
    rw [← hperm.count_eq]
    simpa [List.count_cons, Ne.symm hz] using hle

/-- The best hand of a board of three ranks with a card of the highest one and a card of a fourth rank. -/
theorem Deal.bestHand_topPair (hd : Deal cards) (hranks : cards.map rank = [t, m, l, t, x]) (hmt : m < t) (hlm : l < m)
    (hx : x ≠ t ∧ x ≠ m ∧ x ≠ l) (hv : BestHand rank suit cards v) :
    ∃ a b d, v = ⟨.pair, [t, a, b, d]⟩ ∧ d < b ∧ b < a ∧ [a, b, d].Perm [m, l, x] := by
  have hfive : cards.length = 5 := by rw [← List.length_map rank, hranks]; rfl
  obtain ⟨hordered, hperm⟩ := hd.bestHand_ranks hfive hv
  rw [hranks] at hperm
  obtain ⟨category, kickers⟩ := v
  have hswap : [t, m, l, t, x].Perm [t, t, m, l, x] :=
    (@List.perm_middle _ t [m, l] [x]).cons t
  have hpaired := hperm.trans hswap
  obtain ⟨htwo, hone⟩ := pair_counts hpaired.symm (by simp [hx.1.symm, hmt.ne', (hlm.trans hmt).ne'])
    (by simp [hlm.ne', Ne.symm hx.2.1, Ne.symm hx.2.2])
  obtain ⟨rfl, a, b, d, rfl, hdb, hba⟩ := Ordered.pair_of_count hordered htwo hone
  exact ⟨a, b, d, rfl, hdb, hba, (hpaired.cons_inv).cons_inv⟩

theorem beats_pair_iff : HandRank.Beats ⟨.pair, [t, a', b', d']⟩ ⟨.pair, [p, a, b, d]⟩ ↔
    p < t ∨ p = t ∧ [a, b, d] < [a', b', d'] := by
  unfold HandRank.Beats
  simp only [lt_irrefl, false_or, true_and]
  exact List.cons_lt_cons_iff

/-- One pair of a hand with a board of three ranks: what the hole cards have to do with it. -/
theorem pair_of_board (hperm : [p, p, a, b, d].Perm [t, m, l, r0, r1]) (hnot : p ∉ [a, b, d]) (hfalls : d < b ∧ b < a)
    (hmt : m < t) (hlm : l < m) :
    (p < t ∧ r0 ≠ t ∧ r1 ≠ t ∧ ¬(r0 = r1 ∧ t < r0)) ∨ (t < p ∧ r0 = r1 ∧ t < r0) ∨
      (p = t ∧ ∃ y, (r0 = t ∧ r1 = y ∨ r1 = t ∧ r0 = y) ∧ y ∉ [t, m, l] ∧ [a, b, d].Perm [m, l, y]) := by
  have hnodup : [a, b, d].Nodup := by
    simp only [List.nodup_cons, List.mem_cons, List.not_mem_nil, or_false, not_or, not_false_eq_true, List.nodup_nil,
      and_true]
    omega
  obtain ⟨htwo, hone⟩ := pair_counts hperm hnot hnodup
  rcases lt_trichotomy p t with hlt | heq | hgt
  · have ht := hone t hlt.ne'
    refine Or.inl ⟨hlt, ?_, ?_, ?_⟩
    · rintro rfl
      simp only [List.count_cons, beq_self_eq_true, if_true] at ht
      omega
    · rintro rfl
      simp only [List.count_cons, beq_self_eq_true, if_true] at ht
      omega
    · rintro ⟨rfl, hr⟩
      have hr0 := hone r0 (by omega)
      simp only [List.count_cons, beq_self_eq_true, if_true] at hr0
      omega
  · subst heq
    refine Or.inr (Or.inr ⟨rfl, ?_⟩)
    have hkickers : ∀ y, [p, m, l, r0, r1].Perm [p, p, m, l, y] → y ∉ [p, m, l] ∧ [a, b, d].Perm [m, l, y] := fun y hy => by
      have hrest := ((hperm.trans hy).cons_inv).cons_inv
      refine ⟨fun hmem => ?_, hrest⟩
      rcases List.mem_cons.mp hmem with rfl | hmem
      · exact hnot (hrest.symm.subset (by simp))
      · have hdistinct := hrest.nodup_iff.mp hnodup
        simp only [List.nodup_cons, List.mem_cons, List.not_mem_nil, or_false, not_or] at hdistinct hmem
        omega
    by_cases hr0 : r0 = p
    · subst hr0
      exact ⟨r1, Or.inl ⟨rfl, rfl⟩, hkickers r1 ((@List.perm_middle _ r0 [m, l] [r1]).cons r0)⟩
    · have hr1 : r1 = p := by
        by_contra hr1
        simp [hmt.ne, (hlm.trans hmt).ne, hr0, hr1] at htwo
      subst hr1
      exact ⟨r0, Or.inr ⟨rfl, rfl⟩, hkickers r0 ((@List.perm_middle _ r1 [m, l, r0] []).cons r1)⟩
  · have hboard : p ≠ t ∧ p ≠ m ∧ p ≠ l := by omega
    have hboth : r0 = p ∧ r1 = p := by
      by_contra hnone
      simp only [List.count_cons, List.count_nil, beq_iff_eq, hboard.1.symm, hboard.2.1.symm, hboard.2.2.symm,
        if_false] at htwo
      split at htwo <;> split at htwo <;> omega
    exact Or.inr (Or.inl ⟨hgt, hboth.1.trans hboth.2.symm, by omega⟩)

variable {threshold : List Int}

/-- Cards with a board of three ranks reach the pair of the highest of them with the lowest kicker. -/
theorem Deal.topPair_le_iff (hd : Deal cards) (ht : Deal threshold) (hranks : cards.map rank = [t, m, l, r0, r1])
    (hthreshold : threshold.map rank = [t, m, l, t, x]) (hmt : m < t) (hlm : l < m) (hx : x ≠ t ∧ x ≠ m ∧ x ≠ l)
    (hleast : ∀ y, y = r0 ∨ y = r1 → y ∉ [t, m, l] → x ≤ y) :
    evaluate threshold ≤ evaluate cards ↔ r0 = t ∨ r1 = t ∨ (r0 = r1 ∧ t < r0) ∨
      ∃ v, BestHand rank suit cards v ∧ Category.twoPair.order ≤ v.category.order := by
  obtain ⟨v, hv, hvonly⟩ := hd.bestHand_unique
  obtain ⟨w, hw⟩ := ht.bestHand_exists
  obtain ⟨a', b', d', rfl, hdb', hba', hperm'⟩ := ht.bestHand_topPair hthreshold hmt hlm hx hw
  have hfive : cards.length = 5 := by rw [← List.length_map rank, hranks]; rfl
  obtain ⟨hordered, hperm⟩ := hd.bestHand_ranks hfive hv
  rw [hranks] at hperm
  rw [← not_lt, ht.evaluate_lt_iff hd hw hv]
  by_cases hhigh : Category.twoPair.order ≤ v.category.order
  · refine iff_of_true ?_ (Or.inr (Or.inr (Or.inr ⟨v, hv, hhigh⟩)))
    rintro (hlt | ⟨heq, -⟩)
    · exact absurd (hhigh.trans_lt hlt) (show ¬2 < 1 by decide)
    · rw [heq] at hhigh
      exact absurd hhigh (show ¬2 ≤ 1 by decide)
  have hlow : ¬∃ v, BestHand rank suit cards v ∧ Category.twoPair.order ≤ v.category.order := by
    rintro ⟨v', hv', hhigh'⟩
    rw [hvonly v' hv'] at hhigh'
    exact hhigh hhigh'
  obtain ⟨category, kickers⟩ := v
  rcases Ordered.low hordered (not_le.mp hhigh) with ⟨rfl, hnodup⟩ | ⟨p, a, b, d, rfl, rfl, hnot, hdb, hba⟩
  · refine iff_of_false (not_not.mpr (Or.inl Nat.zero_lt_one)) ?_
    have hdistinct := hperm.nodup_iff.mp hnodup
    simp only [List.nodup_cons, List.mem_cons, List.not_mem_nil, or_false, not_or] at hdistinct
    rintro (h | h | ⟨h, -⟩ | h)
    · omega
    · omega
    · omega
    · exact hlow h
  · rw [beats_pair_iff]
    rcases pair_of_board hperm hnot ⟨hdb, hba⟩ hmt hlm with
      ⟨hlt, h0, h1, hpocket⟩ | ⟨hgt, hpocket⟩ | ⟨rfl, y, hy, hnew, hkickers⟩
    · refine iff_of_false (not_not.mpr (Or.inl hlt)) ?_
      rintro (h | h | h | h)
      · exact h0 h
      · exact h1 h
      · exact hpocket h
      · exact hlow h
    · exact iff_of_true (by omega) (Or.inr (Or.inr (Or.inl hpocket)))
    · refine iff_of_true ?_ (by omega)
      have hle := hleast y (by omega) hnew
      have hkept := falling_three_le ⟨hdb, hba⟩ hkickers ⟨hdb', hba'⟩ hperm' hlm hle
      rintro (hlt | ⟨-, hlt⟩)
      · exact lt_irrefl _ hlt
      · exact hkept hlt

end HoldemHandEvaluator

namespace ValueTree

/-- The tree of the values of a function. -/
def ofFun : (k : Nat) → Nat → (List Nat → Int) → ValueTree k
  | 0, _, f => f []
  | k + 1, n, f => (List.range n).map fun c => some (ofFun k n fun t => f (c :: t))

theorem entry_ofFun {n : Nat} {f : List Nat → Int} {t : List Nat} (ht : ∀ c ∈ t, c < n) :
    entry t.length (ofFun t.length n f) t = some (f t) := by
  induction t generalizing f with
  | nil => rfl
  | cons c t ih =>
    obtain ⟨hc, ht⟩ := List.forall_mem_cons.mp ht
    have hget : ((List.range n).map fun c => some (ofFun t.length n fun t => f (c :: t))).getD c none =
        some (ofFun t.length n fun t => f (c :: t)) := by
      rw [List.getD_eq_getElem?_getD, List.getElem?_map, List.getElem?_range hc]
      rfl
    change (List.getD ((List.range n).map fun c => some (ofFun t.length n fun t => f (c :: t))) c none).bind
      (fun sub => entry t.length sub t) = _
    rw [hget]
    exact ih ht

end ValueTree

namespace HandMaker

open HoldemHandEvaluator (evaluate Deal)

/-- The tree of five cards holds what `Evaluate` makes of them. -/
def StoresEvaluate (trees : HandValueTree) : Prop :=
  ∀ t, t.length = 5 → FallingBelow SGame.holdem.numCardsInDeck t → trees.treeEntry t = some (evaluate (t.map Int.ofNat))

/-- A hole card has the highest rank of the flop, or the hole cards are a pair above it, or the five cards make two
pairs or more. -/
def TopPairOrBetter (c0 c1 c2 h0 h1 : Nat) : Prop :=
  SGame.holdem.rank h0 = SGame.holdem.rank c0 ∨ SGame.holdem.rank h1 = SGame.holdem.rank c0 ∨
    (SGame.holdem.rank h0 = SGame.holdem.rank h1 ∧ SGame.holdem.rank c0 < SGame.holdem.rank h0) ∨
    ∃ v, BestHand HoldemHandEvaluator.rank HoldemHandEvaluator.suit ([c0, c1, c2, h0, h1].map Int.ofNat) v ∧
      Category.twoPair.order ≤ v.category.order

section

variable {trees : HandValueTree} {bound y c0 c1 c2 h0 h1 : Nat} {taken cards : List Nat}

theorem firstOther_le (hy : y < bound) (hnew : y ∉ taken) : firstOther bound taken ≤ y := by
  unfold firstOther
  cases hfind : (List.range bound).find? fun x => x ∉ taken with
  | none =>
    have hall := List.find?_eq_none.mp hfind y (List.mem_range.mpr hy)
    simp [hnew] at hall
  | some x =>
    have hfirst := (List.find?_range_eq_some.mp hfind).2.2
    by_contra hlt
    have hless := hfirst y (not_le.mp hlt)
    simp [hnew] at hless

theorem deal_ofNat (hnodup : cards.Nodup) (hdeck : ∀ c ∈ cards, c < SGame.holdem.numCardsInDeck)
    (hlength : cards.length = 5) : Deal (cards.map Int.ofNat) where
  nodup := hnodup.map Int.ofNat_injective
  card := by
    intro c hc
    obtain ⟨n, hn, rfl⟩ := List.mem_map.mp hc
    have hlt : n < 52 := hdeck n hn
    exact ⟨Int.natCast_nonneg n, by simpa using hlt⟩
  five := by rw [List.length_map, hlength]
  seven := by rw [List.length_map, hlength]; decide

theorem rank_ofNat (c : Nat) : HoldemHandEvaluator.rank (Int.ofNat c) = Int.ofNat (SGame.holdem.rank c) := rfl

/-- A tree that holds what `Evaluate` makes of the cards gives it for them in any order. -/
theorem StoresEvaluate.valByCount (h : StoresEvaluate trees) (hnodup : cards.Nodup)
    (hdeck : ∀ c ∈ cards, c < SGame.holdem.numCardsInDeck) (hlength : cards.length = 5) :
    (trees.valByCount cards 5).1 = some (evaluate (cards.map Int.ofNat)) := by
  obtain ⟨t, hfalls, hperm⟩ := HandValueTree.exists_falling hnodup hdeck
  have hsorted : HandValueTree.sortedCards cards 5 = some t := by
    rw [← hlength, hperm.length_eq]
    exact HandValueTree.sortedCards_falling hfalls hperm
  have hval : (trees.valByCount cards 5).1 = (HandValueTree.sortedCards cards 5).bind trees.treeEntry := rfl
  rw [hval, hsorted, Option.bind_some, h t (by rw [← hperm.length_eq, hlength]) hfalls,
    (deal_ofNat hnodup hdeck hlength).evaluate_perm (hperm.symm.map Int.ofNat)]

theorem flop_ranks (hfalls : [c0, c1, c2].Pairwise (· > ·)) (hranks : ([c0, c1, c2].map SGame.holdem.rank).Nodup) :
    (SGame.holdem.rank c0 ≠ SGame.holdem.rank c1 ∧ SGame.holdem.rank c1 ≠ SGame.holdem.rank c2 ∧
      SGame.holdem.rank c0 ≠ SGame.holdem.rank c2) ∧
      SGame.holdem.rank c1 < SGame.holdem.rank c0 ∧ SGame.holdem.rank c2 < SGame.holdem.rank c1 := by
  simp only [List.map_cons, List.map_nil, List.nodup_cons, List.mem_cons, List.not_mem_nil, or_false, not_or,
    not_false_eq_true, List.nodup_nil, and_true] at hranks
  obtain ⟨⟨h01, h02⟩, h12⟩ := hranks
  simp only [List.pairwise_cons, List.mem_cons, List.not_mem_nil, or_false, forall_eq_or_imp, forall_eq] at hfalls
  have hdown : ∀ {c d : Nat}, c > d → SGame.holdem.rank d ≤ SGame.holdem.rank c := fun h => Nat.div_le_div_right h.le
  exact ⟨⟨h01, h12, h02⟩, lt_of_le_of_ne (hdown hfalls.1.1) (Ne.symm h01),
    lt_of_le_of_ne (hdown hfalls.2.1) (Ne.symm h12)⟩

theorem makeTopPairHand_le_iff (hfalls : [c0, c1, c2].Pairwise (· > ·))
    (hranks : ([c0, c1, c2].map SGame.holdem.rank).Nodup) (hnodup : [c0, c1, c2, h0, h1].Nodup)
    (hdeck : ∀ c ∈ [c0, c1, c2, h0, h1], c < SGame.holdem.numCardsInDeck) :
    evaluate ((makeTopPairHand SGame.holdem c0 c1 c2).map Int.ofNat) ≤ evaluate ([c0, c1, c2, h0, h1].map Int.ofNat) ↔
      TopPairOrBetter c0 c1 c2 h0 h1 := by
  obtain ⟨hother, hmt, hlm⟩ := flop_ranks hfalls hranks
  obtain ⟨htopNodup, htopDeck⟩ := @makeTopPairHand_cards SGame.holdem c0 c1 c2 (by decide) (by decide) hother
    fun c hc => hdeck c (List.mem_append_left [h0, h1] hc)
  have hnew := (@firstOther_spec SGame.holdem.numRanks
    [SGame.holdem.rank c2, SGame.holdem.rank c1, SGame.holdem.rank c0] (show 3 < 13 by decide)).2
  have hsuit := (@firstOther_spec SGame.holdem.numSuits [SGame.holdem.suit c0] (show 1 < 4 by decide)).1
  have hhighRank := SGame.rank_makeCard (r := SGame.holdem.rank c0) hsuit
  have hlowRank := SGame.rank_makeCard (r := firstOther SGame.holdem.numRanks
    [SGame.holdem.rank c2, SGame.holdem.rank c1, SGame.holdem.rank c0]) SGame.holdem.suits_pos
  have hranksTop : ((makeTopPairHand SGame.holdem c0 c1 c2).map Int.ofNat).map HoldemHandEvaluator.rank =
      [Int.ofNat (SGame.holdem.rank c0), Int.ofNat (SGame.holdem.rank c1), Int.ofNat (SGame.holdem.rank c2),
        Int.ofNat (SGame.holdem.rank c0), Int.ofNat (firstOther SGame.holdem.numRanks
          [SGame.holdem.rank c2, SGame.holdem.rank c1, SGame.holdem.rank c0])] := by
    simp only [makeTopPairHand, List.map_cons, List.map_nil, rank_ofNat, hhighRank, hlowRank]
  have hleast : ∀ c ∈ [h0, h1],
      SGame.holdem.rank c ∉ [SGame.holdem.rank c0, SGame.holdem.rank c1, SGame.holdem.rank c2] →
      firstOther SGame.holdem.numRanks [SGame.holdem.rank c2, SGame.holdem.rank c1, SGame.holdem.rank c0] ≤
        SGame.holdem.rank c := fun c hc hnot =>
    firstOther_le (SGame.rank_lt (hdeck c (List.mem_append_right [c0, c1, c2] hc)))
      fun hmem => hnot (List.mem_reverse.mp hmem)
  generalize firstOther SGame.holdem.numRanks
    [SGame.holdem.rank c2, SGame.holdem.rank c1, SGame.holdem.rank c0] = x at hnew hranksTop hleast
  simp only [List.mem_cons, List.not_mem_nil, or_false, not_or] at hnew
  have hiff := (deal_ofNat hnodup hdeck rfl).topPair_le_iff (deal_ofNat htopNodup htopDeck rfl)
    (show _ = [Int.ofNat (SGame.holdem.rank c0), Int.ofNat (SGame.holdem.rank c1), Int.ofNat (SGame.holdem.rank c2),
      Int.ofNat (SGame.holdem.rank h0), Int.ofNat (SGame.holdem.rank h1)] from rfl) hranksTop
    (Int.ofNat_lt.mpr hmt) (Int.ofNat_lt.mpr hlm)
    ⟨fun h => hnew.2.2 (Int.ofNat.inj h), fun h => hnew.2.1 (Int.ofNat.inj h), fun h => hnew.1 (Int.ofNat.inj h)⟩ ?_
  · rw [hiff, TopPairOrBetter, Int.ofNat.injEq, Int.ofNat.injEq, Int.ofNat.injEq]
    exact or_congr_right (or_congr_right (or_congr_left (and_congr_right fun _ => Int.ofNat_lt)))
  · rintro y (rfl | rfl) hnot
    · exact Int.ofNat_le.mpr (hleast h0 (by simp) fun hmem => hnot (List.mem_map_of_mem (f := Int.ofNat) hmem))
    · exact Int.ofNat_le.mpr (hleast h1 (by simp) fun hmem => hnot (List.mem_map_of_mem (f := Int.ofNat) hmem))

/-- The hand of `MakeTopPairHand` is the least that a top pair or better hand reaches, and a large bet is taken back
exactly for such hands. -/
theorem makeTopPairHand_least (hfalls : [c0, c1, c2].Pairwise (· > ·))
    (hranks : ([c0, c1, c2].map SGame.holdem.rank).Nodup) (hnodup : [c0, c1, c2, h0, h1].Nodup)
    (hdeck : ∀ c ∈ [c0, c1, c2, h0, h1], c < SGame.holdem.numCardsInDeck) :
    (evaluate ((makeTopPairHand SGame.holdem c0 c1 c2).map Int.ofNat) ≤ evaluate ([c0, c1, c2, h0, h1].map Int.ofNat) ↔
      TopPairOrBetter c0 c1 c2 h0 h1) ∧
    ∀ trees, StoresEvaluate trees →
      ∃ keeps, keepsLargeBet SGame.holdem trees c0 c1 c2 [h0, h1] = some keeps ∧
        (keeps = false ↔ TopPairOrBetter c0 c1 c2 h0 h1) := by
  have hiff := makeTopPairHand_le_iff hfalls hranks hnodup hdeck
  obtain ⟨hother, -, -⟩ := flop_ranks hfalls hranks
  obtain ⟨htopNodup, htopDeck⟩ := @makeTopPairHand_cards SGame.holdem c0 c1 c2 (by decide) (by decide) hother
    fun c hc => hdeck c (List.mem_append_left [h0, h1] hc)
  refine ⟨hiff, fun trees hstores => ?_⟩
  have htopVal := hstores.valByCount htopNodup htopDeck rfl
  have hcurVal := hstores.valByCount hnodup hdeck rfl
  have htype : getFlopBoardType (SGame.holdem.rank c0) (SGame.holdem.rank c1) (SGame.holdem.rank c2) = 0 := if_pos hother
  refine ⟨decide (evaluate ([c0, c1, c2, h0, h1].map Int.ofNat) <
    evaluate ((makeTopPairHand SGame.holdem c0 c1 c2).map Int.ofNat)), ?_, ?_⟩
  · unfold keepsLargeBet
    dsimp only
    rw [htype, if_neg (by decide), if_neg (by decide), htopVal, Option.bind_some, List.cons_append, List.cons_append,
      List.cons_append, List.nil_append, hcurVal, Option.map_some]
  · rw [decide_eq_false_iff_not, not_lt, hiff]

end

/-- The tree of five cards as `Evaluate` makes it. -/
def evaluatedTrees : HandValueTree :=
  { HandValueTree.initial with
    tree5 := some (ValueTree.ofFun 5 SGame.holdem.numCardsInDeck fun t => evaluate (t.map Int.ofNat)) }

theorem evaluatedTrees_stores : StoresEvaluate evaluatedTrees := by
  intro t hlength hfalls
  have hentry := @ValueTree.entry_ofFun SGame.holdem.numCardsInDeck (fun t => evaluate (t.map Int.ofNat)) t hfalls.lt
  rw [hlength] at hentry
  unfold HandValueTree.treeEntry
  rw [hlength]
  exact hentry

/-- The ace of the flop with a king beside it. -/
theorem makeTopPairHand_least_ace :
    evaluate ((makeTopPairHand SGame.holdem 50 41 4).map Int.ofNat) ≤ evaluate ([50, 41, 4, 49, 44].map Int.ofNat) ∧
      keepsLargeBet SGame.holdem evaluatedTrees 50 41 4 [49, 44] = some false := by
  have hace : TopPairOrBetter 50 41 4 49 44 := Or.inl (by decide)
  obtain ⟨hle, hkeeps⟩ := @makeTopPairHand_least 50 41 4 49 44 (by decide) (by decide) (by decide) (by decide)
  obtain ⟨keeps, hvalue, hfalse⟩ := hkeeps evaluatedTrees evaluatedTrees_stores
  rw [hfalse.mpr hace] at hvalue
  exact ⟨hle.mpr hace, hvalue⟩


end HandMaker

end MasterAI
