import MasterAI.HandEvaluatorOrder

namespace MasterAI

namespace HoldemHandEvaluator

open Category (straightRanks)

variable {cards ks l : List Int} {v w : HandRank} {r s x : Int} {c : Category}

theorem kickers_subset (h : c.Ordered ks) (hk : x ∈ ks) : x ∈ c.fiveRanks ks ∨ 3 ≤ x ∧ x ≤ 12 := by
  unfold Category.Ordered at h
  unfold Category.fiveRanks
  split at h <;> simp_all

theorem Deal.isRanked (hd : Deal cards) (h : Shows rank suit cards v) : IsRanked v := by
  refine ⟨Shows.length h, fun k hk => ?_⟩
  have hranks : v.category.fiveRanks v.kickers ⊆ cards.map rank := by
    have hshow := h.2
    split_ifs at hshow with hone
    · obtain ⟨s, hs⟩ := hshow
      exact fun y hy => suitRanks_subset cards s (hs.subset hy)
    · exact hshow.subset
  rcases kickers_subset h.1 hk with hmem | hrange
  · have := hd.rank_range (hranks hmem)
    omega
  · omega

/-- A hand that the cards show and that has the highest value of them. -/
structure Value (cards : List Int) (v : HandRank) : Prop where
  shows : Shows rank suit cards v
  greatest : ∀ w, Shows rank suit cards w → code w ≤ code v

/-- The cards show no hand from some category on. -/
def Below (cards : List Int) (n : Nat) : Prop := ∀ w, Shows rank suit cards w → w.category.order < n

theorem below_nine (cards : List Int) : Below cards 9 := by
  intro w _
  cases w.category <;> decide

theorem Below.step (h : Below cards (c.order + 1)) (hno : ∀ ks, ¬Shows rank suit cards ⟨c, ks⟩) :
    Below cards c.order := by
  rintro ⟨d, ks⟩ hw
  have hle : d.order < c.order + 1 := h _ hw
  by_contra hge
  change ¬d.order < c.order at hge
  obtain rfl : d = c := order_injective (by omega)
  exact hno ks hw

/-- The highest hand of the highest category. -/
theorem Below.value (hd : Deal cards) (h : Below cards (c.order + 1)) (hshows : Shows rank suit cards ⟨c, ks⟩)
    (hsame : ∀ ls, Shows rank suit cards ⟨c, ls⟩ → digits ls ≤ digits ks) : Value cards ⟨c, ks⟩ := by
  refine ⟨hshows, ?_⟩
  rintro ⟨d, ls⟩ hw
  have hle : d.order < c.order + 1 := h _ hw
  by_cases heq : d = c
  · subst heq
    exact Int.add_le_add_left (hsame ls hw) (base d)
  · have hlt : d.order < c.order := by
      have hne : d.order ≠ c.order := fun horder => heq (order_injective horder)
      omega
    have hbase := base_add_le hlt
    have hranked := hd.isRanked hw
    have hhigh := (digits_range hranked.2).2
    have hlow := (digits_range (hd.isRanked hshows).2).1
    rw [hranked.1] at hhigh
    unfold code
    simp only at hhigh hlow ⊢
    omega

theorem HasStraight.five_le {ranks : List Int} (h : HasStraight ranks r) : 5 ≤ ranks.length := by
  have hle := (List.subperm_of_subset (straightRanks_nodup r) h.2).length_le
  rwa [straightRanks_length] at hle

/-- The loop over the straights as `Evaluate` starts it. -/
theorem Deal.scanStraights_correct (hd : Deal cards) :
    (scanStraights cards (flushSuit cards) 10 12 none).Correct cards (flushSuit cards) := by
  refine scanStraights_spec hd (by omega) (by omega) ⟨fun s _ q hq h => ?_, fun q hq h => ?_, fun x hx => by cases hx⟩
    fun _ => rfl
  · have := h.1
    omega
  · have := h.1
    omega

theorem Deal.value_straightFlush (hd : Deal cards) (hs : flushSuit cards = some s)
    (hstraight : HasStraight (suitRanks cards s) r) (hhighest : ∀ q, HasStraight (suitRanks cards s) q → q ≤ r) :
    Value cards ⟨.straightFlush, [r]⟩ := by
  refine (below_nine cards).value hd (shows_straightFlush_iff.mpr ⟨s, hstraight⟩) fun ls hls => ?_
  obtain ⟨q, rfl⟩ := List.length_eq_one_iff.mp (Shows.length hls)
  obtain ⟨t, ht⟩ := shows_straightFlush_iff.mp hls
  obtain rfl := (hd.flushSuit_some hs).2 t ht.five_le
  have := hhighest q ht
  simpa [digits] using this

/-- Without a straight flush in the flush suit there is none. -/
theorem Deal.below_straightFlush (hd : Deal cards) {straightRank : Option Int}
    (h : StraightsAbove cards (flushSuit cards) 2 straightRank) : Below cards Category.straightFlush.order := by
  refine (below_nine cards).step fun ks hks => ?_
  obtain ⟨q, rfl⟩ := List.length_eq_one_iff.mp (Shows.length hks)
  obtain ⟨t, ht⟩ := shows_straightFlush_iff.mp hks
  cases hflush : flushSuit cards with
  | none =>
    have hshort := flushSuit_none hflush t
    have hlong := ht.five_le
    omega
  | some s =>
    obtain rfl := (hd.flushSuit_some hflush).2 t ht.five_le
    have hrange := ht.1
    exact h.noFlush t hflush q (by omega) ht

/-- The highest of some ranks. -/
theorem topRanks_one (hl : ∀ x ∈ l, 0 ≤ x) (hne : l ≠ []) : ∃ m, topRanks 1 l = [m] ∧ m ∈ l ∧ ∀ x ∈ l, x ≤ m := by
  have hfold : ∀ (l : List Int) (m : Int), ∃ n, l.foldl (fun hrs r => pushTop r hrs) [m] = [n] ∧ (n = m ∨ n ∈ l) ∧ m ≤ n ∧
      ∀ x ∈ l, x ≤ n := by
    intro l
    induction l with
    | nil => exact fun m => ⟨m, rfl, Or.inl rfl, le_rfl, by simp⟩
    | cons r l ih =>
      intro m
      by_cases hlt : r > m
      · obtain ⟨n, hn, hmem, hle, hall⟩ := ih r
        refine ⟨n, by simpa [pushTop, hlt] using hn, ?_, by omega, ?_⟩
        · rcases hmem with rfl | hmem
          · exact Or.inr (by simp)
          · exact Or.inr (by simp [hmem])
        · exact List.forall_mem_cons.mpr ⟨hle, hall⟩
      · obtain ⟨n, hn, hmem, hle, hall⟩ := ih m
        refine ⟨n, by simpa [pushTop, hlt] using hn, ?_, hle, List.forall_mem_cons.mpr ⟨by omega, hall⟩⟩
        exact hmem.imp_right (List.mem_cons_of_mem _)
  obtain ⟨m, hm, hmem, hle, hall⟩ := hfold l (-1)
  refine ⟨m, hm, ?_, hall⟩
  rcases hmem with rfl | hmem
  · obtain ⟨x, hx⟩ := List.exists_mem_of_ne_nil l hne
    have hpos := hl x hx
    have hbelow := hall x hx
    omega
  · exact hmem

end HoldemHandEvaluator

end MasterAI
