import MasterAI.HandCounts
import MasterAI.TopRanks

namespace MasterAI

namespace HoldemHandEvaluator

open Category (straightRanks)

variable {cards ks l ranks : List Int} {r : Int} {n : Nat}

/-- Copies of one rank and other ranks are there where each of the two is. -/
theorem replicate_append_subperm_iff (ranks : List Int) (hr : r ∉ l) :
    (List.replicate n r ++ l).Subperm ranks ↔ n ≤ ranks.count r ∧ l.Subperm ranks := by
  have hcount : l.count r = 0 := List.count_eq_zero.mpr hr
  constructor
  · intro h
    refine ⟨?_, (List.sublist_append_right _ l).subperm.trans h⟩
    have hle := h.count_le r
    rwa [List.count_append, List.count_replicate_self, hcount, Nat.add_zero] at hle
  · rintro ⟨hn, hl⟩
    rw [List.subperm_ext_iff]
    intro x hx
    rw [List.count_append]
    by_cases hxr : x = r
    · rw [hxr, List.count_replicate_self, hcount]
      exact hn
    · rw [List.count_replicate, if_neg (by simpa using Ne.symm hxr), Nat.zero_add]
      exact hl.count_le x

theorem nodup_subperm_iff (hl : l.Nodup) : l.Subperm ranks ↔ l ⊆ ranks :=
  ⟨fun h => h.subset, fun h => List.subperm_of_subset hl h⟩

theorem one_le_rankCounts_iff : 1 ≤ rankCounts cards r ↔ r ∈ cards.map rank := by
  rw [rankCounts_eq_count]
  exact List.count_pos_iff

variable {p q t a b c k : Int}

theorem Shows.length {v : HandRank} (h : Shows rank suit cards v) : v.kickers.length = v.category.size :=
  Category.Ordered.length h.1

theorem shows_noPair_iff : Shows rank suit cards ⟨.noPair, ks⟩ ↔
    (ks.length = 5 ∧ ks.Pairwise (· > ·)) ∧ ks ⊆ cards.map rank := by
  unfold Shows
  rw [if_neg (by simp [Category.OneSuit])]
  exact and_congr_right fun hordered => nodup_subperm_iff (hordered.2.imp fun hlt => ne_of_gt hlt)

theorem shows_flush_iff : Shows rank suit cards ⟨.flush, ks⟩ ↔
    (ks.length = 5 ∧ ks.Pairwise (· > ·)) ∧ ∃ s, ks ⊆ suitRanks cards s := by
  unfold Shows
  rw [if_pos (by simp [Category.OneSuit])]
  exact and_congr_right fun hordered => exists_congr fun s => nodup_subperm_iff (hordered.2.imp fun hlt => ne_of_gt hlt)

theorem shows_straight_iff : Shows rank suit cards ⟨.straight, [r]⟩ ↔ HasStraight (cards.map rank) r := by
  unfold Shows
  rw [if_neg (by simp [Category.OneSuit])]
  exact and_congr_right fun _ => nodup_subperm_iff (straightRanks_nodup r)

theorem shows_straightFlush_iff : Shows rank suit cards ⟨.straightFlush, [r]⟩ ↔ ∃ s, HasStraight (suitRanks cards s) r := by
  unfold Shows
  rw [if_pos (by simp [Category.OneSuit]), ← exists_and_left]
  exact exists_congr fun s => and_congr_right fun _ => nodup_subperm_iff (straightRanks_nodup r)

theorem shows_quads_iff : Shows rank suit cards ⟨.quads, [r, k]⟩ ↔
    r ≠ k ∧ 4 ≤ rankCounts cards r ∧ k ∈ cards.map rank := by
  unfold Shows
  rw [if_neg (by simp [Category.OneSuit]), rankCounts_eq_count, ← List.singleton_subperm_iff]
  exact and_congr_right fun hne => replicate_append_subperm_iff (n := 4) _ fun hmem => hne (List.mem_singleton.mp hmem)

theorem shows_fullHouse_iff : Shows rank suit cards ⟨.fullHouse, [t, p]⟩ ↔
    t ≠ p ∧ 3 ≤ rankCounts cards t ∧ 2 ≤ rankCounts cards p := by
  unfold Shows
  rw [if_neg (by simp [Category.OneSuit]), rankCounts_eq_count, rankCounts_eq_count]
  refine and_congr_right fun hne => ?_
  have hpair := replicate_append_subperm_iff (n := 2) (cards.map rank) (List.not_mem_nil (a := p))
  have hthree := replicate_append_subperm_iff (n := 3) (cards.map rank) (l := [p, p]) (r := t)
    fun hmem => hne (by simpa using hmem)
  refine hthree.trans (and_congr_right fun _ => hpair.trans ?_)
  exact and_iff_left List.nil_subperm

theorem shows_threeOfAKind_iff : Shows rank suit cards ⟨.threeOfAKind, [t, a, b]⟩ ↔
    (t ∉ [a, b] ∧ b < a) ∧ 3 ≤ rankCounts cards t ∧ [a, b] ⊆ cards.map rank := by
  unfold Shows
  rw [if_neg (by simp [Category.OneSuit]), rankCounts_eq_count]
  refine and_congr_right fun ⟨hnot, hlt⟩ => ?_
  have hnodup : [a, b].Nodup := by simp [ne_of_gt hlt]
  exact (replicate_append_subperm_iff (n := 3) _ hnot).trans (and_congr_right fun _ => nodup_subperm_iff hnodup)

theorem shows_twoPair_iff : Shows rank suit cards ⟨.twoPair, [p, q, k]⟩ ↔
    (q < p ∧ k ∉ [p, q]) ∧ 2 ≤ rankCounts cards p ∧ 2 ≤ rankCounts cards q ∧ k ∈ cards.map rank := by
  unfold Shows
  rw [if_neg (by simp [Category.OneSuit]), rankCounts_eq_count, rankCounts_eq_count]
  refine and_congr_right fun ⟨hlt, hnot⟩ => ?_
  obtain ⟨hkp, hkq⟩ : k ≠ p ∧ k ≠ q := by simpa using hnot
  have hsecond := replicate_append_subperm_iff (n := 2) (cards.map rank) (l := [k]) (r := q)
    fun hmem => hkq (List.mem_singleton.mp hmem).symm
  have hfirst := replicate_append_subperm_iff (n := 2) (cards.map rank) (l := [q, q, k]) (r := p)
    fun hmem => by
      simp only [List.mem_cons, List.not_mem_nil, or_false] at hmem
      omega
  rw [List.singleton_subperm_iff] at hsecond
  exact hfirst.trans (and_congr_right fun _ => hsecond)

theorem shows_pair_iff : Shows rank suit cards ⟨.pair, [p, a, b, c]⟩ ↔
    (p ∉ [a, b, c] ∧ [a, b, c].Pairwise (· > ·)) ∧ 2 ≤ rankCounts cards p ∧ [a, b, c] ⊆ cards.map rank := by
  unfold Shows
  rw [if_neg (by simp [Category.OneSuit]), rankCounts_eq_count]
  refine and_congr_right fun ⟨hnot, hfalling⟩ => ?_
  have hnodup : [a, b, c].Nodup := hfalling.imp fun hlt => ne_of_gt hlt
  exact (replicate_append_subperm_iff (n := 2) _ hnot).trans (and_congr_right fun _ => nodup_subperm_iff hnodup)

end HoldemHandEvaluator

end MasterAI
