import Mathlib.Data.List.Lex
import Mathlib.Data.List.Perm.Subperm
import Mathlib.Tactic.Ring

namespace MasterAI

/-- The categories of five cards, the weakest one first. -/
inductive Category
  | noPair
  | pair
  | twoPair
  | threeOfAKind
  | straight
  | flush
  | fullHouse
  | quads
  | straightFlush
  deriving DecidableEq, Repr

namespace Category

def order : Category → Nat
  | noPair => 0
  | pair => 1
  | twoPair => 2
  | threeOfAKind => 3
  | straight => 4
  | flush => 5
  | fullHouse => 6
  | quads => 7
  | straightFlush => 8

def OneSuit : Category → Prop
  | flush | straightFlush => True
  | _ => False

instance : DecidablePred OneSuit := fun c => by cases c <;> unfold OneSuit <;> infer_instance

/-- The ranks of a straight from its highest one. The ace, rank 12, is low only below the five, rank 3. -/
def straightRanks (r : Int) : List Int := if r = 3 then [3, 2, 1, 0, 12] else [r, r - 1, r - 2, r - 3, r - 4]

/-- The five ranks that make a category with its kickers. -/
def fiveRanks : Category → List Int → List Int
  | noPair, ks => ks
  | pair, [p, a, b, c] => [p, p, a, b, c]
  | twoPair, [p, q, k] => [p, p, q, q, k]
  | threeOfAKind, [t, a, b] => [t, t, t, a, b]
  | straight, [r] => straightRanks r
  | flush, ks => ks
  | fullHouse, [t, p] => [t, t, t, p, p]
  | quads, [r, k] => [r, r, r, r, k]
  | straightFlush, [r] => straightRanks r
  | _, _ => []

/-- The kickers in the order in which they count. -/
def Ordered : Category → List Int → Prop
  | noPair, ks => ks.length = 5 ∧ ks.Pairwise (· > ·)
  | pair, [p, a, b, c] => p ∉ [a, b, c] ∧ [a, b, c].Pairwise (· > ·)
  | twoPair, [p, q, k] => q < p ∧ k ∉ [p, q]
  | threeOfAKind, [t, a, b] => t ∉ [a, b] ∧ b < a
  | straight, [r] => 3 ≤ r ∧ r ≤ 12
  | flush, ks => ks.length = 5 ∧ ks.Pairwise (· > ·)
  | fullHouse, [t, p] => t ≠ p
  | quads, [r, k] => r ≠ k
  | straightFlush, [r] => 3 ≤ r ∧ r ≤ 12
  | _, _ => False

/-- The number of kickers. -/
def size : Category → Nat
  | noPair => 5
  | pair => 4
  | twoPair => 3
  | threeOfAKind => 3
  | straight => 1
  | flush => 5
  | fullHouse => 2
  | quads => 2
  | straightFlush => 1

theorem Ordered.length {c : Category} {ks : List Int} (h : c.Ordered ks) : ks.length = c.size := by
  unfold Ordered at h
  split at h <;> first | exact h.1 | rfl | exact h.elim

end Category

/-- What five cards are worth. -/
structure HandRank where
  category : Category
  kickers : List Int
  deriving DecidableEq, Repr

/-- Category first, then kickers. -/
def HandRank.Beats (v w : HandRank) : Prop :=
  w.category.order < v.category.order ∨ w.category = v.category ∧ w.kickers < v.kickers

section

variable {α : Type*} (rank suit : α → Int)

/-- Five cards are of a rank. -/
def Makes (h : List α) (v : HandRank) : Prop :=
  v.category.Ordered v.kickers ∧ (h.map rank).Perm (v.category.fiveRanks v.kickers) ∧
    (v.category.OneSuit → ∃ s, ∀ c ∈ h, suit c = s)

/-- The rank of the best five of some cards. -/
def BestHand (cards : List α) (v : HandRank) : Prop :=
  (∃ h : List α, h.Nodup ∧ h ⊆ cards ∧ Makes rank suit h v) ∧
    ∀ (h : List α) w, h.Nodup → h ⊆ cards → Makes rank suit h w → ¬w.Beats v

/-- Some cards hold the ranks of a hand, of one suit where the category asks for it. -/
def Shows (cards : List α) (v : HandRank) : Prop :=
  v.category.Ordered v.kickers ∧
    if v.category.OneSuit then ∃ s, (v.category.fiveRanks v.kickers).Subperm ((cards.filter (suit · = s)).map rank)
    else (v.category.fiveRanks v.kickers).Subperm (cards.map rank)

end

section

variable {α : Type*} {rank suit : α → Int} {cards : List α} {l : List Int} {v w : HandRank}

theorem subperm_map_iff : l.Subperm (cards.map rank) ↔ ∃ h : List α, h.Sublist cards ∧ (h.map rank).Perm l := by
  constructor
  · rintro ⟨l', hperm, hsub⟩
    obtain ⟨h, hh, rfl⟩ := List.sublist_map_iff.mp hsub
    exact ⟨h, hh, hperm⟩
  · rintro ⟨h, hh, hperm⟩
    exact ⟨h.map rank, hperm, hh.map rank⟩

/-- Cards show a hand exactly where five of them make it. -/
theorem shows_iff (hcards : cards.Nodup) :
    Shows rank suit cards v ↔ ∃ h : List α, h.Nodup ∧ h ⊆ cards ∧ Makes rank suit h v := by
  unfold Shows Makes
  by_cases hsuit : v.category.OneSuit
  · simp only [if_pos hsuit]
    constructor
    · rintro ⟨hordered, s, hranks⟩
      obtain ⟨h, hh, hperm⟩ := subperm_map_iff.mp hranks
      refine ⟨h, (hcards.filter _).sublist hh, fun c hc => List.mem_of_mem_filter (hh.subset hc), hordered, hperm,
        fun _ => ⟨s, fun c hc => ?_⟩⟩
      simpa using (List.mem_filter.mp (hh.subset hc)).2
    · rintro ⟨h, hnodup, hh, hordered, hperm, hone⟩
      obtain ⟨s, hs⟩ := hone hsuit
      have hfilter : h ⊆ cards.filter (suit · = s) := fun c hc =>
        List.mem_filter.mpr ⟨hh hc, by simpa using hs c hc⟩
      obtain ⟨h', hperm', hsub⟩ := hnodup.subperm hfilter
      exact ⟨hordered, s, subperm_map_iff.mpr ⟨h', hsub, (hperm'.map rank).trans hperm⟩⟩
  · simp only [if_neg hsuit]
    constructor
    · rintro ⟨hordered, hranks⟩
      obtain ⟨h, hh, hperm⟩ := subperm_map_iff.mp hranks
      exact ⟨h, hcards.sublist hh, hh.subset, hordered, hperm, fun hone => absurd hone hsuit⟩
    · rintro ⟨h, hnodup, hh, hordered, hperm, -⟩
      obtain ⟨h', hperm', hsub⟩ := hnodup.subperm hh
      exact ⟨hordered, subperm_map_iff.mpr ⟨h', hsub, (hperm'.map rank).trans hperm⟩⟩

end

end MasterAI
