import Mathlib.Tactic.Linarith
import MasterAI.HandShows

namespace MasterAI

namespace HoldemHandEvaluator

open Category (straightRanks)

variable {cards ks xs ys l : List Int} {v w : HandRank} {r s x : Int}

/-- Kickers as the digits of a number. -/
def digits (ks : List Int) : Int := ks.foldl (fun n d => n * 13 + d) 0

theorem digits_cons (k : Int) (ks : List Int) : digits (k :: ks) = k * 13 ^ ks.length + digits ks := by
  have hfold : ∀ (ks : List Int) (n : Int), ks.foldl (fun n d => n * 13 + d) n = n * 13 ^ ks.length + digits ks := by
    intro ks
    induction ks with
    | nil => intro n; simp [digits]
    | cons k ks ih =>
      intro n
      have hk := ih k
      rw [List.foldl_cons, ih, List.length_cons, pow_succ]
      unfold digits at hk ⊢
      rw [List.foldl_cons, Int.zero_mul, Int.zero_add, hk]
      ring
  rw [← hfold ks k]
  simp [digits]

theorem digits_range (hks : ∀ k ∈ ks, 0 ≤ k ∧ k < 13) : 0 ≤ digits ks ∧ digits ks < 13 ^ ks.length := by
  induction ks with
  | nil => decide
  | cons k ks ih =>
    obtain ⟨hpos, hlt⟩ := ih fun x hx => hks x (List.mem_cons_of_mem _ hx)
    obtain ⟨hk, hk13⟩ := hks k (by simp)
    have hpow : (0 : Int) < 13 ^ ks.length := by positivity
    rw [digits_cons, List.length_cons, pow_succ]
    constructor
    · positivity
    · nlinarith

/-- Digits compare as their numbers do. -/
theorem digits_lt_iff (hlength : xs.length = ys.length) (hxs : ∀ k ∈ xs, 0 ≤ k ∧ k < 13)
    (hys : ∀ k ∈ ys, 0 ≤ k ∧ k < 13) : digits xs < digits ys ↔ xs < ys := by
  induction xs generalizing ys with
  | nil =>
    obtain rfl := List.length_eq_zero_iff.mp hlength.symm
    simp
  | cons x xs ih =>
    cases ys with
    | nil => cases hlength
    | cons y ys =>
      have htail : xs.length = ys.length := by simpa using hlength
      have hxs' : ∀ k ∈ xs, 0 ≤ k ∧ k < 13 := fun k hk => hxs k (List.mem_cons_of_mem _ hk)
      have hys' : ∀ k ∈ ys, 0 ≤ k ∧ k < 13 := fun k hk => hys k (List.mem_cons_of_mem _ hk)
      obtain ⟨hxlow, hxhigh⟩ := digits_range hxs'
      obtain ⟨hylow, hyhigh⟩ := digits_range hys'
      have hih := ih htail hxs' hys'
      rw [digits_cons, digits_cons, List.cons_lt_cons_iff, htail]
      rw [htail] at hxhigh
      constructor
      · intro hlt
        rcases lt_trichotomy x y with hxy | rfl | hyx
        · exact Or.inl hxy
        · exact Or.inr ⟨rfl, hih.mp (by linarith)⟩
        · nlinarith
      · rintro (hxy | ⟨rfl, hlt⟩)
        · nlinarith
        · have := hih.mpr hlt
          linarith

theorem digits_le_of_forall₂ (h : List.Forall₂ (· ≤ ·) xs ys) : digits xs ≤ digits ys := by
  induction h with
  | nil => exact le_rfl
  | @cons x y xs ys hxy hrest ih =>
    rw [digits_cons, digits_cons, hrest.length_eq]
    have hpow : (0 : Int) ≤ 13 ^ ys.length := by positivity
    exact add_le_add (mul_le_mul_of_nonneg_right hxy hpow) ih

/-- The value bands of the categories. -/
def base : Category → Int
  | .noPair => kNoPair
  | .pair => kPair
  | .twoPair => kTwoPair
  | .threeOfAKind => kThreeOfAKind
  | .straight => kStraight
  | .flush => kFlush
  | .fullHouse => kFullHouse
  | .quads => kQuads
  | .straightFlush => kStraightFlush

/-- The value of a hand. -/
def code (v : HandRank) : Int := base v.category + digits v.kickers

/-- A hand with as many kickers as its category has, all of them ranks. -/
def IsRanked (v : HandRank) : Prop := v.kickers.length = v.category.size ∧ ∀ k ∈ v.kickers, 0 ≤ k ∧ k < 13

/-- The bands do not meet. -/
theorem base_add_le {c d : Category} (h : c.order < d.order) : base c + 13 ^ c.size ≤ base d := by
  revert h
  cases c <;> cases d <;> decide

theorem order_injective {c d : Category} (h : c.order = d.order) : c = d := by
  revert h
  cases c <;> cases d <;> decide

theorem code_lt_iff (hv : IsRanked v) (hw : IsRanked w) : code v < code w ↔ w.Beats v := by
  obtain ⟨hvlow, hvhigh⟩ := digits_range hv.2
  obtain ⟨hwlow, hwhigh⟩ := digits_range hw.2
  rw [hv.1] at hvhigh
  rw [hw.1] at hwhigh
  unfold code HandRank.Beats
  rcases lt_trichotomy v.category.order w.category.order with hlt | heq | hgt
  · have hbase := base_add_le hlt
    exact iff_of_true (by omega) (Or.inl hlt)
  · have hcategory := order_injective heq
    have hlength : v.kickers.length = w.kickers.length := by rw [hv.1, hw.1, hcategory]
    rw [hcategory]
    have hdigits := digits_lt_iff hlength hv.2 hw.2
    simp only [lt_irrefl, false_or, true_and]
    rw [← hdigits]
    omega
  · have hbase := base_add_le hgt
    refine iff_of_false (by omega) ?_
    rintro (hlt | ⟨heq, -⟩)
    · omega
    · rw [heq] at hgt
      exact absurd hgt (lt_irrefl _)

theorem code_injective (hv : IsRanked v) (hw : IsRanked w) (h : code v = code w) : v = w := by
  have hnot : ¬w.Beats v := fun hbeats => by
    have := (code_lt_iff hv hw).mpr hbeats
    omega
  have hnot' : ¬v.Beats w := fun hbeats => by
    have := (code_lt_iff hw hv).mpr hbeats
    omega
  unfold HandRank.Beats at hnot hnot'
  push Not at hnot hnot'
  have hcategory := order_injective (le_antisymm hnot'.1 hnot.1)
  obtain ⟨c, ks⟩ := v
  obtain ⟨d, ls⟩ := w
  obtain rfl : c = d := by simpa using hcategory
  have hle := hnot.2 rfl
  have hge := hnot'.2 rfl
  rw [HandRank.mk.injEq]
  exact ⟨rfl, le_antisymm hge hle⟩

end HoldemHandEvaluator

end MasterAI
