import MasterAI.HandEvaluatorValue
import MasterAI.HighlightPicks

namespace MasterAI

namespace HighlightCard

open HoldemHandEvaluator (HasStraight mem_straightRanks)
open Category (straightRanks)

section

variable {l R : List Int} {r q x : Int} {i : Nat} {cards : List (List Char)} {suit : Option Char}

/-- Below the head of falling ranks comes the next lower rank, if it is there. -/
theorem falling_next {t : List Int} (hl : (x :: t).Pairwise (· > ·)) (hmem : x - 1 ∈ x :: t) : ∃ t', t = (x - 1) :: t' := by
  obtain ⟨hhead, htail⟩ := List.pairwise_cons.mp hl
  have hrest : x - 1 ∈ t := (List.mem_cons.mp hmem).resolve_left (by omega)
  cases t with
  | nil => cases hrest
  | cons y t =>
    have hlt := hhead y (by simp)
    rcases List.mem_cons.mp hrest with heq | hdeep
    · exact ⟨t, by rw [heq]⟩
    · have hbelow := (List.pairwise_cons.mp htail).1 (x - 1) hdeep
      omega

/-- Ranks in a row stand next to each other among falling ranks. -/
theorem falling_row (k : Nat) {t : List Int} (hl : (r :: t).Pairwise (· > ·)) (hrow : ∀ x, r - k ≤ x → x ≤ r → x ∈ r :: t) :
    ∃ rest, r :: t = (List.range (k + 1)).map (fun (j : Nat) => r - j) ++ rest := by
  induction k generalizing r t with
  | zero => exact ⟨t, by simp⟩
  | succ k ih =>
    obtain ⟨t', rfl⟩ := falling_next hl (hrow (r - 1) (by omega) (by omega))
    obtain ⟨rest, hrest⟩ := ih (List.pairwise_cons.mp hl).2 fun x hlow hhigh =>
      (List.mem_cons.mp (hrow x (by omega) (by omega))).resolve_left (by omega)
    refine ⟨rest, ?_⟩
    rw [hrest, List.range_succ_eq_map (n := k + 1), List.map_cons, List.map_map, List.cons_append]
    have hmap : (List.range (k + 1)).map (fun (j : Nat) => r - 1 - j) =
        (List.range (k + 1)).map ((fun (j : Nat) => r - j) ∘ Nat.succ) :=
      List.map_congr_left fun j _ => by
        rw [Function.comp_apply]
        omega
    rw [hmap]
    simp

theorem falling_window (hl : l.Pairwise (· > ·)) (hrow : ∀ x, r - 4 ≤ x → x ≤ r → x ∈ l) :
    ∃ i rest, l.drop i = r :: (r - 1) :: (r - 2) :: (r - 3) :: (r - 4) :: rest := by
  obtain ⟨i, hi, hget⟩ := List.mem_iff_getElem.mp (hrow r (by omega) le_rfl)
  have hdrop : l.drop i = r :: l.drop (i + 1) := by
    rw [← hget]
    exact List.drop_eq_getElem_cons hi
  have hsplit : l = l.take i ++ r :: l.drop (i + 1) := by
    rw [← hdrop, List.take_append_drop]
  obtain ⟨_, hfalls, hbefore⟩ := List.pairwise_append.mp (hsplit ▸ hl)
  obtain ⟨rest, hrest⟩ := falling_row 4 hfalls fun x hlow hhigh => by
    have hmem := hrow x (by omega) hhigh
    rw [hsplit, List.mem_append] at hmem
    refine hmem.resolve_left fun hx => ?_
    have hgt := hbefore x hx r (by simp)
    omega
  refine ⟨i, rest, ?_⟩
  rw [hdrop, hrest]
  simp [List.range_succ]

theorem mem_withLowAce : x ∈ withLowAce R ↔ x ∈ R ∨ x = -1 ∧ 12 ∈ R := by
  unfold withLowAce aceRank aceLowRank
  split
  next hace => simp [hace]
  next hace => simp [hace]

theorem withLowAce_falling (hR : R.Pairwise (· > ·)) (hrange : ∀ x ∈ R, 0 ≤ x) : (withLowAce R).Pairwise (· > ·) := by
  unfold withLowAce
  split
  · refine List.pairwise_append.mpr ⟨hR, List.pairwise_singleton _ _, fun x hx y hy => ?_⟩
    have hpos := hrange x hx
    rw [List.mem_singleton.mp hy, aceLowRank]
    omega
  · exact hR

/-- A straight is five ranks in a row, where the ace counts as low as well. -/
theorem hasStraight_iff_row (hrange : ∀ x ∈ R, 0 ≤ x ∧ x ≤ 12) :
    HasStraight R r ↔ 3 ≤ r ∧ ∀ x, r - 4 ≤ x → x ≤ r → x ∈ withLowAce R := by
  simp only [mem_withLowAce]
  constructor
  · rintro ⟨hr, hsub⟩
    refine ⟨hr.1, fun x hlow hhigh => ?_⟩
    by_cases hneg : x = -1
    · exact .inr ⟨hneg, hsub ((mem_straightRanks hr).mpr (.inr ⟨by omega, rfl⟩))⟩
    · exact .inl (hsub ((mem_straightRanks hr).mpr (.inl ⟨hlow, hhigh, by omega⟩)))
  · rintro ⟨hthree, hrow⟩
    have htop := (hrow r (by omega) le_rfl).resolve_right (by omega)
    have hr : 3 ≤ r ∧ r ≤ 12 := ⟨hthree, (hrange r htop).2⟩
    refine ⟨hr, fun x hx => ?_⟩
    rcases (mem_straightRanks hr).mp hx with ⟨hlow, hhigh, hpos⟩ | ⟨hlow, rfl⟩
    · exact (hrow x hlow hhigh).resolve_right (by omega)
    · exact ((hrow (-1) (by omega) (by omega)).resolve_left fun hmem => by
        have := hrange _ hmem
        omega).2

theorem inRow_iff : inRow l = true ↔ l.getD 0 0 - 1 = l.getD 1 0 ∧ l.getD 1 0 - 1 = l.getD 2 0 ∧
    l.getD 2 0 - 1 = l.getD 3 0 ∧ l.getD 3 0 - 1 = l.getD 4 0 := by
  simp [inRow, stdHandNum, List.range_succ]

/-- A window in a row is five ranks from its first one down. -/
theorem window_eq (hi : i + 5 ≤ l.length) :
    inRow (l.drop i) = true ↔ ∃ rest, l.drop i =
      l.getD i 0 :: (l.getD i 0 - 1) :: (l.getD i 0 - 2) :: (l.getD i 0 - 3) :: (l.getD i 0 - 4) :: rest := by
  have hlength : 5 ≤ (l.drop i).length := by
    rw [List.length_drop]
    omega
  have hfirst : l.getD i 0 = (l.drop i).getD 0 0 := by simp
  rw [hfirst, inRow_iff]
  generalize l.drop i = w at hlength
  obtain ⟨a, b, c, d, e, rest, rfl⟩ : ∃ a b c d e rest, w = a :: b :: c :: d :: e :: rest := by
    rcases w with _ | ⟨a, _ | ⟨b, _ | ⟨c, _ | ⟨d, _ | ⟨e, rest⟩⟩⟩⟩⟩
    all_goals simp at hlength ⊢
  simp only [List.getD_cons_zero, List.getD_cons_succ, List.cons.injEq, true_and, exists_and_left, exists_eq', and_true]
  omega

/-- The texts of a straight are those of its ranks, the ace being its own rank. -/
theorem straightTexts (hr : 3 ≤ r ∧ r ≤ 12) (win : List Nat) :
    [r, r - 1, r - 2, r - 3, r - 4].foldl (fun win rank => pushCardIndex cards (straightText suit rank) 0 win) win =
      pushPicks cards suit ((straightRanks r).map fun x => (x, 0)) win := by
  have htexts : [r, r - 1, r - 2, r - 3, r - 4].map (straightText suit) = (straightRanks r).map (pickText suit) := by
    unfold straightRanks straightText pickText aceLowRank aceRank
    split
    next hthree =>
      rw [hthree]
      rfl
    next hthree =>
      have hne : ∀ x, r - 4 ≤ x → x ≠ -1 := by omega
      simp only [List.map_cons, List.map_nil, if_neg (hne r (by omega)), if_neg (hne (r - 1) (by omega)),
        if_neg (hne (r - 2) (by omega)), if_neg (hne (r - 3) (by omega)), if_neg (hne (r - 4) (by omega))]
  have hfold : ∀ texts : List (List Char), ∀ (f : Int → List Char) (ranks : List Int), ranks.map f = texts →
      ranks.foldl (fun win rank => pushCardIndex cards (f rank) 0 win) win =
        texts.foldl (fun win text => pushCardIndex cards text 0 win) win := by
    rintro _ f ranks rfl
    rw [List.foldl_map]
  rw [hfold _ _ _ htexts, pushPicks, List.foldl_map, List.foldl_map]

theorem withLowAce_ge (hrange : ∀ x ∈ R, 0 ≤ x ∧ x ≤ 12) : ∀ x ∈ withLowAce R, -1 ≤ x := by
  intro x hx
  rcases mem_withLowAce.mp hx with hx | hx
  · have := hrange x hx
    omega
  · omega

/-- A straight is a window in a row that starts with its highest rank. -/
theorem exists_window (hR : R.Pairwise (· > ·)) (hrange : ∀ x ∈ R, 0 ≤ x ∧ x ≤ 12) {q : Int} (hq : HasStraight R q) :
    ∃ i, i + 5 ≤ (withLowAce R).length ∧ (withLowAce R).getD i 0 = q ∧ inRow ((withLowAce R).drop i) = true := by
  have hfalls := withLowAce_falling hR fun x hx => (hrange x hx).1
  obtain ⟨i, rest, hdrop⟩ := falling_window hfalls ((hasStraight_iff_row hrange).mp hq).2
  have hlength := congrArg List.length hdrop
  simp only [List.length_drop, List.length_cons] at hlength
  have hi : i + 5 ≤ (withLowAce R).length := by omega
  have hfirst : (withLowAce R).getD i 0 = ((withLowAce R).drop i).getD 0 0 := by simp
  rw [hdrop, List.getD_cons_zero] at hfirst
  refine ⟨i, hi, hfirst, (window_eq hi).mpr ⟨rest, ?_⟩⟩
  rw [hfirst]
  exact hdrop

/-- `analyzeStraight` finds the highest straight of falling ranks, if there is one. -/
theorem analyzeStraight_spec (cards : List (List Char)) (suit : Option Char) (hR : R.Pairwise (· > ·)) (hrange : ∀ x ∈ R, 0 ≤ x ∧ x ≤ 12) :
    (analyzeStraight cards R suit = none ∧ ∀ q, ¬HasStraight R q) ∨
      ∃ r, analyzeStraight cards R suit = some (r, pushPicks cards suit ((straightRanks r).map fun x => (x, 0)) []) ∧
        HasStraight R r ∧ ∀ q, HasStraight R q → q ≤ r := by
  have hfalls := withLowAce_falling hR fun x hx => (hrange x hx).1
  unfold analyzeStraight
  split
  next hfive =>
    dsimp only
    have hlength : stdHandNum ≤ (withLowAce R).length := by
      unfold withLowAce
      split
      · rw [List.length_append]
        omega
      · exact hfive
    unfold stdHandNum at hlength ⊢
    cases hfind : (List.range ((withLowAce R).length - 5 + 1)).find? fun i => inRow ((withLowAce R).drop i) with
    | none =>
      refine .inl ⟨Option.map_none _, fun q hq => ?_⟩
      obtain ⟨i, hi, _, hrow⟩ := exists_window hR hrange hq
      have hnot := List.find?_range_eq_none.mp hfind i (by omega)
      rw [hrow] at hnot
      cases hnot
    | some i =>
      obtain ⟨hrow, hi, hfirst⟩ := List.find?_range_eq_some.mp hfind
      rw [List.mem_range] at hi
      have hi5 : i + 5 ≤ (withLowAce R).length := by omega
      obtain ⟨rest, hdrop⟩ := (window_eq hi5).mp hrow
      have hin : ∀ x ∈ (withLowAce R).drop i, x ∈ withLowAce R := fun x hx => List.mem_of_mem_drop hx
      generalize hr : (withLowAce R).getD i 0 = r at hdrop
      rw [hdrop] at hin
      have hlast := withLowAce_ge hrange (r - 4) (hin _ (by simp))
      have hstraight : HasStraight R r := by
        refine (hasStraight_iff_row hrange).mpr ⟨by omega, fun x hxlow hxhigh => hin x ?_⟩
        simp only [List.mem_cons]
        omega
      refine .inr ⟨r, ?_, hstraight, fun q hq => ?_⟩
      · rw [Option.map_some, ← straightTexts hstraight.1, hr]
        have htake : ((withLowAce R).drop i).take 5 = [r, r - 1, r - 2, r - 3, r - 4] := by
          rw [hdrop]
          rfl
        rw [htake]
      · obtain ⟨j, hj, hget, hrow'⟩ := exists_window hR hrange hq
        by_contra hgt
        have hji : ¬j < i := fun hji => by
          have hnot := hfirst j hji
          rw [hrow'] at hnot
          cases hnot
        have hne : i ≠ j := by
          rintro rfl
          omega
        have hless := List.pairwise_iff_getElem.mp hfalls i j (by omega) (by omega) (by omega)
        rw [List.getD_eq_getElem _ _ (by omega)] at hr hget
        omega
  next hshort =>
    refine .inl ⟨rfl, fun q hq => hshort ?_⟩
    exact hq.five_le

end

end HighlightCard

end MasterAI
