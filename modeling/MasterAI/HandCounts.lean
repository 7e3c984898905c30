import Mathlib.Data.List.Find
import MasterAI.HandScans

namespace MasterAI

namespace HoldemHandEvaluator

variable {cards l : List Int} {r x : Int}

/-- The highest rank with a property, if there is one. -/
def IsHighest (P : Int → Prop) : Option Int → Prop
  | none => ∀ r, 0 ≤ r → r ≤ 12 → ¬P r
  | some x => P x ∧ ∀ r, 0 ≤ r → r ≤ 12 → P r → r ≤ x

theorem mem_ranksDown : r ∈ ranksDown ↔ 0 ≤ r ∧ r ≤ 12 := by
  unfold ranksDown
  simp only [List.mem_cons, List.not_mem_nil, or_false]
  omega

/-- The first of some falling ranks is the highest one. -/
theorem le_of_find? {P : Int → Bool} (hl : l.Pairwise (· > ·)) (hfind : l.find? P = some x) (hr : r ∈ l)
    (hP : P r = true) : r ≤ x := by
  induction l with
  | nil => cases hr
  | cons y l ih =>
    obtain ⟨hy, hl⟩ := List.pairwise_cons.mp hl
    by_cases hPy : P y = true
    · rw [List.find?_cons_of_pos hPy] at hfind
      cases hfind
      rcases List.mem_cons.mp hr with rfl | hr
      · exact le_rfl
      · exact (hy r hr).le
    · rw [List.find?_cons_of_neg hPy] at hfind
      rcases List.mem_cons.mp hr with rfl | hr
      · exact absurd hP hPy
      · exact ih hl hfind hr

theorem isHighest_find? (P : Int → Bool) : IsHighest (fun r => P r = true) (ranksDown.find? P) := by
  cases hfind : ranksDown.find? P with
  | none => exact fun r hlow hhigh => List.find?_eq_none.mp hfind r (mem_ranksDown.mpr ⟨hlow, hhigh⟩)
  | some x =>
    exact ⟨List.find?_some hfind, fun r hlow hhigh hP =>
      le_of_find? (by decide) hfind (mem_ranksDown.mpr ⟨hlow, hhigh⟩) hP⟩

/-- What the loop over the counts knows of the ranks that it has passed. -/
structure CountsPassed (cards passed : List Int) (three pair pair2 : Option Int) : Prop where
  noFour : ∀ r ∈ passed, rankCounts cards r ≠ 4
  firstThree : three = passed.find? fun r => rankCounts cards r = 3
  firstPair : pair = passed.find? fun r => (rankCounts cards r = 2 ∨ rankCounts cards r = 3) ∧ some r ≠ three
  firstPair2 : three = none → pair2 = passed.find? fun r => rankCounts cards r = 2 ∧ some r ≠ pair

/-- The outcome of the loop over the counts. -/
def CountScan.Correct (cards : List Int) : CountScan → Prop
  | .quads r => r ∈ ranksDown ∧ rankCounts cards r = 4 ∧ ∀ q ∈ ranksDown, rankCounts cards q = 4 → q ≤ r
  | .ranks three pair pair2 => CountsPassed cards ranksDown three pair pair2

/-- Whether a rank is one that is taken already does not matter for ranks passed before. -/
theorem find?_ne_congr {passed : List Int} {P : Int → Prop} [DecidablePred P] {found found' : Option Int}
    (hfresh : r ∉ passed) (hfound : found' = found ∨ found = none ∧ found' = some r) :
    (passed.find? fun x => P x ∧ some x ≠ found') = passed.find? fun x => P x ∧ some x ≠ found := by
  rcases hfound with rfl | ⟨rfl, rfl⟩
  · rfl
  · refine List.find?_congr fun x hx => ?_
    have hne : x ≠ r := fun heq => hfresh (heq ▸ hx)
    simp [hne]

theorem CountsPassed.step {passed : List Int} {three pair pair2 three' pair' pair2' : Option Int}
    (h : CountsPassed cards passed three pair pair2) (hfresh : r ∉ passed) (hfour : rankCounts cards r ≠ 4)
    (hthree : three' = three.or (if rankCounts cards r = 3 then some r else none))
    (hpair : pair' = pair.or (if (rankCounts cards r = 2 ∨ rankCounts cards r = 3) ∧ some r ≠ three' then some r else none))
    (hpair2 : three' = none → pair2' = pair2.or (if rankCounts cards r = 2 ∧ some r ≠ pair' then some r else none)) :
    CountsPassed cards (passed ++ [r]) three' pair' pair2' := by
  have hor : ∀ (found : Option Int) (P : Prop) [Decidable P], found.or (if P then some r else none) = found ∨
      found = none ∧ found.or (if P then some r else none) = some r := by
    intro found P _
    cases found with
    | some x => exact Or.inl rfl
    | none =>
      by_cases hP : P
      · exact Or.inr ⟨rfl, by simp [hP]⟩
      · exact Or.inl (by simp [hP])
  refine ⟨?_, ?_, ?_, fun hnone => ?_⟩
  · intro q hq
    rcases List.mem_append.mp hq with hq | hq
    · exact h.noFour q hq
    · rw [List.mem_singleton.mp hq]
      exact hfour
  · rw [List.find?_append, List.find?_singleton, ← h.firstThree, hthree]
    simp
  · rw [List.find?_append, List.find?_singleton, find?_ne_congr hfresh (by rw [hthree]; exact hor three _), ← h.firstPair]
    simpa using hpair
  · have hthreeNone : three = none := by
      cases three with
      | none => rfl
      | some x =>
        rw [hthree] at hnone
        cases hnone
    rw [List.find?_append, List.find?_singleton, find?_ne_congr hfresh (by rw [hpair]; exact hor pair _),
      ← h.firstPair2 hthreeNone]
    simpa using hpair2 hnone

theorem scanCounts_spec {passed left : List Int} (hsplit : passed ++ left = ranksDown) {three pair pair2 : Option Int}
    (h : CountsPassed cards passed three pair pair2) : (scanCounts cards left three pair pair2).Correct cards := by
  induction left generalizing passed three pair pair2 with
  | nil =>
    rw [List.append_nil] at hsplit
    rw [hsplit] at h
    exact h
  | cons r left ih =>
    have hfalling : ranksDown.Pairwise (· > ·) := by decide
    rw [← hsplit] at hfalling
    obtain ⟨-, hleft, hbefore⟩ := List.pairwise_append.mp hfalling
    have hfresh : r ∉ passed := fun hmem => absurd (hbefore r hmem r (by simp)) (lt_irrefl r)
    have hnext : (passed ++ [r]) ++ left = ranksDown := by rw [List.append_assoc]; exact hsplit
    have hpassed : ∀ x, three = some x → x ∈ passed := fun x hx => List.mem_of_find?_eq_some (h.firstThree.symm.trans hx)
    have hpaired : ∀ x, pair = some x → x ∈ passed := fun x hx => List.mem_of_find?_eq_some (h.firstPair.symm.trans hx)
    unfold scanCounts
    dsimp only
    by_cases hfour : rankCounts cards r = 4
    · rw [if_pos hfour]
      refine ⟨by rw [← hsplit]; simp, hfour, fun q hq hq4 => ?_⟩
      rw [← hsplit] at hq
      rcases List.mem_append.mp hq with hq | hq
      · exact absurd hq4 (h.noFour q hq)
      · rcases List.mem_cons.mp hq with rfl | hq
        · exact le_rfl
        · exact ((List.pairwise_cons.mp hleft).1 q hq).le
    · rw [if_neg hfour]
      have hthreeNe : some r ≠ three := fun heq => hfresh (hpassed r heq.symm)
      have hpairNe : some r ≠ pair := fun heq => hfresh (hpaired r heq.symm)
      by_cases hthree : rankCounts cards r = 3
      · rw [if_pos hthree]
        cases three with
        | none =>
          rw [if_pos rfl]
          exact ih hnext (h.step hfresh hfour (by simp [hthree]) (by simp) fun hnone => absurd hnone (by simp))
        | some t =>
          rw [if_neg (by simp)]
          cases pair with
          | none =>
            rw [if_pos rfl]
            exact ih hnext (h.step hfresh hfour (by simp) (by simp [hthree, hthreeNe]) fun hnone => absurd hnone (by simp))
          | some p =>
            rw [if_neg (by simp)]
            exact ih hnext (h.step hfresh hfour (by simp) (by simp) fun hnone => absurd hnone (by simp))
      · rw [if_neg hthree]
        by_cases htwo : rankCounts cards r = 2
        · rw [if_pos htwo]
          cases pair with
          | none =>
            rw [if_pos rfl]
            exact ih hnext (h.step hfresh hfour (by simp [hthree]) (by simp [htwo, hthreeNe]) fun _ => by simp)
          | some p =>
            rw [if_neg (by simp)]
            cases pair2 with
            | none =>
              rw [if_pos rfl]
              exact ih hnext (h.step hfresh hfour (by simp [hthree]) (by simp) fun _ => by simp [htwo, hpairNe])
            | some q =>
              rw [if_neg (by simp)]
              exact ih hnext (h.step hfresh hfour (by simp [hthree]) (by simp) fun _ => by simp)
        · rw [if_neg htwo]
          exact ih hnext (h.step hfresh hfour (by simp [hthree]) (by simp [htwo, hthree]) fun _ => by simp [htwo])

/-- The ranks that the loop over the counts comes to are the highest of their kinds. -/
theorem CountsPassed.highest {three pair pair2 : Option Int} (h : CountsPassed cards ranksDown three pair pair2) :
    IsHighest (fun r => rankCounts cards r = 3) three ∧
      IsHighest (fun r => (rankCounts cards r = 2 ∨ rankCounts cards r = 3) ∧ some r ≠ three) pair ∧
      (three = none → IsHighest (fun r => rankCounts cards r = 2 ∧ some r ≠ pair) pair2) := by
  have hhighest : ∀ (P : Int → Prop) [DecidablePred P], IsHighest P (ranksDown.find? fun r => P r) := by
    intro P _
    have hfind := isHighest_find? fun r => decide (P r)
    simpa using hfind
  refine ⟨?_, ?_, fun hnone => ?_⟩
  · rw [h.firstThree]
    exact hhighest _
  · rw [h.firstPair]
    exact hhighest _
  · rw [h.firstPair2 hnone]
    exact hhighest _

end HoldemHandEvaluator

end MasterAI
