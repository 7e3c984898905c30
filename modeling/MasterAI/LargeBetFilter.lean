import MasterAI.RuleFilter

namespace MasterAI

section LargeBets

variable {T : Type} [PotThreshold T] (childNodes : List (List Char)) (betTo : Int) (potTh : T)

/-- The fraction of an action lies below the threshold. -/
def BelowThreshold (i : Nat) : Prop := ∃ potFrac, getPotFrac childNodes i betTo = some potFrac ∧ potFrac.below potTh

/-- An action is a raise whose fraction reaches the threshold. -/
def LargeRaise (i : Nat) : Prop :=
  ∃ child potFrac, childNodes[i]? = some child ∧ child ≠ ['c'] ∧ child ≠ ['f'] ∧
    getPotFrac childNodes i betTo = some potFrac ∧ ¬potFrac.below potTh

/-- An action is a raise to a bet that can be read, and whose fraction reaches the threshold. -/
def ReadLargeRaise (i : Nat) : Prop :=
  ∃ child strBetTo actionBetTo, childNodes[i]? = some child ∧ child ≠ ['c'] ∧ child ≠ ['f'] ∧
    substrOne child = some strBetTo ∧ scanI strBetTo = some actionBetTo ∧ ¬(raiseFrac betTo actionBetTo).below potTh

/-- Among the actions before one, the first of least regret, or the first action where all these regrets reach the
bound of the scan, is no raise that reaches the threshold. -/
def LeastRegretSmall (regVals : List Nat) (actionIdx : Nat) : Prop :=
  (∃ i val, i < actionIdx ∧ regVals[i]? = some val ∧ val < 2000000000 ∧
    (∀ j < i, ∀ other, regVals[j]? = some other → val < other) ∧
    (∀ j < actionIdx, ∀ other, regVals[j]? = some other → val ≤ other) ∧ ¬LargeRaise childNodes betTo potTh i) ∨
  ((∀ j < actionIdx, ∀ other, regVals[j]? = some other → 2000000000 ≤ other) ∧ ¬LargeRaise childNodes betTo potTh 0)

end LargeBets

/-- The condition under which the filter puts no large raise in the place of the chosen action. -/
def KeepsLargeRaisesOut (actionInfo : ActionInfo) (nodeInfo : NodeInfo) (regVals : List Nat) (actionIdx : Nat)
    (potTh : ℚ) : Prop :=
  ¬ReadLargeRaise nodeInfo.childNode actionInfo.betTo potTh actionIdx ∨ streetName.length ≤ nodeInfo.street ∨
    (∃ i < actionIdx, nodeInfo.childNode[i]? = some []) ∨ actionIdx = 0 ∨
    (∀ j, ¬BelowThreshold nodeInfo.childNode actionInfo.betTo potTh j) ∨
    LeastRegretSmall nodeInfo.childNode actionInfo.betTo potTh regVals actionIdx

section Filter

variable {T : Type} [PotThreshold T] {childNodes : List (List Char)} {betTo : Int} {potTh : T} {regVals : List Nat}
  {actionInfo : ActionInfo} {nodeInfo : NodeInfo} {actionIdx : Nat}

theorem substrOne_isSome {child : List Char} : (substrOne child).isSome ↔ child ≠ [] := by
  unfold substrOne
  split <;> simp_all

theorem getPotFrac_isSome (betTo : Int) {i : Nat} :
    (getPotFrac childNodes i betTo).isSome ↔ ∃ child, childNodes[i]? = some child ∧ child ≠ [] := by
  unfold getPotFrac
  cases hchild : childNodes[i]? with
  | none => simp
  | some child =>
    simp only [Option.bind_some, Option.some.injEq, exists_eq_left']
    split
    next hc => simp [hc]
    next =>
      split
      next hf => simp [hf]
      next => rw [Option.isSome_map, substrOne_isSome]

theorem pushSmallBet_isSome {i : Nat} (hi : i < regVals.length) :
    (pushSmallBet childNodes regVals betTo potTh i).isSome ↔ ∃ child, childNodes[i]? = some child ∧ child ≠ [] := by
  rw [← getPotFrac_isSome betTo, pushSmallBet]
  cases getPotFrac childNodes i betTo with
  | none => simp
  | some potFrac => simp [hi]

/-- An action is pushed with its own index and regret, be it small or large. -/
theorem mem_pushSmallBet {i : Nat} {more : List (Nat × Nat)}
    (h : pushSmallBet childNodes regVals betTo potTh i = some more) {e : Nat × Nat} :
    e ∈ more ↔ e.1 = i ∧ regVals[i]? = some e.2 := by
  obtain ⟨potFrac, _, h⟩ := Option.bind_eq_some_iff.mp h
  obtain ⟨val, hval, rfl⟩ := Option.map_eq_some_iff.mp h
  have hself : e ∈ [(i, val)] ↔ e.1 = i ∧ regVals[i]? = some e.2 := by
    rw [List.mem_singleton, hval, Option.some.injEq, Prod.ext_iff]
    exact ⟨fun he => ⟨he.1, he.2.symm⟩, fun he => ⟨he.1, he.2.symm⟩⟩
  rw [List.mem_append, hself]
  split
  · rw [hself, or_self]
  · simp

theorem mem_candidates {candidates : List (Nat × Nat)}
    (h : collectLoop (pushSmallBet childNodes regVals betTo potTh) actionIdx = some candidates) {e : Nat × Nat} :
    e ∈ candidates ↔ e.1 < actionIdx ∧ regVals[e.1]? = some e.2 := by
  rw [mem_collectLoop h]
  constructor
  · rintro ⟨i, hi, more, hmore, hmem⟩
    obtain ⟨rfl, hval⟩ := (mem_pushSmallBet hmore).mp hmem
    exact ⟨hi, hval⟩
  · rintro ⟨hi, hval⟩
    have hall := collectLoop_isSome.mp (by rw [h]; rfl)
    obtain ⟨more, hmore⟩ := Option.isSome_iff_exists.mp (hall e.1 hi)
    exact ⟨e.1, hi, more, hmore, (mem_pushSmallBet hmore).mpr ⟨rfl, hval⟩⟩

/-- What the choice of least regret means for the actions before the chosen one. -/
theorem chooseIdxByMinReg_candidates {candidates : List (Nat × Nat)}
    (h : collectLoop (pushSmallBet childNodes regVals betTo potTh) actionIdx = some candidates) :
    (chooseIdxByMinReg candidates = 0 ∧ ∀ j < actionIdx, ∀ other, regVals[j]? = some other → 2000000000 ≤ other) ∨
      ∃ i val, chooseIdxByMinReg candidates = i ∧ i < actionIdx ∧ regVals[i]? = some val ∧ val < 2000000000 ∧
        (∀ j < i, ∀ other, regVals[j]? = some other → val < other) ∧
        ∀ j < actionIdx, ∀ other, regVals[j]? = some other → val ≤ other := by
  rcases chooseIdxByMinReg_spec candidates with ⟨hzero, hlarge⟩ | ⟨e, he, hbest⟩
  · exact .inl ⟨hzero, fun j hj other hother => hlarge (j, other) ((mem_candidates h).mpr ⟨hj, hother⟩)⟩
  · obtain ⟨hlt, hval⟩ := (mem_candidates h).mp hbest.mem
    have hsorted := collectLoop_sorted (fun i more hmore e he => ((mem_pushSmallBet hmore).mp he).1) h
    refine .inr ⟨e.1, e.2, he, hlt, hval, hbest.1, fun j hj other hother => ?_, fun j hj other hother => ?_⟩
    · exact hbest.better_of_key_lt hsorted (j, other) ((mem_candidates h).mpr ⟨hj.trans hlt, hother⟩) hj
    · exact not_lt.mp (hbest.not_better (by omega) (j, other) ((mem_candidates h).mpr ⟨hj, hother⟩))

theorem filterLargeRaise_of_read {filter : Option Nat} (hread : ReadLargeRaise childNodes betTo potTh actionIdx) :
    filterLargeRaise childNodes betTo actionIdx potTh filter = filter := by
  obtain ⟨child, strBetTo, actionBetTo, hchild, hc, hf, hstr, hscan, hlarge⟩ := hread
  rw [filterLargeRaise, hchild, Option.bind_some, if_neg (not_or.mpr ⟨hc, hf⟩), hstr, Option.bind_some, hscan,
    Option.elim_some, if_neg hlarge]

/-- Any other action stays, if it has a text. -/
theorem filterLargeRaise_of_not_read {filter : Option Nat} (hread : ¬ReadLargeRaise childNodes betTo potTh actionIdx) :
    filterLargeRaise childNodes betTo actionIdx potTh filter =
      if ∃ child, childNodes[actionIdx]? = some child ∧ child ≠ [] then some actionIdx else none := by
  rw [filterLargeRaise]
  cases hchild : childNodes[actionIdx]? with
  | none => simp
  | some child =>
    simp only [Option.bind_some, Option.some.injEq, exists_eq_left']
    split
    next hcall =>
      rw [if_pos]
      rintro rfl
      simp at hcall
    next hraise =>
      cases hstr : substrOne child with
      | none =>
        have hempty : ¬child ≠ [] := fun hne => by simpa [hstr] using substrOne_isSome.mpr hne
        rw [if_neg hempty, Option.bind_none]
      | some strBetTo =>
        have hne : child ≠ [] := substrOne_isSome.mp (by rw [hstr]; rfl)
        rw [if_pos hne, Option.bind_some]
        cases hscan : scanI strBetTo with
        | none => rfl
        | some actionBetTo =>
          rw [Option.elim_some, if_pos]
          by_contra hlarge
          have hnot := not_or.mp hraise
          exact hread ⟨child, strBetTo, actionBetTo, hchild, hnot.1, hnot.2, hstr, hscan, hlarge⟩

theorem filterLargeBetAction_of_not_read
    (hread : ¬ReadLargeRaise nodeInfo.childNode actionInfo.betTo potTh actionIdx) {r : Nat}
    (h : filterLargeBetAction actionInfo nodeInfo regVals actionIdx potTh = some r) : r = actionIdx := by
  rw [filterLargeBetAction, filterLargeRaise_of_not_read hread] at h
  split at h
  · exact (Option.some.inj h).symm
  · simp at h

theorem filterLargeBetAction_of_read
    (hread : ReadLargeRaise nodeInfo.childNode actionInfo.betTo potTh actionIdx) {r : Nat}
    (h : filterLargeBetAction actionInfo nodeInfo regVals actionIdx potTh = some r) :
    nodeInfo.street < streetName.length ∧ ∃ candidates,
      collectLoop (pushSmallBet nodeInfo.childNode regVals actionInfo.betTo potTh) actionIdx = some candidates ∧
        r = chooseIdxByMinReg candidates := by
  rw [filterLargeBetAction, filterLargeRaise_of_read hread] at h
  obtain ⟨candidates, hcandidates, h⟩ := Option.bind_eq_some_iff.mp h
  split at h
  next hlog => exact ⟨hlog.1, candidates, hcandidates, (Option.some.inj h).symm⟩
  next => simp at h

theorem filterLargeBetAction_returns (hidx : actionIdx < nodeInfo.childNode.length)
    (hvals : regVals.length = nodeInfo.childNode.length)
    (hread : ReadLargeRaise nodeInfo.childNode actionInfo.betTo potTh actionIdx)
    (hstreet : nodeInfo.street < streetName.length) (htexts : ∀ i < actionIdx, nodeInfo.childNode[i]? ≠ some []) :
    ∃ candidates,
      collectLoop (pushSmallBet nodeInfo.childNode regVals actionInfo.betTo potTh) actionIdx = some candidates ∧
        filterLargeBetAction actionInfo nodeInfo regVals actionIdx potTh = some (chooseIdxByMinReg candidates) := by
  have hsome : (collectLoop (pushSmallBet nodeInfo.childNode regVals actionInfo.betTo potTh) actionIdx).isSome := by
    refine collectLoop_isSome.mpr fun i hi => (pushSmallBet_isSome (by omega)).mpr ?_
    have hlt : i < nodeInfo.childNode.length := by omega
    refine ⟨nodeInfo.childNode[i], List.getElem?_eq_getElem hlt, fun hnil => htexts i hi ?_⟩
    rw [List.getElem?_eq_getElem hlt, hnil]
  obtain ⟨candidates, hcandidates⟩ := Option.isSome_iff_exists.mp hsome
  have hfinal : chooseIdxByMinReg candidates < nodeInfo.childNode.length := by
    rcases chooseIdxByMinReg_candidates hcandidates with ⟨hzero, _⟩ | ⟨i, _, hi, hlt, _⟩
    · omega
    · omega
  refine ⟨candidates, hcandidates, ?_⟩
  rw [filterLargeBetAction, filterLargeRaise_of_read hread, hcandidates, Option.bind_some]
  exact if_pos ⟨hstreet, by omega, hfinal, by omega⟩

/-- The condition on the regrets speaks of the action that the scan chooses. -/
theorem LeastRegretSmall.choice {candidates : List (Nat × Nat)}
    (hleast : LeastRegretSmall childNodes betTo potTh regVals actionIdx)
    (h : collectLoop (pushSmallBet childNodes regVals betTo potTh) actionIdx = some candidates) :
    ¬LargeRaise childNodes betTo potTh (chooseIdxByMinReg candidates) := by
  rcases chooseIdxByMinReg_candidates h with ⟨hzero, hlarge⟩ | ⟨i, val, hi, hlt, hval, hbound, hfirst, hmin⟩
  · rcases hleast with ⟨k, other, hk, hother, hsmall, _⟩ | ⟨_, hnot⟩
    · have hle := hlarge k hk other hother
      omega
    · rw [hzero]
      exact hnot
  · rcases hleast with ⟨k, other, hk, hother, _, hkfirst, hkmin, hnot⟩ | ⟨hlarge, _⟩
    · have hle := hmin k hk other hother
      have hge := hkmin i hlt val hval
      have hik : ¬i < k := fun hik => by
        have hless := hkfirst i hik val hval
        omega
      have hki : ¬k < i := fun hki => by
        have hless := hfirst k hki other hother
        omega
      rw [hi, show i = k by omega]
      exact hnot
    · have hle := hlarge i hlt val hval
      omega

/-- The action in the place of a large raise is no large raise itself exactly where the candidate of least regret is
none, or the filter is not reached. -/
theorem filterLargeBetAction_small_iff (actionInfo : ActionInfo) (potTh : ℚ)
    (hidx : actionIdx < nodeInfo.childNode.length) (hvals : regVals.length = nodeInfo.childNode.length) :
    (∀ r, filterLargeBetAction actionInfo nodeInfo regVals actionIdx potTh = some r → r ≠ actionIdx →
      (∃ j, BelowThreshold nodeInfo.childNode actionInfo.betTo potTh j) →
        ¬LargeRaise nodeInfo.childNode actionInfo.betTo potTh r) ↔
      KeepsLargeRaisesOut actionInfo nodeInfo regVals actionIdx potTh := by
  constructor
  · intro hkeeps
    by_contra hout
    simp only [KeepsLargeRaisesOut, not_or, not_not, not_exists, not_and, not_le, not_forall] at hout
    obtain ⟨hread, hstreet, htexts, hpos, ⟨j, hj⟩, hleast⟩ := hout
    obtain ⟨candidates, hcandidates, hreturns⟩ := filterLargeBetAction_returns hidx hvals hread hstreet htexts
    have hsmall := hkeeps _ hreturns
    rcases chooseIdxByMinReg_candidates hcandidates with ⟨hzero, hlarge⟩ | ⟨i, val, hi, hlt, hval, hbound, hfirst, hmin⟩
    · rw [hzero] at hsmall
      exact hleast (.inr ⟨hlarge, hsmall (Ne.symm hpos) ⟨j, hj⟩⟩)
    · rw [hi] at hsmall
      exact hleast (.inl ⟨i, val, hlt, hval, hbound, hfirst, hmin, hsmall (by omega) ⟨j, hj⟩⟩)
  · intro hkeeps r hr hne hbelow
    by_cases hread : ReadLargeRaise nodeInfo.childNode actionInfo.betTo potTh actionIdx
    · obtain ⟨hstreet, candidates, hcandidates, rfl⟩ := filterLargeBetAction_of_read hread hr
      rcases hkeeps with hnot | hhigh | ⟨i, hi, hempty⟩ | hzero | hnone | hleast
      · exact absurd hread hnot
      · omega
      · have hsome := collectLoop_isSome.mp (by rw [hcandidates]; rfl) i hi
        have hlt : i < regVals.length := by omega
        obtain ⟨child, hchild, hne⟩ := (pushSmallBet_isSome hlt).mp hsome
        rw [hempty, Option.some.injEq] at hchild
        exact absurd hchild.symm hne
      · rcases chooseIdxByMinReg_candidates hcandidates with ⟨hfirst, _⟩ | ⟨i, _, _, hlt, _⟩
        · omega
        · omega
      · exact absurd hbelow (not_exists.mpr hnone)
      · exact hleast.choice hcandidates
    · exact absurd (filterLargeBetAction_of_not_read hread hr) hne

end Filter

/-- A call, a raise of the pot and a raise of twice the pot. -/
def potRaises : NodeInfo := ⟨0, 1, 0, [['c'], ['r', '1', '2'], ['r', '2', '0']]⟩

def potRaisesInfo : ActionInfo := ⟨[0, 5, 10, 99, 99], [20, 30], 1, [], 4, -1⟩

theorem filterLargeBetAction_small_potRaises :
    2 < potRaises.childNode.length ∧
      ∀ r, filterLargeBetAction potRaisesInfo potRaises [5, 10, 0] 2 (3 / 4 : ℚ) = some r → r ≠ 2 →
        (∃ j, BelowThreshold potRaises.childNode 4 (3 / 4 : ℚ) j) → ¬LargeRaise potRaises.childNode 4 (3 / 4 : ℚ) r := by
  refine ⟨by decide, (filterLargeBetAction_small_iff potRaisesInfo (3 / 4) (by decide) (by decide)).mpr ?_⟩
  refine .inr (.inr (.inr (.inr (.inr (.inl ⟨0, 5, by decide, by decide, by decide, by simp, ?_, ?_⟩)))))
  · intro j hj other hother
    obtain rfl | rfl : j = 0 ∨ j = 1 := by omega
    · exact (Option.some.inj hother).le
    · have hvalue := Option.some.inj hother
      omega
  · rintro ⟨child, _, hchild, hc, _⟩
    exact hc (Option.some.inj hchild).symm

/-- The raise of the pot takes the place of the raise of twice the pot, although there is a call. -/
theorem filterLargeBetAction_large_to_large :
    ¬∀ (actionInfo : ActionInfo) (nodeInfo : NodeInfo) (regVals : List Nat) (actionIdx : Nat) (potTh : ℚ),
      actionIdx < nodeInfo.childNode.length → regVals.length = nodeInfo.childNode.length →
        ∀ r, filterLargeBetAction actionInfo nodeInfo regVals actionIdx potTh = some r → r ≠ actionIdx →
          (∃ j, BelowThreshold nodeInfo.childNode actionInfo.betTo potTh j) →
            ¬LargeRaise nodeInfo.childNode actionInfo.betTo potTh r := by
  intro hall
  have hresult : filterLargeBetAction potRaisesInfo potRaises [50, 10, 0] 2 (3 / 4 : ℚ) = some 1 := by decide +kernel
  have hcall : getPotFrac potRaises.childNode 0 4 = some ⟨0, 1⟩ := by decide +kernel
  have hraise : getPotFrac potRaises.childNode 1 4 = some ⟨8, 8⟩ := by decide +kernel
  refine hall potRaisesInfo potRaises [50, 10, 0] 2 (3 / 4) (by decide) (by decide) 1 hresult (by decide)
    ⟨0, _, hcall, by decide +kernel⟩ ⟨['r', '1', '2'], _, by decide, by decide, by decide, hraise, by decide +kernel⟩

end MasterAI
