import MasterAI.DTRobot
import MasterAI.LargeBetFilter

namespace MasterAI

namespace DTRobot

section Condition

variable (g : SGame) (trees : HandValueTree) (actionParam : ActionParam) (modelParam : ModelParam)
  (actionInfo : ActionInfo) (nodeInfo : NodeInfo) (vals : List Nat) (st : Fin 4)

/-- The threshold is not used, or its rounded product with the greatest value is a number above minus one. -/
def SumprobInRange : Prop :=
  actionParam.filterFlags st = false ∨ (Double.ofInt 1).le (actionParam.frmThs st) = true ∨
    ∃ x, (Double.ofInt (maxVal vals)).mul (actionParam.frmThs st) = .finite x ∧ -1 < x

/-- No action before one has an empty text. -/
def TextsBefore (actionIdx : Nat) : Prop := ∀ i < actionIdx, nodeInfo.childNode[i]? ≠ some []

def FlopFilterInRange (actionIdx : Nat) (potTh : Double) : Prop :=
  nodeInfo.childNode[actionIdx]? ≠ some [] ∧
    (ReadLargeRaise nodeInfo.childNode actionInfo.betTo potTh actionIdx →
      ∃ board keeps, sortCards ((actionInfo.boardCards.take 3).map Int.toNat) = some board ∧
        HandMaker.keepsLargeBet g trees (board.getD 0 0) (board.getD 1 0) (board.getD 2 0)
          ((actionInfo.hcpCards.take 2).map Int.toNat) = some keeps ∧
        (keeps = true ∨ TextsBefore nodeInfo actionIdx))

def AllinFilterInRange (actionIdx : Nat) : Prop :=
  nodeInfo.childNode[actionIdx]? = some ['r', '2', '0', '0'] → nodeInfo.street < streetName.length

def LargeBetFilterInRange (actionIdx : Nat) (potTh : Double) : Prop :=
  nodeInfo.childNode[actionIdx]? ≠ some [] ∧
    (ReadLargeRaise nodeInfo.childNode actionInfo.betTo potTh actionIdx →
      nodeInfo.street < streetName.length ∧ TextsBefore nodeInfo actionIdx)

/-- The filter of the street and the rule, if there is one, stays inside its arrays for the first action without regret. -/
def RegretInRange : Prop :=
  actionParam.filterFlags st = true →
    (actionParam.ruleTypes st = 1 → (st : Nat) = 1 →
      FlopFilterInRange g trees actionInfo nodeInfo (getPureIdx vals false) (actionParam.potThs st)) ∧
    (actionParam.ruleTypes st = 1 → 2 ≤ (st : Nat) → AllinFilterInRange nodeInfo (getPureIdx vals false)) ∧
    (actionParam.ruleTypes st = 2 →
      LargeBetFilterInRange actionInfo nodeInfo (getPureIdx vals false) (actionParam.potThs st))

/-- Each action fits the buffer of `FormatStr` with its value. -/
def FormatFits : Prop :=
  ∀ (i : Nat) child val, nodeInfo.childNode[i]? = some child → vals[i]? = some val → (formatOne child val).isSome

/-- The hole cards are refused before the street is read, or the street is one of the four and the cards are refused,
or the branch of the street stays inside its arrays. -/
def InRange : Prop :=
  checkCardsFrom [] (actionInfo.hcpCards.take 2) = none ∨
    ∃ st : Fin 4, actionInfo.st = (st : Nat) ∧
      (checkCards actionInfo = false ∨
        FormatFits nodeInfo vals ∧
          if modelParam.sumprobFlag st then SumprobInRange actionParam vals st
          else RegretInRange g trees actionParam actionInfo nodeInfo vals st)

/-- The call gives an error, or the text of an action of the node, one of the kept candidates where the threshold of the
probabilities is used. -/
def Answers (r : Double) : Prop :=
  doAction g trees actionParam actionInfo nodeInfo vals modelParam r = some (.error errInvalidCard) ∨
    ∃ (st : Fin 4) (finalIdx : Nat) (actionStr rateStr : List Char), actionInfo.st = (st : Nat) ∧
      chooseAction g trees actionParam actionInfo nodeInfo vals st modelParam r = some finalIdx ∧
      nodeInfo.childNode[finalIdx]? = some actionStr ∧
      doAction g trees actionParam actionInfo nodeInfo vals modelParam r = some (.ok (actionStr, rateStr)) ∧
      (modelParam.sumprobFlag st = true → actionParam.filterFlags st = true →
        (Double.ofInt 1).le (actionParam.frmThs st) = false → ∃ candidateAction, frmChooseCandidate vals true (actionParam.frmThs st) = some candidateAction ∧
          finalIdx ∈ candidateAction.map Prod.fst)

end Condition

section Choice

variable {g : SGame} {trees : HandValueTree} {actionParam : ActionParam} {modelParam : ModelParam}
  {actionInfo : ActionInfo} {nodeInfo : NodeInfo} {vals : List Nat} {st : Fin 4} {actionIdx finalIdx n : Nat}
  {potTh r : Double} {childNodes : List (List Char)} {betTo : Int}

theorem streetIdx_eq_some {x : Int} : streetIdx x = some st ↔ x = (st : Nat) := by
  unfold streetIdx
  split
  next h =>
    rw [Option.some.injEq, Fin.ext_iff]
    dsimp only
    omega
  next h =>
    have hlt := st.isLt
    simp only [reduceCtorEq, false_iff]
    omega

theorem checkCardsAt_of_hole (h : checkCardsFrom [] (actionInfo.hcpCards.take 2) = none) :
    checkCardsAt actionInfo = some false := by
  rw [checkCardsAt, h]
  rfl

/-- On one of the four streets the check is that of the cards alone. -/
theorem checkCardsAt_of_street (hst : actionInfo.st = (st : Nat)) : checkCardsAt actionInfo = some (checkCards actionInfo) := by
  have htoNat : actionInfo.st.toNat = st := by omega
  rw [checkCardsAt, checkCards, htoNat, streetIdx_eq_some.mpr hst]
  cases checkCardsFrom [] (actionInfo.hcpCards.take 2) with
  | none => rfl
  | some existing => rfl

theorem checkCardsAt_isSome :
    (checkCardsAt actionInfo).isSome ↔
      checkCardsFrom [] (actionInfo.hcpCards.take 2) = none ∨ ∃ st : Fin 4, actionInfo.st = (st : Nat) := by
  rw [checkCardsAt]
  cases checkCardsFrom [] (actionInfo.hcpCards.take 2) with
  | none => simp
  | some existing =>
    simp only [Option.elim_some, Option.isSome_map, Option.isSome_iff_exists, streetIdx_eq_some, reduceCtorEq, false_or]

theorem candidateProbs_keys (candidateAction : List (Nat × Nat)) :
    (candidateProbs candidateAction).map Prod.fst = candidateAction.map Prod.fst := by
  rw [candidateProbs]
  split
  · rw [List.map_map]
    have hfst : (Prod.fst ∘ fun e : (Nat × Nat) × Nat => (e.1.1, if e.2 = 0 then Double.ofInt 1 else Double.ofInt 0)) =
        Prod.fst ∘ Prod.fst := rfl
    rw [hfst, ← List.map_map, List.zipIdx_map_fst]
  · rw [List.map_map]
    rfl

theorem chooseIdxByRm_candidate {candidateAction : List (Nat × Nat)} (hne : candidateAction ≠ []) :
    ∃ i ∈ candidateAction.map Prod.fst, chooseIdxByRm r (candidateProbs candidateAction) = some i := by
  have hprobs : candidateProbs candidateAction ≠ [] := by
    intro hnil
    have hkeys := candidateProbs_keys candidateAction
    rw [hnil, List.map_nil] at hkeys
    exact hne (List.map_eq_nil_iff.mp hkeys.symm)
  obtain ⟨e, hmem, hchoose⟩ := chooseIdxFrom_mem (r := r) hprobs (.ofInt 0)
  refine ⟨e.1, ?_, hchoose⟩
  rw [← candidateProbs_keys]
  exact List.mem_map_of_mem hmem

variable (actionParam st) in
/-- The branch for probabilities: where it answers, and what the answer is. -/
theorem chooseBySumprob_spec (hne : vals ≠ []) (hvals : maxVal vals < 4294967296) (r : Double) :
    ((chooseBySumprob actionParam vals st r).isSome ↔ SumprobInRange actionParam vals st) ∧
      ∀ i, chooseBySumprob actionParam vals st r = some i → i < vals.length ∧
        (actionParam.filterFlags st = true → (Double.ofInt 1).le (actionParam.frmThs st) = false →
          ∃ candidateAction, frmChooseCandidate vals true (actionParam.frmThs st) = some candidateAction ∧
            i ∈ candidateAction.map Prod.fst) := by
  unfold chooseBySumprob SumprobInRange
  by_cases hpure : actionParam.filterFlags st = false ∨ (Double.ofInt 1).le (actionParam.frmThs st) = true
  · rw [if_pos hpure]
    refine ⟨?_, ?_⟩
    · simp only [Option.isSome_some, true_iff, ← or_assoc]
      exact .inl hpure
    · intro i hi
      rw [← Option.some.inj hi]
      refine ⟨getPureIdx_lt hne true, fun hflag hth => ?_⟩
      rcases hpure with hoff | hone
      · rw [hflag] at hoff
        cases hoff
      · rw [hth] at hone
        cases hone
  · rw [if_neg hpure]
    obtain ⟨hflag, hnot⟩ := not_or.mp hpure
    have hth := Bool.eq_false_iff.mpr hnot
    have hsome := frmChooseCandidate_isSome hvals hth true
    cases hfrm : frmChooseCandidate vals true (actionParam.frmThs st) with
    | none =>
      rw [hfrm] at hsome
      refine ⟨?_, by simp⟩
      simp only [Option.bind_none, Option.isSome_none, Bool.false_eq_true, false_iff, not_or]
      exact ⟨hflag, hnot, fun hlow => by simpa using hsome.mpr hlow⟩
    | some candidateAction =>
      obtain ⟨i, hmem, hchoose⟩ := chooseIdxByRm_candidate (r := r)
        (frmChooseCandidate_ne_nil hne hvals hth hfrm)
      rw [hfrm] at hsome
      rw [Option.bind_some, hchoose]
      refine ⟨?_, ?_⟩
      · simp only [Option.isSome_some, true_iff]
        exact .inr (.inr (hsome.mp rfl))
      · intro j hj
        rw [← Option.some.inj hj]
        obtain ⟨e, he, rfl⟩ := List.mem_map.mp hmem
        obtain ⟨valTh, -, hkept⟩ := mem_frmChooseCandidate hfrm
        have hval := ((hkept e).mp he).1
        exact ⟨(List.getElem?_eq_some_iff.mp hval).1, fun _ _ => ⟨candidateAction, rfl, hmem⟩⟩

theorem chooseIdxByMinReg_lt {candidates : List (Nat × Nat)} (hpos : 0 < n) (hlt : ∀ e ∈ candidates, e.1 < n) :
    chooseIdxByMinReg candidates < n := by
  rcases scanBest_mem_or_start (· < ·) (0, 2000000000) candidates with hstart | hmem
  · rw [chooseIdxByMinReg, hstart]
    exact hpos
  · exact hlt _ hmem

/-- A loop over the actions before one ends where none of their texts is empty. -/
theorem collectLoop_texts (push : Nat → Option (List (Nat × Nat))) (hidx : actionIdx ≤ nodeInfo.childNode.length)
    (hpush : ∀ i < actionIdx, (push i).isSome ↔ ∃ child, nodeInfo.childNode[i]? = some child ∧ child ≠ []) :
    (collectLoop push actionIdx).isSome ↔ TextsBefore nodeInfo actionIdx := by
  rw [collectLoop_isSome]
  constructor
  · intro hall i hi hempty
    obtain ⟨child, hchild, hne⟩ := (hpush i hi).mp (hall i hi)
    rw [hempty, Option.some.injEq] at hchild
    exact hne hchild.symm
  · intro htexts i hi
    have hlt : i < nodeInfo.childNode.length := by omega
    refine (hpush i hi).mpr ⟨nodeInfo.childNode[i], List.getElem?_eq_getElem hlt, fun hnil => htexts i hi ?_⟩
    rw [List.getElem?_eq_getElem hlt, hnil]

theorem pushFlopBet_isSome {i : Nat} (hi : i < vals.length) :
    (pushFlopBet childNodes vals betTo potTh i).isSome ↔ ∃ child, childNodes[i]? = some child ∧ child ≠ [] := by
  rw [← getPotFrac_isSome betTo, pushFlopBet]
  cases hfrac : getPotFrac childNodes i betTo with
  | none =>
    cases childNodes[i]? with
    | none => simp
    | some child => simp
  | some potFrac =>
    obtain ⟨child, hchild, _⟩ := (getPotFrac_isSome betTo).mp (by rw [hfrac]; rfl)
    rw [hchild, Option.bind_some, Option.bind_some]
    split
    · simp [hi]
    · simp

theorem pushFlopBet_key {i : Nat} {more : List (Nat × Nat)} (h : pushFlopBet childNodes vals betTo potTh i = some more) :
    ∀ e ∈ more, e.1 = i := by
  obtain ⟨child, _, h⟩ := Option.bind_eq_some_iff.mp h
  obtain ⟨potFrac, _, h⟩ := Option.bind_eq_some_iff.mp h
  split at h
  · obtain ⟨val, _, rfl⟩ := Option.map_eq_some_iff.mp h
    simp
  · obtain rfl := Option.some.inj h
    simp

/-- With loaded tables, checked cards on the flop and no empty texts the filter of the flop stays in range. -/
theorem flopFilterInRange_of_loaded {files : StaticFiles} {tables : HandValueTree.HandTables files g}
    (hloaded : HandValueTree.Loaded tables trees) (hsuits : 2 ≤ g.numSuits) (hranks : 4 ≤ g.numRanks)
    (hdeck : 52 ≤ g.numCardsInDeck) (hsituation : Situation 1 actionInfo)
    (htext : nodeInfo.childNode[actionIdx]? ≠ some []) (htexts : TextsBefore nodeInfo actionIdx) :
    FlopFilterInRange g trees actionInfo nodeInfo actionIdx potTh := by
  refine ⟨htext, fun _ => ?_⟩
  have hlength : ((actionInfo.boardCards.take 3).map Int.toNat).length = 3 := by
    rw [List.length_map, List.length_take, hsituation.board]
    rfl
  obtain ⟨board, hsorted⟩ := sortCards_isSome _ (.inr (.inr hlength))
  have hperm := sortCards_perm hsorted
  obtain ⟨c0, c1, c2, rfl⟩ := List.length_eq_three.mp (hperm.length_eq.trans hlength)
  obtain ⟨hnodup, hlt⟩ := hsituation.nats
  have hflop : actionInfo.boardNats.take (SGame.holdem.numBoardCards 1) = (actionInfo.boardCards.take 3).map Int.toNat :=
    List.map_take.symm
  rw [hflop] at hnodup hlt
  have hall : ([c0, c1, c2] ++ actionInfo.holeNats).Perm
      (actionInfo.holeNats ++ (actionInfo.boardCards.take 3).map Int.toNat) :=
    (hperm.append_right _).trans List.perm_append_comm
  have hhole : (actionInfo.hcpCards.take 2).map Int.toNat = actionInfo.holeNats := by
    rw [List.take_of_length_le hsituation.hole.le]
    rfl
  have hkeeps := HandMaker.keepsLargeBet_isSome hloaded hsuits hranks (by rw [ActionInfo.holeNats, List.length_map, hsituation.hole])
    (hall.nodup_iff.mpr hnodup) fun c hc => lt_of_lt_of_le (hlt c (hall.mem_iff.mp hc)) hdeck
  obtain ⟨keeps, hkeeps⟩ := Option.isSome_iff_exists.mp hkeeps
  refine ⟨[c0, c1, c2], keeps, hsorted, ?_, .inr htexts⟩
  rw [hhole]
  exact hkeeps

/-- What a shared start means for a filter: it answers for an action with a text, where the filter does once it is
reached. -/
theorem filterLargeRaise_spec {filter : Option Nat} (hidx : actionIdx < nodeInfo.childNode.length)
    (hfilter : ∀ i, filter = some i → i < nodeInfo.childNode.length) :
    ((filterLargeRaise nodeInfo.childNode betTo actionIdx potTh filter).isSome ↔
      nodeInfo.childNode[actionIdx]? ≠ some [] ∧
        (ReadLargeRaise nodeInfo.childNode betTo potTh actionIdx → filter.isSome)) ∧
      ∀ i, filterLargeRaise nodeInfo.childNode betTo actionIdx potTh filter = some i → i < nodeInfo.childNode.length := by
  by_cases hread : ReadLargeRaise nodeInfo.childNode betTo potTh actionIdx
  · rw [filterLargeRaise_of_read hread]
    refine ⟨⟨fun hsome => ⟨?_, fun _ => hsome⟩, fun h => h.2 hread⟩, hfilter⟩
    obtain ⟨child, strBetTo, _, hchild, _, _, hstr, _⟩ := hread
    rw [hchild, ne_eq, Option.some.injEq]
    exact substrOne_isSome.mp (by rw [hstr]; rfl)
  · rw [filterLargeRaise_of_not_read hread]
    have hchild := List.getElem?_eq_getElem hidx
    split
    next htext =>
      obtain ⟨child, hfound, hne⟩ := htext
      refine ⟨?_, fun i hi => ?_⟩
      · simp only [Option.isSome_some, true_iff]
        refine ⟨?_, fun hlarge => absurd hlarge hread⟩
        rw [hfound, ne_eq, Option.some.injEq]
        exact hne
      · rw [← Option.some.inj hi]
        exact hidx
    next hempty =>
      refine ⟨?_, by simp⟩
      simp only [Option.isSome_none, Bool.false_eq_true, false_iff, not_and]
      intro hne
      exact absurd ⟨_, hchild, fun hnil => hne (by rw [hchild, hnil])⟩ hempty

theorem filterLargeBetAction_spec (hidx : actionIdx < nodeInfo.childNode.length)
    (hvals : vals.length = nodeInfo.childNode.length) :
    ((filterLargeBetAction actionInfo nodeInfo vals actionIdx potTh).isSome ↔
      LargeBetFilterInRange actionInfo nodeInfo actionIdx potTh) ∧
      ∀ i, filterLargeBetAction actionInfo nodeInfo vals actionIdx potTh = some i → i < nodeInfo.childNode.length := by
  have htexts := collectLoop_texts (pushSmallBet nodeInfo.childNode vals actionInfo.betTo potTh) hidx.le
    fun i hi => pushSmallBet_isSome (by omega)
  rw [filterLargeBetAction]
  refine (filterLargeRaise_spec hidx ?_).imp (fun hsome => hsome.trans ?_) id
  · intro i hi
    obtain ⟨candidates, _, hi⟩ := Option.bind_eq_some_iff.mp hi
    split at hi
    next hlog =>
      rw [← Option.some.inj hi]
      exact hlog.2.2.1
    next => simp at hi
  · refine and_congr_right fun _ => imp_congr_right fun _ => ?_
    rw [← htexts]
    cases hcandidates : collectLoop (pushSmallBet nodeInfo.childNode vals actionInfo.betTo potTh) actionIdx with
    | none => simp
    | some candidates =>
      have hfinal : chooseIdxByMinReg candidates < nodeInfo.childNode.length :=
        chooseIdxByMinReg_lt (by omega) fun e he => ((mem_candidates hcandidates).mp he).1.trans hidx
      rw [Option.bind_some]
      split
      next hlog => simp [hlog.1]
      next hlog =>
        have hstreet : ¬nodeInfo.street < streetName.length := fun hstreet =>
          hlog ⟨hstreet, by omega, hfinal, by omega⟩
        simp [hstreet]

theorem filterFlopLargeBetAction_spec (hidx : actionIdx < nodeInfo.childNode.length)
    (hvals : vals.length = nodeInfo.childNode.length) :
    ((filterFlopLargeBetAction g trees actionInfo nodeInfo vals actionIdx potTh).isSome ↔
      FlopFilterInRange g trees actionInfo nodeInfo actionIdx potTh) ∧
      ∀ i, filterFlopLargeBetAction g trees actionInfo nodeInfo vals actionIdx potTh = some i →
        i < nodeInfo.childNode.length := by
  have htexts := collectLoop_texts (pushFlopBet nodeInfo.childNode vals actionInfo.betTo potTh) hidx.le
    fun i hi => pushFlopBet_isSome (by omega)
  rw [filterFlopLargeBetAction]
  refine (filterLargeRaise_spec hidx ?_).imp (fun hsome => hsome.trans ?_) id
  · intro i hi
    obtain ⟨board, _, hi⟩ := Option.bind_eq_some_iff.mp hi
    obtain ⟨keeps, _, hi⟩ := Option.bind_eq_some_iff.mp hi
    split at hi
    · rw [← Option.some.inj hi]
      exact hidx
    · obtain ⟨candidates, hcandidates, rfl⟩ := Option.map_eq_some_iff.mp hi
      refine chooseIdxByMinReg_lt (by omega) fun e he => ?_
      obtain ⟨j, hj, more, hmore, hmem⟩ := (mem_collectLoop hcandidates).mp he
      rw [pushFlopBet_key hmore e hmem]
      omega
  · refine and_congr_right fun _ => imp_congr_right fun _ => ?_
    cases sortCards ((actionInfo.boardCards.take 3).map Int.toNat) with
    | none => simp
    | some board =>
      simp only [Option.bind_some, Option.some.injEq, exists_and_left, exists_eq_left']
      cases HandMaker.keepsLargeBet g trees (board.getD 0 0) (board.getD 1 0) (board.getD 2 0)
          ((actionInfo.hcpCards.take 2).map Int.toNat) with
      | none => simp
      | some keeps =>
        cases keeps with
        | true => simp
        | false => simp [htexts]

theorem filterAllinAction_spec (hidx : actionIdx < nodeInfo.childNode.length)
    (hvals : vals.length = nodeInfo.childNode.length) {filterTh : Double} {handleNfrm : Bool} :
    ((filterAllinAction nodeInfo vals actionIdx filterTh handleNfrm).isSome ↔ AllinFilterInRange nodeInfo actionIdx) ∧
      ∀ i, filterAllinAction nodeInfo vals actionIdx filterTh handleNfrm = some i → i < nodeInfo.childNode.length := by
  have hsecond : (scanBest (· < ·) (0, 2000000000) ((indexed vals).filter fun e => e.1 ≠ actionIdx)).1 <
      nodeInfo.childNode.length := by
    refine chooseIdxByMinReg_lt (by omega) fun e he => ?_
    have hval := mem_indexed.mp (List.mem_filter.mp he).1
    have hlt := (List.getElem?_eq_some_iff.mp hval).1
    omega
  rw [filterAllinAction, AllinFilterInRange, List.getElem?_eq_getElem hidx, Option.bind_some]
  split
  next hother =>
    refine ⟨by simp [hother], fun i hi => ?_⟩
    rw [← Option.some.inj hi]
    exact hidx
  next hallin =>
    rw [not_not] at hallin
    dsimp only
    split
    next hlog =>
      refine ⟨?_, fun i hi => ?_⟩
      · simp only [hlog.1, implies_true, iff_true]
        split
        · rfl
        · split <;> rfl
      · split at hi
        · rw [← Option.some.inj hi]
          exact hsecond
        · split at hi
          · rw [← Option.some.inj hi]
            exact hsecond
          · rw [← Option.some.inj hi]
            exact hidx
    next hlog =>
      have hstreet : ¬nodeInfo.street < streetName.length := fun hstreet => hlog ⟨hstreet, hsecond⟩
      simp [hallin, hstreet]

variable (g trees actionParam actionInfo st) in
/-- The branch for regrets: where it answers, and that the answer is an action of the node. -/
theorem chooseByRegret_spec (hne : nodeInfo.childNode ≠ []) (hvals : vals.length = nodeInfo.childNode.length) :
    ((chooseByRegret g trees actionParam actionInfo nodeInfo vals st).isSome ↔
      RegretInRange g trees actionParam actionInfo nodeInfo vals st) ∧
      ∀ i, chooseByRegret g trees actionParam actionInfo nodeInfo vals st = some i → i < nodeInfo.childNode.length := by
  have hpure : getPureIdx vals false < nodeInfo.childNode.length := by
    rw [← hvals]
    refine getPureIdx_lt ?_ false
    rintro rfl
    exact hne (List.length_eq_zero_iff.mp hvals.symm)
  have hsame : ∀ i, some (getPureIdx vals false) = some i → i < nodeInfo.childNode.length := by
    intro i hi
    rw [← Option.some.inj hi]
    exact hpure
  unfold chooseByRegret RegretInRange
  dsimp only
  split
  next hoff => exact ⟨by simp [hoff], hsame⟩
  next hon =>
    rw [Bool.not_eq_false] at hon
    split
    next hone =>
      split
      next hst =>
        subst hst
        exact ⟨by simp [hone], hsame⟩
      next hst =>
        split
        next hflop =>
          subst hflop
          refine (filterFlopLargeBetAction_spec hpure hvals).imp (fun hsome => hsome.trans ?_) id
          simp [hon, hone]
        next hflop =>
          have hnot : ¬(st : Nat) = 1 := by omega
          have htwo : 2 ≤ (st : Nat) := by omega
          refine (filterAllinAction_spec hpure hvals).imp (fun hsome => hsome.trans ?_) id
          simp [hon, hone, hnot, htwo]
    next hone =>
      split
      next htwo =>
        refine (filterLargeBetAction_spec hpure hvals).imp (fun hsome => hsome.trans ?_) id
        simp [hon, htwo]
      next htwo => exact ⟨by simp [hone, htwo], hsame⟩

variable (g trees actionParam modelParam actionInfo st) in
theorem chooseAction_spec (hne : nodeInfo.childNode ≠ []) (hvals : vals.length = nodeInfo.childNode.length)
    (hfits : maxVal vals < 4294967296) (r : Double) :
    ((chooseAction g trees actionParam actionInfo nodeInfo vals st modelParam r).isSome ↔
      if modelParam.sumprobFlag st then SumprobInRange actionParam vals st
      else RegretInRange g trees actionParam actionInfo nodeInfo vals st) ∧
      ∀ i, chooseAction g trees actionParam actionInfo nodeInfo vals st modelParam r = some i →
        i < nodeInfo.childNode.length ∧
        (modelParam.sumprobFlag st = true → actionParam.filterFlags st = true →
          (Double.ofInt 1).le (actionParam.frmThs st) = false → ∃ candidateAction, frmChooseCandidate vals true (actionParam.frmThs st) = some candidateAction ∧
            i ∈ candidateAction.map Prod.fst) := by
  rw [chooseAction]
  split
  next hsum =>
    have hvne : vals ≠ [] := by
      rintro rfl
      exact hne (List.length_eq_zero_iff.mp hvals.symm)
    obtain ⟨hsome, hspec⟩ := chooseBySumprob_spec actionParam st hvne hfits r
    refine ⟨hsome, fun i hi => ?_⟩
    obtain ⟨hlt, hkept⟩ := hspec i hi
    rw [hvals] at hlt
    exact ⟨hlt, fun _ => hkept⟩
  next hreg =>
    obtain ⟨hsome, hspec⟩ := chooseByRegret_spec g trees actionParam actionInfo st hne hvals
    exact ⟨hsome, fun i hi => ⟨hspec i hi, fun hsum => absurd hsum hreg⟩⟩

theorem formatStr_isSome (hvals : vals.length = nodeInfo.childNode.length) :
    (formatStr nodeInfo.childNode vals).isSome ↔ FormatFits nodeInfo vals := by
  rw [formatStr, Option.isSome_map, collectLoop_isSome]
  constructor
  · intro hall i child val hchild hval
    have hi : i < nodeInfo.childNode.length := (List.getElem?_eq_some_iff.mp hchild).1
    simpa [hchild, hval] using hall i hi
  · intro hfits i hi
    have hchild := List.getElem?_eq_getElem hi
    have hval := List.getElem?_eq_getElem (l := vals) (i := i) (by omega)
    simpa [hchild, hval] using hfits i _ _ hchild hval

theorem doAction_of_refused (h : checkCardsAt actionInfo = some false) :
    doAction g trees actionParam actionInfo nodeInfo vals modelParam r = some (.error errInvalidCard) := by
  rw [doAction, h]
  rfl

/-- The call for checked cards on a street. -/
theorem doAction_of_checked (hst : actionInfo.st = (st : Nat)) (hcheck : checkCards actionInfo = true) :
    doAction g trees actionParam actionInfo nodeInfo vals modelParam r =
      (chooseAction g trees actionParam actionInfo nodeInfo vals st modelParam r).bind fun finalIdx =>
        (nodeInfo.childNode[finalIdx]?).bind fun actionStr =>
          (formatStr nodeInfo.childNode vals).map fun rateStr =>
            .ok (actionStr, rateStr ++ (if modelParam.sumprobFlag st then "[Sum]".toList else "[Reg]".toList) ++
              (if getPureIdx vals (modelParam.sumprobFlag st) = finalIdx then "[Default]".toList
              else '[' :: actionStr ++ [']'])) := by
  rw [doAction, checkCardsAt_of_street hst, hcheck, Option.bind_some, if_neg (by decide), streetIdx_eq_some.mpr hst,
    Option.bind_some]

theorem maxVal_lt (hfits : ∀ val ∈ vals, val < 4294967296) : maxVal vals < 4294967296 := by
  rcases maxVal_mem_or_zero vals with hmem | ⟨hzero, _⟩
  · exact hfits _ hmem
  · rw [hzero]
    exact Nat.two_pow_pos 32

theorem inRange_of_answers (g : SGame) (trees : HandValueTree) (actionParam : ActionParam) (modelParam : ModelParam)
    (actionInfo : ActionInfo) (r : Double) (hne : nodeInfo.childNode ≠ []) (hvals : vals.length = nodeInfo.childNode.length)
    (hfits : ∀ val ∈ vals, val < 4294967296)
    (h : Answers g trees actionParam modelParam actionInfo nodeInfo vals r) :
    InRange g trees actionParam modelParam actionInfo nodeInfo vals := by
  rcases h with herror | ⟨st, finalIdx, actionStr, rateStr, hst, hchoose, hchild, hok, _⟩
  · have hsome : (checkCardsAt actionInfo).isSome := by
      rw [doAction] at herror
      obtain ⟨valid, hvalid, _⟩ := Option.bind_eq_some_iff.mp herror
      rw [hvalid]
      rfl
    rcases checkCardsAt_isSome.mp hsome with hhole | ⟨st, hst⟩
    · exact .inl hhole
    · refine .inr ⟨st, hst, .inl ?_⟩
      by_contra hcheck
      rw [Bool.not_eq_false] at hcheck
      rw [doAction_of_checked hst hcheck] at herror
      obtain ⟨finalIdx, _, herror⟩ := Option.bind_eq_some_iff.mp herror
      obtain ⟨actionStr, _, herror⟩ := Option.bind_eq_some_iff.mp herror
      obtain ⟨rateStr, _, herror⟩ := Option.map_eq_some_iff.mp herror
      cases herror
  · refine .inr ⟨st, hst, ?_⟩
    by_cases hcheck : checkCards actionInfo = true
    · right
      rw [doAction_of_checked hst hcheck, hchoose, Option.bind_some, hchild, Option.bind_some] at hok
      obtain ⟨formatted, hformat, _⟩ := Option.map_eq_some_iff.mp hok
      have hchosen := chooseAction_spec g trees actionParam modelParam actionInfo st hne hvals (maxVal_lt hfits) r
      exact ⟨(formatStr_isSome hvals).mp (by rw [hformat]; rfl), hchosen.1.mp (by rw [hchoose]; rfl)⟩
    · exact .inl (Bool.not_eq_true _ ▸ hcheck)

theorem answers_of_inRange (g : SGame) (trees : HandValueTree) (actionParam : ActionParam) (modelParam : ModelParam)
    (actionInfo : ActionInfo) (r : Double) (hne : nodeInfo.childNode ≠ []) (hvals : vals.length = nodeInfo.childNode.length)
    (hfits : ∀ val ∈ vals, val < 4294967296)
    (h : InRange g trees actionParam modelParam actionInfo nodeInfo vals) :
    Answers g trees actionParam modelParam actionInfo nodeInfo vals r := by
  rcases h with hhole | ⟨st, hst, hrefused | ⟨hformat, hbranch⟩⟩
  · exact .inl (doAction_of_refused (checkCardsAt_of_hole hhole))
  · refine .inl (doAction_of_refused ?_)
    rw [checkCardsAt_of_street hst, hrefused]
  · cases hcheck : checkCards actionInfo with
    | false =>
      refine .inl (doAction_of_refused ?_)
      rw [checkCardsAt_of_street hst, hcheck]
    | true =>
      right
      obtain ⟨hsome, hspec⟩ := chooseAction_spec g trees actionParam modelParam actionInfo st hne hvals (maxVal_lt hfits) r
      obtain ⟨finalIdx, hchoose⟩ := Option.isSome_iff_exists.mp (hsome.mpr hbranch)
      obtain ⟨hlt, hkept⟩ := hspec finalIdx hchoose
      obtain ⟨rateStr, hrate⟩ := Option.isSome_iff_exists.mp ((formatStr_isSome hvals).mpr hformat)
      have hchild := List.getElem?_eq_getElem hlt
      have hok : ∃ rate, doAction g trees actionParam actionInfo nodeInfo vals modelParam r =
          some (.ok (nodeInfo.childNode[finalIdx], rate)) := by
        rw [doAction_of_checked hst hcheck, hchoose, Option.bind_some, hchild, Option.bind_some, hrate, Option.map_some]
        exact ⟨_, rfl⟩
      obtain ⟨rate, hok⟩ := hok
      exact ⟨st, finalIdx, _, rate, hst, hchoose, hchild, hok, hkept⟩

/-- An answer comes exactly where every index stays in range. -/
theorem answers_iff_inRange (g : SGame) (trees : HandValueTree) (actionParam : ActionParam) (modelParam : ModelParam)
    (actionInfo : ActionInfo) (r : Double) (hne : nodeInfo.childNode ≠ []) (hvals : vals.length = nodeInfo.childNode.length)
    (hfits : ∀ val ∈ vals, val < 4294967296) :
    Answers g trees actionParam modelParam actionInfo nodeInfo vals r ↔
      InRange g trees actionParam modelParam actionInfo nodeInfo vals :=
  ⟨inRange_of_answers g trees actionParam modelParam actionInfo r hne hvals hfits,
    answers_of_inRange g trees actionParam modelParam actionInfo r hne hvals hfits⟩

end Choice

def plainParam : ActionParam := ⟨fun _ => true, fun _ => false, fun _ => 0, fun _ => .finite (1 / 2), fun _ => .ofInt 3⟩

def sumprobModel : ModelParam := ⟨fun _ => true⟩

def callOrRaise : NodeInfo := ⟨0, 0, 0, [['c'], ['r', '4']]⟩

def infoOnStreet (st : Int) : ActionInfo := ⟨[0, 5, 10, 15, 25], [20, 30], st, [], 2, -1⟩

theorem answers_iff_inRange_preflop :
    Answers SGame.holdem HandValueTree.initial plainParam sumprobModel (infoOnStreet 0) callOrRaise [3, 1]
      (.finite (3 / 4)) := by
  refine (answers_iff_inRange SGame.holdem HandValueTree.initial plainParam sumprobModel (infoOnStreet 0)
    (.finite (3 / 4)) (by decide) (by decide) (by decide)).mpr ?_
  have hformats : ∀ i < 2, ((callOrRaise.childNode[i]?).bind fun child => ([3, 1][i]?).bind (formatOne child)).isSome := by
    decide +kernel
  refine .inr ⟨0, rfl, .inr ⟨fun i child val hchild hval => ?_, ?_⟩⟩
  · have hi : i < 2 := (List.getElem?_eq_some_iff.mp hval).1
    simpa only [hchild, hval, Option.bind_some] using hformats i hi
  · rw [if_pos (by decide)]
    have hproduct : (Double.ofInt 3).mul (.finite (1 / 2)) = .finite (3 / 2) := by decide +kernel
    exact .inr (.inr ⟨3 / 2, hproduct, by norm_num⟩)

/-- A text with the street 7 is read, and the number of board cards is then looked up outside its array. -/
theorem doAction_street_seven :
    ¬∀ (g : SGame) (trees : HandValueTree) (actionParam : ActionParam) (modelParam : ModelParam) (text : List Char)
      (actionInfo : ActionInfo) (nodeInfo : NodeInfo) (vals : List Nat) (r : Double), ActionInfo.fromText text = .ok actionInfo →
        nodeInfo.childNode ≠ [] → vals.length = nodeInfo.childNode.length → (∀ val ∈ vals, val < 4294967296) →
          (Double.ofInt 0).le r = true → r.lt (.ofInt 1) = true → Answers g trees actionParam modelParam actionInfo nodeInfo vals r := by
  intro hall
  have hread : ActionInfo.fromText (infoOnStreet 7).toText = .ok (infoOnStreet 7) := by decide +kernel
  have hnone : doAction SGame.holdem HandValueTree.initial plainParam (infoOnStreet 7) callOrRaise [3, 1] sumprobModel
      (.ofInt 0) = none := by
    have hcheck : checkCardsAt (infoOnStreet 7) = none := by decide +kernel
    rw [doAction, hcheck, Option.bind_none]
  rcases hall SGame.holdem HandValueTree.initial plainParam sumprobModel _ (infoOnStreet 7) callOrRaise [3, 1] (.ofInt 0)
    hread (by decide) (by decide) (by decide) (by decide +kernel) (by decide +kernel) with herror | ⟨_, _, _, _, _, _, _, hok, _⟩
  · rw [hnone] at herror
    cases herror
  · rw [hnone] at hok
    cases hok

end DTRobot

end MasterAI
