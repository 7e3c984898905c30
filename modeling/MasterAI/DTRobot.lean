import MasterAI.HandIndex
import MasterAI.HandMaker
import MasterAI.RuleFilter

namespace MasterAI

/-- The parameters of the choice of an action, one for each street. -/
structure ActionParam where
  filterFlags : Fin 4 → Bool
  handleNfrom : Fin 4 → Bool
  ruleTypes : Fin 4 → Int
  frmThs : Fin 4 → Double
  potThs : Fin 4 → Double

structure ModelParam where
  sumprobFlag : Fin 4 → Bool

def errInvalidCard : Int := -902

/-- An index into an array of four streets; nothing where it lies outside. -/
def streetIdx (st : Int) : Option (Fin 4) := if h : 0 ≤ st ∧ st < 4 then some ⟨st.toNat, by omega⟩ else none

/-- `CheckCards` with its read of the number of board cards; nothing where that lies outside the array. -/
def checkCardsAt (info : ActionInfo) : Option Bool :=
  (checkCardsFrom [] (info.hcpCards.take 2)).elim (some false) fun existing =>
    (streetIdx info.st).map fun (st : Fin 4) => (checkCardsFrom existing (info.boardCards.take (streetBoardCnt.getD st 0))).isSome

/-- The two calls for one action before the chosen one in `FilterFlopLargeBetAction`. -/
def pushFlopBet (childNodes : List (List Char)) (regVals : List Nat) (betTo : Int) (potTh : Double) (i : Nat) :
    Option (List (Nat × Nat)) :=
  (childNodes[i]?).bind fun child =>
    (getPotFrac childNodes i betTo).bind fun potFrac =>
      if child ≠ ['f'] ∧ potFrac.below potTh then (regVals[i]?).map fun val => [(i, val)] else some []

/-- `FilterFlopLargeBetAction`, for checked cards; nothing where it throws, exits or leaves an array. -/
def filterFlopLargeBetAction (g : SGame) (trees : HandValueTree) (actionInfo : ActionInfo) (nodeInfo : NodeInfo)
    (regVals : List Nat) (actionIdx : Nat) (potTh : Double) : Option Nat :=
  filterLargeRaise nodeInfo.childNode actionInfo.betTo actionIdx potTh
    ((sortCards ((actionInfo.boardCards.take 3).map Int.toNat)).bind fun board =>
      (HandMaker.keepsLargeBet g trees (board.getD 0 0) (board.getD 1 0) (board.getD 2 0)
        ((actionInfo.hcpCards.take 2).map Int.toNat)).bind fun keeps =>
          if keeps then some actionIdx
          else (collectLoop (pushFlopBet nodeInfo.childNode regVals actionInfo.betTo potTh) actionIdx).map chooseIdxByMinReg)

/-- `FilterAllinAction`, whose log lines name the street and the action of the second least regret; nothing where it
leaves an array. -/
def filterAllinAction (nodeInfo : NodeInfo) (regVals : List Nat) (actionIdx : Nat) (filterTh : Double) (handleNfrm : Bool) :
    Option Nat :=
  (nodeInfo.childNode[actionIdx]?).bind fun child =>
    if child ≠ ['r', '2', '0', '0'] then some actionIdx
    else
      let second := scanBest (· < ·) (0, 2000000000) ((indexed regVals).filter fun e => e.1 ≠ actionIdx)
      if nodeInfo.street < streetName.length ∧ second.1 < nodeInfo.childNode.length then
        if (Double.ofInt second.2).lt ((Double.ofInt (maxVal regVals)).mul filterTh) then some second.1
        else if handleNfrm then some second.1
        else some actionIdx
      else none

namespace DTRobot

/-- The candidates with their shares of the sum, all of it for the first one where the sum is zero. -/
def candidateProbs (candidateAction : List (Nat × Nat)) : List (Nat × Double) :=
  let sum := candidateAction.foldl (fun sum e => sum.add (.ofInt e.2)) (.ofInt 0)
  if sum = .ofInt 0 then candidateAction.zipIdx.map fun e => (e.1.1, if e.2 = 0 then .ofInt 1 else .ofInt 0)
  else candidateAction.map fun e => (e.1, (Double.ofInt e.2).div sum)

variable (g : SGame) (trees : HandValueTree) (actionParam : ActionParam) (actionInfo : ActionInfo) (nodeInfo : NodeInfo)
  (vals : List Nat) (st : Fin 4)

/-- The branch of `DoAction` for probabilities with the random number `r`. -/
def chooseBySumprob (r : Double) : Option Nat :=
  if actionParam.filterFlags st = false ∨ (Double.ofInt 1).le (actionParam.frmThs st) then some (getPureIdx vals true)
  else (frmChooseCandidate vals true (actionParam.frmThs st)).bind fun candidateAction =>
    chooseIdxByRm r (candidateProbs candidateAction)

/-- The branch of `DoAction` for regrets. -/
def chooseByRegret : Option Nat :=
  let actionIdx := getPureIdx vals false
  if actionParam.filterFlags st = false then some actionIdx
  else if actionParam.ruleTypes st = 1 then
    if st = 0 then some actionIdx
    else if st = 1 then
      filterFlopLargeBetAction g trees actionInfo nodeInfo vals actionIdx (actionParam.potThs st)
    else filterAllinAction nodeInfo vals actionIdx (actionParam.frmThs st) (actionParam.handleNfrom st)
  else if actionParam.ruleTypes st = 2 then
    filterLargeBetAction actionInfo nodeInfo vals actionIdx (actionParam.potThs st)
  else some actionIdx

def chooseAction (modelParam : ModelParam) (r : Double) : Option Nat :=
  if modelParam.sumprobFlag st then chooseBySumprob actionParam vals st r
  else chooseByRegret g trees actionParam actionInfo nodeInfo vals st

/-- One action of `FormatStr` with its value, which must fit its buffer with the end of the text. -/
def formatOne (child : List Char) (val : Nat) : Option (List Char) :=
  let buf := child.takeWhile (· ≠ '\x00') ++ ':' :: printNat val
  if buf.length < 1024 then some buf else none

def formatStr (childNodes : List (List Char)) (vals : List Nat) : Option (List Char) :=
  (collectLoop (fun i => (childNodes[i]?).bind fun child => (vals[i]?).bind fun val =>
    (formatOne child val).map fun buf => [buf]) childNodes.length).map fun bufs =>
      '[' :: List.intercalate [',', ' ', ' ', ' ', ' '] bufs ++ [']']

/-- `DoAction` with the random number `r`: an error or the texts of the action and the rates; nothing where it throws,
exits or leaves an array. -/
def doAction (modelParam : ModelParam) (r : Double) : Option (Except Int (List Char × List Char)) :=
  (checkCardsAt actionInfo).bind fun valid =>
    if valid = false then some (.error errInvalidCard)
    else (streetIdx actionInfo.st).bind fun st =>
      (chooseAction g trees actionParam actionInfo nodeInfo vals st modelParam r).bind fun finalIdx =>
        (nodeInfo.childNode[finalIdx]?).bind fun actionStr =>
          (formatStr nodeInfo.childNode vals).map fun rateStr =>
            .ok (actionStr, rateStr ++ (if modelParam.sumprobFlag st then "[Sum]".toList else "[Reg]".toList) ++
              (if getPureIdx vals (modelParam.sumprobFlag st) = finalIdx then "[Default]".toList
              else '[' :: actionStr ++ [']']))

end DTRobot

end MasterAI
