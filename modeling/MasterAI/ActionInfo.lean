import MasterAI.StateText
import MasterAI.TextSearch

namespace MasterAI

/-- A node of the betting tree, with the texts of its actions. -/
structure NodeInfo where
  nodeId : Int
  street : Nat
  actingPlayer : Nat
  childNode : List (List Char)
  deriving DecidableEq, Repr

structure ActionInfo where
  boardCards : List Int
  hcpCards : List Int
  st : Int
  actionSeq : List Char
  betTo : Int
  numStreetBet : Int
  deriving DecidableEq, Repr

def streetBoardCnt : List Nat := [0, 3, 4, 5]

def getSingleActionStr (a : Action) : List Char :=
  match a.type with
  | .fold => ['f']
  | .call => ['c']
  | .raise => 'r' :: printInt a.size
  | .invalid => []

def getActionSeq (m : MatchState) : List Char :=
  (List.range (m.state.round + 1)).flatMap fun st =>
    (if m.state.numActions st > 0 ∧ st > 0 then [' '] else []) ++
      (m.state.action st).flatMap fun e => getSingleActionStr e.1

/-- The largest raise of the hand, or the two chips it is compared with first. -/
def getBetTo (m : MatchState) : Int :=
  ((List.range (m.state.round + 1)).flatMap m.state.action).foldl
    (fun betTo e => if e.1.type = .raise ∧ e.1.size > betTo then e.1.size else betTo) 2

/-- Cards that are not dealt yet keep the value 99. -/
def getActionInfo (m : MatchState) : ActionInfo where
  boardCards := (List.range 5).map fun i =>
    if i < streetBoardCnt.getD m.state.round 0 then (m.state.boardCards i : Int) else 99
  hcpCards := (List.range 2).map fun i => (m.state.holeCards m.viewingPlayer i : Int)
  st := m.state.round
  actionSeq := getActionSeq m
  betTo := getBetTo m
  numStreetBet := -1

/-- The conversion `%.02d`. -/
def printInt02 (x : Int) : List Char :=
  let digits := printNat x.natAbs
  let padded := if digits.length < 2 then '0' :: digits else digits
  if x < 0 then '-' :: padded else padded

/-- `ActionInfo::ToString`, cut at the end of its buffer. -/
def ActionInfo.toText (info : ActionInfo) : List Char :=
  (['b', 'c', ':'] ++ List.intercalate [','] (info.boardCards.map printInt02) ++
    [' ', ' ', 'h', 'c', ':'] ++ List.intercalate [','] (info.hcpCards.map printInt02) ++
    [',', ' ', 's', 't', ':'] ++ printInt info.st ++
    [',', ' ', 'b', 'e', 't', '_', 't', 'o', ':'] ++ printInt info.betTo ++
    [',', ' ', 'n', 'u', 'm', '_', 'b', 'e', 't', ':'] ++ printInt info.numStreetBet ++
    [',', ' ', 's', 'e', 'q', ':'] ++ info.actionSeq).take 126

def atoi (text : List Char) : Int := ((scanInt32 text).map Prod.fst).getD 0

/-- Reads `n` numbers, three characters apart. -/
def atoiFields (n : Nat) (text : List Char) : List Int := (List.range n).map fun i => atoi (text.drop (3 * i))

/-- `ActionInfo::FromString`, with its error codes. -/
def ActionInfo.fromText (text : List Char) : Except Int ActionInfo := do
  let p ← ((strstr ['b', 'c', ':'] text).filter fun p => 20 ≤ p.length).elim (.error (-1)) .ok
  let boardCards := atoiFields 5 (p.drop 3)
  let p ← ((strstr ['h', 'c', ':'] (p.drop 18)).filter fun p => 10 ≤ p.length).elim (.error (-2)) .ok
  let hcpCards := atoiFields 2 (p.drop 3)
  let p ← (strstr ['s', 't', ':'] (p.drop 9)).elim (.error (-3)) .ok
  let st := atoi (p.drop 3)
  let p ← (strstr ['b', 'e', 't', '_', 't', 'o', ':'] (p.drop 3)).elim (.error (-4)) .ok
  let betTo := atoi (p.drop 7)
  let p ← (strstr ['n', 'u', 'm', '_', 'b', 'e', 't', ':'] (p.drop 7)).elim (.error (-5)) .ok
  let numStreetBet := atoi (p.drop 8)
  let p ← (strstr ['s', 'e', 'q', ':'] (p.drop 8)).elim (.error (-6)) .ok
  pure { boardCards, hcpCards, st, actionSeq := p.drop 4, betTo, numStreetBet }

/-- `std::stoi`, which throws on a text that is no 32-bit number. -/
def stoi (text : List Char) : Option Int :=
  match scanNumber text with
  | none => none
  | some (negative, n, _) =>
    let x : Int := if negative then -n else n
    if -2147483648 ≤ x ∧ x ≤ int32Max then some x else none

end MasterAI
