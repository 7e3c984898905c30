import MasterAI.ActionIdxSelector
import MasterAI.ActionInfo

namespace MasterAI

def streetName : List String := ["preflop", "flop", "turn", "river"]

/-- The digit that a character stands for in the number systems of `%i`. -/
def digitOf (c : Char) : Option Nat :=
  if c.isDigit then some (c.toNat - '0'.toNat)
  else if 'a' ≤ c ∧ c ≤ 'f' then some (c.toNat - 'a'.toNat + 10)
  else if 'A' ≤ c ∧ c ≤ 'F' then some (c.toNat - 'A'.toNat + 10)
  else none

/-- The conversion `%i` into a 32-bit integer: the start of the digits tells the base, and a `0x` without digits
counts as zero. -/
def scanI (text : List Char) : Option Int :=
  let text := skipSpaces text
  let negative := text.head? = some '-'
  let body := if text.head? = some '-' ∨ text.head? = some '+' then text.tail else text
  let hex := body.head? = some '0' ∧ (body.tail.head? = some 'x' ∨ body.tail.head? = some 'X')
  let base := if hex then 16 else if body.head? = some '0' then 8 else 10
  let digits := ((if hex then body.drop 2 else body).map digitOf).takeWhile fun d => d.any (· < base)
  if ¬hex ∧ digits = [] then none
  else
    let n := digits.foldl (fun n d => n * base + d.getD 0) 0
    some (wrapInt32
      (if negative then -(min n 9223372036854775808 : Nat) else (min n 9223372036854775807 : Nat)))

/-- `substr(1)`, which throws on the empty text. -/
def substrOne (text : List Char) : Option (List Char) := if text = [] then none else some text.tail

/-- A fraction of the pot with its two sides. -/
structure PotFrac where
  num : Int
  den : Int
  deriving DecidableEq, Repr

/-- The numbers that a fraction of the pot is compared with. -/
class PotThreshold (T : Type) where
  below : PotFrac → T → Prop
  decidableBelow : ∀ x potTh, Decidable (below x potTh)

/-- Exact arithmetic. Without a pot the fraction is infinite with the sign of its numerator, or no number. -/
instance : PotThreshold ℚ where
  below x potTh := if x.den = 0 then x.num < 0 else (x.num : ℚ) / x.den < potTh
  decidableBelow x potTh := inferInstanceAs (Decidable (if x.den = 0 then x.num < 0 else (x.num : ℚ) / x.den < potTh))

/-- The arithmetic of the code, which rounds the fraction. -/
instance : PotThreshold Double where
  below x potTh := ((Double.ofInt x.num).div (Double.ofInt x.den)).lt potTh = true
  decidableBelow _ _ := inferInstance

def PotFrac.below {T : Type} [PotThreshold T] (x : PotFrac) (potTh : T) : Prop := PotThreshold.below x potTh

instance {T : Type} [PotThreshold T] (x : PotFrac) (potTh : T) : Decidable (x.below potTh) :=
  PotThreshold.decidableBelow x potTh

/-- The fraction of a raise from one bet to another. -/
def raiseFrac (oldBetTo actionBetTo : Int) : PotFrac := ⟨wrapInt32 (actionBetTo - oldBetTo), wrapInt32 (2 * oldBetTo)⟩

/-- `GetPotFrac`; nothing where the action has no text. -/
def getPotFrac (childNodes : List (List Char)) (actionIdx : Nat) (oldBetTo : Int) : Option PotFrac :=
  (childNodes[actionIdx]?).bind fun child =>
    if child = ['c'] then some ⟨0, 1⟩
    else if child = ['f'] then some ⟨-1, 1⟩
    else (substrOne child).map fun strBetTo => (scanI strBetTo).elim ⟨999, 1⟩ (raiseFrac oldBetTo)

/-- The two calls of `push_back` for one action before the chosen one. -/
def pushSmallBet {T : Type} [PotThreshold T] (childNodes : List (List Char)) (regVals : List Nat) (betTo : Int) (potTh : T)
    (i : Nat) : Option (List (Nat × Nat)) :=
  (getPotFrac childNodes i betTo).bind fun potFrac =>
    (regVals[i]?).map fun val => (if potFrac.below potTh then [(i, val)] else []) ++ [(i, val)]

/-- The start that the filters of large bets share: they filter a raise to a bet that can be read and whose fraction
reaches the threshold, and keep any other action. -/
def filterLargeRaise {T : Type} [PotThreshold T] (childNodes : List (List Char)) (betTo : Int) (actionIdx : Nat) (potTh : T)
    (filter : Option Nat) : Option Nat :=
  (childNodes[actionIdx]?).bind fun child =>
    if child = ['c'] ∨ child = ['f'] then some actionIdx
    else (substrOne child).bind fun strBetTo =>
      (scanI strBetTo).elim (some actionIdx) fun actionBetTo =>
        if (raiseFrac betTo actionBetTo).below potTh then some actionIdx else filter

/-- `FilterLargeBetAction`; nothing where it throws or leaves an array. -/
def filterLargeBetAction {T : Type} [PotThreshold T] (actionInfo : ActionInfo) (nodeInfo : NodeInfo) (regVals : List Nat)
    (actionIdx : Nat) (potTh : T) : Option Nat :=
  filterLargeRaise nodeInfo.childNode actionInfo.betTo actionIdx potTh
    ((collectLoop (pushSmallBet nodeInfo.childNode regVals actionInfo.betTo potTh) actionIdx).bind fun candidates =>
      -- the log line names the street and both actions
      if nodeInfo.street < streetName.length ∧ actionIdx < regVals.length ∧
        chooseIdxByMinReg candidates < nodeInfo.childNode.length ∧ chooseIdxByMinReg candidates < regVals.length then
        some (chooseIdxByMinReg candidates)
      else none)

end MasterAI
