import MasterAI.TextSearch
import Mathlib.Data.Char
import Mathlib.Data.List.Sort

namespace MasterAI

namespace HighlightCard

def royalFlush : Int := 10
def highCard : Int := 9
def pair : Int := 8
def twoPair : Int := 7
def threeOfAKind : Int := 6
def straight : Int := 5
def flush : Int := 4
def fullHouse : Int := 3
def fourOfAKind : Int := 2
def straightFlush : Int := 1

def stdHandNum : Nat := 5

def cardRanks : List Char := ['2', '3', '4', '5', '6', '7', '8', '9', 'T', 'J', 'Q', 'K', 'A']

/-- The result of `find` in the string of the ranks as an `int`. -/
def findRank (c : Char) : Int := if c ∈ cardRanks then cardRanks.idxOf c else -1

def aceRank : Int := 12

def aceLowRank : Int := -1

def card2Rank (card : List Char) : Int := findRank (card.getD 0 '\x00')

def card2Suit (card : List Char) : Char := card.getD 1 '\x00'

/-- The character of a rank from 0 to 12. -/
def rankChar (r : Int) : Char := cardRanks.getD r.toNat '\x00'

/-- The entries of the map that `countVecEle` makes, in the order of their keys. -/
def countVecEle {α : Type} [LinearOrder α] (list : List α) : List (α × Nat) :=
  (list.dedup.insertionSort (· ≤ ·)).map fun ele => (ele, list.count ele)

/-- The comparison `CmpByValue`: the greater count first, of equal counts the greater key. -/
def CmpByValue {α : Type} [LinearOrder α] (p1 p2 : α × Nat) : Prop :=
  if p1.2 = p2.2 then p1.1 > p2.1 else p1.2 > p2.2

instance {α : Type} [LinearOrder α] : DecidableRel (CmpByValue (α := α)) := fun p1 p2 =>
  inferInstanceAs (Decidable (if p1.2 = p2.2 then p1.1 > p2.1 else p1.2 > p2.2))

/-- `sortMapByValue` from the greatest count down. -/
def sortMapByValue {α : Type} [LinearOrder α] (m : List (α × Nat)) : List (α × Nat) :=
  m.insertionSort fun p1 p2 => ¬CmpByValue p2 p1

def contains (findCard card : List Char) : Bool := (strstr findCard card).isSome

/-- The loop of `getCardIndex` from a position on, with the number of finds to skip. -/
def getCardIndexFrom (findCard : List Char) : Nat → Nat → List (List Char) → Option Nat
  | _, _, [] => none
  | j, skip, card :: cards =>
    if contains findCard card then
      match skip with
      | 0 => some j
      | skip + 1 => getCardIndexFrom findCard (j + 1) skip cards
    else getCardIndexFrom findCard (j + 1) skip cards

/-- `getCardIndex`; nothing stands for the result -1. -/
def getCardIndex (cards : List (List Char)) (findCard : List Char) (i : Nat) : Option Nat :=
  getCardIndexFrom findCard 0 i cards

def getCountFromPairs (rankCounts : List (Int × Nat)) (rank : Int) : Nat :=
  ((rankCounts.find? fun rc => rc.1 = rank).map Prod.snd).getD 0

def getRanksOfSuit (cards : List (List Char)) (suit : Char) : List Int :=
  (cards.filter fun c => card2Suit c = suit).map card2Rank

def pushCardIndex (cards : List (List Char)) (card : List Char) (i : Nat) (winCardIndexes : List Nat) : List Nat :=
  (getCardIndex cards card i).elim winCardIndexes fun cardIndex => winCardIndexes ++ [cardIndex]

/-- The loop over the cards of one rank. -/
def pushRank (cards : List (List Char)) (r : Int) (rCount : Nat) (winCardIndexes : List Nat) : List Nat :=
  (List.range rCount).foldl (fun win j =>
    if win.length < stdHandNum then pushCardIndex cards [rankChar r] j win else win) winCardIndexes

/-- The highest rank that is none of some, whose first card completes four of a kind or two pairs. -/
def pushOther (cards : List (List Char)) (rSortedCardRanks taken : List Int) (winCardIndexes : List Nat) :
    Option (List Nat) :=
  (rSortedCardRanks.find? fun r => r ∉ taken).map fun r => pushCardIndex cards [rankChar r] 0 winCardIndexes

/-- The loop of `setWinCardIndexes` over the ranks from an index on. Both lists of ranks have an entry for each rank. -/
def setRanksFrom (cards : List (List Char)) (rSortedCardRanks : List Int) (rSortedRankCounts : List (Int × Nat)) :
    Nat → List (Int × Nat) → List Nat → List Nat
  | _, [], win => win
  | i, (r, _) :: rest, win =>
    let win := pushRank cards r (getCountFromPairs rSortedRankCounts r) win
    let counts := rSortedRankCounts.map Prod.snd
    let completed :=
      (if i = 0 ∧ win.length = stdHandNum - 1 then pushOther cards rSortedCardRanks [r] win else none).or
        (if i = 1 ∧ rSortedRankCounts.length = 4 ∧ counts.take 3 = [2, 2, 2] then
          pushOther cards rSortedCardRanks ((rSortedRankCounts.take 2).map Prod.fst) win
        else none)
    completed.getD (setRanksFrom cards rSortedCardRanks rSortedRankCounts (i + 1) rest win)

/-- `setWinCardIndexes` for a list of indices that is still empty. -/
def setWinCardIndexes (cards : List (List Char)) (rSortedCardRanks : List Int) (rSortedRankCounts : List (Int × Nat))
    (flushSuit : Option Char) : List Nat :=
  flushSuit.elim (setRanksFrom cards rSortedCardRanks rSortedRankCounts 0 rSortedRankCounts []) fun suit =>
    rSortedCardRanks.foldl (fun win r =>
      if win.length < stdHandNum then pushCardIndex cards [rankChar r, suit] 0 win else win) []

/-- The ranks of a window of `analyzeStraight` fall by one from each to the next. -/
def inRow (ranks : List Int) : Bool := (List.range (stdHandNum - 1)).all fun j => ranks.getD j 0 - 1 = ranks.getD (j + 1) 0

/-- The text that `analyzeStraight` looks for. -/
def straightText (flushSuit : Option Char) (rank : Int) : List Char :=
  rankChar (if rank = aceLowRank then aceRank else rank) :: flushSuit.toList

/-- The ranks with the low ace that a straight down to the ace needs. -/
def withLowAce (rSortedCardRanks : List Int) : List Int :=
  if aceRank ∈ rSortedCardRanks then rSortedCardRanks ++ [aceLowRank] else rSortedCardRanks

/-- `analyzeStraight` for a list of indices that is still empty: the highest rank and the indices, if there is a
straight. -/
def analyzeStraight (cards : List (List Char)) (rSortedCardRanks : List Int) (flushSuit : Option Char) :
    Option (Int × List Nat) :=
  if rSortedCardRanks.length ≥ stdHandNum then
    let ranks := withLowAce rSortedCardRanks
    ((List.range (ranks.length - stdHandNum + 1)).find? fun i => inRow (ranks.drop i)).map fun i =>
      (ranks.getD i 0, ((ranks.drop i).take stdHandNum).foldl
        (fun win rank => pushCardIndex cards (straightText flushSuit rank) 0 win) [])
  else none

/-- `analyzeCards` for a list of indices that is still empty: the type and the indices; nothing where `at` throws. -/
def analyzeCards (cards : List (List Char)) : Option (Int × List Nat) :=
  let ranks := cards.map card2Rank
  let rSortedRankCounts := sortMapByValue (countVecEle ranks)
  let rSortedCardRanks := ranks.dedup.insertionSort (· ≥ ·)
  let ofRanks := setWinCardIndexes cards rSortedCardRanks rSortedRankCounts none
  (rSortedRankCounts[0]?).bind fun first =>
    let second := ((rSortedRankCounts[1]?).map Prod.snd).getD 0
    if first.2 = 4 then some (fourOfAKind, ofRanks)
    else if first.2 = 3 ∧ second ≥ 2 then some (fullHouse, ofRanks)
    else
      ((sortMapByValue (countVecEle (cards.map card2Suit)))[0]?).bind fun suit =>
        if suit.2 ≥ stdHandNum ∧ suit.1 ≠ '\x00' then
          let ranksOfSuit := (getRanksOfSuit cards suit.1).insertionSort (· ≥ ·)
          some ((analyzeStraight cards ranksOfSuit (some suit.1)).elim
            (flush, setWinCardIndexes cards ranksOfSuit rSortedRankCounts (some suit.1)) fun found =>
              (if found.1 = aceRank then royalFlush else straightFlush, found.2))
        else
          some ((analyzeStraight cards rSortedCardRanks none).elim
            (if first.2 ≥ 3 then threeOfAKind
              else if first.2 = 2 ∧ second = 2 then twoPair
              else if first.2 = 2 then pair
              else highCard, ofRanks) fun found => (straight, found.2))

end HighlightCard

end MasterAI
