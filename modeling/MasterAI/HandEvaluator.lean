import Mathlib.Data.List.Basic

namespace MasterAI

namespace HoldemHandEvaluator

def kStraightFlush : Int := 775892
def kQuads : Int := 775723
def kFullHouse : Int := 775554
def kFlush : Int := 404261
def kStraight : Int := 404248
def kThreeOfAKind : Int := 402051
def kTwoPair : Int := 399854
def kPair : Int := 371293
def kNoPair : Int := 0

def kH4Quads : Int := 31096
def kH4ThreeOfAKind : Int := 30927
def kH4TwoPair : Int := 30758
def kH4Pair : Int := 28561

/-- `S_Game::NumSuits()`; the tables of the evaluator are made for four suits and thirteen ranks. -/
def numSuits : Int := 4

def rank (card : Int) : Int := card / numSuits

def suit (card : Int) : Int := card % numSuits

def makeCard (rank suit : Int) : Int := rank * numSuits + suit

def rankCounts (cards : List Int) (r : Int) : Nat := cards.countP fun c => rank c = r

def suitCounts (cards : List Int) (s : Int) : Nat := cards.countP fun c => suit c = s

/-- The order of the loops over the ranks. -/
def ranksDown : List Int := [12, 11, 10, 9, 8, 7, 6, 5, 4, 3, 2, 1, 0]

/-- One round of the loops that collect the highest ranks: the rank takes its place and the others move
down. -/
def pushTop (r : Int) : List Int → List Int
  | [] => []
  | hr :: hrs => if r > hr then r :: (hr :: hrs).dropLast else hr :: pushTop r hrs

/-- The `k` highest of some ranks. -/
def topRanks (k : Nat) (ranks : List Int) : List Int :=
  ranks.foldl (fun hrs r => pushTop r hrs) (List.replicate k (-1))

def evaluateTwo (cards : List Int) : Int :=
  let r0 := rank (cards.getD 0 0)
  let r1 := rank (cards.getD 1 0)
  if r0 = r1 then 78 + r0
  else
    let hr := if r0 > r1 then r0 else r1
    let lr := if r0 > r1 then r1 else r0
    if hr = 1 then 0
    else if hr = 2 then 1 + lr
    else if hr = 3 then 3 + lr
    else if hr = 4 then 6 + lr
    else if hr = 5 then 10 + lr
    else if hr = 6 then 15 + lr
    else if hr = 7 then 21 + lr
    else if hr = 8 then 28 + lr
    else if hr = 9 then 36 + lr
    else if hr = 10 then 45 + lr
    else if hr = 11 then 55 + lr
    else 66 + lr

def evaluateThree (cards : List Int) : Int :=
  let r0 := rank (cards.getD 0 0)
  let r1 := rank (cards.getD 1 0)
  let r2 := rank (cards.getD 2 0)
  if r0 = r1 ∧ r1 = r2 then 2366 + r0
  else if r0 = r1 ∨ r0 = r2 ∨ r1 = r2 then
    let (prRank, kicker) := if r0 = r1 then (r0, r2) else if r0 = r2 then (r0, r1) else (r1, r0)
    2197 + prRank * 13 + kicker
  else
    let (hr, mr, lr) :=
      if r0 > r1 then
        if r1 > r2 then (r0, r1, r2) else if r0 > r2 then (r0, r2, r1) else (r2, r0, r1)
      else if r0 > r2 then (r1, r0, r2)
      else if r2 > r1 then (r2, r1, r0)
      else (r1, r2, r0)
    hr * 169 + mr * 13 + lr

/-- What the loop of `EvaluateFour` over the ranks comes to. -/
inductive FourScan
  | value (v : Int)
  | pairs (pairRank1 pairRank2 : Int)

def scanFour (cards : List Int) : List Int → Int → FourScan
  | [], pairRank1 => .pairs pairRank1 (-1)
  | r :: rs, pairRank1 =>
    let ct := rankCounts cards r
    if ct = 4 then .value (kH4Quads + r)
    else if ct = 3 then
      let kicker := (ranksDown.find? fun r => rankCounts cards r = 1).getD (-1)
      .value (kH4ThreeOfAKind + 13 * r + kicker)
    else if ct = 2 then if pairRank1 = -1 then scanFour cards rs r else .pairs pairRank1 r
    else scanFour cards rs pairRank1

def evaluateFour (cards : List Int) : Int :=
  match scanFour cards ranksDown (-1) with
  | .value v => v
  | .pairs pairRank1 pairRank2 =>
    let kicker (i : Nat) := (ranksDown.filter fun r => rankCounts cards r = 1).getD i (-1)
    if pairRank2 ≥ 0 then pairRank1 * 13 + pairRank2 + kH4TwoPair
    else if pairRank1 ≥ 0 then pairRank1 * 169 + kicker 0 * 13 + kicker 1 + kH4Pair
    else kicker 0 * 2197 + kicker 1 * 169 + kicker 2 * 13 + kicker 3

def flushSuit (cards : List Int) : Option Int := [0, 1, 2, 3].find? fun s => 5 ≤ suitCounts cards s

/-- There is a card of the rank, where the ace is also the rank below the deuce. -/
def hasRank (cards : List Int) (r1 : Int) : Bool :=
  (r1 > -1 ∧ rankCounts cards r1 > 0) ∨ (r1 = -1 ∧ rankCounts cards 12 > 0)

/-- The rank at which the search for five ranks in a row stops. -/
def runEnd (cards : List Int) : Nat → Int → Int
  | 0, r1 => r1
  | left + 1, r1 => if hasRank cards r1 then runEnd cards left (r1 - 1) else r1

/-- The cards of the flush suit in a straight. -/
def straightFlushCards (cards : List Int) (flushSuit r : Int) : Nat :=
  cards.countP fun c => suit c = flushSuit ∧ ((rank c ≥ r - 4 ∧ rank c ≤ r) ∨ (r - 4 = -1 ∧ rank c = 12))

/-- What the loop over the straights comes to. -/
inductive StraightScan
  | straightFlush (r : Int)
  | highest (straightRank : Option Int)

/-- The loop over the straights, whose rank falls in every round. -/
def scanStraights (cards : List Int) (flush : Option Int) : Nat → Int → Option Int → StraightScan
  | 0, _, straightRank => .highest straightRank
  | rounds + 1, r, straightRank =>
    let r1 := runEnd cards 5 r
    if r1 = r - 4 - 1 then
      match flush with
      | some flushSuit =>
        let straightRank := straightRank.or (some r)
        if straightFlushCards cards flushSuit r = 5 then .straightFlush r
        else if r - 1 < 3 then .highest straightRank
        else scanStraights cards flush rounds (r - 1) straightRank
      | none => .highest (some r)
    else if r1 - 1 < 3 then .highest straightRank
    else scanStraights cards flush rounds (r1 - 1) straightRank

/-- What the loop over the counts comes to. -/
inductive CountScan
  | quads (r : Int)
  | ranks (threeRank pairRank pair2Rank : Option Int)

def scanCounts (cards : List Int) : List Int → Option Int → Option Int → Option Int → CountScan
  | [], threeRank, pairRank, pair2Rank => .ranks threeRank pairRank pair2Rank
  | r :: rs, threeRank, pairRank, pair2Rank =>
    let ct := rankCounts cards r
    if ct = 4 then .quads r
    else if ct = 3 then
      if threeRank = none then scanCounts cards rs (some r) pairRank pair2Rank
      else if pairRank = none then scanCounts cards rs threeRank (some r) pair2Rank
      else scanCounts cards rs threeRank pairRank pair2Rank
    else if ct = 2 then
      if pairRank = none then scanCounts cards rs threeRank (some r) pair2Rank
      else if pair2Rank = none then scanCounts cards rs threeRank pairRank (some r)
      else scanCounts cards rs threeRank pairRank pair2Rank
    else scanCounts cards rs threeRank pairRank pair2Rank

/-- The value of cards without a straight flush and without quads. -/
def rankValue (cards : List Int) (flush straightRank threeRank pairRank pair2Rank : Option Int) : Int :=
  let numCards := cards.length
  let ranks := cards.map rank
  match threeRank, pairRank with
  | some three, some pair => kFullHouse + three * 13 + pair
  | _, _ =>
    match flush with
    | some s =>
      let hr (i : Nat) := (topRanks 5 ((cards.filter fun c => suit c = s).map rank)).getD i (-1)
      kFlush + hr 0 * 28561 + hr 1 * 2197 + hr 2 * 169 + hr 3 * 13 + hr 4
    | none =>
      match straightRank with
      | some r => kStraight + r
      | none =>
        match threeRank with
        | some three =>
          let hr (i : Nat) := (topRanks 2 (ranks.filter fun r => r ≠ three)).getD i (-1)
          if numCards = 3 then kThreeOfAKind + three * 169
          else if numCards = 4 then kThreeOfAKind + three * 169 + hr 0 * 13
          else kThreeOfAKind + three * 169 + hr 0 * 13 + hr 1
        | none =>
          match pairRank, pair2Rank with
          | some pair, some pair2 =>
            let hr (i : Nat) := (topRanks 1 (ranks.filter fun r => r ≠ pair ∧ r ≠ pair2)).getD i (-1)
            if numCards < 5 then kTwoPair + pair * 169 + pair2 * 13
            else kTwoPair + pair * 169 + pair2 * 13 + hr 0
          | some pair, none =>
            let hr (i : Nat) := (topRanks 3 (ranks.filter fun r => r ≠ pair)).getD i (-1)
            if numCards = 3 then kPair + pair * 2197 + hr 0 * 169
            else if numCards = 4 then kPair + pair * 2197 + hr 0 * 169 + hr 1 * 13
            else kPair + pair * 2197 + hr 0 * 169 + hr 1 * 13 + hr 2
          | none, _ =>
            let hr (i : Nat) := (topRanks 5 ranks).getD i (-1)
            if numCards = 3 then kNoPair + hr 0 * 28561 + hr 1 * 2197 + hr 2 * 169
            else if numCards = 4 then kNoPair + hr 0 * 28561 + hr 1 * 2197 + hr 2 * 169 + hr 3 * 13
            else kNoPair + hr 0 * 28561 + hr 1 * 2197 + hr 2 * 169 + hr 3 * 13 + hr 4

def evaluate (cards : List Int) : Int :=
  let numCards := cards.length
  if numCards = 2 then evaluateTwo cards
  else if numCards = 3 then evaluateThree cards
  else if numCards = 4 then evaluateFour cards
  else
    match scanStraights cards (flushSuit cards) 10 12 none with
    | .straightFlush r => kStraightFlush + r
    | .highest straightRank =>
      match scanCounts cards ranksDown none none none with
      | .quads r => kQuads + r * 13 + (topRanks 1 ((cards.map rank).filter fun r1 => r1 ≠ r)).getD 0 (-1)
      | .ranks threeRank pairRank pair2Rank =>
        rankValue cards (flushSuit cards) straightRank threeRank pairRank pair2Rank

end HoldemHandEvaluator

end MasterAI
