import MasterAI.HandValue
import MasterAI.DecimalText

namespace MasterAI

/-- A piece of a print function: the text it writes given the room left, or nothing where the
source returns -1. -/
abbrev Printer := Int → Option (List Char)

def printChar (c : Char) : Printer := fun maxLen => if 0 ≥ maxLen then none else some [c]

/-- The terminating zero of a string, which needs room but is not part of the text. -/
def terminate : Printer := fun maxLen => if 0 ≥ maxLen then none else some []

/-- A call of `snprintf` whose result is only tested for being negative. -/
def printText (text : List Char) : Printer := fun _ => some text

def printAll : List Printer → Printer
  | [], _ => some []
  | piece :: pieces, maxLen => do
    let text ← piece maxLen
    let rest ← printAll pieces (maxLen - text.length)
    pure (text ++ rest)

def rankChars : List Char := ['2', '3', '4', '5', '6', '7', '8', '9', 'T', 'J', 'Q', 'K', 'A']
def suitChars : List Char := ['c', 'd', 'h', 's']

/-- The pieces for the places before `n`, with a separator in front of every place but the first. -/
def separated (n : Nat) (separator : Char) (pieces : Nat → List Printer) : List Printer :=
  (List.range n).flatMap fun i => (if i ≠ 0 then [printChar separator] else []) ++ pieces i

/-- A card outside the deck has no text. -/
def printCard (card : Nat) : Printer := fun maxLen =>
  if 3 > maxLen then none
  else do
    let rank ← rankChars[rankOfCard card]?
    let suit ← suitChars[suitOfCard card]?
    pure [rank, suit]

def printCards (numCards : Nat) (cards : Nat → Nat) : Printer :=
  printAll ((List.range numCards).map fun i => printCard (cards i))

def actionChar : ActionType → Char
  | .fold => 'f'
  | .call => 'c'
  | .raise => 'r'
  | .invalid => Char.ofNat 0

def actionText (g : Game) (a : Action) : List Char :=
  actionChar a.type :: if g.bettingType = .noLimitBetting ∧ a.type = .raise then printInt a.size else []

def printAction (g : Game) (a : Action) : Printer := fun maxLen =>
  if maxLen = 0 then none
  else if (actionText g a).length ≥ maxLen then none
  else some (actionText g a)

def printBetting (g : Game) (s : State) : Printer :=
  printAll (separated (s.round + 1) '/' (fun i => (s.action i).map fun e => printAction g e.1) ++ [terminate])

/-- A player's cards are shown to that player, and to all who are left at a showdown. -/
def cardsShown (g : Game) (s : State) (player p : Nat) : Bool :=
  p = player || (s.finished && !s.playerFolded p && decide (numFolded g s + 1 ≠ g.numPlayers))

def printPlayerHoleCards (g : Game) (s : State) (player : Nat) : Printer :=
  printAll (separated g.numPlayers '|' (fun p =>
    if cardsShown g s player p then [printCards g.numHoleCards (s.holeCards p)] else []) ++ [terminate])

def printBoardCards (g : Game) (s : State) : Printer :=
  printAll (separated (s.round + 1) '/' (fun i =>
    [printCards (g.numBoardCards i) fun k => s.boardCards (bcStart g i + k)]) ++ [terminate])

def printStateCommon (g : Game) (s : State) : Printer :=
  printAll [printText (':' :: printNat s.handId.toNat ++ [':']), printBetting g s, printChar ':']

def matchStateTag : List Char := ['M', 'A', 'T', 'C', 'H', 'S', 'T', 'A', 'T', 'E', ':']

def printMatchState (g : Game) (m : MatchState) : Printer :=
  printAll [printText (matchStateTag ++ printNat m.viewingPlayer), printStateCommon g m.state,
    printPlayerHoleCards g m.state m.viewingPlayer, printBoardCards g m.state, terminate]

def charToAction (c : Char) : ActionType :=
  if c = 'f' ∨ c = 'F' then .fold
  else if c = 'c' ∨ c = 'C' ∨ c = 'k' ∨ c = 'K' then .call
  else if c = 'r' ∨ c = 'R' ∨ c = 'b' ∨ c = 'B' then .raise
  else .invalid

def readAction (g : Game) : List Char → Option (Action × List Char)
  | [] => some (⟨.invalid, 0⟩, [])
  | c :: rest =>
    if charToAction c = .raise ∧ g.bettingType = .noLimitBetting then
      (scanInt32 rest).map fun (size, rest) => (⟨.raise, size⟩, rest)
    else some (⟨charToAction c, 0⟩, rest)

/-- The loop of `readBetting`, one pass for each unit of the first argument. -/
def readBettingLoop (g : Game) : Nat → List Char → State → Option (State × List Char)
  | 0, _, _ => none
  | _ + 1, [], s => some (s, [])
  | fuel + 1, c :: text, s =>
    if c = ':' then some (s, text)
    else if c = '/' then readBettingLoop g fuel text s
    else do
      let (given, rest) ← readAction g (c :: text)
      let a ← isValidAction g s false given
      let (t, _) ← doAction g a s
      readBettingLoop g fuel rest t

/-- Every pass reads at least one character, so the passes suffice for the whole text. -/
def readBetting (g : Game) (text : List Char) (s : State) : Option (State × List Char) :=
  readBettingLoop g (text.length + 1) text s

def readCard : List Char → Option (Nat × List Char)
  | r :: c :: rest => do
    let rank ← rankChars.idxOf? r.toUpper
    let suit ← suitChars.idxOf? c.toLower
    pure (makeCard rank suit, rest)
  | _ => none

/-- Reads up to `maxCards` cards and stops at the first text that is none. -/
def readCards : Nat → List Char → List Nat × List Char
  | 0, text => ([], text)
  | maxCards + 1, text =>
    match readCard text with
    | none => ([], text)
    | some (card, rest) => (card :: (readCards maxCards rest).1, (readCards maxCards rest).2)

def skipSeparator (i : Nat) (separator : Char) (text : List Char) : List Char :=
  if i ≠ 0 ∧ text.head? = some separator then text.tail else text

/-- Stores the cards that were read from place `start` on. -/
def storeCards (start : Nat) (held : List Nat) (cards : Nat → Nat) : Nat → Nat :=
  fun k => if start ≤ k then held.getD (k - start) (cards k) else cards k

def readHoleCardsLoop (g : Game) : List Nat → List Char → (Nat → Nat → Nat) →
    Option ((Nat → Nat → Nat) × List Char)
  | [], text, cards => some (cards, text)
  | p :: players, text, cards =>
    let text := skipSeparator p '|' text
    let (held, rest) := readCards g.numHoleCards text
    if held.length = 0 then readHoleCardsLoop g players text cards
    else if held.length ≠ g.numHoleCards then none
    else readHoleCardsLoop g players rest (Function.update cards p (storeCards 0 held (cards p)))

def readHoleCards (g : Game) (text : List Char) (s : State) : Option (State × List Char) :=
  (readHoleCardsLoop g (List.range g.numPlayers) text s.holeCards).map fun (cards, rest) =>
    ({ s with holeCards := cards }, rest)

def readBoardCardsLoop (g : Game) : List Nat → List Char → (Nat → Nat) → Option ((Nat → Nat) × List Char)
  | [], text, cards => some (cards, text)
  | i :: rounds, text, cards =>
    let (held, rest) := readCards (g.numBoardCards i) (skipSeparator i '/' text)
    if held.length ≠ g.numBoardCards i then none
    else readBoardCardsLoop g rounds rest (storeCards (bcStart g i) held cards)

def readBoardCards (g : Game) (text : List Char) (s : State) : Option (State × List Char) :=
  (readBoardCardsLoop g (List.range (s.round + 1)) text s.boardCards).map fun (cards, rest) =>
    ({ s with boardCards := cards }, rest)

/-- Skips a literal part of a `scanf` format. -/
def scanLiteral (literal text : List Char) : Option (List Char) :=
  if literal <+: text then some (text.drop literal.length) else none

def readStateCommon (g : Game) (text : List Char) (prior : State) : Option (State × List Char) := do
  let text ← scanLiteral [':'] text
  let (handId, text) ← scanUnsigned 32 text
  let s := initState g (UInt32.ofNat handId) prior
  guard (text.head? = some ':')
  let (s, text) ← readBetting g text.tail s
  let (s, text) ← readHoleCards g text s
  readBoardCards g text s

/-- The number of characters consumed and the state read over the one that was there. -/
def readMatchState (g : Game) (text : List Char) (prior : MatchState) : Option (Nat × MatchState) := do
  let body ← scanLiteral matchStateTag text
  let (viewingPlayer, body) ← scanUnsigned 8 body
  guard (viewingPlayer < g.numPlayers)
  let (s, rest) ← readStateCommon g body prior.state
  pure (text.length - rest.length, { state := s, viewingPlayer := viewingPlayer })

def statesEqualCommon (g : Game) (a b : State) : Bool :=
  a.handId = b.handId && a.round = b.round &&
    (List.range (a.round + 1)).all (fun r => (a.action r).map Prod.fst = (b.action r).map Prod.fst) &&
    (List.range (sumBoardCards g a.round)).all fun i => a.boardCards i = b.boardCards i

def matchStatesEqual (g : Game) (a b : MatchState) : Bool :=
  a.viewingPlayer = b.viewingPlayer && statesEqualCommon g a.state b.state &&
    (List.range g.numHoleCards).all fun i =>
      a.state.holeCards a.viewingPlayer i = b.state.holeCards a.viewingPlayer i

end MasterAI
