import MasterAI.DecimalText
import MasterAI.GameDef

namespace MasterAI

def maxLineLen : Nat := 4096

/-- A line of a file up to and with its end, or the part of it that fits the buffer. -/
def fgets (text : List Char) : Option (List Char × List Char) :=
  if text = [] then none
  else
    let cut := text.take (maxLineLen - 1)
    let line := cut.takeWhile (· ≠ '\n')
    let taken := if line.length < cut.length then line.length + 1 else line.length
    some (text.take taken, text.drop taken)

/-- The lines of a file. Every call takes at least one character, so its length bounds the calls. -/
def fileLines : Nat → List Char → List (List Char)
  | 0, _ => []
  | left + 1, text =>
    match fgets text with
    | none => []
    | some (line, rest) => line :: fileLines left rest

/-- `strncasecmp` of a line with a keyword in lower case. -/
def startsNoCase : List Char → List Char → Bool
  | [], _ => true
  | _ :: _, [] => false
  | k :: key, c :: line => decide (c.toLower = k) && startsNoCase key line

def consumeSpaces (consumeEqual : Bool) (text : List Char) : List Char :=
  text.dropWhile fun c => isSpace c || (consumeEqual && c = '=')

/-- The numbers that `readItems` converts. -/
def scanItems {α : Type} (scan : List Char → Option (α × List Char)) : Nat → List Char → List α
  | 0, _ => []
  | numItems + 1, text =>
    match scan (consumeSpaces true text) with
    | none => []
    | some (item, rest) => item :: scanItems scan numItems rest

def scanInts (numItems : Nat) (text : List Char) : List Int := scanItems scanInt32 numItems text

def scanBytes (numItems : Nat) (text : List Char) : List Int :=
  (scanItems (scanUnsigned 8) numItems text).map fun n : Nat => (n : Int)

/-- The branches of the line loop of `readGame`, on the characters of a line before its first NUL. -/
def keywordLine (line : List Char) : GameLine :=
  if line.head? = some '#' ∨ line.head? = some '\n' then .other
  else if startsNoCase "end gamedef".toList line then .endGamedef
  else if startsNoCase "gamedef".toList line then .other
  else if startsNoCase "stack".toList line then .stack (scanInts maxPlayers (line.drop 5))
  else if startsNoCase "blind".toList line then .blind (scanInts maxPlayers (line.drop 5))
  else if startsNoCase "raisesize".toList line then .raiseSize (scanInts maxPlayers (line.drop 9))
  else if startsNoCase "limit".toList line then .limit
  else if startsNoCase "nolimit".toList line then .nolimit
  else if startsNoCase "numplayers".toList line then .numPlayers (scanBytes 1 (line.drop 10))
  else if startsNoCase "numrounds".toList line then .numRounds (scanBytes 1 (line.drop 9))
  else if startsNoCase "firstplayer".toList line then .firstPlayer (scanBytes maxRounds (line.drop 11))
  else if startsNoCase "maxraises".toList line then .maxRaises (scanBytes maxRounds (line.drop 9))
  else if startsNoCase "numsuits".toList line then .numSuits (scanBytes 1 (line.drop 8))
  else if startsNoCase "numranks".toList line then .numRanks (scanBytes 1 (line.drop 8))
  else if startsNoCase "numholecards".toList line then .numHoleCards (scanBytes 1 (line.drop 12))
  else if startsNoCase "numboardcards".toList line then .numBoardCards (scanBytes maxRounds (line.drop 13))
  else .other

def gameLine (line : List Char) : GameLine := keywordLine (line.takeWhile (· ≠ '\x00'))

/-- `readGame` on the text of a file. -/
def readGameFile (text : List Char) : Option Game := readGame ((fileLines text.length text).map gameLine)

/-- A line of `printGame` with a field. -/
def fieldLine (name : List Char) (numbers : List Int) : List Char :=
  name ++ " =".toList ++ (numbers.flatMap fun n => ' ' :: printInt n) ++ ['\n']

def Game.perPlayer (g : Game) (field : Nat → Int) : List Int := (List.range g.numPlayers).map field

def Game.perRound (g : Game) (field : Nat → Int) : List Int := (List.range g.numRounds).map field

/-- The lines that `printGame` writes. -/
def printGameLines (g : Game) : List (List Char) :=
  ["GAMEDEF\n".toList, if g.bettingType = .noLimitBetting then "nolimit\n".toList else "limit\n".toList,
    fieldLine "numPlayers".toList [(g.numPlayers : Int)], fieldLine "numRounds".toList [(g.numRounds : Int)]] ++
  (if ∃ i < g.numPlayers, g.stack i < int32Max then [fieldLine "stack".toList (g.perPlayer g.stack)] else []) ++
  [fieldLine "blind".toList (g.perPlayer g.blind)] ++
  (if g.bettingType = .limitBetting then [fieldLine "raiseSize".toList (g.perRound g.raiseSize)] else []) ++
  (if ∃ i < g.numRounds, g.firstPlayer i ≠ 0 then
    [fieldLine "firstPlayer".toList (g.perRound fun i => ((g.firstPlayer i + 1) % 256 : Nat))] else []) ++
  (if ∃ i < g.numRounds, g.maxRaises i ≠ 255 then
    [fieldLine "maxRaises".toList (g.perRound fun i => (g.maxRaises i : Nat))] else []) ++
  [fieldLine "numSuits".toList [(g.numSuits : Int)], fieldLine "numRanks".toList [(g.numRanks : Int)],
    fieldLine "numHoleCards".toList [(g.numHoleCards : Int)],
    fieldLine "numBoardCards".toList (g.perRound fun i => (g.numBoardCards i : Nat)), "END GAMEDEF\n".toList]

def printGame (g : Game) : List Char := (printGameLines g).flatten

end MasterAI
