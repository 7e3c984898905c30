import MasterAI.ActionTree
import MasterAI.DecimalText
import MasterAI.TypicalCards
import Mathlib.Algebra.Ring.Int.Defs
import Mathlib.Data.List.Sort

namespace MasterAI

def Reader.readIntOrDie (r : Reader) : Option (Int × Reader) := orDie r.readInt

/-- The nested arrays of one tree of hand values. A pointer that is `NULL` or was never set is `none`. -/
def ValueTree : Nat → Type
  | 0 => Int
  | k + 1 => List (Option (ValueTree k))

namespace ValueTree

/-- The entry at some indices, where there is one. -/
def entry : (k : Nat) → ValueTree k → List Nat → Option Int
  | 0, value, [] => some value
  | k + 1, tree, c :: t => (List.getD tree c none).bind fun sub => entry k sub t
  | _, _, _ => none

/-- One loop of a `Read` function, from an index on. -/
def readEntries {α : Type} (read : Nat → Reader → Option (α × Reader)) :
    Nat → Nat → Reader → Option (List (Option α) × Reader)
  | _, 0, r => some ([], r)
  | i, left + 1, r =>
    (read i r).bind fun (x, r) => (readEntries read (i + 1) left r).map fun (entries, r) => (some x :: entries, r)

/-- The nested loops of a `Read` function below an index. -/
def readLoops : (k : Nat) → Nat → Reader → Option (ValueTree k × Reader)
  | 0, _, r => r.readIntOrDie
  | k + 1, n, r =>
    (readEntries (readLoops k) k (n - k) r).map fun (entries, r) => (List.replicate (min k n) none ++ entries, r)

end ValueTree

/-- The directory of the static files, the name of the game and what the files hold. -/
structure StaticFiles where
  staticBase : List Char
  gameName : List Char
  contents : List Char → Option (List UInt8)

/-- What the memory of the buffer of each reader held before. -/
abbrev BufferMemory := Nat → Nat → UInt8

namespace StaticFiles

variable (files : StaticFiles) (g : SGame)

def handValueFile (numCards : Nat) : List Char :=
  files.staticBase ++ "/hand_value_tree.".toList ++ files.gameName ++ ['.'] ++ printNat g.numRanks ++ ['.'] ++
    printNat g.numSuits ++ ['.'] ++ printNat numCards

def openReader (name : List Char) (memory : Nat → UInt8) : Option Reader :=
  (files.contents name).bind fun file => Reader.opened file memory

/-- The `Read` function for hands of some cards. -/
def readTree (k : Nat) (memory : Nat → UInt8) : Option (ValueTree k) :=
  (files.openReader (files.handValueFile g k) memory).bind fun reader =>
    (ValueTree.readLoops k g.numCardsInDeck reader).map Prod.fst

def readOne := files.readTree g 1
def readTwo := files.readTree g 2
def readThree := files.readTree g 3
def readFour := files.readTree g 4
def readFive := files.readTree g 5
def readSix := files.readTree g 6
def readSeven := files.readTree g 7

end StaticFiles

/-- The static members of `HandValueTree`. -/
structure HandValueTree where
  numBoardCards : Int
  numCards : Int
  tree1 : Option (ValueTree 1)
  tree2 : Option (ValueTree 2)
  tree3 : Option (ValueTree 3)
  tree4 : Option (ValueTree 4)
  tree5 : Option (ValueTree 5)
  tree6 : Option (ValueTree 6)
  tree7 : Option (ValueTree 7)

namespace HandValueTree

def initial : HandValueTree := ⟨0, 0, none, none, none, none, none, none, none⟩

/-- `CreateAllTrees`; nothing where the program exits. -/
def createAllTrees (files : StaticFiles) (g : SGame) (memory : BufferMemory) (s : HandValueTree) : Option HandValueTree :=
  if s.numCards ≠ 0 then some s
  else
    (files.readOne g (memory 1)).bind fun tree1 =>
    (files.readTwo g (memory 2)).bind fun tree2 =>
    (files.readThree g (memory 3)).bind fun tree3 =>
    (files.readFour g (memory 4)).bind fun tree4 =>
    (files.readFive g (memory 5)).bind fun tree5 =>
    (files.readSix g (memory 6)).bind fun tree6 =>
    (files.readSeven g (memory 7)).bind fun tree7 =>
      some ⟨s.numBoardCards, 7, some tree1, some tree2, some tree3, some tree4, some tree5, some tree6, some tree7⟩

/-- The entry of the tree for hands of some cards. -/
def treeEntry (s : HandValueTree) (t : List Nat) : Option Int :=
  match t.length with
  | 1 => s.tree1.bind fun tree => tree.entry 1 t
  | 2 => s.tree2.bind fun tree => tree.entry 2 t
  | 3 => s.tree3.bind fun tree => tree.entry 3 t
  | 4 => s.tree4.bind fun tree => tree.entry 4 t
  | 5 => s.tree5.bind fun tree => tree.entry 5 t
  | 6 => s.tree6.bind fun tree => tree.entry 6 t
  | 7 => s.tree7.bind fun tree => tree.entry 7 t
  | _ => none

/-- The first cards of an array, sorted from high to low; nothing where the array is shorter. -/
def sortedCards (cards : List Nat) (count : Nat) : Option (List Nat) :=
  if count ≤ cards.length then some ((cards.take count).insertionSort (· ≥ ·)) else none

/-- `Val` of some cards; nothing where the program exits or leaves an array. -/
def val (s : HandValueTree) (cards : List Nat) : Option Int :=
  if 1 ≤ s.numCards ∧ s.numCards ≤ 7 then (sortedCards cards s.numCards.toNat).bind s.treeEntry else none

def valByCount (s : HandValueTree) (cards : List Nat) (count : Int) : Option Int × HandValueTree :=
  let s := { s with numCards := count }
  (s.val cards, s)

/-- The merging loop of `Val` of a board and hole cards. -/
def mergeCards (board holeCards : List Nat) (boardCount : Nat) : Option (List Nat) :=
  if boardCount ≤ board.length ∧ 2 ≤ holeCards.length then
    some ((board.take boardCount).merge (holeCards.take 2) fun b h => decide (b > h))
  else none

/-- `Val` of a board and hole cards; nothing where the program exits or leaves an array. -/
def valOfBoard (s : HandValueTree) (board holeCards : List Nat) : Option Int :=
  if s.numCards = 1 then (holeCards[0]?).bind fun h => s.treeEntry [h]
  else if s.numCards = 2 ∧ s.numBoardCards = 1 then
    (board[0]?).bind fun b => (holeCards[0]?).bind fun h => if b < h then s.treeEntry [h, b] else s.treeEntry [b, h]
  else if s.numCards = 2 ∧ s.numBoardCards = 0 then
    (holeCards[0]?).bind fun h0 => (holeCards[1]?).bind fun h1 =>
      if h0 < h1 then s.treeEntry [h1, h0] else s.treeEntry [h0, h1]
  else if 3 ≤ s.numCards ∧ s.numCards ≤ 7 then
    (mergeCards board holeCards (s.numCards.toNat - 2)).bind s.treeEntry
  else none

/-- The hole cards that another player can hold, in the order of the loops of `GetRiverVal`. -/
def otherHoleCards (n : Nat) (cards : List Nat) : List (List Nat) :=
  ((List.range' 1 (n - 1)).filter fun hi => hi ∉ cards).flatMap fun hi =>
    ((List.range hi).filter fun lo => lo ∉ cards).map fun lo => [hi, lo]

/-- `GetRiverVal`; nothing where the program exits or leaves an array. -/
def getRiverVal (s : HandValueTree) (g : SGame) (board holeCards : List Nat) : Option Int :=
  let numBoardCards := g.numBoardCards g.maxStreet
  if numBoardCards > 5 then none
  else
    (sortedCards board numBoardCards).bind fun sortedBoard =>
    (sortedCards holeCards 2).bind fun sortedHoleCards =>
    (s.valOfBoard sortedBoard sortedHoleCards).bind fun hv =>
      ((otherHoleCards g.numCardsInDeck (sortedBoard ++ sortedHoleCards)).foldlM (fun (counts : Int × Int) holeCardsN =>
        (s.valOfBoard sortedBoard holeCardsN).map fun hvN =>
          if hv > hvN then (counts.1 + 1, counts.2) else if hv < hvN then (counts.1, counts.2 + 1) else counts)
        (0, 0)).map fun (winCount, loseCount) => wrapInt32 (winCount * 1000 + loseCount)

/-- `GetNumCombinations` for one card and some more. -/
def getNumCombinations (c : Int) : Nat → Int
  | 0 => c + 1
  | more + 1 => ((List.range c.toNat).map fun (c1 : Nat) => getNumCombinations c1 more).sum

/-- The index of seven cards from low to high. -/
def diskIndex (v : List Nat) : Int :=
  let card := fun i => (v.getD i 0 : Int)
  let loc := getNumCombinations (card 6 - 1) 6 + getNumCombinations (card 5 - 1) 5 + getNumCombinations (card 4 - 1) 4 +
    getNumCombinations (card 3 - 1) 3 + getNumCombinations (card 2 - 1) 2 + getNumCombinations (card 1 - 1) 1
  if card 0 > 0 then loc + card 0 else loc

/-- The offset in the file of seven cards. -/
def diskLoc (cards : List Nat) : Int := diskIndex (cards.insertionSort (· ≤ ·)) * 4

/-- The number of cards that `DiskRead` adds up over the streets. -/
def numHandCards (g : SGame) : Nat := ((List.range (g.maxStreet + 1)).map g.numCardsForStreet).sum

/-- `DiskRead`; nothing where the program exits. -/
def diskRead (files : StaticFiles) (g : SGame) (memory : Nat → UInt8) (cards : List Nat) : Option Int :=
  let numCards := numHandCards g
  (files.openReader (files.handValueFile g numCards) memory).bind fun reader =>
    if numCards = 7 then
      (reader.seekTo (diskLoc (cards.take 7)).toNat).bind fun reader => reader.readIntOrDie.map Prod.fst
    else none

end HandValueTree

end MasterAI
