import MasterAI.WrapInt32
import Mathlib.Algebra.GroupWithZero.Nat
import Mathlib.Data.List.Range
import Mathlib.Data.Option.Basic

namespace MasterAI

def maxRounds : Nat := 4
def maxPlayers : Nat := 10
def maxBoardCards : Nat := 7
def maxHoleCards : Nat := 3
def maxNumActions : Nat := 64
def maxSuits : Nat := 4
def maxRanks : Nat := 13

inductive BettingType
  | limitBetting
  | noLimitBetting
  deriving DecidableEq, Repr

structure Game where
  stack : Nat → Int
  blind : Nat → Int
  raiseSize : Nat → Int
  bettingType : BettingType
  numPlayers : Nat
  numRounds : Nat
  firstPlayer : Nat → Nat
  maxRaises : Nat → Nat
  numSuits : Nat
  numRanks : Nat
  numHoleCards : Nat
  numBoardCards : Nat → Nat

/-- A line of a game file after its keyword is recognised, with the numbers that follow it. -/
inductive GameLine
  | endGamedef
  | stack (items : List Int)
  | blind (items : List Int)
  | raiseSize (items : List Int)
  | limit
  | nolimit
  | numPlayers (items : List Int)
  | numRounds (items : List Int)
  | firstPlayer (items : List Int)
  | maxRaises (items : List Int)
  | numSuits (items : List Int)
  | numRanks (items : List Int)
  | numHoleCards (items : List Int)
  | numBoardCards (items : List Int)
  | other
  deriving DecidableEq, Repr

def toUInt8 (x : Int) : Nat := (x % 256).toNat

/-- `readItems` stores at most `numItems` converted numbers and leaves the other entries alone. -/
def readItems {α : Type} (numItems : Nat) (convert : Int → α) (items : List Int)
    (old : Nat → α) : Nat → α :=
  fun i => if i < numItems then ((items.map convert)[i]?).getD (old i) else old i

def readItem (items : List Int) (old : Nat) : Nat :=
  readItems 1 toUInt8 items (fun _ => old) 0

structure GameReader where
  game : Game
  stackRead : Nat
  blindRead : Nat
  raiseSizeRead : Nat
  boardCardsRead : Nat

def GameReader.fresh : GameReader where
  game :=
    { stack := fun i => if i < maxRounds then int32Max else 0
      blind := fun _ => 0
      raiseSize := fun _ => 0
      bettingType := .limitBetting
      numPlayers := 0
      numRounds := 0
      firstPlayer := fun _ => 1
      maxRaises := fun _ => 255
      numSuits := 0
      numRanks := 0
      numHoleCards := 0
      numBoardCards := fun _ => 0 }
  stackRead := 4
  blindRead := 0
  raiseSizeRead := 0
  boardCardsRead := 0

/-- One pass of the line loop. More than four raise sizes run past the end of the array, and
such a file has no defined reading. -/
def GameReader.readLine (r : GameReader) : GameLine → Option GameReader
  | .stack items => some
      { r with
        game := { r.game with stack := readItems maxPlayers wrapInt32 items r.game.stack }
        stackRead := min items.length maxPlayers }
  | .blind items => some
      { r with
        game := { r.game with blind := readItems maxPlayers wrapInt32 items r.game.blind }
        blindRead := min items.length maxPlayers }
  | .raiseSize items =>
    if maxRounds < min items.length maxPlayers then none
    else some
      { r with
        game := { r.game with raiseSize := readItems maxPlayers wrapInt32 items r.game.raiseSize }
        raiseSizeRead := min items.length maxPlayers }
  | .limit => some { r with game := { r.game with bettingType := .limitBetting } }
  | .nolimit => some { r with game := { r.game with bettingType := .noLimitBetting } }
  | .numPlayers items => some
      { r with game := { r.game with numPlayers := readItem items r.game.numPlayers } }
  | .numRounds items => some
      { r with game := { r.game with numRounds := readItem items r.game.numRounds } }
  | .firstPlayer items => some
      { r with game :=
          { r.game with firstPlayer := readItems maxRounds toUInt8 items r.game.firstPlayer } }
  | .maxRaises items => some
      { r with game :=
          { r.game with maxRaises := readItems maxRounds toUInt8 items r.game.maxRaises } }
  | .numSuits items => some
      { r with game := { r.game with numSuits := readItem items r.game.numSuits } }
  | .numRanks items => some
      { r with game := { r.game with numRanks := readItem items r.game.numRanks } }
  | .numHoleCards items => some
      { r with game := { r.game with numHoleCards := readItem items r.game.numHoleCards } }
  | .numBoardCards items => some
      { r with
        game :=
          { r.game with numBoardCards := readItems maxRounds toUInt8 items r.game.numBoardCards }
        boardCardsRead := min items.length maxRounds }
  | .endGamedef => some r
  | .other => some r

def GameReader.readLines (r : GameReader) : List GameLine → Option GameReader
  | [] => some r
  | .endGamedef :: _ => some r
  | line :: lines => (r.readLine line).bind fun r => r.readLines lines

def Game.totalCards (g : Game) : Nat :=
  g.numHoleCards * g.numPlayers + ((List.range g.numRounds).map g.numBoardCards).sum

/-- The sanity checks at the end of `readGame`, in the order of the source. Players are counted
from one in the file and from zero in the result. -/
def GameReader.sanityChecks (r : GameReader) : Option Game := do
  let g := r.game
  guard (g.numRounds ≠ 0 ∧ g.numRounds ≤ maxRounds)
  guard (2 ≤ g.numPlayers ∧ g.numPlayers ≤ maxPlayers)
  guard (g.numPlayers ≤ r.stackRead)
  guard (g.numPlayers ≤ r.blindRead)
  guard (∀ c < g.numPlayers, g.blind c ≤ g.stack c)
  guard (g.bettingType = .limitBetting → g.numRounds ≤ r.raiseSizeRead)
  guard (∀ c < g.numRounds, g.firstPlayer c ≠ 0 ∧ g.firstPlayer c ≤ g.numPlayers)
  guard (g.numSuits ≠ 0 ∧ g.numSuits ≤ maxSuits)
  guard (g.numRanks ≠ 0 ∧ g.numRanks ≤ maxRanks)
  guard (g.numHoleCards ≠ 0 ∧ g.numHoleCards ≤ maxHoleCards)
  guard (g.numRounds ≤ r.boardCardsRead)
  guard (g.totalCards ≤ g.numSuits * g.numRanks)
  pure { g with firstPlayer := fun c =>
    if c < g.numRounds then g.firstPlayer c - 1 else g.firstPlayer c }

def readGame (lines : List GameLine) : Option Game :=
  (GameReader.fresh.readLines lines).bind GameReader.sanityChecks

/-- What every accepted game satisfies. -/
structure Game.WellFormed (g : Game) : Prop where
  rounds_pos : 0 < g.numRounds
  rounds_le : g.numRounds ≤ maxRounds
  players_ge : 2 ≤ g.numPlayers
  players_le : g.numPlayers ≤ maxPlayers
  blind_le_stack : ∀ p < g.numPlayers, g.blind p ≤ g.stack p
  firstPlayer_lt : ∀ r < g.numRounds, g.firstPlayer r < g.numPlayers
  holeCards_le : g.numHoleCards ≤ maxHoleCards
  holeCards_pos : 0 < g.numHoleCards
  stack_fits : ∀ p, FitsInt32 (g.stack p)
  blind_fits : ∀ p, FitsInt32 (g.blind p)
  raiseSize_fits : ∀ r, FitsInt32 (g.raiseSize r)

theorem readItems_fits {numItems : Nat} {items : List Int} {old : Nat → Int}
    (h : ∀ i, FitsInt32 (old i)) (i : Nat) : FitsInt32 (readItems numItems wrapInt32 items old i) := by
  unfold readItems
  split
  · rcases hi : items[i]? with _ | x
    · simpa [hi] using h i
    · simpa [hi] using wrapInt32_fits x
  · exact h i

def GameReader.Fits (r : GameReader) : Prop :=
  (∀ p, FitsInt32 (r.game.stack p)) ∧ (∀ p, FitsInt32 (r.game.blind p)) ∧
    ∀ c, FitsInt32 (r.game.raiseSize c)

theorem GameReader.fresh_fits : GameReader.fresh.Fits := by
  refine ⟨fun p => ?_, fun p => ?_, fun c => ?_⟩ <;>
    simp only [GameReader.fresh, FitsInt32, int32Max]
  · split <;> omega
  · omega
  · omega

theorem GameReader.readLine_fits {r r' : GameReader} {line : GameLine}
    (h : r.readLine line = some r') (hr : r.Fits) : r'.Fits := by
  obtain ⟨hs, hb, hz⟩ := hr
  cases line with
  | stack items => cases Option.some.inj h; exact ⟨readItems_fits hs, hb, hz⟩
  | blind items => cases Option.some.inj h; exact ⟨hs, readItems_fits hb, hz⟩
  | raiseSize items =>
    simp only [GameReader.readLine] at h
    split at h
    · simp at h
    · cases Option.some.inj h; exact ⟨hs, hb, readItems_fits hz⟩
  | _ => cases Option.some.inj h; exact ⟨hs, hb, hz⟩

theorem GameReader.readLines_fits {lines : List GameLine} {r r' : GameReader}
    (h : r.readLines lines = some r') (hr : r.Fits) : r'.Fits := by
  induction lines generalizing r with
  | nil => cases Option.some.inj h; exact hr
  | cons line lines ih =>
    by_cases he : line = .endGamedef
    · subst he; cases Option.some.inj h; exact hr
    · rw [GameReader.readLines.eq_3 r line lines (by simpa using he)] at h
      obtain ⟨next, hn, h⟩ := Option.bind_eq_some_iff.mp h
      exact ih h (GameReader.readLine_fits hn hr)

theorem GameReader.sanityChecks_wellFormed {r : GameReader} {g : Game}
    (h : r.sanityChecks = some g) (hr : r.Fits) : g.WellFormed := by
  simp only [GameReader.sanityChecks, Option.bind_eq_bind, Option.bind_eq_some_iff, Option.guard_eq_some',
    Option.pure_def, Option.some.injEq, exists_and_left, exists_const] at h
  obtain ⟨hr1, hp, -, -, hb, -, hf, -, -, hh, -, -, rfl⟩ := h
  refine ⟨Nat.pos_of_ne_zero hr1.1, hr1.2, hp.1, hp.2, hb, ?_, hh.2, Nat.pos_of_ne_zero hh.1,
    hr.1, hr.2.1, hr.2.2⟩
  intro c hc
  have := hf c hc
  simp only [if_pos hc]
  omega

theorem readGame_wellFormed {lines : List GameLine} {g : Game} (h : readGame lines = some g) :
    g.WellFormed := by
  obtain ⟨r, hr, h⟩ := Option.bind_eq_some_iff.mp h
  exact GameReader.sanityChecks_wellFormed h (GameReader.readLines_fits hr GameReader.fresh_fits)

end MasterAI
