import MasterAI.GameDef
import Mathlib.Logic.Function.Basic

namespace MasterAI

inductive ActionType
  | fold
  | call
  | raise
  | invalid
  deriving DecidableEq, Repr

structure Action where
  type : ActionType
  size : Int
  deriving DecidableEq, Repr

/-- The betting state of `game.h`. `action r` lists the actions made in round `r`, each with the
player who made it, so its length is the counter `numActions[r]` of the source. -/
structure State where
  handId : UInt32
  maxSpent : Int
  minNoLimitRaiseTo : Int
  spent : Nat → Int
  action : Nat → List (Action × Nat)
  round : Nat
  finished : Bool
  playerFolded : Nat → Bool
  boardCards : Nat → Nat
  holeCards : Nat → Nat → Nat
  roundSpent : Nat → Int

structure MatchState where
  state : State
  viewingPlayer : Nat

def State.numActions (s : State) (r : Nat) : Nat := (s.action r).length

/-- A player who is neither folded nor all-in. -/
def canAct (g : Game) (s : State) (p : Nat) : Bool :=
  !s.playerFolded p && decide (s.spent p < g.stack p)

/-- The value `(uint8_t)(-1)` that `nextPlayer` returns when nobody can act. -/
def noPlayer : Nat := 255

def nextPlayerLoop (g : Game) (s : State) : Nat → Nat → Nat
  | 0, _ => noPlayer
  | left + 1, n =>
    let n := (n + 1) % g.numPlayers
    if canAct g s n then n else nextPlayerLoop g s left n

/-- The counter of the source lets the loop test three more seats than there are players. -/
def nextPlayer (g : Game) (s : State) (curPlayer : Nat) : Nat :=
  nextPlayerLoop g s (g.numPlayers + 3) curPlayer

def currentPlayer (g : Game) (s : State) : Nat :=
  match (s.action s.round).getLast? with
  | some (_, p) => nextPlayer g s p
  | none => nextPlayer g s (g.firstPlayer s.round + g.numPlayers - 1)

def numRaises (s : State) : Nat := (s.action s.round).countP fun e => e.1.type = .raise

def numFolded (g : Game) (s : State) : Nat := (List.range g.numPlayers).countP s.playerFolded

def numActingPlayers (g : Game) (s : State) : Nat := (List.range g.numPlayers).countP (canAct g s)

/-- The backward loop of `numCalled` over a list that starts with the latest action. -/
def numCalledLoop (g : Game) (s : State) : List (Action × Nat) → Nat
  | [] => 0
  | (a, p) :: earlier =>
    match a.type with
    | .raise => if s.spent p < g.stack p then 1 else 0
    | .call => (if s.spent p < g.stack p then 1 else 0) + numCalledLoop g s earlier
    | _ => numCalledLoop g s earlier

def numCalled (g : Game) (s : State) : Nat := numCalledLoop g s (s.action s.round).reverse

def maxBlind (g : Game) (least : Int) : Int :=
  (List.range g.numPlayers).foldl (fun m p => if g.blind p > m then g.blind p else m) least

/-- Cards, `roundSpent` and all entries past the players and rounds of the game keep what the
structure held before. -/
def initState (g : Game) (handId : UInt32) (prior : State) : State :=
  let maxSpent := maxBlind g 0
  { prior with
    handId := handId
    maxSpent := maxSpent
    minNoLimitRaiseTo :=
      match g.bettingType with
      | .noLimitBetting => if maxSpent ≠ 0 then wrapInt32 (maxSpent * 2) else 1
      | .limitBetting => 0
    spent := fun p => if p < g.numPlayers then g.blind p else prior.spent p
    playerFolded := fun p => if p < g.numPlayers then false else prior.playerFolded p
    action := fun r => if r < g.numRounds then [] else prior.action r
    round := 0
    finished := false }

/-- The least and largest raise, or nothing when no raise is allowed. -/
def raiseIsValid (g : Game) (s : State) : Option (Int × Int) :=
  if g.maxRaises s.round ≤ numRaises s then none
  else if s.numActions s.round + g.numPlayers > maxNumActions then none
  else if numActingPlayers g s ≤ 1 then none
  else
    match g.bettingType with
    | .limitBetting => some (0, 0)
    | .noLimitBetting =>
      let p := currentPlayer g s
      if s.minNoLimitRaiseTo > g.stack p then
        if s.maxSpent ≥ g.stack p then none else some (g.stack p, g.stack p)
      else some (s.minNoLimitRaiseTo, g.stack p)

/-- The action as `isValidAction` leaves it when it is accepted. -/
def isValidAction (g : Game) (s : State) (tryFixing : Bool) (a : Action) : Option Action :=
  if s.finished ∨ a.type = .invalid then none
  else
    let p := currentPlayer g s
    match a.type with
    | .raise =>
      match raiseIsValid g s with
      | none => none
      | some (min, max) =>
        match g.bettingType with
        | .limitBetting => some a
        | .noLimitBetting =>
          if a.size < min then if tryFixing then some { a with size := min } else none
          else if a.size > max then if tryFixing then some { a with size := max } else none
          else some a
    | .fold => if s.spent p = g.stack p then none else some { a with size := 0 }
    | _ => some { a with size := 0 }

def State.record (s : State) (a : Action) (p : Nat) : State :=
  { s with action := Function.update s.action s.round (s.action s.round ++ [(a, p)]) }

@[simp] theorem State.record_maxSpent (s : State) (a : Action) (p : Nat) :
    (s.record a p).maxSpent = s.maxSpent := rfl

@[simp] theorem State.record_minNoLimitRaiseTo (s : State) (a : Action) (p : Nat) :
    (s.record a p).minNoLimitRaiseTo = s.minNoLimitRaiseTo := rfl

@[simp] theorem State.record_spent (s : State) (a : Action) (p : Nat) :
    (s.record a p).spent = s.spent := rfl

@[simp] theorem State.record_round (s : State) (a : Action) (p : Nat) :
    (s.record a p).round = s.round := rfl

@[simp] theorem State.record_playerFolded (s : State) (a : Action) (p : Nat) :
    (s.record a p).playerFolded = s.playerFolded := rfl

/-- The chips a call brings its player to. -/
def callSize (g : Game) (s : State) (p : Nat) : Int :=
  if s.maxSpent > g.stack p then g.stack p else s.maxSpent

/-- The bet a fixed-limit raise sets. -/
def limitRaiseTo (g : Game) (s : State) (p : Nat) : Int :=
  if wrapInt32 (s.maxSpent + g.raiseSize s.round) > g.stack p then g.stack p
  else wrapInt32 (s.maxSpent + g.raiseSize s.round)

/-- The switch of `doAction`. A failed assertion has no result. The recorded size of a call is
the amount it brought the player to. -/
def bet (g : Game) (p : Nat) (a : Action) (s : State) : Option State :=
  match a.type with
  | .fold => some { s.record a p with playerFolded := Function.update s.playerFolded p true }
  | .call => some
      { s.record { a with size := callSize g s p } p with
        spent := Function.update s.spent p (callSize g s p) }
  | .raise =>
    match g.bettingType with
    | .noLimitBetting =>
      if s.maxSpent < a.size ∧ a.size ≤ g.stack p then
        some
          { s.record a p with
            minNoLimitRaiseTo :=
              if wrapInt32 (a.size + a.size - s.maxSpent) > s.minNoLimitRaiseTo then
                wrapInt32 (a.size + a.size - s.maxSpent)
              else s.minNoLimitRaiseTo
            maxSpent := a.size
            spent := Function.update s.spent p a.size }
      else none
    | .limitBetting => some
        { s.record a p with
          maxSpent := limitRaiseTo g s p
          spent := Function.update s.spent p (limitRaiseTo g s p) }
  | .invalid => none

def trackRoundSpent (a : Action) (s : State) : State :=
  if s.round = 0 then { s with roundSpent := Function.update s.roundSpent 0 s.maxSpent }
  else if a.type = .raise then
    { s with
      roundSpent := Function.update s.roundSpent s.round
        ((List.range s.round).foldl (fun v i => wrapInt32 (v - s.roundSpent i)) s.maxSpent) }
  else s

/-- The end of `doAction`, with its output `bCurRoundEnd`. -/
def endRound (g : Game) (s : State) : State × Bool :=
  if numFolded g s + 1 ≥ g.numPlayers then ({ s with finished := true }, true)
  else if numCalled g s ≥ numActingPlayers g s then
    if numActingPlayers g s > 1 then
      if s.round + 1 < g.numRounds then
        ({ s with
            round := s.round + 1
            minNoLimitRaiseTo := wrapInt32 (maxBlind g 1 + s.maxSpent) }, true)
      else ({ s with finished := true }, true)
    else ({ s with finished := true, round := g.numRounds - 1 }, true)
  else (s, false)

/-- `doAction` has no result where an assertion fails or the sentinel of `nextPlayer` would be
used as an index. -/
def doAction (g : Game) (a : Action) (s : State) : Option (State × Bool) :=
  let p := currentPlayer g s
  if p < g.numPlayers ∧ s.numActions s.round < maxNumActions then
    (bet g p a s).map fun t => endRound g (trackRoundSpent a t)
  else none

/-- One betting move: an action accepted by `isValidAction` and applied by `doAction`. -/
def Move (g : Game) (s : State) (a : Action) (t : State) : Prop :=
  ∃ tryFixing given ended,
    isValidAction g s tryFixing given = some a ∧ doAction g a s = some (t, ended)

end MasterAI
