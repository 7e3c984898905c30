import MasterAI.ActionInfo
import MasterAI.BettingState

namespace MasterAI

inductive RunState
  | ok
  | waitRobotAction
  | errCards
  | errPlayerAction
  | errRobotAction
  deriving DecidableEq, Repr

structure LastAction where
  type : Nat
  betNum : Int
  betSize : Int
  deriving DecidableEq, Repr

/-- A session `CRunGame`. Room names, local role and room numbers and the start time of the game
only feed log lines and history records and are left out. -/
structure RunGame where
  robotID : Int
  gameType : Nat
  playerID : Int
  playerScore : Int
  actionSeq : Nat
  runState : RunState
  sock : Int
  uniqueID : Nat
  lastTime : Int
  requestActionTime : Int
  cfrServerID : Nat
  cfrModel : List Char
  matchState : MatchState
  robotResult : Int
  robotScore : Int
  historyCnt : Int
  tRobotRoundSeq : Nat
  alreadySaveHistory : Bool
  gameBeginTimes : Nat
  lastAction : LastAction

structure CfrServer where
  cfrModel : List Char
  serverID : Nat
  /-- The result of `ParamHandle::SetActionParam` on the parameters of the model. -/
  paramError : Int
  deriving DecidableEq, Repr

/-- What the server loads at its start. -/
structure Conf where
  getGame : Nat → Option Game
  /-- `CGameManager::LoadConfig` reads the games from files. -/
  loaded : ∀ gameType g, getGame gameType = some g → ∃ file, readGame file = some g
  rankCardset : Nat → Nat
  cfrServers : List CfrServer
  robotTimeout : Int
  dataTimeout : Int
  unsaveHistory : Bool

/-- What a handler finds outside the session while it runs: the clock, the connections and the
free packets, the betting tree, the decision code of the robot and the history store. -/
structure Env where
  now : Int
  connected : Nat → Bool
  tree : List Char → Option NodeInfo
  cfrKey : List Char → ActionInfo → NodeInfo → Except Int (List Char)
  freeNode : Bool
  convertResponse : List Char → Nat → Option (List Nat)
  robotDecision : List Char → ActionInfo → NodeInfo → List Nat → Option (List Char)
  lLen : Int
  lPush : Int

def gameTypeNoLimit2P : Nat := 2
def redisHistoryCnt : Int := 100000

/-- The request that `RequestActionFromCfr` sends, with the fields a reply echoes. -/
structure CfrRequest where
  key : List Char
  robotID : Int
  handID : UInt32
  round : Nat
  actionSeq : Nat
  actionInfo : List Char
  deriving DecidableEq, Repr

def Conf.getCfrServer (conf : Conf) (model : List Char) : Option CfrServer :=
  conf.cfrServers.find? fun c => c.cfrModel = model

def Conf.selectCfrModel (conf : Conf) (aiMode : Int) (gameBeginTimes : Nat) : List Char :=
  match conf.cfrServers with
  | [] => []
  | [only] => only.cfrModel
  | first :: second :: _ =>
    if aiMode = 1 then first.cfrModel
    else if aiMode = 2 then second.cfrModel
    else if gameBeginTimes % 10 < 3 then first.cfrModel
    else second.cfrModel

def Conf.selectValidModel (conf : Conf) (invalid : List Char) : List Char :=
  ((conf.cfrServers.find? fun c => c.cfrModel ≠ invalid).map CfrServer.cfrModel).getD []

namespace RunGame

variable (conf : Conf) (env : Env)

def state (s : RunGame) : State := s.matchState.state

def withState (s : RunGame) (t : State) : RunGame :=
  { s with matchState := { s.matchState with state := t } }

/-- The state after a successful `SetCfrModel`, or its error code. -/
def setCfrModelLoop (s : RunGame) : Nat → List Char → Except Int RunGame
  | again, model =>
    if model = s.cfrModel ∧ s.cfrServerID > 0 then .ok s
    else if model.length > 60 then .error (-100)
    else
      match conf.getCfrServer model with
      | none => .error (-101)
      | some cfr =>
        if ¬env.connected cfr.serverID then
          match again with
          | 0 => .error (-105)
          | again + 1 => setCfrModelLoop s again (conf.selectValidModel model)
        else if cfr.paramError ≠ 0 then .error (-102)
        else .ok { s with cfrModel := model, cfrServerID := cfr.serverID }

/-- One other model is tried when the server of the chosen one is not connected. -/
def setCfrModel (s : RunGame) (aiMode : Int) : Except Int RunGame :=
  setCfrModelLoop conf env s 1 (conf.selectCfrModel aiMode s.gameBeginTimes)

def setPlayerID (s : RunGame) (v : Int) : RunGame :=
  if v ≠ s.playerID then { s with playerID := v, robotScore := 0 } else s

/-- A structure after `memset`. -/
def clearedMatchState (viewingPlayer : Nat) : MatchState where
  state :=
    { handId := 0, maxSpent := 0, minNoLimitRaiseTo := 0, spent := fun _ => 0, action := fun _ => [],
      round := 0, finished := false, playerFolded := fun _ => false, boardCards := fun _ => 0,
      holeCards := fun _ _ => 0, roundSpent := fun _ => 0 }
  viewingPlayer := viewingPlayer

/-- The state of the session and the result of `DoRunMatch`. -/
def doRunMatch (s : RunGame) (handID : UInt32) (bankerID : Int) : RunGame × Int :=
  let s := { s with gameType := gameTypeNoLimit2P }
  match conf.getGame s.gameType with
  | none => (s, -1)
  | some g =>
    let m := clearedMatchState (if bankerID = s.robotID then 1 else 0)
    ({ s with
        matchState := { m with state := initState g handID m.state }
        actionSeq := 0
        runState := .ok
        robotResult := 0
        gameBeginTimes := (s.gameBeginTimes + 1) % 4294967296
        alreadySaveHistory := false }, 0)

def getCurrentPlayerID (s : RunGame) : Int :=
  if s.state.finished then 0
  else
    match conf.getGame s.gameType with
    | none => 0
    | some g =>
      if currentPlayer g s.state ≥ g.numPlayers then 0
      else if currentPlayer g s.state = s.matchState.viewingPlayer then s.robotID
      else s.playerID

/-- The result and the raises of `GetAllowRaises`; a child text that is no number throws. -/
def getAllowRaises (s : RunGame) : Option (Int × List Int) :=
  match env.tree (getActionInfo s.matchState).actionSeq with
  | none => some (-102, [])
  | some node =>
    ((node.childNode.filter fun c => c.length > 1 ∧ c.head? = some 'r').mapM fun c => stoi c.tail).map
      fun raises => (0, raises)

def checkAction (s : RunGame) (g : Game) (a : Action) : Option Int :=
  match a.type with
  | .call => some 0
  | .fold => some 0
  | .raise =>
    if (isValidAction g s.state false a).isNone then some (-12)
    else (getAllowRaises env s).map fun (code, raises) =>
      if code ≠ 0 then -13 else if a.size ∈ raises then 0 else -99
  | .invalid => some (-2)

def actionTypeOf (actionType : Int) : ActionType :=
  if actionType = 0 then .fold
  else if actionType = 1 then .call
  else if actionType = 2 then .raise
  else .invalid

/-- The bets that `DoAction` notes: the robot's amount is the total, the player's the increase. -/
def noteAction (s : RunGame) (actionUid actionType betNum : Int) : LastAction :=
  if actionType = 2 then
    if actionUid = s.robotID then
      { type := 2, betNum := wrapInt32 (betNum - s.state.spent s.matchState.viewingPlayer), betSize := betNum }
    else
      { type := 2, betNum := betNum,
        betSize := wrapInt32 (betNum + s.state.spent ((s.matchState.viewingPlayer + 1) % 2)) }
  else { type := toUInt8 actionType, betNum := 0, betSize := 0 }

/-- The session and the result of `DoAction`; nothing where an assertion of the game fails. -/
def doAction (s : RunGame) (actionUid actionType betNum : Int) : Option (RunGame × Int) :=
  let s := { s with lastAction := s.noteAction actionUid actionType betNum }
  let a : Action := ⟨actionTypeOf actionType, s.lastAction.betSize⟩
  match conf.getGame s.gameType with
  | none => some (s, -1000)
  | some g =>
    if s.getCurrentPlayerID conf ≠ actionUid then some (s, -1001)
    else
      match s.checkAction env g a with
      | none => none
      | some code =>
        if code ≠ 0 then some (s, -1002)
        else (MasterAI.doAction g a s.state).map fun (t, _) =>
          ({ s.withState t with actionSeq := (s.actionSeq + 1) % 256 }, 0)

/-- `ApgCardToLocal`: the suit in the second hexadecimal digit, the rank from 2 to 14 in the first. -/
def apgCardToLocal (card : Int) : Option Nat :=
  let bits := (card % 65536).toNat
  let rank := bits % 16
  let suit : Option Nat := [1, 0, 2, 3][bits / 16 % 16]?
  match suit with
  | none => none
  | some suit => if rank < 2 ∨ 14 < rank then none else some (makeCard (rank - 2) suit)

/-- Stores cards one after another and stops at the first that is no card. -/
def storeApgCards : Nat → List Int → (Nat → Nat) → (Nat → Nat) × Bool
  | _, [], cards => (cards, true)
  | place, card :: rest, cards =>
    match apgCardToLocal card with
    | none => (cards, false)
    | some c => storeApgCards (place + 1) rest (Function.update cards place c)

def storeHoleCards (s : RunGame) (p : Nat) (cards : List Int) : RunGame × Bool :=
  let stored := storeApgCards 0 cards (s.state.holeCards p)
  (s.withState { s.state with holeCards := Function.update s.state.holeCards p stored.1 }, stored.2)

def storeBoardCards (s : RunGame) (place : Nat) (cards : List Int) : RunGame × Bool :=
  let stored := storeApgCards place cards s.state.boardCards
  (s.withState { s.state with boardCards := stored.1 }, stored.2)

structure CardsNotify where
  round : Nat
  robotCards : List Int
  boardCards : List Int
  deriving DecidableEq, Repr

/-- What `DoSaveCards` stores for the round, with its error code when a card is invalid. -/
def storeRoundCards (s : RunGame) (pb : CardsNotify) : RunGame × Int :=
  let result := fun (r : RunGame × Bool) (code : Int) => (r.1, if r.2 then 0 else code)
  if pb.round = 0 ∧ pb.robotCards.length = 2 then
    result (s.storeHoleCards s.matchState.viewingPlayer pb.robotCards) (-102)
  else if pb.round = 1 ∧ pb.boardCards.length = 3 then result (s.storeBoardCards 0 pb.boardCards) (-103)
  else if pb.round = 2 ∧ pb.boardCards.length = 1 then result (s.storeBoardCards 3 pb.boardCards) (-104)
  else if pb.round = 3 ∧ pb.boardCards.length = 1 then result (s.storeBoardCards 4 pb.boardCards) (-105)
  else (s, -110)

def doSaveCards (s : RunGame) (pb : CardsNotify) : RunGame × Int :=
  if pb.round ≠ s.state.round then (s, -101)
  else
    let stored := { s with tRobotRoundSeq := 0 }.storeRoundCards pb
    if stored.2 ≠ 0 then stored
    else if (conf.getGame s.gameType).isNone then (stored.1, -1)
    else stored

/-- The result of a conversion of a double to a 32-bit integer. -/
def truncate (q : ℚ) : Int := wrapInt32 (if 0 ≤ q then q.floor else q.ceil)

/-- `SaveHistory`, as far as it touches the session. -/
def saveHistory (s : RunGame) : RunGame × Bool :=
  if conf.unsaveHistory then (s, true)
  else
    let cnt := if s.historyCnt > redisHistoryCnt then env.lLen else s.historyCnt
    if cnt > redisHistoryCnt then ({ s with historyCnt := cnt }, false)
    else ({ s with historyCnt := env.lPush }, true)

structure EndNotify where
  hand : UInt32
  robotResult : Int
  playerCards : List Int
  boardCards : List Int
  deriving DecidableEq, Repr

/-- The value of the hand is added to the robot and taken from the player. -/
def score (s : RunGame) (result : Int) : RunGame :=
  { s with
    robotResult := result
    robotScore := wrapInt32 (s.robotScore + result)
    playerScore := wrapInt32 (s.playerScore - result) }

/-- The session and the result of `DoFinished`; nothing where `valueOfState` fails. -/
def doFinished (s : RunGame) (pb : EndNotify) : Option (RunGame × Int) :=
  if s.alreadySaveHistory then some (s, 0)
  else if ¬s.state.finished then some (s, -99)
  else
    match conf.getGame s.gameType with
    | none => some (s, -98)
    | some g =>
      let held := s.storeHoleCards ((s.matchState.viewingPlayer + 1) % 2) (pb.playerCards.take 2)
      if ¬held.2 then some (held.1, -102)
      else
        let dealt := held.1.storeBoardCards 0 (pb.boardCards.take 5)
        if ¬dealt.2 then some (dealt.1, -103)
        else
          match valueOfState conf.rankCardset g dealt.1.state s.matchState.viewingPlayer with
          | none => none
          | some value =>
            let saved := (dealt.1.score (truncate value)).saveHistory conf env
            if ¬saved.2 then some (saved.1, -112)
            else some ({ saved.1 with alreadySaveHistory := true }, 0)

/-- The request, or the error code, of `RequestActionFromCfr`. -/
def requestActionFromCfr (s : RunGame) : Except Int CfrRequest :=
  let info := getActionInfo s.matchState
  if s.runState ≠ .ok then .error (-1000)
  else if s.getCurrentPlayerID conf ≠ s.robotID then .error (-1001)
  else if ¬env.connected s.cfrServerID then .error (-1002)
  else
    match conf.getGame s.gameType with
    | none => .error (-1002)
    | some g =>
      if (printMatchState g s.matchState 500).isNone then .error (-3)
      else
        match env.tree info.actionSeq, conf.getCfrServer s.cfrModel with
        | none, _ => .error (-102)
        | some _, none => .error (-112)
        | some node, some _ =>
          match env.cfrKey s.cfrModel info node with
          | .error code => .error code
          | .ok key =>
            if ¬env.freeNode then .error (-105)
            else
              .ok
                { key := key, robotID := s.robotID, handID := s.state.handId, round := s.state.round,
                  actionSeq := s.actionSeq, actionInfo := info.toText }

/-- The raises of a log text, as far as they fit the buffer. -/
def raisesText (raises : List Int) : List Char :=
  raises.foldl (fun text n => if text.length < 200 then text ++ 'r' :: printInt n ++ [' '] else text) []

/-- The request or the error code of `DoQueryRobotAction`, with its text for the log. -/
def doQueryRobotAction (s : RunGame) : Option (Except Int CfrRequest × List Char) :=
  if s.getCurrentPlayerID conf ≠ s.robotID then
    (getAllowRaises env s).map fun (code, raises) =>
      if code ≠ 0 then (.error (-1900), [])
      else (.error (-1901), "Player_allow_raise=".toList ++ raisesText raises)
  else
    match s.requestActionFromCfr conf env with
    | .error code => some (.error (-20000 + code), [])
    | .ok request => some (.ok request, [])

end RunGame

end MasterAI
