import MasterAI.RunGame
import MasterAI.StepRuns

namespace MasterAI

def ActionType.code : ActionType → Int
  | .fold => 0
  | .call => 1
  | .raise => 2
  | .invalid => 3

/-- The connection a packet came over. -/
structure Conn where
  sock : Int
  uniqueID : Nat
  deriving DecidableEq, Repr

def thirdSucc : Int := 0
def thirdFail : Int := 1

/-- A `ThirdRobotActionRsp` with the connection it is sent over. -/
structure RobotActionRsp where
  resultCode : Int
  actionType : Int
  betNum : Int
  errMsg : List Char
  conn : Conn
  deriving DecidableEq, Repr

structure QueryStateRsp where
  resultCode : Int
  finished : Int
  round : Nat
  nextTurnID : Int
  allowRaise : List Int
  deriving DecidableEq, Repr

inductive Output
  | robotActionRsp (rsp : RobotActionRsp)
  | cfrRequest (request : CfrRequest)
  | queryStateRsp (rsp : QueryStateRsp)
  deriving DecidableEq, Repr

structure BeginNotify where
  hand : UInt32
  playerID : Int
  playerScore : Int
  bankerID : Int
  aiMode : Int
  deriving DecidableEq, Repr

structure ActionNotify where
  playerID : Int
  actionType : Int
  betNum : Int
  deriving DecidableEq, Repr

/-- The fields of a reply of the CFR server. Its `RobotID` selects the session. -/
structure CfrReply where
  handID : UInt32
  round : Nat
  actionSeq : Nat
  errCode : Int
  response : List Char
  actionInfo : List Char
  deriving DecidableEq, Repr

/-- What reaches a session. A packet that `ParseFromArray` refuses has no content. -/
inductive Msg
  | gameBeginNotify (pb : Option BeginNotify)
  | gameSendCardsNotify (pb : Option RunGame.CardsNotify)
  | gameActionNotify (pb : Option ActionNotify)
  | gameResultNotify (pb : Option RunGame.EndNotify)
  | gameRobotActionReq (conn : Conn) (parsed : Bool)
  | queryActionResp (reply : CfrReply)
  | checkRunGameTimeout
  | gameQueryStateReq (parsed : Bool)
  deriving DecidableEq, Repr

/-- The answer that folds for the robot. -/
def foldRsp (conn : Conn) (errMsg : List Char) : RobotActionRsp where
  resultCode := thirdSucc
  actionType := ActionType.fold.code
  betNum := 0
  errMsg := errMsg
  conn := conn

namespace RunGame

variable (conf : Conf) (env : Env)

/-- `CRunGameHashMap::Get` with the time of the access. -/
def touch (s : RunGame) : RunGame := { s with lastTime := env.now }

def conn (s : RunGame) : Conn := ⟨s.sock, s.uniqueID⟩

def gameBeginNotify (s : RunGame) : Option BeginNotify → RunGame
  | none => s
  | some pb =>
    if s.robotID = 0 then s
    else
      match (s.touch env).setCfrModel conf env pb.aiMode with
      | .error _ => s.touch env
      | .ok modelled =>
        let run := modelled.doRunMatch conf pb.hand pb.bankerID
        if run.2 ≠ 0 then run.1
        else { (run.1.touch env).setPlayerID pb.playerID with playerScore := pb.playerScore }

def gameSendCardsNotify (s : RunGame) : Option CardsNotify → RunGame
  | none => s
  | some pb =>
    if s.robotID = 0 then s
    else
      let saved := (s.touch env).doSaveCards conf pb
      if saved.2 ≠ 0 then { saved.1 with runState := .errCards } else saved.1

/-- The robot's own actions come back from the client and are ignored. -/
def gameActionNotify (s : RunGame) : Option ActionNotify → Option RunGame
  | none => some s
  | some pb =>
    if s.robotID = 0 then some s
    else if s.robotID = pb.playerID then some (s.touch env)
    else
      ((s.touch env).doAction conf env pb.playerID pb.actionType pb.betNum).map fun done =>
        if done.2 ≠ 0 then { done.1 with runState := .errPlayerAction } else done.1

def gameResultNotify (s : RunGame) : Option EndNotify → Option RunGame
  | none => some s
  | some pb =>
    if s.robotID = 0 then some s
    else ((s.touch env).doFinished conf env pb).map Prod.fst

/-- The text of a refused request. -/
def doneFailed (code : Int) (out : List Char) : List Char :=
  "done failed(".toList ++ printInt code ++ ")[".toList ++ out ++ "]".toList

def gameRobotActionReq (s : RunGame) (conn : Conn) (parsed : Bool) : Option (RunGame × List Output) :=
  if ¬parsed then some (s, [.robotActionRsp (foldRsp conn "parse failed".toList)])
  else if s.robotID = 0 then some (s, [.robotActionRsp (foldRsp conn "invalid robotid".toList)])
  else
    ((s.touch env).doQueryRobotAction conf env).map fun
      | (.error code, out) => (s.touch env, [.robotActionRsp (foldRsp conn (doneFailed code out))])
      | (.ok request, _) =>
        ({ s.touch env with
            requestActionTime := env.now
            runState := .waitRobotAction
            sock := conn.sock
            uniqueID := conn.uniqueID }, [.cfrRequest request])

/-- The action that a reply leads to, or nothing where one of the steps to it fails. -/
def replyAction (s : RunGame) (reply : CfrReply) : Option Action :=
  if reply.errCode ≠ 0 then none
  else if reply.response = [] ∨ reply.actionInfo = [] then none
  else do
    let _ ← conf.getCfrServer s.cfrModel
    let info ← (ActionInfo.fromText reply.actionInfo).toOption
    let g ← conf.getGame s.gameType
    let node ← env.tree info.actionSeq
    let vals ← env.convertResponse reply.response node.childNode.length
    let text ← env.robotDecision s.cfrModel info node vals
    if text = [] then none else (readAction g text).map Prod.fst

def queryActionResp (s : RunGame) (reply : CfrReply) : Option (RunGame × List Output) :=
  let s := s.touch env
  if reply.handID ≠ s.state.handId then some (s, [])
  else if reply.round ≠ s.state.round then some (s, [])
  else if s.runState ≠ .waitRobotAction then some (s, [])
  else
    match s.replyAction conf env reply with
    | none => some ({ s with runState := .ok }, [.robotActionRsp (foldRsp s.conn "Succ".toList)])
    | some a =>
      if reply.actionSeq ≠ s.actionSeq then some (s, [])
      else
        (s.doAction conf env s.robotID a.type.code a.size).map fun done =>
          ({ done.1 with runState := .ok },
            [.robotActionRsp
              (if done.2 ≠ 0 then foldRsp s.conn "Succ".toList
                else
                  { resultCode := thirdSucc, actionType := a.type.code, betNum := done.1.lastAction.betNum,
                    errMsg := "Succ".toList, conn := s.conn })])

def checkRunGameTimeout (s : RunGame) : Option RunGame × List Output :=
  if env.now - s.lastTime > conf.dataTimeout then (none, [])
  else if s.runState = .waitRobotAction ∧ env.now - s.requestActionTime > conf.robotTimeout then
    (some { s with runState := .errRobotAction }, [.robotActionRsp (foldRsp s.conn "Timeout".toList)])
  else (some s, [])

/-- The answer of `SerializeQueryState`, or its error code. -/
def serializeQueryState (s : RunGame) : Option (Except Int QueryStateRsp) :=
  if s.state.finished then some (.ok ⟨thirdSucc, 1, 0, 0, []⟩)
  else
    (getAllowRaises env s).map fun (code, raises) =>
      if code ≠ 0 then .error (-901)
      else if s.getCurrentPlayerID conf ≤ 0 then .error (-902)
      else .ok ⟨thirdSucc, 0, s.state.round, s.getCurrentPlayerID conf, raises⟩

def gameQueryStateReq (s : RunGame) (parsed : Bool) : Option (RunGame × List Output) :=
  if ¬parsed ∨ s.robotID = 0 then some (s, [.queryStateRsp ⟨thirdFail, 0, 0, 0, []⟩])
  else
    ((s.touch env).serializeQueryState conf env).map fun
      | .error _ => (s.touch env, [.queryStateRsp ⟨thirdFail, 0, 0, 0, []⟩])
      | .ok rsp => (s.touch env, [.queryStateRsp rsp])

/-- A handler at work under the lock of the robot: the session it leaves, or none when the session
is deleted, and what it sends. There is no result where an assertion or a conversion fails. -/
def deliver (s : RunGame) : Msg → Option (Option RunGame × List Output)
  | .gameBeginNotify pb => some (some (s.gameBeginNotify conf env pb), [])
  | .gameSendCardsNotify pb => some (some (s.gameSendCardsNotify conf env pb), [])
  | .gameActionNotify pb => (s.gameActionNotify conf env pb).map fun t => (some t, [])
  | .gameResultNotify pb => (s.gameResultNotify conf env pb).map fun t => (some t, [])
  | .gameRobotActionReq conn parsed =>
    (s.gameRobotActionReq conf env conn parsed).map fun (t, outputs) => (some t, outputs)
  | .queryActionResp reply =>
    (s.queryActionResp conf env reply).map fun (t, outputs) => (some t, outputs)
  | .checkRunGameTimeout => some (s.checkRunGameTimeout conf env)
  | .gameQueryStateReq parsed =>
    (s.gameQueryStateReq conf env parsed).map fun (t, outputs) => (some t, outputs)

end RunGame

/-- One message, with what its handler met outside the session and what it sent. -/
structure Event where
  env : Env
  msg : Msg
  outputs : List Output

/-- A deleted session takes no step. -/
def SessionStep (conf : Conf) (s : Option RunGame) (e : Event) (t : Option RunGame) : Prop :=
  ∃ r, s = some r ∧ r.deliver conf e.env e.msg = some (t, e.outputs)

/-- The notification opens a hand: the model is set and the match runs. -/
def RunGame.runsMatch (conf : Conf) (env : Env) (r : RunGame) (pb : BeginNotify) : Bool :=
  match (r.touch env).setCfrModel conf env pb.aiMode with
  | .error _ => false
  | .ok modelled => (modelled.doRunMatch conf pb.hand pb.bankerID).2 = 0

/-- A session whose first hand was just opened. What the structure held before is arbitrary. -/
def SessionStart (conf : Conf) (first : BeginNotify) (s : Option RunGame) : Prop :=
  ∃ (env : Env) (prior : RunGame), prior.robotID ≠ 0 ∧ prior.runsMatch conf env first = true ∧
    s = some (prior.gameBeginNotify conf env (some first))

abbrev SessionRun (conf : Conf) (first : BeginNotify) : List (Transition (Option RunGame) Event) →
    Option RunGame → Prop :=
  StepRun (SessionStep conf) (SessionStart conf first)

end MasterAI
