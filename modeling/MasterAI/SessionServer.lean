import MasterAI.KeyedRuns
import MasterAI.RequestAnswers
import MasterAI.RunGameNodes

namespace MasterAI

namespace RunGame

/-- `Reset` of the constructor. The other fields keep what the memory held before. -/
def reset (raw : RunGame) : RunGame :=
  { raw with
    robotID := 0
    gameType := 0
    playerID := 0
    playerScore := 0
    cfrServerID := 0
    sock := -1
    uniqueID := 0
    lastTime := 0
    matchState := clearedMatchState 0
    cfrModel := [] }

/-- The local session of `GameBeginNotify`, of which only the key is set. -/
def create (raw : RunGame) (robotID : Int) : RunGame := { raw.reset with robotID := robotID }

/-- The part of `CheckRunGameTimeout` for a session that is not late. -/
def checkRobotDelay (conf : Conf) (env : Env) (s : RunGame) : RunGame × List Output :=
  if s.runState = .waitRobotAction ∧ env.now - s.requestActionTime > conf.robotTimeout then
    ({ s with runState := .errRobotAction }, [.robotActionRsp (foldRsp s.conn "Timeout".toList)])
  else (s, [])

/-- What a handler does with the session that `Get` has found. -/
def work (conf : Conf) (env : Env) (s : RunGame) : Msg → Option (RunGame × List Output)
  | .checkRunGameTimeout => some (s.checkRobotDelay conf env)
  | msg => (s.deliver conf env msg).bind fun (t, outputs) => t.map fun t => (t, outputs)

end RunGame

/-- The answer of a handler that refuses a packet before it takes the lock of the robot. -/
def Msg.refused (robotID : Int) : Msg → Option (List Output)
  | .gameBeginNotify pb => if pb = none ∨ robotID = 0 then some [] else none
  | .gameSendCardsNotify pb => if pb = none ∨ robotID = 0 then some [] else none
  | .gameActionNotify pb => if pb = none ∨ robotID = 0 then some [] else none
  | .gameResultNotify pb => if pb = none ∨ robotID = 0 then some [] else none
  | .gameRobotActionReq conn parsed =>
    if ¬parsed then some [.robotActionRsp (foldRsp conn "parse failed".toList)]
    else if robotID = 0 then some [.robotActionRsp (foldRsp conn "invalid robotid".toList)]
    else none
  | .gameQueryStateReq parsed =>
    if ¬parsed ∨ robotID = 0 then some [.queryStateRsp ⟨thirdFail, 0, 0, 0, []⟩] else none
  | .queryActionResp _ => none
  | .checkRunGameTimeout => none

/-- The answer where the robot has no session. -/
def Msg.unknown : Msg → List Output
  | .gameRobotActionReq conn _ => [.robotActionRsp (foldRsp conn "Get runGame failed".toList)]
  | .gameQueryStateReq _ => [.queryStateRsp ⟨thirdFail, 0, 0, 0, []⟩]
  | _ => []

def Msg.isCheck : Msg → Bool
  | .checkRunGameTimeout => true
  | _ => false

/-- A message for a robot, with what its handler will meet outside the sessions and the memory in which it
builds a new one. -/
structure Request where
  robotID : Int
  msg : Msg
  env : Env
  raw : RunGame

/-- A message that was handled, with its answers. `GameRobotActionReq` and `GameQueryStateReq` send theirs only after
they have let the lock of the robot go. -/
def Request.handled (q : Request) (outputs : List Output) : Option (Int × Event) :=
  some (q.robotID, ⟨q.env, q.msg, outputs⟩)

/-- Where a thread is in its handler. Every call of the map is one step: it holds the lock of its bucket. -/
inductive HandlerPoint
  | idle
  | lock (q : Request)
  | isTimeOut (q : Request)
  | del (q : Request)
  | get (q : Request)
  | add (q : Request)
  | getAgain (q : Request)
  | work (q : Request) (node : Nat) (found : RunGame)
  | unlock (q : Request)

structure SessionServer where
  map : RunGameHashMap
  lockSize : Nat
  holder : Nat → Option Nat
  points : Nat → HandlerPoint

namespace SessionServer

/-- `GetLock`: the id as an unsigned 64-bit number. -/
def getLock (s : SessionServer) (robotID : Int) : Nat := (robotID % 18446744073709551616).toNat % s.lockSize

def goto (s : SessionServer) (w : Nat) (p : HandlerPoint) : SessionServer :=
  { s with points := Function.update s.points w p }

def withMap (s : SessionServer) (map : RunGameHashMap) : SessionServer := { s with map := map }

/-- A change of the session in a node. -/
def store (s : SessionServer) (node : Nat) (g : RunGame) : SessionServer :=
  s.withMap { s.map with game := Function.update s.map.game node g }

/-- The next step of a handler, and the message that it has handled then. There is none where the lock is taken, where
an assertion or a conversion fails and where an id is looked up behind the buckets. -/
def run (conf : Conf) (s : SessionServer) (w : Nat) : Option (Option (Int × Event) × SessionServer) :=
  match s.points w with
  | .idle => none
  | .lock q =>
    if s.holder (s.getLock q.robotID) ≠ none then none
    else
      let s := { s with holder := Function.update s.holder (s.getLock q.robotID) (some w) }
      some (none, s.goto w (if q.msg.isCheck then .isTimeOut q else .get q))
  | .isTimeOut q =>
    (s.map.isTimeOut conf.dataTimeout q.robotID q.env.now).map fun late =>
      (none, s.goto w (if late then .del q else .get q))
  | .del q =>
    (s.map.del q.robotID).map fun (_, map) => (q.handled [], (s.withMap map).goto w (.unlock q))
  | .get q =>
    (s.map.getNode q.robotID (!q.msg.isCheck) q.env.now).map fun (node, map) =>
      match node with
      | some node => (none, (s.withMap map).goto w (.work q node (map.game node)))
      | none =>
        if q.msg.isBegin then (none, (s.withMap map).goto w (.add q))
        else (q.handled q.msg.unknown, (s.withMap map).goto w (.unlock q))
  | .add q =>
    (s.map.add (q.raw.create q.robotID) q.env.now).map fun (code, map) =>
      if code ≠ 0 then (q.handled [], (s.withMap map).goto w (.unlock q))
      else (none, (s.withMap map).goto w (.getAgain q))
  | .getAgain q =>
    (s.map.getNode q.robotID true q.env.now).map fun (node, map) =>
      match node with
      | some node => (none, (s.withMap map).goto w (.work q node (map.game node)))
      | none => (q.handled [], (s.withMap map).goto w (.unlock q))
  | .work q node found =>
    (found.work conf q.env q.msg).map fun (g, outputs) => (q.handled outputs, (s.store node g).goto w (.unlock q))
  | .unlock q =>
    some (none, { s with holder := Function.update s.holder (s.getLock q.robotID) none }.goto w .idle)

end SessionServer

/-- What happens to a thread: it takes a message, makes its next step, or leaves anything but another id in the session
that it is at work on. -/
inductive ThreadInput
  | take (q : Request)
  | run
  | write (g : RunGame)

namespace SessionServer

def serve (conf : Conf) (s : SessionServer) (w : Nat) : ThreadInput → Option (Option (Int × Event) × SessionServer)
  | .take q =>
    match s.points w with
    | .idle =>
      match q.msg.refused q.robotID with
      | some outputs => some (q.handled outputs, s)
      | none => some (none, s.goto w (.lock q))
    | _ => none
  | .run => s.run conf w
  | .write g =>
    match s.points w with
    | .work _ node _ => some (none, s.store node { g with robotID := (s.map.game node).robotID })
    | _ => none

def Step (conf : Conf) (s : SessionServer) (e : Option (Int × Event)) (t : SessionServer) : Prop :=
  ∃ w input, s.serve conf w input = some (e, t)

structure Start (size buckets : Nat) (s : SessionServer) : Prop where
  map : HashMapStart size buckets s.map
  lockSize : 0 < s.lockSize
  holder : ∀ i, s.holder i = none
  points : ∀ w, s.points w = .idle

abbrev Run (conf : Conf) (size buckets : Nat) := StepRun (Step conf) (Start size buckets)

end SessionServer

/-- The messages of one robot, handled one after another: a session is made by a begin notification, where the table
has room for it, and goes when it is late. -/
inductive RobotStep (conf : Conf) (robotID : Int) : Option RunGame → Event → Option RunGame → Prop
  | refused {s e} : e.msg.refused robotID = some e.outputs → RobotStep conf robotID s e s
  | session {s e t} : e.msg.refused robotID = none → SessionStep conf s e t → RobotStep conf robotID s e t
  | created {e} (raw : RunGame) (pb : BeginNotify) : robotID ≠ 0 → e.msg = .gameBeginNotify (some pb) →
      e.outputs = [] → RobotStep conf robotID none e
        (some ((raw.create robotID).gameBeginNotify conf e.env (some pb)))
  | full {e} : e.msg.refused robotID = none → e.msg.isBegin = true → e.outputs = [] →
      RobotStep conf robotID none e none
  | unknown {e} : e.msg.refused robotID = none → e.msg.isBegin = false → e.outputs = e.msg.unknown →
      RobotStep conf robotID none e none

/-- All robots together, one message at a time. -/
abbrev RobotsRun (conf : Conf) :=
  StepRun (KeyedStep (RobotStep conf)) fun sessions : Int → Option RunGame => sessions = fun _ => none

end MasterAI
