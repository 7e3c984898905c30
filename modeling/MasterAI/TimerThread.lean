import MasterAI.StepRuns
import Mathlib.Logic.Function.Basic

namespace MasterAI

structure TimerKey where
  timerID : Nat
  handlerID : Nat
  deriving DecidableEq, Repr

/-- A `TimerValue`. A handler is known by its address, zero for none, and `attached` tells whether
the record points to the timer thread. -/
structure TimerValue where
  timerID : Nat
  callTimes : Nat
  interval : Nat
  handler : Nat
  attached : Bool
  initTime : Int
  lastCallTime : Int
  deriving DecidableEq, Repr

inductive TimerNotifyType
  | default
  | attach
  | detach
  deriving DecidableEq, Repr

/-- A notification, with the number of the record it carries. -/
structure TimerNotify where
  type : TimerNotifyType
  key : TimerKey
  value : Option Nat
  deriving DecidableEq, Repr

/-- The timer manager and its thread. Records are numbered in the order in which they were
allocated; `pool` lists the used slots of the pool's array, the top first, and `overrun` tells
that a record was stored past the end of that array. -/
structure Timers where
  initSize : Nat
  dynamicSize : Nat
  created : Nat
  pool : List Nat
  overrun : Bool
  lstTimerNotify : List TimerNotify
  mapTimerTask : List (TimerKey × Nat)
  value : Nat → TimerValue
  pending : Nat → Bool

def freshValue : TimerValue where
  timerID := 0
  callTimes := 0
  interval := 0
  handler := 0
  attached := false
  initTime := 0
  lastCallTime := 0

/-- `PreObject::Init`, which refuses a pool of fewer than two records. -/
def Timers.init (preNodeCnt : Nat) : Option Timers :=
  if preNodeCnt ≤ 1 then none
  else some
    { initSize := preNodeCnt
      dynamicSize := 0
      created := preNodeCnt
      pool := (List.range preNodeCnt).reverse
      overrun := false
      lstTimerNotify := []
      mapTimerTask := []
      value := fun _ => freshValue
      pending := fun _ => false }

def Timers.setValue (s : Timers) (r : Nat) (v : TimerValue) : Timers :=
  { s with value := Function.update s.value r v }

/-- `PopTimerValue`: the top of the pool, or one of a limited number of new records. -/
def Timers.popTimerValue (s : Timers) : Option (Nat × Timers) :=
  match s.pool with
  | r :: rest => some (r, { s with pool := rest })
  | [] =>
    if s.dynamicSize > s.initSize / 3 then none
    else some (s.created,
      { s with
        created := s.created + 1
        dynamicSize := s.dynamicSize + 1
        value := Function.update s.value s.created freshValue
        pending := Function.update s.pending s.created false })

/-- `PreObject::Push`, whose array has a slot for each record of the start only. -/
def Timers.push (s : Timers) (r : Nat) : Timers :=
  if s.pool.length < s.initSize then { s with pool := r :: s.pool } else { s with overrun := true }

def Timers.pushTimerValue (s : Timers) (r : Nat) : Timers :=
  (s.setValue r { s.value r with
    handler := 0, attached := false, timerID := 0, callTimes := 0, interval := 0 }).push r

/-- `CTimerManager::Attack`, which changes nothing when it returns false. -/
def Timers.attack (s : Timers) (handler timerID interval callTimes : Nat) (now : Int) : Timers :=
  if handler = 0 ∨ interval = 0 ∨ callTimes = 0 then s
  else
    match s.popTimerValue with
    | none => s
    | some (r, s) =>
      let s := s.setValue r { s.value r with
        timerID, callTimes, interval, handler, initTime := now, lastCallTime := now }
      { s with lstTimerNotify := s.lstTimerNotify ++ [⟨.attach, ⟨timerID, handler⟩, some r⟩] }

def Timers.detach (s : Timers) (handler timerID : Nat) : Timers :=
  if handler = 0 then s
  else { s with lstTimerNotify := s.lstTimerNotify ++ [⟨.detach, ⟨timerID, handler⟩, none⟩] }

def Timers.find (s : Timers) (key : TimerKey) : Option Nat :=
  (s.mapTimerTask.find? fun e => e.1 = key).map Prod.snd

/-- `evtimer_add` with its outcome. -/
def Timers.registerTimerEvent (s : Timers) (r : Nat) (added : Bool) : Timers :=
  if added then { s with pending := Function.update s.pending r true } else s

/-- The parameters that `DoAttack` refuses. -/
def Timers.invalidParam (s : Timers) (key : TimerKey) (r : Nat) : Prop :=
  let v := s.value r
  v.handler = 0 ∨ key.handlerID ≠ v.handler ∨ key.timerID ≠ v.timerID ∨ v.attached = false ∨
    v.initTime = 0 ∨ v.lastCallTime = 0 ∨ v.callTimes = 0 ∨ v.interval = 0

instance (s : Timers) (key : TimerKey) (r : Nat) : Decidable (s.invalidParam key r) :=
  inferInstanceAs (Decidable (_ ∨ _))

/-- `DoAttack`, given whether `event_base_set` and `event_add` succeed. -/
def Timers.doAttack (s : Timers) (key : TimerKey) (r : Nat) (baseSet added : Bool) : Timers :=
  if s.invalidParam key r then s.pushTimerValue r
  else
    match s.find key with
    | some old =>
      let v := s.value r
      let s := s.setValue old { s.value old with
        interval := v.interval, callTimes := v.callTimes, lastCallTime := v.lastCallTime }
      (s.registerTimerEvent old added).pushTimerValue r
    | none =>
      let s := { s with mapTimerTask := s.mapTimerTask ++ [(key, r)] }
      if baseSet then s.registerTimerEvent r added else s.pushTimerValue r

/-- `DoDetach`, with its result. -/
def Timers.doDetach (s : Timers) (key : TimerKey) : Timers × Bool :=
  match s.find key with
  | some r =>
    ({ s with
        mapTimerTask := s.mapTimerTask.eraseP fun e => e.1 = key
        pending := Function.update s.pending r false }.pushTimerValue r, true)
  | none => (s, false)

/-- `NotifyCallback` takes the first notification of the queue. -/
def Timers.notifyCallback (s : Timers) (baseSet added : Bool) : Timers :=
  match s.lstTimerNotify with
  | [] => s
  | n :: rest =>
    let s := { s with lstTimerNotify := rest }
    match n.type, n.value with
    | .attach, some r => (s.setValue r { s.value r with attached := true }).doAttack n.key r baseSet added
    | .attach, none => s
    | .detach, _ => (s.doDetach n.key).1
    | .default, some r => s.pushTimerValue r
    | .default, none => s

/-- `TimerCallback` after the handler has run. -/
def Timers.timerCallback (s : Timers) (r : Nat) (now : Int) (added : Bool) : Timers :=
  let v := s.value r
  if v.attached = false ∨ v.handler = 0 then s
  else
    let v := { v with lastCallTime := now, callTimes := v.callTimes - 1 }
    let s := s.setValue r v
    if v.callTimes = 0 then
      let (t, found) := s.doDetach ⟨v.timerID, v.handler⟩
      if found then t else { t with pending := Function.update t.pending r false }
    else s.registerTimerEvent r added

inductive TimerEvent
  | attack (handler timerID interval callTimes : Nat) (now : Int)
  | detach (handler timerID : Nat)
  | notify (baseSet added : Bool)
  | expire (r : Nat) (now : Int) (added : Bool)
  deriving DecidableEq, Repr

/-- One request or one callback. Only a pending event expires, and nothing is defined once the
pool has overrun its array. -/
def Timers.step (s : Timers) : TimerEvent → Option Timers
  | .attack handler timerID interval callTimes now =>
    if s.overrun then none else some (s.attack handler timerID interval callTimes now)
  | .detach handler timerID => if s.overrun then none else some (s.detach handler timerID)
  | .notify baseSet added => if s.overrun then none else some (s.notifyCallback baseSet added)
  | .expire r now added =>
    if s.overrun ∨ s.pending r = false then none else some (s.timerCallback r now added)

/-- The runs of the timer thread from any initialised pool, over every order of requests,
callbacks and failures. -/
abbrev TimerRun :=
  StepRun (fun s e t => Timers.step s e = some t) fun s => ∃ preNodeCnt, Timers.init preNodeCnt = some s

end MasterAI
