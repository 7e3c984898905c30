import MasterAI.StepRuns
import MasterAI.TrainSchedule

namespace MasterAI

/-- A task of `TASK_TYPE_TRAIN`, `TASK_TYPE_LOAD_MODEL` or `TASK_TYPE_SAVE_MODEL`. -/
inductive TrainerTask
  | train (taskId : Nat)
  | load (agent : Nat)
  | save (agent : Nat)
  deriving DecidableEq, Repr

/-- What a thread of `TaskExecutor::consume` does next. -/
inductive ConsumePoint
  | loop
  | get
  | process (task : TrainerTask)
  | count (task : TrainerTask)
  | exited
  deriving DecidableEq, Repr

/-- What the thread of `start`, `train` and `stop` does next. Every point reads the shared counters at most once. -/
inductive TrainPoint
  | load (agent : Nat)
  | waitLoaded
  | loop
  | waitIdle
  | triggers
  | status
  | strategy
  | threshold
  | discount
  | factor1
  | factor2 (processed : Nat)
  | serialize
  | save (agent : Nat)
  | waitSaved
  | waitAgain
  | finished
  | taskNum
  | submit (left : Nat)
  | push (taskId left : Nat)
  | final
  | kill
  | wait
  | store
  | done
  deriving DecidableEq, Repr

/-- A call that leaves the trainer. The factor of `agentDiscount` comes from two reads of `mNumProcessed`. -/
inductive TrainerCall
  | status
  | strategy (processed : Nat)
  | discount (processed processed' : Nat)
  | save (processed : Nat)
  | submit (task : TrainerTask)
  | store
  deriving DecidableEq, Repr

/-- A `Trainer` and the `TaskExecutor` that works for it. -/
structure TrainSystem where
  running : Bool
  numIterations : Nat
  numProcessed : Nat
  agentLoaded : Nat
  agentSaved : Nat
  needWaitting : Bool
  point : TrainPoint
  consumeRunning : Bool
  numTaskThread : Nat
  qTask : List TrainerTask
  consumers : List ConsumePoint
  deriving DecidableEq, Repr

namespace TrainSystem

def submitTask (s : TrainSystem) (task : TrainerTask) : TrainSystem := { s with qTask := s.qTask ++ [task] }

/-- One step of the thread that calls `start`, `train` and `stop`, from `parallelLoad` on. It has none where the
source divides by zero. -/
def mainStep (c : TrainConfig) (agentSize : Nat) (s : TrainSystem) : Option (Option TrainerCall × TrainSystem) :=
  match s.point with
  | .load agent =>
    if agent < agentSize then
      some (some (.submit (.load agent)), { s.submitTask (.load agent) with point := .load (agent + 1) })
    else some (none, { s with point := .waitLoaded })
  | .waitLoaded =>
    if s.running ∧ s.agentLoaded ≠ agentSize then some (none, s) else some (none, { s with point := .loop })
  | .loop => some (none, { s with point := if s.running then .waitIdle else .final })
  | .waitIdle =>
    if s.running ∧ s.numIterations ≠ s.numProcessed then some (none, s)
    else some (none, { s with point := .triggers })
  | .triggers =>
    some (none, { s with
      needWaitting := false
      point := if s.numIterations > 0 ∧ s.numProcessed > 0 then .status else .waitAgain })
  | .status =>
    if c.resetPoolInterval = 0 then none
    else some (if s.numIterations % c.resetPoolInterval = 0 then some .status else none, { s with point := .strategy })
  | .strategy =>
    if asUInt32 c.strategyInterval = 0 then none
    else if s.numProcessed % asUInt32 c.strategyInterval = 0 then
      some (some (.strategy s.numProcessed), { s with needWaitting := true, point := .threshold })
    else some (none, { s with point := .threshold })
  | .threshold =>
    some (none, { s with point := if s.numProcessed < asUInt32 c.lcfrThreshold then .discount else .serialize })
  | .discount =>
    if asUInt32 c.discountInterval = 0 then none
    else if s.numProcessed % asUInt32 c.discountInterval = 0 then some (none, { s with point := .factor1 })
    else some (none, { s with point := .serialize })
  | .factor1 => some (none, { s with point := .factor2 s.numProcessed })
  | .factor2 processed =>
    some (some (.discount processed s.numProcessed), { s with needWaitting := true, point := .serialize })
  | .serialize =>
    if asUInt32 c.serializeInterval = 0 then none
    else if s.numProcessed % asUInt32 c.serializeInterval = 0 then
      some (some (.save s.numProcessed), { s with agentSaved := 0, point := .save 0 })
    else some (none, { s with point := .waitAgain })
  | .save agent =>
    if agent < agentSize then
      some (some (.submit (.save agent)), { s.submitTask (.save agent) with point := .save (agent + 1) })
    else some (none, { s with point := .waitSaved })
  | .waitSaved =>
    if s.running ∧ s.agentSaved ≠ agentSize then some (none, s) else some (none, { s with point := .waitAgain })
  | .waitAgain =>
    if s.needWaitting ∧ s.running ∧ s.numIterations ≠ s.numProcessed then some (none, s)
    else some (none, { s with point := .finished })
  | .finished =>
    some (none, { s with point := if s.numProcessed ≥ asUInt32 c.maxIterations then .final else .taskNum })
  | .taskNum =>
    let taskNum := c.taskNum ⟨s.numIterations, s.numProcessed⟩
    some (none, { s with
      point := if s.numIterations < asUInt32 c.maxIterations then .submit taskNum.toNat else .loop })
  | .submit 0 => some (none, { s with point := .loop })
  | .submit (left + 1) =>
    let taskId := (s.numIterations + 1) % 4294967296
    some (none, { s with numIterations := taskId, point := .push taskId left })
  | .push taskId left =>
    some (some (.submit (.train taskId)), { s.submitTask (.train taskId) with point := .submit left })
  | .final => some (none, if s.qTask.isEmpty then { s with point := .kill } else s)
  | .kill => some (none, { s with consumeRunning := false, point := .wait })
  | .wait => some (none, if s.numTaskThread > 0 then s else { s with point := .store })
  | .store => some (some .store, { s with point := .done })
  | .done => none

/-- The counter that a processed task increments. -/
def countTask (s : TrainSystem) : TrainerTask → TrainSystem
  | .train _ => { s with numProcessed := (s.numProcessed + 1) % 4294967296 }
  | .load _ => { s with agentLoaded := (s.agentLoaded + 1) % 4294967296 }
  | .save _ => { s with agentSaved := (s.agentSaved + 1) % 4294967296 }

def setConsumer (s : TrainSystem) (w : Nat) (p : ConsumePoint) : TrainSystem :=
  { s with consumers := s.consumers.set w p }

/-- One step of a thread of `consume`, with the task whose work it does. -/
def consume (s : TrainSystem) (w : Nat) : Option (Option TrainerTask × TrainSystem) :=
  match s.consumers[w]? with
  | some .loop =>
    if s.consumeRunning then some (none, s.setConsumer w .get)
    else some (none, { s.setConsumer w .exited with numTaskThread := s.numTaskThread - 1 })
  | some .get =>
    match s.qTask with
    | [] => some (none, s.setConsumer w .loop)
    | task :: qTask => some (none, { s.setConsumer w (.process task) with qTask })
  | some (.process task) => some (some task, s.setConsumer w (.count task))
  | some (.count task) => some (none, (s.setConsumer w .loop).countTask task)
  | _ => none

end TrainSystem

inductive TrainerMove
  | main (call : Option TrainerCall)
  | consume (w : Nat) (worked : Option TrainerTask)
  | kill
  deriving DecidableEq, Repr

/-- The threads take turns at any point, and `Trainer::kill` can come from outside at any time. -/
inductive TrainSystem.Step (c : TrainConfig) (agentSize : Nat) : TrainSystem → TrainerMove → TrainSystem → Prop
  | main {s call t} : s.mainStep c agentSize = some (call, t) → Step c agentSize s (.main call) t
  | consume {s w worked t} : s.consume w = some (worked, t) → Step c agentSize s (.consume w worked) t
  | kill {s} : Step c agentSize s .kill { s with running := false }

/-- What `start` leaves before `parallelLoad`: the threads run and the counters start at `mMinIterations`. -/
structure TrainSystem.Start (minIterations : Nat) (s : TrainSystem) : Prop where
  running : s.running = true
  numIterations : s.numIterations = minIterations
  numProcessed : s.numProcessed = minIterations
  fits : minIterations < 4294967296
  agentLoaded : s.agentLoaded = 0
  agentSaved : s.agentSaved = 0
  point : s.point = .load 0
  consumeRunning : s.consumeRunning = true
  numTaskThread : s.numTaskThread = s.consumers.length
  qTask : s.qTask = []
  consumers : ∀ p ∈ s.consumers, p = .loop

abbrev TrainSystem.Run (c : TrainConfig) (agentSize minIterations : Nat) :
    List (Transition TrainSystem TrainerMove) → TrainSystem → Prop :=
  StepRun (TrainSystem.Step c agentSize) (TrainSystem.Start minIterations)

end MasterAI
