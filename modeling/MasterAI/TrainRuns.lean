import MasterAI.TrainWorkers
import Mathlib.Algebra.Order.BigOperators.Group.List
import Mathlib.Algebra.Order.Group.Multiset

namespace MasterAI

/-- What the sum over a row loses and gets where one entry changes. -/
theorem sum_map_set {α M : Type*} [AddCommMonoid M] (f : α → M) {l : List α} {i : Nat} {a b : α}
    (h : l[i]? = some a) : ((l.set i b).map f).sum + f a = (l.map f).sum + f b := by
  induction l generalizing i with
  | nil => simp at h
  | cons x l ih =>
    cases i with
    | zero =>
      obtain rfl := Option.some.inj h
      simp only [List.set_cons_zero, List.map_cons, List.sum_cons]
      rw [add_right_comm, add_comm (f b), add_right_comm, add_comm (f x)]
    | succ i =>
      simp only [List.set_cons_succ, List.map_cons, List.sum_cons]
      rw [add_assoc, ih h, ← add_assoc]

inductive TaskKind
  | train
  | load
  | save
  deriving DecidableEq, Repr

def TrainerTask.kind : TrainerTask → TaskKind
  | .train _ => .train
  | .load _ => .load
  | .save _ => .save

/-- The task that a thread of `consume` has in its hands. -/
def ConsumePoint.task : ConsumePoint → Option TrainerTask
  | .process task => some task
  | .count task => some task
  | _ => none

/-- What a thread has taken from the queue and not worked on yet. -/
def ConsumePoint.taken : ConsumePoint → Multiset TrainerTask
  | .process task => {task}
  | _ => 0

def ConsumePoint.holds (k : TaskKind) (p : ConsumePoint) : Nat :=
  if p.task.map TrainerTask.kind = some k then 1 else 0

def ConsumePoint.live : ConsumePoint → Nat
  | .exited => 0
  | _ => 1

def TrainerMove.submits : TrainerMove → List TrainerTask
  | .main (some (.submit task)) => [task]
  | _ => []

def TrainerMove.works : TrainerMove → List TrainerTask
  | .consume _ (some task) => [task]
  | _ => []

/-- The tasks that a run submits, each as often as it does. -/
def submitted (trace : List (Transition TrainSystem TrainerMove)) : Multiset TrainerTask :=
  ↑(trace.flatMap fun m => m.event.submits)

/-- The tasks whose work a run does, each as often as it does. -/
def worked (trace : List (Transition TrainSystem TrainerMove)) : Multiset TrainerTask :=
  ↑(trace.flatMap fun m => m.event.works)

/-- The number of iterations that are counted and not in the queue yet. -/
def TrainPoint.unpushed : TrainPoint → Nat
  | .push _ _ => 1
  | _ => 0

/-- The number of agents whose load task is submitted. -/
def TrainPoint.loads (agentSize : Nat) : TrainPoint → Nat
  | .load agent => agent
  | _ => agentSize

/-- The number of agents whose save task is submitted, between two updates of the counter. -/
def TrainPoint.saves (agentSize : Nat) : TrainPoint → Option Nat
  | .save agent => some agent
  | .waitSaved => some agentSize
  | _ => none

/-- The numbers of open tasks of each kind that a point allows as long as nobody kills the trainer. -/
def TrainPoint.Allowed (c : TrainConfig) (agentSize : Nat) (o : TaskKind → Nat) : TrainPoint → Prop
  | .load agent => o .train = 0 ∧ o .load ≤ agent ∧ agent ≤ agentSize ∧ o .save = 0
  | .waitLoaded => o .train = 0 ∧ o .load ≤ agentSize ∧ o .save = 0
  | .loop | .waitIdle => o .train ≤ c.batch ∧ o .load = 0 ∧ o .save = 0
  | .save agent => o .train = 0 ∧ o .load = 0 ∧ o .save ≤ agent ∧ agent ≤ agentSize
  | .waitSaved => o .train = 0 ∧ o .load = 0 ∧ o .save ≤ agentSize
  | .submit left => o .train + left ≤ c.batch ∧ o .load = 0 ∧ o .save = 0
  | .push _ left => o .train + (left + 1) ≤ c.batch ∧ o .load = 0 ∧ o .save = 0
  | _ => o .train = 0 ∧ o .load = 0 ∧ o .save = 0

theorem TrainPoint.Allowed.mono {c : TrainConfig} {agentSize : Nat} {o o' : TaskKind → Nat} {point : TrainPoint}
    (h : point.Allowed c agentSize o) (hle : ∀ k, o' k ≤ o k) : point.Allowed c agentSize o' := by
  have htrain := hle .train
  have hload := hle .load
  have hsave := hle .save
  cases point <;> simp only [TrainPoint.Allowed] at h ⊢ <;> omega

/-- Nothing is submitted once the executor is told to stop. -/
def TrainPoint.emptied : TrainPoint → Bool
  | .kill | .wait | .store | .done => true
  | _ => false

/-- The points that nothing is open at. -/
def TrainPoint.quiet : TrainPoint → Bool
  | .load _ | .waitLoaded | .loop | .waitIdle | .save _ | .waitSaved | .submit _ | .push _ _ => false
  | _ => true

section Quiet

variable {c : TrainConfig} {agentSize : Nat} {o : TaskKind → Nat} {point : TrainPoint} (h : point.quiet = true)

include h

theorem TrainPoint.allowed_of_quiet : point.Allowed c agentSize o ↔ o .train = 0 ∧ o .load = 0 ∧ o .save = 0 := by
  cases point <;> first | exact Iff.rfl | cases h

theorem TrainPoint.unpushed_of_quiet : point.unpushed = 0 := by
  cases point <;> first | rfl | cases h

theorem TrainPoint.loads_of_quiet : point.loads agentSize = agentSize := by
  cases point <;> first | rfl | cases h

theorem TrainPoint.saves_of_quiet : point.saves agentSize = none := by
  cases point <;> first | rfl | cases h

end Quiet

namespace TrainSystem

variable {c : TrainConfig} {agentSize minIterations : Nat} {s t : TrainSystem}
  {trace : List (Transition TrainSystem TrainerMove)} {w : Nat} {call : Option TrainerCall} {work : Option TrainerTask}

/-- The tasks that nobody has worked on yet. -/
def waiting (s : TrainSystem) : Multiset TrainerTask := ↑s.qTask + (s.consumers.map ConsumePoint.taken).sum

/-- The number of tasks of a kind that are in the queue or in the hands of a thread. -/
def openTasks (s : TrainSystem) (k : TaskKind) : Nat :=
  s.qTask.countP (fun task => task.kind = k) + (s.consumers.map (ConsumePoint.holds k)).sum

def counter (s : TrainSystem) : TaskKind → Nat
  | .train => s.numProcessed
  | .load => s.agentLoaded
  | .save => s.agentSaved

theorem openTasks_zero (h : ∀ k, s.openTasks k = 0) : s.qTask = [] ∧ ∀ p ∈ s.consumers, p.task = none := by
  constructor
  · rw [List.eq_nil_iff_forall_not_mem]
    intro task htask
    have hzero := h task.kind
    unfold openTasks at hzero
    have hpos : 0 < s.qTask.countP (fun u => u.kind = task.kind) :=
      List.countP_pos_iff.mpr ⟨task, htask, decide_eq_true rfl⟩
    omega
  · intro p hp
    cases htask : p.task with
    | none => rfl
    | some task =>
      have hzero := h task.kind
      unfold openTasks at hzero
      have hsum : (s.consumers.map (ConsumePoint.holds task.kind)).sum = 0 := by omega
      have hp0 := List.sum_eq_zero_iff_forall_eq_nat.mp hsum _ (List.mem_map_of_mem hp)
      unfold ConsumePoint.holds at hp0
      rw [htask, Option.map_some, if_pos rfl] at hp0
      exact absurd hp0 one_ne_zero

/-- What a step of a thread of `consume` leaves alone, and what becomes of the tasks. -/
structure Consumed (s : TrainSystem) (work : Option TrainerTask) (t : TrainSystem) : Prop where
  running : t.running = s.running
  numIterations : t.numIterations = s.numIterations
  needWaitting : t.needWaitting = s.needWaitting
  point : t.point = s.point
  consumeRunning : t.consumeRunning = s.consumeRunning
  queue : t.qTask <:+ s.qTask
  waiting : s.waiting = ↑(TrainerMove.consume 0 work).works + t.waiting
  openTasks : ∀ k, t.openTasks k ≤ s.openTasks k
  counter : ∀ k, (t.counter k + t.openTasks k) % 4294967296 = (s.counter k + s.openTasks k) % 4294967296
  fit : ∀ k, s.counter k < 4294967296 → t.counter k < 4294967296
  threads_le : t.numTaskThread ≤ s.numTaskThread
  threads : s.numTaskThread = (s.consumers.map ConsumePoint.live).sum →
    t.numTaskThread = (t.consumers.map ConsumePoint.live).sum

/-- A thread that has no task in its hands before and after its step. -/
theorem consumed_idle {p q : ConsumePoint} {n : Nat} (hp : s.consumers[w]? = some p) (hptask : p.task = none)
    (hqtask : q.task = none) (hle : n ≤ s.numTaskThread)
    (hthreads : s.numTaskThread = (s.consumers.map ConsumePoint.live).sum →
      n = ((s.consumers.set w q).map ConsumePoint.live).sum) :
    Consumed s none { s.setConsumer w q with numTaskThread := n } := by
  have hholds (k : TaskKind) : ((s.consumers.set w q).map (ConsumePoint.holds k)).sum =
      (s.consumers.map (ConsumePoint.holds k)).sum := by
    have hset := sum_map_set (ConsumePoint.holds k) (b := q) hp
    unfold ConsumePoint.holds at hset ⊢
    simpa only [hptask, hqtask, Option.map_none, reduceCtorEq, if_false, add_zero] using hset
  have htaken : ((s.consumers.set w q).map ConsumePoint.taken).sum = (s.consumers.map ConsumePoint.taken).sum := by
    have hset := sum_map_set ConsumePoint.taken (b := q) hp
    have htakes (r : ConsumePoint) (hr : r.task = none) : r.taken = 0 := by
      cases r with
      | process task => cases hr
      | _ => rfl
    rwa [htakes p hptask, htakes q hqtask, add_zero, add_zero] at hset
  refine ⟨rfl, rfl, rfl, rfl, rfl, List.suffix_rfl, ?_, fun k => ?_, fun k => ?_, fun k hk => ?_, hle, hthreads⟩
  · unfold TrainSystem.waiting setConsumer
    simp only [htaken]
    exact (zero_add _).symm
  · unfold TrainSystem.openTasks setConsumer
    rw [hholds]
  · unfold TrainSystem.openTasks setConsumer
    simp only [hholds]
    cases k <;> rfl
  · cases k <;> exact hk

/-- A thread takes the first task of the queue. -/
theorem consumed_taken {task : TrainerTask} {qTask : List TrainerTask} (hp : s.consumers[w]? = some .get)
    (hqueue : s.qTask = task :: qTask) : Consumed s none { s.setConsumer w (.process task) with qTask } := by
  have hopen (k : TaskKind) : openTasks { s.setConsumer w (.process task) with qTask } k = s.openTasks k := by
    have hset := sum_map_set (ConsumePoint.holds k) (b := .process task) hp
    unfold TrainSystem.openTasks setConsumer
    rw [hqueue, List.countP_cons]
    have hget : ConsumePoint.holds k .get = 0 := rfl
    have hprocess : ConsumePoint.holds k (.process task) = if task.kind = k then 1 else 0 := by
      unfold ConsumePoint.holds ConsumePoint.task
      simp
    rw [hget, hprocess] at hset
    simp only [decide_eq_true_eq]
    omega
  refine ⟨rfl, rfl, rfl, rfl, rfl, ?_, ?_, fun k => (hopen k).le, fun k => ?_, fun k hk => ?_, le_rfl, fun h => ?_⟩
  · rw [hqueue]
    exact List.suffix_cons task qTask
  · have hset := sum_map_set ConsumePoint.taken (b := .process task) hp
    have hget : ConsumePoint.taken .get = 0 := rfl
    have hprocess : ConsumePoint.taken (.process task) = {task} := rfl
    rw [hget, hprocess, add_zero] at hset
    have hcons : ((task :: qTask : List TrainerTask) : Multiset TrainerTask) = (qTask : Multiset TrainerTask) + {task} := by
      rw [← Multiset.cons_coe, ← Multiset.singleton_add, add_comm]
    unfold TrainSystem.waiting setConsumer
    simp only [hset, hqueue, hcons]
    change _ = 0 + _
    rw [zero_add, add_right_comm, add_assoc]
  · rw [hopen]
    cases k <;> rfl
  · cases k <;> exact hk
  · have hset := sum_map_set ConsumePoint.live (b := .process task) hp
    exact h.trans (Nat.add_right_cancel hset).symm

theorem consumed_worked {task : TrainerTask} (hp : s.consumers[w]? = some (.process task)) :
    Consumed s (some task) (s.setConsumer w (.count task)) := by
  have hopen (k : TaskKind) : (s.setConsumer w (.count task)).openTasks k = s.openTasks k := by
    have hset := sum_map_set (ConsumePoint.holds k) (b := .count task) hp
    have hsame : ConsumePoint.holds k (.count task) = ConsumePoint.holds k (.process task) := rfl
    rw [hsame] at hset
    unfold TrainSystem.openTasks setConsumer
    rw [Nat.add_right_cancel hset]
  refine ⟨rfl, rfl, rfl, rfl, rfl, List.suffix_rfl, ?_, fun k => (hopen k).le, fun k => ?_, fun k hk => ?_, le_rfl,
    fun h => ?_⟩
  · have hset := sum_map_set ConsumePoint.taken (b := .count task) hp
    have hprocess : ConsumePoint.taken (.process task) = {task} := rfl
    have hcount : ConsumePoint.taken (.count task) = 0 := rfl
    rw [hprocess, hcount, add_zero] at hset
    unfold TrainSystem.waiting setConsumer
    rw [← hset]
    change _ = {task} + _
    rw [← add_assoc, add_comm]
  · rw [hopen]
    cases k <;> rfl
  · cases k <;> exact hk
  · have hset := sum_map_set ConsumePoint.live (b := .count task) hp
    exact h.trans (Nat.add_right_cancel hset).symm

theorem counter_countTask (s : TrainSystem) (task : TrainerTask) (k : TaskKind) :
    (s.countTask task).counter k = if task.kind = k then (s.counter k + 1) % 4294967296 else s.counter k := by
  cases task <;> cases k <;> rfl

theorem consumed_counted {task : TrainerTask} (hp : s.consumers[w]? = some (.count task)) :
    Consumed s none ((s.setConsumer w .loop).countTask task) := by
  have hframe : ((s.setConsumer w .loop).countTask task).qTask = s.qTask ∧
      ((s.setConsumer w .loop).countTask task).consumers = s.consumers.set w .loop := by
    cases task <;> exact ⟨rfl, rfl⟩
  have hopen (k : TaskKind) : ((s.setConsumer w .loop).countTask task).openTasks k +
      (if task.kind = k then 1 else 0) = s.openTasks k := by
    have hset := sum_map_set (ConsumePoint.holds k) (b := .loop) hp
    have hloop : ConsumePoint.holds k .loop = 0 := rfl
    have hcount : ConsumePoint.holds k (.count task) = if task.kind = k then 1 else 0 := by
      unfold ConsumePoint.holds ConsumePoint.task
      simp
    rw [hloop, hcount] at hset
    unfold TrainSystem.openTasks
    rw [hframe.1, hframe.2]
    omega
  refine ⟨?_, ?_, ?_, ?_, ?_, ?_, ?_, fun k => ?_, fun k => ?_, fun k hk => ?_, ?_, fun h => ?_⟩
  iterate 5 cases task <;> rfl
  · simp only [hframe.1, List.suffix_refl]
  · have hset := sum_map_set ConsumePoint.taken (b := .loop) hp
    have hloop : ConsumePoint.taken .loop = 0 := rfl
    have hcount : ConsumePoint.taken (.count task) = 0 := rfl
    rw [hloop, hcount, add_zero, add_zero] at hset
    unfold TrainSystem.waiting
    rw [hframe.1, hframe.2, hset]
    exact (zero_add _).symm
  · have := hopen k
    omega
  · have hk := hopen k
    have hcounter : (s.setConsumer w .loop).counter k = s.counter k := by cases k <;> rfl
    rw [counter_countTask, hcounter]
    split at hk
    next hkind =>
      rw [if_pos hkind, Nat.mod_add_mod]
      congr 1
      omega
    next hkind =>
      rw [if_neg hkind, ← hk]
      rfl
  · rw [counter_countTask]
    split
    · exact Nat.mod_lt _ (by omega)
    · cases k <;> exact hk
  · cases task <;> exact le_rfl
  · have hset := sum_map_set ConsumePoint.live (b := .loop) hp
    have hthreads : ((s.setConsumer w .loop).countTask task).numTaskThread = s.numTaskThread := by
      cases task <;> rfl
    rw [hframe.2, hthreads]
    exact h.trans (Nat.add_right_cancel hset).symm

theorem consumed_of_consume (h : s.consume w = some (work, t)) : Consumed s work t := by
  unfold consume at h
  split at h
  next hp =>
    split at h
    · cases h
      refine consumed_idle hp rfl rfl le_rfl fun hthreads => ?_
      have hset := sum_map_set ConsumePoint.live (b := .get) hp
      exact hthreads.trans (Nat.add_right_cancel (m := 1) hset).symm
    · cases h
      refine consumed_idle hp rfl rfl (Nat.sub_le _ _) fun hthreads => ?_
      have hset := sum_map_set ConsumePoint.live (b := .exited) hp
      have hloop : ConsumePoint.live .loop = 1 := rfl
      have hexited : ConsumePoint.live .exited = 0 := rfl
      omega
  next hp =>
    split at h
    · cases h
      refine consumed_idle hp rfl rfl le_rfl fun hthreads => ?_
      have hset := sum_map_set ConsumePoint.live (b := .loop) hp
      exact hthreads.trans (Nat.add_right_cancel (m := 1) hset).symm
    next hqueue =>
      cases h
      exact consumed_taken hp hqueue
  next hp =>
    cases h
    exact consumed_worked hp
  next hp =>
    cases h
    exact consumed_counted hp
  · cases h

/-- What a step of the other thread leaves alone, and what it submits. -/
theorem main_frame (h : s.mainStep c agentSize = some (call, t)) :
    t.running = s.running ∧ t.consumers = s.consumers ∧ t.numTaskThread = s.numTaskThread ∧
      t.numProcessed = s.numProcessed ∧ t.agentLoaded = s.agentLoaded ∧
      t.qTask = s.qTask ++ (TrainerMove.main call).submits := by
  unfold mainStep at h
  split at h <;> (try split at h) <;> (try split at h) <;> cases h <;>
    simp [submitTask, TrainerMove.submits]

/-- What holds as long as nobody kills the trainer. -/
structure Counts (c : TrainConfig) (agentSize : Nat) (s : TrainSystem) : Prop where
  fit : ∀ k, s.counter k < 4294967296
  iterations_fit : s.numIterations < 4294967296
  processed : (s.numProcessed + s.openTasks .train + s.point.unpushed) % 4294967296 = s.numIterations
  loaded : (s.agentLoaded + s.openTasks .load) % 4294967296 = s.point.loads agentSize % 4294967296
  saved : ∀ n ∈ s.point.saves agentSize, (s.agentSaved + s.openTasks .save) % 4294967296 = n % 4294967296
  allowed : s.point.Allowed c agentSize s.openTasks

theorem Counts.consume (h : Counts c agentSize s) (step : Consumed s work t) : Counts c agentSize t := by
  have hprocessed := step.counter .train
  have hloaded := step.counter .load
  have hsaved := step.counter .save
  simp only [counter] at hprocessed hloaded hsaved
  refine ⟨fun k => step.fit k (h.fit k), ?_, ?_, ?_, fun n hn => ?_, ?_⟩
  · rw [step.numIterations]
    exact h.iterations_fit
  · rw [step.point, step.numIterations, ← h.processed, Nat.add_mod, hprocessed, ← Nat.add_mod]
  · rw [step.point, hloaded]
    exact h.loaded
  · rw [step.point] at hn
    rw [hsaved]
    exact h.saved n hn
  · rw [step.point]
    exact h.allowed.mono step.openTasks

/-- A step that only moves on. -/
theorem Counts.moved (h : Counts c agentSize s) {old : TrainPoint} (hpoint : s.point = old) {point : TrainPoint}
    {b : Bool} (hunpushed : point.unpushed = old.unpushed) (hloads : point.loads agentSize = old.loads agentSize)
    (hsaves : ∀ n ∈ point.saves agentSize, n ∈ old.saves agentSize)
    (hallowed : point.Allowed c agentSize s.openTasks) : Counts c agentSize { s with point, needWaitting := b } := by
  subst hpoint
  refine ⟨h.fit, h.iterations_fit, ?_, ?_, fun n hn => h.saved n (hsaves n hn), hallowed⟩
  · rw [hunpushed]
    exact h.processed
  · rw [hloads]
    exact h.loaded

theorem openTasks_submitTask (s : TrainSystem) (task : TrainerTask) (k : TaskKind) :
    (s.submitTask task).openTasks k = s.openTasks k + if task.kind = k then 1 else 0 := by
  unfold openTasks submitTask
  rw [List.countP_append, List.countP_singleton]
  simp only [decide_eq_true_eq]
  omega

/-- A step that submits a task and moves on. -/
theorem Counts.submitted (h : Counts c agentSize s) {old : TrainPoint} (hpoint : s.point = old) {task : TrainerTask}
    {point : TrainPoint} (hunpushed : point.unpushed + (if task.kind = .train then 1 else 0) = old.unpushed)
    (hloads : point.loads agentSize = old.loads agentSize + if task.kind = .load then 1 else 0)
    (hsaves : ∀ n ∈ point.saves agentSize, ∃ m ∈ old.saves agentSize, n = m + if task.kind = .save then 1 else 0)
    (hallowed : point.Allowed c agentSize fun k => s.openTasks k + if task.kind = k then 1 else 0) :
    Counts c agentSize { s.submitTask task with point } := by
  subst hpoint
  have hopen : openTasks { s.submitTask task with point } = fun k => s.openTasks k + if task.kind = k then 1 else 0 :=
    funext fun k => openTasks_submitTask s task k
  have hprocessed := h.processed
  have hloaded := h.loaded
  refine ⟨h.fit, h.iterations_fit, ?_, ?_, fun n hn => ?_, by rw [hopen]; exact hallowed⟩
  · rw [hopen]
    change (s.numProcessed + (s.openTasks .train + _) + point.unpushed) % 4294967296 = s.numIterations
    rw [← hprocessed, ← hunpushed]
    congr 1
    omega
  · rw [hopen]
    change (s.agentLoaded + (s.openTasks .load + _)) % 4294967296 = point.loads agentSize % 4294967296
    rw [hloads]
    omega
  · obtain ⟨m, hm, hnext⟩ := hsaves n hn
    have hsaved := h.saved m hm
    rw [hopen, hnext]
    change (s.agentSaved + (s.openTasks .save + _)) % 4294967296 = _
    omega

/-- Where nobody kills the trainer, the counters tell what is open at the points that wait for them. -/
theorem Counts.open_loads (h : Counts c agentSize s) (hpoint : s.point = .waitLoaded)
    (hloaded : s.agentLoaded = agentSize) : s.openTasks .load = 0 := by
  have hallowed := h.allowed
  have hcount := h.loaded
  have hfit := h.fit .load
  rw [hpoint] at hallowed hcount
  simp only [TrainPoint.Allowed, TrainPoint.loads, counter] at hallowed hcount hfit
  omega

theorem Counts.open_saves (h : Counts c agentSize s) (hpoint : s.point = .waitSaved)
    (hsaved : s.agentSaved = agentSize) : s.openTasks .save = 0 := by
  have hallowed := h.allowed
  have hcount := h.saved agentSize (by rw [hpoint]; rfl)
  have hfit := h.fit .save
  rw [hpoint] at hallowed
  simp only [TrainPoint.Allowed, counter] at hallowed hfit
  omega

theorem Counts.open_trains (h : Counts c agentSize s) (hbatch : c.batch ≤ 2147483647) (hpoint : s.point = .waitIdle)
    (hidle : s.numIterations = s.numProcessed) : s.openTasks .train = 0 := by
  have hallowed := h.allowed
  have hcount := h.processed
  rw [hpoint] at hallowed hcount
  simp only [TrainPoint.Allowed, TrainPoint.unpushed] at hallowed hcount
  omega

/-- Where no iteration is open, all of them are processed. -/
theorem Counts.idle (h : Counts c agentSize s) (hopen : s.openTasks .train = 0) (hunpushed : s.point.unpushed = 0) :
    s.numIterations = s.numProcessed := by
  have hcount := h.processed
  have hfit := h.fit .train
  rw [hopen, hunpushed] at hcount
  simp only [counter] at hfit
  omega

theorem Counts.allowed_at (h : Counts c agentSize s) {point : TrainPoint} (hpoint : s.point = point) :
    point.Allowed c agentSize s.openTasks := by
  rw [← hpoint]
  exact h.allowed

/-- All counted iterations are processed at a quiet point. -/
theorem Counts.quiet (h : Counts c agentSize s) (hquiet : s.point.quiet = true) : s.numIterations = s.numProcessed :=
  h.idle ((TrainPoint.allowed_of_quiet hquiet).mp h.allowed).1 (TrainPoint.unpushed_of_quiet hquiet)

/-- What a step at a quiet point can do, but for the points that save, submit and stop. -/
theorem main_quiet (hquiet : s.point.quiet = true) (hserialize : s.point ≠ .serialize) (htaskNum : s.point ≠ .taskNum)
    (hkill : s.point ≠ .kill) (hstep : s.mainStep c agentSize = some (call, t)) :
    ∃ point b, point.quiet = true ∧ t = { s with point, needWaitting := b } := by
  unfold mainStep at hstep
  split at hstep <;> (try split at hstep) <;> (try split at hstep) <;> cases hstep
  all_goals first
    | exact absurd ‹s.point = _› hserialize
    | exact absurd ‹s.point = _› htaskNum
    | exact absurd ‹s.point = _› hkill
    | (rw [‹s.point = _›] at hquiet; cases hquiet; done)
    | exact ⟨_, _, rfl, rfl⟩
    | exact ⟨s.point, s.needWaitting, hquiet, rfl⟩

theorem Counts.main_quiet (h : Counts c agentSize s) (hquiet : s.point.quiet = true) (hserialize : s.point ≠ .serialize)
    (htaskNum : s.point ≠ .taskNum) (hkill : s.point ≠ .kill) (hstep : s.mainStep c agentSize = some (call, t)) :
    Counts c agentSize t := by
  obtain ⟨point, b, hnext, rfl⟩ := TrainSystem.main_quiet hquiet hserialize htaskNum hkill hstep
  refine h.moved rfl ?_ ?_ ?_ ?_
  · rw [TrainPoint.unpushed_of_quiet hquiet, TrainPoint.unpushed_of_quiet hnext]
  · rw [TrainPoint.loads_of_quiet hquiet, TrainPoint.loads_of_quiet hnext]
  · rw [TrainPoint.saves_of_quiet hnext]
    simp
  · exact (TrainPoint.allowed_of_quiet hnext).mpr ((TrainPoint.allowed_of_quiet hquiet).mp h.allowed)

theorem Counts.main_load (h : Counts c agentSize s) {agent : Nat} (hpoint : s.point = .load agent)
    (hstep : s.mainStep c agentSize = some (call, t)) : Counts c agentSize t := by
  have hallowed := h.allowed_at hpoint
  simp only [TrainPoint.Allowed] at hallowed
  simp only [mainStep, hpoint] at hstep
  split at hstep
  next hlt =>
    cases hstep
    refine h.submitted hpoint rfl rfl nofun ?_
    simp only [TrainPoint.Allowed, TrainerTask.kind, reduceCtorEq, if_false, if_true]
    omega
  next hge =>
    cases hstep
    have hagent : agent = agentSize := by omega
    refine h.moved hpoint rfl ?_ nofun ⟨hallowed.1, ?_, hallowed.2.2.2⟩
    · exact hagent.symm
    · omega

theorem Counts.main_waitLoaded (h : Counts c agentSize s) (hrunning : s.running = true) (hpoint : s.point = .waitLoaded)
    (hstep : s.mainStep c agentSize = some (call, t)) : Counts c agentSize t := by
  have hallowed := h.allowed_at hpoint
  simp only [mainStep, hpoint] at hstep
  split at hstep
  · cases hstep
    exact h
  next hdone =>
    cases hstep
    have hopen := h.open_loads hpoint (by_contra fun hne => hdone ⟨hrunning, hne⟩)
    exact h.moved hpoint rfl rfl nofun ⟨hallowed.1.le.trans (Nat.zero_le _), hopen, hallowed.2.2⟩

theorem Counts.main_loop (h : Counts c agentSize s) (hrunning : s.running = true) (hpoint : s.point = .loop)
    (hstep : s.mainStep c agentSize = some (call, t)) : Counts c agentSize t := by
  have hallowed := h.allowed_at hpoint
  simp only [mainStep, hpoint] at hstep
  cases hstep
  rw [if_pos hrunning]
  exact h.moved hpoint rfl rfl nofun hallowed

theorem Counts.main_waitIdle (h : Counts c agentSize s) (hbatch : c.batch ≤ 2147483647) (hrunning : s.running = true)
    (hpoint : s.point = .waitIdle) (hstep : s.mainStep c agentSize = some (call, t)) : Counts c agentSize t := by
  have hallowed := h.allowed_at hpoint
  simp only [mainStep, hpoint] at hstep
  split at hstep
  · cases hstep
    exact h
  next hdone =>
    cases hstep
    have hopen := h.open_trains hbatch hpoint (by_contra fun hne => hdone ⟨hrunning, hne⟩)
    exact h.moved hpoint rfl rfl nofun ⟨hopen, hallowed.2⟩

theorem Counts.main_serialize (h : Counts c agentSize s) (hpoint : s.point = .serialize)
    (hstep : s.mainStep c agentSize = some (call, t)) : Counts c agentSize t := by
  have hallowed := h.allowed_at hpoint
  have hprocessed := h.processed
  have hloaded := h.loaded
  simp only [mainStep, hpoint] at hstep
  rw [hpoint] at hprocessed hloaded
  split at hstep
  · cases hstep
  · split at hstep
    · cases hstep
      refine ⟨fun k => ?_, h.iterations_fit, hprocessed, hloaded, ?_, ?_⟩
      · cases k
        · exact h.fit .train
        · exact h.fit .load
        · exact Nat.zero_lt_succ _
      · rintro n ⟨⟩
        exact congrArg (· % 4294967296) ((Nat.zero_add _).trans hallowed.2.2)
      · exact ⟨hallowed.1, hallowed.2.1, hallowed.2.2.le, Nat.zero_le _⟩
    · cases hstep
      exact h.moved hpoint rfl rfl nofun hallowed

theorem Counts.main_save (h : Counts c agentSize s) {agent : Nat} (hpoint : s.point = .save agent)
    (hstep : s.mainStep c agentSize = some (call, t)) : Counts c agentSize t := by
  have hallowed := h.allowed_at hpoint
  simp only [TrainPoint.Allowed] at hallowed
  simp only [mainStep, hpoint] at hstep
  split at hstep
  next hlt =>
    cases hstep
    refine h.submitted hpoint rfl rfl ?_ ?_
    · rintro n ⟨⟩
      exact ⟨agent, rfl, rfl⟩
    · simp only [TrainPoint.Allowed, TrainerTask.kind, reduceCtorEq, if_false, if_true]
      omega
  next hge =>
    cases hstep
    have hagent : agent = agentSize := by omega
    refine h.moved hpoint rfl rfl ?_ ⟨hallowed.1, hallowed.2.1, ?_⟩
    · rintro n ⟨⟩
      exact congrArg some hagent
    · omega

theorem Counts.main_waitSaved (h : Counts c agentSize s) (hrunning : s.running = true) (hpoint : s.point = .waitSaved)
    (hstep : s.mainStep c agentSize = some (call, t)) : Counts c agentSize t := by
  have hallowed := h.allowed_at hpoint
  simp only [mainStep, hpoint] at hstep
  split at hstep
  · cases hstep
    exact h
  next hdone =>
    cases hstep
    have hopen := h.open_saves hpoint (by_contra fun hne => hdone ⟨hrunning, hne⟩)
    exact h.moved hpoint rfl rfl nofun ⟨hallowed.1, hallowed.2.1, hopen⟩

/-- The tasks of a pass are at most a batch. -/
theorem Counts.main_taskNum (h : Counts c agentSize s) (valid : c.Valid) (hpoint : s.point = .taskNum)
    (hstep : s.mainStep c agentSize = some (call, t)) : Counts c agentSize t := by
  have hallowed := h.allowed_at hpoint
  simp only [mainStep, hpoint] at hstep
  cases hstep
  have hidle := h.quiet (by rw [hpoint]; rfl)
  split
  · refine h.moved hpoint rfl rfl nofun ⟨?_, hallowed.2⟩
    rw [hidle, valid.taskNum_eq, hallowed.1, Nat.zero_add]
  · exact h.moved hpoint rfl rfl nofun ⟨hallowed.1.le.trans (Nat.zero_le _), hallowed.2⟩

/-- An iteration is counted before its task is submitted. -/
theorem Counts.main_submit (h : Counts c agentSize s) {left : Nat} (hpoint : s.point = .submit left)
    (hstep : s.mainStep c agentSize = some (call, t)) : Counts c agentSize t := by
  have hallowed := h.allowed_at hpoint
  have hprocessed := h.processed
  have hloaded := h.loaded
  rw [hpoint] at hprocessed hloaded
  cases left with
  | zero =>
    simp only [mainStep, hpoint] at hstep
    cases hstep
    exact h.moved hpoint rfl rfl nofun hallowed
  | succ left =>
    simp only [mainStep, hpoint] at hstep
    cases hstep
    refine ⟨fun k => ?_, Nat.mod_lt _ (by omega), ?_, hloaded, nofun, hallowed⟩
    · cases k
      · exact h.fit .train
      · exact h.fit .load
      · exact h.fit .save
    · change (s.numProcessed + s.openTasks .train + 1) % 4294967296 = (s.numIterations + 1) % 4294967296
      simp only [TrainPoint.unpushed] at hprocessed
      omega

theorem Counts.main_push (h : Counts c agentSize s) {taskId left : Nat} (hpoint : s.point = .push taskId left)
    (hstep : s.mainStep c agentSize = some (call, t)) : Counts c agentSize t := by
  have hallowed := h.allowed_at hpoint
  simp only [TrainPoint.Allowed] at hallowed
  simp only [mainStep, hpoint] at hstep
  cases hstep
  refine h.submitted hpoint rfl rfl nofun ?_
  simp only [TrainPoint.Allowed, TrainerTask.kind, reduceCtorEq, if_false, if_true]
  omega

theorem Counts.main_kill (h : Counts c agentSize s) (hpoint : s.point = .kill)
    (hstep : s.mainStep c agentSize = some (call, t)) : Counts c agentSize t := by
  have hallowed := h.allowed_at hpoint
  have hprocessed := h.processed
  have hloaded := h.loaded
  simp only [mainStep, hpoint] at hstep
  rw [hpoint] at hprocessed hloaded
  cases hstep
  exact ⟨h.fit, h.iterations_fit, hprocessed, hloaded, nofun, hallowed⟩

/-- Every point of the thread keeps the counts, the waits by what they wait for. -/
theorem Counts.main (valid : c.Valid) (h : Counts c agentSize s) (hrunning : s.running = true)
    (hstep : s.mainStep c agentSize = some (call, t)) : Counts c agentSize t := by
  cases hpoint : s.point with
  | load agent => exact h.main_load hpoint hstep
  | waitLoaded => exact h.main_waitLoaded hrunning hpoint hstep
  | loop => exact h.main_loop hrunning hpoint hstep
  | waitIdle => exact h.main_waitIdle valid.batch_le hrunning hpoint hstep
  | serialize => exact h.main_serialize hpoint hstep
  | save agent => exact h.main_save hpoint hstep
  | waitSaved => exact h.main_waitSaved hrunning hpoint hstep
  | taskNum => exact h.main_taskNum valid hpoint hstep
  | submit left => exact h.main_submit hpoint hstep
  | push taskId left => exact h.main_push hpoint hstep
  | kill => exact h.main_kill hpoint hstep
  | _ => exact h.main_quiet (by rw [hpoint]; rfl) (by simp [hpoint]) (by simp [hpoint]) (by simp [hpoint]) hstep

theorem main_waiting (h : s.mainStep c agentSize = some (call, t)) :
    t.waiting = ↑(TrainerMove.main call).submits + s.waiting := by
  obtain ⟨-, hconsumers, -, -, -, hqueue⟩ := main_frame h
  unfold waiting
  rw [hconsumers, hqueue, ← Multiset.coe_add, ← add_assoc]
  exact congrArg (· + _) (add_comm _ _)

/-- What holds in every run, also after a kill. -/
structure Kept (trace : List (Transition TrainSystem TrainerMove)) (s : TrainSystem) : Prop where
  conserved : submitted trace = worked trace + s.waiting
  threads : s.numTaskThread = (s.consumers.map ConsumePoint.live).sum
  emptied : s.point.emptied = true → s.qTask = []
  stopped : s.point = .store → s.numTaskThread = 0

theorem Kept.consume (h : Kept trace s) (step : Consumed s work t) : Kept (⟨s, .consume w work, t⟩ :: trace) t := by
  refine ⟨?_, step.threads h.threads, fun ht => ?_, fun ht => ?_⟩
  · have hworks : (TrainerMove.consume w work).works = (TrainerMove.consume 0 work).works := by cases work <;> rfl
    have hconserved := h.conserved
    rw [step.waiting, ← add_assoc] at hconserved
    refine hconserved.trans (congrArg (· + _) ?_)
    unfold worked
    rw [List.flatMap_cons, ← Multiset.coe_add, hworks, add_comm]
  · rw [step.point] at ht
    exact List.suffix_nil.mp (h.emptied ht ▸ step.queue)
  · rw [step.point] at ht
    exact Nat.le_zero.mp ((h.stopped ht).le.trans' step.threads_le)

/-- Only `TaskExecutor::final` leads to the points that leave the queue. -/
theorem main_not_emptied (h : s.mainStep c agentSize = some (call, t)) (hs : s.point.emptied = false)
    (hfinal : s.point ≠ .final) : t.point.emptied = false := by
  unfold mainStep at h
  split at h <;> (try split at h) <;> (try split at h) <;> cases h
  all_goals first
    | exact hs
    | rfl
    | exact absurd ‹s.point = .final› hfinal
    | (rw [‹s.point = _›] at hs; cases hs)

/-- The trainer is stored after the last thread has left. -/
theorem main_store (h : s.mainStep c agentSize = some (call, t)) (hs : s.point ≠ .store) (ht : t.point = .store) :
    s.numTaskThread = 0 := by
  by_cases hwait : s.point = .wait
  · unfold mainStep at h
    rw [hwait] at h
    cases h
    split at ht
    · exact absurd ht hs
    · omega
  · unfold mainStep at h
    split at h <;> (try split at h) <;> (try split at h) <;> cases h
    all_goals first
      | exact absurd ‹s.point = .wait› hwait
      | exact absurd ht hs
      | cases ht

theorem Kept.main (h : Kept trace s) (hstep : s.mainStep c agentSize = some (call, t)) :
    Kept (⟨s, .main call, t⟩ :: trace) t := by
  obtain ⟨-, hconsumers, hthreads, -, -, hqueue⟩ := main_frame hstep
  refine ⟨?_, ?_, fun ht => ?_, fun ht => ?_⟩
  · have hconserved := h.conserved
    unfold submitted worked at hconserved
    rw [main_waiting hstep]
    unfold submitted worked
    rw [List.flatMap_cons, List.flatMap_cons, ← Multiset.coe_add, ← Multiset.coe_add, hconserved, add_left_comm]
    rfl
  · rw [hthreads, hconsumers]
    exact h.threads
  · by_cases hs : s.point.emptied = true
    · rw [hqueue, h.emptied hs, List.nil_append]
      unfold mainStep at hstep
      split at hstep
      all_goals first
        | (rw [‹s.point = _›] at hs; cases hs; done)
        | (cases hstep; rfl)
        | cases hstep
    · have hfinal : s.point = .final := by
        by_contra hne
        rw [main_not_emptied hstep (Bool.not_eq_true _ ▸ hs) hne] at ht
        cases ht
      unfold mainStep at hstep
      rw [hfinal] at hstep
      cases hstep
      split
      next hempty => exact List.isEmpty_iff.mp hempty
      next hempty =>
        rw [if_neg hempty] at ht
        exact absurd ht hs
  · rw [hthreads]
    by_cases hs : s.point = .store
    · exact h.stopped hs
    · exact main_store hstep hs ht

/-- A thread at the start of its loop has no task and is not gone. -/
theorem Start.sums (h : Start minIterations s) :
    s.waiting = 0 ∧ (∀ k, s.openTasks k = 0) ∧ (s.consumers.map ConsumePoint.live).sum = s.consumers.length := by
  have hconsumers : s.consumers = List.replicate s.consumers.length .loop :=
    List.eq_replicate_iff.mpr ⟨rfl, h.consumers⟩
  have hsum (f : ConsumePoint → Nat) : (s.consumers.map f).sum = s.consumers.length * f .loop := by
    rw [hconsumers, List.map_replicate, List.sum_replicate, List.length_replicate, Nat.nsmul_eq_mul]
  refine ⟨?_, fun k => ?_, ?_⟩
  · unfold waiting
    rw [h.qTask, hconsumers, List.map_replicate, List.sum_replicate]
    exact (zero_add _).trans (nsmul_zero _)
  · unfold openTasks
    rw [h.qTask, hsum]
    rfl
  · rw [hsum]
    exact Nat.mul_one _

theorem Start.counts (h : Start minIterations s) : Counts c agentSize s := by
  obtain ⟨-, hopen, -⟩ := h.sums
  have hnone : s.point.saves agentSize = none := by rw [h.point]; rfl
  refine ⟨fun k => ?_, ?_, ?_, ?_, fun n hn => ?_, ?_⟩
  · cases k
    · exact h.numProcessed.trans_lt h.fits
    · exact h.agentLoaded.trans_lt (by omega)
    · exact h.agentSaved.trans_lt (by omega)
  · rw [h.numIterations]
    exact h.fits
  · rw [hopen, h.point, h.numIterations, h.numProcessed]
    exact Nat.mod_eq_of_lt h.fits
  · rw [hopen, h.point, h.agentLoaded]
    rfl
  · rw [hnone] at hn
    cases hn
  · rw [h.point]
    exact ⟨hopen _, (hopen _).le, Nat.zero_le _, hopen _⟩

theorem Start.kept (h : Start minIterations s) : Kept [] s := by
  obtain ⟨hwaiting, -, hlive⟩ := h.sums
  refine ⟨?_, ?_, fun _ => h.qTask, fun hs => ?_⟩
  · rw [hwaiting]
    rfl
  · rw [hlive]
    exact h.numTaskThread
  · rw [h.point] at hs
    cases hs

theorem kept_of_run (run : Run c agentSize minIterations trace s) : Kept trace s := by
  induction run with
  | start h => exact h.kept
  | next _ hstep ih =>
    cases hstep with
    | main hmain => exact ih.main hmain
    | consume hconsume => exact ih.consume (consumed_of_consume hconsume)
    | kill => exact ⟨ih.conserved, ih.threads, ih.emptied, ih.stopped⟩

theorem counts_of_run (valid : c.Valid) (run : Run c agentSize minIterations trace s) (hrunning : s.running = true) :
    Counts c agentSize s := by
  induction run with
  | start h => exact h.counts
  | next _ hstep ih =>
    cases hstep with
    | main hmain =>
      have hbefore := (main_frame hmain).1.symm.trans hrunning
      exact (ih hbefore).main valid hbefore hmain
    | consume hconsume =>
      have hconsumed := consumed_of_consume hconsume
      exact (ih (hconsumed.running.symm.trans hrunning)).consume hconsumed
    | kill => cases hrunning

end TrainSystem

end MasterAI
