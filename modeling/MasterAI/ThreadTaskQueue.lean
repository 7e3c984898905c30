import Mathlib.Order.Nat
import MasterAI.PriorityGroups
import MasterAI.StepRuns

namespace MasterAI

/-- A `ThreadTaskQueue`. The map has a list of tasks for each priority, under rising priorities. A task is known by
its address, and none stands for `NULL`. -/
structure ThreadTaskQueue where
  mapTasks : List (Nat × List (Option Nat))
  multiThread : Bool
  deriving DecidableEq, Repr

namespace ThreadTaskQueue

def new : ThreadTaskQueue := ⟨[], false⟩

def addTask (q : ThreadTaskQueue) (task : Option Nat) (priority : Nat) : ThreadTaskQueue :=
  match task with
  | none => q
  | some task => { q with mapTasks := insertGroup priority (some task) q.mapTasks }

def setMultiThread (q : ThreadTaskQueue) (multiThread : Bool) : ThreadTaskQueue := { q with multiThread }

def taskEmpty (q : ThreadTaskQueue) : Bool := q.mapTasks.isEmpty

/-- The inner loop of `OnRun`: what stays in a list, and the tasks to run so far. -/
def takeTasks (skip : Nat → Bool) : List (Option Nat) → List Nat → List (Option Nat) × List Nat
  | [], lstRunTasks => ([], lstRunTasks)
  | none :: lstTasks, lstRunTasks => takeTasks skip lstTasks lstRunTasks
  | some task :: lstTasks, lstRunTasks =>
    if skip task then
      let (lstTasks, lstRunTasks) := takeTasks skip lstTasks lstRunTasks
      (some task :: lstTasks, lstRunTasks)
    else takeTasks skip lstTasks (lstRunTasks ++ [task])

/-- The outer loop of `OnRun`, which erases the lists that have no task left. -/
def takePriorities (skip : Nat → Bool) :
    List (Nat × List (Option Nat)) → List Nat → List (Nat × List (Option Nat)) × List Nat
  | [], lstRunTasks => ([], lstRunTasks)
  | (priority, lstTasks) :: mapTasks, lstRunTasks =>
    if lstTasks.isEmpty then takePriorities skip mapTasks lstRunTasks
    else
      let (lstTasks, lstRunTasks) := takeTasks skip lstTasks lstRunTasks
      let (mapTasks, lstRunTasks) := takePriorities skip mapTasks lstRunTasks
      (if lstTasks.isEmpty then mapTasks else (priority, lstTasks) :: mapTasks, lstRunTasks)

/-- `OnRun` up to the release of the lock, with the tasks that it is then going to run. -/
def onRun (q : ThreadTaskQueue) (threadIndex : Nat → Nat) (index maxIndex : Nat) : ThreadTaskQueue × List Nat :=
  if q.mapTasks.isEmpty then (q, [])
  else
    let skip := fun task => !q.multiThread && threadIndex task < maxIndex && threadIndex task != index
    let (mapTasks, lstRunTasks) := takePriorities skip q.mapTasks []
    ({ q with mapTasks }, lstRunTasks)

end ThreadTaskQueue

/-- A call of `OnRun` after its locked section: the index of its thread and what is left of its local list. -/
structure RunCall where
  index : Nat
  lstRunTasks : List Nat
  deriving DecidableEq, Repr

/-- A queue with the thread index of each task and all calls of `OnRun` so far, in the order of their locked
sections. -/
structure TaskSystem where
  queue : ThreadTaskQueue
  threadIndex : Nat → Nat
  calls : List RunCall

inductive TaskEvent
  | addTask (task : Option Nat) (priority : Nat)
  | onRun (index maxIndex : Nat)
  | runTask (call task : Nat)
  | setMultiThread (multiThread : Bool)
  | setThreadIndex (task index : Nat)
  deriving DecidableEq, Repr

/-- The threads take turns between the locked sections, and between the tasks that a call runs. -/
inductive TaskStep : TaskSystem → TaskEvent → TaskSystem → Prop
  | addTask {s task priority} :
    TaskStep s (.addTask task priority) { s with queue := s.queue.addTask task priority }
  | onRun {s queue index maxIndex lstRunTasks} :
    s.queue.onRun s.threadIndex index maxIndex = (queue, lstRunTasks) →
      TaskStep s (.onRun index maxIndex) { s with queue, calls := s.calls ++ [⟨index, lstRunTasks⟩] }
  | runTask {s call index task lstRunTasks} : s.calls[call]? = some ⟨index, task :: lstRunTasks⟩ →
    TaskStep s (.runTask call task) { s with calls := s.calls.set call ⟨index, lstRunTasks⟩ }
  | setMultiThread {s multiThread} :
    TaskStep s (.setMultiThread multiThread) { s with queue := s.queue.setMultiThread multiThread }
  | setThreadIndex {s task index} :
    TaskStep s (.setThreadIndex task index)
      { s with threadIndex := fun other => if other = task then index else s.threadIndex other }

abbrev TaskRun := StepRun TaskStep fun s => s.queue = .new ∧ s.calls = []

/-- A task handed to `AddTask`, with the number of moves before the call. -/
structure AddedTask where
  task : Nat
  priority : Nat
  serial : Nat
  deriving DecidableEq, Repr

/-- A thread may run a task of its own, a task of no thread, and every task in multi-thread mode. -/
def TaskSystem.MayRun (s : TaskSystem) (index maxIndex task : Nat) : Prop :=
  s.queue.multiThread = true ∨ s.threadIndex task ≥ maxIndex ∨ s.threadIndex task = index

instance (s : TaskSystem) (index maxIndex task : Nat) : Decidable (s.MayRun index maxIndex task) :=
  inferInstanceAs (Decidable (_ ∨ _ ∨ _))

def addedBy (older : List (Transition TaskSystem TaskEvent)) : TaskEvent → List AddedTask
  | .addTask (some task) priority => [⟨task, priority, older.length⟩]
  | _ => []

/-- Whether a move is a call of `OnRun` that may run a task. -/
def takes (t : Transition TaskSystem TaskEvent) (a : AddedTask) : Bool :=
  match t.event with
  | .onRun index maxIndex => t.pre.MayRun index maxIndex a.task
  | _ => false

/-- All tasks of a trace, first to last. -/
def addedTasks : List (Transition TaskSystem TaskEvent) → List AddedTask
  | [] => []
  | t :: older => addedTasks older ++ addedBy older t.event

/-- The tasks that no call of `OnRun` could run so far, first to last. -/
def queuedTasks : List (Transition TaskSystem TaskEvent) → List AddedTask
  | [] => []
  | t :: older => ((queuedTasks older).filter fun a => !takes t a) ++ addedBy older t.event

/-- The queued tasks that a call of `OnRun` finds and may run. -/
def eligibleTasks (older : List (Transition TaskSystem TaskEvent)) (t : Transition TaskSystem TaskEvent) :
    List AddedTask :=
  (queuedTasks older).filter fun a => takes t a

/-- The tasks that left the queue, call by call. -/
def takenTasks : List (Transition TaskSystem TaskEvent) → List AddedTask
  | [] => []
  | t :: older => takenTasks older ++ eligibleTasks older t

def ranBy (call : Nat) : TaskEvent → List Nat
  | .runTask call' task => if call' = call then [task] else []
  | _ => []

/-- The tasks that a call has run, first to last. -/
def ranTasks (call : Nat) : List (Transition TaskSystem TaskEvent) → List Nat
  | [] => []
  | t :: older => ranTasks call older ++ ranBy call t.event

/-- The map that has the tasks of some groups under their priorities. -/
def mapOf (groups : List (Nat × List AddedTask)) : List (Nat × List (Option Nat)) :=
  groups.map fun g => (g.1, g.2.map fun a => some a.task)

/-- What a call of `OnRun` does that was made after the moves `older`, up to the state `s`. -/
structure ServesEligible (older newer : List (Transition TaskSystem TaskEvent)) (t : Transition TaskSystem TaskEvent)
    (index : Nat) (s : TaskSystem) (took : List AddedTask) (left : List Nat) : Prop where
  eligible : took.Perm (eligibleTasks older t)
  inOrder : took.Pairwise fun a b => a.priority < b.priority ∨ (a.priority = b.priority ∧ a.serial < b.serial)
  call : s.calls[t.pre.calls.length]? = some ⟨index, left⟩
  ran : ranTasks t.pre.calls.length newer ++ left = took.map AddedTask.task

/-- A queue that neither loses nor doubles a task: the map has the queued tasks by priority, first to last, the tasks
are queued or taken, each once, and each call of `OnRun` takes what it may run. -/
structure ServesTasks (trace : List (Transition TaskSystem TaskEvent)) (s : TaskSystem) : Prop where
  queued : ∃ groups, Grouped AddedTask.priority groups (queuedTasks trace) ∧ s.queue.mapTasks = mapOf groups
  once : (queuedTasks trace ++ takenTasks trace).Perm (addedTasks trace)
  distinct : (addedTasks trace).Nodup
  served : ∀ newer t older index maxIndex, trace = newer ++ t :: older → t.event = .onRun index maxIndex →
    ∃ took left, ServesEligible older newer t index s took left
  leftBehind : ∀ t ∈ trace, ∀ index maxIndex, t.event = .onRun index maxIndex →
    ∀ priority lstTasks, (priority, lstTasks) ∈ t.post.queue.mapTasks →
      ∃ before, (priority, before) ∈ t.pre.queue.mapTasks ∧ lstTasks.Sublist before

section

variable {trace older newer : List (Transition TaskSystem TaskEvent)} {t : Transition TaskSystem TaskEvent}
  {s s' : TaskSystem} {event : TaskEvent} {n index maxIndex : Nat} {left : List Nat}
  {groups : List (Nat × List AddedTask)}

namespace ThreadTaskQueue

theorem takeTasks_map (skip : Nat → Bool) (lstTasks : List AddedTask) (lstRunTasks : List Nat) :
    takeTasks skip (lstTasks.map fun a => some a.task) lstRunTasks =
      ((lstTasks.filter fun a => skip a.task).map fun a => some a.task,
        lstRunTasks ++ (lstTasks.filter fun a => !skip a.task).map AddedTask.task) := by
  induction lstTasks generalizing lstRunTasks with
  | nil => simp [takeTasks]
  | cons a lstTasks ih =>
    rw [List.map_cons, takeTasks]
    cases ha : skip a.task with
    | true =>
      rw [if_pos rfl, ih, List.filter_cons_of_pos (by simpa using ha), List.filter_cons_of_neg (by simpa using ha),
        List.map_cons]
    | false =>
      rw [if_neg Bool.false_ne_true, ih, List.filter_cons_of_neg (by simpa using ha),
        List.filter_cons_of_pos (by simpa using ha), List.map_cons, List.append_assoc, List.singleton_append]

/-- The loops take the tasks that are not skipped, group by group. -/
theorem takePriorities_mapOf (skip : Nat → Bool) (groups : List (Nat × List AddedTask)) (lstRunTasks : List Nat) :
    takePriorities skip (mapOf groups) lstRunTasks =
      (mapOf (leftGroups (fun a => !skip a.task) groups),
        lstRunTasks ++ (takenGroups (fun a => !skip a.task) groups).map AddedTask.task) := by
  induction groups generalizing lstRunTasks with
  | nil => simp [mapOf, takePriorities, leftGroups, takenGroups]
  | cons g groups ih =>
    obtain ⟨priority, lstTasks⟩ := g
    have hmap : mapOf ((priority, lstTasks) :: groups) =
        (priority, lstTasks.map fun a => some a.task) :: mapOf groups := rfl
    rw [hmap, takePriorities]
    rw [leftGroups_cons, takenGroups_cons, List.map_append]
    cases lstTasks with
    | nil => rw [List.map_nil, if_pos List.isEmpty_nil, ih, List.filter_nil, List.filter_nil,
        if_pos List.isEmpty_nil, List.map_nil, List.nil_append]
    | cons a lstTasks =>
      rw [if_neg (by simp), takeTasks_map]
      simp only [ih, List.append_assoc, Bool.not_not, List.isEmpty_map]
      split
      · rfl
      · rfl

/-- `OnRun` takes the tasks that its thread may run, and leaves the others as they are. -/
theorem onRun_mapOf {s : TaskSystem} (hq : s.queue.mapTasks = mapOf groups) (index maxIndex : Nat) :
    s.queue.onRun s.threadIndex index maxIndex =
      ({ s.queue with mapTasks := mapOf (leftGroups (fun a => s.MayRun index maxIndex a.task) groups) },
        (takenGroups (fun a => s.MayRun index maxIndex a.task) groups).map AddedTask.task) := by
  have hskip : (fun a : AddedTask => !(!s.queue.multiThread && decide (s.threadIndex a.task < maxIndex) &&
      s.threadIndex a.task != index)) = fun a => decide (s.MayRun index maxIndex a.task) := by
    funext a
    rw [Bool.eq_iff_iff, decide_eq_true_iff]
    simp [TaskSystem.MayRun, or_assoc]
  obtain ⟨⟨mapTasks, multiThread⟩, threadIndex, calls⟩ := s
  subst hq
  unfold onRun
  split
  · rename_i hempty
    rw [List.isEmpty_iff, mapOf, List.map_eq_nil_iff] at hempty
    subst hempty
    rfl
  · dsimp only
    rw [takePriorities_mapOf, hskip]
    rfl

theorem addTask_mapOf {s : TaskSystem} (hq : s.queue.mapTasks = mapOf groups) (task priority serial : Nat) :
    (s.queue.addTask (some task) priority).mapTasks = mapOf (insertGroup priority ⟨task, priority, serial⟩ groups) := by
  rw [mapOf, map_insertGroup, ← mapOf, ← hq]
  rfl

end ThreadTaskQueue

theorem queuedTasks_onRun (ht : t.event = .onRun index maxIndex) :
    queuedTasks (t :: older) = (queuedTasks older).filter fun a => !decide (t.pre.MayRun index maxIndex a.task) := by
  simp [queuedTasks, takes, addedBy, ht]

/-- Each move keeps the map in step with the queued tasks. -/
theorem TaskStep.queued (hstep : TaskStep s event s')
    (h : Grouped AddedTask.priority groups (queuedTasks older)) (hq : s.queue.mapTasks = mapOf groups) :
    ∃ groups', Grouped AddedTask.priority groups' (queuedTasks (⟨s, event, s'⟩ :: older)) ∧
      s'.queue.mapTasks = mapOf groups' := by
  cases hstep with
  | @addTask task priority =>
    cases task with
    | none =>
      refine ⟨groups, ?_, hq⟩
      simpa [queuedTasks, takes, addedBy] using h
    | some task =>
      have hinsert := h.insert ⟨task, priority, older.length⟩
      refine ⟨insertGroup priority ⟨task, priority, older.length⟩ groups, ?_, ?_⟩
      · simpa [queuedTasks, takes, addedBy] using hinsert
      · exact ThreadTaskQueue.addTask_mapOf hq task priority older.length
  | @onRun _ index maxIndex _ hrun =>
    rw [ThreadTaskQueue.onRun_mapOf hq] at hrun
    obtain ⟨rfl, rfl⟩ := Prod.mk.inj hrun
    refine ⟨leftGroups (fun a => s.MayRun index maxIndex a.task) groups, ?_, rfl⟩
    rw [queuedTasks_onRun rfl]
    exact h.left _
  | runTask =>
    refine ⟨groups, ?_, hq⟩
    simpa [queuedTasks, takes, addedBy] using h
  | setMultiThread =>
    refine ⟨groups, ?_, hq⟩
    simpa [queuedTasks, takes, addedBy] using h
  | setThreadIndex =>
    refine ⟨groups, ?_, hq⟩
    simpa [queuedTasks, takes, addedBy] using h

theorem TaskRun.queued (run : TaskRun trace s) :
    ∃ groups, Grouped AddedTask.priority groups (queuedTasks trace) ∧ s.queue.mapTasks = mapOf groups := by
  induction run with
  | start h => exact ⟨[], .empty, by rw [h.1]; rfl⟩
  | next _ hstep ih =>
    obtain ⟨groups, hgroups, hq⟩ := ih
    exact hstep.queued hgroups hq

/-- `TaskEmpty` tells whether every task is taken. -/
theorem TaskRun.taskEmpty_iff (run : TaskRun trace s) : s.queue.taskEmpty = true ↔ queuedTasks trace = [] := by
  obtain ⟨groups, hgroups, hq⟩ := run.queued
  rw [ThreadTaskQueue.taskEmpty, hq, List.isEmpty_iff, mapOf, List.map_eq_nil_iff]
  constructor
  · intro h
    rw [List.eq_nil_iff_forall_not_mem]
    intro a ha
    obtain ⟨g, hg, _⟩ := hgroups.covers a ha
    simp [h] at hg
  · intro h
    rw [List.eq_nil_iff_forall_not_mem]
    intro g hg
    apply hgroups.nonempty g hg
    rw [hgroups.group g hg, h, List.filter_nil]

/-- Each task of a trace is queued or taken, and is that once. -/
theorem queuedTasks_append_takenTasks_perm (trace : List (Transition TaskSystem TaskEvent)) :
    (queuedTasks trace ++ takenTasks trace).Perm (addedTasks trace) := by
  induction trace with
  | nil => exact .refl _
  | cons t older ih =>
    have hsplit : (eligibleTasks older t ++ (queuedTasks older).filter fun a => !takes t a).Perm (queuedTasks older) :=
      List.filter_append_perm _ _
    rw [queuedTasks, takenTasks, addedTasks]
    refine List.Perm.trans ?_ (((hsplit.append_right _).trans ih).append_right _)
    rw [List.perm_iff_count]
    intro a
    simp only [List.count_append]
    omega

theorem serial_of_mem_addedBy {a : AddedTask} (ha : a ∈ addedBy older event) : a.serial = older.length := by
  unfold addedBy at ha
  split at ha
  · rw [List.mem_singleton.mp ha]
  · simp at ha

theorem serial_lt_of_mem_addedTasks {a : AddedTask} (ha : a ∈ addedTasks trace) : a.serial < trace.length := by
  induction trace with
  | nil => simp [addedTasks] at ha
  | cons t older ih =>
    rw [List.length_cons]
    rcases List.mem_append.mp ha with ha | ha
    · exact (ih ha).trans (Nat.lt_succ_self _)
    · rw [serial_of_mem_addedBy ha]
      exact Nat.lt_succ_self _

theorem addedTasks_pairwise (trace : List (Transition TaskSystem TaskEvent)) :
    (addedTasks trace).Pairwise fun a b => a.serial < b.serial := by
  induction trace with
  | nil => exact .nil
  | cons t older ih =>
    rw [addedTasks, List.pairwise_append]
    refine ⟨ih, ?_, ?_⟩
    · unfold addedBy
      split
      · exact List.pairwise_singleton _ _
      · exact .nil
    · intro a ha b hb
      rw [serial_of_mem_addedBy hb]
      exact serial_lt_of_mem_addedTasks ha

theorem queuedTasks_sublist (trace : List (Transition TaskSystem TaskEvent)) :
    (queuedTasks trace).Sublist (addedTasks trace) := by
  induction trace with
  | nil => exact .refl _
  | cons t older ih => exact (List.filter_sublist.trans ih).append (.refl _)

/-- A later move runs the first task of a call, or leaves the call as it is. -/
theorem TaskStep.keeps_call (hstep : TaskStep s event s') (hcall : s.calls[n]? = some ⟨index, left⟩) :
    ∃ left', s'.calls[n]? = some ⟨index, left'⟩ ∧ left = ranBy n event ++ left' := by
  cases hstep with
  | addTask => exact ⟨left, hcall, rfl⟩
  | onRun =>
    refine ⟨left, ?_, rfl⟩
    exact List.getElem?_append_left (List.getElem?_eq_some_iff.mp hcall).1 ▸ hcall
  | @runTask call' index' task lstRunTasks hhead =>
    by_cases hsame : call' = n
    · subst hsame
      rw [hcall] at hhead
      cases hhead
      refine ⟨lstRunTasks, ?_, ?_⟩
      · rw [List.getElem?_set_self (List.getElem?_eq_some_iff.mp hcall).1]
      · simp [ranBy]
    · refine ⟨left, ?_, ?_⟩
      · rw [List.getElem?_set_ne hsame]
        exact hcall
      · simp [ranBy, hsame]
  | setMultiThread => exact ⟨left, hcall, rfl⟩
  | setThreadIndex => exact ⟨left, hcall, rfl⟩

/-- A call takes what it may run, by priority and then first to last. -/
theorem TaskRun.takes_eligible (run : TaskRun older s) (hstep : TaskStep s (.onRun index maxIndex) s') :
    ∃ took : List AddedTask, took.Perm (eligibleTasks older ⟨s, .onRun index maxIndex, s'⟩) ∧
      (took.Pairwise fun a b => a.priority < b.priority ∨ (a.priority = b.priority ∧ a.serial < b.serial)) ∧
      s'.calls[s.calls.length]? = some ⟨index, took.map AddedTask.task⟩ := by
  obtain ⟨groups, hgroups, hq⟩ := run.queued
  have hserial : (queuedTasks older).Pairwise fun a b => a.serial < b.serial :=
    (addedTasks_pairwise older).sublist (queuedTasks_sublist older)
  refine ⟨takenGroups (fun a => s.MayRun index maxIndex a.task) groups, ?_, ?_, ?_⟩
  · exact hgroups.taken_perm _
  · exact hgroups.taken_pairwise hserial _
  · cases hstep with
    | onRun hrun =>
      rw [ThreadTaskQueue.onRun_mapOf hq] at hrun
      obtain ⟨rfl, rfl⟩ := Prod.mk.inj hrun
      rw [List.getElem?_concat_length]

/-- What a call has run and what is left of its list make up what it took. -/
theorem TaskRun.served (run : TaskRun trace s) (htrace : trace = newer ++ t :: older)
    (ht : t.event = .onRun index maxIndex) : ∃ took left, ServesEligible older newer t index s took left := by
  induction run generalizing newer with
  | start => simp at htrace
  | @next trace s event s' run hstep ih =>
    cases newer with
    | nil =>
      obtain ⟨rfl, rfl⟩ := List.cons.inj htrace
      cases ht
      obtain ⟨took, heligible, horder, hcall⟩ := TaskRun.takes_eligible run hstep
      exact ⟨took, took.map AddedTask.task, heligible, horder, hcall, rfl⟩
    | cons u newer =>
      obtain ⟨rfl, rfl⟩ := List.cons.inj htrace
      obtain ⟨took, left, heligible, horder, hcall, hran⟩ := ih rfl
      obtain ⟨left', hcall', rfl⟩ := hstep.keeps_call hcall
      refine ⟨took, left', heligible, horder, hcall', ?_⟩
      rw [ranTasks, List.append_assoc]
      exact hran

theorem TaskRun.leftBehind (run : TaskRun older s) (hstep : TaskStep s (.onRun index maxIndex) s') {priority : Nat}
    {lstTasks : List (Option Nat)} (hmem : (priority, lstTasks) ∈ s'.queue.mapTasks) :
    ∃ before, (priority, before) ∈ s.queue.mapTasks ∧ lstTasks.Sublist before := by
  obtain ⟨groups, hgroups, hq⟩ := run.queued
  cases hstep with
  | onRun hrun =>
    rw [ThreadTaskQueue.onRun_mapOf hq] at hrun
    obtain ⟨rfl, rfl⟩ := Prod.mk.inj hrun
    obtain ⟨g, hg, heq⟩ := List.mem_map.mp hmem
    obtain ⟨rfl, rfl⟩ := Prod.mk.inj heq
    obtain ⟨⟨xs, hxs, hleft⟩, _⟩ := mem_leftGroups.mp hg
    refine ⟨xs.map fun a => some a.task, ?_, ?_⟩
    · rw [hq]
      exact List.mem_map.mpr ⟨_, hxs, rfl⟩
    · rw [hleft]
      exact List.filter_sublist.map _

end

theorem taskQueue_servesTasks {trace : List (Transition TaskSystem TaskEvent)} {s : TaskSystem}
    (run : TaskRun trace s) : ServesTasks trace s where
  queued := run.queued
  once := queuedTasks_append_takenTasks_perm trace
  distinct := (addedTasks_pairwise trace).imp fun h heq => (heq ▸ h).ne rfl
  served := fun _ _ _ _ _ htrace ht => run.served htrace ht
  leftBehind := by
    intro t ht index maxIndex hevent priority lstTasks hmem
    obtain ⟨newer, older, rfl⟩ := List.append_of_mem ht
    have hstep := run.step_of_mem ht
    rw [hevent] at hstep
    exact TaskRun.leftBehind (run.split rfl) hstep hmem

/-- Three tasks of two threads. The first thread leaves the task of the other, which is of the first priority. -/
theorem taskQueue_servesTasks_twoThreads :
    ∃ trace s, TaskRun trace s ∧ s.calls = [⟨0, [7]⟩, ⟨1, [9]⟩] ∧ s.queue.mapTasks = [] ∧ ServesTasks trace s := by
  have start : TaskRun [] ⟨.new, fun task => if task = 9 then 1 else 0, []⟩ := .start ⟨rfl, rfl⟩
  have added := start.next (show TaskStep _ (.addTask (some 7) 1) _ from .addTask)
  have added := added.next (show TaskStep _ (.addTask none 0) _ from .addTask)
  have added := added.next (show TaskStep _ (.addTask (some 9) 0) _ from .addTask)
  have added := added.next (show TaskStep _ (.addTask (some 8) 0) _ from .addTask)
  have taken := added.next (show TaskStep _ (.onRun 0 2) _ from .onRun rfl)
  have ran := taken.next (show TaskStep _ (.runTask 0 8) _ from .runTask rfl)
  have taken := ran.next (show TaskStep _ (.onRun 1 2) _ from .onRun rfl)
  exact ⟨_, _, taken, by decide, by decide, taskQueue_servesTasks taken⟩

end MasterAI
