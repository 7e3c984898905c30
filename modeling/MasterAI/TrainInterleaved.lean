import MasterAI.TrainRuns

namespace MasterAI

/-- The call of a scheduled event. -/
def TrainEvent.call : TrainEvent → TrainerCall
  | .status => .status
  | .strategy processed => .strategy processed
  | .discount processed => .discount processed processed
  | .save processed => .save processed
  | .task id => .submit (.train id)

/-- The calls that the schedule of `train` is about. Those of `start` and `stop` and the tasks of a save are not. -/
def TrainerMove.scheduled : TrainerMove → List TrainerCall
  | .main (some (.submit (.train taskId))) => [.submit (.train taskId)]
  | .main (some (.submit _)) => []
  | .main (some .store) => []
  | .main (some call) => [call]
  | _ => []

def scheduleCalls : List (Transition TrainSystem TrainerMove) → List TrainerCall
  | [] => []
  | m :: older => scheduleCalls older ++ m.event.scheduled

namespace TrainConfig

def savePart (c : TrainConfig) (n : Nat) : List TrainEvent :=
  if n % asUInt32 c.serializeInterval = 0 then [.save n] else []

def discountPart (c : TrainConfig) (n : Nat) : List TrainEvent :=
  (if n % asUInt32 c.discountInterval = 0 then [.discount n] else []) ++ c.savePart n

def thresholdPart (c : TrainConfig) (n : Nat) : List TrainEvent :=
  if n < asUInt32 c.lcfrThreshold then c.discountPart n else c.savePart n

def strategyPart (c : TrainConfig) (n : Nat) : List TrainEvent :=
  (if n % asUInt32 c.strategyInterval = 0 then [.strategy n] else []) ++ c.thresholdPart n

def statusPart (c : TrainConfig) (n : Nat) : List TrainEvent :=
  (if n % c.resetPoolInterval = 0 then [.status] else []) ++ c.strategyPart n

theorem fired_zero (c : TrainConfig) : c.fired 0 = [] := rfl

theorem fired_pos {c : TrainConfig} (valid : c.Valid) {n : Nat} (hn : 0 < n) : c.fired n = c.statusPart n := by
  have := valid.resetPool_pos
  unfold fired triggers statusPart strategyPart thresholdPart discountPart savePart
  rw [if_pos ⟨hn, hn⟩, if_neg (by omega), Option.getD_some, List.append_assoc, List.append_assoc]
  by_cases hthreshold : n < asUInt32 c.lcfrThreshold
  · simp only [hthreshold, true_and, if_true]
  · simp only [hthreshold, false_and, if_false, List.nil_append]

/-- What `train` still runs after the tasks of a pass, with a bound on the passes. -/
def afterTasks (c : TrainConfig) (k n left : Nat) : Option (List TrainEvent) :=
  (train c k ⟨(n + left) % 4294967296, n⟩).map (submitTasks n left ++ ·)

/-- What `train` still runs after the updates of a pass. -/
def afterUpdates (c : TrainConfig) (k n : Nat) : Option (List TrainEvent) :=
  if asUInt32 c.maxIterations ≤ n then some [] else c.afterTasks k n c.batch

/-- What the sequential `train` still runs when the trainer is at a point, with `n` iterations counted. -/
def schedule (c : TrainConfig) (k n : Nat) : TrainPoint → Option (List TrainEvent)
  | .load _ | .waitLoaded | .loop | .waitIdle => train c k ⟨n, n⟩
  | .triggers => (c.afterUpdates k n).map (c.fired n ++ ·)
  | .status => (c.afterUpdates k n).map (c.statusPart n ++ ·)
  | .strategy => (c.afterUpdates k n).map (c.strategyPart n ++ ·)
  | .threshold => (c.afterUpdates k n).map (c.thresholdPart n ++ ·)
  | .discount => (c.afterUpdates k n).map (c.discountPart n ++ ·)
  | .factor1 => (c.afterUpdates k n).map (.discount n :: c.savePart n ++ ·)
  | .factor2 _ => (c.afterUpdates k n).map (.discount n :: c.savePart n ++ ·)
  | .serialize => (c.afterUpdates k n).map (c.savePart n ++ ·)
  | .save _ | .waitSaved | .waitAgain | .finished => c.afterUpdates k n
  | .taskNum => if n < asUInt32 c.maxIterations then c.afterTasks k n c.batch else train c k ⟨n, n⟩
  | .submit left => c.afterTasks k n left
  | .push taskId left => (c.afterTasks k n left).map (.task taskId :: ·)
  | .final | .kill | .wait | .store | .done => some []

end TrainConfig

theorem submitTasks_succ (n left : Nat) :
    submitTasks n (left + 1) =
      .task ((n + 1) % 4294967296) :: submitTasks ((n + 1) % 4294967296) left := by
  unfold submitTasks
  rw [List.range_succ_eq_map, List.map_cons, List.map_map]
  refine congrArg₂ _ rfl (List.map_congr_left fun i _ => ?_)
  simp only [Function.comp_apply, Nat.succ_eq_add_one, TrainEvent.task.injEq]
  omega

/-- The sequential run ignores how many iterations were processed before the wait. -/
theorem train_processed (c : TrainConfig) (k n m m' : Nat) : train c k ⟨n, m⟩ = train c k ⟨n, m'⟩ := by
  cases k <;> rfl

namespace TrainConfig

variable {c : TrainConfig} (valid : c.Valid)

theorem afterTasks_zero (k n : Nat) (hn : n < 4294967296) : c.afterTasks k n 0 = train c k ⟨n, n⟩ := by
  unfold afterTasks
  rw [Nat.add_zero, Nat.mod_eq_of_lt hn]
  exact Option.map_id' ▸ rfl

theorem afterTasks_succ (k n left : Nat) :
    c.afterTasks k n (left + 1) =
      (c.afterTasks k ((n + 1) % 4294967296) left).map (.task ((n + 1) % 4294967296) :: ·) := by
  unfold afterTasks
  have hnext : (n + (left + 1)) % 4294967296 = ((n + 1) % 4294967296 + left) % 4294967296 := by omega
  rw [Option.map_map, hnext, submitTasks_succ, train_processed c k _ n ((n + 1) % 4294967296)]
  rfl

include valid

theorem train_schedule (k n : Nat) :
    train c (k + 1) ⟨n, n⟩ = (c.afterUpdates k n).map (c.fired n ++ ·) := by
  rw [train_succ valid]
  unfold afterUpdates afterTasks
  split
  · rw [Option.map_some, List.append_nil]
  · rw [Option.map_map]
    congr 1
    funext rest
    exact List.append_assoc _ _ _

end TrainConfig

namespace TrainSystem

variable {c : TrainConfig} {agentSize minIterations : Nat} {s t : TrainSystem}
  {trace : List (Transition TrainSystem TrainerMove)} {call : Option TrainerCall} {work : Option TrainerTask}

/-- A step runs the first events of what the schedule still has, and leaves the others. -/
def Replays (c : TrainConfig) (call : Option TrainerCall) (s t : TrainSystem) : Prop :=
  ∃ shift es, (TrainerMove.main call).scheduled = es.map TrainEvent.call ∧
    ∀ k, c.schedule (k + shift) s.numIterations s.point = (c.schedule k t.numIterations t.point).map (es ++ ·)

theorem replays_silent (hcall : (TrainerMove.main call).scheduled = [])
    (h : ∀ k, c.schedule k s.numIterations s.point = c.schedule k t.numIterations t.point) : Replays c call s t := by
  refine ⟨0, [], hcall, fun k => ?_⟩
  rw [Nat.add_zero, h]
  exact Option.map_id'.symm

theorem replays_event (e : TrainEvent)
    (h : ∀ k, c.schedule k s.numIterations s.point = (c.schedule k t.numIterations t.point).map (e :: ·)) :
    Replays c (some e.call) s t := by
  refine ⟨0, [e], ?_, fun k => h k⟩
  cases e <;> rfl

theorem map_cons_append {α : Type*} (a : α) (l : List α) (o : Option (List α)) :
    o.map (a :: l ++ ·) = (o.map (l ++ ·)).map (a :: ·) := by
  rw [Option.map_map]
  rfl

/-- The second read for the factor of a discount sees the iterations that the first one saw. -/
def Factored (s : TrainSystem) : Prop := ∀ m, s.point = .factor2 m → m = s.numProcessed

/-- The points that the schedule does not tell from the next one. -/
def passing : TrainPoint → Bool
  | .load _ | .waitLoaded | .loop | .factor1 | .save _ | .waitSaved | .waitAgain | .final | .kill | .wait | .store => true
  | _ => false

theorem replays_passing (hpassing : passing s.point = true) (hrunning : s.running = true)
    (hstep : s.mainStep c agentSize = some (call, t)) : Replays c call s t := by
  unfold mainStep at hstep
  split at hstep <;> (try split at hstep) <;> (try split at hstep) <;> cases hstep
  all_goals first
    | (rw [‹s.point = _›] at hpassing; cases hpassing; done)
    | exact replays_silent rfl fun k => rfl
    | (refine replays_silent rfl fun k => ?_
       rw [‹s.point = _›]
       rfl)

theorem replays_waitIdle (valid : c.Valid) (hpoint : s.point = .waitIdle)
    (hstep : s.mainStep c agentSize = some (call, t)) : Replays c call s t := by
  simp only [mainStep, hpoint] at hstep
  split at hstep
  · cases hstep
    exact replays_silent rfl fun k => rfl
  · cases hstep
    refine ⟨1, [], rfl, fun k => ?_⟩
    rw [hpoint]
    change train c (k + 1) _ = Option.map _ (Option.map _ _)
    rw [TrainConfig.train_schedule valid]
    exact Option.map_id'.symm

theorem replays_triggers (valid : c.Valid) (h : Counts c agentSize s) (hpoint : s.point = .triggers)
    (hstep : s.mainStep c agentSize = some (call, t)) : Replays c call s t := by
  have hn := h.quiet (by rw [hpoint]; rfl)
  simp only [mainStep, hpoint] at hstep
  cases hstep
  refine replays_silent rfl fun k => ?_
  rw [hpoint]
  by_cases hpos : s.numIterations > 0
  · rw [if_pos ⟨hpos, hn ▸ hpos⟩]
    change Option.map _ _ = Option.map _ _
    rw [TrainConfig.fired_pos valid hpos]
  · rw [if_neg fun hboth => hpos hboth.1]
    change Option.map _ _ = _
    rw [Nat.eq_zero_of_not_pos hpos, TrainConfig.fired_zero]
    exact Option.map_id'

theorem replays_status (hpoint : s.point = .status) (hstep : s.mainStep c agentSize = some (call, t)) :
    Replays c call s t := by
  simp only [mainStep, hpoint] at hstep
  split at hstep
  · cases hstep
  · cases hstep
    by_cases hdue : s.numIterations % c.resetPoolInterval = 0
    · rw [if_pos hdue]
      refine replays_event .status fun k => ?_
      rw [hpoint]
      change Option.map _ _ = Option.map _ (Option.map _ _)
      unfold TrainConfig.statusPart
      rw [if_pos hdue]
      exact map_cons_append _ _ _
    · rw [if_neg hdue]
      refine replays_silent rfl fun k => ?_
      rw [hpoint]
      change Option.map _ _ = Option.map _ _
      unfold TrainConfig.statusPart
      rw [if_neg hdue]
      rfl

theorem replays_strategy (h : Counts c agentSize s) (hpoint : s.point = .strategy)
    (hstep : s.mainStep c agentSize = some (call, t)) : Replays c call s t := by
  have hn := h.quiet (by rw [hpoint]; rfl)
  simp only [mainStep, hpoint] at hstep
  split at hstep
  · cases hstep
  · split at hstep
    next hdue =>
      cases hstep
      refine replays_event (.strategy s.numProcessed) fun k => ?_
      rw [hpoint]
      change Option.map _ _ = Option.map _ (Option.map _ _)
      unfold TrainConfig.strategyPart
      rw [hn, if_pos hdue]
      exact map_cons_append _ _ _
    next hdue =>
      cases hstep
      refine replays_silent rfl fun k => ?_
      rw [hpoint]
      change Option.map _ _ = Option.map _ _
      unfold TrainConfig.strategyPart
      rw [hn, if_neg hdue]
      rfl

theorem replays_threshold (h : Counts c agentSize s) (hpoint : s.point = .threshold)
    (hstep : s.mainStep c agentSize = some (call, t)) : Replays c call s t := by
  have hn := h.quiet (by rw [hpoint]; rfl)
  simp only [mainStep, hpoint] at hstep
  cases hstep
  refine replays_silent rfl fun k => ?_
  rw [hpoint]
  change Option.map (c.thresholdPart s.numIterations ++ ·) _ = _
  unfold TrainConfig.thresholdPart
  rw [hn]
  split <;> rfl

theorem replays_discount (h : Counts c agentSize s) (hpoint : s.point = .discount)
    (hstep : s.mainStep c agentSize = some (call, t)) : Replays c call s t := by
  have hn := h.quiet (by rw [hpoint]; rfl)
  simp only [mainStep, hpoint] at hstep
  split at hstep
  · cases hstep
  · split at hstep
    next hdue =>
      cases hstep
      refine replays_silent rfl fun k => ?_
      rw [hpoint]
      change Option.map (c.discountPart s.numIterations ++ ·) _ = _
      unfold TrainConfig.discountPart
      rw [hn, if_pos hdue]
      rfl
    next hdue =>
      cases hstep
      refine replays_silent rfl fun k => ?_
      rw [hpoint]
      change Option.map (c.discountPart s.numIterations ++ ·) _ = _
      unfold TrainConfig.discountPart
      rw [hn, if_neg hdue]
      rfl

/-- Both reads for the factor see the iterations that the schedule discounts. -/
theorem replays_factor2 (h : Counts c agentSize s) (hfactor : s.Factored) {processed : Nat}
    (hpoint : s.point = .factor2 processed) (hstep : s.mainStep c agentSize = some (call, t)) : Replays c call s t := by
  have hn := h.quiet (by rw [hpoint]; rfl)
  simp only [mainStep, hpoint] at hstep
  cases hstep
  rw [hfactor _ hpoint]
  refine replays_event (.discount s.numProcessed) fun k => ?_
  rw [hpoint, hn]
  exact map_cons_append _ _ _

theorem replays_serialize (h : Counts c agentSize s) (hpoint : s.point = .serialize)
    (hstep : s.mainStep c agentSize = some (call, t)) : Replays c call s t := by
  have hn := h.quiet (by rw [hpoint]; rfl)
  simp only [mainStep, hpoint] at hstep
  split at hstep
  · cases hstep
  · split at hstep
    next hdue =>
      cases hstep
      refine replays_event (.save s.numProcessed) fun k => ?_
      rw [hpoint]
      change Option.map (c.savePart s.numIterations ++ ·) _ = _
      unfold TrainConfig.savePart
      rw [hn, if_pos hdue]
      rfl
    next hdue =>
      cases hstep
      refine replays_silent rfl fun k => ?_
      rw [hpoint]
      change Option.map (c.savePart s.numIterations ++ ·) _ = _
      unfold TrainConfig.savePart
      rw [hn, if_neg hdue]
      exact Option.map_id'

theorem replays_finished (h : Counts c agentSize s) (hpoint : s.point = .finished)
    (hstep : s.mainStep c agentSize = some (call, t)) : Replays c call s t := by
  have hn := h.quiet (by rw [hpoint]; rfl)
  simp only [mainStep, hpoint] at hstep
  cases hstep
  refine replays_silent rfl fun k => ?_
  rw [hpoint]
  change c.afterUpdates k s.numIterations = _
  unfold TrainConfig.afterUpdates
  rw [hn]
  split
  next hlast => rfl
  next hlast => exact (if_pos (not_le.mp hlast)).symm

theorem replays_taskNum (valid : c.Valid) (h : Counts c agentSize s) (hpoint : s.point = .taskNum)
    (hstep : s.mainStep c agentSize = some (call, t)) : Replays c call s t := by
  have hn := h.quiet (by rw [hpoint]; rfl)
  simp only [mainStep, hpoint] at hstep
  cases hstep
  refine replays_silent rfl fun k => ?_
  rw [hpoint, hn, valid.taskNum_eq]
  by_cases hmore : s.numProcessed < asUInt32 c.maxIterations
  · rw [if_pos hmore]
    exact if_pos hmore
  · rw [if_neg hmore]
    exact if_neg hmore

theorem replays_submit (h : Counts c agentSize s) {left : Nat} (hpoint : s.point = .submit left)
    (hstep : s.mainStep c agentSize = some (call, t)) : Replays c call s t := by
  cases left with
  | zero =>
    simp only [mainStep, hpoint] at hstep
    cases hstep
    refine replays_silent rfl fun k => ?_
    rw [hpoint]
    exact TrainConfig.afterTasks_zero k _ h.iterations_fit
  | succ left =>
    simp only [mainStep, hpoint] at hstep
    cases hstep
    refine replays_silent rfl fun k => ?_
    rw [hpoint]
    exact TrainConfig.afterTasks_succ k _ left

theorem replays_push {taskId left : Nat} (hpoint : s.point = .push taskId left)
    (hstep : s.mainStep c agentSize = some (call, t)) : Replays c call s t := by
  simp only [mainStep, hpoint] at hstep
  cases hstep
  refine replays_event (.task taskId) fun k => ?_
  rw [hpoint]
  rfl

/-- At every point a step runs what the schedule has next there. -/
theorem replays_of_main (valid : c.Valid) (h : Counts c agentSize s) (hfactor : s.Factored)
    (hrunning : s.running = true) (hstep : s.mainStep c agentSize = some (call, t)) : Replays c call s t := by
  cases hpoint : s.point with
  | waitIdle => exact replays_waitIdle valid hpoint hstep
  | triggers => exact replays_triggers valid h hpoint hstep
  | status => exact replays_status hpoint hstep
  | strategy => exact replays_strategy h hpoint hstep
  | threshold => exact replays_threshold h hpoint hstep
  | discount => exact replays_discount h hpoint hstep
  | factor2 processed => exact replays_factor2 h hfactor hpoint hstep
  | serialize => exact replays_serialize h hpoint hstep
  | finished => exact replays_finished h hpoint hstep
  | taskNum => exact replays_taskNum valid h hpoint hstep
  | submit left => exact replays_submit h hpoint hstep
  | push taskId left => exact replays_push hpoint hstep
  | done =>
    simp only [mainStep, hpoint] at hstep
    cases hstep
  | _ => exact replays_passing (by rw [hpoint]; rfl) hrunning hstep

/-- A run without a kill has run the first events of the sequential schedule, and its point says which. -/
structure Replayed (c : TrainConfig) (minIterations : Nat) (trace : List (Transition TrainSystem TrainerMove))
    (s : TrainSystem) : Prop where
  factored : s.Factored
  schedule : ∃ passes events, scheduleCalls trace = events.map TrainEvent.call ∧
    ∀ k, train c (passes + k) ⟨minIterations, minIterations⟩ =
      (c.schedule k s.numIterations s.point).map (events ++ ·)

theorem factored_main (h : s.Factored) (hstep : s.mainStep c agentSize = some (call, t)) : t.Factored := by
  intro m hm
  unfold mainStep at hstep
  split at hstep <;> (try split at hstep) <;> (try split at hstep) <;> cases hstep
  all_goals first
    | exact h m hm
    | (cases hm; rfl)
    | cases hm

theorem Counts.factored_consume (h : Counts c agentSize s) (hfactor : s.Factored) (step : Consumed s work t) :
    t.Factored := by
  intro m hm
  rw [step.point] at hm
  have hallowed := h.allowed
  have hcount := step.counter .train
  have hle := step.openTasks .train
  have hfit := step.fit .train (h.fit .train)
  have hfit' := h.fit .train
  rw [hm] at hallowed
  simp only [TrainPoint.Allowed, counter] at hallowed hcount hfit hfit'
  rw [hfactor m hm]
  omega

theorem replayed_of_run (valid : c.Valid) (run : Run c agentSize minIterations trace s) (hrunning : s.running = true) :
    Replayed c minIterations trace s := by
  induction run with
  | start h =>
    refine ⟨fun m hm => ?_, 0, [], rfl, fun k => ?_⟩
    · rw [h.point] at hm
      cases hm
    · rw [h.point, h.numIterations, Nat.zero_add]
      exact Option.map_id'.symm
  | next run hstep ih =>
    cases hstep with
    | main hmain =>
      have hbefore := (main_frame hmain).1.symm.trans hrunning
      have hcounts := counts_of_run valid run hbefore
      obtain ⟨hfactor, passes, events, hcalls, htrain⟩ := ih hbefore
      obtain ⟨shift, es, hes, hschedule⟩ := replays_of_main valid hcounts hfactor hbefore hmain
      refine ⟨factored_main hfactor hmain, passes + shift, events ++ es, ?_, fun k => ?_⟩
      · rw [scheduleCalls, hcalls, hes, List.map_append]
      · rw [Nat.add_assoc, Nat.add_comm shift, htrain, hschedule, Option.map_map]
        congr 1
        funext rest
        exact (List.append_assoc _ _ _).symm
    | consume hconsume =>
      have hconsumed := consumed_of_consume hconsume
      have hbefore := hconsumed.running.symm.trans hrunning
      obtain ⟨hfactor, passes, events, hcalls, htrain⟩ := ih hbefore
      refine ⟨(counts_of_run valid run hbefore).factored_consume hfactor hconsumed, passes, events, ?_, fun k => ?_⟩
      · rw [scheduleCalls, hcalls]
        exact List.append_nil _
      · rw [hconsumed.numIterations, hconsumed.point]
        exact htrain k
    | kill => cases hrunning

end TrainSystem

theorem train_add {c : TrainConfig} {passes : Nat} {s : Trainer} {events : List TrainEvent}
    (h : train c passes s = some events) (more : Nat) : train c (passes + more) s = some events := by
  induction passes generalizing s events with
  | zero => cases h
  | succ passes ih =>
    rw [Nat.add_right_comm]
    unfold train at h ⊢
    obtain ⟨fired, hfired, h⟩ := Option.bind_eq_some_iff.mp h
    refine Option.bind_eq_some_iff.mpr ⟨fired, hfired, ?_⟩
    split at h
    next hlast =>
      rw [if_pos hlast]
      exact h
    next hlast =>
      rw [if_neg hlast]
      obtain ⟨rest, hrest, h⟩ := Option.bind_eq_some_iff.mp h
      exact Option.bind_eq_some_iff.mpr ⟨rest, ih hrest, h⟩

/-- The points after `train`. -/
def TrainPoint.returned : TrainPoint → Bool
  | .final | .kill | .wait | .store | .done => true
  | _ => false

namespace TrainSystem

variable {c : TrainConfig} {agentSize minIterations : Nat} {s t : TrainSystem}
  {trace : List (Transition TrainSystem TrainerMove)} {call : TrainerCall}

/-- However the threads take turns, as long as nobody kills the trainer it makes the calls of the sequential
`train`, whose waits let the threads finish all their tasks at once, in the same order. -/
theorem train_interleaved (valid : c.Valid) (run : Run c agentSize minIterations trace s) (hrunning : s.running = true)
    {passes : Nat} {events : List TrainEvent} (htrain : train c passes ⟨minIterations, minIterations⟩ = some events) :
    scheduleCalls trace <+: events.map TrainEvent.call ∧
      (s.point.returned = true → scheduleCalls trace = events.map TrainEvent.call) := by
  obtain ⟨-, passes', done, hcalls, hschedule⟩ := replayed_of_run valid run hrunning
  have hmore := train_add htrain passes'
  rw [Nat.add_comm, hschedule] at hmore
  obtain ⟨rest, hrest, rfl⟩ := Option.map_eq_some_iff.mp hmore
  rw [hcalls, List.map_append]
  refine ⟨List.prefix_append _ _, fun hreturned => ?_⟩
  have hnone : rest = [] := by
    cases hpoint : s.point with
    | final | kill | wait | store | done =>
      rw [hpoint] at hrest
      exact (Option.some.inj hrest).symm
    | _ =>
      rw [hpoint] at hreturned
      cases hreturned
  rw [hnone, List.map_nil, List.append_nil]

theorem Counts.one_kind (h : Counts c agentSize s) {k k' : TaskKind} (hk : 0 < s.openTasks k)
    (hk' : 0 < s.openTasks k') : k = k' := by
  have hallowed := h.allowed
  cases hpoint : s.point <;> rw [hpoint] at hallowed <;> simp only [TrainPoint.Allowed] at hallowed <;>
    cases k <;> cases k' <;> first | rfl | omega

/-- A call that submits no task is made where no task is open. -/
theorem Counts.alone (h : Counts c agentSize s) (hstep : s.mainStep c agentSize = some (some call, t))
    (hcall : ∀ task, call ≠ .submit task) (k : TaskKind) : s.openTasks k = 0 := by
  have hallowed := h.allowed
  unfold mainStep at hstep
  split at hstep
  all_goals first
    | (rw [‹s.point = _›] at hallowed; cases k <;> [exact hallowed.1; exact hallowed.2.1; exact hallowed.2.2])
    | (cases hstep; exact absurd rfl (hcall _))
    | (split at hstep <;> cases hstep; exact absurd rfl (hcall _))
    | (split at hstep <;> cases hstep)
    | cases hstep

theorem waiting_zero (hqueue : s.qTask = []) (hidle : ∀ p ∈ s.consumers, p.task = none) : s.waiting = 0 := by
  unfold waiting
  rw [hqueue, Multiset.coe_nil, zero_add]
  refine List.sum_eq_zero fun taken htaken => ?_
  obtain ⟨p, hp, rfl⟩ := List.mem_map.mp htaken
  have hnone := hidle p hp
  cases p with
  | process task => cases hnone
  | _ => rfl

/-- Loading, training and saving never overlap, and the agents are updated and saved only when every submitted task
has been worked on as often as it was submitted. -/
theorem updates_alone (valid : c.Valid) (run : Run c agentSize minIterations trace s) (hrunning : s.running = true) :
    (∀ k k', 0 < s.openTasks k → 0 < s.openTasks k' → k = k') ∧
      ∀ call t, s.mainStep c agentSize = some (some call, t) → (∀ task, call ≠ .submit task) →
        s.qTask = [] ∧ (∀ p ∈ s.consumers, p.task = none) ∧ worked trace = submitted trace := by
  have hcounts := counts_of_run valid run hrunning
  refine ⟨fun k k' hk hk' => hcounts.one_kind hk hk', fun call t hstep hcall => ?_⟩
  obtain ⟨hqueue, hidle⟩ := openTasks_zero (hcounts.alone hstep hcall)
  refine ⟨hqueue, hidle, ?_⟩
  rw [(kept_of_run run).conserved, waiting_zero hqueue hidle, add_zero]

/-- Whenever the trainer is killed, the agents are stored at the end of `stop` after every submitted task has been
worked on as often as it was submitted, with all threads gone. -/
theorem stored_after_all (run : Run c agentSize minIterations trace s)
    (hstore : s.mainStep c agentSize = some (some .store, t)) :
    s.qTask = [] ∧ (∀ p ∈ s.consumers, p = .exited) ∧ worked trace = submitted trace := by
  have hkept := kept_of_run run
  have hpoint : s.point = .store := by
    unfold mainStep at hstore
    split at hstore <;> (try split at hstore) <;> (try split at hstore) <;> first | assumption | cases hstore
  have hqueue := hkept.emptied (by rw [hpoint]; rfl)
  have hsum := hkept.threads.symm.trans (hkept.stopped hpoint)
  have hexited (p : ConsumePoint) (hp : p ∈ s.consumers) : p = .exited := by
    have hlive := List.sum_eq_zero_iff_forall_eq_nat.mp hsum _ (List.mem_map_of_mem hp)
    cases p with
    | exited => rfl
    | _ => cases hlive
  refine ⟨hqueue, hexited, ?_⟩
  rw [hkept.conserved, waiting_zero hqueue fun p hp => ?_, add_zero]
  rw [hexited p hp]
  rfl

end TrainSystem

inductive TrainInput
  | main
  | consume (w : Nat)
  | kill

def nextTrain (c : TrainConfig) (agentSize : Nat) (s : TrainSystem) : TrainInput → Option (TrainerMove × TrainSystem)
  | .main => (s.mainStep c agentSize).map fun (call, t) => (.main call, t)
  | .consume w => (s.consume w).map fun (work, t) => (.consume w work, t)
  | .kill => some (.kill, { s with running := false })

theorem step_of_nextTrain {c : TrainConfig} {agentSize : Nat} {s t : TrainSystem} {input : TrainInput} {e : TrainerMove}
    (h : nextTrain c agentSize s input = some (e, t)) : TrainSystem.Step c agentSize s e t := by
  cases input with
  | main =>
    obtain ⟨⟨call, u⟩, hstep, heq⟩ := Option.map_eq_some_iff.mp h
    cases heq
    exact .main hstep
  | consume w =>
    obtain ⟨⟨work, u⟩, hstep, heq⟩ := Option.map_eq_some_iff.mp h
    cases heq
    exact .consume hstep
  | kill =>
    cases h
    exact .kill

/-- Two threads, before the one agent is loaded. -/
def twoThreads : TrainSystem where
  running := true
  numIterations := 0
  numProcessed := 0
  agentLoaded := 0
  agentSaved := 0
  needWaitting := false
  point := .load 0
  consumeRunning := true
  numTaskThread := 2
  qTask := []
  consumers := [.loop, .loop]

def shortTraining : TrainConfig := ⟨4, 2, 2, 4, 5, 1⟩

def turns (n : Nat) : List TrainInput := (List.replicate n [.main, .consume 0, .consume 1]).flatten

theorem twoThreads_run (inputs : List TrainInput) :
    TrainSystem.Run shortTraining 1 0 (runFrom (nextTrain shortTraining 1) twoThreads inputs).1
      (runFrom (nextTrain shortTraining 1) twoThreads inputs).2 := by
  refine StepRun.runFrom (fun s input e t (h : nextTrain shortTraining 1 s input = some (e, t)) =>
    step_of_nextTrain h) ?_ inputs
  exact ⟨rfl, rfl, rfl, by decide, rfl, rfl, rfl, rfl, rfl, rfl, by decide⟩

theorem shortTraining_valid : shortTraining.Valid := by
  constructor <;> simp [shortTraining, FitsInt32, int32Max]

theorem train_interleaved_short :
    scheduleCalls (runFrom (nextTrain shortTraining 1) twoThreads (turns 51)).1 =
      [.submit (.train 1), .submit (.train 2), .status, .strategy 2, .discount 2 2, .submit (.train 3),
        .submit (.train 4), .status, .strategy 4, .discount 4 4, .save 4] := by
  have htrain : train shortTraining 3 ⟨0, 0⟩ = some [.task 1, .task 2, .status, .strategy 2, .discount 2, .task 3,
    .task 4, .status, .strategy 4, .discount 4, .save 4] := by decide
  exact (TrainSystem.train_interleaved shortTraining_valid (twoThreads_run (turns 51)) (by decide +kernel) htrain).2
    (by decide +kernel)

theorem updates_alone_short :
    ∃ t, (runFrom (nextTrain shortTraining 1) twoThreads (turns 44)).2.mainStep shortTraining 1 =
        some (some (.save 4), t) ∧
      (runFrom (nextTrain shortTraining 1) twoThreads (turns 44)).2.qTask = [] := by
  have hrunning : (runFrom (nextTrain shortTraining 1) twoThreads (turns 44)).2.running = true := by decide +kernel
  have hsave : ((runFrom (nextTrain shortTraining 1) twoThreads (turns 44)).2.mainStep shortTraining 1).map Prod.fst =
      some (some (.save 4)) := by decide +kernel
  obtain ⟨⟨call, t⟩, hstep, hcall⟩ := Option.map_eq_some_iff.mp hsave
  obtain rfl : call = some (.save 4) := hcall
  refine ⟨t, hstep, ?_⟩
  exact ((TrainSystem.updates_alone shortTraining_valid (twoThreads_run (turns 44)) hrunning).2 _ t hstep nofun).1

/-- The trainer is killed while it submits its second task, and nobody has taken the first one yet. -/
def killedInputs : List TrainInput :=
  turns 13 ++ [.main, .kill, .main, .main, .main, .consume 0, .consume 1, .consume 0, .consume 0, .consume 1, .main,
    .consume 1, .main, .consume 0, .consume 1, .main]

theorem stored_after_all_killed :
    worked (runFrom (nextTrain shortTraining 1) twoThreads killedInputs).1 =
      submitted (runFrom (nextTrain shortTraining 1) twoThreads killedInputs).1 := by
  have hstore : ((runFrom (nextTrain shortTraining 1) twoThreads killedInputs).2.mainStep shortTraining 1).map Prod.fst =
      some (some .store) := by decide +kernel
  obtain ⟨⟨call, t⟩, hstep, hcall⟩ := Option.map_eq_some_iff.mp hstore
  obtain rfl : call = some .store := hcall
  exact (TrainSystem.stored_after_all (twoThreads_run killedInputs) hstep).2.2

end MasterAI
