import Mathlib.Data.List.Basic

namespace MasterAI

/-- One move of a labelled transition system, with the states on both sides of it. -/
structure Transition (σ ε : Type*) where
  pre : σ
  event : ε
  post : σ

/-- Finite runs of a labelled step relation. The trace lists the latest move first. -/
inductive StepRun {σ ε : Type*} (step : σ → ε → σ → Prop) (start : σ → Prop) :
    List (Transition σ ε) → σ → Prop
  | start {s} : start s → StepRun step start [] s
  | next {trace s e t} : StepRun step start trace s → step s e t →
      StepRun step start (⟨s, e, t⟩ :: trace) t

/-- Every move of a trace meets a condition, which may look at the moves before it. -/
def Guarded {σ ε : Type*} (guard : List (Transition σ ε) → Transition σ ε → Prop) :
    List (Transition σ ε) → Prop
  | [] => True
  | t :: older => guard older t ∧ Guarded guard older

instance decidableGuarded {σ ε : Type*} (guard : List (Transition σ ε) → Transition σ ε → Prop)
    [∀ older t, Decidable (guard older t)] : ∀ trace, Decidable (Guarded guard trace)
  | [] => .isTrue trivial
  | t :: older =>
    have := decidableGuarded guard older
    inferInstanceAs (Decidable (guard older t ∧ Guarded guard older))

section

variable {σ ε : Type*} {step : σ → ε → σ → Prop} {start : σ → Prop}
  {trace : List (Transition σ ε)} {s : σ}

theorem StepRun.step_of_mem (run : StepRun step start trace s) {t : Transition σ ε}
    (ht : t ∈ trace) : step t.pre t.event t.post := by
  induction run with
  | start => simp at ht
  | next _ hstep ih =>
    rcases List.mem_cons.mp ht with rfl | ht
    · exact hstep
    · exact ih ht

theorem StepRun.weaken {step' : σ → ε → σ → Prop} (run : StepRun step start trace s)
    (h : ∀ s e t, step s e t → step' s e t) : StepRun step' start trace s := by
  induction run with
  | start hs => exact .start hs
  | next _ hstep ih => exact .next ih (h _ _ _ hstep)

/-- A guarded invariant: it may use a condition that every move of the trace meets. -/
theorem StepRun.invariant {P : σ → Prop} {guard : Transition σ ε → Prop}
    (run : StepRun step start trace s) (guarded : ∀ t ∈ trace, guard t)
    (base : ∀ s, start s → P s)
    (keep : ∀ t : Transition σ ε, step t.pre t.event t.post → guard t → P t.pre → P t.post) :
    P s := by
  induction run with
  | start h => exact base _ h
  | @next trace s e t _ hstep ih =>
    exact keep ⟨s, e, t⟩ hstep (guarded _ (by simp)) (ih fun u hu => guarded u (by simp [hu]))

theorem StepRun.always {P : σ → Prop} (run : StepRun step start trace s) (base : ∀ s, start s → P s)
    (keep : ∀ s e t, step s e t → P s → P t) : P s := by
  induction run with
  | start h => exact base _ h
  | next _ hstep ih => exact keep _ _ _ hstep ih

/-- Every trace of a run splits into the run up to a chosen move and the moves after it. -/
theorem StepRun.split (run : StepRun step start trace s) {newer older : List (Transition σ ε)}
    {t : Transition σ ε} (h : trace = newer ++ t :: older) :
    StepRun step start older t.pre := by
  induction run generalizing newer with
  | start => simp at h
  | @next trace s e u run hstep ih =>
    cases newer with
    | nil =>
      obtain ⟨ht, hr⟩ := List.cons.inj h
      subst ht; subst hr
      exact run
    | cons v newer => exact ih (List.cons.inj h).2

theorem Guarded.imp {guard guard' : List (Transition σ ε) → Transition σ ε → Prop}
    (h : Guarded guard trace) (himp : ∀ older t, guard older t → guard' older t) : Guarded guard' trace := by
  induction trace with
  | nil => trivial
  | cons t older ih => exact ⟨himp older t h.1, ih h.2⟩

/-- A guarded invariant that may look at the trace. -/
theorem StepRun.invariant_trace {P : List (Transition σ ε) → σ → Prop}
    {guard : List (Transition σ ε) → Transition σ ε → Prop} (run : StepRun step start trace s)
    (guarded : Guarded guard trace) (base : ∀ s, start s → P [] s)
    (keep : ∀ older (t : Transition σ ε), step t.pre t.event t.post → guard older t → P older t.pre →
      P (t :: older) t.post) : P trace s := by
  induction run with
  | start h => exact base _ h
  | @next trace s e t _ hstep ih => exact keep trace ⟨s, e, t⟩ hstep guarded.1 (ih guarded.2)

/-- Makes moves one after another, and stops with no result at one that cannot be made. -/
def performAll {ι : Type*} (next : σ → ι → Option (ε × σ)) :
    List ι → List (Transition σ ε) × σ → Option (List (Transition σ ε) × σ)
  | [], reached => some reached
  | input :: rest, (trace, s) =>
    (next s input).bind fun (e, t) => performAll next rest (⟨s, e, t⟩ :: trace, t)

/-- What is reached by moves of a run is reached by a run. -/
theorem StepRun.performAll {ι : Type*} {next : σ → ι → Option (ε × σ)}
    (hnext : ∀ s input e t, next s input = some (e, t) → step s e t) {inputs : List ι}
    {reached last : List (Transition σ ε) × σ} (run : StepRun step start reached.1 reached.2)
    (h : performAll next inputs reached = some last) : StepRun step start last.1 last.2 := by
  induction inputs generalizing reached with
  | nil =>
    cases h
    exact run
  | cons input rest ih =>
    obtain ⟨trace, s⟩ := reached
    obtain ⟨⟨e, t⟩, hmove, h⟩ := Option.bind_eq_some_iff.mp h
    exact ih (.next run (hnext s input e t hmove)) h

/-- The run of a list of moves from a state, empty where one of them cannot be made. -/
def runFrom {ι : Type*} (next : σ → ι → Option (ε × σ)) (s : σ) (inputs : List ι) :
    List (Transition σ ε) × σ :=
  (MasterAI.performAll next inputs ([], s)).getD ([], s)

theorem StepRun.runFrom {ι : Type*} {next : σ → ι → Option (ε × σ)}
    (hnext : ∀ s input e t, next s input = some (e, t) → step s e t) (hs : start s) (inputs : List ι) :
    StepRun step start (runFrom next s inputs).1 (runFrom next s inputs).2 := by
  have run : StepRun step start (([], s) : List (Transition σ ε) × σ).1 (([], s) : List (Transition σ ε) × σ).2 :=
    .start hs
  unfold MasterAI.runFrom
  cases h : MasterAI.performAll next inputs ([], s) with
  | none => exact run
  | some last => exact StepRun.performAll hnext run h

end

end MasterAI
