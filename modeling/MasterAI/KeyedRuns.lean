import MasterAI.StepRuns
import Mathlib.Logic.Function.Basic

namespace MasterAI

section

variable {σ τ ε κ : Type*} {step : σ → ε → σ → Prop} {start : σ → Prop} {step' : τ → ε → τ → Prop} {start' : τ → Prop}
  {trace : List (Transition σ ε)} {s : σ}

/-- A run of one system is followed by a run of another one with the same events, where every step is. -/
theorem StepRun.simulated {R : σ → τ → Prop} (run : StepRun step start trace s)
    (base : ∀ s, start s → ∃ a, start' a ∧ R s a)
    (keep : ∀ s e t a, step s e t → R s a → ∃ b, step' a e b ∧ R t b) :
    ∃ moves a, StepRun step' start' moves a ∧ R s a ∧ moves.map Transition.event = trace.map Transition.event := by
  induction run with
  | start h =>
    obtain ⟨a, ha, hrel⟩ := base _ h
    exact ⟨[], a, .start ha, hrel, rfl⟩
  | next run hstep ih =>
    obtain ⟨moves, a, hmoves, hrel, hevents⟩ := ih
    obtain ⟨b, hb, hnext⟩ := keep _ _ _ _ hstep hrel
    refine ⟨_, b, .next hmoves hb, hnext, ?_⟩
    rw [List.map_cons, List.map_cons, hevents]

variable [DecidableEq κ]

/-- Objects with a step relation each, where an event is about one of them or about none. -/
def KeyedStep (step : κ → σ → ε → σ → Prop) (objects : κ → σ) : Option (κ × ε) → (κ → σ) → Prop
  | none, objects' => objects' = objects
  | some (k, e), objects' => ∃ s, step k (objects k) e s ∧ objects' = Function.update objects k s

/-- The events about an object. -/
def eventsOf (k : κ) (events : List (Option (κ × ε))) : List ε :=
  events.filterMap fun event => event.bind fun (key, e) => if key = k then some e else none

@[simp] theorem eventsOf_none (k : κ) (events : List (Option (κ × ε))) :
    eventsOf k (none :: events) = eventsOf k events := rfl

@[simp] theorem eventsOf_self (k : κ) (e : ε) (events : List (Option (κ × ε))) :
    eventsOf k (some (k, e) :: events) = e :: eventsOf k events := by
  simp [eventsOf]

theorem eventsOf_ne {k key : κ} (h : key ≠ k) (e : ε) (events : List (Option (κ × ε))) :
    eventsOf k (some (key, e) :: events) = eventsOf k events := by
  simp [eventsOf, h]

/-- Each object runs on its own events only. -/
theorem StepRun.of_keyed {objStep : κ → σ → ε → σ → Prop} {first objects : κ → σ}
    {trace : List (Transition (κ → σ) (Option (κ × ε)))} (run : StepRun (KeyedStep objStep) (· = first) trace objects)
    (k : κ) :
    ∃ moves, StepRun (objStep k) (· = first k) moves (objects k) ∧
      moves.map Transition.event = eventsOf k (trace.map Transition.event) := by
  induction run with
  | start h => exact ⟨[], .start (congrFun h k), rfl⟩
  | @next trace objects event objects' run hstep ih =>
    obtain ⟨moves, hmoves, hevents⟩ := ih
    cases event with
    | none =>
      obtain rfl : objects' = objects := hstep
      exact ⟨moves, hmoves, hevents⟩
    | some keyed =>
      obtain ⟨key, e⟩ := keyed
      obtain ⟨s, hs, rfl⟩ := hstep
      by_cases hkey : key = k
      · subst hkey
        rw [Function.update_self]
        refine ⟨_, .next hmoves hs, ?_⟩
        rw [List.map_cons, List.map_cons, eventsOf_self, hevents]
      · rw [Function.update_of_ne (Ne.symm hkey)]
        refine ⟨moves, hmoves, ?_⟩
        rw [List.map_cons, eventsOf_ne hkey, hevents]

end

section

variable {κ ι : Type*}

/-- The locks know their holders: a party holds at most one lock, and knows it by its own state. -/
def Holders (holder : κ → Option ι) (held : ι → Option κ) : Prop := ∀ k i, holder k = some i ↔ held i = some k

variable {holder : κ → Option ι} {held : ι → Option κ} {k : κ} {i j : ι}

theorem Holders.exclusive (h : Holders holder held) (hi : held i = some k) (hj : held j = some k) : i = j :=
  Option.some.inj (((h k i).mpr hi).symm.trans ((h k j).mpr hj))

variable [DecidableEq κ] [DecidableEq ι]

theorem Holders.acquire (h : Holders holder held) (hfree : holder k = none) (hi : held i = none) :
    Holders (Function.update holder k (some i)) (Function.update held i (some k)) := by
  intro l j
  by_cases hl : l = k
  · subst hl
    rw [Function.update_self]
    by_cases hj : j = i
    · subst hj
      simp
    · rw [Function.update_of_ne hj, ← h, hfree]
      simp [Ne.symm hj]
  · rw [Function.update_of_ne hl]
    by_cases hj : j = i
    · subst hj
      rw [Function.update_self, h, hi]
      simp [Ne.symm hl]
    · rw [Function.update_of_ne hj]
      exact h l j

theorem Holders.release (h : Holders holder held) (hi : held i = some k) :
    Holders (Function.update holder k none) (Function.update held i none) := by
  intro l j
  by_cases hl : l = k
  · subst hl
    rw [Function.update_self]
    by_cases hj : j = i
    · subst hj
      simp
    · rw [Function.update_of_ne hj]
      exact ⟨nofun, fun hheld => absurd (h.exclusive hheld hi) hj⟩
  · rw [Function.update_of_ne hl]
    by_cases hj : j = i
    · subst hj
      rw [Function.update_self, h, hi]
      simp [Ne.symm hl]
    · rw [Function.update_of_ne hj]
      exact h l j

omit [DecidableEq κ] in
/-- A party that stays where it is with respect to the locks. -/
theorem Holders.stay (h : Holders holder held) {l : Option κ} (hlock : l = held i) :
    Holders holder (Function.update held i l) := by
  rw [hlock, Function.update_eq_self]
  exact h

end

end MasterAI
