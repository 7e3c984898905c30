import MasterAI.BettingReplay

namespace MasterAI

/-- Plays recorded actions one after another, without asking whether they are valid. -/
def replayActions (g : Game) : List Action → State → Option State
  | [], s => some s
  | a :: rest, s => (doAction g a s).bind fun (t, _) => replayActions g rest t

theorem replayActions_append (g : Game) (xs ys : List Action) (s : State) :
    replayActions g (xs ++ ys) s = (replayActions g xs s).bind (replayActions g ys) := by
  induction xs generalizing s with
  | nil => rfl
  | cons x xs ih => simp [replayActions, ih, Option.bind_assoc]

/-- The size of an action counts only for a raise. -/
def bare (a : Action) : Action := if a.type = .raise then a else { a with size := 0 }

theorem bet_bare {g : Game} {p : Nat} {a : Action} {s : State} (hfold : a.type = .fold → a.size = 0) :
    bet g p (bare a) s = bet g p a s := by
  obtain ⟨type, size⟩ := a
  cases type with
  | fold =>
    cases hfold rfl
    rfl
  | call => rfl
  | raise => rfl
  | invalid => rfl

theorem doAction_bare {g : Game} {a : Action} {s : State} (hfold : a.type = .fold → a.size = 0) :
    doAction g (bare a) s = doAction g a s := by
  have htrack : ∀ t, trackRoundSpent (bare a) t = trackRoundSpent a t := by
    intro t
    unfold trackRoundSpent bare
    by_cases ht : a.type = .raise
    · simp [ht]
    · simp [ht]
  unfold doAction
  simp only [bet_bare hfold, htrack]

theorem replayActions_bare {g : Game} {actions : List Action} {s : State}
    (hfold : ∀ a ∈ actions, a.type = .fold → a.size = 0) :
    replayActions g (actions.map bare) s = replayActions g actions s := by
  induction actions generalizing s with
  | nil => rfl
  | cons a rest ih =>
    simp only [List.map_cons, replayActions, doAction_bare (hfold a (by simp))]
    cases doAction g a s with
    | none => rfl
    | some t => exact ih fun b hb => hfold b (by simp [hb])

/-- What the record of a hand keeps: played again from the start, it leads to the same betting. -/
structure RecordInv (g : Game) (s : State) : Prop where
  rounds : RoundInv g s
  valid : ∀ e ∈ s.history, e.1.type ≠ .invalid
  foldBare : ∀ e ∈ s.history, e.1.type = .fold → e.1.size = 0
  started : s.finished = false → ∀ r < s.round, s.action r ≠ []
  filled : ∀ r r', r ≤ r' → r' < g.numRounds → s.action r' ≠ [] → s.action r ≠ []
  replayed : ∀ prior, ∃ s', replayActions g (s.history.map Prod.fst) (initState g s.handId prior) = some s' ∧
    SameBetting g s s'

theorem RecordInv.init {g : Game} (wf : g.WellFormed) (handId : UInt32) (prior : State) :
    RecordInv g (initState g handId prior) := by
  have hempty : (initState g handId prior).history = [] := by
    simp [State.history, initState, wf.rounds_pos]
  refine ⟨.init wf handId prior, by simp [hempty], by simp [hempty], fun _ r hr => ?_, ?_, fun prior' => ?_⟩
  · exact absurd hr (Nat.not_lt_zero r)
  · intro r r' _ hr' hne
    exact absurd (if_pos hr') hne
  · exact ⟨_, by rw [hempty]; rfl, sameBetting_init g handId prior prior'⟩

/-- The entry that a bet leaves in the record. -/
theorem bet_recorded {g : Game} {p : Nat} {a : Action} {s u : State} (h : bet g p a s = some u) :
    ∃ entry : Action, u.action = Function.update s.action s.round (s.action s.round ++ [(entry, p)]) ∧
      entry.type = a.type ∧ entry.type ≠ .invalid ∧ bare entry = bare a ∧
      (a.type = .fold → entry = a) ∧ u.handId = s.handId := by
  rcases bet_cases h with ⟨ht, rfl⟩ | ⟨ht, rfl⟩ | ⟨ht, hb, -, -, rfl⟩ | ⟨ht, hb, rfl⟩
  · exact ⟨a, rfl, rfl, by simp [ht], rfl, fun _ => rfl, rfl⟩
  · exact ⟨{ a with size := callSize g s p }, rfl, rfl, by simp [ht], by simp [bare, ht], by simp [ht], rfl⟩
  · exact ⟨a, rfl, rfl, by simp [ht], rfl, fun _ => rfl, rfl⟩
  · exact ⟨a, rfl, rfl, by simp [ht], rfl, fun _ => rfl, rfl⟩

theorem isValidAction_fold {g : Game} {s : State} {fixing : Bool} {given a : Action}
    (h : isValidAction g s fixing given = some a) (ht : a.type = .fold) : a.size = 0 := by
  obtain ⟨htype, -⟩ := isValidAction_type h
  rw [ht] at htype
  unfold isValidAction at h
  split at h
  · simp at h
  · simp only [← htype] at h
    split at h
    · simp at h
    · cases Option.some.inj h
      rfl

/-- The rounds before the one that is bet in stay filled, and so does that round. -/
theorem RoundEnd.filled {g : Game} {s u t : State} {entry : Action × Nat} (rounds : RoundInv g s)
    (hopen : s.finished = false) (started : ∀ r < s.round, s.action r ≠ [])
    (hact : u.action = Function.update s.action s.round (s.action s.round ++ [entry]))
    (hround : u.round = s.round) (same : SameBets u t) (hend : RoundEnd g u t) :
    (t.finished = false → ∀ r < t.round, t.action r ≠ []) ∧
      ∀ r r', r ≤ r' → r' < g.numRounds → t.action r' ≠ [] → t.action r ≠ [] := by
  have hreached : ∀ r ≤ s.round, t.action r ≠ [] := by
    intro r hr
    rw [same.action, hact]
    by_cases hrr : r = s.round
    · subst hrr
      simp
    · rw [Function.update_of_ne hrr]
      exact started r (by omega)
  constructor
  · intro hf r hr
    apply hreached
    rcases hend with ⟨-, -, ht, -, -⟩ | ⟨-, ht, -⟩ | ⟨-, -, ht, -⟩ | ⟨-, ht, hfinished⟩ | ⟨-, -, -, ht, -, -⟩
    · omega
    · omega
    · omega
    · rw [hfinished] at hf
      cases hf
    · omega
  · intro r r' hrr' hr' hne
    apply hreached
    by_contra hlate
    apply hne
    rw [same.action, hact, Function.update_of_ne (by omega)]
    exact rounds.later hopen r' (by omega) hr'

theorem RecordInv.step {g : Game} (wf : g.WellFormed) {s t : State} {a : Action} (move : Move g s a t)
    (h : RecordInv g s) : RecordInv g t := by
  have hrounds := h.rounds.step move
  obtain ⟨_, _, _, hvalid, hdo⟩ := move
  have hopen := isValidAction_unfinished hvalid
  obtain ⟨hp, -, u, hu, same, hend⟩ := doAction_cases hdo
  obtain ⟨entry, hact, htype, hne, hbare, hentry, hid⟩ := bet_recorded hu
  have hrecord := bet_record hu
  have hhistory := history_of_bet h.rounds hopen hrecord hp same hend hact
  have hfold : a.type = .fold → a.size = 0 := isValidAction_fold hvalid
  have hentryFold : entry.type = .fold → entry.size = 0 := by
    intro ht
    rw [htype] at ht
    rw [hentry ht]
    exact hfold ht
  obtain ⟨hstarted, hfilled⟩ := hend.filled h.rounds hopen (h.started hopen) hact hrecord.round same
  refine ⟨hrounds, ?_, ?_, hstarted, hfilled, fun prior => ?_⟩
  · intro e he
    rw [hhistory] at he
    rcases List.mem_append.mp he with he | he
    · exact h.valid e he
    · rw [List.mem_singleton.mp he]
      exact hne
  · intro e he
    rw [hhistory] at he
    rcases List.mem_append.mp he with he | he
    · exact h.foldBare e he
    · rw [List.mem_singleton.mp he]
      exact hentryFold
  · obtain ⟨s', hs', hsame⟩ := h.replayed prior
    obtain ⟨t', ht', hsame'⟩ := hsame.doAction wf h.rounds hdo
    refine ⟨t', ?_, hsame'⟩
    have hagain : doAction g entry s' = doAction g a s' := by
      rw [← doAction_bare hentryFold, hbare, doAction_bare hfold]
    rw [same.handId, hid, hhistory, List.map_append, replayActions_append, hs']
    simp [replayActions, hagain, ht']

theorem recorded_of_run {g : Game} (wf : g.WellFormed) {trace : List (Transition State Action)} {s : State}
    (run : BettingRun g trace s) : RecordInv g s := by
  refine run.always ?_ fun _ _ _ move => RecordInv.step wf move
  rintro _ ⟨handId, prior, rfl⟩
  exact .init wf handId prior

end MasterAI
