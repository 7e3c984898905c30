import MasterAI.RecordedActions
import MasterAI.StateRoundTrip
import MasterAI.RobotSession

namespace MasterAI

/-- An action of the saved history, with its code and its size as the text holds them. -/
structure SavedAction where
  position : Nat
  action : Int
  size : Int
  deriving DecidableEq, Repr

structure SavedRound where
  roundId : Nat
  actions : List SavedAction
  deriving DecidableEq, Repr

def ActionType.ofCode (code : Int) : ActionType :=
  if code = 0 then .fold else if code = 1 then .call else if code = 2 then .raise else .invalid

@[simp] theorem ActionType.ofCode_code (t : ActionType) : ActionType.ofCode t.code = t := by
  cases t <;> rfl

/-- The `round_actions` of `SaveHistory`, which stops at the first round without actions. -/
def saveHistory (s : State) : List SavedRound :=
  ((List.range (s.round + 1)).takeWhile fun i => s.numActions i ≠ 0).map fun i =>
    { roundId := i, actions := (s.action i).map fun e => ⟨e.2, e.1.type.code, e.1.size⟩ }

/-- The actions of a saved history, in order. -/
def savedActions (rounds : List SavedRound) : List Action :=
  rounds.flatMap fun r => r.actions.map fun e => ⟨.ofCode e.action, e.size⟩

theorem flatMap_takeWhile_of_closed {α β : Type*} {order : α → α → Prop} {f : α → List β} {l : List α}
    (sorted : l.Pairwise order) (hclosed : ∀ x y, order x y → y ∈ l → f y ≠ [] → f x ≠ []) :
    (l.takeWhile fun x => (f x).length ≠ 0).flatMap f = l.flatMap f := by
  induction l with
  | nil => rfl
  | cons x l ih =>
    obtain ⟨hx, hl⟩ := List.pairwise_cons.mp sorted
    by_cases hempty : f x = []
    · have hrest : l.flatMap f = [] := by
        apply List.flatMap_eq_nil_iff.mpr
        intro y hy
        by_contra hne
        exact hclosed x y (hx y hy) (by simp [hy]) hne hempty
      simp [hempty, hrest]
    · have hlength : (f x).length ≠ 0 := fun h => hempty (List.length_eq_zero_iff.mp h)
      simp only [List.takeWhile_cons, hlength, ne_eq, not_false_eq_true, decide_true, if_true,
        List.flatMap_cons]
      rw [← ih hl fun y z hyz hz => hclosed y z hyz (by simp [hz])]

theorem RecordInv.savedActions_eq {g : Game} {s : State} (h : RecordInv g s) :
    savedActions (saveHistory s) = s.history.map Prod.fst := by
  have hlt := h.rounds.round_lt
  have hall : ((List.range (s.round + 1)).takeWhile fun i => s.numActions i ≠ 0).flatMap s.action =
      s.history := by
    refine flatMap_takeWhile_of_closed List.pairwise_lt_range ?_
    intro r r' hrr' hr' hne
    have := List.mem_range.mp hr'
    exact h.filled r r' (by omega) (by omega) hne
  rw [← hall, List.map_flatMap, savedActions, saveHistory, List.flatMap_map]
  apply List.flatMap_congr
  intro r _
  simp

/-- The history saved of a hand, played again from the start of the hand, leads to its betting. -/
theorem saveHistory_lossless {lines : List GameLine} {g : Game} (hgame : readGame lines = some g)
    {trace : List (Transition State Action)} {s : State} (run : BettingRun g trace s) (prior : State) :
    ∃ t, replayActions g (savedActions (saveHistory s)) (initState g s.handId prior) = some t ∧
      SameBetting g s t := by
  have inv := recorded_of_run (readGame_wellFormed hgame) run
  rw [inv.savedActions_eq]
  exact inv.replayed prior

/-- The hand that ends by an all-in before the last round is saved without its empty round. -/
theorem saveHistory_lossless_allIn :
    (allInState.state.finished = true ∧ (saveHistory allInState.state).length = 1) ∧
      ∃ t, replayActions twoRoundGame (savedActions (saveHistory allInState.state))
        (initState twoRoundGame allInState.state.handId blankState) = some t ∧
        SameBetting twoRoundGame allInState.state t := by
  have run := (playFrom_run twoRoundGame [⟨.raise, 200⟩, ⟨.call, 0⟩]).weaken fun _ _ _ => StrictMove.move
  exact ⟨⟨by decide +kernel, by decide +kernel⟩,
    @saveHistory_lossless twoRoundFile _ (Option.some_get _).symm _ _ run blankState⟩

end MasterAI
