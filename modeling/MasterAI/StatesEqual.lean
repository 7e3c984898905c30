import MasterAI.HandProgress
import MasterAI.StateRoundTrip

namespace MasterAI

def statesEqual (g : Game) (a b : State) : Bool :=
  statesEqualCommon g a b &&
    (List.range g.numPlayers).all fun p =>
      (List.range g.numHoleCards).all fun i => a.holeCards p i = b.holeCards p i

/-- What two states of a game have in common where they stand for the same moment of a hand: the bets, who acts next,
and the cards on the board so far and in all hands. `roundSpent` is left out, since a new hand starts with what the hand
before it left there. -/
structure SameState (g : Game) (a b : State) : Prop where
  betting : SameBetting g a b
  turn : currentPlayer g b = currentPlayer g a
  boardCards : ∀ i < sumBoardCards g a.round, a.boardCards i = b.boardCards i
  holeCards : ∀ p < g.numPlayers, ∀ i < g.numHoleCards, a.holeCards p i = b.holeCards p i

/-- What `doAction` records of an accepted action. -/
def recorded (g : Game) (s : State) (a : Action) : Action :=
  if a.type = .call then { a with size := callSize g s (currentPlayer g s) } else a

variable {g : Game} {s s' t t' : State} {a a' given : Action} {fixing : Bool} {trace trace' : List (Transition State Action)}

theorem isValidAction_size (h : isValidAction g s fixing given = some a) (ht : a.type ≠ .raise) : a.size = 0 := by
  obtain ⟨htype, -⟩ := isValidAction_type h
  unfold isValidAction at h
  split at h
  next => simp at h
  next =>
    simp only at h
    split at h
    next hraise => exact absurd (htype.trans hraise) ht
    next =>
      split at h
      · simp at h
      · cases Option.some.inj h
        rfl
    next =>
      cases Option.some.inj h
      rfl

/-- An accepted action can be told from its record. -/
theorem recorded_inj (ha : isValidAction g s fixing given = some a) {fixing' : Bool} {given' : Action}
    (ha' : isValidAction g s' fixing' given' = some a') (h : recorded g s a = recorded g s' a') : a = a' := by
  have htype : a.type = a'.type := by
    have hkept : ∀ (s : State) (a : Action), (recorded g s a).type = a.type := by
      intro s a
      unfold recorded
      split <;> rfl
    rw [← hkept s a, h, hkept]
  by_cases hcall : a.type = .call
  · have hsize := isValidAction_size ha (by simp [hcall])
    have hsize' := isValidAction_size ha' (by simp [← htype, hcall])
    cases a
    cases a'
    simp_all
  · unfold recorded at h
    rwa [if_neg hcall, if_neg (htype ▸ hcall)] at h

/-- A move adds its record and the player whose turn it was to the history. -/
theorem history_of_move (rounds : RoundInv g s) (hvalid : isValidAction g s fixing given = some a) {ended : Bool}
    (hdo : doAction g a s = some (t, ended)) : t.history = s.history ++ [(recorded g s a, currentPlayer g s)] := by
  obtain ⟨hp, -, u, hu, same, hend⟩ := doAction_cases hdo
  have hact : u.action = Function.update s.action s.round
      (s.action s.round ++ [(recorded g s a, currentPlayer g s)]) := by
    unfold recorded
    rcases bet_cases hu with ⟨ht, rfl⟩ | ⟨ht, rfl⟩ | ⟨ht, -, -, -, rfl⟩ | ⟨ht, -, rfl⟩
    · rw [if_neg (by simp [ht])]
      rfl
    · rw [if_pos ht]
      rfl
    · rw [if_neg (by simp [ht])]
      rfl
    · rw [if_neg (by simp [ht])]
      rfl
  exact history_of_bet rounds (isValidAction_unfinished hvalid) (bet_record hu) hp same hend hact

/-- Runs of one hand with the same recorded actions reach the same betting. -/
theorem sameBetting_of_history (wf : g.WellFormed) (run : BettingRun g trace s) (run' : BettingRun g trace' s')
    (hhand : s.handId = s'.handId) (h : s.history.map Prod.fst = s'.history.map Prod.fst) : SameBetting g s s' := by
  have hlen := (historyInv_of_run wf run).history
  have hlen' := (historyInv_of_run wf run').history
  have hsame : trace.length = trace'.length := by
    rw [← hlen, ← hlen', ← List.length_map Prod.fst, h, List.length_map]
  induction run generalizing trace' s' with
  | start hstart =>
    cases run' with
    | start hstart' =>
      obtain ⟨handId, prior, rfl⟩ := hstart
      obtain ⟨handId', prior', rfl⟩ := hstart'
      have hids : handId = handId' := hhand
      rw [hids]
      exact sameBetting_init g handId' prior prior'
    | next _ _ => simp at hsame
  | @next trace u a t run move ih =>
    cases run' with
    | start _ => simp at hsame
    | @next trace' u' a' t' run' move' =>
      have rounds := (historyInv_of_run wf run).rounds
      have hids := hhand
      rw [move.handId_eq, move'.handId_eq] at hids
      obtain ⟨fixing, given, ended, hvalid, hdo⟩ := move
      obtain ⟨fixing', given', ended', hvalid', hdo'⟩ := move'
      rw [history_of_move rounds hvalid hdo, history_of_move (historyInv_of_run wf run').rounds hvalid' hdo',
        List.map_append, List.map_append] at h
      obtain ⟨hbefore, hlast⟩ := List.append_inj' h rfl
      have hequal : a = a' := recorded_inj hvalid hvalid' (List.cons.inj hlast).1
      have hreached := ih run' hids hbefore (historyInv_of_run wf run).history (historyInv_of_run wf run').history
        (by simpa using hsame)
      obtain ⟨v, hv, hbetting⟩ := hreached.doAction wf rounds hdo
      rw [hequal, hdo', Option.some.injEq, Prod.mk.injEq] at hv
      rw [hv.1]
      exact hbetting

/-- `statesEqual` compares the actions and the cards only, and this is enough: for states that a hand can reach it
tells exactly whether the bets and the player to act are the same, too. It does not tell whether `roundSpent` is. -/
theorem statesEqual_iff {lines : List GameLine} (hread : readGame lines = some g) {a b : State}
    (run : BettingRun g trace a) (run' : BettingRun g trace' b) : statesEqual g a b = true ↔ SameState g a b := by
  have wf := readGame_wellFormed hread
  have rounds := (historyInv_of_run wf run).rounds
  simp only [statesEqual, statesEqualCommon, Bool.and_eq_true, List.all_eq_true, List.mem_range, decide_eq_true_eq]
  constructor
  · rintro ⟨⟨⟨⟨hhand, hround⟩, hactions⟩, hboard⟩, hheld⟩
    have hhistory : a.history.map Prod.fst = b.history.map Prod.fst := by
      unfold State.history
      rw [List.map_flatMap, List.map_flatMap, ← hround]
      exact List.flatMap_congr fun r hr => hactions r (List.mem_range.mp hr)
    have hbetting := sameBetting_of_history wf run run' hhand hhistory
    exact ⟨hbetting, hbetting.currentPlayer_eq rounds wf, hboard, hheld⟩
  · intro h
    refine ⟨⟨⟨⟨h.betting.handId.symm, h.betting.round.symm⟩, fun r hr => ?_⟩, h.boardCards⟩, h.holeCards⟩
    have hlt := rounds.round_lt
    rw [h.betting.action r (by omega)]

/-- The hand of `allInState` once more, in a structure where the hand before it left seven chips everywhere. -/
def allInAgain : State :=
  (playHand twoRoundGame 0 { blankState with roundSpent := fun _ => 7 } [⟨.raise, 200⟩, ⟨.call, 0⟩]).2

theorem statesEqual_iff_allIn :
    (statesEqual twoRoundGame allInState.state allInAgain = true ↔ SameState twoRoundGame allInState.state allInAgain) ∧
      SameState twoRoundGame allInState.state allInAgain ∧ allInState.state.roundSpent ≠ allInAgain.roundSpent := by
  have run := (playFrom_run twoRoundGame [⟨.raise, 200⟩, ⟨.call, 0⟩]).weaken fun _ _ _ => StrictMove.move
  have run' := (playHand_run twoRoundGame 0 { blankState with roundSpent := fun _ => 7 }
    [⟨.raise, 200⟩, ⟨.call, 0⟩]).weaken fun _ _ _ => StrictMove.move
  have hread : readGame twoRoundFile = some twoRoundGame := (Option.some_get _).symm
  have hiff := statesEqual_iff hread run run'
  refine ⟨hiff, hiff.mp (by decide +kernel), fun h => ?_⟩
  have hfirst : allInState.state.roundSpent 5 ≠ allInAgain.roundSpent 5 := by decide +kernel
  exact hfirst (congrFun h 5)

end MasterAI
