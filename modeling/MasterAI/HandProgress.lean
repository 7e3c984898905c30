import MasterAI.BettingReplay
import MasterAI.NoLimitBounds
import Mathlib.Algebra.Order.BigOperators.Group.List
import Mathlib.Algebra.Order.Ring.Nat

namespace MasterAI

variable {g : Game} {s t u : State} {a : Action} {p : Nat} {trace : List (Transition State Action)}

/-- Every hand of a game ends: a run has no more actions than its rounds can record, and it stops only at a
finished state. -/
structure HandsEnd (g : Game) : Prop where
  bounded : ∀ trace s, BettingRun g trace s → trace.length ≤ maxNumActions * g.numRounds
  goesOn : ∀ trace s, BettingRun g trace s → s.finished = false → ∃ a t, Move g s a t

/-- Where all actions of a run are recorded. -/
structure HistoryInv (g : Game) (trace : List (Transition State Action)) (s : State) : Prop where
  rounds : RoundInv g s
  history : s.history.length = trace.length
  room : ∀ r < g.numRounds, s.numActions r ≤ maxNumActions

theorem HistoryInv.init (wf : g.WellFormed) (handId : UInt32) (prior : State) :
    HistoryInv g [] (initState g handId prior) := by
  have hempty : ∀ r < g.numRounds, (initState g handId prior).action r = [] := fun r hr => if_pos hr
  refine ⟨.init wf handId prior, ?_, fun r hr => ?_⟩
  · have hround : (initState g handId prior).round = 0 := rfl
    rw [State.history, hround, List.range_one, List.flatMap_singleton, hempty 0 wf.rounds_pos]
    rfl
  · rw [State.numActions, hempty r hr]
    exact Nat.zero_le _

theorem HistoryInv.step (h : HistoryInv g trace s) (move : Move g s a t) : HistoryInv g (⟨s, a, t⟩ :: trace) t := by
  have hrounds := h.rounds.step move
  obtain ⟨_, _, _, hvalid, hdo⟩ := move
  obtain ⟨hp, hroom, u, hu, same, hend⟩ := doAction_cases hdo
  have hrecord := bet_record hu
  obtain ⟨entry, -, hact⟩ := hrecord.action
  have hhistory := history_of_bet h.rounds (isValidAction_unfinished hvalid) hrecord hp same hend hact
  refine ⟨hrounds, ?_, fun r hr => ?_⟩
  · rw [hhistory, List.length_append, h.history]
    rfl
  · rw [State.numActions, same.action, hact]
    by_cases hrr : r = s.round
    · rw [hrr, Function.update_self, List.length_append, List.length_singleton]
      exact hroom
    · rw [Function.update_of_ne hrr]
      exact h.room r hr

theorem historyInv_of_run (wf : g.WellFormed) (run : BettingRun g trace s) : HistoryInv g trace s := by
  induction run with
  | start h =>
    obtain ⟨handId, prior, rfl⟩ := h
    exact .init wf handId prior
  | next _ move ih => exact ih.step move

/-- The rounds of a hand have room for 64 actions each. -/
theorem HistoryInv.length_le (h : HistoryInv g trace s) : trace.length ≤ maxNumActions * g.numRounds := by
  have hround := h.rounds.round_lt
  have hsum : s.history.length ≤ maxNumActions * (s.round + 1) := by
    rw [State.history, List.length_flatMap, Nat.mul_comm]
    refine (List.sum_le_card_nsmul _ maxNumActions fun n hn => ?_).trans ?_
    · obtain ⟨r, hr, rfl⟩ := List.mem_map.mp hn
      exact h.room r ((List.mem_range.mp hr).trans_le hround)
    · rw [List.length_map, List.length_range, nsmul_eq_mul, Nat.cast_id]
  rw [← h.history]
  exact hsum.trans (Nat.mul_le_mul_left _ hround)

theorem turnInv_of_run (wf : g.WellFormed) (hstart : ∃ p < g.numPlayers, g.blind p < g.stack p)
    (run : BettingRun g trace s) : TurnInv g s := by
  refine run.always ?_ fun s a t move inv => inv.step wf move
  rintro s ⟨handId, prior, rfl⟩
  exact .init wf handId prior hstart

/-- A call is always possible for the player whose turn it is. -/
theorem TurnInv.call_move (h : TurnInv g s) (hf : s.finished = false) : ∃ t, Move g s ⟨.call, 0⟩ t := by
  have hvalid : isValidAction g s false ⟨.call, 0⟩ = some ⟨.call, 0⟩ := by
    simp [isValidAction, hf]
  have hdo : ∃ r, doAction g ⟨.call, 0⟩ s = some r := by
    unfold doAction bet
    rw [if_pos ⟨h.currentPlayer_lt hf, h.numActions_lt hf⟩]
    exact ⟨_, rfl⟩
  obtain ⟨⟨t, ended⟩, hdo⟩ := hdo
  exact ⟨t, false, _, ended, hvalid, hdo⟩

/-- Nobody is there to act when a hand starts with all stacks in the blinds. -/
theorem no_move_of_blinds (wf : g.WellFormed) (hall : ∀ p < g.numPlayers, g.stack p ≤ g.blind p) (handId : UInt32)
    (prior : State) : ¬ ∃ a t, Move g (initState g handId prior) a t := by
  rintro ⟨a, t, _, _, _, -, hdo⟩
  obtain ⟨hp, -⟩ := doAction_cases hdo
  have hact := canAct_iff.mp (canAct_currentPlayer wf.players_le hp)
  have hspent : (initState g handId prior).spent (currentPlayer g (initState g handId prior)) =
      g.blind (currentPlayer g (initState g handId prior)) := if_pos hp
  rw [hspent] at hact
  have := hall _ hp
  omega

/-- Exactly the games in which some blind leaves chips behind are those whose hands all end. -/
theorem handsEnd_iff {lines : List GameLine} (hread : readGame lines = some g) :
    HandsEnd g ↔ ∃ p < g.numPlayers, g.blind p < g.stack p := by
  have wf := readGame_wellFormed hread
  constructor
  · intro h
    by_contra hnone
    have hall : ∀ p < g.numPlayers, g.stack p ≤ g.blind p := by
      intro p hp
      by_contra hlt
      exact hnone ⟨p, hp, not_le.mp hlt⟩
    have hgo := h.goesOn [] _ (.start ⟨0, blankState, rfl⟩) rfl
    exact no_move_of_blinds wf hall 0 blankState hgo
  · intro hstart
    refine ⟨fun trace s run => (historyInv_of_run wf run).length_le, fun trace s run hf => ?_⟩
    obtain ⟨t, move⟩ := (turnInv_of_run wf hstart run).call_move hf
    exact ⟨_, t, move⟩

theorem handsEnd_iff_deepGame : HandsEnd deepGame ↔ ∃ p < deepGame.numPlayers, deepGame.blind p < deepGame.stack p :=
  have hread : readGame deepFile = some deepGame := (Option.some_get _).symm
  handsEnd_iff hread

end MasterAI
