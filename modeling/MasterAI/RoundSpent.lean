import MasterAI.StateRoundTrip
import Mathlib.Algebra.BigOperators.Intervals
import Mathlib.Algebra.Order.BigOperators.Group.Finset

namespace MasterAI

/-- The increase of the bet that the moves of a round made, in round 0 together with the blinds. -/
def roundIncrease (g : Game) (trace : List (Transition State Action)) (r : Nat) : Int :=
  (if r = 0 then maxBlind g 0 else 0) +
    ((trace.filter fun m => m.pre.round = r).map fun m => m.post.maxSpent - m.pre.maxSpent).sum

/-- A move of the round is a raise. -/
def RaisedIn (trace : List (Transition State Action)) (r : Nat) : Prop :=
  ∃ m ∈ trace, m.pre.round = r ∧ m.event.type = .raise

/-- What `doAction` does to the bet, the round and the chips of the rounds in a no-limit hand. -/
structure RoundMove (g : Game) (s : State) (a : Action) (t : State) : Prop where
  grows : s.maxSpent ≤ t.maxSpent
  fits : s.maxSpent ≤ int32Max → t.maxSpent ≤ int32Max
  kept : a.type ≠ .raise → t.maxSpent = s.maxSpent
  round_le : s.round ≤ t.round
  round_lt : t.round < g.numRounds
  roundSpent : t.roundSpent =
    if s.round = 0 then Function.update s.roundSpent 0 t.maxSpent
    else if a.type = .raise then
      Function.update s.roundSpent s.round
        ((List.range s.round).foldl (fun v i => wrapInt32 (v - s.roundSpent i)) t.maxSpent)
    else s.roundSpent

theorem endRound_roundSpent (g : Game) (s : State) : (endRound g s).1.roundSpent = s.roundSpent := by
  unfold endRound
  split
  · rfl
  · split
    · split
      · split
        · rfl
        · rfl
      · rfl
    · rfl

theorem bet_kept {g : Game} {p : Nat} {a : Action} {s u : State} (h : bet g p a s = some u) :
    u.round = s.round ∧ u.roundSpent = s.roundSpent ∧ u.finished = s.finished := by
  rcases bet_cases h with ⟨-, rfl⟩ | ⟨-, rfl⟩ | ⟨-, -, -, -, rfl⟩ | ⟨-, -, rfl⟩
  · exact ⟨rfl, rfl, rfl⟩
  · exact ⟨rfl, rfl, rfl⟩
  · exact ⟨rfl, rfl, rfl⟩
  · exact ⟨rfl, rfl, rfl⟩

theorem RoundMove.of_move {g : Game} (wf : g.WellFormed) (hnolimit : g.bettingType = .noLimitBetting) {s t : State}
    {a : Action} (move : Move g s a t) (hround : s.round < g.numRounds) : RoundMove g s a t := by
  obtain ⟨-, -, ended, -, hdo⟩ := move
  obtain ⟨-, -, u, hu, same, hend⟩ := doAction_cases hdo
  obtain ⟨huround, huspent, -⟩ := bet_kept hu
  have hbets : s.maxSpent ≤ u.maxSpent ∧ (s.maxSpent ≤ int32Max → u.maxSpent ≤ int32Max) ∧
      (a.type ≠ .raise → u.maxSpent = s.maxSpent) := by
    rcases bet_cases hu with ⟨-, rfl⟩ | ⟨-, rfl⟩ | ⟨ht, -, hlt, hle, rfl⟩ | ⟨-, hlimit, -⟩
    · exact ⟨le_rfl, id, fun _ => rfl⟩
    · exact ⟨le_rfl, id, fun _ => rfl⟩
    · have hfits := (wf.stack_fits (currentPlayer g s)).2
      exact ⟨hlt.le, fun _ => hle.trans hfits, fun h => absurd ht h⟩
    · rw [hnolimit] at hlimit
      cases hlimit
  have hrounds : s.round ≤ t.round ∧ t.round < g.numRounds := by
    rcases hend with ⟨-, -, h, -, -⟩ | ⟨-, h, -⟩ | ⟨-, -, h, -⟩ | ⟨-, h, -⟩ | ⟨-, -, hlt, h, -, -⟩ <;> omega
  refine ⟨same.maxSpent ▸ hbets.1, same.maxSpent ▸ hbets.2.1, same.maxSpent ▸ hbets.2.2, hrounds.1, hrounds.2, ?_⟩
  unfold doAction at hdo
  dsimp only at hdo
  split at hdo
  next =>
    rw [hu, Option.map_some, Option.some.injEq] at hdo
    have ht : t = (endRound g (trackRoundSpent a u)).1 := by rw [hdo]
    rw [ht, endRound_roundSpent, ← ht, same.maxSpent, ← huround, ← huspent]
    unfold trackRoundSpent
    split_ifs <;> rfl
  next => cases hdo

theorem roundIncrease_cons (g : Game) (m : Transition State Action) (trace : List (Transition State Action)) (r : Nat) :
    roundIncrease g (m :: trace) r =
      roundIncrease g trace r + if m.pre.round = r then m.post.maxSpent - m.pre.maxSpent else 0 := by
  unfold roundIncrease
  by_cases h : m.pre.round = r
  · rw [List.filter_cons_of_pos (by simpa using h), List.map_cons, List.sum_cons, if_pos h]
    omega
  · rw [List.filter_cons_of_neg (by simpa using h), if_neg h, Int.add_zero]

theorem raisedIn_cons {m : Transition State Action} {trace : List (Transition State Action)} {r : Nat} :
    RaisedIn (m :: trace) r ↔ (m.pre.round = r ∧ m.event.type = .raise) ∨ RaisedIn trace r := by
  simp [RaisedIn]

/-- The loop that takes the earlier rounds off the bet meets no overflow. -/
theorem subtractRounds_eq {f : Nat → Int} {maxSpent : Int} (hfits : maxSpent ≤ int32Max) :
    ∀ n, (∀ i < n, 0 ≤ f i) → ∑ i ∈ Finset.range n, f i ≤ maxSpent →
      (List.range n).foldl (fun v i => wrapInt32 (v - f i)) maxSpent = maxSpent - ∑ i ∈ Finset.range n, f i
  | 0, _, _ => by simp
  | n + 1, hnonneg, hle => by
    have hlast := hnonneg n (by omega)
    rw [Finset.sum_range_succ] at hle ⊢
    rw [List.range_succ, List.foldl_append, subtractRounds_eq hfits n (fun i hi => hnonneg i (by omega)) (by omega)]
    have hsum : 0 ≤ ∑ i ∈ Finset.range n, f i := Finset.sum_nonneg fun i hi =>
      hnonneg i (by have := Finset.mem_range.mp hi; omega)
    rw [List.foldl_cons, List.foldl_nil, wrapInt32_eq (by unfold FitsInt32; unfold int32Max at *; omega)]
    omega

/-- The earlier rounds nobody raised held nothing before the hand. -/
def PastClean (prior : State) (trace : List (Transition State Action)) (s : State) : Prop :=
  ∀ r, 0 < r → r < s.round → ¬RaisedIn trace r → prior.roundSpent r = 0

/-- What a hand has put into each round, and what `roundSpent` holds of it. -/
structure RoundLedger (g : Game) (prior : State) (trace : List (Transition State Action)) (s : State) : Prop where
  round_lt : s.round < g.numRounds
  maxSpent_fits : s.maxSpent ≤ int32Max
  past : ∀ m ∈ trace, m.pre.round ≤ s.round
  started : 0 < s.round → trace ≠ []
  increase_nonneg : ∀ r, 0 ≤ roundIncrease g trace r
  total : ∑ r ∈ Finset.range g.numRounds, roundIncrease g trace r = s.maxSpent
  untouched : ∀ r, 0 < r → ¬RaisedIn trace r → s.roundSpent r = prior.roundSpent r ∧ roundIncrease g trace r = 0
  /-- A round counts right once the rounds before the current one that nobody raised held nothing. -/
  tracked : PastClean prior trace s → ∀ r,
    (r = 0 ∧ trace ≠ []) ∨ RaisedIn trace r → s.roundSpent r = roundIncrease g trace r

theorem RoundLedger.later {g : Game} {prior s : State} {trace : List (Transition State Action)}
    (h : RoundLedger g prior trace s) {r : Nat} (hr : s.round < r) : ¬RaisedIn trace r := by
  rintro ⟨m, hm, rfl, -⟩
  have := h.past m hm
  omega

/-- The bet is what the rounds up to the current one put into it. -/
theorem RoundLedger.total_upto {g : Game} {prior s : State} {trace : List (Transition State Action)}
    (h : RoundLedger g prior trace s) :
    ∑ r ∈ Finset.range s.round, roundIncrease g trace r + roundIncrease g trace s.round = s.maxSpent := by
  have hround := h.round_lt
  rw [← Finset.sum_range_succ, ← h.total]
  refine (Finset.eventually_constant_sum (fun r hr => ?_) (by omega)).symm
  exact (h.untouched r (by omega) (h.later (by omega))).2

theorem RoundLedger.init {g : Game} (wf : g.WellFormed) (handId : UInt32) (prior : State) :
    RoundLedger g prior [] (initState g handId prior) where
  round_lt := wf.rounds_pos
  maxSpent_fits := by
    rcases maxBlind_mem g 0 with h | ⟨p, -, h⟩
    · change maxBlind g 0 ≤ int32Max
      rw [h]
      decide
    · exact h.le.trans (wf.blind_fits p).2
  past := by simp
  started h := absurd h (by simp [initState])
  increase_nonneg r := by
    have := le_maxBlind g 0
    unfold roundIncrease
    split
    · simpa
    · simp
  total := by
    have hpos := wf.rounds_pos
    rw [Finset.sum_eq_single_of_mem 0 (Finset.mem_range.mpr hpos) (fun r _ hr => by simp [roundIncrease, hr])]
    simp [roundIncrease, initState]
  untouched r hr _ := ⟨rfl, by simp [roundIncrease, Nat.ne_of_gt hr]⟩
  tracked _ r h := by
    rcases h with ⟨-, h⟩ | ⟨m, hm, -⟩
    · exact absurd rfl h
    · cases hm

theorem RoundLedger.past_spent {g : Game} {prior s : State} {trace : List (Transition State Action)}
    (h : RoundLedger g prior trace s) (clean : PastClean prior trace s) {r : Nat} (hr : r < s.round) :
    s.roundSpent r = roundIncrease g trace r := by
  by_cases hraised : r = 0 ∨ RaisedIn trace r
  · exact h.tracked clean r (hraised.imp_left fun h0 => ⟨h0, h.started (by omega)⟩)
  · obtain ⟨h0, hraised⟩ := not_or.mp hraised
    obtain ⟨hspent, hincrease⟩ := h.untouched r (by omega) hraised
    rw [hspent, hincrease]
    exact clean r (by omega) hr hraised

/-- A raise after round 0 counts what it added to its round. -/
theorem RoundLedger.raise {g : Game} {prior s : State} {trace : List (Transition State Action)}
    (h : RoundLedger g prior trace s) (clean : PastClean prior trace s) {maxSpent : Int}
    (hgrows : s.maxSpent ≤ maxSpent) (hfits : maxSpent ≤ int32Max) :
    (List.range s.round).foldl (fun v i => wrapInt32 (v - s.roundSpent i)) maxSpent =
      roundIncrease g trace s.round + (maxSpent - s.maxSpent) := by
  have hspent : ∀ r ∈ Finset.range s.round, s.roundSpent r = roundIncrease g trace r :=
    fun r hr => h.past_spent clean (Finset.mem_range.mp hr)
  have htotal := h.total_upto
  have hcurrent := h.increase_nonneg s.round
  have hsum : ∑ r ∈ Finset.range s.round, s.roundSpent r = ∑ r ∈ Finset.range s.round, roundIncrease g trace r :=
    Finset.sum_congr rfl hspent
  rw [subtractRounds_eq hfits s.round (fun r hr => (hspent r (Finset.mem_range.mpr hr)).ge.trans' (h.increase_nonneg r))
    (by omega)]
  omega

theorem RoundLedger.tracked_step {g : Game} {prior s t : State} {a : Action} {trace : List (Transition State Action)}
    (h : RoundLedger g prior trace s) (hmove : RoundMove g s a t) (clean : PastClean prior trace s) {r : Nat}
    (hr : r = 0 ∨ RaisedIn (⟨s, a, t⟩ :: trace) r) :
    t.roundSpent r = roundIncrease g (⟨s, a, t⟩ :: trace) r := by
  have hgrows := hmove.grows
  have hold : ∀ {q}, s.round ≠ 0 → s.round ≠ q → (q = 0 ∨ RaisedIn (⟨s, a, t⟩ :: trace) q) →
      s.roundSpent q = roundIncrease g trace q := by
    intro q hround hne hq
    refine h.tracked clean q ?_
    rcases hq with h0 | hq
    · exact Or.inl ⟨h0, h.started (by omega)⟩
    · exact Or.inr ((raisedIn_cons.mp hq).resolve_left fun hm => hne hm.1)
  rw [roundIncrease_cons, hmove.roundSpent]
  dsimp only
  by_cases hround : s.round = 0
  · have htotal := h.total_upto
    rw [hround, Finset.range_zero, Finset.sum_empty] at htotal
    rw [if_pos hround]
    by_cases h0 : r = 0
    · rw [h0, Function.update_self, if_pos hround]
      omega
    · have hraised := (raisedIn_cons.mp (hr.resolve_left h0)).resolve_left fun hm => h0 (hm.1.symm.trans hround)
      exact absurd hraised (h.later (by omega))
  rw [if_neg hround]
  by_cases hraise : a.type = .raise
  · rw [if_pos hraise]
    by_cases hcurrent : s.round = r
    · rw [← hcurrent, Function.update_self, if_pos rfl]
      exact h.raise clean hgrows (hmove.fits h.maxSpent_fits)
    · rw [Function.update_of_ne (Ne.symm hcurrent), if_neg hcurrent, Int.add_zero]
      exact hold hround hcurrent hr
  · have hkept := hmove.kept hraise
    have hzero : (if s.round = r then t.maxSpent - s.maxSpent else 0) = 0 := by
      split <;> omega
    rw [if_neg hraise, hzero, Int.add_zero]
    refine h.tracked clean r ?_
    rcases hr with h0 | hr
    · exact Or.inl ⟨h0, h.started (by omega)⟩
    · exact Or.inr ((raisedIn_cons.mp hr).resolve_left fun hm => hraise hm.2)

theorem RoundLedger.untouched_step {g : Game} {prior s t : State} {a : Action} {trace : List (Transition State Action)}
    (h : RoundLedger g prior trace s) (hmove : RoundMove g s a t) {r : Nat} (hr : 0 < r)
    (hraised : ¬RaisedIn (⟨s, a, t⟩ :: trace) r) :
    t.roundSpent r = prior.roundSpent r ∧ roundIncrease g (⟨s, a, t⟩ :: trace) r = 0 := by
  obtain ⟨hnow, hbefore⟩ := not_or.mp (mt raisedIn_cons.mpr hraised)
  obtain ⟨hspent, hincrease⟩ := h.untouched r hr hbefore
  have hgrows := hmove.grows
  rw [roundIncrease_cons, hmove.roundSpent, hincrease, ← hspent]
  dsimp only
  by_cases hcurrent : s.round = r
  · have hraise : a.type ≠ .raise := fun ht => hnow ⟨hcurrent, ht⟩
    rw [if_neg (by omega), if_neg hraise, if_pos hcurrent, hmove.kept hraise]
    exact ⟨rfl, by omega⟩
  · rw [if_neg hcurrent]
    refine ⟨?_, rfl⟩
    split
    · exact Function.update_of_ne (by omega) _ _
    · split
      · exact Function.update_of_ne (Ne.symm hcurrent) _ _
      · rfl

theorem RoundLedger.step {g : Game} {prior s t : State} {a : Action} {trace : List (Transition State Action)}
    (h : RoundLedger g prior trace s) (hmove : RoundMove g s a t) : RoundLedger g prior (⟨s, a, t⟩ :: trace) t where
  round_lt := hmove.round_lt
  maxSpent_fits := hmove.fits h.maxSpent_fits
  past m hm := by
    rcases List.mem_cons.mp hm with rfl | hm
    · exact hmove.round_le
    · exact (h.past m hm).trans hmove.round_le
  started _ := List.cons_ne_nil _ _
  increase_nonneg r := by
    have hgrows := hmove.grows
    have hbefore := h.increase_nonneg r
    rw [roundIncrease_cons]
    dsimp only
    split <;> omega
  total := by
    simp only [roundIncrease_cons]
    rw [Finset.sum_add_distrib, h.total, Finset.sum_ite_eq, if_pos (Finset.mem_range.mpr h.round_lt)]
    omega
  untouched r hr hraised := h.untouched_step hmove hr hraised
  tracked clean r hr := by
    refine h.tracked_step hmove (fun q hq hlt hraised => ?_) (hr.imp_left And.left)
    refine clean q hq (hlt.trans_le hmove.round_le) fun hm => ?_
    rcases raisedIn_cons.mp hm with ⟨hround, -⟩ | hm
    · dsimp only at hround
      omega
    · exact hraised hm

theorem roundLedger_of_run {g : Game} (wf : g.WellFormed) (hnolimit : g.bettingType = .noLimitBetting) {handId : UInt32}
    {prior s : State} {trace : List (Transition State Action)}
    (run : StepRun (Move g) (fun s => s = initState g handId prior) trace s) : RoundLedger g prior trace s := by
  induction run with
  | start h =>
    rw [h]
    exact .init wf handId prior
  | next _ hstep ih => exact ih.step (RoundMove.of_move wf hnolimit hstep ih.round_lt)

/-- In a no-limit hand the chips of the rounds add up to the bet, each round with what it added, exactly when
the structure held no chips before the hand for the later rounds that nobody raises. -/
theorem roundSpent_iff_clean {lines : List GameLine} {g : Game} (hread : readGame lines = some g)
    (hnolimit : g.bettingType = .noLimitBetting) {handId : UInt32} {prior s : State}
    {trace : List (Transition State Action)}
    (run : StepRun (Move g) (fun s => s = initState g handId prior) trace s) (hacted : trace ≠ []) :
    (∑ r ∈ Finset.range g.numRounds, s.roundSpent r = s.maxSpent ∧
      ∀ r < g.numRounds, s.roundSpent r = roundIncrease g trace r) ↔
    ∀ r, 0 < r → r < g.numRounds → ¬RaisedIn trace r → prior.roundSpent r = 0 := by
  have h := roundLedger_of_run (readGame_wellFormed hread) hnolimit run
  constructor
  · intro hspent r hr hlt hraised
    obtain ⟨hprior, hincrease⟩ := h.untouched r hr hraised
    rw [← hprior, hspent.2 r hlt, hincrease]
  · intro hclean
    have hspent : ∀ r < g.numRounds, s.roundSpent r = roundIncrease g trace r := by
      intro r hlt
      have hround := h.round_lt
      by_cases hraised : r = 0 ∨ RaisedIn trace r
      · exact h.tracked (fun q hq hq' => hclean q hq (by omega)) r (hraised.imp_left fun h0 => ⟨h0, hacted⟩)
      · obtain ⟨h0, hraised⟩ := not_or.mp hraised
        obtain ⟨hprior, hincrease⟩ := h.untouched r (by omega) hraised
        rw [hprior, hincrease, hclean r (by omega) hlt hraised]
    exact ⟨(Finset.sum_congr rfl fun r hr => hspent r (Finset.mem_range.mp hr)).trans h.total, hspent⟩

/-- A structure that another hand used before. -/
def usedState : State := { blankState with roundSpent := fun _ => 7 }

def playUsed (actions : List Action) : List (Transition State Action) × State :=
  (play twoRoundGame actions ([], initState twoRoundGame 0 usedState)).getD ([], initState twoRoundGame 0 usedState)

theorem playUsed_run (actions : List Action) :
    StepRun (Move twoRoundGame) (fun s => s = initState twoRoundGame 0 usedState) (playUsed actions).1
      (playUsed actions).2 := by
  have start : StepRun (StrictMove twoRoundGame) (fun s => s = initState twoRoundGame 0 usedState) []
      (initState twoRoundGame 0 usedState) := .start rfl
  have run : StepRun (StrictMove twoRoundGame) (fun s => s = initState twoRoundGame 0 usedState) (playUsed actions).1
      (playUsed actions).2 := by
    unfold playUsed
    cases h : play twoRoundGame actions ([], initState twoRoundGame 0 usedState) with
    | none => exact start
    | some r => exact play_run (r := ([], _)) start h
  exact run.weaken fun _ _ _ => StrictMove.move

/-- The second round of the hand has a raise. -/
theorem roundSpent_raisedRound :
    (playUsed [⟨.call, 0⟩, ⟨.call, 0⟩, ⟨.raise, 200⟩]).2.roundSpent 1 = 100 ∧
      ∑ r ∈ Finset.range twoRoundGame.numRounds,
        (playUsed [⟨.call, 0⟩, ⟨.call, 0⟩, ⟨.raise, 200⟩]).2.roundSpent r = 200 := by
  have hmax : (playUsed [⟨.call, 0⟩, ⟨.call, 0⟩, ⟨.raise, 200⟩]).2.maxSpent = 200 := by decide +kernel
  have hspent := (@roundSpent_iff_clean twoRoundFile twoRoundGame (Option.some_get _).symm (by decide +kernel) _ _ _ _
    (playUsed_run [⟨.call, 0⟩, ⟨.call, 0⟩, ⟨.raise, 200⟩])
    (List.ne_nil_of_length_pos (by decide +kernel))).mpr ?_
  · exact ⟨by decide +kernel, hspent.1.trans hmax⟩
  · intro r hr hlt hraised
    have hrounds : twoRoundGame.numRounds = 2 := by decide +kernel
    obtain rfl : r = 1 := by omega
    have hevents : ((playUsed [⟨.call, 0⟩, ⟨.call, 0⟩, ⟨.raise, 200⟩]).1.any fun m =>
        m.pre.round = 1 && m.event.type = .raise) = true := by decide +kernel
    exact absurd (by simpa [RaisedIn] using hevents) hraised

/-- A round without a raise keeps the chips of the hand before. -/
theorem roundSpent_unraisedRound :
    ∃ g prior trace s, readGame twoRoundFile = some g ∧ g.bettingType = .noLimitBetting ∧
      StepRun (Move g) (fun s => s = initState g 0 prior) trace s ∧ trace.length = 3 ∧
      ∑ r ∈ Finset.range g.numRounds, s.roundSpent r ≠ s.maxSpent :=
  ⟨twoRoundGame, usedState, _, _, (Option.some_get _).symm, by decide +kernel,
    playUsed_run [⟨.call, 0⟩, ⟨.call, 0⟩, ⟨.call, 0⟩], by decide +kernel, by decide +kernel⟩

end MasterAI
