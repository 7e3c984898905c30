import MasterAI.BettingRuns

namespace MasterAI

/-- No-limit games with blinds below the stacks and chips up to `2 ^ 30`. -/
structure NoLimitStakes (g : Game) : Prop where
  noLimit : g.bettingType = .noLimitBetting
  blind_nonneg : ∀ p < g.numPlayers, 0 ≤ g.blind p
  blind_lt : ∀ p < g.numPlayers, g.blind p < g.stack p
  stack_le : ∀ p < g.numPlayers, g.stack p ≤ 1073741824

/-- The bets and the turn as they stand at a reached state. -/
structure SoundBetting (g : Game) (s : State) : Prop where
  asserts : ∀ given a, isValidAction g s false given = some a → (doAction g a s).isSome
  spent_le_maxSpent : ∀ p < g.numPlayers, s.spent p ≤ s.maxSpent
  spent_le_stack : ∀ p < g.numPlayers, s.spent p ≤ g.stack p
  round_lt : s.round < g.numRounds
  minRaise : s.finished = false → s.maxSpent < s.minNoLimitRaiseTo
  turn : s.finished = false → currentPlayer g s < g.numPlayers ∧
    s.playerFolded (currentPlayer g s) = false ∧
    s.spent (currentPlayer g s) < g.stack (currentPlayer g s)

/-- The next least raise computed by a raise is a 32-bit value. -/
def RaiseFits (m : Transition State Action) : Prop :=
  m.event.type = .raise → m.event.size + m.event.size - m.pre.maxSpent ≤ int32Max

instance (m : Transition State Action) : Decidable (RaiseFits m) :=
  inferInstanceAs (Decidable (m.event.type = .raise → _))

structure NoLimitInv (g : Game) (s : State) : Prop where
  turn : TurnInv g s
  maxSpent_nonneg : 0 ≤ s.maxSpent
  maxSpent_le : s.maxSpent ≤ 1073741824
  spent_le_maxSpent : ∀ p < g.numPlayers, s.spent p ≤ s.maxSpent
  spent_le_stack : ∀ p < g.numPlayers, s.spent p ≤ g.stack p
  minRaise : s.finished = false → s.maxSpent < s.minNoLimitRaiseTo

theorem NoLimitStakes.maxBlind_lt {g : Game} (stakes : NoLimitStakes g) {least : Int} (hl : least ≤ 1) :
    maxBlind g least < 1073741824 := by
  rcases maxBlind_mem g least with h | ⟨p, hp, h⟩
  · omega
  · have := stakes.blind_lt p hp
    have := stakes.stack_le p hp
    omega

theorem NoLimitInv.init {g : Game} (wf : g.WellFormed) (stakes : NoLimitStakes g) (handId : UInt32)
    (prior : State) : NoLimitInv g (initState g handId prior) := by
  have hplayers := wf.players_ge
  have hmax := stakes.maxBlind_lt (show (0 : Int) ≤ 1 by omega)
  have hpos := le_maxBlind g 0
  refine ⟨.init wf handId prior ⟨0, by omega, stakes.blind_lt 0 (by omega)⟩, hpos, hmax.le, ?_, ?_, ?_⟩
  · intro p hp
    simpa [initState, hp] using blind_le_maxBlind hp 0
  · intro p hp
    simpa [initState, hp] using wf.blind_le_stack p hp
  · intro _
    simp only [initState, stakes.noLimit]
    split
    next h =>
      rw [wrapInt32_eq (by unfold FitsInt32 int32Max; omega)]
      omega
    next h => omega

/-- A bet of the current player keeps the bounds on the chips and the next least raise. -/
theorem NoLimitInv.bet {g : Game} (stakes : NoLimitStakes g) {s u : State} {a : Action} (h : NoLimitInv g s)
    (hp : currentPlayer g s < g.numPlayers) (hmin : s.maxSpent < s.minNoLimitRaiseTo)
    (fits : a.type = .raise → a.size + a.size - s.maxSpent ≤ int32Max)
    (hu : MasterAI.bet g (currentPlayer g s) a s = some u) :
    0 ≤ u.maxSpent ∧ u.maxSpent ≤ 1073741824 ∧ u.maxSpent < u.minNoLimitRaiseTo ∧
      (∀ p < g.numPlayers, u.spent p ≤ u.maxSpent) ∧ ∀ p < g.numPlayers, u.spent p ≤ g.stack p := by
  have hpstack := stakes.stack_le _ hp
  obtain ⟨-, hnonneg, hle, hspent, hstack, -⟩ := h
  rcases bet_cases hu with ⟨-, rfl⟩ | ⟨-, rfl⟩ | ⟨ht, -, hlt, hsz, rfl⟩ | ⟨-, hb, -⟩
  · exact ⟨hnonneg, hle, hmin, hspent, hstack⟩
  · have hcall : callSize g s (currentPlayer g s) ≤ s.maxSpent ∧
        callSize g s (currentPlayer g s) ≤ g.stack (currentPlayer g s) := by
      unfold callSize
      split <;> omega
    refine ⟨hnonneg, hle, hmin, fun p hp' => ?_, fun p hp' => ?_⟩
    · by_cases hpc : p = currentPlayer g s
      · simpa [hpc] using hcall.1
      · simpa [Function.update_of_ne hpc] using hspent p hp'
    · by_cases hpc : p = currentPlayer g s
      · simpa [hpc] using hcall.2
      · simpa [Function.update_of_ne hpc] using hstack p hp'
  · have hwrap : wrapInt32 (a.size + a.size - s.maxSpent) = a.size + a.size - s.maxSpent :=
      wrapInt32_eq ⟨by omega, fits ht⟩
    have hfit := fits ht
    refine ⟨?_, ?_, ?_, fun p hp' => ?_, fun p hp' => ?_⟩
    · simp only; omega
    · simp only; omega
    · simp only [hwrap]; omega
    · by_cases hpc : p = currentPlayer g s
      · simp [hpc]
      · have := hspent p hp'
        simp only [Function.update_of_ne hpc]
        omega
    · by_cases hpc : p = currentPlayer g s
      · simpa [hpc] using hsz
      · simpa [Function.update_of_ne hpc] using hstack p hp'
  · simp [stakes.noLimit] at hb

theorem NoLimitInv.step {g : Game} (wf : g.WellFormed) (stakes : NoLimitStakes g) {m : Transition State Action}
    (move : Move g m.pre m.event m.post) (fits : RaiseFits m) (h : NoLimitInv g m.pre) :
    NoLimitInv g m.post := by
  obtain ⟨s, a, t⟩ := m
  have hturn := h.turn.step wf move
  dsimp only at *
  obtain ⟨fixing, given, ended, hvalid, hdo⟩ := move
  have hf := isValidAction_unfinished hvalid
  obtain ⟨hp, -, u, hu, same, hend⟩ := doAction_cases hdo
  obtain ⟨hnonneg, hle, hmin, hspent, hstack⟩ := h.bet stakes hp (h.minRaise hf) fits hu
  refine ⟨hturn, by rwa [same.maxSpent], by rwa [same.maxSpent], by rwa [same.maxSpent, same.spent],
    by rwa [same.spent], ?_⟩
  intro hft
  rcases hend with ⟨-, -, -, -, hm⟩ | ⟨-, -, hfin⟩ | ⟨-, -, -, hfin⟩ | ⟨-, -, hfin⟩ | ⟨-, -, -, -, -, hm⟩
  · rwa [same.maxSpent, hm]
  · simp [hfin] at hft
  · simp [hfin] at hft
  · simp [hfin] at hft
  · have hlow := le_maxBlind g 1
    have hhigh := stakes.maxBlind_lt (show (1 : Int) ≤ 1 by omega)
    rw [same.maxSpent, hm, wrapInt32_eq (by unfold FitsInt32 int32Max; omega)]
    omega

theorem NoLimitInv.soundBetting {g : Game} {s : State} (wf : g.WellFormed) (h : NoLimitInv g s) :
    SoundBetting g s := by
  refine ⟨?_, h.spent_le_maxSpent, h.spent_le_stack, h.turn.round_lt, h.minRaise, ?_⟩
  · intro given a hvalid
    exact doAction_isSome h.turn (fun _ => h.minRaise (isValidAction_unfinished hvalid)) hvalid
  · intro hf
    have hp := h.turn.currentPlayer_lt hf
    exact ⟨hp, canAct_iff.mp (canAct_currentPlayer wf.players_le hp)⟩

/-- In a run whose raises all leave room for the next least raise, every reached state is sound. -/
theorem noLimit_run_sound {lines : List GameLine} {g : Game} (hread : readGame lines = some g)
    (stakes : NoLimitStakes g) {trace : List (Transition State Action)} {s : State}
    (run : StepRun (StrictMove g) (HandStart g) trace s) (fits : ∀ m ∈ trace, RaiseFits m) :
    SoundBetting g s := by
  have wf := readGame_wellFormed hread
  refine NoLimitInv.soundBetting wf (run.invariant fits ?_ ?_)
  · rintro s ⟨handId, prior, rfl⟩
    exact .init wf stakes handId prior
  · exact fun m move fit inv => inv.step wf stakes move.move fit

def deepFile : List GameLine :=
  oneRoundFile .nolimit [1073741824, 1073741824, 1073741824] [0, 0, 0] 1

def deepGame : Game := (readGame deepFile).get (by decide)

theorem deepGame_stakes : NoLimitStakes deepGame := by
  refine ⟨by decide, ?_, ?_, ?_⟩ <;>
    · change ∀ p < 3, _
      decide

theorem noLimit_run_sound_raises :
    ∃ trace s, StepRun (StrictMove deepGame) (HandStart deepGame) trace s ∧ trace.length = 3 ∧
      SoundBetting deepGame s := by
  let actions : List Action := [⟨.raise, 1073741823⟩, ⟨.call, 0⟩, ⟨.raise, 1073741824⟩]
  exact ⟨_, _, playFrom_run deepGame actions, by decide +kernel,
    noLimit_run_sound (Option.some_get _).symm deepGame_stakes (playFrom_run deepGame actions)
      (by decide +kernel)⟩

/-- A raise of the whole stack over an empty pot overflows the next least raise. -/
theorem noLimit_run_unsound :
    ∃ g trace s, readGame deepFile = some g ∧ NoLimitStakes g ∧
      StepRun (StrictMove g) (HandStart g) trace s ∧ s.finished = false ∧
      s.minNoLimitRaiseTo < s.maxSpent ∧
      ∃ given a, isValidAction g s false given = some a ∧ doAction g a s = none :=
  ⟨deepGame, _, _, (Option.some_get _).symm, deepGame_stakes,
    playFrom_run deepGame [⟨.raise, 1073741824⟩], by decide +kernel, by decide +kernel,
    ⟨.raise, 1⟩, ⟨.raise, 1⟩, by decide +kernel, Option.isNone_iff_eq_none.mp (by decide +kernel)⟩

end MasterAI
