import MasterAI.BettingRuns

namespace MasterAI

/-- `maxSpent` is the largest of the players' bets. -/
def IsMaxSpent (g : Game) (s : State) : Prop :=
  (∀ p < g.numPlayers, s.spent p ≤ s.maxSpent) ∧ ∃ p < g.numPlayers, s.spent p = s.maxSpent

/-- A move takes no chips back. -/
def BetsGrow (g : Game) (m : Transition State Action) : Prop :=
  m.pre.maxSpent ≤ m.post.maxSpent ∧ ∀ p < g.numPlayers, m.pre.spent p ≤ m.post.spent p

/-- A raise is made by a player whose stack covers the current bet, and the new bet is a 32-bit
value. -/
def RaiseCovered (g : Game) (m : Transition State Action) : Prop :=
  m.event.type = .raise → m.pre.maxSpent ≤ g.stack (currentPlayer g m.pre) ∧
    m.pre.maxSpent + g.raiseSize m.pre.round ≤ int32Max

instance (g : Game) (m : Transition State Action) : Decidable (RaiseCovered g m) :=
  inferInstanceAs (Decidable (m.event.type = .raise → _))

structure LimitStakes (g : Game) : Prop where
  limit : g.bettingType = .limitBetting
  raiseSize_nonneg : ∀ r < g.numRounds, 0 ≤ g.raiseSize r

structure LimitInv (g : Game) (s : State) : Prop where
  rounds : RoundInv g s
  isMax : IsMaxSpent g s
  maxSpent_nonneg : 0 ≤ s.maxSpent
  spent_le_stack : ∀ p < g.numPlayers, s.spent p ≤ g.stack p

theorem isMaxSpent_init {g : Game} (handId : UInt32) (prior : State) :
    IsMaxSpent g (initState g handId prior) ↔ ∃ p < g.numPlayers, 0 ≤ g.blind p := by
  constructor
  · rintro ⟨-, p, hp, hmax⟩
    refine ⟨p, hp, ?_⟩
    simp only [initState, if_pos hp] at hmax
    have := le_maxBlind g 0
    omega
  · rintro ⟨q, hq, hblind⟩
    refine ⟨fun p hp => by simpa [initState, hp] using blind_le_maxBlind hp 0, ?_⟩
    rcases maxBlind_mem g 0 with h | ⟨p, hp, h⟩
    · have := blind_le_maxBlind hq 0
      refine ⟨q, hq, ?_⟩
      simp only [initState, if_pos hq]
      omega
    · exact ⟨p, hp, by simp [initState, hp, h]⟩

theorem LimitInv.init {g : Game} (wf : g.WellFormed) (hblind : ∃ p < g.numPlayers, 0 ≤ g.blind p)
    (handId : UInt32) (prior : State) : LimitInv g (initState g handId prior) :=
  ⟨.init wf handId prior, (isMaxSpent_init handId prior).mpr hblind, le_maxBlind g 0,
    fun p hp => by simpa [initState, hp] using wf.blind_le_stack p hp⟩

/-- Raising one player's bet to `v` between the old maximum and his stack. -/
theorem raiseTo_isMaxSpent {g : Game} {s u : State} {p : Nat} {v : Int} (h : IsMaxSpent g s)
    (hp : p < g.numPlayers) (hv : s.maxSpent ≤ v) (hspent : u.spent = Function.update s.spent p v)
    (hmax : u.maxSpent = v) : IsMaxSpent g u := by
  refine ⟨fun q hq => ?_, p, hp, by simp [hspent, hmax]⟩
  by_cases hqp : q = p
  · simp [hspent, hmax, hqp]
  · have := h.1 q hq
    simp only [hspent, hmax, Function.update_of_ne hqp]
    omega

theorem callTo_isMaxSpent {g : Game} {s u : State} {p : Nat} {v : Int} (h : IsMaxSpent g s)
    (hlo : s.spent p ≤ v) (hv : v ≤ s.maxSpent) (hspent : u.spent = Function.update s.spent p v)
    (hmax : u.maxSpent = s.maxSpent) : IsMaxSpent g u := by
  obtain ⟨hall, q, hq, hqmax⟩ := h
  refine ⟨fun x hx => ?_, q, hq, ?_⟩
  · by_cases hxp : x = p
    · simpa [hspent, hmax, hxp] using hv
    · simpa [hspent, hmax, Function.update_of_ne hxp] using hall x hx
  · by_cases hqp : q = p
    · subst hqp
      rw [hspent, hmax, Function.update_self]
      omega
    · rw [hspent, hmax, Function.update_of_ne hqp, hqmax]

theorem limitRaiseTo_spec {g : Game} {s : State} {p : Nat} (hcover : s.maxSpent ≤ g.stack p)
    (hfit : s.maxSpent + g.raiseSize s.round ≤ int32Max) (hnonneg : 0 ≤ s.maxSpent)
    (hraise : 0 ≤ g.raiseSize s.round) :
    s.maxSpent ≤ limitRaiseTo g s p ∧ limitRaiseTo g s p ≤ g.stack p := by
  unfold limitRaiseTo
  rw [wrapInt32_eq ⟨by omega, hfit⟩]
  split <;> omega

/-- A covered move keeps the invariant and takes no chips back. -/
theorem LimitInv.step {g : Game} (stakes : LimitStakes g) {m : Transition State Action}
    (move : Move g m.pre m.event m.post) (covered : RaiseCovered g m) (h : LimitInv g m.pre) :
    LimitInv g m.post ∧ BetsGrow g m := by
  obtain ⟨s, a, t⟩ := m
  have hround := h.rounds.step move
  obtain ⟨_, _, _, -, hdo⟩ := move
  obtain ⟨hp, -, u, hu, same, -⟩ := doAction_cases hdo
  suffices IsMaxSpent g u ∧ s.maxSpent ≤ u.maxSpent ∧ (∀ p < g.numPlayers, u.spent p ≤ g.stack p) ∧
      ∀ p < g.numPlayers, s.spent p ≤ u.spent p by
    obtain ⟨hmax, hle, hstack, hgrow⟩ := this
    have hnonneg := h.maxSpent_nonneg
    simp only at hnonneg
    refine ⟨⟨hround, ?_, ?_, ?_⟩, ?_, ?_⟩
    · rw [IsMaxSpent, same.spent, same.maxSpent]
      exact hmax
    · rw [same.maxSpent]
      omega
    · rwa [same.spent]
    · rwa [same.maxSpent]
    · rwa [same.spent]
  have hstack := h.spent_le_stack
  rcases bet_cases hu with ⟨-, rfl⟩ | ⟨-, rfl⟩ | ⟨-, hb, -⟩ | ⟨ht, -, rfl⟩
  · exact ⟨h.isMax, le_rfl, hstack, fun _ _ => le_rfl⟩
  · obtain ⟨hlo, hhi, hfit⟩ := callSize_spec (h.isMax.1 _ hp) (hstack _ hp)
    exact ⟨callTo_isMaxSpent h.isMax hlo hhi rfl rfl, le_rfl, update_le hstack hfit, le_update hlo⟩
  · simp [stakes.limit] at hb
  · obtain ⟨hcover, hfits⟩ := covered ht
    obtain ⟨hlo, hhi⟩ := limitRaiseTo_spec hcover hfits h.maxSpent_nonneg
      (stakes.raiseSize_nonneg _ h.rounds.round_lt)
    exact ⟨raiseTo_isMaxSpent h.isMax hp hlo rfl rfl, hlo, update_le hstack hhi,
      le_update ((h.isMax.1 _ hp).trans hlo)⟩

/-- A raise that is not covered takes chips back. -/
theorem raiseCovered_of_betsGrow {g : Game} (wf : g.WellFormed) (stakes : LimitStakes g)
    {m : Transition State Action} (move : Move g m.pre m.event m.post)
    (hround : m.pre.round < g.numRounds) (hnonneg : 0 ≤ m.pre.maxSpent)
    (hfits : m.pre.maxSpent ≤ int32Max) (grow : BetsGrow g m) : RaiseCovered g m := by
  obtain ⟨s, a, t⟩ := m
  intro ht
  obtain ⟨_, _, _, -, hdo⟩ := move
  obtain ⟨-, -, u, hu, same, -⟩ := doAction_cases hdo
  have hmax : t.maxSpent = limitRaiseTo g s (currentPlayer g s) := by
    rcases bet_cases hu with ⟨ht', -⟩ | ⟨ht', -⟩ | ⟨-, hb, -⟩ | ⟨-, -, rfl⟩
    · simp_all
    · simp_all
    · simp [stakes.limit] at hb
    · exact same.maxSpent
  have hle := grow.1
  have hsize := (wf.raiseSize_fits s.round).2
  simp only [hmax, limitRaiseTo] at *
  by_cases hover : s.maxSpent + g.raiseSize s.round ≤ int32Max
  · have hraise := stakes.raiseSize_nonneg s.round hround
    rw [wrapInt32_eq ⟨by omega, hover⟩] at hle
    refine ⟨?_, hover⟩
    split at hle <;> omega
  · have := wrapInt32_overflow (not_le.mp hover) (by unfold int32Max at *; omega)
    split at hle <;> omega

/-- Every state of the run has `maxSpent` as the largest bet, and no move takes chips back. -/
def LimitRunSound (g : Game) (trace : List (Transition State Action)) (s : State) : Prop :=
  IsMaxSpent g s ∧ ∀ m ∈ trace, IsMaxSpent g m.pre ∧ BetsGrow g m

theorem limitInv_of_run {g : Game} (wf : g.WellFormed) (stakes : LimitStakes g)
    (hblind : ∃ p < g.numPlayers, 0 ≤ g.blind p) {trace : List (Transition State Action)} {s : State}
    (run : BettingRun g trace s) (covered : ∀ m ∈ trace, RaiseCovered g m) : LimitInv g s := by
  refine run.invariant covered ?_ fun m move hc inv => (inv.step stakes move hc).1
  rintro s ⟨handId, prior, rfl⟩
  exact .init wf hblind handId prior

theorem exists_blind_of_limitRunSound {g : Game} {trace : List (Transition State Action)} {s : State}
    (run : BettingRun g trace s) (sound : LimitRunSound g trace s) : ∃ p < g.numPlayers, 0 ≤ g.blind p := by
  induction run with
  | start h =>
    obtain ⟨handId, prior, rfl⟩ := h
    exact (isMaxSpent_init handId prior).mp sound.1
  | @next trace s e t _ _ ih =>
    exact ih ⟨(sound.2 ⟨s, e, t⟩ (by simp)).1, fun m hm => sound.2 m (by simp [hm])⟩

theorem raiseCovered_of_limitRunSound {g : Game} (wf : g.WellFormed) (stakes : LimitStakes g)
    {trace : List (Transition State Action)} {s : State} (run : BettingRun g trace s)
    (sound : LimitRunSound g trace s) : ∀ m ∈ trace, RaiseCovered g m := by
  have hblind := exists_blind_of_limitRunSound run sound
  induction run with
  | start => simp
  | @next trace s e t run move ih =>
    have hearlier := ih ⟨(sound.2 ⟨s, e, t⟩ (by simp)).1, fun m hm => sound.2 m (by simp [hm])⟩
    intro m hm
    rcases List.mem_cons.mp hm with rfl | hm
    · have inv := limitInv_of_run wf stakes hblind run hearlier
      obtain ⟨p, hp, hmax⟩ := inv.isMax.2
      have := inv.spent_le_stack p hp
      have := (wf.stack_fits p).2
      exact raiseCovered_of_betsGrow wf stakes move inv.rounds.round_lt inv.maxSpent_nonneg
        (by simp only; omega) (sound.2 ⟨s, e, t⟩ (by simp)).2
    · exact hearlier m hm

/-- Exactly when a limit-betting run is sound. -/
theorem limitRunSound_iff {lines : List GameLine} {g : Game} (hread : readGame lines = some g)
    (stakes : LimitStakes g) {trace : List (Transition State Action)} {s : State}
    (run : BettingRun g trace s) :
    LimitRunSound g trace s ↔
      (∃ p < g.numPlayers, 0 ≤ g.blind p) ∧ ∀ m ∈ trace, RaiseCovered g m := by
  have wf := readGame_wellFormed hread
  constructor
  · exact fun sound => ⟨exists_blind_of_limitRunSound run sound,
      raiseCovered_of_limitRunSound wf stakes run sound⟩
  · rintro ⟨hblind, covered⟩
    refine ⟨(limitInv_of_run wf stakes hblind run covered).isMax, fun m hm => ?_⟩
    obtain ⟨newer, older, rfl⟩ := List.append_of_mem hm
    have inv := limitInv_of_run wf stakes hblind (run.split rfl) fun u hu => covered u (by simp [hu])
    exact ⟨inv.isMax, (inv.step stakes (run.step_of_mem hm) (covered m hm)).2⟩

def shortStackFile : List GameLine := oneRoundFile .limit [100, 10] [5, 5] 1

def shortStackGame : Game := (readGame shortStackFile).get (by decide)

theorem shortStackGame_stakes : LimitStakes shortStackGame :=
  ⟨by decide, by change ∀ r < 1, _; decide⟩

theorem limitRunSound_iff_raise_call :
    ∃ trace s, BettingRun shortStackGame trace s ∧ trace.length = 2 ∧
      LimitRunSound shortStackGame trace s := by
  have run := (playFrom_run shortStackGame [⟨.raise, 0⟩, ⟨.call, 0⟩]).weaken fun _ _ _ => StrictMove.move
  refine ⟨_, _, run, by decide +kernel, ?_⟩
  exact (limitRunSound_iff (Option.some_get _).symm shortStackGame_stakes run).mpr
    ⟨⟨0, by decide, by decide⟩, by decide +kernel⟩

/-- A raise by the player with ten chips brings the bet of twenty-five down to ten. -/
theorem limitRun_short_raise :
    ∃ g s t, readGame shortStackFile = some g ∧ LimitStakes g ∧ ∃ trace,
      BettingRun g (⟨s, ⟨.raise, 0⟩, t⟩ :: trace) t ∧ s.maxSpent = 25 ∧ t.maxSpent = 10 ∧
      s.spent 0 = 25 ∧ t.spent 0 = 25 := by
  have run := (playFrom_run shortStackGame [⟨.raise, 0⟩, ⟨.raise, 0⟩]).weaken fun _ _ _ => StrictMove.move
  exact ⟨shortStackGame, _, _, (Option.some_get _).symm, shortStackGame_stakes, _, run, by decide +kernel,
    by decide +kernel, by decide +kernel, by decide +kernel⟩

end MasterAI
