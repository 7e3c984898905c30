import MasterAI.TurnOrder
import MasterAI.StepRuns

namespace MasterAI

/-- The states a hand of the game can start in, whatever the structure held before. -/
def HandStart (g : Game) (s : State) : Prop := ∃ handId prior, s = initState g handId prior

/-- The betting runs of a game. -/
abbrev BettingRun (g : Game) := StepRun (Move g) (HandStart g)

/-- One betting move without repair of the given size. -/
def StrictMove (g : Game) (s : State) (a : Action) (t : State) : Prop :=
  ∃ given ended, isValidAction g s false given = some a ∧ doAction g a s = some (t, ended)

theorem StrictMove.move {g : Game} {s t : State} {a : Action} (h : StrictMove g s a t) : Move g s a t := by
  obtain ⟨given, ended, hvalid, hdo⟩ := h
  exact ⟨false, given, ended, hvalid, hdo⟩

/-- Plays a list of actions, stopping with no result at one that is not accepted. -/
def play (g : Game) : List Action → List (Transition State Action) × State →
    Option (List (Transition State Action) × State)
  | [], r => some r
  | given :: rest, (trace, s) => do
    let a ← isValidAction g s false given
    let (t, _) ← doAction g a s
    play g rest (⟨s, a, t⟩ :: trace, t)

theorem play_run {g : Game} {actions : List Action} {start : State → Prop}
    {r r' : List (Transition State Action) × State} (run : StepRun (StrictMove g) start r.1 r.2)
    (h : play g actions r = some r') : StepRun (StrictMove g) start r'.1 r'.2 := by
  induction actions generalizing r with
  | nil =>
    cases Option.some.inj h
    exact run
  | cons given rest ih =>
    simp only [play, Option.bind_eq_bind, Option.bind_eq_some_iff] at h
    obtain ⟨a, ha, ⟨u, ended⟩, hu, h⟩ := h
    exact ih (.next run ⟨given, ended, ha, hu⟩) h

/-- The state of a structure that was cleared before its first hand. -/
def blankState : State where
  handId := 0
  maxSpent := 0
  minNoLimitRaiseTo := 0
  spent := fun _ => 0
  action := fun _ => []
  round := 0
  finished := false
  playerFolded := fun _ => false
  boardCards := fun _ => 0
  holeCards := fun p i => 2 * p + i
  roundSpent := fun _ => 0

/-- A game file with a single betting round. -/
def oneRoundFile (betting : GameLine) (chips blinds : List Int) (firstPlayer : Int) : List GameLine :=
  [betting, .numPlayers [chips.length], .numRounds [1], .stack chips, .blind blinds, .raiseSize [20],
    .firstPlayer [firstPlayer], .numSuits [4], .numRanks [13], .numHoleCards [2], .numBoardCards [0]]

/-- The run of a list of actions from the start of a hand, empty when one is not accepted. -/
def playHand (g : Game) (handId : UInt32) (prior : State) (actions : List Action) :
    List (Transition State Action) × State :=
  (play g actions ([], initState g handId prior)).getD ([], initState g handId prior)

theorem playHand_run (g : Game) (handId : UInt32) (prior : State) (actions : List Action) :
    StepRun (StrictMove g) (HandStart g) (playHand g handId prior actions).1 (playHand g handId prior actions).2 := by
  have start : StepRun (StrictMove g) (HandStart g) [] (initState g handId prior) :=
    .start ⟨handId, prior, rfl⟩
  unfold playHand
  cases h : play g actions ([], initState g handId prior) with
  | none => exact start
  | some r => exact play_run (r := ([], _)) start h

/-- The run of a list of actions from a cleared structure, empty when one is not accepted. -/
def playFrom (g : Game) (actions : List Action) : List (Transition State Action) × State :=
  (play g actions ([], initState g 0 blankState)).getD ([], initState g 0 blankState)

theorem playFrom_run (g : Game) (actions : List Action) :
    StepRun (StrictMove g) (HandStart g) (playFrom g actions).1 (playFrom g actions).2 :=
  playHand_run g 0 blankState actions

theorem update_le {n p : Nat} {f : Nat → Int} {v : Int} {bound : Nat → Int} (h : ∀ q < n, f q ≤ bound q)
    (hv : v ≤ bound p) : ∀ q < n, Function.update f p v q ≤ bound q := by
  intro q hq
  by_cases hqp : q = p
  · simpa [hqp] using hv
  · simpa [Function.update_of_ne hqp] using h q hq

theorem le_update {n p : Nat} {f : Nat → Int} {v : Int} (hv : f p ≤ v) :
    ∀ q < n, f q ≤ Function.update f p v q := by
  intro q hq
  by_cases hqp : q = p
  · simpa [hqp] using hv
  · simp [Function.update_of_ne hqp]

theorem callSize_spec {g : Game} {s : State} {p : Nat} (hmax : s.spent p ≤ s.maxSpent)
    (hstack : s.spent p ≤ g.stack p) :
    s.spent p ≤ callSize g s p ∧ callSize g s p ≤ s.maxSpent ∧ callSize g s p ≤ g.stack p := by
  unfold callSize
  split <;> omega

theorem foldl_blind (g : Game) (players : List Nat) (least : Int) :
    ∃ m, players.foldl (fun m p => if g.blind p > m then g.blind p else m) least = m ∧ least ≤ m ∧
      (∀ p ∈ players, g.blind p ≤ m) ∧ (m = least ∨ ∃ p ∈ players, m = g.blind p) := by
  induction players generalizing least with
  | nil => exact ⟨least, rfl, le_rfl, by simp, Or.inl rfl⟩
  | cons p rest ih =>
    obtain ⟨m, hm, hle, hall, hfrom⟩ := ih (if g.blind p > least then g.blind p else least)
    refine ⟨m, hm, by split at hle <;> omega, ?_, ?_⟩
    · intro q hq
      rcases List.mem_cons.mp hq with rfl | hq
      · split at hle <;> omega
      · exact hall q hq
    · rcases hfrom with rfl | ⟨q, hq, rfl⟩
      · split
        · exact Or.inr ⟨p, by simp, rfl⟩
        · exact Or.inl rfl
      · exact Or.inr ⟨q, by simp [hq], rfl⟩

theorem le_maxBlind (g : Game) (least : Int) : least ≤ maxBlind g least := by
  obtain ⟨m, hm, hle, -, -⟩ := foldl_blind g (List.range g.numPlayers) least
  rw [maxBlind, hm]
  exact hle

theorem blind_le_maxBlind {g : Game} {p : Nat} (hp : p < g.numPlayers) (least : Int) :
    g.blind p ≤ maxBlind g least := by
  obtain ⟨m, hm, -, hall, -⟩ := foldl_blind g (List.range g.numPlayers) least
  rw [maxBlind, hm]
  exact hall p (List.mem_range.mpr hp)

theorem maxBlind_mem (g : Game) (least : Int) :
    maxBlind g least = least ∨ ∃ p < g.numPlayers, maxBlind g least = g.blind p := by
  obtain ⟨m, hm, -, -, hfrom⟩ := foldl_blind g (List.range g.numPlayers) least
  rcases hfrom with rfl | ⟨p, hp, hmp⟩
  · exact Or.inl hm
  · exact Or.inr ⟨p, List.mem_range.mp hp, hm.trans hmp⟩

theorem isValidAction_type {g : Game} {s : State} {fixing : Bool} {given a : Action}
    (h : isValidAction g s fixing given = some a) : a.type = given.type ∧ a.type ≠ .invalid := by
  unfold isValidAction at h
  split at h
  next => simp at h
  next hne =>
    have hgiven : given.type ≠ .invalid := fun hi => hne (Or.inr hi)
    suffices a.type = given.type from ⟨this, this ▸ hgiven⟩
    simp only at h
    split at h
    · split at h
      · simp at h
      · split at h
        · cases Option.some.inj h; rfl
        · split at h
          · split at h
            · cases Option.some.inj h; rfl
            · simp at h
          · split at h
            · split at h
              · cases Option.some.inj h; rfl
              · simp at h
            · cases Option.some.inj h; rfl
    · split at h
      · simp at h
      · cases Option.some.inj h; rfl
    · cases Option.some.inj h; rfl

/-- An accepted action passes every assertion of `doAction` once the turn order is sound and the
least raise exceeds the current bet. -/
theorem doAction_isSome {g : Game} {s : State} {fixing : Bool} {given a : Action}
    (turn : TurnInv g s) (hmin : g.bettingType = .noLimitBetting → s.maxSpent < s.minNoLimitRaiseTo)
    (h : isValidAction g s fixing given = some a) : (doAction g a s).isSome := by
  have hf := isValidAction_unfinished h
  obtain ⟨-, hne⟩ := isValidAction_type h
  have hbet : (bet g (currentPlayer g s) a s).isSome := by
    unfold bet
    split
    next => rfl
    next => rfl
    next ht =>
      split
      next hb =>
        obtain ⟨-, -, hsize⟩ := isValidAction_raise h ht
        obtain ⟨hle, hlo⟩ := hsize hb
        have := hmin hb
        rw [if_pos ⟨by omega, hle⟩]
        rfl
      next => rfl
    next ht => exact absurd ht hne
  unfold doAction
  simp only [turn.currentPlayer_lt hf, turn.numActions_lt hf, and_self, if_true]
  simpa using hbet

end MasterAI
