import MasterAI.BettingState
import MasterAI.CyclicScan

namespace MasterAI

theorem nextPlayerLoop_eq (g : Game) (s : State) (left n : Nat) :
    nextPlayerLoop g s left n = (cyclicScan g.numPlayers (canAct g s) left n).getD noPlayer := by
  induction left generalizing n with
  | zero => rfl
  | succ left ih =>
    simp only [nextPlayerLoop, cyclicScan, ih]
    split <;> rfl

/-- The seat from which `currentPlayer` looks for the next player. -/
def turnCursor (g : Game) (s : State) : Nat :=
  match (s.action s.round).getLast? with
  | some (_, p) => p
  | none => g.firstPlayer s.round + g.numPlayers - 1

theorem currentPlayer_eq (g : Game) (s : State) :
    currentPlayer g s = (cyclicScan g.numPlayers (canAct g s) (g.numPlayers + 3)
      (turnCursor g s)).getD noPlayer := by
  unfold currentPlayer turnCursor
  split <;> simp [nextPlayer, nextPlayerLoop_eq, *]

theorem cyclicScan_of_currentPlayer_lt {g : Game} {s : State} (hn : g.numPlayers ≤ maxPlayers)
    (h : currentPlayer g s < g.numPlayers) :
    cyclicScan g.numPlayers (canAct g s) (g.numPlayers + 3) (turnCursor g s) =
      some (currentPlayer g s) := by
  rw [currentPlayer_eq] at h ⊢
  cases hs : cyclicScan g.numPlayers (canAct g s) (g.numPlayers + 3) (turnCursor g s) with
  | some q => rfl
  | none =>
    rw [hs] at h
    simp only [Option.getD_none, noPlayer, maxPlayers] at h hn
    omega

theorem canAct_currentPlayer {g : Game} {s : State} (hn : g.numPlayers ≤ maxPlayers)
    (h : currentPlayer g s < g.numPlayers) : canAct g s (currentPlayer g s) := by
  have hscan := cyclicScan_of_currentPlayer_lt hn h
  obtain ⟨j, -, -, hp, -⟩ := cyclicScan_spec (b := turnCursor g s + 1) (k := 0) rfl hscan
  exact hp

theorem currentPlayer_lt_of_canAct {g : Game} {s : State} {x : Nat} (hx : x < g.numPlayers)
    (hp : canAct g s x) : currentPlayer g s < g.numPlayers := by
  rw [currentPlayer_eq]
  cases hs : cyclicScan g.numPlayers (canAct g s) (g.numPlayers + 3) (turnCursor g s) with
  | some q =>
    obtain ⟨j, -, rfl, -, -⟩ := cyclicScan_spec (b := turnCursor g s + 1) (k := 0) rfl hs
    exact seat_lt (by omega) _ _
  | none =>
    have := cyclicScan_none (by omega) hx hs
    simp [hp] at this

theorem canAct_iff {g : Game} {s : State} {p : Nat} :
    canAct g s p ↔ s.playerFolded p = false ∧ s.spent p < g.stack p := by
  simp [canAct]

/-- What a raise accepted by `raiseIsValid` may be. -/
theorem raiseIsValid_spec {g : Game} {s : State} {lo hi : Int} (h : raiseIsValid g s = some (lo, hi)) :
    numRaises s < g.maxRaises s.round ∧ s.numActions s.round + g.numPlayers ≤ maxNumActions ∧
      1 < numActingPlayers g s ∧ (g.bettingType = .noLimitBetting →
        hi = g.stack (currentPlayer g s) ∧ lo ≤ hi ∧
          (lo = s.minNoLimitRaiseTo ∨ lo = hi ∧ s.maxSpent < hi)) := by
  unfold raiseIsValid at h
  split at h
  · simp at h
  split at h
  · simp at h
  split at h
  · simp at h
  refine ⟨by omega, by omega, by omega, ?_⟩
  intro hb
  simp only [hb] at h
  split at h
  · split at h
    · simp at h
    · cases Option.some.inj h
      exact ⟨rfl, le_rfl, Or.inr ⟨rfl, by omega⟩⟩
  · cases Option.some.inj h
    exact ⟨rfl, by omega, Or.inl rfl⟩

/-- What `isValidAction` guarantees of an accepted raise. -/
theorem isValidAction_raise {g : Game} {s : State} {fixing : Bool} {given a : Action}
    (h : isValidAction g s fixing given = some a) (hr : a.type = .raise) :
    s.numActions s.round + g.numPlayers ≤ maxNumActions ∧ 1 < numActingPlayers g s ∧
      (g.bettingType = .noLimitBetting → a.size ≤ g.stack (currentPlayer g s) ∧
        (s.minNoLimitRaiseTo ≤ a.size ∨ s.maxSpent < a.size)) := by
  unfold isValidAction at h
  split at h
  · simp at h
  simp only at h
  split at h
  · split at h
    · simp at h
    next lo hi hv =>
      obtain ⟨-, hroom, hacting, hsize⟩ := raiseIsValid_spec hv
      refine ⟨hroom, hacting, ?_⟩
      intro hb
      obtain ⟨rfl, hle, hlo⟩ := hsize hb
      simp only [hb] at h
      split at h
      · split at h
        · cases Option.some.inj h; simp only at *; omega
        · simp at h
      · split at h
        · split at h
          · cases Option.some.inj h; simp only at *; omega
          · simp at h
        · cases Option.some.inj h; omega
  · split at h
    · simp at h
    · cases Option.some.inj h; simp_all
  · cases Option.some.inj h; simp_all

theorem isValidAction_unfinished {g : Game} {s : State} {fixing : Bool} {given a : Action}
    (h : isValidAction g s fixing given = some a) : s.finished = false := by
  unfold isValidAction at h
  split at h
  · simp at h
  · simp_all

/-- The results of the switch in `doAction`. -/
theorem bet_cases {g : Game} {p : Nat} {a : Action} {s u : State} (h : bet g p a s = some u) :
    (a.type = .fold ∧
      u = { s.record a p with playerFolded := Function.update s.playerFolded p true }) ∨
    (a.type = .call ∧
      u = { s.record { a with size := callSize g s p } p with
        spent := Function.update s.spent p (callSize g s p) }) ∨
    (a.type = .raise ∧ g.bettingType = .noLimitBetting ∧ s.maxSpent < a.size ∧ a.size ≤ g.stack p ∧
      u = { s.record a p with
        minNoLimitRaiseTo := max s.minNoLimitRaiseTo (wrapInt32 (a.size + a.size - s.maxSpent))
        maxSpent := a.size
        spent := Function.update s.spent p a.size }) ∨
    (a.type = .raise ∧ g.bettingType = .limitBetting ∧
      u = { s.record a p with
        maxSpent := limitRaiseTo g s p
        spent := Function.update s.spent p (limitRaiseTo g s p) }) := by
  unfold bet at h
  split at h
  next ht => cases Option.some.inj h; exact Or.inl ⟨ht, rfl⟩
  next ht => cases Option.some.inj h; exact Or.inr (Or.inl ⟨ht, rfl⟩)
  next ht =>
    split at h
    next hb =>
      split at h
      next hs =>
        have hmin : (if wrapInt32 (a.size + a.size - s.maxSpent) > s.minNoLimitRaiseTo then
            wrapInt32 (a.size + a.size - s.maxSpent) else s.minNoLimitRaiseTo) =
            max s.minNoLimitRaiseTo (wrapInt32 (a.size + a.size - s.maxSpent)) := by
          split <;> omega
        rw [hmin] at h
        exact Or.inr (Or.inr (Or.inl ⟨ht, hb, hs.1, hs.2, (Option.some.inj h).symm⟩))
      next => simp at h
    next hb => cases Option.some.inj h; exact Or.inr (Or.inr (Or.inr ⟨ht, hb, rfl⟩))
  next => simp at h

/-- Everything the end of `doAction` leaves as the switch left it. -/
structure SameBets (u t : State) : Prop where
  handId : t.handId = u.handId
  maxSpent : t.maxSpent = u.maxSpent
  spent : t.spent = u.spent
  action : t.action = u.action
  playerFolded : t.playerFolded = u.playerFolded
  boardCards : t.boardCards = u.boardCards
  holeCards : t.holeCards = u.holeCards

/-- How a betting round can stand after the switch: the bets go on, or the hand is over because
one player is left, the last round is complete, or nobody is left to bet, or a new round starts. -/
inductive RoundEnd (g : Game) (u t : State) : Prop
  | goOn : numFolded g u + 1 < g.numPlayers → numCalled g u < numActingPlayers g u →
      t.round = u.round → t.finished = u.finished → t.minNoLimitRaiseTo = u.minNoLimitRaiseTo →
      RoundEnd g u t
  | lastPlayer : g.numPlayers ≤ numFolded g u + 1 → t.round = u.round → t.finished = true →
      RoundEnd g u t
  | lastRound : numFolded g u + 1 < g.numPlayers → g.numRounds ≤ u.round + 1 → t.round = u.round →
      t.finished = true → RoundEnd g u t
  | showdown : numFolded g u + 1 < g.numPlayers → t.round = g.numRounds - 1 → t.finished = true →
      RoundEnd g u t
  | newRound : numFolded g u + 1 < g.numPlayers → 1 < numActingPlayers g u →
      u.round + 1 < g.numRounds → t.round = u.round + 1 → t.finished = u.finished →
      t.minNoLimitRaiseTo = wrapInt32 (maxBlind g 1 + u.maxSpent) → RoundEnd g u t

theorem trackRoundSpent_eq (a : Action) (s : State) :
    ∃ v, trackRoundSpent a s = { s with roundSpent := v } := by
  unfold trackRoundSpent
  split
  · exact ⟨_, rfl⟩
  · split
    · exact ⟨_, rfl⟩
    · exact ⟨s.roundSpent, rfl⟩

theorem endRound_cases {g : Game} {a : Action} {u t : State} {ended : Bool}
    (h : endRound g (trackRoundSpent a u) = (t, ended)) : SameBets u t ∧ RoundEnd g u t := by
  obtain ⟨v, hv⟩ := trackRoundSpent_eq a u
  rw [hv] at h
  have hfold : numFolded g { u with roundSpent := v } = numFolded g u := rfl
  have hact : numActingPlayers g { u with roundSpent := v } = numActingPlayers g u := rfl
  have hcall : numCalled g { u with roundSpent := v } = numCalled g u := by
    unfold numCalled
    generalize (u.action u.round).reverse = l
    induction l with
    | nil => rfl
    | cons e l ih => simp only [numCalledLoop, ih]
  unfold endRound at h
  rw [hfold, hact, hcall] at h
  split at h
  next h1 => cases h; exact ⟨⟨rfl, rfl, rfl, rfl, rfl, rfl, rfl⟩, .lastPlayer h1 rfl rfl⟩
  next h1 =>
    split at h
    next h2 =>
      split at h
      next h3 =>
        split at h
        next h4 =>
          cases h
          exact ⟨⟨rfl, rfl, rfl, rfl, rfl, rfl, rfl⟩, .newRound (by omega) h3 h4 rfl rfl rfl⟩
        next h4 =>
          cases h
          exact ⟨⟨rfl, rfl, rfl, rfl, rfl, rfl, rfl⟩, .lastRound (by omega) (not_lt.mp h4) rfl rfl⟩
      next h3 =>
        cases h
        exact ⟨⟨rfl, rfl, rfl, rfl, rfl, rfl, rfl⟩, .showdown (by omega) rfl rfl⟩
    next h2 =>
      cases h
      exact ⟨⟨rfl, rfl, rfl, rfl, rfl, rfl, rfl⟩, .goOn (by omega) (by omega) rfl rfl rfl⟩

/-- Everything a defined `doAction` can do. -/
theorem doAction_cases {g : Game} {a : Action} {s t : State} {ended : Bool}
    (h : doAction g a s = some (t, ended)) :
    currentPlayer g s < g.numPlayers ∧ s.numActions s.round < maxNumActions ∧
      ∃ u, bet g (currentPlayer g s) a s = some u ∧ SameBets u t ∧ RoundEnd g u t := by
  unfold doAction at h
  simp only at h
  split at h
  next hp =>
    obtain ⟨u, hu, h⟩ := Option.map_eq_some_iff.mp h
    exact ⟨hp.1, hp.2, u, hu, endRound_cases h⟩
  next => simp at h

end MasterAI
