import MasterAI.BettingRuns

namespace MasterAI

/-- Two states agree on everything the betting of the game determines: all that `initState` sets for a new hand, which
`roundSpent` is not part of. -/
structure SameBetting (g : Game) (s s' : State) : Prop where
  handId : s'.handId = s.handId
  maxSpent : s'.maxSpent = s.maxSpent
  minNoLimitRaiseTo : s'.minNoLimitRaiseTo = s.minNoLimitRaiseTo
  round : s'.round = s.round
  finished : s'.finished = s.finished
  spent : ∀ p < g.numPlayers, s'.spent p = s.spent p
  playerFolded : ∀ p < g.numPlayers, s'.playerFolded p = s.playerFolded p
  action : ∀ r < g.numRounds, s'.action r = s.action r

theorem sameBetting_init (g : Game) (handId : UInt32) (prior prior' : State) :
    SameBetting g (initState g handId prior) (initState g handId prior') := by
  refine ⟨rfl, rfl, rfl, rfl, rfl, fun p hp => ?_, fun p hp => ?_, fun r hr => ?_⟩
  · simp [initState, hp]
  · simp [initState, hp]
  · simp [initState, hr]

theorem cyclicScan_congr {n : Nat} (hn : 0 < n) {p q : Nat → Bool} (h : ∀ x < n, q x = p x) (fuel c : Nat) :
    cyclicScan n q fuel c = cyclicScan n p fuel c := by
  induction fuel generalizing c with
  | zero => rfl
  | succ fuel ih => simp only [cyclicScan, h _ (Nat.mod_lt _ hn), ih]

theorem countP_range_congr {n : Nat} {p q : Nat → Bool} (h : ∀ x < n, q x = p x) :
    (List.range n).countP q = (List.range n).countP p := by
  apply List.countP_congr
  intro x hx
  rw [h x (List.mem_range.mp hx)]

section

variable {g : Game} {s s' : State} (same : SameBetting g s s') (rounds : RoundInv g s)

include same

theorem SameBetting.canAct_eq {p : Nat} (hp : p < g.numPlayers) : canAct g s' p = canAct g s p := by
  simp [canAct, same.spent p hp, same.playerFolded p hp]

theorem SameBetting.numFolded_eq : numFolded g s' = numFolded g s :=
  countP_range_congr same.playerFolded

theorem SameBetting.numActingPlayers_eq : numActingPlayers g s' = numActingPlayers g s :=
  countP_range_congr fun _ hp => same.canAct_eq hp

include rounds

theorem SameBetting.action_eq : s'.action s'.round = s.action s.round := by
  rw [same.round, same.action _ rounds.round_lt]

theorem SameBetting.currentPlayer_eq (wf : g.WellFormed) : currentPlayer g s' = currentPlayer g s := by
  have hcursor : turnCursor g s' = turnCursor g s := by
    unfold turnCursor
    rw [same.action_eq rounds, same.round]
  have hn := wf.players_ge
  rw [MasterAI.currentPlayer_eq, MasterAI.currentPlayer_eq, hcursor,
    cyclicScan_congr (by omega) fun x hx => same.canAct_eq hx]

theorem SameBetting.numActions_eq : s'.numActions s'.round = s.numActions s.round := by
  simp only [State.numActions, same.action_eq rounds]

theorem SameBetting.numCalled_eq : numCalled g s' = numCalled g s := by
  have hloop : ∀ l : List (Action × Nat), (∀ e ∈ l, e.2 < g.numPlayers) →
      numCalledLoop g s' l = numCalledLoop g s l := by
    intro l hl
    induction l with
    | nil => rfl
    | cons e l ih =>
      have hspent := same.spent e.2 (hl e (by simp))
      simp only [numCalledLoop, hspent, ih fun x hx => hl x (by simp [hx])]
  unfold numCalled
  rw [same.action_eq rounds]
  exact hloop _ fun e he => rounds.seated _ rounds.round_lt e (List.mem_reverse.mp he)

theorem SameBetting.raiseIsValid_eq (wf : g.WellFormed) : raiseIsValid g s' = raiseIsValid g s := by
  unfold raiseIsValid numRaises
  rw [same.numActions_eq rounds, same.action_eq rounds, same.round, same.numActingPlayers_eq,
    same.currentPlayer_eq rounds wf, same.minNoLimitRaiseTo, same.maxSpent]

theorem SameBetting.isValidAction_eq (wf : g.WellFormed) (hp : currentPlayer g s < g.numPlayers)
    (fixing : Bool) (a : Action) : isValidAction g s' fixing a = isValidAction g s fixing a := by
  unfold isValidAction
  simp only [same.raiseIsValid_eq rounds wf, same.currentPlayer_eq rounds wf, same.finished, same.spent _ hp]

omit rounds

theorem SameBetting.record (a : Action) (p : Nat) : SameBetting g (s.record a p) (s'.record a p) := by
  refine ⟨same.handId, same.maxSpent, same.minNoLimitRaiseTo, same.round, same.finished, same.spent,
    same.playerFolded, fun r hr => ?_⟩
  by_cases hrr : r = s.round
  · subst hrr
    simp [State.record, same.round, same.action _ hr]
  · simp [State.record, same.round, Function.update_of_ne hrr, same.action r hr]

theorem SameBetting.update_spent (p : Nat) (v m low : Int) :
    SameBetting g { s with spent := Function.update s.spent p v, maxSpent := m, minNoLimitRaiseTo := low }
      { s' with spent := Function.update s'.spent p v, maxSpent := m, minNoLimitRaiseTo := low } := by
  refine ⟨same.handId, rfl, rfl, same.round, same.finished, fun q hq => ?_, same.playerFolded, same.action⟩
  by_cases hqp : q = p
  · simp [hqp]
  · simp [Function.update_of_ne hqp, same.spent q hq]

theorem SameBetting.fold (p : Nat) :
    SameBetting g { s with playerFolded := Function.update s.playerFolded p true }
      { s' with playerFolded := Function.update s'.playerFolded p true } := by
  refine ⟨same.handId, same.maxSpent, same.minNoLimitRaiseTo, same.round, same.finished, same.spent,
    fun q hq => ?_, same.action⟩
  by_cases hqp : q = p
  · simp [hqp]
  · simp [Function.update_of_ne hqp, same.playerFolded q hq]

theorem SameBetting.bet {p : Nat} {a : Action} {u : State} (h : bet g p a s = some u) :
    ∃ u', bet g p a s' = some u' ∧ SameBetting g u u' := by
  have hcall : callSize g s' p = callSize g s p := by simp only [callSize, same.maxSpent]
  have hraise : limitRaiseTo g s' p = limitRaiseTo g s p := by
    simp only [limitRaiseTo, same.maxSpent, same.round]
  unfold MasterAI.bet at h ⊢
  split at h
  · cases Option.some.inj h
    exact ⟨_, rfl, (same.record a p).fold p⟩
  · cases Option.some.inj h
    rw [hcall]
    refine ⟨_, rfl, ?_⟩
    have := (same.record { a with size := callSize g s p } p).update_spent p (callSize g s p) s.maxSpent
      s.minNoLimitRaiseTo
    simpa only [State.record, same.maxSpent, same.minNoLimitRaiseTo] using this
  · split at h
    · split at h
      next hs =>
        cases Option.some.inj h
        rw [same.maxSpent, same.minNoLimitRaiseTo, if_pos hs]
        exact ⟨_, rfl, (same.record a p).update_spent p a.size a.size _⟩
      next => simp at h
    · cases Option.some.inj h
      rw [hraise]
      refine ⟨_, rfl, ?_⟩
      have := (same.record a p).update_spent p (limitRaiseTo g s p) (limitRaiseTo g s p) s.minNoLimitRaiseTo
      simpa only [State.record, same.minNoLimitRaiseTo] using this
  · simp at h

theorem SameBetting.roundSpent (v v' : Nat → Int) :
    SameBetting g { s with roundSpent := v } { s' with roundSpent := v' } :=
  ⟨same.handId, same.maxSpent, same.minNoLimitRaiseTo, same.round, same.finished, same.spent,
    same.playerFolded, same.action⟩

include rounds

theorem SameBetting.endRound : (endRound g s').2 = (endRound g s).2 ∧
    SameBetting g (endRound g s).1 (endRound g s').1 := by
  unfold MasterAI.endRound
  rw [same.numFolded_eq, same.numCalled_eq rounds, same.numActingPlayers_eq, same.round, same.maxSpent]
  split
  · exact ⟨rfl, same.handId, rfl, same.minNoLimitRaiseTo, rfl, rfl, same.spent, same.playerFolded, same.action⟩
  · split
    · split
      · split
        · exact ⟨rfl, same.handId, rfl, rfl, rfl, same.finished, same.spent, same.playerFolded, same.action⟩
        · exact ⟨rfl, same.handId, rfl, same.minNoLimitRaiseTo, rfl, rfl, same.spent, same.playerFolded,
            same.action⟩
      · exact ⟨rfl, same.handId, rfl, same.minNoLimitRaiseTo, rfl, rfl, same.spent, same.playerFolded,
          same.action⟩
    · exact ⟨rfl, same⟩

end

theorem trackRoundSpent_sameBetting {g : Game} {s s' : State} (same : SameBetting g s s') (a : Action) :
    SameBetting g (trackRoundSpent a s) (trackRoundSpent a s') := by
  obtain ⟨v, hv⟩ := trackRoundSpent_eq a s
  obtain ⟨v', hv'⟩ := trackRoundSpent_eq a s'
  rw [hv, hv']
  exact same.roundSpent v v'

/-- `doAction` does the same to states that agree on the betting. -/
theorem SameBetting.doAction {g : Game} {s s' t : State} {a : Action} {ended : Bool} (wf : g.WellFormed)
    (same : SameBetting g s s') (rounds : RoundInv g s) (h : doAction g a s = some (t, ended)) :
    ∃ t', doAction g a s' = some (t', ended) ∧ SameBetting g t t' := by
  obtain ⟨hp, hroom, u, hu, -⟩ := doAction_cases h
  obtain ⟨u', hu', hsame⟩ := same.bet hu
  have hrounds := rounds.bet (bet_record hu) hp
  obtain ⟨v, hv⟩ := trackRoundSpent_eq a u
  have htracked : RoundInv g (trackRoundSpent a u) := by
    rw [hv]
    exact ⟨hrounds.round_lt, hrounds.later, hrounds.seated⟩
  obtain ⟨hended, hend⟩ := (trackRoundSpent_sameBetting hsame a).endRound htracked
  unfold MasterAI.doAction at h ⊢
  rw [same.currentPlayer_eq rounds wf, same.numActions_eq rounds]
  simp only [hp, hroom, and_self, if_true, hu, hu', Option.map_some, Option.some.injEq] at h ⊢
  refine ⟨(MasterAI.endRound g (trackRoundSpent a u')).1, ?_, ?_⟩
  · rw [h] at hended
    exact Prod.ext rfl hended
  · rw [h] at hend
    exact hend

/-- The actions of a hand so far, in the order in which they were made. -/
def State.history (s : State) : List (Action × Nat) := (List.range (s.round + 1)).flatMap s.action

theorem flatMap_range_of_empty {α : Type*} {f : Nat → List α} {m n : Nat} (hmn : m ≤ n)
    (h : ∀ r, m < r → r ≤ n → f r = []) :
    (List.range (n + 1)).flatMap f = (List.range (m + 1)).flatMap f := by
  induction n, hmn using Nat.le_induction with
  | base => rfl
  | succ n hmn ih =>
    rw [List.range_succ, List.flatMap_append, ih fun r h1 h2 => h r h1 (by omega)]
    simp [h (n + 1) (by omega) le_rfl]

/-- An action is added to the end of the history, and rounds without betting add nothing. -/
theorem history_of_bet {g : Game} {s u t : State} {p : Nat} {a : Action} (rounds : RoundInv g s)
    (hf : s.finished = false) (hr : BetRecord p a s u) (hp : p < g.numPlayers) (same : SameBets u t)
    (hend : RoundEnd g u t) {entry : Action}
    (hact : u.action = Function.update s.action s.round (s.action s.round ++ [(entry, p)])) :
    t.history = s.history ++ [(entry, p)] := by
  have hu : u.history = s.history ++ [(entry, p)] := by
    unfold State.history
    rw [hr.round, List.range_succ, List.flatMap_append, List.flatMap_append, hact]
    have hearlier : (List.range s.round).flatMap (Function.update s.action s.round
        (s.action s.round ++ [(entry, p)])) = (List.range s.round).flatMap s.action := by
      apply List.flatMap_congr
      intro r hr
      have := List.mem_range.mp hr
      rw [Function.update_of_ne (by omega)]
    rw [hearlier]
    simp
  have hlater := (rounds.bet hr hp).later (hr.finished.trans hf)
  have hlt := (rounds.bet hr hp).round_lt
  have hround := ((rounds.bet hr hp).endRound same hend).round_lt
  have hge : u.round ≤ t.round := by
    rcases hend with ⟨-, -, ht, -, -⟩ | ⟨-, ht, -⟩ | ⟨-, -, ht, -⟩ | ⟨-, ht, -⟩ | ⟨-, -, -, ht, -, -⟩ <;> omega
  rw [← hu, State.history, same.action]
  exact flatMap_range_of_empty hge fun r h1 h2 => hlater r h1 (by omega)

/-- Plays actions as a reader of a betting text does. -/
def replay (g : Game) : List Action → State → Option State
  | [], s => some s
  | given :: rest, s => do
    let a ← isValidAction g s false given
    let (t, _) ← doAction g a s
    replay g rest t

theorem replay_append (g : Game) (xs ys : List Action) (s : State) :
    replay g (xs ++ ys) s = (replay g xs s).bind (replay g ys) := by
  induction xs generalizing s with
  | nil => rfl
  | cons x xs ih => simp [replay, ih, Option.bind_assoc]

/-- What the text of an action keeps of it. -/
def reread (g : Game) (a : Action) : Action :=
  if a.type = .raise ∧ g.bettingType = .noLimitBetting then a else { a with size := 0 }

theorem isValidAction_reread {g : Game} {s : State} {fixing : Bool} {given a : Action}
    (h : isValidAction g s fixing given = some a)
    (hlimit : g.bettingType = .limitBetting → a.type = .raise → a.size = 0) :
    isValidAction g s false (reread g a) = some a := by
  unfold isValidAction at h
  split at h
  next => simp at h
  next hne =>
    obtain ⟨hopen, htype⟩ := not_or.mp hne
    simp only at h
    split at h
    next ht =>
      split at h
      · simp at h
      next lo hi hv =>
        obtain ⟨-, -, -, hsize⟩ := raiseIsValid_spec hv
        cases hb : g.bettingType with
        | limitBetting =>
          simp only [hb] at h
          cases Option.some.inj h
          have hzero := hlimit hb ht
          have hself : (⟨.raise, 0⟩ : Action) = given := by rw [← hzero, ← ht]
          simp [isValidAction, reread, hopen, ht, hb, hv, hself]
        | noLimitBetting =>
          obtain ⟨rfl, hle, -⟩ := hsize hb
          have hok : a.type = .raise ∧ lo ≤ a.size ∧ a.size ≤ g.stack (currentPlayer g s) := by
            simp only [hb] at h
            split at h
            · split at h
              · cases Option.some.inj h; exact ⟨ht, le_rfl, hle⟩
              · simp at h
            · split at h
              · split at h
                · cases Option.some.inj h; exact ⟨ht, hle, le_rfl⟩
                · simp at h
              · cases Option.some.inj h; exact ⟨ht, by omega, by omega⟩
          obtain ⟨hraise, hlo, hhi⟩ := hok
          simp [isValidAction, reread, hopen, hraise, hb, hv, show ¬a.size < lo by omega,
            show ¬g.stack (currentPlayer g s) < a.size by omega]
    next ht =>
      split at h
      next => simp at h
      next hs =>
        cases Option.some.inj h
        simp [isValidAction, reread, hopen, ht, hs]
    next hnr hnf =>
      cases Option.some.inj h
      cases ht : given.type with
      | fold => exact absurd ht hnf
      | call => simp [isValidAction, reread, hopen]
      | raise => exact absurd ht hnr
      | invalid => exact absurd ht htype

/-- A fixed-limit raise is given without a size. -/
def LimitRaiseBare (g : Game) (m : Transition State Action) : Prop :=
  g.bettingType = .limitBetting → m.event.type = .raise → m.event.size = 0

/-- An action whose text can be read again. -/
def Readable (g : Game) (a : Action) : Prop :=
  a.type ≠ .invalid ∧ (g.bettingType = .noLimitBetting → a.type = .raise → FitsInt32 a.size)

/-- The history of a state, played from `start`, leads to the same betting. -/
structure ReplayInv (g : Game) (start s : State) : Prop where
  rounds : RoundInv g s
  maxSpent_nonneg : g.bettingType = .noLimitBetting → 0 ≤ s.maxSpent
  readable : ∀ e ∈ s.history, Readable g e.1
  replayed : ∃ s', replay g (s.history.map fun e => reread g e.1) start = some s' ∧ SameBetting g s s'

theorem ReplayInv.init {g : Game} (wf : g.WellFormed) (handId : UInt32) (prior prior' : State) :
    ReplayInv g (initState g handId prior') (initState g handId prior) := by
  have hempty : (initState g handId prior).history = [] := by
    simp [State.history, initState, wf.rounds_pos]
  exact ⟨.init wf handId prior, fun _ => le_maxBlind g 0, by simp [hempty],
    ⟨_, by rw [hempty]; rfl, sameBetting_init g handId prior prior'⟩⟩

/-- What a bet leaves in the record for its reader. -/
theorem bet_entry {g : Game} {p : Nat} {a : Action} {s u : State} (wf : g.WellFormed)
    (h : bet g p a s = some u) (hnonneg : g.bettingType = .noLimitBetting → 0 ≤ s.maxSpent) :
    (g.bettingType = .noLimitBetting → 0 ≤ u.maxSpent) ∧
      ∃ entry, u.action = Function.update s.action s.round (s.action s.round ++ [(entry, p)]) ∧
        Readable g entry ∧ reread g entry = reread g a := by
  rcases bet_cases h with ⟨ht, rfl⟩ | ⟨ht, rfl⟩ | ⟨ht, hb, hlt, hle, rfl⟩ | ⟨ht, hb, rfl⟩
  · exact ⟨hnonneg, a, rfl, ⟨by simp [ht], by simp [ht]⟩, rfl⟩
  · exact ⟨hnonneg, { a with size := callSize g s p }, rfl, ⟨by simp [ht], by simp [ht]⟩, by simp [reread, ht]⟩
  · have := hnonneg hb
    have := (wf.stack_fits p).2
    exact ⟨fun _ => by simp only; omega, a, rfl,
      ⟨by simp [ht], fun _ _ => ⟨by omega, by omega⟩⟩, rfl⟩
  · exact ⟨by simp [hb], a, rfl, ⟨by simp [ht], by simp [hb]⟩, rfl⟩

theorem ReplayInv.step {g : Game} (wf : g.WellFormed) {start : State} {m : Transition State Action}
    (move : Move g m.pre m.event m.post) (bare : LimitRaiseBare g m) (h : ReplayInv g start m.pre) :
    ReplayInv g start m.post := by
  obtain ⟨s, a, t⟩ := m
  have hrounds := h.rounds.step move
  obtain ⟨_, _, _, hvalid, hdo⟩ := move
  obtain ⟨hp, -, u, hu, same, hend⟩ := doAction_cases hdo
  obtain ⟨hnonneg, entry, hact, hreadable, hreread⟩ := bet_entry wf hu h.maxSpent_nonneg
  have hhistory := history_of_bet h.rounds (isValidAction_unfinished hvalid) (bet_record hu) hp same hend hact
  refine ⟨hrounds, fun hb => same.maxSpent ▸ hnonneg hb, ?_, ?_⟩
  · intro e he
    rw [hhistory] at he
    rcases List.mem_append.mp he with he | he
    · exact h.readable e he
    · rw [List.mem_singleton.mp he]
      exact hreadable
  · obtain ⟨s', hs', hsame⟩ := h.replayed
    obtain ⟨t', ht', hsame'⟩ := hsame.doAction wf h.rounds hdo
    refine ⟨t', ?_, hsame'⟩
    have hagain := isValidAction_reread hvalid bare
    rw [← hsame.isValidAction_eq h.rounds wf hp] at hagain
    rw [hhistory, List.map_append, replay_append, hs']
    simp [replay, hreread, hagain, ht']

end MasterAI
