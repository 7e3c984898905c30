import MasterAI.BettingMoves
import Mathlib.Data.List.Perm.Subperm

namespace MasterAI

/-- An action that counts as a call of the current bet by a player who can still act. -/
def countsAsCall (g : Game) (s : State) (e : Action × Nat) : Bool :=
  decide (e.1.type ≠ .fold) && decide (s.spent e.2 < g.stack e.2)

/-- The actions of a round split at the last raise. `cycle` holds the actions since that raise,
made on the seats `b, b + 1, …` up to `k`, by different players, with nobody left out who can act. -/
structure TurnCycle (g : Game) (s : State) (earlier cycle : List (Action × Nat)) (b k : Nat) :
    Prop where
  split : s.action s.round = earlier ++ cycle
  room : earlier.length + g.numPlayers ≤ maxNumActions
  quiet : ∀ e ∈ cycle.tail, e.1.type ≠ .raise
  valid : ∀ e ∈ cycle, e.1.type ≠ .invalid
  folded : ∀ e ∈ cycle, e.1.type = .fold → s.playerFolded e.2 = true
  seated : ∀ e ∈ cycle, ∃ i < k, e.2 = seat g.numPlayers b i
  nodup : (cycle.map Prod.snd).Nodup
  covered : ∀ i < k, canAct g s (seat g.numPlayers b i) →
    seat g.numPlayers b i ∈ cycle.map Prod.snd
  bound : k ≤ g.numPlayers
  cursor : (turnCursor g s + 1) % g.numPlayers = seat g.numPlayers b k

theorem numCalledLoop_quiet {g : Game} {s : State} {l rest : List (Action × Nat)}
    (quiet : ∀ e ∈ l, e.1.type ≠ .raise) (valid : ∀ e ∈ l, e.1.type ≠ .invalid) :
    numCalledLoop g s (l ++ rest) = l.countP (countsAsCall g s) + numCalledLoop g s rest := by
  induction l with
  | nil => simp
  | cons e l ih =>
    obtain ⟨⟨type, size⟩, p⟩ := e
    have hih := ih (fun x hx => quiet x (by simp [hx])) (fun x hx => valid x (by simp [hx]))
    have hq := quiet (⟨type, size⟩, p) (by simp)
    have hv := valid (⟨type, size⟩, p) (by simp)
    rw [List.cons_append, List.countP_cons]
    cases type with
    | fold => simp [numCalledLoop, countsAsCall, hih]
    | call =>
      by_cases hs : s.spent p < g.stack p
      · simp [numCalledLoop, countsAsCall, hih, hs]; omega
      · simp [numCalledLoop, countsAsCall, hih, hs]
    | raise => simp at hq
    | invalid => simp at hv

theorem le_numCalledLoop_head {g : Game} {s : State} {e : Action × Nat} {rest : List (Action × Nat)}
    (valid : e.1.type ≠ .invalid) :
    (if countsAsCall g s e then 1 else 0) ≤ numCalledLoop g s (e :: rest) := by
  obtain ⟨⟨type, size⟩, p⟩ := e
  by_cases hs : s.spent p < g.stack p
  · cases type <;> simp_all [numCalledLoop, countsAsCall]
  · simp [countsAsCall, hs]

theorem TurnCycle.le_numCalled {g : Game} {s : State} {earlier cycle : List (Action × Nat)}
    {b k : Nat} (h : TurnCycle g s earlier cycle b k) :
    cycle.countP (countsAsCall g s) ≤ numCalled g s := by
  unfold numCalled
  rw [h.split, List.reverse_append]
  have hquiet := h.quiet
  have hvalid := h.valid
  cases cycle with
  | nil => simp
  | cons e rest =>
    rw [List.reverse_cons, List.append_assoc, numCalledLoop_quiet, List.countP_reverse,
      List.countP_cons]
    · have := @le_numCalledLoop_head g s e earlier.reverse (hvalid e (by simp))
      simp only [List.singleton_append]
      omega
    · exact fun x hx => hquiet x (List.mem_reverse.mp hx)
    · exact fun x hx => hvalid x (List.mem_cons_of_mem e (List.mem_reverse.mp hx))

/-- While the bet is not called by everyone who can act, one of them has not acted since the
last raise. -/
theorem TurnCycle.exists_waiting {g : Game} {s : State} {earlier cycle : List (Action × Nat)}
    {b k : Nat} (h : TurnCycle g s earlier cycle b k)
    (hopen : numCalled g s < numActingPlayers g s) :
    ∃ x < g.numPlayers, canAct g s x ∧ x ∉ cycle.map Prod.snd := by
  by_contra hall
  push Not at hall
  have hsub : (List.range g.numPlayers).filter (canAct g s) ⊆
      (cycle.filter (countsAsCall g s)).map Prod.snd := by
    intro x hx
    obtain ⟨hx, hact⟩ := List.mem_filter.mp hx
    obtain ⟨e, he, rfl⟩ := List.mem_map.mp (hall x (List.mem_range.mp hx) hact)
    obtain ⟨hf, hs⟩ := canAct_iff.mp hact
    refine List.mem_map.mpr ⟨e, List.mem_filter.mpr ⟨he, ?_⟩, rfl⟩
    have hne : e.1.type ≠ .fold := fun ht => by simp [h.folded e he ht] at hf
    simp [countsAsCall, hne, hs]
  have hle := ((List.nodup_range.filter _).subperm hsub).length_le
  have hcalled := h.le_numCalled
  rw [List.length_map, ← List.countP_eq_length_filter, ← List.countP_eq_length_filter] at hle
  unfold numActingPlayers at hopen
  omega

theorem TurnCycle.length_lt {g : Game} {s : State} {earlier cycle : List (Action × Nat)}
    {b k x : Nat} (h : TurnCycle g s earlier cycle b k) (hx : x < g.numPlayers)
    (hw : x ∉ cycle.map Prod.snd) : s.numActions s.round < maxNumActions := by
  have hsub : x :: cycle.map Prod.snd ⊆ List.range g.numPlayers := by
    intro y hy
    rcases List.mem_cons.mp hy with rfl | hy
    · simpa using hx
    · obtain ⟨e, he, rfl⟩ := List.mem_map.mp hy
      obtain ⟨i, -, hi⟩ := h.seated e he
      simpa [hi] using seat_lt (by omega) b i
  have hle := ((List.nodup_cons.mpr ⟨hw, h.nodup⟩).subperm hsub).length_le
  have hroom := h.room
  simp only [List.length_cons, List.length_map, List.length_range] at hle
  simp only [State.numActions, h.split, List.length_append]
  omega

/-- The player to act sits beyond the seats covered so far, and everyone skipped cannot act. -/
theorem TurnCycle.next_seat {g : Game} {s : State} {earlier cycle : List (Action × Nat)}
    {b k x : Nat} (wf : g.WellFormed) (h : TurnCycle g s earlier cycle b k)
    (hx : x < g.numPlayers) (hact : canAct g s x) (hw : x ∉ cycle.map Prod.snd) :
    ∃ j, k + j < g.numPlayers ∧ currentPlayer g s = seat g.numPlayers b (k + j) ∧
      ∀ i < j, canAct g s (seat g.numPlayers b (k + i)) = false := by
  have hcur := currentPlayer_lt_of_canAct hx hact
  have hscan := cyclicScan_of_currentPlayer_lt wf.players_le hcur
  obtain ⟨j, -, hq, -, hskip⟩ := cyclicScan_spec h.cursor hscan
  refine ⟨j, ?_, hq, hskip⟩
  obtain ⟨i, hi, rfl⟩ := exists_seat (b := b) hx
  have hki : k ≤ i := by
    by_contra hlt
    exact hw (h.covered i (by omega) hact)
  by_contra hfar
  have := hskip (i - k) (by omega)
  rw [show k + (i - k) = i by omega] at this
  simp [hact] at this

/-- What any bet of player `p` does to the record of the round and to the other players. -/
structure BetRecord (p : Nat) (a : Action) (s u : State) : Prop where
  action : ∃ entry, entry.type = a.type ∧
    u.action = Function.update s.action s.round (s.action s.round ++ [(entry, p)])
  round : u.round = s.round
  finished : u.finished = s.finished
  spent : ∀ x, x ≠ p → u.spent x = s.spent x
  others : ∀ x, x ≠ p → u.playerFolded x = s.playerFolded x
  folded : ∀ x, s.playerFolded x = true → u.playerFolded x = true
  fold : a.type = .fold → u.playerFolded p = true
  valid : a.type ≠ .invalid

theorem bet_record {g : Game} {p : Nat} {a : Action} {s u : State} (h : bet g p a s = some u) :
    BetRecord p a s u := by
  rcases bet_cases h with ⟨ht, rfl⟩ | ⟨ht, rfl⟩ | ⟨ht, -, -, -, rfl⟩ | ⟨ht, -, rfl⟩
  · refine ⟨⟨a, rfl, rfl⟩, rfl, rfl, fun _ _ => rfl, ?_, ?_, ?_, by simp [ht]⟩
    · intro x hx
      simp [Function.update_of_ne hx]
    · intro x hx
      by_cases hxp : x = p
      · simp [hxp]
      · simpa [Function.update_of_ne hxp] using hx
    · simp
  · refine ⟨⟨{ a with size := callSize g s p }, rfl, rfl⟩, rfl, rfl, ?_, fun _ _ => rfl, fun _ hx => hx,
      by simp [ht], by simp [ht]⟩
    exact fun x hx => Function.update_of_ne hx _ _
  · refine ⟨⟨a, rfl, rfl⟩, rfl, rfl, ?_, fun _ _ => rfl, fun _ hx => hx, by simp [ht], by simp [ht]⟩
    exact fun x hx => Function.update_of_ne hx _ _
  · refine ⟨⟨a, rfl, rfl⟩, rfl, rfl, ?_, fun _ _ => rfl, fun _ hx => hx, by simp [ht], by simp [ht]⟩
    exact fun x hx => Function.update_of_ne hx _ _

theorem BetRecord.action_round {p : Nat} {a : Action} {s u : State} (h : BetRecord p a s u) :
    ∃ entry, entry.type = a.type ∧ u.action u.round = s.action s.round ++ [(entry, p)] := by
  obtain ⟨entry, ht, hu⟩ := h.action
  exact ⟨entry, ht, by rw [hu, h.round, Function.update_self]⟩

theorem BetRecord.turnCursor_eq {p : Nat} {a : Action} {s u : State} (h : BetRecord p a s u) (g : Game) :
    turnCursor g u = p := by
  obtain ⟨entry, -, hu⟩ := h.action_round
  simp [turnCursor, hu]

theorem BetRecord.canAct_of_ne {p x : Nat} {a : Action} {s u : State} {g : Game}
    (h : BetRecord p a s u) (hx : x ≠ p) : canAct g u x = canAct g s x := by
  simp [canAct, h.spent x hx, h.others x hx]

/-- A raise starts a new cycle at its player. -/
theorem TurnCycle.raise {g : Game} {s u : State} {p : Nat} {a : Action} (wf : g.WellFormed)
    (h : BetRecord p a s u) (hp : p < g.numPlayers)
    (hroom : s.numActions s.round + g.numPlayers ≤ maxNumActions) (ht : a.type = .raise) :
    ∃ entry, TurnCycle g u (s.action s.round) [(entry, p)] p 1 := by
  obtain ⟨entry, hentry, hu⟩ := h.action_round
  have hseat : seat g.numPlayers p 0 = p := Nat.mod_eq_of_lt hp
  refine ⟨entry, hu, hroom, by simp, ?_, ?_, ?_, by simp, ?_, by have := wf.players_ge; omega, ?_⟩
  · simp [hentry, ht]
  · simp [hentry, ht]
  · exact fun e he => ⟨0, by omega, by rw [List.mem_singleton.mp he, hseat]⟩
  · intro i hi _
    obtain rfl : i = 0 := by omega
    simp [hseat]
  · rw [h.turnCursor_eq g]
    rfl

/-- A fold or a call extends the cycle by the next seat that can act. -/
theorem TurnCycle.extend {g : Game} {s u : State} {earlier cycle : List (Action × Nat)}
    {b k j p : Nat} {a : Action} (h : TurnCycle g s earlier cycle b k) (hr : BetRecord p a s u)
    (hj : k + j < g.numPlayers) (hp : p = seat g.numPlayers b (k + j))
    (hskip : ∀ i < j, canAct g s (seat g.numPlayers b (k + i)) = false) (ht : a.type ≠ .raise) :
    ∃ entry, TurnCycle g u earlier (cycle ++ [(entry, p)]) b (k + j + 1) := by
  obtain ⟨entry, hentry, hu⟩ := hr.action_round
  refine ⟨entry, by rw [hu, h.split, List.append_assoc], h.room, ?_, ?_, ?_, ?_, ?_, ?_, by omega, ?_⟩
  · cases cycle with
    | nil => simp
    | cons c rest =>
      intro e he
      rcases List.mem_append.mp he with he | he
      · exact h.quiet e he
      · rw [List.mem_singleton.mp he, hentry]
        exact ht
  · intro e he
    rcases List.mem_append.mp he with he | he
    · exact h.valid e he
    · rw [List.mem_singleton.mp he, hentry]
      exact hr.valid
  · intro e he hf
    rcases List.mem_append.mp he with he | he
    · exact hr.folded _ (h.folded e he hf)
    · rw [List.mem_singleton.mp he] at hf ⊢
      exact hr.fold (hentry ▸ hf)
  · intro e he
    rcases List.mem_append.mp he with he | he
    · obtain ⟨i, hi, hs⟩ := h.seated e he
      exact ⟨i, by omega, hs⟩
    · exact ⟨k + j, by omega, by rw [List.mem_singleton.mp he, hp]⟩
  · rw [List.map_append, List.nodup_append]
    refine ⟨h.nodup, by simp, ?_⟩
    rintro x hx y hy rfl
    obtain ⟨e, he, rfl⟩ := List.mem_map.mp hx
    obtain ⟨i, hi, hs⟩ := h.seated e he
    have hpe : e.2 = p := by simpa using hy
    have := seat_inj (by omega) hj (hs.symm.trans (hpe.trans hp))
    omega
  · intro i hi hact
    by_cases hip : seat g.numPlayers b i = p
    · simp [hip]
    · rw [hr.canAct_of_ne hip] at hact
      have hik : i < k := by
        by_contra hge
        rcases Nat.lt_or_eq_of_le (show i ≤ k + j by omega) with hlt | rfl
        · have := hskip (i - k) (by omega)
          rw [show k + (i - k) = i by omega, hact] at this
          simp at this
        · exact hip hp.symm
      rw [List.map_append]
      exact List.mem_append_left _ (h.covered i hik hact)
  · rw [hr.turnCursor_eq g, hp]
    exact seat_seat g.numPlayers b (k + j) 1

/-- Someone who can act has not acted since the last raise. -/
def TurnWaiting (g : Game) (s : State) : Prop :=
  ∃ earlier cycle b k, TurnCycle g s earlier cycle b k ∧
    ∃ x < g.numPlayers, canAct g s x ∧ x ∉ cycle.map Prod.snd

/-- How the rounds of a hand are recorded. -/
structure RoundInv (g : Game) (s : State) : Prop where
  round_lt : s.round < g.numRounds
  later : s.finished = false → ∀ r, s.round < r → r < g.numRounds → s.action r = []
  seated : ∀ r < g.numRounds, ∀ e ∈ s.action r, e.2 < g.numPlayers

/-- The order of play as it stands between two actions. -/
structure TurnInv (g : Game) (s : State) : Prop extends RoundInv g s where
  waiting : s.finished = false → TurnWaiting g s

theorem RoundInv.init {g : Game} (wf : g.WellFormed) (handId : UInt32) (prior : State) :
    RoundInv g (initState g handId prior) := by
  have hempty : ∀ r < g.numRounds, (initState g handId prior).action r = [] := fun r hr => if_pos hr
  refine ⟨wf.rounds_pos, fun _ r _ hr => hempty r hr, fun r hr e he => ?_⟩
  simp [hempty r hr] at he

theorem RoundInv.bet {g : Game} {s u : State} {p : Nat} {a : Action} (h : RoundInv g s)
    (hr : BetRecord p a s u) (hp : p < g.numPlayers) : RoundInv g u := by
  obtain ⟨entry, -, hact⟩ := hr.action
  refine ⟨hr.round ▸ h.round_lt, fun hf r h1 h2 => ?_, fun r hlt e he => ?_⟩
  · rw [hr.finished] at hf
    rw [hr.round] at h1
    rw [hact, Function.update_of_ne (by omega)]
    exact h.later hf r h1 h2
  · rw [hact] at he
    by_cases hrr : r = s.round
    · subst hrr
      rw [Function.update_self] at he
      rcases List.mem_append.mp he with he | he
      · exact h.seated _ hlt e he
      · rw [List.mem_singleton.mp he]
        exact hp
    · rw [Function.update_of_ne hrr] at he
      exact h.seated r hlt e he

theorem RoundInv.endRound {g : Game} {u t : State} (h : RoundInv g u) (same : SameBets u t)
    (hend : RoundEnd g u t) : RoundInv g t := by
  have hlt := h.round_lt
  have hseated : ∀ r < g.numRounds, ∀ e ∈ t.action r, e.2 < g.numPlayers := by
    rw [same.action]
    exact h.seated
  rcases hend with ⟨-, -, ht, hfin, -⟩ | ⟨-, ht, hfin⟩ | ⟨-, -, ht, hfin⟩ | ⟨-, ht, hfin⟩ |
    ⟨-, -, hnext, ht, hfin, -⟩
  · refine ⟨by omega, fun hf r h1 h2 => ?_, hseated⟩
    rw [same.action]
    exact h.later (hfin ▸ hf) r (by omega) h2
  · exact ⟨by omega, by simp [hfin], hseated⟩
  · exact ⟨by omega, by simp [hfin], hseated⟩
  · exact ⟨by omega, by simp [hfin], hseated⟩
  · refine ⟨by omega, fun hf r h1 h2 => ?_, hseated⟩
    rw [same.action]
    exact h.later (hfin ▸ hf) r (by omega) h2

theorem RoundInv.doAction {g : Game} {s t : State} {a : Action} {ended : Bool} (h : RoundInv g s)
    (hdo : doAction g a s = some (t, ended)) : RoundInv g t := by
  obtain ⟨hp, -, u, hu, same, hend⟩ := doAction_cases hdo
  exact (h.bet (bet_record hu) hp).endRound same hend

theorem RoundInv.step {g : Game} {s t : State} {a : Action} (h : RoundInv g s) (move : Move g s a t) :
    RoundInv g t := by
  obtain ⟨_, _, _, -, hdo⟩ := move
  exact h.doAction hdo

theorem TurnInv.currentPlayer_lt {g : Game} {s : State} (h : TurnInv g s) (hf : s.finished = false) :
    currentPlayer g s < g.numPlayers := by
  obtain ⟨_, _, _, _, -, x, hx, hact, -⟩ := h.waiting hf
  exact currentPlayer_lt_of_canAct hx hact

theorem TurnInv.numActions_lt {g : Game} {s : State} (h : TurnInv g s) (hf : s.finished = false) :
    s.numActions s.round < maxNumActions := by
  obtain ⟨_, _, _, _, hc, x, hx, -, hw⟩ := h.waiting hf
  exact hc.length_lt hx hw

theorem exists_canAct_of_numActingPlayers {g : Game} {s : State} (h : 0 < numActingPlayers g s) :
    ∃ x < g.numPlayers, canAct g s x := by
  obtain ⟨x, hx, hact⟩ := List.countP_pos_iff.mp h
  exact ⟨x, List.mem_range.mp hx, hact⟩

theorem turnWaiting_of_no_action {g : Game} {s : State} (wf : g.WellFormed)
    (hempty : s.action s.round = []) (hx : ∃ x < g.numPlayers, canAct g s x) : TurnWaiting g s := by
  obtain ⟨x, hx, hact⟩ := hx
  refine ⟨[], [], g.firstPlayer s.round, 0, ?_, x, hx, hact, by simp⟩
  have hn := wf.players_le
  have hn' := wf.players_ge
  refine ⟨hempty, by simp only [List.length_nil, maxNumActions, maxPlayers] at *; omega, by simp, by simp,
    by simp, by simp, by simp, by omega, by omega, ?_⟩
  simp only [turnCursor, hempty, List.getLast?_nil, seat]
  rw [show g.firstPlayer s.round + g.numPlayers - 1 + 1 = g.firstPlayer s.round + g.numPlayers by omega,
    Nat.add_mod_right, Nat.add_zero]

theorem TurnCycle.congr {g : Game} {u t : State} {earlier cycle : List (Action × Nat)} {b k : Nat}
    (same : SameBets u t) (hround : t.round = u.round) (h : TurnCycle g u earlier cycle b k) :
    TurnCycle g t earlier cycle b k := by
  have hact : canAct g t = canAct g u := by
    funext x
    simp [canAct, same.spent, same.playerFolded]
  refine ⟨by rw [same.action, hround, h.split], h.room, h.quiet, h.valid, ?_, h.seated, h.nodup, ?_,
    h.bound, ?_⟩
  · rw [same.playerFolded]
    exact h.folded
  · rw [hact]
    exact h.covered
  · have hc : turnCursor g t = turnCursor g u := by simp only [turnCursor, same.action, hround]
    rw [hc]
    exact h.cursor

theorem exists_turnCycle_of_bet {g : Game} {s u : State} {a : Action} (wf : g.WellFormed)
    (hw : TurnWaiting g s) (hroom : a.type = .raise → s.numActions s.round + g.numPlayers ≤ maxNumActions)
    (hr : BetRecord (currentPlayer g s) a s u) :
    ∃ earlier cycle b k, TurnCycle g u earlier cycle b k := by
  obtain ⟨earlier, cycle, b, k, hc, x, hx, hact, hnot⟩ := hw
  by_cases ht : a.type = .raise
  · obtain ⟨entry, h⟩ := TurnCycle.raise wf hr (currentPlayer_lt_of_canAct hx hact) (hroom ht) ht
    exact ⟨_, _, _, _, h⟩
  · obtain ⟨j, hj, hp, hskip⟩ := hc.next_seat wf hx hact hnot
    obtain ⟨entry, h⟩ := hc.extend hr hj hp hskip ht
    exact ⟨_, _, _, _, h⟩

theorem TurnInv.step {g : Game} {s t : State} {a : Action} (wf : g.WellFormed) (h : TurnInv g s)
    (move : Move g s a t) : TurnInv g t := by
  refine ⟨h.toRoundInv.step move, fun hf => ?_⟩
  obtain ⟨_, _, _, hvalid, hdo⟩ := move
  obtain ⟨hp, -, u, hu, same, hend⟩ := doAction_cases hdo
  have hr := bet_record hu
  rcases hend with ⟨-, hopen, ht, -, -⟩ | ⟨-, -, hfin⟩ | ⟨-, -, -, hfin⟩ | ⟨-, -, hfin⟩ |
    ⟨-, hacting, hnext, ht, hfin, -⟩
  · obtain ⟨earlier, cycle, b, k, hc⟩ := exists_turnCycle_of_bet wf
      (h.waiting (isValidAction_unfinished hvalid)) (fun hra => (isValidAction_raise hvalid hra).1) hr
    obtain ⟨x, hx, hact, hnot⟩ := hc.exists_waiting hopen
    refine ⟨earlier, cycle, b, k, hc.congr same ht, x, hx, ?_, hnot⟩
    simpa [canAct, same.spent, same.playerFolded] using hact
  · simp [hfin] at hf
  · simp [hfin] at hf
  · simp [hfin] at hf
  · have hempty := (h.toRoundInv.bet hr hp).later (hfin ▸ hf) t.round (by omega) (by omega)
    refine turnWaiting_of_no_action wf (by rw [same.action, hempty]) ?_
    obtain ⟨x, hx, hact⟩ := exists_canAct_of_numActingPlayers (show 0 < numActingPlayers g u by omega)
    exact ⟨x, hx, by simpa [canAct, same.spent, same.playerFolded] using hact⟩

theorem TurnInv.init {g : Game} (wf : g.WellFormed) (handId : UInt32) (prior : State)
    (hx : ∃ x < g.numPlayers, g.blind x < g.stack x) : TurnInv g (initState g handId prior) := by
  refine ⟨.init wf handId prior, fun _ => ?_⟩
  obtain ⟨x, hx, hlt⟩ := hx
  exact turnWaiting_of_no_action wf (if_pos wf.rounds_pos) ⟨x, hx, by simp [canAct, initState, hx, hlt]⟩

end MasterAI
