import MasterAI.SessionEffects
import MasterAI.TurnOrder

namespace MasterAI

abbrev SessionMove := Transition (Option RunGame) Event

section

variable {conf : Conf} {g : Game} {first : BeginNotify} {trace : List SessionMove} {s : Option RunGame}
  {r t : RunGame} {e : Event}

theorem SessionStart.game (h : SessionStart conf first s) :
    ∃ g, conf.getGame gameTypeNoLimit2P = some g := by
  obtain ⟨env, prior, _, hruns, _⟩ := h
  unfold RunGame.runsMatch at hruns
  split at hruns
  · cases hruns
  · next modelled _ =>
    cases hg : conf.getGame gameTypeNoLimit2P with
    | none => simp [RunGame.doRunMatch, hg] at hruns
    | some g => exact ⟨g, rfl⟩

theorem SessionStart.opened (h : SessionStart conf first s) (hg : conf.getGame gameTypeNoLimit2P = some g) :
    ∃ prior t, s = some t ∧ Running conf g t ∧ Opened g first prior t := by
  obtain ⟨env, prior, hrobot, hruns, rfl⟩ := h
  have hopened := RunGame.opened_of_runsMatch hruns hrobot hg
  exact ⟨prior, _, rfl, ⟨hopened.robotID ▸ hrobot, hopened.gameType, hg⟩, hopened⟩

theorem Effect.running (hr : Running conf g r) (h : Effect conf g r e (some t)) : Running conf g t := by
  cases h with
  | opened _ _ fresh _ => exact ⟨fresh.robotID ▸ hr.robotID, fresh.gameType, hr.game⟩
  | kept _ kept _ _ _ => exact hr.of_sameSeats kept.toSameSeats
  | cardsRefused _ _ kept _ _ => exact hr.of_sameSeats kept.toSameSeats
  | playerMoved _ _ _ moved _ _ => exact hr.of_sameSeats moved.toSameSeats
  | playerRefused _ _ kept _ _ => exact hr.of_sameSeats kept.toSameSeats
  | asked _ _ _ kept _ _ => exact hr.of_sameSeats kept.toSameSeats
  | askRefused _ _ kept _ _ => exact hr.of_sameSeats kept.toSameSeats
  | replied _ _ _ _ _ _ moved _ _ => exact hr.of_sameSeats moved.toSameSeats
  | replyFailed _ _ _ _ _ kept _ _ => exact hr.of_sameSeats kept.toSameSeats
  | timedOut _ _ _ _ kept _ _ => exact hr.of_sameSeats kept.toSameSeats

theorem SessionRun.game (run : SessionRun conf first trace s) :
    ∃ g, conf.getGame gameTypeNoLimit2P = some g := by
  induction run with
  | start h => exact h.game
  | next _ _ ih => exact ih

/-- What holds of a session for as long as it is not deleted. -/
def OnSession (inv : List SessionMove → RunGame → Prop) (trace : List SessionMove) (s : Option RunGame) :
    Prop :=
  ∀ r, s = some r → inv trace r

/-- The induction over a session: the opening of the first hand, then step after step. -/
theorem SessionRun.step_rule (inv : List SessionMove → RunGame → Prop)
    {guard : List SessionMove → SessionMove → Prop} (run : SessionRun conf first trace (some r))
    (hg : conf.getGame gameTypeNoLimit2P = some g) (guarded : Guarded guard trace)
    (base : ∀ prior t, Opened g first prior t → inv [] t)
    (keep : ∀ older r e t, Running conf g r → inv older r → guard older ⟨some r, e, some t⟩ →
      r.deliver conf e.env e.msg = some (some t, e.outputs) → inv (⟨some r, e, some t⟩ :: older) t) :
    Running conf g r ∧ inv trace r := by
  have hrun : OnSession (fun trace r => Running conf g r ∧ inv trace r) trace (some r) := by
    apply StepRun.invariant_trace run guarded
    · intro s hs t ht
      obtain ⟨prior, u, hu, hrunning, hopened⟩ := hs.opened hg
      cases ht.symm.trans hu
      exact ⟨hrunning, base prior t hopened⟩
    · rintro older ⟨pre, e, post⟩ ⟨q, hq, hdeliver⟩ hguard ih t ht
      obtain ⟨hrunning, hinv⟩ := ih q hq
      cases hq
      cases ht
      exact ⟨(deliver_effect hrunning hdeliver).running hrunning,
        keep older q e t hrunning hinv hguard hdeliver⟩
  exact hrun r rfl

/-- The same induction, effect after effect. -/
theorem SessionRun.rule (inv : List SessionMove → RunGame → Prop)
    {guard : List SessionMove → SessionMove → Prop} (run : SessionRun conf first trace (some r))
    (hg : conf.getGame gameTypeNoLimit2P = some g) (guarded : Guarded guard trace)
    (base : ∀ prior t, Opened g first prior t → inv [] t)
    (keep : ∀ older r e t, Running conf g r → inv older r → guard older ⟨some r, e, some t⟩ →
      Effect conf g r e (some t) → inv (⟨some r, e, some t⟩ :: older) t) :
    Running conf g r ∧ inv trace r :=
  SessionRun.step_rule inv run hg guarded base fun older r e t hr hinv hguard hdeliver =>
    keep older r e t hr hinv hguard (deliver_effect hr hdeliver)

/-- The move opens a hand. -/
def opening (conf : Conf) (m : SessionMove) : Bool :=
  match m.pre, m.event.msg with
  | some r, .gameBeginNotify (some pb) => r.runsMatch conf m.event.env pb
  | _, _ => false

/-- The moves since the current hand was opened, the latest first. -/
def handMoves (conf : Conf) (trace : List SessionMove) : List SessionMove :=
  trace.takeWhile fun m => !opening conf m

theorem handMoves_of_opening {m : SessionMove} (h : opening conf m = true) : handMoves conf (m :: trace) = [] := by
  simp [handMoves, h]

theorem handMoves_of_not_opening {m : SessionMove} (h : opening conf m = false) :
    handMoves conf (m :: trace) = m :: handMoves conf trace := by
  simp [handMoves, h]

theorem opening_iff {post : Option RunGame} :
    opening conf ⟨some r, e, post⟩ = true ↔ Opening conf r e := by
  obtain ⟨env, msg, outputs⟩ := e
  cases msg with
  | gameBeginNotify pb =>
    cases pb with
    | none => simp [opening, Opening]
    | some pb => simp [opening, Opening]
  | _ => simp [opening, Opening]

theorem opening_eq_false {post : Option RunGame} :
    opening conf ⟨some r, e, post⟩ = false ↔ ¬Opening conf r e := by
  rw [← Bool.not_eq_true, opening_iff]

theorem not_opening_of_msg {msg : Msg} (hmsg : e.msg = msg) (hne : ∀ pb, msg ≠ .gameBeginNotify (some pb)) :
    ¬Opening conf r e := by
  rintro ⟨pb, hm, _⟩
  exact hne pb (hmsg ▸ hm)

theorem opening_of_msg {msg : Msg} {post : Option RunGame} (hmsg : e.msg = msg)
    (hne : ∀ pb, msg ≠ .gameBeginNotify (some pb)) : opening conf ⟨some r, e, post⟩ = false :=
  opening_eq_false.mpr (not_opening_of_msg hmsg hne)

theorem RunGame.Idle.opening {post : Option RunGame} (h : r.Idle conf e) :
    opening conf ⟨some r, e, post⟩ = false :=
  opening_eq_false.mpr h.not_opening

/-- A condition that holds of every move. -/
def anyMove (_ : List SessionMove) (_ : SessionMove) : Prop := True

theorem guarded_anyMove (trace : List SessionMove) : Guarded anyMove trace := by
  induction trace with
  | nil => trivial
  | cons _ _ ih => exact ⟨trivial, ih⟩

theorem SessionRun.running (run : SessionRun conf first trace (some r))
    (hg : conf.getGame gameTypeNoLimit2P = some g) : Running conf g r :=
  (SessionRun.rule (fun _ _ => True) run hg (guarded_anyMove trace) (fun _ _ _ => trivial)
    fun _ _ _ _ _ _ _ _ => trivial).1

/-- A move inside a run, with the run that leads to it and its effect. -/
theorem SessionRun.move {newer older : List SessionMove} {m : SessionMove}
    (run : SessionRun conf first trace s) (h : trace = newer ++ m :: older)
    (hg : conf.getGame gameTypeNoLimit2P = some g) :
    ∃ r, m.pre = some r ∧ SessionRun conf first older (some r) ∧ Running conf g r ∧
      Effect conf g r m.event m.post := by
  obtain ⟨r, hr, hdeliver⟩ := StepRun.step_of_mem run (t := m) (by simp [h])
  have hrun : SessionRun conf first older m.pre := StepRun.split run h
  rw [hr] at hrun
  have hrunning := hrun.running hg
  exact ⟨r, hr, hrun, hrunning, deliver_effect hrunning hdeliver⟩

/-- A session that waits for an answer does so in the turn of the robot. -/
def WaitsInTurn (conf : Conf) (_ : List SessionMove) (r : RunGame) : Prop :=
  r.runState = .waitRobotAction → r.getCurrentPlayerID conf = r.robotID

theorem WaitsInTurn.keep {older newer : List SessionMove} (h : WaitsInTurn conf older r)
    (heffect : Effect conf g r e (some t)) : WaitsInTurn conf newer t := by
  intro hwait
  cases heffect with
  | opened _ _ fresh _ =>
    rw [fresh.runState] at hwait
    cases hwait
  | kept _ kept runState _ _ =>
    rw [kept.getCurrentPlayerID, kept.robotID]
    exact h (runState ▸ hwait)
  | cardsRefused _ _ _ runState _ =>
    rw [runState] at hwait
    cases hwait
  | playerMoved _ player enters _ runState _ =>
    obtain ⟨_, _, hturn, _⟩ := enters
    exact absurd (hturn.symm.trans (h (runState ▸ hwait))) player
  | playerRefused _ _ _ runState _ =>
    rw [runState] at hwait
    cases hwait
  | asked _ ready _ kept _ _ =>
    rw [kept.getCurrentPlayerID, kept.robotID]
    exact ready.2.1
  | askRefused _ _ kept runState _ =>
    rw [kept.getCurrentPlayerID, kept.robotID]
    exact h (runState ▸ hwait)
  | replied _ _ _ _ _ _ _ runState _ =>
    rw [runState] at hwait
    cases hwait
  | replyFailed _ _ _ _ _ _ runState _ =>
    rw [runState] at hwait
    cases hwait
  | timedOut _ _ _ _ _ runState _ =>
    rw [runState] at hwait
    cases hwait

theorem SessionRun.waitsInTurn (run : SessionRun conf first trace (some r)) :
    r.runState = .waitRobotAction → r.getCurrentPlayerID conf = r.robotID := by
  obtain ⟨g, hg⟩ := SessionRun.game run
  refine (SessionRun.rule (WaitsInTurn conf) run hg (guarded_anyMove trace) ?_ ?_).2
  · intro prior t fresh hwait
    rw [fresh.runState] at hwait
    cases hwait
  · intro older r e t _ h _ heffect
    exact h.keep heffect

/-- A step either opens a hand, leaves the bets as they are or makes one. -/
theorem Effect.bets (h : Effect conf g r e (some t)) :
    (∃ pb, e.msg = .gameBeginNotify (some pb) ∧ Opening conf r e ∧ Opened g pb r t) ∨
      (¬Opening conf r e ∧ Kept r t) ∨ (¬Opening conf r e ∧ ∃ a, Moved g a r t) := by
  cases h with
  | opened msg runs fresh _ => exact .inl ⟨_, msg, ⟨_, msg, runs⟩, fresh⟩
  | kept idle kept _ _ _ => exact .inr (.inl ⟨idle.not_opening, kept⟩)
  | cardsRefused msg _ kept _ _ => exact .inr (.inl ⟨not_opening_of_msg msg (by simp), kept⟩)
  | playerMoved msg _ _ moved _ _ => exact .inr (.inr ⟨not_opening_of_msg msg (by simp), _, moved⟩)
  | playerRefused msg _ kept _ _ => exact .inr (.inl ⟨not_opening_of_msg msg (by simp), kept⟩)
  | asked msg _ _ kept _ _ => exact .inr (.inl ⟨not_opening_of_msg msg (by simp), kept⟩)
  | askRefused msg _ kept _ _ => exact .inr (.inl ⟨not_opening_of_msg msg (by simp), kept⟩)
  | replied msg _ _ _ _ _ moved _ _ => exact .inr (.inr ⟨not_opening_of_msg msg (by simp), _, moved⟩)
  | replyFailed msg _ _ _ _ kept _ _ => exact .inr (.inl ⟨not_opening_of_msg msg (by simp), kept⟩)
  | timedOut msg _ _ _ kept _ _ => exact .inr (.inl ⟨not_opening_of_msg msg (by simp), kept⟩)

/-- The rounds of the hand and the room of each round. -/
structure HandRounds (g : Game) (r : RunGame) : Prop extends RoundInv g r.state where
  room : ∀ i, (r.state.action i).length ≤ maxNumActions

theorem SameTable.roundInv {u v : State} (h : SameTable u v) (inv : RoundInv g u) : RoundInv g v := by
  obtain ⟨hround, hlater, hseated⟩ := inv
  refine ⟨?_, ?_, ?_⟩
  · rw [h.round]
    exact hround
  · rw [h.finished, h.round, h.action]
    exact hlater
  · rw [h.action]
    exact hseated

/-- One action of a session is added to the current round. -/
theorem Moved.record {a : Action} (h : Moved g a r t) (inv : RoundInv g r.state) :
    ∃ entry, t.state.action = Function.update r.state.action r.state.round
        (r.state.action r.state.round ++ [entry]) ∧
      r.state.round ≤ t.state.round ∧ t.state.handId = r.state.handId ∧
      (r.state.action r.state.round).length < maxNumActions := by
  obtain ⟨ended, hdo⟩ := h.act
  obtain ⟨_, hroom, v, hv, same, hend⟩ := doAction_cases hdo
  have hrecord := bet_record hv
  obtain ⟨entry, _, haction⟩ := hrecord.action
  have hhand : v.handId = r.state.handId := by
    rcases bet_cases hv with ⟨_, rfl⟩ | ⟨_, rfl⟩ | ⟨_, _, _, _, rfl⟩ | ⟨_, _, rfl⟩ <;> rfl
  refine ⟨(entry, _), by rw [same.action, haction], ?_, same.handId.trans hhand, hroom⟩
  have hlt := inv.round_lt
  have hround := hrecord.round
  cases hend with
  | goOn _ _ ht _ _ => omega
  | lastPlayer _ ht _ => omega
  | lastRound _ _ ht _ => omega
  | showdown _ ht _ => omega
  | newRound _ _ _ ht _ _ => omega

theorem HandRounds.start (wf : g.WellFormed) {pb : BeginNotify} (fresh : Opened g pb r t) : HandRounds g t := by
  have hinit := RoundInv.init wf pb.hand (RunGame.clearedMatchState 0).state
  rw [← fresh.state] at hinit
  refine ⟨hinit, fun i => ?_⟩
  simp [fresh.state, initState, RunGame.clearedMatchState]

theorem HandRounds.keep (hr : Running conf g r) (inv : HandRounds g r) (h : Effect conf g r e (some t)) :
    HandRounds g t := by
  rcases h.bets with ⟨pb, _, _, fresh⟩ | ⟨_, kept⟩ | ⟨_, a, moved⟩
  · exact HandRounds.start hr.wellFormed fresh
  · exact ⟨kept.table.roundInv inv.toRoundInv, kept.table.action ▸ inv.room⟩
  · obtain ⟨entry, haction, _, _, hroom⟩ := moved.record inv.toRoundInv
    obtain ⟨ended, hdo⟩ := moved.act
    refine ⟨inv.toRoundInv.doAction hdo, fun i => ?_⟩
    rw [haction]
    by_cases hi : i = r.state.round
    · subst hi
      simp only [Function.update_self, List.length_append, List.length_singleton]
      omega
    · rw [Function.update_of_ne hi]
      exact inv.room i

/-- The moves that a list of messages makes, the latest first, with the session they lead to. -/
def follow (conf : Conf) : List (Env × Msg) → List SessionMove × Option RunGame →
    Option (List SessionMove × Option RunGame)
  | [], reached => some reached
  | _ :: _, (_, none) => none
  | (env, msg) :: rest, (trace, some r) =>
    match r.deliver conf env msg with
    | none => none
    | some (t, outputs) => follow conf rest (⟨some r, ⟨env, msg, outputs⟩, t⟩ :: trace, t)

theorem follow_run {start : Option RunGame → Prop} {messages : List (Env × Msg)}
    {reached last : List SessionMove × Option RunGame}
    (run : StepRun (SessionStep conf) start reached.1 reached.2)
    (h : follow conf messages reached = some last) : StepRun (SessionStep conf) start last.1 last.2 := by
  induction messages generalizing reached with
  | nil =>
    cases h
    exact run
  | cons message rest ih =>
    obtain ⟨env, msg⟩ := message
    obtain ⟨trace, s⟩ := reached
    cases s with
    | none => cases h
    | some r =>
      simp only [follow] at h
      split at h
      · cases h
      · next t outputs hdeliver => exact ih (.next run ⟨r, rfl, hdeliver⟩) h

/-- The run of a list of messages, without any of them when one fails. -/
def followed (conf : Conf) (messages : List (Env × Msg)) (reached : List SessionMove × Option RunGame) :
    List SessionMove × Option RunGame :=
  (follow conf messages reached).getD reached

theorem followed_run {start : Option RunGame → Prop} {reached : List SessionMove × Option RunGame}
    (messages : List (Env × Msg)) (run : StepRun (SessionStep conf) start reached.1 reached.2) :
    StepRun (SessionStep conf) start (followed conf messages reached).1
      (followed conf messages reached).2 := by
  unfold followed
  cases h : follow conf messages reached with
  | none => exact run
  | some last => exact follow_run run h

end

/-- A two-player game over four rounds. -/
def holdemFile : List GameLine :=
  [.nolimit, .numPlayers [2], .numRounds [4], .stack [200, 200], .blind [2, 1],
    .firstPlayer [2, 1, 1, 1], .numSuits [4], .numRanks [13], .numHoleCards [2],
    .numBoardCards [0, 3, 1, 1]]

def holdem : Game := (readGame holdemFile).get (by decide)

def tableConf : Conf where
  getGame := fun gameType => if gameType = gameTypeNoLimit2P then some holdem else none
  loaded := by
    intro gameType g h
    split at h
    · exact ⟨holdemFile, h ▸ (Option.some_get _).symm⟩
    · cases h
  rankCardset := fun _ => 0
  cfrServers := [⟨['m'], 1, 0⟩]
  robotTimeout := 10
  dataTimeout := 60
  unsaveHistory := false

/-- The robot calls whenever it is asked. -/
def callingEnv (now : Int) : Env where
  now := now
  connected := fun _ => true
  tree := fun _ => some ⟨0, 0, 0, [['c'], ['f'], ['r', '6'], ['r', '2', '0', '0']]⟩
  cfrKey := fun _ _ _ => .ok ['k']
  freeNode := true
  convertResponse := fun _ children => some (List.replicate children 1)
  robotDecision := fun _ _ _ _ => some ['c']
  lLen := 0
  lPush := 1

/-- A session structure before its first hand. -/
def newSession (robotID : Int) : RunGame where
  robotID := robotID
  gameType := 0
  playerID := 0
  playerScore := 0
  actionSeq := 0
  runState := .ok
  sock := -1
  uniqueID := 0
  lastTime := 0
  requestActionTime := 0
  cfrServerID := 0
  cfrModel := []
  matchState := RunGame.clearedMatchState 0
  robotResult := 0
  robotScore := 0
  historyCnt := 0
  tRobotRoundSeq := 0
  alreadySaveHistory := false
  gameBeginTimes := 0
  lastAction := ⟨0, 0, 0⟩

def robotSeat : Int := 7
def playerSeat : Int := 8

def tableConn : Conn := ⟨3, 4⟩

/-- The robot has the button, so it acts first. -/
def robotButton (hand : UInt32) : BeginNotify := ⟨hand, playerSeat, 0, robotSeat, 1⟩

/-- The player has the button. -/
def playerButton (hand : UInt32) : BeginNotify := ⟨hand, playerSeat, 0, playerSeat, 1⟩

def tableStart (first : BeginNotify) : List SessionMove × Option RunGame :=
  ([], some ((newSession robotSeat).gameBeginNotify tableConf (callingEnv 0) (some first)))

theorem tableStart_run (first : BeginNotify) :
    SessionRun tableConf first (tableStart first).1 (tableStart first).2 :=
  .start ⟨callingEnv 0, newSession robotSeat, by decide, rfl, rfl⟩

@[irreducible] def tableRun (first : BeginNotify) (messages : List (Env × Msg)) : List SessionMove × Option RunGame :=
  followed tableConf messages (tableStart first)

theorem tableRun_run (first : BeginNotify) (messages : List (Env × Msg)) :
    SessionRun tableConf first (tableRun first messages).1 (tableRun first messages).2 := by
  unfold tableRun
  exact followed_run messages (tableStart_run first)

/-- The reply to the request that the session sends after the messages. -/
def replyAfter (first : BeginNotify) (messages : List (Env × Msg)) : Msg :=
  match (tableRun first messages).2 with
  | none => .checkRunGameTimeout
  | some r =>
    .queryActionResp
      { handID := r.state.handId, round := r.state.round, actionSeq := r.actionSeq, errCode := 0,
        response := ['1'], actionInfo := (getActionInfo r.matchState).toText }

def preflopPlay : List (Env × Msg) :=
  [(callingEnv 1, .gameSendCardsNotify (some ⟨0, [0x0e, 0x1e], []⟩)),
    (callingEnv 2, .gameRobotActionReq tableConn true)]

def flopPlay : List (Env × Msg) :=
  preflopPlay ++
    [(callingEnv 3, replyAfter (robotButton 1) preflopPlay),
      (callingEnv 4, .gameActionNotify (some ⟨playerSeat, 1, 0⟩)),
      (callingEnv 5, .gameSendCardsNotify (some ⟨1, [], [0x12, 0x13, 0x14]⟩)),
      (callingEnv 6, .gameActionNotify (some ⟨playerSeat, 1, 0⟩)),
      (callingEnv 7, .gameRobotActionReq tableConn true)]

/-- The robot is asked before the flop and after it, and calls both times. -/
def callingPlay : List (Env × Msg) :=
  flopPlay ++ [(callingEnv 8, replyAfter (robotButton 1) flopPlay)]

end MasterAI
