import MasterAI.BettingReplay
import MasterAI.FinishedHand

namespace MasterAI

/-- The report of an action of the robot, who had put in `spent` before it. -/
def reportOf (spent : Int) (a : Action) : Int × Int :=
  (a.type.code, if a.type = .raise then wrapInt32 (a.size - spent) else 0)

/-- The chips of a player after a recorded action. -/
def spentAfter (spent : Int) (a : Action) : Int := if a.type = .fold then spent else a.size

/-- The reports of recorded actions of the robot, from the blind on. -/
def reportsOf : Int → List Action → List (Int × Int)
  | _, [] => []
  | spent, a :: rest => reportOf spent a :: reportsOf (spentAfter spent a) rest

/-- The actions that the hand records for the seat of the robot. -/
def RunGame.robotActions (r : RunGame) : List Action :=
  (r.state.history.filter fun e => e.2 = r.matchState.viewingPlayer).map Prod.fst

def Output.report : Output → Option (Int × Int)
  | .robotActionRsp rsp => some (rsp.actionType, rsp.betNum)
  | _ => none

def Event.reports (e : Event) : List (Int × Int) := e.outputs.filterMap Output.report

/-- What the client was told about the current hand, in order. -/
def handReports (conf : Conf) (trace : List SessionMove) : List (Int × Int) :=
  (handMoves conf trace).reverse.flatMap fun m => m.event.reports

section

variable {conf : Conf} {env : Env} {g : Game} {first : BeginNotify} {trace older : List SessionMove}
  {r t : RunGame} {e : Event} {a : Action} {spent : Int}

instance (uid actionType betNum : Int) : Decidable (r.Enters conf env uid actionType betNum) :=
  decidable_of_iff (∃ g ∈ conf.getGame r.gameType, r.getCurrentPlayerID conf = uid ∧
    r.checkAction env g (r.givenAction uid actionType betNum) = some 0) Iff.rfl

instance (reply : CfrReply) : Decidable (r.Playable conf env reply) :=
  decidable_of_iff (∃ a ∈ r.replyAction conf env reply,
    (reply.actionSeq = r.actionSeq → r.Enters conf env r.robotID a.type.code a.size)) Iff.rfl

instance (env : Env) (g : Game) : Decidable (r.Ready conf env g) :=
  have placed : (∃ node key, env.tree (getActionInfo r.matchState).actionSeq = some node ∧
      env.cfrKey r.cfrModel (getActionInfo r.matchState) node = .ok key) ↔
      ∃ node ∈ env.tree (getActionInfo r.matchState).actionSeq,
        (env.cfrKey r.cfrModel (getActionInfo r.matchState) node).toBool = true := by
    constructor
    · rintro ⟨node, key, hnode, hkey⟩
      exact ⟨node, hnode, by rw [hkey]; rfl⟩
    · rintro ⟨node, hnode, hkey⟩
      cases h : env.cfrKey r.cfrModel (getActionInfo r.matchState) node with
      | error code => simp [h, Except.toBool] at hkey
      | ok key => exact ⟨node, key, hnode, h⟩
  have := decidable_of_iff _ placed.symm
  inferInstanceAs (Decidable (_ ∧ _ ∧ _ ∧ _ ∧ _ ∧ _ ∧ _))

theorem reportsOf_append (l : List Action) :
    reportsOf spent (l ++ [a]) = reportsOf spent l ++ [reportOf (l.foldl spentAfter spent) a] := by
  induction l generalizing spent with
  | nil => rfl
  | cons b l ih => simp [reportsOf, ih]

/-- An action of a no-limit hand, as it is recorded. -/
theorem Moved.recorded (h : Moved g a r t) (inv : RoundInv g r.state) (hfin : r.state.finished = false)
    (hbet : g.bettingType = .noLimitBetting) :
    ∃ entry : Action, t.state.history = r.state.history ++ [(entry, currentPlayer g r.state)] ∧
      currentPlayer g r.state < g.numPlayers ∧ entry.type = a.type ∧ (a.type = .raise → entry.size = a.size) ∧
      t.state.spent = Function.update r.state.spent (currentPlayer g r.state)
        (spentAfter (r.state.spent (currentPlayer g r.state)) entry) := by
  obtain ⟨ended, hdo⟩ := h.act
  obtain ⟨hp, _, u, hu, same, hend⟩ := doAction_cases hdo
  have hrecord := bet_record hu
  rcases bet_cases hu with ⟨ht, rfl⟩ | ⟨ht, rfl⟩ | ⟨ht, _, _, _, rfl⟩ | ⟨_, hlimit, _⟩
  · refine ⟨a, history_of_bet inv hfin hrecord hp same hend rfl, hp, rfl, fun _ => rfl, ?_⟩
    rw [same.spent]
    simp [spentAfter, ht]
  · refine ⟨{ a with size := callSize g r.state (currentPlayer g r.state) },
      history_of_bet inv hfin hrecord hp same hend rfl, hp, rfl, by simp [ht], ?_⟩
    rw [same.spent]
    simp [spentAfter, ht]
  · refine ⟨a, history_of_bet inv hfin hrecord hp same hend rfl, hp, rfl, fun _ => rfl, ?_⟩
    rw [same.spent]
    simp [spentAfter, ht]
  · cases hbet.symm.trans hlimit

/-- It is the turn of the seat of the robot. When the player goes by the number of the robot,
`GetCurrentPlayerID` cannot tell. -/
def RunGame.ownTurn (conf : Conf) (r : RunGame) : Bool :=
  (conf.getGame gameTypeNoLimit2P).all fun g => currentPlayer g r.state = r.matchState.viewingPlayer

/-- The message leads to no fold that the hand does not record and to no action that is recorded for
the robot and not reported: no fold or call of player 0 comes after the end of the hand, requests can
be sent, and replies can be played for the robot and come in time. -/
def RunGame.agreed (conf : Conf) (r : RunGame) (e : Event) : Bool :=
  match e.msg with
  | .gameActionNotify (some _) => !(r.state.finished && e.msg.stray)
  | .gameRobotActionReq _ parsed =>
    parsed && (conf.getGame gameTypeNoLimit2P).all fun g => r.Ready conf e.env g
  | .queryActionResp reply =>
    r.runState ≠ .waitRobotAction || reply.handID ≠ r.state.handId || reply.round ≠ r.state.round ||
      (r.Playable conf e.env reply && (reply.actionSeq ≠ r.actionSeq || r.ownTurn conf))
  | .checkRunGameTimeout =>
    e.env.now - r.lastTime > conf.dataTimeout || r.runState ≠ .waitRobotAction ||
      e.env.now - r.requestActionTime ≤ conf.robotTimeout
  | _ => true

def agreedMove (conf : Conf) (m : SessionMove) : Bool := m.pre.all fun r => r.agreed conf m.event

/-- The reports of the hand are those of the recorded actions of the robot. -/
structure ReportInv (conf : Conf) (g : Game) (trace : List SessionMove) (r : RunGame) : Prop where
  rounds : HandRounds g r
  reports : handReports conf trace = reportsOf (g.blind r.matchState.viewingPlayer) r.robotActions
  spent : r.state.spent r.matchState.viewingPlayer =
    r.robotActions.foldl spentAfter (g.blind r.matchState.viewingPlayer)

theorem Kept.robotActions (h : Kept r t) : t.robotActions = r.robotActions := by
  simp [RunGame.robotActions, State.history, h.table.action, h.table.round, h.viewingPlayer]

theorem handReports_of_silent (hgoing : opening conf ⟨some r, e, some t⟩ = false)
    (h : ∀ rsp, .robotActionRsp rsp ∉ e.outputs) :
    handReports conf (⟨some r, e, some t⟩ :: older) = handReports conf older := by
  have hnone : e.reports = [] := by
    rw [Event.reports, List.filterMap_eq_nil_iff]
    intro o ho
    cases o with
    | robotActionRsp rsp => exact absurd ho (h rsp)
    | cfrRequest _ => rfl
    | queryStateRsp _ => rfl
  simp [handReports, handMoves_of_not_opening hgoing, hnone]

theorem handReports_of_rsp {rsp : RobotActionRsp} (hgoing : opening conf ⟨some r, e, some t⟩ = false)
    (h : e.outputs = [.robotActionRsp rsp]) :
    handReports conf (⟨some r, e, some t⟩ :: older) =
      handReports conf older ++ [(rsp.actionType, rsp.betNum)] := by
  simp [handReports, handMoves_of_not_opening hgoing, Event.reports, h, Output.report]

theorem ReportInv.opened (wf : g.WellFormed) {pb : BeginNotify} (fresh : Opened g pb r t)
    (hreports : handReports conf trace = []) : ReportInv conf g trace t := by
  have hnone : t.robotActions = [] := by
    simp [RunGame.robotActions, fresh.state, State.history, initState, wf.rounds_pos]
  have hseat : t.matchState.viewingPlayer < g.numPlayers := by
    have := wf.players_ge
    rw [fresh.viewingPlayer]
    split <;> omega
  refine ⟨HandRounds.start wf fresh, by rw [hreports, hnone]; rfl, ?_⟩
  rw [hnone, fresh.state]
  simp [initState, hseat]

theorem ReportInv.silent (inv : ReportInv conf g older r) (kept : Kept r t) (rounds : HandRounds g t)
    (hgoing : opening conf ⟨some r, e, some t⟩ = false) (h : ∀ rsp, .robotActionRsp rsp ∉ e.outputs) :
    ReportInv conf g (⟨some r, e, some t⟩ :: older) t := by
  refine ⟨rounds, ?_, ?_⟩
  · rw [handReports_of_silent hgoing h, kept.robotActions, kept.viewingPlayer]
    exact inv.reports
  · rw [kept.robotActions, kept.viewingPlayer, kept.table.spent]
    exact inv.spent

/-- An action of the player is recorded for another seat than that of the robot. -/
theorem ReportInv.playerMoved (inv : ReportInv conf g older r) (rounds : HandRounds g t)
    (hbet : g.bettingType = .noLimitBetting) (moved : Moved g a r t) (hfin : r.state.finished = false)
    (hseat : currentPlayer g r.state ≠ r.matchState.viewingPlayer)
    (hgoing : opening conf ⟨some r, e, some t⟩ = false) (h : ∀ rsp, .robotActionRsp rsp ∉ e.outputs) :
    ReportInv conf g (⟨some r, e, some t⟩ :: older) t := by
  obtain ⟨entry, hhistory, _, _, _, hspent⟩ := moved.recorded inv.rounds.toRoundInv hfin hbet
  have hactions : t.robotActions = r.robotActions := by
    simp [RunGame.robotActions, hhistory, moved.viewingPlayer, List.filter_append, hseat]
  refine ⟨rounds, ?_, ?_⟩
  · rw [handReports_of_silent hgoing h, hactions, moved.viewingPlayer]
    exact inv.reports
  · rw [hactions, moved.viewingPlayer, hspent, Function.update_of_ne (Ne.symm hseat)]
    exact inv.spent

/-- An action of the robot is recorded for its seat and reported as it is recorded. -/
theorem ReportInv.replied (inv : ReportInv conf g older r) (rounds : HandRounds g t)
    (hbet : g.bettingType = .noLimitBetting) (moved : Moved g (RunGame.robotAction a) r t)
    (hfin : r.state.finished = false) (hseat : currentPlayer g r.state = r.matchState.viewingPlayer)
    (hgoing : opening conf ⟨some r, e, some t⟩ = false)
    (sent : e.outputs = [.robotActionRsp (r.actionRsp a)]) :
    ReportInv conf g (⟨some r, e, some t⟩ :: older) t := by
  obtain ⟨entry, hhistory, _, htype, hsize, hspent⟩ := moved.recorded inv.rounds.toRoundInv hfin hbet
  rw [hseat] at hhistory hspent
  have hactions : t.robotActions = r.robotActions ++ [entry] := by
    simp [RunGame.robotActions, hhistory, moved.viewingPlayer, List.filter_append]
  have hreport : ((r.actionRsp a).actionType, (r.actionRsp a).betNum) =
      reportOf (r.state.spent r.matchState.viewingPlayer) entry := by
    unfold reportOf RunGame.actionRsp
    by_cases hraise : a.type = .raise
    · have hentry : entry.size = a.size := by simpa [RunGame.robotAction, hraise] using hsize
      simp [htype, RunGame.robotAction, hraise, hentry]
    · simp [htype, RunGame.robotAction, hraise]
  refine ⟨rounds, ?_, ?_⟩
  · rw [handReports_of_rsp hgoing sent, inv.reports, hreport, hactions, moved.viewingPlayer,
      reportsOf_append, inv.spent]
  · rw [hactions, moved.viewingPlayer, hspent, Function.update_self, List.foldl_append, inv.spent]
    rfl

theorem currentPlayer_of_moved (moved : Moved g a r t) : currentPlayer g r.state < g.numPlayers := by
  obtain ⟨ended, hdo⟩ := moved.act
  exact (doAction_cases hdo).1

theorem getCurrentPlayerID_of_moved (hr : Running conf g r) (hfin : r.state.finished = false)
    (moved : Moved g a r t) :
    r.getCurrentPlayerID conf =
      if currentPlayer g r.state = r.matchState.viewingPlayer then r.robotID else r.playerID := by
  have hp := currentPlayer_of_moved moved
  simp only [RunGame.getCurrentPlayerID, hfin, hr.getGame, ge_iff_le, Nat.not_le.mpr hp, if_false,
    Bool.false_eq_true]

theorem unfinished_of_agreed {pb : ActionNotify} (hr : Running conf g r)
    (msg : e.msg = .gameActionNotify (some pb)) (hagreed : r.agreed conf e = true)
    (enters : r.Enters conf e.env pb.playerID pb.actionType pb.betNum) : r.state.finished = false := by
  rw [← Bool.not_eq_true]
  intro hfin
  obtain ⟨hplayer, htype⟩ := (enters_finished_iff hr hfin _ _ _).mp enters
  have hstray : e.msg.stray = true := by simpa [msg, Msg.stray, hplayer] using htype
  rw [msg] at hstray
  simp [RunGame.agreed, msg, hfin, hstray] at hagreed

theorem unfinished_of_robot_enters {actionType betNum : Int} (hr : Running conf g r)
    (enters : r.Enters conf env r.robotID actionType betNum) : r.state.finished = false := by
  rw [← Bool.not_eq_true]
  intro hfin
  exact hr.robotID ((enters_finished_iff hr hfin _ _ _).mp enters).1

theorem ReportInv.keep (hr : Running conf g r) (hbet : g.bettingType = .noLimitBetting)
    (inv : ReportInv conf g older r) (hagreed : r.agreed conf e = true)
    (heffect : Effect conf g r e (some t)) : ReportInv conf g (⟨some r, e, some t⟩ :: older) t := by
  have rounds : HandRounds g t := inv.rounds.keep hr heffect
  cases heffect with
  | opened msg runs fresh _ =>
    have hopens : opening conf ⟨some r, e, some t⟩ = true := opening_iff.mpr ⟨_, msg, runs⟩
    refine ReportInv.opened hr.wellFormed fresh ?_
    simp [handReports, handMoves_of_opening hopens]
  | kept idle kept _ noRsp _ => exact inv.silent kept rounds idle.opening noRsp
  | cardsRefused msg _ kept _ silent => exact inv.silent kept rounds (opening_of_msg msg (by simp)) (by simp [silent])
  | playerMoved msg player enters moved _ silent =>
    have hfin := unfinished_of_agreed hr msg hagreed enters
    obtain ⟨_, _, hturn, _⟩ := enters
    have hid := getCurrentPlayerID_of_moved hr hfin moved
    refine inv.playerMoved rounds hbet moved hfin ?_ (opening_of_msg msg (by simp)) (by simp [silent])
    intro hseat
    rw [if_pos hseat, hturn] at hid
    exact player hid
  | playerRefused msg _ kept _ silent => exact inv.silent kept rounds (opening_of_msg msg (by simp)) (by simp [silent])
  | asked msg _ _ kept _ sent => exact inv.silent kept rounds (opening_of_msg msg (by simp)) (by simp [sent])
  | askRefused msg unready _ _ _ =>
    simp only [RunGame.agreed, msg, hr.game, Option.all_some, Bool.and_eq_true, decide_eq_true_eq] at hagreed
    exact absurd hagreed unready
  | replied msg waiting handID round actionSeq enters moved _ sent =>
    have hfin := unfinished_of_robot_enters hr enters
    refine inv.replied rounds hbet moved hfin ?_ (opening_of_msg msg (by simp)) sent
    simp [RunGame.agreed, msg, waiting, handID, round, actionSeq, RunGame.ownTurn, hr.game] at hagreed
    exact hagreed.2
  | replyFailed msg waiting handID round failed _ _ _ =>
    simp [RunGame.agreed, msg, waiting, handID, round, failed] at hagreed
  | timedOut msg live waiting late _ _ _ =>
    simp [RunGame.agreed, msg, waiting, Int.not_lt.mpr live, Int.not_le.mpr late] at hagreed

/-- In a run of agreed moves the client was told the actions that the hand records for the robot, in
their order. -/
theorem reports_match (hg : conf.getGame gameTypeNoLimit2P = some g)
    (hbet : g.bettingType = .noLimitBetting) (run : SessionRun conf first trace (some r))
    (agreed : Guarded (fun _ m => agreedMove conf m = true) trace) :
    handReports conf trace = reportsOf (g.blind r.matchState.viewingPlayer) r.robotActions := by
  refine (SessionRun.rule (ReportInv conf g) run hg agreed ?_ ?_).2.reports
  · intro prior t fresh
    obtain ⟨file, hfile⟩ := conf.loaded _ g hg
    exact ReportInv.opened (readGame_wellFormed hfile) fresh rfl
  · intro older r e t hr inv hagreed heffect
    exact inv.keep hr hbet hagreed heffect

end

theorem reports_match_callingPlay :
    ∃ r, (tableRun (robotButton 1) callingPlay).2 = some r ∧ r.robotActions.length = 2 ∧
      handReports tableConf (tableRun (robotButton 1) callingPlay).1 =
        reportsOf (holdem.blind r.matchState.viewingPlayer) r.robotActions := by
  obtain ⟨r, hr⟩ : ∃ r, (tableRun (robotButton 1) callingPlay).2 = some r :=
    Option.isSome_iff_exists.mp (by decide +kernel)
  have hlength : (tableRun (robotButton 1) callingPlay).2.all (fun r => r.robotActions.length = 2) = true := by
    decide +kernel
  have hrun := tableRun_run (robotButton 1) callingPlay
  rw [hr] at hlength hrun
  exact ⟨r, hr, of_decide_eq_true hlength, reports_match rfl (by decide) hrun (by decide +kernel)⟩

/-- The answer to an accepted request comes too late: the client is told that the robot folds, and the
hand goes on without a fold. -/
theorem timeout_fold_unrecorded :
    ∃ first trace r, SessionRun tableConf first trace (some r) ∧
      handReports tableConf trace = [(ActionType.fold.code, 0)] ∧
      reportsOf (holdem.blind r.matchState.viewingPlayer) r.robotActions = [] ∧ r.state.finished = false := by
  have hrun := tableRun_run (robotButton 1) (preflopPlay ++ [(callingEnv 20, .checkRunGameTimeout)])
  obtain ⟨r, hr⟩ :
      ∃ r, (tableRun (robotButton 1) (preflopPlay ++ [(callingEnv 20, .checkRunGameTimeout)])).2 = some r :=
    Option.isSome_iff_exists.mp (by decide +kernel)
  have hlast : (tableRun (robotButton 1) (preflopPlay ++ [(callingEnv 20, .checkRunGameTimeout)])).2.all
      (fun r => reportsOf (holdem.blind r.matchState.viewingPlayer) r.robotActions = [] && !r.state.finished)
        = true := by
    decide +kernel
  rw [hr] at hrun hlast
  simp only [Option.all_some, Bool.and_eq_true, decide_eq_true_eq, Bool.not_eq_true'] at hlast
  exact ⟨_, _, r, hrun, by decide +kernel, hlast⟩

end MasterAI
