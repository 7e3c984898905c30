import MasterAI.SessionSteps

namespace MasterAI

/-- The message opens a hand. -/
def Opening (conf : Conf) (r : RunGame) (e : Event) : Prop :=
  ∃ pb, e.msg = .gameBeginNotify (some pb) ∧ r.runsMatch conf e.env pb = true

namespace RunGame

/-- The answer that reports an action of the robot. A raise is reported by its increase. -/
def actionRsp (r : RunGame) (a : Action) : RobotActionRsp where
  resultCode := thirdSucc
  actionType := a.type.code
  betNum := if a.type = .raise then wrapInt32 (a.size - r.state.spent r.matchState.viewingPlayer) else 0
  errMsg := "Succ".toList
  conn := r.conn

/-- The action of the robot as the game gets it. -/
def robotAction (a : Action) : Action := ⟨a.type, if a.type = .raise then a.size else 0⟩

/-- A reply that leads to an action, and to one the game takes unless the counter is out of date. -/
def Playable (conf : Conf) (env : Env) (r : RunGame) (reply : CfrReply) : Prop :=
  ∃ a, r.replyAction conf env reply = some a ∧
    (reply.actionSeq = r.actionSeq → r.Enters conf env r.robotID a.type.code a.size)

/-- A message that neither opens a hand nor asks, bets or fails. A reply passes too, and finds the
session as it is. -/
def Idle (conf : Conf) (r : RunGame) (e : Event) : Prop :=
  match e.msg with
  | .gameBeginNotify (some pb) => r.runsMatch conf e.env pb = false
  | .gameSendCardsNotify (some pb) => r.CardsFit pb
  | .gameActionNotify (some pb) => pb.playerID = r.robotID
  | .gameRobotActionReq _ _ => False
  | .checkRunGameTimeout => e.env.now - r.lastTime ≤ conf.dataTimeout
  | _ => True

@[simp] theorem actionTypeOf_code (type : ActionType) : actionTypeOf type.code = type := by
  cases type <;> rfl

theorem code_eq_two {type : ActionType} : type.code = 2 ↔ type = .raise := by
  cases type <;> decide

theorem givenAction_robot (r : RunGame) (a : Action) :
    r.givenAction r.robotID a.type.code a.size = robotAction a := by
  unfold givenAction noteAction robotAction
  by_cases h : a.type = .raise
  · simp [h, code_eq_two]
  · simp [h, code_eq_two]

theorem noteAction_robot_betNum (r : RunGame) (a : Action) :
    (r.noteAction r.robotID a.type.code a.size).betNum = (r.actionRsp a).betNum := by
  unfold noteAction actionRsp
  by_cases h : a.type = .raise
  · simp [h, code_eq_two]
  · simp [h, code_eq_two]

end RunGame

open RunGame in
/-- What a message does to a session with a hand. -/
inductive Effect (conf : Conf) (g : Game) (r : RunGame) (e : Event) : Option RunGame → Prop
  | opened {pb : BeginNotify} {t : RunGame} (msg : e.msg = .gameBeginNotify (some pb))
      (runs : r.runsMatch conf e.env pb = true) (fresh : Opened g pb r t) (silent : e.outputs = []) :
      Effect conf g r e (some t)
  | kept {t : RunGame} (idle : r.Idle conf e) (kept : Kept r t) (runState : t.runState = r.runState)
      (noRsp : ∀ rsp, .robotActionRsp rsp ∉ e.outputs) (noRequest : ∀ q, .cfrRequest q ∉ e.outputs) :
      Effect conf g r e (some t)
  | cardsRefused {pb : CardsNotify} {t : RunGame} (msg : e.msg = .gameSendCardsNotify (some pb))
      (unfit : ¬r.CardsFit pb) (kept : Kept r t) (runState : t.runState = .errCards)
      (silent : e.outputs = []) : Effect conf g r e (some t)
  | playerMoved {pb : ActionNotify} {t : RunGame} (msg : e.msg = .gameActionNotify (some pb))
      (player : pb.playerID ≠ r.robotID)
      (enters : r.Enters conf e.env pb.playerID pb.actionType pb.betNum)
      (moved : Moved g (r.givenAction pb.playerID pb.actionType pb.betNum) r t)
      (runState : t.runState = r.runState) (silent : e.outputs = []) : Effect conf g r e (some t)
  | playerRefused {pb : ActionNotify} {t : RunGame} (msg : e.msg = .gameActionNotify (some pb))
      (player : pb.playerID ≠ r.robotID) (kept : Kept r t) (runState : t.runState = .errPlayerAction)
      (silent : e.outputs = []) : Effect conf g r e (some t)
  | asked {conn : Conn} {q : CfrRequest} {t : RunGame} (msg : e.msg = .gameRobotActionReq conn true)
      (ready : r.Ready conf e.env g) (request : r.RequestOf q) (kept : Kept r t)
      (runState : t.runState = .waitRobotAction) (sent : e.outputs = [.cfrRequest q]) :
      Effect conf g r e (some t)
  | askRefused {conn : Conn} {parsed : Bool} {text : List Char} {t : RunGame}
      (msg : e.msg = .gameRobotActionReq conn parsed)
      (unready : ¬(parsed = true ∧ r.Ready conf e.env g)) (kept : Kept r t)
      (runState : t.runState = r.runState)
      (sent : e.outputs = [.robotActionRsp (foldRsp conn text)]) : Effect conf g r e (some t)
  | replied {reply : CfrReply} {a : Action} {t : RunGame} (msg : e.msg = .queryActionResp reply)
      (waiting : r.runState = .waitRobotAction) (handID : reply.handID = r.state.handId)
      (round : reply.round = r.state.round) (actionSeq : reply.actionSeq = r.actionSeq)
      (enters : r.Enters conf e.env r.robotID a.type.code a.size)
      (moved : Moved g (robotAction a) r t) (runState : t.runState = .ok)
      (sent : e.outputs = [.robotActionRsp (r.actionRsp a)]) : Effect conf g r e (some t)
  | replyFailed {reply : CfrReply} {text : List Char} {t : RunGame}
      (msg : e.msg = .queryActionResp reply)
      (waiting : r.runState = .waitRobotAction) (handID : reply.handID = r.state.handId)
      (round : reply.round = r.state.round) (failed : ¬r.Playable conf e.env reply) (kept : Kept r t)
      (runState : t.runState = .ok) (sent : e.outputs = [.robotActionRsp (foldRsp r.conn text)]) :
      Effect conf g r e (some t)
  | timedOut {text : List Char} {t : RunGame} (msg : e.msg = .checkRunGameTimeout)
      (live : e.env.now - r.lastTime ≤ conf.dataTimeout) (waiting : r.runState = .waitRobotAction)
      (late : e.env.now - r.requestActionTime > conf.robotTimeout) (kept : Kept r t)
      (runState : t.runState = .errRobotAction)
      (sent : e.outputs = [.robotActionRsp (foldRsp r.conn text)]) : Effect conf g r e (some t)
  | deleted (msg : e.msg = .checkRunGameTimeout)
      (stale : e.env.now - r.lastTime > conf.dataTimeout) (silent : e.outputs = []) :
      Effect conf g r e none

section

variable {conf : Conf} {g : Game} {r t : RunGame} {env : Env} {outputs : List Output}

theorem RunGame.Idle.not_opening {e : Event} (h : r.Idle conf e) : ¬Opening conf r e := by
  rintro ⟨pb, hm, hruns⟩
  simp [RunGame.Idle, hm, hruns] at h

theorem gameBeginNotify_effect (hr : Running conf g r) (pb : Option BeginNotify) :
    Effect conf g r ⟨env, .gameBeginNotify pb, []⟩ (some (r.gameBeginNotify conf env pb)) := by
  cases pb with
  | none => exact .kept trivial (Kept.refl r) rfl (by simp) (by simp)
  | some pb =>
    cases hruns : r.runsMatch conf env pb with
    | true => exact .opened rfl hruns (RunGame.opened_of_runsMatch hruns hr.robotID hr.game) rfl
    | false =>
      obtain ⟨hkept, hrun⟩ := RunGame.kept_of_not_runsMatch hruns hr
      exact .kept hruns hkept hrun (by simp) (by simp)

theorem gameSendCardsNotify_effect (hr : Running conf g r) (pb : Option RunGame.CardsNotify) :
    Effect conf g r ⟨env, .gameSendCardsNotify pb, []⟩ (some (r.gameSendCardsNotify conf env pb)) := by
  cases pb with
  | none => exact .kept trivial (Kept.refl r) rfl (by simp) (by simp)
  | some pb =>
    obtain ⟨hkept, hrun⟩ := RunGame.doSaveCards_kept conf (r.touch env) pb
    have hfit := RunGame.doSaveCards_accepts_iff (r := r.touch env) hr.getGame pb
    simp only [RunGame.gameSendCardsNotify, if_neg hr.robotID]
    split
    · next hcode =>
      exact .cardsRefused rfl (fun k => hcode (hfit.mpr k))
        ((Kept.touch env r).trans (hkept.trans ⟨⟨rfl, rfl, rfl, rfl⟩, rfl, rfl⟩)) rfl rfl
    · next hcode =>
      exact .kept (hfit.mp (not_not.mp hcode)) ((Kept.touch env r).trans hkept) hrun (by simp) (by simp)

theorem gameActionNotify_effect (hr : Running conf g r) {pb : Option ActionNotify}
    (h : r.gameActionNotify conf env pb = some t) :
    Effect conf g r ⟨env, .gameActionNotify pb, []⟩ (some t) := by
  cases pb with
  | none =>
    cases h
    exact .kept trivial (Kept.refl r) rfl (by simp) (by simp)
  | some pb =>
    simp only [RunGame.gameActionNotify, if_neg hr.robotID] at h
    split at h
    · next hrobot =>
      cases h
      exact .kept hrobot.symm (Kept.touch env r) rfl (by simp) (by simp)
    · next hplayer =>
      obtain ⟨⟨done, code⟩, hdo, rfl⟩ := Option.map_eq_some_iff.mp h
      rcases RunGame.doAction_cases (r := r.touch env) hr.getGame hdo with
        ⟨hcode, _, hkept, _⟩ | ⟨hcode, henters, hmoved, hrun, _⟩
      · rw [if_pos hcode]
        exact .playerRefused rfl (Ne.symm hplayer)
          ((Kept.touch env r).trans (hkept.trans ⟨⟨rfl, rfl, rfl, rfl⟩, rfl, rfl⟩)) rfl rfl
      · rw [if_neg (not_not.mpr hcode)]
        exact .playerMoved rfl (Ne.symm hplayer) henters
          ⟨⟨hmoved.robotID, hmoved.gameType, hmoved.playerID, hmoved.viewingPlayer⟩, hmoved.act,
            hmoved.actionSeq⟩ hrun rfl

theorem gameResultNotify_effect (hr : Running conf g r) {pb : Option RunGame.EndNotify}
    (h : r.gameResultNotify conf env pb = some t) :
    Effect conf g r ⟨env, .gameResultNotify pb, []⟩ (some t) := by
  cases pb with
  | none =>
    cases h
    exact .kept trivial (Kept.refl r) rfl (by simp) (by simp)
  | some pb =>
    simp only [RunGame.gameResultNotify, if_neg hr.robotID] at h
    obtain ⟨⟨done, code⟩, hdo, rfl⟩ := Option.map_eq_some_iff.mp h
    obtain ⟨hkept, hrun⟩ := RunGame.doFinished_kept hdo
    exact .kept trivial ((Kept.touch env r).trans hkept) hrun (by simp) (by simp)

theorem gameRobotActionReq_effect (hr : Running conf g r) {conn : Conn} {parsed : Bool}
    (h : r.gameRobotActionReq conf env conn parsed = some (t, outputs)) :
    Effect conf g r ⟨env, .gameRobotActionReq conn parsed, outputs⟩ (some t) := by
  unfold RunGame.gameRobotActionReq at h
  split at h
  · next hparsed =>
    cases h
    exact .askRefused rfl (fun k => hparsed k.1) (Kept.refl r) rfl rfl
  · next hparsed =>
    obtain rfl := not_not.mp hparsed
    rw [if_neg hr.robotID] at h
    obtain ⟨⟨result, out⟩, hquery, hsent⟩ := Option.map_eq_some_iff.mp h
    unfold RunGame.doQueryRobotAction at hquery
    split at hquery
    · next hturn =>
      obtain ⟨⟨code, raises⟩, _, hresult⟩ := Option.map_eq_some_iff.mp hquery
      have unready : ¬(true = true ∧ r.Ready conf env g) := fun k => hturn k.2.2.1
      dsimp only at hresult
      split at hresult
      · cases hresult
        cases hsent
        exact .askRefused rfl unready (Kept.touch env r) rfl rfl
      · cases hresult
        cases hsent
        exact .askRefused rfl unready (Kept.touch env r) rfl rfl
    · rcases RunGame.requestActionFromCfr_cases (r := r.touch env) env hr.getGame with
        ⟨code, hrequest, unready⟩ | ⟨request, hrequest, hready, hof⟩
      · simp only [hrequest] at hquery
        cases hquery
        cases hsent
        exact .askRefused rfl (fun k => unready k.2) (Kept.touch env r) rfl rfl
      · simp only [hrequest] at hquery
        cases hquery
        cases hsent
        exact .asked rfl hready ⟨hof.robotID, hof.handID, hof.round, hof.actionSeq, hof.actionInfo⟩
          ⟨⟨rfl, rfl, rfl, rfl⟩, rfl, rfl⟩ rfl rfl

theorem queryActionResp_effect (hr : Running conf g r) {reply : CfrReply}
    (h : r.queryActionResp conf env reply = some (t, outputs)) :
    Effect conf g r ⟨env, .queryActionResp reply, outputs⟩ (some t) := by
  have ignored : Effect conf g r ⟨env, .queryActionResp reply, []⟩ (some (r.touch env)) :=
    .kept trivial (Kept.touch env r) rfl (by simp) (by simp)
  unfold RunGame.queryActionResp at h
  dsimp only at h
  split at h
  · cases h
    exact ignored
  · next hhand =>
    split at h
    · cases h
      exact ignored
    · next hround =>
      split at h
      · cases h
        exact ignored
      · next hwait =>
        split at h
        · next hnone =>
          cases h
          refine .replyFailed rfl (not_not.mp hwait) (not_not.mp hhand) (not_not.mp hround) ?_
            ⟨⟨rfl, rfl, rfl, rfl⟩, rfl, rfl⟩ rfl rfl
          rintro ⟨a, ha, _⟩
          cases hnone.symm.trans ha
        · next a ha =>
          split at h
          · cases h
            exact ignored
          · next hseq =>
            obtain ⟨⟨done, code⟩, hdo, hsent⟩ := Option.map_eq_some_iff.mp h
            rcases RunGame.doAction_cases (r := r.touch env) hr.getGame hdo with
              ⟨hcode, hstays, hkept, _⟩ | ⟨hcode, henters, hmoved, _, hlast⟩
            · rw [if_pos hcode] at hsent
              cases hsent
              refine .replyFailed rfl (not_not.mp hwait) (not_not.mp hhand) (not_not.mp hround) ?_
                ((Kept.touch env r).trans (hkept.trans ⟨⟨rfl, rfl, rfl, rfl⟩, rfl, rfl⟩)) rfl rfl
              rintro ⟨b, hb, hplay⟩
              cases ha.symm.trans hb
              exact hstays (hplay (not_not.mp hseq))
            · have hgiven := (r.touch env).givenAction_robot a
              have hbet := (r.touch env).noteAction_robot_betNum a
              rw [if_neg (not_not.mpr hcode)] at hsent
              dsimp only at hsent
              rw [hlast, hbet] at hsent
              rw [hgiven] at hmoved
              cases hsent
              exact .replied rfl (not_not.mp hwait) (not_not.mp hhand) (not_not.mp hround)
                (not_not.mp hseq) henters
                ⟨⟨hmoved.robotID, hmoved.gameType, hmoved.playerID, hmoved.viewingPlayer⟩, hmoved.act,
                  hmoved.actionSeq⟩ rfl rfl

theorem checkRunGameTimeout_effect (conf : Conf) (g : Game) (r : RunGame) (env : Env) :
    Effect conf g r ⟨env, .checkRunGameTimeout, (r.checkRunGameTimeout conf env).2⟩
      (r.checkRunGameTimeout conf env).1 := by
  unfold RunGame.checkRunGameTimeout
  split
  · next hstale => exact .deleted rfl hstale rfl
  · next hlive =>
    split
    · next hlate =>
      exact .timedOut rfl (Int.not_lt.mp hlive) hlate.1 hlate.2 ⟨⟨rfl, rfl, rfl, rfl⟩, rfl, rfl⟩ rfl rfl
    · exact .kept (Int.not_lt.mp hlive) (Kept.refl r) rfl (by simp) (by simp)

theorem gameQueryStateReq_effect {parsed : Bool}
    (h : r.gameQueryStateReq conf env parsed = some (t, outputs)) :
    Effect conf g r ⟨env, .gameQueryStateReq parsed, outputs⟩ (some t) := by
  unfold RunGame.gameQueryStateReq at h
  split at h
  · cases h
    exact .kept trivial (Kept.refl r) rfl (by simp) (by simp)
  · obtain ⟨result, _, hsent⟩ := Option.map_eq_some_iff.mp h
    cases result with
    | error code =>
      cases hsent
      exact .kept trivial (Kept.touch env r) rfl (by simp) (by simp)
    | ok rsp =>
      cases hsent
      exact .kept trivial (Kept.touch env r) rfl (by simp) (by simp)

/-- Every step of a session with a hand has one of the listed effects. -/
theorem deliver_effect (hr : Running conf g r) {e : Event} {t : Option RunGame}
    (h : r.deliver conf e.env e.msg = some (t, e.outputs)) : Effect conf g r e t := by
  obtain ⟨env, msg, outputs⟩ := e
  dsimp only at h
  cases msg with
  | gameBeginNotify pb =>
    cases h
    exact gameBeginNotify_effect hr pb
  | gameSendCardsNotify pb =>
    cases h
    exact gameSendCardsNotify_effect hr pb
  | gameActionNotify pb =>
    obtain ⟨t, ht, k⟩ := Option.map_eq_some_iff.mp h
    cases k
    exact gameActionNotify_effect hr ht
  | gameResultNotify pb =>
    obtain ⟨t, ht, k⟩ := Option.map_eq_some_iff.mp h
    cases k
    exact gameResultNotify_effect hr ht
  | gameRobotActionReq conn parsed =>
    obtain ⟨⟨t, sent⟩, ht, k⟩ := Option.map_eq_some_iff.mp h
    cases k
    exact gameRobotActionReq_effect hr ht
  | queryActionResp reply =>
    obtain ⟨⟨t, sent⟩, ht, k⟩ := Option.map_eq_some_iff.mp h
    cases k
    exact queryActionResp_effect hr ht
  | checkRunGameTimeout =>
    have heffect := checkRunGameTimeout_effect conf g r env
    rwa [show r.checkRunGameTimeout conf env = (t, outputs) from Option.some.inj h] at heffect
  | gameQueryStateReq parsed =>
    obtain ⟨⟨t, sent⟩, ht, k⟩ := Option.map_eq_some_iff.mp h
    cases k
    exact gameQueryStateReq_effect ht

end

end MasterAI
