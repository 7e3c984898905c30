import MasterAI.SessionRuns

namespace MasterAI

def Output.isRsp : Output → Bool
  | .robotActionRsp _ => true
  | _ => false

/-- The step sends a `ThirdRobotActionRsp`. -/
def Event.answers (e : Event) : Bool := e.outputs.any Output.isRsp

def Msg.isBegin : Msg → Bool
  | .gameBeginNotify _ => true
  | _ => false

/-- The step takes the session out of the waiting state. A deleted session does not wait. -/
def leavesWaiting (m : SessionMove) : Bool :=
  m.pre.any (fun r => r.runState = .waitRobotAction) && !m.post.any fun t => t.runState = .waitRobotAction

instance (pb : RunGame.CardsNotify) : Decidable (RunGame.RoundCards pb) :=
  inferInstanceAs (Decidable (_ ∨ _ ∨ _))

instance (r : RunGame) (pb : RunGame.CardsNotify) : Decidable (r.CardsFit pb) :=
  inferInstanceAs (Decidable (_ ∧ _))

/-- The message does not disturb a session that waits for the answer of the robot. -/
def RunGame.tends (conf : Conf) (r : RunGame) (e : Event) : Bool :=
  match e.msg with
  | .gameActionNotify (some pb) => pb.playerID = r.robotID
  | .gameSendCardsNotify (some pb) => r.CardsFit pb
  | .checkRunGameTimeout => e.env.now - r.lastTime ≤ conf.dataTimeout
  | _ => true

def tended (conf : Conf) (m : SessionMove) : Bool :=
  m.pre.all fun r => r.runState ≠ .waitRobotAction || r.tends conf m.event

section

variable {conf : Conf} {g : Game} {first : BeginNotify} {trace : List SessionMove} {s : Option RunGame}
  {r : RunGame} {e : Event} {t : Option RunGame}

theorem answers_of_rsp {rsp : RobotActionRsp} (h : e.outputs = [.robotActionRsp rsp]) :
    e.answers = true := by
  simp [Event.answers, h, Output.isRsp]

theorem not_answers_of_silent (h : e.outputs = []) : e.answers = false := by
  simp [Event.answers, h]

theorem not_answers_of_noRsp (h : ∀ rsp, .robotActionRsp rsp ∉ e.outputs) : e.answers = false := by
  rw [Event.answers, List.any_eq_false]
  intro o ho
  cases o with
  | robotActionRsp rsp => exact absurd ho (h rsp)
  | cfrRequest _ => simp [Output.isRsp]
  | queryStateRsp _ => simp [Output.isRsp]

theorem RunGame.Idle.tends (h : r.Idle conf e) : r.tends conf e = true := by
  obtain ⟨env, msg, outputs⟩ := e
  cases msg with
  | gameSendCardsNotify pb =>
    cases pb with
    | none => rfl
    | some pb => exact decide_eq_true h
  | gameActionNotify pb =>
    cases pb with
    | none => rfl
    | some pb => exact decide_eq_true h
  | checkRunGameTimeout => exact decide_eq_true h
  | _ => rfl

/-- A step of a waiting session is answered, keeps it waiting or opens a hand, unless the message
disturbs it. -/
theorem Effect.tends_iff (h : Effect conf g r e t) (hwait : r.runState = .waitRobotAction)
    (hturn : r.getCurrentPlayerID conf = r.robotID) :
    r.tends conf e = true ↔
      (e.msg.isBegin = false → t.any (fun t => t.runState = .waitRobotAction) = false → e.answers = true) := by
  cases h with
  | opened msg _ _ _ => simp [RunGame.tends, msg, Msg.isBegin]
  | kept idle _ runState _ _ => simp [idle.tends, runState, hwait]
  | cardsRefused msg unfit kept runState silent =>
    simp [RunGame.tends, msg, Msg.isBegin, unfit, runState, not_answers_of_silent silent]
  | playerMoved msg player enters _ _ _ =>
    obtain ⟨_, _, hplayer, _⟩ := enters
    exact absurd (hplayer.symm.trans hturn) player
  | playerRefused msg player kept runState silent =>
    simp [RunGame.tends, msg, Msg.isBegin, player, runState, not_answers_of_silent silent]
  | asked _ ready _ _ _ _ => simp [ready.1] at hwait
  | askRefused msg _ _ _ sent => simp [RunGame.tends, msg, answers_of_rsp sent]
  | replied msg _ _ _ _ _ _ _ sent => simp [RunGame.tends, msg, answers_of_rsp sent]
  | replyFailed msg _ _ _ _ _ _ sent => simp [RunGame.tends, msg, answers_of_rsp sent]
  | timedOut msg live _ _ _ _ sent => simp [RunGame.tends, msg, live, answers_of_rsp sent]
  | deleted msg stale silent =>
    have hstale : ¬e.env.now - r.lastTime ≤ conf.dataTimeout := by omega
    simp only [RunGame.tends, msg, hstale, decide_false, not_answers_of_silent silent]
    simp [Msg.isBegin]

/-- Every step that takes a session out of the waiting state answers, but for a new hand, exactly
when no message disturbs a waiting session: no action of another player, no cards that do not fit
the round and no check that finds the session out of date. -/
theorem answered_iff_tended (run : SessionRun conf first trace s) :
    (∀ m ∈ trace, m.event.msg.isBegin = false → leavesWaiting m = true → m.event.answers = true) ↔
      ∀ m ∈ trace, tended conf m = true := by
  obtain ⟨g, hg⟩ := SessionRun.game run
  have pointwise : ∀ m ∈ trace,
      (m.event.msg.isBegin = false → leavesWaiting m = true → m.event.answers = true) ↔
        tended conf m = true := by
    intro m hm
    obtain ⟨newer, older, htrace⟩ := List.append_of_mem hm
    obtain ⟨r, hr, hrun, _, heffect⟩ := SessionRun.move run htrace hg
    by_cases hwait : r.runState = .waitRobotAction
    · have htends := heffect.tends_iff hwait (SessionRun.waitsInTurn hrun hwait)
      simpa [leavesWaiting, tended, hr, hwait] using htends.symm
    · simp [leavesWaiting, tended, hr, hwait]
  exact ⟨fun h m hm => (pointwise m hm).mp (h m hm), fun h m hm => (pointwise m hm).mpr (h m hm)⟩

end

/-- The robot is asked, its cards come and the request runs into its time limit. -/
def latePlay : List (Env × Msg) :=
  [(callingEnv 1, .gameRobotActionReq tableConn true),
    (callingEnv 2, .gameSendCardsNotify (some ⟨0, [0x0e, 0x1e], []⟩)),
    (callingEnv 20, .checkRunGameTimeout)]

theorem answered_latePlay :
    (∀ m ∈ (tableRun (robotButton 1) latePlay).1,
      m.event.msg.isBegin = false → leavesWaiting m = true → m.event.answers = true) ∧
      ∃ m ∈ (tableRun (robotButton 1) latePlay).1, leavesWaiting m = true :=
  ⟨(answered_iff_tended (tableRun_run (robotButton 1) latePlay)).mpr (by decide +kernel),
    by decide +kernel⟩

/-- The player acts out of turn while the robot is asked. The session leaves the waiting state
without an answer, and neither the reply nor the time limit brings one later. -/
theorem player_out_of_turn_abandons :
    ∃ first trace s, SessionRun tableConf first trace s ∧
      (∃ m ∈ trace, m.event.msg.isBegin = false ∧ leavesWaiting m = true ∧ m.event.answers = false) ∧
      ∀ m ∈ trace, m.event.answers = false :=
  ⟨robotButton 1, _, _,
    tableRun_run (robotButton 1)
      (preflopPlay ++
        [(callingEnv 3, .gameActionNotify (some ⟨playerSeat, 1, 0⟩)),
          (callingEnv 4, replyAfter (robotButton 1) preflopPlay),
          (callingEnv 20, .checkRunGameTimeout)]),
    by decide +kernel, by decide +kernel⟩

end MasterAI
