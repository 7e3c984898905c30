import MasterAI.RequestAnswers

namespace MasterAI

def Msg.asks : Msg → Bool
  | .gameRobotActionReq _ _ => true
  | _ => false

/-- A request that `ParseFromArray` accepts. -/
def Msg.asksParsed : Msg → Bool
  | .gameRobotActionReq _ parsed => parsed
  | _ => false

/-- The table of the actions of a hand, which names its decision points. -/
def RunGame.actions (r : RunGame) : List (List (Action × Nat)) := (List.range maxRounds).map r.state.action

def metActions (m : SessionMove) : Option (List (List (Action × Nat))) := m.pre.map RunGame.actions

def inTurn (conf : Conf) (m : SessionMove) : Bool :=
  m.pre.any fun r => r.getCurrentPlayerID conf = r.robotID

/-- A request is well formed, in the turn of the robot and the first of its decision point. -/
def FirstAsk (conf : Conf) (older : List SessionMove) (m : SessionMove) : Prop :=
  m.event.msg.asks = true →
    m.event.msg.asksParsed = true ∧ inTurn conf m = true ∧
      ∀ m' ∈ handMoves conf older, m'.event.msg.asks = true → metActions m' ≠ metActions m

/-- An answer is the only one of its move, in the turn of the robot and the first of its decision
point. -/
def FirstAnswer (conf : Conf) (older : List SessionMove) (m : SessionMove) : Prop :=
  m.event.answers = true →
    m.event.outputs.countP Output.isRsp = 1 ∧ inTurn conf m = true ∧
      ∀ m' ∈ handMoves conf older, m'.event.answers = true → metActions m' ≠ metActions m

instance (conf : Conf) (older : List SessionMove) (m : SessionMove) : Decidable (FirstAsk conf older m) :=
  inferInstanceAs (Decidable (_ → _))

instance (conf : Conf) (older : List SessionMove) (m : SessionMove) : Decidable (FirstAnswer conf older m) :=
  inferInstanceAs (Decidable (_ → _))

section

variable {conf : Conf} {g : Game} {first : BeginNotify} {trace older : List SessionMove}
  {s : Option RunGame} {r t : RunGame} {e : Event} {m : SessionMove}

/-- Answers come from requests of the same decision point, and a session that waits has asked and
not yet answered at its own. -/
structure AskInv (conf : Conf) (trace : List SessionMove) (r : RunGame) : Prop where
  waitsInTurn : WaitsInTurn conf trace r
  asked : ∀ m ∈ handMoves conf trace, m.event.answers = true →
    ∃ m' ∈ handMoves conf trace, m'.event.msg.asks = true ∧ metActions m' = metActions m
  pending : r.runState = .waitRobotAction →
    (∃ m ∈ handMoves conf trace, m.event.msg.asks = true ∧ metActions m = some r.actions) ∧
      ∀ m ∈ handMoves conf trace, m.event.answers = true → metActions m ≠ some r.actions

theorem Kept.actions (h : Kept r t) : t.actions = r.actions := by
  simp [RunGame.actions, h.table.action]

theorem FirstAsk.unanswered {post : Option RunGame} (h : FirstAsk conf older ⟨some r, e, post⟩)
    (inv : AskInv conf older r) (hask : e.msg.asks = true) :
    inTurn conf ⟨some r, e, post⟩ = true ∧ r.runState ≠ .waitRobotAction ∧
      ∀ m ∈ handMoves conf older, m.event.answers = true → metActions m ≠ some r.actions := by
  obtain ⟨_, hturn, hfirst⟩ := h hask
  refine ⟨hturn, ?_, ?_⟩
  · intro hwait
    obtain ⟨⟨m, hm, hasks, hmet⟩, _⟩ := inv.pending hwait
    exact hfirst m hm hasks hmet
  · intro m hm hanswers hmet
    obtain ⟨m', hm', hasks, hmet'⟩ := inv.asked m hm hanswers
    exact hfirst m' hm' hasks (hmet'.trans hmet)

theorem AskInv.asked_cons (inv : AskInv conf older r) {m : SessionMove}
    (hm : m.event.answers = true → ∃ m' ∈ m :: handMoves conf older,
      m'.event.msg.asks = true ∧ metActions m' = metActions m) :
    ∀ n ∈ m :: handMoves conf older, n.event.answers = true →
      ∃ m' ∈ m :: handMoves conf older, m'.event.msg.asks = true ∧ metActions m' = metActions n := by
  intro n hn hanswers
  rcases List.mem_cons.mp hn with rfl | hn
  · exact hm hanswers
  · obtain ⟨m', hm', hasks, hmet⟩ := inv.asked n hn hanswers
    exact ⟨m', List.mem_cons_of_mem _ hm', hasks, hmet⟩

/-- A move without an answer after which the session waits only as it did before. -/
theorem AskInv.silent (inv : AskInv conf older r) (hturn : WaitsInTurn conf (⟨some r, e, some t⟩ :: older) t)
    (hgoing : opening conf ⟨some r, e, some t⟩ = false) (hsilent : e.answers = false)
    (hwait : t.runState = .waitRobotAction → r.runState = .waitRobotAction ∧ t.actions = r.actions) :
    AskInv conf (⟨some r, e, some t⟩ :: older) t := by
  refine ⟨hturn, ?_, ?_⟩
  · rw [handMoves_of_not_opening hgoing]
    exact inv.asked_cons fun hanswers => by cases hsilent.symm.trans hanswers
  · rw [handMoves_of_not_opening hgoing]
    intro hwaits
    obtain ⟨hr, hactions⟩ := hwait hwaits
    obtain ⟨⟨m, hm, hasks, hmet⟩, hfirst⟩ := inv.pending hr
    rw [hactions]
    refine ⟨⟨m, List.mem_cons_of_mem _ hm, hasks, hmet⟩, ?_⟩
    intro m' hm' hanswers
    rcases List.mem_cons.mp hm' with rfl | hm'
    · cases hsilent.symm.trans hanswers
    · exact hfirst m' hm' hanswers

/-- A move with an answer to a request of its own decision point. -/
theorem AskInv.answer (inv : AskInv conf older r) (hgoing : opening conf ⟨some r, e, some t⟩ = false)
    (hasked : ∃ m ∈ (⟨some r, e, some t⟩ : SessionMove) :: handMoves conf older,
      m.event.msg.asks = true ∧ metActions m = some r.actions)
    (hrest : t.runState ≠ .waitRobotAction) : AskInv conf (⟨some r, e, some t⟩ :: older) t := by
  refine ⟨fun hwait => absurd hwait hrest, ?_, fun hwait => absurd hwait hrest⟩
  rw [handMoves_of_not_opening hgoing]
  exact inv.asked_cons fun _ => hasked

/-- The first request of a decision point, which the session now waits for. -/
theorem AskInv.ask (inv : AskInv conf older r) (hturn : WaitsInTurn conf (⟨some r, e, some t⟩ :: older) t)
    (hgoing : opening conf ⟨some r, e, some t⟩ = false) (hask : FirstAsk conf older ⟨some r, e, some t⟩)
    (hasks : e.msg.asks = true) (hsilent : e.answers = false) (hactions : t.actions = r.actions) :
    AskInv conf (⟨some r, e, some t⟩ :: older) t := by
  obtain ⟨_, _, hfirst⟩ := hask.unanswered inv hasks
  refine ⟨hturn, ?_, ?_⟩
  · rw [handMoves_of_not_opening hgoing]
    exact inv.asked_cons fun hanswers => by cases hsilent.symm.trans hanswers
  · rw [handMoves_of_not_opening hgoing, hactions]
    intro _
    refine ⟨⟨_, List.mem_cons_self, hasks, rfl⟩, ?_⟩
    intro m hm hanswers
    rcases List.mem_cons.mp hm with rfl | hm
    · cases hsilent.symm.trans hanswers
    · exact hfirst m hm hanswers

theorem AskInv.keep (inv : AskInv conf older r) (hask : FirstAsk conf older ⟨some r, e, some t⟩)
    (heffect : Effect conf g r e (some t)) : AskInv conf (⟨some r, e, some t⟩ :: older) t := by
  have hturn : WaitsInTurn conf (⟨some r, e, some t⟩ :: older) t := inv.waitsInTurn.keep heffect
  have pending : r.runState = .waitRobotAction →
      ∃ m ∈ (⟨some r, e, some t⟩ : SessionMove) :: handMoves conf older,
        m.event.msg.asks = true ∧ metActions m = some r.actions := by
    intro hwait
    obtain ⟨m, hm, hasks, hmet⟩ := (inv.pending hwait).1
    exact ⟨m, List.mem_cons_of_mem _ hm, hasks, hmet⟩
  cases heffect with
  | opened msg runs fresh _ =>
    have hopens : opening conf ⟨some r, e, some t⟩ = true := opening_iff.mpr ⟨_, msg, runs⟩
    exact ⟨hturn, by simp [handMoves_of_opening hopens], by simp [fresh.runState]⟩
  | kept idle kept runState noRsp _ =>
    exact inv.silent hturn idle.opening (not_answers_of_noRsp noRsp) fun hwait => ⟨runState ▸ hwait, kept.actions⟩
  | cardsRefused msg _ _ runState silent =>
    exact inv.silent hturn (opening_of_msg msg (by simp)) (not_answers_of_silent silent) (by simp [runState])
  | playerMoved msg player enters _ runState silent =>
    obtain ⟨_, _, hplayer, _⟩ := enters
    refine inv.silent hturn (opening_of_msg msg (by simp)) (not_answers_of_silent silent) ?_
    intro hwait
    exact absurd (hplayer.symm.trans (inv.waitsInTurn (runState ▸ hwait))) player
  | playerRefused msg _ _ runState silent =>
    exact inv.silent hturn (opening_of_msg msg (by simp)) (not_answers_of_silent silent) (by simp [runState])
  | asked msg _ _ kept _ sent =>
    exact inv.ask hturn (opening_of_msg msg (by simp)) hask (by simp [msg, Msg.asks])
      (by simp [Event.answers, sent, Output.isRsp]) kept.actions
  | askRefused msg _ _ runState sent =>
    have hasks : e.msg.asks = true := by simp [msg, Msg.asks]
    obtain ⟨_, hrest, _⟩ := hask.unanswered inv hasks
    exact inv.answer (opening_of_msg msg (by simp)) ⟨_, List.mem_cons_self, hasks, rfl⟩ (runState ▸ hrest)
  | replied msg waiting _ _ _ _ _ runState _ =>
    exact inv.answer (opening_of_msg msg (by simp)) (pending waiting) (by simp [runState])
  | replyFailed msg waiting _ _ _ _ runState _ =>
    exact inv.answer (opening_of_msg msg (by simp)) (pending waiting) (by simp [runState])
  | timedOut msg _ waiting _ _ runState _ =>
    exact inv.answer (opening_of_msg msg (by simp)) (pending waiting) (by simp [runState])

theorem AskInv.firstAnswer {post : Option RunGame} (inv : AskInv conf older r)
    (hask : FirstAsk conf older ⟨some r, e, post⟩) (heffect : Effect conf g r e post) :
    FirstAnswer conf older ⟨some r, e, post⟩ := by
  intro hanswers
  have waiting : ∀ rsp, e.outputs = [.robotActionRsp rsp] → r.runState = .waitRobotAction →
      e.outputs.countP Output.isRsp = 1 ∧ inTurn conf ⟨some r, e, post⟩ = true ∧
        ∀ m' ∈ handMoves conf older, m'.event.answers = true → metActions m' ≠ some r.actions := by
    intro rsp sent hwait
    exact ⟨by simp [sent, Output.isRsp], decide_eq_true (inv.waitsInTurn hwait), (inv.pending hwait).2⟩
  dsimp only at hanswers
  cases heffect with
  | opened _ _ _ silent => cases (not_answers_of_silent silent).symm.trans hanswers
  | kept _ _ _ noRsp _ => cases (not_answers_of_noRsp noRsp).symm.trans hanswers
  | cardsRefused _ _ _ _ silent => cases (not_answers_of_silent silent).symm.trans hanswers
  | playerMoved _ _ _ _ _ silent => cases (not_answers_of_silent silent).symm.trans hanswers
  | playerRefused _ _ _ _ silent => cases (not_answers_of_silent silent).symm.trans hanswers
  | asked _ _ _ _ _ sent => simp [Event.answers, sent, Output.isRsp] at hanswers
  | askRefused msg _ _ _ sent =>
    obtain ⟨hturn, _, hfirst⟩ := hask.unanswered inv (by simp [msg, Msg.asks])
    exact ⟨by simp [sent, Output.isRsp], hturn, hfirst⟩
  | replied _ hwait _ _ _ _ _ _ sent => exact waiting _ sent hwait
  | replyFailed _ hwait _ _ _ _ _ sent => exact waiting _ sent hwait
  | timedOut _ _ hwait _ _ _ sent => exact waiting _ sent hwait
  | deleted _ _ silent => cases (not_answers_of_silent silent).symm.trans hanswers

theorem SessionRun.askInv (run : SessionRun conf first trace (some r)) (hg : conf.getGame gameTypeNoLimit2P = some g)
    (asks : Guarded (FirstAsk conf) trace) : AskInv conf trace r := by
  refine (SessionRun.rule (AskInv conf) run hg asks ?_ ?_).2
  · intro prior t fresh
    exact ⟨by simp [WaitsInTurn, fresh.runState], by simp [handMoves], by simp [fresh.runState]⟩
  · intro older r e t _ inv hask heffect
    exact inv.keep hask heffect

/-- When every request is well formed, in turn and the first of its decision point, the client gets
at most one answer for each decision point and none out of the turn of the robot. -/
theorem answers_once (run : SessionRun conf first trace s) (asks : Guarded (FirstAsk conf) trace) :
    Guarded (FirstAnswer conf) trace := by
  obtain ⟨g, hg⟩ := SessionRun.game run
  induction run with
  | start => trivial
  | next run hstep ih =>
    refine ⟨?_, ih asks.2⟩
    obtain ⟨r, rfl, hdeliver⟩ := hstep
    exact (SessionRun.askInv run hg asks.2).firstAnswer asks.1 (deliver_effect (SessionRun.running run hg) hdeliver)

end

theorem answers_once_callingPlay :
    Guarded (FirstAnswer tableConf) (tableRun (robotButton 1) callingPlay).1 ∧
      (tableRun (robotButton 1) callingPlay).1.countP (fun m => m.event.answers) = 2 :=
  ⟨answers_once (tableRun_run (robotButton 1) callingPlay) (by decide +kernel), by decide +kernel⟩

/-- The request is repeated while the first one waits for the CFR server. The repetition is answered
with a fold and the first one with the action of the reply. -/
theorem repeated_request_answered_twice :
    ∃ first trace s, SessionRun tableConf first trace s ∧ ¬Guarded (FirstAnswer tableConf) trace :=
  ⟨robotButton 1, _, _,
    tableRun_run (robotButton 1)
      (preflopPlay ++
        [(callingEnv 3, .gameRobotActionReq tableConn true),
          (callingEnv 4, replyAfter (robotButton 1) preflopPlay)]),
    by decide +kernel⟩

end MasterAI
