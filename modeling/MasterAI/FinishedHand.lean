import MasterAI.RequestAnswers

namespace MasterAI

/-- A fold or a call of the player with number 0. -/
def Msg.stray : Msg → Bool
  | .gameActionNotify (some pb) => pb.playerID = 0 && (pb.actionType = 0 || pb.actionType = 1)
  | _ => false

/-- The handler of the message enters `doAction` of the game. -/
def RunGame.EntersGame (conf : Conf) (r : RunGame) (e : Event) : Prop :=
  match e.msg with
  | .gameActionNotify (some pb) =>
    pb.playerID ≠ r.robotID ∧ r.Enters conf e.env pb.playerID pb.actionType pb.betNum
  | .queryActionResp reply =>
    ∃ a, reply.handID = r.state.handId ∧ reply.round = r.state.round ∧
      r.runState = .waitRobotAction ∧ r.replyAction conf e.env reply = some a ∧
      reply.actionSeq = r.actionSeq ∧ r.Enters conf e.env r.robotID a.type.code a.size
  | _ => False

section

variable {conf : Conf} {g : Game} {trace : List SessionMove} {s : Option RunGame} {r t : RunGame} {e : Event}

theorem getCurrentPlayerID_finished (conf : Conf) (h : r.state.finished = true) :
    r.getCurrentPlayerID conf = 0 := by
  simp [RunGame.getCurrentPlayerID, h]

theorem actionTypeOf_eq_fold {n : Int} : RunGame.actionTypeOf n = .fold ↔ n = 0 := by
  unfold RunGame.actionTypeOf
  split
  · simp [*]
  · split
    · simp [*]
    · split <;> simp [*]

theorem actionTypeOf_eq_call {n : Int} : RunGame.actionTypeOf n = .call ↔ n = 1 := by
  unfold RunGame.actionTypeOf
  split
  · simp [*]
  · split
    · simp [*]
    · split <;> simp [*]

/-- On a finished hand the error value of the turn passes for a player, and only raises are checked. -/
theorem enters_finished_iff {env : Env} (hr : Running conf g r) (hfin : r.state.finished = true)
    (actionUid actionType betNum : Int) :
    r.Enters conf env actionUid actionType betNum ↔ actionUid = 0 ∧ (actionType = 0 ∨ actionType = 1) := by
  have hturn := getCurrentPlayerID_finished conf hfin
  constructor
  · rintro ⟨g', _, hplayer, hcheck⟩
    refine ⟨hplayer ▸ hturn, ?_⟩
    unfold RunGame.checkAction at hcheck
    cases htype : RunGame.actionTypeOf actionType with
    | fold => exact .inl (actionTypeOf_eq_fold.mp htype)
    | call => exact .inr (actionTypeOf_eq_call.mp htype)
    | raise => simp [RunGame.givenAction, htype, isValidAction, hfin] at hcheck
    | invalid => simp [RunGame.givenAction, htype] at hcheck
  · rintro ⟨rfl, htype⟩
    refine ⟨g, hr.getGame, hturn, ?_⟩
    unfold RunGame.checkAction
    rcases htype with rfl | rfl
    · rfl
    · rfl

theorem entersGame_finished_iff (hr : Running conf g r) (hfin : r.state.finished = true) :
    r.EntersGame conf e ↔ e.msg.stray = true := by
  obtain ⟨env, msg, outputs⟩ := e
  cases msg with
  | gameActionNotify pb =>
    cases pb with
    | none => simp [RunGame.EntersGame, Msg.stray]
    | some pb =>
      simp only [RunGame.EntersGame, enters_finished_iff hr hfin, Msg.stray, Bool.and_eq_true,
        Bool.or_eq_true, decide_eq_true_eq]
      refine ⟨fun h => h.2, fun h => ⟨?_, h⟩⟩
      rw [h.1]
      exact Ne.symm hr.robotID
  | queryActionResp reply =>
    simp only [RunGame.EntersGame, enters_finished_iff hr hfin, Msg.stray]
    constructor
    · rintro ⟨a, _, _, _, _, _, hrobot, _⟩
      exact absurd hrobot hr.robotID
    · simp
  | _ => simp [RunGame.EntersGame, Msg.stray]

theorem finished_of_doAction {a : Action} {u v : State} {ended : Bool}
    (h : doAction g a u = some (v, ended)) (hfin : u.finished = true) : v.finished = true := by
  obtain ⟨_, _, w, hw, _, hend⟩ := doAction_cases h
  have hwfin : w.finished = true := (bet_record hw).finished.trans hfin
  cases hend with
  | goOn _ _ _ hsame _ => exact hsame.trans hwfin
  | lastPlayer _ _ hdone => exact hdone
  | lastRound _ _ _ hdone => exact hdone
  | showdown _ _ hdone => exact hdone
  | newRound _ _ _ _ hsame _ => exact hsame.trans hwfin

theorem Moved.finished {a : Action} (h : Moved g a r t) (hfin : r.state.finished = true) :
    t.state.finished = true := by
  obtain ⟨ended, hdo⟩ := h.act
  exact finished_of_doAction hdo hfin

/-- A message of a finished hand changes no bet unless it is a stray action. -/
theorem Effect.finished_cases (hr : Running conf g r) (hfin : r.state.finished = true)
    (hbegin : e.msg.isBegin = false) (h : Effect conf g r e (some t)) :
    Kept r t ∨ (e.msg.stray = true ∧ ∃ a, Moved g a r t) := by
  cases h with
  | opened msg _ _ _ =>
    rw [msg] at hbegin
    cases hbegin
  | kept _ kept _ _ _ => exact .inl kept
  | cardsRefused _ _ kept _ _ => exact .inl kept
  | playerMoved msg player enters moved _ _ =>
    refine .inr ⟨(entersGame_finished_iff hr hfin).mp ?_, _, moved⟩
    simp only [RunGame.EntersGame, msg]
    exact ⟨player, enters⟩
  | playerRefused _ _ kept _ _ => exact .inl kept
  | asked _ _ _ kept _ _ => exact .inl kept
  | askRefused _ _ kept _ _ => exact .inl kept
  | replied _ _ _ _ _ enters _ _ _ =>
    exact absurd ((enters_finished_iff hr hfin _ _ _).mp enters).1 hr.robotID
  | replyFailed _ _ _ _ _ kept _ _ => exact .inl kept
  | timedOut _ _ _ _ kept _ _ => exact .inl kept

/-- A session whose hand is finished. -/
def FinishedSession (conf : Conf) (g : Game) (s : Option RunGame) : Prop :=
  ∀ t, s = some t → Running conf g t ∧ t.state.finished = true

/-- A session whose hand is finished with the bets of `r`. -/
def FrozenSession (conf : Conf) (g : Game) (r : RunGame) (s : Option RunGame) : Prop :=
  ∀ t, s = some t → Running conf g t ∧ t.state.finished = true ∧ Kept r t

theorem FinishedSession.step {m : SessionMove} (hstep : SessionStep conf m.pre m.event m.post)
    (hbegin : m.event.msg.isBegin = false) (h : FinishedSession conf g m.pre) :
    FinishedSession conf g m.post := by
  intro t ht
  obtain ⟨q, hq, hdeliver⟩ := hstep
  obtain ⟨hr, hfin⟩ := h q hq
  have heffect := deliver_effect hr hdeliver
  rw [ht] at heffect
  refine ⟨heffect.running hr, ?_⟩
  rcases heffect.finished_cases hr hfin hbegin with hkept | ⟨_, a, hmoved⟩
  · exact hkept.table.finished.trans hfin
  · exact hmoved.finished hfin

theorem FrozenSession.step {m : SessionMove} (hstep : SessionStep conf m.pre m.event m.post)
    (hguard : m.event.msg.isBegin = false ∧ m.event.msg.stray = false) (h : FrozenSession conf g r m.pre) :
    FrozenSession conf g r m.post := by
  intro t ht
  obtain ⟨q, hq, hdeliver⟩ := hstep
  obtain ⟨hr, hfin, hkept⟩ := h q hq
  have heffect := deliver_effect hr hdeliver
  rw [ht] at heffect
  rcases heffect.finished_cases hr hfin hguard.1 with hkept' | ⟨hstray, _⟩
  · exact ⟨heffect.running hr, hkept'.table.finished.trans hfin, hkept.trans hkept'⟩
  · cases hguard.2.symm.trans hstray

/-- The messages up to the next hand leave the bets of a finished hand alone and never reach
`doAction` exactly when none of them is a fold or a call of player 0; such a message always gets
through. -/
theorem frozen_iff_no_stray (run : StepRun (SessionStep conf) (fun s => s = some r) trace s)
    (hr : Running conf g r) (hfin : r.state.finished = true)
    (hbegin : ∀ m ∈ trace, m.event.msg.isBegin = false) :
    ((∀ m ∈ trace,
        (∀ t, m.post = some t → SameTable r.state t.state ∧ t.actionSeq = r.actionSeq) ∧
          ∀ q, m.pre = some q → ¬q.EntersGame conf m.event) ↔
      ∀ m ∈ trace, m.event.msg.stray = false) ∧
    ∀ t, s = some t → ∀ e, t.EntersGame conf e ↔ e.msg.stray = true := by
  have finished : ∀ {trace s}, StepRun (SessionStep conf) (fun s => s = some r) trace s →
      (∀ m ∈ trace, m.event.msg.isBegin = false) → FinishedSession conf g s := by
    intro trace s run hbegin
    refine run.invariant hbegin ?_ fun m => FinishedSession.step
    rintro s rfl t ht
    cases ht
    exact ⟨hr, hfin⟩
  have frozen : ∀ {trace s}, StepRun (SessionStep conf) (fun s => s = some r) trace s →
      (∀ m ∈ trace, m.event.msg.isBegin = false ∧ m.event.msg.stray = false) → FrozenSession conf g r s := by
    intro trace s run hguard
    refine run.invariant hguard ?_ fun m => FrozenSession.step
    rintro s rfl t ht
    cases ht
    exact ⟨hr, hfin, Kept.refl r⟩
  have enters_iff : ∀ m ∈ trace, ∀ q, m.pre = some q →
      (q.EntersGame conf m.event ↔ m.event.msg.stray = true) := by
    intro m hm q hq
    obtain ⟨newer, older, rfl⟩ := List.append_of_mem hm
    have hpre := finished (run.split rfl) fun n hn => hbegin n (by simp [hn])
    exact entersGame_finished_iff (hpre q hq).1 (hpre q hq).2
  refine ⟨⟨fun h m hm => ?_, fun h m hm => ⟨fun t ht => ?_, fun q hq => ?_⟩⟩, fun t ht e => ?_⟩
  · obtain ⟨q, hq, _⟩ := run.step_of_mem hm
    rw [← Bool.not_eq_true, ← enters_iff m hm q hq]
    exact (h m hm).2 q hq
  · obtain ⟨newer, older, rfl⟩ := List.append_of_mem hm
    have hprefix : StepRun (SessionStep conf) (fun s => s = some r) (m :: older) m.post :=
      .next (run.split rfl) (run.step_of_mem hm)
    have hkept := (frozen hprefix (fun n hn => ?_) t ht).2.2
    · exact ⟨hkept.table, hkept.actionSeq⟩
    · have hmem : n ∈ newer ++ m :: older := by
        rcases List.mem_cons.mp hn with rfl | hn
        · simp
        · simp [hn]
      exact ⟨hbegin n hmem, h n hmem⟩
  · rw [enters_iff m hm q hq, h m hm]
    simp
  · obtain ⟨hrt, hfint⟩ := finished run hbegin t ht
    exact entersGame_finished_iff hrt hfint

end

/-- The player folds at once. -/
def foldPlay : List (Env × Msg) := [(callingEnv 1, .gameActionNotify (some ⟨playerSeat, 0, 0⟩))]

def foldedHand : RunGame := (tableRun (playerButton 1) foldPlay).2.get (by decide +kernel)

theorem foldedHand_run :
    SessionRun tableConf (playerButton 1) (tableRun (playerButton 1) foldPlay).1 (some foldedHand) := by
  rw [foldedHand, Option.some_get]
  exact tableRun_run (playerButton 1) foldPlay

theorem foldedHand_running : Running tableConf holdem foldedHand :=
  ⟨by decide +kernel, by decide +kernel, rfl⟩

theorem foldedHand_start :
    StepRun (SessionStep tableConf) (fun s => s = some foldedHand) [] (some foldedHand) :=
  .start rfl

/-- A raise of player 0, a request and a reply after the end of the hand. -/
def afterPlay : List (Env × Msg) :=
  [(callingEnv 2, .gameActionNotify (some ⟨0, 2, 5⟩)), (callingEnv 3, .gameRobotActionReq tableConn true),
    (callingEnv 4, replyAfter (playerButton 1) foldPlay)]

theorem frozen_foldedHand :
    (followed tableConf afterPlay ([], some foldedHand)).1.length = 3 ∧
    ∀ m ∈ (followed tableConf afterPlay ([], some foldedHand)).1,
      (∀ t, m.post = some t → SameTable foldedHand.state t.state ∧ t.actionSeq = foldedHand.actionSeq) ∧
        ∀ q, m.pre = some q → ¬q.EntersGame tableConf m.event :=
  ⟨by decide +kernel,
    (frozen_iff_no_stray (followed_run afterPlay foldedHand_start) foldedHand_running (by decide +kernel)
      (by decide +kernel)).1.mpr (by decide +kernel)⟩

/-- The player goes all-in and the robot calls. -/
def allInPlay : List (Env × Msg) :=
  let asked : List (Env × Msg) :=
    [(callingEnv 1, .gameActionNotify (some ⟨playerSeat, 2, 199⟩)),
      (callingEnv 2, .gameRobotActionReq tableConn true)]
  asked ++ [(callingEnv 3, replyAfter (playerButton 1) asked)]

def allInHand : RunGame := (tableRun (playerButton 1) allInPlay).2.get (by decide +kernel)

theorem allInHand_run :
    SessionRun tableConf (playerButton 1) (tableRun (playerButton 1) allInPlay).1 (some allInHand) := by
  rw [allInHand, Option.some_get]
  exact tableRun_run (playerButton 1) allInPlay

theorem allInHand_running : Running tableConf holdem allInHand :=
  ⟨by decide +kernel, by decide +kernel, rfl⟩

def strayCall : ActionNotify := ⟨0, 1, 0⟩

def strayHand : RunGame :=
  (foldedHand.gameActionNotify tableConf (callingEnv 2) (some strayCall)).get (by decide +kernel)

theorem strayHand_step : SessionStep tableConf (some foldedHand)
    ⟨callingEnv 2, .gameActionNotify (some strayCall), []⟩ (some strayHand) := by
  refine ⟨foldedHand, rfl, ?_⟩
  simp only [RunGame.deliver, Option.map_eq_some_iff]
  exact ⟨strayHand, (Option.some_get _).symm, rfl⟩

/-- A call of player 0 after the end of a hand. When the other player folded it is recorded as an
action of the robot; when both are all-in it enters `doAction` with the index of nobody. -/
theorem stray_call_enters_doAction :
    (∃ first trace r, SessionRun tableConf first trace (some r) ∧ r.state.finished = true ∧
      ∃ e t, e.msg = .gameActionNotify (some strayCall) ∧ SessionStep tableConf (some r) e (some t) ∧
        r.EntersGame tableConf e ∧ t.actionSeq ≠ r.actionSeq ∧
        t.state.numActions 0 ≠ r.state.numActions 0) ∧
    ∃ first trace r, SessionRun tableConf first trace (some r) ∧ r.state.finished = true ∧
      ∃ e, e.msg = .gameActionNotify (some strayCall) ∧ r.EntersGame tableConf e ∧
        currentPlayer holdem r.state = noPlayer := by
  refine ⟨⟨playerButton 1, _, foldedHand, foldedHand_run, by decide +kernel, ?_⟩,
    ⟨playerButton 1, _, allInHand, allInHand_run, by decide +kernel, ?_⟩⟩
  · exact ⟨_, strayHand, rfl, strayHand_step,
      (entersGame_finished_iff foldedHand_running (by decide +kernel)).mpr rfl, by decide +kernel,
      by decide +kernel⟩
  · exact ⟨⟨callingEnv 2, .gameActionNotify (some strayCall), []⟩, rfl,
      (entersGame_finished_iff allInHand_running (by decide +kernel)).mpr rfl, by decide +kernel⟩

end MasterAI
