import MasterAI.SessionServer

namespace MasterAI

namespace RunGame

variable {conf : Conf} {env : Env} {r t : RunGame} {msg : Msg} {outputs : List Output}

theorem touch_eq_setLastTime (env : Env) (r : RunGame) : RunGameHashMap.setLastTime r env.now = r.touch env := rfl

/-- Every handler that is let in accesses the session first. -/
theorem deliver_touch (accepted : msg.refused r.robotID = none) (hcheck : msg.isCheck = false) :
    (r.touch env).deliver conf env msg = r.deliver conf env msg := by
  have htouch : (r.touch env).robotID = r.robotID := rfl
  cases msg with
  | checkRunGameTimeout => cases hcheck
  | queryActionResp reply => rfl
  | gameBeginNotify pb | gameSendCardsNotify pb | gameActionNotify pb | gameResultNotify pb =>
    dsimp only [Msg.refused] at accepted
    split at accepted
    next => cases accepted
    next hin =>
      obtain ⟨hpb, hne⟩ := not_or.mp hin
      obtain ⟨pb, rfl⟩ := Option.ne_none_iff_exists'.mp hpb
      simp only [deliver, gameBeginNotify, gameSendCardsNotify, gameActionNotify, gameResultNotify, htouch, if_neg hne]
      rfl
  | gameRobotActionReq conn parsed =>
    dsimp only [Msg.refused] at accepted
    split at accepted
    next => cases accepted
    next hparsed =>
      split at accepted
      next => cases accepted
      next hne =>
        simp only [deliver, gameRobotActionReq, htouch, if_neg hparsed, if_neg hne]
        rfl
  | gameQueryStateReq parsed =>
    dsimp only [Msg.refused] at accepted
    split at accepted
    next => cases accepted
    next hin =>
      simp only [deliver, gameQueryStateReq, htouch, if_neg hin]
      rfl

theorem gameBeginNotify_robotID (pb : Option BeginNotify) : (r.gameBeginNotify conf env pb).robotID = r.robotID := by
  cases pb with
  | none => rfl
  | some pb =>
    unfold gameBeginNotify
    dsimp only
    split
    next => rfl
    next =>
      split
      next => rfl
      next modelled hm =>
        obtain ⟨model, server, rfl⟩ := setCfrModelLoop_eq hm
        have hrun : (doRunMatch conf { r.touch env with cfrModel := model, cfrServerID := server } pb.hand
            pb.bankerID).1.robotID = r.robotID := by
          unfold doRunMatch
          dsimp only
          split <;> rfl
        split
        next => exact hrun
        next =>
          obtain ⟨score, hplayer⟩ := setPlayerID_eq (touch env (doRunMatch conf
            { r.touch env with cfrModel := model, cfrServerID := server } pb.hand pb.bankerID).1) pb.playerID
          rw [hplayer]
          exact hrun

theorem doAction_robotID {actionUid actionType betNum code : Int}
    (h : r.doAction conf env actionUid actionType betNum = some (t, code)) : t.robotID = r.robotID := by
  cases hg : conf.getGame r.gameType with
  | none =>
    unfold doAction at h
    simp only [hg] at h
    cases h
    rfl
  | some g =>
    rcases doAction_cases hg h with ⟨_, _, kept, _⟩ | ⟨_, _, moved, _⟩
    · exact kept.robotID
    · exact moved.robotID

theorem gameSendCardsNotify_robotID (pb : Option CardsNotify) :
    (r.gameSendCardsNotify conf env pb).robotID = r.robotID := by
  cases pb with
  | none => rfl
  | some pb =>
    have hkept := (doSaveCards_kept conf (r.touch env) pb).1.robotID
    unfold gameSendCardsNotify
    dsimp only
    split
    next => rfl
    next =>
      split
      next => exact hkept
      next => exact hkept

theorem gameActionNotify_robotID {pb : Option ActionNotify} (h : r.gameActionNotify conf env pb = some t) :
    t.robotID = r.robotID := by
  cases pb with
  | none =>
    cases h
    rfl
  | some pb =>
    unfold gameActionNotify at h
    dsimp only at h
    split at h
    next =>
      cases h
      rfl
    next =>
      split at h
      next =>
        cases h
        rfl
      next =>
        obtain ⟨⟨v, code⟩, hdo, h⟩ := Option.map_eq_some_iff.mp h
        have hkept : v.robotID = r.robotID := doAction_robotID (r := r.touch env) hdo
        subst h
        split
        next => exact hkept
        next => exact hkept

theorem gameResultNotify_robotID {pb : Option EndNotify} (h : r.gameResultNotify conf env pb = some t) :
    t.robotID = r.robotID := by
  cases pb with
  | none =>
    cases h
    rfl
  | some pb =>
    unfold gameResultNotify at h
    dsimp only at h
    split at h
    next =>
      cases h
      rfl
    next =>
      obtain ⟨⟨v, code⟩, hdo, rfl⟩ := Option.map_eq_some_iff.mp h
      exact (doFinished_kept hdo).1.robotID

theorem gameRobotActionReq_robotID {conn : Conn} {parsed : Bool}
    (h : r.gameRobotActionReq conf env conn parsed = some (t, outputs)) : t.robotID = r.robotID := by
  unfold gameRobotActionReq at h
  split at h
  next =>
    cases h
    rfl
  next =>
    split at h
    next =>
      cases h
      rfl
    next =>
      obtain ⟨⟨answer, out⟩, hquery, h⟩ := Option.map_eq_some_iff.mp h
      cases answer <;> cases h <;> rfl

theorem queryActionResp_robotID {reply : CfrReply} (h : r.queryActionResp conf env reply = some (t, outputs)) :
    t.robotID = r.robotID := by
  unfold queryActionResp at h
  dsimp only at h
  split at h
  next =>
    cases h
    rfl
  next =>
    split at h
    next =>
      cases h
      rfl
    next =>
      split at h
      next =>
        cases h
        rfl
      next =>
        split at h
        next =>
          cases h
          rfl
        next a ha =>
          split at h
          next =>
            cases h
            rfl
          next =>
            obtain ⟨⟨v, code⟩, hdo, h⟩ := Option.map_eq_some_iff.mp h
            cases h
            exact doAction_robotID (r := r.touch env) (t := v) hdo

theorem checkRunGameTimeout_robotID (h : r.checkRunGameTimeout conf env = (some t, outputs)) :
    t.robotID = r.robotID := by
  unfold checkRunGameTimeout at h
  split at h
  next => cases h
  next =>
    split at h
    next =>
      cases h
      rfl
    next =>
      cases h
      rfl

theorem gameQueryStateReq_robotID {parsed : Bool} (h : r.gameQueryStateReq conf env parsed = some (t, outputs)) :
    t.robotID = r.robotID := by
  unfold gameQueryStateReq at h
  split at h
  next =>
    cases h
    rfl
  next =>
    obtain ⟨answer, hanswer, h⟩ := Option.map_eq_some_iff.mp h
    cases answer <;> cases h <;> rfl

/-- No handler changes the id of a session. -/
theorem deliver_robotID (h : r.deliver conf env msg = some (some t, outputs)) : t.robotID = r.robotID := by
  cases msg with
  | gameBeginNotify pb =>
    cases h
    exact gameBeginNotify_robotID pb
  | gameSendCardsNotify pb =>
    cases h
    exact gameSendCardsNotify_robotID pb
  | gameActionNotify pb =>
    obtain ⟨u, hu, heq⟩ := Option.map_eq_some_iff.mp h
    cases heq
    exact gameActionNotify_robotID hu
  | gameResultNotify pb =>
    obtain ⟨u, hu, heq⟩ := Option.map_eq_some_iff.mp h
    cases heq
    exact gameResultNotify_robotID hu
  | gameRobotActionReq conn parsed =>
    obtain ⟨⟨u, answers⟩, hu, heq⟩ := Option.map_eq_some_iff.mp h
    cases heq
    exact gameRobotActionReq_robotID hu
  | queryActionResp reply =>
    obtain ⟨⟨u, answers⟩, hu, heq⟩ := Option.map_eq_some_iff.mp h
    cases heq
    exact queryActionResp_robotID hu
  | checkRunGameTimeout => exact checkRunGameTimeout_robotID (Option.some.inj h)
  | gameQueryStateReq parsed =>
    obtain ⟨⟨u, answers⟩, hu, heq⟩ := Option.map_eq_some_iff.mp h
    cases heq
    exact gameQueryStateReq_robotID hu

/-- A packet that is refused leaves the session. -/
theorem deliver_refused (h : msg.refused r.robotID = some outputs) :
    r.deliver conf env msg = some (some r, outputs) := by
  cases msg with
  | checkRunGameTimeout | queryActionResp reply => cases h
  | gameBeginNotify pb | gameSendCardsNotify pb =>
    dsimp only [Msg.refused] at h
    split at h
    next hout =>
      cases h
      cases pb with
      | none => rfl
      | some pb =>
        have hzero : r.robotID = 0 := hout.resolve_left (Option.some_ne_none pb)
        simp only [deliver, gameBeginNotify, gameSendCardsNotify, if_pos hzero]
    next => cases h
  | gameActionNotify pb | gameResultNotify pb =>
    dsimp only [Msg.refused] at h
    split at h
    next hout =>
      cases h
      cases pb with
      | none => rfl
      | some pb =>
        have hzero : r.robotID = 0 := hout.resolve_left (Option.some_ne_none pb)
        simp only [deliver, gameActionNotify, gameResultNotify, if_pos hzero, Option.map_some]
    next => cases h
  | gameRobotActionReq conn parsed =>
    dsimp only [Msg.refused] at h
    simp only [deliver, gameRobotActionReq]
    split at h
    next hparsed =>
      cases h
      rw [if_pos hparsed]
      rfl
    next hparsed =>
      split at h
      next hzero =>
        cases h
        rw [if_neg hparsed, if_pos hzero]
        rfl
      next => cases h
  | gameQueryStateReq parsed =>
    dsimp only [Msg.refused] at h
    simp only [deliver, gameQueryStateReq]
    split at h
    next hout =>
      cases h
      rw [if_pos hout]
      rfl
    next => cases h

theorem work_eq_deliver (hcheck : msg.isCheck = false) :
    r.work conf env msg = (r.deliver conf env msg).bind fun (t, outputs) => t.map fun t => (t, outputs) := by
  cases msg with
  | checkRunGameTimeout => cases hcheck
  | _ => rfl

theorem work_eq_some (hcheck : msg.isCheck = false) (h : r.work conf env msg = some (t, outputs)) :
    r.deliver conf env msg = some (some t, outputs) := by
  rw [work_eq_deliver hcheck] at h
  obtain ⟨⟨u, answers⟩, hdeliver, h⟩ := Option.bind_eq_some_iff.mp h
  obtain ⟨v, rfl, heq⟩ := Option.map_eq_some_iff.mp h
  cases heq
  exact hdeliver

/-- A session that is not late is checked for an answer that does not come. -/
theorem deliver_of_work_check (hlate : ¬env.now - r.lastTime > conf.dataTimeout)
    (h : r.work conf env .checkRunGameTimeout = some (t, outputs)) :
    r.deliver conf env .checkRunGameTimeout = some (some t, outputs) := by
  change some (r.checkRobotDelay conf env) = _ at h
  change some (r.checkRunGameTimeout conf env) = _
  unfold checkRobotDelay at h
  unfold checkRunGameTimeout
  rw [if_neg hlate]
  split at h
  next hwait =>
    cases h
    rw [if_pos hwait]
  next hwait =>
    cases h
    rw [if_neg hwait]

theorem work_robotID (h : r.work conf env msg = some (t, outputs)) : t.robotID = r.robotID := by
  cases hcheck : msg.isCheck with
  | false => exact deliver_robotID (work_eq_some hcheck h)
  | true =>
    obtain rfl : msg = .checkRunGameTimeout := by
      cases msg with
      | checkRunGameTimeout => rfl
      | _ => cases hcheck
    change some (r.checkRobotDelay conf env) = _ at h
    unfold checkRobotDelay at h
    split at h
    all_goals
      cases h
      rfl

end RunGame

/-- How the session that a handler works on comes from the session of its robot. -/
inductive Found (conf : Conf) (q : Request) : Option RunGame → RunGame → Prop
  | accessed {r} : q.msg.isCheck = false → Found conf q (some r) (r.touch q.env)
  | checked {r} : q.msg.isCheck = true → ¬q.env.now - r.lastTime > conf.dataTimeout → Found conf q (some r) r
  | created : q.msg.isBegin = true → Found conf q none ((q.raw.create q.robotID).touch q.env)

theorem Msg.accepted_begin {msg : Msg} {robotID : Int} (accepted : msg.refused robotID = none)
    (hbegin : msg.isBegin = true) : robotID ≠ 0 ∧ ∃ pb, msg = .gameBeginNotify (some pb) := by
  cases msg with
  | gameBeginNotify pb =>
    dsimp only [Msg.refused] at accepted
    split at accepted
    next => cases accepted
    next hin =>
      obtain ⟨hpb, hne⟩ := not_or.mp hin
      obtain ⟨pb, rfl⟩ := Option.ne_none_iff_exists'.mp hpb
      exact ⟨hne, pb, rfl⟩
  | _ => cases hbegin

theorem Msg.eq_check {msg : Msg} (hcheck : msg.isCheck = true) : msg = .checkRunGameTimeout := by
  cases msg with
  | checkRunGameTimeout => rfl
  | _ => cases hcheck

theorem Msg.accepted_check {msg : Msg} (hcheck : msg.isCheck = true) (robotID : Int) : msg.refused robotID = none := by
  rw [Msg.eq_check hcheck]
  rfl

/-- The work of a handler is a step of its robot. -/
theorem Found.step {conf : Conf} {q : Request} {session : Option RunGame} {found t : RunGame} {outputs : List Output}
    (h : Found conf q session found) (accepted : q.msg.refused q.robotID = none) (hid : found.robotID = q.robotID)
    (hwork : found.work conf q.env q.msg = some (t, outputs)) :
    RobotStep conf q.robotID session ⟨q.env, q.msg, outputs⟩ (some t) := by
  cases h with
  | @accessed r hcheck =>
    have hdeliver := RunGame.work_eq_some hcheck hwork
    have hrobot : r.robotID = q.robotID := hid
    rw [RunGame.deliver_touch (hrobot ▸ accepted) hcheck] at hdeliver
    exact .session accepted ⟨r, rfl, hdeliver⟩
  | checked hcheck hlate =>
    refine .session accepted ⟨found, rfl, ?_⟩
    change found.deliver conf q.env q.msg = _
    rw [Msg.eq_check hcheck] at hwork ⊢
    exact RunGame.deliver_of_work_check hlate hwork
  | created hbegin =>
    obtain ⟨hne, pb, hmsg⟩ := Msg.accepted_begin accepted hbegin
    have hcheck : q.msg.isCheck = false := by
      rw [hmsg]
      rfl
    have hdeliver := RunGame.work_eq_some hcheck hwork
    rw [RunGame.deliver_touch accepted hcheck, hmsg] at hdeliver
    cases hdeliver
    exact .created q.raw pb hne hmsg rfl

namespace HandlerPoint

/-- The robot whose lock the thread holds. -/
def inside : HandlerPoint → Option Int
  | .idle | .lock _ => none
  | .isTimeOut q | .del q | .get q | .add q | .getAgain q | .work q _ _ | .unlock q => some q.robotID

/-- The robot whose session in the map is not the one that its messages have led to. -/
def atWork : HandlerPoint → Option Int
  | .getAgain q | .work q _ _ => some q.robotID
  | _ => none

/-- What a thread relies on at a point. -/
def Valid (conf : Conf) (game : Nat → RunGame) (nodes : Int → Option Nat) (sessions : Int → Option RunGame) :
    HandlerPoint → Prop
  | .idle | .unlock _ => True
  | .lock q => q.msg.refused q.robotID = none
  | .isTimeOut q => q.msg.isCheck = true
  | .del q => q.msg.isCheck = true ∧
      ∀ r, sessions q.robotID = some r → q.env.now - r.lastTime > conf.dataTimeout
  | .get q => q.msg.refused q.robotID = none ∧
      (q.msg.isCheck = true → ∃ r, sessions q.robotID = some r ∧ ¬q.env.now - r.lastTime > conf.dataTimeout)
  | .add q => q.msg.refused q.robotID = none ∧ q.msg.isBegin = true ∧ sessions q.robotID = none
  | .getAgain q => q.msg.refused q.robotID = none ∧ q.msg.isBegin = true ∧ sessions q.robotID = none ∧
      ∃ x, nodes q.robotID = some x ∧ game x = (q.raw.create q.robotID).touch q.env
  | .work q x found => q.msg.refused q.robotID = none ∧ nodes q.robotID = some x ∧ found.robotID = q.robotID ∧
      Found conf q (sessions q.robotID) found

variable {conf : Conf} {game game' : Nat → RunGame} {nodes nodes' : Int → Option Nat}
  {sessions sessions' : Int → Option RunGame} {p : HandlerPoint}

/-- A thread relies on nothing but the session of the robot whose lock it holds. -/
theorem Valid.congr (h : p.Valid conf game nodes sessions)
    (same : ∀ id, p.inside = some id → nodes' id = nodes id ∧ sessions' id = sessions id ∧
      ∀ x, nodes id = some x → game' x = game x) : p.Valid conf game' nodes' sessions' := by
  cases p with
  | idle | unlock | lock | isTimeOut => exact h
  | del q | get q | add q =>
    obtain ⟨-, hsessions, -⟩ := same q.robotID rfl
    simp only [Valid, hsessions]
    exact h
  | getAgain q =>
    obtain ⟨hnodes, hsessions, hgame⟩ := same q.robotID rfl
    obtain ⟨accepted, hbegin, hnone, x, hx, hcreated⟩ := h
    exact ⟨accepted, hbegin, hsessions.trans hnone, x, hnodes.trans hx, (hgame x hx).trans hcreated⟩
  | work q x found =>
    obtain ⟨hnodes, hsessions, -⟩ := same q.robotID rfl
    simp only [Valid, hnodes, hsessions]
    exact h

end HandlerPoint

namespace SessionServer

/-- The sessions that the messages have led to, with the node of each robot. A session in the map is the one of its
robot while nobody is at work on it. -/
structure Serves (conf : Conf) (s : SessionServer) (nodes : Int → Option Nat) (sessions : Int → Option RunGame) :
    Prop where
  stores : s.map.Stores nodes
  holders : Holders s.holder fun w => (s.points w).inside.map s.getLock
  settled : ∀ id, (∀ w, (s.points w).atWork ≠ some id) → (nodes id).map s.map.game = sessions id
  points : ∀ w, (s.points w).Valid conf s.map.game nodes sessions

section

variable {conf : Conf} {s t : SessionServer} {nodes nodes' : Int → Option Nat} {sessions sessions' : Int → Option RunGame}
  {w v : Nat} {id : Int} {p : HandlerPoint}

theorem Serves.exclusive (h : s.Serves conf nodes sessions) (hw : (s.points w).inside = some id)
    (hv : (s.points v).inside = some id) : w = v := by
  refine h.holders.exclusive (k := s.getLock id) ?_ ?_
  · rw [hw]
    rfl
  · rw [hv]
    rfl

theorem inside_of_atWork (h : p.atWork = some id) : p.inside = some id := by
  cases p with
  | getAgain q | work q x found => exact h
  | _ => cases h

/-- A thread under the lock of a robot finds its session in the map, until it changes it. -/
theorem Serves.current (h : s.Serves conf nodes sessions) (hw : (s.points w).inside = some id)
    (hwork : (s.points w).atWork = none) : (nodes id).map s.map.game = sessions id := by
  refine h.settled id fun v hv => ?_
  obtain rfl := h.exclusive hw (inside_of_atWork hv)
  rw [hwork] at hv
  cases hv

theorem goto_self (s : SessionServer) (w : Nat) (p : HandlerPoint) : (s.goto w p).points w = p :=
  Function.update_self _ _ _

theorem goto_ne (s : SessionServer) (p : HandlerPoint) (hv : v ≠ w) : (s.goto w p).points v = s.points v :=
  Function.update_of_ne hv _ _

theorem goto_eq_self (hp : s.points w = p) : s.goto w p = s := by
  subst hp
  unfold goto
  rw [Function.update_eq_self]

theorem inside_goto (s : SessionServer) (w : Nat) (p : HandlerPoint) (lock : Int → Nat) :
    (fun v => ((s.goto w p).points v).inside.map lock) =
      Function.update (fun v => (s.points v).inside.map lock) w (p.inside.map lock) := by
  funext v
  unfold goto
  by_cases hv : v = w
  · subst hv
    simp
  · simp [hv]

/-- A step under the lock of a robot touches the session of this robot only. -/
theorem Serves.move (h : s.Serves conf nodes sessions) {map : RunGameHashMap} (hw : (s.points w).inside = some id)
    (hp : p.inside = some id) (hstores : map.Stores nodes')
    (same : ∀ i ≠ id, nodes' i = nodes i ∧ sessions' i = sessions i ∧ ∀ x, nodes i = some x → map.game x = s.map.game x)
    (hsettled : p.atWork = none → (nodes' id).map map.game = sessions' id)
    (hpoint : p.Valid conf map.game nodes' sessions') :
    ((s.withMap map).goto w p).Serves conf nodes' sessions' := by
  refine ⟨hstores, ?_, fun i hi => ?_, fun v => ?_⟩
  · have hstay := h.holders.stay (i := w) (l := p.inside.map s.getLock) (by rw [hp, hw])
    rw [← inside_goto] at hstay
    exact hstay
  · by_cases hid : i = id
    · subst hid
      refine hsettled ?_
      cases hwork : p.atWork with
      | none => rfl
      | some j =>
        have hj := inside_of_atWork hwork
        rw [hp] at hj
        cases hj
        refine absurd ?_ (hi w)
        rw [goto_self, hwork]
    · obtain ⟨hnodes, hsessions, hgame⟩ := same i hid
      have hbefore : (nodes i).map s.map.game = sessions i := by
        refine h.settled i fun v hv => ?_
        by_cases hvw : v = w
        · subst hvw
          have hin := inside_of_atWork hv
          rw [hw] at hin
          exact hid (Option.some.inj hin).symm
        · refine hi v ?_
          rw [goto_ne _ _ hvw]
          exact hv
      rw [hnodes, hsessions, ← hbefore]
      cases hx : nodes i with
      | none => rfl
      | some x => exact congrArg some (hgame x hx)
  · by_cases hv : v = w
    · subst hv
      rw [goto_self]
      exact hpoint
    · rw [goto_ne _ _ hv]
      refine (h.points v).congr fun i hi => same i ?_
      rintro rfl
      exact hv (h.exclusive hi hw)

/-- A step that changes no session. -/
theorem Serves.pass (h : s.Serves conf nodes sessions) {holder : Nat → Option Nat}
    (hholders : Holders holder (Function.update (fun v => (s.points v).inside.map s.getLock) w (p.inside.map s.getLock)))
    (hfrom : (s.points w).atWork = none) (hpoint : p.Valid conf s.map.game nodes sessions) :
    ({ s with holder := holder }.goto w p).Serves conf nodes sessions := by
  refine ⟨h.stores, ?_, fun i hi => h.settled i fun v hv => ?_, fun v => ?_⟩
  · rw [← inside_goto] at hholders
    exact hholders
  · by_cases hvw : v = w
    · subst hvw
      rw [hfrom] at hv
      cases hv
    · refine hi v ?_
      rw [goto_ne _ _ hvw]
      exact hv
  · by_cases hvw : v = w
    · subst hvw
      rw [goto_self]
      exact hpoint
    · rw [goto_ne _ _ hvw]
      exact h.points v

/-- A step of a thread is a step of its robot where it has handled a message, and no step of a robot otherwise. It
changes no session but the one whose lock the thread holds. -/
def Follows (conf : Conf) (s : SessionServer) (w : Nat) (nodes : Int → Option Nat) (sessions : Int → Option RunGame)
    (e : Option (Int × Event)) (t : SessionServer) : Prop :=
  ∃ nodes' sessions', t.Serves conf nodes' sessions' ∧ KeyedStep (RobotStep conf) sessions e sessions' ∧
    ∀ i, (s.points w).inside ≠ some i → ∀ x, nodes i = some x → t.map.game x = s.map.game x

variable {q : Request} {map : RunGameHashMap} {e : Option (Int × Event)}

/-- A call of the map for a robot leaves the nodes of the others. -/
theorem Serves.found_frame (h : s.Serves conf nodes sessions)
    (hgame : ∀ x, nodes id ≠ some x → map.game x = s.map.game x) (i : Int) (hi : i ≠ id) (x : Nat)
    (hx : nodes i = some x) : map.game x = s.map.game x :=
  hgame x fun hid => hi (h.stores.node_inj hx hid)

theorem frame_outside (hin : (s.points w).inside = some id)
    (same : ∀ i ≠ id, ∀ x, nodes i = some x → map.game x = s.map.game x) (i : Int)
    (hi : (s.points w).inside ≠ some i) (x : Nat) (hx : nodes i = some x) : map.game x = s.map.game x := by
  refine same i ?_ x hx
  rintro rfl
  exact hi hin

/-- The session in the node of a robot is changed. -/
theorem Serves.store_frame (h : s.Serves conf nodes sessions) {x : Nat} (hx : nodes id = some x) (g : RunGame) (i : Int)
    (hi : i ≠ id) (y : Nat) (hy : nodes i = some y) : (s.store x g).map.game y = s.map.game y := by
  refine Function.update_of_ne ?_ _ _
  rintro rfl
  exact hi (h.stores.node_inj hy hx)

theorem Serves.follows_lock (h : s.Serves conf nodes sessions) (hpoint : s.points w = .lock q)
    (hrun : s.run conf w = some (e, t)) : s.Follows conf w nodes sessions e t := by
  have accepted := h.points w
  rw [hpoint] at accepted
  unfold SessionServer.run at hrun
  rw [hpoint] at hrun
  dsimp only at hrun
  split at hrun
  next => cases hrun
  next hfree =>
    cases hrun
    have hnone : (s.points w).inside.map s.getLock = none := by
      rw [hpoint]
      rfl
    have hholders := h.holders.acquire (i := w) (not_not.mp hfree) hnone
    have hfrom : (s.points w).atWork = none := by
      rw [hpoint]
      rfl
    refine ⟨nodes, sessions, ?_, rfl, fun _ _ _ _ => rfl⟩
    split
    next hcheck => exact h.pass (p := .isTimeOut q) hholders hfrom hcheck
    next hcheck => exact h.pass (p := .get q) hholders hfrom ⟨accepted, fun hcheck' => absurd hcheck' hcheck⟩

theorem Serves.follows_isTimeOut (h : s.Serves conf nodes sessions) (hpoint : s.points w = .isTimeOut q)
    (hrun : s.run conf w = some (e, t)) : s.Follows conf w nodes sessions e t := by
  have hcheck := h.points w
  rw [hpoint] at hcheck
  unfold SessionServer.run at hrun
  rw [hpoint] at hrun
  obtain ⟨late, hlate, hrun⟩ := Option.map_eq_some_iff.mp hrun
  cases hrun
  have hin : (s.points w).inside = some q.robotID := by
    rw [hpoint]
    rfl
  have hfrom : (s.points w).atWork = none := by
    rw [hpoint]
    rfl
  have hstay (p : HandlerPoint) (hp : p.inside = some q.robotID) := h.holders.stay (i := w)
    (l := p.inside.map s.getLock) (by rw [hp, hin])
  have hanswer := h.stores.isTimeOut hlate
  rw [h.current hin hfrom] at hanswer
  refine ⟨nodes, sessions, ?_, rfl, fun _ _ _ _ => rfl⟩
  cases late with
  | true =>
    refine h.pass (p := .del q) (hstay _ rfl) hfrom ⟨hcheck, fun r hr => ?_⟩
    rw [hr] at hanswer
    exact of_decide_eq_true hanswer.symm
  | false =>
    refine h.pass (p := .get q) (hstay _ rfl) hfrom ⟨Msg.accepted_check hcheck _, fun _ => ?_⟩
    cases hr : sessions q.robotID with
    | none =>
      rw [hr] at hanswer
      cases hanswer
    | some r =>
      rw [hr] at hanswer
      exact ⟨r, rfl, of_decide_eq_false hanswer.symm⟩

theorem Serves.follows_del (h : s.Serves conf nodes sessions) (hpoint : s.points w = .del q)
    (hrun : s.run conf w = some (e, t)) : s.Follows conf w nodes sessions e t := by
  have hvalid := h.points w
  rw [hpoint] at hvalid
  obtain ⟨hcheck, hlate⟩ := hvalid
  unfold SessionServer.run at hrun
  rw [hpoint] at hrun
  obtain ⟨⟨code, map⟩, hdel, hrun⟩ := Option.map_eq_some_iff.mp hrun
  cases hrun
  obtain ⟨hstores, hgame⟩ := h.stores.del hdel
  have hin : (s.points w).inside = some q.robotID := by
    rw [hpoint]
    rfl
  have same := h.found_frame hgame
  refine ⟨Function.update nodes q.robotID none, Function.update sessions q.robotID none, ?_, ⟨none, ?_, rfl⟩,
    frame_outside hin same⟩
  · refine h.move (p := .unlock q) hin rfl hstores
      (fun i hi => ⟨Function.update_of_ne hi _ _, Function.update_of_ne hi _ _, same i hi⟩) (fun _ => ?_) trivial
    rw [Function.update_self, Function.update_self]
    rfl
  · cases hr : sessions q.robotID with
    | none =>
      refine .unknown (Msg.accepted_check hcheck _) ?_ ?_
      · rw [Msg.eq_check hcheck]
        rfl
      · rw [Msg.eq_check hcheck]
        rfl
    | some r =>
      refine .session (Msg.accepted_check hcheck _) ⟨r, rfl, ?_⟩
      rw [Msg.eq_check hcheck]
      change some (r.checkRunGameTimeout conf q.env) = _
      unfold RunGame.checkRunGameTimeout
      rw [if_pos (hlate r hr)]

theorem Serves.follows_get (h : s.Serves conf nodes sessions) (hpoint : s.points w = .get q)
    (hrun : s.run conf w = some (e, t)) : s.Follows conf w nodes sessions e t := by
  have hvalid := h.points w
  rw [hpoint] at hvalid
  obtain ⟨accepted, hcheck⟩ := hvalid
  unfold SessionServer.run at hrun
  rw [hpoint] at hrun
  obtain ⟨⟨node, map⟩, hget, hrun⟩ := Option.map_eq_some_iff.mp hrun
  obtain ⟨rfl, hstores, hother, hfound⟩ := h.stores.getNode hget
  have hin : (s.points w).inside = some q.robotID := by
    rw [hpoint]
    rfl
  have hcurrent := h.current hin (by rw [hpoint]; rfl)
  have same := h.found_frame hother
  dsimp only at hrun
  split at hrun
  next x hx =>
    cases hrun
    have hgame := hfound x hx
    rw [hx, Option.map_some] at hcurrent
    refine ⟨nodes, sessions, ?_, rfl, frame_outside hin same⟩
    refine h.move (p := .work q x (map.game x)) hin rfl hstores (fun i hi => ⟨rfl, rfl, same i hi⟩) nofun
      ⟨accepted, hx, hstores.robotID hx, ?_⟩
    rw [hgame, ← hcurrent]
    cases hmsg : q.msg.isCheck with
    | false => exact .accessed hmsg
    | true =>
      obtain ⟨r, hr, hlate⟩ := hcheck hmsg
      rw [← hcurrent] at hr
      cases hr
      exact .checked hmsg hlate
  next hnone =>
    rw [hnone, Option.map_none] at hcurrent
    split at hrun
    next hbegin =>
      cases hrun
      refine ⟨nodes, sessions, ?_, rfl, frame_outside hin same⟩
      refine h.move (p := .add q) hin rfl hstores (fun i hi => ⟨rfl, rfl, same i hi⟩) (fun _ => ?_)
        ⟨accepted, hbegin, hcurrent.symm⟩
      rw [hnone]
      exact hcurrent
    next hbegin =>
      cases hrun
      refine ⟨nodes, sessions, ?_, ⟨none, ?_, ?_⟩, frame_outside hin same⟩
      · refine h.move (p := .unlock q) hin rfl hstores (fun i hi => ⟨rfl, rfl, same i hi⟩) (fun _ => ?_) trivial
        rw [hnone]
        exact hcurrent
      · rw [← hcurrent]
        exact .unknown accepted (Bool.eq_false_iff.mpr hbegin) rfl
      · rw [hcurrent, Function.update_eq_self]

theorem Serves.follows_add (h : s.Serves conf nodes sessions) (hpoint : s.points w = .add q)
    (hrun : s.run conf w = some (e, t)) : s.Follows conf w nodes sessions e t := by
  have hvalid := h.points w
  rw [hpoint] at hvalid
  obtain ⟨accepted, hbegin, hsession⟩ := hvalid
  unfold SessionServer.run at hrun
  rw [hpoint] at hrun
  obtain ⟨⟨code, map⟩, hadd, hrun⟩ := Option.map_eq_some_iff.mp hrun
  have hin : (s.points w).inside = some q.robotID := by
    rw [hpoint]
    rfl
  have hcurrent := h.current hin (by rw [hpoint]; rfl)
  dsimp only at hrun
  rcases h.stores.add hadd with ⟨hcode, rfl, -⟩ | ⟨rfl, hnone, -, x, hfree, hstores, hgame⟩
  · rw [if_pos hcode] at hrun
    cases hrun
    refine ⟨nodes, sessions, ?_, ⟨none, ?_, ?_⟩, fun _ _ _ _ => rfl⟩
    · exact h.move (p := .unlock q) hin rfl h.stores (fun i hi => ⟨rfl, rfl, fun _ _ => rfl⟩) (fun _ => hcurrent) trivial
    · rw [hsession]
      exact .full accepted hbegin rfl
    · rw [← hsession, Function.update_eq_self]
  · rw [if_neg (not_not.mpr rfl)] at hrun
    cases hrun
    have same (i : Int) (_ : i ≠ q.robotID) (y : Nat) (hy : nodes i = some y) : map.game y = s.map.game y := by
      rw [hgame, Function.update_of_ne]
      rintro rfl
      exact hfree i hy
    refine ⟨Function.update nodes q.robotID (some x), sessions, ?_, rfl, frame_outside hin same⟩
    refine h.move (p := .getAgain q) hin rfl hstores
      (fun i hi => ⟨Function.update_of_ne hi _ _, rfl, same i hi⟩) nofun
      ⟨accepted, hbegin, hsession, x, Function.update_self _ _ _, ?_⟩
    rw [hgame, Function.update_self]
    rfl

theorem Serves.follows_getAgain (h : s.Serves conf nodes sessions) (hpoint : s.points w = .getAgain q)
    (hrun : s.run conf w = some (e, t)) : s.Follows conf w nodes sessions e t := by
  have hvalid := h.points w
  rw [hpoint] at hvalid
  obtain ⟨accepted, hbegin, hsession, x, hx, hcreated⟩ := hvalid
  unfold SessionServer.run at hrun
  rw [hpoint] at hrun
  obtain ⟨⟨node, map⟩, hget, hrun⟩ := Option.map_eq_some_iff.mp hrun
  obtain ⟨rfl, hstores, hother, hfound⟩ := h.stores.getNode hget
  have hin : (s.points w).inside = some q.robotID := by
    rw [hpoint]
    rfl
  have same := h.found_frame hother
  dsimp only at hrun
  rw [hx] at hrun
  cases hrun
  refine ⟨nodes, sessions, ?_, rfl, frame_outside hin same⟩
  refine h.move (p := .work q x (map.game x)) hin rfl hstores (fun i hi => ⟨rfl, rfl, same i hi⟩) nofun
    ⟨accepted, hx, hstores.robotID hx, ?_⟩
  rw [hfound x hx, hcreated, hsession]
  exact .created hbegin

theorem Serves.follows_work {x : Nat} {found : RunGame} (h : s.Serves conf nodes sessions)
    (hpoint : s.points w = .work q x found) (hrun : s.run conf w = some (e, t)) : s.Follows conf w nodes sessions e t := by
  have hvalid := h.points w
  rw [hpoint] at hvalid
  obtain ⟨accepted, hx, hid, hfound⟩ := hvalid
  unfold SessionServer.run at hrun
  rw [hpoint] at hrun
  obtain ⟨⟨g, outputs⟩, hwork, hrun⟩ := Option.map_eq_some_iff.mp hrun
  cases hrun
  have hin : (s.points w).inside = some q.robotID := by
    rw [hpoint]
    rfl
  have hrobot := (RunGame.work_robotID hwork).trans hid
  refine ⟨nodes, Function.update sessions q.robotID (some g), ?_, ⟨some g, hfound.step accepted hid hwork, rfl⟩,
    frame_outside hin (h.store_frame hx g)⟩
  refine h.move (p := .unlock q) hin rfl (h.stores.update (hrobot.trans (h.stores.robotID hx).symm))
    (fun i hi => ⟨rfl, Function.update_of_ne hi _ _, h.store_frame hx g i hi⟩) (fun _ => ?_) trivial
  rw [hx, Function.update_self, Option.map_some]
  exact congrArg some (Function.update_self _ _ _)

theorem Serves.follows_unlock (h : s.Serves conf nodes sessions) (hpoint : s.points w = .unlock q)
    (hrun : s.run conf w = some (e, t)) : s.Follows conf w nodes sessions e t := by
  unfold SessionServer.run at hrun
  rw [hpoint] at hrun
  cases hrun
  have hheld : (s.points w).inside.map s.getLock = some (s.getLock q.robotID) := by
    rw [hpoint]
    rfl
  have hfrom : (s.points w).atWork = none := by
    rw [hpoint]
    rfl
  exact ⟨nodes, sessions, h.pass (p := .idle) (h.holders.release (i := w) hheld) hfrom trivial, rfl, fun _ _ _ _ => rfl⟩

theorem Serves.follows_run (h : s.Serves conf nodes sessions) (hrun : s.run conf w = some (e, t)) :
    s.Follows conf w nodes sessions e t := by
  cases hpoint : s.points w with
  | idle =>
    unfold SessionServer.run at hrun
    rw [hpoint] at hrun
    cases hrun
  | lock q => exact h.follows_lock hpoint hrun
  | isTimeOut q => exact h.follows_isTimeOut hpoint hrun
  | del q => exact h.follows_del hpoint hrun
  | get q => exact h.follows_get hpoint hrun
  | add q => exact h.follows_add hpoint hrun
  | getAgain q => exact h.follows_getAgain hpoint hrun
  | work q x found => exact h.follows_work hpoint hrun
  | unlock q => exact h.follows_unlock hpoint hrun

theorem Serves.follows_take (h : s.Serves conf nodes sessions) (htake : s.serve conf w (.take q) = some (e, t)) :
    s.Follows conf w nodes sessions e t := by
  unfold serve at htake
  dsimp only at htake
  split at htake
  next hpoint =>
    split at htake
    next outputs hrefused =>
      cases htake
      refine ⟨nodes, sessions, h, ⟨sessions q.robotID, .refused hrefused, ?_⟩, fun _ _ _ _ => rfl⟩
      rw [Function.update_eq_self]
    next accepted =>
      cases htake
      have hstay := h.holders.stay (i := w) (l := (HandlerPoint.lock q).inside.map s.getLock) (by rw [hpoint]; rfl)
      exact ⟨nodes, sessions, h.pass (p := .lock q) hstay (by rw [hpoint]; rfl) accepted, rfl, fun _ _ _ _ => rfl⟩
  next => cases htake

theorem Serves.follows_write {g : RunGame} (h : s.Serves conf nodes sessions)
    (hwrite : s.serve conf w (.write g) = some (e, t)) : s.Follows conf w nodes sessions e t := by
  unfold serve at hwrite
  dsimp only at hwrite
  split at hwrite
  next q x found hpoint =>
    cases hwrite
    have hvalid := h.points w
    rw [hpoint] at hvalid
    obtain ⟨accepted, hx, hid, hfound⟩ := hvalid
    have hin : (s.points w).inside = some q.robotID := by
      rw [hpoint]
      rfl
    have hmoved := h.move (p := .work q x found) hin rfl
      (h.stores.update (x := x) (g := { g with robotID := (s.map.game x).robotID }) rfl)
      (fun i hi => ⟨rfl, rfl, h.store_frame hx _ i hi⟩) nofun ⟨accepted, hx, hid, hfound⟩
    rw [goto_eq_self (by exact hpoint)] at hmoved
    exact ⟨nodes, sessions, hmoved, rfl, frame_outside hin (h.store_frame hx _)⟩
  next => cases hwrite

theorem Serves.follows {input : ThreadInput} (h : s.Serves conf nodes sessions)
    (hstep : s.serve conf w input = some (e, t)) : s.Follows conf w nodes sessions e t := by
  cases input with
  | take q => exact h.follows_take hstep
  | run => exact h.follows_run hstep
  | write g => exact h.follows_write hstep

theorem serves_start {size buckets : Nat} (h : Start size buckets s) :
    s.Serves conf (fun _ => none) fun _ => none := by
  refine ⟨RunGameHashMap.stores_init h.map, fun i w => ?_, fun _ _ => rfl, fun w => ?_⟩
  · dsimp only
    rw [h.holder, h.points]
    exact ⟨nofun, nofun⟩
  · rw [h.points]
    trivial

end

end SessionServer

end MasterAI
