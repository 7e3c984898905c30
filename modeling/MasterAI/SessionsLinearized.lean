import MasterAI.SessionServerRuns

namespace MasterAI

namespace RunGameHashMap

variable {h : RunGameHashMap} {nodes : Int → Option Nat} {id : Int} {x : Nat}

/-- `Get` without the update of the time answers and changes nothing. -/
theorem Stores.get (hs : h.Stores nodes) {b : Nat} (hb : h.hash id = some b) (now : Int) :
    h.get id false now = some ((nodes id).map h.game, h) := by
  rw [get_eq_getNode]
  unfold RunGameHashMap.getNode
  rw [hb, Option.bind_some]
  rcases hs.search hb with ⟨_, y, hy, hfound⟩ | ⟨hnone, _, habsent⟩
  · rw [hfound, hy]
    rfl
  · rw [habsent, hnone]
    rfl

theorem Stores.getNode_eq (hs : h.Stores nodes) (hx : nodes id = some x) (now : Int) :
    h.getNode id false now = some (some x, h) := by
  have hstores := hs
  obtain ⟨_, _, _, hh, hnodes⟩ := hstores
  obtain ⟨hused, hid⟩ := (hnodes _ x).mp hx
  obtain ⟨b, hb⟩ := Option.isSome_iff_exists.mp (hh.hashed x hused)
  rw [hid] at hb
  unfold RunGameHashMap.getNode
  rw [hb, Option.bind_some]
  rcases hs.search hb with ⟨_, y, hy, hfound⟩ | ⟨hnone, _⟩
  · obtain rfl : y = x := Option.some.inj (hy.symm.trans hx)
    rw [hfound]
    rfl
  · rw [hnone] at hx
    cases hx

end RunGameHashMap

namespace SessionServer

variable {conf : Conf} {size buckets : Nat} {s t : SessionServer} {e : Option (Int × Event)}
  {trace : List (Transition SessionServer (Option (Int × Event)))} {w : Nat}

/-- The threads together do what the robots do, one message at a time. -/
theorem follows_robots (run : Run conf size buckets trace s) :
    ∃ moves sessions, RobotsRun conf moves sessions ∧ (∃ nodes, s.Serves conf nodes sessions) ∧
      moves.map Transition.event = trace.map Transition.event := by
  refine run.simulated (R := fun s sessions => ∃ nodes, s.Serves conf nodes sessions) ?_ ?_
  · intro s hstart
    exact ⟨_, rfl, _, serves_start hstart⟩
  · rintro s e t sessions ⟨w, input, hstep⟩ ⟨nodes, hserves⟩
    obtain ⟨nodes', sessions', hnext, hkeyed, -⟩ := hserves.follows hstep
    exact ⟨sessions', hkeyed, nodes', hnext⟩

/-- A thread at work has the node of its robot to itself: the table finds it for this robot, no other thread is at work
on it, and whatever another thread does next leaves the session in it as it is. -/
theorem session_owned (run : Run conf size buckets trace s) {q : Request} {x : Nat} {found : RunGame}
    (hwork : s.points w = .work q x found) :
    (∀ now, s.map.getNode q.robotID false now = some (some x, s.map)) ∧
      ∀ v ≠ w, (∀ q' found', s.points v ≠ .work q' x found') ∧
        ∀ input e t, s.serve conf v input = some (e, t) → t.map.game x = s.map.game x := by
  obtain ⟨-, sessions, -, ⟨nodes, hserves⟩, -⟩ := follows_robots run
  have hvalid := hserves.points w
  rw [hwork] at hvalid
  obtain ⟨-, hx, -, -⟩ := hvalid
  have hin : (s.points w).inside = some q.robotID := by
    rw [hwork]
    rfl
  refine ⟨hserves.stores.getNode_eq hx, fun v hv => ⟨fun q' found' hother => ?_, fun input e t hstep => ?_⟩⟩
  · have hvalid' := hserves.points v
    rw [hother] at hvalid'
    obtain ⟨-, hx', -, -⟩ := hvalid'
    have hinOther : (s.points v).inside = some q.robotID := by
      rw [hother, hserves.stores.node_inj hx hx']
      rfl
    exact hv (hserves.exclusive hinOther hin)
  · obtain ⟨_, _, -, -, hframe⟩ := hserves.follows hstep
    refine hframe q.robotID (fun hv' => hv (hserves.exclusive hv' hin)) x hx

/-- A begin notification is handled without a session only where every node holds the session of another robot. -/
theorem turned_away (run : Run conf size buckets trace s) {q : Request} {handled : Int × Event}
    (hadd : s.points w = .add q) (hrun : s.run conf w = some (some handled, t)) :
    ∀ x < s.map.totalSize, ∃ id ≠ q.robotID, ∀ now, s.map.getNode id false now = some (some x, s.map) := by
  obtain ⟨-, sessions, -, ⟨nodes, hserves⟩, -⟩ := follows_robots run
  have hvalid := hserves.points w
  rw [hadd] at hvalid
  obtain ⟨accepted, hbegin, hnone⟩ := hvalid
  have hin : (s.points w).inside = some q.robotID := by
    rw [hadd]
    rfl
  have hcurrent := hserves.current hin (by rw [hadd]; rfl)
  rw [hnone, Option.map_eq_none_iff] at hcurrent
  unfold SessionServer.run at hrun
  rw [hadd] at hrun
  obtain ⟨⟨code, map⟩, hresult, hrun⟩ := Option.map_eq_some_iff.mp hrun
  rcases hserves.stores.add hresult with ⟨-, -, hfull⟩ | ⟨rfl, -⟩
  · intro x hx
    obtain ⟨id, hid⟩ := hfull (Msg.accepted_begin accepted hbegin).1 hcurrent x hx
    refine ⟨id, ?_, hserves.stores.getNode_eq hid⟩
    rintro rfl
    rw [hcurrent] at hid
    cases hid
  · cases hrun

end SessionServer

section

variable {conf : Conf} {robotID : Int} {first : BeginNotify} {session : Option RunGame}
  {moves newer older : List SessionMove} {m : SessionMove}

/-- A message with which a hand of the robot is opened. -/
def OpensHand (conf : Conf) (robotID : Int) (first : BeginNotify) (m : SessionMove) : Prop :=
  ∃ prior : RunGame, prior.robotID = robotID ∧ m.event.msg = .gameBeginNotify (some first) ∧
    prior.runsMatch conf m.event.env first = true ∧
    m.post = some (prior.gameBeginNotify conf m.event.env (some first))

/-- The message of a robot with a session is a step of this session, which stays the robot's own. -/
theorem RobotStep.sessionStep {r : RunGame} {e : Event} (h : RobotStep conf robotID (some r) e session)
    (hid : r.robotID = robotID) :
    SessionStep conf (some r) e session ∧ ∀ t, session = some t → t.robotID = robotID := by
  cases h with
  | refused hrefused =>
    refine ⟨⟨r, rfl, RunGame.deliver_refused (hid ▸ hrefused)⟩, fun t ht => ?_⟩
    cases ht
    exact hid
  | session accepted hstep =>
    refine ⟨hstep, fun t ht => ?_⟩
    obtain ⟨_, hr, hdeliver⟩ := hstep
    cases hr
    rw [ht] at hdeliver
    exact (RunGame.deliver_robotID hdeliver).trans hid

/-- From the opening of a hand on, the messages of a robot are a run of one session, for as long as it is there. -/
theorem sessionRun_of_robot (run : StepRun (RobotStep conf robotID) (· = none) moves session) (hne : robotID ≠ 0)
    (hmoves : moves = newer ++ m :: older) (hopens : OpensHand conf robotID first m)
    (hthere : ∀ n ∈ newer, n.pre ≠ none) :
    SessionRun conf first newer session ∧ ∀ r, session = some r → r.robotID = robotID := by
  induction newer generalizing moves session with
  | nil =>
    subst hmoves
    cases run with
    | next _ _ =>
      obtain ⟨prior, hid, -, hruns, hpost⟩ := hopens
      dsimp only at hpost
      refine ⟨.start ⟨_, prior, hid ▸ hne, hruns, hpost⟩, fun r hr => ?_⟩
      rw [hpost] at hr
      cases hr
      exact (RunGame.gameBeginNotify_robotID _).trans hid
  | cons n newer ih =>
    subst hmoves
    cases run with
    | @next _ pre e post run hstep =>
      obtain ⟨hsession, hown⟩ := ih run rfl fun n hn => hthere n (List.mem_cons_of_mem _ hn)
      obtain ⟨r, rfl⟩ := Option.ne_none_iff_exists'.mp (hthere _ List.mem_cons_self)
      obtain ⟨hnext, hkept⟩ := hstep.sessionStep (hown r rfl)
      exact ⟨.next hsession hnext, hkept⟩

end

namespace SessionServer

/-- However the threads take turns, the messages of a robot are handled one after another, each at one moment between
its arrival and its end, and while no thread is at work for the robot the table holds the session that they have led
to. Since a hand was opened, and for as long as the session is there, they are a run of it, so that what holds of every
run of a session holds of the sessions in the table. The order is that of handling: two answers for a robot may reach
the wire the other way round. -/
theorem sessions_linearized {conf : Conf} {size buckets : Nat} {s : SessionServer}
    {trace : List (Transition SessionServer (Option (Int × Event)))} (run : Run conf size buckets trace s)
    (robotID : Int) :
    ∃ moves session, StepRun (RobotStep conf robotID) (· = none) moves session ∧
      moves.map Transition.event = eventsOf robotID (trace.map Transition.event) ∧
      ((∀ w, (s.points w).atWork ≠ some robotID) → ∀ b, s.map.hash robotID = some b → ∀ now,
        s.map.get robotID false now = some (session, s.map)) ∧
      (robotID ≠ 0 → ∀ newer m older first, moves = newer ++ m :: older → OpensHand conf robotID first m →
        (∀ n ∈ newer, n.pre ≠ none) → SessionRun conf first newer session) := by
  obtain ⟨moves, sessions, hrobots, ⟨nodes, hserves⟩, hevents⟩ := follows_robots run
  obtain ⟨own, hown, hmine⟩ := StepRun.of_keyed hrobots robotID
  refine ⟨own, sessions robotID, hown, ?_, fun hidle b hb now => ?_, fun hne newer m older first hmoves hopens hthere => ?_⟩
  · rw [hmine, hevents]
  · rw [hserves.stores.get hb, hserves.settled robotID hidle]
  · exact (sessionRun_of_robot hown hne hmoves hopens hthere).1

end SessionServer

/-- A robot's messages for a server that two threads serve. -/
def serverRequest (robotID : Int) (now : Int) (msg : Msg) : Request := ⟨robotID, msg, callingEnv now, newSession 0⟩

def secondRobot : Int := 9

def newServer : SessionServer := ⟨newHashMap 2 2, 10000, fun _ => none, fun _ => .idle⟩

theorem newServer_start : SessionServer.Start 2 2 newServer :=
  ⟨⟨by decide, by decide, _, rfl⟩, by decide, fun _ => rfl, fun _ => rfl⟩

def nextServe (s : SessionServer) (input : Nat × ThreadInput) : Option (Option (Int × Event) × SessionServer) :=
  s.serve tableConf input.1 input.2

/-- The first steps of two begin notifications for robots of one bucket. -/
def openingInputs : List (Nat × ThreadInput) :=
  [(0, .take (serverRequest robotSeat 0 (.gameBeginNotify (some (robotButton 1))))),
    (1, .take (serverRequest secondRobot 0 (.gameBeginNotify (some ⟨1, playerSeat, 0, playerSeat, 1⟩)))),
    (0, .run), (1, .run), (0, .run), (1, .run), (1, .run), (0, .run), (0, .run), (1, .run),
    (0, .write (newSession 0))]

/-- Both hands are opened, and the cards of one robot arrive while the other one's handler gives its lock back. -/
def servedInputs : List (Nat × ThreadInput) :=
  openingInputs ++ [(1, .run), (0, .run), (0, .run),
    (0, .take (serverRequest robotSeat 1 (.gameSendCardsNotify (some ⟨0, [0x0e, 0x1e], []⟩)))), (0, .run), (1, .run),
    (0, .run), (0, .run), (0, .run)]

theorem served_run (inputs : List (Nat × ThreadInput)) :
    SessionServer.Run tableConf 2 2 (runFrom nextServe newServer inputs).1 (runFrom nextServe newServer inputs).2 :=
  StepRun.runFrom (fun _ (w, input) _ _ h => ⟨w, input, h⟩) newServer_start inputs

theorem sessions_linearized_served :
    ∃ moves session, StepRun (RobotStep tableConf robotSeat) (· = none) moves session ∧ moves.length = 2 := by
  obtain ⟨moves, session, hrun, hevents, -⟩ := SessionServer.sessions_linearized (served_run servedInputs) robotSeat
  have hlength : (eventsOf robotSeat ((runFrom nextServe newServer servedInputs).1.map Transition.event)).length = 2 := by
    decide +kernel
  refine ⟨moves, session, hrun, ?_⟩
  rw [← List.length_map Transition.event, hevents, hlength]

theorem session_owned_opening :
    ∃ x, ∀ now, (runFrom nextServe newServer openingInputs).2.map.getNode robotSeat false now =
      some (some x, (runFrom nextServe newServer openingInputs).2.map) := by
  have hinside : ((runFrom nextServe newServer openingInputs).2.points 0).inside = some robotSeat := by decide +kernel
  have hwrite : ((runFrom nextServe newServer openingInputs).2.serve tableConf 0 (.write (newSession 0))).isSome = true := by
    decide +kernel
  unfold SessionServer.serve at hwrite
  cases hpoint : (runFrom nextServe newServer openingInputs).2.points 0 with
  | work q x found =>
    obtain ⟨hnode, -⟩ := SessionServer.session_owned (served_run openingInputs) hpoint
    rw [hpoint] at hinside
    have hseat : q.robotID = robotSeat := Option.some.inj hinside
    rw [hseat] at hnode
    exact ⟨x, hnode⟩
  | _ =>
    simp only [hpoint] at hwrite
    cases hwrite

/-- A third robot's hand begins while both nodes are in use. -/
def fullInputs : List (Nat × ThreadInput) :=
  servedInputs ++ [(1, .take (serverRequest 11 2 (.gameBeginNotify (some ⟨1, playerSeat, 0, playerSeat, 1⟩)))), (1, .run),
    (1, .run)]

theorem turned_away_full :
    ∃ id ≠ 11, ∀ now, (runFrom nextServe newServer fullInputs).2.map.getNode id false now =
      some (some 0, (runFrom nextServe newServer fullInputs).2.map) := by
  have hpoint : (match (runFrom nextServe newServer fullInputs).2.points 1 with
      | .add q => decide (q.robotID = 11)
      | _ => false) = true := by decide +kernel
  have hhandled : (((runFrom nextServe newServer fullInputs).2.run tableConf 1).bind Prod.fst).isSome = true := by
    decide +kernel
  obtain ⟨handled, hhandled⟩ := Option.isSome_iff_exists.mp hhandled
  obtain ⟨⟨event, t⟩, hrun, rfl⟩ := Option.bind_eq_some_iff.mp hhandled
  cases hadd : (runFrom nextServe newServer fullInputs).2.points 1 with
  | add q =>
    rw [hadd] at hpoint
    obtain ⟨id, hid, hnode⟩ := SessionServer.turned_away (served_run fullInputs) hadd hrun 0 (by decide +kernel)
    rw [of_decide_eq_true hpoint] at hid
    exact ⟨id, hid, hnode⟩
  | _ =>
    rw [hadd] at hpoint
    cases hpoint

end MasterAI
