import MasterAI.RobotSession

namespace MasterAI

/-- The two states agree but for the cards. -/
def SameTable (s t : State) : Prop :=
  t = { s with boardCards := t.boardCards, holeCards := t.holeCards }

theorem SameTable.trans {s t u : State} (h : SameTable s t) (k : SameTable t u) : SameTable s u := by
  unfold SameTable at *
  rw [k, h]

theorem SameTable.round {s t : State} (h : SameTable s t) : t.round = s.round := by rw [h]
theorem SameTable.action {s t : State} (h : SameTable s t) : t.action = s.action := by rw [h]
theorem SameTable.handId {s t : State} (h : SameTable s t) : t.handId = s.handId := by rw [h]
theorem SameTable.finished {s t : State} (h : SameTable s t) : t.finished = s.finished := by rw [h]
theorem SameTable.spent {s t : State} (h : SameTable s t) : t.spent = s.spent := by rw [h]

theorem SameTable.currentPlayer {s t : State} (h : SameTable s t) (g : Game) :
    currentPlayer g t = currentPlayer g s := by
  have loop : ∀ left n, nextPlayerLoop g t left n = nextPlayerLoop g s left n := by
    intro left
    induction left with
    | zero => intro n; rfl
    | succ left ih =>
      intro n
      have hc : ∀ p, canAct g t p = canAct g s p := fun p => by rw [h]; rfl
      simp only [nextPlayerLoop, hc, ih]
  simp only [MasterAI.currentPlayer, nextPlayer, loop, h.action, h.round]

/-- The players of the session keep their identities and seats. -/
structure SameSeats (r t : RunGame) : Prop where
  robotID : t.robotID = r.robotID
  gameType : t.gameType = r.gameType
  playerID : t.playerID = r.playerID
  viewingPlayer : t.matchState.viewingPlayer = r.matchState.viewingPlayer

/-- A step without a bet. -/
structure Kept (r t : RunGame) : Prop extends SameSeats r t where
  table : SameTable r.state t.state
  actionSeq : t.actionSeq = r.actionSeq

/-- A step with one action of the current player. -/
structure Moved (g : Game) (a : Action) (r t : RunGame) : Prop extends SameSeats r t where
  act : ∃ ended, doAction g a r.state = some (t.state, ended)
  actionSeq : t.actionSeq = (r.actionSeq + 1) % 256

/-- The first state of a hand. -/
structure Opened (g : Game) (pb : BeginNotify) (r t : RunGame) : Prop where
  robotID : t.robotID = r.robotID
  gameType : t.gameType = gameTypeNoLimit2P
  playerID : t.playerID = pb.playerID
  viewingPlayer : t.matchState.viewingPlayer = if pb.bankerID = r.robotID then 1 else 0
  state : t.state = initState g pb.hand (RunGame.clearedMatchState 0).state
  actionSeq : t.actionSeq = 0
  runState : t.runState = .ok
  unsaved : t.alreadySaveHistory = false

section

variable {conf : Conf} {r t : RunGame} {g : Game}

theorem Kept.refl (r : RunGame) : Kept r r := ⟨⟨rfl, rfl, rfl, rfl⟩, rfl, rfl⟩

theorem Kept.touch (env : Env) (r : RunGame) : Kept r (r.touch env) := ⟨⟨rfl, rfl, rfl, rfl⟩, rfl, rfl⟩

theorem Kept.trans {u : RunGame} (h : Kept r t) (k : Kept t u) : Kept r u where
  robotID := k.robotID.trans h.robotID
  gameType := k.gameType.trans h.gameType
  playerID := k.playerID.trans h.playerID
  viewingPlayer := k.viewingPlayer.trans h.viewingPlayer
  table := h.table.trans k.table
  actionSeq := k.actionSeq.trans h.actionSeq

theorem Kept.getCurrentPlayerID (h : Kept r t) (conf : Conf) :
    t.getCurrentPlayerID conf = r.getCurrentPlayerID conf := by
  simp only [RunGame.getCurrentPlayerID, h.table.finished, h.gameType, h.table.currentPlayer,
    h.viewingPlayer, h.robotID, h.playerID]

/-- A session with a hand. -/
structure Running (conf : Conf) (g : Game) (r : RunGame) : Prop where
  robotID : r.robotID ≠ 0
  gameType : r.gameType = gameTypeNoLimit2P
  game : conf.getGame gameTypeNoLimit2P = some g

theorem Running.getGame (h : Running conf g r) : conf.getGame r.gameType = some g := by
  rw [h.gameType, h.game]

theorem Running.wellFormed (h : Running conf g r) : g.WellFormed := by
  obtain ⟨file, hfile⟩ := conf.loaded _ g h.game
  exact readGame_wellFormed hfile

theorem Running.of_sameSeats (h : Running conf g r) (k : SameSeats r t) : Running conf g t :=
  ⟨k.robotID ▸ h.robotID, k.gameType.trans h.gameType, h.game⟩

end

namespace RunGame

variable {conf : Conf} {env : Env} {r t : RunGame} {g : Game}

theorem setCfrModelLoop_eq {again : Nat} {model : List Char}
    (h : setCfrModelLoop conf env r again model = .ok t) :
    ∃ model' server, t = { r with cfrModel := model', cfrServerID := server } := by
  fun_induction setCfrModelLoop conf env r again model with
  | case1 => exact ⟨_, _, (Except.ok.inj h).symm⟩
  | case5 _ _ _ _ _ _ _ ih => exact ih h
  | case7 => exact ⟨_, _, (Except.ok.inj h).symm⟩
  | _ => cases h

theorem setPlayerID_eq (r : RunGame) (v : Int) :
    ∃ score, r.setPlayerID v = { r with playerID := v, robotScore := score } := by
  unfold setPlayerID
  split
  · exact ⟨_, rfl⟩
  · next h =>
    refine ⟨r.robotScore, ?_⟩
    rw [not_not.mp h]

theorem opened_of_runsMatch {pb : BeginNotify} (h : r.runsMatch conf env pb = true)
    (hr : r.robotID ≠ 0) (hg : conf.getGame gameTypeNoLimit2P = some g) :
    Opened g pb r (r.gameBeginNotify conf env (some pb)) := by
  unfold runsMatch at h
  simp only [gameBeginNotify, if_neg hr]
  split at h
  · cases h
  · next modelled hm =>
    obtain ⟨model, server, rfl⟩ := setCfrModelLoop_eq hm
    obtain ⟨score, hp⟩ := setPlayerID_eq (touch env (doRunMatch conf
      { r.touch env with cfrModel := model, cfrServerID := server } pb.hand pb.bankerID).1) pb.playerID
    rw [if_neg (not_not.mpr (of_decide_eq_true h)), hp]
    simp only [doRunMatch, hg]
    exact ⟨rfl, rfl, rfl, rfl, rfl, rfl, rfl, rfl⟩

theorem kept_of_not_runsMatch {pb : BeginNotify} (h : r.runsMatch conf env pb = false)
    (hr : Running conf g r) :
    Kept r (r.gameBeginNotify conf env (some pb)) ∧
      (r.gameBeginNotify conf env (some pb)).runState = r.runState := by
  unfold runsMatch at h
  simp only [gameBeginNotify, if_neg hr.robotID]
  split at h
  · exact ⟨Kept.touch env r, rfl⟩
  · simp [doRunMatch, hr.game] at h

/-- The cards that the notification of a round brings. -/
def RoundCards (pb : CardsNotify) : Prop :=
  (pb.round = 0 ∧ pb.robotCards.length = 2 ∧ ∀ c ∈ pb.robotCards, (apgCardToLocal c).isSome) ∨
    (pb.round = 1 ∧ pb.boardCards.length = 3 ∧ ∀ c ∈ pb.boardCards, (apgCardToLocal c).isSome) ∨
    ((pb.round = 2 ∨ pb.round = 3) ∧ pb.boardCards.length = 1 ∧
      ∀ c ∈ pb.boardCards, (apgCardToLocal c).isSome)

/-- The cards fit the round of the hand. -/
def CardsFit (r : RunGame) (pb : CardsNotify) : Prop := pb.round = r.state.round ∧ RoundCards pb

theorem storeApgCards_accepts_iff (place : Nat) (cards : List Int) (stored : Nat → Nat) :
    (storeApgCards place cards stored).2 = true ↔ ∀ c ∈ cards, (apgCardToLocal c).isSome := by
  induction cards generalizing place stored with
  | nil => simp [storeApgCards]
  | cons c cards ih =>
    unfold storeApgCards
    cases hc : apgCardToLocal c with
    | none => simp [hc]
    | some card => simp [hc, ih]

theorem storeHoleCards_kept (r : RunGame) (p : Nat) (cards : List Int) :
    Kept r (r.storeHoleCards p cards).1 ∧ (r.storeHoleCards p cards).1.runState = r.runState :=
  ⟨⟨⟨rfl, rfl, rfl, rfl⟩, rfl, rfl⟩, rfl⟩

theorem storeBoardCards_kept (r : RunGame) (place : Nat) (cards : List Int) :
    Kept r (r.storeBoardCards place cards).1 ∧
      (r.storeBoardCards place cards).1.runState = r.runState :=
  ⟨⟨⟨rfl, rfl, rfl, rfl⟩, rfl, rfl⟩, rfl⟩

theorem storeRoundCards_kept (r : RunGame) (pb : CardsNotify) :
    Kept r (r.storeRoundCards pb).1 ∧ (r.storeRoundCards pb).1.runState = r.runState := by
  unfold storeRoundCards
  dsimp only
  split
  · exact storeHoleCards_kept r _ _
  · split
    · exact storeBoardCards_kept r _ _
    · split
      · exact storeBoardCards_kept r _ _
      · split
        · exact storeBoardCards_kept r _ _
        · exact ⟨Kept.refl r, rfl⟩

theorem doSaveCards_kept (conf : Conf) (r : RunGame) (pb : CardsNotify) :
    Kept r (r.doSaveCards conf pb).1 ∧ (r.doSaveCards conf pb).1.runState = r.runState := by
  have h := storeRoundCards_kept { r with tRobotRoundSeq := 0 } pb
  have k : Kept r { r with tRobotRoundSeq := 0 } := ⟨⟨rfl, rfl, rfl, rfl⟩, rfl, rfl⟩
  unfold doSaveCards
  dsimp only
  split
  · exact ⟨Kept.refl r, rfl⟩
  · split
    · exact ⟨k.trans h.1, h.2⟩
    · split
      · exact ⟨k.trans h.1, h.2⟩
      · exact ⟨k.trans h.1, h.2⟩

theorem storeRoundCards_accepts_iff (r : RunGame) (pb : CardsNotify) :
    (r.storeRoundCards pb).2 = 0 ↔ RoundCards pb := by
  have hole : ∀ p cards, (r.storeHoleCards p cards).2 = true ↔
      ∀ c ∈ cards, (apgCardToLocal c).isSome := fun p cards => storeApgCards_accepts_iff _ _ _
  have board : ∀ place cards, (r.storeBoardCards place cards).2 = true ↔
      ∀ c ∈ cards, (apgCardToLocal c).isSome := fun place cards => storeApgCards_accepts_iff _ _ _
  unfold storeRoundCards RoundCards
  dsimp only
  split
  · next h => simp [h.1, h.2, ← hole r.matchState.viewingPlayer]
  · next h0 =>
    split
    · next h => simp [h.1, h.2, ← board 0]
    · next h1 =>
      split
      · next h => simp [h.1, h.2, ← board 3]
      · next h2 =>
        split
        · next h => simp [h.1, h.2, ← board 4]
        · next h3 =>
          simp only [show ((-110 : Int) = 0) = False by decide, false_iff]
          rintro (⟨hr, hl, _⟩ | ⟨hr, hl, _⟩ | ⟨hr | hr, hl, _⟩)
          · exact h0 ⟨hr, hl⟩
          · exact h1 ⟨hr, hl⟩
          · exact h2 ⟨hr, hl⟩
          · exact h3 ⟨hr, hl⟩

theorem doSaveCards_accepts_iff (hg : conf.getGame r.gameType = some g) (pb : CardsNotify) :
    (r.doSaveCards conf pb).2 = 0 ↔ r.CardsFit pb := by
  unfold doSaveCards CardsFit
  dsimp only
  split
  · next h => simp [h]
  · next h =>
    rw [← storeRoundCards_accepts_iff { r with tRobotRoundSeq := 0 } pb]
    split
    · next hs => simp [hs]
    · next hs => simp [hg, not_not.mp h, not_not.mp hs]

/-- The action that `DoAction` hands to the game. -/
def givenAction (r : RunGame) (actionUid actionType betNum : Int) : Action :=
  ⟨actionTypeOf actionType, (r.noteAction actionUid actionType betNum).betSize⟩

/-- `DoAction` passes its checks and enters `doAction` of the game. -/
def Enters (conf : Conf) (env : Env) (r : RunGame) (actionUid actionType betNum : Int) : Prop :=
  ∃ g, conf.getGame r.gameType = some g ∧ r.getCurrentPlayerID conf = actionUid ∧
    r.checkAction env g (r.givenAction actionUid actionType betNum) = some 0

theorem doAction_cases {actionUid actionType betNum code : Int}
    (hg : conf.getGame r.gameType = some g)
    (h : r.doAction conf env actionUid actionType betNum = some (t, code)) :
    (code ≠ 0 ∧ ¬r.Enters conf env actionUid actionType betNum ∧ Kept r t ∧ t.runState = r.runState) ∨
      (code = 0 ∧ r.Enters conf env actionUid actionType betNum ∧
        Moved g (r.givenAction actionUid actionType betNum) r t ∧ t.runState = r.runState ∧
        t.lastAction = r.noteAction actionUid actionType betNum) := by
  have kept : ∀ note, Kept r { r with lastAction := note } :=
    fun note => ⟨⟨rfl, rfl, rfl, rfl⟩, rfl, rfl⟩
  unfold doAction at h
  simp only [hg] at h
  split at h
  · next hturn =>
    obtain ⟨rfl, rfl⟩ := Prod.mk.inj (Option.some.inj h)
    refine .inl ⟨by decide, ?_, kept _, rfl⟩
    rintro ⟨_, _, k, _⟩
    exact hturn k
  · next hturn =>
    split at h
    · cases h
    · next checked hchecked =>
      split at h
      · next hcode =>
        obtain ⟨rfl, rfl⟩ := Prod.mk.inj (Option.some.inj h)
        refine .inl ⟨by decide, ?_, kept _, rfl⟩
        rintro ⟨g', hg', _, k⟩
        cases hg.symm.trans hg'
        exact hcode (Option.some.inj (hchecked.symm.trans k))
      · next hcode =>
        obtain ⟨⟨u, ended⟩, hdo, k⟩ := Option.map_eq_some_iff.mp h
        obtain ⟨rfl, rfl⟩ := Prod.mk.inj k
        refine .inr ⟨rfl, ⟨g, hg, not_not.mp hturn, ?_⟩, ⟨⟨rfl, rfl, rfl, rfl⟩, ⟨ended, hdo⟩, rfl⟩, rfl, rfl⟩
        rw [← not_not.mp hcode]
        exact hchecked

theorem saveHistory_eq (conf : Conf) (env : Env) (r : RunGame) :
    ∃ cnt, (r.saveHistory conf env).1 = { r with historyCnt := cnt } := by
  unfold saveHistory
  by_cases hsave : conf.unsaveHistory
  · exact ⟨r.historyCnt, by rw [if_pos hsave]⟩
  · rw [if_neg hsave]
    generalize (if r.historyCnt > redisHistoryCnt then env.lLen else r.historyCnt) = cnt
    by_cases hfull : cnt > redisHistoryCnt
    · exact ⟨cnt, by rw [if_pos hfull]⟩
    · exact ⟨env.lPush, by rw [if_neg hfull]⟩

theorem doFinished_kept {pb : EndNotify} {code : Int} (h : r.doFinished conf env pb = some (t, code)) :
    Kept r t ∧ t.runState = r.runState := by
  have hheld := storeHoleCards_kept r ((r.matchState.viewingPlayer + 1) % 2) (pb.playerCards.take 2)
  unfold doFinished at h
  dsimp only at h
  generalize r.storeHoleCards ((r.matchState.viewingPlayer + 1) % 2) (pb.playerCards.take 2) = held at h hheld
  have hdealt := storeBoardCards_kept held.1 0 (pb.boardCards.take 5)
  generalize held.1.storeBoardCards 0 (pb.boardCards.take 5) = dealt at h hdealt
  split at h
  · cases h
    exact ⟨Kept.refl r, rfl⟩
  · split at h
    · cases h
      exact ⟨Kept.refl r, rfl⟩
    · split at h
      · cases h
        exact ⟨Kept.refl r, rfl⟩
      · split at h
        · cases h
          exact hheld
        · split at h
          · cases h
            exact ⟨hheld.1.trans hdealt.1, hdealt.2.trans hheld.2⟩
          · split at h
            · cases h
            · next value _ =>
              obtain ⟨cnt, hsaved⟩ := saveHistory_eq conf env (dealt.1.score (truncate value))
              have hkept := hheld.1.trans hdealt.1
              have hrun := hdealt.2.trans hheld.2
              rw [hsaved] at h
              split at h
              · cases h
                exact ⟨hkept.trans ⟨⟨rfl, rfl, rfl, rfl⟩, rfl, rfl⟩, hrun⟩
              · cases h
                exact ⟨hkept.trans ⟨⟨rfl, rfl, rfl, rfl⟩, rfl, rfl⟩, hrun⟩

/-- The session can send a request to the CFR server. -/
def Ready (conf : Conf) (env : Env) (g : Game) (r : RunGame) : Prop :=
  r.runState = .ok ∧ r.getCurrentPlayerID conf = r.robotID ∧ env.connected r.cfrServerID = true ∧
    (printMatchState g r.matchState 500).isSome ∧ (conf.getCfrServer r.cfrModel).isSome ∧
    env.freeNode = true ∧
    ∃ node key, env.tree (getActionInfo r.matchState).actionSeq = some node ∧
      env.cfrKey r.cfrModel (getActionInfo r.matchState) node = .ok key

/-- The request carries the place in the hand at which it is sent. -/
structure RequestOf (r : RunGame) (request : CfrRequest) : Prop where
  robotID : request.robotID = r.robotID
  handID : request.handID = r.state.handId
  round : request.round = r.state.round
  actionSeq : request.actionSeq = r.actionSeq
  actionInfo : request.actionInfo = (getActionInfo r.matchState).toText

theorem requestActionFromCfr_cases (env : Env) (hg : conf.getGame r.gameType = some g) :
    (∃ code, r.requestActionFromCfr conf env = .error code ∧ ¬r.Ready conf env g) ∨
      ∃ request, r.requestActionFromCfr conf env = .ok request ∧ r.Ready conf env g ∧
        r.RequestOf request := by
  unfold requestActionFromCfr Ready
  dsimp only
  split
  · next h => simp [h]
  · next hrun =>
    split
    · next h => simp [h]
    · next hturn =>
      split
      · next h => simp [h]
      · next hconn =>
        simp only [hg]
        split
        · next h => simp [Option.isNone_iff_eq_none.mp h]
        · next hprint =>
          split
          · next h => simp [h]
          · next h => simp [h]
          · next node server hnode hserver =>
            split
            · next code hkey => simp [hnode, hkey]
            · next key hkey =>
              split
              · next h => simp [h]
              · next hfree =>
                refine .inr ⟨_, rfl, ⟨not_not.mp hrun, not_not.mp hturn, not_not.mp hconn, ?_, ?_,
                  not_not.mp hfree, node, key, hnode, hkey⟩, ⟨rfl, rfl, rfl, rfl, rfl⟩⟩
                · simpa [Option.isSome_iff_ne_none] using hprint
                · simp [hserver]

end RunGame

end MasterAI
