import MasterAI.SessionRuns

namespace MasterAI

def Msg.result : Msg → Option RunGame.EndNotify
  | .gameResultNotify pb => pb
  | _ => none

namespace RunGame

/-- The notification reaches the scores: the hand is over, not yet recorded, and the cards are valid. -/
def counts (r : RunGame) (pb : EndNotify) : Bool :=
  !r.alreadySaveHistory && r.state.finished &&
    (pb.playerCards.take 2).all (fun c => (apgCardToLocal c).isSome) &&
    (pb.boardCards.take 5).all fun c => (apgCardToLocal c).isSome

/-- The store has no room for the record of the hand. -/
def historyFull (conf : Conf) (env : Env) (r : RunGame) : Bool :=
  !conf.unsaveHistory && decide (r.historyCnt > redisHistoryCnt) && decide (env.lLen > redisHistoryCnt)

end RunGame

structure SameScores (r t : RunGame) : Prop where
  robotScore : t.robotScore = r.robotScore
  playerScore : t.playerScore = r.playerScore
  alreadySaveHistory : t.alreadySaveHistory = r.alreadySaveHistory

structure SameRecord (r t : RunGame) : Prop extends SameScores r t where
  historyCnt : t.historyCnt = r.historyCnt

theorem SameScores.refl (r : RunGame) : SameScores r r := ⟨rfl, rfl, rfl⟩

theorem SameScores.trans {r t u : RunGame} (h : SameScores r t) (k : SameScores t u) : SameScores r u :=
  ⟨k.robotScore.trans h.robotScore, k.playerScore.trans h.playerScore,
    k.alreadySaveHistory.trans h.alreadySaveHistory⟩

theorem SameRecord.trans {r t u : RunGame} (h : SameRecord r t) (k : SameRecord t u) : SameRecord r u :=
  ⟨h.toSameScores.trans k.toSameScores, k.historyCnt.trans h.historyCnt⟩

/-- The value of the hand goes from the player to the robot. -/
structure Scored (conf : Conf) (g : Game) (r t : RunGame) : Prop where
  finished : t.state.finished = true
  score : ∃ value, valueOfState conf.rankCardset g t.state t.matchState.viewingPlayer = some value ∧
    t.robotScore = wrapInt32 (r.robotScore + RunGame.truncate value) ∧
    t.playerScore = wrapInt32 (r.playerScore - RunGame.truncate value)

namespace RunGame

variable {conf : Conf} {env : Env} {r t : RunGame} {g : Game}

theorem storeHoleCards_accepts (r : RunGame) (p : Nat) (cards : List Int) :
    (r.storeHoleCards p cards).2 = cards.all fun c => (apgCardToLocal c).isSome := by
  rw [Bool.eq_iff_iff, List.all_eq_true]
  exact storeApgCards_accepts_iff _ _ _

theorem storeBoardCards_accepts (r : RunGame) (place : Nat) (cards : List Int) :
    (r.storeBoardCards place cards).2 = cards.all fun c => (apgCardToLocal c).isSome := by
  rw [Bool.eq_iff_iff, List.all_eq_true]
  exact storeApgCards_accepts_iff _ _ _

theorem saveHistory_result (conf : Conf) (env : Env) (r : RunGame) :
    (r.saveHistory conf env).2 = !r.historyFull conf env := by
  unfold saveHistory historyFull
  by_cases hsave : conf.unsaveHistory = true
  · simp [hsave]
  · rw [if_neg hsave]
    by_cases hcnt : r.historyCnt > redisHistoryCnt
    · by_cases hlen : env.lLen > redisHistoryCnt
      · simp [hsave, hcnt, hlen]
      · simp [hsave, hcnt, hlen]
    · simp [hsave, hcnt]

theorem scored_of_saved {dealt : RunGame} {value : ℚ} {code : Int} (hrecord : SameRecord r dealt)
    (hsaved : r.alreadySaveHistory = false) (hfin : dealt.state.finished = true)
    (hvalue : valueOfState conf.rankCardset g dealt.state dealt.matchState.viewingPlayer = some value)
    (h : (if ¬((dealt.score (truncate value)).saveHistory conf env).2 = true then
        some (((dealt.score (truncate value)).saveHistory conf env).1, (-112 : Int))
      else some ({ ((dealt.score (truncate value)).saveHistory conf env).1 with alreadySaveHistory := true }, 0))
        = some (t, code)) :
    Scored conf g r t ∧ t.alreadySaveHistory = !r.historyFull conf env := by
  obtain ⟨cnt, hcnt⟩ := saveHistory_eq conf env (dealt.score (truncate value))
  have hresult := saveHistory_result conf env (dealt.score (truncate value))
  have hfull : (dealt.score (truncate value)).historyFull conf env = r.historyFull conf env := by
    simp [historyFull, score, hrecord.historyCnt]
  have hrobot : (dealt.score (truncate value)).robotScore = wrapInt32 (r.robotScore + truncate value) := by
    simp [score, hrecord.robotScore]
  have hplayer : (dealt.score (truncate value)).playerScore = wrapInt32 (r.playerScore - truncate value) := by
    simp [score, hrecord.playerScore]
  rw [hcnt, hresult, hfull] at h
  split at h
  · next hfail =>
    cases h
    refine ⟨⟨hfin, value, hvalue, hrobot, hplayer⟩, ?_⟩
    rw [Bool.eq_false_iff.mpr hfail]
    exact hrecord.alreadySaveHistory.trans hsaved
  · next hsucc =>
    cases h
    exact ⟨⟨hfin, value, hvalue, hrobot, hplayer⟩, (not_not.mp hsucc).symm⟩

/-- A notification that does not count leaves the scores; one that counts moves the value of the
hand, and is remembered unless the record finds no room. -/
theorem doFinished_cases {pb : EndNotify} {code : Int} (hg : conf.getGame r.gameType = some g)
    (h : r.doFinished conf env pb = some (t, code)) :
    (r.counts pb = false ∧ SameScores r t) ∨
      (r.counts pb = true ∧ Scored conf g r t ∧
        t.alreadySaveHistory = !r.historyFull conf env) := by
  have hheld := storeHoleCards_accepts r ((r.matchState.viewingPlayer + 1) % 2) (pb.playerCards.take 2)
  have hheldKept := (storeHoleCards_kept r ((r.matchState.viewingPlayer + 1) % 2) (pb.playerCards.take 2)).1
  have hheldRecord : SameRecord r
      (r.storeHoleCards ((r.matchState.viewingPlayer + 1) % 2) (pb.playerCards.take 2)).1 :=
    ⟨⟨rfl, rfl, rfl⟩, rfl⟩
  unfold doFinished at h
  dsimp only at h
  generalize r.storeHoleCards ((r.matchState.viewingPlayer + 1) % 2) (pb.playerCards.take 2) = held
    at h hheld hheldKept hheldRecord
  have hdealt := storeBoardCards_accepts held.1 0 (pb.boardCards.take 5)
  have hdealtKept := (storeBoardCards_kept held.1 0 (pb.boardCards.take 5)).1
  have hdealtRecord : SameRecord held.1 (held.1.storeBoardCards 0 (pb.boardCards.take 5)).1 :=
    ⟨⟨rfl, rfl, rfl⟩, rfl⟩
  generalize held.1.storeBoardCards 0 (pb.boardCards.take 5) = dealt at h hdealt hdealtKept hdealtRecord
  have hkept := hheldKept.trans hdealtKept
  have hrecord := hheldRecord.trans hdealtRecord
  unfold counts
  rw [← hheld, ← hdealt]
  split at h
  · next hsaved =>
    cases h
    exact .inl ⟨by simp [hsaved], .refl r⟩
  · next hsaved =>
    split at h
    · next hfin =>
      cases h
      exact .inl ⟨by simp [hfin], .refl r⟩
    · next hfin =>
      rw [hg] at h
      dsimp only at h
      split at h
      · next hbad =>
        cases h
        exact .inl ⟨by simp [hbad], hheldRecord.toSameScores⟩
      · next hgood =>
        split at h
        · next hbad =>
          cases h
          exact .inl ⟨by simp [hbad], hrecord.toSameScores⟩
        · next hgood' =>
          split at h
          · cases h
          · next value hvalue =>
            have hcounts : (!r.alreadySaveHistory && r.state.finished && held.2 && dealt.2) = true := by
              rw [Bool.eq_false_iff.mpr hsaved, not_not.mp hfin, not_not.mp hgood, not_not.mp hgood']
              rfl
            rw [← hkept.viewingPlayer] at hvalue
            exact .inr ⟨hcounts, scored_of_saved hrecord (Bool.eq_false_iff.mpr hsaved)
              (hkept.table.finished.trans (not_not.mp hfin)) hvalue h⟩

theorem storeRoundCards_sameScores (r : RunGame) (pb : CardsNotify) :
    SameScores r (r.storeRoundCards pb).1 := by
  unfold storeRoundCards
  dsimp only
  split
  · exact ⟨rfl, rfl, rfl⟩
  · split
    · exact ⟨rfl, rfl, rfl⟩
    · split
      · exact ⟨rfl, rfl, rfl⟩
      · split <;> exact ⟨rfl, rfl, rfl⟩

theorem doSaveCards_sameScores (conf : Conf) (r : RunGame) (pb : CardsNotify) :
    SameScores r (r.doSaveCards conf pb).1 := by
  have h := storeRoundCards_sameScores { r with tRobotRoundSeq := 0 } pb
  unfold doSaveCards
  dsimp only
  split
  · exact .refl r
  · split
    · exact ⟨h.robotScore, h.playerScore, h.alreadySaveHistory⟩
    · split <;> exact ⟨h.robotScore, h.playerScore, h.alreadySaveHistory⟩

theorem doAction_sameScores {actionUid actionType betNum code : Int}
    (h : r.doAction conf env actionUid actionType betNum = some (t, code)) : SameScores r t := by
  unfold doAction at h
  dsimp only at h
  split at h
  · cases h
    exact ⟨rfl, rfl, rfl⟩
  · split at h
    · cases h
      exact ⟨rfl, rfl, rfl⟩
    · split at h
      · cases h
      · split at h
        · cases h
          exact ⟨rfl, rfl, rfl⟩
        · obtain ⟨⟨u, ended⟩, _, k⟩ := Option.map_eq_some_iff.mp h
          cases k
          exact ⟨rfl, rfl, rfl⟩

theorem gameBeginNotify_scores (hr : Running conf g r) (pb : Option BeginNotify) (outputs : List Output) :
    Opening conf r ⟨env, .gameBeginNotify pb, outputs⟩ ∧
        (r.gameBeginNotify conf env pb).alreadySaveHistory = false ∨
      SameScores r (r.gameBeginNotify conf env pb) := by
  cases pb with
  | none => exact .inr (.refl r)
  | some pb =>
    cases hruns : r.runsMatch conf env pb with
    | true =>
      exact .inl ⟨⟨pb, rfl, hruns⟩, (opened_of_runsMatch hruns hr.robotID hr.game).unsaved⟩
    | false =>
      right
      unfold runsMatch at hruns
      simp only [gameBeginNotify, if_neg hr.robotID]
      split at hruns
      · exact ⟨rfl, rfl, rfl⟩
      · simp [doRunMatch, hr.game] at hruns

theorem gameSendCardsNotify_sameScores (conf : Conf) (env : Env) (r : RunGame) (pb : Option CardsNotify) :
    SameScores r (r.gameSendCardsNotify conf env pb) := by
  cases pb with
  | none => exact .refl r
  | some pb =>
    have h := doSaveCards_sameScores conf (r.touch env) pb
    simp only [gameSendCardsNotify]
    split
    · exact .refl r
    · split <;> exact ⟨h.robotScore, h.playerScore, h.alreadySaveHistory⟩

theorem gameActionNotify_sameScores {pb : Option ActionNotify} (h : r.gameActionNotify conf env pb = some t) :
    SameScores r t := by
  cases pb with
  | none =>
    cases h
    exact .refl r
  | some pb =>
    simp only [gameActionNotify] at h
    split at h
    · cases h
      exact .refl r
    · split at h
      · cases h
        exact ⟨rfl, rfl, rfl⟩
      · obtain ⟨⟨done, code⟩, hdo, rfl⟩ := Option.map_eq_some_iff.mp h
        have hsame := doAction_sameScores hdo
        split <;> exact ⟨hsame.robotScore, hsame.playerScore, hsame.alreadySaveHistory⟩

theorem gameRobotActionReq_sameScores {conn : Conn} {parsed : Bool} {outputs : List Output}
    (h : r.gameRobotActionReq conf env conn parsed = some (t, outputs)) : SameScores r t := by
  unfold gameRobotActionReq at h
  split at h
  · cases h
    exact .refl r
  · split at h
    · cases h
      exact .refl r
    · obtain ⟨⟨result, out⟩, _, k⟩ := Option.map_eq_some_iff.mp h
      cases result with
      | error code =>
        cases k
        exact ⟨rfl, rfl, rfl⟩
      | ok request =>
        cases k
        exact ⟨rfl, rfl, rfl⟩

theorem queryActionResp_sameScores {reply : CfrReply} {outputs : List Output}
    (h : r.queryActionResp conf env reply = some (t, outputs)) : SameScores r t := by
  unfold queryActionResp at h
  dsimp only at h
  split at h
  · cases h
    exact ⟨rfl, rfl, rfl⟩
  · split at h
    · cases h
      exact ⟨rfl, rfl, rfl⟩
    · split at h
      · cases h
        exact ⟨rfl, rfl, rfl⟩
      · split at h
        · cases h
          exact ⟨rfl, rfl, rfl⟩
        · split at h
          · cases h
            exact ⟨rfl, rfl, rfl⟩
          · obtain ⟨⟨done, code⟩, hdo, k⟩ := Option.map_eq_some_iff.mp h
            have hsame := doAction_sameScores hdo
            cases k
            exact ⟨hsame.robotScore, hsame.playerScore, hsame.alreadySaveHistory⟩

theorem checkRunGameTimeout_sameScores {outputs : List Output}
    (h : r.checkRunGameTimeout conf env = (some t, outputs)) : SameScores r t := by
  unfold checkRunGameTimeout at h
  split at h
  · cases h
  · split at h
    · cases h
      exact ⟨rfl, rfl, rfl⟩
    · cases h
      exact .refl r

theorem gameQueryStateReq_sameScores {parsed : Bool} {outputs : List Output}
    (h : r.gameQueryStateReq conf env parsed = some (t, outputs)) : SameScores r t := by
  unfold gameQueryStateReq at h
  split at h
  · cases h
    exact .refl r
  · obtain ⟨result, _, k⟩ := Option.map_eq_some_iff.mp h
    cases result with
    | error code =>
      cases k
      exact ⟨rfl, rfl, rfl⟩
    | ok rsp =>
      cases k
      exact ⟨rfl, rfl, rfl⟩

theorem gameResultNotify_scores (hr : Running conf g r) {pb : Option EndNotify}
    (h : r.gameResultNotify conf env pb = some t) :
    ((∀ notify ∈ pb, r.counts notify = false) ∧ SameScores r t) ∨
      ∃ notify ∈ pb, r.counts notify = true ∧ Scored conf g r t ∧
        t.alreadySaveHistory = !r.historyFull conf env := by
  cases pb with
  | none =>
    cases h
    exact .inl ⟨by simp, .refl r⟩
  | some notify =>
    simp only [gameResultNotify, if_neg hr.robotID] at h
    obtain ⟨⟨done, code⟩, hdo, rfl⟩ := Option.map_eq_some_iff.mp h
    rcases doFinished_cases (r := r.touch env) hr.getGame hdo with ⟨hcounts, hsame⟩ | ⟨hcounts, hscored, hflag⟩
    · refine .inl ⟨?_, ⟨hsame.robotScore, hsame.playerScore, hsame.alreadySaveHistory⟩⟩
      rintro _ ⟨⟩
      exact hcounts
    · exact .inr ⟨notify, rfl, hcounts, ⟨hscored.finished, hscored.score⟩, hflag⟩

/-- What a step does to the scores. -/
theorem deliver_scores (hr : Running conf g r) {e : Event}
    (h : r.deliver conf e.env e.msg = some (some t, e.outputs)) :
    (Opening conf r e ∧ t.alreadySaveHistory = false) ∨
      ((∀ pb ∈ e.msg.result, r.counts pb = false) ∧ SameScores r t) ∨
      ∃ pb ∈ e.msg.result, r.counts pb = true ∧ Scored conf g r t ∧
        t.alreadySaveHistory = !r.historyFull conf e.env := by
  obtain ⟨env, msg, outputs⟩ := e
  dsimp only at h
  cases msg with
  | gameBeginNotify pb =>
    cases h
    rcases gameBeginNotify_scores hr pb [] with hopens | hsame
    · exact .inl hopens
    · exact .inr (.inl ⟨by simp [Msg.result], hsame⟩)
  | gameSendCardsNotify pb =>
    cases h
    exact .inr (.inl ⟨by simp [Msg.result], gameSendCardsNotify_sameScores conf env r pb⟩)
  | gameActionNotify pb =>
    obtain ⟨u, hu, k⟩ := Option.map_eq_some_iff.mp h
    cases k
    exact .inr (.inl ⟨by simp [Msg.result], gameActionNotify_sameScores hu⟩)
  | gameResultNotify pb =>
    obtain ⟨u, hu, k⟩ := Option.map_eq_some_iff.mp h
    cases k
    exact .inr (gameResultNotify_scores hr hu)
  | gameRobotActionReq conn parsed =>
    obtain ⟨⟨u, sent⟩, hu, k⟩ := Option.map_eq_some_iff.mp h
    cases k
    exact .inr (.inl ⟨by simp [Msg.result], gameRobotActionReq_sameScores hu⟩)
  | queryActionResp reply =>
    obtain ⟨⟨u, sent⟩, hu, k⟩ := Option.map_eq_some_iff.mp h
    cases k
    exact .inr (.inl ⟨by simp [Msg.result], queryActionResp_sameScores hu⟩)
  | checkRunGameTimeout =>
    exact .inr (.inl ⟨by simp [Msg.result], checkRunGameTimeout_sameScores (Option.some.inj h)⟩)
  | gameQueryStateReq parsed =>
    obtain ⟨⟨u, sent⟩, hu, k⟩ := Option.map_eq_some_iff.mp h
    cases k
    exact .inr (.inl ⟨by simp [Msg.result], gameQueryStateReq_sameScores hu⟩)

end RunGame

/-- A notification that reaches the scores. -/
def countsResult (m : SessionMove) : Bool := m.pre.any fun r => m.event.msg.result.any r.counts

/-- A notification that reaches the scores while the store has no room for the record. -/
def losesRecord (conf : Conf) (m : SessionMove) : Bool :=
  countsResult m && m.pre.any fun r => r.historyFull conf m.event.env

def namesHand (m : SessionMove) : Bool :=
  m.pre.all fun r => m.event.msg.result.all fun pb => pb.hand = r.state.handId

/-- A notification that reaches the scores names the hand, and no earlier one of the hand lost its
record. -/
def Creditable (conf : Conf) (older : List SessionMove) (m : SessionMove) : Prop :=
  countsResult m = true → namesHand m = true ∧ ∀ m' ∈ handMoves conf older, losesRecord conf m' = false

instance (conf : Conf) (older : List SessionMove) (m : SessionMove) : Decidable (Creditable conf older m) :=
  inferInstanceAs (Decidable (_ → _))

/-- The two scores changed. -/
def changesScores (m : SessionMove) : Bool :=
  m.post.any fun t => m.pre.any fun r => t.robotScore ≠ r.robotScore || t.playerScore ≠ r.playerScore

/-- A change of the scores within a hand is the first of the hand, comes with a notification of the
hand, and moves the value of the finished hand from the player to the robot. -/
def ScoredOnce (conf : Conf) (older : List SessionMove) (m : SessionMove) : Prop :=
  opening conf m = false → changesScores m = true →
    (m.event.msg.result.isSome = true ∧ namesHand m = true) ∧
      (∀ m' ∈ handMoves conf older, changesScores m' = false) ∧
      ∃ r t g v, m.pre = some r ∧ m.post = some t ∧ conf.getGame gameTypeNoLimit2P = some g ∧
        t.state.finished = true ∧
        valueOfState conf.rankCardset g t.state t.matchState.viewingPlayer = some ((v : Int) : ℚ) ∧
        t.robotScore = wrapInt32 (r.robotScore + v) ∧ t.playerScore = wrapInt32 (r.playerScore - v)

section

variable {conf : Conf} {g : Game} {first : BeginNotify} {trace older : List SessionMove}
  {s : Option RunGame} {r t : RunGame} {e : Event}

theorem truncate_int (v : Int) : RunGame.truncate (v : ℚ) = wrapInt32 v := by
  unfold RunGame.truncate
  split
  · simp
  · simp

theorem SameScores.unchanged (h : SameScores r t) : changesScores ⟨some r, e, some t⟩ = false := by
  simp [changesScores, h.robotScore, h.playerScore]

/-- A change of the scores is remembered, or its record was lost. -/
def ScoreInv (conf : Conf) (trace : List SessionMove) (r : RunGame) : Prop :=
  ∀ m ∈ handMoves conf trace, changesScores m = true →
    losesRecord conf m = true ∨ r.alreadySaveHistory = true

theorem ScoreInv.keep (hr : Running conf g r) (inv : ScoreInv conf older r)
    (h : r.deliver conf e.env e.msg = some (some t, e.outputs)) :
    ScoreInv conf (⟨some r, e, some t⟩ :: older) t := by
  cases hopening : opening conf ⟨some r, e, some t⟩ with
  | true =>
    rw [ScoreInv, handMoves_of_opening hopening]
    simp
  | false =>
    have hgoing : ¬Opening conf r e := opening_eq_false.mp hopening
    rw [ScoreInv, handMoves_of_not_opening hopening]
    intro m hm hchanges
    rcases RunGame.deliver_scores hr h with ⟨hopens, _⟩ | ⟨_, hsame⟩ | ⟨pb, hpb, hcounts, _, hflag⟩
    · exact absurd hopens hgoing
    · rcases List.mem_cons.mp hm with rfl | hm
      · cases hsame.unchanged.symm.trans hchanges
      · rw [hsame.alreadySaveHistory]
        exact inv m hm hchanges
    · rcases List.mem_cons.mp hm with rfl | hm
      · rw [hflag]
        cases hfull : r.historyFull conf e.env with
        | true =>
          rw [Option.mem_def] at hpb
          exact .inl (by simp [losesRecord, countsResult, hpb, hcounts, hfull])
        | false => exact .inr rfl
      · rcases inv m hm hchanges with hlost | hsaved
        · exact .inl hlost
        · simp [RunGame.counts, hsaved] at hcounts

theorem SessionRun.scoreInv (run : SessionRun conf first trace (some r)) : ScoreInv conf trace r := by
  obtain ⟨g, hg⟩ := SessionRun.game run
  refine (SessionRun.step_rule (ScoreInv conf) run hg (guarded_anyMove trace) ?_ ?_).2
  · intro prior t _
    simp [ScoreInv, handMoves]
  · intro older r e t hr inv _ hdeliver
    exact inv.keep hr hdeliver

theorem Scored.int (h : Scored conf g r t) (hn : g.numPlayers = 2) :
    ∃ v : Int, valueOfState conf.rankCardset g t.state t.matchState.viewingPlayer = some (v : ℚ) ∧
      t.robotScore = wrapInt32 (r.robotScore + v) ∧ t.playerScore = wrapInt32 (r.playerScore - v) := by
  obtain ⟨value, hvalue, hrobot, hplayer⟩ := h.score
  obtain ⟨v, rfl⟩ := valueOfState_int hn hvalue
  rw [truncate_int] at hrobot hplayer
  refine ⟨v, hvalue, hrobot.trans ?_, hplayer.trans ?_⟩
  · simp [wrapInt32]
  · simp [wrapInt32]

theorem ScoreInv.scoredOnce {post : Option RunGame} (hr : Running conf g r) (hn : g.numPlayers = 2)
    (inv : ScoreInv conf older r) (hcredit : Creditable conf older ⟨some r, e, post⟩)
    (h : r.deliver conf e.env e.msg = some (post, e.outputs)) :
    ScoredOnce conf older ⟨some r, e, post⟩ := by
  intro hopening hchanges
  cases post with
  | none => cases hchanges
  | some t =>
    have hgoing : ¬Opening conf r e := opening_eq_false.mp hopening
    rcases RunGame.deliver_scores hr h with ⟨hopens, _⟩ | ⟨_, hsame⟩ | ⟨pb, hpb, hcounts, hscored, _⟩
    · exact absurd hopens hgoing
    · cases hsame.unchanged.symm.trans hchanges
    · have hcountsResult : countsResult ⟨some r, e, some t⟩ = true := by
        rw [Option.mem_def] at hpb
        simp [countsResult, hpb, hcounts]
      obtain ⟨hnames, hkept⟩ := hcredit hcountsResult
      obtain ⟨v, hvalue, hrobot, hplayer⟩ := hscored.int hn
      refine ⟨⟨Option.isSome_iff_exists.mpr ⟨pb, hpb⟩, hnames⟩, ?_,
        r, t, g, v, rfl, rfl, hr.game, hscored.finished, hvalue, hrobot, hplayer⟩
      intro m hm
      rw [← Bool.not_eq_true]
      intro hearlier
      rcases inv m hm hearlier with hlost | hsaved
      · cases (hkept m hm).symm.trans hlost
      · simp [RunGame.counts, hsaved] at hcounts

/-- When every notification that reaches the scores names the hand and none follows one of the same
hand whose record was lost, the scores change at most once in a hand, by the value of the finished
hand for the seat of the robot. -/
theorem scored_once (two : ∀ g, conf.getGame gameTypeNoLimit2P = some g → g.numPlayers = 2)
    (run : SessionRun conf first trace s) (credit : Guarded (Creditable conf) trace) :
    Guarded (ScoredOnce conf) trace := by
  obtain ⟨g, hg⟩ := SessionRun.game run
  induction run with
  | start => trivial
  | next run hstep ih =>
    refine ⟨?_, ih credit.2⟩
    obtain ⟨r, rfl, hdeliver⟩ := hstep
    exact (SessionRun.scoreInv run).scoredOnce (SessionRun.running run hg) (two g hg) credit.1 hdeliver

end

/-- The player folds, and the result is reported twice. -/
def resultPlay (hand : UInt32) : List (Env × Msg) :=
  [(callingEnv 1, .gameActionNotify (some ⟨playerSeat, 0, 0⟩)),
    (callingEnv 2, .gameResultNotify (some ⟨hand, 1, [0x02, 0x13], []⟩)),
    (callingEnv 3, .gameResultNotify (some ⟨hand, 1, [0x02, 0x13], []⟩))]

theorem scored_once_resultPlay :
    Guarded (ScoredOnce tableConf) (tableRun (playerButton 1) (resultPlay 1)).1 ∧
      (tableRun (playerButton 1) (resultPlay 1)).1.countP changesScores = 1 :=
  ⟨scored_once
      (by
        intro g hg
        cases hg
        decide)
      (tableRun_run (playerButton 1) (resultPlay 1)) (by decide +kernel),
    by decide +kernel⟩

/-- The part of `ScoredOnce` that can be computed. -/
def NamedOnce (conf : Conf) (older : List SessionMove) (m : SessionMove) : Prop :=
  opening conf m = false → changesScores m = true →
    namesHand m = true ∧ ∀ m' ∈ handMoves conf older, changesScores m' = false

instance (conf : Conf) (older : List SessionMove) (m : SessionMove) : Decidable (NamedOnce conf older m) :=
  inferInstanceAs (Decidable (_ → _ → _))

theorem ScoredOnce.named {conf : Conf} {older : List SessionMove} {m : SessionMove}
    (h : ScoredOnce conf older m) : NamedOnce conf older m := by
  intro hopening hchanges
  obtain ⟨⟨_, hnames⟩, hfirst, _⟩ := h hopening hchanges
  exact ⟨hnames, hfirst⟩

def fullEnv (now : Int) : Env := { callingEnv now with lLen := 100001, lPush := 100001 }

/-- The store is full after the first hand, so the second hand is scored with each notification. -/
def fullPlay : List (Env × Msg) :=
  [(fullEnv 1, .gameActionNotify (some ⟨playerSeat, 0, 0⟩)),
    (fullEnv 2, .gameResultNotify (some ⟨1, 1, [0x02, 0x13], []⟩)),
    (fullEnv 3, .gameBeginNotify (some (playerButton 2))),
    (fullEnv 4, .gameActionNotify (some ⟨playerSeat, 0, 0⟩)),
    (fullEnv 5, .gameResultNotify (some ⟨2, 1, [0x02, 0x13], []⟩)),
    (fullEnv 6, .gameResultNotify (some ⟨2, 1, [0x02, 0x13], []⟩))]

/-- The result of another hand is scored, and a full store lets the same result be scored twice. -/
theorem foreign_or_repeated_result_scored :
    (∃ first trace s, SessionRun tableConf first trace s ∧ ¬Guarded (ScoredOnce tableConf) trace ∧
      ∀ m ∈ trace, losesRecord tableConf m = false) ∧
    ∃ first trace s, SessionRun tableConf first trace s ∧ ¬Guarded (ScoredOnce tableConf) trace ∧
      ∀ m ∈ trace, namesHand m = true := by
  refine ⟨⟨playerButton 1, _, _, tableRun_run (playerButton 1) (resultPlay 99), fun h => ?_, by decide +kernel⟩,
    ⟨playerButton 1, _, _, tableRun_run (playerButton 1) fullPlay, fun h => ?_, by decide +kernel⟩⟩
  · exact absurd (h.imp fun _ _ => ScoredOnce.named) (by decide +kernel)
  · exact absurd (h.imp fun _ _ => ScoredOnce.named) (by decide +kernel)

end MasterAI
