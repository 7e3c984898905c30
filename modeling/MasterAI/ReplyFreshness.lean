import MasterAI.SessionRuns

namespace MasterAI

/-- The hands that the moves opened. -/
def openedHands (conf : Conf) (trace : List SessionMove) : List UInt32 :=
  trace.filterMap fun m =>
    match m.event.msg with
    | .gameBeginNotify (some pb) => if opening conf m then some pb.hand else none
    | _ => none

def Output.request : Output → Option CfrRequest
  | .cfrRequest q => some q
  | _ => none

/-- The requests that the step sends to the CFR server. -/
def Event.requests (e : Event) : List CfrRequest := e.outputs.filterMap Output.request

def Msg.reply : Msg → Option CfrReply
  | .queryActionResp reply => some reply
  | _ => none

/-- The reply repeats the place that the request named. What it says of the situation may differ. -/
structure Echoes (reply : CfrReply) (request : CfrRequest) : Prop where
  handID : reply.handID = request.handID
  round : reply.round = request.round
  actionSeq : reply.actionSeq = request.actionSeq

instance (reply : CfrReply) (request : CfrRequest) : Decidable (Echoes reply request) :=
  decidable_of_iff (reply.handID = request.handID ∧ reply.round = request.round ∧
      reply.actionSeq = request.actionSeq)
    ⟨fun h => ⟨h.1, h.2.1, h.2.2⟩, fun h => ⟨h.handID, h.round, h.actionSeq⟩⟩

/-- A reply repeats a request of this session, or one of an earlier session with other hands. -/
def EchoesRequest (conf : Conf) (first : BeginNotify) (older : List SessionMove) (m : SessionMove) : Prop :=
  ∀ reply ∈ m.event.msg.reply,
    (∃ u ∈ older, ∃ q ∈ u.event.requests, Echoes reply q) ∨
      reply.handID ∉ first.hand :: openedHands conf older

instance (conf : Conf) (first : BeginNotify) (older : List SessionMove) (m : SessionMove) :
    Decidable (EchoesRequest conf first older m) :=
  inferInstanceAs (Decidable (∀ reply ∈ m.event.msg.reply, _))

/-- The reply made `DoAction` count an action. -/
def appliesReply (m : SessionMove) : Bool :=
  m.event.msg.reply.isSome && decide (m.post.map RunGame.actionSeq ≠ m.pre.map RunGame.actionSeq)

/-- An applied reply repeats an earlier request, finds the hand with the actions it had at every
request that it repeats, and comes to a decision point at which no reply was applied before. -/
def FreshReply (older : List SessionMove) (m : SessionMove) : Prop :=
  appliesReply m = true → ∃ r reply, m.pre = some r ∧ m.event.msg = .queryActionResp reply ∧
    (∃ u ∈ older, ∃ q ∈ u.event.requests, Echoes reply q) ∧
    (∀ u ∈ older, ∀ q ∈ u.event.requests, Echoes reply q →
      ∃ asked, u.pre = some asked ∧ asked.state.handId = r.state.handId ∧
        asked.state.action = r.state.action) ∧
    ∀ u ∈ older, appliesReply u = true → ∀ earlier, u.pre = some earlier →
      ¬(earlier.state.handId = r.state.handId ∧ earlier.state.action = r.state.action)

/-- The hand of `s` after `k` more actions. -/
structure Later (k : Nat) (s t : RunGame) : Prop where
  handId : t.state.handId = s.state.handId
  actionSeq : t.actionSeq % 256 = (s.actionSeq + k) % 256
  round : s.state.round ≤ t.state.round
  count : t.state.round = s.state.round →
    (t.state.action s.state.round).length = (s.state.action s.state.round).length + k
  grows : ∀ i, s.state.action i <+: t.state.action i
  same : k = 0 → t.state.action = s.state.action
  more : 0 < k → ∃ i, (s.state.action i).length < (t.state.action i).length

section

variable {conf : Conf} {g : Game} {first : BeginNotify} {trace older : List SessionMove}
  {s : Option RunGame} {r t u : RunGame} {e : Event} {k : Nat} {a : Action}

theorem Later.refl (r : RunGame) : Later 0 r r :=
  ⟨rfl, rfl, le_rfl, fun _ => rfl, fun _ => List.prefix_rfl, fun _ => rfl, by simp⟩

theorem Later.kept (h : Later k r t) (hkept : Kept t u) : Later k r u := by
  refine ⟨?_, ?_, ?_, ?_, ?_, ?_, ?_⟩
  · rw [hkept.table.handId, h.handId]
  · rw [hkept.actionSeq, h.actionSeq]
  · rw [hkept.table.round]
    exact h.round
  · rw [hkept.table.round, hkept.table.action]
    exact h.count
  · rw [hkept.table.action]
    exact h.grows
  · rw [hkept.table.action]
    exact h.same
  · rw [hkept.table.action]
    exact h.more

theorem Later.moved (h : Later k r t) (inv : RoundInv g t.state) (hmoved : Moved g a t u) :
    Later (k + 1) r u := by
  obtain ⟨entry, haction, hround, hhand, _⟩ := hmoved.record inv
  have grows : ∀ i, t.state.action i <+: u.state.action i := by
    intro i
    rw [haction]
    by_cases hi : i = t.state.round
    · subst hi
      simp
    · rw [Function.update_of_ne hi]
  refine ⟨hhand.trans h.handId, ?_, h.round.trans hround, ?_, fun i => (h.grows i).trans (grows i),
    by simp, fun _ => ⟨t.state.round, ?_⟩⟩
  · have := h.actionSeq
    rw [hmoved.actionSeq]
    omega
  · intro heq
    have hlow := h.round
    have htr : t.state.round = r.state.round := by omega
    rw [haction, ← htr, Function.update_self, List.length_append, htr, h.count htr]
    simp only [List.length_singleton]
    omega
  · have := (h.grows t.state.round).length_le
    rw [haction, Function.update_self, List.length_append, List.length_singleton]
    omega

/-- Within a round the counter of the session tells its actions apart. -/
theorem Later.action_eq (h : Later k r t) (ht : HandRounds g t) (hround : t.state.round = r.state.round)
    (hseq : t.actionSeq = r.actionSeq) : t.state.action = r.state.action := by
  have hcount := h.count hround
  have hroom := ht.room r.state.round
  have hmod := h.actionSeq
  unfold maxNumActions at hroom
  refine h.same ?_
  omega

theorem openedHands_of_opening {m : SessionMove} {pb : BeginNotify}
    (hmsg : m.event.msg = .gameBeginNotify (some pb)) (h : opening conf m = true) :
    openedHands conf (m :: trace) = pb.hand :: openedHands conf trace := by
  simp [openedHands, hmsg, h]

theorem openedHands_of_not_opening {m : SessionMove} (h : opening conf m = false) :
    openedHands conf (m :: trace) = openedHands conf trace := by
  unfold openedHands
  rw [List.filterMap_cons_none]
  split
  · simp [h]
  · rfl

/-- A hand is opened with an identity that the session has not had. -/
def FreshHand (conf : Conf) (first : BeginNotify) (older : List SessionMove) (m : SessionMove) : Prop :=
  ∀ pb, m.event.msg = .gameBeginNotify (some pb) → opening conf m = true →
    pb.hand ∉ first.hand :: openedHands conf older

theorem guarded_freshHand (h : (first.hand :: openedHands conf trace).Nodup) :
    Guarded (FreshHand conf first) trace := by
  induction trace with
  | nil => trivial
  | cons m older ih =>
    cases hopening : opening conf m with
    | false =>
      rw [openedHands_of_not_opening hopening] at h
      refine ⟨fun pb _ hopens => ?_, ih h⟩
      cases hopening.symm.trans hopens
    | true =>
      have hmsg : ∃ pb, m.event.msg = .gameBeginNotify (some pb) := by
        unfold opening at hopening
        split at hopening
        · next pb _ hm => exact ⟨pb, hm⟩
        · cases hopening
      obtain ⟨pb, hpb⟩ := hmsg
      rw [openedHands_of_opening hpb hopening] at h
      simp only [List.nodup_cons, List.mem_cons, not_or] at h
      refine ⟨fun pb' hpb' _ => ?_, ih ?_⟩
      · cases hpb.symm.trans hpb'
        simp only [List.mem_cons, not_or]
        exact ⟨Ne.symm h.1.1, h.2.1⟩
      · exact List.nodup_cons.mpr ⟨h.1.2, h.2.2⟩

/-- Every earlier state of the current hand leads to the present one by the actions between them. -/
structure PastInv (conf : Conf) (g : Game) (first : BeginNotify) (trace : List SessionMove) (r : RunGame) :
    Prop where
  rounds : HandRounds g r
  hand : r.state.handId ∈ first.hand :: openedHands conf trace
  hands : ∀ m ∈ trace, ∀ q, m.pre = some q → q.state.handId ∈ first.hand :: openedHands conf trace
  past : ∀ m ∈ trace, ∀ q, m.pre = some q → q.state.handId = r.state.handId →
    ∃ k, Later k q r ∧ (appliesReply m = true → 0 < k)

theorem PastInv.start (wf : g.WellFormed) (fresh : Opened g first r t) : PastInv conf g first [] t := by
  refine ⟨.start wf fresh, ?_, by simp, by simp⟩
  simp [fresh.state, initState]

theorem PastInv.opened {pb : BeginNotify} (inv : PastInv conf g first older r) (wf : g.WellFormed)
    (hmsg : e.msg = .gameBeginNotify (some pb)) (hopens : Opening conf r e) (fresh : Opened g pb r t)
    (hfresh : FreshHand conf first older ⟨some r, e, some t⟩) :
    PastInv conf g first (⟨some r, e, some t⟩ :: older) t := by
  have hopening : opening conf ⟨some r, e, some t⟩ = true := opening_iff.mpr hopens
  have hnew := hfresh pb hmsg hopening
  have hhand : t.state.handId = pb.hand := by simp [fresh.state, initState]
  have hpast : ∀ m ∈ (⟨some r, e, some t⟩ : SessionMove) :: older, ∀ q, m.pre = some q →
      q.state.handId ∈ first.hand :: openedHands conf older := by
    intro m hm q hq
    rcases List.mem_cons.mp hm with rfl | hm
    · cases hq
      exact inv.hand
    · exact inv.hands m hm q hq
  have hwiden : ∀ hand ∈ first.hand :: openedHands conf older,
      hand ∈ first.hand :: pb.hand :: openedHands conf older := by
    intro hand hmem
    rcases List.mem_cons.mp hmem with rfl | hmem
    · simp
    · simp [hmem]
  refine ⟨.start wf fresh, ?_, ?_, ?_⟩
  · rw [openedHands_of_opening hmsg hopening, hhand]
    simp
  · rw [openedHands_of_opening hmsg hopening]
    exact fun m hm q hq => hwiden _ (hpast m hm q hq)
  · intro m hm q hq heq
    rw [hhand] at heq
    exact absurd (heq ▸ hpast m hm q hq) hnew

theorem PastInv.next (inv : PastInv conf g first older r) (rounds : HandRounds g t)
    (hgoing : ¬Opening conf r e) (hhand : t.state.handId = r.state.handId)
    (hpast : ∀ k q, Later k q r → ∃ l, Later l q t ∧
      (k < l ∨ (k = l ∧ t.actionSeq = r.actionSeq))) :
    PastInv conf g first (⟨some r, e, some t⟩ :: older) t := by
  have hgoing' : opening conf ⟨some r, e, some t⟩ = false := opening_eq_false.mpr hgoing
  refine ⟨rounds, ?_, ?_, ?_⟩
  · rw [openedHands_of_not_opening hgoing', hhand]
    exact inv.hand
  · rw [openedHands_of_not_opening hgoing']
    intro m hm q hq
    rcases List.mem_cons.mp hm with rfl | hm
    · cases hq
      exact inv.hand
    · exact inv.hands m hm q hq
  · intro m hm q hq heq
    rcases List.mem_cons.mp hm with rfl | hm
    · cases hq
      obtain ⟨l, hl, hlt | ⟨_, hseq⟩⟩ := hpast 0 r (Later.refl r)
      · exact ⟨l, hl, fun _ => hlt⟩
      · exact ⟨l, hl, by simp [appliesReply, hseq]⟩
    · obtain ⟨k, hk, happlies⟩ := inv.past m hm q hq (heq.trans hhand)
      obtain ⟨l, hl, hle⟩ := hpast k q hk
      refine ⟨l, hl, fun h => ?_⟩
      have := happlies h
      omega

theorem PastInv.keep (hr : Running conf g r) (inv : PastInv conf g first older r)
    (hfresh : FreshHand conf first older ⟨some r, e, some t⟩) (heffect : Effect conf g r e (some t)) :
    PastInv conf g first (⟨some r, e, some t⟩ :: older) t := by
  have rounds := inv.rounds.keep hr heffect
  rcases heffect.bets with ⟨pb, hmsg, hopens, fresh⟩ | ⟨hgoing, kept⟩ | ⟨hgoing, a, moved⟩
  · exact inv.opened hr.wellFormed hmsg hopens fresh hfresh
  · exact inv.next rounds hgoing kept.table.handId fun k q hk => ⟨k, hk.kept kept, .inr ⟨rfl, kept.actionSeq⟩⟩
  · obtain ⟨_, _, _, hhand, _⟩ := moved.record inv.rounds.toRoundInv
    exact inv.next rounds hgoing hhand fun k q hk =>
      ⟨k + 1, hk.moved inv.rounds.toRoundInv moved, .inl (Nat.lt_succ_self k)⟩

theorem SessionRun.pastInv (run : SessionRun conf first trace (some r))
    (hg : conf.getGame gameTypeNoLimit2P = some g)
    (distinct : (first.hand :: openedHands conf trace).Nodup) : PastInv conf g first trace r := by
  obtain ⟨file, hfile⟩ := conf.loaded _ g hg
  refine (SessionRun.rule (PastInv conf g first) run hg (guarded_freshHand distinct) ?_ ?_).2
  · intro prior t fresh
    exact .start (readGame_wellFormed hfile) fresh
  · intro older r e t hr inv hfresh heffect
    exact inv.keep hr hfresh heffect

/-- A request describes the state in which its move found the session. -/
theorem SessionRun.requestOf (run : SessionRun conf first trace s) {m : SessionMove} (hm : m ∈ trace)
    {q : CfrRequest} (h : q ∈ m.event.requests) : ∃ r, m.pre = some r ∧ r.RequestOf q := by
  have hq : .cfrRequest q ∈ m.event.outputs := by
    obtain ⟨o, ho, hoq⟩ := List.mem_filterMap.mp h
    cases o with
    | cfrRequest q' =>
      cases hoq
      exact ho
    | robotActionRsp _ => cases hoq
    | queryStateRsp _ => cases hoq
  obtain ⟨g, hg⟩ := SessionRun.game run
  obtain ⟨newer, older, htrace⟩ := List.append_of_mem hm
  obtain ⟨r, hr, _, _, heffect⟩ := SessionRun.move run htrace hg
  refine ⟨r, hr, ?_⟩
  obtain ⟨pre, e, post⟩ := m
  dsimp only at heffect hq
  cases heffect with
  | opened _ _ _ silent => simp [silent] at hq
  | kept _ _ _ _ noRequest => exact absurd hq (noRequest q)
  | cardsRefused _ _ _ _ silent => simp [silent] at hq
  | playerMoved _ _ _ _ _ silent => simp [silent] at hq
  | playerRefused _ _ _ _ silent => simp [silent] at hq
  | asked _ _ request _ _ sent =>
    rw [sent, List.mem_singleton] at hq
    cases hq
    exact request
  | askRefused _ _ _ _ sent => simp [sent] at hq
  | replied _ _ _ _ _ _ _ _ sent => simp [sent] at hq
  | replyFailed _ _ _ _ _ _ _ sent => simp [sent] at hq
  | timedOut _ _ _ _ _ _ sent => simp [sent] at hq
  | deleted _ _ silent => simp [silent] at hq

/-- An applied reply passed the checks of the session. -/
theorem Effect.applied {post : Option RunGame} (heffect : Effect conf g r e post)
    (h : appliesReply ⟨some r, e, post⟩ = true) :
    ∃ reply, e.msg = .queryActionResp reply ∧ reply.handID = r.state.handId ∧
      reply.round = r.state.round ∧ reply.actionSeq = r.actionSeq := by
  simp only [appliesReply, Bool.and_eq_true, decide_eq_true_eq] at h
  obtain ⟨hreply, hseq⟩ := h
  have unmoved : ∀ {t : RunGame}, post = some t → Kept r t → False := by
    rintro t rfl kept
    simp [kept.actionSeq] at hseq
  cases heffect with
  | opened msg _ _ _ => simp [msg, Msg.reply] at hreply
  | kept _ kept _ _ _ => exact (unmoved rfl kept).elim
  | cardsRefused _ _ kept _ _ => exact (unmoved rfl kept).elim
  | playerMoved msg _ _ _ _ _ => simp [msg, Msg.reply] at hreply
  | playerRefused _ _ kept _ _ => exact (unmoved rfl kept).elim
  | asked _ _ _ kept _ _ => exact (unmoved rfl kept).elim
  | askRefused _ _ kept _ _ => exact (unmoved rfl kept).elim
  | replied msg _ handID round actionSeq _ _ _ _ => exact ⟨_, msg, handID, round, actionSeq⟩
  | replyFailed _ _ _ _ _ kept _ _ => exact (unmoved rfl kept).elim
  | timedOut _ _ _ _ kept _ _ => exact (unmoved rfl kept).elim
  | deleted msg _ _ => simp [msg, Msg.reply] at hreply

/-- When hands have distinct identities and replies repeat requests, in any order and any number of
times, an applied reply finds the hand as it was at its request, and no decision point takes two. -/
theorem replies_fresh (run : SessionRun conf first trace s)
    (distinct : (first.hand :: openedHands conf trace).Nodup)
    (echoes : Guarded (EchoesRequest conf first) trace) : Guarded FreshReply trace := by
  obtain ⟨g, hg⟩ := SessionRun.game run
  induction run with
  | start => trivial
  | @next older s e post run hstep ih =>
    have distinct' : (first.hand :: openedHands conf older).Nodup :=
      distinct.sublist (((List.sublist_cons_self _ older).filterMap _).cons_cons _)
    refine ⟨fun happlies => ?_, ih distinct' echoes.2⟩
    obtain ⟨r, rfl, hdeliver⟩ := hstep
    have inv := SessionRun.pastInv run hg distinct'
    obtain ⟨reply, hmsg, hhand, hround, hseq⟩ :=
      (deliver_effect (SessionRun.running run hg) hdeliver).applied happlies
    refine ⟨r, reply, rfl, hmsg, ?_, ?_, ?_⟩
    · rcases echoes.1 reply (by simp [hmsg, Msg.reply]) with hrequest | hforeign
      · exact hrequest
      · exact absurd (hhand ▸ inv.hand) hforeign
    · intro u hu q hq hecho
      obtain ⟨asked, hasked, request⟩ := SessionRun.requestOf run hu hq
      have hsame : asked.state.handId = r.state.handId := by
        rw [← request.handID, ← hecho.handID, hhand]
      obtain ⟨k, hlater, _⟩ := inv.past u hu asked hasked hsame
      refine ⟨asked, hasked, hsame, (hlater.action_eq inv.rounds ?_ ?_).symm⟩
      · rw [← hround, hecho.round, request.round]
      · rw [← hseq, hecho.actionSeq, request.actionSeq]
    · rintro u hu happlied earlier hearlier ⟨hsame, haction⟩
      obtain ⟨k, hlater, hpos⟩ := inv.past u hu earlier hearlier hsame
      obtain ⟨i, hi⟩ := hlater.more (hpos happlied)
      rw [haction] at hi
      omega

end

/-- The first reply comes twice, the second time in the middle of the next request. -/
def duplicatePlay : List (Env × Msg) :=
  flopPlay ++
    [(callingEnv 8, replyAfter (robotButton 1) preflopPlay), (callingEnv 9, replyAfter (robotButton 1) flopPlay),
      (callingEnv 10, replyAfter (robotButton 1) flopPlay),
      (callingEnv 11, .gameBeginNotify (some (playerButton 2))),
      (callingEnv 12, replyAfter (robotButton 1) flopPlay)]

theorem replies_fresh_duplicatePlay :
    Guarded FreshReply (tableRun (robotButton 1) duplicatePlay).1 ∧
      (tableRun (robotButton 1) duplicatePlay).1.countP appliesReply = 2 :=
  ⟨replies_fresh (tableRun_run (robotButton 1) duplicatePlay) (by decide +kernel) (by decide +kernel),
    by decide +kernel⟩

end MasterAI
