import MasterAI.BinaryFraming
import MasterAI.SocketRuns

namespace MasterAI

namespace ConnSocket

variable {s : ConnSocket}

/-- The loop sends a first part of the message, and succeeds if it is the whole message. -/
theorem sendLoop_left (writes : List SocketWrite) (nLeftBytes nDoneTimes : Nat) :
    (s.sendLoop writes nLeftBytes nDoneTimes).1 ≤ nLeftBytes ∧
      ((s.sendLoop writes nLeftBytes nDoneTimes).2 = true ↔ (s.sendLoop writes nLeftBytes nDoneTimes).1 = 0) := by
  induction writes generalizing nLeftBytes nDoneTimes with
  | nil => exact ⟨le_rfl, decide_eq_true_iff⟩
  | cons write writes ih =>
    rw [sendLoop]
    split
    · exact ⟨Nat.zero_le _, by simp⟩
    next hne =>
      simp only
      split
      · exact ⟨le_rfl, by simp [hne]⟩
      · split
        · split
          · exact ⟨le_rfl, by simp [hne]⟩
          · exact ih nLeftBytes _
        · obtain ⟨hle, hiff⟩ := ih (nLeftBytes - (s.send nLeftBytes write).toNat) 0
          exact ⟨hle.trans (Nat.sub_le _ _), hiff⟩

/-- A socket that is not set up sends nothing. -/
theorem sendLoop_unused (hstate : s.state ≠ .normal) (writes : List SocketWrite) (nLeftBytes nDoneTimes : Nat) :
    (s.sendLoop writes nLeftBytes nDoneTimes).1 = nLeftBytes := by
  cases writes with
  | nil => rfl
  | cons write writes =>
    rw [sendLoop]
    split
    next hzero => exact hzero.symm
    next hne =>
      have hsend : s.send nLeftBytes write = -1 := if_pos hstate
      simp [hsend]

theorem sendMsg_cases (p : ListSmg) (writes : List SocketWrite) :
    s.sendMsg p writes = .refused ∨
      p.nUniqueID = s.uniqueID ∧
        (s.sendMsg p writes = .sent ∧ (s.sendLoop writes p.len 0).1 = 0 ∨
          s.sendMsg p writes = .failed (s.sendLoop writes p.len 0).1 ∧ 0 < (s.sendLoop writes p.len 0).1) := by
  obtain ⟨-, hiff⟩ := sendLoop_left (s := s) writes p.len 0
  unfold sendMsg
  split
  · exact .inl rfl
  · split
    · exact .inl rfl
    · split
      · exact .inl rfl
      next hid =>
        rw [not_not] at hid
        right
        refine ⟨hid, ?_⟩
        split
        next nLeftBytes hloop =>
          rw [hloop] at hiff
          exact .inl ⟨rfl, by rw [hloop]; exact hiff.mp rfl⟩
        next nLeftBytes hloop =>
          rw [hloop] at hiff
          refine .inr ⟨by rw [hloop], ?_⟩
          rw [hloop]
          refine Nat.pos_of_ne_zero fun hzero => ?_
          have hdone := hiff.mpr hzero
          cases hdone

end ConnSocket

/-- What is sent of a message is a first part of it, and all of it only where `SendMsg` succeeds. -/
theorem ListSmg.bytesSent_failed (p : ListSmg) (nLeftBytes : Nat) :
    p.bytesSent (.failed nLeftBytes) <+: p.content := List.take_prefix _ _

namespace SocketTable

variable {s t : SocketTable} {trace : List (Transition SocketTable SocketEvent)} {c : Nat}

/-- No connection gets the sequence number of an earlier one on its descriptor. -/
def FreshSequence (m : Transition SocketTable SocketEvent) : Prop :=
  match m.event with
  | .notify thread _ _ => ∀ n ∈ (m.pre.lstNotifyFd thread).head?, n.type ≠ .close →
      ∀ i ∈ m.pre.numbered, i.fd = n.fd → i.sequence ≠ (m.pre.sequence + 1) % 65536
  | _ => True

instance (m : Transition SocketTable SocketEvent) : Decidable (FreshSequence m) := by
  unfold FreshSequence
  split <;> infer_instance

/-- Connections of one descriptor have different numbers. -/
def NumbersDiffer (s : SocketTable) : Prop :=
  ∀ i ∈ s.numbered, ∀ j ∈ s.numbered, i.fd = j.fd → i.sequence = j.sequence → i.conn = j.conn

theorem NumbersDiffer.step {e : SocketEvent} (h : s.NumbersDiffer) (step : TableStep s e t)
    (fresh : FreshSequence ⟨s, e, t⟩) : t.NumbersDiffer := by
  rcases step.numbered with hsame | ⟨n, rest, time, setup, rfl, hqueue, hopen, hnext⟩
  · unfold NumbersDiffer
    rw [hsame]
    exact h
  · have hnew : ∀ i ∈ s.numbered, i.fd = n.fd → i.sequence ≠ (s.sequence + 1) % 65536 :=
      fresh n (by rw [hqueue]; rfl) hopen
    unfold NumbersDiffer
    rw [hnext]
    unfold nextNumbered
    split
    · exact h
    · intro i hi j hj hfd hsequence
      rcases List.mem_cons.mp hi with rfl | hi <;> rcases List.mem_cons.mp hj with rfl | hj
      · rfl
      · exact absurd hsequence.symm (hnew j hj hfd.symm)
      · exact absurd hsequence (hnew i hi hfd)
      · exact h i hi j hj hfd hsequence

end SocketTable

/-- The messages of a step that answer a connection and were not refused, with how their sending ended. -/
def Transition.answer (c : Nat) (m : Transition SocketTable SocketEvent) : List (ListSmg × SendOutcome) :=
  match m.event with
  | .send origin p writes =>
    if origin.conn = c ∧ m.pre.outcome p writes ≠ .refused then [(p, m.pre.outcome p writes)] else []
  | _ => []

/-- The answers to a connection, in the order in which they were sent. -/
def answers (c : Nat) : List (Transition SocketTable SocketEvent) → List (ListSmg × SendOutcome)
  | [] => []
  | m :: older => answers c older ++ m.answer c

/-- The bytes of answers, one after another. -/
def answerBytes (l : List (ListSmg × SendOutcome)) : List UInt8 := l.flatMap fun e => e.1.bytesSent e.2

theorem answerBytes_append (l l' : List (ListSmg × SendOutcome)) :
    answerBytes (l ++ l') = answerBytes l ++ answerBytes l' := List.flatMap_append

namespace SocketTable

variable {s t : SocketTable} {trace : List (Transition SocketTable SocketEvent)} {c : Nat}

/-- What is written goes to the connection that the message came from. -/
theorem write_wire (h : s.Sound) (hdiffer : s.NumbersDiffer) {origin : Address} {p : ListSmg}
    (hmem : origin ∈ s.addresses) (hfd : p.connfd = origin.connfd) (huid : p.nUniqueID = origin.nUniqueID)
    (writes : List SocketWrite) (c : Nat) :
    (s.write p.connfd (p.bytesSent (s.outcome p writes))).wire c =
      s.wire c ++ answerBytes (if origin.conn = c ∧ s.outcome p writes ≠ .refused then [(p, s.outcome p writes)] else []) := by
  have hbytes : answerBytes (if origin.conn = c ∧ s.outcome p writes ≠ .refused then [(p, s.outcome p writes)] else []) =
      if origin.conn = c then p.bytesSent (s.outcome p writes) else [] := by
    by_cases hc : origin.conn = c
    · rw [if_pos hc]
      split
      · exact List.flatMap_singleton _ _
      next hrefused =>
        have hcase : s.outcome p writes = .refused := by
          by_contra hne
          exact hrefused ⟨hc, hne⟩
        rw [hcase]
        rfl
    · rw [if_neg hc, if_neg fun h => hc h.1]
      rfl
  rw [hbytes]
  unfold write
  split
  next hnone =>
    have hnothing : p.bytesSent (s.outcome p writes) = [] := by
      have hunused : (s.sockets p.connfd).state = .init := by
        refine (h.descriptors p.connfd).state.mpr ?_
        by_contra hopen
        obtain ⟨c', hc', -⟩ := (h.descriptors p.connfd).behind hopen
        obtain ⟨id, hid⟩ := Option.ne_none_iff_exists'.mp hopen
        obtain rfl := (h.descriptors p.connfd).id id hid
        have hbind : (s.sockets p.connfd).sockID.bind s.conn = some c' :=
          Option.bind_eq_some_iff.mpr ⟨_, hid, hc'⟩
        rw [hnone] at hbind
        cases hbind
      have hleft := ConnSocket.sendLoop_unused (s := s.sockets p.connfd) (by rw [hunused]; nofun) writes p.len 0
      unfold outcome
      split
      · rfl
      · rcases ConnSocket.sendMsg_cases (s := s.sockets p.connfd) p writes with hcase | ⟨-, ⟨hcase, hzero⟩ | ⟨hcase, -⟩⟩
        · rw [hcase]
          rfl
        · rw [hcase]
          have hlen : p.len = 0 := hleft.symm.trans hzero
          simp [ListSmg.bytesSent, ListSmg.content, hlen]
        · rw [hcase, hleft]
          simp [ListSmg.bytesSent]
    rw [hnothing, ite_self, List.append_nil]
  next c' hc' =>
    by_cases hrefused : p.bytesSent (s.outcome p writes) = []
    · simp [hrefused]
    · have hid : p.nUniqueID = (s.sockets p.connfd).uniqueID := by
        by_contra hne
        apply hrefused
        unfold outcome
        split
        · rfl
        · rcases ConnSocket.sendMsg_cases (s := s.sockets p.connfd) p writes with hcase | ⟨hid, -⟩
          · rw [hcase]
            rfl
          · exact absurd hid hne
      have howner := h.addresses origin hmem
      have hbehind := h.conn_numbered hc'
      have hsame : origin.conn = c' := by
        refine hdiffer _ howner _ hbehind hfd.symm ?_
        simp only
        rw [← huid, hid]
      simp only
      by_cases hc : c = c'
      · rw [hc, hsame, if_pos rfl, Function.update_self]
      · rw [Function.update_of_ne hc, if_neg fun heq => hc (heq.symm.trans hsame), List.append_nil]

theorem TableStep.wire {e : SocketEvent} (step : TableStep s e t) (h : s.Sound) (hdiffer : s.NumbersDiffer) (c : Nat) :
    t.wire c = s.wire c ++ answerBytes (Transition.answer c ⟨s, e, t⟩) := by
  have hkept : t.wire = s.wire → t.wire c = s.wire c ++ [] := by
    intro hsame
    rw [hsame, List.append_nil]
  cases step with
  | opened | closing | setUp | connected | activeClose | closeConnect | read => exact hkept rfl
  | connectFailed fd | closeCallback fd => exact hkept (releaseSocket_fields s fd).2.2.2.2
  | refused => exact hkept (releaseSocket_fields _ _).2.2.2.2
  | written origin p writes hmem hfd huid => exact write_wire h hdiffer hmem hfd huid writes c
  | failed origin p writes binaryMode hmem hfd huid => exact write_wire h hdiffer hmem hfd huid writes c

/-- What holds in a run in which no connection gets the number of an earlier one on its descriptor. -/
structure AnswerInv (c : Nat) (trace : List (Transition SocketTable SocketEvent)) (s : SocketTable) : Prop where
  sound : s.Sound
  differ : s.NumbersDiffer
  wire : s.wire c = answerBytes (answers c trace)

theorem AnswerInv.step {e : SocketEvent} (h : AnswerInv c trace s) (step : TableStep s e t)
    (fresh : FreshSequence ⟨s, e, t⟩) : AnswerInv c (⟨s, e, t⟩ :: trace) t := by
  refine ⟨h.sound.step step, h.differ.step step fresh, ?_⟩
  rw [step.wire h.sound h.differ c, h.wire, answers, answerBytes_append]

theorem answerInv_of_run (run : Run trace s) (fresh : ∀ m ∈ trace, FreshSequence m) (c : Nat) :
    AnswerInv c trace s := by
  induction run with
  | start h =>
    refine ⟨h.sound, fun i hi => ?_, h.wire c⟩
    rw [h.numbered] at hi
    exact absurd hi List.not_mem_nil
  | next _ hstep ih =>
    have inv := ih fun m hm => fresh m (List.mem_cons_of_mem _ hm)
    exact inv.step (tableStep_of_step inv.sound hstep) (fresh _ List.mem_cons_self)

/-- What reaches a connection are the answers to its own messages and nothing else, in the order in which they were
sent, whichever descriptors are closed and given to other connections in between. -/
theorem wire_eq_answers (run : Run trace s) (fresh : ∀ m ∈ trace, FreshSequence m) (c : Nat) :
    s.wire c = answerBytes (answers c trace) := (answerInv_of_run run fresh c).wire

theorem outcome_failed {p : ListSmg} {writes : List SocketWrite} {nLeftBytes : Nat}
    (h : s.outcome p writes = .failed nLeftBytes) : 0 < nLeftBytes ∧ p.len ≤ packageLenMax := by
  unfold outcome at h
  split at h
  · cases h
  · have hlen : p.len ≤ packageLenMax - 10 := by
      by_contra hlong
      unfold ConnSocket.sendMsg at h
      rw [if_pos (not_le.mp hlong)] at h
      cases h
    refine ⟨?_, hlen.trans (Nat.sub_le _ _)⟩
    rcases ConnSocket.sendMsg_cases (s := s.sockets p.connfd) p writes with hcase | ⟨-, ⟨hcase, -⟩ | ⟨hcase, hpos⟩⟩
    · rw [hcase] at h
      cases h
    · rw [hcase] at h
      cases h
    · rw [hcase] at h
      cases h
      exact hpos

theorem answers_failed {p : ListSmg} {nLeftBytes : Nat} (h : (p, .failed nLeftBytes) ∈ answers c trace) :
    0 < nLeftBytes ∧ p.len ≤ packageLenMax := by
  induction trace with
  | nil => exact absurd h List.not_mem_nil
  | cons m older ih =>
    rcases List.mem_append.mp h with h | h
    · exact ih h
    · unfold Transition.answer at h
      split at h
      · split at h
        · have heq := List.mem_singleton.mp h
          obtain ⟨rfl, hfailed⟩ := Prod.mk.inj heq
          exact outcome_failed hfailed.symm
        · exact absurd h List.not_mem_nil
      · exact absurd h List.not_mem_nil

end SocketTable

def SendOutcome.isFailed : SendOutcome → Bool
  | .failed _ => true
  | _ => false

/-- The packets among answers that were sent whole. -/
def wholeAnswers (l : List (ListSmg × SendOutcome)) : List (List UInt8) :=
  (l.filter fun e => e.2 = .sent).map fun e => e.1.content

/-- Answers of which none failed are whole packets. -/
theorem answerBytes_whole {l : List (ListSmg × SendOutcome)} (h : ∀ e ∈ l, e.2.isFailed = false) :
    answerBytes l = (wholeAnswers l).flatten := by
  induction l with
  | nil => rfl
  | cons e l ih =>
    have hrest := ih fun e he => h e (List.mem_cons_of_mem _ he)
    have hhead := h e List.mem_cons_self
    obtain ⟨p, result⟩ := e
    cases result with
    | refused => simpa [answerBytes, wholeAnswers, ListSmg.bytesSent] using hrest
    | sent => simpa [answerBytes, wholeAnswers, ListSmg.bytesSent] using hrest
    | failed n => cases hhead

theorem incompletePacket_nil : IncompletePacket [] := ⟨shortPacket, by decide, by decide, by decide⟩

/-- Answers of which none but the last failed are whole packets and the start of one. -/
theorem answerBytes_split {l : List (ListSmg × SendOutcome)}
    (hvalid : ∀ e ∈ l, ValidPacket e.1.content)
    (hfailed : ∀ p n, (p, .failed n) ∈ l → 0 < n ∧ p.len ≤ packageLenMax)
    (hlast : ∀ e ∈ l.dropLast, e.2.isFailed = false) :
    ∃ tail, IncompletePacket tail ∧ answerBytes l = (wholeAnswers l).flatten ++ tail := by
  rcases List.eq_nil_or_concat l with rfl | ⟨front, ⟨p, result⟩, rfl⟩
  · exact ⟨[], incompletePacket_nil, rfl⟩
  · rw [List.concat_eq_append] at hvalid hfailed hlast ⊢
    rw [List.dropLast_concat] at hlast
    have hmem : (p, result) ∈ front ++ [(p, result)] := List.mem_append_right _ List.mem_cons_self
    have hfront := answerBytes_whole hlast
    cases result with
    | refused =>
      refine ⟨[], incompletePacket_nil, ?_⟩
      rw [answerBytes_append, hfront]
      simp [answerBytes, wholeAnswers, ListSmg.bytesSent]
    | sent =>
      refine ⟨[], incompletePacket_nil, ?_⟩
      rw [answerBytes_append, hfront]
      simp [answerBytes, wholeAnswers, ListSmg.bytesSent]
    | failed n =>
      obtain ⟨hpos, hlen⟩ := hfailed p n hmem
      have hpacket := hvalid _ hmem
      have hcontent : p.content.length = p.len := by
        rw [ListSmg.content, List.length_take, p.cPacketBuffer.2]
        omega
      have hlong := hpacket.1
      refine ⟨p.bytesSent (.failed n), ⟨p.content, hpacket, p.bytesSent_failed n, fun heq => ?_⟩, ?_⟩
      · have hshort := congrArg List.length heq
        simp only [ListSmg.bytesSent, List.length_take, hcontent] at hshort hlong
        unfold packageHeadLen at hlong
        omega
      · rw [answerBytes_append, hfront]
        simp [answerBytes, wholeAnswers]

/-- A peer that reads a whole stream of packets with an incomplete one behind them has all of them. -/
theorem TcpSocket.onReads_packets {peer : TcpSocket} {net : List SocketRead} {packets : List (List UInt8)}
    {tail : List UInt8} (free : Nat → Option PacketBuffer) (hpackets : ∀ p ∈ packets, ValidPacket p)
    (htail : IncompletePacket tail) (hpeer : peer.Opened true) (hnet : Arriving net)
    (hstream : arrived net = packets.flatten ++ tail) {calls : Nat} (hcalls : readsLeft net ≤ calls) :
    (∃ k, free k = none ∧ peer.onReads free calls net = .error .exit) ∨
      ∃ peer', peer.onReads free calls net = .ok (peer', []) ∧ peer'.closing = false ∧
        peer'.clientRead.map ListSmg.content = packets ∧
        ∀ m ∈ peer'.clientRead, unpackFromArray m.content packageHeadLen = some m.head := by
  have hstart : BinaryReading packets tail peer net := by
    refine ⟨hpeer.normal, hpeer.mode, hpeer.open_, hnet, fun m hm => ?_, ?_, fun m hm => ?_, ?_⟩
    · rw [hpeer.message] at hm
      cases hm
    · rw [hpeer.taken, hpeer.delivered, if_pos hpeer.message]
      rfl
    · rw [hpeer.delivered] at hm
      exact absurd hm List.not_mem_nil
    · rw [hpeer.delivered, TcpSocket.buffered_of_none hpeer.message, hstream]
      exact Progress.start packets tail
  rcases TcpSocket.onReads_run (fun s net h => BinaryReading.step hpackets htail h) hstart calls with
    ⟨k, -, hnone, hexit⟩ | ⟨peer', net', hreads, h, hdone⟩
  · exact .inl ⟨k, hnone, hexit⟩
  · obtain rfl := hdone hcalls
    refine .inr ⟨peer', hreads, h.open_, ?_, h.heads⟩
    refine (h.progress.finished hpackets ?_).1
    cases hmsg : peer'.recvMsg with
    | none =>
      intro f hf hinitial
      rw [TcpSocket.buffered_of_none hmsg, List.prefix_nil] at hinitial
      subst hinitial
      exact absurd hf.1 (by decide)
    | some m => exact (h.message m hmsg).unfinished

/-- The peer of a connection receives the answers to its messages, each once and in order, up to the first one whose
sending failed, however the network splits the stream. -/
theorem answers_received {s : SocketTable} {trace : List (Transition SocketTable SocketEvent)}
    (run : SocketTable.Run trace s) (fresh : ∀ m ∈ trace, SocketTable.FreshSequence m) {c : Nat}
    (hvalid : ∀ e ∈ answers c trace, ValidPacket e.1.content)
    (hlast : ∀ e ∈ (answers c trace).dropLast, e.2.isFailed = false) {peer : TcpSocket} (hpeer : peer.Opened true)
    {net : List SocketRead} (hnet : Arriving net) (hstream : arrived net = s.wire c)
    (free : Nat → Option PacketBuffer) {calls : Nat} (hcalls : readsLeft net ≤ calls) :
    (∃ k, free k = none ∧ peer.onReads free calls net = .error .exit) ∨
      ∃ peer', peer.onReads free calls net = .ok (peer', []) ∧ peer'.closing = false ∧
        peer'.clientRead.map ListSmg.content = wholeAnswers (answers c trace) ∧
        ∀ m ∈ peer'.clientRead, unpackFromArray m.content packageHeadLen = some m.head := by
  obtain ⟨tail, htail, hbytes⟩ := answerBytes_split hvalid (fun _ _ h => SocketTable.answers_failed h) hlast
  refine TcpSocket.onReads_packets free (fun p hp => ?_) htail hpeer hnet ?_ hcalls
  · obtain ⟨e, he, rfl⟩ := List.mem_map.mp hp
    exact hvalid e (List.mem_filter.mp he).1
  · rw [hstream, (SocketTable.answerInv_of_run run fresh c).wire, hbytes]

/-- A process with four sockets and two network threads. -/
def unusedTable : SocketTable where
  socketCnt := 4
  dataThreadCnt := 2
  sequence := 0
  sockets := fun _ => .fresh
  lstNotifyFd := fun _ => []
  conn := fun _ => none
  opened := 0
  wire := fun _ => []
  numbered := []
  addresses := []

theorem unusedTable_start : unusedTable.Start :=
  ⟨fun _ => rfl, fun _ => rfl, fun _ => rfl, fun _ => rfl, rfl, rfl⟩

def shortBuffer : PacketBuffer :=
  ⟨shortPacket ++ List.replicate (packageLenMax - 61) 0, by
    rw [List.length_append, List.length_replicate]
    rfl⟩

/-- A packet of a header and one byte for the first connection of descriptor 3. -/
def shortAnswer : ListSmg :=
  { ListSmg.reset shortBuffer with
    len := 61
    connfd := 3
    nUniqueID := 100 * 65536 + 1
    cPacketBuffer := shortBuffer }

/-- Descriptor 3 is opened, answered twice, the second time not to the end, closed by its peer and opened again, and
answered for the old connection a third time. -/
def reusedDescriptor : List SocketEvent :=
  let origin : Address := ⟨0, 3, 100 * 65536 + 1⟩
  [.opening .accept 3 true, .notify 1 100 .established, .read 3, .send origin shortAnswer [.room 40, .blocked, .room 100],
    .send origin shortAnswer [.room 3, .error], .activeClose 3, .closeCallback 3, .opening .accept 3 true,
    .notify 1 100 .established, .notify 1 101 .established, .send origin shortAnswer [.room 100]]

def nextSocketStep (s : SocketTable) (e : SocketEvent) : Option (SocketEvent × SocketTable) :=
  (s.step e).map fun t => (e, t)

theorem run_of_events (events : List SocketEvent) :
    SocketTable.Run (runFrom nextSocketStep unusedTable events).1 (runFrom nextSocketStep unusedTable events).2 := by
  refine StepRun.runFrom (fun s input e t h => ?_) unusedTable_start events
  obtain ⟨u, hu, heq⟩ := Option.map_eq_some_iff.mp h
  cases heq
  exact hu

theorem wire_eq_answers_reused :
    (runFrom nextSocketStep unusedTable reusedDescriptor).2.wire 0 =
      answerBytes (answers 0 (runFrom nextSocketStep unusedTable reusedDescriptor).1) :=
  SocketTable.wire_eq_answers (run_of_events reusedDescriptor) (by decide +kernel) 0

/-- The request to close the first connection is still waiting when the second one is accepted. -/
theorem failed_send_closes_own_reused :
    ∃ t, (runFrom nextSocketStep unusedTable (reusedDescriptor.take 8)).2.notify 1 100 .established = some t ∧
      (t.sockets = (runFrom nextSocketStep unusedTable (reusedDescriptor.take 8)).2.sockets ∨
        (runFrom nextSocketStep unusedTable (reusedDescriptor.take 8)).2.conn 3 = some 0 ∧
          ∀ k ≠ 3, t.sockets k = (runFrom nextSocketStep unusedTable (reusedDescriptor.take 8)).2.sockets k) := by
  have hfront : ((runFrom nextSocketStep unusedTable (reusedDescriptor.take 8)).2.lstNotifyFd 1).head? =
      some ⟨.close, 3, true, some 0⟩ := by decide +kernel
  obtain ⟨t, ht⟩ : ∃ t, (runFrom nextSocketStep unusedTable (reusedDescriptor.take 8)).2.notify 1 100 .established =
      some t := Option.isSome_iff_exists.mp (by decide +kernel)
  exact ⟨t, ht, SocketTable.failed_send_closes_own (run_of_events (reusedDescriptor.take 8)) ht hfront rfl rfl⟩

theorem answers_received_reused :
    ∃ peer', (openedSocket true).onReads (fun _ => some zeroBuffer) 70 shortReads = .ok (peer', []) ∧
      peer'.clientRead.map ListSmg.content =
        wholeAnswers (answers 0 (runFrom nextSocketStep unusedTable reusedDescriptor).1) := by
  have hfresh : ∀ m ∈ (runFrom nextSocketStep unusedTable reusedDescriptor).1, SocketTable.FreshSequence m := by
    decide +kernel
  have hvalid : ∀ e ∈ answers 0 (runFrom nextSocketStep unusedTable reusedDescriptor).1, ValidPacket e.1.content := by
    decide +kernel
  have hstream : arrived shortReads = (runFrom nextSocketStep unusedTable reusedDescriptor).2.wire 0 := by
    decide +kernel
  have hcalls : readsLeft shortReads ≤ 70 := by decide
  rcases answers_received (run_of_events reusedDescriptor) hfresh hvalid (by decide +kernel) (openedSocket_opened true)
      (by decide) hstream (fun _ => some zeroBuffer) hcalls with ⟨k, hnone, -⟩ | ⟨peer', hreads, -, hpackets, -⟩
  · cases hnone
  · exact ⟨peer', hreads, hpackets⟩

end MasterAI
