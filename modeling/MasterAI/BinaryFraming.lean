import MasterAI.SocketReads

namespace MasterAI

/-- A packet that `OnRead` accepts: its length is within the limits and stands in its first four bytes. -/
def ValidPacket (p : List UInt8) : Prop :=
  packageHeadLen ≤ p.length ∧ p.length ≤ packageLenMax - 200 ∧ ntoh (p.take 4) = p.length

instance decidableValidPacket (p : List UInt8) : Decidable (ValidPacket p) :=
  inferInstanceAs (Decidable (_ ∧ _ ∧ _))

/-- A part of a packet that is not all of it. -/
def IncompletePacket (part : List UInt8) : Prop := ∃ p, ValidPacket p ∧ part <+: p ∧ part ≠ p

/-- The header members of a message. -/
def ListSmg.head (m : ListSmg) : NetMsgHead where
  len := m.len
  cmd := m.nCmd
  errCode := m.nErrCode
  transID := m.szTransID
  cliConnID := m.nCliConnID

variable {free : Nat → Option PacketBuffer} {s : TcpSocket} {net : List SocketRead} {m : ListSmg}
  {held part p stream tail : List UInt8} {packets : List (List UInt8)}

theorem take_of_initial {n : Nat} (h : part <+: p) (hn : n ≤ part.length) : p.take n = part.take n := by
  obtain ⟨rest, rfl⟩ := h
  exact List.take_append_of_le_length hn

theorem prefixFree_validPacket : PrefixFree ValidPacket := by
  intro f g hf hg hfg
  have hlong : 4 ≤ f.length := Nat.le_trans (by decide) hf.1
  have hlen : f.length = g.length := by
    rw [← hf.2.2, ← hg.2.2, take_of_initial hfg hlong]
  exact hfg.eq_of_length hlen

/-- The header is the same for all bytes that start with it. -/
theorem unpackFromArray_of_initial (h : part <+: p) (hlong : packageHeadLen ≤ part.length) (n : Nat) :
    unpackFromArray p n = unpackFromArray part n := by
  obtain ⟨rest, rfl⟩ := h
  have hmember : ∀ i k, i + k ≤ 60 → ((part ++ rest).drop i).take k = (part.drop i).take k := by
    intro i k hik
    have hpart : 60 ≤ part.length := hlong
    rw [List.drop_append_of_le_length (by omega), List.take_append_of_le_length]
    rw [List.length_drop]
    omega
  unfold unpackFromArray
  rw [hmember 4 4 (by omega), hmember 8 4 (by omega), hmember 12 (tidLen - 1) (by decide), hmember 34 8 (by omega),
    List.take_append_of_le_length (Nat.le_trans (by decide) hlong)]

/-- What comes next in the stream is a valid packet or the start of one. -/
def Promised (stream : List UInt8) : Prop := ∃ p, ValidPacket p ∧ (p <+: stream ∨ stream <+: p)

theorem Progress.promised {delivered : List (List UInt8)} {ahead : List UInt8}
    (hpackets : ∀ p ∈ packets, ValidPacket p) (htail : IncompletePacket tail)
    (h : Progress packets tail delivered held ahead) : Promised (held ++ ahead) := by
  rcases h.next hpackets with ⟨p, hp, -, hstart⟩ | hrest
  · exact ⟨p, hp, Or.inl hstart⟩
  · obtain ⟨p, hp, hpart, -⟩ := htail
    exact ⟨p, hp, Or.inr (by rwa [hrest])⟩

/-- The header of the next packet. -/
theorem Promised.head (h : Promised stream) (part : List UInt8) (hpart : part <+: stream) (hlong : packageHeadLen ≤ part.length) :
    ∃ p, ValidPacket p ∧ ntoh (part.take 4) = p.length ∧ (part <+: p ∨ p <+: part) := by
  obtain ⟨p, hp, hstream⟩ := h
  have hcompare : part <+: p ∨ p <+: part := by
    rcases hstream with hstream | hstream
    · exact List.prefix_or_prefix_of_prefix hpart hstream
    · exact Or.inl (hpart.trans hstream)
  refine ⟨p, hp, ?_, hcompare⟩
  rw [← hp.2.2]
  rcases hcompare with h | h
  · rw [take_of_initial h (Nat.le_trans (by decide) hlong)]
  · rw [take_of_initial h (Nat.le_trans (by decide) hp.1)]

/-- A message of which some bytes were received in binary mode. -/
structure ReadsPacket (m : ListSmg) (held : List UInt8) : Prop where
  recvLen : m.recvLen = held.length
  bytes : held <+: m.cPacketBuffer.1
  len : m.len = if held.length < packageHeadLen then packageHeadLen else ntoh (held.take 4)
  short : held.length < m.len
  fits : m.len ≤ packageLenMax - 200

theorem ReadsPacket.buffered (h : ReadsPacket m held) : (s.keep m).buffered = held := by
  change m.cPacketBuffer.1.take m.recvLen = held
  rw [h.recvLen]
  exact (List.prefix_iff_eq_take.mp h.bytes).symm

theorem unpackFromArray_len (data : List UInt8) :
    ∃ head, unpackFromArray data packageHeadLen = some head ∧ head.len = ntoh (data.take 4) :=
  ⟨_, rfl, rfl⟩

/-- More bytes of a message, but not yet as many as it asks for. -/
theorem ReadsPacket.more {got : List UInt8} {m' : ListSmg} (hm : ReadsPacket m held)
    (hrecvLen : m'.recvLen = (held ++ got).length) (hbytes : held ++ got <+: m'.cPacketBuffer.1)
    (hlen : m'.len = m.len) (hshort : (held ++ got).length < m.len) : ReadsPacket m' (held ++ got) := by
  refine ⟨hrecvLen, hbytes, ?_, by rwa [hlen], by rw [hlen]; exact hm.fits⟩
  have hheld := hm.len
  rw [hlen]
  by_cases hhead : held.length < packageHeadLen
  · rw [if_pos hhead] at hheld
    rw [if_pos (by omega)]
    exact hheld
  · rw [if_neg hhead] at hheld
    rw [if_neg (by rw [List.length_append]; omega), hheld,
      take_of_initial (List.prefix_append held got) (Nat.le_trans (by decide) (Nat.le_of_not_lt hhead))]

/-- A message asks for at least a header. -/
theorem ReadsPacket.head_le (hm : ReadsPacket m held) : packageHeadLen ≤ m.len := by
  have hlen := hm.len
  have hshort := hm.short
  split at hlen
  next => omega
  next hlong => omega

/-- A message that asks for fewer bytes than its header tells has only asked for the header yet. -/
theorem ReadsPacket.half {got : List UInt8} (hm : ReadsPacket m held) (hne : m.len ≠ ntoh ((held ++ got).take 4)) :
    held.length < packageHeadLen ∧ m.len = packageHeadLen := by
  have hlen := hm.len
  split at hlen
  next hhalf => exact ⟨hhalf, hlen⟩
  next hge =>
    rw [← take_of_initial (List.prefix_append held got) (Nat.le_trans (by decide) (Nat.le_of_not_lt hge))] at hlen
    exact absurd hlen hne

/-- One pass of `OnRead` from `RECV_AGAIN` on. -/
theorem TcpSocket.recvBinary_spec (goAgain : TcpSocket → ListSmg → List SocketRead → ReadResult)
    (hnormal : s.stateNormal = true) (hm : ReadsPacket m held) (hnet : Arriving net)
    (hpromised : Promised (held ++ arrived net)) :
    ∃ got net', Consumes net got net' ∧
      ((∃ m', s.recvBinary goAgain m net = .ok (s.keep m', net') ∧ ReadsPacket m' (held ++ got)) ∨
        (∃ m', s.recvBinary goAgain m net = .ok (s.deliver m', net') ∧ m'.content = held ++ got ∧
          ValidPacket (held ++ got) ∧ unpackFromArray m'.content packageHeadLen = some m'.head) ∨
        held.length < packageHeadLen ∧ ∃ m', s.recvBinary goAgain m net = goAgain s m' net' ∧
          ReadsPacket m' (held ++ got) ∧ packageHeadLen ≤ (held ++ got).length) := by
  have hshort := hm.short
  have hfits := hm.fits
  have hrecvLen := hm.recvLen
  obtain ⟨got, net', hrecv, hgot, hconsumes⟩ := recv_spec (m.len - m.recvLen) hnormal (by omega) hnet
  obtain ⟨buffer, hstore, hbuffer⟩ := PacketBuffer.store_spec got hm.bytes hm.recvLen.symm
    (show m.recvLen + got.length ≤ packageLenMax by unfold packageLenMax at *; omega)
  have hlength : (held ++ got).length = m.recvLen + got.length := by rw [List.length_append, hrecvLen]
  refine ⟨got, net', hconsumes, ?_⟩
  unfold recvBinary
  simp only [hrecv, hstore]
  rw [if_neg (by omega)]
  by_cases hnone : got.length = 0
  · rw [if_pos (by omega)]
    obtain rfl := List.length_eq_zero_iff.mp hnone
    exact Or.inl ⟨_, rfl, hm.more (by rw [hlength]; rfl) hbuffer rfl (by rw [hlength]; omega)⟩
  · have hsum : (m.recvLen + (got.length : Int).toNat % 65536) % 65536 = (held ++ got).length := by
      rw [hlength, Int.toNat_natCast]
      unfold packageLenMax at hfits
      omega
    rw [if_neg (by omega)]
    simp only [hsum]
    by_cases hfull : (held ++ got).length = m.len
    · rw [if_pos hfull]
      have hlong : packageHeadLen ≤ (held ++ got).length := by rw [hfull]; exact hm.head_le
      obtain ⟨p, hp, hhead, hcompare⟩ := hpromised.head (held ++ got)
        ⟨arrived net', by rw [hconsumes.split, List.append_assoc]⟩ hlong
      have hfour : buffer.1.take 4 = (held ++ got).take 4 :=
        take_of_initial hbuffer (Nat.le_trans (by decide) hlong)
      obtain ⟨head, hunpack, hheadLen⟩ := unpackFromArray_len buffer.1
      rw [hfour, hhead] at hheadLen
      have hmin := hp.1
      have hmax := hp.2.1
      simp only [hunpack]
      rw [if_neg (by omega)]
      by_cases hwhole : m.len = head.len
      · rw [if_pos hwhole]
        have hcontent : buffer.1.take head.len = held ++ got := by
          rw [← hwhole, ← hfull]
          exact (List.prefix_iff_eq_take.mp hbuffer).symm
        have heq : held ++ got = p := by
          rcases hcompare with h | h
          · exact h.eq_of_length (by omega)
          · exact (h.eq_of_length (by omega)).symm
        refine Or.inr (Or.inl ⟨_, rfl, hcontent, by rw [heq]; exact hp, ?_⟩)
        simp only [ListSmg.content, hcontent]
        rw [← unpackFromArray_of_initial hbuffer hlong, hunpack]
        rfl
      · rw [if_neg hwhole]
        have htold : m.len ≠ ntoh ((held ++ got).take 4) := by
          rw [hhead, ← hheadLen]
          exact hwhole
        obtain ⟨hhalf, hsixty⟩ := hm.half htold
        have hmod : head.len % 65536 = head.len := by
          unfold packageLenMax at hmax
          omega
        rw [if_pos hsixty.symm]
        simp only [hmod]
        rw [if_neg (by omega)]
        refine Or.inr (Or.inr ⟨hhalf, _, rfl, ⟨rfl, hbuffer, ?_, ?_, ?_⟩, hlong⟩)
        · rw [if_neg (by omega), hhead]
          exact hheadLen
        · change (held ++ got).length < head.len
          omega
        · change head.len ≤ packageLenMax - 200
          omega
    · rw [if_neg hfull, if_pos (by omega)]
      exact Or.inl ⟨_, rfl, hm.more rfl hbuffer rfl (by omega)⟩

/-- One call of `OnRead` with a message at hand. -/
theorem TcpSocket.readBinary_spec (hnormal : s.stateNormal = true) (hm : ReadsPacket m held) (hnet : Arriving net)
    (hpromised : Promised (held ++ arrived net)) :
    ∃ got net', Consumes net got net' ∧
      ((∃ m', s.readBinary m net = .ok (s.keep m', net') ∧ ReadsPacket m' (held ++ got)) ∨
        ∃ m', s.readBinary m net = .ok (s.deliver m', net') ∧ m'.content = held ++ got ∧
          ValidPacket (held ++ got) ∧ unpackFromArray m'.content packageHeadLen = some m'.head) := by
  have hstart : ¬(m.len > packageLenMax - 200 ∨ m.recvLen ≥ m.len) := by
    have hshort := hm.short
    have hfits := hm.fits
    rw [hm.recvLen]
    omega
  unfold readBinary
  rw [if_neg hstart]
  obtain ⟨got, net', hconsumes, hkept | hdelivered | ⟨-, m', hagain, hm', hlong⟩⟩ :=
    recvBinary_spec _ hnormal hm hnet hpromised
  · exact ⟨got, net', hconsumes, Or.inl hkept⟩
  · exact ⟨got, net', hconsumes, Or.inr hdelivered⟩
  · rw [hagain]
    rw [hconsumes.split, ← List.append_assoc] at hpromised
    obtain ⟨got', net'', hconsumes', hrest⟩ := recvBinary_spec
      (fun s m net => .ok (s.keep m, net)) hnormal hm' hconsumes.arriving hpromised
    refine ⟨got ++ got', net'', hconsumes.trans hconsumes', ?_⟩
    rw [← List.append_assoc]
    rcases hrest with hkept | hdelivered | ⟨hshort, -⟩
    · exact Or.inl hkept
    · exact Or.inr hdelivered
    · omega

/-- The socket between two calls of `OnRead` in binary mode. -/
structure BinaryReading (packets : List (List UInt8)) (tail : List UInt8) (s : TcpSocket) (net : List SocketRead) :
    Prop where
  normal : s.stateNormal = true
  binary : s.binaryMode = true
  open_ : s.closing = false
  arriving : Arriving net
  message : ∀ m, s.recvMsg = some m → ReadsPacket m s.buffered
  taken : s.nodesTaken = s.clientRead.length + if s.recvMsg = none then 0 else 1
  heads : ∀ m ∈ s.clientRead, unpackFromArray m.content packageHeadLen = some m.head
  progress : Progress packets tail (s.clientRead.map ListSmg.content) s.buffered (arrived net)

/-- The bytes of a message that is not complete hold no packet. -/
theorem ReadsPacket.unfinished (h : ReadsPacket m held) : Unfinished ValidPacket held := by
  intro f hf hinitial
  have hlen := h.len
  have hshort := h.short
  have hle := hinitial.length_le
  have hmin := hf.1
  rw [if_neg (by omega), take_of_initial hinitial (Nat.le_trans (by decide) hmin), hf.2.2] at hlen
  omega

theorem ReadsPacket.reset (old : PacketBuffer) :
    ReadsPacket { ListSmg.reset old with recvLen := 0, len := packageHeadLen } [] :=
  ⟨rfl, List.nil_prefix, rfl, show 0 < packageHeadLen by decide, show packageHeadLen ≤ packageLenMax - 200 by decide⟩

/-- What one call of `OnRead` does once it has a message. -/
theorem BinaryReading.read {net' : List SocketRead} {s' : TcpSocket} {got : List UInt8}
    (hpackets : ∀ p ∈ packets, ValidPacket p) (htail : IncompletePacket tail)
    (h : BinaryReading packets tail (s.keep m) net) (hconsumes : Consumes net got net') {m' : ListSmg}
    (hcases : s' = s.keep m' ∧ ReadsPacket m' ((s.keep m).buffered ++ got) ∨
      s' = s.deliver m' ∧ m'.content = (s.keep m).buffered ++ got ∧ ValidPacket ((s.keep m).buffered ++ got) ∧
        unpackFromArray m'.content packageHeadLen = some m'.head) :
    BinaryReading packets tail s' net' := by
  have hprogress := h.progress
  rw [hconsumes.split] at hprogress
  have hread := hprogress.read
  rcases hcases with ⟨rfl, hm'⟩ | ⟨rfl, hcontent, hvalid, hhead⟩
  · refine ⟨h.normal, h.binary, h.open_, hconsumes.arriving, ?_, h.taken, h.heads, ?_⟩
    · intro m'' hm''
      cases hm''
      rwa [hm'.buffered]
    · rwa [hm'.buffered]
  · have hdelivered := hread
    rw [← List.append_nil ((s.keep m).buffered ++ got)] at hdelivered
    obtain ⟨p, hp, hpart, hne⟩ := htail
    have hstep := hdelivered.deliver prefixFree_validPacket hpackets (prefixFree_validPacket.unfinished hp hpart hne) hvalid
    refine ⟨h.normal, h.binary, h.open_, hconsumes.arriving, ?_, ?_, ?_, ?_⟩
    · intro m'' hm''
      cases hm''
    · have htaken := h.taken
      simp only [TcpSocket.keep, reduceCtorEq, if_false] at htaken
      simp [TcpSocket.deliver, htaken]
    · intro m'' hm''
      rcases List.mem_append.mp hm'' with hm'' | hm''
      · exact h.heads m'' hm''
      · obtain rfl := List.mem_singleton.mp hm''
        exact hhead
    · rw [← hcontent] at hstep
      simpa [TcpSocket.deliver, TcpSocket.keep, TcpSocket.buffered] using hstep

/-- `OnRead` has a message, or the process ends for want of a free node. -/
theorem BinaryReading.recvNode (free : Nat → Option PacketBuffer) (h : BinaryReading packets tail s net) :
    (∃ k ≤ packets.length, free k = none ∧ s.recvNode free = .error .exit) ∨
      ∃ m s', s.recvNode free = .ok (m, s') ∧ BinaryReading packets tail (s'.keep m) net := by
  rcases s.recvNode_cases free with ⟨m, hmsg, hnode⟩ | ⟨hmsg, hcases⟩
  · exact Or.inr ⟨m, s, hnode, by rwa [TcpSocket.keep_self hmsg]⟩
  · have htaken := h.taken
    have hinitial := h.progress.delivered_initial.length_le
    rw [if_pos hmsg] at htaken
    rw [List.length_map] at hinitial
    rcases hcases with ⟨hfree, hexit⟩ | ⟨old, hnode⟩
    · exact Or.inl ⟨s.nodesTaken, by omega, hfree, hexit⟩
    · rw [if_pos h.binary] at hnode
      have hm : ReadsPacket { ListSmg.reset old with recvLen := 0, len := packageHeadLen } [] := .reset old
      refine Or.inr ⟨_, _, hnode, h.normal, h.binary, h.open_, h.arriving, ?_, ?_, h.heads, ?_⟩
      · intro m hmsg'
        cases hmsg'
        rwa [hm.buffered]
      · simp [TcpSocket.keep, htaken]
      · have hprogress := h.progress
        rw [TcpSocket.buffered_of_none hmsg] at hprogress
        rwa [hm.buffered]

/-- One call of `OnRead` in binary mode: the process ends for want of a free node, or the socket goes on. -/
theorem BinaryReading.step (hpackets : ∀ p ∈ packets, ValidPacket p) (htail : IncompletePacket tail)
    (h : BinaryReading packets tail s net) :
    (∃ k ≤ packets.length, free k = none ∧ s.onRead free net = .error .exit) ∨
      ∃ s' net', s.onRead free net = .ok (s', net') ∧ BinaryReading packets tail s' net' ∧
        (net = [] → net' = []) ∧ (net ≠ [] → readsLeft net' < readsLeft net) := by
  rcases h.recvNode free with ⟨k, hk, hnone, hexit⟩ | ⟨m, s', hnode, h⟩
  · exact Or.inl ⟨k, hk, hnone, by rw [TcpSocket.onRead, hexit]; rfl⟩
  · have hbinary : s'.binaryMode = true := h.binary
    rw [TcpSocket.onRead_eq hnode, if_pos hbinary]
    obtain ⟨got, net', hconsumes, hcases⟩ := TcpSocket.readBinary_spec (s := s') h.normal (h.message m rfl) h.arriving
      (h.progress.promised hpackets htail)
    rcases hcases with ⟨m', hresult, hm'⟩ | ⟨m', hresult, hrest⟩
    · exact Or.inr ⟨_, net', hresult, h.read hpackets htail hconsumes (Or.inl ⟨rfl, hm'⟩), hconsumes.empty, hconsumes.fewer⟩
    · exact Or.inr ⟨_, net', hresult, h.read hpackets htail hconsumes (Or.inr ⟨rfl, hrest⟩), hconsumes.empty,
        hconsumes.fewer⟩

/-- However a stream of packets is split into reads, `OnRead` delivers the packets in their order and keeps the
incomplete one. Only the lack of a free node, upon which the process ends, can stop it. -/
theorem packets_delivered (hpackets : ∀ p ∈ packets, ValidPacket p) (htail : IncompletePacket tail)
    (hs : s.Opened true) (hnet : Arriving net) (hstream : arrived net = packets.flatten ++ tail) (calls : Nat) :
    (∃ k ≤ packets.length, free k = none ∧ s.onReads free calls net = .error .exit) ∨
      ∃ s' net', s.onReads free calls net = .ok (s', net') ∧ s'.closing = false ∧
        Progress packets tail (s'.clientRead.map ListSmg.content) s'.buffered (arrived net') ∧
        (∀ m ∈ s'.clientRead, unpackFromArray m.content packageHeadLen = some m.head) ∧
        (readsLeft net ≤ calls → net' = []) ∧
        (net' = [] → s'.clientRead.map ListSmg.content = packets ∧ s'.buffered = tail) := by
  have hstart : BinaryReading packets tail s net := by
    have hbuffered := TcpSocket.buffered_of_none hs.message
    refine ⟨hs.normal, hs.mode, hs.open_, hnet, ?_, ?_, ?_, ?_⟩
    · intro m hm
      rw [hs.message] at hm
      cases hm
    · rw [hs.taken, hs.delivered, if_pos hs.message]
      rfl
    · rw [hs.delivered]
      simp
    · rw [hs.delivered, hbuffered, hstream]
      exact Progress.start packets tail
  rcases TcpSocket.onReads_run (fun s net h => BinaryReading.step hpackets htail h) hstart calls with
    hexit | ⟨s', net', hreads, h, hdone⟩
  · exact Or.inl hexit
  · refine Or.inr ⟨s', net', hreads, h.open_, h.progress, h.heads, hdone, ?_⟩
    rintro rfl
    refine h.progress.finished hpackets ?_
    cases hmsg : s'.recvMsg with
    | none =>
      intro f hf hinitial
      rw [TcpSocket.buffered_of_none hmsg, List.prefix_nil] at hinitial
      subst hinitial
      exact absurd hf.1 (by decide)
    | some m => exact (h.message m hmsg).unfinished

/-- A packet of a header and one byte. -/
def shortPacket : List UInt8 := [0, 0, 0, 61] ++ List.replicate 56 1 ++ [7]

/-- A packet and three bytes of the next one, split inside the header and inside the body. -/
def shortReads : List SocketRead :=
  [.data (shortPacket.take 10), .again, .data ((shortPacket.drop 10).take 50), .again, .data [7, 0, 0, 0]]

theorem packets_delivered_short : ∃ s' net',
    (openedSocket true).onReads (fun _ => some zeroBuffer) 70 shortReads = .ok (s', net') ∧
      s'.clientRead.map ListSmg.content = [shortPacket] ∧ s'.buffered = [0, 0, 0] := by
  rcases @packets_delivered (fun _ => some zeroBuffer) (openedSocket true) shortReads [0, 0, 0] [shortPacket] (by decide) ⟨shortPacket, by decide, by decide, by decide⟩
      (openedSocket_opened true)
      (by decide)
      (by decide) 70 with ⟨k, -, hnone, -⟩ | ⟨s', net', hreads, -, -, -, hdone, hresult⟩
  · cases hnone
  · exact ⟨s', net', hreads, hresult (hdone (by decide))⟩

end MasterAI
