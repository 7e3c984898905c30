import MasterAI.SocketReads

namespace MasterAI

/-- A line with its end of line. -/
def IsLine (l : List UInt8) : Prop := ∃ body, 10 ∉ body ∧ l = body ++ [10]

variable {free : Nat → Option PacketBuffer} {s : TcpSocket} {net : List SocketRead} {m : ListSmg}
  {held l rest tail : List UInt8} {lines delivered : List (List UInt8)}

theorem IsLine.newline_mem (h : IsLine l) : 10 ∈ l := by
  obtain ⟨body, -, rfl⟩ := h
  simp

/-- Bytes without an end of line hold no line. -/
theorem unfinished_of_notMem (h : 10 ∉ rest) : Unfinished IsLine rest :=
  fun _ hf hinitial => h (hinitial.subset hf.newline_mem)

theorem prefixFree_isLine : PrefixFree IsLine := by
  intro f g hf hg hfg
  obtain ⟨body, hbody, rfl⟩ := hg
  by_cases hle : f.length ≤ body.length
  · exact absurd hfg (fun h => hbody ((List.prefix_of_prefix_length_le h (List.prefix_append _ _) hle).subset hf.newline_mem))
  · refine hfg.eq_of_length_le ?_
    rw [List.length_append, List.length_singleton]
    omega

/-- The bytes that are left were bytes of the stream. -/
theorem Progress.mem {β : Type*} {frames : List (List β)} {end' ahead held : List β} {delivered : List (List β)} {x : β}
    (h : Progress frames end' delivered held ahead) (hx : x ∈ held ++ ahead) : (∃ f ∈ frames, x ∈ f) ∨ x ∈ end' := by
  obtain ⟨left, rfl, hstream⟩ := h
  rw [hstream] at hx
  rcases List.mem_append.mp hx with hx | hx
  · obtain ⟨f, hf, hx⟩ := List.mem_flatten.mp hx
    exact Or.inl ⟨f, List.mem_append_right _ hf, hx⟩
  · exact Or.inr hx

/-- The stream that the text mode is to read. -/
structure TextStream (lines : List (List UInt8)) (tail : List UInt8) : Prop where
  line : ∀ l ∈ lines, IsLine l
  lineShort : ∀ l ∈ lines, l.length < packageLenMax - 200
  lineZero : ∀ l ∈ lines, 0 ∉ l
  unended : 10 ∉ tail
  tailShort : tail.length < packageLenMax - 200
  tailZero : 0 ∉ tail

/-- Bytes without an end of line are a part of one line or of the rest. -/
theorem TextStream.short {ahead : List UInt8} (hstream : TextStream lines tail)
    (h : Progress lines tail delivered held ahead) (hheld : 10 ∉ held) : held.length < packageLenMax - 200 := by
  rcases h.next hstream.line with ⟨l, hl, hmem, hinitial⟩ | hrest
  · rcases List.prefix_or_prefix_of_prefix (List.prefix_append held ahead) hinitial with h | h
    · exact Nat.lt_of_le_of_lt h.length_le (hstream.lineShort l hmem)
    · exact absurd (h.subset hl.newline_mem) hheld
  · have hle : held.length ≤ tail.length := by
      rw [← hrest, List.length_append]
      omega
    exact Nat.lt_of_le_of_lt hle hstream.tailShort

theorem TextStream.zero {ahead : List UInt8} (hstream : TextStream lines tail)
    (h : Progress lines tail delivered held ahead) : 0 ∉ held := by
  intro hmem
  rcases h.mem (List.mem_append_left ahead hmem) with ⟨l, hl, hzero⟩ | hzero
  · exact hstream.lineZero l hl hzero
  · exact hstream.tailZero hzero

/-- A message that holds some bytes of the stream as a string. -/
structure ReadsText (m : ListSmg) (held : List UInt8) : Prop where
  recvLen : m.recvLen = held.length
  len : m.len = held.length
  bytes : held ++ [0] <+: m.cPacketBuffer.1

theorem ReadsText.text (h : ReadsText m held) (hzero : 0 ∉ held) : m.cPacketBuffer.text = held := by
  obtain ⟨stale, hbytes⟩ := h.bytes
  unfold PacketBuffer.text
  rw [← hbytes, List.append_assoc, List.takeWhile_append_of_pos]
  · simp
  · intro byte hbyte
    have hne : byte ≠ 0 := fun heq => hzero (heq ▸ hbyte)
    simpa using hne

theorem ReadsText.buffered (h : ReadsText m held) : (s.keep m).buffered = held := by
  change m.cPacketBuffer.1.take m.recvLen = held
  rw [h.recvLen]
  exact (List.prefix_iff_eq_take.mp ((List.prefix_append held [0]).trans h.bytes)).symm

theorem TcpSocket.lineCommand_spec (s : TcpSocket) (m : ListSmg) :
    ((s.lineCommand m).1.cPacketBuffer = m.cPacketBuffer ∧ (s.lineCommand m).1.len = m.len) ∧
      ∃ i, (s.lineCommand m).2 = { s with tidIndex := i } := by
  unfold lineCommand
  dsimp only
  split_ifs <;> exact ⟨⟨rfl, rfl⟩, _, rfl⟩

/-- The message that is delivered for a line. -/
theorem TcpSocket.lineMessage_spec (s : TcpSocket) (hlen : m.len = l.length) (hline : l <+: m.cPacketBuffer.1)
    (hfit : l.length < packageLenMax) :
    ∃ m' i, s.lineMessage m = some (m', { s with tidIndex := i }) ∧ m'.content = l := by
  obtain ⟨buffer, hstore, hbuffer⟩ := PacketBuffer.store_spec [0] hline hlen.symm
    (by rw [hlen, List.length_singleton]; omega)
  unfold lineMessage
  rw [hstore]
  obtain ⟨⟨hsame, hsameLen⟩, i, hsocket⟩ := s.lineCommand_spec
    { m with
      connfd := s.sockID
      nPort := s.remotePort
      nUniqueID := s.uniqueID
      nCliConnID := (s.sockID * 4294967296 + s.uniqueID) % 18446744073709551616
      nRemoteServerID := s.remoteServerID
      cPacketBuffer := buffer
      sAddr := s.remoteAddr.take 30 }
  refine ⟨_, i, congrArg some (Prod.ext rfl hsocket), ?_⟩
  unfold ListSmg.content
  rw [hsame, hsameLen]
  change buffer.1.take m.len = l
  rw [hlen]
  exact (List.prefix_iff_eq_take.mp ((List.prefix_append l [0]).trans hbuffer)).symm

/-- The bytes behind a line move to a fresh node. -/
theorem TcpSocket.cacheRest_spec (next : ListSmg) (h : ReadsText m (l ++ rest)) (hfit : (l ++ rest).length < packageLenMax) :
    ∃ m', cacheRest m next l.length = some m' ∧ ReadsText m' rest := by
  have hlength : (l ++ rest).length = l.length + rest.length := List.length_append
  have hrecvLen : (m.len + 65536 - l.length) % 65536 = rest.length := by
    rw [h.len]
    unfold packageLenMax at hfit
    omega
  have hbytes : (m.cPacketBuffer.1.drop l.length).take rest.length = rest := by
    obtain ⟨stale, hbytes⟩ := h.bytes
    rw [← hbytes, List.append_assoc, List.append_assoc, List.drop_left, List.take_left]
  obtain ⟨buffer, hstore, hbuffer⟩ := PacketBuffer.store_spec rest
    (show [] <+: next.cPacketBuffer.1 from List.nil_prefix) (show List.length [] = 0 from rfl) (by omega)
  obtain ⟨buffer', hstore', hbuffer'⟩ := PacketBuffer.store_spec [0] hbuffer rfl
    (by rw [List.nil_append, List.length_singleton]; omega)
  rw [List.nil_append] at hstore' hbuffer'
  unfold cacheRest
  simp only [hrecvLen, hbytes, hstore, Option.bind_eq_bind, Option.bind_some, hstore']
  exact ⟨_, rfl, rfl, rfl, hbuffer'⟩

/-- The socket between two calls of `OnRead` in text mode. -/
structure TextReading (lines : List (List UInt8)) (tail : List UInt8) (s : TcpSocket) (net : List SocketRead) :
    Prop where
  normal : s.stateNormal = true
  text : s.binaryMode = false
  open_ : s.closing = false
  message : ∀ m, s.recvMsg = some m → ReadsText m s.buffered
  unended : 10 ∉ s.buffered
  taken : s.nodesTaken = s.clientRead.length + if s.recvMsg = none then 0 else 1
  progress : Progress lines tail (s.clientRead.map ListSmg.content) s.buffered (arrived net)

/-- The socket at `FIND_LINE`, with a message at hand. -/
structure FindsLine (lines : List (List UInt8)) (tail : List UInt8) (s : TcpSocket) (m : ListSmg)
    (held : List UInt8) (net : List SocketRead) : Prop where
  normal : s.stateNormal = true
  text : s.binaryMode = false
  open_ : s.closing = false
  message : ReadsText m held
  fits : held.length < packageLenMax
  taken : s.nodesTaken = s.clientRead.length + 1
  progress : Progress lines tail (s.clientRead.map ListSmg.content) held (arrived net)

theorem FindsLine.keep (h : FindsLine lines tail s m held net) (hheld : 10 ∉ held) (i : Nat) :
    TextReading lines tail ({ s with tidIndex := i }.keep m) net := by
  have hbuffered : ({ s with tidIndex := i }.keep m).buffered = held := h.message.buffered
  refine ⟨h.normal, h.text, h.open_, ?_, by rwa [hbuffered], h.taken, by rw [hbuffered]; exact h.progress⟩
  intro m' hm'
  cases hm'
  rw [hbuffered]
  exact h.message

/-- The first line of the bytes at hand. -/
theorem exists_line_of_findIdx? {i : Nat} (h : held.findIdx? (· = 10) = some i) :
    ∃ l rest, held = l ++ rest ∧ IsLine l ∧ l.length = i + 1 := by
  obtain ⟨hlt, hfound, hbefore⟩ := List.findIdx?_eq_some_iff_getElem.mp h
  have hnewline : held[i] = 10 := by simpa using hfound
  refine ⟨held.take (i + 1), held.drop (i + 1), (List.take_append_drop _ _).symm, ⟨held.take i, ?_, ?_⟩, ?_⟩
  · intro hmem
    obtain ⟨j, hj, hget⟩ := List.mem_iff_getElem.mp hmem
    rw [List.length_take] at hj
    rw [List.getElem_take] at hget
    have hnot := hbefore j (by omega)
    simp [hget] at hnot
  · rw [List.take_succ_eq_append_getElem hlt, hnewline]
  · rw [List.length_take]
    omega

/-- A line is delivered, and the search goes on in what is behind it. -/
theorem FindsLine.deliver (hstream : TextStream lines tail) (h : FindsLine lines tail s m (l ++ rest) net)
    (hl : IsLine l) {m' : ListSmg} (hm' : m'.content = l) :
    Progress lines tail ((s.deliver m').clientRead.map ListSmg.content) rest (arrived net) := by
  have hstep := h.progress.deliver prefixFree_isLine hstream.line (unfinished_of_notMem hstream.unended) hl
  simp only [TcpSocket.deliver, List.map_append, List.map_cons, List.map_nil, hm']
  exact hstep

/-- The loop of `FIND_LINE`. -/
theorem FindsLine.findLine (free : Nat → Option PacketBuffer) (hstream : TextStream lines tail) {fuel : Nat} (h : FindsLine lines tail s m held net)
    (hfuel : held.length < fuel) :
    (∃ k ≤ lines.length, free k = none ∧ s.findLine free fuel m = .error .exit) ∨
      ∃ s', s.findLine free fuel m = .ok s' ∧ TextReading lines tail s' net := by
  induction fuel generalizing s m held with
  | zero => omega
  | succ fuel ih =>
    have htext := h.message.text (hstream.zero h.progress)
    unfold TcpSocket.findLine
    rw [htext]
    cases hfind : held.findIdx? (· = 10) with
    | none =>
      have hheld : 10 ∉ held := by
        intro hmem
        have hnone := List.findIdx?_eq_none_iff.mp hfind 10 hmem
        simp at hnone
      exact Or.inr ⟨_, rfl, h.keep hheld _⟩
    | some i =>
      obtain ⟨l, rest, rfl, hl, hlen⟩ := exists_line_of_findIdx? hfind
      have hlength : (l ++ rest).length = l.length + rest.length := List.length_append
      have hfits := h.fits
      have hnLineLen : (i + 1) % 65536 = l.length := by
        unfold packageLenMax at hfits
        omega
      have hlineHeld : l <+: m.cPacketBuffer.1 :=
        (List.prefix_append l (rest ++ [0])).trans (by rw [← List.append_assoc]; exact h.message.bytes)
      have hdelivered := fun m' (hm' : ListSmg.content m' = l) => h.deliver hstream hl hm'
      simp only [hnLineLen]
      by_cases hmore : l.length < m.len
      · rw [if_pos hmore]
        have htaken := h.taken
        cases hfree : free s.nodesTaken with
        | none =>
          obtain ⟨m', j, -, hcontent⟩ := s.lineMessage_spec (m := { m with recvLen := l.length, len := l.length }) rfl
            hlineHeld (by omega)
          have hinitial := (hdelivered m' hcontent).delivered_initial.length_le
          simp only [TcpSocket.deliver, List.length_map, List.length_append, List.length_singleton] at hinitial
          exact Or.inl ⟨s.nodesTaken, by omega, hfree, by simp only [TcpSocket.getNoBlockNode, hfree]; rfl⟩
        | some old =>
          obtain ⟨next, hcache, hnext⟩ := TcpSocket.cacheRest_spec (ListSmg.reset old) h.message h.fits
          obtain ⟨m', j, hline, hcontent⟩ := TcpSocket.lineMessage_spec { s with nodesTaken := s.nodesTaken + 1 }
            (m := { m with recvLen := l.length, len := l.length }) rfl hlineHeld (by omega)
          have hfound : FindsLine lines tail ({ s with nodesTaken := s.nodesTaken + 1, tidIndex := j }.deliver m') next
              rest net := by
            refine ⟨h.normal, h.text, h.open_, hnext, by omega, ?_, hdelivered m' hcontent⟩
            simp [TcpSocket.deliver, htaken]
          have hpos : 0 < l.length := by omega
          have hresult := ih hfound (by omega)
          simp only [TcpSocket.getNoBlockNode, hfree, bind, Except.bind, hcache, hline]
          exact hresult
      · rw [if_neg hmore]
        have hrest : rest = [] := by
          have hmlen := h.message.len
          exact List.length_eq_zero_iff.mp (by omega)
        subst hrest
        obtain ⟨m', j, hline, hcontent⟩ := s.lineMessage_spec (l := l) (by rw [h.message.len, List.append_nil]) hlineHeld
          (by omega)
        rw [hline]
        refine Or.inr ⟨_, rfl, h.normal, h.text, h.open_, ?_, ?_, ?_, hdelivered m' hcontent⟩
        · intro m'' hm''
          cases hm''
        · simp [TcpSocket.deliver, TcpSocket.buffered]
        · simp [TcpSocket.deliver, h.taken]

/-- One call of `OnRead` in text mode with a message at hand. -/
theorem TextReading.readText (free : Nat → Option PacketBuffer) (hstream : TextStream lines tail) (h : TextReading lines tail (s.keep m) net)
    (hnet : Arriving net) :
    ∃ got net', Consumes net got net' ∧ ((∃ k ≤ lines.length, free k = none ∧ s.readText free m net = .error .exit) ∨
      ∃ s', s.readText free m net = .ok (s', net') ∧ TextReading lines tail s' net') := by
  have hm := h.message m rfl
  have hshort := hstream.short h.progress h.unended
  have hlen := hm.len
  have hrecvLen := hm.recvLen
  obtain ⟨held, hheld⟩ : ∃ held, held = (s.keep m).buffered := ⟨_, rfl⟩
  have hprogress := h.progress
  rw [← hheld] at hm hshort hlen hrecvLen hprogress
  have hlong : packageLenMax = 8192 := rfl
  obtain ⟨got, net', hrecv, hgot, hconsumes⟩ := TcpSocket.recv_spec (s := s) (packageLenMax - m.len - 100)
    h.normal (by omega) hnet
  obtain ⟨buffer, hstore, hbuffer⟩ := PacketBuffer.store_spec got
    ((List.prefix_append held [0]).trans hm.bytes) hrecvLen.symm (by omega)
  have hlength : (held ++ got).length = m.recvLen + got.length := by rw [List.length_append, hrecvLen]
  refine ⟨got, net', hconsumes, ?_⟩
  rw [hconsumes.split] at hprogress
  have hread := hprogress.read
  unfold TcpSocket.readText
  rw [if_neg (by omega)]
  simp only [hrecv, hstore]
  rw [if_neg (by omega)]
  by_cases hnone : got.length = 0
  · rw [if_pos (by omega)]
    obtain rfl := List.length_eq_zero_iff.mp hnone
    obtain rfl := Option.some.inj ((PacketBuffer.store_nil (by omega)).symm.trans hstore)
    refine Or.inr ⟨_, rfl, h.normal, h.text, h.open_, h.message, h.unended, h.taken, ?_⟩
    rw [List.append_nil, hheld] at hread
    exact hread
  · have hsum : (m.recvLen + (got.length : Int).toNat % 65536) % 65536 = (held ++ got).length := by
      rw [hlength, Int.toNat_natCast]
      omega
    rw [if_neg (by omega)]
    simp only [hsum]
    obtain ⟨buffer', hstore', hbuffer'⟩ := PacketBuffer.store_spec [0] hbuffer rfl
      (by rw [hlength, List.length_singleton]; omega)
    rw [hstore']
    have hfinds : FindsLine lines tail s
        { m with recvLen := (held ++ got).length, len := (held ++ got).length, cPacketBuffer := buffer' } (held ++ got)
        net' := ⟨h.normal, h.text, h.open_, ⟨rfl, rfl, hbuffer'⟩, by omega, h.taken, hread⟩
    rcases hfinds.findLine free hstream (Nat.lt_succ_self _) with ⟨k, hk, hfree, hexit⟩ | ⟨s', hfound, hreading⟩
    · refine Or.inl ⟨k, hk, hfree, ?_⟩
      dsimp only
      rw [hexit]
      rfl
    · refine Or.inr ⟨s', ?_, hreading⟩
      dsimp only
      rw [hfound]
      rfl

theorem ReadsText.reset (old : PacketBuffer) : ReadsText { ListSmg.reset old with recvLen := 0, len := 0 } [] := by
  refine ⟨rfl, rfl, ?_⟩
  obtain ⟨bytes, hbytes⟩ := old
  cases bytes with
  | nil => cases hbytes
  | cons byte bytes => exact ⟨bytes, rfl⟩

/-- `OnRead` has a message, or the process ends for want of a free node. -/
theorem TextReading.recvNode (free : Nat → Option PacketBuffer) (h : TextReading lines tail s net) :
    (∃ k ≤ lines.length, free k = none ∧ s.recvNode free = .error .exit) ∨
      ∃ m s', s.recvNode free = .ok (m, s') ∧ TextReading lines tail (s'.keep m) net := by
  rcases s.recvNode_cases free with ⟨m, hmsg, hnode⟩ | ⟨hmsg, hcases⟩
  · exact Or.inr ⟨m, s, hnode, by rwa [TcpSocket.keep_self hmsg]⟩
  · have htaken := h.taken
    have hinitial := h.progress.delivered_initial.length_le
    rw [if_pos hmsg] at htaken
    rw [List.length_map] at hinitial
    rcases hcases with ⟨hfree, hexit⟩ | ⟨old, hnode⟩
    · exact Or.inl ⟨s.nodesTaken, by omega, hfree, hexit⟩
    · have htext : ¬s.binaryMode = true := by simp [h.text]
      rw [if_neg htext] at hnode
      have hm : ReadsText { ListSmg.reset old with recvLen := 0, len := 0 } [] := .reset old
      refine Or.inr ⟨_, _, hnode, h.normal, h.text, h.open_, ?_, ?_, ?_, ?_⟩
      · intro m hmsg'
        cases hmsg'
        rwa [hm.buffered]
      · rw [hm.buffered]
        simp
      · simp [TcpSocket.keep, htaken]
      · have hprogress := h.progress
        rw [TcpSocket.buffered_of_none hmsg] at hprogress
        rwa [hm.buffered]

/-- One call of `OnRead` in text mode. -/
theorem TextReading.step (hstream : TextStream lines tail) (h : TextReading lines tail s net) (hnet : Arriving net) :
    (∃ k ≤ lines.length, free k = none ∧ s.onRead free net = .error .exit) ∨
      ∃ s' net', s.onRead free net = .ok (s', net') ∧ (TextReading lines tail s' net' ∧ Arriving net') ∧
        (net = [] → net' = []) ∧ (net ≠ [] → readsLeft net' < readsLeft net) := by
  rcases h.recvNode free with ⟨k, hk, hnone, hexit⟩ | ⟨m, s', hnode, h⟩
  · exact Or.inl ⟨k, hk, hnone, by rw [TcpSocket.onRead, hexit]; rfl⟩
  · have htext : ¬s'.binaryMode = true := by
      have hmode : s'.binaryMode = false := h.text
      simp [hmode]
    rw [TcpSocket.onRead_eq hnode, if_neg htext]
    obtain ⟨got, net', hconsumes, hexit | ⟨s'', hresult, h⟩⟩ := h.readText free hstream hnet
    · exact Or.inl hexit
    · exact Or.inr ⟨s'', net', hresult, ⟨h, hconsumes.arriving⟩, hconsumes.empty, hconsumes.fewer⟩

/-- However a stream of lines is split into reads, `OnRead` in text mode delivers the lines in their order and keeps
what is behind the last one. -/
theorem lines_delivered (hstream : TextStream lines tail) (hfree : ∀ k, free k ≠ none) (hs : s.Opened false)
    (hnet : Arriving net) (harrived : arrived net = lines.flatten ++ tail) (calls : Nat) :
    ∃ s' net', s.onReads free calls net = .ok (s', net') ∧ s'.closing = false ∧
      Progress lines tail (s'.clientRead.map ListSmg.content) s'.buffered (arrived net') ∧
      (readsLeft net ≤ calls → net' = []) ∧
      (net' = [] → s'.clientRead.map ListSmg.content = lines ∧ s'.buffered = tail) := by
  have hstart : TextReading lines tail s net := by
    have hbuffered := TcpSocket.buffered_of_none hs.message
    refine ⟨hs.normal, hs.mode, hs.open_, ?_, ?_, ?_, ?_⟩
    · intro m hm
      rw [hs.message] at hm
      cases hm
    · rw [hbuffered]
      simp
    · rw [hs.taken, hs.delivered, if_pos hs.message]
      rfl
    · rw [hs.delivered, hbuffered, harrived]
      exact Progress.start lines tail
  rcases TcpSocket.onReads_run (fun s net h => TextReading.step hstream h.1 h.2) ⟨hstart, hnet⟩ calls with
    ⟨k, -, hnone, -⟩ | ⟨s', net', hreads, ⟨h, -⟩, hdone⟩
  · exact absurd hnone (hfree k)
  · refine ⟨s', net', hreads, h.open_, h.progress, hdone, ?_⟩
    rintro rfl
    exact h.progress.finished hstream.line (unfinished_of_notMem h.unended)

/-- Two lines and a half in reads that end inside and behind lines. -/
def textReads : List SocketRead :=
  [.data [75, 101], .again, .data [101, 112, 10, 65, 10, 66], .data [67]]

theorem lines_delivered_two : ∃ s' net',
    (openedSocket false).onReads (fun _ => some zeroBuffer) 20 textReads = .ok (s', net') ∧
      s'.clientRead.map ListSmg.content = [[75, 101, 101, 112, 10], [65, 10]] ∧ s'.buffered = [66, 67] := by
  have hstream : TextStream [[75, 101, 101, 112, 10], [65, 10]] [66, 67] := by
    refine ⟨?_, by decide, by decide, by decide, by decide, by decide⟩
    intro l hl
    simp only [List.mem_cons, List.not_mem_nil, or_false] at hl
    rcases hl with rfl | rfl
    · exact ⟨[75, 101, 101, 112], by decide, rfl⟩
    · exact ⟨[65], by decide, rfl⟩
  obtain ⟨s', net', hreads, -, -, hdone, hresult⟩ := @lines_delivered (fun _ => some zeroBuffer) _ textReads
    _ _ hstream (by simp) (openedSocket_opened false) (by decide) (by decide) 20
  exact ⟨s', net', hreads, hresult (hdone (by decide))⟩

end MasterAI
