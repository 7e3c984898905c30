import MasterAI.RingWindow
import MasterAI.StepRuns
import MasterAI.WrapInt32

namespace MasterAI

/-- The head of a shared-memory pipe and its cells. -/
structure ShmPipe where
  head : Nat
  tail : Nat
  size : Nat
  data : Nat → UInt8

namespace ShmPipe

def getLeftSize (head tail size : Nat) : Nat := if tail ≥ head then size - tail + head else head - tail

def getSize (head tail size : Nat) : Nat := if tail ≥ head then tail - head else size - head + tail

/-- The cells after the two bytes of the length are written. -/
def writeLength (p : ShmPipe) (len : Nat) : Nat → UInt8 :=
  Function.update (Function.update p.data p.tail (UInt8.ofNat len)) ((p.tail + 1) % p.size) (UInt8.ofNat (len / 256))

/-- The result of `WriteBuffer` and the pipe after it; nothing where it leaves the memory of the pipe. The
length is cut to 32 bits before it is compared and to 16 bits where it is written. -/
def writeBuffer (p : ShmPipe) (msg : List UInt8) : Option (Int × ShmPipe) :=
  if msg = [] then some (-1, p)
  else if getLeftSize p.head p.tail p.size < (msg.length % 4294967296 + 2) % 4294967296 then some (-3, p)
  else
    let tail := ((p.tail + 1) % p.size + 1) % p.size
    let done : Int × ShmPipe := (wrapInt32 msg.length, { p with tail := (tail + msg.length) % p.size })
    if p.size = 0 then none
    else if tail + msg.length > p.size then
      if msg.length - (p.size - tail) > p.size then none
      else
        some (done.1, { done.2 with
          data := copyIn (copyIn (p.writeLength msg.length) tail (msg.take (p.size - tail))) 0
            (msg.drop (p.size - tail)) })
    else some (done.1, { done.2 with data := copyIn (p.writeLength msg.length) tail msg })

/-- The result of `ReadBuffer` into a buffer of `n` bytes, the bytes it stores there and the pipe after
it. Sums of positions are cut to 32 bits. -/
def readBuffer (p : ShmPipe) (n : Nat) : Option (Int × List UInt8 × ShmPipe) :=
  if n = 0 then some (-1, [], p)
  else if p.head = p.tail then some (0, [], p)
  else if getSize p.head p.tail p.size < 2 then some (-3, [], p)
  else
    let bufLen := (p.data p.head).toNat + 256 * (p.data ((p.head + 1) % p.size)).toNat
    let head := ((p.head + 1) % p.size + 1) % p.size
    let next := { p with head := (head + bufLen) % 4294967296 % p.size }
    if bufLen > getSize p.head p.tail p.size - 2 then some (-4, [], p)
    else if bufLen > n then some (-5, [], next)
    else if (head + bufLen) % 4294967296 > p.size then
      some (bufLen, copyOut p.data head (p.size - head) ++ copyOut p.data 0 (bufLen - (p.size - head)), next)
    else if head + bufLen > p.size then none
    else some (bufLen, copyOut p.data head bufLen, next)

end ShmPipe

/-- A call with its result, and with the bytes that a read stores. -/
inductive PipeEvent
  | write (msg : List UInt8) (result : Int)
  | read (n : Nat) (result : Int) (bytes : List UInt8)
  deriving DecidableEq, Repr

def PipeStep (p : ShmPipe) (e : PipeEvent) (q : ShmPipe) : Prop :=
  match e with
  | .write msg result => p.writeBuffer msg = some (result, q)
  | .read n result bytes => p.readBuffer n = some (result, bytes, q)

/-- `Reset` leaves the cells as they are. -/
def PipeStart (size : Nat) (p : ShmPipe) : Prop := ∃ data, p = ⟨0, 0, size, data⟩

abbrev PipeRun (size : Nat) := StepRun PipeStep (PipeStart size)

abbrev PipeTrace := List (Transition ShmPipe PipeEvent)

/-- The message of a write that returned a positive length. -/
def PipeEvent.accepted : PipeEvent → Option (List UInt8)
  | .write msg result => if 0 < result then some msg else none
  | .read _ _ _ => none

/-- The bytes of a read that returned a positive length. -/
def PipeEvent.returned : PipeEvent → Option (List UInt8)
  | .write _ _ => none
  | .read _ result bytes => if 0 < result then some bytes else none

/-- The messages that a run accepted, in order. -/
def accepted (trace : PipeTrace) : List (List UInt8) := trace.reverse.filterMap fun t => t.event.accepted

/-- The messages that a run returned, in order. -/
def returned (trace : PipeTrace) : List (List UInt8) := trace.reverse.filterMap fun t => t.event.returned

/-- The messages that were accepted and not returned yet. -/
def unread (trace : PipeTrace) : List (List UInt8) := (accepted trace).drop (returned trace).length

/-- A write of nothing, of more than the free cells can take, or of at most 65535 bytes that leave a cell
free. -/
def ShmPipe.WriteFits (p : ShmPipe) (msg : List UInt8) : Prop :=
  msg = [] ∨ getLeftSize p.head p.tail p.size < (msg.length % 4294967296 + 2) % 4294967296 ∨
    (msg.length ≤ 65535 ∧ msg.length + 2 < getLeftSize p.head p.tail p.size)

/-- A read into a buffer that takes the next message, whose end has a position of 32 bits. -/
def ShmPipe.ReadFits (p : ShmPipe) (next : Option (List UInt8)) (n : Nat) : Prop :=
  0 < n ∧ ∀ msg ∈ next, msg.length ≤ n ∧ ((p.head + 1) % p.size + 1) % p.size + msg.length < 4294967296

def FitsPipe (older : PipeTrace) (t : Transition ShmPipe PipeEvent) : Prop :=
  match t.event with
  | .write msg _ => t.pre.WriteFits msg
  | .read n _ _ => t.pre.ReadFits (unread older).head? n

/-- A message as it lies in the pipe. -/
def encode (msg : List UInt8) : List UInt8 :=
  UInt8.ofNat msg.length :: UInt8.ofNat (msg.length / 256) :: msg

/-- The cells from the head to the tail hold the messages, and one cell stays free. -/
structure ShmPipe.Holds (p : ShmPipe) (msgs : List (List UInt8)) : Prop where
  head_lt : p.head < p.size ∨ p.size = 0 ∧ p.head = 0
  tail_eq : p.tail = (p.head + (msgs.flatMap encode).length) % p.size
  room : (msgs.flatMap encode).length < p.size ∨ msgs = []
  window : ringWindow p.data p.size p.head (msgs.flatMap encode).length = msgs.flatMap encode
  lengths : ∀ msg ∈ msgs, 0 < msg.length ∧ msg.length ≤ 65535

section

variable {p q : ShmPipe} {msgs : List (List UInt8)} {msg : List UInt8} {size : Nat}

open ShmPipe

theorem getSize_ring {head used : Nat} (hhead : head < size) (hused : used < size) :
    getSize head ((head + used) % size) size = used := by
  rw [ring_mod hhead hused.le]
  unfold getSize
  split <;> split <;> omega

theorem getLeftSize_ring {head used : Nat} (hhead : head < size) (hused : used < size) :
    getLeftSize head ((head + used) % size) size = size - used := by
  rw [ring_mod hhead hused.le]
  unfold getLeftSize
  split <;> split <;> omega

theorem storedAt_update {data : Nat → UInt8} {start : Nat} (x : UInt8) (hstart : start < size) :
    StoredAt size start [x] data (Function.update data start x) where
  stored := by
    intro k hk
    rw [List.length_singleton] at hk
    have hzero : k = 0 := by omega
    subst hzero
    rw [Nat.add_zero, Nat.mod_eq_of_lt hstart, Function.update_self]
    rfl
  kept := by
    intro j hj
    have hne := hj 0 (by simp)
    rw [Nat.add_zero, Nat.mod_eq_of_lt hstart] at hne
    exact Function.update_of_ne hne _ _

/-- The length and the message are written one after the other behind the tail. -/
theorem storedAt_encode (htail : p.tail < p.size) (hfits : msg.length + 2 ≤ p.size) :
    StoredAt p.size p.tail (encode msg) p.data
      (if ((p.tail + 1) % p.size + 1) % p.size + msg.length > p.size then
        copyIn (copyIn (p.writeLength msg.length) (((p.tail + 1) % p.size + 1) % p.size)
          (msg.take (p.size - ((p.tail + 1) % p.size + 1) % p.size))) 0
          (msg.drop (p.size - ((p.tail + 1) % p.size + 1) % p.size))
      else copyIn (p.writeLength msg.length) (((p.tail + 1) % p.size + 1) % p.size) msg) := by
  have hsize : 0 < p.size := by omega
  have hnext : (p.tail + 1) % p.size < p.size := Nat.mod_lt _ hsize
  have hbody : ((p.tail + 1) % p.size + 1) % p.size < p.size := Nat.mod_lt _ hsize
  have hlength : StoredAt p.size p.tail [UInt8.ofNat msg.length, UInt8.ofNat (msg.length / 256)] p.data
      (p.writeLength msg.length) :=
    (storedAt_update _ htail).append (storedAt_update _ hnext) htail (by simp; omega)
  refine hlength.append (y := msg) ?_ htail (by simp; omega)
  have hstart : (p.tail + [UInt8.ofNat msg.length, UInt8.ofNat (msg.length / 256)].length) % p.size =
      ((p.tail + 1) % p.size + 1) % p.size := by
    rw [Nat.mod_add_mod]
    rfl
  rw [hstart]
  by_cases hwrap : ((p.tail + 1) % p.size + 1) % p.size + msg.length > p.size
  · rw [if_pos hwrap]
    exact storedAt_split hbody (by omega) hwrap
  · rw [if_neg hwrap]
    exact storedAt_copyIn (by omega)

theorem encode_length (msg : List UInt8) : (encode msg).length = msg.length + 2 := rfl

/-- While a cell of the pipe is free for a message, its positions lie in the ring. -/
theorem ShmPipe.Holds.bounds (h : p.Holds msgs) (hroom : 0 < getLeftSize p.head p.tail p.size) :
    p.head < p.size ∧ (msgs.flatMap encode).length < p.size ∧
      getLeftSize p.head p.tail p.size = p.size - (msgs.flatMap encode).length := by
  have hhead : p.head < p.size := by
    rcases h.head_lt with hlt | ⟨hsize, hzero⟩
    · exact hlt
    · have hnone : msgs = [] := by
        rcases h.room with hroom | hnone
        · omega
        · exact hnone
      have htail := h.tail_eq
      rw [hnone, hsize, hzero] at htail
      rw [htail, hsize, hzero] at hroom
      exact absurd hroom (by decide)
  have hused : (msgs.flatMap encode).length < p.size := by
    rcases h.room with hroom | rfl
    · exact hroom
    · simp
      omega
  refine ⟨hhead, hused, ?_⟩
  rw [h.tail_eq]
  exact getLeftSize_ring hhead hused

/-- The pipe with a further message behind the tail. -/
theorem ShmPipe.Holds.snoc (h : p.Holds msgs) (hhead : p.head < p.size) {data : Nat → UInt8}
    (hfits : (msgs.flatMap encode).length + (msg.length + 2) < p.size)
    (hstored : StoredAt p.size p.tail (encode msg) p.data data) (hmsg : 0 < msg.length ∧ msg.length ≤ 65535) :
    ShmPipe.Holds { p with tail := (((p.tail + 1) % p.size + 1) % p.size + msg.length) % p.size, data := data }
      (msgs ++ [msg]) := by
  have hbytes : (msgs ++ [msg]).flatMap encode = msgs.flatMap encode ++ encode msg := by
    simp
  have hlength : ((msgs ++ [msg]).flatMap encode).length = (msgs.flatMap encode).length + (encode msg).length := by
    rw [hbytes, List.length_append]
  rw [← encode_length] at hfits
  refine ⟨Or.inl hhead, ?_, Or.inl (by rw [hlength]; exact hfits), ?_, ?_⟩
  · rw [hlength, encode_length]
    dsimp only
    rw [h.tail_eq]
    simp only [Nat.mod_add_mod]
    congr 1
    omega
  · dsimp only
    rw [hlength, hbytes, StoredAt.ringWindow ?_ hhead hfits.le, h.window]
    rw [← h.tail_eq]
    exact hstored
  · intro other hother
    rcases List.mem_append.mp hother with hother | hother
    · exact h.lengths other hother
    · rw [List.mem_singleton.mp hother]
      exact hmsg

/-- A refused write changes nothing, and an accepted one puts the message behind the others. -/
theorem ShmPipe.Holds.writeBuffer (h : p.Holds msgs) (hfits : p.WriteFits msg) :
    ∃ result q, p.writeBuffer msg = some (result, q) ∧
      ((result < 0 ∧ q = p) ∨ (0 < result ∧ q.Holds (msgs ++ [msg]))) := by
  unfold ShmPipe.writeBuffer
  by_cases hempty : msg = []
  · rw [if_pos hempty]
    exact ⟨-1, p, rfl, Or.inl ⟨by omega, rfl⟩⟩
  · rw [if_neg hempty]
    by_cases hfull : getLeftSize p.head p.tail p.size < (msg.length % 4294967296 + 2) % 4294967296
    · rw [if_pos hfull]
      exact ⟨-3, p, rfl, Or.inl ⟨by omega, rfl⟩⟩
    · rw [if_neg hfull]
      obtain ⟨hshort, hroom⟩ : msg.length ≤ 65535 ∧ msg.length + 2 < getLeftSize p.head p.tail p.size :=
        (hfits.resolve_left hempty).resolve_left hfull
      have hpos : 0 < msg.length := List.length_pos_iff.mpr hempty
      obtain ⟨hhead, hused, hleft⟩ := h.bounds (by omega)
      have htail : p.tail < p.size := by
        rw [h.tail_eq]
        exact Nat.mod_lt _ (by omega)
      have hspace : msg.length + 2 ≤ p.size := by omega
      have hstored := storedAt_encode htail hspace
      have hsnoc := h.snoc hhead (by omega) hstored ⟨hpos, hshort⟩
      have hresult : wrapInt32 msg.length = msg.length :=
        wrapInt32_eq ⟨by omega, by unfold int32Max; omega⟩
      dsimp only
      rw [if_neg (by omega), hresult]
      refine ⟨msg.length, _, ?_, Or.inr ⟨by omega, hsnoc⟩⟩
      by_cases hwrap : ((p.tail + 1) % p.size + 1) % p.size + msg.length > p.size
      · rw [if_pos hwrap, if_pos hwrap, if_neg (by omega)]
      · rw [if_neg hwrap, if_neg hwrap]

/-- The length in front of the first message, the message, and the pipe behind it. -/
theorem ShmPipe.Holds.uncons {rest : List (List UInt8)} (h : p.Holds (msg :: rest)) :
    p.head < p.size ∧ getSize p.head p.tail p.size = msg.length + 2 + (rest.flatMap encode).length ∧
      (p.data p.head).toNat + 256 * (p.data ((p.head + 1) % p.size)).toNat = msg.length ∧
      msg.length + 2 + (rest.flatMap encode).length < p.size ∧
      ringWindow p.data p.size (((p.head + 1) % p.size + 1) % p.size) msg.length = msg ∧
      ShmPipe.Holds { p with head := (((p.head + 1) % p.size + 1) % p.size + msg.length) % p.size } rest := by
  have hbytes : (msg :: rest).flatMap encode = encode msg ++ rest.flatMap encode := rfl
  have hlength : ((msg :: rest).flatMap encode).length = 2 + (msg.length + (rest.flatMap encode).length) := by
    rw [hbytes, List.length_append, encode_length]
    omega
  have hroom : 2 + (msg.length + (rest.flatMap encode).length) < p.size := by
    rw [← hlength]
    exact h.room.resolve_right (by simp)
  have hhead : p.head < p.size := by
    rcases h.head_lt with hlt | ⟨hsize, -⟩
    · exact hlt
    · omega
  have hbody : ((p.head + 1) % p.size + 1) % p.size = (p.head + 2) % p.size := by
    rw [Nat.mod_add_mod]
  have hwindow := h.window
  rw [hlength, ringWindow_add, hbytes] at hwindow
  have hencoded : encode msg ++ rest.flatMap encode =
      [UInt8.ofNat msg.length, UInt8.ofNat (msg.length / 256)] ++ (msg ++ rest.flatMap encode) := rfl
  obtain ⟨htwo, hafter⟩ := List.append_inj (hwindow.trans hencoded) (ringWindow_length _)
  rw [ringWindow_add] at hafter
  obtain ⟨hmsg, hrest⟩ := List.append_inj hafter (ringWindow_length _)
  obtain ⟨hlow, hhigh⟩ : p.data p.head = UInt8.ofNat msg.length ∧
      p.data ((p.head + 1) % p.size) = UInt8.ofNat (msg.length / 256) := by
    have hpair : [p.data ((p.head + 0) % p.size), p.data ((p.head + 1) % p.size)] =
        [UInt8.ofNat msg.length, UInt8.ofNat (msg.length / 256)] := htwo
    rw [Nat.add_zero, Nat.mod_eq_of_lt hhead] at hpair
    obtain ⟨hlow, hpair⟩ := List.cons.inj hpair
    exact ⟨hlow, (List.cons.inj hpair).1⟩
  have htail := h.tail_eq
  rw [hlength] at htail
  have hshort := h.lengths msg (by simp)
  refine ⟨hhead, ?_, ?_, by omega, ?_, ?_⟩
  · rw [htail, getSize_ring hhead hroom]
    omega
  · rw [hlow, hhigh, UInt8.toNat_ofNat', UInt8.toNat_ofNat']
    omega
  · rw [hbody]
    exact hmsg
  · refine ⟨Or.inl (Nat.mod_lt _ (by omega)), ?_, Or.inl ?_, ?_, fun other hother => h.lengths other (by simp [hother])⟩
    · dsimp only
      rw [htail, hbody]
      simp only [Nat.mod_add_mod]
      congr 1
      omega
    · dsimp only
      omega
    · dsimp only
      rw [hbody]
      exact hrest

/-- A read returns the first message and takes it from the pipe, and it returns zero where there is none. -/
theorem ShmPipe.Holds.readBuffer {n : Nat} (h : p.Holds msgs) (hfits : p.ReadFits msgs.head? n) :
    (msgs = [] ∧ p.readBuffer n = some (0, [], p)) ∨
      ∃ msg rest q, msgs = msg :: rest ∧ 0 < msg.length ∧ p.readBuffer n = some ((msg.length : Int), msg, q) ∧
        q.Holds rest := by
  obtain ⟨hn, hnext⟩ := hfits
  unfold ShmPipe.readBuffer
  rw [if_neg (by omega)]
  cases msgs with
  | nil =>
    have hsame : p.head = p.tail := by
      rw [h.tail_eq]
      rcases h.head_lt with hlt | ⟨hsize, hzero⟩
      · exact (Nat.mod_eq_of_lt hlt).symm
      · rw [hsize, hzero]
        rfl
    rw [if_pos hsame]
    exact Or.inl ⟨rfl, rfl⟩
  | cons msg rest =>
    obtain ⟨hhead, hused, hlen, hroom, hmsg, hholds⟩ := h.uncons
    obtain ⟨hbuffer, hcarry⟩ := hnext msg rfl
    have hne : p.head ≠ p.tail := by
      intro hsame
      rw [← hsame] at hused
      unfold getSize at hused
      split at hused <;> omega
    have hbody : ((p.head + 1) % p.size + 1) % p.size < p.size := Nat.mod_lt _ (by omega)
    have hnocarry : (((p.head + 1) % p.size + 1) % p.size + msg.length) % 4294967296 =
        ((p.head + 1) % p.size + 1) % p.size + msg.length := Nat.mod_eq_of_lt hcarry
    rw [ringWindow_eq_copyOut hbody (by omega)] at hmsg
    refine Or.inr ⟨msg, rest, _, rfl, (h.lengths msg (by simp)).1, ?_, hholds⟩
    rw [if_neg hne, if_neg (by omega)]
    simp only [hlen, hnocarry]
    rw [if_neg (by omega), if_neg (by omega)]
    by_cases hwrap : ((p.head + 1) % p.size + 1) % p.size + msg.length > p.size
    · rw [if_pos hwrap] at hmsg ⊢
      rw [hmsg]
    · rw [if_neg hwrap] at hmsg ⊢
      rw [if_neg hwrap, hmsg]

end

/-- The messages come out whole and in the order they went in, a read returns zero just when all of them
are out, and no call that fits leaves the memory of the pipe. -/
structure FifoPipe (trace : PipeTrace) (p : ShmPipe) : Prop where
  order : accepted trace = returned trace ++ unread trace
  writes : ∀ msg, p.WriteFits msg → (p.writeBuffer msg).isSome
  reads : ∀ n, p.ReadFits (unread trace).head? n → ∃ result bytes q,
    p.readBuffer n = some (result, bytes, q) ∧ (result = 0 ↔ accepted trace = returned trace) ∧
      ∀ msg ∈ (unread trace).head?, result = msg.length ∧ bytes = msg

section

variable {size : Nat} {p : ShmPipe} {trace older : PipeTrace} {t : Transition ShmPipe PipeEvent}
  {msgs : List (List UInt8)}

theorem accepted_cons (t : Transition ShmPipe PipeEvent) (older : PipeTrace) :
    accepted (t :: older) = accepted older ++ t.event.accepted.toList := by
  simp [accepted, List.filterMap_append, List.filterMap_cons]
  cases t.event.accepted <;> rfl

theorem returned_cons (t : Transition ShmPipe PipeEvent) (older : PipeTrace) :
    returned (t :: older) = returned older ++ t.event.returned.toList := by
  simp [returned, List.filterMap_append, List.filterMap_cons]
  cases t.event.returned <;> rfl

theorem unread_eq (h : accepted trace = returned trace ++ msgs) : unread trace = msgs := by
  rw [unread, h, List.drop_left]

/-- What the pipe holds is what was accepted and not returned. -/
theorem holds_step (hstep : PipeStep t.pre t.event t.post) (hfits : FitsPipe older t)
    (horder : accepted older = returned older ++ msgs) (hholds : t.pre.Holds msgs) :
    ∃ msgs', accepted (t :: older) = returned (t :: older) ++ msgs' ∧ t.post.Holds msgs' := by
  obtain ⟨p, e, q⟩ := t
  rw [accepted_cons, returned_cons]
  dsimp only at hstep hholds ⊢
  cases e with
  | write msg result =>
    obtain ⟨result', q', hwrite, hcases⟩ := hholds.writeBuffer hfits
    obtain ⟨rfl, rfl⟩ := Prod.mk.inj (Option.some.inj (hstep.symm.trans hwrite))
    rcases hcases with ⟨hneg, rfl⟩ | ⟨hpos, hnext⟩
    · refine ⟨msgs, ?_, hholds⟩
      simp [PipeEvent.accepted, PipeEvent.returned, show ¬0 < result by omega, horder]
    · refine ⟨msgs ++ [msg], ?_, hnext⟩
      simp [PipeEvent.accepted, PipeEvent.returned, hpos, horder]
  | read n result bytes =>
    have hbuffer : p.ReadFits msgs.head? n := by
      rw [← unread_eq horder]
      exact hfits
    rcases hholds.readBuffer hbuffer with ⟨rfl, hread⟩ | ⟨msg, rest, q', rfl, hpos, hread, hnext⟩
    · cases Option.some.inj (hstep.symm.trans hread)
      exact ⟨[], by simp [PipeEvent.accepted, PipeEvent.returned, horder], hholds⟩
    · cases Option.some.inj (hstep.symm.trans hread)
      refine ⟨rest, ?_, hnext⟩
      simp [PipeEvent.accepted, PipeEvent.returned, hpos, horder]

theorem PipeStart.holds (h : PipeStart size p) : p.Holds [] := by
  obtain ⟨data, rfl⟩ := h
  refine ⟨?_, ?_, Or.inr rfl, rfl, by simp⟩
  · rcases Nat.eq_zero_or_pos size with hzero | hpos
    · exact Or.inr ⟨hzero, rfl⟩
    · exact Or.inl hpos
  · simp

theorem ShmPipe.Holds.fifo (horder : accepted trace = returned trace ++ msgs) (h : p.Holds msgs) :
    FifoPipe trace p := by
  have hunread := unread_eq horder
  refine ⟨by rw [hunread, horder], ?_, ?_⟩
  · intro msg hfits
    obtain ⟨result, q, hwrite, -⟩ := h.writeBuffer hfits
    rw [hwrite]
    rfl
  · intro n hfits
    rw [hunread] at hfits ⊢
    have hall : accepted trace = returned trace ↔ msgs = [] := by
      rw [horder]
      exact List.append_right_eq_self
    rw [hall]
    rcases h.readBuffer hfits with ⟨rfl, hread⟩ | ⟨msg, rest, q, rfl, hpos, hread, -⟩
    · exact ⟨0, [], p, hread, by simp, by simp⟩
    · refine ⟨msg.length, msg, q, hread, ?_, ?_⟩
      · simp only [reduceCtorEq, iff_false]
        omega
      · intro other hother
        cases hother
        exact ⟨rfl, rfl⟩

/-- In a run whose writes and reads all fit, the pipe is a queue of messages. -/
theorem fifo_run (run : PipeRun size trace p) (fits : Guarded FitsPipe trace) : FifoPipe trace p := by
  obtain ⟨msgs, horder, hholds⟩ : ∃ msgs, accepted trace = returned trace ++ msgs ∧ p.Holds msgs := by
    refine run.invariant_trace (P := fun trace p => ∃ msgs, accepted trace = returned trace ++ msgs ∧ p.Holds msgs)
      fits ?_ ?_
    · intro q hstart
      exact ⟨[], rfl, hstart.holds⟩
    · rintro older t hstep hfits ⟨msgs, horder, hholds⟩
      exact holds_step hstep hfits horder hholds
  exact hholds.fifo horder

end

inductive PipeCall
  | write (msg : List UInt8)
  | read (n : Nat)

/-- Makes calls one after another, and stops with no result at one that leaves the memory of the pipe. -/
def pipeCalls : List PipeCall → PipeTrace × ShmPipe → Option (PipeTrace × ShmPipe)
  | [], reached => some reached
  | .write msg :: rest, (trace, p) =>
    (p.writeBuffer msg).bind fun (result, q) => pipeCalls rest (⟨p, .write msg result, q⟩ :: trace, q)
  | .read n :: rest, (trace, p) =>
    (p.readBuffer n).bind fun (result, bytes, q) => pipeCalls rest (⟨p, .read n result bytes, q⟩ :: trace, q)

theorem pipeCalls_run {size : Nat} {calls : List PipeCall} {reached last : PipeTrace × ShmPipe}
    (run : PipeRun size reached.1 reached.2) (h : pipeCalls calls reached = some last) :
    PipeRun size last.1 last.2 := by
  induction calls generalizing reached with
  | nil =>
    cases h
    exact run
  | cons call rest ih =>
    obtain ⟨trace, p⟩ := reached
    cases call with
    | write msg =>
      obtain ⟨⟨result, q⟩, hwrite, h⟩ := Option.bind_eq_some_iff.mp h
      have hstep : PipeStep p (.write msg result) q := hwrite
      exact ih (.next run hstep) h
    | read n =>
      obtain ⟨⟨result, bytes, q⟩, hread, h⟩ := Option.bind_eq_some_iff.mp h
      have hstep : PipeStep p (.read n result bytes) q := hread
      exact ih (.next run hstep) h

/-- The run of calls on a fresh pipe, without any of them when one fails. -/
def freshCalls (size : Nat) (calls : List PipeCall) : PipeTrace × ShmPipe :=
  (pipeCalls calls ([], ⟨0, 0, size, fun _ => 0⟩)).getD ([], ⟨0, 0, size, fun _ => 0⟩)

theorem freshCalls_run (size : Nat) (calls : List PipeCall) :
    PipeRun size (freshCalls size calls).1 (freshCalls size calls).2 := by
  have start : PipeRun size [] ⟨0, 0, size, fun _ => 0⟩ := .start ⟨_, rfl⟩
  unfold freshCalls
  cases h : pipeCalls calls ([], ⟨0, 0, size, fun _ => 0⟩) with
  | none => exact start
  | some last => exact pipeCalls_run (by exact start) h

instance (p : ShmPipe) (msg : List UInt8) : Decidable (p.WriteFits msg) :=
  inferInstanceAs (Decidable (_ ∨ _ ∨ _))

instance (p : ShmPipe) (next : Option (List UInt8)) (n : Nat) : Decidable (p.ReadFits next n) :=
  inferInstanceAs (Decidable (_ ∧ _))

instance (older : PipeTrace) : ∀ t, Decidable (FitsPipe older t)
  | ⟨p, .write msg _, _⟩ => inferInstanceAs (Decidable (p.WriteFits msg))
  | ⟨p, .read n _ _, _⟩ => inferInstanceAs (Decidable (p.ReadFits (unread older).head? n))

/-- Two messages wrap around the end of a small pipe. -/
def wrappingCalls : List PipeCall := [.write [1, 2, 3], .read 9, .write [4, 5, 6, 7], .write [8, 9], .read 4]

theorem fifo_wrappingCalls :
    accepted (freshCalls 9 wrappingCalls).1 = [[1, 2, 3], [4, 5, 6, 7]] ∧
      returned (freshCalls 9 wrappingCalls).1 = [[1, 2, 3], [4, 5, 6, 7]] ∧
      FifoPipe (freshCalls 9 wrappingCalls).1 (freshCalls 9 wrappingCalls).2 :=
  ⟨by decide +kernel, by decide +kernel, fifo_run (freshCalls_run 9 wrappingCalls) (by decide +kernel)⟩

/-- A message that fills the pipe to the last cell is accepted, and the pipe then passes for empty. -/
theorem exact_fill_lost :
    ∃ trace p, PipeRun 10 trace p ∧ accepted trace = [[1, 2, 3, 4, 5, 6, 7, 8]] ∧ returned trace = [] ∧
      (p.readBuffer 64).map (fun r => (r.1, r.2.1)) = some (0, []) ∧ ¬FifoPipe trace p := by
  have run := freshCalls_run 10 [.write [1, 2, 3, 4, 5, 6, 7, 8]]
  have haccepted : accepted (freshCalls 10 [.write [1, 2, 3, 4, 5, 6, 7, 8]]).1 = [[1, 2, 3, 4, 5, 6, 7, 8]] := by
    decide +kernel
  have hreturned : returned (freshCalls 10 [.write [1, 2, 3, 4, 5, 6, 7, 8]]).1 = [] := by
    decide +kernel
  have hread : ((freshCalls 10 [.write [1, 2, 3, 4, 5, 6, 7, 8]]).2.readBuffer 64).map
      (fun r => (r.1, r.2.1)) = some (0, []) := by
    decide +kernel
  refine ⟨_, _, run, haccepted, hreturned, hread, ?_⟩
  intro hfifo
  obtain ⟨result, bytes, q, hresult, hzero, -⟩ := hfifo.reads 64 (by decide +kernel)
  rw [hresult] at hread
  have hnone : result = 0 := congrArg Prod.fst (Option.some.inj hread)
  have hsame := hzero.mp hnone
  rw [haccepted, hreturned] at hsame
  cases hsame

end MasterAI
