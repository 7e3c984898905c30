import MasterAI.RingWindow
import MasterAI.StepRuns
import Mathlib.Algebra.GroupWithZero.Nat

namespace MasterAI

def kBufSize : Nat := 65536

/-- A buffered `Reader` of a file. `buf` is the memory from the buffer on, whatever lies behind it;
`bufPtr` and `endRead` count from its start. `overflow` holds the bytes of `overflow_` in use. -/
structure Reader where
  file : List UInt8
  fdPos : Nat
  remaining : Nat
  bufSize : Nat
  buf : Nat → UInt8
  bufPtr : Nat
  endRead : Nat
  overflow : List UInt8
  bytePos : Nat

namespace Reader

def atEnd (r : Reader) : Bool := r.bufPtr = r.endRead ∧ r.remaining = 0 ∧ r.overflow = []

/-- The result of `Refresh` and the reader after it; nothing where `read` falls short and the program
exits. -/
def refresh (r : Reader) : Option (Bool × Reader) :=
  if r.remaining = 0 ∧ r.overflow = [] then some (false, r)
  else
    let toRead := min (r.bufSize - r.overflow.length) r.remaining
    let got := (r.file.drop r.fdPos).take toRead
    if got.length ≠ toRead then none
    else
      some (true, { r with
        buf := copyIn (copyIn r.buf 0 r.overflow) r.overflow.length got
        bufPtr := 0
        fdPos := r.fdPos + toRead
        remaining := r.remaining - toRead
        endRead := r.overflow.length + toRead
        overflow := [] })

/-- A reader on a file, with memory that held anything before. -/
def opened (file : List UInt8) (memory : Nat → UInt8) : Option Reader :=
  (refresh
    { file := file, fdPos := 0, remaining := file.length, bufSize := min kBufSize file.length, buf := memory,
      bufPtr := 0, endRead := 0, overflow := [], bytePos := 0 }).map Prod.snd

def seekTo (r : Reader) (offset : Nat) : Option Reader :=
  (refresh { r with
    fdPos := offset, remaining := r.file.length - offset, overflow := [], bytePos := offset }).map Prod.snd

/-- The next bytes from the buffer on. -/
def takeBytes (r : Reader) (width : Nat) : List UInt8 × Reader :=
  (copyOut r.buf r.bufPtr width, { r with bufPtr := r.bufPtr + width, bytePos := r.bytePos + width })

/-- A typed read: its bytes, or none where it returns false, and the reader after it. -/
def readBytes (r : Reader) (width : Nat) : Option (Option (List UInt8) × Reader) :=
  if r.bufPtr + width > r.endRead then
    let r :=
      if r.bufPtr < r.endRead then { r with overflow := copyOut r.buf r.bufPtr (r.endRead - r.bufPtr) } else r
    r.refresh.map fun (more, r) =>
      if more then (some (r.takeBytes width).1, (r.takeBytes width).2) else (none, r)
  else some (some (r.takeBytes width).1, (r.takeBytes width).2)

end Reader

inductive ReadKind
  | int
  | unsignedInt
  | long
  | unsignedLong
  | short
  | unsignedShort
  | char
  | unsignedChar
  | double
  | float
  deriving DecidableEq, Repr

def ReadKind.width : ReadKind → Nat
  | .int | .unsignedInt | .float => 4
  | .long | .unsignedLong | .double => 8
  | .short | .unsignedShort => 2
  | .char | .unsignedChar => 1

def littleEndian : List UInt8 → Nat
  | [] => 0
  | b :: rest => b.toNat + 256 * littleEndian rest

namespace Reader

/-- The value of a typed read. -/
def readTyped {α : Type} (r : Reader) (kind : ReadKind) (decode : List UInt8 → α) : Option (Option α × Reader) :=
  (r.readBytes kind.width).map fun (bytes, r) => (bytes.map decode, r)

def readInt (r : Reader) : Option (Option Int × Reader) :=
  r.readTyped .int fun b => Int.bmod (littleEndian b) 4294967296

def readUnsignedInt (r : Reader) : Option (Option Nat × Reader) := r.readTyped .unsignedInt littleEndian

def readLong (r : Reader) : Option (Option Int × Reader) :=
  r.readTyped .long fun b => Int.bmod (littleEndian b) 18446744073709551616

def readUnsignedLong (r : Reader) : Option (Option Nat × Reader) := r.readTyped .unsignedLong littleEndian

def readShort (r : Reader) : Option (Option Int × Reader) :=
  r.readTyped .short fun b => Int.bmod (littleEndian b) 65536

def readUnsignedShort (r : Reader) : Option (Option Nat × Reader) := r.readTyped .unsignedShort littleEndian

def readChar (r : Reader) : Option (Option Int × Reader) :=
  r.readTyped .char fun b => Int.bmod (littleEndian b) 256

def readUnsignedChar (r : Reader) : Option (Option Nat × Reader) := r.readTyped .unsignedChar littleEndian

/-- Floating-point numbers are kept as the bits they are stored in. -/
def readDouble (r : Reader) : Option (Option (List UInt8) × Reader) := r.readTyped .double id

def readFloat (r : Reader) : Option (Option (List UInt8) × Reader) := r.readTyped .float id

end Reader

inductive ReaderEvent
  | read (kind : ReadKind) (result : Option (List UInt8))
  | seekTo (offset : Nat)
  deriving DecidableEq, Repr

def ReaderStep (r : Reader) (e : ReaderEvent) (s : Reader) : Prop :=
  match e with
  | .read kind result => r.readBytes kind.width = some (result, s)
  | .seekTo offset => offset ≤ r.file.length ∧ r.seekTo offset = some s

def ReaderStart (file : List UInt8) (r : Reader) : Prop := ∃ memory, Reader.opened file memory = some r

abbrev ReaderRun (file : List UInt8) := StepRun ReaderStep (ReaderStart file)

abbrev ReaderTrace := List (Transition Reader ReaderEvent)

/-- The position of a flat stream after the same calls. -/
def position : ReaderTrace → Nat
  | [] => 0
  | ⟨_, .read kind result, _⟩ :: older => if result.isSome then position older + kind.width else position older
  | ⟨_, .seekTo offset, _⟩ :: _ => offset

/-- The bytes of a flat stream from a position on, where it has them. -/
def streamRead (file : List UInt8) (pos width : Nat) : Option (List UInt8) :=
  if pos + width ≤ file.length then some ((file.drop pos).take width) else none

def StreamAnswer (file : List UInt8) (older : ReaderTrace) (t : Transition Reader ReaderEvent) : Prop :=
  match t.event with
  | .read kind result => result = streamRead file (position older) kind.width
  | .seekTo _ => True

/-- A read at the end of the file or of bytes that are all there. -/
def ReadWhole (file : List UInt8) (pos : Nat) (kind : ReadKind) : Prop :=
  pos = file.length ∨ pos + kind.width ≤ file.length

/-- A seek into the file, or to its end from a buffer that is used up. -/
def SeekInside (r : Reader) (offset : Nat) : Prop := offset < r.file.length ∨ r.bufPtr = r.endRead

def WholeAccess (older : ReaderTrace) (t : Transition Reader ReaderEvent) : Prop :=
  match t.event with
  | .read kind _ => ReadWhole t.pre.file (position older) kind
  | .seekTo offset => SeekInside t.pre offset

/-- The reader stands at a position of the file: the rest of its buffer holds the bytes from there on. -/
structure ReaderAt (r : Reader) (pos : Nat) : Prop where
  bufSize : r.bufSize = min kBufSize r.file.length
  overflow : r.overflow = []
  ptr_le : r.bufPtr ≤ r.endRead
  pos_eq : pos + (r.endRead - r.bufPtr) = r.fdPos
  remaining : r.fdPos + r.remaining = r.file.length
  content : copyOut r.buf r.bufPtr (r.endRead - r.bufPtr) = (r.file.drop pos).take (r.endRead - r.bufPtr)
  bytePos : r.bytePos = pos

section

variable {file : List UInt8} {r s : Reader} {pos width offset : Nat} {kind : ReadKind}

theorem take_drop_add (l : List UInt8) (pos m n : Nat) :
    (l.drop pos).take (m + n) = (l.drop pos).take m ++ (l.drop (pos + m)).take n := by
  rw [List.take_add, List.drop_drop]

/-- `Refresh` puts the kept bytes in front and fills the buffer up from the file. -/
theorem Reader.refresh_spec (pos : Nat) (hbuf : r.bufSize = min kBufSize r.file.length)
    (hover : (r.file.drop pos).take r.overflow.length = r.overflow) (hfit : r.overflow.length ≤ r.bufSize)
    (hpos : pos + r.overflow.length = r.fdPos) (hrem : r.fdPos + r.remaining = r.file.length)
    (hbyte : r.bytePos = pos) (hsome : ¬(r.remaining = 0 ∧ r.overflow = [])) :
    ∃ s, r.refresh = some (true, s) ∧ ReaderAt s pos ∧ s.file = r.file ∧ s.bufPtr = 0 ∧
      s.endRead = min r.bufSize (r.file.length - pos) := by
  have hgot : ((r.file.drop r.fdPos).take (min (r.bufSize - r.overflow.length) r.remaining)).length =
      min (r.bufSize - r.overflow.length) r.remaining := by
    rw [List.length_take, List.length_drop]
    omega
  unfold Reader.refresh
  rw [if_neg hsome]
  dsimp only
  rw [if_neg (not_not.mpr hgot)]
  refine ⟨_, rfl, ⟨hbuf, rfl, Nat.zero_le _, ?_, ?_, ?_, hbyte⟩, rfl, rfl, ?_⟩
  · dsimp only
    omega
  · dsimp only
    omega
  · dsimp only
    rw [Nat.sub_zero, take_drop_add, hover, hpos]
    nth_rewrite 2 [← hgot]
    exact copyOut_copyIn_append _ _
  · dsimp only
    omega

/-- Bytes that lie in the buffer are those of the file. -/
theorem ReaderAt.takeBytes (h : ReaderAt r pos) (hwidth : width ≤ r.endRead - r.bufPtr) :
    (r.takeBytes width).1 = (r.file.drop pos).take width ∧ ReaderAt (r.takeBytes width).2 (pos + width) := by
  obtain ⟨rest, hrest⟩ := Nat.exists_eq_add_of_le hwidth
  have hcontent := h.content
  rw [hrest, copyOut_add, take_drop_add] at hcontent
  have hlength : ((r.file.drop pos).take width).length = width := by
    have := h.pos_eq
    have := h.remaining
    rw [List.length_take, List.length_drop]
    omega
  obtain ⟨hfirst, hsecond⟩ := List.append_inj hcontent (by rw [copyOut_length, hlength])
  have hptr := h.ptr_le
  have hpos := h.pos_eq
  have hleft : r.endRead - (r.bufPtr + width) = rest := by omega
  refine ⟨hfirst, h.bufSize, h.overflow, ?_, ?_, h.remaining, ?_, ?_⟩
  · simp only [Reader.takeBytes]
    omega
  · simp only [Reader.takeBytes]
    omega
  · simp only [Reader.takeBytes]
    rw [hleft]
    exact hsecond
  · simp only [Reader.takeBytes]
    rw [h.bytePos]

theorem ReadKind.width_bounds (kind : ReadKind) : 0 < kind.width ∧ kind.width ≤ 8 := by
  cases kind <;> decide

/-- The reader whose last bytes are set aside is refilled at the same position. -/
theorem ReaderAt.refill (h : ReaderAt r pos) (hshort : r.bufPtr + width > r.endRead) (hwidth : width ≤ 8)
    (hmore : pos < r.file.length) :
    ∃ s, (if r.bufPtr < r.endRead then
        { r with overflow := copyOut r.buf r.bufPtr (r.endRead - r.bufPtr) } else r).refresh = some (true, s) ∧
      ReaderAt s pos ∧ s.file = r.file ∧ s.bufPtr = 0 ∧ s.endRead = min r.bufSize (r.file.length - pos) := by
  have hpos := h.pos_eq
  have hrem := h.remaining
  have hptr := h.ptr_le
  have hbuf := h.bufSize
  have hsize : kBufSize = 65536 := rfl
  by_cases hleft : r.bufPtr < r.endRead
  · rw [if_pos hleft]
    have hlength : (copyOut r.buf r.bufPtr (r.endRead - r.bufPtr)).length = r.endRead - r.bufPtr :=
      copyOut_length _
    apply Reader.refresh_spec pos
      (r := { r with overflow := copyOut r.buf r.bufPtr (r.endRead - r.bufPtr) }) hbuf
    · dsimp only
      rw [hlength, h.content]
    · dsimp only
      omega
    · dsimp only
      omega
    · exact hrem
    · exact h.bytePos
    · rintro ⟨-, hnil⟩
      have := congrArg List.length hnil
      rw [hlength, List.length_nil] at this
      omega
  · rw [if_neg hleft]
    have hnil : r.overflow.length = 0 := by rw [h.overflow, List.length_nil]
    apply Reader.refresh_spec pos hbuf
    · rw [h.overflow]
      rfl
    · omega
    · omega
    · exact hrem
    · exact h.bytePos
    · rintro ⟨hdone, -⟩
      omega

/-- A read of bytes that are all there returns them, also across a refill. -/
theorem ReaderAt.read (h : ReaderAt r pos) (hwhole : pos + kind.width ≤ r.file.length) :
    ∃ s, r.readBytes kind.width = some (some ((r.file.drop pos).take kind.width), s) ∧
      ReaderAt s (pos + kind.width) ∧ s.file = r.file := by
  have hwidth := kind.width_bounds
  unfold Reader.readBytes
  by_cases hshort : r.bufPtr + kind.width > r.endRead
  · rw [if_pos hshort]
    obtain ⟨s, hs, hat, hfile, hptr, hend⟩ := h.refill hshort hwidth.2 (by omega)
    have hbuf := h.bufSize
    have hsize : kBufSize = 65536 := rfl
    have hfits : kind.width ≤ s.endRead - s.bufPtr := by omega
    obtain ⟨hbytes, hnext⟩ := hat.takeBytes hfits
    dsimp only
    rw [hs]
    refine ⟨(s.takeBytes kind.width).2, ?_, hnext, hfile⟩
    rw [hfile] at hbytes
    rw [← hbytes]
    rfl
  · rw [if_neg hshort]
    have hptr := h.ptr_le
    have hfits : kind.width ≤ r.endRead - r.bufPtr := by omega
    obtain ⟨hbytes, hnext⟩ := h.takeBytes hfits
    exact ⟨_, by rw [hbytes], hnext, rfl⟩

/-- A reader that has read past the end of its file. -/
structure Reader.Past (r : Reader) : Prop where
  ptr_gt : r.endRead < r.bufPtr
  remaining : r.remaining = 0
  overflow : r.overflow = []

/-- A value cut off by the end of the file leaves the reader past its end. -/
theorem ReaderAt.read_cut (h : ReaderAt r pos) (hlt : pos < r.file.length)
    (hcut : r.file.length < pos + kind.width) : ∃ bytes s, r.readBytes kind.width = some (bytes, s) ∧ s.Past := by
  have hwidth := kind.width_bounds
  have hpos := h.pos_eq
  have hrem := h.remaining
  have hptr := h.ptr_le
  have hshort : r.bufPtr + kind.width > r.endRead := by omega
  obtain ⟨s, hs, hat, hfile, hzero, hend⟩ := h.refill hshort hwidth.2 hlt
  have hbuf := h.bufSize
  have hsize : kBufSize = 65536 := rfl
  have hspos := hat.pos_eq
  have hsrem := hat.remaining
  rw [hfile] at hsrem
  unfold Reader.readBytes
  rw [if_pos hshort]
  dsimp only
  rw [hs]
  refine ⟨_, (s.takeBytes kind.width).2, rfl, ?_, ?_, hat.overflow⟩
  · simp only [Reader.takeBytes]
    omega
  · simp only [Reader.takeBytes]
    omega

theorem Reader.Past.read (h : r.Past) : r.readBytes kind.width = some (none, r) := by
  have hptr := h.ptr_gt
  unfold Reader.readBytes
  rw [if_pos (by omega), if_neg (by omega)]
  simp [Reader.refresh, h.remaining, h.overflow]

theorem Reader.Past.not_atEnd (h : r.Past) : r.atEnd = false := by
  have hptr := h.ptr_gt
  have hne : r.bufPtr ≠ r.endRead := by omega
  simp [Reader.atEnd, hne]

theorem ReaderAt.atEnd_iff (h : ReaderAt r pos) : r.atEnd = true ↔ pos = r.file.length := by
  have hpos := h.pos_eq
  have hrem := h.remaining
  have hptr := h.ptr_le
  simp only [Reader.atEnd, h.overflow, and_true, decide_eq_true_eq]
  omega

/-- At the end of the file a read returns false and changes nothing. -/
theorem ReaderAt.read_end (h : ReaderAt r r.file.length) : r.readBytes kind.width = some (none, r) := by
  have hwidth := kind.width_bounds
  obtain ⟨hptr, hrem, hover⟩ : r.bufPtr = r.endRead ∧ r.remaining = 0 ∧ r.overflow = [] := by
    simpa [Reader.atEnd] using h.atEnd_iff.mpr rfl
  unfold Reader.readBytes
  rw [if_pos (by omega), if_neg (by omega)]
  simp [Reader.refresh, hrem, hover]

theorem ReaderAt.seekTo (h : ReaderAt r pos) (hoffset : offset ≤ r.file.length) (hinside : SeekInside r offset) :
    ∃ s, r.seekTo offset = some s ∧ ReaderAt s offset ∧ s.file = r.file := by
  unfold Reader.seekTo
  by_cases hlt : offset < r.file.length
  · obtain ⟨s, hs, hat, hfile, -⟩ := Reader.refresh_spec offset
      (r := { r with fdPos := offset, remaining := r.file.length - offset, overflow := [], bytePos := offset })
      h.bufSize rfl (Nat.zero_le _) rfl (by dsimp only; omega) rfl (by
        rintro ⟨hdone, -⟩
        dsimp only at hdone
        omega)
    exact ⟨s, by rw [hs]; rfl, hat, hfile⟩
  · have hend : r.bufPtr = r.endRead := by
      rcases hinside with hlow | hend
      · omega
      · exact hend
    have hdone : r.file.length - offset = 0 := by omega
    rw [Reader.refresh, if_pos ⟨hdone, rfl⟩]
    refine ⟨_, rfl, ⟨h.bufSize, rfl, h.ptr_le, ?_, ?_, ?_, rfl⟩, rfl⟩
    · dsimp only
      omega
    · dsimp only
      omega
    · simp [hend, copyOut]

theorem Reader.opened_at (file : List UInt8) (memory : Nat → UInt8) :
    ∃ r, Reader.opened file memory = some r ∧ ReaderAt r 0 ∧ r.file = file := by
  unfold Reader.opened
  by_cases hempty : file.length = 0
  · refine ⟨_, by rw [Reader.refresh, if_pos ⟨hempty, rfl⟩]; rfl, ?_, rfl⟩
    refine ⟨rfl, rfl, Nat.le_refl 0, rfl, ?_, rfl, rfl⟩
    dsimp only
    omega
  · obtain ⟨s, hs, hat, hfile, -⟩ := Reader.refresh_spec 0
      (r := { file := file, fdPos := 0, remaining := file.length, bufSize := min kBufSize file.length, buf := memory,
              bufPtr := 0, endRead := 0, overflow := [], bytePos := 0 })
      rfl rfl (Nat.zero_le _) rfl (Nat.zero_add _) rfl (by
        rintro ⟨hdone, -⟩
        exact hempty hdone)
    exact ⟨s, by rw [hs]; rfl, hat, hfile⟩

/-- What the reader reads next is what a flat stream of the file reads at the position reached. -/
structure FlatStream (file : List UInt8) (trace : ReaderTrace) (r : Reader) : Prop where
  answers : Guarded (StreamAnswer file) trace
  reads : ∀ kind, ReadWhole file (position trace) kind →
    ∃ s, r.readBytes (ReadKind.width kind) = some (streamRead file (position trace) kind.width, s)
  seeks : ∀ offset ≤ file.length, SeekInside r offset → (r.seekTo offset).isSome
  atEnd : r.atEnd = true ↔ position trace = file.length
  bytePos : r.bytePos = position trace

theorem ReaderAt.read_whole (h : ReaderAt r pos) (hwhole : ReadWhole r.file pos kind) :
    ∃ s, r.readBytes kind.width = some (streamRead r.file pos kind.width, s) ∧ s.file = r.file ∧
      ReaderAt s (if (streamRead r.file pos kind.width).isSome then pos + kind.width else pos) := by
  unfold streamRead
  by_cases hfit : pos + kind.width ≤ r.file.length
  · rw [if_pos hfit]
    obtain ⟨s, hs, hat, hfile⟩ := h.read hfit
    exact ⟨s, hs, hfile, hat⟩
  · rw [if_neg hfit]
    have hend : pos = r.file.length := by
      rcases hwhole with hend | hwhole
      · exact hend
      · omega
    subst hend
    exact ⟨r, h.read_end, rfl, h⟩

theorem ReaderAt.step {older : ReaderTrace} {t : Transition Reader ReaderEvent} (h : ReaderAt t.pre (position older))
    (hstep : ReaderStep t.pre t.event t.post) (hwhole : WholeAccess older t) :
    ReaderAt t.post (position (t :: older)) ∧ t.post.file = t.pre.file ∧ StreamAnswer t.pre.file older t := by
  obtain ⟨r, e, s⟩ := t
  cases e with
  | read kind result =>
    obtain ⟨s', hs', hfile, hat⟩ := h.read_whole hwhole
    obtain ⟨hresult, hnext⟩ := Prod.mk.inj (Option.some.inj (hstep.symm.trans hs'))
    dsimp only at hresult hnext hat ⊢
    subst hnext
    rw [← hresult] at hat
    exact ⟨hat, hfile, hresult⟩
  | seekTo offset =>
    obtain ⟨s', hs', hat, hfile⟩ := h.seekTo hstep.1 hwhole
    have hnext := Option.some.inj (hstep.2.symm.trans hs')
    dsimp only at hnext
    subst hnext
    exact ⟨hat, hfile, trivial⟩

theorem ReaderAt.flatStream {trace : ReaderTrace} (h : ReaderAt r (position trace))
    (hanswers : Guarded (StreamAnswer r.file) trace) : FlatStream r.file trace r := by
  refine ⟨hanswers, ?_, ?_, h.atEnd_iff, h.bytePos⟩
  · intro kind hwhole
    obtain ⟨s, hs, -, -⟩ := h.read_whole hwhole
    exact ⟨s, hs⟩
  · intro offset hoffset hinside
    obtain ⟨s, hs, -, -⟩ := h.seekTo hoffset hinside
    rw [hs]
    rfl

/-- In a run whose reads and seeks all stay whole, the reader is a flat stream of its file. -/
theorem reader_run {trace : ReaderTrace} (run : ReaderRun file trace r) (whole : Guarded WholeAccess trace) :
    FlatStream file trace r := by
  obtain ⟨rfl, hat, hanswers⟩ :
      r.file = file ∧ ReaderAt r (position trace) ∧ Guarded (StreamAnswer file) trace := by
    refine run.invariant_trace
      (P := fun trace r => r.file = file ∧ ReaderAt r (position trace) ∧ Guarded (StreamAnswer file) trace)
      whole ?_ ?_
    · rintro s ⟨memory, hs⟩
      obtain ⟨s', hs', hat, hfile⟩ := Reader.opened_at file memory
      rw [hs] at hs'
      cases hs'
      exact ⟨hfile, hat, trivial⟩
    · rintro older t hstep hwhole ⟨rfl, hat, hanswers⟩
      obtain ⟨hnext, hfile, hanswer⟩ := hat.step hstep hwhole
      exact ⟨hfile, hnext, hanswer, hanswers⟩
  exact hat.flatStream hanswers

end

inductive ReaderCall
  | read (kind : ReadKind)
  | seekTo (offset : Nat)

def Reader.perform (r : Reader) : ReaderCall → Option (ReaderEvent × Reader)
  | .read kind => (r.readBytes kind.width).map fun (result, s) => (.read kind result, s)
  | .seekTo offset => if offset ≤ r.file.length then (r.seekTo offset).map fun s => (.seekTo offset, s) else none

theorem Reader.perform_step (r : Reader) (call : ReaderCall) (e : ReaderEvent) (s : Reader)
    (h : r.perform call = some (e, s)) : ReaderStep r e s := by
  cases call with
  | read kind =>
    obtain ⟨⟨result, s'⟩, hread, h⟩ := Option.map_eq_some_iff.mp h
    cases h
    exact hread
  | seekTo offset =>
    rw [Reader.perform] at h
    split at h
    · rename_i hoffset
      obtain ⟨s', hseek, h⟩ := Option.map_eq_some_iff.mp h
      cases h
      exact ⟨hoffset, hseek⟩
    · cases h

theorem opened_isSome (file : List UInt8) : (Reader.opened file fun _ => 0).isSome := by
  obtain ⟨r, hr, -, -⟩ := Reader.opened_at file fun _ => 0
  rw [hr]
  rfl

def openedReader (file : List UInt8) : Reader := (Reader.opened file fun _ => 0).get (opened_isSome file)

/-- The run of calls on a newly opened file, without any of them when one fails. -/
def openedCalls (file : List UInt8) (calls : List ReaderCall) : ReaderTrace × Reader :=
  (performAll Reader.perform calls ([], openedReader file)).getD ([], openedReader file)

theorem openedCalls_run (file : List UInt8) (calls : List ReaderCall) :
    ReaderRun file (openedCalls file calls).1 (openedCalls file calls).2 := by
  have start : ReaderRun file [] (openedReader file) := .start ⟨_, (Option.some_get (opened_isSome file)).symm⟩
  unfold openedCalls
  cases h : performAll Reader.perform calls ([], openedReader file) with
  | none => exact start
  | some last => exact StepRun.performAll Reader.perform_step start h

instance (file : List UInt8) (pos : Nat) (kind : ReadKind) : Decidable (ReadWhole file pos kind) :=
  inferInstanceAs (Decidable (_ ∨ _))

instance (r : Reader) (offset : Nat) : Decidable (SeekInside r offset) := inferInstanceAs (Decidable (_ ∨ _))

instance (older : ReaderTrace) : ∀ t, Decidable (WholeAccess older t)
  | ⟨r, .read kind _, _⟩ => inferInstanceAs (Decidable (ReadWhole r.file (position older) kind))
  | ⟨r, .seekTo offset, _⟩ => inferInstanceAs (Decidable (SeekInside r offset))

def tenBytes : List UInt8 := [1, 2, 3, 4, 5, 6, 7, 8, 9, 10]

/-- Reads, a seek back and a read past the end of ten bytes. -/
def wholeCalls : List ReaderCall := [.read .int, .read .short, .seekTo 2, .read .long, .read .char]

theorem reader_wholeCalls :
    position (openedCalls tenBytes wholeCalls).1 = 10 ∧
      FlatStream tenBytes (openedCalls tenBytes wholeCalls).1 (openedCalls tenBytes wholeCalls).2 :=
  ⟨by decide +kernel, reader_run (openedCalls_run tenBytes wholeCalls) (by decide +kernel)⟩

instance (file : List UInt8) (older : ReaderTrace) : ∀ t, Decidable (StreamAnswer file older t)
  | ⟨_, .read kind result, _⟩ =>
    inferInstanceAs (Decidable (result = streamRead file (position older) kind.width))
  | ⟨_, .seekTo _, _⟩ => inferInstanceAs (Decidable True)

/-- A value cut off by the end of the file is filled up with stale bytes, and a seek to the end stays in
the middle of the buffer. -/
theorem reader_short_file :
    (∃ trace r, ReaderRun (tenBytes.take 6) trace r ∧
      trace.head?.map Transition.event = some (.read .int (some [5, 6, 3, 4])) ∧
      ¬Guarded (StreamAnswer (tenBytes.take 6)) trace) ∧
    ∃ trace r, ReaderRun tenBytes trace r ∧ position trace = tenBytes.length ∧ r.atEnd = false := by
  constructor
  · refine ⟨_, _, openedCalls_run (tenBytes.take 6) [.read .int, .read .int], ?_, ?_⟩
    · decide +kernel
    · decide +kernel
  · refine ⟨_, _, openedCalls_run tenBytes [.read .int, .seekTo 10], ?_, ?_⟩
    · decide +kernel
    · decide +kernel

end MasterAI
