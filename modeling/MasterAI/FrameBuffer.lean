import Mathlib.Data.List.TakeWhile
import MasterAI.BettingDag
import MasterAI.RingWindow
import MasterAI.WrapInt32

namespace MasterAI

/-- `frame::Buffer` with the bytes of its array. -/
structure Buffer where
  content : Nat → UInt8
  size : Nat
  offset : Nat
  alloc : Nat

/-- The characters of a `std::wstring` in memory. -/
def wideBytes (wstr : List UInt32) : List UInt8 := wstr.flatMap fun c => storedBytes 4 c.toNat

def wideChars : Nat → List UInt8 → List UInt32
  | 0, _ => []
  | n + 1, bytes => UInt32.ofNat (littleEndian (bytes.take 4)) :: wideChars n (bytes.drop 4)

namespace Buffer

section

-- what a new array of some size holds
variable (fresh : Nat → Nat → UInt8)

def init (size alloc : Nat) : Buffer where
  content := fresh size
  size := size
  offset := 0
  alloc := if alloc > 0 then alloc else 1024

/-- The size that `Write` grows the array to, in 32-bit counters. -/
def grownSize (size offset alloc len : Nat) : Nat :=
  let nNeed := uint32 (len + size - offset)
  let nAlloc := uint32 (nNeed + alloc) / alloc * alloc
  uint32 (size + nAlloc)

def grow (b : Buffer) (len : Nat) : Buffer :=
  let alloc := if b.alloc = 0 then 1024 else b.alloc
  let size := grownSize b.size b.offset alloc len
  { content := fun i => if i < b.offset then b.content i else fresh size i
    size := size
    offset := b.offset
    alloc := alloc }

/-- `Write`. It has no result where a copy leaves the array. -/
def write (b : Buffer) (bytes : List UInt8) : Option (Buffer × Bool) :=
  let len := bytes.length
  if len = 0 then some (b, false)
  else
    let b := if uint32 (b.size - b.offset) < len then b.grow fresh len else b
    if b.offset + len ≤ b.size then
      some ({ b with content := copyIn b.content b.offset bytes, offset := uint32 (b.offset + len) }, true)
    else none

end

/-- `Read`: the bytes where it succeeds. -/
def read (b : Buffer) (len : Nat) : Option (Buffer × Option (List UInt8)) :=
  if len = 0 then some (b, none)
  else if uint32 (b.offset + len) > b.size then some (b, none)
  else if b.offset + len ≤ b.size then
    some ({ b with offset := uint32 (b.offset + len) }, some (copyOut b.content b.offset len))
  else none

def seekTo (b : Buffer) (pos : Nat) : Buffer := if pos > b.size then b else { b with offset := pos }

section

variable (fresh : Nat → Nat → UInt8)

/-- A `Push` of a length and the bytes it counts. The result of the first is ignored. -/
def pushSized (b : Buffer) (bytes : List UInt8) (size : Nat) : Option (Buffer × Bool) :=
  (b.write fresh (storedBytes 4 size)).bind fun (b, _) =>
    if bytes ≠ [] then b.write fresh (bytes.take size) else some (b, true)

def pushData (b : Buffer) (data : List UInt8) : Option (Buffer × Bool) :=
  b.write fresh (data.take (uint32 data.length))

def pushString (b : Buffer) (str : List UInt8) : Option (Buffer × Bool) :=
  b.pushSized fresh str (uint32 str.length)

def pushWstring (b : Buffer) (wstr : List UInt32) : Option (Buffer × Bool) :=
  b.pushSized fresh (wideBytes wstr) (uint32 (wstr.length * 4))

def pushBlock (b : Buffer) (bytes : List UInt8) : Option (Buffer × Bool) := b.pushSized fresh bytes bytes.length

end

/-- `Pop` of a length, which keeps what it held where nothing is read. -/
def popNumber (b : Buffer) (held : Nat) : Option (Buffer × Nat) :=
  (b.read 4).map fun (b, bytes) => (b, (bytes.map littleEndian).getD held)

def popData (b : Buffer) (held : List UInt8) : Option (Buffer × List UInt8 × Bool) :=
  let len := uint32 held.length
  (b.read len).map fun (b, bytes) => (b, (bytes.map (· ++ held.drop len)).getD held, bytes.isSome)

/-- `Pop` of a `std::string`, whose text is the C string of the bytes. -/
def popString (b : Buffer) (held : List UInt8) : Option (Buffer × List UInt8 × Bool) :=
  (b.popNumber 0).bind fun (b, len) =>
    if len > 0 then
      (b.read len).bind fun (b, bytes) =>
        match bytes with
        | none => some (b, held, false)
        | some bytes => if len < uint32 (len + 1) then some (b, bytes.takeWhile (· ≠ 0), true) else none
    else some (b, held, true)

def popWstring (b : Buffer) (held : List UInt32) : Option (Buffer × List UInt32 × Bool) :=
  (b.popNumber 0).bind fun (b, size) =>
    let len := size / 4
    if len > 0 then
      (b.read size).bind fun (b, bytes) =>
        match bytes with
        | none => some (b, held, false)
        | some bytes => some (b, (wideChars len bytes).takeWhile (· ≠ 0), true)
    else some (b, held, true)

/-- `Pop` of a byte array: the caller's memory, and the length. -/
def popBlock (b : Buffer) (held : List UInt8) (len : Nat) : Option (Buffer × (List UInt8 × Nat) × Bool) :=
  (b.popNumber len).bind fun (b, len) =>
    if len ≠ 0 then
      (b.read len).bind fun (b, bytes) =>
        match bytes with
        | none => some (b, (held, len), false)
        | some bytes => if len ≤ held.length then some (b, (bytes ++ held.drop len, len), true) else none
    else some (b, (held, len), true)

end Buffer

/-- A value that is pushed, with what the target of its pop held before. -/
inductive PushedValue
  | data (bytes held : List UInt8) (sized : 0 < bytes.length ∧ held.length = bytes.length)
  | string (str held : List UInt8)
  | wstring (wstr held : List UInt32)
  | block (bytes held : List UInt8) (len : Nat) (fits : bytes.length < 4294967296) (room : bytes.length ≤ held.length)

/-- The blocks of a length and the bytes it counts. -/
def sizedChunks (bytes : List UInt8) (size : Nat) : List (List UInt8) :=
  storedBytes 4 size :: if bytes = [] then [] else [bytes.take size]

namespace PushedValue

def push (fresh : Nat → Nat → UInt8) (b : Buffer) : PushedValue → Option (Buffer × Bool)
  | data bytes _ _ => b.pushData fresh bytes
  | string str _ => b.pushString fresh str
  | wstring wstr _ => b.pushWstring fresh wstr
  | block bytes _ _ _ _ => b.pushBlock fresh bytes

/-- The pop succeeds and returns the value that was pushed. -/
def Returns (b b' : Buffer) : PushedValue → Prop
  | data bytes held _ => b.popData held = some (b', bytes, true)
  | string str held => b.popString held = some (b', str, true)
  | wstring wstr held => b.popWstring held = some (b', wstr, true)
  | block bytes held len _ _ =>
    ∃ after, b.popBlock held len = some (b', (after, bytes.length), true) ∧ after.take bytes.length = bytes

/-- A value that its `Pop` can build again. A string has no zero characters, its length fits, and where it is
empty, so is the target. Of data whose size does not fit, the target already holds what is cut off. -/
def Plain : PushedValue → Prop
  | data bytes held _ =>
    uint32 bytes.length ≠ 0 ∧ held.drop (uint32 bytes.length) = bytes.drop (uint32 bytes.length)
  | string str held => str.length < 4294967296 ∧ 0 ∉ str ∧ (str = [] → held = [])
  | wstring wstr held => wstr.length * 4 < 4294967296 ∧ 0 ∉ wstr ∧ (wstr = [] → held = [])
  | block .. => True

instance : (e : PushedValue) → Decidable e.Plain
  | data .. => inferInstanceAs (Decidable (_ ∧ _))
  | string .. => inferInstanceAs (Decidable (_ ∧ _ ∧ _))
  | wstring .. => inferInstanceAs (Decidable (_ ∧ _ ∧ _))
  | block .. => isTrue trivial

/-- The blocks that a push writes. -/
def chunks : PushedValue → List (List UInt8)
  | data bytes _ _ => [bytes.take (uint32 bytes.length)]
  | string str _ => sizedChunks str (uint32 str.length)
  | wstring wstr _ => sizedChunks (wideBytes wstr) (uint32 (wstr.length * 4))
  | block bytes _ _ _ _ => sizedChunks bytes bytes.length

end PushedValue

/-- All pushes succeed one after another. -/
def PushesAll (fresh : Nat → Nat → UInt8) : List PushedValue → Buffer → Buffer → Prop
  | [], b, b' => b' = b
  | e :: rest, b, b' => ∃ mid, e.push fresh b = some (mid, true) ∧ PushesAll fresh rest mid b'

/-- All pops succeed one after another and return what was pushed. -/
def ReturnsAll : List PushedValue → Buffer → Prop
  | [], _ => True
  | e :: rest, b => ∃ mid, e.Returns b mid ∧ ReturnsAll rest mid

/-- The size of the array for a block at an offset. -/
def nextSize (alloc size offset len : Nat) : Nat :=
  if size - offset < len then Buffer.grownSize size offset alloc len else size

/-- The array, as it grows, has room for blocks of these lengths one after another. -/
def Room (alloc : Nat) : Nat → Nat → List Nat → Prop
  | _, _, [] => True
  | size, offset, len :: lens =>
    offset + len ≤ nextSize alloc size offset len ∧ Room alloc (nextSize alloc size offset len) (offset + len) lens

instance Room.decidable (alloc : Nat) : (size offset : Nat) → (lens : List Nat) → Decidable (Room alloc size offset lens)
  | _, _, [] => isTrue trivial
  | size, offset, len :: lens =>
    have := Room.decidable alloc (nextSize alloc size offset len) (offset + len) lens
    inferInstanceAs (Decidable (_ ∧ _))

/-- Every block is written, one after another. -/
def Writes (fresh : Nat → Nat → UInt8) : List (List UInt8) → Buffer → Buffer → Prop
  | [], b, b' => b' = b
  | c :: cs, b, b' => ∃ mid, b.write fresh c = some (mid, true) ∧ Writes fresh cs mid b'

/-- The bytes that were written so far. -/
structure Holds (b : Buffer) (written : List UInt8) : Prop where
  offset_eq : b.offset = written.length
  fits : b.offset ≤ b.size
  size_lt : b.size < 4294967296
  alloc_pos : 0 < b.alloc
  bytes : copyOut b.content 0 written.length = written

/-- The bytes that are still to be read. -/
structure Streams (b : Buffer) (rest : List UInt8) : Prop where
  fits : b.offset + rest.length ≤ b.size
  size_lt : b.size < 4294967296
  bytes : copyOut b.content b.offset rest.length = rest

section

variable {fresh : Nat → Nat → UInt8} {b b' : Buffer} {written bytes xs ys rest : List UInt8} {n size alloc len : Nat}

theorem uint32_of_lt (h : n < 4294967296) : uint32 n = n := by
  unfold uint32
  omega

theorem uint32_le (n : Nat) : uint32 n ≤ n := by
  unfold uint32
  omega

theorem uint32_lt (x : Int) : uint32 x < 4294967296 := by
  unfold uint32
  omega

theorem Holds.init (fresh : Nat → Nat → UInt8) (alloc : Nat) (hsize : size < 4294967296) :
    Holds (Buffer.init fresh size alloc) [] where
  offset_eq := rfl
  fits := Nat.zero_le _
  size_lt := hsize
  alloc_pos := by
    unfold Buffer.init
    dsimp only
    split <;> omega
  bytes := rfl

/-- The array before a block is copied to it. -/
def Buffer.reserve (fresh : Nat → Nat → UInt8) (b : Buffer) (len : Nat) : Buffer :=
  if b.size - b.offset < len then b.grow fresh len else b

theorem Holds.reserve (h : Holds b written) (fresh : Nat → Nat → UInt8) (len : Nat) :
    (b.reserve fresh len).offset = b.offset ∧ (b.reserve fresh len).alloc = b.alloc ∧
      (b.reserve fresh len).size = nextSize b.alloc b.size b.offset len ∧
        copyOut (b.reserve fresh len).content 0 written.length = written := by
  have halloc := h.alloc_pos
  have hzero : (if b.alloc = 0 then 1024 else b.alloc) = b.alloc := if_neg (by omega)
  unfold Buffer.reserve nextSize
  split
  next =>
    have hkept : copyOut (b.grow fresh len).content 0 written.length = copyOut b.content 0 written.length := by
      apply copyOut_congr
      intro j _ hj
      have hoffset := h.offset_eq
      exact if_pos (by omega)
    exact ⟨rfl, hzero, congrArg (Buffer.grownSize b.size b.offset · len) hzero, hkept.trans h.bytes⟩
  next => exact ⟨rfl, rfl, rfl, h.bytes⟩

theorem nextSize_lt (h : size < 4294967296) (alloc offset len : Nat) : nextSize alloc size offset len < 4294967296 := by
  unfold nextSize
  split
  next => exact uint32_lt _
  next => exact h

theorem Holds.write_eq (h : Holds b written) (hbytes : bytes ≠ []) (fresh : Nat → Nat → UInt8) :
    b.write fresh bytes =
      if b.offset + bytes.length ≤ nextSize b.alloc b.size b.offset bytes.length then
        some ({ b.reserve fresh bytes.length with
          content := copyIn (b.reserve fresh bytes.length).content b.offset bytes
          offset := b.offset + bytes.length }, true)
      else none := by
  obtain ⟨hoffset, _, hsize, _⟩ := h.reserve fresh bytes.length
  have hfits := h.fits
  have hlt := h.size_lt
  have hlen : bytes.length ≠ 0 := fun hnil => hbytes (List.eq_nil_of_length_eq_zero hnil)
  have hroom : (if uint32 (b.size - b.offset) < bytes.length then b.grow fresh bytes.length else b) =
      b.reserve fresh bytes.length := by
    have hfree : uint32 (b.size - b.offset) = b.size - b.offset := by
      unfold uint32
      omega
    rw [hfree]
    rfl
  have hnext := nextSize_lt hlt b.alloc b.offset bytes.length
  unfold Buffer.write
  dsimp only
  rw [if_neg hlen, hroom, hoffset, hsize]
  split
  next hend => rw [← Int.natCast_add, uint32_of_lt (by omega)]
  next => rfl

theorem Holds.write (h : Holds b written) (hwrite : b.write fresh bytes = some (b', true)) :
    Holds b' (written ++ bytes) ∧ b'.alloc = b.alloc ∧ b'.offset = b.offset + bytes.length ∧
      b'.size = nextSize b.alloc b.size b.offset bytes.length := by
  obtain ⟨hoffset, halloc, hsize, hbytes⟩ := h.reserve fresh bytes.length
  have hne : bytes ≠ [] := by
    rintro rfl
    cases hwrite
  rw [h.write_eq hne] at hwrite
  split at hwrite
  next hend =>
    cases hwrite
    refine ⟨⟨?_, hsize ▸ hend, hsize ▸ nextSize_lt h.size_lt _ _ _, halloc ▸ h.alloc_pos, ?_⟩, halloc, rfl, hsize⟩
    · rw [List.length_append, ← h.offset_eq]
    · rw [List.length_append, h.offset_eq]
      exact copyOut_copyIn_extend hbytes bytes
  next => cases hwrite

/-- Blocks are written exactly where none is empty and there is room for them. -/
theorem Holds.writes_iff (h : Holds b written) (fresh : Nat → Nat → UInt8) (cs : List (List UInt8)) :
    (∃ b', Writes fresh cs b b') ↔ (∀ c ∈ cs, c ≠ []) ∧ Room b.alloc b.size b.offset (cs.map List.length) := by
  induction cs generalizing b written with
  | nil => simp [Writes, Room]
  | cons c cs ih =>
    have hstep : ∀ mid, b.write fresh c = some (mid, true) → ((∃ b', Writes fresh cs mid b') ↔
        (∀ c ∈ cs, c ≠ []) ∧
          Room b.alloc (nextSize b.alloc b.size b.offset c.length) (b.offset + c.length) (cs.map List.length)) := by
      intro mid hmid
      obtain ⟨hmid, halloc, hoffset, hsize⟩ := h.write hmid
      rw [ih hmid, halloc, hoffset, hsize]
    rw [List.forall_mem_cons, List.map_cons, Room]
    constructor
    · rintro ⟨b', mid, hmid, hrest⟩
      obtain ⟨hcs, hroom⟩ := (hstep mid hmid).mp ⟨b', hrest⟩
      obtain ⟨hmid', _, hoffset, hsize⟩ := h.write hmid
      have hne : c ≠ [] := by
        rintro rfl
        cases hmid
      have hfits := hmid'.fits
      rw [hoffset, hsize] at hfits
      exact ⟨⟨hne, hcs⟩, hfits, hroom⟩
    · rintro ⟨⟨hne, hcs⟩, hfits, hroom⟩
      have hmid := h.write_eq hne fresh
      rw [if_pos hfits] at hmid
      obtain ⟨b', hrest⟩ := (hstep _ hmid).mpr ⟨hcs, hroom⟩
      exact ⟨b', _, hmid, hrest⟩

/-- Where no size comes near the range of its counter, every growth makes room. -/
theorem Room.of_small {lens : List Nat} {offset : Nat} (halloc : 0 < alloc) (hoffset : offset ≤ size)
    (h : size + (lens.map fun len => 2 * len + alloc).sum < 4294967296) : Room alloc size offset lens := by
  induction lens generalizing size offset with
  | nil => exact trivial
  | cons len lens ih =>
    rw [List.map_cons, List.sum_cons] at h
    have hnext : offset + len ≤ nextSize alloc size offset len ∧
        nextSize alloc size offset len ≤ size + 2 * len + alloc := by
      unfold nextSize Buffer.grownSize
      split
      next hsmall =>
        obtain ⟨need, hneed⟩ : ∃ need, size + len = need + offset := ⟨size + len - offset, by omega⟩
        have hround : (need + alloc) / alloc * alloc ≤ need + alloc := Nat.div_mul_le_self _ _
        have hbeyond : need + alloc < (need + alloc) / alloc * alloc + alloc := Nat.lt_div_mul_add halloc
        dsimp only
        rw [show uint32 (len + size - offset : Int) = need by unfold uint32; omega,
          show uint32 (need + alloc : Int) = need + alloc by unfold uint32; omega]
        unfold uint32
        omega
      next => omega
    exact ⟨hnext.1, ih hnext.1 (by omega)⟩

theorem Holds.writes {cs : List (List UInt8)} (h : Holds b written) (hwrites : Writes fresh cs b b') :
    Holds b' (written ++ cs.flatten) := by
  induction cs generalizing b written with
  | nil =>
    cases hwrites
    rwa [List.flatten_nil, List.append_nil]
  | cons c cs ih =>
    obtain ⟨mid, hmid, hrest⟩ := hwrites
    obtain ⟨hmid, _⟩ := h.write hmid
    rw [List.flatten_cons, ← List.append_assoc]
    exact ih hmid hrest

theorem writes_append {cs ds : List (List UInt8)} :
    Writes fresh (cs ++ ds) b b' ↔ ∃ mid, Writes fresh cs b mid ∧ Writes fresh ds mid b' := by
  induction cs generalizing b with
  | nil => simp [Writes]
  | cons c cs ih => simp only [List.cons_append, Writes, ih]; grind

theorem write_true {r : Bool} (hbytes : bytes ≠ []) (hwrite : b.write fresh bytes = some (b', r)) : r = true := by
  have hlen : bytes.length ≠ 0 := fun hnil => hbytes (List.eq_nil_of_length_eq_zero hnil)
  unfold Buffer.write at hwrite
  dsimp only at hwrite
  rw [if_neg hlen] at hwrite
  generalize (if uint32 (b.size - b.offset) < bytes.length then b.grow fresh bytes.length else b) = room at hwrite
  split at hwrite
  next => cases hwrite; rfl
  next => cases hwrite

theorem pushSized_iff : b.pushSized fresh bytes size = some (b', true) ↔ Writes fresh (sizedChunks bytes size) b b' := by
  have hlength : storedBytes 4 size ≠ [] := by
    intro hnil
    have hlen := length_storedBytes 4 size
    rw [hnil] at hlen
    cases hlen
  have hrest : ∀ mid : Buffer, (if bytes ≠ [] then mid.write fresh (bytes.take size) else some (mid, true)) =
      some (b', true) ↔ Writes fresh (if bytes = [] then [] else [bytes.take size]) mid b' := by
    intro mid
    by_cases hnil : bytes = []
    · simp [hnil, Writes, eq_comm]
    · simp [hnil, Writes]
  unfold Buffer.pushSized sizedChunks
  rw [Option.bind_eq_some_iff, Writes]
  constructor
  · rintro ⟨⟨mid, r⟩, hmid, hpayload⟩
    obtain rfl : r = true := write_true hlength hmid
    exact ⟨mid, hmid, (hrest mid).mp hpayload⟩
  · rintro ⟨mid, hmid, hpayload⟩
    exact ⟨(mid, true), hmid, (hrest mid).mpr hpayload⟩

theorem PushedValue.push_iff (e : PushedValue) : e.push fresh b = some (b', true) ↔ Writes fresh e.chunks b b' := by
  cases e with
  | data bytes held sized => simp [PushedValue.push, Buffer.pushData, PushedValue.chunks, Writes]
  | string str held => exact pushSized_iff
  | wstring wstr held => exact pushSized_iff
  | block bytes held len fits room => exact pushSized_iff

theorem pushesAll_iff {es : List PushedValue} :
    PushesAll fresh es b b' ↔ Writes fresh (es.flatMap PushedValue.chunks) b b' := by
  induction es generalizing b with
  | nil => exact Iff.rfl
  | cons e es ih =>
    rw [List.flatMap_cons, writes_append]
    simp only [PushesAll, PushedValue.push_iff, ih]

theorem read_eq (h : Streams b (xs ++ rest)) (hxs : xs ≠ []) :
    b.read xs.length = some (b.seekTo (b.offset + xs.length), some xs) ∧
      Streams (b.seekTo (b.offset + xs.length)) rest := by
  have hlen : xs.length ≠ 0 := fun hnil => hxs (List.eq_nil_of_length_eq_zero hnil)
  have hfits := h.fits
  have hlt := h.size_lt
  have hbytes := h.bytes
  rw [List.length_append] at hfits hbytes
  rw [copyOut_add] at hbytes
  obtain ⟨hhead, htail⟩ := List.append_inj hbytes (copyOut_length _)
  have hseek : b.seekTo (b.offset + xs.length) = { b with offset := b.offset + xs.length } := if_neg (by omega)
  rw [hseek]
  constructor
  · unfold Buffer.read
    rw [← Int.natCast_add, uint32_of_lt (by omega), if_neg hlen, if_neg (by omega), if_pos (by omega), hhead]
  · exact ⟨by dsimp only; omega, hlt, htail⟩

theorem popNumber_eq (h : Streams b (storedBytes 4 n ++ rest)) (hn : n < 4294967296) (held : Nat) :
    b.popNumber held = some (b.seekTo (b.offset + 4), n) ∧ Streams (b.seekTo (b.offset + 4)) rest := by
  have hlen := length_storedBytes 4 n
  have hne : storedBytes 4 n ≠ [] := by
    intro hnil
    rw [hnil] at hlen
    cases hlen
  obtain ⟨hread, hrest⟩ := read_eq h hne
  rw [hlen] at hread hrest
  refine ⟨?_, hrest⟩
  unfold Buffer.popNumber
  rw [hread, Option.map_some]
  dsimp only [Option.map_some, Option.getD_some]
  rw [littleEndian_storedBytes (by omega)]

/-- A length and the bytes it counts are read back. -/
theorem popSized_eq (held : Nat) (h : Streams b ((sizedChunks bytes size).flatten ++ rest)) (hbytes : bytes ≠ [])
    (htake : bytes.take size ≠ []) (hsize : size < 4294967296) (hle : size ≤ bytes.length) :
    ∃ mid after, b.popNumber held = some (mid, size) ∧ mid.read size = some (after, some (bytes.take size)) ∧
      Streams after rest ∧ 0 < size ∧ size + 1 < 4294967296 := by
  unfold sizedChunks at h
  rw [if_neg hbytes, List.flatten_cons, List.flatten_singleton, List.append_assoc] at h
  have hfits := h.fits
  have hlt := h.size_lt
  rw [List.length_append, length_storedBytes, List.length_append, List.length_take] at hfits
  obtain ⟨hnumber, hmid⟩ := popNumber_eq h hsize held
  obtain ⟨hread, hafter⟩ := read_eq hmid htake
  rw [List.length_take, Nat.min_eq_left hle] at hread hafter
  have hpos : size ≠ 0 := by
    rintro rfl
    exact htake (List.take_zero)
  exact ⟨_, _, hnumber, hread, hafter, by omega, by omega⟩

theorem popSized_nil (held : Nat) (h : Streams b ((sizedChunks [] 0).flatten ++ rest)) :
    ∃ mid, b.popNumber held = some (mid, 0) ∧ Streams mid rest := by
  unfold sizedChunks at h
  rw [if_pos rfl, List.flatten_singleton] at h
  obtain ⟨hnumber, hmid⟩ := popNumber_eq h (by omega) held
  exact ⟨_, hnumber, hmid⟩

theorem sizedChunks_ne (h : ∀ c ∈ sizedChunks bytes size, c ≠ []) (hbytes : bytes ≠ []) : bytes.take size ≠ [] := by
  apply h
  unfold sizedChunks
  rw [if_neg hbytes]
  simp

/-- A C string of a prefix is the whole text exactly where nothing is cut off and it has no terminator. -/
theorem takeWhile_take_eq_self {α : Type*} [DecidableEq α] {cs : List α} {z : α} {k : Nat} :
    (cs.take k).takeWhile (· ≠ z) = cs ↔ cs.length ≤ k ∧ z ∉ cs := by
  constructor
  · intro h
    have hlen : cs.length ≤ k := by
      have hle := (List.takeWhile_prefix (l := cs.take k) (· ≠ z)).length_le
      rw [h, List.length_take] at hle
      omega
    rw [List.take_of_length_le hlen, List.takeWhile_eq_self_iff] at h
    refine ⟨hlen, fun hz => ?_⟩
    have := h z hz
    simp at this
  · rintro ⟨hlen, hz⟩
    rw [List.take_of_length_le hlen, List.takeWhile_eq_self_iff]
    intro c hc
    simpa using fun heq : c = z => hz (heq ▸ hc)

theorem wideBytes_cons (c : UInt32) (cs : List UInt32) :
    wideBytes (c :: cs) = storedBytes 4 c.toNat ++ wideBytes cs := by
  rw [wideBytes, List.flatMap_cons, ← wideBytes]

theorem wideBytes_length (cs : List UInt32) : (wideBytes cs).length = cs.length * 4 := by
  induction cs with
  | nil => rfl
  | cons c cs ih =>
    rw [wideBytes_cons, List.length_append, length_storedBytes, ih, List.length_cons]
    omega

theorem wideBytes_take (cs : List UInt32) (k : Nat) : (wideBytes cs).take (k * 4) = wideBytes (cs.take k) := by
  induction cs generalizing k with
  | nil => rw [List.take_nil, wideBytes, List.flatMap_nil, List.take_nil]
  | cons c cs ih =>
    cases k with
    | zero => rw [Nat.zero_mul, List.take_zero, List.take_zero]; rfl
    | succ k =>
      rw [List.take_succ_cons, wideBytes_cons, wideBytes_cons, ← ih, Nat.succ_mul, Nat.add_comm,
        List.take_append, length_storedBytes, List.take_of_length_le (by rw [length_storedBytes]; omega)]
      congr 2
      omega

theorem wideChars_wideBytes (cs : List UInt32) : wideChars cs.length (wideBytes cs) = cs := by
  induction cs with
  | nil => rfl
  | cons c cs ih =>
    have hlen := length_storedBytes 4 c.toNat
    have hc := c.toNat_lt
    rw [List.length_cons, wideBytes_cons, wideChars, List.take_left' hlen, List.drop_left' hlen, ih,
      littleEndian_storedBytes (by omega), UInt32.ofNat_toNat]

theorem returns_data {held : List UInt8} (sized : 0 < bytes.length ∧ held.length = bytes.length)
    (h : Streams b (bytes.take (uint32 bytes.length) ++ rest)) (hne : bytes.take (uint32 bytes.length) ≠ []) :
    ∃ mid, Streams mid rest ∧
      ∀ b', b.popData held = some (b', bytes, true) ↔
        b' = mid ∧ uint32 bytes.length ≠ 0 ∧
          held.drop (uint32 bytes.length) = bytes.drop (uint32 bytes.length) := by
  have hpos : uint32 bytes.length ≠ 0 := by
    intro hzero
    rw [hzero] at hne
    exact hne List.take_zero
  have hread := read_eq h hne
  rw [List.length_take, Nat.min_eq_left (uint32_le _)] at hread
  obtain ⟨hread, hrest⟩ := hread
  refine ⟨_, hrest, fun b' => ?_⟩
  unfold Buffer.popData
  rw [sized.2]
  dsimp only
  rw [hread]
  simp only [Option.map_some, Option.getD_some, Option.isSome_some, Option.some.injEq, Prod.mk.injEq, and_true]
  rw [eq_comm, and_iff_right hpos]
  apply and_congr_right
  intro _
  conv_lhs => rhs; rw [← List.take_append_drop (uint32 bytes.length) bytes]
  exact List.append_right_inj _

theorem returns_string {str held : List UInt8}
    (h : Streams b ((sizedChunks str (uint32 str.length)).flatten ++ rest))
    (hne : ∀ c ∈ sizedChunks str (uint32 str.length), c ≠ []) :
    ∃ mid, Streams mid rest ∧
      ∀ b', b.popString held = some (b', str, true) ↔
        b' = mid ∧ str.length < 4294967296 ∧ 0 ∉ str ∧ (str = [] → held = []) := by
  by_cases hstr : str = []
  · subst hstr
    obtain ⟨mid, hnumber, hmid⟩ := popSized_nil 0 h
    refine ⟨mid, hmid, fun b' => ?_⟩
    unfold Buffer.popString
    rw [hnumber]
    simp [eq_comm]
  · obtain ⟨mid, after, hnumber, hread, hafter, hpos, hlt⟩ :=
      popSized_eq 0 h hstr (sizedChunks_ne hne hstr) (uint32_lt _) (uint32_le _)
    refine ⟨after, hafter, fun b' => ?_⟩
    have hlen : str.length ≤ uint32 str.length ↔ str.length < 4294967296 := by
      unfold uint32
      omega
    unfold Buffer.popString
    rw [hnumber, Option.bind_some]
    dsimp only
    rw [if_pos hpos, hread, Option.bind_some]
    dsimp only
    rw [if_pos (by rw [← Int.natCast_one, ← Int.natCast_add, uint32_of_lt hlt]; omega)]
    simp only [Option.some.injEq, Prod.mk.injEq, and_true]
    rw [takeWhile_take_eq_self, hlen, eq_comm]
    simp [hstr]

theorem wideBytes_eq_nil {wstr : List UInt32} : wideBytes wstr = [] ↔ wstr = [] := by
  rw [← List.length_eq_zero_iff, wideBytes_length, ← List.length_eq_zero_iff (l := wstr)]
  omega

theorem returns_wstring {wstr held : List UInt32}
    (h : Streams b ((sizedChunks (wideBytes wstr) (uint32 (wstr.length * 4))).flatten ++ rest))
    (hne : ∀ c ∈ sizedChunks (wideBytes wstr) (uint32 (wstr.length * 4)), c ≠ []) :
    ∃ mid, Streams mid rest ∧
      ∀ b', b.popWstring held = some (b', wstr, true) ↔
        b' = mid ∧ wstr.length * 4 < 4294967296 ∧ 0 ∉ wstr ∧ (wstr = [] → held = []) := by
  by_cases hwstr : wstr = []
  · subst hwstr
    obtain ⟨mid, hnumber, hmid⟩ := popSized_nil 0 h
    refine ⟨mid, hmid, fun b' => ?_⟩
    unfold Buffer.popWstring
    rw [hnumber]
    simp [eq_comm]
  · -- the size is a whole number of characters, also where it wraps
    obtain ⟨k, hk, hle, hfits⟩ : ∃ k, uint32 (wstr.length * 4) = k * 4 ∧ k ≤ wstr.length ∧
        (wstr.length ≤ k ↔ wstr.length * 4 < 4294967296) := by
      refine ⟨wstr.length % 1073741824, ?_, Nat.mod_le _ _, ?_⟩
      · unfold uint32
        omega
      · omega
    have hbytes := mt wideBytes_eq_nil.mp hwstr
    obtain ⟨mid, after, hnumber, hread, hafter, hpos, hlt⟩ :=
      popSized_eq 0 h hbytes (sizedChunks_ne hne hbytes) (uint32_lt _)
        (by rw [wideBytes_length]; exact uint32_le _)
    refine ⟨after, hafter, fun b' => ?_⟩
    have hchars := wideChars_wideBytes (wstr.take k)
    rw [List.length_take, Nat.min_eq_left hle] at hchars
    unfold Buffer.popWstring
    rw [hnumber, Option.bind_some]
    rw [hk] at hread hpos ⊢
    dsimp only
    rw [Nat.mul_div_cancel k (by omega), if_pos (by omega), hread, Option.bind_some, wideBytes_take]
    dsimp only
    rw [hchars]
    simp only [Option.some.injEq, Prod.mk.injEq, and_true]
    rw [takeWhile_take_eq_self, hfits, eq_comm]
    simp [hwstr]

theorem returns_block {held : List UInt8} (len : Nat) (hlt : bytes.length < 4294967296) (room : bytes.length ≤ held.length)
    (h : Streams b ((sizedChunks bytes bytes.length).flatten ++ rest)) :
    ∃ mid, Streams mid rest ∧
      ∀ b', (∃ after, b.popBlock held len = some (b', (after, bytes.length), true) ∧
        after.take bytes.length = bytes) ↔ b' = mid := by
  by_cases hbytes : bytes = []
  · subst hbytes
    obtain ⟨mid, hnumber, hmid⟩ := popSized_nil len h
    refine ⟨mid, hmid, fun b' => ?_⟩
    unfold Buffer.popBlock
    rw [hnumber]
    simp [eq_comm]
  · have htake : bytes.take bytes.length ≠ [] := by
      rwa [List.take_length]
    obtain ⟨mid, after, hnumber, hread, hafter, hpos, _⟩ := popSized_eq len h hbytes htake hlt le_rfl
    refine ⟨after, hafter, fun b' => ?_⟩
    unfold Buffer.popBlock
    rw [hnumber, Option.bind_some]
    dsimp only
    rw [if_pos (by omega), hread, Option.bind_some]
    dsimp only
    rw [if_pos room, List.take_length]
    simp only [Option.some.injEq, Prod.mk.injEq, and_true]
    constructor
    · rintro ⟨_, ⟨rfl, _⟩, _⟩
      rfl
    · rintro rfl
      exact ⟨_, ⟨rfl, rfl⟩, List.take_left⟩

/-- A pop at the bytes of a push returns the value exactly where the value is plain. -/
theorem PushedValue.returns {e : PushedValue} (h : Streams b (e.chunks.flatten ++ rest)) (hne : ∀ c ∈ e.chunks, c ≠ []) :
    ∃ mid, Streams mid rest ∧ ∀ b', e.Returns b b' ↔ b' = mid ∧ e.Plain := by
  cases e with
  | data bytes held sized =>
    rw [PushedValue.chunks, List.flatten_singleton] at h
    exact returns_data sized h (hne _ (List.mem_singleton_self _))
  | string str held => exact returns_string h hne
  | wstring wstr held => exact returns_wstring h hne
  | block bytes held len fits room =>
    obtain ⟨mid, hmid, hreturns⟩ := returns_block len fits room h
    refine ⟨mid, hmid, fun b' => ?_⟩
    rw [PushedValue.Returns, hreturns b', PushedValue.Plain, and_true]

theorem returnsAll_iff {es : List PushedValue} (h : Streams b ((es.flatMap PushedValue.chunks).flatten ++ rest))
    (hne : ∀ c ∈ es.flatMap PushedValue.chunks, c ≠ []) : ReturnsAll es b ↔ ∀ e ∈ es, e.Plain := by
  induction es generalizing b with
  | nil => simp [ReturnsAll]
  | cons e es ih =>
    rw [List.flatMap_cons, List.flatten_append, List.append_assoc] at h
    obtain ⟨mid, hmid, hreturns⟩ := PushedValue.returns h fun c hc =>
      hne c (List.mem_flatMap.mpr ⟨e, List.mem_cons_self, hc⟩)
    have hrest := ih hmid fun c hc => by
      obtain ⟨e', he', hc⟩ := List.mem_flatMap.mp hc
      exact hne c (List.mem_flatMap.mpr ⟨e', List.mem_cons_of_mem _ he', hc⟩)
    rw [List.forall_mem_cons, ← hrest, ReturnsAll]
    simp only [hreturns]
    grind

theorem PushedValue.Plain.chunks_ne {e : PushedValue} (h : e.Plain) : ∀ c ∈ e.chunks, c ≠ [] := by
  have htake : ∀ {k : Nat} {xs : List UInt8}, k ≠ 0 → xs ≠ [] → xs.take k ≠ [] := by
    intro k xs hk hxs htake
    rcases List.take_eq_nil_iff.mp htake with h | h
    · exact hk h
    · exact hxs h
  have hsized : ∀ {bytes : List UInt8} {size : Nat}, (bytes ≠ [] → size ≠ 0) → ∀ c ∈ sizedChunks bytes size, c ≠ [] := by
    intro bytes size hsize c hc
    unfold sizedChunks at hc
    rcases List.mem_cons.mp hc with rfl | hc
    · exact List.ne_nil_of_length_pos (by rw [length_storedBytes]; omega)
    · split at hc
      next => cases hc
      next hbytes => exact List.mem_singleton.mp hc ▸ htake (hsize hbytes) hbytes
  cases e with
  | data bytes held sized =>
    intro c hc
    exact List.mem_singleton.mp hc ▸ htake h.1 (List.ne_nil_of_length_pos sized.1)
  | string str held =>
    apply hsized
    intro hstr
    have hlen := List.length_pos_iff.mpr hstr
    rw [uint32_of_lt h.1]
    omega
  | wstring wstr held =>
    apply hsized
    intro hwstr
    have hlen := List.length_pos_iff.mpr (mt wideBytes_eq_nil.mpr hwstr)
    have hfits := h.1
    unfold uint32
    omega
  | block bytes held len fits room =>
    apply hsized
    intro hbytes
    exact Nat.ne_of_gt (List.length_pos_iff.mpr hbytes)

theorem Holds.streams (h : Holds b written) : Streams (b.seekTo 0) (written ++ []) := by
  have hoffset := h.offset_eq
  have hfits := h.fits
  rw [List.append_nil]
  refine ⟨?_, h.size_lt, h.bytes⟩
  show 0 + written.length ≤ b.size
  omega

/-- Pushed values are popped again exactly where the array has room for all of them and every value is plain. -/
theorem popped_iff {es : List PushedValue} (hsize : size < 4294967296) :
    (∃ pushed, PushesAll fresh es (Buffer.init fresh size alloc) pushed ∧ ReturnsAll es (pushed.seekTo 0)) ↔
      (∀ e ∈ es, e.Plain) ∧
        Room (if alloc > 0 then alloc else 1024) size 0 ((es.flatMap PushedValue.chunks).map List.length) := by
  have hinit := Holds.init fresh alloc hsize
  have hwrites := hinit.writes_iff fresh (es.flatMap PushedValue.chunks)
  have hstreams : ∀ {pushed}, Writes fresh (es.flatMap PushedValue.chunks) (Buffer.init fresh size alloc) pushed →
      (∀ c ∈ es.flatMap PushedValue.chunks, c ≠ []) → (ReturnsAll es (pushed.seekTo 0) ↔ ∀ e ∈ es, e.Plain) := by
    intro pushed hpushed hne
    exact returnsAll_iff (hinit.writes hpushed).streams hne
  constructor
  · rintro ⟨pushed, hpushes, hreturns⟩
    have hpushed := pushesAll_iff.mp hpushes
    obtain ⟨hne, hroom⟩ := hwrites.mp ⟨pushed, hpushed⟩
    exact ⟨(hstreams hpushed hne).mp hreturns, hroom⟩
  · rintro ⟨hplain, hroom⟩
    have hne : ∀ c ∈ es.flatMap PushedValue.chunks, c ≠ [] := by
      intro c hc
      obtain ⟨e, he, hc⟩ := List.mem_flatMap.mp hc
      exact (hplain e he).chunks_ne c hc
    obtain ⟨pushed, hpushed⟩ := hwrites.mpr ⟨hne, hroom⟩
    exact ⟨pushed, pushesAll_iff.mpr hpushed, (hstreams hpushed hne).mpr hplain⟩

/-- Values of every type come back through an array that grows from nothing. -/
theorem popped_mixed :
    ∃ pushed, PushesAll (fun _ _ => 0)
        [.data [1, 2, 3] [7, 7, 7] (by decide), .string [97, 98] [122, 122, 122], .wstring [20013, 25991] [],
          .block [9, 0, 9] [0, 0, 0, 5] 4 (by decide) (by decide), .string [] []] (Buffer.init (fun _ _ => 0) 0 8) pushed ∧
      ReturnsAll
        [.data [1, 2, 3] [7, 7, 7] (by decide), .string [97, 98] [122, 122, 122], .wstring [20013, 25991] [],
          .block [9, 0, 9] [0, 0, 0, 5] 4 (by decide) (by decide), .string [] []] (pushed.seekTo 0) :=
  (popped_iff (by decide)).mpr ⟨by decide, by decide⟩

/-- A text with an embedded zero comes back without what follows the zero. -/
theorem embedded_zero_not_popped :
    ¬ ∃ pushed, PushesAll (fun _ _ => 0) [.string [97, 0, 98] []] (Buffer.init (fun _ _ => 0) 1024 1024) pushed ∧
      ReturnsAll [.string [97, 0, 98] []] (pushed.seekTo 0) := by
  rintro ⟨pushed, hpushes, hreturns⟩
  have hinit : Holds (Buffer.init (fun _ _ => 0) 1024 1024) [] := Holds.init (fun _ _ => 0) 1024 (by omega)
  have hpushed := pushesAll_iff.mp hpushes
  have hne := ((hinit.writes_iff _ _).mp ⟨pushed, hpushed⟩).1
  have hplain := (returnsAll_iff (hinit.writes hpushed).streams hne).mp hreturns
  revert hplain
  decide

end

end MasterAI
