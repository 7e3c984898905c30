import MasterAI.WrapInt32
import Mathlib.Data.UInt

namespace MasterAI

/-- The bytes of memory from a pointer on. -/
abbrev Memory := Nat → UInt8

def Memory.advance (m : Memory) (k : Nat) : Memory := fun i => m (i + k)

/-- The memory starts with the bytes. -/
def Memory.Holds (m : Memory) (x : List UInt8) : Prop := ∀ i, (h : i < x.length) → m i = x[i]

def base64Encoding : List UInt8 :=
  "ABCDEFGHIJKLMNOPQRSTUVWXYZabcdefghijklmnopqrstuvwxyz0123456789+/".toList.map fun c => UInt8.ofNat c.toNat

def encodedSextet (i : Nat) : UInt8 := base64Encoding.getD i 0

/-- The loop of `Base64Enc` over the bytes that are left. The last two bytes are encoded with the byte behind them. -/
def base64EncLoop : Nat → Memory → List UInt8
  | 0, _ => []
  | 1, text =>
    [encodedSextet ((text 0).toNat >>> 2 &&& 0x3f), encodedSextet (((text 0).toNat &&& 3) <<< 4), 61, 61]
  | 2, text =>
    [encodedSextet ((text 0).toNat >>> 2 &&& 0x3f),
      encodedSextet (((text 0).toNat &&& 3) <<< 4 ||| (text 1).toNat >>> 4),
      encodedSextet (((text 1).toNat &&& 0x0f) <<< 2 ||| (text 2).toNat >>> 6), 61]
  | size + 3, text =>
    encodedSextet ((text 0).toNat >>> 2 &&& 0x3f) ::
      encodedSextet (((text 0).toNat &&& 3) <<< 4 ||| (text 1).toNat >>> 4) ::
      encodedSextet (((text 1).toNat &&& 0x0f) <<< 2 ||| (text 2).toNat >>> 6) ::
      encodedSextet ((text 2).toNat &&& 0x3f) :: base64EncLoop size (text.advance 3)

/-- `Base64Enc`: the bytes it writes, and their number without the terminator, which has no result where it
overflows. -/
def base64Enc (text : Memory) (size : Int) : Option (List UInt8 × Int) :=
  let written := base64EncLoop size.toNat text
  if (written.length : Int) ≤ int32Max then some (written ++ [0], written.length) else none

def getBase64Value (ch : UInt8) : Nat :=
  if 65 ≤ ch.toNat ∧ ch.toNat ≤ 90 then ch.toNat - 65
  else if 97 ≤ ch.toNat ∧ ch.toNat ≤ 122 then ch.toNat - 97 + 26
  else if 48 ≤ ch.toNat ∧ ch.toNat ≤ 57 then ch.toNat - 48 + 52
  else if ch = 43 then 62
  else if ch = 47 then 63
  else 0

/-- The loop of `Base64Dec` over the chunks of four characters. -/
def base64DecLoop : Nat → Memory → List UInt8
  | 0, _ => []
  | chunks + 1, text =>
    UInt8.ofNat (getBase64Value (text 0) <<< 2 ||| getBase64Value (text 1) >>> 4) ::
      UInt8.ofNat (getBase64Value (text 1) <<< 4 ||| getBase64Value (text 2) >>> 2) ::
      UInt8.ofNat (getBase64Value (text 2) <<< 6 ||| getBase64Value (text 3)) ::
      base64DecLoop chunks (text.advance 4)

/-- `Base64Dec`: the bytes it writes, and its result. -/
def base64Dec (text : Memory) (size : Int) : List UInt8 × Int :=
  if size % 4 ≠ 0 then ([], -1)
  else (base64DecLoop (size / 4).toNat text, (base64DecLoop (size / 4).toNat text).length)

/-- The Base64 alphabet. -/
def base64Alphabet (v : Nat) : UInt8 :=
  if v < 26 then UInt8.ofNat (65 + v)
  else if v < 52 then UInt8.ofNat (97 + (v - 26))
  else if v < 62 then UInt8.ofNat (48 + (v - 52))
  else if v = 62 then 43
  else 47

/-- A character of the group of 24 bits, which are numbered from the top. -/
def groupChar (a b c : UInt8) (i : Nat) : UInt8 :=
  base64Alphabet ((a.toNat * 65536 + b.toNat * 256 + c.toNat) / 64 ^ (3 - i) % 64)

/-- The padded Base64 encoding: three bytes are a group of 24 bits and four characters, and a last group that
is not full is filled with zeros, with a padding character for each byte it lacks. -/
def paddedBase64 : List UInt8 → List UInt8
  | [] => []
  | [a] => [groupChar a 0 0 0, groupChar a 0 0 1, 61, 61]
  | [a, b] => [groupChar a b 0 0, groupChar a b 0 1, groupChar a b 0 2, 61]
  | a :: b :: c :: rest =>
    groupChar a b c 0 :: groupChar a b c 1 :: groupChar a b c 2 :: groupChar a b c 3 :: paddedBase64 rest

/-- `4 * ceil(n / 3)`. -/
def encodedLength (n : Nat) : Nat := 4 * ((n + 2) / 3)

/-- `3 * ceil(n / 3)`. -/
def decodedLength (n : Nat) : Nat := 3 * ((n + 2) / 3)

theorem encodedSextet_eq {v : Nat} (h : v < 64) : encodedSextet v = base64Alphabet v := by
  have hall : ∀ v : Fin 64, encodedSextet v = base64Alphabet v := by decide +kernel
  exact hall ⟨v, h⟩

theorem getBase64Value_alphabet {v : Nat} (h : v < 64) : getBase64Value (base64Alphabet v) = v := by
  have hall : ∀ v : Fin 64, getBase64Value (base64Alphabet v) = v := by decide +kernel
  exact hall ⟨v, h⟩

theorem shiftLeft_or {x y k : Nat} (h : y < 2 ^ k) : x <<< k ||| y = x * 2 ^ k + y := by
  rw [← Nat.shiftLeft_add_eq_or_of_lt h, Nat.shiftLeft_eq]

/-- The bits that the encoder picks from three bytes are the sextets of their group. -/
theorem sextets_eq (a b c : UInt8) :
    encodedSextet (a.toNat >>> 2 &&& 0x3f) = groupChar a b c 0 ∧
      encodedSextet ((a.toNat &&& 3) <<< 4 ||| b.toNat >>> 4) = groupChar a b c 1 ∧
      encodedSextet ((b.toNat &&& 0x0f) <<< 2 ||| c.toNat >>> 6) = groupChar a b c 2 ∧
      encodedSextet (c.toNat &&& 0x3f) = groupChar a b c 3 := by
  have ha := UInt8.toNat_lt a
  have hb := UInt8.toNat_lt b
  have hc := UInt8.toNat_lt c
  have hmask : ∀ x : Nat, x &&& 0x3f = x % 64 ∧ x &&& 3 = x % 4 ∧ x &&& 0x0f = x % 16 := fun x =>
    ⟨Nat.and_two_pow_sub_one_eq_mod x 6, Nat.and_two_pow_sub_one_eq_mod x 2, Nat.and_two_pow_sub_one_eq_mod x 4⟩
  simp only [hmask, Nat.shiftRight_eq_div_pow]
  rw [shiftLeft_or (by omega), shiftLeft_or (by omega)]
  unfold groupChar
  refine ⟨?_, ?_, ?_, ?_⟩
  all_goals
    rw [encodedSextet_eq (by omega)]
    exact congrArg base64Alphabet (by omega)

theorem groupChar_lt (a b c : UInt8) (i : Nat) :
    getBase64Value (groupChar a b c i) = (a.toNat * 65536 + b.toNat * 256 + c.toNat) / 64 ^ (3 - i) % 64 :=
  getBase64Value_alphabet (Nat.mod_lt _ (by omega))

theorem toNat_ofNat_eq {b : UInt8} {v : Nat} (h : v % 256 = b.toNat) : UInt8.ofNat v = b := by
  apply UInt8.toNat_inj.mp
  rw [UInt8.toNat_ofNat']
  exact h

/-- The decoder puts the three bytes of a group together. -/
theorem chunk_eq (a b c : UInt8) {c0 c1 c2 c3 : UInt8} (h0 : getBase64Value c0 = getBase64Value (groupChar a b c 0))
    (h1 : getBase64Value c1 = getBase64Value (groupChar a b c 1))
    (h2 : getBase64Value c2 = getBase64Value (groupChar a b c 2))
    (h3 : getBase64Value c3 = getBase64Value (groupChar a b c 3)) :
    UInt8.ofNat (getBase64Value c0 <<< 2 ||| getBase64Value c1 >>> 4) = a ∧
      UInt8.ofNat (getBase64Value c1 <<< 4 ||| getBase64Value c2 >>> 2) = b ∧
      UInt8.ofNat (getBase64Value c2 <<< 6 ||| getBase64Value c3) = c := by
  have ha := UInt8.toNat_lt a
  have hb := UInt8.toNat_lt b
  have hc := UInt8.toNat_lt c
  rw [h0, h1, h2, h3]
  simp only [groupChar_lt, Nat.shiftRight_eq_div_pow]
  rw [shiftLeft_or (by omega), shiftLeft_or (by omega), shiftLeft_or (by omega)]
  exact ⟨toNat_ofNat_eq (by omega), toNat_ofNat_eq (by omega), toNat_ofNat_eq (by omega)⟩

namespace Memory

variable {m : Memory} {x : List UInt8}

theorem holds_cons {a : UInt8} : m.Holds (a :: x) ↔ m 0 = a ∧ (m.advance 1).Holds x := by
  constructor
  · intro h
    exact ⟨h 0 (by simp), fun i hi => h (i + 1) (by simpa using hi)⟩
  · rintro ⟨h0, hrest⟩ i hi
    cases i with
    | zero => exact h0
    | succ i => exact hrest i (by simpa using hi)

theorem advance_advance (k l : Nat) : (m.advance k).advance l = m.advance (l + k) := by
  funext i
  simp only [advance, Nat.add_assoc]

end Memory

theorem length_base64EncLoop (n : Nat) (m : Memory) : (base64EncLoop n m).length = encodedLength n := by
  unfold encodedLength
  fun_induction base64EncLoop n m with
  | case1 => rfl
  | case2 => rfl
  | case3 => rfl
  | case4 m n ih =>
    simp only [List.length_cons, ih]
    omega

theorem length_paddedBase64 (x : List UInt8) : (paddedBase64 x).length = encodedLength x.length := by
  unfold encodedLength
  fun_induction paddedBase64 x with
  | case1 => rfl
  | case2 => simp
  | case3 => simp
  | case4 a b c rest ih =>
    simp only [List.length_cons, ih]
    omega

/-- The byte behind the last two gets into the third character. -/
theorem lastSextet_eq_iff (a b c : UInt8) : groupChar a b c 2 = groupChar a b 0 2 ↔ c.toNat < 64 := by
  have hc := UInt8.toNat_lt c
  constructor
  · intro h
    have hvalue := congrArg getBase64Value h
    rw [groupChar_lt, groupChar_lt, UInt8.toNat_zero] at hvalue
    omega
  · intro h
    unfold groupChar
    rw [UInt8.toNat_zero]
    exact congrArg base64Alphabet (by omega)

theorem groupChar_high (a b c : UInt8) :
    groupChar a b c 0 = groupChar a 0 0 0 ∧ groupChar a b c 1 = groupChar a b 0 1 := by
  have hb := UInt8.toNat_lt b
  have hc := UInt8.toNat_lt c
  unfold groupChar
  rw [UInt8.toNat_zero]
  exact ⟨congrArg base64Alphabet (by omega), congrArg base64Alphabet (by omega)⟩

theorem base64EncLoop_eq_iff {x : List UInt8} {m : Memory} (h : m.Holds x) :
    base64EncLoop x.length m = paddedBase64 x ↔ (x.length % 3 = 2 → (m x.length).toNat < 64) := by
  fun_induction paddedBase64 x generalizing m with
  | case1 => simp [base64EncLoop]
  | case2 a =>
    obtain ⟨ha, -⟩ := Memory.holds_cons.mp h
    obtain ⟨h0, h1, -, -⟩ := sextets_eq a 0 0
    rw [UInt8.toNat_zero, Nat.zero_shiftRight, Nat.or_zero] at h1
    refine iff_of_true ?_ (by simp)
    change [_, _, _, _] = [_, _, _, _]
    rw [ha, h0, h1]
  | case3 a b =>
    obtain ⟨ha, h⟩ := Memory.holds_cons.mp h
    obtain ⟨hb, -⟩ := Memory.holds_cons.mp h
    obtain ⟨h0, h1, h2, -⟩ := sextets_eq a b (m 2)
    obtain ⟨hhigh0, hhigh1⟩ := groupChar_high a b (m 2)
    have hb' : m 1 = b := hb
    have hloop : base64EncLoop 2 m = [groupChar a b 0 0, groupChar a b 0 1, groupChar a b (m 2) 2, 61] := by
      change [_, _, _, _] = [_, _, _, _]
      rw [ha, hb', h0, h1, h2, hhigh0, hhigh1, (groupChar_high a b 0).1]
    change base64EncLoop 2 m = _ ↔ (2 % 3 = 2 → (m 2).toNat < 64)
    rw [hloop, ← lastSextet_eq_iff a b (m 2)]
    simp
  | case4 a b c rest ih =>
    obtain ⟨ha, h⟩ := Memory.holds_cons.mp h
    obtain ⟨hb, h⟩ := Memory.holds_cons.mp h
    obtain ⟨hc, h⟩ := Memory.holds_cons.mp h
    have hb' : m 1 = b := hb
    have hc' : m 2 = c := hc
    rw [Memory.advance_advance, Memory.advance_advance] at h
    obtain ⟨h0, h1, h2, h3⟩ := sextets_eq a b c
    have hloop : base64EncLoop (rest.length + 3) m = groupChar a b c 0 :: groupChar a b c 1 :: groupChar a b c 2 ::
        groupChar a b c 3 :: base64EncLoop rest.length (m.advance 3) := by
      change _ :: _ :: _ :: _ :: _ = _
      rw [ha, hb', hc', h0, h1, h2, h3]
    change base64EncLoop (rest.length + 3) m = _ ↔ ((rest.length + 3) % 3 = 2 → (m (rest.length + 3)).toNat < 64)
    have hrest : base64EncLoop rest.length (m.advance 3) = paddedBase64 rest ↔
        (rest.length % 3 = 2 → (m (rest.length + 3)).toNat < 64) := ih h
    rw [hloop, Nat.add_mod_right, ← hrest]
    simp

/-- A chunk of the characters of a group is decoded to its bytes. -/
theorem base64DecLoop_chunk {m : Memory} {a b c c0 c1 c2 c3 : UInt8} {x : List UInt8}
    (h : m.Holds (c0 :: c1 :: c2 :: c3 :: x)) (chunks : Nat)
    (h0 : getBase64Value c0 = getBase64Value (groupChar a b c 0))
    (h1 : getBase64Value c1 = getBase64Value (groupChar a b c 1))
    (h2 : getBase64Value c2 = getBase64Value (groupChar a b c 2))
    (h3 : getBase64Value c3 = getBase64Value (groupChar a b c 3)) :
    base64DecLoop (chunks + 1) m = a :: b :: c :: base64DecLoop chunks (m.advance 4) ∧ (m.advance 4).Holds x := by
  obtain ⟨hc0, h⟩ := Memory.holds_cons.mp h
  obtain ⟨hc1, h⟩ := Memory.holds_cons.mp h
  obtain ⟨hc2, h⟩ := Memory.holds_cons.mp h
  obtain ⟨hc3, h⟩ := Memory.holds_cons.mp h
  have hc1' : m 1 = c1 := hc1
  have hc2' : m 2 = c2 := hc2
  have hc3' : m 3 = c3 := hc3
  rw [Memory.advance_advance, Memory.advance_advance, Memory.advance_advance] at h
  obtain ⟨ha, hb, hc⟩ := chunk_eq a b c h0 h1 h2 h3
  refine ⟨?_, h⟩
  rw [base64DecLoop, hc0, hc1', hc2', hc3', ha, hb, hc]

/-- The padded encoding is decoded to the bytes and a zero for each padding character. -/
theorem base64DecLoop_padded {x : List UInt8} {m : Memory} (h : m.Holds (paddedBase64 x)) :
    base64DecLoop ((x.length + 2) / 3) m = x ++ List.replicate (decodedLength x.length - x.length) 0 := by
  have hpad : getBase64Value 61 = 0 := by decide
  fun_induction paddedBase64 x generalizing m with
  | case1 => rfl
  | case2 a =>
    have ha := UInt8.toNat_lt a
    have hlow : getBase64Value (groupChar a 0 0 2) = 0 ∧ getBase64Value (groupChar a 0 0 3) = 0 := by
      rw [groupChar_lt, groupChar_lt, UInt8.toNat_zero]
      omega
    have hchunk := (base64DecLoop_chunk (a := a) (b := 0) (c := 0) h 0 rfl rfl (hpad.trans hlow.1.symm)
      (hpad.trans hlow.2.symm)).1
    simpa [decodedLength, base64DecLoop] using hchunk
  | case3 a b =>
    have ha := UInt8.toNat_lt a
    have hb := UInt8.toNat_lt b
    have hlow : getBase64Value (groupChar a b 0 3) = 0 := by
      rw [groupChar_lt, UInt8.toNat_zero]
      omega
    have hchunk := (base64DecLoop_chunk (a := a) (b := b) (c := 0) h 0 rfl rfl rfl (hpad.trans hlow.symm)).1
    simpa [decodedLength, base64DecLoop] using hchunk
  | case4 a b c rest ih =>
    obtain ⟨hchunk, hrest⟩ := base64DecLoop_chunk h ((rest.length + 2) / 3) rfl rfl rfl rfl
    have hlen : ((a :: b :: c :: rest).length + 2) / 3 = (rest.length + 2) / 3 + 1 := by
      simp only [List.length_cons]
      omega
    have hzeros : decodedLength (a :: b :: c :: rest).length - (a :: b :: c :: rest).length =
        decodedLength rest.length - rest.length := by
      simp only [decodedLength, List.length_cons]
      omega
    rw [hlen, hzeros, hchunk, ih hrest]
    rfl

/-- The call writes the padded encoding of the bytes with its terminator, and returns its length. -/
def EncodesTo (x : List UInt8) (text : Memory) : Prop :=
  base64Enc text x.length = some (paddedBase64 x ++ [0], (encodedLength x.length : Int)) ∧
    (paddedBase64 x).length = encodedLength x.length

/-- The encoding is decoded to the bytes and the zeros that fill the last group. -/
def DecodesTo (x : List UInt8) : Prop :=
  ∀ buf : Memory, buf.Holds (paddedBase64 x) → base64Dec buf (encodedLength x.length) =
    (x ++ List.replicate (decodedLength x.length - x.length) 0, (decodedLength x.length : Int))

theorem decodesTo (x : List UInt8) : DecodesTo x := by
  intro buf h
  have hloop := base64DecLoop_padded h
  have hchunks : ((encodedLength x.length : Int) / 4).toNat = (x.length + 2) / 3 := by
    unfold encodedLength
    omega
  unfold base64Dec
  rw [if_neg (by unfold encodedLength; omega), hchunks, hloop]
  simp only [List.length_append, List.length_replicate, Prod.mk.injEq, true_and]
  unfold decodedLength
  omega

theorem encodesTo_iff {x : List UInt8} {text : Memory} (h : text.Holds x) :
    EncodesTo x text ↔
      (encodedLength x.length : Int) ≤ int32Max ∧ (x.length % 3 = 2 → (text x.length).toNat < 64) := by
  have hlength : (base64EncLoop x.length text).length = encodedLength x.length := length_base64EncLoop _ _
  rw [← base64EncLoop_eq_iff h, EncodesTo, and_iff_left (length_paddedBase64 x)]
  unfold base64Enc
  rw [Int.toNat_natCast]
  dsimp only
  rw [hlength]
  split
  next hfits =>
    rw [Option.some.injEq, Prod.mk.injEq, List.append_left_inj]
    simp [hfits]
  next hlong => simp [hlong]

/-- The encoding of some bytes is the padded one, whatever follows them in memory, exactly when their number leaves
no group of two and its characters can be counted; with a group of two it depends on the byte behind the end. -/
theorem base64_iff (x : List UInt8) :
    ((∀ text : Memory, text.Holds x → EncodesTo x text) ∧ DecodesTo x ↔
      x.length % 3 ≠ 2 ∧ (encodedLength x.length : Int) ≤ int32Max) ∧
    ∀ text : Memory, text.Holds x → (EncodesTo x text ∧ DecodesTo x ↔
      (encodedLength x.length : Int) ≤ int32Max ∧ (x.length % 3 = 2 → (text x.length).toNat < 64)) := by
  refine ⟨⟨?_, ?_⟩, ?_⟩
  · rintro ⟨henc, -⟩
    have hfollowed : Memory.Holds (fun i => x.getD i 255) x := fun i hi => by simp [hi]
    obtain ⟨hfits, hbehind⟩ := (encodesTo_iff hfollowed).mp (henc _ hfollowed)
    refine ⟨fun htwo => ?_, hfits⟩
    have hlow := hbehind htwo
    simp at hlow
  · rintro ⟨htwo, hfits⟩
    exact ⟨fun text h => (encodesTo_iff h).mpr ⟨hfits, fun h2 => absurd h2 htwo⟩, decodesTo x⟩
  · intro text h
    rw [encodesTo_iff h, and_iff_left (decodesTo x)]

theorem base64_three_bytes : EncodesTo [77, 97, 110] (fun i => [77, 97, 110].getD i 255) ∧
    paddedBase64 [77, 97, 110] = [84, 87, 70, 117] := by
  have hheld : Memory.Holds (fun i => [77, 97, 110].getD i 255) [77, 97, 110] := by
    unfold Memory.Holds
    decide
  exact ⟨((base64_iff [77, 97, 110]).1.mpr ⟨by decide, by decide⟩).1 _ hheld, by decide⟩

/-- Two bytes, with one byte behind them in memory. -/
def twoBytes (behind : UInt8) : Memory := fun i => [77, 97].getD i behind

theorem base64_two_bytes :
    (twoBytes 255).Holds [77, 97] ∧ (twoBytes 0).Holds [77, 97] ∧ ¬EncodesTo [77, 97] (twoBytes 255) ∧
      base64Enc (twoBytes 255) 2 ≠ base64Enc (twoBytes 0) 2 := by
  refine ⟨?_, ?_, ?_, by decide +kernel⟩
  · unfold Memory.Holds
    decide
  · unfold Memory.Holds
    decide
  · unfold EncodesTo
    decide +kernel

end MasterAI
