import MasterAI.RadixText
import Mathlib.Data.UInt

namespace MasterAI

def byteChar (b : UInt8) : Char := Char.ofNat b.toNat

/-- The text of a C string in an array of bytes. -/
def cText (bytes : List UInt8) : List Char := (bytes.takeWhile (· ≠ 0)).map byteChar

/-- The bytes that an encoded text keeps: letters, digits, `-` and `_`. -/
def KeptByte (b : UInt8) : Prop :=
  (97 ≤ b.toNat ∧ b.toNat ≤ 122) ∨ (65 ≤ b.toNat ∧ b.toNat ≤ 90) ∨ (48 ≤ b.toNat ∧ b.toNat ≤ 57) ∨ b = 45 ∨ b = 95

instance (b : UInt8) : Decidable (KeptByte b) := inferInstanceAs (Decidable (_ ∨ _))

/-- A digit of the conversion `%X`. -/
def hexByte (d : Nat) : UInt8 := if d < 10 then UInt8.ofNat (48 + d) else UInt8.ofNat (55 + d)

def urlEncodeByte (b : UInt8) : List UInt8 :=
  if KeptByte b then [b]
  else if b = 32 then [43]
  else [37, hexByte (b.toNat / 16), hexByte (b.toNat % 16)]

def maxBufSize : Nat := 1024 * 1024

/-- `URLencode`, which encodes less than a mebibyte of a text. -/
def urlEncode (strSrc : List UInt8) : List UInt8 :=
  let iSize := strSrc.length % 4294967296
  (strSrc.take (if iSize ≥ maxBufSize then maxBufSize - 1 else iSize)).flatMap urlEncodeByte

/-- The loop of `URLdecode`, which ends at a percent sign without two characters behind it. -/
def urlDecodeLoop : List UInt8 → List UInt8
  | [] => []
  | ucChar :: rest =>
    if ucChar = 37 then
      match rest with
      | a :: b :: rest => UInt8.ofInt (strtol 16 (cText [a, b])) :: urlDecodeLoop rest
      | _ => []
    else if ucChar = 43 then 32 :: urlDecodeLoop rest
    else ucChar :: urlDecodeLoop rest

/-- `URLdecode`, with the size in an `unsigned int`. -/
def urlDecode (strSrc : List UInt8) : List UInt8 := urlDecodeLoop (strSrc.take (strSrc.length % 4294967296))

def HexDigit (b : UInt8) : Prop := (48 ≤ b.toNat ∧ b.toNat ≤ 57) ∨ (65 ≤ b.toNat ∧ b.toNat ≤ 70)

/-- The texts of kept bytes, plus signs and triples of a percent sign and two hexadecimal digits. -/
inductive UrlText : List UInt8 → Prop
  | nil : UrlText []
  | kept {b rest} : KeptByte b → UrlText rest → UrlText (b :: rest)
  | plus {rest} : UrlText rest → UrlText (43 :: rest)
  | triple {a b rest} : HexDigit a → HexDigit b → UrlText rest → UrlText (37 :: a :: b :: rest)

theorem strtol_hexBytes : ∀ hi lo : Fin 16, strtol 16 (cText [hexByte hi, hexByte lo]) = 16 * hi + lo := by
  decide +kernel

theorem hexDigit_hexByte {d : Nat} (h : d < 16) : HexDigit (hexByte d) := by
  have hdigits : ∀ d : Fin 16, HexDigit (hexByte d) := by
    unfold HexDigit
    decide
  exact hdigits ⟨d, h⟩

theorem KeptByte.ne {b : UInt8} (h : KeptByte b) : b ≠ 37 ∧ b ≠ 43 := by
  constructor
  · rintro rfl
    exact absurd h (by decide)
  · rintro rfl
    exact absurd h (by decide)

theorem urlDecodeLoop_other {c : UInt8} (rest : List UInt8) (h : c ≠ 37) :
    urlDecodeLoop (c :: rest) = (if c = 43 then 32 else c) :: urlDecodeLoop rest := by
  rw [urlDecodeLoop.eq_def]
  dsimp only
  rw [if_neg h]
  split <;> rfl

theorem urlDecodeLoop_triple (a b : UInt8) (rest : List UInt8) :
    urlDecodeLoop (37 :: a :: b :: rest) = UInt8.ofInt (strtol 16 (cText [a, b])) :: urlDecodeLoop rest := by
  rw [urlDecodeLoop.eq_def]
  dsimp only
  rw [if_pos rfl]

/-- A byte encoded before any text is decoded back. -/
theorem urlDecodeLoop_encodeByte (b : UInt8) (rest : List UInt8) :
    urlDecodeLoop (urlEncodeByte b ++ rest) = b :: urlDecodeLoop rest := by
  unfold urlEncodeByte
  split
  next hkept => rw [List.singleton_append, urlDecodeLoop_other rest hkept.ne.1, if_neg hkept.ne.2]
  next =>
    split
    next hspace => rw [List.singleton_append, urlDecodeLoop_other rest (by decide), if_pos rfl, hspace]
    next =>
      have hlt : b.toNat < 256 := UInt8.toNat_lt b
      have hvalue : UInt8.ofInt (strtol 16 (cText [hexByte (b.toNat / 16), hexByte (b.toNat % 16)])) = b := by
        have hbytes := strtol_hexBytes ⟨b.toNat / 16, by omega⟩ ⟨b.toNat % 16, by omega⟩
        have hsum : 16 * ((b.toNat / 16 : Nat) : Int) + ((b.toNat % 16 : Nat) : Int) = (b.toNat : Int) := by omega
        have hmod : ((b.toNat : Int) % 2 ^ 8).toNat = b.toNat := by omega
        rw [hbytes, hsum, UInt8.ofInt, hmod, UInt8.ofNat_toNat]
      rw [List.cons_append, List.cons_append, List.cons_append, List.nil_append, urlDecodeLoop_triple, hvalue]

theorem urlDecodeLoop_flatMap (s : List UInt8) : urlDecodeLoop (s.flatMap urlEncodeByte) = s := by
  induction s with
  | nil => rfl
  | cons b s ih => rw [List.flatMap_cons, urlDecodeLoop_encodeByte, ih]

theorem urlText_encodeByte {b : UInt8} {rest : List UInt8} (h : UrlText rest) : UrlText (urlEncodeByte b ++ rest) := by
  have hlt : b.toNat < 256 := UInt8.toNat_lt b
  unfold urlEncodeByte
  split
  next hkept => exact .kept hkept h
  next =>
    split
    · exact .plus h
    · exact .triple (hexDigit_hexByte (by omega)) (hexDigit_hexByte (by omega)) h

theorem urlText_flatMap (s : List UInt8) : UrlText (s.flatMap urlEncodeByte) := by
  induction s with
  | nil => exact .nil
  | cons b s ih =>
    rw [List.flatMap_cons]
    exact urlText_encodeByte ih

theorem flatMap_encodeByte_length_le (s : List UInt8) : (s.flatMap urlEncodeByte).length ≤ 3 * s.length := by
  induction s with
  | nil => simp
  | cons b s ih =>
    have hbyte : (urlEncodeByte b).length ≤ 3 := by
      unfold urlEncodeByte
      split_ifs <;> simp
    rw [List.flatMap_cons, List.length_append, List.length_cons]
    omega

/-- A text below a mebibyte is decoded back from its encoding, which has kept bytes, plus signs and triples only. -/
theorem urlDecode_urlEncode {s : List UInt8} (h : s.length < 1024 * 1024) :
    urlDecode (urlEncode s) = s ∧ UrlText (urlEncode s) := by
  have hencode : urlEncode s = s.flatMap urlEncodeByte := by
    unfold urlEncode maxBufSize
    dsimp only
    rw [Nat.mod_eq_of_lt (by omega), if_neg (by omega), List.take_length]
  have hlength := flatMap_encodeByte_length_le s
  rw [hencode]
  refine ⟨?_, urlText_flatMap s⟩
  rw [urlDecode, Nat.mod_eq_of_lt (by omega), List.take_length, urlDecodeLoop_flatMap]

/-- A text of a percent sign, a plus sign, a space, a byte above 127 and a letter. -/
theorem urlDecode_urlEncode_signs : urlEncode [37, 43, 32, 200, 97] =
    [37, 50, 53, 37, 50, 66, 43, 37, 67, 56, 97] ∧ urlDecode (urlEncode [37, 43, 32, 200, 97]) = [37, 43, 32, 200, 97] :=
  ⟨by decide, (urlDecode_urlEncode (by decide)).1⟩

end MasterAI
