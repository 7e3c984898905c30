import MasterAI.WrapInt32
import Mathlib.Algebra.GroupWithZero.Nat

namespace MasterAI

/-- The text of an unsigned number, as `%u` prints it. -/
def printNat (n : Nat) : List Char := Nat.toDigits 10 n

/-- The text of a signed number, as `%d` prints it. -/
def printInt (x : Int) : List Char := if x < 0 then '-' :: printNat x.natAbs else printNat x.natAbs

def isSpace (c : Char) : Bool := c = ' ' || (9 ≤ c.toNat && c.toNat ≤ 13)

def skipSpaces (text : List Char) : List Char := text.dropWhile isSpace

/-- The sign and the magnitude of a number of a `scanf` conversion, with the text after it. -/
def scanNumber (text : List Char) : Option (Bool × Nat × List Char) :=
  let text := skipSpaces text
  let negative := text.head? = some '-'
  let body := if text.head? = some '-' ∨ text.head? = some '+' then text.tail else text
  let digits := body.takeWhile Char.isDigit
  if digits = [] then none
  else some (negative, Nat.ofDigitChars 10 digits 0, body.dropWhile Char.isDigit)

/-- The conversion `%d` into a 32-bit integer: the value saturates at 64 bits and is cut to 32. -/
def scanInt32 (text : List Char) : Option (Int × List Char) :=
  (scanNumber text).map fun (negative, n, rest) =>
    (wrapInt32 (if negative then -(min n 9223372036854775808 : Nat) else (min n 9223372036854775807 : Nat)),
      rest)

/-- The conversions `%u` and `%hhu` into an unsigned integer of `width` bits. -/
def scanUnsigned (width : Nat) (text : List Char) : Option (Nat × List Char) :=
  (scanNumber text).map fun (negative, n, rest) =>
    ((if 18446744073709551615 < n then 18446744073709551615
      else if negative then (18446744073709551616 - n) % 18446744073709551616 else n) % 2 ^ width, rest)

/-- The text does not continue a number. -/
def StopsNumber (rest : List Char) : Prop := ∀ c ∈ rest.head?, c.isDigit = false

theorem printNat_digits {n : Nat} : ∀ c ∈ printNat n, c.isDigit = true :=
  fun _ hc => Nat.isDigit_of_mem_toDigits (by omega) (by omega) hc

theorem printNat_ne_nil (n : Nat) : printNat n ≠ [] := Nat.toDigits_ne_nil

theorem printNat_length_le {n k : Nat} (hk : 0 < k) : (printNat n).length ≤ k ↔ n < 10 ^ k :=
  Nat.length_toDigits_le_iff (by omega) hk

theorem takeWhile_digits {digits rest : List Char} (hd : ∀ c ∈ digits, c.isDigit = true)
    (hr : StopsNumber rest) :
    (digits ++ rest).takeWhile Char.isDigit = digits ∧ (digits ++ rest).dropWhile Char.isDigit = rest := by
  rw [List.takeWhile_append_of_pos hd, List.dropWhile_append_of_pos hd]
  cases rest with
  | nil => simp
  | cons c rest => simp [hr c rfl]

theorem not_isSpace_of_isDigit {c : Char} (h : c.isDigit = true) : isSpace c = false := by
  simp only [Char.isDigit, Bool.and_eq_true, decide_eq_true_eq, ge_iff_le, UInt32.le_iff_toNat_le] at h
  have hlow : 48 ≤ c.toNat := h.1
  have hne : c ≠ ' ' := by
    rintro rfl
    revert hlow
    decide
  simp only [isSpace, hne, decide_false, Bool.false_or, Bool.and_eq_false_iff, decide_eq_false_iff_not]
  omega

theorem scanNumber_digits {digits rest : List Char} (hd : ∀ c ∈ digits, c.isDigit = true) (hne : digits ≠ [])
    (hr : StopsNumber rest) :
    scanNumber (digits ++ rest) = some (false, Nat.ofDigitChars 10 digits 0, rest) := by
  obtain ⟨htake, hdrop⟩ := takeWhile_digits hd hr
  cases digits with
  | nil => exact absurd rfl hne
  | cons c digits =>
    have hc : c.isDigit = true := hd c (by simp)
    have hminus : c ≠ '-' := by rintro rfl; revert hc; decide
    have hplus : c ≠ '+' := by rintro rfl; revert hc; decide
    simp only [List.cons_append] at htake hdrop ⊢
    simp [scanNumber, skipSpaces, not_isSpace_of_isDigit hc, hminus, hplus, htake, hdrop]

theorem scanNumber_printNat {n : Nat} {rest : List Char} (hr : StopsNumber rest) :
    scanNumber (printNat n ++ rest) = some (false, n, rest) := by
  have hvalue : Nat.ofDigitChars 10 (printNat n) 0 = n := Nat.ofDigitChars_ten_toDigits
  rw [scanNumber_digits printNat_digits (printNat_ne_nil n) hr, hvalue]

theorem scanNumber_printNat_minus {n : Nat} {rest : List Char} (hr : StopsNumber rest) :
    scanNumber ('-' :: printNat n ++ rest) = some (true, n, rest) := by
  obtain ⟨htake, hdrop⟩ := takeWhile_digits (printNat_digits (n := n)) hr
  have hvalue : Nat.ofDigitChars 10 (printNat n) 0 = n := Nat.ofDigitChars_ten_toDigits
  have hspace : isSpace '-' = false := by decide
  simp [scanNumber, skipSpaces, hspace, htake, hdrop, hvalue, printNat_ne_nil]

theorem scanInt32_digits {digits rest : List Char} (hd : ∀ c ∈ digits, c.isDigit = true) (hne : digits ≠ [])
    (hfits : FitsInt32 (Nat.ofDigitChars 10 digits 0)) (hr : StopsNumber rest) :
    scanInt32 (digits ++ rest) = some (((Nat.ofDigitChars 10 digits 0 : Nat) : Int), rest) := by
  have hwrap := wrapInt32_eq hfits
  unfold FitsInt32 int32Max at hfits
  unfold scanInt32
  rw [scanNumber_digits hd hne hr]
  generalize Nat.ofDigitChars 10 digits 0 = n at hfits hwrap ⊢
  simp only [Option.map_some, Bool.false_eq_true, if_false]
  rw [show ((min n 9223372036854775807 : Nat) : Int) = n by omega, hwrap]

theorem scanInt32_printInt {x : Int} (hx : FitsInt32 x) {rest : List Char} (hr : StopsNumber rest) :
    scanInt32 (printInt x ++ rest) = some (x, rest) := by
  have hwrap := wrapInt32_eq hx
  unfold FitsInt32 int32Max at hx
  unfold printInt scanInt32
  split
  next hneg =>
    rw [scanNumber_printNat_minus hr]
    simp only [Option.map_some, if_true]
    rw [show -((min x.natAbs 9223372036854775808 : Nat) : Int) = x by omega, hwrap]
  next hpos =>
    rw [scanNumber_printNat hr]
    simp only [Option.map_some, Bool.false_eq_true, if_false]
    rw [show ((min x.natAbs 9223372036854775807 : Nat) : Int) = x by omega, hwrap]

theorem scanUnsigned_printNat (width : Nat) {n : Nat} (hn : n < 2 ^ width) (hwidth : n ≤ 18446744073709551615)
    {rest : List Char} (hr : StopsNumber rest) :
    scanUnsigned width (printNat n ++ rest) = some (n, rest) := by
  simp [scanUnsigned, scanNumber_printNat hr, show ¬18446744073709551615 < n by omega,
    Nat.mod_eq_of_lt hn]

end MasterAI
