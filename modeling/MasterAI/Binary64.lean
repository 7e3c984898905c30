import Mathlib.Data.Int.Log
import Mathlib.Data.Rat.Floor
import Mathlib.Tactic.Linarith

namespace MasterAI

/-- The nearest integer, of two the even one. -/
def roundEven (x : ℚ) : ℤ :=
  if x - ⌊x⌋ < 1 / 2 ∨ x - ⌊x⌋ = 1 / 2 ∧ ⌊x⌋ % 2 = 0 then ⌊x⌋ else ⌊x⌋ + 1

/-- The exponent of the last of the 53 places of a number, or the least exponent that there is. -/
def lastPlace (x : ℚ) : ℤ := max (Int.log 2 |x| - 52) (-1074)

/-- The nearest number of 53 places. -/
def roundPlaces (x : ℚ) : ℚ := roundEven (x / 2 ^ lastPlace x) * 2 ^ lastPlace x

/-- A floating point number of 64 bits. There is one zero, which counts as positive where it divides. Results are rounded
to the places of the format, and a finite number that is given may have more. -/
inductive Double
  | finite (x : ℚ)
  | infinite (negative : Bool)
  | nan
  deriving DecidableEq, Repr

namespace Double

/-- A result after rounding, infinite where the exponent becomes too large. -/
def ofRat (x : ℚ) : Double :=
  if 2 ^ 1024 ≤ |roundPlaces x| then infinite (decide (x < 0)) else finite (roundPlaces x)

/-- The conversion of an integer of no more than 53 places, which is exact. -/
def ofInt (n : Int) : Double := finite n

def add : Double → Double → Double
  | finite x, finite y => ofRat (x + y)
  | finite _, infinite negative | infinite negative, finite _ => infinite negative
  | infinite negative, infinite other => if negative = other then infinite negative else nan
  | nan, _ | _, nan => nan

def mul : Double → Double → Double
  | finite x, finite y => ofRat (x * y)
  | finite x, infinite negative | infinite negative, finite x =>
    if x = 0 then nan else infinite (negative != decide (x < 0))
  | infinite negative, infinite other => infinite (negative != other)
  | nan, _ | _, nan => nan

def div : Double → Double → Double
  | finite x, finite y =>
    if y ≠ 0 then ofRat (x / y) else if x = 0 then nan else infinite (decide (x < 0))
  | finite _, infinite _ => finite 0
  | infinite negative, finite y => infinite (negative != decide (y < 0))
  | infinite _, infinite _ => nan
  | nan, _ | _, nan => nan

def lt : Double → Double → Bool
  | finite x, finite y => decide (x < y)
  | finite _, infinite negative => !negative
  | infinite negative, finite _ => negative
  | infinite negative, infinite other => negative && !other
  | nan, _ | _, nan => false

def le : Double → Double → Bool
  | finite x, finite y => decide (x ≤ y)
  | finite _, infinite negative => !negative
  | infinite negative, finite _ => negative
  | infinite negative, infinite other => negative || !other
  | nan, _ | _, nan => false

/-- The conversion to `unsigned int`, which is defined where the whole part fits. -/
def toUnsignedInt : Double → Option Nat
  | finite x => if -1 < x ∧ x < 4294967296 then some ⌊x⌋₊ else none
  | infinite _ | nan => none

end Double

theorem roundEven_le {x : ℚ} {n : ℤ} (h : x ≤ n) : roundEven x ≤ n := by
  have hfloor : ⌊x⌋ ≤ n := Int.floor_le_iff.mpr (lt_of_le_of_lt h (lt_add_one _))
  unfold roundEven
  split
  next => exact hfloor
  next hup =>
    by_contra hgt
    have heq : ⌊x⌋ = n := by omega
    have hrest : x - ⌊x⌋ = 0 := by
      have hle := Int.floor_le x
      rw [heq] at hle ⊢
      linarith
    apply hup
    rw [hrest]
    exact .inl (by norm_num)

/-- Rounding does not pass an integer of 53 places. -/
theorem roundPlaces_le {x : ℚ} {n : ℕ} (hn : n < 2 ^ 53) (h : x ≤ n) : roundPlaces x ≤ n := by
  have hplace : ∀ k : ℤ, (0 : ℚ) < 2 ^ k := fun k => zpow_pos (by norm_num) k
  unfold roundPlaces
  rcases le_or_gt x 0 with hneg | hpos
  · have hround : roundEven (x / 2 ^ lastPlace x) ≤ 0 := roundEven_le (by
      rw [Int.cast_zero]
      exact div_nonpos_of_nonpos_of_nonneg hneg (hplace _).le)
    have hcast : (roundEven (x / 2 ^ lastPlace x) : ℚ) ≤ 0 := by exact_mod_cast hround
    calc _ ≤ (0 : ℚ) := mul_nonpos_of_nonpos_of_nonneg hcast (hplace _).le
      _ ≤ n := Nat.cast_nonneg n
  · have hlog : Int.log 2 |x| < 53 := by
      rw [abs_of_pos hpos]
      refine (Int.lt_zpow_iff_log_lt (by decide) hpos).mp (lt_of_le_of_lt h ?_)
      exact_mod_cast hn
    obtain ⟨j, hj⟩ : ∃ j : ℕ, lastPlace x = -(j : ℤ) := by
      refine ⟨(-lastPlace x).toNat, ?_⟩
      unfold lastPlace
      omega
    have hunit : (2 : ℚ) ^ (-(j : ℤ)) * 2 ^ j = 1 := by
      rw [zpow_neg, zpow_natCast]
      exact inv_mul_cancel₀ (by positivity)
    rw [hj]
    have hround : roundEven (x / 2 ^ (-(j : ℤ))) ≤ (n * 2 ^ j : ℤ) := by
      refine roundEven_le ?_
      rw [zpow_neg, zpow_natCast, div_inv_eq_mul]
      push_cast
      exact mul_le_mul_of_nonneg_right h (by positivity)
    have hcast : (roundEven (x / 2 ^ (-(j : ℤ))) : ℚ) ≤ n * 2 ^ j := by exact_mod_cast hround
    calc (roundEven (x / 2 ^ (-(j : ℤ))) : ℚ) * 2 ^ (-(j : ℤ))
        ≤ n * 2 ^ j * 2 ^ (-(j : ℤ)) := mul_le_mul_of_nonneg_right hcast (hplace _).le
      _ = n * (2 ^ (-(j : ℤ)) * 2 ^ j) := by ring
      _ = n := by rw [hunit, mul_one]

namespace Double

/-- The product of an integer and a number that does not reach one does not pass the integer. -/
theorem mul_ofInt_le {m : ℕ} {x : ℚ} {y : Double} (hm : m < 2 ^ 53) (hy : (ofInt 1).le y = false)
    (h : (ofInt m).mul y = finite x) : x ≤ m := by
  cases y with
  | finite q =>
    have hq : q < 1 := by
      simpa [ofInt, le] using hy
    simp only [ofInt, mul, ofRat, Int.cast_natCast] at h
    split at h
    next => cases h
    next =>
      cases h
      exact roundPlaces_le hm (mul_le_of_le_one_right (Nat.cast_nonneg m) hq.le)
  | infinite negative =>
    simp only [ofInt, mul] at h
    split at h
    next => cases h
    next => cases h
  | nan => cases h

theorem toUnsignedInt_eq_some {x : Double} {n : ℕ} (h : x.toUnsignedInt = some n) : ∃ q, x = finite q ∧ n = ⌊q⌋₊ := by
  cases x with
  | finite q =>
    simp only [toUnsignedInt] at h
    split at h
    next => exact ⟨q, rfl, (Option.some.inj h).symm⟩
    next => cases h
  | infinite negative => cases h
  | nan => cases h

/-- The conversion of such a product is defined exactly where it is a number above minus one, and does not pass the
integer. -/
theorem toUnsignedInt_mul_ofInt {m : ℕ} {y : Double} (hm : m < 4294967296) (hy : (ofInt 1).le y = false) :
    (((ofInt m).mul y).toUnsignedInt.isSome ↔ ∃ x, (ofInt m).mul y = finite x ∧ -1 < x) ∧
      ∀ n, ((ofInt m).mul y).toUnsignedInt = some n → n ≤ m := by
  have hle : ∀ x, (ofInt m).mul y = finite x → x ≤ m := fun x => mul_ofInt_le (by omega) hy
  refine ⟨?_, ?_⟩
  · cases hmul : (ofInt m).mul y with
    | finite x =>
      have hupper : x < 4294967296 := lt_of_le_of_lt (hle x hmul) (by exact_mod_cast hm)
      by_cases hlow : -1 < x
      · simp [toUnsignedInt, hlow, hupper]
      · simp [toUnsignedInt, hlow]
    | infinite negative => simp [toUnsignedInt]
    | nan => simp [toUnsignedInt]
  · intro n hn
    obtain ⟨x, hx, rfl⟩ := toUnsignedInt_eq_some hn
    exact Nat.floor_le_of_le (hle x hx)

/-- Minus a third is rounded towards zero, and its product with three to minus one, which has no conversion. -/
example : (ofInt 3).mul (ofRat (-1 / 3)) = ofInt (-1) ∧ ((ofInt 3).mul (ofRat (-1 / 3))).toUnsignedInt = none := by
  decide +kernel

end Double

end MasterAI
