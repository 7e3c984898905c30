import Mathlib.Data.Int.Basic

namespace MasterAI

def int32Max : Int := 2147483647

/-- The value a 32-bit two's complement register holds after an exact result `x`. -/
def wrapInt32 (x : Int) : Int := Int.bmod x 4294967296

/-- The value of an unsigned 32-bit counter after exact arithmetic. -/
def uint32 (x : Int) : Nat := (x % 4294967296).toNat

def FitsInt32 (x : Int) : Prop := -2147483648 ≤ x ∧ x ≤ int32Max

theorem wrapInt32_eq {x : Int} (h : FitsInt32 x) : wrapInt32 x = x := by
  unfold FitsInt32 int32Max at h
  simp only [wrapInt32, Int.bmod_def]
  omega

theorem wrapInt32_fits (x : Int) : FitsInt32 (wrapInt32 x) := by
  simp only [FitsInt32, int32Max, wrapInt32, Int.bmod_def]
  omega

/-- One carry past the top of the range lands in the negative half. -/
theorem wrapInt32_overflow {x : Int} (lo : int32Max < x) (hi : x < 4294967296) :
    wrapInt32 x < 0 := by
  unfold int32Max at lo
  simp only [wrapInt32, Int.bmod_def]
  omega

end MasterAI
