import Mathlib.Data.Nat.ModEq
import Mathlib.Data.List.Nodup

namespace MasterAI

/-- The place `i` steps after `b` on a circle of `n` places. -/
def seat (n b i : Nat) : Nat := (b + i) % n

/-- The first place after `c` that satisfies `p`, among the next `k` places. -/
def cyclicScan (n : Nat) (p : Nat → Bool) : Nat → Nat → Option Nat
  | 0, _ => none
  | k + 1, c => if p ((c + 1) % n) then some ((c + 1) % n) else cyclicScan n p k ((c + 1) % n)

theorem seat_lt {n : Nat} (hn : 0 < n) (b i : Nat) : seat n b i < n := Nat.mod_lt _ hn

theorem seat_inj {n b i j : Nat} (hi : i < n) (hj : j < n) (h : seat n b i = seat n b j) : i = j :=
  (Nat.ModEq.add_left_cancel' b h).eq_of_lt_of_lt hi hj

theorem exists_seat {n b x : Nat} (hx : x < n) : ∃ i < n, seat n b i = x := by
  have hn : 0 < n := by omega
  have hb := Nat.mod_lt b hn
  by_cases h : b % n ≤ x
  · refine ⟨x - b % n, by omega, ?_⟩
    rw [seat, Nat.add_mod, Nat.mod_eq_of_lt (show x - b % n < n by omega),
      show b % n + (x - b % n) = x by omega, Nat.mod_eq_of_lt hx]
  · refine ⟨n + x - b % n, by omega, ?_⟩
    rw [seat, Nat.add_mod, Nat.mod_eq_of_lt (show n + x - b % n < n by omega),
      show b % n + (n + x - b % n) = n + x by omega, Nat.add_mod_left, Nat.mod_eq_of_lt hx]

theorem seat_seat (n b i j : Nat) : seat n (seat n b i) j = seat n b (i + j) := by
  simp [seat, Nat.add_assoc]

/-- A scan that starts just before the seat `k` of a numbering stops at the first later seat that
satisfies `p`. -/
theorem cyclicScan_spec {n : Nat} {p : Nat → Bool} {fuel c b k q : Nat}
    (hc : (c + 1) % n = seat n b k) (h : cyclicScan n p fuel c = some q) :
    ∃ j < fuel, q = seat n b (k + j) ∧ p q ∧ ∀ i < j, p (seat n b (k + i)) = false := by
  induction fuel generalizing c k with
  | zero => simp [cyclicScan] at h
  | succ fuel ih =>
    simp only [cyclicScan, hc] at h
    split at h
    next hp =>
      cases Option.some.inj h
      exact ⟨0, by omega, rfl, hp, by omega⟩
    next hp =>
      have hstep : (seat n b k + 1) % n = seat n b (k + 1) := seat_seat n b k 1
      obtain ⟨j, hj, hq, hpq, hskip⟩ := ih hstep h
      refine ⟨j + 1, by omega, by rw [hq]; congr 1; omega, hpq, ?_⟩
      intro i hi
      cases i with
      | zero => simpa using hp
      | succ i => rw [show k + (i + 1) = k + 1 + i by omega]; exact hskip i (by omega)

/-- A scan of at least a full circle fails only when nothing on the circle satisfies `p`. -/
theorem cyclicScan_none {n : Nat} {p : Nat → Bool} {fuel c x : Nat} (hfuel : n ≤ fuel)
    (hx : x < n) (h : cyclicScan n p fuel c = none) : p x = false := by
  have hskip : ∀ fuel c, cyclicScan n p fuel c = none → ∀ i < fuel, p (seat n (c + 1) i) = false := by
    intro fuel
    induction fuel with
    | zero => omega
    | succ fuel ih =>
      intro c h i hi
      simp only [cyclicScan] at h
      split at h
      next => simp at h
      next hp =>
        cases i with
        | zero => simpa [seat] using hp
        | succ i =>
          have hs := ih _ h i (by omega)
          have hshift : seat n ((c + 1) % n + 1) i = seat n (c + 1) (i + 1) := by
            rw [seat, Nat.add_assoc, Nat.mod_add_mod, Nat.add_comm 1 i, seat]
          rwa [hshift] at hs
  obtain ⟨i, hi, rfl⟩ := exists_seat (b := c + 1) hx
  exact hskip fuel c h i (by omega)

end MasterAI
