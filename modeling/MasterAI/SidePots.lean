import Mathlib.Algebra.Order.Field.Rat
import Mathlib.Algebra.BigOperators.Group.List.Lemmas
import Mathlib.Algebra.Order.BigOperators.Group.List
import Mathlib.Tactic.FieldSimp
import Mathlib.Tactic.Linarith
import Mathlib.Tactic.Ring

namespace MasterAI

/-- A stake in a pot with the strength of the claim on it; a negative strength claims nothing. -/
abbrev Stake := Int × Int

namespace SidePot

def smallest (cap : Int) (pot : List Stake) : Int := pot.foldl (fun m e => min m e.1) cap

def rankFrom (w : Int) (pot : List Stake) : Int := pot.foldl (fun w e => max w e.2) w

def topRank (pot : List Stake) : Int := rankFrom 0 pot

def winners (pot : List Stake) : Nat := pot.countP fun e => e.2 = topRank pot

/-- What one layer of height `size` brings to a claim of strength `rank`. -/
def gain (size : Int) (pot : List Stake) (rank : Int) : ℚ :=
  if rank = topRank pot then (size * ((pot.length : Int) - winners pot) : Int) / (winners pot : ℚ)
  else -size

/-- The stakes that reach above a layer of height `size`. -/
def above (size : Int) (pot : List Stake) : List Stake :=
  (pot.map fun e => (e.1 - size, e.2)).filter fun e => e.1 ≠ 0

/-- The total outcome of a claim: its gain in the lowest layer and in the layers above it, as far
as its own stake reaches. -/
def share (cap : Int) : Nat → List Stake → Stake → ℚ
  | 0, _, _ => 0
  | fuel + 1, pot, e =>
    gain (smallest cap pot) pot e.2 +
      if e.1 = smallest cap pot then 0
      else share cap fuel (above (smallest cap pot) pot) (e.1 - smallest cap pot, e.2)

/-- All claims together against the stakes that claim nothing. -/
def balance (cap : Int) (fuel : Nat) (pot : List Stake) : ℚ :=
  ((pot.filter fun e => 0 ≤ e.2).map (share cap fuel pot)).sum -
    ((pot.filter fun e => e.2 < 0).map fun e => (e.1 : ℚ)).sum

def Covered (pot : List Stake) : Prop :=
  ∀ e ∈ pot, e.2 < 0 → ∃ c ∈ pot, 0 ≤ c.2 ∧ e.1 ≤ c.1

theorem smallest_le_cap (cap : Int) (pot : List Stake) : smallest cap pot ≤ cap := by
  unfold smallest
  induction pot generalizing cap with
  | nil => simp
  | cons e pot ih => exact (ih (min cap e.1)).trans (min_le_left _ _)

theorem smallest_le (cap : Int) {pot : List Stake} {e : Stake} (he : e ∈ pot) :
    smallest cap pot ≤ e.1 := by
  unfold smallest
  induction pot generalizing cap with
  | nil => simp at he
  | cons x pot ih =>
    rcases List.mem_cons.mp he with rfl | he
    · exact (smallest_le_cap (min cap e.1) pot).trans (min_le_right _ _)
    · exact ih _ he

theorem smallest_mem (cap : Int) (pot : List Stake) :
    smallest cap pot = cap ∨ ∃ e ∈ pot, smallest cap pot = e.1 := by
  unfold smallest
  induction pot generalizing cap with
  | nil => simp
  | cons x pot ih =>
    rcases ih (min cap x.1) with h | ⟨e, he, h⟩
    · rcases min_choice cap x.1 with hm | hm
      · left; simpa [hm] using h
      · right; exact ⟨x, by simp, by simpa [hm] using h⟩
    · right; exact ⟨e, by simp [he], h⟩

/-- With a cap no stake exceeds, some stake has exactly the height of the lowest layer. -/
theorem smallest_attained {cap : Int} {pot : List Stake} (hne : pot ≠ [])
    (hcap : ∀ e ∈ pot, e.1 ≤ cap) : ∃ e ∈ pot, e.1 = smallest cap pot := by
  rcases smallest_mem cap pot with h | ⟨e, he, h⟩
  · obtain ⟨e, he⟩ := List.exists_mem_of_ne_nil pot hne
    have := smallest_le cap he
    have := hcap e he
    exact ⟨e, he, by omega⟩
  · exact ⟨e, he, h.symm⟩

theorem rankFrom_cons (w : Int) (e : Stake) (pot : List Stake) :
    rankFrom w (e :: pot) = rankFrom (max w e.2) pot := rfl

theorem le_rankFrom (w : Int) (pot : List Stake) : w ≤ rankFrom w pot := by
  induction pot generalizing w with
  | nil => exact le_rfl
  | cons e pot ih => exact (le_max_left _ _).trans (ih (max w e.2))

theorem topRank_nonneg (pot : List Stake) : 0 ≤ topRank pot := le_rankFrom 0 pot

theorem mem_le_rankFrom {w : Int} {pot : List Stake} {e : Stake} (he : e ∈ pot) :
    e.2 ≤ rankFrom w pot := by
  induction pot generalizing w with
  | nil => simp at he
  | cons x pot ih =>
    rcases List.mem_cons.mp he with rfl | he
    · exact (le_max_right _ _).trans (le_rankFrom _ pot)
    · exact ih he

theorem rankFrom_mem (w : Int) (pot : List Stake) :
    rankFrom w pot = w ∨ ∃ e ∈ pot, e.2 = rankFrom w pot := by
  induction pot generalizing w with
  | nil => left; rfl
  | cons x pot ih =>
    rw [rankFrom_cons]
    rcases ih (w := max w x.2) with h | ⟨e, he, h⟩
    · rcases max_choice w x.2 with hm | hm
      · left; rw [h, hm]
      · right; exact ⟨x, by simp, by rw [h, hm]⟩
    · right; exact ⟨e, by simp [he], h⟩

/-- A pot with a claim on it has a winner, and every winner has a claim. -/
theorem winners_pos {pot : List Stake} {c : Stake} (hc : c ∈ pot) (h0 : 0 ≤ c.2) :
    0 < winners pot := by
  apply List.countP_pos_iff.mpr
  rcases rankFrom_mem 0 pot with h | ⟨e, he, h⟩
  · refine ⟨c, hc, ?_⟩
    have := mem_le_rankFrom (w := 0) hc
    exact decide_eq_true (by unfold topRank; omega)
  · exact ⟨e, he, decide_eq_true h⟩

theorem winners_claim {pot : List Stake} :
    (pot.filter fun e => 0 ≤ e.2).countP (fun e => e.2 = topRank pot) = winners pot := by
  rw [List.countP_filter]
  apply List.countP_congr
  intro e _
  have := topRank_nonneg pot
  simp only [Bool.and_eq_true, decide_eq_true_eq]
  omega

theorem sum_map_ite {α : Type*} (p : α → Prop) [DecidablePred p] (x y : ℚ) (l : List α) :
    (l.map fun a => if p a then x else y).sum =
      l.countP (p ·) * x + ((l.length : ℚ) - l.countP (p ·)) * y := by
  induction l with
  | nil => simp
  | cons a l ih =>
    simp only [List.map_cons, List.sum_cons, ih, List.countP_cons, List.length_cons]
    split_ifs <;> simp_all <;> ring

/-- The winners of a layer receive together what the losing claims and the empty claims paid. -/
theorem sum_gain {pot : List Stake} {size : Int} {c : Stake} (hc : c ∈ pot) (h0 : 0 ≤ c.2) :
    ((pot.filter fun e => 0 ≤ e.2).map fun e => gain size pot e.2).sum =
      size * (pot.filter fun e => e.2 < 0).length := by
  have hw : (winners pot : ℚ) ≠ 0 := by
    have := winners_pos hc h0
    positivity
  have hlen : (pot.length : ℚ) =
      (pot.filter fun e => 0 ≤ e.2).length + (pot.filter fun e => e.2 < 0).length := by
    have := List.length_eq_length_filter_add (l := pot) fun e => decide (0 ≤ e.2)
    simp only [← decide_not, not_le] at this
    exact_mod_cast this
  unfold gain
  rw [sum_map_ite (fun e : Stake => e.2 = topRank pot), winners_claim]
  push_cast
  rw [hlen]
  field_simp
  ring

theorem mem_above {size : Int} {pot : List Stake} {e : Stake} :
    e ∈ above size pot ↔ (e.1 + size, e.2) ∈ pot ∧ e.1 ≠ 0 := by
  simp only [above, List.mem_filter, List.mem_map, decide_eq_true_eq]
  constructor
  · rintro ⟨⟨x, hx, rfl⟩, hne⟩
    exact ⟨by simpa using hx, hne⟩
  · rintro ⟨hx, hne⟩
    exact ⟨⟨_, hx, by simp⟩, hne⟩

theorem above_length_lt {size : Int} {pot : List Stake} {e : Stake} (he : e ∈ pot)
    (hs : e.1 = size) : (above size pot).length < pot.length := by
  have hm : (e.1 - size, e.2) ∈ pot.map fun e => (e.1 - size, e.2) := List.mem_map.mpr ⟨e, he, rfl⟩
  have h : (above size pot).length < (pot.map fun e => (e.1 - size, e.2)).length :=
    List.length_filter_lt_length_iff_exists.mpr ⟨_, hm, by simp [hs]⟩
  simpa using h

theorem sum_above (size : Int) (claim : Int → Bool) (f : Stake → ℚ) (pot : List Stake) :
    (((above size pot).filter fun e => claim e.2).map f).sum =
      ((pot.filter fun e => claim e.2).map fun e =>
        if e.1 = size then 0 else f (e.1 - size, e.2)).sum := by
  induction pot with
  | nil => rfl
  | cons e pot ih =>
    by_cases hs : e.1 = size <;> by_cases hc : claim e.2 = true <;>
      simp_all [above, sub_eq_zero]

theorem sum_claims_above {cap : Int} {fuel : Nat} {pot : List Stake} {c : Stake}
    (hc : c ∈ pot) (h0 : 0 ≤ c.2) :
    ((pot.filter fun e => 0 ≤ e.2).map (share cap (fuel + 1) pot)).sum =
      smallest cap pot * (pot.filter fun e => e.2 < 0).length +
        (((above (smallest cap pot) pot).filter fun e => 0 ≤ e.2).map
          (share cap fuel (above (smallest cap pot) pot))).sum := by
  rw [sum_above _ (fun r => decide (0 ≤ r)), ← sum_gain hc h0, ← List.sum_map_add]
  rfl

theorem sum_stakes_above (size : Int) (pot : List Stake) :
    (((above size pot).filter fun e => e.2 < 0).map fun e => (e.1 : ℚ)).sum =
      ((pot.filter fun e => e.2 < 0).map fun e => (e.1 : ℚ)).sum -
        size * (pot.filter fun e => e.2 < 0).length := by
  rw [sum_above _ (fun r => decide (r < 0))]
  generalize (pot.filter fun e => e.2 < 0) = rest
  induction rest with
  | nil => simp
  | cons e rest ih =>
    simp only [List.map_cons, List.sum_cons, ih, List.length_cons]
    split
    next hs => push_cast [hs]; ring
    next => push_cast; ring

/-- Paying out one layer leaves the balance of the stakes above it. -/
theorem balance_above {cap : Int} {fuel : Nat} {pot : List Stake} {c : Stake}
    (hc : c ∈ pot) (h0 : 0 ≤ c.2) :
    balance cap (fuel + 1) pot = balance cap fuel (above (smallest cap pot) pot) := by
  unfold balance
  rw [sum_claims_above hc h0, sum_stakes_above]
  ring

theorem covered_above {size : Int} {pot : List Stake} {c : Stake}
    (hc : c ∈ pot) (h0 : 0 ≤ c.2) (low : ∀ e ∈ pot, size ≤ e.1) :
    Covered (above size pot) ↔ Covered pot := by
  constructor
  · intro h e he hr
    by_cases hs : e.1 = size
    · exact ⟨c, hc, h0, hs ▸ low c hc⟩
    · obtain ⟨d, hd, hd0, hle⟩ :=
        h (e.1 - size, e.2) (mem_above.mpr ⟨by simpa using he, by simpa [sub_eq_zero] using hs⟩) hr
      exact ⟨_, (mem_above.mp hd).1, hd0, by simp only at hle ⊢; omega⟩
  · intro h e he hr
    obtain ⟨hm, hne⟩ := mem_above.mp he
    have hlow := low _ hm
    obtain ⟨d, hd, hd0, hle⟩ := h _ hm hr
    simp only at hle hlow
    refine ⟨(d.1 - size, d.2), mem_above.mpr ⟨by simpa using hd, ?_⟩, hd0, ?_⟩ <;>
      simp only <;> omega

/-- A pot that nobody claims is lost. -/
theorem balance_unclaimed {cap : Int} {fuel : Nat} {pot : List Stake} (pos : ∀ e ∈ pot, 0 < e.1)
    (hneg : ∀ e ∈ pot, e.2 < 0) : balance cap (fuel + 1) pot = 0 ↔ Covered pot := by
  have hclaims : (pot.filter fun e => decide (0 ≤ e.2)) = [] := by
    apply List.filter_eq_nil_iff.mpr
    intro e he
    have := hneg e he
    simp; omega
  have hrest : (pot.filter fun e => decide (e.2 < 0)) = pot := by
    apply List.filter_eq_self.mpr
    intro e he
    simpa using hneg e he
  simp only [balance, hclaims, hrest, List.map_nil, List.sum_nil, zero_sub, neg_eq_zero]
  constructor
  · intro hsum e he _
    have hlt : 0 < (pot.map fun e => (e.1 : ℚ)).sum := by
      apply List.sum_pos _ _ (by simpa using List.ne_nil_of_mem he)
      intro x hx
      obtain ⟨y, hy, rfl⟩ := List.mem_map.mp hx
      exact_mod_cast pos y hy
    exact absurd hsum hlt.ne'
  · intro h
    have hn : pot = [] := by
      apply List.eq_nil_iff_forall_not_mem.mpr
      intro e he
      obtain ⟨c, hc, h0, -⟩ := h e he (hneg e he)
      have := hneg c hc
      omega
    simp [hn]

/-- Chips are conserved exactly when no stake without a claim reaches above all claims. -/
theorem balance_eq_zero_iff {cap : Int} {fuel : Nat} {pot : List Stake}
    (enough : pot.length ≤ fuel) (pos : ∀ e ∈ pot, 0 < e.1) (hcap : ∀ e ∈ pot, e.1 ≤ cap) :
    balance cap fuel pot = 0 ↔ Covered pot := by
  induction fuel generalizing pot with
  | zero =>
    have hn : pot = [] := List.length_eq_zero_iff.mp (by omega)
    subst hn
    simp [balance, Covered]
  | succ fuel ih =>
    by_cases hclaim : ∃ c ∈ pot, 0 ≤ c.2
    · obtain ⟨c, hc, h0⟩ := hclaim
      obtain ⟨e, he, hsize⟩ := smallest_attained (List.ne_nil_of_mem hc) hcap
      have hpos := pos e he
      have hshort := above_length_lt he hsize
      rw [balance_above hc h0, ← covered_above hc h0 fun e he => smallest_le cap he]
      apply ih (by omega)
      · intro x hx
        obtain ⟨hm, hne⟩ := mem_above.mp hx
        have := smallest_le cap hm
        simp only at this
        omega
      · intro x hx
        have := hcap _ (mem_above.mp hx).1
        simp only at this
        omega
    · apply balance_unclaimed pos
      intro e he
      by_contra h
      exact hclaim ⟨e, he, by omega⟩

end SidePot

end MasterAI
