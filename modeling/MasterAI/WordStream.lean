import Mathlib.Data.List.Range
import Mathlib.Logic.Function.Basic
import Mathlib.Logic.Function.Iterate

namespace MasterAI

section

variable {ρ α : Type*}

/-- The `n`-th output of a generator, counted from zero. -/
def output (next : ρ → α × ρ) (r : ρ) (n : Nat) : α := (next ((fun r => (next r).2)^[n] r)).1

theorem output_succ (next : ρ → α × ρ) (r : ρ) (n : Nat) : output next r (n + 1) = output next (next r).2 n := by
  rw [output, Function.iterate_succ_apply]
  rfl

end

section

variable {α : Type*} {size middle : Nat} {step : α → α → α → α} {seed words : Nat → α} {b : Nat}

/-- The words of a recurrence over `size` words: a word is made of the word `middle` places after the
start of its window, and of the first two words of that window. -/
def wordStream (size middle : Nat) (step : α → α → α → α) (seed : Nat → α) (n : Nat) : α :=
  if h : n < size ∨ size ≤ middle ∨ size < 2 then seed n
  else
    step (wordStream size middle step seed (n - size + middle)) (wordStream size middle step seed (n - size))
      (wordStream size middle step seed (n - size + 1))
termination_by n
decreasing_by all_goals omega

theorem wordStream_seed {n : Nat} (hn : n < size) : wordStream size middle step seed n = seed n := by
  rw [wordStream, dif_pos (Or.inl hn)]

theorem wordStream_next (hmiddle : middle < size) (hsize : 2 ≤ size) (n : Nat) :
    wordStream size middle step seed (size + n) =
      step (wordStream size middle step seed (n + middle)) (wordStream size middle step seed n)
        (wordStream size middle step seed (n + 1)) := by
  rw [wordStream, dif_neg (by omega), Nat.add_sub_cancel_left]

/-- Words that agree over a whole window agree from there on. -/
theorem wordStream_agree {seed' : Nat → α} {start start' : Nat} (hmiddle : middle < size) (hsize : 2 ≤ size)
    (hwindow : ∀ k < size, wordStream size middle step seed (start + k) = wordStream size middle step seed' (start' + k))
    (n : Nat) : wordStream size middle step seed (start + n) = wordStream size middle step seed' (start' + n) := by
  induction n using Nat.strong_induction_on with
  | _ n ih =>
    by_cases hn : n < size
    · exact hwindow n hn
    · have hplace : start + n = size + (start + (n - size)) := by omega
      have hplace' : start' + n = size + (start' + (n - size)) := by omega
      rw [hplace, hplace', wordStream_next hmiddle hsize, wordStream_next hmiddle hsize, Nat.add_assoc, Nat.add_assoc,
        Nat.add_assoc, Nat.add_assoc, ih (n - size + middle) (by omega), ih (n - size) (by omega),
        ih (n - size + 1) (by omega)]

/-- One word of a block is replaced by the word one block later. -/
def refillWord (size middle : Nat) (step : α → α → α → α) (words : Nat → α) (k : Nat) : Nat → α :=
  Function.update words k (step (words ((k + middle) % size)) (words k) (words ((k + 1) % size)))

/-- The words of a block after `m` of them were replaced. -/
def RefilledTo (size : Nat) (x : Nat → α) (b m : Nat) (words : Nat → α) : Prop :=
  ∀ k < size, words k = if k < m then x (b + size + k) else x (b + k)

theorem RefilledTo.succ {m : Nat} (hmiddle : middle < size) (hsize : 2 ≤ size) (hm : m < size)
    (h : RefilledTo size (wordStream size middle step seed) b m words) :
    RefilledTo size (wordStream size middle step seed) b (m + 1) (refillWord size middle step words m) := by
  -- a place that the loop has passed holds the word one block later, which the index modulo the size asks for
  have hread : ∀ d, d ≤ middle ∨ d = 1 → words ((m + d) % size) = wordStream size middle step seed (b + m + d) := by
    intro d hd
    have hdsize : d < size := by omega
    by_cases hwrap : m + d < size
    · rw [Nat.mod_eq_of_lt hwrap, h _ hwrap]
      by_cases hd0 : d = 0
      · rw [hd0, Nat.add_zero, if_neg (Nat.lt_irrefl m), Nat.add_zero]
      · rw [if_neg (by omega), Nat.add_assoc]
    · have hmod : (m + d) % size = m + d - size := by
        rw [Nat.mod_eq_sub_mod (by omega), Nat.mod_eq_of_lt (by omega)]
      rw [hmod, h _ (by omega), if_pos (by omega)]
      congr 1
      omega
  intro k hk
  by_cases hkm : k = m
  · have hhere := hread 0 (Or.inl (Nat.zero_le _))
    rw [Nat.add_zero, Nat.mod_eq_of_lt hm] at hhere
    rw [hkm, refillWord, Function.update_self, if_pos (Nat.lt_succ_self m), hread middle (Or.inl (Nat.le_refl _)), hhere,
      hread 1 (Or.inr rfl), Nat.add_comm b size, Nat.add_assoc size b m, wordStream_next hmiddle hsize, Nat.add_zero]
  · rw [refillWord, Function.update_of_ne hkm, h k hk]
    by_cases hlt : k < m
    · rw [if_pos hlt, if_pos (by omega)]
    · rw [if_neg hlt, if_neg (by omega)]

/-- Replacing the words of a block one by one, in place, moves it one block along the stream. -/
theorem refill_block (hmiddle : middle < size) (hsize : 2 ≤ size)
    (h : ∀ k < size, words k = wordStream size middle step seed (b + k)) :
    ∀ k < size, (List.range size).foldl (refillWord size middle step) words k =
      wordStream size middle step seed (b + size + k) := by
  have hrun : ∀ m ≤ size, RefilledTo size (wordStream size middle step seed) b m
      ((List.range m).foldl (refillWord size middle step) words) := by
    intro m hm
    induction m with
    | zero => exact fun k hk => h k hk
    | succ m ih =>
      rw [List.range_succ, List.foldl_append]
      exact RefilledTo.succ hmiddle hsize (by omega) (ih (by omega))
  intro k hk
  rw [hrun size (Nat.le_refl _) k hk, if_pos hk]

end

section

variable {w : Nat} {x y : BitVec w}

/-- A word is recovered from itself xored with a masked shift to the right, the highest bits first. -/
theorem xor_shiftRight_inj {k : Nat} (mask : BitVec w) (hk : 0 < k)
    (h : x ^^^ ((x >>> k) &&& mask) = y ^^^ ((y >>> k) &&& mask)) : x = y := by
  have hbits : ∀ n i, w ≤ i + n → x.getLsbD i = y.getLsbD i := by
    intro n
    induction n with
    | zero =>
      intro i hi
      rw [BitVec.getLsbD_of_ge x i hi, BitVec.getLsbD_of_ge y i hi]
    | succ n ih =>
      intro i hi
      have hbit := congrArg (fun z => z.getLsbD i) h
      simp only [BitVec.getLsbD_xor, BitVec.getLsbD_and, BitVec.getLsbD_ushiftRight] at hbit
      rw [ih (k + i) (by omega)] at hbit
      exact Bool.xor_left_inj.mp hbit
  exact BitVec.eq_of_getLsbD_eq fun i _ => hbits w i (by omega)

/-- A word is recovered from itself xored with a masked shift to the left, the lowest bits first. -/
theorem xor_shiftLeft_inj {k : Nat} (mask : BitVec w) (hk : 0 < k)
    (h : x ^^^ ((x <<< k) &&& mask) = y ^^^ ((y <<< k) &&& mask)) : x = y := by
  have hbits : ∀ i, x.getLsbD i = y.getLsbD i := by
    intro i
    induction i using Nat.strong_induction_on with
    | _ i ih =>
      have hbit := congrArg (fun z => z.getLsbD i) h
      simp only [BitVec.getLsbD_xor, BitVec.getLsbD_and, BitVec.getLsbD_shiftLeft] at hbit
      by_cases hki : i < k
      · simpa [hki] using hbit
      · rw [ih (i - k) (by omega)] at hbit
        exact Bool.xor_left_inj.mp hbit
  exact BitVec.eq_of_getLsbD_eq fun i _ => hbits i

end

end MasterAI
