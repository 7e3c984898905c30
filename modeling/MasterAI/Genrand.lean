import MasterAI.WordStream

namespace MasterAI

def rngN : Nat := 624
def rngM : Nat := 397
def matrixA : BitVec 32 := 0x9908b0df#32
def upperMask : BitVec 32 := 0x80000000#32
def lowerMask : BitVec 32 := 0x7fffffff#32

/-- The words of `rng_state_t`. -/
abbrev RngWords := Vector (BitVec 32) rngN

namespace RngWords

def word (mt : RngWords) (i : Nat) : BitVec 32 := mt[i]?.getD 0#32

def put (mt : RngWords) (i : Nat) (x : BitVec 32) : RngWords := mt.setIfInBounds i x

theorem word_put {mt : RngWords} {i : Nat} (hi : i < rngN) (x : BitVec 32) :
    (mt.put i x).word = Function.update mt.word i x := by
  funext j
  unfold word put
  by_cases hji : j = i
  · rw [hji, Function.update_self, Vector.getElem?_setIfInBounds_self_of_lt hi, Option.getD_some]
  · rw [Function.update_of_ne hji, Vector.getElem?_setIfInBounds_ne (fun h => hji h.symm)]

end RngWords

structure RngState where
  mt : RngWords
  mti : Nat

def initGenrandWord (mt : RngWords) (i : Nat) : RngWords :=
  mt.put i (1812433253#32 * (mt.word (i - 1) ^^^ (mt.word (i - 1) >>> 30)) + BitVec.ofNat 32 i)

def initGenrand (state : RngState) (s : BitVec 32) : RngState where
  mt := (List.range' 1 (rngN - 1)).foldl initGenrandWord (state.mt.put 0 s)
  mti := rngN

/-- What the loops of `init_by_array` carry along: the words and the places in them and in the key. -/
structure KeyMixing where
  mt : RngWords
  i : Nat
  j : Nat

namespace KeyMixing

/-- The end of a pass: the next word, which is the second one again after the last. -/
def nextWord (m : KeyMixing) : KeyMixing :=
  if m.i + 1 ≥ rngN then { m with mt := m.mt.put 0 (m.mt.word (rngN - 1)), i := 1 } else { m with i := m.i + 1 }

/-- A pass of the first loop. -/
def mixKey (initKey : List (BitVec 32)) (m : KeyMixing) : KeyMixing :=
  let word := (m.mt.word m.i ^^^ ((m.mt.word (m.i - 1) ^^^ (m.mt.word (m.i - 1) >>> 30)) * 1664525#32)) +
    initKey.getD m.j 0#32 + BitVec.ofNat 32 m.j
  { nextWord { m with mt := m.mt.put m.i word } with j := if m.j + 1 ≥ initKey.length then 0 else m.j + 1 }

/-- A pass of the second loop. -/
def mixPlace (m : KeyMixing) : KeyMixing :=
  let word := (m.mt.word m.i ^^^ ((m.mt.word (m.i - 1) ^^^ (m.mt.word (m.i - 1) >>> 30)) * 1566083941#32)) -
    BitVec.ofNat 32 m.i
  nextWord { m with mt := m.mt.put m.i word }

end KeyMixing

/-- The key must not be empty: the source reads `init_key[0]` in every pass, where this adds 0. -/
def initByArray (state : RngState) (initKey : List (BitVec 32)) : RngState :=
  let state := initGenrand state 19650218#32
  let mixed := (KeyMixing.mixKey initKey)^[max rngN initKey.length] { mt := state.mt, i := 1, j := 0 }
  let mixed := KeyMixing.mixPlace^[rngN - 1] mixed
  { state with mt := mixed.mt.put 0 (mixed.mt.word 0 ||| 0x80000000#32) }

def mag01 (x : BitVec 32) : BitVec 32 := if x = 0#32 then 0#32 else matrixA

/-- The word that takes the place of `here`. -/
def twist (far here next : BitVec 32) : BitVec 32 :=
  let y := (here &&& upperMask) ||| (next &&& lowerMask)
  far ^^^ (y >>> 1) ^^^ mag01 (y &&& 1#32)

def twistWord (mt : RngWords) (kk far next : Nat) : RngWords :=
  mt.put kk (twist (mt.word far) (mt.word kk) (mt.word next))

/-- The loops that make 624 words at one time. -/
def generateWords (mt : RngWords) : RngWords :=
  let mt := (List.range (rngN - rngM)).foldl (fun mt kk => twistWord mt kk (kk + rngM) (kk + 1)) mt
  let mt := (List.range' (rngN - rngM) (rngM - 1)).foldl
    (fun mt kk => twistWord mt kk (kk - (rngN - rngM)) (kk + 1)) mt
  twistWord mt (rngN - 1) (rngM - 1) 0

def temper (y : BitVec 32) : BitVec 32 :=
  let y := y ^^^ (y >>> 11)
  let y := y ^^^ ((y <<< 7) &&& 0x9d2c5680#32)
  let y := y ^^^ ((y <<< 15) &&& 0xefc60000#32)
  y ^^^ (y >>> 18)

def genrandInt32 (state : RngState) : BitVec 32 × RngState :=
  let state := if state.mti = rngN then { mt := generateWords state.mt, mti := 0 } else state
  (temper (state.mt.word state.mti), { state with mti := state.mti + 1 })

/-- The words that the generator goes through, by its recurrence. -/
def genrandStream (seed : RngWords) : Nat → BitVec 32 := wordStream rngN rngM twist seed.word

/-- A loop that twists word after word, with the places of the other two words. -/
theorem word_foldl_twistWord {l : List Nat} (hl : ∀ kk ∈ l, kk < rngN) {far next : Nat → Nat}
    (hfar : ∀ kk ∈ l, far kk = (kk + rngM) % rngN) (hnext : ∀ kk ∈ l, next kk = (kk + 1) % rngN) (mt : RngWords) :
    (l.foldl (fun mt kk => twistWord mt kk (far kk) (next kk)) mt).word =
      l.foldl (refillWord rngN rngM twist) mt.word := by
  induction l generalizing mt with
  | nil => rfl
  | cons kk l ih =>
    have hrest := ih (fun i hi => hl i (List.mem_cons_of_mem _ hi)) (fun i hi => hfar i (List.mem_cons_of_mem _ hi))
      (fun i hi => hnext i (List.mem_cons_of_mem _ hi)) (twistWord mt kk (far kk) (next kk))
    have hword : (twistWord mt kk (far kk) (next kk)).word = refillWord rngN rngM twist mt.word kk := by
      rw [twistWord, RngWords.word_put (hl kk List.mem_cons_self), hfar kk List.mem_cons_self,
        hnext kk List.mem_cons_self]
      rfl
    rw [List.foldl_cons, List.foldl_cons, hrest, hword]

/-- The loops of the generator replace the words one by one. -/
theorem word_generateWords (mt : RngWords) :
    (generateWords mt).word = (List.range rngN).foldl (refillWord rngN rngM twist) mt.word := by
  have hsplit : List.range rngN = List.range (rngN - rngM) ++ (List.range' (rngN - rngM) (rngM - 1) ++ [rngN - 1]) := by
    decide +kernel
  have hfirst := @word_foldl_twistWord (List.range (rngN - rngM)) (by simp only [List.mem_range, rngN, rngM]; omega)
    (fun kk => kk + rngM) (fun kk => kk + 1) (by simp only [List.mem_range, rngN, rngM]; omega)
    (by simp only [List.mem_range, rngN, rngM]; omega)
  have hsecond := @word_foldl_twistWord (List.range' (rngN - rngM) (rngM - 1))
    (by simp only [List.mem_range'_1, rngN, rngM]; omega) (fun kk => kk - (rngN - rngM)) (fun kk => kk + 1)
    (by simp only [List.mem_range'_1, rngN, rngM]; omega) (by simp only [List.mem_range'_1, rngN, rngM]; omega)
  have hlast := @word_foldl_twistWord [rngN - 1] (by simp [rngN]) (fun _ => rngM - 1) (fun _ => 0)
    (by simp [rngN, rngM]) (by simp [rngN])
  rw [hsplit, List.foldl_append, List.foldl_append, ← hfirst, ← hsecond, ← hlast]
  rfl

/-- The next output of a generator is the `n`-th word of its stream. -/
def AtWord (seed : RngWords) (n : Nat) (state : RngState) : Prop :=
  ∃ b, (∀ k < rngN, state.mt.word k = genrandStream seed (b + k)) ∧ state.mti ≤ rngN ∧ b + state.mti = n

variable {seed : RngWords} {state state' : RngState} {n : Nat}

theorem word_generateWords_block {mt : RngWords} {b : Nat} (hwords : ∀ k < rngN, mt.word k = genrandStream seed (b + k)) :
    ∀ k < rngN, (generateWords mt).word k = genrandStream seed (b + rngN + k) := by
  rw [word_generateWords]
  exact refill_block (by decide) (by decide) hwords

theorem AtWord.next (h : AtWord seed n state) :
    (genrandInt32 state).1 = temper (genrandStream seed n) ∧ AtWord seed (n + 1) (genrandInt32 state).2 := by
  obtain ⟨b, hwords, hmti, hn⟩ := h
  by_cases hfull : state.mti = rngN
  · have hblock := word_generateWords_block hwords
    have hstate : genrandInt32 state =
        (temper ((generateWords state.mt).word 0), { mt := generateWords state.mt, mti := 1 }) := by
      unfold genrandInt32
      rw [if_pos hfull]
    rw [hstate]
    refine ⟨?_, b + rngN, hblock, Nat.le_add_left 1 623, ?_⟩
    · rw [hblock 0 (by decide), Nat.add_zero, ← hfull, hn]
    · rw [← hfull, hn]
  · have hstate : genrandInt32 state = (temper (state.mt.word state.mti), { state with mti := state.mti + 1 }) := by
      unfold genrandInt32
      rw [if_neg hfull]
    have hlt : state.mti < rngN := Nat.lt_of_le_of_ne hmti hfull
    rw [hstate]
    refine ⟨?_, b, hwords, hlt, ?_⟩
    · rw [hwords _ hlt, hn]
    · rw [← hn]
      rfl

theorem AtWord.output (h : AtWord seed n state) (j : Nat) :
    output genrandInt32 state j = temper (genrandStream seed (n + j)) := by
  induction j generalizing n state with
  | zero => exact h.next.1
  | succ j ih => rw [output_succ, ih h.next.2, Nat.add_right_comm, Nat.add_assoc]

/-- The outputs of a generator that was just initialised are the tempered words of the recurrence. -/
theorem output_genrandInt32 (hstate : state.mti = rngN) (n : Nat) :
    output genrandInt32 state n = temper (genrandStream state.mt (rngN + n)) := by
  have hstart : AtWord state.mt rngN state :=
    ⟨0, fun k hk => by rw [Nat.zero_add, genrandStream, wordStream_seed hk], hstate.le, by rw [Nat.zero_add, hstate]⟩
  exact hstart.output n

theorem temper_injective : Function.Injective temper := by
  intro x y h
  unfold temper at h
  have hlast := xor_shiftRight_inj (BitVec.allOnes 32) (k := 18) (by decide) (by simpa only [BitVec.and_allOnes] using h)
  have hthird := xor_shiftLeft_inj _ (by decide) hlast
  have hsecond := xor_shiftLeft_inj _ (by decide) hthird
  exact xor_shiftRight_inj (BitVec.allOnes 32) (k := 11) (by decide) (by simpa only [BitVec.and_allOnes] using hsecond)

/-- A twisted word is zero only where both its parts are. -/
theorem twist_zero {here next : BitVec 32} (h : twist 0#32 here next = 0#32) :
    here &&& upperMask = 0#32 ∧ next &&& lowerMask = 0#32 := by
  unfold twist at h
  simp only [BitVec.zero_xor] at h
  generalize hy : (here &&& upperMask) ||| (next &&& lowerMask) = y at h
  have heven : y &&& 1#32 = 0#32 := by
    by_contra hodd
    -- the highest bit of the constant is set, that of a word shifted to the right is not
    rw [mag01, if_neg hodd] at h
    have hhigh := congrArg BitVec.msb (BitVec.xor_eq_zero_iff.mp h)
    rw [BitVec.msb_ushiftRight, decide_eq_true Nat.one_pos, Bool.not_true, Bool.false_and] at hhigh
    exact absurd hhigh (by decide)
  rw [mag01, if_pos heven, BitVec.xor_zero] at h
  have hlow := congrArg BitVec.toNat heven
  have hrest := congrArg BitVec.toNat h
  have hzero : y = 0#32 := by
    apply BitVec.eq_of_toNat_eq
    simp only [BitVec.toNat_and, BitVec.toNat_ofNat, Nat.reducePow, Nat.reduceMod, Nat.and_one_is_mod] at hlow
    simp only [BitVec.toNat_ushiftRight, Nat.shiftRight_eq_div_pow, BitVec.toNat_ofNat, Nat.reducePow,
      Nat.reduceMod] at hrest
    rw [BitVec.toNat_ofNat]
    omega
  rw [hzero] at hy
  exact BitVec.or_eq_zero_iff.mp hy

theorem zero_of_masks {x : BitVec 32} (hupper : x &&& upperMask = 0#32) (hlower : x &&& lowerMask = 0#32) : x = 0#32 := by
  have hall : upperMask ||| lowerMask = BitVec.allOnes 32 := by decide
  rw [← BitVec.and_allOnes (x := x), ← hall, BitVec.and_or_distrib_left, hupper, hlower, BitVec.zero_or]

/-- A window of which the recurrence makes nothing but zeros. -/
def ZeroWindow (x : Nat → BitVec 32) (b : Nat) : Prop :=
  x b &&& upperMask = 0#32 ∧ ∀ k < rngN, 1 ≤ k → x (b + k) = 0#32

/-- A window of zeros comes from a window of zeros. -/
theorem ZeroWindow.before {b : Nat} (h : ZeroWindow (genrandStream seed) (b + 1)) : ZeroWindow (genrandStream seed) b := by
  have hwords : ∀ k ≤ rngN, 2 ≤ k → genrandStream seed (b + k) = 0#32 := by
    intro k hk hk2
    have := h.2 (k - 1) (by omega) (by omega)
    rwa [show b + 1 + (k - 1) = b + k by omega] at this
  have hnext : genrandStream seed (rngN + b) =
      twist (genrandStream seed (b + rngM)) (genrandStream seed b) (genrandStream seed (b + 1)) :=
    wordStream_next (by decide) (by decide) b
  rw [Nat.add_comm rngN b, hwords rngN le_rfl (by decide), hwords rngM (by decide) (by decide)] at hnext
  obtain ⟨hhere, hlower⟩ := twist_zero hnext.symm
  refine ⟨hhere, fun k hk hk1 => ?_⟩
  by_cases hk2 : 2 ≤ k
  · exact hwords k hk.le hk2
  · rw [show k = 1 by omega]
    exact zero_of_masks h.1 hlower

theorem not_zeroWindow (hfirst : seed.word 0 &&& upperMask ≠ 0#32) (b : Nat) : ¬ ZeroWindow (genrandStream seed) b := by
  intro h
  induction b with
  | zero =>
    have hzero := h.1
    rw [genrandStream, wordStream_seed (by decide)] at hzero
    exact hfirst hzero
  | succ b ih => exact ih h.before

theorem temper_zero : temper 0#32 = 0#32 := by decide

theorem initGenrand_mti (state : RngState) (s : BitVec 32) : (initGenrand state s).mti = rngN := rfl

theorem initByArray_mti (state : RngState) (initKey : List (BitVec 32)) : (initByArray state initKey).mti = rngN := rfl

theorem initByArray_first (state : RngState) (initKey : List (BitVec 32)) :
    (initByArray state initKey).mt.word 0 &&& upperMask ≠ 0#32 := by
  unfold initByArray
  rw [RngWords.word_put (by decide), Function.update_self, BitVec.and_comm, BitVec.and_or_distrib_left]
  intro h
  exact absurd (BitVec.or_eq_zero_iff.mp h).2 (by decide)

/-- A generator that was initialised by a key never gets stuck at zero. -/
theorem initByArray_output_nonzero (state : RngState) (initKey : List (BitVec 32)) (start : Nat) :
    ∃ k < rngN, output genrandInt32 (initByArray state initKey) (start + k) ≠ 0#32 := by
  by_contra hzero
  have hall : ∀ k < rngN, genrandStream (initByArray state initKey).mt (rngN + start + k) = 0#32 := by
    intro k hk
    have h : output genrandInt32 (initByArray state initKey) (start + k) = 0#32 := by
      by_contra hne
      exact hzero ⟨k, hk, hne⟩
    rw [output_genrandInt32 (initByArray_mti state initKey), ← Nat.add_assoc, ← temper_zero] at h
    exact temper_injective h
  refine not_zeroWindow (initByArray_first state initKey) (rngN + start) ⟨?_, fun k hk _ => hall k hk⟩
  have hhere := hall 0 (by decide)
  rw [Nat.add_zero] at hhere
  rw [hhere, BitVec.zero_and]

/-- The first words of a generator with a seed. -/
def seedWord (s : BitVec 32) : Nat → BitVec 32
  | 0 => s
  | i + 1 => 1812433253#32 * (seedWord s i ^^^ (seedWord s i >>> 30)) + BitVec.ofNat 32 (i + 1)

theorem initGenrand_mt (state : RngState) (s : BitVec 32) :
    (initGenrand state s).mt = (List.range' 1 (rngN - 1)).foldl initGenrandWord (state.mt.put 0 s) := by
  rw [initGenrand]

theorem seedLoop_words (state : RngState) (s : BitVec 32) {m : Nat} (hm : m + 1 ≤ rngN) :
    ∀ i ≤ m, ((List.range' 1 m).foldl initGenrandWord (state.mt.put 0 s)).word i = seedWord s i := by
  induction m with
  | zero =>
    intro i hi
    rw [Nat.le_zero.mp hi, List.range'_zero, List.foldl_nil, RngWords.word_put hm, Function.update_self]
    rfl
  | succ m ih =>
    intro i hi
    have hbefore := ih (by omega)
    rw [List.range'_1_concat, List.foldl_append, List.foldl_cons, List.foldl_nil, initGenrandWord,
      RngWords.word_put (by omega)]
    by_cases him : i = 1 + m
    · rw [him, Function.update_self, Nat.add_sub_cancel_left, hbefore m le_rfl, Nat.add_comm 1 m]
      rfl
    · rw [Function.update_of_ne him, hbefore i (by omega)]

theorem genrandStream_initGenrand (state : RngState) (s : BitVec 32) (n : Nat) :
    genrandStream (initGenrand state s).mt n = wordStream rngN rngM twist (seedWord s) n := by
  have hwords : rngN - 1 + 1 ≤ rngN := by decide
  have hseed : ∀ k < rngN, wordStream rngN rngM twist (initGenrand state s).mt.word (0 + k) =
      wordStream rngN rngM twist (seedWord s) (0 + k) := by
    intro k hk
    rw [Nat.zero_add, wordStream_seed hk, wordStream_seed hk, initGenrand_mt,
      seedLoop_words state s hwords k (Nat.le_sub_one_of_lt hk)]
  have hall := wordStream_agree (by decide) (by decide) hseed n
  rw [Nat.zero_add] at hall
  rw [genrandStream, hall]

/-- The loop of the seed, the loops of the blocks and the tempering together are one recurrence, whatever the
memory held. -/
theorem output_initGenrand (state : RngState) (s : BitVec 32) (n : Nat) :
    output genrandInt32 (initGenrand state s) n = temper (wordStream rngN rngM twist (seedWord s) (rngN + n)) := by
  rw [output_genrandInt32 (initGenrand_mti state s), genrandStream_initGenrand]

/-- Who has seen 624 outputs in a row knows all outputs after them. -/
theorem outputs_known (hstate : state.mti = rngN) (hstate' : state'.mti = rngN) {start start' : Nat}
    (hseen : ∀ k < rngN, output genrandInt32 state (start + k) = output genrandInt32 state' (start' + k)) (n : Nat) :
    output genrandInt32 state (start + n) = output genrandInt32 state' (start' + n) := by
  have hwindow : ∀ k < rngN, genrandStream state.mt (rngN + start + k) = genrandStream state'.mt (rngN + start' + k) := by
    intro k hk
    have h := hseen k hk
    rw [output_genrandInt32 hstate, output_genrandInt32 hstate'] at h
    rw [Nat.add_assoc, Nat.add_assoc]
    exact temper_injective h
  rw [output_genrandInt32 hstate, output_genrandInt32 hstate', ← Nat.add_assoc, ← Nat.add_assoc]
  exact congrArg temper (wordStream_agree (by decide) (by decide) hwindow n)

/-- A generator, and the same one after the 624 outputs of a block. -/
theorem outputs_known_same_seed :
    output genrandInt32 (initGenrand ⟨Vector.replicate rngN 0#32, 0⟩ 5489#32) (rngN + 1000) =
      output genrandInt32 ⟨generateWords (initGenrand ⟨Vector.replicate rngN 1#32, 7⟩ 5489#32).mt, rngN⟩ (0 + 1000) := by
  have hwords : ∀ k < rngN, (initGenrand ⟨Vector.replicate rngN 1#32, 7⟩ 5489#32).mt.word k =
      genrandStream (initGenrand ⟨Vector.replicate rngN 1#32, 7⟩ 5489#32).mt (0 + k) := by
    intro k hk
    rw [Nat.zero_add, genrandStream, wordStream_seed hk]
  have hlater : AtWord (initGenrand ⟨Vector.replicate rngN 1#32, 7⟩ 5489#32).mt (0 + rngN + rngN)
      ⟨generateWords (initGenrand ⟨Vector.replicate rngN 1#32, 7⟩ 5489#32).mt, rngN⟩ :=
    ⟨0 + rngN, word_generateWords_block hwords, Nat.le_refl _, rfl⟩
  refine outputs_known (initGenrand_mti _ _) rfl (fun k _ => ?_) 1000
  rw [output_genrandInt32 (initGenrand_mti _ _), hlater.output, genrandStream_initGenrand, genrandStream_initGenrand,
    Nat.zero_add, Nat.zero_add, Nat.add_assoc]

end MasterAI
