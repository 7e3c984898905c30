import MasterAI.WrapInt32
import Mathlib.Algebra.GroupWithZero.Nat
import Mathlib.Data.List.Count

namespace MasterAI

/-- The value of an `int` where it is compared with a `uint32_t`. -/
def asUInt32 (x : Int) : Nat := (x % 4294967296).toNat

/-- The settings that `Trainer::train` reads. The interval of the pool report comes from the
configuration, the others are members of `Pluribus`. -/
structure TrainConfig where
  maxIterations : Int
  strategyInterval : Int
  discountInterval : Int
  serializeInterval : Int
  lcfrThreshold : Int
  resetPoolInterval : Nat
  deriving DecidableEq, Repr

/-- Settings of the widths of the source, with intervals that can be divided by. -/
structure TrainConfig.Valid (c : TrainConfig) : Prop where
  max_fits : FitsInt32 c.maxIterations
  threshold_fits : FitsInt32 c.lcfrThreshold
  strategy_fits : FitsInt32 c.strategyInterval
  discount_fits : FitsInt32 c.discountInterval
  serialize_fits : FitsInt32 c.serializeInterval
  strategy_pos : 0 < c.strategyInterval
  discount_pos : 0 < c.discountInterval
  serialize_pos : 0 < c.serializeInterval
  resetPool_pos : 0 < c.resetPoolInterval

structure Trainer where
  numIterations : Nat
  numProcessed : Nat
  deriving DecidableEq, Repr

inductive TrainEvent
  | status
  | strategy (processed : Nat)
  | discount (processed : Nat)
  | save (processed : Nat)
  | task (id : Nat)
  deriving DecidableEq, Repr

/-- The workers finish every submitted task before the wait ends. -/
def Trainer.waitThreadsIdle (s : Trainer) : Trainer := { s with numProcessed := s.numIterations }

/-- What the head of a pass runs, or nothing where the pool report divides by zero. -/
def TrainConfig.triggers (c : TrainConfig) (s : Trainer) : Option (List TrainEvent) :=
  if s.numIterations > 0 ∧ s.numProcessed > 0 then
    if c.resetPoolInterval = 0 then none
    else some
      ((if s.numIterations % c.resetPoolInterval = 0 then [.status] else []) ++
        (if s.numProcessed % asUInt32 c.strategyInterval = 0 then [.strategy s.numProcessed] else []) ++
        (if s.numProcessed < asUInt32 c.lcfrThreshold ∧ s.numProcessed % asUInt32 c.discountInterval = 0
          then [.discount s.numProcessed] else []) ++
        (if s.numProcessed % asUInt32 c.serializeInterval = 0 then [.save s.numProcessed] else []))
  else some []

/-- The number of tasks of a pass. The two limits `needTaskNum1` and `needTaskNum2` stay zero. -/
def TrainConfig.taskNum (c : TrainConfig) (s : Trainer) : Int :=
  let taskNum := wrapInt32 (s.numIterations - s.numProcessed)
  let taskNum := if taskNum = 0 then c.strategyInterval else taskNum
  if taskNum > 0 ∧ taskNum > c.discountInterval then c.discountInterval else taskNum

def submitTasks (numIterations n : Nat) : List TrainEvent :=
  (List.range n).map fun i => .task ((numIterations + i + 1) % 4294967296)

/-- The loop of `train`, one pass for each unit of the first argument. -/
def train (c : TrainConfig) : Nat → Trainer → Option (List TrainEvent)
  | 0, _ => none
  | passes + 1, s => do
    let s := s.waitThreadsIdle
    let fired ← c.triggers s
    if s.numProcessed ≥ asUInt32 c.maxIterations then pure fired
    else do
      let n := if s.numIterations < asUInt32 c.maxIterations then (c.taskNum s).toNat else 0
      let rest ← train c passes { s with numIterations := (s.numIterations + n) % 4294967296 }
      pure (fired ++ submitTasks s.numIterations n ++ rest)

/-- A call that runs every due update of the iterations after `start` once, and trains no
iteration past the last one. -/
def Scheduled (c : TrainConfig) (start : Nat) : Prop :=
  ∃ passes events, train c passes ⟨start, start⟩ = some events ∧
    (∀ t : Nat, start < t → (t : Int) ≤ c.maxIterations → c.strategyInterval ∣ t →
      events.count (.strategy t) = 1) ∧
    (∀ t : Nat, start < t → (t : Int) ≤ c.maxIterations → (t : Int) < c.lcfrThreshold →
      c.discountInterval ∣ t → events.count (.discount t) = 1) ∧
    (∀ t : Nat, start < t → (t : Int) ≤ c.maxIterations → c.serializeInterval ∣ t →
      events.count (.save t) = 1) ∧
    ∀ id : Nat, .task id ∈ events → (id : Int) ≤ c.maxIterations

/-- The number of iterations from one pass to the next. -/
def TrainConfig.batch (c : TrainConfig) : Nat := (min c.strategyInterval c.discountInterval).toNat

/-- The multiples of `interval` from `start` to `top` are all ends of batches: the first of them
is, and so is every further one when a second one exists. -/
def Aligned (batch start : Nat) (interval top : Int) : Prop :=
  let first := (start / interval.toNat + 1) * interval.toNat
  (first : Int) ≤ top → batch ∣ first - start ∧
    ((first : Int) + interval ≤ top → batch ∣ interval.toNat)

/-- The settings under which the batches end at the last iteration and at every due update. -/
def TrainConfig.InStep (c : TrainConfig) (start : Nat) : Prop :=
  asUInt32 c.maxIterations ≤ start ∨
    (0 ≤ c.maxIterations ∧ c.batch ∣ c.maxIterations.toNat - start ∧
      Aligned c.batch start c.strategyInterval c.maxIterations ∧
      Aligned c.batch start c.discountInterval (min c.maxIterations (c.lcfrThreshold - 1)) ∧
      Aligned c.batch start c.serializeInterval c.maxIterations)

instance (batch start : Nat) (interval top : Int) : Decidable (Aligned batch start interval top) :=
  inferInstanceAs (Decidable (_ → _ ∧ (_ → _)))

instance (c : TrainConfig) (start : Nat) : Decidable (c.InStep start) :=
  inferInstanceAs (Decidable (_ ∨ _))

theorem aligned_iff {batch start : Nat} {interval top : Int} (hpos : 0 < interval) :
    Aligned batch start interval top ↔
      ∀ t : Nat, start < t → (t : Int) ≤ top → interval ∣ t → batch ∣ t - start := by
  obtain ⟨n, rfl⟩ := Int.eq_ofNat_of_zero_le (Int.le_of_lt hpos)
  have hn : 0 < n := by omega
  have hfirst : start < (start / n + 1) * n := by
    have := Nat.div_add_mod start n
    have := Nat.mod_lt start hn
    rw [Nat.add_mul, Nat.mul_comm (start / n)]
    omega
  unfold Aligned
  simp only [Int.toNat_natCast, Int.natCast_dvd_natCast]
  constructor
  · intro h t hstart htop hdvd
    obtain ⟨k, rfl⟩ := hdvd
    have hk : start / n < k := Nat.div_lt_of_lt_mul hstart
    obtain ⟨d, rfl⟩ := Nat.exists_eq_add_of_le hk
    have hsplit : n * ((start / n).succ + d) = (start / n + 1) * n + n * d := by
      rw [Nat.mul_add, Nat.mul_comm n (start / n).succ]
    rw [hsplit] at htop ⊢
    obtain ⟨hhit, hmore⟩ := h (by push_cast at htop ⊢; omega)
    rw [show (start / n + 1) * n + n * d - start = (start / n + 1) * n - start + n * d by omega]
    apply Nat.dvd_add hhit
    cases d with
    | zero => simp
    | succ d =>
      apply Nat.dvd_mul_right_of_dvd
      apply hmore
      rw [Nat.mul_succ] at htop
      omega
  · intro h hle
    refine ⟨h _ hfirst hle (Nat.dvd_mul_left n _), fun hnext => ?_⟩
    have hfirstHit := h _ hfirst hle (Nat.dvd_mul_left n _)
    have hsecond := h ((start / n + 1) * n + n) (by omega) (by push_cast at hnext ⊢; omega)
      (Nat.dvd_add (Nat.dvd_mul_left n _) (Nat.dvd_refl n))
    have := Nat.dvd_sub hsecond hfirstHit
    rwa [show (start / n + 1) * n + n - start - ((start / n + 1) * n - start) = n by omega] at this

theorem asUInt32_of_nonneg {x : Int} (hx : 0 ≤ x) (hfits : FitsInt32 x) : asUInt32 x = x.toNat := by
  unfold FitsInt32 int32Max at hfits
  unfold asUInt32
  omega

/-- What a pass runs that finds `p` iterations done. -/
def TrainConfig.fired (c : TrainConfig) (p : Nat) : List TrainEvent :=
  (c.triggers ⟨p, p⟩).getD []

section

variable {c : TrainConfig} (valid : c.Valid)

include valid

theorem TrainConfig.Valid.triggers_eq (p : Nat) : c.triggers ⟨p, p⟩ = some (c.fired p) := by
  have := valid.resetPool_pos
  unfold fired triggers
  simp only
  split
  · rw [if_neg (by omega)]
    rfl
  · rfl

theorem TrainConfig.Valid.taskNum_eq (p : Nat) : (c.taskNum ⟨p, p⟩).toNat = c.batch := by
  have := valid.strategy_pos
  have := valid.discount_pos
  have hzero : wrapInt32 ((p : Int) - p) = 0 := by
    rw [Int.sub_self]
    rfl
  unfold taskNum batch
  simp only [hzero, if_true]
  split <;> omega

theorem TrainConfig.Valid.batch_pos : 0 < c.batch := by
  have := valid.strategy_pos
  have := valid.discount_pos
  unfold batch
  omega

theorem TrainConfig.Valid.batch_le : c.batch ≤ 2147483647 := by
  have := valid.strategy_fits.2
  unfold int32Max at this
  unfold batch
  omega

/-- One pass: it ends the call, or it trains a batch. -/
theorem train_succ (passes p q : Nat) :
    train c (passes + 1) ⟨p, q⟩ =
      if asUInt32 c.maxIterations ≤ p then some (c.fired p)
      else (train c passes ⟨(p + c.batch) % 4294967296, p⟩).map fun rest =>
        c.fired p ++ submitTasks p c.batch ++ rest := by
  simp only [train, Trainer.waitThreadsIdle, valid.triggers_eq, Option.bind_eq_bind, Option.bind_some,
    ge_iff_le, valid.taskNum_eq]
  split
  next => rfl
  next h =>
    rw [if_pos (by omega)]
    cases train c passes ⟨(p + c.batch) % 4294967296, p⟩ <;> rfl

end

theorem TrainConfig.task_notMem_fired (c : TrainConfig) (p id : Nat) : .task id ∉ c.fired p := by
  unfold fired triggers
  split
  · split
    · simp
    · simp only [Option.getD_some, List.mem_append, not_or]
      refine ⟨⟨⟨?_, ?_⟩, ?_⟩, ?_⟩ <;> split <;> simp
  · simp

theorem count_submitTasks {e : TrainEvent} (he : ∀ id, e ≠ .task id) (p n : Nat) :
    (submitTasks p n).count e = 0 := by
  apply List.count_eq_zero_of_not_mem
  intro hmem
  obtain ⟨i, -, hi⟩ := List.mem_map.mp hmem
  exact he _ hi.symm

theorem mem_submitTasks {p n id : Nat} (hfits : p + n < 4294967296) :
    .task id ∈ submitTasks p n ↔ p < id ∧ id ≤ p + n := by
  unfold submitTasks
  simp only [List.mem_map, List.mem_range, TrainEvent.task.injEq]
  constructor
  · rintro ⟨i, hi, rfl⟩
    rw [Nat.mod_eq_of_lt (by omega)]
    omega
  · rintro ⟨hlo, hhi⟩
    refine ⟨id - p - 1, by omega, ?_⟩
    rw [Nat.mod_eq_of_lt (by omega)]
    omega

section

variable {c : TrainConfig} (valid : c.Valid) (hmax : 0 ≤ c.maxIterations)

include valid hmax

/-- The maximum is far enough below the range of the counters that no batch wraps. -/
theorem TrainConfig.Valid.next_lt {p : Nat} (hp : p < c.maxIterations.toNat) :
    (p + c.batch) % 4294967296 = p + c.batch ∧ p + c.batch < 4294967296 := by
  have := valid.batch_le
  have hfits := valid.max_fits.2
  unfold int32Max at hfits
  have hlt : p + c.batch < 4294967296 := by omega
  exact ⟨Nat.mod_eq_of_lt hlt, hlt⟩

/-- The call ends after at most one pass for each missing iteration. -/
theorem train_finishes (missing : Nat) {p : Nat} (q : Nat) (hmissing : c.maxIterations.toNat ≤ p + missing) :
    ∃ events, train c (missing + 1) ⟨p, q⟩ = some events := by
  induction missing generalizing p q with
  | zero =>
    rw [train_succ valid, asUInt32_of_nonneg hmax valid.max_fits, if_pos (by omega)]
    exact ⟨_, rfl⟩
  | succ missing ih =>
    rw [train_succ valid, asUInt32_of_nonneg hmax valid.max_fits]
    split
    · exact ⟨_, rfl⟩
    next hp =>
      have hbatch := valid.batch_pos
      obtain ⟨hnext, -⟩ := valid.next_lt hmax (not_le.mp hp)
      obtain ⟨rest, hrest⟩ := ih p (p := p + c.batch) (by omega)
      rw [hnext, hrest]
      exact ⟨_, rfl⟩

/-- An update that a pass runs at most once runs exactly at the ends of batches. -/
theorem count_train {e : TrainEvent} {t : Nat} {due : Prop} [Decidable due] (he : ∀ id, e ≠ .task id)
    (hfired : ∀ p, (c.fired p).count e = if p = t ∧ due then 1 else 0) {passes p q : Nat}
    {events : List TrainEvent} (h : train c passes ⟨p, q⟩ = some events) :
    events.count e =
      if p ≤ t ∧ c.batch ∣ t - p ∧ (t = p ∨ t < c.maxIterations.toNat + c.batch) ∧ due then 1 else 0 := by
  have hbatch := valid.batch_pos
  induction passes generalizing p q events with
  | zero => simp [train] at h
  | succ passes ih =>
    rw [train_succ valid, asUInt32_of_nonneg hmax valid.max_fits] at h
    split at h
    next hp =>
      cases Option.some.inj h
      rw [hfired]
      apply if_congr ?_ rfl rfl
      constructor
      · rintro ⟨rfl, hdue⟩
        exact ⟨le_rfl, by simp, Or.inl rfl, hdue⟩
      · rintro ⟨hle, hdvd, hend, hdue⟩
        refine ⟨?_, hdue⟩
        rcases hend with rfl | hend
        · rfl
        · by_contra hne
          have := Nat.le_of_dvd (by omega) hdvd
          omega
    next hp =>
      obtain ⟨hnext, -⟩ := valid.next_lt hmax (not_le.mp hp)
      rw [hnext] at h
      obtain ⟨rest, hrest, rfl⟩ := Option.map_eq_some_iff.mp h
      rw [List.count_append, List.count_append, count_submitTasks he, hfired, ih hrest]
      by_cases htp : t = p
      · subst htp
        rw [if_neg (by omega : ¬(t + c.batch ≤ t ∧ _))]
        simp
      · rw [if_neg (by omega : ¬(p = t ∧ _)), Nat.zero_add]
        apply if_congr ?_ rfl rfl
        constructor
        · rintro ⟨hle, hdvd, hend, hdue⟩
          refine ⟨by omega, ?_, Or.inr (by omega), hdue⟩
          rw [show t - p = t - (p + c.batch) + c.batch by omega]
          exact Nat.dvd_add hdvd (Nat.dvd_refl _)
        · rintro ⟨hle, hdvd, hend, hdue⟩
          have hfar := Nat.le_of_dvd (by omega) hdvd
          refine ⟨by omega, ?_, Or.inr (by omega), hdue⟩
          rw [show t - (p + c.batch) = t - p - c.batch by omega]
          exact Nat.dvd_sub hdvd (Nat.dvd_refl _)

/-- The tasks of a call are the iterations up to the end of its last batch. -/
theorem tasks_le_iff {passes p q : Nat} {events : List TrainEvent}
    (h : train c passes ⟨p, q⟩ = some events) :
    (∀ id, .task id ∈ events → id ≤ c.maxIterations.toNat) ↔
      c.maxIterations.toNat ≤ p ∨ c.batch ∣ c.maxIterations.toNat - p := by
  have hbatch := valid.batch_pos
  induction passes generalizing p q events with
  | zero => simp [train] at h
  | succ passes ih =>
    rw [train_succ valid, asUInt32_of_nonneg hmax valid.max_fits] at h
    split at h
    next hp =>
      cases Option.some.inj h
      exact iff_of_true (fun id hid => absurd hid (c.task_notMem_fired p id)) (Or.inl hp)
    next hp =>
      obtain ⟨hnext, hfits⟩ := valid.next_lt hmax (not_le.mp hp)
      rw [hnext] at h
      obtain ⟨rest, hrest, rfl⟩ := Option.map_eq_some_iff.mp h
      have hsplit : (∀ id, .task id ∈ c.fired p ++ submitTasks p c.batch ++ rest →
          id ≤ c.maxIterations.toNat) ↔ p + c.batch ≤ c.maxIterations.toNat ∧
            ∀ id, .task id ∈ rest → id ≤ c.maxIterations.toNat := by
        simp only [List.mem_append, c.task_notMem_fired, false_or, mem_submitTasks hfits]
        constructor
        · intro hall
          exact ⟨hall _ (Or.inl ⟨by omega, le_rfl⟩), fun id hid => hall id (Or.inr hid)⟩
        · rintro ⟨hle, hall⟩ id (hid | hid)
          · omega
          · exact hall id hid
      have htail := ih hrest
      refine hsplit.trans ?_
      constructor
      · rintro ⟨hle, hall⟩
        have hend := htail.mp hall
        right
        rw [show c.maxIterations.toNat - p = c.maxIterations.toNat - (p + c.batch) + c.batch by omega]
        apply Nat.dvd_add ?_ (Nat.dvd_refl _)
        rcases hend with hend | hend
        · rw [Nat.sub_eq_zero_of_le hend]
          exact Nat.dvd_zero _
        · exact hend
      · rintro (hend | hend)
        · exact absurd hend hp
        · have hfar := Nat.le_of_dvd (by omega) hend
          refine ⟨by omega, htail.mpr (Or.inr ?_)⟩
          rw [show c.maxIterations.toNat - (p + c.batch) = c.maxIterations.toNat - p - c.batch by omega]
          exact Nat.dvd_sub hend (Nat.dvd_refl _)

/-- Updates that are due exactly at the multiples of an interval run once each if and only if the
interval is in step with the batches. -/
theorem once_iff_aligned {make : Nat → TrainEvent} {due : Nat → Prop} [DecidablePred due]
    {interval top : Int} (hpos : 0 < interval) (hmake : ∀ t id, make t ≠ .task id)
    (htop : top ≤ c.maxIterations)
    (hdue : ∀ t : Nat, 0 < t → (t : Int) ≤ top → (due t ↔ interval ∣ t))
    (hfired : ∀ p t, 0 < t → (c.fired p).count (make t) = if p = t ∧ due t then 1 else 0)
    {passes start : Nat} {events : List TrainEvent} (h : train c passes ⟨start, start⟩ = some events) :
    (∀ t : Nat, start < t → (t : Int) ≤ top → interval ∣ t → events.count (make t) = 1) ↔
      Aligned c.batch start interval top := by
  have hbatch := valid.batch_pos
  rw [aligned_iff hpos]
  refine forall_congr' fun t => forall_congr' fun hstart => forall_congr' fun hle =>
    forall_congr' fun hdvd => ?_
  have hcount := count_train valid hmax (hmake t) (fun p => hfired p t (by omega)) h
  rw [hcount, ite_eq_left_iff]
  constructor
  · intro hone
    by_contra hoff
    exact absurd (hone fun hall => hoff hall.2.1) (by omega)
  · intro hhit hnot
    exact absurd ⟨by omega, hhit, Or.inr (by omega), (hdue t (by omega) hle).mpr hdvd⟩ hnot

end

theorem mod_asUInt32 {interval : Int} (hpos : 0 < interval) (hfits : FitsInt32 interval) (t : Nat) :
    t % asUInt32 interval = 0 ↔ interval ∣ t := by
  rw [asUInt32_of_nonneg (by omega) hfits, ← Nat.dvd_iff_mod_eq_zero]
  obtain ⟨n, rfl⟩ := Int.eq_ofNat_of_zero_le (Int.le_of_lt hpos)
  rw [Int.toNat_natCast, Int.natCast_dvd_natCast]

/-- What a pass runs, update by update. -/
theorem TrainConfig.Valid.fired_eq {c : TrainConfig} (valid : c.Valid) {p : Nat} (hp : 0 < p) :
    c.fired p = (if p % c.resetPoolInterval = 0 then [.status] else []) ++
      (if p % asUInt32 c.strategyInterval = 0 then [.strategy p] else []) ++
      (if p < asUInt32 c.lcfrThreshold ∧ p % asUInt32 c.discountInterval = 0 then [.discount p] else []) ++
      (if p % asUInt32 c.serializeInterval = 0 then [.save p] else []) := by
  have := valid.resetPool_pos
  unfold fired triggers
  rw [if_pos ⟨hp, hp⟩, if_neg (by omega)]
  rfl

theorem count_ite_singleton {b : Prop} [Decidable b] (e e' : TrainEvent) :
    (if b then [e'] else []).count e = if b ∧ e' = e then 1 else 0 := by
  by_cases hb : b
  · by_cases he : e' = e
    · simp [hb, he]
    · simp [hb, he]
  · simp [hb]

section

variable {c : TrainConfig} (valid : c.Valid)

include valid

/-- A pass runs each of its three updates at most once, for the iterations done so far. -/
theorem TrainConfig.Valid.count_fired (p : Nat) {t : Nat} (ht : 0 < t) :
    ((c.fired p).count (.strategy t) = if p = t ∧ t % asUInt32 c.strategyInterval = 0 then 1 else 0) ∧
    ((c.fired p).count (.discount t) =
      if p = t ∧ (t < asUInt32 c.lcfrThreshold ∧ t % asUInt32 c.discountInterval = 0) then 1 else 0) ∧
    ((c.fired p).count (.save t) = if p = t ∧ t % asUInt32 c.serializeInterval = 0 then 1 else 0) := by
  rcases Nat.eq_zero_or_pos p with rfl | hp
  · have hzero : c.fired 0 = [] := rfl
    have hne : 0 ≠ t := by omega
    simp [hzero, hne]
  · simp only [valid.fired_eq hp, List.count_append, count_ite_singleton]
    by_cases hpt : p = t
    · subst hpt
      simp
    · simp [hpt]

/-- What a finished call ran, against the alignment of each interval. -/
theorem schedule_iff (hmax : 0 ≤ c.maxIterations) {passes start : Nat} {events : List TrainEvent}
    (h : train c passes ⟨start, start⟩ = some events) :
    ((∀ t : Nat, start < t → (t : Int) ≤ c.maxIterations → c.strategyInterval ∣ t →
        events.count (.strategy t) = 1) ↔ Aligned c.batch start c.strategyInterval c.maxIterations) ∧
    ((∀ t : Nat, start < t → (t : Int) ≤ c.maxIterations → (t : Int) < c.lcfrThreshold →
        c.discountInterval ∣ t → events.count (.discount t) = 1) ↔
      Aligned c.batch start c.discountInterval (min c.maxIterations (c.lcfrThreshold - 1))) ∧
    ((∀ t : Nat, start < t → (t : Int) ≤ c.maxIterations → c.serializeInterval ∣ t →
        events.count (.save t) = 1) ↔ Aligned c.batch start c.serializeInterval c.maxIterations) := by
  refine ⟨?_, ?_, ?_⟩
  · exact once_iff_aligned valid hmax valid.strategy_pos (fun _ _ => by simp) (Int.le_refl _)
      (fun t _ _ => mod_asUInt32 valid.strategy_pos valid.strategy_fits t)
      (fun p t ht => (valid.count_fired p ht).1) h
  · have hdue : ∀ t : Nat, 0 < t → (t : Int) ≤ min c.maxIterations (c.lcfrThreshold - 1) →
        (t < asUInt32 c.lcfrThreshold ∧ t % asUInt32 c.discountInterval = 0 ↔ c.discountInterval ∣ t) := by
      intro t ht hle
      rw [mod_asUInt32 valid.discount_pos valid.discount_fits,
        asUInt32_of_nonneg (by omega) valid.threshold_fits]
      exact and_iff_right (by omega)
    rw [← once_iff_aligned valid hmax valid.discount_pos (fun _ _ => by simp) (by omega) hdue
      (fun p t ht => (valid.count_fired p ht).2.1) h]
    constructor
    · intro hall t hlo hle
      exact hall t hlo (by omega) (by omega)
    · intro hall t hlo hle hthreshold
      exact hall t hlo (by omega)
  · exact once_iff_aligned valid hmax valid.serialize_pos (fun _ _ => by simp) (Int.le_refl _)
      (fun t _ _ => mod_asUInt32 valid.serialize_pos valid.serialize_fits t)
      (fun p t ht => (valid.count_fired p ht).2.2) h

theorem tasks_bounded_iff (hmax : 0 ≤ c.maxIterations) {passes start : Nat} {events : List TrainEvent}
    (h : train c passes ⟨start, start⟩ = some events) (hlt : start < c.maxIterations.toNat) :
    (∀ id : Nat, .task id ∈ events → (id : Int) ≤ c.maxIterations) ↔
      c.batch ∣ c.maxIterations.toNat - start := by
  have hiff := tasks_le_iff valid hmax h
  constructor
  · intro hall
    rcases hiff.mp fun id hid => by have := hall id hid; omega with hend | hend
    · omega
    · exact hend
  · intro hend id hid
    have := hiff.mpr (Or.inr hend) id hid
    omega

/-- A maximum below zero counts as a large one, and the first task is already past it. -/
theorem not_scheduled_of_neg (hmax : c.maxIterations < 0) {start : Nat}
    (hover : start < asUInt32 c.maxIterations) : ¬Scheduled c start := by
  rintro ⟨passes, events, h, -, -, -, htasks⟩
  cases passes with
  | zero => simp [train] at h
  | succ passes =>
    rw [train_succ valid, if_neg (by omega)] at h
    obtain ⟨rest, -, rfl⟩ := Option.map_eq_some_iff.mp h
    have hmem : .task ((start + 0 + 1) % 4294967296) ∈ submitTasks start c.batch :=
      List.mem_map.mpr ⟨0, List.mem_range.mpr valid.batch_pos, rfl⟩
    have := htasks _ (List.mem_append_left _ (List.mem_append_right _ hmem))
    omega

/-- A call keeps the schedule if and only if the batches are in step with it. -/
theorem scheduled_iff_inStep (start : Nat) : Scheduled c start ↔ c.InStep start := by
  by_cases hover : asUInt32 c.maxIterations ≤ start
  · refine iff_of_true ?_ (Or.inl hover)
    have hend : c.maxIterations ≤ start := by
      have := valid.max_fits
      unfold FitsInt32 int32Max at this
      unfold asUInt32 at hover
      omega
    refine ⟨1, c.fired start, ?_, fun t ht hle => ?_, fun t ht hle => ?_, fun t ht hle => ?_, fun id hid => ?_⟩
    · rw [train_succ valid, if_pos hover]
    · omega
    · omega
    · omega
    · exact absurd hid (c.task_notMem_fired start id)
  · by_cases hmax : 0 ≤ c.maxIterations
    · have hlt : start < c.maxIterations.toNat := by
        rw [← asUInt32_of_nonneg hmax valid.max_fits]
        omega
      constructor
      · rintro ⟨passes, events, h, hstrategy, hdiscount, hsave, htasks⟩
        obtain ⟨hs, hd, hz⟩ := schedule_iff valid hmax h
        exact Or.inr ⟨hmax, (tasks_bounded_iff valid hmax h hlt).mp htasks, hs.mp hstrategy, hd.mp hdiscount,
          hz.mp hsave⟩
      · rintro (hend | ⟨-, htasks, hstrategy, hdiscount, hsave⟩)
        · exact absurd hend hover
        · obtain ⟨events, h⟩ := train_finishes valid hmax c.maxIterations.toNat
            start (p := start) (by omega)
          obtain ⟨hs, hd, hz⟩ := schedule_iff valid hmax h
          exact ⟨_, events, h, hs.mpr hstrategy, hd.mpr hdiscount, hz.mpr hsave,
            (tasks_bounded_iff valid hmax h hlt).mpr htasks⟩
    · refine iff_of_false (not_scheduled_of_neg valid (by omega) (by omega)) ?_
      rintro (hend | ⟨hnonneg, -⟩)
      · exact hover hend
      · exact hmax hnonneg

end

/-- The settings of the source with a small maximum. -/
def restartConfig (maxIterations : Int) : TrainConfig where
  maxIterations := maxIterations
  strategyInterval := 50
  discountInterval := 500
  serializeInterval := 10000
  lcfrThreshold := 100000
  resetPoolInterval := 1000

theorem restartConfig_valid {maxIterations : Int} (h : FitsInt32 maxIterations) :
    (restartConfig maxIterations).Valid := by
  refine ⟨h, ?_, ?_, ?_, ?_, ?_, ?_, ?_, ?_⟩ <;> simp [restartConfig, FitsInt32, int32Max]

theorem scheduled_fresh_start : (restartConfig 1000).InStep 0 ∧ Scheduled (restartConfig 1000) 0 := by
  have hstep : (restartConfig 1000).InStep 0 := by decide
  exact ⟨hstep, (scheduled_iff_inStep (restartConfig_valid ⟨by decide, by decide⟩) 0).mpr hstep⟩

/-- Started again at iteration 25, the trainer steps over iterations 50 and 100 and trains 25
iterations too many. -/
theorem not_scheduled_restart : ¬Scheduled (restartConfig 100) 25 := by
  rintro ⟨passes, events, h, hstrategy, -, -, -⟩
  have haligned := (schedule_iff (restartConfig_valid ⟨by decide, by decide⟩) (by decide) h).1.mp hstrategy
  exact absurd haligned (by decide)

end MasterAI
