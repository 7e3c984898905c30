import Mathlib.Logic.Function.Basic
import MasterAI.StepRuns
import MasterAI.WrapInt32

namespace MasterAI

/-- The fields of an `EVENT_KEY` in which timers differ. -/
structure EventKey where
  eventID : Nat
  srcType : Nat
  srcID : Nat
  deriving DecidableEq, Repr

/-- The key of a timer: both halves of its ID, and the address of its handler. -/
def timerKey (handler : Nat) (timerID : UInt64) : EventKey where
  eventID := timerID.toNat % 4294967296
  srcType := timerID.toNat / 4294967296 % 4294967296
  srcID := handler

/-- `TIMER_INFO`. A handler is known by its address, zero for none, and `manager` tells whether the record points
to the reactor. -/
structure TimerInfo where
  handler : Nat
  timerID : UInt64
  interval : Nat
  callTimes : Nat
  manager : Bool
  initTime : Int
  lastCallTime : Int
  deriving DecidableEq, Repr

structure ReactorEvent where
  nType : Nat
  timerInfo : TimerInfo
  deriving DecidableEq, Repr

def eventTimer : Nat := 4

def freshEvent : ReactorEvent := ⟨0, ⟨0, 0, 0, 0, false, 0, 0⟩⟩

def ReactorEvent.key (e : ReactorEvent) : EventKey := timerKey e.timerInfo.handler e.timerInfo.timerID

/-- Nothing where the interval divides by zero. -/
def getEventTimeout (e : ReactorEvent) : Option Nat :=
  if e.nType ≠ eventTimer then some 0
  else if e.timerInfo.interval = 0 then none
  else
    some (uint32 (e.timerInfo.interval -
      (e.timerInfo.lastCallTime - e.timerInfo.initTime).tmod e.timerInfo.interval))

/-- The number of records of a `ReactorEventPool`. -/
def eventPoolCount : Nat := 80000

/-- A `TimerReactor` with the pool of its event reactor. Records are numbered in the order in which they were
allocated, and `mapEvents` has for each event the record that its callback gets. An event is persistent: it can
expire from the time it is added until it is freed. `firing` is the record whose callback waits for `OnTimer`. -/
structure TimerReactor where
  elems : Nat → Nat
  size : Nat
  created : Nat
  deleted : Nat → Bool
  record : Nat → ReactorEvent
  mapTimers : EventKey → Option Nat
  mapEvents : EventKey → Option Nat
  firing : Option Nat

namespace TimerReactor

def start : TimerReactor where
  elems := id
  size := eventPoolCount
  created := eventPoolCount
  deleted _ := false
  record _ := freshEvent
  mapTimers _ := none
  mapEvents _ := none
  firing := none

def popEvent (s : TimerReactor) : Nat × TimerReactor :=
  if s.size = 0 then
    (s.created, { s with created := s.created + 1, record := Function.update s.record s.created freshEvent })
  else (s.elems (s.size - 1), { s with size := s.size - 1 })

def pushEvent (s : TimerReactor) (r : Nat) : TimerReactor :=
  if s.size ≥ eventPoolCount then { s with deleted := Function.update s.deleted r true }
  else { s with elems := Function.update s.elems s.size r, size := s.size + 1 }

def registerEvent (s : TimerReactor) (key : EventKey) : Option (TimerReactor × Bool) :=
  if (s.mapEvents key).isSome then some (s, false)
  else
    match s.mapTimers key with
    | none => some (s, false)
    | some r =>
      (getEventTimeout (s.record r)).map fun _ =>
        ({ s with mapEvents := Function.update s.mapEvents key (some r) }, true)

def unRegisterEvent (s : TimerReactor) (key : EventKey) : TimerReactor :=
  { s with mapEvents := Function.update s.mapEvents key none }

def detachEvent (s : TimerReactor) (handler : Nat) (timerID : UInt64) : TimerReactor × Bool :=
  if handler = 0 then (s, false)
  else
    let key := timerKey handler timerID
    let s :=
      match s.mapTimers key with
      | none => s
      | some r => { s with mapTimers := Function.update s.mapTimers key none }.pushEvent r
    (s.unRegisterEvent key, true)

/-- Nothing where the program ends. -/
def attachEvent (s : TimerReactor) (handler : Nat) (timerID : UInt64) (interval callTimes : Nat) (now : Int) :
    Option (TimerReactor × Bool) :=
  if handler = 0 then some (s, false)
  else
    let key := timerKey handler timerID
    let (r, s) := s.popEvent
    if (s.mapTimers key).isSome then some (s.pushEvent r, false)
    else
      let info : TimerInfo :=
        { handler, timerID, interval, callTimes, manager := true, initTime := now, lastCallTime := now }
      let s :=
        { s with
          record := Function.update s.record r ⟨eventTimer, info⟩
          mapTimers := Function.update s.mapTimers key (some r) }
      (s.registerEvent key).map fun (s, registered) =>
        if registered then (s, true) else ((s.detachEvent handler timerID).1, false)

/-- `TimerCallback` up to the call of `OnTimer`. -/
def expire (s : TimerReactor) (key : EventKey) : Option TimerReactor :=
  match s.firing, s.mapEvents key with
  | none, some r => if (s.record r).nType ≠ eventTimer then some s else some { s with firing := some r }
  | _, _ => none

/-- `TimerCallback` from the return of `OnTimer` on, which reads the record again. Nothing where the record was
deleted. -/
def finish (s : TimerReactor) (now : Int) : Option TimerReactor :=
  match s.firing with
  | none => none
  | some r =>
    if s.deleted r then none
    else
      let info := (s.record r).timerInfo
      let info :=
        { info with
          lastCallTime := now
          callTimes := if info.callTimes > 0 then info.callTimes - 1 else info.callTimes }
      let e : ReactorEvent := { s.record r with timerInfo := info }
      let s := { s with record := Function.update s.record r e, firing := none }
      if info.manager = false then some s
      else if info.callTimes = 0 then some (s.detachEvent info.handler info.timerID).1
      else if (s.mapEvents e.key).isNone then some s
      else (getEventTimeout e).map fun _ => s

end TimerReactor

/-- What happens to a timer reactor: calls, from the handler or not, and the two halves of a callback. -/
inductive TimerMove
  | attach (handler : Nat) (timerID : UInt64) (interval callTimes : Nat) (now : Int)
  | detach (handler : Nat) (timerID : UInt64)
  | expire (key : EventKey)
  | finish (now : Int)

def TimerReactor.next (s : TimerReactor) : TimerMove → Option TimerReactor
  | .attach handler timerID interval callTimes now =>
    (s.attachEvent handler timerID interval callTimes now).map Prod.fst
  | .detach handler timerID => some (s.detachEvent handler timerID).1
  | .expire key => s.expire key
  | .finish now => s.finish now

abbrev ReactorRun := StepRun (fun s m t => TimerReactor.next s m = some t) fun s => s = TimerReactor.start

/-- A record that stands in the pool. -/
def TimerReactor.Pooled (s : TimerReactor) (r : Nat) : Prop := ∃ i < s.size, s.elems i = r

namespace TimerReactor

/-- A timer and its event are erased. -/
def dropTimer (s : TimerReactor) (key : EventKey) : TimerReactor :=
  { s with mapTimers := Function.update s.mapTimers key none, mapEvents := Function.update s.mapEvents key none }

/-- A timer and its event are inserted, with a record that is filled in. -/
def putTimer (s : TimerReactor) (r : Nat) (e : ReactorEvent) : TimerReactor :=
  { s with
    record := Function.update s.record r e
    mapTimers := Function.update s.mapTimers e.key (some r)
    mapEvents := Function.update s.mapEvents e.key (some r) }

end TimerReactor

/-- The record of an attached timer is its own, filled in, and can be used. -/
structure TimerReactor.Holds (s : TimerReactor) (key : EventKey) (r : Nat) : Prop where
  created : r < s.created
  unpooled : ¬ s.Pooled r
  kept : s.deleted r = false
  key_eq : (s.record r).key = key
  type : (s.record r).nType = eventTimer
  interval : (s.record r).timerInfo.interval ≠ 0
  manager : (s.record r).timerInfo.manager = true
  handler : (s.record r).timerInfo.handler ≠ 0

/-- Every attached timer has an event and a record, no record stands in the pool twice, and the timer whose handler
runs is attached. -/
structure TimerReactor.Sound (s : TimerReactor) : Prop where
  events : s.mapEvents = s.mapTimers
  attached : ∀ key r, s.mapTimers key = some r → s.Holds key r
  pooled_lt : ∀ r, s.Pooled r → r < s.created ∧ s.deleted r = false
  distinct : ∀ i < s.size, ∀ j < s.size, s.elems i = s.elems j → i = j
  deleted_lt : ∀ r, s.deleted r = true → r < s.created
  firing : ∀ r, s.firing = some r → ∃ key, s.mapTimers key = some r

section

variable {s t : TimerReactor} {key : EventKey} {r : Nat} {handler : Nat} {timerID : UInt64} {interval callTimes : Nat}
  {now : Int}

theorem timerKey_inj {handler' : Nat} {timerID' : UInt64} :
    timerKey handler timerID = timerKey handler' timerID' ↔ handler = handler' ∧ timerID = timerID' := by
  constructor
  · intro h
    obtain ⟨hlow, hhigh, hhandler⟩ := EventKey.mk.inj h
    have hlt := timerID.toNat_lt
    have hlt' := timerID'.toNat_lt
    exact ⟨hhandler, UInt64.toNat_inj.mp (by omega)⟩
  · rintro ⟨rfl, rfl⟩
    rfl

namespace TimerReactor

theorem start_sound : start.Sound where
  events := rfl
  attached _ _ h := nomatch h
  pooled_lt r h := by
    obtain ⟨i, hi, rfl⟩ := h
    exact ⟨hi, rfl⟩
  distinct _ _ _ _ h := h
  deleted_lt _ h := nomatch h
  firing _ h := nomatch h

theorem Holds.transfer (h : s.Holds key r) (hcreated : s.created ≤ t.created) (hpooled : ¬ t.Pooled r)
    (hdeleted : t.deleted r = s.deleted r) (hrecord : t.record r = s.record r) : t.Holds key r where
  created := Nat.lt_of_lt_of_le h.created hcreated
  unpooled := hpooled
  kept := hdeleted.trans h.kept
  key_eq := hrecord ▸ h.key_eq
  type := hrecord ▸ h.type
  interval := hrecord ▸ h.interval
  manager := hrecord ▸ h.manager
  handler := hrecord ▸ h.handler

/-- Distinct timers have distinct records. -/
theorem Sound.key_unique (h : s.Sound) {key' : EventKey} (hkey : s.mapTimers key = some r)
    (hkey' : s.mapTimers key' = some r) : key = key' :=
  (h.attached key r hkey).key_eq.symm.trans (h.attached key' r hkey').key_eq

/-- What is popped is nobody's record, and the other records are as they were. -/
structure Popped (s : TimerReactor) (r : Nat) (t : TimerReactor) : Prop where
  sound : t.Sound
  timers : t.mapTimers = s.mapTimers
  events : t.mapEvents = s.mapEvents
  firing : t.firing = s.firing
  created : r < t.created
  unpooled : ¬ t.Pooled r
  kept : t.deleted r = false
  free : ∀ key, s.mapTimers key ≠ some r
  record : ∀ x < s.created, t.record x = s.record x
  pooled : ∀ x, t.Pooled x → s.Pooled x

theorem Sound.popEvent (h : s.Sound) : Popped s s.popEvent.1 s.popEvent.2 := by
  unfold TimerReactor.popEvent
  split
  next hsize =>
    have hempty : ∀ x, ¬ s.Pooled x := by
      rintro x ⟨i, hi, _⟩
      omega
    have hnew : ∀ x < s.created, Function.update s.record s.created freshEvent x = s.record x :=
      fun x hx => Function.update_of_ne (Nat.ne_of_lt hx) _ _
    have hsound : TimerReactor.Sound
        { s with created := s.created + 1, record := Function.update s.record s.created freshEvent } := by
      refine ⟨h.events, ?_, fun x hx => absurd hx (hempty x), h.distinct, ?_, h.firing⟩
      · intro key r hr
        have hold := h.attached key r hr
        exact hold.transfer (Nat.le_succ _) hold.unpooled rfl (hnew r hold.created)
      · intro x hx
        exact Nat.lt_succ_of_lt (h.deleted_lt x hx)
    have hkept : s.deleted s.created = false := by
      cases hdeleted : s.deleted s.created with
      | false => rfl
      | true => exact absurd (h.deleted_lt _ hdeleted) (Nat.lt_irrefl _)
    refine ⟨hsound, rfl, rfl, rfl, Nat.lt_succ_self _, hempty _, hkept, ?_, hnew, fun x hx => hx⟩
    intro key hkey
    exact Nat.lt_irrefl _ (h.attached key _ hkey).created
  next hsize =>
    have hpooled : s.Pooled (s.elems (s.size - 1)) := ⟨s.size - 1, by omega, rfl⟩
    have hfewer : ∀ x, TimerReactor.Pooled { s with size := s.size - 1 } x → s.Pooled x := by
      rintro x ⟨i, hi, rfl⟩
      exact ⟨i, Nat.lt_of_lt_of_le hi (Nat.sub_le _ _), rfl⟩
    have hsound : TimerReactor.Sound { s with size := s.size - 1 } := by
      refine ⟨h.events, ?_, fun x hx => h.pooled_lt x (hfewer x hx), ?_, h.deleted_lt, h.firing⟩
      · intro key r hr
        have hold := h.attached key r hr
        exact hold.transfer le_rfl (mt (hfewer r) hold.unpooled) rfl rfl
      · intro i hi j hj heq
        exact h.distinct i (Nat.lt_of_lt_of_le hi (Nat.sub_le _ _)) j (Nat.lt_of_lt_of_le hj (Nat.sub_le _ _)) heq
    obtain ⟨hlt, hkept⟩ := h.pooled_lt _ hpooled
    refine ⟨hsound, rfl, rfl, rfl, hlt, ?_, hkept, ?_, fun _ _ => rfl, hfewer⟩
    · rintro ⟨i, hi, heq⟩
      have hi : i < s.size - 1 := hi
      have hsame := h.distinct i (by omega) (s.size - 1) (by omega) heq
      omega
    · intro key hkey
      exact (h.attached key _ hkey).unpooled hpooled

theorem pushEvent_record : (s.pushEvent r).record = s.record := by
  unfold pushEvent
  split <;> rfl

theorem pushEvent_timers : (s.pushEvent r).mapTimers = s.mapTimers := by
  unfold pushEvent
  split <;> rfl

theorem pushEvent_firing : (s.pushEvent r).firing = s.firing := by
  unfold pushEvent
  split <;> rfl

theorem pushEvent_events : (s.pushEvent r).mapEvents = s.mapEvents := by
  unfold pushEvent
  split <;> rfl

theorem pushEvent_created : (s.pushEvent r).created = s.created := by
  unfold pushEvent
  split <;> rfl

theorem pushEvent_pooled {x : Nat} (hx : (s.pushEvent r).Pooled x) : x = r ∨ s.Pooled x := by
  unfold pushEvent at hx
  split at hx
  next => exact Or.inr hx
  next =>
    obtain ⟨i, hi, heq⟩ := hx
    have hi : i < s.size + 1 := hi
    by_cases hlast : i = s.size
    · subst hlast
      exact Or.inl (heq.symm.trans (Function.update_self _ _ _))
    · exact Or.inr ⟨i, by omega, (Function.update_of_ne hlast _ _).symm.trans heq⟩

theorem pushEvent_deleted {x : Nat} (hx : x ≠ r) : (s.pushEvent r).deleted x = s.deleted x := by
  unfold pushEvent
  split
  next => exact Function.update_of_ne hx _ _
  next => rfl

/-- A record that is in nobody's use is given back. -/
theorem Sound.pushEvent (h : s.Sound) (hcreated : r < s.created) (hunpooled : ¬ s.Pooled r)
    (hkept : s.deleted r = false) (hfree : ∀ key, s.mapTimers key ≠ some r) : (s.pushEvent r).Sound where
  events := by
    rw [pushEvent_events, pushEvent_timers, h.events]
  attached := by
    intro key x hx
    rw [pushEvent_timers] at hx
    have hold := h.attached key x hx
    have hne : x ≠ r := fun heq => hfree key (heq ▸ hx)
    apply hold.transfer (Nat.le_of_eq pushEvent_created.symm)
    · intro hpooled
      exact (pushEvent_pooled hpooled).elim hne hold.unpooled
    · exact pushEvent_deleted hne
    · rw [pushEvent_record]
  pooled_lt := by
    intro x hx
    rw [pushEvent_created]
    by_cases hxr : x = r
    · subst hxr
      refine ⟨hcreated, ?_⟩
      unfold TimerReactor.pushEvent at hx ⊢
      split at hx
      next => exact absurd hx hunpooled
      next hroom =>
        rw [if_neg hroom]
        exact hkept
    · rw [pushEvent_deleted hxr]
      exact h.pooled_lt x ((pushEvent_pooled hx).resolve_left hxr)
  distinct := by
    unfold TimerReactor.pushEvent
    split
    next => exact h.distinct
    next =>
      have hold : ∀ i < s.size, Function.update s.elems s.size r i = s.elems i :=
        fun i hi => Function.update_of_ne (Nat.ne_of_lt hi) _ _
      have hnew : ∀ i < s.size, s.elems i ≠ r := fun i hi heq => hunpooled ⟨i, hi, heq⟩
      intro i hi j hj heq
      have hi : i < s.size + 1 := hi
      have hj : j < s.size + 1 := hj
      dsimp only at heq
      by_cases hilast : i = s.size <;> by_cases hjlast : j = s.size
      · rw [hilast, hjlast]
      · rw [hilast, Function.update_self, hold j (by omega)] at heq
        exact absurd heq.symm (hnew j (by omega))
      · rw [hjlast, Function.update_self, hold i (by omega)] at heq
        exact absurd heq (hnew i (by omega))
      · rw [hold i (by omega), hold j (by omega)] at heq
        exact h.distinct i (by omega) j (by omega) heq
  deleted_lt := by
    intro x hx
    rw [pushEvent_created]
    by_cases hxr : x = r
    · rw [hxr]
      exact hcreated
    · rw [pushEvent_deleted hxr] at hx
      exact h.deleted_lt x hx
  firing := by
    rw [pushEvent_firing, pushEvent_timers]
    exact h.firing

theorem Sound.dropTimer (h : s.Sound) (hkey : s.mapTimers key = some r) (hfiring : s.firing ≠ some r) :
    (s.dropTimer key).Sound where
  events := by
    unfold TimerReactor.dropTimer
    dsimp only
    rw [h.events]
  attached := by
    intro key' x hx
    have hx : Function.update s.mapTimers key none key' = some x := hx
    have hne : key' ≠ key := by
      rintro rfl
      rw [Function.update_self] at hx
      cases hx
    rw [Function.update_of_ne hne] at hx
    have hold := h.attached key' x hx
    exact hold.transfer le_rfl hold.unpooled rfl rfl
  pooled_lt := h.pooled_lt
  distinct := h.distinct
  deleted_lt := h.deleted_lt
  firing := by
    intro x hx
    obtain ⟨key', hkey'⟩ := h.firing x hx
    refine ⟨key', ?_⟩
    have hne : key' ≠ key := by
      rintro rfl
      rw [hkey] at hkey'
      cases hkey'
      exact hfiring hx
    exact (Function.update_of_ne hne _ _).trans hkey'

theorem dropTimer_free (h : s.Sound) (hkey : s.mapTimers key = some r) (key' : EventKey) :
    (s.dropTimer key).mapTimers key' ≠ some r := by
  intro hkey'
  have hkey' : Function.update s.mapTimers key none key' = some r := hkey'
  by_cases heq : key' = key
  · rw [heq, Function.update_self] at hkey'
    cases hkey'
  · rw [Function.update_of_ne heq] at hkey'
    exact heq (h.key_unique hkey' hkey)

theorem Sound.detachEvent_eq (h : s.Sound) (hhandler : handler ≠ 0) :
    (s.detachEvent handler timerID).1 =
      match s.mapTimers (timerKey handler timerID) with
      | none => s
      | some r => (s.dropTimer (timerKey handler timerID)).pushEvent r := by
  unfold TimerReactor.detachEvent
  rw [if_neg hhandler]
  dsimp only
  cases hkey : s.mapTimers (timerKey handler timerID) with
  | none =>
    have hnone : s.mapEvents (timerKey handler timerID) = none := by
      rw [h.events, hkey]
    unfold unRegisterEvent
    dsimp only
    rw [← hnone, Function.update_eq_self]
  | some r =>
    dsimp only
    unfold unRegisterEvent TimerReactor.dropTimer TimerReactor.pushEvent
    split <;> rfl

theorem Sound.detach_timer (h : s.Sound) (hkey : s.mapTimers key = some r) (hfiring : s.firing ≠ some r) :
    ((s.dropTimer key).pushEvent r).Sound := by
  have hold := h.attached key r hkey
  exact (h.dropTimer hkey hfiring).pushEvent hold.created hold.unpooled hold.kept (dropTimer_free h hkey)

theorem Sound.putTimer {e : ReactorEvent} (h : s.Sound) (hcreated : r < s.created) (hunpooled : ¬ s.Pooled r)
    (hkept : s.deleted r = false) (hfree : ∀ key, s.mapTimers key ≠ some r) (hnew : s.mapTimers e.key = none)
    (htype : e.nType = eventTimer) (hinterval : e.timerInfo.interval ≠ 0) (hmanager : e.timerInfo.manager = true)
    (hhandler : e.timerInfo.handler ≠ 0) : (s.putTimer r e).Sound where
  events := by
    unfold TimerReactor.putTimer
    dsimp only
    rw [h.events]
  attached := by
    intro key x hx
    have hx : Function.update s.mapTimers e.key (some r) key = some x := hx
    by_cases hkey : key = e.key
    · subst hkey
      rw [Function.update_self] at hx
      cases hx
      have hrecord : (s.putTimer r e).record r = e := Function.update_self _ _ _
      exact ⟨hcreated, hunpooled, hkept, by rw [hrecord], by rw [hrecord, htype], by rwa [hrecord], by rwa [hrecord],
        by rwa [hrecord]⟩
    · rw [Function.update_of_ne hkey] at hx
      have hold := h.attached key x hx
      have hne : x ≠ r := fun heq => hfree key (heq ▸ hx)
      exact hold.transfer le_rfl hold.unpooled rfl (Function.update_of_ne hne _ _)
  pooled_lt := h.pooled_lt
  distinct := h.distinct
  deleted_lt := h.deleted_lt
  firing := by
    intro x hx
    obtain ⟨key, hkey⟩ := h.firing x hx
    have hne : key ≠ e.key := by
      rintro rfl
      rw [hnew] at hkey
      cases hkey
    exact ⟨key, (Function.update_of_ne hne _ _).trans hkey⟩

theorem getEventTimeout_map {α : Type*} {e : ReactorEvent} (htype : e.nType = eventTimer) (x : α) :
    ((getEventTimeout e).map fun _ => x) = if e.timerInfo.interval = 0 then none else some x := by
  unfold getEventTimeout
  rw [if_neg (not_not.mpr htype)]
  split <;> rfl

theorem registerEvent_eq {e : ReactorEvent} (hevent : s.mapEvents key = none) (hkey : s.mapTimers key = some r)
    (hrecord : s.record r = e) (htype : e.nType = eventTimer) :
    s.registerEvent key =
      if e.timerInfo.interval = 0 then none
      else some ({ s with mapEvents := Function.update s.mapEvents key (some r) }, true) := by
  unfold registerEvent
  rw [hevent, hkey]
  dsimp only
  rw [hrecord]
  exact getEventTimeout_map htype _

/-- The record of a timer that is attached. -/
def attachedEvent (handler : Nat) (timerID : UInt64) (interval callTimes : Nat) (now : Int) : ReactorEvent where
  nType := eventTimer
  timerInfo := { handler, timerID, interval, callTimes, manager := true, initTime := now, lastCallTime := now }

theorem Sound.attachEvent_eq (h : s.Sound) (hhandler : handler ≠ 0) :
    (s.attachEvent handler timerID interval callTimes now).map Prod.fst =
      if (s.mapTimers (timerKey handler timerID)).isSome then some (s.popEvent.2.pushEvent s.popEvent.1)
      else if interval = 0 then none
      else some (s.popEvent.2.putTimer s.popEvent.1 (attachedEvent handler timerID interval callTimes now)) := by
  have hpop := h.popEvent
  unfold TimerReactor.attachEvent
  rw [if_neg hhandler]
  dsimp only
  rw [hpop.timers]
  split
  next => rfl
  next hnew =>
    have hnone : s.mapEvents (timerKey handler timerID) = none := by
      rw [h.events]
      exact Option.not_isSome_iff_eq_none.mp hnew
    have hrecord := Function.update_self s.popEvent.1 (attachedEvent handler timerID interval callTimes now)
      s.popEvent.2.record
    rw [registerEvent_eq (by rw [hpop.events, hnone]) (Function.update_self _ _ _) hrecord rfl]
    unfold attachedEvent
    dsimp only
    split
    next => rfl
    next =>
      rw [← hpop.timers]
      rfl

/-- A record after the call of its handler is counted. -/
def calledEvent (e : ReactorEvent) (now : Int) : ReactorEvent :=
  { e with timerInfo := { e.timerInfo with lastCallTime := now, callTimes := e.timerInfo.callTimes - 1 } }

/-- The callback is over, and the call is counted. -/
def countCall (s : TimerReactor) (r : Nat) (now : Int) : TimerReactor :=
  { s with record := Function.update s.record r (calledEvent (s.record r) now), firing := none }

theorem Sound.countCall (h : s.Sound) (hkey : s.mapTimers key = some r) (now : Int) : (s.countCall r now).Sound where
  events := h.events
  attached := by
    intro key' x hx
    have hold := h.attached key' x hx
    by_cases hxr : x = r
    · subst hxr
      have hrecord : (s.countCall x now).record x = calledEvent (s.record x) now := Function.update_self _ _ _
      refine ⟨hold.created, hold.unpooled, hold.kept, ?_, ?_, ?_, ?_, ?_⟩ <;> rw [hrecord]
      · exact hold.key_eq
      · exact hold.type
      · exact hold.interval
      · exact hold.manager
      · exact hold.handler
    · exact hold.transfer le_rfl hold.unpooled rfl (Function.update_of_ne hxr _ _)
  pooled_lt := h.pooled_lt
  distinct := h.distinct
  deleted_lt := h.deleted_lt
  firing := by
    intro x hx
    cases hx

theorem Sound.finish_eq (h : s.Sound) (hfiring : s.firing = some r) (hkey : s.mapTimers key = some r) :
    s.finish now =
      some (if (s.record r).timerInfo.callTimes ≤ 1 then ((s.countCall r now).dropTimer key).pushEvent r
        else s.countCall r now) := by
  have hold := h.attached key r hkey
  have hcalls : (if (s.record r).timerInfo.callTimes > 0 then (s.record r).timerInfo.callTimes - 1
      else (s.record r).timerInfo.callTimes) = (s.record r).timerInfo.callTimes - 1 := by
    split <;> omega
  have hcounted := h.countCall hkey now
  have htimer : timerKey (s.record r).timerInfo.handler (s.record r).timerInfo.timerID = key := hold.key_eq
  have hdetach : ((s.countCall r now).detachEvent (s.record r).timerInfo.handler (s.record r).timerInfo.timerID).1 = _ :=
    hcounted.detachEvent_eq hold.handler
  have hsame : (s.countCall r now).mapTimers key = some r := hkey
  rw [htimer, hsame] at hdetach
  unfold TimerReactor.finish
  rw [hfiring]
  dsimp only
  rw [if_neg (by rw [hold.kept]; exact Bool.false_ne_true), hcalls, if_neg (by rw [hold.manager]; exact Bool.noConfusion)]
  by_cases hlast : (s.record r).timerInfo.callTimes ≤ 1
  · rw [if_pos (by omega), if_pos hlast]
    exact congrArg some hdetach
  · have hevent : s.mapEvents (ReactorEvent.key (calledEvent (s.record r) now)) = some r := by
      rw [h.events]
      exact (congrArg s.mapTimers htimer).trans hkey
    have htype : (calledEvent (s.record r) now).nType = eventTimer := hold.type
    have hinterval : (calledEvent (s.record r) now).timerInfo.interval ≠ 0 := hold.interval
    have htimeout : (getEventTimeout (calledEvent (s.record r) now)).map (fun _ => s.countCall r now) =
        some (s.countCall r now) := (getEventTimeout_map htype _).trans (if_neg hinterval)
    have hisNone : ¬ (s.mapEvents (ReactorEvent.key (calledEvent (s.record r) now))).isNone = true := by
      rw [hevent]
      exact Bool.noConfusion
    unfold calledEvent at hisNone htimeout
    rw [if_neg (by omega), if_neg hisNone, if_neg hlast]
    exact htimeout

end TimerReactor

end

end MasterAI
