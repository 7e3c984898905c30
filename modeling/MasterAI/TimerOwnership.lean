import MasterAI.TimerThread
import Mathlib.Data.List.Nodup

namespace MasterAI

/-- The number of times a record stands in the pool, the notify queue and the timer map. -/
def Timers.places (s : Timers) (r : Nat) : Nat :=
  s.pool.count r + (s.lstTimerNotify.filterMap (·.value)).count r + (s.mapTimerTask.map Prod.snd).count r

/-- Every record is in exactly one place, and the record that the pool hands out next is no timer. -/
structure Timers.Owned (s : Timers) : Prop where
  stored : s.overrun = false
  once : ∀ r, s.places r = if r < s.created then 1 else 0
  handedOut : ∀ r t, s.popTimerValue = some (r, t) → ∀ e ∈ t.mapTimerTask, e.2 ≠ r

/-- The first notification attaches a timer under a new key. -/
def Timers.attachesNew (s : Timers) : Bool :=
  match s.lstTimerNotify with
  | [] => false
  | n :: _ =>
    match n.type, n.value with
    | .attach, some r =>
      !decide ((s.setValue r { s.value r with attached := true }).invalidParam n.key r) && (s.find n.key).isNone
    | _, _ => false

/-- The event gives a record back to the pool. -/
def Timers.givesBack (s : Timers) : TimerEvent → Bool
  | .notify _ _ =>
    match s.lstTimerNotify with
    | [] => false
    | n :: _ =>
      match n.type with
      | .attach => n.value.isSome && !s.attachesNew
      | .detach => (s.find n.key).isSome
      | .default => n.value.isSome
  | .expire r _ _ =>
    (s.value r).attached && (s.value r).handler != 0 && decide ((s.value r).callTimes ≤ 1) &&
      (s.find ⟨(s.value r).timerID, (s.value r).handler⟩).isSome
  | _ => false

/-- A call of `event_base_set` that fails. -/
def TimerEvent.baseRefused : TimerEvent → Bool
  | .notify baseSet _ => !baseSet
  | _ => false

/-- The event base takes every new timer, and the pool has room for a record that is given back. -/
def Timers.Keeps (s : Timers) (e : TimerEvent) : Prop :=
  (e.baseRefused = true → s.attachesNew = false) ∧
    (s.givesBack e = true → s.pool.length < s.initSize)

/-- Requests carry a record exactly when they attach. -/
def Timers.WellQueued (s : Timers) : Prop :=
  ∀ n ∈ s.lstTimerNotify, n.type = .attach ∧ n.value.isSome = true ∨ n.type = .detach ∧ n.value = none

/-- The record `r` is in nobody's list while the thread works on it. -/
structure Timers.Missing (s : Timers) (r : Nat) : Prop where
  stored : s.overrun = false
  once : ∀ x, s.places x + (if x = r then 1 else 0) = if x < s.created then 1 else 0

theorem Timers.popTimerValue_cases {s t : Timers} {r : Nat} (h : s.popTimerValue = some (r, t)) :
    (∃ rest, s.pool = r :: rest ∧ t = { s with pool := rest }) ∨
      (s.pool = [] ∧ r = s.created ∧ t = { s with
        created := s.created + 1
        dynamicSize := s.dynamicSize + 1
        value := Function.update s.value s.created freshValue
        pending := Function.update s.pending s.created false }) := by
  unfold popTimerValue at h
  split at h
  next top rest hpool =>
    simp only [Option.some.injEq, Prod.mk.injEq] at h
    exact Or.inl ⟨rest, by rw [hpool, h.1], h.2.symm⟩
  next hpool =>
    split at h
    · simp at h
    · simp only [Option.some.injEq, Prod.mk.injEq] at h
      exact Or.inr ⟨hpool, h.1.symm, h.2.symm⟩

theorem Timers.Owned.of_once {s : Timers} (stored : s.overrun = false)
    (once : ∀ r, s.places r = if r < s.created then 1 else 0) : s.Owned := by
  refine ⟨stored, once, fun r t hpop e he hr => ?_⟩
  have hplaces := once r
  unfold places at hplaces
  have hmap : e ∈ s.mapTimerTask → 0 < (s.mapTimerTask.map Prod.snd).count r := fun hmem =>
    List.count_pos_iff.mpr (hr ▸ List.mem_map_of_mem hmem)
  rcases popTimerValue_cases hpop with ⟨rest, hpool, rfl⟩ | ⟨-, hnew, rfl⟩
  · have := hmap he
    rw [hpool, List.count_cons_self] at hplaces
    split at hplaces <;> omega
  · have := hmap he
    rw [if_neg (by omega)] at hplaces
    omega

section

variable {s : Timers} {r : Nat}

@[simp] theorem Timers.places_setValue (v : TimerValue) (x : Nat) : (s.setValue r v).places x = s.places x :=
  rfl

@[simp] theorem Timers.find_setValue (v : TimerValue) (key : TimerKey) :
    (s.setValue r v).find key = s.find key := rfl

theorem Timers.Owned.setValue (h : s.Owned) (v : TimerValue) : (s.setValue r v).Owned :=
  .of_once h.stored h.once

theorem Timers.Missing.setValue {x : Nat} (h : s.Missing r) (v : TimerValue) : (s.setValue x v).Missing r :=
  ⟨h.stored, h.once⟩

theorem Timers.owned_pending (pending : Nat → Bool) : { s with pending := pending }.Owned ↔ s.Owned :=
  ⟨fun h => .of_once h.stored h.once, fun h => .of_once h.stored h.once⟩

theorem Timers.Owned.registerTimerEvent (h : s.Owned) (added : Bool) : (s.registerTimerEvent r added).Owned := by
  unfold Timers.registerTimerEvent
  split
  · exact .of_once h.stored h.once
  · exact h

theorem Timers.Missing.registerTimerEvent {x : Nat} (h : s.Missing r) (added : Bool) :
    (s.registerTimerEvent x added).Missing r := by
  unfold Timers.registerTimerEvent
  split
  · exact ⟨h.stored, h.once⟩
  · exact h

theorem Timers.registerTimerEvent_pool {added : Bool} :
    (s.registerTimerEvent r added).pool = s.pool ∧ (s.registerTimerEvent r added).initSize = s.initSize := by
  unfold registerTimerEvent
  split <;> exact ⟨rfl, rfl⟩

/-- A record goes back to the pool if and only if there is a slot for it. -/
theorem Timers.Missing.push_iff (h : s.Missing r) : (s.push r).Owned ↔ s.pool.length < s.initSize := by
  unfold push
  constructor
  · intro howned
    by_contra hfull
    have := howned.stored
    rw [if_neg hfull] at this
    cases this
  · intro hroom
    rw [if_pos hroom]
    refine .of_once h.stored fun x => ?_
    have hx := h.once x
    unfold places at hx ⊢
    simp only [List.count_cons, beq_iff_eq] at hx ⊢
    rw [← hx]
    simp only [eq_comm (a := r)]
    omega

theorem Timers.Missing.pushTimerValue_iff (h : s.Missing r) :
    (s.pushTimerValue r).Owned ↔ s.pool.length < s.initSize :=
  (h.setValue _).push_iff

/-- A record that stands somewhere already must not be given back. -/
theorem Timers.Owned.not_push (h : s.Owned) (r : Nat) : ¬(s.push r).Owned := by
  intro howned
  have hbefore := h.once r
  have hafter := howned.once r
  have hstored := howned.stored
  unfold push at hafter hstored
  split at hafter
  next hroom =>
    unfold places at hbefore hafter
    simp only [List.count_cons_self] at hbefore hafter
    omega
  next hfull =>
    rw [if_neg hfull] at hstored
    cases hstored

theorem Timers.Owned.not_pushTimerValue (h : s.Owned) (r : Nat) : ¬(s.pushTimerValue r).Owned :=
  (h.setValue _).not_push r

theorem Timers.Missing.of_popTimerValue {t : Timers} (h : s.Owned) (hpop : s.popTimerValue = some (r, t)) :
    t.Missing r := by
  rcases popTimerValue_cases hpop with ⟨rest, hpool, rfl⟩ | ⟨hpool, rfl, rfl⟩
  · refine ⟨h.stored, fun x => ?_⟩
    have hx := h.once x
    unfold places at hx ⊢
    rw [hpool] at hx
    simp only [List.count_cons, beq_iff_eq] at hx ⊢
    rw [← hx]
    simp only [eq_comm (a := r)]
    omega
  · refine ⟨h.stored, fun x => ?_⟩
    have hx := h.once x
    unfold places at hx ⊢
    simp only at hx ⊢
    rw [hx]
    split_ifs <;> omega

/-- A record that is sent to the thread stands in the queue. -/
theorem Timers.Missing.enqueue (h : s.Missing r) {n : TimerNotify} (hn : n.value = some r) :
    { s with lstTimerNotify := s.lstTimerNotify ++ [n] }.Owned := by
  refine .of_once h.stored fun x => ?_
  have hx := h.once x
  unfold places at hx ⊢
  simp only [List.filterMap_append, List.filterMap_cons, hn, List.filterMap_nil, List.count_append,
    List.count_singleton, beq_iff_eq] at hx ⊢
  rw [← hx]
  simp only [eq_comm (a := r)]
  omega

/-- A notification is taken from the queue with its record. -/
theorem Timers.Missing.dequeue (h : s.Owned) {n : TimerNotify} {rest : List TimerNotify}
    (hqueue : s.lstTimerNotify = n :: rest) (hn : n.value = some r) :
    { s with lstTimerNotify := rest }.Missing r := by
  refine ⟨h.stored, fun x => ?_⟩
  have hx := h.once x
  unfold places at hx ⊢
  rw [hqueue] at hx
  simp only [List.filterMap_cons, hn, List.count_cons, beq_iff_eq] at hx ⊢
  rw [← hx]
  simp only [eq_comm (a := r)]
  omega

theorem Timers.Owned.dequeue (h : s.Owned) {n : TimerNotify} {rest : List TimerNotify}
    (hqueue : s.lstTimerNotify = n :: rest) (hn : n.value = none) : { s with lstTimerNotify := rest }.Owned := by
  refine .of_once h.stored fun x => ?_
  have hx := h.once x
  unfold places at hx ⊢
  rw [hqueue] at hx
  simpa only [List.filterMap_cons, hn] using hx

theorem count_eraseP_snd {map : List (TimerKey × Nat)} {key : TimerKey}
    (h : (map.find? fun e => e.1 = key).map Prod.snd = some r) (x : Nat) :
    ((map.eraseP fun e => e.1 = key).map Prod.snd).count x + (if x = r then 1 else 0) =
      (map.map Prod.snd).count x := by
  induction map with
  | nil => simp at h
  | cons e map ih =>
    by_cases he : e.1 = key
    · simp only [List.find?_cons, he, decide_true, Option.map_some, Option.some.injEq] at h
      simp only [List.eraseP_cons, he, decide_true, cond_true, List.map_cons, List.count_cons, h, beq_iff_eq]
      simp only [eq_comm (a := r)]
    · simp only [List.find?_cons, he, decide_false] at h
      have hrest := ih h
      simp only [List.eraseP_cons, he, decide_false, cond_false, List.map_cons, List.count_cons]
      omega

/-- A timer leaves the map, and its record goes back to the pool if there is a slot for it. -/
theorem Timers.Owned.doDetach_iff (h : s.Owned) (key : TimerKey) :
    (s.doDetach key).1.Owned ↔ ((s.find key).isSome = true → s.pool.length < s.initSize) := by
  unfold doDetach
  split
  next r hfind =>
    have hmissing : { s with
        mapTimerTask := s.mapTimerTask.eraseP fun e => e.1 = key
        pending := Function.update s.pending r false }.Missing r := by
      refine ⟨h.stored, fun x => ?_⟩
      have hx := h.once x
      have herase := count_eraseP_snd hfind x
      unfold places at hx ⊢
      simp only at hx ⊢
      omega
    rw [hmissing.pushTimerValue_iff, hfind]
    simp
  next hfind => simp [hfind, h]

/-- A new timer enters the map if the event base takes it, and every other record goes back to the
pool if there is a slot for it. -/
theorem Timers.Missing.doAttack_iff (h : s.Missing r) (key : TimerKey) (baseSet added : Bool) :
    (s.doAttack key r baseSet added).Owned ↔
      if s.invalidParam key r ∨ (s.find key).isSome = true then s.pool.length < s.initSize
      else baseSet = true := by
  unfold doAttack
  split
  next hinvalid => rw [h.pushTimerValue_iff, if_pos (Or.inl hinvalid)]
  next hvalid =>
    split
    next old hfind =>
      rw [((h.setValue _).registerTimerEvent added).pushTimerValue_iff, if_pos (Or.inr (by simp [hfind])),
        registerTimerEvent_pool.1, registerTimerEvent_pool.2]
      rfl
    next hfind =>
      have hnew : ¬(s.invalidParam key r ∨ (s.find key).isSome = true) := by simp [hvalid, hfind]
      rw [if_neg hnew]
      have hentered : { s with mapTimerTask := s.mapTimerTask ++ [(key, r)] }.Owned := by
        refine .of_once h.stored fun x => ?_
        have hx := h.once x
        unfold places at hx ⊢
        simp only [List.map_append, List.map_cons, List.map_nil, List.count_append, List.count_singleton,
          beq_iff_eq] at hx ⊢
        rw [← hx]
        simp only [eq_comm (a := r)]
        omega
      cases baseSet with
      | true => exact iff_of_true (hentered.registerTimerEvent added) rfl
      | false =>
        exact iff_of_false (hentered.not_pushTimerValue r) (by simp)

theorem Timers.Owned.attack (h : s.Owned) (handler timerID interval callTimes : Nat) (now : Int) :
    (s.attack handler timerID interval callTimes now).Owned := by
  unfold Timers.attack
  split
  · exact h
  · split
    · exact h
    next r t hpop => exact ((Missing.of_popTimerValue h hpop).setValue _).enqueue rfl

theorem Timers.Owned.detach (h : s.Owned) (handler timerID : Nat) : (s.detach handler timerID).Owned := by
  unfold Timers.detach
  split
  · exact h
  · refine .of_once h.stored fun x => ?_
    have hx := h.once x
    unfold places at hx ⊢
    simpa using hx

theorem Timers.Owned.notifyCallback_iff (h : s.Owned) (hqueued : s.WellQueued) (baseSet added : Bool) :
    (s.notifyCallback baseSet added).Owned ↔ s.Keeps (.notify baseSet added) := by
  unfold notifyCallback Keeps givesBack attachesNew TimerEvent.baseRefused
  cases hqueue : s.lstTimerNotify with
  | nil => simp [h]
  | cons n rest =>
    rcases hqueued n (by simp [hqueue]) with ⟨htype, hvalue⟩ | ⟨htype, hvalue⟩
    · obtain ⟨r, hr⟩ := Option.isSome_iff_exists.mp hvalue
      simp only [htype, hr]
      rw [((Missing.dequeue h hqueue hr).setValue _).doAttack_iff]
      change (if (s.setValue r { s.value r with attached := true }).invalidParam n.key r ∨
        (s.find n.key).isSome = true then s.pool.length < s.initSize else baseSet = true) ↔ _
      by_cases hinvalid : (s.setValue r { s.value r with attached := true }).invalidParam n.key r
      · simp [hinvalid]
      · cases hfind : s.find n.key with
        | some old => simp [hinvalid]
        | none => cases baseSet <;> simp [hinvalid]
    · simp only [htype, hvalue]
      rw [(h.dequeue hqueue hvalue).doDetach_iff]
      change ((s.find n.key).isSome = true → s.pool.length < s.initSize) ↔ _
      simp

theorem Timers.Owned.timerCallback_iff (h : s.Owned) (r : Nat) (now : Int) (added : Bool) :
    (s.timerCallback r now added).Owned ↔ s.Keeps (.expire r now added) := by
  unfold timerCallback Keeps givesBack TimerEvent.baseRefused
  simp only [Bool.false_eq_true, IsEmpty.forall_iff, true_and]
  split
  next hidle =>
    refine iff_of_true h ?_
    rcases hidle with hidle | hidle <;> simp [hidle]
  next hactive =>
    obtain ⟨hattached, hhandler⟩ := not_or.mp hactive
    have hattached : (s.value r).attached = true := by simpa using hattached
    split
    next hlast =>
      have hcalls : (s.value r).callTimes ≤ 1 := by omega
      have hdetach := (h.setValue (r := r) { s.value r with
        lastCallTime := now, callTimes := (s.value r).callTimes - 1 }).doDetach_iff
          ⟨(s.value r).timerID, (s.value r).handler⟩
      have hgives : ((s.value r).attached && (s.value r).handler != 0 && decide ((s.value r).callTimes ≤ 1) &&
          (s.find ⟨(s.value r).timerID, (s.value r).handler⟩).isSome) =
          (s.find ⟨(s.value r).timerID, (s.value r).handler⟩).isSome := by
        simp [hattached, hhandler, hcalls]
      rw [hgives]
      split
      · exact hdetach
      · rw [owned_pending]
        exact hdetach
    next hmore =>
      refine iff_of_true ((h.setValue _).registerTimerEvent added) ?_
      simp [show ¬(s.value r).callTimes ≤ 1 by omega]

/-- One request or callback leaves every record in one place if and only if it meets the condition. -/
theorem Timers.Owned.step_iff {e : TimerEvent} {t : Timers} (h : s.Owned) (hqueued : s.WellQueued)
    (hstep : s.step e = some t) : t.Owned ↔ s.Keeps e := by
  cases e with
  | attack handler timerID interval callTimes now =>
    simp only [step, h.stored, Bool.false_eq_true, if_false, Option.some.injEq] at hstep
    subst hstep
    exact iff_of_true (h.attack ..) ⟨by simp [TimerEvent.baseRefused], by simp [givesBack]⟩
  | detach handler timerID =>
    simp only [step, h.stored, Bool.false_eq_true, if_false, Option.some.injEq] at hstep
    subst hstep
    exact iff_of_true (h.detach ..) ⟨by simp [TimerEvent.baseRefused], by simp [givesBack]⟩
  | notify baseSet added =>
    simp only [step, h.stored, Bool.false_eq_true, if_false, Option.some.injEq] at hstep
    subst hstep
    exact h.notifyCallback_iff hqueued baseSet added
  | expire r now added =>
    simp only [step] at hstep
    split at hstep
    · simp at hstep
    · cases Option.some.inj hstep
      exact h.timerCallback_iff r now added

theorem Timers.WellQueued.snoc (h : s.WellQueued) {n : TimerNotify} {queue : List TimerNotify}
    (hqueue : queue = s.lstTimerNotify)
    (hn : n.type = .attach ∧ n.value.isSome = true ∨ n.type = .detach ∧ n.value = none) :
    ∀ m ∈ queue ++ [n], m.type = .attach ∧ m.value.isSome = true ∨ m.type = .detach ∧ m.value = none := by
  intro m hm
  rcases List.mem_append.mp hm with hm | hm
  · exact h m (hqueue ▸ hm)
  · rw [List.mem_singleton.mp hm]
    exact hn

theorem Timers.lstTimerNotify_pushTimerValue : (s.pushTimerValue r).lstTimerNotify = s.lstTimerNotify := by
  unfold pushTimerValue push
  split <;> rfl

theorem Timers.lstTimerNotify_registerTimerEvent {added : Bool} :
    (s.registerTimerEvent r added).lstTimerNotify = s.lstTimerNotify := by
  unfold registerTimerEvent
  split <;> rfl

theorem Timers.lstTimerNotify_doAttack {key : TimerKey} {baseSet added : Bool} :
    (s.doAttack key r baseSet added).lstTimerNotify = s.lstTimerNotify := by
  unfold doAttack
  split
  · exact lstTimerNotify_pushTimerValue
  · split
    · exact lstTimerNotify_pushTimerValue.trans lstTimerNotify_registerTimerEvent
    · simp only
      split
      · exact lstTimerNotify_registerTimerEvent
      · exact lstTimerNotify_pushTimerValue

theorem Timers.lstTimerNotify_doDetach {key : TimerKey} :
    (s.doDetach key).1.lstTimerNotify = s.lstTimerNotify := by
  unfold doDetach
  split
  · exact lstTimerNotify_pushTimerValue
  · rfl

theorem Timers.WellQueued.attack (h : s.WellQueued) (handler timerID interval callTimes : Nat) (now : Int) :
    (s.attack handler timerID interval callTimes now).WellQueued := by
  unfold Timers.attack
  split
  · exact h
  · split
    · exact h
    next r t hpop =>
      refine h.snoc ?_ (Or.inl ⟨rfl, rfl⟩)
      rcases popTimerValue_cases hpop with ⟨_, -, rfl⟩ | ⟨-, -, rfl⟩ <;> rfl

theorem Timers.WellQueued.detach (h : s.WellQueued) (handler timerID : Nat) :
    (s.detach handler timerID).WellQueued := by
  unfold Timers.detach
  split
  · exact h
  · exact h.snoc rfl (Or.inr ⟨rfl, rfl⟩)

theorem Timers.WellQueued.notifyCallback (h : s.WellQueued) (baseSet added : Bool) :
    (s.notifyCallback baseSet added).WellQueued := by
  unfold Timers.notifyCallback
  cases hqueue : s.lstTimerNotify with
  | nil => exact h
  | cons n rest =>
    have hrest : ∀ m ∈ rest, m.type = .attach ∧ m.value.isSome = true ∨ m.type = .detach ∧ m.value = none :=
      fun m hm => h m (by simp [hqueue, hm])
    rcases h n (by simp [hqueue]) with ⟨htype, hvalue⟩ | ⟨htype, hvalue⟩
    · obtain ⟨r, hr⟩ := Option.isSome_iff_exists.mp hvalue
      simp only [htype, hr, WellQueued]
      rw [lstTimerNotify_doAttack]
      exact hrest
    · simp only [htype, hvalue, WellQueued]
      rw [lstTimerNotify_doDetach]
      exact hrest

theorem Timers.WellQueued.timerCallback (h : s.WellQueued) (r : Nat) (now : Int) (added : Bool) :
    (s.timerCallback r now added).WellQueued := by
  unfold Timers.timerCallback
  simp only
  split
  · exact h
  · split
    · split
      · unfold WellQueued
        rw [lstTimerNotify_doDetach]
        exact h
      · unfold WellQueued
        simp only
        rw [lstTimerNotify_doDetach]
        exact h
    · unfold WellQueued
      rw [lstTimerNotify_registerTimerEvent]
      exact h

theorem Timers.WellQueued.step {e : TimerEvent} {t : Timers} (h : s.WellQueued) (hstep : s.step e = some t) :
    t.WellQueued := by
  cases e with
  | attack handler timerID interval callTimes now =>
    simp only [Timers.step, Option.ite_none_left_eq_some, Option.some.injEq] at hstep
    exact hstep.2 ▸ h.attack handler timerID interval callTimes now
  | detach handler timerID =>
    simp only [Timers.step, Option.ite_none_left_eq_some, Option.some.injEq] at hstep
    exact hstep.2 ▸ h.detach handler timerID
  | notify baseSet added =>
    simp only [Timers.step, Option.ite_none_left_eq_some, Option.some.injEq] at hstep
    exact hstep.2 ▸ h.notifyCallback baseSet added
  | expire r now added =>
    simp only [Timers.step, Option.ite_none_left_eq_some, Option.some.injEq] at hstep
    exact hstep.2 ▸ h.timerCallback r now added

end

theorem Timers.init_owned {preNodeCnt : Nat} {s : Timers} (h : Timers.init preNodeCnt = some s) :
    s.Owned ∧ s.WellQueued := by
  unfold Timers.init at h
  split at h
  · simp at h
  · cases Option.some.inj h
    refine ⟨.of_once rfl fun r => ?_, fun n hn => by simp at hn⟩
    simp only [places, List.count_reverse, List.filterMap_nil, List.count_nil, List.map_nil, Nat.add_zero]
    split
    next hr => exact List.count_eq_one_of_mem List.nodup_range (List.mem_range.mpr hr)
    next hr => exact List.count_eq_zero_of_not_mem fun hmem => hr (List.mem_range.mp hmem)

theorem wellQueued_of_run {trace : List (Transition Timers TimerEvent)} {s : Timers} (run : TimerRun trace s) :
    s.WellQueued := by
  refine run.always ?_ fun _ _ _ hstep h => h.step hstep
  rintro _ ⟨preNodeCnt, h⟩
  exact (Timers.init_owned h).2

/-- Every state of a run has each record in exactly one place if and only if no step of the run
meets a failure of the event base for a new timer or a full pool. -/
theorem owned_run_iff {trace : List (Transition Timers TimerEvent)} {s : Timers} (run : TimerRun trace s) :
    (s.Owned ∧ ∀ m ∈ trace, m.pre.Owned) ↔ ∀ m ∈ trace, m.pre.Keeps m.event := by
  induction run with
  | start hstart =>
    obtain ⟨preNodeCnt, h⟩ := hstart
    exact iff_of_true ⟨(Timers.init_owned h).1, by simp⟩ (by simp)
  | @next trace s e t run hstep ih =>
    have hqueued := wellQueued_of_run run
    simp only [List.mem_cons, forall_eq_or_imp]
    constructor
    · rintro ⟨ht, hs, hall⟩
      exact ⟨(hs.step_iff hqueued hstep).mp ht, ih.mp ⟨hs, hall⟩⟩
    · rintro ⟨hkeeps, hall⟩
      obtain ⟨hs, howned⟩ := ih.mpr hall
      exact ⟨(hs.step_iff hqueued hstep).mpr hkeeps, hs, howned⟩

def Timers.perform (s : Timers) (e : TimerEvent) : Option (TimerEvent × Timers) := (s.step e).map fun t => (e, t)

theorem Timers.perform_step (s : Timers) (e e' : TimerEvent) (t : Timers) (h : s.perform e = some (e', t)) :
    s.step e' = some t := by
  obtain ⟨u, hu, h⟩ := Option.map_eq_some_iff.mp h
  cases h
  exact hu

def twoTimers : Timers := (Timers.init 2).get (by decide)

theorem twoTimers_run (events : List TimerEvent) :
    TimerRun (runFrom Timers.perform twoTimers events).1 (runFrom Timers.perform twoTimers events).2 :=
  StepRun.runFrom Timers.perform_step ⟨2, (Option.some_get _).symm⟩ events

instance (s : Timers) (e : TimerEvent) : Decidable (s.Keeps e) :=
  inferInstanceAs (Decidable ((_ → _) ∧ (_ → _)))

/-- A timer that is attached, covered by a second request and expires twice. -/
def coveredTimer : List TimerEvent :=
  [.attack 7 1 1000 1 50, .notify true true, .attack 7 1 500 2 60, .notify true false, .expire 1 70 true,
    .expire 1 80 true, .detach 7 1, .notify true true]

theorem owned_coveredTimer : (runFrom Timers.perform twoTimers coveredTimer).1.length = 8 ∧
    (runFrom Timers.perform twoTimers coveredTimer).2.Owned :=
  ⟨by decide +kernel, ((owned_run_iff (twoTimers_run coveredTimer)).mpr (by decide +kernel)).1⟩

/-- The event base refuses a new timer, and its record is in the pool while the map still holds it. -/
theorem refused_timer_twice :
    ∃ trace s, TimerRun trace s ∧ 1 ∈ s.pool ∧ (⟨1, 7⟩, 1) ∈ s.mapTimerTask ∧ ¬s.Owned := by
  refine ⟨_, _, twoTimers_run [.attack 7 1 1000 1 50, .notify false true], by decide +kernel,
    by decide +kernel, fun howned => ?_⟩
  have honce := howned.once 1
  revert honce
  decide +kernel

end MasterAI
