import MasterAI.TimerReactor

namespace MasterAI

/-- The timer whose handler is running. -/
def firedKey : List (Transition TimerReactor TimerMove) → Option EventKey
  | [] => none
  | t :: older =>
    match t.event with
    | .expire key => some key
    | .finish _ => none
    | _ => firedKey older

/-- What is promised for a timer: its call count and the calls that were made since it was attached. It is gone when
it is detached, and when the last of its calls is done. -/
def promised : List (Transition TimerReactor TimerMove) → EventKey → Option (Nat × Nat)
  | [], _ => none
  | t :: older, key =>
    match t.event with
    | .attach handler timerID _ callTimes _ =>
      if handler ≠ 0 ∧ timerKey handler timerID = key ∧ promised older key = none then some (callTimes, 0)
      else promised older key
    | .detach handler timerID =>
      if handler ≠ 0 ∧ timerKey handler timerID = key then none else promised older key
    | .expire fired =>
      (promised older key).map fun (times, calls) => (times, if fired = key then calls + 1 else calls)
    | .finish _ =>
      (promised older key).filter fun (times, calls) => firedKey older ≠ some key ∨ calls < times

/-- The timer whose handler is running is not detached. -/
def SparesFired (older : List (Transition TimerReactor TimerMove)) (t : Transition TimerReactor TimerMove) : Prop :=
  match t.event with
  | .detach handler timerID => firedKey older ≠ some (timerKey handler timerID)
  | _ => True

/-- A timer has the calls left that are promised, where the call that is running is not counted yet. -/
def TimerReactor.Owes (s : TimerReactor) (key : EventKey) (fired : Option EventKey) : Option (Nat × Nat) → Prop
  | none => s.mapTimers key = none
  | some (times, calls) =>
    ∃ r done, s.mapTimers key = some r ∧ (s.record r).timerInfo.callTimes + done = times ∧
      (done < times ∨ times = 0 ∧ done = 0) ∧ calls = done + if fired = some key then 1 else 0

section

variable {s t : TimerReactor} {key : EventKey} {r : Nat} {handler : Nat} {timerID : UInt64} {interval callTimes : Nat}
  {now : Int}

namespace TimerReactor

/-- The state is that of its promises. -/
structure Tracks (s : TimerReactor) (fired : Option EventKey) (promise : EventKey → Option (Nat × Nat)) : Prop where
  sound : s.Sound
  fired_eq : fired = s.firing.map fun r => (s.record r).key
  owes : ∀ key, s.Owes key fired (promise key)

/-- Records that stay in the pool are as they were. -/
def Untouched (s t : TimerReactor) : Prop := ∀ r, s.Pooled r → t.Pooled r → t.record r = s.record r

variable {fired : Option EventKey} {promise promise' : EventKey → Option (Nat × Nat)}

theorem Tracks.promise_none (h : s.Tracks fired promise) : promise key = none ↔ s.mapTimers key = none := by
  have howes := h.owes key
  cases hpromise : promise key with
  | none =>
    rw [hpromise] at howes
    exact iff_of_true rfl howes
  | some p =>
    rw [hpromise] at howes
    obtain ⟨r, _, hkey, _⟩ := howes
    rw [hkey]
    exact iff_of_false (Option.some_ne_none p) (Option.some_ne_none r)

theorem Tracks.fired_some (h : s.Tracks fired promise) :
    fired = some key ↔ ∃ r, s.firing = some r ∧ s.mapTimers key = some r := by
  rw [h.fired_eq, Option.map_eq_some_iff]
  constructor
  · rintro ⟨r, hr, rfl⟩
    obtain ⟨key, hkey⟩ := h.sound.firing r hr
    rw [(h.sound.attached key r hkey).key_eq]
    exact ⟨r, hr, hkey⟩
  · rintro ⟨r, hr, hkey⟩
    exact ⟨r, hr, (h.sound.attached key r hkey).key_eq⟩

theorem Owes.frame {fired' : Option EventKey} {p : Option (Nat × Nat)} (h : s.Owes key fired p)
    (htimers : t.mapTimers key = s.mapTimers key) (hrecord : ∀ r, s.mapTimers key = some r → t.record r = s.record r)
    (hfired : fired' = some key ↔ fired = some key) : t.Owes key fired' p := by
  cases p with
  | none => exact htimers.trans h
  | some p =>
    obtain ⟨r, done, hkey, hdone, hleft, hcalls⟩ := h
    refine ⟨r, done, htimers.trans hkey, by rwa [hrecord r hkey], hleft, ?_⟩
    simp only [hfired]
    exact hcalls

/-- A call that changes no record of a timer changes its own promise alone. -/
theorem Tracks.frame (h : s.Tracks fired promise) (hsound : t.Sound) (hfiring : t.firing = s.firing)
    (hrecord : ∀ key r, s.mapTimers key = some r → t.record r = s.record r)
    (howes : ∀ key, (t.mapTimers key = s.mapTimers key ∧ promise' key = promise key) ∨ t.Owes key fired (promise' key)) :
    t.Tracks fired promise' where
  sound := hsound
  fired_eq := by
    rw [h.fired_eq, hfiring]
    apply Option.map_congr
    intro r hr
    obtain ⟨key, hkey⟩ := h.sound.firing r hr
    rw [hrecord key r hkey]
  owes := by
    intro key
    rcases howes key with ⟨htimers, hpromise⟩ | howes
    · rw [hpromise]
      exact Owes.frame (h.owes key) htimers (hrecord key) Iff.rfl
    · exact howes

/-- A record of a timer is not the one that `PopEvent` gives out. -/
theorem Tracks.attached_old (h : s.Tracks fired promise) (hkey : s.mapTimers key = some r) :
    r < s.created ∧ r ≠ s.popEvent.1 := by
  refine ⟨(h.sound.attached key r hkey).created, ?_⟩
  rintro rfl
  exact h.sound.popEvent.free key hkey

/-- An attach of a timer that is there gives its record back to the pool. -/
theorem Tracks.attach_there (h : s.Tracks fired promise) :
    (s.popEvent.2.pushEvent s.popEvent.1).Tracks fired promise ∧
      s.Untouched (s.popEvent.2.pushEvent s.popEvent.1) := by
  have hpop := h.sound.popEvent
  have hsound := hpop.sound.pushEvent hpop.created hpop.unpooled hpop.kept fun key => hpop.timers ▸ hpop.free key
  have htimers : (s.popEvent.2.pushEvent s.popEvent.1).mapTimers = s.mapTimers := pushEvent_timers.trans hpop.timers
  have hrecord : ∀ x < s.created, (s.popEvent.2.pushEvent s.popEvent.1).record x = s.record x := by
    intro x hx
    rw [pushEvent_record, hpop.record x hx]
  refine ⟨h.frame hsound (pushEvent_firing.trans hpop.firing) ?_ ?_, ?_⟩
  · intro key r hkey
    exact hrecord r (h.attached_old hkey).1
  · intro key
    exact Or.inl ⟨congrFun htimers key, rfl⟩
  · intro r hr _
    exact hrecord r (h.sound.pooled_lt r hr).1

/-- An attach of a new timer promises its calls. -/
theorem Tracks.attach_new (h : s.Tracks fired promise) (hhandler : handler ≠ 0) (hinterval : interval ≠ 0)
    (hnone : s.mapTimers (timerKey handler timerID) = none)
    (hself : promise' (timerKey handler timerID) = some (callTimes, 0))
    (hother : ∀ key ≠ timerKey handler timerID, promise' key = promise key) :
    (s.popEvent.2.putTimer s.popEvent.1 (attachedEvent handler timerID interval callTimes now)).Tracks fired promise' ∧
      s.Untouched (s.popEvent.2.putTimer s.popEvent.1 (attachedEvent handler timerID interval callTimes now)) := by
  have hpop := h.sound.popEvent
  have hsound : (s.popEvent.2.putTimer s.popEvent.1
      (attachedEvent handler timerID interval callTimes now)).Sound :=
    hpop.sound.putTimer hpop.created hpop.unpooled hpop.kept (fun key => hpop.timers ▸ hpop.free key)
      (hpop.timers ▸ hnone) rfl hinterval rfl hhandler
  have hrecord : ∀ x < s.created, x ≠ s.popEvent.1 → (s.popEvent.2.putTimer s.popEvent.1
      (attachedEvent handler timerID interval callTimes now)).record x = s.record x := by
    intro x hx hne
    exact (Function.update_of_ne hne _ _).trans (hpop.record x hx)
  refine ⟨h.frame hsound hpop.firing ?_ ?_, ?_⟩
  · intro key r hkey
    exact hrecord r (h.attached_old hkey).1 (h.attached_old hkey).2
  · intro key
    by_cases hkey : key = timerKey handler timerID
    · subst hkey
      right
      rw [hself]
      have hidle : fired ≠ some (timerKey handler timerID) := by
        intro hfired
        obtain ⟨r, _, hr⟩ := h.fired_some.mp hfired
        rw [hnone] at hr
        cases hr
      have hfilled : (s.popEvent.2.putTimer s.popEvent.1
          (attachedEvent handler timerID interval callTimes now)).record s.popEvent.1 =
          attachedEvent handler timerID interval callTimes now := Function.update_self _ _ _
      refine ⟨s.popEvent.1, 0, Function.update_self _ _ _, ?_, by omega, by rw [if_neg hidle]⟩
      rw [hfilled]
      rfl
    · left
      exact ⟨(Function.update_of_ne hkey _ _).trans (congrFun hpop.timers key), hother key hkey⟩
  · intro r hr hpooled
    exact hrecord r (h.sound.pooled_lt r hr).1 fun heq => hpop.unpooled (heq ▸ hpooled)

theorem Tracks.attach (h : s.Tracks fired promise)
    (hnext : s.next (.attach handler timerID interval callTimes now) = some t)
    (hpromise : ∀ key, promise' key = if handler ≠ 0 ∧ timerKey handler timerID = key ∧ promise key = none then
      some (callTimes, 0) else promise key) : t.Tracks fired promise' ∧ s.Untouched t := by
  have hnext : (s.attachEvent handler timerID interval callTimes now).map Prod.fst = some t := hnext
  by_cases hhandler : handler = 0
  · unfold TimerReactor.attachEvent at hnext
    rw [if_pos hhandler] at hnext
    cases hnext
    have hsame : promise' = promise := by
      funext key
      rw [hpromise, if_neg fun hnew => hnew.1 hhandler]
    exact ⟨hsame ▸ h, fun _ _ _ => rfl⟩
  rw [h.sound.attachEvent_eq hhandler] at hnext
  split at hnext
  next hthere =>
    cases hnext
    have hsame : promise' = promise := by
      funext key
      rw [hpromise, if_neg]
      rintro ⟨_, rfl, hnone⟩
      rw [h.promise_none.mp hnone] at hthere
      cases hthere
    exact hsame ▸ h.attach_there
  next hnew =>
    have hnone : s.mapTimers (timerKey handler timerID) = none := Option.not_isSome_iff_eq_none.mp hnew
    split at hnext
    next => cases hnext
    next hinterval =>
      cases hnext
      refine h.attach_new hhandler hinterval hnone ?_ ?_
      · rw [hpromise, if_pos ⟨hhandler, rfl, h.promise_none.mpr hnone⟩]
      · intro key hkey
        rw [hpromise, if_neg fun hnew => hkey hnew.2.1.symm]

theorem Tracks.detach (h : s.Tracks fired promise) (hspared : fired ≠ some (timerKey handler timerID))
    (hpromise : ∀ key, promise' key = if handler ≠ 0 ∧ timerKey handler timerID = key then none else promise key) :
    (s.detachEvent handler timerID).1.Tracks fired promise' ∧ s.Untouched (s.detachEvent handler timerID).1 := by
  by_cases hhandler : handler = 0
  · have hsame : (s.detachEvent handler timerID).1 = s := by
      unfold TimerReactor.detachEvent
      rw [if_pos hhandler]
    rw [hsame]
    refine ⟨h.frame h.sound rfl (fun _ _ _ => rfl) fun key => Or.inl ⟨rfl, ?_⟩, fun _ _ _ => rfl⟩
    rw [hpromise, if_neg fun hnew => hnew.1 hhandler]
  rw [h.sound.detachEvent_eq hhandler]
  have hothers : ∀ key, key ≠ timerKey handler timerID → promise' key = promise key := by
    intro key hkey
    rw [hpromise, if_neg fun hown => hkey hown.2.symm]
  have hown : promise' (timerKey handler timerID) = none := by
    rw [hpromise, if_pos ⟨hhandler, rfl⟩]
  cases hkey : s.mapTimers (timerKey handler timerID) with
  | none =>
    refine ⟨h.frame h.sound rfl (fun _ _ _ => rfl) fun key => ?_, fun _ _ _ => rfl⟩
    by_cases heq : key = timerKey handler timerID
    · subst heq
      right
      rw [hown]
      exact hkey
    · exact Or.inl ⟨rfl, hothers key heq⟩
  | some r =>
    have hidle : s.firing ≠ some r := fun hfiring => hspared (h.fired_some.mpr ⟨r, hfiring, hkey⟩)
    dsimp only
    refine ⟨h.frame (h.sound.detach_timer hkey hidle) pushEvent_firing ?_ ?_, ?_⟩
    · intro _ _ _
      rw [pushEvent_record]
      rfl
    · intro key
      rw [pushEvent_timers]
      by_cases heq : key = timerKey handler timerID
      · subst heq
        right
        rw [hown]
        exact (congrFun pushEvent_timers _).trans (Function.update_self _ _ _)
      · exact Or.inl ⟨Function.update_of_ne heq _ _, hothers key heq⟩
    · intro x _ _
      rw [pushEvent_record]
      rfl

theorem Tracks.expire (h : s.Tracks fired promise) (hnext : s.expire key = some t)
    (hpromise : ∀ key', promise' key' =
      (promise key').map fun (times, calls) => (times, if key = key' then calls + 1 else calls)) :
    t.Tracks (some key) promise' ∧ s.Untouched t := by
  unfold TimerReactor.expire at hnext
  split at hnext
  next r hfiring hevent =>
    rw [h.sound.events] at hevent
    have hold := h.sound.attached key r hevent
    rw [if_neg (not_not.mpr hold.type)] at hnext
    cases hnext
    have hidle : ∀ key', fired ≠ some key' := by
      intro key' hfired
      obtain ⟨x, hx, _⟩ := h.fired_some.mp hfired
      rw [hfiring] at hx
      cases hx
    refine ⟨⟨?_, congrArg some hold.key_eq.symm, ?_⟩, fun _ _ _ => rfl⟩
    · refine ⟨h.sound.events, ?_, h.sound.pooled_lt, h.sound.distinct, h.sound.deleted_lt, ?_⟩
      · intro key' x hx
        have hold' := h.sound.attached key' x hx
        exact hold'.transfer le_rfl hold'.unpooled rfl rfl
      · intro x hx
        cases hx
        exact ⟨key, hevent⟩
    · intro key'
      have howes := h.owes key'
      rw [hpromise]
      cases hp : promise key' with
      | none =>
        rw [hp] at howes
        exact howes
      | some p =>
        obtain ⟨times, calls⟩ := p
        rw [hp] at howes
        obtain ⟨x, done, hx, hdone, hleft, hcalls⟩ := howes
        rw [if_neg (hidle key')] at hcalls
        refine ⟨x, done, hx, hdone, hleft, ?_⟩
        by_cases hkey : key = key'
        · simp [hkey, hcalls]
        · simp [hkey, hcalls]
  next => cases hnext

theorem Sound.countCall_other {key' : EventKey} {x : Nat} (h : s.Sound) (hkey : s.mapTimers key = some r)
    (hne : key' ≠ key) (hx : s.mapTimers key' = some x) : (s.countCall r now).record x = s.record x := by
  apply Function.update_of_ne
  rintro rfl
  exact hne (h.key_unique hx hkey)

theorem Sound.countCall_pooled {x : Nat} (h : s.Sound) (hkey : s.mapTimers key = some r) (hx : s.Pooled x) :
    (s.countCall r now).record x = s.record x := by
  apply Function.update_of_ne
  rintro rfl
  exact (h.attached key x hkey).unpooled hx

/-- The end of a callback changes its own timer alone. -/
theorem Tracks.unfired (h : s.Tracks fired promise) (hfired : fired = some key) (hsound : t.Sound)
    (hidle : t.firing = none) (hown : t.Owes key none (promise' key))
    (hothers : ∀ key', key' ≠ key → promise' key' = promise key' ∧ t.mapTimers key' = s.mapTimers key' ∧
      ∀ x, s.mapTimers key' = some x → t.record x = s.record x) : t.Tracks none promise' where
  sound := hsound
  fired_eq := by
    rw [hidle]
    rfl
  owes := by
    intro key'
    by_cases hne : key' = key
    · rw [hne]
      exact hown
    · obtain ⟨hpromise, htimers, hrecord⟩ := hothers key' hne
      rw [hpromise]
      apply Owes.frame (h.owes key') htimers hrecord
      rw [hfired, Option.some.injEq]
      exact iff_of_false nofun fun heq => hne heq.symm

theorem Tracks.finish (h : s.Tracks fired promise) (hnext : s.finish now = some t)
    (hpromise : ∀ key, promise' key =
      (promise key).filter fun (times, calls) => fired ≠ some key ∨ calls < times) :
    t.Tracks none promise' ∧ s.Untouched t := by
  obtain ⟨r, hfiring⟩ : ∃ r, s.firing = some r := by
    unfold TimerReactor.finish at hnext
    split at hnext
    next => cases hnext
    next r hfiring => exact ⟨r, hfiring⟩
  obtain ⟨key, hkey⟩ := h.sound.firing r hfiring
  have hfired : fired = some key := h.fired_some.mpr ⟨r, hfiring, hkey⟩
  rw [h.sound.finish_eq hfiring hkey] at hnext
  have hcounted := h.sound.countCall hkey now
  have hrest : ∀ key', key' ≠ key → promise' key' = promise key' := by
    intro key' hne
    have hidle : fired ≠ some key' := fun hf => hne (Option.some.inj (hf.symm.trans hfired))
    rw [hpromise]
    cases promise key' with
    | none => rfl
    | some p => rw [Option.filter_some, if_pos (decide_eq_true (Or.inl hidle))]
  obtain ⟨⟨times, calls⟩, hp⟩ : ∃ p, promise key = some p := by
    rw [← Option.ne_none_iff_exists']
    intro hnone
    rw [h.promise_none.mp hnone] at hkey
    cases hkey
  have hown : promise' key = if calls < times then some (times, calls) else none := by
    rw [hpromise, hp, Option.filter_some]
    simp only [hfired, ne_eq, not_true_eq_false, false_or, decide_eq_true_eq]
  have howes := h.owes key
  rw [hp] at howes
  obtain ⟨x, done, hx, hdone, hleft, hcalls⟩ := howes
  rw [hkey] at hx
  cases hx
  rw [if_pos hfired] at hcalls
  by_cases hlast : (s.record r).timerInfo.callTimes ≤ 1
  · -- the last call is done, and the timer is removed
    rw [if_pos hlast] at hnext
    cases hnext
    rw [if_neg (by omega)] at hown
    constructor
    · apply h.unfired hfired (hcounted.detach_timer hkey nofun) pushEvent_firing
      · rw [hown]
        exact (congrFun pushEvent_timers _).trans (Function.update_self _ _ _)
      · intro key' hne
        rw [pushEvent_timers, pushEvent_record]
        exact ⟨hrest key' hne, Function.update_of_ne hne _ _, fun x hx => h.sound.countCall_other hkey hne hx⟩
    · intro x hx _
      rw [pushEvent_record]
      exact h.sound.countCall_pooled hkey hx
  · rw [if_neg hlast] at hnext
    cases hnext
    rw [if_pos (by omega)] at hown
    constructor
    · apply h.unfired hfired hcounted rfl
      · have hcalled : (s.countCall r now).record r = calledEvent (s.record r) now := Function.update_self _ _ _
        have hcount : ((s.countCall r now).record r).timerInfo.callTimes = (s.record r).timerInfo.callTimes - 1 :=
          hcalled ▸ rfl
        rw [hown]
        refine ⟨r, done + 1, hkey, ?_, ?_, ?_⟩
        · omega
        · omega
        · rw [if_neg nofun]
          omega
      · intro key' hne
        exact ⟨hrest key' hne, rfl, fun x hx => h.sound.countCall_other hkey hne hx⟩
    · intro x hx _
      exact h.sound.countCall_pooled hkey hx

end TimerReactor

end

/-- Every timer that is attached has its calls still to come, and is removed after the last one. Records in the pool
are not modified, and no move that is due ends the program. -/
structure CallsKept (trace : List (Transition TimerReactor TimerMove)) (s : TimerReactor) : Prop where
  removed : ∀ key, promised trace key = none → s.mapTimers key = none ∧ s.mapEvents key = none
  remaining : ∀ key times calls, promised trace key = some (times, calls) → 0 < times →
    ∃ r, s.mapTimers key = some r ∧ s.mapEvents key = some r ∧ (s.record r).key = key ∧
      (s.record r).timerInfo.callTimes + calls = times + (if firedKey trace = some key then 1 else 0) ∧
      calls ≤ times ∧ (calls = times → firedKey trace = some key)
  unmodified : ∀ t ∈ trace, t.pre.Untouched t.post
  expires : firedKey trace = none → ∀ key, promised trace key ≠ none → (s.next (.expire key)).isSome
  finishes : firedKey trace ≠ none → ∀ now, (s.next (.finish now)).isSome
  attaches : ∀ handler timerID interval callTimes now, interval ≠ 0 →
    (s.next (.attach handler timerID interval callTimes now)).isSome

section

variable {trace : List (Transition TimerReactor TimerMove)} {s : TimerReactor}

theorem TimerReactor.Tracks.callsKept (h : s.Tracks (firedKey trace) (promised trace))
    (huntouched : ∀ t ∈ trace, t.pre.Untouched t.post) : CallsKept trace s where
  removed := by
    intro key hkey
    have hnone := h.promise_none.mp hkey
    exact ⟨hnone, h.sound.events ▸ hnone⟩
  remaining := by
    intro key times calls hkey htimes
    have howes := h.owes key
    rw [hkey] at howes
    obtain ⟨r, done, hr, hdone, hleft, hcalls⟩ := howes
    refine ⟨r, hr, h.sound.events ▸ hr, (h.sound.attached key r hr).key_eq, ?_, ?_, ?_⟩
    · omega
    · split at hcalls <;> omega
    · intro hall
      by_contra hidle
      rw [if_neg hidle] at hcalls
      omega
  unmodified := huntouched
  expires := by
    intro hidle key hkey
    obtain ⟨r, hr⟩ := Option.ne_none_iff_exists'.mp (mt h.promise_none.mpr hkey)
    have hfiring : s.firing = none := by
      rw [h.fired_eq, Option.map_eq_none_iff] at hidle
      exact hidle
    have hevent : s.mapEvents key = some r := h.sound.events ▸ hr
    unfold TimerReactor.next TimerReactor.expire
    dsimp only
    rw [hfiring, hevent]
    dsimp only
    rw [if_neg (not_not.mpr (h.sound.attached key r hr).type)]
    rfl
  finishes := by
    intro hrunning now
    obtain ⟨key, hkey⟩ := Option.ne_none_iff_exists'.mp hrunning
    obtain ⟨r, hfiring, hr⟩ := h.fired_some.mp hkey
    unfold TimerReactor.next
    dsimp only
    rw [h.sound.finish_eq hfiring hr]
    rfl
  attaches := by
    intro handler timerID interval callTimes now hinterval
    unfold TimerReactor.next
    dsimp only
    by_cases hhandler : handler = 0
    · unfold TimerReactor.attachEvent
      rw [if_pos hhandler]
      rfl
    · rw [h.sound.attachEvent_eq hhandler, if_neg hinterval]
      split <;> rfl

/-- In every run in which no timer is detached while its handler is running, all timers are called as often as
they were attached for. -/
theorem reactorRun_callsKept (run : ReactorRun trace s) (guarded : Guarded SparesFired trace) : CallsKept trace s := by
  have htracks : s.Tracks (firedKey trace) (promised trace) ∧ ∀ t ∈ trace, t.pre.Untouched t.post := by
    refine run.invariant_trace (P := fun trace s =>
      s.Tracks (firedKey trace) (promised trace) ∧ ∀ t ∈ trace, t.pre.Untouched t.post) guarded ?_ ?_
    · rintro s rfl
      exact ⟨⟨TimerReactor.start_sound, rfl, fun _ => rfl⟩, fun t ht => nomatch ht⟩
    · rintro older ⟨s, move, t⟩ hstep hspared ⟨h, huntouched⟩
      have hmove : t.Tracks (firedKey (⟨s, move, t⟩ :: older)) (promised (⟨s, move, t⟩ :: older)) ∧ s.Untouched t := by
        cases move with
        | attach handler timerID interval callTimes now => exact h.attach hstep fun _ => rfl
        | detach handler timerID =>
          obtain rfl : (s.detachEvent handler timerID).1 = t := Option.some.inj hstep
          exact h.detach hspared fun _ => rfl
        | expire key => exact h.expire hstep fun _ => rfl
        | finish now => exact h.finish hstep fun _ => rfl
      exact ⟨hmove.1, List.forall_mem_cons.mpr ⟨hmove.2, huntouched⟩⟩
  exact htracks.1.callsKept htracks.2

end

/-- The run of moves from the start. -/
def reactorRun (moves : List TimerMove) : List (Transition TimerReactor TimerMove) × TimerReactor :=
  runFrom (fun s move => (s.next move).map fun t => (move, t)) .start moves

theorem reactorRun_run (moves : List TimerMove) : ReactorRun (reactorRun moves).1 (reactorRun moves).2 := by
  apply StepRun.runFrom
  · intro s move e t hmove
    obtain ⟨t', hnext, heq⟩ := Option.map_eq_some_iff.mp hmove
    cases heq
    exact hnext
  · rfl

instance (older : List (Transition TimerReactor TimerMove)) (t : Transition TimerReactor TimerMove) :
    Decidable (SparesFired older t) :=
  match t with
  | ⟨_, .attach .., _⟩ => .isTrue trivial
  | ⟨_, .detach .., _⟩ => inferInstanceAs (Decidable (_ ≠ _))
  | ⟨_, .expire _, _⟩ => .isTrue trivial
  | ⟨_, .finish _, _⟩ => .isTrue trivial

/-- A handler that attaches another timer and detaches a third one, and a timer that is called twice and removed. -/
def sparingMoves : List TimerMove :=
  [.attach 1 7 100 2 0, .attach 3 9 100 1 0, .expire (timerKey 1 7), .attach 2 8 100 3 100, .detach 3 9, .finish 100,
    .expire (timerKey 1 7), .finish 200]

theorem sparingMoves_callsKept :
    CallsKept (reactorRun sparingMoves).1 (reactorRun sparingMoves).2 ∧ (reactorRun sparingMoves).1.length = 8 :=
  ⟨reactorRun_callsKept (reactorRun_run sparingMoves) (by decide +kernel), by decide +kernel⟩

/-- A handler that detaches its own timer and attaches another one, which is then called once instead of twice. -/
def detachingMoves : List TimerMove :=
  [.attach 1 7 100 2 0, .expire (timerKey 1 7), .detach 1 7, .attach 2 8 100 2 100, .finish 100,
    .expire (timerKey 2 8), .finish 200]

theorem detached_handler_counts_other :
    ∃ trace s, ReactorRun trace s ∧ promised trace (timerKey 2 8) = some (2, 1) ∧ s.mapTimers (timerKey 2 8) = none ∧
      ¬ CallsKept trace s := by
  have hpromised : promised (reactorRun detachingMoves).1 (timerKey 2 8) = some (2, 1) := by decide +kernel
  have hremoved : (reactorRun detachingMoves).2.mapTimers (timerKey 2 8) = none := by decide +kernel
  refine ⟨_, _, reactorRun_run detachingMoves, hpromised, hremoved, fun hkept => ?_⟩
  obtain ⟨r, hr, _⟩ := hkept.remaining _ _ _ hpromised (by omega)
  rw [hremoved] at hr
  cases hr

end MasterAI
