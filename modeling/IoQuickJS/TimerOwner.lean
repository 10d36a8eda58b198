import IoQuickJS.Library.Transition
import Mathlib.Data.List.Basic
import Mathlib.Logic.Function.Basic

/-!
# Who frees a timer record

io_js_setTimeout statement by statement, against the finalizer of the timer object, clearTimeout,
the expiry of alarms and the delivery of their events. Event handlers preempt script code, so an
event can be delivered as soon as io_enqueue_alarm has returned. `fault` is set when a record is
used or freed after it has been freed.
-/
namespace IoQuickJS

open Function (update update_self update_apply update_eq_self)

namespace TimerOwner

/-- The fields of a `JS_IOTimer` that decide who frees it; `alarm` is `is_io_alarm_active`. -/
structure JSIOTimer where
  hasObject : Bool
  alarm : Bool
  deriving DecidableEq

/-- The statement of io_js_setTimeout that is next, with the locals `obj` and `tmr`. -/
inductive SetTimeoutPc where
  | newObject
  | mallocz (obj : Nat)
  | initialise (obj tmr : Nat)
  | enqueueAlarm (obj tmr : Nat)
  | setHasObject (obj tmr : Nat)
  | setOpaque (obj tmr : Nat)
  deriving DecidableEq

/-- `objects` are the timer objects with their opaque pointers, `timers` the records, `events`
the `on_timeout` events that have been queued and not delivered, `call` the call of
io_js_setTimeout in progress. `finalized` and `ended` are not in the source: the records whose
object has been finalized, and those whose alarm has been dequeued or event delivered. -/
structure State where
  next : Nat
  objects : Nat → Option (Option Nat)
  timers : Nat → Option JSIOTimer
  events : List Nat
  call : Option SetTimeoutPc
  fault : Bool
  finalized : List Nat
  ended : List Nat

def init : State where
  next := 0
  objects := fun _ => none
  timers := fun _ => none
  events := []
  call := none
  fault := false
  finalized := []
  ended := []

/-- Write to the fields of a record. -/
def modifyTimer (s : State) (r : Nat) (f : JSIOTimer → JSIOTimer) : State :=
  match s.timers r with
  | some tmr => { s with timers := update s.timers r (some (f tmr)) }
  | none => { s with fault := true }

/-- `free_io_js_timer` -/
def freeIoJsTimer (s : State) (r : Nat) : State :=
  match s.timers r with
  | some _ => { s with timers := update s.timers r none }
  | none => { s with fault := true }

/-- `is_io_alarm_active`; what it reads in a freed record does not matter. -/
def isIoAlarmActive (s : State) (r : Nat) : Bool := (s.timers r).any JSIOTimer.alarm

/-- `io_js_timer_finalizer` of an object whose opaque pointer is `uOpaque`. -/
def ioJsTimerFinalizer (s : State) (uOpaque : Option Nat) : State :=
  match uOpaque with
  | some r =>
    let s := modifyTimer s r fun tmr => { tmr with hasObject := false }
    let s := if isIoAlarmActive s r then s else freeIoJsTimer s r
    { s with finalized := r :: s.finalized }
  | none => s

/-- `io_js_setTimeout_on_timeout`, as far as it uses the record. -/
def ioJsSetTimeoutOnTimeout (s : State) (r : Nat) : State :=
  match s.timers r with
  | some tmr =>
    let s := if !tmr.hasObject then freeIoJsTimer s r else s
    { s with ended := r :: s.ended }
  | none => { s with fault := true }

/-- `io_js_clearTimeout` of an object whose opaque pointer is `r`. -/
def ioJsClearTimeout (s : State) (r : Nat) : State :=
  if isIoAlarmActive s r then
    let s := modifyTimer s r fun tmr => { tmr with alarm := false }
    { s with ended := r :: s.ended }
  else modifyTimer s r id

/-- The next statement of `io_js_setTimeout`; `ok` is whether it finds the memory it asks for. -/
def setTimeoutStep (s : State) (ok : Bool) : SetTimeoutPc → State
  | .newObject =>
    if ok then { s with
      next := s.next + 1
      objects := update s.objects s.next (some none)
      call := some (.mallocz s.next) }
    else { s with call := none }
  | .mallocz obj =>
    if ok then { s with
      next := s.next + 1
      timers := update s.timers s.next (some ⟨false, false⟩)
      call := some (.initialise obj s.next) }
    else { s with objects := update s.objects obj none, call := none }
  | .initialise obj tmr => { modifyTimer s tmr id with call := some (.enqueueAlarm obj tmr) }
  | .enqueueAlarm obj tmr =>
    { modifyTimer s tmr fun t => { t with alarm := true } with
      call := some (.setHasObject obj tmr) }
  | .setHasObject obj tmr =>
    { modifyTimer s tmr fun t => { t with hasObject := true } with
      call := some (.setOpaque obj tmr) }
  | .setOpaque obj tmr =>
    { s with objects := update s.objects obj (some (some tmr)), call := none }

/-- The object that the call in progress holds on to. -/
@[grind] def SetTimeoutPc.obj : SetTimeoutPc → Option Nat
  | .newObject => none
  | .mallocz obj | .initialise obj _ | .enqueueAlarm obj _ | .setHasObject obj _
  | .setOpaque obj _ => some obj

@[grind] def State.obj (s : State) : Option Nat := s.call.bind SetTimeoutPc.obj

inductive Label where
  | setTimeout
  | statement (ok : Bool)
  | clearTimeout (p : Nat)
  | finalize (p : Nat)
  | expire (r : Nat)
  | deliver (r : Nat)

def step (s : State) : Label → Option State
  | .setTimeout => if s.call = none then some { s with call := some .newObject } else none
  | .statement ok => s.call.map (setTimeoutStep s ok)
  | .clearTimeout p =>
    match s.call, s.objects p with
    | none, some (some r) => some (ioJsClearTimeout s r)
    | _, _ => none
  | .finalize p =>
    match s.objects p with
    | some uOpaque =>
      if s.obj = some p then none
      else some (ioJsTimerFinalizer { s with objects := update s.objects p none } uOpaque)
    | none => none
  | .expire r =>
    match s.timers r with
    | some tmr =>
      if tmr.alarm then
        some { s with
          timers := update s.timers r (some { tmr with alarm := false })
          events := s.events ++ [r] }
      else none
    | none => none
  | .deliver r =>
    if r ∈ s.events then some (ioJsSetTimeoutOnTimeout { s with events := s.events.erase r } r)
    else none

/-! ## The law -/

/-- No freed record has been used, and a record that neither the object nor the alarm needs any
more has been freed. -/
structure Law (s : State) : Prop where
  safe : s.fault = false
  freed : ∀ r ∈ s.finalized, r ∈ s.ended → s.timers r = none

/-- The record that the call in progress is still to give to its object. -/
@[grind] def SetTimeoutPc.tmr : SetTimeoutPc → Option Nat
  | .newObject | .mallocz _ => none
  | .initialise _ tmr | .enqueueAlarm _ tmr | .setHasObject _ tmr | .setOpaque _ tmr => some tmr

@[grind] def State.tmr (s : State) : Option Nat := s.call.bind SetTimeoutPc.tmr

/-- has_object has been set. -/
@[grind] def SetTimeoutPc.owned : SetTimeoutPc → Bool
  | .setOpaque _ _ => true
  | _ => false

@[grind] def State.owned (s : State) : Bool := s.call.any SetTimeoutPc.owned

/-- The alarm has been queued. -/
@[grind] def SetTimeoutPc.armed : SetTimeoutPc → Bool
  | .setHasObject _ _ | .setOpaque _ _ => true
  | _ => false

@[grind] def State.armed (s : State) : Bool := s.call.any SetTimeoutPc.armed

/-- No timer object is finalized while the event of its timer is queued, and no event is delivered
before io_js_setTimeout has set has_object. -/
def InTurn (s : State) : Label → Prop
  | .finalize p => ∀ r ∈ s.events, s.objects p ≠ some (some r)
  | .deliver r => s.tmr = some r → s.owned
  | _ => True

instance (s : State) : ∀ l, Decidable (InTurn s l)
  | .finalize p => inferInstanceAs (Decidable (∀ r ∈ s.events, s.objects p ≠ some (some r)))
  | .deliver r => inferInstanceAs (Decidable (s.tmr = some r → s.owned))
  | .setTimeout | .statement _ | .clearTimeout _ | .expire _ => inferInstanceAs (Decidable True)

/-- The invariant: who owns each record. -/
structure Owned (s : State) : Prop where
  safe : s.fault = false
  timers_lt : ∀ r tmr, s.timers r = some tmr → r < s.next
  objects_lt : ∀ p uOpaque, s.objects p = some uOpaque → p < s.next
  /-- the record of an object -/
  object : ∀ p r, s.objects p = some (some r) →
    ∃ tmr, s.timers r = some tmr ∧ tmr.hasObject ∧ r ∉ s.finalized
  inj : ∀ p q r, s.objects p = some (some r) → s.objects q = some (some r) → p = q
  /-- the object and the record of the call in progress -/
  obj : ∀ p, s.obj = some p → s.objects p = some none
  tmr : ∀ r, s.tmr = some r → ∃ tmr, s.timers r = some tmr ∧ tmr.hasObject = s.owned
  fresh : ∀ r, s.tmr = some r → r ∉ s.finalized ∧ ∀ p, s.objects p ≠ some (some r)
  unarmed : ∀ r tmr, s.tmr = some r → s.armed = false → s.timers r = some tmr →
    tmr.alarm = false ∧ r ∉ s.events ∧ r ∉ s.ended
  /-- a record without an object waits for its event -/
  waits : ∀ r tmr, s.timers r = some tmr → tmr.hasObject = false →
    s.tmr = some r ∨ tmr.alarm ∨ r ∈ s.events
  event : ∀ r ∈ s.events, ∃ tmr, s.timers r = some tmr ∧ tmr.alarm = false
  once : s.events.Nodup
  ended_lt : ∀ r ∈ s.ended, r < s.next
  ended : ∀ r tmr, r ∈ s.ended → s.timers r = some tmr → tmr.alarm = false ∧ r ∉ s.events
  finalized_lt : ∀ r ∈ s.finalized, r < s.next
  finalized : ∀ r tmr, r ∈ s.finalized → s.timers r = some tmr → tmr.hasObject = false

theorem Owned.law {s : State} (h : Owned s) : Law s := by
  refine ⟨h.safe, fun r hfinal hended => ?_⟩
  cases ht : s.timers r with
  | none => rfl
  | some tmr =>
    obtain ⟨halarm, hevent⟩ := h.ended r tmr hended ht
    rcases h.waits r tmr ht (h.finalized r tmr hfinal ht) with htmr | hactive | hqueued
    · exact absurd hfinal (h.fresh r htmr).1
    · simp [halarm] at hactive
    · exact absurd hqueued hevent

/-! ## Every step in turn keeps the invariant -/

theorem modifyTimer_id {s : State} {r : Nat} {tmr : JSIOTimer} (ht : s.timers r = some tmr) :
    modifyTimer s r id = s := by
  have hsame : update s.timers r (some tmr) = s.timers := by rw [← ht, update_eq_self]
  simp [modifyTimer, ht, hsame]

theorem Owned.newObject {s : State} (h : Owned s) (hcall : s.call = some .newObject) (ok : Bool) :
    Owned (setTimeoutStep s ok .newObject) := by
  cases ok with
  | false =>
    simp only [setTimeoutStep, Bool.false_eq_true, if_false]
    refine { h with obj := ?_, tmr := ?_, fresh := ?_, unarmed := ?_, waits := ?_ }
    all_goals grind [Owned]
  | true =>
    simp only [setTimeoutStep, if_true]
    refine { h with
        timers_lt := ?_, objects_lt := ?_, object := ?_, inj := ?_, obj := ?_, tmr := ?_
        fresh := ?_, unarmed := ?_, waits := ?_, ended_lt := ?_, finalized_lt := ?_ }
    all_goals grind [Owned, update_apply]

theorem Owned.mallocz {s : State} {obj : Nat} (h : Owned s) (hcall : s.call = some (.mallocz obj))
    (ok : Bool) : Owned (setTimeoutStep s ok (.mallocz obj)) := by
  cases ok with
  | false =>
    simp only [setTimeoutStep, Bool.false_eq_true, if_false]
    refine { h with
        objects_lt := ?_, object := ?_, inj := ?_, obj := ?_, tmr := ?_, fresh := ?_
        unarmed := ?_, waits := ?_ }
    all_goals grind [Owned, update_apply]
  | true =>
    simp only [setTimeoutStep, if_true]
    refine { h with
        timers_lt := ?_, objects_lt := ?_, object := ?_, obj := ?_, tmr := ?_, fresh := ?_
        unarmed := ?_, waits := ?_, event := ?_, ended_lt := ?_, ended := ?_, finalized_lt := ?_
        finalized := ?_ }
    all_goals grind [Owned, update_apply]

theorem Owned.initialise {s : State} {obj tmr : Nat} (h : Owned s)
    (hcall : s.call = some (.initialise obj tmr)) (ok : Bool) :
    Owned (setTimeoutStep s ok (.initialise obj tmr)) := by
  obtain ⟨t, ht, -⟩ := h.tmr tmr (by simp [State.tmr, hcall, SetTimeoutPc.tmr])
  simp only [setTimeoutStep, modifyTimer_id ht]
  refine { h with obj := ?_, tmr := ?_, fresh := ?_, unarmed := ?_, waits := ?_ }
  all_goals grind [Owned]

theorem Owned.enqueueAlarm {s : State} {obj tmr : Nat} (h : Owned s)
    (hcall : s.call = some (.enqueueAlarm obj tmr)) (ok : Bool) :
    Owned (setTimeoutStep s ok (.enqueueAlarm obj tmr)) := by
  obtain ⟨t, ht, -⟩ := h.tmr tmr (by simp [State.tmr, hcall, SetTimeoutPc.tmr])
  simp only [setTimeoutStep, modifyTimer, ht]
  refine { h with
      timers_lt := ?_, object := ?_, obj := ?_, tmr := ?_, fresh := ?_, unarmed := ?_
      waits := ?_, event := ?_, ended := ?_, finalized := ?_ }
  all_goals grind [Owned, update_apply]

theorem Owned.setHasObject {s : State} {obj tmr : Nat} (h : Owned s)
    (hcall : s.call = some (.setHasObject obj tmr)) (ok : Bool) :
    Owned (setTimeoutStep s ok (.setHasObject obj tmr)) := by
  obtain ⟨t, ht, -⟩ := h.tmr tmr (by simp [State.tmr, hcall, SetTimeoutPc.tmr])
  simp only [setTimeoutStep, modifyTimer, ht]
  refine { h with
      timers_lt := ?_, object := ?_, obj := ?_, tmr := ?_, fresh := ?_, unarmed := ?_
      waits := ?_, event := ?_, ended := ?_, finalized := ?_ }
  all_goals grind [Owned, update_apply]

theorem Owned.setOpaque {s : State} {obj tmr : Nat} (h : Owned s)
    (hcall : s.call = some (.setOpaque obj tmr)) (ok : Bool) :
    Owned (setTimeoutStep s ok (.setOpaque obj tmr)) := by
  simp only [setTimeoutStep]
  refine { h with
      objects_lt := ?_, object := ?_, inj := ?_, obj := ?_, tmr := ?_, fresh := ?_, unarmed := ?_
      waits := ?_ }
  all_goals grind [Owned, update_apply]

theorem Owned.ioJsClearTimeout {s : State} {p r : Nat} (h : Owned s) (hcall : s.call = none)
    (hp : s.objects p = some (some r)) : Owned (ioJsClearTimeout s r) := by
  obtain ⟨tmr, ht, hobj, hlive⟩ := h.object p r hp
  by_cases halarm : tmr.alarm
  · simp only [TimerOwner.ioJsClearTimeout, isIoAlarmActive, modifyTimer, ht, Option.any_some,
      halarm, if_true]
    refine { h with
        timers_lt := ?_, object := ?_, tmr := ?_, unarmed := ?_, waits := ?_, event := ?_
        ended_lt := ?_, ended := ?_, finalized := ?_ }
    all_goals grind [Owned, update_apply]
  · simpa [TimerOwner.ioJsClearTimeout, isIoAlarmActive, modifyTimer_id ht, ht, halarm] using h

/-- The finalizer leaves the record to the alarm. -/
theorem Owned.leave {s : State} {p r : Nat} {tmr : JSIOTimer} (h : Owned s)
    (hp : s.objects p = some (some r)) (ht : s.timers r = some tmr) (halarm : tmr.alarm = true) :
    Owned { s with
      objects := update s.objects p none
      timers := update s.timers r (some { tmr with hasObject := false })
      finalized := r :: s.finalized } := by
  refine { h with
      timers_lt := ?_, objects_lt := ?_, object := ?_, inj := ?_, obj := ?_, tmr := ?_
      fresh := ?_, unarmed := ?_, waits := ?_, event := ?_, ended := ?_, finalized_lt := ?_
      finalized := ?_ }
  all_goals grind [Owned, update_apply]

/-- The finalizer frees the record. -/
theorem Owned.free {s : State} {p r : Nat} {tmr : JSIOTimer} (h : Owned s)
    (hp : s.objects p = some (some r)) (ht : s.timers r = some tmr) (hr : r ∉ s.events) :
    Owned { s with
      objects := update s.objects p none
      timers := update s.timers r none
      finalized := r :: s.finalized } := by
  refine { h with
      timers_lt := ?_, objects_lt := ?_, object := ?_, inj := ?_, obj := ?_, tmr := ?_
      fresh := ?_, unarmed := ?_, waits := ?_, event := ?_, ended := ?_, finalized_lt := ?_
      finalized := ?_ }
  all_goals grind [Owned, update_apply]

theorem ioJsTimerFinalizer_eq {s : State} {r : Nat} {tmr : JSIOTimer}
    (ht : s.timers r = some tmr) :
    ioJsTimerFinalizer s (some r) = { s with
      timers := update s.timers r
        (if tmr.alarm then some { tmr with hasObject := false } else none)
      finalized := r :: s.finalized } := by
  cases halarm : tmr.alarm <;>
    simp [ioJsTimerFinalizer, modifyTimer, ht, isIoAlarmActive, halarm, freeIoJsTimer]

theorem Owned.ioJsTimerFinalizer {s : State} {p : Nat} {uOpaque : Option Nat} (h : Owned s)
    (hp : s.objects p = some uOpaque) (hcall : s.obj ≠ some p)
    (hturn : ∀ r ∈ s.events, s.objects p ≠ some (some r)) :
    Owned (ioJsTimerFinalizer { s with objects := update s.objects p none } uOpaque) := by
  cases uOpaque with
  | none =>
    constructor
    all_goals simp only [TimerOwner.ioJsTimerFinalizer]
    all_goals grind [Owned, update_apply]
  | some r =>
    obtain ⟨tmr, ht, -, -⟩ := h.object p r hp
    rw [ioJsTimerFinalizer_eq (s := { s with objects := update s.objects p none }) ht]
    by_cases halarm : tmr.alarm
    · simp only [halarm, if_true]
      exact halarm ▸ h.leave hp ht halarm
    · simp only [halarm]
      exact h.free hp ht fun hr => hturn r hr hp

theorem Owned.expire {s : State} {r : Nat} {tmr : JSIOTimer} (h : Owned s)
    (ht : s.timers r = some tmr) (halarm : tmr.alarm = true) :
    Owned { s with
      timers := update s.timers r (some { tmr with alarm := false })
      events := s.events ++ [r] } := by
  refine { h with
      timers_lt := ?_, object := ?_, tmr := ?_, unarmed := ?_, waits := ?_, event := ?_
      once := ?_, ended := ?_, finalized := ?_ }
  all_goals grind [Owned, update_apply]

/-- The handler leaves the record to its object. -/
theorem Owned.serve {s : State} {r : Nat} (h : Owned s) (hr : r ∈ s.events)
    (hobj : ∀ tmr, s.timers r = some tmr → tmr.hasObject) :
    Owned { s with events := s.events.erase r, ended := r :: s.ended } := by
  refine { h with
      unarmed := ?_, waits := ?_, event := ?_, once := ?_, ended_lt := ?_, ended := ?_ }
  all_goals grind [Owned, update_apply]

/-- The handler frees the record. -/
theorem Owned.release {s : State} {r : Nat} (h : Owned s) (hr : r ∈ s.events)
    (hobj : ∀ p, s.objects p ≠ some (some r)) (hnew : s.tmr ≠ some r) :
    Owned { s with
      timers := update s.timers r none
      events := s.events.erase r
      ended := r :: s.ended } := by
  refine { h with
      timers_lt := ?_, object := ?_, tmr := ?_, unarmed := ?_, waits := ?_, event := ?_
      once := ?_, ended_lt := ?_, ended := ?_, finalized := ?_ }
  all_goals grind [Owned, update_apply]

theorem Owned.deliver {s : State} {r : Nat} (h : Owned s) (hr : r ∈ s.events)
    (hturn : s.tmr = some r → s.owned) :
    Owned (ioJsSetTimeoutOnTimeout { s with events := s.events.erase r } r) := by
  obtain ⟨tmr, ht, halarm⟩ := h.event r hr
  by_cases hobj : tmr.hasObject
  · simp only [ioJsSetTimeoutOnTimeout, ht, hobj, Bool.not_true, Bool.false_eq_true, if_false]
    exact h.serve hr (by grind)
  · have hnew : s.tmr ≠ some r := by
      intro htmr
      obtain ⟨tmr', ht', howned⟩ := h.tmr r htmr
      grind
    simp only [ioJsSetTimeoutOnTimeout, freeIoJsTimer, ht, hobj, Bool.not_false, if_true]
    exact h.release hr (by grind [Owned]) hnew

theorem Owned.setTimeoutStep {s : State} {pc : SetTimeoutPc} (h : Owned s)
    (hcall : s.call = some pc) (ok : Bool) : Owned (setTimeoutStep s ok pc) := by
  cases pc with
  | newObject => exact h.newObject hcall ok
  | mallocz obj => exact h.mallocz hcall ok
  | initialise obj tmr => exact h.initialise hcall ok
  | enqueueAlarm obj tmr => exact h.enqueueAlarm hcall ok
  | setHasObject obj tmr => exact h.setHasObject hcall ok
  | setOpaque obj tmr => exact h.setOpaque hcall ok

theorem Owned.step {s t : State} {l : Label} (h : Owned s) (hturn : InTurn s l)
    (hstep : step s l = some t) : Owned t := by
  cases l with
  | setTimeout =>
    simp only [TimerOwner.step] at hstep
    split at hstep
    · obtain rfl := Option.some.inj hstep
      constructor
      all_goals grind [Owned]
    · cases hstep
  | statement ok =>
    obtain ⟨pc, hpc, rfl⟩ := Option.map_eq_some_iff.mp hstep
    exact h.setTimeoutStep hpc ok
  | clearTimeout p =>
    simp only [TimerOwner.step] at hstep
    split at hstep
    · rename_i r hcall hp
      obtain rfl := Option.some.inj hstep
      exact h.ioJsClearTimeout hcall hp
    · cases hstep
  | finalize p =>
    simp only [TimerOwner.step] at hstep
    split at hstep
    · rename_i uOpaque hp
      split at hstep
      · cases hstep
      · rename_i hcall
        obtain rfl := Option.some.inj hstep
        exact h.ioJsTimerFinalizer hp hcall hturn
    · cases hstep
  | expire r =>
    simp only [TimerOwner.step] at hstep
    split at hstep
    · rename_i tmr ht
      split at hstep
      · rename_i halarm
        obtain rfl := Option.some.inj hstep
        exact h.expire ht halarm
      · cases hstep
    · cases hstep
  | deliver r =>
    simp only [TimerOwner.step] at hstep
    split at hstep
    · rename_i hr
      obtain rfl := Option.some.inj hstep
      exact h.deliver hr hturn
    · cases hstep

theorem owned_init : Owned init := by
  constructor
  all_goals grind [init]

/-! ## Runs -/

open Transition (run Meets)

/-- In a run whose steps are all in turn no freed record is used, and every record is freed once
its object has been finalized and its alarm has been dequeued or its event delivered. -/
theorem timers_freed {ls : List Label} {s : State} (hturn : Meets step InTurn init ls)
    (hrun : run step init ls = some s) : Law s :=
  (Transition.run_invariant owned_init hturn (fun _ _ _ h hl hstep => h.step hl hstep) hrun).law

/-- The statements of io_js_setTimeout. -/
def setTimeoutCall : List Label := .setTimeout :: List.replicate 6 (.statement true)

/-- One timer is cleared and then finalized, the other delivered and then finalized. -/
def clearedAndDelivered : List Label :=
  setTimeoutCall ++ [.clearTimeout 0, .finalize 0] ++ setTimeoutCall ++
    [.expire 3, .deliver 3, .finalize 2]

theorem timers_freed_both :
    ∃ s, run step init clearedAndDelivered = some s ∧ Law s ∧ s.finalized = [3, 1] :=
  ⟨_, rfl, @timers_freed clearedAndDelivered _ (by decide) rfl, rfl⟩

/-- The object is finalized while the event of its timer is queued. -/
def finalizedQueued : List Label := setTimeoutCall ++ [.expire 1, .finalize 0, .deliver 1]

theorem timers_usedAfterFree : ¬ ∀ ls s, run step init ls = some s → Law s := by
  intro h
  have hfault : (run step init finalizedQueued).map State.fault = some true := by decide
  obtain ⟨s, hrun, hs⟩ := Option.map_eq_some_iff.mp hfault
  rw [(h finalizedQueued s hrun).safe] at hs
  exact absurd hs (by decide)

/-- A step out of turn lets the next step use a freed record. -/
theorem fault_of_not_inTurn {s t : State} {l : Label} (h : Owned s) (hturn : ¬ InTurn s l)
    (hstep : step s l = some t) : ∃ m u, step t m = some u ∧ u.fault = true := by
  cases l with
  | finalize p =>
    simp only [InTurn, not_forall, not_not] at hturn
    obtain ⟨r, hr, hp⟩ := hturn
    obtain ⟨tmr, ht, halarm⟩ := h.event r hr
    simp only [step, hp] at hstep
    split at hstep
    · cases hstep
    · obtain rfl := Option.some.inj hstep
      rw [ioJsTimerFinalizer_eq (s := { s with objects := update s.objects p none }) ht]
      simp only [halarm, Bool.false_eq_true, if_false]
      exact ⟨.deliver r, _, by simp [step, hr]; rfl, by simp [ioJsSetTimeoutOnTimeout]⟩
  | deliver r =>
    simp only [InTurn, Classical.not_imp, Bool.not_eq_true] at hturn
    obtain ⟨htmr, howned⟩ := hturn
    obtain ⟨tmr, ht, hobj⟩ := h.tmr r htmr
    have hr : r ∈ s.events := by grind [step]
    have harmed : s.armed = true := by grind [Owned]
    obtain ⟨obj, hcall⟩ : ∃ obj, s.call = some (.setHasObject obj r) := by
      obtain ⟨pc, hpc, hpctmr⟩ := Option.bind_eq_some_iff.mp htmr
      cases pc <;> grind
    have hfree : t = { s with
        timers := update s.timers r none
        events := s.events.erase r
        ended := r :: s.ended } := by
      simpa [step, hr, ioJsSetTimeoutOnTimeout, freeIoJsTimer, ht, hobj, howned] using hstep.symm
    subst hfree
    exact ⟨.statement true, _, by simp [step, hcall]; rfl, by simp [setTimeoutStep, modifyTimer]⟩
  | setTimeout | statement | clearTimeout | expire => exact absurd trivial hturn

end TimerOwner

end IoQuickJS
