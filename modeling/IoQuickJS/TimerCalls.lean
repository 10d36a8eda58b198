import IoQuickJS.Steps

/-!
# Calls of setTimeout and after that fail

The delay is converted by script code when it is an object, so the conversion is a function on
the runtime here: whatever it does is its own affair, and a call is atomic when the rest of it
leaves nothing behind. The allocations that can fail are the promise capability, the timer object
and the JS_IOTimer record.

## Main result

* `TimerCall.atomic_iff`: setTimeout is atomic; after is when its promise capability is made
  exactly if the conversion and the record succeed.
-/
namespace IoQuickJS

open Function (update update_apply)

/-- No release is under way, and an address that has not been handed out has neither a block nor
a count. -/
structure Settled (rt : JSRuntime) : Prop where
  zero : rt.gcZeroRefCountList = []
  objects : ∀ p, rt.next ≤ p → rt.objects p = none
  timers : ∀ r, rt.next ≤ r → rt.timers r = none
  counts : ∀ p, rt.next ≤ p → rt.refCount (.object p) = 0

/-- The runtime is settled between any two steps. -/
theorem Ready.settled {rt : JSRuntime} {pend : List JSValue} {lost : JSValue → Nat}
    (h : Ready rt pend lost) : Settled rt where
  zero := h.zero
  objects := fun p hp => Option.not_isSome_iff_eq_none.mp fun hsome =>
    absurd (h.owned.objects_lt p hsome) (by omega)
  timers := fun r hr => Option.not_isSome_iff_eq_none.mp fun hsome =>
    absurd (h.owned.timers_lt r hsome) (by omega)
  counts := fun p hp => Nat.eq_zero_of_not_pos fun hpos =>
    absurd (h.owned.objects_lt p (h.linked.alloc p hpos)) (by omega)

/-- What the conversion of an argument does to the runtime. -/
structure Conversion where
  run : JSRuntime → JSRuntime
  settled : ∀ rt, Settled rt → Settled (run rt)

/-- An argument whose conversion runs no script code. -/
def Conversion.number : Conversion := ⟨id, fun _ h => h⟩

section Calls

variable (conversion : JSRuntime → JSRuntime)

/-- `io_js_setTimeout`, with the code that JS_ToInt64 runs. -/
def ioJsSetTimeoutWith (rt : JSRuntime) (func : JSValue) (delayOk objOk tmrOk : Bool) :
    JSRuntime × JSValue :=
  if !rt.isFunction func then jsThrowTypeError rt "not a function"
  else
    let rt := conversion rt
    if !delayOk then ({ rt with currentException := some .thrown }, .exception)
    else if !objOk then jsThrowOutOfMemory rt
    else
      let (rt, obj) := jsNewObjectClass rt .ioTimer
      if !tmrOk then (jsFreeValueRT (jsThrowOutOfMemory rt).1 obj, .exception)
      else
        let rt := jsDupValue rt func
        let (rt, tmr) := newIOTimer rt func .undefined .setTimeout
        let rt := ioEnqueueAlarm rt tmr
        let rt := modifyTimer rt tmr fun t => { t with hasObject := true }
        let rt := jsSetOpaque rt obj tmr
        ({ rt with log := rt.log ++ [.armed tmr func] }, obj)

/-- `io_js_after`, with the code that JS_ToInt64 runs; `none` when resolving_funcs is used
uninitialised. -/
def ioJsAfterWith (rt : JSRuntime) (capOk delayOk tmrOk : Bool) : Option (JSRuntime × JSValue) :=
  let (rt, after, resolvingFuncs) := jsNewPromiseCapability rt capOk
  let rt := conversion rt
  if !delayOk then some ({ rt with currentException := some .thrown }, .exception)
  else if !tmrOk then some (jsFreeValueRT (jsThrowOutOfMemory rt).1 after, .exception)
  else
    match resolvingFuncs with
    | none => none
    | some (resolve, reject) =>
      let (rt, tmr) := newIOTimer rt resolve reject .after
      let rt := ioEnqueueAlarm rt tmr
      some ({ rt with log := rt.log ++ [.armed tmr resolve] }, after)

/-- The machine's calls are those with a number for the delay; what a conversion does is a
sequence of steps of its own there. -/
theorem ioJsSetTimeoutWith_id (rt : JSRuntime) (func : JSValue) (delayOk objOk tmrOk : Bool) :
    ioJsSetTimeoutWith id rt func delayOk objOk tmrOk =
      ioJsSetTimeout rt func delayOk objOk tmrOk := rfl

theorem ioJsAfterWith_id (rt : JSRuntime) (capOk delayOk tmrOk : Bool) :
    ioJsAfterWith id rt capOk delayOk tmrOk = ioJsAfter rt capOk delayOk tmrOk := rfl

end Calls

/-- A call with the outcomes of its conversion and its allocations. -/
inductive TimerCall where
  | setTimeout (func : JSValue) (delayOk objOk tmrOk : Bool)
  | after (capOk delayOk tmrOk : Bool)
  deriving DecidableEq, Repr

namespace TimerCall

/-- The result of the call, `none` when it reads a value that was never initialised. -/
def run (conversion : JSRuntime → JSRuntime) (rt : JSRuntime) :
    TimerCall → Option (JSRuntime × JSValue)
  | setTimeout func delayOk objOk tmrOk =>
    some (ioJsSetTimeoutWith conversion rt func delayOk objOk tmrOk)
  | after capOk delayOk tmrOk => ioJsAfterWith conversion rt capOk delayOk tmrOk

/-- The runtime before the conversion. -/
def before (rt : JSRuntime) : TimerCall → JSRuntime
  | setTimeout .. => rt
  | after capOk _ _ => (jsNewPromiseCapability rt capOk).1

/-- The runtime after the conversion, which setTimeout makes for a function only. -/
def converted (conversion : JSRuntime → JSRuntime) (rt : JSRuntime) : TimerCall → JSRuntime
  | setTimeout func .. => if rt.isFunction func then conversion rt else rt
  | after capOk _ _ => conversion (jsNewPromiseCapability rt capOk).1

/-- If the call returns an exception then nothing that it did before and after the conversion is
left: no timer, no object and no reference. -/
def Atomic (conversion : JSRuntime → JSRuntime) (rt : JSRuntime) (call : TimerCall) : Prop :=
  ∃ res, call.run conversion rt = some res ∧ (res.2 = .exception →
    res.1.timers = (call.converted conversion rt).timers ∧
    (∀ p, rt.next ≤ p ∧ p < (call.before rt).next ∨ (call.converted conversion rt).next ≤ p →
      res.1.objects p = none) ∧
    ∀ v, v.hasRefCount → res.1.refCount v + (call.before rt).refCount v =
      rt.refCount v + (call.converted conversion rt).refCount v)

/-- The promise capability of after is made exactly if the call does not fail later on. -/
def Balanced : TimerCall → Prop
  | setTimeout .. => True
  | after capOk delayOk tmrOk => capOk = true ↔ (delayOk = true ∧ tmrOk = true)

end TimerCall

section Atomic

variable {rt : JSRuntime} {conversion : Conversion}

theorem freeZeroRefcountLoop_nil (n : Nat) (h : rt.gcZeroRefCountList = []) :
    freeZeroRefcountLoop n rt = rt := by
  cases n with
  | zero => rfl
  | succ n => simp only [freeZeroRefcountLoop, h]

theorem jsFreeValueRT_exception (h : rt.gcZeroRefCountList = []) :
    jsFreeValueRT rt .exception = rt :=
  freeZeroRefcountLoop_nil _ h

/-- Releasing the only reference to an object without properties and without a record. -/
theorem jsFreeValueRT_newObject (h : Settled rt) :
    let rt' := jsFreeValueRT (jsThrowOutOfMemory (jsNewObjectClass rt .ioTimer).1).1
      (.object rt.next)
    rt'.objects = rt.objects ∧ rt'.timers = rt.timers ∧ rt'.refCount = rt.refCount := by
  intro rt'
  have hmid : (freeValueIn .decref (jsThrowOutOfMemory (jsNewObjectClass rt .ioTimer).1).1
      (.object rt.next)).gcZeroRefCountList = [rt.next] := by
    simp [freeValueIn, freeValueAtZero, jsThrowOutOfMemory, jsNewObjectClass,
      JSValue.hasRefCount, h.zero]
  generalize hgen : freeValueIn .decref (jsThrowOutOfMemory (jsNewObjectClass rt .ioTimer).1).1
    (.object rt.next) = mid at hmid
  -- it is the only object on gc_zero_ref_count_list, and releasing it adds none
  have hrt' : rt' = freeObject .decref mid rt.next := by
    have hlast : (freeObject .decref mid rt.next).gcZeroRefCountList = [] := by
      rw [← hgen]
      simp [freeObject, freeValueIn, freeValueAtZero, jsThrowOutOfMemory, jsNewObjectClass,
        JSValue.hasRefCount, finalizer, ioJsTimerFinalizer, removeGCObject, jsFreeRtObject, h.zero]
    have hloop : rt' = freeZeroRefcountLoop (mid.gcObjList.length + 1) mid := by
      have hfuel : mid.gcZeroRefCountList.length = 1 := by rw [hmid]; rfl
      rw [← hfuel, ← hgen]
      rfl
    rw [hloop, freeZeroRefcountLoop, hmid]
    exact freeZeroRefcountLoop_nil _ hlast
  have hobjects := h.objects rt.next (Nat.le_refl _)
  have hcount := h.counts rt.next (Nat.le_refl _)
  rw [hrt', ← hgen]
  refine ⟨?_, ?_, ?_⟩ <;>
    simp [freeObject, freeValueIn, freeValueAtZero, jsThrowOutOfMemory, jsNewObjectClass,
      JSValue.hasRefCount, finalizer, ioJsTimerFinalizer, removeGCObject, jsFreeRtObject]
  · exact hobjects.symm
  · exact hcount.symm

/-- A call that changes nothing apart from the conversion. -/
theorem TimerCall.atomic_of_unchanged {call : TimerCall} {res : JSRuntime × JSValue}
    (hrun : call.run conversion.run rt = some res) (hnext : (call.before rt).next = rt.next)
    (hcount : (call.before rt).refCount = rt.refCount)
    (hsettled : Settled (call.converted conversion.run rt))
    (h : res.1.objects = (call.converted conversion.run rt).objects ∧
      res.1.timers = (call.converted conversion.run rt).timers ∧
      res.1.refCount = (call.converted conversion.run rt).refCount) :
    call.Atomic conversion.run rt := by
  obtain ⟨hobjects, htimers, hrefs⟩ := h
  refine ⟨res, hrun, fun _ => ⟨htimers, ?_, fun v _ => ?_⟩⟩
  · rintro p (hp | hp)
    · omega
    · rw [hobjects]
      exact hsettled.objects p hp
  · rw [hrefs, hcount, Nat.add_comm]

theorem setTimeout_atomic (h : Settled rt) (func : JSValue) (delayOk objOk tmrOk : Bool) :
    (TimerCall.setTimeout func delayOk objOk tmrOk).Atomic conversion.run rt := by
  have hconv := conversion.settled rt h
  cases hfunc : rt.isFunction func with
  | false =>
    have hconverted : (TimerCall.setTimeout func delayOk objOk tmrOk).converted conversion.run rt =
        rt := by simp [TimerCall.converted, hfunc]
    refine TimerCall.atomic_of_unchanged rfl rfl rfl (hconverted.symm ▸ h) ?_
    rw [hconverted]
    simp [ioJsSetTimeoutWith, hfunc, jsThrowTypeError]
  | true =>
    have hconverted : (TimerCall.setTimeout func delayOk objOk tmrOk).converted conversion.run rt =
        conversion.run rt := by simp [TimerCall.converted, hfunc]
    cases delayOk with
    | false =>
      refine TimerCall.atomic_of_unchanged rfl rfl rfl (hconverted.symm ▸ hconv) ?_
      rw [hconverted]
      simp [ioJsSetTimeoutWith, hfunc]
    | true =>
      cases objOk with
      | false =>
        refine TimerCall.atomic_of_unchanged rfl rfl rfl (hconverted.symm ▸ hconv) ?_
        rw [hconverted]
        simp [ioJsSetTimeoutWith, hfunc, jsThrowOutOfMemory]
      | true =>
        cases tmrOk with
        | false =>
          refine TimerCall.atomic_of_unchanged rfl rfl rfl (hconverted.symm ▸ hconv) ?_
          rw [hconverted]
          simp only [ioJsSetTimeoutWith, hfunc, Bool.not_true, Bool.not_false, Bool.false_eq_true,
            if_false, if_true]
          exact jsFreeValueRT_newObject hconv
        | true =>
          refine ⟨_, rfl, fun hexception => ?_⟩
          simp [ioJsSetTimeoutWith, hfunc, jsNewObjectClass] at hexception

/-- The promise of a capability has three references: the one returned and one of either
resolving function. -/
theorem jsNewPromiseCapability_promise (rt : JSRuntime) :
    (jsNewPromiseCapability rt true).2.1 = .object rt.next ∧
      (jsNewPromiseCapability rt true).1.refCount (.object rt.next) = 3 := by
  refine ⟨rfl, ?_⟩
  simp [jsNewPromiseCapability, jsNewResolvingFunction, jsNewObjectClass, jsDupValue,
    JSValue.hasRefCount, JSRuntime.modifyProp, update_apply]
  omega

theorem Settled.promiseCapability (h : Settled rt) :
    Settled (jsNewPromiseCapability rt true).1 := by
  have hnext : (jsNewPromiseCapability rt true).1.next = rt.next + 3 := rfl
  refine ⟨h.zero, fun p hp => ?_, fun r hr => h.timers r (by omega), fun p hp => ?_⟩
  · rw [hnext] at hp
    have hnone := h.objects p (by omega)
    have hne : p ≠ rt.next ∧ p ≠ rt.next + 1 ∧ p ≠ rt.next + 1 + 1 := by omega
    simp [jsNewPromiseCapability, jsNewResolvingFunction, jsNewObjectClass, jsDupValue,
      JSValue.hasRefCount, JSRuntime.modifyProp, hnone, hne]
  · rw [hnext] at hp
    have hzero := h.counts p (by omega)
    have hne : p ≠ rt.next ∧ p ≠ rt.next + 1 ∧ p ≠ rt.next + 1 + 1 := by omega
    simp [jsNewPromiseCapability, jsNewResolvingFunction, jsNewObjectClass, jsDupValue,
      JSValue.hasRefCount, JSRuntime.modifyProp, hzero, hne]

/-- Releasing a reference gives at most that one back. -/
theorem jsFreeValueRT_refCount (h : rt.gcZeroRefCountList = []) (p : Nat) :
    rt.refCount (.object p) ≤ (jsFreeValueRT rt (.object p)).refCount (.object p) + 1 := by
  by_cases hcount : rt.refCount (.object p) ≤ 1
  · omega
  · have hfree : freeValueIn .decref rt (.object p) = { rt with
        refCount := update rt.refCount (.object p) (rt.refCount (.object p) - 1) } := by
      have hne : rt.refCount (.object p) - 1 ≠ 0 := by omega
      simp [freeValueIn, JSValue.hasRefCount, hne]
    rw [jsFreeValueRT, hfree, freeZeroRefcount, freeZeroRefcountLoop_nil _ (by exact h)]
    simp only [Function.update_self]
    omega

/-- Once the capability is made, an exception leaves references to its promise behind. -/
theorem after_leaks (h : Settled rt) {delayOk tmrOk : Bool}
    (hfail : ¬ (delayOk = true ∧ tmrOk = true)) :
    ¬ (TimerCall.after true delayOk tmrOk).Atomic conversion.run rt := by
  obtain ⟨hpromise, hthree⟩ := jsNewPromiseCapability_promise rt
  have hzero := h.counts rt.next (Nat.le_refl _)
  have hconv := conversion.settled _ h.promiseCapability
  rintro ⟨res, hres, hatomic⟩
  have hcount := fun hexception => (hatomic hexception).2.2 (.object rt.next) rfl
  simp only [TimerCall.before, TimerCall.converted, hthree, hzero] at hcount
  cases delayOk with
  | false =>
    obtain rfl := Option.some.inj hres
    have hsame :
        (conversion.run (jsNewPromiseCapability rt true).1).refCount (.object rt.next) + 3 =
        0 + (conversion.run (jsNewPromiseCapability rt true).1).refCount (.object rt.next) :=
      hcount rfl
    omega
  | true =>
    cases tmrOk with
    | true => exact hfail ⟨rfl, rfl⟩
    | false =>
      obtain rfl := Option.some.inj hres
      let failed := (jsThrowOutOfMemory (conversion.run (jsNewPromiseCapability rt true).1)).1
      have hsame : (jsFreeValueRT failed (.object rt.next)).refCount (.object rt.next) + 3 =
        0 + failed.refCount (.object rt.next) := hcount rfl
      have hfree := @jsFreeValueRT_refCount failed hconv.zero rt.next
      omega

theorem after_atomic_iff (h : Settled rt) (capOk delayOk tmrOk : Bool) :
    (TimerCall.after capOk delayOk tmrOk).Atomic conversion.run rt ↔
      (capOk = true ↔ (delayOk = true ∧ tmrOk = true)) := by
  cases capOk with
  | false =>
    have hconv := conversion.settled _ (show Settled (jsThrowOutOfMemory rt).1 from
      ⟨h.zero, h.objects, h.timers, h.counts⟩)
    cases delayOk with
    | false =>
      refine iff_of_true ?_ (by simp)
      exact TimerCall.atomic_of_unchanged rfl rfl rfl hconv ⟨rfl, rfl, rfl⟩
    | true =>
      cases tmrOk with
      | false =>
        refine iff_of_true ?_ (by simp)
        refine TimerCall.atomic_of_unchanged rfl rfl rfl hconv ?_
        have hfree := @jsFreeValueRT_exception
          (jsThrowOutOfMemory (conversion.run (jsThrowOutOfMemory rt).1)).1 hconv.zero
        exact ⟨(congrArg JSRuntime.objects hfree :), (congrArg JSRuntime.timers hfree :),
          (congrArg JSRuntime.refCount hfree :)⟩
      | true =>
        refine iff_of_false ?_ (by simp)
        rintro ⟨res, hres, -⟩
        cases hres
  | true =>
    by_cases hboth : delayOk = true ∧ tmrOk = true
    · obtain ⟨rfl, rfl⟩ := hboth
      refine iff_of_true ⟨_, rfl, fun hexception => ?_⟩ (by simp)
      cases hexception
    · exact iff_of_false (after_leaks h hboth) (by simpa using hboth)

/-- A call of setTimeout that returns an exception leaves nothing behind, and one of after does
exactly if it has not made its promise capability. -/
theorem TimerCall.atomic_iff (h : Settled rt) (call : TimerCall) :
    call.Atomic conversion.run rt ↔ call.Balanced := by
  cases call with
  | setTimeout func delayOk objOk tmrOk =>
    exact iff_of_true (setTimeout_atomic h func delayOk objOk tmrOk) trivial
  | after capOk delayOk tmrOk => exact after_atomic_iff h capOk delayOk tmrOk

/-- `after(20)` without memory for the record. -/
theorem TimerCall.atomic_iff_record :
    (TimerCall.after true true false).Atomic Conversion.number.run jsNewRuntime ↔
      (TimerCall.after true true false).Balanced :=
  TimerCall.atomic_iff jsNewRuntime_sound.ready.settled _

/-- `after({ valueOf() { throw 0 } })` keeps its promise and both resolving functions. -/
theorem after_not_atomic :
    ¬ ∀ call : TimerCall, call.Atomic Conversion.number.run jsNewRuntime :=
  fun h => after_leaks jsNewRuntime_sound.ready.settled (by simp) (h (.after true false true))

end Atomic

end IoQuickJS
