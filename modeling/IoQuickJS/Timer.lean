import IoQuickJS.Job

/-!
# The std module: setTimeout, after and clearTimeout

A JS_IOTimer belongs to its alarm until the `on_timeout` event has been delivered, and for
setTimeout also to the object that the script got. Results of allocations and of the conversion
of the delay are arguments.
-/
namespace IoQuickJS

/-- `js_mallocz` of a timer record, with the fields set that are set before its alarm is. -/
def newIOTimer (rt : JSRuntime) (resolve reject : JSValue) (onTimeout : TimeoutHandler) :
    JSRuntime × Nat :=
  ({ rt with
      next := rt.next + 1
      timers := Function.update rt.timers rt.next
        (some ⟨false, resolve, reject, false, onTimeout⟩) },
    rt.next)

/-- Assign to fields of a timer record. -/
def modifyTimer (rt : JSRuntime) (r : Nat) (f : JSIOTimer → JSIOTimer) : JSRuntime :=
  { rt with timers := Function.update rt.timers r ((rt.timers r).map f) }

/-- `io_enqueue_alarm` -/
def ioEnqueueAlarm (rt : JSRuntime) (r : Nat) : JSRuntime :=
  modifyTimer rt r fun tmr => { tmr with alarm := true }

/-- `io_dequeue_alarm`; it does nothing to an alarm that is not active. -/
def ioDequeueAlarm (rt : JSRuntime) (r : Nat) : JSRuntime :=
  modifyTimer rt r fun tmr => { tmr with alarm := false }

/-- `io_js_setTimeout` -/
def ioJsSetTimeout (rt : JSRuntime) (func : JSValue) (delayOk objOk tmrOk : Bool) :
    JSRuntime × JSValue :=
  if !rt.isFunction func then jsThrowTypeError rt "not a function"
  else if !delayOk then ({ rt with currentException := some .thrown }, .exception)
  else if !objOk then jsThrowOutOfMemory rt
  else
    let (rt, obj) := jsNewObjectClass rt .ioTimer
    if !tmrOk then (jsFreeValueRT (jsThrowOutOfMemory rt).1 obj, .exception)
    else
      let rt := jsDupValue rt func
      let (rt, tmr) := newIOTimer rt func .undefined .setTimeout
      let rt := ioEnqueueAlarm rt tmr
      let rt := modifyTimer rt tmr fun t => { t with hasObject := true }
      let rt := jsSetOpaque rt obj tmr
      ({ rt with log := rt.log ++ [.armed tmr func] }, obj)

/-- `io_js_setTimeout_on_timeout`; `none` when it uses memory that has been freed. -/
def ioJsSetTimeoutOnTimeout (rt : JSRuntime) (r : Nat) (enqOk : Bool) : Option JSRuntime :=
  match rt.timers r with
  | none => none
  | some tmr =>
    let func := tmr.resolve
    let rt := modifyTimer rt r fun t => { t with resolve := .undefined }
    let rt :=
      if tmr.hasObject then rt
      else freeIoJsTimer jsFreeValueRT rt r { tmr with resolve := .undefined }
    if rt.live func then
      let rt := (ioJsEnqueueTask rt .timerContinuation [func] (some r) enqOk).1
      some (jsFreeValueRT rt func)
    else none

/-- `io_js_after`. The promise capability is made before the delay is converted, and nothing is
given back when the conversion fails; `none` when resolving_funcs is used uninitialised. -/
def ioJsAfter (rt : JSRuntime) (capOk delayOk tmrOk : Bool) : Option (JSRuntime × JSValue) :=
  let (rt, after, resolvingFuncs) := jsNewPromiseCapability rt capOk
  if !delayOk then some ({ rt with currentException := some .thrown }, .exception)
  else if !tmrOk then some (jsFreeValueRT (jsThrowOutOfMemory rt).1 after, .exception)
  else
    match resolvingFuncs with
    | none => none
    | some (resolve, reject) =>
      let (rt, tmr) := newIOTimer rt resolve reject .after
      let rt := ioEnqueueAlarm rt tmr
      some ({ rt with log := rt.log ++ [.armed tmr resolve] }, after)

/-- `io_js_after_on_timeout`; `none` when it uses memory that has been freed. -/
def ioJsAfterOnTimeout (rt : JSRuntime) (r : Nat) (enqOk : Bool) : Option JSRuntime :=
  match rt.timers r with
  | none => none
  | some timer =>
    if rt.live timer.resolve then
      let rt := (ioJsEnqueueTask rt .timerContinuation [timer.resolve] (some r) enqOk).1
      some (freeIoJsTimer jsFreeValueRT rt r timer)
    else none

/-- `io_js_clearTimeout` -/
def ioJsClearTimeout (rt : JSRuntime) (t : JSValue) : JSRuntime × JSValue :=
  match jsGetOpaque2 rt t .ioTimer "IOTimer" with
  | (rt, some r) =>
    let rt := ioDequeueAlarm rt r
    ({ rt with log := rt.log ++ [.cleared r] }, .undefined)
  | (rt, none) => (rt, .exception)

/-! ## What io_core does with an alarm -/

/-- The alarm of an active timer expires: it becomes inactive and its event is queued. -/
def expireAlarm (rt : JSRuntime) (r : Nat) : Option JSRuntime :=
  match rt.timers r with
  | some tmr =>
    if tmr.alarm then some { ioDequeueAlarm rt r with events := rt.events ++ [r] } else none
  | none => none

/-- A queued `on_timeout` event is delivered to the function it was initialised with. -/
def deliverTimeout (rt : JSRuntime) (r : Nat) (enqOk : Bool) : Option JSRuntime :=
  if r ∈ rt.events then
    let rt := { rt with events := rt.events.erase r }
    match (rt.timers r).map JSIOTimer.onTimeout with
    | some .setTimeout => ioJsSetTimeoutOnTimeout rt r enqOk
    | some .after => ioJsAfterOnTimeout rt r enqOk
    | none => none
  else none

end IoQuickJS
