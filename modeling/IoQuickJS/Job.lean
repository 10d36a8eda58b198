import IoQuickJS.Refcount

/-!
# The job list

JS_EnqueueJob and the two halves of JS_ExecutePendingJob: the part up to the call of the job
function, and the part after it. What the called function does in between is left to the script.
-/
namespace IoQuickJS

/-- `JS_EnqueueJob`; `ok` says whether there is memory for the entry. -/
def jsEnqueueJob (rt : JSRuntime) (jobFunc : JSJobFunc) (argv : List JSValue)
    (origin : Option Nat) (ok : Bool) : JSRuntime × Int :=
  if ok then
    let rt := argv.foldl jsDupValue rt
    ({ rt with jobList := rt.jobList ++ [⟨jobFunc, argv, origin⟩] }, 0)
  else
    ({ rt with currentException := some .outOfMemory, log := rt.log ++ [.jobLost origin] }, -1)

/-- `io_js_enqueue_task`; `signal_io_task_pending` only wakes the main loop up. -/
def ioJsEnqueueTask := jsEnqueueJob

/-- The call a job function of the port makes: `io_js_call_timer_continuation` passes no
argument, `js_io_socket_continuation` the second entry of argv. -/
def JSJobEntry.observation (e : JSJobEntry) : List Observation :=
  match e.jobFunc, e.argv with
  | .timerContinuation, func :: _ => [.call func [] e.origin]
  | .socketContinuation, func :: args => [.call func (args.take 1) e.origin]
  | _, _ => []

/-- `JS_ExecutePendingJob` up to the call. The references that the continuations take for the
time of the call are those of argv, which are not given back before the call returns. -/
def jsStartPendingJob (rt : JSRuntime) : Option JSRuntime :=
  match rt.running, rt.jobList with
  | none, e :: es =>
    some { rt with jobList := es, running := some e, log := rt.log ++ e.observation }
  | _, _ => none

/-- The job that is started is the first one of the list. -/
theorem jsStartPendingJob_eq_some {rt rt' : JSRuntime} (h : jsStartPendingJob rt = some rt') :
    ∃ e es, rt.running = none ∧ rt.jobList = e :: es ∧
      rt' = { rt with jobList := es, running := some e, log := rt.log ++ e.observation } := by
  unfold jsStartPendingJob at h
  split at h
  · next e es hrunning hjobs => exact ⟨e, es, hrunning, hjobs, (Option.some.inj h).symm⟩
  · cases h

/-- `JS_ExecutePendingJob` from the return of the job function on. -/
def jsFinishPendingJob (rt : JSRuntime) : Option JSRuntime :=
  match rt.running with
  | none => none
  | some e => some (e.argv.foldl jsFreeValueRT { rt with running := none })

/-- The functions that resolve a promise refer to it. -/
def jsNewResolvingFunction (rt : JSRuntime) (promise : JSValue) : JSRuntime × JSValue :=
  let p := rt.next
  let (rt, func) := jsNewObjectClass (jsDupValue rt promise) .function
  (rt.modifyProp p fun vs => vs ++ [promise], func)

/-- `JS_NewPromiseCapability`: the promise, and what it stores in resolving_funcs; `ok` says
whether there is memory for them. When there is not, resolving_funcs is left as it was. -/
def jsNewPromiseCapability (rt : JSRuntime) (ok : Bool) :
    JSRuntime × JSValue × Option (JSValue × JSValue) :=
  if ok then
    let (rt, promise) := jsNewObjectClass rt .object
    let (rt, resolve) := jsNewResolvingFunction rt promise
    let (rt, reject) := jsNewResolvingFunction rt promise
    (rt, promise, some (resolve, reject))
  else
    let (rt, res) := jsThrowOutOfMemory rt
    (rt, res, none)

/-- `JS_GetOpaque2`; `name` is the name of the class. -/
def jsGetOpaque2 (rt : JSRuntime) (val : JSValue) (classId : JSClassID) (name : String) :
    JSRuntime × Option Nat :=
  match rt.getOpaque val classId with
  | some r => (rt, some r)
  | none => ((jsThrowTypeError rt (name ++ " object expected")).1, none)

end IoQuickJS
