import IoQuickJS.Library.Ledger

/-!
# The state of a JSRuntime

Values, the objects and records they point to, and the runtime that owns them. Addresses are
natural numbers handed out in order by the io byte memory and never reused, so an address whose
entry is `none` was freed (or never allocated) and a reference to it dangles.

Property storage, closure variables, bound arguments and the data of the other built-in classes
are all in `prop`: QuickJS marks and releases exactly these references. A JSContext is an object
of this kind as well, which the embedding program holds one reference to. Only the two classes
of the port, IOTimer and js_io_socket, keep references in a C record of their own.
-/
namespace IoQuickJS

/-- A `JSValue`; strings and objects are the tags that carry a reference count. -/
inductive JSValue where
  | undefined
  | null
  | exception
  | bool (b : Bool)
  | int (n : Int)
  | string (p : Nat)
  | object (p : Nat)
  deriving DecidableEq, Repr

/-- `JS_VALUE_HAS_REF_COUNT` -/
def JSValue.hasRefCount : JSValue → Bool
  | .string _ | .object _ => true
  | _ => false

/-- An empty slot holds no reference. -/
theorem JSValue.undefined_ne {v : JSValue} (hv : v.hasRefCount) : JSValue.undefined ≠ v := by
  rintro rfl
  cases hv

/-- The classes the model tells apart: what `JS_IsFunction` accepts, the two classes of the
port, and every other object. -/
inductive JSClassID where
  | object
  | function
  | ioTimer
  | ioSocket
  deriving DecidableEq, Repr

/-- A `JSObject`; `uOpaque` is `p->u.opaque`. -/
structure JSObject where
  classId : JSClassID
  uOpaque : Option Nat
  prop : List JSValue
  deriving DecidableEq, Repr

/-- The opaque pointer of an object of the class, as `JS_GetOpaque` reads it. -/
def JSObject.opaqueAs (o : JSObject) (classId : JSClassID) : Option Nat :=
  if o.classId = classId then o.uOpaque else none

/-- The function an `on_timeout` event was initialised with. -/
inductive TimeoutHandler where
  | setTimeout
  | after
  deriving DecidableEq, Repr

/-- A `JS_IOTimer`; `alarm` is `is_io_alarm_active` of its alarm. -/
structure JSIOTimer where
  hasObject : Bool
  resolve : JSValue
  reject : JSValue
  alarm : Bool
  onTimeout : TimeoutHandler
  deriving DecidableEq, Repr

/-- An `io_js_io_socket_t`. -/
structure IoJsIoSocket where
  handle : Nat
  receiveCallback : JSValue
  asyncGets0 : JSValue
  asyncGets1 : JSValue
  deriving DecidableEq, Repr

/-- The job functions the port enqueues, and those of the script engine. -/
inductive JSJobFunc where
  | timerContinuation
  | socketContinuation
  | script
  deriving DecidableEq, Repr

/-- A `JSJobEntry`. `origin` is not in the source: it names the timer whose `on_timeout` event
queued the job, so that runs can be talked about. -/
structure JSJobEntry where
  jobFunc : JSJobFunc
  argv : List JSValue
  origin : Option Nat
  deriving DecidableEq, Repr

/-- The errors the modelled functions throw themselves. -/
inductive JSError where
  | typeError (message : String)
  | outOfMemory
  | thrown
  deriving DecidableEq, Repr

/-- What an observer of a run sees. `armed r f`: setTimeout returned and record `r` will call
`f`. `cleared r`: clearTimeout returned for record `r`. `getsPromise r f`: gets on socket `r`
returned a promise that `f` resolves. `call f args origin`: a job called `f`. `jobLost o`:
JS_EnqueueJob found no memory for a job of timer `o`. -/
inductive Observation where
  | armed (r : Nat) (f : JSValue)
  | cleared (r : Nat)
  | getsPromise (r : Nat) (f : JSValue)
  | call (f : JSValue) (args : List JSValue) (origin : Option Nat)
  | jobLost (origin : Option Nat)
  deriving DecidableEq, Repr

/-- A `JSRuntime` with the io objects around it: `stack` holds the references of script and C
frames, `running` is the job JS_ExecutePendingJob is in, `events` are the `on_timeout` events
io_core has queued and not delivered (by the address of their timer), `log` the observations of
the run so far, and `panicked` whether io_panic has been called. -/
@[ext] structure JSRuntime where
  next : Nat
  objects : Nat → Option JSObject
  strings : Nat → Option (List UInt8)
  timers : Nat → Option JSIOTimer
  sockets : Nat → Option IoJsIoSocket
  refCount : JSValue → Nat
  mark : Nat → Bool
  gcObjList : List Nat
  tmpObjList : List Nat
  gcZeroRefCountList : List Nat
  jobList : List JSJobEntry
  running : Option JSJobEntry
  stack : List JSValue
  events : List Nat
  log : List Observation
  currentException : Option JSError
  panicked : Bool

/-! ## The references held in a runtime -/

/-- The values a timer record owns. -/
def JSIOTimer.slots (tmr : JSIOTimer) : List JSValue := [tmr.resolve, tmr.reject]

/-- The values a socket record owns. -/
def IoJsIoSocket.slots (s : IoJsIoSocket) : List JSValue :=
  [s.receiveCallback, s.asyncGets0, s.asyncGets1]

namespace JSRuntime

/-- The references to `v` held by the job list and by the running job. -/
def jobSlots (rt : JSRuntime) (v : JSValue) : Nat :=
  (rt.jobList.flatMap JSJobEntry.argv).count v +
    (rt.running.elim [] JSJobEntry.argv).count v

/-- The number of references to `v` that stand in some slot of the runtime. -/
def tally (rt : JSRuntime) (v : JSValue) : Nat :=
  rt.stack.count v + Ledger.tally rt.next rt.objects JSObject.prop v +
    Ledger.tally rt.next rt.timers JSIOTimer.slots v +
    Ledger.tally rt.next rt.sockets IoJsIoSocket.slots v + rt.jobSlots v

/-- The memory behind `v` is allocated. -/
def live (rt : JSRuntime) : JSValue → Bool
  | .string p => (rt.strings p).isSome
  | .object p => (rt.objects p).isSome
  | _ => true

/-- `JS_IsFunction` -/
def isFunction (rt : JSRuntime) : JSValue → Bool
  | .object p => (rt.objects p).any fun o => o.classId == .function
  | _ => false

/-- `JS_GetOpaque` -/
def getOpaque (rt : JSRuntime) (val : JSValue) (classId : JSClassID) : Option Nat :=
  match val with
  | .object p => (rt.objects p).bind fun o => o.opaqueAs classId
  | _ => none

end JSRuntime

end IoQuickJS
