import IoQuickJS.Library.Transition
import IoQuickJS.Collector
import IoQuickJS.Timer
import IoQuickJS.Socket

/-!
# The runtime as a transition system

A `Label` is one step of a script, of the main loop or of io_core. Script code is any sequence
of the first group of labels, taken with the references it holds on the stack: what a program
computes does not matter, only which references it can get hold of.
-/
namespace IoQuickJS

inductive Label where
  -- script code
  | newObject (classId : JSClassID)
  | newString (bytes : List UInt8)
  | dup (v : JSValue)
  | drop (v : JSValue)
  | setProperty (p : Nat) (v : JSValue)
  | getProperty (p : Nat) (v : JSValue)
  | deleteProperty (p : Nat) (v : JSValue)
  | loadArgument (v : JSValue)
  | enqueueJob (argv : List JSValue) (ok : Bool)
  -- the functions of the std module
  | setTimeout (func : JSValue) (delayOk objOk tmrOk : Bool)
  | clearTimeout (t : JSValue)
  | after (capOk delayOk tmrOk : Bool)
  -- the functions of socket objects
  | newSocket (handle : Nat) (objOk : Bool)
  | getReceive (this : JSValue)
  | setReceive (this value : JSValue)
  | gets (this : JSValue) (ok : Bool)
  -- events
  | receive (r : Nat) (pipe : IoPipe) (buffer : Nat → UInt8) (mem : List (Bool × Bool))
  | expire (r : Nat)
  | deliver (r : Nat) (enqOk : Bool)
  -- the main loop
  | startJob
  | endJob
  | runGC

namespace JSRuntime

/-- Script code can use `v`: it is a primitive, or a frame holds a reference to it. -/
def holds (rt : JSRuntime) (v : JSValue) : Bool := !v.hasRefCount || decide (v ∈ rt.stack)

/-- A frame keeps a result. -/
def push (res : JSRuntime × JSValue) : JSRuntime :=
  if res.2.hasRefCount then { res.1 with stack := res.2 :: res.1.stack } else res.1

/-- The references that the properties of an object hold. -/
def prop (rt : JSRuntime) (p : Nat) : List JSValue := (rt.objects p).elim [] JSObject.prop

end JSRuntime

open JSRuntime

/-- One step; `none` when it is not enabled, or when C would use memory that has been freed or
was never initialised. -/
def step (rt : JSRuntime) : Label → Option JSRuntime
  | .newObject classId =>
    if classId = .object ∨ classId = .function then some (push (jsNewObjectClass rt classId))
    else none
  | .newString bytes => some (push (jsNewStringLen rt bytes))
  | .dup v => if v ∈ rt.stack then some (push (jsDupValue rt v, v)) else none
  | .drop v =>
    if v ∈ rt.stack then some (jsFreeValueRT { rt with stack := rt.stack.erase v } v) else none
  | .setProperty p v =>
    if .object p ∈ rt.stack ∧ rt.holds v then
      some ((jsDupValue rt v).modifyProp p fun vs => vs ++ [v])
    else none
  | .getProperty p v =>
    if .object p ∈ rt.stack ∧ v ∈ rt.prop p then some (push (jsDupValue rt v, v)) else none
  | .deleteProperty p v =>
    if .object p ∈ rt.stack ∧ v ∈ rt.prop p then
      some (jsFreeValueRT (rt.modifyProp p fun vs => vs.erase v) v)
    else none
  | .loadArgument v =>
    if v ∈ rt.running.elim [] JSJobEntry.argv then some (push (jsDupValue rt v, v)) else none
  | .enqueueJob argv ok =>
    if argv.all rt.holds then some (jsEnqueueJob rt .script argv none ok).1 else none
  | .setTimeout func delayOk objOk tmrOk =>
    if rt.holds func then some (push (ioJsSetTimeout rt func delayOk objOk tmrOk)) else none
  | .clearTimeout t => if rt.holds t then some (push (ioJsClearTimeout rt t)) else none
  | .after capOk delayOk tmrOk => (ioJsAfter rt capOk delayOk tmrOk).map push
  | .newSocket handle objOk => some (push (jsIoSocketConstructor rt handle objOk))
  | .getReceive this => if rt.holds this then some (push (jsIoSocketGetReceive rt this)) else none
  | .setReceive this value =>
    if rt.holds this ∧ rt.holds value then some (push (jsIoSocketSetReceive rt this value))
    else none
  | .gets this ok => if rt.holds this then some (push (jsIoSocketGets rt this ok)) else none
  | .receive r pipe buffer mem => jsIoSocketReadBytes rt r pipe buffer mem
  | .expire r => expireAlarm rt r
  | .deliver r enqOk => deliverTimeout rt r enqOk
  | .startJob => jsStartPendingJob rt
  | .endJob => jsFinishPendingJob rt
  | .runGC => some (jsRunGC rt)

/-- The runtime JS_NewRuntime and JS_NewContext leave: one object, the context, which the
embedding program holds. -/
def jsNewRuntime : JSRuntime where
  next := 1
  objects := Function.update (fun _ => none) 0 (some ⟨.object, none, []⟩)
  strings := fun _ => none
  timers := fun _ => none
  sockets := fun _ => none
  refCount := Function.update (fun _ => 0) (.object 0) 1
  mark := fun _ => false
  gcObjList := [0]
  tmpObjList := []
  gcZeroRefCountList := []
  jobList := []
  running := none
  stack := [.object 0]
  events := []
  log := []
  currentException := none
  panicked := false

/-- `JS_FreeContext` and `JS_FreeRuntime` as far as they release memory: the references of the
embedding program, the job list, and a collection. -/
def jsFreeRuntime (rt : JSRuntime) : JSRuntime :=
  let rt := rt.stack.foldl jsFreeValueRT { rt with stack := [] }
  let rt := (rt.jobList.flatMap JSJobEntry.argv).foldl jsFreeValueRT { rt with jobList := [] }
  jsRunGC rt

end IoQuickJS
