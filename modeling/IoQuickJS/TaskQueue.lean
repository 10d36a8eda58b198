import IoQuickJS.Runtime
import IoQuickJS.Library.Ring
import IoQuickJS.Library.Transition

/-!
# The main loop and the job list

io_js_do_tasks, JS_ExecutePendingJob and JS_EnqueueJob statement by statement, over the pointers
of `rt->job_list`. Event handlers run between two statements of the main loop, but not inside a
critical section. Everything else the program does with a value is to take references to it and
to give them back; `held` counts the references that are neither the main loop's nor a job
entry's.
-/
namespace IoQuickJS

open Ring (Links)

/-! ## list.h -/

/-- `__list_add` -/
def listAddBetween (el prev next : Nat) (l : Links Nat) : Links Nat :=
  (l.join prev el).join el next

/-- `list_add_tail`; `none` when it follows a null pointer. -/
def listAddTail (el head : Nat) (l : Links Nat) : Option (Links Nat) :=
  (l.prev head).map fun prev => listAddBetween el prev head l

/-- `list_del`; `none` when it follows a null pointer. -/
def listDel (el : Nat) (l : Links Nat) : Option (Links Nat) :=
  match l.prev el, l.next el with
  | some prev, some next => some ((l.join prev next).clear el)
  | _, _ => none

/-- `list_empty` -/
def listEmpty (el : Nat) (l : Links Nat) : Bool := l.next el == some el

/-! ## The state -/

/-- The statements of JS_EnqueueJob, with the call's arguments `job` and the new entry `e`. -/
inductive EnqueuePc where
  | malloc (job : JSJobEntry)
  | dupArg (e : Nat) (job : JSJobEntry) (i : Nat)
  | enterAdd (e : Nat) (job : JSJobEntry)
  | add (e : Nat) (job : JSJobEntry)
  | exitAdd

/-- The statement the main loop is about to execute. `e` is the entry JS_ExecutePendingJob works
on, `res` what its function returned, `err` the result of JS_ExecutePendingJob. In `outside` and
`job` it is the turn of script code; `enqueue` is a call of JS_EnqueueJob from one of them. -/
inductive MainPc where
  | outside
  | testPending
  | testEmpty
  | readHead
  | enterDel (e : Nat)
  | del (e : Nat)
  | exitDel (e : Nat)
  | call (e : Nat)
  | job (e : Nat)
  | freeArg (e i : Nat) (res : JSValue)
  | freeRes (e : Nat) (res : JSValue)
  | freeEntry (e : Nat) (err : Int)
  | testErr (err : Int)
  | enterGC
  | gc
  | exitGC
  | enqueue (pos : EnqueuePc) (caller : Option Nat)

/-- `rt->job_list` is at address 0. `enqueued` and `started` are not in the source: they list the
entries in the order in which they were linked in and their functions called, with the arguments
given to JS_EnqueueJob and to the function. -/
structure TaskQueue where
  next : Nat
  entries : Nat → Option JSJobEntry
  links : Links Nat
  refCount : JSValue → Nat
  held : JSValue → Nat
  critical : Bool
  pc : MainPc
  enqueued : List (Nat × JSJobEntry)
  started : List (Nat × JSJobEntry)

namespace TaskQueue

/-- `init_list_head` has been called, and nothing else. -/
def init : TaskQueue where
  next := 1
  entries := fun _ => none
  links := ⟨Function.update (fun _ => none) 0 (some 0), Function.update (fun _ => none) 0 (some 0)⟩
  refCount := fun _ => 0
  held := fun _ => 0
  critical := false
  pc := .outside
  enqueued := []
  started := []

/-- The arguments in the entry at `e`. -/
def argv (s : TaskQueue) (e : Nat) : List JSValue := (s.entries e).elim [] JSJobEntry.argv

/-! ## The statements -/

/-- `JS_DupValue`; `none` when the value has been freed. -/
def dupValue (s : TaskQueue) (v : JSValue) : Option TaskQueue :=
  if v.hasRefCount then
    if 0 < s.refCount v then
      some { s with refCount := Function.update s.refCount v (s.refCount v + 1) }
    else none
  else some s

/-- `JS_FreeValue`; `none` when the value has been freed. -/
def freeValue (s : TaskQueue) (v : JSValue) : Option TaskQueue :=
  if v.hasRefCount then
    if 0 < s.refCount v then
      some { s with refCount := Function.update s.refCount v (s.refCount v - 1) }
    else none
  else some s

/-- The script code that called JS_EnqueueJob goes on. -/
def resume : Option Nat → MainPc
  | some e => .job e
  | none => .outside

/-- The next statement of JS_EnqueueJob. -/
def enqueueStep (s : TaskQueue) (caller : Option Nat) : EnqueuePc → Option TaskQueue
  | .malloc job => some { s with
      next := s.next + 1
      entries := Function.update s.entries s.next (some { job with argv := [] })
      pc := .enqueue (.dupArg s.next job 0) caller }
  | .dupArg e job i =>
    match job.argv[i]? with
    | some v => (s.dupValue v).map fun s => { s with
        entries := Function.update s.entries e
          ((s.entries e).map fun entry => { entry with argv := entry.argv ++ [v] })
        pc := .enqueue (.dupArg e job (i + 1)) caller }
    | none => some { s with pc := .enqueue (.enterAdd e job) caller }
  | .enterAdd e job => some { s with critical := true, pc := .enqueue (.add e job) caller }
  | .add e job => (listAddTail e 0 s.links).map fun links => { s with
      links := links
      enqueued := s.enqueued ++ [(e, job)]
      pc := .enqueue .exitAdd caller }
  | .exitAdd => some { s with critical := false, pc := resume caller }

/-- The next statement of the main loop. A collection only gives references back, which are
steps of their own. -/
def mainStep (s : TaskQueue) : Option TaskQueue :=
  match s.pc with
  | .outside | .job _ => none
  | .testPending => some { s with pc := if listEmpty 0 s.links then .outside else .testEmpty }
  | .testEmpty => some { s with pc := if listEmpty 0 s.links then .testErr 0 else .readHead }
  | .readHead => (s.links.next 0).map fun e => { s with pc := .enterDel e }
  | .enterDel e => some { s with critical := true, pc := .del e }
  | .del e => (listDel e s.links).map fun links => { s with links := links, pc := .exitDel e }
  | .exitDel e => some { s with critical := false, pc := .call e }
  | .call e => (s.entries e).map fun job =>
      { s with started := s.started ++ [(e, job)], pc := .job e }
  | .freeArg e i res =>
    match (s.argv e)[i]? with
    | some v => (s.freeValue v).map fun s => { s with pc := .freeArg e (i + 1) res }
    | none => some { s with pc := .freeRes e res }
  | .freeRes e res => (s.freeValue res).map fun s =>
      { s with pc := .freeEntry e (if res = .exception then -1 else 1) }
  | .freeEntry e err =>
    if (s.entries e).isSome then
      some { s with entries := Function.update s.entries e none, pc := .testErr err }
    else none
  | .testErr _ => some { s with pc := .enterGC }
  | .enterGC => some { s with critical := true, pc := .gc }
  | .gc => some { s with pc := .exitGC }
  | .exitGC => some { s with critical := false, pc := .testPending }
  | .enqueue pos caller => s.enqueueStep caller pos

/-- JS_EnqueueJob in an event handler, which the main loop cannot interrupt. -/
def handlerEnqueue (s : TaskQueue) (job : JSJobEntry) : Option TaskQueue :=
  (job.argv.foldlM dupValue s).bind fun s' =>
    (listAddTail s.next 0 s'.links).map fun links => { s' with
      next := s.next + 1
      entries := Function.update s'.entries s.next (some job)
      links := links
      enqueued := s'.enqueued ++ [(s.next, job)] }

/-! ## The transition system -/

inductive Label where
  | main
  | doTasks
  | callEnqueue (job : JSJobEntry)
  | jobReturn (res : JSValue)
  | handlerEnqueue (job : JSJobEntry)
  | newValue (v : JSValue)
  | dup (v : JSValue)
  | free (v : JSValue)

/-- The arguments the running job has been called with. -/
def running (s : TaskQueue) : List JSValue :=
  match s.pc with
  | .job e | .enqueue _ (some e) => s.argv e
  | _ => []

/-- The arguments that a call of JS_EnqueueJob has still to take references to. Its caller keeps
its own until the call returns. -/
def pinned (s : TaskQueue) : List JSValue :=
  match s.pc with
  | .enqueue (.malloc job) _ => job.argv
  | .enqueue (.dupArg _ job i) _ => job.argv.drop i
  | _ => []

/-- Script code and event handlers can use `v`. -/
def uses (s : TaskQueue) (v : JSValue) : Bool :=
  !v.hasRefCount || decide (0 < s.held v) || decide (v ∈ s.running)

/-- Set how many references the rest of the program has. -/
def setHeld (s : TaskQueue) (v : JSValue) (n : Nat) : TaskQueue :=
  { s with held := Function.update s.held v n }

def step (s : TaskQueue) : Label → Option TaskQueue
  | .main => s.mainStep
  | .doTasks =>
    match s.pc with
    | .outside => some { s with pc := .testPending }
    | _ => none
  | .callEnqueue job =>
    if job.argv.all s.uses then
      match s.pc with
      | .outside => some { s with pc := .enqueue (.malloc job) none }
      | .job e => some { s with pc := .enqueue (.malloc job) (some e) }
      | _ => none
    else none
  | .jobReturn res =>
    match s.pc with
    | .job e =>
      if res.hasRefCount then
        if 0 < s.held res then
          some { s.setHeld res (s.held res - 1) with pc := .freeArg e 0 res }
        else none
      else some { s with pc := .freeArg e 0 res }
    | _ => none
  | .handlerEnqueue job =>
    if !s.critical ∧ job.argv.all fun v => !v.hasRefCount || decide (0 < s.held v) then
      s.handlerEnqueue job
    else none
  | .newValue v =>
    if !s.critical ∧ v.hasRefCount ∧ s.refCount v = 0 then
      some { s.setHeld v 1 with refCount := Function.update s.refCount v 1 }
    else none
  | .dup v =>
    if !s.critical ∧ v.hasRefCount ∧ s.uses v then
      (s.dupValue v).map fun s => s.setHeld v (s.held v + 1)
    else none
  | .free v =>
    if (!s.critical ∨ s.pc matches .gc) ∧ v.hasRefCount ∧ 0 < s.held v ∧
        (v ∈ s.pinned → v ∉ s.running → 1 < s.held v) then
      (s.freeValue v).map fun s => s.setHeld v (s.held v - 1)
    else none

end TaskQueue

end IoQuickJS
