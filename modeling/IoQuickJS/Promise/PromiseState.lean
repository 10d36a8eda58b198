import Mathlib.Logic.Function.Basic
import IoQuickJS.Library.Transition

/-!
# Promises

The promises of the script engine: js_promise_constructor, the resolving functions, then, and the
two kinds of jobs. A call into script code, of an executor, a handler, a getter or a then method,
leaves a `Frame`; until it returns, the script may take any steps, calls of the same functions
among them. What such a call returns, and whether JS_EnqueueJob and the allocations of a step
succeed, is part of the label.

Objects that nobody refers to any more stay, and the species of a promise is left out: then is
called with the resolving functions of whatever promise it returns.
-/
namespace IoQuickJS.Promise

open Function (update)

/-- A `JSValue` as far as promises look at it. -/
inductive Value where
  | undefined
  | primitive (n : Nat)
  | typeError (message : String)
  | object (n : Nat)
  | function (n : Nat)
  | promise (p : Nat)
  | resolving (pair : Nat) (isReject : Bool)
  deriving DecidableEq, Repr

/-- `JS_IsObject` -/
def Value.isObject : Value → Bool
  | .undefined | .primitive _ => false
  | _ => true

/-- `JS_IsFunction` -/
def Value.isFunction : Value → Bool
  | .function _ | .resolving .. => true
  | _ => false

inductive JSPromiseStateEnum where
  | pending
  | fulfilled
  | rejected
  deriving DecidableEq, Repr

structure JSPromiseReactionData where
  resolvingFuncs : Value × Value
  handler : Value
  deriving DecidableEq, Repr

/-- A `JSPromiseData`; the reactions are those of `promise_reactions[0]` and `[1]`. -/
structure JSPromiseData where
  promiseState : JSPromiseStateEnum
  fulfillReactions : List JSPromiseReactionData
  rejectReactions : List JSPromiseReactionData
  isHandled : Bool
  promiseResult : Value
  deriving DecidableEq, Repr

/-- What the two functions of js_create_resolving_functions share. -/
structure JSPromiseFunctionData where
  promise : Nat
  alreadyResolved : Bool
  deriving DecidableEq, Repr

/-- A job with its arguments: promise_reaction_job, js_promise_resolve_thenable_job, or another
one. -/
inductive Job where
  | reaction (rd : JSPromiseReactionData) (isReject : Bool) (arg : Value)
  | resolveThenable (promise : Nat) (thenable thenFunc : Value)
  | other (n : Nat)
  deriving DecidableEq, Repr

/-- A call into script code that has not returned, with what its caller goes on with. -/
inductive Frame where
  | executor (pair : Nat)
  | getThen (promise : Nat) (resolution : Value)
  | handler (rd : JSPromiseReactionData)
  | thenFunc (pair : Nat)
  deriving DecidableEq, Repr

/-- What happens, in order. `ignored` is the early return of fulfill_or_reject_promise, `tracked`
a call of the host's rejection tracker; the calls of JS_EnqueueJob are `reacted`, for the reactions
of a promise, and `posted`, for other jobs, with whether they succeed. A job has `failed` when it
cannot make its resolving functions. -/
inductive Event where
  | registered (p : Nat) (rds : JSPromiseReactionData × JSPromiseReactionData)
  | settled (p : Nat) (isReject : Bool) (value : Value)
  | ignored (p : Nat)
  | tracked (p : Nat) (value : Value) (isHandled : Bool)
  | reacted (p : Nat) (job : Job) (ok : Bool)
  | posted (job : Job) (ok : Bool)
  | started (job : Job)
  | failed (job : Job)
  deriving DecidableEq, Repr

structure State where
  nextPromise : Nat
  promises : Nat → Option JSPromiseData
  nextPair : Nat
  pairs : Nat → Option JSPromiseFunctionData
  jobList : List Job
  frames : List Frame
  log : List Event

/-- What JS_GetProperty gives for `then`. -/
inductive ThenProperty where
  | exception (error : Value)
  | notFunction
  | function (f : Value)
  deriving DecidableEq, Repr

/-- One step. `mem` says which calls of JS_EnqueueJob succeed, in order. -/
inductive Label where
  | newPromise (promiseOk pairOk : Bool)
  | newCapability (promiseOk pairOk : Bool)
  | executorReturn (exception : Option Value) (mem : List Bool)
  | callResolving (pair : Nat) (isReject : Bool) (resolution : Value) (mem : List Bool)
  | gotThen (result : ThenProperty) (mem : List Bool)
  | performThen (p : Nat) (handlers funcs : Value × Value) (rdOk : Bool) (mem : List Bool)
  | enqueueOther (n : Nat) (ok : Bool)
  | startJob (pairOk : Bool) (mem : List Bool)
  | handlerReturn (isException : Bool) (result : Value) (mem : List Bool)
  | thenReturn (exception : Option Value) (mem : List Bool)

namespace State

def record (s : State) (e : Event) : State := { s with log := s.log ++ [e] }

def setPromise (s : State) (p : Nat) (d : JSPromiseData) : State :=
  { s with promises := update s.promises p (some d) }

def setPair (s : State) (pair : Nat) (r : JSPromiseFunctionData) : State :=
  { s with pairs := update s.pairs pair (some r) }

def push (s : State) (f : Frame) : State := { s with frames := f :: s.frames }

/-- `JS_EnqueueJob` -/
def jsEnqueueJob (s : State) (job : Job) (ok : Bool) : State :=
  if ok then { s with jobList := s.jobList ++ [job] } else s

/-- The loop over the reactions that are taken when a promise is settled. -/
def enqueueReactions (s : State) (p : Nat) (isReject : Bool) (value : Value) :
    List JSPromiseReactionData → List Bool → State
  | [], _ => s
  | rd :: rds, mem =>
    let job := .reaction rd isReject value
    let ok := mem.headD true
    enqueueReactions ((jsEnqueueJob s job ok).record (.reacted p job ok)) p isReject value rds
      mem.tail

/-- `fulfill_or_reject_promise` -/
def fulfillOrRejectPromise (s : State) (p : Nat) (value : Value) (isReject : Bool)
    (mem : List Bool) : State :=
  match s.promises p with
  | none => s.record (.ignored p)
  | some d =>
    if d.promiseState ≠ .pending then s.record (.ignored p)
    else
      let reactions := if isReject then d.rejectReactions else d.fulfillReactions
      let s := (setPromise s p { d with
        promiseResult := value
        promiseState := if isReject then .rejected else .fulfilled
        fulfillReactions := []
        rejectReactions := [] }).record (.settled p isReject value)
      let s := if isReject && !d.isHandled then s.record (.tracked p value false) else s
      enqueueReactions s p isReject value reactions mem

/-- `reject_promise` -/
def rejectPromise (s : State) (p : Nat) (value : Value) (mem : List Bool) : State :=
  fulfillOrRejectPromise s p value true mem

/-- `js_promise_resolve_function_call` as far as the call of the getter. -/
def jsPromiseResolveFunctionCall (s : State) (pair : Nat) (isReject : Bool) (resolution : Value)
    (mem : List Bool) : Option State :=
  (s.pairs pair).map fun r =>
    if r.alreadyResolved then s
    else
      let s := setPair s pair { r with alreadyResolved := true }
      if isReject || !resolution.isObject then
        fulfillOrRejectPromise s r.promise resolution isReject mem
      else if resolution = .promise r.promise then
        rejectPromise s r.promise (.typeError "promise self resolution") mem
      else s.push (.getThen r.promise resolution)

/-- The rest of `js_promise_resolve_function_call`. -/
def gotThen (s : State) (p : Nat) (resolution : Value) (mem : List Bool) : ThenProperty → State
  | .exception error => rejectPromise s p error mem
  | .notFunction => fulfillOrRejectPromise s p resolution false mem
  | .function f =>
    let job := .resolveThenable p resolution f
    let ok := mem.headD true
    (jsEnqueueJob s job ok).record (.posted job ok)

/-- `JS_Call` of a function that may be a resolving function; other functions take steps of their
own. -/
def jsCall (s : State) (f arg : Value) (mem : List Bool) : Option State :=
  match f with
  | .resolving pair isReject => jsPromiseResolveFunctionCall s pair isReject arg mem
  | _ => some s

/-- `js_create_resolving_functions` -/
def jsCreateResolvingFunctions (s : State) (p : Nat) : State :=
  { setPair s s.nextPair ⟨p, false⟩ with nextPair := s.nextPair + 1 }

/-- The pending promise js_promise_constructor makes, with its resolving functions. -/
def newPendingPromise (s : State) : State :=
  let p := s.nextPromise
  jsCreateResolvingFunctions
    { setPromise s p ⟨.pending, [], [], false, .undefined⟩ with nextPromise := p + 1 } p

/-- The reaction perform_promise_then makes for one of the handlers. -/
def reactionData (funcs : Value × Value) (handler : Value) : JSPromiseReactionData :=
  ⟨funcs, if handler.isFunction then handler else .undefined⟩

/-- `perform_promise_then` -/
def performPromiseThen (s : State) (p : Nat) (d : JSPromiseData) (handlers funcs : Value × Value)
    (mem : List Bool) : State :=
  let rds := (reactionData funcs handlers.1, reactionData funcs handlers.2)
  let s := s.record (.registered p rds)
  match d.promiseState with
  | .pending => setPromise s p { d with
      fulfillReactions := d.fulfillReactions ++ [rds.1]
      rejectReactions := d.rejectReactions ++ [rds.2]
      isHandled := true }
  | state =>
    let isReject := state == .rejected
    let s := if isReject && !d.isHandled then s.record (.tracked p d.promiseResult true) else s
    let job := .reaction (if isReject then rds.2 else rds.1) isReject d.promiseResult
    let ok := mem.headD true
    setPromise ((jsEnqueueJob s job ok).record (.reacted p job ok)) p { d with isHandled := true }

/-- The last part of `promise_reaction_job`: the resolving function for the outcome is called. -/
def finishReaction (s : State) (rd : JSPromiseReactionData) (isReject : Bool) (result : Value)
    (mem : List Bool) : Option State :=
  jsCall s (if isReject then rd.resolvingFuncs.2 else rd.resolvingFuncs.1) result mem

/-- A job as far as its first call into script code. -/
def startJob (s : State) (pairOk : Bool) (mem : List Bool) : Job → Option State
  | .reaction rd isReject arg =>
    if rd.handler = .undefined then finishReaction s rd isReject arg mem
    else some (s.push (.handler rd))
  | .resolveThenable p thenable thenFunc => some <|
    if pairOk then (jsCreateResolvingFunctions s p).push (.thenFunc s.nextPair)
    else s.record (.failed (.resolveThenable p thenable thenFunc))
  | .other _ => some s

/-- The call of the reject function after a call into script code has thrown. -/
def rejectOnException (s : State) (pair : Nat) (exception : Option Value) (mem : List Bool) :
    Option State :=
  match exception with
  | none => some s
  | some error => jsPromiseResolveFunctionCall s pair true error mem

/-- One step; `none` when it cannot be taken. -/
def step (s : State) : Label → Option State
  | .newPromise promiseOk pairOk => some <|
    if promiseOk && pairOk then (newPendingPromise s).push (.executor s.nextPair) else s
  | .newCapability promiseOk pairOk => some <|
    if promiseOk && pairOk then newPendingPromise s else s
  | .executorReturn exception mem =>
    match s.frames with
    | .executor pair :: frames => rejectOnException { s with frames := frames } pair exception mem
    | _ => none
  | .callResolving pair isReject resolution mem =>
    jsPromiseResolveFunctionCall s pair isReject resolution mem
  | .gotThen result mem =>
    match s.frames with
    | .getThen p resolution :: frames =>
      some (gotThen { s with frames := frames } p resolution mem result)
    | _ => none
  | .performThen p handlers funcs rdOk mem =>
    (s.promises p).map fun d => if rdOk then performPromiseThen s p d handlers funcs mem else s
  | .enqueueOther n ok => some ((jsEnqueueJob s (.other n) ok).record (.posted (.other n) ok))
  | .startJob pairOk mem =>
    match s.frames, s.jobList with
    | [], job :: jobs => startJob ({ s with jobList := jobs }.record (.started job)) pairOk mem job
    | _, _ => none
  | .handlerReturn isException result mem =>
    match s.frames with
    | .handler rd :: frames => finishReaction { s with frames := frames } rd isException result mem
    | _ => none
  | .thenReturn exception mem =>
    match s.frames with
    | .thenFunc pair :: frames => rejectOnException { s with frames := frames } pair exception mem
    | _ => none

def new : State where
  nextPromise := 0
  promises := fun _ => none
  nextPair := 0
  pairs := fun _ => none
  jobList := []
  frames := []
  log := []

end State

end IoQuickJS.Promise
