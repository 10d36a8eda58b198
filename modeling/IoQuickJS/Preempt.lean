import IoQuickJS.GetsPromises

/-!
# Receive events inside the functions of a socket

js_io_socket_get_receive, set_receive and gets statement by statement. Event handlers preempt
script code, so `js_io_socket_receive_callback` can run between any two statements.

`Consistent` is what the handler and the next call rely on; `InTurn` keeps events out of the two
places where it fails.
-/
namespace IoQuickJS

/-- What a call of gets makes: `promise` is its result, `resolve` and `reject` go into the slots
of the socket. -/
structure GetsPromise where
  socket : Nat
  promise : JSValue
  resolve : JSValue
  reject : JSValue
  deriving DecidableEq, Repr

/-- The statement that is next in a call, with what the call has in its locals. -/
inductive SocketStatement where
  | getReceive
  | freeReceive (newValue : JSValue)
  | storeReceive (old newValue : JSValue)
  | newPromiseCapability
  | storeResolve (d : GetsPromise)
  | storeReject (d : GetsPromise)
  | freeExecutor (d : GetsPromise)
  deriving DecidableEq, Repr

/-- A call in progress: the receiver, its record and the next statement. -/
structure SocketCall where
  this : JSValue
  socket : Nat
  next : SocketStatement
  deriving DecidableEq, Repr

/-- What the handler has taken: whether the function it queued was allocated, and whether it read
a value in on_receive that had been released. -/
structure Handled extends Taken where
  allocated : Bool
  released : Bool
  deriving DecidableEq, Repr

/-- `promises` and `handled` are not in the source: what all calls of gets have made and all
events have taken so far. While the slot on_receive contains a value whose reference has been
given back, the record in `rt` has undefined there and the value is in the call. -/
structure PreemptState where
  rt : JSRuntime
  call : Option SocketCall
  promises : List GetsPromise
  handled : List Handled

namespace PreemptState

/-- The value that on_receive contains although its reference has been given back. -/
def stale (s : PreemptState) (r : Nat) : JSValue :=
  match s.call with
  | some ⟨_, q, .storeReceive old _⟩ => if q = r then old else .undefined
  | _ => .undefined

/-- One of the two stores of gets has been made. -/
def halfWritten (s : PreemptState) (r : Nat) : Bool :=
  match s.call with
  | some ⟨_, q, .storeReject _⟩ => q == r
  | _ => false

/-- A receive event with the given data: `js_io_socket_receive_callback` on the record as it is in
memory. -/
def receive (s : PreemptState) (r : Nat) (bytes : List UInt8) (strOk enqOk : Bool) :
    Option PreemptState :=
  let old := s.stale r
  let rt :=
    if old = .undefined then s.rt
    else modifySocket s.rt r fun t => { t with receiveCallback := old }
  (rt.sockets r).bind fun this =>
    (jsIoSocketReceiveCallback rt r bytes strOk enqOk).map fun rt' =>
      { s with
        rt :=
          if old = .undefined then rt'
          else modifySocket rt' r fun t => { t with receiveCallback := .undefined }
        handled := s.handled ++ [⟨⟨r, bytes, this.receiveCallback, this.asyncGets0⟩,
          rt.live this.consumer, old != .undefined⟩] }

/-- The next statement of a call; `ok` is whether there is memory for the promise. -/
def statement (s : PreemptState) (ok : Bool) (c : SocketCall) : PreemptState :=
  let r := c.socket
  match c.next with
  | .getReceive =>
    let value := (s.rt.sockets r).elim .undefined IoJsIoSocket.receiveCallback
    { s with rt := JSRuntime.push (jsDupValue s.rt value, value), call := none }
  | .freeReceive newValue =>
    let old := (s.rt.sockets r).elim .undefined IoJsIoSocket.receiveCallback
    { s with
      rt := jsFreeValueRT (modifySocket s.rt r fun t => { t with receiveCallback := .undefined }) old
      call := some { c with next := .storeReceive old newValue } }
  | .storeReceive _ newValue =>
    { s with
      rt := modifySocket (jsDupValue s.rt newValue) r fun t => { t with receiveCallback := newValue }
      call := none }
  | .newPromiseCapability =>
    -- the executor keeps the two functions until it is freed
    match jsNewPromiseCapability s.rt ok with
    | (rt, promise, some (resolve, reject)) =>
      let d := ⟨r, promise, resolve, reject⟩
      { s with
        rt := JSRuntime.push ({ rt with log := rt.log ++ [.getsPromise r resolve] }, promise)
        call := some { c with next := .storeResolve d }
        promises := s.promises ++ [d] }
    | (rt, _, none) => { s with rt := rt, call := none }
  | .storeResolve d =>
    { s with
      rt := modifySocket (jsDupValue s.rt d.resolve) r fun t => { t with asyncGets0 := d.resolve }
      call := some { c with next := .storeReject d } }
  | .storeReject d =>
    { s with
      rt := modifySocket (jsDupValue s.rt d.reject) r fun t => { t with asyncGets1 := d.reject }
      call := some { c with next := .freeExecutor d } }
  | .freeExecutor d => { s with rt := [d.resolve, d.reject].foldl jsFreeValueRT s.rt, call := none }

/-- A call of script code up to its first statement. -/
def enter (s : PreemptState) (this : JSValue) (body : Nat → PreemptState) : Option PreemptState :=
  if s.call.isNone ∧ s.rt.holds this then
    match jsGetOpaque2 s.rt this .ioSocket "js_io_socket" with
    | (_, some r) => some (body r)
    | (rt, none) => some { s with rt := ioPanic rt }
  else none

end PreemptState

inductive PreemptLabel where
  | machine (l : Label)
  | getReceive (this : JSValue)
  | setReceive (this value : JSValue)
  | gets (this : JSValue)
  | statement (ok : Bool)
  | receive (r : Nat) (bytes : List UInt8) (strOk enqOk : Bool)

/-- Script code and the main loop go on when no call is in progress. -/
def preemptStep (s : PreemptState) : PreemptLabel → Option PreemptState
  | .machine l =>
    if s.call.isNone then (step s.rt l).map fun rt => { s with rt := rt } else none
  | .getReceive this => s.enter this fun r => { s with call := some ⟨this, r, .getReceive⟩ }
  | .setReceive this value =>
    if s.rt.holds value then
      s.enter this fun r =>
        if s.rt.isFunction value then { s with call := some ⟨this, r, .freeReceive value⟩ }
        else if value = .undefined then
          { s with rt := modifySocket s.rt r fun t => { t with receiveCallback := .undefined } }
        else { s with rt := (jsThrowTypeError s.rt "not a function").1 }
    else none
  | .gets this =>
    s.enter this fun r =>
      if (s.rt.sockets r).elim .undefined IoJsIoSocket.asyncGets0 = .undefined then
        { s with call := some ⟨this, r, .newPromiseCapability⟩ }
      else { s with rt := (jsThrowTypeError s.rt "only one gets allowed").1 }
  | .statement ok => s.call.map (s.statement ok)
  | .receive r bytes strOk enqOk => s.receive r bytes strOk enqOk

/-- The steps that a call or an event takes here one by one are no steps of the machine. -/
def PreemptProgram (s : PreemptState) : PreemptLabel → Prop
  | .machine (.getReceive _) | .machine (.setReceive ..) | .machine (.gets ..)
  | .machine (.receive ..) => False
  | .machine l => SocketProgram l ∧ LoadsPassed s.rt l
  | _ => True

/-! ## The law -/

/-- The statements of gets. -/
def SocketStatement.inGets : SocketStatement → Bool
  | .newPromiseCapability | .storeResolve _ | .storeReject _ | .freeExecutor _ => true
  | .getReceive | .freeReceive _ | .storeReceive .. => false

/-- No event has queued the function that resolves the promise, and script code cannot get at
it. -/
def PreemptState.Outstanding (s : PreemptState) (d : GetsPromise) : Prop :=
  (∀ h ∈ s.handled, h.consumer ≠ d.resolve) ∧ ¬ Accessible s.rt d.resolve

/-- The slots are in order. -/
structure Consistent (s : PreemptState) : Prop where
  /-- Every function that the handler has queued was allocated at that moment. -/
  allocated : ∀ h ∈ s.handled, h.allocated
  /-- The handler has never read a released value in on_receive. -/
  unreleased : ∀ h ∈ s.handled, h.released = false
  /-- Outside of gets the slots hold nothing or the two functions of one promise. -/
  paired : ∀ r t, s.rt.sockets r = some t →
    (∀ c, s.call = some c → c.socket = r → c.next.inGets = false) →
    t.asyncGets0 = .undefined ∧ t.asyncGets1 = .undefined ∨
      ∃ d ∈ s.promises, d.socket = r ∧ t.asyncGets0 = d.resolve ∧ t.asyncGets1 = d.reject ∧
        s.Outstanding d

/-- No event for a socket comes while its on_receive contains a released value, or between the
two stores of gets. -/
def InTurn (s : PreemptState) : PreemptLabel → Prop
  | .receive r .. => s.stale r = .undefined ∧ s.halfWritten r = false
  | _ => True

instance (s : PreemptState) : ∀ l, Decidable (InTurn s l)
  | .receive r .. => inferInstanceAs (Decidable (s.stale r = .undefined ∧ s.halfWritten r = false))
  | .machine _ | .getReceive _ | .setReceive .. | .gets _ | .statement _ =>
    inferInstanceAs (Decidable True)

end IoQuickJS
