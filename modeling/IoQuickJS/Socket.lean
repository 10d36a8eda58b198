import IoQuickJS.Job

/-!
# Socket objects

The functions of js_io_socket.h on the slots of a socket record: the receive callback and the
two functions that resolve the promise of gets. Opening, closing and sending do not touch the
slots and are not part of this module.
-/
namespace IoQuickJS

/-- `io_panic` -/
def ioPanic (rt : JSRuntime) : JSRuntime := { rt with panicked := true }

/-- Assign to fields of a socket record. -/
def modifySocket (rt : JSRuntime) (r : Nat) (f : IoJsIoSocket → IoJsIoSocket) : JSRuntime :=
  { rt with sockets := Function.update rt.sockets r ((rt.sockets r).map f) }

/-- `js_io_socket_constructor` once the class is there, up to the object it stores under the
name of the socket. There is no check that js_mallocz found memory for the record. -/
def jsIoSocketConstructor (rt : JSRuntime) (handle : Nat) (objOk : Bool) : JSRuntime × JSValue :=
  if !objOk then jsThrowOutOfMemory rt
  else
    let (rt, obj) := jsNewObjectClass rt .ioSocket
    let r := rt.next
    let rt := { rt with
      next := rt.next + 1
      sockets := Function.update rt.sockets r (some ⟨handle, .undefined, .undefined, .undefined⟩) }
    (jsSetOpaque rt obj r, obj)

/-- `js_io_socket_get_receive` -/
def jsIoSocketGetReceive (rt : JSRuntime) (thisValue : JSValue) : JSRuntime × JSValue :=
  match jsGetOpaque2 rt thisValue .ioSocket "js_io_socket" with
  | (rt, some r) =>
    let value := (rt.sockets r).elim .undefined IoJsIoSocket.receiveCallback
    (jsDupValue rt value, value)
  | (rt, none) => (ioPanic rt, .undefined)

/-- `js_io_socket_set_receive`. The slot is emptied before its value is released; nothing reads
it in between. -/
def jsIoSocketSetReceive (rt : JSRuntime) (thisValue newValue : JSValue) : JSRuntime × JSValue :=
  match jsGetOpaque2 rt thisValue .ioSocket "js_io_socket" with
  | (rt, some r) =>
    if rt.isFunction newValue then
      let old := (rt.sockets r).elim .undefined IoJsIoSocket.receiveCallback
      let rt := modifySocket rt r fun s => { s with receiveCallback := .undefined }
      let rt := jsDupValue (jsFreeValueRT rt old) newValue
      (modifySocket rt r fun s => { s with receiveCallback := newValue }, .undefined)
    else if newValue = .undefined then
      -- the reference that the slot held is not given back
      (modifySocket rt r fun s => { s with receiveCallback := .undefined }, .undefined)
    else jsThrowTypeError rt "not a function"
  | (rt, none) => (ioPanic rt, .undefined)

/-- `js_io_socket_gets`; `ok` says whether there is memory for the promise. -/
def jsIoSocketGets (rt : JSRuntime) (thisValue : JSValue) (ok : Bool) : JSRuntime × JSValue :=
  match jsGetOpaque2 rt thisValue .ioSocket "js_io_socket" with
  | (rt, some r) =>
    if (rt.sockets r).elim .undefined IoJsIoSocket.asyncGets0 = .undefined then
      match jsNewPromiseCapability rt ok with
      | (rt, promise, some (resolve, reject)) =>
        let rt := modifySocket rt r fun s => { s with asyncGets0 := resolve, asyncGets1 := reject }
        ({ rt with log := rt.log ++ [.getsPromise r resolve] }, promise)
      | (rt, promise, none) => (rt, promise)
    else jsThrowTypeError rt "only one gets allowed"
  | (rt, none) => (ioPanic rt, .undefined)

/-- `js_io_socket_receive_callback`. The slots are emptied before their values are released. The
two orders differ only when the release frees this very record: C then goes on to use it, which
is the `none` here. -/
def jsIoSocketReceiveCallback (rt : JSRuntime) (r : Nat) (bytes : List UInt8)
    (strOk enqOk : Bool) : Option JSRuntime :=
  match rt.sockets r with
  | none => none
  | some this =>
    let func :=
      if this.receiveCallback ≠ .undefined then this.receiveCallback else this.asyncGets0
    if func = .undefined then some rt
    else
      let (rt, str) := if strOk then jsNewStringLen rt bytes else jsThrowOutOfMemory rt
      let rt := (ioJsEnqueueTask rt .socketContinuation [func, str] none enqOk).1
      let rt := modifySocket rt r fun s =>
        { s with asyncGets0 := .undefined, asyncGets1 := .undefined }
      let rt := [str, this.asyncGets0, this.asyncGets1].foldl jsFreeValueRT rt
      if (rt.sockets r).isSome then some rt else none

/-- What `io_socket_get_receive_pipe` finds: an encoding pipe with its oldest message, a byte
pipe with the bytes waiting in it, or neither. -/
inductive IoPipe where
  | encoding (next : Option (List UInt8))
  | byte (waiting : List UInt8)
  | other

/-- The loop of `js_io_socket_read_bytes` over a byte pipe: the chunks passed on, in order.
`buffer` is the local buffer and the byte behind it, `cursor` the index `cursor - buffer`. -/
def readBytesLoop (buffer : Nat → UInt8) (cursor : Nat) : List UInt8 → List (List UInt8)
  | [] => if 0 < cursor then [(List.range cursor).map buffer] else []
  | b :: bs =>
    let buffer := Function.update buffer cursor b
    if cursor = 64 then (List.range 64).map buffer :: readBytesLoop buffer 1 bs
    else readBytesLoop buffer (cursor + 1) bs

/-- The chunks that `js_io_socket_read_bytes` passes on; `buffer` is what the local buffer holds
on entry. -/
def IoPipe.chunks (buffer : Nat → UInt8) : IoPipe → List (List UInt8)
  | .encoding next => next.toList
  | .byte waiting => readBytesLoop buffer 0 waiting
  | .other => []

/-- The calls of `js_io_socket_receive_callback` for the chunks, each with the outcome of its
two allocations. -/
def receiveChunks (r : Nat) : JSRuntime → List (List UInt8) → List (Bool × Bool) → Option JSRuntime
  | rt, [], _ => some rt
  | rt, chunk :: chunks, mem =>
    (jsIoSocketReceiveCallback rt r chunk (mem.headD (true, true)).1 (mem.headD (true, true)).2).bind
      fun rt => receiveChunks r rt chunks mem.tail

/-- `js_io_socket_read_bytes` of a socket that is still there in the socket table. -/
def jsIoSocketReadBytes (rt : JSRuntime) (r : Nat) (pipe : IoPipe) (buffer : Nat → UInt8)
    (mem : List (Bool × Bool)) : Option JSRuntime :=
  if (rt.sockets r).isSome then receiveChunks r rt (pipe.chunks buffer) mem else none

end IoQuickJS
