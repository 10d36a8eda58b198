import IoQuickJS.Accounts
import IoQuickJS.Machine
import IoQuickJS.SocketText

/-!
# The functions of socket objects and io_panic

Every function of a socket object begins with JS_GetOpaque2, which throws a TypeError when the
this value is of another class; all but print and put then go on to io_panic and return a value
that is no exception. The finalizer and the mark function panic when the opaque pointer is not
set, and open when the socket table has no entry for the handle.

`ioGetSocket` says for which handles `io_get_socket` finds a socket. The table of io_core is
fixed, so it is a parameter and not part of the state.

## Main result

* `callStep_respected_iff`: the runs in which nothing panics and every TypeError is returned.
-/
namespace IoQuickJS

open Function JSRuntime

/-! ## The functions that do not touch the slots -/

section Calls

variable (ioGetSocket : Nat → Bool)

/-- `js_io_socket_close`; `io_socket_close` does not touch the runtime. -/
def jsIoSocketClose (rt : JSRuntime) (thisValue : JSValue) : JSRuntime × JSValue :=
  match jsGetOpaque2 rt thisValue .ioSocket "js_io_socket" with
  | (rt, some _) => (rt, .undefined)
  | (rt, none) => (ioPanic rt, .undefined)

/-- `js_io_socket_open`; `opened` is the result of `io_socket_open`. -/
def jsIoSocketOpen (rt : JSRuntime) (thisValue : JSValue) (opened : Bool) :
    JSRuntime × JSValue :=
  match jsGetOpaque2 rt thisValue .ioSocket "js_io_socket" with
  | (rt, some r) =>
    if (rt.sockets r).all fun s => ioGetSocket s.handle then (rt, .bool opened)
    else (ioPanic rt, .bool false)
  | (rt, none) => (ioPanic rt, .bool false)

/-- What print and put have in common: `message` is the text they make of the arguments, of
which `none` is one whose conversion throws; `newMessage` is whether `io_socket_new_message`
finds memory, and `sendMessage` the result of `io_socket_send_message`. -/
def sendText (message : List Text.JSString → List UInt8) (rt : JSRuntime) (thisValue : JSValue)
    (newMessage : Bool) (argv : List (Option Text.JSString)) (sendMessage : List UInt8 → Bool) :
    JSRuntime × JSValue :=
  match jsGetOpaque2 rt thisValue .ioSocket "js_io_socket" with
  | (rt, some r) =>
    if ((rt.sockets r).any fun s => ioGetSocket s.handle) && newMessage then
      match argv.mapM id with
      | some strs => (rt, .bool (sendMessage (message strs)))
      | none => ({ rt with currentException := some .thrown }, .exception)
    else (rt, .undefined)
  | (rt, none) => (rt, .undefined)

/-- `js_io_socket_print` -/
def jsIoSocketPrint [IoEncoding] := sendText ioGetSocket Text.jsIoSocketPrint

/-- `js_io_socket_put` -/
def jsIoSocketPut [IoEncoding] := sendText ioGetSocket Text.jsIoSocketPut

end Calls

/-! ## The system -/

/-- A step of the machine, or a call of one of the functions above. -/
inductive CallLabel where
  | machine (l : Label)
  | close (this : JSValue)
  | openSocket (this : JSValue) (opened : Bool)
  | print (this : JSValue) (newMessage : Bool) (argv : List (Option Text.JSString))
      (sendMessage : List UInt8 → Bool)
  | put (this : JSValue) (newMessage : Bool) (argv : List (Option Text.JSString))
      (sendMessage : List UInt8 → Bool)

/-- The this value of a call of a function of socket objects, and what the call makes of the
runtime. -/
def CallLabel.call [IoEncoding] (ioGetSocket : Nat → Bool) (rt : JSRuntime) :
    CallLabel → Option (JSValue × (JSRuntime × JSValue))
  | .machine (.getReceive this) => some (this, jsIoSocketGetReceive rt this)
  | .machine (.setReceive this value) => some (this, jsIoSocketSetReceive rt this value)
  | .machine (.gets this ok) => some (this, jsIoSocketGets rt this ok)
  | .close this => some (this, jsIoSocketClose rt this)
  | .openSocket this opened => some (this, jsIoSocketOpen ioGetSocket rt this opened)
  | .print this newMessage argv sendMessage =>
    some (this, jsIoSocketPrint ioGetSocket rt this newMessage argv sendMessage)
  | .put this newMessage argv sendMessage =>
    some (this, jsIoSocketPut ioGetSocket rt this newMessage argv sendMessage)
  | _ => none

/-- `js_io_socket_mark` is called with every object of its class that JS_RunGC goes over. -/
def markPanics (rt : JSRuntime) : Bool :=
  rt.gcObjList.any fun p =>
    (rt.objects p).any fun o => o.classId = .ioSocket ∧ o.uOpaque = none

def callStep [IoEncoding] (ioGetSocket : Nat → Bool) (rt : JSRuntime) : CallLabel → Option JSRuntime
  -- `js_io_socket_constructor` returns at once without a socket
  | .machine (.newSocket handle objOk) =>
    if ioGetSocket handle then step rt (.newSocket handle objOk) else some rt
  | .machine .runGC =>
    some { jsRunGC rt with panicked := (jsRunGC rt).panicked || markPanics rt }
  | .machine l => step rt l
  | .close this => if rt.holds this then some (push (jsIoSocketClose rt this)) else none
  | .openSocket this opened =>
    if rt.holds this then some (push (jsIoSocketOpen ioGetSocket rt this opened)) else none
  | .print this newMessage argv sendMessage =>
    if rt.holds this then
      some (push (jsIoSocketPrint ioGetSocket rt this newMessage argv sendMessage))
    else none
  | .put this newMessage argv sendMessage =>
    if rt.holds this then
      some (push (jsIoSocketPut ioGetSocket rt this newMessage argv sendMessage))
    else none

/-- The value is an object that `js_io_socket_constructor` has made. -/
def JSRuntime.isSocket (rt : JSRuntime) : JSValue → Bool
  | .object p => (rt.objects p).any fun o => o.classId = .ioSocket
  | _ => false

/-- No call panics in this step, and one with another this value returns the exception it has
thrown. -/
def Respected [IoEncoding] (ioGetSocket : Nat → Bool) (rt : JSRuntime) (l : CallLabel) : Prop :=
  (∀ rt', callStep ioGetSocket rt l = some rt' → rt'.panicked = false) ∧
    ∀ this res, l.call ioGetSocket rt = some (this, res) → ¬ rt.isSocket this →
      res.2 = .exception ∧
        res.1.currentException = some (.typeError "js_io_socket object expected")

/-- Functions of socket objects are called on socket objects. -/
def OnSocket [IoEncoding] (ioGetSocket : Nat → Bool) (rt : JSRuntime) (l : CallLabel) : Prop :=
  ∀ this res, l.call ioGetSocket rt = some (this, res) → rt.isSocket this

/-! ## What is set in every socket object -/

/-- Script and collector see the opaque pointer of every socket object, and the socket table has
its handle. -/
structure SocketsSet (ioGetSocket : Nat → Bool) (rt : JSRuntime) : Prop where
  opaqueSet : ∀ p o, rt.objects p = some o → o.classId = .ioSocket → o.uOpaque ≠ none
  handle : ∀ r s, rt.sockets r = some s → ioGetSocket s.handle
  panicked : rt.panicked = false

section SocketsSet

variable {ioGetSocket : Nat → Bool} {a b rt : JSRuntime}

theorem SocketsSet.of_same (h : SocketsSet ioGetSocket a) (ho : b.objects = a.objects)
    (hs : b.sockets = a.sockets) (hp : b.panicked = a.panicked) : SocketsSet ioGetSocket b :=
  ⟨by rw [ho]; exact h.opaqueSet, by rw [hs]; exact h.handle, by rw [hp]; exact h.panicked⟩

theorem SocketsSet.setObject (h : SocketsSet ioGetSocket a) {p : Nat} {o : Option JSObject}
    (hset : ∀ o' ∈ o, o'.classId = .ioSocket → o'.uOpaque ≠ none)
    (ho : b.objects = update a.objects p o) (hs : b.sockets = a.sockets)
    (hp : b.panicked = a.panicked) : SocketsSet ioGetSocket b := by
  refine ⟨fun q o' hq hcls => ?_, by rw [hs]; exact h.handle, by rw [hp]; exact h.panicked⟩
  rw [ho, update_apply] at hq
  split at hq
  · exact hset o' hq hcls
  · exact h.opaqueSet q o' hq hcls

theorem SocketsSet.setSocket (h : SocketsSet ioGetSocket a) {r : Nat} {s : Option IoJsIoSocket}
    (hset : ∀ s' ∈ s, ioGetSocket s'.handle) (ho : b.objects = a.objects)
    (hs : b.sockets = update a.sockets r s) (hp : b.panicked = a.panicked) :
    SocketsSet ioGetSocket b := by
  refine ⟨by rw [ho]; exact h.opaqueSet, fun q s' hq => ?_, by rw [hp]; exact h.panicked⟩
  rw [hs, update_apply] at hq
  split at hq
  · exact hset s' hq
  · exact h.handle q s' hq

theorem SocketsSet.counts (h : SocketsSet ioGetSocket a) (hc : CountsOnly a b) :
    SocketsSet ioGetSocket b :=
  h.of_same hc.objects hc.sockets hc.panicked

theorem SocketsSet.foldl {α : Type} {f : JSRuntime → α → JSRuntime} {l : List α}
    (hf : ∀ rt x, SocketsSet ioGetSocket rt → SocketsSet ioGetSocket (f rt x))
    (h : SocketsSet ioGetSocket rt) : SocketsSet ioGetSocket (l.foldl f rt) := by
  induction l generalizing rt with
  | nil => exact h
  | cons x l ih => exact ih (hf rt x h)

/-! ### Releasing values -/

theorem SocketsSet.freeValueIn (h : SocketsSet ioGetSocket rt) (ph : GCPhase) (v : JSValue) :
    SocketsSet ioGetSocket (freeValueIn ph rt v) :=
  h.counts (freeValueIn_countsOnly ph rt v)

theorem SocketsSet.dup (h : SocketsSet ioGetSocket rt) (v : JSValue) :
    SocketsSet ioGetSocket (jsDupValue rt v) :=
  h.counts (jsDupValue_countsOnly rt v)

theorem SocketsSet.freeIoJsTimer {free : JSRuntime → JSValue → JSRuntime}
    (hfree : ∀ rt v, SocketsSet ioGetSocket rt → SocketsSet ioGetSocket (free rt v))
    (h : SocketsSet ioGetSocket rt) (r : Nat) (tmr : JSIOTimer) :
    SocketsSet ioGetSocket (freeIoJsTimer free rt r tmr) :=
  .foldl hfree (h.of_same rfl rfl rfl)

/-- The finalizer of a socket object whose opaque pointer is set does not panic. -/
theorem SocketsSet.finalizer (h : SocketsSet ioGetSocket rt) (ph : GCPhase) {o : JSObject}
    (ho : o.classId = .ioSocket → o.uOpaque ≠ none) :
    SocketsSet ioGetSocket (finalizer ph rt o) := by
  have hfree := fun rt v (h : SocketsSet ioGetSocket rt) => h.freeValueIn ph v
  unfold IoQuickJS.finalizer
  cases hcls : o.classId with
  | ioTimer =>
    simp only [ioJsTimerFinalizer]
    repeat' split
    · exact h
    · exact h
    · exact h.of_same rfl rfl rfl
    · exact h.freeIoJsTimer hfree _ _
  | ioSocket =>
    cases hop : o.uOpaque with
    | none => exact absurd hop (ho hcls)
    | some r =>
      simp only [jsIoSocketFinalizer]
      split
      · exact h
      · exact .foldl hfree (h.setSocket (by simp) rfl rfl rfl)
  | object | function => exact h

theorem SocketsSet.freeRtObject (h : SocketsSet ioGetSocket rt) (p : Nat) :
    SocketsSet ioGetSocket (jsFreeRtObject rt p) :=
  h.setObject (by simp) rfl rfl rfl

theorem SocketsSet.freeObject (h : SocketsSet ioGetSocket rt) (ph : GCPhase) (p : Nat) :
    SocketsSet ioGetSocket (freeObject ph rt p) := by
  unfold IoQuickJS.freeObject
  cases ho : rt.objects p with
  | none => exact h
  | some o =>
    have hzombie : SocketsSet ioGetSocket
        { rt with objects := update rt.objects p (some JSObject.zombie) } :=
      h.setObject (by simp [JSObject.zombie]) rfl rfl rfl
    have hprop := hzombie.foldl (l := o.prop) fun rt v h => h.freeValueIn ph v
    have hfinal := hprop.finalizer ph (h.opaqueSet p o ho)
    have hremoved := hfinal.of_same (b := removeGCObject _ p) rfl rfl rfl
    dsimp only
    split
    · exact hremoved.of_same rfl rfl rfl
    · exact hremoved.freeRtObject p

theorem SocketsSet.freeZeroRefcountLoop (n : Nat) (h : SocketsSet ioGetSocket rt) :
    SocketsSet ioGetSocket (freeZeroRefcountLoop n rt) := by
  induction n generalizing rt with
  | zero => exact h
  | succ n ih =>
    simp only [IoQuickJS.freeZeroRefcountLoop]
    split
    · exact h
    · exact ih (h.freeObject _ _)

theorem SocketsSet.free (h : SocketsSet ioGetSocket rt) (v : JSValue) :
    SocketsSet ioGetSocket (jsFreeValueRT rt v) :=
  (h.freeValueIn _ v).freeZeroRefcountLoop _

/-! ### Making values -/

theorem SocketsSet.newObject (h : SocketsSet ioGetSocket rt) {classId : JSClassID}
    (hcls : classId ≠ .ioSocket) : SocketsSet ioGetSocket (jsNewObjectClass rt classId).1 :=
  h.setObject (by simpa using hcls) rfl rfl rfl

theorem SocketsSet.modifyProp (h : SocketsSet ioGetSocket rt) (p : Nat)
    (f : List JSValue → List JSValue) : SocketsSet ioGetSocket (rt.modifyProp p f) := by
  refine h.setObject (fun o' ho' => ?_) rfl rfl rfl
  obtain ⟨o, ho, rfl⟩ := Option.map_eq_some_iff.mp ho'
  exact h.opaqueSet p o ho

theorem SocketsSet.setOpaque (h : SocketsSet ioGetSocket rt) (obj : JSValue) (r : Nat) :
    SocketsSet ioGetSocket (jsSetOpaque rt obj r) := by
  cases obj with
  | object p =>
    refine h.setObject (fun o' ho' _ => ?_) rfl rfl rfl
    obtain ⟨o, ho, rfl⟩ := Option.map_eq_some_iff.mp ho'
    simp
  | _ => exact h

theorem SocketsSet.throwOutOfMemory (h : SocketsSet ioGetSocket rt) :
    SocketsSet ioGetSocket (jsThrowOutOfMemory rt).1 :=
  h.of_same rfl rfl rfl

theorem SocketsSet.modifyTimer (h : SocketsSet ioGetSocket rt) (r : Nat)
    (f : JSIOTimer → JSIOTimer) : SocketsSet ioGetSocket (modifyTimer rt r f) :=
  h.of_same rfl rfl rfl

theorem SocketsSet.newIOTimer (h : SocketsSet ioGetSocket rt) (resolve reject : JSValue)
    (onTimeout : TimeoutHandler) :
    SocketsSet ioGetSocket (newIOTimer rt resolve reject onTimeout).1 :=
  h.of_same rfl rfl rfl

theorem SocketsSet.resolvingFunction (h : SocketsSet ioGetSocket rt) (promise : JSValue) :
    SocketsSet ioGetSocket (jsNewResolvingFunction rt promise).1 := by
  have hfunc := (h.dup promise).newObject (show JSClassID.function ≠ .ioSocket by simp)
  unfold jsNewResolvingFunction
  exact hfunc.modifyProp rt.next fun vs => vs ++ [promise]

theorem SocketsSet.promiseCapability (h : SocketsSet ioGetSocket rt) (ok : Bool) :
    SocketsSet ioGetSocket (jsNewPromiseCapability rt ok).1 := by
  cases ok with
  | false => exact h.of_same rfl rfl rfl
  | true => exact ((h.newObject (by simp)).resolvingFunction _).resolvingFunction _

theorem SocketsSet.enqueueJob (h : SocketsSet ioGetSocket rt) (jobFunc : JSJobFunc)
    (argv : List JSValue) (origin : Option Nat) (ok : Bool) :
    SocketsSet ioGetSocket (jsEnqueueJob rt jobFunc argv origin ok).1 := by
  cases ok with
  | false => exact h.of_same rfl rfl rfl
  | true =>
    have hdup : SocketsSet ioGetSocket (argv.foldl jsDupValue rt) := h.foldl fun rt v h => h.dup v
    exact hdup.of_same rfl rfl rfl

theorem SocketsSet.getOpaque2 (h : SocketsSet ioGetSocket rt) (val : JSValue)
    (classId : JSClassID) (name : String) :
    SocketsSet ioGetSocket (jsGetOpaque2 rt val classId name).1 := by
  unfold jsGetOpaque2
  split
  · exact h
  · exact h.of_same rfl rfl rfl

theorem SocketsSet.push {res : JSRuntime × JSValue} (h : SocketsSet ioGetSocket res.1) :
    SocketsSet ioGetSocket (JSRuntime.push res) := by
  unfold JSRuntime.push
  split
  · exact h.of_same rfl rfl rfl
  · exact h

/-! ### Timers -/

theorem SocketsSet.setTimeout (h : SocketsSet ioGetSocket rt) (func : JSValue)
    (delayOk objOk tmrOk : Bool) :
    SocketsSet ioGetSocket (ioJsSetTimeout rt func delayOk objOk tmrOk).1 := by
  have hobj : SocketsSet ioGetSocket (jsNewObjectClass rt .ioTimer).1 := h.newObject (by simp)
  unfold ioJsSetTimeout
  split_ifs
  · exact h.of_same rfl rfl rfl
  · exact h.of_same rfl rfl rfl
  · exact h.of_same rfl rfl rfl
  · exact hobj.throwOutOfMemory.free _
  · have htmr := (hobj.dup func).newIOTimer func .undefined .setTimeout
    let r := (jsDupValue (jsNewObjectClass rt .ioTimer).1 func).next
    have halarm := htmr.modifyTimer r fun t => { t with alarm := true }
    have hobject := halarm.modifyTimer r fun t => { t with hasObject := true }
    exact (hobject.setOpaque (.object rt.next) r).of_same rfl rfl rfl

theorem SocketsSet.after (h : SocketsSet ioGetSocket rt) {capOk delayOk tmrOk : Bool}
    {res : JSRuntime × JSValue} (hres : ioJsAfter rt capOk delayOk tmrOk = some res) :
    SocketsSet ioGetSocket res.1 := by
  have hcap := h.promiseCapability capOk
  unfold ioJsAfter at hres
  dsimp only at hres
  split_ifs at hres
  · obtain rfl := Option.some.inj hres
    exact hcap.of_same rfl rfl rfl
  · obtain rfl := Option.some.inj hres
    exact hcap.throwOutOfMemory.free _
  · split at hres
    · cases hres
    · obtain rfl := Option.some.inj hres
      exact hcap.of_same rfl rfl rfl

theorem SocketsSet.setTimeoutOnTimeout (h : SocketsSet ioGetSocket rt) {r : Nat} {enqOk : Bool}
    (hres : ioJsSetTimeoutOnTimeout rt r enqOk = some b) : SocketsSet ioGetSocket b := by
  unfold ioJsSetTimeoutOnTimeout at hres
  split at hres
  · cases hres
  · rename_i tmr _
    have htmr := h.modifyTimer r fun t => { t with resolve := .undefined }
    have hfreed := htmr.freeIoJsTimer (fun rt v h => h.free v) r { tmr with resolve := .undefined }
    cases hobj : tmr.hasObject with
    | true =>
      simp only [hobj, if_true, Option.ite_none_right_eq_some, Option.some.injEq] at hres
      obtain ⟨-, rfl⟩ := hres
      exact (htmr.enqueueJob _ _ _ _).free _
    | false =>
      simp only [hobj, Bool.false_eq_true, if_false, Option.ite_none_right_eq_some,
        Option.some.injEq] at hres
      obtain ⟨-, rfl⟩ := hres
      exact (hfreed.enqueueJob _ _ _ _).free _

theorem SocketsSet.afterOnTimeout (h : SocketsSet ioGetSocket rt) {r : Nat} {enqOk : Bool}
    (hres : ioJsAfterOnTimeout rt r enqOk = some b) : SocketsSet ioGetSocket b := by
  unfold ioJsAfterOnTimeout at hres
  split at hres
  · cases hres
  · split at hres
    · obtain rfl := Option.some.inj hres
      exact (h.enqueueJob _ _ _ _).freeIoJsTimer (fun rt v h => h.free v) _ _
    · cases hres

theorem SocketsSet.clearTimeout (h : SocketsSet ioGetSocket rt) (t : JSValue) :
    SocketsSet ioGetSocket (ioJsClearTimeout rt t).1 := by
  have hget := h.getOpaque2 t .ioTimer "IOTimer"
  unfold ioJsClearTimeout
  split
  · rename_i heq
    rw [heq] at hget
    exact hget.of_same rfl rfl rfl
  · rename_i heq
    rwa [heq] at hget

theorem SocketsSet.deliver (h : SocketsSet ioGetSocket rt) {r : Nat} {enqOk : Bool}
    (hres : deliverTimeout rt r enqOk = some b) : SocketsSet ioGetSocket b := by
  have hevents : SocketsSet ioGetSocket { rt with events := rt.events.erase r } :=
    h.of_same rfl rfl rfl
  unfold deliverTimeout at hres
  split at hres
  · dsimp only at hres
    split at hres
    · exact hevents.setTimeoutOnTimeout hres
    · exact hevents.afterOnTimeout hres
    · cases hres
  · cases hres

/-! ### Sockets -/

theorem SocketsSet.modifySocket (h : SocketsSet ioGetSocket rt) (r : Nat)
    (f : IoJsIoSocket → IoJsIoSocket) (hf : ∀ s, (f s).handle = s.handle) :
    SocketsSet ioGetSocket (modifySocket rt r f) := by
  refine h.setSocket (fun s' hs' => ?_) rfl rfl rfl
  obtain ⟨s, hs, rfl⟩ := Option.map_eq_some_iff.mp hs'
  rw [hf]
  exact h.handle r s hs

theorem SocketsSet.newString (h : SocketsSet ioGetSocket rt) (bytes : List UInt8) :
    SocketsSet ioGetSocket (jsNewStringLen rt bytes).1 :=
  h.of_same rfl rfl rfl

/-- The constructor sets the opaque pointer before anybody sees the object. -/
theorem SocketsSet.constructor (h : SocketsSet ioGetSocket rt) {handle : Nat}
    (hhandle : ioGetSocket handle) (objOk : Bool) :
    SocketsSet ioGetSocket (jsIoSocketConstructor rt handle objOk).1 := by
  cases objOk with
  | false => exact h.throwOutOfMemory
  | true =>
    have hobjects : (jsIoSocketConstructor rt handle true).1.objects =
        update rt.objects rt.next (some ⟨.ioSocket, some (rt.next + 1), []⟩) := by
      simp [jsIoSocketConstructor, jsNewObjectClass, jsSetOpaque]
    have hsockets : (jsIoSocketConstructor rt handle true).1.sockets =
        update rt.sockets (rt.next + 1) (some ⟨handle, .undefined, .undefined, .undefined⟩) := rfl
    let mid := { rt with objects := (jsIoSocketConstructor rt handle true).1.objects }
    have hmid : SocketsSet ioGetSocket mid := h.setObject (by simp) hobjects rfl rfl
    exact hmid.setSocket (by simpa using hhandle) rfl hsockets rfl

theorem SocketsSet.getOpaque2_socket (h : SocketsSet ioGetSocket rt) {this : JSValue}
    (hthis : rt.isSocket this) (name : String) :
    ∃ r, jsGetOpaque2 rt this .ioSocket name = (rt, some r) := by
  cases this with
  | object p =>
    cases ho : rt.objects p with
    | none => simp [isSocket, ho] at hthis
    | some o =>
      have hcls : o.classId = .ioSocket := by simpa [isSocket, ho] using hthis
      obtain ⟨r, hr⟩ := Option.ne_none_iff_exists'.mp (h.opaqueSet p o ho hcls)
      exact ⟨r, by simp [jsGetOpaque2, getOpaque, ho, JSObject.opaqueAs, hcls, hr]⟩
  | _ => simp [isSocket] at hthis

theorem getOpaque2_not_socket {this : JSValue} (hthis : ¬ rt.isSocket this)
    (name : String) : jsGetOpaque2 rt this .ioSocket name =
      ((jsThrowTypeError rt (name ++ " object expected")).1, none) := by
  have hnone : rt.getOpaque this .ioSocket = none := by
    cases this with
    | object p =>
      cases ho : rt.objects p with
      | none => simp [getOpaque, ho]
      | some o =>
        have hcls : o.classId ≠ .ioSocket := by simpa [isSocket, ho] using hthis
        simp [getOpaque, ho, JSObject.opaqueAs, hcls]
    | _ => rfl
  simp only [jsGetOpaque2, hnone]

theorem SocketsSet.getReceive (h : SocketsSet ioGetSocket rt) {this : JSValue}
    (hthis : rt.isSocket this) : SocketsSet ioGetSocket (jsIoSocketGetReceive rt this).1 := by
  obtain ⟨r, hr⟩ := h.getOpaque2_socket hthis "js_io_socket"
  simp only [jsIoSocketGetReceive, hr]
  exact h.dup _

theorem SocketsSet.setReceive (h : SocketsSet ioGetSocket rt) {this : JSValue}
    (hthis : rt.isSocket this) (value : JSValue) :
    SocketsSet ioGetSocket (jsIoSocketSetReceive rt this value).1 := by
  obtain ⟨r, hr⟩ := h.getOpaque2_socket hthis "js_io_socket"
  have hcleared := h.modifySocket r (fun s => { s with receiveCallback := .undefined }) fun _ => rfl
  simp only [jsIoSocketSetReceive, hr]
  split
  · exact ((hcleared.free _).dup value).modifySocket _ _ fun _ => rfl
  · split
    · exact hcleared
    · exact h.of_same rfl rfl rfl

theorem SocketsSet.gets (h : SocketsSet ioGetSocket rt) {this : JSValue}
    (hthis : rt.isSocket this) (ok : Bool) :
    SocketsSet ioGetSocket (jsIoSocketGets rt this ok).1 := by
  obtain ⟨r, hr⟩ := h.getOpaque2_socket hthis "js_io_socket"
  have hcap := h.promiseCapability ok
  simp only [jsIoSocketGets, hr]
  split
  · split
    · rename_i mid promise resolve reject heq
      rw [heq] at hcap
      have hset := hcap.modifySocket r
        (fun s => { s with asyncGets0 := resolve, asyncGets1 := reject }) fun _ => rfl
      exact hset.of_same rfl rfl rfl
    · rename_i heq
      rwa [heq] at hcap
  · exact h.of_same rfl rfl rfl

theorem SocketsSet.close (h : SocketsSet ioGetSocket rt) {this : JSValue}
    (hthis : rt.isSocket this) : SocketsSet ioGetSocket (jsIoSocketClose rt this).1 := by
  obtain ⟨r, hr⟩ := h.getOpaque2_socket hthis "js_io_socket"
  simp only [jsIoSocketClose, hr]
  exact h

/-- Every handle in a record is one the constructor has found a socket for. -/
theorem SocketsSet.openSocket (h : SocketsSet ioGetSocket rt) {this : JSValue}
    (hthis : rt.isSocket this) (opened : Bool) :
    SocketsSet ioGetSocket (jsIoSocketOpen ioGetSocket rt this opened).1 := by
  obtain ⟨r, hr⟩ := h.getOpaque2_socket hthis "js_io_socket"
  have hfound : (rt.sockets r).all fun s => ioGetSocket s.handle := by
    cases hs : rt.sockets r with
    | none => rfl
    | some s => simpa using h.handle r s hs
  simp only [jsIoSocketOpen, hr, hfound, if_true]
  exact h

/-- Sending does not panic whatever the this value is. -/
theorem SocketsSet.sendText (h : SocketsSet ioGetSocket rt)
    (message : List Text.JSString → List UInt8) (this : JSValue) (newMessage : Bool)
    (argv : List (Option Text.JSString)) (sendMessage : List UInt8 → Bool) :
    SocketsSet ioGetSocket
      (sendText ioGetSocket message rt this newMessage argv sendMessage).1 := by
  have hget := h.getOpaque2 this .ioSocket "js_io_socket"
  unfold IoQuickJS.sendText
  split
  all_goals
    rename_i heq
    rw [heq] at hget
  · split
    · split
      · exact hget
      · exact hget.of_same rfl rfl rfl
    · exact hget
  · exact hget

theorem SocketsSet.receiveCallback (h : SocketsSet ioGetSocket rt) {r : Nat}
    {bytes : List UInt8} {strOk enqOk : Bool}
    (hres : jsIoSocketReceiveCallback rt r bytes strOk enqOk = some b) :
    SocketsSet ioGetSocket b := by
  have htail : ∀ mid func str (this : IoJsIoSocket), SocketsSet ioGetSocket mid →
      SocketsSet ioGetSocket ([str, this.asyncGets0, this.asyncGets1].foldl jsFreeValueRT
        (IoQuickJS.modifySocket
          (jsEnqueueJob mid .socketContinuation [func, str] none enqOk).1 r fun s =>
            { s with asyncGets0 := .undefined, asyncGets1 := .undefined })) := by
    intro mid func str this h
    have hslots := (h.enqueueJob .socketContinuation [func, str] none enqOk).modifySocket r
      (fun s => { s with asyncGets0 := .undefined, asyncGets1 := .undefined }) fun _ => rfl
    exact hslots.foldl fun rt v h => h.free v
  unfold jsIoSocketReceiveCallback at hres
  split at hres
  · cases hres
  · rename_i this _
    dsimp only at hres
    generalize ite (this.receiveCallback ≠ .undefined) this.receiveCallback this.asyncGets0 = func
      at hres
    split at hres
    · obtain rfl := Option.some.inj hres
      exact h
    · cases strOk <;>
        simp only [Bool.false_eq_true, if_true, if_false, Option.ite_none_right_eq_some,
          Option.some.injEq] at hres
      · obtain ⟨-, rfl⟩ := hres
        exact htail _ _ _ _ h.throwOutOfMemory
      · obtain ⟨-, rfl⟩ := hres
        exact htail _ _ _ _ (h.newString bytes)

theorem SocketsSet.receiveChunks {chunks : List (List UInt8)} {mem : List (Bool × Bool)} {r : Nat}
    (h : SocketsSet ioGetSocket rt) (hres : receiveChunks r rt chunks mem = some b) :
    SocketsSet ioGetSocket b := by
  induction chunks generalizing rt mem with
  | nil =>
    obtain rfl := Option.some.inj hres
    exact h
  | cons chunk chunks ih =>
    obtain ⟨mid, hmid, hrest⟩ := Option.bind_eq_some_iff.mp hres
    exact ih (h.receiveCallback hmid) hrest

/-! ### The job list and the collector -/

theorem SocketsSet.startJob (h : SocketsSet ioGetSocket rt)
    (hres : jsStartPendingJob rt = some b) : SocketsSet ioGetSocket b := by
  obtain ⟨e, es, -, -, rfl⟩ := jsStartPendingJob_eq_some hres
  exact h.of_same rfl rfl rfl

theorem SocketsSet.finishJob (h : SocketsSet ioGetSocket rt)
    (hres : jsFinishPendingJob rt = some b) : SocketsSet ioGetSocket b := by
  unfold jsFinishPendingJob at hres
  split at hres
  · cases hres
  · obtain rfl := Option.some.inj hres
    exact .foldl (fun rt v h => h.free v) (h.of_same rfl rfl rfl)

theorem SocketsSet.markChildren {markFunc : JSRuntime → Nat → JSRuntime}
    (hmark : ∀ rt p, SocketsSet ioGetSocket rt → SocketsSet ioGetSocket (markFunc rt p))
    (h : SocketsSet ioGetSocket rt) (p : Nat) :
    SocketsSet ioGetSocket (markChildren markFunc rt p) := by
  refine h.foldl fun rt v h => ?_
  cases v with
  | object q => exact hmark rt q h
  | _ => exact h

theorem SocketsSet.gcDecref (h : SocketsSet ioGetSocket rt) :
    SocketsSet ioGetSocket (gcDecref rt) := by
  have hchild : ∀ rt p, SocketsSet ioGetSocket rt →
      SocketsSet ioGetSocket (gcDecrefChild rt p) := by
    intro rt p h
    unfold gcDecrefChild
    dsimp only
    split <;> exact h.of_same rfl rfl rfl
  refine .foldl (fun rt p h => ?_) (h.of_same rfl rfl rfl)
  unfold gcDecrefStep
  dsimp only
  split <;> exact (h.markChildren hchild p).of_same rfl rfl rfl

theorem SocketsSet.gcScan (h : SocketsSet ioGetSocket rt) :
    SocketsSet ioGetSocket (gcScan rt) := by
  have hchild : ∀ rt p, SocketsSet ioGetSocket rt →
      SocketsSet ioGetSocket (gcScanIncrefChild rt p) := by
    intro rt p h
    unfold gcScanIncrefChild
    dsimp only
    split <;> exact h.of_same rfl rfl rfl
  have hloop : ∀ fuel i rt, SocketsSet ioGetSocket rt →
      SocketsSet ioGetSocket (gcScanFrom fuel i rt) := by
    intro fuel
    induction fuel with
    | zero => exact fun _ _ h => h
    | succ fuel ih =>
      intro i rt h
      simp only [gcScanFrom]
      split
      · exact h
      · rename_i p _
        have hmark : SocketsSet ioGetSocket { rt with mark := update rt.mark p false } :=
          h.of_same rfl rfl rfl
        exact ih _ _ (hmark.markChildren hchild p)
  refine .foldl (fun rt p h => h.markChildren (fun rt q h => ?_) p) (hloop _ _ _ h)
  exact h.of_same rfl rfl rfl

/-- A collection finds the opaque pointer of every socket object it marks or frees. -/
theorem SocketsSet.runGC (h : SocketsSet ioGetSocket rt) : SocketsSet ioGetSocket (jsRunGC rt) := by
  have hcycles := h.gcDecref.gcScan.foldl (f := IoQuickJS.freeObject .removeCycles)
    (l := (IoQuickJS.gcScan (IoQuickJS.gcDecref rt)).tmpObjList)
    fun rt p h => h.freeObject .removeCycles p
  have hzero : ∀ rt : JSRuntime, SocketsSet ioGetSocket rt →
      SocketsSet ioGetSocket (rt.gcZeroRefCountList.foldl jsFreeRtObject rt) :=
    fun _ h => h.foldl fun _ p h => h.freeRtObject p
  exact (hzero _ hcycles).of_same rfl rfl rfl

theorem SocketsSet.markPanics (h : SocketsSet ioGetSocket rt) : markPanics rt = false := by
  refine Bool.eq_false_iff.mpr fun hany => ?_
  obtain ⟨p, -, hp⟩ := List.any_eq_true.mp hany
  cases ho : rt.objects p with
  | none => simp [ho] at hp
  | some o =>
    have hset : o.classId = .ioSocket ∧ o.uOpaque = none := by simpa [ho] using hp
    exact h.opaqueSet p o ho hset.1 hset.2

end SocketsSet

/-! ## Runs -/

theorem jsNewRuntime_socketsSet {ioGetSocket : Nat → Bool} :
    SocketsSet ioGetSocket jsNewRuntime where
  opaqueSet := fun p o ho hcls => by
    simp only [jsNewRuntime, update_apply] at ho
    split at ho
    · obtain rfl := Option.some.inj ho
      cases hcls
    · cases ho
  handle := fun r s hs => by cases hs
  panicked := rfl

section Runs

variable [IoEncoding] {ioGetSocket : Nat → Bool} {rt rt' : JSRuntime}

theorem SocketsSet.machine (h : SocketsSet ioGetSocket rt) {l : Label}
    (hl : OnSocket ioGetSocket rt (.machine l))
    (hstep : callStep ioGetSocket rt (.machine l) = some rt') : SocketsSet ioGetSocket rt' := by
  cases l <;>
    simp only [callStep, IoQuickJS.step, Option.ite_none_right_eq_some, Option.some.injEq]
      at hstep
  case newObject classId =>
    obtain ⟨hcls, rfl⟩ := hstep
    exact (h.newObject (by rcases hcls with rfl | rfl <;> simp)).push
  case newString => subst hstep; exact (h.newString _).push
  case dup v => obtain ⟨-, rfl⟩ := hstep; exact (h.dup v).push
  case drop v =>
    obtain ⟨-, rfl⟩ := hstep
    have hstack : SocketsSet ioGetSocket { rt with stack := rt.stack.erase v } :=
      h.of_same rfl rfl rfl
    exact hstack.free v
  case setProperty v => obtain ⟨-, rfl⟩ := hstep; exact (h.dup v).modifyProp _ _
  case getProperty v => obtain ⟨-, rfl⟩ := hstep; exact (h.dup v).push
  case deleteProperty v => obtain ⟨-, rfl⟩ := hstep; exact (h.modifyProp _ _).free v
  case loadArgument v => obtain ⟨-, rfl⟩ := hstep; exact (h.dup v).push
  case enqueueJob => obtain ⟨-, rfl⟩ := hstep; exact h.enqueueJob _ _ _ _
  case setTimeout => obtain ⟨-, rfl⟩ := hstep; exact (h.setTimeout _ _ _ _).push
  case clearTimeout => obtain ⟨-, rfl⟩ := hstep; exact (h.clearTimeout _).push
  case after =>
    obtain ⟨res, hres, rfl⟩ := Option.map_eq_some_iff.mp hstep
    exact (h.after hres).push
  case newSocket handle objOk =>
    split at hstep
    · obtain rfl := Option.some.inj hstep
      exact (h.constructor ‹_› objOk).push
    · obtain rfl := Option.some.inj hstep
      exact h
  case getReceive => obtain ⟨-, rfl⟩ := hstep; exact (h.getReceive (hl _ _ rfl)).push
  case setReceive => obtain ⟨-, rfl⟩ := hstep; exact (h.setReceive (hl _ _ rfl) _).push
  case gets => obtain ⟨-, rfl⟩ := hstep; exact (h.gets (hl _ _ rfl) _).push
  case receive =>
    unfold jsIoSocketReadBytes at hstep
    obtain ⟨-, hrec⟩ := Option.ite_none_right_eq_some.mp hstep
    exact h.receiveChunks hrec
  case expire r =>
    unfold expireAlarm at hstep
    split at hstep
    · split at hstep
      · obtain rfl := Option.some.inj hstep
        have hdequeued := h.modifyTimer r fun tmr => { tmr with alarm := false }
        exact hdequeued.of_same rfl rfl rfl
      · cases hstep
    · cases hstep
  case deliver => exact h.deliver hstep
  case startJob => exact h.startJob hstep
  case endJob => exact h.finishJob hstep
  case runGC =>
    subst hstep
    exact h.runGC.of_same rfl rfl (by simp [h.markPanics])

theorem SocketsSet.step (h : SocketsSet ioGetSocket rt) {l : CallLabel}
    (hl : OnSocket ioGetSocket rt l) (hstep : callStep ioGetSocket rt l = some rt') :
    SocketsSet ioGetSocket rt' := by
  cases l with
  | machine l => exact h.machine hl hstep
  | close this =>
    obtain ⟨-, hres⟩ := Option.ite_none_right_eq_some.mp hstep
    obtain rfl := Option.some.inj hres
    exact (h.close (hl _ _ rfl)).push
  | openSocket this opened =>
    obtain ⟨-, hres⟩ := Option.ite_none_right_eq_some.mp hstep
    obtain rfl := Option.some.inj hres
    exact (h.openSocket (hl _ _ rfl) opened).push
  | print | put =>
    obtain ⟨-, hres⟩ := Option.ite_none_right_eq_some.mp hstep
    obtain rfl := Option.some.inj hres
    exact (h.sendText ..).push

/-- A call with another this value returns what is no exception. -/
theorem onSocket_of_respected {l : CallLabel} (h : Respected ioGetSocket rt l) :
    OnSocket ioGetSocket rt l := by
  intro this res hcall
  refine by_contra fun hnot => ?_
  have hget := getOpaque2_not_socket hnot "js_io_socket"
  have hres := (h.2 this res hcall hnot).1
  cases l with
  | machine l =>
    cases l with
    | getReceive => cases hcall; simp [jsIoSocketGetReceive, hget] at hres
    | setReceive => cases hcall; simp [jsIoSocketSetReceive, hget] at hres
    | gets => cases hcall; simp [jsIoSocketGets, hget] at hres
    | _ => cases hcall
  | close => cases hcall; simp [jsIoSocketClose, hget] at hres
  | openSocket => cases hcall; simp [jsIoSocketOpen, hget] at hres
  | print => cases hcall; simp [jsIoSocketPrint, sendText, hget] at hres
  | put => cases hcall; simp [jsIoSocketPut, sendText, hget] at hres

theorem SocketsSet.respected (h : SocketsSet ioGetSocket rt) {l : CallLabel}
    (hl : OnSocket ioGetSocket rt l) : Respected ioGetSocket rt l :=
  ⟨fun _ hstep => (h.step hl hstep).panicked, fun this res hcall hnot =>
    absurd (hl this res hcall) hnot⟩

/-- Nothing panics and every TypeError is returned in the runs that call functions of socket
objects on socket objects, and in no others. -/
theorem callStep_respected_iff (ioGetSocket : Nat → Bool) (ls : List CallLabel) :
    Transition.Meets (callStep ioGetSocket) (Respected ioGetSocket) jsNewRuntime ls ↔
      Transition.Meets (callStep ioGetSocket) (OnSocket ioGetSocket) jsNewRuntime ls := by
  constructor
  · exact Transition.Meets.mono fun _ _ => onSocket_of_respected
  · exact fun hmeets => hmeets.of_invariant jsNewRuntime_socketsSet
      (fun _ _ _ h hl hstep => h.step hl hstep) fun _ _ h hl => h.respected hl

end Runs

/-- `const close = uart.close; close()` on a board whose only socket is `uart`: io_panic. -/
theorem close_panics : ¬ ∀ ls, Transition.Meets (callStep (· == 0)) (Respected (· == 0))
    jsNewRuntime ls := by
  intro h
  have hclose := ((h [.machine (.newSocket 0 true), .close .undefined]).2 _ rfl).1
  have hpanicked := hclose.1 _ rfl
  exact absurd hpanicked (by decide)

end IoQuickJS
