import IoQuickJS.Steps

/-!
# The events that io_core has of a socket

js_io_socket_open gives io_core two events of the socket record, which stay bound to the socket of
the device until it is closed or bound again. The records are those of the runtime; their context
and their events are the `fields` of this module.

## Main results

* `boundEvents_live_iff`: all bound events are live in all states of a run exactly when no open
  of the run succeeds, since transmit_available never gets a handler.
* `received_live`: the other event is live as long as the object of the socket is there and
  refers to its context.
-/
namespace IoQuickJS

open Function (update update_self update_of_ne)

namespace SocketBinding

/-- The function an event of a socket is initialised with. -/
inductive SocketEventHandler where
  | jsIoSocketReadBytes
  deriving DecidableEq, Repr

/-- An `io_event_t`. -/
structure IoEvent where
  handler : Option SocketEventHandler
  userValue : Option Nat
  deriving DecidableEq, Repr

/-- An event as js_mallocz leaves it. -/
def IoEvent.zero : IoEvent := ⟨none, none⟩

/-- `initialise_io_event` -/
def initialiseIoEvent (handler : SocketEventHandler) (userValue : Nat) : IoEvent :=
  ⟨some handler, some userValue⟩

/-- The fields of an `io_js_io_socket_t` that io_core and the event handler use. -/
structure SocketFields where
  ctx : Nat
  receivedDataAvailable : IoEvent
  transmitAvailable : IoEvent
  deriving DecidableEq, Repr

/-- `fields` are by the address of the record, and stay what they were when it has been freed.
`bound` is the record whose two events io_socket_bind_inner got for the socket with a handle. A
context is an object of the runtime. -/
structure BindingState where
  rt : JSRuntime
  fields : Nat → Option SocketFields
  bound : Nat → Option Nat

def bindingInit : BindingState := ⟨jsNewRuntime, fun _ => none, fun _ => none⟩

/-- `js_io_socket_constructor` in the context `ctx`. The prototype of the object holds functions
with that context as their realm: one reference stands for this chain. Script code that gives the
object another prototype takes it away, which is a `deleteProperty`. -/
def constructSocket (s : BindingState) (ctx handle : Nat) (objOk : Bool) : BindingState :=
  -- the record comes after its object
  let obj := s.rt.next
  let r := (jsNewObjectClass s.rt .ioSocket).1.next
  let rt := JSRuntime.push (jsIoSocketConstructor s.rt handle objOk)
  if objOk then
    { s with
      rt := (jsDupValue rt (.object ctx)).modifyProp obj fun vs => vs ++ [.object ctx]
      fields := update s.fields r (some ⟨ctx, initialiseIoEvent .jsIoSocketReadBytes r, .zero⟩) }
  else { s with rt := rt }

/-- `js_io_socket_open`; `ioSocketOpen` is the result of io_socket_open. `none` is a record that
has been freed. -/
def jsIoSocketOpen (ioGetSocket : Nat → Bool) (s : BindingState) (thisValue : JSValue)
    (ioSocketOpen : Bool) : Option (BindingState × JSValue) :=
  match jsGetOpaque2 s.rt thisValue .ioSocket "js_io_socket" with
  | (rt, some r) =>
    match rt.sockets r, s.fields r with
    | some jsIoSocket, some _ =>
      if ioGetSocket jsIoSocket.handle then
        if ioSocketOpen then
          some ({ s with rt := rt, bound := update s.bound jsIoSocket.handle (some r) }, .bool true)
        else some ({ s with rt := rt }, .bool false)
      else some ({ s with rt := ioPanic rt }, .bool false)
    | _, _ => none
  | (rt, none) => some ({ s with rt := ioPanic rt }, .bool false)

/-- `js_io_socket_close` -/
def jsIoSocketClose (ioGetSocket : Nat → Bool) (s : BindingState) (thisValue : JSValue) :
    Option (BindingState × JSValue) :=
  match jsGetOpaque2 s.rt thisValue .ioSocket "js_io_socket" with
  | (rt, some r) =>
    (rt.sockets r).map fun jsIoSocket =>
      if ioGetSocket jsIoSocket.handle then
        ({ s with rt := rt, bound := update s.bound jsIoSocket.handle none }, .undefined)
      else ({ s with rt := rt }, .undefined)
  | (rt, none) => some ({ s with rt := ioPanic rt }, .undefined)

/-- `script` is any step but the constructor: dropping references, collections and freeing a
context are among them. -/
inductive BindingLabel where
  | script (l : Label)
  | construct (ctx handle : Nat) (objOk : Bool)
  | openSocket (this : JSValue) (ioSocketOpen : Bool)
  | closeSocket (this : JSValue)

/-- `ioGetSocket` says which handles are those of sockets of the device. -/
def bindingStep (ioGetSocket : Nat → Bool) (s : BindingState) : BindingLabel → Option BindingState
  | .script (.newSocket _ _) => none
  | .script l => (step s.rt l).map fun rt => { s with rt := rt }
  | .construct ctx handle objOk =>
    if .object ctx ∈ s.rt.stack then
      some (if ioGetSocket handle then constructSocket s ctx handle objOk else s)
    else none
  | .openSocket this ioSocketOpen =>
    if s.rt.holds this then (jsIoSocketOpen ioGetSocket s this ioSocketOpen).map Prod.fst else none
  | .closeSocket this =>
    if s.rt.holds this then (jsIoSocketClose ioGetSocket s this).map Prod.fst else none

/-! ## Live events -/

/-- The event of the record `r` is in memory that has not been freed, has a handler, and leads to
a record and from there to a context that have not been freed. -/
def EventLive (s : BindingState) (r : Nat) (ev : IoEvent) : Prop :=
  (s.rt.sockets r).isSome ∧ ev.handler.isSome ∧
    ∃ this f, ev.userValue = some this ∧ (s.rt.sockets this).isSome ∧ s.fields this = some f ∧
      (s.rt.objects f.ctx).isSome

/-- Both events of every bound record are live. -/
def BoundLive (s : BindingState) : Prop := ∀ handle r, s.bound handle = some r →
  ∃ f, s.fields r = some f ∧ EventLive s r f.transmitAvailable ∧
    EventLive s r f.receivedDataAvailable

/-- The step is an open that succeeds. -/
def Opens (ioGetSocket : Nat → Bool) (s : BindingState) : BindingLabel → Bool
  | .openSocket this ioSocketOpen => ioSocketOpen &&
    ((s.rt.getOpaque this .ioSocket).bind s.rt.sockets).any fun jsIoSocket =>
      ioGetSocket jsIoSocket.handle
  | _ => false

/-- What the constructor leaves in every record, and what is bound. -/
structure Wired (s : BindingState) : Prop where
  fields : ∀ r f, s.fields r = some f →
    f.receivedDataAvailable = initialiseIoEvent .jsIoSocketReadBytes r ∧
      f.transmitAvailable = .zero
  bound : ∀ handle r, s.bound handle = some r → (s.fields r).isSome

section Steps

variable {ioGetSocket : Nat → Bool} {s t : BindingState}

/-- A successful open binds the record of its receiver, any other binds nothing. -/
theorem jsIoSocketOpen_spec {this : JSValue} {ioSocketOpen : Bool} {res : BindingState × JSValue}
    (h : jsIoSocketOpen ioGetSocket s this ioSocketOpen = some res) :
    res.1.fields = s.fields ∧ if Opens ioGetSocket s (.openSocket this ioSocketOpen) then
      ∃ handle r, (s.fields r).isSome ∧ res.1.bound = update s.bound handle (some r)
    else res.1.bound = s.bound := by
  unfold jsIoSocketOpen jsGetOpaque2 at h
  unfold Opens
  cases hr : s.rt.getOpaque this .ioSocket with
  | none =>
    simp only [hr, Option.some.injEq] at h
    subst h
    simp [hr]
  | some r =>
    simp only [hr, Option.bind_some] at h ⊢
    cases hs : s.rt.sockets r with
    | none => simp [hs] at h
    | some jsIoSocket =>
      cases hf : s.fields r with
      | none => simp [hs, hf] at h
      | some f =>
        simp only [hs, hf, Option.any_some] at h ⊢
        by_cases hio : ioGetSocket jsIoSocket.handle = true
        · cases ioSocketOpen with
          | false =>
            obtain rfl : _ = res := by simpa [hio] using h
            simp
          | true =>
            obtain rfl : _ = res := by simpa [hio] using h
            simp only [hio, Bool.and_self, if_true]
            exact ⟨trivial, jsIoSocket.handle, r, by simp [hf], rfl⟩
        · obtain rfl : _ = res := by simpa [hio] using h
          simp [hio]

/-- close at most takes a binding away. -/
theorem jsIoSocketClose_spec {this : JSValue} {res : BindingState × JSValue}
    (h : jsIoSocketClose ioGetSocket s this = some res) :
    res.1.fields = s.fields ∧ ∀ handle r, res.1.bound handle = some r →
      s.bound handle = some r := by
  unfold jsIoSocketClose jsGetOpaque2 at h
  cases hr : s.rt.getOpaque this .ioSocket with
  | none =>
    simp only [hr, Option.some.injEq] at h
    subst h
    exact ⟨rfl, fun _ _ hbound => hbound⟩
  | some r =>
    simp only [hr] at h
    obtain ⟨jsIoSocket, -, rfl⟩ := Option.map_eq_some_iff.mp h
    split
    · refine ⟨rfl, fun handle r' hbound => ?_⟩
      dsimp only at hbound
      grind
    · exact ⟨rfl, fun _ _ hbound => hbound⟩

/-- A step of any other kind leaves the bindings. -/
theorem bindingStep_script {l : Label} (hstep : bindingStep ioGetSocket s (.script l) = some t) :
    t.fields = s.fields ∧ t.bound = s.bound ∧ step s.rt l = some t.rt := by
  unfold bindingStep at hstep
  cases l with
  | newSocket => cases hstep
  | _ =>
    obtain ⟨rt, hrt, rfl⟩ := Option.map_eq_some_iff.mp hstep
    exact ⟨rfl, rfl, hrt⟩

theorem constructSocket_bound (ctx handle : Nat) (objOk : Bool) :
    (constructSocket s ctx handle objOk).bound = s.bound := by
  cases objOk <;> rfl

theorem Wired.constructSocket (h : Wired s) (ctx handle : Nat) (objOk : Bool) :
    Wired (constructSocket s ctx handle objOk) := by
  unfold SocketBinding.constructSocket
  cases objOk with
  | false => exact ⟨h.fields, h.bound⟩
  | true =>
    constructor
    case fields =>
      intro r f hf
      dsimp only at hf
      by_cases hr : r = (jsNewObjectClass s.rt .ioSocket).1.next
      · subst hr
        obtain rfl : _ = f := by simpa using hf
        exact ⟨rfl, rfl⟩
      · exact h.fields r f (by simpa [hr] using hf)
    case bound =>
      intro handle r hbound
      have hsome := h.bound handle r hbound
      dsimp only
      grind

/-- What a step does to the bindings: only an open that succeeds makes one. -/
theorem bindingStep_spec {l : BindingLabel} (h : Wired s)
    (hstep : bindingStep ioGetSocket s l = some t) :
    Wired t ∧ if Opens ioGetSocket s l then ∃ handle r, t.bound handle = some r
      else ∀ handle r, t.bound handle = some r → s.bound handle = some r := by
  cases l with
  | script l =>
    obtain ⟨hfields, hbound, -⟩ := bindingStep_script hstep
    exact ⟨⟨hfields ▸ h.fields, hfields ▸ hbound ▸ h.bound⟩, fun handle r hb => hbound ▸ hb⟩
  | construct ctx handle objOk =>
    obtain ⟨-, ht⟩ := Option.ite_none_right_eq_some.mp hstep
    obtain rfl := Option.some.inj ht
    split
    · refine ⟨h.constructSocket ctx handle objOk, fun _ _ hb => ?_⟩
      rwa [constructSocket_bound] at hb
    · exact ⟨h, fun _ _ hb => hb⟩
  | openSocket this ioSocketOpen =>
    obtain ⟨-, ht⟩ := Option.ite_none_right_eq_some.mp hstep
    obtain ⟨res, hres, rfl⟩ := Option.map_eq_some_iff.mp ht
    obtain ⟨hfields, hbound⟩ := jsIoSocketOpen_spec hres
    split at hbound
    · next hopens =>
      obtain ⟨handle, r, hsome, hbound⟩ := hbound
      refine ⟨⟨hfields ▸ h.fields, fun handle' r' hb => ?_⟩, ?_⟩
      · rw [hbound] at hb
        rw [hfields]
        have hold := h.bound handle' r'
        grind
      · rw [if_pos hopens, hbound]
        exact ⟨handle, r, update_self ..⟩
    · next hopens =>
      refine ⟨⟨hfields ▸ h.fields, hfields ▸ hbound ▸ h.bound⟩, ?_⟩
      rw [if_neg hopens, hbound]
      exact fun _ _ hb => hb
  | closeSocket this =>
    obtain ⟨-, ht⟩ := Option.ite_none_right_eq_some.mp hstep
    obtain ⟨res, hres, rfl⟩ := Option.map_eq_some_iff.mp ht
    obtain ⟨hfields, hbound⟩ := jsIoSocketClose_spec hres
    refine ⟨⟨hfields ▸ h.fields, fun handle r hb => ?_⟩, hbound⟩
    rw [hfields]
    exact h.bound handle r (hbound handle r hb)

/-! ## All events of a run -/

/-- transmit_available never has a handler, so the events are live only while none is bound. -/
theorem Wired.boundLive_iff (h : Wired s) : BoundLive s ↔ ∀ handle, s.bound handle = none := by
  constructor
  · intro hlive handle
    by_contra hne
    obtain ⟨r, hr⟩ := Option.ne_none_iff_exists'.mp hne
    obtain ⟨f, hf, ⟨-, hhandler, -⟩, -⟩ := hlive handle r hr
    rw [(h.fields r f hf).2] at hhandler
    cases hhandler
  · intro hnone handle r hr
    rw [hnone handle] at hr
    cases hr

theorem wired_init : Wired bindingInit :=
  ⟨fun _ _ hf => absurd hf (by simp [bindingInit]), fun _ _ hb => absurd hb (by simp [bindingInit])⟩

/-- In every run, all events that are bound are live in all states exactly when no open of the run
succeeds. -/
theorem boundEvents_live_iff (ls : List BindingLabel)
    (hrun : Transition.run (bindingStep ioGetSocket) bindingInit ls = some s) :
    Transition.Always (bindingStep ioGetSocket) BoundLive bindingInit ls ↔
      Transition.Meets (bindingStep ioGetSocket) (fun u l => Opens ioGetSocket u l = false)
        bindingInit ls := by
  refine Transition.always_iff_meets (J := Wired) (fun u l v hwired hlive hstep => ?_) wired_init
    (wired_init.boundLive_iff.mpr fun _ => rfl) hrun
  obtain ⟨hv, hbound⟩ := bindingStep_spec hwired hstep
  refine ⟨hv, ?_⟩
  rw [hv.boundLive_iff]
  have hnone := hwired.boundLive_iff.mp hlive
  cases hopens : Opens ioGetSocket u l with
  | true =>
    rw [if_pos hopens] at hbound
    obtain ⟨handle, r, hr⟩ := hbound
    refine ⟨fun hall => ?_, fun h => by cases h⟩
    rw [hall handle] at hr
    cases hr
  | false =>
    rw [if_neg (by simp [hopens])] at hbound
    refine ⟨fun _ => rfl, fun _ handle => ?_⟩
    by_contra hne
    obtain ⟨r, hr⟩ := Option.ne_none_iff_exists'.mp hne
    have hold := hbound handle r hr
    rw [hnone handle] at hold
    cases hold

/-! ## The event that has a handler -/

/-- No collection of the step frees the callback of a timer whose alarm is active. -/
def BindingLabel.CollectsSafely (s : BindingState) : BindingLabel → Prop
  | .script l => IoQuickJS.CollectsSafely s.rt l
  | _ => True

theorem sound_setException {rt : JSRuntime} {lost : JSValue → Nat} (h : Sound rt lost)
    (currentException : Option JSError) (panicked : Bool) :
    Sound { rt with currentException := currentException, panicked := panicked } lost :=
  ⟨h.ready.setFields rt.events rt.log currentException panicked, h.after, h.paired⟩

/-- A socket function that works on `this` leaves the runtime as it is, but for an exception and a
panic when `this` is no socket. -/
theorem jsIoSocketOpen_rt {this : JSValue} {ioSocketOpen : Bool} {res : BindingState × JSValue}
    (h : jsIoSocketOpen ioGetSocket s this ioSocketOpen = some res) :
    ∃ e b, res.1.rt = { s.rt with currentException := e, panicked := b } := by
  unfold jsIoSocketOpen jsGetOpaque2 at h
  cases hr : s.rt.getOpaque this .ioSocket with
  | none =>
    simp only [hr, Option.some.injEq] at h
    subst h
    exact ⟨_, true, rfl⟩
  | some r =>
    simp only [hr] at h
    split at h
    · split_ifs at h <;> obtain rfl := Option.some.inj h
      · exact ⟨_, _, rfl⟩
      · exact ⟨_, _, rfl⟩
      · exact ⟨_, true, rfl⟩
    · cases h

theorem jsIoSocketClose_rt {this : JSValue} {res : BindingState × JSValue}
    (h : jsIoSocketClose ioGetSocket s this = some res) :
    ∃ e b, res.1.rt = { s.rt with currentException := e, panicked := b } := by
  unfold jsIoSocketClose jsGetOpaque2 at h
  cases hr : s.rt.getOpaque this .ioSocket with
  | none =>
    simp only [hr, Option.some.injEq] at h
    subst h
    exact ⟨_, true, rfl⟩
  | some r =>
    simp only [hr] at h
    obtain ⟨jsIoSocket, -, rfl⟩ := Option.map_eq_some_iff.mp h
    split <;> exact ⟨_, _, rfl⟩

/-- The constructor is that of the runtime, and then the reference to the context. -/
theorem constructSocket_rt {ctx : Nat} (hctx : .object ctx ∈ s.rt.stack) (handle : Nat)
    (objOk : Bool) : ∃ rt, step s.rt (.newSocket handle objOk) = some rt ∧
      if objOk then
        step rt (.setProperty s.rt.next (.object ctx)) =
          some (constructSocket s ctx handle objOk).rt
      else rt = (constructSocket s ctx handle objOk).rt := by
  refine ⟨_, rfl, ?_⟩
  cases objOk with
  | false => rfl
  | true =>
    have hpush : (JSRuntime.push (jsIoSocketConstructor s.rt handle true)).stack =
        .object s.rt.next :: s.rt.stack := rfl
    have hheld :
        .object s.rt.next ∈ (JSRuntime.push (jsIoSocketConstructor s.rt handle true)).stack ∧
          (JSRuntime.push (jsIoSocketConstructor s.rt handle true)).holds (.object ctx) := by
      simp [hpush, JSRuntime.holds, hctx]
    simp only [if_true, step, if_pos hheld]
    rfl

/-- The accounts of the runtime stay in order. -/
theorem bindingStep_sound {l : BindingLabel} (h : ∃ lost, Sound s.rt lost)
    (hsafe : l.CollectsSafely s) (hstep : bindingStep ioGetSocket s l = some t) :
    ∃ lost, Sound t.rt lost := by
  obtain ⟨lost, hsound⟩ := h
  cases l with
  | script l =>
    obtain ⟨-, -, hrt⟩ := bindingStep_script hstep
    obtain ⟨⟨lost', hsound', -⟩, -⟩ := step_changes hsound hsafe hrt
    exact ⟨lost', hsound'⟩
  | construct ctx handle objOk =>
    obtain ⟨hctx, ht⟩ := Option.ite_none_right_eq_some.mp hstep
    obtain rfl := Option.some.inj ht
    split
    · obtain ⟨rt, hnew, hrest⟩ := constructSocket_rt hctx handle objOk
      obtain ⟨⟨lost', hsound', -⟩, -⟩ := step_changes hsound (fun hl => by cases hl) hnew
      cases objOk with
      | true =>
        obtain ⟨⟨lost'', hsound'', -⟩, -⟩ := step_changes hsound' (fun hl => by cases hl) hrest
        exact ⟨lost'', hsound''⟩
      | false =>
        exact ⟨lost', hrest ▸ hsound'⟩
    · exact ⟨lost, hsound⟩
  | openSocket this ioSocketOpen =>
    obtain ⟨-, ht⟩ := Option.ite_none_right_eq_some.mp hstep
    obtain ⟨res, hres, rfl⟩ := Option.map_eq_some_iff.mp ht
    obtain ⟨e, b, hrt⟩ := jsIoSocketOpen_rt hres
    exact ⟨lost, hrt ▸ sound_setException hsound e b⟩
  | closeSocket this =>
    obtain ⟨-, ht⟩ := Option.ite_none_right_eq_some.mp hstep
    obtain ⟨res, hres, rfl⟩ := Option.map_eq_some_iff.mp ht
    obtain ⟨e, b, hrt⟩ := jsIoSocketClose_rt hres
    exact ⟨lost, hrt ▸ sound_setException hsound e b⟩

/-- In every state of a run, received_data_available of a bound record is live as long as the
object of the socket has not been freed and refers to its context, as the constructor has made
it. -/
theorem received_live (ls : List BindingLabel)
    (hmeets : Transition.Meets (bindingStep ioGetSocket) (fun u l => l.CollectsSafely u)
      bindingInit ls)
    (hrun : Transition.run (bindingStep ioGetSocket) bindingInit ls = some s)
    {handle r : Nat} (hbound : s.bound handle = some r) {p : Nat}
    (hobject : s.rt.getOpaque (.object p) .ioSocket = some r) :
    ∃ f, s.fields r = some f ∧
      (.object f.ctx ∈ s.rt.prop p → EventLive s r f.receivedDataAvailable) := by
  obtain ⟨hwired, lost, hsound⟩ := Transition.run_invariant
    (I := fun u : BindingState => Wired u ∧ ∃ lost, Sound u.rt lost)
    ⟨wired_init, _, jsNewRuntime_sound⟩ hmeets
    (fun u l v hu hsafe hstep =>
      ⟨(bindingStep_spec hu.1 hstep).1, bindingStep_sound hu.2 hsafe hstep⟩) hrun
  obtain ⟨f, hf⟩ := Option.isSome_iff_exists.mp (hwired.bound handle r hbound)
  refine ⟨f, hf, fun hctx => ?_⟩
  obtain ⟨record, hrecord⟩ := hsound.ready.socketOf hobject
  have hsocket : (s.rt.sockets r).isSome := by simp [hrecord]
  rw [(hwired.fields r f hf).1]
  exact ⟨hsocket, rfl, r, f, rfl, hsocket, hf, hsound.ready.live_of_prop hctx⟩

/-- A socket object refers to the context it was made in. -/
theorem constructSocket_prop (ctx handle : Nat) :
    (constructSocket s ctx handle true).rt.prop s.rt.next = [.object ctx] := by
  simp [constructSocket, jsIoSocketConstructor, jsNewObjectClass, jsSetOpaque, JSRuntime.push,
    JSValue.hasRefCount, JSRuntime.modifyProp, JSRuntime.prop, jsDupValue]

end Steps

/-! ## Two runs -/

/-- An open that fails, a close, and the end of the socket and of its context. -/
def notOpened : List BindingLabel :=
  [.construct 0 7 true, .openSocket (.object 1) false, .closeSocket (.object 1),
    .script (.drop (.object 1)), .script (.drop (.object 0))]

theorem boundEvents_live_notOpened :
    (Transition.run (bindingStep fun _ => true) bindingInit notOpened).isSome ∧
      Transition.Always (bindingStep fun _ => true) BoundLive bindingInit notOpened := by
  have hsome : (Transition.run (bindingStep fun _ => true) bindingInit notOpened).isSome := by
    decide
  obtain ⟨s, hs⟩ := Option.isSome_iff_exists.mp hsome
  exact ⟨hsome, (boundEvents_live_iff notOpened hs).mpr (by decide)⟩

/-- A socket is opened. -/
def opened : List BindingLabel := [.construct 0 7 true, .openSocket (.object 1) true]

/-- What open has bound has no handler for transmit_available. If the socket is dropped then, the
bound events are in memory that has been freed. -/
theorem boundEvents_not_live :
    (∃ s f, Transition.run (bindingStep fun _ => true) bindingInit opened = some s ∧
      s.bound 7 = some 2 ∧ s.fields 2 = some f ∧ f.transmitAvailable.handler = none) ∧
    (∃ s, Transition.run (bindingStep fun _ => true) bindingInit
        (opened ++ [.script (.drop (.object 1))]) = some s ∧
      s.bound 7 = some 2 ∧ s.rt.sockets 2 = none) ∧
    ¬ ∀ ls s, Transition.run (bindingStep fun _ => true) bindingInit ls = some s →
      Transition.Always (bindingStep fun _ => true) BoundLive bindingInit ls := by
  refine ⟨⟨_, _, rfl, rfl, rfl, rfl⟩, ⟨_, rfl, rfl, rfl⟩, fun hall => ?_⟩
  have hlive := (hall opened _ rfl).2 _ rfl
  obtain ⟨f, hf, ⟨-, hhandler, -⟩, -⟩ := hlive.2 _ rfl 7 2 rfl
  obtain rfl : _ = f := Option.some.inj hf
  cases hhandler

/-- While the socket is there, its context is not freed with the last reference of the program. -/
example : ((Transition.run (bindingStep fun _ => true) bindingInit
    (opened ++ [.script (.drop (.object 0)), .script .runGC])).bind
      fun s => s.rt.objects 0).isSome := by decide

end SocketBinding

end IoQuickJS
