import IoQuickJS.Library.Transition
import Mathlib.Logic.Function.Basic

/-!
# Where the wrapper classes are registered

The class ids of timers and sockets are process-wide statics, a class is registered in a runtime,
and its prototype belongs to a context. A `Process` has the statics and all runtimes and contexts;
`calls` is what each call of JS_NewObjectClass for a wrapper has found.

## Main result

* `registered_iff`: what the wrappers need is there in every call of a run exactly when the run
  registers a class before it is used: for sockets in the very context, for timers in the runtime.
-/
namespace IoQuickJS

open Function (update update_self update_of_ne update_apply)

namespace ClassRegistry

/-- `JS_CLASS_INIT_COUNT` with CONFIG_BIGNUM. -/
def jsClassInitCount : Nat := 58

/-- A class definition stands for its finalizer and its mark function. -/
inductive JSClassDef where
  | predefined
  | ioJsTimer
  | jsIoSocket
  deriving DecidableEq, Repr

/-- An entry of class_proto: JS_NULL, or an object with functions. The objects that
JS_AddIntrinsicBasicObjects enters for the predefined classes are left out. -/
inductive Prototype where
  | null
  | object (functions : List String)
  deriving DecidableEq, Repr

/-- `js_io_socket_functions` -/
def jsIoSocketFunctions : List String :=
  ["close", "gets", "print", "put", "send", "open", "on_receive"]

structure JSRuntime where
  classCount : Nat
  classArray : Nat → Option JSClassDef

/-- `protoCount` is the size class_proto has been allocated with, `std` whether io_js_std_initialise
has exported setTimeout for this context. -/
structure JSContext where
  rt : Nat
  protoCount : Nat
  classProto : Nat → Prototype
  std : Bool

/-- A call of JS_NewObjectClass by the code of a wrapper, and what it finds. -/
structure NewObjectCall where
  ctx : Nat
  wrapper : JSClassDef
  classId : Nat
  classCount : Nat
  registered : Option JSClassDef
  proto : Option Prototype
  deriving DecidableEq, Repr

/-- `calls`, `timerIn` and `socketIn` are not in the source: the calls of JS_NewObjectClass, the
runtimes io_js_std_initialise has registered the timer class in, and the context for which
js_io_add_io_socket_class has registered the socket class. -/
structure Process where
  next : Nat
  jsClassIdAlloc : Nat
  ioJsTimerClassId : Nat
  jsIoSocketClassId : Nat
  runtimes : Nat → Option JSRuntime
  contexts : Nat → Option JSContext
  calls : List NewObjectCall
  timerIn : List Nat
  socketIn : Option Nat

/-- The process before the first runtime. -/
def init : Process where
  next := 0
  jsClassIdAlloc := jsClassInitCount
  ioJsTimerClassId := 0
  jsIoSocketClassId := 0
  runtimes := fun _ => none
  contexts := fun _ => none
  calls := []
  timerIn := []
  socketIn := none

/-- `JS_IsRegisteredClass`, and the definition it is registered with. -/
def JSRuntime.entry (rt : JSRuntime) (classId : Nat) : Option JSClassDef :=
  if classId < rt.classCount then rt.classArray classId else none

/-- `JS_NewClassID`: the next free id and the id. -/
def jsNewClassId (jsClassIdAlloc classId : Nat) : Nat × Nat :=
  if classId = 0 then (jsClassIdAlloc + 1, jsClassIdAlloc) else (jsClassIdAlloc, classId)

/-- The arrays of a runtime and of its contexts get a new size. -/
def grow (s : Process) (r : Nat) (rt : JSRuntime) (newSize : Nat) : Process :=
  { s with
    contexts := fun c => (s.contexts c).map fun ctx =>
      if ctx.rt = r then
        { ctx with
          protoCount := newSize
          classProto := fun i => if i < rt.classCount then ctx.classProto i else .null }
      else ctx
    runtimes := update s.runtimes r (some
      ⟨newSize, fun i => if i < rt.classCount then rt.classArray i else none⟩) }

/-- `JS_NewClass`, whose result neither caller looks at; `ok` is whether it finds memory. -/
def jsNewClass (s : Process) (r classId : Nat) (classDef : JSClassDef) (ok : Bool) : Process :=
  match s.runtimes r with
  | none => s
  | some rt =>
    if (rt.entry classId).isSome || !ok then s
    else
      let s :=
        if rt.classCount ≤ classId then
          grow s r rt (max jsClassInitCount (max (classId + 1) (rt.classCount * 3 / 2)))
        else s
      { s with
        runtimes := update s.runtimes r ((s.runtimes r).map fun rt =>
          { rt with classArray := update rt.classArray classId (some classDef) }) }

/-- `JS_SetClassProto`, which asserts that the id is in range. -/
def jsSetClassProto (s : Process) (c classId : Nat) (obj : Prototype) : Option Process :=
  match s.contexts c with
  | none => none
  | some ctx =>
    match s.runtimes ctx.rt with
    | none => none
    | some rt =>
      if classId < rt.classCount then
        some { s with
          contexts := update s.contexts c
            (some { ctx with classProto := update ctx.classProto classId obj }) }
      else none

/-- `JS_NewObjectClass` for a wrapper object. -/
def jsNewObjectClass (s : Process) (c : Nat) (wrapper : JSClassDef) (classId : Nat) : Process :=
  match s.contexts c with
  | none => s
  | some ctx =>
    let rt := (s.runtimes ctx.rt).getD ⟨0, fun _ => none⟩
    { s with
      calls := s.calls ++ [⟨c, wrapper, classId, rt.classCount, rt.entry classId,
        if classId < ctx.protoCount then some (ctx.classProto classId) else none⟩] }

/-- `js_io_add_io_socket_class` for the context `c` of the runtime `r`. -/
def jsIoAddIoSocketClass (s : Process) (c r : Nat) (ok : Bool) : Option Process :=
  let (jsClassIdAlloc, classId) := jsNewClassId s.jsClassIdAlloc s.jsIoSocketClassId
  let s := { s with jsClassIdAlloc := jsClassIdAlloc, jsIoSocketClassId := classId }
  let s := jsNewClass s r classId .jsIoSocket ok
  let s := { s with socketIn := if ok then some c else s.socketIn }
  jsSetClassProto s c classId (.object jsIoSocketFunctions)

/-- `js_io_socket_constructor` with the handle of a definition. -/
def jsIoSocketConstructor (ioGetSocket : Nat → Nat → Bool) (c : Nat) (ok : Bool) (s : Process)
    (handle : Nat) : Option Process :=
  match s.contexts c with
  | none => none
  | some ctx =>
    if !ioGetSocket ctx.rt handle then some s
    else
      (if s.jsIoSocketClassId = 0 then jsIoAddIoSocketClass s c ctx.rt ok else some s).map
        fun s => jsNewObjectClass s c .jsIoSocket s.jsIoSocketClassId

/-- `io_js_std_initialise` -/
def ioJsStdInitialise (s : Process) (c : Nat) (ok : Bool) : Process :=
  match s.contexts c with
  | none => s
  | some ctx =>
    let (jsClassIdAlloc, classId) := jsNewClassId s.jsClassIdAlloc s.ioJsTimerClassId
    let s := { s with jsClassIdAlloc := jsClassIdAlloc, ioJsTimerClassId := classId }
    let s := jsNewClass s ctx.rt classId .ioJsTimer ok
    { s with
      contexts := update s.contexts c ((s.contexts c).map fun ctx => { ctx with std := true })
      timerIn := if ok then ctx.rt :: s.timerIn else s.timerIn }

/-- `ok` is whether JS_NewClass finds memory, if it is called; `sockets` are the handles of the
socket table. -/
inductive Label where
  | newRuntime
  | newContextRaw (r : Nat)
  | standardModule (c : Nat) (ok : Bool)
  | ioNamespace (c : Nat) (sockets : List Nat) (ok : Bool)
  | setTimeout (c : Nat)
  | freeContext (c : Nat)
  | freeRuntime (r : Nat)

/-- A step of the process, `none` also where an assertion fails. A runtime is freed after its
contexts. `ioGetSocket r handle` is whether the device of the runtime `r` has a socket with this
handle. -/
def step (ioGetSocket : Nat → Nat → Bool) (s : Process) : Label → Option Process
  | .newRuntime =>
    some { s with
      next := s.next + 1
      runtimes := update s.runtimes s.next
        (some ⟨jsClassInitCount, fun i => if i = 0 then none else some .predefined⟩) }
  | .newContextRaw r =>
    (s.runtimes r).map fun rt => { s with
      next := s.next + 1
      contexts := update s.contexts s.next (some ⟨r, rt.classCount, fun _ => .null, false⟩) }
  | .standardModule c ok => if (s.contexts c).isSome then some (ioJsStdInitialise s c ok) else none
  | .ioNamespace c sockets ok =>
    if (s.contexts c).isSome then
      Transition.run (jsIoSocketConstructor ioGetSocket c ok) s sockets
    else none
  | .setTimeout c =>
    if (s.contexts c).any JSContext.std then
      some (jsNewObjectClass s c .ioJsTimer s.ioJsTimerClassId)
    else none
  | .freeContext c =>
    if (s.contexts c).isSome then some { s with contexts := update s.contexts c none } else none
  | .freeRuntime r =>
    if (s.runtimes r).isSome ∧ ∀ c < s.next, (s.contexts c).all fun ctx => ctx.rt ≠ r then
      some { s with runtimes := update s.runtimes r none }
    else none

/-! ## The law -/

/-- The id is registered with the definition of the wrapper, and the prototype of sockets is
there. -/
def NewObjectCall.Registered (k : NewObjectCall) : Prop :=
  k.classId < k.classCount ∧ k.registered = some k.wrapper ∧
    (k.wrapper = .jsIoSocket → k.proto = some (.object jsIoSocketFunctions))

/-- The class of sockets has been registered for the context, or the first socket of the process
is going to be made, and there is memory for the class. -/
def SocketClassFor (s : Process) (c : Nat) (ok : Bool) : Prop :=
  s.jsIoSocketClassId = 0 ∧ ok ∨ s.socketIn = some c

/-- Sockets are made in the context their class is registered for, and timers in a runtime for
which io_js_std_initialise has found memory for their class. -/
def Prepared (ioGetSocket : Nat → Nat → Bool) (s : Process) : Label → Prop
  | .ioNamespace c sockets ok =>
    ∀ ctx ∈ s.contexts c, sockets.any (ioGetSocket ctx.rt) → SocketClassFor s c ok
  | .setTimeout c => ∀ ctx ∈ s.contexts c, ctx.rt ∈ s.timerIn
  | _ => True

instance (k : NewObjectCall) : Decidable k.Registered :=
  inferInstanceAs (Decidable (_ ∧ _ ∧ _))

instance (s : Process) (c : Nat) (ok : Bool) : Decidable (SocketClassFor s c ok) :=
  inferInstanceAs (Decidable (_ ∧ _ ∨ _))

instance (ioGetSocket : Nat → Nat → Bool) (s : Process) :
    ∀ l, Decidable (Prepared ioGetSocket s l)
  | .ioNamespace c sockets ok => inferInstanceAs
      (Decidable (∀ ctx ∈ s.contexts c, sockets.any (ioGetSocket ctx.rt) → SocketClassFor s c ok))
  | .setTimeout c => inferInstanceAs (Decidable (∀ ctx ∈ s.contexts c, ctx.rt ∈ s.timerIn))
  | .newRuntime | .newContextRaw _ | .standardModule _ _ | .freeContext _ | .freeRuntime _ =>
    inferInstanceAs (Decidable True)

/-! ## The invariant -/

/-- The entry of class_proto, JS_NULL outside of the array. -/
def JSContext.proto (ctx : JSContext) (classId : Nat) : Prototype :=
  if classId < ctx.protoCount then ctx.classProto classId else .null

/-- Every context has its runtime, and a class_proto of the right size. -/
def Sized (s : Process) : Prop := ∀ c ctx, s.contexts c = some ctx →
  ∃ rt, s.runtimes ctx.rt = some rt ∧ ctx.protoCount = rt.classCount

structure Inv (s : Process) : Prop where
  alloc : jsClassInitCount ≤ s.jsClassIdAlloc
  timerId : s.ioJsTimerClassId ≠ 0 →
    jsClassInitCount ≤ s.ioJsTimerClassId ∧ s.ioJsTimerClassId < s.jsClassIdAlloc
  socketId : s.jsIoSocketClassId ≠ 0 →
    jsClassInitCount ≤ s.jsIoSocketClassId ∧ s.jsIoSocketClassId < s.jsClassIdAlloc
  apart : s.ioJsTimerClassId ≠ 0 → s.ioJsTimerClassId ≠ s.jsIoSocketClassId
  contexts_lt : ∀ c ctx, s.contexts c = some ctx → c < s.next
  runtimes_lt : ∀ r rt, s.runtimes r = some rt → r < s.next
  sized : Sized s
  std : ∀ c ctx, s.contexts c = some ctx → ctx.std → s.ioJsTimerClassId ≠ 0
  /-- who has registered an id that is not predefined -/
  entries : ∀ r rt i d, s.runtimes r = some rt → jsClassInitCount ≤ i → rt.entry i = some d →
    i = s.ioJsTimerClassId ∧ d = .ioJsTimer ∧ r ∈ s.timerIn ∨
      i = s.jsIoSocketClassId ∧ d = .jsIoSocket ∧ s.socketIn ≠ none
  timer : ∀ r ∈ s.timerIn, s.ioJsTimerClassId ≠ 0 ∧ r < s.next ∧
    ∀ rt, s.runtimes r = some rt → rt.entry s.ioJsTimerClassId = some .ioJsTimer
  socket : ∀ c, s.socketIn = some c → s.jsIoSocketClassId ≠ 0 ∧ c < s.next ∧
    ∀ ctx rt, s.contexts c = some ctx → s.runtimes ctx.rt = some rt →
      rt.entry s.jsIoSocketClassId = some .jsIoSocket ∧
      ctx.proto s.jsIoSocketClassId = .object jsIoSocketFunctions
  /-- whose class_proto has an entry -/
  protos : ∀ c ctx i fs, s.contexts c = some ctx → ctx.proto i = .object fs →
    s.jsIoSocketClassId ≠ 0 ∧ (s.socketIn = some c ∨ s.socketIn = none)

/-- What JS_NewClass leaves of a context. -/
structure SameContext (ctx ctx' : JSContext) : Prop where
  rt : ctx'.rt = ctx.rt
  std : ctx'.std = ctx.std
  proto : ∀ i, ctx'.proto i = ctx.proto i

/-- The contexts and runtimes after JS_NewClass: the id is registered in the runtime when it was
not and there is memory. -/
structure NewClass (s : Process) (r classId : Nat) (classDef : JSClassDef) (ok : Bool)
    (contexts : Nat → Option JSContext) (runtimes : Nat → Option JSRuntime) : Prop where
  sized : Sized { s with contexts := contexts, runtimes := runtimes }
  isSome : ∀ c, (contexts c).isSome = (s.contexts c).isSome
  context : ∀ c ctx', contexts c = some ctx' →
    ∃ ctx, s.contexts c = some ctx ∧ SameContext ctx ctx'
  runtime : ∀ r' rt', runtimes r' = some rt' → ∃ rt, s.runtimes r' = some rt ∧ ∀ i,
    rt'.entry i =
      if r' = r ∧ i = classId ∧ ok ∧ rt.entry classId = none then some classDef else rt.entry i

section Spec

variable {s : Process}

theorem JSRuntime.entry_eq_some {rt : JSRuntime} {i : Nat} {d : JSClassDef}
    (h : rt.entry i = some d) : i < rt.classCount := by
  unfold JSRuntime.entry at h
  grind

/-- The array entries stay what they are when the arrays grow. -/
theorem grow_sized (h : Sized s) {r : Nat} {rt : JSRuntime} (hrt : s.runtimes r = some rt)
    {newSize : Nat} (hsize : rt.classCount ≤ newSize) :
    Sized (grow s r rt newSize) ∧ ∀ c ctx', (grow s r rt newSize).contexts c = some ctx' →
      ∃ ctx, s.contexts c = some ctx ∧ SameContext ctx ctx' := by
  have hcontexts : ∀ c ctx', (grow s r rt newSize).contexts c = some ctx' →
      ∃ ctx, s.contexts c = some ctx ∧ SameContext ctx ctx' ∧
        ctx'.protoCount = if ctx.rt = r then newSize else ctx.protoCount := by
    intro c ctx' hc
    obtain ⟨ctx, hctx, rfl⟩ := Option.map_eq_some_iff.mp hc
    refine ⟨ctx, hctx, ?_⟩
    obtain ⟨rt', hrt', hcount⟩ := h c ctx hctx
    split
    · next hr =>
      obtain rfl : rt = rt' := Option.some.inj (hrt.symm.trans (hr ▸ hrt'))
      refine ⟨⟨rfl, rfl, fun i => ?_⟩, rfl⟩
      simp only [JSContext.proto]
      grind
    · exact ⟨⟨rfl, rfl, fun _ => rfl⟩, rfl⟩
  refine ⟨fun c ctx' hc => ?_, fun c ctx' hc => ?_⟩
  · obtain ⟨ctx, hctx, hsame, hcount⟩ := hcontexts c ctx' hc
    obtain ⟨rt', hrt', hcount'⟩ := h c ctx hctx
    rw [hsame.rt, hcount]
    by_cases hr : ctx.rt = r
    · exact ⟨⟨newSize, fun i => if i < rt.classCount then rt.classArray i else none⟩,
        by simp [grow, hr], by simp [hr]⟩
    · exact ⟨rt', by simp [grow, hr, hrt'], by simp [hr, hcount']⟩
  · obtain ⟨ctx, hctx, hsame, -⟩ := hcontexts c ctx' hc
    exact ⟨ctx, hctx, hsame⟩

/-- The arrays are made large enough for an id, and nothing they hold changes. -/
theorem room (h : Sized s) {r : Nat} {rt : JSRuntime} (hrt : s.runtimes r = some rt)
    (classId : Nat) :
    ∃ contexts rt', (if rt.classCount ≤ classId then
        grow s r rt (max jsClassInitCount (max (classId + 1) (rt.classCount * 3 / 2))) else s) =
        { s with contexts := contexts, runtimes := update s.runtimes r (some rt') } ∧
      Sized { s with contexts := contexts, runtimes := update s.runtimes r (some rt') } ∧
      (∀ c, (contexts c).isSome = (s.contexts c).isSome) ∧
      (∀ c ctx', contexts c = some ctx' → ∃ ctx, s.contexts c = some ctx ∧ SameContext ctx ctx') ∧
      (∀ i, rt'.entry i = rt.entry i) ∧ classId < rt'.classCount := by
  split
  · next hcount =>
    generalize hsize : max jsClassInitCount (max (classId + 1) (rt.classCount * 3 / 2)) = newSize
    have hle : rt.classCount ≤ newSize := by omega
    obtain ⟨hsized, hcontexts⟩ := grow_sized h hrt hle
    refine ⟨_, _, rfl, hsized, fun c => ?_, hcontexts, fun i => ?_, ?_⟩
    · simp
    · simp only [JSRuntime.entry]
      grind
    · dsimp only
      omega
  · next hcount =>
    have hsame : update s.runtimes r (some rt) = s.runtimes := by
      rw [← hrt, Function.update_eq_self]
    exact ⟨s.contexts, rt, by rw [hsame], by simpa [hsame] using h, fun _ => rfl,
      fun c ctx hc => ⟨ctx, hc, rfl, rfl, fun _ => rfl⟩, fun _ => rfl, by omega⟩

theorem jsNewClass_spec (h : Sized s) {r : Nat} {rt : JSRuntime} (hrt : s.runtimes r = some rt)
    (classId : Nat) (classDef : JSClassDef) (ok : Bool) :
    ∃ contexts runtimes, jsNewClass s r classId classDef ok =
        { s with contexts := contexts, runtimes := runtimes } ∧
      NewClass s r classId classDef ok contexts runtimes := by
  unfold jsNewClass
  rw [hrt]
  dsimp only
  by_cases hskip : (rt.entry classId).isSome || !ok
  · refine ⟨s.contexts, s.runtimes, by simp [hskip], h, fun _ => rfl,
      fun c ctx hc => ⟨ctx, hc, rfl, rfl, fun _ => rfl⟩, fun r' rt' hr' => ⟨rt', hr', fun i => ?_⟩⟩
    have hno : ¬ (r' = r ∧ i = classId ∧ ok ∧ rt'.entry classId = none) := by
      rintro ⟨rfl, -, hok, hnone⟩
      obtain rfl : rt = rt' := Option.some.inj (hrt.symm.trans hr')
      simp [hok, hnone] at hskip
    rw [if_neg hno]
  · obtain ⟨hnone, hok⟩ : rt.entry classId = none ∧ ok = true := by simpa using hskip
    obtain ⟨contexts, mid, hmid, hsized, hsome, hcontexts, hentry, hlt⟩ := room h hrt classId
    rw [hmid]
    refine ⟨contexts, update s.runtimes r
        (some { mid with classArray := update mid.classArray classId (some classDef) }),
      by simp [hnone, hok], fun c ctx hc => ?_, hsome, hcontexts, fun r' rt' hr' => ?_⟩
    · obtain ⟨rt', hrt', hcount⟩ := hsized c ctx hc
      by_cases hr : ctx.rt = r
      · obtain rfl : mid = rt' := by simpa [hr] using hrt'
        exact ⟨{ mid with classArray := update mid.classArray classId (some classDef) },
          by simp [hr], hcount⟩
      · exact ⟨rt', by simpa [hr] using hrt', hcount⟩
    · by_cases hr : r' = r
      · subst hr
        obtain rfl : _ = rt' := by simpa using hr'
        refine ⟨rt, hrt, fun i => ?_⟩
        have hnone' : mid.entry classId = none := (hentry classId).trans hnone
        rw [← hentry i]
        unfold JSRuntime.entry at *
        dsimp only
        grind
      · exact ⟨rt', by simpa [hr] using hr', fun i => by simp [hr]⟩

theorem Inv.calls (h : Inv s) (calls : List NewObjectCall) : Inv { s with calls := calls } :=
  ⟨h.alloc, h.timerId, h.socketId, h.apart, h.contexts_lt, h.runtimes_lt, h.sized, h.std,
    h.entries, h.timer, h.socket, h.protos⟩

/-- What a call of JS_NewObjectClass finds. -/
theorem jsNewObjectClass_spec (h : Inv s) {c : Nat} {ctx : JSContext} {rt : JSRuntime}
    (hctx : s.contexts c = some ctx) (hrt : s.runtimes ctx.rt = some rt) (wrapper : JSClassDef)
    (classId : Nat) :
    Inv (jsNewObjectClass s c wrapper classId) ∧
      ∃ k, jsNewObjectClass s c wrapper classId = { s with calls := s.calls ++ [k] } ∧
        (k.Registered ↔ rt.entry classId = some wrapper ∧
          (wrapper = .jsIoSocket → ctx.proto classId = .object jsIoSocketFunctions)) := by
  obtain ⟨rt', hrt', hcount⟩ := h.sized c ctx hctx
  obtain rfl : rt = rt' := Option.some.inj (hrt.symm.trans hrt')
  simp only [jsNewObjectClass, hctx, hrt, Option.getD_some]
  refine ⟨h.calls _, _, rfl, ?_⟩
  simp only [NewObjectCall.Registered, JSContext.proto]
  constructor
  · rintro ⟨hlt, hentry, hproto⟩
    exact ⟨hentry, fun hw => by grind⟩
  · rintro ⟨hentry, hproto⟩
    have hlt := JSRuntime.entry_eq_some hentry
    exact ⟨hlt, hentry, fun hw => by grind⟩

/-- The registration of the class of timers, under a new id or the one that is there. -/
theorem Inv.registerTimer (h : Inv s) {alloc classId r : Nat} {ok : Bool}
    {contexts : Nat → Option JSContext} {runtimes : Nat → Option JSRuntime} (hr : r < s.next)
    (hid : jsNewClassId s.jsClassIdAlloc s.ioJsTimerClassId = (alloc, classId))
    (hnew : NewClass s r classId .ioJsTimer ok contexts runtimes) :
    Inv { s with
      jsClassIdAlloc := alloc
      ioJsTimerClassId := classId
      contexts := contexts
      runtimes := runtimes
      timerIn := if ok then r :: s.timerIn else s.timerIn } := by
  have hids : classId ≠ 0 ∧ jsClassInitCount ≤ classId ∧ classId < alloc ∧
      s.jsClassIdAlloc ≤ alloc ∧ classId ≠ s.jsIoSocketClassId ∧
      (s.ioJsTimerClassId ≠ 0 → classId = s.ioJsTimerClassId) := by
    have h1 := h.alloc
    have h2 := h.timerId
    have h3 := h.socketId
    have h4 := h.apart
    unfold jsNewClassId at hid
    unfold jsClassInitCount at *
    grind
  obtain ⟨hne, hmin, hlt, halloc, hapart, hsame⟩ := hids
  constructor
  case alloc => exact Nat.le_trans h.alloc halloc
  case timerId => exact fun _ => ⟨hmin, hlt⟩
  case socketId => exact fun hs => ⟨(h.socketId hs).1, Nat.lt_of_lt_of_le (h.socketId hs).2 halloc⟩
  case apart => exact fun _ => hapart
  case contexts_lt =>
    intro c ctx' hc
    obtain ⟨ctx, hctx, -⟩ := hnew.context c ctx' hc
    exact h.contexts_lt c ctx hctx
  case runtimes_lt =>
    intro r' rt' hr'
    obtain ⟨rt, hrt, -⟩ := hnew.runtime r' rt' hr'
    exact h.runtimes_lt r' rt hrt
  case sized => exact hnew.sized
  case std => exact fun _ _ _ _ => hne
  case entries =>
    intro r' rt' i d hr' hi hentry
    obtain ⟨rt, hrt, hnewEntry⟩ := hnew.runtime r' rt' hr'
    rw [hnewEntry] at hentry
    have hold := h.entries r' rt i d hrt hi
    have htimer := h.timer r'
    grind
  case timer =>
    intro r' hr'
    have hold := h.timer r'
    refine ⟨hne, by grind, fun rt' hrt' => ?_⟩
    obtain ⟨rt, hrt, hnewEntry⟩ := hnew.runtime r' rt' hrt'
    rw [hnewEntry]
    have hentries := h.entries r' rt classId
    cases hentry : rt.entry classId with
    | none => grind
    | some d => grind
  case socket =>
    intro c hc
    obtain ⟨hs, hlt, hold⟩ := h.socket c hc
    refine ⟨hs, hlt, fun ctx' rt' hctx' hrt' => ?_⟩
    obtain ⟨ctx, hctx, hctxSame⟩ := hnew.context c ctx' hctx'
    obtain ⟨rt, hrt, hnewEntry⟩ := hnew.runtime _ rt' hrt'
    obtain ⟨hentry, hproto⟩ := hold ctx rt hctx (hctxSame.rt ▸ hrt)
    refine ⟨?_, (hctxSame.proto _).trans hproto⟩
    rw [hnewEntry, if_neg fun hi => hapart hi.2.1.symm, hentry]
  case protos =>
    intro c ctx' i fs hc hproto
    obtain ⟨ctx, hctx, hctxSame⟩ := hnew.context c ctx' hc
    exact h.protos c ctx i fs hctx ((hctxSame.proto i).symm.trans hproto)

/-- setTimeout is exported for a context after the class of timers has its id. -/
theorem Inv.export (h : Inv s) (hid : s.ioJsTimerClassId ≠ 0) (c : Nat) :
    Inv { s with
      contexts := update s.contexts c
        ((s.contexts c).map fun ctx => { ctx with std := true }) } := by
  have hback : ∀ c' ctx', update s.contexts c ((s.contexts c).map fun ctx =>
      { ctx with std := true }) c' = some ctx' →
      ∃ ctx, s.contexts c' = some ctx ∧ ctx'.rt = ctx.rt ∧ ctx'.protoCount = ctx.protoCount ∧
        ∀ i, ctx'.proto i = ctx.proto i := by
    intro c' ctx' hc'
    by_cases hc : c' = c
    · subst hc
      obtain ⟨ctx, hctx, rfl⟩ := Option.map_eq_some_iff.mp (by simpa using hc')
      exact ⟨ctx, hctx, rfl, rfl, fun _ => rfl⟩
    · exact ⟨ctx', by simpa [hc] using hc', rfl, rfl, fun _ => rfl⟩
  refine ⟨h.alloc, h.timerId, h.socketId, h.apart, fun c' ctx' hc' => ?_, h.runtimes_lt,
    fun c' ctx' hc' => ?_, fun _ _ _ _ => hid, h.entries, h.timer, fun c' hc' => ?_,
    fun c' ctx' i fs hc' hproto => ?_⟩
  · obtain ⟨ctx, hctx, -⟩ := hback c' ctx' hc'
    exact h.contexts_lt c' ctx hctx
  · obtain ⟨ctx, hctx, hrt, hcount, -⟩ := hback c' ctx' hc'
    rw [hrt, hcount]
    exact h.sized c' ctx hctx
  · obtain ⟨hs, hlt, hold⟩ := h.socket c' hc'
    refine ⟨hs, hlt, fun ctx' rt hctx' hrt' => ?_⟩
    obtain ⟨ctx, hctx, hrt, -, hproto⟩ := hback c' ctx' hctx'
    rw [hproto]
    exact hold ctx rt hctx (hrt ▸ hrt')
  · obtain ⟨ctx, hctx, -, -, hsame⟩ := hback c' ctx' hc'
    exact h.protos c' ctx i fs hctx ((hsame i).symm.trans hproto)

/-- io_js_std_initialise registers the class of timers, unless it has been registered. -/
theorem ioJsStdInitialise_inv (h : Inv s) (c : Nat) (ok : Bool) :
    Inv (ioJsStdInitialise s c ok) ∧ (ioJsStdInitialise s c ok).calls = s.calls := by
  unfold ioJsStdInitialise
  cases hctx : s.contexts c with
  | none => exact ⟨h, rfl⟩
  | some ctx =>
    obtain ⟨rt, hrt, -⟩ := h.sized c ctx hctx
    generalize hid : jsNewClassId s.jsClassIdAlloc s.ioJsTimerClassId = ids
    obtain ⟨alloc, classId⟩ := ids
    obtain ⟨contexts, runtimes, heq, hnew⟩ := @jsNewClass_spec
      { s with jsClassIdAlloc := alloc, ioJsTimerClassId := classId } h.sized _ _ hrt classId
      .ioJsTimer ok
    have hreg := h.registerTimer (h.runtimes_lt _ rt hrt) hid
      ⟨hnew.sized, hnew.isSome, hnew.context, hnew.runtime⟩
    have hne : classId ≠ 0 := by
      have halloc := h.alloc
      unfold jsNewClassId at hid
      unfold jsClassInitCount at halloc
      grind
    dsimp only at heq ⊢
    rw [heq]
    exact ⟨hreg.export hne c, rfl⟩

/-- Timers are made with their class registered exactly in the runtimes where it has been. -/
theorem newTimer_spec (h : Inv s) {c : Nat} {ctx : JSContext} (hctx : s.contexts c = some ctx)
    (hid : s.ioJsTimerClassId ≠ 0) :
    Inv (jsNewObjectClass s c .ioJsTimer s.ioJsTimerClassId) ∧
      ∃ k, (jsNewObjectClass s c .ioJsTimer s.ioJsTimerClassId).calls = s.calls ++ [k] ∧
        (k.Registered ↔ ctx.rt ∈ s.timerIn) := by
  obtain ⟨rt, hrt, -⟩ := h.sized c ctx hctx
  obtain ⟨hinv, k, heq, hk⟩ := jsNewObjectClass_spec h hctx hrt .ioJsTimer s.ioJsTimerClassId
  refine ⟨hinv, k, by rw [heq], hk.trans ⟨?_, fun hin => ?_⟩⟩
  · rintro ⟨hentry, -⟩
    have hmin := (h.timerId hid).1
    obtain ⟨-, -, hin⟩ | ⟨-, hd, -⟩ := h.entries _ rt _ _ hrt hmin hentry
    · exact hin
    · cases hd
  · exact ⟨(h.timer _ hin).2.2 rt hrt, fun hw => by cases hw⟩

/-- Sockets are made with their class and its prototype exactly in the context it has been
registered for. -/
theorem newSocket_spec (h : Inv s) {c : Nat} {ctx : JSContext} (hctx : s.contexts c = some ctx)
    (hid : s.jsIoSocketClassId ≠ 0) :
    Inv (jsNewObjectClass s c .jsIoSocket s.jsIoSocketClassId) ∧
      ∃ k, jsNewObjectClass s c .jsIoSocket s.jsIoSocketClassId =
          { s with calls := s.calls ++ [k] } ∧
        (k.Registered ↔ s.socketIn = some c) := by
  obtain ⟨rt, hrt, -⟩ := h.sized c ctx hctx
  obtain ⟨hinv, k, heq, hk⟩ := jsNewObjectClass_spec h hctx hrt .jsIoSocket s.jsIoSocketClassId
  refine ⟨hinv, k, heq, hk.trans ⟨?_, fun hin => ?_⟩⟩
  · rintro ⟨hentry, hproto⟩
    have hmin := (h.socketId hid).1
    obtain ⟨-, hd, -⟩ | ⟨-, -, hsome⟩ := h.entries _ rt _ _ hrt hmin hentry
    · cases hd
    · exact (h.protos c ctx _ _ hctx (hproto rfl)).2.resolve_right hsome
  · obtain ⟨-, -, hold⟩ := h.socket c hin
    obtain ⟨hentry, hproto⟩ := hold ctx rt hctx hrt
    exact ⟨hentry, fun _ => hproto⟩

/-- JS_SetClassProto has not failed its assertion. -/
theorem jsSetClassProto_eq_some {t : Process} {c classId : Nat} {obj : Prototype}
    (h : jsSetClassProto s c classId obj = some t) :
    ∃ ctx rt, s.contexts c = some ctx ∧ s.runtimes ctx.rt = some rt ∧ classId < rt.classCount ∧
      t = { s with
        contexts := update s.contexts c
          (some { ctx with classProto := update ctx.classProto classId obj }) } := by
  unfold jsSetClassProto at h
  cases hctx : s.contexts c with
  | none => simp [hctx] at h
  | some ctx =>
    cases hrt : s.runtimes ctx.rt with
    | none => simp [hctx, hrt] at h
    | some rt =>
      simp only [hctx, hrt, Option.ite_none_right_eq_some] at h
      exact ⟨ctx, rt, rfl, hrt, h.1, (Option.some.inj h.2).symm⟩

/-- The first registration of the class of sockets, and the prototype of its context. -/
theorem Inv.registerSocket (h : Inv s) (hid0 : s.jsIoSocketClassId = 0) {c r : Nat} {ok : Bool}
    {contexts : Nat → Option JSContext} {runtimes : Nat → Option JSRuntime}
    (hnew : NewClass s r s.jsClassIdAlloc .jsIoSocket ok contexts runtimes) {ctx : JSContext}
    {rt : JSRuntime} (hctx : contexts c = some ctx) (hrt : runtimes ctx.rt = some rt)
    (hr : ctx.rt = r) (hlt : s.jsClassIdAlloc < rt.classCount) :
    Inv { s with
      jsClassIdAlloc := s.jsClassIdAlloc + 1
      jsIoSocketClassId := s.jsClassIdAlloc
      runtimes := runtimes
      socketIn := if ok then some c else none
      contexts := update contexts c (some { ctx with
        classProto :=
          update ctx.classProto s.jsClassIdAlloc (.object jsIoSocketFunctions) }) } := by
  have halloc := h.alloc
  have hne : s.jsClassIdAlloc ≠ 0 := by
    unfold jsClassInitCount at halloc
    omega
  have htimerId := h.timerId
  -- nothing has been registered under the new id
  have hfresh : ∀ r' rt', s.runtimes r' = some rt' → rt'.entry s.jsClassIdAlloc = none := by
    intro r' rt' hr'
    by_contra hentry
    obtain ⟨d, hd⟩ := Option.ne_none_iff_exists'.mp hentry
    have hold := h.entries r' rt' _ d hr' halloc hd
    grind
  have hnoProto : ∀ c ctx i fs, s.contexts c = some ctx → ctx.proto i ≠ .object fs :=
    fun c ctx i fs hc hproto => (h.protos c ctx i fs hc hproto).1 hid0
  have hback : ∀ c' ctx', update contexts c (some { ctx with
      classProto := update ctx.classProto s.jsClassIdAlloc (.object jsIoSocketFunctions) }) c' =
        some ctx' → ∃ ctx₀ ctx₁, s.contexts c' = some ctx₀ ∧ contexts c' = some ctx₁ ∧
          SameContext ctx₀ ctx₁ ∧ ctx'.rt = ctx₁.rt ∧ ctx'.std = ctx₁.std ∧
          ctx'.protoCount = ctx₁.protoCount ∧
          (c' ≠ c → ctx' = ctx₁) := by
    intro c' ctx' hc'
    by_cases hc : c' = c
    · subst hc
      obtain rfl : _ = ctx' := by simpa using hc'
      obtain ⟨ctx₀, hctx₀, hsame⟩ := hnew.context c' ctx hctx
      exact ⟨ctx₀, ctx, hctx₀, hctx, hsame, rfl, rfl, rfl, fun h => absurd rfl h⟩
    · have hctx' : contexts c' = some ctx' := by simpa [hc] using hc'
      obtain ⟨ctx₀, hctx₀, hsame⟩ := hnew.context c' ctx' hctx'
      exact ⟨ctx₀, ctx', hctx₀, hctx', hsame, rfl, rfl, rfl, fun _ => rfl⟩
  constructor
  case alloc => exact Nat.le_succ_of_le halloc
  case timerId => exact fun ht => ⟨(htimerId ht).1, Nat.lt_succ_of_lt (htimerId ht).2⟩
  case socketId => exact fun _ => ⟨halloc, Nat.lt_succ_self _⟩
  case apart => exact fun ht => Nat.ne_of_lt (htimerId ht).2
  case contexts_lt =>
    intro c' ctx' hc'
    obtain ⟨ctx₀, -, hctx₀, -⟩ := hback c' ctx' hc'
    exact h.contexts_lt c' ctx₀ hctx₀
  case runtimes_lt =>
    intro r' rt' hr'
    obtain ⟨rt₀, hrt₀, -⟩ := hnew.runtime r' rt' hr'
    exact h.runtimes_lt r' rt₀ hrt₀
  case sized =>
    intro c' ctx' hc'
    obtain ⟨-, ctx₁, -, hctx₁, -, hrt', -, hcount, -⟩ := hback c' ctx' hc'
    rw [hrt', hcount]
    exact hnew.sized c' ctx₁ hctx₁
  case std =>
    intro c' ctx' hc' hstd
    obtain ⟨ctx₀, ctx₁, hctx₀, -, hsame, -, hstd', -⟩ := hback c' ctx' hc'
    exact h.std c' ctx₀ hctx₀ (by rw [← hsame.std, ← hstd']; exact hstd)
  case entries =>
    intro r' rt' i d hr' hi hentry
    obtain ⟨rt₀, hrt₀, hnewEntry⟩ := hnew.runtime r' rt' hr'
    rw [hnewEntry] at hentry
    have hold := h.entries r' rt₀ i d hrt₀ hi
    have hi0 : i ≠ s.jsIoSocketClassId := by
      unfold jsClassInitCount at hi
      omega
    grind
  case timer =>
    intro r' hr'
    obtain ⟨ht, hlt', hold⟩ := h.timer r' hr'
    refine ⟨ht, hlt', fun rt' hrt' => ?_⟩
    obtain ⟨rt₀, hrt₀, hnewEntry⟩ := hnew.runtime r' rt' hrt'
    rw [hnewEntry, if_neg fun hi => Nat.ne_of_lt (htimerId ht).2 hi.2.1, hold rt₀ hrt₀]
  case socket =>
    intro c' hc'
    obtain ⟨hok, rfl⟩ : ok = true ∧ c = c' := by
      split at hc'
      · next hok => exact ⟨hok, Option.some.inj hc'⟩
      · cases hc'
    obtain ⟨ctx₀, hctx₀, -⟩ := hnew.context c ctx hctx
    refine ⟨hne, h.contexts_lt c ctx₀ hctx₀, fun ctx' rt' hctx' hrt' => ?_⟩
    obtain rfl : _ = ctx' := by simpa using hctx'
    obtain rfl : rt = rt' := Option.some.inj (hrt.symm.trans hrt')
    obtain ⟨rt₀, hrt₀, hnewEntry⟩ := hnew.runtime _ rt hrt
    obtain ⟨rt₁, hrt₁, hcount⟩ := hnew.sized c ctx hctx
    obtain rfl : rt = rt₁ := Option.some.inj (hrt.symm.trans hrt₁)
    refine ⟨?_, ?_⟩
    · rw [hnewEntry, if_pos ⟨hr, rfl, hok, hfresh _ rt₀ hrt₀⟩]
    · simp [JSContext.proto, hcount, hlt]
  case protos =>
    intro c' ctx' i fs hc' hproto
    refine ⟨hne, ?_⟩
    by_cases hc : c' = c
    · subst hc
      cases ok <;> simp
    · obtain ⟨ctx₀, ctx₁, hctx₀, -, hsame, -, -, -, heq⟩ := hback c' ctx' hc'
      rw [heq hc, hsame.proto] at hproto
      exact absurd hproto (hnoProto c' ctx₀ i fs hctx₀)

/-- js_io_add_io_socket_class, called once, registers the class for its context. -/
theorem jsIoAddIoSocketClass_spec (h : Inv s) (hid0 : s.jsIoSocketClassId = 0) {c : Nat}
    {ctx : JSContext} (hctx : s.contexts c = some ctx) {ok : Bool} {t : Process}
    (hadd : jsIoAddIoSocketClass s c ctx.rt ok = some t) :
    Inv t ∧ t.calls = s.calls ∧ t.jsIoSocketClassId ≠ 0 ∧ (t.socketIn = some c ↔ ok) ∧
      ∃ ctx', t.contexts c = some ctx' ∧ ctx'.rt = ctx.rt := by
  obtain ⟨rt, hrt, -⟩ := h.sized c ctx hctx
  have hnone : s.socketIn = none := by
    by_contra hin
    obtain ⟨c', hc'⟩ := Option.ne_none_iff_exists'.mp hin
    exact (h.socket c' hc').1 hid0
  obtain ⟨contexts, runtimes, heq, hnew⟩ := @jsNewClass_spec
    { s with jsClassIdAlloc := s.jsClassIdAlloc + 1, jsIoSocketClassId := s.jsClassIdAlloc }
    h.sized _ _ hrt s.jsClassIdAlloc .jsIoSocket ok
  have hids : jsNewClassId s.jsClassIdAlloc s.jsIoSocketClassId =
      (s.jsClassIdAlloc + 1, s.jsClassIdAlloc) := if_pos hid0
  simp only [jsIoAddIoSocketClass, hids] at hadd
  rw [heq] at hadd
  obtain ⟨ctx', rt', hctx', hrt', hlt, rfl⟩ := jsSetClassProto_eq_some hadd
  obtain ⟨ctx₀, hctx₀, hsame⟩ := hnew.context c ctx' hctx'
  obtain rfl : ctx = ctx₀ := Option.some.inj (hctx.symm.trans hctx₀)
  have hinv := h.registerSocket hid0 ⟨hnew.sized, hnew.isSome, hnew.context, hnew.runtime⟩
    hctx' hrt' hsame.rt hlt
  have hne : s.jsClassIdAlloc ≠ 0 := by
    have halloc := h.alloc
    unfold jsClassInitCount at halloc
    omega
  dsimp only
  rw [hnone]
  exact ⟨hinv, rfl, hne, by cases ok <;> simp, _, update_self .., hsame.rt⟩

section Sockets

variable {ioGetSocket : Nat → Nat → Bool} {c r : Nat} {ok : Bool}

/-- What is there while js_io_socket_constructor runs over a socket table. -/
def InTable (c r : Nat) (s : Process) : Prop :=
  Inv s ∧ ∃ ctx, s.contexts c = some ctx ∧ ctx.rt = r

/-- The constructor makes a socket with its class and prototype exactly in the context the class
is registered for; later sockets of the table find what the first one has found. -/
theorem jsIoSocketConstructor_spec {s t : Process} {handle : Nat} (h : InTable c r s)
    (hstep : jsIoSocketConstructor ioGetSocket c ok s handle = some t) :
    InTable c r t ∧
      (ioGetSocket r handle = false → t = s) ∧
      (ioGetSocket r handle → (SocketClassFor t c ok ↔ SocketClassFor s c ok) ∧
        ∃ k, t.calls = s.calls ++ [k] ∧ (k.Registered ↔ SocketClassFor s c ok)) := by
  obtain ⟨hinv, ctx, hctx, rfl⟩ := h
  simp only [jsIoSocketConstructor, hctx] at hstep
  cases hio : ioGetSocket ctx.rt handle with
  | false =>
    obtain rfl : s = t := by simpa [hio] using hstep
    exact ⟨⟨hinv, ctx, hctx, rfl⟩, fun _ => rfl, fun h => by cases h⟩
  | true =>
    obtain ⟨u, hu, rfl⟩ := Option.map_eq_some_iff.mp (by simpa [hio] using hstep)
    obtain ⟨huinv, hcalls, hid, hfor, ctx', hctx', hrt⟩ : Inv u ∧ u.calls = s.calls ∧
        u.jsIoSocketClassId ≠ 0 ∧ (u.socketIn = some c ↔ SocketClassFor s c ok) ∧
        ∃ ctx', u.contexts c = some ctx' ∧ ctx'.rt = ctx.rt := by
      by_cases hid0 : s.jsIoSocketClassId = 0
      · rw [if_pos hid0] at hu
        obtain ⟨huinv, hcalls, hid, hfor, hctx'⟩ := jsIoAddIoSocketClass_spec hinv hid0 hctx hu
        have hnone : s.socketIn ≠ some c := fun hc => (hinv.socket c hc).1 hid0
        refine ⟨huinv, hcalls, hid, hfor.trans ?_, hctx'⟩
        simp [SocketClassFor, hid0, hnone]
      · rw [if_neg hid0] at hu
        obtain rfl := Option.some.inj hu
        exact ⟨hinv, rfl, hid0, by simp [SocketClassFor, hid0], ctx, hctx, rfl⟩
    obtain ⟨htinv, k, heq, hk⟩ := newSocket_spec huinv hctx' hid
    rw [heq] at htinv ⊢
    refine ⟨⟨htinv, ctx', hctx', hrt⟩, by simp, fun _ => ⟨?_, k, ?_, hk.trans hfor⟩⟩
    · rw [← hfor]
      simp [SocketClassFor, hid]
    · rw [← hcalls]

/-- Every socket of the table finds its class exactly when the first one does. -/
theorem meets_table {s t : Process} {sockets : List Nat} (h : InTable c r s)
    (hrun : Transition.run (jsIoSocketConstructor ioGetSocket c ok) s sockets = some t) :
    Transition.Meets (jsIoSocketConstructor ioGetSocket c ok)
        (fun u handle => ioGetSocket r handle → SocketClassFor u c ok) s sockets ↔
      (sockets.any (ioGetSocket r) → SocketClassFor s c ok) := by
  induction sockets generalizing s with
  | nil => simp [Transition.Meets]
  | cons handle sockets ih =>
    obtain ⟨u, hu, hrest⟩ := Transition.run_cons_eq_some hrun
    obtain ⟨htable, hsame, hsocket⟩ := jsIoSocketConstructor_spec h hu
    simp only [Transition.Meets, hu, Option.some.injEq, forall_eq', ih htable hrest,
      List.any_cons, Bool.or_eq_true]
    cases hio : ioGetSocket r handle with
    | false =>
      obtain rfl := hsame hio
      simp
    | true =>
      have hiff := (hsocket hio).1
      grind

/-- The calls that the constructors of a whole socket table make. -/
theorem addSockets_spec {s t : Process} {sockets : List Nat} (h : InTable c r s)
    (hrun : Transition.run (jsIoSocketConstructor ioGetSocket c ok) s sockets = some t) :
    Inv t ∧ ∃ new, t.calls = s.calls ++ new ∧
      ((∀ k ∈ new, k.Registered) ↔ (sockets.any (ioGetSocket r) → SocketClassFor s c ok)) := by
  have hcall : ∀ u handle v, InTable c r u →
      jsIoSocketConstructor ioGetSocket c ok u handle = some v →
      InTable c r v ∧ ∃ new, v.calls = u.calls ++ new ∧
        ((∀ k ∈ new, k.Registered) ↔ (ioGetSocket r handle → SocketClassFor u c ok)) := by
    intro u handle v hu hstep
    obtain ⟨hv, hsame, hsocket⟩ := jsIoSocketConstructor_spec hu hstep
    refine ⟨hv, ?_⟩
    cases hio : ioGetSocket r handle with
    | false => exact ⟨[], by simp [hsame hio], by simp⟩
    | true =>
      obtain ⟨-, k, hk, hiff⟩ := hsocket hio
      exact ⟨[k], hk, by simp [hiff]⟩
  obtain ⟨ht, new, hnew, hmeets⟩ := Transition.run_outputs hcall h hrun
  exact ⟨ht.1, new, hnew, hmeets.trans (meets_table h hrun)⟩

end Sockets

end Spec

/-! ## Runs -/

section Runs

variable {ioGetSocket : Nat → Nat → Bool} {s t : Process}

theorem inv_init : Inv init := by
  constructor <;> simp [init, Sized, jsClassInitCount]

theorem Inv.newRuntime (h : Inv s) :
    Inv { s with
      next := s.next + 1
      runtimes := update s.runtimes s.next
        (some ⟨jsClassInitCount, fun i => if i = 0 then none else some .predefined⟩) } := by
  have hold : ∀ r rt, s.runtimes r = some rt → r ≠ s.next :=
    fun r rt hr => Nat.ne_of_lt (h.runtimes_lt r rt hr)
  constructor
  case alloc => exact h.alloc
  case timerId => exact h.timerId
  case socketId => exact h.socketId
  case apart => exact h.apart
  case contexts_lt => exact fun c ctx hc => Nat.lt_succ_of_lt (h.contexts_lt c ctx hc)
  case runtimes_lt =>
    intro r rt hr
    have hlt := h.runtimes_lt r rt
    grind
  case sized =>
    intro c ctx hc
    obtain ⟨rt, hrt, hcount⟩ := h.sized c ctx hc
    exact ⟨rt, by simpa [hold _ rt hrt] using hrt, hcount⟩
  case std => exact h.std
  case entries =>
    intro r rt i d hr hi hentry
    by_cases hnew : r = s.next
    · subst hnew
      obtain rfl : _ = rt := by simpa using hr
      have hlt := JSRuntime.entry_eq_some hentry
      dsimp only at hlt
      omega
    · exact h.entries r rt i d (by simpa [hnew] using hr) hi hentry
  case timer =>
    intro r hr
    obtain ⟨ht, hlt, hentry⟩ := h.timer r hr
    refine ⟨ht, Nat.lt_succ_of_lt hlt, fun rt hrt => hentry rt ?_⟩
    simpa [Nat.ne_of_lt hlt] using hrt
  case socket =>
    intro c hc
    obtain ⟨hs, hlt, hentry⟩ := h.socket c hc
    refine ⟨hs, Nat.lt_succ_of_lt hlt, fun ctx rt hctx hrt => hentry ctx rt hctx ?_⟩
    obtain ⟨rt', hrt', -⟩ := h.sized c ctx hctx
    simpa [hold _ rt' hrt'] using hrt
  case protos => exact h.protos

theorem Inv.newContextRaw (h : Inv s) {r : Nat} {rt : JSRuntime} (hrt : s.runtimes r = some rt) :
    Inv { s with
      next := s.next + 1
      contexts := update s.contexts s.next (some ⟨r, rt.classCount, fun _ => .null, false⟩) } := by
  have hback : ∀ c ctx, update s.contexts s.next
      (some ⟨r, rt.classCount, fun _ => .null, false⟩) c = some ctx →
      s.contexts c = some ctx ∨ c = s.next ∧ ctx = ⟨r, rt.classCount, fun _ => .null, false⟩ := by
    intro c ctx hc
    grind
  constructor
  case alloc => exact h.alloc
  case timerId => exact h.timerId
  case socketId => exact h.socketId
  case apart => exact h.apart
  case contexts_lt =>
    intro c ctx hc
    obtain hold | ⟨rfl, -⟩ := hback c ctx hc
    · exact Nat.lt_succ_of_lt (h.contexts_lt c ctx hold)
    · exact Nat.lt_succ_self _
  case runtimes_lt => exact fun r rt hr => Nat.lt_succ_of_lt (h.runtimes_lt r rt hr)
  case sized =>
    intro c ctx hc
    obtain hold | ⟨-, rfl⟩ := hback c ctx hc
    · exact h.sized c ctx hold
    · exact ⟨rt, hrt, rfl⟩
  case std =>
    intro c ctx hc hstd
    obtain hold | ⟨-, rfl⟩ := hback c ctx hc
    · exact h.std c ctx hold hstd
    · cases hstd
  case entries => exact h.entries
  case timer =>
    intro r hr
    obtain ⟨ht, hlt, hentry⟩ := h.timer r hr
    exact ⟨ht, Nat.lt_succ_of_lt hlt, hentry⟩
  case socket =>
    intro c hc
    obtain ⟨hs, hlt, hentry⟩ := h.socket c hc
    refine ⟨hs, Nat.lt_succ_of_lt hlt, fun ctx rt' hctx hrt' => ?_⟩
    obtain hold | ⟨rfl, -⟩ := hback c ctx hctx
    · exact hentry ctx rt' hold hrt'
    · exact absurd hlt (Nat.lt_irrefl _)
  case protos =>
    intro c ctx i fs hc hproto
    obtain hold | ⟨-, rfl⟩ := hback c ctx hc
    · exact h.protos c ctx i fs hold hproto
    · simp [JSContext.proto] at hproto

/-- Fewer contexts, and fewer runtimes, as long as a runtime stays while it has a context. -/
theorem Inv.free (h : Inv s) {contexts : Nat → Option JSContext} {runtimes : Nat → Option JSRuntime}
    (hcontexts : ∀ c ctx, contexts c = some ctx → s.contexts c = some ctx)
    (hruntimes : ∀ r rt, runtimes r = some rt → s.runtimes r = some rt)
    (hstay : ∀ c ctx, contexts c = some ctx → runtimes ctx.rt = s.runtimes ctx.rt) :
    Inv { s with contexts := contexts, runtimes := runtimes } := by
  constructor
  case alloc => exact h.alloc
  case timerId => exact h.timerId
  case socketId => exact h.socketId
  case apart => exact h.apart
  case contexts_lt => exact fun c ctx hc => h.contexts_lt c ctx (hcontexts c ctx hc)
  case runtimes_lt => exact fun r rt hr => h.runtimes_lt r rt (hruntimes r rt hr)
  case sized =>
    intro c ctx hc
    obtain ⟨rt, hrt, hcount⟩ := h.sized c ctx (hcontexts c ctx hc)
    exact ⟨rt, (hstay c ctx hc).trans hrt, hcount⟩
  case std => exact fun c ctx hc => h.std c ctx (hcontexts c ctx hc)
  case entries => exact fun r rt i d hr => h.entries r rt i d (hruntimes r rt hr)
  case timer =>
    intro r hr
    obtain ⟨ht, hlt, hentry⟩ := h.timer r hr
    exact ⟨ht, hlt, fun rt hrt => hentry rt (hruntimes r rt hrt)⟩
  case socket =>
    intro c hc
    obtain ⟨hs, hlt, hentry⟩ := h.socket c hc
    exact ⟨hs, hlt, fun ctx rt hctx hrt => hentry ctx rt (hcontexts c ctx hctx)
      (hruntimes _ rt hrt)⟩
  case protos => exact fun c ctx i fs hc => h.protos c ctx i fs (hcontexts c ctx hc)

/-- What one step does: the invariant stays, and the calls it makes find their class exactly when
the step is prepared. -/
theorem step_spec (h : Inv s) {l : Label} (hstep : step ioGetSocket s l = some t) :
    Inv t ∧ ∃ new, t.calls = s.calls ++ new ∧
      ((∀ k ∈ new, k.Registered) ↔ Prepared ioGetSocket s l) := by
  cases l with
  | newRuntime =>
    obtain rfl := Option.some.inj hstep
    exact ⟨h.newRuntime, [], by simp, by simp [Prepared]⟩
  | newContextRaw r =>
    obtain ⟨rt, hrt, rfl⟩ := Option.map_eq_some_iff.mp hstep
    exact ⟨h.newContextRaw hrt, [], by simp, by simp [Prepared]⟩
  | standardModule c ok =>
    obtain ⟨-, ht⟩ := Option.ite_none_right_eq_some.mp hstep
    obtain rfl := Option.some.inj ht
    obtain ⟨hinv, hcalls⟩ := ioJsStdInitialise_inv h c ok
    exact ⟨hinv, [], by simp [hcalls], by simp [Prepared]⟩
  | ioNamespace c sockets ok =>
    obtain ⟨hsome, hrun⟩ := Option.ite_none_right_eq_some.mp hstep
    obtain ⟨ctx, hctx⟩ := Option.isSome_iff_exists.mp hsome
    obtain ⟨hinv, new, hnew, hiff⟩ := addSockets_spec ⟨h, ctx, hctx, rfl⟩ hrun
    exact ⟨hinv, new, hnew, hiff.trans (by simp [Prepared, hctx])⟩
  | setTimeout c =>
    obtain ⟨hstd, ht⟩ := Option.ite_none_right_eq_some.mp hstep
    obtain rfl := Option.some.inj ht
    obtain ⟨ctx, hctx, hctxStd⟩ := (Option.any_eq_true _ _).mp hstd
    obtain ⟨hinv, k, hk, hiff⟩ := newTimer_spec h hctx (h.std c ctx hctx hctxStd)
    exact ⟨hinv, [k], hk, by simp [Prepared, hctx, hiff]⟩
  | freeContext c =>
    obtain ⟨hsome, ht⟩ := Option.ite_none_right_eq_some.mp hstep
    obtain rfl := Option.some.inj ht
    have hcontexts : ∀ c' ctx, update s.contexts c none c' = some ctx →
        s.contexts c' = some ctx := by
      intro c' ctx hc'
      grind
    exact ⟨h.free hcontexts (fun _ _ hr => hr) (fun _ _ _ => rfl), [], by simp, by simp [Prepared]⟩
  | freeRuntime r =>
    obtain ⟨⟨hsome, hfree⟩, ht⟩ := Option.ite_none_right_eq_some.mp hstep
    obtain rfl := Option.some.inj ht
    have hruntimes : ∀ r' rt, update s.runtimes r none r' = some rt →
        s.runtimes r' = some rt := by
      intro r' rt hr'
      grind
    have hstay : ∀ c ctx, s.contexts c = some ctx →
        update s.runtimes r none ctx.rt = s.runtimes ctx.rt := by
      intro c ctx hc
      have hother := hfree c (h.contexts_lt c ctx hc)
      have hne : ctx.rt ≠ r := by simpa [hc] using hother
      exact update_of_ne hne ..
    exact ⟨h.free (fun _ _ hc => hc) hruntimes hstay, [], by simp, by simp [Prepared]⟩

/-- In every run of the process, each call of JS_NewObjectClass for a timer or a socket finds the
class registered in its runtime, and the prototype of sockets in its context, exactly when the
run makes sockets and timers where their class is registered. -/
theorem registered_iff (ls : List Label)
    (hrun : Transition.run (step ioGetSocket) init ls = some s) :
    (∀ k ∈ s.calls, k.Registered) ↔
      Transition.Meets (step ioGetSocket) (Prepared ioGetSocket) init ls := by
  obtain ⟨-, new, hnew, hiff⟩ := Transition.run_outputs
    (fun u l v hu hstep => @step_spec ioGetSocket u v hu l hstep) inv_init hrun
  rw [show s.calls = new from hnew]
  exact hiff

/-- One context with a timer and two sockets, and a context of another runtime with a timer. -/
def preparedRun : List Label :=
  [.newRuntime, .newContextRaw 0, .standardModule 1 true, .ioNamespace 1 [0, 1] true,
    .setTimeout 1, .newRuntime, .newContextRaw 2, .standardModule 3 true, .setTimeout 3,
    .freeContext 1, .freeRuntime 0]

theorem registered_prepared : ∃ s, Transition.run (step fun _ _ => true) init preparedRun = some s ∧
    s.calls.length = 4 ∧ ∀ k ∈ s.calls, k.Registered := by
  obtain ⟨s, hs⟩ : ∃ s, Transition.run (step fun _ _ => true) init preparedRun = some s := ⟨_, rfl⟩
  have hlength : (Transition.run (step fun _ _ => true) init preparedRun).map
      (fun s => s.calls.length) = some 4 := rfl
  rw [hs] at hlength
  exact ⟨s, hs, Option.some.inj hlength, (registered_iff preparedRun hs).mpr (by decide)⟩

/-- The same socket table in two runtimes. -/
def twoRuntimes : List Label :=
  [.newRuntime, .newContextRaw 0, .ioNamespace 1 [0] true, .newRuntime, .newContextRaw 2,
    .ioNamespace 3 [0] true]

/-- The same socket table in two contexts of one runtime. -/
def twoContexts : List Label :=
  [.newRuntime, .newContextRaw 0, .newContextRaw 0, .ioNamespace 1 [0] true,
    .ioNamespace 2 [0] true]

/-- The guard of the constructor is about the process: in the second runtime the id is not below
class_count, in the second context class_proto has JS_NULL. -/
theorem not_registered :
    (Transition.run (step fun _ _ => true) init twoRuntimes).map Process.calls =
        some [⟨1, .jsIoSocket, 58, 87, some .jsIoSocket, some (.object jsIoSocketFunctions)⟩,
          ⟨3, .jsIoSocket, 58, 58, none, none⟩] ∧
      (Transition.run (step fun _ _ => true) init twoContexts).map Process.calls =
        some [⟨1, .jsIoSocket, 58, 87, some .jsIoSocket, some (.object jsIoSocketFunctions)⟩,
          ⟨2, .jsIoSocket, 58, 87, some .jsIoSocket, some .null⟩] ∧
      ¬ ∀ ls s, Transition.run (step fun _ _ => true) init ls = some s →
        ∀ k ∈ s.calls, k.Registered := by
  refine ⟨rfl, rfl, fun hall => ?_⟩
  obtain ⟨s, hs⟩ : ∃ s, Transition.run (step fun _ _ => true) init twoRuntimes = some s := ⟨_, rfl⟩
  have hcalls : (Transition.run (step fun _ _ => true) init twoRuntimes).map Process.calls =
      some [⟨1, .jsIoSocket, 58, 87, some .jsIoSocket, some (.object jsIoSocketFunctions)⟩,
        ⟨3, .jsIoSocket, 58, 58, none, none⟩] := rfl
  rw [hs] at hcalls
  have hregistered := hall twoRuntimes s hs ⟨3, .jsIoSocket, 58, 58, none, none⟩
    (by rw [Option.some.inj hcalls]; simp)
  exact absurd hregistered (by decide)

end Runs

end ClassRegistry

end IoQuickJS
