import IoQuickJS.Runtime

/-!
# Reference counts and the release of objects

JS_DupValue, JS_FreeValueRT and what happens when a count reaches zero: the object goes to
gc_zero_ref_count_list, and unless that list is already being worked off, free_zero_refcount
frees it and whatever this brings down to zero in turn.
-/
namespace IoQuickJS

/-- The values of `rt->gc_phase`. -/
inductive GCPhase where
  | none
  | decref
  | removeCycles
  deriving DecidableEq, Repr

/-- `JS_DupValue` -/
def jsDupValue (rt : JSRuntime) (v : JSValue) : JSRuntime :=
  if v.hasRefCount then
    { rt with refCount := Function.update rt.refCount v (rt.refCount v + 1) }
  else rt

/-- `__JS_FreeValueRT`, up to the call of `free_zero_refcount` it makes in phase NONE. -/
def freeValueAtZero (ph : GCPhase) (rt : JSRuntime) : JSValue → JSRuntime
  | .string p => { rt with strings := Function.update rt.strings p none }
  | .object p =>
    if ph = .removeCycles then rt
    else { rt with
      gcObjList := rt.gcObjList.erase p
      gcZeroRefCountList := p :: rt.gcZeroRefCountList }
  | _ => rt

/-- `JS_FreeValueRT` while `gc_phase` is not NONE: nothing is freed recursively. -/
def freeValueIn (ph : GCPhase) (rt : JSRuntime) (v : JSValue) : JSRuntime :=
  if v.hasRefCount then
    let n := rt.refCount v - 1
    let rt := { rt with refCount := Function.update rt.refCount v n }
    if n = 0 then freeValueAtZero ph rt v else rt
  else rt

/-- `free_io_js_timer`. The record is taken out of memory before its values are released;
nothing reads it in between. `free` is JS_FreeValueRT in the caller's phase. -/
def freeIoJsTimer (free : JSRuntime → JSValue → JSRuntime) (rt : JSRuntime) (r : Nat)
    (timer : JSIOTimer) : JSRuntime :=
  timer.slots.foldl free { rt with timers := Function.update rt.timers r none }

/-- `io_js_timer_finalizer` of an object whose opaque pointer is `uOpaque`. -/
def ioJsTimerFinalizer (ph : GCPhase) (rt : JSRuntime) (uOpaque : Option Nat) : JSRuntime :=
  match uOpaque with
  | none => rt
  | some r =>
    match rt.timers r with
    | none => rt
    | some tmr =>
      if tmr.alarm then
        { rt with timers := Function.update rt.timers r (some { tmr with hasObject := false }) }
      else freeIoJsTimer (freeValueIn ph) rt r tmr

/-- `js_io_socket_finalizer` of an object whose opaque pointer is `uOpaque`. -/
def jsIoSocketFinalizer (ph : GCPhase) (rt : JSRuntime) (uOpaque : Option Nat) : JSRuntime :=
  match uOpaque with
  | none => { rt with panicked := true }
  | some r =>
    match rt.sockets r with
    | none => rt
    | some s =>
      [s.asyncGets0, s.asyncGets1, s.receiveCallback].foldl (freeValueIn ph)
        { rt with sockets := Function.update rt.sockets r none }

/-- `rt->class_array[p->class_id].finalizer`, called with the object. -/
def finalizer (ph : GCPhase) (rt : JSRuntime) (o : JSObject) : JSRuntime :=
  match o.classId with
  | .ioTimer => ioJsTimerFinalizer ph rt o.uOpaque
  | .ioSocket => jsIoSocketFinalizer ph rt o.uOpaque
  | _ => rt

/-- An object after the fail-safe assignments of `free_object`. -/
def JSObject.zombie : JSObject := ⟨.object, none, []⟩

/-- `js_free_rt` of an object: its memory and the count in it are gone. -/
def jsFreeRtObject (rt : JSRuntime) (p : Nat) : JSRuntime :=
  { rt with
    objects := Function.update rt.objects p none
    refCount := Function.update rt.refCount (.object p) 0 }

/-- `remove_gc_object`: unlink the object from whichever list it is on. -/
def removeGCObject (rt : JSRuntime) (p : Nat) : JSRuntime :=
  { rt with
    gcObjList := rt.gcObjList.erase p
    tmpObjList := rt.tmpObjList.erase p
    gcZeroRefCountList := rt.gcZeroRefCountList.erase p }

/-- `free_object`. The object is emptied before its properties and its class data are released;
nothing reads them in between. -/
def freeObject (ph : GCPhase) (rt : JSRuntime) (p : Nat) : JSRuntime :=
  match rt.objects p with
  | none => rt
  | some o =>
    let rt := { rt with objects := Function.update rt.objects p (some JSObject.zombie) }
    let rt := o.prop.foldl (freeValueIn ph) rt
    let rt := finalizer ph rt o
    let rt := removeGCObject rt p
    if ph = .removeCycles ∧ rt.refCount (.object p) ≠ 0 then
      { rt with gcZeroRefCountList := rt.gcZeroRefCountList ++ [p] }
    else jsFreeRtObject rt p

/-- The loop of `free_zero_refcount`; every iteration frees one object. -/
def freeZeroRefcountLoop : Nat → JSRuntime → JSRuntime
  | 0, rt => rt
  | n + 1, rt =>
    match rt.gcZeroRefCountList with
    | [] => rt
    | p :: _ => freeZeroRefcountLoop n (freeObject .decref rt p)

/-- `free_zero_refcount`; there are as many iterations as objects to free. -/
def freeZeroRefcount (rt : JSRuntime) : JSRuntime :=
  freeZeroRefcountLoop (rt.gcObjList.length + rt.gcZeroRefCountList.length) rt

/-- `JS_FreeValueRT` (and `JS_FreeValue`) in phase NONE. -/
def jsFreeValueRT (rt : JSRuntime) (v : JSValue) : JSRuntime :=
  freeZeroRefcount (freeValueIn .decref rt v)

/-- `js_malloc` of an object by `JS_NewObjectClass`, with no properties yet. -/
def jsNewObjectClass (rt : JSRuntime) (classId : JSClassID) : JSRuntime × JSValue :=
  ({ rt with
      next := rt.next + 1
      objects := Function.update rt.objects rt.next (some ⟨classId, none, []⟩)
      refCount := Function.update rt.refCount (.object rt.next) 1
      mark := Function.update rt.mark rt.next false
      gcObjList := rt.gcObjList ++ [rt.next] },
    .object rt.next)

/-- `JS_NewStringLen`; the string keeps the bytes it was made from. -/
def jsNewStringLen (rt : JSRuntime) (bytes : List UInt8) : JSRuntime × JSValue :=
  ({ rt with
      next := rt.next + 1
      strings := Function.update rt.strings rt.next (some bytes)
      refCount := Function.update rt.refCount (.string rt.next) 1 },
    .string rt.next)

/-- Assign to the properties of an object. -/
def JSRuntime.modifyProp (rt : JSRuntime) (p : Nat) (f : List JSValue → List JSValue) :
    JSRuntime :=
  let o := (rt.objects p).map fun o => { o with prop := f o.prop }
  { rt with objects := Function.update rt.objects p o }

/-- `JS_SetOpaque` -/
def jsSetOpaque (rt : JSRuntime) (obj : JSValue) (r : Nat) : JSRuntime :=
  match obj with
  | .object p =>
    let o := (rt.objects p).map fun o => { o with uOpaque := some r }
    { rt with objects := Function.update rt.objects p o }
  | _ => rt

/-- `JS_ThrowTypeError` -/
def jsThrowTypeError (rt : JSRuntime) (message : String) : JSRuntime × JSValue :=
  ({ rt with currentException := some (.typeError message) }, .exception)

/-- `JS_ThrowOutOfMemory` -/
def jsThrowOutOfMemory (rt : JSRuntime) : JSRuntime × JSValue :=
  ({ rt with currentException := some .outOfMemory }, .exception)

end IoQuickJS
