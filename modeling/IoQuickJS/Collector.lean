import IoQuickJS.Refcount

/-!
# The cycle collector

JS_RunGC in its three passes: gc_decref takes every reference between objects out of the counts
and moves the objects left at zero to tmp_obj_list; gc_scan puts the references of the objects
that are kept back, rescuing their children, and then restores the counts of the others;
gc_free_cycles frees what is left on tmp_obj_list.
-/
namespace IoQuickJS

/-- `gc_mark` of the object's class: `io_js_timer_mark` reports the callback,
`js_io_socket_mark` all three slots. -/
def gcMark (rt : JSRuntime) (o : JSObject) : List JSValue :=
  match o.classId, o.uOpaque with
  | .ioTimer, some r => (rt.timers r).elim [] fun timer => [timer.resolve]
  | .ioSocket, some r => (rt.sockets r).elim [] IoJsIoSocket.slots
  | _, _ => []

/-- The values `mark_children` reports for the object at `p`, in order. -/
def markList (rt : JSRuntime) (p : Nat) : List JSValue :=
  (rt.objects p).elim [] fun o => o.prop ++ gcMark rt o

/-- `JS_MarkValue` -/
def jsMarkValue (markFunc : JSRuntime → Nat → JSRuntime) (rt : JSRuntime) : JSValue → JSRuntime
  | .object p => markFunc rt p
  | _ => rt

/-- `mark_children` -/
def markChildren (markFunc : JSRuntime → Nat → JSRuntime) (rt : JSRuntime) (p : Nat) : JSRuntime :=
  (markList rt p).foldl (jsMarkValue markFunc) rt

/-- Unlink from gc_obj_list and add at the end of tmp_obj_list. -/
def moveToTmp (rt : JSRuntime) (p : Nat) : JSRuntime :=
  { rt with gcObjList := rt.gcObjList.erase p, tmpObjList := rt.tmpObjList ++ [p] }

/-- `gc_decref_child` -/
def gcDecrefChild (rt : JSRuntime) (p : Nat) : JSRuntime :=
  let n := rt.refCount (.object p) - 1
  let rt := { rt with refCount := Function.update rt.refCount (.object p) n }
  if n = 0 ∧ rt.mark p then moveToTmp rt p else rt

/-- One iteration of the loop of `gc_decref`. -/
def gcDecrefStep (rt : JSRuntime) (p : Nat) : JSRuntime :=
  let rt := markChildren gcDecrefChild rt p
  let rt := { rt with mark := Function.update rt.mark p true }
  if rt.refCount (.object p) = 0 then moveToTmp rt p else rt

/-- `gc_decref`. Only objects already visited are moved to tmp_obj_list, so the loop visits the
objects gc_obj_list holds at the start. -/
def gcDecref (rt : JSRuntime) : JSRuntime :=
  rt.gcObjList.foldl gcDecrefStep { rt with tmpObjList := [] }

/-- `gc_scan_incref_child` -/
def gcScanIncrefChild (rt : JSRuntime) (p : Nat) : JSRuntime :=
  let n := rt.refCount (.object p) + 1
  let rt := { rt with refCount := Function.update rt.refCount (.object p) n }
  if n = 1 then
    { rt with
      tmpObjList := rt.tmpObjList.erase p
      gcObjList := rt.gcObjList ++ [p]
      mark := Function.update rt.mark p false }
  else rt

/-- `gc_scan_incref_child2` -/
def gcScanIncrefChild2 (rt : JSRuntime) (p : Nat) : JSRuntime :=
  { rt with refCount := Function.update rt.refCount (.object p) (rt.refCount (.object p) + 1) }

/-- The first loop of `gc_scan`, from position `i` of gc_obj_list on. The list only grows while
the loop runs; `fuel` bounds its final length. -/
def gcScanFrom : (fuel i : Nat) → JSRuntime → JSRuntime
  | 0, _, rt => rt
  | fuel + 1, i, rt =>
    match rt.gcObjList[i]? with
    | none => rt
    | some p =>
      gcScanFrom fuel (i + 1)
        (markChildren gcScanIncrefChild { rt with mark := Function.update rt.mark p false } p)

/-- `gc_scan` -/
def gcScan (rt : JSRuntime) : JSRuntime :=
  let rt := gcScanFrom (rt.gcObjList.length + rt.tmpObjList.length + 1) 0 rt
  rt.tmpObjList.foldl (markChildren gcScanIncrefChild2) rt

/-- `gc_free_cycles`. free_object takes the head of tmp_obj_list off the list and touches no
other entry of it, so the loop visits the objects the list holds at the start. -/
def gcFreeCycles (rt : JSRuntime) : JSRuntime :=
  let rt := rt.tmpObjList.foldl (freeObject .removeCycles) rt
  let rt := rt.gcZeroRefCountList.foldl jsFreeRtObject rt
  { rt with gcZeroRefCountList := [] }

/-- `JS_RunGC` -/
def jsRunGC (rt : JSRuntime) : JSRuntime := gcFreeCycles (gcScan (gcDecref rt))

end IoQuickJS
