import IoQuickJS.CollectorScan
import IoQuickJS.Release

/-!
# JS_RunGC frees exactly the unreachable objects

The references that gc_mark reports are slots, so the counts of a state that is `Ready` satisfy
what the scan relies on. gc_free_cycles then empties the objects on tmp_obj_list. It leaves the
accounts in order provided that every reference a garbage object is marked with is also
released, which the timer finalizer does not do while the alarm is active: `GcSafe` is what has
to hold of such timers.
-/
namespace IoQuickJS

open Function (update update_self update_of_ne)

/-- Every timer object that the collector would free while its alarm is active has a callback
that something else keeps. -/
def GcSafe (rt : JSRuntime) : Prop :=
  ∀ p r tmr f, rt.opaqueOf p .ioTimer = some r → rt.timers r = some tmr → tmr.alarm →
    tmr.resolve = .object f → ¬ Reachable rt p → Reachable rt f

/-! ## Marked references are slots -/

theorem count_markList (rt : JSRuntime) (p : Nat) (v : JSValue) :
    (markList rt p).count v = Ledger.entry JSObject.prop v (rt.objects p) +
      Ledger.entry (fun tmr => [tmr.resolve]) v ((rt.opaqueOf p .ioTimer).bind rt.timers) +
      Ledger.entry IoJsIoSocket.slots v ((rt.opaqueOf p .ioSocket).bind rt.sockets) := by
  unfold markList gcMark JSRuntime.opaqueOf JSRuntime.getOpaque
  cases ho : rt.objects p with
  | none => simp [ho]
  | some o =>
    cases hcls : o.classId with
    | ioTimer =>
      cases hop : o.uOpaque with
      | none => simp [ho, JSObject.opaqueAs, hcls, hop]
      | some r => cases ht : rt.timers r <;> simp [ho, JSObject.opaqueAs, hcls, hop, ht]
    | ioSocket =>
      cases hop : o.uOpaque with
      | none => simp [ho, JSObject.opaqueAs, hcls, hop]
      | some r => cases hs : rt.sockets r <;> simp [ho, JSObject.opaqueAs, hcls, hop, hs]
    | _ => simp [ho, JSObject.opaqueAs, hcls]

theorem count_flatMap_markList (rt : JSRuntime) (ps : List Nat) (v : JSValue) :
    (ps.flatMap (markList rt)).count v =
      (ps.map fun p => Ledger.entry JSObject.prop v (rt.objects p)).sum +
      (ps.map fun p => Ledger.entry (fun tmr : JSIOTimer => [tmr.resolve]) v
        ((rt.opaqueOf p .ioTimer).bind rt.timers)).sum +
      (ps.map fun p => Ledger.entry IoJsIoSocket.slots v
        ((rt.opaqueOf p .ioSocket).bind rt.sockets)).sum := by
  rw [List.count_flatMap, ← List.sum_map_add, ← List.sum_map_add]
  congr 1
  exact List.map_congr_left fun p _ => count_markList rt p v

theorem Owned.marks_le_tally {rt : JSRuntime} (h : Owned rt) {ps : List Nat} (hnodup : ps.Nodup)
    (hlt : ∀ p ∈ ps, p < rt.next) (v : JSValue) :
    (ps.flatMap (markList rt)).count v ≤ rt.tally v := by
  have hobjects := Ledger.sum_entry_le_tally (t := rt.objects) JSObject.prop v hnodup hlt
  have htimers := Ledger.sum_bind_le_tally (t := rt.timers) JSIOTimer.slots v
    (fun p => rt.opaqueOf p .ioTimer) hnodup (fun p q r hp hq => h.timer_inj p q r hp hq)
    (fun p r hp => by
      obtain ⟨tmr, ht, -⟩ := h.timer_record p r hp
      exact h.timers_lt r (by simp [ht]))
  have hsockets := Ledger.sum_bind_le_tally (t := rt.sockets) IoJsIoSocket.slots v
    (fun p => rt.opaqueOf p .ioSocket) hnodup (fun p q r hp hq => h.socket_inj p q r hp hq)
    (fun p r hp => h.sockets_lt r (h.socket_record p r hp))
  have hresolve : (ps.map fun p => Ledger.entry (fun tmr : JSIOTimer => [tmr.resolve]) v
      ((rt.opaqueOf p .ioTimer).bind rt.timers)).sum ≤
      (ps.map fun p => Ledger.entry JSIOTimer.slots v
        ((rt.opaqueOf p .ioTimer).bind rt.timers)).sum := by
    refine List.sum_le_sum fun p _ => Ledger.entry_mono _ _ (fun tmr => ?_) _
    simp [JSIOTimer.slots, List.count_cons]
  have hsum := count_flatMap_markList rt ps v
  unfold JSRuntime.tally
  omega

theorem count_flatMap_children (rt : JSRuntime) (ps : List Nat) (q : Nat) :
    (ps.flatMap (children rt)).count q = (ps.flatMap (markList rt)).count (.object q) := by
  simp only [List.count_flatMap]
  congr 1
  exact List.map_congr_left fun p _ => count_children rt p q

section Ready

variable {rt : JSRuntime} {pend : List JSValue} {lost : JSValue → Nat}

theorem Ready.gc_lt (h : Ready rt pend lost) {p : Nat} (hp : p ∈ rt.gcObjList) : p < rt.next :=
  h.owned.objects_lt p (h.linked.alloc p ((h.linked.mem_gc p).mp hp))

theorem Ready.mem_gc_of_some (h : Ready rt pend lost) {p : Nat} (hp : (rt.objects p).isSome) :
    p ∈ rt.gcObjList := by
  rw [h.linked.mem_gc]
  by_contra hzero
  have := (h.linked.mem_zero p).mpr ⟨hp, by omega⟩
  simp [h.zero] at this

theorem Ready.scannable (h : Ready rt pend lost) : Scannable rt where
  gc_nodup := h.linked.gc_nodup
  mem_gc := h.linked.mem_gc
  unmarked := h.unmarked
  marked_le q := by
    rw [count_flatMap_children, h.counted.count _ rfl]
    have := h.owned.marks_le_tally h.linked.gc_nodup (fun p hp => h.gc_lt hp) (.object q)
    omega

end Ready

/-! ## What free_object releases in phase REMOVE_CYCLES -/

section FreeObject

variable {rt : JSRuntime} {p : Nat} {o : JSObject} {pend : List JSValue} {lost : JSValue → Nat}

/-- Emptying an object and its record takes their references out of the slots. -/
theorem spill_tally (ho : rt.objects p = some o) (hown : Owned rt) (h : Counted rt pend lost)
    (ph : GCPhase) {v : JSValue} (hv : v.hasRefCount) :
    (spill ph rt p o).tally v + (o.prop.count v + (finalReleased rt o).count v) = rt.tally v := by
  have hp := hown.objects_lt p (by simp [ho])
  have hfinal := finalRuntime_counted (emptied rt p) o hown.timers_lt hown.sockets_lt
    (emptied_counted ho hp h)
  have hcount := hfinal.count v hv
  have hold := h.count v hv
  rw [← (spill_countsOnly ph rt p o).tally] at hcount
  have hrefs : (finalRuntime (emptied rt p) o).refCount = rt.refCount := rfl
  have hreleased : finalReleased (emptied rt p) o = finalReleased rt o := rfl
  rw [hrefs, hreleased, List.count_append, List.count_append] at hcount
  omega

theorem foldl_freeValueIn_refCount (ph : GCPhase) (vs : List JSValue) (rt : JSRuntime)
    {w : JSValue} (hw : w.hasRefCount) :
    (vs.foldl (freeValueIn ph) rt).refCount w = rt.refCount w - vs.count w := by
  induction vs generalizing rt with
  | nil => rfl
  | cons v vs ih =>
    rw [List.foldl_cons, ih, freeValueIn_refCount ph rt v w hw, List.count_cons]
    by_cases hvw : v = w <;> simp [hvw]
    omega

theorem spill_refCount (ph : GCPhase) {w : JSValue} (hw : w.hasRefCount) :
    (spill ph rt p o).refCount w =
      rt.refCount w - (o.prop.count w + (finalReleased rt o).count w) := by
  have hframe := foldl_freeValueIn_countsOnly ph o.prop (emptied rt p)
  have hreleased : finalReleased (o.prop.foldl (freeValueIn ph) (emptied rt p)) o =
      finalReleased rt o := by
    simp only [finalReleased, hframe.timers, hframe.sockets]; rfl
  unfold spill
  rw [finalizer_eq, foldl_freeValueIn_refCount ph _ _ hw, hreleased]
  change (o.prop.foldl (freeValueIn ph) (emptied rt p)).refCount w - _ = _
  rw [foldl_freeValueIn_refCount ph _ _ hw]
  exact Nat.sub_sub ..

theorem freeValueIn_removeCycles_lists (rt : JSRuntime) (v : JSValue) :
    (freeValueIn .removeCycles rt v).gcObjList = rt.gcObjList ∧
      (freeValueIn .removeCycles rt v).gcZeroRefCountList = rt.gcZeroRefCountList := by
  unfold freeValueIn
  cases v <;> simp only [freeValueAtZero, if_true] <;> split_ifs <;> exact ⟨rfl, rfl⟩

theorem foldl_freeValueIn_removeCycles_lists (vs : List JSValue) (rt : JSRuntime) :
    (vs.foldl (freeValueIn .removeCycles) rt).gcObjList = rt.gcObjList ∧
      (vs.foldl (freeValueIn .removeCycles) rt).gcZeroRefCountList = rt.gcZeroRefCountList := by
  induction vs generalizing rt with
  | nil => exact ⟨rfl, rfl⟩
  | cons v vs ih =>
    obtain ⟨hgc, hzero⟩ := freeValueIn_removeCycles_lists rt v
    exact ⟨(ih _).1.trans hgc, (ih _).2.trans hzero⟩

theorem spill_removeCycles_lists (rt : JSRuntime) (p : Nat) (o : JSObject) :
    (spill .removeCycles rt p o).gcObjList = rt.gcObjList ∧
      (spill .removeCycles rt p o).gcZeroRefCountList = rt.gcZeroRefCountList := by
  obtain ⟨hgc, hzero⟩ := foldl_freeValueIn_removeCycles_lists o.prop (emptied rt p)
  unfold spill
  rw [finalizer_eq]
  obtain ⟨hgc', hzero'⟩ := foldl_freeValueIn_removeCycles_lists
    (finalReleased (o.prop.foldl (freeValueIn .removeCycles) (emptied rt p)) o)
    (finalRuntime (o.prop.foldl (freeValueIn .removeCycles) (emptied rt p)) o)
  exact ⟨hgc'.trans hgc, hzero'.trans hzero⟩

/-- What free_object releases was marked; and what was marked is released, unless it is the
callback of a timer whose alarm is active. -/
theorem released_count (ho : rt.objects p = some o) (hown : Owned rt) {v : JSValue}
    (hv : v.hasRefCount) :
    o.prop.count v + (finalReleased rt o).count v ≤ (markList rt p).count v ∧
      ((∀ r tmr, rt.opaqueOf p .ioTimer = some r → rt.timers r = some tmr → tmr.alarm →
          tmr.resolve ≠ v) →
        o.prop.count v + (finalReleased rt o).count v = (markList rt p).count v) := by
  have hundefined := JSValue.undefined_ne hv
  have hpt := opaqueOf_eq ho .ioTimer
  have hps := opaqueOf_eq ho .ioSocket
  rw [count_markList, ho, hpt, hps, Ledger.entry_some, finalReleased, List.count_append]
  have hsocket : (((o.opaqueAs .ioSocket).bind rt.sockets).elim []
      fun s => [s.asyncGets0, s.asyncGets1, s.receiveCallback]).count v =
      Ledger.entry IoJsIoSocket.slots v ((o.opaqueAs .ioSocket).bind rt.sockets) := by
    cases (o.opaqueAs .ioSocket).bind rt.sockets with
    | none => rfl
    | some s =>
      simp only [Option.elim_some, Ledger.entry_some, IoJsIoSocket.slots, List.count_cons,
        List.count_nil]
      omega
  cases hop : o.opaqueAs .ioTimer with
  | none => simp [hsocket]
  | some r =>
    obtain ⟨tmr, ht, hhas⟩ := hown.timer_record p r (hpt.trans hop)
    have hreject := hown.timer_reject r tmr ht hhas
    have hslots : tmr.slots.count v = [tmr.resolve].count v := by
      simp [JSIOTimer.slots, List.count_cons, hreject, hundefined]
    cases halarm : tmr.alarm with
    | false => simp [ht, halarm, hsocket, hslots, Nat.add_assoc]
    | true =>
      refine ⟨by simp [ht, halarm, hsocket], fun hne => ?_⟩
      have hresolve := hne r tmr rfl ht halarm
      simp [ht, halarm, hsocket, hresolve]

end FreeObject

/-! ## Emptied objects -/

/-- An object that holds nothing and points to nothing, or whose memory is free again. -/
def Emptied (o : Option JSObject) : Prop := o = none ∨ o = some .zombie

/-- Freeing the memory of emptied objects takes no references away. -/
theorem tally_of_emptied {f g : Nat → Option JSObject}
    (h : ∀ q, g q = f q ∨ Emptied (f q) ∧ Emptied (g q)) (n : Nat) (v : JSValue) :
    Ledger.tally n g JSObject.prop v = Ledger.tally n f JSObject.prop v := by
  refine Finset.sum_congr rfl fun q _ => ?_
  rcases h q with hq | ⟨hf | hf, hg | hg⟩
  · rw [hq]
  all_goals simp [hf, hg, JSObject.zombie]

theorem opaqueOf_of_emptied {a b : JSRuntime}
    (h : ∀ q, b.objects q = a.objects q ∨ Emptied (a.objects q) ∧ Emptied (b.objects q)) (q : Nat)
    (cls : JSClassID) : b.opaqueOf q cls = a.opaqueOf q cls := by
  unfold JSRuntime.opaqueOf JSRuntime.getOpaque
  dsimp only
  rcases h q with hq | ⟨hf | hf, hg | hg⟩
  · rw [hq]
  all_goals simp [hf, hg, JSObject.zombie, JSObject.opaqueAs]

/-! ## gc_free_cycles -/

/-- `gc_free_cycles` has emptied the objects `done` of tmp_obj_list and still has to visit
`todo`; the objects on `kept` are the reachable ones. -/
structure Cycles (start rt : JSRuntime) (kept done todo : List Nat) (pend : List JSValue)
    (lost : JSValue → Nat) : Prop where
  counted : Counted rt pend lost
  owned : Owned rt
  gc : rt.gcObjList = kept
  tmp : rt.tmpObjList = todo
  shrinks : Shrinks start { rt with objects := start.objects }
  objects_kept : ∀ q ∉ done, rt.objects q = start.objects q
  objects_done : ∀ q ∈ done, q ∈ rt.gcZeroRefCountList ∨
    rt.objects q = none ∧ rt.refCount (.object q) = 0
  zombies : ∀ q ∈ rt.gcZeroRefCountList, q ∈ done ∧ rt.objects q = some JSObject.zombie
  marks : ∀ q ∉ done, markList rt q = markList start q
  garbage : ∀ z ∈ done ++ todo,
    rt.tally (.object z) = (todo.flatMap (children start)).count z
  count_ge : ∀ q ∉ done ++ todo, start.refCount (.object q) ≤
    rt.refCount (.object q) + (done.flatMap (children start)).count q
  count_le : ∀ v, v.hasRefCount → rt.refCount v ≤ start.refCount v
  unmarked : ∀ q ∈ kept, rt.mark q = false

section Cycles

variable {start rt : JSRuntime} {kept done todo : List Nat} {p : Nat} {pend : List JSValue}
  {lost : JSValue → Nat}

/-- The two ways free_object ends: the memory is freed, or kept until all cycles are. -/
theorem freeObject_removeCycles {o : JSObject} (ho : rt.objects p = some o)
    (hgc : p ∉ rt.gcObjList) (hzero : p ∉ rt.gcZeroRefCountList)
    (htmp : rt.tmpObjList = p :: todo) :
    freeObject .removeCycles rt p =
      if (spill .removeCycles rt p o).refCount (.object p) = 0 then
        jsFreeRtObject { spill .removeCycles rt p o with tmpObjList := todo } p
      else { spill .removeCycles rt p o with
        tmpObjList := todo
        gcZeroRefCountList := rt.gcZeroRefCountList ++ [p] } := by
  obtain ⟨hlgc, hlzero⟩ := spill_removeCycles_lists rt p o
  have hltmp : (spill .removeCycles rt p o).tmpObjList = p :: todo :=
    (spill_countsOnly .removeCycles rt p o).tmpObjList.trans htmp
  have hremove : removeGCObject (spill .removeCycles rt p o) p =
      { spill .removeCycles rt p o with tmpObjList := todo } := by
    refine JSRuntime.ext rfl rfl rfl rfl rfl rfl rfl ?_ ?_ ?_ rfl rfl rfl rfl rfl rfl rfl
    · simp only [removeGCObject, hlgc, List.erase_of_not_mem hgc]
    · simp [removeGCObject, hltmp]
    · simp only [removeGCObject, hlzero, List.erase_of_not_mem hzero]
  rw [freeObject_eq ho]
  simp only [hremove, true_and, ne_eq, ite_not, hlzero]

/-- What a visit leaves: what the object at `p` held is released, and the object itself is emptied,
with its memory free or kept until all garbage has been visited. -/
structure Spilled (rt rt' : JSRuntime) (p : Nat) (o : JSObject) (todo : List Nat) : Prop where
  gc : rt'.gcObjList = rt.gcObjList
  tmp : rt'.tmpObjList = todo
  frame : CountsOnly { spill .removeCycles rt p o with
    objects := rt'.objects, tmpObjList := rt'.tmpObjList } rt'
  strings : rt'.strings = (spill .removeCycles rt p o).strings
  refCount : ∀ v, v.hasRefCount → rt'.refCount v = (spill .removeCycles rt p o).refCount v
  others : ∀ q ≠ p, rt'.objects q = rt.objects q
  self : Emptied (rt'.objects p)
  visited : p ∈ rt'.gcZeroRefCountList ∨ rt'.objects p = none ∧ rt'.refCount (.object p) = 0
  zombies : ∀ q ∈ rt'.gcZeroRefCountList, q ∈ rt.gcZeroRefCountList ∨
    q = p ∧ rt'.objects p = some .zombie
  zero : ∀ q ∈ rt.gcZeroRefCountList, q ∈ rt'.gcZeroRefCountList

theorem freeObject_spilled {o : JSObject} (ho : rt.objects p = some o)
    (hgc : p ∉ rt.gcObjList) (hzero : p ∉ rt.gcZeroRefCountList)
    (htmp : rt.tmpObjList = p :: todo) :
    Spilled rt (freeObject .removeCycles rt p) p o todo := by
  obtain ⟨hlgc, hlzero⟩ := spill_removeCycles_lists rt p o
  have hobjects : (spill .removeCycles rt p o).objects = update rt.objects p (some .zombie) :=
    (spill_countsOnly .removeCycles rt p o).objects
  rw [freeObject_removeCycles ho hgc hzero htmp]
  split_ifs with hcount
  · refine ⟨hlgc, rfl, ⟨rfl, rfl, rfl, rfl, rfl, rfl, rfl, rfl, rfl, rfl, rfl, rfl, rfl⟩, rfl,
      fun v _ => ?_, fun q hq => ?_, .inl ?_, .inr ⟨?_, ?_⟩, fun q hq => .inl ?_, fun q hq => ?_⟩
    · simp only [jsFreeRtObject]
      rw [← hcount, Function.update_eq_self]
    · simp [jsFreeRtObject, update_of_ne hq, hobjects]
    · simp [jsFreeRtObject]
    · simp [jsFreeRtObject]
    · simp [jsFreeRtObject]
    · rwa [← hlzero]
    · rwa [← hlzero] at hq
  · refine ⟨hlgc, rfl, ⟨rfl, rfl, rfl, rfl, rfl, rfl, rfl, rfl, rfl, rfl, rfl, rfl, rfl⟩, rfl,
      fun v _ => rfl, fun q hq => ?_, .inr ?_, .inl (by simp), fun q hq => ?_,
      fun q hq => by simp [hq]⟩
    · simp [hobjects, update_of_ne hq]
    · simp [hobjects]
    · rcases List.mem_append.mp hq with hq | hq
      · exact .inl hq
      · exact .inr ⟨List.mem_singleton.mp hq, by simp [hobjects]⟩

section Spilled

variable {rt' : JSRuntime} {o : JSObject}

theorem Spilled.next (h : Spilled rt rt' p o todo) : rt'.next = rt.next :=
  h.frame.next.trans (spill_countsOnly .removeCycles rt p o).next

theorem Spilled.timers (h : Spilled rt rt' p o todo) :
    rt'.timers = finalTimers rt (o.opaqueAs .ioTimer) :=
  h.frame.timers.trans (spill_countsOnly .removeCycles rt p o).timers

theorem Spilled.sockets (h : Spilled rt rt' p o todo) :
    rt'.sockets = finalSockets rt (o.opaqueAs .ioSocket) :=
  h.frame.sockets.trans (spill_countsOnly .removeCycles rt p o).sockets

theorem Spilled.opaqueOf (h : Spilled rt rt' p o todo) (q : Nat) (cls : JSClassID) :
    rt'.opaqueOf q cls = if q = p then none else rt.opaqueOf q cls := by
  by_cases hq : q = p
  · subst hq
    rcases h.self with hself | hself <;>
      simp [JSRuntime.getOpaque, hself, JSObject.zombie, JSObject.opaqueAs]
  · simp [JSRuntime.getOpaque, h.others q hq, hq]

/-- The emptied object has no references, whether it is still allocated or not. -/
theorem Spilled.tally (h : Spilled rt rt' p o todo) (v : JSValue) :
    rt'.tally v = (spill .removeCycles rt p o).tally v := by
  have hobjects : (spill .removeCycles rt p o).objects = update rt.objects p (some .zombie) :=
    (spill_countsOnly .removeCycles rt p o).objects
  have hemptied := tally_of_emptied (f := (spill .removeCycles rt p o).objects)
    (g := rt'.objects) (fun q => ?_) (spill .removeCycles rt p o).next v
  · rw [h.frame.tally v]
    simp only [JSRuntime.tally, JSRuntime.jobSlots]
    omega
  · by_cases hq : q = p
    · exact .inr ⟨.inr (by simp [hobjects, hq]), hq ▸ h.self⟩
    · exact .inl (by rw [hobjects, h.others q hq, update_of_ne hq])

theorem Spilled.counted (h : Spilled rt rt' p o todo) (ho : rt.objects p = some o)
    (hown : Owned rt) (hcounted : Counted rt pend lost) : Counted rt' pend lost := by
  have hspill := spill_counted .removeCycles ho hown hcounted
  refine ⟨fun v hv => ?_, fun q => ?_, fun q hq => ?_⟩
  · rw [h.refCount v hv, h.tally]; exact hspill.count v hv
  · rw [h.strings, h.refCount _ rfl]; exact hspill.strings q
  · rw [h.refCount _ rfl]; exact hspill.unused q (h.frame.next.symm.trans_le hq)

theorem Spilled.owned (h : Spilled rt rt' p o todo) (ho : rt.objects p = some o)
    (hown : Owned rt) : Owned rt' := by
  refine hown.freed ho h.next (fun q hq => ?_) h.opaqueOf h.timers h.sockets
  by_cases hqp : q = p
  · simp [hqp, ho]
  · rwa [h.others q hqp] at hq

theorem Spilled.shrinks (h : Spilled rt rt' p o todo) (ho : rt.objects p = some o)
    (hown : Owned rt) (objects : Nat → Option JSObject) :
    Shrinks { rt with objects := objects } { rt' with objects := objects } := by
  have hframe := spill_countsOnly .removeCycles rt p o
  refine ⟨h.next, h.frame.jobList.trans hframe.jobList, h.frame.running.trans hframe.running,
    h.frame.stack.trans hframe.stack, h.frame.events.trans hframe.events,
    h.frame.log.trans hframe.log, h.frame.currentException.trans hframe.currentException,
    fun _ => .inl rfl, fun r => ?_, fun r => ?_⟩
  · rw [show rt'.timers = _ from h.timers]
    exact finalTimers_shrinks (hown.opaque_record ho) r
  · rw [show rt'.sockets = _ from h.sockets]
    exact finalSockets_shrinks rt _ r

/-- The other objects are marked with what they were marked with. -/
theorem Spilled.markList (h : Spilled rt rt' p o todo) (ho : rt.objects p = some o)
    (hown : Owned rt) {q : Nat} (hq : q ≠ p) : markList rt' q = markList rt q := by
  unfold IoQuickJS.markList gcMark
  rw [h.others q hq]
  cases hqo : rt.objects q with
  | none => rfl
  | some oq =>
    have htq : ∀ r, oq.opaqueAs .ioTimer = some r → rt'.timers r = rt.timers r := by
      intro r hr
      rw [h.timers]
      exact hown.finalTimers_other ho hq ((opaqueOf_eq hqo _).trans hr)
    have hsq : ∀ r, oq.opaqueAs .ioSocket = some r → rt'.sockets r = rt.sockets r := by
      intro r hr
      rw [h.sockets]
      exact hown.finalSockets_other ho hq ((opaqueOf_eq hqo _).trans hr)
    cases hcls : oq.classId <;> cases hop : oq.uOpaque <;> simp_all [JSObject.opaqueAs]

end Spilled

/-- What the visit of `p` releases are the references it is marked with, but for the callback of a
timer whose alarm is active. -/
theorem Cycles.released (h : Cycles start rt kept done (p :: todo) pend lost)
    (hsafe : GcSafe start)
    (hgarbage : ∀ q ∈ done ++ p :: todo, q ∈ start.gcObjList ∧ ¬ Reachable start q)
    (hpdone : p ∉ done) {o : JSObject} (ho : rt.objects p = some o) (q : Nat) :
    o.prop.count (.object q) + (finalReleased rt o).count (.object q) ≤
        (children start p).count q ∧
      (q ∈ done ++ p :: todo →
        o.prop.count (.object q) + (finalReleased rt o).count (.object q) =
          (children start p).count q) := by
  rw [count_children, ← h.marks p hpdone]
  refine ⟨(released_count ho h.owned rfl).1, fun hq => ?_⟩
  refine (released_count ho h.owned rfl).2 fun r tmr hr ht halarm hresolve => ?_
  -- the alarm and the callback of the timer are those it had when the collection began
  obtain ⟨old, hold, hsame, -, halarm', -, -⟩ := h.shrinks.timer_before ht
  have hr' : start.opaqueOf p .ioTimer = some r := by
    rw [opaqueOf_eq ((h.objects_kept p hpdone).symm.trans ho), ← opaqueOf_eq ho]
    exact hr
  exact (hgarbage q hq).2 (hsafe p r old q hr' hold (halarm'.trans halarm)
    (hsame.trans hresolve) (hgarbage p (by simp)).2)

theorem Cycles.step (h : Cycles start rt kept done (p :: todo) pend lost)
    (hstart : Ready start pend lost) (hsafe : GcSafe start)
    (hkept : ∀ q, q ∈ kept ↔ q ∈ start.gcObjList ∧ Reachable start q)
    (hgarbage : ∀ q ∈ done ++ p :: todo, q ∈ start.gcObjList ∧ ¬ Reachable start q)
    (hnodup : (done ++ p :: todo).Nodup) :
    Cycles start (freeObject .removeCycles rt p) kept (done ++ [p]) todo pend lost := by
  have hpdone : p ∉ done := by
    rw [List.nodup_append] at hnodup
    exact fun hp => hnodup.2.2 p hp p (by simp) rfl
  obtain ⟨hpgc, hpreach⟩ := hgarbage p (by simp)
  obtain ⟨o, ho'⟩ := Option.isSome_iff_exists.mp
    (hstart.linked.alloc p ((hstart.linked.mem_gc p).mp hpgc))
  have ho : rt.objects p = some o := (h.objects_kept p hpdone).trans ho'
  have hpkept : p ∉ rt.gcObjList := by
    rw [h.gc, hkept]; exact fun hp => hpreach hp.2
  have hpzero : p ∉ rt.gcZeroRefCountList := fun hp => hpdone (h.zombies p hp).1
  have hspilled := freeObject_spilled ho hpkept hpzero h.tmp
  generalize freeObject .removeCycles rt p = rt' at hspilled ⊢
  have hreleased := h.released hsafe hgarbage hpdone ho
  have hrefs : ∀ v, v.hasRefCount → rt'.refCount v =
      rt.refCount v - (o.prop.count v + (finalReleased rt o).count v) :=
    fun v hv => (hspilled.refCount v hv).trans (spill_refCount .removeCycles hv)
  refine ⟨hspilled.counted ho h.owned h.counted, hspilled.owned ho h.owned,
    hspilled.gc.trans h.gc, hspilled.tmp, h.shrinks.trans (hspilled.shrinks ho h.owned _),
    fun q hq => ?_, fun q hq => ?_, fun q hq => ?_, fun q hq => ?_, fun z hz => ?_,
    fun q hq => ?_, fun v hv => ?_, fun q hq => ?_⟩
  · simp only [List.mem_append, List.mem_singleton, not_or] at hq
    rw [hspilled.others q hq.2]
    exact h.objects_kept q hq.1
  · rcases List.mem_append.mp hq with hq | hq
    · have hqp : q ≠ p := fun he => hpdone (he ▸ hq)
      rcases h.objects_done q hq with hz | ⟨hnone, hrc⟩
      · exact .inl (hspilled.zero q hz)
      · refine .inr ⟨(hspilled.others q hqp).trans hnone, ?_⟩
        rw [hrefs _ rfl, hrc, Nat.zero_sub]
    · rw [List.mem_singleton.mp hq]
      exact hspilled.visited
  · rcases hspilled.zombies q hq with hz | ⟨rfl, hz⟩
    · obtain ⟨hqdone, hqobj⟩ := h.zombies q hz
      have hqp : q ≠ p := fun he => hpdone (he ▸ hqdone)
      exact ⟨by simp [hqdone], (hspilled.others q hqp).trans hqobj⟩
    · exact ⟨by simp, hz⟩
  · simp only [List.mem_append, List.mem_singleton, not_or] at hq
    exact (hspilled.markList ho h.owned hq.2).trans (h.marks q hq.1)
  · have hz' : z ∈ done ++ p :: todo := by simpa using hz
    have hsum := spill_tally ho h.owned h.counted .removeCycles (v := .object z) rfl
    have hold := h.garbage z hz'
    rw [(hreleased z).2 hz'] at hsum
    rw [List.flatMap_cons, List.count_append] at hold
    rw [hspilled.tally]
    omega
  · have hold := h.count_ge q (by simpa using hq)
    have hle := (hreleased q).1
    rw [hrefs _ rfl, List.flatMap_append, List.count_append]
    simp only [List.flatMap_cons, List.flatMap_nil, List.append_nil]
    omega
  · rw [hrefs v hv]
    exact (Nat.sub_le _ _).trans (h.count_le v hv)
  · rw [hspilled.frame.mark]
    exact ((congrFun (spill_countsOnly .removeCycles rt p o).mark q)).trans (h.unmarked q hq)

theorem Cycles.foldl (h : Cycles start rt kept done todo pend lost)
    (hstart : Ready start pend lost) (hsafe : GcSafe start)
    (hkept : ∀ q, q ∈ kept ↔ q ∈ start.gcObjList ∧ Reachable start q)
    (hgarbage : ∀ q ∈ done ++ todo, q ∈ start.gcObjList ∧ ¬ Reachable start q)
    (hnodup : (done ++ todo).Nodup) :
    Cycles start (todo.foldl (freeObject .removeCycles) rt) kept (done ++ todo) [] pend lost := by
  induction todo generalizing rt done with
  | nil => simpa using h
  | cons p todo ih =>
    have hstep := h.step hstart hsafe hkept hgarbage hnodup
    have := ih hstep (by simpa using hgarbage) (by simpa using hnodup)
    simpa using this

end Cycles

theorem foldl_jsFreeRtObject (zs : List Nat) (rt : JSRuntime) :
    zs.foldl jsFreeRtObject rt = { rt with
      objects := fun q => if q ∈ zs then none else rt.objects q
      refCount := fun v => if v.objectAddr.any (· ∈ zs) then 0 else rt.refCount v } := by
  induction zs generalizing rt with
  | nil => simp
  | cons z zs ih =>
    rw [List.foldl_cons, ih]
    refine JSRuntime.ext rfl (funext fun q => ?_) rfl rfl rfl (funext fun v => ?_) rfl rfl rfl rfl
      rfl rfl rfl rfl rfl rfl rfl
    · by_cases hq : q = z
      · simp [jsFreeRtObject, hq]
      · simp [jsFreeRtObject, hq]
    · cases v with
      | object q =>
        by_cases hq : q = z
        · simp [jsFreeRtObject, JSValue.objectAddr, hq]
        · simp [jsFreeRtObject, JSValue.objectAddr, hq]
      | _ => simp [jsFreeRtObject, JSValue.objectAddr]

/-! ## JS_RunGC -/

section RunGC

variable {rt : JSRuntime} {pend : List JSValue} {lost : JSValue → Nat}

/-- All references to an unreachable object are marked references from unreachable objects. -/
theorem Ready.garbage_counts (h : Ready rt pend lost) {T : List Nat} (hT : T.Nodup)
    (hmem : ∀ q, q ∈ T ↔ q ∈ rt.gcObjList ∧ ¬ Reachable rt q) {z : Nat} (hz : z ∈ T) :
    rt.tally (.object z) = (T.flatMap (children rt)).count z ∧ pend.count (.object z) = 0 ∧
      lost (.object z) = 0 := by
  obtain ⟨hzgc, hzreach⟩ := (hmem z).mp hz
  have hcount := h.counted.count (.object z) rfl
  have hmarks := h.owned.marks_le_tally h.linked.gc_nodup (fun p hp => h.gc_lt hp) (.object z)
  rw [← count_flatMap_children] at hmarks
  have hext : externals rt z = 0 :=
    Nat.eq_zero_of_not_pos fun hpos => hzreach (.root hpos)
  unfold externals at hext
  -- no reachable object refers to `z`, so restricting the sum to the garbage loses nothing
  have hgarbage : (rt.gcObjList.flatMap (children rt)).count z =
      (T.flatMap (children rt)).count z := by
    classical
    have hsplit : (rt.gcObjList.filter (· ∈ T) ++ rt.gcObjList.filter (· ∉ T)).Perm
        rt.gcObjList := by
      simpa using List.filter_append_perm (fun q => decide (q ∈ T)) rt.gcObjList
    have hperm : (rt.gcObjList.filter (· ∈ T)).Perm T := by
      refine (List.perm_ext_iff_of_nodup (h.linked.gc_nodup.filter _) hT).mpr fun q => ?_
      simp only [List.mem_filter, decide_eq_true_eq, and_iff_right_iff_imp]
      exact fun hq => ((hmem q).mp hq).1
    have hnone : ((rt.gcObjList.filter (· ∉ T)).flatMap (children rt)).count z = 0 := by
      rw [List.count_eq_zero, List.mem_flatMap]
      rintro ⟨q, hq, hqz⟩
      simp only [List.mem_filter, decide_eq_true_eq] at hq
      have hqreach : Reachable rt q := by
        by_contra hn
        exact hq.2 ((hmem q).mpr ⟨hq.1, hn⟩)
      exact hzreach (hqreach.step hqz)
    have hsum := (hsplit.flatMap_right (children rt)).count_eq z
    rw [List.flatMap_append, List.count_append, hnone,
      (hperm.flatMap_right (children rt)).count_eq z] at hsum
    omega
  omega

section Finish

variable {u : JSRuntime} {L T : List Nat}

/-- Nothing refers to the garbage any more when all of it has been emptied. -/
theorem Cycles.freed (hend : Cycles rt u L T [] pend lost)
    (hgarbage : ∀ z ∈ T, rt.tally (.object z) = (T.flatMap (children rt)).count z ∧
      pend.count (.object z) = 0 ∧ lost (.object z) = 0) :
    ∀ z ∈ T, u.refCount (.object z) = 0 := by
  intro z hz
  obtain ⟨-, hpend, hlost⟩ := hgarbage z hz
  have hcount := hend.counted.count (.object z) rfl
  have htally := hend.garbage z (by simpa using hz)
  rw [List.flatMap_nil, List.count_nil] at htally
  omega

/-- The reachable objects have kept references. -/
theorem Cycles.kept_pos (hend : Cycles rt u L T [] pend lost) (h : Ready rt pend lost)
    (hT : T.Nodup) (hL : L.Nodup) (hmemL : ∀ q, q ∈ L ↔ q ∈ rt.gcObjList ∧ Reachable rt q)
    (hmemT : ∀ q, q ∈ T ↔ q ∈ rt.gcObjList ∧ ¬ Reachable rt q) :
    ∀ q ∈ L, 0 < u.refCount (.object q) := by
  have hkept : ∀ q ∈ L, q ∉ T := fun q hq hqT => ((hmemT q).mp hqT).2 ((hmemL q).mp hq).2
  intro q hq
  obtain ⟨hqgc, hqreach⟩ := (hmemL q).mp hq
  cases hqreach with
  | root hroot =>
    -- what `q` is held by from outside has not been released
    have hge := hend.count_ge q (by simpa using hkept q hq)
    have hsub : T.Subperm rt.gcObjList := hT.subperm fun z hz => ((hmemT z).mp hz).1
    obtain ⟨T', hperm, hsublist⟩ := hsub
    have hle : (T.flatMap (children rt)).count q ≤
        (rt.gcObjList.flatMap (children rt)).count q := by
      rw [← (hperm.flatMap_right (children rt)).count_eq q]
      exact (hsublist.flatMap (children rt)).count_le q
    unfold externals at hroot
    omega
  | step hsource hchild =>
    rename_i p
    have hpgc : p ∈ rt.gcObjList := by
      refine h.mem_gc_of_some ?_
      by_contra hnone
      rw [mem_children, markList, Option.not_isSome_iff_eq_none.mp hnone] at hchild
      cases hchild
    have hpL : p ∈ L := (hmemL p).mpr ⟨hpgc, hsource⟩
    have hmark : JSValue.object q ∈ L.flatMap (markList u) := by
      refine List.mem_flatMap.mpr ⟨p, hpL, ?_⟩
      rw [hend.marks p (hkept p hpL)]
      exact mem_children.mp hchild
    have hle := hend.owned.marks_le_tally hL (fun p hp => ?_) (.object q)
    · have := List.count_pos_iff.mpr hmark
      have hcount := hend.counted.count (.object q) rfl
      omega
    · rw [show u.next = rt.next from hend.shrinks.next]
      exact h.gc_lt ((hmemL p).mp hp).1

/-- The objects that are left: those that have not been garbage. -/
def survivors (rt : JSRuntime) (T : List Nat) (q : Nat) : Option JSObject :=
  if q ∈ T then none else rt.objects q

theorem Cycles.emptied (hend : Cycles rt u L T [] pend lost) (q : Nat) :
    survivors rt T q = u.objects q ∨ Emptied (u.objects q) ∧ Emptied (survivors rt T q) := by
  unfold survivors
  by_cases hq : q ∈ T
  · refine .inr ⟨?_, .inl (by simp [hq])⟩
    rcases hend.objects_done q hq with hz | ⟨hnone, -⟩
    · exact .inr (hend.zombies q hz).2
    · exact .inl hnone
  · exact .inl (by rw [if_neg hq, hend.objects_kept q hq])

/-- Freeing the memory of the emptied objects changes nothing but the objects. -/
theorem Cycles.free_eq (hend : Cycles rt u L T [] pend lost)
    (hfreed : ∀ z ∈ T, u.refCount (.object z) = 0) :
    { u.gcZeroRefCountList.foldl jsFreeRtObject u with gcZeroRefCountList := [] } =
      { u with objects := survivors rt T, gcZeroRefCountList := [] } := by
  have hobjects : (fun q => if q ∈ u.gcZeroRefCountList then none else u.objects q) =
      survivors rt T := by
    funext q
    unfold survivors
    by_cases hq : q ∈ T
    · rcases hend.objects_done q hq with hz | ⟨hnone, -⟩
      · simp [hz, hq]
      · simp [hq, hnone]
    · have hz : q ∉ u.gcZeroRefCountList := fun hz => hq (hend.zombies q hz).1
      simp [hz, hq, hend.objects_kept q hq]
  have hrefs : (fun v : JSValue => if v.objectAddr.any (· ∈ u.gcZeroRefCountList) then 0
      else u.refCount v) = u.refCount := by
    funext v
    cases v with
    | object q =>
      simp only [JSValue.objectAddr, Option.any_some, decide_eq_true_eq]
      split_ifs with hz
      · exact (hfreed q (hend.zombies q hz).1).symm
      · rfl
    | _ => simp [JSValue.objectAddr]
  rw [foldl_jsFreeRtObject, hobjects, hrefs]

/-- The survivors are the objects on the list `L`. -/
theorem survivors_isSome (h : Ready rt pend lost)
    (hmemL : ∀ q, q ∈ L ↔ q ∈ rt.gcObjList ∧ Reachable rt q)
    (hmemT : ∀ q, q ∈ T ↔ q ∈ rt.gcObjList ∧ ¬ Reachable rt q) (q : Nat) :
    (survivors rt T q).isSome ↔ q ∈ L := by
  unfold survivors
  constructor
  · intro hsome
    split_ifs at hsome with hq
    · cases hsome
    · have hqgc := h.mem_gc_of_some hsome
      rw [hmemT] at hq
      exact (hmemL q).mpr ⟨hqgc, by_contra fun hn => hq ⟨hqgc, hn⟩⟩
  · intro hq
    rw [if_neg fun hqT => ((hmemT q).mp hqT).2 ((hmemL q).mp hq).2]
    exact h.linked.alloc q ((h.linked.mem_gc q).mp ((hmemL q).mp hq).1)

/-- Once all garbage is emptied its memory can be freed: nothing refers to it any more. -/
theorem Cycles.finish (hend : Cycles rt u L T [] pend lost)
    (h : Ready rt pend lost) (hT : T.Nodup) (hL : L.Nodup)
    (hmemL : ∀ q, q ∈ L ↔ q ∈ rt.gcObjList ∧ Reachable rt q)
    (hmemT : ∀ q, q ∈ T ↔ q ∈ rt.gcObjList ∧ ¬ Reachable rt q)
    (hgarbage : ∀ z ∈ T, rt.tally (.object z) = (T.flatMap (children rt)).count z ∧
      pend.count (.object z) = 0 ∧ lost (.object z) = 0) :
    let rt' := { u.gcZeroRefCountList.foldl jsFreeRtObject u with gcZeroRefCountList := [] }
    Ready rt' pend lost ∧ Shrinks rt rt' ∧
      ∀ p, (Reachable rt p → rt'.objects p = rt.objects p) ∧
        (¬ Reachable rt p → rt'.objects p = none) := by
  have hfreed := hend.freed hgarbage
  have halive := survivors_isSome h hmemL hmemT
  have hcounted : ∀ q, 0 < u.refCount (.object q) ↔ q ∈ L := by
    intro q
    refine ⟨fun hq => ?_, hend.kept_pos h hT hL hmemL hmemT q⟩
    have hle := hend.count_le (.object q) rfl
    have hqgc := (h.linked.mem_gc q).mpr (hq.trans_le hle)
    refine (hmemL q).mpr ⟨hqgc, by_contra fun hn => ?_⟩
    have := hfreed q ((hmemT q).mpr ⟨hqgc, hn⟩)
    omega
  have htally : ∀ v, { u with objects := survivors rt T, gcZeroRefCountList := [] }.tally v =
      u.tally v := by
    intro v
    have hobj := tally_of_emptied hend.emptied u.next v
    simp only [JSRuntime.tally, JSRuntime.jobSlots]
    omega
  have hs := hend.shrinks
  rw [hend.free_eq hfreed]
  refine ⟨⟨⟨fun v hv => ?_, hend.counted.strings, hend.counted.unused⟩,
    ⟨?_, List.nodup_nil, fun q => ?_, fun q => ?_, fun q hq => ?_⟩, ?_, rfl, hend.tmp,
    fun q hq => ?_⟩, ?_, fun q => ⟨fun hq => ?_, fun hq => ?_⟩⟩
  · rw [htally]; exact hend.counted.count v hv
  · exact hend.gc ▸ hL
  · rw [hcounted, ← hend.gc]
  · simp only [List.not_mem_nil, false_iff, not_and]
    intro hsome
    have := (hcounted q).mpr ((halive q).mp hsome)
    omega
  · exact (halive q).mpr ((hcounted q).mp hq)
  · refine hend.owned.of_pointers (Nat.le_refl _) (fun q hq => ?_)
      (opaqueOf_of_emptied hend.emptied) rfl rfl
    exact (h.gc_lt ((hmemL q).mp ((halive q).mp hq)).1).trans_eq hs.next.symm
  · exact hend.unmarked q (hend.gc ▸ hq)
  · refine ⟨hs.next, hs.jobList, hs.running, hs.stack, hs.events, hs.log, hs.currentException,
      fun q => ?_, hs.timers, hs.sockets⟩
    change survivors rt T q = _ ∨ survivors rt T q = none
    unfold survivors
    split_ifs
    · exact .inr rfl
    · exact .inl rfl
  · exact if_neg fun hqT => ((hmemT q).mp hqT).2 hq
  · refine Option.not_isSome_iff_eq_none.mp fun hsome => ?_
    exact hq ((hmemL q).mp ((halive q).mp hsome)).2

end Finish

/-- The collector frees the unreachable objects and no others, and keeps the accounts. -/
theorem Ready.collect (h : Ready rt pend lost) (hsafe : GcSafe rt) :
    Ready (jsRunGC rt) pend lost ∧ Shrinks rt (jsRunGC rt) ∧
      ∀ p, (Reachable rt p → (jsRunGC rt).objects p = rt.objects p) ∧
        (¬ Reachable rt p → (jsRunGC rt).objects p = none) := by
  obtain ⟨L, T, m, hscan, hL, hT, hmemL, hmemT, hmarks⟩ := h.scannable.scan
  have hgarbage := fun z hz => h.garbage_counts (z := z) hT hmemT hz
  have hinit : Cycles rt { rt with gcObjList := L, tmpObjList := T, mark := m } L [] T pend
      lost := by
    refine ⟨⟨h.counted.count, h.counted.strings, h.counted.unused⟩,
      ⟨h.owned.1, h.owned.2, h.owned.3, h.owned.4, h.owned.5, h.owned.6, h.owned.7, h.owned.8,
        h.owned.9, h.owned.10⟩, rfl, rfl,
      ⟨rfl, rfl, rfl, rfl, rfl, rfl, rfl, fun _ => .inl rfl, fun _ => .inl rfl, fun _ => .inl rfl⟩,
      fun _ _ => rfl, by simp, by simp [h.zero], fun _ _ => rfl, fun z hz => ?_, by simp,
      fun _ _ => Nat.le_refl _, hmarks⟩
    exact (hgarbage z (by simpa using hz)).1
  have hend := hinit.foldl h hsafe hmemL (by simpa using fun q hq => (hmemT q).mp hq)
    (by simpa using hT)
  rw [List.nil_append] at hend
  unfold jsRunGC gcFreeCycles
  rw [hscan]
  dsimp only
  generalize T.foldl (freeObject .removeCycles)
    { rt with gcObjList := L, tmpObjList := T, mark := m } = u at hend ⊢
  exact hend.finish h hT hL hmemL hmemT hgarbage

end RunGC

end IoQuickJS
