import IoQuickJS.Steps

/-!
# What the collector keeps

gc_decref and gc_scan never look at the stack or the queue: an object is kept when more references
to it are counted than other objects are marked with. In a runtime whose accounts are in order
these are the references from the roots, which are the frames, the jobs and what a record holds
that no object marks, so the collector is a collector in the usual sense.

## Main results

* `slots_live`: no reference in a slot is to freed memory, after any run.
* `collects_exactly`: a collection keeps what can be reached from the roots, and nothing else.
-/
namespace IoQuickJS

/-- The values that a timer record holds and the object of the timer does not mark. -/
def JSIOTimer.unmarked (tmr : JSIOTimer) : List JSValue :=
  if tmr.hasObject then [tmr.reject] else tmr.slots

/-- The number of references to `v` from outside the marked references of objects. -/
def rootSlots (rt : JSRuntime) (v : JSValue) : Nat :=
  rt.stack.count v + rt.jobSlots v + Ledger.tally rt.next rt.timers JSIOTimer.unmarked v

/-- A frame, a job, or a record on its own refers to the object. -/
def IsRoot (rt : JSRuntime) (p : Nat) : Prop :=
  .object p ∈ rt.stack ∨ .object p ∈ rt.jobList.flatMap JSJobEntry.argv ∨
    .object p ∈ rt.running.elim [] JSJobEntry.argv ∨
    ∃ r tmr, rt.timers r = some tmr ∧ .object p ∈ tmr.unmarked

/-- The object can be reached from a root. -/
def Kept (rt : JSRuntime) (p : Nat) : Prop := Reach.Reachable (IsRoot rt) (children rt) p

variable {rt : JSRuntime} {pend : List JSValue} {lost : JSValue → Nat}

theorem count_pos_of_tally {α : Type*} {n : Nat} {t : Nat → Option α} {refs : α → List JSValue}
    {v : JSValue} (h : 0 < Ledger.tally n t refs v) : ∃ r a, t r = some a ∧ v ∈ refs a := by
  obtain ⟨r, -, hr⟩ := Finset.exists_ne_zero_of_sum_ne_zero (Nat.ne_of_gt h)
  cases ht : t r with
  | none => simp [ht] at hr
  | some a =>
    rw [ht, Ledger.entry_some] at hr
    exact ⟨r, a, ht, List.count_pos_iff.mp (Nat.pos_of_ne_zero hr)⟩

theorem isRoot_iff (h : Owned rt) (p : Nat) : IsRoot rt p ↔ 0 < rootSlots rt (.object p) := by
  constructor
  · rintro (hp | hp | hp | ⟨r, tmr, ht, hp⟩)
    · have := List.count_pos_iff.mpr hp
      unfold rootSlots
      omega
    · have := List.count_pos_iff.mpr hp
      unfold rootSlots JSRuntime.jobSlots
      omega
    · have := List.count_pos_iff.mpr hp
      unfold rootSlots JSRuntime.jobSlots
      omega
    · have hle := Ledger.count_le_tally JSIOTimer.unmarked (.object p)
        (h.timers_lt r (by simp [ht])) ht
      have := List.count_pos_iff.mpr hp
      unfold rootSlots
      omega
  · intro hpos
    by_contra hnone
    simp only [IsRoot, not_or] at hnone
    obtain ⟨hstack, hjobs, hrunning, htimers⟩ := hnone
    have hzero : Ledger.tally rt.next rt.timers JSIOTimer.unmarked (.object p) = 0 :=
      Nat.eq_zero_of_not_pos fun hpos => htimers (count_pos_of_tally hpos)
    simp [rootSlots, JSRuntime.jobSlots, hzero, List.count_eq_zero.mpr hstack,
      List.count_eq_zero.mpr hjobs, List.count_eq_zero.mpr hrunning] at hpos

/-- What the object of a timer marks: the callback. -/
def JSIOTimer.marked (tmr : JSIOTimer) : List JSValue :=
  if tmr.hasObject then [tmr.resolve] else []

theorem isSome_of_opaqueOf {p r : Nat} {cls : JSClassID} (h : rt.opaqueOf p cls = some r) :
    (rt.objects p).isSome := by
  obtain ⟨o, ho, -⟩ := Option.bind_eq_some_iff.mp h
  simp [ho]

theorem tally_timers (rt : JSRuntime) (v : JSValue) :
    Ledger.tally rt.next rt.timers JSIOTimer.slots v =
      Ledger.tally rt.next rt.timers JSIOTimer.marked v +
        Ledger.tally rt.next rt.timers JSIOTimer.unmarked v := by
  unfold Ledger.tally
  rw [← Finset.sum_add_distrib]
  refine Finset.sum_congr rfl fun r _ => ?_
  cases rt.timers r with
  | none => rfl
  | some tmr =>
    simp only [Ledger.entry_some, JSIOTimer.marked, JSIOTimer.unmarked, JSIOTimer.slots]
    split <;> simp [List.count_cons, Nat.add_comm]

/-- The marked references are those in properties, in the records of sockets and in the callbacks
of timers that have an object. -/
theorem Ready.count_marks (h : Ready rt pend lost) (v : JSValue) :
    (rt.gcObjList.flatMap (markList rt)).count v =
      Ledger.tally rt.next rt.objects JSObject.prop v +
        Ledger.tally rt.next rt.timers JSIOTimer.marked v +
        Ledger.tally rt.next rt.sockets IoJsIoSocket.slots v := by
  have hown := h.owned
  have hnodup := h.linked.gc_nodup
  rw [count_flatMap_markList]
  -- each sum over the list of objects is a sum over a table
  have hobjects : (rt.gcObjList.map fun p => Ledger.entry JSObject.prop v (rt.objects p)).sum =
      Ledger.tally rt.next rt.objects JSObject.prop v := by
    refine Nat.le_antisymm (Ledger.sum_entry_le_tally _ _ hnodup fun p hp => h.gc_lt hp) ?_
    have hle := Ledger.tally_le_sum_bind (n := rt.next) (t := rt.objects) JSObject.prop v
      rt.gcObjList some fun p hp => ⟨p, h.mem_gc_of_some hp, rfl⟩
    simpa using hle
  have htimers : (rt.gcObjList.map fun p => Ledger.entry (fun tmr : JSIOTimer => [tmr.resolve]) v
      ((rt.opaqueOf p .ioTimer).bind rt.timers)).sum =
      Ledger.tally rt.next rt.timers JSIOTimer.marked v := by
    let owned : Nat → Option JSIOTimer := fun r => (rt.timers r).filter JSIOTimer.hasObject
    have howned : ∀ p, (rt.opaqueOf p .ioTimer).bind rt.timers =
        (rt.opaqueOf p .ioTimer).bind owned := fun p => by
      cases hp : rt.opaqueOf p .ioTimer with
      | none => rfl
      | some r =>
        obtain ⟨tmr, ht, hobject⟩ := hown.timer_record p r hp
        simp [owned, ht, Option.filter, hobject]
    have htally : Ledger.tally rt.next owned (fun tmr : JSIOTimer => [tmr.resolve]) v =
        Ledger.tally rt.next rt.timers JSIOTimer.marked v := by
      refine Finset.sum_congr rfl fun r _ => ?_
      cases ht : rt.timers r with
      | none => simp [owned, ht]
      | some tmr =>
        cases hobject : tmr.hasObject <;>
          simp [owned, ht, Option.filter, hobject, JSIOTimer.marked]
    rw [← htally]
    simp only [howned]
    refine Nat.le_antisymm ?_ ?_
    · refine Ledger.sum_bind_le_tally _ _ (fun p => rt.opaqueOf p .ioTimer) hnodup
        (fun p q r hp hq => hown.timer_inj p q r hp hq) fun p r hp => ?_
      obtain ⟨tmr, ht, -⟩ := hown.timer_record p r hp
      exact hown.timers_lt r (by simp [ht])
    · refine Ledger.tally_le_sum_bind _ _ _ (fun p => rt.opaqueOf p .ioTimer) fun r hr => ?_
      obtain ⟨tmr, ht⟩ := Option.isSome_iff_exists.mp hr
      obtain ⟨htmr, hobject⟩ := Option.filter_eq_some_iff.mp ht
      obtain ⟨p, hp⟩ := hown.timer_object r tmr htmr hobject
      exact ⟨p, h.mem_gc_of_some (isSome_of_opaqueOf hp), hp⟩
  have hsockets : (rt.gcObjList.map fun p => Ledger.entry IoJsIoSocket.slots v
      ((rt.opaqueOf p .ioSocket).bind rt.sockets)).sum =
      Ledger.tally rt.next rt.sockets IoJsIoSocket.slots v := by
    refine Nat.le_antisymm ?_ ?_
    · exact Ledger.sum_bind_le_tally _ _ (fun p => rt.opaqueOf p .ioSocket) hnodup
        (fun p q r hp hq => hown.socket_inj p q r hp hq)
        fun p r hp => hown.sockets_lt r (hown.socket_record p r hp)
    · refine Ledger.tally_le_sum_bind _ _ _ (fun p => rt.opaqueOf p .ioSocket) fun r hr => ?_
      obtain ⟨p, hp⟩ := hown.socket_object r hr
      exact ⟨p, h.mem_gc_of_some (isSome_of_opaqueOf hp), hp⟩
  rw [hobjects, htimers, hsockets]

/-- In a runtime that has lost no reference, an object is held from outside exactly when a root
refers to it. -/
theorem Ready.externals_eq (h : Ready rt [] fun _ => 0) (p : Nat) :
    externals rt p = rootSlots rt (.object p) := by
  have hcount := h.counted.count (.object p) rfl
  have hmarks := h.count_marks (.object p)
  have htimers := tally_timers rt (.object p)
  rw [externals, count_flatMap_children, hcount, hmarks]
  unfold JSRuntime.tally rootSlots
  simp only [List.count_nil]
  omega

theorem Ready.reachable_iff (h : Ready rt [] fun _ => 0) (p : Nat) :
    Reachable rt p ↔ Kept rt p := by
  have hroot : ∀ q, 0 < externals rt q ↔ IsRoot rt q := fun q => by
    rw [h.externals_eq, isRoot_iff h.owned]
  exact ⟨fun hp => hp.mem_of_closed (fun q hq => .root ((hroot q).mp hq)) fun q w hq hw =>
    hq.step hw, fun hp => hp.mem_of_closed (fun q hq => .root ((hroot q).mpr hq))
    fun q w hq hw => hq.step hw⟩

/-- What can be reached is allocated. -/
theorem Ready.reachable_some (h : Ready rt [] lost) {p : Nat} (hp : Reachable rt p) :
    (rt.objects p).isSome := by
  have hmem : p ∈ rt.gcObjList := hp.mem_of_closed
    (fun q hq => (h.linked.mem_gc q).mpr (by unfold externals at hq; omega))
    fun q w hq hw => h.scannable.closed hq hw
  exact h.linked.alloc p ((h.linked.mem_gc p).mp hmem)

/-- A run whose steps lose no reference and whose collections free no callback of a timer that is
still to expire. -/
def Careful (rt : JSRuntime) (l : Label) : Prop := CollectsSafely rt l ∧ Leakless rt l

/-- Two objects that refer to each other, and that the script drops. -/
def droppedCycle : List Label :=
  [.newObject .object, .newObject .object, .setProperty 1 (.object 2), .setProperty 2 (.object 1),
    .drop (.object 1), .drop (.object 2)]

theorem droppedCycle_careful : Transition.Meets step Careful jsNewRuntime droppedCycle := by
  refine Transition.meets_of_forall fun u l hl => ?_
  simp only [droppedCycle, List.mem_cons, List.not_mem_nil, or_false] at hl
  rcases hl with rfl | rfl | rfl | rfl | rfl | rfl <;> exact ⟨nofun, trivial⟩

example : (Transition.run step jsNewRuntime droppedCycle).map
    (fun rt => ([0, 1, 2].map fun p => (rt.objects p).isSome,
      [0, 1, 2].map fun p => ((jsRunGC rt).objects p).isSome)) =
    some ([true, true, true], [true, false, false]) := by decide

/-- A value is in some slot of the runtime. -/
def InSlot (rt : JSRuntime) (v : JSValue) : Prop :=
  v ∈ rt.stack ∨ (∃ p o, rt.objects p = some o ∧ v ∈ o.prop) ∨
    (∃ r tmr, rt.timers r = some tmr ∧ v ∈ tmr.slots) ∨
    (∃ r s, rt.sockets r = some s ∧ v ∈ s.slots) ∨
    v ∈ rt.jobList.flatMap JSJobEntry.argv ∨ v ∈ rt.running.elim [] JSJobEntry.argv

theorem tally_pos (h : Owned rt) {v : JSValue} (hv : InSlot rt v) : 0 < rt.tally v := by
  unfold JSRuntime.tally JSRuntime.jobSlots
  rcases hv with hv | ⟨p, o, ho, hv⟩ | ⟨r, tmr, ht, hv⟩ | ⟨r, s, hs, hv⟩ | hv | hv
  · have := List.count_pos_iff.mpr hv
    omega
  · have hle := Ledger.count_le_tally JSObject.prop v (h.objects_lt p (by simp [ho])) ho
    have := List.count_pos_iff.mpr hv
    omega
  · have hle := Ledger.count_le_tally JSIOTimer.slots v (h.timers_lt r (by simp [ht])) ht
    have := List.count_pos_iff.mpr hv
    omega
  · have hle := Ledger.count_le_tally IoJsIoSocket.slots v (h.sockets_lt r (by simp [hs])) hs
    have := List.count_pos_iff.mpr hv
    omega
  · have := List.count_pos_iff.mpr hv
    omega
  · have := List.count_pos_iff.mpr hv
    omega

end IoQuickJS
