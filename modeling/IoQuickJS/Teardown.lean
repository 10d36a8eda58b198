import IoQuickJS.Balance

/-!
# Teardown

JS_FreeRuntime gives back the references of the embedding program and of the job list and runs a
collection. What is still allocated then is what a lost reference keeps, and the timer records
that no object will free: those with an active alarm, and those whose event is still to come.
-/
namespace IoQuickJS

open Function (update update_self update_of_ne)
open Reach (not_reachable_of_no_root)

/-- Nothing of the runtime is left: no object, no string, no record (so no alarm either) and no
job. -/
structure TornDown (rt : JSRuntime) : Prop where
  objects : ∀ p, rt.objects p = none
  strings : ∀ p, rt.strings p = none
  timers : ∀ r, rt.timers r = none
  sockets : ∀ r, rt.sockets r = none
  jobList : rt.jobList = []
  running : rt.running = none

/-- No job is running, no reference has been lost, and every timer record belongs to an object
and has no active alarm. -/
structure StopsClean (rt : JSRuntime) : Prop where
  running : rt.running = none
  balanced : Balanced rt
  timers : ∀ r tmr, rt.timers r = some tmr → tmr.hasObject ∧ tmr.alarm = false

/-- The part of `jsFreeRuntime` before the collection. -/
def released (rt : JSRuntime) : JSRuntime :=
  let rt := rt.stack.foldl jsFreeValueRT { rt with stack := [] }
  (rt.jobList.flatMap JSJobEntry.argv).foldl jsFreeValueRT { rt with jobList := [] }

theorem jsFreeRuntime_eq (rt : JSRuntime) : jsFreeRuntime rt = jsRunGC (released rt) := rfl

section Released

variable {rt : JSRuntime} {pend : List JSValue} {lost : JSValue → Nat}

theorem Ready.popAll (h : Ready rt pend lost) :
    Ready { rt with stack := [] } (rt.stack ++ pend) lost := by
  refine h.reshape ⟨⟨rfl, fun _ => rfl, fun _ => rfl, fun _ => rfl⟩, rfl, rfl, rfl, rfl, rfl, rfl⟩
    fun v _ => ?_
  simp only [JSRuntime.tally, JSRuntime.jobSlots, List.count_nil, List.count_append]
  omega

theorem Ready.dropJobs (h : Ready rt pend lost) :
    Ready { rt with jobList := [] } (rt.jobList.flatMap JSJobEntry.argv ++ pend) lost := by
  refine h.reshape ⟨⟨rfl, fun _ => rfl, fun _ => rfl, fun _ => rfl⟩, rfl, rfl, rfl, rfl, rfl, rfl⟩
    fun v _ => ?_
  simp only [JSRuntime.tally, JSRuntime.jobSlots, List.flatMap_nil, List.count_nil,
    List.count_append]
  omega

theorem Ready.releaseAll (h : Ready rt pend lost) :
    Ready (released rt) pend lost ∧
      Shrinks { rt with stack := [], jobList := [] } (released rt) := by
  obtain ⟨hstack, hpops⟩ := h.popAll.foldl_free
  obtain ⟨hjobs, hdrops⟩ := hstack.dropJobs.foldl_free
  refine ⟨hjobs, Shrinks.trans ?_ hdrops⟩
  exact ⟨hpops.next, rfl, hpops.running, hpops.stack, hpops.events, hpops.log,
    hpops.currentException, hpops.objects, hpops.timers, hpops.sockets⟩

/-- When every record belongs to an object and nothing else holds a reference, all references
are marked ones. -/
theorem Ready.tally_le_marks (h : Ready rt pend lost) (hstack : rt.stack = [])
    (hjobs : rt.jobList = []) (hrunning : rt.running = none)
    (htimers : ∀ r tmr, rt.timers r = some tmr → tmr.hasObject) {v : JSValue}
    (hv : v.hasRefCount) : rt.tally v ≤ (rt.gcObjList.flatMap (markList rt)).count v := by
  have hgc : ∀ p cls r, rt.opaqueOf p cls = some r → p ∈ rt.gcObjList := by
    intro p cls r hp
    refine h.mem_gc_of_some ?_
    by_contra hnone
    simp [JSRuntime.getOpaque, Option.not_isSome_iff_eq_none.mp hnone] at hp
  have hobjects := Ledger.tally_le_sum_bind (n := rt.next) (t := rt.objects) JSObject.prop v
    rt.gcObjList some fun p hp => ⟨p, h.mem_gc_of_some hp, rfl⟩
  have hrecords := Ledger.tally_le_sum_bind (n := rt.next) (t := rt.timers) JSIOTimer.slots v
    rt.gcObjList (fun p => rt.opaqueOf p .ioTimer) fun r hr => by
      obtain ⟨tmr, ht⟩ := Option.isSome_iff_exists.mp hr
      obtain ⟨p, hp⟩ := h.owned.timer_object r tmr ht (htimers r tmr ht)
      exact ⟨p, hgc p _ r hp, hp⟩
  have hsockets := Ledger.tally_le_sum_bind (n := rt.next) (t := rt.sockets) IoJsIoSocket.slots v
    rt.gcObjList (fun p => rt.opaqueOf p .ioSocket) fun r hr => by
      obtain ⟨p, hp⟩ := h.owned.socket_object r hr
      exact ⟨p, hgc p _ r hp, hp⟩
  have hresolve : (rt.gcObjList.map fun p => Ledger.entry JSIOTimer.slots v
      ((rt.opaqueOf p .ioTimer).bind rt.timers)) =
      rt.gcObjList.map fun p => Ledger.entry (fun tmr : JSIOTimer => [tmr.resolve]) v
        ((rt.opaqueOf p .ioTimer).bind rt.timers) := by
    refine List.map_congr_left fun p _ => ?_
    cases hp : rt.opaqueOf p .ioTimer with
    | none => rfl
    | some r =>
      obtain ⟨tmr, ht, hhas⟩ := h.owned.timer_record p r hp
      have hne := JSValue.undefined_ne hv
      simp [ht, JSIOTimer.slots, h.owned.timer_reject r tmr ht hhas, List.count_cons, hne]
  rw [count_flatMap_markList, ← hresolve]
  unfold JSRuntime.tally JSRuntime.jobSlots
  rw [hstack, hjobs, hrunning]
  simp only [Option.bind_some] at hobjects
  simp only [List.count_nil, List.flatMap_nil, Option.elim_none]
  omega

/-- Then nothing is reachable. -/
theorem Ready.unreachable (h : Ready rt [] fun _ => 0) (hstack : rt.stack = [])
    (hjobs : rt.jobList = []) (hrunning : rt.running = none)
    (htimers : ∀ r tmr, rt.timers r = some tmr → tmr.hasObject) (p : Nat) : ¬ Reachable rt p := by
  refine not_reachable_of_no_root (fun q => ?_) p
  have hle := h.tally_le_marks hstack hjobs hrunning htimers (v := .object q) rfl
  have hcount := h.counted.count (.object q) rfl
  unfold externals
  rw [count_flatMap_children]
  simp only [List.count_nil] at hcount
  omega

/-! ## The collection at the end -/

/-- The record of a pending timer. -/
def PendingRecord (rt : JSRuntime) (r : Nat) : Prop := ∃ tmr, rt.timers r = some tmr ∧ tmr.alarm

theorem freeObject_pending (ph : GCPhase) {r : Nat} (h : PendingRecord rt r) (p : Nat) :
    PendingRecord (freeObject ph rt p) r := by
  obtain ⟨tmr, ht, halarm⟩ := h
  cases ho : rt.objects p with
  | none => exact ⟨tmr, by simpa [freeObject, ho] using ht, halarm⟩
  | some o =>
    have hfinal : ∃ tmr', finalTimers rt (o.opaqueAs .ioTimer) r = some tmr' ∧ tmr'.alarm := by
      cases hptr : o.opaqueAs .ioTimer with
      | none => exact ⟨tmr, ht, halarm⟩
      | some q =>
        by_cases hq : r = q
        · subst hq
          simp [finalTimers, ht, halarm]
        · cases hother : rt.timers q with
          | none => exact ⟨tmr, by simpa [finalTimers, hother] using ht, halarm⟩
          | some other => exact ⟨tmr, by simp [finalTimers, hother, hq, ht], halarm⟩
    have htimers : (freeObject ph rt p).timers = finalTimers rt (o.opaqueAs .ioTimer) := by
      rw [freeObject_eq ho]
      dsimp only
      split_ifs <;> exact (spill_countsOnly ph rt p o).timers
    rw [PendingRecord, htimers]
    exact hfinal

theorem foldl_jsFreeRtObject_timers (ps : List Nat) (rt : JSRuntime) :
    (ps.foldl jsFreeRtObject rt).timers = rt.timers := by
  induction ps generalizing rt with
  | nil => rfl
  | cons p ps ih => exact ih _

/-- No collection frees the record of a pending timer, whatever it does otherwise. -/
theorem jsRunGC_pending (h : Ready rt pend lost) {r : Nat} (hr : PendingRecord rt r) :
    PendingRecord (jsRunGC rt) r := by
  obtain ⟨L, T, m, hscan, -⟩ := h.scannable.scan
  have hfold : ∀ (ps : List Nat) (u : JSRuntime), PendingRecord u r →
      PendingRecord (ps.foldl (freeObject .removeCycles) u) r := by
    intro ps
    induction ps with
    | nil => exact fun _ hu => hu
    | cons p ps ih => exact fun u hu => ih _ (freeObject_pending .removeCycles hu p)
  obtain ⟨tmr, ht, halarm⟩ := hfold T { rt with gcObjList := L, tmpObjList := T, mark := m } hr
  refine ⟨tmr, ?_, halarm⟩
  unfold jsRunGC gcFreeCycles
  rw [hscan]
  dsimp only
  rw [foldl_jsFreeRtObject_timers]
  exact ht

end Released

section Stop

variable {rt : JSRuntime} {lost : JSValue → Nat}

theorem TornDown.tally (h : TornDown rt) (hstack : rt.stack = []) (v : JSValue) :
    rt.tally v = 0 := by
  obtain ⟨hobjects, -, htimers, hsockets, hjobs, hrunning⟩ := h
  simp [JSRuntime.tally, JSRuntime.jobSlots, hstack, hjobs, hrunning, funext hobjects,
    funext htimers, funext hsockets]

/-- What the collection leaves when everything is in order. -/
theorem Ready.tornDown (h : Ready rt [] fun _ => 0) (hstops : StopsClean rt) :
    TornDown (jsFreeRuntime rt) := by
  rw [jsFreeRuntime_eq]
  obtain ⟨hready, hshrinks⟩ := h.releaseAll
  have htimers : ∀ r tmr, (released rt).timers r = some tmr →
      tmr.hasObject ∧ tmr.alarm = false := by
    intro r tmr ht
    rcases hshrinks.timers r with hsame | ⟨old, hold, -, ⟨hpending, -⟩ | ⟨-, hnone⟩⟩
    · exact hstops.timers r tmr (hsame ▸ ht)
    · simp [(hstops.timers r old hold).2] at hpending
    · simp [hnone] at ht
  have hsafe : GcSafe (released rt) := fun p r tmr f _ ht halarm => by
    simp [(htimers r tmr ht).2] at halarm
  have hrunning : (released rt).running = none := hshrinks.running.trans hstops.running
  have hunreachable := hready.unreachable hshrinks.stack hshrinks.jobList hrunning
    fun r tmr ht => (htimers r tmr ht).1
  obtain ⟨hend, hfreed, hobjects⟩ := hready.collect hsafe
  have hnone : ∀ p, (jsRunGC (released rt)).objects p = none := fun p =>
    (hobjects p).2 (hunreachable p)
  have hptr : ∀ p cls, (jsRunGC (released rt)).opaqueOf p cls = none := fun p cls => by
    simp [JSRuntime.getOpaque, hnone p]
  have hrecords : ∀ r, (jsRunGC (released rt)).timers r = none := by
    intro r
    cases ht : (jsRunGC (released rt)).timers r with
    | none => rfl
    | some tmr =>
      rcases hfreed.timers r with hsame | ⟨old, hold, -, ⟨hpending, -⟩ | ⟨-, hgone⟩⟩
      · obtain ⟨p, hp⟩ := hend.owned.timer_object r tmr ht (htimers r tmr (hsame ▸ ht)).1
        simp [hptr] at hp
      · simp [(htimers r old hold).2] at hpending
      · simp [hgone] at ht
  have hsockets : ∀ r, (jsRunGC (released rt)).sockets r = none := by
    intro r
    by_contra hsome
    obtain ⟨p, hp⟩ := hend.owned.socket_object r (Option.isSome_iff_ne_none.mpr hsome)
    simp [hptr] at hp
  have hjobs := hfreed.jobList.trans hshrinks.jobList
  refine ⟨hnone, fun p => ?_, hrecords, hsockets, hjobs, hfreed.running.trans hrunning⟩
  -- no slot is left, so no string is counted
  have htally : (jsRunGC (released rt)).tally (.string p) = 0 := by
    simp [JSRuntime.tally, JSRuntime.jobSlots, hfreed.stack.trans hshrinks.stack, hjobs,
      hfreed.running.trans hrunning, funext hnone, funext hrecords, funext hsockets]
  have hcount := hend.counted.count (.string p) rfl
  by_contra hsome
  have hpos := (hend.counted.strings p).mp (Option.isSome_iff_ne_none.mpr hsome)
  simp only [List.count_nil] at hcount
  omega

/-- A record that no object will free is still there after teardown. -/
theorem Ready.record_left (h : Ready rt [] lost) {r : Nat} {tmr : JSIOTimer}
    (ht : rt.timers r = some tmr) (hkept : tmr.hasObject = false ∨ tmr.alarm) :
    ∃ q, (jsFreeRuntime rt).timers q ≠ none := by
  rw [jsFreeRuntime_eq]
  obtain ⟨hready, hshrinks⟩ := h.releaseAll
  have hleft : ∀ {a b : JSRuntime}, Shrinks a b → a.timers r = some tmr → ∃ tmr',
      b.timers r = some tmr' ∧ (tmr'.hasObject = false ∨ tmr'.alarm) := by
    intro a b hab ha
    rcases hab.timers r with hsame | ⟨old, hold, hhas, ⟨halarm, hnew⟩ | ⟨halarm, -⟩⟩
    · exact ⟨tmr, hsame ▸ ha, hkept⟩
    · exact ⟨_, hnew, .inl rfl⟩
    · obtain rfl : tmr = old := Option.some.inj (ha.symm.trans hold)
      simp [hhas, halarm] at hkept
  by_cases hpending : ∃ q, PendingRecord (released rt) q
  · obtain ⟨q, hq⟩ := hpending
    obtain ⟨tmr', hq', -⟩ := jsRunGC_pending hready hq
    exact ⟨q, by simp [hq']⟩
  · have hsafe : GcSafe (released rt) := fun p q t f _ htq halarm =>
      absurd ⟨q, t, htq, halarm⟩ hpending
    obtain ⟨-, hfreed, -⟩ := hready.collect hsafe
    obtain ⟨tmr', ht', hkept'⟩ := hleft hshrinks ht
    rcases hfreed.timers r with hsame | ⟨old, hold, hhas, ⟨halarm, -⟩ | ⟨halarm, -⟩⟩
    · exact ⟨r, by simp [hsame, ht']⟩
    · exact absurd ⟨r, old, hold, halarm⟩ hpending
    · obtain rfl : tmr' = old := Option.some.inj (ht'.symm.trans hold)
      simp [hhas, halarm] at hkept'

/-- What is lost is still allocated after teardown. -/
theorem Ready.stopsClean (h : Ready rt [] lost) (htorn : TornDown (jsFreeRuntime rt)) :
    StopsClean rt := by
  have htimers : ∀ r tmr, rt.timers r = some tmr → tmr.hasObject ∧ tmr.alarm = false := by
    intro r tmr ht
    by_contra hkept
    obtain ⟨q, hq⟩ := h.record_left ht (by grind)
    exact hq (htorn.timers q)
  obtain ⟨hready, hshrinks⟩ := h.releaseAll
  have hsafe : GcSafe (released rt) := by
    intro p r tmr f _ ht halarm
    rcases hshrinks.timers r with hsame | ⟨old, hold, -, ⟨hpending, -⟩ | ⟨-, hnone⟩⟩
    · simp [(htimers r tmr (hsame ▸ ht)).2] at halarm
    · simp [(htimers r old hold).2] at hpending
    · simp [hnone] at ht
  obtain ⟨hend, hfreed, -⟩ := hready.collect hsafe
  rw [← jsFreeRuntime_eq] at hend hfreed
  refine ⟨(hfreed.running.trans hshrinks.running).symm.trans htorn.running, fun v hv => ?_, htimers⟩
  -- nothing is allocated any more, so nothing is counted
  have hcounted : (jsFreeRuntime rt).refCount v = 0 := by
    cases v with
    | string p =>
      by_contra hpos
      have := (hend.counted.strings p).mpr (Nat.pos_of_ne_zero hpos)
      simp [htorn.strings] at this
    | object p =>
      by_contra hpos
      have := hend.linked.alloc p (Nat.pos_of_ne_zero hpos)
      simp [htorn.objects] at this
    | _ => cases hv
  have hlost := hend.counted.count v hv
  rw [hcounted, htorn.tally (hfreed.stack.trans hshrinks.stack)] at hlost
  have hcount := h.counted.count v hv
  simp only [List.count_nil] at hcount hlost
  omega

end Stop

/-- Runs whose steps lose no reference stay balanced. -/
theorem run_balanced {ls : List Label} {rt : JSRuntime}
    (hmeets : Transition.Meets step (fun rt l => CollectsSafely rt l ∧ Leakless rt l)
      jsNewRuntime ls)
    (hrun : Transition.run step jsNewRuntime ls = some rt) : Balanced rt := by
  obtain ⟨hsound, -⟩ := run_leakless (I := fun _ => True) trivial (fun _ _ _ hc => hc) hmeets
    (fun _ _ _ _ _ _ _ _ _ => trivial) hrun
  exact fun v hv => by simpa using hsound.ready.counted.count v hv

/-- Wherever a run stops, teardown returns everything exactly when the run stopped clean. -/
theorem freeRuntime_tornDown_iff {ls : List Label} {rt : JSRuntime}
    (hmeets : Transition.Meets step CollectsSafely jsNewRuntime ls)
    (hrun : Transition.run step jsNewRuntime ls = some rt) :
    TornDown (jsFreeRuntime rt) ↔ StopsClean rt := by
  obtain ⟨⟨lost, hsound⟩, -⟩ := run_changes (I := fun _ => True) trivial (fun _ _ _ hc => hc)
    hmeets (fun _ _ _ _ _ _ _ _ _ => trivial) hrun
  refine ⟨hsound.ready.stopsClean, fun hstops => Ready.tornDown ?_ hstops⟩
  refine (hsound.lossless fun v hv => ?_).ready
  have hcount := hsound.ready.counted.count v hv
  rw [hstops.balanced v hv] at hcount
  simp only [List.count_nil] at hcount
  omega

/-- The run stops with a promise outstanding and a job queued for another socket. -/
def stoppedWithJob : List Label :=
  [.newSocket 0 true, .gets (.object 1) true, .newSocket 1 true, .newObject .function,
    .setReceive (.object 6) (.object 8),
    .receive 7 (.encoding (some [104, 105])) (fun _ => 0) []]

theorem freeRuntime_tornDown_withJob :
    ∃ rt, Transition.run step jsNewRuntime stoppedWithJob = some rt ∧
      TornDown (jsFreeRuntime rt) := by
  have hmeets : Transition.Meets step (fun rt l => CollectsSafely rt l ∧ Leakless rt l)
      jsNewRuntime stoppedWithJob :=
    Transition.meets_of_forall fun _ l hl => by
      simp only [stoppedWithJob, List.mem_cons, List.not_mem_nil, or_false] at hl
      rcases hl with rfl | rfl | rfl | rfl | rfl | rfl <;> exact ⟨nofun, by simp [Leakless]⟩
  refine ⟨_, rfl, (freeRuntime_tornDown_iff (hmeets.mono fun _ _ hc => hc.1) rfl).mpr ?_⟩
  exact ⟨rfl, run_balanced hmeets rfl, fun r tmr ht => by cases ht⟩

/-- The run stops while a timer is pending. -/
def stoppedWithTimer : List Label :=
  [.newObject .function, .setTimeout (.object 1) true true true]

theorem freeRuntime_timerLeft : ¬ ∀ ls rt, Transition.run step jsNewRuntime ls = some rt →
    TornDown (jsFreeRuntime rt) := by
  intro h
  have hend : (Transition.run step jsNewRuntime stoppedWithTimer).map
      (fun rt => ((jsFreeRuntime rt).timers 3).map JSIOTimer.alarm) = some (some true) := by decide
  obtain ⟨rt, hrun, hrt⟩ := Option.map_eq_some_iff.mp hend
  simp [(h stoppedWithTimer rt hrun).timers] at hrt

end IoQuickJS
