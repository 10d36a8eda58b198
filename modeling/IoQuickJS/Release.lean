import IoQuickJS.Accounts

/-!
# Releasing objects keeps the accounts

free_object hands back everything an object and its record hold, and free_zero_refcount ends
with an empty list, so JS_FreeValueRT turns `Ready` with a pending reference into `Ready`
without it. `Shrinks` says what else a release can do: objects and records disappear, a timer
whose alarm is active loses its object instead, and nothing else changes.
-/
namespace IoQuickJS

open Function (update update_self update_of_ne)

/-- The timer table after the finalizer of an object with opaque pointer `a`. -/
def finalTimers (rt : JSRuntime) (a : Option Nat) : Nat → Option JSIOTimer :=
  match a with
  | none => rt.timers
  | some r =>
    match rt.timers r with
    | none => rt.timers
    | some tmr =>
      update rt.timers r (if tmr.alarm then some { tmr with hasObject := false } else none)

/-- The socket table after the finalizer of an object with opaque pointer `a`. -/
def finalSockets (rt : JSRuntime) (a : Option Nat) : Nat → Option IoJsIoSocket :=
  match a with
  | none => rt.sockets
  | some r => update rt.sockets r none

theorem finalTimers_isSome {rt : JSRuntime} {a : Option Nat} {r : Nat}
    (h : (finalTimers rt a r).isSome) : (rt.timers r).isSome := by
  cases a with
  | none => exact h
  | some r' =>
    cases ht : rt.timers r' with
    | none => simpa [finalTimers, ht] using h
    | some tmr =>
      by_cases hr : r = r'
      · simp [hr, ht]
      · simpa [finalTimers, ht, update_of_ne hr] using h

theorem finalSockets_isSome {rt : JSRuntime} {a : Option Nat} {r : Nat}
    (h : (finalSockets rt a r).isSome) : (rt.sockets r).isSome := by
  cases a with
  | none => exact h
  | some r' =>
    by_cases hr : r = r'
    · simp [finalSockets, hr] at h
    · simpa [finalSockets, update_of_ne hr] using h

/-- The runtime a finalizer leaves before it releases what the record held. -/
def finalRuntime (rt : JSRuntime) (o : JSObject) : JSRuntime :=
  { rt with
    timers := finalTimers rt (o.opaqueAs .ioTimer)
    sockets := finalSockets rt (o.opaqueAs .ioSocket)
    panicked := rt.panicked || decide (o.classId = .ioSocket ∧ o.uOpaque = none) }

/-- The values a finalizer releases, in order. -/
def finalReleased (rt : JSRuntime) (o : JSObject) : List JSValue :=
  ((o.opaqueAs .ioTimer).bind rt.timers).elim [] (fun tmr => if tmr.alarm then [] else tmr.slots) ++
    ((o.opaqueAs .ioSocket).bind rt.sockets).elim []
      fun s => [s.asyncGets0, s.asyncGets1, s.receiveCallback]

theorem finalizer_eq (ph : GCPhase) (rt : JSRuntime) (o : JSObject) :
    finalizer ph rt o = (finalReleased rt o).foldl (freeValueIn ph) (finalRuntime rt o) := by
  unfold finalizer finalReleased finalRuntime
  cases hcls : o.classId with
  | ioTimer =>
    cases hop : o.uOpaque with
    | none => simp [JSObject.opaqueAs, hcls, hop, ioJsTimerFinalizer, finalTimers, finalSockets]
    | some r =>
      cases ht : rt.timers r with
      | none =>
        simp [JSObject.opaqueAs, hcls, hop, ht, ioJsTimerFinalizer, finalTimers, finalSockets]
      | some tmr =>
        cases halarm : tmr.alarm <;>
          simp [JSObject.opaqueAs, hcls, hop, ht, halarm, ioJsTimerFinalizer, finalTimers,
            finalSockets, freeIoJsTimer]
  | ioSocket =>
    cases hop : o.uOpaque with
    | none => simp [JSObject.opaqueAs, hcls, hop, jsIoSocketFinalizer, finalTimers, finalSockets]
    | some r =>
      cases hs : rt.sockets r with
      | none =>
        have hsame : update rt.sockets r none = rt.sockets := by rw [← hs, Function.update_eq_self]
        simp [JSObject.opaqueAs, hcls, hop, hs, jsIoSocketFinalizer, finalTimers, finalSockets,
          hsame]
      | some s =>
        simp [JSObject.opaqueAs, hcls, hop, hs, jsIoSocketFinalizer, finalTimers, finalSockets]
  | _ => simp [JSObject.opaqueAs, hcls, finalTimers, finalSockets]

/-! ## What a release can change -/

/-- `rt'` comes from `rt` by freeing objects and running finalizers. -/
structure Shrinks (rt rt' : JSRuntime) : Prop where
  next : rt'.next = rt.next
  jobList : rt'.jobList = rt.jobList
  running : rt'.running = rt.running
  stack : rt'.stack = rt.stack
  events : rt'.events = rt.events
  log : rt'.log = rt.log
  currentException : rt'.currentException = rt.currentException
  objects : ∀ p, rt'.objects p = rt.objects p ∨ rt'.objects p = none
  timers : ∀ r, rt'.timers r = rt.timers r ∨ ∃ tmr, rt.timers r = some tmr ∧ tmr.hasObject ∧
    (tmr.alarm ∧ rt'.timers r = some { tmr with hasObject := false } ∨
      tmr.alarm = false ∧ rt'.timers r = none)
  sockets : ∀ r, rt'.sockets r = rt.sockets r ∨ rt'.sockets r = none

theorem Shrinks.refl (rt : JSRuntime) : Shrinks rt rt :=
  ⟨rfl, rfl, rfl, rfl, rfl, rfl, rfl, fun _ => .inl rfl, fun _ => .inl rfl, fun _ => .inl rfl⟩

/-- What two releases one after the other do to a timer record. -/
theorem timer_shrinks_trans {x y z : Option JSIOTimer}
    (h : y = x ∨ ∃ tmr, x = some tmr ∧ tmr.hasObject ∧
      (tmr.alarm ∧ y = some { tmr with hasObject := false } ∨ tmr.alarm = false ∧ y = none))
    (g : z = y ∨ ∃ tmr, y = some tmr ∧ tmr.hasObject ∧
      (tmr.alarm ∧ z = some { tmr with hasObject := false } ∨ tmr.alarm = false ∧ z = none)) :
    z = x ∨ ∃ tmr, x = some tmr ∧ tmr.hasObject ∧
      (tmr.alarm ∧ z = some { tmr with hasObject := false } ∨ tmr.alarm = false ∧ z = none) := by
  rcases g with hg | ⟨tmr, hb, hhas, hg⟩
  · rwa [hg]
  · rcases h with ha | ⟨old, ha, -, ⟨-, hnew⟩ | ⟨-, hnew⟩⟩
    · exact .inr ⟨tmr, ha ▸ hb, hhas, hg⟩
    · obtain rfl : { old with hasObject := false } = tmr := Option.some.inj (hnew ▸ hb)
      cases hhas
    · simp [hnew] at hb

theorem Shrinks.trans {a b c : JSRuntime} (h : Shrinks a b) (g : Shrinks b c) : Shrinks a c where
  next := g.next.trans h.next
  jobList := g.jobList.trans h.jobList
  running := g.running.trans h.running
  stack := g.stack.trans h.stack
  events := g.events.trans h.events
  log := g.log.trans h.log
  currentException := g.currentException.trans h.currentException
  objects p := by
    rcases g.objects p with hg | hg
    · rw [hg]; exact h.objects p
    · exact .inr hg
  timers r := timer_shrinks_trans (h.timers r) (g.timers r)
  sockets r := by
    rcases g.sockets r with hg | hg
    · rw [hg]; exact h.sockets r
    · exact .inr hg

theorem CountsOnly.shrinks {a b : JSRuntime} (h : CountsOnly a b) : Shrinks a b :=
  ⟨h.next, h.jobList, h.running, h.stack, h.events, h.log, h.currentException,
    fun _ => .inl (congrFun h.objects _), fun _ => .inl (congrFun h.timers _),
    fun _ => .inl (congrFun h.sockets _)⟩

/-- A record that is there afterwards was there before, with the same values. -/
theorem Shrinks.timer_before {a b : JSRuntime} (h : Shrinks a b) {r : Nat} {tmr : JSIOTimer}
    (ht : b.timers r = some tmr) :
    ∃ old, a.timers r = some old ∧ old.resolve = tmr.resolve ∧ old.reject = tmr.reject ∧
      old.alarm = tmr.alarm ∧ old.onTimeout = tmr.onTimeout ∧
      (tmr.hasObject → old.hasObject) := by
  rcases h.timers r with he | ⟨old, ho, -, ⟨_, hb⟩ | ⟨_, hb⟩⟩
  · exact ⟨tmr, he ▸ ht, rfl, rfl, rfl, rfl, id⟩
  · obtain rfl : { old with hasObject := false } = tmr := Option.some.inj (hb ▸ ht)
    exact ⟨old, ho, rfl, rfl, rfl, rfl, by simp⟩
  · simp [hb] at ht

/-! ## free_object -/

section FreeObject

variable {ph : GCPhase} {rt : JSRuntime} {p : Nat} {o : JSObject} {pend : List JSValue}
  {lost : JSValue → Nat}

/-- The runtime after `free_object` has taken the properties out of the object. -/
def emptied (rt : JSRuntime) (p : Nat) : JSRuntime :=
  { rt with objects := update rt.objects p (some JSObject.zombie) }

/-- Taking the properties out of an object leaves them pending. -/
theorem emptied_counted (ho : rt.objects p = some o) (hp : p < rt.next)
    (h : Counted rt pend lost) : Counted (emptied rt p) (o.prop ++ pend) lost where
  count v hv := by
    have htally := Ledger.tally_update JSObject.prop v (t := rt.objects) hp (some JSObject.zombie)
    have hcount := h.count v hv
    simp only [ho, Ledger.entry_some, JSObject.zombie, List.count_nil] at htally
    simp only [JSRuntime.tally, JSRuntime.jobSlots, List.count_append] at hcount ⊢
    simp only [emptied, JSObject.zombie]
    omega
  strings := h.strings
  unused := h.unused

theorem timerRemoved_counted {r : Nat} {tmr : JSIOTimer} (ht : rt.timers r = some tmr)
    (hr : r < rt.next) (h : Counted rt pend lost) :
    Counted { rt with timers := update rt.timers r none } (tmr.slots ++ pend) lost where
  count v hv := by
    have htally := Ledger.tally_update JSIOTimer.slots v (t := rt.timers) hr none
    have hcount := h.count v hv
    simp only [ht, Ledger.entry_some, Ledger.entry_none] at htally
    simp only [JSRuntime.tally, JSRuntime.jobSlots, List.count_append] at hcount ⊢
    omega
  strings := h.strings
  unused := h.unused

/-- Replacing a timer record by one with the same values changes no count. -/
theorem timerUpdated_counted {r : Nat} {tmr new : JSIOTimer} (ht : rt.timers r = some tmr)
    (hr : r < rt.next) (hslots : new.slots = tmr.slots) (h : Counted rt pend lost) :
    Counted { rt with timers := update rt.timers r (some new) } pend lost where
  count v hv := by
    have htally := Ledger.tally_update_same JSIOTimer.slots v (t := rt.timers) hr ht
      (congrArg (List.count v) hslots)
    have hcount := h.count v hv
    simp only [JSRuntime.tally, JSRuntime.jobSlots] at hcount ⊢
    omega
  strings := h.strings
  unused := h.unused

theorem socketRemoved_counted (rt : JSRuntime) {r : Nat} {s : IoJsIoSocket}
    (hs : rt.sockets r = some s) (hr : r < rt.next) (h : Counted rt pend lost) :
    Counted { rt with sockets := update rt.sockets r none }
      ([s.asyncGets0, s.asyncGets1, s.receiveCallback] ++ pend) lost where
  count v hv := by
    have htally := Ledger.tally_update IoJsIoSocket.slots v (t := rt.sockets) hr none
    have hcount := h.count v hv
    simp only [hs, Ledger.entry_some, Ledger.entry_none, IoJsIoSocket.slots] at htally
    simp only [JSRuntime.tally, JSRuntime.jobSlots, List.count_append] at hcount ⊢
    simp only [List.count_cons, List.count_nil] at htally ⊢
    omega
  strings := h.strings
  unused := h.unused

/-- What a finalizer takes out of the record is what it then releases. -/
theorem finalRuntime_counted (rt : JSRuntime) (o : JSObject)
    (hto : ∀ r, (rt.timers r).isSome → r < rt.next)
    (hso : ∀ r, (rt.sockets r).isSome → r < rt.next) (h : Counted rt pend lost) :
    Counted (finalRuntime rt o) (finalReleased rt o ++ pend) lost := by
  have htimers : Counted { rt with timers := finalTimers rt (o.opaqueAs .ioTimer) }
      (((o.opaqueAs .ioTimer).bind rt.timers).elim []
        (fun tmr => if tmr.alarm then [] else tmr.slots) ++ pend) lost := by
    cases hop : o.opaqueAs .ioTimer with
    | none => exact h
    | some r =>
      cases ht : rt.timers r with
      | none => simpa [finalTimers, ht] using h
      | some tmr =>
        have hr := hto r (by simp [ht])
        cases halarm : tmr.alarm with
        | true =>
          have hslots : ({ tmr with hasObject := false } : JSIOTimer).slots = tmr.slots := rfl
          simpa [finalTimers, ht, halarm] using timerUpdated_counted ht hr hslots h
        | false => simpa [finalTimers, ht, halarm] using timerRemoved_counted ht hr h
  have hsockets : ∀ (rt' : JSRuntime) {pend' : List JSValue}, rt'.sockets = rt.sockets →
      rt'.next = rt.next → Counted rt' pend' lost →
      Counted { rt' with sockets := finalSockets rt (o.opaqueAs .ioSocket) }
        (((o.opaqueAs .ioSocket).bind rt.sockets).elim []
          (fun s => [s.asyncGets0, s.asyncGets1, s.receiveCallback]) ++ pend') lost := by
    intro rt' pend' hsame hnext h'
    cases hop : o.opaqueAs .ioSocket with
    | none =>
      have hcount := h'.count
      refine ⟨?_, h'.strings, h'.unused⟩
      simpa [finalSockets, hsame, JSRuntime.tally, JSRuntime.jobSlots] using hcount
    | some r =>
      cases hs : rt.sockets r with
      | none =>
        have hkeep : update rt.sockets r none = rt'.sockets := by
          rw [← hs, Function.update_eq_self, hsame]
        simpa [finalSockets, hs, hkeep] using h'
      | some s =>
        have hr := hso r (by simp [hs])
        simpa [finalSockets, hs, hsame] using
          socketRemoved_counted rt' (hsame ▸ hs) (hnext ▸ hr) h'
  have hboth := hsockets { rt with timers := finalTimers rt (o.opaqueAs .ioTimer) } rfl rfl
    htimers
  refine ⟨fun v hv => ?_, hboth.strings, hboth.unused⟩
  have hcount := hboth.count v hv
  simp only [finalRuntime, finalReleased, JSRuntime.tally, JSRuntime.jobSlots,
    List.count_append] at hcount ⊢
  omega

/-- `free_object` before the object is unlinked: what it held has been released. -/
def spill (ph : GCPhase) (rt : JSRuntime) (p : Nat) (o : JSObject) : JSRuntime :=
  finalizer ph (o.prop.foldl (freeValueIn ph) (emptied rt p)) o

theorem freeObject_eq (ho : rt.objects p = some o) :
    freeObject ph rt p =
      let d := removeGCObject (spill ph rt p o) p
      if ph = .removeCycles ∧ d.refCount (.object p) ≠ 0 then
        { d with gcZeroRefCountList := d.gcZeroRefCountList ++ [p] }
      else jsFreeRtObject d p := by
  simp only [freeObject, ho]
  rfl

theorem finalRuntime_countsOnly {a b : JSRuntime} (h : CountsOnly a b) (o : JSObject) :
    CountsOnly (finalRuntime a o) (finalRuntime b o) where
  next := h.next
  objects := h.objects
  timers := by simp [finalRuntime, finalTimers, h.timers]
  sockets := by simp [finalRuntime, finalSockets, h.sockets]
  mark := h.mark
  tmpObjList := h.tmpObjList
  jobList := h.jobList
  running := h.running
  stack := h.stack
  events := h.events
  log := h.log
  currentException := h.currentException
  panicked := by simp [finalRuntime, h.panicked]

theorem spill_countsOnly (ph : GCPhase) (rt : JSRuntime) (p : Nat) (o : JSObject) :
    CountsOnly (finalRuntime (emptied rt p) o) (spill ph rt p o) := by
  unfold spill
  rw [finalizer_eq]
  exact (finalRuntime_countsOnly (foldl_freeValueIn_countsOnly ph o.prop _) o).trans
    (foldl_freeValueIn_countsOnly ph _ _)

theorem spill_counted (ph : GCPhase) (ho : rt.objects p = some o) (hown : Owned rt)
    (h : Counted rt pend lost) :
    Counted (spill ph rt p o) pend lost := by
  have hp := hown.objects_lt p (by simp [ho])
  have hprops := foldl_freeValueIn_counted ph (emptied_counted ho hp h)
  have hframe := foldl_freeValueIn_countsOnly ph o.prop (emptied rt p)
  unfold spill
  rw [finalizer_eq]
  refine foldl_freeValueIn_counted ph (finalRuntime_counted _ o ?_ ?_ hprops)
  · rw [hframe.timers, hframe.next]; exact hown.timers_lt
  · rw [hframe.sockets, hframe.next]; exact hown.sockets_lt

theorem foldl_freeValueIn_refCount_le (vs : List JSValue) (rt : JSRuntime) (w : JSValue)
    (hw : w.hasRefCount) : (vs.foldl (freeValueIn ph) rt).refCount w ≤ rt.refCount w := by
  induction vs generalizing rt with
  | nil => exact Nat.le_refl _
  | cons v vs ih =>
    refine (ih _).trans ?_
    rw [freeValueIn_refCount ph rt v w hw]
    exact Nat.sub_le _ _

theorem spill_refCount_le (ph : GCPhase) (rt : JSRuntime) (p : Nat) (o : JSObject) (w : JSValue)
    (hw : w.hasRefCount) :
    (spill ph rt p o).refCount w ≤ rt.refCount w := by
  unfold spill
  rw [finalizer_eq]
  exact (foldl_freeValueIn_refCount_le _ _ w hw).trans
    (foldl_freeValueIn_refCount_le o.prop (emptied rt p) w hw)

/-- Emptying an object that stays allocated keeps the lists. -/
theorem emptied_linked (ho : rt.objects p = some o) (h : Linked rt) : Linked (emptied rt p) where
  gc_nodup := h.gc_nodup
  zero_nodup := h.zero_nodup
  mem_gc := h.mem_gc
  mem_zero q := by
    rw [show (emptied rt p).gcZeroRefCountList = rt.gcZeroRefCountList from rfl, h.mem_zero]
    by_cases hq : q = p
    · subst hq; simp [emptied, ho]
    · simp [emptied, update_of_ne hq]
  alloc q hq := by
    by_cases hqp : q = p
    · subst hqp; simp [emptied]
    · simpa [emptied, update_of_ne hqp] using h.alloc q hq

theorem spill_linked (ho : rt.objects p = some o) (hown : Owned rt) (h : Counted rt pend lost)
    (hl : Linked rt) :
    Linked (spill .decref rt p o) ∧
      (spill .decref rt p o).gcObjList.length + (spill .decref rt p o).gcZeroRefCountList.length =
        rt.gcObjList.length + rt.gcZeroRefCountList.length := by
  have hp := hown.objects_lt p (by simp [ho])
  have hempty := emptied_counted ho hp h
  have hprops := foldl_freeValueIn_counted .decref hempty
  have hlprops := foldl_freeValueIn_linked hempty (emptied_linked ho hl)
  have hframe := foldl_freeValueIn_countsOnly .decref o.prop (emptied rt p)
  have hfinal := finalRuntime_counted _ o
    (by rw [hframe.timers, hframe.next]; exact hown.timers_lt)
    (by rw [hframe.sockets, hframe.next]; exact hown.sockets_lt) hprops
  have hlfinal : Linked (finalRuntime (o.prop.foldl (freeValueIn .decref) (emptied rt p)) o) :=
    ⟨hlprops.1, hlprops.2, hlprops.3, hlprops.4, hlprops.5⟩
  unfold spill
  rw [finalizer_eq]
  refine ⟨foldl_freeValueIn_linked hfinal hlfinal, ?_⟩
  rw [foldl_freeValueIn_length hfinal hlfinal]
  exact foldl_freeValueIn_length hempty (emptied_linked ho hl)

theorem opaqueOf_eq (ho : rt.objects p = some o) (cls : JSClassID) :
    rt.opaqueOf p cls = o.opaqueAs cls := by
  simp [JSRuntime.getOpaque, ho]

theorem Owned.opaque_record (hown : Owned rt) (ho : rt.objects p = some o) (r : Nat)
    (hr : o.opaqueAs .ioTimer = some r) : ∃ tmr, rt.timers r = some tmr ∧ tmr.hasObject :=
  hown.timer_record p r ((opaqueOf_eq ho _).trans hr)

/-- A finalizer leaves the timer of every other object alone. -/
theorem Owned.finalTimers_other (hown : Owned rt) (ho : rt.objects p = some o) {q r : Nat}
    (hq : q ≠ p) (hqr : rt.opaqueOf q .ioTimer = some r) :
    finalTimers rt (o.opaqueAs .ioTimer) r = rt.timers r := by
  rw [← opaqueOf_eq ho]
  cases hp : rt.opaqueOf p .ioTimer with
  | none => rfl
  | some r' =>
    have hne : r ≠ r' := fun h => hq (hown.timer_inj q p r hqr (h ▸ hp))
    cases ht : rt.timers r' <;> simp [finalTimers, ht, update_of_ne hne]

/-- A finalizer leaves the socket of every other object alone. -/
theorem Owned.finalSockets_other (hown : Owned rt) (ho : rt.objects p = some o) {q r : Nat}
    (hq : q ≠ p) (hqr : rt.opaqueOf q .ioSocket = some r) :
    finalSockets rt (o.opaqueAs .ioSocket) r = rt.sockets r := by
  rw [← opaqueOf_eq ho]
  cases hp : rt.opaqueOf p .ioSocket with
  | none => rfl
  | some r' =>
    have hne : r ≠ r' := fun h => hq (hown.socket_inj q p r hqr (h ▸ hp))
    simp [finalSockets, update_of_ne hne]

/-- Objects and records stay matched as long as the pointers and the records are the same. -/
theorem Owned.of_pointers {a b : JSRuntime} (h : Owned a) (hnext : a.next ≤ b.next)
    (hobjects : ∀ q, (b.objects q).isSome → q < b.next)
    (hptr : ∀ q cls, b.opaqueOf q cls = a.opaqueOf q cls) (htimers : b.timers = a.timers)
    (hsockets : b.sockets = a.sockets) : Owned b where
  objects_lt := hobjects
  timers_lt r hr := (h.timers_lt r (htimers ▸ hr)).trans_le hnext
  sockets_lt r hr := (h.sockets_lt r (hsockets ▸ hr)).trans_le hnext
  timer_record q r hq := by
    rw [hptr] at hq
    exact htimers ▸ h.timer_record q r hq
  timer_inj q q' r hq hq' := by
    rw [hptr] at hq hq'
    exact h.timer_inj q q' r hq hq'
  timer_object r tmr ht hhas := by
    obtain ⟨q, hq⟩ := h.timer_object r tmr (htimers ▸ ht) hhas
    exact ⟨q, (hptr q _).trans hq⟩
  timer_reject r tmr ht := h.timer_reject r tmr (htimers ▸ ht)
  socket_record q r hq := by
    rw [hptr] at hq
    exact hsockets ▸ h.socket_record q r hq
  socket_inj q q' r hq hq' := by
    rw [hptr] at hq hq'
    exact h.socket_inj q q' r hq hq'
  socket_object r hs := by
    obtain ⟨q, hq⟩ := h.socket_object r (hsockets ▸ hs)
    exact ⟨q, (hptr q _).trans hq⟩

/-- Freeing an object and finalizing its record keeps the objects and records matched. -/
theorem Owned.freed {rt' : JSRuntime} (hown : Owned rt) (ho : rt.objects p = some o)
    (hnext : rt'.next = rt.next)
    (hsome : ∀ q, (rt'.objects q).isSome → (rt.objects q).isSome)
    (hptr : ∀ q cls, rt'.opaqueOf q cls = if q = p then none else rt.opaqueOf q cls)
    (htimers : rt'.timers = finalTimers rt (o.opaqueAs .ioTimer))
    (hsockets : rt'.sockets = finalSockets rt (o.opaqueAs .ioSocket)) : Owned rt' := by
  have hself := opaqueOf_eq ho
  -- a record that still has its object is a record another object points to
  have htkeep : ∀ r tmr, rt'.timers r = some tmr → tmr.hasObject →
      rt.timers r = some tmr ∧ rt.opaqueOf p .ioTimer ≠ some r := by
    intro r tmr ht hhas
    rw [htimers, ← hself] at ht
    cases hp : rt.opaqueOf p .ioTimer with
    | none => exact ⟨by simpa [hp, finalTimers] using ht, by simp⟩
    | some r' =>
      obtain ⟨old, hold, -⟩ := hown.timer_record p r' hp
      by_cases hr : r = r'
      · subst hr
        cases halarm : old.alarm <;> simp [hp, finalTimers, hold, halarm] at ht
        subst ht
        simp at hhas
      · rw [hp] at ht
        simp only [finalTimers, hold, update_of_ne hr] at ht
        exact ⟨ht, by simpa using Ne.symm hr⟩
  constructor
  · intro q hq; rw [hnext]; exact hown.objects_lt q (hsome q hq)
  · intro r hr
    rw [hnext]
    rw [htimers] at hr
    exact hown.timers_lt r (finalTimers_isSome hr)
  · intro r hr
    rw [hnext]
    rw [hsockets] at hr
    exact hown.sockets_lt r (finalSockets_isSome hr)
  · intro q r hq
    rw [hptr] at hq
    split_ifs at hq with hqp
    rw [htimers, hown.finalTimers_other ho hqp hq]
    exact hown.timer_record q r hq
  · intro q q' r hq hq'
    rw [hptr] at hq hq'
    split_ifs at hq hq'
    exact hown.timer_inj q q' r hq hq'
  · intro r tmr ht hhas
    obtain ⟨hold, hnp⟩ := htkeep r tmr ht hhas
    obtain ⟨q, hq⟩ := hown.timer_object r tmr hold hhas
    refine ⟨q, ?_⟩
    rw [hptr, if_neg (fun h : q = p => hnp (h ▸ hq)), hq]
  · intro r tmr ht hhas
    exact hown.timer_reject r tmr (htkeep r tmr ht hhas).1 hhas
  · intro q r hq
    rw [hptr] at hq
    split_ifs at hq with hqp
    rw [hsockets, hown.finalSockets_other ho hqp hq]
    exact hown.socket_record q r hq
  · intro q q' r hq hq'
    rw [hptr] at hq hq'
    split_ifs at hq hq'
    exact hown.socket_inj q q' r hq hq'
  · intro r hr
    rw [hsockets, ← hself] at hr
    cases hp : rt.opaqueOf p .ioSocket with
    | none =>
      rw [hp] at hr
      obtain ⟨q, hq⟩ := hown.socket_object r hr
      exact ⟨q, by rw [hptr, if_neg (fun h => by simp [h, hp] at hq), hq]⟩
    | some r' =>
      rw [hp] at hr
      by_cases hrr : r = r'
      · simp [finalSockets, hrr] at hr
      · obtain ⟨q, hq⟩ := hown.socket_object r (by simpa [finalSockets, update_of_ne hrr] using hr)
        refine ⟨q, ?_⟩
        rw [hptr, if_neg (fun h => ?_), hq]
        rw [h, hp] at hq
        exact hrr (Option.some.inj hq).symm

theorem finalTimers_shrinks {rt : JSRuntime} {a : Option Nat}
    (ha : ∀ r, a = some r → ∃ tmr, rt.timers r = some tmr ∧ tmr.hasObject) (r : Nat) :
    finalTimers rt a r = rt.timers r ∨ ∃ tmr, rt.timers r = some tmr ∧ tmr.hasObject ∧
      (tmr.alarm ∧ finalTimers rt a r = some { tmr with hasObject := false } ∨
        tmr.alarm = false ∧ finalTimers rt a r = none) := by
  cases a with
  | none => exact .inl rfl
  | some r' =>
    obtain ⟨tmr, ht, hhas⟩ := ha r' rfl
    by_cases hr : r = r'
    · subst hr
      refine .inr ⟨tmr, ht, hhas, ?_⟩
      cases halarm : tmr.alarm <;> simp [finalTimers, ht, halarm]
    · exact .inl (by simp [finalTimers, ht, update_of_ne hr])

theorem finalSockets_shrinks (rt : JSRuntime) (a : Option Nat) (r : Nat) :
    finalSockets rt a r = rt.sockets r ∨ finalSockets rt a r = none := by
  cases a with
  | none => exact .inl rfl
  | some r' =>
    by_cases hr : r = r'
    · exact .inr (by simp [finalSockets, hr])
    · exact .inl (by simp [finalSockets, update_of_ne hr])

/-- The states `free_zero_refcount` passes through from `rt`. -/
structure Releasing (rt rt' : JSRuntime) (pend : List JSValue) (lost : JSValue → Nat) :
    Prop where
  counted : Counted rt' pend lost
  linked : Linked rt'
  owned : Owned rt'
  shrinks : Shrinks rt rt'
  mark : rt'.mark = rt.mark
  tmp : rt'.tmpObjList = []

theorem Releasing.freeObject {start : JSRuntime} (h : Releasing start rt pend lost)
    (hp : p ∈ rt.gcZeroRefCountList) :
    Releasing start (freeObject .decref rt p) pend lost ∧
      (freeObject .decref rt p).gcObjList.length +
          (freeObject .decref rt p).gcZeroRefCountList.length + 1 =
        rt.gcObjList.length + rt.gcZeroRefCountList.length := by
  obtain ⟨hsome, hzero⟩ := (h.linked.mem_zero p).mp hp
  obtain ⟨o, ho⟩ := Option.isSome_iff_exists.mp hsome
  have hframe := spill_countsOnly .decref rt p o
  have hcount := spill_counted .decref ho h.owned h.counted
  obtain ⟨hlink, hlen⟩ := spill_linked ho h.owned h.counted h.linked
  -- nothing refers to the object any more, and its own references are gone
  have hrc : (spill .decref rt p o).refCount (.object p) = 0 := by
    have hle := spill_refCount_le .decref rt p o (.object p) rfl
    omega
  have hpgc : p ∉ (spill .decref rt p o).gcObjList := by rw [hlink.mem_gc]; omega
  have hpzero : p ∈ (spill .decref rt p o).gcZeroRefCountList := by
    rw [hlink.mem_zero, hframe.objects]
    exact ⟨by simp [finalRuntime, emptied], hrc⟩
  have hzlen := List.length_pos_of_mem hpzero
  rw [freeObject_eq ho]
  simp only [reduceCtorEq, false_and, if_false]
  have hobjects : ∀ q, (jsFreeRtObject (removeGCObject (spill .decref rt p o) p) p).objects q =
      if q = p then none else rt.objects q := by
    intro q
    by_cases hq : q = p
    · simp [jsFreeRtObject, hq]
    · simp [jsFreeRtObject, removeGCObject, hframe.objects, finalRuntime, emptied, hq]
  have hrefs : (jsFreeRtObject (removeGCObject (spill .decref rt p o) p) p).refCount =
      (spill .decref rt p o).refCount := by
    simp only [jsFreeRtObject, removeGCObject]
    rw [← hrc, Function.update_eq_self]
  have hown : Owned (jsFreeRtObject (removeGCObject (spill .decref rt p o) p) p) := by
    refine h.owned.freed ho hframe.next (fun q hq => ?_) (fun q cls => ?_) hframe.timers
      hframe.sockets
    · rw [hobjects] at hq
      by_cases hqp : q = p
      · simp [hqp] at hq
      · rwa [if_neg hqp] at hq
    · simp only [JSRuntime.getOpaque, hobjects]; split_ifs <;> rfl
  refine ⟨⟨⟨fun v hv => ?_, fun q => ?_, fun q hq => ?_⟩,
    ⟨?_, ?_, fun q => ?_, fun q => ?_, fun q => ?_⟩, hown,
    h.shrinks.trans ⟨hframe.next, hframe.jobList, hframe.running, hframe.stack, hframe.events,
      hframe.log, hframe.currentException, fun q => ?_, fun r => ?_, fun r => ?_⟩,
    hframe.mark.trans h.mark, ?_⟩, ?_⟩
  · -- the zombie holds no reference
    have hold := hcount.count v hv
    have hlt : p < (spill .decref rt p o).next :=
      hframe.next ▸ h.owned.objects_lt p hsome
    have htally := Ledger.tally_update JSObject.prop v (t := (spill .decref rt p o).objects)
      hlt none
    have hzombie : (spill .decref rt p o).objects p = some JSObject.zombie := by
      rw [hframe.objects]; simp [finalRuntime, emptied]
    rw [hrefs]
    simp only [hzombie, Ledger.entry_some, JSObject.zombie, List.count_nil,
      Ledger.entry_none] at htally
    simp only [jsFreeRtObject, removeGCObject, JSRuntime.tally, JSRuntime.jobSlots] at hold ⊢
    omega
  · rw [hrefs]; exact hcount.strings q
  · rw [hrefs]; exact hcount.unused q hq
  · exact hlink.gc_nodup.erase p
  · exact hlink.zero_nodup.erase p
  · rw [hrefs, ← hlink.mem_gc]
    simp [jsFreeRtObject, removeGCObject, List.erase_of_not_mem hpgc]
  · rw [hrefs, hobjects]
    simp only [jsFreeRtObject, removeGCObject]
    rw [hlink.zero_nodup.mem_erase_iff, hlink.mem_zero, hframe.objects]
    by_cases hq : q = p
    · simp [hq]
    · simp [finalRuntime, emptied, hq]
  · rw [hrefs, hobjects]
    intro hpos
    have hqp : q ≠ p := fun hq => by rw [hq] at hpos; omega
    have := hlink.alloc q hpos
    rw [hframe.objects] at this
    simpa [finalRuntime, emptied, hqp, update_of_ne hqp] using this
  · rw [hobjects]; split_ifs
    · exact .inr rfl
    · exact .inl rfl
  · simpa [jsFreeRtObject, removeGCObject, hframe.timers, finalRuntime, emptied, finalTimers] using
      finalTimers_shrinks (h.owned.opaque_record ho) r
  · simpa [jsFreeRtObject, removeGCObject, hframe.sockets, finalRuntime, emptied, finalSockets]
      using finalSockets_shrinks rt (o.opaqueAs .ioSocket) r
  · simp [jsFreeRtObject, removeGCObject, hframe.tmpObjList, finalRuntime, emptied, h.tmp]
  · simp only [jsFreeRtObject, removeGCObject, List.erase_of_not_mem hpgc,
      List.length_erase_of_mem hpzero]
    omega

theorem Releasing.freeZeroRefcountLoop {start : JSRuntime} {n : Nat}
    (h : Releasing start rt pend lost)
    (hn : rt.gcObjList.length + rt.gcZeroRefCountList.length ≤ n) :
    Releasing start (freeZeroRefcountLoop n rt) pend lost ∧
      (IoQuickJS.freeZeroRefcountLoop n rt).gcZeroRefCountList = [] := by
  induction n generalizing rt with
  | zero =>
    refine ⟨h, ?_⟩
    have : rt.gcZeroRefCountList.length = 0 := by omega
    exact List.eq_nil_of_length_eq_zero this
  | succ n ih =>
    unfold IoQuickJS.freeZeroRefcountLoop
    split
    · next hnil => exact ⟨h, hnil⟩
    · next p _ hcons =>
      obtain ⟨hnext, hlen⟩ := h.freeObject (p := p) (by simp [hcons])
      exact ih hnext (by omega)

end FreeObject

/-- `JS_FreeValueRT` hands one pending reference back, whatever it frees on the way. -/
theorem Ready.free {rt : JSRuntime} {v : JSValue} {pend : List JSValue}
    {lost : JSValue → Nat} (h : Ready rt (v :: pend) lost) :
    Ready (jsFreeValueRT rt v) pend lost ∧ Shrinks rt (jsFreeValueRT rt v) := by
  have hpos : v.hasRefCount → 0 < rt.refCount v := by
    intro hv
    have hcount := h.counted.count v hv
    rw [List.count_cons_self] at hcount
    omega
  have hframe := freeValueIn_countsOnly .decref rt v
  have hown : Owned (freeValueIn .decref rt v) := by
    constructor <;> simp only [JSRuntime.opaqueOf, JSRuntime.getOpaque, hframe.next,
      hframe.objects, hframe.timers, hframe.sockets]
    exacts [h.owned.1, h.owned.2, h.owned.3, h.owned.4, h.owned.5, h.owned.6, h.owned.7,
      h.owned.8, h.owned.9, h.owned.10]
  have hstart : Releasing rt (freeValueIn .decref rt v) pend lost :=
    ⟨freeValueIn_counted h.counted, freeValueIn_linked h.linked hpos, hown, hframe.shrinks,
      hframe.mark, hframe.tmpObjList.trans h.tmp⟩
  obtain ⟨hend, hzero⟩ := hstart.freeZeroRefcountLoop (Nat.le_refl _)
  refine ⟨⟨hend.counted, hend.linked, hend.owned, hzero, hend.tmp, fun p hp => ?_⟩, hend.shrinks⟩
  -- an object on the list now was on it before
  have hsome := hend.linked.alloc p ((hend.linked.mem_gc p).mp hp)
  have hbefore : (rt.objects p).isSome := by
    rcases hend.shrinks.objects p with hsame | hnone
    · rwa [← hsame]
    · rw [hnone] at hsome; simp at hsome
  have hrc : 0 < rt.refCount (.object p) := by
    by_contra hzero'
    have := (h.linked.mem_zero p).mpr ⟨hbefore, by omega⟩
    simp [h.zero] at this
  rw [show (jsFreeValueRT rt v).mark = rt.mark from hend.mark]
  exact h.unmarked p ((h.linked.mem_gc p).mpr hrc)

theorem Ready.foldl_free {rt : JSRuntime} {vs pend : List JSValue}
    {lost : JSValue → Nat} (h : Ready rt (vs ++ pend) lost) :
    Ready (vs.foldl jsFreeValueRT rt) pend lost ∧
      Shrinks rt (vs.foldl jsFreeValueRT rt) := by
  induction vs generalizing rt with
  | nil => exact ⟨h, Shrinks.refl rt⟩
  | cons v vs ih =>
    obtain ⟨hready, hshrinks⟩ := h.free
    obtain ⟨hready', hshrinks'⟩ := ih hready
    exact ⟨hready', hshrinks.trans hshrinks'⟩

end IoQuickJS
