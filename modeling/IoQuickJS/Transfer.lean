import IoQuickJS.Machine
import IoQuickJS.CollectorFree

/-!
# Moving references between slots

Every operation outside the collector takes references from one slot to another, makes new ones
with JS_DupValue or an allocation, or hands them to JS_FreeValue. `Ready` carries the references
in transit, so each move is one lemma here: what stood in a slot before stands in `pend` after,
or the other way round.
-/
namespace IoQuickJS

open Function (update update_self update_of_ne)

/-- `rt'` holds the same objects and records as `rt`; what their slots hold may differ. -/
structure SameRecords (rt rt' : JSRuntime) : Prop where
  next : rt'.next = rt.next
  objects : ∀ p, (rt'.objects p).map (fun o => (o.classId, o.uOpaque)) =
    (rt.objects p).map fun o => (o.classId, o.uOpaque)
  timers : ∀ r, (rt'.timers r).map (fun tmr => (tmr.hasObject, tmr.reject)) =
    (rt.timers r).map fun tmr => (tmr.hasObject, tmr.reject)
  sockets : ∀ r, (rt'.sockets r).isSome = (rt.sockets r).isSome

/-- The counts and the lists are the same as well. -/
structure SameShape (rt rt' : JSRuntime) : Prop extends SameRecords rt rt' where
  refCount : rt'.refCount = rt.refCount
  strings : rt'.strings = rt.strings
  mark : rt'.mark = rt.mark
  gcObjList : rt'.gcObjList = rt.gcObjList
  tmpObjList : rt'.tmpObjList = rt.tmpObjList
  gcZeroRefCountList : rt'.gcZeroRefCountList = rt.gcZeroRefCountList

section Shape

variable {rt rt' : JSRuntime}

theorem SameRecords.isSome (h : SameRecords rt rt') (p : Nat) :
    (rt'.objects p).isSome = (rt.objects p).isSome := by
  simpa using congrArg Option.isSome (h.objects p)

theorem SameRecords.opaqueOf (h : SameRecords rt rt') (p : Nat) (cls : JSClassID) :
    rt'.opaqueOf p cls = rt.opaqueOf p cls := by
  have hobj := h.objects p
  unfold JSRuntime.opaqueOf JSRuntime.getOpaque
  cases ho : rt.objects p <;> cases ho' : rt'.objects p <;> simp_all [JSObject.opaqueAs]

theorem SameRecords.timer (h : SameRecords rt rt') {r : Nat} {tmr : JSIOTimer}
    (ht : rt'.timers r = some tmr) : ∃ old, rt.timers r = some old ∧
      old.hasObject = tmr.hasObject ∧ old.reject = tmr.reject := by
  have := h.timers r
  rw [ht, Option.map_some, eq_comm, Option.map_eq_some_iff] at this
  obtain ⟨old, hold, heq⟩ := this
  exact ⟨old, hold, congrArg Prod.fst heq, congrArg Prod.snd heq⟩

theorem SameRecords.symm (h : SameRecords rt rt') : SameRecords rt' rt :=
  ⟨h.next.symm, fun p => (h.objects p).symm, fun r => (h.timers r).symm,
    fun r => (h.sockets r).symm⟩

theorem Owned.reshape (hown : Owned rt) (h : SameRecords rt rt') : Owned rt' where
  objects_lt p hp := (hown.objects_lt p (by rwa [← h.isSome])).trans_eq h.next.symm
  timers_lt r hr := by
    obtain ⟨tmr, ht⟩ := Option.isSome_iff_exists.mp hr
    obtain ⟨old, hold, -⟩ := h.timer ht
    exact (hown.timers_lt r (by simp [hold])).trans_eq h.next.symm
  sockets_lt r hr := (hown.sockets_lt r (by rwa [← h.sockets])).trans_eq h.next.symm
  timer_record p r hp := by
    rw [h.opaqueOf] at hp
    obtain ⟨tmr, ht, hhas⟩ := hown.timer_record p r hp
    obtain ⟨new, hnew, hsame, -⟩ := h.symm.timer ht
    exact ⟨new, hnew, hsame.trans hhas⟩
  timer_inj p q r hp hq := by
    rw [h.opaqueOf] at hp hq
    exact hown.timer_inj p q r hp hq
  timer_object r tmr hr hhas := by
    obtain ⟨old, hold, hsame, -⟩ := h.timer hr
    simpa only [h.opaqueOf] using hown.timer_object r old hold (hsame.trans hhas)
  timer_reject r tmr hr hhas := by
    obtain ⟨old, hold, hsame, hreject⟩ := h.timer hr
    exact hreject.symm.trans (hown.timer_reject r old hold (hsame.trans hhas))
  socket_record p r hp := by
    rw [h.opaqueOf] at hp
    rw [h.sockets]
    exact hown.socket_record p r hp
  socket_inj p q r hp hq := by
    rw [h.opaqueOf] at hp hq
    exact hown.socket_inj p q r hp hq
  socket_object r hr := by
    rw [h.sockets] at hr
    simpa only [h.opaqueOf] using hown.socket_object r hr

/-- The counts and the lists are the same, and the same objects are allocated. -/
structure SameCounts (rt rt' : JSRuntime) : Prop where
  next_le : rt.next ≤ rt'.next
  isSome : ∀ p, (rt'.objects p).isSome = (rt.objects p).isSome
  refCount : rt'.refCount = rt.refCount
  strings : rt'.strings = rt.strings
  mark : rt'.mark = rt.mark
  gcObjList : rt'.gcObjList = rt.gcObjList
  tmpObjList : rt'.tmpObjList = rt.tmpObjList
  gcZeroRefCountList : rt'.gcZeroRefCountList = rt.gcZeroRefCountList

/-- The rule for operations that do not count: who owns the records is proved apart. -/
theorem Ready.of_owned {pend pend' : List JSValue} {lost lost' : JSValue → Nat}
    (h : Ready rt pend lost) (hs : SameCounts rt rt')
    (hcount : ∀ v, v.hasRefCount →
      rt'.tally v + pend'.count v + lost' v = rt.tally v + pend.count v + lost v)
    (howned : Owned rt') : Ready rt' pend' lost' where
  counted := by
    refine ⟨fun v hv => ?_, fun p => ?_, fun p hp => ?_⟩
    · rw [hs.refCount, h.counted.count v hv, hcount v hv]
    · rw [hs.strings, hs.refCount]
      exact h.counted.strings p
    · rw [hs.refCount]
      exact h.counted.unused p (hs.next_le.trans hp)
  linked := by
    refine ⟨?_, ?_, fun p => ?_, fun p => ?_, fun p => ?_⟩
    · rw [hs.gcObjList]; exact h.linked.gc_nodup
    · rw [hs.gcZeroRefCountList]; exact h.linked.zero_nodup
    · rw [hs.gcObjList, hs.refCount]; exact h.linked.mem_gc p
    · rw [hs.gcZeroRefCountList, hs.refCount, hs.isSome]; exact h.linked.mem_zero p
    · rw [hs.refCount, hs.isSome]; exact h.linked.alloc p
  owned := howned
  zero := hs.gcZeroRefCountList.trans h.zero
  tmp := hs.tmpObjList.trans h.tmp
  unmarked := by
    rw [hs.gcObjList, hs.mark]
    exact h.unmarked

/-- Moving references between slots keeps the accounts when the numbers agree. -/
theorem Ready.reshape {pend pend' : List JSValue} {lost lost' : JSValue → Nat}
    (h : Ready rt pend lost) (hs : SameShape rt rt')
    (hcount : ∀ v, v.hasRefCount →
      rt'.tally v + pend'.count v + lost' v = rt.tally v + pend.count v + lost v) :
    Ready rt' pend' lost' :=
  h.of_owned ⟨hs.next.ge, hs.toSameRecords.isSome, hs.refCount, hs.strings, hs.mark,
    hs.gcObjList, hs.tmpObjList, hs.gcZeroRefCountList⟩ hcount (h.owned.reshape hs.toSameRecords)

end Shape

/-! ## Tying an object to its record -/

/-- The object at `p`, which had no record, gets the one at `r`. -/
structure Attached (rt rt' : JSRuntime) (cls : JSClassID) (p r : Nat) : Prop where
  before : rt.objects p = some ⟨cls, none, []⟩
  objects : ∀ q, rt'.objects q = if q = p then some ⟨cls, some r, []⟩ else rt.objects q

section Attached

variable {rt rt' : JSRuntime} {cls c : JSClassID} {p q q' r s : Nat}

theorem jsSetOpaque_attached {rt : JSRuntime} (hp : rt.objects p = some ⟨cls, none, []⟩) :
    Attached rt (jsSetOpaque rt (.object p) r) cls p r := by
  refine ⟨hp, fun q => ?_⟩
  by_cases hq : q = p <;> simp [jsSetOpaque, hq, hp]

theorem Attached.isSome (h : Attached rt rt' cls p r) (q : Nat) :
    (rt'.objects q).isSome = (rt.objects q).isSome := by
  rw [h.objects]
  split_ifs with hq <;> simp [hq, h.before]

theorem Attached.opaqueOf (h : Attached rt rt' cls p r) (q : Nat) (c : JSClassID) :
    rt'.opaqueOf q c = if q = p then (if c = cls then some r else none) else rt.opaqueOf q c := by
  simp only [JSRuntime.opaqueOf, JSRuntime.getOpaque, h.objects]
  by_cases hq : q = p
  · simp [hq, JSObject.opaqueAs, eq_comm]
  · simp [hq]

theorem Attached.self (h : Attached rt rt' cls p r) : rt'.opaqueOf p cls = some r := by
  simp [h.opaqueOf]

/-- The other objects have the records they had. -/
theorem Attached.keeps (h : Attached rt rt' cls p r) (hq : rt.opaqueOf q c = some s) :
    rt'.opaqueOf q c = some s := by
  have hne : q ≠ p := by
    rintro rfl
    simp [JSRuntime.getOpaque, h.before, JSObject.opaqueAs] at hq
  simpa [h.opaqueOf, hne] using hq

theorem Attached.cases (h : Attached rt rt' cls p r) (hq : rt'.opaqueOf q c = some s) :
    (q = p ∧ c = cls ∧ s = r) ∨ rt.opaqueOf q c = some s := by
  rw [h.opaqueOf] at hq
  split_ifs at hq with hp hc
  · exact .inl ⟨hp, hc, (Option.some.inj hq).symm⟩
  · exact .inr hq

/-- No other object has the record of `p`. -/
theorem Attached.inj (h : Attached rt rt' cls p r) (hfresh : ∀ q, rt.opaqueOf q cls ≠ some r)
    (hinj : ∀ q q' s, rt.opaqueOf q c = some s → rt.opaqueOf q' c = some s → q = q')
    (hq : rt'.opaqueOf q c = some s) (hq' : rt'.opaqueOf q' c = some s) : q = q' := by
  rcases h.cases hq with ⟨rfl, rfl, rfl⟩ | hold <;>
    rcases h.cases hq' with ⟨rfl, hc, hs⟩ | hold'
  · rfl
  · exact absurd hold' (hfresh q')
  · exact absurd (hc ▸ hs ▸ hold) (hfresh q)
  · exact hinj q q' s hold hold'

end Attached

/-! ## What an operation on the heap leaves of everything else -/

/-- `b` comes from `a` by work on the heap: records can be finalized, but the queues and the log
are those of `a`, and no object has changed its class. -/
structure Evolves (a b : JSRuntime) : Prop where
  next_le : a.next ≤ b.next
  objects : ∀ p < a.next, b.objects p = none ∨ ∃ o o', a.objects p = some o ∧
    b.objects p = some o' ∧ o'.classId = o.classId ∧ o'.uOpaque = o.uOpaque
  timers : ∀ r, b.timers r = a.timers r ∨ ∃ tmr, a.timers r = some tmr ∧ tmr.hasObject ∧
    (tmr.alarm ∧ b.timers r = some { tmr with hasObject := false } ∨
      tmr.alarm = false ∧ b.timers r = none)
  sockets : ∀ r, b.sockets r = a.sockets r ∨ b.sockets r = none
  events : b.events = a.events
  jobList : b.jobList = a.jobList
  running : b.running = a.running
  log : b.log = a.log

section Evolves

variable {a b c : JSRuntime}

theorem Shrinks.evolves (h : Shrinks a b) : Evolves a b where
  next_le := h.next.ge
  objects p _ := by
    rcases h.objects p with hp | hp
    · rw [hp]
      cases ho : a.objects p with
      | none => exact .inl rfl
      | some o => exact .inr ⟨o, o, rfl, rfl, rfl, rfl⟩
    · exact .inl hp
  timers := h.timers
  sockets := h.sockets
  events := h.events
  jobList := h.jobList
  running := h.running
  log := h.log

theorem Evolves.trans (h : Evolves a b) (g : Evolves b c) : Evolves a c where
  next_le := h.next_le.trans g.next_le
  objects p hp := by
    rcases g.objects p (hp.trans_le h.next_le) with hc | ⟨o, o', hb, hc, hcls, hop⟩
    · exact .inl hc
    · rcases h.objects p hp with hn | ⟨o₀, o₁, ha, hb', hcls', hop'⟩
      · simp [hn] at hb
      · obtain rfl : o₁ = o := Option.some.inj (hb'.symm.trans hb)
        exact .inr ⟨o₀, o', ha, hc, hcls.trans hcls', hop.trans hop'⟩
  timers r := timer_shrinks_trans (h.timers r) (g.timers r)
  sockets r := by
    rcases g.sockets r with hg | hg
    · rw [hg]; exact h.sockets r
    · exact .inr hg
  events := g.events.trans h.events
  jobList := g.jobList.trans h.jobList
  running := g.running.trans h.running
  log := g.log.trans h.log

/-- Work on the heap alone. -/
theorem Evolves.of_same (hnext : a.next ≤ b.next)
    (hobjects : ∀ p < a.next, (b.objects p).map (fun o => (o.classId, o.uOpaque)) =
      (a.objects p).map fun o => (o.classId, o.uOpaque))
    (htimers : b.timers = a.timers) (hsockets : b.sockets = a.sockets)
    (hevents : b.events = a.events) (hjobs : b.jobList = a.jobList)
    (hrunning : b.running = a.running) (hlog : b.log = a.log) : Evolves a b where
  next_le := hnext
  objects p hp := by
    have hsame := hobjects p hp
    cases ho : b.objects p with
    | none => exact .inl rfl
    | some o' =>
      rw [ho, Option.map_some, eq_comm, Option.map_eq_some_iff] at hsame
      obtain ⟨o, ha, heq⟩ := hsame
      exact .inr ⟨o, o', ha, rfl, (congrArg Prod.fst heq).symm, (congrArg Prod.snd heq).symm⟩
  timers r := .inl (by rw [htimers])
  sockets r := .inl (by rw [hsockets])
  events := hevents
  jobList := hjobs
  running := hrunning
  log := hlog

/-- A function that is still allocated is still a function. -/
theorem Evolves.isFunction (h : Evolves a b) (hlt : ∀ p, (a.objects p).isSome → p < a.next)
    {v : JSValue} (hfunc : a.isFunction v) (hlive : b.live v) : b.isFunction v := by
  cases v with
  | object p =>
    have hp : p < a.next := hlt p (Option.isSome_of_any hfunc)
    rcases h.objects p hp with hnone | ⟨o, o', ha, hb, hcls, -⟩
    · simp [JSRuntime.live, hnone] at hlive
    · simpa [JSRuntime.isFunction, ha, hb, hcls] using hfunc
  | _ => cases hfunc

theorem Evolves.refl (a : JSRuntime) : Evolves a a := (Shrinks.refl a).evolves

end Evolves

section Moves

variable {rt : JSRuntime} {pend : List JSValue} {lost : JSValue → Nat}

theorem Ready.perm {pend' : List JSValue} (h : Ready rt pend lost) (hp : pend.Perm pend') :
    Ready rt pend' lost :=
  h.reshape ⟨⟨rfl, fun _ => rfl, fun _ => rfl, fun _ => rfl⟩, rfl, rfl, rfl, rfl, rfl, rfl⟩
    fun v _ => by rw [hp.count_eq]

/-- A value that carries no count needs no bookkeeping. -/
theorem Ready.cons_iff {v : JSValue} (hv : v.hasRefCount = false) :
    Ready rt (v :: pend) lost ↔ Ready rt pend lost := by
  have hcount : ∀ w : JSValue, w.hasRefCount → (v :: pend).count w = pend.count w := by
    intro w hw
    rw [List.count_cons_of_ne]
    rintro rfl
    simp [hv] at hw
  constructor <;> intro h <;>
    refine h.reshape ⟨⟨rfl, fun _ => rfl, fun _ => rfl, fun _ => rfl⟩, rfl, rfl, rfl, rfl, rfl, rfl⟩
      fun w hw => ?_
  · rw [hcount w hw]
  · rw [hcount w hw]

/-- Giving up references that no slot holds. -/
theorem Ready.lose (vs : List JSValue) (h : Ready rt (vs ++ pend) lost) :
    Ready rt pend fun v => vs.count v + lost v := by
  refine h.reshape
    ⟨⟨rfl, fun _ => rfl, fun _ => rfl, fun _ => rfl⟩, rfl, rfl, rfl, rfl, rfl, rfl⟩ fun v _ => ?_
  rw [List.count_append]
  omega

/-- What a slot or a frame refers to is allocated. -/
theorem Ready.live_of_count (h : Ready rt pend lost) {v : JSValue}
    (hpos : 0 < rt.tally v + pend.count v) : rt.live v := by
  cases v with
  | string p =>
    have hcount := h.counted.count (.string p) rfl
    exact (h.counted.strings p).mpr (by omega)
  | object p =>
    have hcount := h.counted.count (.object p) rfl
    exact h.linked.alloc p (by omega)
  | _ => rfl

theorem Ready.live_of_tally (h : Ready rt pend lost) {v : JSValue} (hpos : 0 < rt.tally v) :
    rt.live v :=
  h.live_of_count (Nat.add_pos_left hpos _)

theorem Ready.live_of_pend (h : Ready rt pend lost) {v : JSValue} (hmem : v ∈ pend) :
    rt.live v :=
  h.live_of_count (Nat.add_pos_right _ (List.count_pos_iff.mpr hmem))

theorem Ready.live_of_stack (h : Ready rt pend lost) {v : JSValue} (hmem : v ∈ rt.stack) :
    rt.live v := by
  refine h.live_of_tally ?_
  have := List.count_pos_iff.mpr hmem
  unfold JSRuntime.tally
  omega

theorem Ready.live_of_prop (h : Ready rt pend lost) {p : Nat} {v : JSValue}
    (hv : v ∈ rt.prop p) : rt.live v := by
  cases ho : rt.objects p with
  | none => simp [JSRuntime.prop, ho] at hv
  | some o =>
    have hle := Ledger.count_le_tally JSObject.prop v (h.owned.objects_lt p (by simp [ho])) ho
    have hpos : 0 < o.prop.count v :=
      List.count_pos_iff.mpr (by simpa [JSRuntime.prop, ho] using hv)
    refine h.live_of_tally ?_
    unfold JSRuntime.tally
    omega

theorem Ready.live_of_job (h : Ready rt pend lost) {v : JSValue}
    (hv : v ∈ rt.jobList.flatMap JSJobEntry.argv) : rt.live v := by
  refine h.live_of_tally ?_
  have := List.count_pos_iff.mpr hv
  simp only [JSRuntime.tally, JSRuntime.jobSlots]
  omega

theorem Ready.live_of_running (h : Ready rt pend lost) {v : JSValue}
    (hv : v ∈ rt.running.elim [] JSJobEntry.argv) : rt.live v := by
  have hpos := List.count_pos_iff.mpr hv
  refine h.live_of_tally ?_
  unfold JSRuntime.tally JSRuntime.jobSlots
  omega

theorem Ready.live_of_timer (h : Ready rt pend lost) {r : Nat} {tmr : JSIOTimer}
    (ht : rt.timers r = some tmr) {v : JSValue} (hv : v ∈ tmr.slots) : rt.live v := by
  have hle := Ledger.count_le_tally JSIOTimer.slots v (h.owned.timers_lt r (by simp [ht])) ht
  have hpos := List.count_pos_iff.mpr hv
  refine h.live_of_tally ?_
  unfold JSRuntime.tally
  omega

theorem Ready.live_of_socket (h : Ready rt pend lost) {r : Nat} {s : IoJsIoSocket}
    (hs : rt.sockets r = some s) {v : JSValue} (hv : v ∈ s.slots) : rt.live v := by
  have hle := Ledger.count_le_tally IoJsIoSocket.slots v (h.owned.sockets_lt r (by simp [hs])) hs
  have hpos := List.count_pos_iff.mpr hv
  refine h.live_of_tally ?_
  unfold JSRuntime.tally
  omega

theorem Ready.live_of_holds (h : Ready rt pend lost) {v : JSValue} (hv : rt.holds v) :
    rt.live v := by
  simp only [JSRuntime.holds, Bool.or_eq_true, Bool.not_eq_eq_eq_not, Bool.not_true,
    decide_eq_true_eq] at hv
  rcases hv with hv | hv
  · cases v <;> simp_all [JSValue.hasRefCount, JSRuntime.live]
  · exact h.live_of_stack hv

/-! ### The stack -/

theorem Ready.pushStack {v : JSValue} (h : Ready rt (v :: pend) lost) :
    Ready { rt with stack := v :: rt.stack } pend lost := by
  refine h.reshape ⟨⟨rfl, fun _ => rfl, fun _ => rfl, fun _ => rfl⟩, rfl, rfl, rfl, rfl, rfl, rfl⟩
    fun w _ => ?_
  simp only [JSRuntime.tally, JSRuntime.jobSlots, List.count_cons]
  omega

theorem Ready.push (res : JSRuntime × JSValue) (h : Ready res.1 (res.2 :: pend) lost) :
    Ready (JSRuntime.push res) pend lost := by
  unfold JSRuntime.push
  split_ifs with hv
  · exact h.pushStack
  · exact (Ready.cons_iff (by simpa using hv)).mp h

theorem push_evolves (res : JSRuntime × JSValue) : Evolves res.1 (JSRuntime.push res) := by
  unfold JSRuntime.push
  split_ifs
  · exact .of_same (Nat.le_refl _) (fun _ _ => rfl) rfl rfl rfl rfl rfl rfl
  · exact .refl _

theorem push_isFunction (res : JSRuntime × JSValue) (v : JSValue) :
    (JSRuntime.push res).isFunction v = res.1.isFunction v := by
  unfold JSRuntime.push
  split_ifs <;> rfl

theorem Ready.popStack {v : JSValue} (h : Ready rt pend lost) (hv : v ∈ rt.stack) :
    Ready { rt with stack := rt.stack.erase v } (v :: pend) lost := by
  refine h.reshape ⟨⟨rfl, fun _ => rfl, fun _ => rfl, fun _ => rfl⟩, rfl, rfl, rfl, rfl, rfl, rfl⟩
    fun w _ => ?_
  have hperm := (List.perm_cons_erase hv).count_eq w
  rw [List.count_cons] at hperm
  simp only [JSRuntime.tally, JSRuntime.jobSlots, List.count_cons]
  omega

/-! ### Duplicating -/

theorem Ready.dup {v : JSValue} (h : Ready rt pend lost) (hlive : rt.live v) :
    Ready (jsDupValue rt v) (v :: pend) lost := by
  have hframe := jsDupValue_countsOnly rt v
  have hlists : (jsDupValue rt v).gcObjList = rt.gcObjList ∧
      (jsDupValue rt v).gcZeroRefCountList = rt.gcZeroRefCountList := by
    unfold jsDupValue; split_ifs <;> exact ⟨rfl, rfl⟩
  have hpos : ∀ p, 0 < (jsDupValue rt v).refCount (.object p) ↔ 0 < rt.refCount (.object p) := by
    intro p
    rw [jsDupValue_refCount rt v _ rfl]
    by_cases hvp : v = .object p
    · subst hvp
      have hgc := (h.linked.mem_gc p).mp (h.mem_gc_of_some hlive)
      omega
    · simp [hvp]
  refine ⟨jsDupValue_counted h.counted hlive, ⟨?_, ?_, fun p => ?_, fun p => ?_, fun p => ?_⟩, ?_,
    hlists.2.trans h.zero, hframe.tmpObjList.trans h.tmp, ?_⟩
  · rw [hlists.1]; exact h.linked.gc_nodup
  · rw [hlists.2]; exact h.linked.zero_nodup
  · rw [hlists.1, hpos]; exact h.linked.mem_gc p
  · have hzero : (jsDupValue rt v).refCount (.object p) = 0 ↔ rt.refCount (.object p) = 0 := by
      have := hpos p
      omega
    rw [hlists.2, hframe.objects, h.linked.mem_zero, hzero]
  · rw [hpos, hframe.objects]; exact h.linked.alloc p
  · exact h.owned.reshape ⟨hframe.next, by simp [hframe.objects], by simp [hframe.timers],
      by simp [hframe.sockets]⟩
  · rw [hlists.1, hframe.mark]; exact h.unmarked

theorem jsDupValue_evolves (rt : JSRuntime) (v : JSValue) : Evolves rt (jsDupValue rt v) :=
  (jsDupValue_countsOnly rt v).shrinks.evolves

theorem foldl_jsDupValue_evolves (vs : List JSValue) (rt : JSRuntime) :
    Evolves rt (vs.foldl jsDupValue rt) := by
  induction vs generalizing rt with
  | nil => exact .refl rt
  | cons v vs ih => exact (jsDupValue_evolves rt v).trans (ih _)

theorem jsDupValue_live (rt : JSRuntime) (v w : JSValue) :
    (jsDupValue rt v).live w = rt.live w := by
  unfold jsDupValue
  split_ifs <;> cases w <;> rfl

theorem Ready.foldl_dup {vs : List JSValue} (h : Ready rt pend lost)
    (hlive : ∀ v ∈ vs, rt.live v) : Ready (vs.foldl jsDupValue rt) (vs ++ pend) lost := by
  induction vs generalizing rt pend with
  | nil => exact h
  | cons v vs ih =>
    have hdup := h.dup (hlive v (by simp))
    refine (ih hdup fun w hw => ?_).perm List.perm_middle
    rw [jsDupValue_live]
    exact hlive w (by simp [hw])

/-! ### Allocations -/

theorem Ready.unused (h : Ready rt pend lost) :
    rt.objects rt.next = none ∧ rt.timers rt.next = none ∧ rt.sockets rt.next = none := by
  refine ⟨?_, ?_, ?_⟩ <;> rw [← Option.not_isSome_iff_eq_none] <;> intro hsome
  · exact absurd (h.owned.objects_lt _ hsome) (Nat.lt_irrefl _)
  · exact absurd (h.owned.timers_lt _ hsome) (Nat.lt_irrefl _)
  · exact absurd (h.owned.sockets_lt _ hsome) (Nat.lt_irrefl _)

/-- A new object has one reference, which nothing holds yet. -/
theorem Ready.newObject (h : Ready rt pend lost) (cls : JSClassID) :
    Ready (jsNewObjectClass rt cls).1 ((jsNewObjectClass rt cls).2 :: pend) lost := by
  obtain ⟨hobj, htmr, hsock⟩ := h.unused
  have hrc : rt.refCount (.object rt.next) = 0 := by
    by_contra hpos
    have := h.linked.alloc rt.next (Nat.pos_of_ne_zero hpos)
    simp [hobj] at this
  have hgc : rt.next ∉ rt.gcObjList := by
    rw [h.linked.mem_gc]
    omega
  have htally : ∀ v, (jsNewObjectClass rt cls).1.tally v = rt.tally v := by
    intro v
    have hobjects := Ledger.tally_alloc JSObject.prop v hobj (some ⟨cls, none, []⟩)
    have htimers := Ledger.tally_succ_of_none JSIOTimer.slots v htmr
    have hsockets := Ledger.tally_succ_of_none IoJsIoSocket.slots v hsock
    simp only [Ledger.entry_some, List.count_nil] at hobjects
    simp only [JSRuntime.tally, JSRuntime.jobSlots, jsNewObjectClass]
    omega
  have hptr : ∀ p c, (jsNewObjectClass rt cls).1.opaqueOf p c = rt.opaqueOf p c := by
    intro p c
    by_cases hp : p = rt.next
    · subst hp
      simp [JSRuntime.getOpaque, jsNewObjectClass, hobj, JSObject.opaqueAs]
    · simp [JSRuntime.getOpaque, jsNewObjectClass, hp]
  refine ⟨⟨fun v hv => ?_, fun p => ?_, fun p hp => ?_⟩,
    ⟨?_, h.linked.zero_nodup, fun p => ?_, fun p => ?_, fun p => ?_⟩, ?_, h.zero, h.tmp,
    fun p hp => ?_⟩
  · have hcount := h.counted.count v hv
    rw [htally, List.count_cons]
    by_cases hvn : v = .object rt.next
    · subst hvn
      simp [jsNewObjectClass]
      omega
    · simp [jsNewObjectClass, update_of_ne hvn, Ne.symm hvn, hcount]
  · simpa [jsNewObjectClass] using h.counted.strings p
  · simpa [jsNewObjectClass] using h.counted.unused p ((Nat.le_succ _).trans hp)
  · simp only [jsNewObjectClass]
    refine List.nodup_append.mpr ⟨h.linked.gc_nodup, by simp, ?_⟩
    rintro a ha b hb rfl
    exact hgc (List.mem_singleton.mp hb ▸ ha)
  · by_cases hp : p = rt.next
    · simp [jsNewObjectClass, hp]
    · simp [jsNewObjectClass, hp, h.linked.mem_gc]
  · by_cases hp : p = rt.next
    · simp [jsNewObjectClass, hp, h.zero]
    · simp [jsNewObjectClass, hp, h.linked.mem_zero]
  · by_cases hp : p = rt.next
    · simp [jsNewObjectClass, hp]
    · simpa [jsNewObjectClass, hp] using h.linked.alloc p
  · refine h.owned.of_pointers (Nat.le_succ _) (fun p hp => ?_) hptr rfl rfl
    by_cases hpn : p = rt.next
    · rw [hpn]; exact Nat.lt_succ_self _
    · simp only [jsNewObjectClass, update_of_ne hpn] at hp
      exact (h.owned.objects_lt p hp).trans (Nat.lt_succ_self _)
  · by_cases hpn : p = rt.next
    · simp [jsNewObjectClass, hpn]
    · simp only [jsNewObjectClass, List.mem_append, List.mem_singleton, hpn, or_false] at hp
      simp [jsNewObjectClass, hpn, h.unmarked p hp]

theorem jsNewObjectClass_evolves (rt : JSRuntime) (cls : JSClassID) :
    Evolves rt (jsNewObjectClass rt cls).1 := by
  refine .of_same (Nat.le_succ _) (fun p hp => ?_) rfl rfl rfl rfl rfl rfl
  simp [jsNewObjectClass, Nat.ne_of_lt hp]

theorem Ready.newString (h : Ready rt pend lost) (bytes : List UInt8) :
    Ready (jsNewStringLen rt bytes).1 ((jsNewStringLen rt bytes).2 :: pend) lost := by
  obtain ⟨hobj, htmr, hsock⟩ := h.unused
  have hunused := h.counted.unused rt.next (Nat.le_refl _)
  have htally : ∀ v, (jsNewStringLen rt bytes).1.tally v = rt.tally v := by
    intro v
    have hobjects := Ledger.tally_succ_of_none JSObject.prop v hobj
    have htimers := Ledger.tally_succ_of_none JSIOTimer.slots v htmr
    have hsockets := Ledger.tally_succ_of_none IoJsIoSocket.slots v hsock
    simp only [JSRuntime.tally, JSRuntime.jobSlots, jsNewStringLen]
    omega
  have hrefs : ∀ p, (jsNewStringLen rt bytes).1.refCount (.object p) =
      rt.refCount (.object p) := fun p => by simp [jsNewStringLen]
  refine ⟨⟨fun v hv => ?_, fun p => ?_, fun p hp => ?_⟩,
    ⟨h.linked.gc_nodup, h.linked.zero_nodup, fun p => ?_, fun p => ?_, fun p => ?_⟩, ?_,
    h.zero, h.tmp, h.unmarked⟩
  · have hcount := h.counted.count v hv
    rw [htally, List.count_cons]
    by_cases hvn : v = .string rt.next
    · subst hvn
      simp [jsNewStringLen]
      omega
    · simp [jsNewStringLen, update_of_ne hvn, Ne.symm hvn, hcount]
  · by_cases hp : p = rt.next
    · simp [jsNewStringLen, hp]
    · simp [jsNewStringLen, hp, h.counted.strings]
  · have hpn : p ≠ rt.next := Nat.ne_of_gt hp
    simpa [jsNewStringLen, hpn] using h.counted.unused p ((Nat.le_succ _).trans hp)
  · rw [hrefs]; exact h.linked.mem_gc p
  · rw [hrefs]; exact h.linked.mem_zero p
  · rw [hrefs]; exact h.linked.alloc p
  · exact h.owned.of_pointers (Nat.le_succ _)
      (fun p hp => (h.owned.objects_lt p hp).trans (Nat.lt_succ_self _)) (fun _ _ => rfl) rfl rfl

theorem jsNewStringLen_evolves (rt : JSRuntime) (bytes : List UInt8) :
    Evolves rt (jsNewStringLen rt bytes).1 :=
  .of_same (Nat.le_succ _) (fun _ _ => rfl) rfl rfl rfl rfl rfl rfl

/-! ### Properties -/

theorem Ready.addProp {p : Nat} {v : JSValue} (h : Ready rt (v :: pend) lost)
    (hp : (rt.objects p).isSome) :
    Ready (rt.modifyProp p fun vs => vs ++ [v]) pend lost := by
  obtain ⟨o, ho⟩ := Option.isSome_iff_exists.mp hp
  refine h.reshape ⟨⟨rfl, fun q => ?_, fun _ => rfl, fun _ => rfl⟩, rfl, rfl, rfl, rfl, rfl, rfl⟩
    fun w _ => ?_
  · by_cases hq : q = p
    · simp [JSRuntime.modifyProp, hq, ho]
    · simp [JSRuntime.modifyProp, hq]
  · have hupdate := Ledger.tally_update (t := rt.objects) JSObject.prop w (h.owned.objects_lt p hp)
      (some { o with prop := o.prop ++ [v] })
    simp only [ho, Ledger.entry_some, List.count_append, List.count_singleton] at hupdate
    simp only [JSRuntime.tally, JSRuntime.jobSlots, JSRuntime.modifyProp, ho, Option.map_some,
      List.count_cons]
    omega

theorem Ready.removeProp {p : Nat} {v : JSValue} (h : Ready rt pend lost) (hv : v ∈ rt.prop p) :
    Ready (rt.modifyProp p fun vs => vs.erase v) (v :: pend) lost := by
  cases ho : rt.objects p with
  | none => simp [JSRuntime.prop, ho] at hv
  | some o =>
    have hmem : v ∈ o.prop := by simpa [JSRuntime.prop, ho] using hv
    refine h.reshape ⟨⟨rfl, fun q => ?_, fun _ => rfl, fun _ => rfl⟩, rfl, rfl, rfl, rfl, rfl, rfl⟩
      fun w _ => ?_
    · by_cases hq : q = p
      · simp [JSRuntime.modifyProp, hq, ho]
      · simp [JSRuntime.modifyProp, hq]
    · have hupdate := Ledger.tally_update (t := rt.objects) JSObject.prop w
        (h.owned.objects_lt p (by simp [ho]))
        (some { o with prop := o.prop.erase v })
      have hperm := (List.perm_cons_erase hmem).count_eq w
      rw [List.count_cons] at hperm
      simp only [ho, Ledger.entry_some] at hupdate
      simp only [JSRuntime.tally, JSRuntime.jobSlots, JSRuntime.modifyProp, ho, Option.map_some,
        List.count_cons]
      omega

theorem modifyProp_evolves (rt : JSRuntime) (p : Nat) (f : List JSValue → List JSValue) :
    Evolves rt (rt.modifyProp p f) := by
  refine .of_same (Nat.le_refl _) (fun q _ => ?_) rfl rfl rfl rfl rfl rfl
  by_cases hq : q = p
  · subst hq
    cases ho : rt.objects q <;> simp [JSRuntime.modifyProp, ho]
  · simp [JSRuntime.modifyProp, hq]

/-! ### Jobs -/

theorem Ready.addJob {e : JSJobEntry} (h : Ready rt (e.argv ++ pend) lost) :
    Ready { rt with jobList := rt.jobList ++ [e] } pend lost := by
  refine h.reshape ⟨⟨rfl, fun _ => rfl, fun _ => rfl, fun _ => rfl⟩, rfl, rfl, rfl, rfl, rfl, rfl⟩
    fun w _ => ?_
  simp only [JSRuntime.tally, JSRuntime.jobSlots, List.flatMap_append, List.count_append,
    List.flatMap_cons, List.flatMap_nil, List.append_nil]
  omega

/-- Fields that hold no references can be assigned at will. -/
theorem Ready.setFields (h : Ready rt pend lost) (events : List Nat) (log : List Observation)
    (currentException : Option JSError) (panicked : Bool) :
    Ready { rt with
      events := events, log := log, currentException := currentException, panicked := panicked }
      pend lost :=
  h.reshape ⟨⟨rfl, fun _ => rfl, fun _ => rfl, fun _ => rfl⟩, rfl, rfl, rfl, rfl, rfl, rfl⟩
    fun _ _ => rfl

theorem Ready.addLog (h : Ready rt pend lost) (obs : List Observation) :
    Ready { rt with log := rt.log ++ obs } pend lost :=
  h.setFields rt.events _ rt.currentException rt.panicked

theorem Ready.enqueueJob (h : Ready rt pend lost) (jobFunc : JSJobFunc) (argv : List JSValue)
    (origin : Option Nat) (ok : Bool) (hlive : ∀ v ∈ argv, rt.live v) :
    Ready (jsEnqueueJob rt jobFunc argv origin ok).1 pend lost := by
  unfold jsEnqueueJob
  split_ifs
  · exact (h.foldl_dup hlive).addJob
  · exact h.setFields ..

theorem jsEnqueueJob_ok_evolves (rt : JSRuntime) (jobFunc : JSJobFunc) (argv : List JSValue)
    (origin : Option Nat) : Evolves { rt with jobList := rt.jobList ++ [⟨jobFunc, argv, origin⟩] }
      (jsEnqueueJob rt jobFunc argv origin true).1 := by
  have hdup := foldl_jsDupValue_evolves argv rt
  simp only [jsEnqueueJob, if_true]
  exact ⟨hdup.next_le, hdup.objects, hdup.timers, hdup.sockets, hdup.events,
    congrArg (· ++ _) hdup.jobList, hdup.running, hdup.log⟩

theorem jsEnqueueJob_fail_evolves (rt : JSRuntime) (jobFunc : JSJobFunc) (argv : List JSValue)
    (origin : Option Nat) : Evolves { rt with log := rt.log ++ [.jobLost origin] }
      (jsEnqueueJob rt jobFunc argv origin false).1 :=
  .of_same (Nat.le_refl _) (fun _ _ => rfl) rfl rfl rfl rfl rfl rfl

theorem Ready.startJob {rt' : JSRuntime} (h : Ready rt pend lost)
    (hstart : jsStartPendingJob rt = some rt') : Ready rt' pend lost := by
  obtain ⟨e, es, hrunning, hjobs, rfl⟩ := jsStartPendingJob_eq_some hstart
  refine h.reshape
    ⟨⟨rfl, fun _ => rfl, fun _ => rfl, fun _ => rfl⟩, rfl, rfl, rfl, rfl, rfl, rfl⟩ fun w _ => ?_
  simp only [JSRuntime.tally, JSRuntime.jobSlots, hrunning, hjobs, List.flatMap_cons,
    List.count_append, Option.elim_some, Option.elim_none, List.count_nil]
  omega

/-- The references of the running job, once it is not running any more. -/
theorem Ready.leaveJob {e : JSJobEntry} (h : Ready rt pend lost) (hrunning : rt.running = some e) :
    Ready { rt with running := none } (e.argv ++ pend) lost := by
  refine h.reshape
    ⟨⟨rfl, fun _ => rfl, fun _ => rfl, fun _ => rfl⟩, rfl, rfl, rfl, rfl, rfl, rfl⟩ fun w _ => ?_
  simp only [JSRuntime.tally, JSRuntime.jobSlots, hrunning, Option.elim_some, Option.elim_none,
    List.count_nil, List.count_append]
  omega

theorem Ready.finishJob {rt' : JSRuntime} (h : Ready rt pend lost)
    (hfinish : jsFinishPendingJob rt = some rt') :
    Ready rt' pend lost ∧ Shrinks { rt with running := none } rt' := by
  unfold jsFinishPendingJob at hfinish
  split at hfinish
  · cases hfinish
  · next e hrunning =>
    obtain rfl := Option.some.inj hfinish
    exact (h.leaveJob hrunning).foldl_free

end Moves

end IoQuickJS
