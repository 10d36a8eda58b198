import IoQuickJS.Refcount

/-!
# Every reference is counted

The bookkeeping invariants of the heap and the proof that releasing a value keeps them.

* `Counted rt pend lost`: the count of every value is the number of slots that hold it, plus the
  references `pend` that the C code at hand holds, plus the references `lost v` to it that no
  slot holds any more. An operation that forgets a release shows up in `lost`.
* `Linked rt`: gc_obj_list and gc_zero_ref_count_list partition the allocated objects by whether
  their count is positive.
* `Owned rt`: the opaque pointers of IOTimer and js_io_socket objects and the records they point
  to match.

`Ready` collects them for the states between two operations.
-/
namespace IoQuickJS

structure Counted (rt : JSRuntime) (pend : List JSValue) (lost : JSValue → Nat) : Prop where
  count : ∀ v, v.hasRefCount → rt.refCount v = rt.tally v + pend.count v + lost v
  strings : ∀ p, (rt.strings p).isSome ↔ 0 < rt.refCount (.string p)
  unused : ∀ p, rt.next ≤ p → rt.refCount (.string p) = 0

structure Linked (rt : JSRuntime) : Prop where
  gc_nodup : rt.gcObjList.Nodup
  zero_nodup : rt.gcZeroRefCountList.Nodup
  mem_gc : ∀ p, p ∈ rt.gcObjList ↔ 0 < rt.refCount (.object p)
  mem_zero : ∀ p, p ∈ rt.gcZeroRefCountList ↔
    (rt.objects p).isSome ∧ rt.refCount (.object p) = 0
  alloc : ∀ p, 0 < rt.refCount (.object p) → (rt.objects p).isSome

/-- The opaque pointer of the object at `p`, if it is an object of the class. -/
abbrev JSRuntime.opaqueOf (rt : JSRuntime) (p : Nat) (classId : JSClassID) : Option Nat :=
  rt.getOpaque (.object p) classId

structure Owned (rt : JSRuntime) : Prop where
  objects_lt : ∀ p, (rt.objects p).isSome → p < rt.next
  timers_lt : ∀ r, (rt.timers r).isSome → r < rt.next
  sockets_lt : ∀ r, (rt.sockets r).isSome → r < rt.next
  timer_record : ∀ p r, rt.opaqueOf p .ioTimer = some r →
    ∃ tmr, rt.timers r = some tmr ∧ tmr.hasObject
  timer_inj : ∀ p q r, rt.opaqueOf p .ioTimer = some r → rt.opaqueOf q .ioTimer = some r → p = q
  timer_object : ∀ r tmr, rt.timers r = some tmr → tmr.hasObject →
    ∃ p, rt.opaqueOf p .ioTimer = some r
  timer_reject : ∀ r tmr, rt.timers r = some tmr → tmr.hasObject → tmr.reject = .undefined
  socket_record : ∀ p r, rt.opaqueOf p .ioSocket = some r → (rt.sockets r).isSome
  socket_inj : ∀ p q r, rt.opaqueOf p .ioSocket = some r → rt.opaqueOf q .ioSocket = some r →
    p = q
  socket_object : ∀ r, (rt.sockets r).isSome → ∃ p, rt.opaqueOf p .ioSocket = some r

structure Ready (rt : JSRuntime) (pend : List JSValue) (lost : JSValue → Nat) : Prop where
  counted : Counted rt pend lost
  linked : Linked rt
  owned : Owned rt
  zero : rt.gcZeroRefCountList = []
  tmp : rt.tmpObjList = []
  unmarked : ∀ p ∈ rt.gcObjList, rt.mark p = false

/-! ## What a release leaves alone -/

/-- `rt'` differs from `rt` in counts, strings and the two lists of objects only. -/
structure CountsOnly (rt rt' : JSRuntime) : Prop where
  next : rt'.next = rt.next
  objects : rt'.objects = rt.objects
  timers : rt'.timers = rt.timers
  sockets : rt'.sockets = rt.sockets
  mark : rt'.mark = rt.mark
  tmpObjList : rt'.tmpObjList = rt.tmpObjList
  jobList : rt'.jobList = rt.jobList
  running : rt'.running = rt.running
  stack : rt'.stack = rt.stack
  events : rt'.events = rt.events
  log : rt'.log = rt.log
  currentException : rt'.currentException = rt.currentException
  panicked : rt'.panicked = rt.panicked

theorem CountsOnly.refl (rt : JSRuntime) : CountsOnly rt rt :=
  ⟨rfl, rfl, rfl, rfl, rfl, rfl, rfl, rfl, rfl, rfl, rfl, rfl, rfl⟩

theorem CountsOnly.trans {a b c : JSRuntime} (h : CountsOnly a b) (g : CountsOnly b c) :
    CountsOnly a c :=
  ⟨g.1.trans h.1, g.2.trans h.2, g.3.trans h.3, g.4.trans h.4, g.5.trans h.5, g.6.trans h.6,
    g.7.trans h.7, g.8.trans h.8, g.9.trans h.9, g.10.trans h.10, g.11.trans h.11,
    g.12.trans h.12, g.13.trans h.13⟩

theorem CountsOnly.tally {a b : JSRuntime} (h : CountsOnly a b) (v : JSValue) :
    b.tally v = a.tally v := by
  simp [JSRuntime.tally, JSRuntime.jobSlots, h.next, h.objects, h.timers, h.sockets, h.jobList,
    h.running, h.stack]

theorem setRefCount_countsOnly (rt : JSRuntime) (f : JSValue → Nat) :
    CountsOnly rt { rt with refCount := f } :=
  ⟨rfl, rfl, rfl, rfl, rfl, rfl, rfl, rfl, rfl, rfl, rfl, rfl, rfl⟩

theorem freeValueAtZero_countsOnly (ph : GCPhase) (rt : JSRuntime) (v : JSValue) :
    CountsOnly rt (freeValueAtZero ph rt v) := by
  cases v <;> simp only [freeValueAtZero]
  case string => exact ⟨rfl, rfl, rfl, rfl, rfl, rfl, rfl, rfl, rfl, rfl, rfl, rfl, rfl⟩
  case object =>
    split_ifs
    · exact CountsOnly.refl rt
    · exact ⟨rfl, rfl, rfl, rfl, rfl, rfl, rfl, rfl, rfl, rfl, rfl, rfl, rfl⟩
  all_goals exact CountsOnly.refl rt

theorem freeValueIn_countsOnly (ph : GCPhase) (rt : JSRuntime) (v : JSValue) :
    CountsOnly rt (freeValueIn ph rt v) := by
  unfold freeValueIn
  dsimp only
  split_ifs
  · exact (setRefCount_countsOnly rt _).trans (freeValueAtZero_countsOnly ph _ v)
  · exact setRefCount_countsOnly rt _
  · exact CountsOnly.refl rt

theorem foldl_freeValueIn_countsOnly (ph : GCPhase) (vs : List JSValue) (rt : JSRuntime) :
    CountsOnly rt (vs.foldl (freeValueIn ph) rt) := by
  induction vs generalizing rt with
  | nil => exact CountsOnly.refl rt
  | cons v vs ih => exact (freeValueIn_countsOnly ph rt v).trans (ih _)

theorem jsDupValue_countsOnly (rt : JSRuntime) (v : JSValue) :
    CountsOnly rt (jsDupValue rt v) := by
  unfold jsDupValue
  split_ifs
  · exact setRefCount_countsOnly rt _
  · exact CountsOnly.refl rt

/-! ## Counts -/

theorem freeValueIn_refCount (ph : GCPhase) (rt : JSRuntime) (v w : JSValue)
    (hw : w.hasRefCount) :
    (freeValueIn ph rt v).refCount w = rt.refCount w - if v = w then 1 else 0 := by
  have hupdate : ∀ n, (freeValueAtZero ph
      { rt with refCount := Function.update rt.refCount v n } v).refCount =
      Function.update rt.refCount v n := by
    intro n
    cases v <;> simp only [freeValueAtZero]
    split_ifs <;> rfl
  unfold freeValueIn
  by_cases hvw : v = w
  · subst hvw
    simp only [hw, if_true]
    split_ifs with hzero <;> simp [hupdate, hzero]
  · simp only [hvw, if_false, Nat.sub_zero]
    split_ifs <;> simp [hupdate, Function.update_of_ne (Ne.symm hvw)]

theorem freeValueIn_strings (ph : GCPhase) (rt : JSRuntime) (v : JSValue) (p : Nat) :
    (freeValueIn ph rt v).strings p =
      if v = .string p ∧ rt.refCount v - 1 = 0 then none else rt.strings p := by
  unfold freeValueIn
  cases v with
  | string q =>
    simp only [JSValue.hasRefCount, if_true, JSValue.string.injEq, freeValueAtZero]
    by_cases hqp : q = p
    · subst hqp; split_ifs <;> simp_all
    · split_ifs <;> simp_all [Function.update_of_ne (Ne.symm hqp)]
  | object q => simp only [freeValueAtZero]; split_ifs <;> simp_all
  | _ => simp [JSValue.hasRefCount]

/-- A release hands one of the pending references back. -/
theorem freeValueIn_counted {ph : GCPhase} {rt : JSRuntime} {v : JSValue} {pend : List JSValue}
    {lost : JSValue → Nat} (h : Counted rt (v :: pend) lost) :
    Counted (freeValueIn ph rt v) pend lost where
  count w hw := by
    have hcount := h.count w hw
    rw [freeValueIn_refCount ph rt v w hw, (freeValueIn_countsOnly ph rt v).tally, hcount,
      List.count_cons]
    by_cases hvw : v = w
    · simp only [hvw, beq_self_eq_true, if_true]; omega
    · simp [hvw]
  strings p := by
    have hstr := h.strings p
    have hcount := h.count (.string p) rfl
    rw [freeValueIn_strings, freeValueIn_refCount ph rt v _ rfl]
    rw [List.count_cons] at hcount
    by_cases hvp : v = .string p
    · subst hvp
      simp only [true_and, if_true]
      split_ifs with hzero
      · simp; omega
      · rw [hstr]; omega
    · simp [hvp, hstr]
  unused p hp := by
    rw [(freeValueIn_countsOnly ph rt v).next] at hp
    rw [freeValueIn_refCount ph rt v _ rfl, h.unused p hp, Nat.zero_sub]

theorem foldl_freeValueIn_counted (ph : GCPhase) {vs : List JSValue} {rt : JSRuntime}
    {pend : List JSValue} {lost : JSValue → Nat} (h : Counted rt (vs ++ pend) lost) :
    Counted (vs.foldl (freeValueIn ph) rt) pend lost := by
  induction vs generalizing rt with
  | nil => exact h
  | cons v vs ih => exact ih (freeValueIn_counted h)

theorem jsDupValue_refCount (rt : JSRuntime) (v w : JSValue) (hw : w.hasRefCount) :
    (jsDupValue rt v).refCount w = rt.refCount w + if v = w then 1 else 0 := by
  unfold jsDupValue
  by_cases hvw : v = w
  · subst hvw; simp [hw]
  · split_ifs <;> simp [Function.update_of_ne (Ne.symm hvw)]

/-- A duplicated value is one more pending reference. -/
theorem jsDupValue_counted {rt : JSRuntime} {v : JSValue} {pend : List JSValue}
    {lost : JSValue → Nat} (h : Counted rt pend lost) (hlive : rt.live v) :
    Counted (jsDupValue rt v) (v :: pend) lost where
  count w hw := by
    rw [jsDupValue_refCount rt v w hw, (jsDupValue_countsOnly rt v).tally, h.count w hw,
      List.count_cons]
    by_cases hvw : v = w
    · simp only [hvw, beq_self_eq_true, if_true]; omega
    · simp [hvw]
  strings p := by
    have hstr := h.strings p
    have hsame : (jsDupValue rt v).strings = rt.strings := by unfold jsDupValue; split_ifs <;> rfl
    rw [hsame, jsDupValue_refCount rt v _ rfl, hstr]
    by_cases hvp : v = .string p
    · subst hvp
      have : 0 < rt.refCount (.string p) := hstr.mp hlive
      simp; omega
    · simp [hvp]
  unused p hp := by
    rw [(jsDupValue_countsOnly rt v).next] at hp
    rw [jsDupValue_refCount rt v _ rfl, h.unused p hp, if_neg, Nat.add_zero]
    rintro rfl
    have hpos : 0 < rt.refCount (.string p) := (h.strings p).mp hlive
    have := h.unused p hp
    omega

/-! ## The lists of objects -/

theorem freeValueIn_linked {rt : JSRuntime} {v : JSValue} (h : Linked rt)
    (hpos : v.hasRefCount → 0 < rt.refCount v) : Linked (freeValueIn .decref rt v) := by
  cases v with
  | object p =>
    have hp : 0 < rt.refCount (.object p) := hpos rfl
    have hgc := (h.mem_gc p).mpr hp
    have hcount : ∀ q, q ≠ p → JSValue.object q ≠ .object p := by simp
    simp only [freeValueIn, freeValueAtZero, JSValue.hasRefCount, if_true, reduceCtorEq, if_false]
    split_ifs with hzero
    · refine ⟨h.gc_nodup.erase p, List.nodup_cons.mpr ⟨?_, h.zero_nodup⟩, fun q => ?_,
        fun q => ?_, fun q => ?_⟩
      · rw [h.mem_zero]; omega
      · dsimp only
        rw [h.gc_nodup.mem_erase_iff, h.mem_gc]
        by_cases hq : q = p
        · subst hq; simp; omega
        · simp [hq]
      · dsimp only
        rw [List.mem_cons, h.mem_zero]
        by_cases hq : q = p
        · subst hq; simpa [hzero] using h.alloc q hp
        · simp [hq]
      · dsimp only
        by_cases hq : q = p
        · subst hq; intro; exact h.alloc q hp
        · rw [Function.update_of_ne (hcount q hq)]; exact h.alloc q
    · refine ⟨h.gc_nodup, h.zero_nodup, fun q => ?_, fun q => ?_, fun q => ?_⟩
      all_goals
        dsimp only
        by_cases hq : q = p
      · subst hq; simp [hgc]; omega
      · rw [Function.update_of_ne (hcount q hq)]; exact h.mem_gc q
      · subst hq; rw [h.mem_zero]; simp; omega
      · rw [Function.update_of_ne (hcount q hq)]; exact h.mem_zero q
      · subst hq; intro; exact h.alloc q hp
      · rw [Function.update_of_ne (hcount q hq)]; exact h.alloc q
  | string p =>
    have hcount : ∀ (n q : Nat), Function.update rt.refCount (.string p) n (.object q) =
        rt.refCount (.object q) := fun n q => Function.update_of_ne (by simp) ..
    simp only [freeValueIn, freeValueAtZero, JSValue.hasRefCount, if_true]
    split_ifs <;>
      exact ⟨h.gc_nodup, h.zero_nodup, fun q => by simpa [hcount] using h.mem_gc q,
        fun q => by simpa [hcount] using h.mem_zero q,
        fun q => by simpa [hcount] using h.alloc q⟩
  | _ => exact h

theorem foldl_freeValueIn_linked {vs : List JSValue} {rt : JSRuntime} {pend : List JSValue}
    {lost : JSValue → Nat} (hc : Counted rt (vs ++ pend) lost) (h : Linked rt) :
    Linked (vs.foldl (freeValueIn .decref) rt) := by
  induction vs generalizing rt with
  | nil => exact h
  | cons v vs ih =>
    refine ih (freeValueIn_counted hc) (freeValueIn_linked h fun hv => ?_)
    have hcount := hc.count v hv
    rw [List.cons_append, List.count_cons_self] at hcount
    omega

/-- Objects only move between the two lists. -/
theorem freeValueIn_length {rt : JSRuntime} {v : JSValue} (h : Linked rt)
    (hpos : v.hasRefCount → 0 < rt.refCount v) :
    (freeValueIn .decref rt v).gcObjList.length +
        (freeValueIn .decref rt v).gcZeroRefCountList.length =
      rt.gcObjList.length + rt.gcZeroRefCountList.length := by
  cases v with
  | object p =>
    have hgc := (h.mem_gc p).mpr (hpos rfl)
    have hlen := List.length_pos_of_mem hgc
    simp only [freeValueIn, freeValueAtZero, JSValue.hasRefCount, if_true, reduceCtorEq, if_false]
    split_ifs
    · simp only [List.length_erase_of_mem hgc, List.length_cons]; omega
    · rfl
  | string p =>
    simp only [freeValueIn, freeValueAtZero, JSValue.hasRefCount, if_true]
    split_ifs <;> rfl
  | _ => rfl

theorem foldl_freeValueIn_length {vs : List JSValue} {rt : JSRuntime} {pend : List JSValue}
    {lost : JSValue → Nat} (hc : Counted rt (vs ++ pend) lost) (h : Linked rt) :
    (vs.foldl (freeValueIn .decref) rt).gcObjList.length +
        (vs.foldl (freeValueIn .decref) rt).gcZeroRefCountList.length =
      rt.gcObjList.length + rt.gcZeroRefCountList.length := by
  induction vs generalizing rt with
  | nil => rfl
  | cons v vs ih =>
    have hpos : v.hasRefCount → 0 < rt.refCount v := by
      intro hv
      have hcount := hc.count v hv
      rw [List.cons_append, List.count_cons_self] at hcount
      omega
    rw [List.foldl_cons, ih (freeValueIn_counted hc) (freeValueIn_linked h hpos),
      freeValueIn_length h hpos]

end IoQuickJS
