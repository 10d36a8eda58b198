import IoQuickJS.Transfer

/-!
# What the functions of the std module do

For each function: the accounts it keeps, and the state it comes from by work on the heap alone.
-/
namespace IoQuickJS

open Function (update update_self update_of_ne)

section Capability

variable {rt : JSRuntime} {pend : List JSValue} {lost : JSValue → Nat}

theorem Ready.newResolvingFunction (h : Ready rt pend lost) {promise : JSValue}
    (hlive : rt.live promise) : Ready (jsNewResolvingFunction rt promise).1
      ((jsNewResolvingFunction rt promise).2 :: pend) lost := by
  have hnew := (h.dup hlive).newObject .function
  refine (hnew.perm (List.Perm.swap promise _ pend)).addProp ?_
  simp [jsNewObjectClass, (jsDupValue_countsOnly rt promise).next]

theorem jsNewResolvingFunction_evolves (rt : JSRuntime) (promise : JSValue) :
    Evolves rt (jsNewResolvingFunction rt promise).1 :=
  ((jsDupValue_evolves rt promise).trans (jsNewObjectClass_evolves _ .function)).trans
    (modifyProp_evolves (jsNewObjectClass (jsDupValue rt promise) .function).1 rt.next
      fun vs => vs ++ [promise])

theorem jsNewResolvingFunction_spec (rt : JSRuntime) (promise : JSValue) :
    (jsNewResolvingFunction rt promise).2 = .object rt.next ∧
      (jsNewResolvingFunction rt promise).1.next = rt.next + 1 ∧
      (jsNewResolvingFunction rt promise).1.isFunction (.object rt.next) ∧
      (∀ p < rt.next, (jsNewResolvingFunction rt promise).1.objects p = rt.objects p) := by
  have hframe := jsDupValue_countsOnly rt promise
  refine ⟨?_, ?_, ?_, fun p hp => ?_⟩
  · simp [jsNewResolvingFunction, jsNewObjectClass, hframe.next]
  · simp [jsNewResolvingFunction, jsNewObjectClass, JSRuntime.modifyProp, hframe.next]
  · simp [jsNewResolvingFunction, jsNewObjectClass, JSRuntime.modifyProp, JSRuntime.isFunction,
      hframe.next]
  · simp [jsNewResolvingFunction, jsNewObjectClass, JSRuntime.modifyProp, hframe.next,
      hframe.objects, Nat.ne_of_lt hp]

theorem jsNewPromiseCapability_ok (rt : JSRuntime) :
    jsNewPromiseCapability rt true =
      let a := jsNewObjectClass rt .object
      let b := jsNewResolvingFunction a.1 a.2
      let c := jsNewResolvingFunction b.1 a.2
      (c.1, a.2, some (b.2, c.2)) := rfl

/-- A promise capability is three references, two of them to new functions. -/
theorem Ready.newPromiseCapability (h : Ready rt pend lost) :
    ∃ rt' promise resolve reject,
      jsNewPromiseCapability rt true = (rt', promise, some (resolve, reject)) ∧
      Ready rt' (promise :: resolve :: reject :: pend) lost ∧ Evolves rt rt' ∧
      (∀ p < rt.next, rt'.objects p = rt.objects p) ∧
      rt'.isFunction resolve ∧ rt'.isFunction reject ∧
      ∃ p, resolve = .object p ∧ rt.next ≤ p := by
  rw [jsNewPromiseCapability_ok]
  dsimp only
  have ha := h.newObject .object
  have hevolves := jsNewObjectClass_evolves rt .object
  have hnext : (jsNewObjectClass rt .object).1.next = rt.next + 1 := rfl
  have hsame : ∀ p < rt.next, (jsNewObjectClass rt .object).1.objects p = rt.objects p :=
    fun p hp => by simp [jsNewObjectClass, Nat.ne_of_lt hp]
  generalize jsNewObjectClass rt .object = a at *
  have hb := ha.newResolvingFunction (ha.live_of_pend (v := a.2) (by simp))
  obtain ⟨hfunc, hnext', hisFunc, hsame'⟩ := jsNewResolvingFunction_spec a.1 a.2
  have hevolves' := jsNewResolvingFunction_evolves a.1 a.2
  generalize jsNewResolvingFunction a.1 a.2 = b at *
  have hc := hb.newResolvingFunction (hb.live_of_pend (v := a.2) (by simp))
  obtain ⟨hfunc'', -, hisFunc'', hsame''⟩ := jsNewResolvingFunction_spec b.1 a.2
  have hevolves'' := jsNewResolvingFunction_evolves b.1 a.2
  generalize jsNewResolvingFunction b.1 a.2 = c at *
  refine ⟨c.1, a.2, b.2, c.2, rfl, hc.perm ?_, (hevolves.trans hevolves').trans hevolves'',
    fun p hp => ?_, ?_, ?_, a.1.next, hfunc, by omega⟩
  · -- `c, b, a` to `a, b, c`
    exact (List.Perm.swap ..).trans (((List.Perm.swap ..).cons _).trans (List.Perm.swap ..))
  · rw [hsame'' p (by omega), hsame' p (by omega), hsame p hp]
  · rw [hfunc]
    simp only [JSRuntime.isFunction] at hisFunc ⊢
    rwa [hsame'' _ (by omega)]
  · rw [hfunc'']
    exact hisFunc''

end Capability

/-! ## Timer records -/

section Records

variable {rt : JSRuntime} {pend : List JSValue} {lost : JSValue → Nat} {r : Nat} {tmr : JSIOTimer}

theorem Ready.newTimer {resolve reject : JSValue} (h : Ready rt (resolve :: reject :: pend) lost)
    (onTimeout : TimeoutHandler) : Ready (newIOTimer rt resolve reject onTimeout).1 pend lost := by
  obtain ⟨hobj, htmr, hsock⟩ := h.unused
  have htally : ∀ v, (newIOTimer rt resolve reject onTimeout).1.tally v =
      rt.tally v + [resolve, reject].count v := by
    intro v
    have hobjects := Ledger.tally_succ_of_none JSObject.prop v hobj
    have htimers := Ledger.tally_alloc JSIOTimer.slots v htmr
      (some ⟨false, resolve, reject, false, onTimeout⟩)
    have hsockets := Ledger.tally_succ_of_none IoJsIoSocket.slots v hsock
    simp only [Ledger.entry_some, JSIOTimer.slots] at htimers
    simp only [JSRuntime.tally, JSRuntime.jobSlots, newIOTimer]
    omega
  have hother : ∀ q ≠ rt.next, (newIOTimer rt resolve reject onTimeout).1.timers q =
      rt.timers q := fun q hq => update_of_ne hq ..
  refine ⟨⟨fun v hv => ?_, h.counted.strings,
      fun p hp => h.counted.unused p (Nat.le_of_succ_le hp)⟩,
    ⟨h.linked.1, h.linked.2, h.linked.3, h.linked.4, h.linked.5⟩, ?_, h.zero, h.tmp, h.unmarked⟩
  · have hcount := h.counted.count v hv
    simp only [List.count_cons, List.count_nil] at htally hcount
    have := htally v
    change rt.refCount v = _
    omega
  · refine ⟨fun p hp => Nat.lt_succ_of_lt (h.owned.objects_lt p hp), fun q hq => ?_,
      fun q hq => Nat.lt_succ_of_lt (h.owned.sockets_lt q hq), fun p q hp => ?_,
      h.owned.timer_inj, fun q t ht hhas => ?_, fun q t ht hhas => ?_, h.owned.socket_record,
      h.owned.socket_inj, h.owned.socket_object⟩
    · by_cases hqn : q = rt.next
      · rw [hqn]; exact Nat.lt_succ_self _
      · rw [hother q hqn] at hq
        exact Nat.lt_succ_of_lt (h.owned.timers_lt q hq)
    · obtain ⟨t, ht, hhas⟩ := h.owned.timer_record p q hp
      have hqn : q ≠ rt.next := by
        rintro rfl
        simp [htmr] at ht
      exact ⟨t, (hother q hqn).trans ht, hhas⟩
    · by_cases hqn : q = rt.next
      · subst hqn
        simp only [newIOTimer, update_self, Option.some.injEq] at ht
        simp [← ht] at hhas
      · rw [hother q hqn] at ht
        exact h.owned.timer_object q t ht hhas
    · by_cases hqn : q = rt.next
      · subst hqn
        simp only [newIOTimer, update_self, Option.some.injEq] at ht
        simp [← ht] at hhas
      · rw [hother q hqn] at ht
        exact h.owned.timer_reject q t ht hhas

theorem modifyTimer_records (f : JSIOTimer → JSIOTimer)
    (hf : ∀ t, (f t).hasObject = t.hasObject ∧ (f t).reject = t.reject) :
    SameShape rt (modifyTimer rt r f) := by
  refine ⟨⟨rfl, fun _ => rfl, fun q => ?_, fun _ => rfl⟩, rfl, rfl, rfl, rfl, rfl, rfl⟩
  by_cases hq : q = r
  · subst hq
    cases ht : rt.timers q <;> simp [modifyTimer, ht, hf]
  · simp [modifyTimer, hq]

theorem Ready.setAlarm (h : Ready rt pend lost) (r : Nat) (alarm : Bool) :
    Ready (modifyTimer rt r fun t => { t with alarm := alarm }) pend lost := by
  refine h.reshape (modifyTimer_records _ fun t => ⟨rfl, rfl⟩) fun v _ => ?_
  cases ht : rt.timers r with
  | none =>
    have hsame : update rt.timers r none = rt.timers := by rw [← ht, Function.update_eq_self]
    simp [modifyTimer, ht, hsame, JSRuntime.tally, JSRuntime.jobSlots]
  | some tmr =>
    have hupdate := Ledger.tally_update_same JSIOTimer.slots v (h.owned.timers_lt r (by simp [ht]))
      (b := { tmr with alarm := alarm }) ht rfl
    simp only [modifyTimer, ht, Option.map_some, JSRuntime.tally, JSRuntime.jobSlots]
    omega

/-- `func = tmr->resolve; tmr->resolve = JS_UNDEFINED` -/
theorem Ready.takeResolve (h : Ready rt pend lost) (ht : rt.timers r = some tmr) :
    Ready (modifyTimer rt r fun t => { t with resolve := .undefined }) (tmr.resolve :: pend)
      lost := by
  refine h.reshape (modifyTimer_records _ fun t => ⟨rfl, rfl⟩) fun v hv => ?_
  have hupdate := Ledger.tally_update (t := rt.timers) JSIOTimer.slots v
    (h.owned.timers_lt r (by simp [ht])) (some { tmr with resolve := .undefined })
  have hundefined := JSValue.undefined_ne hv
  simp only [ht, Ledger.entry_some, JSIOTimer.slots, List.count_cons, List.count_nil,
    beq_eq_false_iff_ne.mpr hundefined, Bool.false_eq_true, if_false] at hupdate
  simp only [modifyTimer, ht, Option.map_some, JSRuntime.tally, JSRuntime.jobSlots,
    List.count_cons]
  omega

/-- `free_io_js_timer` of a record that no object points to any more. -/
theorem Ready.freeTimer (h : Ready rt pend lost) (ht : rt.timers r = some tmr)
    (hhas : tmr.hasObject = false) :
    Ready (freeIoJsTimer jsFreeValueRT rt r tmr) pend lost ∧
      Shrinks { rt with timers := update rt.timers r none }
        (freeIoJsTimer jsFreeValueRT rt r tmr) := by
  have hr := h.owned.timers_lt r (by simp [ht])
  have hready : Ready { rt with timers := update rt.timers r none } (tmr.slots ++ pend) lost := by
    refine ⟨timerRemoved_counted ht hr h.counted, ⟨h.linked.1, h.linked.2, h.linked.3, h.linked.4,
      h.linked.5⟩, ?_, h.zero, h.tmp, h.unmarked⟩
    have hother : ∀ p q, rt.opaqueOf p .ioTimer = some q → q ≠ r := by
      rintro p q hp rfl
      obtain ⟨t, ht', hhas'⟩ := h.owned.timer_record p q hp
      obtain rfl : tmr = t := Option.some.inj (ht.symm.trans ht')
      simp [hhas] at hhas'
    have hbefore : ∀ q t, update rt.timers r none q = some t → rt.timers q = some t := by
      intro q t hq
      by_cases hqr : q = r
      · simp [hqr] at hq
      · rwa [update_of_ne hqr] at hq
    refine ⟨h.owned.objects_lt, fun q hq => ?_, h.owned.sockets_lt, fun p q hp => ?_,
      h.owned.timer_inj, fun q t hq => h.owned.timer_object q t (hbefore q t hq),
      fun q t hq => h.owned.timer_reject q t (hbefore q t hq), h.owned.socket_record,
      h.owned.socket_inj, h.owned.socket_object⟩
    · by_cases hqr : q = r
      · exact hqr ▸ hr
      · exact h.owned.timers_lt q (by simpa [update_of_ne hqr] using hq)
    · obtain ⟨t, ht', hhas'⟩ := h.owned.timer_record p q hp
      exact ⟨t, by simpa [update_of_ne (hother p q hp)] using ht', hhas'⟩
  exact hready.foldl_free

/-- Tying a new timer object to its record. -/
theorem Ready.attachTimer {p : Nat} (h : Ready rt pend lost) (ht : rt.timers r = some tmr)
    (hp : rt.objects p = some ⟨.ioTimer, none, []⟩) (hhas : tmr.hasObject = false)
    (hreject : tmr.reject = .undefined) :
    Ready (jsSetOpaque (modifyTimer rt r fun t => { t with hasObject := true }) (.object p) r)
      pend lost := by
  have hattached : Attached rt
      (jsSetOpaque (modifyTimer rt r fun t => { t with hasObject := true }) (.object p) r)
      .ioTimer p r := ⟨hp, (jsSetOpaque_attached hp).objects⟩
  have htimers : ∀ q, (jsSetOpaque (modifyTimer rt r fun t => { t with hasObject := true })
      (.object p) r).timers q = if q = r then some { tmr with hasObject := true }
        else rt.timers q := by
    intro q
    by_cases hq : q = r <;> simp [jsSetOpaque, modifyTimer, hq, ht]
  have htally : ∀ v, (jsSetOpaque (modifyTimer rt r fun t => { t with hasObject := true })
      (.object p) r).tally v = rt.tally v := by
    intro v
    have hobj := Ledger.tally_update_same JSObject.prop v (h.owned.objects_lt p (by simp [hp]))
      (b := ⟨.ioTimer, some r, []⟩) hp rfl
    have htmr := Ledger.tally_update_same JSIOTimer.slots v (h.owned.timers_lt r (by simp [ht]))
      (b := { tmr with hasObject := true }) ht rfl
    simp only [jsSetOpaque, modifyTimer, ht, hp, Option.map_some, JSRuntime.tally,
      JSRuntime.jobSlots]
    omega
  have hfresh : ∀ q, rt.opaqueOf q .ioTimer ≠ some r := by
    intro q hq
    obtain ⟨t, ht', hhas'⟩ := h.owned.timer_record q r hq
    obtain rfl : tmr = t := Option.some.inj (ht.symm.trans ht')
    simp [hhas] at hhas'
  have hsocket : ∀ q s, (jsSetOpaque (modifyTimer rt r fun t => { t with hasObject := true })
      (.object p) r).opaqueOf q .ioSocket = some s → rt.opaqueOf q .ioSocket = some s :=
    fun q s hq => (hattached.cases hq).resolve_left (by simp)
  refine h.of_owned ⟨Nat.le_refl _, hattached.isSome, rfl, rfl, rfl, rfl, rfl, rfl⟩
    (fun v _ => by rw [htally]) ?_
  refine ⟨fun q hq => ?_, fun q hq => ?_, h.owned.sockets_lt, fun q s hq => ?_,
    fun q q' s => hattached.inj hfresh h.owned.timer_inj, fun q t hq hhas' => ?_,
    fun q t hq hhas' => ?_, fun q s hq => h.owned.socket_record q s (hsocket q s hq),
    fun q q' s hq hq' => h.owned.socket_inj q q' s (hsocket q s hq) (hsocket q' s hq'),
    fun s hs => ?_⟩
  · exact h.owned.objects_lt q (by rwa [← hattached.isSome])
  · rw [htimers] at hq
    split_ifs at hq with hqr
    · exact hqr ▸ h.owned.timers_lt r (by simp [ht])
    · exact h.owned.timers_lt q hq
  · rw [htimers]
    rcases hattached.cases hq with ⟨-, -, rfl⟩ | hold
    · simp
    · have hsr : s ≠ r := fun he => hfresh q (he ▸ hold)
      simpa [hsr] using h.owned.timer_record q s hold
  · by_cases hqr : q = r
    · exact ⟨p, hqr ▸ hattached.self⟩
    · rw [htimers, if_neg hqr] at hq
      obtain ⟨p', hp'⟩ := h.owned.timer_object q t hq hhas'
      exact ⟨p', hattached.keeps hp'⟩
  · rw [htimers] at hq
    split_ifs at hq with hqr
    · obtain rfl := Option.some.inj hq
      exact hreject
    · exact h.owned.timer_reject q t hq hhas'
  · obtain ⟨p', hp'⟩ := h.owned.socket_object s hs
    exact ⟨p', hattached.keeps hp'⟩

end Records

/-! ## The functions -/

section Functions

variable {rt : JSRuntime} {pend : List JSValue} {lost : JSValue → Nat}

theorem jsThrowTypeError_spec (h : Ready rt pend lost) (message : String) :
    Ready (jsThrowTypeError rt message).1 ((jsThrowTypeError rt message).2 :: pend) lost ∧
      Evolves rt (jsThrowTypeError rt message).1 :=
  ⟨(Ready.cons_iff rfl).mpr (h.setFields rt.events rt.log _ rt.panicked),
    .of_same (Nat.le_refl _) (fun _ _ => rfl) rfl rfl rfl rfl rfl rfl⟩

theorem jsThrow_spec (h : Ready rt pend lost) (e : JSError) :
    Ready { rt with currentException := some e } (.exception :: pend) lost ∧
      Evolves rt { rt with currentException := some e } :=
  ⟨(Ready.cons_iff rfl).mpr (h.setFields rt.events rt.log _ rt.panicked),
    .of_same (Nat.le_refl _) (fun _ _ => rfl) rfl rfl rfl rfl rfl rfl⟩

theorem jsNewObjectClass_live {v : JSValue} (hlive : rt.live v) (cls : JSClassID) :
    (jsNewObjectClass rt cls).1.live v := by
  cases v with
  | object p =>
    by_cases hp : p = rt.next
    · simp [JSRuntime.live, jsNewObjectClass, hp]
    · simpa [JSRuntime.live, jsNewObjectClass, hp] using hlive
  | _ => exact hlive

theorem isFunction_live {v : JSValue} (h : rt.isFunction v) : rt.live v := by
  cases v with
  | object p => exact Option.isSome_of_any h
  | _ => cases h

theorem ioJsSetTimeout_spec (h : Ready rt pend lost) (func : JSValue)
    (delayOk objOk tmrOk : Bool) :
    Ready (ioJsSetTimeout rt func delayOk objOk tmrOk).1
        ((ioJsSetTimeout rt func delayOk objOk tmrOk).2 :: pend) lost ∧
      (Evolves rt (ioJsSetTimeout rt func delayOk objOk tmrOk).1 ∨
        rt.isFunction func ∧ ∃ r, rt.next ≤ r ∧ Evolves { rt with
          timers := update rt.timers r (some ⟨true, func, .undefined, true, .setTimeout⟩)
          log := rt.log ++ [.armed r func] }
          (ioJsSetTimeout rt func delayOk objOk tmrOk).1) := by
  unfold ioJsSetTimeout
  split_ifs with hfunc hdelay hobj htmr
  · obtain ⟨hready, hevolves⟩ := jsThrowTypeError_spec h "not a function"
    exact ⟨hready, .inl hevolves⟩
  · obtain ⟨hready, hevolves⟩ := jsThrow_spec h .thrown
    exact ⟨hready, .inl hevolves⟩
  · obtain ⟨hready, hevolves⟩ := jsThrow_spec h .outOfMemory
    exact ⟨hready, .inl hevolves⟩
  · -- the new object is released again
    have hnew := h.newObject .ioTimer
    obtain ⟨hready, hevolves⟩ := jsThrow_spec hnew .outOfMemory
    obtain ⟨hfree, hshrinks⟩ := ((Ready.cons_iff rfl).mp hready).free
    refine ⟨(Ready.cons_iff rfl).mpr hfree, .inl ?_⟩
    exact ((jsNewObjectClass_evolves rt .ioTimer).trans hevolves).trans hshrinks.evolves
  · have hisFunc : rt.isFunction func := by simpa using hfunc
    obtain ⟨q, rfl⟩ : ∃ q, func = .object q := by
      cases func <;> simp_all [JSRuntime.isFunction]
    have hnew := h.newObject .ioTimer
    have hdup := hnew.dup (jsNewObjectClass_live (isFunction_live hisFunc) .ioTimer)
    have hslots := ((Ready.cons_iff (v := .undefined) rfl).mpr hdup).perm (List.Perm.swap ..)
    have harmed := (hslots.newTimer .setTimeout).setAlarm (rt.next + 1) true
    have hrecord : ∀ rt' : JSRuntime, rt'.next = rt.next + 1 →
        (modifyTimer (newIOTimer rt' (.object q) .undefined .setTimeout).1 (rt.next + 1)
          fun t => { t with alarm := true }).timers (rt.next + 1) =
          some ⟨false, .object q, .undefined, true, .setTimeout⟩ := by
      intro rt' hnext
      simp [modifyTimer, newIOTimer, hnext]
    have hattached := harmed.attachTimer (p := rt.next) (hrecord _ rfl)
      (by simp [modifyTimer, newIOTimer, jsDupValue, jsNewObjectClass, JSValue.hasRefCount])
      rfl rfl
    refine ⟨hattached.addLog [.armed (rt.next + 1) (.object q)],
      .inr ⟨hisFunc, rt.next + 1, Nat.le_succ _, ?_⟩⟩
    refine .of_same (Nat.le_add_right _ 2) (fun p hp => ?_) ?_ rfl rfl rfl rfl rfl
    · have hpn := Nat.ne_of_lt hp
      simp [jsSetOpaque, modifyTimer, ioEnqueueAlarm, newIOTimer, jsDupValue, jsNewObjectClass,
        JSValue.hasRefCount, hpn]
    · simp [jsSetOpaque, modifyTimer, ioEnqueueAlarm, newIOTimer, jsDupValue, jsNewObjectClass,
        JSValue.hasRefCount]

theorem ioJsAfter_spec {res : JSRuntime × JSValue} (h : Ready rt pend lost)
    {capOk delayOk tmrOk : Bool} (hres : ioJsAfter rt capOk delayOk tmrOk = some res) :
    (∃ lost', Ready res.1 (res.2 :: pend) lost' ∧
      ((capOk → delayOk ∧ tmrOk) → lost' = lost)) ∧
      (Evolves rt res.1 ∨ ∃ r resolve reject, rt.next ≤ r ∧ res.1.isFunction resolve ∧
        Evolves { rt with
          timers := update rt.timers r (some ⟨false, resolve, reject, true, .after⟩)
          log := rt.log ++ [.armed r resolve] } res.1) := by
  cases capOk with
  | false =>
    obtain ⟨hready, hevolves⟩ := jsThrow_spec h .outOfMemory
    have hthrow := (Ready.cons_iff rfl).mp hready
    cases delayOk with
    | false =>
      obtain rfl := Option.some.inj hres
      obtain ⟨hready', hevolves'⟩ := jsThrow_spec hthrow .thrown
      exact ⟨⟨lost, hready', fun _ => rfl⟩, .inl (hevolves.trans hevolves')⟩
    | true =>
      cases tmrOk with
      | true => cases hres
      | false =>
        obtain rfl := Option.some.inj hres
        obtain ⟨hready', hevolves'⟩ := jsThrow_spec hthrow .outOfMemory
        obtain ⟨hfree, hshrinks⟩ := hready'.free
        exact ⟨⟨lost, (Ready.cons_iff rfl).mpr hfree, fun _ => rfl⟩,
          .inl ((hevolves.trans hevolves').trans hshrinks.evolves)⟩
  | true =>
    obtain ⟨rt', promise, resolve, reject, hcap, hready, hevolves, -, hisFunc, -, -⟩ :=
      h.newPromiseCapability
    simp only [ioJsAfter, hcap] at hres
    cases delayOk with
    | false =>
      -- neither the promise nor its functions are given back
      obtain rfl := Option.some.inj hres
      have hlost := hready.lose [promise, resolve, reject]
      obtain ⟨hready', hevolves'⟩ := jsThrow_spec hlost .thrown
      exact ⟨⟨_, hready', by simp⟩, .inl (hevolves.trans hevolves')⟩
    | true =>
      cases tmrOk with
      | false =>
        -- the promise is given back, its functions are not
        obtain rfl := Option.some.inj hres
        obtain ⟨hready', hevolves'⟩ := jsThrow_spec hready .outOfMemory
        obtain ⟨hfree, hshrinks⟩ := ((Ready.cons_iff rfl).mp hready').free
        have hlost := hfree.lose [resolve, reject]
        exact ⟨⟨_, (Ready.cons_iff rfl).mpr hlost, by simp⟩,
          .inl ((hevolves.trans hevolves').trans hshrinks.evolves)⟩
      | true =>
        obtain rfl := Option.some.inj hres
        have hslots : Ready rt' (resolve :: reject :: promise :: pend) lost := by
          refine hready.perm ((List.Perm.swap ..).trans ((List.Perm.swap ..).cons _))
        have harmed := (hslots.newTimer .after).setAlarm rt'.next true
        refine ⟨⟨lost, harmed.addLog [.armed rt'.next resolve], fun _ => rfl⟩,
          .inr ⟨rt'.next, resolve, reject, hevolves.next_le, hisFunc, ?_⟩⟩
        refine ⟨hevolves.next_le.trans (Nat.le_succ _), hevolves.objects, fun r => ?_,
          hevolves.sockets, hevolves.events, hevolves.jobList, hevolves.running,
          congrArg (· ++ [_]) hevolves.log⟩
        by_cases hr : r = rt'.next
        · exact .inl (by simp [modifyTimer, ioEnqueueAlarm, newIOTimer, hr])
        · simpa [modifyTimer, ioEnqueueAlarm, newIOTimer, hr] using hevolves.timers r

theorem ioJsClearTimeout_spec (h : Ready rt pend lost) (t : JSValue) :
    Ready (ioJsClearTimeout rt t).1 ((ioJsClearTimeout rt t).2 :: pend) lost ∧
      (Evolves rt (ioJsClearTimeout rt t).1 ∨ ∃ r tmr, rt.getOpaque t .ioTimer = some r ∧
        rt.timers r = some tmr ∧ Evolves { rt with
          timers := update rt.timers r (some { tmr with alarm := false })
          log := rt.log ++ [.cleared r] } (ioJsClearTimeout rt t).1) := by
  unfold ioJsClearTimeout jsGetOpaque2
  cases hr : rt.getOpaque t .ioTimer with
  | none =>
    obtain ⟨hready, hevolves⟩ := jsThrowTypeError_spec h ("IOTimer" ++ " object expected")
    exact ⟨(Ready.cons_iff rfl).mpr ((Ready.cons_iff rfl).mp hready), .inl hevolves⟩
  | some r =>
    obtain ⟨p, rfl⟩ : ∃ p, t = .object p := by
      cases t <;> simp_all [JSRuntime.getOpaque]
    obtain ⟨tmr, ht, -⟩ := h.owned.timer_record p r hr
    refine ⟨(Ready.cons_iff rfl).mpr ((h.setAlarm r false).addLog [.cleared r]),
      .inr ⟨r, tmr, rfl, ht, ?_⟩⟩
    refine .of_same (Nat.le_refl _) (fun _ _ => rfl) ?_ rfl rfl rfl rfl rfl
    simp [ioDequeueAlarm, modifyTimer, ht]

/-! ## Expiry and delivery -/

/-- What `JS_EnqueueJob` does to the queue or, without memory, to the log. -/
def posted (rt : JSRuntime) (e : JSJobEntry) (ok : Bool) : JSRuntime :=
  if ok then { rt with jobList := rt.jobList ++ [e] }
  else { rt with log := rt.log ++ [.jobLost e.origin] }

theorem Evolves.posted {a b : JSRuntime} (h : Evolves a b) (e : JSJobEntry) (ok : Bool) :
    Evolves (posted a e ok) (posted b e ok) := by
  cases ok with
  | true =>
    exact ⟨h.next_le, h.objects, h.timers, h.sockets, h.events, congrArg (· ++ [e]) h.jobList,
      h.running, h.log⟩
  | false =>
    exact ⟨h.next_le, h.objects, h.timers, h.sockets, h.events, h.jobList, h.running,
      congrArg (· ++ [_]) h.log⟩

theorem jsEnqueueJob_evolves (rt : JSRuntime) (jobFunc : JSJobFunc) (argv : List JSValue)
    (origin : Option Nat) (ok : Bool) :
    Evolves (posted rt ⟨jobFunc, argv, origin⟩ ok) (jsEnqueueJob rt jobFunc argv origin ok).1 := by
  cases ok with
  | true => exact jsEnqueueJob_ok_evolves rt jobFunc argv origin
  | false => exact jsEnqueueJob_fail_evolves rt jobFunc argv origin

/-- The job that delivering the event of timer `r` queues. -/
def timeoutJob (r : Nat) (tmr : JSIOTimer) : JSJobEntry :=
  ⟨.timerContinuation, [tmr.resolve], some r⟩

/-- The record that delivering a setTimeout event leaves. -/
def JSIOTimer.delivered (tmr : JSIOTimer) : Option JSIOTimer :=
  if tmr.hasObject then some { tmr with resolve := .undefined } else none

theorem ioJsSetTimeoutOnTimeout_spec {rt' : JSRuntime} (h : Ready rt pend lost) {r : Nat}
    {enqOk : Bool} (hres : ioJsSetTimeoutOnTimeout rt r enqOk = some rt') :
    ∃ tmr, rt.timers r = some tmr ∧ Ready rt' pend lost ∧
      Evolves (posted { rt with timers := update rt.timers r tmr.delivered }
        (timeoutJob r tmr) enqOk) rt' := by
  unfold ioJsSetTimeoutOnTimeout at hres
  cases ht : rt.timers r with
  | none => simp [ht] at hres
  | some tmr =>
    refine ⟨tmr, rfl, ?_⟩
    simp only [ht] at hres
    have htaken := h.takeResolve ht
    -- the record after the handler has looked at `has_object`
    obtain ⟨rt₁, hrt₁, hready, hevolves⟩ : ∃ rt₁,
        (if tmr.hasObject then modifyTimer rt r fun t => { t with resolve := .undefined }
          else freeIoJsTimer jsFreeValueRT
            (modifyTimer rt r fun t => { t with resolve := .undefined }) r
            { tmr with resolve := .undefined }) = rt₁ ∧
        Ready rt₁ (tmr.resolve :: pend) lost ∧
        Evolves { rt with timers := update rt.timers r tmr.delivered } rt₁ := by
      cases hhas : tmr.hasObject with
      | true =>
        refine ⟨_, rfl, htaken, .of_same (Nat.le_refl _) (fun _ _ => rfl) ?_ rfl rfl rfl rfl rfl⟩
        simp [modifyTimer, ht, JSIOTimer.delivered, hhas]
      | false =>
        obtain ⟨hfreed, hshrinks⟩ := htaken.freeTimer (r := r)
          (show _ = some { tmr with resolve := .undefined } by simp [modifyTimer, ht]) hhas
        exact ⟨_, rfl, hfreed,
          by simpa [modifyTimer, JSIOTimer.delivered, hhas] using hshrinks.evolves⟩
    rw [hrt₁] at hres
    split_ifs at hres with hlive
    obtain rfl := Option.some.inj hres
    have hqueued := hready.enqueueJob .timerContinuation [tmr.resolve] (some r) enqOk
      (by simpa using hlive)
    obtain ⟨hfree, hshrinks⟩ := hqueued.free
    exact ⟨hfree, ((hevolves.posted _ enqOk).trans (jsEnqueueJob_evolves ..)).trans
      hshrinks.evolves⟩

/-- The handler does not stop at freed memory while the record is there. -/
theorem ioJsSetTimeoutOnTimeout_isSome (h : Ready rt pend lost) {r : Nat}
    (hr : (rt.timers r).isSome) (enqOk : Bool) : (ioJsSetTimeoutOnTimeout rt r enqOk).isSome := by
  obtain ⟨tmr, ht⟩ := Option.isSome_iff_exists.mp hr
  have htaken := h.takeResolve ht
  unfold ioJsSetTimeoutOnTimeout
  simp only [ht]
  have hlive : (if tmr.hasObject then modifyTimer rt r fun t => { t with resolve := .undefined }
      else freeIoJsTimer jsFreeValueRT (modifyTimer rt r fun t => { t with resolve := .undefined })
        r { tmr with resolve := .undefined }).live tmr.resolve := by
    cases hhas : tmr.hasObject with
    | true => exact htaken.live_of_pend (by simp)
    | false =>
      obtain ⟨hfreed, -⟩ := htaken.freeTimer (r := r)
        (show _ = some { tmr with resolve := .undefined } by simp [modifyTimer, ht]) hhas
      exact hfreed.live_of_pend (by simp)
  rw [if_pos hlive]
  rfl

theorem ioJsAfterOnTimeout_spec {rt' : JSRuntime} (h : Ready rt pend lost) {r : Nat}
    {enqOk : Bool} {timer : JSIOTimer} (ht : rt.timers r = some timer)
    (hhas : timer.hasObject = false) (hres : ioJsAfterOnTimeout rt r enqOk = some rt') :
    Ready rt' pend lost ∧ Evolves (posted { rt with timers := update rt.timers r none }
      (timeoutJob r timer) enqOk) rt' := by
  simp only [ioJsAfterOnTimeout, ht] at hres
  split_ifs at hres with hlive
  obtain rfl := Option.some.inj hres
  have hframe := jsDupValue_countsOnly rt timer.resolve
  have hqueued := h.enqueueJob .timerContinuation [timer.resolve] (some r) enqOk
    (by simpa using hlive)
  have hsame : (jsEnqueueJob rt .timerContinuation [timer.resolve] (some r) enqOk).1.timers =
      rt.timers := by
    cases enqOk with
    | true => exact hframe.timers
    | false => rfl
  obtain ⟨hfree, hshrinks⟩ := hqueued.freeTimer ((congrFun hsame r).trans ht) hhas
  refine ⟨hfree, Evolves.trans ?_ hshrinks.evolves⟩
  cases enqOk with
  | true =>
    exact .of_same hframe.next.ge (fun p _ => by simp [posted, jsEnqueueJob, hframe.objects])
      (by simp [posted, jsEnqueueJob, hframe.timers]) hframe.sockets hframe.events
      (congrArg (· ++ [_]) hframe.jobList) hframe.running hframe.log
  | false => exact .of_same (Nat.le_refl _) (fun _ _ => rfl) rfl rfl rfl rfl rfl rfl

theorem expireAlarm_spec {rt' : JSRuntime} (h : Ready rt pend lost) {r : Nat}
    (hres : expireAlarm rt r = some rt') :
    ∃ tmr, rt.timers r = some tmr ∧ tmr.alarm ∧ Ready rt' pend lost ∧
      (rt'.timers r).isSome ∧ Evolves { rt with
        timers := update rt.timers r (some { tmr with alarm := false })
        events := rt.events ++ [r] } rt' := by
  cases ht : rt.timers r with
  | none => simp [expireAlarm, ht] at hres
  | some tmr =>
    simp only [expireAlarm, ht] at hres
    split_ifs at hres with halarm
    obtain rfl := Option.some.inj hres
    refine ⟨tmr, rfl, halarm,
      (h.setAlarm r false).setFields _ rt.log rt.currentException rt.panicked,
      by simp [ioDequeueAlarm, modifyTimer, ht], ?_⟩
    refine .of_same (Nat.le_refl _) (fun _ _ => rfl) ?_ rfl rfl rfl rfl rfl
    simp [ioDequeueAlarm, modifyTimer, ht]

/-- Delivery takes the event off the queue, the callback out of the record, and queues the
job; the record stays only where an object still needs it. -/
theorem deliverTimeout_spec {rt' : JSRuntime} (h : Ready rt pend lost)
    (hafter : ∀ r tmr, rt.timers r = some tmr → tmr.onTimeout = .after → tmr.hasObject = false)
    {r : Nat} {enqOk : Bool} (hres : deliverTimeout rt r enqOk = some rt') :
    ∃ tmr, rt.timers r = some tmr ∧ r ∈ rt.events ∧ Ready rt' pend lost ∧
      Evolves (posted { rt with
        timers := update rt.timers r tmr.delivered
        events := rt.events.erase r } (timeoutJob r tmr) enqOk) rt' := by
  unfold deliverTimeout at hres
  split_ifs at hres with hmem
  have hready : Ready { rt with events := rt.events.erase r } pend lost :=
    h.setFields _ rt.log rt.currentException rt.panicked
  cases ht : rt.timers r with
  | none => simp [ht] at hres
  | some tmr =>
    refine ⟨tmr, rfl, hmem, ?_⟩
    cases hkind : tmr.onTimeout with
    | setTimeout =>
      simp only [ht, Option.map_some, hkind] at hres
      obtain ⟨tmr', ht', hready', hevolves⟩ := ioJsSetTimeoutOnTimeout_spec hready hres
      obtain rfl : tmr = tmr' := Option.some.inj (ht.symm.trans ht')
      exact ⟨hready', hevolves⟩
    | after =>
      have hhas := hafter r tmr ht hkind
      simp only [ht, Option.map_some, hkind] at hres
      obtain ⟨hready', hevolves⟩ := ioJsAfterOnTimeout_spec hready ht hhas hres
      refine ⟨hready', ?_⟩
      simpa [JSIOTimer.delivered, hhas] using hevolves

end Functions

end IoQuickJS
