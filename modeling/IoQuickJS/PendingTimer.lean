import IoQuickJS.Stages

/-!
# A pending timer and its callback

While the alarm of a timer is active, or its event queued, the record keeps the callback: the
reference in `resolve` is counted, so only two things can part them. The collector takes the
reference out of the counts when the timer object is garbage, although the finalizer then leaves
it to the alarm; and the finalizer frees the record of a timer whose alarm has expired, although
its event has not been delivered. The runs without these are the runs in which the callback is
safe.
-/
namespace IoQuickJS

open Function (update update_self update_of_ne)

/-- The record of timer `r` is there, and its callback is `f`, an allocated function. -/
def HoldsCallback (rt : JSRuntime) (r : Nat) (f : JSValue) : Prop :=
  ∃ tmr, rt.timers r = some tmr ∧ tmr.resolve = f ∧ rt.isFunction f

/-- The callback of every timer that can still expire or be delivered is the one it was armed
with, and allocated; and delivery can go ahead. -/
structure PendingAlive (rt : JSRuntime) : Prop where
  callback : ∀ r f, .armed r f ∈ rt.log → alarmActive rt r ∨ r ∈ rt.events → HoldsCallback rt r f
  delivery : ∀ r ∈ rt.events, ∀ enqOk, (step rt (.deliver r enqOk)).isSome

/-- The step does not free the object of a timer whose event stays queued. -/
def KeepsQueued (rt : JSRuntime) (l : Label) : Prop :=
  ∀ rt', step rt l = some rt' → ∀ p r, rt.opaqueOf p .ioTimer = some r → r ∈ rt.events →
    r ∈ rt'.events → (rt'.objects p).isSome

/-- The invariant behind `PendingAlive`. -/
structure Pending (rt : JSRuntime) : Prop where
  staged : Staged rt
  callback : ∀ r f tmr, .armed r f ∈ rt.log → rt.timers r = some tmr →
    tmr.alarm ∨ r ∈ rt.events → tmr.resolve = f ∧ rt.isFunction f
  record : ∀ r ∈ rt.events, (rt.timers r).isSome

section Callback

variable {a b : JSRuntime} {lost : JSValue → Nat}

/-- The callbacks survive work on the heap, because the records hold them. -/
theorem Evolves.callbacks (h : Evolves a b) (hb : Sound b lost)
    (hlt : ∀ p, (a.objects p).isSome → p < a.next)
    (ha : ∀ r f tmr, .armed r f ∈ a.log → a.timers r = some tmr → tmr.alarm ∨ r ∈ a.events →
      tmr.resolve = f ∧ (a.isFunction f ∨ b.isFunction f))
    (r : Nat) (f : JSValue) (tmr : JSIOTimer) (harmed : .armed r f ∈ b.log)
    (ht : b.timers r = some tmr) (hpending : tmr.alarm ∨ r ∈ b.events) :
    tmr.resolve = f ∧ b.isFunction f := by
  obtain ⟨old, hold, hresolve, halarm, -, -⟩ := h.timer_before ht
  obtain ⟨hf, hfunc⟩ := ha r f old (h.log ▸ harmed) hold
    (by rwa [halarm, ← h.events])
  have hlive := hb.ready.live_of_timer ht (v := f) (by simp [JSIOTimer.slots, ← hresolve, hf])
  exact ⟨hresolve.symm.trans hf, hfunc.elim (h.isFunction hlt · hlive) id⟩

/-- The record of a queued event survives unless its object is freed. -/
theorem Evolves.record_kept (h : Evolves a b) (hb : Owned b)
    (hlt : ∀ p, (a.objects p).isSome → p < a.next) {r : Nat} (hr : (a.timers r).isSome)
    (hobject : ∀ tmr, a.timers r = some tmr → tmr.hasObject → ∃ p, a.opaqueOf p .ioTimer = some r)
    (hkept : ∀ p, a.opaqueOf p .ioTimer = some r → (b.objects p).isSome) :
    (b.timers r).isSome := by
  rcases h.timers r with hsame | ⟨tmr, ht, hhas, -⟩
  · rwa [hsame]
  · obtain ⟨p, hp⟩ := hobject tmr ht hhas
    have hp' : p < a.next := by
      refine hlt p ?_
      by_contra hnone
      simp [JSRuntime.getOpaque, Option.not_isSome_iff_eq_none.mp hnone] at hp
    rcases h.objects p hp' with hnone | ⟨o, o', ho, ho', hcls, hptr⟩
    · have := hkept p hp
      simp [hnone] at this
    · have hptr' : b.opaqueOf p .ioTimer = some r := by
        simpa [JSRuntime.getOpaque, ho, ho', JSObject.opaqueAs, hcls, hptr] using hp
      obtain ⟨tmr', ht', -⟩ := hb.timer_record p r hptr'
      simp [ht']

end Callback

section Change

variable {rt rt' : JSRuntime} {lost lost' : JSValue → Nat}

/-- The callbacks and the records are in order before the work on the heap that a step does. -/
structure Midway (rt rt' mid : JSRuntime) : Prop where
  callback : ∀ r f tmr, .armed r f ∈ mid.log → mid.timers r = some tmr →
    tmr.alarm ∨ r ∈ mid.events → tmr.resolve = f ∧ (mid.isFunction f ∨ rt'.isFunction f)
  record : ∀ r ∈ mid.events, (rt'.timers r).isSome ∨ r ∈ rt.events ∧ ∃ tmr old,
    mid.timers r = some tmr ∧ rt.timers r = some old ∧ tmr.hasObject = old.hasObject

/-- The rule for the cases of a step. -/
theorem Pending.via (hsound : Sound rt lost) (hsound' : Sound rt' lost') (hstaged : Staged rt')
    (hkeeps : ∀ p r, rt.opaqueOf p .ioTimer = some r → r ∈ rt.events → r ∈ rt'.events →
      (rt'.objects p).isSome)
    {mid : JSRuntime} (hev : Evolves mid rt') (hmid : Midway rt rt' mid)
    (hobjects : mid.objects = rt.objects) (hnext : mid.next = rt.next) : Pending rt' := by
  have hlt : ∀ p, (mid.objects p).isSome → p < mid.next := by
    rw [hobjects, hnext]
    exact hsound.ready.owned.objects_lt
  have hptr : ∀ p, mid.opaqueOf p .ioTimer = rt.opaqueOf p .ioTimer := by
    intro p
    simp only [JSRuntime.opaqueOf, JSRuntime.getOpaque, hobjects]
  refine ⟨hstaged, hev.callbacks hsound' hlt hmid.callback, fun r hr => ?_⟩
  rcases hmid.record r (hev.events ▸ hr) with hdone | ⟨hmem, tmr, old, ht, hold, hhas⟩
  · exact hdone
  · refine hev.record_kept hsound'.ready.owned hlt (by simp [ht]) (fun t ht' hhas' => ?_)
      fun p hp => hkeeps p r (hptr p ▸ hp) hmem hr
    obtain rfl : tmr = t := Option.some.inj (ht.symm.trans ht')
    obtain ⟨p, hp⟩ := hsound.ready.owned.timer_object r old hold (hhas ▸ hhas')
    exact ⟨p, (hptr p).trans hp⟩

theorem Pending.record_mem (h : Pending rt) {r : Nat} (hr : r ∈ rt.events) :
    ∃ tmr, rt.timers r = some tmr :=
  Option.isSome_iff_exists.mp (h.record r hr)

/-- Timers and events stay as they are, and none is armed. -/
theorem Pending.same (h : Pending rt) {mid : JSRuntime} (hobjects : mid.objects = rt.objects)
    (htimers : mid.timers = rt.timers) (hevents : mid.events = rt.events)
    (hlog : ∀ r f, .armed r f ∈ mid.log → .armed r f ∈ rt.log) : Midway rt rt' mid where
  callback r f tmr harmed ht hpending := by
    rw [htimers] at ht
    rw [hevents] at hpending
    obtain ⟨hf, hfunc⟩ := h.callback r f tmr (hlog r f harmed) ht hpending
    refine ⟨hf, .inl ?_⟩
    unfold JSRuntime.isFunction at hfunc ⊢
    rwa [hobjects]
  record r hr := by
    rw [hevents] at hr
    obtain ⟨tmr, ht⟩ := h.record_mem hr
    exact .inr ⟨hr, tmr, tmr, htimers ▸ ht, ht, rfl⟩

/-- A new timer has no event yet. -/
theorem Pending.armed (h : Pending rt) {q : Nat} {tmr : JSIOTimer} (hq : rt.next ≤ q)
    (hfunc : rt'.isFunction tmr.resolve) :
    Midway rt rt' { rt with
      timers := update rt.timers q (some tmr)
      log := rt.log ++ [.armed q tmr.resolve] } where
  callback r f t harmed ht hpending := by
    by_cases hrq : r = q
    · subst hrq
      obtain rfl : tmr = t := by simpa using ht
      rcases List.mem_append.mp harmed with hold | hnew
      · exact absurd (h.staged.armed_lt r f hold) (by omega)
      · obtain ⟨-, rfl⟩ := Observation.armed.inj (List.mem_singleton.mp hnew)
        exact ⟨rfl, .inr hfunc⟩
    · exact (h.callback r f t (by simpa [hrq] using harmed) (by simpa [hrq] using ht)
        hpending).imp_right .inl
  record r hr := by
    have hrq : r ≠ q := by
      rintro rfl
      have hzero := h.staged.fresh r hq
      have hpos : 0 < rt.events.count r := List.count_pos_iff.mpr hr
      simp only [stages] at hzero
      omega
    obtain ⟨t, ht⟩ := h.record_mem hr
    exact .inr ⟨hr, t, t, by simpa [hrq] using ht, ht, rfl⟩

/-- clearTimeout leaves a queued event with the record it has. -/
theorem Pending.cleared (h : Pending rt) {q : Nat} {tmr : JSIOTimer} (ht : rt.timers q = some tmr) :
    Midway rt rt' { rt with
      timers := update rt.timers q (some { tmr with alarm := false })
      log := rt.log ++ [.cleared q] } where
  callback r f new harmed hnew hpending := by
    have harmed' : .armed r f ∈ rt.log := by simpa using harmed
    by_cases hrq : r = q
    · subst hrq
      obtain rfl : { tmr with alarm := false } = new := by simpa using hnew
      exact (h.callback r f tmr harmed' ht (.inr (by simpa using hpending))).imp_right .inl
    · exact (h.callback r f new harmed' (by simpa [hrq] using hnew) hpending).imp_right .inl
  record r hr := by
    by_cases hrq : r = q
    · subst hrq
      exact .inr ⟨hr, { tmr with alarm := false }, tmr, by simp, ht, rfl⟩
    · obtain ⟨t, ht'⟩ := h.record_mem hr
      exact .inr ⟨hr, t, t, by simpa [hrq] using ht', ht', rfl⟩

/-- The event of a timer that expires takes the place of its alarm. -/
theorem Pending.expired (h : Pending rt) {q : Nat} {tmr : JSIOTimer} (ht : rt.timers q = some tmr)
    (halarm : tmr.alarm) (hkept : (rt'.timers q).isSome) :
    Midway rt rt' { rt with
      timers := update rt.timers q (some { tmr with alarm := false })
      events := rt.events ++ [q] } where
  callback r f new harmed hnew hpending := by
    by_cases hrq : r = q
    · subst hrq
      obtain rfl : { tmr with alarm := false } = new := by simpa using hnew
      exact (h.callback r f tmr harmed ht (.inl halarm)).imp_right .inl
    · refine (h.callback r f new harmed (by simpa [hrq] using hnew) ?_).imp_right .inl
      simpa [hrq] using hpending
  record r hr := by
    by_cases hrq : r = q
    · exact .inl (hrq ▸ hkept)
    · have hr' : r ∈ rt.events := by simpa [hrq] using hr
      obtain ⟨t, ht'⟩ := h.record_mem hr'
      exact .inr ⟨hr', t, t, by simpa [hrq] using ht', ht', rfl⟩

/-- A delivered timer is pending no more. -/
theorem Pending.delivered (h : Pending rt) {q : Nat} {tmr : JSIOTimer}
    (ht : rt.timers q = some tmr) (hq : q ∈ rt.events) :
    Midway rt rt' { rt with
      timers := update rt.timers q tmr.delivered
      events := rt.events.erase q } where
  callback r f new harmed hnew hpending := by
    by_cases hrq : r = q
    · subst hrq
      have halarm := h.staged.inactive hq
      simp only [alarmActive, ht, Option.any_some] at halarm
      have hnew' : new.alarm = false := by
        have hsome : tmr.delivered = some new := by simpa using hnew
        unfold JSIOTimer.delivered at hsome
        split_ifs at hsome
        obtain rfl := Option.some.inj hsome
        exact halarm
      rcases hpending with hpending | hpending
      · simp [hnew'] at hpending
      · exact absurd hpending h.staged.not_mem_erase
    · exact (h.callback r f new harmed (by simpa [hrq] using hnew)
        (hpending.imp_right List.mem_of_mem_erase)).imp_right .inl
  record r hr := by
    have hrq : r ≠ q := fun he => h.staged.not_mem_erase (he ▸ hr)
    obtain ⟨t, ht'⟩ := h.record_mem (List.mem_of_mem_erase hr)
    exact .inr ⟨List.mem_of_mem_erase hr, t, t, by simpa [hrq] using ht', ht', rfl⟩

/-- Posting a job arms no timer. -/
theorem Midway.posted {mid : JSRuntime} (h : Midway rt rt' mid) (e : JSJobEntry) (ok : Bool) :
    Midway rt rt' (posted mid e ok) := by
  cases ok with
  | true => exact ⟨h.callback, h.record⟩
  | false =>
    refine ⟨fun r f tmr harmed => h.callback r f tmr ?_, h.record⟩
    simpa [IoQuickJS.posted] using harmed

theorem Pending.change {l : Label} (h : Pending rt) (hsound : Sound rt lost)
    (hsound' : Sound rt' lost')
    (hkeeps : ∀ p r, rt.opaqueOf p .ioTimer = some r → r ∈ rt.events → r ∈ rt'.events →
      (rt'.objects p).isSome)
    (hc : Change l rt rt') : Pending rt' := by
  have hvia := @Pending.via rt rt' lost lost' hsound hsound' (h.staged.change hc) hkeeps
  cases hc with
  | quiet hev => exact hvia hev (h.same rfl rfl rfl fun _ _ hf => hf) rfl rfl
  | armed q tmr hlabel hq hlt halarm hfunc hafter hev =>
    exact hvia hev (h.armed hq hfunc) rfl rfl
  | cleared t q tmr hl hptr hq ht hev => exact hvia hev (h.cleared ht) rfl rfl
  | expired q tmr ht halarm hkept hev => exact hvia hev (h.expired ht halarm hkept) rfl rfl
  | delivered q tmr ok ht hq hev =>
    exact hvia hev ((h.delivered ht hq).posted _ ok) (by cases ok <;> rfl) (by cases ok <;> rfl)
  | queued argv ok hev =>
    have hmid : Midway rt rt' rt := h.same rfl rfl rfl fun _ _ hf => hf
    exact hvia hev (hmid.posted _ ok) (by cases ok <;> rfl) (by cases ok <;> rfl)
  | started e es hrunning hjobs hev =>
    refine hvia hev (h.same rfl rfl rfl fun r f harmed => ?_) rfl rfl
    have hnot : .armed r f ∉ e.observation := by
      unfold JSJobEntry.observation
      split <;> simp
    simpa [hnot] using harmed
  | finished hev => exact hvia hev (h.same rfl rfl rfl fun _ _ hf => hf) rfl rfl
  | opened q handle hq hev => exact hvia hev (h.same rfl rfl rfl fun _ _ hf => hf) rfl rfl
  | assigned q s value hs hev => exact hvia hev (h.same rfl rfl rfl fun _ _ hf => hf) rfl rfl
  | promised q s p reject hs hgets hp hfunc hreject hev =>
    exact hvia hev (h.same rfl rfl rfl fun r f harmed => by simpa using harmed) rfl rfl

theorem Pending.received {q : Nat} {s : IoJsIoSocket} {jobs : List JSJobEntry}
    {obs : List Observation} (h : Pending rt) (hsound : Sound rt lost) (hsound' : Sound rt' lost')
    (hkeeps : ∀ p r, rt.opaqueOf p .ioTimer = some r → r ∈ rt.events → r ∈ rt'.events →
      (rt'.objects p).isSome)
    (hc : Received rt rt' q s jobs obs) : Pending rt' := by
  refine .via hsound hsound' (h.staged.received hc) hkeeps hc.evolves
    (h.same rfl rfl rfl fun r f harmed => ?_) rfl rfl
  rcases List.mem_append.mp harmed with harmed | harmed
  · exact harmed
  · cases hc.obs_eq _ harmed

end Change

theorem jsNewRuntime_pending : Pending jsNewRuntime where
  staged := jsNewRuntime_staged
  callback r f tmr harmed := by simp [jsNewRuntime] at harmed
  record r hr := by simp [jsNewRuntime] at hr

/-- Delivery of a queued event finds everything it uses allocated. -/
theorem deliver_isSome {rt : JSRuntime} {lost : JSValue → Nat} (h : Sound rt lost) {r : Nat}
    (hr : r ∈ rt.events) (hrecord : (rt.timers r).isSome) (enqOk : Bool) :
    (step rt (.deliver r enqOk)).isSome := by
  obtain ⟨tmr, ht⟩ := Option.isSome_iff_exists.mp hrecord
  have hready : Ready { rt with events := rt.events.erase r } [] lost :=
    h.ready.setFields _ rt.log rt.currentException rt.panicked
  simp only [step, deliverTimeout, hr, if_true, ht, Option.map_some]
  cases tmr.onTimeout with
  | setTimeout => exact ioJsSetTimeoutOnTimeout_isSome hready hrecord enqOk
  | after =>
    have hlive := hready.live_of_timer ht (v := tmr.resolve) (by simp [JSIOTimer.slots])
    simp [ioJsAfterOnTimeout, ht, hlive]

/-- In every run in which no collection frees a pending timer's callback and nothing frees the
object of a timer between expiry and delivery, every pending timer keeps the callback it was
armed with alive until its event is delivered. -/
theorem setTimeout_pendingAlive {ls : List Label} {rt : JSRuntime}
    (hmeets : Transition.Meets step (fun rt l => CollectsSafely rt l ∧ KeepsQueued rt l)
      jsNewRuntime ls)
    (hrun : Transition.run step jsNewRuntime ls = some rt) : PendingAlive rt := by
  obtain ⟨⟨lost, hsound⟩, hpending⟩ := run_changes jsNewRuntime_pending
    (fun _ _ _ hc => hc.1) hmeets
    (fun u l v ⟨lost, hu⟩ ⟨lost', hv⟩ hc hstep hchange hI => by
      rcases hchange with hchange | ⟨r, pipe, buffer, mem, s, jobs, obs, -, hreceived, -, -⟩
      · exact hI.change hu hv (hc.2 v hstep) hchange
      · exact hI.received hu hv (hc.2 v hstep) hreceived) hrun
  refine ⟨fun r f harmed hr => ?_, fun r hr enqOk =>
    deliver_isSome hsound hr (hpending.record r hr) enqOk⟩
  obtain ⟨tmr, ht⟩ : ∃ tmr, rt.timers r = some tmr := by
    rcases hr with halarm | hevent
    · cases ht : rt.timers r with
      | none => simp [alarmActive, ht] at halarm
      | some tmr => exact ⟨tmr, rfl⟩
    · exact Option.isSome_iff_exists.mp (hpending.record r hevent)
  refine ⟨tmr, ht, hpending.callback r f tmr harmed ht ?_⟩
  exact hr.imp_left fun halarm => by simpa [alarmActive, ht] using halarm

/-- The script drops the timer object before the alarm expires. -/
def droppedTimer : List Label :=
  [.newObject .function, .setTimeout (.object 1) true true true, .drop (.object 2), .expire 3]

theorem setTimeout_pendingAlive_dropped :
    ∃ rt, Transition.run step jsNewRuntime droppedTimer = some rt ∧ PendingAlive rt := by
  have hmeets : Transition.Meets step (fun rt l => CollectsSafely rt l ∧ KeepsQueued rt l)
      jsNewRuntime droppedTimer := by
    have hquiet : ∀ rt l, rt.events = [] → KeepsQueued rt l := fun rt l hrt _ _ p r _ hr => by
      simp [hrt] at hr
    refine ⟨⟨nofun, hquiet _ _ rfl⟩, fun a ha => ?_⟩
    obtain rfl := Option.some.inj ha
    refine ⟨⟨nofun, hquiet _ _ rfl⟩, fun b hb => ?_⟩
    obtain rfl := Option.some.inj hb
    refine ⟨⟨nofun, hquiet _ _ rfl⟩, fun c hc => ?_⟩
    obtain rfl := Option.some.inj hc
    exact ⟨⟨nofun, hquiet _ _ rfl⟩, fun _ _ => trivial⟩
  exact ⟨_, rfl, setTimeout_pendingAlive hmeets rfl⟩

/-- The callback refers to the timer object, and the script drops both. -/
def collectedCycle : List Label :=
  [.newObject .function, .setTimeout (.object 1) true true true, .setProperty 1 (.object 2),
    .drop (.object 1), .drop (.object 2), .runGC]

theorem setTimeout_callbackCollected : ¬ ∀ ls rt,
    Transition.run step jsNewRuntime ls = some rt → PendingAlive rt := by
  intro h
  have hend : (Transition.run step jsNewRuntime collectedCycle).map
      (fun rt => (rt.log, alarmActive rt 3, rt.isFunction (.object 1))) =
      some ([.armed 3 (.object 1)], true, false) := by decide
  obtain ⟨rt, hrun, hrt⟩ := Option.map_eq_some_iff.mp hend
  simp only [Prod.mk.injEq] at hrt
  obtain ⟨hlog, halarm, hfreed⟩ := hrt
  obtain ⟨tmr, -, -, hfunc⟩ := (h collectedCycle rt hrun).callback 3 (.object 1) (by simp [hlog])
    (.inl halarm)
  simp [hfreed] at hfunc

end IoQuickJS
