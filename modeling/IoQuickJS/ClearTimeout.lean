import IoQuickJS.Stages

/-!
# clearTimeout

`io_js_clearTimeout` dequeues the alarm and does nothing else. A callback is cancelled exactly
when the alarm is still in the alarm list: an event or a job that is already queued for the
timer runs its way to the callback.
-/
namespace IoQuickJS

open Function (update update_self update_of_ne)

/-- No callback starts after clearTimeout has returned for its timer, unless it had started
before. -/
def NeverCalledAfterClear (log : List Observation) : Prop :=
  ∀ r before after, log = before ++ .cleared r :: after →
    (∀ f args, .call f args (some r) ∉ before) → ∀ f args, .call f args (some r) ∉ after

/-- Nothing of timer `r` is queued any more. -/
def Idle (rt : JSRuntime) (r : Nat) : Prop :=
  alarmActive rt r = false ∧ r ∉ rt.events ∧ ∀ e ∈ rt.jobList, e.origin ≠ some r

/-- What clearTimeout promises: cleared timers are not called any more, and a timer that nobody
cleared is still in one of its stages. -/
structure Cancels (rt : JSRuntime) : Prop where
  never : NeverCalledAfterClear rt.log
  others : ∀ r f, .armed r f ∈ rt.log → .cleared r ∉ rt.log → stages rt r = 1

/-- clearTimeout is called before the alarm of the timer has expired, or after its callback has
started: no event and no job of the timer is queued. -/
def ClearsInTime (rt : JSRuntime) : Label → Prop
  | .clearTimeout t => ∀ r, rt.getOpaque t .ioTimer = some r →
      r ∉ rt.events ∧ ∀ e ∈ rt.jobList, e.origin ≠ some r
  | _ => True

/-- The invariant behind `Cancels`. -/
structure Cancelling (rt : JSRuntime) : Prop where
  staged : Staged rt
  idle : ∀ r, .cleared r ∈ rt.log → r < rt.next ∧ Idle rt r
  never : NeverCalledAfterClear rt.log

section Log

variable {log obs : List Observation}

theorem NeverCalledAfterClear.append (h : NeverCalledAfterClear log)
    (hobs : ∀ r f args, .call f args (some r) ∈ obs → .cleared r ∉ log ++ obs) :
    NeverCalledAfterClear (log ++ obs) := by
  intro r before after heq hbefore f args hcall
  have hcleared : .cleared r ∈ log ++ obs := by simp [heq]
  have hnot : ∀ g a, Observation.call g a (some r) ∉ obs := fun g a hg => hobs r g a hg hcleared
  rcases List.append_eq_append_iff.mp heq with ⟨mid, rfl, hrest⟩ | ⟨mid, hlog, hrest⟩
  · -- the clear is among the new entries, and so is everything after it
    have hmem : Observation.call f args (some r) ∈ obs := by simp [hrest, hcall]
    exact hnot f args hmem
  · rcases List.cons_eq_append_iff.mp hrest with ⟨rfl, hobs'⟩ | ⟨tail, rfl, hafter⟩
    · have hmem : Observation.call f args (some r) ∈ obs := by simp [hobs', hcall]
      exact hnot f args hmem
    · rw [hafter, List.mem_append] at hcall
      rcases hcall with hcall | hcall
      · exact h r before tail hlog hbefore f args hcall
      · exact hnot f args hcall

end Log

section Idle

variable {a b : JSRuntime} {r : Nat}

theorem Evolves.idle (h : Evolves a b) (ha : Idle a r) : Idle b r :=
  ⟨(h.alarmActive_eq r).trans ha.1, h.events ▸ ha.2.1, h.jobList ▸ ha.2.2⟩

end Idle

section Change

variable {rt rt' : JSRuntime}

/-- The rule for most steps: they add no call and no clear, and wake no idle timer. -/
theorem Cancelling.via (h : Cancelling rt) (hstaged : Staged rt') {mid : JSRuntime}
    (obs : List Observation) (hev : Evolves mid rt') (hnext : mid.next = rt.next)
    (hlog : mid.log = rt.log ++ obs) (hcall : ∀ f a r, .call f a (some r) ∉ obs)
    (hcleared : ∀ r, .cleared r ∉ obs) (hidle : ∀ r < rt.next, Idle rt r → Idle mid r) :
    Cancelling rt' := by
  refine ⟨hstaged, fun r hr => ?_, ?_⟩
  · have hr' : .cleared r ∈ rt.log := by
      simpa [hev.log, hlog, hcleared] using hr
    obtain ⟨hlt, hold⟩ := h.idle r hr'
    exact ⟨hlt.trans_le (hnext ▸ hev.next_le), hev.idle (hidle r hlt hold)⟩
  · rw [hev.log, hlog]
    exact h.never.append fun r f a hmem => absurd hmem (hcall f a r)

/-- The timer that is cleared has no event and no job, so it is idle from then on. -/
theorem Cancelling.cleared (h : Cancelling rt) (hstaged : Staged rt') {q : Nat} {tmr : JSIOTimer}
    (hq : q < rt.next) (hevents : q ∉ rt.events) (hjobs : ∀ e ∈ rt.jobList, e.origin ≠ some q)
    (hev : Evolves { rt with
      timers := update rt.timers q (some { tmr with alarm := false })
      log := rt.log ++ [.cleared q] } rt') : Cancelling rt' := by
  refine ⟨hstaged, fun r hr => ?_, ?_⟩
  · by_cases hrq : r = q
    · subst hrq
      exact ⟨hq.trans_le hev.next_le, hev.idle ⟨by simp [alarmActive], hevents, hjobs⟩⟩
    · have hr' : .cleared r ∈ rt.log := by simpa [hev.log, hrq] using hr
      obtain ⟨hlt, hold⟩ := h.idle r hr'
      refine ⟨hlt.trans_le hev.next_le, hev.idle ⟨?_, hold.2⟩⟩
      simpa [alarmActive, hrq] using hold.1
  · rw [hev.log]
    exact h.never.append (by simp)

/-- An idle timer is not the one whose event is delivered. -/
theorem Idle.delivered {q r : Nat} (hold : Idle rt r) (hq : q ∈ rt.events) (tmr : JSIOTimer)
    (ok : Bool) :
    Idle (posted { rt with
      timers := update rt.timers q tmr.delivered
      events := rt.events.erase q } (timeoutJob q tmr) ok) r := by
  have hrq : r ≠ q := by
    rintro rfl
    exact hold.2.1 hq
  have hevents : r ∉ rt.events.erase q := fun hr => hold.2.1 (List.mem_of_mem_erase hr)
  have halarm : (update rt.timers q tmr.delivered r).any JSIOTimer.alarm = false := by
    simpa [alarmActive, hrq] using hold.1
  cases ok with
  | true =>
    refine ⟨halarm, hevents, fun e he => ?_⟩
    rcases List.mem_append.mp he with he | he
    · exact hold.2.2 e he
    · obtain rfl := List.mem_singleton.mp he
      simpa [timeoutJob] using Ne.symm hrq
  | false => exact ⟨halarm, hevents, hold.2.2⟩

/-- The job that calls was queued, so its timer was not idle. -/
theorem Cancelling.started (h : Cancelling rt) (hstaged : Staged rt') {e : JSJobEntry}
    {es : List JSJobEntry} (hjobs : rt.jobList = e :: es)
    (hev : Evolves { rt with
      jobList := es, running := some e, log := rt.log ++ e.observation } rt') :
    Cancelling rt' := by
  have hcleared : ∀ r, .cleared r ∉ e.observation := by
    intro r
    unfold JSJobEntry.observation
    split <;> simp
  refine ⟨hstaged, fun r hr => ?_, ?_⟩
  · obtain ⟨hlt, hold⟩ := h.idle r (by simpa [hev.log, hcleared] using hr)
    exact ⟨hlt.trans_le hev.next_le,
      hev.idle ⟨hold.1, hold.2.1, fun e' he' => hold.2.2 e' (by simp [hjobs, he'])⟩⟩
  · rw [hev.log]
    refine h.never.append fun r f args hmem hr => ?_
    have horigin : e.origin = some r := by
      unfold JSJobEntry.observation at hmem
      split at hmem <;> simp_all
    obtain ⟨-, hold⟩ := h.idle r (by simpa [hcleared] using hr)
    exact hold.2.2 e (by simp [hjobs]) horigin

theorem Cancelling.change {l : Label} (h : Cancelling rt) (hl : ClearsInTime rt l)
    (hc : Change l rt rt') : Cancelling rt' := by
  have hstaged := h.staged.change hc
  cases hc with
  | quiet hev => exact h.via hstaged [] hev rfl (by simp) (by simp) (by simp) fun _ _ hr => hr
  | armed q tmr hlabel hq hlt halarm hfunc hafter hev =>
    refine h.via hstaged [_] hev rfl rfl (by simp) (by simp) fun r hr hold => ⟨?_, hold.2⟩
    have hrq : r ≠ q := by omega
    simpa [alarmActive, hrq] using hold.1
  | cleared t q tmr hlabel hptr hq ht hev =>
    subst hlabel
    obtain ⟨hevents, hjobs⟩ := hl q hptr
    exact h.cleared hstaged hq hevents hjobs hev
  | expired q tmr ht halarm hkept hev =>
    refine h.via hstaged [] hev rfl (by simp) (by simp) (by simp) fun r hr hold => ?_
    have hrq : r ≠ q := by
      rintro rfl
      have := hold.1
      simp [alarmActive, ht, halarm] at this
    refine ⟨?_, by simp [hold.2.1, hrq], hold.2.2⟩
    simpa [alarmActive, hrq] using hold.1
  | delivered q tmr ok ht hq hev =>
    have hidle : ∀ r < rt.next, Idle rt r → Idle _ r := fun r _ hold => hold.delivered hq tmr ok
    cases ok with
    | true => exact h.via hstaged [] hev rfl (by simp [posted]) (by simp) (by simp) hidle
    | false => exact h.via hstaged [_] hev rfl rfl (by simp) (by simp) hidle
  | queued argv ok hev =>
    cases ok with
    | true =>
      refine h.via hstaged [] hev rfl (by simp [posted]) (by simp) (by simp) fun r hr hold => ?_
      refine ⟨hold.1, hold.2.1, fun e he => ?_⟩
      rcases List.mem_append.mp he with he | he
      · exact hold.2.2 e he
      · obtain rfl := List.mem_singleton.mp he
        simp
    | false => exact h.via hstaged [_] hev rfl rfl (by simp) (by simp) fun _ _ hold => hold
  | started e es hrunning hjobs hev => exact h.started hstaged hjobs hev
  | finished hev =>
    exact h.via hstaged [] hev rfl (by simp) (by simp) (by simp) fun _ _ hr => hr
  | opened q handle hq hev =>
    exact h.via hstaged [] hev rfl (by simp) (by simp) (by simp) fun _ _ hr => hr
  | assigned q s value hs hev =>
    exact h.via hstaged [] hev rfl (by simp) (by simp) (by simp) fun _ _ hr => hr
  | promised q s p reject hs hgets hp hfunc hreject hev =>
    exact h.via hstaged [_] hev rfl rfl (by simp) (by simp) fun _ _ hr => hr

theorem Cancelling.received {q : Nat} {s : IoJsIoSocket} {jobs : List JSJobEntry}
    {obs : List Observation} (h : Cancelling rt) (hc : Received rt rt' q s jobs obs) :
    Cancelling rt' := by
  have hev := hc.evolves
  refine ⟨h.staged.received hc, fun r hr => ?_, ?_⟩
  · have hr' : .cleared r ∈ rt.log := by
      rw [hev.log] at hr
      rcases List.mem_append.mp hr with hr | hr
      · exact hr
      · cases hc.obs_eq _ hr
    obtain ⟨hlt, hold⟩ := h.idle r hr'
    refine ⟨hlt.trans_le hev.next_le, hev.idle ⟨hold.1, hold.2.1, fun e he => ?_⟩⟩
    rcases List.mem_append.mp he with he | he
    · exact hold.2.2 e he
    · obtain ⟨str, rfl⟩ := hc.jobs_eq e he
      simp
  · rw [hev.log]
    exact h.never.append fun r f args hmem => by cases hc.obs_eq _ hmem

end Change

theorem jsNewRuntime_cancelling : Cancelling jsNewRuntime where
  staged := jsNewRuntime_staged
  idle r hr := by simp [jsNewRuntime] at hr
  never r before after heq := by simp [jsNewRuntime] at heq

/-- clearTimeout touches no timer but its own. -/
theorem clearTimeout_others {rt rt' : JSRuntime} {t : JSValue}
    (hstep : step rt (.clearTimeout t) = some rt') :
    rt'.events = rt.events ∧ rt'.jobList = rt.jobList ∧
      ∀ q, rt.getOpaque t .ioTimer ≠ some q → rt'.timers q = rt.timers q := by
  simp only [step] at hstep
  split_ifs at hstep
  obtain rfl := Option.some.inj hstep
  unfold JSRuntime.push ioJsClearTimeout jsGetOpaque2
  cases hr : rt.getOpaque t .ioTimer with
  | none => exact ⟨rfl, rfl, fun _ _ => rfl⟩
  | some r =>
    refine ⟨rfl, rfl, fun q hq => ?_⟩
    have hqr : q ≠ r := fun he => hq (congrArg some he.symm)
    simp [JSValue.hasRefCount, ioDequeueAlarm, modifyTimer, hqr]

/-- In every run in which clearTimeout is only called while nothing is queued for the timer, a
cleared callback is never called, and no other timer is affected. -/
theorem clearTimeout_cancels {ls : List Label} {rt : JSRuntime}
    (hmeets : Transition.Meets step (fun rt l => ClearsInTime rt l ∧ CollectsSafely rt l)
      jsNewRuntime ls)
    (hrun : Transition.run step jsNewRuntime ls = some rt) :
    Cancels rt ∧ ∀ t rt', step rt (.clearTimeout t) = some rt' →
      rt'.events = rt.events ∧ rt'.jobList = rt.jobList ∧
        ∀ q, rt.getOpaque t .ioTimer ≠ some q → rt'.timers q = rt.timers q := by
  have hend : Cancelling rt := by
    refine (run_changes jsNewRuntime_cancelling (fun _ _ _ hc => hc.2) hmeets
      (fun u l v _ _ hc _ hchange hI => ?_) hrun).2
    rcases hchange with hchange | ⟨r, pipe, buffer, mem, s, jobs, obs, -, hreceived, -, -⟩
    · exact hI.change hc.1 hchange
    · exact hI.received hreceived
  exact ⟨⟨hend.never, hend.staged.armed_one⟩, fun t rt' => clearTimeout_others⟩

/-- A script sets a timer and clears it again at once. -/
def clearedInTime : List Label :=
  [.newObject .function, .setTimeout (.object 1) true true true, .clearTimeout (.object 2)]

theorem clearTimeout_cancels_inTime :
    ∃ rt, Transition.run step jsNewRuntime clearedInTime = some rt ∧ Cancels rt := by
  have hmeets : Transition.Meets step (fun rt l => ClearsInTime rt l ∧ CollectsSafely rt l)
      jsNewRuntime clearedInTime := by
    refine ⟨⟨trivial, nofun⟩, fun a ha => ?_⟩
    obtain rfl := Option.some.inj ha
    refine ⟨⟨trivial, nofun⟩, fun b hb => ?_⟩
    obtain rfl := Option.some.inj hb
    refine ⟨⟨fun r hr => ⟨?_, ?_⟩, nofun⟩, fun _ _ => trivial⟩
    · decide +revert
    · decide +revert
  exact ⟨_, rfl, (clearTimeout_cancels hmeets rfl).1⟩

/-- The timer expires before it is cleared; its event is delivered, and its job run, after. -/
def clearedLate : List Label :=
  [.newObject .function, .setTimeout (.object 1) true true true, .expire 3,
    .clearTimeout (.object 2), .deliver 3 true, .startJob]

theorem clearTimeout_calledLater : ¬ ∀ ls rt,
    Transition.run step jsNewRuntime ls = some rt → Cancels rt := by
  intro h
  have hlog : (Transition.run step jsNewRuntime clearedLate).map JSRuntime.log =
      some [.armed 3 (.object 1), .cleared 3, .call (.object 1) [] (some 3)] := by decide
  obtain ⟨rt, hrun, hrt⟩ := Option.map_eq_some_iff.mp hlog
  have hnever := (h clearedLate rt hrun).never 3 [.armed 3 (.object 1)]
    [.call (.object 1) [] (some 3)] hrt (by simp)
  exact hnever (.object 1) [] (by simp)

end IoQuickJS
