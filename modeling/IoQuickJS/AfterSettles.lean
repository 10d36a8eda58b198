import IoQuickJS.AfterPromise
import IoQuickJS.PendingTimer

/-!
# Each promise of after is settled once

`AfterInv` ties the promises that after has returned to the records, the queues and the log. A
promise is pending exactly as long as the job of its timer has not made its call, and the
functions that resolve it are out of reach of script code all the time.

## Main result

* `after_settles`: in every state that a program reaches, what `Settles` says holds of the promise
  of every call of after.
-/
namespace IoQuickJS

open Function (update update_self update_of_ne update_apply)

namespace AfterPromise

/-- The record of the promise. -/
def record (d : AfterPromise) (alarm : Bool) : JSIOTimer :=
  ⟨false, .object d.resolve, .object d.reject, alarm, .after⟩

/-- The job that the event of the record queues. -/
def job (d : AfterPromise) : JSJobEntry :=
  ⟨.timerContinuation, [.object d.resolve], some d.timer⟩

/-- The call that the job makes. -/
def call (d : AfterPromise) : Observation := .call (.object d.resolve) [] (some d.timer)

@[simp] theorem job_origin (d : AfterPromise) : d.job.origin = some d.timer := rfl

@[simp] theorem job_observation (d : AfterPromise) : d.job.observation = [d.call] := rfl

@[simp] theorem call_origin (d : AfterPromise) : d.call.origin = some d.timer := rfl

end AfterPromise

/-- No record, no job and no script holds the functions of the promise. -/
def Released (s : AfterState) (d : AfterPromise) : Prop :=
  ∀ v, v = .object d.resolve ∨ v = .object d.reject →
    (∀ r tmr, s.rt.timers r = some tmr → v ∉ tmr.slots) ∧
    (∀ e, e ∈ s.rt.jobList ∨ s.rt.running = some e → v ∉ e.argv) ∧ ¬ Accessible s.rt v

/-- What a run has done about a promise of after, and what the next step can do. -/
structure Settles (s : AfterState) (d : AfterPromise) : Prop where
  /-- The alarm is active, or the event or the job is queued, or the job has made its call. -/
  once : stages s.rt d.timer = 1
  /-- The record is there until the event is delivered. -/
  kept : (s.rt.timers d.timer).isSome ↔ alarmActive s.rt d.timer ∨ d.timer ∈ s.rt.events
  held : ∀ tmr, s.rt.timers d.timer = some tmr → tmr = d.record tmr.alarm ∧
    s.rt.live (.object d.resolve) ∧ s.rt.live (.object d.reject)
  jobs : ∀ e ∈ s.rt.jobList, e.origin = some d.timer → e = d.job
  /-- A delivery queues the job and frees the record. -/
  delivers : d.timer ∈ s.rt.events → ∃ s', afterStep s (.machine (.deliver d.timer true)) = some s'
  delivered : ∀ s', afterStep s (.machine (.deliver d.timer true)) = some s' →
    s'.rt.jobList = s.rt.jobList ++ [d.job] ∧ s'.rt.timers d.timer = none
  freed : ∀ l s', AfterProgram s l → afterStep s l = some s' → (s.rt.timers d.timer).isSome →
    s'.rt.timers d.timer = none → l = .machine (.deliver d.timer true)
  gone : ∀ l s', AfterProgram s l → afterStep s l = some s' → s.rt.timers d.timer = none →
    s'.rt.timers d.timer = none
  /-- The call fulfils the promise with undefined, and nothing else settles it. -/
  state : s.data d.promise =
    if d.call ∈ s.rt.log then ⟨true, .fulfilled .undefined⟩ else ⟨false, .pending⟩
  only : ∀ l s', AfterProgram s l → afterStep s l = some s' →
    s'.data d.promise ≠ s.data d.promise →
    l = .machine .startJob ∧ s.rt.jobList.head? = some d.job
  /-- The end of the job gives up the functions, and they stay so. -/
  ended : s.rt.running = some d.job →
    ∃ s', afterStep s (.machine .endJob) = some s' ∧ Released s' d
  released : d.call ∈ s.rt.log → s.rt.running ≠ some d.job → Released s d

/-! ## The invariant -/

/-- The part that does not depend on what script code can get at. -/
structure AfterRecords (s : AfterState) : Prop where
  placed : ∀ d ∈ s.promises, d.resolve = d.promise + 1 ∧ d.reject = d.promise + 2 ∧
    d.timer = d.promise + 3 ∧ d.timer < s.rt.next
  apart : ∀ d ∈ s.promises, ∀ d' ∈ s.promises,
    d = d' ∨ d.timer < d'.promise ∨ d'.timer < d.promise
  timers : ∀ r tmr, s.rt.timers r = some tmr → ∃ d ∈ s.promises, d.timer = r ∧
    tmr = d.record tmr.alarm ∧ (tmr.alarm ∨ r ∈ s.rt.events)
  events : ∀ r ∈ s.rt.events, (s.rt.timers r).isSome
  jobs : ∀ e, e ∈ s.rt.jobList ∨ s.rt.running = some e →
    e.jobFunc = .script ∧ e.origin = none ∨ ∃ d ∈ s.promises, e = d.job
  running : ∀ d ∈ s.promises, s.rt.running = some d.job → d.call ∈ s.rt.log
  log : ∀ x ∈ s.rt.log, ∃ d ∈ s.promises, x = .armed d.timer (.object d.resolve) ∨ x = d.call
  armed : ∀ d ∈ s.promises, .armed d.timer (.object d.resolve) ∈ s.rt.log
  state : ∀ d ∈ s.promises, s.data d.promise =
    if d.call ∈ s.rt.log then ⟨true, .fulfilled .undefined⟩ else ⟨false, .pending⟩

structure AfterInv (s : AfterState) : Prop extends AfterRecords s where
  hidden : ∀ d ∈ s.promises, ∀ v, v = .object d.resolve ∨ v = .object d.reject →
    ¬ Accessible s.rt v

section AfterInv

variable {s s' : AfterState} {l : AfterLabel} {d d' : AfterPromise} {rt mid : JSRuntime}
  {lost : JSValue → Nat}

theorem AfterRecords.noTimerObjects (h : AfterRecords s) : NoTimerObjects s.rt := by
  intro r tmr ht
  obtain ⟨d, -, -, heq, -⟩ := h.timers r tmr ht
  exact congrArg JSIOTimer.hasObject heq

/-- The addresses of one promise tell it from every other. -/
theorem AfterRecords.eq_of_near (h : AfterRecords s) (hd : d ∈ s.promises) (hd' : d' ∈ s.promises)
    (hlow : d.promise ≤ d'.timer) (hhigh : d'.promise ≤ d.timer) : d = d' := by
  rcases h.apart d hd d' hd' with heq | hlt | hlt
  · exact heq
  · omega
  · omega

theorem AfterRecords.eq_of_timer (h : AfterRecords s) (hd : d ∈ s.promises) (hd' : d' ∈ s.promises)
    (heq : d.timer = d'.timer) : d = d' := by
  have := h.placed d hd
  have := h.placed d' hd'
  apply h.eq_of_near hd hd' <;> omega

theorem AfterRecords.eq_of_func (h : AfterRecords s) (hd : d ∈ s.promises) (hd' : d' ∈ s.promises)
    {p : Nat} (hp : p = d.resolve ∨ p = d.reject) (hp' : p = d'.resolve ∨ p = d'.reject) :
    d = d' := by
  have := h.placed d hd
  have := h.placed d' hd'
  apply h.eq_of_near hd hd' <;> omega

/-- The records do not depend on the heap. -/
theorem AfterRecords.shift (h : AfterRecords ⟨mid, s.promises, s.data⟩) (hshift : Shift mid rt) :
    AfterRecords ⟨rt, s.promises, s.data⟩ where
  placed d hd := by
    obtain ⟨hresolve, hreject, htimer, hlt⟩ := h.placed d hd
    exact ⟨hresolve, hreject, htimer, hlt.trans_le hshift.next_le⟩
  apart := h.apart
  timers r tmr ht := by
    dsimp only at ht ⊢
    rw [hshift.events]
    exact h.timers r tmr (hshift.timers ▸ ht)
  events r hr := by
    dsimp only at hr ⊢
    rw [hshift.timers]
    exact h.events r (hshift.events ▸ hr)
  jobs e he := h.jobs e (by simpa only [hshift.jobList, hshift.running] using he)
  running d hd hrunning := hshift.log ▸ h.running d hd (hshift.running ▸ hrunning)
  log x hx := h.log x (hshift.log ▸ hx)
  armed d hd := hshift.log ▸ h.armed d hd
  state d hd := by
    dsimp only
    rw [hshift.log]
    exact h.state d hd

/-! ## Calls -/

theorem settle_other {promises : List AfterPromise} {func : JSValue}
    (h : ∀ d ∈ promises, func ≠ .object d.resolve ∧ func ≠ .object d.reject)
    (argv : List JSValue) (thenProperty : ThenProperty) (data : Nat → JSPromiseData) :
    settle promises func argv thenProperty data = data := by
  have hnone : promises.find? (fun d => func = .object d.resolve ∨ func = .object d.reject) =
      none := by
    refine List.find?_eq_none.mpr fun d hd => ?_
    simpa using h d hd
  simp only [settle, hnone]

/-- A call of the function that the record of `d` has settles the promise of `d`. -/
theorem AfterRecords.settle_resolve (h : AfterRecords s) (hd : d ∈ s.promises)
    (data : Nat → JSPromiseData) (hdata : (data d.promise).alreadyResolved = false) :
    settle s.promises (.object d.resolve) [] .other data =
      update data d.promise ⟨true, .fulfilled .undefined⟩ := by
  have hfind : s.promises.find? (fun d' => .object d.resolve = JSValue.object d'.resolve ∨
      .object d.resolve = JSValue.object d'.reject) = some d := by
    cases hfind : s.promises.find? (fun d' => .object d.resolve = JSValue.object d'.resolve ∨
        .object d.resolve = JSValue.object d'.reject) with
    | none => simpa using List.find?_eq_none.mp hfind d hd
    | some d' =>
      have hmatch := List.find?_some hfind
      simp only [JSValue.object.injEq, decide_eq_true_eq] at hmatch
      rw [h.eq_of_func hd (List.mem_of_find?_eq_some hfind) (.inl rfl) hmatch]
  have hplaced := h.placed d hd
  have hne : d.resolve ≠ d.reject := by omega
  simp only [settle, hfind]
  simp [jsPromiseResolveFunctionCall, hdata, hne]

/-- The job of a promise is queued before it makes its call. -/
theorem Staged.call_not_mem (h : Staged rt) (hjob : d.job ∈ rt.jobList) : d.call ∉ rt.log := by
  intro hcall
  have hone := h.le_one d.timer
  have hjobs : 0 < rt.jobList.countP fun e => e.origin = some d.timer :=
    List.countP_pos_iff.mpr ⟨d.job, hjob, by simp⟩
  have hlog : 0 < rt.log.countP fun x => x.origin = some d.timer :=
    List.countP_pos_iff.mpr ⟨d.call, hcall, by simp⟩
  simp only [stages] at hone
  omega

/-! ## Steps -/

/-- A job that starts makes the call of its promise, or none. -/
theorem AfterRecords.settleJob_of_mem (h : AfterRecords s) (hstaged : Staged s.rt) {e : JSJobEntry}
    (he : e ∈ s.rt.jobList) :
    e.observation = [] ∧ settleJob s.promises e s.data = s.data ∨
      ∃ d ∈ s.promises, e = d.job ∧ d.call ∉ s.rt.log ∧
        settleJob s.promises e s.data = update s.data d.promise ⟨true, .fulfilled .undefined⟩ := by
  rcases h.jobs e (.inl he) with ⟨hscript, -⟩ | ⟨d, hd, rfl⟩
  · have hobs : e.observation = [] := by
      unfold JSJobEntry.observation
      rw [hscript]
    exact .inl ⟨hobs, by simp [settleJob, hobs]⟩
  · have hcall := hstaged.call_not_mem he
    refine .inr ⟨d, hd, rfl, hcall, ?_⟩
    exact h.settle_resolve hd s.data (by rw [h.state d hd, if_neg hcall])

theorem AfterRecords.made (h : AfterRecords s) (hnext : rt.next = s.rt.next + 4)
    (htimers : rt.timers = update s.rt.timers (s.rt.next + 3)
      (some ⟨false, .object (s.rt.next + 1), .object (s.rt.next + 2), true, .after⟩))
    (hevents : rt.events = s.rt.events) (hjobs : rt.jobList = s.rt.jobList)
    (hrunning : rt.running = s.rt.running)
    (hlog : rt.log = s.rt.log ++ [.armed (s.rt.next + 3) (.object (s.rt.next + 1))]) :
    AfterRecords ⟨rt, s.promises ++ [⟨s.rt.next, s.rt.next + 1, s.rt.next + 2, s.rt.next + 3⟩],
      update s.data s.rt.next ⟨false, .pending⟩⟩ := by
  -- the addresses of the new promise are beyond those of the others
  have hold : ∀ d ∈ s.promises, d.promise < s.rt.next ∧ d.resolve < s.rt.next ∧
      d.reject < s.rt.next ∧ d.timer < s.rt.next := by
    intro d hd
    have := h.placed d hd
    omega
  have hcalls : ∀ d : AfterPromise, d.call ∈ rt.log ↔ d.call ∈ s.rt.log := by
    intro d
    simp [hlog, AfterPromise.call]
  have hmem : ∀ d, d ∈ s.promises ++
      [⟨s.rt.next, s.rt.next + 1, s.rt.next + 2, s.rt.next + 3⟩] → d ∈ s.promises ∨
      d = ⟨s.rt.next, s.rt.next + 1, s.rt.next + 2, s.rt.next + 3⟩ := by
    intro d hd
    simpa using hd
  have hkeep : ∀ d ∈ s.promises, d ∈ s.promises ++
      [⟨s.rt.next, s.rt.next + 1, s.rt.next + 2, s.rt.next + 3⟩] :=
    fun d hd => List.mem_append_left _ hd
  have hnew : (⟨s.rt.next, s.rt.next + 1, s.rt.next + 2, s.rt.next + 3⟩ : AfterPromise) ∈
      s.promises ++ [⟨s.rt.next, s.rt.next + 1, s.rt.next + 2, s.rt.next + 3⟩] := by
    simp
  exact {
    placed := fun d hd => by
      rcases hmem d hd with hd | rfl
      · have := h.placed d hd
        dsimp only
        omega
      · exact ⟨rfl, rfl, rfl, by dsimp only; omega⟩
    apart := fun d hd d' hd' => by
      rcases hmem d hd with hd | rfl <;> rcases hmem d' hd' with hd' | rfl
      · exact h.apart d hd d' hd'
      · exact .inr (.inl (hold d hd).2.2.2)
      · exact .inr (.inr (hold d' hd').2.2.2)
      · exact .inl rfl
    timers := fun r tmr ht => by
      simp only [htimers, update_apply] at ht
      split at ht
      · obtain rfl := Option.some.inj ht
        exact ⟨_, hnew, by simp_all, rfl, .inl rfl⟩
      · obtain ⟨d, hd, htimer, heq, hstage⟩ := h.timers r tmr ht
        exact ⟨d, hkeep d hd, htimer, heq, by simpa only [hevents] using hstage⟩
    events := fun r hr => by
      simp only [htimers, update_apply]
      split
      · rfl
      · exact h.events r (hevents ▸ hr)
    jobs := fun e he => by
      simp only [hjobs, hrunning] at he
      exact (h.jobs e he).imp_right fun ⟨d, hd, heq⟩ => ⟨d, hkeep d hd, heq⟩
    running := fun d hd hjob => by
      rw [hcalls]
      rcases hmem d hd with hd | rfl
      · exact h.running d hd (hrunning ▸ hjob)
      · rcases h.jobs _ (.inr (hrunning ▸ hjob)) with ⟨-, hnone⟩ | ⟨d, hd, heq⟩
        · cases hnone
        · have := hold d hd
          simp only [AfterPromise.job, JSJobEntry.mk.injEq, Option.some.injEq] at heq
          omega
    log := fun x hx => by
      simp only [hlog, List.mem_append, List.mem_singleton] at hx
      rcases hx with hx | rfl
      · obtain ⟨d, hd, heq⟩ := h.log x hx
        exact ⟨d, hkeep d hd, heq⟩
      · exact ⟨_, hnew, .inl rfl⟩
    armed := fun d hd => by
      rcases hmem d hd with hd | rfl
      · simp [hlog, h.armed d hd]
      · simp [hlog]
    state := fun d hd => by
      simp only [hcalls]
      rcases hmem d hd with hd | rfl
      · rw [update_of_ne (hold d hd).1.ne]
        exact h.state d hd
      · have hfresh : AfterPromise.call ⟨s.rt.next, s.rt.next + 1, s.rt.next + 2, s.rt.next + 3⟩ ∉
            s.rt.log := by
          intro hcall
          obtain ⟨d, hd, harmed | heq⟩ := h.log _ hcall
          · cases harmed
          · have := hold d hd
            simp only [AfterPromise.call, Observation.call.injEq, JSValue.object.injEq] at heq
            omega
        rw [if_neg hfresh, update_self] }

theorem AfterRecords.queued (h : AfterRecords s) (argv : List JSValue) :
    AfterRecords ⟨{ s.rt with jobList := s.rt.jobList ++ [⟨.script, argv, none⟩] }, s.promises,
      s.data⟩ where
  __ := h
  jobs e he := by
    rcases he with he | he
    · rcases List.mem_append.mp he with he | he
      · exact h.jobs e (.inl he)
      · obtain rfl := List.mem_singleton.mp he
        exact .inl ⟨rfl, rfl⟩
    · exact h.jobs e (.inr he)

/-- A record without its alarm has its event. -/
theorem AfterRecords.expired (h : AfterRecords s) {r : Nat} {tmr : JSIOTimer}
    (ht : s.rt.timers r = some tmr) :
    AfterRecords ⟨{ s.rt with
      timers := update s.rt.timers r (some { tmr with alarm := false })
      events := s.rt.events ++ [r] }, s.promises, s.data⟩ where
  __ := h
  timers q t hq := by
    simp only [update_apply] at hq
    split at hq
    · next heq =>
      obtain rfl := Option.some.inj hq
      obtain ⟨d, hd, htimer, hrecord, -⟩ := h.timers r tmr ht
      refine ⟨d, hd, htimer.trans heq.symm, ?_, .inr (by simp [heq])⟩
      rw [hrecord]
      rfl
    · obtain ⟨d, hd, htimer, hrecord, hstage⟩ := h.timers q t hq
      exact ⟨d, hd, htimer, hrecord, hstage.imp_right (List.mem_append_left _)⟩
  events q hq := by
    simp only [update_apply]
    split
    · rfl
    · next hne =>
      refine h.events q ((List.mem_append.mp hq).resolve_right ?_)
      simpa using hne

/-- The job takes the place of the record. -/
theorem AfterRecords.delivered (h : AfterRecords s) (hstaged : Staged s.rt) {r : Nat}
    {tmr : JSIOTimer} (ht : s.rt.timers r = some tmr) :
    AfterRecords ⟨{ s.rt with
      timers := update s.rt.timers r none
      events := s.rt.events.erase r
      jobList := s.rt.jobList ++ [timeoutJob r tmr] }, s.promises, s.data⟩ where
  __ := h
  timers q t hq := by
    simp only [update_apply] at hq
    split at hq
    · cases hq
    · next hne =>
      obtain ⟨d', hd', htimer', hrecord', hstage⟩ := h.timers q t hq
      exact ⟨d', hd', htimer', hrecord',
        hstage.imp_right fun hmem => (List.mem_erase_of_ne hne).mpr hmem⟩
  events q hq := by
    have hne : q ≠ r := by
      rintro rfl
      exact hstaged.not_mem_erase hq
    dsimp only
    rw [update_of_ne hne]
    exact h.events q (List.mem_of_mem_erase hq)
  jobs e he := by
    obtain ⟨d, hd, htimer, hrecord, -⟩ := h.timers r tmr ht
    have hjob : timeoutJob r tmr = d.job := by
      rw [hrecord, ← htimer]
      rfl
    rcases he with he | he
    · rcases List.mem_append.mp he with he | he
      · exact h.jobs e (.inl he)
      · obtain rfl := List.mem_singleton.mp he
        exact .inr ⟨d, hd, hjob⟩
    · exact h.jobs e (.inr he)

/-- The call of a job settles the promise of the job, if it has one. -/
theorem AfterRecords.started (h : AfterRecords s) (hstaged : Staged s.rt) {e : JSJobEntry}
    {es : List JSJobEntry} (hjobs : s.rt.jobList = e :: es) :
    AfterRecords ⟨{ s.rt with
      jobList := es, running := some e, log := s.rt.log ++ e.observation }, s.promises,
      settleJob s.promises e s.data⟩ := by
  have hmem : e ∈ s.rt.jobList := by simp [hjobs]
  have hqueued : ∀ e', e' ∈ es ∨ some e = some e' → e' ∈ s.rt.jobList := by
    rintro e' (he | he)
    · simp [hjobs, he]
    · exact Option.some.inj he ▸ hmem
  refine { h with
    jobs := fun e' he => h.jobs e' (.inl (hqueued e' he))
    running := fun d hd hjob => ?_
    log := fun x hx => ?_
    armed := fun d hd => List.mem_append_left _ (h.armed d hd)
    state := fun d hd => ?_ }
  · obtain rfl := Option.some.inj hjob
    simp
  · rcases List.mem_append.mp hx with hx | hx
    · exact h.log x hx
    · rcases h.settleJob_of_mem hstaged hmem with ⟨hobs, -⟩ | ⟨d, hd, rfl, -, -⟩
      · simp [hobs] at hx
      · exact ⟨d, hd, .inr (List.mem_singleton.mp hx)⟩
  · rcases h.settleJob_of_mem hstaged hmem with ⟨hobs, hsame⟩ | ⟨d', hd', rfl, hcall, hsettle⟩
    · simpa [hobs, hsame] using h.state d hd
    · by_cases heq : d = d'
      · subst heq
        simp [hsettle]
      · have hpromise : d.promise ≠ d'.promise := by
          intro hsame
          have := h.placed d hd
          have := h.placed d' hd'
          exact heq (h.eq_of_near hd hd' (by omega) (by omega))
        have hother : d.call ≠ d'.call := by
          intro hsame
          simp only [AfterPromise.call, Observation.call.injEq, Option.some.injEq] at hsame
          exact heq (h.eq_of_timer hd hd' hsame.2.2)
        have hstate := h.state d hd
        simpa [hsettle, hpromise, hother] using hstate

theorem AfterRecords.finished (h : AfterRecords s) :
    AfterRecords ⟨{ s.rt with running := none }, s.promises, s.data⟩ where
  __ := h
  jobs e he := h.jobs e (.inl (he.resolve_right (by simp)))
  running d hd hjob := by cases hjob

/-- Script code cannot settle the promises: it holds none of their functions. -/
theorem AfterInv.settle_eq (h : AfterInv s) {func : JSValue} (hholds : s.rt.holds func)
    (argv : List JSValue) (thenProperty : ThenProperty) :
    settle s.promises func argv thenProperty s.data = s.data := by
  refine settle_other (fun d hd => ⟨?_, ?_⟩) argv thenProperty s.data
  · rintro rfl
    exact h.hidden d hd _ (.inl rfl) (.inl (mem_stack_of_holds hholds))
  · rintro rfl
    exact h.hidden d hd _ (.inr rfl) (.inl (mem_stack_of_holds hholds))

theorem AfterInv.records (h : AfterInv s) (hstaged : Staged s.rt) (hc : AfterChange s s' l) :
    AfterRecords s' := by
  obtain ⟨rt', promises', data'⟩ := s'
  have hrecords := h.toAfterRecords
  cases hc with
  | quiet l hl hshift hpromises hdata =>
    obtain ⟨rfl, rfl⟩ := And.intro hpromises hdata
    exact hrecords.shift hshift
  | queued argv ok hshift hpromises hdata =>
    obtain ⟨rfl, rfl⟩ := And.intro hpromises hdata
    exact (hrecords.queued argv).shift hshift
  | made capOk delayOk tmrOk hnext htimers hevents hjobs hrunning hlog hpromises hdata =>
    obtain ⟨rfl, rfl⟩ := And.intro hpromises hdata
    exact hrecords.made hnext htimers hevents hjobs hrunning hlog
  | expired r tmr ht halarm hshift hpromises hdata =>
    obtain ⟨rfl, rfl⟩ := And.intro hpromises hdata
    exact (hrecords.expired ht).shift hshift
  | delivered r tmr ok ht hr hshift hpromises hdata =>
    obtain ⟨rfl, rfl⟩ := And.intro hpromises hdata
    exact (hrecords.delivered hstaged ht).shift hshift
  | started e es hrunning hjobs hrt hpromises hdata =>
    obtain ⟨rfl, rfl, rfl⟩ := And.intro hpromises (And.intro hdata hrt)
    exact hrecords.started hstaged hjobs
  | finished hshift hpromises hdata =>
    obtain ⟨rfl, rfl⟩ := And.intro hpromises hdata
    exact hrecords.finished.shift hshift
  | called func argv thenProperty hfunc hholds hrt hpromises hdata =>
    obtain ⟨rfl, rfl, rfl⟩ := And.intro hpromises (And.intro hdata hrt)
    rw [h.settle_eq hholds]
    exact hrecords

/-- The functions of a new promise are hidden, and those of the others stay so. -/
theorem AfterInv.hidden_step (h : AfterInv s) (hready : Ready s.rt [] lost)
    (hacc : ∀ p, Accessible s'.rt (.object p) → Accessible s.rt (.object p) ∨ p = s.rt.next)
    (hc : AfterChange s s' l) : ∀ d ∈ s'.promises, ∀ v,
      v = .object d.resolve ∨ v = .object d.reject → ¬ Accessible s'.rt v := by
  have hold : ∀ d ∈ s.promises, ∀ v, v = .object d.resolve ∨ v = .object d.reject →
      ¬ Accessible s'.rt v := by
    intro d hd v hv hv'
    have := h.placed d hd
    refine h.hidden d hd v hv ?_
    rcases hv with rfl | rfl
    · exact (hacc _ hv').resolve_right (by omega)
    · exact (hacc _ hv').resolve_right (by omega)
  have hfresh : ∀ p, s.rt.next < p → ¬ Accessible s'.rt (.object p) := by
    intro p hp hv'
    rcases hacc p hv' with hbefore | heq
    · have := hready.lt_of_accessible hbefore
      omega
    · omega
  cases hc with
  | made capOk delayOk tmrOk hnext htimers hevents hjobs hrunning hlog hpromises hdata =>
    intro d hd v hv
    rw [hpromises, List.mem_append, List.mem_singleton] at hd
    rcases hd with hd | rfl
    · exact hold d hd v hv
    · rcases hv with rfl | rfl
      · exact hfresh _ (by simp)
      · exact hfresh _ (by simp)
  | quiet l hl hshift hpromises hdata => exact hpromises ▸ hold
  | queued argv ok hshift hpromises hdata => exact hpromises ▸ hold
  | expired r tmr ht halarm hshift hpromises hdata => exact hpromises ▸ hold
  | delivered r tmr ok ht hr hshift hpromises hdata => exact hpromises ▸ hold
  | started e es hrunning hjobs hrt hpromises hdata => exact hpromises ▸ hold
  | finished hshift hpromises hdata => exact hpromises ▸ hold
  | called func argv thenProperty hfunc hholds hrt hpromises hdata => exact hpromises ▸ hold

/-! ## What the next step can do -/

/-- Deliveries free records, and no other step does. -/
theorem AfterChange.timers_isSome (hc : AfterChange s s' l) {r : Nat} (hr : r < s.rt.next) :
    (s'.rt.timers r).isSome = (s.rt.timers r).isSome ∨
      (∃ ok, l = .machine (.deliver r ok)) ∧ s'.rt.timers r = none := by
  cases hc with
  | quiet l hl hshift hpromises hdata => simp [hshift.timers]
  | queued argv ok hshift hpromises hdata => simp [hshift.timers]
  | made capOk delayOk tmrOk hnext htimers hevents hjobs hrunning hlog hpromises hdata =>
    have hne : r ≠ s.rt.next + 3 := by omega
    simp [htimers, hne]
  | expired q tmr ht halarm hshift hpromises hdata =>
    refine .inl ?_
    simp only [hshift.timers, update_apply]
    split
    · next heq => simp [heq, ht]
    · rfl
  | delivered q tmr ok ht hq hshift hpromises hdata =>
    by_cases heq : r = q
    · subst heq
      exact .inr ⟨⟨ok, rfl⟩, by simp [hshift.timers]⟩
    · simp [hshift.timers, heq]
  | started e es hrunning hjobs hrt hpromises hdata => simp [hrt]
  | finished hshift hpromises hdata => simp [hshift.timers]
  | called func argv thenProperty hfunc hholds hrt hpromises hdata => simp [hrt]

/-- Jobs of timers settle promises, and no other step does. -/
theorem AfterInv.data_eq (h : AfterInv s) (hstaged : Staged s.rt) (hc : AfterChange s s' l)
    (hd : d ∈ s.promises) : s'.data d.promise = s.data d.promise ∨
      l = .machine .startJob ∧ s.rt.jobList.head? = some d.job := by
  cases hc with
  | quiet l hl hshift hpromises hdata => exact .inl (by rw [hdata])
  | queued argv ok hshift hpromises hdata => exact .inl (by rw [hdata])
  | made capOk delayOk tmrOk hnext htimers hevents hjobs hrunning hlog hpromises hdata =>
    have hne : d.promise ≠ s.rt.next := by
      have := h.placed d hd
      omega
    exact .inl (by rw [hdata, update_of_ne hne])
  | expired q tmr ht halarm hshift hpromises hdata => exact .inl (by rw [hdata])
  | delivered q tmr ok ht hq hshift hpromises hdata => exact .inl (by rw [hdata])
  | started e es hrunning hjobs hrt hpromises hdata =>
    have hmem : e ∈ s.rt.jobList := by simp [hjobs]
    rcases h.settleJob_of_mem hstaged hmem with ⟨-, hsame⟩ | ⟨d', hd', rfl, -, hsettle⟩
    · exact .inl (by rw [hdata, hsame])
    · by_cases heq : d.promise = d'.promise
      · have := h.placed d hd
        have := h.placed d' hd'
        obtain rfl := h.eq_of_near hd hd' (by omega) (by omega)
        exact .inr ⟨rfl, by simp [hjobs]⟩
      · exact .inl (by rw [hdata, hsettle, update_of_ne heq])
  | finished hshift hpromises hdata => exact .inl (by rw [hdata])
  | called func argv thenProperty hfunc hholds hrt hpromises hdata =>
    refine .inl ?_
    rw [hdata, settle_other fun d' hd' => ⟨?_, ?_⟩]
    · rintro rfl
      exact h.hidden d' hd' _ (.inl rfl) (.inl (mem_stack_of_holds hholds))
    · rintro rfl
      exact h.hidden d' hd' _ (.inr rfl) (.inl (mem_stack_of_holds hholds))

/-- The record of a promise, as long as there is one. -/
theorem AfterRecords.record_eq (h : AfterRecords s) (hd : d ∈ s.promises) {tmr : JSIOTimer}
    (ht : s.rt.timers d.timer = some tmr) :
    tmr = d.record tmr.alarm ∧ (tmr.alarm ∨ d.timer ∈ s.rt.events) := by
  obtain ⟨d', hd', htimer, hrecord, hstage⟩ := h.timers d.timer tmr ht
  obtain rfl := h.eq_of_timer hd hd' htimer.symm
  exact ⟨hrecord, hstage⟩

/-- The functions of a promise are in its record and in its job only. -/
theorem AfterInv.released (h : AfterInv s) (hd : d ∈ s.promises)
    (hrecord : s.rt.timers d.timer = none)
    (hjob : ¬ (d.job ∈ s.rt.jobList ∨ s.rt.running = some d.job)) : Released s d := by
  intro v hv
  have hfunc : ∀ d' ∈ s.promises, v = .object d'.resolve ∨ v = .object d'.reject → d = d' := by
    intro d' hd' hv'
    rcases hv with rfl | rfl
    · exact h.eq_of_func hd hd' (.inl rfl) (by simpa using hv')
    · exact h.eq_of_func hd hd' (.inr rfl) (by simpa using hv')
  refine ⟨fun r tmr ht hmem => ?_, fun e he hmem => ?_, h.hidden d hd v hv⟩
  · obtain ⟨d', hd', rfl, hrecord', -⟩ := h.timers r tmr ht
    rw [hrecord'] at hmem
    obtain rfl := hfunc d' hd' (by simpa [JSIOTimer.slots, AfterPromise.record] using hmem)
    simp [hrecord] at ht
  · rcases h.jobs e he with ⟨hscript, -⟩ | ⟨d', hd', rfl⟩
    · exact h.hidden d hd v hv (.inr (.inr (.inr ⟨e, he, by simpa [JSJobEntry.passed, hscript]⟩)))
    · obtain rfl := hfunc d' hd' (.inl (by simpa [AfterPromise.job] using hmem))
      exact hjob he

/-- The call is the last stage. -/
theorem AfterInv.released_of_call (h : AfterInv s) (hstaged : Staged s.rt) (hd : d ∈ s.promises)
    (hcall : d.call ∈ s.rt.log) (hrunning : s.rt.running ≠ some d.job) : Released s d := by
  have hone := hstaged.le_one d.timer
  have hlog : 0 < s.rt.log.countP fun x => x.origin = some d.timer :=
    List.countP_pos_iff.mpr ⟨d.call, hcall, by simp⟩
  simp only [stages] at hone
  have hrecord : s.rt.timers d.timer = none := by
    cases ht : s.rt.timers d.timer with
    | none => rfl
    | some tmr =>
      rcases (h.record_eq hd ht).2 with halarm | hevent
      · simp only [alarmActive, ht, Option.any_some, halarm, Bool.toNat_true] at hone
        omega
      · have := List.count_pos_iff.mpr hevent
        omega
  refine h.released hd hrecord (not_or.mpr ⟨fun hjob => ?_, hrunning⟩)
  have : 0 < s.rt.jobList.countP fun e => e.origin = some d.timer :=
    List.countP_pos_iff.mpr ⟨d.job, hjob, by simp⟩
  omega

/-- The step lemma. -/
theorem afterStep_inv (hsound : Sound s.rt lost) (hstaged : Staged s.rt) (h : AfterInv s)
    (hl : AfterProgram s l) (hstep : afterStep s l = some s') :
    (∃ lost', Sound s'.rt lost') ∧ Staged s'.rt ∧ AfterInv s' := by
  have hc := afterStep_change hsound h.noTimerObjects hl hstep
  have hrecords := h.records hstaged hc
  cases l with
  | machine m =>
    have hm := afterStep_machine hstep
    obtain ⟨⟨lost', hsound', -⟩, hstepped⟩ :=
      step_changes hsound (fun _ => h.noTimerObjects.gcSafe hsound.ready.owned) hm
    refine ⟨⟨lost', hsound'⟩, ?_, hrecords, h.hidden_step hsound.ready (fun p =>
      step_accessible hl.loadsPassed hm) hc⟩
    rcases hstepped with hchange | ⟨r, pipe, buffer, mem, t, jobs, obs, -, hreceived, -, -⟩
    · exact hstaged.change hchange
    · exact hstaged.received hreceived
  | call func argv thenProperty =>
    have hrt : s'.rt = s.rt := by
      cases hc with
      | called func argv thenProperty hfunc hholds hrt hpromises hdata => exact hrt
    exact ⟨⟨lost, hrt ▸ hsound⟩, hrt ▸ hstaged, hrecords,
      h.hidden_step hsound.ready (fun p hp => .inl (hrt ▸ hp)) hc⟩

theorem AfterInv.settles (h : AfterInv s) (hsound : Sound s.rt lost) (hstaged : Staged s.rt)
    (hd : d ∈ s.promises) : Settles s d := by
  have hchange : ∀ {l s'}, AfterProgram s l → afterStep s l = some s' → AfterChange s s' l :=
    fun hl hstep => afterStep_change hsound h.noTimerObjects hl hstep
  have hcleared : .cleared d.timer ∉ s.rt.log := by
    intro hmem
    obtain ⟨d', -, heq | heq⟩ := h.log _ hmem <;> cases heq
  have hone := hstaged.armed_one _ _ (h.armed d hd) hcleared
  have hlt := (h.placed d hd).2.2.2
  exact {
    once := hone
    kept := by
      refine ⟨fun hsome => ?_, fun hstage => ?_⟩
      · obtain ⟨tmr, ht⟩ := Option.isSome_iff_exists.mp hsome
        refine (h.record_eq hd ht).2.imp_left fun halarm => ?_
        simpa [alarmActive, ht] using halarm
      · rcases hstage with halarm | hevent
        · cases ht : s.rt.timers d.timer with
          | none => simp [alarmActive, ht] at halarm
          | some tmr => rfl
        · exact h.events _ hevent
    held := fun tmr ht => by
      obtain ⟨hrecord, -⟩ := h.record_eq hd ht
      have hslots : tmr.slots = [.object d.resolve, .object d.reject] := by
        rw [hrecord]
        rfl
      exact ⟨hrecord, hsound.ready.live_of_timer ht (by simp [hslots]),
        hsound.ready.live_of_timer ht (by simp [hslots])⟩
    jobs := fun e he horigin => by
      rcases h.jobs e (.inl he) with ⟨-, hnone⟩ | ⟨d', hd', rfl⟩
      · simp [hnone] at horigin
      · rw [h.eq_of_timer hd' hd (Option.some.inj horigin)]
    delivers := fun hevent => by
      obtain ⟨rt', hstep⟩ := Option.isSome_iff_exists.mp
        (deliver_isSome hsound hevent (h.events _ hevent) true)
      exact ⟨⟨rt', s.promises, s.data⟩, by simp [afterStep, hstep]⟩
    delivered := fun s' hstep => by
      generalize hl : AfterLabel.machine (.deliver d.timer true) = l at hstep
      have hc := hchange (hl ▸ rfl) hstep
      cases hc with
      | delivered r tmr ok ht hr hshift hpromises hdata =>
        obtain ⟨rfl, rfl⟩ : d.timer = r ∧ true = ok := by simpa using hl
        have hjob : timeoutJob d.timer tmr = d.job := by
          rw [(h.record_eq hd ht).1]
          rfl
        exact ⟨hjob ▸ hshift.jobList, by simp [hshift.timers]⟩
      | quiet m hm => exact absurd (AfterLabel.machine.inj hl).symm (hm _ _)
      | _ => cases hl
    freed := fun l s' hl hstep hsome hnone => by
      rcases (hchange hl hstep).timers_isSome hlt with hsame | ⟨⟨ok, rfl⟩, -⟩
      · simp [hsome, hnone] at hsame
      · obtain rfl : ok = true := hl
        rfl
    gone := fun l s' hl hstep hnone => by
      rcases (hchange hl hstep).timers_isSome hlt with hsame | ⟨-, hnone'⟩
      · simpa [hnone] using hsame
      · exact hnone'
    state := h.state d hd
    only := fun l s' hl hstep hne =>
      (h.data_eq hstaged (hchange hl hstep) hd).resolve_left hne
    ended := fun hrunning => by
      obtain ⟨rt', hend⟩ : ∃ rt', step s.rt .endJob = some rt' := by
        simp [step, jsFinishPendingJob, hrunning]
      have hstep : afterStep s (.machine .endJob) = some ⟨rt', s.promises, s.data⟩ := by
        simp [afterStep, hend]
      have hl : AfterProgram s (.machine .endJob) := trivial
      obtain ⟨-, hstaged', hinv⟩ := afterStep_inv hsound hstaged h hl hstep
      obtain ⟨-, hshrinks⟩ := hsound.ready.finishJob hend
      refine ⟨_, hstep, hinv.released_of_call hstaged' hd ?_ (by simp [hshrinks.running])⟩
      exact hshrinks.log ▸ h.running d hd hrunning
    released := h.released_of_call hstaged hd }

end AfterInv

/-! ## Runs -/

/-- The state before the first step. -/
def afterStart : AfterState := ⟨jsNewRuntime, [], fun _ => ⟨false, .pending⟩⟩

theorem afterStart_inv : AfterInv afterStart where
  placed _ hd := by simp [afterStart] at hd
  apart _ hd := by simp [afterStart] at hd
  hidden _ hd := by simp [afterStart] at hd
  timers _ _ ht := by simp [afterStart, jsNewRuntime] at ht
  events _ hr := by simp [afterStart, jsNewRuntime] at hr
  jobs _ he := by simp [afterStart, jsNewRuntime] at he
  running _ hd := by simp [afterStart] at hd
  log _ hx := by simp [afterStart, jsNewRuntime] at hx
  armed _ hd := by simp [afterStart] at hd
  state _ hd := by simp [afterStart] at hd

/-- In every run in which memory does not run out, each call of after has its promise settled
once, by the job of its timer. -/
theorem after_settles {ls : List AfterLabel} {s : AfterState}
    (hmeets : Transition.Meets afterStep AfterProgram afterStart ls)
    (hrun : Transition.run afterStep afterStart ls = some s) : ∀ d ∈ s.promises, Settles s d := by
  obtain ⟨⟨lost, hsound⟩, hstaged, hinv⟩ := Transition.run_invariant
    (I := fun u => (∃ lost, Sound u.rt lost) ∧ Staged u.rt ∧ AfterInv u)
    ⟨⟨_, jsNewRuntime_sound⟩, jsNewRuntime_staged, afterStart_inv⟩ hmeets
    (fun _ _ _ ⟨⟨_, hsound⟩, hstaged, hinv⟩ hl hstep => afterStep_inv hsound hstaged hinv hl hstep)
    hrun
  exact fun d hd => hinv.settles hsound hstaged hd

/-- The promise is dropped at once, and a collection runs before the alarm expires. -/
def droppedPromise : List AfterLabel :=
  [.machine (.after true true true), .machine (.drop (.object 1)), .machine .runGC,
    .machine (.expire 4), .machine (.deliver 4 true), .machine .startJob, .machine .endJob]

theorem after_settles_dropped : ∃ s, Transition.run afterStep afterStart droppedPromise = some s ∧
    s.promises = [⟨1, 2, 3, 4⟩] ∧ s.data 1 = ⟨true, .fulfilled .undefined⟩ ∧
    ∀ d ∈ s.promises, Settles s d := by
  have hmeets : Transition.Meets afterStep AfterProgram afterStart droppedPromise :=
    Transition.meets_of_forall fun u l hl => by
      simp only [droppedPromise, List.mem_cons, List.not_mem_nil, or_false] at hl
      rcases hl with rfl | rfl | rfl | rfl | rfl | rfl | rfl
      · exact ⟨rfl, rfl, rfl⟩
      · trivial
      · trivial
      · trivial
      · exact rfl
      · trivial
      · trivial
  have hend : (Transition.run afterStep afterStart droppedPromise).map
      (fun s => (s.promises, s.data 1)) =
      some ([⟨1, 2, 3, 4⟩], ⟨true, .fulfilled .undefined⟩) := by decide
  obtain ⟨s, hrun, hs⟩ := Option.map_eq_some_iff.mp hend
  obtain ⟨hpromises, hdata⟩ := Prod.mk.inj hs
  exact ⟨s, hrun, hpromises, hdata, after_settles hmeets hrun⟩

end IoQuickJS
