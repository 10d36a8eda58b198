import IoQuickJS.Steps

/-!
# The stages of a timer

An armed timer goes from the alarm list to the event queue, from there to the job list and from
there to the call of its callback. It is in one of these stages at most, and clearTimeout takes
it out of the first one only.
-/
namespace IoQuickJS

open Function (update update_self update_of_ne)

/-- `is_io_alarm_active` of the alarm of timer `r`. -/
def alarmActive (rt : JSRuntime) (r : Nat) : Bool := (rt.timers r).any JSIOTimer.alarm

/-- The timer that an observation ends the way of: its callback was called, or its job lost. -/
def Observation.origin : Observation → Option Nat
  | .call _ _ o => o
  | .jobLost o => o
  | _ => none

/-- In how many stages timer `r` is: its alarm is active, its event is queued, its job is queued,
or it is through. -/
def stages (rt : JSRuntime) (r : Nat) : Nat :=
  (alarmActive rt r).toNat + rt.events.count r +
    rt.jobList.countP (fun e => e.origin = some r) +
    rt.log.countP fun x => x.origin = some r

structure Staged (rt : JSRuntime) : Prop where
  le_one : ∀ r, stages rt r ≤ 1
  fresh : ∀ r, rt.next ≤ r → stages rt r = 0
  armed_lt : ∀ r f, .armed r f ∈ rt.log → r < rt.next
  armed_one : ∀ r f, .armed r f ∈ rt.log → .cleared r ∉ rt.log → stages rt r = 1
  jobs : ∀ e ∈ rt.jobList, ∀ r, e.origin = some r → ∃ f, e = ⟨.timerContinuation, [f], some r⟩

section Evolves

variable {a b : JSRuntime}

theorem Evolves.alarmActive_eq (h : Evolves a b) (r : Nat) :
    alarmActive b r = alarmActive a r := by
  unfold alarmActive
  cases hb : b.timers r with
  | some tmr =>
    obtain ⟨old, hold, -, halarm, -⟩ := h.timer_before hb
    simp [hold, halarm]
  | none =>
    cases ha : a.timers r with
    | none => rfl
    | some tmr =>
      cases halarm : tmr.alarm with
      | false => simp [halarm]
      | true =>
        obtain ⟨has, hsome⟩ := h.timer_of_alarm ha halarm
        simp [hb] at hsome

theorem Evolves.stages_eq (h : Evolves a b) (r : Nat) : stages b r = stages a r := by
  simp only [stages, h.alarmActive_eq, h.events, h.jobList, h.log]

/-- The stages do not depend on the heap. -/
theorem Staged.evolves (ha : Staged a) (h : Evolves a b) : Staged b where
  le_one r := (h.stages_eq r).trans_le (ha.le_one r)
  fresh r hr := (h.stages_eq r).trans (ha.fresh r (h.next_le.trans hr))
  armed_lt r f hf := (ha.armed_lt r f (h.log ▸ hf)).trans_le h.next_le
  armed_one r f hf hc :=
    (h.stages_eq r).trans (ha.armed_one r f (h.log ▸ hf) (h.log ▸ hc))
  jobs e he := ha.jobs e (h.jobList ▸ he)

end Evolves

theorem jsNewRuntime_staged : Staged jsNewRuntime where
  le_one r := by simp [stages, alarmActive, jsNewRuntime]
  fresh r _ := by simp [stages, alarmActive, jsNewRuntime]
  armed_lt r f hf := by simp [jsNewRuntime] at hf
  armed_one r f hf := by simp [jsNewRuntime] at hf
  jobs e he := by simp [jsNewRuntime] at he

/-- A state that differs from a staged one in the places below is staged when the numbers still
agree for every timer. -/
theorem Staged.of_eq {a b : JSRuntime} (ha : Staged a) (hnext : b.next = a.next)
    (hstages : ∀ r, stages b r = stages a r)
    (hlog : ∀ r f, .armed r f ∈ b.log → .armed r f ∈ a.log)
    (hcleared : ∀ r, .cleared r ∈ a.log → .cleared r ∈ b.log)
    (hjobs : ∀ e ∈ b.jobList, ∀ r, e.origin = some r → e ∈ a.jobList ∨
      ∃ f, e = ⟨.timerContinuation, [f], some r⟩) : Staged b where
  le_one r := (hstages r).trans_le (ha.le_one r)
  fresh r hr := (hstages r).trans (ha.fresh r (hnext ▸ hr))
  armed_lt r f hf := hnext ▸ ha.armed_lt r f (hlog r f hf)
  armed_one r f hf hc :=
    (hstages r).trans (ha.armed_one r f (hlog r f hf) fun h => hc (hcleared r h))
  jobs e he r hr := by
    rcases hjobs e he r hr with h | h
    · exact ha.jobs e h r hr
    · exact h

theorem countP_concat_other {α : Type} {l : List α} {x : α} {p : α → Bool} (h : p x = false) :
    (l ++ [x]).countP p = l.countP p := by
  simp [List.countP_append, h]

section Change

variable {rt rt' : JSRuntime}

/-- A new timer begins with its alarm. -/
theorem Staged.armed (h : Staged rt) {q : Nat} {tmr : JSIOTimer} (hq : rt.next ≤ q)
    (hlt : q < rt'.next) (halarm : tmr.alarm)
    (hev : Evolves { rt with
      timers := update rt.timers q (some tmr)
      log := rt.log ++ [.armed q tmr.resolve] } rt') : Staged rt' := by
  have hstages : ∀ r, stages rt' r = if r = q then 1 else stages rt r := by
    intro r
    rw [hev.stages_eq]
    simp only [stages, alarmActive]
    rw [countP_concat_other (by simp [Observation.origin])]
    by_cases hr : r = q
    · have hzero := h.fresh q hq
      simp only [stages] at hzero
      simp only [hr, update_self, Option.any_some, halarm, Bool.toNat_true, if_true]
      omega
    · simp [hr]
  refine ⟨fun r => ?_, fun r hr => ?_, fun r f hf => ?_, fun r f hf hclear => ?_,
    fun e he => h.jobs e (hev.jobList ▸ he)⟩
  · rw [hstages]
    split_ifs
    · exact Nat.le_refl 1
    · exact h.le_one r
  · have hrq : r ≠ q := by omega
    rw [hstages, if_neg hrq]
    exact h.fresh r ((hev.next_le.trans hr : rt.next ≤ r))
  · rw [hev.log, List.mem_append, List.mem_singleton] at hf
    rcases hf with hf | hf
    · exact (h.armed_lt r f hf).trans_le hev.next_le
    · obtain ⟨rfl, -⟩ := Observation.armed.inj hf
      exact hlt
  · rw [hev.log] at hf hclear
    rw [hstages]
    split_ifs with hr
    · rfl
    · have hf' : .armed r f ∈ rt.log := by simpa [hr] using hf
      exact h.armed_one r f hf' (by simpa using hclear)

/-- clearTimeout ends the way of a timer whose alarm is active. -/
theorem Staged.cleared (h : Staged rt) {q : Nat} {tmr : JSIOTimer} (ht : rt.timers q = some tmr)
    (hev : Evolves { rt with
      timers := update rt.timers q (some { tmr with alarm := false })
      log := rt.log ++ [.cleared q] } rt') : Staged rt' := by
  have hstages : ∀ r, stages rt' r ≤ stages rt r ∧ (r ≠ q → stages rt' r = stages rt r) := by
    intro r
    rw [hev.stages_eq]
    simp only [stages, alarmActive]
    rw [countP_concat_other (by simp [Observation.origin])]
    by_cases hr : r = q
    · subst hr
      simp [ht]
    · simp [hr]
  refine ⟨fun r => (hstages r).1.trans (h.le_one r), fun r hr => ?_, fun r f hf => ?_,
    fun r f hf hclear => ?_, fun e he => h.jobs e (hev.jobList ▸ he)⟩
  · have := (hstages r).1
    have := h.fresh r (hev.next_le.trans hr)
    omega
  · have hf' : .armed r f ∈ rt.log := by simpa [hev.log] using hf
    exact (h.armed_lt r f hf').trans_le hev.next_le
  · simp only [hev.log, List.mem_append, List.mem_singleton, Observation.cleared.injEq,
      not_or] at hf hclear
    have hf' : .armed r f ∈ rt.log := by simpa using hf
    rw [(hstages r).2 hclear.2]
    exact h.armed_one r f hf' hclear.1

/-- From the alarm list to the event queue. -/
theorem Staged.expired (h : Staged rt) {q : Nat} {tmr : JSIOTimer} (ht : rt.timers q = some tmr)
    (halarm : tmr.alarm) :
    Staged { rt with
      timers := update rt.timers q (some { tmr with alarm := false })
      events := rt.events ++ [q] } := by
  refine h.of_eq rfl (fun r => ?_) (fun _ _ hf => hf) (fun _ hf => hf) fun _ he _ _ => .inl he
  simp only [stages, alarmActive, List.count_append, List.count_singleton]
  by_cases hr : r = q
  · subst hr
    simp [ht, halarm]
    omega
  · simp [hr, Ne.symm hr]

/-- The alarm is not active while the event is queued. -/
theorem Staged.inactive (h : Staged rt) {r : Nat} (hr : r ∈ rt.events) :
    alarmActive rt r = false := by
  have hone := h.le_one r
  have hevent := List.count_pos_iff.mpr hr
  by_contra hn
  simp only [Bool.not_eq_false] at hn
  simp only [stages, hn, Bool.toNat_true] at hone
  omega

theorem Staged.not_mem_erase (h : Staged rt) {r : Nat} : r ∉ rt.events.erase r := by
  have hone := h.le_one r
  simp only [stages] at hone
  rw [← List.count_eq_zero, List.count_erase_self]
  omega

/-- From the event queue to the job list, or to the jobs that are lost. -/
theorem Staged.delivered (h : Staged rt) {q : Nat} {tmr : JSIOTimer} (ht : rt.timers q = some tmr)
    (hq : q ∈ rt.events) (ok : Bool) :
    Staged (posted { rt with
      timers := update rt.timers q tmr.delivered
      events := rt.events.erase q } (timeoutJob q tmr) ok) := by
  have hinactive := h.inactive hq
  have hevent := List.count_pos_iff.mpr hq
  have halarm : ∀ r, (update rt.timers q tmr.delivered r).any JSIOTimer.alarm =
      alarmActive rt r := by
    intro r
    by_cases hr : r = q
    · subst hr
      rw [hinactive]
      simp only [alarmActive, ht, Option.any_some] at hinactive
      unfold JSIOTimer.delivered
      split_ifs <;> simp [hinactive]
    · simp [alarmActive, hr]
  cases ok with
  | true =>
    refine h.of_eq rfl (fun r => ?_) (fun _ _ hf => hf) (fun _ hf => hf) fun e he r hr => ?_
    · simp only [stages, posted, if_true, List.countP_append, List.countP_singleton, timeoutJob,
        List.count_erase, Option.some.injEq, decide_eq_true_eq]
      rw [alarmActive, halarm]
      by_cases hr : q = r
      · subst hr
        simp
        omega
      · simp [hr]
    · simp only [posted, if_true, List.mem_append, List.mem_singleton] at he
      rcases he with he | rfl
      · exact .inl he
      · obtain rfl := Option.some.inj hr
        exact .inr ⟨tmr.resolve, rfl⟩
  | false =>
    refine h.of_eq rfl (fun r => ?_) (fun r f hf => ?_) (fun r hf => ?_)
      fun e he r hr => .inl he
    · simp only [stages, posted, Bool.false_eq_true, if_false, List.countP_append,
        List.countP_singleton, timeoutJob, List.count_erase, Observation.origin,
        Option.some.injEq, decide_eq_true_eq]
      rw [alarmActive, halarm]
      by_cases hr : q = r
      · subst hr
        simp
        omega
      · simp [hr]
    · simpa [posted] using hf
    · simp [posted, hf]

/-- The jobs of script code are of no timer. -/
theorem Staged.queued (h : Staged rt) (argv : List JSValue) (ok : Bool) :
    Staged (posted rt ⟨.script, argv, none⟩ ok) := by
  cases ok with
  | true =>
    refine h.of_eq rfl (fun r => ?_) (fun _ _ hf => hf) (fun _ hf => hf) fun e he r hr => ?_
    · simp [stages, posted, alarmActive]
    · simp only [posted, if_true, List.mem_append, List.mem_singleton] at he
      rcases he with he | rfl
      · exact .inl he
      · cases hr
  | false =>
    refine h.of_eq rfl (fun r => ?_) (fun r f hf => ?_) (fun r hf => ?_) fun e he r hr => .inl he
    · simp [stages, posted, alarmActive, Observation.origin]
    · simpa [posted] using hf
    · simp [posted, hf]

/-- From the job list to the call. -/
theorem Staged.started (h : Staged rt) {e : JSJobEntry} {es : List JSJobEntry}
    (hjobs : rt.jobList = e :: es) :
    Staged { rt with jobList := es, running := some e, log := rt.log ++ e.observation } := by
  have hform := h.jobs e (by simp [hjobs])
  refine h.of_eq rfl (fun r => ?_) (fun r f hf => ?_) (fun r hf => ?_)
    fun e' he r hr => .inl (by simp [hjobs, he])
  · simp only [stages, alarmActive, hjobs, List.countP_append, List.countP_cons]
    cases ho : e.origin with
    | none =>
      have hobs : e.observation.countP (fun x => decide (x.origin = some r)) = 0 := by
        unfold JSJobEntry.observation
        split <;> simp [Observation.origin, ho]
      simp [hobs]
    | some q =>
      obtain ⟨f, rfl⟩ := hform q ho
      simp [JSJobEntry.observation, Observation.origin]
      omega
  · have hnot : .armed r f ∉ e.observation := by
      unfold JSJobEntry.observation
      split <;> simp
    simpa [hnot] using hf
  · simp [hf]

theorem Staged.change {l : Label} (h : Staged rt) (hc : Change l rt rt') : Staged rt' := by
  cases hc with
  | quiet hev => exact h.evolves hev
  | armed q tmr hlabel hq hlt halarm hfunc hafter hev => exact h.armed hq hlt halarm hev
  | cleared t q tmr hl hptr hq ht hev => exact h.cleared ht hev
  | expired q tmr ht halarm hkept hev => exact (h.expired ht halarm).evolves hev
  | delivered q tmr ok ht hq hev => exact (h.delivered ht hq ok).evolves hev
  | queued argv ok hev => exact (h.queued argv ok).evolves hev
  | started e es hrunning hjobs hev => exact (h.started hjobs).evolves hev
  | finished hev =>
    refine Staged.evolves ?_ hev
    exact h.of_eq rfl (fun _ => rfl) (fun _ _ hf => hf) (fun _ hf => hf) fun _ he _ _ => .inl he
  | opened q handle hq hev =>
    refine Staged.evolves ?_ hev
    exact h.of_eq rfl (fun _ => rfl) (fun _ _ hf => hf) (fun _ hf => hf) fun _ he _ _ => .inl he
  | assigned q s value hs hev =>
    refine Staged.evolves ?_ hev
    exact h.of_eq rfl (fun _ => rfl) (fun _ _ hf => hf) (fun _ hf => hf) fun _ he _ _ => .inl he
  | promised q s p reject hs hgets hp hfunc hreject hev =>
    refine Staged.evolves ?_ hev
    refine h.of_eq rfl (fun r => ?_) (fun r f hf => ?_) (fun r hf => ?_) fun _ he _ _ => .inl he
    · simp [stages, alarmActive, Observation.origin]
    · simpa using hf
    · simp [hf]

theorem Staged.received {q : Nat} {s : IoJsIoSocket} {jobs : List JSJobEntry}
    {obs : List Observation} (h : Staged rt) (hc : Received rt rt' q s jobs obs) :
    Staged rt' := by
  refine Staged.evolves ?_ hc.evolves
  refine h.of_eq rfl (fun r => ?_) (fun r f hf => ?_) (fun r hf => ?_) fun e he r hr => ?_
  · have hjobs : jobs.countP (fun e => decide (e.origin = some r)) = 0 := by
      refine List.countP_eq_zero.mpr fun e he => ?_
      obtain ⟨str, rfl⟩ := hc.jobs_eq e he
      simp
    have hobs : obs.countP (fun x => decide (x.origin = some r)) = 0 := by
      refine List.countP_eq_zero.mpr fun x hx => ?_
      rw [hc.obs_eq x hx]
      simp [Observation.origin]
    simp only [stages, alarmActive, List.countP_append, hjobs, hobs, Nat.add_zero]
  · rcases List.mem_append.mp hf with hf | hf
    · exact hf
    · cases hc.obs_eq _ hf
  · exact List.mem_append_left _ hf
  · rcases List.mem_append.mp he with he | he
    · exact .inl he
    · obtain ⟨str, rfl⟩ := hc.jobs_eq e he
      cases hr

end Change

end IoQuickJS
