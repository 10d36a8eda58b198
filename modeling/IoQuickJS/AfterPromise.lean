import IoQuickJS.Access
import IoQuickJS.Stages

/-!
# The promise of after

after keeps the functions that resolve its promise in a record that no object refers to. The
collector does not see the record, so its two references count as references from outside; and
nothing but the record, and later the job, has them, so no script can settle the promise first.

The promises that after has returned are kept beside the runtime here, with the state
JSPromiseData has for them; a call of one of their functions is js_promise_resolve_function_call,
whoever makes it.

## Main result

* `afterStep_change`: every step of a program is one of the cases of `AfterChange`.
-/
namespace IoQuickJS

open Function (update update_self update_of_ne update_apply)

/-! ## Promises -/

/-- `promise_state`, with `promise_result`. -/
inductive PromiseState where
  | pending
  | fulfilled (result : JSValue)
  | rejected (result : JSValue)
  deriving DecidableEq, Repr

/-- The promise of a call of after: its address, those of the functions that resolve it and that
of the record. -/
structure AfterPromise where
  promise : Nat
  resolve : Nat
  reject : Nat
  timer : Nat
  deriving DecidableEq, Repr

/-- The state of a promise, with the flag that the functions that resolve it share. -/
structure JSPromiseData where
  alreadyResolved : Bool
  state : PromiseState
  deriving DecidableEq, Repr

/-- What JS_GetProperty finds under the name `then`. -/
inductive ThenProperty where
  | throws (error : JSValue)
  | other
  | function
  deriving DecidableEq, Repr

/-- `js_promise_resolve_function_call` of a function of `promise`; the error of a promise resolved
with itself is `.exception`. -/
def jsPromiseResolveFunctionCall (promise : Nat) (isReject : Bool) (argv : List JSValue)
    (thenProperty : ThenProperty) (s : JSPromiseData) : JSPromiseData :=
  if s.alreadyResolved then s
  else
    let resolution := argv.headD .undefined
    if isReject then ⟨true, .rejected resolution⟩
    else
      match resolution with
      | .object p =>
        if p = promise then ⟨true, .rejected .exception⟩
        else
          match thenProperty with
          | .throws error => ⟨true, .rejected error⟩
          | .other => ⟨true, .fulfilled resolution⟩
          -- js_promise_resolve_thenable_job goes on with it
          | .function => ⟨true, s.state⟩
      | _ => ⟨true, .fulfilled resolution⟩

/-- What a call of `func` does to the promises. -/
def settle (promises : List AfterPromise) (func : JSValue) (argv : List JSValue)
    (thenProperty : ThenProperty) (data : Nat → JSPromiseData) : Nat → JSPromiseData :=
  match promises.find? fun d => func = .object d.resolve ∨ func = .object d.reject with
  | none => data
  | some d =>
    update data d.promise (jsPromiseResolveFunctionCall d.promise (func = .object d.reject) argv
      thenProperty (data d.promise))

/-- What the call that a job makes does to them. -/
def settleJob (promises : List AfterPromise) (job : JSJobEntry) (data : Nat → JSPromiseData) :
    Nat → JSPromiseData :=
  match job.observation with
  | [.call func argv _] => settle promises func argv .other data
  | _ => data

/-! ## The system -/

/-- The runtime, the promises that after has returned and, by address, their state. -/
structure AfterState where
  rt : JSRuntime
  promises : List AfterPromise
  data : Nat → JSPromiseData

/-- A step of the machine, or a call that script code makes. -/
inductive AfterLabel where
  | machine (l : Label)
  | call (func : JSValue) (argv : List JSValue) (thenProperty : ThenProperty)

def afterStep (s : AfterState) : AfterLabel → Option AfterState
  | .machine (.after capOk delayOk tmrOk) =>
    let n := s.rt.next
    (step s.rt (.after capOk delayOk tmrOk)).map fun rt =>
      if capOk && delayOk && tmrOk then
        ⟨rt, s.promises ++ [⟨n, n + 1, n + 2, n + 3⟩], update s.data n ⟨false, .pending⟩⟩
      else ⟨rt, s.promises, s.data⟩
  | .machine .startJob =>
    (step s.rt .startJob).map fun rt =>
      ⟨rt, s.promises, s.rt.jobList.head?.elim id (settleJob s.promises) s.data⟩
  | .machine l => (step s.rt l).map fun rt => ⟨rt, s.promises, s.data⟩
  | .call func argv thenProperty =>
    if s.rt.isFunction func ∧ s.rt.holds func ∧ argv.all s.rt.holds then
      some ⟨s.rt, s.promises, settle s.promises func argv thenProperty s.data⟩
    else none

/-- Calls of after that succeed, and what may come between them: script code that moves its
references about, collections, expiries, deliveries and jobs. -/
def AfterProgram (s : AfterState) : AfterLabel → Prop
  | .machine (.after capOk delayOk tmrOk) => capOk ∧ delayOk ∧ tmrOk
  | .machine (.deliver _ enqOk) => enqOk
  | .machine (.enqueueJob _ ok) => ok
  | .machine (.loadArgument v) => LoadsPassed s.rt (.loadArgument v)
  | .machine (.newObject _) | .machine (.newString _) | .machine (.dup _) | .machine (.drop _)
  | .machine (.setProperty _ _) | .machine (.getProperty _ _) | .machine (.deleteProperty _ _)
  | .machine (.expire _) | .machine .startJob | .machine .endJob | .machine .runGC => True
  | .call _ _ _ => True
  | _ => False

/-! ## Records without objects -/

/-- No record belongs to an object. -/
def NoTimerObjects (rt : JSRuntime) : Prop :=
  ∀ r tmr, rt.timers r = some tmr → tmr.hasObject = false

/-- `b` comes from `a` by work on the heap. -/
structure Shift (a b : JSRuntime) : Prop where
  next_le : a.next ≤ b.next
  timers : b.timers = a.timers
  events : b.events = a.events
  jobList : b.jobList = a.jobList
  running : b.running = a.running
  log : b.log = a.log

section NoTimerObjects

variable {rt a b : JSRuntime}

theorem NoTimerObjects.shift (h : NoTimerObjects a) (hev : Evolves a b) : Shift a b := by
  refine ⟨hev.next_le, funext fun r => ?_, hev.events, hev.jobList, hev.running, hev.log⟩
  rcases hev.timers r with hsame | ⟨tmr, ht, hhas, -⟩
  · exact hsame
  · simp [h r tmr ht] at hhas

theorem NoTimerObjects.gcSafe (h : NoTimerObjects rt) (hown : Owned rt) : GcSafe rt := by
  intro p r tmr f hptr
  obtain ⟨tmr, ht, hhas⟩ := hown.timer_record p r hptr
  simp [h r tmr ht] at hhas

theorem NoTimerObjects.erase (h : NoTimerObjects rt) (r : Nat) (events : List Nat)
    (jobs : List JSJobEntry) : NoTimerObjects { rt with
      timers := update rt.timers r none, events := events, jobList := jobs } := by
  intro q tmr hq
  simp only [update_apply] at hq
  split at hq
  · cases hq
  · exact h q tmr hq

end NoTimerObjects

/-! ## What a step does -/

/-- The steps of a program, by what they do outside the heap. -/
inductive AfterChange (s s' : AfterState) : AfterLabel → Prop
  | quiet (l : Label) (hl : ∀ r ok, l ≠ .deliver r ok) (h : Shift s.rt s'.rt)
    (hpromises : s'.promises = s.promises) (hdata : s'.data = s.data) :
    AfterChange s s' (.machine l)
  | queued (argv : List JSValue) (ok : Bool)
    (h : Shift { s.rt with jobList := s.rt.jobList ++ [⟨.script, argv, none⟩] } s'.rt)
    (hpromises : s'.promises = s.promises) (hdata : s'.data = s.data) :
    AfterChange s s' (.machine (.enqueueJob argv ok))
  | made (capOk delayOk tmrOk : Bool) (hnext : s'.rt.next = s.rt.next + 4)
    (htimers : s'.rt.timers = update s.rt.timers (s.rt.next + 3)
      (some ⟨false, .object (s.rt.next + 1), .object (s.rt.next + 2), true, .after⟩))
    (hevents : s'.rt.events = s.rt.events) (hjobs : s'.rt.jobList = s.rt.jobList)
    (hrunning : s'.rt.running = s.rt.running)
    (hlog : s'.rt.log = s.rt.log ++ [.armed (s.rt.next + 3) (.object (s.rt.next + 1))])
    (hpromises : s'.promises = s.promises ++ [⟨s.rt.next, s.rt.next + 1, s.rt.next + 2,
      s.rt.next + 3⟩])
    (hdata : s'.data = update s.data s.rt.next ⟨false, .pending⟩) :
    AfterChange s s' (.machine (.after capOk delayOk tmrOk))
  | expired (r : Nat) (tmr : JSIOTimer) (ht : s.rt.timers r = some tmr) (halarm : tmr.alarm)
    (h : Shift { s.rt with
      timers := update s.rt.timers r (some { tmr with alarm := false })
      events := s.rt.events ++ [r] } s'.rt)
    (hpromises : s'.promises = s.promises) (hdata : s'.data = s.data) :
    AfterChange s s' (.machine (.expire r))
  | delivered (r : Nat) (tmr : JSIOTimer) (ok : Bool) (ht : s.rt.timers r = some tmr)
    (hr : r ∈ s.rt.events)
    (h : Shift { s.rt with
      timers := update s.rt.timers r none
      events := s.rt.events.erase r
      jobList := s.rt.jobList ++ [timeoutJob r tmr] } s'.rt)
    (hpromises : s'.promises = s.promises) (hdata : s'.data = s.data) :
    AfterChange s s' (.machine (.deliver r ok))
  | started (e : JSJobEntry) (es : List JSJobEntry) (hrunning : s.rt.running = none)
    (hjobs : s.rt.jobList = e :: es)
    (hrt : s'.rt = { s.rt with
      jobList := es, running := some e, log := s.rt.log ++ e.observation })
    (hpromises : s'.promises = s.promises) (hdata : s'.data = settleJob s.promises e s.data) :
    AfterChange s s' (.machine .startJob)
  | finished (h : Shift { s.rt with running := none } s'.rt)
    (hpromises : s'.promises = s.promises) (hdata : s'.data = s.data) :
    AfterChange s s' (.machine .endJob)
  | called (func : JSValue) (argv : List JSValue) (thenProperty : ThenProperty)
    (hfunc : s.rt.isFunction func) (hholds : s.rt.holds func) (hrt : s'.rt = s.rt)
    (hpromises : s'.promises = s.promises)
    (hdata : s'.data = settle s.promises func argv thenProperty s.data) :
    AfterChange s s' (.call func argv thenProperty)

section AfterChange

variable {rt rt' : JSRuntime} {lost : JSValue → Nat}

theorem after_made {rt rt' : JSRuntime} (hstep : step rt (.after true true true) = some rt')
    (promises : List AfterPromise) (data : Nat → JSPromiseData) :
    AfterChange ⟨rt, promises, data⟩ ⟨rt', promises ++
      [⟨rt.next, rt.next + 1, rt.next + 2, rt.next + 3⟩], update data rt.next ⟨false, .pending⟩⟩
      (.machine (.after true true true)) := by
  obtain rfl := Option.some.inj hstep
  refine .made _ _ _ rfl ?_ rfl rfl rfl rfl rfl rfl
  simp [JSRuntime.push, JSValue.hasRefCount, ioEnqueueAlarm, modifyTimer]
  rfl

theorem afterStep_machine {s s' : AfterState} {m : Label} (h : afterStep s (.machine m) = some s') :
    step s.rt m = some s'.rt := by
  cases m with
  | after capOk delayOk tmrOk =>
    simp only [afterStep, Option.map_eq_some_iff] at h
    obtain ⟨rt', hm, rfl⟩ := h
    rw [hm]
    split_ifs <;> rfl
  | _ =>
    simp only [afterStep, Option.map_eq_some_iff] at h
    obtain ⟨rt', hm, rfl⟩ := h
    exact hm

/-- Of the arguments of a job a program uses those that are passed to it. -/
theorem AfterProgram.loadsPassed {s : AfterState} {m : Label} (h : AfterProgram s (.machine m)) :
    LoadsPassed s.rt m := by
  cases m with
  | loadArgument => exact h
  | _ => trivial

/-- The inversion of `afterStep` for the steps of a program. -/
theorem afterStep_change {s s' : AfterState} {l : AfterLabel} (hsound : Sound s.rt lost)
    (hnone : NoTimerObjects s.rt) (hl : AfterProgram s l) (hstep : afterStep s l = some s') :
    AfterChange s s' l := by
  have hr := hsound.ready
  cases l with
  | call func argv thenProperty =>
    simp only [afterStep] at hstep
    split_ifs at hstep with hcall
    obtain rfl := Option.some.inj hstep
    exact .called func argv thenProperty hcall.1 hcall.2.1 rfl rfl rfl
  | machine l =>
    have hm := afterStep_machine hstep
    cases l with
    | newObject | newString | dup | drop | setProperty | getProperty | deleteProperty
    | loadArgument =>
      simp only [afterStep, Option.map_eq_some_iff] at hstep
      obtain ⟨rt', -, rfl⟩ := hstep
      exact .quiet _ (by simp) (hnone.shift (moves_spec hr hm trivial).2) rfl rfl
    | enqueueJob argv ok =>
      obtain rfl : ok = true := hl
      simp only [afterStep, Option.map_eq_some_iff] at hstep
      obtain ⟨rt', -, rfl⟩ := hstep
      simp only [step] at hm
      split_ifs at hm with hv
      obtain rfl := Option.some.inj hm
      have hnone' : NoTimerObjects { s.rt with
        jobList := s.rt.jobList ++ [⟨.script, argv, none⟩] } := hnone
      exact .queued argv true (hnone'.shift (jsEnqueueJob_ok_evolves ..)) rfl rfl
    | after capOk delayOk tmrOk =>
      obtain ⟨rfl, rfl, rfl⟩ := hl
      simp only [afterStep, Option.map_eq_some_iff] at hstep
      obtain ⟨rt', -, rfl⟩ := hstep
      exact after_made hm s.promises s.data
    | expire r =>
      simp only [afterStep, Option.map_eq_some_iff] at hstep
      obtain ⟨rt', -, rfl⟩ := hstep
      obtain ⟨tmr, ht, halarm, -, -, hev⟩ := expireAlarm_spec hr hm
      refine .expired r tmr ht halarm (NoTimerObjects.shift (fun q t hq => ?_) hev) rfl rfl
      simp only [update_apply] at hq
      split at hq
      · obtain rfl := Option.some.inj hq
        exact hnone r tmr ht
      · exact hnone q t hq
    | deliver r enqOk =>
      obtain rfl : enqOk = true := hl
      simp only [afterStep, Option.map_eq_some_iff] at hstep
      obtain ⟨rt', -, rfl⟩ := hstep
      obtain ⟨tmr, ht, hmem, -, hev⟩ := deliverTimeout_spec hr hsound.after hm
      simp only [posted, if_true, JSIOTimer.delivered, hnone r tmr ht, Bool.false_eq_true,
        if_false] at hev
      exact .delivered r tmr true ht hmem ((hnone.erase r _ _).shift hev) rfl rfl
    | startJob =>
      simp only [afterStep, Option.map_eq_some_iff] at hstep
      obtain ⟨rt', -, rfl⟩ := hstep
      obtain ⟨e, es, hrunning, hjobs, rfl⟩ := jsStartPendingJob_eq_some hm
      exact .started e es hrunning hjobs rfl rfl (by simp [hjobs])
    | endJob =>
      simp only [afterStep, Option.map_eq_some_iff] at hstep
      obtain ⟨rt', -, rfl⟩ := hstep
      obtain ⟨-, hshrinks⟩ := hr.finishJob hm
      have hnone' : NoTimerObjects { s.rt with running := none } := hnone
      exact .finished (hnone'.shift hshrinks.evolves) rfl rfl
    | runGC =>
      simp only [afterStep, Option.map_eq_some_iff] at hstep
      obtain ⟨rt', -, rfl⟩ := hstep
      obtain rfl := Option.some.inj hm
      obtain ⟨-, hshrinks, -⟩ := hr.collect (hnone.gcSafe hr.owned)
      exact .quiet _ (by simp) (hnone.shift hshrinks.evolves) rfl rfl
    | _ => exact absurd hl id

end AfterChange

end IoQuickJS
