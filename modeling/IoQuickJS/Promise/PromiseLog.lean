import IoQuickJS.Promise.PromiseState

/-!
# What the log of a run says about its promises

`Recorded` says that the log and the promises agree: a pending promise holds the reactions that
have been registered on it, a settled one has been settled once and every reaction on it has been
handed to JS_EnqueueJob once, in order, with its result; and that jobs start in the order in which
they were queued. Every function keeps it, as long as no promise is settled twice.
-/
namespace IoQuickJS.Promise

open Function (update update_self update_of_ne)

/-! ## The log -/

/-- The reactions registered on a promise. -/
def registeredOn (p : Nat) (log : List Event) :
    List (JSPromiseReactionData × JSPromiseReactionData) :=
  log.filterMap fun
    | .registered q rds => if q = p then some rds else none
    | _ => none

/-- How and with what a promise has been settled. -/
def settledAs (p : Nat) (log : List Event) : List (Bool × Value) :=
  log.filterMap fun
    | .settled q isReject value => if q = p then some (isReject, value) else none
    | _ => none

/-- The reaction jobs of a promise that have been handed to JS_EnqueueJob. -/
def reactedOn (p : Nat) (log : List Event) : List Job :=
  log.filterMap fun
    | .reacted q job _ => if q = p then some job else none
    | _ => none

/-- What the host has been told about a promise: its reason, and whether it is handled now. -/
def trackedOn (p : Nat) (log : List Event) : List (Value × Bool) :=
  log.filterMap fun
    | .tracked q value isHandled => if q = p then some (value, isHandled) else none
    | _ => none

/-- The jobs that JS_EnqueueJob has queued. -/
def enqueuedJobs (log : List Event) : List Job :=
  log.filterMap fun
    | .reacted _ job true | .posted job true => some job
    | _ => none

def startedJobs (log : List Event) : List Job :=
  log.filterMap fun
    | .started job => some job
    | _ => none

/-- The jobs of reactions on a promise that has been settled. -/
def reactionJobs (isReject : Bool) (value : Value)
    (rds : List (JSPromiseReactionData × JSPromiseReactionData)) : List Job :=
  rds.map fun rd => .reaction (if isReject then rd.2 else rd.1) isReject value

/-- The host knows of a rejected promise exactly when nothing handles it. -/
def Tracks (d : JSPromiseData) (tracked : List (Value × Bool)) : Prop :=
  if d.isHandled then tracked = [] ∨ tracked = [(d.promiseResult, false), (d.promiseResult, true)]
  else tracked = [(d.promiseResult, false)]

/-- What the log says about a promise is what the promise is like. -/
def Settles (p : Nat) (log : List Event) (d : JSPromiseData) : Prop :=
  match d.promiseState with
  | .pending => settledAs p log = [] ∧ reactedOn p log = [] ∧
      (registeredOn p log).map Prod.fst = d.fulfillReactions ∧
      (registeredOn p log).map Prod.snd = d.rejectReactions ∧ trackedOn p log = []
  | .fulfilled => settledAs p log = [(false, d.promiseResult)] ∧
      reactedOn p log = reactionJobs false d.promiseResult (registeredOn p log) ∧
      trackedOn p log = []
  | .rejected => settledAs p log = [(true, d.promiseResult)] ∧
      reactedOn p log = reactionJobs true d.promiseResult (registeredOn p log) ∧
      Tracks d (trackedOn p log)

/-- Nothing has happened to a promise yet. -/
def Untouched (p : Nat) (log : List Event) : Prop :=
  settledAs p log = [] ∧ reactedOn p log = [] ∧ registeredOn p log = [] ∧ trackedOn p log = []

structure Recorded (s : State) : Prop where
  never : ∀ p, .ignored p ∉ s.log
  absent : ∀ p, s.promises p = none → Untouched p s.log
  present : ∀ p d, s.promises p = some d → Settles p s.log d
  queue : startedJobs s.log ++ s.jobList = enqueuedJobs s.log

/-! ## Settling a promise -/

section Recorded

variable {s s' : State} {p : Nat} {d : JSPromiseData}

/-- Reactions with whether JS_EnqueueJob succeeds for them. -/
def withMem : List JSPromiseReactionData → List Bool → List (JSPromiseReactionData × Bool)
  | [], _ => []
  | rd :: rds, mem => (rd, mem.headD true) :: withMem rds mem.tail

theorem map_fst_withMem (rds : List JSPromiseReactionData) (mem : List Bool) :
    (withMem rds mem).map Prod.fst = rds := by
  induction rds generalizing mem with
  | nil => rfl
  | cons rd rds ih => simp [withMem, ih]

theorem enqueueReactions_eq (s : State) (p : Nat) (isReject : Bool) (value : Value)
    (rds : List JSPromiseReactionData) (mem : List Bool) :
    s.enqueueReactions p isReject value rds mem = { s with
      jobList := s.jobList ++ ((withMem rds mem).filter Prod.snd).map fun x =>
        .reaction x.1 isReject value
      log := s.log ++ (withMem rds mem).map fun x =>
        .reacted p (.reaction x.1 isReject value) x.2 } := by
  induction rds generalizing s mem with
  | nil => simp [State.enqueueReactions, withMem]
  | cons rd rds ih =>
    rw [State.enqueueReactions, ih]
    simp only [withMem]
    generalize mem.headD true = ok
    cases ok <;> simp [State.jsEnqueueJob, State.record]

/-- The reactions a promise is settled with. -/
def JSPromiseData.reactions (d : JSPromiseData) (isReject : Bool) : List JSPromiseReactionData :=
  if isReject then d.rejectReactions else d.fulfillReactions

/-- The report of a rejection that nothing handles. -/
def trackedBy (p : Nat) (d : JSPromiseData) (value : Value) (isReject : Bool) : List Event :=
  if isReject && !d.isHandled then [.tracked p value false] else []

theorem fulfillOrRejectPromise_eq (hp : s.promises p = some d)
    (hpending : d.promiseState = .pending) (value : Value) (isReject : Bool) (mem : List Bool) :
    s.fulfillOrRejectPromise p value isReject mem = { s with
      promises := update s.promises p (some { d with
        promiseResult := value
        promiseState := if isReject then .rejected else .fulfilled
        fulfillReactions := []
        rejectReactions := [] })
      jobList := s.jobList ++ ((withMem (d.reactions isReject) mem).filter Prod.snd).map fun x =>
        .reaction x.1 isReject value
      log := s.log ++ (.settled p isReject value :: trackedBy p d value isReject ++
        (withMem (d.reactions isReject) mem).map fun x =>
          .reacted p (.reaction x.1 isReject value) x.2) } := by
  unfold State.fulfillOrRejectPromise trackedBy JSPromiseData.reactions
  rw [hp]
  dsimp only
  rw [if_neg (by simp [hpending])]
  split <;> simp [enqueueReactions_eq, State.setPromise, State.record]

section Events

variable (log log' : List Event)

@[simp] theorem registeredOn_append :
    registeredOn p (log ++ log') = registeredOn p log ++ registeredOn p log' := by
  simp [registeredOn]

@[simp] theorem settledAs_append :
    settledAs p (log ++ log') = settledAs p log ++ settledAs p log' := by simp [settledAs]

@[simp] theorem reactedOn_append :
    reactedOn p (log ++ log') = reactedOn p log ++ reactedOn p log' := by simp [reactedOn]

@[simp] theorem trackedOn_append :
    trackedOn p (log ++ log') = trackedOn p log ++ trackedOn p log' := by simp [trackedOn]

@[simp] theorem enqueuedJobs_append :
    enqueuedJobs (log ++ log') = enqueuedJobs log ++ enqueuedJobs log' := by simp [enqueuedJobs]

@[simp] theorem startedJobs_append :
    startedJobs (log ++ log') = startedJobs log ++ startedJobs log' := by simp [startedJobs]

end Events

/-- What an event says about a promise. -/
def Event.about : Event → Option Nat
  | .registered p _ | .settled p .. | .ignored p | .tracked p .. | .reacted p .. => some p
  | .posted .. | .started _ | .failed _ => none

/-- Events about other promises change nothing. -/
theorem filterMaps_of_not_about {log : List Event} (h : ∀ e ∈ log, e.about ≠ some p) :
    registeredOn p log = [] ∧ settledAs p log = [] ∧ reactedOn p log = [] ∧
      trackedOn p log = [] := by
  simp only [registeredOn, settledAs, reactedOn, trackedOn, List.filterMap_eq_nil_iff]
  refine ⟨fun e he => ?_, fun e he => ?_, fun e he => ?_, fun e he => ?_⟩ <;>
    have hne := h e he <;> cases e <;> simp_all [Event.about]

theorem Settles.other {log log' : List Event} (h : Settles p log d)
    (hother : ∀ e ∈ log', e.about ≠ some p) : Settles p (log ++ log') d := by
  obtain ⟨hregistered, hsettled, hreacted, htracked⟩ := filterMaps_of_not_about hother
  simpa [Settles, hregistered, hsettled, hreacted, htracked] using h

theorem Untouched.other {log log' : List Event} (h : Untouched p log)
    (hother : ∀ e ∈ log', e.about ≠ some p) : Untouched p (log ++ log') := by
  obtain ⟨hregistered, hsettled, hreacted, htracked⟩ := filterMaps_of_not_about hother
  simpa [Untouched, hregistered, hsettled, hreacted, htracked] using h

/-- A step that concerns one promise at most, and queues what it says it queues. -/
theorem Recorded.extend (h : Recorded s) (log : List Event) (jobs : List Job) (p : Nat)
    (hlog : s'.log = s.log ++ log) (hjobs : s'.jobList = s.jobList ++ jobs)
    (habout : ∀ e ∈ log, e.about = none ∨ e.about = some p) (hnever : ∀ q, .ignored q ∉ log)
    (hothers : ∀ q, q ≠ p → s'.promises q = s.promises q)
    (habsent : s'.promises p = none → Untouched p s'.log)
    (hpresent : ∀ d, s'.promises p = some d → Settles p s'.log d)
    (hstarted : startedJobs log = []) (hqueue : enqueuedJobs log = jobs) : Recorded s' := by
  have hother : ∀ q, q ≠ p → ∀ e ∈ log, e.about ≠ some q := fun q hq e he habt => by
    rcases habout e he with hnone | hsome
    · simp [hnone] at habt
    · exact hq (Option.some.inj (habt.symm.trans hsome))
  refine ⟨fun q hq => ?_, fun q hq => ?_, fun q d hq => ?_, ?_⟩
  · rw [hlog, List.mem_append] at hq
    exact hq.elim (h.never q) (hnever q)
  · by_cases hqp : q = p
    · exact hqp ▸ habsent (hqp ▸ hq)
    · rw [hothers q hqp] at hq
      exact hlog ▸ (h.absent q hq).other (hother q hqp)
  · by_cases hqp : q = p
    · subst hqp
      exact hpresent d hq
    · rw [hothers q hqp] at hq
      exact hlog ▸ (h.present q d hq).other (hother q hqp)
  · rw [hlog, hjobs, startedJobs_append, enqueuedJobs_append, hstarted, hqueue, List.append_nil,
      ← List.append_assoc, h.queue]

theorem enqueuedJobs_reacted (rds : List (JSPromiseReactionData × Bool)) (isReject : Bool)
    (value : Value) :
    enqueuedJobs (rds.map fun x => .reacted p (.reaction x.1 isReject value) x.2) =
      (rds.filter Prod.snd).map fun x => .reaction x.1 isReject value := by
  induction rds with
  | nil => rfl
  | cons x rds ih =>
    obtain ⟨rd, ok⟩ := x
    cases ok <;> simpa [enqueuedJobs] using ih

theorem reactedOn_reacted (rds : List (JSPromiseReactionData × Bool)) (isReject : Bool)
    (value : Value) :
    reactedOn p (rds.map fun x => .reacted p (.reaction x.1 isReject value) x.2) =
      rds.map fun x => .reaction x.1 isReject value := by
  induction rds with
  | nil => rfl
  | cons x rds ih => simp [reactedOn]

/-- Queueing the reactions does not say anything else. -/
theorem reacted_silent (rds : List (JSPromiseReactionData × Bool)) (isReject : Bool)
    (value : Value) :
    let log := rds.map fun x => Event.reacted p (.reaction x.1 isReject value) x.2
    registeredOn p log = [] ∧ settledAs p log = [] ∧ startedJobs log = [] ∧
      trackedOn p log = [] := by
  simp [registeredOn, settledAs, startedJobs, trackedOn]

/-- What is logged when a promise is settled. -/
def settleLog (p : Nat) (d : JSPromiseData) (value : Value) (isReject : Bool) (mem : List Bool) :
    List Event :=
  .settled p isReject value :: trackedBy p d value isReject ++
    (withMem (d.reactions isReject) mem).map fun x =>
      .reacted p (.reaction x.1 isReject value) x.2

theorem settleLog_about (value : Value) (isReject : Bool) (mem : List Bool) :
    ∀ e ∈ settleLog p d value isReject mem, e.about = some p ∧ ∀ q, e ≠ .ignored q := by
  intro e he
  simp only [settleLog, trackedBy, List.cons_append, List.mem_cons, List.mem_append,
    List.mem_map] at he
  rcases he with rfl | he | ⟨x, -, rfl⟩
  · exact ⟨rfl, fun q => by simp⟩
  · split at he
    · obtain rfl := List.mem_singleton.mp he
      exact ⟨rfl, fun q => by simp⟩
    · cases he
  · exact ⟨rfl, fun q => by simp⟩

theorem settleLog_spec (value : Value) (isReject : Bool) (mem : List Bool) :
    let log := settleLog p d value isReject mem
    registeredOn p log = [] ∧ settledAs p log = [(isReject, value)] ∧
      reactedOn p log = (d.reactions isReject).map (.reaction · isReject value) ∧
      trackedOn p log = (if isReject && !d.isHandled then [(value, false)] else []) ∧
      startedJobs log = [] ∧
      enqueuedJobs log = ((withMem (d.reactions isReject) mem).filter Prod.snd).map
        fun x => .reaction x.1 isReject value := by
  obtain ⟨hregistered, hsettled, hstarted, htracks⟩ :=
    reacted_silent (p := p) (withMem (d.reactions isReject) mem) isReject value
  have hreacted : (withMem (d.reactions isReject) mem).map
      (fun x => Job.reaction x.1 isReject value) =
        (d.reactions isReject).map (.reaction · isReject value) := by
    conv_rhs => rw [← map_fst_withMem (d.reactions isReject) mem, List.map_map]
    rfl
  have htracked : trackedBy p d value isReject = [] ∨
      trackedBy p d value isReject = [.tracked p value false] := by
    unfold trackedBy
    split <;> simp
  dsimp only [settleLog]
  rw [← List.singleton_append]
  refine ⟨?_, ?_, ?_, ?_, ?_, ?_⟩
  · rw [List.append_assoc, registeredOn_append, registeredOn_append, hregistered]
    rcases htracked with h | h <;> simp [h, registeredOn]
  · rw [List.append_assoc, settledAs_append, settledAs_append, hsettled]
    rcases htracked with h | h <;> simp [h, settledAs]
  · rw [List.append_assoc, reactedOn_append, reactedOn_append, reactedOn_reacted, hreacted]
    rcases htracked with h | h <;> simp [h, reactedOn]
  · rw [List.append_assoc, trackedOn_append, trackedOn_append, htracks]
    unfold trackedBy
    split <;> simp [trackedOn]
  · rw [List.append_assoc, startedJobs_append, startedJobs_append, hstarted]
    rcases htracked with h | h <;> simp [h, startedJobs]
  · rw [List.append_assoc, enqueuedJobs_append, enqueuedJobs_append, enqueuedJobs_reacted]
    rcases htracked with h | h <;> simp [h, enqueuedJobs]

/-- A pending promise is settled: its reactions are taken in order. -/
theorem Recorded.settle (h : Recorded s) (hp : s.promises p = some d)
    (hpending : d.promiseState = .pending) (value : Value) (isReject : Bool) (mem : List Bool) :
    Recorded (s.fulfillOrRejectPromise p value isReject mem) := by
  have hold := h.present p d hp
  rw [Settles, hpending] at hold
  obtain ⟨hsettled, hreacted, hfulfill, hreject, htracked⟩ := hold
  obtain ⟨hnewreg, hnewset, hnewreact, hnewtracked, hstarted, hqueue⟩ :=
    settleLog_spec (p := p) (d := d) value isReject mem
  rw [fulfillOrRejectPromise_eq hp hpending]
  refine h.extend (settleLog p d value isReject mem) _ p rfl rfl
    (fun e he => .inr (settleLog_about value isReject mem e he).1)
    (fun q hq => (settleLog_about value isReject mem _ hq).2 q rfl)
    (fun q hq => update_of_ne hq ..) (fun hnone => ?_) (fun d' hd' => ?_) hstarted hqueue
  · simp at hnone
  · change update _ p _ p = _ at hd'
    rw [update_self] at hd'
    obtain rfl := Option.some.inj hd'
    change Settles p (s.log ++ settleLog p d value isReject mem) _
    -- what has been registered is what the two lists hold
    cases isReject
    · refine ⟨?_, ?_, ?_⟩
      · rw [settledAs_append, hsettled, hnewset, List.nil_append]
      · rw [reactedOn_append, registeredOn_append, hreacted, hnewreact, hnewreg, List.append_nil,
          List.nil_append, JSPromiseData.reactions, ← hfulfill]
        simp [reactionJobs]
      · rw [trackedOn_append, htracked, hnewtracked]
        rfl
    · refine ⟨?_, ?_, ?_⟩
      · rw [settledAs_append, hsettled, hnewset, List.nil_append]
      · rw [reactedOn_append, registeredOn_append, hreacted, hnewreact, hnewreg, List.append_nil,
          List.nil_append, JSPromiseData.reactions, ← hreject]
        simp [reactionJobs]
      · rw [trackedOn_append, htracked, hnewtracked]
        cases d.isHandled <;> simp [Tracks]

/-! ## The other functions -/

/-- A step that concerns no promise. -/
theorem Recorded.silent (h : Recorded s) (log : List Event) (hlog : s'.log = s.log ++ log)
    (habout : ∀ e ∈ log, e.about = none) (hpromises : s'.promises = s.promises)
    (hqueue : startedJobs s'.log ++ s'.jobList = enqueuedJobs s'.log) : Recorded s' := by
  have hother : ∀ q, ∀ e ∈ log, e.about ≠ some q := fun q e he habt => by
    simp [habout e he] at habt
  refine ⟨fun q hq => ?_, fun q hq => ?_, fun q d hq => ?_, hqueue⟩
  · rw [hlog, List.mem_append] at hq
    exact hq.elim (h.never q) fun hq => hother q _ hq rfl
  · rw [hlog]
    exact (h.absent q (hpromises ▸ hq)).other (hother q)
  · rw [hlog]
    exact (h.present q d (hpromises ▸ hq)).other (hother q)

/-- Steps of the pairs and the frames do not concern the log. -/
theorem Recorded.congr (h : Recorded s) (hpromises : s'.promises = s.promises)
    (hjobs : s'.jobList = s.jobList) (hlog : s'.log = s.log) : Recorded s' := by
  apply h.silent []
  · rw [hlog, List.append_nil]
  · simp
  · exact hpromises
  · rw [hlog, hjobs]
    exact h.queue

/-- A job that is no reaction of a promise is queued. -/
theorem Recorded.post (h : Recorded s) (job : Job) (ok : Bool) :
    Recorded ((s.jsEnqueueJob job ok).record (.posted job ok)) := by
  have hqueue := h.queue
  apply h.silent [.posted job ok]
  · cases ok <;> rfl
  · simp [Event.about]
  · cases ok <;> rfl
  · cases ok
    · simpa [State.jsEnqueueJob, State.record, startedJobs, enqueuedJobs] using hqueue
    · simp only [State.jsEnqueueJob, State.record, if_true, startedJobs_append,
        enqueuedJobs_append, ← hqueue]
      simp [startedJobs, enqueuedJobs]

/-- The first job of the list starts. -/
theorem Recorded.start (h : Recorded s) {job : Job} {jobs : List Job}
    (hjobs : s.jobList = job :: jobs) :
    Recorded ({ s with jobList := jobs }.record (.started job)) := by
  have hqueue := h.queue
  rw [hjobs] at hqueue
  apply h.silent [.started job]
  · rfl
  · simp [Event.about]
  · rfl
  · simp only [State.record, startedJobs_append, enqueuedJobs_append, ← hqueue]
    simp [startedJobs, enqueuedJobs]

/-- A job cannot make its resolving functions. -/
theorem Recorded.fail (h : Recorded s) (job : Job) : Recorded (s.record (.failed job)) := by
  apply h.silent [.failed job]
  · rfl
  · simp [Event.about]
  · rfl
  · simpa [State.record, startedJobs, enqueuedJobs] using h.queue

/-- A promise is made at an address that has none. -/
theorem Recorded.newPromise (h : Recorded s) (hp : s.promises p = none) (n : Nat) :
    Recorded { s.setPromise p ⟨.pending, [], [], false, .undefined⟩ with nextPromise := n } := by
  obtain ⟨hsettled, hreacted, hregistered, htracked⟩ := h.absent p hp
  refine h.extend [] [] p (List.append_nil _).symm (List.append_nil _).symm
    (by simp) (by simp) (fun q hq => update_of_ne hq ..) (fun hnone => ?_) (fun d' hd' => ?_)
    rfl rfl
  · change update _ p _ p = _ at hnone
    rw [update_self] at hnone
    cases hnone
  · change update _ p _ p = _ at hd'
    rw [update_self] at hd'
    obtain rfl := Option.some.inj hd'
    refine ⟨hsettled, hreacted, ?_, ?_, htracked⟩ <;> simp [State.setPromise, hregistered]

/-- Both reactions of a call of then wait for the promise. -/
theorem Recorded.thenPending (h : Recorded s) (hp : s.promises p = some d)
    (hpending : d.promiseState = .pending) (rds : JSPromiseReactionData × JSPromiseReactionData) :
    Recorded ((s.record (.registered p rds)).setPromise p { d with
      fulfillReactions := d.fulfillReactions ++ [rds.1]
      rejectReactions := d.rejectReactions ++ [rds.2]
      isHandled := true }) := by
  have hold := h.present p d hp
  rw [Settles, hpending] at hold
  obtain ⟨hsettled, hreacted, hfulfill, hreject, htracked⟩ := hold
  refine h.extend [.registered p rds] [] p rfl (List.append_nil _).symm
    (by simp [Event.about]) (by simp) (fun q hq => update_of_ne hq ..) (fun hnone => ?_)
    (fun d' hd' => ?_) rfl rfl
  · change update _ p _ p = _ at hnone
    rw [update_self] at hnone
    cases hnone
  · change update _ p _ p = _ at hd'
    rw [update_self] at hd'
    obtain rfl := Option.some.inj hd'
    have hregistered : registeredOn p [Event.registered p rds] = [rds] := by simp [registeredOn]
    change Settles p (s.log ++ [.registered p rds]) _
    simp only [Settles, hpending, settledAs_append, reactedOn_append, registeredOn_append,
      trackedOn_append, hregistered, hsettled, hreacted, htracked, List.map_append, hfulfill,
      hreject]
    simp [settledAs, reactedOn, trackedOn]

/-- What is logged by a call of then on a settled promise. -/
def thenLog (p : Nat) (d : JSPromiseData) (rds : JSPromiseReactionData × JSPromiseReactionData)
    (job : Job) (ok : Bool) : List Event :=
  .registered p rds ::
    (if d.promiseState == .rejected && !d.isHandled
      then [.tracked p d.promiseResult true] else []) ++
    [.reacted p job ok]

theorem thenLog_spec (rds : JSPromiseReactionData × JSPromiseReactionData) (job : Job)
    (ok : Bool) :
    let log := thenLog p d rds job ok
    (∀ e ∈ log, e.about = some p ∧ ∀ q, e ≠ .ignored q) ∧ registeredOn p log = [rds] ∧
      settledAs p log = [] ∧ reactedOn p log = [job] ∧
      trackedOn p log = (if d.promiseState == .rejected && !d.isHandled
        then [(d.promiseResult, true)] else []) ∧
      startedJobs log = [] ∧ enqueuedJobs log = if ok then [job] else [] := by
  unfold thenLog
  refine ⟨?_, ?_, ?_, ?_, ?_, ?_, ?_⟩ <;> split
  case refine_1.isTrue | refine_1.isFalse => simp [Event.about]
  all_goals
    cases ok <;> simp [registeredOn, settledAs, reactedOn, trackedOn, startedJobs, enqueuedJobs]

theorem performPromiseThen_settled (hsettled : d.promiseState ≠ .pending)
    (handlers funcs : Value × Value) (mem : List Bool) :
    let rds := (State.reactionData funcs handlers.1, State.reactionData funcs handlers.2)
    let isReject := d.promiseState == .rejected
    let job := Job.reaction (if isReject then rds.2 else rds.1) isReject d.promiseResult
    s.performPromiseThen p d handlers funcs mem =
      { s.setPromise p { d with isHandled := true } with
        jobList := s.jobList ++ (if mem.headD true then [job] else [])
        log := s.log ++ thenLog p d rds job (mem.headD true) } := by
  intro rds isReject job
  unfold State.performPromiseThen thenLog
  generalize mem.headD true = ok
  rcases d with ⟨state, fulfill, reject, handled, result⟩
  cases state with
  | pending => exact absurd rfl hsettled
  | fulfilled => cases ok <;> simp [State.record, State.setPromise, State.jsEnqueueJob, rds, job,
      isReject]
  | rejected => cases ok <;> cases handled <;>
      simp [State.record, State.setPromise, State.jsEnqueueJob, rds, job, isReject]

/-- The reaction of a call of then on a settled promise is queued at once. -/
theorem Recorded.thenSettled (h : Recorded s) (hp : s.promises p = some d)
    (hsettled : d.promiseState ≠ .pending) (handlers funcs : Value × Value) (mem : List Bool) :
    Recorded (s.performPromiseThen p d handlers funcs mem) := by
  rw [performPromiseThen_settled hsettled]
  set rds := (State.reactionData funcs handlers.1, State.reactionData funcs handlers.2)
  set isReject := d.promiseState == .rejected
  set job := Job.reaction (if isReject then rds.2 else rds.1) isReject d.promiseResult with hjob
  obtain ⟨habout, hregistered, hnone, hreacted, htracked, hstarted, hqueue⟩ :=
    thenLog_spec (p := p) (d := d) rds job (mem.headD true)
  refine h.extend (thenLog p d rds job (mem.headD true)) _ p rfl rfl
    (fun e he => .inr (habout e he).1) (fun q hq => (habout _ hq).2 q rfl)
    (fun q hq => update_of_ne hq ..) (fun hnone => ?_) (fun d' hd' => ?_) hstarted hqueue
  · change update _ p _ p = _ at hnone
    rw [update_self] at hnone
    cases hnone
  · change update _ p _ p = _ at hd'
    rw [update_self] at hd'
    obtain rfl := Option.some.inj hd'
    have hold := h.present p d hp
    change Settles p (s.log ++ thenLog p d rds job (mem.headD true)) _
    unfold Settles at hold ⊢
    cases hstate : d.promiseState with
    | pending => exact absurd hstate hsettled
    | fulfilled =>
      simp only [hstate, settledAs_append, reactedOn_append, registeredOn_append,
        trackedOn_append, hregistered, hnone, hreacted, htracked, List.append_nil] at hold ⊢
      obtain ⟨hset, hjobs, htracks⟩ := hold
      refine ⟨hset, ?_, by simp [htracks]⟩
      rw [hjobs, hjob]
      simp [reactionJobs, isReject, hstate]
    | rejected =>
      simp only [hstate, settledAs_append, reactedOn_append, registeredOn_append,
        trackedOn_append, hregistered, hnone, hreacted, htracked, List.append_nil] at hold ⊢
      obtain ⟨hset, hjobs, htracks⟩ := hold
      refine ⟨hset, ?_, ?_⟩
      · rw [hjobs, hjob]
        simp [reactionJobs, isReject, hstate]
      · -- the host is told when a rejection it knows of gets its first handler
        cases hhandled : d.isHandled
        · simp only [Tracks, hhandled, if_false, Bool.false_eq_true] at htracks
          simp [Tracks, htracks]
        · simpa [Tracks, hhandled] using htracks

theorem Recorded.performThen (h : Recorded s) (hp : s.promises p = some d)
    (handlers funcs : Value × Value) (mem : List Bool) :
    Recorded (s.performPromiseThen p d handlers funcs mem) := by
  by_cases hpending : d.promiseState = .pending
  · obtain ⟨state, fulfill, reject, handled, result⟩ := d
    obtain rfl : state = .pending := hpending
    exact h.thenPending hp rfl _
  · exact h.thenSettled hp hpending handlers funcs mem

end Recorded

end IoQuickJS.Promise
