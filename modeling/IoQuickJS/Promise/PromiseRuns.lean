import IoQuickJS.Library.Ledger
import IoQuickJS.Promise.PromiseLog

/-!
# Promises settle once, and their reactions run once

What can still become of a promise is counted by `fate`: its resolving functions that have not
been called, a call that reads the then property, a queued thenable job, that it is settled, or
that memory has run out for such a job. There is always exactly one of them. A function that takes
it away holds it (`Held`) until it settles the promise or hands it on, so fulfill_or_reject_promise
never finds a promise settled.

## Main results

* `run_sound`: the invariant of every run.
* `promises_settle_once`: what it says about the log of a run.
* `promise_has_one_fate`: what it says about the promises that are pending.
-/
namespace IoQuickJS.Promise

open Function (update update_self update_of_ne)
open Ledger (tally tally_update tally_alloc)

/-! ## Who can settle a promise -/

def Frame.decides (p : Nat) : Frame → Bool
  | .getThen q _ => q == p
  | _ => false

def Job.decides (p : Nat) : Job → Bool
  | .resolveThenable q _ _ => q == p
  | _ => false

/-- The thenable jobs of a promise for which memory has run out. -/
def lost (p : Nat) (log : List Event) : Nat :=
  log.countP fun
    | .posted job false | .failed job => job.decides p
    | _ => false

@[simp] theorem lost_append (p : Nat) (log log' : List Event) :
    lost p (log ++ log') = lost p log + lost p log' := List.countP_append

/-- What is logged about a promise is not the loss of a job. -/
theorem lost_of_about {p : Nat} {log : List Event} (h : ∀ e ∈ log, e.about ≠ none) :
    lost p log = 0 := by
  rw [lost, List.countP_eq_zero]
  intro e he
  have hne := h e he
  cases e <;> simp_all [Event.about]

@[simp] theorem lost_failed (p : Nat) (job : Job) :
    lost p [.failed job] = (job.decides p).toNat := by
  cases h : job.decides p <;> simp [lost, h]

/-- The promise that the functions of a pair can still resolve. -/
def JSPromiseFunctionData.decides (r : JSPromiseFunctionData) : List Nat :=
  if r.alreadyResolved then [] else [r.promise]

namespace State

def isSettled (s : State) (p : Nat) : Bool :=
  (s.promises p).any fun d => d.promiseState != .pending

def fate (s : State) (p : Nat) : Nat :=
  tally s.nextPair s.pairs JSPromiseFunctionData.decides p + s.frames.countP (Frame.decides p) +
    s.jobList.countP (Job.decides p) + lost p s.log + (s.isSettled p).toNat

structure Sealed (s : State) : Prop where
  once : ∀ p, s.promises p ≠ none → s.fate p = 1
  absent : ∀ p, s.promises p = none → s.fate p = 0
  freshPromise : ∀ p, s.nextPromise ≤ p → s.promises p = none
  freshPair : ∀ q, s.nextPair ≤ q → s.pairs q = none

/-- The right to settle a promise is with the function that runs. -/
structure Held (s : State) (p : Nat) : Prop where
  others : ∀ q, q ≠ p → s.promises q ≠ none → s.fate q = 1
  inHand : s.fate p = 0
  present : s.promises p ≠ none
  absent : ∀ q, s.promises q = none → s.fate q = 0
  freshPromise : ∀ q, s.nextPromise ≤ q → s.promises q = none
  freshPair : ∀ i, s.nextPair ≤ i → s.pairs i = none

variable {s s' : State} {p q i : Nat} {d : JSPromiseData} {r : JSPromiseFunctionData}

/-! ## The fate of a promise, operation by operation -/

theorem fate_record (e : Event) : (s.record e).fate q = s.fate q + lost q [e] := by
  simp only [fate, record, lost, isSettled, List.countP_append]
  omega

theorem fate_push (f : Frame) : (s.push f).fate q = s.fate q + (f.decides q).toNat := by
  cases h : f.decides q <;> simp [fate, push, isSettled, h]
  omega

theorem fate_pop {f : Frame} {frames : List Frame} (h : s.frames = f :: frames) :
    s.fate q = { s with frames := frames }.fate q + (f.decides q).toNat := by
  rw [← fate_push (s := { s with frames := frames }) f]
  unfold fate push isSettled
  rw [h]

/-- A job that settles a promise is queued, or lost. -/
theorem fate_post (job : Job) (ok : Bool) :
    ((s.jsEnqueueJob job ok).record (.posted job ok)).fate q =
      s.fate q + (job.decides q).toNat := by
  rw [fate_record]
  cases ok <;> cases h : job.decides q <;> simp [fate, jsEnqueueJob, isSettled, lost, h]
  omega

theorem fate_dequeue {job : Job} {jobs : List Job} (h : s.jobList = job :: jobs) :
    s.fate q = { s with jobList := jobs }.fate q + (job.decides q).toNat := by
  unfold fate isSettled
  rw [h, List.countP_cons]
  cases job.decides q <;> simp
  omega

theorem fate_setPair (hs : Sealed s) (h : s.pairs i = some r) (r' : JSPromiseFunctionData) :
    (s.setPair i r').fate q + r.decides.count q = s.fate q + r'.decides.count q := by
  have hi : i < s.nextPair := by
    by_contra hge
    rw [hs.freshPair i (Nat.le_of_not_lt hge)] at h
    cases h
  have hupdate := tally_update JSPromiseFunctionData.decides q (t := s.pairs) hi (some r')
  simp only [h, Ledger.entry_some] at hupdate
  simp only [fate, setPair, isSettled]
  omega

theorem fate_create (hfresh : ∀ i, s.nextPair ≤ i → s.pairs i = none) (p : Nat) :
    (s.jsCreateResolvingFunctions p).fate q = s.fate q + [p].count q := by
  have halloc := tally_alloc JSPromiseFunctionData.decides q (hfresh _ (Nat.le_refl _))
    (some ⟨p, false⟩)
  simp only [Ledger.entry_some, JSPromiseFunctionData.decides] at halloc
  simp only [fate, jsCreateResolvingFunctions, setPair, isSettled]
  simp at halloc ⊢
  omega

theorem fate_setPromise (d' : JSPromiseData)
    (h : (d'.promiseState != .pending) = s.isSettled p) :
    (s.setPromise p d').fate q = s.fate q := by
  have hsame : (s.setPromise p d').isSettled q = s.isSettled q := by
    by_cases hq : q = p
    · subst hq
      simp [isSettled, setPromise] at h ⊢
      exact h
    · simp [isSettled, setPromise, update_of_ne hq]
  simp only [fate, hsame]
  rfl

/-- The reactions of a promise settle nothing. -/
theorem countP_reactions (rds : List (JSPromiseReactionData × Bool)) (isReject : Bool)
    (value : Value) :
    (rds.map fun x => Job.reaction x.1 isReject value).countP (Job.decides q) = 0 := by
  rw [List.countP_eq_zero]
  intro job hjob
  obtain ⟨x, -, rfl⟩ := List.mem_map.mp hjob
  simp [Job.decides]

theorem fate_settle (hp : s.promises p = some d) (hpending : d.promiseState = .pending)
    (value : Value) (isReject : Bool) (mem : List Bool) :
    (s.fulfillOrRejectPromise p value isReject mem).fate q = s.fate q + [p].count q := by
  have hlost : lost q (settleLog p d value isReject mem) = 0 := lost_of_about fun e he habout => by
    rw [(settleLog_about value isReject mem e he).1] at habout
    cases habout
  rw [fulfillOrRejectPromise_eq hp hpending]
  change _ + lost q (s.log ++ settleLog p d value isReject mem) + _ = _
  rw [lost_append, hlost]
  simp only [fate, List.countP_append, countP_reactions, isSettled]
  by_cases hq : q = p
  · subst hq
    cases isReject <;> simp [hp, hpending]
  · have hcount : [p].count q = 0 := List.count_eq_zero.mpr (by simpa using hq)
    rw [update_of_ne hq, hcount]
    rfl

/-! ## Taking the right to settle, and spending it -/

theorem Sealed.of_fate (h : Sealed s) (hfate : ∀ q, s'.fate q = s.fate q)
    (hpromises : ∀ q, s'.promises q = none ↔ s.promises q = none)
    (hpromise : s.nextPromise ≤ s'.nextPromise) (hpair : ∀ q, s'.nextPair ≤ q → s'.pairs q = none) :
    Sealed s' where
  once q hq := (hfate q).trans (h.once q fun hnone => hq ((hpromises q).mpr hnone))
  absent q hq := (hfate q).trans (h.absent q ((hpromises q).mp hq))
  freshPromise q hq := (hpromises q).mpr (h.freshPromise q (hpromise.trans hq))
  freshPair := hpair

/-- The right is spent: the promise has been settled, or another one can settle it. -/
theorem Held.spend (h : Held s p) (hfate : ∀ q, s'.fate q = s.fate q + [p].count q)
    (hpromises : ∀ q, s'.promises q = none ↔ s.promises q = none)
    (hpromise : s.nextPromise ≤ s'.nextPromise) (hpair : ∀ q, s'.nextPair ≤ q → s'.pairs q = none) :
    Sealed s' where
  once q hq := by
    by_cases hqp : q = p
    · subst hqp
      rw [hfate, h.inHand, List.count_singleton_self]
    · rw [hfate, List.count_eq_zero.mpr (by simpa using hqp)]
      exact h.others q hqp fun hnone => hq ((hpromises q).mpr hnone)
  absent q hq := by
    have hnone := (hpromises q).mp hq
    have hqp : q ≠ p := fun heq => h.present (heq ▸ hnone)
    rw [hfate, h.absent q hnone, List.count_eq_zero.mpr (by simpa using hqp)]
  freshPromise q hq := (hpromises q).mpr (h.freshPromise q (hpromise.trans hq))
  freshPair := hpair

/-- Whoever takes the one thing that could settle a promise holds the right to. -/
theorem Sealed.take (h : Sealed s) (hfate : ∀ q, s.fate q = s'.fate q + [p].count q)
    (hpromises : s'.promises = s.promises) (hpromise : s'.nextPromise = s.nextPromise)
    (hpair : ∀ q, s'.nextPair ≤ q → s'.pairs q = none) : Held s' p := by
  have hp := hfate p
  rw [List.count_singleton_self] at hp
  have hpresent : s.promises p ≠ none := fun hnone => by
    rw [h.absent p hnone] at hp
    omega
  refine ⟨fun q hqp hq => ?_, ?_, hpromises ▸ hpresent, fun q hq => ?_, fun q hq => ?_, hpair⟩
  · rw [hpromises] at hq
    have hsame := hfate q
    rw [h.once q hq, List.count_eq_zero.mpr (by simpa using hqp)] at hsame
    exact hsame.symm
  · rw [h.once p hpresent] at hp
    omega
  · have hsame := hfate q
    rw [h.absent q (hpromises ▸ hq)] at hsame
    omega
  · rw [hpromises]
    exact h.freshPromise q (hpromise ▸ hq)

theorem Held.pending (h : Held s p) :
    ∃ d, s.promises p = some d ∧ d.promiseState = .pending := by
  obtain ⟨d, hd⟩ := Option.ne_none_iff_exists'.mp h.present
  refine ⟨d, hd, ?_⟩
  have hzero := h.inHand
  simp only [fate, isSettled, hd, Option.any_some] at hzero
  by_contra hne
  simp [hne] at hzero

/-! ## The invariant, function by function -/

structure Sound (s : State) : Prop where
  isSealed : Sealed s
  recorded : Recorded s

/-- The invariant while a function has the right to settle a promise. -/
structure SoundHeld (s : State) (p : Nat) : Prop where
  held : Held s p
  recorded : Recorded s

theorem SoundHeld.settle (h : SoundHeld s p) (value : Value) (isReject : Bool) (mem : List Bool) :
    Sound (s.fulfillOrRejectPromise p value isReject mem) := by
  obtain ⟨d, hd, hpending⟩ := h.held.pending
  refine ⟨?_, h.recorded.settle hd hpending value isReject mem⟩
  have hpromises : ∀ q, (s.fulfillOrRejectPromise p value isReject mem).promises q = none ↔
      s.promises q = none := fun q => by
    rw [fulfillOrRejectPromise_eq hd hpending]
    by_cases hq : q = p
    · subst hq
      simp [hd]
    · simp [update_of_ne hq]
  apply h.held.spend (fun q => fate_settle hd hpending value isReject mem) hpromises
  · rw [fulfillOrRejectPromise_eq hd hpending]
  · rw [fulfillOrRejectPromise_eq hd hpending]
    exact h.held.freshPair

theorem SoundHeld.create (h : SoundHeld s p) : Sound (s.jsCreateResolvingFunctions p) := by
  refine ⟨?_, h.recorded.congr rfl rfl rfl⟩
  apply h.held.spend (fun q => fate_create h.held.freshPair p) (fun q => Iff.rfl)
    (Nat.le_refl _)
  intro q hq
  have hne : q ≠ s.nextPair := Nat.ne_of_gt hq
  exact (update_of_ne hne ..).trans (h.held.freshPair q (Nat.le_of_lt hq))

/-- The then property of a resolution is read. -/
theorem SoundHeld.getThen (h : SoundHeld s p) (resolution : Value) :
    Sound (s.push (.getThen p resolution)) := by
  refine ⟨?_, h.recorded.congr rfl rfl rfl⟩
  refine h.held.spend (fun q => ?_) (fun q => Iff.rfl) (Nat.le_refl _) h.held.freshPair
  rw [fate_push]
  by_cases hq : p = q <;> simp [Frame.decides, hq]

/-- A thenable job is queued, or lost. -/
theorem SoundHeld.post (h : SoundHeld s p) (thenable thenFunc : Value) (ok : Bool) :
    Sound ((s.jsEnqueueJob (.resolveThenable p thenable thenFunc) ok).record
      (.posted (.resolveThenable p thenable thenFunc) ok)) := by
  refine ⟨?_, h.recorded.post _ ok⟩
  refine h.held.spend (fun q => ?_) (fun q => ?_) ?_ ?_
  · rw [fate_post]
    by_cases hq : p = q <;> simp [Job.decides, hq]
  · cases ok <;> exact Iff.rfl
  · cases ok <;> exact Nat.le_refl _
  · cases ok <;> exact h.held.freshPair

/-- Memory runs out for the resolving functions of a thenable job. -/
theorem SoundHeld.fail (h : SoundHeld s p) (thenable thenFunc : Value) :
    Sound (s.record (.failed (.resolveThenable p thenable thenFunc))) := by
  refine ⟨?_, h.recorded.fail _⟩
  refine h.held.spend (fun q => ?_) (fun q => Iff.rfl) (Nat.le_refl _) h.held.freshPair
  rw [fate_record, lost_failed]
  by_cases hq : p = q <;> simp [Job.decides, hq]

theorem SoundHeld.gotThen (h : SoundHeld s p) (resolution : Value) (mem : List Bool)
    (result : ThenProperty) : Sound (s.gotThen p resolution mem result) := by
  cases result with
  | exception error => exact h.settle error true mem
  | notFunction => exact h.settle resolution false mem
  | function f => exact h.post resolution f (mem.headD true)

/-- Other calls into script code leave a frame that settles nothing. -/
theorem Sound.push (h : Sound s) {f : Frame} (hf : ∀ q, f.decides q = false) :
    Sound (s.push f) := by
  refine ⟨?_, h.recorded.congr rfl rfl rfl⟩
  refine h.isSealed.of_fate (fun q => ?_) (fun q => Iff.rfl) (Nat.le_refl _) h.isSealed.freshPair
  rw [fate_push, hf]
  rfl

theorem Sound.pop (h : Sound s) {f : Frame} {frames : List Frame} (hs : s.frames = f :: frames)
    (hf : ∀ q, f.decides q = false) :
    Sound { s with frames := frames } := by
  refine ⟨?_, h.recorded.congr rfl rfl rfl⟩
  refine h.isSealed.of_fate (fun q => ?_) (fun q => Iff.rfl) (Nat.le_refl _) h.isSealed.freshPair
  rw [fate_pop hs, hf]
  rfl

/-- So does a job that settles nothing. -/
theorem Sound.post (h : Sound s) {job : Job} (hjob : ∀ q, job.decides q = false) (ok : Bool) :
    Sound ((s.jsEnqueueJob job ok).record (.posted job ok)) := by
  refine ⟨?_, h.recorded.post job ok⟩
  refine h.isSealed.of_fate (fun q => ?_) (fun q => ?_) ?_ ?_
  · rw [fate_post, hjob]
    rfl
  · cases ok <;> exact Iff.rfl
  · cases ok <;> exact Nat.le_refl _
  · cases ok <;> exact h.isSealed.freshPair

theorem Sound.popGetThen (h : Sound s) {resolution : Value} {frames : List Frame}
    (hs : s.frames = .getThen p resolution :: frames) :
    SoundHeld { s with frames := frames } p := by
  refine ⟨?_, h.recorded.congr rfl rfl rfl⟩
  refine h.isSealed.take (fun q => ?_) rfl rfl h.isSealed.freshPair
  rw [fate_pop hs]
  by_cases hq : p = q <;> simp [Frame.decides, hq]

/-- The first call of one of two resolving functions takes the right to settle their promise. -/
theorem Sound.resolve (h : Sound s) {isReject : Bool} {resolution : Value} {mem : List Bool}
    (hcall : s.jsPromiseResolveFunctionCall i isReject resolution mem = some s') : Sound s' := by
  obtain ⟨r, hr, rfl⟩ := Option.map_eq_some_iff.mp hcall
  split
  · exact h
  · next hopen =>
    have hheld : SoundHeld (s.setPair i { r with alreadyResolved := true }) r.promise := by
      refine ⟨?_, h.recorded.congr rfl rfl rfl⟩
      refine h.isSealed.take (fun q => ?_) rfl rfl (fun q hq => ?_)
      · have hfate := fate_setPair (q := q) h.isSealed hr { r with alreadyResolved := true }
        simp only [JSPromiseFunctionData.decides, hopen, if_false, if_true, Bool.false_eq_true,
          List.count_nil, Nat.add_zero] at hfate
        exact hfate.symm
      · have hne : q ≠ i := fun heq => by
          rw [h.isSealed.freshPair i (heq ▸ hq)] at hr
          cases hr
        exact (update_of_ne hne ..).trans (h.isSealed.freshPair q hq)
    dsimp only
    split
    · exact hheld.settle resolution isReject mem
    · split
      · exact hheld.settle _ true mem
      · exact hheld.getThen resolution

/-- A promise that has just been made can be settled by its resolving functions only. -/
theorem Sound.newPendingPromise (h : Sound s) : Sound s.newPendingPromise := by
  have hfresh := h.isSealed.freshPromise s.nextPromise (Nat.le_refl _)
  set t : State := { s.setPromise s.nextPromise ⟨.pending, [], [], false, .undefined⟩ with
    nextPromise := s.nextPromise + 1 } with ht
  have hothers : ∀ q, q ≠ s.nextPromise → t.promises q = s.promises q := fun q hq =>
    update_of_ne hq ..
  have hnew : t.promises s.nextPromise ≠ none := by simp [ht, setPromise]
  have hfate : ∀ q, t.fate q = s.fate q := fun q =>
    fate_setPromise (s := s) (p := s.nextPromise) (q := q) ⟨.pending, [], [], false, .undefined⟩
      (by simp [isSettled, hfresh])
  have hheld : Held t s.nextPromise := by
    refine ⟨fun q hne hq => ?_, (hfate _).trans (h.isSealed.absent _ hfresh), hnew,
      fun q hq => ?_, fun q hq => ?_, h.isSealed.freshPair⟩
    · rw [hfate q]
      exact h.isSealed.once q (hothers q hne ▸ hq)
    · have hne : q ≠ s.nextPromise := fun heq => hnew (heq ▸ hq)
      rw [hfate q]
      exact h.isSealed.absent q (hothers q hne ▸ hq)
    · rw [hothers q (Nat.ne_of_gt hq)]
      exact h.isSealed.freshPromise q (Nat.le_of_lt hq)
  exact SoundHeld.create ⟨hheld, h.recorded.newPromise hfresh _⟩

theorem Sound.performThen (h : Sound s) (hp : s.promises p = some d)
    (handlers funcs : Value × Value) (mem : List Bool) :
    Sound (s.performPromiseThen p d handlers funcs mem) := by
  refine ⟨?_, h.recorded.performThen hp handlers funcs mem⟩
  have hpromises : ∀ d' : JSPromiseData, ∀ q, update s.promises p (some d') q = none ↔
      s.promises q = none := fun d' q => by
    by_cases hq : q = p
    · subst hq
      simp [hp]
    · simp [update_of_ne hq]
  by_cases hpending : d.promiseState = .pending
  · obtain ⟨state, fulfill, reject, handled, result⟩ := d
    obtain rfl : state = .pending := hpending
    refine h.isSealed.of_fate (fun q => ?_) (hpromises _) (Nat.le_refl _) h.isSealed.freshPair
    exact (fate_setPromise (s := s.record _) (q := q) _
      (by simp [isSettled, State.record, hp])).trans (fate_record _)
  · rw [performPromiseThen_settled hpending]
    refine h.isSealed.of_fate (fun q => ?_) (hpromises _) (Nat.le_refl _) h.isSealed.freshPair
    have hsame := fate_setPromise (q := q) (s := s) (p := p) { d with isHandled := true }
      (by simp [isSettled, hp])
    have hlost : ∀ job, lost q (thenLog p d (reactionData funcs handlers.1,
        reactionData funcs handlers.2) job (mem.headD true)) = 0 := fun job =>
      lost_of_about fun e he habout => by
        rw [((thenLog_spec _ job _).1 e he).1] at habout
        cases habout
    rw [← hsame]
    simp only [fate, setPromise, isSettled, List.countP_append, lost_append, hlost]
    cases mem.headD true <;> simp [Job.decides]

theorem Sound.finishReaction (h : Sound s) {rd : JSPromiseReactionData} {isReject : Bool}
    {result : Value} {mem : List Bool} (hcall : s.finishReaction rd isReject result mem = some s') :
    Sound s' := by
  unfold State.finishReaction jsCall at hcall
  split at hcall
  · exact h.resolve hcall
  · cases hcall
    exact h

theorem Sound.rejectOnException (h : Sound s) {exception : Option Value} {mem : List Bool}
    (hcall : s.rejectOnException i exception mem = some s') : Sound s' := by
  cases exception with
  | none =>
    cases hcall
    exact h
  | some error => exact h.resolve hcall

/-- A job starts; a thenable job has the right to settle its promise. -/
theorem Sound.startJob (h : Sound s) {job : Job} {jobs : List Job} (hjobs : s.jobList = job :: jobs)
    {pairOk : Bool} {mem : List Bool}
    (hstart : ({ s with jobList := jobs }.record (.started job)).startJob pairOk mem job =
      some s') : Sound s' := by
  have hrecorded := h.recorded.start hjobs
  have hfate : ∀ q, s.fate q =
      ({ s with jobList := jobs }.record (.started job)).fate q + (job.decides q).toNat :=
    fun q => by rw [fate_record, fate_dequeue hjobs]; rfl
  have hpopped : (∀ q, job.decides q = false) →
      Sound ({ s with jobList := jobs }.record (.started job)) := fun hjob => by
    refine ⟨?_, hrecorded⟩
    refine h.isSealed.of_fate (fun q => ?_) (fun q => Iff.rfl) (Nat.le_refl _)
      h.isSealed.freshPair
    rw [hfate q, hjob]
    rfl
  cases job with
  | reaction rd isReject arg =>
    have hsound := hpopped fun q => rfl
    simp only [State.startJob] at hstart
    split at hstart
    · exact hsound.finishReaction hstart
    · cases hstart
      exact hsound.push fun q => rfl
  | resolveThenable p thenable thenFunc =>
    simp only [State.startJob] at hstart
    have hheld : SoundHeld ({ s with jobList := jobs }.record
        (.started (.resolveThenable p thenable thenFunc))) p := by
      refine ⟨h.isSealed.take (fun q => ?_) rfl rfl h.isSealed.freshPair, hrecorded⟩
      rw [hfate q]
      by_cases hq : p = q <;> simp [Job.decides, hq]
    split at hstart <;> cases hstart
    · exact hheld.create.push fun q => rfl
    · exact hheld.fail thenable thenFunc
  | other n =>
    cases hstart
    exact hpopped fun q => rfl

/-! ## Runs -/

theorem Sound.step (h : Sound s) {l : Label} (hstep : s.step l = some s') : Sound s' := by
  cases l with
  | newPromise promiseOk pairOk =>
    cases hstep
    split
    · exact h.newPendingPromise.push fun q => rfl
    · exact h
  | newCapability promiseOk pairOk =>
    cases hstep
    split
    · exact h.newPendingPromise
    · exact h
  | executorReturn exception mem =>
    simp only [State.step] at hstep
    split at hstep
    · next hframes => exact (h.pop hframes fun q => rfl).rejectOnException hstep
    · cases hstep
  | callResolving pair isReject resolution mem => exact h.resolve hstep
  | gotThen result mem =>
    simp only [State.step] at hstep
    split at hstep
    · next hframes =>
      cases hstep
      exact (h.popGetThen hframes).gotThen _ mem result
    · cases hstep
  | performThen p handlers funcs rdOk mem =>
    obtain ⟨d, hd, rfl⟩ := Option.map_eq_some_iff.mp hstep
    split
    · exact h.performThen hd handlers funcs mem
    · exact h
  | enqueueOther n ok =>
    cases hstep
    exact h.post (fun q => rfl) ok
  | startJob pairOk mem =>
    simp only [State.step] at hstep
    split at hstep
    · next hjobs => exact h.startJob hjobs hstep
    · cases hstep
  | handlerReturn isException result mem =>
    simp only [State.step] at hstep
    split at hstep
    · next hframes => exact (h.pop hframes fun q => rfl).finishReaction hstep
    · cases hstep
  | thenReturn exception mem =>
    simp only [State.step] at hstep
    split at hstep
    · next hframes => exact (h.pop hframes fun q => rfl).rejectOnException hstep
    · cases hstep

theorem sound_new : Sound State.new := by
  refine ⟨⟨fun p hp => absurd rfl hp, fun p _ => ?_, fun p _ => rfl, fun q _ => rfl⟩,
    ⟨fun p hp => ?_, fun p _ => ⟨rfl, rfl, rfl, rfl⟩, fun p d hd => ?_, rfl⟩⟩
  · simp [fate, new, isSettled, lost]
  · cases hp
  · cases hd

end State

/-- The invariant of every run: calls and returns of script code, jobs, and failing allocations in
any order. -/
theorem run_sound {ls : List Label} {s : State}
    (hrun : Transition.run State.step State.new ls = some s) : s.Sound :=
  Transition.run_preserves State.sound_new (fun _ _ _ h hstep => h.step hstep) hrun

/-- No promise is ever found settled by a function that settles it; each promise is settled at
most once, and every reaction on it is handed to JS_EnqueueJob once, in order, with the result the
promise keeps, and never while it is pending; the host is told of the rejections that nothing
handles, and of their first handler; and jobs start in the order in which they were queued, each
once. -/
theorem promises_settle_once {ls : List Label} {s : State}
    (hrun : Transition.run State.step State.new ls = some s) :
    (∀ p, .ignored p ∉ s.log) ∧ (∀ p d, s.promises p = some d → Settles p s.log d) ∧
      startedJobs s.log ++ s.jobList = enqueuedJobs s.log :=
  have h := (run_sound hrun).recorded
  ⟨h.never, h.present, h.queue⟩

/-- A promise is rejected with nobody to handle it, its resolving functions are called again, and
then is called on it. -/
def rejectTwice : List Label :=
  [.newPromise true true, .callResolving 0 true (.primitive 1) [],
    .callResolving 0 false (.primitive 2) [], .executorReturn none [], .newCapability true true,
    .performThen 0 (.function 0, .undefined) (.resolving 1 false, .resolving 1 true) true [],
    .startJob true []]

theorem promises_settle_once_twice : ∃ s d, Transition.run State.step State.new rejectTwice =
      some s ∧ s.promises 0 = some d ∧ Settles 0 s.log d ∧
      trackedOn 0 s.log = [(.primitive 1, false), (.primitive 1, true)] := by
  have hrun : Transition.run State.step State.new rejectTwice = some _ := rfl
  exact ⟨_, _, hrun, rfl, (promises_settle_once hrun).2.1 0 _ rfl, rfl⟩

/-- A promise is resolved with another one, whose then property is read and called later. -/
def adopt : List Label :=
  [.newCapability true true, .newCapability true true, .callResolving 0 false (.promise 1) [],
    .gotThen (.function (.function 0)) [true]]

end IoQuickJS.Promise
