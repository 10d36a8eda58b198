import IoQuickJS.GetsPromises
import IoQuickJS.ReceivePipe

/-!
# Messages and their consumers

A message crosses three queues: the receive pipe of its socket, the record that names its consumer
when the receive event comes, and the job list. Beside the runtime a `MessageState` has the pipes
and, so that a run can be talked about, what has arrived, what has been taken from the pipes and
what has been passed on.

## Main result

* `messages_delivered`: in every state reached, `Delivered` holds: no message is lost, doubled or
  overtaken on its way to the consumer it had when its event came.
-/
namespace IoQuickJS

open Function (update update_self update_of_ne update_apply)

/-- The bytes of a string. -/
def JSRuntime.stringBytes (rt : JSRuntime) : JSValue → Option (List UInt8)
  | .string p => rt.strings p
  | _ => none

/-- The function that is called. -/
def Observation.func : Observation → Option JSValue
  | .call func _ _ => some func
  | _ => none

/-- A call as it is made: the function, and the bytes of its argument. -/
def Observation.passed (rt : JSRuntime) : Observation → Option (JSValue × Option (List UInt8))
  | .call func args _ => some (func, args.head?.bind rt.stringBytes)
  | _ => none

/-- The call that a job is going to make. -/
def messageCall (rt : JSRuntime) (e : JSJobEntry) : List (JSValue × Option (List UInt8)) :=
  e.observation.filterMap (Observation.passed rt)

/-- The runtime with the encoding pipes of its sockets; `passed` are the calls that the job
functions have made so far. -/
structure MessageState where
  rt : JSRuntime
  pipe : Nat → List (List UInt8)
  arrived : Nat → List (List UInt8)
  taken : List Taken
  passed : List (JSValue × Option (List UInt8))

/-- A message arrives, the receive event of a socket is delivered, or the machine takes a step. -/
inductive MessageLabel where
  | message (r : Nat) (m : List UInt8)
  | receive (r : Nat)
  | machine (l : Label)

def messageStep (s : MessageState) : MessageLabel → Option MessageState
  | .message r m =>
    some { s with
      pipe := update s.pipe r (s.pipe r ++ [m])
      arrived := update s.arrived r (s.arrived r ++ [m]) }
  | .receive r =>
    let pipe := ReceivePipe.encoding (s.pipe r)
    (s.rt.sockets r).bind fun this =>
      (step s.rt (.receive r pipe.front (fun _ => 0) [])).map fun rt =>
        { s with
          rt := rt
          pipe := update s.pipe r pipe.readBytes.messages
          taken := s.taken ++ (s.pipe r).head?.toList.map fun m =>
            ⟨r, m, this.receiveCallback, this.asyncGets0⟩ }
  | .machine .startJob =>
    (step s.rt .startJob).map fun rt =>
      { s with
        rt := rt
        passed := s.passed ++
          (rt.log.drop s.rt.log.length).filterMap (Observation.passed rt) }
  | .machine l => (step s.rt l).map fun rt => { s with rt := rt }

/-- Script code that uses socket objects, with receive events for their pipes only. -/
def MessageProgram (s : MessageState) : MessageLabel → Prop
  | .message _ _ | .receive _ => True
  | .machine (.receive ..) => False
  | .machine l => SocketProgram l ∧ LoadsPassed s.rt l

/-- What has become of the messages. -/
structure Delivered (s : MessageState) : Prop where
  /-- Messages are taken from a pipe in the order in which they have arrived. -/
  inOrder : ∀ r, ((s.taken.filter fun t => t.socket = r).map Taken.message) ++ s.pipe r =
    s.arrived r
  /-- The calls made and those of the queued jobs are one for each message taken while it had a
  consumer, with that consumer and the whole message, in the same order. -/
  once : s.passed ++ s.rt.jobList.flatMap (messageCall s.rt) =
    (s.taken.filter fun t => t.consumer ≠ .undefined).map fun t => (t.consumer, some t.message)
  /-- The calls made are those in the log. -/
  calls : s.passed.map Prod.fst = s.rt.log.filterMap Observation.func
  /-- A message for gets resolves the promise that gets returned, which nothing else can do. -/
  resolves : ∀ t ∈ s.taken, t.onReceive = .undefined → t.gets ≠ .undefined →
    .getsPromise t.socket t.gets ∈ s.rt.log ∧ ¬ Accessible s.rt t.gets ∧
      (s.taken.countP fun u => u.consumer = t.gets) = 1

/-! ## The calls -/

section Calls

variable {rt rt' : JSRuntime} {lost lost' : JSValue → Nat} {l : Label}

theorem step_strings (hl : LoadsPassed rt l) (hstep : step rt l = some rt') {p : Nat}
    (hp : p < rt.next) {bytes : List UInt8} (hbytes : rt'.strings p = some bytes) :
    rt.strings p = some bytes := by
  by_cases hstart : l = .startJob
  · subst hstart
    obtain ⟨e, es, -, -, rfl⟩ := jsStartPendingJob_eq_some hstep
    exact hbytes
  · by_cases hend : l = .endJob
    · subst hend
      obtain ⟨-, hconfined⟩ := jsFinishPendingJob_confined (n := rt.next) hstep
      exact hconfined.strings p hp bytes hbytes
    · exact (step_confined hl hstart hend hstep).strings p hp bytes hbytes

/-- The call of a job that stays queued stays the same. -/
theorem messageCall_eq (hready : Ready rt [] lost) (hready' : Ready rt' [] lost')
    (hstrings : ∀ p < rt.next, ∀ bytes, rt'.strings p = some bytes → rt.strings p = some bytes)
    {e : JSJobEntry} (he : e ∈ rt.jobList) (he' : e ∈ rt'.jobList) :
    messageCall rt' e = messageCall rt e := by
  have harg : ∀ v ∈ e.argv, rt'.stringBytes v = rt.stringBytes v := by
    intro v hv
    cases v with
    | string p =>
      have hlive : (rt.strings p).isSome :=
        hready.live_of_job (List.mem_flatMap.mpr ⟨e, he, hv⟩)
      have hlive' : (rt'.strings p).isSome :=
        hready'.live_of_job (List.mem_flatMap.mpr ⟨e, he', hv⟩)
      have hp : p < rt.next := by
        by_contra hn
        have := hready.counted.unused p (by omega)
        have := (hready.counted.strings p).mp hlive
        omega
      obtain ⟨bytes, hbytes⟩ := Option.isSome_iff_exists.mp hlive'
      simp only [JSRuntime.stringBytes, hbytes, hstrings p hp bytes hbytes]
    | _ => rfl
  unfold messageCall JSJobEntry.observation
  split
  · rfl
  · next func args hfunc hargv =>
    cases args with
    | nil => rfl
    | cons v args => simp [Observation.passed, harg v (by simp [hargv])]
  · rfl

theorem map_filterMap_passed (rt : JSRuntime) (obs : List Observation) :
    (obs.filterMap (Observation.passed rt)).map Prod.fst = obs.filterMap Observation.func := by
  rw [List.map_filterMap]
  refine List.filterMap_congr fun x _ => ?_
  cases x <;> rfl

/-- Only the start of a job takes one off the list and makes a call, and new jobs are the
script's. -/
theorem Change.jobList (hc : Change l rt rt') (hnone : NoTimers rt) (hsocket : SocketProgram l)
    (hl : LoadsPassed rt l) (hstart : l ≠ .startJob) (hstep : step rt l = some rt') :
    ∃ jobs, rt'.jobList = rt.jobList ++ jobs ∧ (∀ e ∈ jobs, e.jobFunc = .script) ∧
      rt'.log.filterMap Observation.func = rt.log.filterMap Observation.func := by
  cases hc with
  | quiet hev => exact ⟨[], by simp [hev.jobList], by simp, by simp [hev.log]⟩
  | armed q tmr hlabel hq hlt halarm hfunc hafter hev => exact absurd hlabel hsocket
  | cleared t q tmr hlabel hptr hq ht hev => simp [hnone q] at ht
  | expired q tmr ht halarm hkept hev => simp [hnone q] at ht
  | delivered q tmr ok ht hq hev => simp [hnone q] at ht
  | queued argv ok hev =>
    cases ok with
    | true =>
      exact ⟨[⟨.script, argv, none⟩], by simp [hev.jobList, posted], by simp,
        by simp [hev.log, posted]⟩
    | false =>
      exact ⟨[], by simp [hev.jobList, posted], by simp,
        by simp [hev.log, posted, Observation.func]⟩
  | started e es hrunning hjobs hev =>
    have hsome : rt'.running = some e := hev.running
    by_cases hend : l = .endJob
    · subst hend
      exact absurd hrunning (jsFinishPendingJob_confined (n := 0) hstep).1
    · have hsame := (step_confined hl hstart hend hstep).running
      simp [hsome, hrunning] at hsame
  | finished hev => exact ⟨[], by simp [hev.jobList], by simp, by simp [hev.log]⟩
  | opened q handle hq hev => exact ⟨[], by simp [hev.jobList], by simp, by simp [hev.log]⟩
  | assigned q s value hs hev => exact ⟨[], by simp [hev.jobList], by simp, by simp [hev.log]⟩
  | promised q s p reject hs hgets hp hfunc hreject hev =>
    exact ⟨[], by simp [hev.jobList], by simp, by simp [hev.log, Observation.func]⟩

/-- The calls that wait in the job list. -/
def waiting (rt : JSRuntime) : List (JSValue × Option (List UInt8)) :=
  rt.jobList.flatMap (messageCall rt)

theorem waiting_append (hready : Ready rt [] lost) (hready' : Ready rt' [] lost')
    (hstrings : ∀ p < rt.next, ∀ bytes, rt'.strings p = some bytes → rt.strings p = some bytes)
    {jobs : List JSJobEntry} (hjobs : rt'.jobList = rt.jobList ++ jobs) :
    waiting rt' = waiting rt ++ jobs.flatMap (messageCall rt') := by
  unfold waiting
  rw [hjobs, List.flatMap_append]
  congr 1
  refine List.flatMap_congr fun e he => ?_
  exact messageCall_eq hready hready' hstrings he (by simp [hjobs, he])

/-- The job that starts makes the call that has waited first. -/
theorem waiting_startJob (hstep : step rt .startJob = some rt') :
    ∃ obs, rt'.log = rt.log ++ obs ∧
      waiting rt = obs.filterMap (Observation.passed rt') ++ waiting rt' := by
  obtain ⟨e, es, -, hjobs, rfl⟩ := jsStartPendingJob_eq_some hstep
  refine ⟨e.observation, rfl, ?_⟩
  simp only [waiting, hjobs, List.flatMap_cons]
  rfl

/-- A message that finds a consumer is queued for it, whole. -/
theorem receive_queued (hready' : Ready rt' [] lost') {r : Nat} {s : IoJsIoSocket}
    (hs : rt.sockets r = some s) (hconsumer : s.consumer ≠ .undefined) {m : List UInt8}
    (hres : jsIoSocketReceiveCallback rt r m true true = some rt') :
    ∃ p, rt'.jobList = rt.jobList ++ [⟨.socketContinuation, [s.consumer, .string p], none⟩] ∧
      rt'.strings p = some m := by
  unfold jsIoSocketReceiveCallback at hres
  rw [hs] at hres
  dsimp only at hres
  rw [show (if s.receiveCallback ≠ .undefined then s.receiveCallback else s.asyncGets0) = s.consumer
    from rfl, if_neg hconsumer, if_pos (rfl : true = true)] at hres
  split at hres
  · obtain rfl := Option.some.inj hres
    -- the string is made first, at the next address, and the job keeps it
    have hdup := foldl_releases jsDupValue_releases [s.consumer, .string rt.next]
      (jsNewStringLen rt m).1
    have hfree := foldl_releases jsFreeValueRT_releases
      [(jsNewStringLen rt m).2, s.asyncGets0, s.asyncGets1]
      (modifySocket (ioJsEnqueueTask (jsNewStringLen rt m).1 .socketContinuation
        [s.consumer, .string rt.next] none true).1 r fun s =>
          { s with asyncGets0 := .undefined, asyncGets1 := .undefined })
    have hjobs := hfree.jobList.trans (congrArg (fun jobs : List JSJobEntry =>
      jobs ++ [⟨.socketContinuation, [s.consumer, .string rt.next], none⟩]) hdup.jobList)
    refine ⟨rt.next, hjobs, ?_⟩
    have hlive := hready'.live_of_job (v := .string rt.next)
      (List.mem_flatMap.mpr ⟨_, hjobs ▸ List.mem_append_right _ (List.mem_singleton_self _),
        by simp⟩)
    obtain ⟨bytes, hbytes⟩ := Option.isSome_iff_exists.mp hlive
    have hmid := hdup.strings _ _ (hfree.strings _ _ hbytes)
    rw [hbytes, ← hmid]
    simp [jsNewStringLen]
  · cases hres

end Calls

/-! ## Steps -/

structure MessageInv (s : MessageState) : Prop where
  noTimers : NoTimers s.rt
  promises : Promises s.rt s.taken
  inOrder : ∀ r, ((s.taken.filter fun t => t.socket = r).map Taken.message) ++ s.pipe r =
    s.arrived r
  once : s.passed ++ waiting s.rt =
    (s.taken.filter fun t => t.consumer ≠ .undefined).map fun t => (t.consumer, some t.message)
  calls : s.passed.map Prod.fst = s.rt.log.filterMap Observation.func

section MessageInv

variable {s s' : MessageState} {lost : JSValue → Nat}

theorem MessageInv.delivered (h : MessageInv s) : Delivered s where
  inOrder := h.inOrder
  once := h.once
  calls := h.calls
  resolves t ht hreceive hgets := by
    have hnamed := h.promises.named t ht hreceive hgets
    have hconsumer : t.consumer = t.gets := by simp [Taken.consumer, hreceive]
    have hpos : 0 < s.taken.countP fun u => u.consumer = t.gets :=
      List.countP_pos_iff.mpr ⟨t, ht, by simp [hconsumer]⟩
    have hsingle := h.promises.single _ _ hnamed
    exact ⟨hnamed, h.promises.hidden _ _ hnamed, by omega⟩

theorem MessageInv.message (h : MessageInv s) (r : Nat) (m : List UInt8) :
    MessageInv { s with
      pipe := update s.pipe r (s.pipe r ++ [m])
      arrived := update s.arrived r (s.arrived r ++ [m]) } := by
  refine { h with inOrder := fun q => ?_ }
  by_cases hq : q = r
  · subst hq
    simp [← h.inOrder q]
  · simpa [hq] using h.inOrder q

/-- A step of the machine other than a receive event. -/
theorem MessageInv.machine (h : MessageInv s) (hsound : Sound s.rt lost) {l : Label}
    {rt' : JSRuntime} {lost' : JSValue → Nat} (hsound' : Sound rt' lost') (hl : SocketProgram l)
    (hpassed : LoadsPassed s.rt l) (hstep : step s.rt l = some rt') (hc : Change l s.rt rt')
    {passed : List (JSValue × Option (List UInt8))}
    (honce : passed ++ waiting rt' = s.passed ++ waiting s.rt)
    (hcalls : passed.map Prod.fst = rt'.log.filterMap Observation.func) :
    MessageInv { s with rt := rt', passed := passed } where
  noTimers := h.noTimers.change hl hc
  promises := h.promises.change hsound.ready hsound'.ready h.noTimers hl hpassed hstep hc
  inOrder := h.inOrder
  once := honce.trans h.once
  calls := hcalls

/-- The start of a job makes the call that was first in the list. -/
theorem MessageInv.startJob (h : MessageInv s) (hsound : Sound s.rt lost) {rt' : JSRuntime}
    (hstep : step s.rt .startJob = some rt') :
    (∃ lost', Sound rt' lost') ∧ MessageInv { s with
      rt := rt'
      passed := s.passed ++
        (rt'.log.drop s.rt.log.length).filterMap (Observation.passed rt') } := by
  obtain ⟨⟨lost', hsound'⟩, hc⟩ := NoTimers.step_change h.noTimers hsound (by simp) hstep
  have hscript : SocketProgram .startJob := id
  obtain ⟨obs, hlog, hwaiting⟩ := waiting_startJob hstep
  have hnew : rt'.log.drop s.rt.log.length = obs := by simp [hlog]
  refine ⟨⟨lost', hsound'⟩, h.machine hsound hsound' hscript trivial hstep hc ?_ ?_⟩
  · rw [hnew, hwaiting, List.append_assoc]
  · rw [hnew, List.map_append, map_filterMap_passed, h.calls, hlog, List.filterMap_append]

/-- A step that starts no job leaves the calls as they are. -/
theorem MessageInv.other (h : MessageInv s) (hsound : Sound s.rt lost) {l : Label}
    (hl : SocketProgram l ∧ LoadsPassed s.rt l) (hstart : l ≠ .startJob)
    (hreceive : ∀ r pipe buffer mem, l ≠ .receive r pipe buffer mem) {rt' : JSRuntime}
    (hstep : step s.rt l = some rt') :
    (∃ lost', Sound rt' lost') ∧ MessageInv { s with rt := rt' } := by
  obtain ⟨⟨lost', hsound'⟩, hc⟩ := NoTimers.step_change h.noTimers hsound hreceive hstep
  obtain ⟨jobs, hjobs, hscript, hcalls⟩ := hc.jobList h.noTimers hl.1 hl.2 hstart hstep
  refine ⟨⟨lost', hsound'⟩, h.machine hsound hsound' hl.1 hl.2 hstep hc ?_
    (h.calls.trans hcalls.symm)⟩
  rw [waiting_append hsound.ready hsound'.ready (fun p hp bytes => step_strings hl.2 hstep hp)
    hjobs, List.flatMap_eq_nil_iff.mpr fun e he => ?_, List.append_nil]
  simp [messageCall, JSJobEntry.observation, hscript e he]

/-- The invariant after a message has been taken. -/
theorem MessageInv.take (h : MessageInv s) (hready : Ready s.rt [] lost) {r : Nat}
    {this : IoJsIoSocket} (hs : s.rt.sockets r = some this) {rt' : JSRuntime}
    (hnone : NoTimers rt') (hcarries : Carries s.rt rt')
    (hcleared : ∀ t, rt'.sockets r = some t → t.asyncGets0 = .undefined) {m : List UInt8}
    {ms : List (List UInt8)} (hpipe : s.pipe r = m :: ms)
    (hwaiting : waiting rt' = waiting s.rt ++
      if this.consumer = .undefined then [] else [(this.consumer, some m)])
    (hcalls : rt'.log.filterMap Observation.func = s.rt.log.filterMap Observation.func) :
    MessageInv { s with
      rt := rt'
      pipe := update s.pipe r ms
      taken := s.taken ++ [⟨r, m, this.receiveCallback, this.asyncGets0⟩] } := by
  have hconsumer : Taken.consumer ⟨r, m, this.receiveCallback, this.asyncGets0⟩ = this.consumer :=
    rfl
  refine ⟨hnone, h.promises.take hready hcarries hs hcleared m, fun q => ?_, ?_,
    h.calls.trans hcalls.symm⟩
  · have hold := h.inOrder q
    by_cases hq : q = r
    · subst hq
      simpa [hpipe] using hold
    · simpa [hq, Ne.symm hq] using hold
  · dsimp only
    rw [hwaiting, ← List.append_assoc, h.once, List.filter_append, List.map_append]
    by_cases hundefined : this.consumer = .undefined
    · simp [hconsumer, hundefined]
    · simp [hconsumer, hundefined]

theorem MessageInv.receive (h : MessageInv s) (hsound : Sound s.rt lost) {r : Nat}
    (hstep : messageStep s (.receive r) = some s') :
    (∃ lost', Sound s'.rt lost') ∧ MessageInv s' := by
  simp only [messageStep, Option.bind_eq_some_iff, Option.map_eq_some_iff] at hstep
  obtain ⟨this, hs, rt', hm, rfl⟩ := hstep
  have hm' := hm
  simp only [step, jsIoSocketReadBytes, hs, Option.isSome_some, if_true] at hm'
  obtain ⟨hsound', hreceived⟩ := receiveChunks_received hsound hm'
  refine ⟨⟨lost, hsound'⟩, ?_⟩
  cases hpipe : s.pipe r with
  | nil =>
    obtain rfl : s.rt = rt' := by
      simpa [hpipe, ReceivePipe.front, IoPipe.chunks, receiveChunks] using hm'
    have hsame : update s.pipe r [] = s.pipe := by
      rw [← hpipe, Function.update_eq_self]
    simpa [ReceivePipe.readBytes, ReceivePipe.messages, hsame] using h
  | cons m ms =>
    have hcallback : jsIoSocketReceiveCallback s.rt r m true true = some rt' := by
      simpa [hpipe, ReceivePipe.front, IoPipe.chunks, receiveChunks] using hm'
    have hlabel : LoadsPassed s.rt (.receive r (ReceivePipe.encoding (s.pipe r)).front
      (fun _ => 0) []) := trivial
    by_cases hconsumer : this.consumer = .undefined
    · -- the message is ignored
      rw [jsIoSocketReceiveCallback_ignored hs hconsumer] at hcallback
      obtain rfl := Option.some.inj hcallback
      refine h.take hsound.ready hs h.noTimers ⟨Nat.le_refl _, fun _ _ => Iff.rfl, fun _ => .inl,
        fun q t ht _ => ⟨t, ht, rfl⟩⟩ (fun t ht => ?_) hpipe (by simp [hconsumer]) rfl
      obtain rfl : this = t := Option.some.inj (hs.symm.trans ht)
      unfold IoJsIoSocket.consumer at hconsumer
      split at hconsumer
      · contradiction
      · exact hconsumer
    · obtain ⟨p, hjobs, hbytes⟩ := receive_queued hsound'.ready hs hconsumer hcallback
      obtain ⟨t, jobs, obs, hreceived⟩ : ∃ t jobs obs, Received s.rt rt' r t jobs obs := by
        rcases hreceived with ⟨rfl, -⟩ | ⟨t, jobs, obs, hreceived, -⟩
        · simp at hjobs
        · exact ⟨t, jobs, obs, hreceived⟩
      obtain rfl : this = t := Option.some.inj (hs.symm.trans hreceived.socket)
      have hev := hreceived.evolves
      refine h.take hsound.ready hs (NoTimers.evolves (by exact h.noTimers) hev)
        ⟨hev.next_le, fun q f => ?_, fun p => step_accessible hlabel hm, fun q t ht hgets => ?_⟩
        (fun t ht => ?_) hpipe ?_ ?_
      · rw [hev.log, List.mem_append]
        exact or_iff_left fun hf => by cases hreceived.obs_eq _ hf
      · have hbefore := hev.socket_before ht
        simp only [update_apply] at hbefore
        split at hbefore
        · obtain rfl := Option.some.inj hbefore
          exact absurd rfl hgets
        · exact ⟨t, hbefore, rfl⟩
      · obtain rfl : this.cleared = t := Option.some.inj (hreceived.kept.symm.trans ht)
        rfl
      · rw [waiting_append hsound.ready hsound'.ready
          (fun p hp bytes => step_strings hlabel hm hp) hjobs]
        simp [messageCall, JSJobEntry.observation, Observation.passed, JSRuntime.stringBytes,
          hbytes, hconsumer]
      · -- an event observes nothing but jobs that are lost
        have hobs : obs.filterMap Observation.func = [] :=
          List.filterMap_eq_nil_iff.mpr fun x hx => by rw [hreceived.obs_eq x hx]; rfl
        rw [hev.log, List.filterMap_append, hobs, List.append_nil]

/-- The step lemma. -/
theorem messageStep_inv {l : MessageLabel} (h : MessageInv s) (hsound : Sound s.rt lost)
    (hl : MessageProgram s l) (hstep : messageStep s l = some s') :
    (∃ lost', Sound s'.rt lost') ∧ MessageInv s' := by
  cases l with
  | message r m =>
    obtain rfl := Option.some.inj hstep
    exact ⟨⟨lost, hsound⟩, h.message r m⟩
  | receive r => exact h.receive hsound hstep
  | machine l =>
    by_cases hstart : l = .startJob
    · subst hstart
      obtain ⟨rt', hm, rfl⟩ := Option.map_eq_some_iff.mp hstep
      exact h.startJob hsound hm
    · have hprogram : SocketProgram l ∧ LoadsPassed s.rt l := by
        cases l with
        | receive => exact hl.elim
        | _ => exact hl
      have hstep' : (step s.rt l).map (fun rt => { s with rt := rt }) = some s' := by
        cases l with
        | startJob => exact absurd rfl hstart
        | _ => exact hstep
      obtain ⟨rt', hm, rfl⟩ := Option.map_eq_some_iff.mp hstep'
      refine h.other hsound hprogram hstart (fun r pipe buffer mem hlabel => ?_) hm
      subst hlabel
      exact hl

end MessageInv

/-! ## Runs -/

/-- The state before the first step. -/
def messageStart : MessageState := ⟨jsNewRuntime, fun _ => [], fun _ => [], [], []⟩

theorem messageStart_inv : MessageInv messageStart where
  noTimers _ := rfl
  promises := by
    refine ⟨?_, ?_, ?_, ?_, ?_, ?_, ?_⟩ <;> simp [messageStart, jsNewRuntime]
  inOrder _ := rfl
  once := rfl
  calls := rfl

/-- In every run in which memory does not run out, no message is lost, doubled or overtaken. -/
theorem messages_delivered {ls : List MessageLabel} {s : MessageState}
    (hmeets : Transition.Meets messageStep MessageProgram messageStart ls)
    (hrun : Transition.run messageStep messageStart ls = some s) : Delivered s := by
  obtain ⟨-, hinv⟩ := Transition.run_invariant
    (I := fun u => (∃ lost, Sound u.rt lost) ∧ MessageInv u)
    ⟨⟨_, jsNewRuntime_sound⟩, messageStart_inv⟩ hmeets
    (fun _ _ _ ⟨⟨_, hsound⟩, hinv⟩ hl hstep => messageStep_inv hinv hsound hl hstep) hrun
  exact hinv.delivered

/-- The consumer is replaced between the event and the job. -/
def replacedConsumer : List MessageLabel :=
  [.machine (.newSocket 0 true), .machine (.newObject .function), .machine (.newObject .function),
    .machine (.setReceive (.object 1) (.object 3)), .message 2 [104], .message 2 [105], .receive 2,
    .machine (.setReceive (.object 1) (.object 4)), .receive 2, .machine .startJob]

theorem messages_delivered_replaced : ∃ s,
    Transition.run messageStep messageStart replacedConsumer = some s ∧
      s.passed = [(.object 3, some [104])] ∧ waiting s.rt = [(.object 4, some [105])] ∧
      Delivered s := by
  have hmeets : Transition.Meets messageStep MessageProgram messageStart replacedConsumer :=
    Transition.meets_of_forall fun u l hl => by
      simp only [replacedConsumer, List.mem_cons, List.not_mem_nil, or_false] at hl
      rcases hl with rfl | rfl | rfl | rfl | rfl | rfl | rfl | rfl | rfl | rfl <;>
        simp [MessageProgram, SocketProgram, Label.arms, LoadsPassed]
  have hend : (Transition.run messageStep messageStart replacedConsumer).map
      (fun s => (s.passed, waiting s.rt)) =
      some ([(.object 3, some [104])], [(.object 4, some [105])]) := by decide
  obtain ⟨s, hrun, hs⟩ := Option.map_eq_some_iff.mp hend
  obtain ⟨hpassed, hwaiting⟩ := Prod.mk.inj hs
  exact ⟨s, hrun, hpassed, hwaiting, messages_delivered hmeets hrun⟩

end IoQuickJS
