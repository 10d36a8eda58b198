import IoQuickJS.Steps

/-!
# The promises of gets

A promise that gets has returned is outstanding until its resolve function is called. A receive
event takes both functions out of the record, whoever the data is for, so the promise survives
exactly when the data was for it and the job could be queued.
-/
namespace IoQuickJS

open Function (update update_self update_of_ne)

/-- Script code that only uses socket objects. -/
def SocketProgram (l : Label) : Prop := ¬ l.arms

/-- There are no timers. -/
def NoTimers (rt : JSRuntime) : Prop := ∀ r, rt.timers r = none

/-- The resolve function `f` has been called. -/
def Resolved (rt : JSRuntime) (f : JSValue) : Prop := ∃ args o, .call f args o ∈ rt.log

/-- A job that will call `f` is queued. -/
def ResolveQueued (rt : JSRuntime) (f : JSValue) : Prop :=
  ∃ e ∈ rt.jobList, e.jobFunc = .socketContinuation ∧ e.argv.head? = some f

/-- The promise of every gets on a live socket is resolved, or its resolve function is in the
record or in the argv of a queued job. -/
def GetsKept (rt : JSRuntime) : Prop :=
  ∀ r f s, .getsPromise r f ∈ rt.log → rt.sockets r = some s →
    Resolved rt f ∨ s.asyncGets0 = f ∨ ResolveQueued rt f

/-- A receive event that brings data while a promise is outstanding finds no receive callback,
and memory for its first job. -/
def DataForPromise (rt : JSRuntime) : Label → Prop
  | .receive r pipe buffer mem => ∀ s, rt.sockets r = some s → s.asyncGets0 ≠ .undefined →
      pipe.chunks buffer ≠ [] →
      s.receiveCallback = .undefined ∧ (mem.headD (true, true)).2 = true
  | _ => True

/-- The invariant behind `GetsKept`. -/
structure Gets (rt : JSRuntime) : Prop where
  noTimers : NoTimers rt
  promise : ∀ r f, .getsPromise r f ∈ rt.log → r < rt.next ∧ f ≠ .undefined
  kept : GetsKept rt

section Change

variable {rt rt' : JSRuntime} {l : Label} {lost lost' : JSValue → Nat}

theorem NoTimers.gcSafe (h : NoTimers rt) : GcSafe rt := by
  intro p r tmr f _ ht
  simp [h r] at ht

theorem NoTimers.evolves {a b : JSRuntime} (ha : NoTimers a) (h : Evolves a b) : NoTimers b := by
  intro r
  cases hb : b.timers r with
  | none => rfl
  | some tmr =>
    obtain ⟨old, hold, -⟩ := h.timer_before hb
    simp [ha r] at hold

/-- Without timers every step that is no receive event is a `Change`. -/
theorem NoTimers.step_change (h : NoTimers rt) (hsound : Sound rt lost)
    (hreceive : ∀ r pipe buffer mem, l ≠ .receive r pipe buffer mem)
    (hstep : step rt l = some rt') : (∃ lost', Sound rt' lost') ∧ Change l rt rt' := by
  obtain ⟨⟨lost', hsound', -⟩, hstepped⟩ := step_changes hsound (fun _ => h.gcSafe) hstep
  rcases hstepped with hc | ⟨r, pipe, buffer, mem, _, _, _, hlabel, -⟩
  · exact ⟨⟨lost', hsound'⟩, hc⟩
  · exact absurd hlabel (hreceive r pipe buffer mem)

theorem NoTimers.change (h : NoTimers rt) (hl : SocketProgram l) (hc : Change l rt rt') :
    NoTimers rt' := by
  cases hc with
  | quiet hev => exact h.evolves hev
  | armed q tmr hlabel hq hlt halarm hfunc hafter hev => exact absurd hlabel hl
  | cleared t q tmr hlabel hptr hq ht hev => simp [h q] at ht
  | expired q tmr ht halarm hkept hev => simp [h q] at ht
  | delivered q tmr ok ht hq hev => simp [h q] at ht
  | queued argv ok hev => cases ok <;> exact NoTimers.evolves (by exact h) hev
  | started e es hrunning hjobs hev => exact NoTimers.evolves (by exact h) hev
  | finished hev => exact NoTimers.evolves (by exact h) hev
  | opened q handle hq hev => exact NoTimers.evolves (by exact h) hev
  | assigned q s value hs hev => exact NoTimers.evolves (by exact h) hev
  | promised q s p reject hs hgets hp hfunc hreject hev => exact NoTimers.evolves (by exact h) hev

/-- The rule for the cases of a step: where an outstanding promise is before the work on the
heap. -/
theorem Gets.via (hnone : NoTimers rt') {mid : JSRuntime} (hev : Evolves mid rt')
    (hpromise : ∀ r f, .getsPromise r f ∈ mid.log → r < rt'.next ∧ f ≠ .undefined)
    (hkept : GetsKept mid) : Gets rt' := by
  refine ⟨hnone, fun r f hf => hpromise r f (hev.log ▸ hf), fun r f s hf hs => ?_⟩
  rcases hkept r f s (hev.log ▸ hf) (hev.socket_before hs) with hcall | hrecord | hjob
  · exact .inl (by simpa only [Resolved, hev.log] using hcall)
  · exact .inr (.inl hrecord)
  · exact .inr (.inr (by simpa only [ResolveQueued, hev.jobList] using hjob))

/-- Entries added to the log and to the job list do no harm. -/
theorem GetsKept.append (h : GetsKept rt) {mid : JSRuntime} {obs : List Observation}
    {jobs : List JSJobEntry} (hsockets : mid.sockets = rt.sockets)
    (hlog : mid.log = rt.log ++ obs) (hjobs : mid.jobList = rt.jobList ++ jobs)
    (hobs : ∀ r f, .getsPromise r f ∉ obs) : GetsKept mid := by
  intro r f s hf hs
  rw [hlog] at hf
  rw [hsockets] at hs
  rcases h r f s (by simpa [hobs] using hf) hs with ⟨args, o, hcall⟩ | hrecord | ⟨e, he, hjob⟩
  · exact .inl ⟨args, o, by simp [hlog, hcall]⟩
  · exact .inr (.inl hrecord)
  · exact .inr (.inr ⟨e, by simp [hjobs, he], hjob⟩)

theorem Gets.promise_lt (h : Gets rt) {mid : JSRuntime} (hev : Evolves mid rt')
    (hnext : mid.next = rt.next) {r : Nat} {f : JSValue} (hf : .getsPromise r f ∈ rt.log) :
    r < rt'.next ∧ f ≠ .undefined :=
  ⟨(h.promise r f hf).1.trans_le (hnext ▸ hev.next_le), (h.promise r f hf).2⟩

/-- The rule for most steps: they leave the sockets alone and make no promise. -/
theorem Gets.quiet (h : Gets rt) (hnone : NoTimers rt') {mid : JSRuntime} (obs : List Observation)
    (jobs : List JSJobEntry) (hev : Evolves mid rt') (hnext : mid.next = rt.next)
    (hsockets : mid.sockets = rt.sockets) (hlog : mid.log = rt.log ++ obs)
    (hjobs : mid.jobList = rt.jobList ++ jobs) (hobs : ∀ r f, .getsPromise r f ∉ obs) :
    Gets rt' := by
  refine .via hnone hev (fun r f hf => ?_) (h.kept.append hsockets hlog hjobs hobs)
  exact h.promise_lt hev hnext (by simpa [hlog, hobs] using hf)

/-- The job that starts has resolved the promise whose function it calls. -/
theorem GetsKept.started (h : GetsKept rt) {e : JSJobEntry} {es : List JSJobEntry}
    (hjobs : rt.jobList = e :: es) (hobs : ∀ r f, .getsPromise r f ∉ e.observation) :
    GetsKept { rt with jobList := es, running := some e, log := rt.log ++ e.observation } := by
  intro r f s hf hs
  rcases h r f s (by simpa [hobs] using hf) hs with
    ⟨args, o, hcall⟩ | hrecord | ⟨e', he', hfunc, hhead⟩
  · exact .inl ⟨args, o, by simp [hcall]⟩
  · exact .inr (.inl hrecord)
  · rw [hjobs, List.mem_cons] at he'
    rcases he' with rfl | he'
    · obtain ⟨args, hargv⟩ := List.head?_eq_some_iff.mp hhead
      exact .inl ⟨args.take 1, e'.origin, by simp [JSJobEntry.observation, hfunc, hargv]⟩
    · exact .inr (.inr ⟨e', he', hfunc, hhead⟩)

/-- gets makes its promise when the slot is empty, so an earlier one is resolved or its job is
queued. -/
theorem Gets.kept_promised (h : Gets rt) {q p : Nat} {t : IoJsIoSocket} {reject : JSValue}
    (ht : rt.sockets q = some t) (hgets : t.asyncGets0 = .undefined) :
    GetsKept { rt with
      sockets := update rt.sockets q (some { t with asyncGets0 := .object p, asyncGets1 := reject })
      log := rt.log ++ [.getsPromise q (.object p)] } := by
  intro r f s hf hs
  rw [List.mem_append, List.mem_singleton] at hf
  by_cases hrq : r = q
  · subst hrq
    obtain rfl : { t with asyncGets0 := .object p, asyncGets1 := reject } = s := by
      simpa using hs
    rcases hf with hf | heq
    · rcases h.kept r f t hf ht with ⟨args, o, hcall⟩ | hrecord | hjob
      · exact .inl ⟨args, o, by simp [hcall]⟩
      · exact absurd (hrecord.symm.trans hgets) (h.promise r f hf).2
      · exact .inr (.inr hjob)
    · obtain rfl : f = .object p := by simpa using heq
      exact .inr (.inl rfl)
  · have hf' : .getsPromise r f ∈ rt.log := by
      rcases hf with hf | heq
      · exact hf
      · simp [hrq] at heq
    rcases h.kept r f s hf' (by simpa [hrq] using hs) with ⟨args, o, hcall⟩ | hrecord | hjob
    · exact .inl ⟨args, o, by simp [hcall]⟩
    · exact .inr (.inl hrecord)
    · exact .inr (.inr hjob)

theorem Gets.change (h : Gets rt) (hsound : Sound rt lost) (hl : SocketProgram l)
    (hc : Change l rt rt') : Gets rt' := by
  have hnone := h.noTimers.change hl hc
  cases hc with
  | quiet hev => exact h.quiet hnone [] [] hev rfl rfl (by simp) (by simp) (by simp)
  | armed q tmr hlabel hq hlt halarm hfunc hafter hev => exact absurd hlabel hl
  | cleared t q tmr hlabel hptr hq ht hev => exact absurd ht (by simp [h.noTimers q])
  | expired q tmr ht halarm hkept hev => exact absurd ht (by simp [h.noTimers q])
  | delivered q tmr ok ht hq hev => exact absurd ht (by simp [h.noTimers q])
  | queued argv ok hev =>
    cases ok with
    | true => exact h.quiet hnone [] [_] hev rfl rfl (by simp [posted]) rfl (by simp)
    | false => exact h.quiet hnone [_] [] hev rfl rfl rfl (by simp [posted]) (by simp)
  | started e es hrunning hjobs hev =>
    have hobs : ∀ r f, .getsPromise r f ∉ e.observation := by
      intro r f
      unfold JSJobEntry.observation
      split <;> simp
    refine .via hnone hev (fun r f hf => ?_) (h.kept.started hjobs hobs)
    exact h.promise_lt hev rfl (by simpa [hobs] using hf)
  | finished hev => exact h.quiet hnone [] [] hev rfl rfl (by simp) (by simp) (by simp)
  | opened q handle hq hev =>
    refine .via hnone hev (fun r f hf => h.promise_lt hev rfl hf) fun r f s hf hs => ?_
    have hrq : r ≠ q := by
      rintro rfl
      exact absurd (h.promise r f hf).1 (by omega)
    exact h.kept r f s hf (by simpa [hrq] using hs)
  | assigned q t value ht hev =>
    refine .via hnone hev (fun r f hf => h.promise_lt hev rfl hf) fun r f s hf hs => ?_
    by_cases hrq : r = q
    · subst hrq
      obtain rfl : { t with receiveCallback := value } = s := by simpa using hs
      exact h.kept r f t hf ht
    · exact h.kept r f s hf (by simpa [hrq] using hs)
  | promised q t p reject ht hgets hp hfunc hreject hev =>
    refine .via hnone hev (fun r f hf => ?_) (h.kept_promised ht hgets)
    rw [List.mem_append, List.mem_singleton] at hf
    rcases hf with hf | heq
    · exact h.promise_lt hev rfl hf
    · obtain ⟨rfl, rfl⟩ : r = q ∧ f = .object p := by simpa using heq
      have hq : r < rt.next := hsound.ready.owned.sockets_lt r (by simp [ht])
      exact ⟨hq.trans_le hev.next_le, by simp⟩

/-- What a receive event does: the promise it takes out of the record gets its data. -/
theorem Gets.received {q : Nat} {t : IoJsIoSocket} {jobs : List JSJobEntry}
    {obs : List Observation} (h : Gets rt) (hc : Received rt rt' q t jobs obs)
    (hdata : t.asyncGets0 ≠ .undefined → t.receiveCallback = .undefined ∧ jobs ≠ []) :
    Gets rt' := by
  have hev := hc.evolves
  have hlog : ∀ r f, .getsPromise r f ∈ rt.log ++ obs → .getsPromise r f ∈ rt.log := by
    intro r f hf
    rcases List.mem_append.mp hf with hf | hf
    · exact hf
    · cases hc.obs_eq _ hf
  refine .via (NoTimers.evolves (by exact h.noTimers) hev) hev (fun r f hf => ?_)
    fun r f s hf hs => ?_
  · have hpromise := h.promise r f (hlog r f hf)
    exact ⟨hpromise.1.trans_le hev.next_le, hpromise.2⟩
  · have hold : ∃ old, rt.sockets r = some old ∧ (old.asyncGets0 = s.asyncGets0 ∨ r = q) := by
      by_cases hrq : r = q
      · exact ⟨t, hrq ▸ hc.socket, .inr hrq⟩
      · exact ⟨s, by simpa [hrq] using hs, .inl rfl⟩
    obtain ⟨old, hold, hsame⟩ := hold
    rcases h.kept r f old (hlog r f hf) hold with ⟨args, o, hcall⟩ | hrecord | ⟨e, he, hjob⟩
    · exact .inl ⟨args, o, by simp [hcall]⟩
    · rcases hsame with hsame | rfl
      · exact .inr (.inl (hsame.symm.trans hrecord))
      · -- the promise was the consumer, so the first job queued is the one that resolves it
        obtain rfl : t = old := Option.some.inj (hc.socket.symm.trans hold)
        obtain ⟨hcallback, hjobs⟩ := hdata (hrecord ▸ (h.promise r f (hlog r f hf)).2)
        obtain ⟨e, he⟩ := List.exists_mem_of_ne_nil jobs hjobs
        obtain ⟨str, heq⟩ := hc.jobs_eq e he
        refine .inr (.inr ⟨e, by simp [he], by simp [heq], ?_⟩)
        simp [heq, IoJsIoSocket.consumer, hcallback, hrecord]
    · exact .inr (.inr ⟨e, by simp [he], hjob⟩)

end Change

theorem jsNewRuntime_gets : Gets jsNewRuntime where
  noTimers _ := rfl
  promise r f hf := by simp [jsNewRuntime] at hf
  kept r f s hf := by simp [jsNewRuntime] at hf

/-- In every run in which data only arrives for an outstanding promise while there is no receive
callback and memory for the job, no promise of gets is lost. -/
theorem gets_promiseKept {ls : List Label} {rt : JSRuntime}
    (hmeets : Transition.Meets step (fun rt l => SocketProgram l ∧ DataForPromise rt l)
      jsNewRuntime ls)
    (hrun : Transition.run step jsNewRuntime ls = some rt) : GetsKept rt := by
  refine (run_changes jsNewRuntime_gets (fun _ _ hI _ _ => hI.noTimers.gcSafe) hmeets
    (fun u l v ⟨lost, hu⟩ _ hc _ hchange hI => ?_) hrun).2.kept
  rcases hchange with hchange | ⟨r, pipe, buffer, mem, s, jobs, obs, rfl, hreceived, hchunks, hok⟩
  · exact hI.change hu hc.1 hchange
  · refine hI.received hreceived fun hgets => ?_
    obtain ⟨hcallback, hmem⟩ := hc.2 s hreceived.socket hgets hchunks
    exact ⟨hcallback, hok hmem⟩

/-- A line arrives for the promise of gets. -/
def lineForPromise : List Label :=
  [.newSocket 0 true, .gets (.object 1) true,
    .receive 2 (.encoding (some [104, 105])) (fun _ => 0) []]

theorem gets_promiseKept_line :
    ∃ rt, Transition.run step jsNewRuntime lineForPromise = some rt ∧ GetsKept rt := by
  have hmeets : Transition.Meets step (fun rt l => SocketProgram l ∧ DataForPromise rt l)
      jsNewRuntime lineForPromise := by
    refine ⟨⟨id, trivial⟩, fun a ha => ?_⟩
    obtain rfl := Option.some.inj ha
    refine ⟨⟨id, trivial⟩, fun b hb => ?_⟩
    obtain rfl := Option.some.inj hb
    refine ⟨⟨id, fun s hs _ _ => ?_⟩, fun _ _ => trivial⟩
    obtain rfl := Option.some.inj hs
    exact ⟨rfl, rfl⟩
  exact ⟨_, rfl, gets_promiseKept hmeets rfl⟩

/-- A receive callback is assigned while the promise is outstanding, and takes its data. -/
def lineForCallback : List Label :=
  [.newSocket 0 true, .newObject .function, .gets (.object 1) true,
    .setReceive (.object 1) (.object 3), .receive 2 (.encoding (some [104, 105])) (fun _ => 0) []]

theorem gets_promiseLost : ¬ ∀ ls rt, Transition.Meets step (fun _ l => SocketProgram l)
    jsNewRuntime ls → Transition.run step jsNewRuntime ls = some rt → GetsKept rt := by
  intro h
  have hmeets : Transition.Meets step (fun _ l => SocketProgram l) jsNewRuntime lineForCallback :=
    Transition.meets_of_forall fun _ l hl => by
      simp only [lineForCallback, List.mem_cons, List.not_mem_nil, or_false] at hl
      rcases hl with rfl | rfl | rfl | rfl | rfl <;> exact id
  have hend : (Transition.run step jsNewRuntime lineForCallback).map
      (fun rt => (rt.log, rt.sockets 2, rt.jobList)) =
      some ([.getsPromise 2 (.object 5)], some ⟨0, .object 3, .undefined, .undefined⟩,
        [⟨.socketContinuation, [.object 3, .string 7], none⟩]) := by decide
  obtain ⟨rt, hrun, hrt⟩ := Option.map_eq_some_iff.mp hend
  simp only [Prod.mk.injEq] at hrt
  obtain ⟨hlog, hsocket, hjobs⟩ := hrt
  rcases h lineForCallback rt hmeets hrun 2 (.object 5) _ (by simp [hlog]) hsocket with
    ⟨args, o, hcall⟩ | hrecord | ⟨e, he, -, hhead⟩
  · simp [hlog] at hcall
  · cases hrecord
  · obtain rfl : e = _ := by simpa [hjobs] using he
    simp at hhead

end IoQuickJS
