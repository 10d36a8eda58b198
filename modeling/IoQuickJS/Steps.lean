import IoQuickJS.SocketSpec

/-!
# What one step can do

`Change` lists once what a step does to the timer and socket records, the queues and the log, and
`Received` what a receive event does to them; everything else a step does is work on the heap.
`step_changes` says that every step is one of these and keeps the accounts, so an invariant over
runs only has to look at the cases.
-/
namespace IoQuickJS

open Function (update update_self update_of_ne)

/-- The accounts are in order up to the references `lost`, and the records are as the functions
of the port leave them. -/
structure Sound (rt : JSRuntime) (lost : JSValue → Nat) : Prop where
  ready : Ready rt [] lost
  after : ∀ r tmr, rt.timers r = some tmr → tmr.onTimeout = .after → tmr.hasObject = false
  paired : GetsPaired rt

/-- The calls that arm a timer. -/
def Label.arms : Label → Prop
  | .setTimeout .. | .after .. => True
  | _ => False

inductive Change (l : Label) (rt rt' : JSRuntime) : Prop where
  | quiet (h : Evolves rt rt')
  | armed (r : Nat) (tmr : JSIOTimer) (hl : l.arms) (hr : rt.next ≤ r) (hlt : r < rt'.next)
    (halarm : tmr.alarm) (hfunc : rt'.isFunction tmr.resolve)
    (hafter : tmr.onTimeout = .after → tmr.hasObject = false)
    (h : Evolves { rt with
      timers := update rt.timers r (some tmr)
      log := rt.log ++ [.armed r tmr.resolve] } rt')
  | cleared (t : JSValue) (r : Nat) (tmr : JSIOTimer) (hl : l = .clearTimeout t)
    (hptr : rt.getOpaque t .ioTimer = some r) (hr : r < rt.next) (ht : rt.timers r = some tmr)
    (h : Evolves { rt with
      timers := update rt.timers r (some { tmr with alarm := false })
      log := rt.log ++ [.cleared r] } rt')
  | expired (r : Nat) (tmr : JSIOTimer) (ht : rt.timers r = some tmr) (halarm : tmr.alarm)
    (hkept : (rt'.timers r).isSome)
    (h : Evolves { rt with
      timers := update rt.timers r (some { tmr with alarm := false })
      events := rt.events ++ [r] } rt')
  | delivered (r : Nat) (tmr : JSIOTimer) (ok : Bool) (ht : rt.timers r = some tmr)
    (hr : r ∈ rt.events)
    (h : Evolves (posted { rt with
      timers := update rt.timers r tmr.delivered
      events := rt.events.erase r } (timeoutJob r tmr) ok) rt')
  | queued (argv : List JSValue) (ok : Bool)
    (h : Evolves (posted rt ⟨.script, argv, none⟩ ok) rt')
  | started (e : JSJobEntry) (es : List JSJobEntry) (hrunning : rt.running = none)
    (hjobs : rt.jobList = e :: es)
    (h : Evolves { rt with jobList := es, running := some e, log := rt.log ++ e.observation } rt')
  | finished (h : Evolves { rt with running := none } rt')
  | opened (r handle : Nat) (hr : rt.next ≤ r)
    (h : Evolves { rt with
      sockets := update rt.sockets r (some ⟨handle, .undefined, .undefined, .undefined⟩) } rt')
  | assigned (r : Nat) (s : IoJsIoSocket) (value : JSValue) (hs : rt.sockets r = some s)
    (h : Evolves { rt with
      sockets := update rt.sockets r (some { s with receiveCallback := value }) } rt')
  | promised (r : Nat) (s : IoJsIoSocket) (p : Nat) (reject : JSValue)
    (hs : rt.sockets r = some s) (hgets : s.asyncGets0 = .undefined) (hp : rt.next ≤ p)
    (hfunc : rt'.isFunction (.object p)) (hreject : reject ≠ .undefined)
    (h : Evolves { rt with
      sockets := update rt.sockets r
        (some { s with asyncGets0 := .object p, asyncGets1 := reject })
      log := rt.log ++ [.getsPromise r (.object p)] } rt')

/-- A receive event on socket `r` has queued `jobs` for its consumer and taken the functions of
the promise out of the record; `obs` are the jobs there was no memory for. -/
structure Received (rt rt' : JSRuntime) (r : Nat) (s : IoJsIoSocket) (jobs : List JSJobEntry)
    (obs : List Observation) : Prop where
  socket : rt.sockets r = some s
  consumer : s.consumer ≠ .undefined
  kept : rt'.sockets r = some s.cleared
  jobs_eq : ∀ e ∈ jobs, ∃ str, e = ⟨.socketContinuation, [s.consumer, str], none⟩
  obs_eq : ∀ x ∈ obs, x = .jobLost none
  evolves : Evolves { rt with
    sockets := update rt.sockets r (some s.cleared)
    jobList := rt.jobList ++ jobs
    log := rt.log ++ obs } rt'

section Evolves

variable {a b : JSRuntime}

theorem Evolves.timer_before (h : Evolves a b) {r : Nat} {tmr : JSIOTimer}
    (ht : b.timers r = some tmr) :
    ∃ old, a.timers r = some old ∧ old.resolve = tmr.resolve ∧ old.alarm = tmr.alarm ∧
      old.onTimeout = tmr.onTimeout ∧ (tmr.hasObject → old.hasObject) := by
  rcases h.timers r with he | ⟨old, ho, -, ⟨_, hb⟩ | ⟨_, hb⟩⟩
  · exact ⟨tmr, he ▸ ht, rfl, rfl, rfl, id⟩
  · obtain rfl : { old with hasObject := false } = tmr := Option.some.inj (hb ▸ ht)
    exact ⟨old, ho, rfl, rfl, rfl, by simp⟩
  · simp [hb] at ht

theorem Evolves.timer_of_alarm (h : Evolves a b) {r : Nat} {tmr : JSIOTimer}
    (ht : a.timers r = some tmr) (halarm : tmr.alarm) :
    ∃ has, b.timers r = some { tmr with hasObject := has } := by
  rcases h.timers r with he | ⟨old, ho, -, ⟨_, hb⟩ | ⟨hf, _⟩⟩
  · exact ⟨tmr.hasObject, by rw [he, ht]⟩
  · obtain rfl : tmr = old := Option.some.inj (ht ▸ ho)
    exact ⟨false, hb⟩
  · obtain rfl : tmr = old := Option.some.inj (ht ▸ ho)
    simp [halarm] at hf

theorem Evolves.socket_before (h : Evolves a b) {r : Nat} {s : IoJsIoSocket}
    (hs : b.sockets r = some s) : a.sockets r = some s := by
  rcases h.sockets r with he | he
  · exact he ▸ hs
  · simp [he] at hs

end Evolves

/-! ## The records keep their form -/

theorem Change.after {l : Label} {rt rt' : JSRuntime} (h : Change l rt rt')
    (hafter : ∀ r tmr, rt.timers r = some tmr → tmr.onTimeout = .after → tmr.hasObject = false)
    (r : Nat) (tmr : JSIOTimer) (ht : rt'.timers r = some tmr) (hkind : tmr.onTimeout = .after) :
    tmr.hasObject = false := by
  -- what the record was before the heap work, and that it was in order there
  have key : ∀ mid : JSRuntime, Evolves mid rt' →
      (∀ t, mid.timers r = some t → t.onTimeout = .after → t.hasObject = false) →
      tmr.hasObject = false := by
    intro mid hev hmid
    obtain ⟨old, hold, -, -, hsame, hhas⟩ := hev.timer_before ht
    have := hmid old hold (hsame.trans hkind)
    by_contra hn
    simp [hhas (by simpa using hn)] at this
  have hupdate : ∀ (q : Nat) (new : Option JSIOTimer),
      (∀ t, new = some t → t.onTimeout = .after → t.hasObject = false) →
      ∀ t, update rt.timers q new r = some t → t.onTimeout = .after → t.hasObject = false := by
    intro q new hnew t hq
    by_cases hrq : r = q
    · subst hrq
      rw [update_self] at hq
      exact hnew t hq
    · rw [update_of_ne hrq] at hq
      exact hafter r t hq
  cases h with
  | quiet h => exact key _ h (hafter r)
  | armed q new _ _ _ _ _ hnew h =>
    refine key _ h (hupdate q _ fun t he => ?_)
    obtain rfl := Option.some.inj he
    exact hnew
  | cleared t q old _ _ _ hold h =>
    refine key _ h (hupdate q _ fun t he => ?_)
    obtain rfl := Option.some.inj he
    exact hafter q old hold
  | expired q old hold _ _ h =>
    refine key _ h (hupdate q _ fun t he => ?_)
    obtain rfl := Option.some.inj he
    exact hafter q old hold
  | delivered q old ok hold _ h =>
    refine key _ h ?_
    have := hupdate q old.delivered fun t he => by
      unfold JSIOTimer.delivered at he
      split_ifs at he with hhas
      obtain rfl := Option.some.inj he
      exact hafter q old hold
    cases ok <;> exact this
  | queued argv ok h => exact key _ h (by cases ok <;> exact hafter r)
  | started e es _ _ h => exact key _ h (hafter r)
  | finished h => exact key _ h (hafter r)
  | opened q handle _ h => exact key _ h (hafter r)
  | assigned q s value _ h => exact key _ h (hafter r)
  | promised q s p reject _ _ _ _ _ h => exact key _ h (hafter r)

theorem Change.paired {l : Label} {rt rt' : JSRuntime} (h : Change l rt rt')
    (hpaired : GetsPaired rt) :
    GetsPaired rt' := by
  intro r s hs
  have hupdate : ∀ (q : Nat) (new : IoJsIoSocket),
      (new.asyncGets0 = .undefined ↔ new.asyncGets1 = .undefined) →
      update rt.sockets q (some new) r = some s →
      (s.asyncGets0 = .undefined ↔ s.asyncGets1 = .undefined) := by
    intro q new hnew hq
    by_cases hrq : r = q
    · subst hrq
      obtain rfl : new = s := by simpa using hq
      exact hnew
    · exact hpaired r s (by simpa [update_of_ne hrq] using hq)
  cases h with
  | quiet h => exact hpaired r s (h.socket_before hs)
  | armed q new _ _ _ _ _ _ h => exact hpaired r s (h.socket_before hs)
  | cleared t q old _ _ _ _ h => exact hpaired r s (h.socket_before hs)
  | expired q old _ _ _ h => exact hpaired r s (h.socket_before hs)
  | delivered q old ok _ _ h =>
    have := h.socket_before hs
    cases ok <;> exact hpaired r s this
  | queued argv ok h =>
    have := h.socket_before hs
    cases ok <;> exact hpaired r s this
  | started e es _ _ h => exact hpaired r s (h.socket_before hs)
  | finished h => exact hpaired r s (h.socket_before hs)
  | opened q handle _ h => exact hupdate q _ (by simp) (h.socket_before hs)
  | assigned q t value ht h =>
    exact hupdate q { t with receiveCallback := value } (hpaired q t ht) (h.socket_before hs)
  | promised q t p reject _ _ _ _ hreject h =>
    exact hupdate q _ (by simp [hreject]) (h.socket_before hs)

theorem Sound.change {l : Label} {rt rt' : JSRuntime} {lost lost' : JSValue → Nat}
    (h : Sound rt lost) (hc : Change l rt rt') (hready : Ready rt' [] lost') : Sound rt' lost' :=
  ⟨hready, hc.after h.after, hc.paired h.paired⟩

/-! ## Every step is one change -/

/-- The step loses no reference: it does not overwrite a callback with undefined, and it is not
a call of after that fails once it has made the promise. -/
def Leakless (rt : JSRuntime) : Label → Prop
  | .setReceive this value => value = .undefined → ∀ r s, rt.getOpaque this .ioSocket = some r →
      rt.sockets r = some s → s.receiveCallback = .undefined
  | .after capOk delayOk tmrOk => capOk → delayOk ∧ tmrOk
  | _ => True

theorem Sound.received {rt rt' : JSRuntime} {lost lost' : JSValue → Nat} {r : Nat}
    {s : IoJsIoSocket} {jobs : List JSJobEntry} {obs : List Observation} (h : Sound rt lost)
    (hc : Received rt rt' r s jobs obs) (hready : Ready rt' [] lost') : Sound rt' lost' := by
  refine ⟨hready, fun q tmr ht hkind => ?_, fun q t ht => ?_⟩
  · obtain ⟨old, hold, -, -, hsame, hhas⟩ := hc.evolves.timer_before ht
    have := h.after q old hold (hsame.trans hkind)
    by_contra hn
    simp [hhas (by simpa using hn)] at this
  · have hbefore := hc.evolves.socket_before ht
    by_cases hq : q = r
    · obtain rfl : s.cleared = t := by simpa [hq] using hbefore
      simp [IoJsIoSocket.cleared]
    · exact h.paired q t (by simpa [hq] using hbefore)

theorem IoJsIoSocket.cleared_cleared (s : IoJsIoSocket) : s.cleared.cleared = s.cleared := rfl

/-- Once the functions of the promise are gone, only the callback is left as a consumer. -/
theorem IoJsIoSocket.consumer_cleared {s : IoJsIoSocket} (h : s.cleared.consumer ≠ .undefined) :
    s.cleared.consumer = s.consumer := by
  unfold IoJsIoSocket.consumer IoJsIoSocket.cleared at *
  split_ifs at h ⊢ with hcallback
  · rfl
  · exact absurd rfl h

theorem receiveCallback_received {r : Nat} {chunk : List UInt8} {strOk enqOk : Bool}
    {rt rt' : JSRuntime} {lost : JSValue → Nat} (h : Sound rt lost)
    (hres : jsIoSocketReceiveCallback rt r chunk strOk enqOk = some rt') :
    rt' = rt ∧ (∀ s, rt.sockets r = some s → s.consumer = .undefined) ∨
      Sound rt' lost ∧ ∃ s jobs obs, Received rt rt' r s jobs obs ∧ (enqOk → jobs ≠ []) := by
  obtain ⟨s, hs, hready, ⟨hconsumer, rfl⟩ | ⟨hconsumer, hsome, str, hev⟩⟩ :=
    jsIoSocketReceiveCallback_spec h.ready hres
  · refine .inl ⟨rfl, fun t ht => ?_⟩
    obtain rfl : s = t := Option.some.inj (hs.symm.trans ht)
    exact hconsumer
  · have hkept : rt'.sockets r = some s.cleared := by
      obtain ⟨t, ht⟩ := Option.isSome_iff_exists.mp hsome
      have hbefore := hev.socket_before ht
      cases enqOk <;> simpa [posted, ht, eq_comm] using hbefore
    have hreceived : ∃ jobs obs, Received rt rt' r s jobs obs ∧ (enqOk → jobs ≠ []) := by
      cases enqOk with
      | true =>
        exact ⟨[⟨.socketContinuation, [s.consumer, str], none⟩], [],
          ⟨hs, hconsumer, hkept, by simp, by simp, by simpa [posted] using hev⟩, by simp⟩
      | false =>
        exact ⟨[], [.jobLost none], ⟨hs, hconsumer, hkept, by simp, by simp,
          by simpa [posted] using hev⟩, by simp⟩
    obtain ⟨jobs, obs, hc, hok⟩ := hreceived
    exact .inr ⟨h.received hc hready, s, jobs, obs, hc, hok⟩

/-- Two chunks for one socket in a row. -/
theorem Received.trans {a b c : JSRuntime} {r : Nat} {s t : IoJsIoSocket}
    {jobs jobs' : List JSJobEntry} {obs obs' : List Observation}
    (h : Received a b r s jobs obs) (g : Received b c r t jobs' obs') :
    Received a c r s (jobs ++ jobs') (obs ++ obs') := by
  obtain rfl : s.cleared = t := Option.some.inj (h.kept.symm.trans g.socket)
  have hconsumer := IoJsIoSocket.consumer_cleared g.consumer
  refine ⟨h.socket, h.consumer, g.kept, fun e he => ?_, fun x hx => ?_, ?_⟩
  · rcases List.mem_append.mp he with he | he
    · exact h.jobs_eq e he
    · rw [← hconsumer]
      exact g.jobs_eq e he
  · rcases List.mem_append.mp hx with hx | hx
    · exact h.obs_eq x hx
    · exact g.obs_eq x hx
  · have hsame : update b.sockets r (some s.cleared.cleared) = b.sockets := by
      rw [IoJsIoSocket.cleared_cleared, ← h.kept, Function.update_eq_self]
    have hev := h.evolves
    have hmid : Evolves { a with
        sockets := update a.sockets r (some s.cleared)
        jobList := a.jobList ++ (jobs ++ jobs')
        log := a.log ++ (obs ++ obs') }
        { b with
          sockets := update b.sockets r (some s.cleared.cleared)
          jobList := b.jobList ++ jobs'
          log := b.log ++ obs' } := by
      rw [hsame]
      refine ⟨hev.next_le, hev.objects, hev.timers, hev.sockets, hev.events, ?_, hev.running, ?_⟩
      · exact (congrArg (· ++ jobs') hev.jobList).trans (List.append_assoc ..)
      · exact (congrArg (· ++ obs') hev.log).trans (List.append_assoc ..)
    exact hmid.trans g.evolves

theorem receiveChunks_received {r : Nat} {chunks : List (List UInt8)}
    {mem : List (Bool × Bool)} {rt rt' : JSRuntime} {lost : JSValue → Nat} (h : Sound rt lost)
    (hres : receiveChunks r rt chunks mem = some rt') :
    Sound rt' lost ∧ (rt' = rt ∧ (chunks ≠ [] → ∀ s, rt.sockets r = some s →
        s.consumer = .undefined) ∨
      ∃ s jobs obs, Received rt rt' r s jobs obs ∧ chunks ≠ [] ∧
        ((mem.headD (true, true)).2 → jobs ≠ [])) := by
  induction chunks generalizing rt mem with
  | nil =>
    obtain rfl : rt = rt' := by simpa [receiveChunks] using hres
    exact ⟨h, .inl ⟨rfl, by simp⟩⟩
  | cons chunk chunks ih =>
    rw [receiveChunks, Option.bind_eq_some_iff] at hres
    obtain ⟨mid, hmid, hrest⟩ := hres
    rcases receiveCallback_received h hmid with ⟨rfl, hconsumer⟩ | ⟨hsound, s, jobs, obs, hc, hok⟩
    · obtain ⟨hend, hsame | ⟨s, jobs, obs, hc, -, -⟩⟩ := ih h hrest
      · exact ⟨hend, .inl ⟨hsame.1, fun _ => hconsumer⟩⟩
      · exact absurd (hconsumer s hc.socket) hc.consumer
    · obtain ⟨hend, ⟨rfl, -⟩ | ⟨t, jobs', obs', hc', -, -⟩⟩ := ih hsound hrest
      · exact ⟨hend, .inr ⟨s, jobs, obs, hc, by simp, hok⟩⟩
      · refine ⟨hend, .inr ⟨s, _, _, hc.trans hc', by simp, fun he => ?_⟩⟩
        have := hok he
        simp [this]

/-- Script code that moves its references about. -/
def Label.moves : Label → Prop
  | .newObject _ | .newString _ | .dup _ | .drop _ | .setProperty _ _ | .getProperty _ _
  | .deleteProperty _ _ | .loadArgument _ => True
  | _ => False

theorem moves_spec {rt rt' : JSRuntime} {l : Label} {lost : JSValue → Nat} (hr : Ready rt [] lost)
    (hstep : step rt l = some rt') (hl : l.moves) : Ready rt' [] lost ∧ Evolves rt rt' := by
  cases l with
  | newObject classId =>
    simp only [step] at hstep
    split_ifs at hstep
    obtain rfl := Option.some.inj hstep
    exact ⟨Ready.push _ (hr.newObject classId),
      (jsNewObjectClass_evolves rt classId).trans (push_evolves _)⟩
  | newString bytes =>
    obtain rfl := Option.some.inj hstep
    exact ⟨Ready.push _ (hr.newString bytes),
      (jsNewStringLen_evolves rt bytes).trans (push_evolves _)⟩
  | dup v =>
    simp only [step] at hstep
    split_ifs at hstep with hv
    obtain rfl := Option.some.inj hstep
    exact ⟨Ready.push (jsDupValue rt v, v) (hr.dup (hr.live_of_stack hv)),
      (jsDupValue_evolves rt v).trans (push_evolves (jsDupValue rt v, v))⟩
  | drop v =>
    simp only [step] at hstep
    split_ifs at hstep with hv
    obtain rfl := Option.some.inj hstep
    obtain ⟨hready, hshrinks⟩ := (hr.popStack hv).free
    refine ⟨hready, Evolves.trans ?_ hshrinks.evolves⟩
    exact .of_same (Nat.le_refl _) (fun _ _ => rfl) rfl rfl rfl rfl rfl rfl
  | setProperty p v =>
    simp only [step] at hstep
    split_ifs at hstep with hv
    obtain rfl := Option.some.inj hstep
    have hp : ((jsDupValue rt v).objects p).isSome := by
      rw [(jsDupValue_countsOnly rt v).objects]
      exact hr.live_of_stack hv.1
    exact ⟨(hr.dup (hr.live_of_holds hv.2)).addProp hp,
      (jsDupValue_evolves rt v).trans (modifyProp_evolves ..)⟩
  | getProperty p v =>
    simp only [step] at hstep
    split_ifs at hstep with hv
    obtain rfl := Option.some.inj hstep
    exact ⟨Ready.push (jsDupValue rt v, v) (hr.dup (hr.live_of_prop hv.2)),
      (jsDupValue_evolves rt v).trans (push_evolves (jsDupValue rt v, v))⟩
  | deleteProperty p v =>
    simp only [step] at hstep
    split_ifs at hstep with hv
    obtain rfl := Option.some.inj hstep
    obtain ⟨hready, hshrinks⟩ := (hr.removeProp hv.2).free
    exact ⟨hready, (modifyProp_evolves ..).trans hshrinks.evolves⟩
  | loadArgument v =>
    simp only [step] at hstep
    split_ifs at hstep with hv
    obtain rfl := Option.some.inj hstep
    exact ⟨Ready.push (jsDupValue rt v, v) (hr.dup (hr.live_of_running hv)),
      (jsDupValue_evolves rt v).trans (push_evolves (jsDupValue rt v, v))⟩
  | _ => exact absurd hl id

/-- The step is one of the listed changes, or a receive event that has found a consumer. -/
def Stepped (l : Label) (rt rt' : JSRuntime) : Prop :=
  Change l rt rt' ∨ ∃ r pipe buffer mem s jobs obs, l = .receive r pipe buffer mem ∧
    Received rt rt' r s jobs obs ∧ pipe.chunks buffer ≠ [] ∧
      ((mem.headD (true, true)).2 → jobs ≠ [])

/-- The inversion of `step`: what any step does, and what it does to the accounts. -/
theorem step_changes {rt rt' : JSRuntime} {l : Label} {lost : JSValue → Nat} (h : Sound rt lost)
    (hgc : l = .runGC → GcSafe rt) (hstep : step rt l = some rt') :
    (∃ lost', Sound rt' lost' ∧
      (Leakless rt l → ∀ v, v.hasRefCount → lost' v = lost v)) ∧
    Stepped l rt rt' := by
  have one : ∀ {lost'}, Change l rt rt' → Ready rt' [] lost' →
      (Leakless rt l → ∀ v, v.hasRefCount → lost' v = lost v) →
      (∃ lost', Sound rt' lost' ∧ (Leakless rt l → ∀ v, v.hasRefCount → lost' v = lost v)) ∧
        Stepped l rt rt' :=
    fun {lost'} hc hready hlost => ⟨⟨lost', h.change hc hready, hlost⟩, .inl hc⟩
  have hr := h.ready
  cases l with
  | newObject | newString | dup | drop | setProperty | getProperty | deleteProperty
  | loadArgument =>
    obtain ⟨hready, hev⟩ := moves_spec hr hstep trivial
    exact one (.quiet hev) hready fun _ _ _ => rfl
  | enqueueJob argv ok =>
    simp only [step] at hstep
    split_ifs at hstep with hv
    obtain rfl := Option.some.inj hstep
    refine one (.queued argv ok (jsEnqueueJob_evolves ..)) (hr.enqueueJob .script argv none ok ?_)
      fun _ _ _ => rfl
    exact fun v hmem => hr.live_of_holds (List.all_eq_true.mp hv v hmem)
  | setTimeout func delayOk objOk tmrOk =>
    simp only [step] at hstep
    split_ifs at hstep with hv
    obtain rfl := Option.some.inj hstep
    obtain ⟨hready, hev | ⟨hfunc, r, hnew, hev⟩⟩ := ioJsSetTimeout_spec hr func delayOk objOk tmrOk
    · exact one (.quiet (hev.trans (push_evolves _))) (Ready.push _ hready) fun _ _ _ => rfl
    · -- the callback is in the record, so it has not been freed
      have hev' := hev.trans (push_evolves _)
      have hready' := Ready.push _ hready
      obtain ⟨has, hrecord⟩ := hev'.timer_of_alarm (r := r) (update_self ..) rfl
      have hlive := hready'.live_of_timer hrecord (v := func) (by simp [JSIOTimer.slots])
      have hfunc' := hev'.isFunction (v := func) hr.owned.objects_lt hfunc hlive
      exact one (.armed r _ trivial hnew (hready'.owned.timers_lt r (by simp [hrecord])) rfl hfunc'
        (by simp) hev') hready' fun _ _ _ => rfl
  | clearTimeout t =>
    simp only [step] at hstep
    split_ifs at hstep with hv
    obtain rfl := Option.some.inj hstep
    obtain ⟨hready, hev | ⟨r, tmr, hptr, ht, hev⟩⟩ := ioJsClearTimeout_spec hr t
    · exact one (.quiet (hev.trans (push_evolves _))) (Ready.push _ hready) fun _ _ _ => rfl
    · exact one (.cleared t r tmr rfl hptr (hr.owned.timers_lt r (by simp [ht])) ht
        (hev.trans (push_evolves _))) (Ready.push _ hready) fun _ _ _ => rfl
  | after capOk delayOk tmrOk =>
    obtain ⟨res, hres, rfl⟩ := Option.map_eq_some_iff.mp hstep
    obtain ⟨⟨lost', hready, hlost⟩, hev | ⟨r, resolve, reject, hnew, hfunc, hev⟩⟩ :=
      ioJsAfter_spec hr hres
    · exact one (.quiet (hev.trans (push_evolves _))) (Ready.push _ hready)
        fun hok v _ => by rw [hlost hok]
    · have hev' := hev.trans (push_evolves res)
      have hready' := Ready.push _ hready
      obtain ⟨has, hrecord⟩ := hev'.timer_of_alarm (r := r) (update_self ..) rfl
      exact one (.armed r _ trivial hnew (hready'.owned.timers_lt r (by simp [hrecord])) rfl
        ((push_isFunction ..).trans hfunc) (by simp) hev') hready' fun hok v _ => by rw [hlost hok]
  | newSocket handle objOk =>
    obtain rfl := Option.some.inj hstep
    obtain ⟨hready, hev | ⟨r, hnew, hev⟩⟩ := jsIoSocketConstructor_spec hr handle objOk
    · exact one (.quiet (hev.trans (push_evolves _))) (Ready.push _ hready) fun _ _ _ => rfl
    · exact one (.opened r handle hnew (hev.trans (push_evolves _))) (Ready.push _ hready)
        fun _ _ _ => rfl
  | getReceive this =>
    simp only [step] at hstep
    split_ifs at hstep
    obtain rfl := Option.some.inj hstep
    obtain ⟨hready, hev⟩ := jsIoSocketGetReceive_spec hr this
    exact one (.quiet (hev.trans (push_evolves _))) (Ready.push _ hready) fun _ _ _ => rfl
  | setReceive this value =>
    simp only [step] at hstep
    split_ifs at hstep with hv
    obtain rfl := Option.some.inj hstep
    obtain ⟨hready, hchange⟩ := jsIoSocketSetReceive_spec hr hv.1 hv.2
    have hlost : Leakless rt (.setReceive this value) → ∀ v, v.hasRefCount →
        (setReceiveLeak rt this value).count v + lost v = lost v := by
      intro hleakless v hcounted
      have hundefined := JSValue.undefined_ne hcounted
      unfold setReceiveLeak
      split_ifs with hvalue
      · cases hptr : rt.getOpaque this .ioSocket with
        | none => simp
        | some r =>
          cases hs : rt.sockets r with
          | none => simp [hs]
          | some s => simp [hs, hleakless hvalue r s hptr hs, hundefined]
      · simp
    rcases hchange with hev | ⟨r, s, -, hs, -, hev⟩
    · exact one (.quiet (hev.trans (push_evolves _))) (Ready.push _ hready) hlost
    · exact one (.assigned r s value hs (hev.trans (push_evolves _))) (Ready.push _ hready) hlost
  | gets this ok =>
    simp only [step] at hstep
    split_ifs at hstep
    obtain rfl := Option.some.inj hstep
    obtain ⟨hready, hev | ⟨r, s, p, reject, hs, hgets, hp, hfunc, hreject, hev⟩⟩ :=
      jsIoSocketGets_spec hr h.paired this ok
    · exact one (.quiet (hev.trans (push_evolves _))) (Ready.push _ hready) fun _ _ _ => rfl
    · exact one (.promised r s p reject hs hgets hp ((push_isFunction ..).trans hfunc) hreject
        (hev.trans (push_evolves _))) (Ready.push _ hready) fun _ _ _ => rfl
  | receive r pipe buffer mem =>
    simp only [step, jsIoSocketReadBytes] at hstep
    split_ifs at hstep
    obtain ⟨hsound, ⟨rfl, -⟩ | ⟨s, jobs, obs, hc, hchunks, hok⟩⟩ :=
      receiveChunks_received h hstep
    · exact ⟨⟨lost, hsound, fun _ _ _ => rfl⟩, .inl (.quiet (.refl _))⟩
    · exact ⟨⟨lost, hsound, fun _ _ _ => rfl⟩,
        .inr ⟨r, pipe, buffer, mem, s, jobs, obs, rfl, hc, hchunks, hok⟩⟩
  | expire r =>
    obtain ⟨tmr, ht, halarm, hready, hkept, hev⟩ := expireAlarm_spec hr hstep
    exact one (.expired r tmr ht halarm hkept hev) hready fun _ _ _ => rfl
  | deliver r enqOk =>
    obtain ⟨tmr, ht, hmem, hready, hev⟩ := deliverTimeout_spec hr h.after hstep
    exact one (.delivered r tmr enqOk ht hmem hev) hready fun _ _ _ => rfl
  | startJob =>
    have hready := hr.startJob hstep
    obtain ⟨e, es, hrunning, hjobs, rfl⟩ := jsStartPendingJob_eq_some hstep
    exact one (.started e es hrunning hjobs (.refl _)) hready fun _ _ _ => rfl
  | endJob =>
    obtain ⟨hready, hshrinks⟩ := hr.finishJob hstep
    exact one (.finished hshrinks.evolves) hready fun _ _ _ => rfl
  | runGC =>
    obtain rfl := Option.some.inj hstep
    obtain ⟨hready, hshrinks, -⟩ := hr.collect (hgc rfl)
    exact one (.quiet hshrinks.evolves) hready fun _ _ _ => rfl

/-! ## Runs -/

theorem jsNewRuntime_sound : Sound jsNewRuntime fun _ => 0 where
  ready := by
    have hptr : ∀ p cls, jsNewRuntime.opaqueOf p cls = none := by
      intro p cls
      by_cases hp : p = 0 <;> simp [JSRuntime.getOpaque, jsNewRuntime, JSObject.opaqueAs, hp]
    have htally : ∀ v, jsNewRuntime.tally v = if v = .object 0 then 1 else 0 := by
      intro v
      simp only [JSRuntime.tally, JSRuntime.jobSlots, jsNewRuntime, Ledger.tally,
        Finset.sum_range_one, update_self, Ledger.entry_some, Ledger.entry_none, List.count_nil,
        List.flatMap_nil, Option.elim_none, List.count_cons, beq_iff_eq, Nat.add_zero,
        Nat.zero_add]
      by_cases hv : v = .object 0
      · simp [hv]
      · simp [hv, Ne.symm hv]
    refine ⟨⟨fun v _ => ?_, fun p => ?_, fun p _ => ?_⟩, ⟨by simp [jsNewRuntime],
      by simp [jsNewRuntime], fun p => ?_, fun p => ?_, fun p hp => ?_⟩, ⟨fun p hp => ?_,
      by simp [jsNewRuntime], by simp [jsNewRuntime], by simp [hptr], by simp [hptr],
      by simp [jsNewRuntime], by simp [jsNewRuntime], by simp [hptr], by simp [hptr],
      by simp [jsNewRuntime]⟩, rfl, rfl, fun _ _ => rfl⟩
    · rw [htally]
      by_cases hv : v = .object 0 <;> simp [jsNewRuntime, hv]
    · simp [jsNewRuntime]
    · simp [jsNewRuntime]
    · by_cases hp : p = 0 <;> simp [jsNewRuntime, hp]
    · by_cases hp : p = 0 <;> simp [jsNewRuntime, hp]
    · by_cases hp0 : p = 0
      · simp [jsNewRuntime, hp0]
      · simp [jsNewRuntime, hp0] at hp
    · by_cases hp0 : p = 0
      · simp [jsNewRuntime, hp0]
      · simp [jsNewRuntime, hp0] at hp
  after := by simp [jsNewRuntime]
  paired := by simp [GetsPaired, jsNewRuntime]

/-- No collection of the step frees the callback of a timer whose alarm is active. -/
def CollectsSafely (rt : JSRuntime) (l : Label) : Prop := l = .runGC → GcSafe rt

/-- The invariant rule for the runtime: an invariant may assume that the accounts are in order
before and after the change it has to survive. -/
theorem run_changes {I : JSRuntime → Prop} {C : JSRuntime → Label → Prop} {ls : List Label}
    {rt : JSRuntime} (hinit : I jsNewRuntime) (hC : ∀ u l, I u → C u l → CollectsSafely u l)
    (hmeets : Transition.Meets step C jsNewRuntime ls)
    (hstep : ∀ u l v, (∃ lost, Sound u lost) → (∃ lost, Sound v lost) → C u l →
      step u l = some v → Stepped l u v → I u → I v)
    (hrun : Transition.run step jsNewRuntime ls = some rt) : (∃ lost, Sound rt lost) ∧ I rt := by
  refine Transition.run_invariant (I := fun u => (∃ lost, Sound u lost) ∧ I u)
    ⟨⟨_, jsNewRuntime_sound⟩, hinit⟩ hmeets (fun u l v hu hc hv => ?_) hrun
  obtain ⟨⟨lost, hsound⟩, hI⟩ := hu
  obtain ⟨⟨lost', hsound', -⟩, hchange⟩ := step_changes hsound (hC u l hI hc) hv
  exact ⟨⟨lost', hsound'⟩, hstep u l v ⟨lost, hsound⟩ ⟨lost', hsound'⟩ hc hv hchange hI⟩

/-- Only the losses of counted values matter. -/
theorem Sound.lossless {rt : JSRuntime} {lost : JSValue → Nat} (h : Sound rt lost)
    (hlost : ∀ v, v.hasRefCount → lost v = 0) : Sound rt fun _ => 0 := by
  refine ⟨h.ready.reshape ⟨⟨rfl, fun _ => rfl, fun _ => rfl, fun _ => rfl⟩, rfl, rfl, rfl, rfl,
    rfl, rfl⟩ fun v hv => ?_, h.after, h.paired⟩
  simp [hlost v hv]

/-- The same for runs in which no step loses a reference. -/
theorem run_leakless {I : JSRuntime → Prop} {C : JSRuntime → Label → Prop} {ls : List Label}
    {rt : JSRuntime} (hinit : I jsNewRuntime)
    (hC : ∀ u l, I u → C u l → CollectsSafely u l ∧ Leakless u l)
    (hmeets : Transition.Meets step C jsNewRuntime ls)
    (hstep : ∀ u l v, Sound u (fun _ => 0) → Sound v (fun _ => 0) → C u l →
      step u l = some v → Stepped l u v → I u → I v)
    (hrun : Transition.run step jsNewRuntime ls = some rt) : Sound rt (fun _ => 0) ∧ I rt := by
  refine Transition.run_invariant (I := fun u => Sound u (fun _ => 0) ∧ I u)
    ⟨jsNewRuntime_sound, hinit⟩ hmeets (fun u l v hu hc hv => ?_) hrun
  obtain ⟨hsound, hI⟩ := hu
  obtain ⟨hsafe, hleakless⟩ := hC u l hI hc
  obtain ⟨⟨lost, hsound', hlost⟩, hchange⟩ := step_changes hsound hsafe hv
  have hlossless := hsound'.lossless (hlost hleakless)
  exact ⟨hlossless, hstep u l v hsound hlossless hc hv hchange hI⟩

end IoQuickJS
