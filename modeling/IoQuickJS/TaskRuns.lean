import IoQuickJS.TaskOrder

/-!
# Runs of the main loop

The steps that are not the main loop's own keep the queue, wherever they come in between. So it
is kept along every run, and from any point of a run the main loop, left to itself, calls every
job that remains and ends.
-/
namespace IoQuickJS

open Function (update update_self update_of_ne)
open Ring (IsRing)

namespace TaskQueue

section Others

variable {s t : TaskQueue} {es : List (Nat × JSJobEntry)}

/-- What a step that leaves the list and the main loop alone does. -/
theorem Queue.setCounts (h : Queue s es) {n m : JSValue → Nat}
    (hcount : ∀ w, w.hasRefCount → n w + s.held w = s.refCount w + m w)
    (hpinned : ∀ w ∈ s.pinned, w.hasRefCount → 0 < m w ∨ w ∈ s.running) :
    Queue { s with refCount := n, held := m } es where
  ring := h.ring
  stored := h.stored
  history := h.history
  nodup := h.nodup
  fresh := h.fresh
  next_pos := h.next_pos
  counted w hw := by
    have := h.counted w hw
    have := hcount w hw
    change n w = m w + _ + s.localRefs.count w
    omega
  pinned := hpinned
  critical := h.critical
  locals := h.locals

theorem Queue.newValue (h : Queue s es) {v : JSValue} (hstep : s.step (.newValue v) = some t) :
    Queue t es ∧ t.pc = s.pc ∧ t.enqueued = s.enqueued := by
  simp only [step] at hstep
  split_ifs at hstep with hcond
  obtain rfl := Option.some.inj hstep
  obtain ⟨-, hcounted, hzero⟩ := hcond
  have hheld := h.counted v hcounted
  refine ⟨h.setCounts (fun w _ => ?_) fun w hw hwc => ?_, rfl, rfl⟩
  · by_cases hwv : w = v
    · subst hwv
      simp [setHeld]
      omega
    · simp [setHeld, hwv]
  · by_cases hwv : w = v
    · simp [setHeld, hwv]
    · simpa [setHeld, hwv] using h.pinned w hw hwc

theorem Queue.dup (h : Queue s es) {v : JSValue} (hstep : s.step (.dup v) = some t) :
    Queue t es ∧ t.pc = s.pc ∧ t.enqueued = s.enqueued := by
  simp only [step] at hstep
  split_ifs at hstep with hcond
  obtain ⟨-, hcounted, huses⟩ := hcond
  have hpos := h.refCount_pos hcounted (by simpa [uses, hcounted] using huses)
  obtain ⟨n, hdup, hn⟩ := dupValue_eq fun _ => hpos
  rw [hdup, Option.map_some] at hstep
  obtain rfl := Option.some.inj hstep
  refine ⟨h.setCounts (fun w hw => ?_) fun w hw hwc => ?_, rfl, rfl⟩
  · have := hn w hw
    by_cases hwv : w = v
    · subst hwv
      simp at this ⊢
      omega
    · simp [hwv, Ne.symm hwv] at this ⊢
      omega
  · by_cases hwv : w = v
    · simp [hwv]
    · simpa [hwv] using h.pinned w hw hwc

theorem Queue.free (h : Queue s es) {v : JSValue} (hstep : s.step (.free v) = some t) :
    Queue t es ∧ t.pc = s.pc ∧ t.enqueued = s.enqueued := by
  simp only [step] at hstep
  split_ifs at hstep with hcond
  obtain ⟨-, hcounted, hheld, hkept⟩ := hcond
  obtain ⟨n, hfree, hn⟩ := freeValue_eq fun _ => h.refCount_pos hcounted (.inl hheld)
  rw [hfree, Option.map_some] at hstep
  obtain rfl := Option.some.inj hstep
  refine ⟨h.setCounts (fun w hw => ?_) fun w hw hwc => ?_, rfl, rfl⟩
  · have := hn w hw
    by_cases hwv : w = v
    · subst hwv
      simp at this ⊢
      omega
    · simp [hwv, Ne.symm hwv] at this ⊢
      omega
  · by_cases hwv : w = v
    · subst hwv
      simp only [update_self]
      by_cases hrunning : w ∈ s.running
      · exact .inr hrunning
      · have := hkept hw hrunning
        omega
    · simpa [hwv] using h.pinned w hw hwc

theorem Queue.doTasks (h : Queue s es) (hstep : s.step .doTasks = some t) :
    Queue t es ∧ s.pc = .outside ∧ t.enqueued = s.enqueued := by
  simp only [step] at hstep
  split at hstep
  · next hpc =>
    obtain rfl := Option.some.inj hstep
    refine ⟨?_, hpc, rfl⟩
    rw [h.setPc .testPending (by rw [hpc]; rfl)]
    refine h.move .testPending ?_ ?_ ?_ trivial
    · simp [taken, TaskQueue.move, hpc]
    · simp [localRefs, TaskQueue.move, hpc]
    · simp [TaskQueue.pinned, TaskQueue.move]
  · cases hstep

theorem Queue.callEnqueue (h : Queue s es) {job : JSJobEntry}
    (hstep : s.step (.callEnqueue job) = some t) :
    Queue t es ∧ (∃ caller, t.pc = .enqueue (.malloc job) caller) ∧ t.enqueued = s.enqueued := by
  have huses : ∀ caller, s.running = callerArgs s.entries caller → job.argv.all s.uses →
      ∀ v ∈ job.argv, v.hasRefCount →
        0 < s.held v ∨ v ∈ (s.move (.enqueue (.malloc job) caller)).running := by
    intro caller hrunning hall v hv hcounted
    rw [running_enqueue (s := s.move (.enqueue (.malloc job) caller)) rfl]
    change _ ∨ v ∈ callerArgs s.entries caller
    rw [← hrunning]
    simpa [uses, hcounted] using List.all_eq_true.mp hall v hv
  simp only [step] at hstep
  split_ifs at hstep with hall
  split at hstep
  · next hpc =>
    obtain rfl := Option.some.inj hstep
    refine ⟨?_, ⟨none, rfl⟩, rfl⟩
    rw [h.setPc (.enqueue (.malloc job) none) (by rw [hpc]; rfl)]
    refine h.move _ ?_ ?_ (huses none (by simp [running, hpc, callerArgs]) hall) ?_
    · simp [taken, TaskQueue.move, hpc]
    · simp [localRefs, TaskQueue.move, hpc, callerArgs]
    · simp [LocalsOk, TaskQueue.move]
  · next e hpc =>
    obtain rfl := Option.some.inj hstep
    have he : s.Called e := by simpa only [LocalsOk, hpc] using h.locals
    refine ⟨?_, ⟨some e, rfl⟩, rfl⟩
    rw [h.setPc (.enqueue (.malloc job) (some e)) (by rw [hpc]; rfl)]
    refine h.move _ ?_ ?_ (huses (some e) (by simp [running, hpc, callerArgs, argv]) hall) ?_
    · simp [taken, TaskQueue.move, hpc]
    · simp [localRefs, TaskQueue.move, hpc, callerArgs, argv]
    · rintro c hc
      obtain rfl := Option.some.inj hc
      exact he
  · cases hstep

/-! ### Event handlers -/

theorem foldlM_dupValue_eq {vs : List JSValue}
    (hvs : ∀ v ∈ vs, v.hasRefCount → 0 < s.refCount v) :
    ∃ n, vs.foldlM dupValue s = some { s with refCount := n } ∧
      ∀ w, w.hasRefCount → n w = s.refCount w + vs.count w := by
  induction vs generalizing s with
  | nil => exact ⟨s.refCount, rfl, fun w _ => by simp⟩
  | cons v vs ih =>
    obtain ⟨n, hdup, hn⟩ := dupValue_eq (hvs v (by simp))
    obtain ⟨m, hfold, hm⟩ := ih (s := { s with refCount := n }) fun w hw hcounted => by
      have := hvs w (by simp [hw]) hcounted
      have := hn w hcounted
      change 0 < n w
      omega
    refine ⟨m, by rw [List.foldlM_cons, hdup]; exact hfold, fun w hw => ?_⟩
    have hfirst := hn w hw
    have hrest := hm w hw
    change m w = n w + vs.count w at hrest
    rw [← List.singleton_append, List.count_append]
    omega

/-- The entry that the current statement is about is not the next one to be allocated. -/
theorem Queue.frame_next (h : Queue s es) (entry : Option JSJobEntry) {e : Nat}
    (he : e ∈ s.enqueued.map Prod.fst ∨ s.Fresh e) :
    update s.entries s.next entry e = s.entries e := by
  refine update_of_ne ?_ ..
  rintro rfl
  rcases he with he | he
  · exact h.next_not_mem he
  · exact absurd he.2.1 (Nat.lt_irrefl _)

/-- The state after an event handler has linked in a job. -/
def linked (s : TaskQueue) (job : JSJobEntry) (p : Nat) (n : JSValue → Nat) : TaskQueue :=
  { s with
    refCount := n
    next := s.next + 1
    entries := update s.entries s.next (some job)
    links := (s.links.join p s.next).join s.next 0
    enqueued := s.enqueued ++ [(s.next, job)] }

/-- It does not concern the statement that the main loop is at. -/
theorem Queue.linked_locals (h : Queue s es) (hcritical : s.critical = false) (job : JSJobEntry)
    (p : Nat) (n : JSValue → Nat) :
    (s.linked job p n).taken = s.taken ∧ (s.linked job p n).localRefs = s.localRefs ∧
      (s.linked job p n).running = s.running ∧
      (s.linked job p n).LocalsOk (es ++ [(s.next, job)]) := by
  have hcrit : s.pc.critical = false := h.critical.symm.trans hcritical
  have hcalled : ∀ e, s.Called e → update s.entries s.next (some job) e = s.entries e :=
    fun e he => h.frame_next _ (.inl (h.called_mem he))
  have hcalled' : ∀ e, s.Called e → (s.linked job p n).Called e := by
    rintro e ⟨entry, hentry, hmem⟩
    exact ⟨entry, (hcalled e ⟨entry, hentry, hmem⟩).trans hentry, hmem⟩
  have hargs : ∀ caller : Option Nat, (∀ c ∈ caller, s.Called c) →
      callerArgs (s.linked job p n).entries caller = callerArgs s.entries caller := by
    intro caller hc
    exact h.callerArgs_frame h.next_not_mem hc _
  have hfresh : ∀ a, s.Fresh a → (s.linked job p n).Fresh a := by
    rintro a ⟨hpos, hlt, hnot⟩
    refine ⟨hpos, hlt.trans (Nat.lt_succ_self _), ?_⟩
    change a ∉ (s.enqueued ++ [(s.next, job)]).map Prod.fst
    rw [List.map_append, List.mem_append, not_or]
    exact ⟨hnot, by simp; omega⟩
  have hlocals := h.locals
  cases hpc : s.pc with
  | del e => simp [hpc, MainPc.critical] at hcrit
  | exitDel e => simp [hpc, MainPc.critical] at hcrit
  | gc => simp [hpc, MainPc.critical] at hcrit
  | exitGC => simp [hpc, MainPc.critical] at hcrit
  | testEmpty => simp [taken, localRefs, running, LocalsOk, linked, hpc]
  | readHead => simp [taken, localRefs, running, LocalsOk, linked, hpc]
  | enterDel e =>
    have he : es.head?.map Prod.fst = some e := by simpa only [LocalsOk, hpc] using hlocals
    cases es with
    | nil => cases he
    | cons x es => simpa [taken, localRefs, running, LocalsOk, linked, hpc] using he
  | call e =>
    obtain ⟨entry, hentry⟩ := Option.isSome_iff_exists.mp
      (by simpa only [LocalsOk, hpc] using hlocals)
    have he : update s.entries s.next (some job) e = s.entries e := by
      refine h.frame_next _ (.inl (List.mem_map.mpr ⟨(e, entry), ?_, rfl⟩))
      simp [h.history, taken, hpc, hentry]
    simp [taken, localRefs, running, LocalsOk, linked, hpc, argv, he, hentry]
  | job e | freeArg e _ _ | freeRes e _ | freeEntry e _ =>
    have he : s.Called e := by simpa only [LocalsOk, hpc] using hlocals
    refine ⟨?_, ?_, ?_, ?_⟩
    · simp [taken, linked, hpc]
    · simp [localRefs, linked, hpc, argv, hcalled e he]
    · simp [running, linked, hpc, argv, hcalled e he]
    · simpa only [LocalsOk, linked, hpc] using hcalled' e he
  | enqueue pos caller =>
    have hpc' : (s.linked job p n).pc = .enqueue pos caller := hpc
    have hc : ∀ c ∈ caller, s.Called c := by
      cases pos with
      | malloc _ | exitAdd => simpa only [LocalsOk, hpc] using hlocals
      | dupArg _ _ _ | enterAdd _ _ | add _ _ =>
        exact (by simpa only [LocalsOk, hpc] using hlocals : _ ∧ _ ∧ _).1
    have hc' : ∀ c ∈ caller, (s.linked job p n).Called c :=
      fun c hcaller => hcalled' c (hc c hcaller)
    refine ⟨?_, ?_, ?_, ?_⟩
    · simp [taken, linked, hpc]
    · cases pos with
      | malloc _ | exitAdd => simp only [localRefs, hpc', hpc, hargs caller hc]
      | dupArg a _ _ | enterAdd a _ | add a _ =>
        have hfresh : s.Fresh a := (by simpa only [LocalsOk, hpc] using hlocals : _ ∧ _ ∧ _).2.1
        have hsame : (s.linked job p n).entries a = s.entries a := h.frame_next _ (.inr hfresh)
        simp only [localRefs, hpc', hpc, hargs caller hc, argv, hsame]
    · rw [running_enqueue hpc', running_enqueue hpc, hargs caller hc]
    · cases pos with
      | malloc _ | exitAdd => simpa only [LocalsOk, hpc'] using hc'
      | dupArg a _ _ | enterAdd a _ | add a _ =>
        obtain ⟨-, hnew, hentry⟩ : _ ∧ _ ∧ _ := by simpa only [LocalsOk, hpc] using hlocals
        simp only [LocalsOk, hpc']
        exact ⟨hc', hfresh a hnew, (h.frame_next _ (.inr hnew)).trans hentry⟩
  | _ => simp [taken, localRefs, running, LocalsOk, linked, hpc]

/-- An event handler that owns the arguments can call JS_EnqueueJob wherever the main loop is. -/
theorem Queue.handler (h : Queue s es) (hcritical : s.critical = false) (job : JSJobEntry)
    (hjob : ∀ v ∈ job.argv, v.hasRefCount → 0 < s.held v) :
    ∃ t, s.step (.handlerEnqueue job) = some t ∧ Queue t (es ++ [(s.next, job)]) ∧
      s.enqueued <+: t.enqueued ∧ t.pc = s.pc := by
  obtain ⟨n, hfold, hn⟩ := foldlM_dupValue_eq fun v hv hcounted =>
    h.refCount_pos hcounted (.inl (hjob v hv hcounted))
  obtain ⟨p, hp, hring⟩ := h.append_ring h.next_pos h.next_not_mem job
  obtain ⟨htaken, hlocal, hrunning, hlocals⟩ := h.linked_locals hcritical job p n
  have hstep : s.step (.handlerEnqueue job) = some (s.linked job p n) := by
    have hall : job.argv.all fun v => !v.hasRefCount || decide (0 < s.held v) := by
      simpa [or_iff_not_imp_left] using hjob
    rw [step, if_pos ⟨by simp [hcritical], hall⟩, TaskQueue.handlerEnqueue, hfold]
    simp only [Option.bind_some, listAddTail, hp, Option.map_some]
    rfl
  refine ⟨_, hstep, ⟨hring, fun x hx => ?_, ?_, h.append_nodup h.next_not_mem job, fun x hx => ?_,
    Nat.succ_pos _, fun w hw => ?_, fun v hv hcounted => ?_, h.critical, hlocals⟩,
    List.prefix_append _ _, rfl⟩
  · rcases List.mem_append.mp hx with hx | hx
    · exact h.stored_frame h.next_not_mem _ x hx
    · obtain rfl : x = (s.next, job) := by simpa using hx
      exact update_self ..
  · rw [htaken]
    change s.enqueued ++ [(s.next, job)] = s.started ++ s.taken ++ (es ++ [(s.next, job)])
    rw [h.history, List.append_assoc]
  · rcases List.mem_append.mp hx with hx | hx
    · exact ⟨(h.fresh x hx).1, (h.fresh x hx).2.trans (Nat.lt_succ_self _)⟩
    · obtain rfl : x = (s.next, job) := by simpa using hx
      exact ⟨h.next_pos, Nat.lt_succ_self _⟩
  · have hcounted := h.counted w hw
    have hdupped := hn w hw
    rw [hlocal]
    change n w = s.held w + _ + _
    simp only [List.flatMap_append, List.flatMap_cons, List.flatMap_nil, List.append_nil,
      List.count_append]
    omega
  · rw [hrunning]
    exact h.pinned v hv hcounted

/-- What every step does: the queue is kept, no entry is forgotten, and the main loop is only
left when the list has run dry and all references of jobs have been given back. -/
structure Keeps (s t : TaskQueue) : Prop where
  queue : ∃ es, Queue t es
  grows : s.enqueued <+: t.enqueued
  leaves : s.InLoop → t.pc = .outside → listEmpty 0 s.links ∧ s.started = s.enqueued ∧
    ∀ v, v.hasRefCount → s.refCount v = s.held v

theorem Advances.keeps (h : Advances s t) : Keeps s t := by
  refine ⟨h.queue, h.grows, fun hloop hout => ?_⟩
  rcases h.leaves hloop with hin | ⟨-, hempty, -, hall, hcounts⟩
  · simp [InLoop, hout] at hin
  · exact ⟨hempty, hall, hcounts⟩

theorem InLoop.pc_ne (h : s.InLoop) : s.pc ≠ .outside := fun hout => by simp [InLoop, hout] at h

/-- The steps of script code and of event handlers. -/
theorem Queue.keeps (h : Queue t es) (hgrows : s.enqueued <+: t.enqueued)
    (hpc : s.InLoop → t.pc ≠ .outside) : Keeps s t :=
  ⟨⟨es, h⟩, hgrows, fun hloop hout => absurd hout (hpc hloop)⟩

theorem Queue.step (h : Queue s es) {l : Label} (hstep : s.step l = some t) : Keeps s t := by
  cases l with
  | main =>
    have hmain : s.mainStep = some t := hstep
    obtain ⟨u, hu, hadvances⟩ := h.main (fun hout => by simp [mainStep, hout] at hmain)
      fun e hjob => by simp [mainStep, hjob] at hmain
    obtain rfl := Option.some.inj (hu.symm.trans hmain)
    exact hadvances.keeps
  | doTasks =>
    obtain ⟨hqueue, hout, hsame⟩ := h.doTasks hstep
    exact hqueue.keeps (by rw [hsame]) fun hloop => absurd hout hloop.pc_ne
  | callEnqueue job =>
    obtain ⟨hqueue, ⟨caller, hpc⟩, hsame⟩ := h.callEnqueue hstep
    exact hqueue.keeps (by rw [hsame]) fun _ => by simp [hpc]
  | jobReturn res =>
    cases hpc : s.pc with
    | job e =>
      have hres : res.hasRefCount → 0 < s.held res := by
        intro hcounted
        simp only [TaskQueue.step, hpc, if_pos hcounted] at hstep
        split_ifs at hstep with hheld
        exact hheld
      obtain ⟨u, hu, hadvances⟩ := h.jobReturn hpc hres
      obtain rfl := Option.some.inj (hu.symm.trans hstep)
      exact hadvances.keeps
    | _ => simp [TaskQueue.step, hpc] at hstep
  | handlerEnqueue job =>
    have hstep' := hstep
    simp only [TaskQueue.step] at hstep'
    split_ifs at hstep' with hcond
    obtain ⟨u, hu, hqueue, hgrows, hpc⟩ := h.handler (by simpa using hcond.1) job
      (by simpa [or_iff_not_imp_left] using hcond.2)
    obtain rfl := Option.some.inj (hu.symm.trans hstep)
    exact hqueue.keeps hgrows fun hloop => hpc ▸ hloop.pc_ne
  | newValue v =>
    obtain ⟨hqueue, hpc, hsame⟩ := h.newValue hstep
    exact hqueue.keeps (by rw [hsame]) fun hloop => hpc ▸ hloop.pc_ne
  | dup v =>
    obtain ⟨hqueue, hpc, hsame⟩ := h.dup hstep
    exact hqueue.keeps (by rw [hsame]) fun hloop => hpc ▸ hloop.pc_ne
  | free v =>
    obtain ⟨hqueue, hpc, hsame⟩ := h.free hstep
    exact hqueue.keeps (by rw [hsame]) fun hloop => hpc ▸ hloop.pc_ne

end Others

theorem init_queue : Queue init [] where
  ring := .empty (by simp [init]) (by simp [init])
  stored := by simp
  history := rfl
  nodup := List.nodup_nil
  fresh := by simp [init]
  next_pos := Nat.one_pos
  counted _ _ := rfl
  pinned := by simp [pinned, init]
  critical := rfl
  locals := trivial

/-! ## The main loop ends -/

/-- The main loop on its own: every job returns, the one at `e` with an exception if
`throws e`. -/
def mainLoop (throws : Nat → Bool) : Nat → TaskQueue → Option TaskQueue
  | 0, s => some s
  | n + 1, s =>
    (s.step (match s.pc with
      | .job e => .jobReturn (if throws e then .exception else .undefined)
      | _ => .main)).bind (mainLoop throws n)

theorem Queue.next (throws : Nat → Bool) {s : TaskQueue} {es : List (Nat × JSJobEntry)}
    (h : Queue s es) (hloop : s.InLoop) : ∃ t, s.step (match s.pc with
      | .job e => .jobReturn (if throws e then .exception else .undefined)
      | _ => .main) = some t ∧ Advances s t := by
  cases hpc : s.pc with
  | job e =>
    refine h.jobReturn hpc fun hcounted => ?_
    split_ifs at hcounted <;> cases hcounted
  | _ => exact h.main hloop.pc_ne (by simp [hpc])

/-- The induction is on what remains, and between two jobs on the statements up to the next. -/
theorem Queue.mainLoop_ends (throws : Nat → Bool) {s : TaskQueue} {es : List (Nat × JSJobEntry)}
    (h : Queue s es) (hloop : s.InLoop) : ∃ n t, mainLoop throws n s = some t ∧
      t.pc = .outside ∧ t.started = t.enqueued ∧ s.enqueued <+: t.enqueued := by
  induction hr : s.remaining using Nat.strong_induction_on generalizing s es with
  | _ r ihr =>
    induction hk : s.rank using Nat.strong_induction_on generalizing s es with
    | _ k ihk =>
      obtain ⟨t, hstep, hadvances⟩ := h.next throws hloop
      obtain ⟨es', ht⟩ := hadvances.queue
      have hmore : (∃ n u, mainLoop throws n t = some u ∧ u.pc = .outside ∧
          u.started = u.enqueued ∧ t.enqueued <+: u.enqueued) →
          ∃ n u, mainLoop throws n s = some u ∧ u.pc = .outside ∧ u.started = u.enqueued ∧
            s.enqueued <+: u.enqueued := by
        rintro ⟨n, u, hrun, hout, hall, hgrows⟩
        exact ⟨n + 1, u, by rw [mainLoop, hstep]; exact hrun, hout, hall,
          hadvances.grows.trans hgrows⟩
      rcases hadvances.leaves hloop with hin | ⟨hout, -, hall, -, -⟩
      · rcases hadvances.descends with hless | ⟨hsame, hless⟩
        · exact hmore (ihr t.remaining (hr ▸ hless) ht hin rfl)
        · exact hmore (ihk t.rank (hk ▸ hless) ht hin (hsame.trans hr) rfl)
      · exact hmore ⟨0, t, rfl, hout, hall, List.prefix_rfl⟩

/-! ## The calls of JS_EnqueueJob -/

/-- The job of a call of JS_EnqueueJob that has not linked it in yet. -/
def calling (s : TaskQueue) : List JSJobEntry :=
  match s.pc with
  | .enqueue (.malloc job) _ | .enqueue (.dupArg _ job _) _ | .enqueue (.enterAdd _ job) _
  | .enqueue (.add _ job) _ => [job]
  | _ => []

/-- The job that script code, a job or an event handler passes to JS_EnqueueJob. -/
def Label.enqueues : Label → Option JSJobEntry
  | .callEnqueue job | .handlerEnqueue job => some job
  | _ => none

/-- The jobs that have been linked in or are about to be. -/
def passed (s : TaskQueue) : List JSJobEntry := s.enqueued.map Prod.snd ++ s.calling

section Calls

variable {s t : TaskQueue}

theorem passed_eq (henqueued : t.enqueued = s.enqueued) (hcalling : t.calling = s.calling) :
    t.passed = s.passed := by
  rw [passed, passed, henqueued, hcalling]

theorem dupValue_same {v : JSValue} (h : s.dupValue v = some t) :
    t.enqueued = s.enqueued ∧ t.pc = s.pc := by
  unfold dupValue at h
  split_ifs at h <;> obtain rfl := Option.some.inj h <;> exact ⟨rfl, rfl⟩

theorem freeValue_same {v : JSValue} (h : s.freeValue v = some t) :
    t.enqueued = s.enqueued ∧ t.pc = s.pc := by
  unfold freeValue at h
  split_ifs at h <;> obtain rfl := Option.some.inj h <;> exact ⟨rfl, rfl⟩

theorem foldlM_dupValue_same {vs : List JSValue} (h : vs.foldlM dupValue s = some t) :
    t.enqueued = s.enqueued ∧ t.pc = s.pc := by
  induction vs generalizing s with
  | nil =>
    obtain rfl : s = t := Option.some.inj h
    exact ⟨rfl, rfl⟩
  | cons v vs ih =>
    rw [List.foldlM_cons] at h
    obtain ⟨u, hu, hrest⟩ := Option.bind_eq_some_iff.mp h
    obtain ⟨henqueued, hpc⟩ := dupValue_same hu
    obtain ⟨henqueued', hpc'⟩ := ih hrest
    exact ⟨henqueued'.trans henqueued, hpc'.trans hpc⟩

/-- The statements of JS_EnqueueJob link in the job that the call is for, and only once. -/
theorem enqueueStep_passed {pos : EnqueuePc} {caller : Option Nat}
    (hpc : s.pc = .enqueue pos caller) (hstep : s.enqueueStep caller pos = some t) :
    t.passed = s.passed := by
  cases pos with
  | malloc job =>
    obtain rfl := Option.some.inj hstep
    exact passed_eq rfl (by simp [calling, hpc])
  | dupArg e job i =>
    simp only [enqueueStep] at hstep
    cases hv : job.argv[i]? with
    | none =>
      rw [hv] at hstep
      obtain rfl := Option.some.inj hstep
      exact passed_eq rfl (by simp [calling, hpc])
    | some v =>
      rw [hv] at hstep
      obtain ⟨u, hu, rfl⟩ := Option.map_eq_some_iff.mp hstep
      exact passed_eq (dupValue_same hu).1 (by simp [calling, hpc])
  | enterAdd e job =>
    obtain rfl := Option.some.inj hstep
    exact passed_eq rfl (by simp [calling, hpc])
  | add e job =>
    obtain ⟨links, -, rfl⟩ := Option.map_eq_some_iff.mp hstep
    simp [passed, calling, hpc]
  | exitAdd =>
    obtain rfl := Option.some.inj hstep
    refine passed_eq rfl ?_
    cases caller <;> simp [calling, hpc, resume]

/-- The statements outside JS_EnqueueJob link in nothing. -/
theorem mainStep_passed (hstep : s.mainStep = some t) : t.passed = s.passed := by
  cases hpc : s.pc with
  | enqueue pos caller =>
    rw [mainStep, hpc] at hstep
    exact enqueueStep_passed hpc hstep
  | outside | job => simp [mainStep, hpc] at hstep
  | readHead | del | call =>
    simp only [mainStep, hpc] at hstep
    obtain ⟨x, -, rfl⟩ := Option.map_eq_some_iff.mp hstep
    exact passed_eq rfl (by simp [calling, hpc])
  | freeRes =>
    simp only [mainStep, hpc] at hstep
    obtain ⟨u, hu, rfl⟩ := Option.map_eq_some_iff.mp hstep
    exact passed_eq (freeValue_same hu).1 (by simp [calling, hpc])
  | freeArg e i res =>
    simp only [mainStep, hpc] at hstep
    cases hv : (s.argv e)[i]? with
    | none =>
      rw [hv] at hstep
      obtain rfl := Option.some.inj hstep
      exact passed_eq rfl (by simp [calling, hpc])
    | some v =>
      rw [hv] at hstep
      obtain ⟨u, hu, rfl⟩ := Option.map_eq_some_iff.mp hstep
      exact passed_eq (freeValue_same hu).1 (by simp [calling, hpc])
  | freeEntry e err =>
    simp only [mainStep, hpc] at hstep
    split_ifs at hstep
    obtain rfl := Option.some.inj hstep
    exact passed_eq rfl (by simp [calling, hpc])
  | testPending | testEmpty =>
    simp only [mainStep, hpc] at hstep
    obtain rfl := Option.some.inj hstep
    refine passed_eq rfl ?_
    cases listEmpty 0 s.links <;> simp [calling, hpc]
  | _ =>
    simp only [mainStep, hpc] at hstep
    obtain rfl := Option.some.inj hstep
    exact passed_eq rfl (by simp [calling, hpc])

/-- A step passes the job of its label, if it has one. -/
theorem step_passed {l : Label} (hstep : s.step l = some t) :
    t.passed.Perm (s.passed ++ l.enqueues.toList) := by
  have hsame : t.passed = s.passed → l.enqueues = none →
      t.passed.Perm (s.passed ++ l.enqueues.toList) := fun hpassed hnone => by
    simp [hpassed, hnone]
  cases l with
  | main => exact hsame (mainStep_passed hstep) rfl
  | doTasks =>
    cases hpc : s.pc with
    | outside =>
      simp only [step, hpc, Option.some.injEq] at hstep
      subst hstep
      exact hsame (passed_eq rfl (by simp [calling, hpc])) rfl
    | _ => simp [step, hpc] at hstep
  | callEnqueue job =>
    simp only [step] at hstep
    split_ifs at hstep
    cases hpc : s.pc with
    | outside | job =>
      simp only [hpc, Option.some.injEq] at hstep
      subst hstep
      simp [passed, calling, hpc, Label.enqueues]
    | _ => simp [hpc] at hstep
  | jobReturn res =>
    cases hpc : s.pc with
    | job e =>
      simp only [step, hpc] at hstep
      split_ifs at hstep <;> obtain rfl := Option.some.inj hstep <;>
        exact hsame (passed_eq rfl (by simp [calling, hpc])) rfl
    | _ => simp [step, hpc] at hstep
  | handlerEnqueue job =>
    simp only [step] at hstep
    split_ifs at hstep
    obtain ⟨u, hu, hlink⟩ := Option.bind_eq_some_iff.mp hstep
    obtain ⟨links, -, rfl⟩ := Option.map_eq_some_iff.mp hlink
    obtain ⟨henqueued, hpc⟩ := foldlM_dupValue_same hu
    have hcalling : u.calling = s.calling := by simp only [calling, hpc]
    simp only [passed, henqueued, List.map_append, List.map_cons, List.map_nil, Label.enqueues,
      Option.toList_some, List.append_assoc]
    refine List.Perm.append_left _ ?_
    exact hcalling ▸ List.perm_append_comm
  | newValue v =>
    simp only [step] at hstep
    split_ifs at hstep
    obtain rfl := Option.some.inj hstep
    exact hsame rfl rfl
  | dup v =>
    simp only [step] at hstep
    split_ifs at hstep
    obtain ⟨u, hu, rfl⟩ := Option.map_eq_some_iff.mp hstep
    obtain ⟨henqueued, hpc⟩ := dupValue_same hu
    exact hsame (passed_eq henqueued (by simp [calling, setHeld, hpc])) rfl
  | free v =>
    simp only [step] at hstep
    split_ifs at hstep
    obtain ⟨u, hu, rfl⟩ := Option.map_eq_some_iff.mp hstep
    obtain ⟨henqueued, hpc⟩ := freeValue_same hu
    exact hsame (passed_eq henqueued (by simp [calling, setHeld, hpc])) rfl

/-- In every run the jobs that have been linked in, with the one of a call of JS_EnqueueJob that is
under way, are those passed to JS_EnqueueJob: a completed call has linked in its job, once. -/
theorem run_passed {ls : List Label} (hrun : Transition.run step init ls = some s) :
    s.passed.Perm (ls.filterMap Label.enqueues) := by
  suffices hfrom : ∀ (ls : List Label) (u : TaskQueue), Transition.run step u ls = some s →
      s.passed.Perm (u.passed ++ ls.filterMap Label.enqueues) from hfrom ls init hrun
  intro ls
  induction ls with
  | nil =>
    intro u hu
    obtain rfl : u = s := Option.some.inj hu
    simp
  | cons l ls ih =>
    intro u hu
    obtain ⟨v, hv, hrest⟩ := Transition.run_cons_eq_some hu
    refine (ih v hrest).trans (((step_passed hv).append_right _).trans (.of_eq ?_))
    cases hl : l.enqueues <;> simp [hl]

end Calls

/-! ## Every run -/

/-- The job list with its entries `es`, the history of the jobs, and the references to their
arguments. -/
structure FIFO (s : TaskQueue) (es : List (Nat × JSJobEntry)) : Prop where
  wellFormed : IsRing s.links 0 (es.map Prod.fst)
  stored : ∀ x ∈ es, s.entries x.1 = some x.2
  order : s.enqueued = s.started ++ s.taken ++ es
  once : (s.enqueued.map Prod.fst).Nodup
  alive : ∀ v, v.hasRefCount → v ∈ es.flatMap (fun x => x.2.argv) ∨ v ∈ s.localRefs →
    0 < s.refCount v
  released : ∀ v, v.hasRefCount →
    s.refCount v = s.held v + (es.flatMap fun x => x.2.argv).count v + s.localRefs.count v

theorem Queue.fifo {s : TaskQueue} {es : List (Nat × JSJobEntry)} (h : Queue s es) : FIFO s es where
  wellFormed := h.ring
  stored := h.stored
  order := h.history
  once := h.nodup
  alive v hv hmem := by
    have hcount := h.counted v hv
    rcases hmem with hmem | hmem
    · have := List.count_pos_iff.mpr hmem
      omega
    · exact h.refCount_pos_of_local hmem hv
  released := h.counted

theorem run_queue {ls : List Label} {s : TaskQueue} (hrun : Transition.run step init ls = some s) :
    ∃ es, Queue s es := by
  refine Transition.run_preserves (I := fun u => ∃ es, Queue u es) ⟨[], init_queue⟩
    (fun u l v hu hstep => ?_) hrun
  obtain ⟨es, h⟩ := hu
  exact (h.step hstep).queue

/-- In every run the jobs passed to JS_EnqueueJob are linked in, each by its own call, and called in
that order, each once and with its own arguments; neither the main loop nor an event handler ever
gets stuck; the main loop is left only when the list is empty; and from wherever it is, it calls
all jobs, whichever throw. -/
theorem doTasks_fifo {ls : List Label} {s : TaskQueue}
    (hrun : Transition.run step init ls = some s) :
    (∃ es, FIFO s es) ∧
    (s.enqueued.map Prod.snd ++ s.calling).Perm (ls.filterMap Label.enqueues) ∧
    (s.pc ≠ .outside → (∀ e, s.pc ≠ .job e) → (s.step .main).isSome) ∧
    (s.critical = false → ∀ job : JSJobEntry,
      (∀ v ∈ job.argv, v.hasRefCount → 0 < s.held v) → (s.step (.handlerEnqueue job)).isSome) ∧
    (∀ l t, s.step l = some t → s.InLoop → t.pc = .outside →
      listEmpty 0 s.links ∧ s.started = s.enqueued ∧
        ∀ v, v.hasRefCount → s.refCount v = s.held v) ∧
    (s.InLoop → ∀ throws, ∃ n t, mainLoop throws n s = some t ∧ t.pc = .outside ∧
      t.started = t.enqueued ∧ s.enqueued <+: t.enqueued) := by
  obtain ⟨es, h⟩ := run_queue hrun
  refine ⟨⟨es, h.fifo⟩, run_passed hrun, fun hout hjob => ?_, fun hcritical job hjob => ?_,
    fun l t hstep => (h.step hstep).leaves, fun hloop throws => h.mainLoop_ends throws hloop⟩
  · obtain ⟨t, hstep, -⟩ := h.main hout hjob
    exact Option.isSome_iff_exists.mpr ⟨t, hstep⟩
  · obtain ⟨t, hstep, -⟩ := h.handler hcritical job hjob
    exact Option.isSome_iff_exists.mpr ⟨t, hstep⟩

/-- An event handler links in a second job between the statement that reads the head and the
critical section that links the head out. -/
def preempted : List Label :=
  [.newValue (.string 0), .handlerEnqueue ⟨.script, [.string 0], none⟩, .doTasks, .main, .main,
    .main, .handlerEnqueue ⟨.timerContinuation, [.string 0], none⟩, .main, .main, .main, .main]

theorem doTasks_fifo_preempted :
    ∃ s, Transition.run step init preempted = some s ∧ ∃ es, FIFO s es :=
  have hrun : ∃ s, Transition.run step init preempted = some s := ⟨_, rfl⟩
  hrun.imp fun _ h => ⟨h, (doTasks_fifo h).1⟩

end TaskQueue

end IoQuickJS
