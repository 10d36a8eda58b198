import IoQuickJS.TaskQueue

/-!
# The job list is a queue

`Queue s es` is the invariant: the pointers of the job list run over the entries `es`, every
entry linked in so far has been called, is about to be called, or is one of `es`, in this order,
and the references counted for a value are those of the program, of the entries and of the main
loop's current statement. `main_spec` says what the next statement of the main loop does to it,
and that the main loop gets closer to its end.
-/
namespace IoQuickJS

open Function (update update_self update_of_ne)
open Ring (IsRing)

/-- The statements inside a critical section. -/
def MainPc.critical : MainPc → Bool
  | .del _ | .exitDel _ | .gc | .exitGC | .enqueue (.add ..) _ | .enqueue .exitAdd _ => true
  | _ => false

namespace TaskQueue

/-- The entry that has been linked out and not been called yet. -/
def taken (s : TaskQueue) : List (Nat × JSJobEntry) :=
  match s.pc with
  | .exitDel e | .call e => (s.entries e).elim [] fun job => [(e, job)]
  | _ => []

/-- The arguments that the job calling JS_EnqueueJob was called with. -/
def callerArgs (entries : Nat → Option JSJobEntry) (caller : Option Nat) : List JSValue :=
  caller.elim [] fun c => (entries c).elim [] JSJobEntry.argv

/-- The references that belong to the main loop's current statement. -/
def localRefs (s : TaskQueue) : List JSValue :=
  match s.pc with
  | .exitDel e | .call e | .job e => s.argv e
  | .freeArg e i res => (s.argv e).drop i ++ [res]
  | .freeRes _ res => [res]
  | .enqueue (.dupArg e _ _) caller | .enqueue (.enterAdd e _) caller
  | .enqueue (.add e _) caller => s.argv e ++ callerArgs s.entries caller
  | .enqueue _ caller => callerArgs s.entries caller
  | _ => []

/-- The function of the entry at `e` has been called. -/
def Called (s : TaskQueue) (e : Nat) : Prop := ∃ job, s.entries e = some job ∧ (e, job) ∈ s.started

/-- The entry at `e` has been allocated and not been linked in. -/
def Fresh (s : TaskQueue) (e : Nat) : Prop := 0 < e ∧ e < s.next ∧ e ∉ s.enqueued.map Prod.fst

/-- What holds of the local variables at the current statement. -/
def LocalsOk (s : TaskQueue) (es : List (Nat × JSJobEntry)) : Prop :=
  match s.pc with
  | .testEmpty | .readHead => es ≠ []
  | .enterDel e | .del e => es.head?.map Prod.fst = some e
  | .exitDel e | .call e => (s.entries e).isSome
  | .job e | .freeArg e _ _ | .freeRes e _ | .freeEntry e _ => s.Called e
  | .enqueue (.dupArg e job i) caller => (∀ c ∈ caller, s.Called c) ∧ s.Fresh e ∧
      s.entries e = some { job with argv := job.argv.take i }
  | .enqueue (.enterAdd e job) caller | .enqueue (.add e job) caller =>
      (∀ c ∈ caller, s.Called c) ∧ s.Fresh e ∧ s.entries e = some job
  | .enqueue _ caller => ∀ c ∈ caller, s.Called c
  | _ => True

structure Queue (s : TaskQueue) (es : List (Nat × JSJobEntry)) : Prop where
  ring : IsRing s.links 0 (es.map Prod.fst)
  stored : ∀ x ∈ es, s.entries x.1 = some x.2
  history : s.enqueued = s.started ++ s.taken ++ es
  nodup : (s.enqueued.map Prod.fst).Nodup
  fresh : ∀ x ∈ s.enqueued, 0 < x.1 ∧ x.1 < s.next
  next_pos : 0 < s.next
  counted : ∀ v, v.hasRefCount →
    s.refCount v = s.held v + (es.flatMap fun x => x.2.argv).count v + s.localRefs.count v
  pinned : ∀ v ∈ s.pinned, v.hasRefCount → 0 < s.held v ∨ v ∈ s.running
  critical : s.critical = s.pc.critical
  locals : s.LocalsOk es

/-- Script code outside io_js_do_tasks has had its turn. -/
def InLoop (s : TaskQueue) : Prop :=
  match s.pc with
  | .outside | .enqueue _ none => False
  | _ => True

/-! ## How far the main loop has got -/

/-- The jobs that have still to be called, with the one JS_EnqueueJob is at work on. -/
def remaining (s : TaskQueue) : Nat :=
  s.enqueued.length - s.started.length +
    match s.pc with
    | .enqueue .exitAdd _ => 0
    | .enqueue _ _ => 1
    | _ => 0

/-- A bound on the statements up to the next call of a job. -/
def rank (s : TaskQueue) : Nat :=
  match s.pc with
  | .outside => 0
  | .call _ => 1
  | .exitDel _ => 2
  | .del _ => 3
  | .enterDel _ => 4
  | .readHead => 5
  | .testEmpty => 6
  | .testPending => 7
  | .exitGC => 8
  | .gc => 9
  | .enterGC => 10
  | .testErr _ => 11
  | .freeEntry _ _ => 12
  | .freeRes _ _ => 13
  | .freeArg e i _ => 14 + ((s.argv e).length - i)
  | .job e => 15 + (s.argv e).length
  | .enqueue pos caller => 16 + (callerArgs s.entries caller).length +
      match pos with
      | .exitAdd => 0
      | .add _ _ => 1
      | .enterAdd _ _ => 2
      | .dupArg _ job i => 3 + (job.argv.length - i)
      | .malloc job => 4 + job.argv.length

/-- `t` is closer to the end of the main loop than `s`. -/
def Descends (s t : TaskQueue) : Prop :=
  t.remaining < s.remaining ∨ t.remaining = s.remaining ∧ t.rank < s.rank

/-- One statement of the main loop, or the return of a job: the invariant is kept, no entry is
forgotten, and the loop is only left when nothing remains. -/
structure Advances (s t : TaskQueue) : Prop where
  queue : ∃ es, Queue t es
  grows : s.enqueued <+: t.enqueued
  descends : Descends s t
  leaves : s.InLoop → t.InLoop ∨ t.pc = .outside ∧ listEmpty 0 s.links ∧ t.started = t.enqueued ∧
    s.started = s.enqueued ∧ ∀ v, v.hasRefCount → s.refCount v = s.held v

section Main

variable {s : TaskQueue} {es : List (Nat × JSJobEntry)}

theorem Queue.listEmpty_iff (h : Queue s es) : listEmpty 0 s.links = true ↔ es = [] := by
  unfold listEmpty
  rw [beq_iff_eq, h.ring.next_eq_head_iff, List.map_eq_nil_iff]

/-- The main loop at the statement `pc`. -/
def move (s : TaskQueue) (pc : MainPc) : TaskQueue := { s with critical := pc.critical, pc := pc }

/-- A statement that only moves on. -/
theorem Queue.move (h : Queue s es) (pc : MainPc) (htaken : (s.move pc).taken = s.taken)
    (hlocal : (s.move pc).localRefs = s.localRefs)
    (hpinned : ∀ v ∈ (s.move pc).pinned, v.hasRefCount → 0 < s.held v ∨ v ∈ (s.move pc).running)
    (hlocals : (s.move pc).LocalsOk es) : Queue (s.move pc) es where
  ring := h.ring
  stored := h.stored
  history := htaken ▸ h.history
  nodup := h.nodup
  fresh := h.fresh
  next_pos := h.next_pos
  counted v hv := hlocal ▸ h.counted v hv
  pinned := hpinned
  critical := rfl
  locals := hlocals

/-- A statement that does not touch the critical section. -/
theorem Queue.setPc (h : Queue s es) (pc : MainPc) (hpc : pc.critical = s.pc.critical) :
    { s with pc := pc } = s.move pc := by
  rw [TaskQueue.move, hpc, ← h.critical]

theorem freeValue_eq {v : JSValue} (hv : v.hasRefCount → 0 < s.refCount v) :
    ∃ n, s.freeValue v = some { s with refCount := n } ∧
      ∀ w, w.hasRefCount → n w + [v].count w = s.refCount w := by
  unfold freeValue
  by_cases hcounted : v.hasRefCount
  · have hpos := hv hcounted
    refine ⟨_, by rw [if_pos hcounted, if_pos hpos], fun w _ => ?_⟩
    by_cases hw : w = v
    · subst hw
      simp
      omega
    · simp [hw, Ne.symm hw]
  · refine ⟨s.refCount, by rw [if_neg hcounted], fun w hw => ?_⟩
    have hne : v ≠ w := by rintro rfl; exact hcounted hw
    simp [hne]

/-- A value the main loop refers to has not been freed. -/
theorem Queue.refCount_pos_of_local (h : Queue s es) {v : JSValue} (hv : v ∈ s.localRefs)
    (hcounted : v.hasRefCount) : 0 < s.refCount v := by
  have := List.count_pos_iff.mpr hv
  have := h.counted v hcounted
  omega

theorem Queue.advance (h : Queue s es) {pc : MainPc} (htaken : (s.move pc).taken = s.taken)
    (hlocal : (s.move pc).localRefs = s.localRefs)
    (hpinned : ∀ v ∈ (s.move pc).pinned, v.hasRefCount → 0 < s.held v ∨ v ∈ (s.move pc).running)
    (hlocals : (s.move pc).LocalsOk es) (hremaining : (s.move pc).remaining = s.remaining)
    (hrank : (s.move pc).rank < s.rank) (hleaves : s.InLoop → (s.move pc).InLoop) :
    Advances s (s.move pc) :=
  ⟨⟨es, h.move pc htaken hlocal hpinned hlocals⟩, List.prefix_rfl, .inr ⟨hremaining, hrank⟩,
    fun hloop => .inl (hleaves hloop)⟩

/-! ### io_js_do_tasks and JS_ExecutePendingJob -/

theorem Queue.testPending (h : Queue s es) (hpc : s.pc = .testPending) :
    ∃ t, s.mainStep = some t ∧ Advances s t := by
  have hstep : ∀ pc : MainPc, pc.critical = false →
      (if listEmpty 0 s.links then MainPc.outside else .testEmpty) = pc →
      s.mainStep = some (s.move pc) := by
    intro pc hcritical hif
    simp only [mainStep, hpc, hif]
    exact congrArg some (h.setPc _ (by rw [hpc, hcritical]; rfl))
  have htaken : s.taken = [] := by simp [taken, hpc]
  have hlocal : s.localRefs = [] := by simp [localRefs, hpc]
  by_cases hes : es = []
  · have hempty := h.listEmpty_iff.mpr hes
    refine ⟨_, hstep .outside rfl (if_pos hempty), ⟨es, ?_⟩, List.prefix_rfl, .inr ⟨?_, ?_⟩, ?_⟩
    · exact h.move _ (by rw [htaken]; rfl) (by rw [hlocal]; rfl) nofun trivial
    · simp [remaining, TaskQueue.move, hpc]
    · simp [rank, TaskQueue.move, hpc]
    · intro _
      have hall : s.started = s.enqueued := by simp [h.history, htaken, hes]
      refine .inr ⟨rfl, hempty, hall, hall, fun v hv => ?_⟩
      simpa [hes, hlocal] using h.counted v hv
  · have hempty := mt h.listEmpty_iff.mp hes
    refine ⟨_, hstep .testEmpty rfl (if_neg hempty), h.advance ?_ ?_ nofun hes ?_ ?_ ?_⟩
    · rw [htaken]; rfl
    · rw [hlocal]; rfl
    · simp [remaining, TaskQueue.move, hpc]
    · simp [rank, TaskQueue.move, hpc]
    · exact fun _ => trivial

theorem Queue.testEmpty (h : Queue s es) (hpc : s.pc = .testEmpty) :
    ∃ t, s.mainStep = some t ∧ Advances s t := by
  have hes : es ≠ [] := by simpa [LocalsOk, hpc] using h.locals
  have hempty : ¬ listEmpty 0 s.links = true := mt h.listEmpty_iff.mp hes
  refine ⟨s.move .readHead, ?_, h.advance ?_ ?_ nofun hes ?_ ?_ fun _ => trivial⟩
  · simp only [mainStep, hpc, if_neg hempty]
    exact congrArg some (h.setPc _ (by rw [hpc]; rfl))
  · simp [taken, TaskQueue.move, hpc]
  · simp [localRefs, TaskQueue.move, hpc]
  · simp [remaining, TaskQueue.move, hpc]
  · simp [rank, TaskQueue.move, hpc]

theorem Queue.readHead (h : Queue s es) (hpc : s.pc = .readHead) :
    ∃ t, s.mainStep = some t ∧ Advances s t := by
  have hes : es ≠ [] := by simpa [LocalsOk, hpc] using h.locals
  obtain ⟨x, rest, rfl⟩ := List.exists_cons_of_ne_nil hes
  refine ⟨s.move (.enterDel x.1), ?_, h.advance ?_ ?_ nofun rfl ?_ ?_ fun _ => trivial⟩
  · simp only [mainStep, hpc, h.ring.next_head, Option.map_some]
    exact congrArg some (h.setPc _ (by rw [hpc]; rfl))
  · simp [taken, TaskQueue.move, hpc]
  · simp [localRefs, TaskQueue.move, hpc]
  · simp [remaining, TaskQueue.move, hpc]
  · simp [rank, TaskQueue.move, hpc]

theorem Queue.enterDel (h : Queue s es) {e : Nat} (hpc : s.pc = .enterDel e) :
    ∃ t, s.mainStep = some t ∧ Advances s t := by
  have he : es.head?.map Prod.fst = some e := by simpa only [LocalsOk, hpc] using h.locals
  refine ⟨s.move (.del e), by simp only [mainStep, hpc]; rfl, h.advance ?_ ?_ nofun he ?_ ?_
    fun _ => trivial⟩
  · simp [taken, TaskQueue.move, hpc]
  · simp [localRefs, TaskQueue.move, hpc]
  · simp [remaining, TaskQueue.move, hpc]
  · simp [rank, TaskQueue.move, hpc]

/-- The head that was read outside the critical section is still the head inside it. -/
theorem Queue.del (h : Queue s es) {e : Nat} (hpc : s.pc = .del e) :
    ∃ t, s.mainStep = some t ∧ Advances s t := by
  have he : es.head?.map Prod.fst = some e := by simpa only [LocalsOk, hpc] using h.locals
  cases es with
  | nil => cases he
  | cons x es =>
    obtain rfl : x.1 = e := Option.some.inj he
    obtain ⟨n, hprev, hnext, hring⟩ := h.ring.tail
    have hstored := h.stored x (by simp)
    have htaken : s.taken = [] := by simp [taken, hpc]
    have hlocal : s.localRefs = [] := by simp [localRefs, hpc]
    have hstep : s.mainStep = some { s with
        links := (s.links.join 0 n).clear x.1, pc := .exitDel x.1 } := by
      simp only [mainStep, hpc, listDel, hprev, hnext, Option.map_some]
    refine ⟨_, hstep, ⟨es, ?_⟩, List.prefix_rfl, .inr ⟨?_, ?_⟩, fun _ => .inl trivial⟩
    · refine ⟨hring, fun y hy => h.stored y (by simp [hy]), ?_, h.nodup, h.fresh, h.next_pos,
        fun v hv => ?_, nofun, h.critical.trans (by rw [hpc]; rfl), ?_⟩
      · simp only [taken, hstored, Option.elim_some]
        simpa [htaken] using h.history
      · have := h.counted v hv
        rw [hlocal] at this
        simp only [localRefs, argv, hstored, Option.elim_some, List.flatMap_cons,
          List.count_append, List.count_nil] at this ⊢
        omega
      · simp [LocalsOk, hstored]
    · simp [remaining, hpc]
    · simp [rank, hpc]

theorem Queue.exitDel (h : Queue s es) {e : Nat} (hpc : s.pc = .exitDel e) :
    ∃ t, s.mainStep = some t ∧ Advances s t := by
  have he : (s.entries e).isSome := by simpa only [LocalsOk, hpc] using h.locals
  refine ⟨s.move (.call e), by simp only [mainStep, hpc]; rfl, h.advance ?_ ?_ nofun he ?_ ?_
    fun _ => trivial⟩
  · simp [taken, TaskQueue.move, hpc]
  · simp [localRefs, TaskQueue.move, hpc, argv]
  · simp [remaining, TaskQueue.move, hpc]
  · simp [rank, TaskQueue.move, hpc]

theorem Queue.call (h : Queue s es) {e : Nat} (hpc : s.pc = .call e) :
    ∃ t, s.mainStep = some t ∧ Advances s t := by
  have he : (s.entries e).isSome := by simpa only [LocalsOk, hpc] using h.locals
  obtain ⟨job, hjob⟩ := Option.isSome_iff_exists.mp he
  have htaken : s.taken = [(e, job)] := by simp [taken, hpc, hjob]
  have hhistory := h.history
  rw [htaken] at hhistory
  have hstep : s.mainStep = some { s with started := s.started ++ [(e, job)], pc := .job e } := by
    simp only [mainStep, hpc, hjob, Option.map_some]
  refine ⟨_, hstep, ⟨es, ?_⟩, List.prefix_rfl, .inl ?_, fun _ => .inl trivial⟩
  · refine ⟨h.ring, h.stored, ?_, h.nodup, h.fresh, h.next_pos, fun v hv => ?_, nofun,
      h.critical.trans (by rw [hpc]; rfl), ⟨job, hjob, by simp⟩⟩
    · simpa [taken] using hhistory
    · have := h.counted v hv
      simpa only [localRefs, hpc, argv] using this
  · simp only [remaining, hpc, hhistory, List.length_append, List.length_singleton]
    omega

theorem Queue.freeArg (h : Queue s es) {e i : Nat} {res : JSValue}
    (hpc : s.pc = .freeArg e i res) : ∃ t, s.mainStep = some t ∧ Advances s t := by
  have he : s.Called e := by simpa only [LocalsOk, hpc] using h.locals
  have htaken : s.taken = [] := by simp [taken, hpc]
  have hlocal : s.localRefs = (s.argv e).drop i ++ [res] := by simp [localRefs, hpc]
  cases hv : (s.argv e)[i]? with
  | none =>
    have hlen : (s.argv e).length ≤ i := by simpa using hv
    refine ⟨s.move (.freeRes e res), ?_, h.advance ?_ ?_ nofun he ?_ ?_ fun _ => trivial⟩
    · simp only [mainStep, hpc, hv]
      exact congrArg some (h.setPc _ (by rw [hpc]; rfl))
    · rw [htaken]; rfl
    · rw [hlocal, List.drop_eq_nil_of_le hlen]; rfl
    · simp [remaining, TaskQueue.move, hpc]
    · simp [rank, TaskQueue.move, hpc]
      omega
  | some v =>
    obtain ⟨hlt, hget⟩ := List.getElem?_eq_some_iff.mp hv
    have hdrop : (s.argv e).drop i = v :: (s.argv e).drop (i + 1) := by
      rw [← hget]; exact List.drop_eq_getElem_cons hlt
    obtain ⟨n, hfree, hn⟩ :=
      freeValue_eq (h.refCount_pos_of_local (v := v) (by simp [hlocal, hdrop]))
    have hstep : s.mainStep = some { s with refCount := n, pc := .freeArg e (i + 1) res } := by
      simp only [mainStep, hpc, hv, hfree, Option.map_some]
    refine ⟨_, hstep, ⟨es, ?_⟩, List.prefix_rfl, .inr ⟨?_, ?_⟩, fun _ => .inl trivial⟩
    · refine ⟨h.ring, h.stored, by rw [h.history, htaken]; rfl, h.nodup, h.fresh, h.next_pos,
        fun w hw => ?_, nofun, h.critical.trans (by rw [hpc]; rfl), he⟩
      have hcounted := h.counted w hw
      have hfreed := hn w hw
      rw [hlocal, hdrop, List.cons_append, ← List.singleton_append, List.count_append] at hcounted
      change n w = s.held w + _ + ((s.argv e).drop (i + 1) ++ [res]).count w
      omega
    · simp [remaining, hpc]
    · simp only [rank, hpc, argv] at hlt ⊢
      omega

theorem Queue.freeRes (h : Queue s es) {e : Nat} {res : JSValue} (hpc : s.pc = .freeRes e res) :
    ∃ t, s.mainStep = some t ∧ Advances s t := by
  have he : s.Called e := by simpa only [LocalsOk, hpc] using h.locals
  have htaken : s.taken = [] := by simp [taken, hpc]
  have hlocal : s.localRefs = [res] := by simp [localRefs, hpc]
  obtain ⟨n, hfree, hn⟩ := freeValue_eq (h.refCount_pos_of_local (v := res) (by simp [hlocal]))
  have hstep : s.mainStep = some { s with
      refCount := n, pc := .freeEntry e (if res = .exception then -1 else 1) } := by
    simp only [mainStep, hpc, hfree, Option.map_some]
  refine ⟨_, hstep, ⟨es, ?_⟩, List.prefix_rfl, .inr ⟨?_, ?_⟩, fun _ => .inl trivial⟩
  · refine ⟨h.ring, h.stored, by rw [h.history, htaken]; rfl, h.nodup, h.fresh, h.next_pos,
      fun w hw => ?_, nofun, h.critical.trans (by rw [hpc]; rfl), he⟩
    have hcounted := h.counted w hw
    have hfreed := hn w hw
    rw [hlocal] at hcounted
    change n w = s.held w + _ + 0
    omega
  · simp [remaining, hpc]
  · simp [rank, hpc]

/-- The entry of a job that has been called is not in the list any more. -/
theorem Queue.not_mem_of_called (h : Queue s es) {e : Nat} (he : s.Called e)
    {x : Nat × JSJobEntry} (hx : x ∈ es) : x.1 ≠ e := by
  rintro rfl
  obtain ⟨job, -, hmem⟩ := he
  have hnodup := h.nodup
  rw [h.history, List.map_append, List.map_append, List.append_assoc, List.nodup_append] at hnodup
  exact hnodup.2.2 _ (List.mem_map_of_mem hmem) _
    (List.mem_append_right _ (List.mem_map_of_mem hx)) rfl

theorem Queue.freeEntry (h : Queue s es) {e : Nat} {err : Int} (hpc : s.pc = .freeEntry e err) :
    ∃ t, s.mainStep = some t ∧ Advances s t := by
  have he : s.Called e := by simpa only [LocalsOk, hpc] using h.locals
  have hsome : (s.entries e).isSome := by
    obtain ⟨job, hjob, -⟩ := he
    simp [hjob]
  have htaken : s.taken = [] := by simp [taken, hpc]
  have hlocal : s.localRefs = [] := by simp [localRefs, hpc]
  have hstep : s.mainStep = some { s with
      entries := update s.entries e none, pc := .testErr err } := by
    simp only [mainStep, hpc, if_pos hsome]
  refine ⟨_, hstep, ⟨es, ?_⟩, List.prefix_rfl, .inr ⟨?_, ?_⟩, fun _ => .inl trivial⟩
  · refine ⟨h.ring, fun x hx => ?_, by rw [h.history, htaken]; rfl, h.nodup, h.fresh, h.next_pos,
      fun w hw => ?_, nofun, h.critical.trans (by rw [hpc]; rfl), trivial⟩
    · exact (update_of_ne (h.not_mem_of_called he hx) ..).trans (h.stored x hx)
    · have := h.counted w hw
      rwa [hlocal] at this
  · simp [remaining, hpc]
  · simp [rank, hpc]

/-- The rest of the loop's body: io_js_dump_error and the collection. -/
theorem Queue.collect (h : Queue s es) {pc pc' : MainPc} (hpc : s.pc = pc)
    (hpcs : (∃ err, pc = .testErr err) ∧ pc' = .enterGC ∨ pc = .enterGC ∧ pc' = .gc ∨
      pc = .gc ∧ pc' = .exitGC ∨ pc = .exitGC ∧ pc' = .testPending) :
    ∃ t, s.mainStep = some t ∧ Advances s t := by
  have hmove : s.mainStep = some (s.move pc') := by
    rcases hpcs with ⟨⟨err, rfl⟩, rfl⟩ | ⟨rfl, rfl⟩ | ⟨rfl, rfl⟩ | ⟨rfl, rfl⟩ <;>
      simp only [mainStep, hpc]
    · exact congrArg some (h.setPc _ (by rw [hpc]; rfl))
    · rfl
    · exact congrArg some (h.setPc _ (by rw [hpc]; rfl))
    · rfl
  refine ⟨_, hmove, ?_⟩
  rcases hpcs with ⟨⟨err, rfl⟩, rfl⟩ | ⟨rfl, rfl⟩ | ⟨rfl, rfl⟩ | ⟨rfl, rfl⟩ <;>
    exact h.advance (by simp [taken, TaskQueue.move, hpc])
      (by simp [localRefs, TaskQueue.move, hpc]) nofun trivial
      (by simp [remaining, TaskQueue.move, hpc]) (by simp [rank, TaskQueue.move, hpc])
      fun _ => trivial

/-! ### JS_EnqueueJob -/

theorem Queue.called_mem (h : Queue s es) {c : Nat} (hc : s.Called c) :
    c ∈ s.enqueued.map Prod.fst := by
  obtain ⟨job, -, hmem⟩ := hc
  exact List.mem_map.mpr ⟨(c, job), by simp [h.history, hmem], rfl⟩

theorem Queue.next_not_mem (h : Queue s es) : s.next ∉ s.enqueued.map Prod.fst := by
  intro hmem
  obtain ⟨x, hx, heq⟩ := List.mem_map.mp hmem
  have := (h.fresh x hx).2
  omega

theorem Queue.stored_frame (h : Queue s es) {a : Nat} (ha : a ∉ s.enqueued.map Prod.fst)
    (entry : Option JSJobEntry) : ∀ x ∈ es, update s.entries a entry x.1 = some x.2 := by
  intro x hx
  have hxa : x.1 ≠ a := by
    rintro rfl
    exact ha (List.mem_map_of_mem (by simp [h.history, hx]))
  exact (update_of_ne hxa ..).trans (h.stored x hx)

theorem Queue.called_frame (h : Queue s es) {a c : Nat} (ha : a ∉ s.enqueued.map Prod.fst)
    (hc : s.Called c) (entry : Option JSJobEntry) : update s.entries a entry c = s.entries c :=
  update_of_ne (fun hca => ha (by rw [← hca]; exact h.called_mem hc)) ..

theorem Queue.callerArgs_frame (h : Queue s es) {a : Nat} {caller : Option Nat}
    (ha : a ∉ s.enqueued.map Prod.fst) (hc : ∀ c ∈ caller, s.Called c)
    (entry : Option JSJobEntry) :
    callerArgs (update s.entries a entry) caller = callerArgs s.entries caller := by
  cases caller with
  | none => rfl
  | some c => simp only [callerArgs, Option.elim_some, h.called_frame ha (hc c rfl)]

theorem running_enqueue {pos : EnqueuePc} {caller : Option Nat}
    (hpc : s.pc = .enqueue pos caller) : s.running = callerArgs s.entries caller := by
  cases caller <;> simp [running, hpc, callerArgs, argv]

theorem inLoop_enqueue {pos : EnqueuePc} {caller : Option Nat}
    (hpc : s.pc = .enqueue pos caller) : s.InLoop ↔ caller.isSome := by
  cases caller <;> simp [InLoop, hpc]

theorem mem_localRefs_of_running {v : JSValue} (hv : v ∈ s.running) : v ∈ s.localRefs := by
  unfold running at hv
  split at hv
  · next e hpc => simpa [localRefs, hpc] using hv
  · next pos e hpc =>
    have hargs : v ∈ callerArgs s.entries (some e) := hv
    cases pos <;> simp [localRefs, hpc, hargs]
  · cases hv

theorem dupValue_eq {v : JSValue} (hv : v.hasRefCount → 0 < s.refCount v) :
    ∃ n, s.dupValue v = some { s with refCount := n } ∧
      ∀ w, w.hasRefCount → n w = s.refCount w + [v].count w := by
  unfold dupValue
  by_cases hcounted : v.hasRefCount
  · refine ⟨_, by rw [if_pos hcounted, if_pos (hv hcounted)], fun w _ => ?_⟩
    by_cases hw : w = v
    · subst hw
      simp
    · simp [hw, Ne.symm hw]
  · refine ⟨s.refCount, by rw [if_neg hcounted], fun w hw => ?_⟩
    have hne : v ≠ w := by rintro rfl; exact hcounted hw
    simp [hne]

/-- A value that something refers to has not been freed. -/
theorem Queue.refCount_pos (h : Queue s es) {v : JSValue} (hcounted : v.hasRefCount)
    (hv : 0 < s.held v ∨ v ∈ s.running) : 0 < s.refCount v := by
  have hcount := h.counted v hcounted
  rcases hv with hheld | hrunning
  · omega
  · have := List.count_pos_iff.mpr (mem_localRefs_of_running hrunning)
    omega

/-- What linking in a new entry makes of the list. -/
theorem Queue.append_ring (h : Queue s es) {a : Nat} (hpos : 0 < a)
    (ha : a ∉ s.enqueued.map Prod.fst) (job : JSJobEntry) :
    ∃ p, s.links.prev 0 = some p ∧
      IsRing ((s.links.join p a).join a 0) 0 ((es ++ [(a, job)]).map Prod.fst) := by
  have hnot : a ∉ 0 :: es.map Prod.fst := by
    rw [List.mem_cons, not_or]
    refine ⟨Nat.pos_iff_ne_zero.mp hpos, fun hmem => ha ?_⟩
    rw [h.history, List.map_append]
    exact List.mem_append_right _ hmem
  simpa using h.ring.append hnot

theorem Queue.append_nodup (h : Queue s es) {a : Nat} (ha : a ∉ s.enqueued.map Prod.fst)
    (job : JSJobEntry) : ((s.enqueued ++ [(a, job)]).map Prod.fst).Nodup := by
  rw [List.map_append, List.nodup_append]
  refine ⟨h.nodup, by simp, fun x hx y hy => ?_⟩
  obtain rfl : y = a := by simpa using hy
  exact fun hxy => ha (hxy ▸ hx)

theorem Queue.malloc (h : Queue s es) {job : JSJobEntry} {caller : Option Nat}
    (hpc : s.pc = .enqueue (.malloc job) caller) : ∃ t, s.mainStep = some t ∧ Advances s t := by
  have hc : ∀ c ∈ caller, s.Called c := by simpa only [LocalsOk, hpc] using h.locals
  have hnext := h.next_not_mem
  have hargs := h.callerArgs_frame hnext hc (some { job with argv := [] })
  have htaken : s.taken = [] := by simp [taken, hpc]
  have hstep : s.mainStep = some { s with
      next := s.next + 1
      entries := update s.entries s.next (some { job with argv := [] })
      pc := .enqueue (.dupArg s.next job 0) caller } := by
    simp only [mainStep, hpc, enqueueStep]
  refine ⟨_, hstep, ⟨es, ?_⟩, List.prefix_rfl, .inr ⟨?_, ?_⟩, fun hloop => .inl ?_⟩
  · refine ⟨h.ring, h.stored_frame hnext _, by rw [h.history, htaken]; rfl, h.nodup, fun x hx =>
      ⟨(h.fresh x hx).1, (h.fresh x hx).2.trans (Nat.lt_succ_self _)⟩, Nat.succ_pos _,
      fun w hw => ?_, fun v hv hcounted => ?_, h.critical.trans (by rw [hpc]; rfl), ?_⟩
    · have hcounted := h.counted w hw
      simp only [localRefs, hpc, ← hargs] at hcounted
      simpa [localRefs, argv] using hcounted
    · rw [running_enqueue rfl]
      change _ ∨ v ∈ callerArgs (update s.entries s.next _) caller
      rw [hargs, ← running_enqueue hpc]
      have hv' : v ∈ job.argv.drop 0 := hv
      exact h.pinned v (by simpa [TaskQueue.pinned, hpc] using hv') hcounted
    · refine ⟨fun c hcaller => ?_, ⟨h.next_pos, Nat.lt_succ_self _, hnext⟩, by simp⟩
      obtain ⟨entry, hentry, hmem⟩ := hc c hcaller
      exact ⟨entry, (h.called_frame hnext (hc c hcaller) _).trans hentry, hmem⟩
  · simp [remaining, hpc]
  · simp only [rank, hpc, hargs]
    omega
  · rwa [inLoop_enqueue rfl, ← inLoop_enqueue hpc]

theorem Queue.dupArg (h : Queue s es) {a i : Nat} {job : JSJobEntry} {caller : Option Nat}
    (hpc : s.pc = .enqueue (.dupArg a job i) caller) :
    ∃ t, s.mainStep = some t ∧ Advances s t := by
  obtain ⟨hc, hfresh, hentry⟩ := by simpa only [LocalsOk, hpc] using h.locals
  have htaken : s.taken = [] := by simp [taken, hpc]
  cases hv : job.argv[i]? with
  | none =>
    have hlen : job.argv.length ≤ i := by simpa using hv
    refine ⟨s.move (.enqueue (.enterAdd a job) caller), ?_, h.advance ?_ ?_ nofun ?_ ?_ ?_ ?_⟩
    · simp only [mainStep, hpc, enqueueStep, hv]
      exact congrArg some (h.setPc _ (by rw [hpc]; rfl))
    · rw [htaken]; rfl
    · simp [localRefs, TaskQueue.move, hpc, argv]
    · exact ⟨hc, hfresh, by rw [List.take_of_length_le hlen] at hentry; exact hentry⟩
    · simp [remaining, TaskQueue.move, hpc]
    · simp only [rank, TaskQueue.move, hpc]
      omega
    · intro hloop
      rwa [inLoop_enqueue rfl, ← inLoop_enqueue hpc]
  | some v =>
    obtain ⟨hlt, hget⟩ := List.getElem?_eq_some_iff.mp hv
    have hdrop : job.argv.drop i = v :: job.argv.drop (i + 1) := by
      rw [← hget]; exact List.drop_eq_getElem_cons hlt
    have hpinned : s.pinned = job.argv.drop i := by simp [TaskQueue.pinned, hpc]
    obtain ⟨n, hdup, hn⟩ := dupValue_eq fun hcounted =>
      h.refCount_pos hcounted (h.pinned v (by simp [hpinned, hdrop]) hcounted)
    have hmem := hfresh.2.2
    have hargs := h.callerArgs_frame hmem hc (some { job with argv := job.argv.take (i + 1) })
    have hstep : s.mainStep = some { s with
        refCount := n
        entries := update s.entries a (some { job with argv := job.argv.take (i + 1) })
        pc := .enqueue (.dupArg a job (i + 1)) caller } := by
      simp only [mainStep, hpc, enqueueStep, hv, hdup, Option.map_some, hentry,
        List.take_add_one, Option.toList_some]
    refine ⟨_, hstep, ⟨es, ?_⟩, List.prefix_rfl, .inr ⟨?_, ?_⟩, fun hloop => .inl ?_⟩
    · refine ⟨h.ring, h.stored_frame hmem _, by rw [h.history, htaken]; rfl, h.nodup, h.fresh,
        h.next_pos, fun w hw => ?_, fun u hu hcounted => ?_, h.critical.trans (by rw [hpc]; rfl),
        fun c hcaller => ?_, hfresh, by simp⟩
      · have hcounted := h.counted w hw
        have hdupped := hn w hw
        simp only [localRefs, hpc, argv, hentry, Option.elim_some, List.count_append, ← hargs]
          at hcounted
        simp only [localRefs, argv, update_self, Option.elim_some, List.count_append,
          List.take_add_one, hv, Option.toList_some]
        change n w = s.held w + _ + (_ + _ + (callerArgs (update s.entries a _) caller).count w)
        simp only [List.take_add_one, hv, Option.toList_some] at hcounted
        omega
      · rw [running_enqueue rfl]
        change _ ∨ u ∈ callerArgs (update s.entries a _) caller
        rw [hargs, ← running_enqueue hpc]
        have hu' : u ∈ job.argv.drop (i + 1) := hu
        exact h.pinned u (by simp [hpinned, hdrop, hu']) hcounted
      · obtain ⟨entry, hold, hstarted⟩ := hc c hcaller
        exact ⟨entry, (h.called_frame hmem (hc c hcaller) _).trans hold, hstarted⟩
    · simp [remaining, hpc]
    · simp only [rank, hpc, hargs]
      omega
    · rwa [inLoop_enqueue rfl, ← inLoop_enqueue hpc]

theorem Queue.enterAdd (h : Queue s es) {a : Nat} {job : JSJobEntry} {caller : Option Nat}
    (hpc : s.pc = .enqueue (.enterAdd a job) caller) :
    ∃ t, s.mainStep = some t ∧ Advances s t := by
  have hlocals := by simpa only [LocalsOk, hpc] using h.locals
  refine ⟨s.move (.enqueue (.add a job) caller), by simp only [mainStep, hpc, enqueueStep]; rfl,
    h.advance ?_ ?_ nofun hlocals ?_ ?_ ?_⟩
  · simp [taken, TaskQueue.move, hpc]
  · simp [localRefs, TaskQueue.move, hpc, argv]
  · simp [remaining, TaskQueue.move, hpc]
  · simp [rank, TaskQueue.move, hpc]
  · intro hloop
    rwa [inLoop_enqueue rfl, ← inLoop_enqueue hpc]

theorem Queue.add (h : Queue s es) {a : Nat} {job : JSJobEntry} {caller : Option Nat}
    (hpc : s.pc = .enqueue (.add a job) caller) : ∃ t, s.mainStep = some t ∧ Advances s t := by
  obtain ⟨hc, hfresh, hentry⟩ := by simpa only [LocalsOk, hpc] using h.locals
  have htaken : s.taken = [] := by simp [taken, hpc]
  obtain ⟨p, hp, hring⟩ := h.append_ring hfresh.1 hfresh.2.2 job
  have hstep : s.mainStep = some { s with
      links := (s.links.join p a).join a 0
      enqueued := s.enqueued ++ [(a, job)]
      pc := .enqueue .exitAdd caller } := by
    simp only [mainStep, hpc, enqueueStep, listAddTail, hp, Option.map_some, listAddBetween]
  refine ⟨_, hstep, ⟨es ++ [(a, job)], ?_⟩, List.prefix_append _ _, .inr ⟨?_, ?_⟩,
    fun hloop => .inl ?_⟩
  · refine ⟨hring, fun x hx => ?_, ?_, h.append_nodup hfresh.2.2 job, fun x hx => ?_, h.next_pos,
      fun w hw => ?_, nofun, h.critical.trans (by rw [hpc]; rfl), hc⟩
    · rcases List.mem_append.mp hx with hx | hx
      · exact h.stored x hx
      · obtain rfl : x = (a, job) := by simpa using hx
        exact hentry
    · rw [h.history, htaken]
      simp [taken]
    · rcases List.mem_append.mp hx with hx | hx
      · exact h.fresh x hx
      · obtain rfl : x = (a, job) := by simpa using hx
        exact ⟨hfresh.1, hfresh.2.1⟩
    · have hcounted := h.counted w hw
      simp only [localRefs, hpc, argv, hentry, Option.elim_some, List.count_append] at hcounted
      simp only [localRefs, List.flatMap_append, List.count_append, List.flatMap_cons,
        List.flatMap_nil, List.append_nil]
      omega
  · have := congrArg List.length h.history
    simp only [htaken, List.length_append, List.length_nil] at this
    simp only [remaining, hpc, List.length_append, List.length_singleton]
    omega
  · simp [rank, hpc]
  · rwa [inLoop_enqueue rfl, ← inLoop_enqueue hpc]

theorem Queue.exitAdd (h : Queue s es) {caller : Option Nat}
    (hpc : s.pc = .enqueue .exitAdd caller) : ∃ t, s.mainStep = some t ∧ Advances s t := by
  have hc : ∀ c ∈ caller, s.Called c := by simpa only [LocalsOk, hpc] using h.locals
  have hstep : s.mainStep = some (s.move (resume caller)) := by
    cases caller <;> simp only [mainStep, hpc, enqueueStep] <;> rfl
  refine ⟨_, hstep, ?_⟩
  cases caller with
  | none =>
    refine h.advance ?_ ?_ nofun trivial ?_ ?_ ?_
    · simp [taken, TaskQueue.move, hpc, resume]
    · simp [localRefs, TaskQueue.move, hpc, resume, callerArgs]
    · simp [remaining, TaskQueue.move, hpc, resume]
    · simp [rank, TaskQueue.move, hpc, resume]
    · simp [InLoop, hpc]
  | some e =>
    refine h.advance ?_ ?_ nofun (hc e rfl) ?_ ?_ fun _ => trivial
    · simp [taken, TaskQueue.move, hpc, resume]
    · simp [localRefs, TaskQueue.move, hpc, resume, callerArgs, argv]
    · simp [remaining, TaskQueue.move, hpc, resume]
    · simp [rank, TaskQueue.move, hpc, resume, callerArgs, argv]

/-- The next statement of the main loop is always defined. -/
theorem Queue.main (h : Queue s es) (hout : s.pc ≠ .outside) (hjob : ∀ e, s.pc ≠ .job e) :
    ∃ t, s.mainStep = some t ∧ Advances s t := by
  cases hpc : s.pc with
  | outside => exact absurd hpc hout
  | job e => exact absurd hpc (hjob e)
  | testPending => exact h.testPending hpc
  | testEmpty => exact h.testEmpty hpc
  | readHead => exact h.readHead hpc
  | enterDel e => exact h.enterDel hpc
  | del e => exact h.del hpc
  | exitDel e => exact h.exitDel hpc
  | call e => exact h.call hpc
  | freeArg e i res => exact h.freeArg hpc
  | freeRes e res => exact h.freeRes hpc
  | freeEntry e err => exact h.freeEntry hpc
  | testErr err => exact h.collect hpc (.inl ⟨⟨err, rfl⟩, rfl⟩)
  | enterGC => exact h.collect hpc (.inr (.inl ⟨rfl, rfl⟩))
  | gc => exact h.collect hpc (.inr (.inr (.inl ⟨rfl, rfl⟩)))
  | exitGC => exact h.collect hpc (.inr (.inr (.inr ⟨rfl, rfl⟩)))
  | enqueue pos caller =>
    cases pos with
    | malloc job => exact h.malloc hpc
    | dupArg a job i => exact h.dupArg hpc
    | enterAdd a job => exact h.enterAdd hpc
    | add a job => exact h.add hpc
    | exitAdd => exact h.exitAdd hpc

/-- A job returns, with an exception or not. -/
theorem Queue.jobReturn (h : Queue s es) {e : Nat} (hpc : s.pc = .job e) {res : JSValue}
    (hres : res.hasRefCount → 0 < s.held res) :
    ∃ t, s.step (.jobReturn res) = some t ∧ Advances s t := by
  have he : s.Called e := by simpa only [LocalsOk, hpc] using h.locals
  have htaken : s.taken = [] := by simp [taken, hpc]
  obtain ⟨m, hstep, hm⟩ : ∃ m, s.step (.jobReturn res) =
      some { s with held := m, pc := .freeArg e 0 res } ∧
      ∀ w, w.hasRefCount → m w + [res].count w = s.held w := by
    simp only [step, hpc]
    by_cases hcounted : res.hasRefCount
    · have hpos := hres hcounted
      refine ⟨_, by rw [if_pos hcounted, if_pos hpos]; rfl, fun w _ => ?_⟩
      by_cases hw : w = res
      · subst hw
        simp [setHeld]
        omega
      · simp [setHeld, hw, Ne.symm hw]
    · refine ⟨s.held, by rw [if_neg hcounted], fun w hw => ?_⟩
      have hne : res ≠ w := by rintro rfl; exact hcounted hw
      simp [hne]
  refine ⟨_, hstep, ⟨es, ?_⟩, List.prefix_rfl, .inr ⟨?_, ?_⟩, fun _ => .inl trivial⟩
  · refine ⟨h.ring, h.stored, by rw [h.history, htaken]; rfl, h.nodup, h.fresh, h.next_pos,
      fun w hw => ?_, nofun, h.critical.trans (by rw [hpc]; rfl), he⟩
    have hcounted := h.counted w hw
    have hmoved := hm w hw
    simp only [localRefs, hpc] at hcounted
    change s.refCount w = m w + _ + ((s.argv e).drop 0 ++ [res]).count w
    rw [List.drop_zero, List.count_append]
    omega
  · simp [remaining, hpc]
  · simp [rank, hpc, argv]

end Main

end TaskQueue

end IoQuickJS
