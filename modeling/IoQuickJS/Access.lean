import IoQuickJS.Machine
import IoQuickJS.Transfer

/-!
# What script code can get at

Script code gets at a value through its frames, the properties of objects, on_receive of a socket
and what jobs pass to the functions they call. The functions that resolve a promise are in none of
these places when they are made, and no step puts them there.

## Main results

* `step_accessible`: a step gives script code one new object at most and no other that it could
  not get at before.
* `jsNewPromiseCapability_confined`: of a new promise and the functions that resolve it that object
  is the promise.
-/
namespace IoQuickJS

open Function (update update_self update_of_ne update_apply)

/-! ## Releases -/

/-- `b` has nothing for script code that `a` does not have. -/
structure Releases (a b : JSRuntime) : Prop where
  next : b.next = a.next
  jobList : b.jobList = a.jobList
  running : b.running = a.running
  stack : b.stack = a.stack
  log : b.log = a.log
  prop : ∀ p v, v ∈ b.prop p → v ∈ a.prop p
  sockets : ∀ r s, b.sockets r = some s → a.sockets r = some s
  strings : ∀ p bytes, b.strings p = some bytes → a.strings p = some bytes

section Releases

variable {a b c : JSRuntime}

theorem Releases.refl (a : JSRuntime) : Releases a a :=
  ⟨rfl, rfl, rfl, rfl, rfl, fun _ _ => id, fun _ _ => id, fun _ _ => id⟩

theorem Releases.trans (h : Releases a b) (g : Releases b c) : Releases a c where
  next := g.next.trans h.next
  jobList := g.jobList.trans h.jobList
  running := g.running.trans h.running
  stack := g.stack.trans h.stack
  log := g.log.trans h.log
  prop p v hv := h.prop p v (g.prop p v hv)
  sockets r s hs := h.sockets r s (g.sockets r s hs)
  strings p bytes hp := h.strings p bytes (g.strings p bytes hp)

theorem foldl_releases {α : Type} {f : JSRuntime → α → JSRuntime}
    (hf : ∀ rt x, Releases rt (f rt x)) (xs : List α) (rt : JSRuntime) :
    Releases rt (xs.foldl f rt) := by
  induction xs generalizing rt with
  | nil => exact .refl rt
  | cons x xs ih => exact (hf rt x).trans (ih _)

theorem CountsOnly.releases (h : CountsOnly a b)
    (hstrings : ∀ p bytes, b.strings p = some bytes → a.strings p = some bytes) :
    Releases a b :=
  ⟨h.next, h.jobList, h.running, h.stack, h.log,
    fun p v hv => by simpa only [JSRuntime.prop, h.objects] using hv,
    fun r s hs => h.sockets ▸ hs, hstrings⟩

theorem jsDupValue_releases (rt : JSRuntime) (v : JSValue) : Releases rt (jsDupValue rt v) := by
  refine (jsDupValue_countsOnly rt v).releases fun p bytes hp => ?_
  unfold jsDupValue at hp
  split at hp <;> exact hp

theorem freeValueIn_releases (ph : GCPhase) (rt : JSRuntime) (v : JSValue) :
    Releases rt (freeValueIn ph rt v) := by
  refine (freeValueIn_countsOnly ph rt v).releases fun p bytes hp => ?_
  rw [freeValueIn_strings] at hp
  split at hp
  · cases hp
  · exact hp

/-- Work on timer records, the collector's lists and the like. -/
theorem Releases.of_same (hnext : b.next = a.next) (hjobList : b.jobList = a.jobList)
    (hrunning : b.running = a.running) (hstack : b.stack = a.stack) (hlog : b.log = a.log)
    (hobjects : b.objects = a.objects) (hsockets : b.sockets = a.sockets)
    (hstrings : b.strings = a.strings) : Releases a b :=
  ⟨hnext, hjobList, hrunning, hstack, hlog,
    fun p v hv => by simpa only [JSRuntime.prop, hobjects] using hv,
    fun r s hs => hsockets ▸ hs, fun p bytes hp => hstrings ▸ hp⟩

/-- An object that loses its properties or is freed. -/
theorem setObject_releases (rt : JSRuntime) (p : Nat) {o : Option JSObject}
    (ho : o.elim [] JSObject.prop = []) :
    Releases rt { rt with objects := update rt.objects p o } := by
  refine ⟨rfl, rfl, rfl, rfl, rfl, fun q v hv => ?_, fun _ _ => id, fun _ _ => id⟩
  simp only [JSRuntime.prop, update_apply] at hv
  split at hv
  · simp [ho] at hv
  · exact hv

theorem freeIoJsTimer_releases {free : JSRuntime → JSValue → JSRuntime}
    (hfree : ∀ rt v, Releases rt (free rt v)) (rt : JSRuntime) (r : Nat) (timer : JSIOTimer) :
    Releases rt (freeIoJsTimer free rt r timer) := by
  refine Releases.trans ?_ (foldl_releases hfree timer.slots _)
  exact .of_same rfl rfl rfl rfl rfl rfl rfl rfl

theorem finalizer_releases (ph : GCPhase) (rt : JSRuntime) (o : JSObject) :
    Releases rt (finalizer ph rt o) := by
  unfold finalizer ioJsTimerFinalizer jsIoSocketFinalizer
  split
  · split
    · exact .refl rt
    · split
      · exact .refl rt
      · split
        · exact .of_same rfl rfl rfl rfl rfl rfl rfl rfl
        · exact freeIoJsTimer_releases (freeValueIn_releases ph) rt _ _
  · split
    · exact .of_same rfl rfl rfl rfl rfl rfl rfl rfl
    · split
      · exact .refl rt
      · refine Releases.trans ?_ (foldl_releases (freeValueIn_releases ph) _ _)
        refine ⟨rfl, rfl, rfl, rfl, rfl, fun _ _ => id, fun r s hs => ?_, fun _ _ => id⟩
        simp only [update_apply] at hs
        split at hs
        · cases hs
        · exact hs
  · exact .refl rt

theorem freeObject_releases (ph : GCPhase) (rt : JSRuntime) (p : Nat) :
    Releases rt (freeObject ph rt p) := by
  unfold freeObject
  split
  · exact .refl rt
  · next o ho =>
    have hemptied := ((setObject_releases rt p (o := some JSObject.zombie) rfl).trans
      (foldl_releases (freeValueIn_releases ph) o.prop _)).trans (finalizer_releases ph _ o)
    have hremoved := hemptied.trans
      (c := removeGCObject _ p) (.of_same rfl rfl rfl rfl rfl rfl rfl rfl)
    dsimp only
    split
    · exact hremoved.trans (.of_same rfl rfl rfl rfl rfl rfl rfl rfl)
    · exact hremoved.trans ((setObject_releases _ p (o := none) rfl).trans
        (.of_same rfl rfl rfl rfl rfl rfl rfl rfl))

theorem freeZeroRefcountLoop_releases (n : Nat) (rt : JSRuntime) :
    Releases rt (freeZeroRefcountLoop n rt) := by
  induction n generalizing rt with
  | zero => exact .refl rt
  | succ n ih =>
    simp only [freeZeroRefcountLoop]
    split
    · exact .refl rt
    · exact (freeObject_releases .decref rt _).trans (ih _)

theorem jsFreeValueRT_releases (rt : JSRuntime) (v : JSValue) :
    Releases rt (jsFreeValueRT rt v) :=
  (freeValueIn_releases .decref rt v).trans (freeZeroRefcountLoop_releases _ _)

theorem markChildren_releases {f : JSRuntime → Nat → JSRuntime}
    (hf : ∀ rt p, Releases rt (f rt p)) (rt : JSRuntime) (p : Nat) :
    Releases rt (markChildren f rt p) := by
  refine foldl_releases (fun rt v => ?_) _ rt
  cases v with
  | object q => exact hf rt q
  | _ => exact .refl rt

theorem gcDecref_releases (rt : JSRuntime) : Releases rt (gcDecref rt) := by
  have hchild : ∀ rt p, Releases rt (gcDecrefChild rt p) := by
    intro rt p
    unfold gcDecrefChild moveToTmp
    dsimp only
    split <;> exact .of_same rfl rfl rfl rfl rfl rfl rfl rfl
  have hstep : ∀ rt p, Releases rt (gcDecrefStep rt p) := by
    intro rt p
    refine (markChildren_releases hchild rt p).trans ?_
    unfold gcDecrefStep moveToTmp
    dsimp only
    split <;> exact .of_same rfl rfl rfl rfl rfl rfl rfl rfl
  refine Releases.trans ?_ (foldl_releases hstep _ _)
  exact .of_same rfl rfl rfl rfl rfl rfl rfl rfl

theorem gcScanFrom_releases (fuel i : Nat) (rt : JSRuntime) :
    Releases rt (gcScanFrom fuel i rt) := by
  have hchild : ∀ rt p, Releases rt (gcScanIncrefChild rt p) := by
    intro rt p
    unfold gcScanIncrefChild
    dsimp only
    split <;> exact .of_same rfl rfl rfl rfl rfl rfl rfl rfl
  induction fuel generalizing i rt with
  | zero => exact .refl rt
  | succ fuel ih =>
    simp only [gcScanFrom]
    split
    · exact .refl rt
    · refine Releases.trans ?_ (ih _ _)
      refine Releases.trans ?_ (markChildren_releases hchild _ _)
      exact .of_same rfl rfl rfl rfl rfl rfl rfl rfl

theorem jsRunGC_releases (rt : JSRuntime) : Releases rt (jsRunGC rt) := by
  have hchild : ∀ rt p, Releases rt (gcScanIncrefChild2 rt p) := fun _ _ =>
    .of_same rfl rfl rfl rfl rfl rfl rfl rfl
  have hscan : ∀ rt, Releases rt (gcScan rt) := fun rt =>
    (gcScanFrom_releases _ 0 rt).trans (foldl_releases (markChildren_releases hchild) _ _)
  have hzombie : ∀ rt p, Releases rt (jsFreeRtObject rt p) := fun rt p =>
    (setObject_releases rt p (o := none) rfl).trans (.of_same rfl rfl rfl rfl rfl rfl rfl rfl)
  have hfree : ∀ rt, Releases rt (gcFreeCycles rt) := fun rt =>
    ((foldl_releases (freeObject_releases .removeCycles) _ rt).trans
      (foldl_releases hzombie _ _)).trans (.of_same rfl rfl rfl rfl rfl rfl rfl rfl)
  exact ((gcDecref_releases rt).trans (hscan _)).trans (hfree _)

end Releases

/-! ## What is accessible -/

/-- What a job passes to script code: the function it calls is not part of it, unless the job is
the script's own. -/
def JSJobEntry.passed (e : JSJobEntry) : List JSValue :=
  match e.jobFunc with
  | .timerContinuation => []
  | .socketContinuation => e.argv.tail
  | .script => e.argv

/-- Script code holds `v`, or gets it from an object it may hold, a socket or a job. -/
def Accessible (rt : JSRuntime) (v : JSValue) : Prop :=
  v ∈ rt.stack ∨ (∃ p, v ∈ rt.prop p) ∨
    (∃ r s, rt.sockets r = some s ∧ s.receiveCallback = v) ∨
    ∃ e, (e ∈ rt.jobList ∨ rt.running = some e) ∧ v ∈ e.passed

/-- In `b` script code can get at no object that it could not get at in `a`, but the one at `n`;
a promise that gets has returned since then is resolved by the object behind it. The old strings
are as they were. -/
structure Confined (n : Nat) (a b : JSRuntime) : Prop where
  next_le : a.next ≤ b.next
  running : b.running = a.running
  strings : ∀ p < a.next, ∀ bytes, b.strings p = some bytes → a.strings p = some bytes
  accessible : ∀ p, Accessible b (.object p) → Accessible a (.object p) ∨ p = n
  promises : ∀ r f, .getsPromise r f ∈ b.log → .getsPromise r f ∈ a.log ∨ f = .object (n + 1)

section Confined

variable {a b c rt : JSRuntime} {n : Nat}

theorem mem_stack_of_holds {p : Nat} (h : rt.holds (.object p)) : .object p ∈ rt.stack := by
  simpa [JSRuntime.holds, JSValue.hasRefCount] using h

theorem Confined.refl (a : JSRuntime) : Confined n a a :=
  ⟨Nat.le_refl _, rfl, fun _ _ _ => id, fun _ => .inl, fun _ _ => .inl⟩

theorem Confined.trans (h : Confined n a b) (g : Confined n b c) : Confined n a c where
  next_le := h.next_le.trans g.next_le
  running := g.running.trans h.running
  strings p hp bytes hbytes :=
    h.strings p hp bytes (g.strings p (hp.trans_le h.next_le) bytes hbytes)
  accessible p hacc := (g.accessible p hacc).elim (h.accessible p) .inr
  promises r f hf := (g.promises r f hf).elim (h.promises r f) .inr

/-- The constructor for work that leaves frames, jobs and the log alone. -/
theorem Confined.of_heap (hnext : a.next ≤ b.next) (hjobList : b.jobList = a.jobList)
    (hrunning : b.running = a.running) (hstack : b.stack = a.stack) (hlog : b.log = a.log)
    (hprop : ∀ p v, v ∈ b.prop p → v ∈ a.prop p)
    (hsockets : ∀ r s, b.sockets r = some s → s.receiveCallback = .undefined ∨
      ∃ t, a.sockets r = some t ∧ t.receiveCallback = s.receiveCallback)
    (hstrings : ∀ p < a.next, ∀ bytes, b.strings p = some bytes → a.strings p = some bytes) :
    Confined n a b := by
  refine ⟨hnext, hrunning, hstrings, fun p hacc => .inl ?_, fun r f hf => .inl (hlog ▸ hf)⟩
  rcases hacc with hv | ⟨q, hq⟩ | ⟨r, s, hs, hv⟩ | ⟨e, he, hv⟩
  · exact .inl (hstack ▸ hv)
  · exact .inr (.inl ⟨q, hprop q _ hq⟩)
  · rcases hsockets r s hs with hundefined | ⟨t, ht, hsame⟩
    · cases hundefined.symm.trans hv
    · exact .inr (.inr (.inl ⟨r, t, ht, hsame.trans hv⟩))
  · exact .inr (.inr (.inr ⟨e, by rwa [hjobList, hrunning] at he, hv⟩))

theorem Releases.confined (h : Releases a b) : Confined n a b :=
  .of_heap h.next.ge h.jobList h.running h.stack h.log h.prop
    (fun r s hs => .inr ⟨s, h.sockets r s hs, rfl⟩) fun p _ => h.strings p

/-- Work that touches none of it. -/
theorem Confined.of_same (hnext : a.next ≤ b.next) (hjobList : b.jobList = a.jobList)
    (hrunning : b.running = a.running) (hstack : b.stack = a.stack) (hlog : b.log = a.log)
    (hobjects : b.objects = a.objects) (hsockets : b.sockets = a.sockets)
    (hstrings : b.strings = a.strings) : Confined n a b :=
  .of_heap hnext hjobList hrunning hstack hlog
    (fun p v hv => by simpa only [JSRuntime.prop, hobjects] using hv)
    (fun r s hs => .inr ⟨s, hsockets ▸ hs, rfl⟩) fun p _ bytes hp => hstrings ▸ hp

theorem jsNewObjectClass_confined (rt : JSRuntime) (classId : JSClassID) :
    Confined n rt (jsNewObjectClass rt classId).1 := by
  refine .of_heap (Nat.le_succ _) rfl rfl rfl rfl (fun p v hv => ?_)
    (fun r s hs => .inr ⟨s, hs, rfl⟩) fun _ _ _ => id
  simp only [JSRuntime.prop, jsNewObjectClass, update_apply] at hv
  split at hv
  · cases hv
  · exact hv

theorem jsNewStringLen_confined (rt : JSRuntime) (bytes : List UInt8) :
    Confined n rt (jsNewStringLen rt bytes).1 := by
  refine .of_heap (Nat.le_succ _) rfl rfl rfl rfl (fun _ _ => id) (fun r s hs => .inr ⟨s, hs, rfl⟩)
    fun p hp bytes' hbytes => ?_
  simpa [jsNewStringLen, hp.ne] using hbytes

theorem jsSetOpaque_confined (rt : JSRuntime) (obj : JSValue) (r : Nat) :
    Confined n rt (jsSetOpaque rt obj r) := by
  cases obj with
  | object q =>
    refine .of_heap (Nat.le_refl _) rfl rfl rfl rfl (fun p v hv => ?_)
      (fun r s hs => .inr ⟨s, hs, rfl⟩) fun _ _ _ => id
    simp only [JSRuntime.prop, jsSetOpaque, update_apply] at hv
    split at hv
    · next heq =>
      subst heq
      cases ho : rt.objects p with
      | none => simp [ho] at hv
      | some o => simpa [JSRuntime.prop, ho] using hv
    · exact hv
  | _ => exact .refl rt

/-- A frame keeps what is accessible or new. -/
theorem push_confined {res : JSRuntime × JSValue} (h : Confined n a res.1)
    (hres : ∀ p, res.2 = .object p → Accessible a (.object p) ∨ p = n) :
    Confined n a (JSRuntime.push res) := by
  unfold JSRuntime.push
  split
  · refine ⟨h.next_le, h.running, h.strings, fun p hacc => ?_, h.promises⟩
    rcases hacc with hv | hrest
    · rcases List.mem_cons.mp hv with heq | hv
      · exact hres p heq.symm
      · exact h.accessible p (.inl hv)
    · exact h.accessible p (.inr hrest)
  · exact h

theorem modifyProp_confined (rt : JSRuntime) (q : Nat) {f : List JSValue → List JSValue}
    (hf : ∀ vs p, .object p ∈ f vs → .object p ∈ vs ∨ Accessible rt (.object p)) :
    Confined n rt (rt.modifyProp q f) := by
  refine ⟨Nat.le_refl _, rfl, fun _ _ _ => id, fun p hacc => .inl ?_, fun _ _ => .inl⟩
  rcases hacc with hv | ⟨p', hp'⟩ | hrest
  · exact .inl hv
  · simp only [JSRuntime.prop, JSRuntime.modifyProp, update_apply] at hp'
    split at hp'
    · cases ho : rt.objects q with
      | none => simp [ho] at hp'
      | some o =>
        rcases hf o.prop p (by simpa [ho] using hp') with hold | hacc
        · exact .inr (.inl ⟨q, by simpa [JSRuntime.prop, ho] using hold⟩)
        · exact hacc
    · exact .inr (.inl ⟨p', hp'⟩)
  · exact .inr (.inr hrest)

theorem addLog_confined (rt : JSRuntime) {x : Observation} (hx : ∀ r f, x ≠ .getsPromise r f) :
    Confined n rt { rt with log := rt.log ++ [x] } := by
  refine ⟨Nat.le_refl _, rfl, fun _ _ _ => id, fun _ => .inl, fun r f hf => .inl ?_⟩
  rcases List.mem_append.mp hf with hf | hf
  · exact hf
  · exact absurd (List.mem_singleton.mp hf).symm (hx r f)

theorem jsThrow_confined (rt : JSRuntime) (e : Option JSError) :
    Confined n rt { rt with currentException := e } :=
  .of_same (Nat.le_refl _) rfl rfl rfl rfl rfl rfl rfl

theorem jsEnqueueJob_confined (rt : JSRuntime) (jobFunc : JSJobFunc) (argv : List JSValue)
    (origin : Option Nat) (ok : Bool)
    (hpassed : ∀ p, .object p ∈ JSJobEntry.passed ⟨jobFunc, argv, origin⟩ →
      Accessible rt (.object p)) :
    Confined n rt (jsEnqueueJob rt jobFunc argv origin ok).1 := by
  cases ok with
  | false =>
    have hthrow := jsThrow_confined (n := n) rt (some .outOfMemory)
    exact hthrow.trans (addLog_confined _ (x := .jobLost origin) (by simp))
  | true =>
    have hdup := (foldl_releases jsDupValue_releases argv rt).confined (n := n)
    refine ⟨hdup.next_le, hdup.running, hdup.strings, fun p hacc => ?_, hdup.promises⟩
    rcases hacc with hv | hprop | hsocket | ⟨e, he | he, hv⟩
    · exact hdup.accessible p (.inl hv)
    · exact hdup.accessible p (.inr (.inl hprop))
    · exact hdup.accessible p (.inr (.inr (.inl hsocket)))
    · rcases List.mem_append.mp he with he | he
      · exact hdup.accessible p (.inr (.inr (.inr ⟨e, .inl he, hv⟩)))
      · obtain rfl := List.mem_singleton.mp he
        exact .inl (hpassed p hv)
    · exact hdup.accessible p (.inr (.inr (.inr ⟨e, .inr he, hv⟩)))

/-! ## Promises -/

/-- The properties of the objects a capability is made of: either function refers to the
promise. -/
theorem jsNewPromiseCapability_prop (rt : JSRuntime) (q : Nat) {v : JSValue}
    (h : v ∈ (jsNewPromiseCapability rt true).1.prop q) : v ∈ rt.prop q ∨ v = .object rt.next := by
  have hobjects : (jsNewPromiseCapability rt true).1.objects =
      update (update (update rt.objects rt.next (some ⟨.object, none, []⟩)) (rt.next + 1)
        (some ⟨.function, none, [.object rt.next]⟩)) (rt.next + 2)
        (some ⟨.function, none, [.object rt.next]⟩) := by
    simp [jsNewPromiseCapability, jsNewResolvingFunction, jsNewObjectClass, jsDupValue,
      JSValue.hasRefCount, JSRuntime.modifyProp]
  simp only [JSRuntime.prop, hobjects, update_apply] at h
  grind [JSRuntime.prop]

/-- Of a new promise and the functions that resolve it script code gets at the promise. -/
theorem jsNewPromiseCapability_confined (rt : JSRuntime) (ok : Bool) :
    Confined rt.next rt (jsNewPromiseCapability rt ok).1 := by
  cases ok with
  | false => exact jsThrow_confined rt _
  | true =>
    refine ⟨Nat.le_add_right rt.next 3, rfl, fun _ _ _ => id, fun p hacc => ?_, fun _ _ => .inl⟩
    rcases hacc with hstack | ⟨q, hq⟩ | hsocket | hjob
    · exact .inl (.inl hstack)
    · exact (jsNewPromiseCapability_prop rt q hq).imp (fun hold => .inr (.inl ⟨q, hold⟩))
        JSValue.object.inj
    · exact .inl (.inr (.inr (.inl hsocket)))
    · exact .inl (.inr (.inr (.inr hjob)))

theorem jsNewPromiseCapability_result {rt : JSRuntime} {ok : Bool} (p : Nat)
    (h : (jsNewPromiseCapability rt ok).2.1 = .object p) :
    Accessible rt (.object p) ∨ p = rt.next := by
  cases ok with
  | true => exact .inr (JSValue.object.inj h).symm
  | false => cases h

/-! ## The functions of the port -/

theorem modifyTimer_confined (rt : JSRuntime) (r : Nat) (f : JSIOTimer → JSIOTimer) :
    Confined n rt (modifyTimer rt r f) :=
  .of_same (Nat.le_refl _) rfl rfl rfl rfl rfl rfl rfl

theorem modifySocket_confined (rt : JSRuntime) (r : Nat) {f : IoJsIoSocket → IoJsIoSocket}
    (hf : ∀ s p, (f s).receiveCallback = .object p →
      (f s).receiveCallback = s.receiveCallback ∨ Accessible rt (.object p)) :
    Confined n rt (modifySocket rt r f) := by
  refine ⟨Nat.le_refl _, rfl, fun _ _ _ => id, fun p hacc => .inl ?_, fun _ _ => .inl⟩
  rcases hacc with hv | hprop | ⟨q, s, hs, hv⟩ | hjob
  · exact .inl hv
  · exact .inr (.inl hprop)
  · simp only [modifySocket, update_apply] at hs
    split at hs
    · obtain ⟨t, ht, rfl⟩ := Option.map_eq_some_iff.mp hs
      rcases hf t p hv with hsame | hacc
      · exact .inr (.inr (.inl ⟨r, t, ht, hsame.symm.trans hv⟩))
      · exact hacc
    · exact .inr (.inr (.inl ⟨q, s, hs, hv⟩))
  · exact .inr (.inr (.inr hjob))

theorem ioJsSetTimeout_confined (rt : JSRuntime) (func : JSValue) (delayOk objOk tmrOk : Bool) :
    Confined rt.next rt (JSRuntime.push (ioJsSetTimeout rt func delayOk objOk tmrOk)) := by
  have hnew := jsNewObjectClass_confined (n := rt.next) rt .ioTimer
  unfold ioJsSetTimeout
  split_ifs
  · exact push_confined (jsThrow_confined rt _) (by simp [jsThrowTypeError])
  · exact push_confined (jsThrow_confined rt _) (by simp)
  · exact push_confined (jsThrow_confined rt _) (by simp [jsThrowOutOfMemory])
  · refine push_confined ?_ (by simp)
    exact (hnew.trans (jsThrow_confined _ _)).trans (jsFreeValueRT_releases _ _).confined
  · refine push_confined ?_ fun p heq => .inr (JSValue.object.inj heq).symm
    have hdup := hnew.trans (jsDupValue_releases _ func).confined
    let res := newIOTimer (jsDupValue (jsNewObjectClass rt .ioTimer).1 func) func .undefined
      .setTimeout
    have hrecord : Confined rt.next rt res.1 :=
      hdup.trans (.of_same (Nat.le_succ _) rfl rfl rfl rfl rfl rfl rfl)
    have halarm := hrecord.trans (modifyTimer_confined _ res.2 fun t => { t with alarm := true })
    have hobject := halarm.trans
      (modifyTimer_confined _ res.2 fun t => { t with hasObject := true })
    exact (hobject.trans (jsSetOpaque_confined _ (.object rt.next) res.2)).trans
      (addLog_confined _ (by simp))

theorem ioJsClearTimeout_confined (rt : JSRuntime) (t : JSValue) :
    Confined n rt (JSRuntime.push (ioJsClearTimeout rt t)) := by
  unfold ioJsClearTimeout jsGetOpaque2
  cases rt.getOpaque t .ioTimer with
  | none => exact push_confined (jsThrow_confined rt _) (by simp)
  | some r =>
    have hdequeue := modifyTimer_confined (n := n) rt r fun tmr => { tmr with alarm := false }
    exact push_confined (hdequeue.trans (addLog_confined _ (by simp))) (by simp)

theorem ioJsAfter_confined {rt : JSRuntime} {capOk delayOk tmrOk : Bool}
    {res : JSRuntime × JSValue} (h : ioJsAfter rt capOk delayOk tmrOk = some res) :
    Confined rt.next rt (JSRuntime.push res) := by
  have hcap := jsNewPromiseCapability_confined rt capOk
  have hresult := @jsNewPromiseCapability_result rt capOk
  unfold ioJsAfter at h
  generalize jsNewPromiseCapability rt capOk = cap at h hcap hresult
  obtain ⟨mid, after, resolvingFuncs⟩ := cap
  dsimp only at h
  split_ifs at h
  · obtain rfl := Option.some.inj h
    exact push_confined (hcap.trans (jsThrow_confined mid _)) (by simp)
  · obtain rfl := Option.some.inj h
    refine push_confined ?_ (by simp)
    exact (hcap.trans (jsThrow_confined mid _)).trans (jsFreeValueRT_releases _ _).confined
  · split at h
    · cases h
    · next resolve reject =>
      obtain rfl := Option.some.inj h
      refine push_confined ?_ hresult
      have hrecord : Confined rt.next rt (newIOTimer mid resolve reject .after).1 :=
        hcap.trans (.of_same (Nat.le_succ _) rfl rfl rfl rfl rfl rfl rfl)
      exact (hrecord.trans (modifyTimer_confined _ _ _)).trans (addLog_confined _ (by simp))

theorem enqueueTimer_confined (rt : JSRuntime) (func : JSValue) (r : Nat) (enqOk : Bool) :
    Confined n rt (ioJsEnqueueTask rt .timerContinuation [func] (some r) enqOk).1 :=
  jsEnqueueJob_confined rt _ _ _ enqOk fun p hp => by simp [JSJobEntry.passed] at hp

theorem deliverTimeout_confined {rt rt' : JSRuntime} {r : Nat} {enqOk : Bool}
    (h : deliverTimeout rt r enqOk = some rt') : Confined n rt rt' := by
  have htaken : Confined n rt { rt with events := rt.events.erase r } :=
    .of_same (Nat.le_refl _) rfl rfl rfl rfl rfl rfl rfl
  unfold deliverTimeout at h
  split_ifs at h
  dsimp only at h
  generalize { rt with events := rt.events.erase r } = mid at h htaken
  refine htaken.trans ?_
  split at h
  · unfold ioJsSetTimeoutOnTimeout at h
    split at h
    · cases h
    · next tmr ht =>
      dsimp only at h
      have htake := modifyTimer_confined (n := n) mid r fun t => { t with resolve := .undefined }
      split at h
      · split at h
        · obtain rfl := Option.some.inj h
          exact (htake.trans (enqueueTimer_confined _ _ _ _)).trans
            (jsFreeValueRT_releases _ _).confined
        · cases h
      · have hfreed := htake.trans
          (freeIoJsTimer_releases jsFreeValueRT_releases _ r
            { tmr with resolve := .undefined }).confined
        split at h
        · obtain rfl := Option.some.inj h
          exact (hfreed.trans (enqueueTimer_confined _ _ _ _)).trans
            (jsFreeValueRT_releases _ _).confined
        · cases h
  · unfold ioJsAfterOnTimeout at h
    split at h
    · cases h
    · split at h
      · obtain rfl := Option.some.inj h
        exact (enqueueTimer_confined _ _ _ _).trans
          (freeIoJsTimer_releases jsFreeValueRT_releases _ _ _).confined
      · cases h
  · cases h

theorem jsIoSocketConstructor_confined (rt : JSRuntime) (handle : Nat) (objOk : Bool) :
    Confined rt.next rt (JSRuntime.push (jsIoSocketConstructor rt handle objOk)) := by
  unfold jsIoSocketConstructor
  split_ifs
  · exact push_confined (jsThrow_confined rt _) (by simp [jsThrowOutOfMemory])
  · refine push_confined ?_ fun p heq => .inr (JSValue.object.inj heq).symm
    have hrecord : Confined rt.next (jsNewObjectClass rt .ioSocket).1
        { (jsNewObjectClass rt .ioSocket).1 with
          next := rt.next + 2
          sockets := update rt.sockets (rt.next + 1)
            (some ⟨handle, .undefined, .undefined, .undefined⟩) } := by
      refine .of_heap (Nat.le_succ _) rfl rfl rfl rfl (fun _ _ => id) (fun r s hs => ?_)
        fun _ _ _ => id
      simp only [update_apply] at hs
      split at hs
      · obtain rfl := Option.some.inj hs
        exact .inl rfl
      · exact .inr ⟨s, hs, rfl⟩
    exact ((jsNewObjectClass_confined rt .ioSocket).trans hrecord).trans
      (jsSetOpaque_confined _ (.object rt.next) (rt.next + 1))

/-- A call with a `this` that is not a socket object. -/
theorem ioPanic_confined (rt : JSRuntime) (message : String) :
    Confined n rt (JSRuntime.push (ioPanic (jsThrowTypeError rt message).1, .undefined)) :=
  push_confined (.of_same (Nat.le_refl _) rfl rfl rfl rfl rfl rfl rfl) (by simp)

theorem jsIoSocketGetReceive_confined (rt : JSRuntime) (this : JSValue) :
    Confined n rt (JSRuntime.push (jsIoSocketGetReceive rt this)) := by
  unfold jsIoSocketGetReceive jsGetOpaque2
  cases rt.getOpaque this .ioSocket with
  | none => exact ioPanic_confined rt _
  | some r =>
    refine push_confined (jsDupValue_releases rt _).confined fun p heq => .inl ?_
    dsimp only at heq
    cases hs : rt.sockets r with
    | none => simp [hs] at heq
    | some s => exact .inr (.inr (.inl ⟨r, s, hs, by simpa [hs] using heq⟩))

theorem jsIoSocketSetReceive_confined {rt : JSRuntime} {this value : JSValue}
    (hvalue : rt.holds value) :
    Confined n rt (JSRuntime.push (jsIoSocketSetReceive rt this value)) := by
  unfold jsIoSocketSetReceive jsGetOpaque2
  cases rt.getOpaque this .ioSocket with
  | none => exact ioPanic_confined rt _
  | some r =>
    have hempty : Confined n rt
        (modifySocket rt r fun s => { s with receiveCallback := .undefined }) :=
      modifySocket_confined rt r (by simp)
    dsimp only
    split_ifs
    · refine push_confined ?_ (by simp)
      have hfree := (jsFreeValueRT_releases
        (modifySocket rt r fun s => { s with receiveCallback := .undefined })
        ((rt.sockets r).elim .undefined IoJsIoSocket.receiveCallback)).trans
        (jsDupValue_releases _ value)
      refine (hempty.trans hfree.confined).trans (modifySocket_confined _ r fun s p hp => .inr ?_)
      obtain rfl : value = .object p := hp
      exact .inl (hfree.stack ▸ mem_stack_of_holds hvalue)
    · exact push_confined hempty (by simp)
    · exact push_confined (jsThrow_confined rt _) (by simp [jsThrowTypeError])

theorem jsIoSocketGets_confined (rt : JSRuntime) (this : JSValue) (ok : Bool) :
    Confined rt.next rt (JSRuntime.push (jsIoSocketGets rt this ok)) := by
  unfold jsIoSocketGets jsGetOpaque2
  cases rt.getOpaque this .ioSocket with
  | none => exact ioPanic_confined rt _
  | some r =>
    have hcap := jsNewPromiseCapability_confined rt ok
    dsimp only
    split_ifs
    · cases ok with
      | false => exact push_confined hcap (by simp [jsNewPromiseCapability, jsThrowOutOfMemory])
      | true =>
        refine push_confined ?_ fun p heq => .inr (JSValue.object.inj heq).symm
        have hstore := hcap.trans (modifySocket_confined _ r (f := fun s =>
          { s with asyncGets0 := .object (rt.next + 1), asyncGets1 := .object (rt.next + 2) })
          fun s p _ => .inl rfl)
        refine ⟨hstore.next_le, hstore.running, hstore.strings, hstore.accessible, fun q f hf => ?_⟩
        rcases List.mem_append.mp hf with hf | hf
        · exact hstore.promises q f hf
        · exact .inr (Observation.getsPromise.inj (List.mem_singleton.mp hf)).2
    · exact push_confined (jsThrow_confined rt _) (by simp [jsThrowTypeError])

theorem jsIoSocketReceiveCallback_confined {rt rt' : JSRuntime} {r : Nat} {bytes : List UInt8}
    {strOk enqOk : Bool} (h : jsIoSocketReceiveCallback rt r bytes strOk enqOk = some rt') :
    Confined n rt rt' := by
  unfold jsIoSocketReceiveCallback at h
  split at h
  · cases h
  · next this hs =>
    dsimp only at h
    generalize (if this.receiveCallback ≠ .undefined then this.receiveCallback
      else this.asyncGets0) = func at h
    split at h
    · obtain rfl := Option.some.inj h
      exact .refl rt
    · have hstring : ∃ mid str, (if strOk then jsNewStringLen rt bytes else jsThrowOutOfMemory rt) =
          (mid, str) ∧ Confined n rt mid ∧ ∀ p, str ≠ .object p := by
        cases strOk with
        | true => exact ⟨_, _, rfl, jsNewStringLen_confined rt bytes, by simp⟩
        | false => exact ⟨_, _, rfl, jsThrow_confined rt _, by simp⟩
      obtain ⟨mid, str, heq, hmid, hstr⟩ := hstring
      rw [heq] at h
      dsimp only at h
      split at h
      · obtain rfl := Option.some.inj h
        refine Confined.trans ?_ (foldl_releases jsFreeValueRT_releases _ _).confined
        refine Confined.trans ?_ (modifySocket_confined _ r fun s p _ => .inl rfl)
        refine hmid.trans (jsEnqueueJob_confined mid _ _ none enqOk fun p hp => ?_)
        exact absurd (by simpa [JSJobEntry.passed] using hp) (hstr p).symm
      · cases h

theorem receiveChunks_confined {rt rt' : JSRuntime} {r : Nat} {chunks : List (List UInt8)}
    {mem : List (Bool × Bool)} (h : receiveChunks r rt chunks mem = some rt') :
    Confined n rt rt' := by
  induction chunks generalizing rt mem with
  | nil =>
    obtain rfl := Option.some.inj h
    exact .refl rt
  | cons chunk chunks ih =>
    obtain ⟨mid, hmid, hrest⟩ := Option.bind_eq_some_iff.mp h
    exact (jsIoSocketReceiveCallback_confined hmid).trans (ih hrest)

/-- The end of a job releases its arguments. -/
theorem jsFinishPendingJob_confined {rt rt' : JSRuntime} (h : jsFinishPendingJob rt = some rt') :
    rt.running ≠ none ∧ Confined n { rt with running := none } rt' := by
  unfold jsFinishPendingJob at h
  split at h
  · cases h
  · next e hrunning =>
    obtain rfl := Option.some.inj h
    exact ⟨by simp [hrunning], (foldl_releases jsFreeValueRT_releases e.argv _).confined⟩

end Confined

/-! ## Steps -/

/-- Of the arguments of the running job script code uses those that are passed to it. -/
def LoadsPassed (rt : JSRuntime) : Label → Prop
  | .loadArgument v => ∀ e, rt.running = some e → v ∈ e.passed
  | _ => True

/-- Every step but the start and the end of a job is confined to what script code can get at and
one new object. -/
theorem step_confined {rt rt' : JSRuntime} {l : Label} (hl : LoadsPassed rt l)
    (hstart : l ≠ .startJob) (hend : l ≠ .endJob) (hstep : step rt l = some rt') :
    Confined rt.next rt rt' := by
  cases l with
  | newObject classId =>
    simp only [step] at hstep
    split_ifs at hstep
    obtain rfl := Option.some.inj hstep
    exact push_confined (jsNewObjectClass_confined rt classId) fun p heq =>
      .inr (JSValue.object.inj heq).symm
  | newString bytes =>
    obtain rfl := Option.some.inj hstep
    exact push_confined (jsNewStringLen_confined rt bytes) (by simp [jsNewStringLen])
  | dup v =>
    simp only [step] at hstep
    split_ifs at hstep with hv
    obtain rfl := Option.some.inj hstep
    refine @push_confined _ _ (jsDupValue rt v, v) (jsDupValue_releases rt v).confined ?_
    rintro p rfl
    exact .inl (.inl hv)
  | drop v =>
    simp only [step] at hstep
    split_ifs at hstep with hv
    obtain rfl := Option.some.inj hstep
    refine Confined.trans ?_ (jsFreeValueRT_releases _ v).confined
    refine ⟨Nat.le_refl _, rfl, fun _ _ _ => id, fun p hacc => .inl ?_, fun _ _ => .inl⟩
    exact hacc.imp_left List.mem_of_mem_erase
  | setProperty q v =>
    simp only [step] at hstep
    split_ifs at hstep with hv
    obtain rfl := Option.some.inj hstep
    have hdup := jsDupValue_releases rt v
    refine hdup.confined.trans (modifyProp_confined _ q fun vs p hp => ?_)
    rcases List.mem_append.mp hp with hold | hnew
    · exact .inl hold
    · obtain rfl := List.mem_singleton.mp hnew
      exact .inr (.inl (hdup.stack ▸ mem_stack_of_holds hv.2))
  | getProperty q v =>
    simp only [step] at hstep
    split_ifs at hstep with hv
    obtain rfl := Option.some.inj hstep
    refine @push_confined _ _ (jsDupValue rt v, v) (jsDupValue_releases rt v).confined ?_
    rintro p rfl
    exact .inl (.inr (.inl ⟨q, hv.2⟩))
  | deleteProperty q v =>
    simp only [step] at hstep
    split_ifs at hstep with hv
    obtain rfl := Option.some.inj hstep
    exact (modifyProp_confined rt q fun vs w hw => .inl (List.mem_of_mem_erase hw)).trans
      (jsFreeValueRT_releases _ v).confined
  | loadArgument v =>
    simp only [step] at hstep
    split_ifs at hstep with hv
    obtain rfl := Option.some.inj hstep
    refine @push_confined _ _ (jsDupValue rt v, v) (jsDupValue_releases rt v).confined ?_
    rintro p rfl
    cases hrunning : rt.running with
    | none => simp [hrunning] at hv
    | some e => exact .inl (.inr (.inr (.inr ⟨e, .inr hrunning, hl e hrunning⟩)))
  | enqueueJob argv ok =>
    simp only [step] at hstep
    split_ifs at hstep with hv
    obtain rfl := Option.some.inj hstep
    refine jsEnqueueJob_confined rt .script argv none ok fun p hp => ?_
    exact .inl (mem_stack_of_holds (List.all_eq_true.mp hv _ hp))
  | setTimeout func delayOk objOk tmrOk =>
    simp only [step] at hstep
    split_ifs at hstep
    obtain rfl := Option.some.inj hstep
    exact ioJsSetTimeout_confined rt func delayOk objOk tmrOk
  | clearTimeout t =>
    simp only [step] at hstep
    split_ifs at hstep
    obtain rfl := Option.some.inj hstep
    exact ioJsClearTimeout_confined rt t
  | after capOk delayOk tmrOk =>
    obtain ⟨res, hres, rfl⟩ := Option.map_eq_some_iff.mp hstep
    exact ioJsAfter_confined hres
  | newSocket handle objOk =>
    obtain rfl := Option.some.inj hstep
    exact jsIoSocketConstructor_confined rt handle objOk
  | getReceive this =>
    simp only [step] at hstep
    split_ifs at hstep
    obtain rfl := Option.some.inj hstep
    exact jsIoSocketGetReceive_confined rt this
  | setReceive this value =>
    simp only [step] at hstep
    split_ifs at hstep with hv
    obtain rfl := Option.some.inj hstep
    exact jsIoSocketSetReceive_confined hv.2
  | gets this ok =>
    simp only [step] at hstep
    split_ifs at hstep
    obtain rfl := Option.some.inj hstep
    exact jsIoSocketGets_confined rt this ok
  | receive r pipe buffer mem =>
    simp only [step, jsIoSocketReadBytes] at hstep
    split_ifs at hstep
    exact receiveChunks_confined hstep
  | expire r =>
    simp only [step, expireAlarm] at hstep
    split at hstep
    · split_ifs at hstep
      obtain rfl := Option.some.inj hstep
      exact .of_same (Nat.le_refl _) rfl rfl rfl rfl rfl rfl rfl
    · cases hstep
  | deliver r enqOk => exact deliverTimeout_confined hstep
  | startJob => exact absurd rfl hstart
  | endJob => exact absurd rfl hend
  | runGC =>
    obtain rfl := Option.some.inj hstep
    exact (jsRunGC_releases rt).confined

/-- Script code gets at what it could get at before and at one new object. -/
theorem step_accessible {rt rt' : JSRuntime} {l : Label} (hl : LoadsPassed rt l)
    (hstep : step rt l = some rt') {p : Nat} (hacc : Accessible rt' (.object p)) :
    Accessible rt (.object p) ∨ p = rt.next := by
  by_cases hstart : l = .startJob
  · subst hstart
    obtain ⟨e, es, hrunning, hjobs, rfl⟩ := jsStartPendingJob_eq_some hstep
    rcases hacc with hv | hprop | hsocket | ⟨e', he, hv⟩
    · exact .inl (.inl hv)
    · exact .inl (.inr (.inl hprop))
    · exact .inl (.inr (.inr (.inl hsocket)))
    · have hmem : e' ∈ rt.jobList := by
        rw [hjobs]
        grind
      exact .inl (.inr (.inr (.inr ⟨e', .inl hmem, hv⟩)))
  · by_cases hend : l = .endJob
    · subst hend
      obtain ⟨-, hfree⟩ := jsFinishPendingJob_confined (n := rt.next) hstep
      refine (hfree.accessible p hacc).imp_left fun hmid => ?_
      rcases hmid with hv | hprop | hsocket | ⟨e', he, hv⟩
      · exact .inl hv
      · exact .inr (.inl hprop)
      · exact .inr (.inr (.inl hsocket))
      · exact .inr (.inr (.inr ⟨e', .inl (he.resolve_right (by simp)), hv⟩))
    · exact (step_confined hl hstart hend hstep).accessible p hacc

theorem JSJobEntry.mem_argv {e : JSJobEntry} {v : JSValue} (h : v ∈ e.passed) : v ∈ e.argv := by
  unfold JSJobEntry.passed at h
  split at h
  · cases h
  · exact List.mem_of_mem_tail h
  · exact h

/-- What script code can get at is allocated. -/
theorem Ready.lt_of_accessible {rt : JSRuntime} {pend : List JSValue} {lost : JSValue → Nat}
    {p : Nat} (h : Ready rt pend lost) (hp : Accessible rt (.object p)) : p < rt.next := by
  refine h.owned.objects_lt p (?_ : rt.live (.object p))
  rcases hp with hstack | ⟨q, hq⟩ | ⟨r, s, hs, hv⟩ | ⟨e, he | he, hv⟩
  · exact h.live_of_stack hstack
  · exact h.live_of_prop hq
  · exact h.live_of_socket hs (by simp [IoJsIoSocket.slots, hv])
  · exact h.live_of_job (List.mem_flatMap.mpr ⟨e, he, e.mem_argv hv⟩)
  · exact h.live_of_running (by simpa [he] using e.mem_argv hv)

end IoQuickJS
