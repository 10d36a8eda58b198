import IoQuickJS.Preempt

/-!
# The slots between two statements

`PreemptInv` says what is in the slots and who owns which reference when an event comes between
two statements of a call.

## Main results

* `PreemptInv.machine`: script code and the main loop keep it.
* `PreemptInv.receive`: so does an event that does not come in the wrong place.
-/
namespace IoQuickJS

open Function (update update_apply)

/-! ## The invariant -/

/-- A call in progress holds on to its receiver. -/
structure Held (rt : JSRuntime) (this : JSValue) (r : Nat) : Prop where
  holds : rt.holds this
  record : rt.getOpaque this .ioSocket = some r

/-- The references that the locals of a call own. -/
def SocketStatement.pend : SocketStatement → List JSValue
  | .storeResolve d | .storeReject d | .freeExecutor d => [d.resolve, d.reject]
  | _ => []

def PreemptState.pend (s : PreemptState) : List JSValue := s.call.elim [] fun c => c.next.pend

/-- What the slots of gets contain until both have been stored. -/
def SocketStatement.half : SocketStatement → Option (JSValue × JSValue)
  | .newPromiseCapability | .storeResolve _ => some (.undefined, .undefined)
  | .storeReject d => some (d.resolve, .undefined)
  | _ => none

def PreemptState.half (s : PreemptState) (r : Nat) : Option (JSValue × JSValue) :=
  s.call.bind fun c => if c.socket = r then c.next.half else none

/-- Neither slot of gets is in use, or one promise uses both. -/
def IoJsIoSocket.Paired (t : IoJsIoSocket) (promises : List GetsPromise) (r : Nat) : Prop :=
  t.asyncGets0 = .undefined ∧ t.asyncGets1 = .undefined ∨
    ∃ d ∈ promises, d.socket = r ∧ t.asyncGets0 = d.resolve ∧ t.asyncGets1 = d.reject

/-- What a call in progress relies on. -/
structure SocketCall.Valid (s : PreemptState) (c : SocketCall) : Prop where
  held : Held s.rt c.this c.socket
  value : ∀ v, c.next = .freeReceive v ∨ (∃ old, c.next = .storeReceive old v) → s.rt.holds v
  emptied : ∀ old v, c.next = .storeReceive old v → ∀ t, s.rt.sockets c.socket = some t →
    t.receiveCallback = .undefined
  promise : ∀ d, c.next = .storeResolve d ∨ c.next = .storeReject d →
    d ∈ s.promises ∧ d.socket = c.socket
  unused : ∀ d, c.next = .storeResolve d → .getsPromise c.socket d.resolve ∈ s.rt.log ∧
    ∀ h ∈ s.handled, h.consumer ≠ d.resolve

structure PreemptInv (s : PreemptState) (lost : JSValue → Nat) : Prop where
  ready : Ready s.rt s.pend lost
  noTimers : NoTimers s.rt
  promises : Promises s.rt (s.handled.map Handled.toTaken)
  functions : ∀ d ∈ s.promises, d.resolve ≠ .undefined ∧ d.reject ≠ .undefined
  slots : ∀ r t, s.rt.sockets r = some t →
    (s.half r).elim (t.Paired s.promises r) fun g => (t.asyncGets0, t.asyncGets1) = g
  call : ∀ c, s.call = some c → c.Valid s
  allocated : ∀ h ∈ s.handled, h.allocated
  unreleased : ∀ h ∈ s.handled, h.released = false

section PreemptInv

variable {s s' : PreemptState} {lost : JSValue → Nat}

theorem SocketStatement.inGets_of_half {n : SocketStatement} {g : JSValue × JSValue}
    (h : n.half = some g) : n.inGets := by
  cases n <;> first | rfl | cases h

theorem PreemptInv.consistent (h : PreemptInv s lost) : Consistent s where
  allocated := h.allocated
  unreleased := h.unreleased
  paired r t ht hcall := by
    have hhalf : s.half r = none := by
      unfold PreemptState.half
      cases hc : s.call with
      | none => rfl
      | some c =>
        rw [Option.bind_some]
        split
        · next hr =>
          have hgets := hcall c hc hr
          cases hnext : c.next.half with
          | none => rfl
          | some g => simp [SocketStatement.inGets_of_half hnext] at hgets
        · rfl
    have hslots := h.slots r t ht
    rw [hhalf] at hslots
    refine hslots.imp_right fun ⟨d, hd, hr, hresolve, hreject⟩ => ?_
    have hgets : t.asyncGets0 ≠ .undefined := hresolve ▸ (h.functions d hd).1
    obtain ⟨hlog, hfree⟩ := h.promises.slot r t ht hgets
    refine ⟨d, hd, hr, hresolve, hreject, fun u hu => ?_, hresolve ▸ h.promises.hidden r _ hlog⟩
    exact hresolve ▸ hfree _ (List.mem_map_of_mem hu)

/-- The accounts of a state in which no call is in progress. -/
theorem PreemptInv.sound (h : PreemptInv s lost) (hcall : s.call = none) : Sound s.rt lost where
  ready := by
    have hready := h.ready
    rwa [PreemptState.pend, hcall] at hready
  after r tmr ht := by simp [h.noTimers r] at ht
  paired r t ht := by
    have hslots := h.slots r t ht
    rw [PreemptState.half, hcall] at hslots
    rcases hslots with ⟨hresolve, hreject⟩ | ⟨d, hd, -, hresolve, hreject⟩
    · simp [hresolve, hreject]
    · have hfunctions := h.functions d hd
      simp [hresolve, hreject, hfunctions]

theorem Held.kept {a b : JSRuntime} {this : JSValue} {r : Nat} {pend pend' : List JSValue}
    {lost' : JSValue → Nat} (h : Held a this r) (ha : Ready a pend lost) (hb : Ready b pend' lost')
    (hholds : ∀ v, a.holds v → b.holds v)
    (hobjects : ∀ p < a.next, b.objects p = none ∨ ∃ o o', a.objects p = some o ∧
      b.objects p = some o' ∧ o'.classId = o.classId ∧ o'.uOpaque = o.uOpaque) : Held b this r := by
  obtain ⟨hthis, hrecord⟩ := h
  obtain ⟨p, rfl⟩ : ∃ p, this = .object p := by
    cases this <;> simp_all [JSRuntime.getOpaque]
  have hlive : (b.objects p).isSome := hb.live_of_holds (hholds _ hthis)
  refine ⟨hholds _ hthis, ?_⟩
  rcases hobjects p (ha.owned.objects_lt p (ha.live_of_holds hthis)) with
    hnone | ⟨o, o', ho, ho', hcls, hptr⟩
  · simp [hnone] at hlive
  · simpa [JSRuntime.getOpaque, ho, ho', JSObject.opaqueAs, hcls, hptr] using hrecord

/-! ## Steps of the machine -/

theorem mem_log_of_confined {a b : JSRuntime} (h : ∀ n, Confined n a b) {r : Nat} {f : JSValue}
    (hf : .getsPromise r f ∈ b.log) : .getsPromise r f ∈ a.log := by
  by_cases hn : ∃ n, f = .object (n + 1)
  · obtain ⟨n, rfl⟩ := hn
    refine ((h (n + 1)).promises r _ hf).resolve_right fun heq => ?_
    have := JSValue.object.inj heq
    omega
  · exact ((h 0).promises r f hf).resolve_right fun heq => hn ⟨0, heq⟩

/-- Only gets returns a promise that resolves with a message. -/
theorem step_getsPromise {rt rt' : JSRuntime} {l : Label} (hready : Ready rt [] lost)
    (hgets : ∀ this ok, l ≠ .gets this ok) (hl : SocketProgram l) (hstep : step rt l = some rt')
    {r : Nat} {f : JSValue} (hf : .getsPromise r f ∈ rt'.log) : .getsPromise r f ∈ rt.log := by
  cases l with
  | newObject | newString | dup | drop | setProperty | getProperty | deleteProperty
  | loadArgument => exact (moves_spec hready hstep trivial).2.log ▸ hf
  | enqueueJob argv ok =>
    simp only [step] at hstep
    split_ifs at hstep
    obtain rfl := Option.some.inj hstep
    rw [(jsEnqueueJob_evolves rt .script argv none ok).log] at hf
    cases ok with
    | true => exact hf
    | false => simpa [posted] using hf
  | setTimeout | after => exact absurd trivial hl
  | clearTimeout t =>
    simp only [step] at hstep
    split_ifs at hstep
    obtain rfl := Option.some.inj hstep
    exact mem_log_of_confined (fun _ => ioJsClearTimeout_confined rt t) hf
  | newSocket handle objOk =>
    obtain rfl := Option.some.inj hstep
    rw [(push_evolves _).log] at hf
    obtain ⟨-, hev | ⟨r, -, hev⟩⟩ := jsIoSocketConstructor_spec hready handle objOk
    · exact hev.log ▸ hf
    · exact hev.log ▸ hf
  | getReceive this =>
    simp only [step] at hstep
    split_ifs at hstep
    obtain rfl := Option.some.inj hstep
    exact mem_log_of_confined (fun _ => jsIoSocketGetReceive_confined rt this) hf
  | setReceive this value =>
    simp only [step] at hstep
    split_ifs at hstep with hv
    obtain rfl := Option.some.inj hstep
    exact mem_log_of_confined (fun _ => jsIoSocketSetReceive_confined hv.2) hf
  | gets this ok => exact absurd rfl (hgets this ok)
  | receive r pipe buffer mem =>
    simp only [step, jsIoSocketReadBytes] at hstep
    split_ifs at hstep
    exact mem_log_of_confined (fun _ => receiveChunks_confined hstep) hf
  | expire r =>
    simp only [step, expireAlarm] at hstep
    split at hstep
    · split_ifs at hstep
      obtain rfl := Option.some.inj hstep
      exact hf
    · cases hstep
  | deliver r enqOk => exact mem_log_of_confined (fun _ => deliverTimeout_confined hstep) hf
  | startJob =>
    obtain ⟨e, es, -, -, rfl⟩ := jsStartPendingJob_eq_some hstep
    refine (List.mem_append.mp hf).resolve_right ?_
    unfold JSJobEntry.observation
    split <;> simp
  | endJob =>
    exact mem_log_of_confined (a := { rt with running := none })
      (fun _ => (jsFinishPendingJob_confined hstep).2) hf
  | runGC =>
    obtain rfl := Option.some.inj hstep
    exact (jsRunGC_releases rt).log ▸ hf

/-- Script code outside of gets leaves the slots of gets alone. -/
theorem Change.getsSlots {rt rt' : JSRuntime} {l : Label} {taken : List Taken}
    (hc : Change l rt rt') (h : Promises rt taken)
    (hlog : ∀ r f, .getsPromise r f ∈ rt'.log → .getsPromise r f ∈ rt.log) {r : Nat}
    {t : IoJsIoSocket} (ht : rt'.sockets r = some t) :
    t.asyncGets0 = .undefined ∧ t.asyncGets1 = .undefined ∨
      ∃ u, rt.sockets r = some u ∧ u.asyncGets0 = t.asyncGets0 ∧ u.asyncGets1 = t.asyncGets1 := by
  have same : rt.sockets r = some t → t.asyncGets0 = .undefined ∧ t.asyncGets1 = .undefined ∨
      ∃ u, rt.sockets r = some u ∧ u.asyncGets0 = t.asyncGets0 ∧ u.asyncGets1 = t.asyncGets1 :=
    fun hu => .inr ⟨t, hu, rfl, rfl⟩
  cases hc with
  | quiet hev => exact same (hev.socket_before ht)
  | armed q tmr hlabel hq hlt halarm hfunc hafter hev => exact same (hev.socket_before ht)
  | cleared t q tmr hlabel hptr hq ht' hev => exact same (hev.socket_before ht)
  | expired q tmr ht' halarm hkept hev => exact same (hev.socket_before ht)
  | delivered q tmr ok ht' hq hev =>
    have hbefore := hev.socket_before ht
    cases ok <;> exact same hbefore
  | queued argv ok hev =>
    have hbefore := hev.socket_before ht
    cases ok <;> exact same hbefore
  | started e es hrunning hjobs hev => exact same (hev.socket_before ht)
  | finished hev => exact same (hev.socket_before ht)
  | opened q handle hq hev =>
    have hbefore := hev.socket_before ht
    simp only [update_apply] at hbefore
    split at hbefore
    · obtain rfl := Option.some.inj hbefore
      exact .inl ⟨rfl, rfl⟩
    · exact same hbefore
  | assigned q u value hu hev =>
    have hbefore := hev.socket_before ht
    simp only [update_apply] at hbefore
    split at hbefore
    · next heq =>
      obtain rfl := Option.some.inj hbefore
      exact .inr ⟨u, heq ▸ hu, rfl, rfl⟩
    · exact same hbefore
  | promised q u p reject hu hgets hp hfunc hreject hev =>
    have hold := hlog q (.object p) (by simp [hev.log])
    obtain ⟨p', heq, hlt⟩ := h.lt q _ hold
    have := JSValue.object.inj heq
    omega

theorem PreemptInv.machine (h : PreemptInv s lost) (hcall : s.call = none) {l : Label}
    (hl : PreemptProgram s (.machine l)) {rt' : JSRuntime} (hstep : step s.rt l = some rt') :
    ∃ lost', PreemptInv { s with rt := rt' } lost' := by
  have hprogram : (∀ this ok, l ≠ .gets this ok) ∧
      (∀ r pipe buffer mem, l ≠ .receive r pipe buffer mem) ∧
      SocketProgram l ∧ LoadsPassed s.rt l := by
    cases l with
    | getReceive | setReceive | gets | receive => exact hl.elim
    | _ => exact ⟨by simp, by simp, hl⟩
  obtain ⟨hgets, hreceive, hsocket, hpassed⟩ := hprogram
  have hsound := h.sound hcall
  obtain ⟨⟨lost', hsound'⟩, hc⟩ := NoTimers.step_change h.noTimers hsound hreceive hstep
  have hhalf : ∀ r, s.half r = none := fun r => by rw [PreemptState.half, hcall]; rfl
  refine ⟨lost', ?_, h.noTimers.change hsocket hc,
    h.promises.change hsound.ready hsound'.ready h.noTimers hsocket hpassed hstep hc, h.functions,
    fun r t ht => ?_, by simp [hcall], h.allocated, h.unreleased⟩
  · have hready := hsound'.ready
    rwa [PreemptState.pend, hcall]
  · rw [show PreemptState.half { s with rt := rt' } r = none from hhalf r]
    rcases hc.getsSlots h.promises (fun q f => step_getsPromise hsound.ready hgets hsocket hstep)
      ht with hnone | ⟨u, hu, hresolve, hreject⟩
    · exact .inl hnone
    · have hslots := h.slots r u hu
      rw [hhalf] at hslots
      simpa only [Option.elim_none, IoJsIoSocket.Paired, hresolve, hreject] using hslots

/-! ## Receive events -/

/-- What a receive event for the record `this` at `r` leaves. -/
structure Leaves (rt rt' : JSRuntime) (r : Nat) (this : IoJsIoSocket) : Prop where
  next_le : rt.next ≤ rt'.next
  stack : rt'.stack = rt.stack
  objects : ∀ p < rt.next, rt'.objects p = none ∨ ∃ o o', rt.objects p = some o ∧
    rt'.objects p = some o' ∧ o'.classId = o.classId ∧ o'.uOpaque = o.uOpaque
  promises : ∀ q f, .getsPromise q f ∈ rt'.log ↔ .getsPromise q f ∈ rt.log
  others : ∀ q ≠ r, ∀ t, rt'.sockets q = some t → rt.sockets q = some t
  own : ∀ t, rt'.sockets r = some t → t.receiveCallback = this.receiveCallback ∧
    t.asyncGets0 = .undefined ∧ (t.asyncGets1 = .undefined ∨ t = this)
  noTimers : NoTimers rt → NoTimers rt'

theorem jsIoSocketReceiveCallback_leaves {rt rt' : JSRuntime} {pend : List JSValue} {r : Nat}
    {this : IoJsIoSocket} {bytes : List UInt8} {strOk enqOk : Bool} (h : Ready rt pend lost)
    (hs : rt.sockets r = some this)
    (hres : jsIoSocketReceiveCallback rt r bytes strOk enqOk = some rt') :
    Ready rt' pend lost ∧ Leaves rt rt' r this := by
  by_cases hconsumer : this.consumer = .undefined
  · rw [jsIoSocketReceiveCallback_ignored hs hconsumer] at hres
    obtain rfl := Option.some.inj hres
    refine ⟨h, Nat.le_refl _, rfl, (Evolves.refl rt).objects, fun _ _ => Iff.rfl,
      fun _ _ _ => id, fun t ht => ?_, id⟩
    obtain rfl : this = t := Option.some.inj (hs.symm.trans ht)
    unfold IoJsIoSocket.consumer at hconsumer
    split at hconsumer
    · contradiction
    · exact ⟨rfl, hconsumer, .inr rfl⟩
  · obtain ⟨mid, str, -, heq, hready, hsame, hev⟩ :=
      jsIoSocketReceiveCallback_mid h hs hconsumer bytes strOk enqOk
    rw [heq] at hres
    dsimp only at hres
    split_ifs at hres
    obtain rfl := Option.some.inj hres
    obtain ⟨hfree, hshrinks⟩ := hready.foldl_free
    have hobjects := (hev.trans hshrinks.evolves).objects
    have hnext := (hev.trans hshrinks.evolves).next_le
    have hlog := (hev.trans hshrinks.evolves).log
    have hbefore : ∀ q t, (List.foldl jsFreeValueRT mid
        [str, this.asyncGets0, this.asyncGets1]).sockets q = some t →
        update rt.sockets r (some this.cleared) q = some t := by
      intro q t ht
      have hq := hshrinks.evolves.socket_before ht
      rwa [hsame.2.2.2] at hq
    refine ⟨hfree, ?_, hshrinks.stack.trans hsame.1, ?_, fun q f => ?_, fun q hq t ht => ?_,
      fun t ht => ?_, fun hnone => ?_⟩
    · cases enqOk <;> exact hnext
    · cases enqOk <;> exact hobjects
    · rw [hlog]
      cases enqOk <;> simp [posted]
    · simpa [hq] using hbefore q t ht
    · obtain rfl : this.cleared = t := by simpa using hbefore r t ht
      exact ⟨rfl, rfl, .inl rfl⟩
    · have hmid : NoTimers mid := fun q => by rw [hsame.2.2.1]; exact hnone q
      exact hmid.evolves hshrinks.evolves

theorem PreemptState.half_eq (s : PreemptState) {c : SocketCall} {r : Nat} (hc : s.call = some c)
    (hr : c.socket = r) : s.half r = c.next.half := by
  simp [PreemptState.half, hc, hr]

/-- The slots of gets after an event that does not come between its two stores. -/
theorem PreemptInv.slots_received (h : PreemptInv s lost) {r : Nat} {this t : IoJsIoSocket}
    (hs : s.rt.sockets r = some this)
    (ht : t.receiveCallback = this.receiveCallback ∧ t.asyncGets0 = .undefined ∧
      (t.asyncGets1 = .undefined ∨ t = this))
    (hwritten : s.halfWritten r = false) :
    (s.half r).elim (t.Paired s.promises r) fun g => (t.asyncGets0, t.asyncGets1) = g := by
  obtain ⟨-, hresolve, hnone | rfl⟩ := ht
  · cases hhalf : s.half r with
    | none => exact .inl ⟨hresolve, hnone⟩
    | some g =>
      obtain ⟨c, hc, hg⟩ := Option.bind_eq_some_iff.mp hhalf
      split at hg
      · next hr =>
        cases hnext : c.next with
        | storeReject d =>
          obtain ⟨this, q, next⟩ := c
          obtain rfl : next = .storeReject d := hnext
          simp [PreemptState.halfWritten, hc, show q = r from hr] at hwritten
        | newPromiseCapability | storeResolve =>
          obtain rfl : (.undefined, .undefined) = g := by
            simpa only [hnext, SocketStatement.half, Option.some.injEq] using hg
          exact Prod.ext hresolve hnone
        | getReceive | freeReceive | storeReceive | freeExecutor =>
          simp [hnext, SocketStatement.half] at hg
      · cases hg
  · exact h.slots r t hs

theorem PreemptInv.receive (h : PreemptInv s lost) {r : Nat} {bytes : List UInt8}
    {strOk enqOk : Bool} (hturn : InTurn s (.receive r bytes strOk enqOk))
    (hstep : s.receive r bytes strOk enqOk = some s') : PreemptInv s' lost := by
  obtain ⟨hstale, hhalf⟩ := hturn
  simp only [PreemptState.receive, hstale, if_true, Option.bind_eq_some_iff,
    Option.map_eq_some_iff] at hstep
  obtain ⟨this, hs, rt', hres, rfl⟩ := hstep
  obtain ⟨hready, hleaves⟩ := jsIoSocketReceiveCallback_leaves h.ready hs hres
  have hconfined := jsIoSocketReceiveCallback_confined (n := s.rt.next) hres
  have hcarries : Carries s.rt rt' := by
    refine ⟨hleaves.next_le, hleaves.promises, hconfined.accessible, fun q t ht hgets => ?_⟩
    by_cases hq : q = r
    · subst hq
      exact absurd (hleaves.own t ht).2.1 hgets
    · exact ⟨t, hleaves.others q hq t ht, rfl⟩
  have hmem : ∀ u : Handled, u ∈ s.handled ++ [⟨⟨r, bytes, this.receiveCallback, this.asyncGets0⟩,
      s.rt.live this.consumer, JSValue.undefined != .undefined⟩] → u ∈ s.handled ∨
      u = ⟨⟨r, bytes, this.receiveCallback, this.asyncGets0⟩, s.rt.live this.consumer,
        JSValue.undefined != .undefined⟩ := by
    intro u hu
    simpa using hu
  refine ⟨hready, hleaves.noTimers h.noTimers, ?_, h.functions, fun q t ht => ?_,
    fun c hc => ?_, fun u hu => ?_, fun u hu => ?_⟩
  · have htake := h.promises.take h.ready hcarries hs (fun t ht => (hleaves.own t ht).2.1) bytes
    simpa using htake
  · by_cases hq : q = r
    · subst hq
      exact h.slots_received hs (hleaves.own t ht) hhalf
    · exact h.slots q t (hleaves.others q hq t ht)
  · have hvalid := h.call c hc
    have hholds : ∀ v, s.rt.holds v → rt'.holds v := fun v hv => by
      simpa only [JSRuntime.holds, hleaves.stack] using hv
    refine ⟨hvalid.held.kept h.ready hready hholds hleaves.objects,
      fun v hv => hholds v (hvalid.value v hv), fun old v hnext t ht => ?_, hvalid.promise,
      fun d hnext => ?_⟩
    · by_cases hq : c.socket = r
      · exact (hleaves.own t (hq ▸ ht)).1.trans (hvalid.emptied old v hnext this (hq ▸ hs))
      · exact hvalid.emptied old v hnext t (hleaves.others _ hq t ht)
    · obtain ⟨hlog, hfree⟩ := hvalid.unused d hnext
      refine ⟨(hleaves.promises _ _).mpr hlog, fun u hu => ?_⟩
      rcases hmem u hu with hu | rfl
      · exact hfree u hu
      · intro heq
        obtain ⟨hr, hgets⟩ := h.promises.consumer_eq hs hlog heq
        have hhalf := h.slots r this hs
        rw [s.half_eq hc hr, hnext] at hhalf
        have hnone : this.asyncGets0 = .undefined := congrArg Prod.fst hhalf
        exact (h.functions d (hvalid.promise d (.inl hnext)).1).1 (hgets.symm.trans hnone)
  · rcases hmem u hu with hu | rfl
    · exact h.allocated u hu
    · exact h.ready.live_of_socket hs this.consumer_mem
  · rcases hmem u hu with hu | rfl
    · exact h.unreleased u hu
    · rfl

end PreemptInv

end IoQuickJS
