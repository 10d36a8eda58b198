import IoQuickJS.PreemptEvents

/-!
# Statements of the functions of a socket

## Main results

* `slots_consistent`: the slots stay consistent in a run in which no event comes between the
  release of the old callback and the store of the new one, or between the two stores of gets.
* `slots_inconsistent`: an event in either place breaks them.
-/
namespace IoQuickJS

section PreemptInv

variable {s s' : PreemptState} {lost : JSValue → Nat}

/-! ## Statements -/

/-- `rt'` has the slots of gets that `rt` has. -/
def SameGets (rt rt' : JSRuntime) : Prop := ∀ q t, rt'.sockets q = some t →
  ∃ u, rt.sockets q = some u ∧ u.asyncGets0 = t.asyncGets0 ∧ u.asyncGets1 = t.asyncGets1

theorem SameGets.trans {a b c : JSRuntime} (h : SameGets a b) (g : SameGets b c) :
    SameGets a c := by
  intro q t ht
  obtain ⟨u, hu, hresolve, hreject⟩ := g q t ht
  obtain ⟨w, hw, hresolve', hreject'⟩ := h q u hu
  exact ⟨w, hw, hresolve'.trans hresolve, hreject'.trans hreject⟩

theorem Evolves.sameGets {a b : JSRuntime} (h : Evolves a b) : SameGets a b :=
  fun _ t ht => ⟨t, h.socket_before ht, rfl, rfl⟩

theorem modifySocket_eq_some {rt : JSRuntime} {r q : Nat} {f : IoJsIoSocket → IoJsIoSocket}
    {t : IoJsIoSocket} (h : (modifySocket rt r f).sockets q = some t) :
    (q = r ∧ ∃ u, rt.sockets r = some u ∧ t = f u) ∨ q ≠ r ∧ rt.sockets q = some t := by
  by_cases hq : q = r
  · subst hq
    obtain ⟨u, hu, hf⟩ := Option.map_eq_some_iff.mp
      (show (rt.sockets q).map f = some t by simpa [modifySocket] using h)
    exact .inl ⟨rfl, u, hu, hf.symm⟩
  · exact .inr ⟨hq, by simpa [modifySocket, hq] using h⟩

theorem setReceiveCallback_sameGets (rt : JSRuntime) (r : Nat) (v : JSValue) :
    SameGets rt (modifySocket rt r fun t => { t with receiveCallback := v }) := by
  intro q t ht
  rcases modifySocket_eq_some ht with ⟨rfl, u, hu, rfl⟩ | ⟨-, hu⟩
  · exact ⟨u, hu, rfl, rfl⟩
  · exact ⟨t, hu, rfl, rfl⟩

/-- The rule for steps that leave the slots of gets alone. -/
theorem PreemptInv.keep (h : PreemptInv s lost) {rt : JSRuntime} {call : Option SocketCall}
    {lost' : JSValue → Nat} (hready : Ready rt (call.elim [] fun c => c.next.pend) lost')
    (hnone : NoTimers rt) (hconfined : Confined s.rt.next s.rt rt)
    (hlog : rt.log = s.rt.log) (hgets : SameGets s.rt rt)
    (hhalf : ∀ r, ({ s with rt := rt, call := call } : PreemptState).half r = s.half r ∨
      ({ s with rt := rt, call := call } : PreemptState).half r = none ∧
        s.half r = some (.undefined, .undefined))
    (hvalid : ∀ c, call = some c → c.Valid { s with rt := rt, call := call }) :
    PreemptInv { s with rt := rt, call := call } lost' := by
  refine ⟨hready, hnone, h.promises.carry ⟨hconfined.next_le, fun q f => by rw [hlog],
    hconfined.accessible, fun q t ht _ => ?_⟩, h.functions, fun q t ht => ?_, hvalid, h.allocated,
    h.unreleased⟩
  · obtain ⟨u, hu, hresolve, -⟩ := hgets q t ht
    exact ⟨u, hu, hresolve⟩
  · obtain ⟨u, hu, hresolve, hreject⟩ := hgets q t ht
    have hslots := h.slots q u hu
    simp only [hresolve, hreject, IoJsIoSocket.Paired] at hslots
    rcases hhalf q with heq | ⟨hnone, hsome⟩
    · rw [heq]
      exact hslots
    · rw [hsome] at hslots
      rw [hnone]
      exact .inl (Prod.mk.inj hslots)

theorem PreemptInv.getReceive (h : PreemptInv s lost) {this : JSValue} {r : Nat}
    (hcall : s.call = some ⟨this, r, .getReceive⟩) (ok : Bool) :
    PreemptInv (s.statement ok ⟨this, r, .getReceive⟩) lost := by
  obtain ⟨t, hs⟩ := h.ready.socketOf (h.call _ hcall).held.record
  have hready : Ready s.rt [] lost := by
    simpa [PreemptState.pend, hcall, SocketStatement.pend] using h.ready
  have hs : s.rt.sockets r = some t := hs
  simp only [PreemptState.statement, hs, Option.elim_some]
  have hdup := hready.dup (hready.live_of_socket hs (v := t.receiveCallback)
    (by simp [IoJsIoSocket.slots]))
  have hev := (jsDupValue_evolves s.rt t.receiveCallback).trans
    (push_evolves (jsDupValue s.rt t.receiveCallback, t.receiveCallback))
  refine h.keep (Ready.push (jsDupValue s.rt t.receiveCallback, _) hdup) (h.noTimers.evolves hev)
    (push_confined (jsDupValue_releases s.rt _).confined fun p hp =>
      .inl (.inr (.inr (.inl ⟨r, t, hs, hp⟩)))) hev.log
    (fun q u hu => ⟨u, hev.socket_before hu, rfl, rfl⟩) (fun q => .inl ?_) (by simp)
  simp [PreemptState.half, hcall, SocketStatement.half]

theorem PreemptInv.freeReceive (h : PreemptInv s lost) {this newValue : JSValue} {r : Nat}
    (hcall : s.call = some ⟨this, r, .freeReceive newValue⟩) (ok : Bool) :
    PreemptInv (s.statement ok ⟨this, r, .freeReceive newValue⟩) lost := by
  have hvalid := h.call _ hcall
  obtain ⟨t, hs⟩ := h.ready.socketOf hvalid.held.record
  have hready : Ready s.rt [] lost := by
    simpa [PreemptState.pend, hcall, SocketStatement.pend] using h.ready
  have hs : s.rt.sockets r = some t := hs
  simp only [PreemptState.statement, hs, Option.elim_some]
  have hempty := hready.takeReceive hs
  have hconfined : Confined s.rt.next s.rt
      (modifySocket s.rt r fun t => { t with receiveCallback := .undefined }) :=
    modifySocket_confined s.rt r (by simp)
  have hgets := setReceiveCallback_sameGets s.rt r .undefined
  obtain ⟨hfree, hshrinks⟩ := hempty.free
  refine h.keep hfree (NoTimers.evolves (by exact h.noTimers) hshrinks.evolves)
    (hconfined.trans (jsFreeValueRT_releases _ _).confined) hshrinks.log
    (hgets.trans hshrinks.evolves.sameGets) (fun q => .inl ?_) fun c hc => ?_
  · simp [PreemptState.half, hcall, SocketStatement.half]
  · obtain rfl := Option.some.inj hc
    have hstack : (jsFreeValueRT (modifySocket s.rt r fun t =>
        { t with receiveCallback := .undefined }) t.receiveCallback).stack = s.rt.stack :=
      hshrinks.stack
    have hholds : ∀ v, s.rt.holds v → (jsFreeValueRT (modifySocket s.rt r fun t =>
        { t with receiveCallback := .undefined }) t.receiveCallback).holds v := fun v hv => by
      simpa only [JSRuntime.holds, hstack] using hv
    refine ⟨hvalid.held.kept hready hfree hholds hshrinks.evolves.objects,
      fun v hv => hholds v (hvalid.value v ?_), fun old v hnext u hu => ?_, by simp, by simp⟩
    · rcases hv with hv | ⟨_, hv⟩
      · cases hv
      · cases hv
        exact .inl rfl
    · rcases modifySocket_eq_some (hshrinks.evolves.socket_before hu) with
        ⟨-, w, -, rfl⟩ | ⟨hne, -⟩
      · rfl
      · exact absurd rfl hne

theorem PreemptInv.storeReceive (h : PreemptInv s lost) {this old newValue : JSValue} {r : Nat}
    (hcall : s.call = some ⟨this, r, .storeReceive old newValue⟩) (ok : Bool) :
    PreemptInv (s.statement ok ⟨this, r, .storeReceive old newValue⟩) lost := by
  have hvalid := h.call _ hcall
  obtain ⟨t, hs⟩ := h.ready.socketOf hvalid.held.record
  have hready : Ready s.rt [] lost := by
    simpa [PreemptState.pend, hcall, SocketStatement.pend] using h.ready
  have hs : s.rt.sockets r = some t := hs
  have hempty : t.receiveCallback = .undefined := hvalid.emptied old newValue rfl t hs
  have hholds := hvalid.value newValue (.inr ⟨old, rfl⟩)
  have hdup := hready.dup (hready.live_of_holds hholds)
  have hframe := jsDupValue_releases s.rt newValue
  have hstored := hdup.storeReceive
    ((congrFun (jsDupValue_countsOnly s.rt newValue).sockets r).trans hs) hempty
  have hconfined := hframe.confined.trans
    (modifySocket_confined (n := s.rt.next) (jsDupValue s.rt newValue) r
      (f := fun t => { t with receiveCallback := newValue }) fun u p hp => by
        obtain rfl : newValue = .object p := hp
        exact .inr (.inl (hframe.stack ▸ mem_stack_of_holds hholds)))
  have hev := jsDupValue_evolves s.rt newValue
  refine h.keep hstored (fun q => h.noTimers.evolves hev q) hconfined hframe.log
    (hev.sameGets.trans (setReceiveCallback_sameGets _ r newValue)) (fun q => .inl ?_) (by simp)
  simp [PreemptState.half, hcall, SocketStatement.half]

theorem PreemptInv.freeExecutor (h : PreemptInv s lost) {this : JSValue} {r : Nat}
    {d : GetsPromise} (hcall : s.call = some ⟨this, r, .freeExecutor d⟩) (ok : Bool) :
    PreemptInv (s.statement ok ⟨this, r, .freeExecutor d⟩) lost := by
  have hready : Ready s.rt ([d.resolve, d.reject] ++ []) lost := by
    simpa [PreemptState.pend, hcall, SocketStatement.pend] using h.ready
  obtain ⟨hfree, hshrinks⟩ := hready.foldl_free
  refine h.keep hfree (h.noTimers.evolves hshrinks.evolves)
    (foldl_releases jsFreeValueRT_releases _ _).confined hshrinks.log hshrinks.evolves.sameGets
    (fun q => .inl ?_) (by simp)
  simp [PreemptState.half, hcall, SocketStatement.half]

/-! ### gets -/

theorem IoJsIoSocket.Paired.append {t : IoJsIoSocket} {promises : List GetsPromise} {r : Nat}
    (h : t.Paired promises r) (d : GetsPromise) : t.Paired (promises ++ [d]) r :=
  h.imp_right fun ⟨e, he, hrest⟩ => ⟨e, List.mem_append_left _ he, hrest⟩

/-- A promise is made; nothing is stored yet. -/
theorem PreemptInv.promised (h : PreemptInv s lost) {this : JSValue} {r : Nat}
    (hcall : s.call = some ⟨this, r, .newPromiseCapability⟩) :
    PreemptInv (s.statement true ⟨this, r, .newPromiseCapability⟩) lost := by
  have hvalid := h.call _ hcall
  have hready : Ready s.rt [] lost := by
    simpa [PreemptState.pend, hcall, SocketStatement.pend] using h.ready
  have hconfined := jsNewPromiseCapability_confined s.rt true
  have hvalues : (jsNewPromiseCapability s.rt true).2 =
    (.object s.rt.next, some (.object (s.rt.next + 1), .object (s.rt.next + 2))) := rfl
  obtain ⟨rt', promise, resolve, reject, hcap, hkept, hev, -, hfunc, hfunc', -⟩ :=
    hready.newPromiseCapability
  rw [hcap] at hconfined hvalues
  obtain ⟨rfl, rfl, rfl⟩ : promise = .object s.rt.next ∧ resolve = .object (s.rt.next + 1) ∧
      reject = .object (s.rt.next + 2) := by simpa using hvalues
  simp only [PreemptState.statement, hcap, JSRuntime.push, JSValue.hasRefCount, if_true]
  have hpush := @push_confined _ _ (rt', .object s.rt.next) hconfined fun p hp =>
    .inr (JSValue.object.inj hp).symm
  have hready' := (hkept.addLog [.getsPromise r (.object (s.rt.next + 1))]).pushStack
  have hstack : rt'.stack = s.rt.stack := (congrArg (fun res => res.1.stack) hcap).symm
  have hfresh : s.rt.next + 1 < rt'.next := hready'.owned.objects_lt _ (isFunction_live hfunc)
  refine ⟨hready', fun q => h.noTimers.evolves hev q, ?_, fun d hd => ?_, fun q t ht => ?_,
    fun c hc => ?_, h.allocated, h.unreleased⟩
  · refine h.promises.promised hready (r := r) hev.next_le hfresh (fun q f => ?_) (fun p hp => ?_)
      fun q t ht _ => .inr ⟨t, hev.socket_before ht, rfl⟩
    · simp [hev.log]
    · have hp' : Accessible { rt' with stack := .object s.rt.next :: rt'.stack } (.object p) := hp
      exact hpush.accessible p (by simpa [JSRuntime.push, JSValue.hasRefCount] using hp')
  · rcases List.mem_append.mp hd with hd | hd
    · exact h.functions d hd
    · obtain rfl := List.mem_singleton.mp hd
      simp
  · have hslots := h.slots q t (hev.socket_before ht)
    by_cases hq : r = q
    · subst hq
      simpa [PreemptState.half, hcall, SocketStatement.half] using hslots
    · have hslots : t.Paired s.promises q := by
        simpa [PreemptState.half, hcall, hq] using hslots
      simpa [PreemptState.half, hq] using hslots.append _
  · obtain rfl := Option.some.inj hc
    refine ⟨hvalid.held.kept hready hready' (fun v hv => ?_) hev.objects, by simp, by simp,
      fun d hd => ?_, fun d hd => ?_⟩
    · simp only [JSRuntime.holds, hstack, List.mem_cons, Bool.or_eq_true, decide_eq_true_eq] at hv ⊢
      exact hv.imp_right .inr
    · rcases hd with hd | hd
      · cases hd
        exact ⟨List.mem_append_right _ (List.mem_singleton_self _), rfl⟩
      · cases hd
    · cases hd
      refine ⟨by simp, fun u hu heq => ?_⟩
      have := h.promises.taken_lt _ (List.mem_map_of_mem hu) _ heq
      omega

theorem PreemptInv.newPromiseCapability (h : PreemptInv s lost) {this : JSValue} {r : Nat}
    (hcall : s.call = some ⟨this, r, .newPromiseCapability⟩) (ok : Bool) :
    PreemptInv (s.statement ok ⟨this, r, .newPromiseCapability⟩) lost := by
  cases ok with
  | true => exact h.promised hcall
  | false =>
    have hready : Ready s.rt [] lost := by
      simpa [PreemptState.pend, hcall, SocketStatement.pend] using h.ready
    obtain ⟨hthrow, hev⟩ := jsThrow_spec hready .outOfMemory
    refine h.keep ((Ready.cons_iff rfl).mp hthrow) (h.noTimers.evolves hev)
      (jsThrow_confined s.rt _) rfl hev.sameGets (fun q => ?_) (by simp)
    by_cases hq : r = q
    · exact .inr ⟨rfl, s.half_eq hcall hq⟩
    · exact .inl (by simp [PreemptState.half, hcall, hq])

/-- One of the two stores: `v` is in the data of the executor, and the slot gets a reference of
its own. -/
theorem Ready.storeGets {rt : JSRuntime} {pend : List JSValue} (h : Ready rt pend lost)
    {v : JSValue} (hv : v ∈ pend) {r : Nat} {t : IoJsIoSocket} (hs : rt.sockets r = some t)
    (f : IoJsIoSocket → IoJsIoSocket)
    (hcount : ∀ w, w.hasRefCount → (f t).slots.count w = t.slots.count w + [v].count w) :
    Ready (modifySocket (jsDupValue rt v) r f) pend lost := by
  have hdup := h.dup (h.live_of_pend hv)
  refine hdup.exchangeSocket ((congrFun (jsDupValue_countsOnly rt v).sockets r).trans hs) f pend
    fun w hw => ?_
  have := hcount w hw
  simp only [List.count_cons, List.count_nil] at this ⊢
  omega

theorem storeGets_confined {n : Nat} (rt : JSRuntime) (v : JSValue) (r : Nat)
    {f : IoJsIoSocket → IoJsIoSocket} (hf : ∀ t, (f t).receiveCallback = t.receiveCallback) :
    Confined n rt (modifySocket (jsDupValue rt v) r f) :=
  (jsDupValue_releases rt v).confined.trans
    (modifySocket_confined _ r fun t _ _ => .inl (hf t))

theorem SocketCall.Valid.stored {c : SocketCall} (h : c.Valid s) (hready : Ready s.rt s.pend lost)
    {rt : JSRuntime} {pend : List JSValue} (hready' : Ready rt pend lost)
    (hstack : rt.stack = s.rt.stack) (hev : ∀ p < s.rt.next, rt.objects p = s.rt.objects p) :
    Held rt c.this c.socket := by
  refine h.held.kept hready hready' (fun v hv => ?_) fun p hp => ?_
  · simpa only [JSRuntime.holds, hstack] using hv
  · cases ho : s.rt.objects p with
    | none => exact .inl ((hev p hp).trans ho)
    | some o => exact .inr ⟨o, o, rfl, (hev p hp).trans ho, rfl, rfl⟩

/-- The first of the two stores. -/
theorem PreemptInv.storeResolve (h : PreemptInv s lost) {this : JSValue} {r : Nat}
    {d : GetsPromise} (hcall : s.call = some ⟨this, r, .storeResolve d⟩) (ok : Bool) :
    PreemptInv (s.statement ok ⟨this, r, .storeResolve d⟩) lost := by
  have hvalid := h.call _ hcall
  obtain ⟨t, hs⟩ := h.ready.socketOf hvalid.held.record
  have hs : s.rt.sockets r = some t := hs
  have hready : Ready s.rt [d.resolve, d.reject] lost := by
    simpa [PreemptState.pend, hcall, SocketStatement.pend] using h.ready
  obtain ⟨hlog, hfree⟩ := hvalid.unused d rfl
  have hempty : (t.asyncGets0, t.asyncGets1) = (.undefined, .undefined) := by
    have hslots := h.slots r t hs
    rwa [s.half_eq hcall rfl] at hslots
  obtain ⟨hresolve, hreject⟩ := Prod.mk.inj hempty
  have hframe := jsDupValue_countsOnly s.rt d.resolve
  have hev := jsDupValue_evolves s.rt d.resolve
  have hstored := hready.storeGets (v := d.resolve) (by simp) hs
    (fun t => { t with asyncGets0 := d.resolve }) fun v hv => by
      have hne := JSValue.undefined_ne hv
      simp only [IoJsIoSocket.slots, List.count_cons, List.count_nil, hresolve,
        beq_eq_false_iff_ne.mpr hne, Bool.false_eq_true, if_false]
      omega
  have hconfined := storeGets_confined (n := s.rt.next) s.rt d.resolve r
    (f := fun t => { t with asyncGets0 := d.resolve }) fun _ => rfl
  refine ⟨hstored, fun q => h.noTimers.evolves hev q, ?_, h.functions, fun q u hu => ?_,
    fun c hc => ?_, h.allocated, h.unreleased⟩
  · refine h.promises.store hconfined.next_le hframe.log hconfined.accessible hlog
      (fun u hu => ?_) fun q u hu _ => ?_
    · obtain ⟨w, hw, rfl⟩ := List.mem_map.mp hu
      exact hfree w hw
    · rcases modifySocket_eq_some hu with ⟨rfl, w, -, rfl⟩ | ⟨-, hw⟩
      · exact .inl ⟨rfl, rfl⟩
      · exact .inr ⟨u, hev.socket_before hw, rfl⟩
  · rcases modifySocket_eq_some hu with ⟨rfl, w, hw, rfl⟩ | ⟨hq, hw⟩
    · obtain rfl : t = w := Option.some.inj (hs.symm.trans (hev.socket_before hw))
      simp [PreemptState.statement, PreemptState.half, SocketStatement.half, hreject]
    · have hslots := h.slots q u (hev.socket_before hw)
      simpa [PreemptState.statement, PreemptState.half, hcall, Ne.symm hq] using hslots
  · obtain rfl := Option.some.inj hc
    refine ⟨hvalid.stored h.ready hstored hframe.stack fun p _ => congrFun hframe.objects p,
      by simp, by simp, fun e he => hvalid.promise e ?_, by simp⟩
    rcases he with he | he <;> cases he
    exact .inl rfl

/-- The second of the two stores: the slots hold the functions of one promise again. -/
theorem PreemptInv.storeReject (h : PreemptInv s lost) {this : JSValue} {r : Nat}
    {d : GetsPromise} (hcall : s.call = some ⟨this, r, .storeReject d⟩) (ok : Bool) :
    PreemptInv (s.statement ok ⟨this, r, .storeReject d⟩) lost := by
  have hvalid := h.call _ hcall
  obtain ⟨t, hs⟩ := h.ready.socketOf hvalid.held.record
  have hs : s.rt.sockets r = some t := hs
  have hready : Ready s.rt [d.resolve, d.reject] lost := by
    simpa [PreemptState.pend, hcall, SocketStatement.pend] using h.ready
  obtain ⟨hmem, hsocket⟩ := hvalid.promise d (.inr rfl)
  have hslots : (t.asyncGets0, t.asyncGets1) = (d.resolve, .undefined) := by
    have hslots := h.slots r t hs
    rwa [s.half_eq hcall rfl] at hslots
  obtain ⟨hresolve, hreject⟩ := Prod.mk.inj hslots
  have hframe := jsDupValue_countsOnly s.rt d.reject
  have hev := jsDupValue_evolves s.rt d.reject
  have hstored := hready.storeGets (v := d.reject) (by simp) hs
    (fun t => { t with asyncGets1 := d.reject }) fun v hv => by
      have hne := JSValue.undefined_ne hv
      simp only [IoJsIoSocket.slots, List.count_cons, List.count_nil, hreject,
        beq_eq_false_iff_ne.mpr hne, Bool.false_eq_true, if_false]
      omega
  have hconfined := storeGets_confined (n := s.rt.next) s.rt d.reject r
    (f := fun t => { t with asyncGets1 := d.reject }) fun _ => rfl
  refine ⟨hstored, fun q => h.noTimers.evolves hev q, h.promises.carry ⟨hconfined.next_le,
    fun q f => by rw [← hframe.log]; rfl, hconfined.accessible, fun q u hu _ => ?_⟩, h.functions,
    fun q u hu => ?_, fun c hc => ?_, h.allocated, h.unreleased⟩
  · rcases modifySocket_eq_some hu with ⟨rfl, w, hw, rfl⟩ | ⟨-, hw⟩
    · exact ⟨w, hev.socket_before hw, rfl⟩
    · exact ⟨u, hev.socket_before hw, rfl⟩
  · rcases modifySocket_eq_some hu with ⟨rfl, w, hw, rfl⟩ | ⟨hq, hw⟩
    · obtain rfl : t = w := Option.some.inj (hs.symm.trans (hev.socket_before hw))
      have hpaired : IoJsIoSocket.Paired { t with asyncGets1 := d.reject } s.promises q :=
        .inr ⟨d, hmem, hsocket, hresolve, rfl⟩
      simpa [PreemptState.statement, PreemptState.half, SocketStatement.half] using hpaired
    · have hslots := h.slots q u (hev.socket_before hw)
      simpa [PreemptState.statement, PreemptState.half, hcall, Ne.symm hq] using hslots
  · obtain rfl := Option.some.inj hc
    exact ⟨hvalid.stored h.ready hstored hframe.stack fun p _ => congrFun hframe.objects p,
      by simp, by simp, by simp, by simp⟩

/-! ### The start of a call -/

/-- A call that ends with an exception. -/
theorem PreemptInv.throw (h : PreemptInv s lost) (hcall : s.call = none)
    (currentException : Option JSError) (panicked : Bool) :
    PreemptInv { s with rt := { s.rt with
      currentException := currentException, panicked := panicked } } lost := by
  have hready : Ready s.rt [] lost := by simpa [PreemptState.pend, hcall] using h.ready
  exact h.keep (by simpa [hcall] using
      hready.setFields s.rt.events s.rt.log currentException panicked) (fun q => h.noTimers q)
    (.of_same (Nat.le_refl _) rfl rfl rfl rfl rfl rfl rfl) rfl (fun q t ht => ⟨t, ht, rfl, rfl⟩)
    (fun q => .inl rfl) (by simp [hcall])

/-- A call that goes on. -/
theorem PreemptInv.start (h : PreemptInv s lost) (hcall : s.call = none) {c : SocketCall}
    (hpend : c.next.pend = []) (hhalf : c.next.half = none)
    (hvalid : c.Valid { s with call := some c }) :
    PreemptInv { s with call := some c } lost := by
  have hready : Ready s.rt [] lost := by simpa [PreemptState.pend, hcall] using h.ready
  have hpend' : (some c).elim [] (fun c => c.next.pend) = [] := hpend
  refine h.keep (hpend' ▸ hready) h.noTimers (.refl _) rfl (fun q t ht => ⟨t, ht, rfl, rfl⟩)
    (fun q => .inl ?_) fun c' hc => ?_
  · simp [PreemptState.half, hcall, hhalf]
  · obtain rfl := Option.some.inj hc
    exact hvalid

theorem PreemptInv.enter (h : PreemptInv s lost) {this : JSValue} {body : Nat → PreemptState}
    (hstep : s.enter this body = some s')
    (hbody : s.call = none → ∀ r, Held s.rt this r → ∃ lost', PreemptInv (body r) lost') :
    ∃ lost', PreemptInv s' lost' := by
  unfold PreemptState.enter jsGetOpaque2 at hstep
  split_ifs at hstep with hc
  have hcall : s.call = none := by simpa using hc.1
  cases hr : s.rt.getOpaque this .ioSocket with
  | some r =>
    simp only [hr, Option.some.injEq] at hstep
    obtain rfl := hstep
    exact hbody hcall r ⟨hc.2, hr⟩
  | none =>
    simp only [hr, Option.some.injEq] at hstep
    obtain rfl := hstep
    exact ⟨lost, h.throw hcall _ true⟩

theorem PreemptInv.setReceive (h : PreemptInv s lost) {this value : JSValue}
    (hstep : preemptStep s (.setReceive this value) = some s') : ∃ lost', PreemptInv s' lost' := by
  obtain ⟨hvalue, hstep⟩ : s.rt.holds value ∧ _ := ite_eq_iff.mp hstep |>.resolve_right (by simp)
  refine h.enter hstep fun hcall r hheld => ?_
  have hready : Ready s.rt [] lost := by simpa [PreemptState.pend, hcall] using h.ready
  split_ifs with hfunc hundefined
  · refine ⟨lost, h.start hcall rfl rfl ⟨hheld, fun v hv => ?_, by simp, by simp, by simp⟩⟩
    rcases hv with hv | ⟨_, hv⟩ <;> cases hv
    exact hvalue
  · -- the reference that the slot held is not given back
    obtain ⟨t, hs⟩ := hready.socketOf hheld.record
    have hready' : Ready _ [] _ := Ready.lose [t.receiveCallback] (hready.takeReceive hs)
    have hnext : s.call.elim [] (fun c => c.next.pend) = [] := by rw [hcall]; rfl
    exact ⟨_, h.keep (hnext ▸ hready') (fun q => h.noTimers q)
      (modifySocket_confined s.rt r (by simp)) rfl
      (setReceiveCallback_sameGets s.rt r .undefined) (fun q => .inl rfl) (by simp [hcall])⟩
  · exact ⟨lost, h.throw hcall _ s.rt.panicked⟩

theorem PreemptInv.gets (h : PreemptInv s lost) {this : JSValue}
    (hstep : preemptStep s (.gets this) = some s') : ∃ lost', PreemptInv s' lost' := by
  refine h.enter hstep fun hcall r hheld => ?_
  have hready : Ready s.rt [] lost := by simpa [PreemptState.pend, hcall] using h.ready
  split_ifs with hgets
  · refine ⟨lost, hready, h.noTimers, h.promises, h.functions, fun q t ht => ?_, fun c hc => ?_,
      h.allocated, h.unreleased⟩
    · have hslots : t.Paired s.promises q := by
        simpa [PreemptState.half, hcall] using h.slots q t ht
      by_cases hq : r = q
      · subst hq
        have ht : s.rt.sockets r = some t := ht
        have hresolve : t.asyncGets0 = .undefined := by simpa [ht] using hgets
        have hreject : t.asyncGets1 = .undefined := by
          rcases hslots with ⟨-, hnone⟩ | ⟨d, hd, -, hd', -⟩
          · exact hnone
          · exact absurd (hd'.symm.trans hresolve) (h.functions d hd).1
        simp [PreemptState.half, SocketStatement.half, hresolve, hreject]
      · simpa [PreemptState.half, hq] using hslots
    · obtain rfl := Option.some.inj hc
      exact ⟨hheld, by simp, by simp, by simp, by simp⟩
  · exact ⟨lost, h.throw hcall _ s.rt.panicked⟩

/-- The step lemma. -/
theorem preemptStep_inv (h : PreemptInv s lost) {l : PreemptLabel} (hl : PreemptProgram s l)
    (hturn : InTurn s l) (hstep : preemptStep s l = some s') : ∃ lost', PreemptInv s' lost' := by
  cases l with
  | machine l =>
    simp only [preemptStep] at hstep
    split_ifs at hstep with hcall
    obtain ⟨rt', hm, rfl⟩ := Option.map_eq_some_iff.mp hstep
    exact h.machine (by simpa using hcall) hl hm
  | getReceive this =>
    refine h.enter hstep fun hcall r hheld => ⟨lost, h.start hcall rfl rfl ?_⟩
    exact ⟨hheld, by simp, by simp, by simp, by simp⟩
  | setReceive this value => exact h.setReceive hstep
  | gets this => exact h.gets hstep
  | statement ok =>
    obtain ⟨⟨this, r, next⟩, hcall, rfl⟩ := Option.map_eq_some_iff.mp hstep
    refine ⟨lost, ?_⟩
    cases next with
    | getReceive => exact h.getReceive hcall ok
    | freeReceive newValue => exact h.freeReceive hcall ok
    | storeReceive old newValue => exact h.storeReceive hcall ok
    | newPromiseCapability => exact h.newPromiseCapability hcall ok
    | storeResolve d => exact h.storeResolve hcall ok
    | storeReject d => exact h.storeReject hcall ok
    | freeExecutor d => exact h.freeExecutor hcall ok
  | receive r bytes strOk enqOk => exact ⟨lost, h.receive hturn hstep⟩

end PreemptInv

/-! ## Runs -/

/-- The state before the first step. -/
def preemptStart : PreemptState := ⟨jsNewRuntime, none, [], []⟩

theorem preemptStart_inv : PreemptInv preemptStart fun _ => 0 where
  ready := jsNewRuntime_sound.ready
  noTimers _ := rfl
  promises := by
    refine ⟨?_, ?_, ?_, ?_, ?_, ?_, ?_⟩ <;> simp [preemptStart, jsNewRuntime]
  functions := by simp [preemptStart]
  slots := by simp [preemptStart, jsNewRuntime]
  call := by simp [preemptStart]
  allocated := by simp [preemptStart]
  unreleased := by simp [preemptStart]

/-- The slots stay consistent when no event comes between the release of the callback and the
store of the new one, or between the two stores of gets. -/
theorem slots_consistent {ls : List PreemptLabel} {s : PreemptState}
    (hmeets : Transition.Meets preemptStep (fun u l => PreemptProgram u l ∧ InTurn u l)
      preemptStart ls)
    (hrun : Transition.run preemptStep preemptStart ls = some s) : Consistent s := by
  obtain ⟨lost, hinv⟩ := Transition.run_invariant (I := fun u => ∃ lost, PreemptInv u lost)
    ⟨_, preemptStart_inv⟩ hmeets
    (fun _ _ _ ⟨_, hinv⟩ ⟨hl, hturn⟩ hstep => preemptStep_inv hinv hl hturn hstep) hrun
  exact hinv.consistent

/-- Events before, between and after the statements where they do no harm. -/
def eventsInTurn : List PreemptLabel :=
  [.machine (.newSocket 0 true), .machine (.newObject .function),
    .setReceive (.object 1) (.object 3), .receive 2 [104] true true, .statement true,
    .statement true, .receive 2 [105] true true, .gets (.object 1), .receive 2 [106] true true,
    .statement true, .statement true, .statement true, .statement true]

theorem slots_consistent_inTurn :
    ∃ s, Transition.run preemptStep preemptStart eventsInTurn = some s ∧
    s.handled.map (fun h => h.consumer) = [.undefined, .object 3, .object 3] ∧ Consistent s := by
  have hprogram : Transition.Meets preemptStep PreemptProgram preemptStart eventsInTurn :=
    Transition.meets_of_forall fun u l hl => by
      simp only [eventsInTurn, List.mem_cons, List.not_mem_nil, or_false] at hl
      rcases hl with rfl | rfl | rfl | rfl | rfl | rfl | rfl | rfl | rfl | rfl | rfl | rfl | rfl <;>
        simp [PreemptProgram, SocketProgram, Label.arms, LoadsPassed]
  have hturn : Transition.Meets preemptStep InTurn preemptStart eventsInTurn := by decide
  have hend : (Transition.run preemptStep preemptStart eventsInTurn).map
      (fun s => s.handled.map fun h => h.consumer) =
      some [.undefined, .object 3, .object 3] := by decide
  obtain ⟨s, hrun, hs⟩ := Option.map_eq_some_iff.mp hend
  exact ⟨s, hrun, hs, slots_consistent (hprogram.and hturn) hrun⟩

/-- A run of the system that ends in a state in which the slots are not in order. -/
def Breaks (ls : List PreemptLabel) : Prop :=
  Transition.Meets preemptStep PreemptProgram preemptStart ls ∧
    ∃ s, Transition.run preemptStep preemptStart ls = some s ∧ ¬ Consistent s

/-- The old callback is freed, and the event comes before the new one is stored. -/
def releasedCallback : List PreemptLabel :=
  [.machine (.newSocket 0 true), .machine (.newObject .function),
    .setReceive (.object 1) (.object 3), .statement true, .statement true,
    .machine (.drop (.object 3)), .machine (.newObject .function),
    .setReceive (.object 1) (.object 4), .statement true, .receive 2 [104] true true]

/-- The handler queues a function that has been freed. -/
theorem releasedCallback_breaks : Breaks releasedCallback := by
  refine ⟨Transition.meets_of_forall fun u l hl => ?_, ?_⟩
  · simp only [releasedCallback, List.mem_cons, List.not_mem_nil, or_false] at hl
    rcases hl with rfl | rfl | rfl | rfl | rfl | rfl | rfl | rfl | rfl | rfl <;>
      simp [PreemptProgram, SocketProgram, Label.arms, LoadsPassed]
  · have hend : (Transition.run preemptStep preemptStart releasedCallback).map
        (fun s => s.handled.all Handled.allocated) = some false := by decide
    obtain ⟨s, hrun, hs⟩ := Option.map_eq_some_iff.mp hend
    refine ⟨s, hrun, fun h => ?_⟩
    simp [List.all_eq_true.mpr h.allocated] at hs

/-- The event comes between the two stores of gets. -/
def halfWrittenPair : List PreemptLabel :=
  [.machine (.newSocket 0 true), .gets (.object 1), .statement true, .statement true,
    .receive 2 [104] true true, .statement true, .statement true]

/-- The slots hold the second function of the promise alone. -/
theorem halfWrittenPair_breaks : Breaks halfWrittenPair := by
  refine ⟨Transition.meets_of_forall fun u l hl => ?_, ?_⟩
  · simp only [halfWrittenPair, List.mem_cons, List.not_mem_nil, or_false] at hl
    rcases hl with rfl | rfl | rfl | rfl | rfl | rfl | rfl <;>
      simp [PreemptProgram, SocketProgram, Label.arms, LoadsPassed]
  · have hend : (Transition.run preemptStep preemptStart halfWrittenPair).map
        (fun s => (s.call, s.promises, (s.rt.sockets 2).map fun t =>
          (t.asyncGets0, t.asyncGets1))) =
        some (none, [⟨2, .object 3, .object 4, .object 5⟩], some (.undefined, .object 5)) := by
      decide
    obtain ⟨s, hrun, hs⟩ := Option.map_eq_some_iff.mp hend
    simp only [Prod.mk.injEq, Option.map_eq_some_iff] at hs
    obtain ⟨hcall, hpromises, t, ht, hresolve, hreject⟩ := hs
    refine ⟨s, hrun, fun h => ?_⟩
    rcases h.paired 2 t ht (by simp [hcall]) with ⟨-, hnone⟩ | ⟨d, hd, -, hd', -⟩
    · simp [hreject] at hnone
    · rw [hpromises, List.mem_singleton] at hd
      simp [hd, hresolve] at hd'

/-- Both orders break the slots. -/
theorem slots_inconsistent : Breaks releasedCallback ∧ Breaks halfWrittenPair :=
  ⟨releasedCallback_breaks, halfWrittenPair_breaks⟩

end IoQuickJS
