import IoQuickJS.TimerSpec

/-!
# What the functions of socket objects do

For each function: the accounts it keeps or breaks, and the state it comes from by work on the
heap alone. `js_io_socket_set_receive` is the one that can lose a reference.
-/
namespace IoQuickJS

open Function (update update_self update_of_ne)

/-- Both functions of a promise are in the slots, or neither is. -/
def GetsPaired (rt : JSRuntime) : Prop :=
  ∀ r s, rt.sockets r = some s → (s.asyncGets0 = .undefined ↔ s.asyncGets1 = .undefined)

section Slots

variable {rt : JSRuntime} {pend : List JSValue} {lost : JSValue → Nat} {r : Nat}
  {s : IoJsIoSocket}

theorem modifySocket_shape (f : IoJsIoSocket → IoJsIoSocket) :
    SameShape rt (modifySocket rt r f) := by
  refine ⟨⟨rfl, fun _ => rfl, fun _ => rfl, fun q => ?_⟩, rfl, rfl, rfl, rfl, rfl, rfl⟩
  by_cases hq : q = r
  · subst hq
    cases hs : rt.sockets q <;> simp [modifySocket, hs]
  · simp [modifySocket, hq]

/-- Assigning to the slots exchanges references with those in transit. -/
theorem Ready.exchangeSocket (h : Ready rt pend lost) (hs : rt.sockets r = some s)
    (f : IoJsIoSocket → IoJsIoSocket) (pend' : List JSValue)
    (hcount : ∀ v, v.hasRefCount →
      (f s).slots.count v + pend'.count v = s.slots.count v + pend.count v) :
    Ready (modifySocket rt r f) pend' lost := by
  refine h.reshape (modifySocket_shape f) fun v hv => ?_
  have hupdate := Ledger.tally_update (t := rt.sockets) IoJsIoSocket.slots v
    (h.owned.sockets_lt r (by simp [hs])) (some (f s))
  have hbalance := hcount v hv
  simp only [hs, Ledger.entry_some] at hupdate
  simp only [modifySocket, hs, Option.map_some, JSRuntime.tally, JSRuntime.jobSlots]
  omega

/-- `on_receive` is emptied, and what it held is in transit. -/
theorem Ready.takeReceive (h : Ready rt pend lost) (hs : rt.sockets r = some s) :
    Ready (modifySocket rt r fun s => { s with receiveCallback := .undefined })
      (s.receiveCallback :: pend) lost := by
  refine h.exchangeSocket hs _ _ fun v hv => ?_
  have hne := JSValue.undefined_ne hv
  simp only [IoJsIoSocket.slots, List.count_cons, List.count_nil,
    beq_eq_false_iff_ne.mpr hne, Bool.false_eq_true, if_false]
  omega

/-- An empty `on_receive` takes a reference over. -/
theorem Ready.storeReceive {v : JSValue} (h : Ready rt (v :: pend) lost)
    (hs : rt.sockets r = some s) (hempty : s.receiveCallback = .undefined) :
    Ready (modifySocket rt r fun s => { s with receiveCallback := v }) pend lost := by
  refine h.exchangeSocket hs _ _ fun w hw => ?_
  have hne := JSValue.undefined_ne hw
  simp only [IoJsIoSocket.slots, List.count_cons, List.count_nil, hempty,
    beq_eq_false_iff_ne.mpr hne, Bool.false_eq_true, if_false]
  omega

/-- Tying a new socket object to its new record. -/
theorem Ready.attachSocket {p : Nat} (h : Ready rt pend lost) (handle : Nat)
    (hp : rt.objects p = some ⟨.ioSocket, none, []⟩) :
    Ready (jsSetOpaque { rt with
      next := rt.next + 1
      sockets := update rt.sockets rt.next (some ⟨handle, .undefined, .undefined, .undefined⟩) }
      (.object p) rt.next) pend lost := by
  obtain ⟨hobj, htmr, hsock⟩ := h.unused
  generalize hrt' : jsSetOpaque { rt with
    next := rt.next + 1
    sockets := update rt.sockets rt.next (some ⟨handle, .undefined, .undefined, .undefined⟩) }
    (.object p) rt.next = rt'
  have hattached : Attached rt rt' .ioSocket p rt.next :=
    hrt' ▸ ⟨hp, (jsSetOpaque_attached hp).objects⟩
  have hsockets : ∀ q ≠ rt.next, rt'.sockets q = rt.sockets q := by
    intro q hq
    subst hrt'
    simp [jsSetOpaque, hq]
  have hself : (rt'.sockets rt.next).isSome := by
    subst hrt'
    simp [jsSetOpaque]
  have htally : ∀ v, v.hasRefCount → rt'.tally v = rt.tally v := by
    intro v hv
    have hundefined := JSValue.undefined_ne hv
    have hobject := Ledger.tally_update_same JSObject.prop v (h.owned.objects_lt p (by simp [hp]))
      (b := ⟨.ioSocket, some rt.next, []⟩) hp rfl
    have hobject' := Ledger.tally_succ_of_none (n := rt.next)
      (t := update rt.objects p (some ⟨.ioSocket, some rt.next, []⟩)) JSObject.prop v (by
        have hpn := Nat.ne_of_gt (h.owned.objects_lt p (by simp [hp]))
        simp [hpn, hobj])
    have htimer := Ledger.tally_succ_of_none JSIOTimer.slots v htmr
    have hsocket := Ledger.tally_alloc IoJsIoSocket.slots v hsock
      (some ⟨handle, .undefined, .undefined, .undefined⟩)
    simp only [Ledger.entry_some, IoJsIoSocket.slots, List.count_cons, List.count_nil,
      beq_eq_false_iff_ne.mpr hundefined, Bool.false_eq_true, if_false] at hsocket
    subst hrt'
    simp only [jsSetOpaque, hp, Option.map_some, JSRuntime.tally, JSRuntime.jobSlots]
    omega
  have hfresh : ∀ q, rt.opaqueOf q .ioSocket ≠ some rt.next := by
    intro q hq
    have := h.owned.socket_record q _ hq
    simp [hsock] at this
  have htimerPtr : ∀ q t, rt'.opaqueOf q .ioTimer = some t → rt.opaqueOf q .ioTimer = some t :=
    fun q t hq => (hattached.cases hq).resolve_left (by simp)
  have hnext : rt'.next = rt.next + 1 := by
    subst hrt'
    rfl
  have htimers : rt'.timers = rt.timers := by
    subst hrt'
    rfl
  have hcounts : SameCounts rt rt' := by
    refine ⟨hnext ▸ Nat.le_succ _, hattached.isSome, ?_, ?_, ?_, ?_, ?_, ?_⟩ <;> subst hrt' <;> rfl
  refine h.of_owned hcounts (fun v hv => by rw [htally v hv]) ?_
  refine ⟨fun q hq => ?_, fun q hq => ?_, fun q hq => ?_, fun q t hq => ?_,
    fun q q' t hq hq' => h.owned.timer_inj q q' t (htimerPtr q t hq) (htimerPtr q' t hq'),
    fun q t hq hhas => ?_, htimers ▸ h.owned.timer_reject, fun q t hq => ?_,
    fun q q' t => hattached.inj hfresh h.owned.socket_inj, fun t hs => ?_⟩
  · have := h.owned.objects_lt q (by rwa [← hattached.isSome])
    omega
  · have := h.owned.timers_lt q (htimers ▸ hq)
    omega
  · by_cases hqn : q = rt.next
    · omega
    · have := h.owned.sockets_lt q (by rwa [← hsockets q hqn])
      omega
  · rw [htimers]
    exact h.owned.timer_record q t (htimerPtr q t hq)
  · obtain ⟨q', hq'⟩ := h.owned.timer_object q t (htimers ▸ hq) hhas
    exact ⟨q', hattached.keeps hq'⟩
  · rcases hattached.cases hq with ⟨-, -, rfl⟩ | hold
    · exact hself
    · have htn : t ≠ rt.next := fun he => hfresh q (he ▸ hold)
      rw [hsockets t htn]
      exact h.owned.socket_record q t hold
  · by_cases htn : t = rt.next
    · exact ⟨p, htn ▸ hattached.self⟩
    · rw [hsockets t htn] at hs
      obtain ⟨q, hq⟩ := h.owned.socket_object t hs
      exact ⟨q, hattached.keeps hq⟩

end Slots

/-! ## The functions -/

section Functions

variable {rt : JSRuntime} {pend : List JSValue} {lost : JSValue → Nat}

theorem jsIoSocketConstructor_spec (h : Ready rt pend lost) (handle : Nat) (objOk : Bool) :
    Ready (jsIoSocketConstructor rt handle objOk).1
        ((jsIoSocketConstructor rt handle objOk).2 :: pend) lost ∧
      (Evolves rt (jsIoSocketConstructor rt handle objOk).1 ∨ ∃ r, rt.next ≤ r ∧
        Evolves { rt with
          sockets := update rt.sockets r (some ⟨handle, .undefined, .undefined, .undefined⟩) }
          (jsIoSocketConstructor rt handle objOk).1) := by
  unfold jsIoSocketConstructor
  split_ifs
  · obtain ⟨hready, hevolves⟩ := jsThrow_spec h .outOfMemory
    exact ⟨hready, .inl hevolves⟩
  · have hnew := h.newObject .ioSocket
    have hattached := hnew.attachSocket (p := rt.next) handle (by simp [jsNewObjectClass])
    refine ⟨hattached, .inr ⟨rt.next + 1, Nat.le_succ _, ?_⟩⟩
    refine .of_same (Nat.le_add_right _ 2) (fun p hp => ?_) rfl ?_ rfl rfl rfl rfl
    · simp [jsSetOpaque, jsNewObjectClass, Nat.ne_of_lt hp]
    · simp [jsSetOpaque, jsNewObjectClass]

/-- A call with a `this` that is not a socket object. -/
theorem ioPanic_spec (h : Ready rt pend lost) (message : String) :
    Ready (ioPanic (jsThrowTypeError rt message).1) (.undefined :: pend) lost ∧
      Evolves rt (ioPanic (jsThrowTypeError rt message).1) :=
  ⟨(Ready.cons_iff rfl).mpr (h.setFields rt.events rt.log _ true),
    .of_same (Nat.le_refl _) (fun _ _ => rfl) rfl rfl rfl rfl rfl rfl⟩

/-- The record behind a socket object. -/
theorem Ready.socketOf (h : Ready rt pend lost) {this : JSValue} {r : Nat}
    (hr : rt.getOpaque this .ioSocket = some r) : ∃ s, rt.sockets r = some s := by
  obtain ⟨p, rfl⟩ : ∃ p, this = .object p := by
    cases this <;> simp_all [JSRuntime.getOpaque]
  exact Option.isSome_iff_exists.mp (h.owned.socket_record p r hr)

theorem jsIoSocketGetReceive_spec (h : Ready rt pend lost) (this : JSValue) :
    Ready (jsIoSocketGetReceive rt this).1 ((jsIoSocketGetReceive rt this).2 :: pend) lost ∧
      Evolves rt (jsIoSocketGetReceive rt this).1 := by
  unfold jsIoSocketGetReceive jsGetOpaque2
  cases hr : rt.getOpaque this .ioSocket with
  | none => exact ioPanic_spec h _
  | some r =>
    obtain ⟨s, hs⟩ := h.socketOf hr
    simp only [hs, Option.elim_some]
    exact ⟨h.dup (h.live_of_socket hs (by simp [IoJsIoSocket.slots])), jsDupValue_evolves rt _⟩

/-- What script code holds survives the release of anything else. -/
theorem Ready.live_of_held {rt' : JSRuntime} (h : Ready rt' pend lost) (hshrinks : Shrinks rt rt')
    {v : JSValue} (hv : rt.holds v) : rt'.live v := by
  refine h.live_of_holds ?_
  simpa only [JSRuntime.holds, hshrinks.stack] using hv

theorem Ready.socket_of_held {rt' : JSRuntime} (h : Ready rt' pend lost)
    (hshrinks : Shrinks rt rt') {this : JSValue} {r : Nat} (hthis : rt.holds this)
    (hr : rt.getOpaque this .ioSocket = some r) : rt'.sockets r = rt.sockets r := by
  obtain ⟨p, rfl⟩ : ∃ p, this = .object p := by
    cases this <;> simp_all [JSRuntime.getOpaque]
  have hlive : (rt'.objects p).isSome := h.live_of_held hshrinks hthis
  have hsame : rt'.objects p = rt.objects p := by
    rcases hshrinks.objects p with hsame | hnone
    · exact hsame
    · simp [hnone] at hlive
  have hrecord := h.owned.socket_record p r
    (by simpa only [JSRuntime.opaqueOf, JSRuntime.getOpaque, hsame] using hr)
  rcases hshrinks.sockets r with hsock | hnone
  · exact hsock
  · simp [hnone] at hrecord

/-- The references that an assignment to on_receive forgets: assigning undefined overwrites the
slot without releasing what it holds. -/
def setReceiveLeak (rt : JSRuntime) (this value : JSValue) : List JSValue :=
  if value = .undefined then
    ((rt.getOpaque this .ioSocket).bind rt.sockets).elim [] fun s => [s.receiveCallback]
  else []

theorem jsIoSocketSetReceive_spec (h : Ready rt pend lost) {this value : JSValue}
    (hthis : rt.holds this) (hvalue : rt.holds value) :
    Ready (jsIoSocketSetReceive rt this value).1 ((jsIoSocketSetReceive rt this value).2 :: pend)
        (fun v => (setReceiveLeak rt this value).count v + lost v) ∧
      (Evolves rt (jsIoSocketSetReceive rt this value).1 ∨ ∃ r s,
        rt.getOpaque this .ioSocket = some r ∧ rt.sockets r = some s ∧
        (rt.isFunction value ∨ value = .undefined) ∧
        Evolves { rt with
          sockets := update rt.sockets r (some { s with receiveCallback := value }) }
          (jsIoSocketSetReceive rt this value).1) := by
  unfold jsIoSocketSetReceive jsGetOpaque2 setReceiveLeak
  cases hr : rt.getOpaque this .ioSocket with
  | none =>
    obtain ⟨hready, hevolves⟩ := ioPanic_spec h ("js_io_socket" ++ " object expected")
    exact ⟨by simpa using hready, .inl hevolves⟩
  | some r =>
    obtain ⟨s, hs⟩ := h.socketOf hr
    simp only [Option.bind_some, hs, Option.elim_some]
    split_ifs with hfunc hundefined hundefined
    · simp [hundefined, JSRuntime.isFunction] at hfunc
    · obtain ⟨hfree, hshrinks⟩ := (h.takeReceive hs).free
      generalize jsFreeValueRT _ s.receiveCallback = rt₂ at hfree hshrinks ⊢
      have hsocket : rt₂.sockets r = some { s with receiveCallback := .undefined } := by
        refine (hfree.socket_of_held hshrinks hthis hr).trans ?_
        simp [modifySocket, hs]
      have hlive : rt₂.live value := hfree.live_of_held hshrinks hvalue
      have hdup := hfree.dup hlive
      have hframe := jsDupValue_countsOnly rt₂ value
      have hfilled := hdup.storeReceive ((congrFun hframe.sockets r).trans hsocket) rfl
      refine ⟨by simpa using (Ready.cons_iff (v := .undefined) rfl).mpr hfilled,
        .inr ⟨r, s, rfl, hs, .inl hfunc, ?_⟩⟩
      have hevolves := hshrinks.evolves.trans (jsDupValue_evolves rt₂ value)
      refine ⟨hevolves.next_le, hevolves.objects, hevolves.timers, fun q => ?_, hevolves.events,
        hevolves.jobList, hevolves.running, hevolves.log⟩
      by_cases hq : q = r
      · simp [modifySocket, hq, hframe.sockets, hsocket]
      · simpa [modifySocket, hq] using hevolves.sockets q
    · -- the value of the slot is overwritten
      subst hundefined
      refine ⟨(Ready.cons_iff rfl).mpr (Ready.lose [s.receiveCallback] (h.takeReceive hs)),
        .inr ⟨r, s, rfl, hs, .inr rfl, ?_⟩⟩
      refine .of_same (Nat.le_refl _) (fun _ _ => rfl) rfl ?_ rfl rfl rfl rfl
      simp [modifySocket, hs]
    · obtain ⟨hready, hevolves⟩ := jsThrowTypeError_spec h "not a function"
      exact ⟨by simpa using hready, .inl hevolves⟩

theorem jsIoSocketGets_spec (h : Ready rt pend lost) (hpaired : GetsPaired rt) (this : JSValue)
    (ok : Bool) :
    Ready (jsIoSocketGets rt this ok).1 ((jsIoSocketGets rt this ok).2 :: pend) lost ∧
      (Evolves rt (jsIoSocketGets rt this ok).1 ∨ ∃ r s p reject,
        rt.sockets r = some s ∧ s.asyncGets0 = .undefined ∧ rt.next ≤ p ∧
        (jsIoSocketGets rt this ok).1.isFunction (.object p) ∧ reject ≠ .undefined ∧
        Evolves { rt with
          sockets := update rt.sockets r
            (some { s with asyncGets0 := .object p, asyncGets1 := reject })
          log := rt.log ++ [.getsPromise r (.object p)] } (jsIoSocketGets rt this ok).1) := by
  unfold jsIoSocketGets jsGetOpaque2
  cases hr : rt.getOpaque this .ioSocket with
  | none =>
    obtain ⟨hready, hevolves⟩ := ioPanic_spec h ("js_io_socket" ++ " object expected")
    exact ⟨hready, .inl hevolves⟩
  | some r =>
    obtain ⟨s, hs⟩ := h.socketOf hr
    simp only [hs, Option.elim_some]
    split_ifs with hgets0
    · cases ok with
      | false =>
        obtain ⟨hready, hevolves⟩ := jsThrow_spec h .outOfMemory
        exact ⟨hready, .inl hevolves⟩
      | true =>
        obtain ⟨rt', promise, resolve, reject, hcap, hready, hevolves, -, hisFunc, hisFunc',
          p, rfl, hp⟩ := h.newPromiseCapability
        simp only [hcap]
        have hs' : rt'.sockets r = some s := by
          have hsame : rt'.sockets = rt.sockets := by
            have := congrArg (fun x => JSRuntime.sockets x.1) hcap
            rw [← this]
            simp [jsNewPromiseCapability_ok, jsNewResolvingFunction, jsNewObjectClass,
              JSRuntime.modifyProp, (jsDupValue_countsOnly _ _).sockets]
          rw [hsame, hs]
        have hgets1 := (hpaired r s hs).mp hgets0
        have hslots : Ready rt' (.object p :: reject :: promise :: pend) lost :=
          hready.perm ((List.Perm.swap ..).trans ((List.Perm.swap ..).cons _))
        have hfilled := hslots.exchangeSocket hs'
          (fun s => { s with asyncGets0 := .object p, asyncGets1 := reject })
          (promise :: pend) (fun v hv => by
            have hne := JSValue.undefined_ne hv
            simp only [IoJsIoSocket.slots, List.count_cons, List.count_nil, hgets0, hgets1,
              beq_eq_false_iff_ne.mpr hne, Bool.false_eq_true, if_false]
            omega)
        refine ⟨hfilled.addLog [.getsPromise r (.object p)],
          .inr ⟨r, s, p, reject, hs, hgets0, hp, hisFunc, ?_, ?_⟩⟩
        · rintro rfl
          cases hisFunc'
        · refine ⟨hevolves.next_le, hevolves.objects, hevolves.timers, fun q => ?_,
            hevolves.events, hevolves.jobList, hevolves.running,
            congrArg (· ++ [_]) hevolves.log⟩
          by_cases hq : q = r
          · simp [modifySocket, hq, hs']
          · simpa [modifySocket, hq] using hevolves.sockets q
    · obtain ⟨hready, hevolves⟩ := jsThrowTypeError_spec h "only one gets allowed"
      exact ⟨hready, .inl hevolves⟩

/-- The function that a receive event passes its data to. -/
def IoJsIoSocket.consumer (s : IoJsIoSocket) : JSValue :=
  if s.receiveCallback ≠ .undefined then s.receiveCallback else s.asyncGets0

theorem IoJsIoSocket.consumer_mem (s : IoJsIoSocket) : s.consumer ∈ s.slots := by
  unfold IoJsIoSocket.consumer IoJsIoSocket.slots
  split_ifs <;> simp

/-- `rt'` has the same objects and records as `rt`, held by the same frames. -/
def SameHeap (rt rt' : JSRuntime) : Prop :=
  rt'.stack = rt.stack ∧ rt'.objects = rt.objects ∧ rt'.timers = rt.timers ∧
    rt'.sockets = rt.sockets

theorem CountsOnly.sameHeap {rt rt' : JSRuntime} (h : CountsOnly rt rt') : SameHeap rt rt' :=
  ⟨h.stack, h.objects, h.timers, h.sockets⟩

theorem SameHeap.trans {a b c : JSRuntime} (h : SameHeap a b) (g : SameHeap b c) :
    SameHeap a c :=
  ⟨g.1.trans h.1, g.2.1.trans h.2.1, g.2.2.1.trans h.2.2.1, g.2.2.2.trans h.2.2.2⟩

theorem foldl_jsDupValue_sameHeap (vs : List JSValue) (rt : JSRuntime) :
    SameHeap rt (vs.foldl jsDupValue rt) := by
  induction vs generalizing rt with
  | nil => exact ⟨rfl, rfl, rfl, rfl⟩
  | cons v vs ih => exact (jsDupValue_countsOnly rt v).sameHeap.trans (ih _)

theorem jsEnqueueJob_sameHeap (rt : JSRuntime) (jobFunc : JSJobFunc) (argv : List JSValue)
    (origin : Option Nat) (ok : Bool) :
    SameHeap rt (jsEnqueueJob rt jobFunc argv origin ok).1 := by
  cases ok with
  | true => exact foldl_jsDupValue_sameHeap argv rt
  | false => exact ⟨rfl, rfl, rfl, rfl⟩

/-- The string for the received bytes, or the exception that stands for it. -/
theorem receivedString_spec (h : Ready rt pend lost) (bytes : List UInt8) (strOk : Bool) :
    ∃ rt' str, (if strOk then jsNewStringLen rt bytes else jsThrowOutOfMemory rt) = (rt', str) ∧
      (∀ p, str ≠ .object p) ∧ Ready rt' (str :: pend) lost ∧ Evolves rt rt' ∧ SameHeap rt rt' ∧
      ∀ v, rt.live v → rt'.live v := by
  cases strOk with
  | true =>
    refine ⟨_, _, rfl, by simp, h.newString bytes, jsNewStringLen_evolves rt bytes,
      ⟨rfl, rfl, rfl, rfl⟩, fun v hv => ?_⟩
    cases v with
    | string p =>
      by_cases hp : p = rt.next
      · simp [JSRuntime.live, hp]
      · simpa [JSRuntime.live, jsNewStringLen, hp] using hv
    | _ => exact hv
  | false =>
    obtain ⟨hready, hevolves⟩ := jsThrow_spec h .outOfMemory
    exact ⟨_, _, rfl, by simp, hready, hevolves, ⟨rfl, rfl, rfl, rfl⟩,
      fun v hv => by cases v <;> exact hv⟩

theorem Evolves.setSocket {a b : JSRuntime} (h : Evolves a b) (r : Nat)
    (s : Option IoJsIoSocket) : Evolves { a with sockets := update a.sockets r s }
      { b with sockets := update b.sockets r s } := by
  refine ⟨h.next_le, h.objects, h.timers, fun q => ?_, h.events, h.jobList, h.running, h.log⟩
  by_cases hq : q = r
  · simp [hq]
  · simpa [hq] using h.sockets q

theorem posted_setSocket (rt : JSRuntime) (r : Nat) (s : Option IoJsIoSocket) (e : JSJobEntry)
    (ok : Bool) : posted { rt with sockets := update rt.sockets r s } e ok =
      { posted rt e ok with sockets := update (posted rt e ok).sockets r s } := by
  cases ok <;> rfl

/-- The record after a receive event has passed data on. -/
def IoJsIoSocket.cleared (s : IoJsIoSocket) : IoJsIoSocket :=
  { s with asyncGets0 := .undefined, asyncGets1 := .undefined }

/-- Data that nobody waits for is ignored. -/
theorem jsIoSocketReceiveCallback_ignored {r : Nat} {s : IoJsIoSocket}
    (hs : rt.sockets r = some s) (hconsumer : s.consumer = .undefined) (bytes : List UInt8)
    (strOk enqOk : Bool) : jsIoSocketReceiveCallback rt r bytes strOk enqOk = some rt := by
  unfold jsIoSocketReceiveCallback
  rw [hs]
  exact if_pos hconsumer

/-- How a receive event passes bytes on: in `mid` the functions of the promise are out of the
record, and they and the string are still to be released. -/
theorem jsIoSocketReceiveCallback_mid (h : Ready rt pend lost) {r : Nat} {s : IoJsIoSocket}
    (hs : rt.sockets r = some s) (hconsumer : s.consumer ≠ .undefined) (bytes : List UInt8)
    (strOk enqOk : Bool) :
    ∃ mid str, (∀ p, str ≠ .object p) ∧
      jsIoSocketReceiveCallback rt r bytes strOk enqOk =
        (let rt' := [str, s.asyncGets0, s.asyncGets1].foldl jsFreeValueRT mid
         if (rt'.sockets r).isSome then some rt' else none) ∧
      Ready mid ([str, s.asyncGets0, s.asyncGets1] ++ pend) lost ∧
      SameHeap { rt with sockets := update rt.sockets r (some s.cleared) } mid ∧
      Evolves (posted { rt with sockets := update rt.sockets r (some s.cleared) }
        ⟨.socketContinuation, [s.consumer, str], none⟩ enqOk) mid := by
  obtain ⟨rt₁, str, hstr, hnot, hready₁, hevolves₁, hsame₁, hlive₁⟩ :=
    receivedString_spec h bytes strOk
  have hready₂ := hready₁.enqueueJob .socketContinuation [s.consumer, str] none enqOk
    (fun v hv => by
      rcases List.mem_pair.mp hv with rfl | rfl
      · exact hlive₁ _ (h.live_of_socket hs s.consumer_mem)
      · exact hready₁.live_of_pend (by simp))
  have hevolves₂ := jsEnqueueJob_evolves rt₁ .socketContinuation [s.consumer, str] none enqOk
  have hsame₂ := hsame₁.trans
    (jsEnqueueJob_sameHeap rt₁ .socketContinuation [s.consumer, str] none enqOk)
  have hres : jsIoSocketReceiveCallback rt r bytes strOk enqOk =
      (let rt' := [str, s.asyncGets0, s.asyncGets1].foldl jsFreeValueRT
        (modifySocket (jsEnqueueJob rt₁ .socketContinuation [s.consumer, str] none enqOk).1 r
          IoJsIoSocket.cleared)
       if (rt'.sockets r).isSome then some rt' else none) := by
    unfold jsIoSocketReceiveCallback
    rw [hs]
    change (if s.consumer = .undefined then _ else _) = _
    rw [if_neg hconsumer, hstr]
    rfl
  generalize (jsEnqueueJob rt₁ .socketContinuation [s.consumer, str] none enqOk).1 = rt₂
    at hready₂ hevolves₂ hsame₂ hres
  obtain ⟨hstack, hobjects, htimers, hsockets⟩ := hsame₂
  have hs₂ : rt₂.sockets r = some s := hsockets ▸ hs
  refine ⟨_, str, hnot, hres, ?_, ⟨hstack, hobjects, htimers, ?_⟩, ?_⟩
  · refine hready₂.exchangeSocket hs₂ IoJsIoSocket.cleared _ fun v hv => ?_
    have hne := JSValue.undefined_ne hv
    simp only [IoJsIoSocket.slots, IoJsIoSocket.cleared, List.count_cons, List.count_nil,
      List.cons_append, List.nil_append, beq_eq_false_iff_ne.mpr hne, Bool.false_eq_true, if_false]
    omega
  · simp [modifySocket, hsockets, hs]
  · have hswap := ((hevolves₁.posted _ enqOk).trans hevolves₂).setSocket r (some s.cleared)
    rw [← posted_setSocket] at hswap
    simpa [modifySocket, hs₂] using hswap

/-- Received data is queued for the consumer, and the functions of the promise are given up
whether they were the consumer or not. -/
theorem jsIoSocketReceiveCallback_spec {rt' : JSRuntime} (h : Ready rt pend lost) {r : Nat}
    {bytes : List UInt8} {strOk enqOk : Bool}
    (hres : jsIoSocketReceiveCallback rt r bytes strOk enqOk = some rt') :
    ∃ s, rt.sockets r = some s ∧ Ready rt' pend lost ∧ (s.consumer = .undefined ∧ rt' = rt ∨
      s.consumer ≠ .undefined ∧ (rt'.sockets r).isSome ∧ ∃ str,
        Evolves (posted { rt with sockets := update rt.sockets r (some s.cleared) }
          ⟨.socketContinuation, [s.consumer, str], none⟩ enqOk) rt') := by
  cases hs : rt.sockets r with
  | none => simp [jsIoSocketReceiveCallback, hs] at hres
  | some s =>
    refine ⟨s, rfl, ?_⟩
    by_cases hconsumer : s.consumer = .undefined
    · rw [jsIoSocketReceiveCallback_ignored hs hconsumer] at hres
      obtain rfl := Option.some.inj hres
      exact ⟨h, .inl ⟨hconsumer, rfl⟩⟩
    · obtain ⟨mid, str, -, heq, hready, -, hevolves⟩ :=
        jsIoSocketReceiveCallback_mid h hs hconsumer bytes strOk enqOk
      rw [heq] at hres
      obtain ⟨hfree, hshrinks⟩ := hready.foldl_free
      dsimp only at hres
      split_ifs at hres with hsome
      obtain rfl := Option.some.inj hres
      exact ⟨hfree, .inr ⟨hconsumer, hsome, str, hevolves.trans hshrinks.evolves⟩⟩

end Functions

end IoQuickJS
