import IoQuickJS.Access
import IoQuickJS.Gets

/-!
# The promises of gets

What a receive event takes from a socket, and who holds the functions that resolve the promises
gets has returned: the record of one socket until an event takes them out, and never script code.

## Main result

* `Promises.carry`, `Promises.promised`, `Promises.take`: the invariant survives any step that
  leaves these functions alone, a new promise, and an event.
-/
namespace IoQuickJS

open Function (update update_self update_of_ne update_apply)

/-- A message that `js_io_socket_read_bytes` has taken from the pipe of a socket, with what stood
in on_receive and async_gets at that moment. -/
structure Taken where
  socket : Nat
  message : List UInt8
  onReceive : JSValue
  gets : JSValue
  deriving DecidableEq, Repr

/-- The function the message is for. -/
def Taken.consumer (t : Taken) : JSValue :=
  if t.onReceive ≠ .undefined then t.onReceive else t.gets

/-- The functions that resolve the promises of gets are out of reach of script code, and each is
in one record or has had its message. -/
structure Promises (rt : JSRuntime) (taken : List Taken) : Prop where
  lt : ∀ r f, .getsPromise r f ∈ rt.log → ∃ p, f = .object p ∧ p < rt.next
  owner : ∀ r r' f, .getsPromise r f ∈ rt.log → .getsPromise r' f ∈ rt.log → r = r'
  hidden : ∀ r f, .getsPromise r f ∈ rt.log → ¬ Accessible rt f
  slot : ∀ r t, rt.sockets r = some t → t.asyncGets0 ≠ .undefined →
    .getsPromise r t.asyncGets0 ∈ rt.log ∧ ∀ u ∈ taken, u.consumer ≠ t.asyncGets0
  taken_lt : ∀ u ∈ taken, ∀ p, u.consumer = .object p → p < rt.next
  single : ∀ r f, .getsPromise r f ∈ rt.log → (taken.countP fun u => u.consumer = f) ≤ 1
  named : ∀ u ∈ taken, u.onReceive = .undefined → u.gets ≠ .undefined →
    .getsPromise u.socket u.gets ∈ rt.log

/-- A step that returns no promise from gets and puts no function into a record for one. -/
structure Carries (rt rt' : JSRuntime) : Prop where
  next_le : rt.next ≤ rt'.next
  promises : ∀ r f, .getsPromise r f ∈ rt'.log ↔ .getsPromise r f ∈ rt.log
  accessible : ∀ p, Accessible rt' (.object p) → Accessible rt (.object p) ∨ p = rt.next
  slots : ∀ q t, rt'.sockets q = some t → t.asyncGets0 ≠ .undefined →
    ∃ u, rt.sockets q = some u ∧ u.asyncGets0 = t.asyncGets0

section Promises

variable {rt rt' : JSRuntime} {taken : List Taken} {pend : List JSValue} {lost : JSValue → Nat}
  {l : Label}

theorem Promises.carry (h : Promises rt taken) (hc : Carries rt rt') : Promises rt' taken where
  lt r f hf := by
    obtain ⟨p, rfl, hp⟩ := h.lt r f ((hc.promises r f).mp hf)
    exact ⟨p, rfl, hp.trans_le hc.next_le⟩
  owner r r' f hf hf' := h.owner r r' f ((hc.promises r f).mp hf) ((hc.promises r' f).mp hf')
  hidden r f hf hacc := by
    have hf' := (hc.promises r f).mp hf
    obtain ⟨p, rfl, hp⟩ := h.lt r f hf'
    exact h.hidden r _ hf' ((hc.accessible p hacc).resolve_right hp.ne)
  slot r t ht hgets := by
    obtain ⟨u, hu, heq⟩ := hc.slots r t ht hgets
    obtain ⟨hlog, hfree⟩ := h.slot r u hu (heq ▸ hgets)
    exact ⟨(hc.promises r _).mpr (heq ▸ hlog), heq ▸ hfree⟩
  taken_lt u hu p hp := (h.taken_lt u hu p hp).trans_le hc.next_le
  single r f hf := h.single r f ((hc.promises r f).mp hf)
  named u hu hreceive hgets := (hc.promises _ _).mpr (h.named u hu hreceive hgets)

/-- on_receive is no function of a promise, and async_gets is that of the socket's own. -/
theorem Promises.consumer_eq (h : Promises rt taken) {r q : Nat} {s : IoJsIoSocket} {f : JSValue}
    (hs : rt.sockets r = some s) (hf : .getsPromise q f ∈ rt.log) (heq : s.consumer = f) :
    q = r ∧ s.asyncGets0 = f := by
  obtain ⟨p, rfl, -⟩ := h.lt q f hf
  unfold IoJsIoSocket.consumer at heq
  split at heq
  · exact absurd (.inr (.inr (.inl ⟨r, s, hs, heq⟩))) (h.hidden q _ hf)
  · exact ⟨h.owner q r _ hf (heq ▸ (h.slot r s hs (by simp [heq])).1), heq⟩

/-- A receive event takes the functions of the promise out of the record. -/
theorem Promises.take (h : Promises rt taken) (hready : Ready rt pend lost) (hc : Carries rt rt')
    {r : Nat} {s : IoJsIoSocket} (hs : rt.sockets r = some s)
    (hcleared : ∀ t, rt'.sockets r = some t → t.asyncGets0 = .undefined) (m : List UInt8) :
    Promises rt' (taken ++ [⟨r, m, s.receiveCallback, s.asyncGets0⟩]) := by
  have hold := h.carry hc
  have hconsumer := fun q f => h.consumer_eq hs (q := q) (f := f)
  have hmem : ∀ u, u ∈ taken ++ [⟨r, m, s.receiveCallback, s.asyncGets0⟩] →
      u ∈ taken ∨ u = ⟨r, m, s.receiveCallback, s.asyncGets0⟩ := by
    intro u hu
    simpa using hu
  refine { hold with
    slot := fun q t ht hgets => ?_
    taken_lt := fun u hu p hp => ?_
    single := fun q f hf => ?_
    named := fun u hu hreceive hgets => ?_ }
  · obtain ⟨hlog, hfree⟩ := hold.slot q t ht hgets
    refine ⟨hlog, fun u hu heq => ?_⟩
    rcases hmem u hu with hu | rfl
    · exact hfree u hu heq
    · obtain ⟨rfl, -⟩ := hconsumer q _ ((hc.promises q _).mp hlog) heq
      exact hgets (hcleared t ht)
  · rcases hmem u hu with hu | rfl
    · exact hold.taken_lt u hu p hp
    · have hlive := hready.live_of_socket hs s.consumer_mem
      have hsome : (rt.objects p).isSome := by
        rw [show s.consumer = .object p from hp] at hlive
        exact hlive
      exact (hready.owned.objects_lt p hsome).trans_le hc.next_le
  · rw [List.countP_append, List.countP_singleton]
    split
    · next heq =>
      have hf' := (hc.promises q f).mp hf
      obtain ⟨rfl, hgets⟩ := hconsumer q f hf' (of_decide_eq_true heq)
      obtain ⟨p, rfl, -⟩ := h.lt q f hf'
      have hnone : (taken.countP fun u => u.consumer = .object p) = 0 := by
        refine List.countP_eq_zero.mpr fun u hu => ?_
        simpa [hgets] using (h.slot q s hs (by simp [hgets])).2 u hu
      omega
    · exact hold.single q f hf
  · rcases hmem u hu with hu | rfl
    · exact hold.named u hu hreceive hgets
    · exact (hc.promises _ _).mpr (h.slot r s hs hgets).1

/-- A new promise of gets. -/
theorem Promises.promised (h : Promises rt taken) (hready : Ready rt pend lost) {r : Nat}
    (hnext : rt.next ≤ rt'.next) (hfresh : rt.next + 1 < rt'.next)
    (hlog : ∀ q f, .getsPromise q f ∈ rt'.log ↔
      .getsPromise q f ∈ rt.log ∨ q = r ∧ f = .object (rt.next + 1))
    (hacc : ∀ p, Accessible rt' (.object p) → Accessible rt (.object p) ∨ p = rt.next)
    (hslots : ∀ q t, rt'.sockets q = some t → t.asyncGets0 ≠ .undefined →
      q = r ∧ t.asyncGets0 = .object (rt.next + 1) ∨
      ∃ u, rt.sockets q = some u ∧ u.asyncGets0 = t.asyncGets0) : Promises rt' taken := by
  have hold : ∀ q f, .getsPromise q f ∈ rt.log → f ≠ .object (rt.next + 1) := by
    rintro q f hf rfl
    obtain ⟨p, heq, hp⟩ := h.lt q _ hf
    have := JSValue.object.inj heq
    omega
  have htaken : ∀ u ∈ taken, u.consumer ≠ .object (rt.next + 1) := by
    intro u hu heq
    have := h.taken_lt u hu _ heq
    omega
  refine ⟨fun q f hf => ?_, fun q q' f hf hf' => ?_, fun q f hf hf' => ?_, fun q t ht hgets => ?_,
    fun u hu p hp => (h.taken_lt u hu p hp).trans_le hnext, fun q f hf => ?_,
    fun u hu hreceive hgets => (hlog _ _).mpr (.inl (h.named u hu hreceive hgets))⟩
  · rcases (hlog q f).mp hf with hf | ⟨-, rfl⟩
    · obtain ⟨p, rfl, hp⟩ := h.lt q f hf
      exact ⟨p, rfl, hp.trans_le hnext⟩
    · exact ⟨_, rfl, hfresh⟩
  · rcases (hlog q f).mp hf with hf | ⟨rfl, rfl⟩ <;> rcases (hlog q' _).mp hf' with hf' | ⟨rfl, heq⟩
    · exact h.owner q q' f hf hf'
    · exact absurd heq (hold q f hf)
    · exact absurd rfl (hold q' _ hf')
    · rfl
  · rcases (hlog q f).mp hf with hf | ⟨-, rfl⟩
    · obtain ⟨p, rfl, hp⟩ := h.lt q f hf
      exact h.hidden q _ hf ((hacc p hf').resolve_right hp.ne)
    · have := hready.lt_of_accessible ((hacc _ hf').resolve_right (by omega))
      omega
  · rcases hslots q t ht hgets with ⟨rfl, heq⟩ | ⟨u, hu, heq⟩
    · exact ⟨(hlog _ _).mpr (.inr ⟨rfl, heq⟩), heq ▸ htaken⟩
    · obtain ⟨hf, hfree⟩ := h.slot q u hu (heq ▸ hgets)
      exact ⟨(hlog _ _).mpr (.inl (heq ▸ hf)), heq ▸ hfree⟩
  · rcases (hlog q f).mp hf with hf | ⟨-, rfl⟩
    · exact h.single q f hf
    · have hnone : (taken.countP fun u => u.consumer = .object (rt.next + 1)) = 0 := by
        refine List.countP_eq_zero.mpr fun u hu => ?_
        simpa using htaken u hu
      omega

/-- The function of a promise that has had no message goes into the record. -/
theorem Promises.store (h : Promises rt taken) (hnext : rt.next ≤ rt'.next)
    (hlog : rt'.log = rt.log)
    (hacc : ∀ p, Accessible rt' (.object p) → Accessible rt (.object p) ∨ p = rt.next)
    {r : Nat} {f : JSValue} (hf : .getsPromise r f ∈ rt.log) (hfree : ∀ u ∈ taken, u.consumer ≠ f)
    (hslots : ∀ q t, rt'.sockets q = some t → t.asyncGets0 ≠ .undefined →
      q = r ∧ t.asyncGets0 = f ∨ ∃ u, rt.sockets q = some u ∧ u.asyncGets0 = t.asyncGets0) :
    Promises rt' taken where
  lt q g hg := by
    obtain ⟨p, rfl, hp⟩ := h.lt q g (hlog ▸ hg)
    exact ⟨p, rfl, hp.trans_le hnext⟩
  owner q q' g hg hg' := h.owner q q' g (hlog ▸ hg) (hlog ▸ hg')
  hidden q g hg hacc' := by
    obtain ⟨p, rfl, hp⟩ := h.lt q g (hlog ▸ hg)
    exact h.hidden q _ (hlog ▸ hg) ((hacc p hacc').resolve_right hp.ne)
  slot q t ht hgets := by
    rw [hlog]
    rcases hslots q t ht hgets with ⟨rfl, heq⟩ | ⟨u, hu, heq⟩
    · exact ⟨heq ▸ hf, heq ▸ hfree⟩
    · obtain ⟨hg, hfree'⟩ := h.slot q u hu (heq ▸ hgets)
      exact ⟨heq ▸ hg, heq ▸ hfree'⟩
  taken_lt u hu p hp := (h.taken_lt u hu p hp).trans_le hnext
  single q g hg := h.single q g (hlog ▸ hg)
  named u hu hreceive hgets := hlog ▸ h.named u hu hreceive hgets

theorem step_promises {r : Nat} {f : JSValue} (hl : LoadsPassed rt l) (hstep : step rt l = some rt')
    (hf : .getsPromise r f ∈ rt'.log) : .getsPromise r f ∈ rt.log ∨ f = .object (rt.next + 1) := by
  by_cases hstart : l = .startJob
  · subst hstart
    obtain ⟨e, es, hrunning, hjobs, rfl⟩ := jsStartPendingJob_eq_some hstep
    refine .inl ((List.mem_append.mp hf).resolve_right ?_)
    unfold JSJobEntry.observation
    split <;> simp
  · by_cases hend : l = .endJob
    · subst hend
      exact (jsFinishPendingJob_confined hstep).2.promises r f hf
    · exact (step_confined hl hstart hend hstep).promises r f hf

/-- What a step other than a receive event does about the promises. -/
theorem Promises.change (h : Promises rt taken) (hready : Ready rt pend lost)
    {lost' : JSValue → Nat} (hready' : Ready rt' [] lost') (hnone : NoTimers rt)
    (hsocket : SocketProgram l) (hl : LoadsPassed rt l) (hstep : step rt l = some rt')
    (hc : Change l rt rt') :
    Promises rt' taken := by
  have hacc := fun p => @step_accessible rt rt' l hl hstep p
  -- the rule for all cases but a new promise
  have carry : ∀ (mid : JSRuntime) (obs : List Observation), Evolves mid rt' →
      rt.next = mid.next → mid.log = rt.log ++ obs → (∀ r f, .getsPromise r f ∉ obs) →
      (∀ q t, mid.sockets q = some t → t.asyncGets0 ≠ .undefined →
        ∃ u, rt.sockets q = some u ∧ u.asyncGets0 = t.asyncGets0) → Promises rt' taken := by
    intro mid obs hev hnext hlog hobs hslots
    refine h.carry ⟨hnext.trans_le hev.next_le, fun r f => ?_, hacc,
      fun q t ht => hslots q t (hev.socket_before ht)⟩
    rw [hev.log, hlog, List.mem_append]
    exact or_iff_left (hobs r f)
  have same : ∀ q t, rt.sockets q = some t → t.asyncGets0 ≠ .undefined →
      ∃ u, rt.sockets q = some u ∧ u.asyncGets0 = t.asyncGets0 := fun q t ht _ => ⟨t, ht, rfl⟩
  cases hc with
  | quiet hev => exact carry rt [] hev rfl (by simp) (by simp) same
  | armed q tmr hlabel hq hlt halarm hfunc hafter hev => exact absurd hlabel hsocket
  | cleared t q tmr hlabel hptr hq ht hev => simp [hnone q] at ht
  | expired q tmr ht halarm hkept hev => simp [hnone q] at ht
  | delivered q tmr ok ht hq hev => simp [hnone q] at ht
  | queued argv ok hev =>
    cases ok with
    | true => exact carry _ [] hev rfl (by simp [posted]) (by simp) same
    | false => exact carry _ [_] hev rfl rfl (by simp) same
  | started e es hrunning hjobs hev =>
    refine carry _ e.observation hev rfl rfl (fun r f => ?_) same
    unfold JSJobEntry.observation
    split <;> simp
  | finished hev => exact carry _ [] hev rfl (by simp) (by simp) same
  | opened q handle hq hev =>
    refine carry _ [] hev rfl (by simp) (by simp) fun q' t ht hgets => ?_
    simp only [update_apply] at ht
    split at ht
    · obtain rfl := Option.some.inj ht
      exact absurd rfl hgets
    · exact ⟨t, ht, rfl⟩
  | assigned q s value hs hev =>
    refine carry _ [] hev rfl (by simp) (by simp) fun q' t ht hgets => ?_
    simp only [update_apply] at ht
    split at ht
    · next heq =>
      obtain rfl := Option.some.inj ht
      exact ⟨s, heq ▸ hs, rfl⟩
    · exact ⟨t, ht, rfl⟩
  | promised q s p reject hs hgets hp hfunc hreject hev =>
    have hnew : .getsPromise q (.object p) ∈ rt'.log := by simp [hev.log]
    obtain rfl : p = rt.next + 1 := by
      rcases step_promises hl hstep hnew with hold | heq
      · obtain ⟨p', heq, hp'⟩ := h.lt q _ hold
        have := JSValue.object.inj heq
        omega
      · exact JSValue.object.inj heq
    have hfresh : (rt'.objects (rt.next + 1)).isSome := isFunction_live hfunc
    refine h.promised hready hev.next_le (hready'.owned.objects_lt _ hfresh) (r := q)
      (fun q' f => ?_) hacc fun q' t ht hgets' => ?_
    · simp [hev.log]
    · have hbefore := hev.socket_before ht
      simp only [update_apply] at hbefore
      split at hbefore
      · next heq =>
        obtain rfl := Option.some.inj hbefore
        exact .inl ⟨heq, rfl⟩
      · exact .inr ⟨t, hbefore, rfl⟩

end Promises

end IoQuickJS
