import IoQuickJS.Gets

/-!
# The reference counts of socket slots

Every reference counted for a value stands in a slot, unless an assignment of undefined to
on_receive has lost it. And a receive event does not free the record it is working on, as long
as something outside the record leads to the socket object.
-/
namespace IoQuickJS

open Function (update update_self update_of_ne)

/-- Every value is counted once for each slot that contains it. -/
def Balanced (rt : JSRuntime) : Prop := ∀ v, v.hasRefCount → rt.refCount v = rt.tally v

/-- A frame, a queued job or the running job leads to the object at `p`. -/
def Rooted (rt : JSRuntime) (p : Nat) : Prop :=
  Reach.Reachable (fun q => .object q ∈ rt.stack ∨ .object q ∈ rt.jobList.flatMap JSJobEntry.argv ∨
    .object q ∈ rt.running.elim [] JSJobEntry.argv) (children rt) p

/-- Data for a socket with an outstanding promise arrives while something leads to the socket
object. -/
def ReceivesRooted (rt : JSRuntime) : Label → Prop
  | .receive r pipe buffer _ => pipe.chunks buffer ≠ [] →
      ∀ s, rt.sockets r = some s → s.asyncGets0 ≠ .undefined →
        ∀ p, rt.opaqueOf p .ioSocket = some r → Rooted rt p
  | _ => True

section Rooted

variable {a b : JSRuntime} {pend : List JSValue} {lost : JSValue → Nat}

/-- A release leaves the record of an object that is left alone as it is. -/
theorem Shrinks.timer_of_object (h : Shrinks a b) (hb : Owned b) {p r : Nat}
    (hp : b.opaqueOf p .ioTimer = some r) : b.timers r = a.timers r := by
  obtain ⟨tmr, ht, hhas⟩ := hb.timer_record p r hp
  rcases h.timers r with hsame | ⟨old, -, -, ⟨-, hnew⟩ | ⟨-, hnew⟩⟩
  · exact hsame
  · obtain rfl : tmr = { old with hasObject := false } := Option.some.inj (ht.symm.trans hnew)
    cases hhas
  · simp [ht] at hnew

theorem Shrinks.socket_of_object (h : Shrinks a b) (hb : Owned b) {p r : Nat}
    (hp : b.opaqueOf p .ioSocket = some r) : b.sockets r = a.sockets r := by
  have hsome := hb.socket_record p r hp
  rcases h.sockets r with hsame | hnone
  · exact hsame
  · simp [hnone] at hsome

/-- What something leads to survives a release. -/
theorem Rooted.survives {p : Nat} (h : Rooted a p) (hshrinks : Shrinks a b)
    (hready : Ready b pend lost) :
    b.objects p = a.objects p ∧ (b.objects p).isSome := by
  have hkeep : ∀ q, b.live (.object q) → b.objects q = a.objects q ∧ (b.objects q).isSome := by
    intro q hq
    rcases hshrinks.objects q with hsame | hnone
    · exact ⟨hsame, hq⟩
    · simp [JSRuntime.live, hnone] at hq
  refine hkeep p ?_
  induction h with
  | root hq =>
    rcases hq with hq | hq | hq
    · exact hready.live_of_stack (hshrinks.stack ▸ hq)
    · exact hready.live_of_job (hshrinks.jobList ▸ hq)
    · exact hready.live_of_running (hshrinks.running ▸ hq)
  | @step u w _ hw ih =>
    obtain ⟨hsame, hsome⟩ := hkeep u ih
    obtain ⟨o, ho⟩ := Option.isSome_iff_exists.mp hsome
    have ho' := hsame ▸ ho
    rw [mem_children, markList, ho', Option.elim_some, List.mem_append] at hw
    rcases hw with hw | hw
    · exact hready.live_of_prop (p := u) (by simpa [JSRuntime.prop, ho] using hw)
    · unfold gcMark at hw
      split at hw
      · next r hcls hptr =>
        have hr : b.opaqueOf u .ioTimer = some r := by
          simp [JSRuntime.getOpaque, ho, JSObject.opaqueAs, hcls, hptr]
        rw [← hshrinks.timer_of_object hready.owned hr] at hw
        obtain ⟨tmr, ht, -⟩ := hready.owned.timer_record u r hr
        exact hready.live_of_timer ht (by simp_all [JSIOTimer.slots])
      · next r hcls hptr =>
        have hr : b.opaqueOf u .ioSocket = some r := by
          simp [JSRuntime.getOpaque, ho, JSObject.opaqueAs, hcls, hptr]
        rw [← hshrinks.socket_of_object hready.owned hr] at hw
        obtain ⟨s, hs⟩ := Option.isSome_iff_exists.mp (hready.owned.socket_record u r hr)
        exact hready.live_of_socket hs (by simpa [hs] using hw)
      · cases hw

end Rooted

section Receive

variable {rt rt' : JSRuntime} {lost : JSValue → Nat} {r : Nat} {s : IoJsIoSocket}

/-- The socket object is still rooted when the functions of its promise have been taken out. -/
theorem Rooted.cleared {mid : JSRuntime} {p : Nat} (hown : Owned rt) (h : Rooted rt p)
    (hp : rt.opaqueOf p .ioSocket = some r)
    (hsame : SameHeap { rt with sockets := update rt.sockets r (some s.cleared) } mid)
    (hjobs : ∃ es, mid.jobList = rt.jobList ++ es) (hrunning : mid.running = rt.running) :
    Rooted mid p := by
  obtain ⟨hstack, hobjects, htimers, hsockets⟩ := hsame
  obtain ⟨es, hjobs⟩ := hjobs
  refine Reach.Reachable.avoid (fun q hq => ?_) (fun u hu w hw => ?_) h
  · rw [hstack, hjobs, hrunning]
    rcases hq with hq | hq | hq
    · exact .inl hq
    · exact .inr (.inl (by rw [List.flatMap_append]; exact List.mem_append_left _ hq))
    · exact .inr (.inr hq)
  · -- only the marks of the socket object itself have changed
    rw [mem_children] at hw ⊢
    unfold markList at hw ⊢
    rw [hobjects]
    cases ho : rt.objects u with
    | none => simp [ho] at hw
    | some o =>
      rw [ho, Option.elim_some, List.mem_append] at hw
      rw [Option.elim_some, List.mem_append]
      refine hw.imp_right fun hw => ?_
      unfold gcMark at hw ⊢
      rw [htimers, hsockets]
      split at hw
      · exact hw
      · next q hcls hptr =>
        have hq : q ≠ r := by
          rintro rfl
          refine hu (hown.socket_inj u p q ?_ hp)
          simp [JSRuntime.getOpaque, ho, JSObject.opaqueAs, hcls, hptr]
        simpa [hq] using hw
      · cases hw

theorem jsFreeValueRT_of_not_object (hzero : rt.gcZeroRefCountList = []) {v : JSValue}
    (hv : ∀ p, v ≠ .object p) :
    SameHeap rt (jsFreeValueRT rt v) ∧ (jsFreeValueRT rt v).gcZeroRefCountList = [] := by
  have hfree := (freeValueIn_countsOnly .decref rt v).sameHeap
  have hzero' : (freeValueIn .decref rt v).gcZeroRefCountList = [] := by
    unfold freeValueIn freeValueAtZero
    cases v with
    | object p => exact absurd rfl (hv p)
    | string p =>
      dsimp only
      split_ifs <;> exact hzero
    | _ => exact hzero
  have hloop : jsFreeValueRT rt v = freeValueIn .decref rt v := by
    unfold jsFreeValueRT freeZeroRefcount
    generalize (freeValueIn .decref rt v).gcObjList.length + _ = n
    cases n with
    | zero => rfl
    | succ n => rw [freeZeroRefcountLoop, hzero']
  rw [hloop]
  exact ⟨hfree, hzero'⟩

theorem foldl_free_of_not_object {vs : List JSValue} (hzero : rt.gcZeroRefCountList = [])
    (hvs : ∀ v ∈ vs, ∀ p, v ≠ .object p) : SameHeap rt (vs.foldl jsFreeValueRT rt) := by
  induction vs generalizing rt with
  | nil => exact ⟨rfl, rfl, rfl, rfl⟩
  | cons v vs ih =>
    obtain ⟨hsame, hzero'⟩ := jsFreeValueRT_of_not_object hzero (hvs v (by simp))
    exact hsame.trans (ih hzero' fun w hw => hvs w (by simp [hw]))

/-- A receive event goes through as long as the release of the promise does not free the record. -/
theorem jsIoSocketReceiveCallback_isSome (h : Sound rt lost) (hs : rt.sockets r = some s)
    (hroot : s.asyncGets0 ≠ .undefined → ∀ p, rt.opaqueOf p .ioSocket = some r → Rooted rt p)
    (bytes : List UInt8) (strOk enqOk : Bool) :
    (jsIoSocketReceiveCallback rt r bytes strOk enqOk).isSome := by
  by_cases hconsumer : s.consumer = .undefined
  · simp [jsIoSocketReceiveCallback_ignored hs hconsumer]
  · obtain ⟨mid, str, hnot, heq, hready, hsame, hevolves⟩ :=
      jsIoSocketReceiveCallback_mid h.ready hs hconsumer bytes strOk enqOk
    have hmid : mid.sockets r = some s.cleared := by simp [hsame.2.2.2]
    obtain ⟨hfree, hshrinks⟩ := hready.foldl_free
    have hkept :
        (([str, s.asyncGets0, s.asyncGets1].foldl jsFreeValueRT mid).sockets r).isSome := by
      by_cases hgets : s.asyncGets0 = .undefined
      · -- nothing but the string is released
        have hfreed : SameHeap mid ([str, s.asyncGets0, s.asyncGets1].foldl jsFreeValueRT mid) :=
          foldl_free_of_not_object hready.zero (by simp [hnot, hgets, (h.paired r s hs).mp hgets])
        rw [hfreed.2.2.2, hmid]
        rfl
      · obtain ⟨p, hp⟩ := h.ready.owned.socket_object r (by simp [hs])
        have hrooted : Rooted mid p := by
          refine (hroot hgets p hp).cleared h.ready.owned hp hsame ?_ ?_
          · rw [hevolves.jobList]
            cases enqOk
            · exact ⟨[], by simp [posted]⟩
            · exact ⟨_, rfl⟩
          · rw [hevolves.running]
            cases enqOk <;> rfl
        obtain ⟨hobject, -⟩ := hrooted.survives hshrinks hfree
        refine hfree.owned.socket_record p r ?_
        simpa only [JSRuntime.getOpaque, hobject, hsame.2.1] using hp
    rw [heq]
    dsimp only
    rw [if_pos hkept]
    rfl

/-- The same for all the chunks of one event. -/
theorem receiveChunks_isSome {chunks : List (List UInt8)} {mem : List (Bool × Bool)}
    (h : Sound rt lost) (hs : rt.sockets r = some s)
    (hroot : chunks ≠ [] → s.asyncGets0 ≠ .undefined →
      ∀ p, rt.opaqueOf p .ioSocket = some r → Rooted rt p) :
    (receiveChunks r rt chunks mem).isSome := by
  induction chunks generalizing rt s mem with
  | nil => rfl
  | cons chunk chunks ih =>
    obtain ⟨mid, hmid⟩ := Option.isSome_iff_exists.mp (jsIoSocketReceiveCallback_isSome h hs
      (hroot (by simp)) chunk (mem.headD (true, true)).1 (mem.headD (true, true)).2)
    rw [receiveChunks, hmid, Option.bind_some]
    rcases receiveCallback_received h hmid with ⟨rfl, -⟩ | ⟨hsound, t, jobs, obs, hc, -⟩
    · exact ih h hs fun _ => hroot (by simp)
    · exact ih hsound hc.kept fun _ hgets => absurd rfl hgets

end Receive

/-- In every run over socket objects that never assigns undefined in place of a receive
callback, the counts balance; and receive events that find their socket object rooted go
through. -/
theorem sockets_balanced {ls : List Label} {rt : JSRuntime}
    (hmeets : Transition.Meets step (fun rt l => SocketProgram l ∧ Leakless rt l)
      jsNewRuntime ls)
    (hrun : Transition.run step jsNewRuntime ls = some rt) :
    Balanced rt ∧ ∀ r pipe buffer mem, (rt.sockets r).isSome →
      ReceivesRooted rt (.receive r pipe buffer mem) →
      (step rt (.receive r pipe buffer mem)).isSome := by
  have hend : Sound rt (fun _ => 0) ∧ NoTimers rt := by
    refine run_leakless (fun _ => rfl) (fun u l hI hc => ⟨fun _ => hI.gcSafe, hc.2⟩) hmeets
      (fun u l v _ _ hc _ hchange hI => ?_) hrun
    rcases hchange with hchange | ⟨_, _, _, _, _, _, _, -, hreceived, -, -⟩
    · exact hI.change hc.1 hchange
    · exact NoTimers.evolves (by exact hI) hreceived.evolves
  refine ⟨fun v hv => ?_, fun r pipe buffer mem hsome hroot => ?_⟩
  · have hcount := hend.1.ready.counted.count v hv
    simpa using hcount
  · obtain ⟨s, hs⟩ := Option.isSome_iff_exists.mp hsome
    simp only [step, jsIoSocketReadBytes, hsome, if_true]
    exact receiveChunks_isSome hend.1 hs fun hchunks hgets => hroot hchunks s hs hgets


/-- A callback is assigned once, called for a line that arrives, and given up with the socket. -/
def callbackAssigned : List Label :=
  [.newSocket 0 true, .newObject .function, .setReceive (.object 1) (.object 3),
    .receive 2 (.encoding (some [104, 105])) (fun _ => 0) [], .startJob, .endJob, .drop (.object 1)]

theorem sockets_balanced_callback :
    ∃ rt, Transition.run step jsNewRuntime callbackAssigned = some rt ∧ Balanced rt := by
  have hmeets : Transition.Meets step (fun rt l => SocketProgram l ∧ Leakless rt l)
      jsNewRuntime callbackAssigned :=
    Transition.meets_of_forall fun _ l hl => by
      simp only [callbackAssigned, List.mem_cons, List.not_mem_nil, or_false] at hl
      rcases hl with rfl | rfl | rfl | rfl | rfl | rfl | rfl
      · exact ⟨id, trivial⟩
      · exact ⟨id, trivial⟩
      · exact ⟨id, nofun⟩
      all_goals exact ⟨id, trivial⟩
  exact ⟨_, rfl, (sockets_balanced hmeets rfl).1⟩

/-- The callback is given up before the socket. -/
def callbackRemoved : List Label :=
  [.newSocket 0 true, .newObject .function, .setReceive (.object 1) (.object 3),
    .setReceive (.object 1) .undefined]

theorem sockets_leaked : ¬ ∀ ls rt, Transition.Meets step (fun _ l => SocketProgram l)
    jsNewRuntime ls → Transition.run step jsNewRuntime ls = some rt → Balanced rt := by
  intro h
  have hmeets : Transition.Meets step (fun _ l => SocketProgram l) jsNewRuntime callbackRemoved :=
    Transition.meets_of_forall fun _ l hl => by
      simp only [callbackRemoved, List.mem_cons, List.not_mem_nil, or_false] at hl
      rcases hl with rfl | rfl | rfl | rfl <;> exact id
  have hend : (Transition.run step jsNewRuntime callbackRemoved).map
      (fun rt => (rt.refCount (.object 3), rt.tally (.object 3))) = some (2, 1) := by decide
  obtain ⟨rt, hrun, hrt⟩ := Option.map_eq_some_iff.mp hend
  simp only [Prod.mk.injEq] at hrt
  have hbalance := h callbackRemoved rt hmeets hrun (.object 3) rfl
  omega

end IoQuickJS
