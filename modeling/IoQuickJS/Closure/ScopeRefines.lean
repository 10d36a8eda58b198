import IoQuickJS.Closure.ScopeSteps

/-!
# Closures share cells

From an empty heap no step uses a reference that has been freed, leaves a buffer or fails an
assertion, and the steps put out what they do when variables are cells. A step that allocates may
throw for want of memory, and then leaves every variable as it is; only the length of a mapped
arguments object is used whether it has been added or not.
-/
namespace IoQuickJS.Closure

open Function (update)
open Simulation (Matched trace orFail)

variable {V : Type} {g : Nat → Nat} {s s' : VarHeap V} {t t' : Scopes V} {l : Label V}
  {out : Output V} {a f i p c : Nat} {b : Bool}

/-- The references stand for cells, and all of them are held by objects. -/
def Represents (s : VarHeap V) (t : Scopes V) : Prop := ∃ g, Refines g [] s t

/-- One step: what it means or, when memory is short, a failure. -/
def Answered (l : Label V) (t : Scopes V) (r : Option (VarHeap V × Output V)) : Prop :=
  ∃ b, (b = true → l.enough = false) ∧ Matched Represents r (orFail Scopes.step .exception t (l, b))

theorem Answered.done (h : Refines g [] s' t') (hl : t.perform l = (t', out)) :
    Answered l t (some (s', out)) := by
  refine ⟨false, nofun, ?_⟩
  rw [orFail, if_neg (by simp), Scopes.step, hl]
  exact .some out ⟨g, h⟩

theorem Answered.failed (h : Refines g [] s' t) (hl : l.enough = false) :
    Answered l t (some (s', .exception)) := by
  refine ⟨true, fun _ => hl, ?_⟩
  rw [orFail, if_pos rfl]
  exact .some _ ⟨g, h⟩

/-- An operation that no bytecode has does nothing. -/
theorem Refines.invalid (h : Refines g [] s t) (hvalid : s.valid l = false)
    (hl : t.perform l = (t, .invalid)) : Answered l t (s.step l) := by
  rw [VarHeap.step, if_neg (by simp [hvalid])]
  exact .done h hl

theorem Answered.valid (hvalid : s.valid l = true) (h : Answered l t (s.perform l)) :
    Answered l t (s.step l) := by
  rwa [VarHeap.step, if_pos hvalid]

/-! ## Operands -/

theorem Refines.hasLocal (h : Refines g [] s t) (f : Nat) (b : Bool) (i : Nat) :
    (s.frames f).any (fun sf => i < (sf.buf b).length) = (t.localAt f b i).isSome := by
  cases hf : s.frames f with
  | none =>
    rw [Scopes.localAt, h.noFrame f hf]
    rfl
  | some sf =>
    obtain ⟨tf, ht, hm⟩ := h.frame f sf hf
    rw [Scopes.localAt_of_frame ht, Option.any_some, hm.buf, List.length_map]
    grind

theorem VarHeap.hasRef (s : VarHeap V) (p i : Nat) :
    (s.objects p).any (fun refs => refs[i]?.join.isSome) = (s.refAt p i).isSome := by
  unfold VarHeap.refAt
  cases s.objects p <;> rfl

theorem VarHeap.curVarRefs_getElem? (s : VarHeap V) (sf : JSStackFrame V) (i : Nat) :
    (s.curVarRefs sf)[i]?.join = s.refAt sf.curFunc i := by
  unfold VarHeap.curVarRefs VarHeap.refAt
  cases s.objects sf.curFunc <;> rfl

theorem Refines.captures {sf : JSStackFrame V} (h : Refines g [] s t) (hf : s.frames f = some sf)
    (capture : Capture) : s.captures sf capture = (t.capture f capture).isSome := by
  cases capture with
  | «local» b i => exact (by rw [hf]; rfl : _ = _).trans (h.hasLocal f b i)
  | outer i =>
    obtain ⟨tf, ht, hm⟩ := h.frame f sf hf
    rw [Scopes.refAt_of_frame ht, h.refAt, hm.curFunc, Option.isSome_map, VarHeap.captures,
      VarHeap.curVarRefs_getElem?]

/-! ## Objects that capture variables -/

theorem mapM_eq_some {α β : Type} {F : α → Option β} {xs : List α} (h : ∀ x ∈ xs, (F x).isSome) :
    ∃ ys, xs.mapM F = some ys ∧ List.Forall₂ (fun x y => F x = some y) xs ys := by
  induction xs with
  | nil => exact ⟨[], rfl, .nil⟩
  | cons x xs ih =>
    obtain ⟨y, hy⟩ := Option.isSome_iff_exists.mp (h x List.mem_cons_self)
    obtain ⟨ys, hys, hall⟩ := ih fun z hz => h z (List.mem_cons_of_mem _ hz)
    exact ⟨y :: ys, by simp [hy, hys], .cons hy hall⟩

theorem mapM_eq_none {α β : Type} {F : α → Option β} {xs : List α} {x : α} (hx : x ∈ xs)
    (hnone : F x = none) : xs.mapM F = none := by
  induction xs with
  | nil => cases hx
  | cons z xs ih =>
    rcases List.mem_cons.mp hx with rfl | hx
    · simp [hnone]
    · simp [ih hx]

theorem Refines.newHolder (h : Refines g [] s t) {captures : List (Capture × CaptureMemory)}
    {object rest : Bool} {out : Nat → Output V} {tf : ScopeFrame} {cs : List Nat}
    (ht : t.frames f = some tf)
    (hcs : (captures.map Prod.fst).mapM (t.capture f) = some cs)
    (hall : List.Forall₂ (fun capture c => t.capture f capture.1 = some c) captures cs)
    (hl : t.perform l = t.newHolder f (captures.map Prod.fst) out)
    (henough : l.enough = (object && (captures.all fun capture => capture.2.enough) && rest)) :
    Answered l t (s.newHolder f object captures rest out) := by
  cases object with
  | false => exact .failed h henough
  | true =>
    obtain ⟨s', as, all, g', htake, -, h', hcells, hshort⟩ := h.takeVarRefs hall
    rw [VarHeap.newHolder, if_pos rfl, htake, Option.bind_eq_bind, Option.bind_some]
    cases hmade : all && rest with
    | true =>
      obtain ⟨rfl, rfl⟩ := Bool.and_eq_true_iff.mp hmade
      obtain rfl := hcells rfl
      refine .done h'.newObject (hl.trans ?_)
      rw [Scopes.newHolder, ht, hcs, ← h'.nextObject]
    | false =>
      rw [← heldBy_map_some as] at h'
      obtain ⟨s'', hfree, h''⟩ := h'.freeVarRefs
      simp only [hmade, hfree, Option.map_some, Bool.false_eq_true, if_false]
      refine .failed h'' (henough.trans ?_)
      rcases Bool.and_eq_false_iff.mp hmade with rfl | rfl
      · obtain ⟨capture, hmem, hmemory⟩ := hshort rfl
        have hnot : (captures.all fun capture => capture.2.enough) = false :=
          List.all_eq_false.mpr ⟨capture, hmem, by simp [CaptureMemory.enough, hmemory]⟩
        rw [hnot]
        rfl
      · exact Bool.and_false _

/-- A step that makes an object which captures variables. -/
theorem Refines.onHolder (h : Refines g [] s t) {captures : List (Capture × CaptureMemory)}
    {object rest : Bool} {out : Nat → Output V}
    (hperform : s.perform l = s.newHolder f object captures rest out)
    (hvalid : s.valid l = (s.frames f).any fun sf => captures.all fun c => s.captures sf c.1)
    (hl : t.perform l = t.newHolder f (captures.map Prod.fst) out)
    (henough : l.enough = (object && (captures.all fun capture => capture.2.enough) && rest)) :
    Answered l t (s.step l) := by
  cases hf : s.frames f with
  | none =>
    refine h.invalid (by rw [hvalid, hf]; rfl) (hl.trans ?_)
    rw [Scopes.newHolder, h.noFrame f hf]
  | some sf =>
    obtain ⟨tf, ht, -⟩ := h.frame f sf hf
    rw [hf, Option.any_some] at hvalid
    by_cases hall : ∀ capture ∈ captures, (t.capture f capture.1).isSome
    · obtain ⟨cs, hcs, hcells⟩ := mapM_eq_some hall
      refine .valid ?_ ?_
      · rw [hvalid, List.all_eq_true]
        exact fun capture hmem => (h.captures hf capture.1).trans (hall capture hmem)
      · rw [hperform]
        refine h.newHolder ht ?_ hcells hl henough
        rwa [List.mapM_map]
    · obtain ⟨capture, hmem, hnone⟩ : ∃ capture ∈ captures, t.capture f capture.1 = none := by
        simpa using hall
      refine h.invalid ?_ (hl.trans ?_)
      · rw [hvalid, List.all_eq_false]
        exact ⟨capture, hmem, by rw [h.captures hf, hnone]; simp⟩
      · rw [Scopes.newHolder, ht, mapM_eq_none (List.mem_map_of_mem hmem) hnone]

/-! ## One step -/

theorem Answered.getLocal (h : Refines g [] s t) (access : Access) :
    Answered (.getLocal f b i access) t (s.step (.getLocal f b i access)) := by
  have hlocal := h.hasLocal f b i
  cases hc : t.localAt f b i with
  | none =>
    rw [hc] at hlocal
    exact h.invalid hlocal (by rw [Scopes.perform, hc]; rfl)
  | some c =>
    rw [hc] at hlocal
    refine .valid hlocal ?_
    rw [VarHeap.perform, h.loadLocal, hc]
    exact .done h (by rw [Scopes.perform, hc]; rfl)

theorem Answered.putLocal (h : Refines g [] s t) (val : VarValue V) (access : Access) :
    Answered (.putLocal f b i val access) t (s.step (.putLocal f b i val access)) := by
  have hlocal := h.hasLocal f b i
  cases hc : t.localAt f b i with
  | none =>
    rw [hc] at hlocal
    exact h.invalid hlocal (by rw [Scopes.perform, hc]; rfl)
  | some c =>
    rw [hc] at hlocal
    refine .valid hlocal ?_
    rw [VarHeap.perform, h.loadLocal, hc, Option.map_some, Option.bind_eq_bind, Option.bind_some]
    split
    · next hthrows => exact .done h (by rw [Scopes.perform, hc, Scopes.put, if_pos hthrows])
    · next hthrows =>
      obtain ⟨s', hs', h'⟩ := h.storeLocal hc val
      rw [hs', Option.map_some]
      exact .done h' (by rw [Scopes.perform, hc, Scopes.put, if_neg hthrows])

theorem Answered.getVarRef (h : Refines g [] s t) (access : Access) :
    Answered (.getVarRef p i access) t (s.step (.getVarRef p i access)) := by
  have hvalid := s.hasRef p i
  have hcell := h.refAt p i
  cases ha : s.refAt p i with
  | none =>
    rw [ha] at hvalid hcell
    exact h.invalid hvalid (by rw [Scopes.perform, hcell]; rfl)
  | some a =>
    rw [ha] at hvalid hcell
    refine .valid hvalid ?_
    obtain ⟨r, hr⟩ := h.allocated_of_refAt ha
    rw [VarHeap.perform, ha, Option.bind_eq_bind, Option.bind_some, h.load hr]
    exact .done h (by rw [Scopes.perform, hcell]; rfl)

theorem Answered.putVarRef (h : Refines g [] s t) (val : VarValue V) (access : Access) :
    Answered (.putVarRef p i val access) t (s.step (.putVarRef p i val access)) := by
  have hvalid := s.hasRef p i
  have hcell := h.refAt p i
  cases ha : s.refAt p i with
  | none =>
    rw [ha] at hvalid hcell
    exact h.invalid hvalid (by rw [Scopes.perform, hcell]; rfl)
  | some a =>
    rw [ha] at hvalid hcell
    refine .valid hvalid ?_
    obtain ⟨r, hr⟩ := h.allocated_of_refAt ha
    rw [Option.map_some] at hcell
    rw [VarHeap.perform, ha, Option.bind_eq_bind, Option.bind_some, h.load hr,
      Option.bind_eq_bind, Option.bind_some]
    split
    · next hthrows => exact .done h (by rw [Scopes.perform, hcell, Scopes.put, if_pos hthrows])
    · next hthrows =>
      obtain ⟨s', hs', h'⟩ := h.store hr val
      rw [hs', Option.map_some]
      exact .done h' (by rw [Scopes.perform, hcell, Scopes.put, if_neg hthrows])

theorem Answered.closeLoc (h : Refines g [] s t) :
    Answered (.closeLoc f i) t (s.step (.closeLoc f i)) := by
  have hvalid := h.hasLocal f false i
  cases hf : s.frames f with
  | none =>
    have ht := h.noFrame f hf
    rw [Scopes.localAt, ht] at hvalid
    exact h.invalid hvalid (by rw [Scopes.perform, ht])
  | some sf =>
    obtain ⟨tf, ht, -⟩ := h.frame f sf hf
    rw [Scopes.localAt_of_frame ht] at hvalid
    change _ = (tf.vars[i]?).isSome at hvalid
    cases hi : tf.vars[i]? with
    | none =>
      rw [hi] at hvalid
      refine h.invalid hvalid ?_
      simp only [Scopes.perform, ht, hi]
    | some c =>
      rw [hi] at hvalid
      refine .valid hvalid ?_
      obtain ⟨s', l, hclose, h'⟩ := h.closeLoc hf ht hi
      rw [VarHeap.perform, hf, Option.bind_eq_bind, Option.bind_some, hclose]
      refine .done h' ?_
      simp only [Scopes.perform, ht, hi]

theorem Answered.freeProperty (h : Refines g [] s t) :
    Answered (.freeProperty p i) t (s.step (.freeProperty p i)) := by
  have hvalid := s.hasRef p i
  have hcell := h.refAt p i
  cases ha : s.refAt p i with
  | none =>
    rw [ha] at hvalid hcell
    refine h.invalid hvalid ?_
    rw [Scopes.perform, hcell]
    split
    · next heq => cases heq
    · rfl
  | some a =>
    rw [ha] at hvalid hcell
    refine .valid hvalid ?_
    obtain ⟨refs, hp, hrefs⟩ := Option.bind_eq_some_iff.mp ha
    rw [Option.join_eq_some_iff] at hrefs
    have h₁ : Refines g [a] _ _ := h.setObject hp (some (refs.set i none)) fun x => by
      rw [Ledger.entry_some, (heldBy_set hrefs).count_eq, List.count_nil, ← List.count_append]
      exact (List.perm_append_comm.count_eq x).trans (by rfl)
    obtain ⟨s', hfree, h'⟩ := h₁.freeVarRef
    rw [VarHeap.perform, hp, Option.bind_eq_bind, Option.bind_some, ha, Option.bind_eq_bind,
      Option.bind_some]
    dsimp only
    rw [hfree, Option.map_some]
    refine .done h' ?_
    simp only [Scopes.perform, h.objects, hp, hcell, Option.map_some, List.map_set, Option.map_none]

theorem Answered.freeObject (h : Refines g [] s t) :
    Answered (.freeObject p) t (s.step (.freeObject p)) := by
  have hobjects := h.objects p
  cases hp : s.objects p with
  | none =>
    rw [hp] at hobjects
    exact h.invalid (by rw [VarHeap.valid, hp]; rfl) (by rw [Scopes.perform, hobjects]; rfl)
  | some refs =>
    rw [hp] at hobjects
    refine .valid (by rw [VarHeap.valid, hp]; rfl) ?_
    have h₁ : Refines g (heldBy refs ++ []) _ _ := h.setObject hp none fun x => by simp
    obtain ⟨s', hfree, h'⟩ := h₁.freeVarRefs
    rw [VarHeap.perform, hp, Option.bind_eq_bind, Option.bind_some]
    dsimp only
    rw [hfree, Option.map_some]
    exact .done h' (by rw [Scopes.perform, hobjects]; rfl)

theorem Answered.leave (h : Refines g [] s t) : Answered (.leave f) t (s.step (.leave f)) := by
  cases hf : s.frames f with
  | none =>
    refine h.invalid (by rw [VarHeap.valid, hf]; rfl) ?_
    rw [Scopes.perform, h.noFrame f hf]
  | some sf =>
    obtain ⟨tf, ht, -⟩ := h.frame f sf hf
    obtain ⟨s', hclose, h'⟩ := h.leave hf
    refine .valid (by rw [VarHeap.valid, hf]; rfl) ?_
    rw [VarHeap.perform, hf, Option.bind_eq_bind, Option.bind_some, hclose]
    exact .done h' (by rw [Scopes.perform, ht])

theorem Answered.closure (h : Refines g [] s t) (object : Bool)
    (captures : List (Capture × Bool)) (rest : Bool) :
    Answered (.closure f object captures rest) t (s.step (.closure f object captures rest)) := by
  have hperform : s.perform (.closure f object captures rest) =
      s.newHolder f object (captures.map fun c => (c.1, ⟨c.2, true⟩)) rest .object := rfl
  refine h.onHolder hperform ?_ ?_ ?_
  · simp only [VarHeap.valid, List.all_map, Function.comp_def]
  · simp only [Scopes.perform, List.map_map, Function.comp_def]
  · simp only [Label.enough, CaptureMemory.enough, List.all_map, Function.comp_def, Bool.and_true]

theorem Answered.mappedArguments (h : Refines g [] s t) (argCount : Nat)
    {memory : ArgumentsMemory}
    (hlength : (.mappedArguments f argCount memory : Label V).addsLength = true) :
    Answered (.mappedArguments f argCount memory) t
      (s.step (.mappedArguments f argCount memory)) := by
  have hperform : s.perform (.mappedArguments f argCount memory) =
      s.newHolder f memory.object ((List.range argCount).map fun i => (.local true i,
        memory.captures i)) memory.rest memory.output := by
    refine if_neg ?_
    simpa [Label.addsLength, or_iff_not_imp_left] using hlength
  refine h.onHolder hperform ?_ ?_ ?_
  · refine congrArg (fun P => (s.frames f).any P) (funext fun sf => ?_)
    rw [Bool.eq_iff_iff, decide_eq_true_iff, List.all_map, List.all_eq_true]
    refine ⟨fun hle i hi => decide_eq_true ((List.mem_range.mp hi).trans_le hle), fun hall => ?_⟩
    by_contra hlt
    exact absurd (of_decide_eq_true (hall _ (List.mem_range.mpr (Nat.lt_of_not_le hlt))))
      (Nat.lt_irrefl _)
  · simp only [Scopes.perform, List.map_map, Function.comp_def]
  · simp only [Label.enough, List.all_map, Function.comp_def]

theorem Answered.makeRef (h : Refines g [] s t) (capture : Capture) (object : Bool)
    (memory : CaptureMemory) :
    Answered (.makeRef f capture object memory) t (s.step (.makeRef f capture object memory)) := by
  have hperform : s.perform (.makeRef f capture object memory) =
      s.newHolder f object [(capture, memory)] true .object := rfl
  refine h.onHolder hperform ?_ rfl ?_
  · simp only [VarHeap.valid, List.all_cons, List.all_nil, Bool.and_true]
  · simp only [Label.enough, List.all_cons, List.all_nil, Bool.and_true]

theorem Answered.call (h : Refines g [] s t) (curFunc : Nat) (kind : CallKind)
    (argCount varCount : Nat) (argv : List (VarValue V)) (memory : Bool) :
    Answered (.call curFunc kind argCount varCount argv memory) t
      (s.step (.call curFunc kind argCount varCount argv memory)) := by
  cases memory with
  | false => exact .valid rfl (.failed h rfl)
  | true =>
    have hentered :=
      h.enter curFunc (argBuf kind argCount argv) (List.replicate varCount .undefined)
    exact .valid rfl (.done hentered (by rw [← h.nextFrame]; rfl))

/-- One step on references is the step on cells. -/
theorem step_matched (s : VarHeap V) (t : Scopes V) (l : Label V) (h : Represents s t)
    (hlength : l.addsLength = true) : Answered l t (s.step l) := by
  obtain ⟨g, h⟩ := h
  cases l with
  | call curFunc kind argCount varCount argv memory =>
    exact .call h curFunc kind argCount varCount argv memory
  | getLocal f b i access => exact .getLocal h access
  | putLocal f b i val access => exact .putLocal h val access
  | closeLoc f i => exact .closeLoc h
  | getVarRef p i access => exact .getVarRef h access
  | putVarRef p i val access => exact .putVarRef h val access
  | closure f object captures rest => exact .closure h object captures rest
  | mappedArguments f argCount memory => exact .mappedArguments h argCount hlength
  | makeRef f capture object memory => exact .makeRef h capture object memory
  | freeProperty p i => exact .freeProperty h
  | freeObject p => exact .freeObject h
  | leave f => exact .leave h

/-! ## Runs -/

theorem new_represents : Represents (VarHeap.new : VarHeap V) Scopes.new := by
  refine ⟨id, nofun, fun _ _ => rfl, nofun, nofun, nofun, nofun, nofun, fun a => ?_, nofun, nofun,
    fun _ => rfl, rfl, rfl, nofun, nofun⟩
  exact (Ledger.tally_empty heldBy a).symm

/-- The memory of a mapped arguments object, but for that of its rest. -/
def restFails : ArgumentsMemory := ⟨true, true, fun _ => ⟨true, true⟩, false, true, true⟩

/-- A function with one argument, whose arguments object is made twice, once without the rest. -/
def argumentsRun : List (Label Nat) :=
  [.call 9 (.call false) 1 0 [.value 5] true, .mappedArguments 0 1 restFails,
    .mappedArguments 0 1 { restFails with rest := true }, .putVarRef 0 0 (.value 6) .plain,
    .getLocal 0 true 0 .plain]

/-- Without memory for the length of an arguments object the code crashes. -/
example : trace VarHeap.step VarHeap.new (argumentsRun ++
    [.mappedArguments 0 1 { restFails with length := false }]) = none := by decide

/-- Two closures over a variable of a loop, one made before the block is left and one after it. -/
example : trace VarHeap.step VarHeap.new
    [.call 9 (.call false) 0 1 [] true, .putLocal 0 false 0 (.value 1) .plain,
      .closure 0 true [(.local false 0, true)] true, .closeLoc 0 0,
      .putLocal 0 false 0 (.value 2) .plain, .closure 0 true [(.local false 0, true)] true,
      .closure 0 true [(.local false 0, true)] true, .leave 0,
      .putVarRef 2 0 (.value 3) .plain, .getVarRef 0 0 .check, .getVarRef 1 0 .check,
      .closure 0 true [(.local false 0, true)] true] =
    some [.frame 0, .ok, .object 0, .ok, .ok, .object 1, .object 2, .ok, .ok, .value (.value 1),
      .value (.value 3), .invalid] := by decide

end IoQuickJS.Closure
