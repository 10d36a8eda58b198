import IoQuickJS.Closure.ScopeRel

/-!
# Taking and freeing references

Each operation on references keeps `Refines`, with the cells as they are: a reference that is
taken is one more of those held, and stands for the cell of the captured variable; one that is
freed is one less.
-/
namespace IoQuickJS.Closure

open Function (update update_self update_of_ne)
open Ledger (tally entry)

variable {V : Type} {g g' g'' : Nat → Nat} {held held' : List Nat} {s s' s'' : VarHeap V}
  {t : Scopes V} {a f i c : Nat} {b : Bool} {r : JSVarRef V}

/-- Only how often something is held matters. -/
theorem Refines.held_congr (h : Refines g held s t) (hcount : ∀ a, held'.count a = held.count a) :
    Refines g held' s t :=
  { h with counted := fun a => by rw [hcount]; exact h.counted a }

/-- References stay, and stand for what they stood for. -/
structure Keeps (g : Nat → Nat) (s : VarHeap V) (g' : Nat → Nat) (s' : VarHeap V) : Prop where
  objects : s'.objects = s.objects
  nextObject : s'.nextObject = s.nextObject
  stands : ∀ a r, s.varRefs a = some r → g' a = g a ∧ ∃ r', s'.varRefs a = some r'

theorem Keeps.refl : Keeps g s g s := ⟨rfl, rfl, fun _ r hr => ⟨rfl, r, hr⟩⟩

theorem Keeps.trans (h : Keeps g s g' s') (h' : Keeps g' s' g'' s'') : Keeps g s g'' s'' := by
  refine ⟨h'.objects.trans h.objects, h'.nextObject.trans h.nextObject, fun a r hr => ?_⟩
  obtain ⟨heq, r', hr'⟩ := h.stands a r hr
  obtain ⟨heq', hr''⟩ := h'.stands a r' hr'
  exact ⟨heq'.trans heq, hr''⟩

/-- Whatever somebody holds a reference to stays. -/
theorem Refines.keeps (h : Refines g held s t) (h' : Refines g' held s' t)
    (hobjects : s'.objects = s.objects) (hnext : s'.nextObject = s.nextObject)
    (hg : ∀ a r, s.varRefs a = some r → g' a = g a) : Keeps g s g' s' := by
  refine ⟨hobjects, hnext, fun a r hr => ⟨hg a r hr, h'.allocated ?_⟩⟩
  have hcount := h.counted a
  have hpos := h.positive a r hr
  rw [hr] at hcount
  change r.refCount = _ at hcount
  rw [VarHeap.refs, hobjects, hnext]
  change 0 < s.refs a + _
  omega

/-- An object still knows the same cells. -/
theorem Refines.objects_congr (h : Refines g held s t)
    (hg : ∀ a r, s.varRefs a = some r → g' a = g a) (p : Nat) :
    t.objects p = (s.objects p).map (List.map (Option.map g')) := by
  rw [h.objects]
  cases hp : s.objects p with
  | none => rfl
  | some refs =>
    refine congrArg some (List.map_congr_left fun x hx => ?_)
    cases x with
    | none => rfl
    | some a =>
      obtain ⟨r, hr⟩ := h.allocated_of_object hp hx
      exact congrArg some (hg a r hr).symm

/-! ## One reference -/

theorem Refines.dupVarRef (h : Refines g held s t) (hr : s.varRefs a = some r) :
    ∃ s', s.dupVarRef a = some s' ∧ Keeps g s g s' ∧ Refines g (a :: held) s' t := by
  have hcount := h.counted a
  rw [hr] at hcount
  change r.refCount = _ at hcount
  refine ⟨s.setVarRef a { r with refCount := r.refCount + 1 }, by simp [VarHeap.dupVarRef, hr],
    ⟨rfl, rfl, fun a' r' hr' => ⟨rfl, ?_⟩⟩, ?_⟩
  · rw [setVarRef_varRefs]
    by_cases haa : a' = a
    · exact ⟨_, by rw [haa, update_self]⟩
    · exact ⟨r', (update_of_ne haa ..).trans hr'⟩
  · refine h.recount hr ?_ (Nat.succ_pos _) fun a' haa => List.count_cons_of_ne (Ne.symm haa)
    rw [List.count_cons_self]
    omega

theorem findVarRef_spec {l : List Nat} (hl : ∀ a ∈ l, ∃ r, s.varRefs a = some r) (b : Bool)
    (i : Nat) :
    (∃ a r, s.findVarRef b i l = some (some a) ∧ a ∈ l ∧ s.varRefs a = some r ∧ r.varIdx = i ∧
      r.isArg = b) ∨
    (s.findVarRef b i l = some none ∧
      ∀ a ∈ l, ∀ r, s.varRefs a = some r → ¬(r.varIdx = i ∧ r.isArg = b)) := by
  induction l with
  | nil => exact .inr ⟨rfl, by simp⟩
  | cons a l ih =>
    obtain ⟨r, hr⟩ := hl a List.mem_cons_self
    rw [VarHeap.findVarRef, hr, Option.bind_eq_bind, Option.bind_some]
    by_cases hslot : r.varIdx = i ∧ r.isArg = b
    · rw [if_pos hslot]
      exact .inl ⟨a, r, rfl, List.mem_cons_self, hr, hslot⟩
    · rw [if_neg hslot]
      rcases ih fun a' ha' => hl a' (List.mem_cons_of_mem _ ha') with
        ⟨a', r', hfind, ha', hr'⟩ | ⟨hfind, hnone⟩
      · exact .inl ⟨a', r', hfind, List.mem_cons_of_mem _ ha', hr'⟩
      · refine .inr ⟨hfind, fun a' ha' r' hr' => ?_⟩
        rcases List.mem_cons.mp ha' with rfl | ha'
        · rw [hr] at hr'
          cases hr'
          exact hslot
        · exact hnone a' ha' r' hr'

/-- A frame gets a new reference to a variable that none of its references points to. -/
theorem Refines.newVarRef {sf : JSStackFrame V} (h : Refines g held s t)
    (hf : s.frames f = some sf) (hc : t.localAt f b i = some c)
    (hnone : ∀ a ∈ sf.varRefList, ∀ r, s.varRefs a = some r → ¬(r.varIdx = i ∧ r.isArg = b)) :
    Refines (update g s.nextVarRef c) (s.nextVarRef :: held)
      (({ s with nextVarRef := s.nextVarRef + 1 }.setVarRef s.nextVarRef
        ⟨1, false, b, i, .buf f b i, .undefined⟩).setFrame f
          { sf with varRefList := sf.varRefList ++ [s.nextVarRef] }) t := by
  have hfresh : s.varRefs s.nextVarRef = none := by
    cases hr : s.varRefs s.nextVarRef with
    | none => rfl
    | some r => exact absurd (h.varRefBound _ r hr) (Nat.lt_irrefl _)
  have hne : ∀ a r, s.varRefs a = some r → a ≠ s.nextVarRef := fun a r hr heq => by
    rw [heq, hfresh] at hr
    cases hr
  have hold : ∀ a r, s.varRefs a = some r → update g s.nextVarRef c a = g a := fun a r hr =>
    update_of_ne (hne a r hr) _ _
  -- no reference stands for the cell of the variable
  have hcell : ∀ a r, s.varRefs a = some r → g a ≠ c := fun a r hr heq => by
    rcases Bool.eq_false_or_eq_true r.isDetached with hd | hd
    · exact (h.detached a r hr hd).2.2.2 f b i (heq ▸ hc)
    · obtain ⟨f', sf', hf', hmem, -, hcell⟩ := h.place hr hd
      rw [heq] at hcell
      obtain ⟨rfl, rfl, rfl⟩ := h.distinct _ _ _ _ _ _ _ hcell hc
      rw [hf] at hf'
      cases hf'
      exact hnone a hmem r hr ⟨rfl, rfl⟩
  have hmatch : ∀ f' sf' tf, FrameMatches g s.varRefs t.cells f' sf' tf →
      FrameMatches (update g s.nextVarRef c) (update s.varRefs s.nextVarRef
        (some ⟨1, false, b, i, .buf f b i, .undefined⟩)) t.cells f' sf' tf := fun f' sf' tf hm => by
    refine ⟨hm.curFunc, hm.buf, hm.nodup, fun a ha => ?_⟩
    obtain ⟨r, hr, hopen, hplace, hcell⟩ := hm.listed a ha
    refine ⟨r, (update_of_ne (hne a r hr) ..).trans hr, hopen, hplace, ?_⟩
    rw [hold a r hr, hcell]
  obtain ⟨tf, ht, hm⟩ := h.frame f sf hf
  refine { h with
    frame := forall_setFrame ⟨tf, ht, ?_⟩ fun f' sf' _ hf' => ?_
    noFrame := noFrame_setFrame h.noFrame
    linked := forall_setVarRef (fun _ => ⟨f, _, update_self .., by simp⟩) fun a r _ hr hopen =>
      linked_setFrame hf (List.mem_append_left _) (h.linked a r hr hopen)
    detached := forall_setVarRef (fun hd => by cases hd) fun a r _ hr hd => ?_
    injective := ?_
    counted := fun a => ?_
    positive := forall_setVarRef Nat.one_pos fun a r _ => h.positive a r
    varRefBound := forall_setVarRef (Nat.lt_succ_self _) fun a r _ hr =>
      Nat.lt_succ_of_lt (h.varRefBound a r hr)
    objects := h.objects_congr hold
    frameBound := forall_setFrame (h.frameBound f sf hf) fun f' sf' _ => h.frameBound f' sf' }
  · have hm' := hmatch f sf tf hm
    refine ⟨hm'.curFunc, hm'.buf, ?_, fun a ha => ?_⟩
    · refine List.nodup_append.mpr ⟨hm.nodup, List.nodup_singleton _, fun a ha a' ha' => ?_⟩
      obtain ⟨r, hr, -⟩ := hm.listed a ha
      rw [List.mem_singleton.mp ha']
      exact hne a r hr
    · rcases List.mem_append.mp ha with ha | ha
      · exact hm'.listed a ha
      · obtain rfl := List.mem_singleton.mp ha
        refine ⟨_, update_self .., rfl, rfl, ?_⟩
        rw [update_self, ← Scopes.localAt_of_frame ht, hc]
  · obtain ⟨tf', ht', hm'⟩ := h.frame f' sf' hf'
    exact ⟨tf', ht', hmatch f' sf' tf' hm'⟩
  · rw [hold a r hr]
    exact h.detached a r hr hd
  · have hcases := forall_setVarRef (s := { s with nextVarRef := s.nextVarRef + 1 })
      (a := s.nextVarRef) (r := ⟨1, false, b, i, .buf f b i, .undefined⟩)
      (P := fun a _ => a = s.nextVarRef ∨ ∃ r, s.varRefs a = some r) (.inl rfl)
      fun a r _ hr => .inr ⟨r, hr⟩
    intro a₁ a₂ r₁ r₂ h₁ h₂ heq
    rcases hcases a₁ r₁ h₁ with rfl | ⟨r₁', h₁'⟩ <;> rcases hcases a₂ r₂ h₂ with rfl | ⟨r₂', h₂'⟩
    · rfl
    · rw [update_self, hold a₂ r₂' h₂'] at heq
      exact absurd heq.symm (hcell a₂ r₂' h₂')
    · rw [update_self, hold a₁ r₁' h₁'] at heq
      exact absurd heq (hcell a₁ r₁' h₁')
    · rw [hold a₁ r₁' h₁', hold a₂ r₂' h₂'] at heq
      exact h.injective a₁ a₂ r₁' r₂' h₁' h₂' heq
  · rw [VarHeap.setFrame, setVarRef_varRefs]
    by_cases haa : a = s.nextVarRef
    · subst haa
      have hcount := h.counted s.nextVarRef
      rw [hfresh] at hcount
      change 0 = _ at hcount
      rw [update_self, List.count_cons_self]
      change 1 = s.refs s.nextVarRef + _
      omega
    · rw [update_of_ne haa, List.count_cons_of_ne (Ne.symm haa)]
      exact h.counted a

theorem Refines.getVarRef (h : Refines g held s t) (hc : t.localAt f b i = some c)
    (memory : Bool) : (memory = false ∧ s.getVarRef f b i memory = some (s, none)) ∨
      ∃ s' a g', s.getVarRef f b i memory = some (s', some a) ∧ g' a = c ∧ Keeps g s g' s' ∧
        Refines g' (a :: held) s' t := by
  cases hf : s.frames f with
  | none =>
    rw [Scopes.localAt, h.noFrame f hf] at hc
    cases hc
  | some sf =>
    obtain ⟨tf, ht, hm⟩ := h.frame f sf hf
    unfold VarHeap.getVarRef
    rw [hf, Option.bind_eq_bind, Option.bind_some]
    have hlisted : ∀ a ∈ sf.varRefList, ∃ r, s.varRefs a = some r := fun a ha => by
      obtain ⟨r, hr, -⟩ := hm.listed a ha
      exact ⟨r, hr⟩
    rcases findVarRef_spec hlisted b i with ⟨a, r, hfind, ha, hr, rfl, rfl⟩ | ⟨hfind, hnone⟩
    · obtain ⟨s', hdup, hkeeps, hs'⟩ := h.dupVarRef hr
      obtain ⟨r', hr', -, -, hcell⟩ := hm.listed a ha
      rw [hr] at hr'
      cases hr'
      rw [← Scopes.localAt_of_frame ht, hc] at hcell
      refine .inr ⟨s', a, g, ?_, (Option.some.inj hcell).symm, hkeeps, hs'⟩
      rw [hfind]
      simp [hdup]
    · rw [hfind]
      cases memory with
      | false => exact .inl ⟨rfl, rfl⟩
      | true =>
        refine .inr ⟨_, s.nextVarRef, _, rfl, update_self .., ⟨rfl, rfl, fun a r hr => ?_⟩,
          h.newVarRef hf hc hnone⟩
        have hne : a ≠ s.nextVarRef := Nat.ne_of_lt (h.varRefBound a r hr)
        exact ⟨update_of_ne hne .., r, (update_of_ne hne ..).trans hr⟩

/-- A reference that nobody has any more is taken out of the frames. -/
theorem Refines.remove {frames : Nat → Option (JSStackFrame V)} (h : Refines g (a :: held) s t)
    (hr : s.varRefs a = some r) (hone : r.refCount = 1)
    (hframes : ∀ f sf', frames f = some sf' → ∃ sf, s.frames f = some sf ∧
      sf' = { sf with varRefList := sf.varRefList.erase a })
    (hframes' : ∀ f sf, s.frames f = some sf →
      frames f = some { sf with varRefList := sf.varRefList.erase a }) :
    Refines g held { s with varRefs := update s.varRefs a none, frames := frames } t := by
  have hrefs := h.counted a
  rw [hr, List.count_cons_self] at hrefs
  change r.refCount = _ at hrefs
  have hold : ∀ a' r', update s.varRefs a none a' = some r' → a' ≠ a ∧ s.varRefs a' = some r' :=
    fun a' r' hr' => by
      by_cases haa : a' = a
      · rw [haa, update_self] at hr'
        cases hr'
      · exact ⟨haa, (update_of_ne haa ..).symm.trans hr'⟩
  refine { h with
    frame := fun f sf' hf' => ?_
    noFrame := fun f hf => ?_
    linked := fun a' r' hr' hopen => ?_
    detached := fun a' r' hr' => h.detached a' r' (hold a' r' hr').2
    injective := fun a₁ a₂ r₁ r₂ h₁ h₂ =>
      h.injective a₁ a₂ r₁ r₂ (hold a₁ r₁ h₁).2 (hold a₂ r₂ h₂).2
    counted := fun a' => ?_
    positive := fun a' r' hr' => h.positive a' r' (hold a' r' hr').2
    varRefBound := fun a' r' hr' => h.varRefBound a' r' (hold a' r' hr').2
    frameBound := fun f sf' hf' => ?_ }
  · obtain ⟨sf, hf, rfl⟩ := hframes f sf' hf'
    obtain ⟨tf, ht, hm⟩ := h.frame f sf hf
    refine ⟨tf, ht, hm.curFunc, hm.buf, hm.nodup.erase a, fun a' ha' => ?_⟩
    obtain ⟨hne, hmem⟩ := (hm.nodup.mem_erase_iff).mp ha'
    obtain ⟨r', hr', hrest⟩ := hm.listed a' hmem
    exact ⟨r', (update_of_ne hne ..).trans hr', hrest⟩
  · refine h.noFrame f ?_
    cases hf' : s.frames f with
    | none => rfl
    | some sf => exact absurd ((hframes' f sf hf').symm.trans hf) (by simp)
  · obtain ⟨hne, hr'⟩ := hold a' r' hr'
    obtain ⟨f, sf, hf, hmem⟩ := h.linked a' r' hr' hopen
    exact ⟨f, _, hframes' f sf hf, (List.mem_erase_of_ne hne).mpr hmem⟩
  · by_cases haa : a' = a
    · subst haa
      change (update s.varRefs a' none a').elim 0 _ = s.refs a' + _
      rw [update_self]
      change 0 = _
      omega
    · change (update s.varRefs a none a').elim 0 _ = s.refs a' + _
      rw [update_of_ne haa, h.counted a', List.count_cons_of_ne (Ne.symm haa)]
  · obtain ⟨sf, hf, -⟩ := hframes f sf' hf'
    exact h.frameBound f sf hf

theorem freeVarRef_detached (hr : s.varRefs a = some r) (hone : r.refCount = 1)
    (hd : r.isDetached = true) :
    s.freeVarRef a = some { s with varRefs := update s.varRefs a none } := by
  simp [VarHeap.freeVarRef, hr, hone, hd]

theorem freeVarRef_linked {sf : JSStackFrame V} (hr : s.varRefs a = some r)
    (hone : r.refCount = 1) (hd : r.isDetached = false) (hplace : r.pvalue = .buf f b i)
    (hf : s.frames f = some sf) :
    s.freeVarRef a = some ({ s with varRefs := update s.varRefs a none }.setFrame f
      { sf with varRefList := sf.varRefList.erase a }) := by
  simp [VarHeap.freeVarRef, hr, hone, hd, hplace, hf]

theorem freeVarRef_shared {n : Nat} (hr : s.varRefs a = some r) (hn : r.refCount = n + 2) :
    s.freeVarRef a = some (s.setVarRef a { r with refCount := n + 1 }) := by
  simp [VarHeap.freeVarRef, hr, hn]

theorem Refines.freeVarRef (h : Refines g (a :: held) s t) :
    ∃ s', s.freeVarRef a = some s' ∧ Refines g held s' t := by
  obtain ⟨r, hr⟩ := h.allocated (a := a) (by rw [List.count_cons_self]; omega)
  have hcount := h.counted a
  rw [hr, List.count_cons_self] at hcount
  change r.refCount = _ at hcount
  rcases Nat.lt_or_ge 1 r.refCount with hshared | hone
  · obtain ⟨n, hn⟩ := Nat.exists_eq_add_of_le' hshared
    refine ⟨_, freeVarRef_shared hr hn, h.recount hr (by omega) (Nat.succ_pos _) fun a' haa => ?_⟩
    exact (List.count_cons_of_ne (Ne.symm haa)).symm
  · replace hone : r.refCount = 1 := by omega
    -- a frame that has the reference is the one it points into
    have hmem : ∀ f sf, s.frames f = some sf → a ∈ sf.varRefList → r.isDetached = false ∧
        r.pvalue = .buf f r.isArg r.varIdx := fun f sf hf ha => by
      obtain ⟨tf, -, hm⟩ := h.frame f sf hf
      obtain ⟨r', hr', hopen, hplace, -⟩ := hm.listed a ha
      rw [hr] at hr'
      cases hr'
      exact ⟨hopen, hplace⟩
    have herase : ∀ sf : JSStackFrame V, a ∉ sf.varRefList →
        sf = { sf with varRefList := sf.varRefList.erase a } := fun sf ha => by
      rw [List.erase_of_not_mem ha]
    rcases Bool.eq_false_or_eq_true r.isDetached with hd | hd
    · have hnot : ∀ f sf, s.frames f = some sf → a ∉ sf.varRefList := fun f sf hf ha => by
        rw [(hmem f sf hf ha).1] at hd
        cases hd
      exact ⟨_, freeVarRef_detached hr hone hd, h.remove hr hone
        (fun f sf hf => ⟨sf, hf, herase sf (hnot f sf hf)⟩)
        fun f sf hf => hf.trans (congrArg some (herase sf (hnot f sf hf)))⟩
    · obtain ⟨f, sf, hf, ha, hplace, -⟩ := h.place hr hd
      have hnot : ∀ f' sf', f' ≠ f → s.frames f' = some sf' → a ∉ sf'.varRefList :=
        fun f' sf' hff hf' ha' => by
          have hplace' := (hmem f' sf' hf' ha').2
          rw [hplace] at hplace'
          cases hplace'
          exact hff rfl
      refine ⟨_, freeVarRef_linked hr hone hd hplace hf, h.remove hr hone
        (forall_setFrame (s := s) ⟨sf, hf, rfl⟩ fun f' sf' hff hf' =>
          ⟨sf', hf', herase sf' (hnot f' sf' hff hf')⟩) fun f' sf' hf' => ?_⟩
      by_cases hff : f' = f
      · subst hff
        rw [hf] at hf'
        cases hf'
        exact update_self ..
      · rw [← herase sf' (hnot f' sf' hff hf')]
        exact (update_of_ne hff ..).trans hf'

/-! ## Many references -/

theorem freeVarRef_objects (h : s.freeVarRef a = some s') :
    s'.objects = s.objects ∧ s'.nextObject = s.nextObject := by
  unfold VarHeap.freeVarRef at h
  cases hr : s.varRefs a with
  | none => simp [hr] at h
  | some r =>
    rw [hr, Option.bind_eq_bind, Option.bind_some] at h
    split at h
    · cases h
    · split at h
      · cases h
        exact ⟨rfl, rfl⟩
      · split at h
        · cases h
        · obtain ⟨sf, -, h⟩ := Option.bind_eq_some_iff.mp h
          cases h
          exact ⟨rfl, rfl⟩
    · cases h
      exact ⟨rfl, rfl⟩

theorem Refines.freeVarRefs {refs : List (Option Nat)} (h : Refines g (heldBy refs ++ held) s t) :
    ∃ s', s.freeVarRefs refs = some s' ∧ Refines g held s' t := by
  induction refs generalizing s with
  | nil => exact ⟨s, rfl, h⟩
  | cons x refs ih =>
    cases x with
    | none => exact ih h
    | some a =>
      have hfirst : Refines g (a :: (heldBy refs ++ held)) s t := h
      obtain ⟨s', hs', h'⟩ := hfirst.freeVarRef
      rw [VarHeap.freeVarRefs, hs', Option.bind_some]
      exact ih h'

theorem Scopes.refAt_of_frame {tf : ScopeFrame} (ht : t.frames f = some tf) (i : Nat) :
    t.capture f (.outer i) = t.refAt tf.curFunc i := by
  rw [Scopes.capture, ht]
  rfl

/-- What an object knows of a cell is a reference to it. -/
theorem Refines.refAt (h : Refines g held s t) (p i : Nat) :
    t.refAt p i = (s.refAt p i).map g := by
  unfold Scopes.refAt VarHeap.refAt
  rw [h.objects]
  cases s.objects p with
  | none => rfl
  | some refs =>
    simp only [Option.map_some, Option.bind_some, List.getElem?_map]
    cases refs[i]? with
    | none => rfl
    | some x => rfl

theorem Refines.allocated_of_refAt (h : Refines g held s t) {p : Nat} (ha : s.refAt p i = some a) :
    ∃ r, s.varRefs a = some r := by
  unfold VarHeap.refAt at ha
  obtain ⟨refs, hp, hrefs⟩ := Option.bind_eq_some_iff.mp ha
  refine h.allocated_of_object hp (List.mem_of_getElem? (i := i) ?_)
  rwa [Option.join_eq_some_iff] at hrefs

theorem Refines.takeVarRef {capture : Capture} (h : Refines g held s t)
    (hc : t.capture f capture = some c) (memory : Bool) :
    (memory = false ∧ s.takeVarRef f capture memory = some (s, none)) ∨
      ∃ s' a g', s.takeVarRef f capture memory = some (s', some a) ∧ g' a = c ∧ Keeps g s g' s' ∧
        Refines g' (a :: held) s' t := by
  cases capture with
  | «local» b i => exact h.getVarRef hc memory
  | outer i =>
    cases hf : s.frames f with
    | none =>
      rw [Scopes.capture, h.noFrame f hf] at hc
      cases hc
    | some sf =>
      obtain ⟨tf, ht, hm⟩ := h.frame f sf hf
      rw [Scopes.refAt_of_frame ht, hm.curFunc, h.refAt] at hc
      obtain ⟨a, ha, rfl⟩ := Option.map_eq_some_iff.mp hc
      obtain ⟨r, hr⟩ := h.allocated_of_refAt ha
      obtain ⟨s', hdup, hkeeps, hs'⟩ := h.dupVarRef hr
      refine .inr ⟨s', a, g, ?_, rfl, hkeeps, hs'⟩
      have ha' : (s.curVarRefs sf)[i]?.join = some a := by
        unfold VarHeap.refAt at ha
        unfold VarHeap.curVarRefs
        cases hp : s.objects sf.curFunc with
        | none => simp [hp] at ha
        | some refs => simpa [hp] using ha
      simp [VarHeap.takeVarRef, hf, ha', hdup]

/-- The references that are taken stand for the captured cells, when there is memory for all. -/
theorem Refines.takeVarRefs {captures : List (Capture × CaptureMemory)} {cs : List Nat}
    (h : Refines g held s t)
    (hcs : List.Forall₂ (fun capture c => t.capture f capture.1 = some c) captures cs) :
    ∃ s' as all g', s.takeVarRefs f captures = some (s', as, all) ∧ Keeps g s g' s' ∧
      Refines g' (as ++ held) s' t ∧ (all = true → as.map g' = cs) ∧
      (all = false → ∃ capture ∈ captures,
        (capture.2.varRef && capture.2.property) = false) := by
  induction hcs generalizing g held s with
  | nil => exact ⟨s, [], true, g, rfl, .refl, h, fun _ => rfl, fun h => by cases h⟩
  | @cons capture c captures cs hc _ ih =>
    obtain ⟨capture, memory⟩ := capture
    rw [VarHeap.takeVarRefs]
    rcases h.takeVarRef hc memory.varRef with ⟨hmemory, htake⟩ | ⟨s₁, a, g₁, htake, rfl, hkeeps, h₁⟩
    · refine ⟨s, [], false, g, by simp [htake], .refl, h, by simp, fun _ => ?_⟩
      exact ⟨_, List.mem_cons_self, by simp [hmemory]⟩
    · cases hproperty : memory.property with
      | true =>
        obtain ⟨s₂, as, all, g₂, hrest, hkeeps', h₂, hall, hsome⟩ := ih h₁
        refine ⟨s₂, a :: as, all, g₂, by simp [htake, hrest], hkeeps.trans hkeeps',
          h₂.held_congr fun x => ?_, fun h => ?_, fun h => ?_⟩
        · simp only [List.count_append, List.cons_append, List.count_cons]
          omega
        · obtain ⟨r, hr⟩ := h₁.allocated (a := a) (by rw [List.count_cons_self]; omega)
          rw [List.map_cons, hall h, (hkeeps'.stands a r hr).1]
        · obtain ⟨x, hx, hx'⟩ := hsome h
          exact ⟨x, List.mem_cons_of_mem _ hx, hx'⟩
      | false =>
        obtain ⟨s₂, hfree, h₂⟩ := h₁.freeVarRef
        obtain ⟨hobjects, hnext⟩ := freeVarRef_objects hfree
        refine ⟨s₂, [], false, g₁, by simp [htake, hfree], ?_, h₂, by simp, fun _ => ?_⟩
        · exact h.keeps h₂ (hobjects.trans hkeeps.objects) (hnext.trans hkeeps.nextObject)
            fun a r hr => (hkeeps.stands a r hr).1
        · exact ⟨_, List.mem_cons_self, by simp [hproperty]⟩

end IoQuickJS.Closure
