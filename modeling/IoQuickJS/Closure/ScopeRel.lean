import IoQuickJS.Closure.Scopes

/-!
# References and cells

`Refines g held s t` relates the heap of references to the cells: the reference at `a` stands for
the cell `g a`. `held` are the references that the C code has in its hands besides those that
objects hold; the counts are of both together.
-/
namespace IoQuickJS.Closure

open Function (update update_self update_of_ne)
open Ledger (tally entry)

variable {V : Type}

/-- The references that an object holds. -/
def heldBy (refs : List (Option Nat)) : List Nat := refs.filterMap id

/-- The references to `a` that objects hold. -/
def VarHeap.refs (s : VarHeap V) (a : Nat) : Nat := tally s.nextObject s.objects heldBy a

/-- A frame and its cells: the listed references stand for the cells they point to. -/
structure FrameMatches (g : Nat → Nat) (varRefs : Nat → Option (JSVarRef V))
    (cells : Nat → VarValue V) (f : Nat) (sf : JSStackFrame V) (tf : ScopeFrame) : Prop where
  curFunc : tf.curFunc = sf.curFunc
  buf : ∀ b, sf.buf b = (tf.buf b).map cells
  nodup : sf.varRefList.Nodup
  listed : ∀ a ∈ sf.varRefList, ∃ r, varRefs a = some r ∧ r.isDetached = false ∧
    r.pvalue = .buf f r.isArg r.varIdx ∧ (tf.buf r.isArg)[r.varIdx]? = some (g a)

structure Refines (g : Nat → Nat) (held : List Nat) (s : VarHeap V) (t : Scopes V) : Prop where
  frame : ∀ f sf, s.frames f = some sf →
    ∃ tf, t.frames f = some tf ∧ FrameMatches g s.varRefs t.cells f sf tf
  noFrame : ∀ f, s.frames f = none → t.frames f = none
  distinct : ∀ f f' b b' i i' c, t.localAt f b i = some c → t.localAt f' b' i' = some c →
    f = f' ∧ b = b' ∧ i = i'
  bound : ∀ f b i c, t.localAt f b i = some c → c < t.nextCell
  linked : ∀ a r, s.varRefs a = some r → r.isDetached = false →
    ∃ f sf, s.frames f = some sf ∧ a ∈ sf.varRefList
  detached : ∀ a r, s.varRefs a = some r → r.isDetached = true → r.pvalue = .own ∧
    r.value = t.cells (g a) ∧ g a < t.nextCell ∧ ∀ f b i, t.localAt f b i ≠ some (g a)
  injective : ∀ a a' r r', s.varRefs a = some r → s.varRefs a' = some r' → g a = g a' → a = a'
  counted : ∀ a, (s.varRefs a).elim 0 JSVarRef.refCount = s.refs a + held.count a
  positive : ∀ a r, s.varRefs a = some r → 0 < r.refCount
  varRefBound : ∀ a r, s.varRefs a = some r → a < s.nextVarRef
  objects : ∀ p, t.objects p = (s.objects p).map (List.map (Option.map g))
  nextFrame : t.nextFrame = s.nextFrame
  nextObject : t.nextObject = s.nextObject
  frameBound : ∀ f sf, s.frames f = some sf → f < s.nextFrame
  objectBound : ∀ p refs, s.objects p = some refs → p < s.nextObject

variable {g : Nat → Nat} {held : List Nat} {s s' : VarHeap V} {t : Scopes V} {a f i : Nat}
  {b : Bool} {r : JSVarRef V} {c : Nat} {val : VarValue V}

/-! ## Reading -/

@[simp] theorem Scopes.localAt_write (t : Scopes V) (c : Nat) (val : VarValue V) :
    (t.write c val).localAt = t.localAt := rfl

theorem Scopes.localAt_of_frame {tf : ScopeFrame} (h : t.frames f = some tf) (b : Bool) (i : Nat) :
    t.localAt f b i = (tf.buf b)[i]? := by
  rw [Scopes.localAt, h]
  rfl

theorem Refines.loadLocal (h : Refines g held s t) (f : Nat) (b : Bool) (i : Nat) :
    s.loadLocal f b i = (t.localAt f b i).map t.cells := by
  unfold VarHeap.loadLocal Scopes.localAt
  cases hf : s.frames f with
  | none => rw [h.noFrame f hf]; rfl
  | some sf =>
    obtain ⟨tf, ht, hm⟩ := h.frame f sf hf
    rw [ht, Option.bind_some, Option.bind_some, hm.buf, List.getElem?_map]

/-- A reference in the list of a frame points to the variable it stands for. -/
theorem Refines.place (h : Refines g held s t) (hr : s.varRefs a = some r)
    (hopen : r.isDetached = false) : ∃ f sf, s.frames f = some sf ∧ a ∈ sf.varRefList ∧
      r.pvalue = .buf f r.isArg r.varIdx ∧ t.localAt f r.isArg r.varIdx = some (g a) := by
  obtain ⟨f, sf, hf, hmem⟩ := h.linked a r hr hopen
  obtain ⟨tf, ht, hm⟩ := h.frame f sf hf
  obtain ⟨r', hr', -, hplace, hcell⟩ := hm.listed a hmem
  rw [hr] at hr'
  cases hr'
  exact ⟨f, sf, hf, hmem, hplace, by rwa [Scopes.localAt_of_frame ht]⟩

theorem Refines.load (h : Refines g held s t) (hr : s.varRefs a = some r) :
    s.load a = some (t.cells (g a)) := by
  unfold VarHeap.load
  rw [hr, Option.bind_eq_bind, Option.bind_some]
  cases hd : r.isDetached with
  | true =>
    obtain ⟨hown, hvalue, -⟩ := h.detached a r hr hd
    rw [hown, ← hvalue]
  | false =>
    obtain ⟨f, -, -, -, hplace, hcell⟩ := h.place hr hd
    rw [hplace]
    exact (h.loadLocal f _ _).trans (by rw [hcell]; rfl)

/-- Every reference stands for a cell. -/
theorem Refines.cell_lt (h : Refines g held s t) (hr : s.varRefs a = some r) :
    g a < t.nextCell := by
  cases hd : r.isDetached with
  | true => exact (h.detached a r hr hd).2.2.1
  | false =>
    obtain ⟨f, -, -, -, -, hcell⟩ := h.place hr hd
    exact h.bound f _ _ _ hcell

/-- What somebody holds a reference to has not been freed. -/
theorem Refines.allocated (h : Refines g held s t) (ha : 0 < s.refs a + held.count a) :
    ∃ r, s.varRefs a = some r := by
  have hcount := h.counted a
  cases hr : s.varRefs a with
  | none =>
    rw [hr] at hcount
    change 0 = _ at hcount
    omega
  | some r => exact ⟨r, rfl⟩

theorem count_heldBy {refs : List (Option Nat)} (h : refs[i]? = some (some a)) :
    0 < (heldBy refs).count a := by
  rw [List.count_pos_iff]
  exact List.mem_filterMap.mpr ⟨some a, List.mem_of_getElem? h, rfl⟩

theorem Refines.allocated_of_object (h : Refines g held s t) {p : Nat} {refs : List (Option Nat)}
    (hp : s.objects p = some refs) (ha : some a ∈ refs) : ∃ r, s.varRefs a = some r := by
  obtain ⟨i, hi⟩ := List.getElem?_of_mem ha
  have hcount : (heldBy refs).count a ≤ s.refs a :=
    Ledger.count_le_tally heldBy a (h.objectBound p refs hp) hp
  exact h.allocated (Nat.lt_of_lt_of_le (count_heldBy hi) (by omega))

/-! ## Writing -/

theorem map_update_of_notMem {α β : Type} [DecidableEq α] {l : List α} {x : α} (h : x ∉ l)
    (F : α → β) (y : β) : l.map (update F x y) = l.map F :=
  List.map_congr_left fun _ hz => update_of_ne (fun hzx => h (by rwa [hzx] at hz)) _ _

/-- Where only one place has the key, a table is changed at one place. -/
theorem map_update_set {α β : Type} [DecidableEq α] {l : List α} {x : α} {i : Nat}
    (hi : l[i]? = some x) (honly : ∀ j, l[j]? = some x → j = i) (F : α → β) (y : β) :
    l.map (update F x y) = (l.map F).set i y := by
  refine List.ext_getElem? fun j => ?_
  rw [List.getElem?_map, List.getElem?_set, List.getElem?_map, List.length_map]
  by_cases hji : i = j
  · subst hji
    obtain ⟨hlt, -⟩ := List.getElem?_eq_some_iff.mp hi
    rw [hi, if_pos rfl, if_pos hlt, Option.map_some, update_self]
  · rw [if_neg hji]
    cases hj : l[j]? with
    | none => rfl
    | some z =>
      have hzx : z ≠ x := fun hzx => hji (honly j (hzx ▸ hj)).symm
      rw [Option.map_some, Option.map_some, update_of_ne hzx]

/-- A frame depends on its own cells. -/
theorem FrameMatches.congr {sf : JSStackFrame V} {tf : ScopeFrame}
    {varRefs : Nat → Option (JSVarRef V)} {cells cells' : Nat → VarValue V}
    (hm : FrameMatches g varRefs cells f sf tf)
    (hcells : ∀ (b : Bool) (i c : Nat), (tf.buf b)[i]? = some c → cells' c = cells c) :
    FrameMatches g varRefs cells' f sf tf := by
  refine ⟨hm.curFunc, fun b => ?_, hm.nodup, hm.listed⟩
  rw [hm.buf]
  refine List.map_congr_left fun c hc => ?_
  obtain ⟨i, hi⟩ := List.getElem?_of_mem hc
  exact (hcells b i c hi).symm

/-- A write to a cell that no frame has leaves the frames alone. -/
theorem FrameMatches.write {sf : JSStackFrame V} {tf : ScopeFrame}
    {varRefs : Nat → Option (JSVarRef V)} {cells : Nat → VarValue V}
    (hm : FrameMatches g varRefs cells f sf tf)
    (hc : ∀ (b : Bool) (i : Nat), (tf.buf b)[i]? ≠ some c) :
    FrameMatches g varRefs (update cells c val) f sf tf :=
  hm.congr fun b i c' hi => update_of_ne (fun heq : c' = c => hc b i (heq ▸ hi)) ..

/-- The buffer of a frame after a store. -/
theorem buf_set (sf : JSStackFrame V) (b b' : Bool) (i : Nat) (val : VarValue V) :
    (if b then { sf with argBuf := sf.argBuf.set i val }
      else { sf with varBuf := sf.varBuf.set i val } : JSStackFrame V).buf b' =
      if b' = b then (sf.buf b).set i val else sf.buf b' := by
  cases b <;> cases b' <;> rfl

/-! ## One frame or one reference is replaced -/

theorem setFrame_frames (s : VarHeap V) (f : Nat) (sf : JSStackFrame V) :
    (s.setFrame f sf).frames = update s.frames f (some sf) := rfl

theorem setVarRef_varRefs (s : VarHeap V) (a : Nat) (r : JSVarRef V) :
    (s.setVarRef a r).varRefs = update s.varRefs a (some r) := rfl

/-- What holds of a new entry of a table and of the old ones. -/
theorem forall_update {α : Type} {m : Nat → Option α} {k : Nat} {x : Option α}
    {P : Nat → α → Prop} (hnew : ∀ y, x = some y → P k y)
    (hold : ∀ k' y, k' ≠ k → m k' = some y → P k' y) (k' : Nat) (y : α)
    (h : update m k x k' = some y) : P k' y := by
  by_cases hkk : k' = k
  · subst hkk
    rw [update_self] at h
    exact hnew y h
  · rw [update_of_ne hkk] at h
    exact hold k' y hkk h

theorem forall_setFrame {sf : JSStackFrame V} {P : Nat → JSStackFrame V → Prop} (hnew : P f sf)
    (hold : ∀ f' sf', f' ≠ f → s.frames f' = some sf' → P f' sf') (f' : Nat)
    (sf' : JSStackFrame V) (h : (s.setFrame f sf).frames f' = some sf') : P f' sf' :=
  forall_update (fun _ hy => Option.some.inj hy ▸ hnew) hold f' sf' h

theorem noFrame_setFrame {sf : JSStackFrame V} {P : Nat → Prop}
    (h : ∀ f', s.frames f' = none → P f') (f' : Nat)
    (h' : (s.setFrame f sf).frames f' = none) : P f' := by
  rw [setFrame_frames] at h'
  by_cases hff : f' = f
  · subst hff
    rw [update_self] at h'
    cases h'
  · rw [update_of_ne hff] at h'
    exact h f' h'

theorem linked_setFrame {sf sf' : JSStackFrame V} (hf : s.frames f = some sf)
    (hmem : a ∈ sf.varRefList → a ∈ sf'.varRefList)
    (h : ∃ f' sf', s.frames f' = some sf' ∧ a ∈ sf'.varRefList) :
    ∃ f' sf'', (s.setFrame f sf').frames f' = some sf'' ∧ a ∈ sf''.varRefList := by
  obtain ⟨f', sf'', hf', ha⟩ := h
  by_cases hff : f' = f
  · subst hff
    rw [hf] at hf'
    cases hf'
    exact ⟨f', sf', update_self .., hmem ha⟩
  · exact ⟨f', sf'', (update_of_ne hff ..).trans hf', ha⟩

theorem forall_setVarRef {P : Nat → JSVarRef V → Prop} (hnew : P a r)
    (hold : ∀ a' r', a' ≠ a → s.varRefs a' = some r' → P a' r') (a' : Nat) (r' : JSVarRef V)
    (h : (s.setVarRef a r).varRefs a' = some r') : P a' r' :=
  forall_update (fun _ hy => Option.some.inj hy ▸ hnew) hold a' r' h

/-- The references are the same but for their counts and for values that are not looked at. -/
structure SamePlace (r r' : JSVarRef V) : Prop where
  isDetached : r'.isDetached = r.isDetached
  isArg : r'.isArg = r.isArg
  varIdx : r'.varIdx = r.varIdx
  pvalue : r'.pvalue = r.pvalue

theorem FrameMatches.setVarRef {r' : JSVarRef V} {sf : JSStackFrame V} {tf : ScopeFrame}
    {cells : Nat → VarValue V} (hm : FrameMatches g s.varRefs cells f sf tf)
    (hr : s.varRefs a = some r) (hsame : SamePlace r r') :
    FrameMatches g (s.setVarRef a r').varRefs cells f sf tf := by
  refine ⟨hm.curFunc, hm.buf, hm.nodup, fun a' ha' => ?_⟩
  obtain ⟨r'', hr'', hopen, hplace, hcell⟩ := hm.listed a' ha'
  rw [setVarRef_varRefs]
  by_cases haa : a' = a
  · subst haa
    rw [hr] at hr''
    cases hr''
    refine ⟨r', update_self .., hsame.isDetached.trans hopen, ?_, ?_⟩
    · rw [hsame.pvalue, hsame.isArg, hsame.varIdx, hplace]
    · rw [hsame.isArg, hsame.varIdx, hcell]
  · exact ⟨r'', (update_of_ne haa ..).trans hr'', hopen, hplace, hcell⟩

/-- Only the count of a reference changes, with what is held. -/
theorem Refines.recount {held' : List Nat} {n : Nat} (h : Refines g held s t)
    (hr : s.varRefs a = some r) (hn : n = s.refs a + held'.count a) (hpos : 0 < n)
    (hother : ∀ a', a' ≠ a → held'.count a' = held.count a') :
    Refines g held' (s.setVarRef a { r with refCount := n }) t := by
  have hsame : SamePlace r { r with refCount := n } := ⟨rfl, rfl, rfl, rfl⟩
  refine { h with
    frame := fun f sf hf => ?_
    linked := forall_setVarRef (h.linked a r hr) fun a' r' _ => h.linked a' r'
    detached := forall_setVarRef (h.detached a r hr) fun a' r' _ => h.detached a' r'
    injective := fun a₁ a₂ r₁ r₂ h₁ h₂ => ?_
    counted := fun a' => ?_
    positive := forall_setVarRef hpos fun a' r' _ => h.positive a' r'
    varRefBound := forall_setVarRef (h.varRefBound a r hr) fun a' r' _ => h.varRefBound a' r' }
  · obtain ⟨tf, ht, hm⟩ := h.frame f sf hf
    exact ⟨tf, ht, hm.setVarRef hr hsame⟩
  · have hold : ∀ a' r', (s.setVarRef a { r with refCount := n }).varRefs a' = some r' →
        ∃ r'', s.varRefs a' = some r'' :=
      forall_setVarRef ⟨r, hr⟩ fun a' r' _ h' => ⟨r', h'⟩
    obtain ⟨r₁', h₁'⟩ := hold a₁ r₁ h₁
    obtain ⟨r₂', h₂'⟩ := hold a₂ r₂ h₂
    exact h.injective a₁ a₂ r₁' r₂' h₁' h₂'
  · rw [setVarRef_varRefs]
    by_cases haa : a' = a
    · subst haa
      rw [update_self]
      exact hn
    · rw [update_of_ne haa, hother a' haa]
      exact h.counted a'

theorem Refines.storeLocal (h : Refines g held s t) (hc : t.localAt f b i = some c)
    (val : VarValue V) :
    ∃ s', s.storeLocal f b i val = some s' ∧ Refines g held s' (t.write c val) := by
  cases hf : s.frames f with
  | none =>
    rw [Scopes.localAt, h.noFrame f hf] at hc
    cases hc
  | some sf =>
    obtain ⟨tf, ht, hm⟩ := h.frame f sf hf
    have hcell := hc
    rw [Scopes.localAt_of_frame ht] at hcell
    have hlt : i < (sf.buf b).length := by
      rw [hm.buf, List.length_map]
      exact (List.getElem?_eq_some_iff.mp hcell).1
    unfold VarHeap.storeLocal
    rw [hf, Option.bind_eq_bind, Option.bind_some, if_pos hlt]
    refine ⟨_, rfl, ?_⟩
    refine { h with
      frame := forall_setFrame ?_ fun f' sf' hff hf' => ?_
      noFrame := noFrame_setFrame h.noFrame
      linked := fun a r hr hopen => linked_setFrame hf ?_ (h.linked a r hr hopen)
      detached := fun a r hr hd => ?_
      frameBound := forall_setFrame (h.frameBound f sf hf) fun f' sf' _ => h.frameBound f' sf' }
    · -- the frame itself
      refine ⟨tf, ht, ?_, fun b' => ?_, ?_, ?_⟩
      · cases b <;> exact hm.curFunc
      · rw [buf_set]
        change _ = (tf.buf b').map (update t.cells c val)
        split
        · next hbb =>
          subst hbb
          rw [hm.buf, map_update_set hcell]
          intro j hj
          rw [← Scopes.localAt_of_frame ht] at hj
          exact (h.distinct _ _ _ _ _ _ _ hj hc).2.2
        · next hbb =>
          rw [hm.buf, map_update_of_notMem]
          intro hmem
          obtain ⟨j, hj⟩ := List.getElem?_of_mem hmem
          rw [← Scopes.localAt_of_frame ht] at hj
          exact hbb (h.distinct _ _ _ _ _ _ _ hj hc).2.1
      · cases b <;> exact hm.nodup
      · cases b <;> exact hm.listed
    · obtain ⟨tf', ht', hm'⟩ := h.frame f' sf' hf'
      refine ⟨tf', ht', hm'.write fun b' j hj => ?_⟩
      rw [← Scopes.localAt_of_frame ht'] at hj
      exact hff (h.distinct _ _ _ _ _ _ _ hj hc).1
    · cases b <;> exact id
    · obtain ⟨hown, hvalue, hlt, hno⟩ := h.detached a r hr hd
      have hne : g a ≠ c := fun heq => hno f b i (heq ▸ hc)
      exact ⟨hown, hvalue.trans (update_of_ne hne ..).symm, hlt, hno⟩

theorem store_own (hr : s.varRefs a = some r) (hown : r.pvalue = .own) (val : VarValue V) :
    s.store a val = some (s.setVarRef a { r with value := val }) := by
  simp [VarHeap.store, hr, hown]

theorem store_buf (hr : s.varRefs a = some r) (hplace : r.pvalue = .buf f b i)
    (val : VarValue V) : s.store a val = s.storeLocal f b i val := by
  simp [VarHeap.store, hr, hplace]

/-- A store through a reference writes the cell it stands for. -/
theorem Refines.store (h : Refines g held s t) (hr : s.varRefs a = some r) (val : VarValue V) :
    ∃ s', s.store a val = some s' ∧ Refines g held s' (t.write (g a) val) := by
  rcases Bool.eq_false_or_eq_true r.isDetached with hd | hd
  · obtain ⟨hown, -, hlt, hno⟩ := h.detached a r hr hd
    refine ⟨_, store_own hr hown val, ?_⟩
    refine { h with
      frame := fun f sf hf => ?_
      linked := forall_setVarRef (h.linked a r hr) fun a' r' _ => h.linked a' r'
      detached := forall_setVarRef ?_ fun a' r' haa hr' hd' => ?_
      injective := fun a₁ a₂ r₁ r₂ h₁ h₂ => ?_
      counted := fun a' => ?_
      positive := forall_setVarRef (h.positive a r hr) fun a' r' _ => h.positive a' r'
      varRefBound := forall_setVarRef (h.varRefBound a r hr) fun a' r' _ => h.varRefBound a' r' }
    · obtain ⟨tf, ht, hm⟩ := h.frame f sf hf
      refine ⟨tf, ht, FrameMatches.setVarRef (hm.write fun b i hi => ?_) hr ⟨rfl, rfl, rfl, rfl⟩⟩
      exact hno f b i (by rwa [Scopes.localAt_of_frame ht])
    · exact fun _ => ⟨hown, (update_self (g a) val t.cells).symm, hlt, hno⟩
    · obtain ⟨hown', hvalue', hlt', hno'⟩ := h.detached a' r' hr' hd'
      refine ⟨hown', hvalue'.trans (update_of_ne ?_ ..).symm, hlt', hno'⟩
      exact fun heq => haa (h.injective a' a r' r hr' hr heq)
    · have hold : ∀ a' r', (s.setVarRef a { r with value := val }).varRefs a' = some r' →
          ∃ r'', s.varRefs a' = some r'' :=
        forall_setVarRef ⟨r, hr⟩ fun a' r' _ h' => ⟨r', h'⟩
      obtain ⟨r₁', h₁'⟩ := hold a₁ r₁ h₁
      obtain ⟨r₂', h₂'⟩ := hold a₂ r₂ h₂
      exact h.injective a₁ a₂ r₁' r₂' h₁' h₂'
    · have hcount := h.counted a'
      rw [setVarRef_varRefs]
      by_cases haa : a' = a
      · subst haa
        rw [hr] at hcount
        rw [update_self]
        exact hcount
      · rw [update_of_ne haa]
        exact hcount
  · obtain ⟨f, -, -, -, hplace, hcell⟩ := h.place hr hd
    rw [store_buf hr hplace]
    exact h.storeLocal hcell val

end IoQuickJS.Closure
