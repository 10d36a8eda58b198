import IoQuickJS.Closure.ScopeRefs

/-!
# Steps on references and on cells

A block or a function that is left closes references: they take the values of their variables
over, and the cells are no longer those of a frame. A function that is called gets new cells. An
object that is made, or that loses a reference, knows the cells its references stand for.
-/
namespace IoQuickJS.Closure

open Function (update update_self update_of_ne)
open Ledger (tally entry)

variable {V : Type} {g : Nat → Nat} {held : List Nat} {s s' : VarHeap V} {t t' : Scopes V}
  {a f i c : Nat} {b : Bool} {r : JSVarRef V} {sf : JSStackFrame V} {tf : ScopeFrame}

/-! ## Closing references -/

/-- The reference when its variable is left. -/
def JSStackFrame.closed (sf : JSStackFrame V) (r : JSVarRef V) : JSVarRef V :=
  { r with
    value := ((sf.buf r.isArg)[r.varIdx]?).getD .undefined, pvalue := .own, isDetached := true }

/-- The references to variables of the frame that `P` selects are closed. -/
def VarHeap.closeWhere (s : VarHeap V) (sf : JSStackFrame V) (P : Nat → Bool) : VarHeap V :=
  { s with varRefs := fun a => if P a then (s.varRefs a).map sf.closed else s.varRefs a }

/-- A reference that is closed before others. -/
theorem closeWhere_detach {P Q : Nat → Bool} (hr : s.varRefs a = some r)
    (hslot : r.varIdx < (sf.buf r.isArg).length) (hP : P a = false) (hQ : Q a = true)
    (hPQ : ∀ x, x ≠ a → P x = Q x) :
    (s.detach a r ((sf.buf r.isArg).get ⟨r.varIdx, hslot⟩)).closeWhere sf P =
      s.closeWhere sf Q := by
  unfold VarHeap.closeWhere VarHeap.detach
  congr 1
  funext x
  rw [setVarRef_varRefs]
  by_cases hxa : x = a
  · subst hxa
    rw [if_neg (by simp [hP]), if_pos hQ, update_self, hr]
    simp [JSStackFrame.closed, hslot]
  · rw [update_of_ne hxa, hPQ x hxa]

theorem closeWhere_of_not {l : List Nat} {P : Nat → Bool} (hP : P a = false) :
    (s.closeWhere sf fun x => x ∈ a :: l ∧ P x) = s.closeWhere sf fun x => x ∈ l ∧ P x := by
  refine congrArg (s.closeWhere sf) (funext fun x => ?_)
  by_cases hxa : x = a
  · simp [hxa, hP]
  · simp [hxa]

/-- The references in a list point to variables of the frame. -/
def PointInto (s : VarHeap V) (sf : JSStackFrame V) (l : List Nat) : Prop :=
  ∀ a ∈ l, ∃ r, s.varRefs a = some r ∧ r.varIdx < (sf.buf r.isArg).length

theorem PointInto.detach {l : List Nat} {val : VarValue V} (hl : PointInto s sf l) (ha : a ∉ l) :
    PointInto (s.detach a r val) sf l := fun x hx => by
  obtain ⟨r', hr', hslot'⟩ := hl x hx
  have hxa : x ≠ a := fun hxa => ha (hxa ▸ hx)
  exact ⟨r', (update_of_ne hxa ..).trans hr', hslot'⟩

theorem closeVarRefs_eq {l : List Nat} (hnodup : l.Nodup) (hl : PointInto s sf l) :
    VarHeap.closeVarRefs sf s l = some (s.closeWhere sf fun a => a ∈ l) := by
  induction l generalizing s with
  | nil => simp [VarHeap.closeVarRefs, VarHeap.closeWhere]
  | cons a l ih =>
    obtain ⟨ha, hnodup⟩ := List.nodup_cons.mp hnodup
    obtain ⟨r, hr, hslot⟩ := hl a List.mem_cons_self
    have hl' : PointInto s sf l := fun x hx => hl x (List.mem_cons_of_mem _ hx)
    rw [VarHeap.closeVarRefs, hr, Option.bind_eq_bind, Option.bind_some,
      List.getElem?_eq_getElem hslot, Option.bind_eq_bind, Option.bind_some,
      ih hnodup (hl'.detach ha)]
    refine congrArg some (closeWhere_detach hr hslot (by simp [ha]) (by simp) fun x hx => ?_)
    simp [hx]

/-- The reference is one to the variable `idx`. -/
def VarHeap.pointsTo (s : VarHeap V) (idx a : Nat) : Bool :=
  (s.varRefs a).any fun r => idx = r.varIdx ∧ r.isArg = false

theorem pointsTo_of_some (hr : s.varRefs a = some r) (idx : Nat) :
    s.pointsTo idx a = decide (idx = r.varIdx ∧ r.isArg = false) := by
  rw [VarHeap.pointsTo, hr]
  rfl

/-- Closing the reference `a` leaves what the other references point to. -/
theorem pointsTo_detach {val : VarValue V} {x : Nat} (hx : x ≠ a) (idx : Nat) :
    (s.detach a r val).pointsTo idx x = s.pointsTo idx x := by
  rw [VarHeap.pointsTo, VarHeap.detach, setVarRef_varRefs, update_of_ne hx]
  rfl

theorem closeLexicalVar_eq {l : List Nat} {idx : Nat} (hnodup : l.Nodup)
    (hl : PointInto s sf l) :
    VarHeap.closeLexicalVar sf idx s l = some (s.closeWhere sf fun a => a ∈ l ∧ s.pointsTo idx a,
      l.filter fun a => !s.pointsTo idx a) := by
  induction l generalizing s with
  | nil => simp [VarHeap.closeLexicalVar, VarHeap.closeWhere]
  | cons a l ih =>
    obtain ⟨ha, hnodup⟩ := List.nodup_cons.mp hnodup
    obtain ⟨r, hr, hslot⟩ := hl a List.mem_cons_self
    have hl' : PointInto s sf l := fun x hx => hl x (List.mem_cons_of_mem _ hx)
    rw [VarHeap.closeLexicalVar, hr, Option.bind_eq_bind, Option.bind_some]
    by_cases hpoints : idx = r.varIdx ∧ r.isArg = false
    · have hP : s.pointsTo idx a = true := by rw [pointsTo_of_some hr, decide_eq_true hpoints]
      have hval : sf.varBuf[idx]? = some ((sf.buf r.isArg).get ⟨r.varIdx, hslot⟩) := by
        rw [List.get_eq_getElem, ← List.getElem?_eq_getElem hslot, hpoints.1, hpoints.2]
        rfl
      rw [if_pos hpoints, hval, Option.bind_eq_bind, Option.bind_some, ih hnodup (hl'.detach ha),
        List.filter_cons_of_neg (by simp [hP])]
      refine congrArg some (Prod.ext ?_ (List.filter_congr fun x hx => ?_))
      · refine closeWhere_detach hr hslot (by simp [ha]) (by simp [hP]) fun x hx => ?_
        simp [pointsTo_detach hx, hx]
      · rw [pointsTo_detach fun hxa : x = a => ha (hxa ▸ hx)]
    · have hP : s.pointsTo idx a = false := by rw [pointsTo_of_some hr, decide_eq_false hpoints]
      rw [if_neg hpoints, ih hnodup hl', closeWhere_of_not hP,
        List.filter_cons_of_pos (by simp [hP])]
      rfl

/-- `sf'` with the cells `tf'` is what is left of the frame `sf` when the references that `P`
selects are closed. -/
structure Closes (g : Nat → Nat) (s : VarHeap V) (t : Scopes V) (f : Nat) (sf : JSStackFrame V)
    (P : Nat → Bool) (sf' : Option (JSStackFrame V)) (tf' : Option ScopeFrame) : Prop where
  chosen : ∀ a, P a = true → a ∈ sf.varRefList
  kept : ∀ a ∈ sf.varRefList, P a = false → ∃ x, sf' = some x ∧ a ∈ x.varRefList
  frame : ∀ x, sf' = some x →
    ∃ y, tf' = some y ∧ FrameMatches g (s.closeWhere sf P).varRefs t.cells f x y
  noFrame : sf' = none → tf' = none
  bound : ∀ y, tf' = some y → ∀ (b : Bool) (i c : Nat), (y.buf b)[i]? = some c →
    c < t.nextCell ∧ ∀ f' b' i', t.localAt f' b' i' = some c → f' = f
  distinct : ∀ y, tf' = some y → ∀ (b b' : Bool) (i i' c : Nat), (y.buf b)[i]? = some c →
    (y.buf b')[i']? = some c → b = b' ∧ i = i'
  apart : ∀ y, tf' = some y → ∀ a r, (s.closeWhere sf P).varRefs a = some r → r.isDetached = true →
    ∀ (b : Bool) (i : Nat), (y.buf b)[i]? ≠ some (g a)

theorem closeWhere_varRefs (s : VarHeap V) (sf : JSStackFrame V) (P : Nat → Bool) (a : Nat) :
    (s.closeWhere sf P).varRefs a = if P a then (s.varRefs a).map sf.closed else s.varRefs a := rfl

/-- A reference that is closed has the value of its cell. -/
theorem FrameMatches.closed (hm : FrameMatches g s.varRefs t.cells f sf tf)
    (ha : a ∈ sf.varRefList) (hr : s.varRefs a = some r) :
    sf.closed r = { r with value := t.cells (g a), pvalue := .own, isDetached := true } := by
  obtain ⟨r', hr', -, -, hcell⟩ := hm.listed a ha
  rw [hr] at hr'
  cases hr'
  rw [JSStackFrame.closed, hm.buf, List.getElem?_map, hcell]
  rfl

/-- The references of a frame are to its own variables. -/
theorem Refines.localAt_listed (h : Refines g held s t) (hf : s.frames f = some sf)
    (ha : a ∈ sf.varRefList) : ∃ b i, t.localAt f b i = some (g a) := by
  obtain ⟨tf, ht, hm⟩ := h.frame f sf hf
  obtain ⟨r, -, -, -, hcell⟩ := hm.listed a ha
  exact ⟨_, _, (Scopes.localAt_of_frame ht ..).trans hcell⟩

/-- What an entry of the references was before some were closed. -/
theorem closeWhere_cases {P : Nat → Bool} (hr : (s.closeWhere sf P).varRefs a = some r) :
    (P a = true ∧ ∃ r', s.varRefs a = some r' ∧ r = sf.closed r') ∨
      (P a = false ∧ s.varRefs a = some r) := by
  rw [closeWhere_varRefs] at hr
  split at hr
  · next hP =>
    obtain ⟨r', hr', rfl⟩ := Option.map_eq_some_iff.mp hr
    exact .inl ⟨hP, r', hr', rfl⟩
  · next hP => exact .inr ⟨by simpa using hP, hr⟩

/-- A local variable is one of the frame that is replaced, or it is where it was. -/
theorem Scopes.localAt_update {u : Scopes V} {x : Option ScopeFrame}
    (hu : u.frames = update t.frames f x) {f' : Nat} {b : Bool} {i c : Nat}
    (hc : u.localAt f' b i = some c) :
    (f' = f ∧ ∃ y, x = some y ∧ (y.buf b)[i]? = some c) ∨ (f' ≠ f ∧ t.localAt f' b i = some c) := by
  unfold Scopes.localAt at hc
  rw [hu] at hc
  by_cases hff : f' = f
  · rw [hff, update_self] at hc
    exact .inl ⟨hff, Option.bind_eq_some_iff.mp hc⟩
  · rw [update_of_ne hff] at hc
    exact .inr ⟨hff, hc⟩

theorem closeWhere_some {P : Nat → Bool} (hr : (s.closeWhere sf P).varRefs a = some r) :
    ∃ r', s.varRefs a = some r' ∧ r'.refCount = r.refCount := by
  rcases closeWhere_cases hr with ⟨-, r', hr', rfl⟩ | ⟨-, hr'⟩
  · exact ⟨r', hr', rfl⟩
  · exact ⟨r, hr', rfl⟩

/-- References that are closed stand for the cells they stood for. -/
theorem Refines.close {P : Nat → Bool} {sf' : Option (JSStackFrame V)} {tf' : Option ScopeFrame}
    (h : Refines g held s t) (hf : s.frames f = some sf) (hc : Closes g s t f sf P sf' tf') :
    Refines g held { s.closeWhere sf P with frames := update s.frames f sf' }
      { t with frames := update t.frames f tf' } := by
  obtain ⟨tf, ht, hm⟩ := h.frame f sf hf
  have hlocal := @Scopes.localAt_update V t f { t with frames := update t.frames f tf' } tf' rfl
  refine { h with
    frame := forall_update ?_ fun f' x hff hx => ?_
    noFrame := fun f' hx => ?_
    distinct := fun f₁ f₂ b₁ b₂ i₁ i₂ c h₁ h₂ => ?_
    bound := fun f' b i c hcell => ?_
    linked := fun a r hr hopen => ?_
    detached := fun a r hr hd => ?_
    injective := fun a₁ a₂ r₁ r₂ h₁ h₂ => ?_
    counted := fun a => ?_
    positive := fun a r hr => ?_
    varRefBound := fun a r hr => ?_
    frameBound := forall_update (fun _ _ => h.frameBound f sf hf) fun f' x _ => h.frameBound f' x }
  · dsimp only
    rw [update_self]
    exact hc.frame
  · dsimp only
    rw [update_of_ne hff]
    obtain ⟨y, hy, hmy⟩ := h.frame f' x hx
    refine ⟨y, hy, hmy.curFunc, hmy.buf, hmy.nodup, fun a ha => ?_⟩
    obtain ⟨r, hr, hopen, hplace, hcell⟩ := hmy.listed a ha
    have hP : P a = false := by
      by_contra hP
      obtain ⟨b, i, hlisted⟩ := h.localAt_listed hf (hc.chosen a (by simpa using hP))
      rw [← Scopes.localAt_of_frame hy] at hcell
      exact hff (h.distinct _ _ _ _ _ _ _ hcell hlisted).1
    exact ⟨r, by rw [closeWhere_varRefs, hP]; exact hr, hopen, hplace, hcell⟩
  · dsimp only at hx ⊢
    by_cases hff : f' = f
    · subst hff
      rw [update_self] at hx ⊢
      exact hc.noFrame hx
    · rw [update_of_ne hff] at hx ⊢
      exact h.noFrame f' hx
  · rcases hlocal h₁ with ⟨hf₁, y, hy, hc₁⟩ | ⟨hf₁, hc₁⟩
    · rcases hlocal h₂ with ⟨hf₂, y', hy', hc₂⟩ | ⟨hf₂, hc₂⟩
      · cases hy.symm.trans hy'
        exact ⟨hf₁.trans hf₂.symm, hc.distinct y hy _ _ _ _ _ hc₁ hc₂⟩
      · exact absurd ((hc.bound y hy _ _ _ hc₁).2 _ _ _ hc₂) hf₂
    · rcases hlocal h₂ with ⟨-, y', hy', hc₂⟩ | ⟨-, hc₂⟩
      · exact absurd ((hc.bound y' hy' _ _ _ hc₂).2 _ _ _ hc₁) hf₁
      · exact h.distinct _ _ _ _ _ _ _ hc₁ hc₂
  · rcases hlocal hcell with ⟨rfl, y, hy, hcell⟩ | ⟨-, hcell⟩
    · exact (hc.bound y hy _ _ _ hcell).1
    · exact h.bound _ _ _ _ hcell
  · rcases closeWhere_cases hr with ⟨-, r', -, rfl⟩ | ⟨hP, hr⟩
    · cases hopen
    · obtain ⟨f', x, hx, ha⟩ := h.linked a r hr hopen
      by_cases hff : f' = f
      · subst hff
        rw [hf] at hx
        cases hx
        obtain ⟨x', hx', ha'⟩ := hc.kept a ha hP
        exact ⟨f', x', (update_self ..).trans hx', ha'⟩
      · exact ⟨f', x, (update_of_ne hff ..).trans hx, ha⟩
  · have hfree : ∀ b i, (∀ f', f' ≠ f → t.localAt f' b i ≠ some (g a)) →
        ∀ f', Scopes.localAt { t with frames := update t.frames f tf' } f' b i ≠ some (g a) := by
      intro b i hother f' hcell
      rcases hlocal hcell with ⟨-, y, hy, hcell⟩ | ⟨hff, hcell⟩
      · exact hc.apart y hy a r hr hd b i hcell
      · exact hother f' hff hcell
    rcases closeWhere_cases hr with ⟨hP, r', hr', rfl⟩ | ⟨-, hr'⟩
    · have ha := hc.chosen a hP
      rw [hm.closed ha hr']
      obtain ⟨b', i', hlisted⟩ := h.localAt_listed hf ha
      refine ⟨rfl, rfl, h.cell_lt hr', fun f' b i => hfree b i (fun f' hff hcell => ?_) f'⟩
      exact hff (h.distinct _ _ _ _ _ _ _ hcell hlisted).1
    · obtain ⟨hown, hvalue, hlt, hno⟩ := h.detached a r hr' hd
      exact ⟨hown, hvalue, hlt, fun f' b i => hfree b i (fun f' _ => hno f' b i) f'⟩
  · obtain ⟨r₁', h₁', -⟩ := closeWhere_some h₁
    obtain ⟨r₂', h₂', -⟩ := closeWhere_some h₂
    exact h.injective a₁ a₂ r₁' r₂' h₁' h₂'
  · refine Eq.trans ?_ (h.counted a)
    rw [closeWhere_varRefs]
    split
    · cases s.varRefs a <;> rfl
    · rfl
  · obtain ⟨r', hr', hcount⟩ := closeWhere_some hr
    exact hcount ▸ h.positive a r' hr'
  · obtain ⟨r', hr', -⟩ := closeWhere_some hr
    exact h.varRefBound a r' hr'

theorem FrameMatches.pointInto (hm : FrameMatches g s.varRefs t.cells f sf tf) :
    PointInto s sf sf.varRefList := fun a ha => by
  obtain ⟨r, hr, -, -, hcell⟩ := hm.listed a ha
  refine ⟨r, hr, ?_⟩
  rw [hm.buf, List.length_map]
  exact (List.getElem?_eq_some_iff.mp hcell).1

/-- A function is left. -/
theorem Refines.leave (h : Refines g held s t) (hf : s.frames f = some sf) :
    ∃ s', VarHeap.closeVarRefs sf s sf.varRefList = some s' ∧
      Refines g held { s' with frames := update s'.frames f none }
        { t with frames := update t.frames f none } := by
  obtain ⟨tf, -, hm⟩ := h.frame f sf hf
  have hcloses : Closes g s t f sf (fun a => a ∈ sf.varRefList) none none :=
    { chosen := by simp
      kept := by simp +contextual
      frame := nofun
      noFrame := fun _ => rfl
      bound := nofun
      distinct := nofun
      apart := nofun }
  exact ⟨_, closeVarRefs_eq hm.nodup hm.pointInto, h.close hf hcloses⟩

/-! ## New cells -/

theorem Refines.allocate (h : Refines g held s t) (vals : List (VarValue V)) :
    Refines g held s (t.allocate vals).1 := by
  have hold : ∀ c, c < t.nextCell → (t.allocate vals).1.cells c = t.cells c := fun c hc => if_pos hc
  have hle : t.nextCell ≤ (t.allocate vals).1.nextCell := Nat.le_add_right ..
  refine { h with
    frame := fun f sf hf => ?_
    bound := fun f b i c hc => (h.bound f b i c hc).trans_le hle
    detached := fun a r hr hd => ?_ }
  · obtain ⟨tf, ht, hm⟩ := h.frame f sf hf
    exact ⟨tf, ht, hm.congr fun b i c hi =>
      hold c (h.bound f b i c ((Scopes.localAt_of_frame ht b i).trans hi))⟩
  · obtain ⟨hown, hvalue, hlt, hno⟩ := h.detached a r hr hd
    exact ⟨hown, hvalue.trans (hold _ hlt).symm, hlt.trans_le hle, hno⟩

/-- The cells of a frame after one of its variables has got a new one. -/
theorem ScopeFrame.buf_set {n j : Nat}
    (h : (({ tf with vars := tf.vars.set i n } : ScopeFrame).buf b)[j]? = some c) :
    (b = false ∧ j = i ∧ c = n) ∨ (¬(b = false ∧ j = i) ∧ (tf.buf b)[j]? = some c) := by
  cases b with
  | true => exact .inr ⟨nofun, h⟩
  | false =>
    change (tf.vars.set i n)[j]? = some c at h
    rw [List.getElem?_set] at h
    split at h
    · next hij =>
      split at h
      · exact .inl ⟨rfl, hij.symm, (Option.some.inj h).symm⟩
      · cases h
    · next hij => exact .inr ⟨fun hb => hij hb.2.symm, h⟩

theorem set_of_getElem? {α : Type} {l : List α} {x : α} (h : l[i]? = some x) : l.set i x = l := by
  obtain ⟨hlt, rfl⟩ := List.getElem?_eq_some_iff.mp h
  exact List.set_getElem_self hlt

/-- The frame when a block is left: the variable has the new cell `n`, and the references to it
are no longer listed. -/
theorem FrameMatches.closeLoc {cells : Nat → VarValue V} {n : Nat}
    (hm : FrameMatches g s.varRefs cells f sf tf) (hi : tf.vars[i]? = some c)
    (hn : cells n = cells c) :
    FrameMatches g (s.closeWhere sf fun a => a ∈ sf.varRefList ∧ s.pointsTo i a).varRefs cells f
      { sf with varRefList := sf.varRefList.filter fun a => !s.pointsTo i a }
      { tf with vars := tf.vars.set i n } := by
  refine ⟨hm.curFunc, fun b => ?_, hm.nodup.filter _, fun a ha => ?_⟩
  · cases b with
    | true => exact hm.buf true
    | false =>
      change sf.buf false = (tf.vars.set i n).map cells
      have hget : (tf.vars.map cells)[i]? = some (cells c) := by
        rw [List.getElem?_map, hi, Option.map_some]
      rw [List.map_set, hn, set_of_getElem? hget]
      exact hm.buf false
  · obtain ⟨hmem, hpoints⟩ := List.mem_filter.mp ha
    replace hpoints : s.pointsTo i a = false := (Bool.not_eq_true' _).mp hpoints
    obtain ⟨r, hr, hopen, hplace, hcell⟩ := hm.listed a hmem
    refine ⟨r, ?_, hopen, hplace, ?_⟩
    · rw [closeWhere_varRefs, if_neg (by simp [hpoints])]
      exact hr
    · rw [pointsTo_of_some hr, decide_eq_false_iff_not] at hpoints
      cases harg : r.isArg with
      | true => rwa [harg] at hcell
      | false =>
        rw [harg] at hcell
        change (tf.vars.set i n)[r.varIdx]? = _
        rw [List.getElem?_set_ne fun heq => hpoints ⟨heq, harg⟩]
        exact hcell

/-- What the references stand for when a block is left. -/
theorem Refines.closes_closeLoc (h : Refines g held s t) (hf : s.frames f = some sf)
    (ht : t.frames f = some tf) (hi : tf.vars[i]? = some c) :
    Closes g s (t.allocate [t.cells c]).1 f sf (fun a => a ∈ sf.varRefList ∧ s.pointsTo i a)
      (some { sf with varRefList := sf.varRefList.filter fun a => !s.pointsTo i a })
      (some { tf with vars := tf.vars.set i t.nextCell }) := by
  have h₁ := h.allocate [t.cells c]
  obtain ⟨tf', ht', hm⟩ := h₁.frame f sf hf
  obtain rfl : tf = tf' := Option.some.inj (ht.symm.trans ht')
  have hlocal : ∀ (b : Bool) (j c : Nat), (tf.buf b)[j]? = some c → t.localAt f b j = some c :=
    fun b j _ hj => (Scopes.localAt_of_frame ht b j).trans hj
  have hnew : (t.allocate [t.cells c]).1.cells t.nextCell =
      (t.allocate [t.cells c]).1.cells c := by
    simp [Scopes.allocate, h.bound f false i c (hlocal false i c hi)]
  refine ⟨by simp +contextual, by simp +contextual, ?_, nofun, ?_, ?_, ?_⟩
  · intro x hx
    obtain rfl := Option.some.inj hx
    exact ⟨_, rfl, hm.closeLoc hi hnew⟩
  · intro y hy b j x hx
    obtain rfl := Option.some.inj hy
    rcases ScopeFrame.buf_set hx with ⟨-, -, rfl⟩ | ⟨-, hx⟩
    · refine ⟨Nat.lt_succ_self _, fun f' b' i' hcell => ?_⟩
      exact absurd (h.bound f' b' i' _ hcell) (Nat.lt_irrefl _)
    · exact ⟨h₁.bound f b j x (hlocal b j x hx),
        fun f' b' i' hcell => (h.distinct _ _ _ _ _ _ _ hcell (hlocal b j x hx)).1⟩
  · intro y hy b b' j j' x hx hx'
    obtain rfl := Option.some.inj hy
    rcases ScopeFrame.buf_set hx with ⟨rfl, rfl, hn⟩ | ⟨-, hold⟩ <;>
      rcases ScopeFrame.buf_set hx' with ⟨rfl, rfl, hn'⟩ | ⟨-, hold'⟩
    · exact ⟨rfl, rfl⟩
    · exact absurd hn (Nat.ne_of_lt (h.bound _ _ _ _ (hlocal _ _ _ hold')))
    · exact absurd hn' (Nat.ne_of_lt (h.bound _ _ _ _ (hlocal _ _ _ hold)))
    · exact (h.distinct _ _ _ _ _ _ _ (hlocal _ _ _ hold) (hlocal _ _ _ hold')).2
  · intro y hy a r hr hd b j hx
    obtain rfl := Option.some.inj hy
    obtain ⟨r', hr', -⟩ := closeWhere_some hr
    rcases ScopeFrame.buf_set hx with ⟨-, -, hn⟩ | ⟨hne, hx⟩
    · exact absurd hn (Nat.ne_of_lt (h.cell_lt hr'))
    · rcases closeWhere_cases hr with ⟨hP, -⟩ | ⟨-, hr⟩
      · -- the cell is that of the variable that is left
        obtain ⟨hmem, hpoints⟩ := of_decide_eq_true hP
        obtain ⟨r'', hr'', -, -, hcell⟩ := hm.listed a hmem
        rw [pointsTo_of_some hr'', decide_eq_true_iff] at hpoints
        have hvar := h.distinct _ _ _ _ _ _ _ (hlocal _ _ _ hx) (hlocal _ _ _ hcell)
        exact hne ⟨hvar.2.1.trans hpoints.2, hvar.2.2.trans hpoints.1.symm⟩
      · exact (h.detached a r hr hd).2.2.2 f b j (hlocal _ _ _ hx)

/-- A block is left: the variable gets a cell of its own again, with the value it has. -/
theorem Refines.closeLoc (h : Refines g held s t) (hf : s.frames f = some sf)
    (ht : t.frames f = some tf) (hi : tf.vars[i]? = some c) :
    ∃ s' l, VarHeap.closeLexicalVar sf i s sf.varRefList = some (s', l) ∧
      Refines g held (s'.setFrame f { sf with varRefList := l })
        { (t.allocate [t.cells c]).1 with
          frames := update t.frames f (some { tf with vars := tf.vars.set i t.nextCell }) } := by
  obtain ⟨tf', -, hm⟩ := h.frame f sf hf
  exact ⟨_, _, closeLexicalVar_eq hm.nodup hm.pointInto,
    (h.allocate [t.cells c]).close hf (h.closes_closeLoc hf ht hi)⟩

/-! ## A function is called -/

/-- New cells have their values. -/
theorem Scopes.allocate_cells (t : Scopes V) (vals : List (VarValue V)) :
    (t.allocate vals).2.map (t.allocate vals).1.cells = vals := by
  refine List.ext_getElem (by simp [Scopes.allocate]) fun i hi hi' => ?_
  simp [Scopes.allocate, List.getElem?_eq_getElem hi']

/-- The cells of a frame that is entered. -/
def Scopes.entered (t : Scopes V) (curFunc args vars : Nat) : ScopeFrame :=
  ⟨curFunc, List.range' t.nextCell args, List.range' (t.nextCell + args) vars⟩

theorem Scopes.entered_buf {curFunc args vars : Nat}
    (h : ((t.entered curFunc args vars).buf b)[i]? = some c) :
    c < t.nextCell + args + vars ∧
      if b then i < args ∧ c = t.nextCell + i else c = t.nextCell + args + i := by
  cases b <;>
  · obtain ⟨hlt, hi⟩ := List.getElem?_eq_some_iff.mp h
    simp only [Scopes.entered, ScopeFrame.buf, Bool.false_eq_true, if_false, if_true,
      List.length_range', List.getElem_range'] at hlt hi ⊢
    omega

theorem Refines.enter (h : Refines g held s t) (curFunc : Nat) (args vars : List (VarValue V)) :
    Refines g held
      { s.setFrame s.nextFrame ⟨curFunc, args, vars, []⟩ with nextFrame := s.nextFrame + 1 }
      { ((t.allocate args).1.allocate vars).1 with
        nextFrame := t.nextFrame + 1
        frames := update t.frames t.nextFrame
          (some (t.entered curFunc args.length vars.length)) } := by
  have hu : Refines g held s ((t.allocate args).1.allocate vars).1 :=
    (h.allocate args).allocate vars
  have hfresh : ∀ f sf, s.frames f = some sf → f ≠ s.nextFrame := fun f sf hf =>
    Nat.ne_of_lt (h.frameBound f sf hf)
  have hbuf : ∀ b, JSStackFrame.buf ⟨curFunc, args, vars, []⟩ b =
      ((t.entered curFunc args.length vars.length).buf b).map
        ((t.allocate args).1.allocate vars).1.cells := by
    intro b
    cases b with
    | true =>
      refine (t.allocate_cells args).symm.trans (List.map_congr_left fun c hc => (if_pos ?_).symm)
      exact (List.mem_range'_1.mp hc).2
    | false => exact ((t.allocate args).1.allocate_cells vars).symm
  rw [h.nextFrame]
  have hlocal := @Scopes.localAt_update V t s.nextFrame
    { ((t.allocate args).1.allocate vars).1 with
      nextFrame := s.nextFrame + 1
      frames := update t.frames s.nextFrame (some (t.entered curFunc args.length vars.length)) }
    _ rfl
  refine { hu with
    frame := forall_update ?_ fun f sf hff hf => ?_
    noFrame := fun f hf => ?_
    distinct := fun f₁ f₂ b₁ b₂ i₁ i₂ c h₁ h₂ => ?_
    bound := fun f b i c hc => ?_
    linked := fun a r hr hopen => ?_
    detached := fun a r hr hd => ?_
    nextFrame := rfl
    frameBound := forall_update (fun _ _ => Nat.lt_succ_self _) fun f sf _ hf =>
      Nat.lt_succ_of_lt (h.frameBound f sf hf) }
  · intro sf hsf
    obtain rfl := Option.some.inj hsf
    exact ⟨_, update_self .., rfl, hbuf, List.nodup_nil, nofun⟩
  · obtain ⟨tf, ht, hm⟩ := hu.frame f sf hf
    exact ⟨tf, (update_of_ne hff ..).trans ht, hm⟩
  · change update s.frames s.nextFrame _ f = _ at hf
    by_cases hff : f = s.nextFrame
    · rw [hff, update_self] at hf
      cases hf
    · rw [update_of_ne hff] at hf
      exact (update_of_ne hff ..).trans (h.noFrame f hf)
  · rcases hlocal h₁ with ⟨hf₁, y, hy, hc₁⟩ | ⟨hf₁, hc₁⟩ <;>
      rcases hlocal h₂ with ⟨hf₂, y', hy', hc₂⟩ | ⟨hf₂, hc₂⟩
    · obtain rfl := Option.some.inj hy
      obtain rfl := Option.some.inj hy'
      have hi₁ := Scopes.entered_buf hc₁
      have hi₂ := Scopes.entered_buf hc₂
      refine ⟨hf₁.trans hf₂.symm, ?_⟩
      cases b₁ <;> cases b₂ <;> simp only [Bool.false_eq_true, if_false, if_true] at hi₁ hi₂ <;>
        simp <;> omega
    · obtain rfl := Option.some.inj hy
      have hi := (Scopes.entered_buf hc₁).2
      have hlt := h.bound _ _ _ _ hc₂
      split at hi <;> omega
    · obtain rfl := Option.some.inj hy'
      have hi := (Scopes.entered_buf hc₂).2
      have hlt := h.bound _ _ _ _ hc₁
      split at hi <;> omega
    · exact h.distinct _ _ _ _ _ _ _ hc₁ hc₂
  · rcases hlocal hc with ⟨-, y, hy, hc⟩ | ⟨-, hc⟩
    · obtain rfl := Option.some.inj hy
      exact (Scopes.entered_buf hc).1
    · exact hu.bound _ _ _ _ hc
  · obtain ⟨f, sf, hf, ha⟩ := h.linked a r hr hopen
    exact ⟨f, sf, (update_of_ne (hfresh f sf hf) ..).trans hf, ha⟩
  · obtain ⟨hown, hvalue, hlt, hno⟩ := hu.detached a r hr hd
    refine ⟨hown, hvalue, hlt, fun f b i hc => ?_⟩
    rcases hlocal hc with ⟨-, y, hy, hc⟩ | ⟨-, hc⟩
    · obtain rfl := Option.some.inj hy
      have hi := (Scopes.entered_buf hc).2
      have hold := h.cell_lt hr
      split at hi <;> omega
    · exact hno f b i hc

/-! ## Objects -/

theorem Refines.setObject {p : Nat} {refs : List (Option Nat)} {held' : List Nat}
    (h : Refines g held s t) (hp : s.objects p = some refs) (x : Option (List (Option Nat)))
    (hcount : ∀ a, entry heldBy a x + held'.count a = (heldBy refs).count a + held.count a) :
    Refines g held' { s with objects := update s.objects p x }
      { t with objects := update t.objects p (x.map (List.map (Option.map g))) } := by
  refine { h with
    counted := fun a => ?_
    objects := fun q => ?_
    objectBound := forall_update (fun _ _ => h.objectBound p refs hp) fun q refs' _ =>
      h.objectBound q refs' }
  · have htally := Ledger.tally_update (t := s.objects) heldBy a (h.objectBound p refs hp) x
    rw [hp, Ledger.entry_some] at htally
    have hold := h.counted a
    have hnew := hcount a
    unfold VarHeap.refs at hold ⊢
    dsimp only
    omega
  · dsimp only
    by_cases hqp : q = p
    · rw [hqp, update_self, update_self]
    · rw [update_of_ne hqp, update_of_ne hqp, h.objects]

theorem heldBy_map_some (as : List Nat) : heldBy (as.map some) = as := by
  simp [heldBy, List.filterMap_map]

/-- A new object holds the references that have been taken for it. -/
theorem Refines.newObject {as : List Nat} (h : Refines g (as ++ held) s t) :
    Refines g held
      { s with
        nextObject := s.nextObject + 1
        objects := update s.objects s.nextObject (some (as.map some)) }
      { t with
        nextObject := t.nextObject + 1
        objects := update t.objects t.nextObject (some ((as.map g).map some)) } := by
  have hfresh : s.objects s.nextObject = none := by
    cases hp : s.objects s.nextObject with
    | none => rfl
    | some refs => exact absurd (h.objectBound _ refs hp) (Nat.lt_irrefl _)
  rw [h.nextObject]
  refine { h with
    counted := fun a => ?_
    objects := fun q => ?_
    nextObject := rfl
    objectBound := forall_update (fun _ _ => Nat.lt_succ_self _) fun q refs _ hq =>
      Nat.lt_succ_of_lt (h.objectBound q refs hq) }
  · have htally := Ledger.tally_alloc heldBy a hfresh (some (as.map some))
    rw [Ledger.entry_some, heldBy_map_some] at htally
    have hold := h.counted a
    rw [List.count_append] at hold
    unfold VarHeap.refs at hold ⊢
    dsimp only
    omega
  · dsimp only
    by_cases hqp : q = s.nextObject
    · rw [hqp, update_self, update_self]
      simp
    · rw [update_of_ne hqp, update_of_ne hqp, h.objects]

/-- An object that loses a reference holds the others. -/
theorem heldBy_set {refs : List (Option Nat)} (h : refs[i]? = some (some a)) :
    (heldBy refs).Perm (a :: heldBy (refs.set i none)) := by
  induction refs generalizing i with
  | nil => cases h
  | cons x refs ih =>
    cases i with
    | zero =>
      obtain rfl := Option.some.inj h
      exact .refl _
    | succ i =>
      cases x with
      | none => exact ih h
      | some b => exact ((ih h).cons b).trans (.swap ..)

end IoQuickJS.Closure
