import IoQuickJS.Library.Ledger
import IoQuickJS.Shape.ShapeRefs

/-!
# Objects and their shapes

`Inv` is the invariant of a heap at rest: the references to a shape are those of the objects.
`Owns` says what a call on one object leads to: the object has a shape with what it should have,
and what the other objects see of theirs has not changed.
-/
namespace IoQuickJS

open Function (update)
open Ledger (tally entry)

/-- The names of a shape are distinct. -/
theorem ShapeOk.names {sh : JSShape} (h : ShapeOk sh) : NamesDistinct sh.names := by
  intro i j x y hi hj hx hxy
  rw [names_getElem?] at hi hj
  obtain ⟨pr, hpr, rfl⟩ := Option.map_eq_some_iff.mp hi
  obtain ⟨pr', hpr', rfl⟩ := Option.map_eq_some_iff.mp hj
  exact h.distinct i j pr pr' hpr hpr' hx hxy

theorem names_length (sh : JSShape) : sh.names.length = sh.prop.length := by simp [JSShape.names]

namespace ShapeHeap

variable {α : Type*} {s s' s'' : ShapeHeap α} {p q id : Nat} {o o' : PropObject α}
  {sh sh' : JSShape}

/-- The objects with the shape `id`. -/
def refs (s : ShapeHeap α) (id : Nat) : Nat :=
  tally s.nextObject s.objects (fun o : PropObject α => [o.shape]) id

structure Inv (s : ShapeHeap α) : Prop where
  shapes : ShapesInv s.refs s
  objects : ∀ p o, s.objects p = some o → p < s.nextObject ∧
    ∃ sh, s.shapes o.shape = some sh ∧ sh.propSize ≤ o.prop.length

theorem entry_shape (o : PropObject α) (id : Nat) :
    entry (fun o : PropObject α => [o.shape]) id (some o) = if o.shape = id then 1 else 0 := by
  simp [List.count_singleton]

/-- An object keeps its shape. -/
theorem refs_same (h : Inv s) (ho : s.objects p = some o)
    (hobjects : s'.objects = update s.objects p (some o')) (hshape : o'.shape = o.shape)
    (hnext : s'.nextObject = s.nextObject) : s'.refs = s.refs := by
  funext id
  rw [refs, refs, hobjects, hnext]
  exact Ledger.tally_update_same _ _ (h.objects p o ho).1 ho (by rw [hshape])

/-- An object changes its shape. -/
theorem refs_move (h : Inv s) (ho : s.objects p = some o) (hne : o'.shape ≠ o.shape)
    (hobjects : s'.objects = update s.objects p (some o'))
    (hnext : s'.nextObject = s.nextObject) :
    s'.refs = update (update s.refs o'.shape (s.refs o'.shape + 1)) o.shape
      (s.refs o.shape - 1) := by
  funext id
  have htally := Ledger.tally_update (fun o : PropObject α => [o.shape]) id (t := s.objects)
    (h.objects p o ho).1 (some o')
  rw [ho, entry_shape, entry_shape] at htally
  rw [refs, hobjects, hnext]
  have hrefs : ∀ x, s.refs x = tally s.nextObject s.objects (fun o => [o.shape]) x := fun _ => rfl
  by_cases hid : id = o.shape
  · subst hid
    rw [Function.update_self, hrefs]
    rw [if_pos rfl, if_neg hne] at htally
    omega
  · rw [Function.update_of_ne hid]
    rw [if_neg (Ne.symm hid)] at htally
    by_cases hid' : id = o'.shape
    · subst hid'
      rw [Function.update_self, hrefs]
      rw [if_pos rfl] at htally
      omega
    · rw [Function.update_of_ne hid', hrefs]
      rw [if_neg (Ne.symm hid')] at htally
      omega

/-- A shape with one reference is the shape of one object. -/
theorem Inv.alone (h : Inv s) (ho : s.objects p = some o) (hone : s.refs o.shape = 1)
    (hq : s.objects q = some o') (hne : q ≠ p) : o'.shape ≠ o.shape := by
  intro heq
  have hlt : ∀ k ∈ [q, p], k < s.nextObject := by
    simp [(h.objects p o ho).1, (h.objects q o' hq).1]
  have hle := Ledger.sum_entry_le_tally (t := s.objects) (fun o : PropObject α => [o.shape])
    o.shape (List.nodup_cons.mpr ⟨by simpa using hne, List.nodup_singleton p⟩) hlt
  rw [refs] at hone
  simp [ho, hq, heq, hone] at hle

/-- The call on `p` leads from `s` to `s'`, where it is the object `o` with the shape `sh`. -/
structure Owns (s s' : ShapeHeap α) (p : Nat) (o : PropObject α) (sh : JSShape) : Prop where
  inv : Inv s'
  objects : s'.objects = update s.objects p (some o)
  nextObject : s'.nextObject = s.nextObject
  shape : s'.shapes o.shape = some sh
  others : ∀ q o', q ≠ p → s.objects q = some o' → Keeps s s' o'.shape

theorem Owns.self (h : Owns s s' p o sh) : s'.objects p = some o := by
  rw [h.objects, Function.update_self]

theorem Owns.refl (h : Inv s) (ho : s.objects p = some o) (hs : s.shapes o.shape = some sh) :
    Owns s s p o sh :=
  ⟨h, by rw [← ho, Function.update_eq_self], rfl, hs, fun _ _ _ _ => .of_eq rfl⟩

theorem Owns.trans (h : Owns s s' p o sh) (h' : Owns s' s'' p o' sh') : Owns s s'' p o' sh' := by
  refine ⟨h'.inv, ?_, h'.nextObject.trans h.nextObject, h'.shape, fun q o'' hq ho'' => ?_⟩
  · rw [h'.objects, h.objects, Function.update_idem]
  · refine (h.others q o'' hq ho'').trans (h'.others q o'' hq ?_)
    rw [h.objects, Function.update_of_ne hq, ho'']

theorem Inv.live (h : Inv s) (hs : s.shapes id = some sh) :
    LiveShape s.nextShape (s.refs id) id sh := h.shapes.live id sh hs

/-- The values of the object are replaced. -/
theorem Inv.setValues (h : Inv s) (ho : s.objects p = some o) (hs : s.shapes o.shape = some sh)
    {prop : List α} (hsize : sh.propSize ≤ prop.length) :
    Owns s (setObject s p { o with prop := prop }) p { o with prop := prop } sh := by
  have hrefs : (setObject s p { o with prop := prop }).refs = s.refs :=
    refs_same h ho rfl rfl rfl
  refine ⟨⟨?_, fun q o' hq => ?_⟩, rfl, rfl, hs, fun _ _ _ _ => .of_eq rfl⟩
  · rw [hrefs]
    exact ⟨h.shapes.live, h.shapes.dead, h.shapes.linked⟩
  · by_cases hqp : q = p
    · subst hqp
      obtain rfl : { o with prop := prop } = o' := by simpa [setObject] using hq
      exact ⟨(h.objects q o ho).1, sh, hs, hsize⟩
    · exact h.objects q o' ((Function.update_of_ne hqp ..).symm.trans hq)

/-- An object that alone has its shape changes it, and its values. -/
theorem Inv.change (h : Inv s) (ho : s.objects p = some o) (hone : s.refs o.shape = 1)
    {prop : List α} (hok : ShapeOk sh') (hcount : sh'.refCount = 1)
    (hsize : sh'.propSize ≤ prop.length)
    (hshapes : s'.shapes = update s.shapes o.shape (some sh'))
    (hobjects : s'.objects = update s.objects p (some { o with prop := prop }))
    (hnext : s'.nextShape = s.nextShape) (hnext' : s'.nextObject = s.nextObject)
    (hlinked : Filed s'.shapeHash s'.shapeHashBits
      (update s.hashedAt o.shape sh'.hashKey)) :
    Owns s s' p { o with prop := prop } sh' := by
  have hrefs : s'.refs = s.refs := refs_same h ho hobjects rfl hnext'
  obtain ⟨hp, sh, hsh, -⟩ := h.objects p o ho
  have hlt := (h.live hsh).lt
  have hother : ∀ q o', q ≠ p → s.objects q = some o' → s'.shapes o'.shape = s.shapes o'.shape :=
    fun q o' hq ho' => by rw [hshapes, Function.update_of_ne (h.alone ho hone ho' hq)]
  refine ⟨⟨?_, fun q o' hq => ?_⟩, hobjects, hnext', ?_, fun q o' hq ho' =>
    .of_eq (hother q o' hq ho')⟩
  · rw [hrefs]
    have hinv := h.shapes.update (n := 1) (e := some sh') hshapes hlinked (by omega) (by
      rintro _ ⟨⟩
      exact ⟨hok, by omega, hcount, by omega, fun _ => rfl⟩) nofun
    rwa [← hone, Function.update_eq_self] at hinv
  · rw [hobjects] at hq
    by_cases hqp : q = p
    · subst hqp
      obtain rfl : { o with prop := prop } = o' := by simpa using hq
      refine ⟨by omega, sh', ?_, hsize⟩
      rw [hshapes, Function.update_self]
    · rw [Function.update_of_ne hqp] at hq
      obtain ⟨hlt, sh1, hsh1, hsize1⟩ := h.objects q o' hq
      exact ⟨by omega, sh1, (hother q o' hqp hq).trans hsh1, hsize1⟩
  · rw [hshapes, Function.update_self]

/-- An object moves to another shape. -/
theorem Inv.move (h : Inv s) (ho : s.objects p = some o) (hne : o'.shape ≠ o.shape)
    (hinv : ShapesInv (update (update s.refs o'.shape (s.refs o'.shape + 1)) o.shape
      (s.refs o.shape - 1)) s')
    (hobjects : s'.objects = update s.objects p (some o'))
    (hnext : s'.nextObject = s.nextObject) (hshape : s'.shapes o'.shape = some sh')
    (hsize : sh'.propSize ≤ o'.prop.length) (hkeeps : ∀ x, x ≠ o.shape → Keeps s s' x)
    (hkeeps' : s.refs o.shape ≠ 1 → Keeps s s' o.shape) : Owns s s' p o' sh' := by
  have hothers : ∀ q o1, q ≠ p → s.objects q = some o1 → Keeps s s' o1.shape := by
    intro q o1 hq ho1
    by_cases hsame : o1.shape = o.shape
    · exact hsame ▸ hkeeps' fun hone => h.alone ho hone ho1 hq hsame
    · exact hkeeps _ hsame
  refine ⟨⟨?_, fun q o1 hq => ?_⟩, hobjects, hnext, hshape, hothers⟩
  · rwa [refs_move h ho hne hobjects hnext]
  · rw [hobjects] at hq
    by_cases hqp : q = p
    · subst hqp
      obtain rfl : o' = o1 := by simpa using hq
      exact ⟨hnext ▸ (h.objects q o ho).1, sh', hshape, hsize⟩
    · rw [Function.update_of_ne hqp] at hq
      obtain ⟨hlt, sh1, hsh1, hsize1⟩ := h.objects q o1 hq
      obtain ⟨sh2, hsh2, hsame⟩ := hothers q o1 hqp hq sh1 hsh1
      exact ⟨by omega, sh2, hsh2, hsame.propSize ▸ hsize1⟩

/-- An object moves to a clone of its shape that nobody has yet. -/
theorem Inv.moveToClone (h : Inv s) (ho : s.objects p = some o) (hs : s.shapes o.shape = some sh)
    (hinv : ShapesInv (update s.refs s.nextShape 1) s')
    (hshapes : s'.shapes = update s.shapes s.nextShape (some sh')) (hsame : sh.Same sh')
    (hobjects : SameObjects s s') :
    ∃ s'', jsFreeShape s' o.shape = some s'' ∧
      Owns s (setObject s'' p { o with shape := s.nextShape }) p
        { o with shape := s.nextShape } sh' := by
  have hlt := (h.live hs).lt
  have hne : o.shape ≠ s.nextShape := by omega
  have hs' : s'.shapes o.shape = some sh := by rw [hshapes, Function.update_of_ne hne, hs]
  obtain ⟨s'', hfree, hinv', hobjects', hnext, hothers, hkept⟩ := hinv.free hs'
  obtain ⟨-, sh1, hsh1, hsize⟩ := h.objects p o ho
  obtain rfl : sh = sh1 := by simpa [hs] using hsh1
  have hzero : s.refs s.nextShape = 0 := h.shapes.dead _ h.shapes.fresh
  have hkeeps : ∀ x, Keeps s s' x := fun x sh1 hsh1 => by
    have hx : x ≠ s.nextShape := Nat.ne_of_lt (h.live hsh1).lt
    exact ⟨sh1, by rw [hshapes, Function.update_of_ne hx, hsh1], .rfl' sh1⟩
  refine ⟨s'', hfree, h.move ho (Ne.symm hne) ?_ ?_ ?_ ?_ (hsame.propSize ▸ hsize) ?_ ?_⟩
  · rw [Function.update_of_ne hne] at hinv'
    rw [show ({ o with shape := s.nextShape } : PropObject α).shape = s.nextShape from rfl, hzero]
    exact ⟨hinv'.live, hinv'.dead, hinv'.linked⟩
  · rw [setObject, hobjects'.objects, hobjects.objects]
  · exact hobjects'.nextObject.trans hobjects.nextObject
  · refine (hothers _ (Ne.symm hne)).trans ?_
    rw [hshapes, Function.update_self]
  · exact fun x hx => (hkeeps x).trans (.of_eq (hothers x hx))
  · intro hone
    refine (hkeeps _).trans (hkept ?_)
    rwa [Function.update_of_ne hne]

theorem Owns.setValues (h : Owns s s' p o sh) {prop : List α} (hsize : sh.propSize ≤ prop.length) :
    Owns s (setObject s' p { o with prop := prop }) p { o with prop := prop } sh :=
  h.trans (h.inv.setValues h.self h.shape hsize)

theorem Owns.room (h : Owns s s' p o sh) : sh.propSize ≤ o.prop.length := by
  obtain ⟨-, sh', hsh', hsize⟩ := h.inv.objects p o h.self
  obtain rfl : sh = sh' := by simpa [h.shape] using hsh'
  exact hsize

theorem Owns.fits (h : Owns s s' p o sh) : sh.prop.length ≤ o.prop.length :=
  (h.inv.live h.shape).ok.fits.trans h.room

/-- find_hashed_shape_prop finds a shape with the one property more. -/
theorem Inv.findHashed (h : Inv s) (sh : JSShape) (atom flags : Nat) :
    ∃ r, ShapeHeap.findHashedShapeProp s sh atom flags = some r ∧ ∀ id, r = some id →
      ∃ newSh, s.shapes id = some newSh ∧ newSh.isHashed = true ∧ newSh.proto = sh.proto ∧
        newSh.names = sh.names ++ [(atom, flags)] := by
  obtain ⟨r, hr, hfound⟩ := findHashed_bucket h.shapes.linked (shapeHashProp sh.hash atom flags)
    fun sh1 => sh1.hash == shapeHashProp sh.hash atom flags && sh1.proto == sh.proto &&
      sh1.prop.length == sh.prop.length + 1 &&
      sh1.prop.map (fun pr => (pr.atom, pr.flags)) ==
        sh.prop.map (fun pr => (pr.atom, pr.flags)) ++ [(atom, flags)]
  refine ⟨r, hr, fun id hid => ?_⟩
  obtain ⟨newSh, hs, hhashed, htest⟩ := hfound id hid
  simp only [Bool.and_eq_true, beq_iff_eq] at htest
  exact ⟨newSh, hs, hhashed, htest.1.1.2, htest.2⟩

theorem Inv.findHashedProto (h : Inv s) (proto : Nat) :
    ∃ r, findHashedShapeProto s proto = some r ∧ ∀ id, r = some id →
      ∃ sh, s.shapes id = some sh ∧ sh.isHashed = true ∧ sh.proto = proto ∧ sh.names = [] := by
  obtain ⟨r, hr, hfound⟩ := findHashed_bucket h.shapes.linked (shapeInitialHash proto)
    fun sh1 => sh1.hash == shapeInitialHash proto && sh1.proto == proto && sh1.prop.length == 0
  refine ⟨r, hr, fun id hid => ?_⟩
  obtain ⟨sh, hs, hhashed, htest⟩ := hfound id hid
  simp only [Bool.and_eq_true, beq_iff_eq] at htest
  refine ⟨sh, hs, hhashed, htest.1.2, ?_⟩
  rw [JSShape.names, List.eq_nil_of_length_eq_zero htest.2, List.map_nil]

/-- No object has the next name. -/
theorem Inv.fresh (h : Inv s) : s.objects s.nextObject = none := by
  cases ho : s.objects s.nextObject with
  | none => rfl
  | some o => exact absurd (h.objects _ o ho).1 (Nat.lt_irrefl _)

/-- The shape of a new object, with a reference taken for it. -/
theorem Inv.shapeForProto (h : Inv s) (proto : Nat) (memory : ShapeMemory) :
    ∃ s' r, ShapeHeap.shapeForProto s proto memory = some (s', r) ∧ SameObjects s s' ∧
      (∀ x, Keeps s s' x) ∧
      ((r = none ∧ memory.shape = false ∧ ShapesInv s.refs s') ∨
        ∃ id sh, r = some id ∧ ShapesInv (update s.refs id (s.refs id + 1)) s' ∧
          s'.shapes id = some sh ∧ sh.names = [] ∧ sh.proto = proto) := by
  obtain ⟨found, hfound, hshape⟩ := h.findHashedProto proto
  rw [ShapeHeap.shapeForProto, hfound, Option.bind_some]
  cases found with
  | some id =>
    obtain ⟨sh, hs, hhashed, hproto, hnames⟩ := hshape id rfl
    obtain ⟨s', hdup, hinv, hobjects, hkeeps⟩ := h.shapes.dup hs hhashed
    obtain ⟨sh', hs', hsame⟩ := hkeeps id sh hs
    exact ⟨s', some id, by simp only [hdup, Option.map_some], hobjects, hkeeps,
      .inr ⟨id, sh', rfl, hinv, hs', hsame.names.trans hnames, hsame.proto.trans hproto⟩⟩
  | none =>
    obtain ⟨s', r, hnew, hobjects, hkeeps, hcases⟩ := h.shapes.newShape proto memory
    refine ⟨s', r, hnew, hobjects, hkeeps, ?_⟩
    rcases hcases with hfailed | ⟨sh, rfl, hinv, hs, hnames, hproto⟩
    · exact .inl hfailed
    · refine .inr ⟨_, sh, rfl, ?_, hs, hnames, hproto⟩
      rwa [h.shapes.dead _ h.shapes.fresh]

/-- A heap whose objects are the same, and whose shapes are counted for them. -/
theorem Inv.of_same (h : Inv s) (hshapes : ShapesInv s.refs s') (hobjects : SameObjects s s')
    (hkeeps : ∀ q o, s.objects q = some o → Keeps s s' o.shape) : Inv s' := by
  refine ⟨?_, fun q o hq => ?_⟩
  · have hrefs : s'.refs = s.refs := funext fun x => by
      rw [refs, refs, hobjects.objects, hobjects.nextObject]
    rwa [hrefs]
  · rw [hobjects.objects] at hq
    obtain ⟨hlt, sh, hsh, hsize⟩ := h.objects q o hq
    obtain ⟨sh', hsh', hsame⟩ := hkeeps q o hq sh hsh
    exact ⟨hobjects.nextObject ▸ hlt, sh', hsh', hsame.propSize ▸ hsize⟩

/-- A new object, for the reference that has been taken for it. -/
theorem Inv.allocObject (h : Inv s) (hobjects : SameObjects s s')
    (hinv : ShapesInv (update s.refs id (s.refs id + 1)) s') (hs : s'.shapes id = some sh)
    (hkeeps : ∀ x, Keeps s s' x) {prop : List α} (hsize : sh.propSize ≤ prop.length) :
    Inv { setObject s' s.nextObject ⟨id, prop⟩ with nextObject := s.nextObject + 1 } := by
  refine ⟨?_, fun q o hq => ?_⟩
  · have hrefs : refs { setObject s' s.nextObject ⟨id, prop⟩ with
        nextObject := s.nextObject + 1 } = update s.refs id (s.refs id + 1) := by
      funext x
      have halloc := Ledger.tally_alloc (fun o : PropObject α => [o.shape]) x (t := s.objects)
        h.fresh (some ⟨id, prop⟩)
      rw [entry_shape] at halloc
      rw [refs]
      simp only [setObject, hobjects.objects]
      rw [halloc]
      by_cases hx : x = id
      · subst hx
        rw [Function.update_self, if_pos rfl]
        rfl
      · rw [Function.update_of_ne hx, if_neg (Ne.symm hx)]
        rfl
    rw [hrefs]
    exact ⟨hinv.live, hinv.dead, hinv.linked⟩
  · change update s'.objects s.nextObject (some ⟨id, prop⟩) q = some o at hq
    by_cases hqn : q = s.nextObject
    · subst hqn
      rw [Function.update_self] at hq
      obtain rfl := Option.some.inj hq
      exact ⟨Nat.lt_succ_self _, sh, hs, hsize⟩
    · rw [Function.update_of_ne hqn, hobjects.objects] at hq
      obtain ⟨hlt, sh1, hsh1, hsize1⟩ := h.objects q o hq
      obtain ⟨sh2, hsh2, hsame⟩ := hkeeps _ sh1 hsh1
      exact ⟨Nat.lt_succ_of_lt hlt, sh2, hsh2, hsame.propSize ▸ hsize1⟩

/-- An object that is freed drops its reference. -/
theorem Inv.freeObject (h : Inv s) (ho : s.objects p = some o) (hs : s.shapes o.shape = some sh) :
    ∃ s', jsFreeShape s o.shape = some s' ∧
      Inv { s' with objects := update s'.objects p none } ∧ SameObjects s s' ∧
      ∀ q o', q ≠ p → s.objects q = some o' → Keeps s s' o'.shape := by
  obtain ⟨s', hfree, hinv, hobjects, hnext, hothers, hkept⟩ := h.shapes.free hs
  have hkeeps : ∀ q o', q ≠ p → s.objects q = some o' → Keeps s s' o'.shape := by
    intro q o' hq ho'
    by_cases hsame : o'.shape = o.shape
    · exact hsame ▸ hkept fun hone => h.alone ho hone ho' hq hsame
    · exact .of_eq (hothers _ hsame)
  refine ⟨s', hfree, ⟨?_, fun q o' hq => ?_⟩, hobjects, hkeeps⟩
  · have hrefs : refs { s' with objects := update s'.objects p none } =
        update s.refs o.shape (s.refs o.shape - 1) := by
      funext x
      have htally := Ledger.tally_update (fun o : PropObject α => [o.shape]) x (t := s.objects)
        (h.objects p o ho).1 none
      rw [ho, entry_shape, Ledger.entry_none] at htally
      rw [refs]
      simp only [hobjects.objects, hobjects.nextObject]
      have hx' : s.refs x = tally s.nextObject s.objects (fun o => [o.shape]) x := rfl
      by_cases hx : x = o.shape
      · subst hx
        rw [Function.update_self, hx']
        rw [if_pos rfl] at htally
        omega
      · rw [Function.update_of_ne hx, hx']
        rw [if_neg (Ne.symm hx)] at htally
        omega
    rw [hrefs]
    exact ⟨hinv.live, hinv.dead, hinv.linked⟩
  · change update s'.objects p none q = some o' at hq
    have hqp : q ≠ p := by
      rintro rfl
      simp at hq
    rw [Function.update_of_ne hqp, hobjects.objects] at hq
    obtain ⟨hlt, sh1, hsh1, hsize1⟩ := h.objects q o' hq
    obtain ⟨sh2, hsh2, hsame⟩ := hkeeps q o' hqp hq sh1 hsh1
    exact ⟨hobjects.nextObject ▸ hlt, sh2, hsh2, hsame.propSize ▸ hsize1⟩

end ShapeHeap

end IoQuickJS
