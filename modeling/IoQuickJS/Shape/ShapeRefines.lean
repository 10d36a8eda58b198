import IoQuickJS.Shape.ShapeCalls

/-!
# Sharing shapes is invisible

`Refines` relates a heap with shapes to objects without: every object has the prototype of its
shape, and the properties its names and values make. Each call keeps the relation and returns what
the call on the objects without shapes returns, or fails for want of memory and leaves the objects
as they are.

## Main results

* `step_matched`: one call.
* `shapes_are_invisible`: every sequence of calls.
-/
namespace IoQuickJS

open Function (update)
open Simulation (Matched trace orFail)

/-- Whether all allocations of a call succeed. -/
def ShapeLabel.enough {α : Type*} : ShapeLabel α → Bool
  | .newObject _ memory | .addProperty _ _ _ _ memory | .deleteProperty _ _ memory
  | .updateFlags _ _ _ memory | .setPrototype _ _ memory => memory.enough
  | _ => true

/-- A property is added under a name. -/
def ShapeLabel.Named {α : Type*} : ShapeLabel α → Prop
  | .addProperty _ atom _ _ _ => atom ≠ 0
  | _ => True

/-- The calls on objects without shapes, all of which can be made. -/
def ObjectStore.call {α : Type*} (d : ObjectStore α) (l : ShapeLabel α) :
    Option (ObjectStore α × ShapeOutput α) := some (d.step l)

namespace ShapeHeap

variable {α : Type*} {s s' : ShapeHeap α} {d : ObjectStore α} {p atom : Nat}
  {o o' : PropObject α} {sh sh' : JSShape}

/-- The object on its own. -/
def view (sh : JSShape) (o : PropObject α) : OwnObject α := ⟨sh.proto, ownView sh.names o.prop⟩

structure Refines (s : ShapeHeap α) (d : ObjectStore α) : Prop where
  inv : Inv s
  next : s.nextObject = d.next
  absent : ∀ p, s.objects p = none → d.objects p = none
  present : ∀ p o sh, s.objects p = some o → s.shapes o.shape = some sh →
    d.objects p = some (view sh o)

/-- The effect on one object is the effect of the specification. -/
theorem Refines.of_owns (h : Refines s d) (ho : s.objects p = some o) (howns : Owns s s' p o' sh') :
    Refines s' (d.put p (some (view sh' o'))) := by
  refine ⟨howns.inv, howns.nextObject.trans h.next, fun q hq => ?_, fun q o1 sh1 hq hsh1 => ?_⟩
  · rw [howns.objects] at hq
    have hqp : q ≠ p := by
      rintro rfl
      simp at hq
    rw [Function.update_of_ne hqp] at hq
    rw [ObjectStore.put_objects, Function.update_of_ne hqp, h.absent q hq]
  · rw [howns.objects] at hq
    rw [ObjectStore.put_objects]
    by_cases hqp : q = p
    · subst hqp
      rw [Function.update_self] at hq ⊢
      obtain rfl := Option.some.inj hq
      rw [howns.shape] at hsh1
      rw [Option.some.inj hsh1]
    · rw [Function.update_of_ne hqp] at hq ⊢
      obtain ⟨-, sh2, hsh2, -⟩ := h.inv.objects q o1 hq
      obtain ⟨sh3, hsh3, hsame⟩ := howns.others q o1 hqp hq sh2 hsh2
      obtain rfl : sh3 = sh1 := by simpa [hsh3] using hsh1
      rw [h.present q o1 sh2 hq hsh2, view, view, hsame.proto, hsame.names]

/-- An object with the same view is the same object. -/
theorem Refines.of_owns_same (h : Refines s d) (ho : s.objects p = some o)
    (hs : s.shapes o.shape = some sh) (howns : Owns s s' p o' sh')
    (hview : view sh' o' = view sh o) : Refines s' d := by
  have hrefines := h.of_owns ho howns
  rwa [hview, ObjectStore.put, ← h.present p o sh ho hs, Function.update_eq_self] at hrefines

/-- What is related by one call: the result of the call on objects without shapes or, when memory
is short, a failure. -/
def Answered (l : ShapeLabel α) (d : ObjectStore α)
    (r : Option (ShapeHeap α × ShapeOutput α)) : Prop :=
  ∃ b, (b = true → l.enough = false) ∧
    Matched Refines r (orFail ObjectStore.call .exception d (l, b))

theorem Answered.done {l : ShapeLabel α} {d' : ObjectStore α} {out : ShapeOutput α}
    (h : Refines s' d') (hstep : d.step l = (d', out)) : Answered l d (some (s', out)) := by
  refine ⟨false, nofun, ?_⟩
  rw [orFail, if_neg (by simp), ObjectStore.call, hstep]
  exact .some out h

theorem Answered.failed {l : ShapeLabel α} (h : Refines s' d) (hl : l.enough = false) :
    Answered l d (some (s', .exception)) := by
  refine ⟨true, fun _ => hl, ?_⟩
  rw [orFail, if_pos rfl]
  exact .some _ h

/-- A call on an object. -/
theorem Refines.onObject (h : Refines s d) {l : ShapeLabel α}
    {f : PropObject α → JSShape → Option (ShapeHeap α × ShapeOutput α)}
    {g : OwnObject α → ObjectStore α × ShapeOutput α} (hstep : d.step l = d.onObject p g)
    (hcall : ∀ o sh, s.objects p = some o → s.shapes o.shape = some sh →
      d.step l = g (view sh o) → Answered l d (f o sh)) :
    Answered l d (ShapeHeap.onObject s p f) := by
  rw [ShapeHeap.onObject]
  cases ho : s.objects p with
  | none =>
    refine .done h ?_
    rw [hstep, ObjectStore.onObject, h.absent p ho]
    rfl
  | some o =>
    obtain ⟨-, sh, hsh, -⟩ := h.inv.objects p o ho
    dsimp only
    rw [hsh, Option.bind_some]
    refine hcall o sh ho hsh ?_
    rw [hstep, ObjectStore.onObject, h.present p o sh ho hsh]
    rfl

/-- A property that find_own_property has found, and where it is among the properties. -/
structure Found (sh : JSShape) (o : PropObject α) (atom lpr i : Nat) (pr : JSShapeProperty) (v : α)
    (l r : List (OwnProperty α)) : Prop where
  search : sh.findOwnProperty atom = some (lpr, i + 1)
  prop : sh.prop[i]? = some pr
  atom_eq : pr.atom = atom
  atom_ne : atom ≠ 0
  linked : lpr = 0 ∧ sh.propHash[sh.bucketOf atom]? = some (i + 1) ∨
    sh.Member lpr ∧ sh.keyOf lpr = sh.bucketOf atom ∧ sh.hashNext lpr = some (i + 1)
  value : o.prop[i]? = some v
  before : ∀ q ∈ l, q.atom ≠ atom
  after : ∀ q ∈ r, q.atom ≠ atom
  seen : (view sh o).properties = l ++ ⟨atom, pr.flags, v⟩ :: r
  set : ∀ f' v', ownView (sh.names.set i (atom, f')) (o.prop.set i v') = l ++ ⟨atom, f', v'⟩ :: r
  erase : ∀ v', ownView (sh.names.set i (0, 0)) (o.prop.set i v') = l ++ r

theorem Found.names {lpr i : Nat} {pr : JSShapeProperty} {v : α} {l r : List (OwnProperty α)}
    (h : Found sh o atom lpr i pr v l r) : sh.names[i]? = some (atom, pr.flags) := by
  rw [names_getElem?, h.prop, Option.map_some, h.atom_eq]

theorem Found.setValue {lpr i : Nat} {pr : JSShapeProperty} {v : α} {l r : List (OwnProperty α)}
    (h : Found sh o atom lpr i pr v l r) (v' : α) :
    view sh { o with prop := o.prop.set i v' } =
      { view sh o with properties := l ++ ⟨atom, pr.flags, v'⟩ :: r } := by
  have hset := h.set pr.flags v'
  obtain ⟨_, hself⟩ := List.getElem?_eq_some_iff.mp h.names
  rw [← hself, List.set_getElem_self] at hset
  rw [ShapeHeap.view, hset]
  rfl

theorem Found.setFlags {lpr i id f' : Nat} {pr : JSShapeProperty} {v : α}
    {l r : List (OwnProperty α)} (h : Found sh o atom lpr i pr v l r)
    (hnames : sh'.names = sh.names.set i (atom, f')) (hproto : sh'.proto = sh.proto) :
    view sh' { o with shape := id } =
      { view sh o with properties := l ++ ⟨atom, f', v⟩ :: r } := by
  have hset := h.set f' v
  obtain ⟨_, hself⟩ := List.getElem?_eq_some_iff.mp h.value
  rw [← hself, List.set_getElem_self, hself] at hset
  rw [ShapeHeap.view, hnames, hset, hproto]
  rfl

theorem Found.remove {lpr i id : Nat} {pr : JSShapeProperty} {v v' : α}
    {l r : List (OwnProperty α)} (h : Found sh o atom lpr i pr v l r)
    (hnames : sh'.names = sh.names.set i (0, 0)) (hproto : sh'.proto = sh.proto) :
    view sh' ⟨id, o.prop.set i v'⟩ = { view sh o with properties := l ++ r } := by
  rw [ShapeHeap.view, hnames, h.erase, hproto]
  rfl

/-- find_own_property finds what the list of properties has. -/
theorem Inv.find (h : Inv s) (ho : s.objects p = some o) (hs : s.shapes o.shape = some sh)
    (atom : Nat) :
    (∃ lpr, sh.findOwnProperty atom = some (lpr, 0) ∧ (view sh o).find atom = none ∧
      (atom ≠ 0 → ∀ (i : Nat) (pr : JSShapeProperty), sh.prop[i]? = some pr → pr.atom ≠ atom)) ∨
    ∃ lpr i pr v l r, Found sh o atom lpr i pr v l r := by
  have hok := (h.live hs).ok
  have hfits := (Owns.refl h ho hs).fits
  rcases hok.find atom with ⟨lpr, hfind, hnone⟩ | ⟨lpr, i, pr, hfind, hpr, rfl, hatom, hlinked⟩
  · refine .inl ⟨lpr, hfind, ?_, hnone⟩
    refine List.find?_eq_none.mpr fun q hq hqa => ?_
    obtain ⟨hzero, i, hi, -⟩ := atom_of_mem_ownView hq
    rw [names_getElem?] at hi
    obtain ⟨pr, hpr, heq⟩ := Option.map_eq_some_iff.mp hi
    have hqatom : q.atom = atom := by simpa using hqa
    exact hnone (hqatom ▸ hzero) i pr hpr ((congrArg Prod.fst heq).trans hqatom)
  · have hlt := (List.getElem?_eq_some_iff.mp hpr).1
    have hv := List.getElem?_eq_getElem (l := o.prop) (i := i) (by omega)
    obtain ⟨l, r, hl, hr, hview, hset, herase⟩ := ownView_split hok.names
      (show sh.names[i]? = some (pr.atom, pr.flags) by rw [names_getElem?, hpr]; rfl) hv hatom
    exact .inr ⟨lpr, i, pr, _, l, r, hfind, hpr, rfl, hatom, hlinked, hv, hl, hr, hview, hset,
      herase⟩

/-- A call on a property of an object. -/
theorem Refines.onProperty (h : Refines s d) (ho : s.objects p = some o)
    (hs : s.shapes o.shape = some sh) {l : ShapeLabel α} (atom : Nat)
    {absent : Option (ShapeHeap α × ShapeOutput α)}
    {f : Nat → JSShapeProperty → Option (ShapeHeap α × ShapeOutput α)}
    (habsent : (view sh o).find atom = none →
      (atom ≠ 0 → ∀ (i : Nat) (pr : JSShapeProperty), sh.prop[i]? = some pr → pr.atom ≠ atom) →
      Answered l d absent)
    (hfound : ∀ lpr i pr v ps qs, Found sh o atom lpr i pr v ps qs →
      (view sh o).find atom = some ⟨atom, pr.flags, v⟩ → Answered l d (f i pr)) :
    Answered l d (ShapeHeap.onProperty sh atom absent f) := by
  rw [ShapeHeap.onProperty]
  rcases h.inv.find ho hs atom with ⟨lpr, hfind, hnone, hall⟩ | ⟨lpr, i, pr, v, ps, qs, hfnd⟩
  · rw [hfind, Option.bind_some]
    exact habsent hnone hall
  · rw [hfnd.search, Option.bind_some]
    dsimp only
    rw [if_neg (by omega), Nat.add_sub_cancel, hfnd.prop, Option.bind_some]
    exact hfound lpr i pr v ps qs hfnd (OwnObject.find_split hfnd.before hfnd.seen)

theorem Refines.getProperty (h : Refines s d) (p atom : Nat) :
    Answered (.getProperty p atom) d (ShapeHeap.onObject s p fun o sh =>
      ShapeHeap.onProperty sh atom (some (s, .noProperty)) fun i pr =>
        o.prop[i]?.map fun v => (s, .property pr.flags v)) := by
  refine h.onObject rfl fun o sh ho hs hstep => h.onProperty ho hs atom (fun hnone _ => ?_)
    fun lpr i pr v ps qs hfound hfind => ?_
  · exact .done h (by rw [hstep, hnone]; rfl)
  · rw [hfound.value, Option.map_some]
    exact .done h (by rw [hstep, hfind]; rfl)

theorem Refines.setValue (h : Refines s d) (p atom : Nat) (value : α) :
    Answered (.setValue p atom value) d (ShapeHeap.onObject s p fun o sh =>
      ShapeHeap.onProperty sh atom (some (s, .noProperty)) fun i _ =>
        if i < o.prop.length then
          some (setObject s p { o with prop := o.prop.set i value }, .ok)
        else none) := by
  refine h.onObject rfl fun o sh ho hs hstep => h.onProperty ho hs atom (fun hnone _ => ?_)
    fun lpr i pr v ps qs hfound hfind => ?_
  · exact .done h (by rw [hstep, hnone]; rfl)
  · rw [if_pos (List.getElem?_eq_some_iff.mp hfound.value).1]
    have hroom := (Owns.refl h.inv ho hs).room
    have hsize : sh.propSize ≤ (o.prop.set i value).length := by rwa [List.length_set]
    refine .done (h.of_owns ho (h.inv.setValues ho hs hsize)) ?_
    rw [hstep, hfind, OwnObject.change_split hfound.before hfound.after hfound.seen,
      hfound.setValue]
    rfl

theorem Refines.updateFlags (h : Refines s d) (p atom flags : Nat) (memory : ShapeMemory) :
    Answered (.updateFlags p atom flags memory) d (ShapeHeap.onObject s p fun o sh =>
      ShapeHeap.onProperty sh atom (some (s, .noProperty)) fun i pr =>
        if flags ≠ pr.flags then
          updateShape s p o sh memory (fun sh => some { sh with
            prop := sh.prop.modify i fun pr => { pr with flags := flags } }) .ok
        else some (s, .ok)) := by
  refine h.onObject rfl fun o sh ho hs hstep => h.onProperty ho hs atom (fun hnone _ => ?_)
    fun lpr i pr v ps qs hfound hfind => ?_
  · exact .done h (by rw [hstep, hnone]; rfl)
  · have hstep' : d.step (.updateFlags p atom flags memory) =
        (d.put p (some { view sh o with properties := ps ++ ⟨atom, flags, v⟩ :: qs }), .ok) := by
      rw [hstep, hfind]
      exact congrArg (fun o => (d.put p (some o), ShapeOutput.ok))
        (OwnObject.change_split hfound.before hfound.after hfound.seen _)
    by_cases hflags : flags ≠ pr.flags
    · rw [if_pos hflags]
      obtain ⟨s', out, id, heq, hcases⟩ := h.inv.updateShape ho hs memory
        (f := fun sh => some { sh with
          prop := sh.prop.modify i fun pr => { pr with flags := flags } }) .ok rfl
        ((h.inv.live hs).ok.setFlags i flags) rfl rfl rfl
      rw [heq]
      rcases hcases with ⟨rfl, howns⟩ | ⟨rfl, hmemory, rfl⟩
      · refine .done (h.of_owns ho howns) (hstep'.trans ?_)
        have hnames := names_setFlags sh hfound.prop flags
        rw [hfound.atom_eq] at hnames
        refine congrArg (fun o => (d.put p (some o), ShapeOutput.ok)) (Eq.symm ?_)
        exact hfound.setFlags hnames rfl
      · exact .failed h hmemory
    · rw [if_neg hflags]
      have hsame : { view sh o with properties := ps ++ ⟨atom, flags, v⟩ :: qs } = view sh o := by
        rw [of_not_not hflags, ← hfound.seen]
      refine .done h ?_
      rw [hstep', hsame, ObjectStore.put, ← h.present p o sh ho hs, Function.update_eq_self]

theorem Refines.setPrototype (h : Refines s d) (p proto : Nat) (memory : ShapeMemory) :
    Answered (.setPrototype p proto memory) d (ShapeHeap.onObject s p fun o sh =>
      if sh.proto = proto then some (s, .ok)
      else updateShape s p o sh memory (fun sh => some { sh with proto := proto }) .ok) := by
  refine h.onObject rfl fun o sh ho hs hstep => ?_
  by_cases hproto : sh.proto = proto
  · rw [if_pos hproto]
    refine .done h ?_
    rw [hstep, show { view sh o with proto := proto } = view sh o by rw [← hproto]; rfl,
      ObjectStore.put, ← h.present p o sh ho hs, Function.update_eq_self]
  · rw [if_neg hproto]
    obtain ⟨s', out, id, heq, hcases⟩ := h.inv.updateShape ho hs memory
      (f := fun sh => some { sh with proto := proto }) .ok rfl
      ((h.inv.live hs).ok.congr rfl rfl rfl) rfl rfl rfl
    rw [heq]
    rcases hcases with ⟨rfl, howns⟩ | ⟨rfl, hmemory, rfl⟩
    · exact .done (h.of_owns ho howns) hstep
    · exact .failed h hmemory

theorem Refines.deleteProperty [Inhabited α] (h : Refines s d) (p atom : Nat)
    (memory : ShapeMemory) :
    Answered (.deleteProperty p atom memory) d (ShapeHeap.onObject s p fun o sh =>
      ShapeHeap.deleteProperty s p o sh atom memory) := by
  refine h.onObject rfl fun o sh ho hs hstep => ?_
  rw [ShapeHeap.deleteProperty]
  rcases h.inv.find ho hs atom with ⟨lpr, hfind, hnone, -⟩ | ⟨lpr, i, pr, v, ps, qs, hfound⟩
  · rw [hfind, Option.bind_some]
    exact .done h (by rw [hstep, hnone]; rfl)
  · have hfind := OwnObject.find_split hfound.before hfound.seen
    rw [hfind] at hstep
    rw [hfound.search, Option.bind_some]
    dsimp only
    rw [if_neg (by omega), Nat.add_sub_cancel, hfound.prop, Option.bind_some]
    by_cases hconf : pr.flags &&& jsPropConfigurable = 0
    · rw [if_pos hconf]
      exact .done h (hstep.trans (if_pos hconf))
    · rw [if_neg hconf]
      have hlive := h.inv.live hs
      have hok : ShapeOk { sh with refCount := 1, isHashed := false } :=
        hlive.ok.congr rfl rfl rfl
      have hatom := hfound.atom_eq
      subst hatom
      obtain ⟨sh', hremove, hok', hnames, -, hsize, hcount, hhashed, -, hproto⟩ :=
        hok.remove hfound.prop hfound.atom_ne hfound.linked
      obtain ⟨s', out, id, heq, hcases⟩ := h.inv.updateShape ho hs memory
        (f := fun sh => sh.remove pr.atom lpr (i + 1)) (.bool true) hremove hok' hcount hhashed
        hsize
      rw [heq, Option.bind_some]
      rcases hcases with ⟨rfl, howns⟩ | ⟨rfl, hmemory, rfl⟩
      · have hlt := (List.getElem?_eq_some_iff.mp hfound.value).1
        have hself := howns.self
        dsimp only at hself ⊢
        rw [hself, Option.bind_some, if_pos hlt]
        have hsize' : sh'.propSize ≤ (o.prop.set i default).length := by
          rw [List.length_set]
          exact howns.room
        refine .done (h.of_owns ho (howns.setValues hsize')) ((hstep.trans (if_neg hconf)).trans ?_)
        rw [OwnObject.delete_split hfound.before hfound.after hfound.seen]
        refine congrArg (fun o => (d.put p (some o), ShapeOutput.bool true)) (Eq.symm ?_)
        exact hfound.remove hnames hproto
      · exact .failed h hmemory

theorem Refines.addProperty [Inhabited α] (h : Refines s d) (p flags : Nat) (value : α)
    (memory : ShapeMemory) (hatom : atom ≠ 0) :
    Answered (.addProperty p atom flags value memory) d (ShapeHeap.onObject s p fun o sh =>
      ShapeHeap.onProperty sh atom (ShapeHeap.addProperty s p o sh atom flags value memory)
        fun _ _ => some (s, .bool false)) := by
  refine h.onObject rfl fun o sh ho hs hstep => h.onProperty ho hs atom (fun hnone hnew => ?_)
    fun lpr i pr v ps qs hfound hfind => .done h (by rw [hstep, hfind]; rfl)
  obtain ⟨s', out, o', sh', heq, howns, hproto, hcases⟩ :=
    h.inv.addProperty ho hs hatom (hnew hatom) flags value memory
  rw [heq]
  rcases hcases with ⟨rfl, hview⟩ | ⟨rfl, hmemory, hview⟩
  · refine .done (h.of_owns ho howns) ?_
    have hadded : view sh' o' = (view sh o).add atom flags value := by
      rw [view, hproto, hview]
      rfl
    rw [hstep, hnone, hadded]
    rfl
  · refine .failed (h.of_owns_same ho hs howns ?_) hmemory
    rw [view, hproto, hview]
    rfl

/-- A heap in which every object is what it was. -/
theorem Refines.of_same (h : Refines s d) (hinv : Inv s') (hobjects : SameObjects s s')
    (hkeeps : ∀ q o, s.objects q = some o → Keeps s s' o.shape) : Refines s' d := by
  refine ⟨hinv, hobjects.nextObject.trans h.next, fun q hq => h.absent q ?_,
    fun q o sh' hq hsh' => ?_⟩
  · rwa [hobjects.objects] at hq
  · rw [hobjects.objects] at hq
    obtain ⟨-, sh, hsh, -⟩ := h.inv.objects q o hq
    obtain ⟨sh1, hsh1, hsame⟩ := hkeeps q o hq sh hsh
    obtain rfl : sh1 = sh' := by simpa [hsh1] using hsh'
    rw [h.present q o sh hq hsh, view, view, hsame.names, hsame.proto]

/-- A heap in which there is an object more. -/
theorem Refines.of_new (h : Refines s d) (hinv : Inv s')
    (hobjects : s'.objects = update s.objects s.nextObject (some o))
    (hnext : s'.nextObject = s.nextObject + 1) (hshape : s'.shapes o.shape = some sh)
    (hkeeps : ∀ x, Keeps s s' x) :
    Refines s' { next := d.next + 1, objects := update d.objects d.next (some (view sh o)) } := by
  refine ⟨hinv, by rw [hnext, h.next], fun q hq => ?_, fun q o1 sh1 hq hsh1 => ?_⟩
  · rw [hobjects, h.next] at hq
    change update d.objects d.next _ q = _
    have hqn : q ≠ d.next := by
      rintro rfl
      simp at hq
    rw [Function.update_of_ne hqn] at hq ⊢
    exact h.absent q hq
  · rw [hobjects, h.next] at hq
    change update d.objects d.next _ q = _
    by_cases hqn : q = d.next
    · subst hqn
      rw [Function.update_self] at hq ⊢
      obtain rfl := Option.some.inj hq
      rw [hshape] at hsh1
      rw [Option.some.inj hsh1]
    · rw [Function.update_of_ne hqn] at hq ⊢
      obtain ⟨-, sh2, hsh2, -⟩ := h.inv.objects q o1 hq
      obtain ⟨sh3, hsh3, hsame⟩ := hkeeps _ sh2 hsh2
      obtain rfl : sh3 = sh1 := by simpa [hsh3] using hsh1
      rw [h.present q o1 sh2 hq hsh2, view, view, hsame.names, hsame.proto]

theorem Refines.newObject [Inhabited α] (h : Refines s d) (proto : Nat) (memory : ShapeMemory) :
    Answered (.newObject proto memory) d (jsNewObjectProtoClass s proto memory) := by
  obtain ⟨s1, r, heq, hobjects, hkeeps, hcases⟩ := h.inv.shapeForProto proto memory
  rw [jsNewObjectProtoClass, heq, Option.bind_some]
  rcases hcases with ⟨rfl, hmemory, hinv⟩ | ⟨id, sh, rfl, hinv, hs, hnames, hproto⟩
  · exact .failed (h.of_same (h.inv.of_same hinv hobjects fun _ _ _ => hkeeps _) hobjects
      fun _ _ _ => hkeeps _) (by simp [ShapeLabel.enough, ShapeMemory.enough, hmemory])
  · dsimp only
    rw [jsNewObjectFromShape]
    by_cases hmemory : memory.object = true ∧ memory.prop = true
    · rw [if_pos hmemory, hs, Option.map_some]
      dsimp only
      rw [hobjects.nextObject]
      have hsize : sh.propSize ≤ (List.replicate sh.propSize (default : α)).length := by simp
      have hinv2 := h.inv.allocObject hobjects hinv hs hkeeps hsize
      have hrefines := h.of_new (o := ⟨id, List.replicate sh.propSize default⟩) hinv2
        (by rw [← hobjects.objects]; rfl) rfl hs hkeeps
      have hview : view sh ⟨id, List.replicate sh.propSize (default : α)⟩ = ⟨proto, []⟩ := by
        rw [view, hproto, hnames]
        rfl
      rw [hview] at hrefines
      rw [h.next] at hrefines ⊢
      exact .done hrefines rfl
    · rw [if_neg hmemory]
      obtain ⟨s2, hfree, hinv2, hobjects2, -, hothers, hkept⟩ := hinv.free hs
      rw [hfree, Option.map_some]
      rw [Function.update_self, Function.update_idem, Nat.add_sub_cancel,
        Function.update_eq_self] at hinv2
      have hsame : SameObjects s s2 := ⟨hobjects2.objects.trans hobjects.objects,
        hobjects2.nextObject.trans hobjects.nextObject⟩
      have hkeeps2 : ∀ q o, s.objects q = some o → Keeps s s2 o.shape := by
        intro q o hq
        by_cases hid : o.shape = id
        · subst hid
          refine (hkeeps _).trans (hkept ?_)
          obtain ⟨-, sh1, hsh1, -⟩ := h.inv.objects q o hq
          have := (h.inv.live hsh1).pos
          rw [Function.update_self]
          omega
        · exact (hkeeps _).trans (.of_eq (hothers _ hid))
      refine .failed (h.of_same (h.inv.of_same hinv2 hsame hkeeps2) hsame hkeeps2) ?_
      simp only [ShapeLabel.enough, ShapeMemory.enough]
      cases hobject : memory.object <;> cases hprop : memory.prop <;> simp_all

theorem Refines.freeObject (h : Refines s d) (p : Nat) :
    Answered (.freeObject p) d (ShapeHeap.onObject s p fun o _ =>
      (jsFreeShape s o.shape).map fun s =>
        ({ s with objects := update s.objects p none }, .ok)) := by
  refine h.onObject rfl fun o sh ho hs hstep => ?_
  obtain ⟨s', hfree, hinv, hobjects, hkeeps⟩ := h.inv.freeObject ho hs
  rw [hfree, Option.map_some]
  refine .done (?_ : Refines _ (d.put p none)) hstep
  refine ⟨hinv, hobjects.nextObject.trans h.next, fun q hq => ?_, fun q o1 sh1 hq hsh1 => ?_⟩
  · change update s'.objects p none q = none at hq
    rw [ObjectStore.put_objects]
    by_cases hqp : q = p
    · subst hqp
      rw [Function.update_self]
    · rw [Function.update_of_ne hqp, hobjects.objects] at hq
      rw [Function.update_of_ne hqp, h.absent q hq]
  · change update s'.objects p none q = some o1 at hq
    have hqp : q ≠ p := by
      rintro rfl
      simp at hq
    rw [Function.update_of_ne hqp, hobjects.objects] at hq
    obtain ⟨-, sh2, hsh2, -⟩ := h.inv.objects q o1 hq
    obtain ⟨sh3, hsh3, hsame⟩ := hkeeps q o1 hqp hq sh2 hsh2
    obtain rfl : sh3 = sh1 := by simpa [hsh3] using hsh1
    rw [ObjectStore.put_objects, Function.update_of_ne hqp, h.present q o1 sh2 hq hsh2, view, view,
      hsame.names, hsame.proto]

/-- One call on the heap with shapes is the call on objects without. -/
theorem step_matched [Inhabited α] (s : ShapeHeap α) (d : ObjectStore α) (l : ShapeLabel α)
    (h : Refines s d) (hl : l.Named) : Answered l d (step s l) := by
  cases l with
  | newObject proto memory => exact h.newObject proto memory
  | addProperty p atom flags value memory => exact h.addProperty p flags value memory hl
  | deleteProperty p atom memory => exact h.deleteProperty p atom memory
  | updateFlags p atom flags memory => exact h.updateFlags p atom flags memory
  | setValue p atom value => exact h.setValue p atom value
  | setPrototype p proto memory => exact h.setPrototype p proto memory
  | getProperty p atom => exact h.getProperty p atom
  | getPrototype p => exact h.onObject rfl fun o sh ho hs hstep => .done h hstep
  | ownProperties p =>
    refine h.onObject rfl fun o sh ho hs hstep => .done h (hstep.trans ?_)
    have hlen : sh.names.length ≤ o.prop.length :=
      (names_length sh).le.trans (Owns.refl h.inv ho hs).fits
    rw [view, ownView_names hlen, JSShape.names, List.filterMap_map]
    rfl
  | freeObject p => exact h.freeObject p

theorem new_refines : Refines (new : ShapeHeap α) ObjectStore.new := by
  refine ⟨⟨⟨nofun, fun id _ => Ledger.tally_empty .., ?_⟩, nofun⟩, rfl, fun _ _ => rfl, nofun⟩
  exact filed_empty 4

end ShapeHeap

/-- Two objects that share a shape until one of them loses the property. -/
def sharedRun : List (ShapeLabel Nat) :=
  let memory : ShapeMemory := ⟨true, true, true, true, true⟩
  [.newObject 7 memory, .newObject 7 memory, .addProperty 0 5 1 10 memory,
    .addProperty 1 5 1 20 memory, .addProperty 1 6 1 30 { memory with shape := false },
    .deleteProperty 0 5 memory, .getProperty 0 5, .getProperty 1 5, .ownProperties 1]

example : trace ShapeHeap.step ShapeHeap.new sharedRun =
    some [.object 0, .object 1, .ok, .ok, .exception, .bool true, .noProperty, .property 1 20,
      .properties [(5, 1)]] := by decide +kernel

end IoQuickJS
