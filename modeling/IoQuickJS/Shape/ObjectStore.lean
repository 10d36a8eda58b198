import Mathlib.Logic.Function.Basic
import IoQuickJS.Shape.ShapeState

/-!
# Objects without shapes

What the calls on objects mean, with no shape in sight: every object has its prototype and the
list of its properties, in the order they were added, and nothing is shared. `ownView` reads such
a list from the names of a shape and the values of an object.
-/
namespace IoQuickJS

open Function (update)

/-- A property of an object. -/
structure OwnProperty (α : Type*) where
  atom : Nat
  flags : Nat
  value : α
  deriving DecidableEq, Repr

/-- An object of its own. -/
structure OwnObject (α : Type*) where
  proto : Nat
  properties : List (OwnProperty α)
  deriving Repr

structure ObjectStore (α : Type*) where
  next : Nat
  objects : Nat → Option (OwnObject α)

namespace OwnObject

variable {α : Type*}

def find (o : OwnObject α) (atom : Nat) : Option (OwnProperty α) :=
  o.properties.find? fun q => q.atom == atom

/-- Change the property `atom`. -/
def change (o : OwnObject α) (atom : Nat) (f : OwnProperty α → OwnProperty α) : OwnObject α :=
  { o with properties := o.properties.map fun q => if q.atom = atom then f q else q }

def delete (o : OwnObject α) (atom : Nat) : OwnObject α :=
  { o with properties := o.properties.filter fun q => q.atom ≠ atom }

def add (o : OwnObject α) (atom flags : Nat) (value : α) : OwnObject α :=
  { o with properties := o.properties ++ [⟨atom, flags, value⟩] }

end OwnObject

section Split

variable {α : Type*} {l r : List (OwnProperty α)} {a f : Nat} {v : α} {o : OwnObject α}

theorem OwnObject.find_split (hl : ∀ q ∈ l, q.atom ≠ a) (ho : o.properties = l ++ ⟨a, f, v⟩ :: r) :
    o.find a = some ⟨a, f, v⟩ := by
  have hnone : (l.find? fun q => q.atom == a) = none := by
    simpa [List.find?_eq_none] using hl
  rw [OwnObject.find, ho, List.find?_append, hnone]
  simp

theorem OwnObject.change_split (hl : ∀ q ∈ l, q.atom ≠ a) (hr : ∀ q ∈ r, q.atom ≠ a)
    (ho : o.properties = l ++ ⟨a, f, v⟩ :: r) (g : OwnProperty α → OwnProperty α) :
    o.change a g = { o with properties := l ++ g ⟨a, f, v⟩ :: r } := by
  have hid : ∀ xs : List (OwnProperty α), (∀ q ∈ xs, q.atom ≠ a) →
      (xs.map fun q => if q.atom = a then g q else q) = xs := fun xs hxs => by
    conv_rhs => rw [← List.map_id xs]
    exact List.map_congr_left fun q hq => if_neg (hxs q hq)
  rw [OwnObject.change, ho, List.map_append, List.map_cons, hid l hl, hid r hr, if_pos rfl]

theorem OwnObject.delete_split (hl : ∀ q ∈ l, q.atom ≠ a) (hr : ∀ q ∈ r, q.atom ≠ a)
    (ho : o.properties = l ++ ⟨a, f, v⟩ :: r) :
    o.delete a = { o with properties := l ++ r } := by
  have hid : ∀ xs : List (OwnProperty α), (∀ q ∈ xs, q.atom ≠ a) →
      (xs.filter fun q => q.atom ≠ a) = xs := fun xs hxs => by
    simpa [List.filter_eq_self] using hxs
  rw [OwnObject.delete, ho, List.filter_append, List.filter_cons_of_neg (by simp), hid l hl,
    hid r hr]

end Split

namespace ObjectStore

variable {α : Type*}

def put (d : ObjectStore α) (p : Nat) (o : Option (OwnObject α)) : ObjectStore α :=
  { d with objects := update d.objects p o }

@[simp] theorem put_objects (d : ObjectStore α) (p : Nat) (o : Option (OwnObject α)) :
    (d.put p o).objects = update d.objects p o := rfl

def onObject (d : ObjectStore α) (p : Nat) (f : OwnObject α → ObjectStore α × ShapeOutput α) :
    ObjectStore α × ShapeOutput α :=
  (d.objects p).elim (d, .noObject) f

/-- One call. -/
def step (d : ObjectStore α) : ShapeLabel α → ObjectStore α × ShapeOutput α
  | .newObject proto _ =>
    ({ next := d.next + 1, objects := update d.objects d.next (some ⟨proto, []⟩) },
      .object d.next)
  | .addProperty p atom flags value _ => d.onObject p fun o =>
    (o.find atom).elim (d.put p (o.add atom flags value), .ok) fun _ => (d, .bool false)
  | .deleteProperty p atom _ => d.onObject p fun o =>
    (o.find atom).elim (d, .bool true) fun q =>
      if q.flags &&& ShapeHeap.jsPropConfigurable = 0 then (d, .bool false)
      else (d.put p (o.delete atom), .bool true)
  | .updateFlags p atom flags _ => d.onObject p fun o =>
    (o.find atom).elim (d, .noProperty) fun _ =>
      (d.put p (o.change atom fun q => { q with flags := flags }), .ok)
  | .setValue p atom value => d.onObject p fun o =>
    (o.find atom).elim (d, .noProperty) fun _ =>
      (d.put p (o.change atom fun q => { q with value := value }), .ok)
  | .setPrototype p proto _ => d.onObject p fun o =>
    (d.put p (some { o with proto := proto }), .ok)
  | .getProperty p atom => d.onObject p fun o =>
    (o.find atom).elim (d, .noProperty) fun q => (d, .property q.flags q.value)
  | .getPrototype p => d.onObject p fun o => (d, .proto o.proto)
  | .ownProperties p => d.onObject p fun o =>
    (d, .properties (o.properties.map fun q => (q.atom, q.flags)))
  | .freeObject p => d.onObject p fun _ => (d.put p none, .ok)

def new : ObjectStore α where
  next := 0
  objects := fun _ => none

end ObjectStore

section View

variable {α : Type*} {names : List (Nat × Nat)} {values : List α} {atom flags i : Nat}

/-- The properties that names and values in order make; the atom `0` is no name. -/
def ownView (names : List (Nat × Nat)) (values : List α) : List (OwnProperty α) :=
  (names.zip values).filterMap fun q => if q.1.1 = 0 then none else some ⟨q.1.1, q.1.2, q.2⟩

/-- No name occurs twice. -/
def NamesDistinct (names : List (Nat × Nat)) : Prop :=
  ∀ (i j : Nat) (x y : Nat × Nat), names[i]? = some x → names[j]? = some y → x.1 ≠ 0 →
    x.1 = y.1 → i = j

theorem ownView_append {names' : List (Nat × Nat)} {values' : List α}
    (h : names.length = values.length) :
    ownView (names ++ names') (values ++ values') =
      ownView names values ++ ownView names' values' := by
  rw [ownView, List.zip_append h, List.filterMap_append]
  rfl

theorem ownView_cons (x : Nat × Nat) (v : α) (hx : x.1 ≠ 0) :
    ownView (x :: names) (v :: values) = ⟨x.1, x.2, v⟩ :: ownView names values := by
  simp [ownView, hx]

theorem ownView_cons_zero (v : α) :
    ownView ((0, flags) :: names) (v :: values) = ownView names values := by
  simp [ownView]

/-- Only the values that have a name are seen. -/
theorem ownView_extend (extra : List α) (h : names.length ≤ values.length) :
    ownView names (values ++ extra) = ownView names values := by
  rw [ownView, ownView]
  congr 1
  induction names generalizing values with
  | nil => simp
  | cons x names ih =>
    cases values with
    | nil => simp at h
    | cons v values => simpa using ih (by simpa using h)

theorem ownView_realloc [Inhabited α] {n : Nat} (h : names.length ≤ values.length)
    (hn : names.length ≤ n) : ownView names (realloc values n) = ownView names values := by
  rw [realloc, ownView_extend _ (by rw [List.length_take]; omega)]
  conv_rhs => rw [← List.take_append_drop n values]
  rw [ownView_extend _ (by rw [List.length_take]; omega)]

theorem ownView_names (h : names.length ≤ values.length) :
    (ownView names values).map (fun q => (q.atom, q.flags)) =
      names.filterMap fun x => if x.1 = 0 then none else some x := by
  induction names generalizing values with
  | nil => rfl
  | cons x names ih =>
    obtain ⟨a, f⟩ := x
    cases values with
    | nil => simp at h
    | cons v values =>
      have hlen : names.length ≤ values.length := by simpa using h
      have hrest := ih hlen
      by_cases ha : a = 0
      · subst ha
        rw [ownView_cons_zero, hrest]
        rfl
      · rw [ownView_cons _ _ ha, List.map_cons, hrest, List.filterMap_cons]
        simp [ha]

theorem ownView_add (h : names.length < values.length) (ha : atom ≠ 0) (flags : Nat) (v : α) :
    ownView (names ++ [(atom, flags)]) (values.set names.length v) =
      ownView names values ++ [⟨atom, flags, v⟩] := by
  have hlen : names.length = (values.take names.length).length := by
    rw [List.length_take]
    omega
  rw [List.set_eq_take_append_cons_drop, if_pos h, ownView_append hlen, ownView_cons _ _ ha]
  conv_rhs => rw [← List.take_append_drop names.length values, ownView_extend _ hlen.le]
  simp [ownView]

theorem atom_of_mem_ownView {q : OwnProperty α} (h : q ∈ ownView names values) :
    q.atom ≠ 0 ∧ ∃ i : Nat, names[i]? = some (q.atom, q.flags) ∧ values[i]? = some q.value := by
  obtain ⟨x, hx, hq⟩ := List.mem_filterMap.mp h
  obtain ⟨i, hi⟩ := List.mem_iff_getElem?.mp hx
  obtain ⟨hn, hv⟩ := List.getElem?_zip_eq_some.mp hi
  split_ifs at hq with hzero
  obtain rfl := Option.some.inj hq
  exact ⟨hzero, i, hn, hv⟩

/-- The properties before and after the one at an index, whatever it is changed to. -/
theorem ownView_split {a f : Nat} {v : α} (hd : NamesDistinct names)
    (hn : names[i]? = some (a, f)) (hv : values[i]? = some v) (ha : a ≠ 0) :
    ∃ l r : List (OwnProperty α), (∀ q ∈ l, q.atom ≠ a) ∧ (∀ q ∈ r, q.atom ≠ a) ∧
      ownView names values = l ++ ⟨a, f, v⟩ :: r ∧
      (∀ f' v', ownView (names.set i (a, f')) (values.set i v') = l ++ ⟨a, f', v'⟩ :: r) ∧
      ∀ v', ownView (names.set i (0, 0)) (values.set i v') = l ++ r := by
  have hni := (List.getElem?_eq_some_iff.mp hn).1
  have hvi := (List.getElem?_eq_some_iff.mp hv).1
  have hlen : (names.take i).length = (values.take i).length := by
    simp only [List.length_take]
    omega
  have hset : ∀ x w, ownView (names.set i x) (values.set i w) =
      ownView (names.take i) (values.take i) ++
        ownView (x :: names.drop (i + 1)) (w :: values.drop (i + 1)) := fun x w => by
    rw [List.set_eq_take_append_cons_drop, if_pos hni, List.set_eq_take_append_cons_drop,
      if_pos hvi, ownView_append hlen]
  refine ⟨ownView (names.take i) (values.take i),
    ownView (names.drop (i + 1)) (values.drop (i + 1)), fun q hq hqa => ?_, fun q hq hqa => ?_,
    ?_, fun f' v' => ?_, fun v' => ?_⟩
  · obtain ⟨-, j, hj, -⟩ := atom_of_mem_ownView hq
    rw [List.getElem?_take] at hj
    split_ifs at hj with hji
    have := hd i j _ _ hn hj ha hqa.symm
    omega
  · obtain ⟨-, j, hj, -⟩ := atom_of_mem_ownView hq
    rw [List.getElem?_drop] at hj
    have := hd i _ _ _ hn hj ha hqa.symm
    omega
  · have := hset (a, f) v
    obtain ⟨_, hn'⟩ := List.getElem?_eq_some_iff.mp hn
    obtain ⟨_, hv'⟩ := List.getElem?_eq_some_iff.mp hv
    rwa [← hn', ← hv', List.set_getElem_self, List.set_getElem_self, hn', hv',
      ownView_cons _ _ ha] at this
  · rw [hset, ownView_cons _ _ ha]
  · rw [hset, ownView_cons_zero]

end View

end IoQuickJS
