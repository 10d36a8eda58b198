import IoQuickJS.Library.HashChain
import IoQuickJS.Library.Ledger
import IoQuickJS.Library.Simulation

/-!
# Shapes

The names and flags of an object's properties are in its JSShape, which objects with the same
prototype and the same properties share; only the values are in the object. A shape has a hash
table of its properties, and the runtime a hash table of the shapes that may be shared. `step` is
one call on one object: the lookups and updates of quickjs.c that go through the shape.

Shapes and objects are named by numbers; a shape that is reallocated keeps its name, since nobody
but the object that is changed refers to it. `ShapeMemory` says which allocations of a call
succeed. A step is `none` when the C code would use freed or unallocated memory, fail an assertion
or not end. Property values, prototypes and atoms are opaque: taking and dropping references to
them is left out.
-/
namespace IoQuickJS

/-- A `JSShapeProperty`; the atom `0` is JS_ATOM_NULL, that of a deleted property. -/
structure JSShapeProperty where
  hashNext : Nat
  flags : Nat
  atom : Nat
  deriving DecidableEq, Repr

/-- A `JSShape`. `propHash` is the table that ends at prop_hash_end, from its end on, `prop` the
first prop_count entries of the property array, `proto` is `0` for NULL. -/
structure JSShape where
  refCount : Nat
  isHashed : Bool
  hash : BitVec 32
  proto : Nat
  propHash : List Nat
  propSize : Nat
  prop : List JSShapeProperty
  deriving Repr

/-- What a `JSObject` has of its properties: `prop` is the allocated array of values. -/
structure PropObject (α : Type*) where
  shape : Nat
  prop : List α
  deriving Repr

/-- The shapes and objects of a runtime. -/
structure ShapeHeap (α : Type*) where
  nextShape : Nat
  shapes : Nat → Option JSShape
  shapeHash : List (List Nat)
  shapeHashBits : Nat
  shapeHashCount : Nat
  nextObject : Nat
  objects : Nat → Option (PropObject α)

/-- Which allocations of a call succeed: of the table of shapes, of a new or cloned shape, of a
shape that grows, of an object, and of an array of property values. -/
structure ShapeMemory where
  shapeHash : Bool
  shape : Bool
  resized : Bool
  object : Bool
  prop : Bool
  deriving DecidableEq, Repr

/-- The calls, each with the object it is made on. -/
inductive ShapeLabel (α : Type*) where
  | newObject (proto : Nat) (memory : ShapeMemory)
  | addProperty (p atom flags : Nat) (value : α) (memory : ShapeMemory)
  | deleteProperty (p atom : Nat) (memory : ShapeMemory)
  | updateFlags (p atom flags : Nat) (memory : ShapeMemory)
  | setValue (p atom : Nat) (value : α)
  | setPrototype (p proto : Nat) (memory : ShapeMemory)
  | getProperty (p atom : Nat)
  | getPrototype (p : Nat)
  | ownProperties (p : Nat)
  | freeObject (p : Nat)

/-- What a call returns; `exception` is for a failed allocation. -/
inductive ShapeOutput (α : Type*) where
  | object (p : Nat)
  | ok
  | bool (b : Bool)
  | property (flags : Nat) (value : α)
  | proto (proto : Nat)
  | properties (ps : List (Nat × Nat))
  | noProperty
  | noObject
  | exception
  deriving DecidableEq, Repr

/-! ## One shape -/

namespace JSShape

/-- `atom & prop_hash_mask` -/
def bucketOf (sh : JSShape) (atom : Nat) : Nat := atom &&& (sh.propHash.length - 1)

/-- `prop[h - 1].hash_next` -/
def hashNext (sh : JSShape) (h : Nat) : Option Nat := sh.prop[h - 1]?.map JSShapeProperty.hashNext

/-- `prop[h - 1].atom == atom` -/
def hasAtom (sh : JSShape) (atom h : Nat) : Bool := sh.prop[h - 1]?.any fun pr => pr.atom == atom

/-- The loop of find_own_property and delete_property: the index of the property after that of
the one that leads to it, both counted from one, with `0` for none. -/
def findOwnProperty (sh : JSShape) (atom : Nat) : Option (Nat × Nat) :=
  sh.propHash[sh.bucketOf atom]?.bind fun h =>
    HashChain.walk sh.hashNext (sh.hasAtom atom) (sh.prop.length + 1) 0 h

/-- One iteration of the loop of resize_properties over the properties. -/
def rehashStep (sh : JSShape) (i : Nat) : Option JSShape :=
  sh.prop[i]?.bind fun pr =>
    if pr.atom ≠ 0 then
      sh.propHash[sh.bucketOf pr.atom]?.map fun h =>
        { sh with
          prop := sh.prop.set i { pr with hashNext := h }
          propHash := sh.propHash.set (sh.bucketOf pr.atom) (i + 1) }
    else some sh

/-- The new hash table of resize_properties. -/
def rehash (sh : JSShape) (newHashSize : Nat) : Option JSShape :=
  (List.range sh.prop.length).foldlM rehashStep
    { sh with propHash := List.replicate newHashSize 0 }

/-- The last part of add_shape_property: the property goes to the end of the array and to the
front of its chain. -/
def append (sh : JSShape) (atom flags : Nat) : Option JSShape :=
  if sh.prop.length < sh.propSize then
    sh.propHash[sh.bucketOf atom]?.map fun h =>
      { sh with
        prop := sh.prop ++ [⟨h, flags, atom⟩]
        propHash := sh.propHash.set (sh.bucketOf atom) (sh.prop.length + 1) }
  else none

/-- The changes delete_property makes to the shape. -/
def remove (sh : JSShape) (atom lpr h : Nat) : Option JSShape :=
  (sh.hashNext h).bind fun next =>
    let unlinked :=
      if lpr = 0 then some { sh with propHash := sh.propHash.set (sh.bucketOf atom) next }
      else sh.prop[lpr - 1]?.map fun pr =>
        { sh with prop := sh.prop.set (lpr - 1) { pr with hashNext := next } }
    unlinked.map fun sh =>
      { sh with prop := sh.prop.modify (h - 1) fun pr => { pr with flags := 0, atom := 0 } }

/-- The atoms and flags the loops over the properties of a shape see. -/
def ownProperties (sh : JSShape) : List (Nat × Nat) :=
  sh.prop.filterMap fun pr => if pr.atom = 0 then none else some (pr.atom, pr.flags)

end JSShape

/-- `shape_hash` -/
def shapeHash (h val : BitVec 32) : BitVec 32 := (h + val) * 0x9e370001

/-- `get_shape_hash` -/
def getShapeHash (h : BitVec 32) (hashBits : Nat) : Nat := h.toNat >>> (32 - hashBits)

/-- `shape_initial_hash`, for pointers of 64 bits. -/
def shapeInitialHash (proto : Nat) : BitVec 32 :=
  shapeHash (shapeHash 1 (BitVec.ofNat 32 proto)) (BitVec.ofNat 32 (proto >>> 32))

/-- The hash of a shape with one more property. -/
def shapeHashProp (h : BitVec 32) (atom flags : Nat) : BitVec 32 :=
  shapeHash (shapeHash h (BitVec.ofNat 32 atom)) (BitVec.ofNat 32 flags)

/-- realloc of an array to `n` entries. -/
def realloc {α : Type*} [Inhabited α] (xs : List α) (n : Nat) : List α :=
  xs.take n ++ List.replicate (n - xs.length) default

/-- The loop of resize_properties that doubles the size of the hash table; `fuel` bounds the
number of times. -/
def growHashSize : (fuel hashSize newSize : Nat) → Nat
  | 0, hashSize, _ => hashSize
  | fuel + 1, hashSize, newSize =>
    if hashSize < newSize then growHashSize fuel (2 * hashSize) newSize else hashSize

namespace ShapeHeap

variable {α : Type*} [Inhabited α]

def setShape (s : ShapeHeap α) (id : Nat) (sh : JSShape) : ShapeHeap α :=
  { s with shapes := Function.update s.shapes id (some sh) }

def setObject (s : ShapeHeap α) (p : Nat) (o : PropObject α) : ShapeHeap α :=
  { s with objects := Function.update s.objects p (some o) }

/-- `js_shape_hash_link` -/
def jsShapeHashLink (s : ShapeHeap α) (id : Nat) (hash : BitVec 32) : ShapeHeap α :=
  { s with
    shapeHash := s.shapeHash.modify (getShapeHash hash s.shapeHashBits) (id :: ·)
    shapeHashCount := s.shapeHashCount + 1 }

/-- `js_shape_hash_unlink` -/
def jsShapeHashUnlink (s : ShapeHeap α) (id : Nat) (hash : BitVec 32) : Option (ShapeHeap α) :=
  let h := getShapeHash hash s.shapeHashBits
  s.shapeHash[h]?.bind fun chain =>
    if id ∈ chain then
      some { s with
        shapeHash := s.shapeHash.set h (chain.erase id)
        shapeHashCount := s.shapeHashCount - 1 }
    else none

/-- One iteration of the loops of resize_shape_hash. -/
def relink (s : ShapeHeap α) (newBits : Nat) (table : List (List Nat)) (id : Nat) :
    Option (List (List Nat)) :=
  (s.shapes id).map fun sh => table.modify (getShapeHash sh.hash newBits) (id :: ·)

/-- `resize_shape_hash` -/
def resizeShapeHash (s : ShapeHeap α) (newBits : Nat) : Option (ShapeHeap α) :=
  (s.shapeHash.flatten.foldlM (relink s newBits) (List.replicate (2 ^ newBits) [])).map
    fun table => { s with shapeHash := table, shapeHashBits := newBits }

/-- `js_new_shape`; the new shape is returned when memory for it was there. -/
def jsNewShape (s : ShapeHeap α) (proto : Nat) (memory : ShapeMemory) :
    Option (ShapeHeap α × Option Nat) :=
  let resized :=
    if 2 * (s.shapeHashCount + 1) > s.shapeHash.length ∧ memory.shapeHash then
      resizeShapeHash s (s.shapeHashBits + 1)
    else some s
  resized.map fun s =>
    if memory.shape then
      let sh : JSShape := ⟨1, true, shapeInitialHash proto, proto, List.replicate 4 0, 2, []⟩
      let id := s.nextShape
      (jsShapeHashLink { setShape s id sh with nextShape := id + 1 } id sh.hash, some id)
    else (s, none)

/-- `js_clone_shape` -/
def jsCloneShape (s : ShapeHeap α) (sh : JSShape) : ShapeHeap α × Nat :=
  let id := s.nextShape
  ({ setShape s id { sh with refCount := 1, isHashed := false } with nextShape := id + 1 }, id)

/-- `js_dup_shape` -/
def jsDupShape (s : ShapeHeap α) (id : Nat) : Option (ShapeHeap α) :=
  (s.shapes id).map fun sh => setShape s id { sh with refCount := sh.refCount + 1 }

/-- `js_free_shape` with `js_free_shape0` -/
def jsFreeShape (s : ShapeHeap α) (id : Nat) : Option (ShapeHeap α) :=
  (s.shapes id).bind fun sh =>
    let n := sh.refCount - 1
    if n = 0 then
      let unlinked := if sh.isHashed then jsShapeHashUnlink s id sh.hash else some s
      unlinked.map fun s => { s with shapes := Function.update s.shapes id none }
    else some (setShape s id { sh with refCount := n })

/-- The loop of find_hashed_shape_proto and find_hashed_shape_prop over the shapes of a bucket. -/
def findHashed (s : ShapeHeap α) (test : JSShape → Bool) : List Nat → Option (Option Nat)
  | [] => some none
  | id :: ids => (s.shapes id).bind fun sh =>
    if test sh then some (some id) else findHashed s test ids

/-- `find_hashed_shape_proto` -/
def findHashedShapeProto (s : ShapeHeap α) (proto : Nat) : Option (Option Nat) :=
  let h := shapeInitialHash proto
  s.shapeHash[getShapeHash h s.shapeHashBits]?.bind <| findHashed s fun sh1 =>
    sh1.hash == h && sh1.proto == proto && sh1.prop.length == 0

/-- `find_hashed_shape_prop` -/
def findHashedShapeProp (s : ShapeHeap α) (sh : JSShape) (atom flags : Nat) :
    Option (Option Nat) :=
  let h := shapeHashProp sh.hash atom flags
  s.shapeHash[getShapeHash h s.shapeHashBits]?.bind <| findHashed s fun sh1 =>
    sh1.hash == h && sh1.proto == sh.proto && sh1.prop.length == sh.prop.length + 1 &&
      sh1.prop.map (fun pr => (pr.atom, pr.flags)) ==
        sh.prop.map (fun pr => (pr.atom, pr.flags)) ++ [(atom, flags)]

/-- `resize_properties`: the shape and the values, and whether all memory was there. -/
def resizeProperties (sh : JSShape) (prop : List α) (count : Nat) (memory : ShapeMemory) :
    Option (JSShape × List α × Bool) :=
  let newSize := max count (sh.propSize * 3 / 2)
  if memory.prop then
    let newProp := realloc prop newSize
    if memory.resized then
      let newHashSize := growHashSize newSize sh.propHash.length newSize
      let rehashed :=
        if newHashSize ≠ sh.propHash.length then sh.rehash newHashSize else some sh
      rehashed.map fun sh => ({ sh with propSize := newSize }, newProp, true)
    else some (sh, newProp, false)
  else some (sh, prop, false)

/-- `add_shape_property` for the object `p`, which alone has the shape. -/
def addShapeProperty (s : ShapeHeap α) (p : Nat) (o : PropObject α) (atom flags : Nat)
    (memory : ShapeMemory) : Option (ShapeHeap α × Bool) :=
  (s.shapes o.shape).bind fun sh =>
    let unlinked := if sh.isHashed then jsShapeHashUnlink s o.shape sh.hash else some s
    unlinked.bind fun s =>
      let resized :=
        if sh.prop.length ≥ sh.propSize then
          resizeProperties sh o.prop (sh.prop.length + 1) memory
        else some (sh, o.prop, true)
      resized.bind fun (sh, prop, grown) =>
        let s := setObject s p { o with prop := prop }
        if grown then
          let sh := if sh.isHashed then { sh with hash := shapeHashProp sh.hash atom flags } else sh
          (sh.append atom flags).map fun sh' =>
            let s := setShape s o.shape sh'
            (if sh.isHashed then jsShapeHashLink s o.shape sh.hash else s, true)
        else
          let s := setShape s o.shape sh
          some (if sh.isHashed then jsShapeHashLink s o.shape sh.hash else s, false)

/-- Store the value of the last property of an object. -/
def storeLast (s : ShapeHeap α) (p : Nat) (value : α) : Option (ShapeHeap α × ShapeOutput α) :=
  (s.objects p).bind fun o => (s.shapes o.shape).bind fun sh =>
    let i := sh.prop.length - 1
    if i < o.prop.length then some (setObject s p { o with prop := o.prop.set i value }, .ok)
    else none

/-- `add_property` with the value its callers store. -/
def addProperty (s : ShapeHeap α) (p : Nat) (o : PropObject α) (sh : JSShape) (atom flags : Nat)
    (value : α) (memory : ShapeMemory) : Option (ShapeHeap α × ShapeOutput α) :=
  let found := if sh.isHashed then findHashedShapeProp s sh atom flags else some none
  found.bind fun found =>
    match found with
    | some id => (s.shapes id).bind fun newSh =>
      let moved := newSh.propSize ≠ sh.propSize
      if moved ∧ ¬ memory.prop then some (s, .exception)
      else
        let prop := if moved then realloc o.prop newSh.propSize else o.prop
        (jsDupShape (setObject s p ⟨id, prop⟩) id).bind fun s =>
          (jsFreeShape s o.shape).bind fun s => storeLast s p value
    | none =>
      if sh.isHashed ∧ sh.refCount ≠ 1 then
        if memory.shape then
          let (s, id) := jsCloneShape s sh
          let hashed := setShape s id { sh with refCount := 1, isHashed := true }
          let s := jsShapeHashLink hashed id sh.hash
          (jsFreeShape s o.shape).bind fun s =>
            let o := { o with shape := id }
            (addShapeProperty (setObject s p o) p o atom flags memory).bind fun (s, added) =>
              if added then storeLast s p value else some (s, .exception)
        else some (s, .exception)
      else if sh.refCount = 1 then
        (addShapeProperty s p o atom flags memory).bind fun (s, added) =>
          if added then storeLast s p value else some (s, .exception)
      else none

/-- `js_shape_prepare_update`: the heap, the shape to change, and whether memory was there. -/
def jsShapePrepareUpdate (s : ShapeHeap α) (p : Nat) (o : PropObject α) (sh : JSShape)
    (memory : ShapeMemory) : Option (ShapeHeap α × Nat × Bool) :=
  if sh.isHashed then
    if sh.refCount ≠ 1 then
      if memory.shape then
        let (s, id) := jsCloneShape s sh
        (jsFreeShape s o.shape).map fun s => (setObject s p { o with shape := id }, id, true)
      else some (s, o.shape, false)
    else
      (jsShapeHashUnlink s o.shape sh.hash).map fun s =>
        (setShape s o.shape { sh with isHashed := false }, o.shape, true)
  else some (s, o.shape, true)

/-- Make the shape of an object its own and change it. -/
def updateShape (s : ShapeHeap α) (p : Nat) (o : PropObject α) (sh : JSShape)
    (memory : ShapeMemory) (f : JSShape → Option JSShape) (done : ShapeOutput α) :
    Option (ShapeHeap α × ShapeOutput α) :=
  (jsShapePrepareUpdate s p o sh memory).bind fun (s, id, ready) =>
    if ready then (s.shapes id).bind fun sh => (f sh).map fun sh => (setShape s id sh, done)
    else some (s, .exception)

/-- `JS_PROP_CONFIGURABLE` -/
def jsPropConfigurable : Nat := 1

/-- `delete_property` of an ordinary object -/
def deleteProperty (s : ShapeHeap α) (p : Nat) (o : PropObject α) (sh : JSShape) (atom : Nat)
    (memory : ShapeMemory) : Option (ShapeHeap α × ShapeOutput α) :=
  (sh.findOwnProperty atom).bind fun (lpr, h) =>
    if h = 0 then some (s, .bool true)
    else sh.prop[h - 1]?.bind fun pr =>
      if pr.flags &&& jsPropConfigurable = 0 then some (s, .bool false)
      else
        (updateShape s p o sh memory (fun sh => sh.remove atom lpr h) (.bool true)).bind
          fun (s, out) => match out with
          | .exception => some (s, .exception)
          | _ => (s.objects p).bind fun o =>
            if h - 1 < o.prop.length then
              some (setObject s p { o with prop := o.prop.set (h - 1) default }, .bool true)
            else none

/-- Run a call on an object, if it is there, with its shape. -/
def onObject (s : ShapeHeap α) (p : Nat)
    (f : PropObject α → JSShape → Option (ShapeHeap α × ShapeOutput α)) :
    Option (ShapeHeap α × ShapeOutput α) :=
  match s.objects p with
  | none => some (s, .noObject)
  | some o => (s.shapes o.shape).bind fun sh => f o sh

/-- Run a call on a property of an object, if it is there. -/
def onProperty (sh : JSShape) (atom : Nat) (absent : Option (ShapeHeap α × ShapeOutput α))
    (f : Nat → JSShapeProperty → Option (ShapeHeap α × ShapeOutput α)) :
    Option (ShapeHeap α × ShapeOutput α) :=
  (sh.findOwnProperty atom).bind fun (_, h) =>
    if h = 0 then absent else sh.prop[h - 1]?.bind fun pr => f (h - 1) pr

/-- The shape JS_NewObjectProtoClass takes a reference to, if it gets one. -/
def shapeForProto (s : ShapeHeap α) (proto : Nat) (memory : ShapeMemory) :
    Option (ShapeHeap α × Option Nat) :=
  (findHashedShapeProto s proto).bind fun found =>
    match found with
    | some id => (jsDupShape s id).map fun s => (s, some id)
    | none => jsNewShape s proto memory

/-- `JS_NewObjectFromShape` -/
def jsNewObjectFromShape (s : ShapeHeap α) (id : Nat) (memory : ShapeMemory) :
    Option (ShapeHeap α × ShapeOutput α) :=
  if memory.object ∧ memory.prop then
    (s.shapes id).map fun sh =>
      let p := s.nextObject
      ({ setObject s p ⟨id, List.replicate sh.propSize default⟩ with nextObject := p + 1 },
        .object p)
  else (jsFreeShape s id).map fun s => (s, .exception)

/-- `JS_NewObjectProtoClass` -/
def jsNewObjectProtoClass (s : ShapeHeap α) (proto : Nat) (memory : ShapeMemory) :
    Option (ShapeHeap α × ShapeOutput α) :=
  (shapeForProto s proto memory).bind fun (s, id) =>
    match id with
    | none => some (s, .exception)
    | some id => jsNewObjectFromShape s id memory

/-- One call. -/
def step (s : ShapeHeap α) : ShapeLabel α → Option (ShapeHeap α × ShapeOutput α)
  | .newObject proto memory => jsNewObjectProtoClass s proto memory
  | .addProperty p atom flags value memory => onObject s p fun o sh =>
    onProperty sh atom (addProperty s p o sh atom flags value memory) fun _ _ =>
      some (s, .bool false)
  | .deleteProperty p atom memory => onObject s p fun o sh =>
    deleteProperty s p o sh atom memory
  | .updateFlags p atom flags memory => onObject s p fun o sh =>
    onProperty sh atom (some (s, .noProperty)) fun i pr =>
      if flags ≠ pr.flags then
        updateShape s p o sh memory
          (fun sh => some { sh with
            prop := sh.prop.modify i fun pr => { pr with flags := flags } }) .ok
      else some (s, .ok)
  | .setValue p atom value => onObject s p fun o sh =>
    onProperty sh atom (some (s, .noProperty)) fun i _ =>
      if i < o.prop.length then some (setObject s p { o with prop := o.prop.set i value }, .ok)
      else none
  | .setPrototype p proto memory => onObject s p fun o sh =>
    if sh.proto = proto then some (s, .ok)
    else updateShape s p o sh memory (fun sh => some { sh with proto := proto }) .ok
  | .getProperty p atom => onObject s p fun o sh =>
    onProperty sh atom (some (s, .noProperty)) fun i pr =>
      o.prop[i]?.map fun v => (s, .property pr.flags v)
  | .getPrototype p => onObject s p fun _ sh => some (s, .proto sh.proto)
  | .ownProperties p => onObject s p fun _ sh => some (s, .properties sh.ownProperties)
  | .freeObject p => onObject s p fun o _ =>
    (jsFreeShape s o.shape).map fun s =>
      ({ s with objects := Function.update s.objects p none }, .ok)

/-- The heap init_shape_hash sets up. -/
def new : ShapeHeap α where
  nextShape := 0
  shapes := fun _ => none
  shapeHash := List.replicate 16 []
  shapeHashBits := 4
  shapeHashCount := 0
  nextObject := 0
  objects := fun _ => none

end ShapeHeap

end IoQuickJS
