import IoQuickJS.Library.Simulation
import Mathlib.Data.List.Basic

/-!
# Map and Set

The records of a JSMapState are cells of memory, in a list that keeps the order of insertion and
in the buckets of a hash table. A deleted record that an iterator or a forEach stands on stays in
the list as an empty record, with the count of those that stand on it, and the last of them to
leave frees it. `JSMapState` holds the iterators over the map and the forEach calls in progress
(each by the record it has locked) beside the C structure, and `step` takes one call of a
built-in function; the callback of a forEach is the labels between `forEach` and `forEachReturn`.

Keys and values are opaque here, but for one effect of releasing one: it may hold the last
references to iterators over the map, whose finalizer leaves the record they stand on. A label says
which iterators these are. A step is `none` when the C code would touch a freed record or fail an
assertion, or when the label names an iterator or a forEach that is not there.
-/
namespace IoQuickJS

/-- What the map needs to know of the values: `undefined`, map_normalize_key, js_same_value_zero
and map_hash_key. On the `plain` ones the comparison is an equivalence that the hash respects. -/
structure KeyOps (α : Type*) where
  undefined : α
  normalize : α → α
  same : α → α → Bool
  hash : α → Nat
  plain : α → Prop
  same_refl {a : α} : plain a → same a a
  same_symm {a b : α} : plain a → plain b → same a b → same b a
  same_trans {a b c : α} : plain a → plain b → plain c → same a b → same b c → same a c
  hash_eq {a b : α} : plain a → plain b → same a b → hash a = hash b

/-- A `JSMapRecord` of a map that is not weak. -/
structure JSMapRecord (α : Type*) where
  refCount : Nat
  empty : Bool
  key : α
  value : α

/-- `JSIteratorKindEnum` -/
inductive JSIteratorKind where
  | key
  | value
  | keyAndValue
  deriving DecidableEq, Repr

/-- A `JSMapIteratorData`; `attached` until `obj` is set to undefined. -/
structure JSMapIteratorData where
  kind : JSIteratorKind
  attached : Bool
  curRecord : Option Nat

/-- A `JSMapState`. `isSet` is MAGIC_SET, `next` the first address never allocated, `frames` the
records locked by the forEach calls in progress, the innermost first. -/
structure JSMapState (α : Type*) where
  isSet : Bool
  next : Nat
  mem : Nat → Option (JSMapRecord α)
  records : List Nat
  recordCount : Nat
  hashTable : List (List Nat)
  recordCountThreshold : Nat
  iterators : List (Option JSMapIteratorData)
  frames : List Nat

/-- A call of a built-in function of Map or Set. `memory` says whether the allocation of the
record, iterator or array succeeds, `slack` how many entries js_realloc2 leaves over, if it
succeeds. `released` are the iterators that are finalized when the old value, the key and value of
the deleted record, or those of each record that clear deletes are released; `args` and `ret` those
that go with the arguments and the result of the callback. -/
inductive MapLabel (α : Type*) where
  | set (key value : α) (memory : Bool) (slack : Option Nat) (released : List Nat)
  | get (key : α)
  | has (key : α)
  | delete (key : α) (released : List Nat)
  | clear (released : List (List Nat))
  | size
  | createIterator (kind : JSIteratorKind) (memory : Bool)
  | next (it : Nat) (memory : Bool)
  | finalizeIterator (it : Nat)
  | forEach
  | forEachReturn (exception : Bool) (args ret : List Nat)

/-- What a call returns, or the arguments forEach calls its function with. -/
inductive MapOutput (α : Type*) where
  | undefined
  | this
  | value (v : α)
  | entry (k v : α)
  | bool (b : Bool)
  | uint32 (n : Nat)
  | iterator (it : Nat)
  | done
  | call (v k : α)
  | exception
  deriving DecidableEq, Repr

namespace JSMapState

variable {α : Type*} (K : KeyOps α)

/-- The bucket a key belongs to, as map_find_record masks its hash. -/
def bucketOf (size : Nat) (key : α) : Nat := K.hash key &&& (size - 1)

/-- The loop of map_find_record over one bucket. -/
def findIn (s : JSMapState α) (key : α) : List Nat → Option (Option Nat)
  | [] => some none
  | r :: rs => (s.mem r).bind fun mr =>
    if K.same mr.key key then some (some r) else findIn s key rs

/-- `map_find_record` -/
def mapFindRecord (s : JSMapState α) (key : α) : Option (Option Nat) :=
  (s.hashTable[bucketOf K s.hashTable.length key]?).bind (findIn K s key)

/-- The loop of map_hash_resize over the records. -/
def rehash (s : JSMapState α) : List Nat → List (List Nat) → Option (List (List Nat))
  | [], table => some table
  | r :: rs, table => (s.mem r).bind fun mr =>
    if mr.empty then rehash s rs table
    else rehash s rs (table.modify (bucketOf K table.length mr.key) (· ++ [r]))

/-- `map_hash_resize`; `slack` is `none` when the reallocation fails. -/
def mapHashResize (s : JSMapState α) (slack : Option Nat) : Option (JSMapState α) :=
  match slack with
  | none => some s
  | some slack =>
    let doubled := if s.hashTable.length = 1 then 4 else s.hashTable.length * 2
    let newHashSize := doubled + slack
    (rehash K s s.records (List.replicate newHashSize [])).map fun table =>
      { s with hashTable := table, recordCountThreshold := newHashSize * 2 }

/-- `map_add_record`, with the value js_map_set stores in the record afterwards. -/
def mapAddRecord (s : JSMapState α) (key value : α) (slack : Option Nat) :
    Option (JSMapState α) :=
  let h := bucketOf K s.hashTable.length key
  let added := { s with
    next := s.next + 1
    mem := Function.update s.mem s.next (some ⟨1, false, key, value⟩)
    hashTable := s.hashTable.modify h (· ++ [s.next])
    records := s.records ++ [s.next]
    recordCount := s.recordCount + 1 }
  if added.recordCount ≥ added.recordCountThreshold then mapHashResize K added slack
  else some added

/-- Unlink the record from the list and free it. -/
def freeRecord (s : JSMapState α) (r : Nat) : JSMapState α :=
  { s with records := s.records.erase r, mem := Function.update s.mem r none }

/-- `map_decref_record` -/
def mapDecrefRecord (s : JSMapState α) (r : Nat) : Option (JSMapState α) :=
  (s.mem r).bind fun mr =>
    let n := mr.refCount - 1
    if n = 0 then
      if mr.empty then some (freeRecord s r) else none
    else some { s with mem := Function.update s.mem r (some { mr with refCount := n }) }

/-- `js_map_iterator_finalizer` of an iterator whose map is alive. -/
def jsMapIteratorFinalizer (s : JSMapState α) (i : Nat) : Option (JSMapState α) :=
  (s.iterators[i]?.join).bind fun it =>
    let left := match it.curRecord with
      | some r => mapDecrefRecord s r
      | none => some s
    left.map fun s => { s with iterators := s.iterators.set i none }

/-- JS_FreeValue of values, with which these iterators are finalized. -/
def freeValues (s : JSMapState α) (released : List Nat) : Option (JSMapState α) :=
  released.foldlM jsMapIteratorFinalizer s

/-- `map_delete_record` -/
def mapDeleteRecord (s : JSMapState α) (r : Nat) (released : List Nat) : Option (JSMapState α) :=
  (s.mem r).bind fun mr =>
    if mr.empty then some s
    else
      let unhashed := { s with hashTable := s.hashTable.map fun bucket => bucket.erase r }
      (freeValues unhashed released).bind fun s => (s.mem r).map fun mr =>
        let n := mr.refCount - 1
        let s :=
          if n = 0 then freeRecord s r
          else { s with mem := Function.update s.mem r (some ⟨n, true, K.undefined, K.undefined⟩) }
        { s with recordCount := s.recordCount - 1 }

/-- `mr->ref_count++` -/
def lockRecord (s : JSMapState α) (r : Nat) : Option (JSMapState α) :=
  (s.mem r).map fun mr =>
    { s with mem := Function.update s.mem r (some { mr with refCount := mr.refCount + 1 }) }

/-- The records from `mr->link.next` on; `none` when the record is not in the list. -/
def after (r : Nat) : List Nat → Option (List Nat)
  | [] => none
  | x :: xs => if x = r then some xs else after r xs

/-- The records from `el` on, where no record is the head of the list. -/
def listFrom (el : Option Nat) (records : List Nat) : Option (List Nat) :=
  match el with
  | none => some []
  | some r => (after r records).map (r :: ·)

/-- Walk over empty records; `some none` is the head of the list. -/
def firstLive (s : JSMapState α) : List Nat → Option (Option Nat)
  | [] => some none
  | r :: rs => (s.mem r).bind fun mr => if mr.empty then firstLive s rs else some (some r)

/-! ## The built-in functions -/

/-- `js_map_set` -/
def jsMapSet (s : JSMapState α) (key value : α) (memory : Bool) (slack : Option Nat)
    (released : List Nat) : Option (JSMapState α × MapOutput α) :=
  let key := K.normalize key
  let value := if s.isSet then K.undefined else value
  (mapFindRecord K s key).bind fun found =>
    match found with
    | some r => (freeValues s released).bind fun s => (s.mem r).map fun mr =>
      ({ s with mem := Function.update s.mem r (some { mr with value := value }) }, .this)
    | none =>
      if memory then (mapAddRecord K s key value slack).map fun s => (s, .this)
      else some (s, .exception)

/-- `js_map_get` -/
def jsMapGet (s : JSMapState α) (key : α) : Option (JSMapState α × MapOutput α) :=
  (mapFindRecord K s (K.normalize key)).bind fun found =>
    match found with
    | some r => (s.mem r).map fun mr => (s, .value mr.value)
    | none => some (s, .undefined)

/-- `js_map_has` -/
def jsMapHas (s : JSMapState α) (key : α) : Option (JSMapState α × MapOutput α) :=
  (mapFindRecord K s (K.normalize key)).map fun found => (s, .bool found.isSome)

/-- `js_map_delete` -/
def jsMapDelete (s : JSMapState α) (key : α) (released : List Nat) :
    Option (JSMapState α × MapOutput α) :=
  (mapFindRecord K s (K.normalize key)).bind fun found =>
    match found with
    | some r => (mapDeleteRecord K s r released).map fun s => (s, .bool true)
    | none => some (s, .bool false)

/-- The loop of js_map_clear from `el` on, for as many rounds as there may be. `el1` is read before
the record is deleted. -/
def clearFrom : Nat → JSMapState α → Option Nat → List (List Nat) → Option (JSMapState α)
  | _, s, none, _ => some s
  | 0, _, some _, _ => none
  | rounds + 1, s, some r, released =>
    (after r s.records).bind fun el1 => (s.mem r).bind fun mr =>
      (mapDeleteRecord K s r (released.headD [])).bind fun s =>
        clearFrom rounds s el1.head? (if mr.empty then released else released.tail)

/-- `js_map_clear` -/
def jsMapClear (s : JSMapState α) (released : List (List Nat)) :
    Option (JSMapState α × MapOutput α) :=
  (clearFrom K s.records.length s s.records.head? released).map fun s => (s, .undefined)

/-- `js_create_map_iterator` -/
def jsCreateMapIterator (s : JSMapState α) (kind : JSIteratorKind) (memory : Bool) :
    JSMapState α × MapOutput α :=
  if memory then
    ({ s with iterators := s.iterators ++ [some ⟨kind, true, none⟩] },
      .iterator s.iterators.length)
  else (s, .exception)

/-- What an iterator of the kind returns for a record; `memory` is that of the array. -/
def iteratorResult (isSet : Bool) (kind : JSIteratorKind) (memory : Bool) (key value : α) :
    MapOutput α :=
  let value := if isSet then key else value
  match kind with
  | .key => .value key
  | .value => .value value
  | .keyAndValue => if memory then .entry key value else .exception

/-- `js_map_iterator_next` -/
def jsMapIteratorNext (s : JSMapState α) (i : Nat) (memory : Bool) :
    Option (JSMapState α × MapOutput α) :=
  (s.iterators[i]?.join).bind fun it =>
    if it.attached then
      let start := match it.curRecord with
        | none => some (s, s.records)
        | some r => (after r s.records).bind fun el => (mapDecrefRecord s r).map fun s => (s, el)
      start.bind fun (s, el) => (firstLive s el).bind fun found =>
        match found with
        | none =>
          some ({ s with iterators := s.iterators.set i (some ⟨it.kind, false, none⟩) }, .done)
        | some r => (s.mem r).bind fun mr => (lockRecord s r).map fun s =>
          ({ s with iterators := s.iterators.set i (some { it with curRecord := some r }) },
            iteratorResult s.isSet it.kind memory mr.key mr.value)
    else some (s, .done)

/-- The loop of js_map_forEach from `el` on, until it calls the function or ends. -/
def forEachFrom (s : JSMapState α) (el : Option Nat) : Option (JSMapState α × MapOutput α) :=
  (listFrom el s.records).bind fun el => (firstLive s el).bind fun found =>
    match found with
    | none => some (s, .undefined)
    | some r => (s.mem r).bind fun mr => (lockRecord s r).map fun s =>
      ({ s with frames := r :: s.frames },
        .call (if s.isSet then mr.key else mr.value) mr.key)

/-- `js_map_forEach` after its function has returned. The result is released when `el` has been
read. -/
def forEachReturn (s : JSMapState α) (exception : Bool) (args ret : List Nat) :
    Option (JSMapState α × MapOutput α) :=
  match s.frames with
  | [] => none
  | r :: frames =>
    (freeValues s args).bind fun s =>
      (after r s.records).bind fun el => (mapDecrefRecord s r).bind fun s =>
        let s := { s with frames := frames }
        if exception then some (s, .exception)
        else (freeValues s ret).bind fun s => forEachFrom s el.head?

/-- One call. -/
def step (s : JSMapState α) : MapLabel α → Option (JSMapState α × MapOutput α)
  | .set key value memory slack released => jsMapSet K s key value memory slack released
  | .get key => jsMapGet K s key
  | .has key => jsMapHas K s key
  | .delete key released => jsMapDelete K s key released
  | .clear released => jsMapClear K s released
  | .size => some (s, .uint32 s.recordCount)
  | .createIterator kind memory => some (jsCreateMapIterator s kind memory)
  | .next i memory => jsMapIteratorNext s i memory
  | .finalizeIterator i => (jsMapIteratorFinalizer s i).map fun s => (s, .undefined)
  | .forEach => forEachFrom s s.records.head?
  | .forEachReturn exception args ret => forEachReturn s exception args ret

/-- The state js_map_constructor sets up. -/
def new (isSet : Bool) : JSMapState α where
  isSet := isSet
  next := 0
  mem := fun _ => none
  records := []
  recordCount := 0
  hashTable := [[]]
  recordCountThreshold := 4
  iterators := []
  frames := []

end JSMapState

end IoQuickJS
