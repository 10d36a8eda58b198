import IoQuickJS.Library.Transition
import Mathlib.Data.BitVec
import Mathlib.Algebra.BigOperators.Group.List.Basic

/-!
# Heap accounting

The allocation functions of a runtime created by JS_NewRuntime, and what they leave in
`rt->malloc_state`. The byte memory itself is any correct allocator: which address it finds for a
block, or that it finds none, is an argument of each call. `w` is the width of size_t.
-/
namespace IoQuickJS

namespace Malloc

/-- A `JSMallocState`; `opaque` is not modelled, it only leads to the byte memory. -/
structure JSMallocState (w : Nat) where
  mallocCount : BitVec w
  mallocSize : BitVec w
  mallocLimit : BitVec w
  deriving DecidableEq

/-- The blocks of the runtime in the byte memory, each with its address and size. -/
abbrev Blocks (w : Nat) := List (Nat × BitVec w)

/-- The part of a `JSRuntime` that allocation is about; `self` is the address of the block the
runtime itself is in. -/
structure JSRuntime (w : Nat) where
  mallocState : JSMallocState w
  mallocGCThreshold : BitVec w
  self : Nat
  blocks : Blocks w
  deriving DecidableEq

variable {w : Nat}

/-! ## The byte memory -/

/-- `io_byte_memory_allocate`, when it finds `found`. -/
def ioByteMemoryAllocate (blocks : Blocks w) (size : BitVec w) (found : Option Nat) :
    Blocks w × Option Nat :=
  match found with
  | some p => ((p, size) :: blocks, some p)
  | none => (blocks, none)

/-- `io_byte_memory_free` -/
def ioByteMemoryFree (blocks : Blocks w) (ptr : Option Nat) : Blocks w :=
  blocks.eraseP fun b => decide (some b.1 = ptr)

/-- `io_byte_memory_reallocate`. When it finds nothing the old block stays, unless it is to have
no size. -/
def ioByteMemoryReallocate (blocks : Blocks w) (ptr : Option Nat) (size : BitVec w)
    (found : Option Nat) : Blocks w × Option Nat :=
  match found with
  | some p => ((p, size) :: ioByteMemoryFree blocks ptr, some p)
  | none => (if size = 0 then ioByteMemoryFree blocks ptr else blocks, none)

/-! ## The functions of the runtime -/

/-- `js_def_malloc`, with the malloc state it leaves. -/
def jsDefMalloc (s : JSMallocState w) (blocks : Blocks w) (size : BitVec w)
    (found : Option Nat) : JSMallocState w × Blocks w × Option Nat :=
  (s, ioByteMemoryAllocate blocks size found)

/-- `js_def_free` -/
def jsDefFree (s : JSMallocState w) (blocks : Blocks w) (ptr : Option Nat) :
    JSMallocState w × Blocks w :=
  (s, ioByteMemoryFree blocks ptr)

/-- `js_def_realloc` -/
def jsDefRealloc (s : JSMallocState w) (blocks : Blocks w) (ptr : Option Nat) (size : BitVec w)
    (found : Option Nat) : JSMallocState w × Blocks w × Option Nat :=
  (s, ioByteMemoryReallocate blocks ptr size found)

/-- `js_malloc_rt`, with `rt->mf` as JS_NewRuntime sets it. -/
def jsMallocRt (rt : JSRuntime w) (size : BitVec w) (found : Option Nat) :
    JSRuntime w × Option Nat :=
  let (s, blocks, ptr) := jsDefMalloc rt.mallocState rt.blocks size found
  ({ rt with mallocState := s, blocks := blocks }, ptr)

/-- `js_free_rt` -/
def jsFreeRt (rt : JSRuntime w) (ptr : Option Nat) : JSRuntime w :=
  let (s, blocks) := jsDefFree rt.mallocState rt.blocks ptr
  { rt with mallocState := s, blocks := blocks }

/-- `js_realloc_rt` -/
def jsReallocRt (rt : JSRuntime w) (ptr : Option Nat) (size : BitVec w) (found : Option Nat) :
    JSRuntime w × Option Nat :=
  let (s, blocks, ptr) := jsDefRealloc rt.mallocState rt.blocks ptr size found
  ({ rt with mallocState := s, blocks := blocks }, ptr)

/-- `JS_NewRuntime`, when the byte memory finds `self` for the `size` bytes of the runtime. -/
def jsNewRuntime (self : Nat) (size : BitVec w) : JSRuntime w :=
  let ms : JSMallocState w := ⟨0, 0, -1⟩
  let (ms, blocks, _) := jsDefMalloc ms [] size (some self)
  ⟨ms, BitVec.ofNat w (256 * 1024), self, blocks⟩

/-- `JS_SetMemoryLimit` -/
def jsSetMemoryLimit (rt : JSRuntime w) (limit : BitVec w) : JSRuntime w :=
  { rt with mallocState := { rt.mallocState with mallocLimit := limit } }

/-- `JS_SetGCThreshold` -/
def jsSetGCThreshold (rt : JSRuntime w) (threshold : BitVec w) : JSRuntime w :=
  { rt with mallocGCThreshold := threshold }

/-- The condition under which js_trigger_gc collects. -/
def forceGC (rt : JSRuntime w) (size : BitVec w) : Bool :=
  rt.mallocGCThreshold < rt.mallocState.mallocSize + size

/-- `js_trigger_gc`; `garbage` are the blocks JS_RunGC frees if it is called. -/
def jsTriggerGC (rt : JSRuntime w) (size : BitVec w) (garbage : List Nat) : JSRuntime w :=
  if forceGC rt size then
    let rt := garbage.foldl (fun rt p => jsFreeRt rt (some p)) rt
    { rt with mallocGCThreshold :=
        rt.mallocState.mallocSize + rt.mallocState.mallocSize >>> 1 }
  else rt

/-! ## Runs -/

inductive Label (w : Nat) where
  | malloc (size : BitVec w) (found : Option Nat)
  | free (ptr : Option Nat)
  | realloc (ptr : Option Nat) (size : BitVec w) (found : Option Nat)
  | setMemoryLimit (limit : BitVec w)
  | setGCThreshold (threshold : BitVec w)
  | newObject (size : BitVec w) (garbage : List Nat) (found : Option Nat)

/-- The byte memory only finds addresses that are not in use. -/
def Unused (rt : JSRuntime w) (found : Option Nat) : Bool :=
  found.all fun p => decide (p ∉ rt.blocks.map Prod.fst)

/-- A pointer that the user of the runtime got from it and has not freed, or NULL. -/
def Allocated (rt : JSRuntime w) (ptr : Option Nat) : Bool :=
  ptr.all fun p => decide (p ∈ rt.blocks.map Prod.fst ∧ p ≠ rt.self)

def step (rt : JSRuntime w) : Label w → Option (JSRuntime w)
  | .malloc size found =>
    if Unused rt found then some (jsMallocRt rt size found).1 else none
  | .free ptr => if Allocated rt ptr then some (jsFreeRt rt ptr) else none
  | .realloc ptr size found =>
    if Allocated rt ptr ∧ Unused (jsFreeRt rt ptr) found then
      some (jsReallocRt rt ptr size found).1
    else none
  | .setMemoryLimit limit => some (jsSetMemoryLimit rt limit)
  | .setGCThreshold threshold => some (jsSetGCThreshold rt threshold)
  | .newObject size garbage found =>
    if (garbage.all fun p => Allocated rt (some p)) ∧
        Unused (jsTriggerGC rt size garbage) found then
      some (jsMallocRt (jsTriggerGC rt size garbage) size found).1
    else none

/-! ## The accounts -/

/-- The bytes outstanding. -/
def outstanding (rt : JSRuntime w) : Nat := (rt.blocks.map fun b => b.2.toNat).sum

/-- What the counts are for: they describe the blocks, they keep the blocks within the limit, and
they make js_trigger_gc collect at the threshold. -/
structure HeapAccounting (rt : JSRuntime w) : Prop where
  count : rt.mallocState.mallocCount.toNat = rt.blocks.length
  size : rt.mallocState.mallocSize.toNat = outstanding rt
  limit : ∀ size p rt', step rt (.malloc size (some p)) = some rt' →
    outstanding rt' ≤ rt.mallocState.mallocLimit.toNat
  collects : ∀ size, forceGC rt size ↔ rt.mallocGCThreshold.toNat < outstanding rt + size.toNat
  threshold : ∀ size garbage, forceGC rt size →
    (jsTriggerGC rt size garbage).mallocGCThreshold.toNat =
      outstanding (jsTriggerGC rt size garbage) + outstanding (jsTriggerGC rt size garbage) / 2

/-! ## What the allocation functions leave in the malloc state -/

/-- Nothing has been counted, although the runtime's own block is there. -/
structure Uncounted (rt : JSRuntime w) : Prop where
  count : rt.mallocState.mallocCount = 0
  size : rt.mallocState.mallocSize = 0
  self : rt.self ∈ rt.blocks.map Prod.fst

section Uncounted

variable {rt rt' : JSRuntime w}

theorem mem_free {blocks : Blocks w} {q : Nat} (hq : q ∈ blocks.map Prod.fst) {ptr : Option Nat}
    (hptr : ptr ≠ some q) : q ∈ (ioByteMemoryFree blocks ptr).map Prod.fst := by
  obtain ⟨b, hb, rfl⟩ := List.mem_map.mp hq
  refine List.mem_map_of_mem ((List.mem_eraseP_of_neg ?_).mpr hb)
  simpa using hptr.symm

theorem Allocated.ne_self {ptr : Option Nat} (h : Allocated rt ptr) : ptr ≠ some rt.self := by
  rintro rfl
  simp [Allocated] at h

theorem Uncounted.malloc (h : Uncounted rt) (size : BitVec w) (found : Option Nat) :
    Uncounted (jsMallocRt rt size found).1 := by
  refine ⟨h.count, h.size, ?_⟩
  cases found with
  | none => exact h.self
  | some p => exact List.mem_cons_of_mem _ h.self

theorem Uncounted.free (h : Uncounted rt) {ptr : Option Nat} (hptr : ptr ≠ some rt.self) :
    Uncounted (jsFreeRt rt ptr) :=
  ⟨h.count, h.size, mem_free h.self hptr⟩

theorem Uncounted.realloc (h : Uncounted rt) {ptr : Option Nat} (hptr : ptr ≠ some rt.self)
    (size : BitVec w) (found : Option Nat) : Uncounted (jsReallocRt rt ptr size found).1 := by
  refine ⟨h.count, h.size, ?_⟩
  have hfree := mem_free h.self hptr
  cases found with
  | none =>
    change rt.self ∈ (if size = 0 then ioByteMemoryFree rt.blocks ptr else rt.blocks).map Prod.fst
    split_ifs
    · exact hfree
    · exact h.self
  | some p => exact List.mem_cons_of_mem _ hfree

theorem Uncounted.collect (h : Uncounted rt) {garbage : List Nat} (hgarbage : rt.self ∉ garbage) :
    Uncounted (garbage.foldl (fun rt p => jsFreeRt rt (some p)) rt) := by
  induction garbage generalizing rt with
  | nil => exact h
  | cons p ps ih =>
    rw [List.mem_cons, not_or] at hgarbage
    exact ih (h.free fun heq => hgarbage.1 (Option.some.inj heq).symm) hgarbage.2

theorem Uncounted.triggerGC (h : Uncounted rt) (size : BitVec w) {garbage : List Nat}
    (hgarbage : rt.self ∉ garbage) : Uncounted (jsTriggerGC rt size garbage) := by
  unfold jsTriggerGC
  split_ifs
  · have hfreed := h.collect hgarbage
    exact ⟨hfreed.count, hfreed.size, hfreed.self⟩
  · exact h

/-- No call changes the counts. -/
theorem Uncounted.step (h : Uncounted rt) {l : Label w} (hstep : step rt l = some rt') :
    Uncounted rt' := by
  cases l with
  | malloc size found =>
    simp only [Malloc.step] at hstep
    split_ifs at hstep
    obtain rfl := Option.some.inj hstep
    exact h.malloc size found
  | free ptr =>
    simp only [Malloc.step] at hstep
    split_ifs at hstep with hptr
    obtain rfl := Option.some.inj hstep
    exact h.free (Allocated.ne_self hptr)
  | realloc ptr size found =>
    simp only [Malloc.step] at hstep
    split_ifs at hstep with hcond
    obtain rfl := Option.some.inj hstep
    exact h.realloc (Allocated.ne_self hcond.1) size found
  | setMemoryLimit limit =>
    obtain rfl := Option.some.inj hstep
    exact ⟨h.count, h.size, h.self⟩
  | setGCThreshold threshold =>
    obtain rfl := Option.some.inj hstep
    exact ⟨h.count, h.size, h.self⟩
  | newObject size garbage found =>
    simp only [Malloc.step] at hstep
    split_ifs at hstep with hcond
    obtain rfl := Option.some.inj hstep
    refine (h.triggerGC size fun hself => ?_).malloc size found
    exact Allocated.ne_self (List.all_eq_true.mp hcond.1 _ hself) rfl

theorem jsNewRuntime_uncounted (self : Nat) (size : BitVec w) :
    Uncounted (jsNewRuntime self size) :=
  ⟨rfl, rfl, by simp [jsNewRuntime, jsDefMalloc, ioByteMemoryAllocate]⟩

/-- The limit is not consulted. -/
theorem malloc_outstanding (rt : JSRuntime w) (size : BitVec w) {p : Nat}
    (hp : p ∉ rt.blocks.map Prod.fst) :
    ∃ rt', Malloc.step rt (.malloc size (some p)) = some rt' ∧
      outstanding rt' = outstanding rt + size.toNat := by
  refine ⟨(jsMallocRt rt size (some p)).1, ?_, ?_⟩
  · have hunused : Unused rt (some p) := by simpa [Unused] using hp
    simp only [Malloc.step, hunused, if_true]
  · simp [outstanding, jsMallocRt, jsDefMalloc, ioByteMemoryAllocate, Nat.add_comm]

theorem Uncounted.forceGC_iff (h : Uncounted rt) (size : BitVec w) :
    forceGC rt size ↔ rt.mallocGCThreshold.toNat < size.toNat := by
  simp [forceGC, h.size, BitVec.lt_def]

theorem Uncounted.threshold (h : Uncounted rt) (size : BitVec w) {garbage : List Nat}
    (hgarbage : rt.self ∉ garbage) (hforce : forceGC rt size) :
    (jsTriggerGC rt size garbage).mallocGCThreshold = 0 := by
  have hfreed := (h.collect hgarbage).size
  simp [jsTriggerGC, hforce, hfreed]

end Uncounted

/-- In no state of any run do the counts describe the blocks: they are zero from the start on. An
allocation succeeds whenever the byte memory has room, so it keeps to the limit exactly when the
user does; a collection runs exactly when the requested size alone exceeds the threshold, and
leaves a threshold of zero. -/
theorem heapAccounting_never {self : Nat} {size : BitVec w} {ls : List (Label w)}
    {rt : JSRuntime w} (hrun : Transition.run step (jsNewRuntime self size) ls = some rt) :
    ¬ HeapAccounting rt ∧
    (rt.mallocState.mallocCount = 0 ∧ rt.mallocState.mallocSize = 0 ∧ rt.blocks ≠ []) ∧
    (∀ n p, p ∉ rt.blocks.map Prod.fst → ∃ rt', step rt (.malloc n (some p)) = some rt' ∧
      (outstanding rt' ≤ rt.mallocState.mallocLimit.toNat ↔
        outstanding rt + n.toNat ≤ rt.mallocState.mallocLimit.toNat)) ∧
    ∀ n garbage, (forceGC rt n ↔ rt.mallocGCThreshold.toNat < n.toNat) ∧
      (forceGC rt n → rt.self ∉ garbage → (jsTriggerGC rt n garbage).mallocGCThreshold = 0) := by
  have h : Uncounted rt := Transition.run_preserves (jsNewRuntime_uncounted self size)
    (fun _ _ _ hu hstep => hu.step hstep) hrun
  have hblocks : rt.blocks ≠ [] := by
    intro hnil
    simpa [hnil] using h.self
  refine ⟨fun haccounting => ?_, ⟨h.count, h.size, hblocks⟩, fun n p hp => ?_, fun n garbage =>
    ⟨h.forceGC_iff n, fun hforce hgarbage => h.threshold n hgarbage hforce⟩⟩
  · have hcount := haccounting.count
    rw [h.count] at hcount
    exact hblocks (List.length_eq_zero_iff.mp (by simpa using hcount.symm))
  · obtain ⟨rt', hstep, hbytes⟩ := malloc_outstanding rt n hp
    exact ⟨rt', hstep, by rw [hbytes]⟩

/-- A block larger than the limit is allocated. -/
def overLimit : List (Label 32) :=
  [.setMemoryLimit 1000, .malloc 2000 (some 2), .newObject 48 [] (some 3)]

theorem heapAccounting_never_overLimit :
    ∃ rt, Transition.run step (jsNewRuntime 1 (400 : BitVec 32)) overLimit = some rt ∧
      ¬ HeapAccounting rt :=
  ⟨_, rfl, (@heapAccounting_never 32 1 400 overLimit _ rfl).1⟩

theorem heapAccounting_broken : ¬ ∀ ls rt,
    Transition.run step (jsNewRuntime 1 (400 : BitVec 32)) ls = some rt → HeapAccounting rt := by
  intro h
  have hstart := h [.setMemoryLimit 1000] _ rfl
  have hover := hstart.limit 2000 2 _ rfl
  revert hover
  decide

end Malloc

end IoQuickJS
