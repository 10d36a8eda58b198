import IoQuickJS.Library.Total
import IoQuickJS.Library.Segment

/-!
# rqsort

The sorting function of cutils.c: a quicksort with a stack of its own for the larger parts, three
way partitions, heap sort for parts that have been divided too often and insertion sort for
small ones. A pointer is the index of an element; `pi`, `plt`, `pgt` are `ptr + i`, `ptr + lt`,
`ptr + gt`.

The comparison function is script code for the arrays of a program: its answers need not agree
with each other. `cmp k a b` is what it answers to its `k`th call, for `a` and `b`. A program
fails when it accesses an element outside the array or overflows the stack.
-/
namespace IoQuickJS.Rqsort

structure Memory (α : Type) where
  elements : Nat → α
  calls : Nat

abbrev Program (α β : Type) := StateT (Memory α) Option β

/-- A part of the array that is still to be sorted. -/
structure Entry where
  base : Nat
  count : Nat
  depth : Nat
  deriving DecidableEq, Repr

variable {α : Type} (cmp : Nat → α → α → Int) (limit : Nat)

/-- A call of the comparison function. -/
def compare (i j : Nat) : Program α Int := fun s =>
  if i < limit ∧ j < limit then
    some (cmp s.calls (s.elements i) (s.elements j), { s with calls := s.calls + 1 })
  else none

def swap (i j : Nat) : Program α Unit := fun s =>
  if i < limit ∧ j < limit then
    some ((), { s with elements := Segment.exchange s.elements i j })
  else none

def outOfFuel {β : Type} : Program α β := fun _ => none

/-! ## `heapsortx` -/

/-- The larger one of the children `c` and `c + 1` in a heap of `n` elements. -/
def largerChild (base n c : Nat) : Program α Nat :=
  if c < n - 1 then do
    let d ← compare cmp limit (base + c) (base + c + 1)
    pure (if d ≤ 0 then c + 1 else c)
  else pure c

/-- The inner loops of `heapsortx`. -/
def siftDown (base n : Nat) : Nat → Nat → Program α Unit
  | 0, _ => outOfFuel
  | fuel + 1, r =>
    if r * 2 + 1 < n then do
      let c ← largerChild cmp limit base n (r * 2 + 1)
      let d ← compare cmp limit (base + r) (base + c)
      if d > 0 then pure ()
      else do
        swap limit (base + r) (base + c)
        siftDown base n fuel c
    else pure ()

def heapify (base n : Nat) : Nat → Program α Unit
  | 0 => pure ()
  | i + 1 => do
    siftDown cmp limit base n (n + 1) i
    heapify base n i

def extractMax (base : Nat) : Nat → Program α Unit
  | 0 => pure ()
  | i + 1 => do
    swap limit base (base + (i + 1))
    siftDown cmp limit base (i + 1) (i + 2) 0
    extractMax base i

def heapsortx (base nmemb : Nat) : Program α Unit :=
  if nmemb > 1 then do
    heapify cmp limit base nmemb (nmemb / 2)
    extractMax cmp limit base (nmemb - 1)
  else pure ()

/-! ## `rqsort` -/

def med3 (a b c : Nat) : Program α Nat := do
  let ab ← compare cmp limit a b
  let bc ← compare cmp limit b c
  if ab < 0 then
    if bc < 0 then pure b
    else do
      let ac ← compare cmp limit a c
      pure (if ac < 0 then c else a)
  else
    if bc > 0 then pure b
    else do
      let ac ← compare cmp limit a c
      pure (if ac < 0 then a else c)

/-- The loop over the elements that are not greater than the pivot. -/
def scanUp (ptr j : Nat) : Nat → Nat → Nat → Program α (Nat × Nat)
  | 0, _, _ => outOfFuel
  | fuel + 1, lt, i =>
    if i < j then do
      let c ← compare cmp limit ptr (ptr + i)
      if c ≥ 0 then
        if c = 0 then do
          swap limit (ptr + lt) (ptr + i)
          scanUp ptr j fuel (lt + 1) (i + 1)
        else scanUp ptr j fuel lt (i + 1)
      else pure (lt, i)
    else pure (lt, i)

/-- The loop over the elements that are not smaller than the pivot. -/
def scanDown (ptr i : Nat) : Nat → Nat → Nat → Program α (Nat × Nat)
  | 0, _, _ => outOfFuel
  | fuel + 1, j, gt =>
    if i < j - 1 then do
      let c ← compare cmp limit ptr (ptr + (j - 1))
      if c ≤ 0 then
        if c = 0 then do
          swap limit (ptr + (gt - 1)) (ptr + (j - 1))
          scanDown ptr i fuel (j - 1) (gt - 1)
        else scanDown ptr i fuel (j - 1) gt
      else pure (j - 1, gt)
    else pure (j - 1, gt)

/-- The partition loop; returns `lt`, `i` and `gt`. -/
def partition (ptr : Nat) : Nat → Nat → Nat → Nat → Nat → Program α (Nat × Nat × Nat)
  | 0, _, _, _, _ => outOfFuel
  | fuel + 1, lt, i, j, gt => do
    let up ← scanUp cmp limit ptr j (j + 1) lt i
    let down ← scanDown cmp limit ptr up.2 (j + 1) j gt
    if up.2 ≥ down.1 then pure (up.1, up.2, down.2)
    else do
      swap limit (ptr + up.2) (ptr + down.1)
      partition ptr fuel up.1 (up.2 + 1) down.1 down.2

/-- `swap_block` of `span` elements. -/
def swapBlock (a b : Nat) : Nat → Program α Unit
  | 0 => pure ()
  | span + 1 => do
    swap limit a b
    swapBlock (a + 1) (b + 1) span

/-- `sp->… = …; sp++`, on a stack of 50 entries. -/
def push (stack : List Entry) (e : Entry) : Program α (List Entry) :=
  if stack.length < 50 then pure (e :: stack) else outOfFuel

/-- One pass of the loop over a segment of more than 6 elements: what is left of it on the left
and on the right of the elements that are equal to the pivot. -/
def divideOnce (ptr nmemb : Nat) : Program α (Nat × Nat) := do
  let m4 := nmemb / 4
  let m ← med3 cmp limit (ptr + m4) (ptr + 2 * m4) (ptr + 3 * m4)
  swap limit ptr m
  let (lt, i, gt) ← partition cmp limit ptr (nmemb + 1) 1 1 nmemb nmemb
  let span := min lt (i - lt)
  swapBlock limit ptr (ptr + i - span) span
  let span := min (nmemb - gt) (gt - i)
  swapBlock limit (ptr + i) (ptr + nmemb - span) span
  pure (i - lt, nmemb - (gt - i))

/-- The loop over a segment, which pushes the larger part and goes on with the smaller one. -/
def divide : Nat → List Entry → Nat → Nat → Nat → Program α (List Entry × Nat × Nat)
  | 0, _, _, _, _ => outOfFuel
  | fuel + 1, stack, ptr, nmemb, depth =>
    if nmemb > 6 then
      if depth + 1 > 50 then do
        heapsortx cmp limit ptr nmemb
        pure (stack, ptr, 0)
      else do
        let (lt, gt) ← divideOnce cmp limit ptr nmemb
        if lt > nmemb - gt then do
          let stack ← push stack ⟨ptr, lt, depth + 1⟩
          divide fuel stack (ptr + gt) (nmemb - gt) (depth + 1)
        else do
          let stack ← push stack ⟨ptr + gt, nmemb - gt, depth + 1⟩
          divide fuel stack ptr lt (depth + 1)
    else pure (stack, ptr, nmemb)

/-- The inner loop of the insertion sort: the element at `ptr + j` goes down. -/
def insertDown (ptr : Nat) : Nat → Program α Unit
  | 0 => pure ()
  | j + 1 => do
    let c ← compare cmp limit (ptr + j) (ptr + (j + 1))
    if c > 0 then do
      swap limit (ptr + (j + 1)) (ptr + j)
      insertDown ptr j
    else pure ()

/-- The insertion sort, with `k` elements from `ptr + i` to go. -/
def insertionSort (ptr : Nat) : Nat → Nat → Program α Unit
  | 0, _ => pure ()
  | k + 1, i => do
    insertDown cmp limit ptr i
    insertionSort ptr k (i + 1)

/-- The loop over the stack. -/
def sortStack : Nat → List Entry → Program α Unit
  | 0, _ => outOfFuel
  | _ + 1, [] => pure ()
  | fuel + 1, e :: stack => do
    let (stack, ptr, nmemb) ← divide cmp limit (e.count + 1) stack e.base e.count e.depth
    insertionSort cmp limit ptr (nmemb - 1) 1
    sortStack fuel stack

/-- `rqsort` of an array of `nmemb` elements. -/
def rqsort (nmemb : Nat) : Program α Unit :=
  if nmemb < 2 then pure ()
  else sortStack cmp nmemb (2 * nmemb + 2) [⟨0, nmemb, 0⟩]

end IoQuickJS.Rqsort
