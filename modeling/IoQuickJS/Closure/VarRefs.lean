import IoQuickJS.Library.Ledger
import IoQuickJS.Library.Simulation

/-!
# Variable references

A local variable is in the buffers of its frame. A closure that captures it has a JSVarRef, which
points into the frame as long as the variable is there: the frame lists the references to its
variables, so that all closures share one. When the block or the function is left the reference
takes the value over and points to itself. References are counted; the last closure frees them.

A step is one operation of a running function on variables, the end of a frame, or the end of
something that holds references. Frames are in no order: those of generators outlive the call. A
step is `none` when the C code would use freed memory or a null pointer, leave a buffer or fail an
assertion; an operation with an operand that no bytecode has is `invalid` and does nothing. Memory
that has been freed is not used again. Values are opaque: taking and dropping references to them is
left out.
-/
namespace IoQuickJS.Closure

open Function (update)

/-- What a variable has; `uninitialized` is a lexical variable before its declaration. -/
inductive VarValue (V : Type) where
  | undefined
  | uninitialized
  | value (v : V)
  deriving DecidableEq, Repr

/-- What `pvalue` points to: `arg_buf` or `var_buf` of a frame, or the field `value`. -/
inductive PValue where
  | buf (frame : Nat) (isArg : Bool) (idx : Nat)
  | own
  deriving DecidableEq, Repr

structure JSVarRef (V : Type) where
  refCount : Nat
  isDetached : Bool
  isArg : Bool
  varIdx : Nat
  pvalue : PValue
  value : VarValue V
  deriving Repr

structure JSStackFrame (V : Type) where
  curFunc : Nat
  argBuf : List (VarValue V)
  varBuf : List (VarValue V)
  varRefList : List Nat
  deriving Repr

def JSStackFrame.buf {V : Type} (sf : JSStackFrame V) (isArg : Bool) : List (VarValue V) :=
  if isArg then sf.argBuf else sf.varBuf

/-- The references, the frames, and the objects with the references they hold: `var_refs` of a
function, the JS_PROP_VARREF properties of another object. `none` is NULL. -/
structure VarHeap (V : Type) where
  nextVarRef : Nat
  varRefs : Nat → Option (JSVarRef V)
  nextFrame : Nat
  frames : Nat → Option (JSStackFrame V)
  nextObject : Nat
  objects : Nat → Option (List (Option Nat))

/-- A variable that is captured: of the function that runs, or one that this function has
captured. -/
inductive Capture where
  | local (isArg : Bool) (idx : Nat)
  | outer (idx : Nat)
  deriving DecidableEq, Repr

/-- How a frame comes by its arguments: by JS_CallInternal, or by async_func_init. -/
inductive CallKind where
  | call (copyArgv : Bool)
  | generator
  deriving DecidableEq, Repr

/-- The opcodes with and without `_check`, and with `_check_init`. -/
inductive Access where
  | plain
  | check
  | checkInit
  deriving DecidableEq, Repr

/-- An allocation of a capture succeeds: that of a new reference, that of the property. -/
structure CaptureMemory where
  varRef : Bool
  property : Bool
  deriving DecidableEq, Repr

/-- What js_build_mapped_arguments finds memory for: the object, its length, the references to
the arguments, the other arguments, and the properties Symbol.iterator and callee. -/
structure ArgumentsMemory where
  object : Bool
  length : Bool
  captures : Nat → CaptureMemory
  rest : Bool
  iterator : Bool
  callee : Bool

/-- The steps; `f` is the frame that runs, `p` an object. For a closure `object` is the function
object and its `var_refs`, `rest` the prototype of a generator. -/
inductive Label (V : Type) where
  | call (curFunc : Nat) (kind : CallKind) (argCount varCount : Nat) (argv : List (VarValue V))
    (memory : Bool)
  | getLocal (f : Nat) (isArg : Bool) (idx : Nat) (access : Access)
  | putLocal (f : Nat) (isArg : Bool) (idx : Nat) (val : VarValue V) (access : Access)
  | closeLoc (f idx : Nat)
  | getVarRef (p idx : Nat) (access : Access)
  | putVarRef (p idx : Nat) (val : VarValue V) (access : Access)
  | closure (f : Nat) (object : Bool) (captures : List (Capture × Bool)) (rest : Bool)
  | mappedArguments (f argCount : Nat) (memory : ArgumentsMemory)
  | makeRef (f : Nat) (capture : Capture) (object : Bool) (memory : CaptureMemory)
  | freeProperty (p idx : Nat)
  | freeObject (p : Nat)
  | leave (f : Nat)

/-- `pendingObject` is a new object that is returned although an exception is pending. -/
inductive Output (V : Type) where
  | frame (f : Nat)
  | object (p : Nat)
  | pendingObject (p : Nat)
  | value (val : VarValue V)
  | referenceError
  | ok
  | exception
  | invalid
  deriving DecidableEq, Repr

/-- `JS_IsUninitialized` -/
def VarValue.isUninitialized {V : Type} : VarValue V → Bool
  | .uninitialized => true
  | _ => false

/-- The opcode throws when the variable has the value `val`. -/
def Access.throws {V : Type} (access : Access) (val : VarValue V) : Bool :=
  match access with
  | .plain => false
  | .check => val.isUninitialized
  | .checkInit => !val.isUninitialized

/-- What js_build_mapped_arguments returns: nobody looks at the results of the last two
properties. -/
def ArgumentsMemory.output {V : Type} (memory : ArgumentsMemory) (p : Nat) :
    Output V :=
  if memory.iterator && memory.callee then .object p else .pendingObject p

/-- The arguments in a new frame. The buffer of the caller is used where it is long enough, unless
it is to be copied. -/
def argBuf {V : Type} (kind : CallKind) (argCount : Nat) (argv : List (VarValue V)) :
    List (VarValue V) :=
  match kind with
  | .call copyArgv =>
    if argv.length < argCount ∨ copyArgv then
      argv.take argCount ++ List.replicate (argCount - argv.length) .undefined
    else argv
  | .generator => argv ++ List.replicate (argCount - argv.length) .undefined

namespace VarHeap

variable {V : Type}

def setFrame (s : VarHeap V) (f : Nat) (sf : JSStackFrame V) : VarHeap V :=
  { s with frames := update s.frames f (some sf) }

def setVarRef (s : VarHeap V) (a : Nat) (r : JSVarRef V) : VarHeap V :=
  { s with varRefs := update s.varRefs a (some r) }

/-- What `arg_buf` or `var_buf` has. -/
def loadLocal (s : VarHeap V) (f : Nat) (isArg : Bool) (idx : Nat) : Option (VarValue V) :=
  (s.frames f).bind fun sf => (sf.buf isArg)[idx]?

/-- A store to `arg_buf` or `var_buf`. -/
def storeLocal (s : VarHeap V) (f : Nat) (isArg : Bool) (idx : Nat) (val : VarValue V) :
    Option (VarHeap V) := do
  let sf ← s.frames f
  if idx < (sf.buf isArg).length then
    some (s.setFrame f (if isArg then { sf with argBuf := sf.argBuf.set idx val }
      else { sf with varBuf := sf.varBuf.set idx val }))
  else none

/-- `*var_ref->pvalue` -/
def load (s : VarHeap V) (a : Nat) : Option (VarValue V) := do
  let r ← s.varRefs a
  match r.pvalue with
  | .own => some r.value
  | .buf f isArg idx => s.loadLocal f isArg idx

/-- `set_value(ctx, var_ref->pvalue, val)` -/
def store (s : VarHeap V) (a : Nat) (val : VarValue V) : Option (VarHeap V) := do
  let r ← s.varRefs a
  match r.pvalue with
  | .own => some (s.setVarRef a { r with value := val })
  | .buf f isArg idx => s.storeLocal f isArg idx val

/-- The loop of get_var_ref over the list of the frame. -/
def findVarRef (s : VarHeap V) (isArg : Bool) (idx : Nat) : List Nat → Option (Option Nat)
  | [] => some none
  | a :: as => do
    let r ← s.varRefs a
    if r.varIdx = idx ∧ r.isArg = isArg then some (some a) else findVarRef s isArg idx as

/-- `var_ref->header.ref_count++` -/
def dupVarRef (s : VarHeap V) (a : Nat) : Option (VarHeap V) := do
  let r ← s.varRefs a
  some (s.setVarRef a { r with refCount := r.refCount + 1 })

/-- `get_var_ref`; `none` in place of a reference when there is no memory. -/
def getVarRef (s : VarHeap V) (f : Nat) (isArg : Bool) (idx : Nat) (memory : Bool) :
    Option (VarHeap V × Option Nat) := do
  let sf ← s.frames f
  match ← s.findVarRef isArg idx sf.varRefList with
  | some a => (s.dupVarRef a).map (·, some a)
  | none =>
    if memory then
      let a := s.nextVarRef
      let s := { s with nextVarRef := a + 1 }
      let s := s.setVarRef a ⟨1, false, isArg, idx, .buf f isArg idx, .undefined⟩
      some (s.setFrame f { sf with varRefList := sf.varRefList ++ [a] }, some a)
    else some (s, none)

/-- `free_var_ref`; a reference that is not detached is in the list of a frame. -/
def freeVarRef (s : VarHeap V) (a : Nat) : Option (VarHeap V) := do
  let r ← s.varRefs a
  match r.refCount with
  | 0 => none
  | 1 =>
    let s' := { s with varRefs := update s.varRefs a none }
    if r.isDetached then some s'
    else
      match r.pvalue with
      | .own => none
      | .buf f _ _ => do
        let sf ← s.frames f
        some (s'.setFrame f { sf with varRefList := sf.varRefList.erase a })
  | n + 1 => some (s.setVarRef a { r with refCount := n })

/-- The references that something holds are freed, in order. -/
def freeVarRefs (s : VarHeap V) : List (Option Nat) → Option (VarHeap V)
  | [] => some s
  | none :: as => freeVarRefs s as
  | some a :: as => (s.freeVarRef a).bind fun s => freeVarRefs s as

/-- `var_refs` of the function that runs. -/
def curVarRefs (s : VarHeap V) (sf : JSStackFrame V) : List (Option Nat) :=
  (s.objects sf.curFunc).getD []

/-- A reference to a captured variable. -/
def takeVarRef (s : VarHeap V) (f : Nat) (capture : Capture) (memory : Bool) :
    Option (VarHeap V × Option Nat) :=
  match capture with
  | .local isArg idx => s.getVarRef f isArg idx memory
  | .outer idx => do
    let sf ← s.frames f
    let a ← (s.curVarRefs sf)[idx]?.join
    (s.dupVarRef a).map (·, some a)

/-- The loop that gives an object its references: those it has got in the end, and whether these
are all. A reference for which there is no property is freed. -/
def takeVarRefs (f : Nat) : VarHeap V → List (Capture × CaptureMemory) →
    Option (VarHeap V × List Nat × Bool)
  | s, [] => some (s, [], true)
  | s, (capture, memory) :: captures => do
    match ← s.takeVarRef f capture memory.varRef with
    | (s, none) => some (s, [], false)
    | (s, some a) =>
      if memory.property then
        let (s, as, all) ← takeVarRefs f s captures
        some (s, a :: as, all)
      else
        let s ← s.freeVarRef a
        some (s, [], false)

/-- A new object with references to variables. Without memory for the object itself nothing has
happened yet, without memory for a reference or for the rest of the object it is freed again. -/
def newHolder (s : VarHeap V) (f : Nat) (object : Bool) (captures : List (Capture × CaptureMemory))
    (rest : Bool) (out : Nat → Output V) : Option (VarHeap V × Output V) :=
  if object then do
    let (s, as, all) ← s.takeVarRefs f captures
    if all && rest then
      let p := s.nextObject
      some ({ s with nextObject := p + 1, objects := update s.objects p (some (as.map some)) },
        out p)
    else (s.freeVarRefs (as.map some)).map (·, .exception)
  else some (s, .exception)

/-- `js_closure` with `js_closure2` -/
def jsClosure (s : VarHeap V) (f : Nat) (object : Bool) (captures : List (Capture × Bool))
    (rest : Bool) : Option (VarHeap V × Output V) :=
  s.newHolder f object (captures.map fun c => (c.1, ⟨c.2, true⟩)) rest .object

/-- `js_build_mapped_arguments` -/
def jsBuildMappedArguments (s : VarHeap V) (f argCount : Nat) (memory : ArgumentsMemory) :
    Option (VarHeap V × Output V) :=
  -- the result of add_property for the length is used without a check
  if memory.object && !memory.length then none
  else
    s.newHolder f memory.object ((List.range argCount).map fun i => (.local true i,
      memory.captures i)) memory.rest memory.output

/-- `OP_make_loc_ref`, `OP_make_arg_ref` and `OP_make_var_ref_ref` -/
def makeRef (s : VarHeap V) (f : Nat) (capture : Capture) (object : Bool)
    (memory : CaptureMemory) : Option (VarHeap V × Output V) :=
  s.newHolder f object [(capture, memory)] true .object

/-- A reference takes over the value of the variable. -/
def detach (s : VarHeap V) (a : Nat) (r : JSVarRef V) (val : VarValue V) : VarHeap V :=
  s.setVarRef a { r with value := val, pvalue := .own, isDetached := true }

/-- `close_var_refs`, over the list of the frame. -/
def closeVarRefs (sf : JSStackFrame V) : VarHeap V → List Nat → Option (VarHeap V)
  | s, [] => some s
  | s, a :: as => do
    let r ← s.varRefs a
    let val ← (sf.buf r.isArg)[r.varIdx]?
    closeVarRefs sf (s.detach a r val) as

/-- `close_lexical_var`, over the list of the frame: the references that stay in the list. -/
def closeLexicalVar (sf : JSStackFrame V) (idx : Nat) : VarHeap V → List Nat →
    Option (VarHeap V × List Nat)
  | s, [] => some (s, [])
  | s, a :: as => do
    let r ← s.varRefs a
    if idx = r.varIdx ∧ r.isArg = false then
      let val ← sf.varBuf[idx]?
      closeLexicalVar sf idx (s.detach a r val) as
    else
      let (s, as) ← closeLexicalVar sf idx s as
      some (s, a :: as)

/-- The variable that is captured exists. -/
def captures (s : VarHeap V) (sf : JSStackFrame V) : Capture → Bool
  | .local isArg idx => idx < (sf.buf isArg).length
  | .outer idx => (s.curVarRefs sf)[idx]?.join.isSome

/-- The operands of a step are those of an operation that there is. -/
def valid (s : VarHeap V) : Label V → Bool
  | .call .. => true
  | .getLocal f isArg idx _ | .putLocal f isArg idx _ _ =>
    (s.frames f).any fun sf => idx < (sf.buf isArg).length
  | .closeLoc f idx => (s.frames f).any fun sf => idx < sf.varBuf.length
  | .getVarRef p idx _ | .putVarRef p idx _ _ | .freeProperty p idx =>
    (s.objects p).any fun refs => refs[idx]?.join.isSome
  | .closure f _ cs _ => (s.frames f).any fun sf => cs.all fun c => s.captures sf c.1
  | .mappedArguments f argCount _ => (s.frames f).any fun sf => argCount ≤ sf.argBuf.length
  | .makeRef f capture _ _ => (s.frames f).any fun sf => s.captures sf capture
  | .freeObject p => (s.objects p).isSome
  | .leave f => (s.frames f).isSome

/-- What an opcode reads, or that it throws. -/
def read (s : VarHeap V) (access : Access) (val : VarValue V) : VarHeap V × Output V :=
  (s, if access.throws val then .referenceError else .value val)

/-- The reference that the object has at `idx`. -/
def refAt (s : VarHeap V) (p idx : Nat) : Option Nat :=
  (s.objects p).bind fun refs => refs[idx]?.join

def perform (s : VarHeap V) : Label V → Option (VarHeap V × Output V)
  | .call curFunc kind argCount varCount argv memory =>
    let f := s.nextFrame
    let sf := ⟨curFunc, argBuf kind argCount argv, List.replicate varCount .undefined, []⟩
    if memory then some ({ s.setFrame f sf with nextFrame := f + 1 }, .frame f)
    else some (s, .exception)
  | .getLocal f isArg idx access => do
    let val ← s.loadLocal f isArg idx
    some (s.read access val)
  | .putLocal f isArg idx val access => do
    let old ← s.loadLocal f isArg idx
    if access.throws old then some (s, .referenceError)
    else (s.storeLocal f isArg idx val).map (·, .ok)
  | .closeLoc f idx => do
    let sf ← s.frames f
    let (s, varRefList) ← s.closeLexicalVar sf idx sf.varRefList
    some (s.setFrame f { sf with varRefList := varRefList }, .ok)
  | .getVarRef p idx access => do
    let val ← s.load (← s.refAt p idx)
    some (s.read access val)
  | .putVarRef p idx val access => do
    let a ← s.refAt p idx
    let old ← s.load a
    if access.throws old then some (s, .referenceError)
    else (s.store a val).map (·, .ok)
  | .closure f object captures rest => s.jsClosure f object captures rest
  | .mappedArguments f argCount memory => s.jsBuildMappedArguments f argCount memory
  | .makeRef f capture object memory => s.makeRef f capture object memory
  | .freeProperty p idx => do
    let refs ← s.objects p
    let a ← s.refAt p idx
    let s := { s with objects := update s.objects p (some (refs.set idx none)) }
    (s.freeVarRef a).map (·, .ok)
  | .freeObject p => do
    let refs ← s.objects p
    let s := { s with objects := update s.objects p none }
    (s.freeVarRefs refs).map (·, .ok)
  | .leave f => do
    let sf ← s.frames f
    let s' ← closeVarRefs sf s sf.varRefList
    some ({ s' with frames := update s'.frames f none }, .ok)

def step (s : VarHeap V) (l : Label V) : Option (VarHeap V × Output V) :=
  if s.valid l then s.perform l else some (s, .invalid)

def new : VarHeap V := ⟨0, fun _ => none, 0, fun _ => none, 0, fun _ => none⟩

end VarHeap

def CaptureMemory.enough (memory : CaptureMemory) : Bool := memory.varRef && memory.property

/-- The allocations of a step succeed, but for those whose results nobody looks at. -/
def Label.enough {V : Type} : Label V → Bool
  | .call _ _ _ _ _ memory => memory
  | .closure _ object captures rest => object && (captures.all fun c => c.2) && rest
  | .mappedArguments _ argCount memory => memory.object &&
    ((List.range argCount).all fun i => (memory.captures i).enough) && memory.rest
  | .makeRef _ _ object memory => object && memory.enough
  | _ => true

/-- The length of a mapped arguments object is added once there is the object. -/
def Label.addsLength {V : Type} : Label V → Bool
  | .mappedArguments _ _ memory => !memory.object || memory.length
  | _ => true

end IoQuickJS.Closure
