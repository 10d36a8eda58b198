import IoQuickJS.Closure.VarRefs

/-!
# Variables as cells

What closures mean: every variable is a cell. A frame knows the cells of its arguments and
variables, an object those of the variables it has captured; a closure that is created gets the
cells that are captured, and whoever knows a cell reads and writes it. Leaving a block gives the
frame a cell of its own again. Cells are not freed.
-/
namespace IoQuickJS.Closure

open Function (update)

structure ScopeFrame where
  curFunc : Nat
  args : List Nat
  vars : List Nat
  deriving DecidableEq, Repr

def ScopeFrame.buf (tf : ScopeFrame) (isArg : Bool) : List Nat := if isArg then tf.args else tf.vars

structure Scopes (V : Type) where
  nextCell : Nat
  cells : Nat → VarValue V
  nextFrame : Nat
  frames : Nat → Option ScopeFrame
  nextObject : Nat
  objects : Nat → Option (List (Option Nat))

namespace Scopes

variable {V : Type}

/-- New cells with these values. -/
def allocate (t : Scopes V) (vals : List (VarValue V)) : Scopes V × List Nat :=
  ({ t with
    nextCell := t.nextCell + vals.length
    cells := fun c => if c < t.nextCell then t.cells c else vals.getD (c - t.nextCell) .undefined },
    List.range' t.nextCell vals.length)

def write (t : Scopes V) (c : Nat) (val : VarValue V) : Scopes V :=
  { t with cells := update t.cells c val }

/-- The cell of a variable of a frame. -/
def localAt (t : Scopes V) (f : Nat) (isArg : Bool) (idx : Nat) : Option Nat :=
  (t.frames f).bind fun tf => (tf.buf isArg)[idx]?

/-- The cell of a variable that an object has captured. -/
def refAt (t : Scopes V) (p idx : Nat) : Option Nat :=
  (t.objects p).bind fun refs => refs[idx]?.join

def get (t : Scopes V) (access : Access) (cell : Option Nat) : Scopes V × Output V :=
  match cell with
  | some c => (t, if access.throws (t.cells c) then .referenceError else .value (t.cells c))
  | none => (t, .invalid)

def put (t : Scopes V) (access : Access) (val : VarValue V) (cell : Option Nat) :
    Scopes V × Output V :=
  match cell with
  | some c => if access.throws (t.cells c) then (t, .referenceError) else (t.write c val, .ok)
  | none => (t, .invalid)

/-- The cell of a captured variable. -/
def capture (t : Scopes V) (f : Nat) : Capture → Option Nat
  | .local isArg idx => t.localAt f isArg idx
  | .outer idx => (t.frames f).bind fun tf => t.refAt tf.curFunc idx

/-- A new object that knows the cells. -/
def newHolder (t : Scopes V) (f : Nat) (captures : List Capture) (out : Nat → Output V) :
    Scopes V × Output V :=
  match t.frames f, captures.mapM (t.capture f) with
  | some _, some cs =>
    ({ t with
      nextObject := t.nextObject + 1
      objects := update t.objects t.nextObject (some (cs.map some)) }, out t.nextObject)
  | _, _ => (t, .invalid)

/-- What a step means. -/
def perform (t : Scopes V) : Label V → Scopes V × Output V
  | .call curFunc kind argCount varCount argv _ =>
    let (t, args) := t.allocate (argBuf kind argCount argv)
    let (t, vars) := t.allocate (List.replicate varCount .undefined)
    ({ t with
      nextFrame := t.nextFrame + 1
      frames := update t.frames t.nextFrame (some ⟨curFunc, args, vars⟩) }, .frame t.nextFrame)
  | .getLocal f isArg idx access => t.get access (t.localAt f isArg idx)
  | .putLocal f isArg idx val access => t.put access val (t.localAt f isArg idx)
  | .closeLoc f idx =>
    match t.frames f with
    | some tf =>
      match tf.vars[idx]? with
      | some c =>
        ({ (t.allocate [t.cells c]).1 with
          frames := update t.frames f (some { tf with vars := tf.vars.set idx t.nextCell }) }, .ok)
      | none => (t, .invalid)
    | none => (t, .invalid)
  | .getVarRef p idx access => t.get access (t.refAt p idx)
  | .putVarRef p idx val access => t.put access val (t.refAt p idx)
  | .closure f _ captures _ => t.newHolder f (captures.map Prod.fst) .object
  | .mappedArguments f argCount memory =>
    t.newHolder f ((List.range argCount).map (.local true)) memory.output
  | .makeRef f capture _ _ => t.newHolder f [capture] .object
  | .freeProperty p idx =>
    match t.objects p, t.refAt p idx with
    | some refs, some _ => ({ t with objects := update t.objects p (some (refs.set idx none)) }, .ok)
    | _, _ => (t, .invalid)
  | .freeObject p =>
    match t.objects p with
    | some _ => ({ t with objects := update t.objects p none }, .ok)
    | none => (t, .invalid)
  | .leave f =>
    match t.frames f with
    | some _ => ({ t with frames := update t.frames f none }, .ok)
    | none => (t, .invalid)

def step (t : Scopes V) (l : Label V) : Option (Scopes V × Output V) := some (t.perform l)

def new : Scopes V := ⟨0, fun _ => .undefined, 0, fun _ => none, 0, fun _ => none⟩

end Scopes
end IoQuickJS.Closure
