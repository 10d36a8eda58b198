import Mathlib.Logic.Function.Basic
import Mathlib.Order.Bounds.Basic
import IoQuickJS.DataView
import IoQuickJS.Library.Reach
import IoQuickJS.Bytecode.Opcode

/-!
# The stack size of a function

compute_stack_size explores the bytecode of a function from its first instruction, with the number
of values on the stack at each position, and takes the largest. What it should compute is said by
`StackConsistent` and `levels`, over all ways through the bytecode: that no instruction pops more
than there is, no way leaves the bytecode, and all ways to a position come with the same level.

The table of levels has 16 bits for a position and 0xffff for one that has not been explored, so
the answer can be trusted while it is smaller than that.
-/
namespace IoQuickJS

open Function (update update_self update_of_ne)

def jsStackSizeMax : Nat := 65536

/-- A `stack_level_tab` entry of a position that has not been explored. -/
def unexplored : Nat := 0xffff

structure StackSizeState where
  stackLenMax : Nat
  stackLevelTab : Nat → Nat

/-- The errors that are thrown, with the numbers in their messages. -/
inductive StackSizeError where
  | unconsistent (level stackLen : Nat) (pc : Int)
  | invalidOpcode (op : Nat) (pc : Int)
  | bufferOverflow (op : Nat) (pc : Int)
  | stackUnderflow (op : Nat) (pc : Int)
  | stackOverflow (op : Nat) (pc : Int)
  deriving DecidableEq, Repr

def StackSizeError.message : StackSizeError → String
  | .unconsistent level stackLen pc => s!"unconsistent stack size: {level} {stackLen} (pc={pc})"
  | .invalidOpcode op pc => s!"invalid opcode (op={op}, pc={pc})"
  | .bufferOverflow op pc => s!"bytecode buffer overflow (op={op}, pc={pc})"
  | .stackUnderflow op pc => s!"stack underflow (op={op}, pc={pc})"
  | .stackOverflow op pc => s!"stack overflow (op={op}, pc={pc})"

/-- Where an instruction goes: what is explored by a recursive call, with the level there, and
where the loop goes on. -/
structure Flow where
  branch : Option (Int × Nat)
  next : Option Int

section Bytecode

variable (wordsBigEndian : Bool) (bc : List UInt8)

/-- The 32-bit displacement at a position. -/
def displacement (pos : Nat) : Int := (getU32 wordsBigEndian bc pos).toInt32.toInt

def displacement16 (pos : Nat) : Int := (getU16 wordsBigEndian bc pos).toUInt16.toInt16.toInt

def displacement8 (pos : Nat) : Int := (bc.getD pos 0).toInt8.toInt

/-- The number of values an instruction pops. -/
def popCount (pos op : Nat) (oi : JSOpCode) : Nat :=
  match oi.fmt with
  | .npop | .npopU16 => oi.nPop + (getU16 wordsBigEndian bc (pos + 1)).toNat
  | .npopx => oi.nPop + (op - opcodeInfo.findIdx (·.id = .opCall0))
  | _ => oi.nPop

/-- The switch of `compute_stack_size_rec`; `stackLen` is the level after the instruction. -/
def flow (pos : Nat) (oi : JSOpCode) (stackLen : Nat) : Flow :=
  let posNext : Int := pos + oi.size
  match oi.id with
  | .opTailCall | .opTailCallMethod | .opReturn | .opReturnUndef | .opReturnAsync | .opThrow
  | .opThrowVar | .opRet => ⟨none, none⟩
  | .opGoto => ⟨none, some (pos + 1 + displacement wordsBigEndian bc (pos + 1))⟩
  | .opGoto16 => ⟨none, some (pos + 1 + displacement16 wordsBigEndian bc (pos + 1))⟩
  | .opGoto8 => ⟨none, some (pos + 1 + displacement8 bc (pos + 1))⟩
  | .opIfTrue8 | .opIfFalse8 =>
    ⟨some (pos + 1 + displacement8 bc (pos + 1), stackLen), some posNext⟩
  | .opIfTrue | .opIfFalse | .opCatch =>
    ⟨some (pos + 1 + displacement wordsBigEndian bc (pos + 1), stackLen), some posNext⟩
  | .opGosub =>
    ⟨some (pos + 1 + displacement wordsBigEndian bc (pos + 1), stackLen + 1), some posNext⟩
  | .opWithGetVar | .opWithDeleteVar =>
    ⟨some (pos + 5 + displacement wordsBigEndian bc (pos + 5), stackLen + 1), some posNext⟩
  | .opWithMakeRef | .opWithGetRef | .opWithGetRefUndef =>
    ⟨some (pos + 5 + displacement wordsBigEndian bc (pos + 5), stackLen + 2), some posNext⟩
  -- an instruction that has pushed a value leaves at least one
  | .opWithPutVar =>
    ⟨some (pos + 5 + displacement wordsBigEndian bc (pos + 5), stackLen - 1), some posNext⟩
  | _ => ⟨none, some posNext⟩

/-- The level `stackLen` is reached. -/
def StackSizeState.enter (s : StackSizeState) (op : Nat) (pos : Int) (stackLen : Nat) :
    Except StackSizeError StackSizeState :=
  if stackLen > s.stackLenMax then
    if stackLen > jsStackSizeMax then .error (.stackOverflow op pos)
    else .ok { s with stackLenMax := stackLen }
  else .ok s

/-- One pass of the loop: `none` when the position has been explored with the same level, otherwise
the opcode, where the instruction goes, and the level after it. -/
def visit (s : StackSizeState) (pos : Int) (op stackLen : Nat) :
    Except StackSizeError (Option (StackSizeState × Nat × Flow × Nat)) :=
  if ¬ (0 ≤ pos ∧ pos < bc.length) then .error (.bufferOverflow op pos)
  else
    let level := s.stackLevelTab pos.toNat
    if level ≠ unexplored then
      if level ≠ stackLen then .error (.unconsistent level stackLen pos) else .ok none
    else
      let s := { s with stackLevelTab := update s.stackLevelTab pos.toNat (stackLen % 2 ^ 16) }
      let op := (bc.getD pos.toNat 0).toNat
      match if op = 0 then none else shortOpcodeInfo op with
      | none => .error (.invalidOpcode op pos)
      | some oi =>
        if pos.toNat + oi.size > bc.length then .error (.bufferOverflow op pos)
        else
          let nPop := popCount wordsBigEndian bc pos.toNat op oi
          if stackLen < nPop then .error (.stackUnderflow op pos)
          else
            let stackLen := stackLen - nPop + oi.nPush
            match s.enter op pos stackLen with
            | .error e => .error e
            | .ok s => .ok (some (s, op, flow wordsBigEndian bc pos.toNat oi stackLen, stackLen))

/-- A recursive call of `compute_stack_size_rec`, from its first check. -/
def exploreBranch (explore : StackSizeState → Int → Nat → Nat →
    Option (Except StackSizeError StackSizeState)) (s : StackSizeState) (op : Nat) :
    Option (Int × Nat) → Option (Except StackSizeError StackSizeState)
  | none => some (.ok s)
  | some (target, level) =>
    match s.enter op target level with
    | .error e => some (.error e)
    | .ok s => explore s target op level

/-- The next pass of the loop, unless a recursive call has failed. -/
def exploreNext (explore : StackSizeState → Int → Nat → Nat →
    Option (Except StackSizeError StackSizeState)) (op stackLen : Nat) :
    Option (Except StackSizeError StackSizeState) → Option Int →
    Option (Except StackSizeError StackSizeState)
  | some (.ok s), some posNext => explore s posNext op stackLen
  | result, _ => result

/-- The loop of `compute_stack_size_rec`; `none` when the fuel does not suffice. -/
def computeStackSizeRec : Nat → StackSizeState → Int → Nat → Nat →
    Option (Except StackSizeError StackSizeState)
  | 0, _, _, _, _ => none
  | fuel + 1, s, pos, op, stackLen =>
    match visit wordsBigEndian bc s pos op stackLen with
    | .error e => some (.error e)
    | .ok none => some (.ok s)
    | .ok (some (s, op, fl, stackLen)) =>
      exploreNext (computeStackSizeRec fuel) op stackLen
        (exploreBranch (computeStackSizeRec fuel) s op fl.branch) fl.next

/-- `compute_stack_size` -/
def computeStackSize (fuel : Nat) : Option (Except StackSizeError Nat) :=
  (computeStackSizeRec wordsBigEndian bc fuel ⟨0, fun _ => unexplored⟩ 0 0 0).map fun r =>
    r.map StackSizeState.stackLenMax

/-! ## What it should compute -/

/-- The instruction at a position: its opcode, its entry in the table and what it pops. -/
def instruction (pos : Int) : Option (Nat × JSOpCode × Nat) :=
  if 0 ≤ pos ∧ pos < bc.length then
    let op := (bc.getD pos.toNat 0).toNat
    (if op = 0 then none else shortOpcodeInfo op).bind fun oi =>
      if pos.toNat + oi.size ≤ bc.length then
        some (op, oi, popCount wordsBigEndian bc pos.toNat op oi)
      else none
  else none

/-- The level after the instruction at a position, if there is one and it can pop its operands. -/
def levelAfter (c : Int × Nat) : Option Nat :=
  (instruction wordsBigEndian bc c.1).bind fun i =>
    if i.2.2 ≤ c.2 then some (c.2 - i.2.2 + i.2.1.nPush) else none

/-- The positions that can follow, with their levels. -/
def successors (c : Int × Nat) : List (Int × Nat) :=
  match instruction wordsBigEndian bc c.1, levelAfter wordsBigEndian bc c with
  | some (_, oi, _), some after =>
    let fl := flow wordsBigEndian bc c.1.toNat oi after
    fl.branch.toList ++ fl.next.toList.map fun pos => (pos, after)
  | _, _ => []

/-- A position is reached with a level, on some way through the bytecode. -/
def Reached (c : Int × Nat) : Prop :=
  Reach.Reachable (· = (0, 0)) (successors wordsBigEndian bc) c

/-- Every way through the bytecode stays in it, finds its operands on the stack, and comes to a
position with the level of the position. -/
structure StackConsistent : Prop where
  runs : ∀ c, Reached wordsBigEndian bc c → (levelAfter wordsBigEndian bc c).isSome
  unique : ∀ pos l l', Reached wordsBigEndian bc (pos, l) → Reached wordsBigEndian bc (pos, l') →
    l = l'

/-- The levels before and after the instructions that are reached. -/
def levels : Set Nat :=
  {n | ∃ c, Reached wordsBigEndian bc c ∧ (n = c.2 ∨ levelAfter wordsBigEndian bc c = some n)}

end Bytecode

end IoQuickJS
