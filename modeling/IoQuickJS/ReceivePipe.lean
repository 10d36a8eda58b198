import IoQuickJS.Library.Transition
import IoQuickJS.Socket

/-!
# Reading the receive pipe

What js_io_socket_read_bytes does to the pipe of its socket: which bytes it passes on, where it
stores them in between, and what it leaves unread.

## Main results

* `readBytes_lossless_iff`: a byte pipe is passed on unchanged exactly when its bytes fit into
  the local buffer.
* `receive_drained`: as long as no two messages wait for one event, nothing unread is left behind
  when no event is pending.
-/
namespace IoQuickJS

open Function (update update_self update_of_ne)

/-! ## The local buffer -/

/-- The indices that the loop of `js_io_socket_read_bytes` stores to, from `cursor` on. -/
def readBytesStores (cursor : Nat) : List UInt8 → List Nat
  | [] => []
  | _ :: bs => cursor :: readBytesStores (if cursor = 64 then 1 else cursor + 1) bs

/-- The chunks passed on for the bytes of a byte pipe are those bytes again, and no store leaves
the local buffer; `buffer` is what it holds on entry. -/
structure Lossless (buffer : Nat → UInt8) (waiting : List UInt8) : Prop where
  flatten : ((IoPipe.byte waiting).chunks buffer).flatten = waiting
  length : ∀ chunk ∈ (IoPipe.byte waiting).chunks buffer, 1 ≤ chunk.length ∧ chunk.length ≤ 64
  stores : ∀ i ∈ readBytesStores 0 waiting, i < 64

theorem readBytesLoop_short (buffer : Nat → UInt8) (cursor : Nat) (bs : List UInt8)
    (h : cursor + bs.length ≤ 64) :
    readBytesLoop buffer cursor bs =
      if 0 < cursor + bs.length then [(List.range cursor).map buffer ++ bs] else [] := by
  induction bs generalizing buffer cursor with
  | nil => simp [readBytesLoop]
  | cons b bs ih =>
    simp only [List.length_cons] at h
    have hcursor : cursor ≠ 64 := by omega
    have hkept : (List.range cursor).map (update buffer cursor b) =
        (List.range cursor).map buffer := by
      refine List.map_congr_left fun i hi => update_of_ne ?_ ..
      exact (List.mem_range.mp hi).ne
    simp only [readBytesLoop, hcursor, if_false]
    rw [ih _ _ (by omega)]
    simp [List.range_succ, hkept, show 0 < cursor + 1 + bs.length by omega]

theorem readBytesStores_short (cursor : Nat) (bs : List UInt8) (h : cursor + bs.length ≤ 64) :
    ∀ i ∈ readBytesStores cursor bs, i < 64 := by
  induction bs generalizing cursor with
  | nil => simp [readBytesStores]
  | cons b bs ih =>
    simp only [List.length_cons] at h
    have hcursor : cursor ≠ 64 := by omega
    simp only [readBytesStores, hcursor, if_false, List.forall_mem_cons]
    exact ⟨by omega, ih (cursor + 1) (by omega)⟩

/-- The byte that comes after a full buffer is stored behind it. -/
theorem readBytesStores_long (cursor : Nat) (bs : List UInt8) (hcursor : cursor ≤ 64)
    (h : 64 < cursor + bs.length) : 64 ∈ readBytesStores cursor bs := by
  induction bs generalizing cursor with
  | nil => simp at h; omega
  | cons b bs ih =>
    by_cases hfull : cursor = 64
    · simp [readBytesStores, hfull]
    · simp only [List.length_cons] at h
      simp only [readBytesStores, hfull, if_false, List.mem_cons]
      exact .inr (ih (cursor + 1) (by omega) (by omega))

theorem readBytes_lossless_iff (buffer : Nat → UInt8) (waiting : List UInt8) :
    Lossless buffer waiting ↔ waiting.length ≤ 64 := by
  constructor
  · intro h
    by_contra hlong
    have hstore := h.stores 64 (readBytesStores_long 0 waiting (by omega) (by omega))
    omega
  · intro hshort
    have hchunks := readBytesLoop_short buffer 0 waiting (by omega)
    refine ⟨?_, fun chunk hchunk => ?_, readBytesStores_short 0 waiting (by omega)⟩
    · rw [IoPipe.chunks, hchunks]
      cases waiting <;> simp
    · rw [IoPipe.chunks, hchunks] at hchunk
      split_ifs at hchunk with hpos
      · obtain rfl : chunk = waiting := by simpa using hchunk
        omega
      · cases hchunk

/-- Of 65 bytes the last is stored behind the buffer, and the first is passed on in its place. -/
theorem readBytes_lossy : ¬ ∀ buffer waiting, Lossless buffer waiting := by
  intro h
  have hstore := (h (fun _ => 0) (List.replicate 65 0)).stores 64 (by decide)
  omega

/-! ## What is left in the pipe -/

/-- The receive pipe of a socket with what waits in it, oldest first. -/
inductive ReceivePipe where
  | encoding (messages : List (List UInt8))
  | byte (bytes : List UInt8)
  deriving DecidableEq

namespace ReceivePipe

/-- The pipe as `js_io_socket_read_bytes` finds it. -/
def front : ReceivePipe → IoPipe
  | .encoding messages => .encoding messages.head?
  | .byte bytes => .byte bytes

/-- `io_byte_pipe_get_byte` -/
def ioBytePipeGetByte : List UInt8 → Option (UInt8 × List UInt8)
  | [] => none
  | b :: bytes => some (b, bytes)

/-- The bytes that the loop of `js_io_socket_read_bytes` leaves; `fuel` bounds its rounds. -/
def readByteLoop : Nat → List UInt8 → List UInt8
  | 0, bytes => bytes
  | fuel + 1, bytes =>
    match ioBytePipeGetByte bytes with
    | some (_, bytes) => readByteLoop fuel bytes
    | none => bytes

/-- What `js_io_socket_read_bytes` leaves in the pipe: of an encoding pipe it takes the oldest
message, a byte pipe it reads until no byte comes. -/
def readBytes : ReceivePipe → ReceivePipe
  | .encoding messages => .encoding messages.tail
  | .byte bytes => .byte (readByteLoop (bytes.length + 1) bytes)

/-- The messages that wait in an encoding pipe. -/
def messages : ReceivePipe → List (List UInt8)
  | .encoding messages => messages
  | .byte _ => []

/-- Nothing waits in the pipe. -/
def Drained : ReceivePipe → Prop
  | .encoding messages => messages = []
  | .byte bytes => bytes = []

theorem readByteLoop_eq_nil (fuel : Nat) (bytes : List UInt8) (h : bytes.length < fuel) :
    readByteLoop fuel bytes = [] := by
  induction fuel generalizing bytes with
  | zero => omega
  | succ fuel ih =>
    cases bytes with
    | nil => rfl
    | cons b bytes => exact ih bytes (by simpa using h)

end ReceivePipe

/-- The receive pipe of an open socket and whether its `received_data_available` event is
pending. -/
structure ReceiveState where
  pipe : ReceivePipe
  pending : Bool

inductive ReceiveLabel where
  | message (m : List UInt8)
  | bytes (bs : List UInt8)
  | deliver

/-- Data is added at the tail of the pipe and makes the event pending, once. -/
def receiveStep (s : ReceiveState) : ReceiveLabel → Option ReceiveState
  | .message m =>
    match s.pipe with
    | .encoding messages => some ⟨.encoding (messages ++ [m]), true⟩
    | .byte _ => none
  | .bytes bs =>
    match s.pipe with
    | .encoding _ => none
    | .byte bytes => some ⟨.byte (bytes ++ bs), true⟩
  | .deliver => if s.pending then some ⟨s.pipe.readBytes, false⟩ else none

/-- No data is unread while no event is pending. -/
def NotStranded (s : ReceiveState) : Prop := s.pending = false → s.pipe.Drained

/-- No event is delivered for more than one message. -/
def OneAtATime (s : ReceiveState) : ReceiveLabel → Prop
  | .deliver => s.pipe.messages.length ≤ 1
  | .message _ | .bytes _ => True

instance (s : ReceiveState) : ∀ l, Decidable (OneAtATime s l)
  | .deliver => inferInstanceAs (Decidable (s.pipe.messages.length ≤ 1))
  | .message _ | .bytes _ => inferInstanceAs (Decidable True)

theorem ReceivePipe.readBytes_drained_iff (pipe : ReceivePipe) :
    pipe.readBytes.Drained ↔ pipe.messages.length ≤ 1 := by
  cases pipe with
  | encoding messages =>
    rw [readBytes, Drained, ReceivePipe.messages, ← List.length_eq_zero_iff, List.length_tail]
    omega
  | byte bytes =>
    simpa [readBytes, Drained, messages] using
      readByteLoop_eq_nil (bytes.length + 1) bytes (Nat.lt_succ_self _)

/-- A step strands data exactly when it delivers one event for several messages. -/
theorem receiveStep_notStranded {s t : ReceiveState} {l : ReceiveLabel}
    (hstep : receiveStep s l = some t) : NotStranded t ↔ OneAtATime s l := by
  cases l with
  | message m =>
    simp only [receiveStep] at hstep
    split at hstep
    · obtain rfl := Option.some.inj hstep
      simp [NotStranded, OneAtATime]
    · cases hstep
  | bytes bs =>
    simp only [receiveStep] at hstep
    split at hstep
    · cases hstep
    · obtain rfl := Option.some.inj hstep
      simp [NotStranded, OneAtATime]
  | deliver =>
    simp only [receiveStep] at hstep
    split_ifs at hstep
    obtain rfl := Option.some.inj hstep
    simp [NotStranded, OneAtATime, s.pipe.readBytes_drained_iff]

/-- The state after `js_io_socket_open`, with an empty pipe of either kind. -/
def opened (pipe : ReceivePipe) : ReceiveState := ⟨pipe, false⟩

/-- In every run in which no event is delivered for more than one message, nothing received is
left unread when no event is pending. -/
theorem receive_drained {pipe : ReceivePipe} {ls : List ReceiveLabel} {s : ReceiveState}
    (hempty : pipe.Drained) (hone : Transition.Meets receiveStep OneAtATime (opened pipe) ls)
    (hrun : Transition.run receiveStep (opened pipe) ls = some s) : NotStranded s :=
  Transition.run_invariant (fun _ => hempty) hone
    (fun _ _ _ _ hl hstep => (receiveStep_notStranded hstep).mpr hl) hrun

/-- Two messages, each with an event of its own. -/
theorem receive_drained_twoEvents :
    ∃ s, Transition.run receiveStep (opened (.encoding []))
      [.message [104], .deliver, .message [105], .deliver] = some s ∧ NotStranded s :=
  ⟨_, rfl, @receive_drained (.encoding []) [.message [104], .deliver, .message [105], .deliver] _
    rfl (by decide) rfl⟩

/-- Two messages arrive before the event is delivered, and the second stays in the pipe. -/
theorem receive_stranded : ¬ ∀ ls s,
    Transition.run receiveStep (opened (.encoding [])) ls = some s → NotStranded s := by
  intro h
  have hleft := h [.message [104], .message [105], .deliver] ⟨.encoding [[105]], false⟩ rfl rfl
  cases hleft

end IoQuickJS
