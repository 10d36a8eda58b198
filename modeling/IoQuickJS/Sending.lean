import IoQuickJS.Runtime
import IoQuickJS.SocketText

/-!
# Building and sending a message

print and put convert their arguments one after the other while the message is being built, and
every conversion can run script code that calls print or put again. `Script` is such code, with
the results of its calls; the functions here keep the messages io_core has given out, and the
events that tell what became of them and of the C strings.

## Main result

* `send_allOrNothing`: a call sends one whole message or gives its message back, after the whole
  messages of the calls nested in it.
-/
namespace IoQuickJS.Sending

open Function (update update_self update_of_ne)
open Text (JSString)
open IoEncoding (appendByte appendByte_eq)

inductive SendFunction where
  | print
  | put
  deriving DecidableEq, Repr

/-- The script code that JS_ToCString runs to convert an argument. It returns a string, or `none`
when it throws or finds no memory, and goes on from a call of print or put with its result.
`thisValue` is the handle of the receiver, if that is a socket object; `newMessage` is whether
io_socket_new_message has a message, and `sendMessage` what io_socket_send_message returns. -/
inductive Script where
  | result (str : Option JSString)
  | send (fn : SendFunction) (thisValue : Option Nat) (newMessage : Bool)
      (sendMessage : List UInt8 → Bool) (argv : List Script) (next : JSValue → Script)

/-- What happens to messages and C strings, by their addresses. -/
inductive Event where
  | newMessage (m : Nat)
  | toCString (p : Nat)
  | freeCString (p : Nat)
  | sendMessage (handle m : Nat) (bytes : List UInt8)
  | unreference (m : Nat)
  deriving DecidableEq, Repr

/-- `encodings` are the messages that are being built, each with a reference of its call. -/
structure World where
  next : Nat
  encodings : Nat → Option (List UInt8)
  events : List Event

namespace World

/-- The content of a message changes. -/
def modify (s : World) (m : Nat) (f : List UInt8 → List UInt8) : World :=
  { s with encodings := update s.encodings m ((s.encodings m).map f) }

/-- `io_socket_new_message` -/
def ioSocketNewMessage (s : World) : World :=
  { s with
    next := s.next + 1
    encodings := update s.encodings s.next (some [])
    events := s.events ++ [.newMessage s.next] }

/-- `io_socket_send_message`, which takes the reference over. -/
def ioSocketSendMessage (s : World) (handle m : Nat) : World :=
  { s with
    encodings := update s.encodings m none
    events := s.events ++ [.sendMessage handle m ((s.encodings m).getD [])] }

/-- `unreference_io_encoding` -/
def unreferenceIoEncoding (s : World) (m : Nat) : World :=
  { s with
    encodings := update s.encodings m none
    events := s.events ++ [.unreference m] }

/-- The bytes of a C string are allocated. -/
def newCString (s : World) : World :=
  { s with next := s.next + 1, events := s.events ++ [.toCString s.next] }

/-- `JS_FreeCString` -/
def jsFreeCString (s : World) (p : Nat) : World :=
  { s with events := s.events ++ [.freeCString p] }

end World

/-- What print and put begin with: without a socket or a message they return undefined. -/
def withMessage (ioGetSocket : Nat → Bool) (s : World) (thisValue : Option Nat)
    (newMessage : Bool) (body : World → Nat → Nat → World × JSValue) : World × JSValue :=
  match thisValue with
  | none => (s, .undefined)
  | some handle =>
    if ioGetSocket handle && newMessage then body s.ioSocketNewMessage handle s.next
    else (s, .undefined)

section Functions

variable [IoEncoding]

mutual

/-- `JS_ToCString`: the C string and the string it was made from. -/
def jsToCString (ioGetSocket : Nat → Bool) (s : World) : Script → World × Option (Nat × JSString)
  | .result none => (s, none)
  | .result (some str) => (s.newCString, some (s.next, str))
  | .send fn thisValue newMessage sendMessage argv next =>
    match withMessage ioGetSocket s thisValue newMessage fun s handle m =>
      sendLoop ioGetSocket fn sendMessage handle m s 0 argv with
    | (s, ret) => jsToCString ioGetSocket s (next ret)

/-- The loop over the arguments from `i` on. put has neither the spaces nor the newline. -/
def sendLoop (ioGetSocket : Nat → Bool) (fn : SendFunction) (sendMessage : List UInt8 → Bool)
    (handle m : Nat) (s : World) (i : Nat) : List Script → World × JSValue
  | [] =>
    let s := if fn = .print then s.modify m (appendByte · 0x0a) else s
    (s.ioSocketSendMessage handle m, .bool (sendMessage ((s.encodings m).getD [])))
  | arg :: argv =>
    let s := if fn = .print ∧ i ≠ 0 then s.modify m (appendByte · 0x20) else s
    match jsToCString ioGetSocket s arg with
    | (s, some (p, str)) =>
      sendLoop ioGetSocket fn sendMessage handle m
        ((s.modify m (Text.appendArgument · str)).jsFreeCString p) (i + 1) argv
    | (s, none) => (s.unreferenceIoEncoding m, .exception)

end

/-- What print and put have in common. -/
def sendText (ioGetSocket : Nat → Bool) (fn : SendFunction) (s : World) (thisValue : Option Nat)
    (newMessage : Bool) (sendMessage : List UInt8 → Bool) (argv : List Script) : World × JSValue :=
  withMessage ioGetSocket s thisValue newMessage fun s handle m =>
    sendLoop ioGetSocket fn sendMessage handle m s 0 argv

/-- `js_io_socket_print` -/
def jsIoSocketPrint (ioGetSocket : Nat → Bool) := sendText ioGetSocket .print

/-- `js_io_socket_put` -/
def jsIoSocketPut (ioGetSocket : Nat → Bool) := sendText ioGetSocket .put

end Functions

/-! ## What the calls are for -/

/-- The message for the strings of the arguments: a segment for each of them, and for print the
spaces between these and a newline. -/
def SendFunction.text : SendFunction → List JSString → List UInt8
  | .print, strs => [0x20].intercalate (strs.map Text.sent) ++ [0x0a]
  | .put, strs => strs.flatMap Text.sent

/-- A message with the handle of its socket. -/
abbrev Message := Nat × List UInt8

/-- A call whose arguments have sent messages and given strings sends one message of all strings,
or nothing. -/
def outcome (ioGetSocket : Nat → Bool) (fn : SendFunction) (thisValue : Option Nat)
    (newMessage : Bool) (sendMessage : List UInt8 → Bool)
    (args : List Message × Option (List JSString)) : List Message × JSValue :=
  match thisValue with
  | none => ([], .undefined)
  | some handle =>
    if ioGetSocket handle && newMessage then
      match args.2 with
      | some strs => (args.1 ++ [(handle, fn.text strs)], .bool (sendMessage (fn.text strs)))
      | none => (args.1, .exception)
    else ([], .undefined)

mutual

/-- The messages that a script sends, and its result. -/
def convert (ioGetSocket : Nat → Bool) : Script → List Message × Option JSString
  | .result str => ([], str)
  | .send fn thisValue newMessage sendMessage argv next =>
    match outcome ioGetSocket fn thisValue newMessage sendMessage
      (convertAll ioGetSocket argv) with
    | (sent, ret) =>
      (sent ++ (convert ioGetSocket (next ret)).1, (convert ioGetSocket (next ret)).2)

/-- The messages that the conversions of the arguments send up to the first one that fails, and
the strings if none does. -/
def convertAll (ioGetSocket : Nat → Bool) : List Script → List Message × Option (List JSString)
  | [] => ([], some [])
  | arg :: argv =>
    match convert ioGetSocket arg with
    | (sent, some str) =>
      (sent ++ (convertAll ioGetSocket argv).1,
        (convertAll ioGetSocket argv).2.map (str :: ·))
    | (sent, none) => (sent, none)

end

theorem convertAll_length {ioGetSocket : Nat → Bool} {argv : List Script} {strs : List JSString}
    (h : (convertAll ioGetSocket argv).2 = some strs) : strs.length = argv.length := by
  induction argv generalizing strs with
  | nil =>
    obtain rfl : [] = strs := by simpa [convertAll] using h
    rfl
  | cons arg argv ih =>
    rw [convertAll] at h
    rcases hconv : convert ioGetSocket arg with ⟨sent, _ | str⟩
    · simp [hconv] at h
    · simp only [hconv] at h
      obtain ⟨rest, hrest, rfl⟩ := Option.map_eq_some_iff.mp h
      simp [ih hrest]

/-! ## The account of messages and C strings -/

/-- The address of a message or a C string. -/
def Event.id : Event → Nat
  | .newMessage m | .sendMessage _ m _ | .unreference m => m
  | .toCString p | .freeCString p => p

/-- Something is obtained that has to be given up. -/
def Event.opens : Event → Bool
  | .newMessage _ | .toCString _ => true
  | _ => false

/-- The second event gives up what the first has obtained: a message is sent or unreferenced, a C
string is freed. -/
def Event.closes : Event → Event → Bool
  | .newMessage m, .sendMessage _ m' _ | .newMessage m, .unreference m' => m = m'
  | .toCString p, .freeCString p' => p = p'
  | _, _ => false

/-- What has been sent. -/
def sentBy (events : List Event) : List Message :=
  events.filterMap fun
    | .sendMessage handle _ bytes => some (handle, bytes)
    | _ => none

/-- The events are about addresses from `lo` on and below `hi`, and everything they obtain they
give up exactly once. -/
structure Whole (lo hi : Nat) (events : List Event) : Prop where
  le : lo ≤ hi
  ids : ∀ e ∈ events, lo ≤ e.id ∧ e.id < hi
  closed : ∀ e ∈ events, e.opens → events.countP e.closes = 1

theorem sentBy_append (a b : List Event) : sentBy (a ++ b) = sentBy a ++ sentBy b :=
  List.filterMap_append ..

theorem Event.id_of_closes {e f : Event} (h : e.closes f) : f.id = e.id := by
  cases e <;> cases f <;> simp_all [Event.closes, Event.id]

theorem countP_closes_eq_zero {e : Event} {events : List Event}
    (h : ∀ f ∈ events, f.id ≠ e.id) : events.countP e.closes = 0 :=
  List.countP_eq_zero.mpr fun f hf hcloses => h f hf (Event.id_of_closes hcloses)

theorem Whole.nil (lo : Nat) : Whole lo lo [] :=
  ⟨Nat.le_refl _, by simp, by simp⟩

theorem Whole.append {lo mid hi : Nat} {a b : List Event} (ha : Whole lo mid a)
    (hb : Whole mid hi b) : Whole lo hi (a ++ b) where
  le := Nat.le_trans ha.le hb.le
  ids e he := by
    have hle := ha.le
    have hle' := hb.le
    rcases List.mem_append.mp he with h | h
    · have hid := ha.ids e h
      omega
    · have hid := hb.ids e h
      omega
  closed e he hopens := by
    rw [List.countP_append]
    rcases List.mem_append.mp he with h | h
    · have hid := ha.ids e h
      rw [ha.closed e h hopens, countP_closes_eq_zero fun f hf => ?_]
      have hother := hb.ids f hf
      omega
    · have hid := hb.ids e h
      rw [hb.closed e h hopens, countP_closes_eq_zero fun f hf => ?_]
      have hother := ha.ids f hf
      omega

/-- Something is obtained first and given up last. -/
theorem Whole.bracket {lo hi : Nat} {inner : List Event} (h : Whole (lo + 1) hi inner)
    {e f : Event} (he : e.id = lo) (hopens : e.opens) (hcloses : e.closes f) :
    Whole lo hi (e :: (inner ++ [f])) where
  le := Nat.le_of_lt h.le
  ids g hg := by
    have hle := h.le
    have hf := Event.id_of_closes hcloses
    simp only [List.mem_cons, List.mem_append, List.not_mem_nil, or_false] at hg
    rcases hg with rfl | hg | rfl
    · omega
    · have hid := h.ids g hg
      omega
    · omega
  closed g hg hg' := by
    have hnot : f.opens = false := by
      cases e <;> cases f <;> simp_all [Event.closes, Event.opens]
    have hself : e.closes e = false := by cases e <;> rfl
    have hf := Event.id_of_closes hcloses
    simp only [List.mem_cons, List.mem_append, List.not_mem_nil, or_false] at hg
    rcases hg with rfl | hg | rfl
    · have hinner : inner.countP g.closes = 0 := by
        refine countP_closes_eq_zero fun f' hf' => ?_
        have hid := h.ids f' hf'
        omega
      simp [hself, hinner, hcloses]
    · have hid := h.ids g hg
      have hfirst : g.closes e = false := by
        by_contra hc
        have hsame := Event.id_of_closes (by simpa using hc : g.closes e = true)
        omega
      have hlast : g.closes f = false := by
        by_contra hc
        have hsame := Event.id_of_closes (by simpa using hc : g.closes f = true)
        omega
      simp [hfirst, hlast, h.closed g hg hg']
    · simp [hnot] at hg'

/-! ## What a call does -/

/-- From `s` to `t` the listed events have happened, and the messages that were being built are
what they were. -/
structure Grows (s t : World) (new : List Event) : Prop where
  events : t.events = s.events ++ new
  encodings : ∀ m < s.next, t.encodings m = s.encodings m

theorem Grows.trans {s u t : World} {new new' : List Event} (h : Grows s u new)
    (h' : Grows u t new') (hle : s.next ≤ u.next) : Grows s t (new ++ new') where
  events := by rw [h'.events, h.events, List.append_assoc]
  encodings m hm := (h'.encodings m (Nat.lt_of_lt_of_le hm hle)).trans (h.encodings m hm)

section Calls

variable [IoEncoding] {ioGetSocket : Nat → Bool}

/-- The message for the strings from the argument `i` on, after what has been appended. -/
def SendFunction.finish : SendFunction → List UInt8 → Nat → List JSString → List UInt8
  | .print, encoding, i, strs => appendByte (Text.printLoop encoding i strs) 0x0a
  | .put, encoding, _, strs => strs.foldl Text.appendArgument encoding

theorem SendFunction.finish_zero (fn : SendFunction) (strs : List JSString) :
    fn.finish [] 0 strs = fn.text strs := by
  cases fn with
  | print => exact Text.jsIoSocketPrint_eq strs
  | put => exact Text.jsIoSocketPut_eq strs

/-- How the loop ends, by the strings of the arguments from `i` on: the last event of the call and
its result. -/
def SendFunction.ending (fn : SendFunction) (sendMessage : List UInt8 → Bool) (handle m : Nat)
    (encoding : List UInt8) (i : Nat) : Option (List JSString) → Event × JSValue
  | some strs =>
    (.sendMessage handle m (fn.finish encoding i strs),
      .bool (sendMessage (fn.finish encoding i strs)))
  | none => (.unreference m, .exception)

theorem SendFunction.ending_cons (fn : SendFunction) (sendMessage : List UInt8 → Bool)
    (handle m : Nat) (encoding : List UInt8) (i : Nat) (str : JSString)
    (strs : Option (List JSString)) :
    fn.ending sendMessage handle m encoding i (strs.map (str :: ·)) =
      fn.ending sendMessage handle m
        (Text.appendArgument
          (if fn = .print ∧ i ≠ 0 then appendByte encoding 0x20 else encoding) str)
        (i + 1) strs := by
  cases strs with
  | none => rfl
  | some strs =>
    cases fn with
    | print => simp [SendFunction.ending, SendFunction.finish, Text.printLoop]
    | put => simp [SendFunction.ending, SendFunction.finish]

/-- What a conversion does. A C string is the last thing it obtains, and left to the caller. -/
def Converts (ioGetSocket : Nat → Bool) (script : Script) : Prop :=
  ∀ s : World, ∃ inner, sentBy inner = (convert ioGetSocket script).1 ∧
    match jsToCString ioGetSocket s script with
    | (t, some (p, str)) =>
      (convert ioGetSocket script).2 = some str ∧ t.next = p + 1 ∧ Whole s.next p inner ∧
        Grows s t (inner ++ [.toCString p])
    | (t, none) =>
      (convert ioGetSocket script).2 = none ∧ Whole s.next t.next inner ∧ Grows s t inner

/-- What the loop of a call does to the message `m`. -/
def Loops (ioGetSocket : Nat → Bool) (argv : List Script) : Prop :=
  ∀ (fn : SendFunction) (sendMessage : List UInt8 → Bool) (handle m : Nat) (s : World) (i : Nat)
    (encoding : List UInt8), m < s.next → s.encodings m = some encoding →
    ∃ t inner last ret, sendLoop ioGetSocket fn sendMessage handle m s i argv = (t, ret) ∧
      (last, ret) =
        fn.ending sendMessage handle m encoding i (convertAll ioGetSocket argv).2 ∧
      sentBy inner = (convertAll ioGetSocket argv).1 ∧ Whole s.next t.next inner ∧
      t.events = s.events ++ (inner ++ [last]) ∧
      ∀ m' < s.next, m' ≠ m → t.encodings m' = s.encodings m'

/-- The last event of a call gives its message up, by sending it when all arguments have given
strings. -/
theorem SendFunction.ending_spec (fn : SendFunction) (sendMessage : List UInt8 → Bool)
    {handle : Nat} (m : Nat) (hsocket : ioGetSocket handle = true)
    (args : List Message × Option (List JSString)) :
    (Event.newMessage m).closes (fn.ending sendMessage handle m [] 0 args.2).1 ∧
      (args.1 ++ sentBy [(fn.ending sendMessage handle m [] 0 args.2).1],
        (fn.ending sendMessage handle m [] 0 args.2).2) =
          outcome ioGetSocket fn (some handle) true sendMessage args := by
  obtain ⟨sent, strs⟩ := args
  cases strs with
  | none => simp_all [SendFunction.ending, Event.closes, sentBy, outcome]
  | some strs =>
    simp_all [SendFunction.ending, SendFunction.finish_zero, Event.closes, sentBy, outcome]

/-- A call that gets a message gives it up last. -/
theorem sendText_message {argv : List Script} (h : Loops ioGetSocket argv) (fn : SendFunction)
    (s : World) (sendMessage : List UInt8 → Bool) {handle : Nat}
    (hsocket : ioGetSocket handle = true) :
    ∃ t inner last ret,
      sendText ioGetSocket fn s (some handle) true sendMessage argv = (t, ret) ∧
      (last, ret) =
        fn.ending sendMessage handle s.next [] 0 (convertAll ioGetSocket argv).2 ∧
      sentBy inner = (convertAll ioGetSocket argv).1 ∧ Whole (s.next + 1) t.next inner ∧
      Grows s t (.newMessage s.next :: (inner ++ [last])) := by
  obtain ⟨t, inner, last, ret, hloop, hending, hsent, hwhole, hevents, hencodings⟩ :=
    h fn sendMessage handle s.next s.ioSocketNewMessage 0 [] (Nat.lt_succ_self _)
      (by simp [World.ioSocketNewMessage])
  refine ⟨t, inner, last, ret, ?_, hending, hsent, hwhole, ?_, fun m hm => ?_⟩
  · simp [sendText, withMessage, hsocket, hloop]
  · simp [hevents, World.ioSocketNewMessage]
  · rw [hencodings m (Nat.lt_succ_of_lt hm) (Nat.ne_of_lt hm)]
    simp [World.ioSocketNewMessage, Nat.ne_of_lt hm]

/-- A call has sent what it is for, and nothing it has obtained is left. -/
theorem sendText_spec {argv : List Script} (h : Loops ioGetSocket argv) (fn : SendFunction)
    (s : World) (thisValue : Option Nat) (newMessage : Bool) (sendMessage : List UInt8 → Bool) :
    ∃ t new ret, sendText ioGetSocket fn s thisValue newMessage sendMessage argv = (t, ret) ∧
      (sentBy new, ret) = outcome ioGetSocket fn thisValue newMessage sendMessage
        (convertAll ioGetSocket argv) ∧
      Whole s.next t.next new ∧ Grows s t new := by
  have hnothing : Whole s.next s.next [] ∧ Grows s s [] :=
    ⟨.nil _, by simp, fun _ _ => rfl⟩
  cases thisValue with
  | none => exact ⟨s, [], .undefined, rfl, rfl, hnothing⟩
  | some handle =>
    by_cases hopen : (ioGetSocket handle && newMessage) = true
    · obtain ⟨hsocket, rfl⟩ := Bool.and_eq_true_iff.mp hopen
      obtain ⟨t, inner, last, ret, hcall, hending, hsent, hwhole, hgrows⟩ :=
        sendText_message h fn s sendMessage hsocket
      obtain ⟨hcloses, houtcome⟩ := fn.ending_spec sendMessage s.next hsocket
        (convertAll ioGetSocket argv)
      rw [← hending] at hcloses houtcome
      refine ⟨t, _, ret, hcall, ?_, hwhole.bracket rfl rfl hcloses, hgrows⟩
      rw [← houtcome, ← hsent, ← sentBy_append]
      rfl
    · refine ⟨s, [], .undefined, ?_, ?_, hnothing⟩
      · simp [sendText, withMessage, hopen]
      · simp [outcome, hopen, sentBy]

/-- The space between two arguments. -/
theorem space_spec (fn : SendFunction) (i : Nat) {s : World} {m : Nat} {encoding : List UInt8}
    (hencoding : s.encodings m = some encoding) :
    ∃ u, (if fn = .print ∧ i ≠ 0 then s.modify m (appendByte · 0x20) else s) = u ∧ u.next = s.next ∧
      u.events = s.events ∧ (∀ m' ≠ m, u.encodings m' = s.encodings m') ∧
      u.encodings m =
        some (if fn = .print ∧ i ≠ 0 then appendByte encoding 0x20 else encoding) := by
  refine ⟨_, rfl, ?_⟩
  split
  · exact ⟨rfl, rfl, fun m' hm' => update_of_ne hm' .., by simp [World.modify, hencoding]⟩
  · exact ⟨rfl, rfl, fun _ _ => rfl, hencoding⟩

/-- The end of the loop: the newline, and the message is sent. -/
theorem sendLoop_nil (fn : SendFunction) (sendMessage : List UInt8 → Bool) (handle i : Nat)
    {s : World} {m : Nat} {encoding : List UInt8} (hencoding : s.encodings m = some encoding) :
    ∃ t, sendLoop ioGetSocket fn sendMessage handle m s i [] =
        (t, .bool (sendMessage (fn.finish encoding i []))) ∧ t.next = s.next ∧
      t.events = s.events ++ [.sendMessage handle m (fn.finish encoding i [])] ∧
      ∀ m' ≠ m, t.encodings m' = s.encodings m' := by
  cases fn with
  | print =>
    refine ⟨(s.modify m (appendByte · 0x0a)).ioSocketSendMessage handle m, ?_, rfl, ?_,
      fun m' hm' => ?_⟩
    · simp [sendLoop, SendFunction.finish, Text.printLoop, World.modify, hencoding]
    · simp [World.ioSocketSendMessage, World.modify, SendFunction.finish, Text.printLoop, hencoding]
    · simp [World.ioSocketSendMessage, World.modify, hm']
  | put =>
    refine ⟨s.ioSocketSendMessage handle m, ?_, rfl, ?_, fun m' hm' => ?_⟩
    · simp [sendLoop, SendFunction.finish, hencoding]
    · simp [World.ioSocketSendMessage, SendFunction.finish, hencoding]
    · simp [World.ioSocketSendMessage, hm']

mutual

theorem converts : ∀ script : Script, Converts ioGetSocket script
  | .result none => fun s => ⟨[], rfl, rfl, .nil _, by simp, fun _ _ => rfl⟩
  | .result (some str) => fun s =>
    ⟨[], rfl, rfl, rfl, .nil _, rfl, fun _ _ => rfl⟩
  | .send fn thisValue newMessage sendMessage argv next => by
    intro s
    obtain ⟨u, first, ret, hcall, houtcome, hwhole, hgrows⟩ :=
      sendText_spec (loops argv) fn s thisValue newMessage sendMessage
    have hstep : jsToCString ioGetSocket s
        (.send fn thisValue newMessage sendMessage argv next) =
          jsToCString ioGetSocket u (next ret) := by
      unfold sendText at hcall
      rw [jsToCString, hcall]
    have hspec : convert ioGetSocket (.send fn thisValue newMessage sendMessage argv next) =
        (sentBy first ++ (convert ioGetSocket (next ret)).1,
          (convert ioGetSocket (next ret)).2) := by
      rw [convert, ← houtcome]
    obtain ⟨inner, hsent, hrest⟩ := converts (next ret) u
    rw [hstep, hspec]
    refine ⟨first ++ inner, by rw [sentBy_append, hsent], ?_⟩
    rcases hres : jsToCString ioGetSocket u (next ret) with ⟨t, _ | ⟨p, str⟩⟩
    · simp only [hres] at hrest ⊢
      obtain ⟨hnone, hwhole', hgrows'⟩ := hrest
      exact ⟨hnone, hwhole.append hwhole', hgrows.trans hgrows' hwhole.le⟩
    · simp only [hres] at hrest ⊢
      obtain ⟨hsome, hnext, hwhole', hgrows'⟩ := hrest
      refine ⟨hsome, hnext, hwhole.append hwhole', ?_⟩
      rw [List.append_assoc]
      exact hgrows.trans hgrows' hwhole.le

theorem loops : ∀ argv : List Script, Loops ioGetSocket argv
  | [] => by
    intro fn sendMessage handle m s i encoding hm hencoding
    obtain ⟨t, hloop, hnext, hevents, hothers⟩ :=
      @sendLoop_nil _ ioGetSocket fn sendMessage handle i s m encoding hencoding
    refine ⟨t, [], _, _, hloop, rfl, rfl, ?_, by simpa using hevents,
      fun m' _ hm' => hothers m' hm'⟩
    rw [hnext]
    exact .nil _
  | arg :: argv => by
    intro fn sendMessage handle m s i encoding hm hencoding
    obtain ⟨u, hspace, hnext, hevents, hothers, hu⟩ := space_spec fn i hencoding
    obtain ⟨inner, hsent, hconv⟩ := converts arg u
    rw [sendLoop, hspace, convertAll]
    rcases hres : jsToCString ioGetSocket u arg with ⟨t, _ | ⟨p, str⟩⟩
    · -- the conversion has failed
      simp only [hres] at hconv ⊢
      obtain ⟨hnone, hwhole, hgrows⟩ := hconv
      rcases hspec : convert ioGetSocket arg with ⟨sent, strs⟩
      obtain rfl : strs = none := by simpa [hspec] using hnone
      refine ⟨_, inner, .unreference m, _, rfl, rfl, by simpa [hspec] using hsent, ?_, ?_,
        fun m' hlt hm' => ?_⟩
      · simpa [World.unreferenceIoEncoding, hnext] using hwhole
      · simp [World.unreferenceIoEncoding, hgrows.events, hevents]
      · simp [World.unreferenceIoEncoding, hm', hgrows.encodings m' (hnext ▸ hlt), hothers m' hm']
    · simp only [hres] at hconv ⊢
      obtain ⟨hsome, hp, hwhole, hgrows⟩ := hconv
      rcases hspec : convert ioGetSocket arg with ⟨sent, strs⟩
      obtain rfl : strs = some str := by simpa [hspec] using hsome
      have hle := hwhole.le
      have ht : t.encodings m = u.encodings m := hgrows.encodings m (hnext ▸ hm)
      obtain ⟨v, inner', last, ret, hloop, hending, hsent', hwhole', hevents', hencodings'⟩ :=
        loops argv fn sendMessage handle m
          ((t.modify m (Text.appendArgument · str)).jsFreeCString p) (i + 1)
          (Text.appendArgument
            (if fn = .print ∧ i ≠ 0 then appendByte encoding 0x20 else encoding) str)
          (by simp only [World.jsFreeCString, World.modify]; omega)
          (by simp [World.jsFreeCString, World.modify, ht, hu])
      have hcstring : Whole p (p + 1) [.toCString p, .freeCString p] :=
        (Whole.nil (p + 1)).bracket rfl rfl (by simp [Event.closes])
      have hnext' : ((t.modify m (Text.appendArgument · str)).jsFreeCString p).next = p + 1 := hp
      rw [hnext'] at hwhole'
      refine ⟨v, inner ++ [.toCString p, .freeCString p] ++ inner', last, ret, hloop, ?_, ?_,
        hnext ▸ (hwhole.append hcstring).append hwhole', ?_, fun m' hlt hm' => ?_⟩
      · rw [hending, SendFunction.ending_cons]
      · rw [sentBy_append, sentBy_append, hsent, hsent', hspec]
        simp [sentBy]
      · rw [hevents']
        simp [World.jsFreeCString, World.modify, hgrows.events, hevents]
      · rw [hencodings' m' (by omega) hm']
        simp [World.jsFreeCString, World.modify, hm', hgrows.encodings m' (hnext ▸ hlt),
          hothers m' hm']

end

/-- A call of print or put that gets a message sends it whole, or sends nothing of it and gives
it back once; every message and C string obtained in the meantime is given up exactly once, and
the whole messages of nested calls have been sent before. -/
theorem send_allOrNothing (fn : SendFunction) (s : World) (sendMessage : List UInt8 → Bool)
    (argv : List Script) {handle : Nat} (hsocket : ioGetSocket handle = true) :
    ∃ t new ret, sendText ioGetSocket fn s (some handle) true sendMessage argv = (t, ret) ∧
      t.events = s.events ++ new ∧
      (ret = .exception → new.count (.unreference s.next) = 1 ∧
        (∀ h bytes, .sendMessage h s.next bytes ∉ new) ∧
        sentBy new = (convertAll ioGetSocket argv).1) ∧
      (ret ≠ .exception → ∃ strs, (convertAll ioGetSocket argv).2 = some strs ∧
        strs.length = argv.length ∧ .unreference s.next ∉ new ∧
        ∃ before, new = before ++ [.sendMessage handle s.next (fn.text strs)] ∧
          (∀ h bytes, .sendMessage h s.next bytes ∉ before) ∧
          sentBy before = (convertAll ioGetSocket argv).1) ∧
      ∀ e ∈ new, e.opens → new.countP e.closes = 1 := by
  obtain ⟨t, inner, last, ret, hcall, hending, hsent, hwhole, hgrows⟩ :=
    sendText_message (loops argv) fn s sendMessage hsocket
  have hcloses := (fn.ending_spec sendMessage s.next hsocket (convertAll ioGetSocket argv)).1
  rw [← hending] at hcloses
  have hother : ∀ e ∈ inner, e.id ≠ s.next := by
    intro e he
    have hid := (hwhole.ids e he).1
    omega
  have hnotSent : ∀ h bytes, .sendMessage h s.next bytes ∉ inner :=
    fun h bytes hmem => hother _ hmem rfl
  have hnotUnref : .unreference s.next ∉ inner := fun hmem => hother _ hmem rfl
  refine ⟨t, _, ret, hcall, hgrows.events, fun hret => ?_, fun hret => ?_,
    (hwhole.bracket rfl rfl hcloses).closed⟩
  · cases hstrs : (convertAll ioGetSocket argv).2 with
    | some strs => simp_all [SendFunction.ending]
    | none =>
      obtain ⟨rfl, -⟩ : last = .unreference s.next ∧ ret = .exception := by
        simpa [hstrs, SendFunction.ending] using hending
      refine ⟨?_, ?_, ?_⟩
      · simp [List.count_append, List.count_eq_zero.mpr hnotUnref]
      · simpa using hnotSent
      · simpa [sentBy] using hsent
  · cases hstrs : (convertAll ioGetSocket argv).2 with
    | none => simp_all [SendFunction.ending]
    | some strs =>
      obtain ⟨rfl, -⟩ : last = .sendMessage handle s.next (fn.text strs) ∧
          ret = .bool (sendMessage (fn.text strs)) := by
        simpa [hstrs, SendFunction.ending, SendFunction.finish_zero] using hending
      refine ⟨strs, rfl, convertAll_length hstrs, by simpa using hnotUnref,
        .newMessage s.next :: inner, rfl, ?_, ?_⟩
      · simpa using hnotSent
      · simpa [sentBy] using hsent

end Calls

/-- Script code that puts "b" on the socket 0 and returns "a". -/
def putting : Script :=
  .send .put (some 0) true (fun _ => true) [.result (some (.str8 [0x62]))]
    fun _ => .result (some (.str8 [0x61]))

/-- print of an object whose conversion calls put on the same socket, and of another string. -/
theorem send_allOrNothing_putting : ∃ t before,
    sendText (fun _ => true) .print ⟨0, fun _ => none, []⟩ (some 0) true (fun _ => true)
        [putting, .result (some (.str8 [0x63]))] = (t, .bool true) ∧
      t.events = before ++ [.sendMessage 0 0 [0x61, 0x20, 0x63, 0x0a]] ∧
      sentBy before = [(0, [0x62])] := by
  obtain ⟨t, new, ret, hcall, hevents, -, hsent, -⟩ :=
    @send_allOrNothing _ (fun _ => true) .print ⟨0, fun _ => none, []⟩ (fun _ => true)
      [putting, .result (some (.str8 [0x63]))] 0 rfl
  obtain rfl : ret = .bool true := by
    have hret : ret = (sendText (fun _ => true) .print ⟨0, fun _ => none, []⟩ (some 0) true
      (fun _ => true) [putting, .result (some (.str8 [0x63]))]).2 := by rw [hcall]
    exact hret
  obtain ⟨strs, hstrs, -, -, before, rfl, -, hbefore⟩ := hsent (by simp)
  have hbytes : SendFunction.print.text strs = [0x61, 0x20, 0x63, 0x0a] := by
    obtain rfl : [.str8 [0x61], .str8 [0x63]] = strs := by
      simpa [convertAll, convert, outcome, putting] using hstrs
    decide
  exact ⟨t, before, hcall, hbytes ▸ hevents, hbefore.trans (by decide)⟩

/-- The same with a string that cannot be converted in the second place: only "b" is sent. -/
example : (sendText (fun _ => true) .print ⟨0, fun _ => none, []⟩ (some 0) true (fun _ => true)
    [putting, .result none]).1.events =
      [.newMessage 0, .newMessage 1, .toCString 2, .freeCString 2, .sendMessage 0 1 [0x62],
        .toCString 3, .freeCString 3, .unreference 0] := by
  decide

end IoQuickJS.Sending
