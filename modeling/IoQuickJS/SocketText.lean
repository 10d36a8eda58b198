import IoQuickJS.ReceivePipe
import IoQuickJS.Text

/-!
# Text over a socket

What put and print send for strings, and what the on_receive callback gets to see of a stream of
bytes. Both go through UTF-8: a message carries the encoding of the strings up to their first NUL,
and every chunk received is decoded on its own.

## Main results

* `put_faithful_iff`: put and print send exactly the strings they are given when none of these
  contains a NUL.
* `reception_ungrouped`: the text received does not depend on the grouping of the bytes as long as
  no character is divided between two events.
-/
namespace IoQuickJS

/-- The messages of io_core, by the bytes they hold, and what appending to one does. -/
class IoEncoding where
  /-- `io_encoding_append_byte` -/
  appendByte : List UInt8 → UInt8 → List UInt8
  /-- `io_encoding_append_string` -/
  appendString : List UInt8 → List UInt8 → Nat → List UInt8
  appendByte_eq : ∀ encoding byte, appendByte encoding byte = encoding ++ [byte]
  appendString_eq : ∀ encoding str length, length ≤ str.length →
    appendString encoding str length = encoding ++ str.take length

instance : IoEncoding where
  appendByte encoding byte := encoding ++ [byte]
  appendString encoding str length := encoding ++ str.take length
  appendByte_eq _ _ := rfl
  appendString_eq _ _ _ _ := rfl

namespace Text

open Utf
open IoEncoding (appendByte appendString appendByte_eq appendString_eq)

/-! ## Sending -/

/-- `strlen` of a C string whose bytes are followed by a zero. -/
def strlen (str : List UInt8) : Nat := (str.takeWhile (· ≠ 0)).length

/-- The complete encoding of a string. -/
def JSString.utf8 (str : JSString) : List UInt8 := (codePoints str.units).flatMap Utf.utf8

/-- What is appended for one argument. -/
def sent (str : JSString) : List UInt8 := str.utf8.takeWhile (· ≠ 0)

theorem strlen_le (str : List UInt8) : strlen str ≤ str.length :=
  (List.takeWhile_prefix _).length_le

theorem take_strlen (str : List UInt8) : str.take (strlen str) = cString str :=
  (List.prefix_iff_eq_take.mp (List.takeWhile_prefix _)).symm

theorem sent_isPrefix (str : JSString) : sent str <+: str.utf8 := List.takeWhile_prefix _

theorem sent_eq_iff (str : JSString) : sent str = str.utf8 ↔ 0 ∉ str.units := by
  rw [← zero_mem_text_iff, sent, List.takeWhile_eq_self_iff]
  constructor
  · intro h hzero
    simpa using h 0 hzero
  · intro h b hb
    simpa using fun hzero : b = 0 => h (hzero ▸ hb)

/-- What is cut off of one argument is missing in the message. -/
theorem sent_flatMap_eq_iff (argv : List JSString) :
    argv.flatMap sent = argv.flatMap JSString.utf8 ↔ ∀ str ∈ argv, sent str = str.utf8 := by
  have hle : ∀ argv : List JSString,
      (argv.flatMap sent).length ≤ (argv.flatMap JSString.utf8).length := by
    intro argv
    induction argv with
    | nil => simp
    | cons str argv ih =>
      have hstr := (sent_isPrefix str).length_le
      simp only [List.flatMap_cons, List.length_append]
      omega
  induction argv with
  | nil => simp
  | cons str argv ih =>
    rw [List.forall_mem_cons]
    constructor
    · intro h
      have hlength := congrArg List.length h
      simp only [List.flatMap_cons, List.length_append] at h hlength
      have hstr := (sent_isPrefix str).length_le
      have hrest := hle argv
      obtain ⟨hsent, hsents⟩ := List.append_inj h (by omega)
      exact ⟨hsent, ih.mp hsents⟩
    · rintro ⟨hstr, hrest⟩
      rw [List.flatMap_cons, List.flatMap_cons, hstr, ih.mpr hrest]

theorem flatMap_utf8 (argv : List JSString) : argv.flatMap JSString.utf8 =
    (argv.flatMap fun str => codePoints str.units).flatMap Utf.utf8 := by
  rw [List.flatMap_assoc]
  rfl

theorem flatMap_units (argv : List JSString) : argv.flatMap JSString.units =
    (argv.flatMap fun str => codePoints str.units).flatMap utf16 := by
  rw [List.flatMap_assoc]
  simp only [utf16_codePoints]

section Messages

variable [IoEncoding]

/-- One round of the loops of put and print. -/
def appendArgument (encoding : List UInt8) (arg : JSString) : List UInt8 :=
  let str := jsToCString arg
  appendString encoding str (strlen str)

/-- The message of `js_io_socket_put`. -/
def jsIoSocketPut (argv : List JSString) : List UInt8 := argv.foldl appendArgument []

/-- The loop of `js_io_socket_print` from argument `i` on. -/
def printLoop (encoding : List UInt8) : Nat → List JSString → List UInt8
  | _, [] => encoding
  | i, arg :: argv =>
    printLoop (appendArgument (if i ≠ 0 then appendByte encoding 0x20 else encoding) arg) (i + 1)
      argv

/-- The message of `js_io_socket_print`. -/
def jsIoSocketPrint (argv : List JSString) : List UInt8 := appendByte (printLoop [] 0 argv) 0x0a

/-- What put and print send is the text of their arguments, and the receiver of what put sends
gets the strings back. -/
structure Faithful (argv : List JSString) : Prop where
  put : jsIoSocketPut argv = argv.flatMap JSString.utf8
  received : jsNewStringLen (jsIoSocketPut argv) = some (argv.flatMap JSString.units)
  print : jsIoSocketPrint argv = [0x20].intercalate (argv.map JSString.utf8) ++ [0x0a]

theorem appendArgument_eq (encoding : List UInt8) (arg : JSString) :
    appendArgument encoding arg = encoding ++ sent arg := by
  rw [appendArgument, appendString_eq _ _ _ (strlen_le _), take_strlen, jsToCString_utf8]
  rfl

theorem jsIoSocketPut_eq (argv : List JSString) : jsIoSocketPut argv = argv.flatMap sent := by
  have hfold : ∀ encoding : List UInt8,
      argv.foldl appendArgument encoding = encoding ++ argv.flatMap sent := by
    induction argv with
    | nil => simp
    | cons arg argv ih =>
      intro encoding
      rw [List.foldl_cons, ih, appendArgument_eq, List.append_assoc, List.flatMap_cons]
  exact hfold []

theorem printLoop_succ (encoding : List UInt8) (i : Nat) (argv : List JSString) :
    printLoop encoding (i + 1) argv = encoding ++ argv.flatMap fun arg => 0x20 :: sent arg := by
  induction argv generalizing encoding i with
  | nil => simp [printLoop]
  | cons arg argv ih => simp [printLoop, ih, appendArgument_eq, appendByte_eq]

theorem jsIoSocketPrint_eq (argv : List JSString) :
    jsIoSocketPrint argv = [0x20].intercalate (argv.map sent) ++ [0x0a] := by
  have hjoin : ∀ str : JSString, [0x20].intercalate ((str :: argv.tail).map sent) =
      sent str ++ argv.tail.flatMap fun arg => 0x20 :: sent arg := by
    generalize argv.tail = rest
    induction rest with
    | nil => simp
    | cons arg rest ih =>
      intro str
      have h := ih arg
      simp only [List.map_cons] at h ⊢
      rw [List.intercalate_cons_cons, h]
      simp
  rw [jsIoSocketPrint, appendByte_eq]
  cases argv with
  | nil => rfl
  | cons arg argv =>
    rw [printLoop, printLoop_succ, appendArgument_eq]
    exact congrArg (· ++ [0x0a]) (hjoin arg).symm

/-- Put and print send what they are given exactly when no argument contains a NUL and the text
does not start with more ASCII characters than a string can hold. -/
theorem put_faithful_iff (argv : List JSString) : Faithful argv ↔
    (∀ str ∈ argv, 0 ∉ str.units) ∧
      ((argv.flatMap JSString.utf8).takeWhile isAscii).length ≤ jsStringLenMax := by
  constructor
  · intro h
    have hput := h.put
    rw [jsIoSocketPut_eq, sent_flatMap_eq_iff] at hput
    refine ⟨fun str hstr => (sent_eq_iff str).mp (hput str hstr), ?_⟩
    by_contra hlong
    have hreceived := h.received
    rw [h.put, jsNewStringLen_eq, if_pos (by omega)] at hreceived
    cases hreceived
  · rintro ⟨hnul, hlong⟩
    have hsent : ∀ str ∈ argv, sent str = str.utf8 :=
      fun str hstr => (sent_eq_iff str).mpr (hnul str hstr)
    have hput : jsIoSocketPut argv = argv.flatMap JSString.utf8 := by
      rw [jsIoSocketPut_eq, sent_flatMap_eq_iff]
      exact hsent
    refine ⟨hput, ?_, ?_⟩
    · have hcs : ∀ c ∈ argv.flatMap fun str => codePoints str.units, c < 0x110000 := by
        intro c hc
        obtain ⟨str, -, hstr⟩ := List.mem_flatMap.mp hc
        exact codePoints_lt str.units c hstr
      rw [hput, flatMap_utf8, flatMap_units]
      exact jsNewStringLen_utf8 hcs (flatMap_utf8 argv ▸ hlong)
    · rw [jsIoSocketPrint_eq, List.map_congr_left hsent]

end Messages

/-- A string that ends at a NUL for the receiver. -/
theorem put_unfaithful : ¬ ∀ argv, Faithful argv := by
  intro h
  have hput := (h [.str8 [0x61, 0, 0x62]]).put
  revert hput
  decide

/-! ## Receiving -/

/-- The text that the on_receive callback is passed for the bytes of successive events; `buffer i`
is what the local buffer holds at event `i`. -/
def received : (Nat → Nat → UInt8) → List (List UInt8) → List UInt16
  | _, [] => []
  | buffer, bytes :: events =>
    (((IoPipe.byte bytes).chunks (buffer 0)).flatMap fun chunk => (jsNewStringLen chunk).getD []) ++
      received (fun i => buffer (i + 1)) events

/-- The encoding of a text. -/
def encoded (text : List Char) : List UInt8 := text.flatMap String.utf8EncodeChar

/-- The code units of a text. -/
def decoded (text : List Char) : List UInt16 := text.flatMap fun c => utf16 c.toNat

/-- A way to cut a text into receive events. -/
structure Grouping (text : List Char) (events : List (List UInt8)) : Prop where
  flatten : events.flatten = encoded text
  nonempty : ∀ bytes ∈ events, bytes ≠ []
  length : ∀ bytes ∈ events, bytes.length ≤ 64

/-- No character is divided between two events. -/
def WholeCharacters (events : List (List UInt8)) : Prop :=
  ∀ bytes ∈ events, ∃ text, bytes = encoded text

theorem encoded_eq (text : List Char) : encoded text = (text.map Char.toNat).flatMap Utf.utf8 := by
  rw [List.flatMap_map]
  exact congrArg text.flatMap (funext fun c => (utf8_char c).symm)

theorem char_lt (text : List Char) : ∀ c ∈ text.map Char.toNat, c < 0x110000 := by
  intro c hc
  obtain ⟨ch, -, rfl⟩ := List.mem_map.mp hc
  rcases ch.valid with h | ⟨-, h⟩
  · exact h.trans (by decide)
  · exact h

theorem newStringLoop_encoded (text : List Char) :
    newStringLoop (encoded text).length (encoded text) = decoded text := by
  rw [encoded_eq, newStringLoop_utf8 (char_lt text) _ (Nat.le_refl _), List.flatMap_map]
  rfl

theorem received_cons (buffer : Nat → Nat → UInt8) {bytes : List UInt8}
    (events : List (List UInt8)) (hnonempty : bytes ≠ []) (hlength : bytes.length ≤ 64) :
    received buffer (bytes :: events) =
      newStringLoop bytes.length bytes ++ received (fun i => buffer (i + 1)) events := by
  have hpos := List.length_pos_iff.mpr hnonempty
  have hchunks : (IoPipe.byte bytes).chunks (buffer 0) = [bytes] := by
    rw [IoPipe.chunks, readBytesLoop_short (buffer 0) 0 bytes (by omega), if_pos (by omega)]
    rfl
  have hascii : ¬ jsStringLenMax < (bytes.takeWhile isAscii).length := by
    have hle := (List.takeWhile_prefix isAscii (l := bytes)).length_le
    unfold jsStringLenMax
    omega
  simp [received, hchunks, jsNewStringLen_eq, hascii]

theorem received_whole {events : List (List UInt8)} (hwhole : WholeCharacters events)
    (hnonempty : ∀ bytes ∈ events, bytes ≠ []) (hlength : ∀ bytes ∈ events, bytes.length ≤ 64)
    (buffer : Nat → Nat → UInt8) :
    ∃ text, events.flatten = encoded text ∧ received buffer events = decoded text := by
  induction events generalizing buffer with
  | nil => exact ⟨[], rfl, rfl⟩
  | cons bytes events ih =>
    rw [List.forall_mem_cons] at hnonempty hlength
    obtain ⟨⟨text, rfl⟩, hevents⟩ := List.forall_mem_cons.mp hwhole
    obtain ⟨rest, hflatten, hrest⟩ := ih hevents hnonempty.2 hlength.2 fun i => buffer (i + 1)
    refine ⟨text ++ rest, ?_, ?_⟩
    · simp [hflatten, encoded]
    · rw [received_cons buffer events hnonempty.1 hlength.1, hrest, newStringLoop_encoded]
      simp [decoded]

/-- Two groupings of a text between whose events no character is divided are received as the same
text, the decoding of all of it. -/
theorem reception_ungrouped {text : List Char} {events events' : List (List UInt8)}
    (h : Grouping text events) (h' : Grouping text events') (hwhole : WholeCharacters events)
    (hwhole' : WholeCharacters events') (buffer buffer' : Nat → Nat → UInt8) :
    received buffer events = received buffer' events' ∧ received buffer events = decoded text := by
  have hdecoded : ∀ (events : List (List UInt8)) (buffer : Nat → Nat → UInt8),
      Grouping text events → WholeCharacters events → received buffer events = decoded text := by
    intro events buffer h hwhole
    obtain ⟨read, hflatten, hread⟩ := received_whole hwhole h.nonempty h.length buffer
    rw [hread, ← newStringLoop_encoded read, ← newStringLoop_encoded text, ← hflatten, h.flatten]
  exact ⟨(hdecoded events buffer h hwhole).trans (hdecoded events' buffer' h' hwhole').symm,
    hdecoded events buffer h hwhole⟩

theorem reception_ungrouped_euro :
    received (fun _ _ => 0) [[0x61], [0xe2, 0x82, 0xac]] =
      received (fun _ _ => 0) [[0x61, 0xe2, 0x82, 0xac]] ∧
    received (fun _ _ => 0) [[0x61], [0xe2, 0x82, 0xac]] = decoded ['a', '€'] := by
  have h : ∀ events : List (List UInt8), events.flatten = [0x61, 0xe2, 0x82, 0xac] →
      (∀ bytes ∈ events, bytes ≠ []) → (∀ bytes ∈ events, bytes.length ≤ 64) →
      Grouping ['a', '€'] events := fun events hflatten hnonempty hlength =>
    ⟨hflatten.trans (by decide), hnonempty, hlength⟩
  refine reception_ungrouped (h _ rfl (by decide) (by decide)) (h _ rfl (by decide) (by decide))
    ?_ ?_ _ _
  · simp only [WholeCharacters, List.forall_mem_cons]
    exact ⟨⟨['a'], by decide⟩, ⟨['€'], by decide⟩, by simp⟩
  · simp only [WholeCharacters, List.forall_mem_cons]
    exact ⟨⟨['a', '€'], by decide⟩, by simp⟩

/-- The two bytes of one character arrive with two events. -/
theorem reception_grouped : ¬ ∀ text events events', Grouping text events →
    Grouping text events' → ∀ buffer buffer',
      received buffer events = received buffer' events' ∧
        received buffer events = decoded text := by
  intro h
  have hsame := (h ['é'] [[0xc3], [0xa9]] [[0xc3, 0xa9]] ⟨by decide, by decide, by decide⟩
    ⟨by decide, by decide, by decide⟩ (fun _ _ => 0) fun _ _ => 0).1
  revert hsame
  decide

end Text

end IoQuickJS
