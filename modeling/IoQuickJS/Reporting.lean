import IoQuickJS.Library.Account
import IoQuickJS.Runtime
import IoQuickJS.SocketText

/-!
# Reporting an error

io_js_dump_error and its callers. The reporter runs script code three times: to convert the thrown
value, to get its stack property, and to convert that. `Script` is such code as far as it matters
here: what it throws, what it catches, and where it prints.

The events tell what becomes of messages, C strings and references to values; a primitive counts
as a value with a reference, except null: `current_exception` is JS_NULL when nothing is pending,
so a thrown null is as good as nothing.

## Main result

* `report_consumes_iff`: after a report nothing is pending and everything has been given up exactly
  when the last exception that the script code of the report throws is caught or is null.
-/
namespace IoQuickJS.Reporting

open IoEncoding (appendByte)
open Text (JSString)

mutual

/-- A run of script code. A throw goes to the handler `caught`, which takes the exception, or ends
the run. `drops` is a call that throws and yet returns no exception, as js_io_socket_print does
with another this value. `newMessage` is whether io_socket_new_message has a message. -/
inductive Script where
  | done
  | throw (e : Value) (caught : Option Script)
  | drops (e : Value) (next : Script)
  | print (newMessage : Bool) (argv : List Value) (next : Script) (caught : Option Script)

/-- A value as the reporter sees it: whether it is an object of class Error, the code that
converts it to the string `str`, the code that gets its stack property, and its value. A symbol
is a value whose conversion throws. -/
inductive Value where
  | undefined
  | null
  | other (isError : Bool) (convert : Script) (str : JSString) (getStack : Script) (stack : Value)

end

/-- A string of ASCII characters. -/
def ascii (s : String) : JSString := .str8 (s.toList.map fun c => UInt8.ofNat c.toNat)

inductive Event where
  | newMessage (m : Nat)
  | sendMessage (m : Nat) (bytes : List UInt8)
  | toCString (p : Nat)
  | freeCString (p : Nat)
  | newValue (p : Nat)
  | freeValue (p : Nat)
  | printf (format : String) (arg : Option JSString)
  deriving DecidableEq

/-- The pending exception is the value and the reference that is kept for it; `none` is JS_NULL. -/
structure World where
  next : Nat
  currentException : Option (Nat × Value)
  events : List Event

namespace World

/-- A message, a C string or a reference comes into being, or goes. -/
def obtain (s : World) (f : Nat → Event) : World :=
  { s with next := s.next + 1, events := s.events ++ [f s.next] }

def log (s : World) (e : Event) : World := { s with events := s.events ++ [e] }

/-- `JS_FreeValue` of `current_exception`. -/
def freeException (s : World) : World :=
  match s.currentException with
  | some (old, _) => s.log (.freeValue old)
  | none => s

/-- `JS_Throw` with a new value. -/
def jsThrow (s : World) : Value → World
  | .null => { s.freeException with currentException := none }
  | e => { (s.obtain .newValue).freeException with currentException := some (s.next, e) }

/-- `JS_GetException`, also where the interpreter goes to a handler. -/
def jsGetException (s : World) : World × Option (Nat × Value) :=
  ({ s with currentException := none }, s.currentException)

/-- A handler takes the exception and drops it in the end. -/
def jsCatch (s : World) : World :=
  match s.jsGetException with
  | (s, some (p, _)) => s.log (.freeValue p)
  | (s, none) => s

end World

/-- What `io_quickjs_print` begins with: without a message there is nothing to do. -/
def withMessage (s : World) (newMessage : Bool) (body : World → Nat → World × Bool) :
    World × Bool :=
  if newMessage then body (s.obtain .newMessage) s.next else (s, true)

section Functions

variable [IoEncoding]

mutual

/-- The interpreter; the result is whether the code comes to its end without an exception. -/
def run (s : World) : Script → World × Bool
  | .done => (s, true)
  | .throw e caught => unwind (s.jsThrow e) caught
  | .drops e next => run (s.jsThrow e) next
  | .print newMessage argv next caught =>
    match withMessage s newMessage fun s m => printLoop s m [] 0 argv with
    | (s, true) => run s next
    | (s, false) => unwind s caught

/-- The interpreter at its label `exception`. -/
def unwind (s : World) : Option Script → World × Bool
  | none => (s, false)
  | some handler => run s.jsCatch handler

/-- `JS_ToCString`: the C string and the string it was made from. -/
def jsToCString (s : World) : Value → World × Option (Nat × JSString)
  | .undefined => (s.obtain .toCString, some (s.next, ascii "undefined"))
  | .null => (s.obtain .toCString, some (s.next, ascii "null"))
  | .other _ convert str _ _ =>
    match run s convert with
    | (s, true) => (s.obtain .toCString, some (s.next, str))
    | (s, false) => (s, none)

/-- The loop of `io_quickjs_print` from argument `i` on; `print` is the content of the message. The
message is sent on both ways out. -/
def printLoop (s : World) (m : Nat) (print : List UInt8) (i : Nat) : List Value → World × Bool
  | [] => (s.log (.sendMessage m print), true)
  | arg :: argv =>
    let print := if i ≠ 0 then appendByte print 0x20 else print
    match jsToCString s arg with
    | (s, some (p, str)) =>
      printLoop (s.log (.freeCString p)) m (Text.appendArgument print str) (i + 1) argv
    | (s, none) => (s.log (.sendMessage m print), false)

end

/-- `io_quickjs_print`; the result is whether it returns no exception. -/
def ioQuickjsPrint (s : World) (newMessage : Bool) (argv : List Value) : World × Bool :=
  withMessage s newMessage fun s m => printLoop s m [] 0 argv

/-- The part of `io_js_dump_error` on the value of the stack property, which has been got. -/
def dumpStack (s : World) : Value → World
  | .undefined => s
  | val =>
    let p := s.next
    let s := s.obtain .newValue
    let s := match jsToCString s val with
      | (s, some (stack, str)) =>
        (s.log (.printf "%s\n" (some str))).log (.freeCString stack)
      | (s, none) => s.log (.printf "%s\n" none)
    s.log (.freeValue p)

/-- `io_js_dump_error` between taking the exception and freeing it. -/
def dumpException (s : World) (newMessage : Bool) : Value → World
  | .other true convert str getStack stack =>
    let s := (ioQuickjsPrint s newMessage [.other true convert str getStack stack]).1
    match run s getStack with
    | (s, true) => dumpStack s stack
    -- JS_ToCString of an exception is NULL
    | (s, false) => s.log (.printf "%s\n" none)
  | exceptionVal =>
    (ioQuickjsPrint (s.log (.printf "Throw: " none)) newMessage [exceptionVal]).1

/-- `io_js_dump_error`; JS_GetException returns JS_NULL when nothing is pending. -/
def ioJsDumpError (s : World) (newMessage : Bool) : World :=
  match s.jsGetException with
  | (s, some (p, exceptionVal)) => (dumpException s newMessage exceptionVal).log (.freeValue p)
  | (s, none) => dumpException s newMessage .null

/-- A result that nobody uses. -/
def dropResult (s : World) : World := (s.obtain .newValue).log (.freeValue s.next)

/-- `io_js_eval_buffer` of a script with the code `body`. -/
def ioJsEvalBuffer (s : World) (body : Script) (newMessage : Bool) : World × Int :=
  match run s body with
  | (s, false) => (ioJsDumpError s newMessage, -1)
  | (s, true) => (dropResult s, 0)

/-- A function is called with a reference of its own, and an exception reported. -/
def callAndReport (s : World) (body : Script) (newMessage : Bool) : World :=
  let func := s.next
  let (s, ok) := run (s.obtain .newValue) body
  let s := s.log (.freeValue func)
  if ok then dropResult s else ioJsDumpError s newMessage

/-- `io_js_call_handler`, the body of `io_js_call_timer_continuation`. -/
def ioJsCallHandler := callAndReport

/-- `js_io_socket_continuation` -/
def jsIoSocketContinuation := callAndReport

/-- A queued job: its function, the script code that it calls, and whether io_core has a message
for a report. -/
structure Job where
  func : JSJobFunc
  body : Script
  newMessage : Bool

/-- `JS_ExecutePendingJob`; the result is whether it returns no error. -/
def jsExecutePendingJob (s : World) (job : Job) : World × Bool :=
  match job.func with
  | .timerContinuation => (ioJsCallHandler s job.body job.newMessage, true)
  | .socketContinuation => (jsIoSocketContinuation s job.body job.newMessage, true)
  | .script =>
    match run s job.body with
    | (s, true) => (dropResult s, true)
    | (s, false) => (s, false)

/-- `io_js_do_tasks` for the jobs it executes, in order. A collection does not run script code. -/
def ioJsDoTasks (s : World) (jobs : List Job) : World :=
  jobs.foldl (fun s job =>
    match jsExecutePendingJob s job with
    | (s, true) => s
    | (s, false) => ioJsDumpError s job.newMessage) s

end Functions

/-! ## What script code does with exceptions -/

/-- An exception is thrown, or the one that is pending is taken by a handler. -/
inductive ExceptionEvent where
  | thrown (e : Value)
  | caught

mutual

/-- What a run of script code throws and catches, and whether it ends without an exception. -/
def Script.exceptions : Script → List ExceptionEvent × Bool
  | .done => ([], true)
  | .throw e caught => (.thrown e :: (handling caught).1, (handling caught).2)
  | .drops e next => (.thrown e :: next.exceptions.1, next.exceptions.2)
  | .print newMessage argv next caught =>
    match if newMessage then conversions argv else ([], true) with
    | (es, true) => (es ++ next.exceptions.1, next.exceptions.2)
    | (es, false) => (es ++ (handling caught).1, (handling caught).2)

/-- The same for a handler and what follows it. -/
def handling : Option Script → List ExceptionEvent × Bool
  | none => ([], false)
  | some handler => (.caught :: handler.exceptions.1, handler.exceptions.2)

/-- The same for the conversion of a value. -/
def Value.conversion : Value → List ExceptionEvent × Bool
  | .undefined | .null => ([], true)
  | .other _ convert _ _ _ => convert.exceptions

/-- The same for the conversions of a list up to the first one that throws. -/
def conversions : List Value → List ExceptionEvent × Bool
  | [] => ([], true)
  | arg :: argv =>
    match arg.conversion with
    | (es, true) => (es ++ (conversions argv).1, (conversions argv).2)
    | (es, false) => (es, false)

end

/-- A value as `current_exception`, where null says that nothing is pending. -/
def Value.asPending : Value → Option Value
  | .null => none
  | e => some e

/-- The exception that is pending after script code has run. -/
def pendingAfter (pending : Option Value) : List ExceptionEvent → Option Value :=
  List.foldl (fun
    | _, .thrown e => e.asPending
    | _, .caught => none) pending

/-- The value that script code throws, if it does not come to its end. -/
def Script.thrown (script : Script) : Option Value :=
  if script.exceptions.2 then none
  else some ((pendingAfter none script.exceptions.1).getD .null)

/-- What the script code does that `io_js_dump_error` runs for the value of a stack property. -/
def Value.stackExceptions : Value → List ExceptionEvent
  | .undefined => []
  | val => val.conversion.1

/-- What the script code does that `io_js_dump_error` runs to report a value. -/
def Value.reportExceptions (newMessage : Bool) (e : Value) : List ExceptionEvent :=
  (if newMessage then e.conversion.1 else []) ++
    match e with
    | .other true _ _ getStack stack =>
      getStack.exceptions.1 ++ if getStack.exceptions.2 then stack.stackExceptions else []
    | _ => []

/-- The last exception that script code throws while the value is reported, if any, is taken by a
handler or is null. -/
def Value.Consumed (newMessage : Bool) (e : Value) : Prop :=
  ∀ e', (e.reportExceptions newMessage).getLast? = some (.thrown e') → e' = .null

/-! ## The account -/

/-- What has to be given up. -/
inductive Ref where
  | message (m : Nat)
  | cString (p : Nat)
  | value (p : Nat)
  deriving DecidableEq

def Ref.address : Ref → Nat
  | .message m => m
  | .cString p => p
  | .value p => p

def Event.opens : Event → Option Ref
  | .newMessage m => some (.message m)
  | .toCString p => some (.cString p)
  | .newValue p => some (.value p)
  | _ => none

def Event.closes : Event → Option Ref
  | .sendMessage m _ => some (.message m)
  | .freeCString p => some (.cString p)
  | .freeValue p => some (.value p)
  | _ => none

namespace World

/-- The reference that is kept for the pending exception. -/
def pendingRef (s : World) : List Ref := (s.currentException.map fun e => .value e.1).toList

/-- The value of the pending exception. -/
def pending (s : World) : Option Value := s.currentException.map Prod.snd

@[simp] theorem pending_log (s : World) (e : Event) : (s.log e).pending = s.pending := rfl

/-- The C frames hold `held`, the runtime the pending exception, and nothing else has been
obtained and not given up. -/
structure Ok (s : World) (held : List Ref) : Prop where
  balanced : Account.Balanced Event.opens Event.closes s.events (s.pendingRef ++ held)
  fresh : ∀ ev ∈ s.events, ∀ k, ev.opens = some k → k.address < s.next

variable {s : World} {held : List Ref}

/-- The events that obtain something have their own address. -/
theorem Ok.obtain (h : s.Ok held) {f : Nat → Event} {k : Ref} (hopens : (f s.next).opens = some k)
    (hcloses : (f s.next).closes = none) (hk : k.address = s.next) :
    (s.obtain f).Ok (k :: held) where
  balanced := by
    have hfresh : ∀ ev ∈ s.events, ev.opens ≠ some k := by
      intro ev hev hopen
      have hlt := h.fresh ev hev k hopen
      omega
    exact (h.balanced.obtain hopens hcloses hfresh).perm List.perm_middle.symm
  fresh ev hev k' hopen := by
    rcases List.mem_append.mp hev with hold | hnew
    · exact Nat.lt_succ_of_lt (h.fresh ev hold k' hopen)
    · obtain rfl := List.mem_singleton.mp hnew
      obtain rfl : k = k' := Option.some.inj (hopens.symm.trans hopen)
      exact hk ▸ Nat.lt_succ_self _

theorem Ok.log_fresh (h : s.Ok held) {e : Event} (hopens : e.opens = none) :
    ∀ ev ∈ (s.log e).events, ∀ k, ev.opens = some k → k.address < (s.log e).next := by
  intro ev hev k hopen
  rcases List.mem_append.mp hev with hold | hnew
  · exact h.fresh ev hold k hopen
  · obtain rfl := List.mem_singleton.mp hnew
    rw [hopens] at hopen
    cases hopen

/-- What a frame holds is given up. -/
theorem Ok.giveUp {k : Ref} (h : s.Ok (k :: held)) {e : Event} (hopens : e.opens = none)
    (hcloses : e.closes = some k) : (s.log e).Ok held :=
  ⟨(h.balanced.perm List.perm_middle).giveUp hopens hcloses, h.log_fresh hopens⟩

theorem Ok.idle (h : s.Ok held) {e : Event} (hopens : e.opens = none) (hcloses : e.closes = none) :
    (s.log e).Ok held :=
  ⟨h.balanced.idle hopens hcloses, h.log_fresh hopens⟩

/-- The pending exception is given up; what is pending next is to be said. -/
theorem Ok.freeException (h : s.Ok held) :
    Account.Balanced Event.opens Event.closes s.freeException.events held ∧
      (∀ ev ∈ s.freeException.events, ∀ k, ev.opens = some k → k.address < s.next) ∧
      s.freeException.next = s.next := by
  have hbalanced := h.balanced
  unfold World.freeException
  cases hpending : s.currentException with
  | none =>
    simp only [pendingRef, hpending, Option.map_none, Option.toList_none,
      List.nil_append] at hbalanced
    exact ⟨hbalanced, h.fresh, rfl⟩
  | some old =>
    simp only [pendingRef, hpending, Option.map_some, Option.toList_some,
      List.cons_append, List.nil_append] at hbalanced
    exact ⟨hbalanced.giveUp rfl rfl, h.log_fresh rfl, rfl⟩

/-- JS_Throw gives the pending exception up and keeps the new one, unless it is null. -/
theorem Ok.jsThrow (h : s.Ok held) (e : Value) :
    (s.jsThrow e).Ok held ∧ (s.jsThrow e).pending = e.asPending := by
  have hnew := @Ok.obtain _ _ h .newValue (.value s.next) rfl rfl rfl
  obtain ⟨hnull, hnullFresh, hnullNext⟩ := h.freeException
  obtain ⟨hkept, hfresh, hnext⟩ := hnew.freeException
  cases e with
  | null => exact ⟨⟨hnull, hnullNext ▸ hnullFresh⟩, rfl⟩
  | undefined => exact ⟨⟨hkept, hnext ▸ hfresh⟩, rfl⟩
  | other => exact ⟨⟨hkept, hnext ▸ hfresh⟩, rfl⟩

/-- What is pending is taken over by a frame. -/
theorem Ok.jsGetException (h : s.Ok held) :
    s.jsGetException.1.Ok (s.pendingRef ++ held) ∧ s.jsGetException.1.pending = none :=
  ⟨⟨h.balanced, h.fresh⟩, rfl⟩

/-- A handler leaves nothing pending. -/
theorem Ok.jsCatch (h : s.Ok held) : s.jsCatch.Ok held ∧ s.jsCatch.pending = none := by
  obtain ⟨hok, hnone⟩ := h.jsGetException
  unfold World.jsCatch
  cases hpending : s.currentException with
  | none =>
    simp only [pendingRef, hpending] at hok
    simp only [World.jsGetException, hpending] at hok ⊢
    exact ⟨hok, rfl⟩
  | some old =>
    simp only [pendingRef, hpending] at hok
    simp only [World.jsGetException, hpending] at hok ⊢
    exact ⟨hok.giveUp rfl rfl, rfl⟩

end World

@[simp] theorem pendingAfter_append (pending : Option Value) (es es' : List ExceptionEvent) :
    pendingAfter pending (es ++ es') = pendingAfter (pendingAfter pending es) es' :=
  List.foldl_append

@[simp] theorem pendingAfter_thrown (pending : Option Value) (e : Value)
    (es : List ExceptionEvent) :
    pendingAfter pending (.thrown e :: es) = pendingAfter e.asPending es := rfl

@[simp] theorem pendingAfter_caught (pending : Option Value) (es : List ExceptionEvent) :
    pendingAfter pending (.caught :: es) = pendingAfter none es := rfl

@[simp] theorem pendingAfter_nil (pending : Option Value) : pendingAfter pending [] = pending := rfl

/-- From `s` to `t` script code has thrown and caught what the events say, and the frames hold what
they are said to. -/
structure Ran (s t : World) (es : List ExceptionEvent) (held : List Ref) : Prop where
  ok : t.Ok held
  pending : t.pending = pendingAfter s.pending es

theorem Ran.trans {s t u : World} {es es' : List ExceptionEvent} {held held' : List Ref}
    (h : Ran s t es held) (h' : Ran t u es' held') : Ran s u (es ++ es') held' :=
  ⟨h'.ok, by rw [h'.pending, h.pending, pendingAfter_append]⟩

section Reports

variable [IoEncoding]

/-- What io_quickjs_print does, by what its loop does. -/
theorem print_of_loop {argv : List Value} {s : World} {held : List Ref} (h : s.Ok held)
    (hloop : ∀ {s : World} (m : Nat), s.Ok (.message m :: held) →
      Ran s (printLoop s m [] 0 argv).1 (conversions argv).1 held ∧
        (printLoop s m [] 0 argv).2 = (conversions argv).2) (newMessage : Bool) :
    Ran s (ioQuickjsPrint s newMessage argv).1
        (if newMessage then conversions argv else ([], true)).1 held ∧
      (ioQuickjsPrint s newMessage argv).2 =
        (if newMessage then conversions argv else ([], true)).2 := by
  cases newMessage with
  | false => exact ⟨⟨h, rfl⟩, rfl⟩
  | true =>
    obtain ⟨hran, hend⟩ :=
      hloop s.next (@World.Ok.obtain _ _ h .newMessage (.message s.next) rfl rfl rfl)
    exact ⟨⟨hran.ok, hran.pending⟩, hend⟩

mutual

theorem run_spec : ∀ (script : Script) {s : World} {held : List Ref}, s.Ok held →
    Ran s (run s script).1 script.exceptions.1 held ∧ (run s script).2 = script.exceptions.2
  | .done, s, held, h => ⟨⟨h, rfl⟩, rfl⟩
  | .throw e caught, s, held, h => by
    obtain ⟨hok, hpending⟩ := h.jsThrow e
    obtain ⟨hran, hend⟩ := unwind_spec caught hok
    refine ⟨⟨hran.ok, ?_⟩, hend⟩
    rw [run, hran.pending, hpending]
    rfl
  | .drops e next, s, held, h => by
    obtain ⟨hok, hpending⟩ := h.jsThrow e
    obtain ⟨hran, hend⟩ := run_spec next hok
    refine ⟨⟨hran.ok, ?_⟩, hend⟩
    rw [run, hran.pending, hpending]
    rfl
  | .print newMessage argv next caught, s, held, h => by
    obtain ⟨hprint, hend⟩ := print_of_loop h (fun m hm => printLoop_spec argv m [] 0 hm) newMessage
    rw [run, Script.exceptions]
    rcases hres : ioQuickjsPrint s newMessage argv with ⟨t, ok⟩
    rcases hspec : (if newMessage then conversions argv else ([], true)) with ⟨es, ok'⟩
    rw [hres, hspec] at hprint hend
    obtain rfl : ok = ok' := hend
    unfold ioQuickjsPrint at hres
    simp only [hres]
    cases ok with
    | true =>
      obtain ⟨hnext, hend'⟩ := run_spec next hprint.ok
      exact ⟨hprint.trans hnext, hend'⟩
    | false =>
      obtain ⟨hunwind, hend'⟩ := unwind_spec caught hprint.ok
      exact ⟨hprint.trans hunwind, hend'⟩

theorem unwind_spec : ∀ (caught : Option Script) {s : World} {held : List Ref}, s.Ok held →
    Ran s (unwind s caught).1 (handling caught).1 held ∧
      (unwind s caught).2 = (handling caught).2
  | none, s, held, h => ⟨⟨h, rfl⟩, rfl⟩
  | some handler, s, held, h => by
    obtain ⟨hok, hpending⟩ := h.jsCatch
    obtain ⟨hran, hend⟩ := run_spec handler hok
    refine ⟨⟨hran.ok, ?_⟩, hend⟩
    rw [unwind, hran.pending, hpending]
    rfl

theorem jsToCString_spec : ∀ (v : Value) {s : World} {held : List Ref}, s.Ok held →
    match jsToCString s v with
    | (t, some (p, _)) => Ran s t v.conversion.1 (.cString p :: held) ∧ v.conversion.2 = true
    | (t, none) => Ran s t v.conversion.1 held ∧ v.conversion.2 = false
  | .undefined, s, held, h | .null, s, held, h =>
    ⟨⟨@World.Ok.obtain _ _ h .toCString (.cString s.next) rfl rfl rfl, rfl⟩, rfl⟩
  | .other isError convert str getStack stack, s, held, h => by
    obtain ⟨hran, hend⟩ := run_spec convert h
    rw [jsToCString, Value.conversion]
    rcases hres : run s convert with ⟨t, ok⟩
    rw [hres] at hran hend
    cases ok with
    | false => exact ⟨hran, hend.symm⟩
    | true =>
      refine ⟨⟨@World.Ok.obtain _ _ hran.ok .toCString (.cString t.next) rfl rfl rfl, ?_⟩,
        hend.symm⟩
      exact hran.pending

theorem printLoop_spec : ∀ (argv : List Value) {s : World} {held : List Ref} (m : Nat)
    (print : List UInt8) (i : Nat), s.Ok (.message m :: held) →
    Ran s (printLoop s m print i argv).1 (conversions argv).1 held ∧
      (printLoop s m print i argv).2 = (conversions argv).2
  | [], s, held, m, print, i, h => ⟨⟨h.giveUp rfl rfl, rfl⟩, rfl⟩
  | arg :: argv, s, held, m, print, i, h => by
    have hconv := jsToCString_spec arg h
    rw [printLoop, conversions]
    rcases hspec : arg.conversion with ⟨es, ok⟩
    rcases hres : jsToCString s arg with ⟨t, _ | ⟨p, str⟩⟩
    · simp only [hres, hspec] at hconv ⊢
      obtain ⟨hran, rfl⟩ := hconv
      exact ⟨⟨hran.ok.giveUp rfl rfl, hran.pending⟩, rfl⟩
    · simp only [hres, hspec] at hconv ⊢
      obtain ⟨hran, rfl⟩ := hconv
      have hfirst : Ran s (t.log (.freeCString p)) es (.message m :: held) :=
        ⟨hran.ok.giveUp rfl rfl, hran.pending⟩
      obtain ⟨hrest, hend⟩ := printLoop_spec argv m
        (Text.appendArgument (if i ≠ 0 then appendByte print 0x20 else print) str) (i + 1) hfirst.ok
      exact ⟨hfirst.trans hrest, hend⟩

end

theorem ioQuickjsPrint_spec {s : World} {held : List Ref} (h : s.Ok held) (newMessage : Bool)
    (e : Value) :
    Ran s (ioQuickjsPrint s newMessage [e]).1 (if newMessage then e.conversion.1 else []) held := by
  have hprint := (print_of_loop h (fun m hm => printLoop_spec [e] m [] 0 hm) newMessage).1
  have hone : (conversions [e]).1 = e.conversion.1 := by
    rcases hconv : e.conversion with ⟨es, _ | _⟩ <;> simp [conversions, hconv]
  cases newMessage with
  | false => exact hprint
  | true => exact hone ▸ hprint

theorem dumpStack_spec {s : World} {held : List Ref} (h : s.Ok held) (val : Value) :
    Ran s (dumpStack s val) val.stackExceptions held := by
  by_cases hval : val = .undefined
  · subst hval
    exact ⟨h, rfl⟩
  · have hnew := @World.Ok.obtain _ _ h .newValue (.value s.next) rfl rfl rfl
    have hconv := jsToCString_spec val hnew
    rw [dumpStack.eq_2 _ _ hval, Value.stackExceptions.eq_2 _ hval]
    rcases hres : jsToCString (s.obtain .newValue) val with ⟨t, _ | ⟨p, text⟩⟩
    · simp only [hres] at hconv ⊢
      obtain ⟨hran, -⟩ := hconv
      have hprinted : (t.log (.printf "%s\n" none)).Ok (.value s.next :: held) :=
        hran.ok.idle rfl rfl
      exact ⟨hprinted.giveUp rfl rfl, hran.pending⟩
    · simp only [hres] at hconv ⊢
      obtain ⟨hran, -⟩ := hconv
      have hprinted : (t.log (.printf "%s\n" (some text))).Ok
          (.cString p :: .value s.next :: held) :=
        hran.ok.idle rfl rfl
      have hfreed := hprinted.giveUp (e := .freeCString p) rfl rfl
      exact ⟨hfreed.giveUp rfl rfl, hran.pending⟩

theorem dumpException_spec {s : World} {held : List Ref} (h : s.Ok held) (newMessage : Bool)
    (e : Value) : Ran s (dumpException s newMessage e) (e.reportExceptions newMessage) held := by
  have hthrow : (s.log (.printf "Throw: " none)).Ok held := h.idle rfl rfl
  have hother := ioQuickjsPrint_spec hthrow newMessage e
  cases e with
  | undefined | null =>
    unfold dumpException Value.reportExceptions
    exact ⟨hother.ok, by simpa using hother.pending⟩
  | other isError convert str getStack stack =>
    cases isError with
    | false =>
      unfold dumpException Value.reportExceptions
      exact ⟨hother.ok, by simpa using hother.pending⟩
    | true =>
      have hprint := ioQuickjsPrint_spec h newMessage (.other true convert str getStack stack)
      obtain ⟨hget, hend⟩ := run_spec getStack hprint.ok
      unfold dumpException Value.reportExceptions
      dsimp only
      rcases hres : run (ioQuickjsPrint s newMessage
        [.other true convert str getStack stack]).1 getStack with ⟨t, ok⟩
      rw [hres] at hget hend
      rw [← hend]
      cases ok with
      | true => exact hprint.trans (hget.trans (dumpStack_spec hget.ok stack))
      | false =>
        refine hprint.trans ⟨hget.ok.idle rfl rfl, ?_⟩
        simpa using hget.pending

/-- The reporter gives up what it has taken and got; what is pending then has been left by script
code. -/
theorem ioJsDumpError_spec {s : World} {held : List Ref} (h : s.Ok held) (newMessage : Bool) :
    (ioJsDumpError s newMessage).Ok held ∧ (ioJsDumpError s newMessage).pending =
      pendingAfter none ((s.pending.getD .null).reportExceptions newMessage) := by
  obtain ⟨hok, hnone⟩ := h.jsGetException
  unfold ioJsDumpError
  cases hpending : s.currentException with
  | none =>
    have hvalue : s.pending.getD .null = .null := by simp [World.pending, hpending]
    simp only [World.pendingRef, hpending] at hok
    have hdump := dumpException_spec hok newMessage .null
    simp only [World.jsGetException, hpending] at hdump ⊢
    rw [hvalue]
    exact ⟨hdump.ok, hdump.pending⟩
  | some old =>
    obtain ⟨p, e⟩ := old
    have hvalue : s.pending.getD .null = e := by simp [World.pending, hpending]
    simp only [World.pendingRef, hpending] at hok
    have hdump := dumpException_spec hok newMessage e
    simp only [World.jsGetException, hpending] at hdump ⊢
    rw [hvalue]
    exact ⟨hdump.ok.giveUp rfl rfl, hdump.pending⟩

end Reports

/-! ## The callers of the reporter -/

/-- A call of the port that can throw: an evaluated script, or a job of io_js_do_tasks. -/
inductive Call where
  | evalBuffer (body : Script) (newMessage : Bool)
  | task (job : Job)

namespace Call

def body : Call → Script
  | evalBuffer body _ => body
  | task job => job.body

def newMessage : Call → Bool
  | evalBuffer _ newMessage => newMessage
  | task job => job.newMessage

def perform [IoEncoding] (s : World) : Call → World
  | evalBuffer body newMessage => (ioJsEvalBuffer s body newMessage).1
  | task job => ioJsDoTasks s [job]

/-- The value that the script code of the call throws. -/
def thrown (call : Call) : Option Value := call.body.thrown

end Call

/-- The state before the first call. -/
def World.init : World := ⟨0, none, []⟩

theorem World.init_ok : World.init.Ok [] := ⟨.nil, by simp [World.init]⟩

theorem dropResult_ok {s : World} {held : List Ref} (h : s.Ok held) : (dropResult s).Ok held :=
  (@World.Ok.obtain _ _ h .newValue (.value s.next) rfl rfl rfl).giveUp rfl rfl

/-- Nothing else decides what is pending after a script than what it does last. -/
theorem pendingAfter_eq (pending : Option Value) (es : List ExceptionEvent) :
    pendingAfter pending es = match es.getLast? with
      | none => pending
      | some (.thrown e) => e.asPending
      | some .caught => none := by
  induction es using List.reverseRecOn with
  | nil => rfl
  | append_singleton es x ih => cases x <;> simp

mutual

/-- Script code that does not come to its end has thrown something. -/
theorem exceptions_ne_nil : ∀ script : Script, script.exceptions.2 = false →
    script.exceptions.1 ≠ []
  | .done, h => by simp [Script.exceptions] at h
  | .throw e caught, _ => by simp [Script.exceptions]
  | .drops e next, _ => by simp [Script.exceptions]
  | .print newMessage argv next caught, h => by
    have hconv := conversions_ne_nil argv
    have hnext := exceptions_ne_nil next
    rw [Script.exceptions] at h ⊢
    rcases hes : (if newMessage then conversions argv else ([], true)) with ⟨es, _ | _⟩
    · have hfalse : conversions argv = (es, false) := by grind
      rw [hfalse] at hconv
      simp [hconv rfl]
    · simp only [hes] at h ⊢
      simp [hnext h]

theorem conversion_ne_nil : ∀ v : Value, v.conversion.2 = false → v.conversion.1 ≠ []
  | .undefined, h | .null, h => by simp [Value.conversion] at h
  | .other _ convert _ _ _, h => exceptions_ne_nil convert h

theorem conversions_ne_nil : ∀ argv : List Value, (conversions argv).2 = false →
    (conversions argv).1 ≠ []
  | [], h => by simp [conversions] at h
  | arg :: argv, h => by
    have harg := conversion_ne_nil arg
    have hrest := conversions_ne_nil argv
    rw [conversions] at h ⊢
    rcases hes : arg.conversion with ⟨es, _ | _⟩
    · rw [hes] at harg
      exact harg rfl
    · simp only [hes] at h ⊢
      simp [hrest h]

end

theorem Value.asPending_eq_none (e : Value) : e.asPending = none ↔ e = .null := by
  cases e <;> simp [Value.asPending]

/-- Nothing is pending exactly when the last exception has been caught or is null. -/
theorem consumed_iff (newMessage : Bool) (e : Value) :
    pendingAfter none (e.reportExceptions newMessage) = none ↔ e.Consumed newMessage := by
  rw [pendingAfter_eq, Value.Consumed]
  rcases (e.reportExceptions newMessage).getLast? with _ | e' | _ <;>
    simp [Value.asPending_eq_none]

section Calls

variable [IoEncoding]

/-- Script code that does not come to its end leaves what it has thrown last. -/
theorem run_thrown {s t : World} {held : List Ref} (h : s.Ok held) {body : Script}
    (hrun : run s body = (t, false)) {e : Value} (hthrown : body.thrown = some e) :
    t.pending.getD .null = e := by
  obtain ⟨hran, hend⟩ := run_spec body h
  have hpending := hran.pending
  rw [hrun] at hpending hend
  have hne := exceptions_ne_nil body hend.symm
  unfold Script.thrown at hthrown
  rw [pendingAfter_eq] at hpending hthrown
  grind [List.getLast?_eq_none_iff]

/-- Script code that has ended leaves nothing to report. -/
theorem thrown_of_run {s t : World} {held : List Ref} (h : s.Ok held) {body : Script}
    (hrun : run s body = (t, true)) : body.thrown = none := by
  have hend := (run_spec body h).2
  rw [hrun] at hend
  simp [Script.thrown, ← hend]

/-- A call leaves the account in order, and what its script code has thrown is reported. -/
def Reports (t : World) (newMessage : Bool) (body : Script) : Prop :=
  t.Ok [] ∧ ∀ e, body.thrown = some e →
    t.pending = pendingAfter none (e.reportExceptions newMessage)

/-- What happens after script code has been run: its result is dropped, or it is reported. -/
theorem reports_of_run {s t u : World} {held : List Ref} (h : s.Ok held) {body : Script} {ok : Bool}
    (hrun : run s body = (t, ok)) (hu : u.Ok []) (hpending : u.pending = t.pending)
    (newMessage : Bool) :
    Reports (if ok then dropResult u else ioJsDumpError u newMessage) newMessage body := by
  cases ok with
  | true =>
    refine ⟨dropResult_ok hu, fun e he => ?_⟩
    rw [thrown_of_run h hrun] at he
    cases he
  | false =>
    obtain ⟨hok, hreport⟩ := ioJsDumpError_spec hu newMessage
    refine ⟨hok, fun e he => ?_⟩
    rwa [hpending, run_thrown h hrun he] at hreport

theorem ioJsEvalBuffer_spec {s : World} (h : s.Ok []) (body : Script) (newMessage : Bool) :
    Reports (ioJsEvalBuffer s body newMessage).1 newMessage body := by
  have hran := (run_spec body h).1
  rcases hrun : run s body with ⟨t, ok⟩
  rw [hrun] at hran
  have hreports := reports_of_run h hrun hran.ok rfl newMessage
  unfold ioJsEvalBuffer
  rw [hrun]
  cases ok <;> exact hreports

theorem callAndReport_spec {s : World} (h : s.Ok []) (body : Script) (newMessage : Bool) :
    Reports (callAndReport s body newMessage) newMessage body := by
  have hfunc := @World.Ok.obtain _ _ h .newValue (.value s.next) rfl rfl rfl
  have hran := (run_spec body hfunc).1
  rcases hrun : run (s.obtain .newValue) body with ⟨t, ok⟩
  rw [hrun] at hran
  have hfreed : (t.log (.freeValue s.next)).Ok [] := hran.ok.giveUp rfl rfl
  unfold callAndReport
  rw [hrun]
  exact reports_of_run hfunc hrun hfreed rfl newMessage

theorem task_spec {s : World} (h : s.Ok []) (job : Job) :
    Reports (ioJsDoTasks s [job]) job.newMessage job.body := by
  obtain ⟨func, body, newMessage⟩ := job
  simp only [ioJsDoTasks, List.foldl_cons, List.foldl_nil]
  cases func with
  | timerContinuation => exact callAndReport_spec h body newMessage
  | socketContinuation => exact callAndReport_spec h body newMessage
  | script =>
    have hran := (run_spec body h).1
    rcases hrun : run s body with ⟨t, ok⟩
    rw [hrun] at hran
    have hreports := reports_of_run h hrun hran.ok rfl newMessage
    simp only [jsExecutePendingJob, hrun]
    cases ok <;> exact hreports

theorem Call.perform_spec {s : World} (h : s.Ok []) (call : Call) :
    Reports (call.perform s) call.newMessage call.body := by
  cases call with
  | evalBuffer body newMessage => exact ioJsEvalBuffer_spec h body newMessage
  | task job => exact task_spec h job

/-- The calls of a program, one after the other. -/
def performAll (s : World) (calls : List Call) : World := calls.foldl Call.perform s

/-- io_js_do_tasks is the jobs one after the other. -/
theorem ioJsDoTasks_eq (s : World) (jobs : List Job) :
    ioJsDoTasks s jobs = performAll s (jobs.map .task) := by
  induction jobs generalizing s with
  | nil => rfl
  | cons job jobs ih => exact ih (ioJsDoTasks s [job])

theorem performAll_ok {s : World} (h : s.Ok []) (calls : List Call) :
    (performAll s calls).Ok [] := by
  induction calls generalizing s with
  | nil => exact h
  | cons call calls ih => exact ih (call.perform_spec h).1

/-- After any calls, let one throw. When it has been reported, nothing is pending and everything
obtained so far has been given up exactly once, so that the next job starts without an exception,
if and only if the last exception of the script code that the reporter runs is caught or is null.
All messages have been sent in any case. -/
theorem report_consumes_iff (before : List Call) (call : Call) {e : Value}
    (hthrown : call.thrown = some e) :
    (((performAll World.init (before ++ [call])).currentException = none ∧
        ∀ ev ∈ (performAll World.init (before ++ [call])).events, ∀ k, ev.opens = some k →
          Account.times Event.closes k (performAll World.init (before ++ [call])).events = 1) ↔
      e.Consumed call.newMessage) ∧
    ∀ m, .newMessage m ∈ (performAll World.init (before ++ [call])).events →
      Account.times Event.closes (.message m)
        (performAll World.init (before ++ [call])).events = 1 := by
  have hbefore := performAll_ok World.init_ok before
  have happend : performAll World.init (before ++ [call]) =
      call.perform (performAll World.init before) := by
    simp [performAll]
  obtain ⟨hok, hreport⟩ := call.perform_spec hbefore
  have hpending := hreport e hthrown
  rw [happend]
  generalize call.perform (performAll World.init before) = t at hok hpending
  have hnone : t.currentException = none ↔ e.Consumed call.newMessage := by
    rw [← consumed_iff, ← hpending]
    simp [World.pending]
  refine ⟨⟨fun h => hnone.mp h.1, fun h => ⟨hnone.mpr h, fun ev hev k hk => ?_⟩⟩,
    fun m hm => ?_⟩
  · have hbalanced := hok.balanced
    rw [World.pendingRef, hnone.mpr h] at hbalanced
    exact (hbalanced.once_of_not_mem hev hk (by simp)).2
  · refine (hok.balanced.once_of_not_mem hm rfl ?_).2
    cases hpend : t.currentException <;> simp [World.pendingRef, hpend]

end Calls

/-- An Error whose stack property is a string. -/
def error : Value :=
  .other true .done (ascii "Error: x") .done (.other false .done (ascii "at f") .done .undefined)

theorem report_consumes_error :
    (performAll .init [.evalBuffer (.throw error none) true]).currentException = none ∧
      ∀ ev ∈ (performAll .init [.evalBuffer (.throw error none) true]).events, ∀ k,
        ev.opens = some k → Account.times Event.closes k
          (performAll .init [.evalBuffer (.throw error none) true]).events = 1 :=
  (report_consumes_iff [] (.evalBuffer (.throw error none) true) rfl).1.mpr
    fun _ h => by cases h

/-- A null that the conversion of the thrown value throws leaves nothing pending. -/
example : (performAll .init [.evalBuffer (.throw (.other false (.throw .null none) (ascii "") .done
    .undefined) none) true]).currentException = none := rfl

/-- A symbol: its conversion throws a TypeError. -/
def symbol : Value := .other false (.throw error none) (ascii "") .done .undefined

/-- An Error whose stack property is a getter that throws. -/
def brokenStack : Value :=
  .other true .done (ascii "Error: x") (.throw error none) .undefined

/-- Such values leave the exception of their conversion or getter pending. -/
theorem report_leaves_exception :
    (performAll .init [.evalBuffer (.throw symbol none) true]).pending = some error ∧
      (performAll .init [.evalBuffer (.throw brokenStack none) true]).pending = some error ∧
      ¬ ∀ before call e, Call.thrown call = some e →
        (performAll .init (before ++ [call])).currentException = none := by
  refine ⟨rfl, rfl, fun hall => ?_⟩
  have hnone := hall [] (.evalBuffer (.throw symbol none) true) symbol rfl
  have hpending : (performAll .init [.evalBuffer (.throw symbol none) true]).pending =
      some error := rfl
  rw [List.nil_append] at hnone
  simp [World.pending, hnone] at hpending

end IoQuickJS.Reporting
