import IoQuickJS.Library.Utf
import Mathlib.Data.List.TakeWhile
import Mathlib.Data.Nat.Bitwise

/-!
# Strings and their UTF-8 form

JS_NewStringLen, which makes a string from the bytes a message brings, and JS_ToCStringLen2, which
makes the bytes of a message from a string, with unicode_from_utf8 and unicode_to_utf8 under them.
A C string ends at its first zero byte.

## Main results

* `jsNewStringLen_utf8`: the decoder reads every encoded text back.
* `jsToCString_utf8`: the encoder gives the encoding of the string's code points.
-/
namespace IoQuickJS.Text

open Utf

/-! ## Definitions -/

/-- A `JSString` in its 8-bit or its 16-bit form. -/
inductive JSString where
  | str8 (s : List UInt8)
  | str16 (s : List UInt16)
  deriving DecidableEq

/-- The code units of a string, whichever form it has. -/
def JSString.units : JSString → List UInt16
  | .str8 s => s.map UInt8.toUInt16
  | .str16 s => s

/-- `JS_STRING_LEN_MAX` -/
def jsStringLenMax : Nat := 2 ^ 30 - 1

/-- `utf8_min_code` -/
def utf8MinCode : Nat → Nat
  | 0 => 0x80
  | 1 => 0x800
  | 2 => 0x10000
  | 3 => 0x00200000
  | _ => 0x04000000

/-- `utf8_first_code_mask` -/
def utf8FirstCodeMask : Nat → Nat
  | 0 => 0x1f
  | 1 => 0xf
  | 2 => 0x7
  | 3 => 0x3
  | _ => 0x1

/-- The number of bytes that `unicode_from_utf8` expects after a first byte. -/
def utf8Following (c : Nat) : Option Nat :=
  if 0xc0 ≤ c ∧ c ≤ 0xdf then some 1
  else if 0xe0 ≤ c ∧ c ≤ 0xef then some 2
  else if 0xf0 ≤ c ∧ c ≤ 0xf7 then some 3
  else if 0xf8 ≤ c ∧ c ≤ 0xfb then some 4
  else if 0xfc ≤ c ∧ c ≤ 0xfd then some 5
  else none

/-- The loop of `unicode_from_utf8`. -/
def unicodeFromUtf8Loop : Nat → Nat → List UInt8 → Option (Nat × List UInt8)
  | 0, c, p => some (c, p)
  | l + 1, c, b :: p =>
    if b.toNat < 0x80 ∨ 0xc0 ≤ b.toNat then none
    else unicodeFromUtf8Loop l (c <<< 6 ||| (b.toNat &&& 0x3f)) p
  | _ + 1, _, [] => none

/-- `unicode_from_utf8` on the bytes from `p` on: the code point and the bytes after it. -/
def unicodeFromUtf8 : List UInt8 → Option (Nat × List UInt8)
  | [] => none
  | c :: p =>
    if c.toNat < 0x80 then some (c.toNat, p)
    else
      match utf8Following c.toNat with
      | none => none
      | some l =>
        if p.length < l then none
        else
          match unicodeFromUtf8Loop l (c.toNat &&& utf8FirstCodeMask (l - 1)) p with
          | none => none
          | some (c, p) => if c < utf8MinCode (l - 1) then none else some (c, p)

/-- A byte that continues a sequence. -/
def isContinuation (b : UInt8) : Bool := 0x80 ≤ b.toNat && b.toNat < 0xc0

/-- The bytes left after `JS_NewStringLen` has skipped an invalid sequence. -/
def skipInvalid (p : List UInt8) : List UInt8 :=
  match p.dropWhile isContinuation with
  | [] => []
  | _ :: p => p.dropWhile isContinuation

/-- The loop of `JS_NewStringLen`; every round takes at least one byte, and `fuel` bounds the
rounds. -/
def newStringLoop : Nat → List UInt8 → List UInt16
  | 0, _ => []
  | _ + 1, [] => []
  | fuel + 1, b :: p =>
    if b.toNat < 128 then b.toUInt16 :: newStringLoop fuel p
    else
      match unicodeFromUtf8 (b :: p) with
      | some (c, next) =>
        if c < 0x10000 then UInt16.ofNat c :: newStringLoop fuel next
        else if c ≤ 0x10ffff then
          UInt16.ofNat (((c - 0x10000) >>> 10) + 0xd800) ::
            UInt16.ofNat (((c - 0x10000) &&& 0x3ff) + 0xdc00) :: newStringLoop fuel next
        else 0xfffd :: newStringLoop fuel (skipInvalid (b :: p))
      | none => 0xfffd :: newStringLoop fuel (skipInvalid (b :: p))

def isAscii (b : UInt8) : Bool := b.toNat < 128

/-- `JS_NewStringLen`: the code units of the string; `none` is the error "string too long". -/
def jsNewStringLen (buf : List UInt8) : Option (List UInt16) :=
  let start := buf.takeWhile isAscii
  let rest := buf.dropWhile isAscii
  if jsStringLenMax < start.length then none
  else if rest = [] then some (buf.map UInt8.toUInt16)
  else some (start.map UInt8.toUInt16 ++ newStringLoop rest.length rest)

/-- `unicode_to_utf8` -/
def unicodeToUtf8 (c : Nat) : List UInt8 :=
  if c < 0x80 then [UInt8.ofNat c]
  else if 0x80000000 ≤ c then []
  else
    (if c < 0x800 then [UInt8.ofNat (c >>> 6 ||| 0xc0)]
    else
      (if c < 0x10000 then [UInt8.ofNat (c >>> 12 ||| 0xe0)]
      else
        (if c < 0x00200000 then [UInt8.ofNat (c >>> 18 ||| 0xf0)]
        else
          (if c < 0x04000000 then [UInt8.ofNat (c >>> 24 ||| 0xf8)]
          else [UInt8.ofNat (c >>> 30 ||| 0xfc), UInt8.ofNat ((c >>> 24 &&& 0x3f) ||| 0x80)]) ++
          [UInt8.ofNat ((c >>> 18 &&& 0x3f) ||| 0x80)]) ++
        [UInt8.ofNat ((c >>> 12 &&& 0x3f) ||| 0x80)]) ++
      [UInt8.ofNat ((c >>> 6 &&& 0x3f) ||| 0x80)]) ++
    [UInt8.ofNat ((c &&& 0x3f) ||| 0x80)]

/-- The loop of `JS_ToCStringLen2` over an 8-bit string. -/
def toCString8 (s : List UInt8) : List UInt8 :=
  s.flatMap fun c =>
    if c.toNat < 0x80 then [c]
    else [UInt8.ofNat (c.toNat >>> 6 ||| 0xc0), UInt8.ofNat ((c.toNat &&& 0x3f) ||| 0x80)]

/-- The loop of `JS_ToCStringLen2` over a 16-bit string. Its branch for `c < 0x80` is the one that
`unicode_to_utf8` has too. -/
def toCString16 (cesu8 : Bool) : List UInt16 → List UInt8
  | [] => []
  | [c] => unicodeToUtf8 c.toNat
  | c :: c1 :: src =>
    if 0xd800 ≤ c.toNat ∧ c.toNat < 0xdc00 ∧ !cesu8 ∧ 0xdc00 ≤ c1.toNat ∧ c1.toNat < 0xe000 then
      unicodeToUtf8 (((c.toNat &&& 0x3ff) <<< 10 ||| (c1.toNat &&& 0x3ff)) + 0x10000) ++
        toCString16 cesu8 src
    else unicodeToUtf8 c.toNat ++ toCString16 cesu8 (c1 :: src)

/-- `JS_ToCStringLen2`: the bytes before the terminating zero. An 8-bit string without a byte
above 127 is its own C string. -/
def jsToCStringLen2 (cesu8 : Bool) : JSString → List UInt8
  | .str8 s => if s.all isAscii then s else toCString8 s
  | .str16 s => toCString16 cesu8 s

/-- `JS_ToCString` -/
def jsToCString : JSString → List UInt8 := jsToCStringLen2 false

/-- The bytes that `strlen` counts. -/
def cString (bytes : List UInt8) : List UInt8 := bytes.takeWhile (· ≠ 0)

/-! ## Bits as numbers -/

theorem or_eq_add {x : Nat} (i a : Nat) (h : x < 2 ^ i) : x ||| 2 ^ i * a = x + 2 ^ i * a := by
  rw [Nat.or_comm, ← Nat.two_pow_add_eq_or_of_lt h, Nat.add_comm]

theorem and_3f (x : Nat) : x &&& 0x3f = x % 64 := Nat.and_two_pow_sub_one_eq_mod x 6

theorem and_3ff (x : Nat) : x &&& 0x3ff = x % 1024 := Nat.and_two_pow_sub_one_eq_mod x 10

theorem tail_byte (x : Nat) : (x &&& 0x3f) ||| 0x80 = x % 64 + 0x80 := by
  rw [and_3f]
  exact or_eq_add 6 2 (Nat.mod_lt x (by decide))

theorem first_byte2 {x : Nat} (h : x < 64) : x ||| 0xc0 = x + 0xc0 := or_eq_add 6 3 h

theorem first_byte3 {x : Nat} (h : x < 32) : x ||| 0xe0 = x + 0xe0 := or_eq_add 5 7 h

theorem first_byte4 {x : Nat} (h : x < 16) : x ||| 0xf0 = x + 0xf0 := or_eq_add 4 15 h

theorem unicodeToUtf8_eq {c : Nat} (hc : c < 0x110000) : unicodeToUtf8 c = utf8 c := by
  unfold unicodeToUtf8 utf8
  simp only [tail_byte, Nat.shiftRight_eq_div_pow, show ¬ 0x80000000 ≤ c by omega,
    show c < 0x00200000 by omega, if_true, if_false]
  split_ifs
  · rfl
  · rw [first_byte2 (by omega)]
    rfl
  · rw [first_byte3 (by omega)]
    rfl
  · rw [first_byte4 (by omega)]
    rfl

theorem toNat_ofNat {n : Nat} (h : n < 256) : (UInt8.ofNat n).toNat = n := by
  simp [Nat.mod_eq_of_lt h]

theorem unicodeFromUtf8Loop_tail (l c x : Nat) (p : List UInt8) :
    unicodeFromUtf8Loop (l + 1) c (UInt8.ofNat (x % 64 + 0x80) :: p) =
      unicodeFromUtf8Loop l (c * 64 + x % 64) p := by
  have hbyte : (UInt8.ofNat (x % 64 + 0x80)).toNat = x % 64 + 0x80 := toNat_ofNat (by omega)
  have hor : c <<< 6 ||| (x % 64) = c * 64 + x % 64 := by
    rw [Nat.shiftLeft_eq, Nat.or_comm, Nat.mul_comm]
    exact (or_eq_add 6 c (by omega)).trans (by omega)
  rw [unicodeFromUtf8Loop, hbyte, if_neg (by omega), and_3f]
  rw [show (x % 64 + 0x80) % 64 = x % 64 by omega, hor]

theorem unicodeFromUtf8_of_loop {b l c : Nat} {p next : List UInt8} (hb : 0x80 ≤ b) (hlt : b < 256)
    (hl : utf8Following b = some l) (hp : l ≤ p.length)
    (hloop : unicodeFromUtf8Loop l (b &&& utf8FirstCodeMask (l - 1)) p = some (c, next))
    (hmin : utf8MinCode (l - 1) ≤ c) :
    unicodeFromUtf8 (UInt8.ofNat b :: p) = some (c, next) := by
  simp only [unicodeFromUtf8, toNat_ofNat hlt, hl, hloop]
  rw [if_neg (by omega), if_neg (by omega), if_neg (by omega)]

theorem first_mask2 {x : Nat} (h : x < 32) : (x + 0xc0) &&& utf8FirstCodeMask 0 = x := by
  have hmod := Nat.and_two_pow_sub_one_eq_mod (x + 0xc0) 5
  exact hmod.trans (by omega)

theorem first_mask3 {x : Nat} (h : x < 16) : (x + 0xe0) &&& utf8FirstCodeMask 1 = x := by
  have hmod := Nat.and_two_pow_sub_one_eq_mod (x + 0xe0) 4
  exact hmod.trans (by omega)

theorem first_mask4 {x : Nat} (h : x < 8) : (x + 0xf0) &&& utf8FirstCodeMask 2 = x := by
  have hmod := Nat.and_two_pow_sub_one_eq_mod (x + 0xf0) 3
  exact hmod.trans (by omega)

/-- The decoder reads back one encoded code point. -/
theorem unicodeFromUtf8_utf8 {c : Nat} (hc : c < 0x110000) (p : List UInt8) :
    unicodeFromUtf8 (utf8 c ++ p) = some (c, p) := by
  unfold utf8
  split_ifs with h1 h2 h3 <;> simp only [List.cons_append, List.nil_append]
  · simp [unicodeFromUtf8, Nat.mod_eq_of_lt (show c < 256 by omega), h1]
  · refine unicodeFromUtf8_of_loop (l := 1) (by omega) (by omega) (if_pos (by omega)) (by simp)
      ?_ (Nat.le_of_not_lt h1)
    have hvalue : c / 64 * 64 + c % 64 = c := by omega
    rw [first_mask2 (by omega), unicodeFromUtf8Loop_tail, unicodeFromUtf8Loop, hvalue]
  · have hl : utf8Following (c / 4096 + 0xe0) = some 2 := by
      rw [utf8Following, if_neg (by omega), if_pos (by omega)]
    refine unicodeFromUtf8_of_loop (l := 2) (by omega) (by omega) hl (by simp)
      ?_ (Nat.le_of_not_lt h2)
    have hvalue : (c / 4096 * 64 + c / 64 % 64) * 64 + c % 64 = c := by omega
    rw [first_mask3 (by omega), unicodeFromUtf8Loop_tail, unicodeFromUtf8Loop_tail,
      unicodeFromUtf8Loop, hvalue]
  · have hl : utf8Following (c / 262144 + 0xf0) = some 3 := by
      rw [utf8Following, if_neg (by omega), if_neg (by omega), if_pos (by omega)]
    refine unicodeFromUtf8_of_loop (l := 3) (by omega) (by omega) hl (by simp)
      ?_ (Nat.le_of_not_lt h3)
    have hvalue : ((c / 262144 * 64 + c / 4096 % 64) * 64 + c / 64 % 64) * 64 + c % 64 = c := by
      omega
    rw [first_mask4 (by omega), unicodeFromUtf8Loop_tail, unicodeFromUtf8Loop_tail,
      unicodeFromUtf8Loop_tail, unicodeFromUtf8Loop, hvalue]

/-! ## Reading encoded text back -/

theorem utf8_length_pos (c : Nat) : 0 < (utf8 c).length := by
  unfold utf8
  split_ifs <;> simp

theorem utf8_eq_singleton {c : Nat} (h : c < 0x80) : utf8 c = [UInt8.ofNat c] := if_pos h

/-- The first byte of a longer sequence is none of the ASCII ones. -/
theorem utf8_eq_cons {c : Nat} (hc : c < 0x110000) (h : ¬ c < 0x80) :
    ∃ b bs, utf8 c = b :: bs ∧ ¬ b.toNat < 128 := by
  unfold utf8
  split_ifs
  all_goals
    refine ⟨_, _, rfl, ?_⟩
    rw [toNat_ofNat (by omega)]
    omega

theorem newStringLoop_utf8 {cs : List Nat} (hcs : ∀ c ∈ cs, c < 0x110000) (fuel : Nat)
    (hfuel : (cs.flatMap utf8).length ≤ fuel) :
    newStringLoop fuel (cs.flatMap utf8) = cs.flatMap utf16 := by
  induction cs generalizing fuel with
  | nil => cases fuel <;> rfl
  | cons c cs ih =>
    rw [List.forall_mem_cons] at hcs
    obtain ⟨hc, hcs⟩ := hcs
    rw [List.flatMap_cons, List.length_append] at hfuel
    have hpos := utf8_length_pos c
    obtain ⟨n, rfl⟩ : ∃ n, fuel = n + 1 := ⟨fuel - 1, by omega⟩
    have hrest := ih hcs n (by omega)
    rw [List.flatMap_cons, List.flatMap_cons]
    by_cases hascii : c < 0x80
    · have hb : (UInt8.ofNat c).toNat = c := toNat_ofNat (by omega)
      have hunit : utf16 c = [(UInt8.ofNat c).toUInt16] := by
        have hback := utf16_of_unit (UInt8.ofNat c).toUInt16
        rwa [UInt8.toNat_toUInt16, hb] at hback
      rw [utf8_eq_singleton hascii, hunit, List.cons_append, List.nil_append]
      simp only [newStringLoop, hb, hascii, if_true, hrest, List.cons_append, List.nil_append]
    · obtain ⟨b, bs, hutf8, hb⟩ := utf8_eq_cons hc hascii
      have hparse := unicodeFromUtf8_utf8 hc (cs.flatMap utf8)
      rw [hutf8, List.cons_append] at hparse
      rw [hutf8, List.cons_append]
      simp only [newStringLoop, hb, if_false, hparse, hrest, utf16]
      split_ifs with hunit
      · rfl
      · rw [Nat.shiftRight_eq_div_pow, and_3ff]
        rfl
      · omega

/-- The scan for a start in ASCII does not change what the loop makes of the bytes. -/
theorem newStringLoop_ascii (start rest : List UInt8) (h : ∀ b ∈ start, isAscii b) :
    newStringLoop (start ++ rest).length (start ++ rest) =
      start.map UInt8.toUInt16 ++ newStringLoop rest.length rest := by
  induction start with
  | nil => rfl
  | cons b start ih =>
    rw [List.forall_mem_cons] at h
    have hb : b.toNat < 128 := by simpa [isAscii] using h.1
    simp only [List.cons_append, List.length_cons, List.map_cons, newStringLoop, hb, if_true]
    rw [ih h.2]

theorem jsNewStringLen_eq (buf : List UInt8) : jsNewStringLen buf =
    if jsStringLenMax < (buf.takeWhile isAscii).length then none
    else some (newStringLoop buf.length buf) := by
  have hascii := newStringLoop_ascii (buf.takeWhile isAscii) (buf.dropWhile isAscii)
    fun b hb => List.mem_takeWhile_imp hb
  rw [List.takeWhile_append_dropWhile] at hascii
  simp only [jsNewStringLen]
  split_ifs with hlong hrest
  · rfl
  · have hall : buf.takeWhile isAscii = buf := by
      have happend := List.takeWhile_append_dropWhile (p := isAscii) (l := buf)
      rwa [hrest, List.append_nil] at happend
    rw [hascii, hrest, hall]
    simp [newStringLoop]
  · rw [hascii]

/-- Encoded text is read back, unless it starts with more ASCII than a string can hold. -/
theorem jsNewStringLen_utf8 {cs : List Nat} (hcs : ∀ c ∈ cs, c < 0x110000)
    (hlong : ((cs.flatMap utf8).takeWhile isAscii).length ≤ jsStringLenMax) :
    jsNewStringLen (cs.flatMap utf8) = some (cs.flatMap utf16) := by
  rw [jsNewStringLen_eq, if_neg (by omega), newStringLoop_utf8 hcs _ (Nat.le_refl _)]

/-! ## Encoding a string -/

theorem codePoints_str8 (s : List UInt8) :
    codePoints (s.map UInt8.toUInt16) = s.map UInt8.toNat := by
  induction s with
  | nil => rfl
  | cons b s ih =>
    cases s with
    | nil => simp [codePoints]
    | cons c s =>
      have hb := b.toNat_lt
      have hhigh : ¬ IsHigh b.toUInt16 := by
        simp only [IsHigh, UInt8.toNat_toUInt16]
        omega
      simpa [codePoints, hhigh] using ih

theorem toCString8_eq (s : List UInt8) : toCString8 s = (s.map UInt8.toNat).flatMap utf8 := by
  induction s with
  | nil => rfl
  | cons b s ih =>
    have hb := b.toNat_lt
    rw [toCString8, List.flatMap_cons, ← toCString8, ih, List.map_cons, List.flatMap_cons]
    congr 1
    unfold utf8
    split_ifs
    · simp
    · rw [tail_byte, Nat.shiftRight_eq_div_pow, first_byte2 (by omega)]
    · omega
    · omega

theorem toCString8_ascii {s : List UInt8} (h : s.all isAscii) : toCString8 s = s := by
  induction s with
  | nil => rfl
  | cons b s ih =>
    rw [List.all_cons, Bool.and_eq_true] at h
    have hb : b.toNat < 0x80 := by simpa [isAscii] using h.1
    rw [toCString8, List.flatMap_cons, ← toCString8, ih h.2, if_pos hb]
    rfl

theorem toCString16_eq (s : List UInt16) : toCString16 false s = (codePoints s).flatMap utf8 := by
  have hunit : ∀ u : UInt16, unicodeToUtf8 u.toNat = utf8 u.toNat := fun u => by
    have hu := u.toNat_lt
    exact unicodeToUtf8_eq (by omega)
  fun_induction codePoints s with
  | case1 => rfl
  | case2 u => simp [toCString16, hunit]
  | case3 u v us h ih =>
    have hpair : ((u.toNat &&& 0x3ff) <<< 10 ||| (v.toNat &&& 0x3ff)) + 0x10000 = pair u v := by
      rw [and_3ff, and_3ff, Nat.shiftLeft_eq, Nat.or_comm, Nat.mul_comm,
        or_eq_add 10 (u.toNat % 1024) (show v.toNat % 1024 < 2 ^ 10 by omega)]
      unfold pair
      omega
    have hpair_lt : pair u v < 0x110000 := by unfold pair; omega
    rw [toCString16, if_pos ⟨h.1.1, h.1.2, rfl, h.2.1, h.2.2⟩, hpair, unicodeToUtf8_eq hpair_lt, ih]
    rfl
  | case4 u v us h ih =>
    rw [toCString16, if_neg fun hpair => h ⟨⟨hpair.1, hpair.2.1⟩, hpair.2.2.2⟩, hunit, ih]
    rfl

theorem jsToCString_utf8 (str : JSString) :
    jsToCString str = (codePoints str.units).flatMap utf8 := by
  cases str with
  | str16 s => exact toCString16_eq s
  | str8 s =>
    rw [JSString.units, codePoints_str8, ← toCString8_eq, jsToCString, jsToCStringLen2]
    split_ifs with hascii
    · exact (toCString8_ascii hascii).symm
    · rfl

end IoQuickJS.Text
