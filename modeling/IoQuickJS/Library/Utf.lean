import Mathlib.Data.List.Basic
import Mathlib.Data.Char

/-!
# UTF-8 and UTF-16 over code points

Both encodings on every code point below `0x110000`, surrogates included: a surrogate that is not
part of a pair is encoded like any other code point of its size. `codePoints` reads code units back
as code points, taking a high surrogate and a low one after it as one.

## Main results

* `utf16_codePoints`: encoding the code points of a text gives the code units of that text.
* `utf8_char`: on scalar values the encoding is the one of `String.utf8EncodeChar`.
-/
namespace Utf

/-- The encoding of a code point in 8-bit units. -/
def utf8 (c : Nat) : List UInt8 :=
  if c < 0x80 then [UInt8.ofNat c]
  else if c < 0x800 then [UInt8.ofNat (c / 64 + 0xc0), UInt8.ofNat (c % 64 + 0x80)]
  else if c < 0x10000 then
    [UInt8.ofNat (c / 4096 + 0xe0), UInt8.ofNat (c / 64 % 64 + 0x80), UInt8.ofNat (c % 64 + 0x80)]
  else
    [UInt8.ofNat (c / 262144 + 0xf0), UInt8.ofNat (c / 4096 % 64 + 0x80),
      UInt8.ofNat (c / 64 % 64 + 0x80), UInt8.ofNat (c % 64 + 0x80)]

/-- The encoding of a code point in 16-bit units. -/
def utf16 (c : Nat) : List UInt16 :=
  if c < 0x10000 then [UInt16.ofNat c]
  else [UInt16.ofNat ((c - 0x10000) / 1024 + 0xd800), UInt16.ofNat ((c - 0x10000) % 1024 + 0xdc00)]

def IsHigh (u : UInt16) : Prop := 0xd800 ≤ u.toNat ∧ u.toNat < 0xdc00

def IsLow (u : UInt16) : Prop := 0xdc00 ≤ u.toNat ∧ u.toNat < 0xe000

instance (u : UInt16) : Decidable (IsHigh u) := inferInstanceAs (Decidable (_ ∧ _))

instance (u : UInt16) : Decidable (IsLow u) := inferInstanceAs (Decidable (_ ∧ _))

/-- The code point of a surrogate pair. -/
def pair (u v : UInt16) : Nat := u.toNat % 1024 * 1024 + v.toNat % 1024 + 0x10000

/-- The code points of a text in 16-bit units. -/
def codePoints : List UInt16 → List Nat
  | [] => []
  | [u] => [u.toNat]
  | u :: v :: us => if IsHigh u ∧ IsLow v then pair u v :: codePoints us
    else u.toNat :: codePoints (v :: us)

theorem utf16_of_unit (u : UInt16) : utf16 u.toNat = [u] := by
  have hu := u.toNat_lt
  simp [utf16, hu]

theorem utf16_pair {u v : UInt16} (hu : IsHigh u) (hv : IsLow v) : utf16 (pair u v) = [u, v] := by
  unfold IsHigh at hu
  unfold IsLow at hv
  have hhigh : (pair u v - 0x10000) / 1024 + 0xd800 = u.toNat := by unfold pair; omega
  have hlow : (pair u v - 0x10000) % 1024 + 0xdc00 = v.toNat := by unfold pair; omega
  have hbig : ¬ pair u v < 0x10000 := by unfold pair; omega
  simp [utf16, hbig, hhigh, hlow]

theorem utf16_codePoints (us : List UInt16) : (codePoints us).flatMap utf16 = us := by
  fun_induction codePoints us with
  | case1 => rfl
  | case2 u => simp [utf16_of_unit]
  | case3 u v us h ih => simp [utf16_pair h.1 h.2, ih]
  | case4 u v us h ih => simp [utf16_of_unit, ih]

theorem codePoints_lt (us : List UInt16) : ∀ c ∈ codePoints us, c < 0x110000 := by
  fun_induction codePoints us with
  | case1 => simp
  | case2 u =>
    have hu := u.toNat_lt
    simp
    omega
  | case3 u v us h ih =>
    rw [List.forall_mem_cons]
    exact ⟨by unfold pair; omega, ih⟩
  | case4 u v us h ih =>
    have hu := u.toNat_lt
    rw [List.forall_mem_cons]
    exact ⟨by omega, ih⟩

theorem zero_mem_codePoints_iff (us : List UInt16) : 0 ∈ codePoints us ↔ 0 ∈ us := by
  have hunit : ∀ u : UInt16, 0 = u.toNat ↔ 0 = u := fun u => by
    rw [← UInt16.toNat_inj]
    rfl
  fun_induction codePoints us with
  | case1 => simp
  | case2 u => simp [hunit]
  | case3 u v us h ih =>
    have hu : ¬ 0 = u.toNat := by have := h.1.1; omega
    have hv : ¬ 0 = v.toNat := by have := h.2.1; omega
    have hpair : ¬ 0 = pair u v := by unfold pair; omega
    simp only [List.mem_cons, hpair, ← hunit, hu, hv, false_or, ih]
  | case4 u v us h ih =>
    rw [List.mem_cons, hunit, List.mem_cons (l := v :: us)]
    exact or_congr Iff.rfl ih

theorem ofNat_ne_zero {n : Nat} (hpos : 0 < n) (hlt : n < 256) : UInt8.ofNat n ≠ 0 := by
  intro h
  have hn : n % 256 = 0 := by simpa using congrArg UInt8.toNat h
  omega

/-- Only the code point zero is encoded with a zero byte. -/
theorem zero_mem_utf8_iff {c : Nat} (hc : c < 0x110000) : 0 ∈ utf8 c ↔ c = 0 := by
  constructor
  · intro h
    by_contra hne
    unfold utf8 at h
    split_ifs at h <;> simp only [List.mem_cons, List.not_mem_nil, or_false] at h
    · exact ofNat_ne_zero (by omega) (by omega) h.symm
    · rcases h with h | h <;> exact ofNat_ne_zero (by omega) (by omega) h.symm
    · rcases h with h | h | h <;> exact ofNat_ne_zero (by omega) (by omega) h.symm
    · rcases h with h | h | h | h <;> exact ofNat_ne_zero (by omega) (by omega) h.symm
  · rintro rfl
    decide

theorem zero_mem_text_iff (us : List UInt16) :
    0 ∈ (codePoints us).flatMap utf8 ↔ 0 ∈ us := by
  rw [← zero_mem_codePoints_iff, List.mem_flatMap]
  constructor
  · rintro ⟨c, hc, hzero⟩
    rwa [(zero_mem_utf8_iff (codePoints_lt us c hc)).mp hzero] at hc
  · exact fun h => ⟨0, h, by decide⟩

/-- On scalar values this is the encoding of strings. -/
theorem utf8_char (c : Char) : utf8 c.toNat = String.utf8EncodeChar c := by
  have hc : c.val.toNat < 0x110000 := by
    rcases c.valid with h | ⟨-, h⟩
    · omega
    · exact h
  simp only [utf8, String.utf8EncodeChar, Char.toNat]
  generalize c.val.toNat = n at hc ⊢
  split_ifs <;> first | omega | (congr 2 <;> omega)

end Utf
