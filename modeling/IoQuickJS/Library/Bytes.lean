import Mathlib.Data.List.Basic
import Mathlib.Data.Nat.Bitwise
import Mathlib.Tactic.Ring

/-!
# Numbers as sequences of bytes

`digits n x` is `x` in `n` bytes, least significant first, and `value` reads such a sequence;
`store` writes a sequence into a memory of bytes, and `load` reads one back.

## Main results

* `value_digits`, `digits_value`: the two are inverse to each other.
* `load_store`, `getElem?_store`: what is stored is loaded again, and nothing else is changed.
* `and_byte`, `value_reverse_digits`: the bytes of a number by masks and shifts.
-/
namespace Bytes

/-- The `n` low bytes of `x`, least significant first. -/
def digits : Nat → Nat → List UInt8
  | 0, _ => []
  | n + 1, x => UInt8.ofNat x :: digits n (x / 256)

/-- The number with these bytes, least significant first. -/
def value : List UInt8 → Nat
  | [] => 0
  | b :: bs => b.toNat + 256 * value bs

@[simp] theorem length_digits (n x : Nat) : (digits n x).length = n := by
  induction n generalizing x with
  | zero => rfl
  | succ n ih => simp [digits, ih]

theorem value_lt (bs : List UInt8) : value bs < 256 ^ bs.length := by
  induction bs with
  | nil => decide
  | cons b bs ih =>
    have hb := b.toNat_lt
    rw [value, List.length_cons, Nat.pow_succ]
    omega

theorem value_digits (n x : Nat) : value (digits n x) = x % 256 ^ n := by
  induction n generalizing x with
  | zero => simp [digits, value, Nat.mod_one]
  | succ n ih =>
    have hbyte : (UInt8.ofNat x).toNat = x % 256 := by simp
    rw [digits, value, ih, hbyte, Nat.pow_succ, Nat.mul_comm (256 ^ n) 256, Nat.mod_mul]

theorem digits_value (bs : List UInt8) : digits bs.length (value bs) = bs := by
  induction bs with
  | nil => rfl
  | cons b bs ih =>
    have hb := b.toNat_lt
    have hlow : UInt8.ofNat (b.toNat + 256 * value bs) = b := by
      rw [← UInt8.toNat_inj, UInt8.toNat_ofNat']
      omega
    have hhigh : (b.toNat + 256 * value bs) / 256 = value bs := by omega
    rw [List.length_cons, value, digits, hlow, hhigh, ih]

theorem digits_mod (n x : Nat) : digits n (x % 256 ^ n) = digits n x := by
  have h := digits_value (digits n x)
  rwa [length_digits, value_digits] at h

/-! ## Memory -/

/-- The `n` bytes from `ptr` on. -/
def load (data : List UInt8) (ptr n : Nat) : List UInt8 := (data.drop ptr).take n

/-- Write the bytes one after the other from `ptr` on. -/
def store (data : List UInt8) (ptr : Nat) : List UInt8 → List UInt8
  | [] => data
  | b :: bs => store (data.set ptr b) (ptr + 1) bs

@[simp] theorem length_store (data : List UInt8) (ptr : Nat) (bs : List UInt8) :
    (store data ptr bs).length = data.length := by
  induction bs generalizing data ptr with
  | nil => rfl
  | cons b bs ih => simp [store, ih]

theorem length_load {data : List UInt8} {ptr n : Nat} (h : ptr + n ≤ data.length) :
    (load data ptr n).length = n := by
  simp [load]
  omega

theorem getElem?_store (data : List UInt8) (ptr : Nat) (bs : List UInt8) (i : Nat)
    (h : i < ptr ∨ ptr + bs.length ≤ i) : (store data ptr bs)[i]? = data[i]? := by
  induction bs generalizing data ptr with
  | nil => rfl
  | cons b bs ih =>
    rw [List.length_cons] at h
    rw [store, ih _ _ (by omega), List.getElem?_set_ne (by omega)]

theorem load_store {data : List UInt8} {ptr : Nat} {bs : List UInt8}
    (h : ptr + bs.length ≤ data.length) : load (store data ptr bs) ptr bs.length = bs := by
  induction bs generalizing data ptr with
  | nil => simp [load]
  | cons b bs ih =>
    rw [List.length_cons] at h
    have hrest := @ih (data.set ptr b) (ptr + 1) (by simp; omega)
    have hfirst : (store (data.set ptr b) (ptr + 1) bs)[ptr]? = some b := by
      rw [getElem?_store _ _ _ _ (by omega), List.getElem?_set_self (by omega)]
    obtain ⟨hlt, hget⟩ := List.getElem?_eq_some_iff.mp hfirst
    rw [store, List.length_cons, load, List.drop_eq_getElem_cons hlt, hget, List.take_succ_cons]
    exact congrArg (b :: ·) hrest

/-! ## One byte of a number -/

/-- The byte of `x` from bit `k` on. -/
def byteAt (x k : Nat) : Nat := x / 2 ^ k % 256

theorem and_byte (x k : Nat) : x &&& (0xff <<< k) = byteAt x k <<< k := by
  have hmod : byteAt x k = (x >>> k) &&& 0xff := by
    rw [byteAt, Nat.shiftRight_eq_div_pow]
    exact (Nat.and_two_pow_sub_one_eq_mod _ 8).symm
  rw [hmod]
  refine Nat.eq_of_testBit_eq fun i => ?_
  by_cases hi : k ≤ i
  · simp [Nat.testBit_shiftLeft, Nat.testBit_shiftRight, hi]
  · simp [Nat.testBit_shiftLeft, hi]

theorem and_byte_shiftRight (x : Nat) {k j : Nat} (h : j ≤ k) :
    (x &&& 0xff <<< k) >>> j = byteAt x k <<< (k - j) := by
  obtain ⟨i, rfl⟩ := Nat.exists_eq_add_of_le h
  rw [and_byte, Nat.add_sub_cancel_left, Nat.add_comm j i, Nat.shiftLeft_add,
    Nat.shiftLeft_shiftRight]

theorem and_byte_shiftLeft (x : Nat) {k j w : Nat} (h : k + j + 8 ≤ w) :
    (x &&& 0xff <<< k) <<< j % 2 ^ w = byteAt x k <<< (k + j) := by
  rw [and_byte, ← Nat.shiftLeft_add]
  refine Nat.mod_eq_of_lt ?_
  have hbyte : byteAt x k < 2 ^ 8 := Nat.mod_lt _ (by decide)
  calc byteAt x k <<< (k + j) = byteAt x k * 2 ^ (k + j) := Nat.shiftLeft_eq _ _
    _ < 2 ^ 8 * 2 ^ (k + j) := Nat.mul_lt_mul_of_pos_right hbyte (Nat.two_pow_pos _)
    _ = 2 ^ (8 + (k + j)) := (Nat.pow_add _ _ _).symm
    _ ≤ 2 ^ w := Nat.pow_le_pow_right (by decide) (by omega)

theorem value_concat (bs : List UInt8) (b : UInt8) :
    value (bs ++ [b]) = value bs ||| b.toNat <<< (8 * bs.length) := by
  have hlt : value bs < 2 ^ (8 * bs.length) := by
    rw [Nat.pow_mul]
    exact value_lt bs
  rw [Nat.lor_comm, ← Nat.shiftLeft_add_eq_or_of_lt hlt, Nat.shiftLeft_eq]
  clear hlt
  induction bs with
  | nil => simp [value]
  | cons c cs ih =>
    rw [List.cons_append, value, value, ih, List.length_cons, Nat.mul_succ, Nat.pow_add]
    ring

theorem byteAt_div (x k : Nat) : byteAt (x / 256) k = byteAt x (8 + k) := by
  rw [byteAt, byteAt, Nat.pow_add, Nat.div_div_eq_div_mul]

/-- The lowest byte becomes the highest one. -/
theorem value_reverse_digits (n x : Nat) : value (digits (n + 1) x).reverse =
    value (digits n (x / 256)).reverse ||| byteAt x 0 <<< (8 * n) := by
  have hbyte : (UInt8.ofNat x).toNat = byteAt x 0 := by simp [byteAt]
  rw [digits, List.reverse_cons, value_concat, List.length_reverse, length_digits, hbyte]

/-! ## The order of the bytes -/

/-- The bytes in memory order, `bs` being least significant first. -/
def ordered (littleEndian : Bool) (bs : List UInt8) : List UInt8 :=
  if littleEndian then bs else bs.reverse

@[simp] theorem ordered_true (bs : List UInt8) : ordered true bs = bs := rfl

@[simp] theorem ordered_false (bs : List UInt8) : ordered false bs = bs.reverse := rfl

@[simp] theorem length_ordered (littleEndian : Bool) (bs : List UInt8) :
    (ordered littleEndian bs).length = bs.length := by
  cases littleEndian <;> simp

@[simp] theorem ordered_ordered (littleEndian : Bool) (bs : List UInt8) :
    ordered littleEndian (ordered littleEndian bs) = bs := by
  cases littleEndian <;> simp

theorem ordered_not (littleEndian : Bool) (bs : List UInt8) :
    ordered (!littleEndian) (ordered littleEndian bs) = bs.reverse := by
  cases littleEndian <;> simp

/-- Swapping the bytes of a number read in one order reads it in the other. -/
theorem value_swap {bs : List UInt8} {n : Nat} (h : bs.length = n) (littleEndian : Bool) :
    value (digits n (value (ordered littleEndian bs))).reverse =
      value (ordered (!littleEndian) bs) := by
  have hlen : (ordered littleEndian bs).length = n := by rw [length_ordered, h]
  rw [← hlen, digits_value]
  cases littleEndian <;> simp

theorem digits_swap (n x : Nat) :
    digits n (value (digits n x).reverse) = (digits n x).reverse := by
  have h := digits_value (digits n x).reverse
  rwa [List.length_reverse, length_digits] at h

end Bytes
