import IoQuickJS.Map.MapRefines
import Mathlib.Algebra.GroupWithZero.Nat
import Mathlib.Data.Nat.Log

/-!
# The keys of Map and Set

map_normalize_key, js_same_value_zero and map_hash_key on the values of the script engine. The
hash of an integer is taken of its product with 3163 and carries another tag than the hash of a
float, so the two spellings of one number, which compare equal, end up in different buckets. On
all other keys the hash follows the comparison, and there Map and Set are what the language says.
-/
namespace IoQuickJS

/-- The values of a script as keys; a float is its bit pattern, a string its code units. The
extensions BigFloat and BigDecimal are left out. -/
inductive JSKey where
  | undefined
  | null
  | bool (b : Bool)
  | int (n : BitVec 32)
  | float64 (bits : BitVec 64)
  | string (chars : List UInt16)
  | symbol (p : Nat)
  | object (p : Nat)
  | bigInt (n : Int)
  deriving DecidableEq, Repr

/-! ## Doubles -/

/-- `d == 0` -/
def isZero64 (bits : BitVec 64) : Bool := bits <<< 1 == 0

/-- `isnan(d)` -/
def isNaN64 (bits : BitVec 64) : Bool := (0xffe0000000000000#64).ult (bits <<< 1)

/-- `d1 == d2` for doubles that are not NaN: only zero has two patterns. -/
def eq64 (a b : BitVec 64) : Bool := a == b || isZero64 a && isZero64 b

/-- The conversion of an int to a double, which is exact. -/
def doubleOfInt (n : Int) : BitVec 64 :=
  if n = 0 then 0
  else
    let m := n.natAbs
    let e := Nat.log2 m
    BitVec.ofNat 64 ((if n < 0 then 2 ^ 63 else 0) + (1023 + e) * 2 ^ 52 +
      (m - 2 ^ e) * 2 ^ (52 - e))

example : doubleOfInt 1 = 0x3ff0000000000000#64 ∧ doubleOfInt (-3) = 0xc008000000000000#64 := by
  decide

/-! ## Keys -/

namespace JSKey

/-- `JS_VALUE_GET_NORM_TAG` -/
def normTag : JSKey → BitVec 32
  | .bigInt _ => -10
  | .symbol _ => -8
  | .string _ => -7
  | .object _ => -1
  | .int _ => 0
  | .bool _ => 1
  | .null => 2
  | .undefined => 3
  | .float64 _ => 7

/-- `map_normalize_key` -/
def mapNormalizeKey : JSKey → JSKey
  | .float64 bits => if isZero64 bits then .int 0 else .float64 bits
  | key => key

/-- The comparison of two numbers in `js_strict_eq2` with JS_EQ_SAME_VALUE_ZERO. -/
def sameNumber (d1 d2 : BitVec 64) : Bool :=
  if isNaN64 d1 || isNaN64 d2 then isNaN64 d1 == isNaN64 d2 else eq64 d1 d2

/-- `js_same_value_zero` -/
def jsSameValueZero : JSKey → JSKey → Bool
  | .bool a, .bool b => a == b
  | .null, .null => true
  | .undefined, .undefined => true
  | .string a, .string b => a == b
  | .symbol a, .symbol b => a == b
  | .object a, .object b => a == b
  | .int a, .int b => sameNumber (doubleOfInt a.toInt) (doubleOfInt b.toInt)
  | .int a, .float64 b => sameNumber (doubleOfInt a.toInt) b
  | .float64 a, .int b => sameNumber a (doubleOfInt b.toInt)
  | .float64 a, .float64 b => sameNumber a b
  | .bigInt a, .bigInt b => a == b
  | _, _ => false

/-- `hash_string` -/
def hashString (chars : List UInt16) (h : BitVec 32) : BitVec 32 :=
  chars.foldl (fun h c => h * 263 + BitVec.ofNat 32 c.toNat) h

/-- The hash of a double from its two words. -/
def hashFloat64 (d : BitVec 64) : BitVec 32 := (d.setWidth 32 ^^^ (d >>> 32).setWidth 32) * 3163

/-- `map_hash_key` -/
def mapHashKey (key : JSKey) : BitVec 32 :=
  let h := match key with
    | .bool b => if b then 1 else 0
    | .string chars => hashString chars 0
    | .object p | .symbol p => BitVec.ofNat 32 p * 3163
    | .int n => hashFloat64 (doubleOfInt (n * 3163).toInt)
    | .float64 d => hashFloat64 (if isNaN64 d then 0x7ff8000000000000 else d)
    | _ => 0
  h ^^^ key.normTag

/-- The key is hashed as it is compared: not a float that is zero or holds an int. -/
def plain : JSKey → Prop
  | .float64 bits => isZero64 bits = false ∧ ∀ n : BitVec 32, doubleOfInt n.toInt ≠ bits
  | _ => True

end JSKey

/-! ## Ints as doubles -/

/-- The fraction bits of a positive integer. -/
def fraction (m : Nat) : Nat := (m - 2 ^ Nat.log2 m) * 2 ^ (52 - Nat.log2 m)

theorem log2_le {m : Nat} (hm : m ≠ 0) (hle : m ≤ 2 ^ 31) : Nat.log2 m ≤ 31 := by
  have hlow : 2 ^ Nat.log2 m ≤ m := Nat.log2_self_le hm
  by_contra hgt
  have : 2 ^ 32 ≤ 2 ^ Nat.log2 m := Nat.pow_le_pow_right (by omega) (by omega)
  omega

theorem fraction_lt {m : Nat} (hm : m ≠ 0) (hle : m ≤ 2 ^ 31) : fraction m < 2 ^ 52 := by
  have hhigh : m < 2 ^ (Nat.log2 m + 1) := Nat.lt_log2_self
  have hlog := log2_le hm hle
  calc fraction m < 2 ^ Nat.log2 m * 2 ^ (52 - Nat.log2 m) := by
        refine Nat.mul_lt_mul_of_pos_right ?_ (Nat.two_pow_pos _)
        rw [Nat.pow_succ] at hhigh
        have := Nat.two_pow_pos (Nat.log2 m)
        omega
    _ = 2 ^ 52 := by rw [← Nat.pow_add]; congr 1; omega

/-- The sign, exponent and fraction of an int other than zero. -/
theorem doubleOfInt_toNat {n : Int} (h0 : n ≠ 0) (hn : n.natAbs ≤ 2 ^ 31) :
    (doubleOfInt n).toNat = (if n < 0 then 2 ^ 63 else 0) + (1023 + Nat.log2 n.natAbs) * 2 ^ 52 +
      fraction n.natAbs := by
  have hm : n.natAbs ≠ 0 := Int.natAbs_ne_zero.mpr h0
  have hlog := log2_le hm hn
  have hfraction := fraction_lt hm hn
  have hval : doubleOfInt n = BitVec.ofNat 64 ((if n < 0 then 2 ^ 63 else 0) +
      (1023 + Nat.log2 n.natAbs) * 2 ^ 52 + fraction n.natAbs) := by
    simp only [doubleOfInt, if_neg h0, fraction]
  rw [hval, BitVec.toNat_ofNat]
  refine Nat.mod_eq_of_lt ?_
  split_ifs <;> omega

/-- The exponent of an int is between those of zero and NaN. -/
theorem doubleOfInt_bounds {n : Int} (h0 : n ≠ 0) (hn : n.natAbs ≤ 2 ^ 31) :
    0 < ((doubleOfInt n) <<< 1).toNat ∧ ((doubleOfInt n) <<< 1).toNat < 0xffe0000000000000 := by
  have hm : n.natAbs ≠ 0 := Int.natAbs_ne_zero.mpr h0
  have hlog := log2_le hm hn
  have hfraction := fraction_lt hm hn
  have hval := doubleOfInt_toNat h0 hn
  rw [BitVec.toNat_shiftLeft, Nat.shiftLeft_eq, hval]
  split_ifs <;> omega

theorem doubleOfInt_injective {n m : Int} (hn : n.natAbs ≤ 2 ^ 31) (hm : m.natAbs ≤ 2 ^ 31)
    (h : doubleOfInt n = doubleOfInt m) : n = m := by
  by_cases hn0 : n = 0
  · by_cases hm0 : m = 0
    · omega
    · have := doubleOfInt_bounds hm0 hm
      rw [← h, hn0] at this
      simp [doubleOfInt] at this
  by_cases hm0 : m = 0
  · have := doubleOfInt_bounds hn0 hn
    rw [h, hm0] at this
    simp [doubleOfInt] at this
  have hnabs : n.natAbs ≠ 0 := Int.natAbs_ne_zero.mpr hn0
  have hmabs : m.natAbs ≠ 0 := Int.natAbs_ne_zero.mpr hm0
  have hlogn := log2_le hnabs hn
  have hlogm := log2_le hmabs hm
  have hfracn := fraction_lt hnabs hn
  have hfracm := fraction_lt hmabs hm
  have hval := doubleOfInt_toNat hn0 hn
  rw [h, doubleOfInt_toNat hm0 hm] at hval
  have hparts : (n < 0 ↔ m < 0) ∧ Nat.log2 n.natAbs = Nat.log2 m.natAbs ∧
      fraction n.natAbs = fraction m.natAbs := by
    split_ifs at hval <;> omega
  obtain ⟨hsign, hlog, hfrac⟩ := hparts
  have hlown := Nat.log2_self_le hnabs
  have hlowm := Nat.log2_self_le hmabs
  rw [fraction, fraction, hlog] at hfrac
  have := Nat.eq_of_mul_eq_mul_right (Nat.two_pow_pos _) hfrac
  rw [hlog] at hlown
  omega

theorem natAbs_toInt_le (n : BitVec 32) : n.toInt.natAbs ≤ 2 ^ 31 := by
  have := BitVec.toInt_lt (x := n)
  have := BitVec.le_toInt (x := n)
  omega

theorem isNaN64_doubleOfInt (n : BitVec 32) : isNaN64 (doubleOfInt n.toInt) = false := by
  by_cases h0 : n.toInt = 0
  · rw [h0]
    decide
  · have := (doubleOfInt_bounds h0 (natAbs_toInt_le n)).2
    simp only [isNaN64, BitVec.ult, decide_eq_false_iff_not, Nat.not_lt]
    exact Nat.le_of_lt this

theorem isZero64_doubleOfInt {n : BitVec 32} (h : isZero64 (doubleOfInt n.toInt) = true) :
    n = 0 := by
  by_contra hne
  have h0 : n.toInt ≠ 0 := fun h0 => hne (BitVec.eq_of_toInt_eq (by simpa using h0))
  have := (doubleOfInt_bounds h0 (natAbs_toInt_le n)).1
  simp only [isZero64, beq_iff_eq] at h
  rw [h] at this
  simp at this

/-! ## The comparison and the hash -/

namespace JSKey

/-- Ints are compared as ints. -/
theorem sameNumber_ints (a b : BitVec 32) :
    sameNumber (doubleOfInt a.toInt) (doubleOfInt b.toInt) = (a == b) := by
  rw [sameNumber, isNaN64_doubleOfInt, isNaN64_doubleOfInt, Bool.eq_iff_iff]
  simp only [Bool.or_self, Bool.false_eq_true, if_false, eq64, Bool.or_eq_true, beq_iff_eq,
    Bool.and_eq_true]
  constructor
  · rintro (h | ⟨ha, hb⟩)
    · exact BitVec.eq_of_toInt_eq
        (doubleOfInt_injective (natAbs_toInt_le a) (natAbs_toInt_le b) h)
    · rw [isZero64_doubleOfInt ha, isZero64_doubleOfInt hb]
  · rintro rfl
    exact .inl rfl

theorem sameNumber_comm (a b : BitVec 64) : sameNumber a b = sameNumber b a := by
  simp only [sameNumber, eq64, Bool.or_comm (isNaN64 a), Bool.and_comm (isZero64 a),
    Bool.beq_comm (a := isNaN64 a), BEq.comm (a := a)]

/-- Two floats that are not zero are the same if both are NaN or their patterns are equal. -/
theorem sameNumber_floats {a b : BitVec 64} (ha : isZero64 a = false) :
    sameNumber a b ↔ isNaN64 a = true ∧ isNaN64 b = true ∨ isNaN64 a = false ∧ a = b := by
  cases hna : isNaN64 a <;> cases hnb : isNaN64 b <;> simp [sameNumber, eq64, hna, hnb, ha]
  rintro rfl
  simp_all

/-- A float that holds no int differs from every int. -/
theorem sameNumber_int_float {n : BitVec 32} {b : BitVec 64} (hb : plain (.float64 b)) :
    sameNumber (doubleOfInt n.toInt) b = false := by
  obtain ⟨hzero, hint⟩ := hb
  simp [sameNumber, isNaN64_doubleOfInt, eq64, hzero, hint n]

theorem jsSameValueZero_comm (a b : JSKey) : jsSameValueZero a b = jsSameValueZero b a := by
  cases a <;> cases b <;> simp [jsSameValueZero, sameNumber_comm, BEq.comm]

/-- What two plain keys that are the same have in common. -/
theorem same_cases {a b : JSKey} (ha : plain a) (hb : plain b) (h : jsSameValueZero a b) :
    a = b ∨ ∃ x y, a = .float64 x ∧ b = .float64 y ∧ isNaN64 x = true ∧ isNaN64 y = true := by
  cases a <;> cases b <;> simp only [jsSameValueZero, beq_iff_eq, Bool.false_eq_true] at h
  case int.int a b =>
    rw [sameNumber_ints, beq_iff_eq] at h
    exact .inl (congrArg _ h)
  case int.float64 a b => simp [sameNumber_int_float hb] at h
  case float64.int a b =>
    rw [sameNumber_comm, sameNumber_int_float ha] at h
    cases h
  case float64.float64 a b =>
    rcases (sameNumber_floats ha.1).mp h with ⟨hna, hnb⟩ | ⟨-, rfl⟩
    · exact .inr ⟨a, b, rfl, rfl, hna, hnb⟩
    · exact .inl rfl
  all_goals exact .inl (by simp_all)

theorem same_nan {x y : BitVec 64} (hx : isNaN64 x = true) (hy : isNaN64 y = true) :
    jsSameValueZero (.float64 x) (.float64 y) = true := by
  simp [jsSameValueZero, sameNumber, hx, hy]

theorem same_refl {a : JSKey} (_ : plain a) : jsSameValueZero a a := by
  cases a with
  | float64 bits => cases h : isNaN64 bits <;> simp [jsSameValueZero, sameNumber, eq64, h]
  | int n => simp [jsSameValueZero, sameNumber_ints]
  | _ => simp [jsSameValueZero]

/-- The keys of the script engine. -/
def ops : KeyOps JSKey where
  undefined := .undefined
  normalize := mapNormalizeKey
  same := jsSameValueZero
  hash := fun key => (mapHashKey key).toNat
  plain := plain
  same_refl := same_refl
  same_symm := fun _ _ h => by rwa [jsSameValueZero_comm]
  same_trans := fun ha hb hc hab hbc => by
    rcases same_cases ha hb hab with rfl | ⟨x, y, rfl, rfl, hx, hy⟩
    · exact hbc
    · rcases same_cases hb hc hbc with rfl | ⟨y', z, hy', rfl, -, hz⟩
      · exact same_nan hx hy
      · exact same_nan hx hz
  hash_eq := fun ha hb h => by
    rcases same_cases ha hb h with rfl | ⟨x, y, rfl, rfl, hx, hy⟩
    · rfl
    · simp [mapHashKey, normTag, hx, hy]

/-- After normalization only the floats that hold an int other than zero are left out. -/
theorem plain_normalize {key : JSKey}
    (h : ∀ n : BitVec 32, n ≠ 0 → key ≠ .float64 (doubleOfInt n.toInt)) :
    plain (mapNormalizeKey key) := by
  cases key with
  | float64 bits =>
    rw [mapNormalizeKey]
    cases hzero : isZero64 bits with
    | true => trivial
    | false =>
      refine ⟨hzero, fun n hn => ?_⟩
      by_cases hn0 : n = 0
      · subst hn0
        subst hn
        cases hzero
      · exact h n hn0 (congrArg _ hn.symm)
  | _ => trivial

end JSKey

/-- The call passes no float that holds an int other than zero as a key. -/
def IntsAsInts : MapLabel JSKey → Prop
  | .set key .. | .get key | .has key | .delete key _ =>
    ∀ n : BitVec 32, n ≠ 0 → key ≠ .float64 (doubleOfInt n.toInt)
  | _ => True

theorem IntsAsInts.plainKey {l : MapLabel JSKey} (h : IntsAsInts l) :
    JSMapState.PlainKey JSKey.ops l := by
  cases l with
  | set key | get key | has key | delete key => exact JSKey.plain_normalize h
  | _ => trivial

/-- Map and Set return in every sequence of calls what the language's list of entries does, and
touch no record that has been freed, whatever is added and deleted while iterators and forEach
calls are under way. What clear releases, and the result of a callback, must not be the last to
hold an iterator that has come past an entry which has been deleted since. -/
theorem map_refines_entries (isSet : Bool) (ls : List (MapLabel JSKey))
    (h : ∀ l ∈ ls, IntsAsInts l)
    (hsafe : Transition.Meets (Simulation.states (MapData.step JSKey.ops))
      (fun d l => d.releasesSafely l = true) (MapData.new isSet) ls) :
    Simulation.trace (JSMapState.step JSKey.ops) (JSMapState.new isSet) ls =
      Simulation.trace (MapData.step JSKey.ops) (MapData.new isSet) ls :=
  JSMapState.trace_eq_spec isSet ls (hsafe.and_labels fun l hl => (h l hl).plainKey)

/-- A Map with two entries, and an iterator that has come past the second one. -/
def pastBoth : List (MapLabel JSKey) :=
  [.set (.int 1) (.object 0) true none [], .set (.int 2) .null true none [],
    .createIterator .key true, .next 0 true, .next 0 true]

/-- The entry that the iterator stands on is deleted and another one added; the iterator dies when
the value of the first entry is replaced. -/
theorem map_refines_entries_deleted :
    Simulation.trace (JSMapState.step JSKey.ops) (JSMapState.new false)
        (pastBoth ++ [.delete (.int 2) [], .set (.string [97]) .null true none [],
          .set (.int 1) .null true none [0], .clear [[], []], .size]) =
      Simulation.trace (MapData.step JSKey.ops) (MapData.new false)
        (pastBoth ++ [.delete (.int 2) [], .set (.string [97]) .null true none [],
          .set (.int 1) .null true none [0], .clear [[], []], .size]) :=
  map_refines_entries false _ (by simp [pastBoth, IntsAsInts]) (by decide +kernel)

/-- The condition on what is released is needed. Clear deletes the first record, whose value is the
iterator, and goes on to the record that the iterator has been the last to hold; so does forEach
when its function returns the iterator. -/
example :
    Simulation.trace (JSMapState.step JSKey.ops) (JSMapState.new false)
        (pastBoth ++ [.delete (.int 2) [], .clear [[0]]]) = none ∧
      Simulation.trace (JSMapState.step JSKey.ops) (JSMapState.new false)
        (pastBoth ++ [.forEach, .delete (.int 2) [], .forEachReturn false [] [0]]) = none ∧
      (Simulation.trace (MapData.step JSKey.ops) (MapData.new false)
        (pastBoth ++ [.delete (.int 2) [], .clear [[0]]])).isSome ∧
      (Simulation.trace (MapData.step JSKey.ops) (MapData.new false)
        (pastBoth ++ [.forEach, .delete (.int 2) [], .forEachReturn false [] [0]])).isSome := by
  decide +kernel

/-- The condition on the keys is needed: with more than one bucket the entry made for the int `1`
is not found for the float `1.0`. -/
example : Simulation.trace (JSMapState.step JSKey.ops) (JSMapState.new false)
    [.set (.int 1) .null true none [], .set .null .null true none [],
      .set .undefined .null true none [], .set (.bool true) .null true (some 0) [],
      .has (.int 1), .has (.float64 (doubleOfInt 1))] =
      some [.this, .this, .this, .this, .bool true, .bool false] := by
  decide +kernel

end IoQuickJS
