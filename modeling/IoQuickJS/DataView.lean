import IoQuickJS.Library.Bytes

/-!
# The byte accessors and DataView

`cutils.h` reads and writes the elements of a buffer one byte at a time through a union, so the
bytes of a union are in the host's order; `js_dataview_getValue` and `js_dataview_setValue` swap
them when the order asked for is the other one. `WORDS_BIGENDIAN` is the parameter
`wordsBigEndian` of the definitions here.

Positions, flags and values are given as their conversions: these are made before a function
looks at the buffer. A float is its bit pattern throughout.

## Main results

* `DataView.getValue_eq`, `DataView.written_eq`: what is read and written, on every host.
* `DataView.setValue_storesThenLoads_iff`: which stores are loaded again.
-/
namespace IoQuickJS
open Bytes

/-! ## `cutils.h` -/

/-- The array `b` of a union whose `v` is `x`. -/
def unionBytes (wordsBigEndian : Bool) (n x : Nat) : List UInt8 :=
  ordered (!wordsBigEndian) (digits n x)

/-- The `v` of a union whose array `b` is `bs`. -/
def unionValue (wordsBigEndian : Bool) (bs : List UInt8) : Nat :=
  value (ordered (!wordsBigEndian) bs)

def getU16 (wordsBigEndian : Bool) (tab : List UInt8) (ptr : Nat) : UInt32 :=
  UInt32.ofNat (unionValue wordsBigEndian (load tab ptr 2))

def putU16 (wordsBigEndian : Bool) (tab : List UInt8) (ptr : Nat) (val : UInt16) : List UInt8 :=
  store tab ptr (unionBytes wordsBigEndian 2 val.toNat)

def getU32 (wordsBigEndian : Bool) (tab : List UInt8) (ptr : Nat) : UInt32 :=
  UInt32.ofNat (unionValue wordsBigEndian (load tab ptr 4))

def putU32 (wordsBigEndian : Bool) (tab : List UInt8) (ptr : Nat) (val : UInt32) : List UInt8 :=
  store tab ptr (unionBytes wordsBigEndian 4 val.toNat)

def getU64 (wordsBigEndian : Bool) (tab : List UInt8) (ptr : Nat) : UInt64 :=
  UInt64.ofNat (unionValue wordsBigEndian (load tab ptr 8))

/-- `put_u64` fills its union with `val` and then copies the memory into the union. -/
def putU64 (wordsBigEndian : Bool) (tab : List UInt8) (ptr : Nat) (val : UInt64) : List UInt8 :=
  -- the loop's `*b++ = *tab++` writes to the union, and nothing is written to `tab`
  (tab, store (unionBytes wordsBigEndian 8 val.toNat) 0 (load tab ptr 8)).1

def bswap16 (x : UInt16) : UInt16 := (x >>> 8) ||| (x <<< 8)

def bswap32 (v : UInt32) : UInt32 :=
  ((v &&& 0xff000000) >>> 24) ||| ((v &&& 0x00ff0000) >>> 8) |||
    ((v &&& 0x0000ff00) <<< 8) ||| ((v &&& 0x000000ff) <<< 24)

def bswap64 (v : UInt64) : UInt64 :=
  ((v &&& ((0xff : UInt64) <<< (7 * 8))) >>> (7 * 8)) |||
    ((v &&& ((0xff : UInt64) <<< (6 * 8))) >>> (5 * 8)) |||
    ((v &&& ((0xff : UInt64) <<< (5 * 8))) >>> (3 * 8)) |||
    ((v &&& ((0xff : UInt64) <<< (4 * 8))) >>> (1 * 8)) |||
    ((v &&& ((0xff : UInt64) <<< (3 * 8))) <<< (1 * 8)) |||
    ((v &&& ((0xff : UInt64) <<< (2 * 8))) <<< (3 * 8)) |||
    ((v &&& ((0xff : UInt64) <<< (1 * 8))) <<< (5 * 8)) |||
    ((v &&& ((0xff : UInt64) <<< (0 * 8))) <<< (7 * 8))

theorem toNat_bswap16 (v : UInt16) :
    (bswap16 v).toNat = value (digits 2 v.toNat).reverse := by
  have hv := v.toNat_lt
  have hhigh : v.toNat >>> 8 = byteAt v.toNat 8 := by
    rw [byteAt, Nat.shiftRight_eq_div_pow]
    omega
  have hlow : v.toNat <<< 8 % 2 ^ 16 = byteAt v.toNat 0 <<< 8 := by
    simp only [byteAt, Nat.shiftLeft_eq]
    omega
  simp only [bswap16, UInt16.toNat_or, UInt16.toNat_shiftRight, UInt16.toNat_shiftLeft,
    UInt16.reduceToNat, Nat.reduceMod, hhigh, hlow]
  simp only [value_reverse_digits, byteAt_div, Nat.reduceAdd, Nat.reduceMul]
  simp [digits, value]

theorem toNat_bswap32 (v : UInt32) :
    (bswap32 v).toNat = value (digits 4 v.toNat).reverse := by
  have h3 := @and_byte_shiftRight v.toNat 24 24 (by decide)
  have h2 := @and_byte_shiftRight v.toNat 16 8 (by decide)
  have h1 := @and_byte_shiftLeft v.toNat 8 8 32 (by decide)
  have h0 := @and_byte_shiftLeft v.toNat 0 24 32 (by decide)
  simp only [Nat.reduceShiftLeft, Nat.reduceSub, Nat.reduceAdd, Nat.shiftLeft_zero] at h3 h2 h1 h0
  simp only [bswap32, UInt32.toNat_or, UInt32.toNat_shiftRight, UInt32.toNat_shiftLeft,
    UInt32.toNat_and, UInt32.reduceToNat, Nat.reduceMod, h3, h2, h1, h0]
  simp only [value_reverse_digits, byteAt_div, Nat.reduceAdd, Nat.reduceMul]
  simp [digits, value]

theorem toNat_bswap64 (v : UInt64) :
    (bswap64 v).toNat = value (digits 8 v.toNat).reverse := by
  have h7 := @and_byte_shiftRight v.toNat 56 56 (by decide)
  have h6 := @and_byte_shiftRight v.toNat 48 40 (by decide)
  have h5 := @and_byte_shiftRight v.toNat 40 24 (by decide)
  have h4 := @and_byte_shiftRight v.toNat 32 8 (by decide)
  have h3 := @and_byte_shiftLeft v.toNat 24 8 64 (by decide)
  have h2 := @and_byte_shiftLeft v.toNat 16 24 64 (by decide)
  have h1 := @and_byte_shiftLeft v.toNat 8 40 64 (by decide)
  have h0 := @and_byte_shiftLeft v.toNat 0 56 64 (by decide)
  simp only [Nat.reduceShiftLeft, Nat.reduceSub, Nat.reduceAdd, Nat.shiftLeft_zero,
    Nat.reducePow] at h7 h6 h5 h4 h3 h2 h1 h0
  simp only [bswap64, UInt64.toNat_or, UInt64.toNat_shiftRight, UInt64.toNat_shiftLeft,
    UInt64.toNat_and, UInt64.reduceMul, UInt64.reduceToNat, Nat.reduceMod, Nat.reduceShiftLeft,
    Nat.reducePow, h7, h6, h5, h4, h3, h2, h1, h0]
  simp only [value_reverse_digits, byteAt_div, Nat.reduceAdd, Nat.reduceMul]
  simp [digits, value]

/-! ## What an accessor and its byte swap make together -/

section Accessors

variable {wordsBigEndian littleEndian : Bool} {tab : List UInt8} {ptr n : Nat}

/-- `is_swap`: the order asked for is not the host's. -/
def isSwap (wordsBigEndian littleEndian : Bool) : Bool :=
  -- `is_swap ^= 1` unless WORDS_BIGENDIAN
  if wordsBigEndian then littleEndian else !littleEndian

/-- The number of the `n` bytes at `ptr` in the order asked for. -/
def loaded (littleEndian : Bool) (tab : List UInt8) (ptr n : Nat) : Nat :=
  value (ordered littleEndian (load tab ptr n))

theorem loaded_lt (h : ptr + n ≤ tab.length) : loaded littleEndian tab ptr n < 256 ^ n := by
  have hlt := value_lt (ordered littleEndian (load tab ptr n))
  rwa [length_ordered, length_load h] at hlt

theorem unionValue_lt (h : ptr + n ≤ tab.length) :
    unionValue wordsBigEndian (load tab ptr n) < 256 ^ n :=
  loaded_lt h

/-- Reading through the union and swapping is reading in the order asked for. -/
theorem swapped_unionValue (h : ptr + n ≤ tab.length) :
    (if isSwap wordsBigEndian littleEndian
      then value (digits n (unionValue wordsBigEndian (load tab ptr n))).reverse
      else unionValue wordsBigEndian (load tab ptr n)) = loaded littleEndian tab ptr n := by
  have hswap := value_swap (length_load h)
  cases wordsBigEndian <;> cases littleEndian <;> simp [isSwap, unionValue, loaded]
  · simpa using hswap true
  · simpa using hswap false

/-- Swapping and writing through the union is writing in the order asked for. -/
theorem unionBytes_swapped (x : Nat) :
    unionBytes wordsBigEndian n (if isSwap wordsBigEndian littleEndian
      then value (digits n x).reverse else x) = ordered littleEndian (digits n x) := by
  cases wordsBigEndian <;> cases littleEndian <;> simp [isSwap, unionBytes, digits_swap]

theorem toNat_getU16 (h : ptr + 2 ≤ tab.length) :
    (if isSwap wordsBigEndian littleEndian
      then (bswap16 (getU16 wordsBigEndian tab ptr).toUInt16).toUInt32
      else getU16 wordsBigEndian tab ptr).toNat = loaded littleEndian tab ptr 2 := by
  have hlt := @unionValue_lt wordsBigEndian _ _ _ h
  have hv : (getU16 wordsBigEndian tab ptr).toNat = unionValue wordsBigEndian (load tab ptr 2) :=
    UInt32.toNat_ofNat_of_lt' (Nat.lt_trans hlt (by decide))
  have hv16 : (getU16 wordsBigEndian tab ptr).toUInt16.toNat =
      unionValue wordsBigEndian (load tab ptr 2) := by
    rw [UInt32.toNat_toUInt16, hv]
    omega
  rw [← @swapped_unionValue wordsBigEndian _ _ _ _ h]
  split
  · rw [UInt16.toNat_toUInt32, toNat_bswap16, hv16]
  · exact hv

theorem toNat_getU32 (h : ptr + 4 ≤ tab.length) :
    (if isSwap wordsBigEndian littleEndian then bswap32 (getU32 wordsBigEndian tab ptr)
      else getU32 wordsBigEndian tab ptr).toNat = loaded littleEndian tab ptr 4 := by
  have hlt := @unionValue_lt wordsBigEndian _ _ _ h
  have hv : (getU32 wordsBigEndian tab ptr).toNat = unionValue wordsBigEndian (load tab ptr 4) :=
    UInt32.toNat_ofNat_of_lt' hlt
  rw [← @swapped_unionValue wordsBigEndian _ _ _ _ h]
  split
  · rw [toNat_bswap32, hv]
  · exact hv

theorem toNat_getU64 (h : ptr + 8 ≤ tab.length) :
    (if isSwap wordsBigEndian littleEndian then bswap64 (getU64 wordsBigEndian tab ptr)
      else getU64 wordsBigEndian tab ptr).toNat = loaded littleEndian tab ptr 8 := by
  have hlt := @unionValue_lt wordsBigEndian _ _ _ h
  have hv : (getU64 wordsBigEndian tab ptr).toNat = unionValue wordsBigEndian (load tab ptr 8) :=
    UInt64.toNat_ofNat_of_lt' hlt
  rw [← @swapped_unionValue wordsBigEndian _ _ _ _ h]
  split
  · rw [toNat_bswap64, hv]
  · exact hv

theorem putU16_eq (v : UInt32) :
    putU16 wordsBigEndian tab ptr (if isSwap wordsBigEndian littleEndian
      then (bswap16 v.toUInt16).toUInt32 else v).toUInt16 =
    store tab ptr (ordered littleEndian (digits 2 v.toNat)) := by
  have hdigits : digits 2 v.toUInt16.toNat = digits 2 v.toNat := by
    rw [UInt32.toNat_toUInt16]
    exact digits_mod 2 v.toNat
  rw [putU16, ← hdigits, ← @unionBytes_swapped wordsBigEndian]
  split
  · rw [UInt16.toUInt16_toUInt32, toNat_bswap16]
  · rfl

theorem putU32_eq (v : UInt32) :
    putU32 wordsBigEndian tab ptr (if isSwap wordsBigEndian littleEndian
      then bswap32 v else v) = store tab ptr (ordered littleEndian (digits 4 v.toNat)) := by
  rw [putU32, ← @unionBytes_swapped wordsBigEndian]
  split
  · rw [toNat_bswap32]
  · rfl

end Accessors

/-! ## `js_dataview_getValue` and `js_dataview_setValue` -/

/-- The classes the accessors of `DataView.prototype` are made for. -/
inductive ElementType
  | int8
  | uint8
  | int16
  | uint16
  | int32
  | uint32
  | bigInt64
  | bigUint64
  | float32
  | float64
deriving DecidableEq, Repr

/-- The table `typed_array_size_log2`. -/
def ElementType.sizeLog2 : ElementType → Nat
  | int8 | uint8 => 0
  | int16 | uint16 => 1
  | int32 | uint32 | float32 => 2
  | bigInt64 | bigUint64 | float64 => 3

/-- `1 << typed_array_size_log2(class_id)` -/
def ElementType.size (classId : ElementType) : Nat := 1 <<< classId.sizeLog2

/-- What `js_dataview_getValue` returns to the script. -/
inductive Element
  | int32 (v : Int32)
  | uint32 (v : UInt32)
  | bigInt64 (v : Int64)
  | bigUint64 (v : UInt64)
  | float32 (bits : UInt32)
  | float64 (bits : UInt64)
deriving DecidableEq, Repr

/-- The element of this type whose bit pattern is `x`. -/
def ElementType.element (x : Nat) : ElementType → Element
  | int8 => .int32 (UInt8.ofNat x).toInt8.toInt32
  | uint8 => .int32 (UInt8.ofNat x).toUInt32.toInt32
  | int16 => .int32 (UInt16.ofNat x).toInt16.toInt32
  | uint16 => .int32 (UInt16.ofNat x).toUInt32.toInt32
  | int32 => .int32 (UInt32.ofNat x).toInt32
  | uint32 => .uint32 (UInt32.ofNat x)
  | bigInt64 => .bigInt64 (UInt64.ofNat x).toInt64
  | bigUint64 => .bigUint64 (UInt64.ofNat x)
  | float32 => .float32 (UInt32.ofNat x)
  | float64 => .float64 (UInt64.ofNat x)

inductive DataViewError
  /-- The exception of the conversion of an argument. -/
  | conversion
  /-- The TypeError "ArrayBuffer is detached". -/
  | detached
  /-- The RangeError "out of bound". -/
  | outOfBound
deriving DecidableEq, Repr

/-- A value by what its conversions give, `none` for an exception. -/
structure Operand where
  toUint32 : Option UInt32
  toBigInt64 : Option UInt64
  /-- The double, and the float it is converted to. -/
  toFloat64 : Option (UInt64 × UInt32)

/-- `v` and `v64` of `js_dataview_setValue`. -/
def Operand.convert (val : Operand) : ElementType → Option (UInt32 × UInt64)
  | .int8 | .uint8 | .int16 | .uint16 | .int32 | .uint32 => val.toUint32.map fun v => (v, 0)
  | .bigInt64 | .bigUint64 => val.toBigInt64.map fun v64 => (0, v64)
  | .float32 => val.toFloat64.map fun d => (d.2, 0)
  | .float64 => val.toFloat64.map fun d => (0, d.1)

/-- The bit pattern of the element: the low bytes of `v`, or those of `v64`. -/
def ElementType.pattern (classId : ElementType) (v : UInt32) (v64 : UInt64) : Nat :=
  (if classId.size = 8 then v64.toNat else v.toNat) % 256 ^ classId.size

/-- A DataView with the memory of its array buffer. -/
structure DataView where
  data : List UInt8
  detached : Bool
  offset : Nat
  length : Nat
  within : detached = false → offset + length ≤ data.length

namespace DataView

variable (wordsBigEndian : Bool)

def getValue (ta : DataView) (classId : ElementType) (pos : Nat) (littleEndian : Bool) :
    Except DataViewError Element :=
  if ta.detached then
    .error .detached
  else if pos + classId.size > ta.length then
    .error .outOfBound
  else
    let swap := isSwap wordsBigEndian littleEndian
    let ptr := ta.offset + pos
    let v16 := getU16 wordsBigEndian ta.data ptr
    let v32 := getU32 wordsBigEndian ta.data ptr
    let v64 := getU64 wordsBigEndian ta.data ptr
    let swapped16 := if swap then (bswap16 v16.toUInt16).toUInt32 else v16
    let swapped32 := if swap then bswap32 v32 else v32
    let swapped64 := if swap then bswap64 v64 else v64
    match classId with
    | .int8 => .ok (.int32 (ta.data.getD ptr 0).toInt8.toInt32)
    | .uint8 => .ok (.int32 (ta.data.getD ptr 0).toUInt32.toInt32)
    | .int16 => .ok (.int32 swapped16.toUInt16.toInt16.toInt32)
    | .uint16 => .ok (.int32 swapped16.toInt32)
    | .int32 => .ok (.int32 swapped32.toInt32)
    | .uint32 => .ok (.uint32 swapped32)
    | .bigInt64 => .ok (.bigInt64 swapped64.toInt64)
    | .bigUint64 => .ok (.bigUint64 swapped64)
    | .float32 => .ok (.float32 swapped32)
    | .float64 => .ok (.float64 swapped64)

/-- The memory after the switch of `js_dataview_setValue`. -/
def written (classId : ElementType) (littleEndian : Bool) (tab : List UInt8) (ptr : Nat)
    (v : UInt32) (v64 : UInt64) : List UInt8 :=
  let swap := isSwap wordsBigEndian littleEndian
  match classId with
  | .int8 | .uint8 => tab.set ptr v.toUInt8
  | .int16 | .uint16 =>
    let v := if swap then (bswap16 v.toUInt16).toUInt32 else v
    putU16 wordsBigEndian tab ptr v.toUInt16
  | .int32 | .uint32 | .float32 =>
    putU32 wordsBigEndian tab ptr (if swap then bswap32 v else v)
  | .bigInt64 | .bigUint64 | .float64 =>
    putU64 wordsBigEndian tab ptr (if swap then bswap64 v64 else v64)

theorem length_written (classId : ElementType) (littleEndian : Bool) (tab : List UInt8)
    (ptr : Nat) (v : UInt32) (v64 : UInt64) :
    (written wordsBigEndian classId littleEndian tab ptr v v64).length = tab.length := by
  cases classId <;> simp [written, putU16, putU32, putU64]

def setValue (ta : DataView) (classId : ElementType) (pos : Nat) (val : Operand)
    (littleEndian : Bool) : Except DataViewError DataView :=
  match val.convert classId with
  | none => .error .conversion
  | some (v, v64) =>
    if ta.detached then
      .error .detached
    else if pos + classId.size > ta.length then
      .error .outOfBound
    else
      .ok { ta with
        data := written wordsBigEndian classId littleEndian ta.data (ta.offset + pos) v v64
        within := fun h => by rw [length_written]; exact ta.within h }

variable {wordsBigEndian : Bool} {ta : DataView} {classId : ElementType} {pos : Nat}
  {littleEndian : Bool} {val : Operand} {v : UInt32} {v64 : UInt64}

theorem in_range (hlive : ta.detached = false) (hpos : pos + classId.size ≤ ta.length) :
    ta.offset + pos + classId.size ≤ ta.data.length := by
  have hwithin := ta.within hlive
  omega

theorem load_one (h : ptr + 1 ≤ tab.length) : load tab ptr 1 = [tab.getD ptr 0] := by
  have hget : tab.getD ptr 0 = tab[ptr] := (List.getElem_eq_getD 0).symm
  rw [load, List.drop_eq_getElem_cons h, hget]
  rfl

/-- The element read is the one of the bytes in the order asked for, whatever the host. -/
theorem getValue_eq (hlive : ta.detached = false) (hpos : pos + classId.size ≤ ta.length) :
    ta.getValue wordsBigEndian classId pos littleEndian =
      .ok (classId.element (loaded littleEndian ta.data (ta.offset + pos) classId.size)) := by
  have hin := in_range hlive hpos
  have hfit : ¬ pos + classId.size > ta.length := by omega
  rw [getValue, hlive, if_neg (by simp), if_neg hfit]
  have h16 := @toNat_getU16 wordsBigEndian littleEndian ta.data (ta.offset + pos)
  have h32 := @toNat_getU32 wordsBigEndian littleEndian ta.data (ta.offset + pos)
  have h64 := @toNat_getU64 wordsBigEndian littleEndian ta.data (ta.offset + pos)
  cases classId with
  | int8 | uint8 =>
    have hbyte : loaded littleEndian ta.data (ta.offset + pos) 1 =
        (ta.data.getD (ta.offset + pos) 0).toNat := by
      rw [loaded, load_one hin]
      cases littleEndian <;> simp [value]
    simp [ElementType.element, ElementType.size, ElementType.sizeLog2, hbyte]
  | int16 => simp [ElementType.element, ElementType.size, ElementType.sizeLog2, ← h16 hin]
  | uint16 =>
    have hwide : ∀ x < 256 ^ 2, (UInt16.ofNat x).toUInt32 = UInt32.ofNat x := by
      intro x hx
      rw [← UInt32.toNat_inj, UInt16.toNat_toUInt32, UInt16.toNat_ofNat_of_lt' hx,
        UInt32.toNat_ofNat_of_lt' (Nat.lt_trans hx (by decide))]
    have hlt : loaded littleEndian ta.data (ta.offset + pos) 2 < 256 ^ 2 := loaded_lt hin
    have helement : ElementType.uint16.element (loaded littleEndian ta.data (ta.offset + pos) 2) =
        .int32 (UInt32.ofNat (loaded littleEndian ta.data (ta.offset + pos) 2)).toInt32 := by
      rw [ElementType.element, hwide _ hlt]
    have hsize : ElementType.uint16.size = 2 := rfl
    rw [hsize, helement, ← h16 hin, UInt32.ofNat_toNat]
  | int32 | uint32 | float32 =>
    simp [ElementType.element, ElementType.size, ElementType.sizeLog2, ← h32 hin]
  | bigInt64 | bigUint64 | float64 =>
    simp [ElementType.element, ElementType.size, ElementType.sizeLog2, ← h64 hin]

/-- What is stored: the pattern's bytes in the order asked for, unless there are eight of them. -/
theorem written_eq (tab : List UInt8) (ptr : Nat) :
    written wordsBigEndian classId littleEndian tab ptr v v64 =
      if classId.size = 8 then tab
      else store tab ptr (ordered littleEndian (digits classId.size (classId.pattern v v64))) := by
  rw [ElementType.pattern, digits_mod]
  cases classId with
  | int8 | uint8 =>
    have hbyte : UInt8.ofNat v.toNat = v.toUInt8 := UInt8.ofNat_uInt32ToNat v
    cases littleEndian <;>
      simp [written, ElementType.size, ElementType.sizeLog2, digits, store, hbyte]
  | int16 | uint16 => simp [written, ElementType.size, ElementType.sizeLog2, putU16_eq]
  | int32 | uint32 | float32 => simp [written, ElementType.size, ElementType.sizeLog2, putU32_eq]
  | bigInt64 | bigUint64 | float64 => simp [written, putU64, ElementType.size, ElementType.sizeLog2]

theorem setValue_ok (hlive : ta.detached = false) (hpos : pos + classId.size ≤ ta.length)
    (hval : val.convert classId = some (v, v64)) :
    ∃ ta', ta.setValue wordsBigEndian classId pos val littleEndian = .ok ta' ∧
      ta'.data = written wordsBigEndian classId littleEndian ta.data (ta.offset + pos) v v64 ∧
      ta'.detached = false ∧ ta'.offset = ta.offset ∧ ta'.length = ta.length := by
  have hfit : ¬ pos + classId.size > ta.length := by omega
  refine ⟨{ ta with
    data := written wordsBigEndian classId littleEndian ta.data (ta.offset + pos) v v64
    within := fun h => by rw [length_written]; exact ta.within h }, ?_, rfl, hlive, rfl, rfl⟩
  simp [setValue, hval, hlive, hfit]

theorem pattern_lt : classId.pattern v v64 < 256 ^ classId.size :=
  Nat.mod_lt _ (Nat.pow_pos (by decide))

/-- Two patterns of eight bytes are two elements. -/
theorem element_injective {x y : Nat} (hsize : classId.size = 8) (hx : x < 256 ^ 8)
    (hy : y < 256 ^ 8) (h : classId.element x = classId.element y) : x = y := by
  have hofNat : UInt64.ofNat x = UInt64.ofNat y := by
    cases classId with
    | bigInt64 =>
      simp only [ElementType.element, Element.bigInt64.injEq] at h
      exact congrArg Int64.toUInt64 h
    | bigUint64 | float64 => simpa [ElementType.element] using h
    | _ => simp [ElementType.size, ElementType.sizeLog2] at hsize
  rw [← UInt64.toNat_inj, UInt64.toNat_ofNat_of_lt' hx, UInt64.toNat_ofNat_of_lt' hy] at hofNat
  exact hofNat

theorem not_touched (i : Nat)
    (h : i < ta.offset + pos ∨ ta.offset + pos + classId.size ≤ i) :
    (written wordsBigEndian classId littleEndian ta.data (ta.offset + pos) v v64)[i]? =
      ta.data[i]? := by
  rw [written_eq]
  split
  · rfl
  · exact getElem?_store _ _ _ _ (by simpa using h)

/-- The law of a store: the same flag reads the value back, the other one its bytes reversed, and
no other byte is touched. -/
def StoresThenLoads (wordsBigEndian : Bool) (ta : DataView) (classId : ElementType) (pos : Nat)
    (val : Operand) (littleEndian : Bool) (x : Nat) : Prop :=
  ∃ ta', ta.setValue wordsBigEndian classId pos val littleEndian = .ok ta' ∧
    ta'.getValue wordsBigEndian classId pos littleEndian = .ok (classId.element x) ∧
    ta'.getValue wordsBigEndian classId pos (!littleEndian) =
      .ok (classId.element (value (digits classId.size x).reverse)) ∧
    ta'.data.length = ta.data.length ∧
    ∀ i, i < ta.offset + pos ∨ ta.offset + pos + classId.size ≤ i → ta'.data[i]? = ta.data[i]?

/-- The law holds once the bytes at the position are those of the value. -/
theorem storesThenLoads_of_load (hlive : ta.detached = false)
    (hpos : pos + classId.size ≤ ta.length) (hval : val.convert classId = some (v, v64))
    (hload : load (written wordsBigEndian classId littleEndian ta.data (ta.offset + pos) v v64)
        (ta.offset + pos) classId.size =
      ordered littleEndian (digits classId.size (classId.pattern v v64))) :
    ta.StoresThenLoads wordsBigEndian classId pos val littleEndian (classId.pattern v v64) := by
  obtain ⟨ta', hset, hdata, hlive', hoffset, hlength⟩ :=
    @setValue_ok wordsBigEndian ta classId pos littleEndian val v v64 hlive hpos hval
  have hpos' : pos + classId.size ≤ ta'.length := by rwa [hlength]
  rw [← hdata, ← hoffset] at hload
  have hsame : loaded littleEndian ta'.data (ta'.offset + pos) classId.size =
      classId.pattern v v64 := by
    rw [loaded, hload, ordered_ordered, value_digits, Nat.mod_eq_of_lt pattern_lt]
  have hother : loaded (!littleEndian) ta'.data (ta'.offset + pos) classId.size =
      value (digits classId.size (classId.pattern v v64)).reverse := by
    rw [loaded, hload, ordered_not]
  refine ⟨ta', hset, ?_, ?_, ?_, ?_⟩
  · rw [getValue_eq hlive' hpos', hsame]
  · rw [getValue_eq hlive' hpos', hother]
  · rw [hdata, length_written]
  · intro i hi
    rw [hdata, not_touched i hi]

/-- A store is loaded again exactly when the element has less than eight bytes, or its bytes are
in the buffer before the call. -/
theorem setValue_storesThenLoads_iff (hlive : ta.detached = false)
    (hpos : pos + classId.size ≤ ta.length) (hval : val.convert classId = some (v, v64)) :
    ta.StoresThenLoads wordsBigEndian classId pos val littleEndian (classId.pattern v v64) ↔
      classId.size ≠ 8 ∨
        load ta.data (ta.offset + pos) 8 = ordered littleEndian (digits 8 v64.toNat) := by
  have hin := in_range hlive hpos
  have hwritten := @written_eq wordsBigEndian classId littleEndian v v64 ta.data (ta.offset + pos)
  by_cases hsize : classId.size = 8
  case neg =>
    rw [if_neg hsize] at hwritten
    refine iff_of_true (storesThenLoads_of_load hlive hpos hval ?_) (.inl hsize)
    have hlen : (ordered littleEndian (digits classId.size (classId.pattern v v64))).length =
        classId.size := by simp
    have hload := load_store (show _ + _ ≤ _ from hlen.symm ▸ hin)
    rwa [hlen, ← hwritten] at hload
  case pos =>
    rw [if_pos hsize] at hwritten
    have hpattern : classId.pattern v v64 = v64.toNat := by
      rw [ElementType.pattern, if_pos hsize, hsize]
      exact Nat.mod_eq_of_lt v64.toNat_lt
    constructor
    · rintro ⟨ta', hset, hsame, -⟩
      obtain ⟨ta'', hset', hdata, hlive', hoffset, hlength⟩ :=
        @setValue_ok wordsBigEndian ta classId pos littleEndian val v v64 hlive hpos hval
      obtain rfl : ta' = ta'' := Except.ok.inj (hset.symm.trans hset')
      rw [getValue_eq hlive' (by rwa [hlength]), hdata, hwritten, hoffset, hpattern] at hsame
      rw [hsize] at hsame hin
      have hvalue := element_injective hsize (loaded_lt hin) v64.toNat_lt (Except.ok.inj hsame)
      have hbytes := digits_value (ordered littleEndian (load ta.data (ta.offset + pos) 8))
      rw [length_ordered, length_load hin, ← loaded, hvalue] at hbytes
      exact .inr (by rw [hbytes, ordered_ordered])
    · rintro (hne | hload)
      · exact absurd hsize hne
      · refine storesThenLoads_of_load hlive hpos hval ?_
        rw [hwritten, hpattern, hsize, hload]

/-- `new DataView(new ArrayBuffer(n))` -/
def ofArrayBuffer (n : Nat) : DataView :=
  ⟨List.replicate n 0, false, 0, n, fun _ => by simp⟩

/-- The number 1.5 as an argument. -/
def oneAndHalf : Operand := ⟨some 1, none, some (0x3ff8000000000000, 0x3fc00000)⟩

theorem setValue_storesThenLoads_float32 :
    (ofArrayBuffer 4).StoresThenLoads false .float32 0 oneAndHalf true
        (ElementType.float32.pattern 0x3fc00000 0) ↔
      ElementType.float32.size ≠ 8 ∨
        load (ofArrayBuffer 4).data ((ofArrayBuffer 4).offset + 0) 8 =
          ordered true (digits 8 (0 : UInt64).toNat) :=
  setValue_storesThenLoads_iff rfl (by decide) rfl

/-- Script reads 0 back after `setFloat64(0, 1.5, true)`. -/
theorem setValue_lost :
    ¬ (ofArrayBuffer 8).StoresThenLoads false .float64 0 oneAndHalf true
      (ElementType.float64.pattern 0 0x3ff8000000000000) := by
  rintro ⟨ta', hset, hsame, -⟩
  obtain rfl : _ = ta' := Except.ok.inj hset
  exact absurd hsame (by decide)

end DataView

end IoQuickJS
