import NativePreferences.Enhance.Parcel
import NativePreferences.Lib.Memory

/-!
# NativePreferences.Enhance.ParcelBuffer

**The marshalling of a value, copy by copy** (`preferences_value_parcel.cpp`). `Put` makes a
buffer of `CalSize` bytes, and the marshalling functions write to it with `memcpy_s` at a pointer
that they move along. Nothing but `CalSize` keeps them inside: apart from the basic types, each
copy is told that its destination is as large as what it copies.

Here a `std::string` is what it is in the source, any run of bytes (`RawValue`); `Parcel` has the
same layouts for Unicode texts. `encode` writes the layouts down that the source has in its
comments. When `memcpy_s` refuses is a parameter (`CopyCheck`).

`CalSize` adds up in 32 bits. It is the size of the encoding exactly if that is below `2 ^ 32`
(`marshalling_stays_inside_iff`).
-/

namespace NativePreferences

open Lib

/-- `PreferencesValue::value_`, with every `std::string` as its bytes. -/
inductive RawValue
  | monostate
  | int (v : Int32)
  | int64 (v : Int64)
  | float (bits : UInt32)
  | double (bits : UInt64)
  | bool (v : Bool)
  | string (v : Bytes)
  | stringArray (v : List Bytes)
  | boolArray (v : List Bool)
  | doubleArray (v : List UInt64)
  | uint8Array (v : Bytes)
  | object (valueStr : Bytes)
  | bigInt (v : BigInt)
  | intArray (v : List Int32)
  | int64Array (v : List Int64)
  deriving DecidableEq

/-- The texts of a value as bytes. -/
def PreferencesValue.raw : PreferencesValue → RawValue
  | .monostate => .monostate
  | .int v => .int v
  | .int64 v => .int64 v
  | .float bits => .float bits
  | .double bits => .double bits
  | .bool v => .bool v
  | .string v => .string (utf8 v)
  | .stringArray v => .stringArray (v.map utf8)
  | .boolArray v => .boolArray v
  | .doubleArray v => .doubleArray v
  | .uint8Array v => .uint8Array v
  | .object v => .object (utf8 v.valueStr)
  | .bigInt v => .bigInt v
  | .intArray v => .intArray v
  | .int64Array v => .int64Array v

namespace RawValue

/-! ### The layouts -/

/-- `GetTypeIndex`. -/
def typeIndex : RawValue → UInt8
  | .int _ => 1
  | .int64 _ => 2
  | .float _ => 3
  | .double _ => 4
  | .bool _ => 5
  | .string _ => 6
  | .stringArray _ => 7
  | .boolArray _ => 8
  | .doubleArray _ => 9
  | .uint8Array _ => 10
  | .object _ => 11
  | .bigInt _ => 12
  | .monostate | .intArray _ | .int64Array _ => 0

/-- One of the twelve kinds that `GetTypeIndex` distinguishes. -/
def Known (value : RawValue) : Prop := value.typeIndex ≠ 0

instance (value : RawValue) : Decidable value.Known := inferInstanceAs (Decidable (_ ≠ _))

/-- The sign of a `BigInt` in 64 bits. -/
def signBytes (sign : Int32) : Bytes := bytesOf 8 sign.toInt64.toBitVec.toNat

/-- What the comments of the source draw: the type, the number of elements where there may be any
number, and the elements. -/
def encode : RawValue → Bytes
  | .int v => 1 :: bytesOf 4 v.toBitVec.toNat
  | .int64 v => 2 :: bytesOf 8 v.toBitVec.toNat
  | .float bits => 3 :: bytesOf 4 bits.toNat
  | .double bits => 4 :: bytesOf 8 bits.toNat
  | .bool v => 5 :: bytesOf 1 v.toNat
  | .string v => 6 :: (bytesOf 8 v.length ++ v)
  | .stringArray v => 7 :: (bytesOf 8 v.length ++ v.flatMap (fun s => bytesOf 8 s.length ++ s))
  | .boolArray v => 8 :: (bytesOf 8 v.length ++ v.flatMap (fun b => bytesOf 1 b.toNat))
  | .doubleArray v => 9 :: (bytesOf 8 v.length ++ v.flatMap (fun x => bytesOf 8 x.toNat))
  | .uint8Array v => 10 :: (bytesOf 8 v.length ++ v)
  | .object v => 11 :: (bytesOf 8 v.length ++ v)
  | .bigInt v =>
      12 :: (bytesOf 8 v.words.length ++
        (signBytes v.sign ++ v.words.flatMap (fun x => bytesOf 8 x.toNat)))
  | .monostate | .intArray _ | .int64Array _ => []

/-- `CalSize`. Sums of `size_t` are cut to 32 bits when they are returned or added. -/
def calSize : RawValue → UInt32
  | .int _ => 1 + 4
  | .int64 _ => 1 + 8
  | .float _ => 1 + 4
  | .double _ => 1 + 8
  | .bool _ => 1 + 1
  | .string v => 1 + 8 + UInt32.ofNat v.length
  | .object v => 1 + 8 + UInt32.ofNat v.length
  | .boolArray v => UInt32.ofNat (1 + 8 + v.length * 1)
  | .doubleArray v => UInt32.ofNat (1 + 8 + v.length * 8)
  | .uint8Array v => UInt32.ofNat (1 + 8 + v.length * 1)
  | .stringArray v => v.foldl (fun len s => len + 8 + UInt32.ofNat s.length) (1 + 8)
  | .bigInt v => UInt32.ofNat (1 + 8 + 8 + v.words.length * 8)
  | .monostate | .intArray _ | .int64Array _ => 0

/-- `PreferencesUtils::CheckValue`. -/
def checkValue : RawValue → ErrCode
  | .string val => lengthCheck val.length
  | .object obj => lengthCheck obj.length
  | .bigInt bigint => if bigint.words = [] then .error else .ok
  | _ => .ok

/-! ### Marshalling -/

/-- `data.data()` of a vector that was resized once. An empty vector has no memory. -/
def dataAddr (size : Nat) : Option Nat := if size = 0 then none else some 0

/-- A pointer that is moved on. -/
def advance (addr : Option Nat) (n : Nat) : Option Nat := addr.map (· + n)

/-- `MarshallingBasicValueInner`. -/
def marshallingBasicValueInner (basicData : Bytes) (size : Nat) : Copying ErrCode :=
  if size ≤ 1 then .ret .error
  else .orElse ⟨advance (dataAddr size) 1, size - 1, basicData⟩ .error (.ret .ok)

/-- `MarshallingBasicValue`. -/
def marshallingBasicValue (type : UInt8) (basicData : Bytes) (size : Nat) : Copying ErrCode :=
  .orElse ⟨dataAddr size, size, [type]⟩ .notSupported (marshallingBasicValueInner basicData size)

/-- `MarshallingStringValue`. -/
def marshallingStringValue (type : UInt8) (stringValue : Bytes) (size : Nat) : Copying ErrCode :=
  let startAddr := dataAddr size
  let strLen := stringValue.length
  .orElse ⟨startAddr, 1, [type]⟩ .minusError <|
    .orElse ⟨advance startAddr 1, 8, bytesOf 8 strLen⟩ .minusError <|
      if strLen = 0 then .ret .ok
      else .orElse ⟨advance startAddr (1 + 8), strLen, stringValue⟩ .minusError (.ret .ok)

/-- The loop of `MarshallingStringArrayValue`. -/
def marshallingStrings : Option Nat → List Bytes → Copying ErrCode
  | _, [] => .ret .ok
  | startAddr, s :: strVec =>
      let strLen := s.length
      .orElse ⟨startAddr, 8, bytesOf 8 strLen⟩ .minusError <|
        let startAddr := advance startAddr 8
        if strLen = 0 then marshallingStrings startAddr strVec
        else
          .orElse ⟨startAddr, strLen, s⟩ .minusError
            (marshallingStrings (advance startAddr strLen) strVec)

/-- `MarshallingStringArrayValue`. -/
def marshallingStringArrayValue (type : UInt8) (strVec : List Bytes) (size : Nat) :
    Copying ErrCode :=
  let startAddr := dataAddr size
  .orElse ⟨startAddr, 1, [type]⟩ .minusError <|
    let startAddr := advance startAddr 1
    .orElse ⟨startAddr, 8, bytesOf 8 strVec.length⟩ .minusError
      (marshallingStrings (advance startAddr 8) strVec)

/-- The loop over elements of `width` bytes in the functions below. -/
def marshallingItems (width : Nat) : Option Nat → List Bytes → Copying ErrCode
  | _, [] => .ret .ok
  | startAddr, item :: items =>
      .orElse ⟨startAddr, width, item⟩ .error
        (marshallingItems width (advance startAddr width) items)

/-- `MarshallingVecUInt8AfterType`. -/
def marshallingVecUInt8AfterType (vec : Bytes) (startAddr : Option Nat) : Copying ErrCode :=
  let vecNum := vec.length
  .orElse ⟨startAddr, 8, bytesOf 8 vecNum⟩ .error <|
    if vecNum = 0 then .ret .ok
    else .orElse ⟨advance startAddr 8, vecNum, vec⟩ .error (.ret .ok)

/-- `MarshallingVecBigIntAfterType`. -/
def marshallingVecBigIntAfterType (bigIntValue : BigInt) (startAddr : Option Nat) :
    Copying ErrCode :=
  .orElse ⟨startAddr, 8, bytesOf 8 bigIntValue.words.length⟩ .error <|
    let startAddr := advance startAddr 8
    .orElse ⟨startAddr, 8, signBytes bigIntValue.sign⟩ .error
      (marshallingItems 8 (advance startAddr 8)
        (bigIntValue.words.map (fun item => bytesOf 8 item.toNat)))

/-- `MarshallingVecDoubleAfterType`. -/
def marshallingVecDoubleAfterType (vec : List UInt64) (startAddr : Option Nat) : Copying ErrCode :=
  .orElse ⟨startAddr, 8, bytesOf 8 vec.length⟩ .error
    (marshallingItems 8 (advance startAddr 8) (vec.map (fun item => bytesOf 8 item.toNat)))

/-- `MarshallingVecBoolAfterType`. -/
def marshallingVecBoolAfterType (vec : List Bool) (startAddr : Option Nat) : Copying ErrCode :=
  .orElse ⟨startAddr, 8, bytesOf 8 vec.length⟩ .error
    (marshallingItems 1 (advance startAddr 8) (vec.map (fun item => bytesOf 1 item.toNat)))

/-- `MarshallingBasicArrayValue`. -/
def marshallingBasicArrayValue (type : UInt8) (afterType : Option Nat → Copying ErrCode)
    (size : Nat) : Copying ErrCode :=
  .orElse ⟨dataAddr size, 1, [type]⟩ .error (afterType (advance (dataAddr size) 1))

/-- `MarshallingPreferenceValue` into a buffer of this size. -/
def marshallingPreferenceValue (value : RawValue) (size : Nat) : Copying ErrCode :=
  let type := value.typeIndex
  match value with
  | .int v => marshallingBasicValue type (bytesOf 4 v.toBitVec.toNat) size
  | .int64 v => marshallingBasicValue type (bytesOf 8 v.toBitVec.toNat) size
  | .float bits => marshallingBasicValue type (bytesOf 4 bits.toNat) size
  | .double bits => marshallingBasicValue type (bytesOf 8 bits.toNat) size
  | .bool v => marshallingBasicValue type (bytesOf 1 v.toNat) size
  | .string v => marshallingStringValue type v size
  | .object v => marshallingStringValue type v size
  | .stringArray v => marshallingStringArrayValue type v size
  | .uint8Array v => marshallingBasicArrayValue type (marshallingVecUInt8AfterType v) size
  | .bigInt v => marshallingBasicArrayValue type (marshallingVecBigIntAfterType v) size
  | .doubleArray v => marshallingBasicArrayValue type (marshallingVecDoubleAfterType v) size
  | .boolArray v => marshallingBasicArrayValue type (marshallingVecBoolAfterType v) size
  | .monostate | .intArray _ | .int64Array _ => .ret .invalidArgs

/-- What `Put` does with a value: a buffer of `CalSize` bytes, and the marshalling into it. -/
def marshalled (value : RawValue) : Copying ErrCode :=
  value.marshallingPreferenceValue value.calSize.toNat

/-! ### `CalSize` -/

theorem strings_length (v : List Bytes) :
    (v.flatMap (fun s => bytesOf 8 s.length ++ s)).length =
      (v.map (fun s => 8 + s.length)).sum := by
  simp only [List.length_flatMap, List.length_append, bytesOf_length]

/-- The sum over the strings, in 32 bits. -/
theorem foldl_strings (v : List Bytes) (len : UInt32) :
    (v.foldl (fun len s => len + 8 + UInt32.ofNat s.length) len).toNat =
      (len.toNat + (v.map (fun s => 8 + s.length)).sum) % 2 ^ 32 := by
  induction v generalizing len with
  | nil =>
      rw [List.foldl_nil, List.map_nil, List.sum_nil, Nat.add_zero,
        Nat.mod_eq_of_lt len.toNat_lt]
  | cons s v ih =>
      rw [List.foldl_cons, ih, List.map_cons, List.sum_cons, UInt32.toNat_add, UInt32.toNat_add,
        UInt32.toNat_ofNat']
      have height : (8 : UInt32).toNat = 8 := rfl
      rw [height]
      omega

/-- **`CalSize` is the size of the encoding modulo `2 ^ 32`.** -/
theorem calSize_toNat (value : RawValue) :
    value.calSize.toNat = value.encode.length % 2 ^ 32 := by
  have hnine : (1 + 8 : UInt32).toNat = 9 := rfl
  cases value with
  | monostate | int | int64 | float | double | bool | intArray | int64Array =>
      simp only [calSize, encode, List.length_cons, bytesOf_length, List.length_nil]
      rfl
  | string v | object v =>
      simp only [calSize, encode, List.length_cons, List.length_append, bytesOf_length,
        UInt32.toNat_add, hnine, UInt32.toNat_ofNat']
      omega
  | stringArray v =>
      simp only [calSize, encode, List.length_cons, List.length_append, bytesOf_length,
        strings_length, foldl_strings, hnine]
      omega
  | boolArray v =>
      simp only [calSize, encode, List.length_cons, List.length_append, bytesOf_length,
        UInt32.toNat_ofNat', flatMap_length_of_size (fun b : Bool => bytesOf_length 1 b.toNat)]
      omega
  | doubleArray v =>
      simp only [calSize, encode, List.length_cons, List.length_append, bytesOf_length,
        UInt32.toNat_ofNat', flatMap_length_of_size (fun x : UInt64 => bytesOf_length 8 x.toNat)]
      omega
  | uint8Array v =>
      simp only [calSize, encode, List.length_cons, List.length_append, bytesOf_length,
        UInt32.toNat_ofNat']
      omega
  | bigInt v =>
      simp only [calSize, encode, signBytes, List.length_cons, List.length_append, bytesOf_length,
        UInt32.toNat_ofNat', flatMap_length_of_size (fun x : UInt64 => bytesOf_length 8 x.toNat)]
      omega

/-! ### What the functions lay down -/

section Lays

variable {check : CopyCheck} {limit : Nat} {p : Nat}

@[simp] theorem advance_some (p n : Nat) : advance (some p) n = some (p + n) := rfl

@[simp] theorem dataAddr_of_pos {size : Nat} (h : 0 < size) : dataAddr size = some 0 :=
  if_neg (Nat.pos_iff_ne_zero.mp h)

theorem lays_items {width : Nat} {items : List Bytes}
    (hitems : ∀ item ∈ items, item.length = width) :
    Copying.Lays check limit (· = .ok) (marshallingItems width (some p) items) p
      items.flatten := by
  induction items generalizing p with
  | nil => exact .done rfl
  | cons item items ih =>
      have hitem : item.length = width := hitems item List.mem_cons_self
      rw [List.flatten_cons, marshallingItems, advance_some, ← hitem]
      refine .exact_piece ?_ (by simp) rfl
      rw [hitem]
      exact ih (fun item' hmem => hitems item' (List.mem_cons_of_mem _ hmem))

theorem lays_strings (strVec : List Bytes) :
    Copying.Lays check limit (· = .ok) (marshallingStrings (some p) strVec) p
      (strVec.flatMap (fun s => bytesOf 8 s.length ++ s)) := by
  induction strVec generalizing p with
  | nil => exact .done rfl
  | cons s strVec ih =>
      rw [List.flatMap_cons, List.append_assoc, marshallingStrings]
      refine .exact_piece ?_ (by simp) (bytesOf_length _ _)
      rw [bytesOf_length, advance_some]
      dsimp only
      split
      · next hempty =>
        rw [List.length_eq_zero_iff.mp hempty]
        exact ih
      · exact .exact_piece ih (by simp) rfl

/-- The number of elements, and what is copied behind it unless there are none. -/
theorem lays_counted {code : ErrCode} (hcode : code ≠ .ok) (bs : Bytes) :
    Copying.Lays check limit (· = .ok)
      (.orElse ⟨some p, 8, bytesOf 8 bs.length⟩ code
        (if bs.length = 0 then .ret .ok
          else .orElse ⟨some (p + 8), bs.length, bs⟩ code (.ret .ok)))
      p (bytesOf 8 bs.length ++ bs) := by
  refine .exact_piece ?_ hcode (bytesOf_length _ _)
  rw [bytesOf_length]
  split
  · next hempty =>
    rw [List.length_eq_zero_iff.mp hempty]
    exact .done rfl
  · have hlays : Copying.Lays check limit (· = .ok)
        (.orElse ⟨some (p + 8), bs.length, bs⟩ code (.ret .ok)) (p + 8) (bs ++ []) :=
      .exact_piece (.done rfl) hcode rfl
    rw [List.append_nil] at hlays
    exact hlays

theorem lays_string (type : UInt8) (stringValue : Bytes) {size : Nat} (hsize : 0 < size) :
    Copying.Lays check limit (· = .ok) (marshallingStringValue type stringValue size) 0
      (type :: (bytesOf 8 stringValue.length ++ stringValue)) := by
  simp only [marshallingStringValue, dataAddr_of_pos hsize, advance_some]
  exact .exact_piece (lays_counted (by simp) stringValue) (by simp) rfl

theorem lays_basic (type : UInt8) {basicData : Bytes} {size : Nat}
    (hsize : size = 1 + basicData.length) (hdata : basicData.length ≠ 0) :
    Copying.Lays check limit (· = .ok) (marshallingBasicValue type basicData size) 0
      (type :: basicData) := by
  have hpos : 0 < size := by omega
  have hinner : Copying.Lays check limit (· = ErrCode.ok)
      (.orElse ⟨some (0 + 1), size - 1, basicData⟩ .error (.ret .ok)) (0 + 1) (basicData ++ []) :=
    .exact_piece (.done rfl) (by simp) (by omega)
  rw [List.append_nil] at hinner
  rw [marshallingBasicValue, marshallingBasicValueInner, if_neg (by omega), dataAddr_of_pos hpos]
  refine .piece hinner (by simp) (by rw [List.length_singleton]; omega) ?_
  intro hlimit
  rw [List.length_append, List.length_singleton] at hlimit
  omega

theorem lays_array (type : UInt8) {afterType : Option Nat → Copying ErrCode} {bs : Bytes}
    {size : Nat} (hsize : 0 < size)
    (hafter : Copying.Lays check limit (· = .ok) (afterType (some 1)) 1 bs) :
    Copying.Lays check limit (· = .ok) (marshallingBasicArrayValue type afterType size) 0
      (type :: bs) := by
  rw [marshallingBasicArrayValue, dataAddr_of_pos hsize]
  exact .exact_piece hafter (by simp) rfl

/-- The number of elements, and then each of them. -/
theorem lays_items_counted {α : Type} (width : Nat) (put : α → Bytes)
    (hput : ∀ x, (put x).length = width) (v : List α) :
    Copying.Lays check limit (· = .ok)
      (.orElse ⟨some p, 8, bytesOf 8 v.length⟩ .error
        (marshallingItems width (advance (some p) 8) (v.map put)))
      p (bytesOf 8 v.length ++ v.flatMap put) := by
  refine .exact_piece ?_ (by simp) (bytesOf_length _ _)
  rw [bytesOf_length, advance_some, List.flatMap_def]
  refine lays_items ?_
  intro item hitem
  obtain ⟨x, -, rfl⟩ := List.mem_map.mp hitem
  exact hput x

/-- **The marshalling functions write the encoding**, if the buffer has any memory. -/
theorem lays_marshalled {value : RawValue} (hknown : value.Known) (hpos : 0 < value.calSize.toNat) :
    Copying.Lays check limit (· = .ok) value.marshalled 0 value.encode := by
  cases value with
  | int v => exact lays_basic 1 (by rw [bytesOf_length]; rfl) (by simp)
  | int64 v => exact lays_basic 2 (by rw [bytesOf_length]; rfl) (by simp)
  | float bits => exact lays_basic 3 (by rw [bytesOf_length]; rfl) (by simp)
  | double bits => exact lays_basic 4 (by rw [bytesOf_length]; rfl) (by simp)
  | bool v => exact lays_basic 5 (by rw [bytesOf_length]; rfl) (by simp)
  | string v => exact lays_string 6 v hpos
  | object v => exact lays_string 11 v hpos
  | stringArray v =>
      simp only [marshalled, marshallingPreferenceValue, marshallingStringArrayValue,
        dataAddr_of_pos hpos, advance_some]
      refine .exact_piece ?_ (by simp) rfl
      refine .exact_piece ?_ (by simp) (bytesOf_length _ _)
      rw [bytesOf_length]
      exact lays_strings v
  | uint8Array v => exact lays_array 10 hpos (lays_counted (by simp) v)
  | boolArray v => exact lays_array 8 hpos (lays_items_counted 1 _ (fun _ => bytesOf_length _ _) v)
  | doubleArray v =>
      exact lays_array 9 hpos (lays_items_counted 8 _ (fun _ => bytesOf_length _ _) v)
  | bigInt v =>
      refine lays_array 12 hpos ?_
      refine .exact_piece ?_ (by simp) (bytesOf_length _ _)
      rw [bytesOf_length]
      refine .exact_piece ?_ (by simp) (bytesOf_length _ _)
      rw [signBytes, bytesOf_length, List.flatMap_def]
      refine lays_items ?_
      intro item hitem
      obtain ⟨x, -, rfl⟩ := List.mem_map.mp hitem
      exact bytesOf_length _ _
  | monostate | intArray | int64Array => exact absurd rfl hknown

end Lays

/-! ### Overruns -/

/-- Few enough elements for a size below `2 ^ 32`. -/
def SizeFits : RawValue → Prop
  | .string v | .object v | .uint8Array v => v.length < 2 ^ 32 - 9
  | .boolArray v => v.length < 2 ^ 32 - 9
  | .doubleArray v => v.length < 2 ^ 29 - 1
  | .bigInt v => v.words.length < 2 ^ 29 - 2
  | .stringArray v => (v.map (fun s => 8 + s.length)).sum < 2 ^ 32 - 9
  | _ => True

theorem sizeFits_iff (value : RawValue) : value.SizeFits ↔ value.encode.length < 2 ^ 32 := by
  cases value with
  | monostate | int | int64 | float | double | bool | intArray | int64Array =>
      simp only [SizeFits, encode, List.length_cons, bytesOf_length, List.length_nil]
      decide
  | string v | object v | uint8Array v =>
      simp only [SizeFits, encode, List.length_cons, List.length_append, bytesOf_length]
      omega
  | stringArray v =>
      simp only [SizeFits, encode, List.length_cons, List.length_append, bytesOf_length,
        strings_length]
      omega
  | boolArray v =>
      simp only [SizeFits, encode, List.length_cons, List.length_append, bytesOf_length,
        flatMap_length_of_size (fun b : Bool => bytesOf_length 1 b.toNat)]
      omega
  | doubleArray v =>
      simp only [SizeFits, encode, List.length_cons, List.length_append, bytesOf_length,
        flatMap_length_of_size (fun x : UInt64 => bytesOf_length 8 x.toNat)]
      omega
  | bigInt v =>
      simp only [SizeFits, encode, signBytes, List.length_cons, List.length_append,
        bytesOf_length, flatMap_length_of_size (fun x : UInt64 => bytesOf_length 8 x.toNat)]
      omega

theorem encode_pos {value : RawValue} (hknown : value.Known) : 0 < value.encode.length := by
  cases value with
  | monostate | intArray | int64Array => exact absurd rfl hknown
  | _ => exact Nat.succ_pos _

/-- `CheckValue` admits the value, and it is marshalled with `E_OK` into the buffer that `Put`
makes for it. -/
structure Accepted (check : CopyCheck) (value : RawValue) : Prop where
  checked : value.checkValue = .ok
  ok : value.marshalled.result check .blank = .ok

theorem Accepted.known {check : CopyCheck} {value : RawValue} (h : value.Accepted check) :
    value.Known := by
  have hok := h.ok
  cases value with
  | monostate | intArray | int64Array =>
      have hcode : ErrCode.invalidArgs = .ok := hok
      exact absurd hcode (by decide)
  | _ => simp [Known, typeIndex]

/-- **The buffer is large enough, and nothing is written past its end,** if and only if there are
few enough elements. -/
theorem marshalling_stays_inside_iff {check : CopyCheck} {value : RawValue}
    (h : value.Accepted check) :
    (value.calSize.toNat = value.encode.length ∧
      ∀ i, (value.marshalled.memory check .blank i).isSome → i < value.calSize.toNat) ↔
      value.SizeFits := by
  rw [sizeFits_iff]
  constructor
  · intro ⟨hsize, _⟩
    rw [← hsize]
    exact value.calSize.toNat_lt
  · intro hfits
    have hsize : value.calSize.toNat = value.encode.length :=
      value.calSize_toNat.trans (Nat.mod_eq_of_lt hfits)
    refine ⟨hsize, ?_⟩
    intro i hi
    have hpos : 0 < value.calSize.toNat := hsize ▸ encode_pos h.known
    -- the bound on single copies plays no part here
    have hlays : Copying.Lays check 0 (· = .ok) value.marshalled 0 value.encode :=
      lays_marshalled h.known hpos
    rw [hlays.memory_eq .blank h.ok, Cells.blank_copy_isSome] at hi
    omega

/-- A `memcpy_s` that refuses null pointers, destinations of `2 ^ 31` bytes or more, and those
that are too small. -/
def boundedCopy : CopyCheck := fun dest destMax count =>
  dest.isSome && decide (count ≤ destMax) && decide (destMax ≤ secureMemMaxLen)

theorem boundedCopy_admits : boundedCopy.Admits (2 ^ 31) := by
  intro p destMax count hcount hmax
  have hmem : destMax ≤ secureMemMaxLen := by
    rw [secureMemMaxLen]
    omega
  simp [boundedCopy, hcount, hmem]

/-- Two texts. -/
theorem marshalling_stays_inside_texts :
    (RawValue.stringArray [[104, 105], [33]]).calSize.toNat =
        (RawValue.stringArray [[104, 105], [33]]).encode.length ∧
      ∀ i, ((RawValue.stringArray [[104, 105], [33]]).marshalled.memory boundedCopy .blank
          i).isSome → i < (RawValue.stringArray [[104, 105], [33]]).calSize.toNat :=
  (marshalling_stays_inside_iff ⟨rfl, by decide⟩).mpr (by simp [SizeFits])

/-! Small elements are all copied, however many there are. -/

theorem items_ok {check : CopyCheck} {limit width : Nat} (hcheck : check.Admits limit)
    (hwidth : width < limit) {items : List Bytes} (hitems : ∀ item ∈ items, item.length ≤ width)
    (p : Nat) (m : Cells) : (marshallingItems width (some p) items).result check m = .ok := by
  induction items generalizing p m with
  | nil => rfl
  | cons item items ih =>
      rw [marshallingItems, Copying.result_orElse (hcheck p width item.length
        (hitems item List.mem_cons_self) hwidth)]
      exact ih (fun item' hmem => hitems item' (List.mem_cons_of_mem _ hmem)) _ _

theorem boolArray_accepted {check : CopyCheck} (hcheck : check.Admits (2 ^ 31)) {v : List Bool}
    (hpos : 0 < (RawValue.boolArray v).calSize.toNat) : (RawValue.boolArray v).Accepted check := by
  refine ⟨rfl, ?_⟩
  have hdest := dataAddr_of_pos hpos
  simp only [marshalled, marshallingPreferenceValue, marshallingBasicArrayValue,
    marshallingVecBoolAfterType, hdest, advance_some]
  rw [Copying.result_orElse (hcheck 0 1 _ (by simp) (by decide)),
    Copying.result_orElse (hcheck _ 8 _ (by simp) (by decide))]
  refine items_ok hcheck (by decide) ?_ _ _
  intro item hitem
  obtain ⟨x, -, rfl⟩ := List.mem_map.mp hitem
  exact le_of_eq (bytesOf_length _ _)

theorem boolArray_length (v : List Bool) : (RawValue.boolArray v).encode.length = v.length + 9 := by
  simp only [encode, List.length_cons, List.length_append, bytesOf_length,
    flatMap_length_of_size (fun b : Bool => bytesOf_length 1 b.toNat)]
  omega

/-- An array whose size is 1 for `CalSize`. -/
def manyBools : List Bool := List.replicate (2 ^ 32 - 8) true

theorem length_manyBools : manyBools.length = 4294967288 := List.length_replicate

/-- It is marshalled into a buffer of one byte. -/
theorem marshalling_overruns :
    ¬ ∀ (check : CopyCheck) (value : RawValue), check.Admits (2 ^ 31) → value.Accepted check →
      value.calSize.toNat = value.encode.length ∧
        ∀ i, (value.marshalled.memory check .blank i).isSome → i < value.calSize.toNat := by
  intro hclaim
  have hlen : (RawValue.boolArray manyBools).encode.length = 4294967297 := by
    rw [boolArray_length, length_manyBools]
  have hsize : (RawValue.boolArray manyBools).calSize.toNat = 1 := by
    rw [calSize_toNat, hlen]
    rfl
  obtain ⟨heq, -⟩ := hclaim boundedCopy (.boolArray manyBools) boundedCopy_admits
    (boolArray_accepted boundedCopy_admits (lt_of_lt_of_eq Nat.one_pos hsize.symm))
  have hbad : 1 = 4294967297 := hsize.symm.trans (heq.trans hlen)
  exact absurd hbad (by decide)

end RawValue

/-! ### Unicode texts

For values whose texts are Unicode, this is what `Parcel` says. -/

namespace PreferencesValue

theorem raw_strings {v : List String} {rest : Bytes} (h : marshallingStrings v = .ok rest) :
    rest = (v.map utf8).flatMap (fun s => bytesOf 8 s.length ++ s) := by
  induction v generalizing rest with
  | nil =>
      cases h
      rfl
  | cons s v ih =>
      rw [marshallingStrings] at h
      split at h
      · cases h
      · cases htail : marshallingStrings v with
        | error c =>
            rw [htail] at h
            cases h
        | ok tail =>
            rw [htail] at h
            cases h
            rw [List.map_cons, List.flatMap_cons, utf8_length, List.append_assoc, ← ih htail]

/-- What is marshalled is the encoding. -/
theorem raw_encode {value : PreferencesValue} {data : Bytes}
    (h : marshallingPreferenceValue value = .ok data) : data = value.raw.encode := by
  cases value with
  | int | int64 | float | double | bool | boolArray | doubleArray | bigInt =>
      cases h
      rfl
  | string s | object s =>
      obtain rfl := marshallingStringValue_ok h
      simp only [raw, RawValue.encode, utf8_length]
      rfl
  | stringArray v =>
      obtain ⟨rest, hrest, rfl⟩ := marshallingStringArrayValue_ok h
      simp only [raw, RawValue.encode, List.length_map, raw_strings hrest]
      rfl
  | uint8Array v =>
      obtain rfl := marshallingUInt8Array_ok h
      rfl
  | monostate | intArray | int64Array => cases h

theorem raw_length (value : PreferencesValue) : value.raw.encode.length = parcelSize value := by
  cases value with
  | monostate | int | int64 | float | double | bool | intArray | int64Array =>
      simp only [raw, RawValue.encode, parcelSize, List.length_cons, bytesOf_length,
        List.length_nil]
  | string s | object s =>
      simp only [raw, RawValue.encode, parcelSize, List.length_cons, List.length_append,
        bytesOf_length, utf8_length]
      omega
  | stringArray v =>
      simp only [raw, RawValue.encode, parcelSize, List.length_cons, List.length_append,
        bytesOf_length, RawValue.strings_length, List.map_map, Function.comp_def, utf8_length]
      omega
  | boolArray v =>
      simp only [raw, RawValue.boolArray_length, parcelSize]
      omega
  | doubleArray v =>
      simp only [raw, RawValue.encode, parcelSize, List.length_cons, List.length_append,
        bytesOf_length, flatMap_length_of_size (fun x : UInt64 => bytesOf_length 8 x.toNat)]
      omega
  | uint8Array v =>
      simp only [raw, RawValue.encode, parcelSize, List.length_cons, List.length_append,
        bytesOf_length]
      omega
  | bigInt v =>
      simp only [raw, RawValue.encode, RawValue.signBytes, parcelSize, List.length_cons,
        List.length_append, bytesOf_length,
        flatMap_length_of_size (fun x : UInt64 => bytesOf_length 8 x.toNat)]
      omega

theorem raw_calSize (value : PreferencesValue) : calSize value = value.raw.calSize.toNat := by
  rw [RawValue.calSize_toNat, raw_length, calSize]

theorem raw_checkValue (value : PreferencesValue) : value.raw.checkValue = checkValue value := by
  cases value with
  | string s | object s => simp only [raw, RawValue.checkValue, checkValue, utf8_length]
  | _ => rfl

end PreferencesValue

end NativePreferences
