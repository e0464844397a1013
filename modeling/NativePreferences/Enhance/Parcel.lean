import NativePreferences.Lib.Bytes
import NativePreferences.Value

/-!
# NativePreferences.Enhance.Parcel

**The bytes of a value** (`preferences_value_parcel.cpp`). A store with the database backend
keeps every value as a buffer: a byte for the type, and then the contents, with a length in
front of everything that has no fixed size.

Numbers are copied as they lie in memory, on a machine with 64-bit `size_t` that puts the least
significant byte first. `memcpy_s` refuses to copy `2 ^ 31` bytes or more at a time, and this is
the only way for it to fail here.

`CalSize` counts in 32 bits. A value with `2 ^ 32` bytes or more gets a buffer that is too small
and is written past its end; `parcelSize` is the size without the overflow.
-/

namespace NativePreferences

open Lib

/-! ### Types and sizes -/

/-- `PreferencesValueParcel::GetTypeIndex`. What it does not know is `MONO_TYPE`. -/
def getTypeIndex : PreferencesValue → UInt8
  | .int _ => 1
  | .int64 _ => 2
  | .float _ => 3
  | .double _ => 4
  | .bool _ => 5
  | .string _ => 6
  | .stringArray _ => 7
  | .boolArray _ => 8
  | .doubleArray _ => 9
  | .uint8Array _ => 10
  | .object _ => 11
  | .bigInt _ => 12
  | .monostate | .intArray _ | .int64Array _ => 0

/-- The number of bytes that a value takes. -/
def parcelSize : PreferencesValue → Nat
  | .int _ => 1 + 4
  | .int64 _ => 1 + 8
  | .float _ => 1 + 4
  | .double _ => 1 + 8
  | .bool _ => 1 + 1
  | .string v => 1 + 8 + v.utf8ByteSize
  | .object v => 1 + 8 + v.valueStr.utf8ByteSize
  | .boolArray v => 1 + 8 + v.length * 1
  | .doubleArray v => 1 + 8 + v.length * 8
  | .uint8Array v => 1 + 8 + v.length * 1
  | .stringArray v => 1 + 8 + (v.map (fun s => 8 + s.utf8ByteSize)).sum
  | .bigInt v => 1 + 8 + 8 + v.words.length * 8
  | .monostate | .intArray _ | .int64Array _ => 0

/-- `PreferencesValueParcel::CalSize`, a `uint32_t`. -/
def calSize (value : PreferencesValue) : Nat := parcelSize value % 2 ^ 32

/-! ### Writing -/

/-- `SECUREC_MEM_MAX_LEN`. -/
def secureMemMaxLen : Nat := 0x7fffffff

/-- `MarshallingStringValue`. -/
def marshallingStringValue (type : UInt8) (stringValue : String) : Except ErrCode Bytes :=
  let strLen := stringValue.utf8ByteSize
  if secureMemMaxLen < strLen then .error .minusError
  else .ok (type :: (bytesOf 8 strLen ++ utf8 stringValue))

/-- The loop of `MarshallingStringArrayValue`. -/
def marshallingStrings : List String → Except ErrCode Bytes
  | [] => .ok []
  | s :: strVec =>
      if secureMemMaxLen < s.utf8ByteSize then .error .minusError
      else do
        let data ← marshallingStrings strVec
        return bytesOf 8 s.utf8ByteSize ++ (utf8 s ++ data)

/-- `MarshallingStringArrayValue`. -/
def marshallingStringArrayValue (type : UInt8) (strVec : List String) : Except ErrCode Bytes := do
  let data ← marshallingStrings strVec
  return type :: (bytesOf 8 strVec.length ++ data)

/-- `MarshallingVecUInt8AfterType`: one copy of all elements. -/
def marshallingVecUInt8 (vec : List UInt8) : Except ErrCode Bytes :=
  if secureMemMaxLen < vec.length then .error .error
  else .ok (bytesOf 8 vec.length ++ vec)

/-- `MarshallingVecDoubleAfterType`. -/
def marshallingVecDouble (vec : List UInt64) : Bytes :=
  bytesOf 8 vec.length ++ vec.flatMap (fun x => bytesOf 8 x.toNat)

/-- `MarshallingVecBoolAfterType`. -/
def marshallingVecBool (vec : List Bool) : Bytes :=
  bytesOf 8 vec.length ++ vec.flatMap (fun b => bytesOf 1 b.toNat)

/-- `MarshallingVecBigIntAfterType`. The sign is widened to 64 bits. -/
def marshallingVecBigInt (bigInt : BigInt) : Bytes :=
  bytesOf 8 bigInt.words.length ++
    (bytesOf 8 bigInt.sign.toInt64.toBitVec.toNat ++
      bigInt.words.flatMap (fun x => bytesOf 8 x.toNat))

/-- `PreferencesValueParcel::MarshallingPreferenceValue`. -/
def marshallingPreferenceValue (value : PreferencesValue) : Except ErrCode Bytes :=
  let type := getTypeIndex value
  match value with
  | .int v => .ok (type :: bytesOf 4 v.toBitVec.toNat)
  | .int64 v => .ok (type :: bytesOf 8 v.toBitVec.toNat)
  | .float bits => .ok (type :: bytesOf 4 bits.toNat)
  | .double bits => .ok (type :: bytesOf 8 bits.toNat)
  | .bool v => .ok (type :: bytesOf 1 v.toNat)
  | .string v => marshallingStringValue type v
  | .object v => marshallingStringValue type v.valueStr
  | .stringArray v => marshallingStringArrayValue type v
  | .uint8Array v => (marshallingVecUInt8 v).map (type :: ·)
  | .bigInt v => .ok (type :: marshallingVecBigInt v)
  | .doubleArray v => .ok (type :: marshallingVecDouble v)
  | .boolArray v => .ok (type :: marshallingVecBool v)
  | .monostate | .intArray _ | .int64Array _ => .error .invalidArgs

/-! ### Reading -/

/-- The text of `strLen` bytes at `p`. -/
def readString (strLen : Nat) (p : Bytes) : String := ofUtf8 (p.take strLen)

/-- The loop of `UnmarshallingStringArrayValue`. -/
def unmarshallingStrings : Nat → Bytes → List String
  | 0, _ => []
  | n + 1, p =>
      let strLen := readNat 8 p
      let p := p.drop 8
      readString strLen p :: unmarshallingStrings n (p.drop strLen)

/-- `UnmarshallingVecDouble`, also for the words of a `BigInt`. -/
def unmarshallingWords : Nat → Bytes → List UInt64 :=
  readVec 8 (fun p => UInt64.ofNat (readNat 8 p))

/-- `UnmarshallingVecUInt8`. -/
def unmarshallingVecUInt8 : Nat → Bytes → List UInt8 :=
  readVec 1 (fun p => UInt8.ofNat (readNat 1 p))

/-- `UnmarshallingVecBool`. -/
def unmarshallingVecBool : Nat → Bytes → List Bool :=
  readVec 1 (fun p => readNat 1 p != 0)

/-- `UnmarshallingVecBigInt`. The sign goes through an `int`. -/
def unmarshallingVecBigInt (vecNum : Nat) (p : Bytes) : BigInt :=
  { words := unmarshallingWords vecNum (p.drop 8)
    sign := (Int64.ofBitVec (BitVec.ofNat 64 (readNat 8 p))).toInt32 }

/-- `PreferencesValueParcel::UnmarshallingPreferenceValue`. -/
def unmarshallingPreferenceValue (data : Bytes) : ErrCode × PreferencesValue :=
  match data with
  | [] => (.invalidArgs, .int 0)
  | type :: p =>
      let num := readNat 8 p
      let rest := p.drop 8
      if type = 1 then (.ok, .int (Int32.ofBitVec (BitVec.ofNat 32 (readNat 4 p))))
      else if type = 2 then (.ok, .int64 (Int64.ofBitVec (BitVec.ofNat 64 (readNat 8 p))))
      else if type = 3 then (.ok, .float (UInt32.ofNat (readNat 4 p)))
      else if type = 4 then (.ok, .double (UInt64.ofNat (readNat 8 p)))
      else if type = 5 then (.ok, .bool (readNat 1 p != 0))
      else if type = 6 then (.ok, .string (readString num rest))
      else if type = 7 then (.ok, .stringArray (unmarshallingStrings num rest))
      else if type = 8 then (.ok, .boolArray (unmarshallingVecBool num rest))
      else if type = 9 then (.ok, .doubleArray (unmarshallingWords num rest))
      else if type = 10 then (.ok, .uint8Array (unmarshallingVecUInt8 num rest))
      else if type = 11 then (.ok, .object ⟨readString num rest⟩)
      else if type = 12 then (.ok, .bigInt (unmarshallingVecBigInt num rest))
      else (.invalidArgs, .int 0)

/-! ### The size -/

theorem marshallingStrings_length {strVec : List String} {data : Bytes}
    (h : marshallingStrings strVec = .ok data) :
    data.length = (strVec.map (fun s => 8 + s.utf8ByteSize)).sum := by
  induction strVec generalizing data with
  | nil =>
      cases h
      rfl
  | cons s strVec ih =>
      rw [marshallingStrings] at h
      split at h
      · cases h
      · cases hrest : marshallingStrings strVec with
        | error c =>
            rw [hrest] at h
            cases h
        | ok rest =>
            rw [hrest] at h
            cases h
            rw [List.length_append, List.length_append, bytesOf_length, utf8_length, ih hrest,
              List.map_cons, List.sum_cons]
            omega

/-! What the functions that may fail write when they do not. -/

theorem marshallingStringValue_ok {type : UInt8} {s : String} {data : Bytes}
    (h : marshallingStringValue type s = .ok data) :
    data = type :: (bytesOf 8 s.utf8ByteSize ++ utf8 s) := by
  simp only [marshallingStringValue] at h
  split at h
  · cases h
  · cases h
    rfl

theorem marshallingStringArrayValue_ok {type : UInt8} {v : List String} {data : Bytes}
    (h : marshallingStringArrayValue type v = .ok data) :
    ∃ rest, marshallingStrings v = .ok rest ∧ data = type :: (bytesOf 8 v.length ++ rest) := by
  rw [marshallingStringArrayValue] at h
  cases hrest : marshallingStrings v with
  | error c =>
      rw [hrest] at h
      cases h
  | ok rest =>
      rw [hrest] at h
      cases h
      exact ⟨rest, rfl, rfl⟩

theorem marshallingUInt8Array_ok {v : List UInt8} {data : Bytes}
    (h : marshallingPreferenceValue (.uint8Array v) = .ok data) :
    data = 10 :: (bytesOf 8 v.length ++ v) := by
  simp only [marshallingPreferenceValue, marshallingVecUInt8] at h
  split at h
  · cases h
  · cases h
    rfl

/-- What is written has the size that `CalSize` counts. -/
theorem marshalling_length {value : PreferencesValue} {data : Bytes}
    (h : marshallingPreferenceValue value = .ok data) : data.length = parcelSize value := by
  cases value with
  | int | int64 | float | double | bool =>
      cases h
      simp only [List.length_cons, bytesOf_length, parcelSize]
  | string s | object s =>
      obtain rfl := marshallingStringValue_ok h
      simp only [List.length_cons, List.length_append, bytesOf_length, utf8_length, parcelSize]
      omega
  | stringArray v =>
      obtain ⟨rest, hrest, rfl⟩ := marshallingStringArrayValue_ok h
      simp only [List.length_cons, List.length_append, bytesOf_length, parcelSize,
        marshallingStrings_length hrest]
      omega
  | boolArray v =>
      cases h
      simp only [marshallingVecBool, List.length_cons, List.length_append, bytesOf_length,
        parcelSize, flatMap_length_of_size (fun b : Bool => bytesOf_length 1 b.toNat)]
      omega
  | doubleArray v =>
      cases h
      simp only [marshallingVecDouble, List.length_cons, List.length_append, bytesOf_length,
        parcelSize, flatMap_length_of_size (fun x : UInt64 => bytesOf_length 8 x.toNat)]
      omega
  | uint8Array v =>
      obtain rfl := marshallingUInt8Array_ok h
      simp only [List.length_cons, List.length_append, bytesOf_length, parcelSize]
      omega
  | bigInt v =>
      cases h
      simp only [marshallingVecBigInt, List.length_cons, List.length_append, bytesOf_length,
        parcelSize, flatMap_length_of_size (fun x : UInt64 => bytesOf_length 8 x.toNat)]
      omega
  | monostate | intArray | int64Array => cases h

/-! ### The round trip -/

theorem unmarshallingWords_flatMap (v : List UInt64) :
    unmarshallingWords v.length (v.flatMap (fun x => bytesOf 8 x.toNat)) = v := by
  have hget : ∀ (x : UInt64) p, UInt64.ofNat (readNat 8 (bytesOf 8 x.toNat ++ p)) = x := by
    intro x p
    rw [readNat_bytesOf (lt_of_lt_of_eq x.toNat_lt (by norm_num))]
    exact UInt64.ofNat_toNat
  have hvec := readVec_flatMap (fun p => UInt64.ofNat (readNat 8 p)) _
    (fun x : UInt64 => bytesOf_length 8 x.toNat) hget v []
  rw [List.append_nil] at hvec
  exact hvec

theorem bool_of_byte (b : Bool) (p : Bytes) : (readNat 1 (bytesOf 1 b.toNat ++ p) != 0) = b := by
  have hlt : b.toNat < 256 ^ 1 := by cases b <;> decide
  rw [readNat_bytesOf hlt]
  cases b <;> rfl

theorem unmarshallingVecBool_flatMap (v : List Bool) :
    unmarshallingVecBool v.length (v.flatMap (fun b => bytesOf 1 b.toNat)) = v := by
  have hvec := readVec_flatMap (fun p => readNat 1 p != 0) _
    (fun b : Bool => bytesOf_length 1 b.toNat) bool_of_byte v []
  rw [List.append_nil] at hvec
  exact hvec

theorem unmarshallingVecUInt8_self (v : List UInt8) : unmarshallingVecUInt8 v.length v = v := by
  have hget : ∀ (x : UInt8) p, UInt8.ofNat (readNat 1 ([x] ++ p)) = x := by
    intro x p
    show UInt8.ofNat (x.toNat + 256 * 0) = x
    rw [Nat.mul_zero, Nat.add_zero, UInt8.ofNat_toNat]
  have hvec := readVec_flatMap (fun p => UInt8.ofNat (readNat 1 p)) (fun x : UInt8 => [x])
    (fun _ => rfl) hget v []
  rw [List.append_nil, List.flatMap_singleton' v] at hvec
  exact hvec

theorem readString_utf8 (s : String) (p : Bytes) : readString s.utf8ByteSize (utf8 s ++ p) = s := by
  rw [readString, List.take_left' (utf8_length s), ofUtf8_utf8]

theorem unmarshallingStrings_marshallingStrings {strVec : List String} {data : Bytes}
    (h : marshallingStrings strVec = .ok data) :
    unmarshallingStrings strVec.length data = strVec := by
  induction strVec generalizing data with
  | nil => rfl
  | cons s strVec ih =>
      rw [marshallingStrings] at h
      split at h
      · cases h
      · next hmax =>
        cases hrest : marshallingStrings strVec with
        | error c =>
            rw [hrest] at h
            cases h
        | ok rest =>
            rw [hrest] at h
            cases h
            have hlt : s.utf8ByteSize < 256 ^ 8 := by
              rw [secureMemMaxLen] at hmax
              omega
            rw [List.length_cons, unmarshallingStrings, readNat_bytesOf hlt, drop_bytesOf,
              readString_utf8, List.drop_left' (utf8_length s), ih hrest]

/-- **A value that is marshalled is unmarshalled to itself.** -/
theorem unmarshalling_marshalling {value : PreferencesValue} {data : Bytes}
    (h : marshallingPreferenceValue value = .ok data) (hsize : parcelSize value < 2 ^ 64) :
    unmarshallingPreferenceValue data = (.ok, value) := by
  -- the number that stands in front of the contents
  have hnum : ∀ {n : Nat}, n < 2 ^ 64 → n < 256 ^ 8 := fun hn => lt_of_lt_of_eq hn (by norm_num)
  cases value with
  | int v =>
      cases h
      show (ErrCode.ok, PreferencesValue.int (Int32.ofBitVec (BitVec.ofNat 32 (readNat 4 _)))) = _
      rw [readNat_bytesOf_last (lt_of_lt_of_eq v.toBitVec.isLt (by norm_num)), BitVec.ofNat_toNat,
        BitVec.setWidth_eq]
      rfl
  | int64 v =>
      cases h
      show (ErrCode.ok, PreferencesValue.int64 (Int64.ofBitVec (BitVec.ofNat 64 (readNat 8 _)))) = _
      rw [readNat_bytesOf_last (hnum v.toBitVec.isLt), BitVec.ofNat_toNat, BitVec.setWidth_eq]
      rfl
  | float bits =>
      cases h
      show (ErrCode.ok, PreferencesValue.float (UInt32.ofNat (readNat 4 _))) = _
      rw [readNat_bytesOf_last (lt_of_lt_of_eq bits.toNat_lt (by norm_num)), UInt32.ofNat_toNat]
  | double bits =>
      cases h
      show (ErrCode.ok, PreferencesValue.double (UInt64.ofNat (readNat 8 _))) = _
      rw [readNat_bytesOf_last (hnum bits.toNat_lt), UInt64.ofNat_toNat]
  | bool v =>
      cases h
      show (ErrCode.ok, PreferencesValue.bool (readNat 1 _ != 0)) = _
      rw [← List.append_nil (bytesOf 1 v.toNat), bool_of_byte]
  | string s =>
      obtain rfl := marshallingStringValue_ok h
      simp only [parcelSize] at hsize
      show (ErrCode.ok, PreferencesValue.string (readString (readNat 8 _) (List.drop 8 _))) = _
      rw [readNat_bytesOf (hnum (by omega)), drop_bytesOf, ← List.append_nil (utf8 s),
        readString_utf8]
  | object s =>
      obtain rfl := marshallingStringValue_ok h
      simp only [parcelSize] at hsize
      show (ErrCode.ok, PreferencesValue.object ⟨readString (readNat 8 _) (List.drop 8 _)⟩) = _
      rw [readNat_bytesOf (hnum (by omega)), drop_bytesOf, ← List.append_nil (utf8 s.valueStr),
        readString_utf8]
  | stringArray v =>
      obtain ⟨rest, hrest, rfl⟩ := marshallingStringArrayValue_ok h
      -- every string takes at least a byte, so their number is below the size
      have hlen : v.length ≤ (v.map (fun s => 8 + s.utf8ByteSize)).sum := by
        have hone := List.length_le_sum_of_one_le (v.map (fun s => 8 + s.utf8ByteSize)) ?_
        · rw [List.length_map] at hone
          exact hone
        · intro n hn
          obtain ⟨s, -, rfl⟩ := List.mem_map.mp hn
          omega
      simp only [parcelSize] at hsize
      show (ErrCode.ok,
        PreferencesValue.stringArray (unmarshallingStrings (readNat 8 _) (List.drop 8 _))) = _
      rw [readNat_bytesOf (hnum (by omega)), drop_bytesOf,
        unmarshallingStrings_marshallingStrings hrest]
  | boolArray v =>
      cases h
      simp only [parcelSize] at hsize
      show (ErrCode.ok,
        PreferencesValue.boolArray (unmarshallingVecBool (readNat 8 (bytesOf 8 v.length ++ _))
          (List.drop 8 (bytesOf 8 v.length ++ _)))) = _
      rw [readNat_bytesOf (hnum (by omega)), drop_bytesOf, unmarshallingVecBool_flatMap]
  | doubleArray v =>
      cases h
      simp only [parcelSize] at hsize
      show (ErrCode.ok,
        PreferencesValue.doubleArray (unmarshallingWords (readNat 8 (bytesOf 8 v.length ++ _))
          (List.drop 8 (bytesOf 8 v.length ++ _)))) = _
      rw [readNat_bytesOf (hnum (by omega)), drop_bytesOf, unmarshallingWords_flatMap]
  | uint8Array v =>
      obtain rfl := marshallingUInt8Array_ok h
      simp only [parcelSize] at hsize
      show (ErrCode.ok,
        PreferencesValue.uint8Array (unmarshallingVecUInt8 (readNat 8 _) (List.drop 8 _))) = _
      rw [readNat_bytesOf (hnum (by omega)), drop_bytesOf, unmarshallingVecUInt8_self]
  | bigInt v =>
      cases h
      simp only [parcelSize] at hsize
      have hsign : v.sign.toInt64.toBitVec.toNat < 2 ^ 64 := v.sign.toInt64.toBitVec.isLt
      show (ErrCode.ok,
        PreferencesValue.bigInt (unmarshallingVecBigInt (readNat 8 (bytesOf 8 v.words.length ++ _))
          (List.drop 8 (bytesOf 8 v.words.length ++ _)))) = _
      rw [readNat_bytesOf (hnum (by omega)), drop_bytesOf, unmarshallingVecBigInt, drop_bytesOf,
        unmarshallingWords_flatMap, readNat_bytesOf (hnum hsign), BitVec.ofNat_toNat,
        BitVec.setWidth_eq]
      show (ErrCode.ok, PreferencesValue.bigInt ⟨v.words, v.sign.toInt64.toInt32⟩) = _
      rw [Int32.toInt32_toInt64]
  | monostate | intArray | int64Array => cases h

end NativePreferences
