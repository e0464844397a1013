import Mathlib.Data.Finmap

/-!
# NativePreferences.Value

The **values, keys and error codes** of a preferences store
(`preferences_value.h`, `preferences_errno.h`, `preferences_utils.cpp`).

`PreferencesValue` lists the alternatives of the source's `std::variant` in its own
order. A `float` and a `double` are kept as bit patterns, because the store never
computes with them: it copies them, writes them and compares them, and only the
comparison (`operator==`) looks at the number behind the bits.

`PrefMap` stands for `std::unordered_map<std::string, PreferencesValue>` and for
`std::map` alike: nothing in the modelled code depends on an iteration order.
-/

namespace NativePreferences

/-- The error codes the modelled functions return or report (`E_OK`, `E_ERROR`, …). -/
inductive ErrCode
  | ok
  | error
  | keyEmpty
  | keyExceedMaxLength
  | valueExceedMaxLength
  | noData
  | xmlRestoredFromBackupFile
  | operatIsLocked
  | operatIsCrossProess
  | deleteFileFail
  | notSupported
  | invalidArgs
  | outOfMemory
  | defaultExceedLengthLimit
  | permissionDenied
  | alreadyClosed
  /-- `-E_ERROR`, which some functions return. -/
  | minusError
  deriving DecidableEq, Repr

/-- `struct Object`. -/
structure Object where
  valueStr : String
  deriving DecidableEq, Repr

/-- `struct BigInt`. -/
structure BigInt where
  words : List UInt64
  sign : Int32
  deriving DecidableEq

/-- `PreferencesValue::value_`, alternative by alternative. -/
inductive PreferencesValue
  | monostate
  | int (v : Int32)
  | int64 (v : Int64)
  /-- A `float`, by its 32 bits. -/
  | float (bits : UInt32)
  /-- A `double`, by its 64 bits. -/
  | double (bits : UInt64)
  | bool (v : Bool)
  | string (v : String)
  | stringArray (v : List String)
  | boolArray (v : List Bool)
  | doubleArray (v : List UInt64)
  | uint8Array (v : List UInt8)
  | object (v : Object)
  | bigInt (v : BigInt)
  | intArray (v : List Int32)
  | int64Array (v : List Int64)
  deriving DecidableEq

/-! ### Comparison -/

/-- Equality of two IEEE numbers given by their bits, with the sign bit at position
`width - 1` and the exponent all ones from `inf` on: equal bits that are no NaN, or a
zero on both sides. -/
def ieeeEq (width inf a b : Nat) : Bool :=
  let magnitude (x : Nat) : Nat := x % 2 ^ (width - 1)
  (magnitude a == 0 && magnitude b == 0) || (a == b && decide (magnitude a ≤ inf))

/-- `float` comparison: infinity is `0x7f800000`. -/
def floatEq (a b : UInt32) : Bool := ieeeEq 32 0x7f800000 a.toNat b.toNat

/-- `double` comparison: infinity is `0x7ff0000000000000`. -/
def doubleEq (a b : UInt64) : Bool := ieeeEq 64 0x7ff0000000000000 a.toNat b.toNat

/-- Element-wise comparison of `std::vector<double>`. -/
def doublesEq : List UInt64 → List UInt64 → Bool
  | [], [] => true
  | a :: as, b :: bs => doubleEq a b && doublesEq as bs
  | _, _ => false

/-- `PreferencesValue::operator==`: the same alternative with equal contents. -/
def PreferencesValue.eq : PreferencesValue → PreferencesValue → Bool
  | .float a, .float b => floatEq a b
  | .double a, .double b => doubleEq a b
  | .doubleArray a, .doubleArray b => doublesEq a b
  | a, b => decide (a = b)

/-- The same value, or one that `operator==` takes for the same. -/
def PreferencesValue.Same (v value : PreferencesValue) : Prop := v = value ∨ v.eq value = true

instance (v value : PreferencesValue) : Decidable (v.Same value) :=
  inferInstanceAs (Decidable (_ ∨ _))

/-! ### Maps -/

/-- A finite map from keys to values. -/
abbrev PrefMap : Type := Finmap (fun _ : String => PreferencesValue)

/-! ### Argument checks -/

/-- `PreferencesUtils::MAX_KEY_LENGTH`. -/
def maxKeyLength : Nat := 1024

/-- `PreferencesUtils::MAX_VALUE_LENGTH`. -/
def maxValueLength : Nat := 16 * 1024 * 1024

/-- `PreferencesUtils::CheckKey`. -/
def checkKey (key : String) : ErrCode :=
  if key.utf8ByteSize = 0 then .keyEmpty
  else if maxKeyLength < key.utf8ByteSize then .keyExceedMaxLength
  else .ok

/-- The `lengthCheck` of `CheckValue`. Its parameter is a `uint32_t`, so the length
arrives modulo `2 ^ 32`. -/
def lengthCheck (length : Nat) : ErrCode :=
  if maxValueLength < length % 2 ^ 32 then .valueExceedMaxLength else .ok

/-- `PreferencesUtils::CheckValue`. -/
def checkValue : PreferencesValue → ErrCode
  | .string val => lengthCheck val.utf8ByteSize
  | .object obj => lengthCheck obj.valueStr.utf8ByteSize
  | .bigInt bigint => if bigint.words = [] then .error else .ok
  | _ => .ok

end NativePreferences
