import Mathlib.Algebra.Order.BigOperators.Group.List
import NativePreferences.Enhance.ParcelBuffer

/-!
# NativePreferences.Enhance.ParcelReader

**The unmarshalling of a value, read by read** (`preferences_value_parcel.cpp`). The functions
move a pointer through the bytes that the database has returned. They check that there is a byte
at all, and that the type is one they know; the size of the data is not looked at again, and the
numbers of elements and the lengths are taken as they stand there.

What was marshalled is unmarshalled to the same value (`parcel_round_trip`). Of other bytes, those
that begin with a known type never lead to an error code (`ok_of_known`), so decoding is safe
exactly for what `wellFormed` describes (`safe_iff_wellFormed`).

A `std::vector` or a `std::string` that cannot have the memory it asks for throws, and then
nothing is returned. A `bool` is true for any byte but zero.
-/

namespace NativePreferences

open Lib

namespace RawValue

/-! ### Unmarshalling -/

/-- What an unmarshalling function returns, unless it throws. -/
abbrev Decoded : Type := Option (ErrCode × RawValue)

/-- Read through the pointer at `startAddr`. -/
def load (startAddr n : Nat) : Peeking Bytes := Program.op (Peek.read startAddr n)

/-- Read a `size_t`. -/
def loadSize (startAddr : Nat) : Peeking Nat := do
  let p ← load startAddr 8
  return ofBytes p

def resize (n : Nat) : Peeking Bool := Program.op (Peek.resize n)

/-- `UnmarshallingBasicValue`. -/
def unmarshallingBasicValue (type : UInt8) : Peeking Decoded :=
  if type = 1 then do
    let p ← load 1 4
    return some (.ok, .int (Int32.ofBitVec (BitVec.ofNat 32 (ofBytes p))))
  else if type = 2 then do
    let p ← load 1 8
    return some (.ok, .int64 (Int64.ofBitVec (BitVec.ofNat 64 (ofBytes p))))
  else if type = 3 then do
    let p ← load 1 4
    return some (.ok, .float (UInt32.ofNat (ofBytes p)))
  else if type = 4 then do
    let p ← load 1 8
    return some (.ok, .double (UInt64.ofNat (ofBytes p)))
  else if type = 5 then do
    let p ← load 1 1
    return some (.ok, .bool (ofBytes p != 0))
  else return some (.invalidArgs, .int 0)

/-- A text of `strLen` bytes, if there is memory for it. -/
def loadString (startAddr strLen : Nat) : Peeking (Option Bytes) := do
  if strLen = 0 then return some []
  else
    let ok ← resize strLen
    if ok then
      let strValue ← load startAddr strLen
      return some strValue
    else return none

/-- `UnmarshallingStringValue`. -/
def unmarshallingStringValue (type : UInt8) : Peeking Decoded := do
  let strLen ← loadSize 1
  let strValue ← loadString (1 + 8) strLen
  match strValue with
  | none => return none
  | some strValue =>
      if type = 11 then return some (.ok, .object strValue)
      else if type = 6 then return some (.ok, .string strValue)
      else return some (.invalidArgs, .int 0)

/-- The loop of `UnmarshallingStringArrayValue`. -/
def unmarshallingStrings : Nat → Nat → Peeking (Option (List Bytes))
  | 0, _ => return some []
  | n + 1, startAddr => do
      let strLen ← loadSize startAddr
      let strValue ← loadString (startAddr + 8) strLen
      match strValue with
      | none => return none
      | some strValue =>
          let strVec ← unmarshallingStrings n (startAddr + 8 + strLen)
          return strVec.map (strValue :: ·)

/-- `UnmarshallingStringArrayValue`. -/
def unmarshallingStringArrayValue : Peeking Decoded := do
  let vecNum ← loadSize 1
  let ok ← resize vecNum
  if ok then
    let strVec ← unmarshallingStrings vecNum (1 + 8)
    return strVec.map (fun strVec => (.ok, .stringArray strVec))
  else return none

/-- The loop over elements of `width` bytes in the functions below. -/
def unmarshallingItems {α : Type} (width : Nat) (get : Bytes → α) : Nat → Nat → Peeking (List α)
  | 0, _ => return []
  | n + 1, startAddr => do
      let element ← load startAddr width
      let vec ← unmarshallingItems width get n (startAddr + width)
      return get element :: vec

/-- The common form of `UnmarshallingVecUInt8`, `UnmarshallingVecDouble` and
`UnmarshallingVecBool`. -/
def unmarshallingVec {α : Type} (width : Nat) (get : Bytes → α) (wrap : List α → RawValue) :
    Peeking Decoded := do
  let vecNum ← loadSize 1
  let ok ← resize vecNum
  if ok then
    let vec ← unmarshallingItems width get vecNum (1 + 8)
    return some (.ok, wrap vec)
  else return none

/-- `UnmarshallingVecUInt8`. -/
def unmarshallingVecUInt8 : Peeking Decoded :=
  unmarshallingVec 1 (fun p => UInt8.ofNat (ofBytes p)) .uint8Array

/-- `UnmarshallingVecDouble`. -/
def unmarshallingVecDouble : Peeking Decoded :=
  unmarshallingVec 8 (fun p => UInt64.ofNat (ofBytes p)) .doubleArray

/-- `UnmarshallingVecBool`. -/
def unmarshallingVecBool : Peeking Decoded :=
  unmarshallingVec 1 (fun p => ofBytes p != 0) .boolArray

/-- `UnmarshallingVecBigInt`. The sign goes through an `int`. -/
def unmarshallingVecBigInt : Peeking Decoded := do
  let vecNum ← loadSize 1
  let sign ← load (1 + 8) 8
  let ok ← resize vecNum
  if ok then
    let vec ← unmarshallingItems 8 (fun p => UInt64.ofNat (ofBytes p)) vecNum (1 + 8 + 8)
    return some (.ok, .bigInt
      { words := vec, sign := (Int64.ofBitVec (BitVec.ofNat 64 (ofBytes sign))).toInt32 })
  else return none

/-- The switch of `UnmarshallingPreferenceValue`, and that of `UnmarshallingBasicArrayValue`. -/
def unmarshallingTyped (type : UInt8) : Peeking Decoded :=
  if type = 1 ∨ type = 2 ∨ type = 3 ∨ type = 4 ∨ type = 5 then unmarshallingBasicValue type
  else if type = 11 ∨ type = 6 then unmarshallingStringValue type
  else if type = 7 then unmarshallingStringArrayValue
  else if type = 10 then unmarshallingVecUInt8
  else if type = 12 then unmarshallingVecBigInt
  else if type = 9 then unmarshallingVecDouble
  else if type = 8 then unmarshallingVecBool
  else return some (.invalidArgs, .int 0)

/-- `UnmarshallingPreferenceValue` of a vector of this size. -/
def unmarshallingPreferenceValue (size : Nat) : Peeking Decoded :=
  if size = 0 then return some (.invalidArgs, .int 0)
  else do
    let type ← load 0 1
    unmarshallingTyped (UInt8.ofNat (ofBytes type))

/-! ### Reading what was written -/

/-- Numbers of elements and lengths that a `size_t` can hold. -/
def Sized : RawValue → Prop
  | .string v | .object v | .uint8Array v => v.length < 2 ^ 64
  | .stringArray v => v.length < 2 ^ 64 ∧ ∀ s ∈ v, s.length < 2 ^ 64
  | .boolArray v => v.length < 2 ^ 64
  | .doubleArray v => v.length < 2 ^ 64
  | .bigInt v => v.words.length < 2 ^ 64
  | _ => True

section Within

variable {data bs post : Bytes} {room : Nat → Bool} {off : Nat} {α : Type} {Q : α → Prop}

theorem drop_of_append (hdata : data.drop off = bs ++ post) :
    data.drop (off + bs.length) = post := by
  rw [← List.drop_drop, hdata, List.drop_left]

/-- A read of bytes that are there. -/
theorem within_load (hdata : data.drop off = bs ++ post) (hpos : 0 < bs.length)
    {f : Bytes → Peeking α} (hrest : Peeking.Within data room Q (f bs)) :
    Peeking.Within data room Q (load off bs.length >>= f) := by
  have hlen : data.length - off = bs.length + post.length := by
    rw [← List.length_drop, hdata, List.length_append]
  refine ⟨by omega, ?_⟩
  rw [hdata, List.take_left]
  exact hrest

theorem within_loadNat {w n : Nat} (hw : 0 < w) (hdata : data.drop off = bytesOf w n ++ post)
    {f : Bytes → Peeking α} (hrest : Peeking.Within data room Q (f (bytesOf w n))) :
    Peeking.Within data room Q (load off w >>= f) := by
  have hload : Peeking.Within data room Q (load off (bytesOf w n).length >>= f) :=
    within_load hdata (by rw [bytesOf_length]; exact hw) hrest
  rw [bytesOf_length] at hload
  exact hload

theorem within_loadSize {n : Nat} (hn : n < 2 ^ 64) (hdata : data.drop off = bytesOf 8 n ++ post)
    {f : Nat → Peeking α} (hrest : Peeking.Within data room Q (f n)) :
    Peeking.Within data room Q (loadSize off >>= f) := by
  refine within_loadNat (f := fun p => f (ofBytes p)) (by decide) hdata ?_
  rw [ofBytes_bytesOf (lt_of_lt_of_eq hn (by norm_num))]
  exact hrest

/-- What a program that may run out of memory makes of bytes that are there: the value, or
nothing where a request was refused. -/
def Gives (room : Nat → Bool) (v : α) (r : Option α) : Prop :=
  r = some v ∨ (r = none ∧ ∃ n, room n = false)

theorem within_some (v : α) : Peeking.Within data room (Gives room v) (.ret (some v)) := .inl rfl

theorem within_none {v : α} {n : Nat} (hroom : room n = false) :
    Peeking.Within data room (Gives room v) (.ret none) :=
  .inr ⟨rfl, n, hroom⟩

theorem within_loadString {v : Bytes} (hdata : data.drop off = v ++ post)
    {f : Option Bytes → Peeking α} (hsome : Peeking.Within data room Q (f (some v)))
    (hnone : (∃ n, room n = false) → Peeking.Within data room Q (f none)) :
    Peeking.Within data room Q (loadString off v.length >>= f) := by
  unfold loadString
  split
  · next hempty =>
    rw [List.length_eq_zero_iff.mp hempty] at hsome
    exact hsome
  · next hne =>
    cases hroom : room v.length with
    | false =>
        show Peeking.Within data room Q ((if room v.length = true then _ else _) >>= f)
        rw [if_neg (by simp [hroom])]
        exact hnone ⟨_, hroom⟩
    | true =>
        show Peeking.Within data room Q ((if room v.length = true then _ else _) >>= f)
        rw [if_pos hroom]
        exact within_load hdata (Nat.pos_iff_ne_zero.mpr hne) hsome

theorem within_strings {v : List Bytes} (hsized : ∀ s ∈ v, s.length < 2 ^ 64)
    (hdata : data.drop off = v.flatMap (fun s => bytesOf 8 s.length ++ s) ++ post) :
    Peeking.Within data room (Gives room v) (unmarshallingStrings v.length off) := by
  induction v generalizing off with
  | nil => exact .inl rfl
  | cons s v ih =>
      rw [List.flatMap_cons, List.append_assoc, List.append_assoc] at hdata
      have hs := drop_of_append hdata
      rw [bytesOf_length] at hs
      refine within_loadSize (hsized s List.mem_cons_self) hdata ?_
      refine within_loadString hs ?_ (fun hroom => .inr ⟨rfl, hroom⟩)
      refine .bind ((ih (fun t ht => hsized t (List.mem_cons_of_mem _ ht))
        (drop_of_append hs)).mono ?_)
      rintro r (rfl | ⟨rfl, hroom⟩)
      · exact .inl rfl
      · exact .inr ⟨rfl, hroom⟩

theorem within_items {width : Nat} (get : Bytes → α) (put : α → Bytes) (hwidth : 0 < width)
    (hput : ∀ x, (put x).length = width) (hget : ∀ x, get (put x) = x) {v : List α}
    (hdata : data.drop off = v.flatMap put ++ post) :
    Peeking.Within data room (· = v) (unmarshallingItems width get v.length off) := by
  induction v generalizing off with
  | nil => rfl
  | cons x v ih =>
      rw [List.flatMap_cons, List.append_assoc] at hdata
      have hrest := drop_of_append hdata
      rw [hput] at hrest
      have hload : Peeking.Within data room (· = x :: v) (load off (put x).length >>= fun element =>
          unmarshallingItems width get v.length (off + width) >>= fun vec =>
            .ret (get element :: vec)) := by
        refine within_load hdata (by rw [hput]; exact hwidth) ?_
        refine .bind ((ih hrest).mono ?_)
        intro vec hvec
        show get (put x) :: vec = x :: v
        rw [hget, hvec]
      rw [hput] at hload
      exact hload

/-- A request for memory. -/
theorem within_resize {n : Nat} {f g : Peeking α} (hyes : Peeking.Within data room Q f)
    (hno : room n = false → Peeking.Within data room Q g) :
    Peeking.Within data room Q (resize n >>= fun ok => if ok then f else g) := by
  show Peeking.Within data room Q (if room n = true then f else g)
  cases hroom : room n with
  | true => exact hyes
  | false => exact hno hroom

theorem type_ofBytes (type : UInt8) : UInt8.ofNat (ofBytes [type]) = type := by
  show UInt8.ofNat (type.toNat + 256 * 0) = type
  rw [Nat.mul_zero, Nat.add_zero, UInt8.ofNat_toNat]

/-- The type is read first. -/
theorem within_typed {type : UInt8} {rest : Bytes} {Q : Decoded → Prop} {prog : Peeking Decoded}
    (hbranch : unmarshallingTyped type = prog) (h : Peeking.Within (type :: rest) room Q prog) :
    Peeking.Within (type :: rest) room Q
      (unmarshallingPreferenceValue (type :: rest).length) := by
  rw [unmarshallingPreferenceValue, if_neg (by simp)]
  have hdata : (type :: rest).drop 0 = [type] ++ rest := rfl
  refine within_load hdata (by simp) ?_
  rw [type_ofBytes, hbranch]
  exact h

/-- A value of fixed width. -/
theorem within_basic {type : UInt8} {w n : Nat} {get : Bytes → RawValue} {value : RawValue}
    (hw : 0 < w) (hget : get (bytesOf w n) = value) :
    Peeking.Within (type :: bytesOf w n) room (Gives room (ErrCode.ok, value))
      (load 1 w >>= fun p => .ret (some (ErrCode.ok, get p))) := by
  have hdata : (type :: bytesOf w n).drop 1 = bytesOf w n ++ [] := (List.append_nil _).symm
  refine within_loadNat hw hdata ?_
  show Gives room _ (some (ErrCode.ok, get (bytesOf w n)))
  rw [hget]
  exact .inl rfl

/-- What follows the number of elements. -/
theorem drop_counted (type : UInt8) (n : Nat) (bs : Bytes) :
    (type :: (bytesOf 8 n ++ bs)).drop (1 + 8) = bs ++ [] := by
  rw [List.append_nil]
  exact drop_bytesOf 8 n bs

theorem within_stringValue {type : UInt8} {v : Bytes} {value : RawValue} (hv : v.length < 2 ^ 64)
    (hvalue : (if type = 11 then some (ErrCode.ok, RawValue.object v)
      else if type = 6 then some (ErrCode.ok, RawValue.string v)
      else some (ErrCode.invalidArgs, RawValue.int 0)) = some (.ok, value)) :
    Peeking.Within (type :: (bytesOf 8 v.length ++ v)) room (Gives room (.ok, value))
      (unmarshallingStringValue type) := by
  refine within_loadSize hv rfl ?_
  refine within_loadString (drop_counted type v.length v) ?_ (fun hroom => .inr ⟨rfl, hroom⟩)
  dsimp only
  split at hvalue
  · next hobject =>
    rw [if_pos hobject]
    exact .inl hvalue
  · next hobject =>
    rw [if_neg hobject]
    split at hvalue
    · next hstring =>
      rw [if_pos hstring]
      exact .inl hvalue
    · cases hvalue

/-- An array of elements of fixed width. -/
theorem within_vec {type : UInt8} {width : Nat} (get : Bytes → α) (put : α → Bytes)
    (wrap : List α → RawValue) (hwidth : 0 < width) (hput : ∀ x, (put x).length = width)
    (hget : ∀ x, get (put x) = x) {v : List α} (hv : v.length < 2 ^ 64) :
    Peeking.Within (type :: (bytesOf 8 v.length ++ v.flatMap put)) room
      (Gives room (.ok, wrap v)) (unmarshallingVec width get wrap) := by
  refine within_loadSize hv rfl ?_
  refine within_resize ?_ within_none
  refine .bind ((within_items get put hwidth hput hget (drop_counted type v.length _)).mono ?_)
  intro vec hvec
  rw [hvec]
  exact within_some _

theorem bool_ofBytes (b : Bool) : (ofBytes (bytesOf 1 b.toNat) != 0) = b := by
  cases b <;> rfl

theorem double_ofBytes (x : UInt64) : UInt64.ofNat (ofBytes (bytesOf 8 x.toNat)) = x := by
  rw [ofBytes_bytesOf (lt_of_lt_of_eq x.toNat_lt (by norm_num)), UInt64.ofNat_toNat]

theorem sign_ofBytes (sign : Int32) :
    (Int64.ofBitVec (BitVec.ofNat 64 (ofBytes (signBytes sign)))).toInt32 = sign := by
  rw [signBytes, ofBytes_bytesOf (lt_of_lt_of_eq (BitVec.isLt _) (by norm_num)),
    BitVec.ofNat_toNat, BitVec.setWidth_eq]
  exact Int32.toInt32_toInt64 sign

theorem within_bigInt (v : BigInt) (hv : v.words.length < 2 ^ 64) :
    Peeking.Within (RawValue.bigInt v).encode room (Gives room (ErrCode.ok, .bigInt v))
      unmarshallingVecBigInt := by
  have hsign : (RawValue.bigInt v).encode.drop (1 + 8) =
      signBytes v.sign ++ v.words.flatMap (fun x => bytesOf 8 x.toNat) :=
    drop_bytesOf 8 v.words.length _
  have hwords : (RawValue.bigInt v).encode.drop (1 + 8 + 8) =
      v.words.flatMap (fun x => bytesOf 8 x.toNat) ++ [] := by
    have hdrop := drop_of_append hsign
    rw [signBytes, bytesOf_length] at hdrop
    rw [hdrop, List.append_nil]
  have hitems : Peeking.Within (RawValue.bigInt v).encode room (· = v.words)
      (unmarshallingItems 8 (fun p => UInt64.ofNat (ofBytes p)) v.words.length (1 + 8 + 8)) :=
    within_items (fun p => UInt64.ofNat (ofBytes p)) (fun x => bytesOf 8 x.toNat) (by decide)
      (fun _ => bytesOf_length _ _) double_ofBytes hwords
  refine within_loadSize hv rfl ?_
  refine within_loadNat (by decide) hsign ?_
  refine within_resize ?_ within_none
  refine .bind (hitems.mono ?_)
  intro words hsame
  have hvalue := sign_ofBytes v.sign
  rw [signBytes] at hvalue
  rw [hsame, hvalue]
  exact within_some _

/-- **The functions read an encoding inside its bounds, and return the value.** -/
theorem within_unmarshalling {value : RawValue} (hknown : value.Known) (hsized : value.Sized) :
    Peeking.Within value.encode room (Gives room (.ok, value))
      (unmarshallingPreferenceValue value.encode.length) := by
  cases value with
  | int v =>
      refine within_typed rfl (within_basic (by decide) ?_)
      rw [ofBytes_bytesOf (lt_of_lt_of_eq v.toBitVec.isLt (by norm_num)), BitVec.ofNat_toNat,
        BitVec.setWidth_eq]
      rfl
  | int64 v =>
      refine within_typed rfl (within_basic (by decide) ?_)
      rw [ofBytes_bytesOf (lt_of_lt_of_eq v.toBitVec.isLt (by norm_num)), BitVec.ofNat_toNat,
        BitVec.setWidth_eq]
      rfl
  | float bits =>
      refine within_typed rfl (within_basic (by decide) ?_)
      rw [ofBytes_bytesOf (lt_of_lt_of_eq bits.toNat_lt (by norm_num)), UInt32.ofNat_toNat]
  | double bits =>
      refine within_typed rfl (within_basic (by decide) ?_)
      rw [double_ofBytes]
  | bool v =>
      refine within_typed rfl (within_basic (by decide) ?_)
      rw [bool_ofBytes]
  | string v => exact within_typed rfl (within_stringValue hsized rfl)
  | object v => exact within_typed rfl (within_stringValue hsized rfl)
  | stringArray v =>
      obtain ⟨hnum, hlens⟩ := hsized
      refine within_typed rfl (within_loadSize hnum rfl ?_)
      refine within_resize ?_ within_none
      refine .bind ((within_strings hlens (drop_counted 7 v.length _)).mono ?_)
      intro r hr
      obtain rfl | ⟨rfl, hroom⟩ := hr
      · exact .inl rfl
      · exact .inr ⟨rfl, hroom⟩
  | uint8Array v =>
      have hvec : Peeking.Within (10 :: (bytesOf 8 v.length ++ v.flatMap (fun x => [x]))) room
          (Gives room (ErrCode.ok, .uint8Array v)) unmarshallingVecUInt8 :=
        within_vec (fun p => UInt8.ofNat (ofBytes p)) _ _ Nat.one_pos (fun _ => rfl) type_ofBytes
          hsized
      rw [List.flatMap_singleton'] at hvec
      exact within_typed rfl hvec
  | boolArray v =>
      exact within_typed rfl (within_vec (fun p => ofBytes p != 0) (fun b => bytesOf 1 b.toNat) _
        Nat.one_pos (fun _ => bytesOf_length _ _) bool_ofBytes hsized)
  | doubleArray v =>
      exact within_typed rfl (within_vec (fun p => UInt64.ofNat (ofBytes p))
        (fun x => bytesOf 8 x.toNat) _ (by decide) (fun _ => bytesOf_length _ _) double_ofBytes
        hsized)
  | bigInt v => exact within_typed rfl (within_bigInt v hsized)
  | monostate | intArray | int64Array => exact absurd rfl hknown

end Within

/-! ### The round trip -/

/-- An encoding of less than `2 ^ 64` bytes has no number that a `size_t` cannot hold. -/
theorem sized_of_length {value : RawValue} (h : value.encode.length < 2 ^ 64) : value.Sized := by
  cases value with
  | monostate | int | int64 | float | double | bool | intArray | int64Array => trivial
  | string v | object v | uint8Array v =>
      simp only [encode, List.length_cons, List.length_append, bytesOf_length] at h
      show v.length < 2 ^ 64
      omega
  | stringArray v =>
      simp only [encode, List.length_cons, List.length_append, bytesOf_length, strings_length] at h
      refine ⟨?_, ?_⟩
      · have hone := List.length_le_sum_of_one_le (v.map (fun s => 8 + s.length)) ?_
        · rw [List.length_map] at hone
          omega
        · intro n hn
          obtain ⟨s, -, rfl⟩ := List.mem_map.mp hn
          omega
      · intro s hs
        have hmem : 8 + s.length ∈ v.map (fun s => 8 + s.length) := List.mem_map_of_mem hs
        have hle := List.single_le_sum (fun _ _ => Nat.zero_le _) _ hmem
        omega
  | boolArray v =>
      rw [boolArray_length] at h
      show v.length < 2 ^ 64
      omega
  | doubleArray v =>
      simp only [encode, List.length_cons, List.length_append, bytesOf_length,
        flatMap_length_of_size (fun x : UInt64 => bytesOf_length 8 x.toNat)] at h
      show v.length < 2 ^ 64
      omega
  | bigInt v =>
      simp only [encode, signBytes, List.length_cons, List.length_append, bytesOf_length,
        flatMap_length_of_size (fun x : UInt64 => bytesOf_length 8 x.toNat)] at h
      show v.words.length < 2 ^ 64
      omega

/-- The buffer that `Put` hands to the database. -/
def buffer (check : CopyCheck) (value : RawValue) : Bytes :=
  (value.marshalled.memory check .blank).contents value.calSize.toNat

/-- **The buffer has the size of the encoding and is filled completely, and the value is read
back from it.** -/
theorem parcel_round_trip {check : CopyCheck} {room : Nat → Bool} {value : RawValue}
    (hcheck : check.Admits (2 ^ 31)) (hroom : ∀ n, room n = true) (hknown : value.Known)
    (hlen : value.encode.length < 2 ^ 31) :
    value.calSize.toNat = value.encode.length ∧
      value.marshalled.result check .blank = .ok ∧
      (∀ i, (value.marshalled.memory check .blank i).isSome ↔ i < value.calSize.toNat) ∧
      (∃ tr r u, Exec (peekSem (value.buffer check) room)
        (unmarshallingPreferenceValue (value.buffer check).length) () tr r u) ∧
      ∀ tr r u, Exec (peekSem (value.buffer check) room)
        (unmarshallingPreferenceValue (value.buffer check).length) () tr r u →
        (∀ ev ∈ tr, ev.1.Inside (value.buffer check).length) ∧ r = some (.ok, value) := by
  have hsize : value.calSize.toNat = value.encode.length :=
    value.calSize_toNat.trans (Nat.mod_eq_of_lt (by omega))
  have hpos : 0 < value.calSize.toNat := hsize ▸ encode_pos hknown
  have hlays : Copying.Lays check (2 ^ 31) (· = .ok) value.marshalled 0 value.encode :=
    lays_marshalled hknown hpos
  have hok := hlays.ends_well hcheck hlen .blank
  have hmem := hlays.memory_eq .blank hok
  have hbuffer : value.buffer check = value.encode := by
    rw [buffer, hmem, hsize, Cells.contents_copy]
  refine ⟨hsize, hok, ?_, ?_, ?_⟩
  · intro i
    rw [hmem, Cells.blank_copy_isSome]
    omega
  · obtain ⟨tr, r, u, hrun⟩ := exists_exec exists_peek
      (unmarshallingPreferenceValue (value.buffer check).length) ()
    exact ⟨tr, r, u, hrun⟩
  · intro tr r u hrun
    rw [hbuffer] at hrun ⊢
    obtain ⟨hreads, hr⟩ :=
      (within_unmarshalling hknown (sized_of_length (by omega))).exec hrun
    refine ⟨hreads, ?_⟩
    obtain hr | ⟨-, n, hno⟩ := hr
    · exact hr
    · rw [hroom n] at hno
      cases hno

/-- A text. -/
theorem parcel_round_trip_string :
    (RawValue.string [104, 105]).calSize.toNat = (RawValue.string [104, 105]).encode.length ∧
      (RawValue.string [104, 105]).marshalled.result boundedCopy .blank = .ok :=
  have hroom : ∀ n : Nat, (fun _ => true) n = true := fun _ => rfl
  have htrip := parcel_round_trip boundedCopy_admits hroom (by decide) (by decide)
  ⟨htrip.1, htrip.2.1⟩

/-! ### Bytes that are decoded safely -/

/-- The lengths of `n` strings add up to what is there. -/
def wellFormedStrings : Nat → Bytes → Prop
  | 0, p => p = []
  | n + 1, p => 8 + readNat 8 p ≤ p.length ∧ wellFormedStrings n (p.drop (8 + readNat 8 p))

/-- A 64-bit sign that an `int` can hold. -/
def signFits (n : Nat) : Prop := n < 2 ^ 31 ∨ 2 ^ 64 - 2 ^ 31 ≤ n

/-- The bytes behind a type that is known have the size that their numbers say, a `bool` is 0 or
1, and a sign fits. -/
def wellFormedTyped (type : UInt8) (p : Bytes) : Prop :=
  if type = 1 ∨ type = 3 then p.length = 4
  else if type = 2 ∨ type = 4 then p.length = 8
  else if type = 5 then p = [0] ∨ p = [1]
  else if type = 6 ∨ type = 10 ∨ type = 11 then p.length = 8 + readNat 8 p
  else if type = 7 then 8 ≤ p.length ∧ wellFormedStrings (readNat 8 p) (p.drop 8)
  else if type = 8 then p.length = 8 + readNat 8 p ∧ ∀ b ∈ p.drop 8, b = 0 ∨ b = 1
  else if type = 9 then p.length = 8 + readNat 8 p * 8
  else if type = 12 then p.length = 8 + 8 + readNat 8 p * 8 ∧ signFits (readNat 8 (p.drop 8))
  else True

/-- Bytes without a type, with a type that is not known, or of the right size. -/
def wellFormed : Bytes → Prop
  | [] => True
  | type :: p => wellFormedTyped type p

/-- The types that `UnmarshallingPreferenceValue` knows. -/
def knownType (type : UInt8) : Prop := 1 ≤ type.toNat ∧ type.toNat ≤ 12

/-- The exact encoding of some value. -/
def IsEncoding (data : Bytes) : Prop := ∃ v : RawValue, v.Known ∧ v.Sized ∧ v.encode = data

theorem bytesOf_readNat {w : Nat} {p : Bytes} (h : w ≤ p.length) :
    bytesOf w (readNat w p) ++ p.drop w = p := by
  have htake := bytesOf_ofBytes (p.take w)
  rw [List.length_take, Nat.min_eq_left h] at htake
  rw [readNat, htake, List.take_append_drop]

theorem readNat_lt (w : Nat) (p : Bytes) : readNat w p < 256 ^ w := by
  have hlt := ofBytes_lt (p.take w)
  refine lt_of_lt_of_le hlt (Nat.pow_le_pow_right (by decide) ?_)
  rw [List.length_take]
  exact Nat.min_le_left _ _

/-- Elements of fixed width that fill the bytes. -/
theorem exists_items {α : Type} {width n : Nat} {get : Bytes → α} {put : α → Bytes} {p : Bytes}
    (hlen : p.length = n * width)
    (hput : ∀ bs, bs.length = width → (∀ b ∈ bs, b ∈ p) → put (get bs) = bs) :
    ∃ v : List α, v.length = n ∧ v.flatMap put = p := by
  induction n generalizing p with
  | zero => exact ⟨[], rfl, (List.length_eq_zero_iff.mp (by omega)).symm⟩
  | succ n ih =>
      rw [Nat.succ_mul] at hlen
      obtain ⟨v, hv, hflat⟩ := ih (p := p.drop width) (by rw [List.length_drop]; omega)
        (fun bs hbs hmem => hput bs hbs (fun b hb => List.mem_of_mem_drop (hmem b hb)))
      have hhead := hput (p.take width) (by rw [List.length_take]; omega)
        (fun b hb => List.mem_of_mem_take hb)
      refine ⟨get (p.take width) :: v, by rw [List.length_cons, hv], ?_⟩
      rw [List.flatMap_cons, hhead, hflat, List.take_append_drop]

theorem exists_strings {n : Nat} {p : Bytes} :
    wellFormedStrings n p ↔ ∃ v : List Bytes, v.length = n ∧ (∀ s ∈ v, s.length < 2 ^ 64) ∧
      v.flatMap (fun s => bytesOf 8 s.length ++ s) = p := by
  induction n generalizing p with
  | zero =>
      constructor
      · intro hp
        exact ⟨[], rfl, by simp, hp.symm⟩
      · intro ⟨v, hv, _, hflat⟩
        rw [List.length_eq_zero_iff.mp hv] at hflat
        exact hflat.symm
  | succ n ih =>
      constructor
      · intro ⟨hfits, hrest⟩
        obtain ⟨v, hv, hlens, hflat⟩ := ih.mp hrest
        -- the first string, with the length that stands before it
        have hlen : ((p.drop 8).take (readNat 8 p)).length = readNat 8 p := by
          rw [List.length_take, List.length_drop]
          omega
        refine ⟨(p.drop 8).take (readNat 8 p) :: v, by rw [List.length_cons, hv], ?_, ?_⟩
        · intro s hs
          obtain rfl | hs := List.mem_cons.mp hs
          · rw [hlen]
            exact lt_of_lt_of_eq (readNat_lt 8 p) (by norm_num)
          · exact hlens s hs
        · rw [List.flatMap_cons, hflat, hlen, List.append_assoc, ← List.drop_drop,
            List.take_append_drop, bytesOf_readNat (by omega)]
      · intro ⟨v, hv, hlens, hflat⟩
        cases v with
        | nil => cases hv
        | cons s v =>
            have hs : s.length < 256 ^ 8 :=
              lt_of_lt_of_eq (hlens s List.mem_cons_self) (by norm_num)
            rw [List.flatMap_cons, List.append_assoc] at hflat
            have hread : readNat 8 p = s.length := by rw [← hflat, readNat_bytesOf hs]
            refine ⟨?_, ih.mpr ⟨v, Nat.succ.inj hv, ?_, ?_⟩⟩
            · rw [hread, ← hflat, List.length_append, List.length_append, bytesOf_length]
              omega
            · exact fun t ht => hlens t (List.mem_cons_of_mem _ ht)
            · rw [hread, ← hflat, ← List.drop_drop, drop_bytesOf, List.drop_left]

/-- The signs that fit are those of an `int`. -/
theorem signFits_iff {n : Nat} (hn : n < 2 ^ 64) :
    signFits n ↔ ∃ sign : Int32, sign.toInt64.toBitVec.toNat = n := by
  have hextend : ∀ sign : Int32, sign.toInt64.toBitVec.toNat =
      sign.toBitVec.toNat + if 2 ^ 31 ≤ sign.toBitVec.toNat then 2 ^ 64 - 2 ^ 32 else 0 := by
    intro sign
    show (sign.toBitVec.signExtend 64).toNat = _
    have hlt := sign.toBitVec.isLt
    rw [BitVec.toNat_signExtend, BitVec.toNat_setWidth, Nat.mod_eq_of_lt (by omega)]
    simp only [BitVec.msb_eq_decide, decide_eq_true_eq]
  constructor
  · intro hfits
    refine ⟨Int32.ofBitVec (BitVec.ofNat 32 n), ?_⟩
    rw [hextend]
    show (BitVec.ofNat 32 n).toNat + (if 2 ^ 31 ≤ (BitVec.ofNat 32 n).toNat then _ else _) = n
    rw [BitVec.toNat_ofNat]
    obtain hfits | hfits := hfits
    · rw [if_neg (by omega)]
      omega
    · rw [if_pos (by omega)]
      omega
  · intro ⟨sign, hsign⟩
    have hlt := sign.toBitVec.isLt
    rw [hextend] at hsign
    rw [signFits]
    split at hsign
    · omega
    · omega

/-- An encoding has the right size. -/
theorem IsEncoding.wellFormedTyped {type : UInt8} {p : Bytes} (h : IsEncoding (type :: p)) :
    wellFormedTyped type p := by
  have hpow : (2 : Nat) ^ 64 = 256 ^ 8 := by norm_num
  obtain ⟨value, hknown, hsized, hencode⟩ := h
  cases value with
  | int v =>
      obtain ⟨rfl, rfl⟩ := List.cons.inj hencode
      exact bytesOf_length 4 _
  | int64 v =>
      obtain ⟨rfl, rfl⟩ := List.cons.inj hencode
      exact bytesOf_length 8 _
  | float bits =>
      obtain ⟨rfl, rfl⟩ := List.cons.inj hencode
      exact bytesOf_length 4 _
  | double bits =>
      obtain ⟨rfl, rfl⟩ := List.cons.inj hencode
      exact bytesOf_length 8 _
  | bool v =>
      obtain ⟨rfl, rfl⟩ := List.cons.inj hencode
      show bytesOf 1 v.toNat = [0] ∨ bytesOf 1 v.toNat = [1]
      cases v with
      | false => exact .inl rfl
      | true => exact .inr rfl
  | string v | object v | uint8Array v =>
      obtain ⟨rfl, rfl⟩ := List.cons.inj hencode
      show (bytesOf 8 v.length ++ v).length = 8 + readNat 8 (bytesOf 8 v.length ++ v)
      rw [readNat_bytesOf (hpow ▸ hsized), List.length_append, bytesOf_length]
  | stringArray v =>
      obtain ⟨hnum, hlens⟩ := hsized
      obtain ⟨rfl, rfl⟩ := List.cons.inj hencode
      refine ⟨by rw [List.length_append, bytesOf_length]; omega, ?_⟩
      rw [readNat_bytesOf (hpow ▸ hnum), drop_bytesOf]
      exact exists_strings.mpr ⟨v, rfl, hlens, rfl⟩
  | boolArray v =>
      obtain ⟨rfl, rfl⟩ := List.cons.inj hencode
      refine ⟨?_, ?_⟩
      · rw [readNat_bytesOf (hpow ▸ hsized), List.length_append, bytesOf_length,
          flatMap_length_of_size (fun b : Bool => bytesOf_length 1 b.toNat), Nat.mul_one]
      · rw [drop_bytesOf]
        intro b hb
        obtain ⟨x, -, hx⟩ := List.mem_flatMap.mp hb
        obtain rfl := List.mem_singleton.mp hx
        cases x with
        | false => exact .inl rfl
        | true => exact .inr rfl
  | doubleArray v =>
      obtain ⟨rfl, rfl⟩ := List.cons.inj hencode
      show (bytesOf 8 v.length ++ _).length = 8 + readNat 8 (bytesOf 8 v.length ++ _) * 8
      rw [readNat_bytesOf (hpow ▸ hsized), List.length_append, bytesOf_length,
        flatMap_length_of_size (fun x : UInt64 => bytesOf_length 8 x.toNat)]
  | bigInt v =>
      obtain ⟨rfl, rfl⟩ := List.cons.inj hencode
      have hsign : v.sign.toInt64.toBitVec.toNat < 2 ^ 64 := v.sign.toInt64.toBitVec.isLt
      refine ⟨?_, ?_⟩
      · rw [readNat_bytesOf (hpow ▸ hsized), List.length_append, List.length_append, signBytes,
          bytesOf_length, bytesOf_length,
          flatMap_length_of_size (fun x : UInt64 => bytesOf_length 8 x.toNat)]
        omega
      · rw [drop_bytesOf, signBytes, readNat_bytesOf (hpow ▸ hsign)]
        exact (signFits_iff hsign).mpr ⟨v.sign, rfl⟩
  | monostate | intArray | int64Array => exact absurd rfl hknown

theorem bytesOf_mod {w : Nat} {p : Bytes} (h : p.length = w) {m : Nat} (hm : m = 256 ^ w) :
    bytesOf w (ofBytes p % m) = p := by
  have hlt := ofBytes_lt p
  rw [h] at hlt
  rw [hm, Nat.mod_eq_of_lt hlt, ← h, bytesOf_ofBytes]

theorem double_of_bytes {bs : Bytes} (hlen : bs.length = 8) :
    bytesOf 8 (UInt64.ofNat (ofBytes bs)).toNat = bs := by
  rw [UInt64.toNat_ofNat', bytesOf_mod hlen (by norm_num)]

theorem exists_doubles {n : Nat} {p : Bytes} (hlen : p.length = n * 8) :
    ∃ v : List UInt64, v.length = n ∧ v.flatMap (fun x => bytesOf 8 x.toNat) = p :=
  exists_items hlen (fun _ hbs _ => double_of_bytes hbs)

theorem byte_of_bool {bs : Bytes} (hlen : bs.length = 1) (h : ∀ b ∈ bs, b = 0 ∨ b = 1) :
    bytesOf 1 (ofBytes bs != 0).toNat = bs := by
  obtain ⟨b, rfl⟩ := List.length_eq_one_iff.mp hlen
  obtain rfl | rfl := h b (List.mem_singleton_self b)
  · rfl
  · rfl

/-- Behind a known type, bytes of the right size are an encoding. -/
theorem isEncoding_of_wellFormedTyped {type : UInt8} {p : Bytes} (htype : knownType type)
    (h : wellFormedTyped type p) : IsEncoding (type :: p) := by
  -- the number of elements in front of them
  have hnum : readNat 8 p < 2 ^ 64 := lt_of_lt_of_eq (readNat_lt 8 p) (by norm_num)
  have hfront : ∀ {n : Nat} {bs : Bytes}, n = readNat 8 p → bs = p.drop 8 → 8 ≤ p.length →
      bytesOf 8 n ++ bs = p := by
    intro n bs hn hbs hlen
    rw [hn, hbs, bytesOf_readNat hlen]
  have hrest : (p.drop 8).length = p.length - 8 := List.length_drop
  unfold RawValue.wellFormedTyped at h
  split at h
  · next hkind =>
    obtain rfl | rfl := hkind
    · refine ⟨.int (Int32.ofBitVec (BitVec.ofNat 32 (ofBytes p))), by simp [Known, typeIndex],
        trivial, ?_⟩
      show 1 :: bytesOf 4 (BitVec.ofNat 32 (ofBytes p)).toNat = 1 :: p
      rw [BitVec.toNat_ofNat, bytesOf_mod h (by norm_num)]
    · refine ⟨.float (UInt32.ofNat (ofBytes p)), by simp [Known, typeIndex], trivial, ?_⟩
      rw [encode, UInt32.toNat_ofNat', bytesOf_mod h (by norm_num)]
  split at h
  · next hkind =>
    obtain rfl | rfl := hkind
    · refine ⟨.int64 (Int64.ofBitVec (BitVec.ofNat 64 (ofBytes p))), by simp [Known, typeIndex],
        trivial, ?_⟩
      show 2 :: bytesOf 8 (BitVec.ofNat 64 (ofBytes p)).toNat = 2 :: p
      rw [BitVec.toNat_ofNat, bytesOf_mod h (by norm_num)]
    · refine ⟨.double (UInt64.ofNat (ofBytes p)), by simp [Known, typeIndex], trivial, ?_⟩
      rw [encode, UInt64.toNat_ofNat', bytesOf_mod h (by norm_num)]
  split at h
  · next hkind =>
    subst hkind
    obtain rfl | rfl := h
    · exact ⟨.bool false, by decide, trivial, rfl⟩
    · exact ⟨.bool true, by decide, trivial, rfl⟩
  split at h
  · next hkind =>
    have hlen : (p.drop 8).length = readNat 8 p := by omega
    have hsized : (p.drop 8).length < 2 ^ 64 := hlen ▸ hnum
    have hbytes := hfront hlen rfl (by omega)
    obtain rfl | rfl | rfl := hkind
    · exact ⟨.string (p.drop 8), by simp [Known, typeIndex], hsized, congrArg (6 :: ·) hbytes⟩
    · exact ⟨.uint8Array (p.drop 8), by simp [Known, typeIndex], hsized, congrArg (10 :: ·) hbytes⟩
    · exact ⟨.object (p.drop 8), by simp [Known, typeIndex], hsized, congrArg (11 :: ·) hbytes⟩
  split at h
  · next hkind =>
    subst hkind
    obtain ⟨v, hv, hlens, hflat⟩ := exists_strings.mp h.2
    exact ⟨.stringArray v, by simp [Known, typeIndex], ⟨hv ▸ hnum, hlens⟩,
      congrArg (7 :: ·) (hfront hv hflat h.1)⟩
  split at h
  · next hkind =>
    subst hkind
    have hlen : (p.drop 8).length = readNat 8 p * 1 := by omega
    obtain ⟨v, hv, hflat⟩ : ∃ v : List Bool, _ ∧ v.flatMap (fun b => bytesOf 1 b.toNat) = _ :=
      exists_items hlen
        (fun bs hbs hmem => byte_of_bool hbs (fun b hb => h.2 b (hmem b hb)))
    exact ⟨.boolArray v, by simp [Known, typeIndex], lt_of_eq_of_lt hv hnum,
      congrArg (8 :: ·) (hfront hv hflat (by omega))⟩
  split at h
  · next hkind =>
    subst hkind
    have hlen : (p.drop 8).length = readNat 8 p * 8 := by omega
    obtain ⟨v, hv, hflat⟩ := exists_doubles hlen
    exact ⟨.doubleArray v, by simp [Known, typeIndex], lt_of_eq_of_lt hv hnum,
      congrArg (9 :: ·) (hfront hv hflat (by omega))⟩
  split at h
  · next hkind =>
    subst hkind
    obtain ⟨hlen, hfits⟩ := h
    obtain ⟨sign, hsign⟩ :=
      (signFits_iff (lt_of_lt_of_eq (readNat_lt 8 _) (by norm_num))).mp hfits
    have hwords : ((p.drop 8).drop 8).length = readNat 8 p * 8 := by
      rw [List.length_drop]
      omega
    obtain ⟨v, hv, hflat⟩ := exists_doubles hwords
    refine ⟨.bigInt ⟨v, sign⟩, by simp [Known, typeIndex], lt_of_eq_of_lt hv hnum,
      congrArg (12 :: ·) (hfront hv ?_ (by omega))⟩
    rw [signBytes, hsign, hflat, bytesOf_readNat (by omega)]
  · exfalso
    obtain ⟨hpos, hle⟩ := htype
    simp only [← UInt8.toNat_inj, UInt8.reduceToNat] at *
    omega

/-! ### Safe decoding -/

/-- Nothing outside of `data` is read, and what is no encoding is answered with an error code. -/
def SafeDecode (room : Nat → Bool) (data : Bytes) : Prop :=
  ∀ tr r u, Exec (peekSem data room) (unmarshallingPreferenceValue data.length) () tr r u →
    (∀ ev ∈ tr, ev.1.Inside data.length) ∧
      (¬ IsEncoding data → ∃ code value, r = some (code, value) ∧ code ≠ .ok)

/-- `E_OK`, or nothing at all. -/
def NoError (r : Decoded) : Prop := ∀ code value, r = some (code, value) → code = .ok

theorem noError_ok (value : RawValue) : NoError (some (.ok, value)) := by
  intro code value' h
  cases h
  rfl

theorem noError_none : NoError none := by
  intro code value h
  cases h

/-- A vector is returned with `E_OK`. -/
theorem noError_vec {α : Type} (width : Nat) (get : Bytes → α) (wrap : List α → RawValue) :
    (unmarshallingVec width get wrap).Returns NoError := by
  refine Program.returns_bind (fun vecNum => Program.returns_bind (fun ok => ?_) _) _
  split
  · refine Program.returns_bind (fun vec => ?_) _
    exact noError_ok _
  · exact noError_none

/-- **No error code is returned for a type that is known.** -/
theorem ok_of_known {type : UInt8} (htype : knownType type) :
    (unmarshallingTyped type).Returns NoError := by
  unfold unmarshallingTyped
  split
  · next hbasic =>
    obtain rfl | rfl | rfl | rfl | rfl := hbasic
    all_goals
      refine Program.returns_bind (fun p => ?_) _
      exact noError_ok _
  split
  · next hstring =>
    refine Program.returns_bind (fun strLen => Program.returns_bind (fun strValue => ?_) _) _
    obtain rfl | rfl := hstring
    all_goals
      cases strValue with
      | none => exact noError_none
      | some strValue => exact noError_ok _
  split
  · refine Program.returns_bind (fun vecNum => Program.returns_bind (fun ok => ?_) _) _
    split
    · refine Program.returns_bind (fun strVec => ?_) _
      cases strVec with
      | none => exact noError_none
      | some strVec => exact noError_ok _
    · exact noError_none
  split
  · exact noError_vec _ _ _
  split
  · refine Program.returns_bind (fun vecNum => Program.returns_bind (fun sign =>
      Program.returns_bind (fun ok => ?_) _) _) _
    split
    · refine Program.returns_bind (fun vec => ?_) _
      exact noError_ok _
    · exact noError_none
  split
  · exact noError_vec _ _ _
  split
  · exact noError_vec _ _ _
  · exfalso
    obtain ⟨hpos, hle⟩ := htype
    simp only [← UInt8.toNat_inj, UInt8.reduceToNat, not_or] at *
    omega

theorem noError_of_exec {type : UInt8} {p : Bytes} {room : Nat → Bool}
    {tr : List (Event Peek.Answer)} {r : Decoded} {u : Unit} (htype : knownType type)
    (hrun : Exec (peekSem (type :: p) room)
      (unmarshallingPreferenceValue (type :: p).length) () tr r u) : NoError r := by
  rw [unmarshallingPreferenceValue, if_neg (by simp)] at hrun
  obtain ⟨tr₁, bs, u₁, tr₂, hload, hrest, -⟩ := exec_bind_iff.mp hrun
  obtain ⟨hanswer, -⟩ := exec_op_iff.mp hload
  have hbs : bs = [type] := peek_inside hanswer (by simp)
  rw [hbs, type_ofBytes] at hrest
  exact hrest.returns (ok_of_known htype)

/-- A type that is not known is looked at, and refused. -/
theorem unmarshallingTyped_unknown {type : UInt8} (htype : ¬ knownType type) :
    unmarshallingTyped type = .ret (some (.invalidArgs, .int 0)) := by
  have hne : ∀ t : UInt8, knownType t → type ≠ t := fun t ht heq => htype (heq ▸ ht)
  simp [unmarshallingTyped, hne _ ⟨_, _⟩]

/-- Bytes with a type that is not known are well formed, whatever follows. -/
theorem wellFormedTyped_unknown {type : UInt8} (htype : ¬ knownType type) (p : Bytes) :
    wellFormedTyped type p := by
  have hne : ∀ t : UInt8, knownType t → type ≠ t := fun t ht heq => htype (heq ▸ ht)
  simp [wellFormedTyped, hne _ ⟨_, _⟩]

instance (type : UInt8) : Decidable (knownType type) := inferInstanceAs (Decidable (_ ∧ _))

theorem wellFormedTyped_of_safe {type : UInt8} {p : Bytes} {room : Nat → Bool}
    (htype : knownType type) (hsafe : SafeDecode room (type :: p)) : wellFormedTyped type p := by
  by_contra hill
  -- some run there is, and for a known type it does not report an error
  have hanswer : ∀ c u, ∃ r u', peekSem (type :: p) room c u r u' := exists_peek
  obtain ⟨tr, r, u, hrun⟩ :=
    exists_exec hanswer (unmarshallingPreferenceValue (type :: p).length) ()
  obtain ⟨code, value, hr, hcode⟩ :=
    (hsafe tr r u hrun).2 (fun hencoding => hill hencoding.wellFormedTyped)
  exact hcode (noError_of_exec htype hrun code value hr)

theorem safe_of_wellFormedTyped {type : UInt8} {p : Bytes} {room : Nat → Bool}
    (htype : knownType type) (hwell : wellFormedTyped type p) : SafeDecode room (type :: p) := by
  intro tr r u hrun
  obtain ⟨value, hknown, hsized, hencode⟩ := isEncoding_of_wellFormedTyped htype hwell
  rw [← hencode] at hrun ⊢
  obtain ⟨hreads, -⟩ := (within_unmarshalling hknown hsized).exec hrun
  exact ⟨hreads, fun hno => absurd ⟨value, hknown, hsized, rfl⟩ hno⟩

theorem safe_of_unknown {type : UInt8} {p : Bytes} {room : Nat → Bool}
    (htype : ¬ knownType type) : SafeDecode room (type :: p) := by
  have hwithin : Peeking.Within (type :: p) room (· = some (.invalidArgs, .int 0))
      (unmarshallingPreferenceValue (type :: p).length) := by
    exact within_typed (unmarshallingTyped_unknown htype) rfl
  intro tr r u hrun
  obtain ⟨hreads, rfl⟩ := hwithin.exec hrun
  exact ⟨hreads, fun _ => ⟨_, _, rfl, by decide⟩⟩

theorem safe_nil {room : Nat → Bool} : SafeDecode room [] := by
  intro tr r u hrun
  obtain ⟨rfl, rfl, rfl⟩ := exec_ret_iff.mp hrun
  exact ⟨by simp, fun _ => ⟨_, _, rfl, by decide⟩⟩

/-- **Decoding is safe exactly for bytes of the right size.** -/
theorem safe_iff_wellFormed (room : Nat → Bool) (data : Bytes) :
    SafeDecode room data ↔ wellFormed data := by
  cases data with
  | nil => exact iff_of_true safe_nil trivial
  | cons type p =>
      by_cases htype : knownType type
      · exact ⟨wellFormedTyped_of_safe htype, safe_of_wellFormedTyped htype⟩
      · exact iff_of_true (safe_of_unknown htype) (wellFormedTyped_unknown htype p)

/-- A number whose bytes are missing. -/
theorem decoding_unsafe : ¬ ∀ (room : Nat → Bool) (data : Bytes), SafeDecode room data := by
  intro hclaim
  have hfour : wellFormedTyped 1 [] :=
    wellFormedTyped_of_safe (by decide) (hclaim (fun _ => true) [1])
  have hlen : ([] : Bytes).length = 4 := hfour
  exact absurd hlen (by decide)

end RawValue

end NativePreferences
