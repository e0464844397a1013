import Mathlib.Algebra.Order.Ring.Nat
import Mathlib.Data.List.Basic
import Mathlib.Tactic.Ring

/-!
# NativePreferences.Lib.Bytes

**Numbers, texts and vectors as runs of bytes**, the way a program lays them out that copies
its variables into a buffer and reads them back from an address: numbers with the least
significant byte first, texts in UTF-8, vectors element after element.

An address in a buffer is the list of the bytes from there on. What a reader takes from behind
the end of the buffer is left open by the languages that allow it; here the list is just shorter,
and nothing below speaks about that case.
-/

namespace NativePreferences.Lib

/-- The contents of a buffer, or what follows an address in it. -/
abbrev Bytes : Type := List UInt8

/-! ### Numbers -/

/-- The `w` lowest bytes of `n`. -/
def bytesOf (w n : Nat) : Bytes := (List.range w).map (fun i => UInt8.ofNat (n / 256 ^ i))

/-- The number with these bytes. -/
def ofBytes (bs : Bytes) : Nat := bs.foldr (fun b n => b.toNat + 256 * n) 0

@[simp] theorem bytesOf_length (w n : Nat) : (bytesOf w n).length = w := by
  simp [bytesOf]

theorem bytesOf_succ (w n : Nat) : bytesOf (w + 1) n = UInt8.ofNat n :: bytesOf w (n / 256) := by
  rw [bytesOf, List.range_succ_eq_map, List.map_cons, List.map_map, pow_zero, Nat.div_one]
  congr 1
  refine List.map_congr_left ?_
  intro i _
  rw [Function.comp_apply, Nat.pow_succ', Nat.div_div_eq_div_mul]

theorem ofBytes_bytesOf {w n : Nat} (h : n < 256 ^ w) : ofBytes (bytesOf w n) = n := by
  induction w generalizing n with
  | zero =>
      have hn : n = 0 := by simpa using h
      rw [hn]
      rfl
  | succ w ih =>
      rw [bytesOf_succ]
      show (UInt8.ofNat n).toNat + 256 * ofBytes (bytesOf w (n / 256)) = n
      have hdiv : n / 256 < 256 ^ w := by
        rw [pow_succ] at h
        omega
      rw [ih hdiv, UInt8.toNat_ofNat']
      omega

theorem ofBytes_lt (bs : Bytes) : ofBytes bs < 256 ^ bs.length := by
  induction bs with
  | nil => exact Nat.one_pos
  | cons b bs ih =>
      have hb := b.toNat_lt
      show b.toNat + 256 * ofBytes bs < 256 ^ (bs.length + 1)
      rw [pow_succ]
      omega

/-- Bytes are the bytes of their number. -/
theorem bytesOf_ofBytes (bs : Bytes) : bytesOf bs.length (ofBytes bs) = bs := by
  induction bs with
  | nil => rfl
  | cons b bs ih =>
      have hb := b.toNat_lt
      have hval : ofBytes (b :: bs) = b.toNat + 256 * ofBytes bs := rfl
      have hdiv : (b.toNat + 256 * ofBytes bs) / 256 = ofBytes bs := by omega
      have hmod : UInt8.ofNat (b.toNat + 256 * ofBytes bs) = b := by
        refine UInt8.toNat_inj.mp ?_
        rw [UInt8.toNat_ofNat']
        omega
      rw [List.length_cons, bytesOf_succ, hval, hdiv, hmod, ih]

/-- The number that is read in `w` bytes from an address. -/
def readNat (w : Nat) (p : Bytes) : Nat := ofBytes (p.take w)

theorem readNat_bytesOf {w n : Nat} (h : n < 256 ^ w) (p : Bytes) :
    readNat w (bytesOf w n ++ p) = n := by
  rw [readNat, List.take_left' (bytesOf_length w n), ofBytes_bytesOf h]

/-- A number at the end of a buffer. -/
theorem readNat_bytesOf_last {w n : Nat} (h : n < 256 ^ w) : readNat w (bytesOf w n) = n := by
  rw [← List.append_nil (bytesOf w n), readNat_bytesOf h]

theorem drop_bytesOf (w n : Nat) (p : Bytes) : (bytesOf w n ++ p).drop w = p :=
  List.drop_left' (bytesOf_length w n)

/-! ### Texts -/

/-- The bytes of a text. -/
def utf8 (s : String) : Bytes := s.toByteArray.data.toList

/-- The text with these bytes, if they are one. -/
def ofUtf8 (bs : Bytes) : String := (String.fromUTF8? ⟨bs.toArray⟩).getD ""

@[simp] theorem utf8_length (s : String) : (utf8 s).length = s.utf8ByteSize := by
  rw [utf8, Array.length_toList]
  rfl

@[simp] theorem ofUtf8_utf8 (s : String) : ofUtf8 (utf8 s) = s := by
  have hbytes : (⟨(utf8 s).toArray⟩ : ByteArray) = s.toByteArray := by
    rw [utf8, Array.toArray_toList]
  rw [ofUtf8, hbytes, String.fromUTF8?, dif_pos s.isValidUTF8]
  rfl

/-- A text of ASCII without control characters. -/
def Printable (s : String) : Prop := ∀ c ∈ s.toList, 32 ≤ c.toNat ∧ c.toNat < 128

theorem utf8_ofList {cs : List Char} (hcs : ∀ c ∈ cs, c.toNat < 128) :
    utf8 (String.ofList cs) = cs.map (fun c => UInt8.ofNat c.toNat) := by
  have hbytes : utf8 (String.ofList cs) = cs.flatMap String.utf8EncodeChar := by
    rw [utf8, String.toByteArray_ofList, List.utf8Encode, List.data_toByteArray]
  rw [hbytes, List.map_eq_flatMap]
  refine List.flatMap_congr ?_
  intro c hc
  have hascii : c.val ≤ 127 := UInt32.le_iff_toNat_le.mpr (Nat.le_of_lt_succ (hcs c hc))
  exact String.utf8EncodeChar_eq_singleton (Char.utf8Size_eq_one_iff.mpr hascii)

/-! ### Vectors -/

variable {α : Type*}

/-- Read `n` elements that take `size` bytes each. -/
def readVec (size : Nat) (get : Bytes → α) : Nat → Bytes → List α
  | 0, _ => []
  | n + 1, p => get p :: readVec size get n (p.drop size)

/-- A vector that is written element after element is read back. -/
theorem readVec_flatMap {size : Nat} (get : Bytes → α) (put : α → Bytes)
    (hsize : ∀ x, (put x).length = size) (hget : ∀ x p, get (put x ++ p) = x) (xs : List α)
    (p : Bytes) : readVec size get xs.length (xs.flatMap put ++ p) = xs := by
  induction xs with
  | nil => rfl
  | cons x xs ih =>
      rw [List.flatMap_cons, List.append_assoc, List.length_cons, readVec, hget,
        List.drop_left' (hsize x), ih]

theorem flatMap_length_of_size {size : Nat} {put : α → Bytes} (hsize : ∀ x, (put x).length = size)
    (xs : List α) : (xs.flatMap put).length = xs.length * size := by
  induction xs with
  | nil => simp
  | cons x xs ih =>
      rw [List.flatMap_cons, List.length_append, hsize, ih, List.length_cons]
      ring

end NativePreferences.Lib
