import Mathlib.Tactic.IntervalCases
import NativePreferences.Lib.Bytes

/-!
# NativePreferences.Xml.Base64

**`Base64Helper`** (`base64_helper.cpp`), which turns byte arrays into text and back.

Both functions count with a `uint32_t`. `Encode` takes the length of its input modulo `2 ^ 32`, and
the index of `Decode` starts from zero again when it has passed `2 ^ 32` characters. So the two are
inverse to each other exactly for arrays of less than `3 * 2 ^ 30` bytes: above that the text is too
long to be decoded, and above `2 ^ 32` bytes it is not even written.
-/

namespace NativePreferences.Base64Helper

open Lib

/-- `base64Encoder`. -/
def base64Encoder : List Char :=
  [ 'A', 'B', 'C', 'D', 'E', 'F', 'G', 'H', 'I', 'J', 'K', 'L', 'M', 'N', 'O', 'P',
    'Q', 'R', 'S', 'T', 'U', 'V', 'W', 'X', 'Y', 'Z', 'a', 'b', 'c', 'd', 'e', 'f',
    'g', 'h', 'i', 'j', 'k', 'l', 'm', 'n', 'o', 'p', 'q', 'r', 's', 't', 'u', 'v',
    'w', 'x', 'y', 'z', '0', '1', '2', '3', '4', '5', '6', '7', '8', '9', '+', '/']

/-- `base64Decoder`, which has no entry for the last byte. -/
def base64Decoder : List UInt8 :=
  [ 255, 255, 255, 255, 255, 255, 255, 255, 255, 255, 255, 255, 255, 255, 255, 255,
    255, 255, 255, 255, 255, 255, 255, 255, 255, 255, 255, 255, 255, 255, 255, 255,
    255, 255, 255, 255, 255, 255, 255, 255, 255, 255, 255, 62, 255, 255, 255, 63,
    52, 53, 54, 55, 56, 57, 58, 59, 60, 61, 255, 255, 255, 255, 255, 255,
    255, 0, 1, 2, 3, 4, 5, 6, 7, 8, 9, 10, 11, 12, 13, 14,
    15, 16, 17, 18, 19, 20, 21, 22, 23, 24, 25, 255, 255, 255, 255, 255,
    255, 26, 27, 28, 29, 30, 31, 32, 33, 34, 35, 36, 37, 38, 39, 40,
    41, 42, 43, 44, 45, 46, 47, 48, 49, 50, 51, 255, 255, 255, 255, 255,
    255, 255, 255, 255, 255, 255, 255, 255, 255, 255, 255, 255, 255, 255, 255, 255,
    255, 255, 255, 255, 255, 255, 255, 255, 255, 255, 255, 255, 255, 255, 255, 255,
    255, 255, 255, 255, 255, 255, 255, 255, 255, 255, 255, 255, 255, 255, 255, 255,
    255, 255, 255, 255, 255, 255, 255, 255, 255, 255, 255, 255, 255, 255, 255, 255,
    255, 255, 255, 255, 255, 255, 255, 255, 255, 255, 255, 255, 255, 255, 255, 255,
    255, 255, 255, 255, 255, 255, 255, 255, 255, 255, 255, 255, 255, 255, 255, 255,
    255, 255, 255, 255, 255, 255, 255, 255, 255, 255, 255, 255, 255, 255, 255, 255,
    255, 255, 255, 255, 255, 255, 255, 255, 255, 255, 255, 255, 255, 255, 255]

/-- `BASE64_INVALID`. -/
def base64Invalid : UInt8 := 255

/-! ### `Encode` -/

/-- An entry of `base64Encoder`. -/
def letter (code : UInt8) : Char := base64Encoder.getD code.toNat 'A'

/-- The loop of `Encode`, with `len` bytes to go; `p` is the input from the index on. The last
case would be one where `at` throws. -/
def encodeLoop : (len : Nat) → (p : Bytes) → List Char
  | 0, _ => []
  | 1, b :: _ => [letter (b >>> 2), letter ((b &&& 3) <<< 4), '=', '=']
  | 2, b :: c :: _ =>
      [letter (b >>> 2), letter ((b &&& 3) <<< 4 ||| c >>> 4), letter ((c &&& 15) <<< 2), '=']
  | len + 3, b :: c :: d :: p =>
      letter (b >>> 2) :: letter ((b &&& 3) <<< 4 ||| c >>> 4) ::
        letter ((c &&& 15) <<< 2 ||| d >>> 6) :: letter (d &&& 63) :: encodeLoop len p
  | _, _ => []

/-- `Encode`. -/
def encode (input : Bytes) : String :=
  String.ofList (encodeLoop (input.length % 2 ^ 32) input)

/-! ### `Decode` -/

/-- How a round of the loop of `Decode` goes on. -/
inductive Round
  | invalid
  /-- The loop is left, with these bytes. -/
  | last (bytes : Bytes)
  | next (bytes : Bytes)
  deriving DecidableEq

/-- One round, on the input from the index on. `none` is a round that reads behind the table. -/
def decodeRound : Bytes → Option Round
  | c₁ :: c₂ :: c₃ :: c₄ :: _ => do
      let ch₁ ← base64Decoder[c₁.toNat]?
      let ch₂ ← base64Decoder[c₂.toNat]?
      if ch₁ = base64Invalid ∨ ch₂ = base64Invalid then return .invalid
      let first := ch₁ <<< 2 ||| ch₂ >>> 4
      if c₃ = 61 then return .last [first]
      let ch₃ ← base64Decoder[c₃.toNat]?
      if ch₃ = base64Invalid then return .invalid
      let second := ch₂ <<< 4 ||| ch₃ >>> 2
      if c₄ = 61 then return .last [first, second]
      let ch₄ ← base64Decoder[c₄.toNat]?
      if ch₄ = base64Invalid then return .invalid
      return .next [first, second, ch₃ <<< 6 ||| ch₄]
  | _ => none

/-- The loop of `Decode`, for some number of rounds. It returns the bytes, or nothing. -/
def decodeLoop (input : Bytes) : (rounds : Nat) → (index : Nat) → (result : Bytes) →
    Option (Option Bytes)
  | 0, _, _ => none
  | rounds + 1, index, result =>
      if index < input.length then
        match decodeRound (input.drop index) with
        | none => none
        | some .invalid => some none
        | some (.last bytes) => some (some (result ++ bytes))
        | some (.next bytes) =>
            decodeLoop input rounds ((index + 4) % 2 ^ 32) (result ++ bytes)
      else some (some result)

/-- `Decode`. There is no result at all if it does not return, or reads behind the table. If it has
not returned after one round more than there are groups of characters, it never will. -/
def decode (input : Bytes) : Option (Option Bytes) :=
  if input.length % 4 ≠ 0 then some none
  else decodeLoop input (input.length / 4 + 1) 0 []

/-! ### Four characters -/

/-- A character as a byte. -/
def byte (c : Char) : UInt8 := UInt8.ofNat c.toNat

theorem letters : ∀ n < 64, (32 ≤ (letter (UInt8.ofNat n)).toNat ∧
      (letter (UInt8.ofNat n)).toNat < 128) ∧
    byte (letter (UInt8.ofNat n)) ≠ 61 ∧
    base64Decoder[(byte (letter (UInt8.ofNat n))).toNat]? = some (UInt8.ofNat n) := by
  decide

/-- What `Encode` writes for six bits, `Decode` reads. -/
theorem letter_spec {code : UInt8} (hcode : code.toNat < 64) :
    (32 ≤ (letter code).toNat ∧ (letter code).toNat < 128) ∧ byte (letter code) ≠ 61 ∧
      base64Decoder[(byte (letter code)).toNat]? = some code ∧ code ≠ base64Invalid := by
  obtain ⟨hascii, hpad, hread⟩ := letters code.toNat hcode
  rw [UInt8.ofNat_toNat] at hascii hpad hread
  refine ⟨hascii, hpad, hread, ?_⟩
  rintro rfl
  exact absurd hcode (by decide)

theorem lt_of_high_bits {x : UInt8} (h6 : x.toBitVec.getLsbD 6 = false)
    (h7 : x.toBitVec.getLsbD 7 = false) : x.toNat < 64 := by
  refine Nat.lt_pow_two_of_testBit (n := 6) x.toNat ?_
  intro i hi
  show x.toBitVec.getLsbD i = false
  by_cases hlt : i < 8
  · interval_cases i
    · exact h6
    · exact h7
  · exact BitVec.getLsbD_of_ge _ _ (by omega)

theorem eq_of_bits {x y : UInt8} (h : ∀ i < 8, x.toBitVec.getLsbD i = y.toBitVec.getLsbD i) :
    x = y := by
  apply UInt8.eq_of_toBitVec_eq
  exact BitVec.eq_of_getLsbD_eq h

section Sextets

variable (b c d : UInt8)

theorem sextet₁ : (b >>> 2).toNat < 64 := lt_of_high_bits (by simp) (by simp)

theorem sextet₂ : ((b &&& 3) <<< 4 ||| c >>> 4).toNat < 64 := lt_of_high_bits (by simp) (by simp)

theorem sextet₃ : ((c &&& 15) <<< 2 ||| d >>> 6).toNat < 64 := lt_of_high_bits (by simp) (by simp)

theorem sextet₄ : (d &&& 63).toNat < 64 := lt_of_high_bits (by simp) (by simp)

theorem first_byte : (b >>> 2) <<< 2 ||| ((b &&& 3) <<< 4 ||| c >>> 4) >>> 4 = b := by
  apply eq_of_bits
  intro i hi
  interval_cases i <;> simp

theorem second_byte :
    ((b &&& 3) <<< 4 ||| c >>> 4) <<< 4 ||| ((c &&& 15) <<< 2 ||| d >>> 6) >>> 2 = c := by
  apply eq_of_bits
  intro i hi
  interval_cases i <;> simp

theorem third_byte : ((c &&& 15) <<< 2 ||| d >>> 6) <<< 6 ||| (d &&& 63) = d := by
  apply eq_of_bits
  intro i hi
  interval_cases i <;> simp

end Sextets

section Rounds

variable {ch₁ ch₂ ch₃ ch₄ : UInt8} {p : Bytes}

/-- Two characters and padding. -/
theorem decodeRound_one (h₁ : ch₁.toNat < 64) (h₂ : ch₂.toNat < 64) :
    decodeRound (byte (letter ch₁) :: byte (letter ch₂) :: 61 :: 61 :: p) =
      some (.last [ch₁ <<< 2 ||| ch₂ >>> 4]) := by
  obtain ⟨-, -, hread₁, hval₁⟩ := letter_spec h₁
  obtain ⟨-, -, hread₂, hval₂⟩ := letter_spec h₂
  simp [decodeRound, hread₁, hread₂, hval₁, hval₂]

/-- Three characters and padding. -/
theorem decodeRound_two (h₁ : ch₁.toNat < 64) (h₂ : ch₂.toNat < 64) (h₃ : ch₃.toNat < 64) :
    decodeRound (byte (letter ch₁) :: byte (letter ch₂) :: byte (letter ch₃) :: 61 :: p) =
      some (.last [ch₁ <<< 2 ||| ch₂ >>> 4, ch₂ <<< 4 ||| ch₃ >>> 2]) := by
  obtain ⟨-, -, hread₁, hval₁⟩ := letter_spec h₁
  obtain ⟨-, -, hread₂, hval₂⟩ := letter_spec h₂
  obtain ⟨-, hpad₃, hread₃, hval₃⟩ := letter_spec h₃
  simp [decodeRound, hread₁, hread₂, hread₃, hval₁, hval₂, hval₃, hpad₃]

theorem decodeRound_three (h₁ : ch₁.toNat < 64) (h₂ : ch₂.toNat < 64) (h₃ : ch₃.toNat < 64)
    (h₄ : ch₄.toNat < 64) :
    decodeRound (byte (letter ch₁) :: byte (letter ch₂) :: byte (letter ch₃) ::
        byte (letter ch₄) :: p) =
      some (.next [ch₁ <<< 2 ||| ch₂ >>> 4, ch₂ <<< 4 ||| ch₃ >>> 2, ch₃ <<< 6 ||| ch₄]) := by
  obtain ⟨-, -, hread₁, hval₁⟩ := letter_spec h₁
  obtain ⟨-, -, hread₂, hval₂⟩ := letter_spec h₂
  obtain ⟨-, hpad₃, hread₃, hval₃⟩ := letter_spec h₃
  obtain ⟨-, hpad₄, hread₄, hval₄⟩ := letter_spec h₄
  simp [decodeRound, hread₁, hread₂, hread₃, hread₄, hval₁, hval₂, hval₃, hval₄, hpad₃, hpad₄]

end Rounds

/-! ### The text of an array -/

/-- The bytes of what the loop of `Encode` writes. -/
def encoded (len : Nat) (p : Bytes) : Bytes := (encodeLoop len p).map byte

variable {len : Nat} {p : Bytes}

theorem encodeLoop_ascii (len : Nat) (p : Bytes) :
    ∀ c ∈ encodeLoop len p, 32 ≤ c.toNat ∧ c.toNat < 128 := by
  induction len, p using encodeLoop.induct with
  | case1 => simp [encodeLoop]
  | case2 b p =>
      have h₂ := (letter_spec (sextet₂ b 0)).1
      rw [UInt8.zero_shiftRight, UInt8.or_zero] at h₂
      simp [encodeLoop, (letter_spec (sextet₁ b)).1, h₂]
  | case3 b c p =>
      have h₃ := (letter_spec (sextet₃ c 0)).1
      rw [UInt8.zero_shiftRight, UInt8.or_zero] at h₃
      simp [encodeLoop, (letter_spec (sextet₁ b)).1, (letter_spec (sextet₂ b c)).1, h₃]
  | case4 len b c d p ih =>
      simp only [encodeLoop, List.forall_mem_cons]
      exact ⟨(letter_spec (sextet₁ b)).1, (letter_spec (sextet₂ b c)).1,
        (letter_spec (sextet₃ c d)).1, (letter_spec (sextet₄ d)).1, ih⟩
  | case5 => simp [encodeLoop]

theorem utf8_encode (input : Bytes) :
    utf8 (encode input) = encoded (input.length % 2 ^ 32) input :=
  utf8_ofList (fun c hc => (encodeLoop_ascii _ _ c hc).2)

theorem printable_encode (input : Bytes) : Printable (encode input) := by
  intro c hc
  rw [encode, String.toList_ofList] at hc
  exact encodeLoop_ascii _ _ c hc

theorem encoded_length (hlen : len ≤ p.length) : (encoded len p).length = 4 * ((len + 2) / 3) := by
  rw [encoded, List.length_map]
  induction len, p using encodeLoop.induct with
  | case1 => rfl
  | case2 => rfl
  | case3 => rfl
  | case4 len b c d p ih =>
      have hrest : len ≤ p.length := by simpa using hlen
      simp only [encodeLoop, List.length_cons, ih hrest]
      omega
  | case5 len p h₀ h₁ h₂ h₃ =>
      exfalso
      match len, p with
      | 0, p => exact h₀ rfl
      | 1, b :: p => exact h₁ b p rfl rfl
      | 2, b :: c :: p => exact h₂ b c p rfl rfl
      | len + 3, b :: c :: d :: p => exact h₃ len b c d p rfl rfl
      | n + 1, [] => simp at hlen
      | n + 2, [b] => simp at hlen
      | n + 3, [b, c] => simp at hlen

/-- Three bytes, four characters. -/
theorem encoded_three (len : Nat) (b c d : UInt8) (p : Bytes) :
    encoded (len + 3) (b :: c :: d :: p) =
      [byte (letter (b >>> 2)), byte (letter ((b &&& 3) <<< 4 ||| c >>> 4)),
        byte (letter ((c &&& 15) <<< 2 ||| d >>> 6)), byte (letter (d &&& 63))] ++
          encoded len p := rfl

/-- They are read in one round. -/
theorem decodeRound_encoded (len : Nat) (b c d : UInt8) (p : Bytes) :
    decodeRound (encoded (len + 3) (b :: c :: d :: p)) = some (.next [b, c, d]) := by
  rw [encoded_three]
  refine (decodeRound_three (sextet₁ b) (sextet₂ b c) (sextet₃ c d) (sextet₄ d)).trans ?_
  rw [first_byte, second_byte, third_byte]

theorem decodeRound_encoded_one (b : UInt8) (p : Bytes) :
    decodeRound (encoded 1 (b :: p)) = some (.last [b]) := by
  have h₂ := sextet₂ b 0
  have hb := first_byte b 0
  rw [UInt8.zero_shiftRight, UInt8.or_zero] at h₂ hb
  refine (decodeRound_one (sextet₁ b) h₂).trans ?_
  rw [hb]

theorem decodeRound_encoded_two (b c : UInt8) (p : Bytes) :
    decodeRound (encoded 2 (b :: c :: p)) = some (.last [b, c]) := by
  have h₃ := sextet₃ c 0
  have hc := second_byte b c 0
  rw [UInt8.zero_shiftRight, UInt8.or_zero] at h₃ hc
  refine (decodeRound_two (sextet₁ b) (sextet₂ b c) h₃).trans ?_
  rw [first_byte, hc]

/-! ### Both ways -/

/-- The loop of `Decode` on the rest of a text, after `k` rounds. As long as less than `3 * 2 ^ 30`
bytes are written, the index does not wrap. -/
theorem decodeLoop_encoded {pre : Bytes} {k rounds : Nat} (hlen : len ≤ p.length)
    (hpre : pre.length = 4 * k) (hsmall : 3 * k + len < 3 * 2 ^ 30) (hrounds : len < 3 * rounds)
    (result : Bytes) :
    decodeLoop (pre ++ encoded len p) rounds (4 * k) result =
      some (some (result ++ p.take len)) := by
  induction rounds generalizing len p pre k result with
  | zero => exact absurd hrounds (by omega)
  | succ rounds ih =>
      have hdrop : (pre ++ encoded len p).drop (4 * k) = encoded len p := List.drop_left' hpre
      have htotal : (pre ++ encoded len p).length = 4 * k + 4 * ((len + 2) / 3) := by
        rw [List.length_append, hpre, encoded_length hlen]
      rw [decodeLoop, hdrop, htotal]
      match len, p with
      | 0, p => simp
      | 1, b :: p => simp [decodeRound_encoded_one]
      | 2, b :: c :: p => simp [decodeRound_encoded_two]
      | len + 3, b :: c :: d :: p =>
          have hrest : len ≤ p.length := by simpa using hlen
          have hindex : (4 * k + 4) % 2 ^ 32 = 4 * (k + 1) := by omega
          rw [if_pos (by omega), decodeRound_encoded, encoded_three, ← List.append_assoc]
          dsimp only
          rw [hindex, ih hrest (by simp [hpre]; omega) (by omega) (by omega)]
          simp
      | n + 1, [] | n + 2, [_] | n + 3, [_, _] => simp at hlen

/-- The loop on a text whose first `2 ^ 32` characters are in groups without padding. -/
theorem decodeLoop_wraps {input : Bytes} (hlong : 2 ^ 32 ≤ input.length)
    (hnext : ∀ k < 2 ^ 30, ∃ bytes, decodeRound (input.drop (4 * k)) = some (.next bytes))
    (rounds : Nat) {k : Nat} (hk : k < 2 ^ 30) (result : Bytes) :
    decodeLoop input rounds (4 * k) result = none := by
  induction rounds generalizing k result with
  | zero => rfl
  | succ rounds ih =>
      obtain ⟨bytes, hround⟩ := hnext k hk
      rw [decodeLoop, if_pos (by omega), hround]
      have hindex : (4 * k + 4) % 2 ^ 32 = 4 * ((k + 1) % 2 ^ 30) := by omega
      dsimp only
      rw [hindex]
      exact ih (Nat.mod_lt _ (by decide)) _

theorem encoded_drop {k : Nat} (hlen : len ≤ p.length) (hk : 3 * k ≤ len) :
    (encoded len p).drop (4 * k) = encoded (len - 3 * k) (p.drop (3 * k)) := by
  induction k generalizing len p with
  | zero => rfl
  | succ k ih =>
      obtain ⟨m, rfl⟩ : ∃ m, len = m + 3 := ⟨len - 3, by omega⟩
      match p with
      | [] | [_] | [_, _] => simp at hlen
      | b :: c :: d :: p =>
          have hm : m ≤ p.length := by simpa using hlen
          have hnext := ih hm (by omega : 3 * k ≤ m)
          have hfour : (encoded (m + 3) (b :: c :: d :: p)).drop 4 = encoded m p := rfl
          have hlast : m + 3 - 3 * (k + 1) = m - 3 * k := by omega
          rw [Nat.mul_succ, Nat.add_comm (4 * k) 4, ← List.drop_drop, hfour, hnext, hlast]
          rfl

/-- A text that is too long is read again and again from the beginning, and `Decode` does not
return. -/
theorem decodeLoop_encoded_wraps (hlen : len ≤ p.length) (hlong : 3 * 2 ^ 30 ≤ len) (rounds : Nat)
    (result : Bytes) : decodeLoop (encoded len p) rounds 0 result = none := by
  refine decodeLoop_wraps (k := 0) ?_ ?_ rounds (by decide) result
  · rw [encoded_length hlen]
    omega
  · intro k hk
    rw [encoded_drop hlen (by omega)]
    obtain ⟨m, hm⟩ : ∃ m, len - 3 * k = m + 3 := ⟨len - 3 * k - 3, by omega⟩
    have hrest : m + 3 ≤ (p.drop (3 * k)).length := by
      rw [List.length_drop]
      omega
    rw [hm]
    match hp : p.drop (3 * k) with
    | b :: c :: d :: p' => exact ⟨_, decodeRound_encoded m b c d p'⟩
    | [] | [_] | [_, _] =>
        rw [hp] at hrest
        simp at hrest

/-- **What `Decode` makes of the text of an array.** -/
theorem decode_encode (input : Bytes) :
    decode (utf8 (encode input)) = some (some input) ↔ input.length < 3 * 2 ^ 30 := by
  have hlen : input.length % 2 ^ 32 ≤ input.length := Nat.mod_le _ _
  have htext := encoded_length hlen
  rw [utf8_encode, decode, if_neg (by omega)]
  by_cases hsmall : input.length % 2 ^ 32 < 3 * 2 ^ 30
  · have hloop : decodeLoop ([] ++ encoded (input.length % 2 ^ 32) input)
        ((encoded (input.length % 2 ^ 32) input).length / 4 + 1) (4 * 0) [] = _ :=
      decodeLoop_encoded hlen rfl (by omega) (by omega) []
    rw [List.nil_append, List.nil_append, Nat.mul_zero] at hloop
    rw [hloop]
    constructor
    · intro heq
      have htake := congrArg List.length (Option.some.inj (Option.some.inj heq))
      rw [List.length_take] at htake
      omega
    · intro hlt
      rw [Nat.mod_eq_of_lt (by omega), List.take_length]
  · rw [decodeLoop_encoded_wraps hlen (by omega)]
    constructor
    · intro heq
      exact absurd heq (by simp)
    · intro hlt
      omega

/-! ### Valid texts

What a text stands for, whoever wrote it: groups of four letters for three bytes each, the last
group with padding if it is for fewer. -/

/-- The text is valid, and these are its bytes. A letter is given by its six bits. -/
inductive IsText : List Char → Bytes → Prop
  | nil : IsText [] []
  | one {c₁ c₂ : UInt8} (h₁ : c₁.toNat < 64) (h₂ : c₂.toNat < 64) :
      IsText [letter c₁, letter c₂, '=', '='] [c₁ <<< 2 ||| c₂ >>> 4]
  | two {c₁ c₂ c₃ : UInt8} (h₁ : c₁.toNat < 64) (h₂ : c₂.toNat < 64) (h₃ : c₃.toNat < 64) :
      IsText [letter c₁, letter c₂, letter c₃, '=']
        [c₁ <<< 2 ||| c₂ >>> 4, c₂ <<< 4 ||| c₃ >>> 2]
  | three {c₁ c₂ c₃ c₄ : UInt8} {cs : List Char} {p : Bytes} (h₁ : c₁.toNat < 64)
      (h₂ : c₂.toNat < 64) (h₃ : c₃.toNat < 64) (h₄ : c₄.toNat < 64) (h : IsText cs p) :
      IsText (letter c₁ :: letter c₂ :: letter c₃ :: letter c₄ :: cs)
        ([c₁ <<< 2 ||| c₂ >>> 4, c₂ <<< 4 ||| c₃ >>> 2, c₃ <<< 6 ||| c₄] ++ p)

variable {cs : List Char}

theorem IsText.ascii (h : IsText cs p) : ∀ c ∈ cs, c.toNat < 128 := by
  induction h with
  | nil => simp
  | one h₁ h₂ =>
      simp [(letter_spec h₁).1, (letter_spec h₂).1]
  | two h₁ h₂ h₃ =>
      simp [(letter_spec h₁).1, (letter_spec h₂).1, (letter_spec h₃).1]
  | three h₁ h₂ h₃ h₄ _ ih =>
      simp only [List.forall_mem_cons]
      exact ⟨(letter_spec h₁).1.2, (letter_spec h₂).1.2, (letter_spec h₃).1.2,
        (letter_spec h₄).1.2, ih⟩

theorem IsText.length_mod (h : IsText cs p) : cs.length % 4 = 0 := by
  induction h with
  | nil => rfl
  | one | two => simp
  | three _ _ _ _ _ ih =>
      simp only [List.length_cons]
      omega

/-- The loop of `Decode` on the rest of a valid text, after `k` rounds: it returns the bytes, or it
has come to a text that is too long. -/
theorem decodeLoop_of_isText (h : IsText cs p) {pre : Bytes} {k : Nat} (hk : k < 2 ^ 30)
    (hpre : pre.length = 4 * k) (rounds : Nat) (result : Bytes)
    (hnext : ∀ j < k, ∃ bytes,
      decodeRound ((pre ++ cs.map byte).drop (4 * j)) = some (.next bytes)) :
    decodeLoop (pre ++ cs.map byte) rounds (4 * k) result = none ∨
      decodeLoop (pre ++ cs.map byte) rounds (4 * k) result = some (some (result ++ p)) := by
  induction h generalizing pre k rounds result with
  | nil =>
      cases rounds with
      | zero => exact .inl rfl
      | succ rounds =>
          rw [decodeLoop, List.map_nil, List.append_nil, List.append_nil, if_neg (by omega)]
          exact .inr rfl
  | @one c₁ c₂ h₁ h₂ =>
      cases rounds with
      | zero => exact .inl rfl
      | succ rounds =>
          have hround : decodeRound ([letter c₁, letter c₂, '=', '='].map byte) = _ :=
            decodeRound_one h₁ h₂
          rw [decodeLoop, List.drop_left' hpre, if_pos (by simp [hpre]), hround]
          exact .inr rfl
  | @two c₁ c₂ c₃ h₁ h₂ h₃ =>
      cases rounds with
      | zero => exact .inl rfl
      | succ rounds =>
          have hround : decodeRound ([letter c₁, letter c₂, letter c₃, '='].map byte) = _ :=
            decodeRound_two h₁ h₂ h₃
          rw [decodeLoop, List.drop_left' hpre, if_pos (by simp [hpre]), hround]
          exact .inr rfl
  | @three c₁ c₂ c₃ c₄ cs p h₁ h₂ h₃ h₄ _ ih =>
      cases rounds with
      | zero => exact .inl rfl
      | succ rounds =>
          have hround : decodeRound
              ((letter c₁ :: letter c₂ :: letter c₃ :: letter c₄ :: cs).map byte) = _ :=
            decodeRound_three h₁ h₂ h₃ h₄
          have hhere : decodeRound ((pre ++ List.map byte
              (letter c₁ :: letter c₂ :: letter c₃ :: letter c₄ :: cs)).drop (4 * k)) = _ :=
            (congrArg decodeRound (List.drop_left' hpre)).trans hround
          have hnext' : ∀ j < k + 1, ∃ bytes, decodeRound ((pre ++ List.map byte
              (letter c₁ :: letter c₂ :: letter c₃ :: letter c₄ :: cs)).drop (4 * j)) =
                some (.next bytes) := by
            intro j hj
            rcases Nat.lt_succ_iff_lt_or_eq.mp hj with hlt | rfl
            · exact hnext j hlt
            · exact ⟨_, hhere⟩
          rw [decodeLoop, hhere, if_pos (by simp [hpre])]
          dsimp only
          by_cases hwrap : k + 1 < 2 ^ 30
          · have hindex : (4 * k + 4) % 2 ^ 32 = 4 * (k + 1) := by omega
            have hsplit : pre ++ List.map byte (letter c₁ :: letter c₂ :: letter c₃ :: letter c₄ ::
                cs) = (pre ++ [byte (letter c₁), byte (letter c₂), byte (letter c₃),
                  byte (letter c₄)]) ++ cs.map byte := by simp
            rw [hsplit] at hnext' ⊢
            rw [hindex, ← List.append_assoc]
            exact ih hwrap (by simp [hpre]; omega) rounds _ hnext'
          · -- the index is zero again, and there is no padding on the way
            have hindex : (4 * k + 4) % 2 ^ 32 = 4 * 0 := by omega
            rw [hindex]
            refine .inl (decodeLoop_wraps ?_ (fun j hj => hnext' j (by omega)) rounds (by decide) _)
            simp [hpre]
            omega

/-- **What `Decode` makes of a valid text**: its bytes, if it returns. -/
theorem decode_of_isText {text : String} (h : IsText text.toList p) :
    decode (utf8 text) = none ∨ decode (utf8 text) = some (some p) := by
  have hutf8 : utf8 text = text.toList.map byte := by
    conv_lhs => rw [← String.ofList_toList (s := text)]
    exact utf8_ofList h.ascii
  rw [hutf8, decode, if_neg (by simp [h.length_mod])]
  exact decodeLoop_of_isText h (k := 0) (by decide) (show ([] : Bytes).length = 0 from rfl) _ []
    (by simp)

end NativePreferences.Base64Helper
