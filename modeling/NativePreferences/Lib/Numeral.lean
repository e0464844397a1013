import Mathlib.Algebra.Order.Ring.Int
import Mathlib.Data.List.TakeWhile
import NativePreferences.Lib.Bytes

/-!
# NativePreferences.Lib.Numeral

**Integers as decimal numerals**: `toString` writes them, and the functions below read them the
way `operator>>` of a C++ stream does (`std::num_get`, decimal, in the C locale).

A stream skips white space, takes a sign and as many digits as there are, and leaves the rest. What
it has taken is cut off at the bounds of the type. A numeral without digits is a zero. If there is
nothing but white space, the variable is not assigned, and `garbage` is what it holds.
-/

namespace NativePreferences.Lib

/-- `isspace`. -/
def isSpace (c : Char) : Bool := c = ' ' || (9 ≤ c.toNat && c.toNat ≤ 13)

/-- A sign and digits. -/
structure Numeral where
  negative : Bool
  digits : List Char

/-- What a stream takes for an integer. -/
def scan : List Char → Numeral
  | '-' :: cs => ⟨true, cs.takeWhile Char.isDigit⟩
  | '+' :: cs => ⟨false, cs.takeWhile Char.isDigit⟩
  | cs => ⟨false, cs.takeWhile Char.isDigit⟩

namespace Numeral

/-- The number without its sign. -/
def abs (n : Numeral) : Nat := Nat.ofDigitChars 10 n.digits 0

/-- The number. -/
def value (n : Numeral) : Int := if n.negative then -n.abs else n.abs

end Numeral

/-- The numeral at the beginning of a text. -/
def extract (text : String) : Option Numeral :=
  match text.toList.dropWhile isSpace with
  | [] => none
  | cs => some (scan cs)

/-- A signed integer between `lo` and `hi` is read. -/
def extractSigned (lo hi garbage : Int) (text : String) : Int :=
  match extract text with
  | none => garbage
  | some n => max lo (min hi n.value)

/-- An unsigned integer of `bits` bits is read. A minus sign is admitted and means the number modulo
`2 ^ bits`. -/
def extractUnsigned (bits garbage : Nat) (text : String) : Nat :=
  match extract text with
  | none => garbage
  | some n =>
      if 2 ^ bits ≤ n.abs then 2 ^ bits - 1
      else if n.negative then (2 ^ bits - n.abs) % 2 ^ bits
      else n.abs

/-! ### Reading what was written -/

/-- A digit is neither white space nor a sign. -/
theorem digit_spec {c : Char} (hc : c.isDigit = true) : isSpace c = false ∧ c ≠ '-' ∧ c ≠ '+' := by
  have hbounds : 48 ≤ c.toNat ∧ c.toNat ≤ 57 := Char.isDigit_iff_toNat.mp hc
  refine ⟨?_, ?_, ?_⟩
  · have hne : c ≠ ' ' := by
      rintro rfl
      exact absurd hbounds (by decide)
    simp [isSpace, hne]
    omega
  · rintro rfl
    exact absurd hbounds (by decide)
  · rintro rfl
    exact absurd hbounds (by decide)

theorem isDigit_toDigits {n : Nat} {c : Char} (hc : c ∈ Nat.toDigits 10 n) : c.isDigit = true :=
  Nat.isDigit_of_mem_toDigits (by decide) (by decide) hc

theorem takeWhile_toDigits (n : Nat) :
    (Nat.toDigits 10 n).takeWhile Char.isDigit = Nat.toDigits 10 n :=
  List.takeWhile_eq_self_iff.mpr (fun _ hc => isDigit_toDigits hc)

theorem extract_repr (n : Nat) : extract n.repr = some ⟨false, Nat.toDigits 10 n⟩ := by
  have htake := takeWhile_toDigits n
  rw [extract, Nat.toList_repr]
  cases hds : Nat.toDigits 10 n with
  | nil => exact absurd hds Nat.toDigits_ne_nil
  | cons c cs =>
      obtain ⟨hspace, hminus, hplus⟩ :=
        digit_spec (isDigit_toDigits (hds ▸ List.mem_cons_self : c ∈ Nat.toDigits 10 n))
      rw [hds] at htake
      rw [List.dropWhile_cons_of_neg (by simp [hspace])]
      show some (scan (c :: cs)) = _
      rw [scan, htake]
      · intro cs' heq
        exact hminus (List.cons.inj heq).1
      · intro cs' heq
        exact hplus (List.cons.inj heq).1

theorem extract_minus_repr (n : Nat) :
    extract ("-" ++ n.repr) = some ⟨true, Nat.toDigits 10 n⟩ := by
  have htext : ("-" ++ n.repr).toList = '-' :: Nat.toDigits 10 n := by
    rw [String.toList_append, Nat.toList_repr]
    rfl
  rw [extract, htext, List.dropWhile_cons_of_neg (by decide)]
  show some (Numeral.mk true ((Nat.toDigits 10 n).takeWhile Char.isDigit)) = _
  rw [takeWhile_toDigits]

theorem printable_digit {c : Char} (hc : c.isDigit = true) : 32 ≤ c.toNat ∧ c.toNat < 128 := by
  have hbounds : 48 ≤ c.toNat ∧ c.toNat ≤ 57 := Char.isDigit_iff_toNat.mp hc
  omega

theorem printable_repr (n : Nat) : Printable n.repr := by
  intro c hc
  rw [Nat.toList_repr] at hc
  exact printable_digit (isDigit_toDigits hc)

theorem printable_toString (i : Int) : Printable (toString i) := by
  rw [Int.toString_eq_repr, Int.repr_eq_if]
  split
  · exact printable_repr _
  · intro c hc
    rw [String.toList_append, List.mem_append] at hc
    rcases hc with hsign | hdigits
    · obtain rfl : c = '-' := by simpa using hsign
      decide
    · exact printable_repr _ c hdigits

theorem extractUnsigned_toString {bits n : Nat} (hn : n < 2 ^ bits) (garbage : Nat) :
    extractUnsigned bits garbage (toString n) = n := by
  have habs : (Numeral.mk false (Nat.toDigits 10 n)).abs = n := Nat.ofDigitChars_ten_toDigits
  rw [extractUnsigned, Nat.toString_eq_repr, extract_repr]
  dsimp only
  rw [habs, if_neg (by omega), if_neg (by decide)]

theorem extractSigned_toString {lo hi i : Int} (hlo : lo ≤ i) (hhi : i ≤ hi) (garbage : Int) :
    extractSigned lo hi garbage (toString i) = i := by
  rw [extractSigned, Int.toString_eq_repr, Int.repr_eq_if]
  by_cases hsign : 0 ≤ i
  · have hval : (Numeral.mk false (Nat.toDigits 10 i.toNat)).value = i := by
      show ((Nat.ofDigitChars 10 (Nat.toDigits 10 i.toNat) 0 : Nat) : Int) = i
      rw [Nat.ofDigitChars_ten_toDigits]
      omega
    rw [if_pos hsign, extract_repr]
    dsimp only
    rw [hval, min_eq_right hhi, max_eq_right hlo]
  · have hval : (Numeral.mk true (Nat.toDigits 10 (-i).toNat)).value = i := by
      show -((Nat.ofDigitChars 10 (Nat.toDigits 10 (-i).toNat) 0 : Nat) : Int) = i
      rw [Nat.ofDigitChars_ten_toDigits]
      omega
    rw [if_neg hsign, extract_minus_repr]
    dsimp only
    rw [hval, min_eq_right hhi, max_eq_right hlo]

/-! ### Whole texts -/

/-- The number of a text of digits. -/
def parseDigits (cs : List Char) : Option Nat :=
  if cs ≠ [] ∧ cs.all Char.isDigit then some (Nat.ofDigitChars 10 cs 0) else none

/-- The number that a whole text is a decimal numeral for: a sign, if there is one, and digits. -/
def parseInteger (text : String) : Option Int :=
  match text.toList with
  | '-' :: cs => (parseDigits cs).map (fun (n : Nat) => -(n : Int))
  | '+' :: cs => (parseDigits cs).map (fun (n : Nat) => (n : Int))
  | cs => (parseDigits cs).map (fun (n : Nat) => (n : Int))

theorem parseDigits_spec {cs : List Char} {n : Nat} (h : parseDigits cs = some n) :
    cs ≠ [] ∧ cs.takeWhile Char.isDigit = cs ∧ n = Nat.ofDigitChars 10 cs 0 := by
  unfold parseDigits at h
  split at h
  · next hcs =>
    exact ⟨hcs.1, List.takeWhile_eq_self_iff.mpr (List.all_eq_true.mp hcs.2),
      (Option.some.inj h).symm⟩
  · exact absurd h (by simp)

/-- A stream takes a decimal numeral as a whole. -/
theorem extract_of_parseInteger {text : String} {i : Int} (h : parseInteger text = some i) :
    ∃ n, extract text = some n ∧ n.value = i := by
  unfold parseInteger at h
  rw [extract]
  split at h
  · next cs htext =>
    obtain ⟨m, hm, rfl⟩ := Option.map_eq_some_iff.mp h
    obtain ⟨-, htake, rfl⟩ := parseDigits_spec hm
    rw [htext, List.dropWhile_cons_of_neg (by decide)]
    refine ⟨⟨true, cs⟩, ?_, rfl⟩
    show some (Numeral.mk true (cs.takeWhile Char.isDigit)) = _
    rw [htake]
  · next cs htext =>
    obtain ⟨m, hm, rfl⟩ := Option.map_eq_some_iff.mp h
    obtain ⟨-, htake, rfl⟩ := parseDigits_spec hm
    rw [htext, List.dropWhile_cons_of_neg (by decide)]
    refine ⟨⟨false, cs⟩, ?_, rfl⟩
    show some (Numeral.mk false (cs.takeWhile Char.isDigit)) = _
    rw [htake]
  · next hminus hplus =>
    obtain ⟨m, hm, rfl⟩ := Option.map_eq_some_iff.mp h
    obtain ⟨hne, htake, rfl⟩ := parseDigits_spec hm
    generalize text.toList = cs at *
    cases cs with
    | nil => exact absurd rfl hne
    | cons c cs =>
        have hdigit : c.isDigit = true :=
          List.takeWhile_eq_self_iff.mp htake c List.mem_cons_self
        rw [List.dropWhile_cons_of_neg (by simp [(digit_spec hdigit).1])]
        refine ⟨⟨false, c :: cs⟩, ?_, rfl⟩
        show some (scan (c :: cs)) = _
        rw [scan, htake]
        · intro cs' heq
          exact hminus cs' heq
        · intro cs' heq
          exact hplus cs' heq

theorem extractSigned_of_parseInteger {lo hi i : Int} {text : String}
    (h : parseInteger text = some i) (hlo : lo ≤ i) (hhi : i ≤ hi) (garbage : Int) :
    extractSigned lo hi garbage text = i := by
  obtain ⟨n, hn, rfl⟩ := extract_of_parseInteger h
  rw [extractSigned, hn]
  dsimp only
  rw [min_eq_right hhi, max_eq_right hlo]

theorem extractUnsigned_of_parseInteger {bits i : Nat} {text : String}
    (h : parseInteger text = some (i : Int)) (hi : i < 2 ^ bits) (garbage : Nat) :
    extractUnsigned bits garbage text = i := by
  obtain ⟨n, hn, hval⟩ := extract_of_parseInteger h
  rw [extractUnsigned, hn]
  dsimp only
  rw [Numeral.value] at hval
  cases hneg : n.negative with
  | false =>
      rw [hneg, if_neg (by decide)] at hval
      rw [if_neg (by omega), if_neg (by decide)]
      omega
  | true =>
      -- a minus sign with a number that is not negative: minus zero
      rw [hneg, if_pos rfl] at hval
      obtain rfl : i = 0 := by omega
      have habs : n.abs = 0 := by omega
      rw [habs, if_neg (by omega), if_pos rfl, Nat.sub_zero, Nat.mod_self]

end NativePreferences.Lib
