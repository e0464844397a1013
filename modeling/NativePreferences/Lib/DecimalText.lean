import NativePreferences.Lib.Binary
import NativePreferences.Lib.Numeral

/-!
# NativePreferences.Lib.DecimalText

**Decimal texts of floating-point numbers**: how a number is written with a fixed number of decimals
(`%f`), and how a stream reads one.

A text that was written is a plain decimal, and `extract_toText` says what is read from it: the
number nearest to it. Together with `nearest_fixed_iff` this tells which numbers survive.
-/

namespace NativePreferences.Lib.Format

variable (F : Format)

/-! ### Writing -/

/-- Digits after the point. -/
def fraction (decimals n : Nat) : List Char :=
  let digits := Nat.toDigits 10 n
  List.replicate (decimals - digits.length) '0' ++ digits

/-- `n` units of the last decimal. -/
def decimalText (decimals n : Nat) : List Char :=
  Nat.toDigits 10 (n / 10 ^ decimals) ++ '.' :: fraction decimals (n % 10 ^ decimals)

/-- The number with these bits is written with so many decimals. -/
def toText (decimals bits : Nat) : String :=
  let k := F.magnitude bits
  let text :=
    if k < F.inf then decimalText decimals (F.fixed k (10 ^ decimals))
    else if k = F.inf then ['i', 'n', 'f'] else ['n', 'a', 'n']
  String.ofList (if F.signBit ≤ bits then '-' :: text else text)

/-! ### Reading -/

/-- A decimal, as its digits and the number of those after the point. -/
def parseDecimal (cs : List Char) : Option (Nat × Nat) :=
  let whole := cs.takeWhile Char.isDigit
  match cs.dropWhile Char.isDigit with
  | [] => if whole = [] then none else some (Nat.ofDigitChars 10 whole 0, 0)
  | '.' :: frac =>
      if frac.all Char.isDigit ∧ whole ++ frac ≠ [] then
        some (Nat.ofDigitChars 10 (whole ++ frac) 0, frac.length)
      else none
  | _ => none

/-- A stream reads a number. What it makes of a text that is not a plain decimal (an exponent, a
name, other characters) is `other`. -/
def extract (other : String → Nat) (garbage : Nat) (text : String) : Nat :=
  let signed (sign : Nat) (cs : List Char) : Nat :=
    match parseDecimal cs with
    | some (n, decimals) => sign + F.nearest n (10 ^ decimals)
    | none => other text
  match text.toList.dropWhile isSpace with
  | [] => garbage
  | '-' :: cs => signed F.signBit cs
  | '+' :: cs => signed 0 cs
  | cs => signed 0 cs

variable {F}

/-! ### The characters of a text -/

theorem isDigit_fraction {decimals n : Nat} {c : Char} (hc : c ∈ fraction decimals n) :
    c.isDigit = true := by
  rcases List.mem_append.mp hc with hzero | hdigit
  · rw [(List.mem_replicate.mp hzero).2]
    decide
  · exact isDigit_toDigits hdigit

theorem printable_decimalText (decimals n : Nat) :
    ∀ c ∈ decimalText decimals n, 32 ≤ c.toNat ∧ c.toNat < 128 := by
  intro c hc
  rcases List.mem_append.mp hc with hwhole | hrest
  · exact printable_digit (isDigit_toDigits hwhole)
  · rcases List.mem_cons.mp hrest with rfl | hfrac
    · decide
    · exact printable_digit (isDigit_fraction hfrac)

theorem printable_toText (F : Format) (decimals bits : Nat) :
    Printable (F.toText decimals bits) := by
  have htext : ∀ c ∈ (if F.magnitude bits < F.inf then
      decimalText decimals (F.fixed (F.magnitude bits) (10 ^ decimals))
      else if F.magnitude bits = F.inf then ['i', 'n', 'f'] else ['n', 'a', 'n']),
      32 ≤ c.toNat ∧ c.toNat < 128 := by
    split
    · exact printable_decimalText _ _
    · split
      · simp
      · simp
  intro c hc
  rw [toText, String.toList_ofList] at hc
  split at hc
  · rcases List.mem_cons.mp hc with rfl | hmem
    · decide
    · exact htext c hmem
  · exact htext c hc

/-! ### Reading what was written -/

theorem fraction_length {decimals n : Nat} (hdecimals : 0 < decimals) (hn : n < 10 ^ decimals) :
    (fraction decimals n).length = decimals := by
  have hlen := (Nat.length_toDigits_le_iff (by decide) hdecimals).mpr hn
  rw [fraction, List.length_append, List.length_replicate]
  omega

theorem ofDigitChars_fraction (decimals n init : Nat) (hdecimals : 0 < decimals)
    (hn : n < 10 ^ decimals) :
    Nat.ofDigitChars 10 (fraction decimals n) init = 10 ^ decimals * init + n := by
  have hzero : Nat.ofDigitChars 10 (fraction decimals n) 0 = n := by
    rw [fraction, Nat.ofDigitChars_append, Nat.ofDigitChars_replicate_zero, Nat.mul_zero,
      Nat.ofDigitChars_ten_toDigits]
  rw [Nat.ofDigitChars_eq_ofDigitChars_zero, hzero, fraction_length hdecimals hn]

/-- The digits before the point are as many as there are. -/
theorem span_decimalText (decimals n : Nat) :
    (decimalText decimals n).takeWhile Char.isDigit = Nat.toDigits 10 (n / 10 ^ decimals) ∧
      (decimalText decimals n).dropWhile Char.isDigit =
        '.' :: fraction decimals (n % 10 ^ decimals) := by
  have hall : ∀ c ∈ Nat.toDigits 10 (n / 10 ^ decimals), c.isDigit = true :=
    fun c hc => isDigit_toDigits hc
  have hpoint : ¬ '.'.isDigit = true := by decide
  rw [decimalText, List.takeWhile_append_of_pos hall, List.dropWhile_append_of_pos hall,
    List.takeWhile_cons_of_neg hpoint, List.dropWhile_cons_of_neg hpoint, List.append_nil]
  exact ⟨rfl, rfl⟩

theorem parseDecimal_decimalText {decimals : Nat} (hdecimals : 0 < decimals) (n : Nat) :
    parseDecimal (decimalText decimals n) = some (n, decimals) := by
  obtain ⟨htake, hdrop⟩ := span_decimalText decimals n
  have hmod : n % 10 ^ decimals < 10 ^ decimals := Nat.mod_lt n (Nat.pow_pos (by decide))
  have hdigits : (fraction decimals (n % 10 ^ decimals)).all Char.isDigit = true :=
    List.all_eq_true.mpr (fun c hc => isDigit_fraction hc)
  have hval : Nat.ofDigitChars 10
      (Nat.toDigits 10 (n / 10 ^ decimals) ++ fraction decimals (n % 10 ^ decimals)) 0 = n := by
    rw [Nat.ofDigitChars_append, Nat.ofDigitChars_ten_toDigits,
      ofDigitChars_fraction _ _ _ hdecimals hmod, Nat.div_add_mod]
  rw [parseDecimal, htake, hdrop]
  show (if _ then some _ else none) = _
  rw [if_pos ⟨hdigits, by simp⟩, hval, fraction_length hdecimals hmod]

/-- A text begins with a digit. -/
theorem decimalText_cons (decimals n : Nat) :
    ∃ c cs, decimalText decimals n = c :: cs ∧ c.isDigit = true := by
  rw [decimalText]
  cases hds : Nat.toDigits 10 (n / 10 ^ decimals) with
  | nil => exact absurd hds Nat.toDigits_ne_nil
  | cons c cs =>
      exact ⟨c, _, rfl, isDigit_toDigits (hds ▸ List.mem_cons_self : c ∈ Nat.toDigits 10 _)⟩

/-- **What is read where a finite number was written** is the number nearest to its text, with the
same sign. -/
theorem extract_toText (other : String → Nat) (garbage : Nat) {decimals bits : Nat}
    (hdecimals : 0 < decimals) (hfinite : F.magnitude bits < F.inf) :
    F.extract other garbage (F.toText decimals bits) =
      (if F.signBit ≤ bits then F.signBit else 0) +
        F.nearest (F.fixed (F.magnitude bits) (10 ^ decimals)) (10 ^ decimals) := by
  have hparse := parseDecimal_decimalText hdecimals (F.fixed (F.magnitude bits) (10 ^ decimals))
  rw [extract]
  generalize htext : F.toText decimals bits = text
  rw [toText, if_pos hfinite] at htext
  rw [← htext, String.toList_ofList]
  by_cases hsign : F.signBit ≤ bits
  · rw [if_pos hsign, if_pos hsign, List.dropWhile_cons_of_neg (by decide)]
    show (match parseDecimal (decimalText decimals _) with
      | some (n, decimals) => F.signBit + F.nearest n (10 ^ decimals)
      | none => other _) = _
    rw [hparse]
  · rw [if_neg hsign, if_neg hsign]
    obtain ⟨c, cs, hcs, hc⟩ :=
      decimalText_cons decimals (F.fixed (F.magnitude bits) (10 ^ decimals))
    obtain ⟨hspace, hminus, hplus⟩ := digit_spec hc
    rw [hcs] at hparse ⊢
    rw [List.dropWhile_cons_of_neg (by simp [hspace])]
    split
    · next heq => exact absurd heq (by simp)
    · next heq => exact absurd (List.cons.inj heq).1 hminus
    · next heq => exact absurd (List.cons.inj heq).1 hplus
    · dsimp only
      rw [hparse]

/-! ### Whole texts -/

/-- The bits of the number nearest to a whole text that is a plain decimal, with a sign if there is
one. -/
def parseNearest (F : Format) (text : String) : Option Nat :=
  match text.toList with
  | '-' :: cs => (parseDecimal cs).map (fun d => F.signBit + F.nearest d.1 (10 ^ d.2))
  | '+' :: cs => (parseDecimal cs).map (fun d => F.nearest d.1 (10 ^ d.2))
  | cs => (parseDecimal cs).map (fun d => F.nearest d.1 (10 ^ d.2))

/-- A decimal begins with a digit or with its point. -/
theorem parseDecimal_cons {cs : List Char} {d : Nat × Nat} (h : parseDecimal cs = some d) :
    ∃ c cs', cs = c :: cs' ∧ isSpace c = false := by
  cases cs with
  | nil => exact absurd h (by simp [parseDecimal])
  | cons c cs =>
      refine ⟨c, cs, rfl, ?_⟩
      cases hc : c.isDigit with
      | true => exact (digit_spec hc).1
      | false =>
          have hdrop : (c :: cs).dropWhile Char.isDigit = c :: cs :=
            List.dropWhile_cons_of_neg (by simp [hc])
          rw [parseDecimal, hdrop] at h
          split at h
          · next heq => exact absurd heq (by simp)
          · next heq =>
            rw [(List.cons.inj heq).1]
            decide
          · exact absurd h (by simp)

/-- A stream reads a plain decimal as the number nearest to it. -/
theorem extract_of_parseNearest {text : String} {bits : Nat} (h : F.parseNearest text = some bits)
    (other : String → Nat) (garbage : Nat) : F.extract other garbage text = bits := by
  unfold parseNearest at h
  rw [extract]
  split at h
  · next cs htext =>
    obtain ⟨⟨n, decimals⟩, hd, rfl⟩ := Option.map_eq_some_iff.mp h
    rw [htext, List.dropWhile_cons_of_neg (by decide)]
    show (match parseDecimal cs with
      | some (n, decimals) => F.signBit + F.nearest n (10 ^ decimals)
      | none => other _) = _
    rw [hd]
  · next cs htext =>
    obtain ⟨⟨n, decimals⟩, hd, rfl⟩ := Option.map_eq_some_iff.mp h
    rw [htext, List.dropWhile_cons_of_neg (by decide)]
    show (match parseDecimal cs with
      | some (n, decimals) => 0 + F.nearest n (10 ^ decimals)
      | none => other _) = _
    rw [hd]
    exact Nat.zero_add _
  · next hminus hplus =>
    obtain ⟨⟨n, decimals⟩, hd, rfl⟩ := Option.map_eq_some_iff.mp h
    obtain ⟨c, cs, hcs, hspace⟩ := parseDecimal_cons hd
    rw [hcs] at hd hminus hplus ⊢
    rw [List.dropWhile_cons_of_neg (by simp [hspace])]
    split
    · next heq => exact absurd heq (by simp)
    · next cs' heq => exact absurd heq (hminus cs')
    · next cs' heq => exact absurd heq (hplus cs')
    · dsimp only
      rw [hd]
      exact Nat.zero_add _

end NativePreferences.Lib.Format
