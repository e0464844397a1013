import Mathlib.Algebra.Order.Ring.Nat
import Mathlib.Data.Nat.Log
import Mathlib.Order.Monotone.Basic
import Mathlib.Tactic.Ring

/-!
# NativePreferences.Lib.Binary

**Binary floating-point numbers**, rounded to nearest with ties to even.

A number of a format is given by its bits. Without the sign they are its *magnitude* `k`, and the
numbers of one sign are in the order of their magnitudes. All finite numbers of a format are
multiples of the smallest one, the *unit*, and `units k` counts them; so everything below is about
natural numbers.

`nearest` computes the number nearest to a fraction, and `nearest_eq_iff` says that it does. The
main result is about numbers that are rounded to a fixed denominator and back (`nearest_fixed_iff`):
those that come back are the ones that are nearest to some fraction with that denominator.
-/

namespace NativePreferences.Lib

/-- `a / b`, rounded to nearest, ties to even. -/
def roundHalfEven (a b : Nat) : Nat :=
  if 2 * (a % b) < b then a / b
  else if b < 2 * (a % b) then a / b + 1
  else if a / b % 2 = 0 then a / b else a / b + 1

/-- A format with `p` bits for the fraction and `w` for the exponent. -/
structure Format where
  p : Nat
  w : Nat

namespace Format

/-- `float`. -/
def binary32 : Format := ⟨23, 8⟩

/-- `double`. -/
def binary64 : Format := ⟨52, 11⟩

variable (F : Format)

/-- The sign bit, which is above all magnitudes. -/
def signBit : Nat := 2 ^ (F.w + F.p)

/-- The bits without the sign. -/
def magnitude (bits : Nat) : Nat := bits % F.signBit

/-- The magnitude of infinity. Above are no numbers. -/
def inf : Nat := (2 ^ F.w - 1) * 2 ^ F.p

/-- The unit is `2 ^ (-places)`. -/
def places : Nat := 2 ^ (F.w - 1) + F.p - 2

/-- The number with magnitude `k`, in units. -/
def units (k : Nat) : Nat :=
  if k / 2 ^ F.p = 0 then k else (2 ^ F.p + k % 2 ^ F.p) * 2 ^ (k / 2 ^ F.p - 1)

/-- The number with magnitude `k`, rounded to a multiple of `1 / den`. -/
def fixed (k den : Nat) : Nat := roundHalfEven (F.units k * den) (2 ^ F.places)

/-- The magnitude of the number nearest to `num / den`. -/
def nearest (num den : Nat) : Nat :=
  let a := num * 2 ^ F.places
  let s := Nat.log 2 (a / den) - F.p
  min F.inf (s * 2 ^ F.p + roundHalfEven a (den * 2 ^ s))

end Format

/-! ### Rounding -/

/-- `roundHalfEven` is within a half, and even where it is not nearer than that. -/
theorem roundHalfEven_spec (a : Nat) {b : Nat} (hb : 0 < b) :
    2 * (roundHalfEven a b * b) ≤ 2 * a + b ∧ 2 * a ≤ 2 * (roundHalfEven a b * b) + b ∧
      (2 * (roundHalfEven a b * b) = 2 * a + b ∨ 2 * a = 2 * (roundHalfEven a b * b) + b →
        roundHalfEven a b % 2 = 0) := by
  have hdiv := Nat.div_add_mod a b
  have hmod := Nat.mod_lt a hb
  rw [roundHalfEven]
  generalize a / b = q at hdiv ⊢
  generalize a % b = r at hdiv hmod ⊢
  have hq : q * b = b * q := Nat.mul_comm q b
  have hq' : (q + 1) * b = b * q + b := by ring
  generalize b * q = t at hdiv hq hq'
  split
  · rw [hq]
    omega
  · split
    · rw [hq']
      omega
    · split
      · rw [hq]
        omega
      · rw [hq']
        omega

/-- A multiple is not rounded. -/
theorem roundHalfEven_mul (q : Nat) {b : Nat} (hb : 0 < b) : roundHalfEven (q * b) b = q := by
  rw [roundHalfEven, Nat.mul_mod_left, if_pos (by omega), Nat.mul_div_cancel q hb]

namespace Format

variable {F : Format} {k : Nat}

/-! ### The numbers of a format -/

/-- The distance from a number to the next one, in units. -/
def gap (F : Format) (k : Nat) : Nat := 2 ^ (k / 2 ^ F.p - 1)

/-- A number by its exponent and its significand, which may be one too large. -/
theorem units_eq {s m : Nat} (hs : s = 0 ∨ 2 ^ F.p ≤ m) (hm : m ≤ 2 ^ (F.p + 1)) :
    F.units (s * 2 ^ F.p + m) = m * 2 ^ s := by
  have hpos : 0 < 2 ^ F.p := Nat.two_pow_pos F.p
  rw [Nat.pow_succ] at hm
  rw [units]
  by_cases hsmall : m < 2 ^ F.p
  · obtain rfl : s = 0 := hs.resolve_right (by omega)
    rw [Nat.zero_mul, Nat.zero_add, if_pos (Nat.div_eq_of_lt hsmall), Nat.pow_zero, Nat.mul_one]
  · obtain ⟨f, rfl⟩ : ∃ f, m = 2 ^ F.p + f := ⟨m - 2 ^ F.p, by omega⟩
    have hk : s * 2 ^ F.p + (2 ^ F.p + f) = f + (s + 1) * 2 ^ F.p := by ring
    rw [hk, Nat.add_mul_div_right _ _ hpos, Nat.add_mul_mod_self_right]
    by_cases hlast : f < 2 ^ F.p
    · rw [Nat.div_eq_of_lt hlast, Nat.mod_eq_of_lt hlast, if_neg (by omega)]
      congr 2
      omega
    · obtain rfl : f = 2 ^ F.p := by omega
      rw [Nat.div_self hpos, Nat.mod_self, if_neg (by omega)]
      have hexp : 1 + (s + 1) - 1 = s + 1 := by omega
      rw [hexp]
      ring

/-- Every number has an exponent and a significand. -/
theorem exists_significand (F : Format) (k : Nat) :
    ∃ s m, k = s * 2 ^ F.p + m ∧ (s = 0 ∨ 2 ^ F.p ≤ m) ∧ m < 2 ^ (F.p + 1) ∧
      k / 2 ^ F.p - 1 = s := by
  have hpos : 0 < 2 ^ F.p := Nat.two_pow_pos F.p
  have hdiv := Nat.div_add_mod k (2 ^ F.p)
  have hmod := Nat.mod_lt k hpos
  by_cases hzero : k / 2 ^ F.p = 0
  · rw [hzero, Nat.mul_zero, Nat.zero_add] at hdiv
    refine ⟨0, k, by rw [Nat.zero_mul, Nat.zero_add], .inl rfl, ?_, by rw [hzero]⟩
    rw [Nat.pow_succ]
    omega
  · obtain ⟨e, he⟩ := Nat.exists_eq_add_one_of_ne_zero hzero
    rw [he, Nat.mul_succ, Nat.mul_comm] at hdiv
    refine ⟨e, 2 ^ F.p + k % 2 ^ F.p, by omega, .inr (by omega), ?_, by omega⟩
    rw [Nat.pow_succ]
    omega

theorem units_succ (F : Format) (k : Nat) : F.units (k + 1) = F.units k + F.gap k := by
  obtain ⟨s, m, hk, hs, hm, hgap⟩ := F.exists_significand k
  rw [gap, hgap, hk, Nat.add_assoc, units_eq (hs.imp_right (by omega)) (by omega),
    units_eq hs (le_of_lt hm)]
  ring

theorem gap_mono {j : Nat} (hjk : j ≤ k) : F.gap j ≤ F.gap k :=
  Nat.pow_le_pow_right (by decide) (Nat.sub_le_sub_right (Nat.div_le_div_right hjk) 1)

theorem gap_pos (F : Format) (k : Nat) : 0 < F.gap k := Nat.two_pow_pos _

theorem units_strictMono (F : Format) : StrictMono F.units := by
  refine strictMono_nat_of_lt_succ ?_
  intro k
  rw [units_succ]
  exact Nat.lt_add_of_pos_right (F.gap_pos k)

/-- The distance, by exponent and significand. -/
theorem gap_eq {s m : Nat} (hs : s = 0 ∨ 2 ^ F.p ≤ m) (hm : m < 2 ^ (F.p + 1)) :
    F.gap (s * 2 ^ F.p + m) = 2 ^ s := by
  have hnext := F.units_succ (s * 2 ^ F.p + m)
  rw [Nat.add_assoc, units_eq (hs.imp_right (by omega)) (by omega), units_eq hs (le_of_lt hm),
    Nat.succ_mul] at hnext
  omega

/-- Where the distances to both sides differ, the number is a power of two. -/
theorem units_of_gap_ne (hgap : F.gap (k - 1) ≠ F.gap k) : F.units k = 2 ^ F.p * F.gap k := by
  obtain ⟨s, m, rfl, hs, hm, -⟩ := F.exists_significand k
  rw [units_eq hs (le_of_lt hm), gap_eq hs hm] at *
  by_cases hfirst : m = 2 ^ F.p
  · rw [hfirst]
  · -- inside a binade the distances are the same
    exfalso
    by_cases hm0 : m = 0
    · obtain rfl : s = 0 := hs.resolve_right (by have := Nat.two_pow_pos F.p; omega)
      rw [hm0, Nat.zero_mul] at hgap
      exact hgap (by rw [gap, Nat.zero_sub, Nat.zero_div])
    · rw [Nat.add_sub_assoc (by omega)] at hgap
      exact hgap (gap_eq (hs.imp_right (by omega)) (by omega))

/-! ### Rounding to a number of a format -/

/-- The number with magnitude `k` is nearest to `a / den` units. -/
structure Rounds (F : Format) (a den k : Nat) : Prop where
  lower : 2 * (F.units k * den) ≤ 2 * a + F.gap (k - 1) * den
  upper : 2 * a ≤ 2 * (F.units k * den) + F.gap k * den
  even_of_tie : 2 * (F.units k * den) = 2 * a + F.gap (k - 1) * den ∨
    2 * a = 2 * (F.units k * den) + F.gap k * den → k % 2 = 0

theorem Rounds.le {a den j : Nat} (hden : 0 < den) (hj : Rounds F a den j) (hk : Rounds F a den k) :
    k ≤ j := by
  by_contra! hlt
  obtain ⟨i, rfl⟩ : ∃ i, k = i + 1 := ⟨k - 1, by omega⟩
  have hlower := hk.lower
  have hupper := hj.upper
  have htop := F.units_succ i
  have hgapPos := Nat.mul_pos (F.gap_pos i) hden
  rw [Nat.add_sub_cancel] at hlower
  rw [htop, Nat.add_mul] at hlower
  by_cases hnext : j = i
  · -- the two numbers are neighbours, and `a / den` is half way
    subst hnext
    have hj2 := hj.even_of_tie (.inr (by omega))
    have hk2 := hk.even_of_tie (.inl (by rw [Nat.add_sub_cancel, htop, Nat.add_mul]; omega))
    omega
  · have hbetween : F.units (j + 1) ≤ F.units i := F.units_strictMono.monotone (by omega)
    have hbetween' := Nat.mul_le_mul_right den hbetween
    have hgapPos' := Nat.mul_pos (F.gap_pos j) hden
    rw [F.units_succ, Nat.add_mul] at hbetween'
    omega

theorem rounds_unique {a den j : Nat} (hden : 0 < den) (hj : Rounds F a den j)
    (hk : Rounds F a den k) : j = k :=
  Nat.le_antisymm (hk.le hden hj) (hj.le hden hk)

/-- Rounding a significand rounds the number, as long as it is not rounded into the exponent
below. -/
theorem rounds_roundHalfEven (hp : 1 ≤ F.p) {a den s : Nat} (hden : 0 < den)
    (hs : s = 0 ∨ 2 ^ F.p * (den * 2 ^ s) ≤ a) (ha : a < 2 ^ (F.p + 1) * (den * 2 ^ s)) :
    Rounds F a den (s * 2 ^ F.p + roundHalfEven a (den * 2 ^ s)) := by
  have hb : 0 < den * 2 ^ s := Nat.mul_pos hden (Nat.two_pow_pos s)
  obtain ⟨hlower, hupper, heven⟩ := roundHalfEven_spec a hb
  generalize hm : roundHalfEven a (den * 2 ^ s) = m at hlower hupper heven ⊢
  have hunit : m * 2 ^ s * den = m * (den * 2 ^ s) := by ring
  have hgapUnit : 2 ^ s * den = den * 2 ^ s := Nat.mul_comm _ _
  have hmax : m ≤ 2 ^ (F.p + 1) := by
    by_contra! hlt
    have hmul := Nat.mul_le_mul_right (den * 2 ^ s) hlt
    rw [Nat.succ_mul] at hmul
    omega
  have hmin : s = 0 ∨ 2 ^ F.p ≤ m := by
    refine hs.imp_right ?_
    intro hle
    by_contra! hlt
    have hmul := Nat.mul_le_mul_right (den * 2 ^ s) hlt
    rw [Nat.succ_mul] at hmul
    omega
  have hparity : (s * 2 ^ F.p + m) % 2 = m % 2 := by
    obtain ⟨q, hq⟩ := Nat.exists_eq_add_of_le hp
    rw [hq, Nat.pow_add, Nat.pow_one, Nat.mul_left_comm, Nat.mul_add_mod]
  -- above, the distance is that of the significand, or there is nothing above the number
  have habove : (m < 2 ^ (F.p + 1) ∧ F.gap (s * 2 ^ F.p + m) * den = den * 2 ^ s) ∨
      a < m * (den * 2 ^ s) := by
    by_cases hlast : m = 2 ^ (F.p + 1)
    · right
      rwa [hlast]
    · left
      refine ⟨by omega, ?_⟩
      rw [gap_eq hmin (by omega), hgapUnit]
  have hbelow : m = 0 ∨ F.gap (s * 2 ^ F.p + m - 1) * den = den * 2 ^ s ∨
      m * (den * 2 ^ s) ≤ a := by
    by_cases hzero : m = 0
    · exact .inl hzero
    · right
      by_cases hfirst : s = 0 ∨ 2 ^ F.p ≤ m - 1
      · left
        rw [Nat.add_sub_assoc (by omega), gap_eq hfirst (by omega), hgapUnit]
      · right
        obtain rfl : m = 2 ^ F.p := by omega
        exact hs.resolve_left (fun h => hfirst (.inl h))
  have hgapPos := Nat.mul_pos (F.gap_pos (s * 2 ^ F.p + m)) hden
  have hgapPos' := Nat.mul_pos (F.gap_pos (s * 2 ^ F.p + m - 1)) hden
  refine ⟨?_, ?_, ?_⟩
  · rw [units_eq hmin hmax, hunit]
    rcases hbelow with rfl | hgap | hle
    · rw [Nat.zero_mul]
      omega
    · omega
    · omega
  · rw [units_eq hmin hmax, hunit]
    omega
  · rw [units_eq hmin hmax, hunit, hparity]
    rcases hbelow with rfl | hgap | hle
    · intro _
      rfl
    · omega
    · omega

/-- `nearest` finds the nearest number, unless it is out of the format's range. -/
theorem nearest_eq_iff (hp : 1 ≤ F.p) (hk : k < F.inf) {num den : Nat} (hden : 0 < den) :
    F.nearest num den = k ↔ Rounds F (num * 2 ^ F.places) den k := by
  rw [nearest]
  generalize num * 2 ^ F.places = a
  have hrounds : Rounds F a den ((Nat.log 2 (a / den) - F.p) * 2 ^ F.p +
      roundHalfEven a (den * 2 ^ (Nat.log 2 (a / den) - F.p))) := by
    generalize hs : Nat.log 2 (a / den) - F.p = s
    refine rounds_roundHalfEven hp hden ?_ ?_
    · by_cases hzero : s = 0
      · exact .inl hzero
      · right
        have hquot : a / den ≠ 0 := by
          intro hquot
          rw [hquot, Nat.log_zero_right] at hs
          omega
        have hlog := Nat.pow_log_le_self 2 hquot
        rw [show Nat.log 2 (a / den) = F.p + s by omega, Nat.le_div_iff_mul_le hden] at hlog
        calc 2 ^ F.p * (den * 2 ^ s) = 2 ^ (F.p + s) * den := by ring
          _ ≤ a := hlog
    · have hlog := Nat.lt_pow_succ_log_self (b := 2) (by decide) (a / den)
      rw [Nat.div_lt_iff_lt_mul hden] at hlog
      calc a < 2 ^ (Nat.log 2 (a / den) + 1) * den := hlog
        _ ≤ 2 ^ (F.p + 1 + s) * den :=
            Nat.mul_le_mul_right den (Nat.pow_le_pow_right (by decide) (by omega))
        _ = 2 ^ (F.p + 1) * (den * 2 ^ s) := by ring
  constructor
  · intro h
    rw [← h] at hk ⊢
    rwa [min_eq_right (le_of_lt ((min_lt_iff.mp hk).resolve_left (lt_irrefl _)))]
  · intro h
    rw [rounds_unique hden hrounds h]
    exact min_eq_right (le_of_lt hk)

/-- A power of two that is not below `1` is rounded to no other number. -/
theorem fixed_of_gap_ne (hgap : F.gap (k - 1) ≠ F.gap k) (hone : 2 ^ F.places < 2 * F.units k)
    (den : Nat) : F.fixed k den * 2 ^ F.places = F.units k * den := by
  have hunits : F.units k = 2 ^ (F.p + (k / 2 ^ F.p - 1)) := by
    rw [units_of_gap_ne hgap, gap, ← Nat.pow_add]
  rw [hunits, ← Nat.pow_succ'] at hone
  have hexp := (Nat.pow_lt_pow_iff_right (by decide)).mp hone
  obtain ⟨q, hq⟩ := Nat.exists_eq_add_of_le (Nat.le_of_lt_succ hexp)
  have hmul : F.units k * den = 2 ^ q * den * 2 ^ F.places := by
    rw [hunits, hq, Nat.pow_add]
    ring
  rw [fixed, hmul, roundHalfEven_mul _ (Nat.two_pow_pos _)]

/-- **A number comes back** from being rounded to a multiple of `1 / den` exactly if it is the
nearest one to some multiple. -/
theorem nearest_fixed_iff (hp : 1 ≤ F.p) (hk : k < F.inf) {den : Nat} (hden : 0 < den)
    (hsmall : den < 2 ^ (F.p + 1)) :
    F.nearest (F.fixed k den) den = k ↔ ∃ n, F.nearest n den = k := by
  constructor
  · intro h
    exact ⟨_, h⟩
  rintro ⟨n, hn⟩
  rw [nearest_eq_iff hp hk hden] at hn ⊢
  have hB : 0 < 2 ^ F.places := Nat.two_pow_pos F.places
  obtain ⟨hlower, hupper, -⟩ := roundHalfEven_spec (F.units k * den) hB
  rw [← fixed] at hlower hupper
  have hgap : F.gap (k - 1) * den ≤ F.gap k * den :=
    Nat.mul_le_mul_right den (gap_mono (Nat.sub_le k 1))
  have hgapPos := Nat.mul_pos (F.gap_pos (k - 1)) hden
  obtain ⟨hnLower, hnUpper, hnEven⟩ := hn
  rcases lt_trichotomy n (F.fixed k den) with hlt | heq | hgt
  · -- `n` is below and not nearer
    have hstep := Nat.mul_le_mul_right (2 ^ F.places) hlt
    rw [Nat.succ_mul] at hstep
    refine ⟨?_, ?_, ?_⟩
    · omega
    · omega
    · intro htie
      exact hnEven (.inl (by omega))
  · rw [← heq]
    exact ⟨hnLower, hnUpper, hnEven⟩
  · have hstep := Nat.mul_le_mul_right (2 ^ F.places) hgt
    rw [Nat.succ_mul] at hstep
    by_cases hsame : F.gap (k - 1) = F.gap k
    · refine ⟨?_, ?_, ?_⟩
      · rw [hsame]
        omega
      · omega
      · intro htie
        rw [hsame] at htie
        exact hnEven (.inr (by omega))
    · -- the number is a power of two; were it not a multiple of `1 / den`, it would be too far
      -- from `n`
      have hnotBelow : F.units k * den ≤ F.fixed k den * 2 ^ F.places := by
        by_contra! hbelow
        have hbound := Nat.mul_lt_mul_of_pos_left hsmall (F.gap_pos k)
        have hpow : F.gap k * 2 ^ (F.p + 1) = 2 * F.units k := by
          rw [units_of_gap_ne hsame]
          ring
        rw [fixed_of_gap_ne hsame (by omega) den] at hbelow
        omega
      refine ⟨?_, ?_, ?_⟩
      · omega
      · omega
      · intro htie
        omega

end Format

end NativePreferences.Lib
