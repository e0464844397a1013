import NativePreferences.Xml.RoundTrip

/-!
# NativePreferences.Xml.Decimals

**Which values a document keeps**, up to `operator==`.

`std::to_string` writes six digits after the point. What is read from the text is the number nearest
to it, so a number comes back if and only if it is the nearest one to some decimal with six digits
(`SixDecimals`). Texts come back if `c_str()` does not cut them off. Everything else comes back,
byte arrays within the limits of `Base64Helper`.
-/

namespace NativePreferences

open Lib

variable {x : Extraction} {value w : PreferencesValue}

/-! ### Numbers -/

/-- The number with these bits is neither infinite nor a NaN. -/
def IsFinite (F : Format) (bits : Nat) : Prop := F.magnitude bits < F.inf

/-- The number is the nearest one to some decimal with six digits after the point. -/
def SixDecimals (F : Format) (bits : Nat) : Prop := ∃ n, F.nearest n (10 ^ 6) = F.magnitude bits

/-- The numbers in a value are finite. -/
def PreferencesValue.Finite : PreferencesValue → Prop
  | .float v => IsFinite .binary32 v.toNat
  | .double v => IsFinite .binary64 v.toNat
  | .doubleArray v => ∀ d ∈ v, IsFinite .binary64 d.toNat
  | _ => True

/-- The floating-point numbers in a value have six decimals. -/
def PreferencesValue.Decimal : PreferencesValue → Prop
  | .float v => SixDecimals .binary32 v.toNat
  | .double v => SixDecimals .binary64 v.toNat
  | .doubleArray v => ∀ d ∈ v, SixDecimals .binary64 d.toNat
  | _ => True

section Numbers

variable {F : Format} {a b : Nat}

theorem ieeeEq_iff : ieeeEq (F.w + F.p + 1) F.inf a b = true ↔
    (F.magnitude a = 0 ∧ F.magnitude b = 0) ∨ (a = b ∧ F.magnitude a ≤ F.inf) := by
  have hmag : ∀ n, n % 2 ^ (F.w + F.p + 1 - 1) = F.magnitude n := fun _ => rfl
  simp only [ieeeEq, hmag, Bool.or_eq_true, Bool.and_eq_true, beq_iff_eq, decide_eq_true_eq]

theorem magnitude_cases (hb : b < 2 * F.signBit) :
    (b < F.signBit ∧ b = F.magnitude b) ∨ (F.signBit ≤ b ∧ b = F.signBit + F.magnitude b) := by
  rw [Format.magnitude]
  by_cases hsign : F.signBit ≤ b
  · rw [Nat.mod_eq_sub_mod hsign, Nat.mod_eq_of_lt (by omega)]
    omega
  · rw [Nat.mod_eq_of_lt (by omega)]
    omega

/-- `operator==` of a number and one with the magnitude `q` and the sign of an equal number `a`. -/
theorem ieeeEq_sign_add {q : Nat} (hq : q < F.signBit) (hb : b < 2 * F.signBit)
    (hfinite : IsFinite F b) (hab : ieeeEq (F.w + F.p + 1) F.inf a b = true) :
    ieeeEq (F.w + F.p + 1) F.inf ((if F.signBit ≤ a then F.signBit else 0) + q) b = true ↔
      q = F.magnitude b := by
  have hmag : F.magnitude ((if F.signBit ≤ a then F.signBit else 0) + q) = q := by
    rw [Format.magnitude]
    split
    · rw [Nat.add_mod_left, Nat.mod_eq_of_lt hq]
    · rw [Nat.zero_add, Nat.mod_eq_of_lt hq]
  unfold IsFinite at hfinite
  rw [ieeeEq_iff, hmag]
  constructor
  · rintro (⟨hq0, hb0⟩ | ⟨heq, -⟩)
    · rw [hq0, hb0]
    · rw [← heq, hmag]
  · intro hqb
    rcases ieeeEq_iff.mp hab with ⟨-, hb0⟩ | ⟨rfl, -⟩
    · exact .inl ⟨hqb.trans hb0, hb0⟩
    · refine .inr ⟨?_, by omega⟩
      rcases magnitude_cases hb with ⟨hlt, heq⟩ | ⟨hle, heq⟩
      · rw [if_neg (by omega)]
        omega
      · rw [if_pos hle]
        omega

theorem nearest_lt_signBit (F : Format) (num den : Nat) : F.nearest num den < F.signBit := by
  refine lt_of_le_of_lt (min_le_left _ _) ?_
  rw [Format.inf, Format.signBit, Nat.pow_add]
  exact Nat.mul_lt_mul_of_pos_right (Nat.sub_lt (Nat.two_pow_pos _) Nat.one_pos)
    (Nat.two_pow_pos _)

/-- What is read has the width of the format. -/
theorem extract_toText_lt (hfinite : IsFinite F a) (other : String → Nat) (garbage : Nat) :
    F.extract other garbage (F.toText 6 a) < 2 * F.signBit := by
  have hnearest := nearest_lt_signBit F (F.fixed (F.magnitude a) (10 ^ 6)) (10 ^ 6)
  rw [Format.extract_toText other garbage (by decide) hfinite]
  split <;> omega

/-- **Numbers that come back.** The text of a number is read as a number that `operator==` takes for
the same if and only if it has six decimals. The text may be that of an equal number, a zero with
the other sign. -/
theorem extract_toText_iff (hp : 1 ≤ F.p) (hsix : 10 ^ 6 < 2 ^ (F.p + 1)) (hb : b < 2 * F.signBit)
    (hfinite : IsFinite F b) (hab : ieeeEq (F.w + F.p + 1) F.inf a b = true)
    (other : String → Nat) (garbage : Nat) :
    F.extract other garbage (F.toText 6 a) < 2 * F.signBit ∧
      (ieeeEq (F.w + F.p + 1) F.inf (F.extract other garbage (F.toText 6 a)) b = true ↔
        SixDecimals F b) := by
  have hsame : F.magnitude a = F.magnitude b := by
    rcases ieeeEq_iff.mp hab with ⟨ha0, hb0⟩ | ⟨rfl, -⟩
    · rw [ha0, hb0]
    · rfl
  have hread : IsFinite F a := by
    rw [IsFinite, hsame]
    exact hfinite
  refine ⟨extract_toText_lt hread other garbage, ?_⟩
  rw [Format.extract_toText other garbage (by decide) hread, hsame,
    ieeeEq_sign_add (nearest_lt_signBit _ _ _) hb hfinite hab,
    Format.nearest_fixed_iff hp hfinite (by decide) hsix]
  rfl

end Numbers

theorem floatEq_readFloat {a b : UInt32} (hfinite : IsFinite .binary32 b.toNat)
    (hab : floatEq a b = true) :
    floatEq (readFloat x a) b = true ↔ SixDecimals .binary32 b.toNat := by
  obtain ⟨hlt, hiff⟩ := extract_toText_iff (F := .binary32) (by decide) (by decide)
    (lt_of_lt_of_eq b.toNat_lt (by decide)) hfinite hab (fun text => (x.float text).toNat)
    x.garbage.toNat
  have hbits : (readFloat x a).toNat = Format.binary32.extract (fun text => (x.float text).toNat)
      x.garbage.toNat (Format.binary32.toText 6 a.toNat) := by
    rw [readFloat, UInt32.toNat_ofNat', Nat.mod_eq_of_lt]
    · rfl
    · exact lt_of_lt_of_eq hlt (by decide)
  rw [← hiff, ← hbits]
  rfl

theorem doubleEq_readDouble {a b : UInt64} (hfinite : IsFinite .binary64 b.toNat)
    (hab : doubleEq a b = true) :
    doubleEq (readDouble x a) b = true ↔ SixDecimals .binary64 b.toNat := by
  obtain ⟨hlt, hiff⟩ := extract_toText_iff (F := .binary64) (by decide) (by decide)
    (lt_of_lt_of_eq b.toNat_lt (by decide)) hfinite hab (fun text => (x.double text).toNat)
    x.garbage.toNat
  have hbits : (readDouble x a).toNat = Format.binary64.extract (fun text => (x.double text).toNat)
      x.garbage.toNat (Format.binary64.toText 6 a.toNat) := by
    rw [readDouble, UInt64.toNat_ofNat', Nat.mod_eq_of_lt]
    · rfl
    · exact lt_of_lt_of_eq hlt (by decide)
  rw [← hiff, ← hbits]
  rfl

theorem doublesEq_readDouble {a b : List UInt64} (hfinite : ∀ d ∈ b, IsFinite .binary64 d.toNat)
    (hab : doublesEq a b = true) :
    doublesEq (a.map (readDouble x)) b = true ↔ ∀ d ∈ b, SixDecimals .binary64 d.toNat := by
  induction a generalizing b with
  | nil =>
      cases b with
      | nil => simp [doublesEq]
      | cons d b => exact absurd hab (by simp [doublesEq])
  | cons d a ih =>
      cases b with
      | nil => exact absurd hab (by simp [doublesEq])
      | cons e b =>
          rw [doublesEq, Bool.and_eq_true] at hab
          rw [List.forall_mem_cons] at hfinite ⊢
          rw [List.map_cons, doublesEq, Bool.and_eq_true, doubleEq_readDouble hfinite.1 hab.1,
            ih hfinite.2 hab.2]

/-! ### Values -/

/-- What `operator==` takes for the same. -/
theorem PreferencesValue.eq_cases (h : w.eq value = true) :
    (∃ a b, w = .float a ∧ value = .float b ∧ floatEq a b = true) ∨
      (∃ a b, w = .double a ∧ value = .double b ∧ doubleEq a b = true) ∨
      (∃ a b, w = .doubleArray a ∧ value = .doubleArray b ∧ doublesEq a b = true) ∨
      (w = value ∧ (value = .monostate ∨ value.isExact = true)) := by
  rw [PreferencesValue.eq.eq_def] at h
  split at h
  · next a b => exact .inl ⟨a, b, rfl, rfl, h⟩
  · next a b => exact .inr (.inl ⟨a, b, rfl, rfl, h⟩)
  · next a b => exact .inr (.inr (.inl ⟨a, b, rfl, rfl, h⟩))
  · next hfloat hdouble hdoubles =>
    obtain rfl := of_decide_eq_true h
    refine .inr (.inr (.inr ⟨rfl, ?_⟩))
    cases w with
    | monostate => exact .inl rfl
    | float v => exact absurd rfl (hfloat v v rfl)
    | double v => exact absurd rfl (hdouble v v rfl)
    | doubleArray v => exact absurd rfl (hdoubles v v rfl)
    | _ => exact .inr rfl

theorem map_eq_self_iff {f : String → String} {v : List String} :
    v.map f = v ↔ ∀ t ∈ v, f t = t := by
  induction v with
  | nil => simp
  | cons t v ih => rw [List.map_cons, List.cons.injEq, ih, List.forall_mem_cons]

/-- **Values that come back**, up to `operator==`. `w` is the value that was written. -/
theorem readBack_eq_iff (hw : w.eq value = true) (hfinite : value.Finite)
    (hvalue : value ≠ .monostate)
    (hbytes : ∀ bytes, value = .uint8Array bytes → bytes.length < 3 * 2 ^ 30) :
    (∃ u, readBack x w = some u ∧ u.eq value = true) ↔
      (∀ t ∈ value.texts, cStr t = t) ∧ value.Decimal := by
  obtain ⟨a, b, rfl, rfl, hab⟩ | ⟨a, b, rfl, rfl, hab⟩ | ⟨a, b, rfl, rfl, hab⟩ | ⟨rfl, hexact⟩ :=
    PreferencesValue.eq_cases hw
  · have hread : floatEq (readFloat x a) b = true ↔ _ := floatEq_readFloat hfinite hab
    simp only [readBack, Option.some.injEq, exists_eq_left', PreferencesValue.eq, hread,
      PreferencesValue.texts, PreferencesValue.Decimal]
    simp
  · have hread : doubleEq (readDouble x a) b = true ↔ _ := doubleEq_readDouble hfinite hab
    simp only [readBack, Option.some.injEq, exists_eq_left', PreferencesValue.eq, hread,
      PreferencesValue.texts, PreferencesValue.Decimal]
    simp
  · have hread : doublesEq (a.map (readDouble x)) b = true ↔ _ := doublesEq_readDouble hfinite hab
    simp only [readBack, Option.some.injEq, exists_eq_left', PreferencesValue.eq, hread,
      PreferencesValue.texts, PreferencesValue.Decimal]
    simp
  · -- no floating-point numbers: only texts and byte arrays can fail to come back
    replace hexact := hexact.resolve_left hvalue
    cases w with
    | monostate | float | double | doubleArray =>
        exact absurd hexact (by simp [PreferencesValue.isExact])
    | string v =>
        simp [readBack, PreferencesValue.eq, PreferencesValue.texts, PreferencesValue.Decimal]
    | object v =>
        obtain ⟨s⟩ := v
        simp [readBack, PreferencesValue.eq, PreferencesValue.texts, PreferencesValue.Decimal]
    | stringArray v =>
        simp [readBack, PreferencesValue.eq, PreferencesValue.texts, PreferencesValue.Decimal,
          map_eq_self_iff]
    | uint8Array v =>
        rw [readBack_exact rfl (by simp [PreferencesValue.texts]) hbytes]
        simp [PreferencesValue.eq, PreferencesValue.texts, PreferencesValue.Decimal]
    | int | int64 | bool | boolArray | bigInt | intArray | int64Array =>
        simp [readBack, PreferencesValue.eq, PreferencesValue.texts, PreferencesValue.Decimal]

theorem PreferencesValue.eq_of_exact (hw : w.eq value = true)
    (hexact : w = .monostate ∨ w.isExact = true) : w = value := by
  obtain ⟨a, b, rfl, -⟩ | ⟨a, b, rfl, -⟩ | ⟨a, b, rfl, -⟩ | ⟨heq, -⟩ := PreferencesValue.eq_cases hw
  · exact absurd hexact (by simp [PreferencesValue.isExact])
  · exact absurd hexact (by simp [PreferencesValue.isExact])
  · exact absurd hexact (by simp [PreferencesValue.isExact])
  · exact heq

/-- What `operator==` takes for the same has the same texts. -/
theorem PreferencesValue.texts_eq (hw : w.eq value = true) : w.texts = value.texts := by
  obtain ⟨a, b, rfl, rfl, -⟩ | ⟨a, b, rfl, rfl, -⟩ | ⟨a, b, rfl, rfl, -⟩ | ⟨rfl, -⟩ :=
    PreferencesValue.eq_cases hw
  all_goals rfl

/-- Something is read, unless it is a byte array that is too long. -/
theorem exists_readBack
    (hbytes : ∀ bytes, value = .uint8Array bytes → bytes.length < 3 * 2 ^ 30) :
    ∃ u, readBack x value = some u := by
  cases value with
  | uint8Array v => exact ⟨_, readBack_exact rfl (by simp [PreferencesValue.texts]) hbytes⟩
  | _ => exact ⟨_, rfl⟩

theorem doublesEq_self {v : List UInt64} (hfinite : ∀ d ∈ v, IsFinite .binary64 d.toNat) :
    doublesEq v v = true := by
  induction v with
  | nil => rfl
  | cons d v ih =>
      rw [List.forall_mem_cons] at hfinite
      rw [doublesEq, ih hfinite.2, Bool.and_true]
      exact ieeeEq_iff.mpr (.inr ⟨rfl, le_of_lt hfinite.1⟩)

/-- A value without NaNs is equal to itself. -/
theorem PreferencesValue.Finite.eq_self (hfinite : value.Finite) : value.eq value = true := by
  cases value with
  | float v => exact ieeeEq_iff.mpr (.inr ⟨rfl, le_of_lt hfinite⟩)
  | double v => exact ieeeEq_iff.mpr (.inr ⟨rfl, le_of_lt hfinite⟩)
  | doubleArray v => exact doublesEq_self hfinite
  | _ => simp [PreferencesValue.eq]

end NativePreferences
