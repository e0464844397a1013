import NativePreferences.Xml.Decimals

/-!
# NativePreferences.Xml.Persistence

**Which floating-point numbers survive in a file.** A number is written with six digits after the
point and read as the number nearest to that text. It comes back if and only if it is the nearest
number to some decimal with six digits (`numbers_come_back_iff`): `0.1` does, `1e-7` is read as
zero. The elements of an array come back one by one.
-/

namespace NativePreferences

open Lib

variable {x : Extraction} {value : PreferencesValue} {key : String} {F : Format} {bits i : Nat}

/-- The floating-point numbers in a value: their formats and their bits. -/
def PreferencesValue.numbers : PreferencesValue → List (Format × Nat)
  | .float v => [(.binary32, v.toNat)]
  | .double v => [(.binary64, v.toNat)]
  | .doubleArray v => v.map (fun d => (.binary64, d.toNat))
  | _ => []

/-- The same number: equal bits, or two zeros. -/
def SameNumber (F : Format) (a b : Nat) : Prop := ieeeEq (F.w + F.p + 1) F.inf a b = true

theorem SameNumber.refl (hfinite : IsFinite F bits) : SameNumber F bits bits :=
  ieeeEq_iff.mpr (.inr ⟨rfl, le_of_lt hfinite⟩)

/-- In this map, the value at the key has the number in this place. -/
def PrefMap.HasNumber (m : PrefMap) (key : String) (i : Nat) (F : Format) (bits : Nat) : Prop :=
  ∃ value b, m.lookup key = some value ∧ value.numbers[i]? = some (F, b) ∧ SameNumber F b bits

/-- What is read where a value was written has its numbers in the same places. -/
theorem readBack_numbers (h : value.numbers[i]? = some (F, bits)) (hfinite : IsFinite F bits) :
    ∃ u b, readBack x value = some u ∧ u.numbers[i]? = some (F, b) ∧
      (SameNumber F b bits ↔ SixDecimals F bits) := by
  cases value with
  | float v =>
      rw [PreferencesValue.numbers, List.getElem?_singleton, Option.ite_none_right_eq_some] at h
      obtain ⟨rfl, hnum⟩ := h
      obtain ⟨rfl, rfl⟩ := Prod.mk.inj (Option.some.inj hnum)
      exact ⟨_, _, rfl, rfl, floatEq_readFloat hfinite (SameNumber.refl hfinite)⟩
  | double v =>
      rw [PreferencesValue.numbers, List.getElem?_singleton, Option.ite_none_right_eq_some] at h
      obtain ⟨rfl, hnum⟩ := h
      obtain ⟨rfl, rfl⟩ := Prod.mk.inj (Option.some.inj hnum)
      exact ⟨_, _, rfl, rfl, doubleEq_readDouble hfinite (SameNumber.refl hfinite)⟩
  | doubleArray v =>
      rw [PreferencesValue.numbers, List.getElem?_map, Option.map_eq_some_iff] at h
      obtain ⟨d, hd, hnum⟩ := h
      obtain ⟨rfl, rfl⟩ := Prod.mk.inj hnum
      refine ⟨_, (readDouble x d).toNat, rfl, ?_,
        doubleEq_readDouble hfinite (SameNumber.refl hfinite)⟩
      rw [PreferencesValue.numbers, List.getElem?_map, List.getElem?_map, hd]
      rfl
  | _ => exact absurd h (by simp [PreferencesValue.numbers])

/-- **Exactly which numbers come back.** A map is written to a document and the document is read.
A finite number in one of its values is read again as the same number if and only if it is the
number nearest to some decimal with six digits after the point. -/
theorem numbers_come_back_iff {m m' : PrefMap} {entries : List (String × PreferencesValue)}
    {doc : XmlNode} (hentries : Enumerates entries m)
    (hkeys : ∀ key v, m.lookup key = some v → XmlText key)
    (hwrite : writeSettingXml entries = some doc) (hread : readSettingXml x doc = some (true, m'))
    (hv : m.lookup key = some value) (hnumber : value.numbers[i]? = some (F, bits))
    (hfinite : IsFinite F bits) : m'.HasNumber key i F bits ↔ SixDecimals F bits := by
  obtain ⟨u, b, hback, hub, hiff⟩ := readBack_numbers (x := x) hnumber hfinite
  have hvalue : value ≠ .monostate := by
    intro heq
    rw [heq] at hnumber
    exact absurd hnumber (by simp [PreferencesValue.numbers])
  have hlookup : m'.lookup key = some u := by
    obtain ⟨doc', hwrite', hread'⟩ := read_write (x := x) entries
    obtain rfl := Option.some.inj (hwrite'.symm.trans hwrite)
    obtain ⟨n, hn, heq⟩ := Option.map_eq_some_iff.mp (hread'.symm.trans hread)
    obtain rfl : n = m' := (Prod.mk.inj heq).2
    rw [← hback]
    refine readEntries_lookup_enumerates hentries ?_ hn hv hvalue
    intro entry hmem
    exact (hkeys entry.1 entry.2 ((hentries.mem _ _).mpr hmem)).cStr_eq
  rw [← hiff]
  constructor
  · intro ⟨u', b', hu', hb', hsame⟩
    obtain rfl := Option.some.inj (hlookup.symm.trans hu')
    obtain rfl := (Prod.mk.inj (Option.some.inj (hub.symm.trans hb'))).2
    exact hsame
  · intro hsame
    exact ⟨u, b, hlookup, hub, hsame⟩

/-- A document with one entry. -/
theorem read_singleton (x : Extraction) {u : PreferencesValue} (hvalue : value ≠ .monostate)
    (hback : readBack x value = some u) :
    ∃ doc, writeSettingXml [("k", value)] = some doc ∧
      readSettingXml x doc = some (true, Finmap.insert "k" u ∅) := by
  obtain ⟨doc, hwrite, hread⟩ := read_write (x := x) [("k", value)]
  refine ⟨doc, hwrite, ?_⟩
  have hkey : cStr "k" ∉ (∅ : PrefMap) := Finmap.notMem_empty
  rw [hread, readEntries, if_neg hvalue, hback]
  dsimp only
  rw [if_neg hkey]
  rfl

/-- `0.1`. -/
def tenthDouble : UInt64 := 0x3fb999999999999a

theorem tenthDouble_comes_back :
    ∃ doc m', writeSettingXml [("k", .double tenthDouble)] = some doc ∧
      readSettingXml ⟨0, fun _ => 0, fun _ => 0⟩ doc = some (true, m') ∧
      m'.HasNumber "k" 0 .binary64 tenthDouble.toNat := by
  have hfinite : IsFinite .binary64 tenthDouble.toNat := by
    show Format.magnitude .binary64 tenthDouble.toNat < Format.inf .binary64
    decide
  have hback : readBack ⟨0, fun _ => 0, fun _ => 0⟩ (.double tenthDouble) = _ := rfl
  obtain ⟨doc, hwrite, hread⟩ := read_singleton _ (by simp) hback
  refine ⟨doc, _, hwrite, hread, ?_⟩
  refine (numbers_come_back_iff (enumerates_singleton _ _)
    (forall_singleton (P := fun k _ => XmlText k) xmlText_k) hwrite hread
    (Finmap.lookup_insert _) rfl hfinite).mpr ?_
  exact ⟨100000, by decide +kernel⟩

/-- `1e-7`. -/
def tenMillionth : UInt64 := 0x3e7ad7f29abcaf48

/-- Its text is `0.000000`. -/
theorem tenMillionth_lost :
    ¬ ∀ (bits : UInt64) (doc : XmlNode) (m' : PrefMap), IsFinite .binary64 bits.toNat →
      writeSettingXml [("k", .double bits)] = some doc →
      readSettingXml ⟨0, fun _ => 0, fun _ => 0⟩ doc = some (true, m') →
      m'.HasNumber "k" 0 .binary64 bits.toNat := by
  intro hall
  have hfinite : IsFinite .binary64 tenMillionth.toNat := by
    show Format.magnitude .binary64 tenMillionth.toNat < Format.inf .binary64
    decide
  have hback : readBack ⟨0, fun _ => 0, fun _ => 0⟩ (.double tenMillionth) = _ := rfl
  obtain ⟨doc, hwrite, hread⟩ := read_singleton _ (by simp) hback
  obtain ⟨u, b, hu, hb, hsame⟩ := hall tenMillionth doc _ hfinite hwrite hread
  obtain rfl := Option.some.inj (hu.symm.trans (Finmap.lookup_insert _))
  obtain rfl := (Prod.mk.inj (Option.some.inj hb)).2
  have hsix : SixDecimals .binary64 tenMillionth.toNat :=
    (doubleEq_readDouble hfinite (SameNumber.refl hfinite)).mp hsame
  have hnearest := (Format.nearest_fixed_iff (F := .binary64) (by decide) hfinite (by decide)
    (by decide)).mpr hsix
  exact absurd hnearest (by decide +kernel)

end NativePreferences
