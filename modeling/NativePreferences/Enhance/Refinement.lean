import Mathlib.Algebra.Order.BigOperators.Group.List
import NativePreferences.Enhance.Truthful

/-!
# NativePreferences.Enhance.Refinement

**A store with the enhanced backend behaves like a plain map**, as long as the kernel works and
nobody else uses the database. The data version does not matter: whatever the kernel says it is,
the copies that a store keeps are copies of what is in the collection (`Enhance.Truthful`), so it
makes no difference whether a value comes from them or from the database.

What the collection holds under a key is the encoding of what the map holds there (`Decodes`).
-/

namespace NativePreferences

open Lib

/-- The collection holds the encodings of the values of the map. -/
def Decodes (c : Collection) (m : PrefMap) : Prop :=
  ∀ key, Option.Rel (fun oriValue v => unmarshallingPreferenceValue oriValue = (.ok, v))
    (c.lookup key) (m.lookup key)

/-- The value of a `Put` is of a kind that `MarshallingPreferenceValue` knows, and takes less than
`2 ^ 31` bytes. -/
def Op.Parcels : Op → Prop
  | .put _ value => getTypeIndex value ≠ 0 ∧ parcelSize value < 2 ^ 31
  | _ => True

variable {h : EnhanceImpl} {c : Collection} {m : PrefMap} {key : String}

/-! ### Encodings -/

theorem Decodes.of_lookup {oriValue : Bytes} (hdec : Decodes c m)
    (hc : c.lookup key = some oriValue) :
    ∃ v, m.lookup key = some v ∧ unmarshallingPreferenceValue oriValue = (.ok, v) := by
  have hrel := hdec key
  rw [hc] at hrel
  cases hm : m.lookup key with
  | none =>
      rw [hm] at hrel
      cases hrel
  | some v =>
      rw [hm] at hrel
      cases hrel with
      | some hitem => exact ⟨v, rfl, hitem⟩

theorem Decodes.lookup_eq_none (hdec : Decodes c m) (hc : c.lookup key = none) :
    m.lookup key = none := by
  have hrel := hdec key
  rw [hc] at hrel
  cases hm : m.lookup key with
  | none => rfl
  | some v =>
      rw [hm] at hrel
      cases hrel

theorem Decodes.exists_lookup {v : PreferencesValue} (hdec : Decodes c m)
    (hm : m.lookup key = some v) : ∃ oriValue, c.lookup key = some oriValue := by
  cases hc : c.lookup key with
  | none => exact absurd (hm.symm.trans (hdec.lookup_eq_none hc)) (by simp)
  | some oriValue => exact ⟨oriValue, rfl⟩

/-- What the collection holds is in the map. -/
theorem Decodes.of_holds {v : PreferencesValue} (hdec : Decodes c m) (hv : Holds c key v) :
    m.lookup key = some v := by
  obtain ⟨oriValue, hc, hitem⟩ := hv
  obtain ⟨u, hu, hitem'⟩ := hdec.of_lookup hc
  obtain ⟨-, rfl⟩ := Prod.mk.inj (hitem.symm.trans hitem')
  exact hu

theorem Decodes.insert {value : PreferencesValue} {oriValue : Bytes} (hdec : Decodes c m)
    (hitem : unmarshallingPreferenceValue oriValue = (.ok, value)) :
    Decodes (c.insert key oriValue) (m.insert key value) := by
  intro k
  by_cases heq : k = key
  · rw [heq, Finmap.lookup_insert, Finmap.lookup_insert]
    exact .some hitem
  · rw [Finmap.lookup_insert_of_ne _ heq, Finmap.lookup_insert_of_ne _ heq]
    exact hdec k

theorem Decodes.erase (hdec : Decodes c m) : Decodes (c.erase key) (m.erase key) := by
  intro k
  by_cases heq : k = key
  · rw [heq, Finmap.lookup_erase, Finmap.lookup_erase]
    exact .none
  · rw [Finmap.lookup_erase_ne heq, Finmap.lookup_erase_ne heq]
    exact hdec k

theorem decodes_empty : Decodes ∅ ∅ := by
  intro k
  rw [Finmap.lookup_empty, Finmap.lookup_empty]
  exact .none

/-- The lengths of what is copied in one piece. -/
def PreferencesValue.copies : PreferencesValue → List Nat
  | .string v => [v.utf8ByteSize]
  | .object v => [v.valueStr.utf8ByteSize]
  | .stringArray v => v.map String.utf8ByteSize
  | .uint8Array v => [v.length]
  | _ => []

theorem marshallingStrings_ok_iff {strVec : List String} :
    (∃ data, marshallingStrings strVec = .ok data) ↔
      ∀ s ∈ strVec, s.utf8ByteSize ≤ secureMemMaxLen := by
  induction strVec with
  | nil => exact ⟨fun _ => by simp, fun _ => ⟨[], rfl⟩⟩
  | cons s strVec ih =>
      rw [List.forall_mem_cons, marshallingStrings, ← ih]
      split
      · next hlong => simp [hlong]
      · next hshort =>
        cases marshallingStrings strVec with
        | error c => simp [bind, Except.bind]
        | ok data => simp [bind, Except.bind, pure, Except.pure, not_lt.mp hshort]

/-- **What `MarshallingPreferenceValue` accepts**: the kinds it knows, with nothing to be copied
that is too long for `memcpy_s`. -/
theorem marshalling_ok_iff {value : PreferencesValue} :
    (∃ oriValue, marshallingPreferenceValue value = .ok oriValue) ↔
      getTypeIndex value ≠ 0 ∧ ∀ n ∈ value.copies, n ≤ secureMemMaxLen := by
  cases value with
  | int | int64 | float | double | bool | boolArray | doubleArray | bigInt =>
      simp [marshallingPreferenceValue, getTypeIndex, PreferencesValue.copies]
  | string s | object s =>
      simp only [marshallingPreferenceValue, marshallingStringValue, getTypeIndex,
        PreferencesValue.copies]
      split <;> simp <;> omega
  | stringArray v =>
      have hstrings : (∃ data, marshallingStrings v = .ok data) ↔ _ := marshallingStrings_ok_iff
      simp only [marshallingPreferenceValue, marshallingStringArrayValue, getTypeIndex,
        PreferencesValue.copies, List.forall_mem_map, ← hstrings]
      cases marshallingStrings v with
      | error c => simp [bind, Except.bind]
      | ok data => simp [bind, Except.bind, pure, Except.pure]
  | uint8Array v =>
      simp only [marshallingPreferenceValue, marshallingVecUInt8, getTypeIndex,
        PreferencesValue.copies]
      split <;> simp [Except.map] <;> omega
  | monostate | intArray | int64Array =>
      simp [marshallingPreferenceValue, getTypeIndex]

theorem copies_le {value : PreferencesValue} {n : Nat} (hn : n ∈ value.copies) :
    n ≤ parcelSize value := by
  cases value with
  | string | object | uint8Array =>
      simp only [PreferencesValue.copies, List.mem_singleton] at hn
      simp only [parcelSize]
      omega
  | stringArray v =>
      obtain ⟨s, hs, rfl⟩ := List.mem_map.mp hn
      have hle : 8 + s.utf8ByteSize ≤ (v.map (fun s => 8 + s.utf8ByteSize)).sum :=
        List.le_sum_of_mem (List.mem_map_of_mem hs)
      simp only [parcelSize]
      omega
  | _ => exact absurd hn (by simp [PreferencesValue.copies])

theorem marshalling_ok {value : PreferencesValue} (htype : getTypeIndex value ≠ 0)
    (hsize : parcelSize value < 2 ^ 31) :
    ∃ oriValue, marshallingPreferenceValue value = .ok oriValue := by
  have hmax : secureMemMaxLen = 2 ^ 31 - 1 := rfl
  refine marshalling_ok_iff.mpr ⟨htype, ?_⟩
  intro n hn
  have hle := copies_le hn
  omega

theorem marshallingStrings_error {strVec : List String} {errCode : ErrCode}
    (h : marshallingStrings strVec = .error errCode) : errCode ≠ .ok := by
  induction strVec with
  | nil => cases h
  | cons s strVec ih =>
      rw [marshallingStrings] at h
      split at h
      · cases h
        decide
      · cases hrest : marshallingStrings strVec with
        | error c =>
            rw [hrest] at h ih
            cases h
            exact ih rfl
        | ok data =>
            rw [hrest] at h
            cases h

theorem marshalling_error {value : PreferencesValue} {errCode : ErrCode}
    (h : marshallingPreferenceValue value = .error errCode) : errCode ≠ .ok := by
  cases value with
  | int | int64 | float | double | bool | boolArray | doubleArray | bigInt => cases h
  | string s | object s =>
      simp only [marshallingPreferenceValue, marshallingStringValue] at h
      split at h
      · cases h
        decide
      · cases h
  | stringArray v =>
      simp only [marshallingPreferenceValue, marshallingStringArrayValue] at h
      cases hrest : marshallingStrings v with
      | error c =>
          rw [hrest] at h
          cases h
          exact marshallingStrings_error hrest
      | ok data =>
          rw [hrest] at h
          cases h
  | uint8Array v =>
      simp only [marshallingPreferenceValue, marshallingVecUInt8] at h
      split at h
      · cases h
        decide
      · cases h
  | monostate | intArray | int64Array =>
      cases h
      decide

/-! ### The database -/

namespace PreferencesDb

/-- The loop, when the collection is there. -/
theorem map_retry {α : Type} {attempt : KernelProgram (GrdCode × α)}
    {Q : GrdCode × α → Option Collection → Prop} (last : GrdCode × α)
    (hattempt : attempt.Ensures mapKernel Eq
      (fun ret w' => ret.1 ≠ .undefinedTable ∧ Q ret w') (some c)) :
    (retry attempt createCollectionRetryTimes last).Ensures mapKernel Eq Q (some c) := by
  refine ensures_retry (fun w => w = some c) ?_ _ last rfl ?_
  · rintro _ rfl
    refine hattempt.mono ?_
    intro ret w' ⟨hdef, hQ⟩
    rw [if_neg hdef]
    exact hQ
  · intro hzero
    exact absurd hzero (by decide)

/-- `Put` and `Delete`. -/
theorem map_write {attempt : KernelProgram (GrdCode × Unit)} {f : Collection → Collection}
    (hattempt : attempt.Ensures mapKernel Eq
      (fun ret w' => (∃ c', some c = some c' ∧ ret.1 = .ok ∧ w' = some (f c')) ∨
        (some c = none ∧ ret.1 = .undefinedTable ∧ w' = some c)) (some c)) :
    (do
      let ret ← retry attempt createCollectionRetryTimes (.ok, ())
      return transferGrdErrno ret.1 : KernelProgram ErrCode).Ensures mapKernel Eq
      (fun errCode w' => errCode = .ok ∧ w' = some (f c)) (some c) := by
  refine (map_retry (Q := fun ret w' => ret.1 = .ok ∧ w' = some (f c)) _ (hattempt.mono ?_)).bind ?_
  · rintro ret w' (⟨c', hc', hok, rfl⟩ | ⟨hnone, -⟩)
    · obtain rfl := Option.some.inj hc'
      exact ⟨by simp [hok], hok, rfl⟩
    · exact absurd hnone (by simp)
  · intro ret w' ⟨hret, hw'⟩
    exact ⟨transferGrdErrno_ok_iff.mpr hret, hw'⟩

theorem map_put (key : String) (value : Bytes) :
    (put key value).Ensures mapKernel Eq
      (fun errCode w' => errCode = .ok ∧ w' = some (c.insert key value)) (some c) := by
  refine map_write (f := fun c => c.insert key value) ?_
  rintro _ r w₂ rfl hput
  exact hput

theorem map_delete (key : String) :
    (delete key).Ensures mapKernel Eq
      (fun errCode w' => errCode = .ok ∧ w' = some (c.erase key)) (some c) := by
  refine map_write (f := fun c => c.erase key) ?_
  rintro _ r w₂ rfl hdel
  exact hdel

theorem map_get (key : String) :
    (get key).Ensures mapKernel Eq
      (fun ret w' => w' = some c ∧ ((∃ value, c.lookup key = some value ∧ ret = (.ok, value)) ∨
        (c.lookup key = none ∧ ret.1 = .noData))) (some c) := by
  refine (map_retry (Q := fun ret w' => w' = some c ∧
    ((∃ value, c.lookup key = some value ∧ ret = (.ok, value)) ∨
      (c.lookup key = none ∧ ret.1 = .noData))) _ ?_).bind ?_
  · rintro _ r w₂ rfl ⟨rfl, ⟨c', value, hc', hval, rfl⟩ | ⟨c', hc', hval, hr⟩ | ⟨hnone, -⟩⟩
    · obtain rfl := Option.some.inj hc'
      exact ⟨by simp, rfl, .inl ⟨value, hval, rfl⟩⟩
    · obtain rfl := Option.some.inj hc'
      exact ⟨by simp [hr], rfl, .inr ⟨hval, hr⟩⟩
    · exact absurd hnone (by simp)
  · rintro ret w' ⟨hw', ⟨value, hval, rfl⟩ | ⟨hval, hret⟩⟩
    · exact ⟨hw', .inl ⟨value, hval, rfl⟩⟩
    · refine ⟨hw', .inr ⟨hval, ?_⟩⟩
      show transferGrdErrno ret.1 = .noData
      rw [hret]
      rfl

theorem getAllInner_fine {resultSet : List Row}
    (hfine : ∀ row ∈ resultSet, row.sizeCode = .ok ∧ row.itemCode = .ok) :
    getAllInner resultSet = (.ok, resultSet.map (fun row => (row.key, row.value))) := by
  induction resultSet with
  | nil => rfl
  | cons row resultSet ih =>
      obtain ⟨hsize, hitem⟩ := hfine row List.mem_cons_self
      have hrest := ih (fun row' hrow' => hfine row' (List.mem_cons_of_mem _ hrow'))
      rw [getAllInner, if_neg (not_not.mpr hsize), if_neg (not_not.mpr hitem), hrest]
      rfl

theorem map_getAll :
    getAll.Ensures mapKernel Eq
      (fun ret w' => w' = some c ∧ ret.1 = .ok ∧
        ∀ key value, c.lookup key = some value ↔ (key, value) ∈ ret.2) (some c) := by
  refine (map_retry (Q := fun ret w' => w' = some c ∧ ret.1 = .ok ∧ Lists ret.2 c) _ ?_).bind ?_
  · rintro _ r w₂ rfl ⟨rfl, ⟨c', hc', hr, hlists⟩ | ⟨hnone, -⟩⟩
    · obtain rfl := Option.some.inj hc'
      exact ⟨by simp [hr], rfl, hr, hlists⟩
    · exact absurd hnone (by simp)
  · rintro ⟨ret, resultSet⟩ w' ⟨hw', rfl, hlists⟩
    show Program.Ensures _ _ _ (if GrdCode.ok = .ok then _ else _) w'
    rw [if_pos rfl, getAllInner_fine hlists.fine]
    refine ⟨hw', rfl, ?_⟩
    intro key value
    rw [hlists.mem key value]
    simp

end PreferencesDb

/-! ### The functions of the store -/

namespace EnhanceImpl

/-- A store that is open, on a collection that holds the map. -/
structure Mirrors (h : EnhanceImpl) (c : Collection) (m : PrefMap) : Prop where
  isOpen : h.isOpen = true
  decodes : Decodes c m
  truthful : Truthful h.largeCachedData c

/-- A value from the database. -/
theorem keep_value (h : EnhanceImpl) (key : String) {oriValue : Bytes} {v : PreferencesValue}
    (hitem : unmarshallingPreferenceValue oriValue = (.ok, v)) (version : Int64) :
    (h.keep key version oriValue).1 = .value v ∧
      (h.keep key version oriValue).2.isOpen = h.isOpen := by
  simp only [keep, hitem, ne_eq, not_true, if_false]
  split
  · exact ⟨rfl, rfl⟩
  · exact ⟨rfl, rfl⟩

/-- What `Get`, `GetValue` and `HasKey` find in a map. -/
def foundIn (m : PrefMap) (key : String) : Found :=
  match m.lookup key with
  | some v => .value v
  | none => .failed .noData

theorem foundIn_some {v : PreferencesValue} (hv : m.lookup key = some v) :
    foundIn m key = .value v := by
  rw [foundIn, hv]

theorem foundIn_none (hv : m.lookup key = none) : foundIn m key = .failed .noData := by
  rw [foundIn, hv]

theorem find_mirrors (hm : Mirrors h c m) (key : String) :
    (h.find key).Ensures mapKernel Eq
      (fun res w' => w' = some c ∧ res.2.isOpen = true ∧ res.1 = foundIn m key) (some c) := by
  rw [find, if_pos hm.isOpen]
  rintro _ version w₂ rfl ⟨rfl, hversion⟩
  cases version with
  | none => exact absurd hversion (by simp)
  | some version =>
      dsimp only [Program.bind]
      split
      · next v hv =>
        refine ⟨rfl, hm.isOpen, ?_⟩
        split at hv
        · exact (foundIn_some (hm.decodes.of_holds (hm.truthful key v hv))).symm
        · exact absurd hv (by simp)
      · refine (PreferencesDb.map_get key).bind ?_
        rintro ⟨errCode, oriValue⟩ w' ⟨hw', ⟨value, hval, hret⟩ | ⟨hval, hret⟩⟩
        · obtain ⟨rfl, rfl⟩ := Prod.mk.inj hret
          obtain ⟨v, hv, hitem⟩ := hm.decodes.of_lookup hval
          obtain ⟨hfound, hopen⟩ := keep_value h key hitem version
          exact ⟨hw', hopen.trans hm.isOpen, hfound.trans (foundIn_some hv).symm⟩
        · obtain rfl : errCode = .noData := hret
          refine ⟨hw', hm.isOpen, ?_⟩
          exact (foundIn_none (hm.decodes.lookup_eq_none hval)).symm

/-- The loop of `GetAllInner`, when everything decodes. -/
theorem collect_mirrors {data : List (String × Bytes)} {result cached : PrefMap}
    (hdata : ∀ key oriValue, (key, oriValue) ∈ data → ∃ v, m.lookup key = some v ∧
      unmarshallingPreferenceValue oriValue = (.ok, v))
    (hresult : ∀ key v, result.lookup key = some v → m.lookup key = some v) :
    (collect data result cached).1 = .ok ∧
      (∀ key v, (collect data result cached).2.1.lookup key = some v → m.lookup key = some v) ∧
      ∀ key, key ∈ data.map Prod.fst ∨ key ∈ result → key ∈ (collect data result cached).2.1 := by
  induction data generalizing result cached with
  | nil =>
      refine ⟨rfl, hresult, ?_⟩
      rintro key (hnil | hmem)
      · exact absurd hnil (by simp)
      · exact hmem
  | cons entry data ih =>
      obtain ⟨key, oriValue⟩ := entry
      obtain ⟨v, hv, hitem⟩ := hdata key oriValue List.mem_cons_self
      -- `emplace` keeps what is there, and what it adds is what the map has
      have hnext : ∀ k u, (if key ∈ result then result else result.insert key v).lookup k = some u →
          m.lookup k = some u := by
        intro k u hk
        split at hk
        · exact hresult k u hk
        · by_cases heq : k = key
          · rw [heq, Finmap.lookup_insert] at hk
            rw [heq, hv, hk]
          · rw [Finmap.lookup_insert_of_ne _ heq] at hk
            exact hresult k u hk
      have hmem : ∀ k, k = key ∨ k ∈ result →
          k ∈ (if key ∈ result then result else result.insert key v) := by
        intro k hk
        split
        · next hin =>
          rcases hk with rfl | hk
          · exact hin
          · exact hk
        · exact Finmap.mem_insert.mpr hk
      simp only [collect, hitem, ne_eq, not_true, if_false]
      obtain ⟨hok, hlook, hkeys⟩ := ih (fun k b hk => hdata k b (List.mem_cons_of_mem _ hk)) hnext
      refine ⟨hok, hlook, ?_⟩
      intro k hk
      refine hkeys k ?_
      rw [List.map_cons, List.mem_cons] at hk
      rcases hk with (rfl | hk) | hk
      · exact .inr (hmem k (.inl rfl))
      · exact .inl hk
      · exact .inr (hmem k (.inr hk))

/-- A listing of the collection gives the map. -/
theorem collect_listing {data : List (String × Bytes)} (hdec : Decodes c m)
    (hdata : ∀ key value, c.lookup key = some value ↔ (key, value) ∈ data) (cached : PrefMap) :
    ∃ cached', collect data ∅ cached = (.ok, m, cached') := by
  obtain ⟨hok, hlook, hkeys⟩ : (collect data ∅ cached).1 = .ok ∧ _ ∧ _ :=
    collect_mirrors (fun k b hk => hdec.of_lookup ((hdata k b).mpr hk)) (by simp)
  have hresult : (collect data ∅ cached).2.1 = m := by
    refine Finmap.ext_lookup ?_
    intro key
    cases hv : m.lookup key with
    | none =>
        cases hres : (collect data ∅ cached).2.1.lookup key with
        | none => rfl
        | some u => exact absurd ((hlook key u hres).symm.trans hv) (by simp)
    | some v =>
        obtain ⟨oriValue, hc⟩ := hdec.exists_lookup hv
        have hmem : key ∈ data.map Prod.fst := List.mem_map_of_mem ((hdata key oriValue).mp hc)
        obtain ⟨u, hu⟩ := Finmap.mem_iff.mp (hkeys key (.inl hmem))
        rw [hu, ← hlook key u hu, hv]
  refine ⟨(collect data ∅ cached).2.2, ?_⟩
  exact Prod.ext hok (Prod.ext hresult rfl)

theorem getAllInner_decodes (hopen : h.isOpen = true) (hdec : Decodes c m) :
    h.getAllInner.Ensures mapKernel Eq
      (fun res w' => w' = some c ∧ res.2.isOpen = true ∧ res.1 = (.ok, m)) (some c) := by
  rw [getAllInner, if_pos hopen]
  rintro _ version w₂ rfl ⟨rfl, hversion⟩
  cases version with
  | none => exact absurd hversion (by simp)
  | some version =>
      refine PreferencesDb.map_getAll.bind ?_
      rintro ⟨errCode, data⟩ w' ⟨hw', rfl, hdata⟩
      obtain ⟨cached, hcollect⟩ := collect_listing hdec hdata h.largeCachedData
      dsimp only
      rw [hcollect]
      exact ⟨hw', hopen, rfl⟩

/-- The functions that look up a key. -/
theorem lookup_mirrors {q : Query} (hm : Mirrors h c m) (hcheck : q.check = checkKey key)
    (hanswer : (foundIn m key).answer q = q.answer m) :
    Program.Ensures mapKernel Eq
      (fun (res : Answer × EnhanceImpl) w' => w' = some c ∧ res.2.isOpen = true ∧
        res.1 = if q.check = .ok then q.answer m else q.rejected)
      (if checkKey key ≠ .ok then pure (q.rejected, h)
        else do
          let (found, h) ← h.find key
          return (found.answer q, h)) (some c) := by
  by_cases hkey : checkKey key = .ok
  · rw [if_neg (not_not.mpr hkey), if_pos (hcheck.trans hkey)]
    refine (find_mirrors hm key).bind ?_
    rintro ⟨found, h'⟩ w' ⟨hw', hopen, rfl⟩
    exact ⟨hw', hopen, hanswer⟩
  · rw [if_pos hkey, if_neg (fun hq => hkey (hcheck.symm.trans hq))]
    exact ⟨rfl, hm.isOpen, rfl⟩

/-- **The reading functions** answer as the map says. -/
theorem query_mirrors (hm : Mirrors h c m) (q : Query) :
    (h.query q).Ensures mapKernel Eq
      (fun res w' => w' = some c ∧ res.2.isOpen = true ∧
        res.1 = if q.check = .ok then q.answer m else q.rejected) (some c) := by
  cases q with
  | get key defValue =>
      refine lookup_mirrors hm rfl ?_
      cases hv : m.lookup key <;> simp only [foundIn, Found.answer, Query.answer, hv] <;> rfl
  | getValue key defValue =>
      refine lookup_mirrors hm rfl ?_
      cases hv : m.lookup key <;> simp only [foundIn, Found.answer, Query.answer, hv]
  | hasKey key =>
      refine lookup_mirrors hm rfl ?_
      cases hv : m.lookup key <;> simp only [foundIn, Found.answer, Query.answer, hv] <;> rfl
  | getAll | getAllData | getAllDatas =>
      refine (getAllInner_decodes hm.isOpen hm.decodes).bind ?_
      rintro ⟨res, h'⟩ w' ⟨hw', hopen, rfl⟩
      exact ⟨hw', hopen, rfl⟩

theorem afterPut_isOpen (h : EnhanceImpl) (key : String) (value : PreferencesValue) (n : Nat) :
    (h.afterPut key value n).isOpen = h.isOpen := by
  rw [afterPut]
  split <;> rfl

theorem afterDelete_isOpen (h : EnhanceImpl) (key : String) :
    (h.afterDelete key).isOpen = h.isOpen := by
  rw [afterDelete]
  split <;> rfl

/-- `Put` of a value that is marshalled. -/
theorem put_marshalled {value : PreferencesValue} {oriValue : Bytes} (hopen : h.isOpen = true)
    (hkey : checkKey key = .ok) (hval : checkValue value = .ok)
    (hmarshal : marshallingPreferenceValue value = .ok oriValue) (c : Collection) :
    (h.put key value).Ensures mapKernel Eq
      (fun res w' => res.1 = .ok ∧ res.2.isOpen = true ∧ w' = some (c.insert key oriValue))
      (some c) := by
  rw [put, if_neg (not_not.mpr hkey), if_neg (not_not.mpr hval), if_pos hopen, hmarshal]
  refine (PreferencesDb.map_put key oriValue).bind ?_
  rintro errCode w' ⟨rfl, hw'⟩
  exact ⟨rfl, (afterPut_isOpen h key value _).trans hopen, hw'⟩

theorem put_mirrors {value : PreferencesValue} (hm : Mirrors h c m)
    (hop : (Op.put key value).Parcels) :
    (h.put key value).Ensures mapKernel Eq
      (fun res w' => .code res.1 = (PlainMap.call m (.put key value)).1 ∧ res.2.isOpen = true ∧
        ∃ c', w' = some c' ∧ Decodes c' (PlainMap.call m (.put key value)).2) (some c) := by
  rw [PlainMap.call]
  by_cases hkey : checkKey key = .ok
  · by_cases hval : checkValue value = .ok
    · have hcheck : (Op.put key value).check = .ok := by rw [Op.check, if_pos hkey, hval]
      obtain ⟨oriValue, hmarshal⟩ := marshalling_ok hop.1 hop.2
      have hitem := unmarshalling_marshalling hmarshal (hop.2.trans (by decide))
      rw [if_pos hcheck]
      refine (put_marshalled hm.isOpen hkey hval hmarshal c).mono ?_
      intro res w' hput
      obtain ⟨hres, hopen, hw'⟩ := hput
      exact ⟨by rw [hres], hopen, _, hw', hm.decodes.insert hitem⟩
    · have hcheck : (Op.put key value).check = checkValue value := by rw [Op.check, if_pos hkey]
      rw [put, if_neg (not_not.mpr hkey), if_pos hval, hcheck, if_neg hval]
      exact ⟨rfl, hm.isOpen, c, rfl, hm.decodes⟩
  · have hcheck : (Op.put key value).check = checkKey key := by rw [Op.check, if_neg hkey]
    rw [put, if_pos hkey, hcheck, if_neg hkey]
    exact ⟨rfl, hm.isOpen, c, rfl, hm.decodes⟩

theorem delete_mirrors (hm : Mirrors h c m) (key : String) :
    (h.delete key).Ensures mapKernel Eq
      (fun res w' => .code res.1 = (PlainMap.call m (.delete key)).1 ∧ res.2.isOpen = true ∧
        ∃ c', w' = some c' ∧ Decodes c' (PlainMap.call m (.delete key)).2) (some c) := by
  rw [delete, PlainMap.call]
  by_cases hkey : checkKey key = .ok
  · rw [if_neg (not_not.mpr hkey), if_pos hm.isOpen, if_pos hkey]
    refine (PreferencesDb.map_delete key).bind ?_
    rintro errCode w' ⟨rfl, hw'⟩
    exact ⟨rfl, (afterDelete_isOpen h key).trans hm.isOpen, _, hw', hm.decodes.erase⟩
  · rw [if_pos hkey, if_neg hkey]
    exact ⟨rfl, hm.isOpen, c, rfl, hm.decodes⟩

theorem clear_mirrors (hm : Mirrors h c m) :
    h.clear.Ensures mapKernel Eq
      (fun res w' => res.1 = .ok ∧ res.2.isOpen = true ∧ w' = some ∅) (some c) := by
  rw [clear, if_pos hm.isOpen]
  refine (getAllInner_decodes hm.isOpen hm.decodes).bind ?_
  rintro ⟨res, h'⟩ w' ⟨rfl, hopen, rfl⟩
  dsimp only
  rw [if_neg (by simp)]
  rintro _ r w₂ rfl (⟨-, rfl, rfl⟩ | ⟨hnone, -⟩)
  · rintro _ r w₃ rfl ⟨rfl, rfl⟩
    exact ⟨rfl, hopen, rfl⟩
  · exact absurd hnone (by simp)

/-- **One call** does to the store what it does to the map. -/
theorem call_mirrors (hm : Mirrors h c m) {op : Op} (hop : op.Parcels) :
    (h.call op).Ensures mapKernel Eq
      (fun res w' => res.1 = (PlainMap.call m op).1 ∧ res.2.isOpen = true ∧
        ∃ c', w' = some c' ∧ Decodes c' (PlainMap.call m op).2) (some c) := by
  cases op with
  | put key value => exact (put_mirrors hm hop).bind (fun _ _ hres => hres)
  | delete key => exact (delete_mirrors hm key).bind (fun _ _ hres => hres)
  | clear =>
      refine (clear_mirrors hm).bind ?_
      rintro ⟨errCode, h'⟩ w' ⟨rfl, hopen, rfl⟩
      exact ⟨rfl, hopen, ∅, rfl, decodes_empty⟩
  | query q =>
      refine (query_mirrors hm q).bind ?_
      rintro ⟨answer, h'⟩ w' ⟨hw', hopen, rfl⟩
      rw [PlainMap.call]
      split
      · exact ⟨rfl, hopen, c, hw', hm.decodes⟩
      · exact ⟨rfl, hopen, c, hw', hm.decodes⟩

/-! ### Runs -/

/-- Nothing fails, so every call is one after which the store can be trusted. -/
theorem orderly_of_map {s s' : Session} {l : SessionEv} (hop : l.1.Parcels)
    (hstep : Step mapKernel s l s') : Orderly s l := by
  refine ⟨?_, ?_⟩
  · intro key value hput
    rw [hput] at hop
    exact hop.2.trans (by decide)
  · intro _ pre code htr
    have hcreate : ∀ ev ∈ l.2.1, ∀ code : GrdCode, ev = ⟨.createCollection, code⟩ → code = .ok := by
      refine Exec.forall_event ?_ hstep
      rintro call w r w' hs code heq
      cases heq
      exact hs.1
    refine .inl (hcreate ⟨.createCollection, code⟩ ?_ code rfl)
    rw [htr]
    simp

/-- The store has the map in its collection. -/
def Refines (s : Session) (m : PrefMap) : Prop := ∃ c, s.2 = some c ∧ Mirrors s.1 c m

theorem Refines.step {s s' : Session} {l : SessionEv} (hs : Refines s m) (hop : l.1.Parcels)
    (hstep : Step mapKernel s l s') :
    l.2.2 = (PlainMap.call m l.1).1 ∧ Refines s' (PlainMap.call m l.1).2 := by
  obtain ⟨h, w⟩ := s
  obtain ⟨c, rfl, hm⟩ : ∃ c, w = some c ∧ Mirrors h c m := hs
  obtain ⟨hreply, hopen, c', hw', hdec⟩ := hstep.ensures (call_mirrors hm hop)
  have htruthful := step_truthful (s := (h, some c)) hm.truthful
    ⟨hstep.sem_mono mapKernel_faulty, orderly_of_map hop hstep⟩
  rw [hw'] at htruthful
  exact ⟨hreply, c', hw', hopen, hdec, htruthful⟩

theorem Refines.run {s s' : Session} {ls : List SessionEv} (hs : Refines s m)
    (hrun : Run (Step mapKernel) s ls s') (hops : ∀ l ∈ ls, l.1.Parcels) :
    ls.map (fun l => l.2.2) = (respond PlainMap.call m (ls.map Prod.fst)).1 := by
  induction hrun generalizing m with
  | nil => rfl
  | @cons s s₁ s' l ls hstep _ ih =>
      obtain ⟨hreply, hnext⟩ := hs.step (hops l List.mem_cons_self) hstep
      have hrest := ih hnext (fun l' hl' => hops l' (List.mem_cons_of_mem _ hl'))
      rw [List.map_cons, List.map_cons, respond, hreply, hrest]

/-- Every collection can be listed. -/
theorem exists_lists (c : Collection) : ∃ resultSet, Lists resultSet c := by
  refine Finmap.induction_on c ?_
  intro a
  refine ⟨a.entries.map (fun e => ⟨e.1, e.2, .ok, .ok⟩), ?_, ?_, ?_⟩
  · rw [List.map_map]
    exact a.nodupKeys
  · intro row hrow
    obtain ⟨e, -, rfl⟩ := List.mem_map.mp hrow
    exact ⟨rfl, rfl⟩
  · intro key value
    refine (AList.mem_lookup_iff (s := a)).trans ?_
    constructor
    · intro hmem
      exact ⟨_, List.mem_map_of_mem hmem, rfl, rfl⟩
    · rintro ⟨row, hrow, rfl, rfl⟩
      obtain ⟨e, he, rfl⟩ := List.mem_map.mp hrow
      exact he

/-- A kernel that works answers every call. -/
theorem mapKernel_total (call : KernelCall) (w : Option Collection) :
    ∃ r w', mapKernel call w r w' := by
  cases call with
  | kvPut key value =>
      cases w with
      | none => exact ⟨_, _, .inr ⟨rfl, rfl, rfl⟩⟩
      | some c => exact ⟨_, _, .inl ⟨c, rfl, rfl, rfl⟩⟩
  | kvDel key =>
      cases w with
      | none => exact ⟨_, _, .inr ⟨rfl, rfl, rfl⟩⟩
      | some c => exact ⟨_, _, .inl ⟨c, rfl, rfl, rfl⟩⟩
  | kvGet key =>
      cases w with
      | none => exact ⟨(.undefinedTable, []), none, rfl, .inr (.inr ⟨rfl, rfl⟩)⟩
      | some c =>
          cases hval : c.lookup key with
          | none => exact ⟨(.noData, []), some c, rfl, .inr (.inl ⟨c, rfl, hval, rfl⟩)⟩
          | some value => exact ⟨(.ok, value), some c, rfl, .inl ⟨c, value, rfl, hval, rfl⟩⟩
  | kvFilter =>
      cases w with
      | none => exact ⟨(.undefinedTable, []), none, rfl, .inr ⟨rfl, rfl⟩⟩
      | some c =>
          obtain ⟨resultSet, hlists⟩ := exists_lists c
          exact ⟨(.ok, resultSet), some c, rfl, .inl ⟨c, rfl, rfl, hlists⟩⟩
  | createCollection => exact ⟨_, _, rfl, rfl⟩
  | dropCollection =>
      cases w with
      | none => exact ⟨_, _, .inr ⟨rfl, rfl, rfl⟩⟩
      | some c => exact ⟨_, _, .inl ⟨rfl, rfl, rfl⟩⟩
  | getConfig => exact ⟨some 0, w, rfl, rfl⟩

/-- Every sequence of calls has a run. -/
theorem exists_run (ops : List Op) (s : Session) :
    ∃ ls s', Run (Step mapKernel) s ls s' ∧ ls.map Prod.fst = ops := by
  induction ops generalizing s with
  | nil => exact ⟨[], s, .nil, rfl⟩
  | cons op ops ih =>
      obtain ⟨tr, ⟨reply, h'⟩, w', hexec⟩ := exists_exec mapKernel_total (s.1.call op) s.2
      have hstep : Step mapKernel s (op, tr, reply) (h', w') := hexec
      obtain ⟨ls, s', hrun, hops⟩ := ih (h', w')
      refine ⟨(op, tr, reply) :: ls, s', .cons hstep hrun, ?_⟩
      rw [List.map_cons, hops]

/-- **A store refines a plain map.** Every sequence of calls on a new store, on a collection with
the encodings of a map, comes to its end, and whatever the data versions are, the replies are
those of the map. -/
theorem replies_plain (hdec : Decodes c m) (ops : List Op) (hops : ∀ op ∈ ops, op.Parcels) :
    (∃ ls s, Run (Step mapKernel) (initial, some c) ls s ∧ ls.map Prod.fst = ops) ∧
      ∀ ls s, Run (Step mapKernel) (initial, some c) ls s → ls.map Prod.fst = ops →
        ls.map (fun l => l.2.2) = (respond PlainMap.call m ops).1 := by
  refine ⟨exists_run ops _, ?_⟩
  intro ls s hrun hls
  have hstart : Refines (initial, some c) m := ⟨c, rfl, rfl, hdec, truthful_empty c⟩
  have hall : ∀ l ∈ ls, l.1.Parcels := by
    intro l hl
    refine hops l.1 ?_
    rw [← hls]
    exact List.mem_map_of_mem hl
  rw [hstart.run hrun hall, hls]

/-- A value that is kept is replaced by one that is not, and the other way round. -/
theorem replies_plain_threshold :
    ∃ ls s, Run (Step mapKernel) (initial, some ∅) ls s ∧
      ls.map (fun l => l.2.2) =
        [.code .ok, .code .ok, .answer (.value (.int 1)), .code .ok,
          .answer (.codeValue .ok largeValue), .code .ok, .answer (.bool false)] := by
  have hlarge : getTypeIndex largeValue ≠ 0 ∧ parcelSize largeValue < 2 ^ 31 := by
    rw [parcelSize_largeValue]
    exact ⟨by simp [largeValue, getTypeIndex], by decide⟩
  have hops : ∀ op ∈ [Op.put "k" largeValue, .put "k" (.int 1), .query (.get "k" (.int 0)),
      .put "k" largeValue, .query (.getValue "k" (.int 0)), .clear, .query (.hasKey "k")],
      op.Parcels := by
    intro op hop
    simp only [List.mem_cons, List.not_mem_nil, or_false] at hop
    rcases hop with rfl | rfl | rfl | rfl | rfl | rfl | rfl
    · exact hlarge
    · exact ⟨by decide, by decide⟩
    · trivial
    · exact hlarge
    all_goals trivial
  obtain ⟨⟨ls, s, hrun, hls⟩, hplain⟩ := replies_plain decodes_empty _ hops
  exact ⟨ls, s, hrun, (hplain ls s hrun hls).trans rfl⟩

end EnhanceImpl

end NativePreferences
