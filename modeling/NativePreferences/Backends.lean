import NativePreferences.Enhance.Refinement
import NativePreferences.Xml.Reopen

/-!
# NativePreferences.Backends

**The two backends compared.** The same `Put` on an XML store and on a store with the enhanced
backend, then a `FlushSync` of the former, and a `Get` of a new instance of each.

The enhanced backend copies a value byte by byte, and refuses what it does not know
(`MarshallingPreferenceValue`); the XML store takes every value, and writes texts. So they differ
where the former refuses, and where texts are not enough: for characters that a document cannot
hold, and for numbers that have more than six decimals (`agree_iff_portable`).
-/

namespace NativePreferences

open Lib

/-- An XML store with its file, and a store with the enhanced backend with its collection. -/
structure Backends where
  file : Option XmlNode
  xml : Store
  enhanced : EnhanceImpl
  collection : Collection

/-- `Put` returns the same code on both, and when both are opened again, the XML store after a
`FlushSync`, `Get` returns equal values. -/
structure Backends.Agree (b : Backends) (x : Extraction) (reparse : XmlNode → Option XmlNode)
    (o : Weather) (key : String) (value : PreferencesValue) : Prop where
  code : ∀ tr res w, Exec mapKernel (b.enhanced.put key value) (some b.collection) tr res w →
    (b.xml.put o key value).1 = res.1
  reopens : ∃ file disk, (b.xml.put o key value).2.Saves reparse o b.file file ∧
    readDocument x file = some disk
  get : ∀ tr res w, Exec mapKernel (b.enhanced.put key value) (some b.collection) tr res w →
    ∀ file disk, (b.xml.put o key value).2.Saves reparse o b.file file →
      readDocument x file = some disk →
    ∀ (o' : Weather) dirAccessible defValue, o'.readable = true →
    ∀ tr' res' w', Exec mapKernel (EnhanceImpl.initial.query (.get key defValue)) w tr' res' w' →
      (((Store.initial disk).loadFromDisk o' dirAccessible).query o' (.get key defValue)).1.Agrees
        res'.1

/-- The enhanced backend knows the kind of the value and can copy it, and a document can hold it,
unless the XML store has nothing to write. -/
structure Backends.Portable (b : Backends) (key : String) (value : PreferencesValue) : Prop where
  known : getTypeIndex value ≠ 0
  copied : ∀ n ∈ value.copies, n ≤ secureMemMaxLen
  held : b.xml.Keeps key value ∨
    (XmlText key ∧ (∀ t ∈ value.texts, XmlText t) ∧ value.Decimal)

variable {x : Extraction} {reparse : XmlNode → Option XmlNode} {o : Weather} {b : Backends}
variable {m : PrefMap} {h : EnhanceImpl} {c : Collection} {key : String} {value : PreferencesValue}

/-! ### The enhanced backend -/

/-- `Get` of a new instance after a `Put`. -/
theorem EnhanceImpl.get_put_reopened (hm : h.Mirrors c m) (hkey : checkKey key = .ok)
    (hvalue : checkValue value = .ok) (hsize : parcelSize value < 2 ^ 64) {oriValue : Bytes}
    (hmarshal : marshallingPreferenceValue value = .ok oriValue)
    {tr : List (Event KernelAnswer)} {res : ErrCode × EnhanceImpl} {w : Option Collection}
    (hput : Exec mapKernel (h.put key value) (some c) tr res w) :
    res.1 = .ok ∧ ∀ defValue tr' res' w',
      Exec mapKernel (EnhanceImpl.initial.query (.get key defValue)) w tr' res' w' →
        res'.1 = .value value := by
  obtain ⟨hres, -, rfl⟩ := hput.ensures (put_marshalled hm.isOpen hkey hvalue hmarshal c)
  refine ⟨hres, ?_⟩
  intro defValue tr' res' w' hget
  have hitem := unmarshalling_marshalling hmarshal hsize
  have hnew : initial.Mirrors (c.insert key oriValue) (m.insert key value) :=
    ⟨rfl, hm.decodes.insert hitem, truthful_empty _⟩
  obtain ⟨-, -, hanswer⟩ := hget.ensures (query_mirrors hnew _)
  have hcheck : (Query.get key defValue).check = .ok := hkey
  rw [hanswer, if_pos hcheck, Query.answer, Finmap.lookup_insert]
  rfl

/-- A `Put` whose value is not marshalled fails. -/
theorem EnhanceImpl.put_not_marshalled (hopen : h.isOpen = true) (hkey : checkKey key = .ok)
    (hvalue : checkValue value = .ok) {errCode : ErrCode}
    (hmarshal : marshallingPreferenceValue value = .error errCode)
    {tr : List (Event KernelAnswer)} {res : ErrCode × EnhanceImpl} {w : Option Collection}
    (hput : Exec mapKernel (h.put key value) (some c) tr res w) : res.1 ≠ .ok := by
  rw [put, if_neg (not_not.mpr hkey), if_neg (not_not.mpr hvalue), if_pos hopen, hmarshal] at hput
  obtain ⟨-, rfl, -⟩ := exec_ret_iff.mp hput
  exact marshalling_error hmarshal

/-! ### Both -/

/-- What the enhanced backend copies, `Base64Helper` can encode. -/
theorem length_of_copied (hcopied : ∀ n ∈ value.copies, n ≤ secureMemMaxLen) (bytes : Bytes)
    (hbytes : value = .uint8Array bytes) : bytes.length < 3 * 2 ^ 30 := by
  rw [hbytes] at hcopied
  exact lt_of_le_of_lt (hcopied _ List.mem_cons_self) (by decide)

theorem ne_monostate_of_known (hknown : getTypeIndex value ≠ 0) : value ≠ .monostate := by
  rintro rfl
  exact hknown rfl

section Comparison

variable (hlib : Reparses reparse) (hxml : b.xml.AtRest x b.file o)
  (henhanced : b.enhanced.Mirrors b.collection m) (hkey : checkKey key = .ok)
  (hvalue : checkValue value = .ok) (hfinite : value.Finite) (hsize : parcelSize value < 2 ^ 32)
  (hothers : ∀ k v, b.xml.cache.visible.lookup k = some v → k ≠ key → Persistable k v)

include hlib hxml henhanced hkey hvalue hfinite hsize hothers

theorem Backends.Portable.agree (hport : b.Portable key value) : b.Agree x reparse o key value := by
  obtain ⟨oriValue, hmarshal⟩ := marshalling_ok_iff.mpr ⟨hport.known, hport.copied⟩
  have hmono := ne_monostate_of_known hport.known
  have hbytes := length_of_copied hport.copied
  have hput := hxml.put hkey hvalue
  have hdb : parcelSize value < 2 ^ 64 := hsize.trans (by decide)
  refine ⟨?_, ?_, ?_⟩
  · intro tr res w hexec
    rw [hput, (EnhanceImpl.get_put_reopened henhanced hkey hvalue hdb hmarshal hexec).1]
  · rw [hput]
    obtain ⟨file, hsaves⟩ := hxml.exists_saves reparse key value
    obtain ⟨disk, hdisk, -⟩ := hxml.reopen_iff hlib hfinite hmono hbytes hothers hsaves
    exact ⟨file, disk, hsaves, hdisk⟩
  · intro tr res w hexec file disk hsaves hread o' dirAccessible defValue hreadable tr' res' w' hget
    rw [hput] at hsaves
    obtain ⟨disk', hdisk', hiff⟩ := hxml.reopen_iff hlib hfinite hmono hbytes hothers hsaves
    obtain rfl := Option.some.inj (hread.symm.trans hdisk')
    obtain ⟨u, hu, heq⟩ := hiff.mpr hport.held
    have hanswer := (EnhanceImpl.get_put_reopened henhanced hkey hvalue hdb hmarshal hexec).2
      defValue tr' res' w' hget
    rw [Store.get_reopened hreadable dirAccessible hkey, hanswer, hu]
    exact heq

theorem Backends.Agree.portable (hagree : b.Agree x reparse o key value) :
    b.Portable key value := by
  obtain ⟨tr, res, w, hexec⟩ := exists_exec EnhanceImpl.mapKernel_total
    (b.enhanced.put key value) (some b.collection)
  have hput := hxml.put hkey hvalue
  have hcode := hagree.code tr res w hexec
  rw [hput] at hcode
  cases hmarshal : marshallingPreferenceValue value with
  | error errCode =>
      exact absurd hcode.symm
        (EnhanceImpl.put_not_marshalled henhanced.isOpen hkey hvalue hmarshal hexec)
  | ok oriValue =>
      obtain ⟨hknown, hcopied⟩ := marshalling_ok_iff.mp ⟨oriValue, hmarshal⟩
      refine ⟨hknown, hcopied, ?_⟩
      have hmono := ne_monostate_of_known hknown
      obtain ⟨file, disk, hsaves, hread⟩ := hagree.reopens
      have hget := hagree.get tr res w hexec file disk hsaves hread ⟨true, true, true⟩ true
        .monostate rfl
      obtain ⟨tr', res', w', hexec'⟩ := exists_exec EnhanceImpl.mapKernel_total
        (EnhanceImpl.initial.query (.get key .monostate)) w
      have hagrees := hget tr' res' w' hexec'
      rw [Store.get_reopened rfl true hkey, (EnhanceImpl.get_put_reopened henhanced hkey hvalue
        (hsize.trans (by decide)) hmarshal hexec).2 _ _ _ _ hexec'] at hagrees
      rw [hput] at hsaves
      obtain ⟨disk', hdisk', hiff⟩ :=
        hxml.reopen_iff hlib hfinite hmono (length_of_copied hcopied) hothers hsaves
      obtain rfl := Option.some.inj (hread.symm.trans hdisk')
      refine hiff.mp ?_
      -- the default is not the value, so `Get` has found something
      cases hlook : (disk.getD ∅).lookup key with
      | none =>
          rw [hlook] at hagrees
          exact absurd (PreferencesValue.eq_of_exact hagrees (.inl rfl)).symm hmono
      | some u =>
          rw [hlook] at hagrees
          exact ⟨u, rfl, hagrees⟩

end Comparison

/-- **When the backends agree.** For a key and a value that are admitted, whose numbers are finite
and which takes less than `2 ^ 32` bytes, on stores at rest of which the rest of the XML one can be
held by a document. -/
theorem agree_iff_portable (hlib : Reparses reparse) (hxml : b.xml.AtRest x b.file o)
    (henhanced : b.enhanced.Mirrors b.collection m) (hkey : checkKey key = .ok)
    (hvalue : checkValue value = .ok) (hfinite : value.Finite) (hsize : parcelSize value < 2 ^ 32)
    (hothers : ∀ k v, b.xml.cache.visible.lookup k = some v → k ≠ key → Persistable k v) :
    b.Agree x reparse o key value ↔ b.Portable key value :=
  ⟨Backends.Agree.portable hlib hxml henhanced hkey hvalue hfinite hsize hothers,
    Backends.Portable.agree hlib hxml henhanced hkey hvalue hfinite hsize hothers⟩

/-! ### New stores -/

/-- A parser that accepts what is well-formed. -/
def wellFormed (doc : XmlNode) : Option XmlNode := if doc.Valid then some doc else none

theorem reparses_wellFormed : Reparses wellFormed :=
  ⟨fun _ _ _ hdoc => if_pos hdoc, fun _ hdoc => if_neg hdoc⟩

/-- A new store of each kind, with no file and an empty collection. -/
def newBackends : Backends :=
  { file := none
    xml := (Store.initial none).loadFromDisk ⟨false, true, true⟩ true
    enhanced := .initial
    collection := ∅ }

theorem newBackends_atRest (x : Extraction) :
    newBackends.xml.AtRest x newBackends.file ⟨false, true, true⟩ := by
  show ((Store.initial none).loadFromDisk ⟨false, true, true⟩ true).AtRest x none
    ⟨false, true, true⟩
  exact Store.AtRest.initial rfl rfl (fun _ => rfl) rfl

theorem newBackends_mirrors : newBackends.enhanced.Mirrors newBackends.collection ∅ :=
  ⟨rfl, decodes_empty, truthful_empty _⟩

theorem newBackends_persistable (key : String) :
    ∀ k v, newBackends.xml.cache.visible.lookup k = some v → k ≠ key → Persistable k v := by
  intro k v hv
  exact absurd (hv.symm.trans (Finmap.lookup_empty k)) (by simp)

/-- `0.1f`. -/
def tenth : UInt32 := 0x3dcccccd

theorem finite_tenth : (PreferencesValue.float tenth).Finite := by
  show Format.magnitude .binary32 tenth.toNat < Format.inf .binary32
  decide

/-- It is the nearest number to a decimal with one digit. -/
theorem sixDecimals_tenth : SixDecimals .binary32 tenth.toNat := by
  refine ⟨100000, (Format.nearest_eq_iff (by decide) (by decide) (by decide)).mpr ?_⟩
  exact ⟨by decide, by decide, by decide⟩

/-- They agree on `0.1f`, whose text is `0.100000`. -/
theorem agree_iff_portable_float :
    newBackends.Agree ⟨0, fun _ => 0, fun _ => 0⟩ wellFormed ⟨false, true, true⟩ "k"
      (.float tenth) :=
  (agree_iff_portable reparses_wellFormed (newBackends_atRest _) newBackends_mirrors (by decide)
    (by decide) finite_tenth (by decide) (newBackends_persistable _)).mpr
    ⟨by decide, by decide, .inr ⟨xmlText_k, by simp [PreferencesValue.texts], sixDecimals_tenth⟩⟩

/-- They do not on a `std::vector<int>`, which one accepts and the other refuses. -/
theorem not_agree_intArray :
    checkKey "k" = .ok ∧ checkValue (.intArray [1]) = .ok ∧
      ¬ newBackends.Agree ⟨0, fun _ => 0, fun _ => 0⟩ wellFormed ⟨false, true, true⟩ "k"
        (.intArray [1]) := by
  refine ⟨by decide, by decide, ?_⟩
  intro hagree
  have hfinite : (PreferencesValue.intArray [1]).Finite := trivial
  have hport := hagree.portable reparses_wellFormed (newBackends_atRest _) newBackends_mirrors
    (by decide) (by decide) hfinite (by decide) (newBackends_persistable _)
  exact hport.known rfl

end NativePreferences
