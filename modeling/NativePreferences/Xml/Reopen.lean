import NativePreferences.Impl.PlainMap
import NativePreferences.Xml.Decimals

/-!
# NativePreferences.Xml.Reopen

**What a new instance of an XML store shows after `FlushSync`.** `Impl.Store` takes the file for the
map that it holds. Here the map goes through a document: `WriteSettingXml` makes one of it, libxml2
writes the document to the file and parses the file later, and `ReadSettingXml` makes a map of what
it gets (`Store.Saves`, `readDocument`).

libxml2 is a parameter, `reparse`. What a document may hold it brings back, and a file with other
characters in it is not well-formed, so there is no document at all (`Reparses`).
-/

namespace NativePreferences

open Lib

variable {x : Extraction} {key : String} {value : PreferencesValue}

/-! ### Documents -/

namespace XmlNode

mutual

/-- The values of attributes and the texts in a document. -/
def strings : XmlNode → List String
  | .element _ props children => props.map Prod.snd ++ stringsOf children
  | .text content => [content]

@[inherit_doc strings]
def stringsOf : List XmlNode → List String
  | [] => []
  | node :: nodes => node.strings ++ stringsOf nodes

end

/-- The document has only characters in it that a document may hold. -/
def Valid (doc : XmlNode) : Prop := ∀ s ∈ doc.strings, XmlText s

end XmlNode

instance : DecidablePred XmlChar := fun c =>
  inferInstanceAs (Decidable (c = '\t' ∨ c = '\n' ∨ c = '\r' ∨ _ ∨ _))

instance : DecidablePred XmlText := fun s => inferInstanceAs (Decidable (∀ c ∈ s.toList, XmlChar c))

instance : DecidablePred XmlNode.Valid := fun doc =>
  inferInstanceAs (Decidable (∀ s ∈ doc.strings, XmlText s))

/-- What is relied on of libxml2, from `xmlTextWriter` to `xmlReadFile`. -/
structure Reparses (reparse : XmlNode → Option XmlNode) : Prop where
  faithful : ∀ entries doc, writeSettingXml entries = some doc → doc.Valid → reparse doc = some doc
  strict : ∀ doc, ¬ doc.Valid → reparse doc = none

/-- `ReadSettingXml` of a file with this document, or with none. There is no result if it does not
return, and no map if it returns `false`. -/
def readDocument (x : Extraction) : Option XmlNode → Option (Option PrefMap)
  | none => some none
  | some doc => (readSettingXml x doc).map (fun res => if res.1 then some res.2 else none)

/-! ### The texts in a document -/

theorem xmlText_printable {s : String} (hs : Printable s) : XmlText s := by
  intro c hc
  obtain ⟨hlo, hhi⟩ := hs c hc
  exact .inr (.inr (.inr (.inl ⟨hlo, by omega⟩)))

theorem stringsOf_append (nodes nodes' : List XmlNode) :
    XmlNode.stringsOf (nodes ++ nodes') = XmlNode.stringsOf nodes ++ XmlNode.stringsOf nodes' := by
  induction nodes with
  | nil => rfl
  | cons node nodes ih =>
      rw [List.cons_append, XmlNode.stringsOf, XmlNode.stringsOf, ih, List.append_assoc]

theorem valid_textNodes (content : String) :
    (∀ s ∈ XmlNode.stringsOf (XmlWriter.textNodes content), XmlText s) ↔ XmlText content := by
  rw [XmlWriter.textNodes]
  split
  · next hempty =>
    rw [hempty]
    simp [XmlNode.stringsOf, XmlText]
  · simp [XmlNode.stringsOf, XmlNode.strings]

theorem valid_childNode (childrenTag child : String) :
    (∀ s ∈ (childNode childrenTag child).strings, XmlText s) ↔ XmlText (cStr child) := by
  rw [childNode]
  split
  · rw [XmlNode.strings, List.map_nil, List.nil_append, valid_textNodes]
  · simp [XmlNode.strings, XmlNode.stringsOf]

theorem valid_childNodes (childrenTag : String) (arrayValues : List String) :
    (∀ s ∈ XmlNode.stringsOf (arrayValues.map (childNode childrenTag)), XmlText s) ↔
      ∀ child ∈ arrayValues, XmlText (cStr child) := by
  induction arrayValues with
  | nil => simp [XmlNode.stringsOf]
  | cons child arrayValues ih =>
      rw [List.map_cons, XmlNode.stringsOf, List.forall_mem_append, valid_childNode, ih,
        List.forall_mem_cons]

section Visitor

variable {visitor : ValueVisitor}

theorem valid_string (key : String) (htag : visitor.typeTag ∈ ["string", "uint8Array", "object"]) :
    (∀ s ∈ XmlNode.stringsOf (visitor.nodes key), XmlText s) ↔
      XmlText (cStr key) ∧ XmlText (cStr visitor.valueStr) := by
  have htext := valid_textNodes (cStr visitor.valueStr)
  rw [ValueVisitor.nodes, if_pos htag, XmlNode.stringsOf, XmlNode.strings, XmlNode.stringsOf,
    List.append_nil, List.forall_mem_append, htext]
  simp

theorem valid_primitive (key : String)
    (htag : visitor.typeTag ∈ ["int", "long", "float", "bool", "double"]) :
    (∀ s ∈ XmlNode.stringsOf (visitor.nodes key), XmlText s) ↔
      XmlText (cStr key) ∧ XmlText (cStr visitor.valueStr) := by
  have htables : ∀ tag ∈ ["int", "long", "float", "bool", "double"],
      tag ∉ ["string", "uint8Array", "object"] := by
    decide
  rw [ValueVisitor.nodes, if_neg (htables _ htag), if_pos htag]
  simp [XmlNode.stringsOf, XmlNode.strings]

theorem valid_array (key : String)
    (htag : visitor.typeTag ∈
      ["intArray", "int64Array", "doubleArray", "stringArray", "boolArray", "BigInt"]) :
    (∀ s ∈ XmlNode.stringsOf (visitor.nodes key), XmlText s) ↔
      XmlText (cStr key) ∧ ∀ child ∈ visitor.arrayValues, XmlText (cStr child) := by
  have htables : ∀ tag ∈
        ["intArray", "int64Array", "doubleArray", "stringArray", "boolArray", "BigInt"],
      tag ∉ ["string", "uint8Array", "object"] ∧
        tag ∉ ["int", "long", "float", "bool", "double"] := by
    decide
  obtain ⟨hstring, hprimitive⟩ := htables _ htag
  rw [ValueVisitor.nodes, if_neg hstring, if_neg hprimitive, if_pos htag, XmlNode.stringsOf,
    XmlNode.strings, XmlNode.stringsOf, List.append_nil, List.forall_mem_append, valid_childNodes]
  simp

end Visitor

theorem xmlText_cStr {s : String} (hs : Printable s) : XmlText (cStr s) := by
  rw [cStr_printable hs]
  exact xmlText_printable hs

theorem xmlText_boolText (v : Bool) : XmlText (cStr (boolText v)) := by
  refine xmlText_cStr ?_
  cases v with
  | true => simp [Printable, boolText]
  | false => simp [Printable, boolText]

/-- The texts in the nodes of an entry. Those of numbers and byte arrays are harmless. -/
theorem valid_visit (key : String) (hvalue : value ≠ .monostate) :
    (∀ s ∈ XmlNode.stringsOf ((ValueVisitor.visit value).nodes key), XmlText s) ↔
      XmlText (cStr key) ∧ ∀ t ∈ value.texts, XmlText (cStr t) := by
  have hnone : ∀ {P : Prop}, P → (XmlText (cStr key) ∧ P ↔
      XmlText (cStr key) ∧ ∀ t ∈ ([] : List String), XmlText (cStr t)) := by
    intro P hP
    simp [hP]
  cases value with
  | monostate => exact absurd rfl hvalue
  | string | object =>
      rw [valid_string key (by simp [ValueVisitor.visit])]
      simp [ValueVisitor.visit, PreferencesValue.texts]
  | uint8Array v =>
      rw [valid_string key (by simp [ValueVisitor.visit])]
      exact hnone (xmlText_cStr (Base64Helper.printable_encode v))
  | int v =>
      rw [valid_primitive key (by simp [ValueVisitor.visit])]
      exact hnone (xmlText_cStr (printable_toString _))
  | int64 v =>
      rw [valid_primitive key (by simp [ValueVisitor.visit])]
      exact hnone (xmlText_cStr (printable_toString _))
  | float v =>
      rw [valid_primitive key (by simp [ValueVisitor.visit])]
      exact hnone (xmlText_cStr (Format.printable_toText _ _ _))
  | double v =>
      rw [valid_primitive key (by simp [ValueVisitor.visit])]
      exact hnone (xmlText_cStr (Format.printable_toText _ _ _))
  | bool v =>
      rw [valid_primitive key (by simp [ValueVisitor.visit])]
      exact hnone (xmlText_boolText v)
  | stringArray v => rw [valid_array key (by simp [ValueVisitor.visit])]; rfl
  | boolArray v =>
      rw [valid_array key (by simp [ValueVisitor.visit])]
      exact hnone (List.forall_mem_map.mpr (fun b _ => xmlText_boolText b))
  | doubleArray v =>
      rw [valid_array key (by simp [ValueVisitor.visit])]
      exact hnone
        (List.forall_mem_map.mpr (fun _ _ => xmlText_cStr (Format.printable_toText _ _ _)))
  | intArray v =>
      rw [valid_array key (by simp [ValueVisitor.visit])]
      exact hnone (List.forall_mem_map.mpr (fun _ _ => xmlText_cStr (printable_toString _)))
  | int64Array v =>
      rw [valid_array key (by simp [ValueVisitor.visit])]
      exact hnone (List.forall_mem_map.mpr (fun _ _ => xmlText_cStr (printable_toString _)))
  | bigInt v =>
      rw [valid_array key (by simp [ValueVisitor.visit])]
      refine hnone (List.forall_mem_append.mpr ⟨?_, ?_⟩)
      · exact List.forall_mem_map.mpr (fun _ _ => xmlText_cStr (printable_repr _))
      · exact List.forall_mem_singleton.mpr (xmlText_cStr (printable_repr _))

/-- The entry does not keep the document from being parsed. -/
def Writable (entry : String × PreferencesValue) : Prop :=
  entry.2 ≠ .monostate → XmlText (cStr entry.1) ∧ ∀ t ∈ entry.2.texts, XmlText (cStr t)

theorem valid_entryNodes (entries : List (String × PreferencesValue)) :
    (∀ s ∈ XmlNode.stringsOf (entryNodes entries), XmlText s) ↔
      ∀ entry ∈ entries, Writable entry := by
  induction entries with
  | nil => simp [entryNodes, XmlNode.stringsOf]
  | cons entry entries ih =>
      rw [entryNodes, List.flatMap_cons, ← entryNodes, stringsOf_append, List.forall_mem_append, ih,
        List.forall_mem_cons]
      refine and_congr_left (fun _ => ?_)
      by_cases hvalue : entry.2 = .monostate
      · simp [Writable, hvalue, ValueVisitor.visit, ValueVisitor.nodes, XmlNode.stringsOf]
      · rw [valid_visit entry.1 hvalue, Writable]
        simp [hvalue]

/-- **What is read from the file** that a list of entries was written to. -/
theorem readDocument_reparse {reparse : XmlNode → Option XmlNode} (hlib : Reparses reparse)
    {entries : List (String × PreferencesValue)} {doc : XmlNode}
    (hwrite : writeSettingXml entries = some doc) :
    ((∀ entry ∈ entries, Writable entry) →
        readDocument x (reparse doc) = (readEntries x entries ∅).map some) ∧
      (¬ (∀ entry ∈ entries, Writable entry) → readDocument x (reparse doc) = some none) := by
  obtain ⟨doc', hwrite', hread⟩ := read_write (x := x) entries
  obtain rfl := Option.some.inj (hwrite.symm.trans hwrite')
  have hvalid : doc.Valid ↔ ∀ entry ∈ entries, Writable entry := by
    rw [writeSettingXml_eq] at hwrite
    obtain rfl := Option.some.inj hwrite
    rw [← valid_entryNodes, XmlNode.Valid, XmlNode.strings, List.forall_mem_append]
    refine and_iff_right ?_
    simp [versionValue, XmlText, XmlChar]
  constructor
  · intro hall
    rw [hlib.faithful entries doc hwrite (hvalid.mpr hall), readDocument, hread, Option.map_map]
    rfl
  · intro hnot
    rw [hlib.strict doc (fun hdoc => hnot (hvalid.mp hdoc)), readDocument]

/-! ### The map that is read -/

/-- The entry comes back from a document, up to digits of its numbers. -/
structure Persistable (key : String) (value : PreferencesValue) : Prop where
  key : XmlText key
  texts : ∀ t ∈ value.texts, XmlText t
  bytes : ∀ bytes, value = .uint8Array bytes → bytes.length < 3 * 2 ^ 30

theorem Persistable.writable (h : Persistable key value) : Writable (key, value) := by
  intro _
  refine ⟨?_, ?_⟩
  · rw [h.key.cStr_eq]
    exact h.key
  · intro t ht
    rw [(h.texts t ht).cStr_eq]
    exact h.texts t ht

/-- What a document that could be written gives back under a key. `w` is what the map had under the
key, and the rest of the map can be held. -/
theorem readEntries_eq_iff {m m' : PrefMap} {entries : List (String × PreferencesValue)}
    (hentries : Enumerates entries m) (hread : readEntries x entries ∅ = some m')
    (hall : ∀ entry ∈ entries, Writable entry) {w : PreferencesValue}
    (hw : m.lookup key = some w) (hwmono : w ≠ .monostate) (heq : w.eq value = true)
    (hfinite : value.Finite) (hvalue : value ≠ .monostate)
    (hbytes : ∀ bytes, value = .uint8Array bytes → bytes.length < 3 * 2 ^ 30)
    (hother : ∀ entry ∈ entries, entry ≠ (key, w) → Persistable entry.1 entry.2) :
    (∃ u, m'.lookup key = some u ∧ u.eq value = true) ↔
      XmlText key ∧ (∀ t ∈ value.texts, XmlText t) ∧ value.Decimal := by
  have htexts := PreferencesValue.texts_eq heq
  obtain ⟨hkeyText, hvalueTexts⟩ := hall _ ((hentries.mem key w).mp hw) hwmono
  by_cases hkey : cStr key = key
  · -- all keys come back as they are, so the key has only one entry
    have hkeys : ∀ entry ∈ entries, cStr entry.1 = entry.1 := by
      intro entry hentry
      by_cases hne : entry = (key, w)
      · rw [hne]
        exact hkey
      · exact (hother entry hentry hne).key.cStr_eq
    rw [hkey] at hkeyText
    rw [readEntries_lookup_enumerates hentries hkeys hread hw hwmono,
      readBack_eq_iff heq hfinite hvalue hbytes]
    constructor
    · intro ⟨hcut, hdecimal⟩
      refine ⟨hkeyText, ?_, hdecimal⟩
      intro t ht
      rw [← hcut t ht]
      exact hvalueTexts t (htexts ▸ ht)
    · intro ⟨_, hxml, hdecimal⟩
      exact ⟨fun t ht => (hxml t ht).cStr_eq, hdecimal⟩
  · -- no key in the document has anything behind a NUL
    have hnone : m'.lookup key = none := by
      refine (readEntries_lookup_old hread (.inr ?_)).trans (Finmap.lookup_empty key)
      intro hin
      obtain ⟨entry, -, hcut⟩ := List.mem_map.mp hin
      refine hkey ?_
      rw [← hcut, cStr_cStr]
    constructor
    · intro ⟨u, hu, _⟩
      exact absurd (hu.symm.trans hnone) (by simp)
    · intro ⟨hxml, _⟩
      exact absurd hxml.cStr_eq hkey

/-- **What is read under a key** is what `operator==` takes for the value if and only if the
document can hold the key and the value. -/
theorem reread_iff {reparse : XmlNode → Option XmlNode} (hlib : Reparses reparse) {m : PrefMap}
    {entries : List (String × PreferencesValue)} (hentries : Enumerates entries m) {doc : XmlNode}
    (hwrite : writeSettingXml entries = some doc) {w : PreferencesValue}
    (hw : m.lookup key = some w) (heq : w.eq value = true) (hfinite : value.Finite)
    (hvalue : value ≠ .monostate)
    (hbytes : ∀ bytes, value = .uint8Array bytes → bytes.length < 3 * 2 ^ 30)
    (hothers : ∀ k v, m.lookup k = some v → k ≠ key → Persistable k v) :
    ∃ disk, readDocument x (reparse doc) = some disk ∧
      ((∃ u, (disk.getD ∅).lookup key = some u ∧ u.eq value = true) ↔
        XmlText key ∧ (∀ t ∈ value.texts, XmlText t) ∧ value.Decimal) := by
  have hwmono : w ≠ .monostate := by
    rintro rfl
    exact hvalue (PreferencesValue.eq_of_exact heq (.inl rfl)).symm
  have hwbytes : ∀ bytes, w = .uint8Array bytes → bytes.length < 3 * 2 ^ 30 := by
    rintro bytes rfl
    exact hbytes bytes (PreferencesValue.eq_of_exact heq (.inr rfl)).symm
  have hother : ∀ entry ∈ entries, entry ≠ (key, w) → Persistable entry.1 entry.2 := by
    intro entry hentry hne
    have hlook := (hentries.mem entry.1 entry.2).mpr hentry
    refine hothers _ _ hlook ?_
    intro hkey
    rw [hkey, hw] at hlook
    exact hne (Prod.ext hkey (Option.some.inj hlook).symm)
  obtain ⟨hvalidRead, hinvalidRead⟩ := readDocument_reparse (x := x) hlib hwrite
  by_cases hall : ∀ entry ∈ entries, Writable entry
  · have hback : ∀ entry ∈ entries, ∃ v, readBack x entry.2 = some v := by
      intro entry hentry
      by_cases hne : entry = (key, w)
      · rw [hne]
        exact exists_readBack hwbytes
      · exact exists_readBack (hother entry hentry hne).bytes
    obtain ⟨m', hm'⟩ := exists_readEntries hback ∅
    refine ⟨some m', by rw [hvalidRead hall, hm']; rfl, ?_⟩
    exact readEntries_eq_iff hentries hm' hall hw hwmono heq hfinite hvalue hbytes hother
  · -- the library does not parse its own document, and the store starts out empty
    refine ⟨none, hinvalidRead hall, ?_⟩
    constructor
    · intro ⟨u, hu, _⟩
      exact absurd (hu.symm.trans (Finmap.lookup_empty key)) (by simp)
    · intro ⟨hxml, hvalueTexts, _⟩
      refine absurd ?_ hall
      intro entry hentry
      by_cases hne : entry = (key, w)
      · rw [hne]
        rw [← PreferencesValue.texts_eq heq] at hvalueTexts
        exact Persistable.writable ⟨hxml, hvalueTexts, hwbytes⟩
      · exact (hother entry hentry hne).writable

/-! ### The store -/

/-- What `FlushSync` makes of the file. A notice has the map that was written. -/
def Store.Saves (reparse : XmlNode → Option XmlNode) (o : Weather) (s : Store)
    (file file' : Option XmlNode) : Prop :=
  match (s.flushSync o).notices with
  | [] => file' = file
  | notice :: _ =>
      ∃ entries doc, Enumerates entries notice.writeToDisk ∧ writeSettingXml entries = some doc ∧
        file' = reparse doc

/-- A store that is loaded, unless there is no file to load, on a file that can be written. No flush
is under way, and keys that are not marked are as in the file. -/
structure Store.AtRest (x : Extraction) (file : Option XmlNode) (o : Weather) (s : Store) :
    Prop where
  loaded : s.loaded = true
  settled : s.loadResult = true ∨ o.accessible = false
  queue : s.queue = none
  writable : o.writable = true
  document : readDocument x file = some s.disk
  tracks : s.cache.Tracks s.persisted

/-- There is nothing to be saved, and what is there is equal to the value. -/
def Store.Keeps (s : Store) (key : String) (value : PreferencesValue) : Prop :=
  s.cache.modifiedKeys = ∅ ∧ ∃ v, s.cache.visible.lookup key = some v ∧ v.eq value = true

section Flush

variable {s : Store} {o : Weather} {file : Option XmlNode} {reparse : XmlNode → Option XmlNode}

theorem Store.preLoad_settled (hsettled : s.loadResult = true ∨ o.accessible = false) :
    s.preLoad o = (true, s) := by
  rw [Store.preLoad]
  split
  · rfl
  · next hres =>
    rw [hsettled.resolve_left hres, Bool.and_false]
    rfl

/-- `FlushSync` writes what readers see, if anything is marked. -/
theorem Store.saves_iff (hsettled : s.loadResult = true ∨ o.accessible = false)
    (hqueue : s.queue = none) (hwritable : o.writable = true) (hcleared : s.cache.isCleared = false)
    {file' : Option XmlNode} :
    s.Saves reparse o file file' ↔
      if s.cache.modifiedKeys = ∅ then file' = file
      else ∃ entries doc, Enumerates entries s.cache.visible ∧ writeSettingXml entries = some doc ∧
        file' = reparse doc := by
  have hpre : Store.preLoad o { s with queue := some 1 } = (true, { s with queue := some 1 }) :=
    Store.preLoad_settled hsettled
  have hsettle : s.cache.settle s.cache.isCleared = s.cache := by
    rw [hcleared]
    rfl
  rw [Store.Saves, Store.flushSync, Store.pushNoWait, hqueue]
  simp only [Store.flusher, hpre, if_true, Store.writeToDiskFile]
  obtain ⟨hmod, hsnap⟩ | ⟨hmod, hsnap⟩ := s.cache.snapshot_cases s.cache.isCleared
  · rw [hsettle] at hmod hsnap
    simp only [hsnap, hmod, if_true]
  · rw [hsettle] at hmod hsnap
    simp only [hsnap, hmod, if_false, hwritable, if_true, Cache.visible_of_not_cleared hcleared]

/-- `Put` marks the key, unless it finds an equal value. -/
theorem Store.put_marks (key : String) (value : PreferencesValue) :
    (s.Keeps key value ∧ s.cache.put key value s.cache.isCleared = s.cache ∧
        s.cache.isCleared = false) ∨
      (¬ s.Keeps key value ∧ (s.cache.put key value s.cache.isCleared).modifiedKeys ≠ ∅) := by
  rw [Store.Keeps, Cache.put]
  cases hcl : s.cache.isCleared with
  | true =>
      refine .inr ⟨?_, ?_⟩
      · rw [Cache.visible_of_cleared hcl]
        simp
      · exact Finset.insert_ne_empty _ _
  | false =>
      rw [Cache.visible_of_not_cleared hcl]
      cases hlook : s.cache.valuesCache.lookup key with
      | none => exact .inr ⟨by simp, Finset.insert_ne_empty _ _⟩
      | some val =>
          by_cases heq : val.eq value = true
          · simp only [Bool.false_eq_true, if_false, heq, if_true]
            by_cases hmod : s.cache.modifiedKeys = ∅
            · exact .inl ⟨⟨hmod, val, rfl, heq⟩, trivial, trivial⟩
            · exact .inr ⟨fun hkeeps => hmod hkeeps.1, hmod⟩
          · simp only [Bool.false_eq_true, if_false, heq]
            refine .inr ⟨?_, Finset.insert_ne_empty _ _⟩
            intro hkeeps
            obtain ⟨-, v, hv, hveq⟩ := hkeeps
            obtain rfl := Option.some.inj hv
            exact heq hveq

/-- Every map can be listed. -/
theorem exists_enumerates (m : PrefMap) : ∃ entries, Enumerates entries m := by
  refine Finmap.induction_on m ?_
  intro a
  refine ⟨a.entries.map (fun e => (e.1, e.2)), ?_, ?_⟩
  · rw [List.map_map]
    exact a.nodupKeys
  · intro key v
    refine (AList.mem_lookup_iff (s := a)).trans ?_
    constructor
    · intro hmem
      exact List.mem_map.mpr ⟨_, hmem, rfl⟩
    · intro hmem
      obtain ⟨e, he, heq⟩ := List.mem_map.mp hmem
      obtain ⟨rfl, rfl⟩ := Prod.mk.inj heq
      exact he

/-- The store after a `Put` that is not refused. -/
theorem Store.AtRest.put (hs : s.AtRest x file o) (hkey : checkKey key = .ok)
    (hvalue : checkValue value = .ok) :
    s.put o key value =
      (.ok, { s with cache := s.cache.put key value s.cache.isCleared }) := by
  rw [Store.put, if_pos hkey, if_pos hvalue, Store.awaitLoadFile, if_pos hs.loaded,
    Store.preLoad_settled hs.settled]

/-- The `FlushSync` after the `Put`. -/
theorem Store.AtRest.saves_put_iff (hs : s.AtRest x file o) {file' : Option XmlNode} :
    Store.Saves reparse o { s with cache := s.cache.put key value s.cache.isCleared } file file' ↔
      if (s.cache.put key value s.cache.isCleared).modifiedKeys = ∅ then file' = file
      else ∃ entries doc, Enumerates entries (s.cache.put key value s.cache.isCleared).visible ∧
        writeSettingXml entries = some doc ∧ file' = reparse doc :=
  Store.saves_iff (s := { s with cache := s.cache.put key value s.cache.isCleared }) hs.settled
    hs.queue hs.writable (Cache.lookup_put_self id).1

/-- **What a new instance finds under a key** after a `Put` and a `FlushSync` of the old one. -/
theorem Store.AtRest.reopen_iff (hs : s.AtRest x file o) (hlib : Reparses reparse)
    (hfinite : value.Finite) (hmono : value ≠ .monostate)
    (hbytes : ∀ bytes, value = .uint8Array bytes → bytes.length < 3 * 2 ^ 30)
    (hothers : ∀ k v, s.cache.visible.lookup k = some v → k ≠ key → Persistable k v)
    {file' : Option XmlNode}
    (hsaves : Store.Saves reparse o { s with cache := s.cache.put key value s.cache.isCleared }
      file file') :
    ∃ disk, readDocument x file' = some disk ∧
      ((∃ u, (disk.getD ∅).lookup key = some u ∧ u.eq value = true) ↔
        s.Keeps key value ∨ (XmlText key ∧ (∀ t ∈ value.texts, XmlText t) ∧ value.Decimal)) := by
  rw [hs.saves_put_iff] at hsaves
  obtain ⟨hkeeps, hput, hcl⟩ | ⟨hkeeps, hmod⟩ := s.put_marks key value
  · -- nothing is written, and the file has what the store has
    have hvis : s.cache.visible = s.persisted := by
      refine hs.tracks.visible_eq ?_
      rintro k (hmarked | ⟨hflag, -⟩)
      · rw [hkeeps.1] at hmarked
        exact absurd hmarked (by simp)
      · exact absurd (hcl.symm.trans hflag) (by simp)
    rw [hput, if_pos hkeeps.1] at hsaves
    rw [hsaves]
    refine ⟨s.disk, hs.document, ?_⟩
    obtain ⟨v, hv, heq⟩ := hkeeps.2
    rw [hvis] at hv
    exact ⟨fun _ => .inl hkeeps, fun _ => ⟨v, hv, heq⟩⟩
  · -- all that readers see is written, with the old value under the key where the two are the same
    rw [if_neg hmod] at hsaves
    obtain ⟨entries, doc, hentries, hwrite, rfl⟩ := hsaves
    obtain ⟨w, hw, hsame⟩ : ∃ w,
        (s.cache.put key value s.cache.isCleared).visible.lookup key = some w ∧ w.Same value :=
      Cache.visible_put_self
    have hrest : ∀ k v, (s.cache.put key value s.cache.isCleared).visible.lookup k = some v →
        k ≠ key → Persistable k v := by
      intro k v hv hne
      rw [Cache.visible_put_of_ne hne] at hv
      exact hothers k v hv hne
    obtain ⟨disk, hdisk, hiff⟩ := reread_iff (x := x) hlib hentries hwrite hw
      (hsame.eq_of_noNaN hfinite.eq_self) hfinite hmono hbytes hrest
    refine ⟨disk, hdisk, hiff.trans ?_⟩
    rw [or_iff_right hkeeps]

theorem Store.AtRest.exists_saves (hs : s.AtRest x file o) (reparse : XmlNode → Option XmlNode)
    (key : String) (value : PreferencesValue) :
    ∃ file', Store.Saves reparse o { s with cache := s.cache.put key value s.cache.isCleared }
      file file' := by
  obtain ⟨entries, hentries⟩ := exists_enumerates
    (s.cache.put key value s.cache.isCleared).visible
  by_cases hmod : (s.cache.put key value s.cache.isCleared).modifiedKeys = ∅
  · refine ⟨file, hs.saves_put_iff.mpr ?_⟩
    rw [if_pos hmod]
  · obtain ⟨doc, hwrite⟩ : ∃ doc, writeSettingXml entries = some doc :=
      ⟨_, writeSettingXml_eq entries⟩
    refine ⟨reparse doc, hs.saves_put_iff.mpr ?_⟩
    rw [if_neg hmod]
    exact ⟨entries, doc, hentries, hwrite, rfl⟩

/-- A new instance on a file that can be read, or on none. -/
theorem Store.AtRest.initial {disk : Option PrefMap} (hwritable : o.writable = true)
    (hread : o.readable = true) (hdisk : disk = none → o.accessible = false)
    (hdocument : readDocument x file = some disk) :
    ((Store.initial disk).loadFromDisk o true).AtRest x file o := by
  cases disk with
  | none => exact ⟨rfl, .inr (hdisk rfl), rfl, hwritable, hdocument, fun _ hne => absurd rfl hne⟩
  | some values =>
      simp only [Store.loadFromDisk, Store.initial, hread]
      exact ⟨rfl, .inl rfl, rfl, hwritable, hdocument, fun _ hne => absurd rfl hne⟩

/-- A new instance is loaded. -/
theorem Store.loaded_loadFromDisk (disk : Option PrefMap) (hread : o.readable = true)
    (dirAccessible : Bool) : ((Store.initial disk).loadFromDisk o dirAccessible).Loaded := by
  cases disk with
  | none => cases dirAccessible <;> exact ⟨rfl, .inr rfl⟩
  | some values =>
      cases dirAccessible <;> simp only [Store.loadFromDisk, Store.initial, hread] <;>
        exact ⟨rfl, .inl rfl⟩

/-- What `Get` of a new instance returns. -/
theorem Store.get_reopened {disk : Option PrefMap} (hread : o.readable = true)
    (dirAccessible : Bool) (hkey : checkKey key = .ok) (defValue : PreferencesValue) :
    (((Store.initial disk).loadFromDisk o dirAccessible).query o (.get key defValue)).1 =
      .value (((disk.getD ∅).lookup key).getD defValue) := by
  have hload := Store.loaded_loadFromDisk disk hread dirAccessible
  have hcheck : (Query.get key defValue).check = .ok := hkey
  rw [Store.query, if_pos hcheck, hload.awaitLoadFile]
  dsimp only
  rw [Store.visible_loadFromDisk disk hread]
  rfl

end Flush

end NativePreferences
