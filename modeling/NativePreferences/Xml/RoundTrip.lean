import NativePreferences.Xml.Element

/-!
# NativePreferences.Xml.RoundTrip

**What `ReadSettingXml` makes of the documents that `WriteSettingXml` writes.** The document has one
element for each entry of the map (`ValueVisitor.nodes`), which is parsed to one `Element`
(`ValueVisitor.element`) and converted to a value (`readBack`). For most kinds this is the value
that was written; floating-point numbers have lost digits, and byte arrays that are too long for
`Base64Helper` are lost.
-/

namespace NativePreferences

open Lib

variable {x : Extraction} {key : String} {value : PreferencesValue}

/-! ### The document -/

/-- The node of an element of an array. -/
def childNode (childrenTag child : String) : XmlNode :=
  if childrenTag = "string" then .element childrenTag [] (XmlWriter.textNodes (cStr child))
  else .element childrenTag [(attrValue, cStr child)] []

/-- The nodes of an entry: one, or none for a value that is not written. -/
def ValueVisitor.nodes (visitor : ValueVisitor) (key : String) : List XmlNode :=
  if visitor.typeTag ∈ ["string", "uint8Array", "object"] then
    [.element visitor.typeTag [(attrKey, cStr key)]
      (XmlWriter.textNodes (cStr visitor.valueStr))]
  else if visitor.typeTag ∈ ["int", "long", "float", "bool", "double"] then
    [.element visitor.typeTag [(attrKey, cStr key), (attrValue, cStr visitor.valueStr)] []]
  else if visitor.typeTag ∈
      ["intArray", "int64Array", "doubleArray", "stringArray", "boolArray", "BigInt"] then
    [.element visitor.typeTag [(attrKey, cStr key)]
      (visitor.arrayValues.map (childNode visitor.childrenTag))]
  else []

/-- The nodes of the entries of a map. -/
def entryNodes (entries : List (String × PreferencesValue)) : List XmlNode :=
  entries.flatMap (fun entry => (ValueVisitor.visit entry.2).nodes entry.1)

section Writing

variable {tag : String} {props : List (String × String)} {children : List XmlNode}
variable {outer : List OpenElement} {root : Option XmlNode}

theorem writeChild_eq (childrenTag child : String) :
    writeChild childrenTag ⟨⟨tag, props, children⟩ :: outer, root⟩ child =
      some ⟨⟨tag, props, children ++ [childNode childrenTag child]⟩ :: outer, root⟩ := by
  rw [writeChild, childNode]
  split
  · rfl
  · rfl

theorem writeChildren_eq (childrenTag : String) (arrayValues : List String) :
    arrayValues.foldlM (writeChild childrenTag) ⟨⟨tag, props, children⟩ :: outer, root⟩ =
      some ⟨⟨tag, props, children ++ arrayValues.map (childNode childrenTag)⟩ :: outer, root⟩ := by
  induction arrayValues generalizing children with
  | nil => simp
  | cons child arrayValues ih =>
      rw [List.foldlM_cons, writeChild_eq]
      show arrayValues.foldlM (writeChild childrenTag) _ = _
      rw [ih, List.map_cons, List.append_assoc, List.singleton_append]

theorem writeXmlElement_eq (key : String) (value : PreferencesValue) :
    writeXmlElement ⟨⟨tag, props, children⟩ :: outer, root⟩ key value =
      some ⟨⟨tag, props, children ++ (ValueVisitor.visit value).nodes key⟩ :: outer, root⟩ := by
  rw [writeXmlElement, ValueVisitor.nodes]
  split
  · rfl
  · split
    · rfl
    · split
      · show (List.foldlM _ _ _ >>= XmlWriter.endElement) = _
        rw [writeChildren_eq]
        rfl
      · simp

theorem writeEntries_eq (entries : List (String × PreferencesValue)) :
    entries.foldlM (fun writer entry => writeXmlElement writer entry.1 entry.2)
        ⟨⟨tag, props, children⟩ :: outer, root⟩ =
      some ⟨⟨tag, props, children ++ entryNodes entries⟩ :: outer, root⟩ := by
  induction entries generalizing children with
  | nil => simp [entryNodes]
  | cons entry entries ih =>
      rw [List.foldlM_cons, writeXmlElement_eq]
      show entries.foldlM _ _ = _
      rw [ih, entryNodes, entryNodes, List.flatMap_cons, List.append_assoc]

end Writing

/-- **The document of a map.** -/
theorem writeSettingXml_eq (entries : List (String × PreferencesValue)) :
    writeSettingXml entries =
      some (.element tagPreferences [(tagVersion, versionValue)] (entryNodes entries)) := by
  simp only [writeSettingXml, XmlWriter.startElement, XmlWriter.writeAttribute, List.nil_append,
    Option.bind_eq_bind, Option.bind_some, writeEntries_eq]
  rfl

/-! ### Parsing it -/

/-- What is parsed of an element of an array. -/
def childElement (childrenTag child : String) : Element :=
  { tag := childrenTag, key := "", value := cStr child, children := [] }

/-- What is parsed of an entry. -/
def ValueVisitor.element (visitor : ValueVisitor) (key : String) : Element :=
  { tag := visitor.typeTag
    key := cStr key
    value := cStr visitor.valueStr
    children := visitor.arrayValues.map (childElement visitor.childrenTag) }

theorem getContents_textNodes (content : String) :
    XmlNode.getContents (XmlWriter.textNodes content) = content := by
  rw [XmlWriter.textNodes]
  split
  · next hempty =>
    rw [hempty]
    rfl
  · show content ++ "" = content
    rw [String.append_empty]

theorem parseNodeElement_childNode {childrenTag : String} (child : String)
    (htag : childrenTag ∈
      ["string", "int", "int64", "long", "bool", "float", "double", "uint64_t"]) :
    parseNodeElement (childNode childrenTag child) = some (childElement childrenTag child) := by
  rw [childNode]
  split
  · next hstring =>
    rw [hstring]
    show some (Element.mk "string" "" (XmlNode.getContents _) []) = _
    rw [getContents_textNodes]
    rfl
  · next hstring =>
    have hprim : childrenTag ∈ ["int", "int64", "long", "bool", "float", "double", "uint64_t"] :=
      (List.mem_cons.mp htag).resolve_left hstring
    have htables : ∀ tag ∈ ["int", "int64", "long", "bool", "float", "double", "uint64_t"],
        tag ∉ ["string", "uint8Array", "object"] := by
      decide
    have hnot := htables _ hprim
    rw [parseNodeElement, if_neg hnot, if_pos hprim]
    rfl

theorem parseNodeElements_childNode {childrenTag : String} (arrayValues : List String)
    (htag : childrenTag ∈
      ["string", "int", "int64", "long", "bool", "float", "double", "uint64_t"]) :
    parseNodeElements (arrayValues.map (childNode childrenTag)) =
      some (arrayValues.map (childElement childrenTag)) := by
  induction arrayValues with
  | nil => rfl
  | cons child arrayValues ih =>
      rw [List.map_cons, parseNodeElements, parseNodeElement_childNode child htag, ih]
      rfl

section Parsing

variable {visitor : ValueVisitor}

theorem parse_string (key : String) (htag : visitor.typeTag ∈ ["string", "uint8Array", "object"])
    (harray : visitor.arrayValues = []) :
    ∃ node, visitor.nodes key = [node] ∧ parseNodeElement node = some (visitor.element key) := by
  rw [ValueVisitor.nodes, if_pos htag, ValueVisitor.element, harray]
  refine ⟨_, rfl, ?_⟩
  rw [parseNodeElement, if_pos htag, parseStringNodeElement, XmlNode.getContent,
    getContents_textNodes]
  rfl

theorem parse_primitive (key : String)
    (htag : visitor.typeTag ∈ ["int", "long", "float", "bool", "double"])
    (harray : visitor.arrayValues = []) :
    ∃ node, visitor.nodes key = [node] ∧ parseNodeElement node = some (visitor.element key) := by
  have htables : ∀ tag ∈ ["int", "long", "float", "bool", "double"],
      tag ∉ ["string", "uint8Array", "object"] ∧
        tag ∈ ["int", "int64", "long", "bool", "float", "double", "uint64_t"] := by
    decide
  obtain ⟨hnot, hprim⟩ := htables _ htag
  rw [ValueVisitor.nodes, if_neg hnot, if_pos htag, ValueVisitor.element, harray]
  refine ⟨_, rfl, ?_⟩
  rw [parseNodeElement, if_neg hnot, if_pos hprim]
  rfl

theorem parse_array (key : String)
    (htag : visitor.typeTag ∈
      ["intArray", "int64Array", "doubleArray", "stringArray", "boolArray", "BigInt"])
    (hchild : visitor.childrenTag ∈
      ["string", "int", "int64", "long", "bool", "float", "double", "uint64_t"])
    (hvalue : visitor.valueStr = "") :
    ∃ node, visitor.nodes key = [node] ∧ parseNodeElement node = some (visitor.element key) := by
  have htables : ∀ tag ∈
        ["intArray", "int64Array", "doubleArray", "stringArray", "boolArray", "BigInt"],
      tag ∉ ["string", "uint8Array", "object"] ∧ tag ∉ ["int", "long", "float", "bool", "double"] ∧
        tag ∉ ["int", "int64", "long", "bool", "float", "double", "uint64_t"] ∧
        tag ∈ ["boolArray", "stringArray", "doubleArray", "intArray", "int64Array", "BigInt",
          "set"] := by
    decide
  obtain ⟨hnot, hnot', hprim, harray⟩ := htables _ htag
  rw [ValueVisitor.nodes, if_neg hnot, if_neg hnot', if_pos htag, ValueVisitor.element, hvalue]
  refine ⟨_, rfl, ?_⟩
  rw [parseNodeElement, if_neg hnot, if_neg hprim, if_pos harray,
    parseNodeElements_childNode _ hchild]
  rfl

end Parsing

/-- **Every value but a `monostate`** is written to one element, which is parsed. -/
theorem parse_nodes (key : String) (hvalue : value ≠ .monostate) :
    ∃ node, (ValueVisitor.visit value).nodes key = [node] ∧
      parseNodeElement node = some ((ValueVisitor.visit value).element key) := by
  cases value with
  | monostate => exact absurd rfl hvalue
  | string | uint8Array | object => exact parse_string key (by simp [ValueVisitor.visit]) rfl
  | int | int64 | float | double | bool =>
      exact parse_primitive key (by simp [ValueVisitor.visit]) rfl
  | stringArray | boolArray | doubleArray | bigInt | intArray | int64Array =>
      exact parse_array key (by simp [ValueVisitor.visit]) (by simp [ValueVisitor.visit]) rfl

/-! ### Converting it -/

/-- A `float` that is read from its text. -/
def readFloat (x : Extraction) (bits : UInt32) : UInt32 :=
  UInt32.ofNat
    (Format.binary32.extract (fun text => (x.float text).toNat) x.garbage.toNat (floatText bits))

/-- A `double` that is read from its text. -/
def readDouble (x : Extraction) (bits : UInt64) : UInt64 :=
  UInt64.ofNat
    (Format.binary64.extract (fun text => (x.double text).toNat) x.garbage.toNat (doubleText bits))

/-- What is read where a value was written. There is no result where the text of a byte array cannot
be decoded. -/
def readBack (x : Extraction) : PreferencesValue → Option PreferencesValue
  | .string v => some (.string (cStr v))
  | .object v => some (.object ⟨cStr v.valueStr⟩)
  | .stringArray v => some (.stringArray (v.map cStr))
  | .float v => some (.float (readFloat x v))
  | .double v => some (.double (readDouble x v))
  | .doubleArray v => some (.doubleArray (v.map (readDouble x)))
  | .uint8Array v =>
      match Base64Helper.decode (utf8 (Base64Helper.encode v)) with
      | none => none
      | some output => some (.uint8Array (output.getD []))
  | v => some v

section Children

variable {α β : Type} {childrenTag : String}

/-- An array is converted element by element. -/
theorem map_childElement (f : Element → β) (text : α → String) (g : α → β) (v : List α)
    (hread : ∀ a, f (childElement childrenTag (text a)) = g a) :
    ((v.map text).map (childElement childrenTag)).map f = v.map g := by
  rw [List.map_map, List.map_map]
  refine List.map_congr_left ?_
  intro a _
  exact hread a

theorem map_childElement_self (f : Element → α) (text : α → String) (v : List α)
    (hread : ∀ a, f (childElement childrenTag (text a)) = a) :
    ((v.map text).map (childElement childrenTag)).map f = v :=
  (map_childElement f text id v hread).trans (List.map_id v)

end Children

section Numbers

variable {tag : String} {children : List Element}

theorem convertInt_toString (v : Int32) :
    convertInt x ⟨tag, key, cStr (toString v.toInt), children⟩ = v := by
  have hlo := Int32.le_toInt v
  have hhi := Int32.toInt_lt v
  rw [convertInt, cStr_printable (printable_toString _),
    extractSigned_toString (by omega) (by omega), Int32.ofInt_toInt]

theorem convertInt64_toString (v : Int64) :
    convertInt64 x ⟨tag, key, cStr (toString v.toInt), children⟩ = v := by
  have hlo := Int64.le_toInt v
  have hhi := Int64.toInt_lt v
  rw [convertInt64, cStr_printable (printable_toString _),
    extractSigned_toString (by omega) (by omega), Int64.ofInt_toInt]

theorem convertUint64_toString (v : UInt64) :
    convertUint64 x ⟨tag, key, cStr (toString v.toNat), children⟩ = v := by
  have hlt : v.toNat < 2 ^ 64 := v.toNat_lt
  rw [convertUint64, cStr_printable (s := toString v.toNat) (printable_repr _),
    extractUnsigned_toString hlt, UInt64.ofNat_toNat]

theorem convertBool_boolText (v : Bool) :
    convertBool ⟨tag, key, cStr (boolText v), children⟩ = v := by
  show (cStr (boolText v) == "true") = v
  cases v with
  | true => decide
  | false => decide

theorem convertFloat_floatText (v : UInt32) :
    convertFloat x ⟨tag, key, cStr (floatText v), children⟩ = readFloat x v := by
  rw [convertFloat, cStr_printable (s := floatText v) (Format.printable_toText _ _ _), readFloat]

theorem convertDouble_doubleText (v : UInt64) :
    convertDouble x ⟨tag, key, cStr (doubleText v), children⟩ = readDouble x v := by
  rw [convertDouble, cStr_printable (s := doubleText v) (Format.printable_toText _ _ _),
    readDouble]

end Numbers

/-- The word for the sign of a `BigInt` has all of it. -/
theorem ofInt_signWord (sign : Int32) : Int32.ofInt (signWord sign).toNat = sign := by
  have hlo := Int32.le_toInt sign
  have hhi := Int32.toInt_lt sign
  have hword : (signWord sign).toNat = (sign.toInt % 2 ^ 64).toNat % 2 ^ 64 := by
    rw [signWord, UInt64.ofInt, UInt64.toNat_ofNat']
  have hsize : (Int32.size : Int) = 4294967296 := rfl
  refine Int32.toInt_inj.mp ?_
  rw [Int32.toInt_ofInt, Int.bmod_def, hword, hsize]
  omega

theorem convertBigInt_visit (key : String) (v : BigInt) :
    convertBigInt x ((ValueVisitor.visit (.bigInt v)).element key) = v := by
  have hwords : (((v.words ++ [signWord v.sign]).map (fun word => toString word.toNat)).map
      (childElement "uint64_t")).map (convertUint64 x) = v.words ++ [signWord v.sign] :=
    map_childElement_self _ _ _ convertUint64_toString
  rw [List.map_append, List.map_singleton] at hwords
  simp only [convertBigInt, ValueVisitor.visit, ValueVisitor.element]
  rw [hwords, List.getLast?_concat, List.dropLast_concat]
  dsimp only
  rw [ofInt_signWord]

/-- **What is read where a value was written.** -/
theorem getPrefValue_visit (key : String) (hvalue : value ≠ .monostate) :
    getPrefValue x ((ValueVisitor.visit value).element key) = (readBack x value).map some := by
  cases value with
  | monostate => exact absurd rfl hvalue
  | int v =>
      simp only [getPrefValue, ValueVisitor.visit, ValueVisitor.element, reduceIte, String.reduceEq]
      rw [convertInt_toString]
      rfl
  | int64 v =>
      simp only [getPrefValue, ValueVisitor.visit, ValueVisitor.element, reduceIte, String.reduceEq]
      rw [convertInt64_toString]
      rfl
  | float v =>
      simp only [getPrefValue, ValueVisitor.visit, ValueVisitor.element, reduceIte, String.reduceEq]
      rw [convertFloat_floatText]
      rfl
  | double v =>
      simp only [getPrefValue, ValueVisitor.visit, ValueVisitor.element, reduceIte, String.reduceEq]
      rw [convertDouble_doubleText]
      rfl
  | bool v =>
      simp only [getPrefValue, ValueVisitor.visit, ValueVisitor.element, reduceIte, String.reduceEq]
      rw [convertBool_boolText]
      rfl
  | string v | object v =>
      simp only [getPrefValue, ValueVisitor.visit, ValueVisitor.element, reduceIte, String.reduceEq]
      rfl
  | stringArray v =>
      simp only [getPrefValue, ValueVisitor.visit, ValueVisitor.element, reduceIte, String.reduceEq]
      rw [List.map_map]
      rfl
  | boolArray v =>
      simp only [getPrefValue, ValueVisitor.visit, ValueVisitor.element, reduceIte, String.reduceEq]
      rw [map_childElement_self _ _ _ convertBool_boolText]
      rfl
  | doubleArray v =>
      simp only [getPrefValue, ValueVisitor.visit, ValueVisitor.element, reduceIte, String.reduceEq]
      rw [map_childElement _ _ _ _ convertDouble_doubleText]
      rfl
  | uint8Array v =>
      simp only [getPrefValue, ValueVisitor.visit, ValueVisitor.element, reduceIte, String.reduceEq,
        convertUint8Array, cStr_printable (Base64Helper.printable_encode v), readBack]
      cases Base64Helper.decode (utf8 (Base64Helper.encode v)) with
      | none => rfl
      | some output =>
          cases output with
          | none => rfl
          | some output => rfl
  | bigInt v =>
      have hconv := convertBigInt_visit (x := x) key v
      simp only [ValueVisitor.visit, ValueVisitor.element] at hconv
      simp only [getPrefValue, ValueVisitor.visit, ValueVisitor.element, reduceIte, String.reduceEq]
      rw [hconv]
      rfl
  | intArray v =>
      simp only [getPrefValue, ValueVisitor.visit, ValueVisitor.element, reduceIte, String.reduceEq]
      rw [map_childElement_self _ _ _ convertInt_toString]
      rfl
  | int64Array v =>
      simp only [getPrefValue, ValueVisitor.visit, ValueVisitor.element, reduceIte, String.reduceEq]
      rw [map_childElement_self _ _ _ convertInt64_toString]
      rfl

/-! ### All entries -/

/-- What is read of the entries of a map, on top of what has been read before. -/
def readEntries (x : Extraction) : List (String × PreferencesValue) → PrefMap → Option PrefMap
  | [], conMap => some conMap
  | (key, value) :: entries, conMap =>
      if value = .monostate then readEntries x entries conMap
      else
        match readBack x value with
        | none => none
        | some v =>
            readEntries x entries
              (if cStr key ∈ conMap then conMap else conMap.insert (cStr key) v)

theorem readElements_entryNodes (entries : List (String × PreferencesValue)) (conMap : PrefMap) :
    readElements x (entryNodes entries) conMap =
      (readEntries x entries conMap).map (Prod.mk true) := by
  induction entries generalizing conMap with
  | nil => rfl
  | cons entry entries ih =>
      obtain ⟨key, value⟩ := entry
      rw [entryNodes, List.flatMap_cons, readEntries]
      by_cases hvalue : value = .monostate
      · rw [if_pos hvalue, hvalue]
        exact ih conMap
      · obtain ⟨node, hnodes, hparse⟩ := parse_nodes key hvalue
        rw [if_neg hvalue, hnodes, List.singleton_append, readElements, hparse]
        dsimp only
        rw [readXmlElement, getPrefValue_visit key hvalue]
        cases readBack x value with
        | none => rfl
        | some v => exact ih _

/-- **Reading what was written.** -/
theorem read_write (entries : List (String × PreferencesValue)) :
    ∃ doc, writeSettingXml entries = some doc ∧
      readSettingXml x doc = (readEntries x entries ∅).map (Prod.mk true) := by
  refine ⟨_, writeSettingXml_eq entries, ?_⟩
  show (if tagPreferences ≠ tagPreferences then _ else readElements x (entryNodes entries) ∅) = _
  rw [if_neg (not_not.mpr rfl), readElements_entryNodes]

section Entries

variable {entries : List (String × PreferencesValue)} {conMap m' : PrefMap}

theorem readEntries_lookup_old (hread : readEntries x entries conMap = some m')
    (hkey : key ∈ conMap ∨ key ∉ entries.map (fun entry => cStr entry.1)) :
    m'.lookup key = conMap.lookup key := by
  induction entries generalizing conMap with
  | nil => rw [Option.some.inj hread]
  | cons entry entries ih =>
      obtain ⟨k, value⟩ := entry
      rw [List.map_cons, List.mem_cons] at hkey
      rw [readEntries] at hread
      split at hread
      · exact ih hread (hkey.imp_right (fun hnot hmem => hnot (.inr hmem)))
      · split at hread
        · exact absurd hread (by simp)
        · next v _ =>
          by_cases hk : cStr k ∈ conMap
          · rw [if_pos hk] at hread
            exact ih hread (hkey.imp_right (fun hnot hmem => hnot (.inr hmem)))
          · rw [if_neg hk] at hread
            have hne : key ≠ cStr k := by
              rintro rfl
              exact hkey.elim hk (fun hnot => hnot (.inl rfl))
            refine (ih hread ?_).trans (Finmap.lookup_insert_of_ne _ hne)
            refine hkey.imp ?_ (fun hnot hmem => hnot (.inr hmem))
            intro hmem
            rw [Finmap.mem_insert]
            exact .inr hmem

theorem readEntries_lookup (hread : readEntries x entries conMap = some m')
    (hnodup : (entries.map (fun entry => cStr entry.1)).Nodup) (hmem : (key, value) ∈ entries)
    (hvalue : value ≠ .monostate) (hkey : cStr key ∉ conMap) :
    m'.lookup (cStr key) = readBack x value := by
  induction entries generalizing conMap with
  | nil => exact absurd hmem (by simp)
  | cons entry entries ih =>
      obtain ⟨k, u⟩ := entry
      rw [List.map_cons, List.nodup_cons] at hnodup
      rw [readEntries] at hread
      rcases List.mem_cons.mp hmem with heq | hmem
      · obtain ⟨rfl, rfl⟩ := Prod.mk.inj heq
        rw [if_neg hvalue] at hread
        split at hread
        · exact absurd hread (by simp)
        · next v hv =>
          rw [if_neg hkey] at hread
          rw [readEntries_lookup_old hread (.inr hnodup.1), Finmap.lookup_insert, hv]
      · have hne : cStr key ≠ cStr k := by
          intro heq
          exact hnodup.1 (List.mem_map.mpr ⟨(key, value), hmem, heq⟩)
        split at hread
        · exact ih hread hnodup.2 hmem hkey
        · split at hread
          · exact absurd hread (by simp)
          · refine ih hread hnodup.2 hmem ?_
            split
            · exact hkey
            · rw [Finmap.mem_insert]
              rintro (heq | hold)
              · exact hne heq
              · exact hkey hold

theorem exists_readEntries (hread : ∀ entry ∈ entries, ∃ v, readBack x entry.2 = some v)
    (conMap : PrefMap) : ∃ m', readEntries x entries conMap = some m' := by
  induction entries generalizing conMap with
  | nil => exact ⟨conMap, rfl⟩
  | cons entry entries ih =>
      obtain ⟨v, hv⟩ := hread entry List.mem_cons_self
      have hrest := ih (fun entry' hmem => hread entry' (List.mem_cons_of_mem _ hmem))
      rw [readEntries]
      split
      · exact hrest conMap
      · rw [hv]
        exact hrest _

end Entries

/-! ### Values that come back -/

/-- The characters that a document may hold. -/
def XmlChar (c : Char) : Prop :=
  c = '\t' ∨ c = '\n' ∨ c = '\r' ∨ (0x20 ≤ c.toNat ∧ c.toNat ≤ 0xfffd) ∨ 0x10000 ≤ c.toNat

/-- A text that a document may hold. -/
def XmlText (s : String) : Prop := ∀ c ∈ s.toList, XmlChar c

theorem XmlText.cStr_eq {s : String} (hs : XmlText s) : cStr s = s := by
  refine NativePreferences.cStr_eq ?_
  intro hnul
  have hchar : ¬ XmlChar '\x00' := by
    unfold XmlChar
    decide
  exact hchar (hs _ hnul)

/-- The texts in a value. -/
def PreferencesValue.texts : PreferencesValue → List String
  | .string v => [v]
  | .object v => [v.valueStr]
  | .stringArray v => v
  | _ => []

/-- The value has no floating-point number in it, and is a value at all. -/
def PreferencesValue.isExact : PreferencesValue → Bool
  | .monostate | .float _ | .double _ | .doubleArray _ => false
  | _ => true

/-- A map as the list of its entries, in some order. -/
structure Enumerates (entries : List (String × PreferencesValue)) (m : PrefMap) : Prop where
  nodup : (entries.map Prod.fst).Nodup
  mem : ∀ key v, m.lookup key = some v ↔ (key, v) ∈ entries

theorem map_cStr_eq {v : List String} (hv : ∀ s ∈ v, XmlText s) : v.map cStr = v :=
  (List.map_congr_left (fun s hs => (hv s hs).cStr_eq)).trans (List.map_id v)

/-- **Exact values come back**, unless they are byte arrays that are too long. -/
theorem readBack_exact (hexact : value.isExact = true) (htexts : ∀ s ∈ value.texts, XmlText s)
    (hbytes : ∀ bytes, value = .uint8Array bytes → bytes.length < 3 * 2 ^ 30) :
    readBack x value = some value := by
  cases value with
  | monostate | float | double | doubleArray =>
      exact absurd hexact (by simp [PreferencesValue.isExact])
  | string v =>
      rw [readBack, (htexts v List.mem_cons_self).cStr_eq]
  | object v =>
      rw [readBack, (htexts v.valueStr List.mem_cons_self).cStr_eq]
  | stringArray v =>
      have hv : ∀ s ∈ v, XmlText s := htexts
      rw [readBack, map_cStr_eq hv]
  | uint8Array v =>
      rw [readBack, (Base64Helper.decode_encode v).mpr (hbytes v rfl)]
      rfl
  | int | int64 | bool | boolArray | bigInt | intArray | int64Array => rfl

theorem length_of_readBack {bytes : Bytes}
    (hread : readBack x (.uint8Array bytes) = some (.uint8Array bytes)) :
    bytes.length < 3 * 2 ^ 30 := by
  rw [readBack] at hread
  cases hdec : Base64Helper.decode (utf8 (Base64Helper.encode bytes)) with
  | none =>
      rw [hdec] at hread
      exact absurd hread (by simp)
  | some output =>
      rw [hdec] at hread
      have hout : output.getD [] = bytes :=
        PreferencesValue.uint8Array.inj (Option.some.inj hread)
      cases output with
      | none =>
          rw [← hout]
          decide
      | some output =>
          rw [← hout]
          refine (Base64Helper.decode_encode output).mp ?_
          rw [← hout] at hdec
          exact hdec

/-- A document whose keys are cut nowhere has one value for each key of the map it was written
from. -/
theorem readEntries_lookup_enumerates {m m' : PrefMap} {entries : List (String × PreferencesValue)}
    (hentries : Enumerates entries m) (hkeys : ∀ entry ∈ entries, cStr entry.1 = entry.1)
    (hread : readEntries x entries ∅ = some m') (hv : m.lookup key = some value)
    (hvalue : value ≠ .monostate) : m'.lookup key = readBack x value := by
  have hmem := (hentries.mem key value).mp hv
  have hnodup : (entries.map (fun entry => cStr entry.1)).Nodup := by
    rw [List.map_congr_left hkeys]
    exact hentries.nodup
  have hres := readEntries_lookup hread hnodup hmem hvalue Finmap.notMem_empty
  rw [hkeys _ hmem] at hres
  exact hres

/-- And it has no other keys. -/
theorem readEntries_lookup_none {m m' : PrefMap} {entries : List (String × PreferencesValue)}
    (hentries : Enumerates entries m) (hkeys : ∀ entry ∈ entries, cStr entry.1 = entry.1)
    (hread : readEntries x entries ∅ = some m') (hv : m.lookup key = none) :
    m'.lookup key = none := by
  refine (readEntries_lookup_old hread (.inr ?_)).trans (Finmap.lookup_empty key)
  intro hmem
  obtain ⟨entry, hentry, hkey⟩ := List.mem_map.mp hmem
  rw [hkeys entry hentry] at hkey
  have hsome := (hentries.mem entry.1 entry.2).mpr hentry
  rw [hkey, hv] at hsome
  exact absurd hsome (by simp)

/-- **Round trip.** A map without floating-point numbers, whose keys and texts a document may hold,
is written, and read as the same map if and only if its byte arrays are short enough. -/
theorem readSettingXml_writeSettingXml (x : Extraction) (m : PrefMap)
    (entries : List (String × PreferencesValue)) (hentries : Enumerates entries m)
    (hexact : ∀ key v, m.lookup key = some v → v.isExact = true)
    (hkeys : ∀ key v, m.lookup key = some v → XmlText key)
    (htexts : ∀ key v, m.lookup key = some v → ∀ s ∈ v.texts, XmlText s) :
    (∃ doc, writeSettingXml entries = some doc ∧ readSettingXml x doc = some (true, m)) ↔
      ∀ key bytes, m.lookup key = some (.uint8Array bytes) → bytes.length < 3 * 2 ^ 30 := by
  have hstr : ∀ entry ∈ entries, cStr entry.1 = entry.1 := by
    intro entry hmem
    exact (hkeys _ _ ((hentries.mem entry.1 entry.2).mpr hmem)).cStr_eq
  have hlook : ∀ m', readEntries x entries ∅ = some m' → ∀ key v, m.lookup key = some v →
      m'.lookup key = readBack x v := by
    intro m' hread key v hv
    refine readEntries_lookup_enumerates hentries hstr hread hv ?_
    rintro rfl
    exact absurd (hexact key _ hv) (by decide)
  obtain ⟨doc, hwrite, hdoc⟩ := read_write (x := x) entries
  constructor
  · intro ⟨doc', hwrite', hread⟩ key bytes hv
    obtain rfl := Option.some.inj (hwrite.symm.trans hwrite')
    rw [hdoc] at hread
    obtain ⟨m', hm', heq⟩ := Option.map_eq_some_iff.mp hread
    obtain ⟨-, rfl⟩ := Prod.mk.inj heq
    exact length_of_readBack ((hlook _ hm' key _ hv).symm.trans hv)
  · intro hbytes
    have hback : ∀ key v, m.lookup key = some v → readBack x v = some v := by
      intro key v hv
      refine readBack_exact (hexact key v hv) (htexts key v hv) ?_
      rintro bytes rfl
      exact hbytes key bytes hv
    have hall : ∀ entry ∈ entries, ∃ v, readBack x entry.2 = some v := by
      intro entry hmem
      exact ⟨_, hback _ _ ((hentries.mem entry.1 entry.2).mpr hmem)⟩
    obtain ⟨m', hm'⟩ := exists_readEntries hall ∅
    have heq : m' = m := by
      refine Finmap.ext_lookup ?_
      intro key
      cases hv : m.lookup key with
      | some v => rw [hlook m' hm' key v hv, hback key v hv]
      | none => exact readEntries_lookup_none hentries hstr hm' hv
    refine ⟨doc, hwrite, ?_⟩
    rw [hdoc, hm', heq]
    rfl

theorem enumerates_singleton (key : String) (value : PreferencesValue) :
    Enumerates [(key, value)] (Finmap.insert key value ∅) := by
  refine ⟨by simp, ?_⟩
  intro k v
  by_cases heq : k = key
  · rw [heq, Finmap.lookup_insert, List.mem_singleton, Prod.mk.injEq, Option.some.injEq]
    simp [eq_comm]
  · rw [Finmap.lookup_insert_of_ne _ heq, Finmap.lookup_empty]
    simp [heq]

/-- Facts about the only entry of a map. -/
theorem forall_singleton {P : String → PreferencesValue → Prop} (h : P key value) :
    ∀ k v, (Finmap.insert key value (∅ : PrefMap)).lookup k = some v → P k v := by
  intro k v hv
  have hmem := ((enumerates_singleton key value).mem k v).mp hv
  obtain ⟨rfl, rfl⟩ := Prod.mk.inj (List.mem_singleton.mp hmem)
  exact h

theorem xmlText_k : XmlText "k" := by
  intro c hc
  obtain rfl : c = 'k' := by simpa using hc
  unfold XmlChar
  decide

/-- A `BigInt` of no words, with a negative sign. -/
theorem readSettingXml_writeSettingXml_bigInt :
    ∃ doc, writeSettingXml [("k", .bigInt ⟨[], -1⟩)] = some doc ∧
      readSettingXml ⟨0, fun _ => 0, fun _ => 0⟩ doc =
        some (true, Finmap.insert "k" (.bigInt ⟨[], -1⟩) ∅) := by
  refine (readSettingXml_writeSettingXml _ _ _ (enumerates_singleton _ _)
    (forall_singleton (P := fun _ v => v.isExact = true) rfl)
    (forall_singleton (P := fun k _ => XmlText k) xmlText_k)
    (forall_singleton (P := fun _ v => ∀ s ∈ v.texts, XmlText s) (by simp [PreferencesValue.texts]))
    ).mpr ?_
  intro key bytes hv
  have hmem := ((enumerates_singleton _ _).mem key _).mp hv
  exact absurd hmem (by simp)

/-- A byte array that is too long does not come back. -/
theorem not_read_of_long {bytes : Bytes} (hlong : 3 * 2 ^ 30 ≤ bytes.length) :
    ¬ ∃ doc, writeSettingXml [("k", .uint8Array bytes)] = some doc ∧
      readSettingXml x doc = some (true, Finmap.insert "k" (.uint8Array bytes) ∅) := by
  intro ⟨doc, hwrite, hread⟩
  obtain ⟨doc', hwrite', hdoc⟩ := read_write (x := x) [("k", .uint8Array bytes)]
  obtain rfl := Option.some.inj (hwrite'.symm.trans hwrite)
  rw [hread] at hdoc
  obtain ⟨m', hm', heq⟩ := Option.map_eq_some_iff.mp hdoc.symm
  obtain ⟨-, rfl⟩ := Prod.mk.inj heq
  have hlook := readEntries_lookup hm' (by simp) List.mem_cons_self (by simp) Finmap.notMem_empty
  rw [xmlText_k.cStr_eq, Finmap.lookup_insert] at hlook
  exact absurd (length_of_readBack hlook.symm) (not_lt.mpr hlong)

/-- A byte array of `2 ^ 32` zeros. -/
def zeros : Bytes := List.replicate (2 ^ 32) 0

theorem length_zeros : zeros.length = 2 ^ 32 := List.length_replicate

/-- Its length is zero for `Encode`. -/
theorem writeSettingXml_loses_bytes :
    Enumerates [("k", .uint8Array zeros)] (Finmap.insert "k" (.uint8Array zeros) ∅) ∧
      (PreferencesValue.uint8Array zeros).isExact = true ∧ XmlText "k" ∧
      (PreferencesValue.uint8Array zeros).texts = [] ∧
      ¬ ∃ doc, writeSettingXml [("k", .uint8Array zeros)] = some doc ∧
        readSettingXml ⟨0, fun _ => 0, fun _ => 0⟩ doc =
          some (true, Finmap.insert "k" (.uint8Array zeros) ∅) := by
  refine ⟨enumerates_singleton _ _, rfl, xmlText_k, rfl, not_read_of_long ?_⟩
  rw [length_zeros]
  decide

end NativePreferences
