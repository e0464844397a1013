import Mathlib.Data.List.Forall2
import NativePreferences.Xml.Decimals

/-!
# NativePreferences.Xml.Denotation

**What a document says**, whoever wrote it, and whether `ReadSettingXml` reads that.

A document denotes a map if each child of its root denotes an entry of it: the child has a key, its
tag is one that `WriteXmlElement` uses, and its text denotes a value of the kind that the tag is for
(`EntryDenotes`). The texts of integers are decimal numerals within the bounds of the type, those of
floating-point numbers plain decimals, those of byte arrays valid Base64. No two children have the
same key. Such a document is read as what it denotes (`readElements_of_denotes`).

The reader is not that strict. It gives up on a tag that is in none of the tables of
`ParseNodeElement`, on a number without a text and on an array without a key (`Unsupported`). Where
the converters cannot make sense of a text they go on with some value, where `GetPrefValue` does not
know the tag the entry is dropped, and of two entries with one key the second is.
-/

namespace NativePreferences

open Lib

variable {x : Extraction} {node root : XmlNode} {nodes : List XmlNode} {key tag text : String}
variable {value : PreferencesValue} {conMap m : PrefMap} {element : Element}
variable {entries : List (String × PreferencesValue)} {α : Type}

/-! ### Texts and values -/

/-- The text of the attribute is a numeral for the number. -/
def IntegerDenotes (node : XmlNode) (i : Int) : Prop :=
  ∃ text, node.getProp attrValue = some text ∧ parseInteger text = some i

/-- The text of the attribute is a decimal, and this is the finite number nearest to it. -/
def DecimalDenotes (F : Format) (node : XmlNode) (bits : Nat) : Prop :=
  ∃ text, node.getProp attrValue = some text ∧ F.parseNearest text = some bits ∧ IsFinite F bits

def BoolDenotes (node : XmlNode) (b : Bool) : Prop := node.getProp attrValue = some (boolText b)

/-- The children of an array denote its elements, in order. -/
def ItemsDenote (childrenTag : String) (D : XmlNode → α → Prop) (node : XmlNode) (v : List α) :
    Prop :=
  List.Forall₂ (fun child a => child.name = childrenTag ∧ D child a) node.children v

/-- What is in a node denotes the value, given that its tag is for values of that kind. -/
def ContentDenotes (node : XmlNode) : PreferencesValue → Prop
  | .int v => IntegerDenotes node v.toInt
  | .int64 v => IntegerDenotes node v.toInt
  | .float v => DecimalDenotes .binary32 node v.toNat
  | .double v => DecimalDenotes .binary64 node v.toNat
  | .bool v => BoolDenotes node v
  | .string v => node.getContent = v
  | .object v => node.getContent = v.valueStr
  | .uint8Array v => Base64Helper.IsText node.getContent.toList v
  | .stringArray v => ItemsDenote "string" (fun child s => child.getContent = s) node v
  | .boolArray v => ItemsDenote "bool" BoolDenotes node v
  | .doubleArray v =>
      ItemsDenote "double" (fun child d => DecimalDenotes .binary64 child d.toNat) node v
  | .intArray v => ItemsDenote "int" (fun child i => IntegerDenotes child i.toInt) node v
  | .int64Array v => ItemsDenote "int64" (fun child i => IntegerDenotes child i.toInt) node v
  | .bigInt v =>
      ItemsDenote "uint64_t" (fun child word => IntegerDenotes child word.toNat) node
        (v.words ++ [signWord v.sign])
  | .monostate => False

/-- A child of the root denotes an entry. -/
structure EntryDenotes (node : XmlNode) (entry : String × PreferencesValue) : Prop where
  key : node.getProp attrKey = some entry.1
  kind : node.name = (ValueVisitor.visit entry.2).typeTag
  content : ContentDenotes node entry.2

/-- The document denotes the map: it has one entry for each child, and no other. -/
def Denotes (root : XmlNode) (m : PrefMap) : Prop :=
  ∃ entries, List.Forall₂ EntryDenotes root.children entries ∧ Enumerates entries m

/-! ### Parsing what denotes an entry -/

/-- The first table of `ParseNodeElement`: the value is the content. -/
abbrev stringTags : List String := ["string", "uint8Array", "object"]

/-- The second: the value is an attribute. -/
abbrev primitiveTags : List String :=
  ["int", "int64", "long", "bool", "float", "double", "uint64_t"]

/-- The third: there are children. -/
abbrev arrayTags : List String :=
  ["boolArray", "stringArray", "doubleArray", "intArray", "int64Array", "BigInt", "set"]

theorem tables_disjoint :
    (∀ tag ∈ primitiveTags, tag ∉ stringTags) ∧
      ∀ tag ∈ arrayTags, tag ∉ stringTags ∧ tag ∉ primitiveTags := by decide

theorem parseNodeElement_string (hname : node.name ∈ stringTags) :
    parseNodeElement node = parseStringNodeElement node := by
  cases node with
  | text s => exact absurd (show "text" ∈ stringTags from hname) (by decide)
  | element name props children =>
      replace hname : name ∈ stringTags := hname
      rw [parseNodeElement, if_pos hname]

theorem parseNodeElement_primitive (hname : node.name ∈ primitiveTags) :
    parseNodeElement node = parsePrimitiveNodeElement node := by
  cases node with
  | text s => exact absurd (show "text" ∈ primitiveTags from hname) (by decide)
  | element name props children =>
      replace hname : name ∈ primitiveTags := hname
      rw [parseNodeElement, if_neg (tables_disjoint.1 name hname), if_pos hname]

theorem parseNodeElement_array (hname : node.name ∈ arrayTags) :
    parseNodeElement node = parseArrayNodeElement node (parseNodeElements node.children) := by
  cases node with
  | text s => exact absurd (show "text" ∈ arrayTags from hname) (by decide)
  | element name props children =>
      replace hname : name ∈ arrayTags := hname
      obtain ⟨hstring, hprimitive⟩ := tables_disjoint.2 name hname
      rw [parseNodeElement, if_neg hstring, if_neg hprimitive, if_pos hname]
      rfl

theorem parseNodeElement_unknown (hstring : node.name ∉ stringTags)
    (hprimitive : node.name ∉ primitiveTags) (harray : node.name ∉ arrayTags) :
    parseNodeElement node = none := by
  cases node with
  | text s => rfl
  | element name props children =>
      rw [parseNodeElement, if_neg (show name ∉ stringTags from hstring),
        if_neg (show name ∉ primitiveTags from hprimitive),
        if_neg (show name ∉ arrayTags from harray)]

theorem parse_attrValue (hname : node.name ∈ primitiveTags)
    (htext : node.getProp attrValue = some text) :
    parseNodeElement node = some ⟨node.name, (node.getProp attrKey).getD "", text, []⟩ := by
  rw [parseNodeElement_primitive hname, parsePrimitiveNodeElement, htext]
  rfl

/-- The children of an array, if each of them is converted to the element that it denotes. -/
theorem parse_items {D : XmlNode → α → Prop} {f : Element → α} {v : List α}
    (hitem : ∀ child a, child.name = tag → D child a →
      ∃ e, parseNodeElement child = some e ∧ f e = a)
    (h : ItemsDenote tag D node v) :
    ∃ elements, parseNodeElements node.children = some elements ∧ elements.map f = v := by
  unfold ItemsDenote at h
  generalize node.children = children at h
  induction h with
  | nil => exact ⟨[], rfl, rfl⟩
  | cons hchild _ ih =>
      obtain ⟨e, he, hf⟩ := hitem _ _ hchild.1 hchild.2
      obtain ⟨elements, helements, hmap⟩ := ih
      refine ⟨e :: elements, ?_, ?_⟩
      · rw [parseNodeElements, he, helements]
        rfl
      · rw [List.map_cons, hf, hmap]

/-! ### Converting what denotes a value -/

theorem convertInt_eq {v : Int32} (h : parseInteger element.value = some v.toInt) :
    convertInt x element = v := by
  have hlo := Int32.le_toInt v
  have hhi := Int32.toInt_lt v
  rw [convertInt, extractSigned_of_parseInteger h (by omega) (by omega), Int32.ofInt_toInt]

theorem convertInt64_eq {v : Int64} (h : parseInteger element.value = some v.toInt) :
    convertInt64 x element = v := by
  have hlo := Int64.le_toInt v
  have hhi := Int64.toInt_lt v
  rw [convertInt64, extractSigned_of_parseInteger h (by omega) (by omega), Int64.ofInt_toInt]

theorem convertUint64_eq {v : UInt64} (h : parseInteger element.value = some (v.toNat : Int)) :
    convertUint64 x element = v := by
  rw [convertUint64, extractUnsigned_of_parseInteger h v.toNat_lt, UInt64.ofNat_toNat]

theorem convertFloat_eq {v : UInt32}
    (h : Format.binary32.parseNearest element.value = some v.toNat) :
    convertFloat x element = v := by
  rw [convertFloat, Format.extract_of_parseNearest h, UInt32.ofNat_toNat]

theorem convertDouble_eq {v : UInt64}
    (h : Format.binary64.parseNearest element.value = some v.toNat) :
    convertDouble x element = v := by
  rw [convertDouble, Format.extract_of_parseNearest h, UInt64.ofNat_toNat]

theorem convertBool_eq {v : Bool} (h : element.value = boolText v) : convertBool element = v := by
  rw [convertBool, h]
  cases v with
  | true => decide
  | false => decide

/-- The words of a `BigInt` are those before the last one, which is the sign. -/
theorem convertBigInt_eq {v : BigInt}
    (h : element.children.map (convertUint64 x) = v.words ++ [signWord v.sign]) :
    convertBigInt x element = v := by
  simp only [convertBigInt, h, List.getLast?_append, List.getLast?_singleton, Option.some_or,
    List.dropLast_concat, ofInt_signWord]

/-- The node is parsed, and its element has the key and is converted to the value, if it is
converted at all: the text of a byte array may be too long. -/
def ReadsAs (x : Extraction) (node : XmlNode) (key : String) (value : PreferencesValue) : Prop :=
  ∃ element, parseNodeElement node = some element ∧ element.key = key ∧
    (getPrefValue x element = some (some value) ∨ getPrefValue x element = none)

theorem readsAs_attrValue (tag : String) (hkey : node.getProp attrKey = some key)
    (hname : node.name = tag) (htag : tag ∈ primitiveTags)
    (htext : node.getProp attrValue = some text)
    (hvalue : getPrefValue x ⟨tag, key, text, []⟩ = some (some value)) :
    ReadsAs x node key value := by
  refine ⟨_, parse_attrValue (hname ▸ htag) htext, ?_, .inl ?_⟩
  · rw [hkey]
    rfl
  · rw [hname, hkey]
    exact hvalue

theorem readsAs_content (tag : String) (hkey : node.getProp attrKey = some key)
    (hname : node.name = tag) (htag : tag ∈ stringTags)
    (hvalue : getPrefValue x ⟨tag, key, node.getContent, []⟩ = some (some value) ∨
      getPrefValue x ⟨tag, key, node.getContent, []⟩ = none) :
    ReadsAs x node key value := by
  refine ⟨_, parseNodeElement_string (hname ▸ htag), ?_, ?_⟩
  · rw [hkey]
    rfl
  · rw [hname, hkey]
    exact hvalue

theorem readsAs_items {D : XmlNode → α → Prop} {v : List α} {childrenTag : String} (tag : String)
    (f : Element → α) (hkey : node.getProp attrKey = some key) (hname : node.name = tag)
    (htag : tag ∈ arrayTags)
    (hitem : ∀ child a, child.name = childrenTag → D child a →
      ∃ e, parseNodeElement child = some e ∧ f e = a)
    (h : ItemsDenote childrenTag D node v)
    (hvalue : ∀ elements, elements.map f = v →
      getPrefValue x ⟨tag, key, "", elements⟩ = some (some value)) :
    ReadsAs x node key value := by
  obtain ⟨elements, helements, hmap⟩ := parse_items hitem h
  refine ⟨⟨tag, key, "", elements⟩, ?_, rfl, .inl (hvalue elements hmap)⟩
  rw [parseNodeElement_array (hname ▸ htag), parseArrayNodeElement, hkey, helements, ← hname]
  rfl

/-- **What denotes an entry is read as that entry.** -/
theorem readsAs_of_denotes (h : EntryDenotes node (key, value)) : ReadsAs x node key value := by
  obtain ⟨hkey, hkind, hcontent⟩ := h
  cases value with
  | monostate => exact hcontent.elim
  | int v =>
      obtain ⟨text, htext, hnum⟩ := hcontent
      have hv : convertInt x ⟨"int", key, text, []⟩ = v := convertInt_eq hnum
      refine readsAs_attrValue "int" hkey hkind (by decide) htext ?_
      exact congrArg (fun v => some (some (PreferencesValue.int v))) hv
  | int64 v =>
      obtain ⟨text, htext, hnum⟩ := hcontent
      have hv : convertInt64 x ⟨"long", key, text, []⟩ = v := convertInt64_eq hnum
      refine readsAs_attrValue "long" hkey hkind (by decide) htext ?_
      exact congrArg (fun v => some (some (PreferencesValue.int64 v))) hv
  | float v =>
      obtain ⟨text, htext, hnum, -⟩ := hcontent
      have hv : convertFloat x ⟨"float", key, text, []⟩ = v := convertFloat_eq hnum
      refine readsAs_attrValue "float" hkey hkind (by decide) htext ?_
      exact congrArg (fun v => some (some (PreferencesValue.float v))) hv
  | double v =>
      obtain ⟨text, htext, hnum, -⟩ := hcontent
      have hv : convertDouble x ⟨"double", key, text, []⟩ = v := convertDouble_eq hnum
      refine readsAs_attrValue "double" hkey hkind (by decide) htext ?_
      exact congrArg (fun v => some (some (PreferencesValue.double v))) hv
  | bool v =>
      have hv : convertBool ⟨"bool", key, boolText v, []⟩ = v := convertBool_eq rfl
      refine readsAs_attrValue "bool" hkey hkind (by decide) hcontent ?_
      exact congrArg (fun v => some (some (PreferencesValue.bool v))) hv
  | string v =>
      refine readsAs_content "string" hkey hkind (by decide) (.inl ?_)
      exact congrArg (fun s => some (some (PreferencesValue.string s))) hcontent
  | object v =>
      refine readsAs_content "object" hkey hkind (by decide) (.inl ?_)
      exact congrArg (fun s => some (some (PreferencesValue.object ⟨s⟩))) hcontent
  | uint8Array v =>
      refine readsAs_content "uint8Array" hkey hkind (by decide) ?_
      simp only [getPrefValue, reduceIte, String.reduceEq, convertUint8Array]
      rcases Base64Helper.decode_of_isText hcontent with hdec | hdec
      · rw [hdec]
        exact .inr rfl
      · rw [hdec]
        exact .inl rfl
  | stringArray v =>
      refine readsAs_items "stringArray" Element.value hkey hkind (by decide) ?_ hcontent ?_
      · intro child s hname hs
        exact ⟨_, parseNodeElement_string (by rw [hname]; decide), hs⟩
      · intro elements hmap
        exact congrArg (fun v => some (some (PreferencesValue.stringArray v))) hmap
  | boolArray v =>
      refine readsAs_items "boolArray" convertBool hkey hkind (by decide) ?_ hcontent ?_
      · intro child b hname hb
        exact ⟨_, parse_attrValue (by rw [hname]; decide) hb, convertBool_eq rfl⟩
      · intro elements hmap
        exact congrArg (fun v => some (some (PreferencesValue.boolArray v))) hmap
  | doubleArray v =>
      refine readsAs_items "doubleArray" (convertDouble x) hkey hkind (by decide) ?_ hcontent ?_
      · intro child d hname hd
        obtain ⟨text, htext, hnum, -⟩ := hd
        exact ⟨_, parse_attrValue (by rw [hname]; decide) htext, convertDouble_eq hnum⟩
      · intro elements hmap
        exact congrArg (fun v => some (some (PreferencesValue.doubleArray v))) hmap
  | intArray v =>
      refine readsAs_items "intArray" (convertInt x) hkey hkind (by decide) ?_ hcontent ?_
      · intro child i hname hi
        obtain ⟨text, htext, hnum⟩ := hi
        exact ⟨_, parse_attrValue (by rw [hname]; decide) htext, convertInt_eq hnum⟩
      · intro elements hmap
        exact congrArg (fun v => some (some (PreferencesValue.intArray v))) hmap
  | int64Array v =>
      refine readsAs_items "int64Array" (convertInt64 x) hkey hkind (by decide) ?_ hcontent ?_
      · intro child i hname hi
        obtain ⟨text, htext, hnum⟩ := hi
        exact ⟨_, parse_attrValue (by rw [hname]; decide) htext, convertInt64_eq hnum⟩
      · intro elements hmap
        exact congrArg (fun v => some (some (PreferencesValue.int64Array v))) hmap
  | bigInt v =>
      refine readsAs_items "BigInt" (convertUint64 x) hkey hkind (by decide) ?_ hcontent ?_
      · intro child word hname hword
        obtain ⟨text, htext, hnum⟩ := hword
        exact ⟨_, parse_attrValue (by rw [hname]; decide) htext, convertUint64_eq hnum⟩
      · intro elements hmap
        exact congrArg (fun v => some (some (PreferencesValue.bigInt v))) (convertBigInt_eq hmap)

/-! ### Reading what denotes a map -/

/-- The loop of `ReadSettingXml`, on children that denote entries with keys of their own. If it
returns, the map has these entries, beside those from before. -/
theorem readElements_of_denotes (h : List.Forall₂ EntryDenotes nodes entries)
    (hnodup : (entries.map Prod.fst).Nodup) (hfresh : ∀ entry ∈ entries, entry.1 ∉ conMap)
    {r : Bool × PrefMap} (hread : readElements x nodes conMap = some r) :
    r.1 = true ∧ ∀ key value,
      r.2.lookup key = some value ↔ (key, value) ∈ entries ∨ conMap.lookup key = some value := by
  induction h generalizing conMap with
  | nil =>
      obtain rfl := Option.some.inj hread
      simp
  | @cons node entry nodes entries hentry _ ih =>
      obtain ⟨k, v⟩ := entry
      obtain ⟨element, hparse, rfl, hvalue⟩ := readsAs_of_denotes (x := x) hentry
      rw [List.map_cons, List.nodup_cons] at hnodup
      have hnew : element.key ∉ conMap := hfresh _ List.mem_cons_self
      rw [readElements, hparse] at hread
      dsimp only at hread
      rcases hvalue with hvalue | hvalue
      · rw [readXmlElement, hvalue] at hread
        dsimp only at hread
        rw [if_neg hnew] at hread
        have hfresh' : ∀ entry ∈ entries, entry.1 ∉ conMap.insert element.key v := by
          intro entry hmem
          rw [Finmap.mem_insert, not_or]
          refine ⟨?_, hfresh entry (List.mem_cons_of_mem _ hmem)⟩
          intro heq
          exact hnodup.1 (List.mem_map.mpr ⟨entry, hmem, heq⟩)
        obtain ⟨htrue, hlookup⟩ := ih hnodup.2 hfresh' hread
        refine ⟨htrue, ?_⟩
        intro key value
        rw [hlookup, List.mem_cons]
        by_cases hkey : key = element.key
        · subst hkey
          have hold : conMap.lookup element.key = none := Finmap.lookup_eq_none.mpr hnew
          simp [Finmap.lookup_insert, hold, eq_comm]
          tauto
        · rw [Finmap.lookup_insert_of_ne _ hkey]
          simp [hkey]
      · rw [readXmlElement, hvalue] at hread
        exact absurd hread (by simp)

/-- **What denotes a map is read as that map**, if `ReadSettingXml` returns. -/
theorem readSettingXml_of_denotes (hroot : root.name = tagPreferences) (h : Denotes root m)
    {r : Bool × PrefMap} (hread : readSettingXml x root = some r) :
    r.1 = true ∧ Denotes root r.2 := by
  obtain ⟨entries, hentries, henum⟩ := h
  rw [readSettingXml, if_neg (not_not.mpr hroot)] at hread
  obtain ⟨htrue, hlookup⟩ := readElements_of_denotes hentries henum.nodup
    (fun entry _ => Finmap.notMem_empty) hread
  refine ⟨htrue, entries, hentries, henum.nodup, ?_⟩
  intro key value
  rw [hlookup]
  simp

/-! ### Giving up -/

/-- `ParseNodeElement` does not take the node: a tag in none of its tables, a primitive without a
text, an array without a key or with a child that is not taken. -/
inductive Unsupported : XmlNode → Prop
  | tag {node : XmlNode} (hstring : node.name ∉ stringTags)
      (hprimitive : node.name ∉ primitiveTags) (harray : node.name ∉ arrayTags) : Unsupported node
  | value {node : XmlNode} (hname : node.name ∈ primitiveTags)
      (hvalue : node.getProp attrValue = none) : Unsupported node
  | key {node : XmlNode} (hname : node.name ∈ arrayTags) (hkey : node.getProp attrKey = none) :
      Unsupported node
  | child {node child : XmlNode} (hname : node.name ∈ arrayTags) (hchild : child ∈ node.children)
      (h : Unsupported child) : Unsupported node

theorem parseNodeElements_none :
    parseNodeElements nodes = none ↔ ∃ node ∈ nodes, parseNodeElement node = none := by
  induction nodes with
  | nil => simp [parseNodeElements]
  | cons node nodes ih =>
      rw [List.exists_mem_cons_iff, ← ih, parseNodeElements]
      cases parseNodeElement node with
      | none => simp
      | some element =>
          cases parseNodeElements nodes with
          | none => simp
          | some elements => simp

theorem Unsupported.parse (h : Unsupported node) : parseNodeElement node = none := by
  induction h with
  | tag hstring hprimitive harray => exact parseNodeElement_unknown hstring hprimitive harray
  | value hname hvalue =>
      rw [parseNodeElement_primitive hname, parsePrimitiveNodeElement, hvalue]
      rfl
  | key hname hkey =>
      rw [parseNodeElement_array hname, parseArrayNodeElement, hkey]
      rfl
  | child hname hchild _ ih =>
      rw [parseNodeElement_array hname, parseArrayNodeElement,
        parseNodeElements_none.mpr ⟨_, hchild, ih⟩]
      simp

mutual

theorem unsupported_of_parse (node : XmlNode) (h : parseNodeElement node = none) :
    Unsupported node := by
  by_cases hstring : node.name ∈ stringTags
  · rw [parseNodeElement_string hstring] at h
    exact absurd h (by simp [parseStringNodeElement])
  by_cases hprimitive : node.name ∈ primitiveTags
  · rw [parseNodeElement_primitive hprimitive, parsePrimitiveNodeElement] at h
    cases hvalue : node.getProp attrValue with
    | none => exact .value hprimitive hvalue
    | some text => exact absurd h (by simp [hvalue])
  by_cases harray : node.name ∈ arrayTags
  · cases hkey : node.getProp attrKey with
    | none => exact .key harray hkey
    | some key =>
        cases node with
        | text s => exact absurd hkey (by simp [XmlNode.getProp])
        | element name props children =>
            rw [parseNodeElement_array harray, parseArrayNodeElement, hkey] at h
            cases hchildren : parseNodeElements children with
            | none =>
                obtain ⟨child, hchild, hnone⟩ := unsupported_of_parses children hchildren
                exact .child harray hchild hnone
            | some elements => exact absurd h (by simp [XmlNode.children, hchildren])
  exact .tag hstring hprimitive harray

theorem unsupported_of_parses (nodes : List XmlNode) (h : parseNodeElements nodes = none) :
    ∃ node ∈ nodes, Unsupported node := by
  cases nodes with
  | nil => exact absurd h (by simp [parseNodeElements])
  | cons node nodes =>
      cases hnode : parseNodeElement node with
      | none => exact ⟨node, List.mem_cons_self, unsupported_of_parse node hnode⟩
      | some element =>
          cases hnodes : parseNodeElements nodes with
          | none =>
              obtain ⟨child, hchild, hnone⟩ := unsupported_of_parses nodes hnodes
              exact ⟨child, List.mem_cons_of_mem _ hchild, hnone⟩
          | some elements => exact absurd h (by simp [parseNodeElements, hnode, hnodes])

end

/-- `Decode` does not return on the text of a byte array. -/
def Hangs (node : XmlNode) : Prop :=
  node.name = "uint8Array" ∧ Base64Helper.decode (utf8 node.getContent) = none

/-- The loop of `ReadSettingXml` comes to a node that is not taken. -/
inductive Refused : List XmlNode → Prop
  | here {node : XmlNode} {nodes : List XmlNode} (h : Unsupported node) : Refused (node :: nodes)
  | later {node : XmlNode} {nodes : List XmlNode} (hnode : ¬ Hangs node) (h : Refused nodes) :
      Refused (node :: nodes)

theorem tag_of_parse (h : parseNodeElement node = some element) : element.tag = node.name := by
  by_cases hstring : node.name ∈ stringTags
  · rw [parseNodeElement_string hstring] at h
    rw [← Option.some.inj h]
  by_cases hprimitive : node.name ∈ primitiveTags
  · cases htext : node.getProp attrValue with
    | none => exact absurd (Unsupported.value hprimitive htext).parse (by simp [h])
    | some text =>
        rw [parse_attrValue hprimitive htext] at h
        rw [← Option.some.inj h]
  by_cases harray : node.name ∈ arrayTags
  · rw [parseNodeElement_array harray, parseArrayNodeElement] at h
    simp only [Option.bind_eq_bind, Option.bind_eq_some_iff] at h
    obtain ⟨key, -, children, -, helement⟩ := h
    rw [← Option.some.inj helement]
  · rw [parseNodeElement_unknown hstring hprimitive harray] at h
    exact absurd h (by simp)

theorem ite_ne_none {c : Prop} [Decidable c] {a b : Option α} (ha : a ≠ none) (hb : b ≠ none) :
    (if c then a else b) ≠ none := by
  split
  · exact ha
  · exact hb

theorem getPrefValue_none : getPrefValue x element = none ↔
    element.tag = "uint8Array" ∧ Base64Helper.decode (utf8 element.value) = none := by
  by_cases htag : element.tag = "uint8Array"
  · simp only [getPrefValue, htag, reduceIte, String.reduceEq, true_and, convertUint8Array]
    cases Base64Helper.decode (utf8 element.value) with
    | none => simp
    | some output =>
        cases output with
        | none => simp
        | some bytes => simp
  · -- only the branch of byte arrays has no result
    simp only [getPrefValue, htag, if_false, false_and, iff_false]
    repeat refine ite_ne_none (Option.some_ne_none _) ?_
    exact Option.some_ne_none _

/-- A node that is taken is converted, unless it is a byte array that `Decode` does not return
on. -/
theorem readXmlElement_none (hparse : parseNodeElement node = some element) :
    readXmlElement x element conMap = none ↔ Hangs node := by
  have hconvert : readXmlElement x element conMap = none ↔ getPrefValue x element = none := by
    rw [readXmlElement]
    cases getPrefValue x element with
    | none => simp
    | some value =>
        cases value with
        | none => simp
        | some value => simp
  rw [hconvert, getPrefValue_none, tag_of_parse hparse, Hangs]
  refine and_congr_right ?_
  intro hname
  rw [parseNodeElement_string (by rw [hname]; decide)] at hparse
  rw [← Option.some.inj hparse]

/-- **Exactly when `ReadSettingXml` gives up.** -/
theorem readElements_false (conMap : PrefMap) :
    (∃ m, readElements x nodes conMap = some (false, m)) ↔ Refused nodes := by
  induction nodes generalizing conMap with
  | nil =>
      constructor
      · intro h
        obtain ⟨m, hread⟩ := h
        exact absurd hread (by simp [readElements])
      · intro h
        cases h
  | cons node nodes ih =>
      rw [readElements]
      cases hparse : parseNodeElement node with
      | none => exact ⟨fun _ => .here (unsupported_of_parse node hparse), fun _ => ⟨conMap, rfl⟩⟩
      | some element =>
          have htaken : ¬ Unsupported node := by
            intro h
            rw [h.parse] at hparse
            exact absurd hparse (by simp)
          dsimp only
          cases hconvert : readXmlElement x element conMap with
          | none =>
              have hhangs := (readXmlElement_none hparse).mp hconvert
              constructor
              · intro h
                obtain ⟨m, hread⟩ := h
                exact absurd hread (by simp)
              · intro h
                cases h with
                | here h => exact absurd h htaken
                | later hnode _ => exact absurd hhangs hnode
          | some conMap' =>
              have hnode : ¬ Hangs node := by
                intro h
                rw [(readXmlElement_none hparse).mpr h] at hconvert
                exact absurd hconvert (by simp)
              rw [ih]
              constructor
              · exact .later hnode
              · intro h
                cases h with
                | here h => exact absurd h htaken
                | later _ h => exact h

/-! ### Faithful reading -/

/-- Nothing is dropped or altered silently: a map that is returned with `true` is what the document
denotes, and where it denotes none, `false` is returned. -/
def Faithful (x : Extraction) (root : XmlNode) : Prop :=
  (∀ m, readSettingXml x root = some (true, m) → Denotes root m) ∧
    ((¬ ∃ m, Denotes root m) → ∃ m, readSettingXml x root = some (false, m))

/-- **Exactly when a document is read faithfully**: it denotes a map, or the loop comes to a node
that is not taken. -/
theorem readSettingXml_faithful_iff (x : Extraction) (hroot : root.name = tagPreferences) :
    Faithful x root ↔ (∃ m, Denotes root m) ∨ Refused root.children := by
  have hread : readSettingXml x root = readElements x root.children ∅ := by
    rw [readSettingXml, if_neg (not_not.mpr hroot)]
  constructor
  · intro ⟨_, hfalse⟩
    by_cases hdenotes : ∃ m, Denotes root m
    · exact .inl hdenotes
    · rw [hread] at hfalse
      exact .inr ((readElements_false ∅).mp (hfalse hdenotes))
  · intro h
    rcases h with ⟨m, hm⟩ | hrefused
    · exact ⟨fun m' hm' => (readSettingXml_of_denotes hroot hm hm').2, fun hnone =>
        absurd ⟨m, hm⟩ hnone⟩
    · obtain ⟨m, hm⟩ := (readElements_false (x := x) ∅).mpr hrefused
      rw [← hread] at hm
      refine ⟨?_, fun _ => ⟨m, hm⟩⟩
      intro m' hm'
      exact absurd (hm.symm.trans hm') (by simp)

/-! ### Runs -/

/-- The conventions of some stream. -/
def Extraction.zero : Extraction := ⟨0, fun _ => 0, fun _ => 0⟩

/-- A document with these children of its root. -/
def document (children : List XmlNode) : XmlNode :=
  .element tagPreferences [(tagVersion, versionValue)] children

/-- One integer. -/
def integerDocument : XmlNode := document [.element "int" [("key", "a"), ("value", "-7")] []]

theorem integerDocument_faithful : Faithful .zero integerDocument := by
  refine (readSettingXml_faithful_iff .zero rfl).mpr (.inl ⟨Finmap.insert "a" (.int (-7)) ∅, ?_⟩)
  refine ⟨[("a", .int (-7))], ?_, enumerates_singleton _ _⟩
  exact .cons ⟨rfl, rfl, "-7", rfl, by decide⟩ .nil

/-- A node with the tag of integers denotes an integer. -/
theorem EntryDenotes.int {entry : String × PreferencesValue} (h : EntryDenotes node entry)
    (hname : node.name = "int") : ∃ v : Int32, IntegerDenotes node v.toInt := by
  obtain ⟨key, value⟩ := entry
  obtain ⟨-, hkind, hcontent⟩ := h
  rw [hname] at hkind
  cases value with
  | int v => exact ⟨v, hcontent⟩
  | _ => exact absurd hkind (by simp [ValueVisitor.visit])

/-- An integer without digits is read as zero. -/
theorem reads_no_digits :
    ¬ ∀ root : XmlNode, root.name = tagPreferences → Faithful .zero root := by
  intro hall
  have hdoc := hall (document [.element "int" [("key", "a"), ("value", "x")] []]) rfl
  obtain ⟨entries, hentries, -⟩ := hdoc.1 (Finmap.insert "a" (.int 0) ∅) rfl
  cases hentries with
  | cons hentry _ =>
      obtain ⟨v, text, htext, hnum⟩ := hentry.int rfl
      obtain rfl : "x" = text := Option.some.inj htext
      exact absurd (show none = some v.toInt from hnum) (by simp)

end NativePreferences
