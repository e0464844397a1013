import NativePreferences.Lib.DecimalText
import NativePreferences.Value
import NativePreferences.Xml.Base64
import NativePreferences.Xml.Tree

/-!
# NativePreferences.Xml.Element

**Maps as documents** (`preferences_xml_utils.cpp`): `WriteSettingXml` up to the document that it
writes, and `ReadSettingXml` from the document on.

The writer has one table of tags (`ValueVisitor`), the reader two: one for what an element looks
like (`ParseNodeElement`) and one for the value that it stands for (`GetPrefValue`). Numbers go
through texts both ways, by `std::to_string` and a `std::stringstream`. What is left open about the
latter is an `Extraction`.
-/

namespace NativePreferences

open Lib

/-! ### Writing -/

/-- `TAG_PREFERENCES`. -/
def tagPreferences : String := "preferences"

/-- `TAG_VERSION`. -/
def tagVersion : String := "version"

/-- `VERSION_VALUE`. -/
def versionValue : String := "1.0"

/-- `ATTR_KEY`. -/
def attrKey : String := "key"

/-- `ATTR_VALUE`. -/
def attrValue : String := "value"

/-- The members of `ValueVisitor`. -/
structure ValueVisitor where
  typeTag : String
  valueStr : String := ""
  childrenTag : String := ""
  arrayValues : List String := []

/-- A `bool` as a text. -/
def boolText (b : Bool) : String := if b then "true" else "false"

/-- `std::to_string` of a `double`. -/
def doubleText (bits : UInt64) : String := Format.binary64.toText 6 bits.toNat

/-- `std::to_string` of a `float`, which is converted to a `double`. That changes neither its value
nor its text. -/
def floatText (bits : UInt32) : String := Format.binary32.toText 6 bits.toNat

/-- `static_cast<uint64_t>(sign)`. -/
def signWord (sign : Int32) : UInt64 := UInt64.ofInt sign.toInt

/-- The functions of `ValueVisitor`. -/
def ValueVisitor.visit : PreferencesValue → ValueVisitor
  | .int v => { typeTag := "int", valueStr := toString v.toInt }
  | .bool v => { typeTag := "bool", valueStr := boolText v }
  | .int64 v => { typeTag := "long", valueStr := toString v.toInt }
  | .float v => { typeTag := "float", valueStr := floatText v }
  | .double v => { typeTag := "double", valueStr := doubleText v }
  | .string v => { typeTag := "string", valueStr := v }
  | .stringArray v => { typeTag := "stringArray", childrenTag := "string", arrayValues := v }
  | .doubleArray v =>
      { typeTag := "doubleArray", childrenTag := "double", arrayValues := v.map doubleText }
  | .boolArray v => { typeTag := "boolArray", childrenTag := "bool", arrayValues := v.map boolText }
  | .uint8Array v => { typeTag := "uint8Array", valueStr := Base64Helper.encode v }
  | .object v => { typeTag := "object", valueStr := v.valueStr }
  | .bigInt v =>
      { typeTag := "BigInt", childrenTag := "uint64_t"
        arrayValues := v.words.map (fun word => toString word.toNat) ++
          [toString (signWord v.sign).toNat] }
  | .intArray v =>
      { typeTag := "intArray", childrenTag := "int"
        arrayValues := v.map (fun i => toString i.toInt) }
  | .int64Array v =>
      { typeTag := "int64Array", childrenTag := "int64"
        arrayValues := v.map (fun i => toString i.toInt) }
  | .monostate => { typeTag := "unknown" }

/-- An element of an array. -/
def writeChild (childrenTag : String) (writer : XmlWriter) (child : String) : Option XmlWriter :=
  if childrenTag = "string" then do
    let writer ← writer.startElement childrenTag
    let writer ← writer.writeString (cStr child)
    writer.endElement
  else do
    let writer ← writer.startElement childrenTag
    let writer ← writer.writeAttribute attrValue (cStr child)
    writer.endElement

/-- `WriteXmlElement`. -/
def writeXmlElement (writer : XmlWriter) (key : String) (value : PreferencesValue) :
    Option XmlWriter :=
  let visitor := ValueVisitor.visit value
  if visitor.typeTag ∈ ["string", "uint8Array", "object"] then do
    let writer ← writer.startElement visitor.typeTag
    let writer ← writer.writeAttribute attrKey (cStr key)
    let writer ← writer.writeString (cStr visitor.valueStr)
    writer.endElement
  else if visitor.typeTag ∈ ["int", "long", "float", "bool", "double"] then do
    let writer ← writer.startElement visitor.typeTag
    let writer ← writer.writeAttribute attrKey (cStr key)
    let writer ← writer.writeAttribute attrValue (cStr visitor.valueStr)
    writer.endElement
  else if visitor.typeTag ∈
      ["intArray", "int64Array", "doubleArray", "stringArray", "boolArray", "BigInt"] then do
    let writer ← writer.startElement visitor.typeTag
    let writer ← writer.writeAttribute attrKey (cStr key)
    let writer ← visitor.arrayValues.foldlM (writeChild visitor.childrenTag) writer
    writer.endElement
  else return writer

/-- `WriteSettingXml`, up to the document. The entries of the map come in some order. -/
def writeSettingXml (writeToDiskMap : List (String × PreferencesValue)) : Option XmlNode := do
  let writer : XmlWriter := { opened := [], root := none }
  let writer ← writer.startElement tagPreferences
  let writer ← writer.writeAttribute tagVersion versionValue
  let writer ← writeToDiskMap.foldlM
    (fun writer entry => writeXmlElement writer entry.1 entry.2) writer
  let writer ← writer.endElement
  writer.root

/-! ### Parsing -/

/-- `class Element`. -/
structure Element where
  tag : String
  key : String
  value : String
  children : List Element

/-- `ParsePrimitiveNodeElement`. -/
def parsePrimitiveNodeElement (node : XmlNode) : Option Element := do
  let value ← node.getProp attrValue
  return { tag := node.name, key := (node.getProp attrKey).getD "", value := value, children := [] }

/-- `ParseStringNodeElement`. -/
def parseStringNodeElement (node : XmlNode) : Option Element :=
  some { tag := node.name, key := (node.getProp attrKey).getD "", value := node.getContent,
         children := [] }

/-- `ParseArrayNodeElement`, given what the loop over the children comes to. -/
def parseArrayNodeElement (node : XmlNode) (children : Option (List Element)) : Option Element := do
  let key ← node.getProp attrKey
  let children ← children
  return { tag := node.name, key := key, value := "", children := children }

mutual

/-- `ParseNodeElement`. The name of a text is "text", which is no tag. -/
def parseNodeElement : XmlNode → Option Element
  | .text _ => none
  | .element name props children =>
      if name ∈ ["string", "uint8Array", "object"] then
        parseStringNodeElement (.element name props children)
      else if name ∈ ["int", "int64", "long", "bool", "float", "double", "uint64_t"] then
        parsePrimitiveNodeElement (.element name props children)
      else if name ∈
          ["boolArray", "stringArray", "doubleArray", "intArray", "int64Array", "BigInt",
            "set"] then
        parseArrayNodeElement (.element name props children) (parseNodeElements children)
      else none

/-- The loop over the children. -/
def parseNodeElements : List XmlNode → Option (List Element)
  | [] => some []
  | node :: nodes => do
      let child ← parseNodeElement node
      let children ← parseNodeElements nodes
      return child :: children

end

/-! ### Converting -/

/-- What is left open about `ss >> value`: what a variable holds that has not been initialised, and
which numbers are read from texts that are no plain decimals. -/
structure Extraction where
  garbage : Int
  float : String → UInt32
  double : String → UInt64

/-- `Convert2PrefValue` for an `int`. -/
def convertInt (x : Extraction) (element : Element) : Int32 :=
  Int32.ofInt (extractSigned (-2 ^ 31) (2 ^ 31 - 1) x.garbage element.value)

/-- `Convert2PrefValue` for an `int64_t`. -/
def convertInt64 (x : Extraction) (element : Element) : Int64 :=
  Int64.ofInt (extractSigned (-2 ^ 63) (2 ^ 63 - 1) x.garbage element.value)

/-- `Convert2PrefValue` for a `uint64_t`. -/
def convertUint64 (x : Extraction) (element : Element) : UInt64 :=
  UInt64.ofNat (extractUnsigned 64 x.garbage.toNat element.value)

/-- `Convert2PrefValue` for a `float`. -/
def convertFloat (x : Extraction) (element : Element) : UInt32 :=
  UInt32.ofNat
    (Format.binary32.extract (fun text => (x.float text).toNat) x.garbage.toNat element.value)

/-- `Convert2PrefValue` for a `double`. -/
def convertDouble (x : Extraction) (element : Element) : UInt64 :=
  UInt64.ofNat
    (Format.binary64.extract (fun text => (x.double text).toNat) x.garbage.toNat element.value)

/-- `Convert2PrefValue` for a `bool`. -/
def convertBool (element : Element) : Bool := element.value == "true"

/-- `Convert2PrefValue` for a `BigInt`: the last word is the sign. -/
def convertBigInt (x : Extraction) (element : Element) : BigInt :=
  let words := element.children.map (convertUint64 x)
  match words.getLast? with
  | none => { words := [], sign := 0 }
  | some last => { words := words.dropLast, sign := Int32.ofInt last.toNat }

/-- `Convert2PrefValue` for a `std::vector<uint8_t>`, if it has a result. -/
def convertUint8Array (element : Element) : Option Bytes :=
  match Base64Helper.decode (utf8 element.value) with
  | none => none
  | some none => some []
  | some (some output) => some output

/-- `GetPrefValue`, with the alternatives of the variant one after the other. The outer `none` is no
result, the inner one is `false`. -/
def getPrefValue (x : Extraction) (element : Element) : Option (Option PreferencesValue) :=
  if element.tag = "unknown" then some (some .monostate)
  else if element.tag = "int" then some (some (.int (convertInt x element)))
  else if element.tag = "long" then some (some (.int64 (convertInt64 x element)))
  else if element.tag = "float" then some (some (.float (convertFloat x element)))
  else if element.tag = "double" then some (some (.double (convertDouble x element)))
  else if element.tag = "bool" then some (some (.bool (convertBool element)))
  else if element.tag = "string" then some (some (.string element.value))
  else if element.tag = "stringArray" then
    some (some (.stringArray (element.children.map Element.value)))
  else if element.tag = "boolArray" then
    some (some (.boolArray (element.children.map convertBool)))
  else if element.tag = "doubleArray" then
    some (some (.doubleArray (element.children.map (convertDouble x))))
  else if element.tag = "uint8Array" then
    match convertUint8Array element with
    | none => none
    | some output => some (some (.uint8Array output))
  else if element.tag = "object" then some (some (.object ⟨element.value⟩))
  else if element.tag = "BigInt" then some (some (.bigInt (convertBigInt x element)))
  else if element.tag = "intArray" then
    some (some (.intArray (element.children.map (convertInt x))))
  else if element.tag = "int64Array" then
    some (some (.int64Array (element.children.map (convertInt64 x))))
  else some none

/-- `ReadXmlElement`. `insert` keeps what is there. -/
def readXmlElement (x : Extraction) (element : Element) (prefConMap : PrefMap) : Option PrefMap :=
  match getPrefValue x element with
  | none => none
  | some none => some prefConMap
  | some (some value) =>
      some (if element.key ∈ prefConMap then prefConMap else prefConMap.insert element.key value)

/-- The loop of `ReadSettingXml`. -/
def readElements (x : Extraction) : List XmlNode → PrefMap → Option (Bool × PrefMap)
  | [], conMap => some (true, conMap)
  | cur :: nodes, conMap =>
      match parseNodeElement cur with
      | none => some (false, conMap)
      | some element =>
          match readXmlElement x element conMap with
          | none => none
          | some conMap => readElements x nodes conMap

/-- `ReadSettingXml`, from the root of the document on. It has no result if it does not return. -/
def readSettingXml (x : Extraction) (root : XmlNode) : Option (Bool × PrefMap) :=
  if root.name ≠ tagPreferences then some (false, ∅) else readElements x root.children ∅

end NativePreferences
