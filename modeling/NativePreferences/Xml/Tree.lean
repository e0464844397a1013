import Mathlib.Data.List.TakeWhile
import NativePreferences.Lib.Bytes

/-!
# NativePreferences.Xml.Tree

**Documents of elements, attributes and texts**, as libxml2 builds and reads them.

A document is written piece by piece (`xmlTextWriter`), from the outside in. The calls return an
error where the piece cannot stand, an attribute after a text for example; that they run out of
memory is left out. A text that is empty leaves no node behind.
-/

namespace NativePreferences

/-- `xmlNode`. -/
inductive XmlNode
  | element (name : String) (props : List (String × String)) (children : List XmlNode)
  | text (content : String)

namespace XmlNode

/-- `node->name`. -/
def name : XmlNode → String
  | .element name _ _ => name
  | .text _ => "text"

/-- `xmlGetProp`. -/
def getProp : XmlNode → (name : String) → Option String
  | .element _ props _, name => props.lookup name
  | .text _, _ => none

/-- `node->children`. -/
def children : XmlNode → List XmlNode
  | .element _ _ children => children
  | .text _ => []

mutual

/-- `xmlNodeGetContent`. -/
def getContent : XmlNode → String
  | .element _ _ children => getContents children
  | .text content => content

@[inherit_doc getContent]
def getContents : List XmlNode → String
  | [] => ""
  | node :: nodes => node.getContent ++ getContents nodes

end

end XmlNode

/-- What an argument of type `const char *` delivers: the text up to the first NUL. -/
def cStr (s : String) : String := String.ofList (s.toList.takeWhile (· ≠ '\x00'))

theorem cStr_eq {s : String} (hs : '\x00' ∉ s.toList) : cStr s = s := by
  have htake : s.toList.takeWhile (· ≠ '\x00') = s.toList := by
    rw [List.takeWhile_eq_self_iff]
    intro c hc
    rw [decide_eq_true_eq]
    rintro rfl
    exact hs hc
  rw [cStr, htake, String.ofList_toList]

theorem cStr_cStr (s : String) : cStr (cStr s) = cStr s := by
  rw [cStr, cStr, String.toList_ofList, List.takeWhile_takeWhile]
  simp

theorem cStr_printable {s : String} (hs : Lib.Printable s) : cStr s = s := by
  refine cStr_eq ?_
  intro hnul
  exact absurd (hs _ hnul).1 (by decide)

/-! ### Writing -/

/-- An element that has been started. -/
structure OpenElement where
  name : String
  props : List (String × String)
  children : List XmlNode

/-- `xmlTextWriter`: the elements that are open, from the inside out, and the root when it is
done. -/
structure XmlWriter where
  opened : List OpenElement
  root : Option XmlNode

namespace XmlWriter

/-- `xmlTextWriterStartElement`. -/
def startElement (w : XmlWriter) (name : String) : Option XmlWriter :=
  some { w with opened := ⟨name, [], []⟩ :: w.opened }

/-- `xmlTextWriterWriteAttribute`. -/
def writeAttribute (w : XmlWriter) (name value : String) : Option XmlWriter :=
  match w.opened with
  | ⟨tag, props, []⟩ :: outer =>
      some { w with opened := ⟨tag, props ++ [(name, value)], []⟩ :: outer }
  | _ => none

/-- The nodes for a text. -/
def textNodes (content : String) : List XmlNode := if content = "" then [] else [.text content]

/-- `xmlTextWriterWriteString`. -/
def writeString (w : XmlWriter) (content : String) : Option XmlWriter :=
  match w.opened with
  | ⟨tag, props, children⟩ :: outer =>
      some { w with opened := ⟨tag, props, children ++ textNodes content⟩ :: outer }
  | [] => none

/-- `xmlTextWriterEndElement`. -/
def endElement (w : XmlWriter) : Option XmlWriter :=
  match w.opened with
  | ⟨tag, props, children⟩ :: ⟨tag', props', children'⟩ :: outer =>
      some { w with
        opened := ⟨tag', props', children' ++ [.element tag props children]⟩ :: outer }
  | [⟨tag, props, children⟩] => some { opened := [], root := some (.element tag props children) }
  | [] => none

end XmlWriter

end NativePreferences
