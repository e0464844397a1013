import NativePreferences.Impl.DataSubscriptions
import NativePreferences.Lib.Binary
import NativePreferences.Lib.Allocation
import NativePreferences.Xml.Tree

/-!
# NativePreferences.Cj.ValueTypes

**Values for Cangjie** (`preferences_impl.cpp` of the `cj` front end). `NativeValueToCValueType`
puts a value into a `ValueType`, whose texts and arrays are blocks of their own, and
`NativeValuesToCValueTypes` does so for all entries of a store. Any request for a block may be
refused, and where one is the function gives everything back.

`MallocCString` makes no block for an empty text and returns a null pointer, which the loop over
the texts of an array takes for a refusal. So an array with an empty text has no `ValueType`, and
a store that holds one has no `ValueTypes` at all. For a value that is a text nobody looks at the
pointer, and where its block was refused it is handed out as a null pointer, like an empty one, and
with `E_OK` (`Shown`, `owns_getAll`).
-/

namespace NativePreferences.Cj

open Lib

variable {β : Type}

/-- `char *`, with all that lies in the block, zero bytes too. -/
abbrev CString : Type := Ptr String

/-- `CArrBool`, `CArrStr` and `CArrDouble`. -/
structure CArr (β : Type) where
  head : Ptr (List β)
  size : Nat

/-- `CArrBool{0}`. -/
def CArr.zero : CArr β := ⟨none, 0⟩

/-- `TagType`. -/
def typeInt : UInt8 := 0
def typeDou : UInt8 := 1
def typeStr : UInt8 := 2
def typeBool : UInt8 := 3
def typeBoolArr : UInt8 := 4
def typeDouArr : UInt8 := 5
def typeStrArr : UInt8 := 6

/-- `ValueType`. A `double` is given by its bits. -/
structure ValueType where
  integer : Int64
  float64 : UInt64
  string : CString
  boolean : Bool
  boolArray : CArr Bool
  doubleArray : CArr UInt64
  stringArray : CArr CString
  tag : UInt8

/-- `ValueType{0}`. -/
def ValueType.zero : ValueType := ⟨0, 0, none, false, .zero, .zero, .zero, typeInt⟩

/-- `ValueTypes`. -/
structure ValueTypes where
  key : Ptr (List CString)
  head : Ptr (List ValueType)
  size : Nat

/-- `ValueTypes{0}`. -/
def ValueTypes.zero : ValueTypes := ⟨none, none, 0⟩

/-- `(double)` of a `float`: the number is the same. A NaN comes out quiet. -/
def toDouble (bits : UInt32) : UInt64 :=
  let sign := bits.toNat / Format.binary32.signBit * Format.binary64.signBit
  let k := Format.binary32.magnitude bits.toNat
  let magnitude :=
    if k < Format.binary32.inf then
      Format.binary64.nearest (Format.binary32.units k) (2 ^ Format.binary32.places)
    else if k = Format.binary32.inf then Format.binary64.inf
    else Format.binary64.inf + ((k - Format.binary32.inf) * 2 ^ 29 ||| 2 ^ 51)
  UInt64.ofNat (sign + magnitude)

/-! ### The functions -/

/-- Programs of the front end. -/
abbrev Prog (α : Type) : Type := Allocating Empty α

/-- `MallocCString`. -/
def mallocCString (origin : String) : Prog CString :=
  if origin = "" then return none
  else do
    let res ← malloc
    return res.map (fun b => (b, origin))

/-- `FreeCharPointer`. -/
def freeCharPointer (ptr : List CString) : Prog Unit := freeAll (ptr.map Ptr.block)

/-- What `VectorToDoubleArray` and `VectorToBoolArray` do. -/
def vectorToArray (xs : List β) (code : Int) : Prog (CArr β × Int) :=
  if xs = [] then return (.zero, code)
  else do
    let head ← malloc
    match head with
    | none => return (.zero, eError)
    | some b => return (⟨some (b, xs), xs.length⟩, code)

/-- `VectorToDoubleArray`. -/
def vectorToDoubleArray (doubles : List UInt64) (code : Int) : Prog (CArr UInt64 × Int) :=
  vectorToArray doubles code

/-- `VectorToBoolArray`. -/
def vectorToBoolArray (bools : List Bool) (code : Int) : Prog (CArr Bool × Int) :=
  vectorToArray bools code

/-- The loop of `VectorToCharPointer`, with `done` in the block `result` so far. -/
def charPointerLoop (result : Block) (code : Int) :
    List String → List CString → Prog (Ptr (List CString) × Int)
  | [], done => return (some (result, done), code)
  | text :: rest, done => do
      let p ← mallocCString text
      match p with
      | none => do
          freeCharPointer done
          free (some result)
          return (none, eError)
      | some _ => charPointerLoop result code rest (done ++ [p])

/-- `VectorToCharPointer`. -/
def vectorToCharPointer (vec : List String) (code : Int) : Prog (Ptr (List CString) × Int) :=
  if vec = [] then return (none, code)
  else do
    let result ← malloc
    match result with
    | none => return (none, eError)
    | some b => charPointerLoop b code vec []

/-- `VectorToStringArray`. -/
def vectorToStringArray (strings : List String) (code : Int) : Prog (CArr CString × Int) := do
  let r ← vectorToCharPointer strings code
  if r.2 ≠ eOk then return (.zero, r.2) else return (⟨r.1, strings.length⟩, r.2)

/-- `NativeValueToCValueType`. The tag of the other kinds is `-1`. -/
def nativeValueToCValueType (pValue : PreferencesValue) (code : Int) : Prog (ValueType × Int) :=
  let v := ValueType.zero
  match pValue with
  | .int x => return ({ v with integer := x.toInt64, tag := typeInt }, code)
  | .int64 x => return ({ v with integer := x, tag := typeInt }, code)
  | .float bits => return ({ v with float64 := toDouble bits, tag := typeDou }, code)
  | .double bits => return ({ v with float64 := bits, tag := typeDou }, code)
  | .string text => do
      let string ← mallocCString text
      return ({ v with string, tag := typeStr }, code)
  | .bool b => return ({ v with boolean := b, tag := typeBool }, code)
  | .boolArray bools => do
      let r ← vectorToBoolArray bools code
      return ({ v with boolArray := r.1, tag := typeBoolArr }, r.2)
  | .doubleArray doubles => do
      let r ← vectorToDoubleArray doubles code
      return ({ v with doubleArray := r.1, tag := typeDouArr }, r.2)
  | .stringArray strings => do
      let r ← vectorToStringArray strings code
      return ({ v with stringArray := r.1, tag := typeStrArr }, r.2)
  | _ => return ({ v with tag := 255 }, code)

/-- The texts of an array of texts, and the array. -/
def textBlocks (p : Ptr (List CString)) : List (Option Block) :=
  ((p.map Prod.snd).getD []).map Ptr.block ++ [p.block]

/-- What `FreeValueType` gives back, in its order. -/
def ValueType.pointers (v : ValueType) : List (Option Block) :=
  if v.tag = typeStr then [v.string.block]
  else if v.tag = typeBoolArr then [v.boolArray.head.block]
  else if v.tag = typeDouArr then [v.doubleArray.head.block]
  else if v.tag = typeStrArr then textBlocks v.stringArray.head
  else []

/-- `FreeValueType`. -/
def freeValueType (v : ValueType) : Prog Unit := freeAll v.pointers

/-- `FreeValueTypes`. -/
def freeValueTypes : List ValueType → Prog Unit
  | [] => return
  | v :: vs => do
      freeValueType v
      freeValueTypes vs

/-- The loop of `NativeValuesToCValueTypes`, in the blocks `key` and `head`. -/
def valueTypesLoop (key head : Block) : List (String × PreferencesValue) →
    List CString → List ValueType → Prog (Option (List CString × List ValueType))
  | [], keys, values => return some (keys, values)
  | entry :: rest, keys, values => do
      let p ← mallocCString entry.1
      match p with
      | none => do
          freeCharPointer keys
          freeValueTypes values
          free (some key)
          free (some head)
          return none
      | some _ => do
          let r ← nativeValueToCValueType entry.2 eOk
          if r.2 ≠ eOk then do
            free p.block
            freeCharPointer keys
            freeValueTypes values
            free (some key)
            free (some head)
            return none
          else valueTypesLoop key head rest (keys ++ [p]) (values ++ [r.1])

/-- `NativeValuesToCValueTypes`, with the entries in the order of the map. Without a result the
code is `E_ERROR`, and what is returned is not looked at. -/
def nativeValuesToCValueTypes (objects : List (String × PreferencesValue)) :
    Prog (Option ValueTypes) := do
  let key ← malloc
  match key with
  | none => return none
  | some key => do
      let head ← malloc
      match head with
      | none => do
          free (some key)
          return none
      | some head => do
          let filled ← valueTypesLoop key head objects [] []
          return filled.map (fun r => ⟨some (key, r.1), some (head, r.2), objects.length⟩)

/-- `PreferencesImpl::GetAll`. -/
def getAll (objects : List (String × PreferencesValue)) : Prog ValueTypes := do
  let vs ← nativeValuesToCValueTypes objects
  return vs.getD .zero

/-- `PreferencesImpl::Get`, where the store has returned `pValue`. -/
def get (pValue : PreferencesValue) : Prog ValueType := do
  let r ← nativeValueToCValueType pValue eOk
  if r.2 ≠ eOk then return .zero else return r.1

/-- `FfiOHOSPreferencesFreeValueType`. -/
def ffiFreeValueType (v : ValueType) : Prog Unit := freeAll v.pointers

/-- The values of `FfiOHOSPreferencesFreeValueTypes`. -/
def ffiFreeValues : List ValueType → Prog Unit
  | [] => return
  | v :: vs => do
      ffiFreeValueType v
      ffiFreeValues vs

/-- `FfiOHOSPreferencesFreeValueTypes`. -/
def ffiFreeValueTypes (vs : ValueTypes) : Prog Unit := do
  if let some (key, keys) := vs.key then
    freeAll (keys.map Ptr.block)
    free (some key)
  if let some (head, values) := vs.head then
    ffiFreeValues values
    free (some head)

/-! ### What Cangjie sees -/

/-- A value as Cangjie reads it. -/
inductive View
  | int (v : Int64)
  | dou (bits : UInt64)
  | str (s : String)
  | bool (b : Bool)
  | bools (v : List Bool)
  | dous (v : List UInt64)
  | strs (v : List String)
  | unknown
  deriving DecidableEq

/-- `std::string(p)`: the text up to its first zero byte. -/
def CString.read (p : CString) : Option String := p.map (fun q => cStr q.2)

/-- The text behind a pointer, and an empty one behind a null pointer. -/
def CString.text (p : CString) : String := p.read.getD ""

/-- The elements of an array. -/
def CArr.elems (a : CArr β) : List β := ((a.head.map Prod.snd).getD []).take a.size

/-- The loop over the elements. It needs a block that has them. -/
def CArr.read (a : CArr β) : Option (List β) :=
  if a.size ≤ ((a.head.map Prod.snd).getD []).length then some a.elems else none

def ValueType.view (v : ValueType) : View :=
  if v.tag = typeInt then .int v.integer
  else if v.tag = typeDou then .dou v.float64
  else if v.tag = typeStr then .str v.string.text
  else if v.tag = typeBool then .bool v.boolean
  else if v.tag = typeBoolArr then .bools v.boolArray.elems
  else if v.tag = typeDouArr then .dous v.doubleArray.elems
  else if v.tag = typeStrArr then .strs (v.stringArray.elems.map CString.text)
  else .unknown

/-- What is to be seen of a value. Cangjie has no type for the other kinds. -/
def viewOf : PreferencesValue → View
  | .int x => .int x.toInt64
  | .int64 x => .int x
  | .float bits => .dou (toDouble bits)
  | .double bits => .dou bits
  | .string text => .str (cStr text)
  | .bool b => .bool b
  | .boolArray bools => .bools bools
  | .doubleArray doubles => .dous doubles
  | .stringArray strings => .strs (strings.map cStr)
  | _ => .unknown

/-- An array with an empty text. -/
def Gapped : PreferencesValue → Prop
  | .stringArray strings => "" ∈ strings
  | _ => False

/-- The value is seen in `v`. A text is a null pointer if it is empty, or if its block was refused.
The texts of an array are all there. -/
def Shown (refused : Bool) (n : PreferencesValue) (v : ValueType) : Prop :=
  match n with
  | .string text => v.tag = typeStr ∧
      (text ≠ "" ∧ v.string.read = some (cStr text) ∨
        v.string = none ∧ (text = "" ∨ refused = true))
  | .stringArray strings => v.tag = typeStrArr ∧
      v.stringArray.elems.map CString.read = (strings.map cStr).map some
  | _ => v.view = viewOf n

theorem view_text {v : ValueType} (htag : v.tag = typeStr) : v.view = .str v.string.text := by
  rw [ValueType.view, htag]
  rfl

theorem view_texts {v : ValueType} (htag : v.tag = typeStrArr) :
    v.view = .strs (v.stringArray.elems.map CString.text) := by
  rw [ValueType.view, htag]
  rfl

theorem map_text {ps : List CString} {texts : List String}
    (h : ps.map CString.read = texts.map some) : ps.map CString.text = texts := by
  have htext := congrArg (List.map (fun text => text.getD "")) h
  rw [List.map_map, List.map_map] at htext
  exact htext.trans (List.map_id texts)

/-- Without a refusal it looks as it does in the store. -/
theorem Shown.view {n : PreferencesValue} {v : ValueType} (h : Shown false n v) :
    v.view = viewOf n := by
  cases n with
  | string text =>
      obtain ⟨htag, ⟨-, hread⟩ | ⟨hnull, rfl | hrefused⟩⟩ := h
      · rw [view_text htag, CString.text, hread]
        rfl
      · rw [view_text htag, hnull]
        rfl
      · exact absurd hrefused (by decide)
  | stringArray strings => rw [view_texts h.1, map_text h.2, viewOf]
  | _ => exact h

/-- What becomes of a value, beside the blocks `own`. -/
def Converted (n : PreferencesValue) (own : Multiset Block) (r : ValueType × Int)
    (log : Log Empty) (own' : Multiset Block) : Prop :=
  own' = blocks r.1.pointers + own ∧
    (r.2 = eOk ∧ ¬ Gapped n ∧ Shown log.refused n r.1 ∨
      r.2 = eError ∧ blocks r.1.pointers = 0 ∧ (Gapped n ∨ log.refused = true))

variable {own : Multiset Block} {log : Log Empty} {α : Type}

/-! ### Texts and arrays -/

theorem owns_mallocCString {Q : α → Log Empty → Multiset Block → Prop} {f : CString → Prog α}
    (origin : String) (hempty : origin = "" → Owns Q (f none) log own)
    (hrefused : Owns Q (f none) (log.answer false) own)
    (hgranted : origin ≠ "" →
      ∀ b, b ∉ own → Owns Q (f (some (b, origin))) (log.answer true) (b ::ₘ own)) :
    Owns Q (mallocCString origin >>= f) log own := by
  unfold mallocCString
  by_cases horigin : origin = ""
  · rw [if_pos horigin]
    exact hempty horigin
  · rw [if_neg horigin, Program.bind_assoc]
    exact .malloc hrefused (hgranted horigin)

/-- An array of plain elements. -/
theorem owns_vectorToArray (xs : List β) (own : Multiset Block) :
    Owns (fun r log own' => own' = blocks [r.1.head.block] + own ∧
      (r.2 = eOk ∧ r.1.elems = xs ∨ r.2 = eError ∧ r.1 = .zero ∧ log.refused = true))
      (vectorToArray xs eOk) log own := by
  unfold vectorToArray
  by_cases hxs : xs = []
  · rw [if_pos hxs, owns_pure, hxs]
    exact ⟨(Multiset.zero_add own).symm, .inl ⟨rfl, rfl⟩⟩
  · rw [if_neg hxs]
    refine .malloc ?_ ?_
    · exact ⟨(Multiset.zero_add own).symm, .inr ⟨rfl, rfl, log.refused_answer_false⟩⟩
    · intro b _
      refine ⟨(Multiset.singleton_add b own).symm, .inl ⟨rfl, ?_⟩⟩
      exact List.take_length

/-- What the loop over the texts leaves: all of them behind `done`, or nothing. -/
def Pointed (result : Block) (rest : List String) (done : List CString) (own : Multiset Block)
    (r : Ptr (List CString) × Int) (log : Log Empty) (own' : Multiset Block) : Prop :=
  own' = blocks (textBlocks r.1) + own ∧
    (r.2 = eOk ∧ "" ∉ rest ∧
        (∃ ps, r.1 = some (result, done ++ ps) ∧ ps.map CString.read = (rest.map cStr).map some) ∨
      r.2 = eError ∧ r.1 = none ∧ ("" ∈ rest ∨ log.refused = true))

theorem owns_charPointerLoop (result : Block) (rest : List String) (done : List CString)
    (own : Multiset Block) :
    Owns (Pointed result rest done own) (charPointerLoop result eOk rest done) log
      (blocks (done.map Ptr.block) + (blocks [some result] + own)) := by
  induction rest generalizing done log with
  | nil =>
      refine ⟨?_, .inl ⟨rfl, List.not_mem_nil, [], by rw [List.append_nil], rfl⟩⟩
      show _ = blocks (done.map Ptr.block ++ [some result]) + own
      rw [blocks_append, Multiset.add_assoc]
  | cons text rest ih =>
      -- nothing is left once a text has no block
      have hback : ∀ log : Log Empty, ("" ∈ text :: rest ∨ log.refused = true) →
          Owns (Pointed result (text :: rest) done own)
            (do
              freeCharPointer done
              free (some result)
              return (none, eError))
            log (blocks (done.map Ptr.block) + (blocks [some result] + own)) := by
        intro log hwhy
        refine .freeAll _ (.free ?_)
        exact ⟨(Multiset.zero_add own).symm, .inr ⟨rfl, rfl, hwhy⟩⟩
      refine owns_mallocCString text ?_ (hback _ (.inr log.refused_answer_false)) ?_
      · intro htext
        exact hback _ (.inl (htext ▸ List.mem_cons_self))
      · intro htext b _
        have hown : b ::ₘ (blocks (done.map Ptr.block) + (blocks [some result] + own)) =
            blocks ((done ++ [some (b, text)]).map Ptr.block) +
              (blocks [some result] + own) := by
          rw [List.map_append, ← Multiset.cons_add]
          exact congrArg (· + _) (blocks_snoc _ b).symm
        rw [hown]
        refine (ih (done ++ [some (b, text)])).mono ?_
        intro r log own' h
        obtain ⟨hblocks, hcase⟩ := h
        refine ⟨hblocks, ?_⟩
        obtain ⟨hcode, hnot, ps, hr, hps⟩ | ⟨hcode, hr, hwhy⟩ := hcase
        · refine .inl ⟨hcode, ?_, some (b, text) :: ps, ?_, ?_⟩
          · intro hin
            exact (List.mem_cons.mp hin).elim (fun heq => htext heq.symm) hnot
          · rw [hr, List.append_assoc]
            rfl
          · rw [List.map_cons, hps]
            rfl
        · exact .inr ⟨hcode, hr, hwhy.imp_left (List.mem_cons_of_mem _)⟩

theorem owns_vectorToCharPointer (vec : List String) (own : Multiset Block) :
    Owns (fun (r : Ptr (List CString) × Int) log own' => own' = blocks (textBlocks r.1) + own ∧
      (r.2 = eOk ∧ "" ∉ vec ∧
          ((r.1.map Prod.snd).getD []).map CString.read = (vec.map cStr).map some ∨
        r.2 = eError ∧ r.1 = none ∧ ("" ∈ vec ∨ log.refused = true)))
      (vectorToCharPointer vec eOk) log own := by
  unfold vectorToCharPointer
  by_cases hvec : vec = []
  · rw [if_pos hvec, owns_pure, hvec]
    exact ⟨(Multiset.zero_add own).symm, .inl ⟨rfl, List.not_mem_nil, rfl⟩⟩
  · rw [if_neg hvec]
    refine .malloc ?_ ?_
    · exact ⟨(Multiset.zero_add own).symm, .inr ⟨rfl, rfl, .inr log.refused_answer_false⟩⟩
    · intro b _
      have hown : b ::ₘ own = blocks (([] : List CString).map Ptr.block) +
          (blocks [some b] + own) := by
        rw [blocks_some, Multiset.singleton_add]
        exact (Multiset.zero_add _).symm
      rw [hown]
      refine (owns_charPointerLoop b vec [] own).mono ?_
      intro r log own' h
      obtain ⟨hblocks, hcase⟩ := h
      refine ⟨hblocks, hcase.imp_left ?_⟩
      intro hgood
      obtain ⟨hcode, hnot, ps, hr, hps⟩ := hgood
      refine ⟨hcode, hnot, ?_⟩
      rw [hr]
      exact hps

theorem owns_vectorToStringArray (strings : List String) (own : Multiset Block) :
    Owns (fun (r : CArr CString × Int) log own' => own' = blocks (textBlocks r.1.head) + own ∧
      (r.2 = eOk ∧ "" ∉ strings ∧ r.1.elems.map CString.read = (strings.map cStr).map some ∨
        r.2 = eError ∧ r.1 = .zero ∧ ("" ∈ strings ∨ log.refused = true)))
      (vectorToStringArray strings eOk) log own := by
  refine .bind ((owns_vectorToCharPointer strings own).mono ?_)
  intro r log own' h
  obtain ⟨hblocks, hcase⟩ := h
  obtain ⟨hcode, hnot, htexts⟩ | ⟨hcode, hr, hwhy⟩ := hcase
  · rw [if_neg (not_not_intro hcode), owns_pure]
    refine ⟨hblocks, .inl ⟨hcode, hnot, ?_⟩⟩
    have hlength : strings.length = ((r.1.map Prod.snd).getD []).length := by
      have h := congrArg List.length htexts
      simpa using h.symm
    rw [CArr.elems, hlength, List.take_length]
    exact htexts
  · rw [if_pos (by rw [hcode]; decide), owns_pure]
    refine ⟨?_, .inr ⟨hcode, rfl, hwhy⟩⟩
    rw [hblocks, hr]
    rfl

/-! ### One value -/

/-- A value that needs no block. -/
theorem converted_plain {n : PreferencesValue} {v : ValueType} (hgap : ¬ Gapped n)
    (hpointers : blocks v.pointers = 0) (hshown : Shown log.refused n v) :
    Converted n own (v, eOk) log own := by
  refine ⟨?_, .inl ⟨rfl, hgap, hshown⟩⟩
  rw [hpointers, Multiset.zero_add]

/-- A value that is an array of plain elements. -/
theorem owns_plainArray (n : PreferencesValue) (xs : List β) (make : CArr β → ValueType)
    (hgap : ¬ Gapped n) (hpointers : ∀ a, (make a).pointers = [a.head.block])
    (hshown : ∀ a refused, a.elems = xs → Shown refused n (make a)) :
    Owns (Converted n own) (do
      let r ← vectorToArray xs eOk
      return (make r.1, r.2)) log own := by
  refine .bind ((owns_vectorToArray xs own).mono ?_)
  intro r log own' h
  obtain ⟨hblocks, hcase⟩ := h
  rw [owns_pure, Converted, hpointers]
  refine ⟨hblocks, ?_⟩
  obtain ⟨hcode, helems⟩ | ⟨hcode, hr, hrefused⟩ := hcase
  · exact .inl ⟨hcode, hgap, hshown _ _ helems⟩
  · refine .inr ⟨hcode, ?_, .inr hrefused⟩
    rw [hr]
    rfl

theorem owns_nativeValueToCValueType (n : PreferencesValue) (own : Multiset Block) :
    Owns (Converted n own) (nativeValueToCValueType n eOk) log own := by
  cases n with
  | string text =>
      refine owns_mallocCString text ?_ ?_ ?_
      · intro htext
        exact converted_plain id rfl ⟨rfl, .inr ⟨rfl, .inl htext⟩⟩
      · refine ⟨(Multiset.zero_add own).symm, .inl ⟨rfl, id, rfl, .inr ⟨rfl, .inr ?_⟩⟩⟩
        exact log.refused_answer_false
      · intro htext b _
        exact ⟨(Multiset.singleton_add b own).symm, .inl ⟨rfl, id, rfl, .inl ⟨htext, rfl⟩⟩⟩
  | boolArray bools =>
      exact owns_plainArray (.boolArray bools) bools
        (fun boolArray => { ValueType.zero with boolArray, tag := typeBoolArr }) id
        (fun _ => rfl) (fun _ _ ha => congrArg View.bools ha)
  | doubleArray doubles =>
      exact owns_plainArray (.doubleArray doubles) doubles
        (fun doubleArray => { ValueType.zero with doubleArray, tag := typeDouArr }) id
        (fun _ => rfl) (fun _ _ ha => congrArg View.dous ha)
  | stringArray strings =>
      refine .bind ((owns_vectorToStringArray strings own).mono ?_)
      intro r log own' h
      obtain ⟨hblocks, hcase⟩ := h
      refine ⟨hblocks, ?_⟩
      obtain ⟨hcode, hnot, htexts⟩ | ⟨hcode, hr, hwhy⟩ := hcase
      · exact .inl ⟨hcode, hnot, rfl, htexts⟩
      · refine .inr ⟨hcode, ?_, hwhy⟩
        show blocks (textBlocks r.1.head) = 0
        rw [hr]
        rfl
  | _ => exact converted_plain id rfl rfl

/-! ### All values -/

theorem freeValueTypes_eq (values : List ValueType) :
    freeValueTypes values = freeAll (values.flatMap ValueType.pointers) := by
  induction values with
  | nil => rfl
  | cons v values ih =>
      rw [List.flatMap_cons, freeAll_append, freeValueTypes, ih]
      rfl

theorem ffiFreeValues_eq (values : List ValueType) :
    ffiFreeValues values = freeAll (values.flatMap ValueType.pointers) := by
  induction values with
  | nil => rfl
  | cons v values ih =>
      rw [List.flatMap_cons, freeAll_append, ffiFreeValues, ih]
      rfl

/-- There is no `ValueTypes` for a store with such an entry. -/
def Spoils (entry : String × PreferencesValue) : Prop := entry.1 = "" ∨ Gapped entry.2

/-- All entries are seen, in their order. -/
inductive ShownAll (refused : Bool) :
    List (String × PreferencesValue) → List CString → List ValueType → Prop
  | nil : ShownAll refused [] [] []
  | cons {entry : String × PreferencesValue} {rest : List (String × PreferencesValue)}
      {key : CString} {keys : List CString} {v : ValueType} {vs : List ValueType}
      (hkey : key.read = some (cStr entry.1)) (hvalue : Shown refused entry.2 v)
      (hrest : ShownAll refused rest keys vs) :
      ShownAll refused (entry :: rest) (key :: keys) (v :: vs)

/-- What the blocks of the loop hold, besides its own two. -/
def filledBlocks (keys : List CString) (values : List ValueType) : Multiset Block :=
  blocks (keys.map Ptr.block) + blocks (values.flatMap ValueType.pointers)

/-- The end of the loop. -/
def Filled (rest : List (String × PreferencesValue)) (keys : List CString)
    (values : List ValueType) (taken own : Multiset Block)
    (r : Option (List CString × List ValueType)) (log : Log Empty) (own' : Multiset Block) :
    Prop :=
  (∃ keys' values', r = some (keys ++ keys', values ++ values') ∧
      own' = filledBlocks (keys ++ keys') (values ++ values') + (taken + own) ∧
      (∀ entry ∈ rest, ¬ Spoils entry) ∧ ShownAll log.refused rest keys' values') ∨
    r = none ∧ own' = own ∧ ((∃ entry ∈ rest, Spoils entry) ∨ log.refused = true)

theorem Shown.mono {refused refused' : Bool} {n : PreferencesValue} {v : ValueType}
    (h : Shown refused n v) (hmono : refused = true → refused' = true) : Shown refused' n v := by
  cases n with
  | string text =>
      obtain ⟨htag, htext⟩ := h
      exact ⟨htag, htext.imp_right (fun hnull => ⟨hnull.1, hnull.2.imp_right hmono⟩)⟩
  | _ => exact h

/-- A round of the loop that works adds to its blocks. -/
theorem filledBlocks_snoc (keys : List CString) (values : List ValueType) (b : Block)
    (text : String) (v : ValueType) (own : Multiset Block) :
    blocks v.pointers + b ::ₘ (filledBlocks keys values + own) =
      filledBlocks (keys ++ [some (b, text)]) (values ++ [v]) + own := by
  have hkeys : (keys ++ [some (b, text)]).map Ptr.block = keys.map Ptr.block ++ [some b] := by
    rw [List.map_append]
    rfl
  have hvalues : (values ++ [v]).flatMap ValueType.pointers =
      values.flatMap ValueType.pointers ++ v.pointers := by simp
  rw [filledBlocks, filledBlocks, hkeys, hvalues, blocks_snoc, blocks_append]
  simp only [Multiset.add_cons, Multiset.add_assoc, Multiset.add_comm,
    blocks_left_comm]

theorem owns_valueTypesLoop (key head : Block) (rest : List (String × PreferencesValue))
    (keys : List CString) (values : List ValueType) (own : Multiset Block) :
    Owns (Filled rest keys values (blocks [some key, some head]) own)
      (valueTypesLoop key head rest keys values) log
      (filledBlocks keys values + (blocks [some key, some head] + own)) := by
  induction rest generalizing keys values log with
  | nil =>
      refine .inl ⟨[], [], ?_, ?_, ?_, .nil⟩
      · rw [List.append_nil, List.append_nil]
      · rw [List.append_nil, List.append_nil]
      · exact fun _ h => absurd h List.not_mem_nil
  | cons entry rest ih =>
      -- what is given back when the loop ends early
      have hback : ∀ log : Log Empty,
          ((∃ entry' ∈ entry :: rest, Spoils entry') ∨ log.refused = true) →
          Owns (Filled (entry :: rest) keys values (blocks [some key, some head]) own)
            (do
              freeCharPointer keys
              freeValueTypes values
              free (some key)
              free (some head)
              return none)
            log (filledBlocks keys values + (blocks [some key, some head] + own)) := by
        intro log hwhy
        rw [filledBlocks, Multiset.add_assoc, freeValueTypes_eq, blocks_cons, Multiset.add_assoc]
        exact .freeAll _ (.freeAll _ (.free (.free (.inr ⟨rfl, rfl, hwhy⟩))))
      refine owns_mallocCString entry.1 ?_ (hback _ (.inr log.refused_answer_false)) ?_
      · intro hempty
        exact hback _ (.inl ⟨entry, List.mem_cons_self, .inl hempty⟩)
      · intro hkey b _
        refine .bind ((owns_nativeValueToCValueType entry.2 _).mono ?_)
        intro r log own' h
        obtain ⟨rfl, hcase⟩ := h
        obtain ⟨hcode, hgap, hshown⟩ | ⟨hcode, hnone, hwhy⟩ := hcase
        · rw [if_neg (not_not_intro hcode),
            filledBlocks_snoc keys values b entry.1 r.1 (blocks [some key, some head] + own)]
          have hfine : ¬ Spoils entry := fun hbad => hbad.elim hkey hgap
          have hnext : Owns (fun a log' own' =>
              Filled rest (keys ++ [some (b, entry.1)]) (values ++ [r.1])
                (blocks [some key, some head]) own a log' own' ∧
              (log.refused = true → log'.refused = true))
              (valueTypesLoop key head rest (keys ++ [some (b, entry.1)]) (values ++ [r.1])) log
              (filledBlocks (keys ++ [some (b, entry.1)]) (values ++ [r.1]) +
                (blocks [some key, some head] + own)) := by
            by_cases hrefused : log.refused = true
            · exact ((ih _ _).of_refused hrefused).mono (fun a log' own' h => ⟨h.1, fun _ => h.2⟩)
            · exact (ih _ _).mono (fun a log' own' h => ⟨h, fun hbad => absurd hbad hrefused⟩)
          refine hnext.mono ?_
          intro a log' own' h
          obtain ⟨⟨keys', values', rfl, hown, hall, hrest⟩ | ⟨rfl, hown, hwhy⟩, hmono⟩ := h
          · rw [List.append_assoc, List.append_assoc] at hown
            refine .inl ⟨some (b, entry.1) :: keys', r.1 :: values', ?_, hown, ?_, ?_⟩
            · rw [List.append_assoc, List.append_assoc]
              rfl
            · exact List.forall_mem_cons.mpr ⟨hfine, hall⟩
            · exact .cons rfl (hshown.mono hmono) hrest
          · refine .inr ⟨rfl, hown, hwhy.imp_left ?_⟩
            intro hex
            obtain ⟨entry', hin, hbad⟩ := hex
            exact ⟨entry', List.mem_cons_of_mem _ hin, hbad⟩
        · rw [if_pos (by rw [hcode]; decide), hnone, Multiset.zero_add]
          rw [show b ::ₘ _ = blocks [some b] + _ from (Multiset.singleton_add b _).symm]
          refine .free (hback log (hwhy.imp_left ?_))
          exact fun hgap => ⟨entry, List.mem_cons_self, .inr hgap⟩

/-- What Cangjie gets of the entries of a store: all of them, or `ValueTypes{0}`. -/
inductive Got (objects : List (String × PreferencesValue)) (refused : Bool) : ValueTypes → Prop
  | whole {key head : Block} {keys : List CString} {values : List ValueType}
      (hfine : ∀ entry ∈ objects, ¬ Spoils entry) (hall : ShownAll refused objects keys values) :
      Got objects refused ⟨some (key, keys), some (head, values), objects.length⟩
  | nothing (hwhy : (∃ entry ∈ objects, Spoils entry) ∨ refused = true) :
      Got objects refused .zero

/-- What `FfiOHOSPreferencesFreeValueTypes` gives back. -/
def ValueTypes.pointers (vs : ValueTypes) : List (Option Block) :=
  textBlocks vs.key ++
    (((vs.head.map Prod.snd).getD []).flatMap ValueType.pointers ++ [vs.head.block])

theorem owns_getAll (objects : List (String × PreferencesValue)) (own : Multiset Block) :
    Owns (fun vs log own' => own' = blocks vs.pointers + own ∧ Got objects log.refused vs)
      (getAll objects) log own := by
  have hzero : ∀ log : Log Empty, log.refused = true →
      own = blocks ValueTypes.zero.pointers + own ∧ Got objects log.refused .zero :=
    fun log hrefused => ⟨(Multiset.zero_add own).symm, .nothing (.inr hrefused)⟩
  rw [getAll, nativeValuesToCValueTypes, Program.bind_assoc]
  refine .malloc (hzero _ log.refused_answer_false) ?_
  intro key _
  dsimp only
  rw [Program.bind_assoc]
  refine .malloc ?_ ?_
  · rw [← Multiset.singleton_add]
    exact .free (hzero _ (Log.refused_answer_false _))
  · intro head _
    dsimp only
    rw [Program.bind_assoc]
    have hown : head ::ₘ key ::ₘ own =
        filledBlocks [] [] + (blocks [some key, some head] + own) := by
      show _ = (0 + 0) + ((key ::ₘ head ::ₘ 0) + own)
      simp [Multiset.cons_swap]
    rw [hown]
    refine .bind ((owns_valueTypesLoop key head objects [] [] own).mono ?_)
    intro r log own' h
    obtain ⟨keys, values, rfl, rfl, hfine, hall⟩ | ⟨rfl, rfl, hwhy⟩ := h
    · refine ⟨?_, .whole hfine hall⟩
      rw [ValueTypes.pointers, textBlocks, filledBlocks, blocks_append, blocks_append,
        blocks_append, blocks_cons]
      simp only [List.nil_append, Option.map_some, Option.getD_some, Ptr.block,
        Multiset.add_assoc, Multiset.add_comm, blocks_left_comm]
    · exact ⟨(Multiset.zero_add _).symm, .nothing hwhy⟩

theorem owns_ffiFreeValueTypes (vs : ValueTypes) :
    Owns (fun _ _ own => own = 0) (ffiFreeValueTypes vs) log (blocks vs.pointers) := by
  obtain ⟨key, head, size⟩ := vs
  have hheads : ∀ log : Log Empty, Owns (fun _ _ own => own = 0) (do
      if let some (head, values) := head then
        ffiFreeValues values
        free (some head)) log
      (blocks (((head.map Prod.snd).getD []).flatMap ValueType.pointers ++ [head.block])) := by
    intro log
    cases head with
    | none => exact rfl
    | some h =>
        obtain ⟨head, values⟩ := h
        show Owns _ (ffiFreeValues values >>= fun _ => free (some head)) log _
        rw [ffiFreeValues_eq, blocks_append]
        refine .freeAll _ ?_
        show head ∈ ({head} : Multiset Block) ∧ ({head} : Multiset Block).erase head = 0
        exact ⟨Multiset.mem_singleton_self head, Multiset.erase_cons_head head 0⟩
  rw [ValueTypes.pointers, blocks_append]
  cases key with
  | none =>
      show Owns _ _ log (0 + _)
      rw [Multiset.zero_add]
      exact hheads log
  | some k =>
      obtain ⟨key, keys⟩ := k
      show Owns _ (freeAll (keys.map Ptr.block) >>= fun _ => free (some key) >>= fun _ => _) log
        (blocks (keys.map Ptr.block ++ [some key]) + _)
      rw [blocks_append, Multiset.add_assoc]
      exact .freeAll _ (.free (hheads log))

end NativePreferences.Cj
