import NativePreferences.Lib.Bytes
import NativePreferences.Lib.Search

/-!
# NativePreferences.LoggedNames

**What logs and reports say of a path** (`ExtractFileName` of `preferences_file_operation.h`, and
`Anonymous::ToBeAnonymous` of `preferences_anonymous.h`). Of a name only its ends are shown
(`toBeAnonymous_eq`). Of an absolute path that is long enough there is the name of the file, and
with it the area, the four characters from the first `/el` on (`extractFileName_eq`).

`substr` has no result where it would throw. It never does (`extractFileName_isSome`).
-/

namespace NativePreferences

open Lib

/-! ### Names -/

namespace Anonymous

def headSize : Nat := 3

def endSize : Nat := 3

def dataHead : Nat := 4

def dataEnd : Nat := 4

def minSize : Nat := headSize + endSize + 3

def medianSize : Nat := dataHead + dataEnd + 3

/-- `REPLACE_CHAIN`. -/
def replaceChain : Bytes := utf8 "***"

/-- `DEFAULT_ANONYMOUS`. -/
def defaultAnonymous : Bytes := utf8 "******"

/-- `ToBeAnonymous`. -/
def toBeAnonymous (data : Bytes) : Option Bytes :=
  if data.length ≤ headSize then some defaultAnonymous
  else if data.length < minSize then do
    let head ← substr data 0 headSize
    return head ++ replaceChain
  else if data.length < medianSize then do
    let head ← substr data 0 headSize
    let tail ← substr data (data.length - endSize) endSize
    return head ++ replaceChain ++ tail
  else do
    let head ← substr data 0 dataHead
    let tail ← substr data (data.length - dataEnd) dataEnd
    return head ++ replaceChain ++ tail

/-- How many characters of a name are shown at its beginning, and at its end. -/
def shown (size : Nat) : Nat × Nat :=
  if size ≤ headSize then (0, 0)
  else if size < minSize then (headSize, 0)
  else if size < medianSize then (headSize, endSize)
  else (dataHead, dataEnd)

/-- What stands for the others. -/
def mask (size : Nat) : Bytes := if size ≤ headSize then defaultAnonymous else replaceChain

theorem shown_le (size : Nat) : (shown size).1 + (shown size).2 ≤ 8 := by
  rw [shown]
  split_ifs <;> decide

theorem shown_lt {size : Nat} (h : size ≠ 0) : (shown size).1 + (shown size).2 < size := by
  rw [shown]
  split
  · exact Nat.pos_of_ne_zero h
  · next hhead =>
    have hfour : 4 ≤ size := Nat.lt_of_not_le hhead
    split
    · exact hfour
    · next hmin =>
      have hnine : 9 ≤ size := Nat.le_of_not_lt hmin
      split
      · exact Nat.lt_of_lt_of_le (by decide) hnine
      · exact Nat.lt_of_lt_of_le (by decide) hnine

theorem substr_tail {data : Bytes} {count : Nat} (h : count ≤ data.length) :
    substr data (data.length - count) count = some (data.drop (data.length - count)) := by
  rw [substr_eq (Nat.sub_le _ _), List.take_of_length_le]
  rw [List.length_drop]
  omega

/-- **What `ToBeAnonymous` shows.** -/
theorem toBeAnonymous_eq (data : Bytes) :
    toBeAnonymous data = some (data.take (shown data.length).1 ++ mask data.length ++
      data.drop (data.length - (shown data.length).2)) := by
  rw [toBeAnonymous, shown, mask]
  by_cases hhead : data.length ≤ headSize
  · simp [hhead]
  · have hfour : 4 ≤ data.length := Nat.lt_of_not_le hhead
    have hend : endSize ≤ data.length := Nat.le_trans (by decide) hfour
    have hdataEnd : dataEnd ≤ data.length := hfour
    rw [if_neg hhead, if_neg hhead, if_neg hhead, substr_eq (Nat.zero_le _), List.drop_zero]
    by_cases hmin : data.length < minSize
    · simp [hmin]
    · rw [if_neg hmin, if_neg hmin, substr_tail hend]
      split
      · rfl
      · rw [substr_eq (Nat.zero_le _), List.drop_zero, substr_tail hdataEnd]
        rfl

/-- Of a name, the text about it shows only the first `head` and the last `tail` characters. -/
structure ShowsOnly (data : Bytes) (head tail : Nat) : Prop where
  text : ∃ mask, (mask = replaceChain ∨ mask = defaultAnonymous) ∧
    toBeAnonymous data = some (data.take head ++ mask ++ data.drop (data.length - tail))
  hides : ∀ data' : Bytes, data'.length = data.length → data'.take head = data.take head →
    data'.drop (data'.length - tail) = data.drop (data.length - tail) →
      toBeAnonymous data' = toBeAnonymous data

theorem showsOnly (data : Bytes) :
    ShowsOnly data (shown data.length).1 (shown data.length).2 where
  text := by
    refine ⟨mask data.length, ?_, toBeAnonymous_eq data⟩
    rw [mask]
    split
    · exact .inr rfl
    · exact .inl rfl
  hides data' hlength hhead htail := by
    rw [toBeAnonymous_eq data', toBeAnonymous_eq data, ← hhead, ← htail, hlength]

end Anonymous

/-! ### Paths -/

open Anonymous

def preOffsetSize : Nat := 1

def areaMiniSize : Nat := 4

def areaOffsetSize : Nat := 5

def filePathMiniSize : Nat := 6

/-- What `ExtractFileName` shows of the directory, where `area` was found. -/
def filePathAt (path : Bytes) : (area : Option Nat) → Option Bytes
  | none => some []
  | some area =>
      if path.length < area + areaMiniSize then some []
      else if area + areaOffsetSize < path.length then
        (substr path area areaMiniSize).map (· ++ utf8 "/***")
      else substr path area areaMiniSize

/-- `ExtractFileName`. A path with a first slash has a last one. -/
def extractFileName (path : Bytes) : Option Bytes :=
  match find (utf8 "/") path, rfind (utf8 "/") path with
  | some pre, some last =>
      if last - pre < filePathMiniSize then toBeAnonymous path
      else do
        let fileName ← substr path (last + 1) path.length
        let filePath ← substr path pre (last - pre)
        let filePath ← filePathAt path (find (utf8 "/el") filePath)
        let fileName ← toBeAnonymous fileName
        let head ← substr path 0 (pre + preOffsetSize)
        return head ++ utf8 "***" ++ filePath ++ utf8 "/" ++ fileName
  | _, _ => toBeAnonymous path

/-- The position of the last slash. -/
def lastSlash (path : Bytes) : Nat := (rfind (utf8 "/") path).getD 0

/-- What is in front of the last slash. -/
def directoryOf (path : Bytes) : Bytes := path.take (lastSlash path)

/-- What is behind the last slash. -/
def fileNameOf (path : Bytes) : Bytes := path.drop (lastSlash path + 1)

/-- The four characters from the first `/el` of the directory on, if it has one. Where the directory
ends with it, the fourth is the slash behind the directory. -/
def areaOf (path : Bytes) : Option Bytes :=
  (find (utf8 "/el") (directoryOf path)).map (fun area => (path.drop area).take areaMiniSize)

/-- An absolute path whose first and last slash are at least 6 apart. -/
structure Far (path : Bytes) : Prop where
  absolute : utf8 "/" <+: path
  apart : ∃ first last, find (utf8 "/") path = some first ∧ rfind (utf8 "/") path = some last ∧
    first + filePathMiniSize ≤ last

/-- What is shown of a directory. -/
def areaText : Option Bytes → Bytes
  | none => []
  | some area => area ++ utf8 "/***"

variable {path path' : Bytes}

/-- The first slash of an absolute path is its first character. -/
theorem Far.slashes (h : Far path) :
    find (utf8 "/") path = some 0 ∧ rfind (utf8 "/") path = some (lastSlash path) ∧
      filePathMiniSize ≤ lastSlash path ∧ lastSlash path + 1 ≤ path.length := by
  obtain ⟨habsolute, first, last, hfirst, hlast, hfar⟩ := h
  have hzero : find (utf8 "/") path = some 0 :=
    find_eq_some_iff.mpr ⟨standsAt_zero.mpr habsolute, fun j hj => absurd hj (Nat.not_lt_zero j)⟩
  obtain rfl : first = 0 := Option.some.inj (hfirst.symm.trans hzero)
  have heq : lastSlash path = last := by rw [lastSlash, hlast, Option.getD_some]
  rw [Nat.zero_add] at hfar
  rw [heq]
  exact ⟨hzero, hlast, hfar, (rfind_eq_some_iff.mp hlast).1.length_le⟩

theorem Far.slash_first (h : Far path) : path.take 1 = utf8 "/" :=
  (List.prefix_iff_eq_take.mp h.absolute).symm

/-- A name of two characters or more leaves one behind the area and the slash that may follow it. -/
theorem filePathAt_area (hinside : lastSlash path + 1 ≤ path.length)
    (hname : 2 ≤ (fileNameOf path).length) :
    filePathAt path (find (utf8 "/el") (directoryOf path)) = some (areaText (areaOf path)) := by
  rw [fileNameOf, List.length_drop] at hname
  rw [areaOf]
  cases hfind : find (utf8 "/el") (directoryOf path) with
  | none => rfl
  | some area =>
      have hlength : area + 3 ≤ (directoryOf path).length :=
        (find_eq_some_iff.mp hfind).1.length_le
      rw [directoryOf, List.length_take] at hlength
      have hmini : ¬ path.length < area + areaMiniSize := by
        rw [areaMiniSize]
        omega
      have hoffset : area + areaOffsetSize < path.length := by
        rw [areaOffsetSize]
        omega
      have hstart : area ≤ path.length := by omega
      rw [filePathAt, if_neg hmini, if_pos hoffset, substr_eq hstart]
      rfl

/-- **What `ExtractFileName` shows** of a long absolute path. -/
theorem extractFileName_eq (h : Far path) (hname : 2 ≤ (fileNameOf path).length) :
    ∃ text, toBeAnonymous (fileNameOf path) = some text ∧
      extractFileName path =
        some (path.take 1 ++ utf8 "***" ++ areaText (areaOf path) ++ utf8 "/" ++ text) := by
  obtain ⟨hfirst, hlast, hfar, hinside⟩ := h.slashes
  refine ⟨_, toBeAnonymous_eq _, ?_⟩
  have hdirectory : substr path 0 (lastSlash path - 0) = some (directoryOf path) :=
    substr_eq (Nat.zero_le _)
  have hfile : substr path (lastSlash path + 1) path.length = some (fileNameOf path) := by
    rw [substr_eq hinside, List.take_of_length_le]
    · rfl
    · rw [List.length_drop]
      exact Nat.sub_le _ _
  have hhead : substr path 0 (0 + preOffsetSize) = some (path.take 1) :=
    substr_eq (Nat.zero_le _)
  have hnear : ¬ lastSlash path - 0 < filePathMiniSize := Nat.not_lt.mpr hfar
  rw [extractFileName, hfirst, hlast]
  dsimp only
  rw [if_neg hnear, hfile, hdirectory, hhead]
  dsimp only [bind, Option.bind]
  rw [filePathAt_area hinside hname, toBeAnonymous_eq (fileNameOf path)]
  rfl

theorem exists_filePathAt (path : Bytes) (area : Option Nat) :
    ∃ text, filePathAt path area = some text := by
  cases area with
  | none => exact ⟨_, rfl⟩
  | some area =>
      rw [filePathAt]
      split
      · exact ⟨_, rfl⟩
      · next hmini =>
        rw [substr_eq (Nat.le_trans (Nat.le_add_right _ _) (Nat.le_of_not_lt hmini))]
        split
        · exact ⟨_, rfl⟩
        · exact ⟨_, rfl⟩

/-- `ExtractFileName` throws on no path. -/
theorem extractFileName_isSome (path : Bytes) : (extractFileName path).isSome := by
  rw [extractFileName]
  split
  · next pre last hfirst hlast =>
    split
    · rw [toBeAnonymous_eq]
      rfl
    · have hinside : last + 1 ≤ path.length := (rfind_eq_some_iff.mp hlast).1.length_le
      have hpre : pre ≤ path.length := (find_eq_some_iff.mp hfirst).1.1
      rw [substr_eq hinside, substr_eq hpre, substr_eq (Nat.zero_le _)]
      dsimp only [bind, Option.bind]
      obtain ⟨filePath, hfilePath⟩ :=
        exists_filePathAt path (find (utf8 "/el") ((path.drop pre).take (last - pre)))
      rw [hfilePath, toBeAnonymous_eq]
      rfl
  · rw [toBeAnonymous_eq]
    rfl

/-- Paths with the same name and the same area are shown as the same text. -/
theorem extractFileName_congr (h : Far path) (h' : Far path')
    (hname : fileNameOf path = fileNameOf path') (hlength : 2 ≤ (fileNameOf path).length)
    (harea : areaOf path = areaOf path') : extractFileName path = extractFileName path' := by
  obtain ⟨text, htext, heq⟩ := extractFileName_eq h hlength
  obtain ⟨text', htext', heq'⟩ := extractFileName_eq h' (hname ▸ hlength)
  rw [← hname, htext] at htext'
  obtain rfl := Option.some.inj htext'
  rw [heq, heq', harea, h.slash_first, h'.slash_first]

/-- **Directories are hidden.** Paths with the same name and the same area are shown as the same
text, whatever else their directories are, and of a name at most 8 characters are shown and at least
one is not. -/
theorem directories_hidden :
    (∀ path path' : Bytes, Far path → Far path' → fileNameOf path = fileNameOf path' →
      2 ≤ (fileNameOf path).length → areaOf path = areaOf path' →
        ∃ text, extractFileName path = some text ∧ extractFileName path' = some text) ∧
      ∀ name : Bytes, name ≠ [] → ∃ head tail, ShowsOnly name head tail ∧ head + tail ≤ 8 ∧
        head + tail < name.length := by
  constructor
  · intro path path' h h' hname hlength harea
    obtain ⟨text, htext⟩ := Option.isSome_iff_exists.mp (extractFileName_isSome path)
    refine ⟨text, htext, ?_⟩
    rw [← htext]
    exact (extractFileName_congr h h' hname hlength harea).symm
  · intro name hne
    have hlength : name.length ≠ 0 := fun hzero => hne (List.length_eq_zero_iff.mp hzero)
    exact ⟨_, _, showsOnly name, shown_le _, shown_lt hlength⟩

/-- A store of two users. -/
theorem directories_hidden_settings :
    ∃ text, extractFileName (utf8 "/data/app/el2/100/base/settings") = some text ∧
      extractFileName (utf8 "/data/app/el2/101/base/com.example/settings") = some text := by
  refine directories_hidden.1 _ _ ⟨by decide +kernel, 0, 22, ?_⟩
    ⟨by decide +kernel, 0, 34, ?_⟩ ?_ ?_ ?_
  · decide +kernel
  · decide +kernel
  · decide +kernel
  · decide +kernel
  · decide +kernel

example : extractFileName (utf8 "/data/app/el2/100/base/settings") =
    some (utf8 "/***/el2/***/set***") := by
  decide +kernel

end NativePreferences
