import Mathlib.Logic.Function.Basic
import NativePreferences.Lib.Bytes
import NativePreferences.Lib.Program
import NativePreferences.Value

/-!
# NativePreferences.Os

The **operating system as the XML store sees it**: the files by path, the calls the
store makes, and what each call may answer.

A store on the path `p` lives in up to four files: `p` itself, `p.bak`, `p.broken`
and `p.lock`. They are ordinary paths, built by string concatenation (`makeFilePath`),
so nothing here keeps two stores apart.

Two environments are defined over the same calls:

* `faultFree` — every call does what it is for. The only thing left open is the
  `errno` that goes with a parse failure, because a parser that rejects a text makes
  no failing system call;
* `faulty` — every call may also fail, a write may be short, and a read may fail with
  any `errno` although the file is fine.

The XML parser is libxml2's and stays a parameter `parse`.
-/

namespace NativePreferences

open Lib

/-! ### Paths -/

/-- `PreferencesUtils::STR_BACKUP`. -/
def strBackup : String := ".bak"

/-- `PreferencesUtils::STR_BROKEN`. -/
def strBroken : String := ".broken"

/-- `PreferencesUtils::STR_LOCK`. -/
def strLock : String := ".lock"

/-- `PreferencesUtils::MakeFilePath`. -/
def makeFilePath (prefPath suffix : String) : String := prefPath ++ suffix

/-- The backup file of the store on `path`. -/
abbrev bakPath (path : String) : String := makeFilePath path strBackup

/-- Where an unreadable main file is put aside. -/
abbrev brokenPath (path : String) : String := makeFilePath path strBroken

/-- The lock file of the store on `path`. -/
abbrev lockPath (path : String) : String := makeFilePath path strLock

theorem makeFilePath_ne_self {path suffix : String} (h : suffix.utf8ByteSize ≠ 0) :
    makeFilePath path suffix ≠ path := by
  intro heq
  have hsize := congrArg String.utf8ByteSize heq
  simp only [makeFilePath, String.utf8ByteSize_append] at hsize
  omega

@[simp] theorem bakPath_ne (path : String) : bakPath path ≠ path :=
  makeFilePath_ne_self (by decide)

@[simp] theorem ne_bakPath (path : String) : path ≠ bakPath path := (bakPath_ne path).symm

@[simp] theorem brokenPath_ne (path : String) : brokenPath path ≠ path :=
  makeFilePath_ne_self (by decide)

@[simp] theorem ne_brokenPath (path : String) : path ≠ brokenPath path :=
  (brokenPath_ne path).symm

@[simp] theorem lockPath_ne (path : String) : lockPath path ≠ path :=
  makeFilePath_ne_self (by decide)

@[simp] theorem ne_lockPath (path : String) : path ≠ lockPath path := (lockPath_ne path).symm

@[simp] theorem bakPath_ne_brokenPath (path : String) : bakPath path ≠ brokenPath path := by
  simp [makeFilePath, strBackup, strBroken]

@[simp] theorem brokenPath_ne_bakPath (path : String) : brokenPath path ≠ bakPath path :=
  (bakPath_ne_brokenPath path).symm

@[simp] theorem bakPath_ne_lockPath (path : String) : bakPath path ≠ lockPath path := by
  simp [makeFilePath, strBackup, strLock]

@[simp] theorem brokenPath_ne_lockPath (path : String) : brokenPath path ≠ lockPath path := by
  simp [makeFilePath, strBroken, strLock]

/-! ### Files -/

/-- The files by path; `none` where there is no file. -/
abbrev Files : Type := String → Option Bytes

namespace Files

/-- Make the file at `p` hold `c`, or vanish. -/
def set (w : Files) (p : String) (c : Option Bytes) : Files := Function.update w p c

/-- Move the file at `a` to `b`, over whatever was there. -/
def move (w : Files) (a b : String) : Files := (w.set a none).set b (w a)

/-- Create the file at `p` if there is none. -/
def touch (w : Files) (p : String) : Files := if (w p).isSome then w else w.set p (some [])

@[simp] theorem set_self (w : Files) (p : String) (c : Option Bytes) : w.set p c p = c := by
  simp [set]

@[simp] theorem set_of_ne (w : Files) {p q : String} (c : Option Bytes) (h : q ≠ p) :
    w.set p c q = w q := by
  simp [set, h]

@[simp] theorem move_target (w : Files) (a b : String) : w.move a b b = w a := by
  simp [move]

@[simp] theorem move_source (w : Files) {a b : String} (h : a ≠ b) : w.move a b a = none := by
  simp [move, h]

@[simp] theorem move_of_ne (w : Files) {a b q : String} (ha : q ≠ a) (hb : q ≠ b) :
    w.move a b q = w q := by
  simp [move, ha, hb]

@[simp] theorem touch_of_ne (w : Files) {p q : String} (h : q ≠ p) : w.touch p q = w q := by
  unfold touch
  split
  · rfl
  · exact set_of_ne w _ h

end Files

/-! ### Fault reports

The reports of `PreferencesDfxManager` that the file code emits. `store` is the path
that `ExtractFileName` anonymises, and every report is for an XML store (`NORMAL_DB`). -/

/-- `ReportedFaultBitMap`. -/
inductive ReportedFaultBitMap
  | restoreFromBak
  | useWhenScreenLocked
  | objectIsNotActive
  deriving DecidableEq, Repr

/-- `ReportFaultParam`. -/
structure ReportFaultParam where
  faultType : String
  bundleName : String
  store : String
  errCode : ErrCode
  appendix : String
  deriving DecidableEq, Repr

/-- `ReportParam` of a `DATABASE_CORRUPTED` event. -/
structure ReportParam where
  bundleName : String
  store : String
  errCode : ErrCode
  errnoCode : Nat
  appendix : String
  deriving DecidableEq, Repr

/-- One call of `PreferencesDfxManager`. -/
inductive Report
  /-- `Report(param, EVENT_NAME_DB_CORRUPTED)`. -/
  | corrupted (param : ReportParam)
  /-- `ReportFault(param)`. -/
  | fault (param : ReportFaultParam)
  /-- `ReportAbnormalOperation(param, offset)`. -/
  | abnormal (param : ReportFaultParam) (offset : ReportedFaultBitMap)
  deriving DecidableEq, Repr

/-! ### Calls -/

/-- What the XML file code asks of the operating system, of libxml2 and of the fault
reporter. -/
inductive OsCall
  /-- `stat(p) == 0`. -/
  | stat (p : String)
  /-- `rename(a, b)`; answers whether it worked. -/
  | rename (a b : String)
  /-- `remove(p)`; answers whether it worked. -/
  | remove (p : String)
  /-- `open(p, O_WRONLY | O_CREAT | O_TRUNC)`; answers whether there is a descriptor. -/
  | openFile (p : String)
  /-- `write` of the buffer to the descriptor just opened on `p`; answers the count or
  `-1`. -/
  | write (p : String) (buf : Bytes)
  | fsync (p : String)
  | close (p : String)
  /-- `xmlReadFile(p)` followed by a read of `errno`. -/
  | xmlReadFile (p : String)
  /-- The message of `xmlGetLastError`, if there is an error. -/
  | xmlGetLastError
  /-- The value of `errno`. -/
  | errno
  | strerror (errCode : Nat)
  /-- The `st_size` a `stat` of `p` yields. -/
  | fileSize (p : String)
  /-- `PreferencesFileLock` on the store `p`, for writing or reading; answers
  `isMultiProcessing`. -/
  | lock (p : String) (write : Bool)
  | report (r : Report)
  deriving DecidableEq

/-- The answer type of each call; `Doc` is libxml2's `xmlDoc`. -/
abbrev OsCall.Ret (Doc : Type) : OsCall → Type
  | .stat _ | .rename _ _ | .remove _ | .openFile _ | .fsync _ | .lock _ _ => Bool
  | .write _ _ => Int
  | .close _ | .report _ => Unit
  | .xmlReadFile _ => Option Doc × Nat
  | .xmlGetLastError => Option String
  | .errno | .fileSize _ => Nat
  | .strerror _ => String

/-- Programs over the operating system. -/
abbrev Os (Doc : Type) : Type → Type := Program OsCall (OsCall.Ret Doc)

/-- A call of the trace with its answer. -/
abbrev OsEvent (Doc : Type) : Type := Event (OsCall.Ret Doc)

/-- The bound of the `int` that `Write` returns its count in. -/
def intMax : Nat := 2 ^ 31 - 1

section Environments

variable {Doc : Type}

/-- The document a path holds, if it holds one. -/
def docAt (parse : Bytes → Option Doc) (w : Files) (p : String) : Option Doc := (w p).bind parse

/-- The environment without faults. `parseErrno` says which values `errno` may have
after a parse failure. -/
def faultFree (parse : Bytes → Option Doc) (parseErrno : Nat → Prop) :
    Sem OsCall (OsCall.Ret Doc) Files
  | .stat p, w, r, w' => r = (w p).isSome ∧ w' = w
  | .rename a b, w, r, w' =>
      (r = true ∧ (w a).isSome ∧ w' = w.move a b) ∨ (r = false ∧ w a = none ∧ w' = w)
  | .remove p, w, r, w' => r = (w p).isSome ∧ w' = w.set p none
  | .openFile p, w, r, w' => r = true ∧ w' = w.set p (some [])
  | .write p buf, w, r, w' =>
      r = (buf.length : Int) ∧ buf.length ≤ intMax ∧ w' = w.set p (some buf)
  | .fsync _, w, r, w' => r = true ∧ w' = w
  | .xmlReadFile p, w, r, w' =>
      r.1 = docAt parse w p ∧ (r.1 = none → parseErrno r.2) ∧ w' = w
  | .fileSize p, w, r, w' => r = ((w p).getD []).length ∧ w' = w
  | .lock p write, w, _, w' => w' = if write then w.touch (lockPath p) else w
  | .close _, w, _, w' | .xmlGetLastError, w, _, w' | .errno, w, _, w'
  | .strerror _, w, _, w' | .report _, w, _, w' => w' = w

/-- The half-done states of a call: only a write has any, and in them the file holds a
part of the buffer. `rename`, `remove` and the truncating `open` are atomic. -/
def halfDone : OsCall → Files → Files → Prop
  | .write p buf, w, w' => ∃ part, part <+: buf ∧ w' = w.set p (some part)
  | _, _, _ => False

/-- The environment in which every call may fail. A failing call changes nothing; a
write may stop after any number of bytes. `statFails` says whether `stat` may miss a
file that is there. -/
def faulty (parse : Bytes → Option Doc) (statFails : Prop) :
    Sem OsCall (OsCall.Ret Doc) Files
  | .stat p, w, r, w' => (r = (w p).isSome ∨ (statFails ∧ r = false)) ∧ w' = w
  | .rename a b, w, r, w' => (r = true ∧ (w a).isSome ∧ w' = w.move a b) ∨ (r = false ∧ w' = w)
  | .remove p, w, r, w' =>
      (r = true ∧ (w p).isSome ∧ w' = w.set p none) ∨ (r = false ∧ w' = w)
  | .openFile p, w, r, w' => (r = true ∧ w' = w.set p (some [])) ∨ (r = false ∧ w' = w)
  | .write p buf, w, r, w' =>
      (r = (-1 : Int) ∧ w' = w) ∨
        ∃ n : Nat, n ≤ buf.length ∧ n ≤ intMax ∧ r = (n : Int) ∧ w' = w.set p (some (buf.take n))
  | .xmlReadFile p, w, r, w' => (r.1 = none ∨ r.1 = docAt parse w p) ∧ w' = w
  | .lock p write, w, _, w' => w' = if write then w.touch (lockPath p) else w
  | .fsync _, w, _, w' | .fileSize _, w, _, w' | .close _, w, _, w'
  | .xmlGetLastError, w, _, w' | .errno, w, _, w' | .strerror _, w, _, w'
  | .report _, w, _, w' => w' = w

/-! ### Answers -/

/-- One way for the environment without faults to answer: no other process holds the
lock, and `errno` is 0. -/
def answerFaultFree (parse : Bytes → Option Doc) : (c : OsCall) → Files → c.Ret Doc × Files
  | .stat p, w => ((w p).isSome, w)
  | .rename a b, w => if (w a).isSome then (true, w.move a b) else (false, w)
  | .remove p, w => ((w p).isSome, w.set p none)
  | .openFile p, w => (true, w.set p (some []))
  | .write p buf, w => ((buf.length : Int), w.set p (some buf))
  | .fsync _, w => (true, w)
  | .xmlReadFile p, w => ((docAt parse w p, 0), w)
  | .fileSize p, w => (((w p).getD []).length, w)
  | .lock p write, w => (false, if write then w.touch (lockPath p) else w)
  | .close _, w => ((), w)
  | .xmlGetLastError, w => (none, w)
  | .errno, w => ((0 : Nat), w)
  | .strerror _, w => ("", w)
  | .report _, w => ((), w)

/-- A write that `write` can report in one piece; every other call. -/
def OsCall.Fits : OsCall → Prop
  | .write _ buf => buf.length ≤ intMax
  | _ => True

theorem faultFree_answerFaultFree {parse : Bytes → Option Doc} {parseErrno : Nat → Prop}
    (h0 : parseErrno 0) (c : OsCall) (w : Files) (hc : c.Fits) :
    faultFree parse parseErrno c w (answerFaultFree parse c w).1
      (answerFaultFree parse c w).2 := by
  cases c with
  | write p buf => exact ⟨rfl, hc, rfl⟩
  | rename a b =>
      by_cases ha : (w a).isSome
      · simp only [answerFaultFree, if_pos ha]
        exact .inl ⟨rfl, ha, rfl⟩
      · simp only [answerFaultFree, if_neg ha]
        exact .inr ⟨rfl, by simpa using ha, rfl⟩
  | xmlReadFile p => exact ⟨rfl, fun _ => h0, rfl⟩
  | stat | remove | openFile | fsync | fileSize => exact ⟨rfl, rfl⟩
  | lock | close | xmlGetLastError | errno | strerror | report => exact rfl

/-! ### Passive calls -/

/-- The calls that neither change a file nor read a document: queries and reports. -/
def OsCall.Passive : OsCall → Prop
  | .rename _ _ | .remove _ | .openFile _ | .write _ _ | .xmlReadFile _ | .lock _ _ => False
  | _ => True

instance : DecidablePred OsCall.Passive
  | .rename _ _ | .remove _ | .openFile _ | .write _ _ | .xmlReadFile _ | .lock _ _ =>
      isFalse id
  | .stat _ | .fsync _ | .close _ | .xmlGetLastError | .errno | .strerror _ | .fileSize _
  | .report _ => isTrue trivial

/-- The calls that have nothing to do with what is in a file: neither a query of it nor a change
to it. -/
def OsCall.Mute : OsCall → Prop
  | .fsync _ | .close _ | .xmlGetLastError | .errno | .strerror _ | .report _ => True
  | _ => False

theorem OsCall.Mute.passive (c : OsCall) (h : c.Mute) : c.Passive := by
  cases c with
  | fsync | close | xmlGetLastError | errno | strerror | report => trivial
  | _ => exact h.elim

/-- The part of a trace that matters for the files: the calls that are not passive. -/
def active (tr : List (OsEvent Doc)) : List (OsEvent Doc) := tr.filter (fun ev => ¬ ev.1.Passive)

@[simp] theorem active_append (tr tr' : List (OsEvent Doc)) :
    active (tr ++ tr') = active tr ++ active tr' := List.filter_append tr tr'

theorem active_of_passive {tr : List (OsEvent Doc)} (h : ∀ ev ∈ tr, ev.1.Passive) :
    active tr = [] := by
  rw [active, List.filter_eq_nil_iff]
  intro ev hev
  simpa using h ev hev

theorem active_singleton {ev : OsEvent Doc} (h : ¬ ev.1.Passive) : active [ev] = [ev] := by
  rw [active, List.filter_cons_of_pos (by simpa using h), List.filter_nil]

theorem mem_active {tr : List (OsEvent Doc)} {c : OsCall} {r : c.Ret Doc} (h : ¬ c.Passive) :
    ⟨c, r⟩ ∈ active tr ↔ (⟨c, r⟩ : OsEvent Doc) ∈ tr := by
  rw [active, List.mem_filter]
  exact ⟨fun hev => hev.1, fun hev => ⟨hev, by simpa using h⟩⟩

theorem faultFree_passive {parse : Bytes → Option Doc} {parseErrno : Nat → Prop} (c : OsCall)
    (w : Files) (r : c.Ret Doc) (w' : Files) (hc : c.Passive)
    (h : faultFree parse parseErrno c w r w') : w' = w := by
  cases c with
  | stat | fsync | fileSize => exact h.2
  | close | xmlGetLastError | errno | strerror | report => exact h
  | _ => exact hc.elim

theorem faulty_passive {parse : Bytes → Option Doc} {statFails : Prop} (c : OsCall)
    (w : Files) (r : c.Ret Doc) (w' : Files) (hc : c.Passive)
    (h : faulty parse statFails c w r w') : w' = w := by
  cases c with
  | stat => exact h.2
  | fsync | fileSize | close | xmlGetLastError | errno | strerror | report => exact h
  | _ => exact hc.elim

theorem halfDone_passive (c : OsCall) (w w' : Files) (hc : c.Passive)
    (h : halfDone c w w') : w' = w := by
  cases c with
  | write => exact hc.elim
  | _ => exact h.elim

theorem OsCall.Passive.fits (c : OsCall) (h : c.Passive) : c.Fits := by
  cases c with
  | write => exact h.elim
  | _ => trivial

/-- What can happen without faults can happen with them. -/
theorem faultFree_faulty {parse : Bytes → Option Doc} {parseErrno : Nat → Prop}
    {statFails : Prop} {c : OsCall} {w w' : Files} {r : c.Ret Doc}
    (h : faultFree parse parseErrno c w r w') : faulty parse statFails c w r w' := by
  cases c with
  | stat p => exact ⟨.inl h.1, h.2⟩
  | rename a b =>
      rcases h with hok | ⟨hr, -, hw⟩
      · exact .inl hok
      · exact .inr ⟨hr, hw⟩
  | remove p =>
      obtain ⟨rfl, rfl⟩ := h
      cases hp : w p with
      | none =>
          refine .inr ⟨rfl, ?_⟩
          rw [Files.set, ← hp, Function.update_eq_self]
      | some c => exact .inl ⟨rfl, by rw [hp]; rfl, rfl⟩
  | openFile p => exact .inl h
  | write p buf =>
      obtain ⟨rfl, hlen, rfl⟩ := h
      exact .inr ⟨buf.length, le_refl _, hlen, rfl, by rw [List.take_length]⟩
  | fsync | fileSize => exact h.2
  | xmlReadFile p => exact ⟨.inr h.1, h.2.2⟩
  | lock | close | xmlGetLastError | errno | strerror | report => exact h

end Environments

/-! ### A small format

For examples: one byte and a closing `>`. -/

/-- The parser of the small format. -/
def parseTagged : Bytes → Option UInt8
  | [n, 62] => some n
  | _ => none

end NativePreferences
