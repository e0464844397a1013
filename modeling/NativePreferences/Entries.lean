import Mathlib.Data.Set.Function
import Mathlib.Order.CompleteBooleanAlgebra
import Mathlib.Order.CompletePartialOrder
import NativePreferences.Lib.Interference
import NativePreferences.XmlFileSave

/-!
# NativePreferences.Entries

**Files that have more than one name.** A name is a text; what it stands for is an entry of some
directory, and the kernel finds it. Different texts may stand for the same entry, as `/data/x` and
`/data//x` do, and a text may stand for none: it is too long, or there is no such directory. So
the question which files a program touches is asked in two steps: which names its calls have
(`OsCall.reads`, `OsCall.writes`), and which entries the kernel takes these for (`Names.entries`).

An entry may be a directory, with other entries below it. The files say which directories hold
something; an empty one does not show. A directory that is renamed takes along what lies below it.

`Kernel` is an environment over entries. It may fail as it likes, but a call changes no entry
except those that it names for writing and, if it is a rename, those below the two that it names
(`Names.reach`). Two rules follow. A program changes only what its calls reach
(`Kernel.exec_frame`), and its result depends only on what its calls read, where these names are
no directories (`exec_faultFreeAt_congr`).
-/

namespace NativePreferences

open Lib

variable {ι Doc : Type}

/-! ### Names -/

/-- The files by entry; `none` where there is no file. -/
abbrev Entries (ι : Type) : Type := ι → Option Bytes

/-- How the kernel takes the names of files. A name whose last component is `.` or `..` is taken for
none: what it stands for cannot be renamed, removed or written. Symbolic links below a directory
that is renamed are left out. -/
structure Names (ι : Type) where
  resolve : String → Option ι
  /-- A text beyond `PATH_MAX` is no name. -/
  short : ∀ {p : String} {i : ι}, resolve p = some i → p.utf8ByteSize ≤ pathMax
  /-- The entries below an entry, if that is a directory. -/
  below : ι → Set ι
  below_irrefl : ∀ i, i ∉ below i
  below_trans : ∀ {i j k : ι}, i ∈ below j → j ∈ below k → i ∈ below k
  below_tree : ∀ {i j k : ι}, k ∈ below i → k ∈ below j → i = j ∨ i ∈ below j ∨ j ∈ below i
  /-- Where an entry below the first is found after the first has been renamed to the second. -/
  carry : ι → ι → ι → ι
  carry_mem : ∀ {i j k : ι}, k ∈ below i → carry i j k ∈ below j
  carry_carry : ∀ {i j k : ι}, k ∈ below i → carry j i (carry i j k) = k
  /-- Names that differ in the end of the last component only are names in one directory. -/
  sibling : ∀ {p s t : String} {i j : ι}, p.toList.getLast? ≠ some '/' → '/' ∉ s.toList →
    '/' ∉ t.toList → resolve (p ++ s) = some i → resolve (p ++ t) = some j →
    ∀ k, i ∈ below k ↔ j ∈ below k
  /-- In one directory, different names are different entries. -/
  sibling_ne : ∀ {p s t : String} {i j : ι}, p.toList.getLast? ≠ some '/' → '/' ∉ s.toList →
    '/' ∉ t.toList → resolve (p ++ s) = some i → resolve (p ++ t) = some j → s ≠ t → i ≠ j

namespace Names

variable {N : Names ι} {w v : Entries ι} {p : String} {c : Option Bytes}

/-- The entries that these names stand for. -/
def entries (N : Names ι) (names : List String) : Set ι := {i | ∃ p ∈ names, N.resolve p = some i}

/-- The entries below those that these names stand for. -/
def under (N : Names ι) (names : List String) : Set ι := {k | ∃ i ∈ N.entries names, k ∈ N.below i}

/-- The names stand for no directories, or for empty ones. -/
def NoDirectory (N : Names ι) (w : Entries ι) (names : List String) : Prop :=
  ∀ k ∈ N.under names, w k = none

/-- The entry is a directory with a file in it. -/
def IsDirectory (N : Names ι) (w : Entries ι) (i : ι) : Prop :=
  w i = none ∧ ∃ k ∈ N.below i, (w k).isSome

/-- The name is that of such a directory. -/
def AtDirectory (N : Names ι) (w : Entries ι) (p : String) : Prop :=
  ∃ i, N.resolve p = some i ∧ N.IsDirectory w i

/-- The directory `i` can be renamed to `j`: there is nothing yet, and it is not below `i`. -/
structure MovesTo (N : Names ι) (w : Entries ι) (i j : ι) : Prop where
  source : N.IsDirectory w i
  target : w j = none
  below_target : ∀ k ∈ N.below j, w k = none
  apart : j ∉ N.below i

/-- What lies below the one or the other entry of such a rename. -/
def carries (N : Names ι) (renames : List (String × String)) : Set ι :=
  {k | ∃ ab ∈ renames, ∃ i j, N.resolve ab.1 = some i ∧ N.resolve ab.2 = some j ∧
    (k ∈ N.below i ∨ k ∈ N.below j)}

/-- What calls can change that name these files for writing and rename these. -/
def reach (N : Names ι) (writes : List String) (renames : List (String × String)) : Set ι :=
  N.entries writes ∪ N.carries renames

open Classical in
/-- The files after the directory `i` was renamed to `j`, where there was nothing. -/
noncomputable def moveTree (N : Names ι) (w : Entries ι) (i j : ι) : Entries ι := fun k =>
  if k ∈ N.below i then none else if k ∈ N.below j then w (N.carry j i k) else w k

/-- The file under a name. -/
def content (N : Names ι) (w : Entries ι) (p : String) : Option Bytes := (N.resolve p).bind w

theorem content_of_resolve {i : ι} (h : N.resolve p = some i) : N.content w p = w i := by
  rw [content, h, Option.bind_some]

theorem content_of_unresolved (h : N.resolve p = none) : N.content w p = none := by
  rw [content, h, Option.bind_none]

theorem entries_mono {names names' : List String} (h : names ⊆ names') :
    N.entries names ⊆ N.entries names' := by
  intro i ⟨p, hp, hi⟩
  exact ⟨p, h hp, hi⟩

theorem under_mono {names names' : List String} (h : names ⊆ names') :
    N.under names ⊆ N.under names' := by
  intro k ⟨i, hi, hk⟩
  exact ⟨i, entries_mono h hi, hk⟩

theorem NoDirectory.mono {names names' : List String} (h : N.NoDirectory w names')
    (hsub : names ⊆ names') : N.NoDirectory w names :=
  fun k hk => h k (under_mono hsub hk)

theorem noDirectory_nil : N.NoDirectory w [] := by
  rintro k ⟨i, ⟨p, hp, -⟩, -⟩
  exact absurd hp List.not_mem_nil

theorem moveTree_of_mem {i j k : ι} (h : k ∈ N.below i) : N.moveTree w i j k = none := by
  rw [moveTree, if_pos h]

theorem moveTree_of_mem_target {i j k : ι} (hi : k ∉ N.below i) (hj : k ∈ N.below j) :
    N.moveTree w i j k = w (N.carry j i k) := by
  rw [moveTree, if_neg hi, if_pos hj]

theorem moveTree_of_notMem {i j k : ι} (hi : k ∉ N.below i) (hj : k ∉ N.below j) :
    N.moveTree w i j k = w k := by
  rw [moveTree, if_neg hi, if_neg hj]

/-- The file under a name of the set is the same in files that agree on the set. -/
theorem content_congr {A : Set ι} (h : Set.EqOn w v A) (hp : N.entries [p] ⊆ A) :
    N.content w p = N.content v p := by
  cases hi : N.resolve p with
  | none => rw [content_of_unresolved hi, content_of_unresolved hi]
  | some i =>
      rw [content_of_resolve hi, content_of_resolve hi]
      exact h (hp ⟨p, List.mem_singleton_self p, hi⟩)

variable [DecidableEq ι]

/-- Make the file under a name hold `c`, or vanish. -/
def set (N : Names ι) (w : Entries ι) (p : String) (c : Option Bytes) : Entries ι :=
  match N.resolve p with
  | some i => Function.update w i c
  | none => w

/-- Move the file under `a` to `b`, over whatever was there. -/
def move (N : Names ι) (w : Entries ι) (a b : String) : Entries ι :=
  N.set (N.set w a none) b (N.content w a)

/-- Create the file under a name if there is none. -/
def touch (N : Names ι) (w : Entries ι) (p : String) : Entries ι :=
  if (N.content w p).isSome then w else N.set w p (some [])

theorem content_set {i : ι} (h : N.resolve p = some i) : N.content (N.set w p c) p = c := by
  rw [content_of_resolve h, set, h]
  exact Function.update_self i c w

/-- Writing under a name leaves the other entries alone. -/
theorem set_eqOn (N : Names ι) (w : Entries ι) (p : String) (c : Option Bytes) :
    Set.EqOn (N.set w p c) w (N.entries [p])ᶜ := by
  intro i hi
  unfold set
  cases hj : N.resolve p with
  | none => rfl
  | some j =>
      have hne : i ≠ j := by
        intro heq
        exact hi ⟨p, List.mem_singleton_self p, heq ▸ hj⟩
      exact Function.update_of_ne hne c w

theorem touch_eqOn (N : Names ι) (w : Entries ι) (p : String) :
    Set.EqOn (N.touch w p) w (N.entries [p])ᶜ := by
  unfold touch
  split
  · exact Set.eqOn_refl _ _
  · exact set_eqOn N w p _

theorem move_eqOn (N : Names ι) (w : Entries ι) (a b : String) :
    Set.EqOn (N.move w a b) w (N.entries [a, b])ᶜ := by
  have ha : (N.entries [a, b])ᶜ ⊆ (N.entries [a])ᶜ :=
    Set.compl_subset_compl.mpr (entries_mono (by simp))
  have hb : (N.entries [a, b])ᶜ ⊆ (N.entries [b])ᶜ :=
    Set.compl_subset_compl.mpr (entries_mono (by simp))
  exact ((set_eqOn N _ b _).mono hb).trans ((set_eqOn N w a none).mono ha)

/-- The same write keeps the agreement, wherever it goes. -/
theorem set_congr {A : Set ι} (h : Set.EqOn w v A) :
    Set.EqOn (N.set w p c) (N.set v p c) A := by
  unfold set
  split
  · intro i hi
    simp only [Function.update_apply]
    split
    · rfl
    · exact h hi
  · exact h

theorem move_congr {A : Set ι} {a b : String} (h : Set.EqOn w v A) (ha : N.entries [a] ⊆ A) :
    Set.EqOn (N.move w a b) (N.move v a b) A := by
  unfold move
  rw [content_congr h ha]
  exact set_congr (set_congr h)

theorem touch_congr {A : Set ι} (h : Set.EqOn w v A) (hp : N.entries [p] ⊆ A) :
    Set.EqOn (N.touch w p) (N.touch v p) A := by
  unfold touch
  rw [content_congr h hp]
  split
  · exact h
  · exact set_congr h

end Names

/-! ### The names in a call -/

/-- The names of the files that a call may change. -/
def OsCall.writes : OsCall → List String
  | .rename a b => [a, b]
  | .remove p | .openFile p | .write p _ => [p]
  | .lock p true => [lockPath p]
  | _ => []

/-- The two names of a rename. -/
def OsCall.renames : OsCall → List (String × String)
  | .rename a b => [(a, b)]
  | _ => []

/-- The names of the files that the answer or the effect of a call depends on. -/
def OsCall.reads : OsCall → List String
  | .rename a _ => [a]
  | .stat p | .remove p | .xmlReadFile p | .fileSize p => [p]
  | .lock p true => [lockPath p]
  | _ => []

/-- All names in a call. -/
def OsCall.names (c : OsCall) : List String := c.reads ++ c.writes

/-- A call that reads files of one list only, changes files of another and renames as the third
says. -/
structure OsCall.Within (reads writes : List String) (renames : List (String × String))
    (c : OsCall) : Prop where
  reads : c.reads ⊆ reads
  writes : c.writes ⊆ writes
  renames : c.renames ⊆ renames

section Within

variable {reads writes : List String} {renames : List (String × String)} {c : OsCall}

theorem OsCall.Passive.writes_eq (h : c.Passive) : c.writes = [] := by
  cases c with
  | rename | remove | openFile | write | lock => exact h.elim
  | _ => rfl

theorem OsCall.Passive.renames_eq (h : c.Passive) : c.renames = [] := by
  cases c with
  | rename => exact h.elim
  | _ => rfl

theorem OsCall.Mute.within (c : OsCall) (h : c.Mute) : c.Within reads writes renames := by
  cases c with
  | fsync | close | xmlGetLastError | errno | strerror | report =>
      exact ⟨List.nil_subset _, List.nil_subset _, List.nil_subset _⟩
  | _ => exact h.elim

end Within

/-! ### Environments -/

variable [DecidableEq ι]

/-- The environment without faults, where names stand for entries and none of those in a call is a
directory. A parse failure comes with an `errno` that counts as corruption. -/
def faultFreeAt (N : Names ι) (parse : Bytes → Option Doc) :
    Sem OsCall (OsCall.Ret Doc) (Entries ι)
  | .stat p, w, r, w' => r = (N.content w p).isSome ∧ w' = w
  | .rename a b, w, r, w' =>
      (r = true ∧ (N.content w a).isSome ∧ (N.resolve b).isSome ∧ w' = N.move w a b) ∨
        (r = false ∧ (N.content w a = none ∨ N.resolve b = none) ∧ w' = w)
  | .remove p, w, r, w' => r = (N.content w p).isSome ∧ w' = N.set w p none
  | .openFile p, w, r, w' => r = (N.resolve p).isSome ∧ w' = N.set w p (some [])
  | .write p buf, w, r, w' =>
      r = (buf.length : Int) ∧ buf.length ≤ intMax ∧ w' = N.set w p (some buf)
  | .fsync _, w, r, w' => r = true ∧ w' = w
  | .xmlReadFile p, w, r, w' =>
      r.1 = (N.content w p).bind parse ∧ (r.1 = none → corruptErrno r.2) ∧ w' = w
  | .fileSize p, w, r, w' => r = ((N.content w p).getD []).length ∧ w' = w
  | .lock p write, w, _, w' => w' = if write then N.touch w (lockPath p) else w
  | .close _, w, _, w' | .xmlGetLastError, w, _, w' | .errno, w, _, w'
  | .strerror _, w, _, w' | .report _, w, _, w' => w' = w

/-- What calls do, without faults, where a name is that of a directory that is not empty. It is
there, but not as a file; it cannot be removed; and it can be renamed to where there is nothing. -/
def directoryAt (N : Names ι) : Sem OsCall (OsCall.Ret Doc) (Entries ι)
  | .stat p, w, r, w' => N.AtDirectory w p ∧ r = true ∧ w' = w
  | .rename a b, w, r, w' =>
      (∃ i j, N.resolve a = some i ∧ N.resolve b = some j ∧ N.MovesTo w i j ∧ r = true ∧
          w' = N.moveTree w i j) ∨
        (N.resolve a ≠ N.resolve b ∧ ¬ N.NoDirectory w [a, b] ∧
          (∀ i j, N.resolve a = some i → N.resolve b = some j → ¬ N.MovesTo w i j) ∧ r = false ∧
          w' = w)
  | .remove p, w, r, w' | .openFile p, w, r, w' => N.AtDirectory w p ∧ r = false ∧ w' = w
  | .xmlReadFile p, w, r, w' => N.AtDirectory w p ∧ r.1 = none ∧ corruptErrno r.2 ∧ w' = w
  | .fileSize p, w, _, w' => N.AtDirectory w p ∧ w' = w
  | .lock p true, w, _, w' => N.AtDirectory w (lockPath p) ∧ w' = w
  | _, _, _, _ => False

/-- The environment without faults, on files and on directories. -/
def faultFreeOn (N : Names ι) (parse : Bytes → Option Doc) :
    Sem OsCall (OsCall.Ret Doc) (Entries ι) := fun c w r w' =>
  (N.NoDirectory w c.names ∧ faultFreeAt N parse c w r w') ∨ directoryAt N c w r w'

/-- A kernel over these entries: everything that happens without faults can happen, and a call, be
it answered or cut short, changes only what it names for writing and what a rename carries. -/
structure Kernel (N : Names ι) (parse : Bytes → Option Doc) where
  sem : Sem OsCall (OsCall.Ret Doc) (Entries ι)
  mid : OsCall → Entries ι → Entries ι → Prop
  works : ∀ c w r w', faultFreeOn N parse c w r w' → sem c w r w'
  sem_eqOn : ∀ c w r w', sem c w r w' → Set.EqOn w' w (N.reach c.writes c.renames)ᶜ
  mid_eqOn : ∀ c w w', mid c w w' → Set.EqOn w' w (N.reach c.writes c.renames)ᶜ

section FaultFreeAt

variable {N : Names ι} {parse : Bytes → Option Doc} {w w' v : Entries ι} {A : Set ι} {α : Type}

theorem faultFreeAt_eqOn (c : OsCall) (w : Entries ι) (r : c.Ret Doc) (w' : Entries ι)
    (h : faultFreeAt N parse c w r w') : Set.EqOn w' w (N.entries c.writes)ᶜ := by
  cases c with
  | rename a b =>
      obtain ⟨-, -, -, rfl⟩ | ⟨-, -, rfl⟩ := h
      · exact Names.move_eqOn N w a b
      · exact Set.eqOn_refl _ _
  | remove p | openFile p =>
      obtain ⟨-, rfl⟩ := h
      exact Names.set_eqOn N w p _
  | write p buf =>
      obtain ⟨-, -, rfl⟩ := h
      exact Names.set_eqOn N w p _
  | lock p write =>
      cases write with
      | false => exact (show w' = w from h) ▸ Set.eqOn_refl _ _
      | true => exact (show w' = N.touch w (lockPath p) from h) ▸ Names.touch_eqOn N w (lockPath p)
  | stat | fsync | fileSize => exact h.2 ▸ Set.eqOn_refl _ _
  | xmlReadFile => exact h.2.2 ▸ Set.eqOn_refl _ _
  | close | xmlGetLastError | errno | strerror | report =>
      exact (show w' = w from h) ▸ Set.eqOn_refl _ _

omit [DecidableEq ι] in
theorem directoryAt_eqOn (c : OsCall) (w : Entries ι) (r : c.Ret Doc) (w' : Entries ι)
    (h : directoryAt N c w r w') : Set.EqOn w' w (N.reach c.writes c.renames)ᶜ := by
  cases c with
  | rename a b =>
      obtain ⟨i, j, hi, hj, -, -, rfl⟩ | ⟨-, -, -, -, rfl⟩ := h
      · intro k hk
        have hcarried (hk' : k ∈ N.below i ∨ k ∈ N.below j) : False :=
          hk (.inr ⟨(a, b), List.mem_singleton_self _, i, j, hi, hj, hk'⟩)
        exact Names.moveTree_of_notMem (fun h => hcarried (.inl h)) (fun h => hcarried (.inr h))
      · exact Set.eqOn_refl _ _
  | stat | remove | openFile => exact h.2.2 ▸ Set.eqOn_refl _ _
  | xmlReadFile => exact h.2.2.2 ▸ Set.eqOn_refl _ _
  | fileSize => exact h.2 ▸ Set.eqOn_refl _ _
  | lock p write =>
      cases write with
      | false => exact h.elim
      | true => exact (show _ ∧ w' = w from h).2 ▸ Set.eqOn_refl _ _
  | _ => exact h.elim

theorem faultFreeOn_eqOn (c : OsCall) (w : Entries ι) (r : c.Ret Doc) (w' : Entries ι)
    (h : faultFreeOn N parse c w r w') : Set.EqOn w' w (N.reach c.writes c.renames)ᶜ := by
  rcases h with ⟨-, hfile⟩ | hdir
  · exact (faultFreeAt_eqOn c w r w' hfile).mono
      (Set.compl_subset_compl.mpr Set.subset_union_left)
  · exact directoryAt_eqOn c w r w' hdir

/-- The environment without faults is a kernel. -/
def Kernel.faultFree (N : Names ι) (parse : Bytes → Option Doc) : Kernel N parse where
  sem := faultFreeOn N parse
  mid := fun _ _ _ => False
  works := fun _ _ _ _ h => h
  sem_eqOn := faultFreeOn_eqOn
  mid_eqOn := fun _ _ _ h => h.elim

theorem faultFreeAt_passive (c : OsCall) (w : Entries ι) (r : c.Ret Doc) (w' : Entries ι)
    (hc : c.Passive) (h : faultFreeAt N parse c w r w') : w' = w := by
  cases c with
  | stat | fsync | fileSize => exact h.2
  | close | xmlGetLastError | errno | strerror | report => exact h
  | _ => exact hc.elim

/-- Every call but a write of more than `write` can report is answered. -/
theorem exists_faultFreeAt (c : OsCall) (w : Entries ι) (hc : c.Fits) :
    ∃ r w', faultFreeAt N parse c w r w' := by
  cases c with
  | rename a b =>
      by_cases hab : (N.content w a).isSome ∧ (N.resolve b).isSome
      · exact ⟨true, _, .inl ⟨rfl, hab.1, hab.2, rfl⟩⟩
      · refine ⟨false, w, .inr ⟨rfl, ?_, rfl⟩⟩
        rw [not_and_or] at hab
        simpa using hab
  | write p buf => exact ⟨(buf.length : Int), _, rfl, hc, rfl⟩
  | xmlReadFile p => exact ⟨((N.content w p).bind parse, 0), w, rfl, fun _ => rfl, rfl⟩
  | lock p write => exact ⟨false, _, rfl⟩
  | stat | remove | openFile | fsync | fileSize => exact ⟨_, _, rfl, rfl⟩
  | close | report => exact ⟨(), w, rfl⟩
  | xmlGetLastError => exact ⟨(none : Option String), w, rfl⟩
  | errno => exact ⟨(0 : Nat), w, rfl⟩
  | strerror => exact ⟨"", w, rfl⟩

/-- A call is answered alike where the files it reads are alike. -/
theorem faultFreeAt_congr (c : OsCall) (w v : Entries ι) (r : c.Ret Doc) (w' : Entries ι)
    (hreads : N.entries c.reads ⊆ A) (hagree : Set.EqOn w v A)
    (h : faultFreeAt N parse c w r w') :
    ∃ v', faultFreeAt N parse c v r v' ∧ Set.EqOn w' v' A := by
  cases c with
  | stat p =>
      obtain ⟨rfl, rfl⟩ := h
      exact ⟨v, ⟨by rw [Names.content_congr hagree hreads], rfl⟩, hagree⟩
  | rename a b =>
      have ha : N.content w a = N.content v a := Names.content_congr hagree hreads
      obtain ⟨rfl, hsome, hb, rfl⟩ | ⟨rfl, hfail, rfl⟩ := h
      · exact ⟨N.move v a b, .inl ⟨rfl, ha ▸ hsome, hb, rfl⟩, Names.move_congr hagree hreads⟩
      · exact ⟨v, .inr ⟨rfl, ha ▸ hfail, rfl⟩, hagree⟩
  | remove p =>
      obtain ⟨rfl, rfl⟩ := h
      exact ⟨N.set v p none, ⟨by rw [Names.content_congr hagree hreads], rfl⟩,
        Names.set_congr hagree⟩
  | openFile p =>
      obtain ⟨rfl, rfl⟩ := h
      exact ⟨N.set v p (some []), ⟨rfl, rfl⟩, Names.set_congr hagree⟩
  | write p buf =>
      obtain ⟨rfl, hlen, rfl⟩ := h
      exact ⟨N.set v p (some buf), ⟨rfl, hlen, rfl⟩, Names.set_congr hagree⟩
  | xmlReadFile p =>
      obtain ⟨hdoc, herr, rfl⟩ := h
      exact ⟨v, ⟨by rw [hdoc, Names.content_congr hagree hreads], herr, rfl⟩, hagree⟩
  | fileSize p =>
      obtain ⟨rfl, rfl⟩ := h
      exact ⟨v, ⟨by rw [Names.content_congr hagree hreads], rfl⟩, hagree⟩
  | lock p write =>
      cases write with
      | false => exact ⟨v, rfl, (show w' = w from h) ▸ hagree⟩
      | true =>
          obtain rfl : w' = N.touch w (lockPath p) := h
          exact ⟨N.touch v (lockPath p), rfl, Names.touch_congr hagree hreads⟩
  | fsync => exact ⟨v, ⟨h.1, rfl⟩, h.2 ▸ hagree⟩
  | close | xmlGetLastError | errno | strerror | report =>
      exact ⟨v, rfl, (show w' = w from h) ▸ hagree⟩

end FaultFreeAt

/-! ### Programs -/

section Programs

variable {N : Names ι} {parse : Bytes → Option Doc} {w w' v : Entries ι} {α : Type}
variable {K : Kernel N parse} {p : Os Doc α} {tr : List (OsEvent Doc)} {a : α}
variable {reads writes names : List String} {renames : List (String × String)}

/-- What a program returns depends only on the files that its calls read. -/
theorem exec_faultFreeAt_congr (h : Exec (faultFreeAt N parse) p w tr a w')
    (hp : p.OnlyCalls (OsCall.Within reads writes renames))
    (hagree : Set.EqOn w v (N.entries reads)) :
    ∃ v', Exec (faultFreeAt N parse) p v tr a v' ∧ Set.EqOn w' v' (N.entries reads) := by
  refine h.simulate (Q := fun w v => Set.EqOn w v (N.entries reads)) ?_ hp hagree
  intro c w v r w' hc hwv hs
  exact faultFreeAt_congr c w v r w' (Names.entries_mono hc.reads) hwv hs

end Programs

end NativePreferences
