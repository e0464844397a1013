import NativePreferences.Helper.StoreFiles

/-!
# NativePreferences.Helper.Isolation

**When a store is safe from another one.** The files of a store are its path with suffixes, but
`GetRealPath` knows nothing of these, so the path of another store may be one of the names: the
backup of `/data/x` is the main file of the store `/data/x.bak`. Nor does it know what is a
directory: if `/data/x` is one, a load of the store `/data/x` renames it to `/data/x.broken`, and
with it the store `/data/x/y`.

A run on the store `p` does not change what is loaded from the store `q` if, and only if, no file
from which `q` is loaded is in reach of `p` (`storeReach`): it is none of the files of `p`, and it
is not below `p`, or below the place that a directory `p` is renamed to. One direction is a frame
property of everything that happens to `p` (`storeStep_eqOn`) with the other half of it, that a load
depends on nothing else (`Loads.congr`); in the other, `DeletePreferences` takes the file away
(`run_delete_onlyFile`), or a save or a load that is killed moves it (`run_moveTree`).

What is loaded is stated for a store whose names are no directories.
-/

namespace NativePreferences

open Lib

variable {ι Doc : Type}

/-! ### What happens to a store -/

/-- The functions that work on the files of a store. -/
inductive StoreOp
  | save (bundleName : String) (buf : Bytes)
  | load (bundleName : String)
  | delete (bundleName : String) (closeCode : ErrCode)

/-- The code of each. -/
def StoreOp.program (path : String) : StoreOp → Os Doc Unit
  | .save bundleName buf => saveXmlFile path bundleName buf >>= fun _ => pure ()
  | .load bundleName => xmlReadFile path bundleName >>= fun _ => pure ()
  | .delete bundleName closeCode => deletePreferences path bundleName closeCode >>= fun _ => pure ()

/-- What happens to a store. -/
inductive StoreEvent
  /-- A function has returned. -/
  | returned (op : StoreOp)
  /-- The process was killed in it. -/
  | killed (op : StoreOp)
  /-- The database library has written. -/
  | database

section Runs

variable [DecidableEq ι] {N : Names ι} {parse : Bytes → Option Doc} {K : Kernel N parse}
variable {w w' : Entries ι} {p : String}

/-- One event in the life of the store on `path`. What the database library does to the files of
the database is left open. -/
inductive StoreStep (K : Kernel N parse) (path : String) :
    Entries ι → StoreEvent → Entries ι → Prop
  | returned {w w' : Entries ι} {op : StoreOp} {tr : List (OsEvent Doc)} {u : Unit}
      (h : Exec K.sem (op.program path) w tr u w') : StoreStep K path w (.returned op) w'
  | killed {w w' : Entries ι} {op : StoreOp} (h : Crash K.sem K.mid (op.program path) w w') :
      StoreStep K path w (.killed op) w'
  | database {w w' : Entries ι} (h : Set.EqOn w' w (N.entries (dbFiles path))ᶜ) :
      StoreStep K path w .database w'

end Runs

/-! ### What a load shows -/

section Loads

variable {N : Names ι} {q : String} {supported : Bool}

theorem mem_loadFiles_main : q ∈ loadFiles N supported q := List.mem_cons_self

theorem mem_loadFiles_db : dbPath q ∈ loadFiles N supported q := by
  rw [loadFiles]
  refine List.mem_append_right _ ?_
  split
  · exact List.mem_cons_self
  · exact List.mem_cons_self

/-- The choice that `GetPreferences` makes on these files. -/
def loadChoice (N : Names ι) (supported : Bool) (path : String) (options : Options)
    (w : Entries ι) : Except ErrCode StorageType :=
  getPreferencesInner options (N.content w path).isSome (N.content w (dbPath path)).isSome supported

/-- Files that agree where the store is loaded from give the same choice. -/
theorem loadChoice_congr {options : Options} {w v : Entries ι}
    (h : Set.EqOn w v (N.entries (loadFiles N supported q))) :
    loadChoice N supported q options w = loadChoice N supported q options v := by
  have hmain : N.content w q = N.content v q :=
    Names.content_congr h (Names.entries_mono (by simp [mem_loadFiles_main]))
  have hdb : N.content w (dbPath q) = N.content v (dbPath q) :=
    Names.content_congr h (Names.entries_mono (by simp [mem_loadFiles_db]))
  rw [loadChoice, loadChoice, hmain, hdb]

variable [DecidableEq ι] {parse : Bytes → Option Doc} {w w' v : Entries ι} {bundle : String}
variable {openDb : List (Option Bytes) → Except ErrCode (Option Doc)}

/-- What a `GetPreferences` on `path` returns, with the store not in the cache and no faults: the
type of the store and what it shows, or a code. `openDb` is what the database library finds in the
files of the database. -/
inductive Loads (N : Names ι) (parse : Bytes → Option Doc)
    (openDb : List (Option Bytes) → Except ErrCode (Option Doc)) (supported : Bool) (path : String)
    (options : Options) (w : Entries ι) : Except ErrCode (StorageType × Option Doc) → Prop
  | refused {realPath : String} {code : ErrCode} (hpath : getRealPath path = .ok realPath)
      (hchoice : loadChoice N supported realPath options w = .error code) :
      Loads N parse openDb supported path options w (.error code)
  | xml {realPath : String} {tr : List (OsEvent Doc)} {r : Option Doc} {w' : Entries ι}
      (hpath : getRealPath path = .ok realPath)
      (hchoice : loadChoice N supported realPath options w = .ok .xml)
      (h : Exec (faultFreeAt N parse) (xmlReadFile realPath options.bundleName) w tr r w') :
      Loads N parse openDb supported path options w (.ok (.xml, r))
  | gskv {realPath : String} (hpath : getRealPath path = .ok realPath)
      (hchoice : loadChoice N supported realPath options w = .ok .gskv) :
      Loads N parse openDb supported path options w
        ((openDb ((dbFiles realPath).map (N.content w))).map (fun r => (.gskv, r)))

theorem Loads.of_error {options : Options} {code : ErrCode}
    (h : Loads N parse openDb supported q options w (.error code)) :
    loadChoice N supported q options w ≠ .ok .xml := by
  generalize hres : (Except.error code : Except ErrCode (StorageType × Option Doc)) = res at h
  cases h with
  | refused hpath hchoice | gskv hpath hchoice =>
      obtain rfl := getRealPath_ok hpath
      simp [hchoice]
  | xml => exact absurd hres (by simp)

theorem Loads.of_xml {options : Options} {r : Option Doc}
    (h : Loads N parse openDb supported q options w (.ok (.xml, r))) :
    ∃ tr w', Exec (faultFreeAt N parse) (xmlReadFile q options.bundleName) w tr r w' := by
  generalize hres : (Except.ok (StorageType.xml, r) : Except ErrCode _) = res at h
  cases h with
  | refused => exact absurd hres (by simp)
  | xml hpath hchoice hexec =>
      obtain rfl := getRealPath_ok hpath
      obtain ⟨-, rfl⟩ := Prod.mk.inj (Except.ok.inj hres)
      exact ⟨_, _, hexec⟩
  | @gskv realPath =>
      cases hopen : openDb ((dbFiles realPath).map (N.content w)) with
      | error code => rw [hopen] at hres; exact absurd hres (by simp [Except.map])
      | ok r' => rw [hopen] at hres; exact absurd hres (by simp [Except.map])

theorem Loads.of_gskv {options : Options} {r : Option Doc}
    (h : Loads N parse openDb supported q options w (.ok (.gskv, r))) :
    openDb ((dbFiles q).map (N.content w)) = .ok r := by
  generalize hres : (Except.ok (StorageType.gskv, r) : Except ErrCode _) = res at h
  cases h with
  | refused => exact absurd hres (by simp)
  | xml => exact absurd hres (by simp)
  | @gskv realPath hpath =>
      obtain rfl : realPath = q := getRealPath_ok hpath
      cases hopen : openDb ((dbFiles realPath).map (N.content w)) with
      | error code => rw [hopen] at hres; exact absurd hres (by simp [Except.map])
      | ok r' =>
          rw [hopen] at hres
          obtain ⟨-, rfl⟩ := Prod.mk.inj (Except.ok.inj hres)
          rfl

/-- `IsFileExist` tells what is there: the kernel knows no longer names than the function. -/
theorem isFileExist_ensures (p : String) (w : Entries ι) :
    (isFileExist p).Ensures (faultFreeAt N parse) Eq
      (fun r w' => r = (N.content w p).isSome ∧ w' = w) w := by
  unfold isFileExist
  split
  · next hlong =>
    have hnone : N.resolve p = none := by
      cases hi : N.resolve p with
      | none => rfl
      | some i => exact absurd (N.short hi) (by omega)
    exact ⟨by rw [Names.content_of_unresolved hnone]; rfl, rfl⟩
  · rintro _ r w₂ rfl hs
    exact hs

/-- Messages and reports show nothing. -/
theorem passive_ensures {α : Type} {p : Os Doc α} {Q : α → Entries ι → Prop}
    (hp : p.OnlyCalls OsCall.Passive) (hQ : ∀ a, Q a w) : p.Ensures (faultFreeAt N parse) Eq Q w :=
  hp.ensures faultFreeAt_passive hQ

/-- A backup that can be read and renamed is restored. -/
theorem renameFromBackupFile_restores {d : Doc} {rep : Bool}
    (hbak : (N.content w (bakPath q)).bind parse = some d) (hq : (N.resolve q).isSome) :
    (renameFromBackupFile q bundle rep).Ensures (faultFreeAt N parse) Eq
      (fun res w' => res.restored = true ∧ (N.content w' q).bind parse = some d) w := by
  have hthere : (N.content w (bakPath q)).isSome := by
    cases hc : N.content w (bakPath q) with
    | none => simp [hc] at hbak
    | some c => rfl
  refine (isFileExist_ensures (bakPath q) w).bind ?_
  rintro ex _ ⟨hex, rfl⟩
  obtain rfl : ex = true := hex.trans hthere
  rintro _ ⟨doc, e⟩ w₁ rfl ⟨hdoc, -, rfl⟩
  obtain rfl : doc = some d := hdoc.trans hbak
  rintro _ ok w₂ rfl hren
  obtain ⟨rfl, -, -, rfl⟩ | ⟨-, hfail, -⟩ := hren
  · rintro _ size w₃ rfl ⟨-, rfl⟩
    rintro _ _ w₄ rfl hrep
    obtain rfl : w₄ = N.move w₁ (bakPath q) q := hrep
    obtain ⟨i, hi⟩ := Option.isSome_iff_exists.mp hq
    refine ⟨rfl, ?_⟩
    rw [Names.move, Names.content_set hi]
    exact hbak
  · rcases hfail with hmissing | hnone
    · exact absurd hthere (by simp [hmissing])
    · exact absurd hq (by simp [hnone])

/-- Without a document in the backup, or without a place for the main file, nothing is restored. -/
theorem renameFromBackupFile_fails {rep : Bool}
    (h : (N.content w (bakPath q)).bind parse = none ∨ N.resolve q = none) :
    (renameFromBackupFile q bundle rep).Ensures (faultFreeAt N parse) Eq
      (fun res _ => res.restored = false) w := by
  refine (isFileExist_ensures (bakPath q) w).bind ?_
  rintro ex _ ⟨-, rfl⟩
  cases ex with
  | false => rfl
  | true =>
      rintro _ ⟨doc, e⟩ w₁ rfl ⟨hdoc, -, rfl⟩
      cases doc with
      | none =>
          refine Program.Ensures.bind (p := lastErrorMessage) (Q := fun _ _ => True)
            (passive_ensures lastErrorMessage_passive (fun _ => trivial)) ?_
          intro _ w₂ _
          rintro _ _ w₃ rfl -
          refine Program.Ensures.bind
            (p := reportNonCorruptError "read bak failed" q bundle e) (Q := fun _ _ => True)
            (passive_ensures (reportNonCorruptError_passive _ _ _ _) (fun _ => trivial)) ?_
          intro nc w₄ _
          cases nc with
          | false => rfl
          | true => rfl
      | some d =>
          rintro _ ok w₂ rfl hren
          obtain ⟨-, -, hq, -⟩ | ⟨rfl, -, -⟩ := hren
          · rcases h with hbak | hnone
            · exact absurd (hdoc.trans hbak) (by simp)
            · exact absurd hq (by simp [hnone])
          · rfl

/-- The recovery returns what the restored main file holds, or nothing. -/
theorem recoverFromBackup_ensures {r : Option Doc} {msg : String} {e : Nat} {rep multi : Bool}
    (hrename : (renameFromBackupFile q bundle rep).Ensures (faultFreeAt N parse) Eq
      (fun res w' => (res.restored = false ∧ r = none) ∨
        (res.restored = true ∧ (N.content w' q).bind parse = r)) w) :
    (recoverFromBackup q bundle msg e rep multi).Ensures (faultFreeAt N parse) Eq
      (fun doc _ => doc = r) w := by
  refine hrename.bind ?_
  intro res w₁ hres
  have hread : (readRestored q msg res.restored).Ensures (faultFreeAt N parse) Eq
      (fun read _ => read.1 = r) w₁ := by
    rcases hres with ⟨hno, rfl⟩ | ⟨hyes, hdoc⟩
    · rw [hno]
      rfl
    · rw [hyes]
      rintro _ ⟨doc, e⟩ w₂ rfl ⟨hread, -, rfl⟩
      obtain rfl : doc = r := hread.trans hdoc
      refine Program.Ensures.bind (p := lastErrorMessage) (Q := fun _ _ => True)
        (passive_ensures lastErrorMessage_passive (fun _ => trivial)) ?_
      intro _ w₃ _
      rfl
  refine hread.bind ?_
  intro ⟨doc, msg'⟩ w₂ hdoc
  obtain rfl : doc = r := hdoc
  cases multi with
  | true =>
      refine Program.Ensures.bind (p := reportCrossProcess "read failed" q bundle)
        (Q := fun _ _ => True) (passive_ensures (reportCrossProcess_passive _ _ _)
          (fun _ => trivial)) ?_
      intro _ w₃ _
      rfl
  | false =>
      refine Program.Ensures.bind
        (p := reportOutcome "read failed" q bundle msg' e res.isReportCorrupt res.isBakFileExist)
        (Q := fun _ _ => True)
        (passive_ensures (reportOutcome_passive _ _ _ _ _ _ _) (fun _ => trivial)) ?_
      intro _ w₃ _
      rfl

/-- A load without a main file is a recovery. -/
theorem xmlReadFile_of_missing {r : Option Doc} (hmain : N.content w q = none)
    (hrename : ∀ rep, (renameFromBackupFile q bundle rep).Ensures (faultFreeAt N parse) Eq
      (fun res w' => (res.restored = false ∧ r = none) ∨
        (res.restored = true ∧ (N.content w' q).bind parse = r)) w) :
    (xmlReadFile q bundle).Ensures (faultFreeAt N parse) Eq (fun doc _ => doc = r) w := by
  rintro _ multi w₁ rfl hlock
  obtain rfl : w₁ = w := hlock
  refine Program.Ensures.bind (p := isFileExist q) (isFileExist_ensures q w₁) ?_
  rintro ex _ ⟨hex, rfl⟩
  obtain rfl : ex = false := by rw [hex, hmain]; rfl
  exact recoverFromBackup_ensures (hrename false)

/-- A load returns the document of the main file. -/
theorem xmlReadFile_main {d : Doc} (hmain : (N.content w q).bind parse = some d) :
    (xmlReadFile q bundle).Ensures (faultFreeAt N parse) Eq (fun doc _ => doc = some d) w := by
  have hthere : (N.content w q).isSome := by
    cases hc : N.content w q with
    | none => simp [hc] at hmain
    | some c => rfl
  rintro _ multi w₁ rfl hlock
  obtain rfl : w₁ = w := hlock
  refine Program.Ensures.bind (p := isFileExist q) (isFileExist_ensures q w₁) ?_
  rintro ex _ ⟨hex, rfl⟩
  obtain rfl : ex = true := hex.trans hthere
  rintro _ ⟨doc, e⟩ w₂ rfl ⟨hdoc, -, rfl⟩
  obtain rfl : doc = some d := hdoc.trans hmain
  rfl

/-- Without a main file, a load returns the document of a backup that can be restored. -/
theorem xmlReadFile_bak {d : Doc} (hmain : N.content w q = none)
    (hbak : (N.content w (bakPath q)).bind parse = some d) (hq : (N.resolve q).isSome) :
    (xmlReadFile q bundle).Ensures (faultFreeAt N parse) Eq (fun doc _ => doc = some d) w := by
  refine xmlReadFile_of_missing hmain ?_
  intro rep
  exact (renameFromBackupFile_restores hbak hq).mono (fun _ _ h => .inr h)

/-- Without a main file, and with a backup that cannot be restored, a load returns nothing. -/
theorem xmlReadFile_none (hmain : N.content w q = none)
    (hbak : (N.content w (bakPath q)).bind parse = none ∨ N.resolve q = none) :
    (xmlReadFile q bundle).Ensures (faultFreeAt N parse) Eq (fun doc _ => doc = none) w := by
  refine xmlReadFile_of_missing hmain ?_
  intro rep
  exact (renameFromBackupFile_fails hbak).mono (fun _ _ h => .inl ⟨h, rfl⟩)

/-- Every load comes to its end. -/
theorem exists_exec_xmlReadFile_at (w : Entries ι) :
    ∃ tr r w', Exec (faultFreeAt N parse) (xmlReadFile q bundle) w tr r w' :=
  xmlReadFile_fits.exists_exec exists_faultFreeAt w

/-! ### What a load depends on -/

/-- Files that agree where the store is loaded from give the same XML document. -/
theorem exec_xmlReadFile_congr {tr : List (OsEvent Doc)} {r : Option Doc}
    (h : Set.EqOn w v (N.entries (loadFiles N supported q)))
    (hload : Exec (faultFreeAt N parse) (xmlReadFile q bundle) w tr r w') :
    ∃ tr' v', Exec (faultFreeAt N parse) (xmlReadFile q bundle) v tr' r v' := by
  cases hq : N.resolve q with
  | some i =>
      have hsub : readFiles q ⊆ loadFiles N supported q := by simp [readFiles, loadFiles, hq]
      obtain ⟨v', hv, -⟩ := exec_faultFreeAt_congr hload xmlReadFile_within
        (h.mono (Names.entries_mono hsub))
      exact ⟨tr, v', hv⟩
  | none =>
      -- the backup may differ, but it cannot be restored
      obtain rfl : r = none :=
        hload.ensures (xmlReadFile_none (Names.content_of_unresolved hq) (.inr hq))
      obtain ⟨tr', r', v', hv⟩ : ∃ tr' r' v',
          Exec (faultFreeAt N parse) (xmlReadFile q bundle) v tr' r' v' :=
        exists_exec_xmlReadFile_at v
      obtain rfl : r' = none :=
        hv.ensures (xmlReadFile_none (Names.content_of_unresolved hq) (.inr hq))
      exact ⟨tr', v', hv⟩

/-- A load depends only on the files that the store is loaded from. -/
theorem Loads.congr {options : Options} {res : Except ErrCode (StorageType × Option Doc)}
    (h : Set.EqOn w v (N.entries (loadFiles N supported q)))
    (hload : Loads N parse openDb supported q options w res) :
    Loads N parse openDb supported q options v res := by
  cases hload with
  | refused hpath hchoice =>
      obtain rfl := getRealPath_ok hpath
      exact .refused hpath (loadChoice_congr h ▸ hchoice)
  | xml hpath hchoice hexec =>
      obtain rfl := getRealPath_ok hpath
      obtain ⟨tr', v', hv⟩ := exec_xmlReadFile_congr h hexec
      exact .xml hpath (loadChoice_congr h ▸ hchoice) hv
  | @gskv realPath hpath hchoice =>
      obtain rfl : realPath = q := getRealPath_ok hpath
      obtain rfl : supported = true := (getPreferencesInner_gskv hchoice).2
      have hcontents : (dbFiles realPath).map (N.content w) =
          (dbFiles realPath).map (N.content v) := by
        refine List.map_congr_left ?_
        intro file hfile
        refine Names.content_congr h (Names.entries_mono ?_)
        simpa [loadFiles] using .inr (.inr hfile)
      rw [hcontents]
      exact .gskv hpath (loadChoice_congr h ▸ hchoice)

end Loads

/-! ### What `DeletePreferences` leaves -/

section Deletion

variable {N : Names ι} {w w₁ w' : Entries ι} {files files' : List String} {p bundle : String}

/-- The files under these names are gone, and no other file is new. -/
structure Removed (N : Names ι) (files : List String) (w w' : Entries ι) : Prop where
  gone : ∀ i ∈ N.entries files, w' i = none
  none_of_none : ∀ i, w i = none → w' i = none

theorem Removed.refl (w : Entries ι) : Removed N [] w w := by
  refine ⟨?_, fun _ h => h⟩
  intro i ⟨p, hp, _⟩
  exact absurd hp List.not_mem_nil

theorem Removed.trans (h : Removed N files w w₁) (h' : Removed N files' w₁ w') :
    Removed N (files ++ files') w w' := by
  refine ⟨?_, fun i hi => h'.none_of_none i (h.none_of_none i hi)⟩
  intro i ⟨p, hp, hi⟩
  rcases List.mem_append.mp hp with hp | hp
  · exact h'.none_of_none i (h.gone i ⟨p, hp, hi⟩)
  · exact h'.gone i ⟨p, hp, hi⟩

variable [DecidableEq ι] {parse : Bytes → Option Doc}

end Deletion

/-! ### Isolation -/

section Isolation

variable [DecidableEq ι] {N : Names ι} {parse : Bytes → Option Doc} {p q : String}
variable {supported : Bool} {buf : Bytes} {d : Doc} {e : ι}

/-- No run on the store `p` changes what is loaded from the store `q`, whatever the database
library makes of its files, where the names of `q` are no directories. -/
def Isolated (K : Kernel N parse) (supported : Bool) (p q : String) : Prop :=
  ∀ (openDb : List (Option Bytes) → Except ErrCode (Option Doc)) (w w' : Entries ι)
    (evs : List StoreEvent), N.NoDirectory w (storeFiles q) → Run (StoreStep K p) w evs w' →
    ∀ (options : Options) (res : Except ErrCode (StorageType × Option Doc)),
      Loads N parse openDb supported q options w res ↔
        Loads N parse openDb supported q options w' res

/-- The only file there is. -/
def onlyFile (e : ι) (buf : Bytes) : Entries ι := Function.update (fun _ => none) e (some buf)

theorem content_onlyFile {file : String} (h : N.resolve file = some e) :
    N.content (onlyFile e buf) file = some buf := by
  rw [Names.content_of_resolve h]
  exact Function.update_self _ _ _

theorem content_onlyFile_ne {file : String} (h : N.resolve file ≠ some e) :
    N.content (onlyFile e buf) file = none := by
  cases hi : N.resolve file with
  | none => exact Names.content_of_unresolved hi
  | some i =>
      have hne : i ≠ e := by
        rintro rfl
        exact h hi
      rw [Names.content_of_resolve hi]
      exact Function.update_of_ne hne _ _

theorem onlyFile_ne {k : ι} (h : k ≠ e) : onlyFile e buf k = none := Function.update_of_ne h _ _

/-- A file of a store is below none of its names. -/
theorem noDirectory_onlyFile (hp : getRealPath p = .ok p) (he : e ∈ N.entries (storeFiles p)) :
    N.NoDirectory (onlyFile e buf) (storeFiles p) := by
  intro k hk
  refine onlyFile_ne ?_
  rintro rfl
  exact Set.disjoint_left.mp (storeFiles_flat (getRealPath_last hp)) he hk

section Moved

variable {b : String} {i j : ι} {w : Entries ι}

/-- If the path of a store is that of a directory, a save renames the directory to the backup. -/
theorem crash_saveXmlFile_directory (K : Kernel N parse) (hi : N.resolve p = some i)
    (hj : N.resolve (bakPath p) = some j) (hlock : N.NoDirectory w [lockPath p])
    (hmoves : N.MovesTo (N.touch w (lockPath p)) i j) :
    Crash K.sem K.mid (saveXmlFile p "" []) w (N.moveTree (N.touch w (lockPath p)) i j) := by
  have hlocked : K.sem (.lock p true) w false (N.touch w (lockPath p)) :=
    K.works _ _ _ _ (.inl ⟨hlock.mono (by simp [OsCall.names, OsCall.reads, OsCall.writes]), rfl⟩)
  have hstat : K.sem (.stat p) (N.touch w (lockPath p)) true (N.touch w (lockPath p)) :=
    K.works _ _ _ _ (.inr ⟨⟨i, hi, hmoves.source⟩, rfl, rfl⟩)
  have hrename : K.sem (.rename p (bakPath p)) (N.touch w (lockPath p)) true
      (N.moveTree (N.touch w (lockPath p)) i j) :=
    K.works _ _ _ _ (.inr (.inl ⟨i, j, hi, hj, hmoves, rfl, rfl⟩))
  rw [saveXmlFile]
  simp only [isFileExist_of_resolve hi]
  exact .after hlocked (.after hstat (.after hrename .here))

/-- And a load renames it to the broken file, because no document can be read from it. -/
theorem crash_xmlReadFile_directory (K : Kernel N parse) (hi : N.resolve p = some i)
    (hj : N.resolve (brokenPath p) = some j) (hmoves : N.MovesTo w i j) :
    Crash K.sem K.mid (xmlReadFile p "") w (N.moveTree w i j) := by
  have hlocked : K.sem (.lock p false) w false w :=
    K.works _ _ _ _ (.inl ⟨Names.noDirectory_nil, rfl⟩)
  have hstat : K.sem (.stat p) w true w :=
    K.works _ _ _ _ (.inr ⟨⟨i, hi, hmoves.source⟩, rfl, rfl⟩)
  have hread : K.sem (.xmlReadFile p) w (none, 21) w :=
    K.works _ _ _ _ (.inr ⟨⟨i, hi, hmoves.source⟩, rfl, rfl, rfl⟩)
  have hmessage : K.sem .xmlGetLastError w (none : Option String) w :=
    K.works _ _ _ _ (.inl ⟨Names.noDirectory_nil, rfl⟩)
  have hrename : K.sem (.rename p (brokenPath p)) w true (N.moveTree w i j) :=
    K.works _ _ _ _ (.inr (.inl ⟨i, j, hi, hj, hmoves, rfl, rfl⟩))
  rw [xmlReadFile]
  simp only [isFileExist_of_resolve hi]
  exact .after hlocked (.after hstat (.after hread (.after hmessage (.after hrename .here))))

/-- So a directory with all files in it can be renamed to the backup or the broken file. -/
theorem run_moveTree (K : Kernel N parse) (hp : getRealPath p = .ok p)
    (hb : b = bakPath p ∨ b = brokenPath p) (hi : N.resolve p = some i) (hj : N.resolve b = some j)
    (hsome : ∃ k ∈ N.below i, (w k).isSome) (honly : ∀ k ∉ N.below i, w k = none) :
    ∃ evs w', Run (StoreStep K p) w evs w' ∧
      Set.EqOn w' (N.moveTree w i j) (N.entries (storeFiles p))ᶜ := by
  have hlast := getRealPath_last hp
  have hi' : N.resolve (p ++ "") = some i := by rw [String.append_empty, hi]
  have himem : i ∈ N.entries (storeFiles p) := ⟨p, by simp [storeFiles, xmlFiles], hi⟩
  have hlock : N.entries [lockPath p] ⊆ N.entries (storeFiles p) :=
    Names.entries_mono (by simp [storeFiles, xmlFiles])
  have hilock := notMem_entries_lock hp (by decide) (by decide) hi'
  have hmoves {t : String} (hb : p ++ t ∈ storeFiles p) (ht : '/' ∉ t.toList) (hne : "" ≠ t)
      (hnl : t ≠ strLock) (hj : N.resolve (p ++ t) = some j) {w₁ : Entries ι}
      (h : Set.EqOn w₁ w (N.entries [lockPath p])ᶜ) : N.MovesTo w₁ i j :=
    movesTo_of_below hp himem ⟨_, hb, hj⟩ (N.sibling_ne hlast (by decide) ht hi' hj hne) hilock
      (notMem_entries_lock hp ht hnl hj) hsome honly h
  rcases hb with rfl | rfl
  · have hmoves := hmoves (by simp [storeFiles, xmlFiles, makeFilePath]) (by decide) (by decide)
      (by decide) hj (N.touch_eqOn w (lockPath p))
    have hnodir : N.NoDirectory w [lockPath p] := by
      rintro k ⟨l, hl, hk⟩
      refine honly k (storeFiles_apart hlast (hlock hl) himem ?_ hk)
      rintro rfl
      exact hilock hl
    have hcrash := crash_saveXmlFile_directory K hi hj hnodir hmoves
    have hkilled : StoreStep K p w (.killed (.save "" [])) _ :=
      .killed (crash_bind_iff.mpr (.inl hcrash))
    refine ⟨_, _, .cons hkilled .nil, ?_⟩
    -- the lock file is all that is new
    have htouch {k : ι} (hk : k ∉ N.entries (storeFiles p)) : N.touch w (lockPath p) k = w k :=
      N.touch_eqOn w (lockPath p) (fun hl => hk (hlock hl))
    intro k hk
    by_cases hki : k ∈ N.below i
    · rw [Names.moveTree_of_mem hki, Names.moveTree_of_mem hki]
    · by_cases hkj : k ∈ N.below j
      · have hcarried : N.carry j i k ∉ N.entries (storeFiles p) := fun hmem =>
          N.below_irrefl i ((storeFiles_sibling hlast hmem himem).mp (N.carry_mem hkj))
        rw [Names.moveTree_of_mem_target hki hkj, Names.moveTree_of_mem_target hki hkj,
          htouch hcarried]
      · rw [Names.moveTree_of_notMem hki hkj, Names.moveTree_of_notMem hki hkj, htouch hk]
  · have hmoves := hmoves (by simp [storeFiles, xmlFiles, makeFilePath]) (by decide) (by decide)
      (by decide) hj (Set.eqOn_refl w _)
    have hcrash := crash_xmlReadFile_directory K hi hj hmoves
    have hkilled : StoreStep K p w (.killed (.load "")) _ :=
      .killed (crash_bind_iff.mpr (.inl hcrash))
    exact ⟨_, _, .cons hkilled .nil, Set.eqOn_refl _ _⟩

end Moved

/-- Without files, an XML store shows nothing. -/
theorem Loads.xml_no_files {openDb : List (Option Bytes) → Except ErrCode (Option Doc)}
    {options : Options} {r : Option Doc}
    (h : Loads N parse openDb supported q options (fun _ => none) (.ok (.xml, r))) : r = none := by
  obtain ⟨tr, w', hexec⟩ := h.of_xml
  have hnone (file : String) : N.content (fun _ => none) file = none :=
    Option.bind_eq_none_iff.mpr (fun _ _ => rfl)
  exact hexec.ensures (xmlReadFile_none (hnone q) (.inl (by rw [hnone]; rfl)))

/-- A library that shows `d` if there is any file of the database. -/
def showsAny (d : Doc) (contents : List (Option Bytes)) : Except ErrCode (Option Doc) :=
  .ok (if contents.any Option.isSome then some d else none)

/-- Each file from which `q` is loaded is the one that matters for some options: if it is the only
file, something is loaded that is not loaded without it. -/
theorem exists_loads_onlyFile (hq : getRealPath q = .ok q) (hparse : parse buf = some d)
    (hload : e ∈ N.entries (loadFiles N supported q)) :
    ∃ openDb options res, Loads N parse openDb supported q options (onlyFile e buf) res ∧
      ¬ Loads N parse openDb supported q options (fun _ => none) res := by
  have hdoc {file : String} (h : N.resolve file = some e) :
      (N.content (onlyFile e buf) file).bind parse = some d := by
    rw [content_onlyFile h]
    exact hparse
  have hloads (options : Options) (hchoice : loadChoice N supported q options (onlyFile e buf) =
      .ok .xml) (hensures : (xmlReadFile q options.bundleName).Ensures (faultFreeAt N parse) Eq
        (fun doc _ => doc = some d) (onlyFile e buf)) :
      ∃ openDb options res, Loads N parse openDb supported q options (onlyFile e buf) res ∧
        ¬ Loads N parse openDb supported q options (fun _ => none) res := by
    obtain ⟨tr, r, w', hexec⟩ : ∃ tr r w', Exec (faultFreeAt N parse)
        (xmlReadFile q options.bundleName) (onlyFile e buf) tr r w' := exists_exec_xmlReadFile_at _
    obtain rfl : r = some d := hexec.ensures hensures
    refine ⟨fun _ => .ok none, options, _, .xml hq hchoice hexec, ?_⟩
    intro hafter
    exact absurd hafter.xml_no_files (by simp)
  by_cases hmain : N.resolve q = some e
  · -- the main file: a bundle on the trust list opens it as an XML store
    refine hloads ⟨"uttest", false⟩ ?_ (xmlReadFile_main (hdoc hmain))
    rw [loadChoice, content_onlyFile hmain]
    rfl
  have hmissing : N.content (onlyFile e buf) q = none := content_onlyFile_ne hmain
  by_cases hdb : N.resolve (dbPath q) = some e
  · -- the database file: it makes `GetPreferences` refuse to open an XML store
    have hrefused : loadChoice N supported q ⟨"", false⟩ (onlyFile e buf) =
        .error .notSupported := by
      rw [loadChoice, content_onlyFile hdb]
      rfl
    refine ⟨fun _ => .ok none, _, _, .refused hq hrefused, ?_⟩
    intro hafter
    refine hafter.of_error ?_
    have hnone : N.content (fun _ => none) (dbPath q) = none :=
      Option.bind_eq_none_iff.mpr (fun _ _ => rfl)
    rw [loadChoice, hnone]
    rfl
  obtain ⟨file, hfile, he'⟩ := hload
  rcases List.mem_append.mp hfile with hxml | hfamily
  · rcases List.mem_cons.mp hxml with rfl | hbak
    · exact absurd he' hmain
    · split at hbak
      · next hname =>
        -- the backup: it is restored when there is no main file
        obtain rfl := List.mem_singleton.mp hbak
        refine hloads ⟨"", false⟩ ?_ (xmlReadFile_bak hmissing (hdoc he') hname)
        rw [loadChoice, content_onlyFile_ne hdb]
        rfl
      · exact absurd hbak List.not_mem_nil
  · split at hfamily
    · next hsup =>
      -- another file of the database: the library may show what is in it
      have hchoice : loadChoice N supported q ⟨"", true⟩ (onlyFile e buf) = .ok .gskv := by
        rw [loadChoice, hmissing, hsup]
        rfl
      have hbefore : Loads N parse (showsAny d) supported q ⟨"", true⟩ (onlyFile e buf)
          (.ok (.gskv, some d)) := by
        have hany : ((dbFiles q).map (N.content (onlyFile e buf))).any Option.isSome = true := by
          refine List.any_eq_true.mpr ⟨_, List.mem_map_of_mem hfamily, ?_⟩
          rw [content_onlyFile he']
          rfl
        have hgskv : Loads N parse (showsAny d) supported q ⟨"", true⟩ (onlyFile e buf)
            ((showsAny d ((dbFiles q).map (N.content (onlyFile e buf)))).map
              (fun r => (.gskv, r))) :=
          .gskv hq hchoice
        rwa [showsAny, if_pos hany] at hgskv
      refine ⟨_, _, _, hbefore, ?_⟩
      intro hafter
      have hshows := hafter.of_gskv
      have hnone : ((dbFiles q).map (N.content (fun _ => none))).any Option.isSome = false := by
        refine List.any_eq_false.mpr ?_
        intro c hc
        obtain ⟨file, -, rfl⟩ := List.mem_map.mp hc
        rw [show N.content (fun _ => none) file = none from
          Option.bind_eq_none_iff.mpr (fun _ _ => rfl)]
        simp
      rw [showsAny, if_neg (by simp [hnone])] at hshows
      exact absurd (Except.ok.inj hshows) (by simp)
    · rw [List.mem_singleton.mp hfamily] at he'
      exact absurd he' hdb

/-- A run on `p` that makes such a file of `q` appear or vanish. -/
theorem not_isolated_of_run {K : Kernel N parse} (hq : getRealPath q = .ok q)
    (hparse : parse buf = some d) (hload : e ∈ N.entries (loadFiles N supported q))
    {w w' : Entries ι} {evs : List StoreEvent} (hdir : N.NoDirectory w (storeFiles q))
    (hrun : Run (StoreStep K p) w evs w')
    (h : (Set.EqOn w (onlyFile e buf) (N.entries (loadFiles N supported q)) ∧
        Set.EqOn w' (fun _ => none) (N.entries (loadFiles N supported q))) ∨
      (Set.EqOn w (fun _ => none) (N.entries (loadFiles N supported q)) ∧
        Set.EqOn w' (onlyFile e buf) (N.entries (loadFiles N supported q)))) :
    ¬ Isolated K supported p q := by
  intro hiso
  obtain ⟨openDb, options, res, hwith, hwithout⟩ := exists_loads_onlyFile hq hparse hload
  have hsame := hiso openDb w w' evs hdir hrun options res
  rcases h with ⟨hbefore, hafter⟩ | ⟨hbefore, hafter⟩
  · exact hwithout ((hsame.mp (hwith.congr hbefore.symm)).congr hafter)
  · exact hwithout ((hsame.mpr (hwith.congr hafter.symm)).congr hbefore)

/-- If `p` and another name of its store may be a directory's, and `q` is loaded from a file below
one of the two, a save or a load of `p` can take that file away or put it there. -/
theorem not_isolated_of_below (K : Kernel N parse) (hp : getRealPath p = .ok p)
    (hq : getRealPath q = .ok q) (hparse : parse buf = some d) {b : String} {i j : ι}
    (hb : b = bakPath p ∨ b = brokenPath p) (hi : N.resolve p = some i) (hj : N.resolve b = some j)
    (hapart : Disjoint (N.entries (storeFiles p)) (N.entries (loadFiles N supported q)))
    (he : e ∈ N.below i ∨ e ∈ N.below j) (hload : e ∈ N.entries (loadFiles N supported q)) :
    ¬ Isolated K supported p q := by
  have hlastp := getRealPath_last hp
  have hlastq := getRealPath_last hq
  have hsub : N.entries (loadFiles N supported q) ⊆ N.entries (storeFiles q) :=
    Names.entries_mono (loadFiles_subset N supported q)
  have himem : i ∈ N.entries (storeFiles p) := ⟨p, by simp [storeFiles, xmlFiles], hi⟩
  have hjmem : j ∈ N.entries (storeFiles p) := by
    refine ⟨b, ?_, hj⟩
    rcases hb with rfl | rfl <;> simp [storeFiles, xmlFiles]
  have hij : j ≠ i := by
    have hi' : N.resolve (p ++ "") = some i := by rw [String.append_empty, hi]
    rcases hb with rfl | rfl
    · exact N.sibling_ne hlastp (by decide) (by decide) hj hi' (by decide)
    · exact N.sibling_ne hlastp (by decide) (by decide) hj hi' (by decide)
  -- all files of `q` are below the same entries
  have hsame {k f : ι} (hk : k ∈ N.entries (loadFiles N supported q)) (hef : e ∈ N.below f) :
      k ∈ N.below f := (storeFiles_sibling hlastq (hsub hload) (hsub hk)).mp hef
  have hfree {k : ι} (hk : k ∈ N.entries (loadFiles N supported q)) :
      k ∈ (N.entries (storeFiles p))ᶜ := Set.disjoint_right.mp hapart hk
  rcases he with hei | hej
  · -- the file goes with the directory
    obtain ⟨evs, w', hrun, hw'⟩ := run_moveTree K hp hb hi hj (w := onlyFile e buf)
      ⟨e, hei, by rw [onlyFile, Function.update_self]; rfl⟩
      (fun k hk => onlyFile_ne (by rintro rfl; exact hk hei))
    refine not_isolated_of_run hq hparse hload (noDirectory_onlyFile hq (hsub hload)) hrun
      (.inl ⟨Set.eqOn_refl _ _, ?_⟩)
    intro k hk
    rw [hw' (hfree hk), Names.moveTree_of_mem (hsame hk hei)]
  · -- the file comes with the directory
    have hei : N.carry j i e ∈ N.below i := N.carry_mem hej
    obtain ⟨evs, w', hrun, hw'⟩ := run_moveTree K hp hb hi hj (w := onlyFile (N.carry j i e) buf)
      ⟨_, hei, by rw [onlyFile, Function.update_self]; rfl⟩
      (fun k hk => onlyFile_ne (by rintro rfl; exact hk hei))
    have hnot {k : ι} (hk : k ∈ N.below j) : k ∉ N.below i :=
      storeFiles_apart hlastp hjmem himem hij hk
    refine not_isolated_of_run hq hparse hload ?_ hrun (.inr ⟨?_, ?_⟩)
    · rintro k ⟨f, hf, hk⟩
      refine onlyFile_ne ?_
      rintro rfl
      have hfj : f ∈ N.below j := (storeFiles_sibling hlastq (hsub hload) hf).mp hej
      exact hnot (N.below_trans hk hfj) hei
    · intro k hk
      refine onlyFile_ne ?_
      rintro rfl
      exact hnot (hsame hk hej) hei
    · intro k hk
      have hkj := hsame hk hej
      rw [hw' (hfree hk), Names.moveTree_of_mem_target (hnot hkj) hkj]
      by_cases hke : k = e
      · rw [hke, onlyFile, onlyFile, Function.update_self, Function.update_self]
      · rw [onlyFile_ne hke, onlyFile_ne]
        intro hcarry
        exact hke (by rw [← N.carry_carry hkj (j := i), hcarry, N.carry_carry hej])

end Isolation

/-! ### Plain names -/

namespace Plain

/-- A name that is not too long stands for itself. -/
def resolve (p : String) : Option String := if p.utf8ByteSize ≤ pathMax then some p else none

/-- The names below a name, as a directory. -/
def below (i : String) : Set String := {k | i.toList ++ ['/'] <+: k.toList}

/-- The name with the second beginning in place of the first. -/
def carry (i j k : String) : String := String.ofList (j.toList ++ k.toList.drop i.length)

variable {i j k p : String}

theorem of_resolve (h : resolve p = some i) : i = p ∧ p.utf8ByteSize ≤ pathMax := by
  rw [resolve] at h
  split at h
  · next hshort => exact ⟨(Option.some.inj h).symm, hshort⟩
  · exact absurd h (by simp)

theorem carry_of_mem (h : k ∈ below i) :
    ∃ u, k.toList = i.toList ++ ['/'] ++ u ∧ (carry i j k).toList = j.toList ++ ['/'] ++ u := by
  obtain ⟨u, hu⟩ := h
  refine ⟨u, hu.symm, ?_⟩
  rw [carry, String.toList_ofList, ← hu, ← String.length_toList, List.append_assoc,
    List.drop_left, List.append_assoc]

theorem eq_or_mem_below (h : i.toList ++ ['/'] <+: j.toList ++ ['/']) : i = j ∨ j ∈ below i := by
  rcases List.prefix_concat_iff.mp h with heq | hlt
  · exact .inl (String.toList_inj.mp (List.append_inj_left' heq rfl))
  · exact .inr hlt

/-- Where a name lies does not depend on the end of its last component. -/
theorem mem_below_append {s : String} (hs : '/' ∉ s.toList) : p ++ s ∈ below k ↔ p ∈ below k := by
  show k.toList ++ ['/'] <+: (p ++ s).toList ↔ k.toList ++ ['/'] <+: p.toList
  rw [String.toList_append]
  constructor
  · rintro ⟨t, ht⟩
    rcases List.append_eq_append_iff.mp ht with ⟨u, hp, -⟩ | ⟨u, hk, hs'⟩
    · exact ⟨u, hp.symm⟩
    · -- what is longer than `p` would end in a character of the suffix
      cases u using List.reverseRecOn with
      | nil => exact ⟨[], by rw [hk, List.append_nil, List.append_nil]⟩
      | append_singleton u c =>
          rw [← List.append_assoc] at hk
          obtain ⟨-, hc⟩ := List.append_inj' hk rfl
          refine absurd ?_ hs
          rw [hs', ← hc]
          simp
  · intro h
    exact h.trans (List.prefix_append p.toList s.toList)

end Plain

/-- Names that stand for themselves, as where nothing is a link. -/
def Names.plain : Names String where
  resolve := Plain.resolve
  short h := (Plain.of_resolve h).2
  below := Plain.below
  below_irrefl := by
    intro i h
    have hlen := List.IsPrefix.length_le h
    simp at hlen
  below_trans := by
    intro i j k hij hjk
    exact List.IsPrefix.trans hjk ((List.prefix_append _ _).trans hij)
  below_tree := by
    intro i j k hi hj
    rcases List.prefix_or_prefix_of_prefix hi hj with h | h
    · exact (Plain.eq_or_mem_below h).imp id .inr
    · exact (Plain.eq_or_mem_below h).imp Eq.symm .inl
  carry := Plain.carry
  carry_mem := by
    intro i j k h
    obtain ⟨u, -, hu⟩ := Plain.carry_of_mem (j := j) h
    exact ⟨u, hu.symm⟩
  carry_carry := by
    intro i j k h
    obtain ⟨u, hk, hu⟩ := Plain.carry_of_mem (j := j) h
    have hmem : Plain.carry i j k ∈ Plain.below j := ⟨u, hu.symm⟩
    obtain ⟨v, hv, hback⟩ := Plain.carry_of_mem (j := i) hmem
    obtain rfl : u = v := List.append_cancel_left (hu.symm.trans hv)
    exact String.toList_inj.mp (hback.trans hk.symm)
  sibling := by
    intro p s t i j _ hs ht hi hj k
    rw [(Plain.of_resolve hi).1, (Plain.of_resolve hj).1, Plain.mem_below_append hs,
      Plain.mem_below_append ht]
  sibling_ne := by
    intro p s t i j _ _ _ hi hj hne heq
    rw [(Plain.of_resolve hi).1, (Plain.of_resolve hj).1] at heq
    exact hne (String.append_right_inj p |>.mp heq)

theorem Names.mem_entries_plain {names : List String} {p : String}
    (h : p ∈ Names.plain.entries names) : p ∈ names := by
  obtain ⟨file, hfile, hi⟩ := h
  rwa [(Plain.of_resolve hi).1]

/-- So is `/data/x/y`, although `/data/x` can be renamed as a directory. -/
theorem not_isolated_directory :
    ¬ Isolated (Kernel.faultFree Names.plain parseTagged) true "/data/x" "/data/x/y" := by
  have hparse : parseTagged [1, 62] = some 1 := rfl
  refine not_isolated_of_below (e := "/data/x/y") _ rfl rfl hparse (.inr rfl) rfl rfl ?_
    (.inl ⟨['y'], rfl⟩) ⟨"/data/x/y", by decide, rfl⟩
  rw [Set.disjoint_left]
  intro k hx hy
  have hfiles : ∀ k ∈ loadFiles Names.plain true "/data/x/y", k ∉ storeFiles "/data/x" := by decide
  exact hfiles k (Names.mem_entries_plain hy) (Names.mem_entries_plain hx)

end NativePreferences
