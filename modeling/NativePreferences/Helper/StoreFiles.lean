import NativePreferences.Entries
import NativePreferences.Helper.Registry

/-!
# NativePreferences.Helper.StoreFiles

**The files of a store**, and the functions that touch them. A store owns the files whose names
are its path with a suffix (`storeFiles`). `DeletePreferences` removes them all; `SaveXmlFile`,
`XmlReadFile` and it name no others for writing, and they rename the main file, the backup and the
broken file only (`saveXmlFile_of`, `xmlReadFile_within`, `deletePreferences_fitsOf`). What
`XmlReadFile` looks at are two of them.
-/

namespace NativePreferences

open Lib

variable {ι Doc : Type}

/-! ### The files of a store -/

/-- `PreferencesUtils::STR_OBJECT_FLAG`. -/
def strObjectFlag : String := ".objectFlag"

/-- The flag file of the store on `path`. -/
abbrev objFlagPath (path : String) : String := makeFilePath path strObjectFlag

/-- The database file of the store on `path`. -/
abbrev dbPath (path : String) : String := makeFilePath path ".db"

/-- `DB_SUFFIX`. -/
def dbSuffix : List String := [".ctrl", ".ctrl.dwr", ".redo", ".undo", ".safe", ".map"]

/-- The files of the database of a store. -/
def dbFiles (path : String) : List String :=
  dbPath path :: dbSuffix.map (makeFilePath (dbPath path))

/-- The files of a store that do not belong to its database. -/
def xmlFiles (path : String) : List String :=
  [path, bakPath path, brokenPath path, lockPath path, objFlagPath path]

/-- All files of a store. -/
def storeFiles (path : String) : List String := xmlFiles path ++ dbFiles path

/-- The renames of a store. -/
def storeRenames (path : String) : List (String × String) :=
  [(path, bakPath path), (bakPath path, path), (path, brokenPath path)]

/-- The files from which a store is loaded. The backup counts if it can be restored. -/
def loadFiles (N : Names ι) (supported : Bool) (path : String) : List String :=
  path :: (if (N.resolve path).isSome then [bakPath path] else []) ++
    (if supported then dbFiles path else [dbPath path])

/-- The files of a store have the names of its path with a suffix. -/
theorem mem_storeFiles_suffix {path file : String} (h : file ∈ storeFiles path) :
    ∃ s : String, '/' ∉ s.toList ∧ file = path ++ s := by
  have hsuffix (s : String) (hs : '/' ∉ s.toList) : ∃ t : String, '/' ∉ t.toList ∧
      path ++ s = path ++ t := ⟨s, hs, rfl⟩
  have hdb (s : String) (hs : '/' ∉ (".db" ++ s).toList) : ∃ t : String, '/' ∉ t.toList ∧
      path ++ ".db" ++ s = path ++ t := ⟨".db" ++ s, hs, String.append_assoc⟩
  simp only [storeFiles, xmlFiles, dbFiles, dbSuffix, List.map_cons, List.map_nil,
    List.cons_append, List.nil_append, List.mem_cons, List.not_mem_nil, or_false] at h
  rcases h with rfl | rfl | rfl | rfl | rfl | rfl | rfl | rfl | rfl | rfl | rfl | rfl
  · exact ⟨"", by decide, String.append_empty.symm⟩
  · exact hsuffix _ (by decide)
  · exact hsuffix _ (by decide)
  · exact hsuffix _ (by decide)
  · exact hsuffix _ (by decide)
  · exact hsuffix _ (by decide)
  all_goals exact hdb _ (by decide)

theorem loadFiles_subset (N : Names ι) (supported : Bool) (path : String) :
    loadFiles N supported path ⊆ storeFiles path := by
  intro file hfile
  simp only [loadFiles, List.cons_append, List.mem_cons, List.mem_append] at hfile
  rcases hfile with rfl | hbak | hdb
  · simp [storeFiles, xmlFiles]
  · split at hbak
    · simp [storeFiles, xmlFiles, List.mem_singleton.mp hbak]
    · exact absurd hbak List.not_mem_nil
  · split at hdb
    · exact List.mem_append_right _ hdb
    · simp [storeFiles, dbFiles, List.mem_singleton.mp hdb]

/-! ### Stores and directories -/

section Directories

theorem getRealPath_last {path realPath : String} (h : getRealPath path = .ok realPath) :
    path.toList.getLast? ≠ some '/' := by
  intro hlast
  unfold getRealPath at h
  rw [if_pos hlast] at h
  split_ifs at h

variable {N : Names ι} {path s : String} {w w₁ : Entries ι} {i j k : ι}

/-- The files of a store lie in one directory. -/
theorem storeFiles_sibling (hpath : path.toList.getLast? ≠ some '/')
    (hi : i ∈ N.entries (storeFiles path)) (hj : j ∈ N.entries (storeFiles path)) :
    i ∈ N.below k ↔ j ∈ N.below k := by
  obtain ⟨file, hfile, hi⟩ := hi
  obtain ⟨file', hfile', hj⟩ := hj
  obtain ⟨s, hs, rfl⟩ := mem_storeFiles_suffix hfile
  obtain ⟨t, ht, rfl⟩ := mem_storeFiles_suffix hfile'
  exact N.sibling hpath hs ht hi hj k

/-- None of them is below another. -/
theorem storeFiles_flat (hpath : path.toList.getLast? ≠ some '/') :
    Disjoint (N.entries (storeFiles path)) (N.under (storeFiles path)) := by
  rw [Set.disjoint_left]
  rintro i hi ⟨j, hj, hij⟩
  exact N.below_irrefl j ((storeFiles_sibling hpath hi hj).mp hij)

/-- What is below one of them is not below another. -/
theorem storeFiles_apart (hpath : path.toList.getLast? ≠ some '/')
    (hi : i ∈ N.entries (storeFiles path)) (hj : j ∈ N.entries (storeFiles path)) (hne : i ≠ j)
    (hk : k ∈ N.below i) : k ∉ N.below j := by
  intro hk'
  rcases N.below_tree hk hk' with heq | hij | hji
  · exact hne heq
  · exact N.below_irrefl j ((storeFiles_sibling hpath hi hj).mp hij)
  · exact N.below_irrefl i ((storeFiles_sibling hpath hi hj).mpr hji)

/-- The lock file is another entry. -/
theorem notMem_entries_lock (hp : getRealPath path = .ok path) (hs : '/' ∉ s.toList)
    (hne : s ≠ strLock) (hi : N.resolve (path ++ s) = some i) : i ∉ N.entries [lockPath path] := by
  rintro ⟨file, hfile, hl⟩
  rw [List.mem_singleton.mp hfile] at hl
  exact N.sibling_ne (getRealPath_last hp) hs (by decide) hi hl hne rfl

/-- A directory `i` can be renamed to another name of the store, if all files are below it but
perhaps the lock file. -/
theorem movesTo_of_below (hp : getRealPath path = .ok path) (hi : i ∈ N.entries (storeFiles path))
    (hj : j ∈ N.entries (storeFiles path)) (hij : i ≠ j) (hilock : i ∉ N.entries [lockPath path])
    (hjlock : j ∉ N.entries [lockPath path]) (hsome : ∃ k ∈ N.below i, (w k).isSome)
    (honly : ∀ k ∉ N.below i, w k = none) (h : Set.EqOn w₁ w (N.entries [lockPath path])ᶜ) :
    N.MovesTo w₁ i j := by
  have hlast := getRealPath_last hp
  have hsub : N.entries [lockPath path] ⊆ N.entries (storeFiles path) :=
    Names.entries_mono (by simp [storeFiles, xmlFiles])
  have hbelow {k f : ι} (hf : f ∈ N.entries (storeFiles path)) (hk : k ∈ N.below f) : w₁ k = w k :=
    h fun hl => N.below_irrefl f ((storeFiles_sibling hlast (hsub hl) hf).mp hk)
  have hji : j ∉ N.below i := by
    intro hmem
    exact N.below_irrefl i ((storeFiles_sibling hlast hi hj).mpr hmem)
  obtain ⟨k, hk, hfile⟩ := hsome
  refine ⟨⟨?_, k, hk, by rwa [hbelow hi hk]⟩, ?_, ?_, hji⟩
  · rw [h hilock, honly i (N.below_irrefl i)]
  · rw [h hjlock, honly j hji]
  · intro k hk
    rw [hbelow hj hk, honly k (storeFiles_apart hlast hj hi hij.symm hk)]

theorem isFileExist_of_resolve (hi : N.resolve path = some i) :
    (isFileExist path : Os Doc Bool) = stat path := by
  have hshort : ¬ pathMax < path.utf8ByteSize := Nat.not_lt.mpr (N.short hi)
  rw [isFileExist, if_neg hshort]

end Directories

/-! ### `DeletePreferences` -/

/-- Calls of `std::remove` whose results are not looked at. -/
def removeAll : List String → Os Doc Unit
  | [] => return ()
  | file :: files => do
      let _ ← remove file
      removeAll files

/-- The steps of `RemoveEnhanceDbFileIfNeed`: each file is removed if it is there, up to one that
cannot be. -/
def removeIfThere : List String → Os Doc ErrCode
  | [] => return .ok
  | file :: files => do
      if ← stat file then
        if ← remove file then
          removeIfThere files
        else
          return .deleteFileFail
      else
        removeIfThere files

/-- `RemoveEnhanceDbFileIfNeed`. -/
def removeEnhanceDbFileIfNeed (filePath : String) : Os Doc ErrCode :=
  removeIfThere (dbFiles filePath)

/-- Whether one of the files is there, with `||` between the queries. -/
def anyFileExists : List String → Os Doc Bool
  | [] => return false
  | file :: files => do
      if ← stat file then
        return true
      else
        anyFileExists files

/-- The removals of `DeletePreferences`. -/
def removeFiles (filePath : String) : Os Doc ErrCode := do
  removeAll (xmlFiles filePath)
  if (← removeEnhanceDbFileIfNeed filePath) ≠ .ok then
    return .deleteFileFail
  else if ← anyFileExists [filePath, bakPath filePath, brokenPath filePath, lockPath filePath] then
    return .deleteFileFail
  else
    return .ok

/-- `DeletePreferences`, where `DeletePreferencesCache` returns `closeCode`. -/
def deletePreferences (path bundleName : String) (closeCode : ErrCode) :
    Os Doc (Except PathError ErrCode) :=
  match getRealPath path with
  | .error e => return .error e
  | .ok realPath => do
      if closeCode ≠ .ok then
        return .ok closeCode
      else
        let isMultiProcessing ← fileLock realPath true
        if isMultiProcessing then
          reportCrossProcess "DeletePreferences error" realPath bundleName
          return .ok (← removeFiles realPath)
        else
          return .ok (← removeFiles realPath)

/-! ### Which files the functions touch -/

section Within

variable {path bundle : String}

/-- The files that a load reads. -/
def readFiles (path : String) : List String := [path, bakPath path]

/-- The files that a load may rename or remove. -/
def movedFiles (path : String) : List String := [path, bakPath path, brokenPath path]

theorem isFileExist_within {p : String} (hp : p ∈ readFiles path) :
    (isFileExist p : Os Doc Bool).OnlyCalls
      (OsCall.Within (readFiles path) (movedFiles path) (storeRenames path)) := by
  unfold isFileExist
  split
  · trivial
  · exact Program.onlyCalls_op
      ⟨by simpa [OsCall.reads] using hp, List.nil_subset _, List.nil_subset _⟩

theorem readFile_within {p : String} (hp : p ∈ readFiles path) :
    (readFile p : Os Doc _).OnlyCalls
      (OsCall.Within (readFiles path) (movedFiles path) (storeRenames path)) :=
  Program.onlyCalls_op ⟨by simpa [OsCall.reads] using hp, List.nil_subset _, List.nil_subset _⟩

theorem fileSize_within {p : String} (hp : p ∈ readFiles path) :
    (fileSize p : Os Doc _).OnlyCalls
      (OsCall.Within (readFiles path) (movedFiles path) (storeRenames path)) :=
  Program.onlyCalls_op ⟨by simpa [OsCall.reads] using hp, List.nil_subset _, List.nil_subset _⟩

theorem rename_within {a b : String} (h : (a, b) ∈ storeRenames path) :
    (rename a b : Os Doc _).OnlyCalls
      (OsCall.Within (readFiles path) (movedFiles path) (storeRenames path)) := by
  refine Program.onlyCalls_op ⟨?_, ?_, List.cons_subset.mpr ⟨h, List.nil_subset _⟩⟩
  · simp only [storeRenames, List.mem_cons, List.not_mem_nil, or_false, Prod.mk.injEq] at h
    rcases h with ⟨rfl, -⟩ | ⟨rfl, -⟩ | ⟨rfl, -⟩ <;> simp [OsCall.reads, readFiles]
  · simp only [storeRenames, List.mem_cons, List.not_mem_nil, or_false, Prod.mk.injEq] at h
    rcases h with ⟨rfl, rfl⟩ | ⟨rfl, rfl⟩ | ⟨rfl, rfl⟩ <;> simp [OsCall.writes, movedFiles]

theorem renameFromBackupFile_within (rep : Bool) :
    (renameFromBackupFile path bundle rep : Os Doc BackupResult).OnlyCalls
      (OsCall.Within (readFiles path) (movedFiles path) (storeRenames path)) := by
  have hmain : path ∈ readFiles path := by simp [readFiles]
  have hbak : bakPath path ∈ readFiles path := by simp [readFiles]
  refine Program.onlyCalls_bind (isFileExist_within hbak) ?_
  intro ex
  cases ex with
  | false => trivial
  | true =>
      refine Program.onlyCalls_bind (readFile_within hbak) ?_
      intro ⟨doc, e⟩
      cases doc with
      | none =>
          refine Program.onlyCalls_bind (lastErrorMessage_mute.mono OsCall.Mute.within) ?_
          intro _
          refine Program.onlyCalls_bind (Program.onlyCalls_op ⟨?_, ?_, List.nil_subset _⟩) ?_
          · simp [OsCall.reads, readFiles]
          · simp [OsCall.writes, movedFiles]
          · intro _
            refine Program.onlyCalls_bind
              ((reportNonCorruptError_mute _ _ _ _).mono OsCall.Mute.within) ?_
            intro nc
            cases nc with
            | false => trivial
            | true => trivial
      | some d =>
          refine Program.onlyCalls_bind (rename_within (by simp [storeRenames])) ?_
          intro ok
          cases ok with
          | false => trivial
          | true =>
              refine Program.onlyCalls_bind (fileSize_within hmain) ?_
              intro _
              exact Program.onlyCalls_bind ((report_mute _).mono OsCall.Mute.within)
                (fun _ => trivial)

theorem readRestored_within (msg : String) (restored : Bool) :
    (readRestored path msg restored : Os Doc _).OnlyCalls
      (OsCall.Within (readFiles path) (movedFiles path) (storeRenames path)) := by
  unfold readRestored
  split
  · refine Program.onlyCalls_bind (readFile_within (by simp [readFiles])) ?_
    intro ⟨doc, e⟩
    exact Program.onlyCalls_bind (lastErrorMessage_mute.mono OsCall.Mute.within) (fun _ => trivial)
  · trivial

theorem recoverFromBackup_within (msg : String) (e : Nat) (rep multi : Bool) :
    (recoverFromBackup path bundle msg e rep multi : Os Doc (Option Doc)).OnlyCalls
      (OsCall.Within (readFiles path) (movedFiles path) (storeRenames path)) := by
  refine Program.onlyCalls_bind (renameFromBackupFile_within rep) ?_
  intro res
  refine Program.onlyCalls_bind (readRestored_within msg res.restored) ?_
  intro ⟨doc, msg'⟩
  cases multi with
  | true =>
      exact Program.onlyCalls_bind ((reportCrossProcess_mute _ _ _).mono OsCall.Mute.within)
        (fun _ => trivial)
  | false =>
      exact Program.onlyCalls_bind ((reportOutcome_mute _ _ _ _ _ _ _).mono OsCall.Mute.within)
        (fun _ => trivial)

/-- A load looks at the main file and the backup, and moves these two and the broken file. -/
theorem xmlReadFile_within :
    (xmlReadFile path bundle : Os Doc (Option Doc)).OnlyCalls
      (OsCall.Within (readFiles path) (movedFiles path) (storeRenames path)) := by
  have hmain : path ∈ readFiles path := by simp [readFiles]
  refine Program.onlyCalls_bind
    (Program.onlyCalls_op ⟨List.nil_subset _, List.nil_subset _, List.nil_subset _⟩) ?_
  intro multi
  refine Program.onlyCalls_bind (isFileExist_within hmain) ?_
  intro ex
  cases ex with
  | false => exact recoverFromBackup_within _ _ _ _
  | true =>
      refine Program.onlyCalls_bind (readFile_within hmain) ?_
      intro ⟨doc, e⟩
      cases doc with
      | some d => trivial
      | none =>
          refine Program.onlyCalls_bind (lastErrorMessage_mute.mono OsCall.Mute.within) ?_
          intro _
          refine Program.onlyCalls_bind
            ((reportNonCorruptError_mute _ _ _ _).mono OsCall.Mute.within) ?_
          intro nc
          cases nc with
          | true => trivial
          | false =>
              refine Program.onlyCalls_bind (rename_within (by simp [storeRenames])) ?_
              intro ok
              cases ok with
              | false => trivial
              | true => exact recoverFromBackup_within _ _ _ _

/-! A call that changes files of the store only. -/

/-- The call names no file for writing but those of the store, and makes no rename but its. -/
def OsCall.Of (path : String) (c : OsCall) : Prop :=
  c.writes ⊆ storeFiles path ∧ c.renames ⊆ storeRenames path

theorem OsCall.Passive.of (c : OsCall) (h : c.Passive) : c.Of path := by
  rw [OsCall.Of, h.writes_eq, h.renames_eq]
  exact ⟨List.nil_subset _, List.nil_subset _⟩

theorem OsCall.Within.of (c : OsCall)
    (h : c.Within (readFiles path) (movedFiles path) (storeRenames path)) : c.Of path := by
  refine ⟨List.Subset.trans h.writes ?_, h.renames⟩
  simp [movedFiles, storeFiles, xmlFiles]

/-- The call has no names but those of the store, renames nothing, and is no write of more than
`write` can report. -/
structure OsCall.FitsOf (path : String) (c : OsCall) : Prop where
  names : c.names ⊆ storeFiles path
  renames : c.renames = []
  fits : c.Fits

theorem OsCall.FitsOf.of (c : OsCall) (h : c.FitsOf path) : c.Of path := by
  rw [OsCall.Of, h.renames]
  exact ⟨List.Subset.trans (List.subset_append_right _ _) h.names, List.nil_subset _⟩

end Within

end NativePreferences
