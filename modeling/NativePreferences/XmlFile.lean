import NativePreferences.Os

/-!
# NativePreferences.XmlFile

The **XML file protocol** of `preferences_xml_utils.cpp`: how a store's document is
loaded, recovered from its backup and saved.

* `xmlReadFile` loads the main file. A main file that does not parse is put aside as
  `.broken` and the backup takes its place (`renameFromBackupFile`).
* `saveXmlFile` renames the main file to `.bak`, writes the new document to a fresh main
  file and removes the backup. When that goes wrong, `reportSaveFileFault` puts the
  backup back.

The definitions follow the source call by call, fault reports included; only the log
lines are left out. `errno` is a parameter of the recovery because it decides what a
failed read means: the five codes of `isNonCorrupt` stand for a file that is probably
fine, every other value for a corrupt one.
-/

namespace NativePreferences

open Lib

variable {Doc : Type}

/-! ### Calls -/

def stat (p : String) : Os Doc Bool := Program.op (OsCall.stat p)
def rename (a b : String) : Os Doc Bool := Program.op (OsCall.rename a b)
def remove (p : String) : Os Doc Bool := Program.op (OsCall.remove p)
def openFile (p : String) : Os Doc Bool := Program.op (OsCall.openFile p)
def write (p : String) (buf : Bytes) : Os Doc Int := Program.op (OsCall.write p buf)
def fsync (p : String) : Os Doc Bool := Program.op (OsCall.fsync p)
def close (p : String) : Os Doc Unit := Program.op (OsCall.close p)
def xmlGetLastError : Os Doc (Option String) := Program.op OsCall.xmlGetLastError
def errno : Os Doc Nat := Program.op OsCall.errno
def strerror (errCode : Nat) : Os Doc String := Program.op (OsCall.strerror errCode)
def fileSize (p : String) : Os Doc Nat := Program.op (OsCall.fileSize p)
def fileLock (p : String) (write : Bool) : Os Doc Bool := Program.op (OsCall.lock p write)
def report (r : Report) : Os Doc Unit := Program.op (OsCall.report r)

/-- `ReadFile`: the document, and `errno` after the attempt. -/
def readFile (fileName : String) : Os Doc (Option Doc × Nat) :=
  Program.op (OsCall.xmlReadFile fileName)

/-! ### Small helpers -/

/-- `PATH_MAX`. -/
def pathMax : Nat := 4096

/-- `IsFileExist`. -/
def isFileExist (inputPath : String) : Os Doc Bool :=
  if pathMax < inputPath.utf8ByteSize then pure false else stat inputPath

/-- `RemoveBackupFile`. A failing removal is only logged. -/
def removeBackupFile (fileName : String) : Os Doc Unit := do
  if ← isFileExist (bakPath fileName) then
    let _ ← remove (bakPath fileName)

/-- `RenameFile`. -/
def renameFile (fileName fileType : String) : Os Doc Bool :=
  rename fileName (makeFilePath fileName fileType)

/-- `RenameToBackupFile`. -/
def renameToBackupFile (fileName : String) : Os Doc Bool := renameFile fileName strBackup

/-- `RenameToBrokenFile`. -/
def renameToBrokenFile (fileName : String) : Os Doc Bool := renameFile fileName strBroken

/-- The message of the last libxml2 error, or `null`. -/
def lastErrorMessage : Os Doc String := do
  let xmlErr ← xmlGetLastError
  return xmlErr.getD "null"

/-! ### Reports -/

/-- `ReportXmlFileCorrupted`: the corruption, and right after it the recovery. -/
def reportXmlFileCorrupted (fileName bundleName operationMsg : String) (errCode : Nat) :
    Os Doc Unit := do
  let reportParam : ReportParam :=
    { bundleName, store := fileName, errCode := .error, errnoCode := errCode,
      appendix := operationMsg }
  report (.corrupted reportParam)
  report (.corrupted
    { reportParam with errCode := .ok, errnoCode := 0, appendix := "restore success" })

/-- `REQUIRED_KEY_NOT_AVAILABLE` or `REQUIRED_KEY_REVOKED`: the screen is locked. -/
def isKeyMissing (errCode : Nat) : Bool := errCode == 126 || errCode == 128

/-- `NO_SPACE_LEFT_ON_DEVICE`, `DISK_QUOTA_EXCEEDED` or `TOO_MANY_OPEN_FILES`. -/
def isOutOfResources (errCode : Nat) : Bool := errCode == 28 || errCode == 122 || errCode == 24

/-- The values of `errno` after which an unreadable file does not count as corrupt. -/
def isNonCorrupt (errCode : Nat) : Bool := isKeyMissing errCode || isOutOfResources errCode

/-- `ReportNonCorruptError`. -/
def reportNonCorruptError (faultType fileName bundleName : String) (errCode : Nat) :
    Os Doc Bool := do
  if isKeyMissing errCode then
    report (.abnormal
      { faultType, bundleName, store := fileName, errCode := .operatIsLocked,
        appendix := faultType ++ " the screen is locked." } .useWhenScreenLocked)
    return true
  else if isOutOfResources errCode then
    let text ← strerror errCode
    report (.fault
      { faultType, bundleName, store := fileName, errCode := .error,
        appendix := faultType ++ " " ++ text })
    return true
  else
    return false

/-- The reports at the end of `XmlReadFile` and `ReportSaveFileFault`: nothing unless
`isReport`, else a corruption or a plain fault depending on whether a backup existed. -/
def reportOutcome (faultType fileName bundleName errMessage : String) (errCode : Nat)
    (isReport isExist : Bool) : Os Doc Unit := do
  if isReport then
    if isExist then
      reportXmlFileCorrupted fileName bundleName errMessage errCode
    else
      report (.fault
        { faultType, bundleName, store := fileName, errCode := .error,
          appendix := faultType ++ ", " ++ errMessage })

/-- The report of a lock that another process held. -/
def reportCrossProcess (faultType fileName bundleName : String) : Os Doc Unit :=
  report (.fault
    { faultType, bundleName, store := fileName, errCode := .operatIsCrossProess,
      appendix := "Cross-process operations." })

/-! ### Passive parts

Existence checks, error messages and reports only make passive calls. -/

theorem isFileExist_passive (p : String) :
    (isFileExist p : Os Doc Bool).OnlyCalls OsCall.Passive := by
  unfold isFileExist
  split
  · trivial
  · exact Program.onlyCalls_op trivial

theorem lastErrorMessage_mute : (lastErrorMessage : Os Doc String).OnlyCalls OsCall.Mute :=
  Program.onlyCalls_bind (Program.onlyCalls_op trivial) (fun _ => trivial)

theorem lastErrorMessage_passive : (lastErrorMessage : Os Doc String).OnlyCalls OsCall.Passive :=
  lastErrorMessage_mute.mono OsCall.Mute.passive

theorem errno_passive : (errno : Os Doc Nat).OnlyCalls OsCall.Passive :=
  Program.onlyCalls_op trivial

theorem fileSize_passive (p : String) : (fileSize p : Os Doc Nat).OnlyCalls OsCall.Passive :=
  Program.onlyCalls_op trivial

theorem fsync_passive (p : String) : (fsync p : Os Doc Bool).OnlyCalls OsCall.Passive :=
  Program.onlyCalls_op trivial

theorem close_passive (p : String) : (close p : Os Doc Unit).OnlyCalls OsCall.Passive :=
  Program.onlyCalls_op trivial

theorem report_mute (r : Report) : (report r : Os Doc Unit).OnlyCalls OsCall.Mute :=
  Program.onlyCalls_op trivial

theorem report_passive (r : Report) : (report r : Os Doc Unit).OnlyCalls OsCall.Passive :=
  (report_mute r).mono OsCall.Mute.passive

theorem reportNonCorruptError_mute (faultType fileName bundleName : String) (errCode : Nat) :
    (reportNonCorruptError faultType fileName bundleName errCode : Os Doc Bool).OnlyCalls
      OsCall.Mute := by
  unfold reportNonCorruptError
  split
  · exact Program.onlyCalls_bind (report_mute _) (fun _ => trivial)
  · split
    · refine Program.onlyCalls_bind (Program.onlyCalls_op trivial) (fun _ => ?_)
      exact Program.onlyCalls_bind (report_mute _) (fun _ => trivial)
    · trivial

theorem reportNonCorruptError_passive (faultType fileName bundleName : String) (errCode : Nat) :
    (reportNonCorruptError faultType fileName bundleName errCode : Os Doc Bool).OnlyCalls
      OsCall.Passive :=
  (reportNonCorruptError_mute _ _ _ _).mono OsCall.Mute.passive

theorem reportOutcome_mute (faultType fileName bundleName errMessage : String) (errCode : Nat)
    (isReport isExist : Bool) :
    (reportOutcome faultType fileName bundleName errMessage errCode isReport isExist :
      Os Doc Unit).OnlyCalls OsCall.Mute := by
  unfold reportOutcome
  split
  · split
    · exact Program.onlyCalls_bind (report_mute _) (fun _ => report_mute _)
    · exact report_mute _
  · trivial

theorem reportOutcome_passive (faultType fileName bundleName errMessage : String) (errCode : Nat)
    (isReport isExist : Bool) :
    (reportOutcome faultType fileName bundleName errMessage errCode isReport isExist :
      Os Doc Unit).OnlyCalls OsCall.Passive :=
  (reportOutcome_mute _ _ _ _ _ _ _).mono OsCall.Mute.passive

theorem reportCrossProcess_mute (faultType fileName bundleName : String) :
    (reportCrossProcess faultType fileName bundleName : Os Doc Unit).OnlyCalls OsCall.Mute :=
  report_mute _

theorem reportCrossProcess_passive (faultType fileName bundleName : String) :
    (reportCrossProcess faultType fileName bundleName : Os Doc Unit).OnlyCalls OsCall.Passive :=
  report_passive _

/-- `ReportNonCorruptError` answers whether the code is one of the five. -/
theorem exec_reportNonCorruptError {W : Type} {S : Sem OsCall (OsCall.Ret Doc) W}
    {faultType fileName bundleName : String} {errCode : Nat} {w w' : W}
    {tr : List (OsEvent Doc)} {r : Bool}
    (h : Exec S (reportNonCorruptError faultType fileName bundleName errCode) w tr r w') :
    r = isNonCorrupt errCode := by
  unfold reportNonCorruptError at h
  unfold isNonCorrupt
  split at h
  · next hkey =>
    obtain ⟨_, _, _, _, _, h, -⟩ := exec_bind_iff.mp h
    rw [hkey, (exec_ret_iff.mp h).2.1, Bool.true_or]
  · next hkey =>
    split at h
    · next hres =>
      obtain ⟨_, _, _, _, _, h, -⟩ := exec_bind_iff.mp h
      obtain ⟨_, _, _, _, _, h, -⟩ := exec_bind_iff.mp h
      rw [hres, (exec_ret_iff.mp h).2.1, Bool.or_true]
    · next hres =>
      rw [(exec_ret_iff.mp h).2.1]
      simp [hkey, hres]

/-! ### Recovery -/

/-- What `RenameFromBackupFile` hands back: its result and its two reference
parameters. -/
structure BackupResult where
  restored : Bool
  isReportCorrupt : Bool
  isBakFileExist : Bool
  deriving DecidableEq, Repr

/-- `RenameFromBackupFile`. A backup that cannot be read is removed before the reason is
looked at. -/
def renameFromBackupFile (fileName bundleName : String) (isReportCorrupt : Bool) :
    Os Doc BackupResult := do
  let backupFileName := bakPath fileName
  if !(← isFileExist backupFileName) then
    return { restored := false, isReportCorrupt, isBakFileExist := false }
  else
    let (bakDoc, errCode) ← readFile backupFileName
    if bakDoc.isNone then
      let _ ← lastErrorMessage
      let _ ← remove backupFileName
      if ← reportNonCorruptError "read bak failed" fileName bundleName errCode then
        return { restored := false, isReportCorrupt, isBakFileExist := true }
      else
        return { restored := false, isReportCorrupt := true, isBakFileExist := true }
    else if !(← rename backupFileName fileName) then
      return { restored := false, isReportCorrupt, isBakFileExist := true }
    else
      let stSize ← fileSize fileName
      report (.abnormal
        { faultType := "read failed", bundleName, store := fileName,
          errCode := .xmlRestoredFromBackupFile,
          appendix := "Restored from the backup. The file size is " ++ toString stSize ++ "." }
        .restoreFromBak)
      return { restored := true, isReportCorrupt := false, isBakFileExist := true }

/-- The read after a successful restore, with the message it adds; without a restore
there is no document. -/
def readRestored (fileName errMessage : String) (restored : Bool) :
    Os Doc (Option Doc × String) := do
  if restored then
    let (doc, bakErrCode) ← readFile fileName
    let message ← lastErrorMessage
    return (doc, errMessage ++ " bak: errno is " ++ toString bakErrCode ++ ", errMessage is " ++
      message)
  else
    return (none, errMessage)

/-- The second half of `XmlReadFile`, once the main file is known not to give a
document: try the backup and report. -/
def recoverFromBackup (fileName bundleName errMessage : String) (errCode : Nat)
    (isReport isMultiProcessing : Bool) : Os Doc (Option Doc) := do
  let res ← renameFromBackupFile fileName bundleName isReport
  let (doc, errMessage) ← readRestored fileName errMessage res.restored
  if isMultiProcessing then
    reportCrossProcess "read failed" fileName bundleName
    return doc
  else
    reportOutcome "read failed" fileName bundleName errMessage errCode res.isReportCorrupt
      res.isBakFileExist
    return doc

/-- `XmlReadFile`: the document of the store, from the main file or else from the
backup. -/
def xmlReadFile (fileName bundleName : String) : Os Doc (Option Doc) := do
  let isMultiProcessing ← fileLock fileName false
  if ← isFileExist fileName then
    let (doc, errCode) ← readFile fileName
    if doc.isSome then
      return doc
    else
      let errMessage ← lastErrorMessage
      if ← reportNonCorruptError "read failed" fileName bundleName errCode then
        return none
      else if !(← renameToBrokenFile fileName) then
        return none
      else
        recoverFromBackup fileName bundleName errMessage errCode true isMultiProcessing
  else
    recoverFromBackup fileName bundleName "" 0 false isMultiProcessing

/-! ### Saving -/

/-- The start of `ReportSaveFileFault`: a main file that is there is put aside, whether
or not that works, and makes the fault worth a report. -/
def putAsideMain (fileName : String) : Os Doc Bool := do
  if ← isFileExist fileName then
    let _ ← renameToBrokenFile fileName
    return true
  else
    return false

/-- `ReportSaveFileFault`: put the half-written main file aside and restore the
backup. -/
def reportSaveFileFault (fileName bundleName : String) (isMultiProcessing : Bool) :
    Os Doc Unit := do
  let errCode ← errno
  let errMessage ← lastErrorMessage
  let isReport ← putAsideMain fileName
  let res ← renameFromBackupFile fileName bundleName isReport
  if ← reportNonCorruptError "write failed" fileName bundleName errCode then
    return ()
  else if isMultiProcessing then
    reportCrossProcess "write failed" fileName bundleName
  else
    reportOutcome "write failed" fileName bundleName errMessage errCode res.isReportCorrupt
      res.isBakFileExist

/-- The part of `SaveXmlFile` after the main file is out of the way. The save counts as
done as soon as `Write` does not return a negative number. -/
def writeXmlFile (fileName bundleName : String) (buf : Bytes) (isMultiProcessing : Bool) :
    Os Doc Bool := do
  if !(← openFile fileName) then
    reportSaveFileFault fileName bundleName isMultiProcessing
    return false
  else if (← write fileName buf) < 0 then
    reportSaveFileFault fileName bundleName isMultiProcessing
    close fileName
    return false
  else
    let _ ← fsync fileName
    close fileName
    removeBackupFile fileName
    return true

/-- `SaveXmlFile`. -/
def saveXmlFile (fileName bundleName : String) (buf : Bytes) : Os Doc Bool := do
  let isMultiProcessing ← fileLock fileName true
  if ← isFileExist fileName then
    if !(← renameToBackupFile fileName) then
      return false
    else
      writeXmlFile fileName bundleName buf isMultiProcessing
  else
    writeXmlFile fileName bundleName buf isMultiProcessing

end NativePreferences
