import NativePreferences.XmlFileFaults
import NativePreferences.XmlFileSave

/-!
# NativePreferences.XmlFileSaveFaults

**Saves when calls fail.** As for loads, every function has a table of its runs under
the environment `faulty`, here with an honest `stat`. A save promises two things: if it
returns true the new buffer is in the main file, and if it returns false the old document
is what the next load returns. `saveXmlFile_honest_iff` says under which answers it keeps
both promises.

Three kinds of answers break them. A `write` that stops short is taken for a success.
A backup that the fault handler cannot read is removed, as in a load. And a main file
that is not a document replaces a good backup before anything is written.
-/

namespace NativePreferences

open Lib

variable {Doc : Type} {parse : Bytes → Option Doc} {statFails : Prop}
variable {path bundle : String} {w w' : Files} {tr : List (OsEvent Doc)} {buf : Bytes}

/-! ### The fault handler -/

/-- The calls of the fault handler that matter. -/
def HandlerCall (path : String) (c : OsCall) : Prop :=
  c = .rename path (brokenPath path) ∨ c = .xmlReadFile (bakPath path) ∨
    c = .remove (bakPath path) ∨ c = .rename (bakPath path) path

theorem RestoreRun.handlerCall {evs : List (OsEvent Doc)} {restored : Bool}
    (h : RestoreRun parse path w evs restored w') : ∀ ev ∈ evs, HandlerCall path ev.1 := by
  intro ev hev
  cases h with
  | absent => exact absurd hev (by simp)
  | kept e | removed e _ =>
      rcases List.mem_pair.mp hev with rfl | rfl
      · exact .inr (.inl rfl)
      · exact .inr (.inr (.inl rfl))
  | stuck d e _ | restored d e _ =>
      rcases List.mem_pair.mp hev with rfl | rfl
      · exact .inr (.inl rfl)
      · exact .inr (.inr (.inr rfl))

/-- The first thing the fault handler does: the main file is put aside, if that works. -/
theorem exec_putAsideMain_faulty {r : Bool}
    (h : Exec (faulty parse statFails) (putAsideMain path) w tr r w') :
    (∀ ev ∈ active tr, ev.1 = .rename path (brokenPath path)) ∧
      (w' path = none ∨ w' path = w path) ∧ w' (bakPath path) = w (bakPath path) := by
  unfold putAsideMain at h
  obtain ⟨_, ex, _, -, hrest, hact⟩ := exec_bind_passive_faulty (isFileExist_passive _) h
  rw [hact]
  cases ex with
  | false =>
      obtain ⟨-, hact, rfl⟩ := exec_ret_faulty hrest
      rw [hact]
      exact ⟨by simp, .inr rfl, rfl⟩
  | true =>
      obtain ⟨ok, w₁, _, hmv, hrest, hact⟩ := exec_bind_active id hrest
      rw [hact]
      obtain ⟨-, hact, rfl⟩ := exec_ret_faulty hrest
      rw [hact]
      refine ⟨by simp, ?_⟩
      rcases hmv with ⟨-, -, rfl⟩ | ⟨-, rfl⟩
      · exact ⟨.inl (by simp), by simp⟩
      · exact ⟨.inr rfl, rfl⟩

/-- What the fault handler does. The main file it finds is the empty one that was just
opened, or none; so afterwards the store shows the backup's document, or nothing if the
backup got lost. -/
theorem exec_reportSaveFileFault_faulty (hempty : parse [] = none)
    (hmain : w path = none ∨ w path = some []) {multi : Bool} {u : Unit}
    (h : Exec (faulty parse statFails) (reportSaveFileFault path bundle multi) w tr u w') :
    (∀ ev ∈ active tr, HandlerCall path ev.1) ∧
      (BackupLost path tr → view parse path w' = none) ∧
      (¬ BackupLost path tr → view parse path w' = docAt parse w (bakPath path)) := by
  unfold reportSaveFileFault at h
  obtain ⟨_, e, _, -, hrest, hact⟩ := exec_bind_passive_faulty errno_passive h
  rw [← backupLost_active, hact]
  obtain ⟨_, msg, _, -, hrest, hact⟩ := exec_bind_passive_faulty lastErrorMessage_passive hrest
  rw [hact]
  obtain ⟨tr₁, rep, w₁, _, haside, hthen, rfl⟩ := exec_bind_iff.mp hrest
  obtain ⟨hcalls, hmain₁, hbak₁⟩ := exec_putAsideMain_faulty haside
  obtain ⟨tr₂, res, w₂, tr₃, hres, hreport, rfl⟩ := exec_bind_iff.mp hthen
  have hrun := exec_renameFromBackupFile_faulty hres
  -- the reports at the end change nothing
  have hlast : active tr₃ = [] ∧ w' = w₂ := by
    refine exec_passive_faulty
      (Program.onlyCalls_bind (reportNonCorruptError_passive _ _ _ _) ?_) hreport
    intro nc
    cases nc with
    | true => trivial
    | false =>
        cases multi with
        | true => exact reportCrossProcess_passive _ _ _
        | false => exact reportOutcome_passive _ _ _ _ _ _ _
  have hact : active (tr₁ ++ (tr₂ ++ tr₃)) = active tr₁ ++ active tr₂ := by simp [hlast.1]
  have helse : ∀ ev ∈ active tr₁, Elsewhere path ev.1 := by
    intro ev hev
    rw [hcalls ev hev]
    simp [Elsewhere]
  have hdoc₁ : docAt parse w₁ path = none := by
    have hnone : w₁ path = none ∨ w₁ path = some [] := by
      rcases hmain₁ with h₁ | h₁
      · exact .inl h₁
      · rw [h₁]
        exact hmain
    rcases hnone with h₁ | h₁
    · simp [docAt, h₁]
    · simp [docAt, h₁, hempty]
  have hbakdoc : docAt parse w₁ (bakPath path) = docAt parse w (bakPath path) := by
    simp only [docAt, hbak₁]
  rw [hact, hlast.2, backupLost_append_left helse]
  refine ⟨?_, ?_⟩
  · intro ev hev
    rcases List.mem_append.mp hev with hev | hev
    · exact .inl (hcalls ev hev)
    · exact hrun.handlerCall ev hev
  · rcases hrun.lost_or with ⟨hlost, rfl⟩ | ⟨hkept, rfl | ⟨hgood, rfl⟩⟩
    · refine ⟨fun _ => ?_, fun hnot => absurd hlost hnot⟩
      have hmain₂ : docAt parse (w₁.set (bakPath path) none) path = none := by
        rw [← hdoc₁]
        simp [docAt]
      rw [view, hmain₂]
      simp [docAt]
    · refine ⟨fun hlost => absurd hlost hkept, fun _ => ?_⟩
      rw [view, hdoc₁, Option.none_or, hbakdoc]
    · refine ⟨fun hlost => absurd hlost hkept, fun _ => ?_⟩
      obtain ⟨d, hd⟩ := Option.isSome_iff_exists.mp hgood
      have hmain₂ : docAt parse (w₁.move (bakPath path) path) path = some d := by
        rw [← hd]
        simp only [docAt, Files.move_target]
      rw [view, hmain₂, Option.some_or, ← hbakdoc, hd]

/-! ### From the open to the end -/

/-- The runs of a save from the `open` on, started without a main file: the calls that
matter, the result, and the files left. -/
inductive WriteRun (parse : Bytes → Option Doc) (path : String) (buf : Bytes) (w : Files) :
    List (OsEvent Doc) → Bool → Files → Prop
  | openFailed {evs : List (OsEvent Doc)} {w' : Files}
      (hcalls : ∀ ev ∈ evs, HandlerCall path ev.1)
      (hlost : BackupLost path evs → view parse path w' = none)
      (hkept : ¬ BackupLost path evs → view parse path w' = docAt parse w (bakPath path)) :
      WriteRun parse path buf w (⟨.openFile path, false⟩ :: evs) false w'
  | writeFailed {evs : List (OsEvent Doc)} {w' : Files}
      (hcalls : ∀ ev ∈ evs, HandlerCall path ev.1)
      (hlost : BackupLost path evs → view parse path w' = none)
      (hkept : ¬ BackupLost path evs → view parse path w' = docAt parse w (bakPath path)) :
      WriteRun parse path buf w
        (⟨.openFile path, true⟩ :: ⟨.write path buf, (-1 : Int)⟩ :: evs) false w'
  /-- Any count that is not negative counts as success. -/
  | written (n : Nat) {evs : List (OsEvent Doc)} {w' : Files} (hn : n ≤ buf.length)
      (hcalls : ∀ ev ∈ evs, ev.1 = .remove (bakPath path))
      (hmain : w' path = some (buf.take n)) :
      WriteRun parse path buf w
        (⟨.openFile path, true⟩ :: ⟨.write path buf, (n : Int)⟩ :: evs) true w'

theorem exec_removeBackupFile_faulty {u : Unit}
    (h : Exec (faulty parse statFails) (removeBackupFile path) w tr u w') :
    (∀ ev ∈ active tr, ev.1 = .remove (bakPath path)) ∧ w' path = w path := by
  unfold removeBackupFile at h
  obtain ⟨_, ex, _, -, hrest, hact⟩ := exec_bind_passive_faulty (isFileExist_passive _) h
  rw [hact]
  cases ex with
  | false =>
      obtain ⟨-, hact, rfl⟩ := exec_ret_faulty hrest
      rw [hact]
      exact ⟨by simp, rfl⟩
  | true =>
      obtain ⟨ok, w₁, _, hrm, hrest, hact⟩ := exec_bind_active id hrest
      rw [hact]
      obtain ⟨-, hact, rfl⟩ := exec_ret_faulty hrest
      rw [hact]
      refine ⟨by simp, ?_⟩
      rcases hrm with ⟨-, -, rfl⟩ | ⟨-, rfl⟩
      · simp
      · rfl

theorem exec_writeXmlFile_faulty (hempty : parse [] = none) (hmain : w path = none)
    {multi r : Bool}
    (h : Exec (faulty parse statFails) (writeXmlFile path bundle buf multi) w tr r w') :
    WriteRun parse path buf w (active tr) r w' := by
  unfold writeXmlFile at h
  obtain ⟨opened, w₁, _, hopen, hrest, hact⟩ := exec_bind_active id h
  rw [hact]
  rcases hopen with ⟨rfl, hw₁⟩ | ⟨rfl, hw₁⟩
  · have hmain₁ : w₁ path = some [] := by rw [hw₁, Files.set_self]
    have hbak₁ : docAt parse w₁ (bakPath path) = docAt parse w (bakPath path) := by
      simp [docAt, hw₁]
    obtain ⟨r', w₂, _, hwrite, hthen, hact⟩ := exec_bind_active id hrest
    rw [hact]
    rcases hwrite with ⟨rfl, hw₂⟩ | ⟨n, hn, -, rfl, hw₂⟩
    · -- the fault handler, then the close
      rw [if_pos (by decide), hw₂] at hthen
      obtain ⟨tr₁, _, w₃, _, hfault, hclose, rfl⟩ := exec_bind_iff.mp hthen
      obtain ⟨hcalls, hlost, hkept⟩ :=
        exec_reportSaveFileFault_faulty hempty (.inr hmain₁) hfault
      obtain ⟨_, _, _, -, hret, hact⟩ := exec_bind_passive_faulty (close_passive path) hclose
      obtain ⟨rfl, hact', rfl⟩ := exec_ret_faulty hret
      rw [active_append, hact, hact', List.append_nil]
      rw [← backupLost_active] at hlost hkept
      exact .writeFailed hcalls hlost (fun hnot => (hkept hnot).trans hbak₁)
    · rw [if_neg (by omega)] at hthen
      obtain ⟨_, _, _, -, hthen, hact⟩ := exec_bind_passive_faulty (fsync_passive path) hthen
      rw [hact]
      obtain ⟨_, _, _, -, hthen, hact⟩ := exec_bind_passive_faulty (close_passive path) hthen
      rw [hact]
      obtain ⟨tr₁, _, w₃, _, hrm, hret, rfl⟩ := exec_bind_iff.mp hthen
      obtain ⟨hcalls, hmain₃⟩ := exec_removeBackupFile_faulty hrm
      obtain ⟨rfl, hact, rfl⟩ := exec_ret_faulty hret
      rw [active_append, hact, List.append_nil]
      refine .written n hn hcalls ?_
      rw [hmain₃, hw₂, Files.set_self]
  · rw [hw₁] at hrest
    obtain ⟨tr₁, _, w₃, _, hfault, hret, rfl⟩ := exec_bind_iff.mp hrest
    obtain ⟨hcalls, hlost, hkept⟩ := exec_reportSaveFileFault_faulty hempty (.inl hmain) hfault
    obtain ⟨rfl, hact, rfl⟩ := exec_ret_faulty hret
    rw [active_append, hact, List.append_nil]
    rw [← backupLost_active] at hlost hkept
    exact .openFailed hcalls hlost hkept

/-! ### The three kinds of answers -/

/-- A write stopped before the end of the buffer. -/
def ShortWrite (path : String) (buf : Bytes) (tr : List (OsEvent Doc)) : Prop :=
  ∃ n : Nat, n < buf.length ∧ ⟨.write path buf, (n : Int)⟩ ∈ tr

/-- The main file could not be opened or not be written. -/
def WriteFault (path : String) (buf : Bytes) (tr : List (OsEvent Doc)) : Prop :=
  ⟨.openFile path, false⟩ ∈ tr ∨ ⟨.write path buf, (-1 : Int)⟩ ∈ tr

/-- A main file that is no document became the backup, and then the write failed. -/
def BackupReplaced (parse : Bytes → Option Doc) (path : String) (buf : Bytes) (w : Files)
    (tr : List (OsEvent Doc)) : Prop :=
  docAt parse w path = none ∧ ⟨.rename path (bakPath path), true⟩ ∈ tr ∧ WriteFault path buf tr

theorem handler_notMem (buf : Bytes) {evs : List (OsEvent Doc)}
    (h : ∀ ev ∈ evs, HandlerCall path ev.1) :
    (∀ r, (⟨.openFile path, r⟩ : OsEvent Doc) ∉ evs) ∧
      (∀ r, (⟨.write path buf, r⟩ : OsEvent Doc) ∉ evs) ∧
      ∀ r, (⟨.rename path (bakPath path), r⟩ : OsEvent Doc) ∉ evs := by
  refine ⟨?_, ?_, ?_⟩
  · intro r hmem
    simpa [HandlerCall] using h _ hmem
  · intro r hmem
    simpa [HandlerCall] using h _ hmem
  · intro r hmem
    simpa [HandlerCall] using h _ hmem

theorem removal_notMem (buf : Bytes) {evs : List (OsEvent Doc)}
    (h : ∀ ev ∈ evs, ev.1 = .remove (bakPath path)) :
    (∀ r, (⟨.openFile path, r⟩ : OsEvent Doc) ∉ evs) ∧
      (∀ r, (⟨.write path buf, r⟩ : OsEvent Doc) ∉ evs) ∧
      (∀ r, (⟨.rename path (bakPath path), r⟩ : OsEvent Doc) ∉ evs) ∧
      ∀ r, (⟨.xmlReadFile (bakPath path), r⟩ : OsEvent Doc) ∉ evs := by
  refine ⟨?_, ?_, ?_, ?_⟩
  · intro r hmem
    simpa using h _ hmem
  · intro r hmem
    simpa using h _ hmem
  · intro r hmem
    simpa using h _ hmem
  · intro r hmem
    simpa using h _ hmem

/-- A run of the table that returns true, as far as the promises are concerned. -/
structure WriteRun.Done (parse : Bytes → Option Doc) (path : String) (buf : Bytes)
    (evs : List (OsEvent Doc)) (w' : Files) : Prop where
  main_iff : w' path = some buf ↔ ¬ ShortWrite path buf evs
  notFault : ¬ WriteFault path buf evs
  notLost : ¬ BackupLost path evs

/-- A run of the table that returns false. -/
structure WriteRun.Failed (parse : Bytes → Option Doc) (path : String) (buf : Bytes)
    (w : Files) (evs : List (OsEvent Doc)) (w' : Files) : Prop where
  notShort : ¬ ShortWrite path buf evs
  fault : WriteFault path buf evs
  lost : BackupLost path evs → view parse path w' = none
  kept : ¬ BackupLost path evs → view parse path w' = docAt parse w (bakPath path)

theorem WriteRun.rename_notMem {evs : List (OsEvent Doc)} {r : Bool}
    (h : WriteRun parse path buf w evs r w') :
    ∀ ok, (⟨.rename path (bakPath path), ok⟩ : OsEvent Doc) ∉ evs := by
  intro ok
  cases h with
  | openFailed hcalls | writeFailed hcalls =>
      obtain ⟨-, -, hmv⟩ := handler_notMem buf hcalls
      simp [hmv ok]
  | written n _ hcalls =>
      obtain ⟨-, -, hmv, -⟩ := removal_notMem buf hcalls
      simp [hmv ok]

theorem WriteRun.done {evs : List (OsEvent Doc)} (h : WriteRun parse path buf w evs true w') :
    WriteRun.Done parse path buf evs w' := by
  cases h with
  | @written n evs _ hn hcalls hmain =>
      obtain ⟨hopen, hwrite, -, hread⟩ := removal_notMem buf hcalls
      refine ⟨?_, ?_, ?_⟩
      · have hshort : ShortWrite path buf (⟨.openFile path, true⟩ ::
            ⟨.write path buf, (n : Int)⟩ :: evs) ↔ n < buf.length := by
          refine ⟨?_, fun hlt => ⟨n, hlt, by simp⟩⟩
          intro ⟨m, hlt, hmem⟩
          have heq : (m : Int) = (n : Int) := by simpa [hwrite] using hmem
          omega
        rw [hshort, hmain, Option.some.injEq, List.take_eq_self_iff]
        omega
      · simp [WriteFault, hopen, hwrite]
      · simp [BackupLost, hread]

theorem WriteRun.failed {evs : List (OsEvent Doc)} (h : WriteRun parse path buf w evs false w') :
    WriteRun.Failed parse path buf w evs w' := by
  cases h with
  | @openFailed evs _ hcalls hlost hkept =>
      obtain ⟨hopen, hwrite, -⟩ := handler_notMem buf hcalls
      have hiff : BackupLost path (⟨.openFile path, false⟩ :: evs) ↔ BackupLost path evs := by
        simp [BackupLost]
      refine ⟨?_, ?_, ?_, ?_⟩
      · simp [ShortWrite, hwrite]
      · simp [WriteFault]
      · rwa [hiff]
      · rwa [hiff]
  | @writeFailed evs _ hcalls hlost hkept =>
      obtain ⟨hopen, hwrite, -⟩ := handler_notMem buf hcalls
      have hiff : BackupLost path (⟨.openFile path, true⟩ ::
          ⟨.write path buf, (-1 : Int)⟩ :: evs) ↔ BackupLost path evs := by
        simp [BackupLost]
      refine ⟨?_, ?_, ?_, ?_⟩
      · simp [ShortWrite, hwrite]
      · simp [WriteFault]
      · rwa [hiff]
      · rwa [hiff]

/-! ### The save -/

/-- The runs of a save on the files `w`, with the lock left out. -/
inductive SaveRun (parse : Bytes → Option Doc) (path : String) (buf : Bytes) (w : Files) :
    List (OsEvent Doc) → Bool → Files → Prop
  | renameFailed {w' : Files} (hview : view parse path w' = view parse path w) :
      SaveRun parse path buf w [⟨.rename path (bakPath path), false⟩] false w'
  | renamed {evs : List (OsEvent Doc)} {r : Bool} {w₁ w' : Files}
      (hbak : w₁ (bakPath path) = w path) (h : WriteRun parse path buf w₁ evs r w') :
      SaveRun parse path buf w (⟨.rename path (bakPath path), true⟩ :: evs) r w'
  | fresh {evs : List (OsEvent Doc)} {r : Bool} {w₁ w' : Files} (hmain : w path = none)
      (hbak : w₁ (bakPath path) = w (bakPath path)) (h : WriteRun parse path buf w₁ evs r w') :
      SaveRun parse path buf w evs r w'

/-- Every save is in the table. -/
theorem exec_saveXmlFile_faulty (hfits : PathFits path) (hempty : parse [] = none) {r : Bool}
    (h : Exec (faulty parse False) (saveXmlFile path bundle buf) w tr r w') :
    ∃ multi evs, active tr = ⟨.lock path true, multi⟩ :: evs ∧
      SaveRun parse path buf w evs r w' := by
  unfold saveXmlFile at h
  obtain ⟨multi, w₁, tr₁, hlock, hrest, hact⟩ := exec_bind_active id h
  have hlock : w₁ = w.touch (lockPath path) := hlock
  have hmain₁ : w₁ path = w path := by
    rw [hlock]
    exact Files.touch_of_ne w (ne_lockPath path)
  have hbak₁ : w₁ (bakPath path) = w (bakPath path) := by
    rw [hlock]
    exact Files.touch_of_ne w (bakPath_ne_lockPath path)
  refine ⟨multi, active tr₁, hact, ?_⟩
  obtain ⟨_, ex, _, hex, hrest, hact⟩ := exec_bind_passive_faulty (isFileExist_passive _) hrest
  rw [hact]
  have hex : ex = (w₁ path).isSome := exec_isFileExist_honest hfits.main hex
  cases hmain : w₁ path with
  | none =>
      rw [hex, hmain] at hrest
      exact .fresh (hmain₁.symm.trans hmain) hbak₁ (exec_writeXmlFile_faulty hempty hmain hrest)
  | some c =>
      rw [hex, hmain] at hrest
      obtain ⟨ok, w₂, _, hmv, hthen, hact⟩ := exec_bind_active id hrest
      rw [hact]
      rcases hmv with ⟨rfl, -, hw₂⟩ | ⟨rfl, hw₂⟩
      · have hmain₂ : w₂ path = none := by
          rw [hw₂]
          exact Files.move_source w₁ (ne_bakPath path)
        refine .renamed ?_ (exec_writeXmlFile_faulty hempty hmain₂ hthen)
        rw [hw₂, ← hmain₁]
        exact Files.move_target w₁ path (bakPath path)
      · obtain ⟨rfl, hact, rfl⟩ := exec_ret_faulty hthen
        rw [hact, hw₂]
        exact .renameFailed (view_congr hmain₁ hbak₁)

/-- The two promises of a save that started in `w`: true means that the main file holds
the buffer; false means that what a load returned before is what every load without
faults returns now. A file that this load cannot parse counts as corrupt (`corruptErrno`): an
`errno` that was left before does not get into its way. -/
def SaveHonest (parse : Bytes → Option Doc) (path bundle : String) (buf : Bytes) (w : Files)
    (r : Bool) (w' : Files) : Prop :=
  (r = true → w' path = some buf) ∧
    (r = false → ∀ d, view parse path w = some d →
      ∀ tr r' w'', Exec (faultFree parse corruptErrno) (xmlReadFile path bundle) w' tr r' w'' →
        r' = some d)

/-- The answers under which a save keeps its promises. -/
def SaveSafe (parse : Bytes → Option Doc) (path : String) (buf : Bytes) (w : Files)
    (tr : List (OsEvent Doc)) : Prop :=
  ¬ ShortWrite path buf tr ∧
    ((view parse path w).isSome → ¬ BackupLost path tr ∧ ¬ BackupReplaced parse path buf w tr)

/-- In terms of the view: loads return the view, and there is always a load. -/
theorem saveHonest_iff (hfits : PathFits path) {r : Bool} :
    SaveHonest parse path bundle buf w r w' ↔
      (r = true → w' path = some buf) ∧
        (r = false → ∀ d, view parse path w = some d → view parse path w' = some d) := by
  have hload : ∀ d, (∀ tr r' w'', Exec (faultFree parse corruptErrno) (xmlReadFile path bundle)
      w' tr r' w'' → r' = some d) ↔ view parse path w' = some d := by
    intro d
    constructor
    · intro hall
      obtain ⟨tr, r', w'', hexec⟩ : ∃ tr r' w'',
          Exec (faultFree parse corruptErrno) (xmlReadFile path bundle) w' tr r' w'' :=
        exists_exec_xmlReadFile w'
      rw [← (exec_xmlReadFile hfits classifiedCorrupt_corruptErrno hexec).1]
      exact hall tr r' w'' hexec
    · intro hview tr r' w'' hexec
      rw [← hview]
      exact (exec_xmlReadFile hfits classifiedCorrupt_corruptErrno hexec).1
  simp only [SaveHonest, hload]

theorem saveSafe_active : SaveSafe parse path buf w (active tr) ↔ SaveSafe parse path buf w tr := by
  have hopen : ¬ OsCall.Passive (.openFile path) := id
  have hwrite : ¬ OsCall.Passive (.write path buf) := id
  have hmv : ¬ OsCall.Passive (.rename path (bakPath path)) := id
  simp only [SaveSafe, ShortWrite, BackupReplaced, WriteFault, backupLost_active,
    mem_active hopen, mem_active hwrite, mem_active hmv]

/-- A failed save shows the old document if the backup is kept and holds it. -/
theorem WriteRun.Failed.view_iff {w₁ : Files} {evs : List (OsEvent Doc)}
    (h : WriteRun.Failed parse path buf w₁ evs w') (old : Option Doc) :
    (∀ d, old = some d → view parse path w' = some d) ↔
      (old.isSome → ¬ BackupLost path evs ∧ docAt parse w₁ (bakPath path) = old) := by
  cases old with
  | none => simp
  | some d =>
      have hsimp : (∀ d', some d = some d' → view parse path w' = some d') ↔
          view parse path w' = some d := by simp
      rw [hsimp]
      constructor
      · intro hview _
        have hkept : ¬ BackupLost path evs := by
          intro hlost
          rw [h.lost hlost] at hview
          exact absurd hview (by simp)
        exact ⟨hkept, (h.kept hkept).symm.trans hview⟩
      · intro hcond
        obtain ⟨hkept, hdoc⟩ := hcond rfl
        exact (h.kept hkept).trans hdoc

theorem SaveRun.honest_iff (hfits : PathFits path) {evs : List (OsEvent Doc)} {r : Bool}
    (h : SaveRun parse path buf w evs r w') :
    SaveHonest parse path bundle buf w r w' ↔ SaveSafe parse path buf w evs := by
  rw [saveHonest_iff hfits]
  cases h with
  | renameFailed hview =>
      refine iff_of_true ⟨by simp, fun _ d hd => hview.trans hd⟩ ?_
      simp [SaveSafe, ShortWrite, BackupLost, BackupReplaced]
  | @renamed evs r w₁ _ hbak h =>
      have hshort : ShortWrite path buf (⟨.rename path (bakPath path), true⟩ :: evs) ↔
          ShortWrite path buf evs := by simp [ShortWrite]
      have hlost : BackupLost path (⟨.rename path (bakPath path), true⟩ :: evs) ↔
          BackupLost path evs := by simp [BackupLost]
      have hrepl : BackupReplaced parse path buf w (⟨.rename path (bakPath path), true⟩ :: evs) ↔
          docAt parse w path = none ∧ WriteFault path buf evs := by
        simp [BackupReplaced, WriteFault]
      rw [SaveSafe, hshort, hlost, hrepl]
      cases r with
      | true =>
          have hdone := h.done
          simp [hdone.main_iff, hdone.notFault, hdone.notLost]
      | false =>
          have hfail := h.failed
          have hbakdoc : docAt parse w₁ (bakPath path) = docAt parse w path := by
            simp only [docAt, hbak]
          -- the new backup is the old main file: it shows the old document iff it is one
          have hmain : (view parse path w).isSome →
              (docAt parse w path = view parse path w ↔ ¬ docAt parse w path = none) := by
            intro hsome
            cases hdoc : docAt parse w path with
            | none =>
                refine iff_of_false ?_ (by simp)
                intro hview
                rw [← hview] at hsome
                exact absurd hsome (by simp)
            | some d => exact iff_of_true (by rw [view, hdoc, Option.some_or]) (by simp)
          have hview := hfail.view_iff (view parse path w)
          rw [hbakdoc] at hview
          simp only [Bool.false_eq_true, false_implies, true_and, true_implies, hview,
            hfail.notShort, hfail.fault, not_false_eq_true, and_true]
          exact forall_congr' (fun hsome => by rw [hmain hsome])
  | @fresh evs r w₁ _ hmain hbak h =>
      have hrepl : ¬ BackupReplaced parse path buf w evs := fun hb => h.rename_notMem true hb.2.1
      cases r with
      | true =>
          have hdone := h.done
          simp [SaveSafe, hdone.main_iff, hdone.notLost, hrepl]
      | false =>
          have hfail := h.failed
          have hbakdoc : docAt parse w₁ (bakPath path) = view parse path w := by
            simp [view, docAt, hbak, hmain]
          have hview := hfail.view_iff (view parse path w)
          rw [hbakdoc] at hview
          simp [SaveSafe, hview, hfail.notShort, hrepl]

/-- **Exactly when a save keeps its promises.** -/
theorem saveXmlFile_honest_iff (hfits : PathFits path) (hempty : parse [] = none) {r : Bool}
    (h : Exec (faulty parse False) (saveXmlFile path bundle buf) w tr r w') :
    SaveHonest parse path bundle buf w r w' ↔ SaveSafe parse path buf w tr := by
  obtain ⟨multi, evs, hact, hrun⟩ := exec_saveXmlFile_faulty hfits hempty h
  have hsafe : SaveSafe parse path buf w tr ↔ SaveSafe parse path buf w evs := by
    rw [← saveSafe_active, hact]
    simp [SaveSafe, ShortWrite, BackupLost, BackupReplaced, WriteFault]
  rw [hrun.honest_iff hfits, hsafe]

/-- The answers of an environment in which a write stops after `n` bytes. -/
def answerShortWrite (parse : Bytes → Option Doc) (n : Nat) :
    (c : OsCall) → Files → c.Ret Doc × Files
  | .write p buf, w => (((buf.take n).length : Int), w.set p (some (buf.take n)))
  | c, w => answerFaultFree parse c w

theorem faulty_answerShortWrite (n : Nat) (c : OsCall) (w : Files) (hc : c.Fits) :
    faulty parse statFails c w (answerShortWrite parse n c w).1
      (answerShortWrite parse n c w).2 := by
  have hfree : faultFree parse (fun _ => True) c w _ _ :=
    faultFree_answerFaultFree trivial c w hc
  cases c with
  | write p buf =>
      have hlen : (buf.take n).length ≤ buf.length := List.length_take_le' n buf
      have htake : buf.take (buf.take n).length = buf.take n := by
        simp [List.take_eq_take_iff]
      refine .inr ⟨(buf.take n).length, hlen, hlen.trans hc, rfl, ?_⟩
      rw [htake]
      rfl
  | _ => exact faultFree_faulty hfree

/-- A disk that takes one byte of two: the save returns true, the main file is torn, and
the backup is gone. -/
theorem saveXmlFile_short_write :
    ¬ ∀ (buf : Bytes) (w w' : Files) (tr : List (OsEvent UInt8)) (r : Bool),
      Exec (faulty parseTagged False) (saveXmlFile "/p" "b" buf) w tr r w' →
      SaveHonest parseTagged "/p" "b" buf w r w' := by
  intro hall
  let w : Files := Files.set (fun _ => none) "/p" (some [1, 62])
  have hexec : Exec (faulty parseTagged False) (saveXmlFile "/p" "b" [2, 62]) w _ _ _ :=
    exec_interp (faulty_answerShortWrite 1) (saveXmlFile_fits (by decide)) w
  have hmain := (hall _ w _ _ _ hexec).1 rfl
  exact absurd (show (some [2] : Option Bytes) = some [2, 62] from hmain) (by simp)

/-- On a disk that takes everything, the save of 2 over 1 keeps its promises. -/
theorem saveXmlFile_full_write :
    ∃ (w w' : Files) (tr : List (OsEvent UInt8)), w "/p" = some [1, 62] ∧
      Exec (faulty parseTagged False) (saveXmlFile "/p" "b" [2, 62]) w tr true w' ∧
      SaveSafe parseTagged "/p" [2, 62] w tr := by
  let w : Files := Files.set (fun _ => none) "/p" (some [1, 62])
  have hexec : Exec (faulty parseTagged False) (saveXmlFile "/p" "b" [2, 62]) w _ true _ :=
    exec_interp (faulty_answerShortWrite 2) (saveXmlFile_fits (by decide)) w
  refine ⟨w, _, _, rfl, hexec, ?_⟩
  have hfits : PathFits "/p" := by decide
  refine (saveXmlFile_honest_iff hfits rfl hexec).mp ⟨fun _ => rfl, ?_⟩
  intro hfalse
  exact absurd hfalse (by simp)

end NativePreferences
