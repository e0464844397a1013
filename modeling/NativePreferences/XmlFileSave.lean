import NativePreferences.XmlFileLoad

/-!
# NativePreferences.XmlFileSave

**What a save without faults does**, run to its end or killed on the way.

Only the main file and the backup matter for the store's document, so both results are
stated about those two: a completed save leaves the new buffer alone in the main file
(`exec_saveXmlFile`), and a save that is killed leaves one of four pictures
(`SaveCrash`).
-/

namespace NativePreferences

open Lib

variable {Doc : Type} {parse : Bytes → Option Doc} {parseErrno : Nat → Prop}
variable {path bundle : String} {w w' : Files} {tr : List (OsEvent Doc)} {buf : Bytes}

/-- The main file and the backup of `w'` when a save of `buf` that started in `w` is
killed. -/
inductive SaveCrash (path : String) (buf : Bytes) (w w' : Files) : Prop
  /-- Before the rename, or with nothing to rename and no descriptor yet. -/
  | untouched (hmain : w' path = w path) (hbak : w' (bakPath path) = w (bakPath path))
  /-- The old main file is the backup. -/
  | renamed (hold : (w path).isSome) (hmain : w' path = none)
      (hbak : w' (bakPath path) = w path)
  /-- A part of the buffer is in the main file. -/
  | writing (part : Bytes) (hpart : part <+: buf) (hmain : w' path = some part)
      (hbak : w' (bakPath path) = (w path).or (w (bakPath path)))
  /-- The backup is gone as well. -/
  | written (hmain : w' path = some buf) (hbak : w' (bakPath path) = none)

/-! ### The parts of a save -/

/-- The write lock touches neither the main file nor the backup. -/
theorem exec_fileLock_write {r : Bool}
    (h : Exec (faultFree parse parseErrno) (fileLock path true) w tr r w') :
    w' path = w path ∧ w' (bakPath path) = w (bakPath path) := by
  obtain rfl : w' = w.touch (lockPath path) := (exec_op_iff.mp h).1
  exact ⟨Files.touch_of_ne w (ne_lockPath path), Files.touch_of_ne w (bakPath_ne_lockPath path)⟩

theorem exec_removeBackupFile (hfits : PathFits path) {r : Unit}
    (h : Exec (faultFree parse parseErrno) (removeBackupFile path) w tr r w') :
    w' = w.set (bakPath path) none := by
  unfold removeBackupFile at h
  obtain ⟨_, ex, _, hex, hrest⟩ := exec_bind_passive (isFileExist_passive _) h
  obtain ⟨rfl, -⟩ := exec_isFileExist hfits.bak hex
  cases hbak : w (bakPath path) with
  | none =>
      rw [hbak] at hrest
      obtain ⟨-, -, rfl⟩ := exec_ret_iff.mp hrest
      rw [Files.set, ← hbak, Function.update_eq_self]
  | some c =>
      rw [hbak] at hrest
      obtain ⟨_, _, w₁, _, hrm, hret, -⟩ := exec_bind_iff.mp hrest
      obtain ⟨-, -, rfl⟩ := exec_ret_iff.mp hret
      exact (exec_op_iff.mp hrm).1.2

theorem crash_removeBackupFile (hfits : PathFits path)
    (h : Crash (faultFree parse parseErrno) halfDone (removeBackupFile path) w w') :
    w' = w ∨ w' = w.set (bakPath path) none := by
  unfold removeBackupFile at h
  rcases crash_bind_passive (isFileExist_passive _) h with rfl | ⟨_, ex, hex, hrest⟩
  · exact .inl rfl
  obtain ⟨rfl, -⟩ := exec_isFileExist hfits.bak hex
  cases hbak : w (bakPath path) with
  | none =>
      rw [hbak] at hrest
      exact .inl (crash_ret_iff.mp hrest)
  | some c =>
      rw [hbak] at hrest
      rcases crash_bind_iff.mp hrest with hop | ⟨_, _, w₁, hrm, hret⟩
      · rcases crash_op_iff.mp hop with rfl | hm | ⟨r, -, rfl⟩
        · exact .inl rfl
        · exact hm.elim
        · exact .inr rfl
      · obtain ⟨⟨-, rfl⟩, -⟩ := exec_op_iff.mp hrm
        exact .inr (crash_ret_iff.mp hret)

/-! ### From the open to the end -/

/-- Opening and writing cannot fail here, so only the success branch runs. -/
theorem exec_writeXmlFile (hfits : PathFits path) {multi r : Bool}
    (h : Exec (faultFree parse parseErrno) (writeXmlFile path bundle buf multi) w tr r w') :
    r = true ∧ w' path = some buf ∧ w' (bakPath path) = none := by
  unfold writeXmlFile at h
  obtain ⟨_, opened, w₁, _, hopen, hrest, -⟩ := exec_bind_iff.mp h
  obtain ⟨⟨rfl, rfl⟩, -⟩ := exec_op_iff.mp hopen
  obtain ⟨_, n, w₂, _, hwrite, hrest, -⟩ := exec_bind_iff.mp hrest
  obtain ⟨⟨rfl, -, rfl⟩, -⟩ := exec_op_iff.mp hwrite
  rw [if_neg (by omega)] at hrest
  obtain ⟨_, _, _, -, hrest⟩ := exec_bind_passive (fsync_passive path) hrest
  obtain ⟨_, _, _, -, hrest⟩ := exec_bind_passive (close_passive path) hrest
  obtain ⟨_, _, w₃, _, hrm, hret, -⟩ := exec_bind_iff.mp hrest
  obtain rfl := exec_removeBackupFile hfits hrm
  obtain ⟨-, rfl, rfl⟩ := exec_ret_iff.mp hret
  exact ⟨rfl, by simp, by simp⟩

theorem crash_writeXmlFile (hfits : PathFits path) {multi : Bool}
    (h : Crash (faultFree parse parseErrno) halfDone (writeXmlFile path bundle buf multi) w w') :
    w' = w ∨
      (∃ part, part <+: buf ∧ w' path = some part ∧ w' (bakPath path) = w (bakPath path)) ∨
      (w' path = some buf ∧ w' (bakPath path) = none) := by
  unfold writeXmlFile at h
  rcases crash_bind_iff.mp h with hop | ⟨_, opened, w₁, hopen, hrest⟩
  · rcases crash_op_iff.mp hop with rfl | hm | ⟨r, -, rfl⟩
    · exact .inl rfl
    · exact hm.elim
    · exact .inr (.inl ⟨[], List.nil_prefix, by simp, by simp⟩)
  obtain ⟨⟨rfl, rfl⟩, -⟩ := exec_op_iff.mp hopen
  rcases crash_bind_iff.mp hrest with hop | ⟨_, n, w₂, hwrite, hrest⟩
  · rcases crash_op_iff.mp hop with rfl | ⟨part, hpart, rfl⟩ | ⟨r, -, -, rfl⟩
    · exact .inr (.inl ⟨[], List.nil_prefix, by simp, by simp⟩)
    · exact .inr (.inl ⟨part, hpart, by simp, by simp⟩)
    · exact .inr (.inl ⟨buf, List.prefix_refl buf, by simp, by simp⟩)
  obtain ⟨⟨rfl, -, rfl⟩, -⟩ := exec_op_iff.mp hwrite
  rw [if_neg (by omega)] at hrest
  -- the buffer is complete; the rest either leaves it so or removes the backup
  rcases crash_bind_passive (fsync_passive path) hrest with rfl | ⟨_, _, -, hrest⟩
  · exact .inr (.inl ⟨buf, List.prefix_refl buf, by simp, by simp⟩)
  rcases crash_bind_passive (close_passive path) hrest with rfl | ⟨_, _, -, hrest⟩
  · exact .inr (.inl ⟨buf, List.prefix_refl buf, by simp, by simp⟩)
  rcases crash_bind_iff.mp hrest with hcrash | ⟨_, _, w₃, hrm, hret⟩
  · rcases crash_removeBackupFile hfits hcrash with rfl | rfl
    · exact .inr (.inl ⟨buf, List.prefix_refl buf, by simp, by simp⟩)
    · exact .inr (.inr ⟨by simp, by simp⟩)
  · obtain rfl := exec_removeBackupFile hfits hrm
    obtain rfl := crash_ret_iff.mp hret
    exact .inr (.inr ⟨by simp, by simp⟩)

/-! ### The save -/

/-- **A save without faults** succeeds, and the new buffer is all there is. -/
theorem exec_saveXmlFile (hfits : PathFits path) {r : Bool}
    (h : Exec (faultFree parse parseErrno) (saveXmlFile path bundle buf) w tr r w') :
    r = true ∧ w' path = some buf ∧ w' (bakPath path) = none := by
  unfold saveXmlFile at h
  obtain ⟨_, multi, w₁, _, hlock, hrest, -⟩ := exec_bind_iff.mp h
  obtain ⟨_, ex, _, hex, hrest⟩ := exec_bind_passive (isFileExist_passive _) hrest
  obtain ⟨rfl, -⟩ := exec_isFileExist hfits.main hex
  cases hmain : w₁ path with
  | none =>
      rw [hmain] at hrest
      exact exec_writeXmlFile hfits hrest
  | some c =>
      rw [hmain] at hrest
      obtain ⟨_, ok, w₂, _, hmv, hrest, -⟩ := exec_bind_iff.mp hrest
      rcases (exec_op_iff.mp hmv).1 with ⟨rfl, -, -⟩ | ⟨-, hnone, -⟩
      · exact exec_writeXmlFile hfits hrest
      · exact absurd (hmain.symm.trans hnone) (by simp)

/-- **A save that is killed** leaves one of the four pictures of `SaveCrash`. -/
theorem crash_saveXmlFile (hfits : PathFits path)
    (h : Crash (faultFree parse parseErrno) halfDone (saveXmlFile path bundle buf) w w') :
    SaveCrash path buf w w' := by
  unfold saveXmlFile at h
  rcases crash_bind_iff.mp h with hop | ⟨_, multi, w₁, hlock, hrest⟩
  · rcases crash_op_iff.mp hop with rfl | hm | ⟨r, hlock⟩
    · exact .untouched rfl rfl
    · exact hm.elim
    · obtain ⟨hmain, hbak⟩ := exec_fileLock_write (exec_op_iff.mpr ⟨hlock, rfl⟩)
      exact .untouched hmain hbak
  obtain ⟨hmain₁, hbak₁⟩ := exec_fileLock_write hlock
  rcases crash_bind_passive (isFileExist_passive _) hrest with rfl | ⟨_, ex, hex, hrest⟩
  · exact .untouched hmain₁ hbak₁
  obtain ⟨rfl, -⟩ := exec_isFileExist hfits.main hex
  cases hmain : w₁ path with
  | none =>
      rw [hmain] at hrest
      have hold : w path = none := hmain₁.symm.trans hmain
      rcases crash_writeXmlFile hfits hrest with rfl | ⟨part, hpart, hm, hb⟩ | ⟨hm, hb⟩
      · exact .untouched hmain₁ hbak₁
      · refine .writing part hpart hm ?_
        rw [hb, hbak₁, hold, Option.none_or]
      · exact .written hm hb
  | some c =>
      rw [hmain] at hrest
      have hold : w path = some c := hmain₁.symm.trans hmain
      have hsome : (w path).isSome := by rw [hold]; rfl
      have hmoved : w₁.move path (bakPath path) (bakPath path) = w path := by
        rw [Files.move_target, hmain₁]
      rcases crash_bind_iff.mp hrest with hop | ⟨_, ok, w₂, hmv, hrest⟩
      · rcases crash_op_iff.mp hop with rfl | hm | ⟨r, ⟨-, -, rfl⟩ | ⟨-, -, rfl⟩⟩
        · exact .untouched hmain₁ hbak₁
        · exact hm.elim
        · exact .renamed hsome (Files.move_source w₁ (ne_bakPath path)) hmoved
        · exact .untouched hmain₁ hbak₁
      rcases (exec_op_iff.mp hmv).1 with ⟨rfl, -, rfl⟩ | ⟨-, hnone, -⟩
      · rcases crash_writeXmlFile hfits hrest with rfl | ⟨part, hpart, hm, hb⟩ | ⟨hm, hb⟩
        · exact .renamed hsome (Files.move_source w₁ (ne_bakPath path)) hmoved
        · refine .writing part hpart hm ?_
          rw [hb]
          exact hmoved.trans (by rw [hold, Option.some_or])
        · exact .written hm hb
      · exact absurd (hmain.symm.trans hnone) (by simp)

/-! ### A save always ends -/

theorem reportSaveFileFault_fits (multi : Bool) :
    (reportSaveFileFault path bundle multi : Os Doc Unit).OnlyCalls OsCall.Fits := by
  have haside : (putAsideMain path : Os Doc Bool).OnlyCalls OsCall.Fits := by
    refine Program.onlyCalls_bind ((isFileExist_passive _).mono OsCall.Passive.fits) ?_
    intro ex
    cases ex with
    | false => trivial
    | true => exact Program.onlyCalls_bind (Program.onlyCalls_op trivial) (fun _ => trivial)
  refine Program.onlyCalls_bind (Program.onlyCalls_op trivial) ?_
  intro e
  refine Program.onlyCalls_bind (lastErrorMessage_passive.mono OsCall.Passive.fits) ?_
  intro msg
  refine Program.onlyCalls_bind haside ?_
  intro rep
  refine Program.onlyCalls_bind (renameFromBackupFile_fits rep) ?_
  intro res
  refine Program.onlyCalls_bind
    ((reportNonCorruptError_passive _ _ _ _).mono OsCall.Passive.fits) ?_
  intro nc
  cases nc with
  | true => trivial
  | false =>
      cases multi with
      | true => exact (reportCrossProcess_passive _ _ _).mono OsCall.Passive.fits
      | false => exact (reportOutcome_passive _ _ _ _ _ _ _).mono OsCall.Passive.fits

theorem writeXmlFile_fits (hbuf : buf.length ≤ intMax) (multi : Bool) :
    (writeXmlFile path bundle buf multi : Os Doc Bool).OnlyCalls OsCall.Fits := by
  refine Program.onlyCalls_bind (Program.onlyCalls_op trivial) ?_
  intro opened
  cases opened with
  | false => exact Program.onlyCalls_bind (reportSaveFileFault_fits multi) (fun _ => trivial)
  | true =>
      refine Program.onlyCalls_bind (Program.onlyCalls_op hbuf) ?_
      intro n
      split
      · refine Program.onlyCalls_bind (reportSaveFileFault_fits multi) ?_
        intro _
        exact Program.onlyCalls_bind (Program.onlyCalls_op trivial) (fun _ => trivial)
      · refine Program.onlyCalls_bind (Program.onlyCalls_op trivial) ?_
        intro _
        refine Program.onlyCalls_bind (Program.onlyCalls_op trivial) ?_
        intro _
        refine Program.onlyCalls_bind ?_ (fun _ => trivial)
        refine Program.onlyCalls_bind ((isFileExist_passive _).mono OsCall.Passive.fits) ?_
        intro ex
        cases ex with
        | false => trivial
        | true => exact Program.onlyCalls_bind (Program.onlyCalls_op trivial) (fun _ => trivial)

theorem saveXmlFile_fits (hbuf : buf.length ≤ intMax) :
    (saveXmlFile path bundle buf : Os Doc Bool).OnlyCalls OsCall.Fits := by
  refine Program.onlyCalls_bind (Program.onlyCalls_op trivial) ?_
  intro multi
  refine Program.onlyCalls_bind ((isFileExist_passive _).mono OsCall.Passive.fits) ?_
  intro ex
  cases ex with
  | false => exact writeXmlFile_fits hbuf multi
  | true =>
      refine Program.onlyCalls_bind (Program.onlyCalls_op trivial) ?_
      intro ok
      cases ok with
      | false => trivial
      | true => exact writeXmlFile_fits hbuf multi

end NativePreferences
