import NativePreferences.XmlFile

/-!
# NativePreferences.XmlFileLoad

**What a load without faults does.** Seen from outside, the main file and the backup
hold at most one document that counts: the one in the main file, or else the one in the
backup (`view`). `xmlReadFile` returns exactly that (`exec_xmlReadFile`), and whatever
it moves or removes on the way, killed at any point, leaves the view as it was
(`crash_xmlReadFile_view`).

The one assumption on the environment is that a parse failure is classified as
corruption: the `errno` that goes with it is not one of the five codes of
`isNonCorrupt`. The assumption on the path is that the three names are ones the
operating system accepts (`PathFits`); `IsFileExist` refuses any longer name.
-/

namespace NativePreferences

open Lib

variable {Doc : Type} {parse : Bytes → Option Doc} {parseErrno : Nat → Prop}
variable {path bundle : String} {w w' : Files} {tr : List (OsEvent Doc)}

/-- The store's longest file name is within `PATH_MAX`. -/
def PathFits (path : String) : Prop := (brokenPath path).utf8ByteSize ≤ pathMax

instance (path : String) : Decidable (PathFits path) :=
  inferInstanceAs (Decidable ((brokenPath path).utf8ByteSize ≤ pathMax))

/-- Every `errno` of a parse failure counts as corruption. -/
def ClassifiedCorrupt (parseErrno : Nat → Prop) : Prop :=
  ∀ e, parseErrno e → isNonCorrupt e = false

/-- The widest such environment: any other value of `errno` may go with a failure. -/
def corruptErrno (e : Nat) : Prop := isNonCorrupt e = false

theorem classifiedCorrupt_corruptErrno : ClassifiedCorrupt corruptErrno := fun _ h => h

theorem PathFits.main (h : PathFits path) : path.utf8ByteSize ≤ pathMax := by
  have h' : (path ++ strBroken).utf8ByteSize ≤ pathMax := h
  rw [String.utf8ByteSize_append] at h'
  omega

theorem PathFits.bak (h : PathFits path) : (bakPath path).utf8ByteSize ≤ pathMax := by
  have h' : (path ++ strBroken).utf8ByteSize ≤ pathMax := h
  have hb : strBackup.utf8ByteSize ≤ strBroken.utf8ByteSize := by decide
  rw [String.utf8ByteSize_append] at h'
  show (path ++ strBackup).utf8ByteSize ≤ pathMax
  rw [String.utf8ByteSize_append]
  omega

/-! ### The document that counts -/

/-- The document of the store on `path`: the main file's, or else the backup's. -/
def view (parse : Bytes → Option Doc) (path : String) (w : Files) : Option Doc :=
  (docAt parse w path).or (docAt parse w (bakPath path))

/-- The view depends on the main file and the backup only. -/
theorem view_congr (hmain : w' path = w path) (hbak : w' (bakPath path) = w (bakPath path)) :
    view parse path w' = view parse path w := by
  simp only [view, docAt, hmain, hbak]

/-- The files after a load has put an unreadable main file aside. -/
def putAside (path : String) (w : Files) : Files :=
  if (w path).isSome then w.move path (brokenPath path) else w

/-- The files after a load has dealt with the backup: moved into place if it holds a
document, removed if not. -/
def restoreBackup (parse : Bytes → Option Doc) (path : String) (w : Files) : Files :=
  if (docAt parse w (bakPath path)).isSome then w.move (bakPath path) path
  else w.set (bakPath path) none

/-- The files after a whole load. -/
def loaded (parse : Bytes → Option Doc) (path : String) (w : Files) : Files :=
  if (docAt parse w path).isSome then w else restoreBackup parse path (putAside path w)

@[simp] theorem putAside_main (path : String) (w : Files) : putAside path w path = none := by
  unfold putAside
  split
  · simp
  · next h => simpa using h

@[simp] theorem putAside_bak (path : String) (w : Files) :
    putAside path w (bakPath path) = w (bakPath path) := by
  unfold putAside
  split <;> simp

/-- Putting an unreadable main file aside does not change the view. -/
theorem view_putAside (h : docAt parse w path = none) :
    view parse path (putAside path w) = view parse path w := by
  have hbak : docAt parse (putAside path w) (bakPath path) = docAt parse w (bakPath path) := by
    simp only [docAt, putAside_bak]
  have hmain : docAt parse (putAside path w) path = none := by
    simp only [docAt, putAside_main, Option.bind_none]
  rw [view, view, h, hmain, hbak]

/-- Neither does moving the backup into the place of a missing main file. -/
theorem view_restoreBackup (h : w path = none) :
    view parse path (restoreBackup parse path w) = view parse path w := by
  unfold restoreBackup
  cases hbak : docAt parse w (bakPath path) with
  | none => simp [view, docAt, h, show (w (bakPath path)).bind parse = none from hbak]
  | some d => simp [view, docAt, h, show (w (bakPath path)).bind parse = some d from hbak]

theorem view_loaded (w : Files) : view parse path (loaded parse path w) = view parse path w := by
  unfold loaded
  cases hmain : docAt parse w path with
  | some d => rfl
  | none => exact (view_restoreBackup (putAside_main path w)).trans (view_putAside hmain)

/-- After a load that found a document, the main file holds it. -/
theorem docAt_loaded {d : Doc} (h : view parse path w = some d) :
    docAt parse (loaded parse path w) path = some d := by
  unfold loaded
  cases hmain : docAt parse w path with
  | some d' =>
      rw [view, hmain] at h
      exact hmain.trans h
  | none =>
      have hbak : docAt parse w (bakPath path) = some d := by
        rw [view, hmain] at h
        exact h
      have hbak' : docAt parse (putAside path w) (bakPath path) = some d := by
        rw [← hbak]
        simp only [docAt, putAside_bak]
      simp only [restoreBackup, hbak', Option.isSome_some, Option.isSome_none, if_true,
        Bool.false_eq_true, if_false]
      rw [← hbak']
      simp only [docAt, Files.move_target]

/-- After a load that found none, the main file and the backup are gone. -/
theorem loaded_of_view_none (h : view parse path w = none) :
    loaded parse path w path = none ∧ loaded parse path w (bakPath path) = none := by
  have hmain : docAt parse w path = none := (Option.or_eq_none_iff.mp h).1
  have hbak : docAt parse w (bakPath path) = none := (Option.or_eq_none_iff.mp h).2
  have hbak' : docAt parse (putAside path w) (bakPath path) = none := by
    rw [← hbak]
    simp only [docAt, putAside_bak]
  simp [loaded, hmain, restoreBackup, hbak']

/-! ### Existence checks and reads -/

theorem exec_isFileExist {p : String} {r : Bool} (hp : p.utf8ByteSize ≤ pathMax)
    (h : Exec (faultFree parse parseErrno) (isFileExist p) w tr r w') :
    r = (w p).isSome ∧ w' = w := by
  have hnot : ¬ pathMax < p.utf8ByteSize := by omega
  rw [isFileExist, if_neg hnot] at h
  exact (exec_op_iff.mp h).1

theorem exec_readFile {p : String} {r : Option Doc × Nat}
    (h : Exec (faultFree parse parseErrno) (readFile p) w tr r w') :
    r.1 = docAt parse w p ∧ (r.1 = none → parseErrno r.2) ∧ w' = w :=
  (exec_op_iff.mp h).1

/-! ### Stepping over passive parts -/

section Passive

variable {α β : Type} {p : Os Doc α} {f : α → Os Doc β}

/-- Run to the end past a passive first part. -/
theorem exec_bind_passive {b : β} (hp : p.OnlyCalls OsCall.Passive)
    (h : Exec (faultFree parse parseErrno) (p >>= f) w tr b w') :
    ∃ tr₁ a tr₂, Exec (faultFree parse parseErrno) p w tr₁ a w ∧
      Exec (faultFree parse parseErrno) (f a) w tr₂ b w' := by
  obtain ⟨tr₁, a, w₁, tr₂, ha, hf, -⟩ := exec_bind_iff.mp h
  obtain rfl := ha.frame faultFree_passive hp
  exact ⟨tr₁, a, tr₂, ha, hf⟩

/-- A crash in a sequence whose first part is passive. -/
theorem crash_bind_passive (hp : p.OnlyCalls OsCall.Passive)
    (h : Crash (faultFree parse parseErrno) halfDone (p >>= f) w w') :
    w' = w ∨ ∃ tr₁ a, Exec (faultFree parse parseErrno) p w tr₁ a w ∧
      Crash (faultFree parse parseErrno) halfDone (f a) w w' := by
  rcases crash_bind_iff.mp h with hc | ⟨tr₁, a, w₁, ha, hf⟩
  · exact .inl (hc.frame faultFree_passive halfDone_passive hp)
  · obtain rfl := ha.frame faultFree_passive hp
    exact .inr ⟨tr₁, a, ha, hf⟩

/-- A crash in a sequence that starts by reading a document. -/
theorem crash_bind_readFile {q : String} {f : Option Doc × Nat → Os Doc β}
    (h : Crash (faultFree parse parseErrno) halfDone (readFile q >>= f) w w') :
    w' = w ∨ ∃ e, (docAt parse w q = none → parseErrno e) ∧
      Crash (faultFree parse parseErrno) halfDone (f (docAt parse w q, e)) w w' := by
  rcases crash_bind_iff.mp h with h | ⟨_, ⟨doc, e⟩, w₁, hread, h⟩
  · rcases crash_op_iff.mp h with rfl | hm | ⟨r, -, -, rfl⟩
    · exact .inl rfl
    · exact hm.elim
    · exact .inl rfl
  · obtain ⟨rfl, he, rfl⟩ := exec_readFile hread
    exact .inr ⟨e, he, h⟩

/-- A run that starts by reading a document. -/
theorem exec_bind_readFile {q : String} {f : Option Doc × Nat → Os Doc β} {b : β}
    (h : Exec (faultFree parse parseErrno) (readFile q >>= f) w tr b w') :
    ∃ e tr₂, (docAt parse w q = none → parseErrno e) ∧
      Exec (faultFree parse parseErrno) (f (docAt parse w q, e)) w tr₂ b w' := by
  obtain ⟨_, ⟨doc, e⟩, w₁, tr₂, hread, h, -⟩ := exec_bind_iff.mp h
  obtain ⟨rfl, he, rfl⟩ := exec_readFile hread
  exact ⟨e, tr₂, he, h⟩

end Passive

/-! ### Recovery -/

/-- `RenameFromBackupFile` without faults. -/
theorem exec_renameFromBackupFile (hfits : PathFits path) {rep : Bool} {res : BackupResult}
    (h : Exec (faultFree parse parseErrno) (renameFromBackupFile path bundle rep) w tr res w') :
    res.restored = (docAt parse w (bakPath path)).isSome ∧ w' = restoreBackup parse path w := by
  unfold renameFromBackupFile at h
  obtain ⟨_, ex, _, hex, h⟩ := exec_bind_passive (isFileExist_passive _) h
  obtain ⟨rfl, -⟩ := exec_isFileExist hfits.bak hex
  cases hbak : w (bakPath path) with
  | none =>
      have hdoc : docAt parse w (bakPath path) = none := by simp [docAt, hbak]
      rw [hbak] at h
      obtain ⟨-, rfl, rfl⟩ := exec_ret_iff.mp h
      refine ⟨by rw [hdoc]; rfl, ?_⟩
      rw [restoreBackup, hdoc, if_neg (by simp), Files.set, ← hbak, Function.update_eq_self]
  | some c =>
      rw [hbak] at h
      obtain ⟨e, _, -, h⟩ := exec_bind_readFile h
      cases hd : docAt parse w (bakPath path) with
      | none =>
          -- unreadable: the message, the removal, the classification
          rw [hd] at h
          obtain ⟨_, _, _, -, h⟩ := exec_bind_passive lastErrorMessage_passive h
          obtain ⟨_, _, w₁, _, hrm, h, -⟩ := exec_bind_iff.mp h
          obtain ⟨⟨-, rfl⟩, -⟩ := exec_op_iff.mp hrm
          obtain ⟨_, nc, _, -, h⟩ := exec_bind_passive (reportNonCorruptError_passive _ _ _ _) h
          rw [restoreBackup, hd, if_neg (by simp)]
          cases nc with
          | true =>
              obtain ⟨-, rfl, rfl⟩ := exec_ret_iff.mp h
              exact ⟨rfl, rfl⟩
          | false =>
              obtain ⟨-, rfl, rfl⟩ := exec_ret_iff.mp h
              exact ⟨rfl, rfl⟩
      | some d =>
          rw [hd] at h
          obtain ⟨_, ok, w₁, _, hmv, h, -⟩ := exec_bind_iff.mp h
          rcases (exec_op_iff.mp hmv).1 with ⟨rfl, -, rfl⟩ | ⟨-, hnone, -⟩
          · obtain ⟨_, _, _, -, h⟩ := exec_bind_passive (fileSize_passive _) h
            obtain ⟨_, _, _, -, h⟩ := exec_bind_passive (report_passive _) h
            obtain ⟨-, rfl, rfl⟩ := exec_ret_iff.mp h
            rw [restoreBackup, hd, if_pos (by simp)]
            exact ⟨rfl, rfl⟩
          · exact absurd (hbak.symm.trans hnone) (by simp)

/-- Killed inside `RenameFromBackupFile`, the files are as before or as after it. -/
theorem crash_renameFromBackupFile (hfits : PathFits path) {rep : Bool}
    (h : Crash (faultFree parse parseErrno) halfDone (renameFromBackupFile path bundle rep)
      w w') :
    w' = w ∨ w' = restoreBackup parse path w := by
  unfold renameFromBackupFile at h
  rcases crash_bind_passive (isFileExist_passive _) h with rfl | ⟨_, ex, hex, h⟩
  · exact .inl rfl
  obtain ⟨rfl, -⟩ := exec_isFileExist hfits.bak hex
  cases hbak : w (bakPath path) with
  | none =>
      rw [hbak] at h
      exact .inl (crash_ret_iff.mp h)
  | some c =>
      rw [hbak] at h
      rcases crash_bind_readFile h with rfl | ⟨e, -, h⟩
      · exact .inl rfl
      cases hd : docAt parse w (bakPath path) with
      | none =>
          rw [hd] at h
          rw [restoreBackup, hd, if_neg (by simp)]
          rcases crash_bind_passive lastErrorMessage_passive h with rfl | ⟨_, _, -, h⟩
          · exact .inl rfl
          rcases crash_bind_iff.mp h with h | ⟨_, _, w₁, hrm, h⟩
          · rcases crash_op_iff.mp h with rfl | hm | ⟨r, -, rfl⟩
            · exact .inl rfl
            · exact hm.elim
            · exact .inr rfl
          obtain ⟨⟨-, rfl⟩, -⟩ := exec_op_iff.mp hrm
          rcases crash_bind_passive (reportNonCorruptError_passive _ _ _ _) h with
            rfl | ⟨_, nc, -, h⟩
          · exact .inr rfl
          cases nc with
          | true => exact .inr (crash_ret_iff.mp h)
          | false => exact .inr (crash_ret_iff.mp h)
      | some d =>
          rw [hd] at h
          rw [restoreBackup, hd, if_pos (by simp)]
          rcases crash_bind_iff.mp h with h | ⟨_, ok, w₁, hmv, h⟩
          · rcases crash_op_iff.mp h with rfl | hm | ⟨r, ⟨-, -, rfl⟩ | ⟨-, -, rfl⟩⟩
            · exact .inl rfl
            · exact hm.elim
            · exact .inr rfl
            · exact .inl rfl
          rcases (exec_op_iff.mp hmv).1 with ⟨rfl, -, rfl⟩ | ⟨-, hnone, -⟩
          · rcases crash_bind_passive (fileSize_passive _) h with rfl | ⟨_, _, -, h⟩
            · exact .inr rfl
            rcases crash_bind_passive (report_passive _) h with rfl | ⟨_, _, -, h⟩
            · exact .inr rfl
            exact .inr (crash_ret_iff.mp h)
          · exact absurd (hbak.symm.trans hnone) (by simp)

/-! ### The load -/

theorem exec_readRestored {msg : String} {restored : Bool} {r : Option Doc × String}
    (h : Exec (faultFree parse parseErrno) (readRestored path msg restored) w tr r w') :
    r.1 = (if restored then docAt parse w path else none) ∧ w' = w := by
  unfold readRestored at h
  cases restored with
  | false =>
      obtain ⟨-, rfl, rfl⟩ := exec_ret_iff.mp h
      exact ⟨rfl, rfl⟩
  | true =>
      obtain ⟨e, _, -, h⟩ := exec_bind_readFile h
      obtain ⟨_, _, _, -, h⟩ := exec_bind_passive lastErrorMessage_passive h
      obtain ⟨-, rfl, rfl⟩ := exec_ret_iff.mp h
      exact ⟨rfl, rfl⟩

theorem crash_readRestored {msg : String} {restored : Bool}
    (h : Crash (faultFree parse parseErrno) halfDone (readRestored path msg restored) w w') :
    w' = w := by
  unfold readRestored at h
  cases restored with
  | false => exact crash_ret_iff.mp h
  | true =>
      rcases crash_bind_readFile h with rfl | ⟨e, -, h⟩
      · rfl
      rcases crash_bind_passive lastErrorMessage_passive h with rfl | ⟨_, _, -, h⟩
      · rfl
      exact crash_ret_iff.mp h

/-- The second half of a load, without faults. -/
theorem exec_recoverFromBackup (hfits : PathFits path) {msg : String} {e : Nat}
    {rep multi : Bool} {r : Option Doc}
    (h : Exec (faultFree parse parseErrno) (recoverFromBackup path bundle msg e rep multi)
      w tr r w') :
    r = docAt parse w (bakPath path) ∧ w' = restoreBackup parse path w := by
  unfold recoverFromBackup at h
  obtain ⟨_, res, w₁, _, hres, h, -⟩ := exec_bind_iff.mp h
  obtain ⟨hrestored, rfl⟩ := exec_renameFromBackupFile hfits hres
  obtain ⟨_, ⟨doc, msg'⟩, w₂, _, hread, h, -⟩ := exec_bind_iff.mp h
  obtain ⟨hval, rfl⟩ := exec_readRestored hread
  have hdoc : doc = docAt parse w (bakPath path) := by
    cases hd : docAt parse w (bakPath path) with
    | none =>
        rw [hrestored, hd] at hval
        exact hval
    | some d =>
        have hmain : docAt parse (restoreBackup parse path w) path = some d := by
          rw [restoreBackup, hd, if_pos (by simp), ← hd]
          simp only [docAt, Files.move_target]
        rw [hrestored, hd, hmain] at hval
        exact hval
  rw [hdoc] at h
  cases multi with
  | true =>
      obtain ⟨_, _, _, -, h⟩ := exec_bind_passive (reportCrossProcess_passive _ _ _) h
      exact (exec_ret_iff.mp h).2
  | false =>
      obtain ⟨_, _, _, -, h⟩ := exec_bind_passive (reportOutcome_passive _ _ _ _ _ _ _) h
      exact (exec_ret_iff.mp h).2

theorem crash_recoverFromBackup (hfits : PathFits path) {msg : String} {e : Nat}
    {rep multi : Bool}
    (h : Crash (faultFree parse parseErrno) halfDone
      (recoverFromBackup path bundle msg e rep multi) w w') :
    w' = w ∨ w' = restoreBackup parse path w := by
  unfold recoverFromBackup at h
  rcases crash_bind_iff.mp h with h | ⟨_, res, w₁, hres, h⟩
  · exact crash_renameFromBackupFile hfits h
  obtain ⟨-, rfl⟩ := exec_renameFromBackupFile hfits hres
  refine .inr ?_
  rcases crash_bind_iff.mp h with h | ⟨_, ⟨doc, msg'⟩, w₂, hdoc, h⟩
  · exact crash_readRestored h
  obtain ⟨-, rfl⟩ := exec_readRestored hdoc
  cases multi with
  | true =>
      rcases crash_bind_passive (reportCrossProcess_passive _ _ _) h with rfl | ⟨_, _, -, h⟩
      · rfl
      exact crash_ret_iff.mp h
  | false =>
      rcases crash_bind_passive (reportOutcome_passive _ _ _ _ _ _ _) h with rfl | ⟨_, _, -, h⟩
      · rfl
      exact crash_ret_iff.mp h

/-- **A load without faults returns the view** and leaves the files as `loaded` says. -/
theorem exec_xmlReadFile (hfits : PathFits path) (hclass : ClassifiedCorrupt parseErrno)
    {r : Option Doc}
    (h : Exec (faultFree parse parseErrno) (xmlReadFile path bundle) w tr r w') :
    r = view parse path w ∧ w' = loaded parse path w := by
  unfold xmlReadFile at h
  obtain ⟨_, multi, w₁, _, hlock, hrest, -⟩ := exec_bind_iff.mp h
  obtain rfl : w₁ = w := (exec_op_iff.mp hlock).1
  obtain ⟨_, ex, _, hex, h⟩ := exec_bind_passive (isFileExist_passive _) hrest
  obtain ⟨rfl, -⟩ := exec_isFileExist hfits.main hex
  cases hmain : w₁ path with
  | none =>
      rw [hmain] at h
      have hdoc : docAt parse w₁ path = none := by simp [docAt, hmain]
      obtain ⟨rfl, rfl⟩ := exec_recoverFromBackup hfits h
      refine ⟨by rw [view, hdoc, Option.none_or], ?_⟩
      rw [loaded, hdoc, if_neg (by simp), putAside, hmain, if_neg (by simp)]
  | some c =>
      rw [hmain] at h
      obtain ⟨e, _, he, h⟩ := exec_bind_readFile h
      cases hdoc : docAt parse w₁ path with
      | some d =>
          rw [hdoc] at h
          obtain ⟨-, rfl, rfl⟩ := exec_ret_iff.mp h
          exact ⟨by rw [view, hdoc]; rfl, by rw [loaded, hdoc]; rfl⟩
      | none =>
          rw [hdoc] at h
          obtain ⟨_, msg, _, -, h⟩ := exec_bind_passive lastErrorMessage_passive h
          obtain ⟨_, nc, _, hnc, h⟩ :=
            exec_bind_passive (reportNonCorruptError_passive _ _ _ _) h
          obtain rfl : nc = false :=
            (exec_reportNonCorruptError hnc).trans (hclass e (he hdoc))
          obtain ⟨_, ok, w₂, _, hmv, h, -⟩ := exec_bind_iff.mp h
          rcases (exec_op_iff.mp hmv).1 with ⟨rfl, -, rfl⟩ | ⟨-, hnone, -⟩
          · have haside : w₁.move path (brokenPath path) = putAside path w₁ := by
              rw [putAside, hmain, if_pos (by simp)]
            have hbak : docAt parse (putAside path w₁) (bakPath path) =
                docAt parse w₁ (bakPath path) := by simp only [docAt, putAside_bak]
            obtain ⟨rfl, rfl⟩ := exec_recoverFromBackup hfits h
            rw [view, loaded, hdoc, if_neg (by simp), Option.none_or, ← hbak, ← haside]
            exact ⟨rfl, rfl⟩
          · exact absurd (hmain.symm.trans hnone) (by simp)

/-- Killed at any point of a load, the files are as before, as after putting the main
file aside, or as after the load. -/
theorem crash_xmlReadFile (hfits : PathFits path) (hclass : ClassifiedCorrupt parseErrno)
    (h : Crash (faultFree parse parseErrno) halfDone (xmlReadFile path bundle) w w') :
    w' = w ∨ docAt parse w path = none ∧
      (w' = putAside path w ∨ w' = loaded parse path w) := by
  unfold xmlReadFile at h
  rcases crash_bind_iff.mp h with h | ⟨_, multi, w₁, hlock, hrest⟩
  · rcases crash_op_iff.mp h with rfl | hm | ⟨r, rfl⟩
    · exact .inl rfl
    · exact hm.elim
    · exact .inl rfl
  obtain rfl : w₁ = w := (exec_op_iff.mp hlock).1
  rcases crash_bind_passive (isFileExist_passive _) hrest with rfl | ⟨_, ex, hex, h⟩
  · exact .inl rfl
  obtain ⟨rfl, -⟩ := exec_isFileExist hfits.main hex
  cases hmain : w₁ path with
  | none =>
      rw [hmain] at h
      have hdoc : docAt parse w₁ path = none := by simp [docAt, hmain]
      have haside : putAside path w₁ = w₁ := by rw [putAside, hmain, if_neg (by simp)]
      rcases crash_recoverFromBackup hfits h with rfl | rfl
      · exact .inl rfl
      · refine .inr ⟨hdoc, .inr ?_⟩
        rw [loaded, hdoc, if_neg (by simp), haside]
  | some c =>
      rw [hmain] at h
      rcases crash_bind_readFile h with rfl | ⟨e, he, h⟩
      · exact .inl rfl
      cases hdoc : docAt parse w₁ path with
      | some d =>
          rw [hdoc] at h
          exact .inl (crash_ret_iff.mp h)
      | none =>
          rw [hdoc] at h
          have haside : w₁.move path (brokenPath path) = putAside path w₁ := by
            rw [putAside, hmain, if_pos (by simp)]
          rcases crash_bind_passive lastErrorMessage_passive h with rfl | ⟨_, msg, -, h⟩
          · exact .inl rfl
          rcases crash_bind_passive (reportNonCorruptError_passive _ _ _ _) h with
            rfl | ⟨_, nc, hnc, h⟩
          · exact .inl rfl
          obtain rfl : nc = false :=
            (exec_reportNonCorruptError hnc).trans (hclass e (he hdoc))
          rcases crash_bind_iff.mp h with h | ⟨_, ok, w₂, hmv, h⟩
          · rcases crash_op_iff.mp h with rfl | hm | ⟨r, ⟨-, -, rfl⟩ | ⟨-, -, rfl⟩⟩
            · exact .inl rfl
            · exact hm.elim
            · exact .inr ⟨rfl, .inl haside⟩
            · exact .inl rfl
          rcases (exec_op_iff.mp hmv).1 with ⟨rfl, -, rfl⟩ | ⟨-, hnone, -⟩
          · refine .inr ⟨rfl, ?_⟩
            rcases crash_recoverFromBackup hfits h with rfl | rfl
            · exact .inl haside
            · refine .inr ?_
              rw [loaded, hdoc, if_neg (by simp), ← haside]
          · exact absurd (hmain.symm.trans hnone) (by simp)

/-- **No crash during a load changes the view.** -/
theorem crash_xmlReadFile_view (hfits : PathFits path) (hclass : ClassifiedCorrupt parseErrno)
    (h : Crash (faultFree parse parseErrno) halfDone (xmlReadFile path bundle) w w') :
    view parse path w' = view parse path w := by
  rcases crash_xmlReadFile hfits hclass h with rfl | ⟨hdoc, rfl | rfl⟩
  · rfl
  · exact view_putAside hdoc
  · exact view_loaded w

/-! ### A load always ends -/

theorem renameFromBackupFile_fits (rep : Bool) :
    (renameFromBackupFile path bundle rep : Os Doc BackupResult).OnlyCalls OsCall.Fits := by
  refine Program.onlyCalls_bind ((isFileExist_passive _).mono OsCall.Passive.fits) ?_
  intro ex
  cases ex with
  | false => trivial
  | true =>
      refine Program.onlyCalls_bind (Program.onlyCalls_op trivial) ?_
      intro ⟨doc, e⟩
      cases doc with
      | none =>
          refine Program.onlyCalls_bind (lastErrorMessage_passive.mono OsCall.Passive.fits) ?_
          intro _
          refine Program.onlyCalls_bind (Program.onlyCalls_op trivial) ?_
          intro _
          refine Program.onlyCalls_bind
            ((reportNonCorruptError_passive _ _ _ _).mono OsCall.Passive.fits) ?_
          intro nc
          cases nc with
          | false => trivial
          | true => trivial
      | some d =>
          refine Program.onlyCalls_bind (Program.onlyCalls_op trivial) ?_
          intro ok
          cases ok with
          | false => trivial
          | true =>
              refine Program.onlyCalls_bind (Program.onlyCalls_op trivial) ?_
              intro _
              exact Program.onlyCalls_bind (Program.onlyCalls_op trivial) (fun _ => trivial)

theorem recoverFromBackup_fits (msg : String) (e : Nat) (rep multi : Bool) :
    (recoverFromBackup path bundle msg e rep multi : Os Doc (Option Doc)).OnlyCalls
      OsCall.Fits := by
  refine Program.onlyCalls_bind (renameFromBackupFile_fits rep) ?_
  intro res
  have hread : (readRestored path msg res.restored : Os Doc _).OnlyCalls OsCall.Fits := by
    unfold readRestored
    split
    · refine Program.onlyCalls_bind (Program.onlyCalls_op trivial) ?_
      intro ⟨doc, e⟩
      exact Program.onlyCalls_bind (lastErrorMessage_passive.mono OsCall.Passive.fits)
        (fun _ => trivial)
    · trivial
  refine Program.onlyCalls_bind hread ?_
  intro ⟨doc, msg'⟩
  cases multi with
  | true =>
      exact Program.onlyCalls_bind
        ((reportCrossProcess_passive _ _ _).mono OsCall.Passive.fits) (fun _ => trivial)
  | false =>
      exact Program.onlyCalls_bind
        ((reportOutcome_passive _ _ _ _ _ _ _).mono OsCall.Passive.fits) (fun _ => trivial)

theorem xmlReadFile_fits :
    (xmlReadFile path bundle : Os Doc (Option Doc)).OnlyCalls OsCall.Fits := by
  refine Program.onlyCalls_bind (Program.onlyCalls_op trivial) ?_
  intro multi
  refine Program.onlyCalls_bind ((isFileExist_passive _).mono OsCall.Passive.fits) ?_
  intro ex
  cases ex with
  | false => exact recoverFromBackup_fits _ _ _ _
  | true =>
      refine Program.onlyCalls_bind (Program.onlyCalls_op trivial) ?_
      intro ⟨doc, e⟩
      cases doc with
      | some d => trivial
      | none =>
          refine Program.onlyCalls_bind (lastErrorMessage_passive.mono OsCall.Passive.fits) ?_
          intro _
          refine Program.onlyCalls_bind
            ((reportNonCorruptError_passive _ _ _ _).mono OsCall.Passive.fits) ?_
          intro nc
          cases nc with
          | true => trivial
          | false =>
              refine Program.onlyCalls_bind (Program.onlyCalls_op trivial) ?_
              intro ok
              cases ok with
              | false => trivial
              | true => exact recoverFromBackup_fits _ _ _ _

/-- Every load runs to its end. -/
theorem exists_exec_xmlReadFile (w : Files) :
    ∃ tr r w', Exec (faultFree parse corruptErrno) (xmlReadFile path bundle) w tr r w' :=
  ⟨_, _, _, exec_interp (faultFree_answerFaultFree (rfl : isNonCorrupt 0 = false))
    xmlReadFile_fits w⟩

end NativePreferences
