import NativePreferences.XmlFileLoad

/-!
# NativePreferences.XmlFileFaults

**Loads when calls fail.** In the environment `faulty` a run is determined by the answers
it gets, so each function below has a table of its runs: the calls that matter (`active`)
with their answers, and the files they leave. What a load can destroy is then settled
line by line.

It goes back to one line of the table of `renameFromBackupFile`: a backup that cannot be
read is removed, whatever the reason it could not be read (`BackupLost`).
-/

namespace NativePreferences

open Lib

variable {Doc : Type} {parse : Bytes → Option Doc} {statFails : Prop}
variable {path bundle : String} {w w' : Files} {tr : List (OsEvent Doc)}

/-! ### Taking faulty runs apart -/

section Faulty

variable {α β : Type} {p : Os Doc α} {f : α → Os Doc β} {b : β}

/-- Past a passive first part. -/
theorem exec_bind_passive_faulty (hp : p.OnlyCalls OsCall.Passive)
    (h : Exec (faulty parse statFails) (p >>= f) w tr b w') :
    ∃ tr₁ a tr₂, Exec (faulty parse statFails) p w tr₁ a w ∧
      Exec (faulty parse statFails) (f a) w tr₂ b w' ∧ active tr = active tr₂ := by
  obtain ⟨tr₁, a, w₁, tr₂, ha, hf, rfl⟩ := exec_bind_iff.mp h
  have hactive : active (tr₁ ++ tr₂) = active tr₂ := by
    rw [active_append, active_of_passive (ha.onlyCalls hp), List.nil_append]
  obtain rfl := ha.frame faulty_passive hp
  exact ⟨tr₁, a, tr₂, ha, hf, hactive⟩

/-- Past a call that is not passive. -/
theorem exec_bind_active {c : OsCall} {f : c.Ret Doc → Os Doc β} (hc : ¬ c.Passive)
    (h : Exec (faulty parse statFails) (Program.op c >>= f) w tr b w') :
    ∃ r w₁ tr₂, faulty parse statFails c w r w₁ ∧
      Exec (faulty parse statFails) (f r) w₁ tr₂ b w' ∧ active tr = ⟨c, r⟩ :: active tr₂ := by
  obtain ⟨tr₁, r, w₁, tr₂, hop, hf, rfl⟩ := exec_bind_iff.mp h
  obtain ⟨hs, rfl⟩ := exec_op_iff.mp hop
  refine ⟨r, w₁, tr₂, hs, hf, ?_⟩
  rw [active_append, active_singleton hc]
  rfl

/-- A run that is passive to its end. -/
theorem exec_passive_faulty (hp : p.OnlyCalls OsCall.Passive) {a : α}
    (h : Exec (faulty parse statFails) p w tr a w') : active tr = [] ∧ w' = w :=
  ⟨active_of_passive (h.onlyCalls hp), h.frame faulty_passive hp⟩

theorem exec_ret_faulty {a a' : α}
    (h : Exec (faulty parse statFails) (.ret a) w tr a' w') :
    a' = a ∧ active tr = [] ∧ w' = w := by
  obtain ⟨rfl, rfl, rfl⟩ := exec_ret_iff.mp h
  exact ⟨rfl, rfl, rfl⟩

/-- A file that is reported to exist does exist. -/
theorem exec_isFileExist_faulty {q : String}
    (h : Exec (faulty parse statFails) (isFileExist q) w tr true w') : (w q).isSome := by
  unfold isFileExist at h
  split at h
  · exact absurd (exec_ret_iff.mp h).2.1 (by simp)
  · rcases (exec_op_iff.mp h).1.1 with heq | ⟨-, hfalse⟩
    · exact heq.symm
    · exact absurd hfalse (by simp)

/-- With an honest `stat`, and only then, the converse holds too. -/
theorem exec_isFileExist_honest {q : String} {r : Bool} (hq : q.utf8ByteSize ≤ pathMax)
    (h : Exec (faulty parse False) (isFileExist q) w tr r w') : r = (w q).isSome := by
  have hnot : ¬ pathMax < q.utf8ByteSize := by omega
  rw [isFileExist, if_neg hnot] at h
  rcases (exec_op_iff.mp h).1.1 with heq | ⟨hno, -⟩
  · exact heq
  · exact hno.elim

end Faulty

/-! ### The backup -/

/-- The runs of `RenameFromBackupFile` on the files `w`: the calls that matter, whether
the backup was restored, and the files left. -/
inductive RestoreRun (parse : Bytes → Option Doc) (path : String) (w : Files) :
    List (OsEvent Doc) → Bool → Files → Prop
  /-- No backup was seen. -/
  | absent : RestoreRun parse path w [] false w
  /-- The read failed, and the removal with it. -/
  | kept (e : Nat) :
      RestoreRun parse path w
        [⟨.xmlReadFile (bakPath path), (none, e)⟩, ⟨.remove (bakPath path), false⟩] false w
  /-- The read failed, for whatever reason, and the backup is gone. -/
  | removed (e : Nat) (hbak : (w (bakPath path)).isSome) :
      RestoreRun parse path w
        [⟨.xmlReadFile (bakPath path), (none, e)⟩, ⟨.remove (bakPath path), true⟩] false
        (w.set (bakPath path) none)
  | stuck (d : Doc) (e : Nat) (hdoc : docAt parse w (bakPath path) = some d) :
      RestoreRun parse path w
        [⟨.xmlReadFile (bakPath path), (some d, e)⟩, ⟨.rename (bakPath path) path, false⟩] false w
  | restored (d : Doc) (e : Nat) (hdoc : docAt parse w (bakPath path) = some d) :
      RestoreRun parse path w
        [⟨.xmlReadFile (bakPath path), (some d, e)⟩, ⟨.rename (bakPath path) path, true⟩] true
        (w.move (bakPath path) path)

theorem exec_renameFromBackupFile_faulty {rep : Bool} {res : BackupResult}
    (h : Exec (faulty parse statFails) (renameFromBackupFile path bundle rep) w tr res w') :
    RestoreRun parse path w (active tr) res.restored w' := by
  unfold renameFromBackupFile at h
  obtain ⟨_, ex, _, hex, hrest, hact⟩ := exec_bind_passive_faulty (isFileExist_passive _) h
  rw [hact]
  cases ex with
  | false =>
      obtain ⟨rfl, hact, rfl⟩ := exec_ret_faulty hrest
      rw [hact]
      exact .absent
  | true =>
      have hbak : (w (bakPath path)).isSome := exec_isFileExist_faulty hex
      obtain ⟨⟨doc, e⟩, w₁, _, ⟨hread, hw⟩, hrest, hact⟩ := exec_bind_active id hrest
      rw [hw] at hrest
      rw [hact]
      cases doc with
      | none =>
          obtain ⟨_, _, _, -, hrest, hact⟩ :=
            exec_bind_passive_faulty lastErrorMessage_passive hrest
          rw [hact]
          obtain ⟨ok, w₂, _, hrm, hrest, hact⟩ := exec_bind_active id hrest
          rw [hact]
          obtain ⟨_, nc, tr₃, -, hrest, hact⟩ :=
            exec_bind_passive_faulty (reportNonCorruptError_passive _ _ _ _) hrest
          rw [hact]
          -- whatever the classification says, the result is the same
          obtain ⟨hres, hact, hw'⟩ : res.restored = false ∧ active tr₃ = [] ∧ w' = w₂ := by
            cases nc with
            | true =>
                obtain ⟨rfl, hact, rfl⟩ := exec_ret_faulty hrest
                exact ⟨rfl, hact, rfl⟩
            | false =>
                obtain ⟨rfl, hact, rfl⟩ := exec_ret_faulty hrest
                exact ⟨rfl, hact, rfl⟩
          rw [hact, hres, hw']
          rcases hrm with ⟨rfl, -, rfl⟩ | ⟨rfl, rfl⟩
          · exact .removed e hbak
          · exact .kept e
      | some d =>
          have hdoc : docAt parse w (bakPath path) = some d := by
            rcases hread with hnone | heq
            · exact absurd hnone (by simp)
            · exact heq.symm
          obtain ⟨ok, w₂, _, hmv, hrest, hact⟩ := exec_bind_active id hrest
          rw [hact]
          rcases hmv with ⟨rfl, -, hw₂⟩ | ⟨rfl, hw₂⟩
          · obtain ⟨_, _, _, -, hrest, hact⟩ :=
              exec_bind_passive_faulty (fileSize_passive _) hrest
            rw [hact]
            obtain ⟨_, _, _, -, hrest, hact⟩ := exec_bind_passive_faulty (report_passive _) hrest
            rw [hact]
            obtain ⟨rfl, hact, rfl⟩ := exec_ret_faulty hrest
            rw [hact, hw₂]
            exact .restored d e hdoc
          · obtain ⟨rfl, hact, rfl⟩ := exec_ret_faulty hrest
            rw [hact, hw₂]
            exact .stuck d e hdoc

/-- A read of the backup failed and the backup was removed. -/
def BackupLost (path : String) (tr : List (OsEvent Doc)) : Prop :=
  (∃ e, ⟨.xmlReadFile (bakPath path), (none, e)⟩ ∈ tr) ∧ ⟨.remove (bakPath path), true⟩ ∈ tr

theorem backupLost_active : BackupLost path (active tr) ↔ BackupLost path tr := by
  have hrm : ¬ OsCall.Passive (.remove (bakPath path)) := id
  have hread : ¬ OsCall.Passive (.xmlReadFile (bakPath path)) := id
  simp only [BackupLost, mem_active hrm, mem_active hread]

/-- A call that plays no part in the loss. -/
def Elsewhere (path : String) (c : OsCall) : Prop :=
  c ≠ .xmlReadFile (bakPath path) ∧ c ≠ .remove (bakPath path)

theorem backupLost_append_left {evs evs' : List (OsEvent Doc)}
    (h : ∀ ev ∈ evs, Elsewhere path ev.1) :
    BackupLost path (evs ++ evs') ↔ BackupLost path evs' := by
  have hread : ∀ e, (⟨.xmlReadFile (bakPath path), (none, e)⟩ : OsEvent Doc) ∉ evs :=
    fun e hmem => (h _ hmem).1 rfl
  have hrm : (⟨.remove (bakPath path), true⟩ : OsEvent Doc) ∉ evs :=
    fun hmem => (h _ hmem).2 rfl
  simp only [BackupLost, List.mem_append, hread, hrm, false_or]

theorem backupLost_append_right {evs evs' : List (OsEvent Doc)}
    (h : ∀ ev ∈ evs', Elsewhere path ev.1) :
    BackupLost path (evs ++ evs') ↔ BackupLost path evs := by
  have hcomm : BackupLost path (evs ++ evs') ↔ BackupLost path (evs' ++ evs) := by
    simp only [BackupLost, List.mem_append, or_comm]
  exact hcomm.trans (backupLost_append_left h)

/-- What a run of the table does, by whether it loses the backup. -/
theorem RestoreRun.lost_or {evs : List (OsEvent Doc)} {restored : Bool}
    (h : RestoreRun parse path w evs restored w') :
    (BackupLost path evs ∧ w' = w.set (bakPath path) none) ∨
      (¬ BackupLost path evs ∧ (w' = w ∨
        (docAt parse w (bakPath path)).isSome ∧ w' = w.move (bakPath path) path)) := by
  cases h with
  | removed e hbak => exact .inl ⟨by simp [BackupLost], rfl⟩
  | absent => exact .inr ⟨by simp [BackupLost], .inl rfl⟩
  | kept e => exact .inr ⟨by simp [BackupLost], .inl rfl⟩
  | stuck d e hdoc => exact .inr ⟨by simp [BackupLost], .inl rfl⟩
  | restored d e hdoc =>
      exact .inr ⟨by simp [BackupLost], .inr ⟨by rw [hdoc]; rfl, rfl⟩⟩

/-! ### Loads -/

/-- The runs of `XmlReadFile` on the files `w`, with the lock left out: the calls that
matter and the files left. -/
inductive LoadRun (parse : Bytes → Option Doc) (path : String) (w : Files) :
    List (OsEvent Doc) → Files → Prop
  /-- The main file was read, or could not be read for a reason that is not corruption. -/
  | read (r : Option Doc × Nat) : LoadRun parse path w [⟨.xmlReadFile path, r⟩] w
  /-- An unreadable main file could not be put aside. -/
  | stuck (e : Nat) :
      LoadRun parse path w
        [⟨.xmlReadFile path, (none, e)⟩, ⟨.rename path (brokenPath path), false⟩] w
  /-- An unreadable main file was put aside, and then came the backup. -/
  | aside (e : Nat) {evs evs' : List (OsEvent Doc)} {restored : Bool} {w' : Files}
      (h : RestoreRun parse path (w.move path (brokenPath path)) evs restored w')
      (hevs' : ∀ ev ∈ evs', ∃ r, ev = ⟨.xmlReadFile path, r⟩) :
      LoadRun parse path w
        (⟨.xmlReadFile path, (none, e)⟩ :: ⟨.rename path (brokenPath path), true⟩ ::
          (evs ++ evs')) w'
  /-- No main file was seen, only the backup counts. -/
  | absent {evs evs' : List (OsEvent Doc)} {restored : Bool} {w' : Files}
      (h : RestoreRun parse path w evs restored w')
      (hevs' : ∀ ev ∈ evs', ∃ r, ev = ⟨.xmlReadFile path, r⟩) :
      LoadRun parse path w (evs ++ evs') w'

theorem exec_readRestored_faulty {msg : String} {restored : Bool} {r : Option Doc × String}
    (h : Exec (faulty parse statFails) (readRestored path msg restored) w tr r w') :
    (∀ ev ∈ active tr, ∃ r, ev = ⟨.xmlReadFile path, r⟩) ∧ w' = w := by
  unfold readRestored at h
  cases restored with
  | false =>
      obtain ⟨-, hact, rfl⟩ := exec_ret_faulty h
      rw [hact]
      exact ⟨by simp, rfl⟩
  | true =>
      obtain ⟨⟨doc, e⟩, w₁, _, ⟨-, hw⟩, hrest, hact⟩ := exec_bind_active id h
      rw [hact]
      obtain ⟨_, _, _, -, hrest, hact⟩ := exec_bind_passive_faulty lastErrorMessage_passive hrest
      rw [hact]
      obtain ⟨-, hact, rfl⟩ := exec_ret_faulty hrest
      rw [hact]
      refine ⟨?_, hw⟩
      intro ev hev
      exact ⟨_, List.mem_singleton.mp hev⟩

theorem exec_recoverFromBackup_faulty {msg : String} {e : Nat} {rep multi : Bool}
    {r : Option Doc}
    (h : Exec (faulty parse statFails) (recoverFromBackup path bundle msg e rep multi)
      w tr r w') :
    ∃ evs evs' restored, active tr = evs ++ evs' ∧ RestoreRun parse path w evs restored w' ∧
      ∀ ev ∈ evs', ∃ r, ev = ⟨.xmlReadFile path, r⟩ := by
  unfold recoverFromBackup at h
  obtain ⟨tr₁, res, w₁, _, hres, hrest, rfl⟩ := exec_bind_iff.mp h
  have hrun := exec_renameFromBackupFile_faulty hres
  obtain ⟨tr₂, ⟨doc, msg'⟩, w₂, tr₃, hread, hreport, rfl⟩ := exec_bind_iff.mp hrest
  obtain ⟨hevs, hw₂⟩ := exec_readRestored_faulty hread
  have hlast : active tr₃ = [] ∧ w' = w₂ := by
    cases multi with
    | true =>
        refine exec_passive_faulty
          (Program.onlyCalls_bind (reportCrossProcess_passive _ _ _) ?_) hreport
        exact fun _ => trivial
    | false =>
        refine exec_passive_faulty
          (Program.onlyCalls_bind (reportOutcome_passive _ _ _ _ _ _ _) ?_) hreport
        exact fun _ => trivial
  refine ⟨active tr₁, active tr₂, res.restored, ?_, ?_, hevs⟩
  · simp [hlast.1]
  · rw [hlast.2, hw₂]
    exact hrun

/-- Every load is in the table. -/
theorem exec_xmlReadFile_faulty {r : Option Doc}
    (h : Exec (faulty parse statFails) (xmlReadFile path bundle) w tr r w') :
    ∃ multi evs, active tr = ⟨.lock path false, multi⟩ :: evs ∧ LoadRun parse path w evs w' := by
  unfold xmlReadFile at h
  obtain ⟨multi, w₁, tr₁, hw₁, hrest, hact⟩ := exec_bind_active id h
  have hw₁ : w₁ = w := hw₁
  rw [hw₁] at hrest
  refine ⟨multi, active tr₁, hact, ?_⟩
  obtain ⟨_, ex, _, hex, hrest, hact⟩ := exec_bind_passive_faulty (isFileExist_passive _) hrest
  rw [hact]
  cases ex with
  | false =>
      obtain ⟨evs, evs', restored, hact, hrun, hevs'⟩ := exec_recoverFromBackup_faulty hrest
      rw [hact]
      exact .absent hrun hevs'
  | true =>
      obtain ⟨⟨doc, e⟩, w₂, _, ⟨-, hw₂⟩, hrest, hact⟩ := exec_bind_active id hrest
      rw [hact]
      rw [hw₂] at hrest
      cases doc with
      | some d =>
          obtain ⟨-, hact, rfl⟩ := exec_ret_faulty hrest
          rw [hact]
          exact .read _
      | none =>
          obtain ⟨_, msg, _, -, hrest, hact⟩ :=
            exec_bind_passive_faulty lastErrorMessage_passive hrest
          rw [hact]
          obtain ⟨_, nc, _, -, hrest, hact⟩ :=
            exec_bind_passive_faulty (reportNonCorruptError_passive _ _ _ _) hrest
          rw [hact]
          cases nc with
          | true =>
              obtain ⟨-, hact, rfl⟩ := exec_ret_faulty hrest
              rw [hact]
              exact .read _
          | false =>
              obtain ⟨ok, w₃, _, hmv, hrest, hact⟩ := exec_bind_active id hrest
              rw [hact]
              rcases hmv with ⟨rfl, -, hw₃⟩ | ⟨rfl, hw₃⟩
              · obtain ⟨evs, evs', restored, hact, hrun, hevs'⟩ :=
                  exec_recoverFromBackup_faulty hrest
                rw [hact]
                rw [hw₃] at hrun
                exact .aside e hrun hevs'
              · obtain ⟨-, hact, rfl⟩ := exec_ret_faulty hrest
                rw [hact, hw₃]
                exact .stuck e

/-! ### What a load can destroy -/

/-- One of the three files of `w'` holds a document that was in the main file or in the
backup of `w`. -/
def CopySurvives (parse : Bytes → Option Doc) (path : String) (w w' : Files) : Prop :=
  ∃ q ∈ [path, bakPath path, brokenPath path], ∃ c, w' q = some c ∧ (parse c).isSome ∧
    (w path = some c ∨ w (bakPath path) = some c)

/-- A place that holds what a good main file or backup held is enough. -/
theorem copySurvives_of_eq {p q : String} (hp : p = path ∨ p = bakPath path)
    (hq : q ∈ [path, bakPath path, brokenPath path]) (heq : w' q = w p)
    (hgood : (docAt parse w p).isSome) : CopySurvives parse path w w' := by
  cases hc : w p with
  | none =>
      rw [docAt, hc] at hgood
      exact absurd hgood (by simp)
  | some c =>
      rw [docAt, hc] at hgood
      refine ⟨q, hq, c, heq.trans hc, hgood, ?_⟩
      rcases hp with rfl | rfl
      · exact .inl hc
      · exact .inr hc

/-- Files that are left alone keep their copy. -/
theorem copySurvives_self (hgood : (docAt parse w path).isSome ∨
    (docAt parse w (bakPath path)).isSome) : CopySurvives parse path w w := by
  rcases hgood with h | h
  · exact copySurvives_of_eq (.inl rfl) (by simp) rfl h
  · exact copySurvives_of_eq (.inr rfl) (by simp) rfl h

/-- So do files of which only the main file was put aside. -/
theorem copySurvives_aside (hgood : (docAt parse w path).isSome ∨
    (docAt parse w (bakPath path)).isSome) :
    CopySurvives parse path w (w.move path (brokenPath path)) := by
  rcases hgood with h | h
  · exact copySurvives_of_eq (.inl rfl) (q := brokenPath path) (by simp) (by simp) h
  · exact copySurvives_of_eq (.inr rfl) (q := bakPath path) (by simp) (by simp) h

/-- With the main file unreadable and the backup gone, only `.broken` can hold a copy, and
it must then be one of the backup. -/
theorem broken_eq_of_copySurvives (hmain : docAt parse w path = none)
    (hmain' : docAt parse w' path = none) (hbak' : w' (bakPath path) = none)
    (h : CopySurvives parse path w w') : w' (brokenPath path) = w (bakPath path) := by
  obtain ⟨q, hq, c, hc, hgood, horig⟩ := h
  have hwas : w (bakPath path) = some c := by
    rcases horig with hm | hb
    · rw [docAt, hm, Option.bind_some] at hmain
      rw [hmain] at hgood
      exact absurd hgood (by simp)
    · exact hb
  have hplace : q = path ∨ q = bakPath path ∨ q = brokenPath path := by simpa using hq
  rcases hplace with rfl | rfl | rfl
  · rw [docAt, hc, Option.bind_some] at hmain'
    rw [hmain'] at hgood
    exact absurd hgood (by simp)
  · rw [hbak'] at hc
    exact absurd hc (by simp)
  · exact hc.trans hwas.symm

/-- The answers under which a load destroys the last copy: the main file is no document,
a read of the backup fails and the backup is removed, and `.broken` does not happen to
hold the same bytes still. -/
def LoadLoses (parse : Bytes → Option Doc) (path : String) (w : Files)
    (tr : List (OsEvent Doc)) : Prop :=
  docAt parse w path = none ∧ BackupLost path tr ∧
    (⟨.rename path (brokenPath path), true⟩ ∈ tr ∨ w (brokenPath path) ≠ w (bakPath path))

theorem loadLoses_active : LoadLoses parse path w (active tr) ↔ LoadLoses parse path w tr := by
  have hmv : ¬ OsCall.Passive (.rename path (brokenPath path)) := id
  simp only [LoadLoses, backupLost_active, mem_active hmv]

theorem elsewhere_of_reads {evs : List (OsEvent Doc)}
    (h : ∀ ev ∈ evs, ∃ r, ev = ⟨.xmlReadFile path, r⟩) : ∀ ev ∈ evs, Elsewhere path ev.1 := by
  intro ev hev
  obtain ⟨r, rfl⟩ := h ev hev
  simp [Elsewhere]

theorem RestoreRun.rename_notMem {evs : List (OsEvent Doc)} {restored : Bool} {w₁ : Files}
    (h : RestoreRun parse path w evs restored w₁) {evs' : List (OsEvent Doc)}
    (hevs' : ∀ ev ∈ evs', ∃ r, ev = ⟨.xmlReadFile path, r⟩) :
    (⟨.rename path (brokenPath path), true⟩ : OsEvent Doc) ∉ evs ++ evs' := by
  intro hmem
  rcases List.mem_append.mp hmem with hmem | hmem
  · cases h <;> simp at hmem
  · obtain ⟨r, hr⟩ := hevs' _ hmem
    exact absurd (congrArg Sigma.fst hr) (by simp)

/-- With no main file seen, the last copy goes when the backup does. -/
theorem RestoreRun.survives_iff (hgood : (docAt parse w path).isSome ∨
    (docAt parse w (bakPath path)).isSome) {evs : List (OsEvent Doc)} {restored : Bool}
    (h : RestoreRun parse path w evs restored w') :
    CopySurvives parse path w w' ↔ ¬ (docAt parse w path = none ∧ BackupLost path evs ∧
      w (brokenPath path) ≠ w (bakPath path)) := by
  rcases h.lost_or with ⟨hlost, rfl⟩ | ⟨hkept, rfl | ⟨hbak, rfl⟩⟩
  · constructor
    · intro hsurv ⟨hmain, _, hne⟩
      have hmain' : docAt parse (w.set (bakPath path) none) path = none := by
        rw [← hmain]
        simp [docAt]
      have heq := broken_eq_of_copySurvives hmain hmain' (by simp) hsurv
      exact hne (by simpa using heq)
    · intro hnot
      cases hmain : docAt parse w path with
      | some d =>
          exact copySurvives_of_eq (.inl rfl) (q := path) (by simp) (by simp) (by rw [hmain]; rfl)
      | none =>
          have hbak : (docAt parse w (bakPath path)).isSome := by
            rw [hmain] at hgood
            simpa using hgood
          have heq : w (brokenPath path) = w (bakPath path) := by
            by_contra hne
            exact hnot ⟨hmain, hlost, hne⟩
          exact copySurvives_of_eq (.inr rfl) (q := brokenPath path) (by simp)
            (by simpa using heq) hbak
  · exact iff_of_true (copySurvives_self hgood) (fun hloss => hkept hloss.2.1)
  · refine iff_of_true ?_ (fun hloss => hkept hloss.2.1)
    exact copySurvives_of_eq (.inr rfl) (q := path) (by simp) (by simp) hbak

/-- With the main file put aside first, `.broken` holds the copy if the main file did. -/
theorem RestoreRun.survives_aside_iff (hgood : (docAt parse w path).isSome ∨
    (docAt parse w (bakPath path)).isSome) {evs : List (OsEvent Doc)} {restored : Bool}
    (h : RestoreRun parse path (w.move path (brokenPath path)) evs restored w') :
    CopySurvives parse path w w' ↔
      ¬ (docAt parse w path = none ∧ BackupLost path evs) := by
  have hbakdoc : docAt parse (w.move path (brokenPath path)) (bakPath path) =
      docAt parse w (bakPath path) := by simp [docAt]
  rcases h.lost_or with ⟨hlost, rfl⟩ | ⟨hkept, rfl | ⟨hbak, rfl⟩⟩
  · constructor
    · intro hsurv hloss
      obtain ⟨hmain, -⟩ := hloss
      have heq := broken_eq_of_copySurvives hmain (by simp [docAt]) (by simp) hsurv
      have heq : w path = w (bakPath path) := by simpa using heq
      have hbak : docAt parse w (bakPath path) = none := by
        rw [← hmain]
        simp only [docAt, heq]
      rw [hmain, hbak] at hgood
      exact absurd hgood (by simp)
    · intro hnot
      cases hmain : docAt parse w path with
      | none => exact absurd ⟨hmain, hlost⟩ hnot
      | some d =>
          exact copySurvives_of_eq (.inl rfl) (q := brokenPath path) (by simp) (by simp)
            (by rw [hmain]; rfl)
  · exact iff_of_true (copySurvives_aside hgood) (fun hloss => hkept hloss.2)
  · refine iff_of_true ?_ (fun hloss => hkept hloss.2)
    rw [hbakdoc] at hbak
    exact copySurvives_of_eq (.inr rfl) (q := path) (by simp) (by simp) hbak

theorem LoadRun.survives_iff (hgood : (docAt parse w path).isSome ∨
    (docAt parse w (bakPath path)).isSome) {evs : List (OsEvent Doc)}
    (h : LoadRun parse path w evs w') :
    CopySurvives parse path w w' ↔ ¬ LoadLoses parse path w evs := by
  cases h with
  | read r =>
      refine iff_of_true (copySurvives_self hgood) ?_
      simp [LoadLoses, BackupLost]
  | stuck e =>
      refine iff_of_true (copySurvives_self hgood) ?_
      simp [LoadLoses, BackupLost]
  | @aside e evs evs' _ _ h hevs' =>
      have helse : ∀ ev ∈ evs', Elsewhere path ev.1 := elsewhere_of_reads hevs'
      have hlost : BackupLost path (⟨.xmlReadFile path, (none, e)⟩ ::
          ⟨.rename path (brokenPath path), true⟩ :: (evs ++ evs')) ↔ BackupLost path evs := by
        refine Iff.trans ?_ (backupLost_append_right helse)
        simp [BackupLost]
      rw [h.survives_aside_iff hgood, LoadLoses, hlost]
      simp
  | absent h hevs' =>
      rw [h.survives_iff hgood, LoadLoses, backupLost_append_right (elsewhere_of_reads hevs')]
      simp only [h.rename_notMem hevs', false_or]

/-- **Exactly when a load keeps a copy.** Whatever answers the calls of a load get, a
document that was in the main file or in the backup is still there afterwards unless the
answers are those of `LoadLoses`. -/
theorem xmlReadFile_copySurvives_iff {r : Option Doc}
    (hgood : (docAt parse w path).isSome ∨ (docAt parse w (bakPath path)).isSome)
    (h : Exec (faulty parse True) (xmlReadFile path bundle) w tr r w') :
    CopySurvives parse path w w' ↔ ¬ LoadLoses parse path w tr := by
  obtain ⟨multi, evs, hact, hrun⟩ := exec_xmlReadFile_faulty h
  have hloses : LoadLoses parse path w tr ↔ LoadLoses parse path w evs := by
    rw [← loadLoses_active, hact]
    simp [LoadLoses, BackupLost]
  rw [hrun.survives_iff hgood, hloses]

/-- The answers of an environment in which reads of `bad` fail with `errno` 24. -/
def answerOutOfDescriptors (parse : Bytes → Option Doc) (bad : String) :
    (c : OsCall) → Files → c.Ret Doc × Files
  | .xmlReadFile p, w => (if p = bad then (none, 24) else (docAt parse w p, 0), w)
  | c, w => answerFaultFree parse c w

theorem faulty_answerOutOfDescriptors (bad : String) (c : OsCall) (w : Files) (hc : c.Fits) :
    faulty parse statFails c w (answerOutOfDescriptors parse bad c w).1
      (answerOutOfDescriptors parse bad c w).2 := by
  have hfree : faultFree parse (fun _ => True) c w _ _ :=
    faultFree_answerFaultFree trivial c w hc
  cases c with
  | xmlReadFile p =>
      by_cases hp : p = bad
      · simp only [answerOutOfDescriptors, if_pos hp]
        exact ⟨.inl rfl, rfl⟩
      · simp only [answerOutOfDescriptors, if_neg hp]
        exact ⟨.inr rfl, rfl⟩
  | _ => exact faultFree_faulty hfree

/-- A corrupt main file, a good backup, and no descriptor left when the backup is read:
both are lost. -/
theorem xmlReadFile_loses_backup :
    ¬ ∀ (w w' : Files) (tr : List (OsEvent UInt8)) (r : Option UInt8),
      (docAt parseTagged w "/p").isSome ∨ (docAt parseTagged w (bakPath "/p")).isSome →
      Exec (faulty parseTagged True) (xmlReadFile "/p" "b") w tr r w' →
      CopySurvives parseTagged "/p" w w' := by
  intro hall
  let w : Files := Files.set (Files.set (fun _ => none) "/p" (some [0])) "/p.bak" (some [1, 62])
  have hexec : Exec (faulty parseTagged True) (xmlReadFile "/p" "b") w _ _ _ :=
    exec_interp (faulty_answerOutOfDescriptors (bakPath "/p")) xmlReadFile_fits w
  obtain ⟨q, hq, c, hc, hgood, -⟩ := hall w _ _ _ (.inr rfl) hexec
  have hplace : q = "/p" ∨ q = bakPath "/p" ∨ q = brokenPath "/p" := by simpa using hq
  rcases hplace with rfl | rfl | rfl
  · exact absurd (show none = some c from hc) (by simp)
  · exact absurd (show none = some c from hc) (by simp)
  · obtain rfl : [0] = c := Option.some.inj hc
    exact absurd hgood (by decide)

/-- A good main file that cannot be read for want of descriptors stays where it is. -/
theorem xmlReadFile_keeps_main :
    ∃ (w w' : Files) (tr : List (OsEvent UInt8)), w "/p" = some [1, 62] ∧
      Exec (faulty parseTagged True) (xmlReadFile "/p" "b") w tr none w' ∧
      CopySurvives parseTagged "/p" w w' := by
  let w : Files := Files.set (fun _ => none) "/p" (some [1, 62])
  have hexec : Exec (faulty parseTagged True) (xmlReadFile "/p" "b") w _ none _ :=
    exec_interp (faulty_answerOutOfDescriptors "/p") xmlReadFile_fits w
  refine ⟨w, _, _, rfl, hexec, ?_⟩
  refine (xmlReadFile_copySurvives_iff (.inl rfl) hexec).mpr ?_
  intro ⟨hmain, _⟩
  exact absurd (show some (1 : UInt8) = none from hmain) (by simp)

end NativePreferences
