import NativePreferences.Lib.Transition
import NativePreferences.XmlFileSave

/-!
# NativePreferences.CrashConsistency

**Crash consistency of the file protocol.** A store lives through many processes. Each
one starts with a load and then saves any number of times; any load and any save may be
killed at any point. The history of such a life is a list of `ProcessEvent`s, and the
history alone says which document counts as saved and which one was cut short
(`Ledger`). The result is that the next load agrees with the ledger
(`nextLoad_saved_or_saving`).

What is assumed of the saved buffers is `IsDocument`: the buffer parses to its document,
and a part of it parses to nothing else.
-/

namespace NativePreferences

open Lib

variable {Doc : Type} {parse : Bytes → Option Doc} {parseErrno : Nat → Prop}
variable {path bundle : String} {w w' : Files} {buf : Bytes} {d : Doc}

/-! ### Histories -/

/-- What happens to a store in the life of its processes. -/
inductive ProcessEvent (Doc : Type)
  /-- A process started and its load returned `r`. -/
  | load (r : Option Doc)
  /-- A process was killed during its load. -/
  | loadCrash
  /-- A save of `d` returned `r`. -/
  | save (d : Doc) (r : Bool)
  /-- The process was killed during a save of `d`. -/
  | saveCrash (d : Doc)
  /-- The process ended, by itself or killed, outside a load or a save. -/
  | exit

/-- The document that was last saved completely, and the one whose save was cut short
after that, if any. -/
structure Ledger (Doc : Type) where
  saved : Option Doc
  saving : Option Doc

/-- Enter an event. A load settles the fate of a save that was cut short: what it
returns is what the store holds from then on. -/
def Ledger.enter (L : Ledger Doc) : ProcessEvent Doc → Ledger Doc
  | .load r => { saved := r, saving := none }
  | .save d true => { saved := some d, saving := none }
  | .save _ false => L
  | .saveCrash d => { L with saving := some d }
  | .loadCrash | .exit => L

/-- The ledger of a history that starts with nothing saved. -/
def ledger (hist : List (ProcessEvent Doc)) : Ledger Doc :=
  hist.foldl Ledger.enter { saved := none, saving := none }

@[simp] theorem ledger_snoc (hist : List (ProcessEvent Doc)) (ev : ProcessEvent Doc) :
    ledger (hist ++ [ev]) = (ledger hist).enter ev := by
  simp [ledger]

/-! ### The life of a store -/

/-- `buf` is the text of `d`, and no part of it is the text of anything else. -/
structure IsDocument (parse : Bytes → Option Doc) (buf : Bytes) (d : Doc) : Prop where
  parse_eq : parse buf = some d
  part_eq : ∀ part, part <+: buf → part ≠ buf → parse part = none ∨ parse part = some d

/-- The files, and whether a process is running that has loaded them. -/
structure Life where
  files : Files
  running : Bool

/-- One event in the life of the store on `path`. -/
inductive LifeStep (parse : Bytes → Option Doc) (parseErrno : Nat → Prop) (path bundle : String) :
    Life → ProcessEvent Doc → Life → Prop
  | load {w w' : Files} {tr : List (OsEvent Doc)} {r : Option Doc}
      (h : Exec (faultFree parse parseErrno) (xmlReadFile path bundle) w tr r w') :
      LifeStep parse parseErrno path bundle ⟨w, false⟩ (.load r) ⟨w', true⟩
  | loadCrash {w w' : Files}
      (h : Crash (faultFree parse parseErrno) halfDone (xmlReadFile path bundle) w w') :
      LifeStep parse parseErrno path bundle ⟨w, false⟩ .loadCrash ⟨w', false⟩
  | save {w w' : Files} {tr : List (OsEvent Doc)} {buf : Bytes} {d : Doc} {r : Bool}
      (hbuf : IsDocument parse buf d)
      (h : Exec (faultFree parse parseErrno) (saveXmlFile path bundle buf) w tr r w') :
      LifeStep parse parseErrno path bundle ⟨w, true⟩ (.save d r) ⟨w', true⟩
  | saveCrash {w w' : Files} {buf : Bytes} {d : Doc} (hbuf : IsDocument parse buf d)
      (h : Crash (faultFree parse parseErrno) halfDone (saveXmlFile path bundle buf) w w') :
      LifeStep parse parseErrno path bundle ⟨w, true⟩ (.saveCrash d) ⟨w', false⟩
  | exit {w : Files} : LifeStep parse parseErrno path bundle ⟨w, true⟩ .exit ⟨w, false⟩

/-! ### The invariant -/

/-- The files of a running process: the saved document is in the main file, or nothing is
saved and neither file is there. A backup beside a good main file is stale. -/
def Settled (parse : Bytes → Option Doc) (path : String) (w : Files) (saved : Option Doc) :
    Prop :=
  (w path = none ∧ w (bakPath path) = none ∧ saved = none) ∨
    ∃ d, docAt parse w path = some d ∧ saved = some d

/-- The files between two processes: the view is the saved document or the one whose
save was cut short. -/
def Recoverable (parse : Bytes → Option Doc) (path : String) (w : Files) (L : Ledger Doc) :
    Prop :=
  view parse path w = L.saved ∨ ∃ d, L.saving = some d ∧ view parse path w = some d

/-- The invariant of a store's life. -/
def LifeInv (parse : Bytes → Option Doc) (path : String) (L : Ledger Doc) (s : Life) : Prop :=
  if s.running then Settled parse path s.files L.saved else Recoverable parse path s.files L

theorem Settled.view_eq {saved : Option Doc} (h : Settled parse path w saved) :
    view parse path w = saved := by
  rcases h with ⟨hmain, hbak, rfl⟩ | ⟨d, hmain, rfl⟩
  · simp [view, docAt, hmain, hbak]
  · rw [view, hmain, Option.some_or]

/-- A load leaves the files settled on what it returned. -/
theorem settled_loaded (w : Files) :
    Settled parse path (loaded parse path w) (view parse path w) := by
  cases hview : view parse path w with
  | none =>
      obtain ⟨hmain, hbak⟩ := loaded_of_view_none hview
      exact .inl ⟨hmain, hbak, rfl⟩
  | some d => exact .inr ⟨d, docAt_loaded hview, rfl⟩

/-- **A killed save loses nothing**: from settled files, each picture a killed save can
leave shows the saved document or the new one. -/
theorem recoverable_saveCrash {L : Ledger Doc} (hbuf : IsDocument parse buf d)
    (hset : Settled parse path w L.saved) (h : SaveCrash path buf w w') :
    Recoverable parse path w' { L with saving := some d } := by
  cases h with
  | untouched hmain hbak =>
      exact .inl ((view_congr hmain hbak).trans hset.view_eq)
  | renamed hold hmain hbak =>
      -- the old main file is readable at its new place
      have hview : view parse path w' = docAt parse w path := by
        simp only [view, docAt, hmain, hbak, Option.bind_none, Option.none_or]
      rcases hset with ⟨hnone, -, -⟩ | ⟨d', hdoc, hsaved⟩
      · rw [hnone] at hold
        exact absurd hold (by simp)
      · refine .inl (hview.trans (hdoc.trans ?_))
        exact hsaved.symm
  | writing part hpart hmain hbak =>
      have hpart' : parse part = none ∨ parse part = some d := by
        by_cases heq : part = buf
        · rw [heq]
          exact .inr hbuf.parse_eq
        · exact hbuf.part_eq part hpart heq
      rcases hpart' with hnone | hsome
      · -- an unreadable part: the backup counts, and it is the old main file
        have hview : view parse path w' = ((w path).or (w (bakPath path))).bind parse := by
          simp only [view, docAt, hmain, hbak, Option.bind_some, hnone, Option.none_or]
        refine .inl (hview.trans ?_)
        rcases hset with ⟨hm, hb, hsaved⟩ | ⟨d', hdoc, hsaved⟩
        · rw [hm, hb]
          exact hsaved.symm
        · cases hm : w path with
          | none =>
              rw [docAt, hm] at hdoc
              exact absurd hdoc (by simp)
          | some c =>
              rw [docAt, hm] at hdoc
              exact hdoc.trans hsaved.symm
      · refine .inr ⟨d, rfl, ?_⟩
        simp only [view, docAt, hmain, Option.bind_some, hsome, Option.some_or]
  | written hmain hbak =>
      refine .inr ⟨d, rfl, ?_⟩
      simp only [view, docAt, hmain, Option.bind_some, hbuf.parse_eq, Option.some_or]

/-- Every event keeps the invariant. -/
theorem lifeStep_inv (hfits : PathFits path) (hclass : ClassifiedCorrupt parseErrno)
    {L : Ledger Doc} {s s' : Life} {ev : ProcessEvent Doc} (hinv : LifeInv parse path L s)
    (h : LifeStep parse parseErrno path bundle s ev s') :
    LifeInv parse path (L.enter ev) s' := by
  cases h with
  | load h =>
      obtain ⟨rfl, rfl⟩ := exec_xmlReadFile hfits hclass h
      exact settled_loaded _
  | loadCrash h =>
      have hview := crash_xmlReadFile_view hfits hclass h
      show Recoverable parse path _ L
      rw [Recoverable, hview]
      exact hinv
  | @save w w' tr buf d r hbuf h =>
      obtain ⟨rfl, hmain, -⟩ := exec_saveXmlFile hfits h
      have hdoc : docAt parse w' path = some d := by
        rw [docAt, hmain, Option.bind_some, hbuf.parse_eq]
      exact .inr ⟨_, hdoc, rfl⟩
  | saveCrash hbuf h => exact recoverable_saveCrash hbuf hinv (crash_saveXmlFile hfits h)
  | exit => exact .inl hinv.view_eq

/-- A load that finds nothing has never been preceded by a completed save. -/
theorem lifeStep_saved (hfits : PathFits path) (hclass : ClassifiedCorrupt parseErrno)
    {L : Ledger Doc} {s s' : Life} {ev : ProcessEvent Doc} (hinv : LifeInv parse path L s)
    (h : LifeStep parse parseErrno path bundle s ev s') (hsaved : L.saved.isSome) :
    (L.enter ev).saved.isSome := by
  cases h with
  | load h =>
      obtain ⟨rfl, -⟩ := exec_xmlReadFile hfits hclass h
      rcases hinv with hview | ⟨d, -, hview⟩
      · show (view parse path _).isSome
        rw [hview]
        exact hsaved
      · show (view parse path _).isSome
        rw [hview]
        rfl
  | save hbuf h =>
      obtain ⟨rfl, -, -⟩ := exec_saveXmlFile hfits h
      rfl
  | loadCrash | saveCrash | exit => exact hsaved

/-- What the whole history keeps: the invariant of its ledger, and that a completed save
is never forgotten. -/
theorem life_inv (hfits : PathFits path) (hclass : ClassifiedCorrupt parseErrno) {w₀ : Files}
    (hmain : w₀ path = none) (hbak : w₀ (bakPath path) = none) {hist : List (ProcessEvent Doc)}
    {s : Life} (hrun : Run (LifeStep parse parseErrno path bundle) ⟨w₀, false⟩ hist s) :
    LifeInv parse path (ledger hist) s ∧
      ((∃ d, .save d true ∈ hist) → (ledger hist).saved.isSome) := by
  have hinit : LifeInv parse path (ledger []) ⟨w₀, false⟩ := by
    refine .inl ?_
    simp [view, docAt, hmain, hbak, ledger]
  refine Run.invariant_history
    (I := fun hist s => LifeInv parse path (ledger hist) s ∧
      ((∃ d, .save d true ∈ hist) → (ledger hist).saved.isSome))
    ?_ hrun [] ⟨hinit, by simp⟩
  intro hist s ev s' h hstep
  obtain ⟨hinv, hever⟩ := h
  rw [ledger_snoc]
  refine ⟨lifeStep_inv hfits hclass hinv hstep, ?_⟩
  intro hsaved
  obtain ⟨d, hmem⟩ := hsaved
  rcases List.mem_append.mp hmem with hold | hnew
  · exact lifeStep_saved hfits hclass hinv hstep (hever ⟨d, hold⟩)
  · rw [← List.mem_singleton.mp hnew]
    rfl

/-! ### The next load -/

/-- **Crash consistency.** Whatever has happened to a store that started out with no
files, the next load runs to its end, and every way it can go returns the document that
was last saved completely or the one whose save was cut short. A load that finds nothing
means that no save was ever completed. -/
theorem nextLoad_saved_or_saving (hfits : PathFits path) {w₀ : Files} (hmain : w₀ path = none)
    (hbak : w₀ (bakPath path) = none) {hist : List (ProcessEvent Doc)} {w : Files}
    (hrun : Run (LifeStep parse corruptErrno path bundle) ⟨w₀, false⟩ hist ⟨w, false⟩) :
    (∃ r s', LifeStep parse corruptErrno path bundle ⟨w, false⟩ (.load r) s') ∧
      ∀ r s', LifeStep parse corruptErrno path bundle ⟨w, false⟩ (.load r) s' →
        (r = (ledger hist).saved ∨ ∃ d, (ledger hist).saving = some d ∧ r = some d) ∧
        (r = none → ∀ d, .save d true ∉ hist) := by
  obtain ⟨hinv, hever⟩ := life_inv hfits classifiedCorrupt_corruptErrno hmain hbak hrun
  obtain ⟨tr, r, w', hload⟩ : ∃ tr r w',
      Exec (faultFree parse corruptErrno) (xmlReadFile path bundle) w tr r w' :=
    exists_exec_xmlReadFile w
  refine ⟨⟨r, ⟨w', true⟩, .load hload⟩, ?_⟩
  intro r s' hstep
  cases hstep with
  | load h =>
      obtain ⟨rfl, -⟩ := exec_xmlReadFile hfits classifiedCorrupt_corruptErrno h
      have hrec : Recoverable parse path w (ledger hist) := hinv
      refine ⟨hrec, ?_⟩
      intro hnone d hmem
      have hsaved : (ledger hist).saved.isSome := hever ⟨d, hmem⟩
      rcases hrec with hview | ⟨d', -, hview⟩
      · rw [← hview, hnone] at hsaved
        exact absurd hsaved (by simp)
      · rw [hview] at hnone
        exact absurd hnone (by simp)

theorem isDocument_parseTagged (n : UInt8) : IsDocument parseTagged [n, 62] n := by
  refine ⟨rfl, ?_⟩
  intro part hpart hne
  refine .inl ?_
  match part, hpart, hne with
  | [], _, _ => rfl
  | [_], _, _ => rfl
  | [a, b], hpart, hne => exact absurd (hpart.eq_of_length rfl) hne
  | _ :: _ :: _ :: _, hpart, _ => exact absurd hpart.length_le (by simp)

/-- Killed with a part of the buffer in the main file, starting from a good one. -/
theorem crash_torn_save {w : Files} (hw : (w "/p").isSome) (n : UInt8) :
    ∃ w', Crash (faultFree parseTagged corruptErrno) halfDone (saveXmlFile "/p" "b" [n, 62])
      w w' := by
  have hlocked : (w.touch (lockPath "/p") "/p").isSome := by
    rwa [Files.touch_of_ne w (ne_lockPath "/p")]
  -- lock, stat, rename and open, and then into the write
  exact ⟨_, .after (r := false) rfl (.after (r := true) ⟨hlocked.symm, rfl⟩ (.after (r := true)
    (.inl ⟨rfl, hlocked, rfl⟩) (.after (r := true) ⟨rfl, rfl⟩
      (.inside ⟨[n], ⟨[62], rfl⟩, rfl⟩))))⟩

/-- A first load finds nothing; a save of 1 is completed; a save of 2 is cut short. The
next load returns one of the two. -/
theorem nextLoad_after_torn_save :
    ∃ w, Run (LifeStep parseTagged corruptErrno "/p" "b") ⟨fun _ => none, false⟩
        [.load none, .save 1 true, .saveCrash 2] ⟨w, false⟩ ∧
      ∀ r s', LifeStep parseTagged corruptErrno "/p" "b" ⟨w, false⟩ (.load r) s' →
        r = some 1 ∨ r = some 2 := by
  have h0 : corruptErrno 0 := (rfl : isNonCorrupt 0 = false)
  have hload : Exec (faultFree parseTagged corruptErrno) (xmlReadFile "/p" "b")
      (fun _ => none) _ none _ :=
    exec_interp (faultFree_answerFaultFree h0) xmlReadFile_fits _
  obtain ⟨tr, w₁, hsave, hmain⟩ : ∃ tr w₁, Exec (faultFree parseTagged corruptErrno)
      (saveXmlFile "/p" "b" [1, 62]) (fun _ => none) tr true w₁ ∧ (w₁ "/p").isSome :=
    ⟨_, _, exec_interp (faultFree_answerFaultFree h0) (saveXmlFile_fits (by decide)) _, rfl⟩
  obtain ⟨w, hcrash⟩ := crash_torn_save hmain 2
  have hrun : Run (LifeStep parseTagged corruptErrno "/p" "b") ⟨fun _ => none, false⟩
      [.load none, .save 1 true, .saveCrash 2] ⟨w, false⟩ :=
    .cons (.load hload) (.cons (.save (isDocument_parseTagged 1) hsave)
      (.cons (.saveCrash (isDocument_parseTagged 2) hcrash) .nil))
  refine ⟨w, hrun, ?_⟩
  intro r s' hstep
  have hfits : PathFits "/p" := by decide
  rcases ((nextLoad_saved_or_saving hfits rfl rfl hrun).2 r s' hstep).1 with hr | ⟨d, hd, hr⟩
  · exact .inl hr
  · obtain rfl : (2 : UInt8) = d := Option.some.inj hd
    exact .inr hr

end NativePreferences
