import NativePreferences.CrashConsistency

/-!
# NativePreferences.Helper.Backend

**Which backend a path gets** (`preferences_helper.cpp`, `GetPreferencesInner`). A path is
stored as an XML file or in a GSKV database beside it, and each `GetPreferences` that makes an
instance decides anew, by the existence of the main file and of the database file. A bundle on
the trust list gets GSKV whenever there is no main file; any other bundle gets what its options
ask for, unless a file of the other kind is there.

The XML file protocol goes through states in which the data is in the backup alone. A process
that was killed there leaves no main file, and a `GetPreferences` that chooses GSKV then hides
what was saved (`backend_hides_saved`). An XML instance that has left the cache can save later,
from a flush that was scheduled before, and the store that was opened since does not show that
(`backend_hides_late_save`). Where neither happens, the store that `GetPreferences` returns shows
what was saved last (`getPreferences_shows_saved`).

The XML side is the life of `CrashConsistency`: an instance is loaded when it is made, and no two
saves overlap. The GSKV side is taken to save in one step, and a GSKV instance that leaves the
cache is closed.
-/

namespace NativePreferences

open Lib

variable {Doc : Type} {parse : Bytes → Option Doc} {path bundle : String} {supported : Bool}

/-! ### The choice -/

/-- `StorageType`. -/
inductive StorageType
  | xml
  | gskv
  deriving DecidableEq, Repr

/-- The options that the choice reads. -/
structure Options where
  bundleName : String
  isEnhance : Bool
  deriving DecidableEq, Repr

/-- The list in `IsInTrustList`. -/
def trustList : List String :=
  ["uttest", "alipay", "com.jd.", "cmblife", "os.mms", "os.ouc", "meetime", "appgallery",
    "screenreader"]

/-- `IsInTrustList`: an entry of the list occurs in the name. -/
def isInTrustList (bundleName : String) : Bool :=
  trustList.any (fun entry => decide (entry.toList <:+: bundleName.toList))

/-- `GetPreferencesInner`, up to the `Init` of the instance it makes: the type of the store, or
the code it returns without one. -/
def getPreferencesInner (options : Options) (mainExists dbExists gskvSupported : Bool) :
    Except ErrCode StorageType :=
  if isInTrustList options.bundleName then
    if !mainExists && gskvSupported then .ok .gskv else .ok .xml
  else if !options.isEnhance then
    if dbExists then .error .notSupported else .ok .xml
  else if mainExists then .error .notSupported
  else if !gskvSupported then .error .notSupported
  else .ok .gskv

/-- GSKV is chosen only where it is supported and there is no main file. -/
theorem getPreferencesInner_gskv {options : Options} {mainExists dbExists : Bool}
    (h : getPreferencesInner options mainExists dbExists supported = .ok .gskv) :
    mainExists = false ∧ supported = true := by
  unfold getPreferencesInner at h
  split at h
  · split at h
    · next hboth => simpa using hboth
    · exact absurd h (by simp)
  · split at h
    · split at h <;> exact absurd h (by simp)
    · split at h
      · exact absurd h (by simp)
      · next hmain =>
        split at h
        · exact absurd h (by simp)
        · next hsup => exact ⟨by simpa using hmain, by simpa using hsup⟩

/-! ### The life of a path -/

/-- `IsFileExist`, as a function of the files. -/
def fileExists (w : Files) (p : String) : Bool := decide (p.utf8ByteSize ≤ pathMax) && (w p).isSome

/-- What there is of a path, with two facts about the past that the files do not show. -/
structure Device (Doc : Type) where
  files : Files
  /-- What the database holds, if its file is there. A new one holds nothing. -/
  db : Option (Option Doc)
  /-- The instance in `prefsCache_`, with the map it shows. -/
  cached : Option (StorageType × Option Doc)
  /-- An XML instance has left the cache in this process. Its flush may be scheduled still. -/
  removed : Bool
  /-- The type of the store that has completed a save last. -/
  home : StorageType
  /-- An instance that had left the cache has saved since the one in the cache was made or saved
  itself. -/
  overtaken : Bool

/-- A path with nothing but these XML files, and no process. -/
def Device.start (w : Files) : Device Doc :=
  { files := w, db := none, cached := none, removed := false, home := .xml, overtaken := false }

/-- The instance in the cache is an XML one. -/
def Device.cachedXml (d : Device Doc) : Bool := d.cached.any (fun c => decide (c.1 = .xml))

/-- An XML store has been loaded in this process. -/
def Device.loaded (d : Device Doc) : Bool := d.removed || d.cachedXml

/-- What happens to a path. -/
inductive DeviceEvent (Doc : Type)
  /-- `GetPreferences` has returned an instance that shows `r`. -/
  | got (type : StorageType) (r : Option Doc)
  /-- `GetPreferences` has returned no instance. -/
  | refused (code : ErrCode)
  /-- The process was killed during the load of an XML store. -/
  | loadCrash
  /-- A save of `d` has returned. -/
  | save (d : Doc) (r : Bool)
  /-- The process was killed during `SaveXmlFile`. -/
  | saveCrash (d : Doc)
  /-- `RemovePreferencesFromCache` has returned. -/
  | removed
  /-- The process has ended outside a load or a save. -/
  | exit

/-- The event as the ledger of `CrashConsistency` enters it. -/
def DeviceEvent.entry : DeviceEvent Doc → ProcessEvent Doc
  | .got _ r => .load r
  | .refused _ => .exit
  | .loadCrash => .loadCrash
  | .save d r => .save d r
  | .saveCrash d => .saveCrash d
  | .removed | .exit => .exit

/-- The ledger after these events. -/
def Ledger.after (L : Ledger Doc) (evs : List (DeviceEvent Doc)) : Ledger Doc :=
  evs.foldl (fun L ev => L.enter ev.entry) L

@[simp] theorem Ledger.after_snoc (L : Ledger Doc) (evs : List (DeviceEvent Doc))
    (ev : DeviceEvent Doc) : L.after (evs ++ [ev]) = (L.after evs).enter ev.entry := by
  simp [Ledger.after]

/-- The choice that `GetPreferences` makes with these options. -/
def Device.choice (d : Device Doc) (path : String) (supported : Bool) (options : Options) :
    Except ErrCode StorageType :=
  getPreferencesInner options (fileExists d.files path) d.db.isSome supported

/-- The process is gone, and with it every instance. -/
def Device.ended (d : Device Doc) : Device Doc := { d with cached := none, removed := false }

/-- One event in the life of a path of `bundle`, in one process at a time. -/
inductive DeviceStep (parse : Bytes → Option Doc) (path bundle : String) (supported : Bool) :
    Device Doc → DeviceEvent Doc → Device Doc → Prop
  | found {d : Device Doc} {type : StorageType} {r : Option Doc}
      (hhit : d.cached = some (type, r)) :
      DeviceStep parse path bundle supported d (.got type r) d
  | refused {d : Device Doc} {options : Options} {code : ErrCode}
      (hmiss : d.cached = none) (hbundle : options.bundleName = bundle)
      (hchoice : d.choice path supported options = .error code) :
      DeviceStep parse path bundle supported d (.refused code) d
  | openXml {d : Device Doc} {options : Options} {r : Option Doc} {w : Files}
      (hmiss : d.cached = none) (hbundle : options.bundleName = bundle)
      (hchoice : d.choice path supported options = .ok .xml)
      (h : LifeStep parse corruptErrno path bundle ⟨d.files, false⟩ (.load r) ⟨w, true⟩) :
      DeviceStep parse path bundle supported d (.got .xml r)
        { d with files := w, cached := some (.xml, r), overtaken := false }
  | loadCrash {d : Device Doc} {options : Options} {w : Files}
      (hmiss : d.cached = none) (hbundle : options.bundleName = bundle)
      (hchoice : d.choice path supported options = .ok .xml)
      (h : LifeStep parse corruptErrno path bundle ⟨d.files, false⟩ .loadCrash ⟨w, false⟩) :
      DeviceStep parse path bundle supported d .loadCrash { d with files := w }.ended
  | openGskv {d : Device Doc} {options : Options}
      (hmiss : d.cached = none) (hbundle : options.bundleName = bundle)
      (hchoice : d.choice path supported options = .ok .gskv) :
      DeviceStep parse path bundle supported d (.got .gskv (d.db.getD none))
        { d with
          db := some (d.db.getD none), cached := some (.gskv, d.db.getD none), overtaken := false }
  | saveXml {d : Device Doc} {x : Doc} {r : Bool} {w : Files} (hopen : d.cachedXml = true)
      (h : LifeStep parse corruptErrno path bundle ⟨d.files, true⟩ (.save x r) ⟨w, true⟩) :
      DeviceStep parse path bundle supported d (.save x r)
        { d with files := w, cached := some (.xml, some x), home := .xml, overtaken := false }
  -- the task of a `Flush` from before `RemovePreferencesFromCache` holds the instance
  | lateSave {d : Device Doc} {x : Doc} {r : Bool} {w : Files} (hremoved : d.removed = true)
      (h : LifeStep parse corruptErrno path bundle ⟨d.files, true⟩ (.save x r) ⟨w, true⟩) :
      DeviceStep parse path bundle supported d (.save x r)
        { d with files := w, home := .xml, overtaken := true }
  | saveCrash {d : Device Doc} {x : Doc} {w : Files} (hloaded : d.loaded = true)
      (h : LifeStep parse corruptErrno path bundle ⟨d.files, true⟩ (.saveCrash x) ⟨w, false⟩) :
      DeviceStep parse path bundle supported d (.saveCrash x) { d with files := w }.ended
  | saveGskv {d : Device Doc} {x : Doc} {shown : Option Doc}
      (hopen : d.cached = some (.gskv, shown)) :
      DeviceStep parse path bundle supported d (.save x true)
        { d with
          db := some (some x), cached := some (.gskv, some x), home := .gskv, overtaken := false }
  | removed {d : Device Doc} :
      DeviceStep parse path bundle supported d .removed
        { d with cached := none, removed := d.loaded }
  | exit {d : Device Doc} : DeviceStep parse path bundle supported d .exit d.ended

/-! ### The invariant -/

/-- The invariant of a path: the data is where the last complete save has put it, and an instance
that nobody has overtaken shows it. -/
structure DeviceInv (parse : Bytes → Option Doc) (path : String) (L : Ledger Doc)
    (d : Device Doc) : Prop where
  xml : d.home = .xml → LifeInv parse path L ⟨d.files, d.loaded⟩
  gskv : d.home = .gskv → d.db = some L.saved
  /-- As long as nothing is saved, the database is empty. -/
  empty : d.home = .xml → L.saved = none → d.db.getD none = none
  shown : ∀ type r, d.cached = some (type, r) →
    L.saving = none ∧ (d.overtaken = false → r = L.saved)

/-- `GetPreferences` passes nothing over: it opens a database only where there is no backup, and an
XML file beside a database only if an XML store has completed a save last; and the instance that it
finds in the cache has not been overtaken. -/
structure NothingHidden (path : String) (d : Device Doc) (ev : DeviceEvent Doc) : Prop where
  gskv : ∀ r, ev = .got .gskv r → d.cached = none → d.files (bakPath path) = none
  xml : ∀ r, ev = .got .xml r → d.cached = none → d.db.isSome → d.home = .xml
  found : ∀ type r, ev = .got type r → d.cached.isSome → d.overtaken = false

/-- Only `GetPreferences` can pass something over. -/
theorem NothingHidden.of_not_got {d : Device Doc} {ev : DeviceEvent Doc}
    (h : ∀ type r, ev ≠ .got type r) : NothingHidden path d ev :=
  ⟨fun r hev => absurd hev (h _ r), fun r hev => absurd hev (h _ r),
    fun type r hev => absurd hev (h type r)⟩

theorem fileExists_eq_false {w : Files} (hfits : PathFits path) (h : fileExists w path = false) :
    w path = none := by
  rw [fileExists, decide_eq_true hfits.main, Bool.true_and] at h
  simpa using h

theorem Recoverable.saved_none {w : Files} {L : Ledger Doc} (h : Recoverable parse path w L)
    (hmain : w path = none) (hbak : w (bakPath path) = none) : L.saved = none := by
  have hview : view parse path w = none := by simp [view, docAt, hmain, hbak]
  rcases h with hsaved | ⟨x, -, hx⟩
  · exact hsaved.symm.trans hview
  · exact absurd (hview.symm.trans hx) (by simp)

/-- Whatever has happened in a process, the next one can recover. -/
theorem LifeInv.recoverable {L : Ledger Doc} {s : Life} (h : LifeInv parse path L s) :
    Recoverable parse path s.files L := by
  rw [LifeInv] at h
  split at h
  · exact .inl h.view_eq
  · exact h

/-- The data is in the XML files when `GetPreferences` opens them. -/
theorem DeviceInv.home_xml {L : Ledger Doc} {d : Device Doc} {r : Option Doc}
    (hinv : DeviceInv parse path L d) (hmiss : d.cached = none)
    (hok : NothingHidden path d (.got .xml r)) : d.home = .xml := by
  cases hhome : d.home with
  | xml => rfl
  | gskv =>
      have hsome : d.db.isSome := by rw [hinv.gskv hhome]; rfl
      exact hhome.symm.trans (hok.xml r rfl hmiss hsome)

/-- What a new instance on the database shows. -/
theorem DeviceInv.gskv_shows {L : Ledger Doc} {d : Device Doc} {options : Options}
    (hinv : DeviceInv parse path L d) (hfits : PathFits path)
    (hchoice : d.choice path supported options = .ok .gskv)
    (hbak : d.files (bakPath path) = none) :
    d.db.getD none = L.saved ∧ d.files path = none := by
  have hmain : d.files path = none :=
    fileExists_eq_false hfits (getPreferencesInner_gskv hchoice).1
  refine ⟨?_, hmain⟩
  cases hhome : d.home with
  | xml =>
      have hnone : L.saved = none := (hinv.xml hhome).recoverable.saved_none hmain hbak
      rw [hinv.empty hhome hnone, hnone]
  | gskv =>
      rw [hinv.gskv hhome]
      rfl

/-- The end of the process leaves the data where it is. -/
theorem DeviceInv.ended {L : Ledger Doc} {d : Device Doc} (hinv : DeviceInv parse path L d) :
    DeviceInv parse path L d.ended where
  xml hhome := (hinv.xml hhome).recoverable
  gskv := hinv.gskv
  empty := hinv.empty
  shown type r hcached := absurd hcached (by simp [Device.ended])

/-- A complete save of an XML store settles where the data is. -/
theorem DeviceInv.of_xml_save (hfits : PathFits path) {L : Ledger Doc} {d' : Device Doc} {x : Doc}
    {r : Bool} {w : Files}
    (h : LifeStep parse corruptErrno path bundle ⟨w, true⟩ (.save x r) ⟨d'.files, true⟩)
    (hhome : d'.home = .xml) (hloaded : d'.loaded = true)
    (hshown : ∀ type r, d'.cached = some (type, r) → d'.overtaken = false → r = some x) :
    DeviceInv parse path (L.enter (.save x r)) d' := by
  cases h with
  | save hbuf h =>
      obtain ⟨rfl, hmain, -⟩ := exec_saveXmlFile hfits h
      refine ⟨?_, ?_, ?_, ?_⟩
      · intro _
        rw [hloaded]
        refine .inr ⟨x, ?_, rfl⟩
        exact (congrArg (Option.bind · parse) hmain).trans hbuf.parse_eq
      · intro hgskv
        exact absurd (hhome.symm.trans hgskv) (by simp)
      · intro _ hnone
        exact absurd hnone (by simp [Ledger.enter])
      · intro type r hcached
        exact ⟨rfl, hshown type r hcached⟩

/-- Every event leaves the data where it can be found. -/
theorem deviceStep_inv (hfits : PathFits path) {L : Ledger Doc} {d d' : Device Doc}
    {ev : DeviceEvent Doc} (hinv : DeviceInv parse path L d)
    (hstep : DeviceStep parse path bundle supported d ev d') (hok : NothingHidden path d ev) :
    DeviceInv parse path (L.enter ev.entry) d' := by
  have hlife {L : Ledger Doc} {s s' : Life} {pev : ProcessEvent Doc} (h : LifeInv parse path L s)
      (hs : LifeStep parse corruptErrno path bundle s pev s') :
      LifeInv parse path (L.enter pev) s' :=
    lifeStep_inv hfits classifiedCorrupt_corruptErrno h hs
  cases hstep with
  | @found type r hhit =>
      obtain ⟨hsaving, hshown⟩ := hinv.shown type r hhit
      obtain rfl : r = L.saved := hshown (hok.found type r rfl (by rw [hhit]; rfl))
      have hsame : L.enter (DeviceEvent.got type L.saved).entry = L := by
        cases L
        simp only at hsaving
        simp [DeviceEvent.entry, Ledger.enter, hsaving]
      rw [hsame]
      exact hinv
  | refused => exact hinv
  | @openXml options r w hmiss hbundle hchoice h =>
      have hhome : d.home = .xml := hinv.home_xml hmiss hok
      have hrec : Recoverable parse path d.files L := (hinv.xml hhome).recoverable
      have hset : LifeInv parse path (L.enter (.load r)) ⟨w, true⟩ :=
        hlife (L := L) (s := ⟨d.files, false⟩) hrec h
      refine ⟨?_, ?_, ?_, ?_⟩
      · intro _
        rw [show Device.loaded { d with files := w, cached := some (.xml, r), overtaken := false } =
          true by simp [Device.loaded, Device.cachedXml]]
        exact hset
      · intro hgskv
        exact absurd (hhome.symm.trans hgskv) (by simp)
      · rintro - hnone
        cases h with
        | load h =>
            obtain ⟨rfl, -⟩ := exec_xmlReadFile hfits classifiedCorrupt_corruptErrno h
            rcases hrec with hsaved | ⟨x, -, hx⟩
            · exact hinv.empty hhome (hsaved.symm.trans hnone)
            · exact absurd (hx.symm.trans hnone) (by simp)
      · intro type r' hcached
        obtain ⟨-, rfl⟩ := Prod.mk.inj (Option.some.inj hcached)
        exact ⟨rfl, fun _ => rfl⟩
  | @loadCrash options w hmiss hbundle hchoice h =>
      refine ⟨?_, hinv.gskv, hinv.empty, ?_⟩
      · intro hhome
        exact hlife (L := L) (s := ⟨d.files, false⟩) (hinv.xml hhome).recoverable h
      · intro type r hcached
        exact absurd hcached (by simp [Device.ended])
  | @openGskv options hmiss hbundle hchoice =>
      have hbak : d.files (bakPath path) = none := hok.gskv _ rfl hmiss
      obtain ⟨hshows, hmain⟩ := hinv.gskv_shows hfits hchoice hbak
      refine ⟨?_, ?_, ?_, ?_⟩
      · intro hhome
        have hnone : L.saved = none := (hinv.xml hhome).recoverable.saved_none hmain hbak
        rw [hshows, hnone, LifeInv]
        split
        · exact .inl ⟨hmain, hbak, rfl⟩
        · exact .inl (by simp [view, docAt, hmain, hbak, DeviceEvent.entry, Ledger.enter])
      · intro _
        rfl
      · intro _ hnone
        exact hnone
      · intro type r hcached
        obtain ⟨-, rfl⟩ := Prod.mk.inj (Option.some.inj hcached)
        exact ⟨rfl, fun _ => rfl⟩
  | @saveXml x r w hopen h =>
      refine .of_xml_save hfits h rfl (by simp [Device.loaded, Device.cachedXml]) ?_
      intro type r hcached _
      exact (Prod.mk.inj (Option.some.inj hcached)).2.symm
  | @lateSave x r w hremoved h =>
      refine .of_xml_save hfits h rfl (by simp [Device.loaded, hremoved]) ?_
      intro type r _ hfresh
      exact absurd hfresh (by simp)
  | @saveCrash x w hloaded h =>
      refine ⟨?_, hinv.gskv, hinv.empty, ?_⟩
      · intro hhome
        have hset := hinv.xml hhome
        rw [hloaded] at hset
        exact hlife hset h
      · intro type r hcached
        exact absurd hcached (by simp [Device.ended])
  | @saveGskv x shown hopen =>
      refine ⟨fun hhome => absurd hhome (by simp), fun _ => rfl,
        fun hhome => absurd hhome (by simp), ?_⟩
      intro type r hcached
      exact ⟨rfl, fun _ => (Prod.mk.inj (Option.some.inj hcached)).2.symm⟩
  | removed =>
      refine ⟨?_, hinv.gskv, hinv.empty, fun type r hcached => absurd hcached (by simp)⟩
      intro hhome
      have hset := hinv.xml hhome
      rwa [show Device.loaded { d with cached := none, removed := d.loaded } = d.loaded by
        simp [Device.loaded, Device.cachedXml]]
  | exit => exact hinv.ended

/-! ### What `GetPreferences` shows -/

/-- The document that a store shows is the one that was saved last, or the one whose save was
cut short since. -/
def Ledger.Accounts (L : Ledger Doc) (r : Option Doc) : Prop :=
  r = L.saved ∨ ∃ x, L.saving = some x ∧ r = some x

theorem DeviceInv.accounts (hfits : PathFits path) {L : Ledger Doc} {d d' : Device Doc}
    {type : StorageType} {r : Option Doc} (hinv : DeviceInv parse path L d)
    (hstep : DeviceStep parse path bundle supported d (.got type r) d')
    (hok : NothingHidden path d (.got type r)) : L.Accounts r := by
  cases hstep with
  | found hhit =>
      exact .inl ((hinv.shown type r hhit).2 (hok.found type r rfl (by rw [hhit]; rfl)))
  | openXml hmiss hbundle hchoice h =>
      have hrec := (hinv.xml (hinv.home_xml hmiss hok)).recoverable
      cases h with
      | load h =>
          obtain ⟨rfl, -⟩ := exec_xmlReadFile hfits classifiedCorrupt_corruptErrno h
          exact hrec
  | openGskv hmiss hbundle hchoice =>
      exact .inl (hinv.gskv_shows hfits hchoice (hok.gskv _ rfl hmiss)).1

/-- **The choice of the backend hides nothing as long as `GetPreferences` passes nothing over.**
Start from any XML files and no database, with nothing but what the files show counting as saved.
Whatever has happened since, saves of instances that had left the cache included, a
`GetPreferences` that returns a store returns one that shows the document saved last or the one
whose save was cut short. -/
theorem getPreferences_shows_saved (hfits : PathFits path) {w₀ : Files} {d d' : Device Doc}
    {evs : List (DeviceEvent Doc)}
    (hrun : Run (guarded (DeviceStep parse path bundle supported) (NothingHidden path))
      (.start w₀) evs d)
    {type : StorageType} {r : Option Doc}
    (hget : DeviceStep parse path bundle supported d (.got type r) d')
    (hok : NothingHidden path d (.got type r)) :
    (Ledger.after { saved := view parse path w₀, saving := none } evs).Accounts r := by
  have hinit : DeviceInv parse path { saved := view parse path w₀, saving := none }
      (.start w₀) := by
    refine ⟨fun _ => .inl rfl, ?_, fun _ _ => rfl, ?_⟩
    · intro hhome
      exact absurd hhome (by simp [Device.start])
    · intro type r hcached
      exact absurd hcached (by simp [Device.start])
  have hinv := hrun.invariant_history
    (I := fun evs d => DeviceInv parse path
      (Ledger.after { saved := view parse path w₀, saving := none } evs) d) ?_ [] hinit
  · exact hinv.accounts hfits hget hok
  · intro evs d ev d' hinv ⟨hstep, hok⟩
    rw [Ledger.after_snoc]
    exact deviceStep_inv hfits hinv hstep hok

/-- A main file with the document 1. -/
def oneXml : Files := Files.set (fun _ => none) "/p" (some [1, 62])

/-- A path that begins with that file, after its XML store was opened. -/
theorem device_openXml (bundle : String)
    (hchoice : (Device.start oneXml : Device UInt8).choice "/p" true ⟨bundle, false⟩ = .ok .xml) :
    ∃ w : Files, w "/p" = some [1, 62] ∧
      DeviceStep parseTagged "/p" bundle true (.start oneXml) (.got .xml (some 1))
        { Device.start w with cached := some (.xml, some 1) } := by
  have h0 : corruptErrno 0 := (rfl : isNonCorrupt 0 = false)
  have hload : Exec (faultFree parseTagged corruptErrno) (xmlReadFile "/p" bundle)
      oneXml _ (some 1) _ :=
    exec_interp (faultFree_answerFaultFree h0) xmlReadFile_fits _
  exact ⟨_, rfl, .openXml rfl rfl hchoice (.load hload)⟩

/-- Killed right after the main file was renamed. -/
theorem crash_renamed_save {w : Files} (hw : (w "/p").isSome) (bundle : String) (n : UInt8) :
    ∃ w' : Files, w' "/p" = none ∧ Crash (faultFree parseTagged corruptErrno) halfDone
      (saveXmlFile "/p" bundle [n, 62]) w w' := by
  have hlocked : (w.touch (lockPath "/p") "/p").isSome := by
    rwa [Files.touch_of_ne w (ne_lockPath "/p")]
  exact ⟨_, Files.move_source _ (ne_bakPath "/p"), .after (r := false) rfl
    (.after (r := true) ⟨hlocked.symm, rfl⟩ (.after (r := true) (.inl ⟨rfl, hlocked, rfl⟩) .here))⟩

/-- A save of `n` can be completed, whatever files there are. -/
theorem exists_lifeStep_save (w : Files) (bundle : String) (n : UInt8) :
    ∃ w' : Files, w' "/p" = some [n, 62] ∧
      LifeStep parseTagged corruptErrno "/p" bundle ⟨w, true⟩ (.save n true) ⟨w', true⟩ := by
  have h0 : corruptErrno 0 := (rfl : isNonCorrupt 0 = false)
  have hsize : [n, 62].length ≤ intMax := by
    rw [List.length_cons, List.length_singleton]
    decide
  obtain ⟨tr, r, w', hexec⟩ : ∃ tr r w', Exec (faultFree parseTagged corruptErrno)
      (saveXmlFile "/p" bundle [n, 62]) w tr r w' :=
    ⟨_, _, _, exec_interp (faultFree_answerFaultFree h0) (saveXmlFile_fits hsize) w⟩
  obtain ⟨rfl, hmain, -⟩ := exec_saveXmlFile (by decide) hexec
  exact ⟨w', hmain, .save (isDocument_parseTagged n) hexec⟩

/-- A bundle on the trust list has an XML file with the document 1. It opens the store, and is
killed during a save of 2, after the rename. The next `GetPreferences`, with the same options,
finds no main file and opens an empty database. -/
theorem backend_hides_saved :
    ¬ ∀ (w₀ : Files) (d d' : Device UInt8) (evs : List (DeviceEvent UInt8)) (type : StorageType)
      (r : Option UInt8), Run (DeviceStep parseTagged "/p" "com.jd.app" true) (.start w₀) evs d →
      DeviceStep parseTagged "/p" "com.jd.app" true d (.got type r) d' →
      (Ledger.after { saved := view parseTagged "/p" w₀, saving := none } evs).Accounts r := by
  intro hall
  obtain ⟨w, hmain, hopen⟩ := device_openXml "com.jd.app" (by decide)
  obtain ⟨w', hgone, hcrash⟩ :=
    crash_renamed_save (w := w) (by rw [hmain]; rfl) "com.jd.app" 2
  have hsave : DeviceStep parseTagged "/p" "com.jd.app" true
      { Device.start w with cached := some (.xml, some 1) } (.saveCrash 2) (.start w') :=
    .saveCrash rfl (.saveCrash (isDocument_parseTagged 2) hcrash)
  have hchoice : (Device.start w' : Device UInt8).choice "/p" true ⟨"com.jd.app", false⟩ =
      .ok .gskv := by
    simp only [Device.choice, Device.start, fileExists, hgone]
    decide
  have hshown := hall _ _ _ _ _ _ (.cons hopen (.cons hsave .nil)) (.openGskv rfl rfl hchoice)
  rcases hshown with hsaved | ⟨x, -, hx⟩
  · exact absurd (show none = some (1 : UInt8) from hsaved) (by simp)
  · exact absurd (show none = some x from hx) (by simp)

/-- Another bundle opens its XML store, which is empty, removes it from the cache while a flush is
scheduled, and opens an empty database. Then the flush saves 1, into the XML file, and the next
`GetPreferences` returns the database, which is still empty. There is no backup at any time. -/
theorem backend_hides_late_save :
    ¬ ∀ (w₀ : Files) (d d' : Device UInt8) (evs : List (DeviceEvent UInt8)) (type : StorageType)
      (r : Option UInt8),
      Run (guarded (DeviceStep parseTagged "/p" "b" true)
        fun d ev => ∀ r, ev = .got .gskv r → d.files (bakPath "/p") = none) (.start w₀) evs d →
      DeviceStep parseTagged "/p" "b" true d (.got type r) d' →
      (Ledger.after { saved := view parseTagged "/p" w₀, saving := none } evs).Accounts r := by
  intro hall
  have h0 : corruptErrno 0 := (rfl : isNonCorrupt 0 = false)
  have hload : ∃ tr w, Exec (faultFree parseTagged corruptErrno) (xmlReadFile "/p" "b")
      (fun _ => none) tr none w ∧ w "/p" = none ∧ w (bakPath "/p") = none := by
    obtain ⟨tr, r, w, hload⟩ : ∃ tr r w, Exec (faultFree parseTagged corruptErrno)
        (xmlReadFile "/p" "b") (fun _ => none) tr r w := exists_exec_xmlReadFile _
    obtain ⟨rfl, rfl⟩ := exec_xmlReadFile (by decide) classifiedCorrupt_corruptErrno hload
    obtain ⟨hmain, hbak⟩ := loaded_of_view_none (w := fun _ => none)
      (show view parseTagged "/p" _ = none from rfl)
    exact ⟨tr, _, hload, hmain, hbak⟩
  obtain ⟨tr, w, hload, hmain, hbak⟩ := hload
  obtain ⟨w', -, hsave⟩ := exists_lifeStep_save w "b" 1
  have hopen : DeviceStep parseTagged "/p" "b" true (.start fun _ => none) (.got .xml none)
      { Device.start w with cached := some (.xml, none) } :=
    @.openXml _ _ _ _ _ _ ⟨"b", false⟩ _ _ rfl rfl (by decide) (.load hload)
  have hremove : DeviceStep parseTagged "/p" "b" true
      { Device.start w with cached := some (.xml, none) } .removed
      { Device.start w with removed := true } := .removed
  have hchoice : Device.choice { (Device.start w : Device UInt8) with removed := true } "/p" true
      ⟨"b", true⟩ = .ok .gskv := by
    simp only [Device.choice, Device.start, fileExists, hmain]
    decide
  have hshown := hall _ _ _ _ _ _
    (.cons ⟨hopen, by simp⟩
      (.cons ⟨hremove, by simp⟩
        (.cons ⟨.openGskv rfl rfl hchoice, fun _ _ => hbak⟩
          (.cons ⟨.lateSave rfl hsave, by simp⟩ .nil))))
    (.found rfl)
  rcases hshown with hsaved | ⟨x, -, hx⟩
  · exact absurd (show none = some (1 : UInt8) from hsaved) (by simp)
  · exact absurd (show none = some x from hx) (by simp)

/-- The file with the document 1; the instance leaves the cache, saves 2 after that, and the store
is opened again. -/
theorem getPreferences_shows_two :
    ∃ (d d' : Device UInt8) (r : Option UInt8),
      DeviceStep parseTagged "/p" "com.jd.app" true d (.got .xml r) d' ∧ r = some 2 := by
  obtain ⟨w, -, hopen⟩ := device_openXml "com.jd.app" (by decide)
  obtain ⟨w₁, hmain, hsave⟩ := exists_lifeStep_save w "com.jd.app" 2
  obtain ⟨tr, r, w₂, hload⟩ : ∃ tr r w₂, Exec (faultFree parseTagged corruptErrno)
      (xmlReadFile "/p" "com.jd.app") w₁ tr r w₂ := exists_exec_xmlReadFile w₁
  let d : Device UInt8 := { Device.start w₁ with removed := true, overtaken := true }
  have hchoice : d.choice "/p" true ⟨"com.jd.app", false⟩ = .ok .xml := by
    simp only [d, Device.choice, Device.start, fileExists, hmain]
    decide
  have hget : DeviceStep parseTagged "/p" "com.jd.app" true d (.got .xml r)
      { Device.start w₂ with cached := some (.xml, r), removed := true } :=
    .openXml rfl rfl hchoice (.load hload)
  have hrun : Run (guarded (DeviceStep parseTagged "/p" "com.jd.app" true) (NothingHidden "/p"))
      (.start oneXml) [.got .xml (some 1), .removed, .save 2 true] d :=
    .cons ⟨hopen, by simp, by simp [Device.start], by simp [Device.start]⟩
      (.cons ⟨.removed, .of_not_got (by simp)⟩
        (.cons ⟨.lateSave rfl hsave, .of_not_got (by simp)⟩ .nil))
  refine ⟨_, _, r, hget, ?_⟩
  rcases getPreferences_shows_saved (by decide) hrun hget
    ⟨by simp, by simp [d, Device.start], by simp [d, Device.start]⟩ with hsaved | ⟨x, hsaving, -⟩
  · exact hsaved
  · exact absurd hsaving (by simp [Ledger.after, Ledger.enter, DeviceEvent.entry])

end NativePreferences
