import NativePreferences.Helper.Backend

/-!
# NativePreferences.Helper.Registry

**The instances that a process has handed out** (`preferences_helper.cpp`), for all paths. They
are in `prefsCache_`, from the `GetPreferences` that made them to the call that takes them out
again, `RemovePreferencesFromCache` or `DeletePreferences`. Both close the instance first, and
leave it where it is if that fails.

Which backend `GetPreferencesInner` decides for, what `Init` returns and what the database
returns when it is to be closed are left open. A call takes `prefsCacheMutex_` once, and is one
step here; what `DeletePreferences` does to the files afterwards does not concern the cache.
-/

namespace NativePreferences

open Lib

/-! ### Paths -/

/-- Why a path is refused. -/
inductive PathError
  | emptyFilePath
  | pathExceedMaxLength
  | relativePath
  | emptyFileName
  deriving DecidableEq, Repr

/-- `GetRealPath`. A path that is accepted is used as it is. -/
def getRealPath (path : String) : Except PathError String :=
  if path.utf8ByteSize = 0 then .error .emptyFilePath
  else if pathMax < path.utf8ByteSize then .error .pathExceedMaxLength
  else if '/' ∉ path.toList then .error .relativePath
  else if path.toList.head? ≠ some '/' then .error .relativePath
  else if path.toList.getLast? = some '/' then .error .emptyFileName
  else .ok path

theorem getRealPath_ok {path realPath : String} (h : getRealPath path = .ok realPath) :
    realPath = path := by
  unfold getRealPath at h
  split_ifs at h
  cases h
  rfl

/-! ### The cache -/

/-- An instance that `GetPreferences` has returned. -/
structure HandedOut where
  path : String
  /-- Neither `Close` nor `CloseDb` has closed it. -/
  isOpen : Bool
  deriving DecidableEq

/-- An entry of `prefsCache_`: a pointer, by number, and whether the store is enhanced. -/
structure CacheEntry where
  pref : Option Nat
  isEnhance : Bool
  deriving DecidableEq

/-- What a process has of its stores. -/
structure Registry where
  /-- The instances, by number. -/
  made : Nat → HandedOut
  count : Nat
  prefsCache : Finmap (fun _ : String => CacheEntry)

namespace Registry

/-- A process that has not used a store. -/
def initial : Registry := { made := fun _ => ⟨"", false⟩, count := 0, prefsCache := ∅ }

/-! ### The functions -/

/-- The end of `GetPreferences`: an instance is made, and kept if `Init` succeeds. -/
def makeInstance (realPath : String) (inner : Except ErrCode StorageType) (initCode : ErrCode)
    (w : Registry) : Option Nat × Registry :=
  match inner with
  | .error _ => (none, w)
  | .ok type =>
      if initCode ≠ .ok then (none, w)
      else
        (some w.count,
          { made := Function.update w.made w.count ⟨realPath, true⟩
            count := w.count + 1
            prefsCache := w.prefsCache.insert realPath ⟨some w.count, decide (type = .gskv)⟩ })

/-- `GetPreferences`. -/
def getPreferences (path : String) (inner : Except ErrCode StorageType) (initCode : ErrCode)
    (w : Registry) : Option Nat × Registry :=
  match getRealPath path with
  | .error _ => (none, w)
  | .ok realPath =>
      match w.prefsCache.lookup realPath with
      | some ⟨some i, _⟩ => (some i, w)
      | some ⟨none, _⟩ =>
          makeInstance realPath inner initCode
            { w with prefsCache := w.prefsCache.erase realPath }
      | none => makeInstance realPath inner initCode w

/-- The instance is closed. -/
def setClosed (i : Nat) (w : Registry) : Registry :=
  { w with made := Function.update w.made i { w.made i with isOpen := false } }

/-- `PreferencesEnhanceImpl::CloseDb`, where the database returns `closeCode`. -/
def closeDb (i : Nat) (closeCode : ErrCode) (w : Registry) : ErrCode × Registry :=
  if (w.made i).isOpen then
    if closeCode ≠ .ok then (closeCode, w) else (.ok, w.setClosed i)
  else (.ok, w)

/-- `PreferencesImpl::Close`. -/
def close (i : Nat) (w : Registry) : ErrCode × Registry := (.ok, w.setClosed i)

/-- The instance of an entry is closed, if there is one. -/
def closeEntry (entry : CacheEntry) (closeCode : ErrCode) (w : Registry) : ErrCode × Registry :=
  match entry.pref with
  | some i => if entry.isEnhance then w.closeDb i closeCode else w.close i
  | none => (.ok, w)

/-- `DeletePreferencesCache`. -/
def deletePreferencesCache (realPath : String) (closeCode : ErrCode) (w : Registry) :
    ErrCode × Registry :=
  match w.prefsCache.lookup realPath with
  | none => (.ok, w)
  | some entry =>
      let (errCode, w) := w.closeEntry entry closeCode
      if errCode = .ok then (.ok, { w with prefsCache := w.prefsCache.erase realPath })
      else (errCode, w)

/-- `DeletePreferences`, as far as it holds `prefsCacheMutex_`. -/
def deletePreferences (path : String) (closeCode : ErrCode) (w : Registry) :
    Except PathError ErrCode × Registry :=
  match getRealPath path with
  | .error e => (.error e, w)
  | .ok realPath =>
      let (errCode, w) := w.deletePreferencesCache realPath closeCode
      (.ok errCode, w)

/-- `RemovePreferencesFromCache`. -/
def removePreferencesFromCache (path : String) (closeCode : ErrCode) (w : Registry) :
    Except PathError ErrCode × Registry :=
  match getRealPath path with
  | .error e => (.error e, w)
  | .ok realPath =>
      match w.prefsCache.lookup realPath with
      | none => (.ok .ok, w)
      | some entry =>
          let (errCode, w) := w.closeEntry entry closeCode
          if errCode ≠ .ok then (.ok .error, w)
          else (.ok .ok, { w with prefsCache := w.prefsCache.erase realPath })

/-- What a call shows. -/
inductive Event
  /-- `GetPreferences` has returned instance `i`. -/
  | got (path : String) (i : Nat)
  /-- `GetPreferences` has returned no instance. -/
  | refused (path : String)
  | removedFromCache (path : String)
  | deleted (path : String)
  deriving DecidableEq

/-- One call. -/
inductive Step : Registry → Event → Registry → Prop
  | got {w w' : Registry} {path : String} {i : Nat}
      (inner : Except ErrCode StorageType) (initCode : ErrCode) :
      w.getPreferences path inner initCode = (some i, w') → Step w (.got path i) w'
  | refused {w w' : Registry} {path : String}
      (inner : Except ErrCode StorageType) (initCode : ErrCode) :
      w.getPreferences path inner initCode = (none, w') → Step w (.refused path) w'
  | removedFromCache {w : Registry} (path : String) (closeCode : ErrCode) :
      Step w (.removedFromCache path) (w.removePreferencesFromCache path closeCode).2
  | deleted {w : Registry} (path : String) (closeCode : ErrCode) :
      Step w (.deleted path) (w.deletePreferences path closeCode).2

/-! ### One call -/

variable {w w' : Registry} {ev : Event} {path : String} {i j : Nat}

/-- What is in the cache is open, and what is open is in the cache. -/
structure Sound (w : Registry) : Prop where
  entry_open : ∀ path entry, w.prefsCache.lookup path = some entry →
    ∃ i < w.count, entry.pref = some i ∧ w.made i = ⟨path, true⟩
  open_cached : ∀ i < w.count, (w.made i).isOpen = true →
    ∃ entry, w.prefsCache.lookup (w.made i).path = some entry ∧ entry.pref = some i

/-- The entry of a path, with its instance. -/
theorem Sound.exists_pref (h : w.Sound) {entry : CacheEntry}
    (hentry : w.prefsCache.lookup path = some entry) :
    ∃ i isEnhance, entry = ⟨some i, isEnhance⟩ ∧ i < w.count ∧ w.made i = ⟨path, true⟩ := by
  obtain ⟨i, hi, hpref, hmade⟩ := h.entry_open path entry hentry
  obtain ⟨pref, isEnhance⟩ := entry
  obtain rfl : pref = some i := hpref
  exact ⟨i, isEnhance, rfl, hi, hmade⟩

/-- The registry after `GetPreferences` has made an instance. -/
def added (w : Registry) (path : String) (isEnhance : Bool) : Registry :=
  { made := Function.update w.made w.count ⟨path, true⟩
    count := w.count + 1
    prefsCache := w.prefsCache.insert path ⟨some w.count, isEnhance⟩ }

/-- The registry after an instance was closed and taken out. -/
def dropped (w : Registry) (path : String) (i : Nat) : Registry :=
  { w.setClosed i with prefsCache := w.prefsCache.erase path }

/-- The three things that a call may do. -/
inductive Outcome (w : Registry) : Event → Registry → Prop
  /-- Nothing. What `GetPreferences` returns is in the cache. -/
  | same {ev : Event} (hgot : ∀ path i, ev = .got path i →
      ∃ isEnhance, w.prefsCache.lookup path = some ⟨some i, isEnhance⟩) : Outcome w ev w
  | added {path : String} {isEnhance : Bool} (hmiss : w.prefsCache.lookup path = none) :
      Outcome w (.got path w.count) (w.added path isEnhance)
  | dropped {ev : Event} {path : String} {i : Nat} {isEnhance : Bool}
      (hev : ev = .removedFromCache path ∨ ev = .deleted path)
      (hhit : w.prefsCache.lookup path = some ⟨some i, isEnhance⟩) :
      Outcome w ev (w.dropped path i)

theorem getPreferences_outcome (h : w.Sound) {inner : Except ErrCode StorageType}
    {initCode : ErrCode} {r : Option Nat} (hcall : w.getPreferences path inner initCode = (r, w')) :
    (r = none ∧ w' = w) ∨ ∃ i, r = some i ∧ w.Outcome (.got path i) w' := by
  unfold getPreferences at hcall
  cases hreal : getRealPath path with
  | error e =>
      rw [hreal] at hcall
      obtain ⟨rfl, rfl⟩ := Prod.mk.inj hcall
      exact .inl ⟨rfl, rfl⟩
  | ok realPath =>
      obtain rfl := getRealPath_ok hreal
      rw [hreal] at hcall
      dsimp only at hcall
      cases hentry : w.prefsCache.lookup realPath with
      | some entry =>
          obtain ⟨i, isEnhance, rfl, -, -⟩ := h.exists_pref hentry
          rw [hentry] at hcall
          obtain ⟨rfl, rfl⟩ := Prod.mk.inj hcall
          refine .inr ⟨i, rfl, .same ?_⟩
          intro path i hev
          cases hev
          exact ⟨isEnhance, hentry⟩
      | none =>
          rw [hentry] at hcall
          dsimp only [makeInstance] at hcall
          cases inner with
          | error code =>
              obtain ⟨rfl, rfl⟩ := Prod.mk.inj hcall
              exact .inl ⟨rfl, rfl⟩
          | ok type =>
              dsimp only at hcall
              split at hcall
              · obtain ⟨rfl, rfl⟩ := Prod.mk.inj hcall
                exact .inl ⟨rfl, rfl⟩
              · obtain ⟨rfl, rfl⟩ := Prod.mk.inj hcall
                exact .inr ⟨w.count, rfl, .added hentry⟩

/-- An instance in the cache is closed, unless that fails. -/
theorem closeEntry_cases (hopen : (w.made i).isOpen = true) (isEnhance : Bool)
    (closeCode : ErrCode) :
    w.closeEntry ⟨some i, isEnhance⟩ closeCode = (.ok, w.setClosed i) ∨
      (closeCode ≠ .ok ∧ w.closeEntry ⟨some i, isEnhance⟩ closeCode = (closeCode, w)) := by
  cases isEnhance with
  | false => exact .inl rfl
  | true =>
      show w.closeDb i closeCode = _ ∨ _ ∧ w.closeDb i closeCode = _
      rw [closeDb, if_pos hopen]
      by_cases hcode : closeCode = .ok
      · exact .inl (if_neg (not_not.mpr hcode))
      · exact .inr ⟨hcode, if_pos hcode⟩

theorem same_outcome (hev : ∀ path i, ev ≠ .got path i) : w.Outcome ev w :=
  .same (fun path i hgot => absurd hgot (hev path i))

theorem removePreferencesFromCache_outcome (h : w.Sound) (path : String) (closeCode : ErrCode) :
    w.Outcome (.removedFromCache path) (w.removePreferencesFromCache path closeCode).2 := by
  unfold removePreferencesFromCache
  cases hreal : getRealPath path with
  | error e => exact same_outcome nofun
  | ok realPath =>
      obtain rfl := getRealPath_ok hreal
      dsimp only
      cases hentry : w.prefsCache.lookup realPath with
      | none => exact same_outcome nofun
      | some entry =>
          obtain ⟨i, isEnhance, rfl, -, hmade⟩ := h.exists_pref hentry
          have hopen : (w.made i).isOpen = true := by rw [hmade]
          obtain hclosed | ⟨hcode, hfailed⟩ := closeEntry_cases hopen isEnhance closeCode
          · dsimp only
            rw [hclosed]
            exact .dropped (.inl rfl) hentry
          · dsimp only
            rw [hfailed, if_pos hcode]
            exact same_outcome nofun

theorem deletePreferences_outcome (h : w.Sound) (path : String) (closeCode : ErrCode) :
    w.Outcome (.deleted path) (w.deletePreferences path closeCode).2 := by
  unfold deletePreferences
  cases hreal : getRealPath path with
  | error e => exact same_outcome nofun
  | ok realPath =>
      obtain rfl := getRealPath_ok hreal
      dsimp only
      unfold deletePreferencesCache
      cases hentry : w.prefsCache.lookup realPath with
      | none => exact same_outcome nofun
      | some entry =>
          obtain ⟨i, isEnhance, rfl, -, hmade⟩ := h.exists_pref hentry
          have hopen : (w.made i).isOpen = true := by rw [hmade]
          obtain hclosed | ⟨hcode, hfailed⟩ := closeEntry_cases hopen isEnhance closeCode
          · dsimp only
            rw [hclosed]
            exact .dropped (.inr rfl) hentry
          · dsimp only
            rw [hfailed]
            dsimp only
            rw [if_neg hcode]
            exact same_outcome nofun

theorem Step.outcome (hstep : w.Step ev w') (h : w.Sound) : w.Outcome ev w' := by
  cases hstep with
  | got inner initCode hcall =>
      obtain ⟨hnone, -⟩ | ⟨i, hsome, hout⟩ := getPreferences_outcome h hcall
      · cases hnone
      · obtain rfl := Option.some.inj hsome
        exact hout
  | refused inner initCode hcall =>
      obtain ⟨-, rfl⟩ | ⟨i, hsome, -⟩ := getPreferences_outcome h hcall
      · exact same_outcome nofun
      · cases hsome
  | removedFromCache path closeCode => exact removePreferencesFromCache_outcome h path closeCode
  | deleted path closeCode => exact deletePreferences_outcome h path closeCode

/-! ### Runs -/

theorem sound_initial : initial.Sound := by
  refine ⟨?_, ?_⟩
  · intro path entry hentry
    rw [initial, Finmap.lookup_empty] at hentry
    cases hentry
  · intro i hi _
    exact absurd hi (Nat.not_lt_zero i)

theorem Sound.added (h : w.Sound) {isEnhance : Bool} (hmiss : w.prefsCache.lookup path = none) :
    (w.added path isEnhance).Sound := by
  have hnew : (w.added path isEnhance).made w.count = ⟨path, true⟩ := Function.update_self ..
  have hold : ∀ i < w.count, (w.added path isEnhance).made i = w.made i :=
    fun i hi => Function.update_of_ne (Nat.ne_of_lt hi) _ _
  refine ⟨?_, ?_⟩
  · intro p entry hentry
    by_cases hp : p = path
    · rw [hp] at hentry ⊢
      obtain rfl := Option.some.inj ((Finmap.lookup_insert w.prefsCache).symm.trans hentry)
      exact ⟨w.count, Nat.lt_succ_self _, rfl, hnew⟩
    · obtain ⟨i, hi, hpref, hmade⟩ :=
        h.entry_open p entry ((Finmap.lookup_insert_of_ne w.prefsCache hp).symm.trans hentry)
      exact ⟨i, Nat.lt_succ_of_lt hi, hpref, (hold i hi).trans hmade⟩
  · intro i hi hopen
    obtain hi | rfl := Nat.lt_succ_iff_lt_or_eq.mp hi
    · rw [hold i hi] at hopen ⊢
      obtain ⟨entry, hentry, hpref⟩ := h.open_cached i hi hopen
      -- there was no entry of the new path
      have hne : (w.made i).path ≠ path := by
        intro heq
        rw [heq, hmiss] at hentry
        cases hentry
      exact ⟨entry, (Finmap.lookup_insert_of_ne w.prefsCache hne).trans hentry, hpref⟩
    · rw [hnew]
      exact ⟨_, Finmap.lookup_insert w.prefsCache, rfl⟩

theorem Sound.dropped (h : w.Sound) {isEnhance : Bool}
    (hhit : w.prefsCache.lookup path = some ⟨some i, isEnhance⟩) :
    (w.dropped path i).Sound := by
  have hclosed : ((w.dropped path i).made i).isOpen = false := by
    show (Function.update w.made i _ i).isOpen = false
    rw [Function.update_self]
  have hold : ∀ k, k ≠ i → (w.dropped path i).made k = w.made k :=
    fun k hk => Function.update_of_ne hk _ _
  obtain ⟨k, -, hk, hmade⟩ := h.entry_open path _ hhit
  obtain rfl : i = k := Option.some.inj hk
  refine ⟨?_, ?_⟩
  · intro p entry hentry
    have hp : p ≠ path := by
      intro heq
      rw [heq] at hentry
      exact nomatch (Finmap.lookup_erase path w.prefsCache).symm.trans hentry
    obtain ⟨k, hk, hpref, hmade'⟩ :=
      h.entry_open p entry ((Finmap.lookup_erase_ne hp).symm.trans hentry)
    have hki : k ≠ i := by
      intro heq
      rw [heq, hmade] at hmade'
      exact hp (congrArg HandedOut.path hmade').symm
    exact ⟨k, hk, hpref, (hold k hki).trans hmade'⟩
  · intro k hk hopen
    have hki : k ≠ i := by
      intro heq
      rw [heq, hclosed] at hopen
      cases hopen
    rw [hold k hki] at hopen ⊢
    obtain ⟨entry, hentry, hpref⟩ := h.open_cached k hk hopen
    have hne : (w.made k).path ≠ path := by
      intro heq
      rw [heq, hhit] at hentry
      obtain rfl := Option.some.inj hentry
      exact hki (Option.some.inj hpref).symm
    exact ⟨entry, (Finmap.lookup_erase_ne hne).trans hentry, hpref⟩

theorem Sound.step (h : w.Sound) (hstep : w.Step ev w') : w'.Sound := by
  cases hstep.outcome h with
  | same => exact h
  | added hmiss => exact h.added hmiss
  | dropped _ hhit => exact h.dropped hhit

theorem sound_run {ls : List Event} (hrun : Run Step w ls w') (h : w.Sound) : w'.Sound :=
  hrun.invariant (fun _ _ _ h hstep => h.step hstep) h

/-- Instance `i` has been handed out, and closed. -/
def Closed (i : Nat) (w : Registry) : Prop := i < w.count ∧ (w.made i).isOpen = false

/-- What is closed stays closed. -/
theorem Closed.step (hi : w.Closed i) (h : w.Sound) (hstep : w.Step ev w') : w'.Closed i := by
  obtain ⟨hlt, hclosed⟩ := hi
  cases hstep.outcome h with
  | same => exact ⟨hlt, hclosed⟩
  | @added path isEnhance _ =>
      refine ⟨Nat.lt_succ_of_lt hlt, ?_⟩
      show (Function.update w.made w.count _ i).isOpen = false
      rw [Function.update_of_ne (Nat.ne_of_lt hlt)]
      exact hclosed
  | @dropped _ path k isEnhance _ _ =>
      refine ⟨hlt, ?_⟩
      show (Function.update w.made k _ i).isOpen = false
      by_cases hk : i = k
      · rw [hk, Function.update_self]
      · rw [Function.update_of_ne hk]
        exact hclosed

/-- Instance `i` is open, and is the one of this path. -/
def Serves (path : String) (i : Nat) (w : Registry) : Prop :=
  i < w.count ∧ w.made i = ⟨path, true⟩

/-- An instance is closed by a call on its path only. -/
theorem Serves.step (hi : w.Serves path i) (h : w.Sound) (hstep : w.Step ev w') :
    w'.Serves path i ∨
      ((ev = .removedFromCache path ∨ ev = .deleted path) ∧ w'.Closed i) := by
  obtain ⟨hlt, hmade⟩ := hi
  cases hstep.outcome h with
  | same => exact .inl ⟨hlt, hmade⟩
  | added =>
      refine .inl ⟨Nat.lt_succ_of_lt hlt, ?_⟩
      exact (Function.update_of_ne (Nat.ne_of_lt hlt) _ _).trans hmade
  | @dropped _ p k isEnhance hev hhit =>
      by_cases hk : i = k
      · obtain ⟨k', -, hk', hmade'⟩ := h.entry_open p _ hhit
        obtain rfl : k = k' := Option.some.inj hk'
        rw [← hk, hmade] at hmade'
        obtain rfl : path = p := congrArg HandedOut.path hmade'
        refine .inr ⟨hev, hlt, ?_⟩
        show (Function.update w.made k _ i).isOpen = false
        rw [hk, Function.update_self]
      · exact .inl ⟨hlt, (Function.update_of_ne hk _ _).trans hmade⟩

/-- What `GetPreferences` returns is open afterwards, and was the open instance of the path
before if there was one. -/
theorem Step.got_serves (hstep : w.Step (.got path j) w') (h : w.Sound) :
    w'.Serves path j ∧ (∀ i, w.Serves path i → i = j) ∧ ¬ w.Closed j := by
  generalize hev : Event.got path j = ev at hstep
  cases hstep.outcome h with
  | same hgot =>
      obtain ⟨isEnhance, hentry⟩ := hgot path j hev.symm
      obtain ⟨k, hk, hpref, hmade⟩ := h.entry_open path _ hentry
      obtain rfl : j = k := Option.some.inj hpref
      refine ⟨⟨hk, hmade⟩, ?_, ?_⟩
      · intro i ⟨hi, hmade'⟩
        obtain ⟨entry, hentry', hpref'⟩ := h.open_cached i hi (by rw [hmade'])
        rw [hmade', hentry] at hentry'
        obtain rfl := Option.some.inj hentry'
        exact (Option.some.inj hpref').symm
      · intro hclosed
        have hopen := hclosed.2
        rw [hmade] at hopen
        cases hopen
  | @added p isEnhance hmiss =>
      obtain ⟨rfl, rfl⟩ := Event.got.inj hev
      refine ⟨⟨Nat.lt_succ_self _, Function.update_self ..⟩, ?_, ?_⟩
      · intro i ⟨hi, hmade⟩
        obtain ⟨entry, hentry, -⟩ := h.open_cached i hi (by rw [hmade])
        rw [hmade, hmiss] at hentry
        cases hentry
      · exact fun hclosed => absurd hclosed.1 (Nat.lt_irrefl _)
  | dropped hdrop =>
      subst hev
      obtain hdrop | hdrop := hdrop
      · cases hdrop
      · cases hdrop

/-- In this run a call on the path closes instance `i`. -/
def ClosedDuring (path : String) (i : Nat) (w : Registry) (ls : List Event) (w' : Registry) :
    Prop :=
  ∃ ls₁ ev ls₂ u u', ls = ls₁ ++ ev :: ls₂ ∧
    Run Step w ls₁ u ∧ Step u ev u' ∧ Run Step u' ls₂ w' ∧
    (ev = .removedFromCache path ∨ ev = .deleted path) ∧ u.Serves path i ∧ u'.Closed i

/-- An instance serves its path until a call on the path closes it. -/
theorem Serves.run {ls : List Event} (hi : w.Serves path i) (h : w.Sound)
    (hrun : Run Step w ls w') (hnever : ¬ ClosedDuring path i w ls w') : w'.Serves path i := by
  by_contra hend
  obtain ⟨ls₁, ev, ls₂, u, u', hls, hbefore, hstep, hafter, hserves, hnot⟩ :=
    hrun.exists_change (P := Serves path i) hi hend
  have hu : u.Sound := sound_run hbefore h
  obtain hstill | ⟨hev, hclosed⟩ := hserves.step hu hstep
  · exact hnot hstill
  · exact hnever ⟨ls₁, ev, ls₂, u, u', hls, hbefore, hstep, hafter, hev, hserves, hclosed⟩

/-- What a run has closed is closed at its end. -/
theorem ClosedDuring.closed {ls : List Event} (hduring : ClosedDuring path i w ls w')
    (h : w.Sound) : w'.Closed i := by
  obtain ⟨ls₁, ev, ls₂, u, u', -, hbefore, hstep, hafter, -, -, hclosed⟩ := hduring
  have hu' : u'.Sound := (sound_run hbefore h).step hstep
  have hkept : w'.Sound ∧ w'.Closed i :=
    hafter.invariant (I := fun w => w.Sound ∧ w.Closed i)
      (fun _ _ _ hI hstep => ⟨hI.1.step hstep, hI.2.step hI.1 hstep⟩) ⟨hu', hclosed⟩
  exact hkept.2

/-! ### The instances of one path -/

/-- After any calls, whatever fails in them: of the instances of one path at most one is open,
that one is in the cache, and what is in the cache is open. Two calls of `GetPreferences` that
return an instance return the same one exactly if no call on the path has closed it between. -/
theorem registry_sound {ls : List Event} (hrun : Run Step initial ls w) :
    (∀ i < w.count, ∀ j < w.count, (w.made i).isOpen = true → (w.made j).isOpen = true →
      (w.made i).path = (w.made j).path → i = j) ∧
    (∀ i < w.count, (w.made i).isOpen = true →
      ∃ entry, w.prefsCache.lookup (w.made i).path = some entry ∧ entry.pref = some i) ∧
    (∀ path entry, w.prefsCache.lookup path = some entry →
      ∃ i < w.count, entry.pref = some i ∧ w.made i = ⟨path, true⟩) ∧
    (∀ path i j w₁ ls' w₂ w₃, w.Step (.got path i) w₁ → Run Step w₁ ls' w₂ →
      w₂.Step (.got path j) w₃ → (j = i ↔ ¬ ClosedDuring path i w₁ ls' w₂)) := by
  have h : w.Sound := sound_run hrun sound_initial
  refine ⟨?_, h.open_cached, h.entry_open, ?_⟩
  · intro i hi j hj hiopen hjopen hpath
    obtain ⟨entry, hentry, hpref⟩ := h.open_cached i hi hiopen
    obtain ⟨entry', hentry', hpref'⟩ := h.open_cached j hj hjopen
    rw [hpath, hentry'] at hentry
    obtain rfl := Option.some.inj hentry
    exact Option.some.inj (hpref.symm.trans hpref')
  · intro path i j w₁ ls' w₂ w₃ hfirst hbetween hsecond
    have h₁ : w₁.Sound := h.step hfirst
    have h₂ : w₂.Sound := sound_run hbetween h₁
    obtain ⟨-, hsame, hfresh⟩ := hsecond.got_serves h₂
    constructor
    · intro hji hduring
      rw [hji] at hfresh
      exact hfresh (hduring.closed h₁)
    · intro hnever
      exact (hsame i ((hfirst.got_serves h).1.run h₁ hbetween hnever)).symm

/-- An instance is got, taken out and got again: it is another one, so the first was closed. -/
theorem registry_sound_reopened :
    ∃ w₁ w₂ w₃, initial.Step (.got "/data/a" 0) w₁ ∧
      w₁.Step (.removedFromCache "/data/a") w₂ ∧ w₂.Step (.got "/data/a" 1) w₃ ∧
      ClosedDuring "/data/a" 0 w₁ [.removedFromCache "/data/a"] w₂ := by
  have hfirst : initial.Step (.got "/data/a" 0)
      (initial.getPreferences "/data/a" (.ok .xml) .ok).2 := .got (.ok .xml) .ok rfl
  have hremoved := Step.removedFromCache
    (w := (initial.getPreferences "/data/a" (.ok .xml) .ok).2) "/data/a" .ok
  have hsecond : Step (removePreferencesFromCache "/data/a" .ok
      (initial.getPreferences "/data/a" (.ok .xml) .ok).2).2 (.got "/data/a" 1) _ :=
    .got (.ok .xml) .ok rfl
  refine ⟨_, _, _, hfirst, hremoved, hsecond, ?_⟩
  by_contra hnever
  have hsame := (registry_sound .nil).2.2.2 _ _ _ _ _ _ _ hfirst (.cons hremoved .nil) hsecond
  exact absurd (hsame.mpr hnever) Nat.one_ne_zero

end Registry

end NativePreferences
