import Mathlib.Data.Finset.Sort
import Mathlib.Data.String.Basic
import NativePreferences.Lib.Changes
import NativePreferences.Lib.Transition
import NativePreferences.Impl.PlainMap

/-!
# NativePreferences.Impl.Observers

**What a data observer of an XML store is told.** After each write, `NotifyPreferencesObserver`
goes through the modified keys and gives an observer those it has subscribed to, with the values
that were written. A key that is not in the written map comes with a monostate.

The modified keys are an account of what has changed since the last write. `Put`, `Delete` and
`Clear` may have touched more keys, and values that compare equal are not written; but the account
is complete, and the written map has what the keys in it hold. So an observer who replays the
records has the persisted map (`observer_replays`).
-/

namespace NativePreferences

open Lib

/-! ### Records -/

/-- The argument of `OnChange`, a `std::map`. -/
abbrev Records : Type := List (String × PreferencesValue)

/-- What a record says about its key: a monostate, that it is gone. -/
def PreferencesValue.recorded (value : PreferencesValue) : Option PreferencesValue :=
  if value = .monostate then none else some value

/-- Replay the records on a copy of a map. -/
def Records.replay (records : Records) (copy : PrefMap) : PrefMap :=
  applyChanges copy (records.map (fun record => (record.1, record.2.recorded)))

/-- Keys one after the other. -/
abbrev inOrder (keys : Finset String) : List String := keys.sort

namespace Notice

/-- The records for an observer with these keys. -/
def records (keys : Finset String) (n : Notice) : Records :=
  (inOrder (n.keysModified ∩ keys)).map
    (fun key => (key, (n.writeToDisk.lookup key).getD .monostate))

/-- The call of `OnChange`, which is left out where there is nothing to tell. -/
def onChange (keys : Finset String) (n : Notice) : Option Records :=
  if n.records keys = [] then none else some (n.records keys)

/-- An observer that replays what it is told. -/
def replay (keys : Finset String) (n : Notice) (copy : PrefMap) : PrefMap :=
  match n.onChange keys with
  | some records => records.replay copy
  | none => copy

variable {keys : Finset String} {n : Notice} {copy : PrefMap}

theorem replay_eq : n.replay keys copy = (n.records keys).replay copy := by
  unfold replay onChange
  by_cases hnone : n.records keys = []
  · rw [if_pos hnone, hnone]
    rfl
  · rw [if_neg hnone]

theorem mem_records {record : String × PreferencesValue} (h : record ∈ n.records keys) :
    record.1 ∈ n.keysModified ∧ record.1 ∈ keys ∧
      record.2 = (n.writeToDisk.lookup record.1).getD .monostate := by
  obtain ⟨key, hkey, rfl⟩ := List.mem_map.mp h
  obtain ⟨hmod, hin⟩ := Finset.mem_inter.mp ((Finset.mem_sort _).mp hkey)
  exact ⟨hmod, hin, rfl⟩

theorem exists_record {key : String} (hmod : key ∈ n.keysModified) (hin : key ∈ keys) :
    ∃ record ∈ n.records keys, record.1 = key :=
  ⟨_, List.mem_map_of_mem ((Finset.mem_sort _).mpr (Finset.mem_inter.mpr ⟨hmod, hin⟩)), rfl⟩

/-- Who has subscribed to all modified keys has the written map, if nothing else has changed and
no monostate was written. -/
theorem replay_eq_written (hkeys : ∀ key ∈ n.keysModified, key ∈ keys)
    (hreal : ∀ key ∈ n.keysModified, n.writeToDisk.lookup key ≠ some .monostate)
    (hsame : ∀ key, key ∉ n.keysModified → copy.lookup key = n.writeToDisk.lookup key) :
    n.replay keys copy = n.writeToDisk := by
  rw [replay_eq]
  refine applyChanges_eq ?_ ?_
  · intro c hc
    obtain ⟨record, hrecord, rfl⟩ := List.mem_map.mp hc
    obtain ⟨hmod, -, hvalue⟩ := mem_records hrecord
    have hne := hreal record.1 hmod
    show record.2.recorded = n.writeToDisk.lookup record.1
    rw [hvalue]
    cases hlookup : n.writeToDisk.lookup record.1 with
    | none => rfl
    | some v =>
        rw [hlookup] at hne
        exact if_neg (fun hv => hne (congrArg some hv))
  · intro key hother
    refine hsame key ?_
    intro hmod
    obtain ⟨record, hrecord, hkey⟩ := exists_record hmod (hkeys key hmod)
    exact hother _ (List.mem_map_of_mem hrecord) hkey.symm

end Notice

/-! ### The marked keys -/

namespace Cache

variable {c : Cache} {k key : String} {value : PreferencesValue}

theorem dirty_of_assign {value : PreferencesValue} (h : (c.assign key value).Dirty k) :
    k = key ∨ c.Dirty k := by
  obtain hmod | ⟨hcleared, hmem⟩ := h
  · obtain rfl | hmod := Finset.mem_insert.mp hmod
    · exact .inl rfl
    · exact .inr (.inl hmod)
  · obtain rfl | hmem := Finmap.mem_insert.mp hmem
    · exact .inl rfl
    · exact .inr (.inr ⟨hcleared, hmem⟩)

theorem dirty_of_dropCleared (hc : c.isCleared = true) (h : c.dropCleared.Dirty k) :
    c.Dirty k := by
  have hsettle : (c.settle true).Dirty k := h
  exact dirty_of_settle (fun _ => hc) hsettle

/-- `Put` marks its key at most. -/
theorem dirty_of_put (h : (c.put key value c.isCleared).Dirty k) : k = key ∨ c.Dirty k := by
  cases hc : c.isCleared with
  | true =>
      rw [hc] at h
      obtain hk | hdirty := dirty_of_assign h
      · exact .inl hk
      · exact .inr (dirty_of_dropCleared hc hdirty)
  | false =>
      rw [hc] at h
      simp only [Cache.put, Bool.false_eq_true, if_false] at h
      split at h
      · split at h
        · exact .inr h
        · exact dirty_of_assign h
      · exact dirty_of_assign h

/-- So does `Delete`. -/
theorem dirty_of_delete (h : (c.delete key c.isCleared).Dirty k) : k = key ∨ c.Dirty k := by
  unfold Cache.delete at h
  split at h
  · exact .inr h
  · split at h
    · obtain hmod | ⟨hcleared, hmem⟩ := h
      · obtain rfl | hmod := Finset.mem_insert.mp hmod
        · exact .inl rfl
        · exact .inr (.inl hmod)
      · exact .inr (.inr ⟨hcleared, (Finmap.mem_erase.mp hmem).2⟩)
    · exact .inr h

/-- `Clear` marks what readers see. -/
theorem dirty_of_clear (h : c.clear.Dirty k) : k ∈ c.visible.keys ∨ c.Dirty k := by
  obtain hmod | ⟨-, hmem⟩ := h
  · exact .inr (.inl hmod)
  · cases hc : c.isCleared with
    | true => exact .inr (.inr ⟨hc, hmem⟩)
    | false =>
        refine .inl (Finmap.mem_keys.mpr ?_)
        rw [visible_of_not_cleared hc]
        exact hmem

/-- No modified key holds a monostate. -/
def Real (c : Cache) : Prop :=
  ∀ key ∈ c.modifiedKeys, c.valuesCache.lookup key ≠ some .monostate

theorem real_dropCleared (c : Cache) : c.dropCleared.Real := by
  intro k _ hlookup
  rw [Cache.dropCleared, Finmap.lookup_empty] at hlookup
  cases hlookup

theorem Real.settle {cleared : Bool} (h : c.Real) : (c.settle cleared).Real := by
  cases cleared with
  | true => exact real_dropCleared c
  | false => exact h

theorem Real.assign (h : c.Real) (hvalue : value ≠ .monostate) : (c.assign key value).Real := by
  intro k hmod
  by_cases hk : k = key
  · rw [hk]
    show (c.valuesCache.insert key value).lookup key ≠ _
    rw [Finmap.lookup_insert]
    exact fun hsame => hvalue (Option.some.inj hsame)
  · show (c.valuesCache.insert key value).lookup k ≠ _
    rw [Finmap.lookup_insert_of_ne _ hk]
    exact h k (Finset.mem_of_mem_insert_of_ne hmod hk)

theorem Real.put {cleared : Bool} (h : c.Real) (hvalue : value ≠ .monostate) :
    (c.put key value cleared).Real := by
  unfold Cache.put
  split
  · exact (real_dropCleared c).assign hvalue
  · split
    · split
      · exact h
      · exact h.assign hvalue
    · exact h.assign hvalue

theorem Real.delete {cleared : Bool} (h : c.Real) : (c.delete key cleared).Real := by
  unfold Cache.delete
  split
  · exact h
  · split
    · intro k hmod
      show (c.valuesCache.erase key).lookup k ≠ _
      by_cases hk : k = key
      · rw [hk, Finmap.lookup_erase]
        exact fun hnone => nomatch hnone
      · rw [Finmap.lookup_erase_ne hk]
        exact h k (Finset.mem_of_mem_insert_of_ne hmod hk)
    · exact h

end Cache

/-! ### Histories -/

/-- The keys that a call writes, deletes or clears, where these are present. -/
def Op.touched (present : Finset String) (op : Op) : Finset String :=
  if op.check = .ok then
    match op with
    | .put key _ | .delete key => {key}
    | .clear => present
    | .query _ => ∅
  else ∅

/-- What is put is no monostate. -/
def Op.Real : Op → Prop
  | .put _ value => value ≠ .monostate
  | _ => True

/-- A store, and an observer with a copy of what is persisted. -/
structure Observed where
  store : Store
  copy : PrefMap
  /-- The keys that were written, deleted or cleared since the last flush. -/
  touched : Finset String

namespace Observed

/-- The observer has made its copy of a store that was just loaded. -/
def start (s : Store) : Observed := { store := s, copy := s.persisted, touched := ∅ }

def call (o : Weather) (op : Op) (x : Observed) : Observed :=
  { x with
    store := (x.store.call o op).2, touched := x.touched ∪ op.touched x.store.cache.visible.keys }

/-- The observer gets to know of the notices. -/
def flushed (keys : Finset String) (r : Flushed) (x : Observed) : Observed :=
  { store := r.store, copy := r.notices.foldl (fun copy n => n.replay keys copy) x.copy,
    touched := ∅ }

/-- A call of a client. Values are no monostates, the observer has subscribed to the keys, and
flushes succeed: those of `Flush` do what `FlushSync` would do. -/
inductive Step (keys : Finset String) : Observed → Weather × Call → Observed → Prop
  | call {x : Observed} {o : Weather} {op : Op} :
      op.Real → op.touched x.store.cache.visible.keys ⊆ keys →
      Step keys x (o, .op op) (x.call o op)
  | flush {x : Observed} {o : Weather} :
      (x.store.flushSync o).code = .ok → Step keys x (o, .flush) (x.flushed keys (x.store.flush o))
  | flushSync {x : Observed} {o : Weather} :
      (x.store.flushSync o).code = .ok →
      Step keys x (o, .flushSync) (x.flushed keys (x.store.flushSync o))

/-! ### What holds after every call -/

/-- The observer has the persisted map, and each marked key is one that it has subscribed to and
that was touched. -/
structure Replays (keys : Finset String) (x : Observed) : Prop where
  loaded : x.store.Loaded
  copy_eq : x.copy = x.store.persisted
  tracks : x.store.cache.Tracks x.store.persisted
  heard : ∀ key, x.store.cache.Dirty key → key ∈ keys
  /-- With a token left in the queue there are no more notices. -/
  touched : x.store.queue = none → ∀ key, x.store.cache.Dirty key → key ∈ x.touched
  real : x.store.cache.Real

variable {keys : Finset String} {x y : Observed} {o : Weather} {op : Op} {l : Weather × Call}

/-- A call that works on the cache of a loaded store. -/
theorem Replays.of_cache {c : Cache} {touched : Finset String} (h : x.Replays keys)
    (htracks : c.Tracks x.store.persisted) (hreal : c.Real) (hsub : touched ⊆ keys)
    (hdirty : ∀ k, c.Dirty k → k ∈ touched ∨ x.store.cache.Dirty k) :
    Replays keys
      { x with store := { x.store with cache := c }, touched := x.touched ∪ touched } where
  loaded := ⟨h.loaded.loaded, h.loaded.settled⟩
  copy_eq := h.copy_eq
  tracks := htracks
  heard := by
    intro k hk
    obtain hin | hold := hdirty k hk
    · exact hsub hin
    · exact h.heard k hold
  touched := by
    intro hqueue k hk
    obtain hin | hold := hdirty k hk
    · exact Finset.mem_union_right _ hin
    · exact Finset.mem_union_left _ (h.touched hqueue k hold)
  real := hreal

/-- A call that is refused, or reads. -/
theorem Replays.same (h : x.Replays keys) : Replays keys { x with touched := x.touched ∪ ∅ } := by
  have hsame := h.of_cache h.tracks h.real (Finset.empty_subset keys) (fun k hk => .inr hk)
  exact hsame

theorem Replays.call (h : x.Replays keys) (hreal : op.Real)
    (hsub : op.touched x.store.cache.visible.keys ⊆ keys) : (x.call o op).Replays keys := by
  have hload : x.store.awaitLoadFile o = x.store := h.loaded.awaitLoadFile
  cases op with
  | put key value =>
      by_cases hcheck : (Op.put key value).check = .ok
      · obtain ⟨hkey, hvalue⟩ : checkKey key = .ok ∧ checkValue value = .ok := by
          rw [Op.check] at hcheck
          split at hcheck
          · next hkey => exact ⟨hkey, hcheck⟩
          · next hkey => exact absurd hcheck hkey
        have htouched : (Op.put key value).touched x.store.cache.visible.keys = {key} :=
          if_pos hcheck
        simp only [Observed.call, Store.call, Store.put, hkey, hvalue, hload, if_true, htouched]
        rw [htouched] at hsub
        refine h.of_cache (h.tracks.put id) (h.real.put hreal) hsub ?_
        intro k hk
        rw [Finset.mem_singleton]
        exact Cache.dirty_of_put hk
      · have htouched : (Op.put key value).touched x.store.cache.visible.keys = ∅ := if_neg hcheck
        have hrefused : (x.store.put o key value).2 = x.store := by
          rw [Op.check] at hcheck
          rw [Store.put]
          split
          · next hkey => rw [if_neg (by rwa [if_pos hkey] at hcheck)]
          · rfl
        show Replays keys { x with store := (x.store.put o key value).2, touched := _ }
        rw [htouched, hrefused]
        exact h.same
  | delete key =>
      by_cases hkey : checkKey key = .ok
      · have htouched : (Op.delete key).touched x.store.cache.visible.keys = {key} := if_pos hkey
        simp only [Observed.call, Store.call, Store.delete, hkey, hload, if_true, htouched]
        rw [htouched] at hsub
        refine h.of_cache h.tracks.delete h.real.delete hsub ?_
        intro k hk
        rw [Finset.mem_singleton]
        exact Cache.dirty_of_delete hk
      · have htouched : (Op.delete key).touched x.store.cache.visible.keys = ∅ := if_neg hkey
        simp only [Observed.call, Store.call, Store.delete, hkey, if_false, htouched]
        exact h.same
  | clear =>
      have htouched : Op.clear.touched x.store.cache.visible.keys = x.store.cache.visible.keys :=
        if_pos rfl
      simp only [Observed.call, Store.call, Store.clear, hload, htouched]
      rw [htouched] at hsub
      exact h.of_cache h.tracks.clear h.real hsub (fun k hk => Cache.dirty_of_clear hk)
  | query q =>
      have htouched : (Op.query q).touched x.store.cache.visible.keys = ∅ := by
        rw [Op.touched]
        split <;> rfl
      have hread : (x.store.query o q).2 = x.store := by
        rw [Store.query]
        split
        · exact hload
        · rfl
      show Replays keys { x with store := (x.store.query o q).2, touched := _ }
      rw [htouched, hread]
      exact h.same

end Observed

/-! ### Flushes -/

namespace Store

variable {s : Store} {o : Weather}

theorem flush_eq : s.flush o = { s.flushSync o with code := .ok } := by
  rw [flush, flushSync]
  cases s.pushNoWait with
  | none => rfl
  | some s' => rfl

theorem Loaded.preLoad_snd (h : s.Loaded) : (s.preLoad o).2 = s := by
  have hawait : s.awaitLoadFile o = (s.preLoad o).2 := if_pos h.loaded
  rw [← hawait, h.awaitLoadFile]

/-- A flush of a loaded store finds a token in the queue, or leaves one there because it cannot
read the file, or writes. -/
theorem Loaded.flushSync_cases (h : s.Loaded) :
    (s.queue ≠ none ∧ s.flushSync o = { code := .ok, notices := [], store := s }) ∨
      (s.queue = none ∧
        (s.flushSync o = { code := .ok, notices := [], store := { s with queue := some 1 } } ∨
          s.flushSync o = s.writeToDiskFile o)) := by
  cases hqueue : s.queue with
  | some value =>
      refine .inl ⟨by simp, ?_⟩
      rw [flushSync, pushNoWait, hqueue]
  | none =>
      refine .inr ⟨rfl, ?_⟩
      have hloaded : Loaded { s with queue := some 1 } := ⟨h.loaded, h.settled⟩
      have hpre : (Store.preLoad o { s with queue := some 1 }).2 = { s with queue := some 1 } :=
        hloaded.preLoad_snd
      have hflush : s.flushSync o = flusher o { s with queue := some 1 } := by
        rw [flushSync, pushNoWait, hqueue]
      rw [hflush, flusher]
      generalize Store.preLoad o { s with queue := some 1 } = result at hpre ⊢
      obtain ⟨ok, s'⟩ := result
      obtain rfl : s' = { s with queue := some 1 } := hpre
      cases ok with
      | false => exact .inl rfl
      | true =>
          -- the token that was just pushed is taken out again
          have hback : { s with queue := none } = s := by rw [← hqueue]
          refine .inr ?_
          simp only [if_true, hback]

/-- What a write leaves behind, if it does not fail. -/
theorem writeToDiskFile_cases (hok : (s.writeToDiskFile o).code = .ok) :
    ((s.cache.settle s.cache.isCleared).modifiedKeys = ∅ ∧ s.writeToDiskFile o =
        { code := .ok, notices := [],
          store := { s with cache := s.cache.settle s.cache.isCleared } }) ∨
      s.writeToDiskFile o =
        { code := .ok,
          notices := [{
            keysModified := (s.cache.settle s.cache.isCleared).modifiedKeys,
            writeToDisk := (s.cache.settle s.cache.isCleared).valuesCache }],
          store := (wrote { s with cache := s.cache.swept s.cache.isCleared }
            (s.cache.settle s.cache.isCleared).valuesCache).markWritten } := by
  rw [writeToDiskFile] at hok ⊢
  obtain ⟨hmod, hsnap⟩ | ⟨-, hsnap⟩ := s.cache.snapshot_cases s.cache.isCleared
  · rw [hsnap]
    exact .inl ⟨hmod, rfl⟩
  · rw [hsnap] at hok ⊢
    cases hw : o.writable with
    | true => exact .inr rfl
    | false =>
        simp only [hw, Bool.false_eq_true, if_false] at hok
        exact absurd hok (by decide)

end Store

namespace Observed

variable {keys : Finset String} {x y : Observed} {o : Weather} {l : Weather × Call}

/-- Nothing is written. -/
theorem Replays.stuck (h : x.Replays keys) {queue : Option UInt64} (hqueue : queue ≠ none) :
    Replays keys { store := { x.store with queue }, copy := x.copy, touched := ∅ } where
  loaded := ⟨h.loaded.loaded, h.loaded.settled⟩
  copy_eq := h.copy_eq
  tracks := h.tracks
  heard := h.heard
  touched := fun hnone => absurd hnone hqueue
  real := h.real

/-- The records are what has changed on disk. -/
theorem Replays.replay_eq (h : x.Replays keys) :
    Notice.replay keys
      { keysModified := (x.store.cache.settle x.store.cache.isCleared).modifiedKeys
        writeToDisk := (x.store.cache.settle x.store.cache.isCleared).valuesCache } x.copy =
      (x.store.cache.settle x.store.cache.isCleared).valuesCache := by
  refine Notice.replay_eq_written ?_ h.real.settle ?_
  · intro key hmod
    exact h.heard key (Cache.dirty_of_settle id (.inl hmod))
  · -- a key that is not marked still holds what is persisted
    intro key hmod
    by_contra hne
    have hcleared := Cache.isCleared_settle x.store.cache
    have htracks : (x.store.cache.settle x.store.cache.isCleared).Tracks x.store.persisted :=
      h.tracks.settle id
    have hdirty := htracks key (by
      rw [Cache.visible_of_not_cleared hcleared, ← h.copy_eq]
      exact fun heq => hne heq.symm)
    obtain hin | ⟨hyes, -⟩ := hdirty
    · exact hmod hin
    · rw [hcleared] at hyes
      cases hyes

/-- A write with its notice. -/
theorem Replays.written (h : x.Replays keys) :
    Replays keys
      { store := (Store.wrote { x.store with cache := x.store.cache.swept x.store.cache.isCleared }
          (x.store.cache.settle x.store.cache.isCleared).valuesCache).markWritten,
        copy := (x.store.cache.settle x.store.cache.isCleared).valuesCache, touched := ∅ } where
  loaded := ⟨h.loaded.loaded, .inl rfl⟩
  copy_eq := rfl
  tracks := Cache.tracks_taken (x.store.cache.settle x.store.cache.isCleared)
  heard := fun k hk => absurd hk (Cache.clean_swept x.store.cache k)
  touched := fun _ k hk => absurd hk (Cache.clean_swept x.store.cache k)
  real := fun k hk => absurd hk (Finset.notMem_empty k)

/-- There was nothing to write. -/
theorem Replays.clean (h : x.Replays keys)
    (hmod : (x.store.cache.settle x.store.cache.isCleared).modifiedKeys = ∅) :
    Replays keys
      { store := { x.store with cache := x.store.cache.settle x.store.cache.isCleared },
        copy := x.copy, touched := ∅ } where
  loaded := ⟨h.loaded.loaded, h.loaded.settled⟩
  copy_eq := h.copy_eq
  tracks := h.tracks.settle id
  heard := fun k hk => h.heard k (Cache.dirty_of_settle id hk)
  touched := by
    intro _ k hk
    have hclean := Cache.clean_swept x.store.cache k
    rw [← Cache.swept_of_clean hmod] at hclean
    exact absurd hk hclean
  real := h.real.settle

theorem Replays.flushSync (h : x.Replays keys) (hok : (x.store.flushSync o).code = .ok) :
    (x.flushed keys (x.store.flushSync o)).Replays keys := by
  obtain ⟨hqueue, hflush⟩ | ⟨hqueue, hflush | hflush⟩ := h.loaded.flushSync_cases (o := o)
  · rw [hflush]
    exact h.stuck hqueue
  · rw [hflush]
    exact h.stuck (by simp)
  · rw [hflush] at hok ⊢
    obtain ⟨hmod, hwrite⟩ | hwrite := Store.writeToDiskFile_cases hok
    · rw [hwrite]
      exact h.clean hmod
    · rw [hwrite]
      have hcopy := h.replay_eq
      have hwritten := h.written
      simp only [flushed, List.foldl_cons, List.foldl_nil, hcopy]
      exact hwritten

theorem Replays.flush (h : x.Replays keys) (hok : (x.store.flushSync o).code = .ok) :
    (x.flushed keys (x.store.flush o)).Replays keys := by
  rw [Store.flush_eq]
  exact h.flushSync hok

theorem Replays.step (h : x.Replays keys) (hstep : Step keys x l y) : y.Replays keys := by
  cases hstep with
  | call hreal hsub => exact h.call hreal hsub
  | flush hok => exact h.flush hok
  | flushSync hok => exact h.flushSync hok

theorem replays_start {s : Store} (hload : s.Loaded)
    (hfresh : s.cache = Cache.initial.load s.persisted) : (Observed.start s).Replays keys := by
  have hclean : s.cache.Clean := by
    rw [hfresh]
    intro k hk
    obtain hmod | ⟨hcleared, -⟩ := hk
    · exact absurd hmod (Finset.notMem_empty k)
    · cases hcleared
  refine ⟨hload, rfl, ?_, fun k hk => absurd hk (hclean k), fun _ k hk => absurd hk (hclean k), ?_⟩
  · show s.cache.Tracks s.persisted
    rw [hfresh]
    exact Cache.tracks_load _ _
  · intro k hmod
    exact absurd (.inl hmod) (hclean k)

/-- A record is about a key that was touched. -/
theorem Replays.touched_of_record (h : x.Replays keys) (hok : (x.store.flushSync o).code = .ok)
    {n : Notice} (hn : n ∈ (x.store.flushSync o).notices) {record : String × PreferencesValue}
    (hrecord : record ∈ n.records keys) : record.1 ∈ x.touched := by
  obtain ⟨-, hflush⟩ | ⟨hqueue, hflush | hflush⟩ := h.loaded.flushSync_cases (o := o)
  · rw [hflush] at hn
    cases hn
  · rw [hflush] at hn
    cases hn
  · rw [hflush] at hok hn
    obtain ⟨-, hwrite⟩ | hwrite := Store.writeToDiskFile_cases hok
    · rw [hwrite] at hn
      cases hn
    · rw [hwrite] at hn
      obtain rfl := List.mem_singleton.mp hn
      obtain ⟨hmod, -⟩ := Notice.mem_records hrecord
      exact h.touched hqueue record.1 (Cache.dirty_of_settle id (.inl hmod))

end Observed

/-! ### The result -/

theorem fresh_loadFromDisk {disk : Option PrefMap} {o : Weather} {dirAccessible : Bool}
    (hload : ((Store.initial disk).loadFromDisk o dirAccessible).Loaded) :
    ((Store.initial disk).loadFromDisk o dirAccessible).cache =
      Cache.initial.load ((Store.initial disk).loadFromDisk o dirAccessible).persisted := by
  have hsettled := hload.settled
  cases disk with
  | none => cases dirAccessible <;> rfl
  | some values =>
      cases hread : o.readable with
      | true => cases dirAccessible <;> simp [Store.loadFromDisk, Store.initial, hread] <;> rfl
      | false =>
          cases dirAccessible <;> simp [Store.loadFromDisk, Store.initial, hread] at hsettled

/-- **An observer who replays the records has the persisted map.** Take a store that was loaded
from its file, and an observer with a copy of that, and any calls and flushes that succeed. When a
flush has given notice, the copy is what is persisted then, and the records are about keys that
were written, deleted or cleared since the flush before. -/
theorem observer_replays {disk : Option PrefMap} {o₀ : Weather} {dirAccessible : Bool}
    {keys : Finset String} {ls : List (Weather × Call)} {x : Observed}
    (hload : ((Store.initial disk).loadFromDisk o₀ dirAccessible).Loaded)
    (hrun : Run (Observed.Step keys) (.start ((Store.initial disk).loadFromDisk o₀ dirAccessible))
      ls x) (o : Weather) (hok : (x.store.flushSync o).code = .ok) (r : Flushed)
    (hr : r = x.store.flush o ∨ r = x.store.flushSync o) (n : Notice) (hn : n ∈ r.notices) :
    (x.flushed keys r).copy = r.store.persisted ∧
      ∀ record ∈ n.records keys, record.1 ∈ x.touched := by
  have hstart : Observed.Replays keys
      (.start ((Store.initial disk).loadFromDisk o₀ dirAccessible)) :=
    Observed.replays_start hload (fresh_loadFromDisk hload)
  have hreplays := hrun.invariant (fun _ _ _ h hstep => Observed.Replays.step h hstep) hstart
  obtain rfl | rfl := hr
  · refine ⟨(hreplays.flush hok).copy_eq, ?_⟩
    rw [Store.flush_eq] at hn
    exact fun record hrecord => hreplays.touched_of_record hok hn hrecord
  · exact ⟨(hreplays.flushSync hok).copy_eq,
      fun record hrecord => hreplays.touched_of_record hok hn hrecord⟩

/-- A key that is deleted. -/
theorem observer_replays_delete :
    ∃ x : Observed, x.copy = Finmap.singleton "a" (.int 1) ∧
      (x.flushed {"a"} (x.store.flushSync ⟨true, true, true⟩)).copy = ∅ := by
  have hrun : Run (Observed.Step {"a"})
      (.start ((Store.initial (some (Finmap.singleton "a" (.int 1)))).loadFromDisk
        ⟨true, true, true⟩ true))
      [(⟨true, true, true⟩, .op (.delete "a"))] _ :=
    .cons (.call trivial (by decide)) .nil
  have hreplay := observer_replays ⟨rfl, .inl rfl⟩ hrun ⟨true, true, true⟩ (by decide) _ (.inr rfl)
    ⟨{"a"}, ∅⟩ (by decide)
  exact ⟨_, by decide, hreplay.1.trans (by decide)⟩

end NativePreferences
