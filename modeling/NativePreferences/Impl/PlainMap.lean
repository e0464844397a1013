import NativePreferences.Lib.Reactive
import NativePreferences.Impl.Machine

/-!
# NativePreferences.Impl.PlainMap

**A loaded store behaves like a plain map.** What a client may expect of a store is said by
`PlainMap.call`: a finite map that `Put` updates, `Delete` erases from and `Clear` empties,
and that the reading functions look things up in. Snapshots for the file do not concern it.

The code is further away from that than it looks. `Clear` leaves the cached values in place
and only raises a flag, which the next `Put` or snapshot resolves; and `Put` keeps a stored
value that compares equal to the new one. So the two are related through what readers see,
with values compared by `operator==` (`Represents`).
-/

namespace NativePreferences

open Lib

/-! ### Comparison of replies -/

/-- Every value is what `operator==` takes for the value under the same key. -/
def PrefMap.Agrees (m n : PrefMap) : Prop :=
  ∀ key, Option.Rel (fun v w : PreferencesValue => v.eq w = true) (m.lookup key) (n.lookup key)

/-- The answers agree, with values compared by `operator==`. -/
def Answer.Agrees : Answer → Answer → Prop
  | .value v, .value w => v.eq w = true
  | .codeValue c v, .codeValue d w => c = d ∧ v.eq w = true
  | .bool a, .bool b => a = b
  | .map m, .map n => PrefMap.Agrees m n
  | .codeMap c m, .codeMap d n => c = d ∧ PrefMap.Agrees m n
  | _, _ => False

/-- What a call returns: `Put`, `Delete` and `Clear` a code, the reading functions an
answer. -/
inductive Reply
  | code (c : ErrCode)
  | answer (a : Answer)
  deriving DecidableEq

def Reply.Agrees : Reply → Reply → Prop
  | .code c, .code d => c = d
  | .answer a, .answer b => a.Agrees b
  | _, _ => False

/-! ### The two systems -/

/-- A request to a store: a client's call, or a `WriteToDiskFile`, each with the weather it
meets. -/
inductive Request
  | call (o : Weather) (op : Op)
  | writeToDiskFile (o : Weather)
  deriving DecidableEq

/-- A call of a store. -/
def Store.call (o : Weather) (s : Store) : Op → Reply × Store
  | .put key value => ((s.put o key value).map .code id)
  | .delete key => ((s.delete o key).map .code id)
  | .clear => ((s.clear o).map .code id)
  | .query q => ((s.query o q).map .answer id)

/-- A request to a store. A client sees nothing of a `WriteToDiskFile`. -/
def Store.serve (s : Store) : Request → Option Reply × Store
  | .call o op => (s.call o op).map some id
  | .writeToDiskFile o => (none, (s.writeToDiskFile o).store)

/-- The same calls on a plain map. -/
def PlainMap.call (m : PrefMap) : Op → Reply × PrefMap
  | .put key value =>
      if (Op.put key value).check = .ok then (.code .ok, m.insert key value)
      else (.code (Op.put key value).check, m)
  | .delete key =>
      if checkKey key = .ok then (.code .ok, m.erase key) else (.code (checkKey key), m)
  | .clear => (.code .ok, ∅)
  | .query q => if q.check = .ok then (.answer (q.answer m), m) else (.answer q.rejected, m)

/-- A snapshot is nothing to a plain map. -/
def PlainMap.serve (m : PrefMap) : Request → Option Reply × PrefMap
  | .call _ op => (PlainMap.call m op).map some id
  | .writeToDiskFile _ => (none, m)

/-! ### The relation -/

/-- The value is no NaN and has none in it: it compares equal to itself. -/
def PreferencesValue.NoNaN (v : PreferencesValue) : Prop := v.eq v = true

instance (v : PreferencesValue) : Decidable v.NoNaN := inferInstanceAs (Decidable (_ = true))

def PrefMap.NoNaN (m : PrefMap) : Prop := ∀ key v, m.lookup key = some v → v.NoNaN

/-- The values that a call hands over, `Put`'s value and the default of a read, are no NaN. -/
def Op.NoNaN : Op → Prop
  | .put _ value => value.NoNaN
  | .query (.get _ defValue) | .query (.getValue _ defValue) => defValue.NoNaN
  | _ => True

def Request.NoNaN : Request → Prop
  | .call _ op => op.NoNaN
  | .writeToDiskFile _ => True

/-- `LoadFromDisk` is done, and there is no document that is still to be read. -/
structure Store.Loaded (s : Store) : Prop where
  loaded : s.loaded = true
  settled : s.loadResult = true ∨ s.disk = none

/-- Readers of `s` see the map `m`. -/
structure Represents (s : Store) (m : PrefMap) : Prop where
  loaded : s.Loaded
  agrees : PrefMap.Agrees s.cache.visible m

variable {s : Store} {m n : PrefMap} {o : Weather} {key : String} {value : PreferencesValue}

theorem PrefMap.NoNaN.agrees (h : m.NoNaN) : PrefMap.Agrees m m := by
  intro key
  cases hv : m.lookup key with
  | none => exact .none
  | some v => exact .some (h key v hv)

/-- Under each key there is nothing in both maps, or a value in each. -/
theorem PrefMap.Agrees.cases (h : PrefMap.Agrees m n) (key : String) :
    (m.lookup key = none ∧ n.lookup key = none) ∨
      ∃ v w, m.lookup key = some v ∧ n.lookup key = some w ∧ v.eq w = true := by
  have hrel := h key
  generalize m.lookup key = a at hrel ⊢
  generalize n.lookup key = b at hrel ⊢
  cases hrel with
  | none => exact .inl ⟨rfl, rfl⟩
  | some heq => exact .inr ⟨_, _, rfl, rfl, heq⟩

theorem PrefMap.Agrees.erase (h : PrefMap.Agrees m n) :
    PrefMap.Agrees (m.erase key) (n.erase key) := by
  intro k
  by_cases hk : k = key
  · rw [hk, Finmap.lookup_erase, Finmap.lookup_erase]
    exact .none
  · rw [Finmap.lookup_erase_ne hk, Finmap.lookup_erase_ne hk]
    exact h k

theorem PreferencesValue.Same.eq_of_noNaN {v : PreferencesValue} (h : v.Same value)
    (hnan : value.NoNaN) : v.eq value = true := by
  rcases h with rfl | heq
  · exact hnan
  · exact heq

/-- The critical section of `Put` is an insertion, up to `operator==`. -/
theorem PrefMap.Agrees.put {c : Cache} (h : PrefMap.Agrees c.visible m) (hnan : value.NoNaN) :
    PrefMap.Agrees (c.put key value c.isCleared).visible (m.insert key value) := by
  intro k
  by_cases hk : k = key
  · obtain ⟨v, hv, hsame⟩ : ∃ v, (c.put key value c.isCleared).visible.lookup key = some v ∧ _ :=
      Cache.visible_put_self
    rw [hk, hv, Finmap.lookup_insert]
    exact .some (hsame.eq_of_noNaN hnan)
  · rw [Cache.visible_put_of_ne hk, Finmap.lookup_insert_of_ne _ hk]
    exact h k

/-! ### Calls -/

/-- Nothing is read from the file of a loaded store. -/
theorem Store.Loaded.awaitLoadFile (h : s.Loaded) : s.awaitLoadFile o = s := by
  rw [Store.awaitLoadFile, if_pos h.loaded, Store.preLoad]
  cases hres : s.loadResult with
  | true => rfl
  | false =>
      rcases h.settled with hyes | hnone
      · exact absurd (hres.symm.trans hyes) (by simp)
      · simp only [Bool.false_eq_true, if_false]
        split
        · rw [Store.reloadFromDisk, hres, hnone]
          rfl
        · rfl

/-- What a reading function returns depends on what readers see only. -/
theorem Query.agrees_answer {q : Query} (h : PrefMap.Agrees m n) (hnan : (Op.query q).NoNaN) :
    (q.answer m).Agrees (q.answer n) := by
  cases q with
  | get key defValue =>
      show ((m.lookup key).getD defValue).eq ((n.lookup key).getD defValue) = true
      rcases h.cases key with ⟨hm, hn⟩ | ⟨v, w, hm, hn, heq⟩
      · rw [hm, hn]
        exact hnan
      · rw [hm, hn]
        exact heq
  | getValue key defValue =>
      rcases h.cases key with ⟨hm, hn⟩ | ⟨v, w, hm, hn, heq⟩
      · simp only [Query.answer, hm, hn]
        exact ⟨rfl, hnan⟩
      · simp only [Query.answer, hm, hn]
        exact ⟨rfl, heq⟩
  | hasKey key =>
      show (m.lookup key).isSome = (n.lookup key).isSome
      rcases h.cases key with ⟨hm, hn⟩ | ⟨v, w, hm, hn, -⟩
      · rw [hm, hn]
      · rw [hm, hn]
        rfl
  | getAll | getAllDatas => exact h
  | getAllData => exact ⟨rfl, h⟩

theorem PrefMap.agrees_empty : PrefMap.Agrees ∅ ∅ := PrefMap.NoNaN.agrees (by simp [PrefMap.NoNaN])

theorem Query.agrees_rejected {q : Query} (hnan : (Op.query q).NoNaN) :
    q.rejected.Agrees q.rejected := by
  cases q with
  | get key defValue => exact hnan
  | getValue key defValue => exact ⟨rfl, hnan⟩
  | hasKey key => rfl
  | getAll | getAllDatas => exact PrefMap.agrees_empty
  | getAllData => exact ⟨rfl, PrefMap.agrees_empty⟩

/-- **One call.** The replies agree, and what readers see afterwards is the map afterwards. -/
theorem Represents.call (h : Represents s m) {op : Op} (hnan : op.NoNaN) :
    (s.call o op).1.Agrees (PlainMap.call m op).1 ∧
      Represents (s.call o op).2 (PlainMap.call m op).2 := by
  have hload : s.awaitLoadFile o = s := h.loaded.awaitLoadFile
  cases op with
  | put key value =>
      by_cases hkey : checkKey key = .ok
      · by_cases hvalue : checkValue value = .ok
        · simp only [Store.call, Store.put, PlainMap.call, Op.check, hkey, hvalue, hload]
          exact ⟨rfl, ⟨h.loaded.loaded, h.loaded.settled⟩, h.agrees.put hnan⟩
        · simp only [Store.call, Store.put, PlainMap.call, Op.check, hkey, hvalue, if_true,
            if_false]
          exact ⟨rfl, h⟩
      · simp only [Store.call, Store.put, PlainMap.call, Op.check, hkey, if_false]
        exact ⟨rfl, h⟩
  | delete key =>
      by_cases hkey : checkKey key = .ok
      · simp only [Store.call, Store.delete, PlainMap.call, hkey, hload]
        refine ⟨rfl, ⟨h.loaded.loaded, h.loaded.settled⟩, ?_⟩
        show PrefMap.Agrees (s.cache.delete key s.cache.isCleared).visible (m.erase key)
        rw [Cache.visible_delete]
        exact h.agrees.erase
      · simp only [Store.call, Store.delete, PlainMap.call, hkey]
        exact ⟨rfl, h⟩
  | clear =>
      simp only [Store.call, Store.clear, hload]
      refine ⟨rfl, ⟨h.loaded.loaded, h.loaded.settled⟩, ?_⟩
      show PrefMap.Agrees s.cache.clear.visible ∅
      rw [Cache.visible_clear]
      exact PrefMap.agrees_empty
  | query q =>
      by_cases hcheck : q.check = .ok
      · simp only [Store.call, Store.query, PlainMap.call, hcheck, hload]
        exact ⟨Query.agrees_answer h.agrees hnan, h⟩
      · simp only [Store.call, Store.query, PlainMap.call, hcheck]
        exact ⟨Query.agrees_rejected hnan, h⟩

/-- A `WriteToDiskFile`, whether or not it works, is nothing to readers. -/
theorem Store.Loaded.writeToDiskFile_visible (h : s.Loaded) : (s.writeToDiskFile o).store.Loaded ∧
    (s.writeToDiskFile o).store.cache.visible = s.cache.visible := by
  have hvis : (s.cache.snapshot s.cache.isCleared).2.visible = s.cache.visible := by
    rw [Cache.snapshot_snd, Cache.visible_swept id]
  unfold Store.writeToDiskFile
  split
  · next cache hsnap =>
    rw [hsnap] at hvis
    exact ⟨⟨h.loaded, h.settled⟩, hvis⟩
  · next keysModified writeToDisk cache hsnap =>
    rw [hsnap] at hvis
    split
    · exact ⟨⟨h.loaded, .inl rfl⟩, hvis⟩
    · exact ⟨⟨h.loaded, h.settled⟩, hvis⟩

theorem Represents.writeToDiskFile (h : Represents s m) :
    Represents (s.writeToDiskFile o).store m := by
  obtain ⟨hloaded, hvis⟩ := h.loaded.writeToDiskFile_visible (o := o)
  refine ⟨hloaded, ?_⟩
  rw [hvis]
  exact h.agrees

/-- **A loaded store refines a plain map.** Whatever the requests and the weather, each reply
of the store agrees with that of a plain map which starts out with what readers see. -/
theorem replies_agree (hload : s.Loaded) (hnan : s.cache.visible.NoNaN) (rs : List Request)
    (hrs : ∀ r ∈ rs, r.NoNaN) :
    List.Forall₂ (Option.Rel Reply.Agrees) (respond Store.serve s rs).1
      (respond PlainMap.serve s.cache.visible rs).1 := by
  have hstart : Represents s s.cache.visible := ⟨hload, hnan.agrees⟩
  refine (respond_simulates (R := Represents) ?_ hstart rs hrs).1
  intro s m r h hok
  cases r with
  | call o op =>
      obtain ⟨hreply, hnext⟩ := h.call (o := o) hok
      exact ⟨.some hreply, hnext⟩
  | writeToDiskFile o => exact ⟨.none, h.writeToDiskFile⟩

/-- A `Put`, a `Clear`, a failing snapshot, a `Put` and two reads. -/
theorem replies_after_clear :
    Store.oneUnsaved.Loaded ∧
      List.Forall₂ (Option.Rel Reply.Agrees)
        (respond Store.serve Store.oneUnsaved
          [.call ⟨true, true, true⟩ .clear, .writeToDiskFile ⟨true, true, false⟩,
            .call ⟨true, true, true⟩ (.put "b" (.double 0)),
            .call ⟨true, true, true⟩ (.query (.get "a" (.int 7))),
            .call ⟨true, true, true⟩ (.query .getAll)]).1
        [some (.code .ok), none, some (.code .ok), some (.answer (.value (.int 7))),
          some (.answer (.map (Finmap.singleton "b" (.double 0))))] := by
  have hload : Store.oneUnsaved.Loaded := ⟨rfl, .inl rfl⟩
  have hvis : Store.oneUnsaved.cache.visible = Finmap.singleton "a" (.int 1) := by decide
  have hnan : Store.oneUnsaved.cache.visible.NoNaN := by
    intro key v hv
    rw [hvis] at hv
    by_cases hkey : key = "a"
    · rw [hkey, Finmap.lookup_singleton_eq] at hv
      obtain rfl : PreferencesValue.int 1 = v := Option.some.inj hv
      decide
    · rw [Finmap.lookup_eq_none.mpr (by rwa [Finmap.mem_singleton])] at hv
      exact absurd hv (by simp)
  refine ⟨hload, replies_agree hload hnan _ ?_⟩
  simp [Request.NoNaN, Op.NoNaN, PreferencesValue.NoNaN]
  decide

end NativePreferences
