import NativePreferences.Lib.Linearization
import NativePreferences.Lib.Threads
import NativePreferences.Impl.Store

/-!
# NativePreferences.Impl.CriticalSections

**The critical sections of `cacheMutex_`, access by access** (`preferences_impl.cpp`). Here
`Put`, `Delete`, the reading functions and the snapshot of `WriteToDiskFile` are taken apart:
each read or write of `isCleared_`, `valuesCache_` and `modifiedKeys_` is a step of its own,
and a loop over the cache takes one step for each entry, in any order. The reading functions
hold `cacheMutex_` shared, the others alone.

`Clear` takes no lock. It is one store to `isCleared_`, and may fall between any two of these
steps. In particular it may fall between the test of the flag in `Put` and the store that
lowers it, and then the flag is lowered right after it was raised.

What the calls do when they run alone is `Cache.perform`. `Impl.Atomicity` shows that this is
what they do in any case.
-/

namespace NativePreferences

open Lib

/-! ### Calls -/

/-- The calls that work on the cache. Arguments have been checked, and the file is loaded. -/
inductive CacheCall
  | put (key : String) (value : PreferencesValue)
  | delete (key : String)
  | clear
  | query (q : Query)
  /-- The snapshot of `WriteToDiskFile`. -/
  | snapshot
  deriving DecidableEq

/-- What they return. -/
inductive CacheReply
  | code (c : ErrCode)
  | answer (a : Answer)
  /-- The modified keys and the map to write, if there is anything to write. -/
  | taken (s : Option (Finset String × PrefMap))
  deriving DecidableEq

/-- A call that runs alone. -/
def Cache.perform (c : Cache) : CacheCall → CacheReply × Cache
  | .put key value => (.code .ok, c.put key value c.isCleared)
  | .delete key => (.code .ok, c.delete key c.isCleared)
  | .clear => (.code .ok, c.clear)
  | .query q => (.answer (q.answer c.visible), c)
  | .snapshot => (.taken (c.snapshot c.isCleared).1, (c.snapshot c.isCleared).2)

/-- The calls that carry out a `Clear` when they find the flag raised. -/
inductive Dropper
  | put (key : String) (value : PreferencesValue)
  | snapshot
  deriving DecidableEq

def Dropper.call : Dropper → CacheCall
  | .put key value => .put key value
  | .snapshot => .snapshot

/-! ### Program counters -/

/-- Where a thread is. Every call has a number `i`. -/
inductive Spot
  | idle
  /-- Before the lock, or, in `Clear`, before the store. -/
  | enter (i : Nat) (op : CacheCall)
  /-- `Put` or the snapshot, before the test of `isCleared_`. -/
  | flag (i : Nat) (d : Dropper)
  /-- With a raised flag, before the loop over the cache. -/
  | loop (i : Nat) (d : Dropper)
  /-- In the loop; these keys are still to be marked. -/
  | mark (i : Nat) (d : Dropper) (rest : List String)
  /-- Before `valuesCache_.clear()`. -/
  | empty (i : Nat) (d : Dropper)
  /-- Before the flag is lowered. -/
  | lower (i : Nat) (d : Dropper)
  /-- `Put` with the flag down, before it looks up the key. -/
  | putFind (i : Nat) (key : String) (value : PreferencesValue)
  /-- `Put`, before `insert_or_assign`. -/
  | putInsert (i : Nat) (key : String) (value : PreferencesValue) (cleared : Bool)
  /-- `Put`, before it marks the key. -/
  | putMark (i : Nat) (key : String) (value : PreferencesValue) (cleared : Bool)
  /-- `Delete`, before the test of `isCleared_`. -/
  | deleteFlag (i : Nat) (key : String)
  /-- With the flag down, before it looks up the key. -/
  | deleteFind (i : Nat) (key : String)
  | deleteErase (i : Nat) (key : String)
  | deleteMark (i : Nat) (key : String)
  /-- The snapshot, before it tests `modifiedKeys_`. -/
  | snapTest (i : Nat)
  | snapMove (i : Nat)
  | snapCopy (i : Nat) (keysModified : Finset String)
  /-- Before the end of the critical section. -/
  | leave (i : Nat) (r : CacheReply)
  /-- A reading function, before the test of `isCleared_`. -/
  | readFlag (i : Nat) (q : Query)
  /-- A reading function with the flag down, before its first look at the cache. -/
  | readFind (i : Nat) (q : Query)
  /-- `Get` or `GetValue`, before it copies the value it has found. -/
  | readValue (i : Nat) (q : Query)
  /-- In the loop of `GetAll` and its relatives; these keys are still to be copied. -/
  | readCopy (i : Nat) (q : Query) (rest : List String) (allDatas : PrefMap)
  | readLeave (i : Nat) (r : CacheReply)
  /-- About to return, with no lock held. -/
  | ret (i : Nat) (r : CacheReply)
  deriving DecidableEq

/-- What the threads share. -/
structure Cells where
  cache : Cache
  /-- Who holds `cacheMutex_` alone. -/
  writer : Option Tid
  /-- Who holds it shared. -/
  readers : Finset Tid
  /-- The number of the next call. -/
  next : Nat

/-- The state of the system. -/
abbrev CellMachine : Type := Threads Cells Spot

/-- Nothing has been called. -/
def CellMachine.initial (c : Cache) : CellMachine :=
  ⟨{ cache := c, writer := none, readers := ∅, next := 0 }, fun _ => .idle⟩

/-- What a step shows: a call, a return, or nothing. -/
abbrev CellEv : Type := Option (CallEvent CacheCall CacheReply)

/-! ### Steps -/

/-- The functions with a loop over the cache, as opposed to those with a key. -/
def Query.copies : Query → Bool
  | .getAll | .getAllData | .getAllDatas => true
  | .get _ _ | .getValue _ _ | .hasKey _ => false

/-- The key that a reading function looks up. -/
def Query.key : Query → String
  | .get key _ | .getValue key _ | .hasKey key => key
  | .getAll | .getAllData | .getAllDatas => ""

/-- What a reading function with a key returns for the value it has found, if any. -/
def Query.found : Query → Option PreferencesValue → Answer
  | .get _ defValue, v => .value (v.getD defValue)
  | .getValue _ _, some v => .codeValue .ok v
  | .getValue _ defValue, none => .codeValue .noData defValue
  | .hasKey _, v => .bool v.isSome
  | .getAll, _ | .getAllDatas, _ => .map ∅
  | .getAllData, _ => .codeMap .ok ∅

/-- What one with a loop returns for the entries it has copied. -/
def Query.copied : Query → PrefMap → Answer
  | .getAllData, m => .codeMap .ok m
  | _, m => .map m

/-- Where `Put` and the snapshot go on with the flag down. -/
def Spot.flagDown (i : Nat) : Dropper → Spot
  | .put key value => .putFind i key value
  | .snapshot => .snapTest i

/-- Where they go on with a raised flag once the cache is empty. -/
def Spot.afterEmpty (i : Nat) : Dropper → Spot
  | .put key value => .putInsert i key value true
  | .snapshot => .lower i .snapshot

/-- Where they go on once the flag is lowered. -/
def Spot.afterLower (i : Nat) : Dropper → Spot
  | .put _ _ => .leave i (.code .ok)
  | .snapshot => .snapTest i

/-- The steps of thread `t`. -/
inductive CellStep (t : Tid) : Cells → Spot → CellEv → Cells → Spot → Prop
  | call {s : Cells} {op : CacheCall} :
      CellStep t s .idle (some (.call s.next op)) { s with next := s.next + 1 } (.enter s.next op)
  | ret {s : Cells} {i : Nat} {r : CacheReply} :
      CellStep t s (.ret i r) (some (.ret i r)) s .idle
  -- Clear
  | clear {s : Cells} {i : Nat} :
      CellStep t s (.enter i .clear) none { s with cache := s.cache.clear } (.ret i (.code .ok))
  -- the lock
  | lock {s : Cells} {i : Nat} {op : CacheCall} {d : Dropper} (hop : op = d.call)
      (hfree : s.writer = none) (hnone : s.readers = ∅) :
      CellStep t s (.enter i op) none { s with writer := some t } (.flag i d)
  | lockDelete {s : Cells} {i : Nat} {key : String} (hfree : s.writer = none)
      (hnone : s.readers = ∅) :
      CellStep t s (.enter i (.delete key)) none { s with writer := some t } (.deleteFlag i key)
  | unlock {s : Cells} {i : Nat} {r : CacheReply} :
      CellStep t s (.leave i r) none { s with writer := none } (.ret i r)
  | lockShared {s : Cells} {i : Nat} {q : Query} (hfree : s.writer = none) :
      CellStep t s (.enter i (.query q)) none { s with readers := insert t s.readers }
        (.readFlag i q)
  | unlockShared {s : Cells} {i : Nat} {r : CacheReply} :
      CellStep t s (.readLeave i r) none { s with readers := s.readers.erase t } (.ret i r)
  -- the test of the flag, and a Clear that is carried out
  | flagDown {s : Cells} {i : Nat} {d : Dropper} (hdown : s.cache.isCleared = false) :
      CellStep t s (.flag i d) none s (Spot.flagDown i d)
  | flagUp {s : Cells} {i : Nat} {d : Dropper} (hup : s.cache.isCleared = true) :
      CellStep t s (.flag i d) none s (.loop i d)
  | loop {s : Cells} {i : Nat} {d : Dropper} {rest : List String}
      (hkeys : rest.toFinset = s.cache.valuesCache.keys) :
      CellStep t s (.loop i d) none s (.mark i d rest)
  | mark {s : Cells} {i : Nat} {d : Dropper} {key : String} {rest : List String} :
      CellStep t s (.mark i d (key :: rest)) none
        { s with cache := { s.cache with modifiedKeys := insert key s.cache.modifiedKeys } }
        (.mark i d rest)
  | marked {s : Cells} {i : Nat} {d : Dropper} :
      CellStep t s (.mark i d []) none s (.empty i d)
  | empty {s : Cells} {i : Nat} {d : Dropper} :
      CellStep t s (.empty i d) none { s with cache := { s.cache with valuesCache := ∅ } }
        (Spot.afterEmpty i d)
  | lower {s : Cells} {i : Nat} {d : Dropper} :
      CellStep t s (.lower i d) none { s with cache := { s.cache with isCleared := false } }
        (Spot.afterLower i d)
  -- Put
  | putSame {s : Cells} {i : Nat} {key : String} {value val : PreferencesValue}
      (hval : s.cache.valuesCache.lookup key = some val) (heq : val.eq value = true) :
      CellStep t s (.putFind i key value) none s (.leave i (.code .ok))
  | putOther {s : Cells} {i : Nat} {key : String} {value : PreferencesValue}
      (hval : ∀ val, s.cache.valuesCache.lookup key = some val → val.eq value = false) :
      CellStep t s (.putFind i key value) none s (.putInsert i key value false)
  | putInsert {s : Cells} {i : Nat} {key : String} {value : PreferencesValue} {cleared : Bool} :
      CellStep t s (.putInsert i key value cleared) none
        { s with
          cache := { s.cache with valuesCache := s.cache.valuesCache.insert key value } }
        (.putMark i key value cleared)
  | putMark {s : Cells} {i : Nat} {key : String} {value : PreferencesValue} {cleared : Bool} :
      CellStep t s (.putMark i key value cleared) none
        { s with cache := { s.cache with modifiedKeys := insert key s.cache.modifiedKeys } }
        (if cleared then .lower i (.put key value) else .leave i (.code .ok))
  -- Delete
  | deleteUp {s : Cells} {i : Nat} {key : String} (hup : s.cache.isCleared = true) :
      CellStep t s (.deleteFlag i key) none s (.leave i (.code .ok))
  | deleteDown {s : Cells} {i : Nat} {key : String} (hdown : s.cache.isCleared = false) :
      CellStep t s (.deleteFlag i key) none s (.deleteFind i key)
  | deleteMissing {s : Cells} {i : Nat} {key : String} (hkey : key ∉ s.cache.valuesCache) :
      CellStep t s (.deleteFind i key) none s (.leave i (.code .ok))
  | deleteFound {s : Cells} {i : Nat} {key : String} (hkey : key ∈ s.cache.valuesCache) :
      CellStep t s (.deleteFind i key) none s (.deleteErase i key)
  | deleteErase {s : Cells} {i : Nat} {key : String} :
      CellStep t s (.deleteErase i key) none
        { s with cache := { s.cache with valuesCache := s.cache.valuesCache.erase key } }
        (.deleteMark i key)
  | deleteMark {s : Cells} {i : Nat} {key : String} :
      CellStep t s (.deleteMark i key) none
        { s with cache := { s.cache with modifiedKeys := insert key s.cache.modifiedKeys } }
        (.leave i (.code .ok))
  -- the snapshot
  | snapClean {s : Cells} {i : Nat} (hmod : s.cache.modifiedKeys = ∅) :
      CellStep t s (.snapTest i) none s (.leave i (.taken none))
  | snapDirty {s : Cells} {i : Nat} (hmod : s.cache.modifiedKeys ≠ ∅) :
      CellStep t s (.snapTest i) none s (.snapMove i)
  | snapMove {s : Cells} {i : Nat} :
      CellStep t s (.snapMove i) none { s with cache := { s.cache with modifiedKeys := ∅ } }
        (.snapCopy i s.cache.modifiedKeys)
  | snapCopy {s : Cells} {i : Nat} {keysModified : Finset String} :
      CellStep t s (.snapCopy i keysModified) none s
        (.leave i (.taken (some (keysModified, s.cache.valuesCache))))
  -- the reading functions
  | readUp {s : Cells} {i : Nat} {q : Query} (hup : s.cache.isCleared = true) :
      CellStep t s (.readFlag i q) none s
        (.readLeave i (.answer (if q.copies then q.copied ∅ else q.found none)))
  | readDown {s : Cells} {i : Nat} {q : Query} (hdown : s.cache.isCleared = false) :
      CellStep t s (.readFlag i q) none s (.readFind i q)
  | readMissing {s : Cells} {i : Nat} {q : Query} (hq : q.copies = false)
      (hkey : s.cache.valuesCache.lookup q.key = none) :
      CellStep t s (.readFind i q) none s (.readLeave i (.answer (q.found none)))
  | readFound {s : Cells} {i : Nat} {q : Query} (hq : q.copies = false)
      (hkey : (s.cache.valuesCache.lookup q.key).isSome) :
      CellStep t s (.readFind i q) none s (.readValue i q)
  | readValue {s : Cells} {i : Nat} {q : Query} :
      CellStep t s (.readValue i q) none s
        (.readLeave i (.answer (q.found (s.cache.valuesCache.lookup q.key))))
  | readBegin {s : Cells} {i : Nat} {q : Query} {rest : List String} (hq : q.copies = true)
      (hkeys : rest.toFinset = s.cache.valuesCache.keys) :
      CellStep t s (.readFind i q) none s (.readCopy i q rest ∅)
  | readCopy {s : Cells} {i : Nat} {q : Query} {key : String} {rest : List String}
      {allDatas : PrefMap} {v : PreferencesValue}
      (hkey : s.cache.valuesCache.lookup key = some v) :
      CellStep t s (.readCopy i q (key :: rest) allDatas) none s
        (.readCopy i q rest (allDatas.insert key v))
  | readEnd {s : Cells} {i : Nat} {q : Query} {allDatas : PrefMap} :
      CellStep t s (.readCopy i q [] allDatas) none s
        (.readLeave i (.answer (q.copied allDatas)))

/-- One step of the system. -/
abbrev CellMachine.Step : CellMachine → Tid × CellEv → CellMachine → Prop := Threads.Step CellStep

/-- The calls and returns of a run. -/
def history (ls : List (Tid × CellEv)) : List (CallEvent CacheCall CacheReply) :=
  ls.filterMap Prod.snd

end NativePreferences
