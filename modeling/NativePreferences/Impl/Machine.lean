import NativePreferences.Lib.Threads
import NativePreferences.Impl.Store

/-!
# NativePreferences.Impl.Machine

**A live `PreferencesImpl` with any number of threads.** Clients call `Put`, `Delete`,
`Clear`, `Flush`, `FlushSync` and the reading functions; the executor runs scheduled
flush tasks; the load task started by `Init` runs whenever it gets a thread. `TStep` lists
what one thread can do next, one access to shared state at a time:

* `loaded_`, `loadResult_`, `isNeverUnlock_` and `isCleared_` are read and written in
  single steps, with or without a lock as in the source;
* `mutex_` is held from a `lock_guard` to the end of its scope. It protects every access
  to the file, so a read or a write of the file is one step;
* `cacheMutex_` is held over the critical sections of `Put`, `Delete` and the snapshot.
  Each has two steps, the read of `isCleared_` and the rest, because `Clear` raises the
  flag without taking the lock. A reading function and a reload touch nothing that
  changes during their critical section, so each is one step, taken while nobody holds
  the lock;
* the queue is one cell with an atomic push and an atomic pop.

What the file system does is open: `Access` may answer anything, a read may fail although
there is a document, a write may fail. A failing read or write leaves the document as it
is. `AwaitLoadFile` may give up waiting at any time.
-/

namespace NativePreferences

open Lib

/-! ### Calls and program counters -/

/-- The two ways to flush: as a scheduled task, or in the caller of `FlushSync`. -/
inductive Flusher
  | task
  | sync
  deriving DecidableEq

/-- The calls that wait for the load. -/
inductive Op
  | put (key : String) (value : PreferencesValue)
  | delete (key : String)
  | clear
  | query (q : Query)
  deriving DecidableEq

/-- The calls of a client. -/
inductive Call
  | op (o : Op)
  | flush
  | flushSync
  deriving DecidableEq

/-- The argument checks at the start of `Put`, `Delete` and the reading functions. -/
def Op.check : Op → ErrCode
  | .put key value => if checkKey key = .ok then checkValue value else checkKey key
  | .delete key => checkKey key
  | .clear => .ok
  | .query q => q.check

/-- Who called `PreLoad`, and goes on after it. -/
inductive Caller
  | op (o : Op)
  | flusher (f : Flusher)
  deriving DecidableEq

/-- Where a thread is. -/
inductive Pc
  | idle
  /-- `AwaitLoadFile`, before it reads `loaded_`. -/
  | await (o : Op)
  /-- `AwaitLoadFile`, waiting on `cond_`. -/
  | waiting (o : Op)
  /-- `PreLoad`, before it reads `loadResult_`. -/
  | preLoad (c : Caller)
  /-- `PreLoad`, before it takes `mutex_`. -/
  | preLoadLock (c : Caller)
  | preLoadLocked (c : Caller)
  /-- `ReloadFromDisk`, with `mutex_` held. -/
  | reload (c : Caller)
  /-- Past `AwaitLoadFile`, before the critical section. -/
  | enter (o : Op)
  /-- Inside the critical section, with the value `isCleared_` had. -/
  | putBody (key : String) (value : PreferencesValue) (cleared : Bool)
  | deleteBody (key : String) (cleared : Bool)
  /-- `Flush` or `FlushSync`, before `PushNoWait`. -/
  | push (f : Flusher)
  /-- `Flush`, after the push and before `Schedule`. -/
  | schedule
  /-- A flusher after `PreLoad`, before it takes `mutex_`. -/
  | flushLock (f : Flusher)
  /-- Before `PopNotWait`, with `mutex_` held. -/
  | pop (f : Flusher)
  /-- `WriteToDiskFile`, before it takes `cacheMutex_`. -/
  | snapshotLock (f : Flusher)
  | snapshot (f : Flusher) (cleared : Bool)
  /-- Before `WriteSettingXml`. -/
  | writeXml (f : Flusher) (keysModified : Finset String) (map : PrefMap)
  /-- After it. -/
  | written (f : Flusher) (keysModified : Finset String) (map : PrefMap)
  /-- Before the flusher leaves the scope of `mutex_` with this result. -/
  | unlock (f : Flusher) (code : ErrCode)
  /-- About to return, with no lock held. -/
  | ret (code : ErrCode)
  /-- `LoadFromDisk`, before it reads `loaded_`. -/
  | loadTask
  | loadLock
  /-- Inside `LoadFromDisk`, with `mutex_` held. -/
  | loadRead
  | loadStore (values : PrefMap)
  | loadFinish
  deriving DecidableEq

/-! ### Shared state -/

/-- What the threads share. -/
structure Shared extends Store where
  /-- The holder of `mutex_`. -/
  mutex : Option Tid
  /-- The writer that holds `cacheMutex_`. -/
  cacheMutex : Option Tid
  /-- Flush tasks that wait in the executor. -/
  scheduled : Nat
  /-- The load task waits in the executor. -/
  loadPending : Bool

/-- The state of the system. -/
abbrev Machine : Type := Threads Shared Pc

/-- A new instance on a file that holds `disk`: nothing but the load task is there. -/
def Machine.initial (disk : Option PrefMap) : Machine where
  sh :=
    { Store.initial disk with
      mutex := none, cacheMutex := none, scheduled := 0, loadPending := true }
  pc := fun _ => .idle

/-- An instance whose load task has read `values` and is done. -/
def Machine.loaded (values : PrefMap) : Machine where
  sh :=
    { Store.initial (some values) with
      loaded := true, loadResult := true, cache := Cache.initial.load values
      mutex := none, cacheMutex := none, scheduled := 0, loadPending := false }
  pc := fun _ => .idle

/-! ### Events -/

/-- What a step shows of itself. -/
inductive Ev
  /-- Nothing. -/
  | tau
  | call (c : Call)
  /-- An argument check failed; the call has returned. -/
  | reject (o : Op)
  /-- The call has returned with this code. -/
  | ret (code : ErrCode)
  /-- A critical section of `Put` or `Delete` begins. -/
  | put (key : String) (value : PreferencesValue)
  | delete (key : String)
  /-- `Clear` has taken effect and returned. -/
  | clear
  /-- A reading function has returned `a`. -/
  | answer (q : Query) (a : Answer)
  /-- `PushNoWait` found the queue full. -/
  | skipped (f : Flusher)
  | pushed (f : Flusher)
  | popped (f : Flusher)
  | reloaded
  | reloadFailed (c : Caller)
  /-- The snapshot of `WriteToDiskFile` begins. -/
  | snapshot (f : Flusher)
  | wrote (map : PrefMap)
  | writeFailed
  | notified (n : Notice)
  /-- `LoadFromDisk` has moved the values it read into the cache. -/
  | loadStored (values : PrefMap)
  deriving DecidableEq

/-- A step with the thread that made it. -/
abbrev Label : Type := Tid × Ev

/-! ### Steps -/

/-- Where the caller of `PreLoad` goes on when it returned `ok`. The task of `Flush` ends
when it is false, and `FlushSync` returns `E_OK`. -/
def Caller.resume : Caller → Bool → Pc
  | .op o, _ => .enter o
  | .flusher f, true => .flushLock f
  | .flusher .task, false => .idle
  | .flusher .sync, false => .ret .ok

/-- The caller goes on at one of four places. -/
theorem Caller.forall_resume {P : Pc → Prop} (henter : ∀ o, P (.enter o))
    (hlock : ∀ f, P (.flushLock f)) (hidle : P .idle) (hret : ∀ code, P (.ret code))
    (c : Caller) (ok : Bool) : P (c.resume ok) := by
  cases c with
  | op o => exact henter o
  | flusher f =>
      cases ok with
      | true => cases f <;> exact hlock _
      | false =>
          cases f with
          | task => exact hidle
          | sync => exact hret .ok

/-- Where a flusher goes on after its push. -/
def Flusher.afterPush : Flusher → Pc
  | .task => .schedule
  | .sync => .preLoad (.flusher .sync)

/-- The steps of thread `t`. -/
inductive TStep (t : Tid) : Shared → Pc → Ev → Shared → Pc → Prop
  -- calls
  | callOp {s : Shared} {o : Op} (hcheck : o.check = .ok) :
      TStep t s .idle (.call (.op o)) s (.await o)
  | reject {s : Shared} {o : Op} (hcheck : o.check ≠ .ok) : TStep t s .idle (.reject o) s .idle
  | callFlush {s : Shared} : TStep t s .idle (.call .flush) s (.push .task)
  | callFlushSync {s : Shared} : TStep t s .idle (.call .flushSync) s (.push .sync)
  -- AwaitLoadFile
  | awaitLoaded {s : Shared} {o : Op} (h : s.loaded = true) :
      TStep t s (.await o) .tau s (.preLoad (.op o))
  | awaitNotLoaded {s : Shared} {o : Op} (h : s.loaded = false) :
      TStep t s (.await o) .tau s (.waiting o)
  | waitEnd {s : Shared} {o : Op} (hfree : s.mutex = none) :
      TStep t s (.waiting o) .tau s (.enter o)
  -- PreLoad and ReloadFromDisk
  | preLoadDone {s : Shared} {c : Caller} (h : s.loadResult = true) :
      TStep t s (.preLoad c) .tau s (c.resume true)
  | preLoadGo {s : Shared} {c : Caller} (h : s.loadResult = false) :
      TStep t s (.preLoad c) .tau s (.preLoadLock c)
  | preLoadAcquire {s : Shared} {c : Caller} (hfree : s.mutex = none) :
      TStep t s (.preLoadLock c) .tau { s with mutex := some t } (.preLoadLocked c)
  | preLoadSkip {s : Shared} {c : Caller} {accessible : Bool}
      (h : (s.wantsReload && accessible) = false) :
      TStep t s (.preLoadLocked c) .tau { s with mutex := none } (c.resume true)
  | preLoadReload {s : Shared} {c : Caller} (h : s.wantsReload = true) :
      TStep t s (.preLoadLocked c) .tau s (.reload c)
  | reloadNotNeeded {s : Shared} {c : Caller} (h : s.loadResult = true) :
      TStep t s (.reload c) (.reloadFailed c) { s with mutex := none } (c.resume false)
  | reloadOk {s : Shared} {c : Caller} {values : PrefMap} (h : s.loadResult = false)
      (hfree : s.cacheMutex = none) (hread : s.disk = some values) :
      TStep t s (.reload c) .reloaded { s with toStore := s.toStore.reloaded values, mutex := none }
        (c.resume true)
  | reloadFail {s : Shared} {c : Caller} (h : s.loadResult = false)
      (hfree : s.cacheMutex = none) :
      TStep t s (.reload c) (.reloadFailed c) { s with mutex := none } (c.resume false)
  -- Put, Delete, Clear and the reading functions
  | putEnter {s : Shared} {key : String} {value : PreferencesValue}
      (hfree : s.cacheMutex = none) :
      TStep t s (.enter (.put key value)) (.put key value) { s with cacheMutex := some t }
        (.putBody key value s.cache.isCleared)
  | putBody {s : Shared} {key : String} {value : PreferencesValue} {cleared : Bool} :
      TStep t s (.putBody key value cleared) (.ret .ok)
        { s with cache := s.cache.put key value cleared, cacheMutex := none } .idle
  | deleteEnter {s : Shared} {key : String} (hfree : s.cacheMutex = none) :
      TStep t s (.enter (.delete key)) (.delete key) { s with cacheMutex := some t }
        (.deleteBody key s.cache.isCleared)
  | deleteBody {s : Shared} {key : String} {cleared : Bool} :
      TStep t s (.deleteBody key cleared) (.ret .ok)
        { s with cache := s.cache.delete key cleared, cacheMutex := none } .idle
  | clear {s : Shared} :
      TStep t s (.enter .clear) .clear { s with cache := s.cache.clear } .idle
  | query {s : Shared} {q : Query} (hfree : s.cacheMutex = none) :
      TStep t s (.enter (.query q)) (.answer q (q.answer s.cache.visible)) s .idle
  -- Flush and FlushSync
  | pushOk {s : Shared} {f : Flusher} (h : s.queue = none) :
      TStep t s (.push f) (.pushed f) { s with queue := some 1 } f.afterPush
  | pushFull {s : Shared} {f : Flusher} (h : s.queue ≠ none) :
      TStep t s (.push f) (.skipped f) s (.ret .ok)
  | schedule {s : Shared} :
      TStep t s .schedule (.ret .ok) { s with scheduled := s.scheduled + 1 } .idle
  | taskStart {s : Shared} {n : Nat} (h : s.scheduled = n + 1) :
      TStep t s .idle .tau { s with scheduled := n } (.preLoad (.flusher .task))
  | flushAcquire {s : Shared} {f : Flusher} (hfree : s.mutex = none) :
      TStep t s (.flushLock f) .tau { s with mutex := some t } (.pop f)
  | popToken {s : Shared} {f : Flusher} (h : s.queue = some 1) :
      TStep t s (.pop f) (.popped f) { s with queue := none } (.snapshotLock f)
  | popOther {s : Shared} {f : Flusher} {value : UInt64} (h : s.queue = some value)
      (hvalue : value ≠ 1) :
      TStep t s (.pop f) (.popped f) { s with queue := none } (.unlock f .ok)
  | popEmpty {s : Shared} {f : Flusher} (h : s.queue = none) :
      TStep t s (.pop f) .tau s (.unlock f .ok)
  | unlockTask {s : Shared} {code : ErrCode} :
      TStep t s (.unlock .task code) .tau { s with mutex := none } .idle
  | unlockSync {s : Shared} {code : ErrCode} :
      TStep t s (.unlock .sync code) .tau { s with mutex := none } (.ret code)
  | ret {s : Shared} {code : ErrCode} : TStep t s (.ret code) (.ret code) s .idle
  -- WriteToDiskFile
  | snapshotEnter {s : Shared} {f : Flusher} (hfree : s.cacheMutex = none) :
      TStep t s (.snapshotLock f) (.snapshot f) { s with cacheMutex := some t }
        (.snapshot f s.cache.isCleared)
  | snapshotClean {s : Shared} {f : Flusher} {cleared : Bool} {cache : Cache}
      (h : s.cache.snapshot cleared = (none, cache)) :
      TStep t s (.snapshot f cleared) .tau { s with cache, cacheMutex := none } (.unlock f .ok)
  | snapshotTake {s : Shared} {f : Flusher} {cleared : Bool} {cache : Cache}
      {keysModified : Finset String} {map : PrefMap}
      (h : s.cache.snapshot cleared = (some (keysModified, map), cache)) :
      TStep t s (.snapshot f cleared) .tau { s with cache, cacheMutex := none }
        (.writeXml f keysModified map)
  | writeOk {s : Shared} {f : Flusher} {keysModified : Finset String} {map : PrefMap} :
      TStep t s (.writeXml f keysModified map) (.wrote map)
        { s with toStore := s.toStore.wrote map } (.written f keysModified map)
  | writeFail {s : Shared} {f : Flusher} {keysModified : Finset String} {map : PrefMap} :
      TStep t s (.writeXml f keysModified map) .writeFailed s (.unlock f .error)
  | notify {s : Shared} {f : Flusher} {keysModified : Finset String} {map : PrefMap} :
      TStep t s (.written f keysModified map)
        (.notified { keysModified, writeToDisk := map })
        { s with toStore := s.toStore.markWritten } (.unlock f .ok)
  -- LoadFromDisk
  | loadStart {s : Shared} (h : s.loadPending = true) :
      TStep t s .idle .tau { s with loadPending := false } .loadTask
  | loadAlready {s : Shared} (h : s.loaded = true) : TStep t s .loadTask .tau s .idle
  | loadGo {s : Shared} (h : s.loaded = false) : TStep t s .loadTask .tau s .loadLock
  | loadAcquire {s : Shared} (hfree : s.mutex = none) (h : s.loaded = false) :
      TStep t s .loadLock .tau { s with mutex := some t } .loadRead
  | loadTooLate {s : Shared} (hfree : s.mutex = none) (h : s.loaded = true) :
      TStep t s .loadLock .tau s .idle
  | loadOk {s : Shared} {values : PrefMap} {never : Bool}
      (hnever : never = true ∨ never = s.isNeverUnlock) (hread : s.disk = some values) :
      TStep t s .loadRead .tau { s with isNeverUnlock := never } (.loadStore values)
  | loadFail {s : Shared} {never : Bool} (hnever : never = true ∨ never = s.isNeverUnlock) :
      TStep t s .loadRead .tau { s with isNeverUnlock := never } .loadFinish
  | loadStore {s : Shared} {values : PrefMap} (hfree : s.cacheMutex = none) :
      TStep t s (.loadStore values) (.loadStored values)
        { s with cache := s.cache.load values, loadResult := true, isNeverUnlock := false }
        .loadFinish
  | loadFinish {s : Shared} :
      TStep t s .loadFinish .tau { s with loaded := true, mutex := none } .idle

/-- One step of the system. -/
abbrev Machine.Step : Machine → Label → Machine → Prop := Threads.Step TStep

end NativePreferences
