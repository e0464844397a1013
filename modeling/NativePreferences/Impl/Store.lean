import NativePreferences.Impl.Cache

/-!
# NativePreferences.Impl.Store

**A `PreferencesImpl` used by one thread at a time.** The functions of
`preferences_impl.cpp` are given as functions of the members and of the file, with no
other thread interfering. Whether the file is accessible, readable and writable is
decided by the environment at each call (`Weather`).

A file without a parseable document is `disk = none` and counts as the empty map
(`persisted`). A scheduled flush task is run to its end right away (`flush`); its body
and that of `FlushSync` are the same function `flusher`.
-/

namespace NativePreferences

/-! ### Reading functions -/

/-- A call of one of the reading functions. -/
inductive Query
  | get (key : String) (defValue : PreferencesValue)
  | getValue (key : String) (defValue : PreferencesValue)
  | hasKey (key : String)
  | getAll
  | getAllData
  | getAllDatas
  deriving DecidableEq

/-- What the reading functions return. -/
inductive Answer
  | value (v : PreferencesValue)
  | codeValue (code : ErrCode) (v : PreferencesValue)
  | bool (b : Bool)
  | map (m : PrefMap)
  | codeMap (code : ErrCode) (m : PrefMap)
  deriving DecidableEq

namespace Query

/-- The argument check; the functions without a key have none. -/
def check : Query → ErrCode
  | .get key _ | .getValue key _ | .hasKey key => checkKey key
  | .getAll | .getAllData | .getAllDatas => .ok

/-- What is returned for a key that `checkKey` refuses. -/
def rejected : Query → Answer
  | .get _ defValue => .value defValue
  | .getValue key defValue => .codeValue (checkKey key) defValue
  | .hasKey _ => .bool false
  | .getAll | .getAllDatas => .map ∅
  | .getAllData => .codeMap .ok ∅

/-- What is returned when the visible map is `m`. -/
def answer (m : PrefMap) : Query → Answer
  | .get key defValue => .value ((m.lookup key).getD defValue)
  | .getValue key defValue =>
      match m.lookup key with
      | some v => .codeValue .ok v
      | none => .codeValue .noData defValue
  | .hasKey key => .bool (m.lookup key).isSome
  | .getAll | .getAllDatas => .map m
  | .getAllData => .codeMap .ok m

end Query

/-! ### State -/

/-- The members of a `PreferencesImpl` and the map its file holds. -/
structure Store where
  loaded : Bool
  isNeverUnlock : Bool
  loadResult : Bool
  cache : Cache
  /-- `queue_`, a queue of capacity one. -/
  queue : Option UInt64
  /-- The document of the file and its backup. -/
  disk : Option PrefMap
  deriving DecidableEq

/-- What the file system allows during a call. -/
structure Weather where
  /-- `Access(filePath) == 0`. -/
  accessible : Bool
  /-- `ReadSettingXml` works, if there is a document. -/
  readable : Bool
  /-- `WriteSettingXml` works. -/
  writable : Bool
  deriving DecidableEq

/-- One call of `NotifyPreferencesObserver`. -/
structure Notice where
  keysModified : Finset String
  writeToDisk : PrefMap
  deriving DecidableEq

/-- What a call of `WriteToDiskFile` or a flush leaves behind. -/
structure Flushed where
  code : ErrCode
  notices : List Notice
  store : Store
  deriving DecidableEq

namespace Store

/-- The map the file holds; a file without a document counts as empty. -/
def persisted (s : Store) : PrefMap := s.disk.getD ∅

/-- A new instance on a file that holds `disk`. -/
def initial (disk : Option PrefMap) : Store :=
  { loaded := false, isNeverUnlock := false, loadResult := false, cache := .initial,
    queue := none, disk }

/-- `PushNoWait(1)`: fails when the queue is full. -/
def pushNoWait (s : Store) : Option Store :=
  match s.queue with
  | none => some { s with queue := some 1 }
  | some _ => none

/-! ### Loading -/

/-- `LoadFromDisk`, which asks for access to the directory of the file first. -/
def loadFromDisk (o : Weather) (dirAccessible : Bool) (s : Store) : Store :=
  if s.loaded then s
  else
    let s := if dirAccessible then s else { s with isNeverUnlock := true }
    match s.disk with
    | some values =>
        if o.readable then
          { s with
            cache := s.cache.load values, loadResult := true, isNeverUnlock := false,
            loaded := true }
        else { s with loaded := true }
    | none => { s with loaded := true }

/-- The store after `ReadSettingXml` gave `values` to `ReloadFromDisk`. -/
def reloaded (s : Store) (values : PrefMap) : Store :=
  { s with cache := s.cache.reload values, isNeverUnlock := false, loadResult := true }

/-- `ReloadFromDisk`. -/
def reloadFromDisk (o : Weather) (s : Store) : Bool × Store :=
  if s.loadResult then (false, s)
  else
    match s.disk with
    | some values => if o.readable then (true, s.reloaded values) else (false, s)
    | none => (false, s)

/-- Whether `PreLoad`, once it has the lock, tries to reload an accessible file. -/
def wantsReload (s : Store) : Bool := s.loaded && (s.isNeverUnlock || !s.loadResult)

/-- `PreLoad`. -/
def preLoad (o : Weather) (s : Store) : Bool × Store :=
  if s.loadResult then (true, s)
  else if s.wantsReload && o.accessible then s.reloadFromDisk o
  else (true, s)

/-- `AwaitLoadFile`. Without a load task there is nothing to wait for but the timeout. -/
def awaitLoadFile (o : Weather) (s : Store) : Store :=
  if s.loaded then (s.preLoad o).2 else s

/-- A reading function. -/
def query (o : Weather) (q : Query) (s : Store) : Answer × Store :=
  if q.check = .ok then
    let s := s.awaitLoadFile o
    (q.answer s.cache.visible, s)
  else (q.rejected, s)

/-- `Put`. -/
def put (o : Weather) (key : String) (value : PreferencesValue) (s : Store) : ErrCode × Store :=
  if checkKey key = .ok then
    if checkValue value = .ok then
      let s := s.awaitLoadFile o
      (.ok, { s with cache := s.cache.put key value s.cache.isCleared })
    else (checkValue value, s)
  else (checkKey key, s)

/-- `Delete`. -/
def delete (o : Weather) (key : String) (s : Store) : ErrCode × Store :=
  if checkKey key = .ok then
    let s := s.awaitLoadFile o
    (.ok, { s with cache := s.cache.delete key s.cache.isCleared })
  else (checkKey key, s)

/-- `Clear`. -/
def clear (o : Weather) (s : Store) : ErrCode × Store :=
  let s := s.awaitLoadFile o
  (.ok, { s with cache := s.cache.clear })

/-- The store after `WriteSettingXml` has written `map`. -/
def wrote (s : Store) (map : PrefMap) : Store := { s with disk := some map }

/-- The end of `WriteToDiskFile`: a written file counts as loaded. -/
def markWritten (s : Store) : Store := { s with isNeverUnlock := false, loadResult := true }

/-- `WriteToDiskFile`. The modified keys are taken before the write is tried. -/
def writeToDiskFile (o : Weather) (s : Store) : Flushed :=
  match s.cache.snapshot s.cache.isCleared with
  | (none, cache) => { code := .ok, notices := [], store := { s with cache } }
  | (some (keysModified, writeToDisk), cache) =>
      let s := { s with cache }
      if o.writable then
        { code := .ok, notices := [{ keysModified, writeToDisk }],
          store := (s.wrote writeToDisk).markWritten }
      else
        { code := .error, notices := [], store := s }

/-- The common body of `FlushSync` and of the task of `Flush`, after the push. -/
def flusher (o : Weather) (s : Store) : Flushed :=
  let (ok, s) := s.preLoad o
  if ok then
    match s.queue with
    | some value =>
        let s := { s with queue := none }
        if value = 1 then s.writeToDiskFile o
        else { code := .ok, notices := [], store := s }
    | none => { code := .ok, notices := [], store := s }
  else { code := .ok, notices := [], store := s }

/-- `FlushSync`. -/
def flushSync (o : Weather) (s : Store) : Flushed :=
  match s.pushNoWait with
  | some s => s.flusher o
  | none => { code := .ok, notices := [], store := s }

/-- `Flush`, with the task it schedules run to its end. `Flush` returns nothing. -/
def flush (o : Weather) (s : Store) : Flushed :=
  match s.pushNoWait with
  | some s => { s.flusher o with code := .ok }
  | none => { code := .ok, notices := [], store := s }

/-! ### A new instance -/

/-- A new instance shows the map the file holds. -/
theorem visible_loadFromDisk {o : Weather} (disk : Option PrefMap) (hread : o.readable = true)
    (dirAccessible : Bool) :
    ((Store.initial disk).loadFromDisk o dirAccessible).cache.visible = disk.getD ∅ := by
  cases disk with
  | none => cases dirAccessible <;> rfl
  | some values => cases dirAccessible <;> simp [loadFromDisk, Store.initial, hread] <;> rfl

/-- A loaded store with an empty file, in which 1 was put under "a". -/
def oneUnsaved : Store :=
  { loaded := true, isNeverUnlock := false, loadResult := true, queue := none, disk := some ∅,
    cache := Cache.initial.put "a" (.int 1) false }

end Store

end NativePreferences
