import NativePreferences.Enhance.Truthful
import NativePreferences.Lib.Threads

/-!
# NativePreferences.Enhance.Processes

**Several processes with stores on one database** (`sharedModeEnable`). Each process has a
`PreferencesEnhanceImpl` of its own. `dbMutex_` keeps the calls within a process apart, but
nothing keeps the processes apart: between any two kernel calls of one, the others may make any
number of theirs.

The kernel behaves as one map with a data version (`sharedKernel`). A committed write raises the
version; what counts as one apart from a `Put`, a `Delete` that finds its key and a
`DropCollection` is left open.

A call is judged by the states that the database had while it went on. The machine writes them
down: `seen` has the state at the call and after each kernel call that was made for it.
-/

namespace NativePreferences

open Lib

/-- The database. -/
structure SharedDb where
  collection : Option Collection
  version : Int64

/-- What it holds. -/
def SharedDb.contents (db : SharedDb) : Collection := NativePreferences.contents db.collection

/-- What a call does to the version. -/
def Commits : (c : KernelCall) → SharedDb → KernelAnswer c → SharedDb → Prop
  | .kvPut _ _, db, r, db' =>
      if r = .ok then db.version.toInt < db'.version.toInt else db'.version = db.version
  | .kvDel key, db, r, db' =>
      if r = .ok ∧ key ∈ db.contents then db.version.toInt < db'.version.toInt
      else db.version.toInt ≤ db'.version.toInt
  | .dropCollection, db, r, db' =>
      if r = .ok then db.version.toInt < db'.version.toInt else db'.version = db.version
  | .createCollection, db, _, db' => db.version.toInt ≤ db'.version.toInt
  | .kvGet _, db, _, db' | .kvFilter, db, _, db' => db'.version = db.version
  | .getConfig, db, r, db' => r = some db.version ∧ db'.version = db.version

/-- A kernel that behaves as one map with a data version. -/
def sharedKernel : Sem KernelCall KernelAnswer SharedDb := fun c db r db' =>
  mapKernel c db.collection r db'.collection ∧ Commits c db r db'

/-- Where a process is. -/
inductive Proc
  | idle (h : EnhanceImpl)
  /-- In the call `op`, with `p` still to be done. `h` is the store at the call. -/
  | busy (op : Op) (h : EnhanceImpl) (seen : List SharedDb)
      (p : KernelProgram (Reply × EnhanceImpl))

/-- What a step shows. -/
inductive ProcEv
  | call (op : Op)
  | kernel (ev : Event KernelAnswer)
  /-- The call returns. -/
  | ret (op : Op) (seen : List SharedDb) (reply : Reply)

/-- The steps of a process. -/
inductive ProcStep (t : Tid) : SharedDb → Proc → ProcEv → SharedDb → Proc → Prop
  | call {db : SharedDb} {h : EnhanceImpl} {op : Op} :
      ProcStep t db (.idle h) (.call op) db (.busy op h [db] (h.call op))
  | kernel {db db' : SharedDb} {op : Op} {h : EnhanceImpl} {seen : List SharedDb} {c : KernelCall}
      {k : KernelAnswer c → KernelProgram (Reply × EnhanceImpl)} {r : KernelAnswer c}
      (hS : sharedKernel c db r db') :
      ProcStep t db (.busy op h seen (.call c k)) (.kernel ⟨c, r⟩) db'
        (.busy op h (db' :: seen) (k r))
  | ret {db : SharedDb} {op : Op} {h h' : EnhanceImpl} {seen : List SharedDb} {reply : Reply} :
      ProcStep t db (.busy op h seen (.ret (reply, h'))) (.ret op seen reply) db (.idle h')

/-- The processes and their database. -/
abbrev Processes : Type := Threads SharedDb Proc

/-- All stores are new. -/
def Processes.initial (db : SharedDb) : Processes := ⟨db, fun _ => .idle .initial⟩

/-- One step of one process. -/
abbrev Processes.Step : Processes → Tid × ProcEv → Processes → Prop := Threads.Step ProcStep

/-! ### Answers -/

/-- What `Get`, `GetValue` and `HasKey` return, for a key that `checkKey` admits, is what the
collection says. -/
def Answer.Current (c : Collection) : Query → Answer → Prop
  | .get key defValue, a => checkKey key = .ok →
      (∃ v, Holds c key v ∧ a = .value v) ∨ ((∀ v, ¬ Holds c key v) ∧ a = .value defValue)
  | .getValue key defValue, a => checkKey key = .ok →
      (∃ v, Holds c key v ∧ a = .codeValue .ok v) ∨
        ((∀ v, ¬ Holds c key v) ∧ ∃ errCode, errCode ≠ .ok ∧ a = .codeValue errCode defValue)
  | .hasKey key, a => checkKey key = .ok →
      (key ∈ c ∧ a = .bool true) ∨ (key ∉ c ∧ a = .bool false)
  | .getAll, _ | .getAllData, _ | .getAllDatas, _ => True

/-- A reading call returned what the collection said at a moment while it went on. -/
def ReadCurrent (seen : List SharedDb) : Op → Reply → Prop
  | .query q, .answer a => ∃ db ∈ seen, a.Current db.contents q
  | _, _ => True

/-! ### The condition -/

/-- Every copy in the store is up to date, but for those of the keys in `K`. -/
def UpToDate (h : EnhanceImpl) (c : Collection) (K : String → Prop) : Prop :=
  ∀ key v, h.largeCachedData.lookup key = some v → ¬ K key → Holds c key v

/-- The keys with a large value. -/
def LargeIn (c : Collection) (key : String) : Prop :=
  ∃ oriValue, c.lookup key = some oriValue ∧ cachedThresholds ≤ oriValue.length

/-- An answer that makes the store move its version forward, other than with a write of its own,
finds its copies up to date. Copies that are replaced or dropped at the same time do not count. -/
def MovesUpToDate (op : Op) (h : EnhanceImpl) (c : Collection) : Event KernelAnswer → Prop
  | ⟨.kvGet key, r⟩ => r.1 = .ok → cachedThresholds ≤ r.2.length → UpToDate h c (· = key)
  | ⟨.kvFilter, r⟩ => r.1 = .ok → op ≠ .clear → UpToDate h c (LargeIn c)
  | ⟨.kvDel key, r⟩ => r = .ok → key ∈ h.largeCachedData → key ∉ c → UpToDate h c (· = key)
  | _ => True

/-- The step is one after which the store can be trusted. -/
def Coherent (m : Processes) : Tid × ProcEv → Prop
  | (_, .call (.put _ value)) => parcelSize value < 2 ^ 32
  | (t, .kernel ev) =>
      match m.pc t with
      | .busy op h _ _ => MovesUpToDate op h m.sh.contents ev
      | .idle _ => True
  | _ => True

end NativePreferences
