import Mathlib.Data.Finmap
import NativePreferences.Lib.Bytes
import NativePreferences.Lib.Interference
import NativePreferences.Value

/-!
# NativePreferences.Enhance.PreferencesDb

**The database behind a store with the enhanced backend** (`preferences_db_adapter.cpp`): the
calls of the database kernel, and the functions of `PreferencesDb` as programs over them.

The kernel itself is a library that is loaded at run time. What it may answer is said by a
relation (`Sem`), and there are several:

* `mapKernel` — one collection that behaves as a map, and all calls succeed;
* `faultyKernel` — every call may fail, and then it has no effect.

A key is handed to the kernel as its bytes, which is as good as the key itself. The loop over a
result set is driven by the answers of `NextApi`, `GetItemSizeApi` and `GetItemApi`; the answer
to `kvFilter` lists them in advance, and ends where `NextApi` says anything else than `GRD_OK`.
-/

namespace NativePreferences

open Lib

/-! ### Calls -/

/-- The codes of the kernel. -/
inductive GrdCode
  | ok
  | notSupport
  | overLimit
  | invalidArgs
  | failedMemoryAllocate
  | failedMemoryRelease
  | permissionDenied
  | noData
  | undefinedTable
  /-- Any other negative code. -/
  | other
  deriving DecidableEq

/-- `TransferGrdErrno`. -/
def transferGrdErrno : GrdCode → ErrCode
  | .ok => .ok
  | .notSupport => .notSupported
  | .overLimit => .defaultExceedLengthLimit
  | .invalidArgs => .invalidArgs
  | .failedMemoryAllocate | .failedMemoryRelease => .outOfMemory
  | .permissionDenied => .permissionDenied
  | .noData => .noData
  | .undefinedTable | .other => .error

@[simp] theorem transferGrdErrno_ok_iff {c : GrdCode} : transferGrdErrno c = .ok ↔ c = .ok := by
  cases c <;> simp [transferGrdErrno]

/-- One entry of a result set, and the answers to `GetItemSizeApi` and `GetItemApi` there. -/
structure Row where
  key : String
  value : Bytes
  sizeCode : GrdCode
  itemCode : GrdCode
  deriving DecidableEq

/-- The calls of the kernel, on the one collection that is used. -/
inductive KernelCall
  | kvPut (key : String) (value : Bytes)
  | kvDel (key : String)
  | kvGet (key : String)
  | kvFilter
  | createCollection
  | dropCollection
  /-- `GRD_CONFIG_DATA_VERSION`. -/
  | getConfig

/-- What they are answered. `getConfig` may answer with a value of the wrong type. -/
abbrev KernelAnswer : KernelCall → Type
  | .kvPut _ _ | .kvDel _ | .createCollection | .dropCollection => GrdCode
  | .kvGet _ => GrdCode × Bytes
  | .kvFilter => GrdCode × List Row
  | .getConfig => Option Int64

/-- Programs over the kernel. -/
abbrev KernelProgram (α : Type) : Type := Program KernelCall KernelAnswer α

/-! ### `PreferencesDb` -/

namespace PreferencesDb

/-- `CREATE_COLLECTION_RETRY_TIMES`. -/
def createCollectionRetryTimes : Nat := 2

/-- `CreateCollection`. -/
def createCollection : KernelProgram ErrCode := do
  let errCode ← Program.op .createCollection
  return transferGrdErrno errCode

/-- `DropCollection`. -/
def dropCollection : KernelProgram ErrCode := do
  let errCode ← Program.op .dropCollection
  return transferGrdErrno errCode

/-- The loop around the calls that need the collection: where there is none, it is created and
the call made again. `ret` is the last answer. -/
def retry {α : Type} (attempt : KernelProgram (GrdCode × α)) :
    Nat → GrdCode × α → KernelProgram (GrdCode × α)
  | 0, ret => return ret
  | n + 1, _ => do
      let ret ← attempt
      if ret.1 = .undefinedTable then
        let _ ← createCollection
        retry attempt n ret
      else return ret

/-- `PreferencesDb::Put`. -/
def put (key : String) (value : Bytes) : KernelProgram ErrCode := do
  let attempt : KernelProgram (GrdCode × Unit) := do
    let ret ← Program.op (.kvPut key value)
    return (ret, ())
  let ret ← retry attempt createCollectionRetryTimes (.ok, ())
  return transferGrdErrno ret.1

/-- `PreferencesDb::Delete`. -/
def delete (key : String) : KernelProgram ErrCode := do
  let attempt : KernelProgram (GrdCode × Unit) := do
    let ret ← Program.op (.kvDel key)
    return (ret, ())
  let ret ← retry attempt createCollectionRetryTimes (.ok, ())
  return transferGrdErrno ret.1

/-- `PreferencesDb::Get`, with the value it finds. -/
def get (key : String) : KernelProgram (ErrCode × Bytes) := do
  let ret ← retry (Program.op (KernelCall.kvGet key)) createCollectionRetryTimes (.ok, [])
  return (transferGrdErrno ret.1, ret.2)

/-- `PreferencesDb::GetAllInner`: the loop over the result set. -/
def getAllInner : List Row → ErrCode × List (String × Bytes)
  | [] => (.ok, [])
  | row :: resultSet =>
      if row.sizeCode ≠ .ok then (transferGrdErrno row.sizeCode, [])
      else if row.itemCode ≠ .ok then (transferGrdErrno row.itemCode, [])
      else
        let (ret, data) := getAllInner resultSet
        (ret, (row.key, row.value) :: data)

/-- `PreferencesDb::GetAll`. -/
def getAll : KernelProgram (ErrCode × List (String × Bytes)) := do
  let (ret, resultSet) ← retry (Program.op KernelCall.kvFilter) createCollectionRetryTimes (.ok, [])
  if ret = .ok then return getAllInner resultSet
  else return (transferGrdErrno ret, [])

/-- `GetKernelDataVersion`. -/
def getKernelDataVersion : KernelProgram (Option Int64) := Program.op KernelCall.getConfig

section Exec

variable {W : Type} {S : Sem KernelCall KernelAnswer W} {w w' : W} {tr : List (Event KernelAnswer)}
variable {errCode : ErrCode}

theorem exec_createCollection (h : Exec S createCollection w tr errCode w') :
    ∃ code : GrdCode, S .createCollection w code w' ∧ tr = [⟨.createCollection, code⟩] ∧
      errCode = transferGrdErrno code :=
  exec_op_translated h

theorem exec_dropCollection (h : Exec S dropCollection w tr errCode w') :
    ∃ code : GrdCode, S .dropCollection w code w' ∧ tr = [⟨.dropCollection, code⟩] ∧
      errCode = transferGrdErrno code :=
  exec_op_translated h

end Exec

/-- Loop rule. `I` holds before every attempt. An attempt that finds no collection is followed
by a `CreateCollection`, and is the last one or is made again. -/
theorem ensures_retry {W α : Type} {S : Sem KernelCall KernelAnswer W} {T : W → W → Prop}
    {attempt : KernelProgram (GrdCode × α)} {Q : GrdCode × α → W → Prop} (I : W → Prop)
    (hattempt : ∀ w, I w → attempt.Ensures S T
      (fun ret w' => if ret.1 = .undefinedTable then
        createCollection.Ensures S T (fun _ w'' => I w'' ∧ Q ret w'') w' else Q ret w') w)
    (n : Nat) (last : GrdCode × α) {w : W} (hI : I w) (hlast : n = 0 → Q last w) :
    (retry attempt n last).Ensures S T Q w := by
  induction n generalizing last w with
  | zero => exact hlast rfl
  | succ n ih =>
      refine (hattempt w hI).bind ?_
      intro ret w' hret
      split at hret
      · next hundef =>
        rw [if_pos hundef]
        refine hret.bind ?_
        intro _ w'' ⟨hI'', hQ⟩
        exact ih ret hI'' (fun _ => hQ)
      · next hdef =>
        rw [if_neg hdef]
        exact hret

end PreferencesDb

/-! ### Kernels -/

/-- What a collection holds. -/
abbrev Collection : Type := Finmap (fun _ : String => Bytes)

/-- The contents of the database; no collection is as good as an empty one. -/
def contents (w : Option Collection) : Collection := w.getD ∅

/-- The result set lists the collection. -/
structure Lists (resultSet : List Row) (c : Collection) : Prop where
  nodup : (resultSet.map Row.key).Nodup
  fine : ∀ row ∈ resultSet, row.sizeCode = .ok ∧ row.itemCode = .ok
  mem : ∀ key value, c.lookup key = some value ↔
    ∃ row ∈ resultSet, row.key = key ∧ row.value = value

/-- A kernel that works. The data version may be anything. -/
def mapKernel : Sem KernelCall KernelAnswer (Option Collection)
  | .kvPut key value, w, r, w' =>
      (∃ c, w = some c ∧ r = .ok ∧ w' = some (c.insert key value)) ∨
        (w = none ∧ r = .undefinedTable ∧ w' = w)
  | .kvDel key, w, r, w' =>
      (∃ c, w = some c ∧ r = .ok ∧ w' = some (c.erase key)) ∨
        (w = none ∧ r = .undefinedTable ∧ w' = w)
  | .kvGet key, w, r, w' =>
      w' = w ∧
        ((∃ c value, w = some c ∧ c.lookup key = some value ∧ r = (.ok, value)) ∨
          (∃ c, w = some c ∧ c.lookup key = none ∧ r.1 = .noData) ∨
          (w = none ∧ r.1 = .undefinedTable))
  | .kvFilter, w, r, w' =>
      w' = w ∧
        ((∃ c, w = some c ∧ r.1 = .ok ∧ Lists r.2 c) ∨ (w = none ∧ r.1 = .undefinedTable))
  | .createCollection, w, r, w' => r = .ok ∧ w' = some (contents w)
  | .dropCollection, w, r, w' => (w.isSome ∧ r = .ok ∧ w' = none) ∨
      (w = none ∧ r = .undefinedTable ∧ w' = w)
  | .getConfig, w, r, w' => w' = w ∧ r.isSome

/-- A kernel whose calls may fail. A result set may end early, and what it delivers is there. -/
def faultyKernel : Sem KernelCall KernelAnswer (Option Collection)
  | .kvPut key value, w, r, w' =>
      (∃ c, w = some c ∧ r = .ok ∧ w' = some (c.insert key value)) ∨ (r ≠ .ok ∧ w' = w)
  | .kvDel key, w, r, w' =>
      (∃ c, w = some c ∧ r = .ok ∧ w' = some (c.erase key)) ∨ (r ≠ .ok ∧ w' = w)
  | .kvGet key, w, r, w' =>
      w' = w ∧ (r.1 = .ok → (contents w).lookup key = some r.2)
  | .kvFilter, w, r, w' =>
      w' = w ∧ (r.1 = .ok → ∀ row ∈ r.2, row.sizeCode = .ok → row.itemCode = .ok →
        (contents w).lookup row.key = some row.value)
  | .createCollection, w, r, w' => (r = .ok ∧ w' = some (contents w)) ∨ (r ≠ .ok ∧ w' = w)
  | .dropCollection, w, r, w' => (r = .ok ∧ w' = none) ∨ (r ≠ .ok ∧ w' = w)
  | .getConfig, w, _, w' => w' = w

/-- What works may happen where things may fail. -/
theorem mapKernel_faulty (c : KernelCall) (w : Option Collection) (r : KernelAnswer c)
    (w' : Option Collection) (h : mapKernel c w r w') : faultyKernel c w r w' := by
  cases c with
  | kvPut key value =>
      rcases h with ⟨c, hw, hr, hw'⟩ | ⟨-, hr, hw'⟩
      · exact .inl ⟨c, hw, hr, hw'⟩
      · exact .inr ⟨by simp [hr], hw'⟩
  | kvDel key =>
      rcases h with ⟨c, hw, hr, hw'⟩ | ⟨-, hr, hw'⟩
      · exact .inl ⟨c, hw, hr, hw'⟩
      · exact .inr ⟨by simp [hr], hw'⟩
  | kvGet key =>
      obtain ⟨hw', ⟨c, value, rfl, hval, rfl⟩ | ⟨c, rfl, -, hr⟩ | ⟨-, hr⟩⟩ := h
      · exact ⟨hw', fun _ => hval⟩
      · exact ⟨hw', fun hok => absurd (hr.symm.trans hok) (by simp)⟩
      · exact ⟨hw', fun hok => absurd (hr.symm.trans hok) (by simp)⟩
  | kvFilter =>
      obtain ⟨hw', ⟨c, rfl, -, hlists⟩ | ⟨-, hr⟩⟩ := h
      · refine ⟨hw', ?_⟩
        intro _ row hrow _ _
        exact (hlists.mem row.key row.value).mpr ⟨row, hrow, rfl, rfl⟩
      · exact ⟨hw', fun hok => absurd (hr.symm.trans hok) (by simp)⟩
  | createCollection => exact .inl h
  | dropCollection =>
      rcases h with ⟨-, hr, hw'⟩ | ⟨-, hr, hw'⟩
      · exact .inl ⟨hr, hw'⟩
      · exact .inr ⟨by simp [hr], hw'⟩
  | getConfig => exact h.1

end NativePreferences
