import NativePreferences.Lib.Bytes
import NativePreferences.Lib.Program
import NativePreferences.Ndk.Convertor

/-!
# NativePreferences.Enhance.Grd

**`PreferencesDb` call by call** (`preferences_db_adapter.cpp`). `PreferencesDb` is modelled twice:
`Enhance.PreferencesDb` is about one open database and is what a store is built on. Here is all
that it leaves out: the handle `db_` with the functions that open, repair and close it, functions
of the kernel that could not be loaded, codes as numbers, and a result set that is read entry by
entry. The handle is passed on by the functions that change it.

The table name and the configuration are always the same and left out, and so is the pointer to the
result set, of which there is never more than one.
-/

namespace NativePreferences.Grd

open Lib

/-! ### Codes -/

/-- `GRD_OK`. -/
def grdOk : Int := 0

/-- `GRD_NO_DATA`. -/
def grdNoData : Int := -11000

/-- `GRD_UNDEFINED_TABLE`. -/
def grdUndefinedTable : Int := -23000

/-- `GRD_REBUILD_DATABASE`. -/
def grdRebuildDatabase : Int := -38000

/-- `GRD_DATA_CORRUPTED`. -/
def grdDataCorrupted : Int := -45000

/-- `GRD_DB_BUSY`. -/
def grdDbBusy : Int := -46000

/-- `GRDErrnoMap`, with `GRD_NOT_SUPPORT`, `GRD_OVER_LIMIT`, `GRD_INVALID_ARGS`,
`GRD_FAILED_MEMORY_ALLOCATE`, `GRD_FAILED_MEMORY_RELEASE` and `GRD_PERMISSION_DENIED` by number. -/
def grdErrnoMap : List (Int × Int) :=
  [(grdOk, eOk), (-1000, ErrCode.notSupported.code),
    (-2000, ErrCode.defaultExceedLengthLimit.code), (-3000, ErrCode.invalidArgs.code),
    (-13000, ErrCode.outOfMemory.code), (-14000, ErrCode.outOfMemory.code),
    (-43000, ErrCode.permissionDenied.code), (grdNoData, ErrCode.noData.code)]

/-- `TransferGrdErrno`. -/
def transferGrdErrno (err : Int) : Int :=
  if err > 0 then err else (grdErrnoMap.lookup err).getD eError

theorem transferGrdErrno_eq_eOk_iff {err : Int} : transferGrdErrno err = eOk ↔ err = grdOk := by
  constructor
  · intro h
    rw [transferGrdErrno] at h
    split at h
    · exact h
    · cases hfind : grdErrnoMap.lookup err with
      | none =>
          rw [hfind] at h
          exact absurd h (by decide)
      | some code =>
          rw [hfind] at h
          obtain rfl : code = eOk := h
          have hentry : (err, eOk) ∈ grdErrnoMap := by
            obtain ⟨before, after, hsplit, -⟩ := List.lookup_eq_some_iff.mp hfind
            rw [hsplit]
            exact List.mem_append_right _ List.mem_cons_self
          have honly : ∀ entry ∈ grdErrnoMap, entry.2 = eOk → entry.1 = grdOk := by decide
          exact honly _ hentry rfl
  · intro h
    rw [h]
    decide

/-! ### Calls -/

/-- The members of `GRD_APIInfo` that are used. -/
inductive Api
  | dbOpenApi
  | dbCloseApi
  | dbCreateCollectionApi
  | dbDropCollectionApi
  | dbIndexPreloadApi
  | dbKvPutApi
  | dbKvGetApi
  | dbKvDelApi
  | dbKvFilterApi
  | nextApi
  | getItemApi
  | getItemSizeApi
  | freeItemApi
  | freeResultSetApi
  | dbRepairApi
  deriving DecidableEq

variable {H : Type}

/-- The calls of the kernel; `db` is the handle that is passed, or `nullptr`. -/
inductive Call (H : Type)
  | dbOpen (flags : Nat)
  | dbClose (db : Option H)
  | dbCreateCollection (db : Option H)
  | dbDropCollection (db : Option H)
  | dbIndexPreload (db : Option H)
  | dbKvPut (db : Option H) (key value : Bytes)
  | dbKvGet (db : Option H) (key : Bytes)
  | dbKvDel (db : Option H) (key : Bytes)
  | dbKvFilter (db : Option H)
  | next
  | getItem (keySize valueSize : Nat)
  | getItemSize
  | freeItem
  | freeResultSet
  | dbRepair
  deriving DecidableEq

/-- What they are answered: a code, and what is written to the arguments that are pointers. -/
abbrev Answer : Call H → Type
  | .dbOpen _ => Int × Option H
  | .dbKvGet _ _ => Int × Bytes
  | .getItem _ _ => Int × Bytes × Bytes
  | .getItemSize => Int × Nat × Nat
  | _ => Int

/-- Calls with their answers. -/
abbrev Trace (H : Type) : Type := List (Event (Answer (H := H)))

/-- Programs over the kernel. -/
abbrev GrdProgram (H : Type) (α : Type) : Type := Program (Call H) Answer α

/-- The handle that a call is made with, if it takes one. -/
def Call.handle : Call H → Option (Option H)
  | .dbClose db | .dbCreateCollection db | .dbDropCollection db | .dbIndexPreload db
  | .dbKvPut db _ _ | .dbKvGet db _ | .dbKvDel db _ | .dbKvFilter db => some db
  | .dbOpen _ | .next | .getItem _ _ | .getItemSize | .freeItem | .freeResultSet | .dbRepair =>
      none

/-! ### `PreferencesDb`

`api` says which functions of the kernel could be loaded. -/

namespace PreferencesDb

variable (api : Api → Bool)

/-- `GRD_DB_OPEN_CREATE`. -/
def grdDbOpenCreate : Nat := 1

/-- `GRD_DB_OPEN_CHECK`. -/
def grdDbOpenCheck : Nat := 4

/-- `CREATE_COLLECTION_RETRY_TIMES`. -/
def createCollectionRetryTimes : Nat := 2

/-- `DB_REPAIR_RETRY_TIMES`. -/
def dbRepairRetryTimes : Nat := 3

/-- `~PreferencesDb`. -/
def destructor (db : Option H) : GrdProgram H Unit :=
  if db ≠ none ∨ api .dbCloseApi then do
    let _ ← Program.op (Call.dbClose db)
    return ()
  else return ()

/-- `CloseDb`. -/
def closeDb (db : Option H) : GrdProgram H (Int × Option H) :=
  if db ≠ none then
    if ¬ api .dbCloseApi then return (eError, db)
    else do
      let errCode ← Program.op (Call.dbClose db)
      if errCode ≠ eOk then return (transferGrdErrno errCode, db)
      else return (eOk, none)
  else return (eOk, db)

/-- `CreateCollection`. -/
def createCollection (db : Option H) : GrdProgram H Int :=
  if ¬ api .dbCreateCollectionApi then return eError
  else do
    let errCode ← Program.op (Call.dbCreateCollection db)
    return transferGrdErrno errCode

/-- `OpenDb`. -/
def openDb (db : Option H) (isNeedRebuild : Bool) : GrdProgram H (Int × Option H) :=
  if ¬ api .dbOpenApi then return (eError, db)
  else do
    let flag := if isNeedRebuild then grdDbOpenCreate ||| grdDbOpenCheck else grdDbOpenCreate
    let (errCode, handle) ← Program.op (Call.dbOpen flag)
    return (errCode, handle.orElse fun _ => db)

/-- `RepairDb`. -/
def repairDb : GrdProgram H Int :=
  if ¬ api .dbRepairApi then return eError
  else Program.op Call.dbRepair

/-- The loop of `TryRepairAndRebuild`. Whether the database is repaired. -/
def repairLoop : (retryTimes : Nat) → GrdProgram H Bool
  | 0 => return false
  | retryTimes + 1 => do
      let innerErr ← repairDb api
      if innerErr = grdOk then return true
      else if innerErr = grdDbBusy then repairLoop retryTimes
      else return false

/-- `TryRepairAndRebuild`. -/
def tryRepairAndRebuild (db : Option H) : GrdProgram H (Int × Option H) := do
  if ← repairLoop api dbRepairRetryTimes then return (grdOk, db)
  else
    let (innerErr, db) ← openDb api db true
    if innerErr = grdOk ∨ innerErr = grdRebuildDatabase then return (grdOk, db)
    else return (innerErr, db)

/-- The end of `Init`: a failing `CreateCollection` is ignored. -/
def initCollection (db : Option H) : GrdProgram H Int := do
  let _ ← createCollection api db
  let errCode ← Program.op (Call.dbIndexPreload db)
  return transferGrdErrno errCode

/-- `Init`. -/
def init (db : Option H) : GrdProgram H (Int × Option H) :=
  if db ≠ none then return (eOk, db)
  else if ¬ api .dbIndexPreloadApi then return (eError, db)
  else do
    let (errCode, db) ← openDb api db false
    if errCode = grdDataCorrupted then
      let (innerErr, db) ← tryRepairAndRebuild api db
      if innerErr ≠ grdOk then return (transferGrdErrno innerErr, db)
      else
        let errCode ← initCollection api db
        return (errCode, db)
    else if errCode ≠ grdOk then return (transferGrdErrno errCode, db)
    else
      let errCode ← initCollection api db
      return (errCode, db)

/-- The loop of `Put`, `Delete`, `Get` and `GetAll`. Without a collection one is created and the
attempt made again. Any other answer leaves the loop, with the number of attempts that were left. -/
def retryLoop {α β : Type} (db : Option H) (attempt : GrdProgram H (Int × α))
    (leave : (retryTimes : Nat) → Int × α → GrdProgram H β) (spent : Int → β) :
    (retryTimes : Nat) → (ret : Int) → GrdProgram H β
  | 0, ret => return spent ret
  | retryTimes + 1, _ => do
      let ret ← attempt
      if ret.1 = grdUndefinedTable then
        let _ ← createCollection api db
        retryLoop db attempt leave spent retryTimes ret.1
      else leave (retryTimes + 1) ret

/-- `Put`. -/
def put (db : Option H) (key value : Bytes) : GrdProgram H Int :=
  if db = none then return ErrCode.alreadyClosed.code
  else if ¬ api .dbKvPutApi then return eError
  else
    retryLoop api db
      (do
        let ret ← Program.op (Call.dbKvPut db key value)
        return (ret, ()))
      (fun _ ret => return transferGrdErrno ret.1)
      transferGrdErrno createCollectionRetryTimes eOk

/-- `Delete`. -/
def delete (db : Option H) (key : Bytes) : GrdProgram H Int :=
  if db = none then return ErrCode.alreadyClosed.code
  else if ¬ api .dbKvDelApi then return eError
  else
    retryLoop api db
      (do
        let ret ← Program.op (Call.dbKvDel db key)
        return (ret, ()))
      (fun _ ret => return transferGrdErrno ret.1)
      transferGrdErrno createCollectionRetryTimes eOk

/-- `Get`, with the value of the caller. The loop is left for what comes behind it only with
`GRD_OK`. -/
def get (db : Option H) (key value : Bytes) : GrdProgram H (Int × Bytes) :=
  if db = none then return (ErrCode.alreadyClosed.code, value)
  else if ¬ api .dbKvGetApi ∨ ¬ api .freeItemApi then return (eError, value)
  else
    retryLoop api db (Program.op (Call.dbKvGet db key))
      (fun retryTimes ret =>
        if ret.1 = grdOk then
          if retryTimes = 0 then return (transferGrdErrno ret.1, value)
          else do
            let _ ← Program.op Call.freeItem
            return (transferGrdErrno ret.1, ret.2)
        else return (transferGrdErrno ret.1, value))
      (fun ret => (transferGrdErrno ret, value)) createCollectionRetryTimes grdOk

/-- The list of the caller. -/
abbrev Data : Type := List (Bytes × Bytes)

/-- `GetAllInner`, for some number of rounds of its loop; nothing if it is still going on. -/
def getAllInner : (rounds : Nat) → (ret : Int) → Data → GrdProgram H (Option (Int × Data))
  | 0, _, _ => return none
  | rounds + 1, ret, data => do
      let code ← Program.op Call.next
      if transferGrdErrno code = eOk then
        let (ret, keySize, valueSize) ← Program.op Call.getItemSize
        if ret ≠ grdOk then return some (transferGrdErrno ret, data)
        else
          let (ret, dataItem) ← Program.op (Call.getItem keySize valueSize)
          if ret ≠ eOk then return some (transferGrdErrno ret, data)
          else getAllInner rounds ret (data ++ [dataItem])
      else return some (transferGrdErrno ret, data)

/-- `IsApiValid`. -/
def isApiValid : Bool :=
  api .dbKvFilterApi && api .nextApi && api .getItemSizeApi && api .getItemApi &&
    api .freeResultSetApi

/-- `GetAll`. -/
def getAll (rounds : Nat) (db : Option H) (data : Data) : GrdProgram H (Option (Int × Data)) :=
  if db = none then return some (ErrCode.alreadyClosed.code, data)
  else if ¬ isApiValid api then return some (eError, data)
  else
    retryLoop api db
      (do
        let ret ← Program.op (Call.dbKvFilter db)
        return (ret, ()))
      (fun _ ret =>
        if ret.1 = grdOk then do
          match ← getAllInner rounds eOk data with
          | none => return none
          | some innerErr =>
              let _ ← Program.op Call.freeResultSet
              return some innerErr
        else return some (transferGrdErrno ret.1, data))
      (fun ret => some (transferGrdErrno ret, data)) createCollectionRetryTimes eOk

/-- `DropCollection`. -/
def dropCollection (db : Option H) : GrdProgram H Int :=
  if db = none then return ErrCode.alreadyClosed.code
  else if ¬ api .dbDropCollectionApi then return eError
  else do
    let errCode ← Program.op (Call.dbDropCollection db)
    return transferGrdErrno errCode

section RetryLoop

variable {api} {W α β : Type} {S : Sem (Call H) Answer W} {db : Option H}
variable {attempt : GrdProgram H (Int × α)} {leave : Nat → Int × α → GrdProgram H β}
variable {spent : Int → β} {w w' : W} {tr : Trace H} {b : β}

/-- How the loop ends: with attempts that have all found no collection, or with one that has been
answered something else. Before that one, `I` holds of the world and `P` of what has been called. -/
theorem retryLoop_cases (I : W → Prop) (P : Event (Answer (H := H)) → Prop)
    (hattempt : ∀ w tr ret w', I w → Exec S attempt w tr ret w' → I w' ∧ ∀ ev ∈ tr, P ev)
    (hcreate : ∀ w tr ret w', I w → Exec S (createCollection api db) w tr ret w' →
      I w' ∧ ∀ ev ∈ tr, P ev)
    (n : Nat) (last : Int) (hlast : n = 0 → last = grdUndefinedTable) (hI : I w)
    (h : Exec S (retryLoop api db attempt leave spent n last) w tr b w') :
    (b = spent grdUndefinedTable ∧ ∀ ev ∈ tr, P ev) ∨
      ∃ pre w₀ trAttempt ret w₁ retryTimes post, tr = pre ++ (trAttempt ++ post) ∧
        (∀ ev ∈ pre, P ev) ∧ I w₀ ∧ Exec S attempt w₀ trAttempt ret w₁ ∧
        ret.1 ≠ grdUndefinedTable ∧ Exec S (leave retryTimes ret) w₁ post b w' := by
  induction n generalizing last w tr with
  | zero =>
      obtain ⟨rfl, rfl, rfl⟩ := exec_ret_iff.mp h
      exact .inl ⟨by rw [hlast rfl], by simp⟩
  | succ n ih =>
      obtain ⟨trAttempt, ret, w₁, tr₂, htry, hrest, rfl⟩ := exec_bind_iff.mp h
      obtain ⟨hI₁, hP⟩ := hattempt w _ ret w₁ hI htry
      by_cases hundef : ret.1 = grdUndefinedTable
      · rw [if_pos hundef] at hrest
        obtain ⟨trCreate, code, w₂, tr₄, hmake, hloop, rfl⟩ := exec_bind_iff.mp hrest
        obtain ⟨hI₂, hP₂⟩ := hcreate w₁ _ code w₂ hI₁ hmake
        have hboth : ∀ ev ∈ trAttempt ++ trCreate, P ev := by
          intro ev hev
          rcases List.mem_append.mp hev with hev | hev
          · exact hP ev hev
          · exact hP₂ ev hev
        rcases ih ret.1 (fun _ => hundef) hI₂ hloop with ⟨hb, hall⟩ |
          ⟨pre, w₀, trLast, ret', w₃, m, post, rfl, hpre, hrun⟩
        · refine .inl ⟨hb, ?_⟩
          intro ev hev
          rw [← List.append_assoc] at hev
          rcases List.mem_append.mp hev with hev | hev
          · exact hboth ev hev
          · exact hall ev hev
        · refine .inr ⟨trAttempt ++ trCreate ++ pre, w₀, trLast, ret', w₃, m, post, ?_, ?_, hrun⟩
          · simp
          · intro ev hev
            rcases List.mem_append.mp hev with hev | hev
            · exact hboth ev hev
            · exact hpre ev hev
      · rw [if_neg hundef] at hrest
        exact .inr ⟨[], w, trAttempt, ret, w₁, n + 1, tr₂, rfl, by simp, hI, htry, hundef, hrest⟩

end RetryLoop

end PreferencesDb

end NativePreferences.Grd
