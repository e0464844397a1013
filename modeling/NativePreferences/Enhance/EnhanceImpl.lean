import NativePreferences.Enhance.Parcel
import NativePreferences.Enhance.PreferencesDb
import NativePreferences.Impl.PlainMap

/-!
# NativePreferences.Enhance.EnhanceImpl

**A store with the enhanced backend** (`preferences_enhance_impl.cpp`). The values are in the
database; the store keeps copies of the large ones, of `CACHED_THRESHOLDS` bytes or more. It has
one number to tell whether its copies are up to date, the data version of the kernel when it
last looked. Its own writes are expected to raise the version by one.

The functions are programs over the kernel, and pass on the members of the store. They hold
`dbMutex_` from the beginning to the end, so those of one store do not interleave.
-/

namespace NativePreferences

open Lib

/-- The members of a `PreferencesEnhanceImpl`. -/
structure EnhanceImpl where
  /-- `db_ != nullptr`. -/
  isOpen : Bool
  largeCachedData : PrefMap
  cachedDataVersion : Int64
  deriving DecidableEq

/-- `CACHED_THRESHOLDS`. -/
def cachedThresholds : Nat := 512 * 1024

/-- The version after one more write. -/
def nextVersion (version : Int64) : Int64 := if version = Int64.maxValue then 0 else version + 1

namespace EnhanceImpl

/-- A store right after `Init`. -/
def initial : EnhanceImpl := { isOpen := true, largeCachedData := ∅, cachedDataVersion := 0 }

/-! ### Reading a key -/

/-- What `Get`, `GetValue` and `HasKey` have found out. -/
inductive Found
  | value (v : PreferencesValue)
  /-- Bytes that are no value. -/
  | malformed (errCode : ErrCode)
  | failed (errCode : ErrCode)

/-- What comes from the database: a large value is kept, along with the version. -/
def keep (h : EnhanceImpl) (key : String) (kernelDataVersion : Int64) (oriValue : Bytes) :
    Found × EnhanceImpl :=
  let item := unmarshallingPreferenceValue oriValue
  if item.1 ≠ .ok then (.malformed item.1, h)
  else if cachedThresholds ≤ oriValue.length then
    (.value item.2,
      { h with
        largeCachedData := h.largeCachedData.insert key item.2
        cachedDataVersion := kernelDataVersion })
  else (.value item.2, h)

/-- The common part of `Get`, `GetValue` and `HasKey`, for a key that `checkKey` admits. -/
def find (h : EnhanceImpl) (key : String) : KernelProgram (Found × EnhanceImpl) :=
  if h.isOpen then do
    match ← PreferencesDb.getKernelDataVersion with
    | none => return (.failed .error, h)
    | some kernelDataVersion =>
        let cached :=
          if kernelDataVersion = h.cachedDataVersion then h.largeCachedData.lookup key else none
        match cached with
        | some v => return (.value v, h)
        | none =>
            let (errCode, oriValue) ← PreferencesDb.get key
            if errCode ≠ .ok then return (.failed errCode, h)
            else return h.keep key kernelDataVersion oriValue
  else return (.failed .alreadyClosed, h)

/-- What `Get`, `GetValue` and `HasKey` return. -/
def Found.answer : Query → Found → Answer
  | .get _ _, .value v => .value v
  | .get _ defValue, _ => .value defValue
  | .getValue _ _, .value v => .codeValue .ok v
  | .getValue _ defValue, .malformed errCode => .codeValue errCode defValue
  | .getValue _ defValue, .failed errCode => .codeValue errCode defValue
  | .hasKey _, .failed _ => .bool false
  | .hasKey _, _ => .bool true
  | q, _ => q.rejected

/-! ### Reading everything -/

/-- The loop of `GetAllInner` over what the database returned. `insert` keeps what is there. -/
def collect : List (String × Bytes) → PrefMap → PrefMap → ErrCode × PrefMap × PrefMap
  | [], result, cached => (.ok, result, cached)
  | (key, oriValue) :: data, result, cached =>
      let item := unmarshallingPreferenceValue oriValue
      let result := if key ∈ result then result else result.insert key item.2
      if item.1 ≠ .ok then (item.1, result, cached)
      else
        collect data result
          (if cachedThresholds ≤ oriValue.length then cached.insert key item.2 else cached)

/-- `GetAllInner`. -/
def getAllInner (h : EnhanceImpl) : KernelProgram ((ErrCode × PrefMap) × EnhanceImpl) :=
  if h.isOpen then do
    match ← PreferencesDb.getKernelDataVersion with
    | none => return ((.error, ∅), h)
    | some kernelDataVersion =>
        let (errCode, data) ← PreferencesDb.getAll
        if errCode ≠ .ok then return ((errCode, ∅), h)
        else
          let (errCode, result, cached) := collect data ∅ h.largeCachedData
          if errCode ≠ .ok then return ((errCode, ∅), { h with largeCachedData := cached })
          else
            return ((.ok, result),
              { h with largeCachedData := cached, cachedDataVersion := kernelDataVersion })
  else return ((.alreadyClosed, ∅), h)

/-- What `GetAll`, `GetAllData` and `GetAllDatas` return. -/
def allAnswer : Query → ErrCode × PrefMap → Answer
  | .getAllData, res => .codeMap res.1 res.2
  | _, res => .map res.2

/-- The reading functions. -/
def query (h : EnhanceImpl) (q : Query) : KernelProgram (Answer × EnhanceImpl) :=
  match q with
  | .get key _ | .getValue key _ | .hasKey key =>
      if checkKey key ≠ .ok then return (q.rejected, h)
      else do
        let (found, h) ← h.find key
        return (found.answer q, h)
  | .getAll | .getAllData | .getAllDatas => do
      let (res, h) ← h.getAllInner
      return (allAnswer q res, h)

/-! ### Writing -/

/-- The end of `Put`: large values are kept, and a smaller one replaces what was kept. -/
def afterPut (h : EnhanceImpl) (key : String) (value : PreferencesValue) (oriValueLen : Nat) :
    EnhanceImpl :=
  if cachedThresholds ≤ oriValueLen then
    { h with
      largeCachedData := h.largeCachedData.insert key value
      cachedDataVersion := nextVersion h.cachedDataVersion }
  else { h with largeCachedData := h.largeCachedData.erase key }

/-- `Put`. -/
def put (h : EnhanceImpl) (key : String) (value : PreferencesValue) :
    KernelProgram (ErrCode × EnhanceImpl) :=
  if checkKey key ≠ .ok then return (checkKey key, h)
  else if checkValue value ≠ .ok then return (checkValue value, h)
  else if h.isOpen then
    match marshallingPreferenceValue value with
    | .error errCode => return (errCode, h)
    | .ok oriValue => do
        let errCode ← PreferencesDb.put key oriValue
        if errCode ≠ .ok then return (errCode, h)
        else return (.ok, h.afterPut key value (calSize value))
  else return (.error, h)

/-- The end of `Delete`. -/
def afterDelete (h : EnhanceImpl) (key : String) : EnhanceImpl :=
  if key ∈ h.largeCachedData then
    { h with
      largeCachedData := h.largeCachedData.erase key
      cachedDataVersion := nextVersion h.cachedDataVersion }
  else h

/-- `Delete`. -/
def delete (h : EnhanceImpl) (key : String) : KernelProgram (ErrCode × EnhanceImpl) :=
  if checkKey key ≠ .ok then return (checkKey key, h)
  else if h.isOpen then do
    let errCode ← PreferencesDb.delete key
    if errCode ≠ .ok then return (errCode, h)
    else return (.ok, h.afterDelete key)
  else return (.error, h)

/-- `Clear`: everything is read, the collection dropped and created anew. -/
def clear (h : EnhanceImpl) : KernelProgram (ErrCode × EnhanceImpl) :=
  if h.isOpen then do
    let (res, h) ← h.getAllInner
    if res.1 ≠ .ok then return (res.1, h)
    else
      let errCode ← PreferencesDb.dropCollection
      if errCode ≠ .ok then return (errCode, h)
      else
        let errCode ← PreferencesDb.createCollection
        if errCode ≠ .ok then return (errCode, h)
        else
          return (.ok,
            { h with
              largeCachedData := ∅
              cachedDataVersion := nextVersion h.cachedDataVersion })
  else return (.error, h)

/-- A call of the store. -/
def call (h : EnhanceImpl) : Op → KernelProgram (Reply × EnhanceImpl)
  | .put key value => do
      let (errCode, h) ← h.put key value
      return (.code errCode, h)
  | .delete key => do
      let (errCode, h) ← h.delete key
      return (.code errCode, h)
  | .clear => do
      let (errCode, h) ← h.clear
      return (.code errCode, h)
  | .query q => do
      let (answer, h) ← h.query q
      return (.answer answer, h)

/-- A store that is used alone, and its database. -/
abbrev Session : Type := EnhanceImpl × Option Collection

/-- A call of it, with what the kernel was asked and answered meanwhile, and the reply. -/
abbrev SessionEv : Type := Op × List (Event KernelAnswer) × Reply

/-- One call of a store on a kernel. -/
def Step (S : Sem KernelCall KernelAnswer (Option Collection)) (s : Session) (l : SessionEv)
    (s' : Session) : Prop :=
  Exec S (s.1.call l.1) s.2 l.2.1 (l.2.2, s'.1) s'.2

end EnhanceImpl

end NativePreferences
