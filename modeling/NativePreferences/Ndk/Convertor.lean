import NativePreferences.Impl.DataSubscriptions

/-!
# NativePreferences.Ndk.Convertor

**Error codes of the C interface** (`oh_convertor.cpp`). A code that the table does not list is a
storage error. `E_OBSERVER_RESERVE`, which says that an observer has keys left, becomes
`PREFERENCES_OK`.
-/

namespace NativePreferences

/-- The number of a code. -/
def ErrCode.code : ErrCode → Int
  | .ok => eOk
  | .error => eError
  | .invalidArgs => eBase + 2
  | .outOfMemory => eBase + 3
  | .keyEmpty => eBase + 5
  | .keyExceedMaxLength => eBase + 6
  | .deleteFileFail => eBase + 10
  | .valueExceedMaxLength => eBase + 14
  | .defaultExceedLengthLimit => eBase + 17
  | .permissionDenied => eBase + 18
  | .alreadyClosed => eBase + 21
  | .noData => eBase + 22
  | .xmlRestoredFromBackupFile => eBase + 23
  | .operatIsLocked => eBase + 24
  | .operatIsCrossProess => eBase + 25
  | .notSupported => eBase + 801
  | .minusError => -eError

/-- `OH_Preferences_ErrCode`. -/
inductive NdkErrCode
  | ok
  | errorInvalidParam
  | errorNotSupported
  | errorDeleteFile
  | errorStorage
  | errorMalloc
  | errorKeyNotFound
  | errorGetDataobsmgrclient
  deriving DecidableEq, Repr

namespace NdkErrCode

/-- The number of a code. -/
def code : NdkErrCode → Int
  | ok => 0
  | errorInvalidParam => 401
  | errorNotSupported => 801
  | errorDeleteFile => 15500010
  | errorStorage => 15500011
  | errorMalloc => 15500012
  | errorKeyNotFound => 15500013
  | errorGetDataobsmgrclient => 15500019

end NdkErrCode

namespace OHConvertor

/-- `ERROR_CODE_MAP`. -/
def errorCodeMap : List (Int × NdkErrCode) :=
  [(eOk, .ok), (ErrCode.invalidArgs.code, .errorInvalidParam),
    (ErrCode.keyEmpty.code, .errorInvalidParam),
    (ErrCode.keyExceedMaxLength.code, .errorInvalidParam),
    (ErrCode.valueExceedMaxLength.code, .errorInvalidParam),
    (ErrCode.notSupported.code, .errorNotSupported),
    (ErrCode.deleteFileFail.code, .errorDeleteFile),
    (eGetDataobsmgrclientFail, .errorGetDataobsmgrclient),
    (ErrCode.noData.code, .errorKeyNotFound), (eObserverReserve, .ok)]

/-- `NativeErrToNdk`. -/
def nativeErrToNdk (nativeCode : Int) : NdkErrCode :=
  (errorCodeMap.lookup nativeCode).getD .errorStorage

theorem nativeErrToNdk_reserve : nativeErrToNdk eObserverReserve = .ok := by decide

/-- The native codes that become `PREFERENCES_OK`. -/
theorem nativeErrToNdk_eq_ok {nativeCode : Int} (h : nativeErrToNdk nativeCode = .ok) :
    nativeCode = eOk ∨ nativeCode = eObserverReserve := by
  rw [nativeErrToNdk] at h
  cases hfind : errorCodeMap.lookup nativeCode with
  | none =>
      rw [hfind] at h
      exact absurd h (by decide)
  | some ndkCode =>
      rw [hfind] at h
      obtain rfl : ndkCode = .ok := h
      have hentry : (nativeCode, NdkErrCode.ok) ∈ errorCodeMap := by
        obtain ⟨before, after, hsplit, -⟩ := List.lookup_eq_some_iff.mp hfind
        rw [hsplit]
        exact List.mem_append_right _ List.mem_cons_self
      simpa [errorCodeMap] using hentry

/-- The codes of an XML store that become `PREFERENCES_OK`. -/
theorem nativeErrToNdk_code_eq_ok {code : ErrCode} (h : nativeErrToNdk code.code = .ok) :
    code = .ok := by
  have hcode := nativeErrToNdk_eq_ok h
  cases code with
  | ok => rfl
  | _ => simp [ErrCode.code, eOk, eError, eObserverReserve, eBase] at hcode

end OHConvertor

end NativePreferences
