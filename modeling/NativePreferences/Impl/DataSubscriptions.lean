import Mathlib.Data.Finmap
import NativePreferences.Value

/-!
# NativePreferences.Impl.DataSubscriptions

**Who has subscribed to which keys** (`dataObserversMap_` of `preferences_base.cpp`). The map is
keyed by weak pointers, compared by their owner, so an observer is the object that its pointers
share. It has a set of keys; `RegisterDataObserver` adds to it and `UnRegisterDataObserver` removes
from it, or removes it altogether.

The set is at all times what the calls on that observer come to (`netKeys`), and the code that
`UnRegisterDataObserver` returns says whether something is left of it
(`data_observer_algebra`). An observer that has registered for no key has an entry too.
-/

namespace NativePreferences

/-! ### Error codes -/

/-- `E_OK`. -/
def eOk : Int := 0

/-- `E_BASE`: subsystem 13, module 6. -/
def eBase : Int := 13 * 2 ^ 21 + 6 * 2 ^ 16

/-- `E_ERROR`. -/
def eError : Int := eBase

/-- `E_GET_DATAOBSMGRCLIENT_FAIL`. -/
def eGetDataobsmgrclientFail : Int := eBase + 19

/-- `E_OBSERVER_RESERVE`. -/
def eObserverReserve : Int := eBase + 20

variable {ι : Type} [DecidableEq ι] {s : Finmap (fun _ : ι => Finset String)} {o o' : ι}
variable {keys : List String}

/-- `DataObserverMap`. -/
abbrev DataObserverMap (ι : Type) : Type := Finmap (fun _ : ι => Finset String)

namespace DataObserverMap

/-- `RegisterDataObserver`. -/
def registerDataObserver (s : DataObserverMap ι) (preferencesObserver : ι) (keys : List String) :
    Int × DataObserverMap ι :=
  match s.lookup preferencesObserver with
  | none => (eOk, s.insert preferencesObserver keys.toFinset)
  | some callKeys => (eOk, s.insert preferencesObserver (callKeys ∪ keys.toFinset))

/-- The loop of `UnRegisterDataObserver` over the keys. -/
def eraseKeys (callKeys : Finset String) (keys : List String) : Finset String :=
  keys.foldl (fun callKeys key => if key ∈ callKeys then callKeys.erase key else callKeys) callKeys

/-- `UnRegisterDataObserver`. -/
def unRegisterDataObserver (s : DataObserverMap ι) (preferencesObserver : ι) (keys : List String) :
    Int × DataObserverMap ι :=
  match s.lookup preferencesObserver with
  | none => (eOk, s)
  | some callKeys =>
      let left := if keys = [] then ∅ else eraseKeys callKeys keys
      if left = ∅ then (eOk, s.erase preferencesObserver)
      else (eObserverReserve, s.insert preferencesObserver left)

/-- The keys of an observer. -/
def keysOf (s : DataObserverMap ι) (o : ι) : Finset String := (s.lookup o).getD ∅

theorem eraseKeys_eq (callKeys : Finset String) (keys : List String) :
    eraseKeys callKeys keys = callKeys \ keys.toFinset := by
  rw [eraseKeys]
  induction keys generalizing callKeys with
  | nil => simp
  | cons key keys ih =>
      have herase : (if key ∈ callKeys then callKeys.erase key else callKeys) =
          callKeys.erase key := by
        split
        · rfl
        · next hnot => exact (Finset.erase_eq_of_notMem hnot).symm
      rw [List.foldl_cons, herase, ih, List.toFinset_cons, Finset.erase_sdiff_comm,
        ← Finset.sdiff_insert]

/-! ### One call -/

theorem registerDataObserver_code (s : DataObserverMap ι) (o : ι) (keys : List String) :
    (s.registerDataObserver o keys).1 = eOk := by
  unfold registerDataObserver
  split <;> rfl

/-- `RegisterDataObserver` adds keys to the observer's own set. -/
theorem lookup_register (s : DataObserverMap ι) (o o' : ι) (keys : List String) :
    (s.registerDataObserver o keys).2.lookup o' =
      if o' = o then some (s.keysOf o ∪ keys.toFinset) else s.lookup o' := by
  have hinsert : (s.registerDataObserver o keys).2 = s.insert o (s.keysOf o ∪ keys.toFinset) := by
    unfold registerDataObserver keysOf
    cases s.lookup o with
    | none => simp
    | some callKeys => rfl
  rw [hinsert]
  split
  · next heq =>
    subst heq
    exact Finmap.lookup_insert _
  · next hne => exact Finmap.lookup_insert_of_ne _ hne

/-- What `UnRegisterDataObserver` leaves of a set. -/
def left (callKeys : Finset String) (keys : List String) : Finset String :=
  if keys = [] then ∅ else callKeys \ keys.toFinset

/-- `UnRegisterDataObserver` removes keys from the observer's own set, and the entry with the last
of them. -/
theorem lookup_unRegister (s : DataObserverMap ι) (o o' : ι) (keys : List String) :
    (s.unRegisterDataObserver o keys).2.lookup o' =
      if o' = o then
        if left (s.keysOf o) keys = ∅ then none else some (left (s.keysOf o) keys)
      else s.lookup o' := by
  have hleft : ∀ callKeys : Finset String,
      (if keys = [] then ∅ else eraseKeys callKeys keys) = left callKeys keys := by
    intro callKeys
    rw [eraseKeys_eq, left]
  unfold unRegisterDataObserver keysOf
  cases hlookup : s.lookup o with
  | none =>
      have hempty : left (none.getD ∅) keys = ∅ := by simp [left]
      rw [if_pos hempty]
      show s.lookup o' = _
      by_cases heq : o' = o
      · rw [if_pos heq, heq, hlookup]
      · rw [if_neg heq]
  | some callKeys =>
      dsimp only [Option.getD_some]
      rw [hleft]
      by_cases hempty : left callKeys keys = ∅
      · rw [if_pos hempty, if_pos hempty]
        split
        · next heq =>
          rw [heq]
          exact Finmap.lookup_erase _ _
        · next hne => exact Finmap.lookup_erase_ne hne
      · rw [if_neg hempty, if_neg hempty]
        split
        · next heq =>
          rw [heq]
          exact Finmap.lookup_insert _
        · next hne => exact Finmap.lookup_insert_of_ne _ hne

/-- It returns `E_OBSERVER_RESERVE` if something is left. -/
theorem unRegisterDataObserver_code (s : DataObserverMap ι) (o : ι) (keys : List String) :
    (s.unRegisterDataObserver o keys).1 =
      if left (s.keysOf o) keys = ∅ then eOk else eObserverReserve := by
  unfold unRegisterDataObserver keysOf
  cases s.lookup o with
  | none => simp [left]
  | some callKeys =>
      simp only [Option.getD_some, eraseKeys_eq, left]
      exact apply_ite Prod.fst _ _ _

/-! ### Histories -/

end DataObserverMap

/-- A call. -/
inductive DataObserverCall (ι : Type)
  | register (preferencesObserver : ι) (keys : List String)
  | unRegister (preferencesObserver : ι) (keys : List String)

namespace DataObserverCall

/-- The call is carried out. -/
def perform (s : DataObserverMap ι) : DataObserverCall ι → DataObserverMap ι
  | .register o keys => (s.registerDataObserver o keys).2
  | .unRegister o keys => (s.unRegisterDataObserver o keys).2

/-- What the call does to the keys of an observer. -/
def net (o : ι) (callKeys : Finset String) : DataObserverCall ι → Finset String
  | .register o' keys => if o' = o then callKeys ∪ keys.toFinset else callKeys
  | .unRegister o' keys => if o' = o then DataObserverMap.left callKeys keys else callKeys

/-- What a history of calls comes to for an observer. -/
def netKeys (calls : List (DataObserverCall ι)) (o : ι) : Finset String := calls.foldl (net o) ∅

/-- The map after a history of calls. -/
def after (calls : List (DataObserverCall ι)) : DataObserverMap ι := calls.foldl perform ∅

theorem keysOf_perform (s : DataObserverMap ι) (call : DataObserverCall ι) (o : ι) :
    (call.perform s).keysOf o = call.net o (s.keysOf o) := by
  cases call with
  | register o' keys =>
      rw [perform, net, DataObserverMap.keysOf, DataObserverMap.lookup_register]
      by_cases heq : o = o'
      · rw [if_pos heq, if_pos heq.symm, heq]
        rfl
      · rw [if_neg heq, if_neg (Ne.symm heq)]
        rfl
  | unRegister o' keys =>
      rw [perform, net, DataObserverMap.keysOf, DataObserverMap.lookup_unRegister]
      by_cases heq : o = o'
      · rw [if_pos heq, if_pos heq.symm, heq]
        split
        · next hempty => exact hempty.symm
        · rfl
      · rw [if_neg heq, if_neg (Ne.symm heq)]
        rfl

/-- **The keys of an observer are what the calls come to.** -/
theorem keysOf_after (calls : List (DataObserverCall ι)) (o : ι) :
    (after calls).keysOf o = netKeys calls o := by
  have hrun : ∀ s : DataObserverMap ι,
      (calls.foldl perform s).keysOf o = calls.foldl (net o) (s.keysOf o) := by
    induction calls with
    | nil => exact fun s => rfl
    | cons call calls ih =>
        intro s
        rw [List.foldl_cons, List.foldl_cons, ih, keysOf_perform]
  exact hrun ∅

theorem netKeys_snoc (calls : List (DataObserverCall ι)) (call : DataObserverCall ι) (o : ι) :
    netKeys (calls ++ [call]) o = call.net o (netKeys calls o) := by
  rw [netKeys, List.foldl_append]
  rfl

/-- **Subscription algebra.** After any history of calls, the keys of each observer are what the
history comes to for that observer. A further call leaves all other observers as they are. If it
is `UnRegisterDataObserver`, it returns `E_OBSERVER_RESERVE` if and only if the observer has keys
left, and the observer has an entry then if and only if it has keys. -/
theorem data_observer_algebra (calls : List (DataObserverCall ι)) :
    (∀ o, (after calls).keysOf o = netKeys calls o) ∧
      (∀ o keys o', o' ≠ o →
        ((after calls).registerDataObserver o keys).2.lookup o' = (after calls).lookup o' ∧
        ((after calls).unRegisterDataObserver o keys).2.lookup o' = (after calls).lookup o') ∧
      ∀ o keys,
        (((after calls).unRegisterDataObserver o keys).1 = eObserverReserve ↔
          (netKeys (calls ++ [.unRegister o keys]) o).Nonempty) ∧
        (o ∈ ((after calls).unRegisterDataObserver o keys).2 ↔
          (netKeys (calls ++ [.unRegister o keys]) o).Nonempty) := by
  refine ⟨keysOf_after calls, ?_, ?_⟩
  · intro o keys o' hne
    rw [DataObserverMap.lookup_register, DataObserverMap.lookup_unRegister, if_neg hne, if_neg hne]
    exact ⟨rfl, rfl⟩
  · intro o keys
    have hnet : netKeys (calls ++ [.unRegister o keys]) o =
        DataObserverMap.left ((after calls).keysOf o) keys := by
      rw [netKeys_snoc, net, if_pos rfl, keysOf_after]
    rw [hnet, DataObserverMap.unRegisterDataObserver_code, ← Finmap.lookup_isSome,
      DataObserverMap.lookup_unRegister, if_pos rfl, Finset.nonempty_iff_ne_empty]
    by_cases hempty : DataObserverMap.left ((after calls).keysOf o) keys = ∅
    · rw [if_pos hempty, if_pos hempty]
      exact ⟨by simp [hempty, eOk, eObserverReserve, eBase], by simp [hempty]⟩
    · rw [if_neg hempty, if_neg hempty]
      exact ⟨by simp [hempty], by simp [hempty]⟩

end DataObserverCall

end NativePreferences
