import NativePreferences.Impl.Observers
import NativePreferences.Ndk.Convertor

/-!
# NativePreferences.Ndk.SetGet

**Setting and getting a value through the C interface.** `OH_Preferences_GetValue` has no
not-found code to go by. It fetches the value with a monostate as the default and compares it with
`nullptr`, which the class converts to an empty string. So what was set comes back if and only if
it is not the empty string (`set_get_iff`).

Handles and pointers are taken to be valid; the functions refuse others before they do anything.
-/

namespace NativePreferences

open OHConvertor

/-- `PreferencesValue::PreferencesValue(const char *)`. -/
def PreferencesValue.ofCString (value : Option String) : PreferencesValue :=
  match value with
  | some value => .string value
  | none => .string ""

/-- A call of `OH_Preferences_SetValue`, `SetInt`, `SetBool` or `SetString`. -/
inductive SetCall
  | setValue (value : PreferencesValue)
  | setInt (value : Int32)
  | setBool (value : Bool)
  | setString (value : String)
  deriving DecidableEq

/-- The value that is put. -/
def SetCall.value : SetCall → PreferencesValue
  | .setValue value => value
  | .setInt value => .int value
  | .setBool value => .bool value
  | .setString value => .string value

namespace Store

/-- `PreferencesImpl::Get`. -/
def get (o : Weather) (key : String) (defValue : PreferencesValue) (s : Store) :
    PreferencesValue × Store :=
  if checkKey key = .ok then
    let s := s.awaitLoadFile o
    ((s.cache.visible.lookup key).getD defValue, s)
  else (defValue, s)

theorem query_get (o : Weather) (key : String) (defValue : PreferencesValue) (s : Store) :
    s.query o (.get key defValue) = (s.get o key defValue).map .value id := by
  unfold query get
  by_cases hkey : checkKey key = .ok
  · rw [if_pos hkey, if_pos (show (Query.get key defValue).check = .ok from hkey)]
    rfl
  · rw [if_neg hkey, if_neg (show ¬ (Query.get key defValue).check = .ok from hkey)]
    rfl

/-- The four setters. `SetValue` has a code of its own for whatever goes wrong. -/
def ohSet (o : Weather) (key : String) (call : SetCall) (s : Store) : NdkErrCode × Store :=
  let (errCode, s) := s.put o key call.value
  match call with
  | .setValue _ => (if errCode ≠ .ok then .errorStorage else .ok, s)
  | .setInt _ | .setBool _ | .setString _ => (nativeErrToNdk errCode.code, s)

/-- `OH_Preferences_GetValue`: the code and what was stored in `*value`, if anything was. -/
def ohGetValue (o : Weather) (key : String) (s : Store) :
    (NdkErrCode × Option PreferencesValue) × Store :=
  let (prefValue, s) := s.get o key .monostate
  if prefValue.eq (.ofCString none) then ((.errorInvalidParam, none), s)
  else ((.ok, some prefValue), s)

end Store

/-! ### In between -/

/-- Something that happens to an open store: its load task runs, or a client calls it. -/
inductive LaterEvent
  | load (o : Weather) (dirAccessible : Bool)
  | call (o : Weather) (c : Call)

namespace Store

/-- The store after the event. -/
def after (s : Store) : LaterEvent → Store
  | .load o dirAccessible => s.loadFromDisk o dirAccessible
  | .call o (.op op) => (s.call o op).2
  | .call o .flush => (s.flush o).store
  | .call o .flushSync => (s.flushSync o).store

/-- Readers of the key see no difference. -/
def Leaves (key : String) (s s' : Store) : Prop :=
  s'.cache.visible.lookup key = s.cache.visible.lookup key

/-- None of the events changes the key, nor does the loading that the last read begins with. -/
def NoLaterChange (key : String) (o : Weather) : Store → List LaterEvent → Prop
  | s, [] => Leaves key s (s.awaitLoadFile o)
  | s, event :: later => Leaves key s (s.after event) ∧ NoLaterChange key o (s.after event) later

variable {s : Store} {o o' : Weather} {key k : String} {value : PreferencesValue}
variable {later : List LaterEvent} {call : SetCall}

theorem NoLaterChange.lookup_eq (h : NoLaterChange key o s later) :
    Leaves key s ((later.foldl after s).awaitLoadFile o) := by
  induction later generalizing s with
  | nil => exact h
  | cons event later ih => exact (ih h.2).trans h.1

end Store

/-! ### What is put -/

/-- What is under the key after a `Put`: a value that compares equal stays. -/
def Cache.kept (c : Cache) (key : String) (value : PreferencesValue) : PreferencesValue :=
  match c.visible.lookup key with
  | some val => if val.eq value then val else value
  | none => value

namespace Cache

variable {c : Cache} {key : String} {value : PreferencesValue}

theorem lookup_visible_put :
    (c.put key value c.isCleared).visible.lookup key = some (c.kept key value) := by
  rw [kept]
  cases hc : c.isCleared with
  | true =>
      rw [visible_of_cleared hc, Finmap.lookup_empty]
      exact Finmap.lookup_insert c.dropCleared.valuesCache
  | false =>
      rw [visible_of_not_cleared (isCleared_put hc), visible_of_not_cleared hc]
      simp only [put, Bool.false_eq_true, if_false]
      cases hval : c.valuesCache.lookup key with
      | none => exact Finmap.lookup_insert c.valuesCache
      | some val =>
          dsimp only
          split
          · exact hval
          · exact Finmap.lookup_insert c.valuesCache

theorem kept_same : (c.kept key value).Same value := by
  rw [kept]
  split
  · split
    · next heq => exact .inr heq
    · exact .inl rfl
  · exact .inl rfl

theorem kept_eq_iff :
    c.kept key value = value ↔
      ∀ val, c.visible.lookup key = some val → val.eq value = true → val = value := by
  rw [kept]
  cases c.visible.lookup key with
  | none => simp
  | some val =>
      dsimp only
      split
      · next heq => simp [heq]
      · next hne => simp [hne]

end Cache

/-- Only an empty string compares equal to an empty string. -/
theorem PreferencesValue.eq_ofCString_none {v : PreferencesValue} :
    v.eq (.ofCString none) = true ↔ v = .string "" := by
  cases v <;> simp [PreferencesValue.eq, PreferencesValue.ofCString]

theorem PreferencesValue.Same.string_iff {v value : PreferencesValue} (h : v.Same value) :
    v = .string "" ↔ value = .string "" := by
  obtain rfl | heq := h
  · exact Iff.rfl
  · constructor
    · intro hv
      rw [hv] at heq
      cases value <;> simp_all [eq]
    · intro hvalue
      rw [hvalue] at heq
      exact eq_ofCString_none.mp heq

namespace Store

variable {s : Store} {o o' : Weather} {key k : String} {value : PreferencesValue}
variable {later : List LaterEvent} {call : SetCall}

theorem put_ok (hok : (s.put o key value).1 = .ok) :
    checkKey key = .ok ∧
      (s.put o key value).2.cache.visible.lookup key =
        some ((s.awaitLoadFile o).cache.kept key value) := by
  unfold put at hok ⊢
  split at hok
  · next hkey =>
    rw [if_pos hkey]
    split at hok
    · next hvalue =>
      rw [if_pos hvalue]
      exact ⟨hkey, Cache.lookup_visible_put⟩
    · next hvalue => exact absurd hok hvalue
  · next hkey => exact absurd hok hkey

theorem ohSet_ok (hok : (s.ohSet o key call).1 = .ok) :
    (s.put o key call.value).1 = .ok ∧ (s.ohSet o key call).2 = (s.put o key call.value).2 := by
  cases call with
  | setValue value =>
      refine ⟨?_, rfl⟩
      by_contra hne
      have hcode : (s.ohSet o key (.setValue value)).1 = .errorStorage := if_pos hne
      rw [hcode] at hok
      exact absurd hok (by decide)
  | setInt value => exact ⟨nativeErrToNdk_code_eq_ok hok, rfl⟩
  | setBool value => exact ⟨nativeErrToNdk_code_eq_ok hok, rfl⟩
  | setString value => exact ⟨nativeErrToNdk_code_eq_ok hok, rfl⟩

/-- **The set/get law.** After a successful setter and no later change of the key,
`OH_Preferences_GetValue` returns `PREFERENCES_OK` and the value, up to `operator==`, if and only
if the value is not the empty string. It is the very value, unless the store had another one under
the key that compares equal, which `Put` leaves in place. -/
theorem set_get_iff (s : Store) (o o' : Weather) (key : String) (call : SetCall)
    (later : List LaterEvent) (hset : (s.ohSet o key call).1 = .ok)
    (hlater : NoLaterChange key o' (s.ohSet o key call).2 later) :
    ((∃ v, ((later.foldl after (s.ohSet o key call).2).ohGetValue o' key).1 = (.ok, some v) ∧
        v.Same call.value) ↔ call.value ≠ .string "") ∧
      (((later.foldl after (s.ohSet o key call).2).ohGetValue o' key).1 = (.ok, some call.value) ↔
        call.value ≠ .string "" ∧
          ∀ val, (s.awaitLoadFile o).cache.visible.lookup key = some val →
            val.eq call.value = true → val = call.value) := by
  obtain ⟨hput, hstore⟩ := ohSet_ok hset
  obtain ⟨hkey, hkept⟩ := put_ok hput
  have hlookup := hlater.lookup_eq
  rw [Leaves, show (s.ohSet o key call).2.cache.visible.lookup key = _ from hstore ▸ hkept]
    at hlookup
  rw [← Cache.kept_eq_iff]
  have hsame : ((s.awaitLoadFile o).cache.kept key call.value).Same call.value := Cache.kept_same
  generalize (s.awaitLoadFile o).cache.kept key call.value = w at *
  generalize later.foldl after _ = s' at *
  have hget : (s'.ohGetValue o' key).1 =
      if w = .string "" then (.errorInvalidParam, none) else (.ok, some w) := by
    have hread : s'.get o' key .monostate = (w, s'.awaitLoadFile o') := by
      rw [get, if_pos hkey]
      dsimp only
      rw [hlookup, Option.getD_some]
    rw [ohGetValue, hread]
    dsimp only
    by_cases hw : w = .string ""
    · rw [if_pos hw, if_pos (PreferencesValue.eq_ofCString_none.mpr hw)]
    · rw [if_neg hw, if_neg (fun heq => hw (PreferencesValue.eq_ofCString_none.mp heq))]
  rw [hget]
  by_cases hw : w = .string ""
  · have hvalue : call.value = .string "" := hsame.string_iff.mp hw
    rw [if_pos hw]
    simp [hvalue]
  · have hvalue : call.value ≠ .string "" := fun heq => hw (hsame.string_iff.mpr heq)
    rw [if_neg hw]
    refine ⟨⟨fun _ => hvalue, fun _ => ⟨w, rfl, hsame⟩⟩, ?_⟩
    simp [hvalue]

/-! ### Loaded stores -/

/-- The call does not name the key, and is no `Clear`. -/
def Spares (key : String) : Call → Prop
  | .op (.put key' _) | .op (.delete key') => key ≠ key'
  | .op .clear => False
  | .op (.query _) | .flush | .flushSync => True

theorem Loaded.put (h : s.Loaded) : (s.put o key value).2.Loaded := by
  unfold Store.put
  split
  · split
    · rw [h.awaitLoadFile]
      exact ⟨h.loaded, h.settled⟩
    · exact h
  · exact h

theorem Loaded.writeToDiskFile (h : s.Loaded) :
    (s.writeToDiskFile o).store.Loaded ∧ Leaves key s (s.writeToDiskFile o).store := by
  obtain ⟨hloaded, hvis⟩ := h.writeToDiskFile_visible (o := o)
  exact ⟨hloaded, congrArg (Finmap.lookup key) hvis⟩

theorem Loaded.flushSync (h : s.Loaded) :
    (s.flushSync o).store.Loaded ∧ Leaves key s (s.flushSync o).store := by
  obtain ⟨-, hfull⟩ | ⟨-, hstuck | hwrite⟩ := h.flushSync_cases (o := o)
  · rw [hfull]
    exact ⟨h, rfl⟩
  · rw [hstuck]
    exact ⟨⟨h.loaded, h.settled⟩, rfl⟩
  · rw [hwrite]
    exact h.writeToDiskFile

/-- In a loaded store, a call that spares the key does not change it. -/
theorem Loaded.after {c : Call} (h : s.Loaded) (hspares : Spares key c) :
    (s.after (.call o c)).Loaded ∧ Leaves key s (s.after (.call o c)) := by
  have hload : s.awaitLoadFile o = s := h.awaitLoadFile
  cases c with
  | op op =>
      cases op with
      | put key' value =>
          refine ⟨h.put, ?_⟩
          show (s.put o key' value).2.cache.visible.lookup key = _
          unfold Store.put
          split
          · split
            · rw [hload]
              exact Cache.visible_put_of_ne hspares
            · rfl
          · rfl
      | delete key' =>
          show (s.delete o key').2.Loaded ∧ (s.delete o key').2.cache.visible.lookup key = _
          unfold Store.delete
          split
          · rw [hload]
            refine ⟨⟨h.loaded, h.settled⟩, ?_⟩
            show (s.cache.delete key' s.cache.isCleared).visible.lookup key = _
            rw [Cache.visible_delete]
            exact Finmap.lookup_erase_ne hspares
          · exact ⟨h, rfl⟩
      | clear => exact absurd hspares id
      | query q =>
          show (s.query o q).2.Loaded ∧ Leaves key s (s.query o q).2
          unfold Store.query
          split
          · rw [hload]
            exact ⟨h, rfl⟩
          · exact ⟨h, rfl⟩
  | flush =>
      show (s.flush o).store.Loaded ∧ Leaves key s (s.flush o).store
      rw [flush_eq]
      exact h.flushSync
  | flushSync => exact h.flushSync

/-- So in a loaded store the calls that spare the key are no change of it. -/
theorem Loaded.noLaterChange (calls : List (Weather × Call)) (h : s.Loaded)
    (hspare : ∀ l ∈ calls, Spares key l.2) :
    NoLaterChange key o s (calls.map (fun l => .call l.1 l.2)) := by
  induction calls generalizing s with
  | nil =>
      show Leaves key s (s.awaitLoadFile o)
      rw [h.awaitLoadFile]
      rfl
  | cons l calls ih =>
      obtain ⟨hnext, hleaves⟩ := h.after (o := l.1) (hspare l List.mem_cons_self)
      exact ⟨hleaves, ih hnext (fun l' hl' => hspare l' (List.mem_cons_of_mem _ hl'))⟩

/-- A number is set in a loaded store, another key is put, and the store is flushed. -/
theorem set_get_oneUnsaved :
    (∃ v, (([.call ⟨true, true, true⟩ (.op (.put "b" (.string ""))),
        .call ⟨true, true, true⟩ .flushSync].foldl after
          (oneUnsaved.ohSet ⟨true, true, true⟩ "a" (.setInt 7)).2).ohGetValue
            ⟨true, true, true⟩ "a").1 = (.ok, some v) ∧ v.Same (.int 7)) :=
  (set_get_iff oneUnsaved ⟨true, true, true⟩ ⟨true, true, true⟩ "a" (.setInt 7) _ (by decide)
    (Loaded.noLaterChange [(⟨true, true, true⟩, .op (.put "b" (.string ""))),
      (⟨true, true, true⟩, .flushSync)] ⟨rfl, .inl rfl⟩ (by simp [Spares]))).1.mpr (by decide)

/-- An empty string is set and read back at once. -/
theorem set_get_empty :
    ¬ ∀ (s : Store) (o o' : Weather) (key : String) (call : SetCall) (later : List LaterEvent),
      (s.ohSet o key call).1 = .ok → NoLaterChange key o' (s.ohSet o key call).2 later →
      ∃ v, ((later.foldl after (s.ohSet o key call).2).ohGetValue o' key).1 = (.ok, some v) ∧
        v.Same call.value := by
  intro hall
  obtain ⟨v, hget, -⟩ := hall oneUnsaved ⟨true, true, true⟩ ⟨true, true, true⟩ "a" (.setString "")
    [] (by decide) rfl
  have hcode : ((oneUnsaved.ohSet ⟨true, true, true⟩ "a" (.setString "")).2.ohGetValue
      ⟨true, true, true⟩ "a").1.1 = .ok := congrArg Prod.fst hget
  exact absurd hcode (by decide)

end Store

end NativePreferences
