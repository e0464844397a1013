import NativePreferences.Impl.KeyObservers
import NativePreferences.Ndk.DataObservers

/-!
# NativePreferences.Ndk.MultiProcess

**Observers for other processes through the C interface**
(`OH_Preferences_RegisterMultiProcessDataObserver` and its counterpart). A change of another
process comes to the stubs as `OnChangePreferences`, and a stub calls `OnChange` of its observer if
that still exists.

The wrapper makes an observer object, hands it to the store, which keeps a weak pointer, and drops
it when it returns. So no object that was ever registered exists at any later time
(`called_eq_nil`), and no change leads to a call, whoever has registered
(`notifications_arrive_iff`). Nor would it if the object lived on: its `OnChange` with a key has an
empty body.
-/

namespace NativePreferences

open OHConvertor

variable {φ γ : Type}

/-- `OnChange` with a key, and the calls that it makes: the body is empty. -/
def NDKPreferencesObserver.onChangeKey (_ : NDKPreferencesObserver φ γ) (_ : String) :
    List (φ × γ × String) := []

/-- The store of an `OH_PreferencesImpl`, with the number of the next object. -/
structure MultiProcess (φ γ : Type) where
  preferences : KeyObservers (NDKPreferencesObserver φ γ)
  nextId : Nat

/-- What happens to it. -/
inductive MultiProcessEvent (φ γ : Type)
  | register (observer : Option φ) (context : γ) (answer : ServiceAnswer)
  | unregister (observer : Option φ) (context : γ) (answer : ServiceAnswer)
  /-- The service delivers a change of another process. -/
  | change (key : String)

variable [DecidableEq φ] [DecidableEq γ]

namespace MultiProcess

/-- Nobody has registered. -/
def initial : MultiProcess φ γ := ⟨.initial, 0⟩

/-- `OH_PreferencesImpl::RegisterMultiProcessDataObserver`. -/
def registerMultiProcessDataObserver (s : MultiProcess φ γ) (observer : Option φ) (context : γ)
    (answer : ServiceAnswer) : NdkErrCode × MultiProcess φ γ :=
  let ndkObserver : NDKPreferencesObserver φ γ := ⟨s.nextId, observer, context⟩
  let (errCode, preferences) :=
    s.preferences.registerObserver ndkObserver .multiPrecessChange answer
  -- `ndkObserver` was the only shared pointer to the object.
  (nativeErrToNdk errCode,
    { preferences := preferences.step (.destroy ndkObserver), nextId := s.nextId + 1 })

/-- `OH_PreferencesImpl::UnregisterMultiProcessDataObserver`. -/
def unregisterMultiProcessDataObserver (s : MultiProcess φ γ) (observer : Option φ) (context : γ)
    (answer : ServiceAnswer) : NdkErrCode × MultiProcess φ γ :=
  let ndkObserver : NDKPreferencesObserver φ γ := ⟨s.nextId, observer, context⟩
  let (errCode, preferences) :=
    s.preferences.unRegisterObserver ndkObserver .multiPrecessChange answer
  (if errCode ≠ eOk then nativeErrToNdk errCode else .ok,
    { preferences := preferences.step (.destroy ndkObserver), nextId := s.nextId + 1 })

/-- `OH_Preferences_RegisterMultiProcessDataObserver`, which converts the code once more. -/
def ohRegister (s : MultiProcess φ γ) (observer : Option φ) (context : γ)
    (answer : ServiceAnswer) : NdkErrCode × MultiProcess φ γ :=
  if observer = none then (.errorInvalidParam, s)
  else
    let (code, s) := s.registerMultiProcessDataObserver observer context answer
    (nativeErrToNdk code.code, s)

/-- `OH_Preferences_UnregisterMultiProcessDataObserver`. -/
def ohUnregister (s : MultiProcess φ γ) (observer : Option φ) (context : γ)
    (answer : ServiceAnswer) : NdkErrCode × MultiProcess φ γ :=
  if observer = none then (.errorInvalidParam, s)
  else
    let (code, s) := s.unregisterMultiProcessDataObserver observer context answer
    (nativeErrToNdk code.code, s)

/-- The calls that a change leads to: `OnChangePreferences` of each stub of the service. -/
def calls (s : MultiProcess φ γ) (key : String) : List (φ × γ × String) :=
  (s.preferences.called .multiPrecessChange).flatMap (fun o => o.onChangeKey key)

/-- One event. -/
def step (s : MultiProcess φ γ) : MultiProcessEvent φ γ → MultiProcess φ γ
  | .register observer context answer => (s.ohRegister observer context answer).2
  | .unregister observer context answer => (s.ohUnregister observer context answer).2
  | .change _ => s

/-- A history of events. -/
def run (s : MultiProcess φ γ) (history : List (MultiProcessEvent φ γ)) : MultiProcess φ γ :=
  history.foldl step s

variable {s : MultiProcess φ γ} {event : MultiProcessEvent φ γ}

/-! ### The objects -/

/-- A request to the store for an object. -/
inductive StoreRequest (o : NDKPreferencesObserver φ γ) :
    ObserverEvent (NDKPreferencesObserver φ γ) → Prop
  | register (answer : ServiceAnswer) : StoreRequest o (.register o .multiPrecessChange answer)
  | unRegister (answer : ServiceAnswer) : StoreRequest o (.unRegister o .multiPrecessChange answer)

/-- A step of the wrapper is a request to the store for an object that is gone when the wrapper
returns, or nothing. -/
theorem step_cases (s : MultiProcess φ γ) (event : MultiProcessEvent φ γ) :
    s.step event = s ∨
      ∃ o request, StoreRequest o request ∧
        (s.step event).preferences = s.preferences.run [request, .destroy o] := by
  cases event with
  | register observer context answer =>
      by_cases hnull : observer = none
      · exact .inl (congrArg Prod.snd (if_pos hnull))
      · have hcall : s.step (.register observer context answer) = _ :=
          congrArg Prod.snd (if_neg hnull)
        rw [hcall]
        exact .inr ⟨⟨s.nextId, observer, context⟩, _, .register answer, rfl⟩
  | unregister observer context answer =>
      by_cases hnull : observer = none
      · exact .inl (congrArg Prod.snd (if_pos hnull))
      · have hcall : s.step (.unregister observer context answer) = _ :=
          congrArg Prod.snd (if_neg hnull)
        rw [hcall]
        exact .inr ⟨⟨s.nextId, observer, context⟩, _, .unRegister answer, rfl⟩
  | change key => exact .inl rfl

/-- Every object that the store has a stub for is gone. -/
structure Expired (s : KeyObservers (NDKPreferencesObserver φ γ)) : Prop where
  inStep : s.InStep
  destroyed : ∀ o ∈ s.entries .multiPrecessChange, o ∈ s.destroyed

theorem Expired.called_eq_nil {s : KeyObservers (NDKPreferencesObserver φ γ)} (h : Expired s) :
    s.called .multiPrecessChange = [] := by
  rw [h.inStep.called, List.filter_eq_nil_iff]
  intro o ho
  simpa using h.destroyed o ho

/-- A request adds a stub for its own object at most. -/
theorem Expired.request {s : KeyObservers (NDKPreferencesObserver φ γ)}
    {o : NDKPreferencesObserver φ γ} {request : ObserverEvent (NDKPreferencesObserver φ γ)}
    (h : Expired s) (hrequest : StoreRequest o request) :
    Expired (s.run [request, .destroy o]) := by
  refine ⟨h.inStep.run _, ?_⟩
  intro o' ho'
  show o' ∈ o :: (s.step request).destroyed
  have hentry : o' ∈ (s.step request).entries .multiPrecessChange := ho'
  obtain hold | ⟨answer, hregister⟩ := KeyObservers.mem_entries_of_step hentry
  · exact List.mem_cons_of_mem _ (s.destroyed_subset_step request (h.destroyed o' hold))
  · rw [hregister] at hrequest
    cases hrequest with
    | register => exact List.mem_cons_self

theorem expired_run (history : List (MultiProcessEvent φ γ)) :
    Expired (initial.run history : MultiProcess φ γ).preferences := by
  have hrun : ∀ s : MultiProcess φ γ,
      Expired s.preferences → Expired (s.run history).preferences := by
    induction history with
    | nil => exact fun s h => h
    | cons event history ih =>
        intro s h
        refine ih (s.step event) ?_
        obtain hsame | ⟨o, request, hrequest, hnext⟩ := step_cases s event
        · rw [hsame]
          exact h
        · rw [hnext]
          exact h.request hrequest
  exact hrun initial ⟨rfl, by simp [initial, KeyObservers.initial, KeyObservers.entries]⟩

/-- **No registered object exists.** In every reachable state, a change of another process finds
nobody to call. -/
theorem called_eq_nil (history : List (MultiProcessEvent φ γ)) :
    (initial.run history : MultiProcess φ γ).preferences.called .multiPrecessChange = [] :=
  (expired_run history).called_eq_nil

/-! ### Notifications -/

/-- The pair has registered, with `PREFERENCES_OK`, and has not unregistered since. -/
def RegisteredAfter (before : List (MultiProcessEvent φ γ)) (observer : φ) (context : γ) : Prop :=
  ∃ earlier answer since,
    before = earlier ++ .register (some observer) context answer :: since ∧
    ((initial.run earlier).ohRegister (some observer) context answer).1 = .ok ∧
    ∀ since₁ answer' since₂,
      since = since₁ ++ .unregister (some observer) context answer' :: since₂ →
      ((initial.run (earlier ++ .register (some observer) context answer :: since₁)).ohUnregister
        (some observer) context answer').1 ≠ .ok

/-- Every change in the history calls a pair with its context and the key if it is registered, and
does not call it if it is not. -/
def Arrive (history : List (MultiProcessEvent φ γ)) : Prop :=
  ∀ before key after, history = before ++ .change key :: after → ∀ observer context,
    (RegisteredAfter before observer context →
      (observer, context, key) ∈ (initial.run before).calls key) ∧
    (¬ RegisteredAfter before observer context →
      (observer, context, key) ∉ (initial.run before).calls key)

/-- **When the notifications arrive**: in the histories in which no change is delivered while a
pair is registered. -/
theorem notifications_arrive_iff (history : List (MultiProcessEvent φ γ)) :
    Arrive history ↔
      ∀ before key after, history = before ++ .change key :: after →
        ∀ observer context, ¬ RegisteredAfter before observer context := by
  have hnone : ∀ (before : List (MultiProcessEvent φ γ)) (key : String),
      (initial.run before).calls key = [] := by
    intro before key
    rw [calls, called_eq_nil, List.flatMap_nil]
  constructor
  · intro harrive before key after hsplit observer context hregistered
    have hcalled := (harrive before key after hsplit observer context).1 hregistered
    rw [hnone] at hcalled
    exact absurd hcalled List.not_mem_nil
  · intro hquiet before key after hsplit observer context
    refine ⟨fun hregistered => ?_, fun _ => ?_⟩
    · exact absurd hregistered (hquiet before key after hsplit observer context)
    · rw [hnone]
      exact List.not_mem_nil

/-- One registration, one change. -/
theorem notifications_lost :
    ¬ ∀ history : List (MultiProcessEvent Nat Nat), Arrive history := by
  intro hall
  have hregistered : RegisteredAfter [.register (some 0) 0 ⟨true, true, 0⟩] 0 0 :=
    ⟨[], ⟨true, true, 0⟩, [], rfl, by decide, by simp⟩
  have hcalled := (hall [.register (some 0) 0 ⟨true, true, 0⟩, .change "key"]
    [.register (some 0) 0 ⟨true, true, 0⟩] "key" [] rfl 0 0).1 hregistered
  exact absurd hcalled (by decide)

end MultiProcess

end NativePreferences
