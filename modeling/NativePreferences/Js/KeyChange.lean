import Mathlib.Data.Finset.Basic
import Mathlib.Data.Multiset.AddSub
import NativePreferences.Impl.KeyObservers
import NativePreferences.Lib.Program
import NativePreferences.Lib.Transition

/-!
# NativePreferences.Js.KeyChange

**Subscriptions of JavaScript to `change` and `multiProcessChange`**: `PreferencesProxy` of
`napi_preferences.cpp`, and `PreferencesProxy::JSObservers` of its sendable sibling, which has the
same list for each environment.

An object with a reference to the callback is made for each subscription; the proxy shares it, the
store has a weak pointer. `OnChange` is called on some other thread. It sends a task to the thread
of JavaScript, unless the reference has been deleted, and the task calls the callback, unless the
reference has been deleted meanwhile. That the task gets its scope and the global object is taken
for granted; where it does not, the call is lost. `on` and `off` run on the thread of JavaScript, so
that no task runs while they do; but changes, and other users of the store, come at any time between
two of their calls.
-/

namespace NativePreferences.KeyChange

open Lib

/-- The modes of these subscriptions. -/
inductive ChangeMode
  | change
  | multiProcessChange
  deriving DecidableEq

/-- `ConvertToRegisterMode`. -/
def ChangeMode.registerMode : ChangeMode → RegisterMode
  | .change => .localChange
  | .multiProcessChange => .multiPrecessChange

theorem ChangeMode.registerMode_inj {mode mode' : ChangeMode}
    (h : mode.registerMode = mode'.registerMode) : mode = mode' := by
  cases mode <;> cases mode' <;> simp_all [registerMode]

/-- `JSPreferencesObserver`, as an object: what its reference is to, as long as it has one, and
the mode that it was made for. -/
structure Observer (φ : Type) where
  id : Nat
  callback : φ
  mode : ChangeMode
  deriving DecidableEq

/-- The subscription that an object is for. -/
def Observer.slot {φ : Type} (o : Observer φ) : ChangeMode × φ := (o.mode, o.callback)

/-! ### The functions of the proxies -/

/-- What the functions below call. -/
inductive ObserverCall (φ : Type)
  /-- `std::make_shared<JSPreferencesObserver>`. -/
  | makeShared (callback : φ) (mode : ChangeMode)
  | registerObserver (o : Observer φ)
  | unRegisterObserver (o : Observer φ)
  | clearCallback (o : Observer φ)
  /-- The shared pointer of the proxy goes away. -/
  | release (o : Observer φ)

namespace ObserverCall

variable {φ : Type}

/-- What a call returns. -/
abbrev Answer : ObserverCall φ → Type
  | makeShared _ _ => Observer φ
  | registerObserver _ => Int
  | unRegisterObserver _ => Int
  | clearCallback _ => Unit
  | release _ => Unit

end ObserverCall

/-- Code of the proxies. -/
abbrev Prog (φ : Type) : Type → Type := Program (ObserverCall φ) ObserverCall.Answer

section

variable {φ : Type}

def makeShared (callback : φ) (mode : ChangeMode) : Prog φ (Observer φ) :=
  Program.op (ObserverCall.makeShared callback mode)

def registerObserver (o : Observer φ) : Prog φ Int := Program.op (ObserverCall.registerObserver o)

def unRegisterObserver (o : Observer φ) : Prog φ Int :=
  Program.op (ObserverCall.unRegisterObserver o)

def clearCallback (o : Observer φ) : Prog φ Unit := Program.op (ObserverCall.clearCallback o)

def release (o : Observer φ) : Prog φ Unit := Program.op (ObserverCall.release o)

end

section

variable {φ : Type} [DecidableEq φ]

/-- `HasRegisteredObserver`, and the search at the beginning of `Subscribe`. Callbacks are
functions, so that strict equality is identity. -/
def hasRegisteredObserver (observers : List (Observer φ)) (callback : φ) : Bool :=
  observers.any (fun it => callback == it.callback)

/-- `RegisteredObserver`, and `JSObservers::Subscribe`. -/
def registeredObserver (observers : List (Observer φ)) (callback : φ) (mode : ChangeMode) :
    Prog φ (Int × List (Observer φ)) :=
  if hasRegisteredObserver observers callback then pure (eOk, observers)
  else do
    let observer ← makeShared callback mode
    let errCode ← registerObserver observer
    if errCode ≠ eOk then
      release observer
      pure (errCode, observers)
    else pure (eOk, observers ++ [observer])

/-- `UnRegisteredObserver`, from an object of the list to the end. -/
def unRegisteredObserver (callback : φ) : List (Observer φ) → Prog φ (Int × List (Observer φ))
  | [] => pure (eOk, [])
  | it :: rest =>
      if callback = it.callback then do
        let errCode ← unRegisterObserver it
        if errCode ≠ eOk then pure (errCode, it :: rest)
        else
          clearCallback it
          release it
          pure (eOk, rest)
      else do
        let r ← unRegisteredObserver callback rest
        pure (r.1, it :: r.2)

/-- The loop of `UnRegisteredAllObservers`. -/
def unRegisterAllLoop (hasFailed : Bool) : List (Observer φ) → Prog φ Bool
  | [] => pure hasFailed
  | observer :: rest => do
      let errCode ← unRegisterObserver observer
      clearCallback observer
      unRegisterAllLoop (hasFailed || errCode != eOk) rest

/-- `observers.clear()`. -/
def releaseAll : List (Observer φ) → Prog φ Unit
  | [] => pure ()
  | observer :: rest => do
      release observer
      releaseAll rest

/-- `UnRegisteredAllObservers`. -/
def unRegisteredAllObservers (observers : List (Observer φ)) :
    Prog φ (Int × List (Observer φ)) := do
  let hasFailed ← unRegisterAllLoop false observers
  releaseAll observers
  pure (if hasFailed then eError else eOk, [])

/-- `JSObservers::Unsubscribe`, from an object of the list to the end. The callback is a pointer:
it may be null, and what it points to may be no function. -/
def unsubscribe (callback : Option (Option φ)) (errCode : Int) :
    List (Observer φ) → Prog φ (Int × List (Observer φ))
  | [] => pure (errCode, [])
  | observer :: rest =>
      if callback = none ∨ callback = some (some observer.callback) then do
        let status ← unRegisterObserver observer
        if status = eOk then
          clearCallback observer
          release observer
          unsubscribe callback errCode rest
        else
          let r ← unsubscribe callback status rest
          pure (r.1, observer :: r.2)
      else do
        let r ← unsubscribe callback errCode rest
        pure (r.1, observer :: r.2)

/-! ### `on` and `off` -/

/-- The second argument of `off`. -/
inductive CallbackArgument (φ : Type)
  | missing
  /-- `undefined` or `null`. -/
  | nullish
  | function (callback : φ)

/-- A call of `on` or `off`. -/
inductive Op (φ : Type)
  | on (mode : ChangeMode) (callback : φ)
  | off (mode : ChangeMode) (callback : CallbackArgument φ)

/-- The mode of a call. -/
def Op.mode : Op φ → ChangeMode
  | .on mode _ => mode
  | .off mode _ => mode

/-- The two implementations. -/
inductive FrontEnd
  | napi
  | sendable

/-- `RegisterObserver` and `UnRegisterObserver` after their checks of the arguments, on the list of
the mode. -/
def FrontEnd.perform (observers : List (Observer φ)) :
    FrontEnd → Op φ → Prog φ (Int × List (Observer φ))
  | _, .on mode callback => registeredObserver observers callback mode
  | .napi, .off _ (.function callback) => unRegisteredObserver callback observers
  | .napi, .off _ _ => unRegisteredAllObservers observers
  | .sendable, .off _ .missing => unsubscribe none eOk observers
  | .sendable, .off _ .nullish => unsubscribe (some none) eOk observers
  | .sendable, .off _ (.function callback) => unsubscribe (some (some callback)) eOk observers

end

/-- The lists of a proxy. -/
structure ObserverLists (φ : Type) where
  localObservers : List (Observer φ)
  multiProcessObservers : List (Observer φ)

namespace ObserverLists

variable {φ : Type}

/-- `(mode == LOCAL_CHANGE) ? localObservers_ : multiProcessObservers_`. -/
def of (lists : ObserverLists φ) : ChangeMode → List (Observer φ)
  | .change => lists.localObservers
  | .multiProcessChange => lists.multiProcessObservers

/-- The list of the mode is replaced. -/
def set (lists : ObserverLists φ) (observers : List (Observer φ)) : ChangeMode → ObserverLists φ
  | .change => { lists with localObservers := observers }
  | .multiProcessChange => { lists with multiProcessObservers := observers }

@[simp] theorem of_set (lists : ObserverLists φ) (observers : List (Observer φ))
    (mode mode' : ChangeMode) :
    (lists.set observers mode).of mode' = if mode' = mode then observers else lists.of mode' := by
  cases mode <;> cases mode' <;> rfl

end ObserverLists

/-! ### The process around a proxy -/

/-- An observer of the store: an object of the proxy, or of anybody else. -/
inductive Registered (φ ω : Type)
  | own (o : Observer φ)
  | foreign (x : ω)
  deriving DecidableEq

/-- The store and the objects of one proxy. -/
structure Process (φ ω : Type) where
  preferences : KeyObservers (Registered φ ω)
  /-- The number of the next object. -/
  nextId : Nat
  /-- The objects that the proxy has a shared pointer to. -/
  shared : Finset (Observer φ)
  /-- The objects with `callback_ == nullptr`. -/
  cleared : Finset (Observer φ)
  /-- The calls of `OnChange` that are under way. -/
  calls : Multiset (Observer φ × String)
  /-- What was sent to the thread of JavaScript. -/
  tasks : Multiset (Observer φ × String)
  /-- The objects that were registered, with `E_OK`, and neither unregistered with `E_OK` nor
  cleared since. No step depends on it. -/
  standing : Finset (Observer φ)

section

variable {φ ω : Type} [DecidableEq φ] [DecidableEq ω]

/-- What the calls of the proxy do. -/
def ObserverCall.sem : Sem (ObserverCall φ) ObserverCall.Answer (Process φ ω)
  | .makeShared callback mode, w, (o : Observer φ), w' =>
      o = ⟨w.nextId, callback, mode⟩ ∧
        w' = { w with nextId := w.nextId + 1, shared := insert o w.shared }
  | .registerObserver o, w, (errCode : Int), w' => ∃ answer,
      errCode = (w.preferences.registerObserver (.own o) o.mode.registerMode answer).1 ∧
        w' = { w with
          preferences := (w.preferences.registerObserver (.own o) o.mode.registerMode answer).2
          standing := if errCode = eOk then insert o w.standing else w.standing }
  | .unRegisterObserver o, w, (errCode : Int), w' => ∃ answer,
      errCode = (w.preferences.unRegisterObserver (.own o) o.mode.registerMode answer).1 ∧
        w' = { w with
          preferences := (w.preferences.unRegisterObserver (.own o) o.mode.registerMode answer).2
          standing := if errCode = eOk then w.standing.erase o else w.standing }
  | .clearCallback o, w, (_ : Unit), w' =>
      w' = { w with cleared := insert o w.cleared, standing := w.standing.erase o }
  | .release o, w, (_ : Unit), w' => w' = { w with shared := w.shared.erase o }

/-- The calls of `OnChange` of one observer, if it is the proxy's. -/
def Registered.notices (keys : List String) : Registered φ ω → List (Observer φ × String)
  | .own o => keys.map (Prod.mk o)
  | .foreign _ => []

/-- The calls of `OnChange` that a change leads to. -/
def notices (observers : List (Registered φ ω)) (keys : List String) :
    Multiset (Observer φ × String) :=
  (observers.flatMap (Registered.notices keys) : List _)

/-- An event of an observer that is not the proxy's. -/
inductive Foreign : ObserverEvent (Registered φ ω) → Prop
  | register {x : ω} {mode : RegisterMode} {answer : ServiceAnswer} :
      Foreign (.register (.foreign x) mode answer)
  | unRegister {x : ω} {mode : RegisterMode} {answer : ServiceAnswer} :
      Foreign (.unRegister (.foreign x) mode answer)
  | destroy {x : ω} : Foreign (.destroy (.foreign x))

/-- What is seen of a step. -/
inductive Label (φ : Type)
  /-- JavaScript calls a function of the proxy. -/
  | start (op : Op φ)
  | call (event : Event (ObserverCall.Answer : ObserverCall φ → Type))
  /-- The function returns. -/
  | finish (op : Op φ) (errCode : Int)
  | change (mode : ChangeMode) (keys : List String)
  /-- `napi_send_event` has failed. -/
  | lost (o : Observer φ) (key : String)
  /-- The callback is called. -/
  | deliver (o : Observer φ) (key : String)
  /-- A step that calls nobody. -/
  | aside

/-- What happens while the proxy waits, or between two of its calls. -/
inductive Other : Process φ ω → Label φ → Process φ ω → Prop
  | elsewhere {w : Process φ ω} {event : ObserverEvent (Registered φ ω)} (h : Foreign event) :
      Other w .aside { w with preferences := w.preferences.step event }
  /-- Nobody shares the object any longer. -/
  | destroy {w : Process φ ω} {o : Observer φ} (hmade : o.id < w.nextId) (hshared : o ∉ w.shared)
      (htasks : ∀ key, (o, key) ∉ w.tasks) :
      Other w .aside { w with preferences := w.preferences.step (.destroy (.own o)) }
  | change {w : Process φ ω} {mode : ChangeMode} {keys : List String} :
      Other w (.change mode keys)
        { w with calls := w.calls + notices (w.preferences.called mode.registerMode) keys }
  /-- `JSObserver::AsyncCall`. -/
  | send {w : Process φ ω} {o : Observer φ} {key : String} (hcall : (o, key) ∈ w.calls)
      (hexists : .own o ∉ w.preferences.destroyed) (hcallback : o ∉ w.cleared) :
      Other w .aside
        { w with calls := w.calls.erase (o, key), tasks := (o, key) ::ₘ w.tasks }
  | lost {w : Process φ ω} {o : Observer φ} {key : String} (hcall : (o, key) ∈ w.calls)
      (hexists : .own o ∉ w.preferences.destroyed) (hcallback : o ∉ w.cleared) :
      Other w (.lost o key) { w with calls := w.calls.erase (o, key) }
  | pass {w : Process φ ω} {o : Observer φ} {key : String} (hcall : (o, key) ∈ w.calls)
      (hgone : .own o ∈ w.preferences.destroyed ∨ o ∈ w.cleared) :
      Other w .aside { w with calls := w.calls.erase (o, key) }

/-- What the thread of JavaScript is at. -/
inductive Thread (φ : Type)
  | idle (lists : ObserverLists φ)
  | busy (op : Op φ) (lists : ObserverLists φ) (rest : Prog φ (Int × List (Observer φ)))

/-- A proxy in its process. -/
structure Proxy (φ ω : Type) where
  process : Process φ ω
  js : Thread φ

/-- One step. -/
inductive Step (front : FrontEnd) : Proxy φ ω → Label φ → Proxy φ ω → Prop
  | other {w w' : Process φ ω} {js : Thread φ} {l : Label φ} (h : Other w l w') :
      Step front ⟨w, js⟩ l ⟨w', js⟩
  | start {w : Process φ ω} {lists : ObserverLists φ} {op : Op φ} :
      Step front ⟨w, .idle lists⟩ (.start op)
        ⟨w, .busy op lists (front.perform (lists.of op.mode) op)⟩
  | call {w w' : Process φ ω} {lists : ObserverLists φ} {op : Op φ} {c : ObserverCall φ}
      {k : c.Answer → Prog φ (Int × List (Observer φ))} {r : c.Answer}
      (h : ObserverCall.sem c w r w') :
      Step front ⟨w, .busy op lists (.call c k)⟩ (.call ⟨c, r⟩) ⟨w', .busy op lists (k r)⟩
  | finish {w : Process φ ω} {lists : ObserverLists φ} {op : Op φ} {errCode : Int}
      {observers : List (Observer φ)} :
      Step front ⟨w, .busy op lists (.ret (errCode, observers))⟩ (.finish op errCode)
        ⟨w, .idle (lists.set observers op.mode)⟩
  | deliver {w : Process φ ω} {lists : ObserverLists φ} {o : Observer φ} {key : String}
      (htask : (o, key) ∈ w.tasks) (hcallback : o ∉ w.cleared) :
      Step front ⟨w, .idle lists⟩ (.deliver o key)
        ⟨{ w with tasks := w.tasks.erase (o, key) }, .idle lists⟩
  | drop {w : Process φ ω} {lists : ObserverLists φ} {o : Observer φ} {key : String}
      (htask : (o, key) ∈ w.tasks) (hcallback : o ∈ w.cleared) :
      Step front ⟨w, .idle lists⟩ .aside
        ⟨{ w with tasks := w.tasks.erase (o, key) }, .idle lists⟩

/-- A new proxy of a store that others may have used before. -/
def initial (others : List ω) (stubs : List (ObserverStub ω)) (nextStub : Nat)
    (destroyed : List ω) : Proxy φ ω :=
  let multiProcessObservers := stubs.map (fun stub => ⟨stub.id, .foreign stub.preferencesObserver⟩)
  { process :=
      { preferences := ⟨others.map .foreign, multiProcessObservers, multiProcessObservers, nextStub,
          destroyed.map .foreign⟩
        nextId := 0, shared := ∅, cleared := ∅, calls := 0, tasks := 0, standing := ∅ }
    js := .idle ⟨[], []⟩ }

end

end NativePreferences.KeyChange
