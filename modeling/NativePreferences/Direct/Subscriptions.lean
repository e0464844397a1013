import NativePreferences.Js.KeyChangeBoard

/-!
# NativePreferences.Direct.Subscriptions

**Subscriptions of Cangjie and of static ArkTS to `change` and `multiProcessChange`**:
`PreferencesImpl` of the `cj` front end and `PreferencesProxy` of the `taihe` one, any number of
them over one store. Their observers call back at once, on the thread that reports the change.

One of them takes a callback that is already subscribed for subscribed, the other registers it once
more; then it is called twice, and `off` takes one of the registrations back. Over any calls, with
any answers of the service, a change makes exactly the calls that are in the books
(`called_eq_ledger`): in order, none for who has gone, and none less because `UnRegisterObserver`
has taken out an entry that had lost its observer.
-/

namespace NativePreferences.Direct

open KeyChange (ChangeMode Observer Registered Foreign)

variable {κ φ ω : Type} [DecidableEq κ] [DecidableEq φ] [DecidableEq ω]

/-- The two front ends. -/
inductive Binding
  | cj
  | taihe
  deriving DecidableEq

/-- The code of `UnRegisteredAllObservers`: any failure, or the last one. -/
def Binding.failure (binding : Binding) (codes : List Int) : Int :=
  match binding with
  | .cj => if codes.any (· != eOk) then eError else eOk
  | .taihe => codes.foldl (fun errCode result => if result ≠ eOk then result else errCode) eOk

/-- The objects of the front ends over one store, with the lists that each has of its own. -/
structure Clients (κ φ ω : Type) where
  preferences : KeyObservers (Registered φ ω)
  observers : κ → ChangeMode → List (Observer φ)
  /-- The number of the next object. -/
  nextId : Nat

namespace Clients

/-- The list of one of them is replaced. -/
def setObservers (s : Clients κ φ ω) (who : κ) (mode : ChangeMode)
    (observers : List (Observer φ)) : Clients κ φ ω :=
  { s with
    observers := Function.update s.observers who
      (Function.update (s.observers who) mode observers) }

/-- An object is made and registered: `RegisterObserver` of `cj`. -/
def registerObserver (s : Clients κ φ ω) (who : κ) (mode : ChangeMode) (callback : φ)
    (answer : ServiceAnswer) : Int × Clients κ φ ω :=
  let observer : Observer φ := ⟨s.nextId, callback, mode⟩
  let r := s.preferences.registerObserver (.own observer) mode.registerMode answer
  if r.1 ≠ eOk then
    (r.1, { s with preferences := r.2.step (.destroy (.own observer)), nextId := s.nextId + 1 })
  else
    let s' : Clients κ φ ω := { s with preferences := r.2, nextId := s.nextId + 1 }
    (eOk, s'.setObservers who mode (s.observers who mode ++ [observer]))

/-- `RegisteredObserver` of `taihe`. -/
def registeredObserver (s : Clients κ φ ω) (who : κ) (mode : ChangeMode) (callback : φ)
    (answer : ServiceAnswer) : Int × Clients κ φ ω :=
  if KeyChange.hasRegisteredObserver (s.observers who mode) callback then (eOk, s)
  else s.registerObserver who mode callback answer

/-- The loop of `UnRegisterObserver` of `cj`, and of `UnRegisteredObserver` of `taihe`. -/
def unRegisterLoop (callback : φ) (mode : ChangeMode) (answer : ServiceAnswer) :
    List (Observer φ) → KeyObservers (Registered φ ω) →
      Int × List (Observer φ) × KeyObservers (Registered φ ω)
  | [], preferences => (eOk, [], preferences)
  | it :: rest, preferences =>
      if callback = it.callback then
        let r := preferences.unRegisterObserver (.own it) mode.registerMode answer
        if r.1 ≠ eOk then (r.1, it :: rest, r.2)
        else (eOk, rest, r.2.step (.destroy (.own it)))
      else
        let r := unRegisterLoop callback mode answer rest preferences
        (r.1, it :: r.2.1, r.2.2)

/-- `UnRegisterObserver` of `cj`, and `UnRegisteredObserver` of `taihe`. -/
def unRegisterObserver (s : Clients κ φ ω) (who : κ) (mode : ChangeMode) (callback : φ)
    (answer : ServiceAnswer) : Int × Clients κ φ ω :=
  let r := unRegisterLoop callback mode answer (s.observers who mode) s.preferences
  let s' : Clients κ φ ω := { s with preferences := r.2.2 }
  (r.1, s'.setObservers who mode r.2.1)

/-- The loop of `UnRegisteredAllObservers`, with what `UnRegisterObserver` returns. -/
def unRegisterAllLoop (mode : ChangeMode) (answers : Observer φ → ServiceAnswer) :
    List (Observer φ) → KeyObservers (Registered φ ω) → List Int × KeyObservers (Registered φ ω)
  | [], preferences => ([], preferences)
  | observer :: rest, preferences =>
      let r := preferences.unRegisterObserver (.own observer) mode.registerMode (answers observer)
      let r' := unRegisterAllLoop mode answers rest r.2
      (r.1 :: r'.1, r'.2)

/-- The list goes away, and the objects with it. -/
def dropAll (s : Clients κ φ ω) (who : κ) (mode : ChangeMode) : Clients κ φ ω :=
  let gone := (s.observers who mode).map (fun observer => .destroy (.own observer))
  let s' : Clients κ φ ω := { s with preferences := s.preferences.run gone }
  s'.setObservers who mode []

/-- `UnRegisteredAllObservers`. -/
def unRegisteredAllObservers (s : Clients κ φ ω) (binding : Binding) (who : κ) (mode : ChangeMode)
    (answers : Observer φ → ServiceAnswer) : Int × Clients κ φ ω :=
  let r := unRegisterAllLoop mode answers (s.observers who mode) s.preferences
  let s' : Clients κ φ ω := { s with preferences := r.2 }
  (binding.failure r.1, s'.dropAll who mode)

/-- One of them goes away. The proxy of `taihe` unregisters first. -/
def release (s : Clients κ φ ω) (binding : Binding) (who : κ)
    (answers : Observer φ → ServiceAnswer) : Clients κ φ ω :=
  match binding with
  | .cj => (s.dropAll who .change).dropAll who .multiProcessChange
  | .taihe =>
      let s := (s.unRegisteredAllObservers .taihe who .change answers).2
      (s.unRegisteredAllObservers .taihe who .multiProcessChange answers).2

end Clients

/-- What happens around a store. -/
inductive ClientCall (κ φ ω : Type)
  | on (who : κ) (mode : ChangeMode) (callback : φ) (answer : ServiceAnswer)
  | off (who : κ) (mode : ChangeMode) (callback : φ) (answer : ServiceAnswer)
  | offAll (who : κ) (mode : ChangeMode) (answers : Observer φ → ServiceAnswer)
  | release (who : κ) (answers : Observer φ → ServiceAnswer)
  /-- Anybody else registers, unregisters or goes away. -/
  | elsewhere (event : ObserverEvent (Registered φ ω)) (h : Foreign event)

/-- The call is carried out. -/
def perform (binding : κ → Binding) (s : Clients κ φ ω) :
    ClientCall κ φ ω → Int × Clients κ φ ω
  | .on who mode callback answer =>
      match binding who with
      | .cj => s.registerObserver who mode callback answer
      | .taihe => s.registeredObserver who mode callback answer
  | .off who mode callback answer => s.unRegisterObserver who mode callback answer
  | .offAll who mode answers => s.unRegisteredAllObservers (binding who) who mode answers
  | .release who answers => (eOk, s.release (binding who) who answers)
  | .elsewhere event _ => (eOk, { s with preferences := s.preferences.step event })

/-- The object of the front ends, if it is one. -/
def ownObserver : Registered φ ω → Option (Observer φ)
  | .own o => some o
  | .foreign _ => none

/-- The callbacks that a change calls. -/
def Clients.called (s : Clients κ φ ω) (mode : ChangeMode) : List φ :=
  ((s.preferences.called mode.registerMode).filterMap ownObserver).map Observer.callback

/-! ### The books -/

/-- Who has subscribed which callback. -/
abbrev Ledger (κ φ : Type) : Type := List (κ × ChangeMode × φ)

/-- A call that has returned with this code is entered. -/
def Ledger.settle (binding : κ → Binding) (ledger : Ledger κ φ) (errCode : Int) :
    ClientCall κ φ ω → Ledger κ φ
  | .on who mode callback _ =>
      if errCode ≠ eOk ∨ binding who = .taihe ∧ (who, mode, callback) ∈ ledger then ledger
      else ledger ++ [(who, mode, callback)]
  | .off who mode callback _ =>
      if errCode = eOk then ledger.erase (who, mode, callback) else ledger
  | .offAll who mode _ => ledger.filter (fun entry => ¬ (entry.1 = who ∧ entry.2.1 = mode))
  | .release who _ => ledger.filter (fun entry => ¬ entry.1 = who)
  | .elsewhere _ _ => ledger

/-- The front ends and the books, after one call more. -/
def account (binding : κ → Binding) (books : Clients κ φ ω × Ledger κ φ)
    (call : ClientCall κ φ ω) : Clients κ φ ω × Ledger κ φ :=
  let r := perform binding books.1 call
  (r.2, books.2.settle binding r.1 call)

/-- A store that others may use already. -/
def initial (others : List ω) (stubs : List (ObserverStub ω)) (nextStub : Nat)
    (destroyed : List ω) : Clients κ φ ω :=
  let multiProcessObservers := stubs.map (fun stub => ⟨stub.id, .foreign stub.preferencesObserver⟩)
  { preferences := ⟨others.map .foreign, multiProcessObservers, multiProcessObservers, nextStub,
      destroyed.map .foreign⟩
    observers := fun _ _ => []
    nextId := 0 }

/-! ### Whose object it is -/

/-- The objects that exist, in the order in which they were made. -/
structure Booked (s : Clients κ φ ω) (objs : List (κ × Observer φ)) : Prop where
  inStep : s.preferences.InStep
  nodup : (objs.map Prod.snd).Nodup
  made : ∀ p ∈ objs, p.2.id < s.nextId
  gone : ∀ o, Registered.own o ∈ s.preferences.destroyed → o.id < s.nextId
  lists : ∀ who mode, s.observers who mode =
    (objs.filter (fun p => p.1 = who ∧ p.2.mode = mode)).map Prod.snd
  own : ∀ mode : ChangeMode, (s.preferences.called mode.registerMode).filterMap ownObserver =
    (objs.filter (fun p => p.2.mode = mode)).map Prod.snd

/-- What the books say about an object. -/
def entry (p : κ × Observer φ) : κ × ChangeMode × φ := (p.1, p.2.mode, p.2.callback)

section

variable {s s' : Clients κ φ ω} {objs : List (κ × Observer φ)} {o : Observer φ}
variable {who : κ} {mode : ChangeMode} {callback : φ} {answer : ServiceAnswer}

theorem Booked.mem_observers (h : Booked s objs) {who : κ} {mode : ChangeMode} :
    o ∈ s.observers who mode ↔ (who, o) ∈ objs ∧ o.mode = mode := by
  rw [h.lists]
  simp

/-- An object is of one of them. -/
theorem Booked.owner (h : Booked s objs) {p q : κ × Observer φ} (hp : p ∈ objs) (hq : q ∈ objs)
    (heq : p.2 = q.2) : p = q :=
  List.inj_on_of_nodup_map h.nodup hp hq heq

/-- Some of the objects go away. -/
theorem Booked.filter (h : Booked s objs) (keep : Observer φ → Bool)
    (hstep : s'.preferences.InStep) (hnext : s'.nextId = s.nextId)
    (hgone : ∀ o, Registered.own o ∈ s'.preferences.destroyed →
      Registered.own o ∈ s.preferences.destroyed ∨ ∃ p ∈ objs, p.2 = o)
    (hlists : ∀ who mode, s'.observers who mode = (s.observers who mode).filter keep)
    (hown : ∀ mode : ChangeMode,
      (s'.preferences.called mode.registerMode).filterMap ownObserver =
        ((s.preferences.called mode.registerMode).filterMap ownObserver).filter keep) :
    Booked s' (objs.filter (fun p => keep p.2)) where
  inStep := hstep
  nodup := h.nodup.sublist ((List.filter_sublist).map Prod.snd)
  made := by
    intro p hp
    rw [hnext]
    exact h.made p (List.mem_of_mem_filter hp)
  gone := by
    intro o ho
    rw [hnext]
    rcases hgone o ho with hold | ⟨p, hp, rfl⟩
    · exact h.gone o hold
    · exact h.made p hp
  lists := by
    intro who mode
    rw [hlists, h.lists, List.filter_map, List.filter_filter, List.filter_filter]
    refine congrArg (List.map Prod.snd) (List.filter_congr (fun p _ => ?_))
    simp [Bool.and_comm]
  own := by
    intro mode
    rw [hown, h.own, List.filter_map, List.filter_filter, List.filter_filter]
    refine congrArg (List.map Prod.snd) (List.filter_congr (fun p _ => ?_))
    simp [Bool.and_comm]

omit [DecidableEq φ] [DecidableEq ω] in
theorem observers_setObservers (s : Clients κ φ ω) (who who' : κ) (mode mode' : ChangeMode)
    (l : List (Observer φ)) :
    (s.setObservers who mode l).observers who' mode' =
      if who' = who ∧ mode' = mode then l else s.observers who' mode' := by
  show Function.update s.observers who _ who' mode' = _
  by_cases hwho : who' = who
  · subst hwho
    simp [Function.update_apply]
  · simp [hwho]

omit [DecidableEq φ] [DecidableEq ω] in
theorem setObservers_self (s : Clients κ φ ω) (who : κ) (mode : ChangeMode) :
    s.setObservers who mode (s.observers who mode) = s := by
  simp [Clients.setObservers]

/-- Taking objects out of the list that they are in takes them out of all lists. -/
theorem Booked.setObservers_filter (h : Booked s objs) {keep : Observer φ → Bool}
    {l : List (Observer φ)} (hl : l = (s.observers who mode).filter keep)
    (hkeep : ∀ o, keep o = false → o ∈ s.observers who mode) (who' : κ) (mode' : ChangeMode) :
    (s.setObservers who mode l).observers who' mode' = (s.observers who' mode').filter keep := by
  rw [observers_setObservers]
  split
  · next hslot => rw [hl, hslot.1, hslot.2]
  · next hslot =>
    rw [List.filter_eq_self.mpr]
    intro o ho
    by_contra hgone
    rw [h.mem_observers] at ho
    have hmem := h.mem_observers.mp (hkeep o (by simpa using hgone))
    exact hslot ⟨congrArg Prod.fst (h.owner ho.1 hmem.1 rfl), ho.2.symm.trans hmem.2⟩

omit [DecidableEq φ] [DecidableEq ω] in
/-- The callbacks of a part of those who are called. -/
theorem filterMap_filter_own {p : Registered φ ω → Bool} {keep : Observer φ → Bool}
    (h : ∀ o, p (.own o) = keep o) (l : List (Registered φ ω)) :
    (l.filter p).filterMap ownObserver = (l.filterMap ownObserver).filter keep := by
  rw [List.filterMap_filter, List.filter_filterMap]
  refine congrArg (List.filterMap · l) (funext fun x => ?_)
  cases x with
  | own o => by_cases hp : p (.own o) = true <;> simp [ownObserver, Option.filter, ← h o, hp]
  | foreign x => by_cases hp : p (.foreign x) = true <;> simp [ownObserver, hp]

/-! ### Unregistering them all -/

/-- Only these objects can have lost their entries. -/
structure Quiet (gone : List (Observer φ)) (k k' : KeyObservers (Registered φ ω)) : Prop where
  inStep : k'.InStep
  destroyed : k'.destroyed = k.destroyed
  called : ∀ (p : Registered φ ω → Bool) (mode : RegisterMode),
    (∀ o ∈ gone, p (.own o) = false) → (k'.called mode).filter p = (k.called mode).filter p

theorem Quiet.refl {k : KeyObservers (Registered φ ω)} (h : k.InStep)
    (gone : List (Observer φ)) : Quiet gone k k :=
  ⟨h, rfl, fun _ _ _ => rfl⟩

theorem quiet_unRegisterAllLoop (mode : ChangeMode) (answers : Observer φ → ServiceAnswer)
    (l : List (Observer φ)) {k : KeyObservers (Registered φ ω)} (h : k.InStep) :
    Quiet l k (Clients.unRegisterAllLoop mode answers l k).2 := by
  induction l generalizing k with
  | nil => exact Quiet.refl h []
  | cons o l ih =>
      have h' : (k.unRegisterObserver (.own o) mode.registerMode (answers o)).2.InStep :=
        h.unRegister
      have hrest := ih h'
      refine ⟨hrest.inStep, hrest.destroyed.trans KeyObservers.destroyed_unRegister, ?_⟩
      intro p mode' hp
      rw [List.forall_mem_cons] at hp
      exact (hrest.called p mode' hp.2).trans (h.called_unRegister_filter hp.1 mode')

/-- The objects of a list are gone, whatever has become of their entries. -/
theorem Booked.dropAll (h : Booked s objs) (who : κ) (mode : ChangeMode)
    {k : KeyObservers (Registered φ ω)}
    (hquiet : Quiet (s.observers who mode) s.preferences k) :
    Booked (({ s with preferences := k } : Clients κ φ ω).dropAll who mode)
      (objs.filter (fun p => ¬ (p.1 = who ∧ p.2.mode = mode))) := by
  have hgone : objs.filter (fun p => ¬ (p.1 = who ∧ p.2.mode = mode)) =
      objs.filter (fun p => decide (p.2 ∉ s.observers who mode)) := by
    refine List.filter_congr (fun p hp => ?_)
    simp only [h.mem_observers, decide_eq_decide]
    refine not_congr ⟨?_, ?_⟩
    · intro hslot
      exact ⟨hslot.1 ▸ hp, hslot.2⟩
    · intro hmem
      exact ⟨(congrArg Prod.fst (h.owner hp hmem.1 rfl)), hmem.2⟩
  rw [hgone]
  have hrun := KeyObservers.destroyed_destroys k ((s.observers who mode).map Registered.own)
  rw [List.map_map] at hrun
  refine h.filter (fun o => decide (o ∉ s.observers who mode)) ?_ rfl ?_ ?_ ?_
  · exact hquiet.inStep.run _
  · intro o ho
    replace ho := hrun ▸ (show Registered.own o ∈ (k.run _).destroyed from ho)
    rw [hquiet.destroyed] at ho
    simp only [List.mem_append, List.mem_reverse, List.mem_map] at ho
    rcases ho with ⟨o', ho', heq⟩ | hold
    · injection heq with heq
      subst heq
      exact .inr ⟨(who, o'), (h.mem_observers.mp ho').1, rfl⟩
    · exact .inl hold
  · exact h.setObservers_filter (by simp) (fun o ho => by simpa using ho)
  · intro mode'
    have hcalled := hquiet.inStep.called_destroys
      ((s.observers who mode).map Registered.own) mode'.registerMode
    rw [List.map_map] at hcalled
    refine (congrArg (List.filterMap ownObserver) hcalled).trans ?_
    rw [hquiet.called _ _ (by simp)]
    exact filterMap_filter_own (by simp) _

/-! ### Unregistering one -/

/-- The search ends at the first object for the callback, or finds none. -/
theorem unRegisterLoop_cases (callback : φ) (mode : ChangeMode) (answer : ServiceAnswer)
    (l : List (Observer φ)) (k : KeyObservers (Registered φ ω)) :
    ((∀ o ∈ l, o.callback ≠ callback) ∧
        Clients.unRegisterLoop callback mode answer l k = (eOk, l, k)) ∨
      ∃ l₁ it l₂, l = l₁ ++ it :: l₂ ∧ (∀ o ∈ l₁, o.callback ≠ callback) ∧
        it.callback = callback ∧
        Clients.unRegisterLoop callback mode answer l k =
          let r := k.unRegisterObserver (.own it) mode.registerMode answer
          if r.1 ≠ eOk then (r.1, l, r.2)
          else (eOk, l₁ ++ l₂, r.2.step (.destroy (.own it))) := by
  induction l with
  | nil => exact .inl ⟨by simp, rfl⟩
  | cons o l ih =>
      by_cases heq : callback = o.callback
      · refine .inr ⟨[], o, l, rfl, by simp, heq.symm, ?_⟩
        simp [Clients.unRegisterLoop, heq]
      · rcases ih with ⟨hnone, hloop⟩ | ⟨l₁, it, l₂, rfl, hnone, hit, hloop⟩
        · refine .inl ⟨List.forall_mem_cons.mpr ⟨Ne.symm heq, hnone⟩, ?_⟩
          simp [Clients.unRegisterLoop, heq, hloop]
        · refine .inr ⟨o :: l₁, it, l₂, rfl,
            List.forall_mem_cons.mpr ⟨Ne.symm heq, hnone⟩, hit, ?_⟩
          rw [Clients.unRegisterLoop, if_neg heq, hloop]
          dsimp only
          split_ifs <;> rfl

omit [DecidableEq κ] in
/-- The first of the objects of a list is the first entry of the books. -/
theorem eraseP_eq_filter {p : κ × Observer φ → Bool} {it : Observer φ} {l₁ l₂ : List (Observer φ)}
    (hnodup : (objs.map Prod.snd).Nodup)
    (hlist : (objs.filter p).map Prod.snd = l₁ ++ it :: l₂)
    (hfirst : ∀ o ∈ l₁, o.callback ≠ it.callback) :
    objs.eraseP (fun q => p q && decide (q.2.callback = it.callback)) =
      objs.filter (fun q => decide (q.2 ≠ it)) := by
  induction objs generalizing l₁ with
  | nil => rfl
  | cons q objs ih =>
      rw [List.map_cons, List.nodup_cons] at hnodup
      have hrest : ∀ r ∈ objs, r.2 ≠ q.2 := fun r hr heq =>
        hnodup.1 (heq ▸ List.mem_map_of_mem hr)
      by_cases hp : p q = true
      · rw [List.filter_cons_of_pos hp, List.map_cons] at hlist
        cases l₁ with
        | nil =>
            rw [List.nil_append, List.cons.injEq] at hlist
            obtain ⟨rfl, -⟩ := hlist
            rw [List.eraseP_cons_of_pos (by simp [hp]), List.filter_cons_of_neg (by simp),
              List.filter_eq_self.mpr (by simpa using hrest)]
        | cons o l₁ =>
            rw [List.cons_append, List.cons.injEq] at hlist
            obtain ⟨rfl, hlist⟩ := hlist
            rw [List.forall_mem_cons] at hfirst
            have hmem : it ∈ (objs.filter p).map Prod.snd := by simp [hlist]
            obtain ⟨r, hr, rfl⟩ := List.mem_map.mp hmem
            have hne : q.2 ≠ r.2 := (hrest r (List.mem_of_mem_filter hr)).symm
            rw [List.eraseP_cons_of_neg (by simp [hfirst.1]),
              List.filter_cons_of_pos (by simpa using hne), ih hnodup.2 hlist hfirst.2]
      · rw [List.filter_cons_of_neg hp] at hlist
        have hmem : it ∈ (objs.filter p).map Prod.snd := by simp [hlist]
        obtain ⟨r, hr, rfl⟩ := List.mem_map.mp hmem
        have hne : q.2 ≠ r.2 := (hrest r (List.mem_of_mem_filter hr)).symm
        rw [List.eraseP_cons_of_neg (by simp [hp]),
          List.filter_cons_of_pos (by simpa using hne), ih hnodup.2 hlist hfirst]

/-- A callback of one of them is in its list if it is in the books. -/
theorem Booked.mem_entries (h : Booked s objs) :
    (who, mode, callback) ∈ objs.map entry ↔
      ∃ o ∈ s.observers who mode, o.callback = callback := by
  simp only [h.mem_observers, List.mem_map, entry, Prod.exists, Prod.mk.injEq]
  constructor
  · intro hentry
    obtain ⟨who', o, hmem, rfl, rfl, rfl⟩ := hentry
    exact ⟨o, ⟨hmem, rfl⟩, rfl⟩
  · intro hobserver
    obtain ⟨o, ⟨hmem, rfl⟩, rfl⟩ := hobserver
    exact ⟨who, o, hmem, rfl, rfl, rfl⟩

/-- The entry of the first object for a callback is the first one for it in the books. -/
theorem Booked.erase_entry (h : Booked s objs) {l₁ l₂ : List (Observer φ)}
    (hlist : s.observers who mode = l₁ ++ o :: l₂)
    (hfirst : ∀ x ∈ l₁, x.callback ≠ o.callback) :
    (objs.map entry).erase (who, mode, o.callback) =
      (objs.filter (fun p => decide (p.2 ≠ o))).map entry := by
  rw [h.lists] at hlist
  rw [← eraseP_eq_filter h.nodup hlist hfirst, List.erase_eq_eraseP, List.eraseP_map]
  refine congrArg (fun p => (objs.eraseP p).map entry) (funext fun p => ?_)
  rw [Bool.eq_iff_iff]
  simp only [Bool.decide_and, Bool.and_eq_true, decide_eq_true_eq, Function.comp_apply, entry,
    beq_iff_eq, Prod.mk.injEq, and_assoc]
  rw [eq_comm, @eq_comm _ mode, @eq_comm _ o.callback]

/-- `UnRegisterObserver` takes out an object and its entry in the books, or nothing. -/
theorem Booked.unRegisterObserver (h : Booked s objs) (who : κ) (mode : ChangeMode) (callback : φ)
    (answer : ServiceAnswer) :
    let r := s.unRegisterObserver who mode callback answer
    ∃ objs', Booked r.2 objs' ∧ objs'.map entry =
      if r.1 = eOk then (objs.map entry).erase (who, mode, callback) else objs.map entry := by
  dsimp only
  unfold Clients.unRegisterObserver
  rcases unRegisterLoop_cases callback mode answer (s.observers who mode) s.preferences with
    ⟨hnone, hloop⟩ | ⟨l₁, it, l₂, hlist, hfirst, rfl, hloop⟩
  · rw [hloop]
    dsimp only
    have hout : (who, mode, callback) ∉ objs.map entry := by
      rw [h.mem_entries]
      intro hin
      obtain ⟨o, ho, heq⟩ := hin
      exact hnone o ho heq
    rw [if_pos rfl, List.erase_of_not_mem hout, setObservers_self]
    exact ⟨objs, h, rfl⟩
  · rw [hloop]
    dsimp only
    by_cases hok : (s.preferences.unRegisterObserver (.own it) mode.registerMode answer).1 = eOk
    · rw [if_neg (not_not.mpr hok)]
      dsimp only
      rw [if_pos rfl, h.erase_entry hlist hfirst]
      have hmem : it ∈ s.observers who mode := by simp [hlist]
      refine ⟨_, h.filter (fun o => decide (o ≠ it)) ?_ rfl ?_ ?_ ?_, rfl⟩
      · exact KeyObservers.InStep.unRegister h.inStep
      · intro o ho
        replace ho : Registered.own o ∈ Registered.own it ::
            (s.preferences.unRegisterObserver (.own it) mode.registerMode answer).2.destroyed := ho
        rw [KeyObservers.destroyed_unRegister] at ho
        rcases List.mem_cons.mp ho with heq | hold
        · injection heq with heq
          exact .inr ⟨(who, it), (h.mem_observers.mp hmem).1, heq.symm⟩
        · exact .inl hold
      · refine h.setObservers_filter ?_ (fun o ho => by simpa [show o = it by simpa using ho])
        have hnodup : (s.observers who mode).Nodup := by
          rw [h.lists]
          exact h.nodup.sublist ((List.filter_sublist).map Prod.snd)
        rw [hlist, List.nodup_middle, List.nodup_cons] at hnodup
        rw [hlist, List.filter_append, List.filter_cons_of_neg (by simp), ← List.filter_append,
          List.filter_eq_self.mpr]
        intro o ho
        have hne : o ≠ it := fun heq => hnodup.1 (heq ▸ ho)
        simpa using hne
      · intro mode'
        have hstep : (s.preferences.unRegisterObserver (.own it) mode.registerMode
            answer).2.InStep := h.inStep.unRegister
        refine (congrArg (List.filterMap ownObserver)
          ((hstep.called_destroy (.own it) mode'.registerMode).trans
            (h.inStep.called_unRegister_filter (by simp) _))).trans ?_
        exact filterMap_filter_own (by simp) _
    · rw [if_pos hok]
      dsimp only
      rw [if_neg hok, KeyObservers.unRegister_of_ne hok, setObservers_self]
      exact ⟨objs, h, rfl⟩

/-! ### Registering -/

/-- Nobody has the object that is made next. -/
theorem Booked.fresh (h : Booked s objs) (hid : o.id = s.nextId) : ∀ p ∈ objs, p.2 ≠ o := by
  intro p hp heq
  have hlt := h.made p hp
  rw [heq, hid] at hlt
  exact absurd hlt (Nat.lt_irrefl _)

/-- An object is made, and nothing comes of it. -/
theorem Booked.wasted (h : Booked s objs) {k : KeyObservers (Registered φ ω)}
    (hstep : k.InStep) (hgone : ∀ o, Registered.own o ∈ k.destroyed → o.id < s.nextId + 1)
    (hown : ∀ mode : ChangeMode, (k.called mode.registerMode).filterMap ownObserver =
      (s.preferences.called mode.registerMode).filterMap ownObserver) :
    Booked { s with preferences := k, nextId := s.nextId + 1 } objs where
  inStep := hstep
  nodup := h.nodup
  made := fun p hp => Nat.lt_succ_of_lt (h.made p hp)
  gone := hgone
  lists := h.lists
  own := fun mode => (hown mode).trans (h.own mode)

/-- An object is made and put at the end of a list. -/
theorem Booked.snoc (h : Booked s objs) (who : κ) {k : KeyObservers (Registered φ ω)}
    (hid : o.id = s.nextId) (hstep : k.InStep)
    (hgone : ∀ o, Registered.own o ∈ k.destroyed → o.id < s.nextId + 1)
    (hown : ∀ mode : ChangeMode, (k.called mode.registerMode).filterMap ownObserver =
      (s.preferences.called mode.registerMode).filterMap ownObserver ++
        if o.mode = mode then [o] else []) :
    Booked (({ s with preferences := k, nextId := s.nextId + 1 } : Clients κ φ ω).setObservers
        who o.mode (s.observers who o.mode ++ [o])) (objs ++ [(who, o)]) where
  inStep := hstep
  nodup := by
    rw [List.map_append, List.map_singleton, List.nodup_append]
    refine ⟨h.nodup, List.nodup_singleton _, ?_⟩
    intro o' ho' x hx
    obtain ⟨p, hp, rfl⟩ := List.mem_map.mp ho'
    rw [List.mem_singleton.mp hx]
    exact h.fresh hid p hp
  made := by
    intro p hp
    rcases List.mem_append.mp hp with hp | hp
    · exact Nat.lt_succ_of_lt (h.made p hp)
    · rw [List.mem_singleton.mp hp]
      exact Nat.lt_succ_of_le hid.le
  gone := hgone
  lists := by
    intro who' mode'
    rw [observers_setObservers, List.filter_append, List.map_append, ← h.lists]
    by_cases hslot : who' = who ∧ mode' = o.mode
    · obtain ⟨rfl, rfl⟩ := hslot
      simp
    · rw [if_neg hslot]
      have hnot : ¬ (who = who' ∧ o.mode = mode') := fun heq => hslot ⟨heq.1.symm, heq.2.symm⟩
      simp [hnot]
  own := by
    intro mode'
    refine (hown mode').trans ?_
    rw [h.own, List.filter_append, List.map_append]
    by_cases hmode : o.mode = mode'
    · simp [hmode]
    · simp [hmode]

/-- A registration adds an object at the end, or none. -/
theorem Booked.registerObserver (h : Booked s objs) (who : κ) (mode : ChangeMode) (callback : φ)
    (answer : ServiceAnswer) :
    let r := s.registerObserver who mode callback answer
    ∃ objs', Booked r.2 objs' ∧ objs'.map entry =
      if r.1 = eOk then objs.map entry ++ [(who, mode, callback)] else objs.map entry := by
  dsimp only
  unfold Clients.registerObserver
  dsimp only
  generalize ho : (⟨s.nextId, callback, mode⟩ : Observer φ) = o
  have hid : o.id = s.nextId := ho ▸ rfl
  have hlive : Registered.own o ∉ s.preferences.destroyed := by
    intro hgone
    exact absurd (h.gone o hgone) (by omega)
  have hstep : (s.preferences.registerObserver (.own o) mode.registerMode answer).2.InStep :=
    h.inStep.register
  have hcalled : ∀ mode' : ChangeMode,
      (s.preferences.registerObserver (.own o) mode.registerMode answer).2.called
        mode'.registerMode = _ :=
    fun mode' => h.inStep.called_register mode'.registerMode
  have hgone : ∀ o', Registered.own o' ∈ (s.preferences.registerObserver (.own o)
      mode.registerMode answer).2.destroyed → o'.id < s.nextId + 1 := by
    intro o' ho'
    rw [KeyObservers.destroyed_register] at ho'
    exact Nat.lt_succ_of_lt (h.gone o' ho')
  by_cases hok : (s.preferences.registerObserver (.own o) mode.registerMode answer).1 = eOk
  · rw [if_neg (not_not.mpr hok)]
    dsimp only
    rw [if_pos rfl]
    have haccepts : KeyObservers.accepts answer mode.registerMode = true :=
      KeyObservers.accepts_of_ok (by cases mode <;> simp [ChangeMode.registerMode]) hok
    subst ho
    refine ⟨_, h.snoc who hid hstep hgone ?_, by simp [entry]⟩
    intro mode'
    rw [hcalled, List.filterMap_append]
    by_cases hmode : mode = mode'
    · subst hmode
      simp [haccepts, hlive, ownObserver]
    · have hmode' : ¬ mode'.registerMode = mode.registerMode :=
        fun heq => hmode (ChangeMode.registerMode_inj heq).symm
      simp [hmode, hmode']
  · rw [if_pos hok]
    dsimp only
    rw [if_neg hok]
    refine ⟨objs, h.wasted hstep ?_ ?_, rfl⟩
    · intro o' ho'
      rcases List.mem_cons.mp ho' with heq | hold
      · injection heq with heq
        rw [heq]
        omega
      · exact hgone o' hold
    · intro mode'
      have hnone := KeyObservers.not_accepts_of_ne hok
      rw [hstep.called_destroy, hcalled, if_neg (fun hentry => hnone hentry.1.2), List.append_nil,
        @filterMap_filter_own φ ω _ (fun o' => decide (o' ≠ o)) (by simp), h.own,
        List.filter_eq_self.mpr]
      intro o' ho'
      obtain ⟨p, hp, rfl⟩ := List.mem_map.mp ho'
      simpa using h.fresh hid p (List.mem_of_mem_filter hp)

/-! ### The others -/

omit [DecidableEq φ] [DecidableEq ω] in
theorem filterMap_filter_foreign {p : Registered φ ω → Bool} (h : ∀ o, p (.own o) = true)
    (l : List (Registered φ ω)) : (l.filter p).filterMap ownObserver = l.filterMap ownObserver := by
  rw [@filterMap_filter_own φ ω p (fun _ => true) h, List.filter_true]

/-- What others do to the store is no matter of these objects. -/
theorem Booked.elsewhere (h : Booked s objs) {event : ObserverEvent (Registered φ ω)}
    (hevent : Foreign event) :
    Booked { s with preferences := s.preferences.step event } objs := by
  have hsame : (s.preferences.step event).InStep ∧
      (∀ o, Registered.own o ∈ (s.preferences.step event).destroyed →
        Registered.own o ∈ s.preferences.destroyed) ∧
      ∀ mode, ((s.preferences.step event).called mode).filterMap ownObserver =
        (s.preferences.called mode).filterMap ownObserver := by
    cases hevent with
    | @register x mode answer =>
        have hstep : (s.preferences.registerObserver (.foreign x) mode answer).2.InStep :=
          h.inStep.register
        refine ⟨hstep, ?_, fun mode' => ?_⟩
        · intro o ho
          replace ho : Registered.own o ∈
            (s.preferences.registerObserver (.foreign x) mode answer).2.destroyed := ho
          rwa [KeyObservers.destroyed_register] at ho
        · refine (congrArg (List.filterMap ownObserver) (h.inStep.called_register mode')).trans ?_
          rw [List.filterMap_append]
          split <;> simp [ownObserver]
    | @unRegister x mode answer =>
        have hstep : (s.preferences.unRegisterObserver (.foreign x) mode answer).2.InStep :=
          h.inStep.unRegister
        refine ⟨hstep, ?_, fun mode' => ?_⟩
        · intro o ho
          replace ho : Registered.own o ∈
            (s.preferences.unRegisterObserver (.foreign x) mode answer).2.destroyed := ho
          rwa [KeyObservers.destroyed_unRegister] at ho
        · have hfilter : ((s.preferences.unRegisterObserver (.foreign x) mode answer).2.called
                mode').filter (fun y => decide (y ≠ .foreign x)) = _ :=
            h.inStep.called_unRegister_filter (by simp) mode'
          have hall := fun l => @filterMap_filter_foreign φ ω
            (fun y => decide (y ≠ .foreign x)) (by simp) l
          exact (hall _).symm.trans ((congrArg _ hfilter).trans (hall _))
    | @destroy x =>
        refine ⟨h.inStep, ?_, fun mode => ?_⟩
        · intro o ho
          rcases List.mem_cons.mp ho with heq | hold
          · cases heq
          · exact hold
        · rw [h.inStep.called_destroy]
          exact filterMap_filter_foreign (by simp) _
  exact ⟨hsame.1, h.nodup, h.made, fun o ho => h.gone o (hsame.2.1 o ho), h.lists,
    fun mode => (hsame.2.2 mode.registerMode).trans (h.own mode)⟩

/-! ### Calls -/

theorem Booked.unRegisteredAllObservers (h : Booked s objs) (binding : Binding) (who : κ)
    (mode : ChangeMode) (answers : Observer φ → ServiceAnswer) :
    Booked (s.unRegisteredAllObservers binding who mode answers).2
      (objs.filter (fun p => ¬ (p.1 = who ∧ p.2.mode = mode))) :=
  h.dropAll who mode (quiet_unRegisterAllLoop mode answers _ h.inStep)

theorem Booked.release (h : Booked s objs) (binding : Binding) (who : κ)
    (answers : Observer φ → ServiceAnswer) :
    Booked (s.release binding who answers) (objs.filter (fun p => ¬ p.1 = who)) := by
  have hboth : ∀ p : κ × Observer φ,
      (decide (¬ (p.1 = who ∧ p.2.mode = .multiProcessChange)) &&
        decide (¬ (p.1 = who ∧ p.2.mode = .change))) = decide (¬ p.1 = who) := by
    intro p
    cases hmode : p.2.mode with
    | change => simp
    | multiProcessChange => simp
  have hfilter := objs.filter_congr (fun p _ => hboth p)
  rw [← List.filter_filter] at hfilter
  rw [← hfilter]
  cases binding with
  | cj =>
      have hchange := h.dropAll who .change (Quiet.refl h.inStep _)
      exact hchange.dropAll who .multiProcessChange (Quiet.refl hchange.inStep _)
  | taihe =>
      exact (h.unRegisteredAllObservers .taihe who .change answers).unRegisteredAllObservers
        .taihe who .multiProcessChange answers

/-- One call more, and the books are right. -/
theorem Booked.account (h : Booked s objs) (binding : κ → Binding) (call : ClientCall κ φ ω) :
    ∃ objs', Booked (account binding (s, objs.map entry) call).1 objs' ∧
      (account binding (s, objs.map entry) call).2 = objs'.map entry := by
  have hregister : ∀ who mode callback answer, ∃ objs',
      Booked (s.registerObserver who mode callback answer).2 objs' ∧
      (if (s.registerObserver who mode callback answer).1 ≠ eOk then objs.map entry
        else objs.map entry ++ [(who, mode, callback)]) = objs'.map entry := by
    intro who mode callback answer
    obtain ⟨objs', h', hentries⟩ := h.registerObserver who mode callback answer
    refine ⟨objs', h', ?_⟩
    rw [hentries, ite_not]
  cases call with
  | on who mode callback answer =>
      by_cases hbinding : binding who = .taihe
      · have hperform : perform binding s (.on who mode callback answer) =
            s.registeredObserver who mode callback answer := by simp [perform, hbinding]
        have hhas : KeyChange.hasRegisteredObserver (s.observers who mode) callback = true ↔
            (who, mode, callback) ∈ objs.map entry := by
          rw [h.mem_entries]
          simp [KeyChange.hasRegisteredObserver, @eq_comm _ callback]
        simp only [Direct.account, hperform, Ledger.settle, Clients.registeredObserver]
        by_cases hin : (who, mode, callback) ∈ objs.map entry
        · rw [if_pos (hhas.mpr hin), if_pos (.inr ⟨hbinding, hin⟩)]
          exact ⟨objs, h, rfl⟩
        · rw [if_neg (fun hyes => hin (hhas.mp hyes))]
          simpa only [hin, and_false, or_false] using hregister who mode callback answer
      · have hcj : binding who = .cj := by
          cases hcase : binding who with
          | cj => rfl
          | taihe => exact absurd hcase hbinding
        have hperform : perform binding s (.on who mode callback answer) =
            s.registerObserver who mode callback answer := by simp [perform, hcj]
        simp only [Direct.account, hperform, Ledger.settle]
        simpa only [hbinding, false_and, or_false] using hregister who mode callback answer
  | off who mode callback answer =>
      obtain ⟨objs', h', hentries⟩ := h.unRegisterObserver who mode callback answer
      exact ⟨objs', h', hentries.symm⟩
  | offAll who mode answers =>
      refine ⟨_, h.unRegisteredAllObservers (binding who) who mode answers, ?_⟩
      exact List.filter_map
  | release who answers =>
      refine ⟨_, h.release (binding who) who answers, ?_⟩
      exact List.filter_map
  | elsewhere event hevent => exact ⟨objs, h.elsewhere hevent, rfl⟩

/-- Nobody has subscribed. -/
theorem booked_initial (others : List ω) (stubs : List (ObserverStub ω)) (nextStub : Nat)
    (destroyed : List ω) : Booked (initial others stubs nextStub destroyed : Clients κ φ ω) [] := by
  have hstep : (initial others stubs nextStub destroyed : Clients κ φ ω).preferences.InStep := rfl
  have hforeign : ∀ mode, ∀ x ∈ (initial others stubs nextStub destroyed :
      Clients κ φ ω).preferences.entries mode, ownObserver x = none := by
    intro mode x hx
    cases mode with
    | localChange =>
        obtain ⟨y, -, rfl⟩ := List.mem_map.mp hx
        rfl
    | multiPrecessChange =>
        obtain ⟨stub, hstub, rfl⟩ := List.mem_map.mp hx
        obtain ⟨y, -, rfl⟩ := List.mem_map.mp hstub
        rfl
    | _ => exact absurd hx (by simp [KeyObservers.entries])
  refine ⟨hstep, by simp, by simp, ?_, by simp [initial], ?_⟩
  · intro o ho
    obtain ⟨y, -, heq⟩ := List.mem_map.mp ho
    cases heq
  · intro mode
    rw [hstep.called, List.filterMap_eq_nil_iff.mpr]
    · rfl
    · intro x hx
      exact hforeign _ x (List.mem_of_mem_filter hx)

/-- **The books are right.** After any calls, a change calls what the books say, in their order. -/
theorem called_eq_ledger (binding : κ → Binding) (others : List ω) (stubs : List (ObserverStub ω))
    (nextStub : Nat) (destroyed : List ω) (calls : List (ClientCall κ φ ω)) (mode : ChangeMode) :
    let books := calls.foldl (account binding) (initial others stubs nextStub destroyed, [])
    books.1.called mode =
      (books.2.filter (fun entry => entry.2.1 = mode)).map (fun entry => entry.2.2) := by
  have hrun : ∀ (s : Clients κ φ ω) (objs : List (κ × Observer φ)), Booked s objs →
      ∃ objs', Booked (calls.foldl (account binding) (s, objs.map entry)).1 objs' ∧
        (calls.foldl (account binding) (s, objs.map entry)).2 = objs'.map entry := by
    induction calls with
    | nil => exact fun s objs h => ⟨objs, h, rfl⟩
    | cons call calls ih =>
        intro s objs h
        obtain ⟨objs₁, h₁, hledger⟩ := h.account binding call
        obtain ⟨objs', h'⟩ := ih _ objs₁ h₁
        rw [← hledger] at h'
        exact ⟨objs', h'⟩
  obtain ⟨objs, h, hledger⟩ := hrun _ [] (booked_initial others stubs nextStub destroyed)
  dsimp only
  replace hledger : (calls.foldl (account binding) (initial others stubs nextStub destroyed, [])).2 =
      objs.map entry := hledger
  rw [hledger, Clients.called]
  refine (congrArg _ (h.own mode)).trans ?_
  rw [List.filter_map, List.map_map, List.map_map]
  rfl

end

/-- Cangjie subscribes twice behind an entry that has lost its observer. The first `off` takes out
that entry, and yet one call is left. -/
example :
    (([.elsewhere (.register (.foreign 0) .localChange ⟨true, true, 0⟩) .register,
        .elsewhere (.destroy (.foreign 0)) .destroy, .on 0 .change 5 ⟨true, true, 0⟩,
        .on 0 .change 5 ⟨true, true, 0⟩, .off 0 .change 5 ⟨true, true, 0⟩] :
          List (ClientCall Nat Nat Nat)).foldl (account (fun _ => .cj))
      (initial [] [] 0 [], [])).1.called .change = [5] := by
  decide

end NativePreferences.Direct
