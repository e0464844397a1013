import Mathlib.Data.List.Count
import NativePreferences.Impl.DataSubscriptions

/-!
# NativePreferences.Impl.KeyObservers

**Observers that are called with a key** (`RegisterObserver` and `UnRegisterObserver` of
`preferences_base.cpp`), for changes of this process or of other processes.

A store holds them by weak pointers, one per registration. Those for other processes sit in a stub
each, and the stub is known to the data-observer service, which is not part of this repository: it
delivers a change to the stubs that were registered and not unregistered, and says with a code
whether it took a request.

`UnRegisterObserver` takes out one entry: the first that is for the observer *or whose observer no
longer exists*. So an observer that is registered once is taken out if and only if no such entry
stands before its own (`unRegisterObserver_iff`).
-/

namespace NativePreferences

variable {ι : Type}

/-- `RegisterMode`. -/
inductive RegisterMode
  | localChange
  | multiPrecessChange
  | dataChange
  | changeButt
  deriving DecidableEq, Repr

/-- `DataPreferencesObserverStub`: an object, and what its weak pointer is for. -/
structure ObserverStub (ι : Type) where
  id : Nat
  preferencesObserver : ι
  deriving DecidableEq

/-- How the environment answers a call: whether there is a `DataObsMgrClient`, whether the stub is
allocated, and the code of the service. -/
structure ServiceAnswer where
  client : Bool
  allocated : Bool
  errcode : Int

/-- The observers of a store, with their objects and the service around them. -/
structure KeyObservers (ι : Type) where
  localObservers : List ι
  multiProcessObservers : List (ObserverStub ι)
  /-- The stubs that the service delivers to. -/
  service : List (ObserverStub ι)
  nextStub : Nat
  /-- The observers that no longer exist. -/
  destroyed : List ι

namespace KeyObservers

/-- Nobody has registered, and every observer exists. -/
def initial : KeyObservers ι := ⟨[], [], [], 0, []⟩

/-- `RegisterObserver`. -/
def registerObserver (s : KeyObservers ι) (preferencesObserver : ι) (mode : RegisterMode)
    (answer : ServiceAnswer) : Int × KeyObservers ι :=
  match mode with
  | .localChange => (eOk, { s with localObservers := s.localObservers ++ [preferencesObserver] })
  | .multiPrecessChange =>
      let observer : ObserverStub ι := ⟨s.nextStub, preferencesObserver⟩
      if !answer.client then (eGetDataobsmgrclientFail, s)
      else if !answer.allocated then (eError, s)
      else if answer.errcode ≠ 0 then (answer.errcode, { s with nextStub := s.nextStub + 1 })
      else
        (eOk, { s with
          multiProcessObservers := s.multiProcessObservers ++ [observer]
          service := s.service ++ [observer]
          nextStub := s.nextStub + 1 })
  | .dataChange | .changeButt => (eOk, s)

/-- The entries of a mode. -/
def entries (s : KeyObservers ι) : RegisterMode → List ι
  | .localChange => s.localObservers
  | .multiPrecessChange => s.multiProcessObservers.map ObserverStub.preferencesObserver
  | .dataChange | .changeButt => []

variable {s : KeyObservers ι} {o o' : ι} {mode : RegisterMode} {answer : ServiceAnswer}

/-- The registration leaves an entry behind. -/
def accepts (answer : ServiceAnswer) : RegisterMode → Bool
  | .localChange => true
  | .multiPrecessChange => answer.client && answer.allocated && answer.errcode == 0
  | .dataChange | .changeButt => false

theorem entries_register (hmode : accepts answer mode = true) :
    (s.registerObserver o mode answer).2.entries mode = s.entries mode ++ [o] := by
  cases mode with
  | localChange => rfl
  | multiPrecessChange =>
      simp only [accepts, Bool.and_eq_true, beq_iff_eq] at hmode
      obtain ⟨⟨hclient, halloc⟩, hcode⟩ := hmode
      simp [registerObserver, hclient, halloc, hcode, entries]
  | dataChange => exact absurd hmode (by simp [accepts])
  | changeButt => exact absurd hmode (by simp [accepts])

theorem entries_register_of_ne {mode' : RegisterMode}
    (h : mode' ≠ mode ∨ ¬ accepts answer mode = true) :
    (s.registerObserver o mode answer).2.entries mode' = s.entries mode' := by
  cases mode with
  | localChange =>
      have hne : mode' ≠ .localChange := h.resolve_right (fun hno => hno rfl)
      cases mode' with
      | localChange => exact absurd rfl hne
      | _ => rfl
  | multiPrecessChange =>
      unfold registerObserver
      dsimp only
      split_ifs with hclient halloc hcode
      · rfl
      · rfl
      · rfl
      · have hne : mode' ≠ .multiPrecessChange := by
          refine h.resolve_right (fun hno => hno ?_)
          simp only [accepts, Bool.and_eq_true, beq_iff_eq]
          exact ⟨⟨by simpa using hclient, by simpa using halloc⟩, by simpa using hcode⟩
        cases mode' with
        | multiPrecessChange => exact absurd rfl hne
        | _ => rfl
  | _ => rfl

variable [DecidableEq ι]

/-- `weak_ptr::lock`. -/
def lock (s : KeyObservers ι) (o : ι) : Option ι := if o ∈ s.destroyed then none else some o

/-- `!sharedObserver || sharedObserver == preferencesObserver`. -/
def hit (s : KeyObservers ι) (preferencesObserver weak : ι) : Bool :=
  match s.lock weak with
  | none => true
  | some sharedObserver => sharedObserver == preferencesObserver

/-- `UnRegisterObserver`. -/
def unRegisterObserver (s : KeyObservers ι) (preferencesObserver : ι) (mode : RegisterMode)
    (answer : ServiceAnswer) : Int × KeyObservers ι :=
  match mode with
  | .localChange =>
      (eOk, { s with localObservers := s.localObservers.eraseP (s.hit preferencesObserver) })
  | _ =>
      let found (it : ObserverStub ι) : Bool := s.hit preferencesObserver it.preferencesObserver
      match s.multiProcessObservers.find? found with
      | none => (eOk, s)
      | some it =>
          if !answer.client then (eGetDataobsmgrclientFail, s)
          else if answer.errcode ≠ 0 then (answer.errcode, s)
          else
            (eOk, { s with
              multiProcessObservers := s.multiProcessObservers.eraseP found
              service := s.service.erase it })

/-! ### Notifications -/

/-- The observers that a change in this mode calls: `NotifyPreferencesObserver`, or the service
through `OnChangePreferences`. -/
def called (s : KeyObservers ι) : RegisterMode → List ι
  | .localChange => s.localObservers.filterMap s.lock
  | .multiPrecessChange => s.service.filterMap (fun stub => s.lock stub.preferencesObserver)
  | .dataChange | .changeButt => []

end KeyObservers

/-- What happens to the observers of a store. -/
inductive ObserverEvent (ι : Type)
  | register (preferencesObserver : ι) (mode : RegisterMode) (answer : ServiceAnswer)
  | unRegister (preferencesObserver : ι) (mode : RegisterMode) (answer : ServiceAnswer)
  /-- The last shared pointer to an observer goes away. -/
  | destroy (o : ι)

namespace KeyObservers

variable [DecidableEq ι] {event : ObserverEvent ι} {history : List (ObserverEvent ι)}
variable {s : KeyObservers ι} {o o' : ι} {mode : RegisterMode} {answer : ServiceAnswer}

/-- One event. -/
def step (s : KeyObservers ι) : ObserverEvent ι → KeyObservers ι
  | .register o mode answer => (s.registerObserver o mode answer).2
  | .unRegister o mode answer => (s.unRegisterObserver o mode answer).2
  | .destroy o => { s with destroyed := o :: s.destroyed }

/-- A history of events. -/
def run (s : KeyObservers ι) (history : List (ObserverEvent ι)) : KeyObservers ι :=
  history.foldl step s

theorem hit_iff : s.hit o o' = true ↔ o' ∈ s.destroyed ∨ o' = o := by
  unfold hit lock
  by_cases hdead : o' ∈ s.destroyed
  · simp [hdead]
  · simp [hdead]

/-! ### The store and the service -/

/-- The service delivers to the stubs that the store has, in their order. -/
def InStep (s : KeyObservers ι) : Prop := s.service = s.multiProcessObservers

theorem InStep.register (h : s.InStep) :
    (s.step (.register o mode answer)).InStep := by
  show (s.registerObserver o mode answer).2.InStep
  unfold registerObserver
  cases mode with
  | multiPrecessChange =>
      dsimp only
      split_ifs
      · exact h
      · exact h
      · exact h
      · exact congrArg (· ++ [_]) h
  | _ => exact h

/-- The stub that was found is the first one that is equal to it. -/
theorem erase_eq_eraseP {p : ObserverStub ι → Bool} {l : List (ObserverStub ι)}
    {it : ObserverStub ι} (h : l.find? p = some it) : l.erase it = l.eraseP p := by
  induction l with
  | nil => exact absurd h (by simp)
  | cons stub l ih =>
      by_cases hp : p stub = true
      · rw [List.find?_cons_of_pos hp] at h
        obtain rfl := Option.some.inj h
        rw [List.erase_cons_head, List.eraseP_cons_of_pos hp]
      · rw [List.find?_cons_of_neg hp] at h
        have hne : stub ≠ it := by
          intro heq
          exact hp (heq ▸ List.find?_some h)
        rw [List.erase_cons_tail (by simpa using hne), List.eraseP_cons_of_neg hp, ih h]

theorem InStep.unRegister (h : s.InStep) :
    (s.step (.unRegister o mode answer)).InStep := by
  show (s.unRegisterObserver o mode answer).2.InStep
  unfold unRegisterObserver
  cases mode with
  | localChange => exact h
  | _ =>
      dsimp only
      split
      · exact h
      · next it hfind =>
        split_ifs
        · exact h
        · exact h
        · show s.service.erase it = _
          rw [show s.service = _ from h, erase_eq_eraseP hfind]

theorem InStep.run (h : s.InStep) (history : List (ObserverEvent ι)) : (s.run history).InStep := by
  induction history generalizing s with
  | nil => exact h
  | cons event history ih =>
      cases event with
      | register => exact ih h.register
      | unRegister => exact ih h.unRegister
      | destroy => exact ih h

theorem filterMap_lock (s : KeyObservers ι) (l : List ι) :
    l.filterMap s.lock = l.filter (fun o => o ∉ s.destroyed) := by
  induction l with
  | nil => rfl
  | cons o l ih =>
      by_cases hdead : o ∈ s.destroyed
      · rw [List.filterMap_cons_none (by rw [lock, if_pos hdead]), ih,
          List.filter_cons_of_neg (by simpa using hdead)]
      · rw [List.filterMap_cons_some (by rw [lock, if_neg hdead]), ih,
          List.filter_cons_of_pos (by simpa using hdead)]

/-- The observers that are called are those of the entries, if they exist. -/
theorem InStep.called (h : s.InStep) (mode : RegisterMode) :
    s.called mode = (s.entries mode).filter (fun o => o ∉ s.destroyed) := by
  rw [← filterMap_lock]
  cases mode with
  | localChange => rfl
  | multiPrecessChange =>
      show s.service.filterMap _ = (s.multiProcessObservers.map _).filterMap _
      rw [show s.service = _ from h, List.filterMap_map]
      rfl
  | dataChange => rfl
  | changeButt => rfl

/-! ### Entries -/

/-- A successful `UnRegisterObserver` that does not find an entry leaves everything as it is; one
that does takes the stub out of the store's list and has the service forget it. -/
theorem unRegister_cases
    (hok : (s.unRegisterObserver o .multiPrecessChange answer).1 = eOk) :
    let found (it : ObserverStub ι) : Bool := s.hit o it.preferencesObserver
    (s.multiProcessObservers.find? found = none ∧
        (s.unRegisterObserver o .multiPrecessChange answer).2 = s) ∨
      ∃ it, s.multiProcessObservers.find? found = some it ∧
        (s.unRegisterObserver o .multiPrecessChange answer).2 =
          { s with
            multiProcessObservers := s.multiProcessObservers.eraseP found
            service := s.service.erase it } := by
  unfold unRegisterObserver at hok ⊢
  dsimp only at hok ⊢
  cases hfind : s.multiProcessObservers.find? (fun it => s.hit o it.preferencesObserver) with
  | none => exact .inl ⟨rfl, rfl⟩
  | some it =>
      rw [hfind] at hok
      dsimp only at hok ⊢
      by_cases hclient : (!answer.client) = true
      · rw [if_pos hclient] at hok
        exact absurd (show eGetDataobsmgrclientFail = eOk from hok) (by decide)
      · rw [if_neg hclient] at hok ⊢
        by_cases hcode : answer.errcode ≠ 0
        · rw [if_pos hcode] at hok
          exact absurd hok hcode
        · rw [if_neg hcode]
          exact .inr ⟨it, rfl, rfl⟩

/-- **What a successful `UnRegisterObserver` does to the entries**: the first hit is taken out. -/
theorem entries_unRegister (hmode : mode = .localChange ∨ mode = .multiPrecessChange)
    (hok : (s.unRegisterObserver o mode answer).1 = eOk) :
    (s.unRegisterObserver o mode answer).2.destroyed = s.destroyed ∧
    ∀ mode', (s.unRegisterObserver o mode answer).2.entries mode' =
      if mode' = mode then (s.entries mode).eraseP (s.hit o) else s.entries mode' := by
  rcases hmode with rfl | rfl
  · refine ⟨rfl, ?_⟩
    intro mode'
    cases mode' with
    | localChange => rfl
    | _ => rfl
  · have hmap : (s.entries .multiPrecessChange).eraseP (s.hit o) =
        (s.multiProcessObservers.eraseP
          (fun it => s.hit o it.preferencesObserver)).map ObserverStub.preferencesObserver :=
      List.eraseP_map
    rw [hmap]
    rcases unRegister_cases hok with ⟨hfind, hsame⟩ | ⟨it, hfind, hnext⟩
    · rw [hsame, List.eraseP_of_forall_not (by simpa using hfind)]
      refine ⟨rfl, ?_⟩
      intro mode'
      cases mode' with
      | multiPrecessChange => rfl
      | _ => rfl
    · rw [hnext]
      refine ⟨rfl, ?_⟩
      intro mode'
      cases mode' with
      | multiPrecessChange => rfl
      | _ => rfl

theorem entries_unRegister_subset (mode' : RegisterMode) :
    (s.unRegisterObserver o mode answer).2.entries mode' ⊆ s.entries mode' := by
  unfold unRegisterObserver
  cases mode with
  | localChange =>
      cases mode' with
      | localChange => exact List.eraseP_subset
      | _ => exact List.Subset.refl _
  | _ =>
      dsimp only
      split
      · exact List.Subset.refl _
      · split_ifs
        · exact List.Subset.refl _
        · exact List.Subset.refl _
        · cases mode' with
          | multiPrecessChange => exact List.map_subset _ List.eraseP_subset
          | _ => exact List.Subset.refl _

/-- Only a registration adds an entry. -/
theorem mem_entries_of_step (h : o ∈ (s.step event).entries mode) :
    o ∈ s.entries mode ∨ ∃ answer, event = .register o mode answer := by
  cases event with
  | register o' mode' answer =>
      replace h : o ∈ (s.registerObserver o' mode' answer).2.entries mode := h
      by_cases hentry : mode = mode' ∧ accepts answer mode' = true
      · obtain ⟨rfl, haccepts⟩ := hentry
        rw [entries_register haccepts, List.mem_append, List.mem_singleton] at h
        rcases h with h | rfl
        · exact .inl h
        · exact .inr ⟨answer, rfl⟩
      · rw [entries_register_of_ne (not_and_or.mp hentry)] at h
        exact .inl h
  | unRegister => exact .inl (entries_unRegister_subset _ h)
  | destroy => exact .inl h

/-- An observer that is gone stays gone. -/
theorem destroyed_subset_step (s : KeyObservers ι) (event : ObserverEvent ι) :
    s.destroyed ⊆ (s.step event).destroyed := by
  cases event with
  | register o mode answer =>
      show s.destroyed ⊆ (s.registerObserver o mode answer).2.destroyed
      unfold registerObserver
      cases mode with
      | multiPrecessChange =>
          dsimp only
          split_ifs <;> exact List.Subset.refl _
      | _ => exact List.Subset.refl _
  | unRegister o mode answer =>
      show s.destroyed ⊆ (s.unRegisterObserver o mode answer).2.destroyed
      unfold unRegisterObserver
      cases mode with
      | localChange => exact List.Subset.refl _
      | _ =>
          dsimp only
          split
          · exact List.Subset.refl _
          · split_ifs <;> exact List.Subset.refl _
  | destroy o => exact List.subset_cons_self _ _

/-- Who has no entry is not called, and gets none as long as it does not register. -/
theorem InStep.not_called_run (h : s.InStep) (hentry : o ∉ s.entries mode)
    (later : List (ObserverEvent ι)) (hlater : ∀ answer, .register o mode answer ∉ later) :
    o ∉ (s.run later).called mode := by
  have hrun : o ∉ (s.run later).entries mode := by
    induction later generalizing s with
    | nil => exact hentry
    | cons event later ih =>
        have hstep : o ∉ (s.step event).entries mode := by
          intro hmem
          rcases mem_entries_of_step hmem with hold | ⟨answer, rfl⟩
          · exact hentry hold
          · exact hlater answer List.mem_cons_self
        exact ih (h.run [event]) hstep
          (fun answer hmem => hlater answer (List.mem_cons_of_mem _ hmem))
  rw [(h.run later).called]
  intro hmem
  exact hrun (List.mem_filter.mp hmem).1

/-! ### Unregistering -/

/-- The observer is not called any more in this mode as long as it does not register for it again,
and every other observer that exists is called as often as before, in every mode. -/
def UnregisteredBy (s s' : KeyObservers ι) (o : ι) (mode : RegisterMode) : Prop :=
  (∀ later : List (ObserverEvent ι), (∀ answer, .register o mode answer ∉ later) →
      o ∉ (s'.run later).called mode) ∧
    ∀ o', o' ≠ o → o' ∉ s.destroyed →
      ∀ mode', (s'.called mode').count o' = (s.called mode').count o'

theorem count_eraseP {p : ι → Bool} (h : p o' = false) (l : List ι) :
    (l.eraseP p).count o' = l.count o' := by
  induction l with
  | nil => rfl
  | cons o l ih =>
      by_cases hp : p o = true
      · have hne : o ≠ o' := by
          intro heq
          rw [heq, h] at hp
          exact absurd hp (by decide)
        rw [List.eraseP_cons_of_pos hp, List.count_cons_of_ne hne]
      · rw [List.eraseP_cons_of_neg hp, List.count_cons, List.count_cons, ih]

omit [DecidableEq ι] in
theorem filter_eraseP {p q : ι → Bool} (h : ∀ o, q o = true → p o = false) (l : List ι) :
    (l.eraseP q).filter p = l.filter p := by
  induction l with
  | nil => rfl
  | cons o l ih =>
      by_cases hq : q o = true
      · simp [List.eraseP_cons_of_pos hq, h o hq]
      · rw [List.eraseP_cons_of_neg hq, List.filter_cons, List.filter_cons, ih]

omit [DecidableEq ι] in
/-- A registration that returns `E_OK` leaves an entry behind. -/
theorem accepts_of_ok (hmode : mode = .localChange ∨ mode = .multiPrecessChange)
    (hok : (s.registerObserver o mode answer).1 = eOk) : accepts answer mode = true := by
  rcases hmode with rfl | rfl
  · rfl
  · unfold registerObserver at hok
    dsimp only at hok
    split_ifs at hok with hclient halloc hcode
    · exact absurd (show eGetDataobsmgrclientFail = eOk from hok) (by decide)
    · exact absurd (show eError = eOk from hok) (by decide)
    · exact absurd hok hcode
    · simp only [Bool.not_eq_true, Bool.not_eq_false', not_not] at hclient halloc hcode
      simp [accepts, hclient, halloc, hcode]

omit [DecidableEq ι] in
theorem not_accepts_of_ne (hne : (s.registerObserver o mode answer).1 ≠ eOk) :
    ¬ accepts answer mode = true := by
  intro haccepts
  cases mode with
  | multiPrecessChange =>
      simp only [accepts, Bool.and_eq_true, beq_iff_eq] at haccepts
      obtain ⟨⟨hclient, halloc⟩, hcode⟩ := haccepts
      exact hne (by simp [registerObserver, hclient, halloc, hcode])
  | _ => exact hne rfl

omit [DecidableEq ι] in
theorem destroyed_register : (s.registerObserver o mode answer).2.destroyed = s.destroyed := by
  unfold registerObserver
  cases mode with
  | multiPrecessChange =>
      dsimp only
      split_ifs <;> rfl
  | _ => rfl

theorem destroyed_unRegister : (s.unRegisterObserver o mode answer).2.destroyed = s.destroyed := by
  unfold unRegisterObserver
  cases mode with
  | localChange => rfl
  | _ =>
      dsimp only
      split
      · rfl
      · split_ifs <;> rfl

/-- An `UnRegisterObserver` that fails leaves everything as it is. -/
theorem unRegister_of_ne (hne : (s.unRegisterObserver o mode answer).1 ≠ eOk) :
    (s.unRegisterObserver o mode answer).2 = s := by
  unfold unRegisterObserver at hne ⊢
  cases mode with
  | localChange => exact absurd rfl hne
  | _ =>
      dsimp only at hne ⊢
      split
      · rfl
      · next it hfind =>
        rw [hfind] at hne
        dsimp only at hne
        split_ifs at hne ⊢
        · rfl
        · rfl
        · exact absurd rfl hne

/-- Whatever it returns, an `UnRegisterObserver` takes out the first hit of a mode, or nothing. -/
theorem entries_unRegister_or (s : KeyObservers ι) (o : ι) (mode : RegisterMode)
    (answer : ServiceAnswer) (mode' : RegisterMode) :
    (s.unRegisterObserver o mode answer).2.entries mode' = s.entries mode' ∨
      (s.unRegisterObserver o mode answer).2.entries mode' =
        (s.entries mode').eraseP (s.hit o) := by
  -- Any other mode is taken for `MULTI_PRECESS_CHANGE`.
  wlog hmode : mode = .localChange ∨ mode = .multiPrecessChange generalizing mode
  · have hmulti := this .multiPrecessChange (.inr rfl)
    cases mode with
    | localChange => exact absurd (.inl rfl) hmode
    | _ => exact hmulti
  by_cases hok : (s.unRegisterObserver o mode answer).1 = eOk
  · rw [(entries_unRegister hmode hok).2]
    split
    · next heq => exact .inr (by rw [heq])
    · exact .inl rfl
  · exact .inl (by rw [unRegister_of_ne hok])

/-- The entries of anybody else who exists stay. -/
theorem count_entries_unRegister (hne : o' ≠ o) (hlive : o' ∉ s.destroyed)
    (mode' : RegisterMode) :
    ((s.unRegisterObserver o mode answer).2.entries mode').count o' =
      (s.entries mode').count o' := by
  have hmiss : s.hit o o' = false := by
    rw [← Bool.not_eq_true, hit_iff]
    exact not_or.mpr ⟨hlive, hne⟩
  rcases entries_unRegister_or s o mode answer mode' with hsame | herase
  · rw [hsame]
  · rw [herase, count_eraseP hmiss]

theorem count_entries_register (hne : o' ≠ o) (mode' : RegisterMode) :
    ((s.registerObserver o mode answer).2.entries mode').count o' =
      (s.entries mode').count o' := by
  by_cases hentry : mode' = mode ∧ accepts answer mode = true
  · obtain ⟨rfl, haccepts⟩ := hentry
    simp [entries_register haccepts, hne.symm]
  · rw [entries_register_of_ne (not_and_or.mp hentry)]

/-- Who is called after an `UnRegisterObserver`, whatever it returns: the same as before, but for
the observer itself. -/
theorem InStep.called_unRegister_filter (h : s.InStep) {p : ι → Bool} (hp : p o = false)
    (mode' : RegisterMode) :
    ((s.unRegisterObserver o mode answer).2.called mode').filter p =
      (s.called mode').filter p := by
  have h' : (s.unRegisterObserver o mode answer).2.InStep := h.unRegister
  rw [h'.called, h.called, destroyed_unRegister]
  rcases entries_unRegister_or s o mode answer mode' with hsame | herase
  · rw [hsame]
  · rw [herase, List.filter_filter, List.filter_filter]
    refine filter_eraseP (fun x hx => ?_) _
    rw [hit_iff] at hx
    rcases hx with hdead | rfl
    · simp [hdead]
    · simp [hp]

/-- Who is called when an observer is gone. -/
theorem InStep.called_destroy (h : s.InStep) (o : ι) (mode : RegisterMode) :
    (s.step (.destroy o)).called mode = (s.called mode).filter (· ≠ o) := by
  have h' : (s.step (.destroy o)).InStep := h
  rw [h'.called, h.called, List.filter_filter]
  refine List.filter_congr (fun o' _ => ?_)
  simp [step]

theorem InStep.called_destroys (h : s.InStep) (l : List ι) (mode : RegisterMode) :
    (s.run (l.map .destroy)).called mode = (s.called mode).filter (· ∉ l) := by
  induction l generalizing s with
  | nil =>
      show s.called mode = _
      simp
  | cons o l ih =>
      have h' : (s.step (.destroy o)).InStep := h
      show ((s.step (.destroy o)).run (l.map .destroy)).called mode = _
      rw [ih h', h.called_destroy, List.filter_filter]
      refine List.filter_congr (fun o' _ => ?_)
      simp [Bool.and_comm]

theorem destroyed_destroys (s : KeyObservers ι) (l : List ι) :
    (s.run (l.map .destroy)).destroyed = l.reverse ++ s.destroyed := by
  induction l generalizing s with
  | nil => rfl
  | cons o l ih =>
      show ((s.step (.destroy o)).run (l.map .destroy)).destroyed = _
      simp [ih, step]

/-- Who is called after an observer has registered. -/
theorem InStep.called_register (h : s.InStep) (mode' : RegisterMode) :
    (s.registerObserver o mode answer).2.called mode' = s.called mode' ++
      if (mode' = mode ∧ accepts answer mode = true) ∧ o ∉ s.destroyed then [o] else [] := by
  have h' : (s.registerObserver o mode answer).2.InStep := h.register
  rw [h'.called, h.called, destroyed_register]
  by_cases hentry : mode' = mode ∧ accepts answer mode = true
  · obtain ⟨rfl, haccepts⟩ := hentry
    rw [entries_register haccepts, List.filter_append, List.filter_singleton]
    simp [haccepts]
  · rw [entries_register_of_ne (not_and_or.mp hentry), if_neg (fun hboth => hentry hboth.1),
      List.append_nil]

/-- The first hit is the only entry of the observer, unless an entry without an observer stands
before it. -/
theorem mem_eraseP_hit_iff (hlive : o ∉ s.destroyed) {l : List ι} (honce : l.count o = 1) :
    o ∉ l.eraseP (s.hit o) ↔ ∀ o' ∈ l.takeWhile (· ≠ o), o' ∉ s.destroyed := by
  induction l with
  | nil => exact absurd honce (by simp)
  | cons o₁ l ih =>
      by_cases heq : o₁ = o
      · subst heq
        have hrest : o₁ ∉ l := by
          rw [List.count_cons_self] at honce
          exact List.count_eq_zero.mp (by omega)
        rw [List.eraseP_cons_of_pos (hit_iff.mpr (.inr rfl))]
        simp [hrest]
      · have hrest : l.count o = 1 := by rwa [List.count_cons_of_ne heq] at honce
        have hmem : o ∈ l := List.count_pos_iff.mp (by omega)
        rw [List.takeWhile_cons_of_pos (by simpa using heq), List.forall_mem_cons, ← ih hrest]
        by_cases hdead : o₁ ∈ s.destroyed
        · rw [List.eraseP_cons_of_pos (hit_iff.mpr (.inl hdead))]
          simp [hdead, hmem]
        · have hmiss : ¬ s.hit o o₁ = true := by
            rw [hit_iff]
            exact not_or.mpr ⟨hdead, heq⟩
          rw [List.eraseP_cons_of_neg hmiss]
          simp [hdead, Ne.symm heq]

/-- **Exactly when `UnRegisterObserver` unregisters.** After any history, let an observer that
exists have one entry in a mode and let `UnRegisterObserver` return `E_OK` for it. The observer is
unregistered, and nobody else is, if and only if no entry before its own has lost its observer. -/
theorem unRegisterObserver_iff (history : List (ObserverEvent ι))
    (hlive : o ∉ ((initial : KeyObservers ι).run history).destroyed)
    (honce : ((initial.run history).entries mode).count o = 1)
    (hok : ((initial.run history).unRegisterObserver o mode answer).1 = eOk) :
    UnregisteredBy (initial.run history)
        ((initial.run history).unRegisterObserver o mode answer).2 o mode ↔
      ∀ o' ∈ ((initial.run history).entries mode).takeWhile (· ≠ o),
        o' ∉ (initial.run history).destroyed := by
  have hinitial : (initial : KeyObservers ι).InStep := rfl
  have hstep := hinitial.run history
  generalize initial.run history = s at *
  have hstep' : (s.unRegisterObserver o mode answer).2.InStep := hstep.unRegister
  have hmode : mode = .localChange ∨ mode = .multiPrecessChange := by
    cases mode with
    | localChange => exact .inl rfl
    | multiPrecessChange => exact .inr rfl
    | _ => exact absurd honce (by simp [entries])
  obtain ⟨hdestroyed, hentries⟩ := entries_unRegister hmode hok
  generalize (s.unRegisterObserver o mode answer).2 = s' at *
  rw [← mem_eraseP_hit_iff hlive honce]
  have hown : s'.entries mode = (s.entries mode).eraseP (s.hit o) := by
    rw [hentries, if_pos rfl]
  rw [← hown]
  constructor
  · intro ⟨hquiet, _⟩ hmem
    refine hquiet [] (by simp) ?_
    show o ∈ s'.called mode
    rw [hstep'.called, List.mem_filter, hdestroyed]
    exact ⟨hmem, by simpa using hlive⟩
  · intro hgone
    refine ⟨fun later hlater => hstep'.not_called_run hgone later hlater, ?_⟩
    intro o' hne hlive' mode'
    have hmiss : s.hit o o' = false := by
      rw [← Bool.not_eq_true, hit_iff]
      exact not_or.mpr ⟨hlive', hne⟩
    rw [hstep'.called, hstep.called, hdestroyed, List.count_filter (by simpa using hlive'),
      List.count_filter (by simpa using hlive'), hentries]
    split
    · next heq => rw [heq, count_eraseP hmiss]
    · rfl

/-- A registration that leaves an entry, for whom and in which mode. -/
def ObserverEvent.registers (mode : RegisterMode) : ObserverEvent ι → Option ι
  | .register o mode' answer => if mode = mode' ∧ accepts answer mode' = true then some o else none
  | .unRegister _ _ _ | .destroy _ => none

/-- As long as nobody unregisters, the entries are the registrations, in order. -/
theorem entries_of_registrations (history : List (ObserverEvent ι))
    (hnone : ∀ o mode answer, .unRegister o mode answer ∉ history) (mode : RegisterMode) :
    ((initial : KeyObservers ι).run history).entries mode =
      history.filterMap (ObserverEvent.registers mode) := by
  have hrun : ∀ s : KeyObservers ι, (s.run history).entries mode =
      s.entries mode ++ history.filterMap (ObserverEvent.registers mode) := by
    induction history with
    | nil => exact fun s => (List.append_nil _).symm
    | cons event history ih =>
        intro s
        have hrest := ih (fun o mode answer hmem =>
          hnone o mode answer (List.mem_cons_of_mem _ hmem))
        refine (hrest (s.step event)).trans ?_
        cases event with
        | register o mode' answer =>
            show (s.registerObserver o mode' answer).2.entries mode ++ _ = _
            by_cases hentry : mode = mode' ∧ accepts answer mode' = true
            · obtain ⟨rfl, haccepts⟩ := hentry
              have hentry : ObserverEvent.registers mode (.register o mode answer) = some o :=
                if_pos ⟨rfl, haccepts⟩
              rw [entries_register haccepts, List.filterMap_cons_some hentry, List.append_assoc]
              rfl
            · have hno : ObserverEvent.registers mode (.register o mode' answer) = none :=
                if_neg hentry
              rw [entries_register_of_ne (not_and_or.mp hentry), List.filterMap_cons_none hno]
        | unRegister o mode' answer => exact absurd List.mem_cons_self (hnone o mode' answer)
        | destroy o => rfl
  have hinitial : (initial : KeyObservers ι).entries mode = [] := by
    cases mode with
    | _ => rfl
  rw [hrun, hinitial, List.nil_append]

/-- An observer that goes after another one has come and ceased to exist. -/
theorem unRegisterObserver_before_expired :
    UnregisteredBy
      (initial.run [.register 0 .multiPrecessChange ⟨true, true, 0⟩,
        .register 1 .multiPrecessChange ⟨true, true, 0⟩, .destroy 1])
      ((initial.run [.register 0 .multiPrecessChange ⟨true, true, 0⟩,
        .register 1 .multiPrecessChange ⟨true, true, 0⟩, .destroy 1]).unRegisterObserver (0 : Nat)
        .multiPrecessChange ⟨true, true, 0⟩).2 0 .multiPrecessChange :=
  (unRegisterObserver_iff _ (by decide) (by decide) (by decide)).mpr (by decide)

/-- An observer that has registered after another one, which no longer exists. -/
theorem unRegisterObserver_hits_expired :
    ¬ ∀ (history : List (ObserverEvent Nat)) (o : Nat) (mode : RegisterMode)
      (answer : ServiceAnswer), o ∉ (initial.run history).destroyed →
      ((initial.run history).entries mode).count o = 1 →
      ((initial.run history).unRegisterObserver o mode answer).1 = eOk →
      UnregisteredBy (initial.run history)
        ((initial.run history).unRegisterObserver o mode answer).2 o mode := by
  intro hall
  have h := hall [.register 1 .localChange ⟨true, true, 0⟩,
    .register 0 .localChange ⟨true, true, 0⟩, .destroy 1] 0 .localChange ⟨true, true, 0⟩
    (by decide) (by decide) (by decide)
  exact h.1 [] (by simp) (by decide)

end KeyObservers

end NativePreferences
