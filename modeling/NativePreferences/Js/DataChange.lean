import NativePreferences.Impl.Observers
import NativePreferences.Impl.DataSubscriptions

/-!
# NativePreferences.Js.DataChange

**Subscriptions of JavaScript to `dataChange`** (`PreferencesProxy` of `napi_preferences.cpp`). The
proxy has one object for each callback that has subscribed, in a list, and the store has the keys
of each object. `off` takes keys away in the store, and the object goes with the last of them:
`E_OBSERVER_RESERVE` says that there are some left.

`on` does nothing for a callback that has an object, also if the keys are others than before. So
what a callback has is what it asked for when it had nothing, less what was taken away since
(`inStep_run`), and this is what the calls come to if and only if nobody who has subscribed asks
for more (`algebra_iff`).
-/

namespace NativePreferences

/-- `JSError`, as far as these functions report it. -/
inductive JSError
  | paramTypeError (message : String)
  | innerError (errCode : Int)
  deriving DecidableEq

/-- `JSPreferencesObserver`, as an object. As long as it is in the list, its reference is to the
callback. -/
structure JSPreferencesObserver (φ : Type) where
  id : Nat
  callback : φ
  deriving DecidableEq

/-- What `PreferencesProxy` has for `dataChange`, and the map of its instance. Callbacks are
functions, so that strict equality is identity. -/
structure PreferencesProxy (φ : Type) where
  dataObservers : List (JSPreferencesObserver φ)
  dataObserversMap : DataObserverMap (JSPreferencesObserver φ)
  /-- The number of the next object. -/
  nextId : Nat

variable {φ : Type}

/-- A callback that is not given (`nullptr`) stands for all. -/
def JSPreferencesObserver.hit [DecidableEq φ] (callback : Option φ)
    (o : JSPreferencesObserver φ) : Bool :=
  callback.isNone || callback == some o.callback

variable [DecidableEq φ]

namespace PreferencesProxy

/-- Nobody has subscribed. -/
def initial : PreferencesProxy φ := ⟨[], ∅, 0⟩

/-- `HasRegisteredObserver`. -/
def hasRegisteredObserver (s : PreferencesProxy φ) (callback : φ) : Bool :=
  s.dataObservers.any (fun it => callback == it.callback)

/-- `RegisteredDataObserver`. -/
def registeredDataObserver (s : PreferencesProxy φ) (keys : List String) (callback : φ) :
    Int × PreferencesProxy φ :=
  if s.hasRegisteredObserver callback then (eOk, s)
  else
    let observer : JSPreferencesObserver φ := ⟨s.nextId, callback⟩
    let (errCode, dataObserversMap) := s.dataObserversMap.registerDataObserver observer keys
    let nextId := s.nextId + 1
    if errCode ≠ eOk then (errCode, { s with dataObserversMap, nextId })
    else (eOk, ⟨s.dataObservers ++ [observer], dataObserversMap, nextId⟩)

/-- The loop of `UnRegisteredDataObserver`, from an object of the list to the end. -/
def unRegisterLoop (keys : List String) (callback : Option φ) :
    List (JSPreferencesObserver φ) → DataObserverMap (JSPreferencesObserver φ) →
      Int × List (JSPreferencesObserver φ) × DataObserverMap (JSPreferencesObserver φ)
  | [], m => (eOk, [], m)
  | it :: rest, m =>
      if it.hit callback then
        let (errCode, m) := m.unRegisterDataObserver it keys
        if errCode ≠ eOk ∧ errCode ≠ eObserverReserve then (errCode, it :: rest, m)
        else
          let kept := if errCode = eOk then [] else [it]
          if callback.isSome then (eOk, kept ++ rest, m)
          else
            let (errCode, rest, m) := unRegisterLoop keys callback rest m
            (errCode, kept ++ rest, m)
      else
        let (errCode, rest, m) := unRegisterLoop keys callback rest m
        (errCode, it :: rest, m)

/-- `UnRegisteredDataObserver`. -/
def unRegisteredDataObserver (s : PreferencesProxy φ) (keys : List String)
    (callback : Option φ) : Int × PreferencesProxy φ :=
  let (errCode, dataObservers, dataObserversMap) :=
    unRegisterLoop keys callback s.dataObservers s.dataObserversMap
  (errCode, { s with dataObservers, dataObserversMap })

/-- What the caller is told about a code. -/
def report : Int × PreferencesProxy φ → Except JSError Unit × PreferencesProxy φ
  | (errCode, s) => (if errCode = eOk then .ok () else .error (.innerError errCode), s)

/-- `RegisterDataObserver`: `on` with keys and a callback. -/
def registerDataObserver (s : PreferencesProxy φ) (keys : List String) (callback : φ) :
    Except JSError Unit × PreferencesProxy φ :=
  if keys = [] then (.error (.paramTypeError "The keys must be Array<string>."), s)
  else report (s.registeredDataObserver keys callback)

/-- `UnRegisterDataObserver`: `off` with keys, and with a callback or without. -/
def unRegisterDataObserver (s : PreferencesProxy φ) (keys : List String)
    (callback : Option φ) : Except JSError Unit × PreferencesProxy φ :=
  report (s.unRegisteredDataObserver keys callback)

/-- The keys that the store has for an object. -/
def keysOf (s : PreferencesProxy φ) (o : JSPreferencesObserver φ) : Finset String :=
  s.dataObserversMap.keysOf o

/-- The change is delivered to the callback, and the key is among the records. The objects of the
list are those that still exist. -/
def Delivered (s : PreferencesProxy φ) (n : Notice) (callback : φ) (key : String) : Prop :=
  ∃ o ∈ s.dataObservers, o.callback = callback ∧
    ∃ records, n.onChange (s.keysOf o) = some records ∧ key ∈ records.map Prod.fst

end PreferencesProxy

/-- A call of `on` or `off`. -/
inductive DataChangeCall (φ : Type)
  | on (keys : List String) (callback : φ)
  | off (keys : List String) (callback : Option φ)

namespace DataChangeCall

/-- The call is carried out. -/
def perform (s : PreferencesProxy φ) : DataChangeCall φ → PreferencesProxy φ
  | on keys callback => (s.registerDataObserver keys callback).2
  | off keys callback => (s.unRegisterDataObserver keys callback).2

/-- The proxy after a history of calls. -/
def after (calls : List (DataChangeCall φ)) : PreferencesProxy φ := calls.foldl perform .initial

/-- What the call does to the keys of a callback. -/
def net (callback : φ) (keySet : Finset String) : DataChangeCall φ → Finset String
  | on keys callback' => if callback' = callback then keySet ∪ keys.toFinset else keySet
  | off keys callback' =>
      if callback' = none ∨ callback' = some callback then DataObserverMap.left keySet keys
      else keySet

/-- What a history of calls comes to for a callback. -/
def netKeys (calls : List (DataChangeCall φ)) (callback : φ) : Finset String :=
  calls.foldl (net callback) ∅

/-- What the call leaves of the keys of a callback: `on` gives keys only to who has none. -/
def hold (callback : φ) (keySet : Finset String) : DataChangeCall φ → Finset String
  | on keys callback' =>
      if callback' = callback ∧ keySet = ∅ then keys.toFinset else keySet
  | off keys callback' => net callback keySet (.off keys callback')

/-- The keys that a callback has after a history of calls. -/
def heldKeys (calls : List (DataChangeCall φ)) (callback : φ) : Finset String :=
  calls.foldl (hold callback) ∅

/-- After every part of the history a change of a key is delivered to a callback exactly if the
calls come to that. -/
def Algebra (calls : List (DataChangeCall φ)) : Prop :=
  ∀ before, before <+: calls → ∀ n callback key,
    (after before).Delivered n callback key ↔
      key ∈ n.keysModified ∧ key ∈ netKeys before callback

/-- Who has subscribed to some keys asks for no others. -/
def AsksOnce (calls : List (DataChangeCall φ)) : Prop :=
  ∀ before keys callback, before ++ [on keys callback] <+: calls →
    netKeys before callback = ∅ ∨ ∀ key ∈ keys, key ∈ netKeys before callback

end DataChangeCall

variable {s : PreferencesProxy φ} {m : DataObserverMap (JSPreferencesObserver φ)}
variable {keys : List String} {o : JSPreferencesObserver φ}

/-! ### The loop -/

theorem JSPreferencesObserver.hit_iff {callback : Option φ} :
    o.hit callback = true ↔ callback = none ∨ callback = some o.callback := by
  cases callback <;> simp [hit]

namespace PreferencesProxy

/-- The loop leaves nothing of the keys of the object. -/
def emptied (m : DataObserverMap (JSPreferencesObserver φ)) (keys : List String)
    (callback : Option φ) (o : JSPreferencesObserver φ) : Bool :=
  o.hit callback && decide (DataObserverMap.left (m.keysOf o) keys = ∅)

/-- An object that is not the callback's. -/
theorem not_hit_of_notMem {it : JSPreferencesObserver φ} {rest : List (JSPreferencesObserver φ)}
    (hnot : it.callback ∉ rest.map JSPreferencesObserver.callback) (ho : o ∈ rest) :
    o ≠ it ∧ ¬ o.hit (some it.callback) = true := by
  have hne : it.callback ≠ o.callback := by
    intro heq
    exact hnot (heq ▸ List.mem_map_of_mem ho)
  constructor
  · intro heq
    exact hne (congrArg _ heq.symm)
  · rw [JSPreferencesObserver.hit_iff]
    simpa using hne

/-- The round of an object of the callback. -/
theorem unRegisterLoop_hit {callback : Option φ} {it : JSPreferencesObserver φ}
    (rest : List (JSPreferencesObserver φ)) (hhit : it.hit callback = true) :
    unRegisterLoop keys callback (it :: rest) m =
      let kept := [it].filter (fun o => !emptied m keys callback o)
      let m₁ := (m.unRegisterDataObserver it keys).2
      if callback.isSome then (eOk, kept ++ rest, m₁)
      else
        let ⟨errCode, rest, m'⟩ := unRegisterLoop keys callback rest m₁
        (errCode, kept ++ rest, m') := by
  have hcode : ¬ ((m.unRegisterDataObserver it keys).1 ≠ eOk ∧
      (m.unRegisterDataObserver it keys).1 ≠ eObserverReserve) := by
    rw [DataObserverMap.unRegisterDataObserver_code]
    split <;> simp
  have hkept : (if (m.unRegisterDataObserver it keys).1 = eOk then [] else [it]) =
      [it].filter (fun o => !emptied m keys callback o) := by
    rw [DataObserverMap.unRegisterDataObserver_code]
    by_cases hleft : DataObserverMap.left (m.keysOf it) keys = ∅
    · simp [emptied, hhit, hleft]
    · simp [emptied, hhit, hleft, eOk, eObserverReserve, eBase]
  rw [unRegisterLoop, if_pos hhit]
  simp only [if_neg hcode, hkept]

/-- What `m` has for the objects after the loop. -/
def Taken (keys : List String) (callback : Option φ) (observers : List (JSPreferencesObserver φ))
    (m m' : DataObserverMap (JSPreferencesObserver φ)) : Prop :=
  ∀ o, m'.lookup o =
    if o ∈ observers ∧ o.hit callback = true then
      if DataObserverMap.left (m.keysOf o) keys = ∅ then none
      else some (DataObserverMap.left (m.keysOf o) keys)
    else m.lookup o

theorem taken_one {callback : Option φ} {it : JSPreferencesObserver φ}
    {rest : List (JSPreferencesObserver φ)} (hhit : it.hit callback = true)
    (hnot : ∀ o ∈ rest, ¬ o.hit callback = true) :
    Taken keys callback (it :: rest) m (m.unRegisterDataObserver it keys).2 := by
  intro o
  rw [DataObserverMap.lookup_unRegister]
  by_cases heq : o = it
  · have hin : it ∈ it :: rest ∧ it.hit callback = true := ⟨List.mem_cons_self, hhit⟩
    rw [if_pos heq, heq, if_pos hin]
  · have hout : ¬ (o ∈ it :: rest ∧ o.hit callback = true) :=
      fun h => hnot o (List.mem_of_ne_of_mem heq h.1) h.2
    rw [if_neg heq, if_neg hout]

theorem Taken.cons {callback : Option φ} {it : JSPreferencesObserver φ}
    {rest : List (JSPreferencesObserver φ)} {m' : DataObserverMap (JSPreferencesObserver φ)}
    (hhit : it.hit callback = true) (hne : ∀ o ∈ rest, o ≠ it)
    (h : Taken keys callback rest (m.unRegisterDataObserver it keys).2 m') :
    Taken keys callback (it :: rest) m m' := by
  intro o
  rw [h o]
  by_cases heq : o = it
  · have hin : it ∈ it :: rest ∧ it.hit callback = true := ⟨List.mem_cons_self, hhit⟩
    have hout : ¬ (it ∈ rest ∧ it.hit callback = true) := fun h => hne it h.1 rfl
    rw [heq, if_neg hout, if_pos hin, DataObserverMap.lookup_unRegister, if_pos rfl]
  · have hsame : (m.unRegisterDataObserver it keys).2.lookup o = m.lookup o := by
      rw [DataObserverMap.lookup_unRegister, if_neg heq]
    rw [DataObserverMap.keysOf, hsame, ← DataObserverMap.keysOf]
    simp [heq]

/-- The loop takes the keys away from the objects of the callback, and the objects that have none
left out of the list. -/
theorem unRegisterLoop_spec (keys : List String) (callback : Option φ)
    (observers : List (JSPreferencesObserver φ)) (m : DataObserverMap (JSPreferencesObserver φ))
    (hnodup : (observers.map JSPreferencesObserver.callback).Nodup) :
    (unRegisterLoop keys callback observers m).1 = eOk ∧
      (unRegisterLoop keys callback observers m).2.1 =
        observers.filter (fun o => !emptied m keys callback o) ∧
      Taken keys callback observers m (unRegisterLoop keys callback observers m).2.2 := by
  induction observers generalizing m with
  | nil => exact ⟨rfl, rfl, fun o => by simp [unRegisterLoop]⟩
  | cons it rest ih =>
      rw [List.map_cons, List.nodup_cons] at hnodup
      obtain ⟨hnot, hrest⟩ := hnodup
      have hsplit : (it :: rest).filter (fun o => !emptied m keys callback o) =
          [it].filter (fun o => !emptied m keys callback o) ++
            rest.filter (fun o => !emptied m keys callback o) := List.filter_append [it] rest
      by_cases hhit : it.hit callback = true
      · rw [unRegisterLoop_hit rest hhit, hsplit]
        cases callback with
        | some callback =>
            -- The loop ends here, and no other object has the callback.
            obtain rfl : callback = it.callback := by
              simpa using JSPreferencesObserver.hit_iff.mp hhit
            refine ⟨rfl, ?_, taken_one hhit (fun o ho => (not_hit_of_notMem hnot ho).2)⟩
            have hall : rest.filter (fun o => !emptied m keys (some it.callback) o) = rest := by
              refine List.filter_eq_self.mpr ?_
              intro o ho
              simp [emptied, (not_hit_of_notMem hnot ho).2]
            rw [hall]
            rfl
        | none =>
            obtain ⟨hok, hlist, htaken⟩ := ih (m.unRegisterDataObserver it keys).2 hrest
            have hne : ∀ o ∈ rest, o ≠ it := fun o ho => (not_hit_of_notMem hnot ho).1
            refine ⟨hok, ?_, htaken.cons hhit hne⟩
            have hcongr : rest.filter
                (fun o => !emptied (m.unRegisterDataObserver it keys).2 keys none o) =
                rest.filter (fun o => !emptied m keys none o) := by
              refine List.filter_congr ?_
              intro o ho
              rw [emptied, emptied, DataObserverMap.keysOf, DataObserverMap.lookup_unRegister,
                if_neg (hne o ho), ← DataObserverMap.keysOf]
            show [it].filter _ ++ (unRegisterLoop keys none rest _).2.1 = _
            rw [hlist, hcongr]
      · obtain ⟨hok, hlist, htaken⟩ := ih m hrest
        rw [unRegisterLoop, if_neg hhit]
        refine ⟨hok, ?_, ?_⟩
        · show it :: (unRegisterLoop keys callback rest m).2.1 = _
          rw [hlist, List.filter_cons_of_pos (by simp [emptied, hhit])]
        · intro o
          rw [htaken o]
          by_cases heq : o = it
          · rw [heq, if_neg (fun h => hhit h.2), if_neg (fun h => hhit h.2)]
          · simp [heq]

/-! ### One call -/

/-- The list and the map are in step: each callback with keys has one object, and this has its
keys. -/
structure InStep (s : PreferencesProxy φ) (held : φ → Finset String) : Prop where
  nodup : (s.dataObservers.map JSPreferencesObserver.callback).Nodup
  keys : ∀ o ∈ s.dataObservers, s.keysOf o = held o.callback ∧ held o.callback ≠ ∅
  noKeys : ∀ callback, (∀ o ∈ s.dataObservers, o.callback ≠ callback) → held callback = ∅
  mapped : ∀ o ∈ s.dataObserversMap, o ∈ s.dataObservers
  fresh : ∀ o ∈ s.dataObservers, o.id < s.nextId

variable {held : φ → Finset String}

theorem inStep_initial : (initial : PreferencesProxy φ).InStep (fun _ => ∅) where
  nodup := List.nodup_nil
  keys _ ho := absurd ho List.not_mem_nil
  noKeys _ _ := rfl
  mapped _ ho := absurd ho (Finmap.notMem_empty)
  fresh _ ho := absurd ho List.not_mem_nil

theorem hasRegisteredObserver_iff {callback : φ} :
    s.hasRegisteredObserver callback = true ↔ ∃ o ∈ s.dataObservers, o.callback = callback := by
  rw [hasRegisteredObserver, List.any_eq_true]
  constructor
  · intro ⟨o, ho, heq⟩
    exact ⟨o, ho, (beq_iff_eq.mp heq).symm⟩
  · intro ⟨o, ho, heq⟩
    exact ⟨o, ho, beq_iff_eq.mpr heq.symm⟩

theorem InStep.register (h : s.InStep held) {callback : φ} (hkeys : keys ≠ [])
    (hnone : s.hasRegisteredObserver callback ≠ true) :
    (s.registeredDataObserver keys callback).2.InStep
      (fun c => if callback = c then keys.toFinset else held c) := by
  obtain ⟨o, ho⟩ : ∃ o : JSPreferencesObserver φ, o = ⟨s.nextId, callback⟩ := ⟨_, rfl⟩
  have hother : ∀ o' ∈ s.dataObservers, callback ≠ o'.callback := by
    intro o' ho' heq
    exact hnone (hasRegisteredObserver_iff.mpr ⟨o', ho', heq.symm⟩)
  have hout : o ∉ s.dataObserversMap := by
    intro hin
    have hlt := h.fresh o (h.mapped o hin)
    rw [ho] at hlt
    exact Nat.lt_irrefl _ hlt
  have hempty : s.dataObserversMap.keysOf o = ∅ := by
    rw [DataObserverMap.keysOf, Finmap.lookup_eq_none.mpr hout]
    rfl
  have hlookup : ∀ o', (s.dataObserversMap.registerDataObserver o keys).2.lookup o' =
      if o' = o then some keys.toFinset else s.dataObserversMap.lookup o' := by
    intro o'
    rw [DataObserverMap.lookup_register, hempty, Finset.empty_union]
  have hstep : (s.registeredDataObserver keys callback).2 =
      ⟨s.dataObservers ++ [o], (s.dataObserversMap.registerDataObserver o keys).2,
        s.nextId + 1⟩ := by
    rw [registeredDataObserver, if_neg hnone]
    simp only [DataObserverMap.registerDataObserver_code, ← ho]
    rfl
  have hcallback : o.callback = callback := by rw [ho]
  rw [hstep]
  constructor
  · rw [List.map_append, List.nodup_append]
    refine ⟨h.nodup, List.nodup_singleton _, ?_⟩
    intro c hc c' hc' heq
    obtain ⟨o', ho', rfl⟩ := List.mem_map.mp hc
    obtain rfl : c' = callback := by simpa [hcallback] using hc'
    exact hother o' ho' heq.symm
  · intro o' ho'
    show DataObserverMap.keysOf _ o' = _ ∧ _
    rw [DataObserverMap.keysOf, hlookup]
    rcases List.mem_append.mp ho' with hin | hin
    · have hne : o' ≠ o := by
        rintro rfl
        exact hother _ hin hcallback.symm
      rw [if_neg hne, if_neg (hother o' hin)]
      exact h.keys o' hin
    · obtain rfl := List.mem_singleton.mp hin
      rw [if_pos rfl, if_pos hcallback.symm]
      exact ⟨rfl, by simpa using hkeys⟩
  · intro c hc
    have hne : callback ≠ c := by
      intro heq
      exact hc o (List.mem_append_right _ (List.mem_singleton_self _)) (hcallback.trans heq)
    rw [if_neg hne]
    exact h.noKeys c (fun o' ho' => hc o' (List.mem_append_left _ ho'))
  · intro o' ho'
    rw [← Finmap.lookup_isSome, hlookup] at ho'
    by_cases heq : o' = o
    · exact List.mem_append_right _ (List.mem_singleton.mpr heq)
    · rw [if_neg heq, Finmap.lookup_isSome] at ho'
      exact List.mem_append_left _ (h.mapped o' ho')
  · intro o' ho'
    rcases List.mem_append.mp ho' with hin | hin
    · exact Nat.lt_succ_of_lt (h.fresh o' hin)
    · obtain rfl := List.mem_singleton.mp hin
      rw [ho]
      exact Nat.lt_succ_self _

theorem unRegisteredDataObserver_spec (keys : List String) (callback : Option φ)
    (h : s.InStep held) :
    (s.unRegisteredDataObserver keys callback).1 = eOk ∧
      (s.unRegisteredDataObserver keys callback).2.dataObservers =
        s.dataObservers.filter (fun o => !emptied s.dataObserversMap keys callback o) ∧
      Taken keys callback s.dataObservers s.dataObserversMap
        (s.unRegisteredDataObserver keys callback).2.dataObserversMap :=
  unRegisterLoop_spec keys callback s.dataObservers s.dataObserversMap h.nodup

theorem InStep.unRegister (h : s.InStep held) (callback : Option φ) :
    (s.unRegisteredDataObserver keys callback).2.InStep (fun c =>
      if callback = none ∨ callback = some c then DataObserverMap.left (held c) keys
      else held c) := by
  obtain ⟨-, hlist, htaken⟩ := unRegisteredDataObserver_spec keys callback h
  have hmem : ∀ o, o ∈ (s.unRegisteredDataObserver keys callback).2.dataObservers ↔
      o ∈ s.dataObservers ∧ ¬ emptied s.dataObserversMap keys callback o = true := by
    intro o
    rw [hlist, List.mem_filter]
    simp
  have hemptied : ∀ o ∈ s.dataObservers, emptied s.dataObserversMap keys callback o = true ↔
      (callback = none ∨ callback = some o.callback) ∧
        DataObserverMap.left (held o.callback) keys = ∅ := by
    intro o ho
    rw [emptied, Bool.and_eq_true, JSPreferencesObserver.hit_iff, decide_eq_true_iff,
      ← (h.keys o ho).1]
    rfl
  constructor
  · rw [hlist]
    exact h.nodup.sublist (List.filter_sublist.map _)
  · intro o ho
    obtain ⟨ho, hleft⟩ := (hmem o).mp ho
    rw [hemptied o ho] at hleft
    show DataObserverMap.keysOf _ o = _ ∧ _
    rw [DataObserverMap.keysOf, htaken o]
    by_cases hhit : callback = none ∨ callback = some o.callback
    · have hne : DataObserverMap.left (held o.callback) keys ≠ ∅ := fun heq => hleft ⟨hhit, heq⟩
      have hkeys : s.dataObserversMap.keysOf o = held o.callback := (h.keys o ho).1
      rw [if_pos hhit, if_pos ⟨ho, JSPreferencesObserver.hit_iff.mpr hhit⟩, hkeys, if_neg hne]
      exact ⟨rfl, hne⟩
    · rw [if_neg hhit, if_neg (fun hin => hhit (JSPreferencesObserver.hit_iff.mp hin.2))]
      exact h.keys o ho
  · intro c hc
    by_cases hsub : ∃ o ∈ s.dataObservers, o.callback = c
    · -- Its object has gone.
      obtain ⟨o, ho, rfl⟩ := hsub
      have hgone : emptied s.dataObserversMap keys callback o = true := by
        by_contra hkept
        exact hc o ((hmem o).mpr ⟨ho, hkept⟩) rfl
      obtain ⟨hhit, hleft⟩ := (hemptied o ho).mp hgone
      rw [if_pos hhit, hleft]
    · have hnone : held c = ∅ := h.noKeys c (fun o ho heq => hsub ⟨o, ho, heq⟩)
      rw [hnone]
      simp [DataObserverMap.left]
  · intro o ho
    rw [← Finmap.lookup_isSome] at ho
    have hlookup := htaken o
    rw [hmem]
    by_cases hhit : o ∈ s.dataObservers ∧ o.hit callback = true
    · rw [if_pos hhit] at hlookup
      refine ⟨hhit.1, ?_⟩
      intro hgone
      rw [emptied, Bool.and_eq_true, decide_eq_true_iff] at hgone
      rw [if_pos hgone.2] at hlookup
      rw [hlookup] at ho
      exact absurd ho (by simp)
    · rw [if_neg hhit] at hlookup
      rw [hlookup, Finmap.lookup_isSome] at ho
      have hin := h.mapped o ho
      refine ⟨hin, ?_⟩
      intro hgone
      rw [emptied, Bool.and_eq_true] at hgone
      exact hhit ⟨hin, hgone.1⟩
  · intro o ho
    exact h.fresh o ((hmem o).mp ho).1

/-- Changes of the keys that a callback has are delivered to it, and no others. -/
theorem InStep.delivered_iff (h : s.InStep held) (n : Notice) (callback : φ) (key : String) :
    s.Delivered n callback key ↔ key ∈ n.keysModified ∧ key ∈ held callback := by
  constructor
  · intro ⟨o, ho, hcallback, records, hrecords, hkey⟩
    obtain ⟨record, hrecord, rfl⟩ := List.mem_map.mp hkey
    rw [Notice.onChange] at hrecords
    split at hrecords
    · exact absurd hrecords (by simp)
    · obtain rfl := Option.some.inj hrecords
      obtain ⟨hmod, hin, -⟩ := Notice.mem_records hrecord
      rw [(h.keys o ho).1, hcallback] at hin
      exact ⟨hmod, hin⟩
  · intro ⟨hmod, hin⟩
    obtain ⟨o, ho, rfl⟩ : ∃ o ∈ s.dataObservers, o.callback = callback := by
      by_contra hnone
      have hempty := h.noKeys callback (fun o ho heq => hnone ⟨o, ho, heq⟩)
      rw [hempty] at hin
      exact absurd hin (Finset.notMem_empty _)
    rw [← (h.keys o ho).1] at hin
    obtain ⟨record, hrecord, rfl⟩ := Notice.exists_record hmod hin
    refine ⟨o, ho, rfl, n.records (s.keysOf o), ?_, List.mem_map_of_mem hrecord⟩
    exact if_neg (List.ne_nil_of_mem hrecord)

end PreferencesProxy

namespace DataChangeCall

variable {held : φ → Finset String} {calls : List (DataChangeCall φ)}

theorem inStep_perform (h : s.InStep held) (call : DataChangeCall φ) :
    (call.perform s).InStep (fun callback => call.hold callback (held callback)) := by
  cases call with
  | off keys callback => exact h.unRegister callback
  | on keys callback =>
      rw [perform, PreferencesProxy.registerDataObserver]
      by_cases hkeys : keys = []
      · have hsame : (fun c => hold c (held c) (on keys callback)) = held := by
          funext c
          rw [hold, hkeys]
          split
          · next hnone => exact hnone.2.symm
          · rfl
        rw [if_pos hkeys, hsame]
        exact h
      · rw [if_neg hkeys]
        show (s.registeredDataObserver keys callback).2.InStep _
        by_cases hreg : s.hasRegisteredObserver callback = true
        · -- The callback has keys, so that `on` does nothing.
          obtain ⟨o, ho, rfl⟩ := PreferencesProxy.hasRegisteredObserver_iff.mp hreg
          have hsame : (fun c => hold c (held c) (on keys o.callback)) = held := by
            funext c
            refine if_neg ?_
            rintro ⟨rfl, hempty⟩
            exact (h.keys o ho).2 hempty
          rw [PreferencesProxy.registeredDataObserver, if_pos hreg, hsame]
          exact h
        · have hempty : held callback = ∅ := by
            refine h.noKeys callback ?_
            intro o ho heq
            exact hreg (PreferencesProxy.hasRegisteredObserver_iff.mpr ⟨o, ho, heq⟩)
          have hsame : (fun c => hold c (held c) (on keys callback)) =
              fun c => if callback = c then keys.toFinset else held c := by
            funext c
            rw [hold]
            by_cases heq : callback = c
            · rw [if_pos heq, if_pos ⟨heq, heq ▸ hempty⟩]
            · rw [if_neg heq, if_neg (fun hin => heq hin.1)]
          rw [hsame]
          exact h.register hkeys hreg

/-- **The list and the map stay in step** in any history of calls. -/
theorem inStep_after (calls : List (DataChangeCall φ)) :
    (after calls).InStep (heldKeys calls) := by
  have hrun : ∀ (s : PreferencesProxy φ) (held : φ → Finset String), s.InStep held →
      (calls.foldl perform s).InStep (fun c => calls.foldl (hold c) (held c)) := by
    induction calls with
    | nil => exact fun s held h => h
    | cons call calls ih => exact fun s held h => ih _ _ (inStep_perform h call)
  exact hrun _ _ PreferencesProxy.inStep_initial

/-! ### Histories -/

theorem netKeys_append_one (calls : List (DataChangeCall φ)) (call : DataChangeCall φ)
    (callback : φ) :
    netKeys (calls ++ [call]) callback = call.net callback (netKeys calls callback) := by
  rw [netKeys, List.foldl_append]
  rfl

theorem heldKeys_append_one (calls : List (DataChangeCall φ)) (call : DataChangeCall φ)
    (callback : φ) :
    heldKeys (calls ++ [call]) callback = call.hold callback (heldKeys calls callback) := by
  rw [heldKeys, List.foldl_append]
  rfl

theorem algebra_iff_held :
    Algebra calls ↔ ∀ before, before <+: calls → heldKeys before = netKeys before := by
  constructor
  · intro h before hbefore
    funext callback
    ext key
    have hiff := h before hbefore ⟨{key}, ∅⟩ callback key
    rw [(inStep_after before).delivered_iff] at hiff
    simpa using hiff
  · intro h before hbefore n callback key
    rw [(inStep_after before).delivered_iff, h before hbefore]

/-- `on` does what it comes to for a callback without keys, or if it asks for no others. -/
theorem hold_on_eq_net_iff (keys : List String) (callback : φ) (keySet : Finset String) :
    hold callback keySet (on keys callback) = net callback keySet (on keys callback) ↔
      keySet = ∅ ∨ ∀ key ∈ keys, key ∈ keySet := by
  rw [hold, net, if_pos rfl]
  by_cases hempty : keySet = ∅
  · rw [if_pos ⟨rfl, hempty⟩, hempty, Finset.empty_union]
    exact iff_of_true rfl (.inl rfl)
  · rw [if_neg (fun hin => hempty hin.2), eq_comm, Finset.union_eq_left]
    simp [Finset.subset_iff, hempty]

/-- **The subscriptions are what the calls come to** exactly if no callback that has keys asks for
others. -/
theorem algebra_iff (calls : List (DataChangeCall φ)) : Algebra calls ↔ AsksOnce calls := by
  rw [algebra_iff_held]
  constructor
  · intro h before keys callback hbefore
    have hall := congrFun (h _ hbefore) callback
    rw [heldKeys_append_one, netKeys_append_one,
      h before ((List.prefix_append _ _).trans hbefore)] at hall
    exact (hold_on_eq_net_iff keys callback _).mp hall
  · intro h before hbefore
    induction before using List.reverseRecOn with
    | nil => rfl
    | append_singleton before call ih =>
        have hsame := ih ((List.prefix_append _ _).trans hbefore)
        funext c
        rw [heldKeys_append_one, netKeys_append_one, hsame]
        cases call with
        | off keys callback => rfl
        | on keys callback =>
            by_cases heq : callback = c
            · subst heq
              exact (hold_on_eq_net_iff keys callback _).mpr (h before keys callback hbefore)
            · rw [hold, net, if_neg (fun hin => heq hin.1), if_neg heq]

/-- The second call has no effect. -/
theorem second_on_ignored : ¬ ∀ calls : List (DataChangeCall Unit), Algebra calls := by
  intro h
  have hall := algebra_iff_held.mp (h [on ["a"] (), on ["b"] ()]) _ (List.prefix_refl _)
  exact absurd (congrFun hall ()) (by decide)

end DataChangeCall

end NativePreferences
