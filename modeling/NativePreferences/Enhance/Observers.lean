import NativePreferences.Enhance.Refinement
import NativePreferences.Impl.Observers

/-!
# NativePreferences.Enhance.Observers

**What a data observer of a store with the enhanced backend is told.** Each call that writes hands
a task to the executor pool before it returns, and the task tells the observers: after a `Put` the
key with its value, after a `Delete` the key with a monostate. After a `Clear` they are told of
every key that was there, with the value that it had. So an observer who replays the records has
those keys still.

Such a key is put right by the next `Put` or `Delete` of it. The copy of the observer is the map
exactly if that has happened to all of them (`observer_replays_iff`).
-/

namespace NativePreferences

open Lib

/-! ### Tasks -/

/-- A task for the executor pool. -/
inductive NotifyTask
  /-- `NotifyPreferencesObserver`. -/
  | one (key : String) (value : PreferencesValue)
  /-- `NotifyPreferencesObserverBatchKeys`. -/
  | batch (data : PrefMap)

namespace NotifyTask

/-- The calls of `OnChange` in `NotifyPreferencesObserver`, for an observer with these keys. -/
def notifyPreferencesObserver (keys : Finset String) (key : String) (value : PreferencesValue) :
    List Records :=
  if key ∈ keys then [[(key, value)]] else []

/-- The calls of `OnChange` in a task. The order of the keys in a batch is that of a
`std::unordered_map`, and does not matter. -/
def onChange (keys : Finset String) : NotifyTask → List Records
  | .one key value => notifyPreferencesObserver keys key value
  | .batch data =>
      (inOrder data.keys).flatMap (fun key =>
        notifyPreferencesObserver keys key ((data.lookup key).getD .monostate))

/-- An observer that replays what it is told. -/
def replay (keys : Finset String) (copy : PrefMap) (task : NotifyTask) : PrefMap :=
  (task.onChange keys).foldl (fun copy records => records.replay copy) copy

end NotifyTask

/-! ### The functions of the store, with their tasks -/

/-- A call that writes. -/
inductive Write
  | put (key : String) (value : PreferencesValue)
  | delete (key : String)
  | clear

def Write.op : Write → Op
  | .put key value => .put key value
  | .delete key => .delete key
  | .clear => .clear

namespace EnhanceImpl

/-- `Put`. The task is the last thing before it returns `E_OK`. -/
def putNotifying (h : EnhanceImpl) (key : String) (value : PreferencesValue) :
    KernelProgram (List NotifyTask × ErrCode × EnhanceImpl) := do
  let (errCode, h) ← h.put key value
  if errCode ≠ .ok then return ([], errCode, h)
  else return ([.one key value], .ok, h)

/-- `Delete`. -/
def deleteNotifying (h : EnhanceImpl) (key : String) :
    KernelProgram (List NotifyTask × ErrCode × EnhanceImpl) := do
  let (errCode, h) ← h.delete key
  if errCode ≠ .ok then return ([], errCode, h)
  else return ([.one key .monostate], .ok, h)

/-- `Clear`. The task is there before the collection is created anew. -/
def clearNotifying (h : EnhanceImpl) :
    KernelProgram (List NotifyTask × ErrCode × EnhanceImpl) :=
  if h.isOpen then do
    let (res, h) ← h.getAllInner
    if res.1 ≠ .ok then return ([], res.1, h)
    else
      let allData := res.2
      let errCode ← PreferencesDb.dropCollection
      if errCode ≠ .ok then return ([], errCode, h)
      else
        let tasks := if allData = ∅ then [] else [NotifyTask.batch allData]
        let errCode ← PreferencesDb.createCollection
        if errCode ≠ .ok then return (tasks, errCode, h)
        else
          return (tasks, .ok,
            { h with
              largeCachedData := ∅
              cachedDataVersion := nextVersion h.cachedDataVersion })
  else return ([], .error, h)

/-- A call that writes, with its tasks. -/
def notifying (h : EnhanceImpl) : Write → KernelProgram (List NotifyTask × ErrCode × EnhanceImpl)
  | .put key value => h.putNotifying key value
  | .delete key => h.deleteNotifying key
  | .clear => h.clearNotifying

/-- The tasks are all that is new. -/
theorem call_of_notifying (h : EnhanceImpl) (write : Write) :
    (h.notifying write >>= fun res => .ret (Reply.code res.2.1, res.2.2)) = h.call write.op := by
  -- behind `put` and `delete` there is only the task
  have hbehind : ∀ (p : KernelProgram (ErrCode × EnhanceImpl)) (tasks : List NotifyTask),
      ((p >>= fun res => if res.1 ≠ .ok then .ret ([], res.1, res.2)
        else .ret (tasks, ErrCode.ok, res.2)) >>= fun res =>
          Program.ret (Reply.code res.2.1, res.2.2)) =
        p >>= fun res => .ret (.code res.1, res.2) := by
    intro p tasks
    rw [Program.bind_assoc]
    congr 1
    funext res
    by_cases hok : res.1 = .ok
    · rw [if_neg (not_not.mpr hok), hok]
      rfl
    · rw [if_pos hok]
      rfl
  cases write with
  | put key value => exact hbehind (h.put key value) _
  | delete key => exact hbehind (h.delete key) _
  | clear =>
      show (h.clearNotifying >>= fun res => .ret (Reply.code res.2.1, res.2.2)) =
        h.clear >>= fun res => .ret (.code res.1, res.2)
      rw [clearNotifying, clear]
      split
      · rw [Program.bind_assoc, Program.bind_assoc]
        congr 1
        funext res
        by_cases hread : res.1.1 = .ok
        · dsimp only
          rw [if_neg (not_not.mpr hread), if_neg (not_not.mpr hread), Program.bind_assoc,
            Program.bind_assoc]
          congr 1
          funext errCode
          by_cases hdrop : errCode = .ok
          · rw [if_neg (not_not.mpr hdrop), if_neg (not_not.mpr hdrop), Program.bind_assoc,
              Program.bind_assoc]
            congr 1
            funext errCode
            split <;> rfl
          · rw [if_pos hdrop, if_pos hdrop]
            rfl
        · dsimp only
          rw [if_pos hread, if_pos hread]
          rfl
      · rfl

end EnhanceImpl

/-! ### What the observer makes of a task -/

namespace NotifyTask

variable {keys : Finset String} {copy data : PrefMap} {key : String} {value : PreferencesValue}

theorem notifyPreferencesObserver_of_mem (h : key ∈ keys) :
    notifyPreferencesObserver keys key value = [[(key, value)]] :=
  if_pos h

/-- A `Put` or a `Delete`. -/
theorem replay_one (h : key ∈ keys) :
    (one key value).replay keys copy = applyChanges copy [(key, value.recorded)] := by
  show List.foldl _ copy (notifyPreferencesObserver keys key value) = _
  rw [notifyPreferencesObserver_of_mem h]
  rfl

/-- Keys with their values, each in a call of its own. -/
theorem replay_each (keyList : List String) (hkeys : ∀ key ∈ keyList, key ∈ keys)
    (val : String → PreferencesValue) (copy : PrefMap) :
    (keyList.flatMap (fun key => notifyPreferencesObserver keys key (val key))).foldl
        (fun copy records => Records.replay records copy) copy =
      applyChanges copy (keyList.map (fun key => (key, (val key).recorded))) := by
  induction keyList generalizing copy with
  | nil => rfl
  | cons key keyList ih =>
      rw [List.flatMap_cons, notifyPreferencesObserver_of_mem (hkeys key List.mem_cons_self),
        List.foldl_append, ih (fun k hk => hkeys k (List.mem_cons_of_mem _ hk))]
      rfl

/-- A `Clear`. The observer keeps what was cleared. -/
theorem lookup_replay_batch (hkeys : data.keys ⊆ keys)
    (hreal : ∀ key, data.lookup key ≠ some .monostate) (k : String) :
    ((batch data).replay keys copy).lookup k =
      if k ∈ data then data.lookup k else copy.lookup k := by
  have hreplay : (batch data).replay keys copy =
      applyChanges copy ((inOrder data.keys).map
        (fun key => (key, ((data.lookup key).getD .monostate).recorded))) :=
    replay_each _ (fun key hkey => hkeys ((Finset.mem_sort _).mp hkey)) _ _
  rw [hreplay]
  split
  · next hmem =>
    refine lookup_applyChanges_of_mem ?_ ?_
    · intro c hc hk
      obtain ⟨key, hkey, rfl⟩ := List.mem_map.mp hc
      obtain rfl : k = key := hk
      obtain ⟨v, hv⟩ := Finmap.mem_iff.mp hmem
      have hne := hreal k
      rw [hv] at hne
      show ((data.lookup k).getD .monostate).recorded = data.lookup k
      rw [hv]
      exact if_neg (fun hmono => hne (congrArg some hmono))
    · refine ⟨_, List.mem_map_of_mem ((Finset.mem_sort _).mpr (Finmap.mem_keys.mpr hmem)), rfl⟩
  · next hmem =>
    refine lookup_applyChanges_of_notMem ?_
    intro c hc hk
    obtain ⟨key, hkey, rfl⟩ := List.mem_map.mp hc
    obtain rfl : k = key := hk
    exact hmem (Finmap.mem_keys.mp ((Finset.mem_sort _).mp hkey))

end NotifyTask

/-! ### Histories -/

namespace Write

/-- The keys in the store after the call. -/
def present (keys : Finset String) : Write → Finset String
  | .put key _ => insert key keys
  | .delete key => keys.erase key
  | .clear => ∅

/-- The keys that are gone while observers were told a value. -/
def unheard (keys gone : Finset String) : Write → Finset String
  | .put key _ | .delete key => gone.erase key
  | .clear => gone ∪ keys

/-- The keys that a call writes, deletes or clears, where these are present. -/
def touched (keys : Finset String) : Write → Finset String
  | .put key _ | .delete key => {key}
  | .clear => keys

/-- The size of a value is not cut to 32 bits. -/
def Fits : Write → Prop
  | .put _ value => parcelSize value < 2 ^ 32
  | _ => True

end Write

/-- The keys that a `Clear` finds, and that no later `Put` or `Delete` is about. -/
def clearedForGood : Finset String → Finset String → List Write → Finset String
  | _, gone, [] => gone
  | keys, gone, write :: writes =>
      clearedForGood (write.present keys) (write.unheard keys gone) writes

namespace EnhanceImpl

/-- A store on its database, the tasks that are queued, and an observer with a copy. -/
structure Observed where
  impl : EnhanceImpl
  db : Option Collection
  tasks : List NotifyTask
  copy : PrefMap

namespace Observed

/-- The observer has made its copy of a collection with the encodings of `m`. -/
def start (c : Collection) (m : PrefMap) : Observed :=
  { impl := .initial, db := some c, tasks := [], copy := m }

/-- A call that succeeds, where the observer has subscribed to its keys; or the next task. -/
inductive Step (keys : Finset String) : Observed → Option Write → Observed → Prop
  | write {x : Observed} {write : Write} {tr : List (Event KernelAnswer)}
      {tasks : List NotifyTask} {impl : EnhanceImpl} {db : Option Collection} :
      write.Fits → write.touched (contents x.db).keys ⊆ keys →
      Exec mapKernel (x.impl.notifying write) x.db tr (tasks, .ok, impl) db →
      Step keys x (some write) { impl, db, tasks := x.tasks ++ tasks, copy := x.copy }
  | deliver {x : Observed} {task : NotifyTask} {tasks : List NotifyTask} :
      x.tasks = task :: tasks →
      Step keys x none { x with tasks, copy := task.replay keys x.copy }

/-- The copy when all tasks are done. -/
def pending (keys : Finset String) (x : Observed) : PrefMap :=
  x.tasks.foldl (NotifyTask.replay keys) x.copy

end Observed

end EnhanceImpl

/-! ### One call -/

/-- The map after the call. -/
def Write.apply (m : PrefMap) : Write → PrefMap
  | .put key value => m.insert key value
  | .delete key => m.erase key
  | .clear => ∅

/-- The tasks of a call that succeeds. -/
def Write.tasks (m : PrefMap) : Write → List NotifyTask
  | .put key value => [.one key value]
  | .delete key => [.one key .monostate]
  | .clear => if m = ∅ then [] else [.batch m]

theorem Write.keys_apply (m : PrefMap) (write : Write) :
    (write.apply m).keys = write.present m.keys := by
  refine Finset.ext ?_
  intro k
  cases write with
  | put key value =>
      rw [Write.apply, Write.present, Finmap.mem_keys, Finmap.mem_insert, Finset.mem_insert,
        Finmap.mem_keys]
  | delete key =>
      rw [Write.apply, Write.present, Finmap.mem_keys, Finmap.mem_erase, Finset.mem_erase,
        Finmap.mem_keys]
  | clear => exact Finmap.mem_keys

/-- What is read from a database is no monostate. -/
theorem unmarshalling_real (data : Bytes) :
    (unmarshallingPreferenceValue data).2 ≠ .monostate := by
  have hite : ∀ {P : Prop} [Decidable P] {a b : ErrCode × PreferencesValue},
      a.2 ≠ .monostate → b.2 ≠ .monostate → (if P then a else b).2 ≠ .monostate := by
    intro P _ a b ha hb
    split
    · exact ha
    · exact hb
  cases data with
  | nil => exact nofun
  | cons type p =>
      -- one for each type
      exact hite nofun <| hite nofun <| hite nofun <| hite nofun <| hite nofun <| hite nofun <|
        hite nofun <| hite nofun <| hite nofun <| hite nofun <| hite nofun <| hite nofun nofun

theorem marshalling_real {value : PreferencesValue} {oriValue : Bytes}
    (h : marshallingPreferenceValue value = .ok oriValue) : value ≠ .monostate := by
  rintro rfl
  cases h

theorem Decodes.real {c : Collection} {m : PrefMap} (h : Decodes c m) (key : String) :
    m.lookup key ≠ some .monostate := by
  intro hmono
  obtain ⟨oriValue, hc⟩ := h.exists_lookup hmono
  obtain ⟨v, hv, hitem⟩ := h.of_lookup hc
  obtain rfl : PreferencesValue.monostate = v := Option.some.inj (hmono.symm.trans hv)
  exact unmarshalling_real oriValue (by rw [hitem])

/-- A collection has the encodings of one map only. -/
theorem Decodes.unique {c : Collection} {m m' : PrefMap} (h : Decodes c m) (h' : Decodes c m') :
    m = m' := by
  refine Finmap.ext_lookup ?_
  intro key
  cases hc : c.lookup key with
  | none => rw [h.lookup_eq_none hc, h'.lookup_eq_none hc]
  | some oriValue =>
      obtain ⟨v, hv, hitem⟩ := h.of_lookup hc
      obtain ⟨v', hv', hitem'⟩ := h'.of_lookup hc
      rw [hv, hv', (Prod.mk.inj (hitem.symm.trans hitem')).2]

theorem Decodes.keys_eq {c : Collection} {m : PrefMap} (h : Decodes c m) : c.keys = m.keys := by
  refine Finset.ext ?_
  intro key
  rw [Finmap.mem_keys, Finmap.mem_keys]
  constructor
  · intro hmem
    obtain ⟨oriValue, hc⟩ := Finmap.mem_iff.mp hmem
    obtain ⟨v, hv, -⟩ := h.of_lookup hc
    exact Finmap.mem_iff.mpr ⟨v, hv⟩
  · intro hmem
    obtain ⟨v, hv⟩ := Finmap.mem_iff.mp hmem
    exact Finmap.mem_iff.mpr (h.exists_lookup hv)

namespace EnhanceImpl

variable {h : EnhanceImpl} {c : Collection} {m : PrefMap}

/-- The store after a successful call, and its tasks. -/
def Wrote (m : PrefMap) (write : Write) (res : List NotifyTask × ErrCode × EnhanceImpl)
    (db : Option Collection) : Prop :=
  res.2.1 = .ok →
    write.op.Real ∧ res.1 = write.tasks m ∧ res.2.2.isOpen = true ∧
      ∃ c', db = some c' ∧ Decodes c' (write.apply m)

theorem putNotifying_wrote (hopen : h.isOpen = true) (hdec : Decodes c m) (key : String)
    (value : PreferencesValue) (hfits : parcelSize value < 2 ^ 32) :
    (h.putNotifying key value).Ensures mapKernel Eq (Wrote m (.put key value)) (some c) := by
  have hput : (h.put key value).Ensures mapKernel Eq
      (fun res w' => res.1 = .ok → value ≠ .monostate ∧ res.2.isOpen = true ∧
        ∃ c', w' = some c' ∧ Decodes c' (m.insert key value)) (some c) := by
    by_cases hkey : checkKey key = .ok
    · by_cases hval : checkValue value = .ok
      · cases hmarshal : marshallingPreferenceValue value with
        | error errCode =>
            rw [put, if_neg (not_not.mpr hkey), if_neg (not_not.mpr hval), if_pos hopen, hmarshal]
            exact fun hok => absurd hok (marshalling_error hmarshal)
        | ok oriValue =>
            have hitem := unmarshalling_marshalling hmarshal (hfits.trans (by decide))
            refine (put_marshalled hopen hkey hval hmarshal c).mono ?_
            intro res w' hres _
            obtain ⟨-, hopen', hw'⟩ := hres
            exact ⟨marshalling_real hmarshal, hopen', _, hw', hdec.insert hitem⟩
      · rw [put, if_neg (not_not.mpr hkey), if_pos hval]
        exact fun hok => absurd hok hval
    · rw [put, if_pos hkey]
      exact fun hok => absurd hok hkey
  refine hput.bind ?_
  intro res w' hres
  by_cases hok : res.1 = .ok
  · dsimp only
    rw [if_neg (not_not.mpr hok)]
    obtain ⟨hreal, hopen', hdb⟩ := hres hok
    exact fun _ => ⟨hreal, rfl, hopen', hdb⟩
  · dsimp only
    rw [if_pos hok]
    exact fun hok' => absurd hok' hok

theorem deleteNotifying_wrote (hopen : h.isOpen = true) (hdec : Decodes c m) (key : String) :
    (h.deleteNotifying key).Ensures mapKernel Eq (Wrote m (.delete key)) (some c) := by
  have hdelete : (h.delete key).Ensures mapKernel Eq
      (fun res w' => res.1 = .ok → res.2.isOpen = true ∧
        ∃ c', w' = some c' ∧ Decodes c' (m.erase key)) (some c) := by
    rw [delete]
    by_cases hkey : checkKey key = .ok
    · rw [if_neg (not_not.mpr hkey), if_pos hopen]
      refine (PreferencesDb.map_delete key).bind ?_
      intro errCode w' hres
      obtain ⟨hcode, hw'⟩ := hres
      rw [if_neg (not_not.mpr hcode)]
      exact fun _ => ⟨(afterDelete_isOpen h key).trans hopen, _, hw', hdec.erase⟩
    · rw [if_pos hkey]
      exact fun hok => absurd hok hkey
  refine hdelete.bind ?_
  intro res w' hres
  by_cases hok : res.1 = .ok
  · dsimp only
    rw [if_neg (not_not.mpr hok)]
    obtain ⟨hopen', hdb⟩ := hres hok
    exact fun _ => ⟨trivial, rfl, hopen', hdb⟩
  · dsimp only
    rw [if_pos hok]
    exact fun hok' => absurd hok' hok

theorem clearNotifying_wrote (hopen : h.isOpen = true) (hdec : Decodes c m) :
    h.clearNotifying.Ensures mapKernel Eq (fun res db => res.2.1 = .ok ∧ Wrote m .clear res db)
      (some c) := by
  rw [clearNotifying, if_pos hopen]
  refine (getAllInner_decodes hopen hdec).bind ?_
  intro ⟨res, h'⟩ w' ⟨hw', hopen', hres⟩
  obtain rfl : w' = some c := hw'
  obtain rfl : res = (ErrCode.ok, m) := hres
  dsimp only
  rw [if_neg (by simp)]
  rintro _ r w₂ rfl (⟨-, rfl, rfl⟩ | ⟨hnone, -⟩)
  · rintro _ r w₃ rfl ⟨rfl, rfl⟩
    exact ⟨rfl, fun _ => ⟨trivial, rfl, hopen', ∅, rfl, decodes_empty⟩⟩
  · exact absurd hnone (by simp)

theorem notifying_wrote (hopen : h.isOpen = true) (hdec : Decodes c m) {write : Write}
    (hfits : write.Fits) :
    (h.notifying write).Ensures mapKernel Eq (Wrote m write) (some c) := by
  cases write with
  | put key value => exact putNotifying_wrote hopen hdec key value hfits
  | delete key => exact deleteNotifying_wrote hopen hdec key
  | clear => exact (clearNotifying_wrote hopen hdec).mono (fun _ _ hres => hres.2)

/-! ### What holds after every step -/

namespace Observed

variable {keys gone : Finset String} {x y : Observed} {l : Option Write}

/-- Once the tasks are done the observer has the map, and has the keys in `gone` on top. -/
structure Lags (keys : Finset String) (m : PrefMap) (gone : Finset String) (x : Observed) :
    Prop where
  isOpen : x.impl.isOpen = true
  db : ∃ c, x.db = some c ∧ Decodes c m
  same : ∀ k, k ∉ gone → (x.pending keys).lookup k = m.lookup k
  more : ∀ k ∈ gone, m.lookup k = none ∧ (x.pending keys).lookup k ≠ none

theorem pending_write {impl : EnhanceImpl} {db : Option Collection} {tasks : List NotifyTask} :
    pending keys { impl, db, tasks := x.tasks ++ tasks, copy := x.copy } =
      tasks.foldl (NotifyTask.replay keys) (x.pending keys) :=
  List.foldl_append

/-- A key that is gone is told of again. -/
theorem lookup_tasks (copy : PrefMap) {write : Write} (hreal : write.op.Real)
    (hmap : ∀ key, m.lookup key ≠ some .monostate) (hsub : write.touched m.keys ⊆ keys)
    (k : String) :
    ((write.tasks m).foldl (NotifyTask.replay keys) copy).lookup k =
      match write with
      | .put key value => if k = key then some value else copy.lookup k
      | .delete key => if k = key then none else copy.lookup k
      | .clear => if k ∈ m then m.lookup k else copy.lookup k := by
  cases write with
  | put key value =>
      show ((NotifyTask.one key value).replay keys copy).lookup k = _
      rw [NotifyTask.replay_one (Finset.singleton_subset_iff.mp hsub), lookup_applyChanges_one]
      have hrecorded : value.recorded = some value := if_neg hreal
      rw [hrecorded]
  | delete key =>
      show ((NotifyTask.one key .monostate).replay keys copy).lookup k = _
      rw [NotifyTask.replay_one (Finset.singleton_subset_iff.mp hsub), lookup_applyChanges_one]
      rfl
  | clear =>
      by_cases hempty : m = ∅
      · have hnone : Write.tasks m .clear = [] := if_pos hempty
        rw [hnone]
        dsimp only
        rw [if_neg (by rw [hempty]; exact Finmap.notMem_empty)]
        rfl
      · have hbatch : Write.tasks m .clear = [.batch m] := if_neg hempty
        rw [hbatch]
        exact NotifyTask.lookup_replay_batch hsub hmap k

theorem Lags.write (hx : x.Lags keys m gone) {write : Write} {tr : List (Event KernelAnswer)}
    {tasks : List NotifyTask} {impl : EnhanceImpl} {db : Option Collection}
    (hfits : write.Fits) (hsub : write.touched (contents x.db).keys ⊆ keys)
    (hexec : Exec mapKernel (x.impl.notifying write) x.db tr (tasks, .ok, impl) db) :
    Lags keys (write.apply m) (write.unheard m.keys gone)
      { impl, db, tasks := x.tasks ++ tasks, copy := x.copy } := by
  obtain ⟨c, hdb, hdec⟩ := hx.db
  rw [hdb] at hexec hsub
  have hkeys : (contents (some c)).keys = m.keys := hdec.keys_eq
  rw [hkeys] at hsub
  obtain ⟨hreal, htasks, hopen, hdb'⟩ := hexec.ensures (notifying_wrote hx.isOpen hdec hfits) rfl
  obtain rfl : tasks = write.tasks m := htasks
  have hlookup := lookup_tasks (x.pending keys) hreal hdec.real hsub
  refine ⟨hopen, hdb', ?_, ?_⟩
  · intro k hk
    rw [pending_write, hlookup]
    cases write with
    | put key value =>
        dsimp only [Write.apply]
        by_cases heq : k = key
        · rw [if_pos heq, heq, Finmap.lookup_insert]
        · rw [if_neg heq, Finmap.lookup_insert_of_ne _ heq]
          exact hx.same k (fun hin => hk (Finset.mem_erase.mpr ⟨heq, hin⟩))
    | delete key =>
        dsimp only [Write.apply]
        by_cases heq : k = key
        · rw [if_pos heq, heq, Finmap.lookup_erase]
        · rw [if_neg heq, Finmap.lookup_erase_ne heq]
          exact hx.same k (fun hin => hk (Finset.mem_erase.mpr ⟨heq, hin⟩))
    | clear =>
        -- neither was it there, nor had it gone before
        have hgone : k ∉ gone := fun hin => hk (Finset.mem_union_left _ hin)
        have hmem : k ∉ m := fun hin => hk (Finset.mem_union_right _ (Finmap.mem_keys.mpr hin))
        dsimp only [Write.apply]
        rw [if_neg hmem, hx.same k hgone, Finmap.lookup_eq_none.mpr hmem, Finmap.lookup_empty]
  · intro k hk
    rw [pending_write, hlookup]
    cases write with
    | put key value =>
        obtain ⟨hne, hin⟩ := Finset.mem_erase.mp hk
        dsimp only [Write.apply]
        rw [Finmap.lookup_insert_of_ne _ hne, if_neg hne]
        exact hx.more k hin
    | delete key =>
        obtain ⟨hne, hin⟩ := Finset.mem_erase.mp hk
        dsimp only [Write.apply]
        rw [Finmap.lookup_erase_ne hne, if_neg hne]
        exact hx.more k hin
    | clear =>
        dsimp only [Write.apply]
        refine ⟨Finmap.lookup_empty k, ?_⟩
        split
        · next hmem => exact fun hnone => Finmap.lookup_eq_none.mp hnone hmem
        · next hmem =>
          obtain hin | hin := Finset.mem_union.mp hk
          · exact (hx.more k hin).2
          · exact absurd (Finmap.mem_keys.mp hin) hmem

/-- A task that is done. -/
theorem Lags.deliver (hx : x.Lags keys m gone) {task : NotifyTask} {tasks : List NotifyTask}
    (htasks : x.tasks = task :: tasks) :
    Lags keys m gone { x with tasks, copy := task.replay keys x.copy } := by
  have hpending : pending keys { x with tasks, copy := task.replay keys x.copy } =
      x.pending keys := by
    rw [pending, pending, htasks]
    rfl
  refine ⟨hx.isOpen, hx.db, ?_, ?_⟩
  · rw [hpending]
    exact hx.same
  · rw [hpending]
    exact hx.more

theorem Lags.run {ls : List (Option Write)} (hx : x.Lags keys m gone)
    (hrun : Run (Step keys) x ls y) :
    ∃ m', y.Lags keys m' (clearedForGood m.keys gone (ls.filterMap id)) := by
  induction hrun generalizing m gone with
  | nil => exact ⟨m, hx⟩
  | cons hstep _ ih =>
      cases hstep with
      | write hfits hsub hexec =>
          obtain ⟨m', hy⟩ := ih (hx.write hfits hsub hexec)
          rw [Write.keys_apply] at hy
          exact ⟨m', hy⟩
      | deliver htasks => exact ih (hx.deliver htasks)

/-- The observer has the map if it has nothing on top. -/
theorem Lags.copy_eq_iff (hx : x.Lags keys m gone) (hdone : x.tasks = []) :
    x.copy = m ↔ gone = ∅ := by
  have hpending : x.pending keys = x.copy := by
    rw [pending, hdone]
    rfl
  constructor
  · intro hcopy
    refine Finset.eq_empty_of_forall_notMem ?_
    intro k hk
    obtain ⟨hnone, hsome⟩ := hx.more k hk
    rw [hpending, hcopy] at hsome
    exact hsome hnone
  · intro hnone
    refine Finmap.ext_lookup ?_
    intro k
    rw [← hpending]
    exact hx.same k (by rw [hnone]; exact Finset.notMem_empty k)

end Observed

/-! ### The result -/

namespace Observed

variable {keys gone : Finset String} {x : Observed}

theorem lags_start {c : Collection} {m : PrefMap} (hdec : Decodes c m) (keys : Finset String) :
    (Observed.start c m).Lags keys m ∅ :=
  ⟨rfl, ⟨c, rfl, hdec⟩, fun _ _ => rfl, fun k hk => absurd hk (Finset.notMem_empty k)⟩

/-- A kernel that works lets a call succeed. -/
theorem Lags.exists_write (hx : x.Lags keys m gone) {write : Write} (hfits : write.Fits)
    (hsub : write.touched m.keys ⊆ keys)
    (hok : ∀ c, Decodes c m →
      (x.impl.notifying write).Ensures mapKernel Eq (fun res _ => res.2.1 = .ok) (some c)) :
    ∃ y, Step keys x (some write) y := by
  obtain ⟨c, hdb, hdec⟩ := hx.db
  have hkeys : (contents x.db).keys = m.keys := by
    rw [hdb]
    exact hdec.keys_eq
  obtain ⟨tr, ⟨tasks, code, impl⟩, db, hexec⟩ :=
    exists_exec mapKernel_total (x.impl.notifying write) x.db
  have hcode : code = .ok := by
    rw [hdb] at hexec
    exact hexec.ensures (hok c hdec)
  rw [hcode] at hexec
  exact ⟨_, .write hfits (by rw [hkeys]; exact hsub) hexec⟩

theorem Lags.exists_clear (hx : x.Lags keys m gone) (hsub : m.keys ⊆ keys) :
    ∃ y, Step keys x (some .clear) y := by
  refine hx.exists_write trivial hsub ?_
  intro c hdec
  exact (clearNotifying_wrote hx.isOpen hdec).mono (fun _ _ hres => hres.1)

/-- The tasks can all be done. -/
theorem exists_delivered (keys : Finset String) (x : Observed) :
    ∃ ls y, Run (Step keys) x ls y ∧ y.tasks = [] ∧ ls.filterMap id = [] := by
  obtain ⟨impl, db, tasks, copy⟩ := x
  induction tasks generalizing copy with
  | nil => exact ⟨[], _, .nil, rfl, rfl⟩
  | cons task tasks ih =>
      obtain ⟨ls, y, hrun, hdone, hnone⟩ := ih (task.replay keys copy)
      exact ⟨none :: ls, y, .cons (.deliver rfl) hrun, hdone, hnone⟩

end Observed

/-- **An observer who replays the records has the map** once all tasks are done, if and only if
each key that a `Clear` found was put or deleted later on. -/
theorem observer_replays_iff {c : Collection} {m : PrefMap} (hdec : Decodes c m)
    {keys : Finset String} {ls : List (Option Write)} {x : Observed}
    (hrun : Run (Observed.Step keys) (.start c m) ls x) (hdone : x.tasks = []) :
    (∃ c', x.db = some c' ∧ Decodes c' x.copy) ↔
      clearedForGood m.keys ∅ (ls.filterMap id) = ∅ := by
  obtain ⟨m', hlags⟩ := (Observed.lags_start hdec keys).run hrun
  obtain ⟨c', hdb, hdec'⟩ := hlags.db
  rw [← hlags.copy_eq_iff hdone]
  constructor
  · intro ⟨c'', hdb', hcopy⟩
    obtain rfl : c' = c'' := Option.some.inj (hdb.symm.trans hdb')
    exact hcopy.unique hdec'
  · intro hcopy
    rw [hcopy]
    exact ⟨c', hdb, hdec'⟩

/-- A collection with one number. -/
def oneNumber : Collection := Finmap.singleton "a" (1 :: bytesOf 4 1)

theorem decodes_oneNumber : Decodes oneNumber (Finmap.singleton "a" (.int 1)) := by
  intro key
  by_cases hkey : key = "a"
  · rw [hkey]
    exact .some (by decide)
  · rw [oneNumber, Finmap.lookup_eq_none.mpr (by rwa [Finmap.mem_singleton]),
      Finmap.lookup_eq_none.mpr (by rwa [Finmap.mem_singleton])]
    exact .none

/-- A `Clear`, and its task. -/
theorem run_clear :
    ∃ ls x, Run (Observed.Step {"a"}) (.start oneNumber (Finmap.singleton "a" (.int 1))) ls x ∧
      x.tasks = [] ∧ ls.filterMap id = [.clear] := by
  have hstart := Observed.lags_start decodes_oneNumber {"a"}
  obtain ⟨y, hstep⟩ := hstart.exists_clear (by decide)
  obtain ⟨ls, x, hrun, hdone, hls⟩ := Observed.exists_delivered {"a"} y
  exact ⟨some .clear :: ls, x, .cons hstep hrun, hdone, congrArg (Write.clear :: ·) hls⟩

theorem observer_replays_iff_clear :
    ∃ x : Observed, x.tasks = [] ∧ ((∃ c', x.db = some c' ∧ Decodes c' x.copy) ↔
      clearedForGood {"a"} ∅ [.clear] = ∅) := by
  obtain ⟨ls, x, hrun, hdone, hls⟩ := run_clear
  have hiff := observer_replays_iff decodes_oneNumber hrun hdone
  rw [hls] at hiff
  exact ⟨x, hdone, hiff⟩

/-- The observer still has the number that was cleared. -/
theorem observer_keeps_cleared :
    ¬ ∀ (c : Collection) (m : PrefMap) (keys : Finset String) (ls : List (Option Write))
      (x : Observed), Decodes c m → Run (Observed.Step keys) (.start c m) ls x → x.tasks = [] →
        ∃ c', x.db = some c' ∧ Decodes c' x.copy := by
  intro hclaim
  obtain ⟨ls, x, hrun, hdone, hls⟩ := run_clear
  obtain ⟨m', hlags⟩ := (Observed.lags_start decodes_oneNumber {"a"}).run hrun
  rw [hls] at hlags
  obtain ⟨c', hdb, hcopy⟩ := hclaim _ _ _ _ _ decodes_oneNumber hrun hdone
  obtain ⟨c'', hdb', hdec⟩ := hlags.db
  obtain rfl : c' = c'' := Option.some.inj (hdb.symm.trans hdb')
  have hgone := (hlags.copy_eq_iff hdone).mp (hcopy.unique hdec)
  exact absurd hgone (by decide)

end EnhanceImpl

end NativePreferences
