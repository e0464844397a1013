import NativePreferences.Impl.Observers
import NativePreferences.Ndk.Convertor

/-!
# NativePreferences.Ndk.DataObservers

**Data observers of the C interface** (`RegisterDataObserver` and `UnregisterDataObserver` of
`OH_PreferencesImpl`). An observer is a function with a context. Every registration makes an
object of its own, and the map of the store has the keys of each object.

To unregister, a loop goes through the objects of the pair from the last to the first. It stops at
an object that has keys left: `UnRegisterDataObserver` returns `E_OBSERVER_RESERVE` there, which is
not `E_OK`, and the caller is told `PREFERENCES_OK`. The objects before that one keep their keys.
So the pair is unsubscribed if and only if no object that still has one of the keys stands before
an object that keeps others (`unregisterDataObserver_iff`).
-/

namespace NativePreferences

open OHConvertor

/-- `NDKPreferencesObserver`, as an object. -/
structure NDKPreferencesObserver (φ γ : Type) where
  id : Nat
  dataObserver : Option φ
  context : γ
  deriving DecidableEq

/-- The observers of an `OH_PreferencesImpl`, and the map of the store that it holds. -/
structure DataObservers (φ γ : Type) where
  dataObservers : List (NDKPreferencesObserver φ γ × γ)
  dataObserversMap : DataObserverMap (NDKPreferencesObserver φ γ)
  /-- The number of the next object. -/
  nextId : Nat

variable {φ γ : Type}

namespace NDKPreferencesObserver

/-- `OnChange` with records. -/
def onChange (o : NDKPreferencesObserver φ γ) (records : Records) : Option (φ × γ × Records) :=
  match o.dataObserver with
  | none => none
  | some dataObserver => if records = [] then none else some (dataObserver, o.context, records)

variable [DecidableEq φ]

/-- `ObserverCompare`. -/
def observerCompare (o : NDKPreferencesObserver φ γ) (other : Option φ) : Bool :=
  match other with
  | none => false
  | some _ => other == o.dataObserver

end NDKPreferencesObserver

variable [DecidableEq φ] [DecidableEq γ]

namespace DataObservers

/-- Nobody has registered. -/
def initial : DataObservers φ γ := ⟨[], ∅, 0⟩

/-- `RegisterDataObserver`. -/
def registerDataObserver (s : DataObservers φ γ) (observer : Option φ) (context : γ)
    (keys : List String) : NdkErrCode × DataObservers φ γ :=
  let ndkObserver : NDKPreferencesObserver φ γ := ⟨s.nextId, observer, context⟩
  let (errCode, dataObserversMap) := s.dataObserversMap.registerDataObserver ndkObserver keys
  (nativeErrToNdk errCode,
    { dataObservers :=
        if errCode ≠ eOk then s.dataObservers else s.dataObservers ++ [(ndkObserver, context)]
      dataObserversMap
      nextId := s.nextId + 1 })

/-- The entry is one of the pair. -/
def found (observer : Option φ) (context : γ) (entry : NDKPreferencesObserver φ γ × γ) : Bool :=
  entry.1.observerCompare observer && entry.2 == context

/-- The loop of `UnregisterDataObserver`, which has the positions below `i` before it. -/
def unregisterLoop (observer : Option φ) (context : γ) (keys : List String) :
    Nat → DataObservers φ γ → NdkErrCode × DataObservers φ γ
  | 0, s => (.ok, s)
  | i + 1, s =>
      match s.dataObservers[i]? with
      | none => unregisterLoop observer context keys i s
      | some entry =>
          if !found observer context entry then unregisterLoop observer context keys i s
          else
            let (errCode, dataObserversMap) :=
              s.dataObserversMap.unRegisterDataObserver entry.1 keys
            let s := { s with dataObserversMap }
            if errCode ≠ eOk then (nativeErrToNdk errCode, s)
            else
              unregisterLoop observer context keys i
                (if keys = [] then { s with dataObservers := s.dataObservers.eraseIdx i } else s)

/-- `static_cast<int>(dataObservers_.size())`: the loop starts below it. -/
def intSize (s : DataObservers φ γ) : Nat := ((s.dataObservers.length : Int).bmod (2 ^ 32)).toNat

/-- `UnregisterDataObserver`. -/
def unregisterDataObserver (s : DataObservers φ γ) (observer : Option φ) (context : γ)
    (keys : List String) : NdkErrCode × DataObservers φ γ :=
  if s.dataObservers = [] then (.ok, s) else unregisterLoop observer context keys s.intSize s

/-- The keys that the store has for an object. -/
def keysOf (s : DataObservers φ γ) (o : NDKPreferencesObserver φ γ) : Finset String :=
  s.dataObserversMap.keysOf o

/-- The change calls the function with the context, and the key is among the pairs it gets. The
objects of the list are those that still exist. -/
def Called (s : DataObservers φ γ) (n : Notice) (observer : Option φ) (context : γ)
    (key : String) : Prop :=
  ∃ entry ∈ s.dataObservers, ∃ records, n.onChange (s.keysOf entry.1) = some records ∧
    ∃ dataObserver told, entry.1.onChange records = some (dataObserver, context, told) ∧
      observer = some dataObserver ∧ key ∈ told.map Prod.fst

end DataObservers

/-- A call of one of the two. -/
inductive DataObserverEvent (φ γ : Type)
  | register (observer : Option φ) (context : γ) (keys : List String)
  | unregister (observer : Option φ) (context : γ) (keys : List String)

/-- The call registers the pair. -/
def DataObserverEvent.Registers (observer : Option φ) (context : γ) :
    DataObserverEvent φ γ → Prop
  | .register observer' context' _ => observer' = observer ∧ context' = context
  | .unregister _ _ _ => False

namespace DataObservers

/-- One call. -/
def step (s : DataObservers φ γ) : DataObserverEvent φ γ → DataObservers φ γ
  | .register observer context keys => (s.registerDataObserver observer context keys).2
  | .unregister observer context keys => (s.unregisterDataObserver observer context keys).2

/-- A history of calls. -/
def run (s : DataObservers φ γ) (history : List (DataObserverEvent φ γ)) : DataObservers φ γ :=
  history.foldl step s

variable {s : DataObservers φ γ} {observer : Option φ} {context : γ} {keys : List String}
variable {o : NDKPreferencesObserver φ γ} {entry : NDKPreferencesObserver φ γ × γ} {n : Nat}

/-! ### One round of the loop -/

/-- The entry at position `n` has lost the keys. It may be gone if nothing is left. -/
structure Round (keys : List String) (n : Nat) (s : DataObservers φ γ)
    (entry : NDKPreferencesObserver φ γ × γ) (s' : DataObservers φ γ) : Prop where
  keysOf : ∀ o, s'.keysOf o =
    if o = entry.1 then DataObserverMap.left (s.keysOf entry.1) keys else s.keysOf o
  sublist : s'.dataObservers.Sublist s.dataObservers
  take : s'.dataObservers.take n = s.dataObservers.take n
  kept : ∀ e ∈ s.dataObservers, e ∈ s'.dataObservers ∨
    e = entry ∧ DataObserverMap.left (s.keysOf entry.1) keys = ∅
  nextId : s'.nextId = s.nextId

/-- The store without the keys of the object. -/
def strip (s : DataObservers φ γ) (keys : List String)
    (entry : NDKPreferencesObserver φ γ × γ) : DataObservers φ γ :=
  { s with dataObserversMap := (s.dataObserversMap.unRegisterDataObserver entry.1 keys).2 }

theorem keysOf_strip (s : DataObservers φ γ) (keys : List String)
    (entry : NDKPreferencesObserver φ γ × γ) (o : NDKPreferencesObserver φ γ) :
    (s.strip keys entry).keysOf o =
      if o = entry.1 then DataObserverMap.left (s.keysOf entry.1) keys else s.keysOf o := by
  refine (DataObserverCall.keysOf_perform _ (.unRegister entry.1 keys) o).trans ?_
  by_cases heq : o = entry.1
  · rw [if_pos heq, heq]
    exact if_pos rfl
  · rw [if_neg heq]
    exact if_neg (Ne.symm heq)

theorem Round.strip (n : Nat) (s : DataObservers φ γ) (keys : List String)
    (entry : NDKPreferencesObserver φ γ × γ) : Round keys n s entry (s.strip keys entry) :=
  ⟨keysOf_strip s keys entry, List.Sublist.refl _, rfl, fun _ he => .inl he, rfl⟩

theorem Round.eraseIdx (hget : s.dataObservers[n]? = some entry)
    (hleft : DataObserverMap.left (s.keysOf entry.1) keys = ∅) :
    Round keys n s entry
      { s.strip keys entry with dataObservers := s.dataObservers.eraseIdx n } where
  keysOf := keysOf_strip s keys entry
  sublist := List.eraseIdx_sublist _ _
  take := by
    have hlt : n < s.dataObservers.length := (List.getElem?_eq_some_iff.mp hget).1
    have hlen : n ≤ (s.dataObservers.take n).length := by
      rw [List.length_take]
      omega
    show (s.dataObservers.eraseIdx n).take n = _
    rw [List.eraseIdx_eq_take_drop_succ, List.take_append_of_le_length hlen, List.take_take,
      min_self]
  kept e he := by
    by_cases heq : e = entry
    · exact .inr ⟨heq, hleft⟩
    · obtain ⟨i, hi⟩ := List.getElem?_of_mem he
      refine .inl (List.mem_eraseIdx_iff_getElem?.mpr ⟨i, ?_, hi⟩)
      intro hin
      rw [hin, hget] at hi
      exact heq (Option.some.inj hi).symm
  nextId := rfl

/-- What the loop does with the entry at position `n`: nothing, if it is not one of the pair. Else
there is a round, and the loop goes on if it has left nothing. -/
theorem unregisterLoop_succ (observer : Option φ) (context : γ) (keys : List String) (n : Nat)
    (s : DataObservers φ γ) :
    (unregisterLoop observer context keys (n + 1) s = unregisterLoop observer context keys n s ∧
      (s.dataObservers.take (n + 1)).filter (found observer context) =
        (s.dataObservers.take n).filter (found observer context)) ∨
    ∃ entry s', s.dataObservers.take (n + 1) = s.dataObservers.take n ++ [entry] ∧
      found observer context entry = true ∧ Round keys n s entry s' ∧
      (DataObserverMap.left (s.keysOf entry.1) keys ≠ ∅ ∧
          unregisterLoop observer context keys (n + 1) s = (.ok, s') ∨
        DataObserverMap.left (s.keysOf entry.1) keys = ∅ ∧
          unregisterLoop observer context keys (n + 1) s =
            unregisterLoop observer context keys n s') := by
  cases hget : s.dataObservers[n]? with
  | none =>
      refine .inl ⟨by rw [unregisterLoop, hget], ?_⟩
      rw [List.take_add_one, hget, Option.toList_none, List.append_nil]
  | some entry =>
      have htake : s.dataObservers.take (n + 1) = s.dataObservers.take n ++ [entry] := by
        rw [List.take_add_one, hget, Option.toList_some]
      by_cases hfound : found observer context entry = true
      · have hcode : (s.dataObserversMap.unRegisterDataObserver entry.1 keys).1 =
            if DataObserverMap.left (s.keysOf entry.1) keys = ∅ then eOk else eObserverReserve :=
          DataObserverMap.unRegisterDataObserver_code s.dataObserversMap entry.1 keys
        rw [unregisterLoop, hget]
        simp only [hfound, Bool.not_true, Bool.false_eq_true, if_false]
        by_cases hleft : DataObserverMap.left (s.keysOf entry.1) keys = ∅
        · rw [hcode, if_pos hleft, if_neg (not_not.mpr rfl)]
          by_cases hall : keys = []
          · -- Only here does the entry go as well.
            rw [if_pos hall]
            exact .inr ⟨entry, _, htake, hfound, .eraseIdx hget hleft, .inr ⟨hleft, rfl⟩⟩
          · rw [if_neg hall]
            exact .inr ⟨entry, _, htake, hfound, .strip n s keys entry, .inr ⟨hleft, rfl⟩⟩
        · -- `E_OBSERVER_RESERVE` ends the loop and is `PREFERENCES_OK` to the caller.
          rw [hcode, if_neg hleft, if_pos (by decide), nativeErrToNdk_reserve]
          exact .inr ⟨entry, _, htake, hfound, .strip n s keys entry, .inl ⟨hleft, rfl⟩⟩
      · refine .inl ⟨by rw [unregisterLoop, hget]; simp [hfound], ?_⟩
        rw [htake, List.filter_append, List.filter_cons_of_neg hfound, List.filter_nil,
          List.append_nil]

/-! ### The whole loop -/

theorem Round.keysOf_subset {s' : DataObservers φ γ} (h : Round keys n s entry s') :
    s'.keysOf o ⊆ s.keysOf o := by
  rw [h.keysOf]
  split
  · next heq =>
    rw [heq, DataObserverMap.left]
    split
    · exact Finset.empty_subset _
    · exact Finset.sdiff_subset
  · exact Finset.Subset.refl _

/-- The loop takes keys and entries away, from objects of the pair before position `n` only, and
an entry that goes has no keys left. The caller is told `PREFERENCES_OK`. -/
structure Pruned (observer : Option φ) (context : γ) (n : Nat) (s s' : DataObservers φ γ) :
    Prop where
  subset : ∀ o, s'.keysOf o ⊆ s.keysOf o
  frame : ∀ o, (∀ e ∈ (s.dataObservers.take n).filter (found observer context), e.1 ≠ o) →
    s'.keysOf o = s.keysOf o
  sublist : s'.dataObservers.Sublist s.dataObservers
  kept : ∀ e ∈ s.dataObservers, e ∈ s'.dataObservers ∨ s'.keysOf e.1 = ∅
  nextId : s'.nextId = s.nextId

theorem Pruned.refl (observer : Option φ) (context : γ) (n : Nat) (s : DataObservers φ γ) :
    Pruned observer context n s s :=
  ⟨fun _ => Finset.Subset.refl _, fun _ _ => rfl, List.Sublist.refl _, fun _ he => .inl he, rfl⟩

theorem Round.pruned {s' : DataObservers φ γ} (h : Round keys n s entry s')
    (htake : s.dataObservers.take (n + 1) = s.dataObservers.take n ++ [entry])
    (hfound : found observer context entry = true) : Pruned observer context (n + 1) s s' where
  subset _ := h.keysOf_subset
  frame o hother := by
    rw [h.keysOf, if_neg]
    rintro rfl
    refine hother entry ?_ rfl
    rw [htake]
    exact List.mem_filter.mpr ⟨List.mem_append_right _ List.mem_cons_self, hfound⟩
  sublist := h.sublist
  kept e he := by
    obtain hin | ⟨rfl, hleft⟩ := h.kept e he
    · exact .inl hin
    · exact .inr (by rw [h.keysOf, if_pos rfl, hleft])
  nextId := h.nextId

theorem unregisterLoop_spec (observer : Option φ) (context : γ) (keys : List String) (n : Nat)
    (s : DataObservers φ γ) :
    (unregisterLoop observer context keys n s).1 = .ok ∧
      Pruned observer context n s (unregisterLoop observer context keys n s).2 := by
  induction n generalizing s with
  | zero => exact ⟨rfl, .refl _ _ _ _⟩
  | succ n ih =>
      obtain ⟨hloop, hfilter⟩ | ⟨entry, s₁, htake, hfound, hround, hrest⟩ :=
        unregisterLoop_succ observer context keys n s
      · rw [hloop]
        obtain ⟨hok, hpruned⟩ := ih s
        exact ⟨hok, { hpruned with frame := by rw [hfilter]; exact hpruned.frame }⟩
      · have hfirst := hround.pruned htake hfound
        obtain ⟨-, hloop⟩ | ⟨-, hloop⟩ := hrest
        · rw [hloop]
          exact ⟨rfl, hfirst⟩
        · rw [hloop]
          obtain ⟨hok, hpruned⟩ := ih s₁
          refine ⟨hok, fun o => (hpruned.subset o).trans (hfirst.subset o), ?_,
            hpruned.sublist.trans hfirst.sublist, ?_, hpruned.nextId.trans hfirst.nextId⟩
          · intro o hother
            rw [← hfirst.frame o hother]
            refine hpruned.frame o ?_
            rw [hround.take]
            intro e he
            refine hother e ?_
            rw [htake, List.filter_append]
            exact List.mem_append_left _ he
          · intro e he
            obtain hin | hempty := hfirst.kept e he
            · exact hpruned.kept e hin
            · exact .inr (Finset.subset_empty.mp (hempty ▸ hpruned.subset e.1))

/-! ### What is left of the pair -/

/-- None of the keys is in the set; if there are no keys, nothing is. -/
def Clear (keys : List String) (callKeys : Finset String) : Prop :=
  ∀ key ∈ callKeys, keys ≠ [] ∧ key ∉ keys

theorem clear_empty (keys : List String) : Clear keys ∅ :=
  fun _ hkey => absurd hkey (Finset.notMem_empty _)

theorem clear_left (callKeys : Finset String) (keys : List String) :
    Clear keys (DataObserverMap.left callKeys keys) := by
  intro key hkey
  rw [DataObserverMap.left] at hkey
  split at hkey
  · exact absurd hkey (Finset.notMem_empty _)
  · next hsome => exact ⟨hsome, fun hin => (Finset.mem_sdiff.mp hkey).2 (List.mem_toFinset.mpr hin)⟩

/-- The key sets of the objects of the pair, in the order of their registration. -/
def callKeys (s : DataObservers φ γ) (observer : Option φ) (context : γ)
    (entries : List (NDKPreferencesObserver φ γ × γ)) : List (Finset String) :=
  (entries.filter (found observer context)).map (fun entry => s.keysOf entry.1)

/-- The loop gets past the later object, or has nothing to do at the earlier one. -/
def Passes (keys : List String) (earlier later : Finset String) : Prop :=
  DataObserverMap.left later keys = ∅ ∨ Clear keys earlier

/-- An object that keeps something stops the loop, so all earlier ones must be clear. -/
theorem pairwise_snoc_of_left_ne {earlier : List (Finset String)} {last : Finset String}
    (hleft : DataObserverMap.left last keys ≠ ∅) :
    (earlier ++ [last]).Pairwise (Passes keys) ↔ ∀ callKeys ∈ earlier, Clear keys callKeys := by
  rw [List.pairwise_append]
  constructor
  · intro ⟨_, _, hcross⟩ callKeys hmem
    exact (hcross callKeys hmem last List.mem_cons_self).resolve_left hleft
  · intro hclear
    refine ⟨?_, List.pairwise_singleton _ _, fun callKeys hmem _ _ => .inr (hclear callKeys hmem)⟩
    exact List.Pairwise.imp_of_mem (fun hmem _ _ => .inr (hclear _ hmem))
      (List.pairwise_of_forall (fun _ _ => trivial))

/-- An object that keeps nothing does not matter. -/
theorem pairwise_snoc_of_left_eq {earlier : List (Finset String)} {last : Finset String}
    (hleft : DataObserverMap.left last keys = ∅) :
    (earlier ++ [last]).Pairwise (Passes keys) ↔ earlier.Pairwise (Passes keys) := by
  rw [List.pairwise_append]
  constructor
  · exact fun h => h.1
  · intro hpairs
    refine ⟨hpairs, List.pairwise_singleton _ _, ?_⟩
    intro _ _ later hlater
    obtain rfl := List.mem_singleton.mp hlater
    exact .inl hleft

/-- The other objects are other objects. -/
theorem Round.keysOf_before {s' : DataObservers φ γ} (h : Round keys n s entry s')
    (htake : s.dataObservers.take (n + 1) = s.dataObservers.take n ++ [entry])
    (hnodup : (s.dataObservers.map Prod.fst).Nodup) :
    ∀ e ∈ s.dataObservers.take n, s'.keysOf e.1 = s.keysOf e.1 := by
  intro e he
  rw [h.keysOf, if_neg]
  intro heq
  have hprefix : ((s.dataObservers.take n ++ [entry]).map Prod.fst).Nodup := by
    rw [← htake]
    exact hnodup.sublist ((List.take_sublist _ _).map _)
  rw [List.map_append, List.nodup_append] at hprefix
  exact hprefix.2.2 e.1 (List.mem_map_of_mem he) entry.1 List.mem_cons_self heq

/-- **What the loop leaves of the pair.** Its objects before position `n` are clear of the keys if
and only if the loop gets past each of them that stands behind one with a key. -/
theorem unregisterLoop_clear_iff (observer : Option φ) (context : γ) (keys : List String) (n : Nat)
    {s : DataObservers φ γ} (hnodup : (s.dataObservers.map Prod.fst).Nodup) :
    (∀ e ∈ (s.dataObservers.take n).filter (found observer context),
        Clear keys ((unregisterLoop observer context keys n s).2.keysOf e.1)) ↔
      (s.callKeys observer context (s.dataObservers.take n)).Pairwise (Passes keys) := by
  induction n generalizing s with
  | zero => simp [callKeys]
  | succ n ih =>
      obtain ⟨hloop, hfilter⟩ | ⟨entry, s₁, htake, hfound, hround, hrest⟩ :=
        unregisterLoop_succ observer context keys n s
      · rw [hloop, callKeys, hfilter]
        exact ih hnodup
      · have hfilter : (s.dataObservers.take (n + 1)).filter (found observer context) =
            (s.dataObservers.take n).filter (found observer context) ++ [entry] := by
          rw [htake, List.filter_append, List.filter_cons_of_pos hfound, List.filter_nil]
        have hsame : ∀ e ∈ (s.dataObservers.take n).filter (found observer context),
            s₁.keysOf e.1 = s.keysOf e.1 :=
          fun e he => hround.keysOf_before htake hnodup e (List.mem_filter.mp he).1
        have hown : s₁.keysOf entry.1 = DataObserverMap.left (s.keysOf entry.1) keys := by
          rw [hround.keysOf, if_pos rfl]
        rw [callKeys, hfilter, List.forall_mem_append, List.map_append, List.map_singleton,
          List.forall_mem_singleton]
        obtain ⟨hleft, hloop⟩ | ⟨hleft, hloop⟩ := hrest
        · -- The loop ends here: the objects before this one keep what they have.
          have hclear : Clear keys (s₁.keysOf entry.1) := hown ▸ clear_left _ _
          rw [hloop, pairwise_snoc_of_left_ne hleft, and_iff_left hclear, List.forall_mem_map]
          exact forall₂_congr (fun e he => by rw [hsame e he])
        · have hclear :
              Clear keys ((unregisterLoop observer context keys n s₁).2.keysOf entry.1) := by
            have hgone := (unregisterLoop_spec observer context keys n s₁).2.subset entry.1
            rw [hown, hleft] at hgone
            rw [Finset.subset_empty.mp hgone]
            exact clear_empty _
          have hrec := ih (hnodup.sublist (hround.sublist.map _))
          have hkeys : s₁.callKeys observer context (s.dataObservers.take n) =
              s.callKeys observer context (s.dataObservers.take n) :=
            List.map_congr_left hsame
          rw [hround.take, hkeys] at hrec
          rw [hloop, pairwise_snoc_of_left_eq hleft, and_iff_left hclear]
          exact hrec

/-! ### Whole histories -/

/-- Every entry has an object of its own, with the context that stands beside it. -/
structure Own (s : DataObservers φ γ) : Prop where
  nodup : (s.dataObservers.map Prod.fst).Nodup
  below : ∀ e ∈ s.dataObservers, e.1.id < s.nextId
  context : ∀ e ∈ s.dataObservers, e.1.context = e.2

theorem registerDataObserver_dataObservers (s : DataObservers φ γ) (observer : Option φ)
    (context : γ) (keys : List String) :
    (s.registerDataObserver observer context keys).2.dataObservers =
      s.dataObservers ++ [(⟨s.nextId, observer, context⟩, context)] := by
  have hcode := DataObserverMap.registerDataObserver_code s.dataObserversMap
    ⟨s.nextId, observer, context⟩ keys
  exact if_neg (not_not.mpr hcode)

theorem keysOf_registerDataObserver (hne : o.id ≠ s.nextId) :
    (s.registerDataObserver observer context keys).2.keysOf o = s.keysOf o := by
  refine (DataObserverCall.keysOf_perform _ (.register _ keys) o).trans (if_neg ?_)
  rintro rfl
  exact hne rfl

theorem Own.register (h : s.Own) :
    (s.registerDataObserver observer context keys).2.Own := by
  have hlist := registerDataObserver_dataObservers s observer context keys
  have hnext : (s.registerDataObserver observer context keys).2.nextId = s.nextId + 1 := rfl
  refine ⟨?_, ?_, ?_⟩
  · rw [hlist, List.map_append, List.nodup_append]
    refine ⟨h.nodup, List.nodup_singleton _, ?_⟩
    intro o ho o' ho' heq
    obtain ⟨e, he, rfl⟩ := List.mem_map.mp ho
    obtain rfl := List.mem_singleton.mp ho'
    have hid := h.below e he
    rw [heq] at hid
    exact absurd hid (lt_irrefl _)
  · intro e he
    rw [hnext]
    rw [hlist] at he
    obtain he | he := List.mem_append.mp he
    · exact (h.below e he).trans (Nat.lt_succ_self _)
    · obtain rfl := List.mem_singleton.mp he
      exact Nat.lt_succ_self _
  · intro e he
    rw [hlist] at he
    obtain he | he := List.mem_append.mp he
    · exact h.context e he
    · obtain rfl := List.mem_singleton.mp he
      rfl

theorem Own.pruned {s' : DataObservers φ γ} (h : s.Own) (hpruned : Pruned observer context n s s') :
    s'.Own where
  nodup := h.nodup.sublist (hpruned.sublist.map _)
  below e he := hpruned.nextId ▸ h.below e (hpruned.sublist.subset he)
  context e he := h.context e (hpruned.sublist.subset he)

/-- With no entries, the loop has no rounds either. -/
theorem unregisterDataObserver_eq_loop (s : DataObservers φ γ) (observer : Option φ) (context : γ)
    (keys : List String) :
    s.unregisterDataObserver observer context keys =
      unregisterLoop observer context keys s.intSize s := by
  rw [unregisterDataObserver]
  split
  · next hnone =>
    have hzero : s.intSize = 0 := by
      unfold intSize
      rw [hnone]
      exact congrArg Int.toNat Int.zero_bmod
    rw [hzero, unregisterLoop]
  · rfl

theorem unregisterDataObserver_spec (s : DataObservers φ γ) (observer : Option φ) (context : γ)
    (keys : List String) :
    (s.unregisterDataObserver observer context keys).1 = .ok ∧
      Pruned observer context s.intSize s (s.unregisterDataObserver observer context keys).2 := by
  rw [unregisterDataObserver_eq_loop]
  exact unregisterLoop_spec observer context keys s.intSize s

theorem Own.step (h : s.Own) (event : DataObserverEvent φ γ) : (s.step event).Own := by
  cases event with
  | register observer context keys => exact h.register
  | unregister observer context keys =>
      exact h.pruned (unregisterDataObserver_spec s observer context keys).2

theorem own_run (history : List (DataObserverEvent φ γ)) : (initial.run history).Own := by
  have hrun : ∀ s : DataObservers φ γ, s.Own → (s.run history).Own := by
    induction history with
    | nil => exact fun s h => h
    | cons event history ih => exact fun s h => ih _ (h.step event)
  exact hrun initial ⟨List.nodup_nil, by simp [initial], by simp [initial]⟩

/-- An entry that goes has no keys left, so it makes no difference whether one asks about it. -/
theorem Pruned.forall_found_iff {s' : DataObservers φ γ} (h : Pruned observer context n s s') :
    (∀ e ∈ s'.dataObservers, found observer context e = true → Clear keys (s'.keysOf e.1)) ↔
      ∀ e ∈ s.dataObservers, found observer context e = true → Clear keys (s'.keysOf e.1) := by
  constructor
  · intro hclear e he hfound
    obtain hin | hempty := h.kept e he
    · exact hclear e hin hfound
    · rw [hempty]
      exact clear_empty keys
  · exact fun hclear e he => hclear e (h.sublist.subset he)

/-! ### Who is called -/

theorem found_iff :
    found observer context entry = true ↔
      observer ≠ none ∧ entry.1.dataObserver = observer ∧ entry.2 = context := by
  cases observer with
  | none => simp [found, NDKPreferencesObserver.observerCompare]
  | some f =>
      simp only [found, NDKPreferencesObserver.observerCompare, Bool.and_eq_true, beq_iff_eq]
      exact ⟨fun ⟨hf, hc⟩ => ⟨by simp, hf.symm, hc⟩, fun ⟨_, hf, hc⟩ => ⟨hf.symm, hc⟩⟩

/-- Some change calls the pair for a key if and only if an object of the pair has the key. -/
theorem exists_called_iff {key : String} (h : s.Own) :
    (∃ n, s.Called n observer context key) ↔
      ∃ e ∈ s.dataObservers, found observer context e = true ∧ key ∈ s.keysOf e.1 := by
  constructor
  · intro ⟨n, e, he, records, hrecords, f, told, htold, hobserver, hkey⟩
    have htold' : e.1.dataObserver = some f ∧ e.1.context = context ∧ records = told := by
      rw [NDKPreferencesObserver.onChange] at htold
      split at htold
      · exact absurd htold (by simp)
      · next hf =>
        split at htold
        · exact absurd htold (by simp)
        · simp only [Option.some.injEq, Prod.mk.injEq] at htold
          exact ⟨by rw [hf, htold.1], htold.2⟩
    obtain ⟨hf, hcontext, rfl⟩ := htold'
    refine ⟨e, he, found_iff.mpr ⟨by simp [hobserver], hf.trans hobserver.symm, ?_⟩, ?_⟩
    · rw [← h.context e he, hcontext]
    · rw [Notice.onChange] at hrecords
      split at hrecords
      · exact absurd hrecords (by simp)
      · obtain rfl := Option.some.inj hrecords
        obtain ⟨record, hrecord, rfl⟩ := List.mem_map.mp hkey
        exact (Notice.mem_records hrecord).2.1
  · intro ⟨e, he, hfound, hkey⟩
    obtain ⟨hsome, hobserver, hcontext⟩ := found_iff.mp hfound
    obtain ⟨f, rfl⟩ := Option.ne_none_iff_exists'.mp hsome
    -- A change of just this key.
    obtain ⟨record, hrecord, hname⟩ := Notice.exists_record (n := ⟨{key}, ∅⟩)
      (Finset.mem_singleton_self key) hkey
    have hne : Notice.records (s.keysOf e.1) ⟨{key}, ∅⟩ ≠ [] := List.ne_nil_of_mem hrecord
    refine ⟨⟨{key}, ∅⟩, e, he, _, if_neg hne, f, _, ?_, rfl,
      List.mem_map.mpr ⟨record, hrecord, hname⟩⟩
    rw [NDKPreferencesObserver.onChange, hobserver]
    dsimp only
    rw [if_neg hne, h.context e he, hcontext]

/-- Until it is registered again, the pair is not called for any of the keys, or for any key at all
if there are none. -/
def Unsubscribed (s : DataObservers φ γ) (observer : Option φ) (context : γ) (keys : List String) :
    Prop :=
  ∀ later : List (DataObserverEvent φ γ), (∀ event ∈ later, ¬ event.Registers observer context) →
    ∀ n key, (keys = [] ∨ key ∈ keys) → ¬ (s.run later).Called n observer context key

/-- The objects of the pair have none of the keys. -/
structure Quiet (observer : Option φ) (context : γ) (keys : List String) (s : DataObservers φ γ) :
    Prop where
  own : s.Own
  clear : ∀ e ∈ s.dataObservers, found observer context e = true → Clear keys (s.keysOf e.1)

theorem Quiet.step {event : DataObserverEvent φ γ} (h : Quiet observer context keys s)
    (hevent : ¬ event.Registers observer context) : Quiet observer context keys (s.step event) := by
  refine ⟨h.own.step event, ?_⟩
  cases event with
  | register observer' context' keys' =>
      intro e he hfound
      have hlist : e ∈ s.dataObservers ++ _ :=
        registerDataObserver_dataObservers s observer' context' keys' ▸ he
      obtain he | he := List.mem_append.mp hlist
      · have hkeys : (s.registerDataObserver observer' context' keys').2.keysOf e.1 =
            s.keysOf e.1 := keysOf_registerDataObserver (h.own.below e he).ne
        show Clear keys ((s.registerDataObserver observer' context' keys').2.keysOf e.1)
        rw [hkeys]
        exact h.clear e he hfound
      · -- The new object is of another pair.
        obtain rfl := List.mem_singleton.mp he
        obtain ⟨_, hobserver, hcontext⟩ := found_iff.mp hfound
        exact absurd ⟨hobserver, hcontext⟩ hevent
  | unregister observer' context' keys' =>
      intro e he hfound key hkey
      have hpruned := (unregisterDataObserver_spec s observer' context' keys').2
      exact h.clear e (hpruned.sublist.subset he) hfound key (hpruned.subset e.1 hkey)

theorem Quiet.run {later : List (DataObserverEvent φ γ)} (h : Quiet observer context keys s)
    (hlater : ∀ event ∈ later, ¬ event.Registers observer context) :
    Quiet observer context keys (s.run later) := by
  induction later generalizing s with
  | nil => exact h
  | cons event later ih =>
      exact ih (h.step (hlater event List.mem_cons_self))
        (fun e he => hlater e (List.mem_cons_of_mem _ he))

theorem unsubscribed_iff (h : s.Own) :
    Unsubscribed s observer context keys ↔
      ∀ e ∈ s.dataObservers, found observer context e = true → Clear keys (s.keysOf e.1) := by
  constructor
  · intro hnever e he hfound key hkey
    obtain ⟨n, hcalled⟩ := (exists_called_iff h).mpr ⟨e, he, hfound, hkey⟩
    have hother := hnever [] (by simp) n key
    exact ⟨fun hnone => hother (.inl hnone) hcalled, fun hin => hother (.inr hin) hcalled⟩
  · intro hclear later hlater n key hwanted hcalled
    have hquiet : Quiet observer context keys (s.run later) := Quiet.run ⟨h, hclear⟩ hlater
    obtain ⟨e, he, hfound, hkey⟩ := (exists_called_iff hquiet.own).mp ⟨n, hcalled⟩
    obtain ⟨hsome, hnot⟩ := hquiet.clear e he hfound key hkey
    exact hwanted.elim hsome hnot

/-- **When the pair is unsubscribed.** `UnregisterDataObserver` always returns `PREFERENCES_OK`.
After any history, the pair is then unsubscribed from the keys if and only if no object that still
has one of them was registered before an object that keeps others. (Objects beyond what an `int`
counts are not looked at.) -/
theorem unregisterDataObserver_iff (history : List (DataObserverEvent φ γ)) (observer : Option φ)
    (context : γ) (keys : List String) :
    ((initial.run history).unregisterDataObserver observer context keys).1 = .ok ∧
      (Unsubscribed ((initial.run history).unregisterDataObserver observer context keys).2
          observer context keys ↔
        ((initial.run history).callKeys observer context
            ((initial.run history).dataObservers.take (initial.run history).intSize)).Pairwise
          (Passes keys) ∧
        ∀ callKeys ∈ (initial.run history).callKeys observer context
            ((initial.run history).dataObservers.drop (initial.run history).intSize),
          Clear keys callKeys) := by
  have hown : (initial.run history : DataObservers φ γ).Own := own_run history
  generalize initial.run history = s at *
  obtain ⟨hok, hpruned⟩ := unregisterDataObserver_spec s observer context keys
  refine ⟨hok, ?_⟩
  have hloop := unregisterLoop_clear_iff observer context keys s.intSize hown.nodup
  rw [← unregisterDataObserver_eq_loop] at hloop
  rw [unsubscribed_iff (hown.pruned hpruned), hpruned.forall_found_iff, ← hloop]
  -- Where the loop does not come, nothing changes.
  have hrest : ∀ e ∈ s.dataObservers.drop s.intSize,
      (s.unregisterDataObserver observer context keys).2.keysOf e.1 = s.keysOf e.1 := by
    intro e he
    refine hpruned.frame e.1 (fun e' he' heq => ?_)
    have hnodup := hown.nodup
    rw [← List.take_append_drop s.intSize s.dataObservers, List.map_append,
      List.nodup_append] at hnodup
    exact hnodup.2.2 e'.1 (List.mem_map_of_mem (List.mem_filter.mp he').1) e.1
      (List.mem_map_of_mem he) heq
  have hdrop : (∀ callKeys ∈ s.callKeys observer context (s.dataObservers.drop s.intSize),
      Clear keys callKeys) ↔
      ∀ e ∈ s.dataObservers.drop s.intSize, found observer context e = true →
        Clear keys ((s.unregisterDataObserver observer context keys).2.keysOf e.1) := by
    simp only [callKeys, List.forall_mem_map, List.mem_filter, and_imp]
    exact forall₂_congr (fun e he => by rw [hrest e he])
  have htake : (∀ e ∈ (s.dataObservers.take s.intSize).filter (found observer context),
      Clear keys ((s.unregisterDataObserver observer context keys).2.keysOf e.1)) ↔
      ∀ e ∈ s.dataObservers.take s.intSize, found observer context e = true →
        Clear keys ((s.unregisterDataObserver observer context keys).2.keysOf e.1) := by
    simp only [List.mem_filter, and_imp]
  rw [hdrop, htake, ← List.forall_mem_append, List.take_append_drop]

/-- Two registrations with a key each, and the first key is unregistered. -/
theorem unregisterDataObserver_reserve :
    ¬ ∀ (history : List (DataObserverEvent Nat Nat)) (observer : Option Nat) (context : Nat)
      (keys : List String),
      ((initial.run history).unregisterDataObserver observer context keys).1 = .ok →
      Unsubscribed ((initial.run history).unregisterDataObserver observer context keys).2
        observer context keys := by
  intro hall
  have h := hall [.register (some 0) 0 ["a"], .register (some 0) 0 ["b"]] (some 0) 0 ["a"]
    (by decide +kernel)
  have hclear := (unsubscribed_iff ((own_run _).step (.unregister (some 0) 0 ["a"]))).mp h
  exact absurd hclear (by unfold Clear; decide +kernel)

end DataObservers

end NativePreferences
