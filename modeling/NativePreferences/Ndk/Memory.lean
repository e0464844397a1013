import Mathlib.Algebra.GroupWithZero.Nat
import NativePreferences.Lib.Allocation
import NativePreferences.Ndk.DataObservers
import NativePreferences.Ndk.GetAll

/-!
# NativePreferences.Ndk.Memory

**The memory of the C interface** (`oh_preferences.cpp`, `oh_preferences_value.cpp`).
`OH_Preferences_GetAll` is the function of `Ndk.GetAll` with the blocks that it asks for, and it
computes the same. When it fails it gives everything back, apart from one block: a round in which
the key has been copied and the value has no object is not among those that
`OH_PreferencesPair_Destroy` is told to take back. The array of pairs is not cleared. When the
first round fails, the client gets it with pointers that nobody has written (`ohGetAll_run`).

The observer of `OH_Preferences_RegisterDataObserver` gives back its array and its objects, and
leaves behind what the values in them have asked for (`onChange_run`). The getters of arrays hand
out everything or nothing (`getStringArray_run`).
-/

namespace NativePreferences.Ndk

open Lib

variable {E φ γ : Type}

/-- `OH_PreferencesPair`, as far as it is filled. -/
structure Pair where
  key : Slot String
  value : Slot PreferencesValue

namespace Pair

/-- A pair of an array that has just been allocated. -/
def empty : Pair := ⟨.unwritten, .unwritten⟩

/-- The blocks that a pair points to. -/
def pointers (pair : Pair) : List (Option Block) := [pair.key.block, pair.value.block]

/-- The pair without its blocks. -/
def view (pair : Pair) : OHPreferencesPair := ⟨pair.key.object, pair.value.object⟩

end Pair

/-! ### Reading everything -/

/-- `strdup(key.c_str())`. -/
def strdup (key : String) : Allocating E (Ptr String) := do
  let p ← malloc
  return p.map (fun b => (b, NativePreferences.strdup key))

/-- The loop of `PackData`, at position `i`. What the copy of a value asks for counts as part of its
object; if that is refused, an exception ends the call, and there is no result. -/
def packLoop :
    List (String × PreferencesValue) → UInt32 → List Pair → Allocating E (UInt32 × List Pair)
  | [], _, pairs => return (0, pairs)
  | (key, value) :: res, i, pairs => do
      let copy ← strdup key
      let pairs := pairs.modify i.toNat (fun pair => { pair with key := .written copy })
      match copy with
      | none => return (i, pairs)
      | some _ => do
          let valueImpl ← malloc
          match valueImpl with
          | none => return (i, pairs)
          | some b =>
              let object := Slot.written (some (b, value))
              let pairs := pairs.modify i.toNat (fun pair => { pair with value := object })
              packLoop res (i + 1) pairs

/-- `PackData`. -/
def packData (res : List (String × PreferencesValue)) : Allocating E (UInt32 × List Pair) :=
  packLoop res 0 (List.replicate res.length Pair.empty)

/-- The loop of `OH_PreferencesPair_Destroy`. Here a value is deleted as what it is. -/
def destroyLoop : List Pair → Allocating E Unit
  | [] => return
  | pair :: pairs => do
      pair.key.free
      pair.value.free
      destroyLoop pairs

/-- `OH_PreferencesPair_Destroy`. -/
def pairDestroy (pairs : Ptr (List Pair)) (count : UInt32) : Allocating E Unit :=
  match pairs with
  | none => return ()
  | some (array, pairs) => do
      destroyLoop (pairs.take count.toNat)
      free (some array)

/-- What `OH_Preferences_GetAll` returns, and leaves in `*pairs` and `*count`. -/
structure GetAllPointers where
  code : NdkErrCode
  pairs : Ptr (List Pair)
  count : Option UInt32

/-- `OH_Preferences_GetAll`, where `GetAllDatas` has returned `res`. -/
def getAll (res : List (String × PreferencesValue)) (pairs : Ptr (List Pair)) :
    Allocating E GetAllPointers :=
  if res = [] then return { code := .errorKeyNotFound, pairs, count := none }
  else do
    let count := UInt32.ofNat res.length
    let array ← malloc
    match array with
    | none => return { code := .errorMalloc, pairs := none, count }
    | some array => do
        let r ← packData res
        if r.1 ≠ 0 then do
          pairDestroy (some (array, r.2)) r.1
          return { code := .errorMalloc, pairs := none, count }
        else return { code := .ok, pairs := some (array, r.2), count }

/-- The outcomes of the requests, by what they are for. -/
def allocationsOf (outcomes : List Bool) : Allocations where
  pairs := outcomes.getD 0 true
  key := fun j => outcomes.getD (1 + 2 * j) true
  value := fun j => outcomes.getD (2 + 2 * j) true

namespace GetAllPointers

/-- What is handed out, without its blocks. -/
def view (r : GetAllPointers) : GetAllResult :=
  ⟨r.code, r.pairs.map (fun p => p.2.map Pair.view), r.count⟩

end GetAllPointers

/-- `OH_Preferences_GetAll` has failed in a round whose key was copied, and not in the first one. -/
def losesKey (alloc : Allocations) (length : Nat) : Bool :=
  alloc.pairs && (alloc.firstFailure 0 length).any (fun f => f ≠ 0 && alloc.key f)

/-- What a client has got with `PREFERENCES_OK`: the array, and what its pairs point to. -/
def handedOut (r : GetAllPointers) : List (Option Block) :=
  if r.code = .ok then
    ((r.pairs.map Prod.snd).getD []).flatMap Pair.pointers ++ [r.pairs.block]
  else []

variable {own rest : Multiset Block} {log : Log E} {res : List (String × PreferencesValue)}
variable {i : UInt32} {pairs : List Pair}

/-! ### It computes the same -/

theorem owns_strdup {α : Type} {Q : α → Log E → Multiset Block → Prop}
    {f : Ptr String → Allocating E α} (key : String)
    (hrefused : Owns Q (f none) (log.answer false) own)
    (hgranted : ∀ b, b ∉ own →
      Owns Q (f (some (b, NativePreferences.strdup key))) (log.answer true) (b ::ₘ own)) :
    Owns Q (strdup key >>= f) log own := by
  rw [strdup, Program.bind_assoc]
  exact .malloc hrefused hgranted

/-- The outcome of a request is known from the outcomes at the end. -/
theorem outcome_of_prefix {outcomes : List Bool} {met : Bool}
    (h : (log.answer met).outcomes <+: outcomes) :
    outcomes.getD log.outcomes.length true = met := by
  obtain ⟨later, rfl⟩ := h
  simp [Log.answer, List.getD_eq_getElem?_getD]

/-- The first request of a round is for the key. -/
theorem key_after_answers {outcomes : List Bool} {met : Bool} {j : Nat}
    (hlog : log.outcomes.length = 1 + 2 * j) (h : (log.answer met).outcomes <+: outcomes) :
    (allocationsOf outcomes).key j = met := by
  rw [← outcome_of_prefix h, hlog]
  rfl

/-- The second is for the value. -/
theorem value_of_prefix {outcomes : List Bool} {met : Bool} {j : Nat}
    (hlog : log.outcomes.length = 1 + 2 * j)
    (h : ((log.answer true).answer met).outcomes <+: outcomes) :
    (allocationsOf outcomes).value j = met := by
  have hlength : (log.answer true).outcomes.length = 2 + 2 * j := by
    simp [Log.answer, hlog]
    omega
  rw [← outcome_of_prefix h, hlength]
  rfl

theorem length_next_round {j : Nat} (hlog : log.outcomes.length = 1 + 2 * j) :
    ((log.answer true).answer true).outcomes.length = 1 + 2 * (j + 1) := by
  simp [Log.answer, hlog]
  omega

theorem prefix_answer (log : Log E) (met : Bool) :
    log.outcomes <+: (log.answer met).outcomes :=
  List.prefix_append _ _

theorem map_modify {α β : Type} {f : α → α} {f' : β → β} {g : α → β}
    (h : ∀ a, g (f a) = f' (g a)) (l : List α) (n : Nat) :
    (l.modify n f).map g = (l.map g).modify n f' := by
  refine List.ext_getElem? ?_
  intro k
  rw [List.getElem?_map, List.getElem?_modify, List.getElem?_modify, List.getElem?_map]
  cases l[k]? with
  | none => rfl
  | some a =>
      by_cases hk : n = k
      · simp [hk, h]
      · simp [hk]

theorem map_view_key (pairs : List Pair) (n : Nat) (copy : Slot String) :
    (pairs.modify n (fun pair => { pair with key := copy })).map Pair.view =
      (pairs.map Pair.view).modify n (fun pair => { pair with key := copy.object }) := by
  refine map_modify ?_ pairs n
  exact fun _ => rfl

theorem map_view_value (pairs : List Pair) (n : Nat) (object : Slot PreferencesValue) :
    (pairs.modify n (fun pair => { pair with value := object })).map Pair.view =
      (pairs.map Pair.view).modify n (fun pair => { pair with value := object.object }) := by
  refine map_modify ?_ pairs n
  exact fun _ => rfl

theorem packLoop_view {j : Nat} (hlog : log.outcomes.length = 1 + 2 * j) :
    Owns (fun r log _ => (r.1, r.2.map Pair.view) =
        NativePreferences.packLoop (allocationsOf log.outcomes) res j i (pairs.map Pair.view))
      (packLoop res i pairs) log own := by
  induction res generalizing i pairs j log own with
  | nil => exact rfl
  | cons entry res ih =>
      obtain ⟨key, value⟩ := entry
      refine owns_strdup key ?_ ?_
      · -- no copy of the key
        rw [owns_pure, NativePreferences.packLoop, key_after_answers hlog List.prefix_rfl,
          map_view_key]
        rfl
      · intro b _
        refine .malloc ?_ ?_
        · -- no object for the value
          rw [owns_pure, NativePreferences.packLoop, value_of_prefix hlog List.prefix_rfl,
            key_after_answers hlog (prefix_answer _ false), map_view_key]
          rfl
        · intro b' _
          refine (ih (length_next_round hlog)).extends.mono ?_
          intro r log' own' h
          obtain ⟨heq, hprefix⟩ := h
          rw [heq, NativePreferences.packLoop, value_of_prefix hlog hprefix,
            key_after_answers hlog ((prefix_answer _ true).trans hprefix), List.set_eq_modify,
            map_view_value, map_view_key, List.modify_modify_eq]
          rfl

/-! ### What is left -/

/-- The pairs when `PackData` stops: some are done, and of the next one there is at most the
key. -/
def halfDone (done : List Pair) (key : Ptr String) (more : Nat) : List Pair :=
  done ++ ⟨.written key, .unwritten⟩ :: List.replicate more Pair.empty

theorem modify_snoc {α : Type} (done rest : List α) (a : α) (f : α → α) :
    (done ++ a :: rest).modify done.length f = done ++ f a :: rest := by
  induction done with
  | nil => rfl
  | cons b done ih =>
      rw [List.cons_append, List.length_cons, List.modify_succ_cons, ih]
      rfl

theorem modify_fresh (done : List Pair) (copy : Ptr String) (more : Nat) :
    (done ++ List.replicate (more + 1) Pair.empty).modify done.length
      (fun pair => { pair with key := .written copy }) = halfDone done copy more := by
  rw [List.replicate_succ, modify_snoc]
  rfl

theorem blocks_replicate_empty (more : Nat) :
    blocks ((List.replicate more Pair.empty).flatMap Pair.pointers) = 0 := by
  induction more with
  | zero => rfl
  | succ more ih =>
      rw [List.replicate_succ, List.flatMap_cons, blocks_append, ih]
      rfl

/-- The blocks of the pairs that are done, and the copy of a key. -/
theorem blocks_halfDone (done : List Pair) (key : Ptr String) (more : Nat) :
    blocks ((halfDone done key more).flatMap Pair.pointers) =
      blocks (done.flatMap Pair.pointers) + blocks [key.block] := by
  rw [halfDone, List.flatMap_append, List.flatMap_cons, blocks_append, blocks_append,
    blocks_replicate_empty, Multiset.add_zero, Pair.pointers, blocks_cons]
  exact congrArg _ (Multiset.add_zero _)

/-- The pair has a key and a value. -/
def Pair.filled (pair : Pair) : Bool := pair.view.filled

theorem Pair.isWritten_of_filled {pair : Pair} (h : pair.filled = true) :
    pair.key.isWritten = true ∧ pair.value.isWritten = true := by
  obtain ⟨key, value⟩ := pair
  cases key with
  | unwritten => exact absurd h Bool.false_ne_true
  | written copy =>
      cases value with
      | unwritten => simp [filled, view, OHPreferencesPair.filled, Slot.object] at h
      | written object => exact ⟨rfl, rfl⟩

/-- How `PackData` ends when it returns `r`: all pairs are filled, or it has stopped in a round. -/
def Ended (r : UInt32 × List Pair) (alloc : Allocations) : Prop :=
  (r.1 = 0 ∧ ∀ pair ∈ r.2, pair.filled = true) ∨
    ∃ done key more, r.1.toNat = done.length ∧ r.2 = halfDone done key more ∧
      (∀ pair ∈ done, pair.filled = true) ∧ key.isSome = alloc.key done.length

theorem packLoop_blocks {done : List Pair} (hsize : done.length + res.length ≤ 2 ^ 32)
    (hi : i = UInt32.ofNat done.length) (hlog : log.outcomes.length = 1 + 2 * done.length)
    (hdone : ∀ pair ∈ done, pair.filled = true) :
    Owns (fun r log own' => own' = blocks (r.2.flatMap Pair.pointers) + own ∧
        Ended r (allocationsOf log.outcomes))
      (packLoop res i (done ++ List.replicate res.length Pair.empty)) log
      (blocks (done.flatMap Pair.pointers) + own) := by
  induction res generalizing i done log with
  | nil =>
      rw [List.length_nil, List.replicate_zero, List.append_nil]
      exact ⟨rfl, .inl ⟨rfl, hdone⟩⟩
  | cons entry res ih =>
      obtain ⟨key, value⟩ := entry
      rw [List.length_cons] at hsize
      have hposition : i.toNat = done.length := by
        rw [hi]
        exact toNat_position (by omega)
      rw [List.length_cons, packLoop, hposition]
      refine owns_strdup key ?_ ?_
      · rw [modify_fresh]
        refine ⟨?_, .inr ⟨done, none, res.length, hposition, rfl, hdone, ?_⟩⟩
        · rw [blocks_halfDone]
          exact congrArg (· + own) (Multiset.add_zero _).symm
        · exact (key_after_answers hlog List.prefix_rfl).symm
      · intro b _
        rw [modify_fresh]
        refine .malloc ?_ ?_
        · refine ⟨?_, .inr ⟨done, _, res.length, hposition, rfl, hdone, ?_⟩⟩
          · rw [blocks_halfDone]
            show b ::ₘ _ = blocks _ + {b} + own
            rw [Multiset.add_comm _ {b}, Multiset.singleton_add, Multiset.cons_add]
          · exact (key_after_answers hlog (prefix_answer _ false)).symm
        · intro b' _
          dsimp only
          rw [halfDone, modify_snoc]
          dsimp only
          generalize hpair : Pair.mk (.written (some (b, NativePreferences.strdup key)))
            (.written (some (b', value))) = pair
          have hown : b' ::ₘ b ::ₘ (blocks (done.flatMap Pair.pointers) + own) =
              blocks ((done ++ [pair]).flatMap Pair.pointers) + own := by
            rw [List.flatMap_append, blocks_append, ← hpair]
            show _ = blocks _ + (b ::ₘ b' ::ₘ 0) + own
            simp only [Multiset.add_cons, Multiset.cons_add, Multiset.add_zero,
              Multiset.cons_swap b' b]
          have hlength : (done ++ [pair]).length = done.length + 1 := by
            rw [List.length_append, List.length_singleton]
          rw [List.append_cons, hown]
          refine ih ?_ ?_ ?_ ?_
          · omega
          · rw [hlength, hi, position_succ]
          · rw [hlength]
            exact length_next_round hlog
          · intro pair' hpair'
            rw [List.mem_append, List.mem_singleton] at hpair'
            rcases hpair' with hold | rfl
            · exact hdone pair' hold
            · rw [← hpair]
              rfl

/-- `PackData`, after the request for the array. -/
theorem owns_packData (hsize : res.length ≤ 2 ^ 32) (hlog : log.outcomes.length = 1) :
    Owns (fun r log own' =>
        (r.1, r.2.map Pair.view) =
          NativePreferences.packData (allocationsOf log.outcomes) res ∧
        own' = blocks (r.2.flatMap Pair.pointers) + own ∧ Ended r (allocationsOf log.outcomes))
      (packData res) log own := by
  have hblocks : Owns (fun r log own' => own' = blocks (r.2.flatMap Pair.pointers) + own ∧
      Ended r (allocationsOf log.outcomes)) (packData res) log (0 + own) := by
    rw [packData, ← List.nil_append (List.replicate res.length Pair.empty)]
    exact packLoop_blocks (by simpa using hsize) rfl (by simpa using hlog) (by simp)
  rw [Multiset.zero_add] at hblocks
  have hround : log.outcomes.length = 1 + 2 * 0 := hlog
  refine (Owns.and (packLoop_view hround) hblocks).mono ?_
  intro r log' own' h
  refine ⟨?_, h.2⟩
  rw [h.1, NativePreferences.packData, List.map_replicate]
  rfl

theorem length_packLoop {alloc : Allocations} {j : Nat} {pairs : List OHPreferencesPair} :
    (NativePreferences.packLoop alloc res j i pairs).2.length = pairs.length := by
  induction res generalizing j i pairs with
  | nil => rfl
  | cons entry res ih =>
      obtain ⟨-, hloop⟩ | ⟨g, -, -, hloop⟩ := packLoop_cons alloc entry.1 entry.2 res j i pairs
      · rw [hloop, ih, List.length_set]
      · rw [hloop, List.length_modify]

/-- The round in which `PackData` has stopped, from what it returns. -/
theorem firstFailure_of_packData {alloc : Allocations} (hsize : res.length < 2 ^ 32) :
    alloc.firstFailure 0 res.length = some (NativePreferences.packData alloc res).1.toNat ∨
      (alloc.firstFailure 0 res.length = none ∧
        (NativePreferences.packData alloc res).1 = 0) := by
  rw [packData_fst]
  cases hfail : alloc.firstFailure 0 res.length with
  | none => exact .inr ⟨rfl, rfl⟩
  | some f =>
      have hbounds := Allocations.firstFailure_bounds hfail
      exact .inl (congrArg some (toNat_position (by omega)).symm)

/-- What `PREFERENCES_OK` means: there is an array for all entries, and its pairs are filled. In
the first pair the value has not been written if the first round has failed. -/
def Handed (r : GetAllPointers) (alloc : Allocations) (length : Nat) : Prop :=
  ∃ array pairs, r.pairs = some (array, pairs) ∧ (r.count.getD 0).toNat = pairs.length ∧
    if alloc.firstFailure 0 length = some 0 then ∃ key more, pairs = halfDone [] key more
    else ∀ pair ∈ pairs, pair.filled = true

/-- When `PackData` returns 0, it has done all its rounds or stopped in the first one. -/
theorem Ended.of_zero {r : UInt32 × List Pair} {alloc : Allocations} (h : Ended r alloc)
    (hsize : res.length < 2 ^ 32) (hzero : r.1 = 0)
    (hview : (r.1, r.2.map Pair.view) = NativePreferences.packData alloc res) :
    losesKey alloc res.length = false ∧
      if alloc.firstFailure 0 res.length = some 0 then ∃ key more, r.2 = halfDone [] key more
      else ∀ pair ∈ r.2, pair.filled = true := by
  have hfirst : alloc.firstFailure 0 res.length =
      some (NativePreferences.packData alloc res).1.toNat ∨ _ := firstFailure_of_packData hsize
  have hfilled := packData_filled_iff alloc res
  rw [← hview, hzero] at hfirst
  rw [← hview, List.forall_mem_map] at hfilled
  obtain ⟨-, hall⟩ | ⟨done, key, more, hposition, hhalf, -, -⟩ := h
  · have hnone := (hfilled.mp hall).1
    refine ⟨by simp [losesKey, hnone], ?_⟩
    rw [if_neg (by simp [hnone])]
    exact hall
  · obtain rfl : done = [] := by
      rw [hzero] at hposition
      exact List.eq_nil_of_length_eq_zero hposition.symm
    have hzero : alloc.firstFailure 0 res.length = some 0 := by
      refine hfirst.resolve_right ?_
      intro hnone
      have hall := hfilled.mpr ⟨hnone.1, hsize.le⟩ ⟨.written key, .unwritten⟩
        (by rw [hhalf]; exact List.mem_cons_self)
      simp [Pair.view, OHPreferencesPair.filled, Slot.object] at hall
    refine ⟨by simp [losesKey, hzero], ?_⟩
    rw [if_pos hzero]
    exact ⟨key, more, hhalf⟩

theorem owns_destroyLoop {Q : Unit → Log E → Multiset Block → Prop} {pairs : List Pair}
    (hfilled : ∀ pair ∈ pairs, pair.filled = true) (h : Q () log own) :
    Owns Q (destroyLoop pairs) log (blocks (pairs.flatMap Pair.pointers) + own) := by
  induction pairs with
  | nil =>
      rw [List.flatMap_nil, blocks_nil, Multiset.zero_add]
      exact h
  | cons pair pairs ih =>
      rw [List.forall_mem_cons] at hfilled
      obtain ⟨hkey, hvalue⟩ := Pair.isWritten_of_filled hfilled.1
      rw [List.flatMap_cons, blocks_append, Pair.pointers, blocks_cons, Multiset.add_assoc,
        Multiset.add_assoc]
      exact .freeSlot hkey (.freeSlot hvalue (ih hfilled.2))

/-- `OH_PreferencesPair_Destroy` gives back an array whose first pairs are filled. -/
theorem owns_pairDestroy {Q : Unit → Log E → Multiset Block → Prop} {array : Block}
    {pairs done : List Pair} {count : UInt32} (htake : pairs.take count.toNat = done)
    (hfilled : ∀ pair ∈ done, pair.filled = true) (h : Q () log own) :
    Owns Q (pairDestroy (some (array, pairs)) count) log
      (blocks (done.flatMap Pair.pointers) + (blocks [some array] + own)) := by
  rw [pairDestroy, htake]
  exact .bind (owns_destroyLoop hfilled (owns_freeAll [some array] h))

theorem owns_getAll (hsize : res.length < 2 ^ 32) (pairs : Ptr (List Pair)) :
    Owns (fun r (log : Log E) own' =>
        r.view = ohGetAll (allocationsOf log.outcomes) res
          (pairs.map (fun p => p.2.map Pair.view)) ∧
        (∃ lost, own' = lost + (blocks (handedOut r) + own) ∧
          lost.card = (losesKey (allocationsOf log.outcomes) res.length).toNat) ∧
        (r.code = .ok → losesKey (allocationsOf log.outcomes) res.length = false ∧
          Handed r (allocationsOf log.outcomes) res.length))
      (getAll res pairs) .empty own := by
  rw [getAll]
  by_cases hnil : res = []
  · rw [if_pos hnil]
    refine ⟨?_, ⟨0, ?_, ?_⟩, by simp⟩
    · rw [ohGetAll, if_pos hnil]
      rfl
    · exact ((Multiset.zero_add _).trans (Multiset.zero_add _)).symm
    · simp [losesKey, hnil, Allocations.firstFailure]
  rw [if_neg hnil]
  refine .malloc ?_ ?_
  · -- no array
    refine ⟨?_, ⟨0, ?_, rfl⟩, by simp⟩
    · rw [ohGetAll, if_neg hnil]
      rfl
    · exact ((Multiset.zero_add _).trans (Multiset.zero_add _)).symm
  · intro b _
    refine .bind (.mono ((owns_packData hsize.le rfl).extends) ?_)
    intro r log own' h
    obtain ⟨⟨hview, hown, hended⟩, hprefix⟩ := h
    have harray : (allocationsOf log.outcomes).pairs = true := by
      rw [← outcome_of_prefix hprefix]
      rfl
    by_cases hzero : r.1 = 0
    · rw [if_neg (not_not.mpr hzero)]
      obtain ⟨hlost, hhanded⟩ := hended.of_zero hsize hzero hview
      have hlength : r.2.length = res.length := by
        have h := congrArg (fun p => p.2.length) hview
        simpa [NativePreferences.packData, length_packLoop] using h
      refine ⟨?_, ⟨0, ?_, ?_⟩, fun _ => ⟨hlost, b, r.2, rfl, ?_, hhanded⟩⟩
      · rw [ohGetAll, if_neg hnil, harray]
        simp [← hview, hzero, GetAllPointers.view]
      · rw [hown, Multiset.zero_add, handedOut, if_pos rfl, blocks_append, Multiset.add_assoc]
        exact congrArg _ (Multiset.singleton_add b own).symm
      · rw [hlost]
        rfl
      · exact (toNat_position hsize).trans hlength.symm
    · rw [if_pos hzero]
      obtain ⟨hdone, -⟩ | ⟨done, key, more, hposition, hhalf, hfilled, hkey⟩ := hended
      · exact absurd hdone hzero
      have hfail := (firstFailure_of_packData hsize).resolve_right (by
        rw [← hview]
        exact fun h => hzero h.2)
      rw [← hview] at hfail
      have htake : r.2.take r.1.toNat = done := by
        rw [hhalf, hposition, halfDone, List.take_left]
      have hgiven : own' = blocks (done.flatMap Pair.pointers) +
          (blocks [some b] + (blocks [key.block] + own)) := by
        rw [hown, hhalf, blocks_halfDone, Multiset.add_assoc, Multiset.add_cons]
        exact congrArg _ (Multiset.singleton_add b _).symm
      rw [hgiven]
      refine .bind (owns_pairDestroy htake hfilled ?_)
      refine ⟨?_, ⟨blocks [key.block], ?_, ?_⟩, by simp⟩
      · rw [ohGetAll, if_neg hnil, harray]
        simp [← hview, hzero, GetAllPointers.view]
      · exact congrArg _ (Multiset.zero_add _).symm
      · have hne : r.1.toNat ≠ 0 := fun h => hzero (UInt32.toNat_inj.mp h)
        rw [losesKey, harray, hfail]
        rw [hposition] at hne ⊢
        rw [Option.any_some, Bool.true_and, ← hkey, decide_eq_true hne, Bool.true_and]
        cases key with
        | none => rfl
        | some copy => rfl

/-- The client gives back what it has got. -/
theorem Handed.destroyed {r : GetAllPointers} {alloc : Allocations} {length : Nat}
    (h : Handed r alloc length) (hok : r.code = .ok)
    {tr : List (Event (AllocCall.Answer : AllocCall E → Type))} {w : Arena}
    (hrun : Exec allocSem (pairDestroy r.pairs (r.count.getD 0))
      ⟨blocks (handedOut r) + rest, false⟩ tr () w) :
    if alloc.firstFailure 0 length = some 0 then w.broken = true else w = ⟨rest, false⟩ := by
  obtain ⟨array, pairs, hpairs, hcount, h⟩ := h
  rw [handedOut, if_pos hok, hpairs] at hrun
  split at h
  · -- The first round has failed.
    next hfirst =>
    rw [if_pos hfirst]
    obtain ⟨key, more, rfl⟩ := h
    rw [pairDestroy, List.take_of_length_le hcount.ge] at hrun
    obtain ⟨_, _, w₁, _, hloop, hrest, -⟩ := exec_bind_iff.mp hrun
    refine exec_broken hrest ?_
    obtain ⟨_, _, w₂, _, -, hvalue, -⟩ := exec_bind_iff.mp hloop
    exact exec_wild_bind hvalue
  · next hfirst =>
    rw [if_neg hfirst]
    have htake : pairs.take (r.count.getD 0).toNat = pairs :=
      List.take_of_length_le hcount.ge
    have howns : Owns (fun _ _ own => own = 0) (pairDestroy (some (array, pairs)) (r.count.getD 0))
        (.empty : Log E) (blocks (pairs.flatMap Pair.pointers) + (blocks [some array] + 0)) :=
      owns_pairDestroy htake h rfl
    rw [Multiset.add_zero, ← blocks_append] at howns
    obtain ⟨own, rfl, rfl⟩ := howns.exec hrun
    rw [Multiset.zero_add]

/-- **Reading everything, with its memory.** Whatever allocations fail:

* the call computes what it computes without regard to blocks;
* the blocks that the client had before are still there. What the call leaves besides is what it
  has handed out, and one copy of a key more if it has failed for want of the object beside it;
* after `PREFERENCES_OK`, `OH_PreferencesPair_Destroy` takes back all that is left. But when the
  first round has failed, which `PackData` does not tell, it uses a pointer that nobody has
  written. -/
theorem ohGetAll_run {pairs : Ptr (List Pair)} {r : GetAllPointers} {w : Arena}
    {tr : List (Event (AllocCall.Answer : AllocCall E → Type))}
    (hsize : res.length < 2 ^ 32)
    (hrun : Exec allocSem (getAll res pairs) ⟨rest, false⟩ tr r w) :
    r.view = ohGetAll (allocationsOf (Log.empty.after tr).outcomes) res
        (pairs.map (fun p => p.2.map Pair.view)) ∧
      (∃ lost, w = ⟨lost + (blocks (handedOut r) + rest), false⟩ ∧
        lost.card =
          (losesKey (allocationsOf (Log.empty.after tr).outcomes) res.length).toNat) ∧
      (r.code = .ok → ∀ (tr' : List (Event (AllocCall.Answer : AllocCall E → Type))) (w' : Arena),
        Exec allocSem (pairDestroy r.pairs (r.count.getD 0)) w tr' () w' →
          if (allocationsOf (Log.empty.after tr).outcomes).firstFailure 0 res.length = some 0
          then w'.broken = true
          else w' = ⟨rest, false⟩) := by
  rw [← Multiset.zero_add rest] at hrun
  obtain ⟨own, rfl, hview, ⟨lost, rfl, hlost⟩, hok⟩ := (owns_getAll hsize pairs).exec hrun
  rw [Multiset.add_zero, Multiset.add_assoc]
  refine ⟨hview, ⟨lost, rfl, hlost⟩, ?_⟩
  intro hcode tr' w' hdestroy
  obtain ⟨hkept, hhanded⟩ := hok hcode
  obtain rfl : lost = 0 := by
    rw [← Multiset.card_eq_zero, hlost, hkept]
    rfl
  rw [Multiset.zero_add] at hdestroy
  exact hhanded.destroyed hcode hdestroy

/-- Two entries. Without an object for the second its key stays behind; without one for the first
the client is told that all is well, and goes wrong when it gives the pairs back. -/
theorem ohGetAll_run_no_object :
    (∃ tr r w, Exec allocSem (getAll (E := Empty) [("a", .int 1), ("b", .int 2)] none)
        ⟨{7}, false⟩ tr r w ∧
      r.code = .errorMalloc ∧ ∃ lost, w = ⟨lost + (0 + {7}), false⟩ ∧ lost.card = 1) ∧
    ∃ tr r w tr' w', Exec allocSem (getAll (E := Empty) [("a", .int 1), ("b", .int 2)] none)
        ⟨{7}, false⟩ tr r w ∧
      r.code = .ok ∧ Exec allocSem (pairDestroy (E := Empty) r.pairs (r.count.getD 0)) w tr' () w' ∧
      w'.broken = true := by
  have hsecond : Exec allocSem (getAll (E := Empty) [("a", .int 1), ("b", .int 2)] none)
      ⟨{7}, false⟩
      [⟨.malloc, some 0⟩, ⟨.malloc, some 1⟩, ⟨.malloc, some 2⟩, ⟨.malloc, some 3⟩,
        ⟨.malloc, none⟩, ⟨.free (some 1), ()⟩, ⟨.free (some 2), ()⟩, ⟨.free (some 0), ()⟩]
      (⟨.errorMalloc, none, some 2⟩ : GetAllPointers) ⟨3 ::ₘ {7}, false⟩ := by
    iterate 4 refine .call ⟨by decide, rfl⟩ ?_
    refine .call rfl ?_
    iterate 3 refine .call rfl ?_
    exact .ret
  have hfirst : Exec allocSem (getAll (E := Empty) [("a", .int 1), ("b", .int 2)] none)
      ⟨{7}, false⟩ [⟨.malloc, some 0⟩, ⟨.malloc, some 1⟩, ⟨.malloc, none⟩]
      (⟨.ok, some (0, halfDone [] (some (1, "a")) 1), some 2⟩ : GetAllPointers)
      ⟨1 ::ₘ 0 ::ₘ {7}, false⟩ := by
    iterate 2 refine .call ⟨by decide, rfl⟩ ?_
    exact .call rfl .ret
  have hdestroy : Exec allocSem
      (pairDestroy (E := Empty) (some (0, halfDone [] (some (1, "a")) 1)) 2)
      ⟨1 ::ₘ 0 ::ₘ {7}, false⟩
      [⟨.free (some 1), ()⟩, ⟨.wild, ()⟩, ⟨.wild, ()⟩, ⟨.wild, ()⟩, ⟨.free (some 0), ()⟩] ()
      ⟨{7}, true⟩ := by
    iterate 5 refine .call rfl ?_
    exact .ret
  exact ⟨⟨_, _, _, hsecond, rfl, (ohGetAll_run (by decide) hsecond).2.1⟩,
    _, _, _, _, _, hfirst, rfl, hdestroy,
    (ohGetAll_run (by decide) hfirst).2.2 rfl _ _ hdestroy⟩

/-! ### The observer -/

/-- An `OH_PreferencesValueImpl` of a record, with the blocks that its copy of the value has asked
for. -/
structure ValueImpl where
  block : Block
  storage : List Block
  value : PreferencesValue

/-- What an array of pairs for records points to. A key belongs to the vector `keys`. -/
def recordPointers (array : Block) (pairs : List (String × ValueImpl)) : List (Option Block) :=
  pairs.map (fun pair => some pair.2.block) ++ [some array]

/-- `FreePairValue`, and then `delete []pairs`. The value is deleted as an `OH_PreferencesValue`,
which knows nothing of the `PreferencesValue` that its derived class adds and has no virtual
destructor: the object goes back, and its storage does not. -/
def freePairs (array : Block) (pairs : List (String × ValueImpl)) : Allocating E Unit :=
  freeAll (recordPointers array pairs)

/-- The loop of `OnChange` over the records, where `pairs` are filled. At the end comes the call.
A copy of a value asks for `storage value` blocks. If one of them is refused, an exception leaves
the function (`none`). -/
def onChangeLoop (storage : PreferencesValue → Nat) (dataObserver : φ) (context : γ)
    (array : Block) :
    Records → List (String × ValueImpl) → Allocating (φ × γ × Records) (Option Unit)
  | [], pairs => do
      emit (dataObserver, context, pairs.map (fun pair => (pair.1, pair.2.value)))
      freePairs array pairs
      return some ()
  | (key, value) :: records, pairs => do
      let valueImpl ← malloc
      match valueImpl with
      | none => do
          freePairs array pairs
          return some ()
      | some b => do
          let copy ← mallocAll (storage value)
          match copy with
          | none => return none
          | some copy =>
              onChangeLoop storage dataObserver context array records
                (pairs ++ [(NativePreferences.strdup key, ⟨b, copy, value⟩)])

/-- `NDKPreferencesObserver::OnChange` with records. -/
def onChange (storage : PreferencesValue → Nat) (o : NDKPreferencesObserver φ γ)
    (records : Records) : Allocating (φ × γ × Records) (Option Unit) :=
  match o.dataObserver with
  | none => return some ()
  | some dataObserver =>
      if records = [] then return some ()
      else do
        let array ← malloc
        match array with
        | none => return some ()
        | some array => onChangeLoop storage dataObserver o.context array records []

/-- The records as the C function sees them: a key ends at its first zero byte. -/
def cRecords (records : Records) : Records :=
  records.map (fun entry => (NativePreferences.strdup entry.1, entry.2))

/-- What the client is told, given the requests: everything or nothing. -/
def told (o : NDKPreferencesObserver φ γ) (records : Records) (refused : Bool) :
    List (φ × γ × Records) :=
  if refused then [] else (o.onChange records).toList.map (fun (f, c, r) => (f, c, cRecords r))

/-- What the copies of the first values ask for. -/
def storageOf (storage : PreferencesValue → Nat) (records : Records) : Nat :=
  (records.map (fun entry => storage entry.2)).sum

/-- The storage of the values in pairs. -/
def storages (pairs : List (String × ValueImpl)) : Multiset Block :=
  (pairs.flatMap (fun pair => pair.2.storage) : List Block)

theorem storages_snoc (pairs : List (String × ValueImpl)) (pair : String × ValueImpl) :
    storages (pairs ++ [pair]) = storages pairs + pair.2.storage := by
  rw [storages, List.flatMap_append, ← Multiset.coe_add, List.flatMap_singleton]
  rfl

/-- What is left of the copies of `records`, beside `own`: for the first ones their storage, and for
all of them if the client has been told. -/
def Leaks (storage : PreferencesValue → Nat) (records : Records) (all : Bool)
    (own own' : Multiset Block) : Prop :=
  ∃ k lost, own' = lost + own ∧ lost.card = storageOf storage (records.take k) ∧
    (all = true → records.length ≤ k)

variable {storage : PreferencesValue → Nat} {records : Records}

/-- Nothing has been copied. -/
theorem Leaks.none (storage : PreferencesValue → Nat) (records : Records) (own : Multiset Block) :
    Leaks storage records false own own :=
  ⟨0, 0, (Multiset.zero_add own).symm, rfl, by simp⟩

/-- A record more has been copied. -/
theorem Leaks.cons {all : Bool} {own own' : Multiset Block} {key : String}
    {value : PreferencesValue} {copy : List Block} (hcopy : copy.length = storage value)
    (h : Leaks storage records all (copy + own) own') :
    Leaks storage ((key, value) :: records) all own own' := by
  obtain ⟨k, lost, hown, hcard, hall⟩ := h
  refine ⟨k + 1, lost + copy, ?_, ?_, ?_⟩
  · rw [hown, Multiset.add_assoc]
  · rw [Multiset.card_add, hcard, Multiset.coe_card, hcopy, storageOf, storageOf,
      List.take_succ_cons, List.map_cons, List.sum_cons, Nat.add_comm]
  · intro h
    exact Nat.succ_le_succ (hall h)

theorem onChangeLoop_owns {dataObserver : φ} {context : γ} {b : Block}
    (pairs : List (String × ValueImpl)) {log : Log (φ × γ × Records)}
    (hlog : log.refused = false) (htold : log.emitted = []) :
    Owns (fun r log own' =>
        (log.emitted = if log.refused then [] else
          [(dataObserver, context,
            pairs.map (fun pair => (pair.1, pair.2.value)) ++ cRecords records)]) ∧
        (r = some () → Leaks storage records (!log.refused) (storages pairs + own) own'))
      (onChangeLoop storage dataObserver context b records pairs) log
      (blocks (recordPointers b pairs) + (storages pairs + own)) := by
  induction records generalizing pairs log with
  | nil =>
      refine .emit (.freeAll _ ⟨?_, fun _ => ⟨0, 0, (Multiset.zero_add _).symm, rfl, ?_⟩⟩)
      · simp [hlog, htold, cRecords]
      · exact fun _ => le_refl 0
  | cons entry records ih =>
      obtain ⟨key, value⟩ := entry
      refine .malloc ?_ ?_
      · -- no object
        dsimp only
        refine .freeAll _ ⟨by simp [htold], fun _ => ?_⟩
        simpa using Leaks.none storage ((key, value) :: records) (storages pairs + own)
      · intro b' _
        dsimp only
        refine .mallocAll ?_ ?_
        · -- no storage
          intro log' hrefused htold'
          refine ⟨?_, fun h => absurd h (by simp)⟩
          rw [htold', hrefused]
          exact htold
        · intro copy log' hcopy hlog' htold'
          generalize hpair :
            (NativePreferences.strdup key, ValueImpl.mk b' copy value) = pair
          have hstorages : storages (pairs ++ [pair]) + own = copy + (storages pairs + own) := by
            rw [storages_snoc, ← hpair, Multiset.add_comm (storages pairs), Multiset.add_assoc]
          have hown : copy + (b' ::ₘ (blocks (recordPointers b pairs) + (storages pairs + own))) =
              blocks (recordPointers b (pairs ++ [pair])) + (storages (pairs ++ [pair]) + own) := by
            rw [hstorages, ← hpair]
            simp only [recordPointers, List.map_append, List.map_cons, List.map_nil, blocks_snoc,
              Multiset.cons_add, Multiset.add_cons, Multiset.cons_swap b' b]
            rw [blocks_left_comm]
          dsimp only
          rw [hown, hpair]
          refine (ih _ ?_ ?_).mono ?_
          · simpa [hlog] using hlog'
          · exact htold'.trans htold
          · intro r log'' own' h
            refine ⟨?_, fun hr => ?_⟩
            · rw [h.1, ← hpair]
              simp [cRecords]
            · have hleaks := h.2 hr
              rw [hstorages] at hleaks
              exact hleaks.cons hcopy

theorem owns_onChange (o : NDKPreferencesObserver φ γ) (records : Records) :
    Owns (fun r log own' => log.emitted = told o records log.refused ∧
        (r = some () → Leaks storage records (!log.emitted.isEmpty) own own'))
      (onChange storage o records) .empty own := by
  rw [onChange]
  cases hobserver : o.dataObserver with
  | none =>
      refine ⟨?_, fun _ => Leaks.none storage records own⟩
      simp [told, NDKPreferencesObserver.onChange, hobserver, Log.empty]
  | some dataObserver =>
      dsimp only
      by_cases hnil : records = []
      · rw [if_pos hnil]
        refine ⟨?_, fun _ => Leaks.none storage records own⟩
        simp [told, NDKPreferencesObserver.onChange, hobserver, hnil, Log.empty]
      rw [if_neg hnil]
      have htold : ∀ refused, told o records refused =
          if refused then [] else [(dataObserver, o.context, cRecords records)] := by
        simp [told, NDKPreferencesObserver.onChange, hobserver, hnil]
      simp only [htold]
      refine .malloc ⟨rfl, fun _ => Leaks.none storage records own⟩ ?_
      intro b _
      have hown : b ::ₘ own = blocks (recordPointers b []) + (storages [] + own) := by
        rw [← Multiset.singleton_add]
        exact congrArg _ (Multiset.zero_add own).symm
      rw [hown]
      refine (onChangeLoop_owns [] rfl rfl).mono ?_
      intro r log own' h
      refine ⟨h.1, fun hr => ?_⟩
      have hleaks := h.2 hr
      have hall : (!log.emitted.isEmpty) = !log.refused := by
        rw [h.1]
        cases log.refused with
        | false => rfl
        | true => rfl
      rw [hall, ← Multiset.zero_add own]
      exact hleaks

/-- **What the observer leaves behind.** Whatever requests are refused, the client's function has
been called once with all the records, or not at all, and nothing that was there is given back.
When `OnChange` returns, the array and the objects have gone back. Besides the blocks of before
there is the storage of the values that it has copied: of all of them, if the client has been
told. -/
theorem onChange_run {o : NDKPreferencesObserver φ γ} {records : Records} {r : Option Unit}
    {w : Arena} {tr : List (Event (AllocCall.Answer : AllocCall (φ × γ × Records) → Type))}
    (hrun : Exec allocSem (onChange storage o records) ⟨rest, false⟩ tr r w) :
    (Log.empty.after tr).emitted = told o records (Log.empty.after tr).refused ∧
      w.broken = false ∧
      (r = some () → ∃ k lost, w.live = lost + rest ∧
        lost.card = storageOf storage (records.take k) ∧
        ((Log.empty.after tr).emitted ≠ [] → records.length ≤ k)) := by
  rw [← Multiset.zero_add rest] at hrun
  obtain ⟨own, rfl, htold, hleaks⟩ := (owns_onChange o records).exec hrun
  refine ⟨htold, rfl, fun hr => ?_⟩
  obtain ⟨k, lost, rfl, hcard, hall⟩ := hleaks hr
  refine ⟨k, lost, by rw [Multiset.add_zero], hcard, ?_⟩
  intro hne
  exact hall (by simpa using hne)

/-- The storage of texts that are never kept in the object itself. -/
def textStorage : PreferencesValue → Nat
  | .string _ => 1
  | _ => 0

/-- A text and a number. The client is told of both, and the copy of the text stays behind. -/
theorem onChange_run_text :
    ∃ tr w, Exec allocSem
        (onChange textStorage (⟨0, some 'f', ()⟩ : NDKPreferencesObserver Char Unit)
          [("a", .string "text"), ("b", .int 2)]) ⟨{7}, false⟩ tr (some ()) w ∧
      (Log.empty.after tr).emitted = [('f', (), [("a", .string "text"), ("b", .int 2)])] ∧
      ∃ lost, w.live = lost + {7} ∧ lost.card = 1 := by
  have hrun : Exec allocSem
      (onChange textStorage (⟨0, some 'f', ()⟩ : NDKPreferencesObserver Char Unit)
        [("a", .string "text"), ("b", .int 2)]) ⟨{7}, false⟩
      [⟨.malloc, some 0⟩, ⟨.malloc, some 1⟩, ⟨.malloc, some 2⟩, ⟨.malloc, some 3⟩,
        ⟨.emit ('f', (), [("a", .string "text"), ("b", .int 2)]), ()⟩, ⟨.free (some 1), ()⟩,
        ⟨.free (some 3), ()⟩, ⟨.free (some 0), ()⟩] (some ()) ⟨2 ::ₘ {7}, false⟩ := by
    iterate 4 refine .call ⟨by decide, rfl⟩ ?_
    iterate 4 refine .call rfl ?_
    exact .ret
  obtain ⟨htold, -, hleft⟩ := onChange_run hrun
  obtain ⟨k, lost, hlive, hcard, hall⟩ := hleft rfl
  have hlength := hall (by rw [htold]; exact List.cons_ne_nil _ _)
  refine ⟨_, _, hrun, htold, lost, hlive, ?_⟩
  rw [hcard, List.take_of_length_le hlength]
  rfl

/-! ### A list of texts -/

/-- What `OH_PreferencesValue_GetStringArray` returns, and leaves in `*value` and `*count`: an array
of copies, or nothing. -/
structure GetStringArrayPointers where
  code : NdkErrCode
  value : Option (Block × List (Block × String))
  count : Option UInt32

/-- Nothing has been written. -/
def GetStringArrayPointers.failure (code : NdkErrCode) : GetStringArrayPointers :=
  { code, value := none, count := none }

/-- The copies that there are, and then the array. -/
def arrayPointers (array : Block) (copies : List (Block × String)) : List (Option Block) :=
  copies.map (fun copy => some copy.1) ++ [some array]

/-- The loop of `GetStringArray`, which may give everything back. Whether `memcpy_s` works is known
from the text. -/
def getStringArrayLoop (memcpyS : String → Bool) (array : Block) :
    List String → List (Block × String) → Allocating E (Option (List (Block × String)))
  | [], copies => return some copies
  | s :: vec, copies => do
      let str ← malloc
      match str with
      | none => do
          freeAll (arrayPointers array copies)
          return none
      | some b =>
          if memcpyS s then getStringArrayLoop memcpyS array vec (copies ++ [(b, s)])
          else do
            free (some b)
            freeAll (arrayPointers array copies)
            return none

/-- `OH_PreferencesValue_GetStringArray`, where `GetSelf` returns `self` and `out` says that neither
of the other pointers is null. -/
def getStringArray (memcpyS : String → Bool) (self : Option PreferencesValue) (out : Bool) :
    Allocating E GetStringArrayPointers :=
  match self with
  | none => return .failure .errorInvalidParam
  | some value =>
      if !out then return .failure .errorInvalidParam
      else
        match value with
        | .stringArray vec =>
            if vec = [] then return .failure .errorInvalidParam
            else do
              let array ← malloc
              match array with
              | none => return .failure .errorMalloc
              | some array => do
                  let copies ← getStringArrayLoop memcpyS array vec []
                  match copies with
                  | none => return .failure .errorMalloc
                  | some copies =>
                      return { code := .ok, value := some (array, copies),
                               count := some (UInt32.ofNat vec.length) }
        | _ => return .failure .errorKeyNotFound

/-- What lies in the blocks of a result. A client that reads a text as a `char *` sees it up to its
first zero byte. -/
def GetStringArrayPointers.view (r : GetStringArrayPointers) :
    NdkErrCode × Option (List String) × Option UInt32 :=
  (r.code, r.value.map (fun value => value.2.map Prod.snd), r.count)

/-- What it has to give back. -/
def GetStringArrayPointers.pointers (r : GetStringArrayPointers) : List (Option Block) :=
  r.value.elim [] (fun value => arrayPointers value.1 value.2)

/-- The result without regard to blocks: all the texts or none. -/
def stringArrayOf (memcpyS : String → Bool) (self : Option PreferencesValue) (out refused : Bool) :
    NdkErrCode × Option (List String) × Option UInt32 :=
  match self with
  | none => (.errorInvalidParam, none, none)
  | some value =>
      if !out then (.errorInvalidParam, none, none)
      else
        match value with
        | .stringArray vec =>
            if vec = [] then (.errorInvalidParam, none, none)
            else if refused || !vec.all memcpyS then (.errorMalloc, none, none)
            else (.ok, some vec, some (UInt32.ofNat vec.length))
        | _ => (.errorKeyNotFound, none, none)

/-- What the loop leaves: copies of all texts, or nothing and there is a reason. -/
def Copied (memcpyS : String → Bool) (array : Block) (vec texts : List String)
    (own : Multiset Block) (r : Option (List (Block × String))) (log : Log E)
    (own' : Multiset Block) : Prop :=
  match r with
  | none => own' = own ∧ (log.refused || !vec.all memcpyS) = true
  | some copies =>
      own' = blocks (arrayPointers array copies) + own ∧ copies.map Prod.snd = texts ++ vec ∧
        (log.refused || !vec.all memcpyS) = false

theorem getStringArrayLoop_owns {memcpyS : String → Bool} {array : Block} {vec : List String}
    (copies : List (Block × String)) (hlog : log.refused = false) :
    Owns (Copied memcpyS array vec (copies.map Prod.snd) own)
      (getStringArrayLoop memcpyS array vec copies) log
      (blocks (arrayPointers array copies) + own) := by
  induction vec generalizing copies log with
  | nil => exact ⟨rfl, (List.append_nil _).symm, by simpa using hlog⟩
  | cons s vec ih =>
      refine .malloc ?_ ?_
      · refine .freeAll _ ⟨rfl, ?_⟩
        rw [Log.refused_answer_false, Bool.true_or]
      · intro b _
        dsimp only
        cases hs : memcpyS s with
        | false =>
            rw [if_neg (by decide), ← Multiset.singleton_add, ← blocks_some]
            refine .free (.freeAll _ ⟨rfl, ?_⟩)
            simp [hs]
        | true =>
            have hown : b ::ₘ (blocks (arrayPointers array copies) + own) =
                blocks (arrayPointers array (copies ++ [(b, s)])) + own := by
              simp only [arrayPointers, List.map_append, List.map_cons, List.map_nil, blocks_snoc,
                Multiset.cons_add, Multiset.cons_swap b array]
            rw [if_pos rfl, hown]
            refine (ih _ (by simpa using hlog)).mono ?_
            intro r log' own' h
            cases r with
            | none => simpa [Copied, hs] using h
            | some copies' => simpa [Copied, hs] using h

theorem owns_getStringArray (memcpyS : String → Bool) (self : Option PreferencesValue)
    (out : Bool) :
    Owns (fun r (log : Log E) own' => r.view = stringArrayOf memcpyS self out log.refused ∧
        own' = blocks r.pointers + own)
      (getStringArray memcpyS self out) .empty own := by
  have hfailure : ∀ code, own = blocks (GetStringArrayPointers.failure code).pointers + own :=
    fun _ => (Multiset.zero_add own).symm
  cases self with
  | none => exact ⟨rfl, hfailure _⟩
  | some value =>
      cases out with
      | false => exact ⟨rfl, hfailure _⟩
      | true =>
          cases value with
          | stringArray vec =>
              by_cases hnil : vec = []
              · rw [hnil]
                exact ⟨rfl, hfailure _⟩
              have hof : ∀ refused, stringArrayOf memcpyS (some (.stringArray vec)) true refused =
                  if refused || !vec.all memcpyS then (.errorMalloc, none, none)
                  else (.ok, some vec, some (UInt32.ofNat vec.length)) := by
                simp [stringArrayOf, hnil]
              simp only [getStringArray, hof, if_neg hnil]
              refine .malloc ⟨rfl, hfailure _⟩ ?_
              intro b _
              rw [← Multiset.singleton_add]
              refine .bind (.mono (getStringArrayLoop_owns [] rfl) ?_)
              intro r log own' h
              cases r with
              | none =>
                  refine ⟨?_, h.1.trans (hfailure _)⟩
                  rw [if_pos h.2]
                  rfl
              | some copies =>
                  refine ⟨?_, h.1⟩
                  rw [if_neg (by simpa using h.2.2)]
                  exact congrArg (fun texts => (NdkErrCode.ok, some texts, _)) h.2.1
          | _ => exact ⟨rfl, hfailure _⟩

/-- **A list of texts is handed out as a whole.** Whatever requests are refused and whatever copies
fail, the client gets all the texts or an error and no pointer, and there are no other blocks than
before apart from those of the array and the texts that it has got. -/
theorem getStringArray_run {memcpyS : String → Bool} {self : Option PreferencesValue} {out : Bool}
    {r : GetStringArrayPointers} {w : Arena}
    {tr : List (Event (AllocCall.Answer : AllocCall E → Type))}
    (hrun : Exec allocSem (getStringArray memcpyS self out) ⟨rest, false⟩ tr r w) :
    r.view = stringArrayOf memcpyS self out (Log.empty.after tr).refused ∧
      w = ⟨blocks r.pointers + rest, false⟩ := by
  rw [← Multiset.zero_add rest] at hrun
  obtain ⟨own, rfl, hview, rfl⟩ := (owns_getStringArray memcpyS self out).exec hrun
  exact ⟨hview, by rw [Multiset.add_zero]⟩

/-- Two texts, and the second is not copied: nothing is handed out. -/
theorem getStringArray_run_second_copy :
    ∃ tr r w, Exec allocSem
        (getStringArray (E := Empty) (· == "a") (some (.stringArray ["a", "b"])) true)
        ⟨{7}, false⟩ tr r w ∧
      r.view = (.errorMalloc, none, none) ∧ w = ⟨blocks r.pointers + {7}, false⟩ := by
  have hrun : Exec allocSem
      (getStringArray (E := Empty) (· == "a") (some (.stringArray ["a", "b"])) true) ⟨{7}, false⟩
      [⟨.malloc, some 0⟩, ⟨.malloc, some 1⟩, ⟨.malloc, some 2⟩, ⟨.free (some 2), ()⟩,
        ⟨.free (some 1), ()⟩, ⟨.free (some 0), ()⟩] (.failure .errorMalloc) ⟨{7}, false⟩ := by
    iterate 3 refine .call ⟨by decide, rfl⟩ ?_
    iterate 3 refine .call rfl ?_
    exact .ret
  exact ⟨_, _, _, hrun, getStringArray_run hrun⟩

end NativePreferences.Ndk
