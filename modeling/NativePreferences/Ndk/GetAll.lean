import NativePreferences.Ndk.Convertor

/-!
# NativePreferences.Ndk.GetAll

**Reading everything through the C interface** (`OH_Preferences_GetAll`). An array of pairs is
allocated and `PackData` fills it: for each entry it makes a copy of the key and an object for the
value. Every one of these allocations may fail.

`PackData` returns the position at which it has stopped, and 0 if it has not. So a failure at
position 0 is taken for success, and the caller gets `PREFERENCES_OK` with an array that has not
been filled. The position is a `uint32_t`: from `2 ^ 32` entries on it comes round to 0, and the
pairs beyond are never filled. These are the only exceptions (`getAll_allOrNothing_iff`).
-/

namespace NativePreferences

/-- `OH_PreferencesPair`, as far as `PackData` fills it from an entry. A field is `none` when there
is no object behind it, also while nothing has been written to it. -/
structure OHPreferencesPair where
  key : Option String
  value : Option PreferencesValue
  deriving DecidableEq

/-- Which allocations work: that of the array, and those of the rounds of `PackData`. -/
structure Allocations where
  pairs : Bool
  key : Nat → Bool
  value : Nat → Bool

/-- What `OH_Preferences_GetAll` returns, and leaves in `*pairs` and `*count`. -/
structure GetAllResult where
  code : NdkErrCode
  pairs : Option (List OHPreferencesPair)
  count : Option UInt32
  deriving DecidableEq

namespace OHPreferencesPair

/-- A fresh array. -/
def empty : OHPreferencesPair := ⟨none, none⟩

/-- The pair has a key and a value. -/
def filled (pair : OHPreferencesPair) : Bool := pair.key.isSome && pair.value.isSome

end OHPreferencesPair

open OHPreferencesPair

/-- `strdup(key.c_str())`: the copy ends at the first zero byte. -/
def strdup (key : String) : String := String.ofList (key.toList.takeWhile (· ≠ Char.ofNat 0))

variable {alloc : Allocations} {res : List (String × PreferencesValue)} {j k f : Nat} {i : UInt32}
variable {pairs before after : List OHPreferencesPair} {key : String} {value : PreferencesValue}

/-- The loop of `PackData`, in round `j` and at position `i`. -/
def packLoop (alloc : Allocations) : List (String × PreferencesValue) → Nat → UInt32 →
    List OHPreferencesPair → UInt32 × List OHPreferencesPair
  | [], _, _, pairs => (0, pairs)
  | (key, value) :: res, j, i, pairs =>
      if alloc.key j then
        if alloc.value j then
          packLoop alloc res (j + 1) (i + 1) (pairs.set i.toNat ⟨some (strdup key), some value⟩)
        else (i, pairs.modify i.toNat (fun pair => { pair with key := some (strdup key) }))
      else (i, pairs.modify i.toNat (fun pair => { pair with key := none }))

/-- `PackData`, on an array of the right size. The entries come in the order in which the map
iterates. -/
def packData (alloc : Allocations) (res : List (String × PreferencesValue)) :
    UInt32 × List OHPreferencesPair :=
  packLoop alloc res 0 0 (List.replicate res.length empty)

/-- `OH_Preferences_GetAll`, where `GetAllDatas` has returned `res`. It leaves `*pairs` as it is if
the store is empty; `OH_PreferencesPair_Destroy` only gives memory back. -/
def ohGetAll (alloc : Allocations) (res : List (String × PreferencesValue))
    (pairs : Option (List OHPreferencesPair)) : GetAllResult :=
  if res = [] then { code := .errorKeyNotFound, pairs, count := none }
  else
    let count := UInt32.ofNat res.length
    if !alloc.pairs then { code := .errorMalloc, pairs := none, count }
    else
      let (iCount, pairs) := packData alloc res
      if iCount ≠ 0 then { code := .errorMalloc, pairs := none, count }
      else { code := .ok, pairs, count }

/-! ### Where the loop stops -/

namespace Allocations

/-- An allocation of the round fails. -/
def fails (alloc : Allocations) (j : Nat) : Bool := !(alloc.key j && alloc.value j)

/-- The first of the `length` rounds from `start` on in which an allocation fails. -/
def firstFailure (alloc : Allocations) (start length : Nat) : Option Nat :=
  (List.range' start length).find? alloc.fails

theorem firstFailure_succ (alloc : Allocations) (start length : Nat) :
    alloc.firstFailure start (length + 1) =
      if alloc.fails start then some start else alloc.firstFailure (start + 1) length := by
  rw [firstFailure, List.range'_succ]
  split
  · next hfails => exact List.find?_cons_of_pos hfails
  · next hworks => exact List.find?_cons_of_neg hworks

theorem firstFailure_bounds (h : alloc.firstFailure j k = some f) : j ≤ f ∧ f < j + k := by
  have hmem := List.mem_of_find?_eq_some h
  rw [List.mem_range'_1] at hmem
  exact hmem

end Allocations

/-- One round: the loop goes on, or it leaves a pair without a key or without a value. -/
theorem packLoop_cons (alloc : Allocations) (key : String) (value : PreferencesValue)
    (res : List (String × PreferencesValue)) (j : Nat) (i : UInt32)
    (pairs : List OHPreferencesPair) :
    (alloc.fails j = false ∧ packLoop alloc ((key, value) :: res) j i pairs =
        packLoop alloc res (j + 1) (i + 1)
          (pairs.set i.toNat ⟨some (strdup key), some value⟩)) ∨
      ∃ g : OHPreferencesPair → OHPreferencesPair, (g empty).filled = false ∧
        alloc.fails j = true ∧
        packLoop alloc ((key, value) :: res) j i pairs = (i, pairs.modify i.toNat g) := by
  rw [packLoop, Allocations.fails]
  cases hkey : alloc.key j with
  | false => exact .inr ⟨_, rfl, rfl, rfl⟩
  | true =>
      cases hvalue : alloc.value j with
      | false => exact .inr ⟨_, rfl, rfl, rfl⟩
      | true => exact .inl ⟨rfl, rfl⟩

theorem position_succ (j : Nat) : UInt32.ofNat j + 1 = UInt32.ofNat (j + 1) :=
  (UInt32.ofNat_add j 1).symm

theorem toNat_position (hj : j < 2 ^ 32) : (UInt32.ofNat j).toNat = j :=
  UInt32.toNat_ofNat_of_lt' hj

/-- The number that `PackData` returns. -/
theorem packLoop_fst (alloc : Allocations) (res : List (String × PreferencesValue)) (j : Nat)
    (pairs : List OHPreferencesPair) :
    (packLoop alloc res j (UInt32.ofNat j) pairs).1 =
      ((alloc.firstFailure j res.length).map UInt32.ofNat).getD 0 := by
  induction res generalizing j pairs with
  | nil => rfl
  | cons entry res ih =>
      rw [List.length_cons, Allocations.firstFailure_succ]
      obtain ⟨hworks, hloop⟩ | ⟨g, -, hfails, hloop⟩ :=
        packLoop_cons alloc entry.1 entry.2 res j (UInt32.ofNat j) pairs
      · rw [hloop, position_succ, ih, hworks]
        rfl
      · rw [hloop, hfails]
        rfl

/-! ### What the loop fills -/

/-- No position is beyond what a `uint32_t` holds. -/
theorem packLoop_getElem?_of_le (hk : 2 ^ 32 ≤ k) :
    (packLoop alloc res j i pairs).2[k]? = pairs[k]? := by
  induction res generalizing j i pairs with
  | nil => rfl
  | cons entry res ih =>
      have hne : i.toNat ≠ k := (lt_of_lt_of_le i.toNat_lt hk).ne
      obtain ⟨-, hloop⟩ | ⟨g, -, -, hloop⟩ := packLoop_cons alloc entry.1 entry.2 res j i pairs
      · rw [hloop, ih, List.getElem?_set_ne hne]
      · rw [hloop, List.getElem?_modify_ne _ _ hne]

/-- The pair at which the loop has stopped is not filled. -/
theorem packLoop_getElem?_of_failure (hsize : j + res.length ≤ 2 ^ 32)
    (hfail : alloc.firstFailure j res.length = some f) (hempty : pairs[f]? = some empty) :
    ∃ pair, (packLoop alloc res j (UInt32.ofNat j) pairs).2[f]? = some pair ∧
      pair.filled = false := by
  induction res generalizing j pairs with
  | nil => exact absurd hfail (by simp [Allocations.firstFailure])
  | cons entry res ih =>
      rw [List.length_cons] at hsize hfail
      have hj : (UInt32.ofNat j).toNat = j := toNat_position (by omega)
      rw [Allocations.firstFailure_succ] at hfail
      obtain ⟨hworks, hloop⟩ | ⟨g, hg, hfails, hloop⟩ :=
        packLoop_cons alloc entry.1 entry.2 res j (UInt32.ofNat j) pairs
      · rw [hworks, if_neg (by decide)] at hfail
        have hbounds := Allocations.firstFailure_bounds hfail
        rw [hloop, hj, position_succ]
        refine ih (by omega) hfail ?_
        rw [List.getElem?_set_ne (by omega)]
        exact hempty
      · rw [hfails, if_pos rfl] at hfail
        obtain rfl := Option.some.inj hfail
        rw [hloop, hj]
        exact ⟨g empty, by rw [List.getElem?_modify_eq, hempty]; rfl, hg⟩

/-- If nothing fails, the rest of the array gets the entries. -/
theorem packLoop_of_no_failure (before : List OHPreferencesPair)
    (hsize : before.length + res.length ≤ 2 ^ 32)
    (hnone : alloc.firstFailure before.length res.length = none)
    (hafter : after.length = res.length) :
    (packLoop alloc res before.length (UInt32.ofNat before.length) (before ++ after)).2 =
      before ++ res.map (fun entry => ⟨some (strdup entry.1), some entry.2⟩) := by
  induction res generalizing before after with
  | nil =>
      rw [List.eq_nil_of_length_eq_zero hafter]
      rfl
  | cons entry res ih =>
      obtain ⟨old, after, rfl⟩ : ∃ old after', after = old :: after' :=
        List.exists_cons_of_length_eq_add_one hafter
      rw [List.length_cons] at hsize hnone
      replace hafter : after.length = res.length := Nat.succ.inj hafter
      have hj : (UInt32.ofNat before.length).toNat = before.length := toNat_position (by omega)
      rw [Allocations.firstFailure_succ] at hnone
      obtain ⟨hworks, hloop⟩ | ⟨g, -, hfails, -⟩ := packLoop_cons alloc entry.1 entry.2 res
        before.length (UInt32.ofNat before.length) (before ++ old :: after)
      · rw [hworks, if_neg (by decide)] at hnone
        -- The pair at this position joins those that are done.
        generalize hpair : OHPreferencesPair.mk (some (strdup entry.1)) (some entry.2) = pair
          at hloop
        have hset : (before ++ old :: after).set before.length pair =
            (before ++ [pair]) ++ after := by
          rw [List.set_append_right _ _ (le_refl _), Nat.sub_self, List.append_assoc]
          rfl
        have hlength : before.length + 1 = (before ++ [pair]).length := by
          rw [List.length_append, List.length_singleton]
        rw [hloop, hj, hset, position_succ]
        rw [hlength] at hnone ⊢
        rw [ih (before ++ [pair]) (by rw [← hlength]; omega) hnone hafter, List.append_assoc,
          ← hpair]
        rfl
      · rw [hfails, if_pos rfl] at hnone
        exact absurd hnone (by simp)

/-- `PackData` fills the array if no allocation fails and the positions do not come round. -/
theorem packData_filled_iff (alloc : Allocations) (res : List (String × PreferencesValue)) :
    (∀ pair ∈ (packData alloc res).2, pair.filled = true) ↔
      alloc.firstFailure 0 res.length = none ∧ res.length ≤ 2 ^ 32 := by
  have hfresh : ∀ k, k < res.length → (List.replicate res.length empty)[k]? = some empty := by
    intro k hk
    rw [List.getElem?_replicate, if_pos hk]
  constructor
  · intro hfilled
    have hsize : res.length ≤ 2 ^ 32 := by
      by_contra hlarge
      have hlast : (packData alloc res).2[2 ^ 32]? = some empty :=
        (packLoop_getElem?_of_le (le_refl _)).trans (hfresh _ (by omega))
      exact absurd (hfilled empty (List.mem_of_getElem? hlast)) (by decide)
    refine ⟨?_, hsize⟩
    cases hfail : alloc.firstFailure 0 res.length with
    | none => rfl
    | some f =>
        have hbounds := Allocations.firstFailure_bounds hfail
        obtain ⟨pair, hpair, hempty⟩ := packLoop_getElem?_of_failure (by omega) hfail
          (hfresh f (by omega))
        rw [hfilled pair (List.mem_of_getElem? hpair)] at hempty
        exact absurd hempty (by decide)
  · intro ⟨hnone, hsize⟩ pair hpair
    have hpack : (packData alloc res).2 = [] ++ res.map _ :=
      packLoop_of_no_failure [] (by simpa using hsize) hnone (by simp)
    rw [hpack, List.nil_append] at hpair
    obtain ⟨entry, -, rfl⟩ := List.mem_map.mp hpair
    rfl

/-! ### The result -/

/-- The array was allocated, and `PackData` has given all pairs a key and a value. -/
def AllFilled (alloc : Allocations) (res : List (String × PreferencesValue)) : Prop :=
  alloc.pairs = true ∧ ∀ pair ∈ (packData alloc res).2, pair.filled = true

/-- The call returns `PREFERENCES_OK` exactly when all pairs were filled, and else an error with a
null pointer. -/
def AllOrNothing (alloc : Allocations) (res : List (String × PreferencesValue))
    (pairs : Option (List OHPreferencesPair)) : Prop :=
  ((ohGetAll alloc res pairs).code = .ok ↔ AllFilled alloc res) ∧
    (¬ AllFilled alloc res →
      (ohGetAll alloc res pairs).code ≠ .ok ∧ (ohGetAll alloc res pairs).pairs = none)

theorem packData_fst (alloc : Allocations) (res : List (String × PreferencesValue)) :
    (packData alloc res).1 = ((alloc.firstFailure 0 res.length).map UInt32.ofNat).getD 0 :=
  packLoop_fst alloc res 0 _

/-- **When the bulk read is all-or-nothing.** For a store that is not empty: if the array is not
allocated; if the first failing round is none of 0, `2 ^ 32`, `2 * 2 ^ 32` and so on; or if nothing
fails and there are at most `2 ^ 32` entries. -/
theorem getAll_allOrNothing_iff (alloc : Allocations) (res : List (String × PreferencesValue))
    (pairs : Option (List OHPreferencesPair)) (hne : res ≠ []) :
    AllOrNothing alloc res pairs ↔
      alloc.pairs = false ∨
        (∃ f, alloc.firstFailure 0 res.length = some f ∧ f % 2 ^ 32 ≠ 0) ∨
        (alloc.firstFailure 0 res.length = none ∧ res.length ≤ 2 ^ 32) := by
  have hfst := packData_fst alloc res
  have hfilled := packData_filled_iff alloc res
  rw [AllOrNothing, AllFilled, hfilled, ohGetAll, if_neg hne]
  dsimp only
  cases hpairs : alloc.pairs with
  | false => simp
  | true =>
      rw [if_neg (by decide)]
      generalize packData alloc res = result at hfst ⊢
      obtain ⟨iCount, packed⟩ := result
      dsimp only at hfst ⊢
      cases hfail : alloc.firstFailure 0 res.length with
      | none =>
          rw [hfail] at hfst
          obtain rfl : iCount = 0 := hfst
          simp
      | some f =>
          rw [hfail] at hfst
          obtain rfl : iCount = UInt32.ofNat f := hfst
          have hzero : UInt32.ofNat f = 0 ↔ f % 2 ^ 32 = 0 := by
            rw [← UInt32.toNat_inj, UInt32.toNat_ofNat']
            exact Iff.rfl
          by_cases hround : f % 2 ^ 32 = 0
          · rw [if_neg (not_not.mpr (hzero.mpr hround))]
            simpa using hround
          · rw [if_pos (fun h => hround (hzero.mp h))]
            simpa using hround

/-- Two entries, and the second key cannot be copied. -/
theorem getAll_second_key :
    AllOrNothing ⟨true, (· == 0), fun _ => true⟩ [("a", .int 1), ("b", .int 2)] none :=
  (getAll_allOrNothing_iff _ _ none (by simp)).mpr (.inr (.inl ⟨1, by decide, by decide⟩))

/-- One entry, and its key cannot be copied. -/
theorem getAll_first_key :
    ¬ ∀ (alloc : Allocations) (res : List (String × PreferencesValue))
      (pairs : Option (List OHPreferencesPair)), res ≠ [] → AllOrNothing alloc res pairs := by
  intro hall
  have hcode := (hall ⟨true, fun _ => false, fun _ => true⟩ [("a", .int 1)] none (by simp)).1.mp
    (by decide)
  exact absurd (hcode.2 ⟨none, none⟩ (by decide)) (by decide)

end NativePreferences
