import NativePreferences.Xml.Base64Texts

/-!
# NativePreferences.Xml.Base64Safety

**What `Decode` reads and writes.** Here the index is the `uint32_t` of the code, which every access
moves by one, an access out of bounds is a fault, and the output is the vector of the caller.

On texts of less than `2 ^ 32` characters the input is never left and the loop comes to an end. But
`base64Decoder` has 255 entries, so a byte 255 is looked up behind the table. `checkedLoop_view`
connects this to the loop of `Base64`.
-/

namespace NativePreferences.Base64Helper

open Lib

/-- An access out of bounds. -/
inductive Fault
  /-- `at` throws. -/
  | input (index : Nat)
  | table (index : Nat)
  deriving DecidableEq

/-- `input.at(index)`. -/
def inputAt (input : Bytes) (index : Nat) : Except Fault UInt8 :=
  match input[index]? with
  | some ch => .ok ch
  | none => .error (.input index)

/-- `base64Decoder[ch]`. -/
def tableAt (ch : UInt8) : Except Fault UInt8 :=
  match base64Decoder[ch.toNat]? with
  | some code => .ok code
  | none => .error (.table ch.toNat)

/-- `index++`. -/
def next (index : Nat) : Nat := (index + 1) % 2 ^ 32

/-- One round of the loop. If the loop goes on, then from the index that is returned. -/
def checkedRound (input : Bytes) (index : Nat) : Except Fault (Round × Nat) := do
  let ch₁ ← tableAt (← inputAt input index)
  let index := next index
  let ch₂ ← tableAt (← inputAt input index)
  let index := next index
  if ch₁ = base64Invalid ∨ ch₂ = base64Invalid then return (.invalid, index)
  let first := ch₁ <<< 2 ||| ch₂ >>> 4
  if (← inputAt input index) = 61 then return (.last [first], index)
  let ch₃ ← tableAt (← inputAt input index)
  let index := next index
  if ch₃ = base64Invalid then return (.invalid, index)
  let second := ch₂ <<< 4 ||| ch₃ >>> 2
  if (← inputAt input index) = 61 then return (.last [first, second], index)
  let ch₄ ← tableAt (← inputAt input index)
  let index := next index
  if ch₄ = base64Invalid then return (.invalid, index)
  return (.next [first, second, ch₃ <<< 6 ||| ch₄], index)

/-- What `Decode` returns, and the vector of the caller. -/
structure Returned where
  value : Bool
  output : Bytes
  deriving DecidableEq

/-- The loop, for some number of rounds; nothing if it is still going on. -/
def checkedLoop (input output : Bytes) : (rounds : Nat) → (index : Nat) → (result : Bytes) →
    Option (Except Fault Returned)
  | 0, _, _ => none
  | rounds + 1, index, result =>
      if index < input.length then
        match checkedRound input index with
        | .error fault => some (.error fault)
        | .ok (.invalid, _) => some (.ok ⟨false, output⟩)
        | .ok (.last bytes, _) => some (.ok ⟨true, result ++ bytes⟩)
        | .ok (.next bytes, index) => checkedLoop input output rounds index (result ++ bytes)
      else some (.ok ⟨true, result⟩)

/-- `Decode`, for some number of rounds. -/
def checkedDecode (rounds : Nat) (input output : Bytes) : Option (Except Fault Returned) :=
  if input.length % 4 ≠ 0 then some (.ok ⟨false, output⟩)
  else checkedLoop input output rounds 0 []

/-- Every access is within bounds, the loop comes to an end, and without success the vector of the
caller is as before. -/
def Safe (input : Bytes) : Prop :=
  ∀ output, ∃ rounds returned, checkedDecode rounds input output = some (.ok returned) ∧
    (returned.value = false → returned.output = output)

/-! ### The same rounds -/

variable {input output : Bytes}

theorem tableAt_eq (c : UInt8) :
    tableAt c = if c = 255 then .error (.table 255) else .ok (sextet c) := by
  rw [tableAt, base64Decoder_get]
  by_cases hc : c = 255
  · subst hc
    rfl
  · simp [hc]

theorem inputAt_eq {index i : Nat} {c : UInt8} {group : Bytes} (hdrop : input.drop index = group)
    (hc : group[i]? = some c) : inputAt input (index + i) = .ok c := by
  rw [← hdrop, List.getElem?_drop] at hc
  rw [inputAt, hc]

/-- A round on a whole group stays in the input. It leaves the table where `decodeRound` does, and
gives the same answer otherwise. -/
theorem checkedRound_eq {index : Nat} {c₁ c₂ c₃ c₄ : UInt8} {rest : Bytes}
    (hfits : index + 4 < 2 ^ 32)
    (hdrop : input.drop index = c₁ :: c₂ :: c₃ :: c₄ :: rest) :
    (checkedRound input index = .error (.table 255) ∧
      decodeRound (c₁ :: c₂ :: c₃ :: c₄ :: rest) = none) ∨
    ∃ round i, checkedRound input index = .ok (round, i) ∧
      decodeRound (c₁ :: c₂ :: c₃ :: c₄ :: rest) = some round ∧
      ∀ bytes, round = .next bytes → i = index + 4 := by
  have hat₁ : inputAt input index = .ok c₁ := inputAt_eq (i := 0) hdrop rfl
  have hat₂ : inputAt input (index + 1) = .ok c₂ := inputAt_eq hdrop rfl
  have hat₃ : inputAt input (index + 2) = .ok c₃ := inputAt_eq hdrop rfl
  have hat₄ : inputAt input (index + 3) = .ok c₄ := inputAt_eq hdrop rfl
  have hnext₁ : next index = index + 1 := Nat.mod_eq_of_lt (by omega)
  have hnext₂ : next (index + 1) = index + 2 := Nat.mod_eq_of_lt (by omega)
  have hnext₃ : next (index + 2) = index + 3 := Nat.mod_eq_of_lt (by omega)
  have hnext₄ : next (index + 3) = index + 4 := Nat.mod_eq_of_lt (by omega)
  rw [decodeRound_eq]
  simp only [checkedRound, hat₁, hat₂, hat₃, hat₄, hnext₁, hnext₂, hnext₃, hnext₄, tableAt_eq,
    isLetter_iff, not_not]
  by_cases h₁ : c₁ = 255
  · simp [h₁, bind, Except.bind]
  by_cases h₂ : c₂ = 255
  · simp [h₁, h₂, bind, Except.bind]
  by_cases h₁₂ : sextet c₁ = base64Invalid ∨ sextet c₂ = base64Invalid
  · simp [h₁, h₂, h₁₂, bind, Except.bind, pure, Except.pure]
  by_cases hpad₃ : c₃ = 61
  · simp [h₁, h₂, h₁₂, hpad₃, bind, Except.bind, pure, Except.pure]
  by_cases h₃ : c₃ = 255
  · simp [h₁, h₂, h₁₂, h₃, bind, Except.bind]
  by_cases hinvalid₃ : sextet c₃ = base64Invalid
  · simp [h₁, h₂, h₁₂, hpad₃, h₃, hinvalid₃, bind, Except.bind, pure, Except.pure]
  by_cases hpad₄ : c₄ = 61
  · simp [h₁, h₂, h₁₂, hpad₃, h₃, hinvalid₃, hpad₄, bind, Except.bind, pure, Except.pure]
  by_cases h₄ : c₄ = 255
  · simp [h₁, h₂, h₁₂, hpad₃, h₃, hinvalid₃, h₄, bind, Except.bind]
  by_cases hinvalid₄ : sextet c₄ = base64Invalid
  · simp [h₁, h₂, h₁₂, hpad₃, h₃, hinvalid₃, hpad₄, h₄, hinvalid₄, bind, Except.bind, pure,
      Except.pure]
  · simp [h₁, h₂, h₁₂, hpad₃, h₃, hinvalid₃, hpad₄, h₄, hinvalid₄, bind, Except.bind, pure,
      Except.pure]

/-- What `Decode` of `Base64` keeps of a run. -/
def view : Option (Except Fault Returned) → Option (Option Bytes)
  | some (.ok ⟨true, result⟩) => some (some result)
  | some (.ok ⟨false, _⟩) => some none
  | _ => none

/-- **The loop of `Base64` is this one**, without the faults and the vector of the caller. -/
theorem checkedLoop_view (hlen : input.length < 2 ^ 32) (hfour : input.length % 4 = 0)
    (rounds k : Nat) (result : Bytes) :
    view (checkedLoop input output rounds (4 * k) result) =
      decodeLoop input rounds (4 * k) result := by
  induction rounds generalizing k result with
  | zero => rfl
  | succ rounds ih =>
      rw [checkedLoop, decodeLoop]
      by_cases hmore : 4 * k < input.length
      · obtain ⟨c₁, c₂, c₃, c₄, hdrop⟩ := drop_group hfour hmore
        have hindex : (4 * k + 4) % 2 ^ 32 = 4 * (k + 1) := by omega
        rw [if_pos hmore, if_pos hmore, hdrop]
        rcases checkedRound_eq (by omega) hdrop with ⟨hfault, hround⟩ | ⟨round, i, hok, hround, hi⟩
        · rw [hfault, hround]
          rfl
        · rw [hok, hround]
          cases round with
          | invalid => rfl
          | last bytes => rfl
          | next bytes =>
              dsimp only
              rw [hindex, hi bytes rfl]
              exact ih (k + 1) (result ++ bytes)
      · rw [if_neg hmore, if_neg hmore]
        rfl

theorem checkedLoop_output {returned : Returned} (rounds index : Nat) (result : Bytes)
    (h : checkedLoop input output rounds index result = some (.ok returned))
    (hvalue : returned.value = false) : returned.output = output := by
  induction rounds generalizing index result with
  | zero => exact absurd h (by simp [checkedLoop])
  | succ rounds ih =>
      rw [checkedLoop] at h
      split at h
      · split at h
        · exact absurd h (by simp)
        · obtain rfl := Except.ok.inj (Option.some.inj h)
          rfl
        · obtain rfl := Except.ok.inj (Option.some.inj h)
          exact absurd hvalue (by simp)
        · exact ih _ _ h
      · obtain rfl := Except.ok.inj (Option.some.inj h)
        exact absurd hvalue (by simp)

theorem view_ne_none {run : Option (Except Fault Returned)} :
    view run ≠ none ↔ ∃ returned, run = some (.ok returned) := by
  match run with
  | none | some (.error _) => simp [view]
  | some (.ok ⟨true, _⟩) | some (.ok ⟨false, _⟩) => simp [view]

/-- **`Decode` is safe** on a text exactly if the text is not made of groups, or all that is looked
up has an entry in the table. -/
theorem safe_iff (hlen : input.length < 2 ^ 32) :
    Safe input ↔ (input.length % 4 = 0 → InTable input) := by
  by_cases hfour : input.length % 4 = 0
  · have hview (rounds : Nat) (output : Bytes) : view (checkedDecode rounds input output) =
        decodeLoop input rounds (4 * 0) [] := by
      rw [checkedDecode, if_neg (not_not.mpr hfour)]
      exact checkedLoop_view hlen hfour rounds 0 []
    rw [imp_iff_right hfour, ← decodeGroups_ne_none hfour]
    constructor
    · intro hsafe hnone
      obtain ⟨rounds, returned, hrun, -⟩ := hsafe []
      -- the run has come to its end, so the groups have an answer
      have hsome := view_ne_none.mpr ⟨returned, hrun⟩
      rw [hview] at hsome
      rcases decodeLoop_eq_groups hlen hfour rounds (k := 0) (Nat.zero_le _) [] with h | ⟨h, -⟩
      · exact hsome (by rw [h, List.drop_zero, hnone]; rfl)
      · exact hsome h
    · intro hsome output
      -- one round more than there are groups is enough
      have hend : view (checkedDecode (input.length / 4 + 1) input output) ≠ none := by
        rw [hview]
        rcases decodeLoop_eq_groups hlen hfour (input.length / 4 + 1) (k := 0) (Nat.zero_le _) []
          with h | ⟨-, hfew⟩
        · rw [h, List.drop_zero]
          intro hnone
          exact hsome (Option.map_eq_none_iff.mp hnone)
        · omega
      obtain ⟨returned, hrun⟩ := view_ne_none.mp hend
      refine ⟨_, returned, hrun, ?_⟩
      rw [checkedDecode, if_neg (not_not.mpr hfour)] at hrun
      exact checkedLoop_output _ _ _ hrun
  · constructor
    · intro _ hgroups
      exact absurd hgroups hfour
    · intro _ output
      refine ⟨0, ⟨false, output⟩, ?_, fun _ => rfl⟩
      rw [checkedDecode, if_pos hfour]

/-- `@bcd`, which is rejected. -/
theorem safe_at : Safe [64, 98, 99, 100] := (safe_iff (by decide)).mpr (by decide)

/-- A text that begins with a byte 255. -/
theorem unsafe_last : ¬ ∀ input : Bytes, input.length < 2 ^ 32 → Safe input := by
  intro h
  obtain ⟨rounds, returned, hrun, -⟩ := h [255, 65, 65, 65] (by decide) []
  cases rounds with
  | zero => exact absurd hrun (by simp [checkedDecode, checkedLoop])
  | succ rounds =>
      have hround : checkedRound [255, 65, 65, 65] 0 = .error (.table 255) := by decide +kernel
      rw [checkedDecode, checkedLoop, hround] at hrun
      simp at hrun

end NativePreferences.Base64Helper
