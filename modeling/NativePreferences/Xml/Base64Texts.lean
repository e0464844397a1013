import Mathlib.Data.List.GetD
import NativePreferences.Xml.Base64

/-!
# NativePreferences.Xml.Base64Texts

**Which texts `Decode` takes**, for texts of less than `2 ^ 32` characters.

Everything depends on the first byte that is not one of the 64 letters: `Decode` looks at nothing
behind the group of four in which it is. If that byte is padding in the third or the fourth place of
its group, the loop is left and the text is taken, whatever follows. So `Decode` takes more than
`Encode` writes, and exactly when is `Canonical`.
-/

namespace NativePreferences.Base64Helper

open Lib

/-! ### Letters -/

/-- One of the 64 letters, as a byte. -/
def IsLetter (c : UInt8) : Prop := c ∈ base64Encoder.map byte

instance (c : UInt8) : Decidable (IsLetter c) := inferInstanceAs (Decidable (_ ∈ _))

/-- What the table says about a byte. The one byte that it has no entry for is no letter either. -/
def sextet (c : UInt8) : UInt8 := base64Decoder.getD c.toNat base64Invalid

/-- The number of letters that the text begins with. -/
def lead (input : Bytes) : Nat := (input.takeWhile (IsLetter ·)).length

theorem decoded : ∀ n < 256, sextet (UInt8.ofNat n) = base64Invalid ∨
    (sextet (UInt8.ofNat n)).toNat < 64 ∧
      byte (letter (sextet (UInt8.ofNat n))) = UInt8.ofNat n := by
  decide +kernel

theorem mem_letters {code : UInt8} (h : code.toNat < 64) : IsLetter (byte (letter code)) := by
  refine List.mem_map_of_mem ?_
  rw [letter, List.getD_eq_getElem _ _ h]
  exact List.getElem_mem h

variable {c c₁ c₂ c₃ c₄ : UInt8} {input rest : Bytes}

theorem sextet_cases (c : UInt8) : sextet c = base64Invalid ∨
    (sextet c).toNat < 64 ∧ byte (letter (sextet c)) = c := by
  have h := decoded c.toNat c.toNat_lt
  rwa [UInt8.ofNat_toNat] at h

/-- The letters are the bytes that the table does not refuse. -/
theorem isLetter_iff : IsLetter c ↔ sextet c ≠ base64Invalid := by
  constructor
  · intro h
    obtain ⟨ch, hch, rfl⟩ := List.mem_map.mp h
    obtain ⟨n, hn, rfl⟩ := List.getElem_of_mem hch
    change n < 64 at hn
    have hcode : (UInt8.ofNat n).toNat = n := UInt8.toNat_ofNat_of_lt' (Nat.lt_trans hn (by decide))
    obtain ⟨-, -, hread, hvalid⟩ := letter_spec (hcode.symm ▸ hn)
    rw [letter, hcode, List.getD_eq_getElem _ _ hn] at hread
    rwa [sextet, List.getD_eq_getElem?_getD, hread]
  · intro h
    obtain ⟨hlt, hwritten⟩ := (sextet_cases c).resolve_left h
    rw [← hwritten]
    exact mem_letters hlt

theorem IsLetter.sextet_lt (h : IsLetter c) : (sextet c).toNat < 64 :=
  ((sextet_cases c).resolve_left (isLetter_iff.mp h)).1

theorem IsLetter.letter_sextet (h : IsLetter c) : byte (letter (sextet c)) = c :=
  ((sextet_cases c).resolve_left (isLetter_iff.mp h)).2

theorem base64Decoder_get (c : UInt8) :
    base64Decoder[c.toNat]? = if c = 255 then none else some (sextet c) := by
  by_cases hc : c = 255
  · subst hc
    rfl
  · have hlength : base64Decoder.length = 255 := by decide +kernel
    have hlt : c.toNat < base64Decoder.length := by
      have hne : c.toNat ≠ 255 := fun heq => hc (UInt8.toNat_inj.mp heq)
      have hbyte := c.toNat_lt
      omega
    rw [if_neg hc, sextet, List.getD_eq_getElem _ _ hlt]
    exact List.getElem?_eq_getElem hlt

theorem not_isLetter_padding : ¬ IsLetter 61 := by decide

theorem not_isLetter_last : ¬ IsLetter 255 := by decide

theorem IsLetter.ne_padding (h : IsLetter c) : c ≠ 61 := by
  intro heq
  exact not_isLetter_padding (heq ▸ h)

theorem IsLetter.ne_last (h : IsLetter c) : c ≠ 255 := by
  intro heq
  exact not_isLetter_last (heq ▸ h)

theorem lead_cons (h : IsLetter c) : lead (c :: rest) = lead rest + 1 := by
  simp [lead, h]

theorem lead_stop (h : ¬ IsLetter c) : lead (c :: rest) = 0 := by
  simp [lead, h]

/-! ### A round -/

/-- The table is asked about bytes in this order, and the first answer that is not six bits ends the
round. -/
theorem decodeRound_eq : decodeRound (c₁ :: c₂ :: c₃ :: c₄ :: rest) =
    if c₁ = 255 ∨ c₂ = 255 then none
    else if ¬ IsLetter c₁ ∨ ¬ IsLetter c₂ then some .invalid
    else if c₃ = 61 then some (.last [sextet c₁ <<< 2 ||| sextet c₂ >>> 4])
    else if c₃ = 255 then none
    else if ¬ IsLetter c₃ then some .invalid
    else if c₄ = 61 then
      some (.last [sextet c₁ <<< 2 ||| sextet c₂ >>> 4, sextet c₂ <<< 4 ||| sextet c₃ >>> 2])
    else if c₄ = 255 then none
    else if ¬ IsLetter c₄ then some .invalid
    else some (.next [sextet c₁ <<< 2 ||| sextet c₂ >>> 4, sextet c₂ <<< 4 ||| sextet c₃ >>> 2,
      sextet c₃ <<< 6 ||| sextet c₄]) := by
  simp only [decodeRound, base64Decoder_get, isLetter_iff, not_not]
  by_cases h₁ : c₁ = 255
  · simp [h₁]
  by_cases h₂ : c₂ = 255
  · simp [h₁, h₂]
  simp only [h₁, h₂, if_false, or_self]
  by_cases h₃ : c₃ = 255
  · simp [h₃]
  by_cases h₄ : c₄ = 255 <;> simp [h₃, h₄]

/-! ### The loop, group by group -/

/-- The loop of `Decode` on what is left of a text of groups, without an index. -/
def decodeGroups : Bytes → Option (Option Bytes)
  | c₁ :: c₂ :: c₃ :: c₄ :: rest =>
      match decodeRound (c₁ :: c₂ :: c₃ :: c₄ :: rest) with
      | none => none
      | some .invalid => some none
      | some (.last bytes) => some (some bytes)
      | some (.next bytes) => (decodeGroups rest).map (Option.map (bytes ++ ·))
  | _ => some (some [])

theorem drop_group (hfour : input.length % 4 = 0) {k : Nat} (hk : 4 * k < input.length) :
    ∃ c₁ c₂ c₃ c₄, input.drop (4 * k) = c₁ :: c₂ :: c₃ :: c₄ :: input.drop (4 * (k + 1)) := by
  have hlong : 4 ≤ (input.drop (4 * k)).length := by
    rw [List.length_drop]
    omega
  match hrest : input.drop (4 * k) with
  | c₁ :: c₂ :: c₃ :: c₄ :: rest =>
      have hnext : input.drop (4 * (k + 1)) = rest := by
        rw [Nat.mul_succ, ← List.drop_drop, hrest]
        rfl
      exact ⟨c₁, c₂, c₃, c₄, by rw [hnext]⟩
  | [] | [_] | [_, _] | [_, _, _] =>
      rw [hrest] at hlong
      simp at hlong

/-- As long as the index does not wrap, the loop goes through the groups, or there are not enough
rounds. -/
theorem decodeLoop_eq_groups (hlen : input.length < 2 ^ 32) (hfour : input.length % 4 = 0)
    (rounds : Nat) {k : Nat} (hk : 4 * k ≤ input.length) (result : Bytes) :
    decodeLoop input rounds (4 * k) result =
        (decodeGroups (input.drop (4 * k))).map (Option.map (result ++ ·)) ∨
      decodeLoop input rounds (4 * k) result = none ∧ 4 * (k + rounds) ≤ input.length := by
  induction rounds generalizing k result with
  | zero => exact .inr ⟨rfl, hk⟩
  | succ rounds ih =>
      by_cases hmore : 4 * k < input.length
      · obtain ⟨c₁, c₂, c₃, c₄, hdrop⟩ := drop_group hfour hmore
        have hindex : (4 * k + 4) % 2 ^ 32 = 4 * (k + 1) % 2 ^ 32 := by omega
        rw [decodeLoop, if_pos hmore, hdrop, decodeGroups]
        rcases decodeRound (c₁ :: c₂ :: c₃ :: c₄ :: input.drop (4 * (k + 1))) with
          _ | _ | bytes | bytes
        · exact .inl rfl
        · exact .inl rfl
        · exact .inl rfl
        · have hmod : 4 * (k + 1) % 2 ^ 32 = 4 * (k + 1) := Nat.mod_eq_of_lt (by omega)
          dsimp only
          rw [hindex, hmod]
          rcases ih (k := k + 1) (by omega) (result ++ bytes) with h | ⟨h, hfew⟩
          · refine .inl ?_
            rw [h, Option.map_map]
            congr 1
            funext o
            cases o <;> simp
          · exact .inr ⟨h, by omega⟩
      · have hend : input.drop (4 * k) = [] := List.drop_eq_nil_of_le (by omega)
        rw [decodeLoop, if_neg hmore, hend]
        exact .inl (by simp [decodeGroups])

theorem decode_eq_groups (hlen : input.length < 2 ^ 32) :
    decode input = if input.length % 4 ≠ 0 then some none else decodeGroups input := by
  rw [decode]
  split
  · rfl
  · rename_i hfour
    rcases decodeLoop_eq_groups hlen (not_not.mp hfour) (input.length / 4 + 1) (k := 0)
      (Nat.zero_le _) [] with h | ⟨-, hfew⟩
    · have hid : ∀ o : Option Bytes, o.map ([] ++ ·) = o := by
        intro o
        cases o <;> rfl
      rw [Nat.mul_zero] at h
      simpa [hid] using h
    · omega

theorem length_rest (hfour : (c₁ :: c₂ :: c₃ :: c₄ :: rest).length % 4 = 0) :
    rest.length % 4 = 0 := by
  simp only [List.length_cons] at hfour
  omega

/-- Induction over a text in groups of four. -/
@[elab_as_elim]
theorem groups_induction {motive : (input : Bytes) → input.length % 4 = 0 → Prop}
    (nil : motive [] rfl)
    (group : ∀ c₁ c₂ c₃ c₄ rest hfour, motive rest (length_rest hfour) →
      motive (c₁ :: c₂ :: c₃ :: c₄ :: rest) hfour) :
    ∀ (input : Bytes) (hfour : input.length % 4 = 0), motive input hfour
  | [], _ => nil
  | c₁ :: c₂ :: c₃ :: c₄ :: rest, hfour =>
      group c₁ c₂ c₃ c₄ rest hfour (groups_induction nil group rest (length_rest hfour))

/-! ### A group by its first byte that is no letter -/

theorem decodeGroups_letters (h₁ : IsLetter c₁) (h₂ : IsLetter c₂) (h₃ : IsLetter c₃)
    (h₄ : IsLetter c₄) :
    decodeGroups (c₁ :: c₂ :: c₃ :: c₄ :: rest) = (decodeGroups rest).map (Option.map
      ([sextet c₁ <<< 2 ||| sextet c₂ >>> 4, sextet c₂ <<< 4 ||| sextet c₃ >>> 2,
        sextet c₃ <<< 6 ||| sextet c₄] ++ ·)) := by
  rw [decodeGroups, decodeRound_eq]
  simp [h₁, h₂, h₃, h₄, h₁.ne_last, h₂.ne_last, h₃.ne_last, h₄.ne_last, h₃.ne_padding,
    h₄.ne_padding]

theorem decodeGroups_stop₁ (h₁ : ¬ IsLetter c₁) :
    decodeGroups (c₁ :: c₂ :: c₃ :: c₄ :: rest) =
      if c₁ = 255 ∨ c₂ = 255 then none else some none := by
  rw [decodeGroups, decodeRound_eq, if_pos (Or.inl h₁)]
  split_ifs <;> rfl

theorem decodeGroups_stop₂ (h₁ : IsLetter c₁) (h₂ : ¬ IsLetter c₂) :
    decodeGroups (c₁ :: c₂ :: c₃ :: c₄ :: rest) = if c₂ = 255 then none else some none := by
  rw [decodeGroups, decodeRound_eq, if_pos (Or.inr h₂)]
  simp only [h₁.ne_last, false_or]
  split_ifs <;> rfl

theorem decodeGroups_stop₃ (h₁ : IsLetter c₁) (h₂ : IsLetter c₂) (h₃ : ¬ IsLetter c₃) :
    decodeGroups (c₁ :: c₂ :: c₃ :: c₄ :: rest) =
      if c₃ = 61 then some (some [sextet c₁ <<< 2 ||| sextet c₂ >>> 4])
      else if c₃ = 255 then none else some none := by
  rw [decodeGroups, decodeRound_eq]
  simp only [h₁, h₂, h₃, h₁.ne_last, h₂.ne_last, not_true, not_false_eq_true, or_self, if_false,
    if_true]
  split_ifs <;> rfl

theorem decodeGroups_stop₄ (h₁ : IsLetter c₁) (h₂ : IsLetter c₂) (h₃ : IsLetter c₃)
    (h₄ : ¬ IsLetter c₄) :
    decodeGroups (c₁ :: c₂ :: c₃ :: c₄ :: rest) =
      if c₄ = 61 then some (some [sextet c₁ <<< 2 ||| sextet c₂ >>> 4,
        sextet c₂ <<< 4 ||| sextet c₃ >>> 2])
      else if c₄ = 255 then none else some none := by
  rw [decodeGroups, decodeRound_eq]
  simp only [h₁, h₂, h₃, h₄, h₁.ne_last, h₂.ne_last, h₃.ne_last, h₃.ne_padding, not_true,
    not_false_eq_true, or_self, if_false, if_true]
  split_ifs <;> rfl

/-! ### Texts that are read within the table -/

/-- The first byte that is no letter has an entry in the table, and so has the byte behind it if it
is looked up before the first one is rejected. -/
def InTable (input : Bytes) : Prop :=
  input[lead input]? ≠ some 255 ∧ (lead input % 4 = 0 → input[lead input + 1]? ≠ some 255)

instance (input : Bytes) : Decidable (InTable input) := inferInstanceAs (Decidable (_ ∧ _))

theorem lead_group (h₁ : IsLetter c₁) (h₂ : IsLetter c₂) (h₃ : IsLetter c₃) (h₄ : IsLetter c₄) :
    lead (c₁ :: c₂ :: c₃ :: c₄ :: rest) = lead rest + 4 := by
  rw [lead_cons h₁, lead_cons h₂, lead_cons h₃, lead_cons h₄]

theorem lead_stop₃ (h₁ : IsLetter c₁) (h₂ : IsLetter c₂) (h₃ : ¬ IsLetter c₃) :
    lead (c₁ :: c₂ :: c₃ :: rest) = 2 := by
  rw [lead_cons h₁, lead_cons h₂, lead_stop h₃]

theorem lead_stop₄ (h₁ : IsLetter c₁) (h₂ : IsLetter c₂) (h₃ : IsLetter c₃) (h₄ : ¬ IsLetter c₄) :
    lead (c₁ :: c₂ :: c₃ :: c₄ :: rest) = 3 := by
  rw [lead_cons h₁, lead_cons h₂, lead_cons h₃, lead_stop h₄]

theorem inTable_group (h₁ : IsLetter c₁) (h₂ : IsLetter c₂) (h₃ : IsLetter c₃)
    (h₄ : IsLetter c₄) : InTable (c₁ :: c₂ :: c₃ :: c₄ :: rest) ↔ InTable rest := by
  rw [InTable, InTable, lead_group h₁ h₂ h₃ h₄, Nat.add_mod_right,
    Nat.add_right_comm (lead rest) 4 1]
  simp only [List.getElem?_cons_succ]

/-- **The table is left** exactly by the texts that are not `InTable`. -/
theorem decodeGroups_ne_none (hfour : input.length % 4 = 0) :
    decodeGroups input ≠ none ↔ InTable input := by
  induction input, hfour using groups_induction with
  | nil => simp [decodeGroups, InTable]
  | group c₁ c₂ c₃ c₄ rest _ ih =>
      by_cases h₁ : IsLetter c₁
      · by_cases h₂ : IsLetter c₂
        · by_cases h₃ : IsLetter c₃
          · by_cases h₄ : IsLetter c₄
            · rw [inTable_group h₁ h₂ h₃ h₄, ← ih, decodeGroups_letters h₁ h₂ h₃ h₄]
              simp
            · rw [decodeGroups_stop₄ h₁ h₂ h₃ h₄, InTable, lead_stop₄ h₁ h₂ h₃ h₄]
              split_ifs with hpad hlast <;> simp [*]
          · rw [decodeGroups_stop₃ h₁ h₂ h₃, InTable, lead_stop₃ h₁ h₂ h₃]
            split_ifs with hpad hlast <;> simp [*]
        · rw [decodeGroups_stop₂ h₁ h₂, InTable, lead_cons h₁, lead_stop h₂]
          simp
      · rw [decodeGroups_stop₁ h₁, InTable, lead_stop h₁]
        simp

/-! ### Texts that are written like this -/

theorem high_bits {x : UInt8} (h : x.toNat < 64) :
    x.toBitVec[6] = false ∧ x.toBitVec[7] = false := by
  have h₇ : x.toNat < 2 ^ 7 := by omega
  exact ⟨Nat.testBit_lt_two_pow (i := 6) h, Nat.testBit_lt_two_pow h₇⟩

section Bits

variable {x₁ x₂ x₃ x₄ : UInt8}

/-- `Encode` finds the six bits again that `Decode` has put together. -/
theorem sextet₁_bytes (h₁ : x₁.toNat < 64) (h₂ : x₂.toNat < 64) :
    (x₁ <<< 2 ||| x₂ >>> 4) >>> 2 = x₁ := by
  obtain ⟨h₁₆, h₁₇⟩ := high_bits h₁
  obtain ⟨h₂₆, h₂₇⟩ := high_bits h₂
  apply eq_of_bits
  intro i hi
  interval_cases i <;> simp [*]

theorem sextet₂_bytes (h₂ : x₂.toNat < 64) (h₃ : x₃.toNat < 64) :
    ((x₁ <<< 2 ||| x₂ >>> 4) &&& 3) <<< 4 ||| (x₂ <<< 4 ||| x₃ >>> 2) >>> 4 = x₂ := by
  obtain ⟨h₂₆, h₂₇⟩ := high_bits h₂
  obtain ⟨h₃₆, h₃₇⟩ := high_bits h₃
  apply eq_of_bits
  intro i hi
  interval_cases i <;> simp [*]

theorem sextet₃_bytes (h₃ : x₃.toNat < 64) (h₄ : x₄.toNat < 64) :
    ((x₂ <<< 4 ||| x₃ >>> 2) &&& 15) <<< 2 ||| (x₃ <<< 6 ||| x₄) >>> 6 = x₃ := by
  obtain ⟨h₃₆, h₃₇⟩ := high_bits h₃
  obtain ⟨h₄₆, h₄₇⟩ := high_bits h₄
  apply eq_of_bits
  intro i hi
  interval_cases i <;> simp [*]

theorem sextet₄_bytes (h₄ : x₄.toNat < 64) : (x₃ <<< 6 ||| x₄) &&& 63 = x₄ := by
  obtain ⟨h₄₆, h₄₇⟩ := high_bits h₄
  apply eq_of_bits
  intro i hi
  interval_cases i <;> simp [*]

/-- The bits of the last letter that make no byte are written as zeros. -/
theorem sextet₂_padded (h₂ : x₂.toNat < 64) :
    ((x₁ <<< 2 ||| x₂ >>> 4) &&& 3) <<< 4 = x₂ &&& 48 := by
  obtain ⟨h₂₆, h₂₇⟩ := high_bits h₂
  apply eq_of_bits
  intro i hi
  interval_cases i <;> simp [*]

theorem sextet₃_padded (h₃ : x₃.toNat < 64) :
    ((x₂ <<< 4 ||| x₃ >>> 2) &&& 15) <<< 2 = x₃ &&& 60 := by
  obtain ⟨h₃₆, h₃₇⟩ := high_bits h₃
  apply eq_of_bits
  intro i hi
  interval_cases i <;> simp [*]

end Bits

/-- If `Decode` comes upon padding, it is what `Encode` writes: padding up to the end of a group
that is the last one, and no bits of the letter before are left over. -/
def Canonical (input : Bytes) : Prop :=
  2 ≤ lead input % 4 → input[lead input]? = some 61 →
    input.drop (lead input) = List.replicate (4 - lead input % 4) 61 ∧
      (sextet (input.getD (lead input - 1) 0)).toNat % 4 ^ (4 - lead input % 4) = 0

instance (input : Bytes) : Decidable (Canonical input) := inferInstanceAs (Decidable (_ → _))

theorem canonical_group (h₁ : IsLetter c₁) (h₂ : IsLetter c₂) (h₃ : IsLetter c₃)
    (h₄ : IsLetter c₄) : Canonical (c₁ :: c₂ :: c₃ :: c₄ :: rest) ↔ Canonical rest := by
  rw [Canonical, Canonical, lead_group h₁ h₂ h₃ h₄, Nat.add_mod_right]
  refine imp_congr_right ?_
  intro hplace
  -- the letter before the padding is in the same group
  obtain ⟨n, hn⟩ : ∃ n, lead rest = n + 1 := ⟨lead rest - 1, by omega⟩
  rw [hn]
  simp

theorem canonical_two (h₁ : IsLetter c₁) (h₂ : IsLetter c₂) (h₃ : IsLetter c₃) :
    Canonical (c₁ :: c₂ :: c₃ :: 61 :: rest) ↔ rest = [] ∧ (sextet c₃).toNat % 4 = 0 := by
  rw [Canonical, lead_stop₄ h₁ h₂ h₃ not_isLetter_padding]
  simp

theorem canonical_one (h₁ : IsLetter c₁) (h₂ : IsLetter c₂) :
    Canonical (c₁ :: c₂ :: 61 :: c₄ :: rest) ↔
      (c₄ = 61 ∧ rest = []) ∧ (sextet c₂).toNat % 16 = 0 := by
  rw [Canonical, lead_stop₃ h₁ h₂ not_isLetter_padding]
  simp

theorem letter_inj {x y : UInt8} (hx : x.toNat < 64) (hy : y.toNat < 64) :
    byte (letter x) = byte (letter y) ↔ x = y := by
  constructor
  · intro heq
    have hread := (letter_spec hx).2.2.1
    rw [heq, (letter_spec hy).2.2.1] at hread
    exact (Option.some.inj hread).symm
  · intro heq
    rw [heq]

theorem masked : ∀ n < 64,
    ((UInt8.ofNat n &&& 48).toNat < 64 ∧
      (UInt8.ofNat n &&& 48 = UInt8.ofNat n ↔ (UInt8.ofNat n).toNat % 16 = 0)) ∧
    (UInt8.ofNat n &&& 60).toNat < 64 ∧
      (UInt8.ofNat n &&& 60 = UInt8.ofNat n ↔ (UInt8.ofNat n).toNat % 4 = 0) := by
  decide +kernel

/-- The last letter is written again exactly if its spare bits are zero. -/
theorem spare_bits (h : IsLetter c) :
    (byte (letter (sextet c &&& 48)) = c ↔ (sextet c).toNat % 16 = 0) ∧
      (byte (letter (sextet c &&& 60)) = c ↔ (sextet c).toNat % 4 = 0) := by
  have hmask := masked (sextet c).toNat h.sextet_lt
  rw [UInt8.ofNat_toNat] at hmask
  obtain ⟨⟨hlt₄, h₄⟩, hlt₂, h₂⟩ := hmask
  rw [← h₄, ← h₂, ← letter_inj hlt₄ h.sextet_lt, ← letter_inj hlt₂ h.sextet_lt, h.letter_sextet]
  exact ⟨Iff.rfl, Iff.rfl⟩

section Groups

variable (h₁ : IsLetter c₁) (h₂ : IsLetter c₂) (h₃ : IsLetter c₃)
include h₁ h₂

/-- What `Encode` writes for the bytes of a group. -/
theorem encoded_group_one : encoded 1 [sextet c₁ <<< 2 ||| sextet c₂ >>> 4] =
    [c₁, byte (letter (sextet c₂ &&& 48)), 61, 61] := by
  have hone (b : UInt8) : encoded 1 [b] =
      [byte (letter (b >>> 2)), byte (letter ((b &&& 3) <<< 4)), 61, 61] := rfl
  rw [hone, sextet₁_bytes h₁.sextet_lt h₂.sextet_lt, sextet₂_padded h₂.sextet_lt,
    h₁.letter_sextet]

include h₃

theorem encoded_group_two :
    encoded 2 [sextet c₁ <<< 2 ||| sextet c₂ >>> 4, sextet c₂ <<< 4 ||| sextet c₃ >>> 2] =
      [c₁, c₂, byte (letter (sextet c₃ &&& 60)), 61] := by
  have htwo (b c : UInt8) : encoded 2 [b, c] = [byte (letter (b >>> 2)),
      byte (letter ((b &&& 3) <<< 4 ||| c >>> 4)), byte (letter ((c &&& 15) <<< 2)), 61] := rfl
  rw [htwo, sextet₁_bytes h₁.sextet_lt h₂.sextet_lt, sextet₂_bytes h₂.sextet_lt h₃.sextet_lt,
    sextet₃_padded h₃.sextet_lt, h₁.letter_sextet, h₂.letter_sextet]

theorem encoded_group_three (h₄ : IsLetter c₄) (len : Nat) (p : Bytes) :
    encoded (len + 3) ([sextet c₁ <<< 2 ||| sextet c₂ >>> 4, sextet c₂ <<< 4 ||| sextet c₃ >>> 2,
        sextet c₃ <<< 6 ||| sextet c₄] ++ p) = c₁ :: c₂ :: c₃ :: c₄ :: encoded len p := by
  have hthree := encoded_three len (sextet c₁ <<< 2 ||| sextet c₂ >>> 4)
    (sextet c₂ <<< 4 ||| sextet c₃ >>> 2) (sextet c₃ <<< 6 ||| sextet c₄) p
  rw [sextet₁_bytes h₁.sextet_lt h₂.sextet_lt, sextet₂_bytes h₂.sextet_lt h₃.sextet_lt,
    sextet₃_bytes h₃.sextet_lt h₄.sextet_lt, sextet₄_bytes h₄.sextet_lt, h₁.letter_sextet,
    h₂.letter_sextet, h₃.letter_sextet, h₄.letter_sextet] at hthree
  exact hthree

end Groups

/-- **`Encode` gives the text back** exactly if it is canonical. -/
theorem decodeGroups_faithful (hfour : input.length % 4 = 0) :
    (∀ bytes, decodeGroups input = some (some bytes) → encoded bytes.length bytes = input) ↔
      Canonical input := by
  induction input, hfour using groups_induction with
  | nil => simp [decodeGroups, Canonical, encoded, encodeLoop]
  | group c₁ c₂ c₃ c₄ rest _ ih =>
      by_cases h₁ : IsLetter c₁
      · by_cases h₂ : IsLetter c₂
        · by_cases h₃ : IsLetter c₃
          · by_cases h₄ : IsLetter c₄
            · rw [canonical_group h₁ h₂ h₃ h₄, ← ih, decodeGroups_letters h₁ h₂ h₃ h₄]
              have hrest (p : Bytes) := encoded_group_three h₁ h₂ h₃ h₄ p.length p
              cases decodeGroups rest with
              | none => simp
              | some answer =>
                  cases answer with
                  | none => simp
                  | some p =>
                      specialize hrest p
                      simp_all
            · rw [decodeGroups_stop₄ h₁ h₂ h₃ h₄]
              split_ifs with hpad hlast
              · subst hpad
                rw [canonical_two h₁ h₂ h₃, and_comm]
                simp [encoded_group_two h₁ h₂ h₃, (spare_bits h₃).2]
              · rw [Canonical, lead_stop₄ h₁ h₂ h₃ h₄]
                simp [hpad]
              · rw [Canonical, lead_stop₄ h₁ h₂ h₃ h₄]
                simp [hpad]
          · rw [decodeGroups_stop₃ h₁ h₂ h₃]
            split_ifs with hpad hlast
            · subst hpad
              rw [canonical_one h₁ h₂, and_comm]
              simp [encoded_group_one h₁ h₂, (spare_bits h₂).1, @eq_comm UInt8 61]
            · rw [Canonical, lead_stop₃ h₁ h₂ h₃]
              simp [hpad]
            · rw [Canonical, lead_stop₃ h₁ h₂ h₃]
              simp [hpad]
        · rw [decodeGroups_stop₂ h₁ h₂, Canonical, lead_cons h₁, lead_stop h₂]
          simp
      · rw [decodeGroups_stop₁ h₁, Canonical, lead_stop h₁]
        simp

theorem length_of_decodeRound {bytes : Bytes}
    (h : decodeRound (c₁ :: c₂ :: c₃ :: c₄ :: rest) = some (.last bytes) ∨
      decodeRound (c₁ :: c₂ :: c₃ :: c₄ :: rest) = some (.next bytes)) : bytes.length ≤ 4 := by
  rw [decodeRound_eq] at h
  split_ifs at h <;> simp at h <;> simp [← h]

theorem length_of_decodeGroups (hfour : input.length % 4 = 0) :
    ∀ bytes, decodeGroups input = some (some bytes) → bytes.length ≤ input.length := by
  induction input, hfour using groups_induction with
  | nil => simp [decodeGroups]
  | group c₁ c₂ c₃ c₄ rest _ ih =>
      intro bytes hbytes
      rw [decodeGroups] at hbytes
      split at hbytes
      · exact absurd hbytes (by simp)
      · exact absurd hbytes (by simp)
      · rename_i hround
        obtain rfl := Option.some.inj (Option.some.inj hbytes)
        have hshort := length_of_decodeRound (.inl hround)
        simp only [List.length_cons]
        omega
      · rename_i first hround
        have hshort := length_of_decodeRound (.inr hround)
        obtain ⟨answer, hanswer, hsome⟩ := Option.map_eq_some_iff.mp hbytes
        obtain ⟨more, rfl, rfl⟩ := Option.map_eq_some_iff.mp hsome
        have hmore := ih more hanswer
        simp only [List.length_append, List.length_cons]
        omega

/-- **Only what `Encode` writes is taken**, exactly if the text is canonical or has not whole
groups: `Encode` then gives the text back that `Decode` has taken. -/
theorem decode_faithful_iff (hlen : input.length < 2 ^ 32) :
    (∀ bytes, decode input = some (some bytes) → utf8 (encode bytes) = input) ↔
      (input.length % 4 = 0 → Canonical input) := by
  rw [decode_eq_groups hlen]
  by_cases hfour : input.length % 4 = 0
  · rw [if_neg (not_not.mpr hfour), imp_iff_right hfour, ← decodeGroups_faithful hfour]
    refine forall_congr' ?_
    intro bytes
    refine imp_congr_right ?_
    intro hbytes
    have hshort := length_of_decodeGroups hfour bytes hbytes
    rw [utf8_encode, Nat.mod_eq_of_lt (Nat.lt_of_le_of_lt hshort hlen)]
  · simp [hfour]

/-- `AQI=` is read as two bytes, which are written as `AQI=`. -/
theorem decode_faithful_two :
    decode [65, 81, 73, 61] = some (some [1, 2]) ∧ utf8 (encode [1, 2]) = [65, 81, 73, 61] := by
  have hread : decode [65, 81, 73, 61] = some (some [1, 2]) := by decide +kernel
  exact ⟨hread, (decode_faithful_iff (by decide)).mpr (by decide) [1, 2] hread⟩

/-- `AQ=I` is read as one byte, which is written as `AQ==`. -/
theorem decode_unfaithful :
    ¬ ∀ input : Bytes, input.length < 2 ^ 32 → ∀ bytes, decode input = some (some bytes) →
      utf8 (encode bytes) = input := by
  intro h
  have hread : decode [65, 81, 61, 73] = some (some [1]) := by decide +kernel
  have hwritten := h [65, 81, 61, 73] (by decide) [1] hread
  exact absurd hwritten (by decide +kernel)

/-- The other ways: padding before the end, and bits that are left over. -/
example : decode [65, 81, 61, 61, 65, 65, 65, 65] = some (some [1]) ∧
    decode [65, 82, 61, 61] = some (some [1]) := by
  decide +kernel

/-! ### The round trip -/

/-- **An array comes back** if its text, four letters for every three bytes, has less than `2 ^ 32`
characters. -/
theorem round_trip (bytes : Bytes) (htext : 4 * ((bytes.length + 2) / 3) < 2 ^ 32) :
    decode (utf8 (encode bytes)) = some (some bytes) := by
  rw [decode_encode]
  omega

theorem round_trip_two :
    decode (utf8 (encode [1, 2])) = some (some [1, 2]) :=
  round_trip [1, 2] (by decide)

/-- What `Encode` writes can be short because it takes the length into a `uint32_t`. An array comes
back from less than `2 ^ 32` written characters exactly if its length fits. -/
theorem round_trip_iff (bytes : Bytes) (htext : (utf8 (encode bytes)).length < 2 ^ 32) :
    decode (utf8 (encode bytes)) = some (some bytes) ↔ bytes.length < 2 ^ 32 := by
  rw [decode_encode]
  constructor
  · intro hsmall
    omega
  · intro hfits
    rw [utf8_encode, Nat.mod_eq_of_lt hfits, encoded_length (Nat.le_refl _)] at htext
    omega

end NativePreferences.Base64Helper
