import Mathlib.Data.List.Infix

/-!
# NativePreferences.Lib.Search

**Searching in a string, and cutting pieces out of it.** A string is a list of characters, and a
position is the number of those before it. `find` and `rfind` give the first and the last position
where a pattern stands, and `substr` the piece that begins at a position, with as many characters as
there are up to a count. There is no piece that begins behind the end of the string.
-/

namespace NativePreferences.Lib

variable {α : Type*}

/-- The piece at `pos`. -/
def substr (s : List α) (pos count : Nat) : Option (List α) :=
  if s.length < pos then none else some ((s.drop pos).take count)

theorem substr_eq {s : List α} {pos count : Nat} (h : pos ≤ s.length) :
    substr s pos count = some ((s.drop pos).take count) :=
  if_neg (Nat.not_lt.mpr h)

/-- The pattern stands at this position. -/
def StandsAt (pat s : List α) (i : Nat) : Prop := i ≤ s.length ∧ pat <+: s.drop i

theorem standsAt_nil {pat : List α} {i : Nat} : StandsAt pat [] i ↔ i = 0 ∧ pat = [] := by
  rw [StandsAt, List.drop_nil, List.prefix_nil, List.length_nil, Nat.le_zero]

theorem standsAt_zero {pat s : List α} : StandsAt pat s 0 ↔ pat <+: s := by
  rw [StandsAt, List.drop_zero]
  exact and_iff_right (Nat.zero_le _)

theorem standsAt_succ {pat s : List α} {c : α} {i : Nat} :
    StandsAt pat (c :: s) (i + 1) ↔ StandsAt pat s i := by
  rw [StandsAt, StandsAt, List.length_cons, Nat.succ_le_succ_iff, List.drop_succ_cons]

/-- What stands at a position lies in the string. -/
theorem StandsAt.length_le {pat s : List α} {i : Nat} (h : StandsAt pat s i) :
    i + pat.length ≤ s.length := by
  obtain ⟨hle, hprefix⟩ := h
  have hlength := hprefix.length_le
  rw [List.length_drop] at hlength
  omega

variable [DecidableEq α]

/-- The first position of the pattern. -/
def find (pat : List α) : List α → Option Nat
  | [] => if pat = [] then some 0 else none
  | c :: s => if pat <+: c :: s then some 0 else (find pat s).map (· + 1)

/-- The last position of the pattern. -/
def rfind (pat : List α) : List α → Option Nat
  | [] => if pat = [] then some 0 else none
  | c :: s =>
      match rfind pat s with
      | some i => some (i + 1)
      | none => if pat <+: c :: s then some 0 else none

variable {pat s : List α} {i : Nat}

theorem find_eq_some_iff :
    find pat s = some i ↔ StandsAt pat s i ∧ ∀ j < i, ¬ StandsAt pat s j := by
  induction s generalizing i with
  | nil =>
      simp only [find, standsAt_nil]
      split
      · next hpat => grind
      · next hpat => grind
  | cons c s ih =>
      rw [find]
      by_cases hfirst : pat <+: c :: s
      · rw [if_pos hfirst, Option.some.injEq]
        constructor
        · rintro rfl
          exact ⟨standsAt_zero.mpr hfirst, fun j hj => absurd hj (Nat.not_lt_zero j)⟩
        · intro ⟨_, hleast⟩
          by_contra hne
          exact hleast 0 (Nat.pos_of_ne_zero (Ne.symm hne)) (standsAt_zero.mpr hfirst)
      · rw [if_neg hfirst]
        cases i with
        | zero =>
            refine iff_of_false (by simp) ?_
            intro ⟨hstands, _⟩
            exact hfirst (standsAt_zero.mp hstands)
        | succ i =>
            rw [Option.map_eq_some_iff, standsAt_succ]
            constructor
            · intro ⟨k, hk, heq⟩
              obtain rfl := Nat.succ_inj.mp heq
              obtain ⟨hstands, hleast⟩ := ih.mp hk
              refine ⟨hstands, ?_⟩
              intro j hj hj'
              cases j with
              | zero => exact hfirst (standsAt_zero.mp hj')
              | succ j => exact hleast j (Nat.lt_of_succ_lt_succ hj) (standsAt_succ.mp hj')
            · intro ⟨hstands, hleast⟩
              refine ⟨i, ih.mpr ⟨hstands, ?_⟩, rfl⟩
              intro j hj hj'
              exact hleast (j + 1) (Nat.succ_lt_succ hj) (standsAt_succ.mpr hj')

theorem rfind_eq_none_iff : rfind pat s = none ↔ ∀ j, ¬ StandsAt pat s j := by
  induction s with
  | nil =>
      simp only [rfind, standsAt_nil]
      split
      · next hpat => exact iff_of_false (by simp) (fun hnone => hnone 0 ⟨rfl, hpat⟩)
      · next hpat => exact iff_of_true rfl (fun j hj => hpat hj.2)
  | cons c s ih =>
      rw [rfind]
      cases hrest : rfind pat s with
      | some i =>
          refine iff_of_false (by simp) ?_
          intro hnone
          have hnowhere := ih.mpr (fun j hj => hnone (j + 1) (standsAt_succ.mpr hj))
          cases hrest.symm.trans hnowhere
      | none =>
          have hnowhere := ih.mp hrest
          dsimp only
          split
          · next hfirst =>
            exact iff_of_false (by simp) (fun hnone => hnone 0 (standsAt_zero.mpr hfirst))
          · next hfirst =>
            refine iff_of_true rfl ?_
            intro j hj
            cases j with
            | zero => exact hfirst (standsAt_zero.mp hj)
            | succ j => exact hnowhere j (standsAt_succ.mp hj)

theorem rfind_eq_some_iff :
    rfind pat s = some i ↔ StandsAt pat s i ∧ ∀ j > i, ¬ StandsAt pat s j := by
  induction s generalizing i with
  | nil =>
      simp only [rfind, standsAt_nil]
      split
      · next hpat => grind
      · next hpat => grind
  | cons c s ih =>
      rw [rfind]
      cases hrest : rfind pat s with
      | some k =>
          obtain ⟨hstands, hlast⟩ := ih.mp hrest
          rw [Option.some.injEq]
          constructor
          · rintro rfl
            refine ⟨standsAt_succ.mpr hstands, ?_⟩
            intro j hj hj'
            cases j with
            | zero => exact absurd hj (Nat.not_lt_zero _)
            | succ j => exact hlast j (Nat.lt_of_succ_lt_succ hj) (standsAt_succ.mp hj')
          · intro ⟨hstands', hlast'⟩
            cases i with
            | zero => exact absurd (standsAt_succ.mpr hstands) (hlast' (k + 1) (Nat.succ_pos k))
            | succ i =>
                have hi := ih.mpr ⟨standsAt_succ.mp hstands', fun j hj hj' =>
                  hlast' (j + 1) (Nat.succ_lt_succ hj) (standsAt_succ.mpr hj')⟩
                cases hrest.symm.trans hi
                rfl
      | none =>
          have hnowhere := rfind_eq_none_iff.mp hrest
          dsimp only
          cases i with
          | succ i =>
              refine iff_of_false ?_ (fun hstands => hnowhere i (standsAt_succ.mp hstands.1))
              split <;> simp
          | zero =>
              rw [standsAt_zero]
              have hlater : ∀ j > 0, ¬ StandsAt pat (c :: s) j := by
                intro j hj hj'
                cases j with
                | zero => exact absurd hj (Nat.lt_irrefl 0)
                | succ j => exact hnowhere j (standsAt_succ.mp hj')
              split
              · next hfirst => exact iff_of_true rfl ⟨hfirst, hlater⟩
              · next hfirst => exact iff_of_false nofun (fun hstands => hfirst hstands.1)

end NativePreferences.Lib
