import Mathlib.Data.Finmap

/-!
# NativePreferences.Lib.Changes

**Changes of a map, and their replay.** A change names a key and what it holds from now on, or
that it is gone. Whoever has a copy of the map from before and replays the changes has the map
again, if every key that is different now is among them, with what it holds now
(`applyChanges_eq`).
-/

namespace NativePreferences.Lib

variable {κ ν : Type} [DecidableEq κ]

/-- The new value of a key, or `none` where it is gone. -/
abbrev Changes (κ ν : Type) : Type := List (κ × Option ν)

/-- Make the changes, one after another. -/
def applyChanges (m : Finmap (fun _ : κ => ν)) (cs : Changes κ ν) : Finmap (fun _ : κ => ν) :=
  cs.foldl (fun m c => match c.2 with
    | some v => m.insert c.1 v
    | none => m.erase c.1) m

variable {m n : Finmap (fun _ : κ => ν)} {cs : Changes κ ν} {k : κ}

/-- The first change. -/
theorem lookup_applyChanges_one (c : κ × Option ν) :
    (applyChanges m [c]).lookup k = if k = c.1 then c.2 else m.lookup k := by
  obtain ⟨k', o⟩ := c
  by_cases hk : k = k'
  · rw [if_pos hk, hk]
    cases o with
    | none => exact Finmap.lookup_erase k' m
    | some v => exact Finmap.lookup_insert m
  · rw [if_neg hk]
    cases o with
    | none => exact Finmap.lookup_erase_ne hk
    | some v => exact Finmap.lookup_insert_of_ne m hk

/-- A key that no change names. -/
theorem lookup_applyChanges_of_notMem (h : ∀ c ∈ cs, k ≠ c.1) :
    (applyChanges m cs).lookup k = m.lookup k := by
  induction cs generalizing m with
  | nil => rfl
  | cons c cs ih =>
      have hrest : ∀ c' ∈ cs, k ≠ c'.1 := fun c' hc' => h c' (List.mem_cons_of_mem _ hc')
      show (applyChanges (applyChanges m [c]) cs).lookup k = _
      rw [ih hrest, lookup_applyChanges_one, if_neg (h c List.mem_cons_self)]

/-- A key with changes that all say the same. -/
theorem lookup_applyChanges_of_mem {o : Option ν} (hall : ∀ c ∈ cs, k = c.1 → c.2 = o)
    (hmem : ∃ c ∈ cs, k = c.1) : (applyChanges m cs).lookup k = o := by
  induction cs generalizing m with
  | nil =>
      obtain ⟨c, hc, -⟩ := hmem
      cases hc
  | cons c cs ih =>
      show (applyChanges (applyChanges m [c]) cs).lookup k = o
      have hrest : ∀ c' ∈ cs, k = c'.1 → c'.2 = o :=
        fun c' hc' => hall c' (List.mem_cons_of_mem _ hc')
      by_cases hlater : ∃ c' ∈ cs, k = c'.1
      · exact ih hrest hlater
      · -- the first change is the only one that names the key
        have hnone : ∀ c' ∈ cs, k ≠ c'.1 := fun c' hc' hk => hlater ⟨c', hc', hk⟩
        obtain ⟨c', hc', hk⟩ := hmem
        obtain rfl | hc' := List.mem_cons.mp hc'
        · rw [lookup_applyChanges_of_notMem hnone, lookup_applyChanges_one, if_pos hk]
          exact hall _ List.mem_cons_self hk
        · exact absurd hk (hnone c' hc')

/-- **Replay.** -/
theorem applyChanges_eq (hnew : ∀ c ∈ cs, c.2 = n.lookup c.1)
    (hold : ∀ k, (∀ c ∈ cs, k ≠ c.1) → m.lookup k = n.lookup k) : applyChanges m cs = n := by
  refine Finmap.ext_lookup ?_
  intro k
  by_cases hmem : ∃ c ∈ cs, k = c.1
  · refine lookup_applyChanges_of_mem ?_ hmem
    intro c hc hk
    rw [hnew c hc, hk]
  · have hnone : ∀ c ∈ cs, k ≠ c.1 := fun c hc hk => hmem ⟨c, hc, hk⟩
    rw [lookup_applyChanges_of_notMem hnone, hold k hnone]

end NativePreferences.Lib
