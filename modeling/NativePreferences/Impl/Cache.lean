import NativePreferences.Value

/-!
# NativePreferences.Impl.Cache

**The cache of an XML store** (`preferences_impl.cpp`): the three members that `Put`,
`Delete`, `Clear` and the snapshot of `WriteToDiskFile` work on, and these functions on
them.

`Clear` is lazy: it only raises `isCleared_`. The next `Put` or snapshot finds the flag
and empties the map, marking its keys as modified (`dropCleared`). `Put`, `Delete` and the
snapshot read the flag once, at the start of their critical section, and `Clear` takes no
lock; so each of them gets the value it read as a parameter `cleared` of its own.

`Tracks` is the property that makes flushing right: every key whose visible value
differs from what is, or is about to be, on disk is marked.
-/

namespace NativePreferences

/-- The members that `cacheMutex_` protects, and `isCleared_`. -/
structure Cache where
  modifiedKeys : Finset String
  isCleared : Bool
  valuesCache : PrefMap
  deriving DecidableEq

namespace Cache

/-- The cache of a new instance. -/
def initial : Cache := { modifiedKeys := ∅, isCleared := false, valuesCache := ∅ }

/-- What the reading functions see. -/
def visible (c : Cache) : PrefMap := if c.isCleared then ∅ else c.valuesCache

/-- Carry out a `Clear`: the keys that vanish are modified keys. -/
def dropCleared (c : Cache) : Cache :=
  { modifiedKeys := c.modifiedKeys ∪ c.valuesCache.keys, isCleared := false, valuesCache := ∅ }

/-- Insert or assign, and mark the key. -/
def assign (c : Cache) (key : String) (value : PreferencesValue) : Cache :=
  { c with
    valuesCache := c.valuesCache.insert key value, modifiedKeys := insert key c.modifiedKeys }

/-- The critical section of `Put`. A value equal to the stored one changes nothing. -/
def put (c : Cache) (key : String) (value : PreferencesValue) (cleared : Bool) : Cache :=
  if cleared then
    c.dropCleared.assign key value
  else
    match c.valuesCache.lookup key with
    | some val => if val.eq value then c else c.assign key value
    | none => c.assign key value

/-- The critical section of `Delete`. -/
def delete (c : Cache) (key : String) (cleared : Bool) : Cache :=
  if cleared then c
  else if key ∈ c.valuesCache then
    { c with
      valuesCache := c.valuesCache.erase key, modifiedKeys := insert key c.modifiedKeys }
  else c

/-- `Clear`. -/
def clear (c : Cache) : Cache := { c with isCleared := true }

/-- The cache the snapshot works on: a `Clear` it has seen is carried out first. -/
def settle (c : Cache) (cleared : Bool) : Cache := if cleared then c.dropCleared else c

/-- The critical section of `WriteToDiskFile`: the modified keys and the map to write, if
there is anything to write. -/
def snapshot (c : Cache) (cleared : Bool) : Option (Finset String × PrefMap) × Cache :=
  let c := c.settle cleared
  if c.modifiedKeys = ∅ then (none, c)
  else (some (c.modifiedKeys, c.valuesCache), { c with modifiedKeys := ∅ })

/-- `LoadFromDisk` moves the values it read over the cache. -/
def load (c : Cache) (values : PrefMap) : Cache := { c with valuesCache := values }

/-- `ReloadFromDisk` reads into a copy of the cache, and `ReadXmlElement` inserts: a key that
is already there keeps its value. -/
def reload (c : Cache) (values : PrefMap) : Cache :=
  { c with valuesCache := c.valuesCache ∪ values }

/-! ### Marked keys -/

/-- The keys the next snapshot will treat as modified. -/
def Dirty (c : Cache) (key : String) : Prop :=
  key ∈ c.modifiedKeys ∨ (c.isCleared = true ∧ key ∈ c.valuesCache)

/-- Every key whose visible value differs from `base` is marked. -/
def Tracks (c : Cache) (base : PrefMap) : Prop :=
  ∀ key, c.visible.lookup key ≠ base.lookup key → c.Dirty key

variable {c : Cache} {base : PrefMap} {key : String} {value : PreferencesValue} {cleared : Bool}

@[simp] theorem visible_of_cleared (h : c.isCleared = true) : c.visible = ∅ := by
  simp [visible, h]

@[simp] theorem visible_of_not_cleared (h : c.isCleared = false) :
    c.visible = c.valuesCache := by
  simp [visible, h]

/-- With nothing marked, the base is what readers see. -/
theorem Tracks.visible_eq (h : c.Tracks base) (hclean : ∀ key, ¬ c.Dirty key) :
    c.visible = base := by
  refine Finmap.ext_lookup ?_
  intro key
  by_contra hne
  exact hclean key (h key hne)

/-- Marking more keys while the visible map stays as it is. -/
theorem Tracks.mono {c' : Cache} (h : c.Tracks base) (hvis : c'.visible = c.visible)
    (hdirty : ∀ key, c.Dirty key → c'.Dirty key) : c'.Tracks base := by
  intro key hne
  rw [hvis] at hne
  exact hdirty key (h key hne)

/-- Emptying a cache keeps the marks. -/
theorem Dirty.dropCleared (h : c.Dirty key) : c.dropCleared.Dirty key := by
  refine .inl ?_
  rcases h with hmod | ⟨-, hmem⟩
  · exact Finset.mem_union_left _ hmod
  · exact Finset.mem_union_right _ (Finmap.mem_keys.mpr hmem)

theorem Tracks.dropCleared (h : c.Tracks base) (hc : c.isCleared = true) :
    c.dropCleared.Tracks base := by
  refine h.mono ?_ (fun _ => Dirty.dropCleared)
  rw [visible_of_cleared hc]
  rfl

/-- Changing the value of one key and marking it keeps track. -/
theorem Tracks.touch {c' : Cache} (h : c.Tracks base) (hcl : c'.isCleared = c.isCleared)
    (hmod : c'.modifiedKeys = insert key c.modifiedKeys)
    (hval : ∀ k, k ≠ key → c'.valuesCache.lookup k = c.valuesCache.lookup k) :
    c'.Tracks base := by
  intro k hne
  by_cases hk : k = key
  · rw [hk]
    refine .inl ?_
    rw [hmod]
    exact Finset.mem_insert_self _ _
  · have hlookup : c'.visible.lookup k = c.visible.lookup k := by
      unfold visible
      rw [hcl]
      split
      · rfl
      · exact hval k hk
    rw [hlookup] at hne
    rcases h k hne with hin | ⟨hc, hmem⟩
    · refine .inl ?_
      rw [hmod]
      exact Finset.mem_insert_of_mem hin
    · refine .inr ⟨hcl.trans hc, ?_⟩
      rw [← Finmap.lookup_isSome, hval k hk]
      exact Finmap.lookup_isSome.mpr hmem

theorem Tracks.assign (h : c.Tracks base) : (c.assign key value).Tracks base :=
  h.touch rfl rfl (fun _ hk => Finmap.lookup_insert_of_ne _ hk)

/-- `Put` keeps track, provided that it read a raised flag only if the flag is raised. -/
theorem Tracks.put (h : c.Tracks base) (hc : cleared = true → c.isCleared = true) :
    (c.put key value cleared).Tracks base := by
  unfold Cache.put
  cases cleared with
  | true => exact (h.dropCleared (hc rfl)).assign
  | false =>
      simp only [Bool.false_eq_true, if_false]
      split
      · split
        · exact h
        · exact h.assign
      · exact h.assign

theorem Tracks.delete (h : c.Tracks base) : (c.delete key cleared).Tracks base := by
  unfold Cache.delete
  split
  · exact h
  · split
    · exact h.touch rfl rfl (fun _ hk => Finmap.lookup_erase_ne hk)
    · exact h

theorem Tracks.clear (h : c.Tracks base) : c.clear.Tracks base := by
  intro k hne
  by_cases hmem : k ∈ c.valuesCache
  · exact .inr ⟨rfl, hmem⟩
  · have hnone : c.visible.lookup k = none := by
      cases hc : c.isCleared with
      | true => rw [visible_of_cleared hc, Finmap.lookup_empty]
      | false => rw [visible_of_not_cleared hc, Finmap.lookup_eq_none.mpr hmem]
    have hne' : c.visible.lookup k ≠ base.lookup k := by
      rw [hnone]
      exact hne
    rcases h k hne' with hmod | ⟨-, hin⟩
    · exact .inl hmod
    · exact absurd hin hmem

/-! ### The snapshot -/

/-- No key is marked: a snapshot would find nothing to write. -/
def Clean (c : Cache) : Prop := ∀ key, ¬ c.Dirty key

/-- Settling does not change what readers see, provided that it acts on a raised flag only
if the flag is raised. -/
theorem visible_settle (hc : cleared = true → c.isCleared = true) :
    (c.settle cleared).visible = c.visible := by
  cases cleared with
  | true =>
      rw [visible_of_cleared (hc rfl)]
      rfl
  | false => rfl

/-- With the flag as it is, settling lowers it. -/
theorem isCleared_settle (c : Cache) : (c.settle c.isCleared).isCleared = false := by
  cases hc : c.isCleared with
  | true => rfl
  | false => exact hc

/-- What settling marks was marked. -/
theorem dirty_of_settle (hc : cleared = true → c.isCleared = true)
    (h : (c.settle cleared).Dirty key) : c.Dirty key := by
  cases cleared with
  | false => exact h
  | true =>
      rcases h with hmod | ⟨-, hmem⟩
      · rcases Finset.mem_union.mp hmod with hold | hkey
        · exact .inl hold
        · exact .inr ⟨hc rfl, Finmap.mem_keys.mp hkey⟩
      · exact absurd hmem Finmap.notMem_empty

theorem Dirty.settle (h : c.Dirty key) : (c.settle cleared).Dirty key := by
  cases cleared with
  | true => exact h.dropCleared
  | false => exact h

/-- What the cache looks like after a snapshot, whether or not there was anything to
write. -/
def swept (c : Cache) (cleared : Bool) : Cache := { c.settle cleared with modifiedKeys := ∅ }

theorem swept_of_clean (h : (c.settle cleared).modifiedKeys = ∅) :
    c.settle cleared = c.swept cleared := by
  rw [swept, ← h]

theorem visible_swept (hc : cleared = true → c.isCleared = true) :
    (c.swept cleared).visible = c.visible :=
  visible_settle hc

theorem Clean.swept (h : c.Clean) (hc : cleared = true → c.isCleared = true) :
    (c.swept cleared).Clean := by
  intro key hdirty
  refine h key (dirty_of_settle hc ?_)
  rcases hdirty with hmod | hcleared
  · exact absurd hmod (Finset.notMem_empty key)
  · exact .inr hcleared

/-- A snapshot that found nothing to write has removed no mark. -/
theorem clean_of_swept (hmod : (c.settle cleared).modifiedKeys = ∅)
    (h : (c.swept cleared).Clean) : c.Clean := by
  intro key hdirty
  refine h key ?_
  rw [← swept_of_clean hmod]
  exact hdirty.settle

/-- A snapshot that acts on the flag as it is leaves nothing marked. -/
theorem clean_swept (c : Cache) : (c.swept c.isCleared).Clean := by
  intro key hdirty
  rcases hdirty with hmod | ⟨hcleared, -⟩
  · exact absurd hmod (Finset.notMem_empty key)
  · exact absurd (hcleared.symm.trans (isCleared_settle c)) (by simp)

theorem Tracks.settle (h : c.Tracks base) (hc : cleared = true → c.isCleared = true) :
    (c.settle cleared).Tracks base := by
  cases cleared with
  | true => exact h.dropCleared (hc rfl)
  | false => exact h

/-- The two outcomes of the snapshot. -/
theorem snapshot_cases (c : Cache) (cleared : Bool) :
    ((c.settle cleared).modifiedKeys = ∅ ∧ c.snapshot cleared = (none, c.settle cleared)) ∨
      ((c.settle cleared).modifiedKeys ≠ ∅ ∧
        c.snapshot cleared =
          (some ((c.settle cleared).modifiedKeys, (c.settle cleared).valuesCache),
            { c.settle cleared with modifiedKeys := ∅ })) := by
  by_cases hmod : (c.settle cleared).modifiedKeys = ∅
  · exact .inl ⟨hmod, if_pos hmod⟩
  · exact .inr ⟨hmod, if_neg hmod⟩

/-- A snapshot that finds nothing to write. -/
theorem snapshot_none {c' : Cache} (h : c.snapshot cleared = (none, c')) :
    (c.settle cleared).modifiedKeys = ∅ ∧ c' = c.settle cleared := by
  rcases c.snapshot_cases cleared with ⟨hmod, heq⟩ | ⟨-, heq⟩
  · rw [heq] at h
    exact ⟨hmod, (Prod.mk.inj h).2.symm⟩
  · rw [heq] at h
    exact absurd (Prod.mk.inj h).1 (by simp)

/-- A snapshot that takes a map. -/
theorem snapshot_some {c' : Cache} {keysModified : Finset String} {map : PrefMap}
    (h : c.snapshot cleared = (some (keysModified, map), c')) :
    map = (c.settle cleared).valuesCache ∧ c' = c.swept cleared := by
  rcases c.snapshot_cases cleared with ⟨-, heq⟩ | ⟨-, heq⟩
  · rw [heq] at h
    exact absurd (Prod.mk.inj h).1 (by simp)
  · rw [heq] at h
    obtain ⟨hpair, hcache⟩ := Prod.mk.inj h
    exact ⟨(Prod.mk.inj (Option.some.inj hpair)).2.symm, hcache.symm⟩

theorem snapshot_snd (c : Cache) (cleared : Bool) :
    (c.snapshot cleared).2 = c.swept cleared := by
  rcases c.snapshot_cases cleared with ⟨hmod, heq⟩ | ⟨-, heq⟩
  · rw [heq]
    exact swept_of_clean hmod
  · rw [heq, swept]

/-- Everything the snapshot takes is accounted for by the map it hands out. -/
theorem tracks_taken (c : Cache) : Tracks { c with modifiedKeys := ∅ } c.valuesCache := by
  intro k hne
  cases hc : c.isCleared with
  | true =>
      refine .inr ⟨rfl, ?_⟩
      have hvis : visible { c with modifiedKeys := ∅ } = ∅ := visible_of_cleared hc
      rw [hvis, Finmap.lookup_empty] at hne
      exact Finmap.lookup_isSome.mp (Option.isSome_iff_ne_none.mpr hne.symm)
  | false =>
      have hvis : visible { c with modifiedKeys := ∅ } = c.valuesCache :=
        visible_of_not_cleared hc
      rw [hvis] at hne
      exact absurd rfl hne

/-! ### Loading -/

/-- After a load the cache shows what was read, apart from a pending `Clear`. -/
theorem tracks_load (c : Cache) (values : PrefMap) : (c.load values).Tracks values := by
  intro k hne
  cases hc : c.isCleared with
  | true =>
      refine .inr ⟨hc, ?_⟩
      have hvis : (c.load values).visible = ∅ := visible_of_cleared hc
      rw [hvis, Finmap.lookup_empty] at hne
      exact Finmap.lookup_isSome.mp (Option.isSome_iff_ne_none.mpr hne.symm)
  | false =>
      have hvis : (c.load values).visible = values := visible_of_not_cleared hc
      rw [hvis] at hne
      exact absurd rfl hne

/-- Every key of the map is marked, or else is in `others`. -/
def Marked (c : Cache) (others : String → Prop) : Prop :=
  ∀ key ∈ c.valuesCache, key ∈ c.modifiedKeys ∨ others key

/-- A reload over a map whose keys are all marked. -/
theorem tracks_reload {values : PrefMap} (h : c.Marked (fun _ => False)) :
    (c.reload values).Tracks values := by
  intro k hne
  cases hc : c.isCleared with
  | true =>
      refine .inr ⟨hc, ?_⟩
      have hvis : (c.reload values).visible = ∅ := visible_of_cleared hc
      rw [hvis, Finmap.lookup_empty] at hne
      refine Finmap.mem_union.mpr (.inr ?_)
      exact Finmap.lookup_isSome.mp (Option.isSome_iff_ne_none.mpr hne.symm)
  | false =>
      have hvis : (c.reload values).visible = c.valuesCache ∪ values := visible_of_not_cleared hc
      rw [hvis] at hne
      by_cases hmem : k ∈ c.valuesCache
      · rcases h k hmem with hmod | hfalse
        · exact .inl hmod
        · exact hfalse.elim
      · rw [Finmap.lookup_union_right hmem] at hne
        exact absurd rfl hne

section Marked

variable {others : String → Prop}

theorem Marked.assign (h : c.Marked others) : (c.assign key value).Marked others := by
  intro k hmem
  rcases Finmap.mem_insert.mp hmem with rfl | hold
  · exact .inl (Finset.mem_insert_self _ _)
  · rcases h k hold with hmod | hother
    · exact .inl (Finset.mem_insert_of_mem hmod)
    · exact .inr hother

theorem marked_dropCleared (c : Cache) : c.dropCleared.Marked others := by
  intro k hmem
  exact absurd hmem Finmap.notMem_empty

theorem Marked.put (h : c.Marked others) : (c.put key value cleared).Marked others := by
  unfold Cache.put
  split
  · exact (marked_dropCleared c).assign
  · split
    · split
      · exact h
      · exact h.assign
    · exact h.assign

theorem Marked.delete (h : c.Marked others) : (c.delete key cleared).Marked others := by
  unfold Cache.delete
  split
  · exact h
  · split
    · intro k hmem
      rcases h k (Finmap.mem_erase.mp hmem).2 with hmod | hother
      · exact .inl (Finset.mem_insert_of_mem hmod)
      · exact .inr hother
    · exact h

theorem Marked.settle (h : c.Marked others) : (c.settle cleared).Marked others := by
  cases cleared with
  | true => exact marked_dropCleared c
  | false => exact h

end Marked

/-! ### What a single key sees -/

section Key

variable {k : String}

theorem isCleared_put (hc : c.isCleared = false) : (c.put key value cleared).isCleared = false := by
  unfold Cache.put
  split
  · rfl
  · split
    · split
      · exact hc
      · exact hc
    · exact hc

theorem isCleared_delete : (c.delete key cleared).isCleared = c.isCleared := by
  unfold Cache.delete
  split
  · rfl
  · split <;> rfl

/-- `Put` leaves the other keys alone, unless it carries out a `Clear`. -/
theorem lookup_put_of_ne (hk : k ≠ key) :
    (c.put key value false).valuesCache.lookup k = c.valuesCache.lookup k := by
  have hassign : (c.assign key value).valuesCache.lookup k = c.valuesCache.lookup k :=
    Finmap.lookup_insert_of_ne _ hk
  simp only [Cache.put, Bool.false_eq_true, if_false]
  split
  · split
    · rfl
    · exact hassign
  · exact hassign

theorem lookup_delete_of_ne (hk : k ≠ key) :
    (c.delete key cleared).valuesCache.lookup k = c.valuesCache.lookup k := by
  unfold Cache.delete
  split
  · rfl
  · split
    · exact Finmap.lookup_erase_ne hk
    · rfl

/-- After `Put` the key holds the value, or the value that it already held and that compares
equal. -/
theorem lookup_put_self (hc : cleared = false → c.isCleared = false) :
    (c.put key value cleared).isCleared = false ∧
      ∃ v, (c.put key value cleared).valuesCache.lookup key = some v ∧ v.Same value := by
  have hassign : ∀ c' : Cache,
      ∃ v, (c'.assign key value).valuesCache.lookup key = some v ∧ v.Same value := by
    intro c'
    exact ⟨value, Finmap.lookup_insert c'.valuesCache, .inl rfl⟩
  cases cleared with
  | true => exact ⟨rfl, hassign _⟩
  | false =>
      refine ⟨isCleared_put (hc rfl), ?_⟩
      simp only [Cache.put, Bool.false_eq_true, if_false]
      split
      · next val hval =>
        split
        · next heq => exact ⟨val, hval, .inr heq⟩
        · exact hassign c
      · exact hassign c

/-- With the flag as it is, `Put` changes what readers see of its key only. -/
theorem visible_put_of_ne (hk : k ≠ key) :
    (c.put key value c.isCleared).visible.lookup k = c.visible.lookup k := by
  cases hc : c.isCleared with
  | true =>
      rw [visible_of_cleared hc, Finmap.lookup_empty]
      exact (Finmap.lookup_insert_of_ne _ hk).trans (Finmap.lookup_empty k)
  | false =>
      rw [visible_of_not_cleared (isCleared_put hc), visible_of_not_cleared hc]
      exact lookup_put_of_ne hk

theorem visible_put_self :
    ∃ v, (c.put key value c.isCleared).visible.lookup key = some v ∧ v.Same value := by
  obtain ⟨hcleared, hself⟩ : (c.put key value c.isCleared).isCleared = false ∧ _ :=
    lookup_put_self id
  rw [visible_of_not_cleared hcleared]
  exact hself

/-- With the flag as it is, `Delete` takes its key from what readers see. -/
theorem visible_delete : (c.delete key c.isCleared).visible = c.visible.erase key := by
  have hkeep : (c.delete key c.isCleared).isCleared = c.isCleared := isCleared_delete
  refine Finmap.ext_lookup ?_
  intro k
  cases hc : c.isCleared with
  | true =>
      rw [hc] at hkeep
      rw [visible_of_cleared hkeep, visible_of_cleared hc]
      by_cases hk : k = key
      · rw [hk, Finmap.lookup_erase, Finmap.lookup_empty]
      · rw [Finmap.lookup_erase_ne hk]
  | false =>
      rw [hc] at hkeep
      rw [visible_of_not_cleared hkeep, visible_of_not_cleared hc]
      by_cases hk : k = key
      · rw [hk, Finmap.lookup_erase]
        simp only [Cache.delete, Bool.false_eq_true, if_false]
        split
        · exact Finmap.lookup_erase key c.valuesCache
        · next hmem => exact Finmap.lookup_eq_none.mpr hmem
      · rw [Finmap.lookup_erase_ne hk, lookup_delete_of_ne hk]

theorem visible_clear : c.clear.visible = ∅ := visible_of_cleared rfl

end Key

end Cache

end NativePreferences
