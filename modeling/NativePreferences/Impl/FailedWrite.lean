import NativePreferences.Impl.Store

/-!
# NativePreferences.Impl.FailedWrite

**A failed write forgets the change set.** `WriteToDiskFile` takes the modified keys and
carries out a pending `Clear` before it tries to write, and puts nothing back when the
write fails. A later flush finds nothing marked and does nothing, whatever the weather
(`runFlush_spent`). All that can still change is the cache, if the instance had not read
its file yet and `PreLoad` reads it now (`reloads`).
-/

namespace NativePreferences

namespace Store

variable {s : Store} {o : Weather}

/-! ### Reading the file again -/

/-- `PreLoad` in this weather reads the file. -/
def reloads (s : Store) (o : Weather) : Bool :=
  s.loaded && !s.loadResult && s.disk.isSome && o.accessible && o.readable

theorem preLoad_snd (s : Store) (o : Weather) :
    (s.preLoad o).2 = if s.reloads o then s.reloaded s.persisted else s := by
  obtain ⟨loaded, never, result, cache, queue, disk⟩ := s
  obtain ⟨accessible, readable, writable⟩ := o
  cases loaded <;> cases result <;> cases disk <;> cases accessible <;> cases readable <;>
    simp [preLoad, reloads, wantsReload, reloadFromDisk, persisted]

/-- Nothing is marked and no `Clear` is pending. -/
structure Spent (s : Store) : Prop where
  modifiedKeys : s.cache.modifiedKeys = ∅
  isCleared : s.cache.isCleared = false

theorem Spent.preLoad (h : s.Spent) (o : Weather) : ((s.preLoad o).2).Spent := by
  rw [preLoad_snd]
  split
  · exact ⟨h.modifiedKeys, h.isCleared⟩
  · exact h

/-- There is nothing to write. -/
theorem Spent.writeToDiskFile (h : s.Spent) (o : Weather) :
    s.writeToDiskFile o = { code := .ok, notices := [], store := s } := by
  have hsettle : s.cache.settle s.cache.isCleared = s.cache := by
    rw [h.isCleared]
    rfl
  unfold Store.writeToDiskFile
  rcases s.cache.snapshot_cases s.cache.isCleared with ⟨-, hsnap⟩ | ⟨hne, -⟩
  · rw [hsnap, hsettle]
  · rw [hsettle] at hne
    exact absurd h.modifiedKeys hne

/-- What a flush of such a store leaves behind. -/
structure Idles (s : Store) (r : Flushed) : Prop where
  notices : r.notices = []
  disk : r.store.disk = s.disk
  cache : r.store.cache = s.cache

theorem Spent.flusher (h : s.Spent) (o : Weather) : Idles (s.preLoad o).2 (s.flusher o) := by
  have hspent := h.preLoad o
  rw [Store.flusher]
  generalize s.preLoad o = loaded at hspent ⊢
  obtain ⟨ok, s'⟩ := loaded
  cases ok with
  | false => exact ⟨rfl, rfl, rfl⟩
  | true =>
      simp only [if_true]
      cases s'.queue with
      | none => exact ⟨rfl, rfl, rfl⟩
      | some value =>
          have hpopped : Spent { s' with queue := none } := ⟨hspent.modifiedKeys, hspent.isCleared⟩
          simp only [hpopped.writeToDiskFile]
          split <;> exact ⟨rfl, rfl, rfl⟩

end Store

end NativePreferences
