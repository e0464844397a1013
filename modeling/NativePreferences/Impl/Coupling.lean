import NativePreferences.Impl.CriticalSections

/-!
# NativePreferences.Impl.Coupling

**What a thread in the middle of a critical section has done to the cache.** A call on the cache
takes effect at one of its own steps:

* `Clear` with its store, `Delete` and the reading functions with their test of the flag;
* `Put` and the snapshot with their test of the flag if it is down. A `Clear` that comes during
  the rest of the section takes effect after them, and finds the flag where they left it;
* `Put` and the snapshot with the store that lowers the flag, if they found it raised. A `Clear`
  that is overwritten by this store takes effect before them, where it has nothing to do because
  the flag is up already.

Between these steps the cache is not what the calls that took effect make of it, because somebody
is in the middle of a section. `Couples` says for each place in a section how the two are related,
and a step either keeps this or is the one at which the call takes effect (`Progress`).
-/

namespace NativePreferences

open Lib

variable {t : Tid} {s s' : Cells} {p p' : Spot} {e : CellEv} {a c : Cache} {i : Nat}

/-! ### Where a thread stands -/

namespace Spot

/-- The thread holds `cacheMutex_` alone. -/
def alone : Spot → Bool
  | .flag _ _ | .loop _ _ | .mark _ _ _ | .empty _ _ | .lower _ _ | .putFind _ _ _
  | .putInsert _ _ _ _ | .putMark _ _ _ _ | .deleteFlag _ _ | .deleteFind _ _ | .deleteErase _ _
  | .deleteMark _ _ | .snapTest _ | .snapMove _ | .snapCopy _ _ | .leave _ _ => true
  | _ => false

/-- The thread holds `cacheMutex_` shared. -/
def shares : Spot → Bool
  | .readFlag _ _ | .readFind _ _ | .readValue _ _ | .readCopy _ _ _ _ | .readLeave _ _ => true
  | _ => false

/-- The call of the thread, if it has not taken effect. -/
def pending : Spot → Option (Nat × CacheCall)
  | .enter i op => some (i, op)
  | .flag i d | .loop i d | .mark i d _ | .empty i d | .lower i d => some (i, d.call)
  | .deleteFlag i key => some (i, .delete key)
  | .putInsert i key value true | .putMark i key value true => some (i, .put key value)
  | .readFlag i q => some (i, .query q)
  | _ => none

/-- The call of the thread, if it has taken effect, and what it is going to return. -/
def owed (c : Cache) : Spot → Option (Nat × CacheReply)
  | .putFind i _ _ | .putInsert i _ _ false | .putMark i _ _ false | .deleteFind i _
  | .deleteErase i _ | .deleteMark i _ => some (i, .code .ok)
  | .snapTest i => some (i, .taken (c.snapshot false).1)
  | .snapMove i => some (i, .taken (some (c.modifiedKeys, c.valuesCache)))
  | .snapCopy i keysModified => some (i, .taken (some (keysModified, c.valuesCache)))
  | .readFind i q | .readValue i q | .readCopy i q _ _ => some (i, .answer (q.answer c.valuesCache))
  | .leave i r | .readLeave i r | .ret i r => some (i, r)
  | _ => none

/-- What a reading function has copied is what the cache holds, but for the keys to come. -/
def Copies (c : Cache) : Spot → Prop
  | .readValue _ q => q.copies = false
  | .readCopy _ q rest allDatas =>
      q.copies = true ∧ ∀ key, key ∉ rest → allDatas.lookup key = c.valuesCache.lookup key
  | _ => True

end Spot

/-- The cache once a `Clear` is carried out, up to the store that lowers the flag. -/
def Cache.carried (a : Cache) : Dropper → Cache
  | .put key value => { a.dropCleared.assign key value with isCleared := true }
  | .snapshot => { a.dropCleared with isCleared := true }

/-- What the log has made of the cache, `a`, and what is in it, `c`, when the holder of
`cacheMutex_` is at `p`. -/
def Couples (a c : Cache) : Spot → Prop
  | .loop _ _ => a = c ∧ c.isCleared = true
  | .mark _ _ rest =>
      a.isCleared = true ∧ c.isCleared = true ∧ c.valuesCache = a.valuesCache ∧
        c.modifiedKeys ∪ rest.toFinset = a.modifiedKeys ∪ a.valuesCache.keys
  | .empty _ _ =>
      a.isCleared = true ∧ c.isCleared = true ∧ c.valuesCache = a.valuesCache ∧
        c.modifiedKeys = a.modifiedKeys ∪ a.valuesCache.keys
  | .putInsert _ _ _ true => a.isCleared = true ∧ c = { a.dropCleared with isCleared := true }
  | .putMark _ key value true =>
      a.isCleared = true ∧
        c = { a.dropCleared with
          isCleared := true, valuesCache := Finmap.insert key value ∅ }
  | .lower _ d => a.isCleared = true ∧ c = a.carried d
  | .putFind _ key value => a = c.put key value false
  | .putInsert _ key value false => a = c.assign key value
  | .putMark _ key _ false => a = { c with modifiedKeys := insert key c.modifiedKeys }
  | .deleteFind _ key => a = c.delete key false
  | .deleteErase _ key =>
      a = { c with
        valuesCache := c.valuesCache.erase key, modifiedKeys := insert key c.modifiedKeys }
  | .deleteMark _ key => a = { c with modifiedKeys := insert key c.modifiedKeys }
  | .snapTest _ => a = (c.snapshot false).2
  | .snapMove _ => a = { c with modifiedKeys := ∅ }
  | _ => a = c

/-! ### The holder of the lock moves -/

/-- A step that shows nothing: the call of the thread goes on as before, or it takes effect.
`a'` is what the log makes of the cache afterwards. -/
inductive Progress (a : Cache) (s : Cells) (p : Spot) (s' : Cells) (p' : Spot) : Cache → Prop
  | silent (hpend : p'.pending = p.pending) (howed : p'.owed s'.cache = p.owed s.cache) :
      Progress a s p s' p' a
  | commit (i : Nat) (op : CacheCall) (hpend : p.pending = some (i, op))
      (hpend' : p'.pending = none) (howed : p'.owed s'.cache = some (i, (a.perform op).1)) :
      Progress a s p s' p' (a.perform op).2

/-- The end of the loop: every key of the cache is marked. -/
theorem carried_of_marked (hcleared : c.isCleared = true)
    (hmod : c.modifiedKeys = a.modifiedKeys ∪ a.valuesCache.keys) :
    { c with valuesCache := ∅ } = { a.dropCleared with isCleared := true } := by
  rw [hmod, hcleared]
  rfl

/-- `Put` and the snapshot take effect as they lower the flag. -/
theorem lower_progress (d : Dropper) (ha : a.isCleared = true) (hc : s.cache = a.carried d) :
    ∃ a', Progress a s (.lower i d) { s with cache := { s.cache with isCleared := false } }
      (Spot.afterLower i d) a' ∧
      Couples a' { s.cache with isCleared := false } (Spot.afterLower i d) := by
  cases d with
  | put key value =>
      refine ⟨_, .commit i (.put key value) rfl rfl rfl, ?_⟩
      show a.put key value a.isCleared = { s.cache with isCleared := false }
      rw [hc, ha]
      rfl
  | snapshot =>
      have hlow : ({ s.cache with isCleared := false } : Cache) = a.dropCleared := by
        rw [hc]
        rfl
      have hperform : a.perform .snapshot = (.taken (a.dropCleared.snapshot false).1,
          (a.dropCleared.snapshot false).2) := by
        rw [Cache.perform, ha]
        rfl
      refine ⟨_, .commit i .snapshot rfl rfl ?_, ?_⟩
      · show some (i, CacheReply.taken (Cache.snapshot _ false).1) = _
        rw [hlow, hperform]
      · show _ = (Cache.snapshot _ false).2
        rw [hlow, hperform]

/-- `Put` and the snapshot find the flag down, and take effect. -/
theorem flagDown_progress (d : Dropper) (ha : a = s.cache) (hdown : s.cache.isCleared = false) :
    ∃ a', Progress a s (.flag i d) s (Spot.flagDown i d) a' ∧
      Couples a' s.cache (Spot.flagDown i d) := by
  subst ha
  cases d with
  | put key value =>
      refine ⟨_, .commit i (.put key value) rfl rfl rfl, ?_⟩
      show s.cache.put key value s.cache.isCleared = _
      rw [hdown]
  | snapshot =>
      refine ⟨_, .commit i .snapshot rfl rfl ?_, ?_⟩
      · show some (i, CacheReply.taken (s.cache.snapshot false).1) = _
        rw [Cache.perform, hdown]
      · show (s.cache.snapshot s.cache.isCleared).2 = _
        rw [hdown]

theorem Cache.put_of_ne {key : String} {value : PreferencesValue}
    (h : ∀ val, c.valuesCache.lookup key = some val → val.eq value = false) :
    c.put key value false = c.assign key value := by
  simp only [Cache.put, Bool.false_eq_true, if_false]
  split
  · next val hval =>
    rw [h val hval]
    rfl
  · rfl

/-- **A thread that holds the lock alone.** -/
theorem alone_progress (h : CellStep t s p e s' p') (hp : p.alone = true)
    (hc : Couples a s.cache p) : ∃ a', Progress a s p s' p' a' ∧ Couples a' s'.cache p' := by
  cases h with
  | unlock => exact ⟨_, .silent rfl rfl, hc⟩
  | flagDown hdown => exact flagDown_progress _ hc hdown
  | flagUp hup => exact ⟨_, .silent rfl rfl, hc, hup⟩
  | loop hkeys =>
      obtain ⟨rfl, hup⟩ := hc
      refine ⟨_, .silent rfl rfl, hup, hup, rfl, ?_⟩
      rw [hkeys]
  -- the keys that are left and those that are marked stay the keys of the map
  | @mark i d key rest =>
      obtain ⟨ha, hup, hval, hmod⟩ := hc
      refine ⟨_, .silent rfl rfl, ha, hup, hval, ?_⟩
      rw [← hmod, List.toFinset_cons, Finset.union_insert, Finset.insert_union]
  | marked =>
      obtain ⟨ha, hup, hval, hmod⟩ := hc
      refine ⟨_, .silent rfl rfl, ha, hup, hval, ?_⟩
      rw [← hmod, List.toFinset_nil, Finset.union_empty]
  | @empty i d =>
      obtain ⟨ha, hup, hval, hmod⟩ := hc
      cases d with
      | put key value => exact ⟨_, .silent rfl rfl, ha, carried_of_marked hup hmod⟩
      | snapshot => exact ⟨_, .silent rfl rfl, ha, carried_of_marked hup hmod⟩
  | lower => exact lower_progress _ hc.1 hc.2
  | @putSame i key value val hval heq =>
      refine ⟨_, .silent rfl rfl, Eq.trans hc ?_⟩
      simp only [Cache.put, Bool.false_eq_true, if_false, hval, heq, if_true]
  | putOther hval => exact ⟨_, .silent rfl rfl, Eq.trans hc (Cache.put_of_ne hval)⟩
  -- under a raised flag the log has not seen the `Put` yet: it does when the flag goes down
  | @putInsert i key value cleared | @putMark i key value cleared =>
      cases cleared with
      | true =>
          obtain ⟨ha, hval⟩ := hc
          refine ⟨_, .silent rfl rfl, ha, ?_⟩
          rw [hval]
          rfl
      | false => exact ⟨_, .silent rfl rfl, hc⟩
  | @deleteUp i key hup =>
      obtain rfl : a = s.cache := hc
      refine ⟨_, .commit i (.delete key) rfl rfl rfl, ?_⟩
      show s.cache.delete key s.cache.isCleared = s.cache
      rw [hup]
      rfl
  | @deleteDown i key hdown =>
      obtain rfl : a = s.cache := hc
      refine ⟨_, .commit i (.delete key) rfl rfl rfl, ?_⟩
      show s.cache.delete key s.cache.isCleared = _
      rw [hdown]
  | deleteMissing hkey =>
      refine ⟨_, .silent rfl rfl, Eq.trans hc ?_⟩
      simp only [Cache.delete, Bool.false_eq_true, if_false, hkey]
  | deleteFound hkey =>
      refine ⟨_, .silent rfl rfl, Eq.trans hc ?_⟩
      simp only [Cache.delete, Bool.false_eq_true, if_false, hkey, if_true]
  | deleteErase | deleteMark | snapMove => exact ⟨_, .silent rfl rfl, hc⟩
  | snapClean hmod =>
      refine ⟨_, .silent rfl ?_, Eq.trans hc ?_⟩
      · simp only [Spot.owed, Cache.snapshot, Cache.settle, Bool.false_eq_true, if_false, hmod,
          if_true]
      · simp only [Cache.snapshot, Cache.settle, Bool.false_eq_true, if_false, hmod, if_true]
  | snapDirty hmod =>
      refine ⟨_, .silent rfl ?_, Eq.trans hc ?_⟩
      · simp only [Spot.owed, Cache.snapshot, Cache.settle, Bool.false_eq_true, if_false, hmod]
      · simp only [Cache.snapshot, Cache.settle, Bool.false_eq_true, if_false, hmod]
  | snapCopy => exact ⟨_, .silent rfl rfl, hc⟩
  | _ => exact absurd hp (by simp [Spot.alone])

/-! ### A reader moves -/

theorem Query.answer_of_found {q : Query} (hq : q.copies = false) (m : PrefMap) :
    q.answer m = q.found (m.lookup q.key) := by
  cases q with
  | get key defValue => rfl
  | getValue key defValue =>
      simp only [Query.answer, Query.key]
      cases m.lookup key <;> rfl
  | hasKey key => rfl
  | getAll | getAllData | getAllDatas => exact absurd hq (by simp [Query.copies])

theorem Query.answer_of_copied {q : Query} (hq : q.copies = true) (m : PrefMap) :
    q.answer m = q.copied m := by
  cases q with
  | get | getValue | hasKey => exact absurd hq (by simp [Query.copies])
  | getAll | getAllData | getAllDatas => rfl

/-- What is returned when the flag is up. -/
theorem Query.answer_empty (q : Query) :
    q.answer ∅ = if q.copies then q.copied ∅ else q.found none := by
  cases hq : q.copies with
  | true =>
      rw [Query.answer_of_copied hq]
      rfl
  | false =>
      rw [Query.answer_of_found hq, Finmap.lookup_empty]
      rfl

/-- **A thread that holds the lock shared.** -/
theorem shares_progress (h : CellStep t s p e s' p') (hp : p.shares = true) (ha : a = s.cache)
    (hcopies : p.Copies s.cache) :
    Progress a s p s' p' a ∧ (s'.cache = s.cache ∧ s'.writer = s.writer) ∧ p'.Copies s.cache := by
  cases h with
  | unlockShared => exact ⟨.silent rfl rfl, ⟨rfl, rfl⟩, trivial⟩
  | @readUp i q hup =>
      refine ⟨.commit i (.query q) rfl rfl ?_, ⟨rfl, rfl⟩, trivial⟩
      rw [Cache.perform, ha, Cache.visible_of_cleared hup, Query.answer_empty]
      rfl
  | @readDown i q hdown =>
      refine ⟨.commit i (.query q) rfl rfl ?_, ⟨rfl, rfl⟩, trivial⟩
      rw [Cache.perform, ha, Cache.visible_of_not_cleared hdown]
      rfl
  | @readMissing i q hq hkey =>
      refine ⟨.silent rfl ?_, ⟨rfl, rfl⟩, trivial⟩
      show some (i, _) = some (i, CacheReply.answer (q.answer s.cache.valuesCache))
      rw [Query.answer_of_found hq, hkey]
  | readFound hq hkey => exact ⟨.silent rfl rfl, ⟨rfl, rfl⟩, hq⟩
  | @readValue i q =>
      refine ⟨.silent rfl ?_, ⟨rfl, rfl⟩, trivial⟩
      show some (i, _) = some (i, CacheReply.answer (q.answer s.cache.valuesCache))
      rw [Query.answer_of_found hcopies]
  | @readBegin i q rest hq hkeys =>
      refine ⟨.silent rfl rfl, ⟨rfl, rfl⟩, hq, ?_⟩
      intro key hkey
      rw [← List.mem_toFinset, hkeys, Finmap.mem_keys] at hkey
      rw [Finmap.lookup_empty, Finmap.lookup_eq_none.mpr hkey]
  | @readCopy i q key rest allDatas v hkey =>
      refine ⟨.silent rfl rfl, ⟨rfl, rfl⟩, hcopies.1, ?_⟩
      intro k hk
      by_cases heq : k = key
      · rw [heq, Finmap.lookup_insert, hkey]
      · rw [Finmap.lookup_insert_of_ne _ heq]
        exact hcopies.2 k (by simp [heq, hk])
  | @readEnd i q allDatas =>
      refine ⟨.silent rfl ?_, ⟨rfl, rfl⟩, trivial⟩
      have hall : allDatas = s.cache.valuesCache :=
        Finmap.ext_lookup (fun key => hcopies.2 key (by simp))
      show some (i, _) = some (i, CacheReply.answer (q.answer s.cache.valuesCache))
      rw [Query.answer_of_copied hcopies.1, hall]
  | _ => exact absurd hp (by simp [Spot.shares])

/-! ### `Clear` in the middle of a section -/

theorem Cache.clear_put (c : Cache) (key : String) (value : PreferencesValue) :
    (c.put key value false).clear = c.clear.put key value false := by
  have hlook : c.clear.valuesCache.lookup key = c.valuesCache.lookup key := rfl
  simp only [Cache.put, Bool.false_eq_true, if_false, hlook]
  cases c.valuesCache.lookup key with
  | none => rfl
  | some val =>
      show (if val.eq value = true then c else c.assign key value).clear =
        if val.eq value = true then c.clear else c.clear.assign key value
      split <;> rfl

theorem Cache.clear_delete (c : Cache) (key : String) :
    (c.delete key false).clear = c.clear.delete key false := by
  have hmem : key ∈ c.clear.valuesCache ↔ key ∈ c.valuesCache := Iff.rfl
  simp only [Cache.delete, Bool.false_eq_true, if_false, hmem]
  split <;> rfl

/-- **A `Clear` in the middle of somebody's section.** If it is going to be overwritten, the
flag is up in the log already. -/
theorem Couples.clear (h : Couples a c p) : Couples a.clear c.clear p := by
  have hflag : ∀ {b : Cache}, b.isCleared = true → b.clear = b := by
    intro b hb
    rw [Cache.clear, ← hb]
  cases p with
  -- where the section will lower the flag, the log has it up, and is not changed
  | loop i d =>
      obtain ⟨rfl, hup⟩ := h
      exact ⟨rfl, rfl⟩
  | mark i d rest | empty i d =>
      obtain ⟨ha, hc, hrest⟩ := h
      rw [hflag ha, hflag hc]
      exact ⟨ha, hc, hrest⟩
  | putInsert i key value cleared | putMark i key value cleared =>
      cases cleared with
      | true =>
          obtain ⟨ha, rfl⟩ := h
          rw [hflag ha]
          exact ⟨ha, rfl⟩
      | false =>
          obtain rfl : a = _ := h
          rfl
  | lower i d =>
      obtain ⟨ha, rfl⟩ := h
      rw [hflag ha]
      refine ⟨ha, ?_⟩
      cases d <;> rfl
  -- past that, the rest of the section leaves the flag alone, so the two commute
  | putFind i key value =>
      obtain rfl : a = _ := h
      exact Cache.clear_put c key value
  | deleteFind i key =>
      obtain rfl : a = _ := h
      exact Cache.clear_delete c key
  | snapTest i =>
      obtain rfl : a = _ := h
      show (c.snapshot false).2.clear = (c.clear.snapshot false).2
      rw [Cache.snapshot_snd, Cache.snapshot_snd]
      rfl
  | deleteErase | deleteMark | snapMove =>
      obtain rfl : a = _ := h
      rfl
  | _ =>
      obtain rfl : a = c := h
      rfl

end NativePreferences
