import NativePreferences.Helper.Instances

/-!
# NativePreferences.Helper.Deletion

**When `DeletePreferences` is final.** It closes the instance, drops it from the cache and
removes the files; it does not wait for a flush, and a closed instance can still write. So a
flush that was requested earlier may bring the files back after `DeletePreferences` has
returned `E_OK` (`deletion_undone`).

It is final if each instance of the path is at rest when the files are removed and is only
read afterwards (`deletion_final`). An instance is at rest in one of two ways: no flush of it
is under way (`Drained`), or it has nothing that a flush could find unsaved (`Saved`). And no
`GetPreferences` may come between the closing and the removal, since it would load the old
files into an instance that stays in the cache.
-/

namespace NativePreferences

open Lib

variable {t : Tid} {s s' : Shared} {p p' : Pc} {e : Ev} {m m' : Machine} {l : Label}
variable {disk : Option PrefMap}

/-! ### What a closed instance is used for -/

/-- Of the calls, only the reading functions. -/
def ReadOnly (l : Label) : Prop := ∀ c, l.2 = .call c → ∃ q, c = .op (.query q)

/-- A `Put` is called. -/
def CallsPut (l : Label) : Prop := ∃ key value, l.2 = .call (.op (.put key value))

theorem ReadOnly.not_startsMutation (h : ReadOnly l) : ¬ StartsMutation l := by
  intro ⟨o, hcall, hmut⟩
  obtain ⟨q, hq⟩ := h _ hcall
  obtain rfl : o = .query q := Call.op.inj hq
  exact absurd hmut (by simp [Op.mutates])

/-- The files change only when a map is written. -/
theorem tstep_disk_wrote (h : TStep t s p e s' p') (hno : ∀ map, e ≠ .wrote map) :
    s'.disk = s.disk := by
  cases h with
  | writeOk => exact absurd rfl (hno _)
  | _ => rfl

/-! ### No flush under way -/

/-- The thread is in a flush that it has begun and that has not come to its write. -/
def Pc.mayWrite : Pc → Bool
  | .push _ | .snapshotLock _ | .snapshot _ _ | .writeXml _ _ _ => true
  | _ => false

@[simp] theorem Pc.mayWrite_resume (c : Caller) (ok : Bool) : (c.resume ok).mayWrite = false :=
  Caller.forall_resume (P := fun p => p.mayWrite = false) (fun _ => rfl) (fun _ => rfl) rfl
    (fun _ => rfl) c ok

/-- No flush is under way: the queue is empty, and no thread is on its way to it or has taken
from it. -/
structure Drained (m : Machine) : Prop where
  queue : m.sh.queue = none
  pcs : ∀ t, (m.pc t).mayWrite = false

/-- A thread that begins no flush, and finds no token, comes to no write. -/
theorem tstep_drained (h : TStep t s p e s' p') (hread : ReadOnly (t, e)) (hqueue : s.queue = none)
    (hp : p.mayWrite = false) :
    s'.queue = none ∧ p'.mayWrite = false ∧ ∀ map, e ≠ .wrote map := by
  cases h with
  | callFlush | callFlushSync =>
      obtain ⟨q, hq⟩ := hread _ rfl
      exact absurd hq (by simp)
  | pushOk | snapshotEnter | snapshotClean | snapshotTake | writeOk | writeFail =>
      exact absurd hp (by simp [Pc.mayWrite])
  | popToken hfull | popOther hfull => exact absurd (hqueue.symm.trans hfull) (by simp)
  | preLoadDone | preLoadSkip | reloadNotNeeded | reloadOk | reloadFail =>
      exact ⟨hqueue, Pc.mayWrite_resume _ _, by simp⟩
  | _ => exact ⟨hqueue, rfl, by simp⟩

theorem Drained.step (h : Drained m) (hread : ReadOnly l) (hstep : (m.onDisk disk).Step l m') :
    Drained m' ∧ ∀ map, l.2 ≠ .wrote map := by
  obtain ⟨hqueue, hown, hwrote⟩ := tstep_drained hstep.own hread h.queue (h.pcs l.1)
  refine ⟨⟨hqueue, ?_⟩, hwrote⟩
  intro u
  by_cases hu : u = l.1
  · rw [hu]
    exact hown
  · rw [hstep.pc_of_ne hu]
    exact h.pcs u

/-! ### Nothing unsaved -/

/-- The locks of an instance work, and it loads only once, whatever happens to the files. -/
structure Sound (m : Machine) : Prop where
  mutex : MutexInv m
  cacheMutex : CacheMutexInv m
  cleared : ClearedInv m
  loading : LoadingInv m

theorem sound_initial (disk : Option PrefMap) : Sound (.initial disk) :=
  ⟨(locksInv_initial disk).mutex, (locksInv_initial disk).cacheMutex,
    (locksInv_initial disk).cleared, (baseInv_initial disk).loading⟩

theorem Sound.step (h : Sound m) (hstep : (m.onDisk disk).Step l m') : Sound m' := by
  have hmutex : MutexInv (m.onDisk disk) := h.mutex
  have hcache : CacheMutexInv (m.onDisk disk) := h.cacheMutex
  have hcleared : ClearedInv (m.onDisk disk) := h.cleared
  have hloading : LoadingInv (m.onDisk disk) := h.loading
  exact ⟨hmutex.step hstep, hcache.step hstep, hcleared.step hcache hstep,
    hloading.step hmutex hstep⟩

/-- The instance has read or written its files, nothing is marked, and no thread is about to
change that. -/
structure Saved (m : Machine) : Prop where
  loaded : m.sh.loaded = true
  loadResult : m.sh.loadResult = true
  clean : m.sh.cache.Clean
  quiet : Quiet m
  unwritten : ∀ t, (m.pc t).inflight = none

/-- A thread that mutates nothing and loads nothing leaves nothing for a flush to write. -/
theorem tstep_saved (h : TStep t s p e s' p') (hload : s.loaded = true)
    (hres : s.loadResult = true) (hclean : s.cache.Clean) (hmut : p.mutating = false)
    (hloading : p.loading = false) (hflight : p.inflight = none)
    (hflag : p.sawCleared = true → s.cache.isCleared = true) :
    (s'.loaded = true ∧ s'.loadResult = true ∧ s'.cache.Clean) ∧ p'.inflight = none ∧
      ∀ map, e ≠ .wrote map := by
  cases h with
  | putBody | deleteBody | clear => exact absurd hmut (by simp [Pc.mutating, Op.mutates])
  | loadStore | loadFinish => exact absurd hloading (by simp [Pc.loading])
  | writeOk | writeFail | notify => exact absurd hflight (by simp [Pc.inflight])
  | reloadOk hnot => exact absurd (hres.symm.trans hnot) (by simp)
  | @snapshotClean f cleared cache hsnap =>
      obtain ⟨-, rfl⟩ := Cache.snapshot_none hsnap
      refine ⟨⟨hload, hres, ?_⟩, rfl, by simp⟩
      intro key hdirty
      exact hclean key (Cache.dirty_of_settle hflag hdirty)
  | @snapshotTake f cleared cache keys map hsnap =>
      rcases s.cache.snapshot_cases cleared with ⟨-, heq⟩ | ⟨hmod, -⟩
      · rw [heq] at hsnap
        exact absurd (Prod.mk.inj hsnap).1 (by simp)
      · obtain ⟨key, hkey⟩ := Finset.nonempty_iff_ne_empty.mpr hmod
        exact absurd (Cache.dirty_of_settle hflag (.inl hkey)) (hclean key)
  | preLoadDone | preLoadSkip | reloadNotNeeded | reloadFail =>
      exact ⟨⟨hload, hres, hclean⟩, Pc.inflight_resume _ _, by simp⟩
  | pushOk => exact ⟨⟨hload, hres, hclean⟩, Pc.inflight_afterPush _, by simp⟩
  | _ => exact ⟨⟨hload, hres, hclean⟩, rfl, by simp⟩

theorem Saved.step (h : Saved m) (hsound : Sound m) (hread : ReadOnly l)
    (hstep : (m.onDisk disk).Step l m') : Saved m' ∧ ∀ map, l.2 ≠ .wrote map := by
  have hloading : (m.pc l.1).loading = false := by
    cases hl : (m.pc l.1).loading with
    | false => rfl
    | true => exact absurd (h.loaded.symm.trans (hsound.loading l.1 hl)) (by simp)
  obtain ⟨⟨hload, hres, hclean⟩, hown, hwrote⟩ := tstep_saved hstep.own h.loaded h.loadResult
    h.clean (h.quiet l.1) hloading (h.unwritten l.1) (hsound.cleared l.1)
  have hquiet : Quiet (m.onDisk disk) := h.quiet
  refine ⟨⟨hload, hres, hclean, hquiet.step hstep hread.not_startsMutation, ?_⟩, hwrote⟩
  intro u
  by_cases hu : u = l.1
  · rw [hu]
    exact hown
  · rw [hstep.pc_of_ne hu]
    exact h.unwritten u

/-! ### Instances at rest -/

/-- A flush of this instance cannot write, unless somebody uses it for more than reading. -/
def AtRest (m : Machine) : Prop := Drained m ∨ Saved m

theorem AtRest.step (h : AtRest m) (hsound : Sound m) (hread : ReadOnly l)
    (hstep : (m.onDisk disk).Step l m') : AtRest m' ∧ ∀ map, l.2 ≠ .wrote map := by
  rcases h with hdrained | hsaved
  · obtain ⟨hnext, hwrote⟩ := hdrained.step hread hstep
    exact ⟨.inl hnext, hwrote⟩
  · obtain ⟨hnext, hwrote⟩ := hsaved.step hsound hread hstep
    exact ⟨.inr hnext, hwrote⟩

/-! ### Instances that never got anything -/

def Op.isPut : Op → Bool
  | .put _ _ => true
  | _ => false

def Caller.isPut : Caller → Bool
  | .op o => o.isPut
  | .flusher _ => false

/-- The thread has something for the cache or for the files. -/
def Pc.mayFill : Pc → Bool
  | .await o | .waiting o | .enter o => o.isPut
  | .preLoad c | .preLoadLock c | .preLoadLocked c | .reload c => c.isPut
  | .putBody _ _ _ | .loadStore _ | .writeXml _ _ _ => true
  | _ => false

@[simp] theorem Pc.mayFill_resume (c : Caller) (ok : Bool) : (c.resume ok).mayFill = c.isPut := by
  cases c with
  | op o => rfl
  | flusher f => cases f <;> cases ok <;> rfl

@[simp] theorem Pc.mayFill_afterPush (f : Flusher) : f.afterPush.mayFill = false := by
  cases f <;> rfl

/-- The instance holds nothing and has nothing to save. -/
structure Blank (m : Machine) : Prop where
  values : m.sh.cache.valuesCache = ∅
  marks : m.sh.cache.modifiedKeys = ∅
  pcs : ∀ t, (m.pc t).mayFill = false

theorem blank_initial (disk : Option PrefMap) : Blank (.initial disk) := ⟨rfl, rfl, fun _ => rfl⟩

theorem Blank.visible_eq (h : Blank m) : m.sh.cache.visible = ∅ := by
  cases hc : m.sh.cache.isCleared with
  | true => exact Cache.visible_of_cleared hc
  | false =>
      rw [Cache.visible_of_not_cleared hc]
      exact h.values

theorem Cache.settle_blank {c : Cache} (hval : c.valuesCache = ∅) (hmod : c.modifiedKeys = ∅)
    (cleared : Bool) :
    (c.settle cleared).valuesCache = ∅ ∧ (c.settle cleared).modifiedKeys = ∅ := by
  cases cleared with
  | true => simp [Cache.settle, Cache.dropCleared, hval, hmod]
  | false => exact ⟨hval, hmod⟩

/-- Without files and without a `Put`, nothing gets into the cache. -/
theorem tstep_blank (h : TStep t s p e s' p') (hput : ¬ CallsPut (t, e)) (hdisk : s.disk = none)
    (hval : s.cache.valuesCache = ∅) (hmod : s.cache.modifiedKeys = ∅) (hp : p.mayFill = false) :
    s'.disk = none ∧ (s'.cache.valuesCache = ∅ ∧ s'.cache.modifiedKeys = ∅) ∧
      p'.mayFill = false := by
  cases h with
  | @callOp o =>
      refine ⟨hdisk, ⟨hval, hmod⟩, ?_⟩
      cases o with
      | put key value => exact absurd ⟨key, value, rfl⟩ hput
      | delete | clear | query => rfl
  | awaitLoaded | awaitNotLoaded | waitEnd | preLoadGo | preLoadAcquire | preLoadReload =>
      exact ⟨hdisk, ⟨hval, hmod⟩, hp⟩
  | preLoadDone | preLoadSkip | reloadNotNeeded | reloadFail =>
      exact ⟨hdisk, ⟨hval, hmod⟩, (Pc.mayFill_resume _ _).trans hp⟩
  | pushOk => exact ⟨hdisk, ⟨hval, hmod⟩, Pc.mayFill_afterPush _⟩
  | reloadOk _ _ hread | loadOk _ hread => exact absurd (hdisk.symm.trans hread) (by simp)
  | putEnter | putBody | loadStore | writeOk | writeFail =>
      exact absurd hp (by simp [Pc.mayFill, Op.isPut])
  | @deleteBody key cleared =>
      have hsame : s.cache.delete key cleared = s.cache := by
        simp [Cache.delete, hval, Finmap.notMem_empty]
      refine ⟨hdisk, ?_, rfl⟩
      show (s.cache.delete key cleared).valuesCache = ∅ ∧ _
      rw [hsame]
      exact ⟨hval, hmod⟩
  | @snapshotClean f cleared cache hsnap =>
      obtain ⟨-, rfl⟩ := Cache.snapshot_none hsnap
      exact ⟨hdisk, Cache.settle_blank hval hmod cleared, rfl⟩
  | @snapshotTake f cleared cache keys map hsnap =>
      rcases s.cache.snapshot_cases cleared with ⟨-, heq⟩ | ⟨hne, -⟩
      · rw [heq] at hsnap
        exact absurd (Prod.mk.inj hsnap).1 (by simp)
      · exact absurd (Cache.settle_blank hval hmod cleared).2 hne
  | _ => exact ⟨hdisk, ⟨hval, hmod⟩, rfl⟩

theorem Blank.step (h : Blank m) (hput : ¬ CallsPut l) (hstep : (m.onDisk none).Step l m') :
    Blank m' ∧ m'.sh.disk = none := by
  obtain ⟨hdisk, ⟨hval, hmod⟩, hown⟩ :=
    tstep_blank hstep.own hput rfl h.values h.marks (h.pcs l.1)
  refine ⟨⟨hval, hmod, ?_⟩, hdisk⟩
  intro u
  by_cases hu : u = l.1
  · rw [hu]
    exact hown
  · rw [hstep.pc_of_ne hu]
    exact h.pcs u

/-! ### The process -/

namespace Instances

variable {w w' w₁ w₂ : Instances} {ev : Event} {n : Nat}

/-- Each instance is sound, and the ones that are not made yet hold nothing. -/
structure Tidy (w : Instances) : Prop where
  sound : ∀ i, Sound (w.made i)
  fresh : ∀ i, w.count ≤ i → Blank (w.made i)

theorem tidy_initial (disk : Option PrefMap) : Tidy (initial disk) :=
  ⟨fun _ => sound_initial none, fun _ _ => blank_initial none⟩

theorem Tidy.step (h : Tidy w) (hstep : w.Step ev w') : Tidy w' := by
  refine ⟨?_, ?_⟩
  · refine forall_made (A := fun _ m => Sound m) hstep (fun _ => sound_initial _) ?_ h.sound
    intro i l m _ hsound hs
    exact hsound.step hs
  · intro j hj
    cases hstep with
    | found | removedFromCache | closed | deleted | deleteFailed => exact h.fresh j hj
    | opened hmiss =>
        have hlt : w.count < j := hj
        simpa [Function.update_of_ne (Nat.ne_of_gt hlt)] using h.fresh j (Nat.le_of_lt hlt)
    | @inst i l m hi hs =>
        have hne : j ≠ i := Nat.ne_of_gt (Nat.lt_of_lt_of_le hi hj)
        simpa [set, Function.update_of_ne hne] using h.fresh j hj

/-- The steps after a deletion that found `n` instances: these are only read. -/
abbrev AfterStep (n : Nat) : Instances → Event → Instances → Prop :=
  guarded Step (fun _ ev => ∀ i l, ev = .inst i l → i < n → ReadOnly l)

/-- The `n` instances that were there at a deletion stay at rest. -/
structure Dormant (n : Nat) (w : Instances) : Prop where
  tidy : Tidy w
  le_count : n ≤ w.count
  rest : ∀ i, i < n → AtRest (w.made i)

/-- One of the first `n` instances writes a map. -/
def OldWrite (n : Nat) (ev : Event) : Prop :=
  ∃ i t map, i < n ∧ ev = .inst i (t, .wrote map)

theorem count_le (hstep : w.Step ev w') : w.count ≤ w'.count := by
  cases hstep with
  | opened => exact Nat.le_succ _
  | _ => exact Nat.le_refl _

theorem Dormant.step (h : Dormant n w) (hstep : w.AfterStep n ev w') :
    Dormant n w' ∧ ¬ OldWrite n ev := by
  obtain ⟨hs, hread⟩ := hstep
  refine ⟨⟨h.tidy.step hs, Nat.le_trans h.le_count (count_le hs), ?_⟩, ?_⟩
  · refine forall_made (A := fun i m => i < n → AtRest m) hs ?_ ?_ h.rest
    · intro _ hlt
      exact absurd hlt (Nat.not_lt.mpr h.le_count)
    · intro i l m hev hrest hm hlt
      exact ((hrest hlt).step (h.tidy.sound i) (hread i l hev hlt) hm).1
  · rintro ⟨i, t, map, hlt, rfl⟩
    cases hs with
    | inst hi hm =>
        exact ((h.rest i hlt).step (h.tidy.sound i) (hread i _ rfl hlt) hm).2 map rfl

/-- There are no files, and what has been made since the deletion holds nothing. -/
structure Erased (n : Nat) (w : Instances) : Prop where
  disk : w.disk = none
  blank : ∀ i, n ≤ i → Blank (w.made i)
  cached : ∀ i, w.cached = some i → n ≤ i

theorem Erased.step (h : Erased n w) (hdorm : Dormant n w) (hstep : w.AfterStep n ev w')
    (hput : ∀ i l, ev = .inst i l → ¬ CallsPut l) : Erased n w' := by
  obtain ⟨hs, hread⟩ := hstep
  refine ⟨?_, ?_, ?_⟩
  · cases hs with
    | opened | found | removedFromCache | closed => exact h.disk
    | deleted => rfl
    | deleteFailed _ hleft =>
        rcases hleft with heq | hnone
        · exact heq.trans h.disk
        · exact hnone
    | @inst i l m hi hm =>
        rw [h.disk] at hm
        by_cases hlt : i < n
        · have hno := ((hdorm.rest i hlt).step (hdorm.tidy.sound i) (hread i l rfl hlt) hm).2
          exact tstep_disk_wrote hm.own hno
        · exact ((h.blank i (Nat.not_lt.mp hlt)).step (hput i l rfl) hm).2
  · refine forall_made (A := fun i m => n ≤ i → Blank m) hs (fun _ _ => blank_initial _) ?_ h.blank
    intro i l m hev hblank hm hle
    rw [h.disk] at hm
    exact ((hblank hle).step (hput i l hev) hm).1
  · intro i hi
    cases hs with
    | found | deleted | deleteFailed | inst => exact h.cached i hi
    | opened =>
        obtain rfl : w.count = i := Option.some.inj hi
        exact hdorm.le_count
    | removedFromCache | closed => exact absurd hi (by simp)

/-- What `GetPreferences` gives access to then. -/
theorem Erased.getPreferences_eq (h : Erased n w) (o : Weather) (dirAccessible : Bool) :
    w.getPreferences o dirAccessible = ∅ := by
  unfold getPreferences
  split
  · next i hi => exact (h.blank i (h.cached i hi)).visible_eq
  · rw [h.disk]
    cases dirAccessible <;> rfl

/-- **Deletion is final if the instances are at rest.** Take any run of the process up to the
removal of the files by a `DeletePreferences` that returns `E_OK`. Let no instance be in the
cache then and each be at rest; and let these instances only be read afterwards. Then none of
them writes again, and in any later state, as long as no `Put` has been called, `GetPreferences`
gives access to an empty store. -/
theorem deletion_final {disk : Option PrefMap} {evs₁ evs₂ : List Event}
    (hrun₁ : Run Step (initial disk) evs₁ w₁) (hcached : w₁.cached = none)
    (hrest : ∀ i, i < w₁.count → AtRest (w₁.made i)) (hdel : w₁.Step (.deleted .ok) w₂)
    (hrun₂ : Run (AfterStep w₁.count) w₂ evs₂ w) :
    (∀ ev ∈ evs₂, ¬ OldWrite w₁.count ev) ∧
      ((∀ i l, .inst i l ∈ evs₂ → ¬ CallsPut l) → ∀ (o : Weather) (dirAccessible : Bool),
        w.getPreferences o dirAccessible = ∅) := by
  have htidy : Tidy w₁ := hrun₁.invariant (fun _ _ _ h hstep => h.step hstep) (tidy_initial disk)
  obtain ⟨hdorm, herased⟩ : Dormant w₁.count w₂ ∧ Erased w₁.count w₂ := by
    have htidy₂ : Tidy w₂ := htidy.step hdel
    cases hdel with
    | deleted =>
        refine ⟨⟨htidy₂, Nat.le_refl _, hrest⟩, ⟨rfl, htidy.fresh, ?_⟩⟩
        intro i hi
        exact absurd (hcached.symm.trans hi) (by simp)
  refine ⟨?_, ?_⟩
  · refine (hrun₂.invariant_history
      (I := fun hist w => Dormant w₁.count w ∧ ∀ ev ∈ hist, ¬ OldWrite w₁.count ev)
      ?_ [] ⟨hdorm, by simp⟩).2
    intro hist w ev w' ⟨hdorm, hno⟩ hstep
    obtain ⟨hnext, hnot⟩ := hdorm.step hstep
    refine ⟨hnext, ?_⟩
    intro ev' hmem
    rcases List.mem_append.mp hmem with hold | hnew
    · exact hno ev' hold
    · rw [List.mem_singleton.mp hnew]
      exact hnot
  · intro hput o dirAccessible
    have hguard : Run (guarded (AfterStep w₁.count)
        (fun _ ev => ∀ i l, ev = .inst i l → ¬ CallsPut l)) w₂ evs₂ w := by
      refine hrun₂.guard ?_
      intro ev hmem i l hev
      exact hput i l (hev ▸ hmem)
    have hend : Dormant w₁.count w ∧ Erased w₁.count w := by
      refine hguard.invariant (I := fun w => Dormant w₁.count w ∧ Erased w₁.count w) ?_
        ⟨hdorm, herased⟩
      intro w ev w' ⟨hdorm, herased⟩ ⟨hstep, hno⟩
      exact ⟨(hdorm.step hstep).1, herased.step hdorm hstep hno⟩
    exact hend.2.getPreferences_eq o dirAccessible

/-- The process after its first `GetPreferences` on an empty file and these steps of the
instance. -/
theorem run_first {m : Machine} {ls : List Label} (hrun : Run Machine.Step (.initial (some ∅)) ls m)
    (hne : ls ≠ []) :
    ∃ w evs, Run Step (initial (some ∅)) evs w ∧ w.made 0 = m ∧ w.disk = m.sh.disk ∧
      w.count = 1 := by
  have hopen : Step (initial (some ∅)) (.opened 0) _ := .opened rfl
  have hsteps := run_inst (w := { initial (some ∅) with
    made := Function.update (initial (some ∅)).made 0 (.initial (some ∅)), count := 1,
    cached := some 0 }) hrun Nat.one_pos rfl hne
  exact ⟨_, _, .cons hopen hsteps, by simp [set], rfl, rfl⟩

/-- A `Put` and a `Flush` whose task is still scheduled; `DeletePreferences` returns `E_OK`;
then the task runs on the closed instance, which a client still holds, and the next
`GetPreferences` finds the deleted entry. Nothing at all is called after the deletion. -/
theorem deletion_undone :
    ¬ ∀ (disk : Option PrefMap) (evs₁ evs₂ : List Event) (w₁ w₂ w : Instances) (o : Weather)
      (dirAccessible : Bool),
      Run Step (initial disk) evs₁ w₁ → w₁.Step (.deleted .ok) w₂ → Run Step w₂ evs₂ w →
      (∀ ev ∈ evs₂, ∀ i t c, ev ≠ .inst i (t, .call c)) →
      (∀ ev ∈ evs₂, ¬ OldWrite w₁.count ev) ∧ w.getPreferences o dirAccessible = ∅ := by
  intro hall
  obtain ⟨w, evs, hbefore, hmade, -, hcount⟩ := run_first
    (((run_loaded ∅).append run_oneUnsaved).append run_flushPending).unguard (by simp)
  have hclose : Run Step w [.closed] { w with cached := none, deleting := w.deleting + 1 } :=
    .cons .closed .nil
  obtain ⟨s, htask, hdisk⟩ : ∃ s : Shared,
      Solo TStep 2 (.free { Store.oneUnsaved with queue := some 1, disk := none } 1 false) .idle
        [.tau, .tau, .tau, .popped .task, .snapshot .task, .tau,
          .wrote (Finmap.singleton "a" (.int 1)),
          .notified ⟨{"a"}, Finmap.singleton "a" (.int 1)⟩, .tau] s .idle ∧
      s.disk = some (Finmap.singleton "a" (.int 1)) :=
    ⟨_, .cons (.taskStart rfl) <| .cons (.preLoadDone rfl) <| .cons (.flushAcquire rfl) <|
      .cons (.popToken rfl) <| .cons (.snapshotEnter rfl) <| .cons (.snapshotTake rfl) <|
      .cons .writeOk <| .cons .notify <| .cons .unlockTask .nil, rfl⟩
  have hafter := run_inst (w := { w with cached := none, disk := none })
    (htask.run_back allIdle) (hcount ▸ Nat.one_pos)
    (by show (w.made 0).onDisk none = _; rw [hmade]; rfl) (by simp)
  have hend := (hall _ _ _ _ _ _ ⟨true, true, true⟩ true (hbefore.append hclose) (.deleted rfl)
    hafter (by simp)).2
  rw [getPreferences] at hend
  simp only [set, hdisk] at hend
  exact absurd hend (by decide)

/-- A `Put`, a `FlushSync`, and then a deletion. The closed instance is read once more, and
`GetPreferences` makes a new one. -/
theorem deletion_final_after_flushSync :
    ∃ (w₁ w : Instances) (evs : List Event), w₁.disk = some (Finmap.singleton "a" (.int 1)) ∧
      (∀ ev ∈ evs, ¬ OldWrite w₁.count ev) ∧ w.cached = some 1 ∧
      w.getPreferences ⟨true, true, true⟩ true = ∅ := by
  obtain ⟨s, hsync, hqueue, hdisk⟩ : ∃ s : Shared,
      Solo TStep 1 (.free Store.oneUnsaved 0 false) .idle
        [.call .flushSync, .pushed .sync, .tau, .tau, .popped .sync, .snapshot .sync, .tau,
          .wrote (Finmap.singleton "a" (.int 1)),
          .notified ⟨{"a"}, Finmap.singleton "a" (.int 1)⟩, .tau, .ret .ok] s .idle ∧
      s.queue = none ∧ s.disk = some (Finmap.singleton "a" (.int 1)) :=
    ⟨_, .cons .callFlushSync <| .cons (.pushOk rfl) <| .cons (.preLoadDone rfl) <|
      .cons (.flushAcquire rfl) <| .cons (.popToken rfl) <| .cons (.snapshotEnter rfl) <|
      .cons (.snapshotTake rfl) <| .cons .writeOk <| .cons .notify <| .cons .unlockSync <|
      .cons .ret .nil, rfl, rfl⟩
  obtain ⟨w, evs, hbefore, hmade, hsaved, hcount⟩ := run_first
    (((run_loaded ∅).append run_oneUnsaved).unguard.append (hsync.run_back allIdle)) (by simp)
  have hclose : Run Step w [.closed] { w with cached := none, deleting := w.deleting + 1 } :=
    .cons .closed .nil
  have hrest : ∀ i, i < w.count → AtRest (w.made i) := by
    intro i hi
    obtain rfl : i = 0 := by omega
    rw [hmade]
    exact .inl ⟨hqueue, fun _ => rfl⟩
  have hread : Step { w with cached := none, disk := none }
      (.inst 0 (1, .call (.op (.query .getAll)))) _ :=
    .inst (hcount ▸ Nat.one_pos)
      (.mk (by show TStep 1 _ ((w.made 0).pc 1) _ _ _; rw [hmade]; exact .callOp rfl))
  obtain ⟨hwrites, hempty⟩ := deletion_final (hbefore.append hclose) rfl hrest (.deleted rfl)
    (.cons ⟨hread, by simp [ReadOnly]⟩ (.cons ⟨.opened rfl, by simp⟩ .nil))
  refine ⟨_, _, _, hsaved.trans hdisk, hwrites, by simp [set, hcount], hempty ?_ _ _⟩
  simp [CallsPut]

end Instances

end NativePreferences
