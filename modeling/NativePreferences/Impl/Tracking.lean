import NativePreferences.Impl.Locks

/-!
# NativePreferences.Impl.Tracking

**The marks account for every difference between the cache and the file**, whatever the
threads do, as long as no write fails.

Between the snapshot of a flusher and the end of its write, the map it took counts as
persisted (`inflight`). Before anything has been loaded or written the file counts as
empty, because a later reload will only add keys that are not in the cache. With `target`
for the map so defined, `Tracks m.sh.cache m.target` is kept by every step except a failed
write (`TrackInv.step`).

What a step can do to the cache, the file and `loadResult_` is said once, in
`tstep_data`.
-/

namespace NativePreferences

open Lib

variable {t : Tid} {s s' : Shared} {p p' : Pc} {e : Ev}

/-! ### Maps in flight -/

namespace Pc

/-- The map a flusher has taken and not yet accounted for. -/
def inflight : Pc → Option PrefMap
  | .writeXml _ _ map | .written _ _ map => some map
  | _ => none

/-- The map a thread relies on finding in the file. -/
def expects : Pc → Option PrefMap
  | .written _ _ map => some map
  | .loadStore values => some values
  | _ => none

/-- The thread is in the part of `LoadFromDisk` that found `loaded_` false. -/
def loading : Pc → Bool
  | .loadRead | .loadStore _ | .loadFinish => true
  | _ => false

@[simp] theorem inflight_resume (c : Caller) (ok : Bool) : (c.resume ok).inflight = none :=
  Caller.forall_resume (P := fun p => p.inflight = none) (fun _ => rfl) (fun _ => rfl) rfl
    (fun _ => rfl) c ok

@[simp] theorem inflight_afterPush (f : Flusher) : f.afterPush.inflight = none := by
  cases f <;> rfl

@[simp] theorem expects_resume (c : Caller) (ok : Bool) : (c.resume ok).expects = none :=
  Caller.forall_resume (P := fun p => p.expects = none) (fun _ => rfl) (fun _ => rfl) rfl
    (fun _ => rfl) c ok

@[simp] theorem expects_afterPush (f : Flusher) : f.afterPush.expects = none := by
  cases f <;> rfl

@[simp] theorem loading_resume (c : Caller) (ok : Bool) : (c.resume ok).loading = false :=
  Caller.forall_resume (P := fun p => p.loading = false) (fun _ => rfl) (fun _ => rfl) rfl
    (fun _ => rfl) c ok

@[simp] theorem loading_afterPush (f : Flusher) : f.afterPush.loading = false := by
  cases f <;> rfl

theorem holdsMutex_of_inflight {map : PrefMap} (h : p.inflight = some map) :
    p.holdsMutex = true := by
  cases p with
  | writeXml | written => rfl
  | _ => exact absurd h (by simp [inflight])

theorem holdsMutex_of_expects {map : PrefMap} (h : p.expects = some map) :
    p.holdsMutex = true := by
  cases p with
  | loadStore | written => rfl
  | _ => exact absurd h (by simp [expects])

theorem holdsMutex_of_loading (h : p.loading = true) : p.holdsMutex = true := by
  cases p with
  | loadRead | loadStore | loadFinish => rfl
  | _ => exact absurd h (by simp [loading])

end Pc

/-- The map in flight, if any: that of the holder of `mutex_`. -/
def Machine.inflight (m : Machine) : Option PrefMap :=
  m.sh.mutex.bind (fun t => (m.pc t).inflight)

/-- The map the file is taken to hold while nothing is in flight. -/
def Shared.base (s : Shared) : PrefMap := if s.loadResult then s.persisted else ∅

/-- The map that is on disk or about to be. -/
def Machine.target (m : Machine) : PrefMap := m.inflight.getD m.sh.base

/-! ### What a step does to the data -/

/-- The effect of a step on the cache, the file, `loadResult_` and the map in flight. -/
inductive DataStep (s : Shared) (p : Pc) (e : Ev) (s' : Shared) (p' : Pc) : Prop
  | same (hcache : s'.cache = s.cache) (hdisk : s'.disk = s.disk)
      (hres : s'.loadResult = s.loadResult) (hpc : p'.inflight = p.inflight)
  | put (key : String) (value : PreferencesValue) (cleared : Bool)
      (hp : p = .putBody key value cleared) (hcache : s'.cache = s.cache.put key value cleared)
      (hdisk : s'.disk = s.disk) (hres : s'.loadResult = s.loadResult)
      (hpc : p'.inflight = p.inflight)
  | delete (key : String) (cleared : Bool) (hp : p = .deleteBody key cleared)
      (hcache : s'.cache = s.cache.delete key cleared)
      (hdisk : s'.disk = s.disk) (hres : s'.loadResult = s.loadResult)
      (hpc : p'.inflight = p.inflight)
  | clear (hev : e = .clear) (hp : p = .enter .clear) (hcache : s'.cache = s.cache.clear)
      (hdisk : s'.disk = s.disk) (hres : s'.loadResult = s.loadResult)
      (hpc : p'.inflight = p.inflight)
  | reload (values : PrefMap) (c : Caller) (hev : e = .reloaded) (hp : p = .reload c)
      (hfree : s.cacheMutex = none) (hres : s.loadResult = false)
      (hread : s.disk = some values) (hcache : s'.cache = s.cache.reload values)
      (hdisk : s'.disk = s.disk) (hres' : s'.loadResult = true)
      (hpc : p'.inflight = p.inflight)
  | load (values : PrefMap) (hev : e = .loadStored values) (hp : p = .loadStore values)
      (hfree : s.cacheMutex = none)
      (hcache : s'.cache = s.cache.load values) (hdisk : s'.disk = s.disk)
      (hres' : s'.loadResult = true) (hpc : p'.inflight = p.inflight)
  /-- A snapshot that finds nothing to write. -/
  | clean (f : Flusher) (cleared : Bool) (hp : p = .snapshot f cleared)
      (hp' : p' = .unlock f .ok) (hmod : (s.cache.settle cleared).modifiedKeys = ∅)
      (hcache : s'.cache = s.cache.settle cleared) (hdisk : s'.disk = s.disk)
      (hres : s'.loadResult = s.loadResult) (hpc : p'.inflight = p.inflight)
  | take (f : Flusher) (cleared : Bool) (hp : p = .snapshot f cleared)
      (hcache : s'.cache = s.cache.swept cleared)
      (hdisk : s'.disk = s.disk) (hres : s'.loadResult = s.loadResult)
      (hpc : p'.inflight = some (s.cache.settle cleared).valuesCache)
  | wrote (map : PrefMap) (hev : e = .wrote map) (hpc : p.inflight = some map)
      (hpc' : p'.inflight = some map) (hcache : s'.cache = s.cache)
      (hdisk : s'.disk = some map) (hres : s'.loadResult = s.loadResult)
  | failed (hev : e = .writeFailed) (hpc' : p'.inflight = none) (hlock : p'.holdsMutex = true)
      (hcache : s'.cache = s.cache) (hdisk : s'.disk = s.disk)
      (hres : s'.loadResult = s.loadResult)
  | notified (map : PrefMap) (hpc : p.inflight = some map) (hexp : p.expects = some map)
      (hpc' : p'.inflight = none) (hlock : p'.holdsMutex = true) (hcache : s'.cache = s.cache)
      (hdisk : s'.disk = s.disk) (hres' : s'.loadResult = true)

theorem tstep_data (h : TStep t s p e s' p') : DataStep s p e s' p' := by
  cases h with
  | putBody => exact .put _ _ _ rfl rfl rfl rfl rfl
  | deleteBody => exact .delete _ _ rfl rfl rfl rfl rfl
  | clear => exact .clear rfl rfl rfl rfl rfl rfl
  | reloadOk hres hfree hread =>
      exact .reload _ _ rfl rfl hfree hres hread rfl rfl rfl (Pc.inflight_resume _ _)
  | loadStore hfree => exact .load _ rfl rfl hfree rfl rfl rfl rfl
  | @snapshotClean f cleared cache hsnap =>
      obtain ⟨hmod, rfl⟩ := Cache.snapshot_none hsnap
      exact .clean f cleared rfl rfl hmod rfl rfl rfl rfl
  | @snapshotTake f cleared cache keys map hsnap =>
      obtain ⟨rfl, rfl⟩ := Cache.snapshot_some hsnap
      exact .take f cleared rfl rfl rfl rfl rfl
  | writeOk => exact .wrote _ rfl rfl rfl rfl rfl rfl
  | writeFail => exact .failed rfl rfl rfl rfl rfl rfl
  | notify => exact .notified _ rfl rfl rfl rfl rfl rfl rfl
  | preLoadDone | preLoadSkip | reloadNotNeeded | reloadFail =>
      exact .same rfl rfl rfl (Pc.inflight_resume _ _)
  | pushOk => exact .same rfl rfl rfl (Pc.inflight_afterPush _)
  | _ => exact .same rfl rfl rfl rfl

/-- Only the holder of `mutex_` changes the file. -/
theorem tstep_disk (h : TStep t s p e s' p') : s'.disk = s.disk ∨ p.holdsMutex = true := by
  cases h with
  | writeOk => exact .inr rfl
  | _ => exact .inl rfl

/-- Only the holder of `mutex_` changes `loaded_`, and it only raises it. -/
theorem tstep_loaded (h : TStep t s p e s' p') :
    s'.loaded = s.loaded ∨ (s'.loaded = true ∧ p.holdsMutex = true ∧ p'.loading = false) := by
  cases h with
  | loadFinish => exact .inr ⟨rfl, rfl, rfl⟩
  | _ => exact .inl rfl

/-- A thread that comes to rely on the file has just read or written it. -/
theorem tstep_expects {map : PrefMap} (h : TStep t s p e s' p') (hexp : p'.expects = some map) :
    s'.disk = some map := by
  cases h with
  | writeOk => exact hexp
  | loadOk _ hread => exact hread.trans hexp
  | preLoadDone | preLoadSkip | reloadNotNeeded | reloadOk | reloadFail =>
      rw [Pc.expects_resume] at hexp
      exact absurd hexp (by simp)
  | pushOk =>
      rw [Pc.expects_afterPush] at hexp
      exact absurd hexp (by simp)
  | _ => exact absurd hexp (by simp [Pc.expects])

/-- A thread that goes on loading has found `loaded_` false, now or before. -/
theorem tstep_loading (h : TStep t s p e s' p') (hload : p'.loading = true) :
    (s'.loaded = false) ∨ (p.loading = true ∧ s'.loaded = s.loaded) := by
  cases h with
  | loadAcquire _ hnot => exact .inl hnot
  | loadOk | loadFail | loadStore => exact .inr ⟨rfl, rfl⟩
  | preLoadDone | preLoadSkip | reloadNotNeeded | reloadOk | reloadFail =>
      rw [Pc.loading_resume] at hload
      exact absurd hload (by simp)
  | pushOk =>
      rw [Pc.loading_afterPush] at hload
      exact absurd hload (by simp)
  | _ => exact absurd hload (by simp [Pc.loading])

/-! ### Invariants about the file -/

/-- The file holds what a thread relies on finding there. -/
def ExpectInv (m : Machine) : Prop :=
  ∀ t map, (m.pc t).expects = some map → m.sh.disk = some map

/-- While a thread is loading, `loaded_` is false. -/
def LoadingInv (m : Machine) : Prop := ∀ t, (m.pc t).loading = true → m.sh.loaded = false

variable {m m' : Machine} {l : Label}

theorem ExpectInv.step (h : ExpectInv m) (hlock : MutexInv m) (hstep : m.Step l m') :
    ExpectInv m' := by
  refine Threads.step_forall
    (A := fun (s : Shared) (_ : Tid) (p : Pc) => ∀ map, p.expects = some map → s.disk = some map)
    hstep ?_ ?_ h
  · intro map
    exact tstep_expects hstep.own
  · intro u hu hassert map hexp
    rcases tstep_disk hstep.own with heq | hholds
    · exact heq.trans (hassert map hexp)
    · have hholdsu : (m.pc u).holdsMutex = true := Pc.holdsMutex_of_expects hexp
      exact absurd (LockInv.unique hlock hholdsu hholds) hu

theorem LoadingInv.step (h : LoadingInv m) (hlock : MutexInv m) (hstep : m.Step l m') :
    LoadingInv m' := by
  refine Threads.step_forall
    (A := fun (s : Shared) (_ : Tid) (p : Pc) => p.loading = true → s.loaded = false)
    hstep ?_ ?_ h
  · intro hload
    rcases tstep_loading hstep.own hload with hnot | ⟨hold, heq⟩
    · exact hnot
    · exact heq.trans (h l.1 hold)
  · intro u hu hassert hload
    rcases tstep_loaded hstep.own with heq | ⟨-, hholds, -⟩
    · exact heq.trans (hassert hload)
    · have hholdsu : (m.pc u).holdsMutex = true := Pc.holdsMutex_of_loading hload
      exact absurd (LockInv.unique hlock hholdsu hholds) hu

/-! ### The map in flight -/

theorem inflight_none_of_not_holds (h : p.holdsMutex = false) : p.inflight = none := by
  cases hi : p.inflight with
  | none => rfl
  | some map => exact absurd (h.symm.trans (Pc.holdsMutex_of_inflight hi)) (by simp)

/-- The holder of `mutex_` decides what is in flight. -/
theorem inflight_of_holds (hlock : MutexInv m) (h : (m.pc t).holdsMutex = true) :
    m.inflight = (m.pc t).inflight := by
  have hheld : m.sh.mutex = some t := hlock t h
  rw [Machine.inflight, hheld, Option.bind_some]

/-- A step that leaves the thread's own map as it was. -/
theorem inflight_step (hlock : MutexInv m) (hstep : m.Step l m')
    (hpc : (m'.pc l.1).inflight = (m.pc l.1).inflight) : m'.inflight = m.inflight := by
  have hall : ∀ u, (m'.pc u).inflight = (m.pc u).inflight := by
    intro u
    by_cases hu : u = l.1
    · rw [hu, hpc]
    · rw [hstep.pc_of_ne hu]
  cases tstep_mutex hstep.own with
  | keep hheld _ =>
      have hheld : m'.sh.mutex = m.sh.mutex := hheld
      rw [Machine.inflight, Machine.inflight, hheld]
      simp only [hall]
  | acquire hfree hheld =>
      have hfree : m.sh.mutex = none := hfree
      have hheld : m'.sh.mutex = some l.1 := hheld
      have hnot : (m.pc l.1).holdsMutex = false := by
        cases hh : (m.pc l.1).holdsMutex with
        | false => rfl
        | true => exact absurd (hfree.symm.trans (hlock l.1 hh)) (by simp)
      rw [Machine.inflight, Machine.inflight, hheld, hfree, Option.bind_some, Option.bind_none,
        hpc, inflight_none_of_not_holds hnot]
  | release hholds hheld hdone =>
      have hheld : m'.sh.mutex = none := hheld
      rw [inflight_of_holds hlock hholds, Machine.inflight, hheld, Option.bind_none, ← hpc]
      exact (inflight_none_of_not_holds (by simpa using hdone)).symm

/-- A step that leaves the file and `loadResult_` alone as well leaves the target. -/
theorem target_step (hlock : MutexInv m) (hstep : m.Step l m')
    (hpc : (m'.pc l.1).inflight = (m.pc l.1).inflight) (hdisk : m'.sh.disk = m.sh.disk)
    (hres : m'.sh.loadResult = m.sh.loadResult) : m'.target = m.target := by
  rw [Machine.target, Machine.target, inflight_step hlock hstep hpc]
  simp only [Shared.base, Store.persisted, hdisk, hres]

/-! ### The invariant -/

/-- The invariants that every run keeps, whatever fails. -/
structure BaseInv (m : Machine) : Prop where
  locks : LocksInv m
  expects : ExpectInv m
  loading : LoadingInv m

theorem BaseInv.step (h : BaseInv m) (hstep : m.Step l m') : BaseInv m' :=
  ⟨h.locks.step hstep, h.expects.step h.locks.mutex hstep, h.loading.step h.locks.mutex hstep⟩

theorem baseInv_initial (disk : Option PrefMap) : BaseInv (.initial disk) where
  locks := locksInv_initial disk
  expects := fun _ _ h => absurd h (by simp [Machine.initial, Pc.expects])
  loading := fun _ h => absurd h (by simp [Machine.initial, Pc.loading])

theorem baseInv_loaded (values : PrefMap) : BaseInv (.loaded values) where
  locks := locksInv_loaded values
  expects := fun _ _ h => absurd h (by simp [Machine.loaded, Pc.expects])
  loading := fun _ h => absurd h (by simp [Machine.loaded, Pc.loading])

/-- The marks account for every difference, and before the first load or write every key
of the cache is marked or in flight. -/
structure TrackInv (m : Machine) : Prop where
  tracks : m.sh.cache.Tracks m.target
  marked : m.sh.loadResult = false →
    m.sh.cache.Marked (fun key => ∃ map, m.inflight = some map ∧ key ∈ map)

/-- A step that leaves the target alone and does to the cache what keeps track of any
target. -/
theorem TrackInv.of_cache (h : TrackInv m) (hlock : MutexInv m) (hstep : m.Step l m')
    (hpc : (m'.pc l.1).inflight = (m.pc l.1).inflight) (hdisk : m'.sh.disk = m.sh.disk)
    (hres : m'.sh.loadResult = m.sh.loadResult)
    (htracks : ∀ base, m.sh.cache.Tracks base → m'.sh.cache.Tracks base)
    (hmarked : ∀ others, m.sh.cache.Marked others → m'.sh.cache.Marked others) :
    TrackInv m' := by
  refine ⟨?_, ?_⟩
  · rw [target_step hlock hstep hpc hdisk hres]
    exact htracks _ h.tracks
  · intro hnot
    rw [inflight_step hlock hstep hpc]
    exact hmarked _ (h.marked (hres.symm.trans hnot))

/-- With nothing in flight and nothing loaded, every key of the cache is marked. -/
theorem TrackInv.marked_of_none (h : TrackInv m) (hres : m.sh.loadResult = false)
    (hnone : m.inflight = none) : m.sh.cache.Marked (fun _ => False) := by
  intro key hmem
  rcases h.marked hres key hmem with hmod | ⟨map, hmap, -⟩
  · exact .inl hmod
  · exact absurd (hnone.symm.trans hmap) (by simp)

/-- After a step that has read the file, with nothing in flight, the file is what counts. -/
theorem trackInv_of_read {values : PrefMap} (hlock : MutexInv m) (hstep : m.Step l m')
    (hpc : (m'.pc l.1).inflight = (m.pc l.1).inflight) (hnone : m.inflight = none)
    (hread : m.sh.disk = some values) (hdisk : m'.sh.disk = m.sh.disk)
    (hres' : m'.sh.loadResult = true) (htracks : m'.sh.cache.Tracks values) : TrackInv m' := by
  have htarget : m'.target = values := by
    rw [Machine.target, inflight_step hlock hstep hpc, hnone]
    simp [Shared.base, Store.persisted, hres', hdisk, hread]
  refine ⟨?_, fun hnot => absurd (hres'.symm.trans hnot) (by simp)⟩
  rw [htarget]
  exact htracks

/-- **Every step but a failed write keeps track.** -/
theorem TrackInv.step (h : TrackInv m) (hbase : BaseInv m) (hstep : m.Step l m')
    (hok : l.2 ≠ .writeFailed) : TrackInv m' := by
  have hlock : MutexInv m := hbase.locks.mutex
  have hlock' : MutexInv m' := hlock.step hstep
  -- a flag that the thread remembers as raised is raised
  have hflag : ∀ cleared, (m.pc l.1).sawCleared = cleared → cleared = true →
      m.sh.cache.isCleared = true := by
    intro cleared hsaw htrue
    exact hbase.locks.cleared l.1 (hsaw.trans htrue)
  cases tstep_data hstep.own with
  | same hcache hdisk hres hpc =>
      refine h.of_cache hlock hstep hpc hdisk hres ?_ ?_
      · rw [hcache]
        exact fun _ => id
      · rw [hcache]
        exact fun _ => id
  | put key value cleared hp hcache hdisk hres hpc =>
      have hc := hflag cleared (by rw [hp]; rfl)
      refine h.of_cache hlock hstep hpc hdisk hres ?_ ?_
      · rw [hcache]
        exact fun _ htracks => htracks.put hc
      · rw [hcache]
        exact fun _ hmarked => hmarked.put
  | delete key cleared hp hcache hdisk hres hpc =>
      refine h.of_cache hlock hstep hpc hdisk hres ?_ ?_
      · rw [hcache]
        exact fun _ htracks => htracks.delete
      · rw [hcache]
        exact fun _ hmarked => hmarked.delete
  | clear hev hp hcache hdisk hres hpc =>
      refine h.of_cache hlock hstep hpc hdisk hres ?_ ?_
      · rw [hcache]
        exact fun _ htracks => htracks.clear
      · rw [hcache]
        exact fun _ hmarked => hmarked
  | clean f cleared hp hp' hmod hcache hdisk hres hpc =>
      have hc := hflag cleared (by rw [hp]; rfl)
      refine h.of_cache hlock hstep hpc hdisk hres ?_ ?_
      · rw [hcache]
        exact fun _ htracks => htracks.settle hc
      · rw [hcache]
        exact fun _ hmarked => hmarked.settle
  | reload values c hev hp hfree hres hread hcache hdisk hres' hpc =>
      -- the reloading thread holds the mutex, so nothing is in flight
      have hnone : m.inflight = none := by
        rw [inflight_of_holds hlock (t := l.1) (by rw [hp]; rfl), hp]
        rfl
      refine trackInv_of_read hlock hstep hpc hnone hread hdisk hres' ?_
      rw [hcache]
      exact Cache.tracks_reload (h.marked_of_none hres hnone)
  | load values hev hp hfree hcache hdisk hres' hpc =>
      have hnone : m.inflight = none := by
        rw [inflight_of_holds hlock (t := l.1) (by rw [hp]; rfl), hp]
        rfl
      have hread : m.sh.disk = some values := hbase.expects l.1 values (by rw [hp]; rfl)
      refine trackInv_of_read hlock hstep hpc hnone hread hdisk hres' ?_
      rw [hcache]
      exact Cache.tracks_load _ values
  | take f cleared hp hcache hdisk hres hpc =>
      have hflight : m'.inflight = some (m.sh.cache.settle cleared).valuesCache := by
        rw [inflight_of_holds hlock' (Pc.holdsMutex_of_inflight hpc), hpc]
      refine ⟨?_, ?_⟩
      · rw [Machine.target, hflight, hcache]
        exact Cache.tracks_taken _
      · intro _ key hmem
        rw [hcache] at hmem
        exact .inr ⟨_, hflight, hmem⟩
  | wrote map hev hpc hpc' hcache hdisk hres =>
      have hflight : m'.inflight = m.inflight :=
        inflight_step hlock hstep (hpc'.trans hpc.symm)
      have hsome : m.inflight = some map := by
        rw [inflight_of_holds hlock (Pc.holdsMutex_of_inflight hpc), hpc]
      have htarget : m'.target = m.target := by
        rw [Machine.target, Machine.target, hflight, hsome]
        rfl
      refine ⟨?_, ?_⟩
      · rw [htarget, hcache]
        exact h.tracks
      · intro hnot
        rw [hcache, hflight]
        exact h.marked (hres.symm.trans hnot)
  | failed hev => exact absurd hev hok
  | notified map hpc hexp hpc' hholds hcache hdisk hres' =>
      -- the map is in the file now, which counts as loaded
      have hread : m.sh.disk = some map := hbase.expects l.1 map hexp
      have hsome : m.target = map := by
        rw [Machine.target, inflight_of_holds hlock (Pc.holdsMutex_of_inflight hpc), hpc]
        rfl
      have htarget : m'.target = map := by
        rw [Machine.target, inflight_of_holds hlock' hholds, hpc']
        simp [Shared.base, Store.persisted, hres', hdisk, hread]
      refine ⟨?_, fun hnot => absurd (hres'.symm.trans hnot) (by simp)⟩
      rw [htarget, hcache, ← hsome]
      exact h.tracks

theorem trackInv_initial (disk : Option PrefMap) : TrackInv (.initial disk) where
  tracks := fun _ hne => absurd rfl hne
  marked := fun _ _ hmem => absurd hmem Finmap.notMem_empty

theorem trackInv_loaded (values : PrefMap) : TrackInv (.loaded values) where
  tracks := fun _ hne => absurd rfl hne
  marked := fun hnot => absurd hnot (by simp [Machine.loaded])

/-- The runs in which no write fails. -/
abbrev Machine.WritingStep : Machine → Label → Machine → Prop :=
  guarded Machine.Step (fun _ l => l.2 ≠ .writeFailed)

/-- In them, every state satisfies all of the above. -/
theorem track_run {m₀ : Machine} {ls : List Label} (hrun : Run Machine.WritingStep m₀ ls m)
    (hbase : BaseInv m₀) (htrack : TrackInv m₀) : BaseInv m ∧ TrackInv m := by
  refine Run.invariant (I := fun m => BaseInv m ∧ TrackInv m) ?_ hrun ⟨hbase, htrack⟩
  intro m l m' ⟨hbase, htrack⟩ ⟨hstep, hok⟩
  exact ⟨hbase.step hstep, htrack.step hbase hstep hok⟩

end NativePreferences
