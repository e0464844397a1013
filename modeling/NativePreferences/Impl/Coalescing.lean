import NativePreferences.Impl.FlushToken
import NativePreferences.Impl.Sequential
import NativePreferences.Impl.Tracking

/-!
# NativePreferences.Impl.Coalescing

**Flushes that rely on one another lose nothing.** A `Flush` or `FlushSync` that finds the
queue full returns at once: it relies on the token's owner, whose snapshot comes after its
pop and so after the mutations that the skipped flush was to save.

The argument is about the time after the last mutation has returned (`Quiet`), with no load
in it. There the cache changes in snapshots only (`Calm.data`) and what readers see
stays the same. A flush that starts then
makes a promise, kept by every step: nothing is marked, or a task is scheduled, or some
thread is on its way to a snapshot (`Promised`). In a quiescent state only the first is
left, and the marks account for every difference between the cache and the file.
-/

namespace NativePreferences

open Lib

variable {t : Tid} {s s' : Shared} {p p' : Pc} {e : Ev} {m m' : Machine} {l : Label}

/-! ### Mutations in progress -/

/-- `Put`, `Delete` and `Clear`. -/
def Op.mutates : Op → Bool
  | .put _ _ | .delete _ | .clear => true
  | .query _ => false

def Caller.mutates : Caller → Bool
  | .op o => o.mutates
  | .flusher _ => false

namespace Pc

/-- The thread is in a mutation. -/
def mutating : Pc → Bool
  | .await o | .waiting o | .enter o => o.mutates
  | .preLoad c | .preLoadLock c | .preLoadLocked c | .reload c => c.mutates
  | .putBody _ _ _ | .deleteBody _ _ => true
  | _ => false

@[simp] theorem mutating_resume (c : Caller) (ok : Bool) : (c.resume ok).mutating = c.mutates := by
  cases c with
  | op o => rfl
  | flusher f => cases f <;> cases ok <;> rfl

@[simp] theorem mutating_afterPush (f : Flusher) : f.afterPush.mutating = false := by
  cases f <;> rfl

/-- The thread is in the part of `PreLoad` that found `loadResult_` false. -/
def reloading : Pc → Bool
  | .preLoadLock _ | .preLoadLocked _ | .reload _ => true
  | _ => false

@[simp] theorem reloading_resume (c : Caller) (ok : Bool) : (c.resume ok).reloading = false :=
  Caller.forall_resume (P := fun p => p.reloading = false) (fun _ => rfl) (fun _ => rfl) rfl
    (fun _ => rfl) c ok

@[simp] theorem reloading_afterPush (f : Flusher) : f.afterPush.reloading = false := by
  cases f <;> rfl

end Pc

/-- No mutation is in progress. -/
def Quiet (m : Machine) : Prop := ∀ t, (m.pc t).mutating = false

/-- A mutation begins. One with a bad argument returns without having begun. -/
def StartsMutation (l : Label) : Prop := ∃ o, l.2 = .call (.op o) ∧ o.mutates = true

theorem tstep_mutating (h : TStep t s p e s' p') (hmut : p'.mutating = true) :
    p.mutating = true ∨ StartsMutation (t, e) := by
  cases h with
  | callOp => exact .inr ⟨_, rfl, hmut⟩
  | awaitLoaded | awaitNotLoaded | waitEnd | preLoadGo | preLoadAcquire | preLoadReload =>
      exact .inl hmut
  | preLoadDone | preLoadSkip | reloadNotNeeded | reloadOk | reloadFail =>
      rw [Pc.mutating_resume] at hmut
      exact .inl hmut
  | pushOk =>
      rw [Pc.mutating_afterPush] at hmut
      exact absurd hmut (by simp)
  | putEnter | deleteEnter => exact .inl rfl
  | _ => exact absurd hmut (by simp [Pc.mutating, Caller.mutates])

theorem Quiet.step (h : Quiet m) (hstep : m.Step l m') (hno : ¬ StartsMutation l) : Quiet m' := by
  intro u
  by_cases hu : u = l.1
  · cases hmut : (m'.pc u).mutating with
    | false => rfl
    | true =>
        rw [hu] at hmut
        rcases tstep_mutating hstep.own hmut with hold | hnew
        · exact absurd (hold.symm.trans (h l.1)) (by simp)
        · exact absurd hnew hno
  · rw [hstep.pc_of_ne hu]
    exact h u

/-! ### The quiet time -/

/-- A load or a reload puts what it read into the cache. -/
def ReadsFile (l : Label) : Prop := l.2 = .reloaded ∨ ∃ values, l.2 = .loadStored values

/-- The instance has read or written the file, or there is nothing in it, or something is
about to be written over it. -/
def FileSettled (m : Machine) : Prop :=
  m.sh.loadResult = false →
    m.sh.persisted = ∅ ∨ m.inflight ≠ none ∨ ¬ m.sh.cache.Clean

/-- With nothing marked and nothing on its way, the file holds what readers see. -/
theorem FileSettled.persisted_eq (h : FileSettled m) (htrack : TrackInv m)
    (hclean : m.sh.cache.Clean) (hnone : m.inflight = none) :
    m.sh.persisted = m.sh.cache.visible := by
  have hvis : m.sh.cache.visible = m.sh.base := by
    rw [htrack.tracks.visible_eq hclean, Machine.target, hnone]
    rfl
  rw [hvis, Shared.base]
  cases hres : m.sh.loadResult with
  | true => rfl
  | false =>
      rcases h hres with hempty | hflight | hdirty
      · exact hempty
      · exact absurd hnone hflight
      · exact absurd hclean hdirty

/-- After the last mutation, with the token in good hands. -/
structure Calm (m : Machine) : Prop where
  base : BaseInv m
  track : TrackInv m
  token : TokenOwned m
  quiet : Quiet m
  settled : FileSettled m

/-- The steps of the quiet time. -/
abbrev Machine.CalmStep : Machine → Label → Machine → Prop :=
  guarded Machine.Step
    (fun _ l => l.2 ≠ .writeFailed ∧ ¬ StartsMutation l ∧ ¬ GivesUp l ∧ ¬ ReadsFile l)

/-- What a step of the quiet time does to the data: the cache changes in snapshots only. -/
inductive CalmData (m : Machine) (l : Label) (m' : Machine) : Prop
  | same (hcache : m'.sh.cache = m.sh.cache) (hdisk : m'.sh.disk = m.sh.disk)
      (hres : m'.sh.loadResult = m.sh.loadResult) (hflight : m'.inflight = m.inflight)
  | clean (f : Flusher) (cleared : Bool) (hp : m.pc l.1 = .snapshot f cleared)
      (hmod : (m.sh.cache.settle cleared).modifiedKeys = ∅)
      (hcache : m'.sh.cache = m.sh.cache.swept cleared) (hdisk : m'.sh.disk = m.sh.disk)
      (hres : m'.sh.loadResult = m.sh.loadResult) (hflight : m'.inflight = m.inflight)
  | take (f : Flusher) (cleared : Bool) (hp : m.pc l.1 = .snapshot f cleared)
      (hcache : m'.sh.cache = m.sh.cache.swept cleared) (hflight : m'.inflight ≠ none)
  /-- A step of a write. -/
  | write (hcache : m'.sh.cache = m.sh.cache)
      (hdone : m'.sh.loadResult = true ∨ m'.inflight ≠ none)

theorem Calm.data (h : Calm m) (hstep : m.CalmStep l m') : CalmData m l m' := by
  obtain ⟨hstep, hok, -, -, hread⟩ := hstep
  have hlock : MutexInv m := h.base.locks.mutex
  have hquiet := h.quiet l.1
  have hflight : ∀ map, (m'.pc l.1).inflight = some map → m'.inflight ≠ none := by
    intro map hmap
    rw [inflight_of_holds (hlock.step hstep) (Pc.holdsMutex_of_inflight hmap), hmap]
    simp
  cases tstep_data hstep.own with
  | same hcache hdisk hres hpc => exact .same hcache hdisk hres (inflight_step hlock hstep hpc)
  | put _ _ _ hp | delete _ _ hp | clear _ hp =>
      rw [hp] at hquiet
      exact absurd hquiet (by simp [Pc.mutating, Op.mutates])
  | reload _ _ hev => exact absurd (.inl hev) hread
  | load values hev => exact absurd (.inr ⟨values, hev⟩) hread
  | clean f cleared hp _ hmod hcache hdisk hres hpc =>
      exact .clean f cleared hp hmod (hcache.trans (Cache.swept_of_clean hmod)) hdisk hres
        (inflight_step hlock hstep hpc)
  | take f cleared hp hcache _ _ hpc => exact .take f cleared hp hcache (hflight _ hpc)
  | wrote _ _ _ hpc' hcache => exact .write hcache (.inr (hflight _ hpc'))
  | failed hev => exact absurd hev hok
  | notified _ _ _ _ _ hcache _ hres' => exact .write hcache (.inl hres')

theorem FileSettled.step (h : Calm m) (hstep : m.CalmStep l m') : FileSettled m' := by
  intro hnot
  cases h.data hstep with
  | same hcache hdisk hres hflight =>
      rw [Store.persisted, hdisk, hflight, hcache]
      exact h.settled (hres.symm.trans hnot)
  | clean f cleared hp hmod hcache hdisk hres hflight =>
      rw [Store.persisted, hdisk, hflight]
      rcases h.settled (hres.symm.trans hnot) with hempty | hsome | hdirty
      · exact .inl hempty
      · exact .inr (.inl hsome)
      · -- what the snapshot has not seen is a `Clear` that came too late for it
        refine .inr (.inr ?_)
        rw [hcache]
        intro hclean
        exact hdirty (Cache.clean_of_swept hmod hclean)
  | take _ _ _ _ hflight => exact .inr (.inl hflight)
  | write _ hdone =>
      rcases hdone with htrue | hflight
      · exact absurd (htrue.symm.trans hnot) (by simp)
      · exact .inr (.inl hflight)

theorem Calm.step (h : Calm m) (hstep : m.CalmStep l m') : Calm m' := by
  refine ⟨h.base.step hstep.1, h.track.step h.base hstep.1 hstep.2.1, ?_,
    h.quiet.step hstep.1 hstep.2.2.1, FileSettled.step h hstep⟩
  rcases h.token.step hstep.1 with hown | ⟨-, hgives⟩
  · exact hown
  · exact absurd hgives hstep.2.2.2.1

theorem Calm.cache_step (h : Calm m) (hstep : m.CalmStep l m') :
    m'.sh.cache = m.sh.cache ∨
      ∃ f cleared, m.pc l.1 = .snapshot f cleared ∧ m'.sh.cache = m.sh.cache.swept cleared := by
  cases h.data hstep with
  | same hcache | write hcache => exact .inl hcache
  | clean f cleared hp _ hcache | take f cleared hp hcache =>
      exact .inr ⟨f, cleared, hp, hcache⟩

/-- A flag that a snapshot remembers as raised is raised. -/
theorem Calm.flag (h : Calm m) {f : Flusher} {cleared : Bool} (hp : m.pc t = .snapshot f cleared)
    (htrue : cleared = true) : m.sh.cache.isCleared = true :=
  h.base.locks.cleared t (by rw [hp]; exact htrue)

/-- In the quiet time readers always see the same. -/
theorem Calm.visible_step (h : Calm m) (hstep : m.CalmStep l m') :
    m'.sh.cache.visible = m.sh.cache.visible := by
  rcases h.cache_step hstep with hcache | ⟨f, cleared, hp, hcache⟩
  · rw [hcache]
  · rw [hcache]
    exact Cache.visible_swept (h.flag hp)

/-! ### The promise of a flush -/

/-- The thread will take a snapshot, acting on the flag as it will be, or relies on one who
will. -/
def WillSnapshot (s : Shared) : Pc → Prop
  | .push _ | .snapshotLock _ => True
  | .snapshot _ cleared => cleared = s.cache.isCleared
  | p => p.unpopped = true

theorem willSnapshot_of_unpopped (h : p.unpopped = true) : WillSnapshot s p := by
  cases p with
  | push | snapshotLock => trivial
  | snapshot => exact absurd h (by simp [Pc.unpopped])
  | _ => exact h

/-- Somebody is on the way to a snapshot, or nothing is marked. -/
def Promised (m : Machine) : Prop :=
  m.sh.cache.Clean ∨ 0 < m.sh.scheduled ∨ ∃ t, WillSnapshot m.sh (m.pc t)

/-- The body of a snapshot. -/
theorem tstep_snapshot {f : Flusher} {cleared : Bool} (h : TStep t s p e s' p')
    (hp : p = .snapshot f cleared) : s'.cache = s.cache.swept cleared := by
  subst hp
  cases h with
  | snapshotClean hsnap | snapshotTake hsnap => rw [← Cache.snapshot_snd, hsnap]

/-- Where a thread on its way to a snapshot goes next. -/
theorem tstep_willSnapshot (h : TStep t s p e s' p') (hwill : WillSnapshot s p) :
    WillSnapshot s' p' ∨ 0 < s'.scheduled ∨ (∃ f, p = .snapshot f s.cache.isCleared) ∨
      (∃ f, p = .push f ∧ s.queue ≠ none) ∨ (p.unpopped = true ∧ s.queue ≠ some 1) ∨
      (∃ f, e = .reloadFailed (.flusher f)) := by
  cases h with
  | pushOk => exact .inl (willSnapshot_of_unpopped (by simp))
  | pushFull hfull => exact .inr (.inr (.inr (.inl ⟨_, rfl, hfull⟩)))
  | schedule => exact .inr (.inl (Nat.succ_pos _))
  | popToken => exact .inl trivial
  | popOther hqueue hvalue =>
      refine .inr (.inr (.inr (.inr (.inl ⟨rfl, ?_⟩))))
      rw [hqueue]
      simpa using hvalue
  | popEmpty hempty =>
      refine .inr (.inr (.inr (.inr (.inl ⟨rfl, ?_⟩))))
      rw [hempty]
      simp
  | snapshotEnter => exact .inl rfl
  | snapshotClean | snapshotTake =>
      obtain rfl := hwill
      exact .inr (.inr (.inl ⟨_, rfl⟩))
  | flushAcquire => exact .inl rfl
  | @preLoadDone c | @preLoadSkip c | @reloadOk c =>
      cases c with
      | op o => exact absurd hwill (by simp [WillSnapshot, Pc.unpopped])
      | flusher f => exact .inl rfl
  | @preLoadGo c | @preLoadAcquire c | @preLoadReload c =>
      cases c with
      | op o => exact absurd hwill (by simp [WillSnapshot, Pc.unpopped])
      | flusher f => exact .inl rfl
  | @reloadNotNeeded c | @reloadFail c =>
      cases c with
      | op o => exact absurd hwill (by simp [WillSnapshot, Pc.unpopped])
      | flusher f => exact .inr (.inr (.inr (.inr (.inr ⟨f, rfl⟩))))
  | _ => exact absurd hwill (by simp [WillSnapshot, Pc.unpopped])

/-- A thread that does not move stays on its way: only a snapshot lowers the flag, and two
threads are never in one together. -/
theorem Calm.willSnapshot_of_ne (h : Calm m) (hstep : m.CalmStep l m') {u : Tid} (hu : u ≠ l.1)
    (hwill : WillSnapshot m.sh (m.pc u)) : WillSnapshot m'.sh (m'.pc u) := by
  rw [hstep.1.pc_of_ne hu]
  rcases h.cache_step hstep with hcache | ⟨f, cleared, hp, -⟩
  · cases hpu : m.pc u with
    | snapshot f cleared =>
        rw [hpu] at hwill
        rw [WillSnapshot, hcache]
        exact hwill
    | _ =>
        rw [hpu] at hwill
        exact hwill
  · cases hpu : m.pc u with
    | snapshot f' cleared' =>
        have hholds : (m.pc l.1).holdsCache = true := by rw [hp]; rfl
        have hholdsu : (m.pc u).holdsCache = true := by rw [hpu]; rfl
        exact absurd (LockInv.unique h.base.locks.cacheMutex hholdsu hholds) hu
    | _ =>
        rw [hpu] at hwill
        exact hwill

/-- A task that is scheduled stays so until it runs. -/
theorem promised_of_scheduled (hstep : m.Step l m') (h : 0 < m.sh.scheduled) : Promised m' := by
  refine .inr ?_
  cases tstep_token hstep.own with
  | start _ _ _ hpc' => exact .inr ⟨l.1, willSnapshot_of_unpopped hpc'⟩
  | schedule _ hsched => exact .inl (by omega)
  | keep _ hsched | push _ _ hsched | pop _ hsched | giveUp _ _ _ hsched =>
      exact .inl (by omega)

/-- **The promise is kept.** -/
theorem Promised.step (h : Promised m) (hcalm : Calm m) (hstep : m.CalmStep l m') :
    Promised m' := by
  rcases h with hclean | hsched | ⟨u, hwill⟩
  · refine .inl ?_
    rcases hcalm.cache_step hstep with hcache | ⟨f, cleared, hp, hcache⟩
    · rw [hcache]
      exact hclean
    · rw [hcache]
      exact hclean.swept (hcalm.flag hp)
  · exact promised_of_scheduled hstep.1 hsched
  · by_cases hu : u = l.1
    · rw [hu] at hwill
      rcases tstep_willSnapshot hstep.1.own hwill with
        hwill' | hsched' | ⟨f, hp⟩ | ⟨f, hp, hfull⟩ | ⟨hpc, hqueue⟩ | hgives
      · exact .inr (.inr ⟨l.1, hwill'⟩)
      · exact .inr (.inl hsched')
      · -- the snapshot is taken
        refine .inl ?_
        rw [tstep_snapshot hstep.1.own hp]
        exact Cache.clean_swept m.sh.cache
      · -- the queue is full, and its flusher will take the snapshot
        rcases hcalm.token.hasFlusher hfull with hsched' | ⟨v, hv⟩
        · exact promised_of_scheduled hstep.1 hsched'
        · have hne : v ≠ l.1 := by
            rintro rfl
            rw [hp] at hv
            exact absurd hv (by simp [Pc.unpopped])
          exact .inr (.inr ⟨v, hcalm.willSnapshot_of_ne hstep hne (willSnapshot_of_unpopped hv)⟩)
      · exact absurd (TokenInv.queue_eq (.inl hcalm.token) hpc) hqueue
      · exact absurd hgives hstep.2.2.2.1
    · exact .inr (.inr ⟨u, hcalm.willSnapshot_of_ne hstep hu hwill⟩)

theorem tstep_callFlush {c : Call} (h : TStep t s p e s' p') (hev : e = .call c)
    (hc : c = .flush ∨ c = .flushSync) : ∃ f, p' = .push f := by
  cases h with
  | callOp =>
      rcases hc with rfl | rfl <;> exact absurd hev (by simp)
  | callFlush => exact ⟨.task, rfl⟩
  | callFlushSync => exact ⟨.sync, rfl⟩
  | _ => exact absurd hev (by simp)

/-- A flush makes the promise when it is called. -/
theorem promised_of_call {c : Call} (hcall : m.Step (t, .call c) m')
    (hc : c = .flush ∨ c = .flushSync) : Promised m' := by
  obtain ⟨f, hp⟩ := tstep_callFlush hcall.own rfl hc
  refine .inr (.inr ⟨t, ?_⟩)
  rw [hp]
  trivial

/-! ### Quiescent states -/

/-- No call is in progress and no flush task is outstanding. -/
structure Quiescent (m : Machine) : Prop where
  idle : ∀ t, m.pc t = .idle
  scheduled : m.sh.scheduled = 0

theorem Promised.clean (h : Promised m) (hdone : Quiescent m) : m.sh.cache.Clean := by
  rcases h with hclean | hsched | ⟨t, hwill⟩
  · exact hclean
  · rw [hdone.scheduled] at hsched
    exact absurd hsched (by omega)
  · rw [hdone.idle t] at hwill
    exact absurd hwill (by simp [WillSnapshot, Pc.unpopped])

/-- At the end of the quiet time the file holds what readers see. -/
theorem Calm.persisted_eq (h : Calm m) (hprom : Promised m) (hdone : Quiescent m) :
    m.sh.persisted = m.sh.cache.visible := by
  refine h.settled.persisted_eq h.track (hprom.clean hdone) ?_
  rw [Machine.inflight]
  cases m.sh.mutex with
  | none => rfl
  | some t =>
      rw [Option.bind_some, hdone.idle t]
      rfl

/-- A flush that starts in the quiet time, and a run to a quiescent state. -/
theorem Calm.run {m₁ m₂ : Machine} {c : Call} {ls : List Label} (h : Calm m₁)
    (hc : c = .flush ∨ c = .flushSync) (hcall : m₁.Step (t, .call c) m₂)
    (hrun : Run Machine.CalmStep m₂ ls m) (hdone : Quiescent m) :
    m.sh.persisted = m₁.sh.cache.visible ∧ m.sh.cache.visible = m₁.sh.cache.visible := by
  have hcalm : m₁.CalmStep (t, .call c) m₂ := by
    refine ⟨hcall, by simp, ?_, by simp [GivesUp], by simp [ReadsFile]⟩
    rintro ⟨o, ho, -⟩
    rcases hc with rfl | rfl <;> exact absurd ho (by simp)
  obtain ⟨hend, hprom, hvis⟩ : Calm m ∧ Promised m ∧ m.sh.cache.visible = m₁.sh.cache.visible := by
    refine Run.invariant
      (I := fun m => Calm m ∧ Promised m ∧ m.sh.cache.visible = m₁.sh.cache.visible) ?_ hrun
      ⟨h.step hcalm, promised_of_call hcall hc, h.visible_step hcalm⟩
    intro m l m' h hstep
    obtain ⟨hend, hprom, hvis⟩ := h
    exact ⟨hend.step hstep, hprom.step hend hstep, (hend.visible_step hstep).trans hvis⟩
  exact ⟨(hend.persisted_eq hprom hdone).trans hvis, hvis⟩

/-! ### Loaded instances -/

/-- The file has been read or written, and no thread still believes otherwise. -/
structure LoadedInv (m : Machine) : Prop where
  loaded : m.sh.loaded = true
  loadResult : m.sh.loadResult = true
  reloading : ∀ t, (m.pc t).reloading = false

/-- `loadResult_` is never lowered, and a thread that finds it raised does not reload. -/
theorem tstep_reloading (h : TStep t s p e s' p') (hres : s.loadResult = true)
    (hpc : p.reloading = false) : s'.loadResult = true ∧ p'.reloading = false := by
  cases h with
  | preLoadGo hnot => exact absurd (hres.symm.trans hnot) (by simp)
  | preLoadDone => exact ⟨hres, Pc.reloading_resume _ _⟩
  | pushOk => exact ⟨hres, Pc.reloading_afterPush _⟩
  | preLoadAcquire | preLoadSkip | preLoadReload | reloadNotNeeded | reloadOk | reloadFail =>
      exact absurd hpc (by simp [Pc.reloading])
  | notify | loadStore => exact ⟨rfl, rfl⟩
  | _ => exact ⟨hres, rfl⟩

theorem LoadedInv.step (h : LoadedInv m) (hstep : m.Step l m') : LoadedInv m' := by
  obtain ⟨hres, hpc⟩ := tstep_reloading hstep.own h.loadResult (h.reloading l.1)
  refine ⟨?_, hres, ?_⟩
  · rcases tstep_loaded hstep.own with heq | ⟨htrue, -, -⟩
    · exact heq.trans h.loaded
    · exact htrue
  · exact Threads.step_forall (A := fun (_ : Shared) (_ : Tid) (p : Pc) => p.reloading = false)
      hstep hpc (fun _ _ => id) h.reloading

/-- On a loaded instance no flusher gives up, and the file is not read again. -/
theorem LoadedInv.not_givesUp (h : LoadedInv m) (hstep : m.Step l m') : ¬ GivesUp l := by
  rintro ⟨f, hev⟩
  obtain ⟨-, -, hp, -⟩ := tstep_giveUp hstep.own hev
  have hpc := h.reloading l.1
  rw [hp] at hpc
  exact absurd hpc (by simp [Pc.reloading])

theorem tstep_readsFile (h : TStep t s p e s' p') (hread : ReadsFile (t, e)) :
    s.loadResult = false ∨ p.loading = true := by
  cases h with
  | reloadOk hres => exact .inl hres
  | loadStore => exact .inr rfl
  | _ => exact absurd hread (by simp [ReadsFile])

theorem LoadedInv.not_readsFile (h : LoadedInv m) (hload : LoadingInv m) (hstep : m.Step l m') :
    ¬ ReadsFile l := by
  intro hread
  rcases tstep_readsFile hstep.own hread with hres | hloading
  · exact absurd (h.loadResult.symm.trans hres) (by simp)
  · exact absurd (h.loaded.symm.trans (hload l.1 hloading)) (by simp)

theorem loadedInv_loaded (values : PrefMap) : LoadedInv (.loaded values) :=
  ⟨rfl, rfl, fun _ => rfl⟩

/-- A load task that reads the file leads there. -/
theorem run_loaded (values : PrefMap) :
    Run Machine.WritingStep (.initial (some values))
      [(0, .tau), (0, .tau), (0, .tau), (0, .tau), (0, .loadStored values), (0, .tau)]
      (.loaded values) := by
  have hload : Solo TStep 0 (Machine.initial (some values)).sh .idle
      [.tau, .tau, .tau, .tau, .loadStored values, .tau] (Machine.loaded values).sh .idle :=
    .cons (.loadStart rfl) <| .cons (.loadGo rfl) <| .cons (.loadAcquire rfl rfl) <|
      .cons (.loadOk (.inr rfl) rfl) <| .cons (.loadStore rfl) <| .cons .loadFinish .nil
  exact (hload.run_back allIdle).guard (by simp)

/-- The runs of an instance that starts out loaded. -/
theorem loaded_history {values : PrefMap} {ls : List Label}
    (hrun : Run Machine.Step (.loaded values) ls m) :
    (LoadedInv m ∧ BaseInv m ∧ TokenOwned m) ∧ ∀ l ∈ ls, ¬ GivesUp l ∧ ¬ ReadsFile l := by
  refine Run.invariant_history
    (I := fun hist m => (LoadedInv m ∧ BaseInv m ∧ TokenOwned m) ∧
      ∀ l ∈ hist, ¬ GivesUp l ∧ ¬ ReadsFile l)
    ?_ hrun []
    ⟨⟨loadedInv_loaded values, baseInv_loaded values, tokenOwned_loaded values⟩, by simp⟩
  intro hist m l m' ⟨⟨hinv, hbase, htoken⟩, hall⟩ hstep
  have hl : ¬ GivesUp l := hinv.not_givesUp hstep
  refine ⟨⟨hinv.step hstep, hbase.step hstep, ?_⟩, ?_⟩
  · rcases htoken.step hstep with hown | ⟨-, hgives⟩
    · exact hown
    · exact absurd hgives hl
  · intro l' hmem
    rcases List.mem_append.mp hmem with hold | hnew
    · exact hall l' hold
    · rw [List.mem_singleton.mp hnew]
      exact ⟨hl, hinv.not_readsFile hbase.loading hstep⟩

/-- The part of a run after the last mutation is a run of the quiet time. -/
theorem calm_run_of {m₁ : Machine} {ls : List Label} (hrun : Run Machine.WritingStep m₁ ls m)
    (hno : ∀ l ∈ ls, ¬ StartsMutation l) (hcalm : ∀ l ∈ ls, ¬ GivesUp l ∧ ¬ ReadsFile l) :
    Run Machine.CalmStep m₁ ls m := by
  have hguard : Run (guarded Machine.WritingStep
      (fun _ l => ¬ StartsMutation l ∧ ¬ GivesUp l ∧ ¬ ReadsFile l)) m₁ ls m :=
    hrun.guard (fun l hl => ⟨hno l hl, hcalm l hl⟩)
  refine hguard.mono ?_
  intro m l m' ⟨⟨hstep, hok⟩, hrest⟩
  exact ⟨hstep, hok, hrest⟩

/-- **No update is lost.** Any number of threads work on a loaded instance and no write
fails. If a `Flush` or `FlushSync` starts after the last mutation has returned, then in every
quiescent state after it the file holds what readers see. -/
theorem persisted_eq_visible_of_quiescent {values : PrefMap} {ls₁ ls₂ : List Label}
    {m₁ m₂ : Machine} {c : Call} (hrun₁ : Run Machine.WritingStep (.loaded values) ls₁ m₁)
    (hquiet : Quiet m₁) (hcall : m₁.Step (t, .call c) m₂) (hc : c = .flush ∨ c = .flushSync)
    (hrun₂ : Run Machine.WritingStep m₂ ls₂ m) (hno : ∀ l ∈ ls₂, ¬ StartsMutation l)
    (hdone : Quiescent m) : m.sh.persisted = m.sh.cache.visible := by
  obtain ⟨⟨hinv, -, htoken⟩, -⟩ := loaded_history hrun₁.unguard
  obtain ⟨hbase, htrack⟩ := track_run hrun₁ (baseInv_loaded values) (trackInv_loaded values)
  have hsettled : FileSettled m₁ := by
    intro hnot
    exact absurd (hinv.loadResult.symm.trans hnot) (by simp)
  have hwhole := hrun₁.append (.cons ⟨hcall, by simp⟩ hrun₂)
  have hcalm : ∀ l ∈ ls₂, ¬ GivesUp l ∧ ¬ ReadsFile l := by
    intro l hl
    exact (loaded_history hwhole.unguard).2 l (by simp [hl])
  have hstart : Calm m₁ := ⟨hbase, htrack, htoken, hquiet, hsettled⟩
  obtain ⟨hpers, hvis⟩ := hstart.run hc hcall (calm_run_of hrun₂ hno hcalm) hdone
  rw [hpers, hvis]

/-- A loaded instance in which 1 was put under "a". -/
def Machine.oneUnsaved : Machine :=
  ⟨.free Store.oneUnsaved 0 false, allIdle⟩

theorem run_oneUnsaved :
    Run Machine.WritingStep (.loaded ∅)
      [(1, .call (.op (.put "a" (.int 1)))), (1, .tau), (1, .tau), (1, .put "a" (.int 1)),
        (1, .ret .ok)] .oneUnsaved := by
  have hput := put_solo_loaded (t := 1) (Machine.loaded ∅).sh.toStore 0 false rfl rfl "a" (.int 1)
    rfl
  exact (hput.run_back allIdle).guard (by simp)

/-- The same instance with a scheduled flush. -/
def Machine.flushPending : Machine :=
  ⟨.free { Store.oneUnsaved with queue := some 1 } 1 false, allIdle⟩

theorem run_flushPending :
    Run Machine.WritingStep .oneUnsaved
      [(1, .call .flush), (1, .pushed .task), (1, .ret .ok)] .flushPending := by
  have hflush : Solo TStep 1 (.free Store.oneUnsaved 0 false) .idle
      [.call .flush, .pushed .task, .ret .ok]
      (.free { Store.oneUnsaved with queue := some 1 } 1 false) .idle :=
    .cons .callFlush <| .cons (.pushOk rfl) <| .cons .schedule .nil
  exact (hflush.run_back allIdle).guard (by simp)

/-- A `Put` by one thread, a `Flush` by another, and then the task on a third. -/
theorem persisted_eq_visible_after_put :
    ∃ m : Machine, m.sh.cache.visible = Finmap.singleton "a" (.int 1) ∧
      m.sh.persisted = m.sh.cache.visible := by
  have hpush : Solo TStep 2 (.free Store.oneUnsaved 0 false) (.push .task)
      [.pushed .task, .ret .ok] (.free { Store.oneUnsaved with queue := some 1 } 1 false) .idle :=
    .cons (.pushOk rfl) <| .cons .schedule .nil
  obtain ⟨s, htask, hsched, hvis⟩ : ∃ s : Shared,
      Solo TStep 3 (.free { Store.oneUnsaved with queue := some 1 } 1 false) .idle
        [.tau, .tau, .tau, .popped .task, .snapshot .task, .tau,
          .wrote (Finmap.singleton "a" (.int 1)),
          .notified ⟨{"a"}, Finmap.singleton "a" (.int 1)⟩, .tau] s .idle ∧
      s.scheduled = 0 ∧ s.cache.visible = Finmap.singleton "a" (.int 1) :=
    ⟨_, .cons (.taskStart rfl) <| .cons (.preLoadDone rfl) <| .cons (.flushAcquire rfl) <|
      .cons (.popToken rfl) <| .cons (.snapshotEnter rfl) <| .cons (.snapshotTake rfl) <|
      .cons .writeOk <| .cons .notify <| .cons .unlockTask .nil, rfl, rfl⟩
  refine ⟨⟨s, allIdle⟩, hvis, ?_⟩
  have hrest := (hpush.run_home allIdle).append (htask.run_back allIdle)
  exact persisted_eq_visible_of_quiescent run_oneUnsaved (fun _ => rfl) (.mk .callFlush) (.inl rfl)
    (hrest.guard (by simp)) (by simp [StartsMutation]) ⟨fun _ => rfl, hsched⟩

end NativePreferences
