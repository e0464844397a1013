import NativePreferences.Impl.Coalescing

/-!
# NativePreferences.Impl.FlushSyncHonesty

**What `E_OK` from `FlushSync` says.** There are four ways to it: the map was written,
nothing was marked, the queue was full, or the reload in `PreLoad` failed. The last two
say nothing about the file. On the first two the file holds, when `FlushSync` returns, a
map that readers saw during the call (`flushSync_persisted_seen`), provided that marks
are to be trusted: no write has failed before, and a file that the instance has neither
read nor written is not taken for saved.

The proof follows the maps that are on their way to the file. From the moment the thread
of `FlushSync` holds `mutex_`, every such map was visible at some moment of the call
(`Honest.maps`); so is what they leave in the file, also when another flusher overtakes
`FlushSync` between its unlock and its return.
-/

namespace NativePreferences

open Lib

variable {t u : Tid} {s s' : Shared} {p p' : Pc} {e : Ev} {m m' : Machine} {l : Label}

/-! ### The path of a `FlushSync` -/

namespace Pc

/-- The thread is in a `FlushSync`. -/
def inSync : Pc → Bool
  | .push .sync | .preLoad (.flusher .sync) | .preLoadLock (.flusher .sync)
  | .preLoadLocked (.flusher .sync) | .reload (.flusher .sync) | .flushLock .sync | .pop .sync
  | .snapshotLock .sync | .snapshot .sync _ | .writeXml .sync _ _ | .written .sync _ _
  | .unlock .sync _ | .ret _ => true
  | _ => false

/-- A flusher has taken `mutex_`. -/
def pastLock : Pc → Bool
  | .pop _ | .snapshotLock _ | .snapshot _ _ | .writeXml _ _ _ | .written _ _ _ | .unlock _ _
  | .ret _ => true
  | _ => false

/-- The map that a flusher is going to write, from the moment it has read the flag. -/
def taken (s : Shared) : Pc → Option PrefMap
  | .snapshot _ cleared => some (s.cache.settle cleared).valuesCache
  | .writeXml _ _ map | .written _ _ map => some map
  | _ => none

@[simp] theorem taken_resume (c : Caller) (ok : Bool) : (c.resume ok).taken s = none :=
  Caller.forall_resume (P := fun p => p.taken s = none) (fun _ => rfl) (fun _ => rfl) rfl
    (fun _ => rfl) c ok

@[simp] theorem taken_afterPush (f : Flusher) : f.afterPush.taken s = none := by
  cases f <;> rfl

theorem holdsMutex_of_taken {map : PrefMap} (h : p.taken s = some map) : p.holdsMutex = true := by
  cases p with
  | snapshot | writeXml | written => rfl
  | _ => exact absurd h (by simp [taken])

theorem pastLock_of_taken {map : PrefMap} (h : p.taken s = some map) : p.pastLock = true := by
  cases p with
  | snapshot | writeXml | written => rfl
  | _ => exact absurd h (by simp [taken])

end Pc

/-- `FlushSync` returns without having looked at the cache. -/
def SyncGivesUp (t : Tid) (l : Label) : Prop :=
  l = (t, .skipped .sync) ∨ l = (t, .reloadFailed (.flusher .sync))

/-- A `FlushSync` goes on until it returns. -/
theorem tstep_inSync (h : TStep t s p e s' p') (hp : p.inSync = true)
    (hret : ∀ code, e ≠ .ret code) :
    p'.inSync = true := by
  cases h with
  | @preLoadDone c | @preLoadSkip c | @reloadOk c | @preLoadGo c | @preLoadAcquire c
  | @preLoadReload c | @reloadNotNeeded c | @reloadFail c =>
      rcases c with o | f
      · exact absurd hp (by simp [Pc.inSync])
      · cases f with
        | task => exact absurd hp (by simp [Pc.inSync])
        | sync => rfl
  | @pushOk f | @flushAcquire f | @popToken f | @popOther f | @popEmpty f | @snapshotEnter f
  | @snapshotClean f | @snapshotTake f | @writeOk f | @writeFail f | @notify f =>
      cases f with
      | task => exact absurd hp (by simp [Pc.inSync])
      | sync => rfl
  | pushFull | unlockSync => rfl
  | ret => exact absurd rfl (hret _)
  | _ => exact absurd hp (by simp [Pc.inSync])

/-- It gets past the lock by taking it, or by giving up. -/
theorem tstep_pastLock (h : TStep t s p e s' p') (hp : p.inSync = true)
    (hpast : p'.pastLock = true) :
    p.pastLock = true ∨ (s.mutex = none ∧ p'.taken s' = none) ∨ SyncGivesUp t (t, e) := by
  cases h with
  | flushAcquire hfree => exact .inr (.inl ⟨hfree, rfl⟩)
  | @pushFull f =>
      cases f with
      | task => exact absurd hp (by simp [Pc.inSync])
      | sync => exact .inr (.inr (.inl rfl))
  | @reloadNotNeeded c | @reloadFail c =>
      rcases c with o | f
      · exact absurd hp (by simp [Pc.inSync])
      · cases f with
        | task => exact absurd hp (by simp [Pc.inSync])
        | sync => exact .inr (.inr (.inr rfl))
  | @preLoadDone c | @preLoadSkip c | @reloadOk c =>
      rcases c with o | f
      · exact absurd hp (by simp [Pc.inSync])
      · exact absurd hpast (by simp [Caller.resume, Pc.pastLock])
  | @pushOk f => cases f <;> exact absurd hpast (by simp [Flusher.afterPush, Pc.pastLock])
  | popToken | popOther | popEmpty | snapshotEnter | snapshotClean | snapshotTake | writeOk
  | writeFail | notify | unlockSync => exact .inl rfl
  | _ => exact absurd hpast (by simp [Pc.pastLock])

/-! ### Maps on their way to the file -/

/-- A flusher takes what readers see when it reads the flag, and keeps it. -/
theorem tstep_taken {map : PrefMap} (h : TStep t s p e s' p') (htaken : p'.taken s' = some map) :
    p.taken s = some map ∨ map = s.cache.visible := by
  cases h with
  | snapshotEnter =>
      refine .inr ?_
      obtain rfl : (s.cache.settle s.cache.isCleared).valuesCache = map := by
        simpa [Pc.taken] using htaken
      rw [← Cache.visible_of_not_cleared (Cache.isCleared_settle s.cache)]
      exact Cache.visible_settle id
  | snapshotTake hsnap =>
      refine .inl ?_
      rw [Pc.taken, ← (Cache.snapshot_some hsnap).1]
      exact htaken
  | writeOk => exact .inl htaken
  | preLoadDone | preLoadSkip | reloadNotNeeded | reloadOk | reloadFail =>
      rw [Pc.taken_resume] at htaken
      exact absurd htaken (by simp)
  | pushOk =>
      rw [Pc.taken_afterPush] at htaken
      exact absurd htaken (by simp)
  | _ => exact absurd htaken (by simp [Pc.taken])

/-- Who changes the map or the marks is in a critical section, or found nobody in one. -/
theorem tstep_values (h : TStep t s p e s' p') :
    (s'.cache.valuesCache = s.cache.valuesCache ∧ s'.cache.modifiedKeys = s.cache.modifiedKeys) ∨
      p.holdsCache = true ∨ s.cacheMutex = none := by
  cases h with
  | putBody | deleteBody | snapshotClean | snapshotTake => exact .inr (.inl rfl)
  | reloadOk _ hfree | loadStore hfree => exact .inr (.inr hfree)
  | _ => exact .inl ⟨rfl, rfl⟩

/-- Only a map on its way gets into the file. -/
theorem tstep_persisted (h : TStep t s p e s' p') :
    s'.persisted = s.persisted ∨ p.taken s = some s'.persisted := by
  cases h with
  | writeOk => exact .inr rfl
  | _ => exact .inl rfl

/-- Another thread's critical section is left alone. -/
theorem settle_of_ne (hlock : CacheMutexInv m) (hstep : m.Step l m') (hu : u ≠ l.1)
    (hholds : (m.pc u).holdsCache = true) (cleared : Bool) :
    (m'.sh.cache.settle cleared).valuesCache = (m.sh.cache.settle cleared).valuesCache ∧
      (m'.sh.cache.settle cleared).modifiedKeys = (m.sh.cache.settle cleared).modifiedKeys := by
  have hheld : m.sh.cacheMutex = some u := hlock u hholds
  obtain ⟨hval, hmod⟩ : m'.sh.cache.valuesCache = m.sh.cache.valuesCache ∧
      m'.sh.cache.modifiedKeys = m.sh.cache.modifiedKeys := by
    rcases tstep_values hstep.own with hsame | hown | hfree
    · exact hsame
    · exact absurd (LockInv.unique hlock hholds hown) hu
    · exact absurd (hfree.symm.trans hheld) (by simp)
  cases cleared with
  | true => simp [Cache.settle, Cache.dropCleared, hval, hmod]
  | false => exact ⟨hval, hmod⟩

theorem taken_of_ne (hlock : CacheMutexInv m) (hstep : m.Step l m') (hu : u ≠ l.1) :
    (m'.pc u).taken m'.sh = (m.pc u).taken m.sh := by
  rw [hstep.pc_of_ne hu]
  cases hp : m.pc u with
  | snapshot f cleared =>
      have hsettle := settle_of_ne hlock hstep hu (by rw [hp]; rfl) cleared
      rw [Pc.taken, Pc.taken, hsettle.1]
  | _ => rfl

/-! ### Following a `FlushSync` -/

/-- Readers saw this map in one of these states. -/
def Seen (states : List Machine) (map : PrefMap) : Prop :=
  ∃ m ∈ states, map = m.sh.cache.visible

/-- What the thread of a `FlushSync` knows about the file. -/
def KnowsFile (states : List Machine) (s : Shared) : Pc → Prop
  | .snapshot _ cleared =>
      (s.cache.settle cleared).modifiedKeys = ∅ →
        s.persisted = (s.cache.settle cleared).valuesCache
  | .unlock _ code | .ret code => code = .ok → Seen states s.persisted
  | _ => True

/-- A `FlushSync` of thread `t` that has gone through `states`. -/
structure Honest (t : Tid) (states : List Machine) (m : Machine) : Prop where
  sync : (m.pc t).inSync = true
  maps : (m.pc t).pastLock = true →
    ∀ u map, (m.pc u).taken m.sh = some map → Seen states map
  file : KnowsFile states m.sh (m.pc t)

/-- The steps of a run during a `FlushSync` of thread `t`: it has not returned, it has not
given up, no write fails, and its snapshot does not mistake a file that was never read
for saved. -/
abbrev Machine.SyncStep (t : Tid) : Machine → Label → Machine → Prop :=
  guarded Machine.Step (fun m l =>
    (∀ code, l ≠ (t, .ret code)) ∧ ¬ SyncGivesUp t l ∧ l.2 ≠ .writeFailed ∧
      (l = (t, .snapshot .sync) → FileSettled m))

theorem Seen.mono {states states' : List Machine} {map : PrefMap} (h : Seen states map)
    (hsub : ∀ m ∈ states, m ∈ states') : Seen states' map := by
  obtain ⟨m, hmem, heq⟩ := h
  exact ⟨m, hsub m hmem, heq⟩

/-- A snapshot that finds nothing marked: the file holds what readers see. -/
theorem persisted_of_unmarked {f : Flusher} (hlock : MutexInv m) (htrack : TrackInv m)
    (hfile : FileSettled m) (hp : m.pc t = .snapshotLock f)
    (hmod : (m.sh.cache.settle m.sh.cache.isCleared).modifiedKeys = ∅) :
    m.sh.persisted = (m.sh.cache.settle m.sh.cache.isCleared).valuesCache := by
  have hclean : m.sh.cache.Clean := Cache.clean_of_swept hmod (Cache.clean_swept _)
  have hnone : m.inflight = none := by
    rw [inflight_of_holds hlock (t := t) (by rw [hp]; rfl), hp]
    rfl
  rw [hfile.persisted_eq htrack hclean hnone,
    ← Cache.visible_of_not_cleared (Cache.isCleared_settle m.sh.cache)]
  exact (Cache.visible_settle id).symm

/-- The thread of the `FlushSync` moves. -/
theorem tstep_knowsFile {states : List Machine} (h : TStep t s p e s' p') (hp : p.inSync = true)
    (hgive : ¬ SyncGivesUp t (t, e)) (hfile : KnowsFile states s p)
    (htaken : ∀ map, p.taken s = some map → Seen states map)
    (hqueue : p.unpopped = true → s.queue = some 1)
    (hexp : ∀ map, p.expects = some map → s.disk = some map)
    (hclean : ∀ f, e = .snapshot f → p = .snapshotLock f →
      (s.cache.settle s.cache.isCleared).modifiedKeys = ∅ →
      s.persisted = (s.cache.settle s.cache.isCleared).valuesCache) :
    KnowsFile states s' p' := by
  cases h with
  | snapshotEnter => exact hclean _ rfl rfl
  | @snapshotClean f cleared cache hsnap =>
      intro _
      have hpers : s.persisted = (s.cache.settle cleared).valuesCache :=
        hfile (Cache.snapshot_none hsnap).1
      show Seen states s.persisted
      rw [hpers]
      exact htaken _ rfl
  | @notify f keys map =>
      intro _
      have hread : s.disk = some map := hexp map rfl
      have hpers : s.persisted = map := by simp [Store.persisted, hread]
      show Seen states s.persisted
      rw [hpers]
      exact htaken map rfl
  | writeFail => exact fun h => absurd h (by simp)
  | unlockSync => exact hfile
  | popOther hother hvalue =>
      have hone := hother.symm.trans (hqueue rfl)
      exact absurd (Option.some.inj hone) hvalue
  | popEmpty hempty => exact absurd (hempty.symm.trans (hqueue rfl)) (by simp)
  | @pushFull f =>
      cases f with
      | task => exact absurd hp (by simp [Pc.inSync])
      | sync => exact absurd (.inl rfl) hgive
  | @reloadNotNeeded c | @reloadFail c =>
      rcases c with o | f
      · exact absurd hp (by simp [Pc.inSync])
      · cases f with
        | task => exact absurd hp (by simp [Pc.inSync])
        | sync => exact absurd (.inr rfl) hgive
  | @preLoadDone c | @preLoadSkip c | @reloadOk c =>
      rcases c with o | f <;> trivial
  | @pushOk f => cases f <;> trivial
  | ret => trivial
  | _ => trivial

/-- Another thread moves. -/
theorem KnowsFile.of_ne {states : List Machine} (h : KnowsFile states m.sh (m.pc t))
    (hbase : BaseInv m) (hstep : m.Step l m') (ht : t ≠ l.1)
    (hmaps : (m.pc t).pastLock = true → ∀ u map, (m.pc u).taken m.sh = some map → Seen states map) :
    KnowsFile states m'.sh (m'.pc t) := by
  have hseen : (m.pc t).pastLock = true → Seen states m.sh.persisted →
      Seen states m'.sh.persisted := by
    intro hpast hold
    rcases tstep_persisted hstep.own with heq | htaken
    · rw [heq]
      exact hold
    · exact hmaps hpast l.1 _ htaken
  rw [hstep.pc_of_ne ht]
  cases hp : m.pc t with
  | snapshot f cleared =>
      rw [hp] at h
      have hholds : (m.pc t).holdsMutex = true := by rw [hp]; rfl
      have hdisk : m'.sh.disk = m.sh.disk := by
        rcases tstep_disk hstep.own with heq | hown
        · exact heq
        · exact absurd (LockInv.unique hbase.locks.mutex hholds hown) ht
      obtain ⟨hval, hmod⟩ :=
        settle_of_ne hbase.locks.cacheMutex hstep ht (by rw [hp]; rfl) cleared
      rw [KnowsFile, hval, hmod, Store.persisted, hdisk]
      exact h
  | unlock f code | ret code =>
      rw [hp] at h
      intro hok
      exact hseen (by rw [hp]; rfl) (h hok)
  | _ => trivial

/-- The maps on their way after a step. -/
theorem Honest.maps_step {states : List Machine} (h : Honest t states m) (hcur : m ∈ states)
    (hlocks : LocksInv m) (hstep : m.SyncStep t l m') (hpast : (m'.pc t).pastLock = true) (u : Tid)
    (map : PrefMap) (htaken : (m'.pc u).taken m'.sh = some map) : Seen states map := by
  obtain ⟨hstep, -, hgive, -, -⟩ := hstep
  have hbefore : (m.pc t).pastLock = true ∨
      (l.1 = t ∧ m.sh.mutex = none ∧ (m'.pc t).taken m'.sh = none) := by
    by_cases ht : t = l.1
    · subst ht
      rcases tstep_pastLock hstep.own h.sync hpast with hold | ⟨hfree, hnone⟩ | hgives
      · exact .inl hold
      · exact .inr ⟨rfl, hfree, hnone⟩
      · exact absurd hgives hgive
    · rw [hstep.pc_of_ne ht] at hpast
      exact .inl hpast
  by_cases hu : u = l.1
  · rw [hu] at htaken
    rcases hbefore with hold | ⟨ht, -, hnone⟩
    · rcases tstep_taken hstep.own htaken with hkept | heq
      · exact h.maps hold l.1 map hkept
      · exact ⟨m, hcur, heq⟩
    · rw [ht, hnone] at htaken
      exact absurd htaken (by simp)
  · rw [taken_of_ne hlocks.cacheMutex hstep hu] at htaken
    rcases hbefore with hold | ⟨-, hfree, -⟩
    · exact h.maps hold u map htaken
    · -- the mutex was free, so nothing was on its way
      have hheld : m.sh.mutex = some u := hlocks.mutex u (Pc.holdsMutex_of_taken htaken)
      exact absurd (hfree.symm.trans hheld) (by simp)

theorem Honest.file_step {states : List Machine} (h : Honest t states m) (hbase : BaseInv m)
    (htrack : TrackInv m) (hstep : m.SyncStep t l m') : KnowsFile states m'.sh (m'.pc t) := by
  obtain ⟨hstep, -, hgive, -, hsnap⟩ := hstep
  by_cases ht : t = l.1
  · obtain ⟨u, e⟩ := l
    obtain rfl : t = u := ht
    have hown : TStep t m.sh (m.pc t) e m'.sh (m'.pc t) := hstep.own
    refine tstep_knowsFile hown h.sync hgive h.file ?_ ?_ ?_ ?_
    · intro map htaken
      exact h.maps (Pc.pastLock_of_taken htaken) t map htaken
    · exact fun hpc => hbase.locks.token.queue_eq hpc
    · exact hbase.expects t
    · intro f hev hp hmod
      have hsync := h.sync
      rw [hp] at hsync
      cases f with
      | task => exact absurd hsync (by simp [Pc.inSync])
      | sync =>
          have hfile : FileSettled m := hsnap (by rw [hev])
          exact persisted_of_unmarked hbase.locks.mutex htrack hfile hp hmod
  · exact h.file.of_ne hbase hstep ht h.maps

theorem Honest.step {states : List Machine} (h : Honest t states m) (hcur : m ∈ states)
    (hbase : BaseInv m) (htrack : TrackInv m) (hstep : m.SyncStep t l m') :
    Honest t states m' := by
  refine ⟨?_, h.maps_step hcur hbase.locks hstep, h.file_step hbase htrack hstep⟩
  obtain ⟨hstep, hret, -⟩ := hstep
  by_cases ht : t = l.1
  · subst ht
    refine tstep_inSync hstep.own h.sync ?_
    intro code hev
    exact hret code (by rw [← hev])
  · rw [hstep.pc_of_ne ht]
    exact h.sync

theorem Honest.mono {states states' : List Machine} (h : Honest t states m)
    (hsub : ∀ m ∈ states, m ∈ states') : Honest t states' m := by
  refine ⟨h.sync, fun hpast u map htaken => (h.maps hpast u map htaken).mono hsub, ?_⟩
  have hfile := h.file
  cases hp : m.pc t with
  | snapshot f cleared =>
      rw [hp] at hfile
      exact hfile
  | unlock f code | ret code =>
      rw [hp] at hfile
      exact fun hok => (hfile hok).mono hsub
  | _ => trivial

theorem tstep_callFlushSync (h : TStep t s p e s' p') (hev : e = .call .flushSync) :
    p' = .push .sync := by
  cases h with
  | callFlushSync => rfl
  | _ => exact absurd hev (by simp)

/-- A thread that has just called `FlushSync`. -/
theorem honest_called (hcall : m.Step (t, .call .flushSync) m') (states : List Machine) :
    Honest t states m' := by
  have hp : m'.pc t = .push .sync := tstep_callFlushSync hcall.own rfl
  refine ⟨by rw [hp]; rfl, ?_, ?_⟩
  · intro hpast
    rw [hp] at hpast
    exact absurd hpast (by simp [Pc.pastLock])
  · rw [hp]
    trivial

/-- A `FlushSync` that returns. -/
theorem tstep_ret_sync {code : ErrCode} (h : TStep t s p e s' p') (hev : e = .ret code)
    (hp : p.inSync = true) : p = .ret code ∧ s' = s := by
  cases h with
  | ret =>
      obtain rfl := Ev.ret.inj hev
      exact ⟨rfl, rfl⟩
  | putBody | deleteBody | schedule => exact absurd hp (by simp [Pc.inSync])
  | _ => exact absurd hev (by simp)

/-- **`E_OK` says that the file holds what readers saw during the call**, in every run with
no failed write, of a `FlushSync` that did not find the queue full, whose reload did not
fail, and whose snapshot did not take an unread file for saved. -/
theorem flushSync_persisted_seen {disk : Option PrefMap} {ls₁ : List Label}
    {ls₂ : List (Label × Machine)} {m₁ m₂ m₃ m₄ : Machine}
    (hrun₁ : Run Machine.WritingStep (.initial disk) ls₁ m₁)
    (hcall : m₁.Step (t, .call .flushSync) m₂)
    (hrun₂ : Run (recorded (Machine.SyncStep t)) m₂ ls₂ m₃)
    (hret : m₃.Step (t, .ret .ok) m₄) :
    ∃ m ∈ states m₂ ls₂, m₄.sh.persisted = m.sh.cache.visible := by
  obtain ⟨hbase, htrack⟩ := track_run hrun₁ (baseInv_initial disk) (trackInv_initial disk)
  have hstart : BaseInv m₂ ∧ TrackInv m₂ :=
    ⟨hbase.step hcall, htrack.step hbase hcall (by simp)⟩
  obtain ⟨hend, -⟩ :
      Honest t (states m₂ ls₂) m₃ ∧ m₃ ∈ states m₂ ls₂ ∧ BaseInv m₃ ∧ TrackInv m₃ := by
    refine hrun₂.invariant_states
      (I := fun seen m => Honest t seen m ∧ m ∈ seen ∧ BaseInv m ∧ TrackInv m) ?_
      ⟨honest_called hcall _, by simp, hstart⟩
    intro seen m l m' ⟨hhon, hcur, hb, ht⟩ hstep
    refine ⟨(hhon.step hcur hb ht hstep).mono ?_, by simp, hb.step hstep.1,
      ht.step hb hstep.1 hstep.2.2.2.1⟩
    intro m hmem
    exact List.mem_append_left _ hmem
  obtain ⟨hp, hsh⟩ := tstep_ret_sync hret.own rfl hend.sync
  have hfile := hend.file
  rw [hp] at hfile
  rw [hsh]
  exact hfile rfl

/-- A `FlushSync` that finds the token of a scheduled `Flush` returns `E_OK`; the file is as
empty as before. -/
theorem flushSync_ok_unsaved :
    ¬ ∀ (disk : Option PrefMap) (ls₁ : List Label) (ls₂ : List (Label × Machine))
      (m₁ m₂ m₃ m₄ : Machine) (t : Tid),
      Run Machine.Step (.initial disk) ls₁ m₁ → m₁.Step (t, .call .flushSync) m₂ →
      Run (recorded Machine.Step) m₂ ls₂ m₃ → (∀ l ∈ ls₂, ∀ code, l.1 ≠ (t, .ret code)) →
      m₃.Step (t, .ret .ok) m₄ →
      ∃ m ∈ states m₂ ls₂, m₄.sh.persisted = m.sh.cache.visible := by
  intro hall
  have hbefore := ((run_loaded ∅).append run_oneUnsaved).append run_flushPending
  have hret := hall _ _ [((1, .skipped .sync), _)] _ _ _ _ 1 hbefore.unguard
    (.mk .callFlushSync)
    (.cons ⟨.mk (.pushFull (by simp [Machine.flushPending, Shared.free])), rfl⟩ .nil)
    (by simp) (.mk .ret)
  obtain ⟨m, hmem, heq⟩ := hret
  simp only [states, List.map_cons, List.map_nil, List.mem_cons, List.not_mem_nil, or_false] at hmem
  rcases hmem with rfl | rfl <;> exact absurd heq (by decide)

/-- A `Put` and a `FlushSync` that finds the queue empty and writes. -/
theorem flushSync_persisted_seen_written :
    ∃ (m₂ m₃ m₄ : Machine) (ls : List (Label × Machine)),
      Run (recorded (Machine.SyncStep 1)) m₂ ls m₃ ∧ m₃.Step (1, .ret .ok) m₄ ∧
      m₄.sh.persisted = Finmap.singleton "a" (.int 1) ∧
      ∃ m ∈ states m₂ ls, m₄.sh.persisted = m.sh.cache.visible := by
  have hbefore := (run_loaded ∅).append run_oneUnsaved
  have hcall : Machine.oneUnsaved.Step (1, .call .flushSync) _ := .mk .callFlushSync
  obtain ⟨s, hsync, hpers⟩ : ∃ s : Shared,
      Solo TStep 1 (.free Store.oneUnsaved 0 false) (.push .sync)
        [.pushed .sync, .tau, .tau, .popped .sync, .snapshot .sync, .tau,
          .wrote (Finmap.singleton "a" (.int 1)),
          .notified ⟨{"a"}, Finmap.singleton "a" (.int 1)⟩, .tau] s (.ret .ok) ∧
      s.persisted = Finmap.singleton "a" (.int 1) :=
    ⟨_, .cons (.pushOk rfl) <| .cons (.preLoadDone rfl) <| .cons (.flushAcquire rfl) <|
      .cons (.popToken rfl) <| .cons (.snapshotEnter rfl) <| .cons (.snapshotTake rfl) <|
      .cons .writeOk <| .cons .notify <| .cons .unlockSync .nil, rfl⟩
  have hloaded := (loaded_history (run_oneUnsaved.unguard.append
    (.cons hcall .nil))).1.1
  have hfile : ∀ m, LoadedInv m → FileSettled m := by
    intro m h hnot
    exact absurd (h.loadResult.symm.trans hnot) (by simp)
  have hguard : Run (Machine.SyncStep 1) _ _ _ :=
    (hsync.run allIdle).guard_invariant (I := LoadedInv) (fun _ _ _ h hstep => h.step hstep)
      hloaded (by simp +contextual [SyncGivesUp, hfile])
  obtain ⟨ls, hrun, -⟩ := hguard.record
  have hret : Machine.Step ⟨s, Function.update allIdle 1 (.ret .ok)⟩ (1, .ret .ok) _ :=
    .mk (by simpa using TStep.ret)
  exact ⟨_, _, _, ls, hrun, hret, hpers, flushSync_persisted_seen hbefore hcall hrun hret⟩

end NativePreferences
