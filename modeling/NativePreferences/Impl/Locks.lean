import NativePreferences.Impl.Machine

/-!
# NativePreferences.Impl.Locks

**Locks, the flush token and the cleared flag.** What a step can do to each of these is
said once, in an inversion lemma over all steps: `tstep_mutex`, `tstep_cacheMutex`,
`tstep_token`, `tstep_isCleared`. The invariants that every run keeps follow from them:

* each lock is held by at most one thread (`LockInv`);
* the token in the queue belongs to one flusher that has not popped it, or to the one
  scheduled task (`TokenInv`). The converse, that a full queue has a flusher, needs that
  no flusher's reload fails: a flusher that gives up leaves its token behind
  (`TokenOwned`);
* inside a critical section that has seen the flag raised, the flag is still raised
  (`ClearedInv`).
-/

namespace NativePreferences

open Lib

variable {t : Tid} {s s' : Shared} {p p' : Pc} {e : Ev}

/-! ### Where a thread holds what -/

namespace Pc

/-- The thread holds `mutex_`. -/
def holdsMutex : Pc → Bool
  | .preLoadLocked _ | .reload _ | .pop _ | .snapshotLock _ | .snapshot _ _ | .writeXml _ _ _
  | .written _ _ _ | .unlock _ _ | .loadRead | .loadStore _ | .loadFinish => true
  | _ => false

/-- The thread holds `cacheMutex_`. -/
def holdsCache : Pc → Bool
  | .putBody _ _ _ | .deleteBody _ _ | .snapshot _ _ => true
  | _ => false

/-- The thread has pushed a token, or runs the task of one who has, and will still pop. -/
def unpopped : Pc → Bool
  | .schedule | .preLoad (.flusher _) | .preLoadLock (.flusher _) | .preLoadLocked (.flusher _)
  | .reload (.flusher _) | .flushLock _ | .pop _ => true
  | _ => false

/-- The thread is in a critical section that has read `isCleared_` as true. -/
def sawCleared : Pc → Bool
  | .putBody _ _ cleared | .deleteBody _ cleared | .snapshot _ cleared => cleared
  | _ => false

@[simp] theorem holdsMutex_resume (c : Caller) (ok : Bool) :
    (c.resume ok).holdsMutex = false :=
  Caller.forall_resume (P := fun p => p.holdsMutex = false) (fun _ => rfl) (fun _ => rfl) rfl
    (fun _ => rfl) c ok

@[simp] theorem holdsCache_resume (c : Caller) (ok : Bool) :
    (c.resume ok).holdsCache = false :=
  Caller.forall_resume (P := fun p => p.holdsCache = false) (fun _ => rfl) (fun _ => rfl) rfl
    (fun _ => rfl) c ok

@[simp] theorem sawCleared_resume (c : Caller) (ok : Bool) :
    (c.resume ok).sawCleared = false :=
  Caller.forall_resume (P := fun p => p.sawCleared = false) (fun _ => rfl) (fun _ => rfl) rfl
    (fun _ => rfl) c ok

@[simp] theorem holdsMutex_afterPush (f : Flusher) : f.afterPush.holdsMutex = false := by
  cases f <;> rfl

@[simp] theorem holdsCache_afterPush (f : Flusher) : f.afterPush.holdsCache = false := by
  cases f <;> rfl

@[simp] theorem sawCleared_afterPush (f : Flusher) : f.afterPush.sawCleared = false := by
  cases f <;> rfl

@[simp] theorem unpopped_afterPush (f : Flusher) : f.afterPush.unpopped = true := by
  cases f <;> rfl

/-- A flusher keeps its token over `PreLoad`, unless `PreLoad` fails. -/
theorem unpopped_resume_true (c : Caller) : (c.resume true).unpopped = (preLoad c).unpopped := by
  cases c with
  | op o => rfl
  | flusher f => cases f <;> rfl

theorem unpopped_resume_false (c : Caller) : (c.resume false).unpopped = false := by
  cases c with
  | op o => rfl
  | flusher f => cases f <;> rfl

/-- A thread holds `cacheMutex_` wherever it remembers the flag. -/
theorem holdsCache_of_sawCleared (h : p.sawCleared = true) : p.holdsCache = true := by
  cases p with
  | putBody | deleteBody | snapshot => rfl
  | _ => exact absurd h (by simp [sawCleared])

end Pc

/-! ### What a step does to the locks -/

/-- The mutex discipline. -/
theorem tstep_mutex (h : TStep t s p e s' p') :
    LockStep (fun s : Shared => s.mutex) (fun p => p.holdsMutex = true) t s p s' p' := by
  cases h with
  | preLoadAcquire hfree | flushAcquire hfree | loadAcquire hfree => exact .acquire hfree rfl
  | preLoadSkip | reloadNotNeeded | reloadOk | reloadFail =>
      exact .release rfl rfl (by simp)
  | unlockTask | unlockSync | loadFinish => exact .release rfl rfl (by simp [Pc.holdsMutex])
  | preLoadDone => exact .keep rfl (Bool.eq_iff_iff.mp (Pc.holdsMutex_resume _ _))
  | pushOk => exact .keep rfl (Bool.eq_iff_iff.mp (Pc.holdsMutex_afterPush _))
  | _ => exact .keep rfl Iff.rfl

/-- The discipline of `cacheMutex_`. -/
theorem tstep_cacheMutex (h : TStep t s p e s' p') :
    LockStep (fun s : Shared => s.cacheMutex) (fun p => p.holdsCache = true) t s p s' p' := by
  cases h with
  | putEnter hfree | deleteEnter hfree | snapshotEnter hfree => exact .acquire hfree rfl
  | putBody | deleteBody | snapshotClean | snapshotTake =>
      exact .release rfl rfl (by simp [Pc.holdsCache])
  | preLoadDone | preLoadSkip | reloadNotNeeded | reloadOk | reloadFail =>
      exact .keep rfl (Bool.eq_iff_iff.mp (Pc.holdsCache_resume _ _))
  | pushOk => exact .keep rfl (Bool.eq_iff_iff.mp (Pc.holdsCache_afterPush _))
  | _ => exact .keep rfl Iff.rfl

/-- The cleared flag is raised by `Clear` and lowered inside a critical section. -/
theorem tstep_isCleared (h : TStep t s p e s' p') :
    s'.cache.isCleared = s.cache.isCleared ∨ (e = .clear ∧ s'.cache.isCleared = true) ∨
      p.holdsCache = true := by
  cases h with
  | clear => exact .inr (.inl ⟨rfl, rfl⟩)
  | putBody | deleteBody | snapshotClean | snapshotTake => exact .inr (.inr rfl)
  | _ => exact .inl rfl

/-- A thread that enters a critical section remembers the flag as it is. -/
theorem tstep_sawCleared (h : TStep t s p e s' p') (hsaw : p'.sawCleared = true) :
    s'.cache.isCleared = true := by
  cases h with
  | putEnter | deleteEnter | snapshotEnter => exact hsaw
  | preLoadDone | preLoadSkip | reloadNotNeeded | reloadOk | reloadFail =>
      rw [Pc.sawCleared_resume] at hsaw
      exact absurd hsaw (by simp)
  | pushOk =>
      rw [Pc.sawCleared_afterPush] at hsaw
      exact absurd hsaw (by simp)
  | _ => exact absurd hsaw (by simp [Pc.sawCleared])

/-! ### The lock invariants -/

/-- At most the recorded thread holds `mutex_`. -/
def MutexInv (m : Machine) : Prop :=
  LockInv (fun s : Shared => s.mutex) (fun p : Pc => p.holdsMutex = true) m

/-- At most the recorded thread holds `cacheMutex_`. -/
def CacheMutexInv (m : Machine) : Prop :=
  LockInv (fun s : Shared => s.cacheMutex) (fun p : Pc => p.holdsCache = true) m

/-- A remembered flag is still raised. -/
def ClearedInv (m : Machine) : Prop :=
  ∀ t, (m.pc t).sawCleared = true → m.sh.cache.isCleared = true

variable {m m' : Machine} {l : Label}

theorem MutexInv.step (h : MutexInv m) (hstep : m.Step l m') : MutexInv m' :=
  LockInv.step h hstep (tstep_mutex hstep.own)

theorem CacheMutexInv.step (h : CacheMutexInv m) (hstep : m.Step l m') : CacheMutexInv m' :=
  LockInv.step h hstep (tstep_cacheMutex hstep.own)

theorem ClearedInv.step (h : ClearedInv m) (hlock : CacheMutexInv m) (hstep : m.Step l m') :
    ClearedInv m' := by
  refine Threads.step_forall
    (A := fun (s : Shared) (_ : Tid) (p : Pc) => p.sawCleared = true → s.cache.isCleared = true)
    hstep ?_ ?_ h
  · exact tstep_sawCleared hstep.own
  · intro u hu hassert hsaw
    rcases tstep_isCleared hstep.own with heq | ⟨-, htrue⟩ | hholds
    · rw [heq]
      exact hassert hsaw
    · exact htrue
    · have hheldu : (m.pc u).holdsCache = true := Pc.holdsCache_of_sawCleared hsaw
      exact absurd (LockInv.unique hlock hheldu hholds) hu

/-! ### The flush token -/

/-- What a step does to the token, in the queue and with the thread. -/
inductive TokenStep (s : Shared) (p : Pc) (e : Ev) (s' : Shared) (p' : Pc) : Prop
  | keep (hqueue : s'.queue = s.queue) (hsched : s'.scheduled = s.scheduled)
      (hpc : p'.unpopped = p.unpopped)
  | push (hfree : s.queue = none) (hqueue : s'.queue = some 1)
      (hsched : s'.scheduled = s.scheduled) (hpc : p.unpopped = false) (hpc' : p'.unpopped = true)
  /-- `Flush` hands the token over to the task. -/
  | schedule (hqueue : s'.queue = s.queue) (hsched : s'.scheduled = s.scheduled + 1)
      (hpc : p.unpopped = true) (hpc' : p'.unpopped = false)
  | start (hqueue : s'.queue = s.queue) (hsched : s.scheduled = s'.scheduled + 1)
      (hpc : p.unpopped = false) (hpc' : p'.unpopped = true)
  | pop (hqueue : s'.queue = none) (hsched : s'.scheduled = s.scheduled)
      (hpc : p.unpopped = true) (hpc' : p'.unpopped = false)
  /-- A flusher gives up after a failed reload and leaves the token where it is. -/
  | giveUp (f : Flusher) (hev : e = .reloadFailed (.flusher f)) (hqueue : s'.queue = s.queue)
      (hsched : s'.scheduled = s.scheduled) (hpc : p.unpopped = true)
      (hpc' : p'.unpopped = false)

theorem tstep_token (h : TStep t s p e s' p') : TokenStep s p e s' p' := by
  cases h with
  | pushOk hfree => exact .push hfree rfl rfl rfl (by simp)
  | schedule => exact .schedule rfl rfl rfl rfl
  | taskStart hsched => exact .start rfl hsched rfl rfl
  | popToken | popOther => exact .pop rfl rfl rfl rfl
  | popEmpty hempty => exact .pop hempty rfl rfl rfl
  | preLoadDone => exact .keep rfl rfl (Pc.unpopped_resume_true _)
  | @preLoadSkip c =>
      cases c with
      | op o => exact .keep rfl rfl rfl
      | flusher f => cases f <;> exact .keep rfl rfl rfl
  | @reloadOk c =>
      cases c with
      | op o => exact .keep rfl rfl rfl
      | flusher f => cases f <;> exact .keep rfl rfl rfl
  | @reloadNotNeeded c | @reloadFail c =>
      cases c with
      | op o => exact .keep rfl rfl rfl
      | flusher f => exact .giveUp f rfl rfl rfl rfl (Pc.unpopped_resume_false _)
  | @awaitLoaded o => exact .keep rfl rfl rfl
  | @preLoadGo c | @preLoadAcquire c | @preLoadReload c =>
      cases c with
      | op o => exact .keep rfl rfl rfl
      | flusher f => exact .keep rfl rfl rfl
  | _ => exact .keep rfl rfl rfl

/-- A failed reload of a flusher is such a step and no other. -/
theorem tstep_giveUp {f : Flusher} (h : TStep t s p e s' p')
    (hev : e = .reloadFailed (.flusher f)) :
    s'.queue = s.queue ∧ s'.scheduled = s.scheduled ∧ p = .reload (.flusher f) ∧
      p'.unpopped = false := by
  cases h with
  | @reloadNotNeeded c | @reloadFail c =>
      obtain rfl : c = .flusher f := by simpa using hev
      exact ⟨rfl, rfl, rfl, Pc.unpopped_resume_false _⟩
  | _ => exact absurd hev (by simp)

/-- The token has an owner, or there is none. -/
inductive TokenOwned (m : Machine) : Prop
  | free (hqueue : m.sh.queue = none) (hsched : m.sh.scheduled = 0)
      (hpc : ∀ t, (m.pc t).unpopped = false)
  /-- The task of a `Flush` waits in the executor. -/
  | waiting (hqueue : m.sh.queue = some 1) (hsched : m.sh.scheduled = 1)
      (hpc : ∀ t, (m.pc t).unpopped = false)
  | running (t : Tid) (hqueue : m.sh.queue = some 1) (hsched : m.sh.scheduled = 0)
      (hpc : ∀ u, (m.pc u).unpopped = true ↔ u = t)

/-- The token lies in the queue and nobody will pop it. -/
structure TokenAbandoned (m : Machine) : Prop where
  queue_eq : m.sh.queue = some 1
  scheduled_eq : m.sh.scheduled = 0
  unpopped_eq : ∀ t, (m.pc t).unpopped = false

/-- Where the token can be in any run. -/
def TokenInv (m : Machine) : Prop := TokenOwned m ∨ TokenAbandoned m

/-- One thread's counter changes, and with it whether that thread is a flusher. -/
theorem unpopped_after (hstep : m.Step l m') (u : Tid) :
    (m'.pc u).unpopped = if u = l.1 then (m'.pc l.1).unpopped else (m.pc u).unpopped := by
  by_cases hu : u = l.1
  · rw [if_pos hu, hu]
  · rw [if_neg hu, hstep.pc_of_ne hu]

/-- The thread that was the only flusher no longer is one. -/
theorem unpopped_none (hstep : m.Step l m') (hpc' : (m'.pc l.1).unpopped = false)
    (hothers : ∀ u, (m.pc u).unpopped = true → u = l.1) (u : Tid) :
    (m'.pc u).unpopped = false := by
  rw [unpopped_after hstep u]
  split
  · exact hpc'
  · next hu =>
    cases hold : (m.pc u).unpopped with
    | false => rfl
    | true => exact absurd (hothers u hold) hu

/-- The thread that moved is now the only flusher. -/
theorem unpopped_only (hstep : m.Step l m') (hpc' : (m'.pc l.1).unpopped = true)
    (hothers : ∀ u, (m.pc u).unpopped = false) (u : Tid) :
    (m'.pc u).unpopped = true ↔ u = l.1 := by
  rw [unpopped_after hstep u]
  by_cases hu : u = l.1
  · simp [hu, hpc']
  · simp [hu, hothers u]

/-- A thread that has not popped is the only one, and the token is in the queue. -/
theorem TokenOwned.owner (h : TokenOwned m) (hpc : (m.pc t).unpopped = true) :
    m.sh.queue = some 1 ∧ m.sh.scheduled = 0 ∧ ∀ u, (m.pc u).unpopped = true → u = t := by
  cases h with
  | free _ _ hnone | waiting _ _ hnone => exact absurd (hpc.symm.trans (hnone t)) (by simp)
  | running t' hqueue hsched hiff =>
      obtain rfl : t = t' := (hiff t).mp hpc
      exact ⟨hqueue, hsched, fun u => (hiff u).mp⟩

/-- An owned token stays owned, except that a flusher whose reload fails abandons it. -/
theorem TokenOwned.step (h : TokenOwned m) (hstep : m.Step l m') :
    TokenOwned m' ∨ (TokenAbandoned m' ∧ ∃ f, l.2 = .reloadFailed (.flusher f)) := by
  cases tstep_token hstep.own with
  | keep hq hs hpc =>
      have hall : ∀ u, (m'.pc u).unpopped = (m.pc u).unpopped := by
        intro u
        rw [unpopped_after hstep u]
        split
        · next hu => rw [hpc, hu]
        · rfl
      refine .inl ?_
      cases h with
      | free hqueue hsched hnone =>
          exact .free (hq.trans hqueue) (hs.trans hsched) (fun u => (hall u).trans (hnone u))
      | waiting hqueue hsched hnone =>
          exact .waiting (hq.trans hqueue) (hs.trans hsched) (fun u => (hall u).trans (hnone u))
      | running t hqueue hsched hiff =>
          refine .running t (hq.trans hqueue) (hs.trans hsched) ?_
          intro u
          rw [hall u]
          exact hiff u
  | push hfree hq hs hpc hpc' =>
      cases h with
      | free hqueue hsched hnone =>
          exact .inl (.running l.1 hq (hs.trans hsched) (unpopped_only hstep hpc' hnone))
      | waiting hqueue => exact absurd (hfree.symm.trans hqueue) (by simp)
      | running t hqueue => exact absurd (hfree.symm.trans hqueue) (by simp)
  | schedule hq hs hpc hpc' =>
      obtain ⟨hqueue, hsched, honly⟩ := h.owner hpc
      refine .inl (.waiting (hq.trans hqueue) (by rw [hs, hsched]) ?_)
      exact unpopped_none hstep hpc' honly
  | start hq hs hpc hpc' =>
      cases h with
      | free _ hsched | running _ _ hsched => exact absurd (hs.symm.trans hsched) (by simp)
      | waiting hqueue hsched hnone =>
          have hs' : m'.sh.scheduled = 0 := by omega
          exact .inl (.running l.1 (hq.trans hqueue) hs' (unpopped_only hstep hpc' hnone))
  | pop hq hs hpc hpc' =>
      obtain ⟨_, hsched, honly⟩ := h.owner hpc
      refine .inl (.free hq (hs.trans hsched) ?_)
      exact unpopped_none hstep hpc' honly
  | giveUp f hev hq hs hpc hpc' =>
      obtain ⟨hqueue, hsched, honly⟩ := h.owner hpc
      refine .inr ⟨⟨hq.trans hqueue, hs.trans hsched, ?_⟩, f, hev⟩
      exact unpopped_none hstep hpc' honly

/-- A flusher whose reload fails does abandon the token. -/
theorem TokenOwned.abandoned {f : Flusher} (h : TokenOwned m) (hstep : m.Step l m')
    (hev : l.2 = .reloadFailed (.flusher f)) : TokenAbandoned m' := by
  obtain ⟨hq, hs, hp, hpc'⟩ := tstep_giveUp hstep.own hev
  have hpc : (m.pc l.1).unpopped = true := by rw [hp]; rfl
  obtain ⟨hqueue, hsched, honly⟩ := h.owner hpc
  refine ⟨hq.trans hqueue, hs.trans hsched, ?_⟩
  exact unpopped_none hstep hpc' honly

/-- **An abandoned token stays for good**: nobody pops it, and no push gets past it. -/
theorem TokenAbandoned.step (h : TokenAbandoned m) (hstep : m.Step l m') : TokenAbandoned m' := by
  obtain ⟨hqueue, hsched, hnone⟩ := h
  cases tstep_token hstep.own with
  | keep hq hs hpc =>
      refine ⟨hq.trans hqueue, hs.trans hsched, ?_⟩
      exact unpopped_none hstep (hpc.trans (hnone l.1))
        (fun u hu => absurd (hu.symm.trans (hnone u)) (by simp))
  | push hfree => exact absurd (hfree.symm.trans hqueue) (by simp)
  | start _ hs => exact absurd (hs.symm.trans hsched) (by simp)
  | schedule _ _ hpc | pop _ _ hpc | giveUp _ _ _ _ hpc =>
      exact absurd (hpc.symm.trans (hnone l.1)) (by simp)

theorem TokenInv.step (h : TokenInv m) (hstep : m.Step l m') : TokenInv m' := by
  rcases h with hown | haban
  · rcases hown.step hstep with hown' | ⟨haban', -⟩
    · exact .inl hown'
    · exact .inr haban'
  · exact .inr (haban.step hstep)

/-- A flusher that has not popped finds its token. -/
theorem TokenInv.queue_eq (h : TokenInv m) (hpc : (m.pc t).unpopped = true) :
    m.sh.queue = some 1 := by
  rcases h with (⟨-, -, hnone⟩ | ⟨hqueue, -, -⟩ | ⟨_, hqueue, -, -⟩) | haban
  · exact absurd (hpc.symm.trans (hnone t)) (by simp)
  · exact hqueue
  · exact hqueue
  · exact haban.queue_eq

/-! ### Runs -/

/-- The invariants that every run keeps. -/
structure LocksInv (m : Machine) : Prop where
  mutex : MutexInv m
  cacheMutex : CacheMutexInv m
  cleared : ClearedInv m
  token : TokenInv m

theorem LocksInv.step (h : LocksInv m) (hstep : m.Step l m') : LocksInv m' :=
  ⟨h.mutex.step hstep, h.cacheMutex.step hstep, h.cleared.step h.cacheMutex hstep,
    h.token.step hstep⟩

theorem tokenOwned_initial (disk : Option PrefMap) : TokenOwned (.initial disk) :=
  .free rfl rfl (fun _ => rfl)

theorem locksInv_initial (disk : Option PrefMap) : LocksInv (.initial disk) where
  mutex := fun _ h => absurd h (by simp [Machine.initial, Pc.holdsMutex])
  cacheMutex := fun _ h => absurd h (by simp [Machine.initial, Pc.holdsCache])
  cleared := fun _ h => absurd h (by simp [Machine.initial, Pc.sawCleared])
  token := .inl (tokenOwned_initial disk)

theorem tokenOwned_loaded (values : PrefMap) : TokenOwned (.loaded values) :=
  .free rfl rfl (fun _ => rfl)

theorem locksInv_loaded (values : PrefMap) : LocksInv (.loaded values) where
  mutex := fun _ h => absurd h (by simp [Machine.loaded, Pc.holdsMutex])
  cacheMutex := fun _ h => absurd h (by simp [Machine.loaded, Pc.holdsCache])
  cleared := fun _ h => absurd h (by simp [Machine.loaded, Pc.sawCleared])
  token := .inl (tokenOwned_loaded values)

end NativePreferences
