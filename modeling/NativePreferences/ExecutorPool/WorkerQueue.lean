import NativePreferences.ExecutorPool.Places

/-!
# NativePreferences.ExecutorPool.WorkerQueue

**When a task of `Execute` is stranded.** `Execute` queues its task and then asks the pool for an
executor. If the pool has none to give, the task is left to the executors that are bound to
`execs_`. The last time such an executor looks is the `Size` of its loop; between that and
`pool_.Idle` it is still busy for the pool, and where all of them are there the task is left to
nobody.

As long as no refusal comes at such a moment (`RefusedRightly`), a task in `execs_` always has a
call of `Execute` that is still to ask the pool, an executor about to be bound, or one that will
look again (`Attended`).
-/

namespace NativePreferences.ExecutorPool

open Lib

variable {α : Type} {w w' : ExecutorPool α} {ev : Event} {t : Thread}

/-- Somebody is still to see what is in `execs_`. -/
inductive Attended (w : ExecutorPool α) : Prop
  | get (t : Thread) (id : TaskId) (h : w.calls t = .executeGet id)
  | binding (t : Thread) (id : TaskId) (e : Nat) (h : w.calls t = .executeBind id e)
  | ahead (e : Nat) (h : (w.executors e).Ahead .execs)

/-- What is in `execs_` is not left alone. -/
def Tended (w : ExecutorPool α) : Prop := ∀ q, w.execs = some q → q.size ≠ 0 → w.Attended

/-- If the pool refuses a call its task is gone already, or there is somebody else to see it:
a call that is still to ask the pool, or to bind the executor that it got, or an executor bound to
`execs_` with a `Size` still to come. -/
def RefusedRightly (w : ExecutorPool α) (ev : Event) : Prop :=
  ∀ t id, ev = .refused t id →
    (∀ q, w.execs = some q → q.size = 0) ∨
    (∃ u id', u ≠ t ∧ w.calls u = .executeGet id') ∨
    (∃ u id' e, w.calls u = .executeBind id' e) ∨
    ∃ e, (w.executors e).waits = some .execs ∧ (w.executors e).pc.ahead .execs = true

/-- A step that leaves `execs_` and the calls alone that are between `Push` and `Bind`. -/
theorem Tended.keep (h : w.Tended) (hplaced : w.Placed) (hstep : Step w ev w')
    (hexecs : w'.execs = w.execs)
    (hget : ∀ t id, w.calls t = .executeGet id → w'.calls t = .executeGet id)
    (hbinding : ∀ t id e, w.calls t = .executeBind id e → w'.calls t = .executeBind id e)
    (hlook : ∀ e, ev ≠ .looked e .execs) : w'.Tended := by
  intro q hq hsize
  rw [hexecs] at hq
  cases h q hq hsize with
  | get t id ht => exact .get t id (hget t id ht)
  | binding t id e ht => exact .binding t id e (hbinding t id e ht)
  | ahead e he =>
      obtain ⟨hahead, -⟩ | hlooked := hstep.ahead hplaced he
      · exact .ahead e hahead
      · exact absurd hlooked (hlook e)

theorem calls_setCall {c c' : Call α} (ht : w.calls t ≠ c) (u : Thread) (hu : w.calls u = c) :
    Function.update w.calls t c' u = c := by
  have hut : u ≠ t := by
    intro hut
    rw [hut] at hu
    exact ht hu
  rw [Function.update_of_ne hut]
  exact hu

/-- A step of a call that is not between `Push` and `Bind`. -/
theorem Tended.keep_call (h : w.Tended) (hplaced : w.Placed) (hstep : Step w ev w')
    {c c' : Call α} (ht : w.calls t = c) (hcalls : w'.calls = Function.update w.calls t c')
    (hexecs : w'.execs = w.execs) (hget : ∀ id, c ≠ .executeGet id)
    (hbinding : ∀ id e, c ≠ .executeBind id e) (hlook : ∀ e, ev ≠ .looked e .execs) :
    w'.Tended := by
  refine h.keep hplaced hstep hexecs ?_ ?_ hlook
  · intro u id hu
    rw [hcalls]
    exact calls_setCall (ht ▸ hget id) u hu
  · intro u id e hu
    rw [hcalls]
    exact calls_setCall (ht ▸ hbinding id e) u hu

/-- A step of an executor. -/
theorem Tended.keep_executor (h : w.Tended) (hplaced : w.Placed) (hstep : Step w ev w')
    (hexecs : w'.execs = w.execs) (hcalls : w'.calls = w.calls)
    (hlook : ∀ e, ev ≠ .looked e .execs) : w'.Tended :=
  h.keep hplaced hstep hexecs (fun _ _ ht => hcalls ▸ ht) (fun _ _ _ ht => hcalls ▸ ht) hlook

/-- Whatever happens to `execs_`, an executor that is to look again attends to it. -/
theorem tended_of_ahead (hplaced : w.Placed) (hstep : Step w ev w') {e : Nat}
    (he : (w.executors e).Ahead .execs) (hlook : ev ≠ .looked e .execs) : w'.Tended := by
  intro q _ _
  obtain ⟨hahead, -⟩ | hlooked := hstep.ahead hplaced he
  · exact .ahead e hahead
  · exact absurd hlooked hlook

/-- The pool refuses a call, but somebody else is there. -/
theorem tended_refused (hplaced : w.Placed) (hstep : Step w ev w') {id : TaskId}
    (hev : ev = .refused t id) (hok : w.RefusedRightly ev)
    (hexecs : w'.execs = w.execs) (hcalls : w'.calls = Function.update w.calls t .outside)
    (ht : w.calls t = .executeGet id) : w'.Tended := by
  intro q hq hsize
  rw [hexecs] at hq
  obtain hempty | ⟨u, id', hut, hu⟩ | ⟨u, id', e, hu⟩ | ⟨e, hwaits, hpc⟩ := hok t id hev
  · exact absurd (hempty q hq) hsize
  · refine .get u id' ?_
    rw [hcalls, Function.update_of_ne hut]
    exact hu
  · refine .binding u id' e ?_
    rw [hcalls]
    exact calls_setCall (by rw [ht]; nofun) u hu
  · obtain ⟨hahead, -⟩ | hlooked := hstep.ahead hplaced ⟨hwaits, hpc⟩
    · exact .ahead e hahead
    · cases hev.symm.trans hlooked

/-- A call has bound the executor that it got. -/
theorem tended_bound (hplaced : w.Placed) {id : TaskId} {e : Nat}
    (ht : w.calls t = .executeBind id e) (hfree : (w.executors e).pc.unlocked = true)
    (hexecutors : w'.executors e = (w.executors e).bind .execs) : w'.Tended := by
  intro q _ _
  have hbinds : (w.calls t).binds = some e := by rw [ht]; rfl
  have hpc := (hplaced.binds t e hbinds).2.waits_of_unlocked (hplaced.sane e) hfree
  refine .ahead e ?_
  rw [hexecutors]
  exact Executor.ahead_bind hpc

/-- A call of `Execute` has queued its task, or has got an executor. -/
theorem tended_of_call {id : TaskId}
    (ht : w.calls t = .executeGet id ∨ ∃ e, w.calls t = .executeBind id e) : w.Tended := by
  intro q _ _
  obtain ht | ⟨e, ht⟩ := ht
  · exact .get t id ht
  · exact .binding t id e ht

theorem Tended.step (h : w.Tended) (hplaced : w.Placed) (hstep : Step w ev w')
    (hok : w.RefusedRightly ev) : w'.Tended := by
  have hcase := hstep
  cases hcase with
  | tick hlater => exact h.keep_executor hplaced hstep rfl rfl nofun
  | schedule task delay interval times hcall hmay =>
      exact h.keep_call hplaced hstep hcall rfl rfl (fun _ => nofun) (fun _ _ => nofun) nofun
  | @execute t task hcall hmay =>
      rw [ExecutorPool.execute] at hstep ⊢
      cases hexecs : w.execs with
      | none =>
          intro q hq
          cases hexecs.symm.trans hq
      | some q =>
          rw [hexecs] at hstep
          exact h.keep_call hplaced hstep hcall rfl hexecs.symm (fun _ => nofun)
            (fun _ _ => nofun) nofun
  | schedulePush hcall =>
      exact h.keep_call hplaced hstep hcall rfl rfl (fun _ => nofun) (fun _ _ => nofun) nofun
  | scheduleLock hcall hfree =>
      exact h.keep_call hplaced hstep hcall rfl rfl (fun _ => nofun) (fun _ _ => nofun) nofun
  | schedulerThere hcall hthere =>
      exact h.keep_call hplaced hstep hcall rfl rfl (fun _ => nofun) (fun _ _ => nofun) nofun
  | scheduleGet hcall hnone hget =>
      exact h.keep_call hplaced hstep hcall rfl rfl (fun _ => nofun) (fun _ _ => nofun) nofun
  | scheduleBind hcall hfree =>
      exact h.keep_call hplaced hstep hcall rfl rfl (fun _ => nofun) (fun _ _ => nofun) nofun
  | scheduleUnlock hcall =>
      exact h.keep_call hplaced hstep hcall rfl rfl (fun _ => nofun) (fun _ _ => nofun) nofun
  | executePush hcall hqueue => exact tended_of_call (.inl (Function.update_self ..))
  | executeGet hcall hget => exact tended_of_call (.inr ⟨_, Function.update_self ..⟩)
  | executeRefused hcall hget => exact tended_refused hplaced hstep rfl hok rfl rfl hcall
  | executeBind hcall hfree => exact tended_bound hplaced hcall hfree (Function.update_self ..)
  | wake hpc hbound => exact h.keep_executor hplaced hstep rfl rfl nofun
  | @more e name q hpc hwaits hqueue hsize =>
      cases name with
      | delayTasks => exact h.keep_executor hplaced hstep rfl rfl nofun
      | execs => exact fun _ _ _ => .ahead e (ahead_self hwaits rfl)
  | @noMore e name q hpc hwaits hqueue hsize =>
      cases name with
      | delayTasks => exact h.keep_executor hplaced hstep rfl rfl nofun
      | execs =>
          -- the queue was found empty
          intro q' hq hne
          obtain rfl : q' = q := Option.some.inj (hq.symm.trans hqueue)
          exact absurd hsize hne
  | unbound hpc hwaits => exact h.keep_executor hplaced hstep rfl rfl nofun
  | @pop e name q q' currentTask hpc hwaits hqueue hpop =>
      cases name with
      | delayTasks => exact h.keep_executor hplaced hstep rfl rfl nofun
      | execs => exact tended_of_ahead hplaced hstep ⟨hwaits, by rw [hpc]; rfl⟩ nofun
  | runExecute hpc hcalls =>
      exact h.keep_call hplaced hstep hcalls rfl rfl (fun _ => nofun) (fun _ _ => nofun) nofun
  | ran hpc hjob hcalls => exact h.keep_executor hplaced hstep rfl rfl nofun
  | @finish e name q taskId hpc hwaits hqueue =>
      cases name with
      | delayTasks => exact h.keep_executor hplaced hstep rfl rfl nofun
      | execs => exact tended_of_ahead hplaced hstep ⟨hwaits, by rw [hpc]; rfl⟩ nofun
  | idle hpc hidle => exact h.keep_executor hplaced hstep rfl rfl nofun
  | idleLock hpc hidle hfree => exact h.keep_executor hplaced hstep rfl rfl nofun
  | idleRefused hpc hsize => exact h.keep_executor hplaced hstep rfl rfl nofun
  | idleAgreed hpc hsize => exact h.keep_executor hplaced hstep rfl rfl nofun
  | idlePool hpc => exact h.keep_executor hplaced hstep rfl rfl nofun
  | clear hpc => exact h.keep_executor hplaced hstep rfl rfl nofun
  | timeOut hpc hwaits => exact h.keep_executor hplaced hstep rfl rfl nofun
  | released hpc hrelease => exact h.keep_executor hplaced hstep rfl rfl nofun
  | kept hpc hrelease => exact h.keep_executor hplaced hstep rfl rfl nofun

/-! ### Runs -/

theorem tended_initial (max min : UInt64) : (initial max min : ExecutorPool α).Tended := by
  intro q hq hsize
  unfold initial at hq
  dsimp only at hq
  split at hq
  · cases hq
    exact absurd rfl hsize
  · cases hq

/-- A call of `Execute` is in progress. -/
def Call.inExecute : Call α → Bool
  | .executePush _ _ | .executeGet _ | .executeBind _ _ => true
  | _ => false

theorem tended_run {max min : UInt64} {ls : List Event}
    (hrun : Run (guarded Step RefusedRightly) (initial max min) ls w) : w.Placed ∧ w.Tended := by
  refine hrun.invariant (I := fun w => w.Placed ∧ w.Tended) ?_
    ⟨placed_initial max min, tended_initial max min⟩
  intro u ev u' ⟨hplaced, htended⟩ ⟨hstep, hok⟩
  exact ⟨hplaced.step hstep, htended.step hplaced hstep hok⟩

/-- Somebody is to look at the queue when no call is in progress. -/
theorem Tended.exists_ahead (h : w.Tended) (hcalls : ∀ t, (w.calls t).inExecute = false)
    {q : TaskQueue α} (hq : w.execs = some q) (hsize : q.size ≠ 0) :
    ∃ e, (w.executors e).Ahead .execs := by
  cases h q hq hsize with
  | get t id ht =>
      have hno := hcalls t
      rw [ht] at hno
      cases hno
  | binding t id e ht =>
      have hno := hcalls t
      rw [ht] at hno
      cases hno
  | ahead e he => exact ⟨e, he⟩

/-- **The queue of the workers.** In a run in which the pool refuses rightly only, whenever
`execs_` holds a task and no call of `Execute` is in progress, an executor is bound to it, runs,
and will look at it again before it goes idle. -/
theorem worker_queue_served {max min : UInt64} {ls : List Event}
    (hrun : Run (guarded Step RefusedRightly) (initial max min) ls w)
    (hcalls : ∀ t, (w.calls t).inExecute = false) {q : TaskQueue α} (hq : w.execs = some q)
    (hsize : q.size ≠ 0) :
    ∃ e < w.made, (w.executors e).waits = some .execs ∧ (w.executors e).pc ≠ .stopped ∧
      w.LooksBeforeIdle e .execs := by
  obtain ⟨hplaced, htended⟩ := tended_run hrun
  obtain ⟨e, hahead⟩ := htended.exists_ahead hcalls hq hsize
  refine ⟨e, ?_, hahead.1, hahead.not_stopped (hplaced.sane e), looks_before_idle hplaced hahead⟩
  exact hplaced.lt_made_of_waits (hahead.1 ▸ nofun)

/-- After one `Execute`. -/
theorem worker_queue_served_once :
    ∃ w : ExecutorPool Unit, (∃ q, w.execs = some q ∧ q.size = 1) ∧
      ∃ e < w.made, (w.executors e).waits = some .execs ∧ (w.executors e).pc ≠ .stopped ∧
        w.LooksBeforeIdle e .execs := by
  have hrun : Run (guarded Step RefusedRightly) (initial 2 0 : ExecutorPool Unit) _ _ :=
    .cons ⟨.execute (t := .client 0) () rfl trivial, nofun⟩
    (.cons ⟨.executePush (t := .client 0) rfl rfl, nofun⟩
    (.cons ⟨.executeGet (t := .client 0) rfl rfl, nofun⟩
    (.cons ⟨.executeBind (t := .client 0) (e := 0) rfl rfl, nofun⟩ .nil)))
  refine ⟨_, ⟨_, rfl, rfl⟩, worker_queue_served hrun ?_ rfl nofun⟩
  intro t
  cases t with
  | client n =>
      cases n with
      | zero => rfl
      | succ n => rfl
  | executor e => rfl

/-- A pool for two, of which the timer's executor has one place. The other executor has run a
task and has found `execs_` empty. Before it is idle for the pool a task comes and is refused. -/
theorem run_stranded :
    ∃ (ls : List Event) (w : ExecutorPool Unit), Run Step (initial 2 0) ls w ∧
      (∃ q, w.execs = some q ∧ q.size = 1) ∧ w.made = 2 ∧
      (w.executors 0).waits = some .delayTasks ∧ (w.executors 1).pc = .idling ∧
      (w.executors 1).idle = some .execs ∧ ∀ t, (w.calls t).inExecute = false := by
  have hrun : Run Step (initial 2 0 : ExecutorPool Unit) _ _ :=
    .cons (.schedule (t := .client 0) () 0 0 1 rfl trivial)
    (.cons (.schedulePush (t := .client 0) rfl)
    (.cons (.scheduleLock (t := .client 0) rfl rfl)
    (.cons (.scheduleGet (t := .client 0) rfl rfl rfl)
    (.cons (.scheduleBind (t := .client 0) (e := 0) rfl rfl)
    (.cons (.scheduleUnlock (t := .client 0) rfl)
    (.cons (.execute (t := .client 1) () rfl trivial)
    (.cons (.executePush (t := .client 1) rfl rfl)
    (.cons (.executeGet (t := .client 1) rfl rfl)
    (.cons (.executeBind (t := .client 1) (e := 1) rfl rfl)
    (.cons (.wake (e := 1) (.inl rfl) rfl)
    (.cons (.more (e := 1) rfl rfl rfl Nat.one_pos)
    (.cons (.pop (e := 1) rfl rfl rfl rfl)
    (.cons (.ran (e := 1) rfl nofun rfl)
    (.cons (.finish (e := 1) rfl rfl rfl)
    (.cons (.noMore (e := 1) rfl rfl rfl rfl)
    (.cons (.execute (t := .client 1) () rfl trivial)
    (.cons (.executePush (t := .client 1) rfl rfl)
    (.cons (.executeRefused (t := .client 1) rfl rfl) .nil))))))))))))))))))
  refine ⟨_, _, hrun, ⟨_, rfl, rfl⟩, rfl, rfl, rfl, rfl, ?_⟩
  intro t
  cases t with
  | client n =>
      obtain _ | _ | n := n
      · rfl
      · rfl
      · rfl
  | executor e => rfl

/-- The call has returned, the executor goes idle, and the task stays in `execs_`. -/
theorem worker_queue_stranded :
    ¬ ∀ (max min : UInt64) (ls : List Event) (w : ExecutorPool Unit), 1 < max →
      Run Step (initial max min) ls w → (∀ t, (w.calls t).inExecute = false) →
      ∀ q, w.execs = some q → q.size ≠ 0 →
        ∃ e < w.made, (w.executors e).waits = some .execs ∧ (w.executors e).pc ≠ .stopped ∧
          w.LooksBeforeIdle e .execs := by
  intro hclaim
  obtain ⟨ls, w, hrun, ⟨q, hq, hsize⟩, hmade, htimer, hpc, hidle, hcalls⟩ := run_stranded
  obtain ⟨e, he, hwaits, -, hlooks⟩ :=
    hclaim 2 0 ls w (by decide) hrun hcalls q hq (hsize ▸ Nat.one_ne_zero)
  rw [hmade] at he
  obtain rfl | rfl : e = 0 ∨ e = 1 := by omega
  · cases htimer.symm.trans hwaits
  · have hlooked := hlooks _ _ (.cons (.idle hpc hidle) .nil) [] [] rfl
    cases hlooked

end NativePreferences.ExecutorPool
