import NativePreferences.ExecutorPool.TaskIds

/-!
# NativePreferences.ExecutorPool.RemovalFinal

**What a waiting `Remove` promises.** `Remove` first takes an id off `delayTasks_`, then off
`execs_`, and each time waits until `running_` has it no more. If the id is in each queue once, it
has left `delayTasks_` after the first and is nowhere after the second (`Progress`).

A periodic task is handed to `execs_` each time it is due, also when it is still there from the time
before. Then one index stands for two entries, and `Remove` takes off one of them: the other is
started after it has returned (`removal_not_final`).
-/

namespace NativePreferences

open Lib

variable {α : Type}

namespace ExecutorPool

variable {w w' : ExecutorPool α} {l : Label α} {id : TaskId} {name : QueueName}

/-- No call of `Schedule` or `Execute` has still to queue a task with the id, other than for the
executor that has popped it. -/
def Delivered (w : ExecutorPool α) (id : TaskId) : Prop :=
  ∀ t name task, w.carried t = some (name, task) → task.taskId = id → w.HandsOver t id

theorem Delivered.work (h : w.Delivered id) (hwork : Work w w' l) (hsound : w.Sound)
    (hgave : ∀ task, l = .gave task → task.taskId ≠ id) : w'.Delivered id := by
  intro t name task ht htask
  rcases hwork.carried_of ht with hold | ⟨rfl, -⟩ |
    ⟨e, name', func, taskId, rfl, hheld, hnext, -, -⟩
  · exact (h t name task hold htask).work hwork hsound hold
  · exact absurd htask (hgave task rfl)
  · obtain ⟨-, rfl, rfl, -⟩ := (hsound.held e name' _ taskId hheld).2 func task.taskId rfl
    exact ⟨e, _, rfl, htask ▸ hnext⟩

/-- A queue that lacks the id is vacant. -/
theorem SingleUse.vacant (h : w.SingleUse id) {q : TaskQueue α} (hget : w.queue name = some q)
    (hlacks : q.Lacks id) : w.Vacant id name where
  queue p hp := by
    cases hget.symm.trans hp
    exact hlacks
  held e job he := hlacks.running (h.held e name job q he hget)

/-- Without executors that hold the id nothing is handed over. -/
theorem Delivered.left (h : w.Delivered id) (hvacant : w.Vacant id .delayTasks) : w.Left id where
  carried t name task ht htask := by
    obtain ⟨e, job, -, he⟩ := h t name task ht htask
    exact hvacant.held e job he
  vacant := hvacant

theorem Left.unused (h : w.Left id) (hvacant : w.Vacant id .execs) : w.Unused id where
  carried := h.carried
  vacant name := by
    cases name with
    | delayTasks => exact h.vacant
    | execs => exact hvacant

/-- A waiting `Remove` of the id. -/
def Removal.waitsFor (id : TaskId) : Removal → Prop
  | .find id' wait | .delayTasks id' wait _ | .execs id' wait _ | .returning id' wait _ =>
      id' = id ∧ wait = true
  | _ => False

/-- How far a waiting `Remove` of the id has come. -/
def Progress (w : ExecutorPool α) (id : TaskId) : Removal → Prop
  | .find id' wait | .delayTasks id' wait _ => id' = id ∧ wait = true → w.Delivered id
  | .execs id' wait _ => id' = id ∧ wait = true → w.Left id
  | .returning id' wait _ => id' = id ∧ wait = true → w.Unused id
  | _ => True

theorem Progress.work {r : Removal} (h : w.Progress id r) (hwork : Work w w' l) (hsound : w.Sound)
    (hid : id ≠ invalidTaskId)
    (hgave : ∀ task, l = .gave task → task.taskId = id → ¬ r.waitsFor id) : w'.Progress id r := by
  have hother : r.waitsFor id → ∀ task, l = .gave task → task.taskId ≠ id :=
    fun hwaits task hl heq => hgave task hl heq hwaits
  cases r with
  | outside => trivial
  | find id' wait => exact fun hwaits => (h hwaits).work hwork hsound (hother hwaits)
  | delayTasks id' wait res => exact fun hwaits => (h hwaits).work hwork hsound (hother hwaits)
  | execs id' wait res => exact fun hwaits => hwork.left (h hwaits) hsound hid (hother hwaits)
  | returning id' wait res =>
      exact fun hwaits => hwork.unused (h hwaits) hsound hid (hother hwaits)
  | update id' interval => trivial

end ExecutorPool

namespace TaskPool

open ExecutorPool

variable {s s' s'' : TaskPool α} {l : ExecutorPool.Label α} {ls ls' : List (ExecutorPool.Label α)}
variable {id : TaskId} {max min : UInt64}

/-- What is asked of a step:

* an id is given out when no task has it and nobody waits for its removal, so the counter has not
  come round to an id that is in use;
* a task is handed over to `execs_` when its id is neither queued nor running there;
* a waiting `Remove` is called with an id whose task has been queued. -/
structure Careful (id : TaskId) (s : TaskPool α) (l : ExecutorPool.Label α) : Prop where
  pool : s.pool.Careful id l
  gave : ∀ task, l = .gave task → task.taskId = id → ∀ t, ¬ (s.removals t).waitsFor id
  called : ∀ t, l = .called t id true → s.pool.Delivered id

/-- What holds of an id at all times. -/
structure Removable (id : TaskId) (s : TaskPool α) : Prop where
  sound : s.pool.Sound
  single : s.pool.SingleUse id
  progress : ∀ t, s.pool.Progress id (s.removals t)

theorem removable_initial (max min : UInt64) (id : TaskId) :
    (initial max min : TaskPool α).Removable id :=
  ⟨sound_initial max min, singleUse_initial max min id, fun _ => trivial⟩

/-- A thread goes on in `Remove`. -/
theorem progress_update {w : ExecutorPool α} {t : Thread} {r : Removal}
    (h : ∀ u, w.Progress id (s.removals u)) (hr : w.Progress id r) (u : Thread) :
    w.Progress id (Function.update s.removals t r u) := by
  by_cases hu : u = t
  · rw [hu, Function.update_self]
    exact hr
  · rw [Function.update_of_ne hu]
    exact h u

theorem Removable.step (h : s.Removable id) (hid : id ≠ invalidTaskId) (hstep : Step s l s')
    (hcareful : s.Careful id l) : s'.Removable id := by
  have hwork := hstep.work
  have hsound := hstep.sound h.sound
  have hsingle := h.single.work hwork h.sound hid hcareful.pool
  have hprogress : ∀ t, s'.pool.Progress id (s.removals t) := fun t =>
    (h.progress t).work hwork h.sound hid (fun task hl heq => hcareful.gave task hl heq t)
  refine ⟨hsound, hsingle, ?_⟩
  cases hstep with
  | pool hstep hl hwork hstill => exact hprogress
  | @remove t id' wait houtside hcall hmay =>
      refine progress_update hprogress ?_
      rintro ⟨rfl, rfl⟩
      exact hcareful.called t rfl
  | @find t id' wait hat =>
      have hfind := hprogress t
      rw [hat] at hfind
      exact progress_update hprogress hfind
  | @removeDelayed t id' wait res found q hat hremove =>
      have hdelivered := hprogress t
      rw [hat] at hdelivered
      -- Nothing of the id is left in `delayTasks_`, so nothing is handed over any more.
      have hleft : id' = id ∧ wait = true → (s.setQueue .delayTasks q).pool.Left id := by
        rintro ⟨rfl, rfl⟩
        have hlacks := (h.single.queues .delayTasks _ rfl).remove_lacks hremove
        exact Delivered.left (hdelivered ⟨rfl, rfl⟩) (hsingle.vacant rfl hlacks)
      refine progress_update hprogress ?_
      split
      · exact hleft
      · next hexecs =>
        intro hwaits
        have hnone : s.pool.execs = none := Option.not_isSome_iff_eq_none.mp hexecs
        refine (hleft hwaits).unused ⟨?_, ?_⟩
        · intro p hp
          cases hnone.symm.trans hp
        · intro e job he
          exact absurd hnone (hsound.held e .execs job id he).1
  | @removeExecs t id' wait res found q q' hat hget hremove =>
      have hleft := hprogress t
      rw [hat] at hleft
      refine progress_update hprogress ?_
      rintro ⟨rfl, rfl⟩
      have hlacks := (h.single.queues .execs q hget).remove_lacks hremove
      exact (hleft ⟨rfl, rfl⟩).unused (hsingle.vacant rfl hlacks)
  | removed hat => exact progress_update hprogress trivial
  | reset id' interval houtside hcall hmay => exact progress_update hprogress trivial
  | update hat => exact progress_update hprogress trivial

/-- When a waiting `Remove` returns, no task has the id. -/
theorem Removable.unused (h : s.Removable id) {t : Thread} {res : Bool}
    (hstep : Step s (.removed t id true res) s') : s'.pool.Unused id := by
  cases hstep with
  | pool hstep hl => cases hl
  | removed hat =>
      have hunused := h.progress t
      rw [hat] at hunused
      exact hunused ⟨rfl, rfl⟩

/-- An id that no task has is not started again, until it is given to a new one. -/
theorem run_unused (hrun : Run Step s ls s') (hsound : s.pool.Sound) (hunused : s.pool.Unused id)
    (hid : id ≠ invalidTaskId) (hnew : ∀ task, .gave task ∈ ls → task.taskId ≠ id) :
    s'.pool.Sound ∧ s'.pool.Unused id := by
  induction hrun with
  | nil => exact ⟨hsound, hunused⟩
  | @cons s s₁ s' l ls hstep _ ih =>
      refine ih (hstep.sound hsound) (hstep.work.unused hunused hsound hid ?_) ?_
      · rintro task rfl
        exact hnew task List.mem_cons_self
      · exact fun task hmem => hnew task (List.mem_cons_of_mem _ hmem)

theorem not_started_of_unused {e number : Nat} {name : QueueName} {task : InnerTask α}
    (hsound : s.pool.Sound) (hunused : s.pool.Unused id)
    (hstep : Step s (.started e name number task) s') : task.taskId ≠ id := by
  obtain ⟨-, -, -, q, entry, rest, hget, htasks, -, rfl⟩ := hstep.work.started_inv
  have hmem : entry ∈ q.tasks := htasks ▸ List.mem_cons_self
  obtain ⟨hentry, -⟩ := (hsound.queues name q hget).entries entry hmem
  exact fun heq => ((hunused.vacant name).queue q hget).entries entry hmem (hentry.trans heq)

/-- **A waiting removal is final.** In a run whose steps are careful with an id, once a waiting
`Remove` of the id has returned, a task with the id is not started and is not running, until the id
is given to a new one. -/
theorem removal_final (hid : id ≠ invalidTaskId)
    (hrun : Run (guarded Step (Careful id)) (initial max min) ls s) {t : Thread} {res : Bool}
    (hremoved : Step s (.removed t id true res) s') (hlater : Run Step s' ls' s'')
    (hnew : ∀ task, .gave task ∈ ls' → task.taskId ≠ id) :
    (∀ e name number task, .started e name number task ∈ ls' → task.taskId ≠ id) ∧
      ∀ e job, (s''.pool.executors e).pc ≠ .running job id := by
  have hremovable : s.Removable id :=
    hrun.invariant (I := Removable id) (fun _ _ _ h hstep => h.step hid hstep.1 hstep.2)
      (removable_initial max min id)
  have hunused := hremovable.unused hremoved
  have hsound := hremoved.sound hremovable.sound
  constructor
  · intro e name number task hmem
    obtain ⟨before, after, rfl⟩ := List.append_of_mem hmem
    obtain ⟨v, hbefore, hafter⟩ := hlater.append_inv
    obtain ⟨hsound', hunused'⟩ := run_unused hbefore hsound hunused hid
      (fun task' hin => hnew task' (List.mem_append_left _ hin))
    cases hafter with
    | cons hstarted _ => exact not_started_of_unused hsound' hunused' hstarted
  · intro e job hpc
    have hsteady : s''.pool.Steady := by
      have hall := hrun.unguard.append (.cons hremoved hlater)
      exact hall.invariant (I := fun s => s.pool.Steady) (fun _ _ _ h hstep => hstep.steady h)
        (steady_initial max min)
    obtain ⟨name, hwaits⟩ := waits_of_serves hsteady.placed (e := e) (by rw [hpc]; rfl)
    obtain ⟨-, hunused'⟩ := run_unused hlater hsound hunused hid hnew
    exact (hunused'.vacant name).held e _ (held_running hpc hwaits)

/-! ### A client in `Remove` -/

variable {w : ExecutorPool α} {t : Thread} {r r' : Removal}

/-- The pool, while only this thread is in `Remove`. -/
def removing (w : ExecutorPool α) (t : Thread) (r : Removal) : TaskPool α :=
  ⟨w, Function.update (fun _ => .outside) t r⟩

theorem removing_outside : removing w t .outside = ⟨w, fun _ => .outside⟩ :=
  congrArg (TaskPool.mk w) (Function.update_eq_self t _)

theorem removing_setRemoval : (removing w t r).setRemoval t r' = removing w t r' :=
  congrArg (TaskPool.mk w) (Function.update_idem ..)

theorem removing_at : (removing w t r).removals t = r := by
  change Function.update (fun _ => Removal.outside) t r t = r
  exact Function.update_self ..

/-- The label asks nothing of its step. -/
theorem careful_of_quiet {s : TaskPool α} (hl : l = .other ∨ ∃ name entry, l = .erased name entry) :
    s.Careful id l := by
  rcases hl with rfl | ⟨name, entry, rfl⟩
  · exact ⟨⟨nofun, nofun⟩, nofun, nofun⟩
  · exact ⟨⟨nofun, nofun⟩, nofun, nofun⟩

theorem careful_of_called {s : TaskPool α} {t : Thread} {wait : Bool}
    (hdelivered : s.pool.Delivered id) : s.Careful id (.called t id wait) := by
  refine ⟨⟨?_, ?_⟩, ?_, fun _ _ => hdelivered⟩
  · intro task hl
    cases hl
  · intro number task hl
    cases hl
  · intro task hl
    cases hl

/-- A waiting `Remove` of a client that has to wait for neither queue. -/
theorem run_remove {n : Nat} {found found' : Bool} {q p p' : TaskQueue α}
    (hcalls : ∀ t, w.calls t = .outside)
    (hdelay : w.delayTasks.remove id true = some (found, q)) (hexecs : w.execs = some p)
    (hremove : p.remove id true = some (found', p')) :
    ∃ res s, Run (guarded Step (Careful id)) ⟨w, fun _ => .outside⟩
        [.called (.client n) id true, .other, .erased .delayTasks (w.delayTasks.entryAt id),
          .erased .execs (p.entryAt id)] s ∧
      Step s (.removed (.client n) id true res)
        ⟨{ w with delayTasks := q, execs := some p' }, fun _ => .outside⟩ := by
  have hdelivered : w.Delivered id := by
    intro t name task ht
    rw [ExecutorPool.carried, hcalls t] at ht
    cases ht
  let res := (w.delayTasks.find InnerTask.invalid id).valid
  let v : ExecutorPool α := { w with delayTasks := q }
  let v' : ExecutorPool α := { w with delayTasks := q, execs := some p' }
  have hcalled : Step ⟨w, fun _ => .outside⟩ (.called (.client n) id true)
      (removing w (.client n) (.find id true)) :=
    .remove id true rfl (hcalls _) trivial
  have hfind : Step (removing w (.client n) (.find id true)) .other
      (removing w (.client n) (.delayTasks id true res)) := by
    have hstep := Step.find (removing_at (w := w) (t := .client n) (r := .find id true))
    rw [removing_setRemoval] at hstep
    exact hstep
  have hdelayed : Step (removing w (.client n) (.delayTasks id true res))
      (.erased .delayTasks (w.delayTasks.entryAt id))
      (removing v (.client n) (.execs id true res)) := by
    have hstep := Step.removeDelayed
      (removing_at (w := w) (t := .client n) (r := .delayTasks id true res)) hdelay
    change Step _ _ ((removing v _ _).setRemoval _ (if w.execs.isSome then _ else _)) at hstep
    rw [removing_setRemoval, hexecs] at hstep
    exact hstep
  have hexecuted : Step (removing v (.client n) (.execs id true res))
      (.erased .execs (p.entryAt id))
      (removing v' (.client n) (.returning id true res)) := by
    have hstep := Step.removeExecs
      (removing_at (w := v) (t := .client n) (r := .execs id true res)) hexecs hremove
    change Step _ _ ((removing v' _ _).setRemoval _ _) at hstep
    rw [removing_setRemoval] at hstep
    exact hstep
  refine ⟨res, _, .cons ⟨hcalled, careful_of_called hdelivered⟩
    (.cons ⟨hfind, careful_of_quiet (.inl rfl)⟩
    (.cons ⟨hdelayed, careful_of_quiet (.inr ⟨_, _, rfl⟩)⟩
    (.cons ⟨hexecuted, careful_of_quiet (.inr ⟨_, _, rfl⟩)⟩ .nil))), ?_⟩
  have hstep := Step.removed
    (removing_at (w := v') (t := .client n) (r := .returning id true res))
  rw [removing_setRemoval, removing_outside] at hstep
  exact hstep

theorem work_setCall {c c' : Call α} (ht : w.calls t = c) (hbefore : c.carried = none)
    (hafter : c'.carried = none) : Work w (w.setCall t c') .other := by
  refine .call ht hbefore hafter ?_ rfl rfl
  funext n
  cases n <;> rfl

theorem get_refused {p : Pool} {fresh : Nat} (hidle : p.idle = [])
    (hfull : p.capability ≤ p.current) : p.get false fresh = (none, p) := by
  obtain ⟨capability, min, current, idle, busy⟩ := p
  cases hidle
  rw [Pool.get]
  exact if_pos (by simpa using hfull)

/-- A periodic task is scheduled, and removed before it is started. Then time goes on. -/
theorem removal_final_scheduled :
    ∃ (ls ls' : List (ExecutorPool.Label Unit)) (s s' s'' : TaskPool Unit) (res : Bool),
      Run (guarded Step (Careful 1)) (initial 2 0) ls s ∧
        Step s (.removed (.client 1) 1 true res) s' ∧ Run Step s' ls' s'' ∧
        (∀ e name number task, .started e name number task ∈ ls' → task.taskId ≠ 1) ∧
          ∀ e job, (s''.pool.executors e).pc ≠ .running job 1 := by
  have hquiet : ∀ {s : TaskPool Unit}, s.Careful 1 .other := careful_of_quiet (.inl rfl)
  have hrun : Run (guarded Step (Careful 1)) (initial 2 0 : TaskPool Unit) _ _ :=
    .cons ⟨.of_pool (.schedule (t := .client 0) () 0 1 5 rfl trivial) rfl
      (work_schedule (placed_initial 2 0) () 0 1 5 rfl trivial),
      ⟨⟨fun _ _ _ => unused_initial 2 0 1, nofun⟩, fun _ _ _ _ hwaits => hwaits.elim, nofun⟩⟩
    (.cons ⟨.of_pool (.schedulePush (t := .client 0) rfl) rfl (work_schedulePush rfl),
      ⟨⟨nofun, nofun⟩, nofun, nofun⟩⟩
    (.cons ⟨.of_pool (.scheduleLock (t := .client 0) rfl rfl) rfl
      (.call rfl rfl rfl rfl rfl rfl), hquiet⟩
    (.cons ⟨.of_pool (.scheduleGet (t := .client 0) rfl rfl rfl) rfl
      (.call rfl rfl rfl rfl rfl rfl), hquiet⟩
    (.cons ⟨.of_pool (.scheduleBind (t := .client 0) (e := 0) rfl rfl) rfl
      (.quiet (l := .other) rfl rfl (funext (carried_update rfl)) (funext (held_update rfl))),
      hquiet⟩
    (.cons ⟨.of_pool (.scheduleUnlock (t := .client 0) rfl) rfl
      (.call rfl rfl rfl rfl rfl rfl), hquiet⟩ .nil)))))
  obtain ⟨ls, w, found, found', q, p, p', hrun, hcalls, hdelay, hexecs, hremove⟩ :
      ∃ (ls : List (ExecutorPool.Label Unit)) (w : ExecutorPool Unit) (found found' : Bool)
        (q p p' : TaskQueue Unit),
        Run (guarded Step (Careful 1)) (initial 2 0) ls ⟨w, fun _ => .outside⟩ ∧
          (∀ t, w.calls t = .outside) ∧ w.delayTasks.remove 1 true = some (found, q) ∧
            w.execs = some p ∧ p.remove 1 true = some (found', p') := by
    refine ⟨_, _, _, _, _, _, _, hrun, ?_, rfl, rfl, rfl⟩
    intro t
    cases t with
    | client n =>
        cases n with
        | zero => rfl
        | succ n => rfl
    | executor e => rfl
  obtain ⟨res, s, hremoving, hremoved⟩ := run_remove (n := 1) hcalls hdelay hexecs hremove
  have hall := hrun.append hremoving
  let v : ExecutorPool Unit := { w with delayTasks := q, execs := some p' }
  have htick : Run Step (⟨v, fun _ => .outside⟩ : TaskPool Unit) [.other]
      ⟨{ v with now := v.now + 5 }, fun _ => .outside⟩ :=
    .cons (.of_pool (.tick (Int.le_add_of_nonneg_right (by decide))) rfl
      (.quiet (l := .other) rfl rfl rfl rfl)) .nil
  exact ⟨_, _, s, _, _, res, hall, hremoved, htick,
    removal_final (by decide) hall hremoved htick (by simp)⟩

/-- An executor that waits, bound to a queue with a task that is due, starts the task. -/
theorem run_wake {e : Nat} {name : QueueName} {q q' : TaskQueue α}
    {entry : PQEntry (InnerTask α) Int TaskId} {rest : List (PQEntry (InnerTask α) Int TaskId)}
    (hpc : (w.executors e).pc = .waiting) (hwaits : (w.executors e).waits = some name)
    (hget : w.queue name = some q) (htasks : q.tasks = entry :: rest)
    (hpop : q.pop InnerTask.invalid w.now = some (entry.matrix.task, q')) :
    ∃ s, Run Step ⟨w, fun _ => .outside⟩
      [.other, .other, .started e name entry.iterator entry.matrix.task] s := by
  have hgoto : ∀ (v : ExecutorPool α) (pc : Executor.Pc α),
      (v.goto e pc).executors e = { v.executors e with pc } :=
    fun v pc => Function.update_self e _ _
  have hsize : 0 < q.size := by
    rw [PriorityQueue.size, htasks]
    exact Nat.succ_pos _
  have hlooping : ((w.goto e .looping).executors e).pc = .looping := by rw [hgoto]
  have hpopping : (((w.goto e .looping).goto e .popping).executors e).pc = .popping := by
    rw [hgoto]
  have hbound : ((w.goto e .looping).executors e).waits = some name := by rw [hgoto, hwaits]
  have hbound' : (((w.goto e .looping).goto e .popping).executors e).waits = some name := by
    rw [hgoto, hgoto, hwaits]
  exact ⟨_, .cons (.of_pool (.wake (.inl hpc) (hwaits ▸ rfl)) rfl
      (.executor (held_of_pc hpc rfl) (held_of_pc rfl rfl) rfl rfl rfl))
    (.cons (.of_pool (.more hlooping hbound hget hsize) rfl
      (.executor (held_of_pc hlooping rfl) (held_of_pc rfl rfl) rfl rfl rfl))
    (.cons (.of_pool (.pop hpopping hbound' hget hpop) rfl
      (work_pop hpopping hbound' hget htasks hpop)) .nil))⟩

/-- A periodic task of a pool for two is due again while it is in `execs_`, and is handed over once
more. Its executor does not run yet. -/
theorem run_handed_twice :
    ∃ (ls : List (ExecutorPool.Label Unit)) (w : ExecutorPool Unit) (found found' : Bool)
      (q p p' p'' : TaskQueue Unit) (entry : PQEntry (InnerTask Unit) Int TaskId),
      Run Step (initial 2 0) ls ⟨w, fun _ => .outside⟩ ∧ (∀ t, w.calls t = .outside) ∧
        w.delayTasks.remove 1 true = some (found, q) ∧ w.execs = some p ∧
        p.remove 1 true = some (found', p') ∧ p'.tasks = [entry] ∧
        entry.matrix.task.taskId = 1 ∧
        p'.pop InnerTask.invalid w.now = some (entry.matrix.task, p'') ∧
        (w.executors 1).pc = .waiting ∧ (w.executors 1).waits = some .execs := by
  refine ⟨_, _, _, _, _, _, _, _, _,
    .cons (.of_pool (.schedule (t := .client 0) () 0 1 5 rfl trivial) rfl
      (work_schedule (placed_initial 2 0) () 0 1 5 rfl trivial))
    (.cons (.of_pool (.schedulePush (t := .client 0) rfl) rfl (work_schedulePush rfl))
    (.cons (.of_pool (.scheduleLock (t := .client 0) rfl rfl) rfl (.call rfl rfl rfl rfl rfl rfl))
    (.cons (.of_pool (.scheduleGet (t := .client 0) rfl rfl rfl) rfl
      (.call rfl rfl rfl rfl rfl rfl))
    (.cons (.of_pool (.scheduleBind (t := .client 0) (e := 0) rfl rfl) rfl
      (.quiet (l := .other) rfl rfl (funext (carried_update rfl)) (funext (held_update rfl))))
    (.cons (.of_pool (.scheduleUnlock (t := .client 0) rfl) rfl (.call rfl rfl rfl rfl rfl rfl))
    (.cons (.of_pool (.wake (e := 0) (.inl rfl) rfl) rfl (.executor rfl rfl rfl rfl rfl))
    (.cons (.of_pool (.more (e := 0) rfl rfl rfl Nat.one_pos) rfl (.executor rfl rfl rfl rfl rfl))
    -- The task is due, and is handed over to an executor that does not run yet.
    (.cons (.of_pool (.pop (e := 0) rfl rfl rfl rfl) rfl (work_pop rfl rfl rfl rfl rfl))
    (.cons (.of_pool (.runExecute (e := 0) rfl rfl) rfl (work_runExecute rfl rfl rfl))
    (.cons (.of_pool (.executePush (t := .executor 0) rfl rfl) rfl (work_executePush rfl rfl))
    (.cons (.of_pool (.executeGet (t := .executor 0) rfl rfl) rfl (.call rfl rfl rfl rfl rfl rfl))
    (.cons (.of_pool (.executeBind (t := .executor 0) (e := 1) rfl rfl) rfl
      (.quiet (l := .other) rfl rfl (funext (carried_update rfl)) (funext (held_update rfl))))
    (.cons (.of_pool (.ran (e := 0) rfl nofun rfl) rfl (work_ran rfl rfl nofun rfl))
    (.cons (.of_pool (.finish (e := 0) rfl rfl rfl) rfl (work_finish rfl rfl rfl))
    -- It is due again, and is handed over again.
    (.cons (.of_pool (.tick (show _ ≤ (1 : Int) by decide)) rfl
      (.quiet (l := .other) rfl rfl rfl rfl))
    (.cons (.of_pool (.more (e := 0) rfl rfl rfl Nat.one_pos) rfl (.executor rfl rfl rfl rfl rfl))
    (.cons (.of_pool (.pop (e := 0) rfl rfl rfl rfl) rfl (work_pop rfl rfl rfl rfl rfl))
    (.cons (.of_pool (.runExecute (e := 0) rfl rfl) rfl (work_runExecute rfl rfl rfl))
    (.cons (.of_pool (.executePush (t := .executor 0) rfl rfl) rfl (work_executePush rfl rfl))
    (.cons (.of_pool (.executeRefused (t := .executor 0) rfl (get_refused rfl (by decide +kernel)))
      rfl (work_setCall rfl rfl rfl))
    (.cons (.of_pool (.ran (e := 0) rfl nofun rfl) rfl (work_ran rfl rfl nofun rfl))
    (.cons (.of_pool (.finish (e := 0) rfl rfl rfl) rfl (work_finish rfl rfl rfl))
      .nil)))))))))))))))))))))), ?_, rfl, rfl, rfl, rfl, rfl, rfl, rfl, rfl⟩
  intro t
  cases t with
  | client n =>
      cases n with
      | zero => rfl
      | succ n => rfl
  | executor e =>
      cases e with
      | zero => rfl
      | succ e => rfl

/-- The other entry is started after a waiting `Remove` of a client has returned. -/
theorem removal_not_final :
    ¬ ∀ (max min : UInt64) (ls ls' : List (ExecutorPool.Label Unit)) (s s' s'' : TaskPool Unit)
      (id : TaskId) (n : Nat) (res : Bool), id ≠ invalidTaskId → Run Step (initial max min) ls s →
        Step s (.removed (.client n) id true res) s' → Run Step s' ls' s'' →
        (∀ task, .gave task ∈ ls' → task.taskId ≠ id) →
        (∀ e name number task, .started e name number task ∈ ls' → task.taskId ≠ id) ∧
          ∀ e job, (s''.pool.executors e).pc ≠ .running job id := by
  intro hclaim
  obtain ⟨ls, w, found, found', q, p, p', p'', entry, hrun, hcalls, hdelay, hexecs, hremove, htasks,
    hid, hpop, hpc, hwaits⟩ := run_handed_twice
  obtain ⟨res, s, hremoving, hremoved⟩ := run_remove (n := 1) hcalls hdelay hexecs hremove
  obtain ⟨s'', hlater⟩ := run_wake (w := { w with delayTasks := q, execs := some p' }) (e := 1) hpc
    hwaits rfl htasks hpop
  obtain ⟨hnot, -⟩ := hclaim 2 0 _ _ s _ s'' 1 1 res (by decide) (hrun.append hremoving.unguard)
    hremoved hlater (by simp)
  exact hnot 1 .execs entry.iterator entry.matrix.task (by simp) hid

end TaskPool

end NativePreferences
