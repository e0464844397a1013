import NativePreferences.ExecutorPool.QueueOperations
import NativePreferences.ExecutorPool.TimerQueue

/-!
# NativePreferences.ExecutorPool.TaskPool

**A pool with all its functions.** To the machine of `Execute` and `Schedule` come `Remove` and
`Reset`, which only touch the queues. A thread that is in one of them does nothing else.

A step of this machine shows what it does to a task: it is given an id, queued, started, it
returns, it is finished or erased (`Label`). `Work` says so in terms of three things: what the
queues hold, what the calls of `Schedule` and `Execute` still have to queue (`carried`), and what
the executors have popped and not finished (`held`). Each step of the machine is one of these
(`Step.work`), and all that is said about tasks is derived from it.
-/

namespace NativePreferences

open Lib

variable {α : Type}

/-- What the updater of `Reset` does: it returns the new time, and `true`. -/
def InnerTask.reset (now interval : Int) (task : InnerTask α) : (Bool × Int) × InnerTask α :=
  ((true, now + interval), if task.interval ≠ 0 then { task with interval } else task)

/-- A task as `Schedule` and `Execute` make it for a queue. -/
structure InnerTask.Shaped (hasExecs : Bool) (name : QueueName) (task : InnerTask α) : Prop where
  valid : task.taskId ≠ invalidTaskId
  exec : match name with
    | .delayTasks => if hasExecs then ∃ func, task.exec = .execute func task.taskId
        else ∃ func, task.exec = .user func
    | .execs => ∃ func, task.exec = .user func

/-- An executor has popped a task and not finished it here. -/
def Executor.Pc.holds : Executor.Pc α → Bool
  | .running _ _ | .finishing _ => true
  | _ => false

/-- What an executor has popped and not finished: the queue, what is left to do (nothing, if the
function has returned), and the id. -/
def Executor.held (x : Executor α) : Option (QueueName × Option (Job α) × TaskId) :=
  match x.pc with
  | .running job id => x.waits.map (fun name => (name, some job, id))
  | .finishing id => x.waits.map (fun name => (name, none, id))
  | _ => none

namespace ExecutorPool

/-- What a call still has to queue, and where. -/
def Call.carried : Call α → Option (QueueName × InnerTask α)
  | .schedulePush innerTask _ => some (.delayTasks, innerTask)
  | .executePush task id => some (.execs, ⟨.user task, 0, unlimitedTimes, id⟩)
  | _ => none

def carried (w : ExecutorPool α) (t : Thread) : Option (QueueName × InnerTask α) :=
  (w.calls t).carried

def held (w : ExecutorPool α) (e : Nat) : Option (QueueName × Option (Job α) × TaskId) :=
  (w.executors e).held

/-- What a step does to a task. -/
inductive Label (α : Type)
  | other
  /-- `Schedule` or `Execute` is called, and has an id for the task. -/
  | gave (task : InnerTask α)
  /-- The task goes into a queue, as the entry with this number. -/
  | queued (name : QueueName) (number : Nat) (task : InnerTask α)
  /-- An executor starts the task of this entry. -/
  | started (e : Nat) (name : QueueName) (number : Nat) (task : InnerTask α)
  /-- The function that the executor runs has returned. -/
  | ran (e : Nat) (name : QueueName) (job : Job α) (id : TaskId)
  /-- The executor has called `Finish`. -/
  | finished (e : Nat) (name : QueueName) (id : TaskId)
  /-- `Remove` is called. -/
  | called (t : Thread) (id : TaskId) (wait : Bool)
  /-- The `Remove` of a queue has erased this entry, or found none. -/
  | erased (name : QueueName) (entry : Option (PQEntry (InnerTask α) Int TaskId))
  /-- `Remove` has returned. -/
  | removed (t : Thread) (id : TaskId) (wait res : Bool)
  /-- `Reset` has changed this task, or found none. -/
  | reset (task : Option (InnerTask α))

namespace Label

/-- The step leaves the tasks where they are. -/
def quiet : Label α → Bool
  | .other | .called _ _ _ | .removed _ _ _ _ => true
  | _ => false

/-- The step is one of `Execute`, `Schedule` or an executor. -/
def ofPool : Label α → Bool
  | .called _ _ _ | .erased _ _ | .removed _ _ _ _ | .reset _ => false
  | _ => true

end Label

/-- What a step does to the tasks, as its label says. -/
inductive Work (w w' : ExecutorPool α) : Label α → Prop
  | quiet {l : Label α} (hl : l.quiet = true) (hqueue : w'.queue = w.queue)
      (hcarried : w'.carried = w.carried) (hheld : w'.held = w.held) : Work w w' l
  | gave (t : Thread) (name : QueueName) (task : InnerTask α) (hid : task.taskId = w.genTaskId)
      (hshaped : task.Shaped w.execs.isSome name) (hthere : w.queue name ≠ none)
      (hcaller : ∀ e, t = .executor e →
        ∃ name func id, w.held e = some (name, some (.user func), id))
      (hnone : w.carried t = none) (hqueue : w'.queue = w.queue)
      (hcarried : w'.carried = Function.update w.carried t (some (name, task)))
      (hheld : w'.held = w.held) : Work w w' (.gave task)
  | queued (t : Thread) (name : QueueName) (task : InnerTask α) (time : Int) (q : TaskQueue α)
      (hcarry : w.carried t = some (name, task)) (hget : w.queue name = some q)
      (hqueue : w'.queue =
        Function.update w.queue name (some (q.push InnerTask.valid task task.taskId time).2))
      (hcarried : w'.carried = Function.update w.carried t none) (hheld : w'.held = w.held) :
      Work w w' (.queued name q.emplaced task)
  | started (e : Nat) (name : QueueName) (q q' : TaskQueue α)
      (entry : PQEntry (InnerTask α) Int TaskId) (rest : List (PQEntry (InnerTask α) Int TaskId))
      (hnone : w.held e = none) (hahead : (w.executors e).Ahead name)
      (hget : w.queue name = some q) (htasks : q.tasks = entry :: rest)
      (hpop : q.pop InnerTask.invalid w.now = some (entry.matrix.task, q'))
      (hqueue : w'.queue = Function.update w.queue name (some q'))
      (hcarried : w'.carried = w.carried)
      (hheld : w'.held = Function.update w.held e
        (some (name, some entry.matrix.task.exec, entry.matrix.task.taskId))) :
      Work w w' (.started e name entry.iterator entry.matrix.task)
  /-- A `Pop` from a queue that has become empty. -/
  | startedNothing (e : Nat) (name : QueueName) (hnone : w.held e = none)
      (hahead : (w.executors e).Ahead name) (hthere : w.queue name ≠ none)
      (hqueue : w'.queue = w.queue) (hcarried : w'.carried = w.carried)
      (hheld : w'.held = Function.update w.held e (some (name, some .nothing, invalidTaskId))) :
      Work w w' .other
  /-- What `Schedule` has made of a function calls `Execute`. -/
  | handed (e : Nat) (name : QueueName) (func : α) (id taskId : TaskId)
      (hholds : w.held e = some (name, some (.execute func id), taskId))
      (hnone : w.carried (.executor e) = none) (hqueue : w'.queue = w.queue)
      (hcarried : w'.carried = Function.update w.carried (.executor e)
        (some (.execs, ⟨.user func, 0, unlimitedTimes, id⟩)))
      (hheld : w'.held = Function.update w.held e (some (name, some .nothing, taskId))) :
      Work w w' .other
  | ran (e : Nat) (name : QueueName) (job : Job α) (id : TaskId)
      (hholds : w.held e = some (name, some job, id)) (hjob : ∀ func id, job ≠ .execute func id)
      (hnone : w.carried (.executor e) = none) (hqueue : w'.queue = w.queue)
      (hcarried : w'.carried = w.carried)
      (hheld : w'.held = Function.update w.held e (some (name, none, id))) :
      Work w w' (.ran e name job id)
  | finished (e : Nat) (name : QueueName) (id : TaskId) (q : TaskQueue α)
      (hholds : w.held e = some (name, none, id)) (hget : w.queue name = some q)
      (hqueue : w'.queue =
        Function.update w.queue name (some (q.finish (w.updater name) id)))
      (hcarried : w'.carried = w.carried) (hheld : w'.held = Function.update w.held e none) :
      Work w w' (.finished e name id)
  | erased (name : QueueName) (id : TaskId) (wait res : Bool) (q q' : TaskQueue α)
      (hget : w.queue name = some q) (hremove : q.remove id wait = some (res, q'))
      (hqueue : w'.queue = Function.update w.queue name (some q'))
      (hcarried : w'.carried = w.carried) (hheld : w'.held = w.held) :
      Work w w' (.erased name (q.entryAt id))
  | reset (id : TaskId) (interval : Int) (q : TaskQueue α) (task : Option (InnerTask α))
      (hget : w.queue .delayTasks = some q)
      (htask : task = ((q.entryAt id).map PQEntry.matrix <|> q.running.lookup id).map PQMatrix.task)
      (hqueue : w'.queue = Function.update w.queue .delayTasks
        (some (q.update (InnerTask.reset w.now interval) id).2))
      (hcarried : w'.carried = w.carried) (hheld : w'.held = w.held) : Work w w' (.reset task)

variable {w w' : ExecutorPool α} {ev : Event} {t : Thread} {e : Nat}

/-! ### The steps of the machine -/

theorem genTaskId_valid (w : ExecutorPool α) : w.genTaskId ≠ invalidTaskId := by
  rw [genTaskId]
  split
  · next hzero =>
    rw [hzero]
    decide
  · next hne => exact hne

theorem held_eq_none {x : Executor α} (hpc : x.pc.holds = false) : x.held = none := by
  rw [Executor.held]
  cases hx : x.pc with
  | running | finishing =>
      rw [hx] at hpc
      cases hpc
  | _ => rfl

theorem held_of_pc {x : Executor α} {pc : Executor.Pc α} (hpc : x.pc = pc)
    (h : pc.holds = false) : x.held = none :=
  held_eq_none (hpc ▸ h)

theorem held_running {x : Executor α} {job : Job α} {id : TaskId} {name : QueueName}
    (hpc : x.pc = .running job id) (hwaits : x.waits = some name) :
    x.held = some (name, some job, id) := by
  rw [Executor.held, hpc, hwaits]
  rfl

theorem held_finishing {x : Executor α} {id : TaskId} {name : QueueName}
    (hpc : x.pc = .finishing id) (hwaits : x.waits = some name) :
    x.held = some (name, none, id) := by
  rw [Executor.held, hpc, hwaits]
  rfl

theorem carried_update {c : Call α} (h : c.carried = (w.calls t).carried) (u : Thread) :
    (Function.update w.calls t c u).carried = (w.calls u).carried := by
  by_cases hu : u = t
  · rw [hu, Function.update_self, h]
  · rw [Function.update_of_ne hu]

theorem held_update {x : Executor α} (h : x.held = (w.executors e).held) (d : Nat) :
    (Function.update w.executors e x d).held = (w.executors d).held := by
  by_cases hd : d = e
  · rw [hd, Function.update_self, h]
  · rw [Function.update_of_ne hd]

theorem carried_of_update {c : Call α} {o : Option (QueueName × InnerTask α)}
    (hcalls : w'.calls = Function.update w.calls t c) (hc : c.carried = o) :
    w'.carried = Function.update w.carried t o := by
  funext u
  rw [carried, hcalls]
  by_cases hu : u = t
  · rw [hu, Function.update_self, Function.update_self, hc]
  · rw [Function.update_of_ne hu, Function.update_of_ne hu]
    rfl

theorem held_of_update {x : Executor α}
    (hexecutors : w'.executors = Function.update w.executors e x) :
    w'.held = Function.update w.held e x.held := by
  funext d
  rw [held, hexecutors]
  by_cases hd : d = e
  · rw [hd, Function.update_self, Function.update_self]
  · rw [Function.update_of_ne hd, Function.update_of_ne hd]
    rfl

theorem queue_setQueue (w : ExecutorPool α) (name : QueueName) (q : TaskQueue α) :
    (w.setQueue name q).queue = Function.update w.queue name (some q) := by
  funext name'
  cases name <;> cases name' <;> rfl

/-- A step of a call that has nothing to queue, before or after. -/
theorem Work.call {c c' : Call α} (ht : w.calls t = c) (hbefore : c.carried = none)
    (hafter : c'.carried = none) (hqueue : w'.queue = w.queue)
    (hcalls : w'.calls = Function.update w.calls t c') (hexecutors : w'.executors = w.executors) :
    Work w w' .other := by
  refine .quiet rfl hqueue ?_ (by funext e; rw [held, hexecutors]; rfl)
  funext u
  rw [carried, hcalls]
  exact carried_update (by rw [ht, hbefore, hafter]) u

/-- A step of an executor that has popped nothing, before or after. -/
theorem Work.executor {x : Executor α} (hbefore : (w.executors e).held = none)
    (hafter : x.held = none) (hqueue : w'.queue = w.queue) (hcalls : w'.calls = w.calls)
    (hexecutors : w'.executors = Function.update w.executors e x) : Work w w' .other := by
  refine .quiet rfl hqueue (by funext u; rw [carried, hcalls]; rfl) ?_
  funext d
  rw [held, hexecutors]
  exact held_update (by rw [hbefore, hafter]) d

/-- A call binds the executor that it got, which has popped nothing. -/
theorem Work.bind (h : w.Placed) {c c' : Call α} {name : QueueName} (ht : w.calls t = c)
    (hbinds : c.binds = some e) (hbefore : c.carried = none) (hafter : c'.carried = none)
    (hfree : (w.executors e).pc.unlocked = true) (hqueue : w'.queue = w.queue)
    (hcalls : w'.calls = Function.update w.calls t c')
    (hexecutors : w'.executors = Function.update w.executors e ((w.executors e).bind name)) :
    Work w w' .other := by
  have hwaits := (h.binds t e (ht ▸ hbinds)).2.waits_of_unlocked (h.sane e) hfree
  have hnone : ∀ x : Executor α, x.pc = (w.executors e).pc → x.held = none := by
    intro x hx
    rcases hwaits with hpc | hpc
    · exact held_of_pc (hx.trans hpc) rfl
    · exact held_of_pc (hx.trans hpc) rfl
  refine .quiet rfl hqueue ?_ ?_
  · funext u
    rw [carried, hcalls]
    exact carried_update (by rw [ht, hbefore, hafter]) u
  · funext d
    rw [held, hexecutors]
    exact held_update ((hnone ((w.executors e).bind name) rfl).trans (hnone _ rfl).symm) d

theorem held_user_of_mayCall (h : w.Placed) (hmay : w.mayCall t) (e : Nat)
    (ht : t = .executor e) : ∃ name func id, w.held e = some (name, some (.user func), id) := by
  subst ht
  obtain ⟨func, id, hpc⟩ := hmay
  have hne : (w.executors e).waits ≠ none := (h.sane e).serves (by rw [hpc]; rfl)
  obtain ⟨name, hwaits⟩ := Option.ne_none_iff_exists'.mp hne
  exact ⟨name, func, id, held_running hpc hwaits⟩

theorem carried_outside (h : w.calls t = .outside) : w.carried t = none := by
  rw [carried, h]
  rfl

/-- `Schedule` gives the task its id. -/
theorem work_schedule (h : w.Placed) (task : α) (delay interval : Int) (times : UInt64)
    (hcall : w.calls t = .outside) (hmay : w.mayCall t) :
    Work w (w.schedule t task delay interval times)
      (.gave ⟨if w.execs.isSome then .execute task w.genTaskId else .user task, interval, times,
        w.genTaskId⟩) := by
  refine .gave t .delayTasks _ rfl ⟨w.genTaskId_valid, ?_⟩ nofun (held_user_of_mayCall h hmay)
    (carried_outside hcall) rfl (carried_of_update rfl rfl) rfl
  cases w.execs with
  | none => exact ⟨task, rfl⟩
  | some q => exact ⟨task, rfl⟩

theorem work_execute (h : w.Placed) (task : α) (hcall : w.calls t = .outside)
    (hmay : w.mayCall t) :
    ∃ task', Work w (w.execute t task) (.gave task') := by
  unfold ExecutorPool.execute
  split
  · exact ⟨_, work_schedule h task 0 0 unlimitedTimes hcall hmay⟩
  · next q hexecs =>
    have hthere : w.queue .execs ≠ none := by
      rw [queue, hexecs]
      nofun
    exact ⟨_, .gave t .execs ⟨.user task, 0, unlimitedTimes, w.genTaskId⟩ rfl
      ⟨w.genTaskId_valid, ⟨task, rfl⟩⟩ hthere (held_user_of_mayCall h hmay)
      (carried_outside hcall) rfl (carried_of_update rfl rfl) rfl⟩

theorem work_schedulePush {innerTask : InnerTask α} {delay : Int}
    (hcall : w.calls t = .schedulePush innerTask delay) :
    Work w ({ w with
      delayTasks := (w.delayTasks.push InnerTask.valid innerTask innerTask.taskId delay).2
    }.setCall t (.scheduleLock innerTask.taskId))
      (.queued .delayTasks w.delayTasks.emplaced innerTask) := by
  refine .queued t .delayTasks innerTask delay w.delayTasks ?_ rfl (queue_setQueue w .delayTasks _)
    (carried_of_update rfl rfl) rfl
  rw [carried, hcall]
  rfl

theorem work_executePush {task : α} {id : TaskId} {q : TaskQueue α}
    (hcall : w.calls t = .executePush task id) (hqueue : w.execs = some q) :
    Work w ({ w with
      execs := some (q.push InnerTask.valid ⟨.user task, 0, unlimitedTimes, id⟩ id 0).2
    }.setCall t (.executeGet id))
      (.queued .execs q.emplaced ⟨.user task, 0, unlimitedTimes, id⟩) := by
  refine .queued t .execs ⟨.user task, 0, unlimitedTimes, id⟩ 0 q ?_ hqueue
    (queue_setQueue w .execs _) (carried_of_update rfl rfl) rfl
  rw [carried, hcall]
  rfl

/-- The executor starts the first task of its queue. -/
theorem work_pop {name : QueueName} {q q' : TaskQueue α}
    {entry : PQEntry (InnerTask α) Int TaskId} {rest : List (PQEntry (InnerTask α) Int TaskId)}
    (hpc : (w.executors e).pc = .popping) (hwaits : (w.executors e).waits = some name)
    (hqueue : w.queue name = some q) (htasks : q.tasks = entry :: rest)
    (hpop : q.pop InnerTask.invalid w.now = some (entry.matrix.task, q')) :
    Work w ((w.setQueue name q').goto e (.running entry.matrix.task.exec entry.matrix.task.taskId))
      (.started e name entry.iterator entry.matrix.task) := by
  refine .started e name q q' entry rest (held_of_pc hpc rfl) ⟨hwaits, by rw [hpc]; rfl⟩ hqueue
    htasks hpop ?_ (by cases name <;> rfl) ?_
  · rw [← queue_setQueue]
    rfl
  · rw [← held_running (x := { w.executors e with
      pc := .running entry.matrix.task.exec entry.matrix.task.taskId }) rfl hwaits]
    refine held_of_update ?_
    cases name <;> rfl

/-- The queue has become empty. -/
theorem work_popNothing {name : QueueName} {q : TaskQueue α}
    (hpc : (w.executors e).pc = .popping) (hwaits : (w.executors e).waits = some name)
    (hqueue : w.queue name = some q) :
    Work w ((w.setQueue name q).goto e (.running .nothing invalidTaskId)) .other := by
  refine .startedNothing e name (held_of_pc hpc rfl) ⟨hwaits, by rw [hpc]; rfl⟩
    (by rw [hqueue]; nofun) ?_ (by cases name <;> rfl) ?_
  · have hsame : (w.setQueue name q).queue = w.queue := by
      rw [queue_setQueue, ← hqueue, Function.update_eq_self]
    rw [← hsame]
    rfl
  · rw [← held_running (x := { w.executors e with pc := .running .nothing invalidTaskId }) rfl
      hwaits]
    refine held_of_update ?_
    cases name <;> rfl

/-- An executor that runs a task or finishes it is bound to a queue. -/
theorem waits_of_serves (h : w.Placed) (hserves : (w.executors e).pc.serves = true) :
    ∃ name, (w.executors e).waits = some name :=
  Option.ne_none_iff_exists'.mp ((h.sane e).serves hserves)

theorem work_runExecute {name : QueueName} {func : α} {id taskId : TaskId}
    (hpc : (w.executors e).pc = .running (.execute func id) taskId)
    (hwaits : (w.executors e).waits = some name) (hcalls : w.calls (.executor e) = .outside) :
    Work w ((w.goto e (.running .nothing taskId)).setCall (.executor e) (.executePush func id))
      .other := by
  refine .handed e name func id taskId (held_running hpc hwaits) (carried_outside hcalls) rfl
    (carried_of_update rfl rfl) ?_
  rw [← held_running (x := { w.executors e with pc := .running .nothing taskId }) rfl hwaits]
  exact held_of_update rfl

theorem work_ran {name : QueueName} {job : Job α} {taskId : TaskId}
    (hpc : (w.executors e).pc = .running job taskId) (hwaits : (w.executors e).waits = some name)
    (hjob : ∀ func id, job ≠ .execute func id) (hcalls : w.calls (.executor e) = .outside) :
    Work w (w.goto e (.finishing taskId)) (.ran e name job taskId) := by
  refine .ran e name job taskId (held_running hpc hwaits) hjob (carried_outside hcalls) rfl rfl ?_
  rw [← held_finishing (x := { w.executors e with pc := .finishing taskId }) rfl hwaits]
  exact held_of_update rfl

theorem work_finish {name : QueueName} {q : TaskQueue α} {taskId : TaskId}
    (hpc : (w.executors e).pc = .finishing taskId) (hwaits : (w.executors e).waits = some name)
    (hqueue : w.queue name = some q) :
    Work w ((w.setQueue name (q.finish (w.updater name) taskId)).goto e .looping)
      (.finished e name taskId) := by
  refine .finished e name taskId q (held_finishing hpc hwaits) hqueue ?_ (by cases name <;> rfl) ?_
  · rw [← queue_setQueue]
    rfl
  · rw [← held_of_pc (x := { w.executors e with pc := .looping }) rfl rfl]
    refine held_of_update ?_
    cases name <;> rfl

/-- **What a step does to the tasks.** -/
theorem Step.exists_work (hstep : Step w ev w') (h : w.Placed) :
    ∃ l : Label α, l.ofPool = true ∧ Work w w' l := by
  -- An executor that has popped nothing goes on.
  have hidle : ∀ {v : ExecutorPool α} {e : Nat} {x : Executor α},
      (w.executors e).pc.holds = false → x.held = none → v.queue = w.queue → v.calls = w.calls →
        v.executors = Function.update w.executors e x →
          ∃ l : Label α, l.ofPool = true ∧ Work w v l :=
    fun hpc hx hqueue hcalls hexecutors =>
      ⟨.other, rfl, .executor (held_eq_none hpc) hx hqueue hcalls hexecutors⟩
  cases hstep with
  | tick hlater => exact ⟨.other, rfl, .quiet rfl rfl rfl rfl⟩
  | schedule task delay interval times hcall hmay =>
      exact ⟨_, rfl, work_schedule h task delay interval times hcall hmay⟩
  | execute task hcall hmay =>
      obtain ⟨task', hwork⟩ := work_execute h task hcall hmay
      exact ⟨_, rfl, hwork⟩
  | schedulePush hcall => exact ⟨_, rfl, work_schedulePush hcall⟩
  | scheduleLock hcall hfree => exact ⟨_, rfl, .call hcall rfl rfl rfl rfl rfl⟩
  | schedulerThere hcall hthere => exact ⟨_, rfl, .call hcall rfl rfl rfl rfl rfl⟩
  | scheduleGet hcall hnone hget => exact ⟨_, rfl, .call hcall rfl rfl rfl rfl rfl⟩
  | scheduleBind hcall hfree => exact ⟨_, rfl, .bind h hcall rfl rfl rfl hfree rfl rfl rfl⟩
  | scheduleUnlock hcall => exact ⟨_, rfl, .call hcall rfl rfl rfl rfl rfl⟩
  | executePush hcall hqueue => exact ⟨_, rfl, work_executePush hcall hqueue⟩
  | executeGet hcall hget => exact ⟨_, rfl, .call hcall rfl rfl rfl rfl rfl⟩
  | executeRefused hcall hget => exact ⟨_, rfl, .call hcall rfl rfl rfl rfl rfl⟩
  | executeBind hcall hfree => exact ⟨_, rfl, .bind h hcall rfl rfl rfl hfree rfl rfl rfl⟩
  | wake hpc hbound =>
      refine hidle ?_ (held_of_pc rfl rfl) rfl rfl rfl
      rcases hpc with hpc | hpc
      · rw [hpc]
        rfl
      · rw [hpc]
        rfl
  | more hpc hwaits hqueue hsize => exact hidle (hpc ▸ rfl) (held_of_pc rfl rfl) rfl rfl rfl
  | noMore hpc hwaits hqueue hsize => exact hidle (hpc ▸ rfl) (held_of_pc rfl rfl) rfl rfl rfl
  | unbound hpc hwaits => exact hidle (hpc ▸ rfl) (held_of_pc rfl rfl) rfl rfl rfl
  | @pop e name q q' currentTask hpc hwaits hqueue hpop =>
      cases htasks : q.tasks with
      | nil =>
          rw [PriorityQueue.pop, htasks] at hpop
          obtain ⟨rfl, rfl⟩ := Prod.mk.inj (Option.some.inj hpop)
          exact ⟨_, rfl, work_popNothing hpc hwaits hqueue⟩
      | cons entry rest =>
          have htask : currentTask = entry.matrix.task := by
            rw [PriorityQueue.pop, htasks] at hpop
            dsimp only at hpop
            split at hpop
            · cases hpop
            · exact (Prod.mk.inj (Option.some.inj hpop)).1.symm
          subst htask
          exact ⟨_, rfl, work_pop hpc hwaits hqueue htasks hpop⟩
  | runExecute hpc hcalls =>
      obtain ⟨name, hwaits⟩ := waits_of_serves h (by rw [hpc]; rfl)
      exact ⟨_, rfl, work_runExecute hpc hwaits hcalls⟩
  | ran hpc hjob hcalls =>
      obtain ⟨name, hwaits⟩ := waits_of_serves h (by rw [hpc]; rfl)
      exact ⟨_, rfl, work_ran hpc hwaits hjob hcalls⟩
  | finish hpc hwaits hqueue => exact ⟨_, rfl, work_finish hpc hwaits hqueue⟩
  | idle hpc hidle' => exact hidle (hpc ▸ rfl) (held_of_pc rfl rfl) rfl rfl rfl
  | idleLock hpc hidle' hfree => exact hidle (hpc ▸ rfl) (held_of_pc rfl rfl) rfl rfl rfl
  | idleRefused hpc hsize =>
      refine hidle (hpc ▸ rfl) (held_eq_none ?_) rfl rfl rfl
      rw [Executor.atWaitUntil]
      dsimp only
      split <;> rfl
  | idleAgreed hpc hsize => exact hidle (hpc ▸ rfl) (held_of_pc rfl rfl) rfl rfl rfl
  | idlePool hpc => exact hidle (hpc ▸ rfl) (held_of_pc rfl rfl) rfl rfl rfl
  | clear hpc => exact hidle (hpc ▸ rfl) (held_of_pc rfl rfl) rfl rfl rfl
  | timeOut hpc hwaits => exact hidle (hpc ▸ rfl) (held_of_pc rfl rfl) rfl rfl rfl
  | released hpc hrelease => exact hidle (hpc ▸ rfl) (held_of_pc rfl rfl) rfl rfl rfl
  | kept hpc hrelease => exact hidle (hpc ▸ rfl) (held_of_pc rfl rfl) rfl rfl rfl

/-- A step of the pool that leaves the thread where it is. -/
def Still (w w' : ExecutorPool α) (t : Thread) : Prop :=
  w'.calls t = w.calls t ∧ ∀ e, t = .executor e → (w'.executors e).pc = (w.executors e).pc

/-- Where a thread is in `Remove` or `Reset`. -/
inductive Removal
  | outside
  /-- Before `delayTasks_.Find`. -/
  | find (id : TaskId) (wait : Bool)
  | delayTasks (id : TaskId) (wait res : Bool)
  | execs (id : TaskId) (wait res : Bool)
  | returning (id : TaskId) (wait res : Bool)
  /-- Before `delayTasks_.Update`. -/
  | update (id : TaskId) (interval : Int)

end ExecutorPool

/-- A pool, with the threads that are in `Remove` or `Reset`. -/
structure TaskPool (α : Type) where
  pool : ExecutorPool α
  removals : Thread → ExecutorPool.Removal

namespace TaskPool

open ExecutorPool

/-- The constructor. -/
def initial (max min : UInt64) : TaskPool α := ⟨.initial max min, fun _ => .outside⟩

def setRemoval (s : TaskPool α) (t : Thread) (r : Removal) : TaskPool α :=
  { s with removals := Function.update s.removals t r }

def setQueue (s : TaskPool α) (name : QueueName) (q : TaskQueue α) : TaskPool α :=
  { s with pool := s.pool.setQueue name q }

/-- One step. -/
inductive Step : TaskPool α → ExecutorPool.Label α → TaskPool α → Prop
  /-- The threads that are in `Remove` or `Reset` wait. -/
  | pool {s : TaskPool α} {ev : Event} {w' : ExecutorPool α} {l : ExecutorPool.Label α}
      (hstep : ExecutorPool.Step s.pool ev w') (hl : l.ofPool = true) (hwork : Work s.pool w' l)
      (hstill : ∀ t, s.removals t ≠ .outside → Still s.pool w' t) :
      Step s l { s with pool := w' }
  -- `Remove`
  | remove {s : TaskPool α} {t : Thread} (id : TaskId) (wait : Bool)
      (h : s.removals t = .outside) (hcall : s.pool.calls t = .outside)
      (hmay : s.pool.mayCall t) : Step s (.called t id wait) (s.setRemoval t (.find id wait))
  | find {s : TaskPool α} {t : Thread} {id : TaskId} {wait : Bool}
      (h : s.removals t = .find id wait) :
      Step s .other (s.setRemoval t
        (.delayTasks id wait (s.pool.delayTasks.find InnerTask.invalid id).valid))
  | removeDelayed {s : TaskPool α} {t : Thread} {id : TaskId} {wait res found : Bool}
      {q : TaskQueue α} (h : s.removals t = .delayTasks id wait res)
      (hremove : s.pool.delayTasks.remove id wait = some (found, q)) :
      Step s (.erased .delayTasks (s.pool.delayTasks.entryAt id))
        ((s.setQueue .delayTasks q).setRemoval t
          (if s.pool.execs.isSome then .execs id wait res else .returning id wait res))
  | removeExecs {s : TaskPool α} {t : Thread} {id : TaskId} {wait res found : Bool}
      {q q' : TaskQueue α} (h : s.removals t = .execs id wait res)
      (hqueue : s.pool.execs = some q) (hremove : q.remove id wait = some (found, q')) :
      Step s (.erased .execs (q.entryAt id))
        ((s.setQueue .execs q').setRemoval t (.returning id wait res))
  | removed {s : TaskPool α} {t : Thread} {id : TaskId} {wait res : Bool}
      (h : s.removals t = .returning id wait res) :
      Step s (.removed t id wait res) (s.setRemoval t .outside)
  -- `Reset`
  | reset {s : TaskPool α} {t : Thread} (id : TaskId) (interval : Int)
      (h : s.removals t = .outside) (hcall : s.pool.calls t = .outside)
      (hmay : s.pool.mayCall t) : Step s .other (s.setRemoval t (.update id interval))
  | update {s : TaskPool α} {t : Thread} {id : TaskId} {interval : Int}
      (h : s.removals t = .update id interval) :
      Step s (.reset (((s.pool.delayTasks.entryAt id).map PQEntry.matrix <|>
          s.pool.delayTasks.running.lookup id).map PQMatrix.task))
        ((s.setQueue .delayTasks
          (s.pool.delayTasks.update (InnerTask.reset s.pool.now interval) id).2).setRemoval t
            .outside)

variable {s s' : TaskPool α} {l : ExecutorPool.Label α} {ls : List (ExecutorPool.Label α)}

/-- **What a step does to the tasks** is what its label says. -/
theorem Step.work (h : Step s l s') : Work s.pool s'.pool l := by
  cases h with
  | pool hstep hl hwork hstill => exact hwork
  | remove id wait h hcall hmay => exact .quiet rfl rfl rfl rfl
  | find h => exact .quiet rfl rfl rfl rfl
  | @removeDelayed t id wait res found q h hremove =>
      exact .erased .delayTasks id wait found _ q rfl hremove (queue_setQueue ..) rfl rfl
  | @removeExecs t id wait res found q q' h hget hremove =>
      exact .erased .execs id wait found q q' hget hremove (queue_setQueue ..) rfl rfl
  | removed h => exact .quiet rfl rfl rfl rfl
  | reset id interval h hcall hmay => exact .quiet rfl rfl rfl rfl
  | @update t id interval h =>
      exact .reset id interval _ _ rfl rfl (queue_setQueue ..) rfl rfl

/-- **What a step does to the pool**: a step of the machine, or a change of one queue. -/
theorem Step.pool_cases (h : Step s l s') :
    (∃ ev, ExecutorPool.Step s.pool ev s'.pool) ∨
      ∃ name q q', s.pool.queue name = some q ∧ s'.pool = s.pool.setQueue name q' ∧
        (q'.size ≠ 0 → q.size ≠ 0) := by
  have hsame : ∀ v : ExecutorPool α, v = s.pool → ∃ name q q', s.pool.queue name = some q ∧
      v = s.pool.setQueue name q' ∧ (q'.size ≠ 0 → q.size ≠ 0) :=
    fun v hv => ⟨.delayTasks, s.pool.delayTasks, s.pool.delayTasks, rfl, hv, id⟩
  cases h with
  | pool hstep hl hwork hstill => exact .inl ⟨_, hstep⟩
  | remove id wait h hcall hmay => exact .inr (hsame _ rfl)
  | find h => exact .inr (hsame _ rfl)
  | removeDelayed h hremove =>
      exact .inr ⟨.delayTasks, _, _, rfl, rfl, PriorityQueue.size_remove hremove⟩
  | removeExecs h hget hremove =>
      exact .inr ⟨.execs, _, _, hget, rfl, PriorityQueue.size_remove hremove⟩
  | removed h => exact .inr (hsame _ rfl)
  | reset id interval h hcall hmay => exact .inr (hsame _ rfl)
  | update h => exact .inr ⟨.delayTasks, _, _, rfl, rfl, PriorityQueue.size_update⟩

end TaskPool

/-! ### The executors -/

namespace ExecutorPool

variable {w w' : ExecutorPool α} {ev : Event}

/-- What holds of the executors and of `scheduler_` at all times. -/
structure Steady (w : ExecutorPool α) : Prop where
  placed : w.Placed
  locked : w.Locked
  timed : w.Timed

theorem steady_initial (max min : UInt64) : (initial max min : ExecutorPool α).Steady :=
  ⟨placed_initial max min, locked_initial max min, timed_initial max min⟩

theorem Steady.step (h : w.Steady) (hstep : Step w ev w') : w'.Steady :=
  ⟨h.placed.step hstep, h.locked.step hstep, h.timed.step h.placed h.locked hstep⟩

theorem Steady.setQueue (h : w.Steady) {name : QueueName} {q q' : TaskQueue α}
    (hget : w.queue name = some q) (hsize : q'.size ≠ 0 → q.size ≠ 0) :
    (w.setQueue name q').Steady := by
  obtain ⟨hplaced, hlocked, htimed⟩ := h
  cases name with
  | execs => exact ⟨{ hplaced with }, { hlocked with }, { htimed with }⟩
  | delayTasks =>
      obtain rfl := Option.some.inj hget
      refine ⟨{ hplaced with }, { hlocked with }, { htimed with queued := ?_ }⟩
      exact fun hne => htimed.queued (hsize hne)

end ExecutorPool

namespace TaskPool

open ExecutorPool

variable {s s' : TaskPool α} {l : ExecutorPool.Label α} {ls : List (ExecutorPool.Label α)}
variable {max min : UInt64}

theorem Step.steady (hstep : Step s l s') (h : s.pool.Steady) : s'.pool.Steady := by
  rcases hstep.pool_cases with ⟨ev, hpool⟩ | ⟨name, q, q', hget, hpool, hsize⟩
  · exact h.step hpool
  · rw [hpool]
    exact h.setQueue hget hsize

/-- A step of the pool, while no thread is in `Remove` or `Reset`. -/
theorem Step.of_pool {w w' : ExecutorPool α} {ev : Event} (hstep : ExecutorPool.Step w ev w')
    (hl : l.ofPool = true) (hwork : Work w w' l) :
    Step ⟨w, fun _ => .outside⟩ l ⟨w', fun _ => .outside⟩ :=
  .pool hstep hl hwork (fun _ hne => absurd rfl hne)

/-- Each run of the machine of `Execute` and `Schedule` is one of this machine. -/
theorem exists_run {evs : List Event} {w : ExecutorPool α}
    (hrun : Run ExecutorPool.Step (.initial max min) evs w) :
    ∃ ls, Run Step (initial max min) ls ⟨w, fun _ => .outside⟩ := by
  have hall : ∀ {v w : ExecutorPool α} {evs : List Event}, v.Placed →
      Run ExecutorPool.Step v evs w →
        ∃ ls, Run Step ⟨v, fun _ => .outside⟩ ls ⟨w, fun _ => .outside⟩ := by
    intro v w evs hplaced hrun
    induction hrun with
    | nil => exact ⟨[], .nil⟩
    | cons hstep _ ih =>
        obtain ⟨l, hl, hwork⟩ := hstep.exists_work hplaced
        obtain ⟨ls, hls⟩ := ih (hplaced.step hstep)
        exact ⟨l :: ls, .cons (.of_pool hstep hl hwork) hls⟩
  exact hall (placed_initial max min) hrun

/-- In a pool for one thread a client schedules a task and an executor starts it. Then its function
returns. -/
theorem run_schedule (task : α) (interval : Int) (times : UInt64) {innerTask : InnerTask α}
    (htask : innerTask = ⟨.user task, interval, times, 1⟩) :
    ∃ s s' : TaskPool α,
      Run Step (initial 1 0) [.gave innerTask, .queued .delayTasks 0 innerTask, .other, .other,
        .other, .other, .other, .other, .started 0 .delayTasks 0 innerTask] s ∧
      Step s (.ran 0 .delayTasks (.user task) 1) s' ∧ s'.pool.delayTasks.tasks = [] ∧
        ∀ e job id, (s'.pool.executors e).pc ≠ .running job id := by
  subst htask
  refine ⟨_, _,
    .cons (.of_pool (.schedule (t := .client 0) task 0 interval times rfl trivial) rfl
      (work_schedule (placed_initial 1 0) task 0 interval times rfl trivial))
    (.cons (.of_pool (.schedulePush (t := .client 0) rfl) rfl (work_schedulePush rfl))
    (.cons (.of_pool (.scheduleLock (t := .client 0) rfl rfl) rfl (.call rfl rfl rfl rfl rfl rfl))
    (.cons (.of_pool (.scheduleGet (t := .client 0) rfl rfl rfl) rfl
      (.call rfl rfl rfl rfl rfl rfl))
    (.cons (.of_pool (.scheduleBind (t := .client 0) (e := 0) rfl rfl) rfl
      (.quiet rfl rfl (funext (carried_update rfl)) (funext (held_update rfl))))
    (.cons (.of_pool (.scheduleUnlock (t := .client 0) rfl) rfl (.call rfl rfl rfl rfl rfl rfl))
    (.cons (.of_pool (.wake (e := 0) (.inl rfl) rfl) rfl (.executor rfl rfl rfl rfl rfl))
    (.cons (.of_pool (.more (e := 0) rfl rfl rfl Nat.one_pos) rfl
      (.executor rfl rfl rfl rfl rfl))
    (.cons (.of_pool (.pop (e := 0) rfl rfl rfl rfl) rfl (work_pop rfl rfl rfl rfl rfl))
      .nil)))))))),
    .of_pool (.ran (e := 0) rfl nofun rfl) rfl (work_ran rfl rfl nofun rfl), rfl, ?_⟩
  intro e job id hpc
  cases e with
  | zero => exact nomatch (hpc : (Executor.Pc.finishing 1 : Executor.Pc α) = .running job id)
  | succ e => exact nomatch (hpc : (Executor.Pc.waiting : Executor.Pc α) = .running job id)

end TaskPool

end NativePreferences
