import NativePreferences.Lib.Transition
import NativePreferences.ExecutorPool.PriorityQueue
import NativePreferences.ExecutorPool.Pool

/-!
# NativePreferences.ExecutorPool.Machine

**A pool of executors under any number of callers** (`executor_pool.h`, `executor.h`). A step is
one access to the common state: a function of the pool or of a queue (each takes its own mutex),
a section of an executor's `mutex_` in which nothing of this kind is called, or the taking of a
mutex that is held for longer.

* `mtx_` is held by `Schedule` from its test of `scheduler_` to its end, and by the `idle_` of the
  timer's executor.
* An executor holds its `mutex_` wherever it is in `Run`, except while it waits, while it runs a
  task and after it has stopped (`Pc.unlocked`); `Bind` needs it.
* A task is a function of a client, which may itself call the pool, or the one that `Schedule`
  makes of it where there is `execs_`. Time goes on at any moment.

The pool is not destroyed here, so `running_` is `RUNNING` until the executor ends. `self_` only
keeps an executor alive, and is left out.
-/

namespace NativePreferences

open Lib

abbrev TaskId : Type := UInt64

def invalidTaskId : TaskId := 0

def unlimitedTimes : UInt64 := 18446744073709551615

/-- What a task does. -/
inductive Job (α : Type)
  | nothing
  /-- A function of a client. -/
  | user (task : α)
  /-- The function that `Schedule` queues: it calls `Execute(func, id)`. -/
  | execute (func : α) (id : TaskId)

/-- `InnerTask`. -/
structure InnerTask (α : Type) where
  exec : Job α
  interval : Int
  times : UInt64
  taskId : TaskId

namespace InnerTask

variable {α : Type}

/-- `InnerTask()`. -/
def invalid : InnerTask α := ⟨.nothing, 0, unlimitedTimes, invalidTaskId⟩

/-- `Valid`. -/
def valid (task : InnerTask α) : Bool := task.taskId != invalidTaskId

/-- `NextTimer`, the updater of `delayTasks_`. -/
def nextTimer (now : Int) (task : InnerTask α) : (Bool × Int) × InnerTask α :=
  if task.interval ≠ 0 then
    let task := { task with times := task.times - 1 }
    if 0 < task.times then ((true, now + task.interval), task) else ((false, 0), task)
  else ((false, 0), task)

/-- The updater of a queue that is given none. -/
def noUpdater (task : InnerTask α) : (Bool × Int) × InnerTask α := ((false, 0), task)

end InnerTask

abbrev TaskQueue (α : Type) : Type := PriorityQueue (InnerTask α) Int TaskId

/-- The two queues of a pool, as `waits_` points to them. -/
inductive QueueName
  | delayTasks
  | execs
  deriving DecidableEq, Repr

/-- Where an executor is in `Run`. -/
inductive Executor.Pc (α : Type)
  /-- In `condition_.wait`. -/
  | waiting
  /-- At the condition of the inner `while`. -/
  | looping
  | popping
  /-- It runs a task, of which this is left to do. -/
  | running (job : Job α) (id : TaskId)
  | finishing (id : TaskId)
  /-- At the call of `idle_`. -/
  | idling
  /-- In the `idle_` of `Schedule`, with `mtx_`, before `delayTasks_.Size()`. -/
  | idleSize
  /-- In the `idle_` of `Schedule`, before `pool_.Idle`. -/
  | idlePool
  /-- Before `waits_ = nullptr`. -/
  | clearing
  /-- In `condition_.wait_until`. -/
  | resting
  /-- At the call of `release_`. -/
  | releasing
  | stopped

/-- The `mutex_` of an executor is free here. -/
def Executor.Pc.unlocked {α : Type} : Executor.Pc α → Bool
  | .waiting | .running _ _ | .resting | .stopped => true
  | _ => false

/-- `Executor`. -/
structure Executor (α : Type) where
  pc : Executor.Pc α
  waits : Option QueueName
  /-- Which `idle_` it was given with the last `Bind`, by the queue. -/
  idle : Option QueueName

namespace Executor

variable {α : Type}

/-- The constructor. -/
def fresh : Executor α := ⟨.waiting, none, none⟩

/-- `Bind`. -/
def bind (queue : QueueName) (x : Executor α) : Executor α :=
  { x with waits := some queue, idle := some queue }

/-- The executor evaluates the condition of `wait_until`. -/
def atWaitUntil (x : Executor α) : Executor α :=
  { x with pc := if x.waits.isSome then .looping else .resting }

end Executor

/-- Who calls: a thread of the client, or an executor in the task that it runs. -/
inductive Thread
  | client (n : Nat)
  | executor (e : Nat)
  deriving DecidableEq, Repr

/-- Where a thread is in `Schedule` or `Execute`. -/
inductive ExecutorPool.Call (α : Type)
  | outside
  | schedulePush (innerTask : InnerTask α) (delay : Int)
  | scheduleLock (id : TaskId)
  /-- With `mtx_`, before the test of `scheduler_`. -/
  | scheduleTest (id : TaskId)
  | scheduleBind (id : TaskId) (e : Nat)
  | scheduleUnlock (id : TaskId)
  | executePush (task : α) (id : TaskId)
  | executeGet (id : TaskId)
  | executeBind (id : TaskId) (e : Nat)

/-- What `mtx_` is held for. -/
inductive Section
  | schedule (t : Thread)
  | idle (e : Nat)
  deriving DecidableEq, Repr

/-- `ExecutorPool`, with its executors and the threads that call it. -/
structure ExecutorPool (α : Type) where
  now : Int
  taskId : TaskId
  mtx : Option Section
  pool : Pool
  delayTasks : TaskQueue α
  scheduler : Option Nat
  execs : Option (TaskQueue α)
  executors : Nat → Executor α
  made : Nat
  calls : Thread → ExecutorPool.Call α

namespace ExecutorPool

variable {α : Type}

/-- The constructor. The pool counts in `uint32_t`. -/
def initial (max min : UInt64) : ExecutorPool α where
  now := 0
  taskId := invalidTaskId
  mtx := none
  pool := .initial max.toUInt32 min.toUInt32
  delayTasks := .empty
  scheduler := none
  execs := if 1 < max then some .empty else none
  executors := fun _ => .fresh
  made := 0
  calls := fun _ => .outside

def setCall (w : ExecutorPool α) (t : Thread) (c : ExecutorPool.Call α) : ExecutorPool α :=
  { w with calls := Function.update w.calls t c }

def setExecutor (w : ExecutorPool α) (e : Nat) (x : Executor α) : ExecutorPool α :=
  { w with executors := Function.update w.executors e x }

/-- The executor goes on to this place. -/
def goto (w : ExecutorPool α) (e : Nat) (pc : Executor.Pc α) : ExecutorPool α :=
  w.setExecutor e { w.executors e with pc }

/-- The queue that `waits_` points to. -/
def queue (w : ExecutorPool α) : QueueName → Option (TaskQueue α)
  | .delayTasks => some w.delayTasks
  | .execs => w.execs

def setQueue (w : ExecutorPool α) : QueueName → TaskQueue α → ExecutorPool α
  | .delayTasks, q => { w with delayTasks := q }
  | .execs, q => { w with execs := some q }

/-- What `Finish` of a queue does with a task that has run. -/
def updater (w : ExecutorPool α) : QueueName → InnerTask α → (Bool × Int) × InnerTask α
  | .delayTasks => InnerTask.nextTimer w.now
  | .execs => InnerTask.noUpdater

/-- `Get` has returned this executor. -/
def afterGet (w : ExecutorPool α) (e : Nat) (pool : Pool) : ExecutorPool α :=
  { w with pool, made := if e = w.made then w.made + 1 else w.made }

/-! ### The functions -/

/-- `GenTaskId`. -/
def genTaskId (w : ExecutorPool α) : TaskId :=
  if w.taskId + 1 = invalidTaskId then w.taskId + 1 + 1 else w.taskId + 1

/-- `Schedule`, up to its first access to a queue. -/
def schedule (t : Thread) (task : α) (delay interval : Int) (times : UInt64)
    (w : ExecutorPool α) : ExecutorPool α :=
  let id := w.genTaskId
  let exec := if w.execs.isSome then .execute task id else .user task
  { w with taskId := id }.setCall t (.schedulePush ⟨exec, interval, times, id⟩ (w.now + delay))

/-- `Execute`, up to its first access to a queue. -/
def execute (t : Thread) (task : α) (w : ExecutorPool α) : ExecutorPool α :=
  match w.execs with
  | none => w.schedule t task 0 0 unlimitedTimes
  | some _ => { w with taskId := w.genTaskId }.setCall t (.executePush task w.genTaskId)

/-- A thread may call: a client at any time, an executor from a client's function. -/
def mayCall (w : ExecutorPool α) : Thread → Prop
  | .client _ => True
  | .executor e => ∃ task id, (w.executors e).pc = .running (.user task) id

/-- What a step shows. -/
inductive Event
  /-- An executor has called `Size` of a queue. -/
  | looked (e : Nat) (q : QueueName)
  /-- An executor has called `pool_.Idle` for itself. -/
  | idled (e : Nat)
  /-- An executor starts a task. -/
  | started (e : Nat) (id : TaskId)
  /-- `Schedule` or `Execute` has returned. -/
  | returned (t : Thread) (id : TaskId)
  /-- `Execute` has returned, and `Get` had no executor for it. -/
  | refused (t : Thread) (id : TaskId)
  | other
  deriving DecidableEq

/-- One step. -/
inductive Step : ExecutorPool α → Event → ExecutorPool α → Prop
  | tick {w : ExecutorPool α} {later : Int} (h : w.now ≤ later) :
      Step w .other { w with now := later }
  -- the callers
  | schedule {w : ExecutorPool α} {t : Thread} (task : α) (delay interval : Int) (times : UInt64)
      (h : w.calls t = .outside) (hmay : w.mayCall t) :
      Step w .other (w.schedule t task delay interval times)
  | execute {w : ExecutorPool α} {t : Thread} (task : α)
      (h : w.calls t = .outside) (hmay : w.mayCall t) : Step w .other (w.execute t task)
  | schedulePush {w : ExecutorPool α} {t : Thread} {innerTask : InnerTask α} {delay : Int}
      (h : w.calls t = .schedulePush innerTask delay) :
      Step w .other
        ({ w with
          delayTasks := (w.delayTasks.push InnerTask.valid innerTask innerTask.taskId delay).2
        }.setCall t (.scheduleLock innerTask.taskId))
  | scheduleLock {w : ExecutorPool α} {t : Thread} {id : TaskId}
      (h : w.calls t = .scheduleLock id) (hfree : w.mtx = none) :
      Step w .other ({ w with mtx := some (.schedule t) }.setCall t (.scheduleTest id))
  | schedulerThere {w : ExecutorPool α} {t : Thread} {id : TaskId} {e : Nat}
      (h : w.calls t = .scheduleTest id) (hthere : w.scheduler = some e) :
      Step w .other (w.setCall t (.scheduleUnlock id))
  | scheduleGet {w : ExecutorPool α} {t : Thread} {id : TaskId} {e : Nat} {pool : Pool}
      (h : w.calls t = .scheduleTest id) (hnone : w.scheduler = none)
      (hget : w.pool.get true w.made = (some e, pool)) :
      Step w .other
        ({ w.afterGet e pool with scheduler := some e }.setCall t (.scheduleBind id e))
  | scheduleBind {w : ExecutorPool α} {t : Thread} {id : TaskId} {e : Nat}
      (h : w.calls t = .scheduleBind id e) (hfree : (w.executors e).pc.unlocked = true) :
      Step w .other
        ((w.setExecutor e ((w.executors e).bind .delayTasks)).setCall t (.scheduleUnlock id))
  | scheduleUnlock {w : ExecutorPool α} {t : Thread} {id : TaskId}
      (h : w.calls t = .scheduleUnlock id) :
      Step w (.returned t id) ({ w with mtx := none }.setCall t .outside)
  | executePush {w : ExecutorPool α} {t : Thread} {task : α} {id : TaskId} {q : TaskQueue α}
      (h : w.calls t = .executePush task id) (hqueue : w.execs = some q) :
      Step w .other
        ({ w with
          execs := some (q.push InnerTask.valid ⟨.user task, 0, unlimitedTimes, id⟩ id 0).2
        }.setCall t (.executeGet id))
  | executeGet {w : ExecutorPool α} {t : Thread} {id : TaskId} {e : Nat} {pool : Pool}
      (h : w.calls t = .executeGet id) (hget : w.pool.get false w.made = (some e, pool)) :
      Step w .other ((w.afterGet e pool).setCall t (.executeBind id e))
  | executeRefused {w : ExecutorPool α} {t : Thread} {id : TaskId} {pool : Pool}
      (h : w.calls t = .executeGet id) (hget : w.pool.get false w.made = (none, pool)) :
      Step w (.refused t id) (w.setCall t .outside)
  | executeBind {w : ExecutorPool α} {t : Thread} {id : TaskId} {e : Nat}
      (h : w.calls t = .executeBind id e) (hfree : (w.executors e).pc.unlocked = true) :
      Step w (.returned t id)
        ((w.setExecutor e ((w.executors e).bind .execs)).setCall t .outside)
  -- the inner loop of `Run`
  | wake {w : ExecutorPool α} {e : Nat}
      (h : (w.executors e).pc = .waiting ∨ (w.executors e).pc = .resting)
      (hbound : (w.executors e).waits.isSome = true) : Step w .other (w.goto e .looping)
  | more {w : ExecutorPool α} {e : Nat} {name : QueueName} {q : TaskQueue α}
      (h : (w.executors e).pc = .looping) (hwaits : (w.executors e).waits = some name)
      (hqueue : w.queue name = some q) (hsize : 0 < q.size) :
      Step w (.looked e name) (w.goto e .popping)
  | noMore {w : ExecutorPool α} {e : Nat} {name : QueueName} {q : TaskQueue α}
      (h : (w.executors e).pc = .looping) (hwaits : (w.executors e).waits = some name)
      (hqueue : w.queue name = some q) (hsize : q.size = 0) :
      Step w (.looked e name) (w.goto e .idling)
  | unbound {w : ExecutorPool α} {e : Nat}
      (h : (w.executors e).pc = .looping) (hwaits : (w.executors e).waits = none) :
      Step w .other (w.goto e .idling)
  | pop {w : ExecutorPool α} {e : Nat} {name : QueueName} {q q' : TaskQueue α}
      {currentTask : InnerTask α}
      (h : (w.executors e).pc = .popping) (hwaits : (w.executors e).waits = some name)
      (hqueue : w.queue name = some q)
      (hpop : q.pop InnerTask.invalid w.now = some (currentTask, q')) :
      Step w (.started e currentTask.taskId)
        ((w.setQueue name q').goto e (.running currentTask.exec currentTask.taskId))
  | runExecute {w : ExecutorPool α} {e : Nat} {func : α} {id taskId : TaskId}
      (h : (w.executors e).pc = .running (.execute func id) taskId)
      (hcalls : w.calls (.executor e) = .outside) :
      Step w .other
        ((w.goto e (.running .nothing taskId)).setCall (.executor e) (.executePush func id))
  | ran {w : ExecutorPool α} {e : Nat} {job : Job α} {taskId : TaskId}
      (h : (w.executors e).pc = .running job taskId)
      (hjob : ∀ func id, job ≠ .execute func id) (hcalls : w.calls (.executor e) = .outside) :
      Step w .other (w.goto e (.finishing taskId))
  | finish {w : ExecutorPool α} {e : Nat} {name : QueueName} {q : TaskQueue α} {taskId : TaskId}
      (h : (w.executors e).pc = .finishing taskId) (hwaits : (w.executors e).waits = some name)
      (hqueue : w.queue name = some q) :
      Step w .other ((w.setQueue name (q.finish (w.updater name) taskId)).goto e .looping)
  -- `idle_`, as `Execute` binds it
  | idle {w : ExecutorPool α} {e : Nat}
      (h : (w.executors e).pc = .idling) (hidle : (w.executors e).idle = some .execs) :
      Step w (.idled e) ({ w with pool := w.pool.toIdle e }.goto e .clearing)
  -- `idle_`, as `Schedule` binds it
  | idleLock {w : ExecutorPool α} {e : Nat}
      (h : (w.executors e).pc = .idling) (hidle : (w.executors e).idle = some .delayTasks)
      (hfree : w.mtx = none) :
      Step w .other ({ w with mtx := some (.idle e) }.goto e .idleSize)
  | idleRefused {w : ExecutorPool α} {e : Nat}
      (h : (w.executors e).pc = .idleSize) (hsize : w.delayTasks.size ≠ 0) :
      Step w (.looked e .delayTasks)
        ({ w with mtx := none }.setExecutor e (w.executors e).atWaitUntil)
  | idleAgreed {w : ExecutorPool α} {e : Nat}
      (h : (w.executors e).pc = .idleSize) (hsize : w.delayTasks.size = 0) :
      Step w (.looked e .delayTasks) ({ w with scheduler := none }.goto e .idlePool)
  | idlePool {w : ExecutorPool α} {e : Nat} (h : (w.executors e).pc = .idlePool) :
      Step w (.idled e) ({ w with mtx := none, pool := w.pool.toIdle e }.goto e .clearing)
  -- the end of the outer loop
  | clear {w : ExecutorPool α} {e : Nat} (h : (w.executors e).pc = .clearing) :
      Step w .other (w.setExecutor e { w.executors e with pc := .resting, waits := none })
  | timeOut {w : ExecutorPool α} {e : Nat}
      (h : (w.executors e).pc = .resting) (hwaits : (w.executors e).waits = none) :
      Step w .other (w.goto e .releasing)
  | released {w : ExecutorPool α} {e : Nat} {pool : Pool}
      (h : (w.executors e).pc = .releasing) (hrelease : w.pool.release e false = (true, pool)) :
      Step w .other ({ w with pool }.goto e .stopped)
  | kept {w : ExecutorPool α} {e : Nat} {pool : Pool}
      (h : (w.executors e).pc = .releasing) (hrelease : w.pool.release e false = (false, pool)) :
      Step w .other ({ w with pool }.goto e .waiting)

end ExecutorPool

end NativePreferences
