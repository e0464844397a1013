import NativePreferences.ExecutorPool.Places
import NativePreferences.ExecutorPool.QueueOperations

/-!
# NativePreferences.ExecutorPool.Destruction

**The life of a pool to its end** (`~ExecutorPool`, `Executor::Stop`, `Pool::Clean`). The machine
of `Machine.lean` is what an executor does whose `running_` is `RUNNING`. Here the destructor is
one more thread: it clears the two queues, and stops the executor of `scheduler_` and then those
that it finds at the heads of `busy_` and `idle_`. `Run` reads `running_` at four places
(`Pc.consults`), and these have steps of their own.

* Nobody outside calls the pool any more when it is destroyed. The tasks of its executors may
  still be in a call, and may call `Schedule`, which does not look at `poolStatus`. `Execute` does.
* `Pool::Clean` reads `busy_` and `idle_` without `mutex_`, once in the condition of its loop and
  once for `data`. The two reads are one step, at the time of the second; where the list has become
  empty in between, what happens is undefined, and there is no step.
* So `Clean` can look while an executor is in the middle of `pool_.Idle`, out of `busy_` and not in
  `idle_` yet. If that is the last busy one, the first loop passes over it (`busyMissed`), and if
  the second one ends before it is in `idle_`, nobody stops it (`missed`).
* An executor that `Release` takes from `idle_` has not stopped yet: `Release` has to end, and then
  `Run` sets `running_`. The end of `Release`, with `current_--`, counts as part of the first step;
  the second one is a step of its own, before which the executor is `leaving`.
* The function `idle_` of an executor that was never bound is empty. To call it ends the program,
  so there is no step.

What a step of the pool does to the executors and the lists is one of five things (`Act`), of
which only those of an executor that goes on depend on its `running_` (`Executor.Goes`).
-/

namespace NativePreferences

open Lib

variable {α : Type}

/-- `Executor::Status`. -/
inductive Status
  | running
  | isStopping
  | stopped
  deriving DecidableEq, Repr

/-- The executor calls `pool_.Idle` next. -/
def Executor.atPoolIdle (x : Executor α) : Prop :=
  x.pc = .idlePool ∨ x.pc = .idling ∧ x.idle = some .execs

/-- What `Run` does next depends on `running_`, or sets it. -/
def Executor.Pc.consults (status : Status) : Executor.Pc α → Bool
  | .looping | .idleSize | .clearing => status == .isStopping
  | .releasing => true
  | _ => false

namespace ExecutorPool

/-- Where the destructor takes the executors from that it stops. -/
inductive Destructor.Phase
  | scheduler
  | busy
  | idle
  deriving DecidableEq, Repr

/-- Where `~ExecutorPool` is. -/
inductive Destructor
  /-- It has not been called. -/
  | alive
  | cleanExecs
  | cleanDelayTasks
  | takeScheduler
  /-- At the call of `Stop(true)`. -/
  | stop (phase : Destructor.Phase) (e : Nat)
  /-- In `cond_.wait` of `Stop`. -/
  | await (phase : Destructor.Phase) (e : Nat)
  /-- At the call of `pool_.Clean`. -/
  | clean
  /-- At the condition of the first loop of `Clean`. -/
  | busy
  /-- At that of the second one. -/
  | idle
  | deleteExecs
  | returned
  deriving DecidableEq, Repr

/-- What comes after a `Stop`. -/
@[simp] def Destructor.Phase.next : Destructor.Phase → Destructor
  | .scheduler => .clean
  | .busy => .busy
  | .idle => .idle

/-- A pool, with the `running_` of its executors and its destructor. -/
structure Destruction (α : Type) where
  pool : ExecutorPool α
  running : Nat → Status
  /-- The executor is out of `idle_`, and sets `running_` to `STOPPED` next. It has its `mutex_`. -/
  leaving : Nat → Bool
  destructor : Destructor
  /-- `temp` of `Pool::Clean`. -/
  temp : UInt32
  /-- Those that were still on their way to `idle_` when `Clean` has ended. -/
  missed : List Nat

/-- `Execute` refuses when the pool is destroyed. What gets to `execs_` then is a function that
`Schedule` has made. -/
def Refuses (w w' : ExecutorPool α) : Prop :=
  ∀ t task id, w.calls t = .outside → w'.calls t = .executePush task id →
    ∃ e taskId, t = .executor e ∧ (w.executors e).pc = .running (.execute task id) taskId

namespace Destruction

/-- The constructor. -/
def initial (max min : UInt64) : Destruction α where
  pool := .initial max min
  running := fun _ => .running
  leaving := fun _ => false
  destructor := .alive
  temp := 0
  missed := []

/-- The place of an executor in `Run`. -/
def pc (s : Destruction α) (e : Nat) : Executor.Pc α := (s.pool.executors e).pc

/-- `running_` of an executor is set. -/
def setRunning (s : Destruction α) (e : Nat) (status : Status) : Destruction α :=
  { s with running := Function.update s.running e status }

/-- An executor begins to leave `Run`, or has left. -/
def setLeaving (s : Destruction α) (e : Nat) (leaving : Bool) : Destruction α :=
  { s with leaving := Function.update s.leaving e leaving }

/-- `running_`, with an executor that leaves taken for stopped. -/
def status (s : Destruction α) (e : Nat) : Status :=
  if s.leaving e then .stopped else s.running e

/-- One step. -/
inductive Step : Destruction α → Event → Destruction α → Prop
  /-- Whatever does not depend on `running_`. -/
  | run {s : Destruction α} {ev : Event} {w : ExecutorPool α} (h : ExecutorPool.Step s.pool ev w)
      (hsame : ∀ e, (s.pc e).consults (s.running e) = true →
        w.executors e = s.pool.executors e)
      (hclients : s.destructor ≠ .alive → ∀ n, w.calls (.client n) = .outside)
      (hrefuses : s.destructor ≠ .alive → Refuses s.pool w) : Step s ev { s with pool := w }
  -- `Run`, where it looks at `running_`
  | wakesToStop {s : Destruction α} {e : Nat} (h : s.pc e = .waiting)
      (hrunning : s.running e = .isStopping) :
      Step s .other { s with pool := s.pool.goto e .looping }
  | loopEnds {s : Destruction α} {e : Nat} (h : s.pc e = .looping)
      (hrunning : s.running e = .isStopping) :
      Step s .other { s with pool := s.pool.goto e .idling }
  | refusedToStop {s : Destruction α} {e : Nat} (h : s.pc e = .idleSize)
      (hrunning : s.running e = .isStopping) (hsize : s.pool.delayTasks.size ≠ 0) :
      Step s (.looked e .delayTasks)
        { s with pool := { s.pool with mtx := none }.goto e .clearing }
  | agreedToStop {s : Destruction α} {e : Nat} (h : s.pc e = .idleSize)
      (hrunning : s.running e = .isStopping) (hsize : s.pool.delayTasks.size = 0) :
      Step s (.looked e .delayTasks)
        { s with pool := { s.pool with scheduler := none }.goto e .idlePool }
  | clearedToStop {s : Destruction α} {e : Nat} (h : s.pc e = .clearing)
      (hrunning : s.running e = .isStopping) :
      Step s .other
        { s with
          pool := s.pool.setExecutor e
            { s.pool.executors e with pc := .releasing, waits := none } }
  | released {s : Destruction α} {e : Nat} {pool : Pool} (h : s.pc e = .releasing)
      (hrelease : s.pool.pool.release e (s.running e == .isStopping) = (true, pool)) :
      Step s .other
        ({ s with pool := { s.pool with pool }.goto e .stopped }.setLeaving e true)
  | stopped {s : Destruction α} {e : Nat} (h : s.leaving e = true) :
      Step s .other ((s.setLeaving e false).setRunning e .stopped)
  | kept {s : Destruction α} {e : Nat} {pool : Pool} (h : s.pc e = .releasing)
      (hrelease : s.pool.pool.release e (s.running e == .isStopping) = (false, pool)) :
      Step s .other { s with pool := { s.pool with pool }.goto e .waiting }
  -- the destructor
  | destroy {s : Destruction α} (h : s.destructor = .alive)
      (hclients : ∀ n, s.pool.calls (.client n) = .outside) :
      Step s .other { s with destructor := .cleanExecs }
  | cleanExecs {s : Destruction α} (h : s.destructor = .cleanExecs) :
      Step s .other
        { s with
          pool := { s.pool with execs := s.pool.execs.map PriorityQueue.clean }
          destructor := .cleanDelayTasks }
  | cleanDelayTasks {s : Destruction α} (h : s.destructor = .cleanDelayTasks) :
      Step s .other
        { s with
          pool := { s.pool with delayTasks := s.pool.delayTasks.clean }
          destructor := .takeScheduler }
  | takeScheduler {s : Destruction α} (h : s.destructor = .takeScheduler)
      (hfree : s.pool.mtx = none) :
      Step s .other
        { s with
          pool := { s.pool with scheduler := none }
          destructor := s.pool.scheduler.elim .clean (.stop .scheduler) }
  | stop {s : Destruction α} {phase : Destructor.Phase} {e : Nat} (h : s.destructor = .stop phase e)
      (hfree : (s.pc e).unlocked = true) (hleft : s.leaving e = false) :
      Step s .other ({ s with destructor := .await phase e }.setRunning e .isStopping)
  | awaited {s : Destruction α} {phase : Destructor.Phase} {e : Nat}
      (h : s.destructor = .await phase e) (hrunning : s.running e = .stopped) :
      Step s .other { s with destructor := phase.next }
  | clean {s : Destruction α} (h : s.destructor = .clean) :
      Step s .other
        { s with
          pool := { s.pool with pool := { s.pool.pool with min := 0 } }
          temp := s.pool.pool.min
          destructor := .busy }
  | busyThere {s : Destruction α} {e : Nat} {rest : List Nat} (h : s.destructor = .busy)
      (hbusy : s.pool.pool.busy = e :: rest) :
      Step s .other { s with destructor := .stop .busy e }
  | busyNone {s : Destruction α} (h : s.destructor = .busy) (hbusy : s.pool.pool.busy = []) :
      Step s .other { s with destructor := .idle }
  -- the last busy executor is in the middle of `Idle`
  | busyMissed {s : Destruction α} {e : Nat} (h : s.destructor = .busy)
      (hbusy : s.pool.pool.busy = [e]) (hidle : (s.pool.executors e).atPoolIdle) :
      Step s .other { s with destructor := .idle }
  | idleThere {s : Destruction α} {e : Nat} {rest : List Nat} (h : s.destructor = .idle)
      (hidle : s.pool.pool.idle = e :: rest) :
      Step s .other { s with destructor := .stop .idle e }
  | idleNone {s : Destruction α} (h : s.destructor = .idle) (hidle : s.pool.pool.idle = []) :
      Step s .other
        { s with
          pool := { s.pool with pool := { s.pool.pool with min := s.temp } }
          destructor := .deleteExecs
          missed := s.pool.pool.busy }
  | deleteExecs {s : Destruction α} (h : s.destructor = .deleteExecs) :
      Step s .other { s with pool := { s.pool with execs := none }, destructor := .returned }

end Destruction

end ExecutorPool

/-! ### What a step does to the executors -/

/-- It has popped a task or is about to. -/
@[simp] def Executor.Pc.works : Executor.Pc α → Bool
  | .popping | .running _ _ | .finishing _ => true
  | _ => false

/-- What a step of an executor in `Run` does to it, apart from the ones that go idle or end. -/
structure Executor.Goes (status : Status) (x x' : Executor α) : Prop where
  stays : ¬ x.atPoolIdle
  there : status = .running → x.pc ≠ .waiting ∨ x.waits ≠ none
  stopped : x.pc ≠ .stopped ∧ x'.pc ≠ .stopped
  waits : x'.waits = none ∨ (x'.waits = x.waits ∧ x.pc ≠ .clearing)
  serves : status = .running → x'.pc.serves = true →
    x'.waits ≠ none ∨ (x.pc.serves = true ∧ x'.waits = x.waits)
  works : x'.pc.works = true →
    x.pc.works = true ∨ (status ≠ .isStopping ∧ x.pc.serves = true ∧ x.pc ≠ .clearing)
  pops : x'.pc = .popping → status ≠ .isStopping

namespace ExecutorPool

/-- What a step does to the executors and the pool while their `running_` stays. -/
inductive Act (running : Nat → Status) (w w' : ExecutorPool α) : Prop
  /-- Nothing. -/
  | quiet (hpool : w'.pool.nodes = w.pool.nodes) (hbusy : w'.pool.busy = w.pool.busy)
      (hmade : w'.made = w.made) (hexecutors : w'.executors = w.executors)
      (hbinds : ∀ t, (w'.calls t).binds = (w.calls t).binds)
  /-- An executor goes on. -/
  | goes (e : Nat) (x : Executor α) (hpool : w'.pool = w.pool) (hmade : w'.made = w.made)
      (hexecutors : w'.executors = Function.update w.executors e x)
      (hbinds : ∀ t, (w'.calls t).binds = (w.calls t).binds)
      (hgoes : (w.executors e).Goes (running e) x)
  /-- A call gets an executor. -/
  | got (t : Thread) (e : Nat) (force : Bool) (c : Call α) (hcall : w.calls t ≠ .outside)
      (hget : w.pool.get force w.made = (some e, w'.pool))
      (hmade : w'.made = if e = w.made then w.made + 1 else w.made)
      (hexecutors : w'.executors = w.executors)
      (hcalls : w'.calls = Function.update w.calls t c) (hbinds : c.binds = some e)
  /-- A call binds the executor that it got. -/
  | bound (t : Thread) (e : Nat) (q : QueueName) (c : Call α)
      (hgot : (w.calls t).binds = some e) (hpool : w'.pool = w.pool) (hmade : w'.made = w.made)
      (hexecutors : w'.executors = Function.update w.executors e ((w.executors e).bind q))
      (hcalls : w'.calls = Function.update w.calls t c) (hbinds : c.binds = none)
  /-- An executor goes idle. -/
  | idled (e : Nat) (hpool : w'.pool = w.pool.toIdle e) (hmade : w'.made = w.made)
      (hexecutors : w'.executors =
        Function.update w.executors e { w.executors e with pc := .clearing })
      (hcalls : w'.calls = w.calls)
      (hpc : (w.executors e).pc = .idling ∨ (w.executors e).pc = .idlePool)

variable {w w' : ExecutorPool α} {running : Nat → Status} {ev : Event} {t : Thread} {e : Nat}

theorem act_setCall {c : Call α} (hcall : (w.calls t).binds = none) (hc : c.binds = none)
    (hpool : w'.pool = w.pool) (hmade : w'.made = w.made) (hexecutors : w'.executors = w.executors)
    (hcalls : w'.calls = Function.update w.calls t c) : Act running w w' :=
  .quiet (hpool ▸ rfl) (hpool ▸ rfl) hmade hexecutors (fun u => hcalls ▸ binds_update hcall hc u)

/-- An executor that does not look at `running_` goes on, and keeps `waits_`. -/
theorem act_goto (pc : Executor.Pc α) (hstays : ¬ (w.executors e).atPoolIdle)
    (hbefore : (w.executors e).pc.serves = true) (hafter : pc.serves = true)
    (hworks : pc.works = true → (w.executors e).pc.works = true) (hpops : pc ≠ .popping)
    (hpool : w'.pool = w.pool) (hmade : w'.made = w.made)
    (hexecutors : w'.executors = Function.update w.executors e { w.executors e with pc })
    (hbinds : ∀ t, (w'.calls t).binds = (w.calls t).binds) : Act running w w' := by
  have hserves : ∀ {pc' : Executor.Pc α}, pc'.serves = true → pc' ≠ .waiting ∧ pc' ≠ .stopped ∧
      pc' ≠ .clearing := by
    intro pc' h
    cases pc' with
    | waiting | stopped | clearing => cases h
    | _ => exact ⟨nofun, nofun, nofun⟩
  obtain ⟨hwaiting, hstopped, hclearing⟩ := hserves hbefore
  refine .goes e { w.executors e with pc } hpool hmade hexecutors hbinds ?_
  exact ⟨hstays, fun _ => .inl hwaiting, ⟨hstopped, (hserves hafter).2.1⟩, .inr ⟨rfl, hclearing⟩,
    fun _ _ => .inr ⟨hbefore, rfl⟩, fun h => .inl (hworks h), fun h => absurd h hpops⟩

/-- An executor that `Run` sends elsewhere does not look at `running_`. -/
theorem not_consults {x : Executor α}
    (hsame : ∀ e, (w.executors e).pc.consults (running e) = true →
      w'.executors e = w.executors e)
    (hexecutors : w'.executors = Function.update w.executors e x)
    (hmoves : x.pc ≠ (w.executors e).pc) : (w.executors e).pc.consults (running e) = false := by
  rw [← Bool.not_eq_true]
  intro hconsults
  have hstays := hsame e hconsults
  rw [hexecutors, Function.update_self] at hstays
  exact hmoves (congrArg Executor.pc hstays)

theorem Step.act (hstep : Step w ev w')
    (hsame : ∀ e, (w.executors e).pc.consults (running e) = true →
      w'.executors e = w.executors e) : Act running w w' := by
  cases hstep with
  | tick hlater => exact .quiet rfl rfl rfl rfl (fun _ => rfl)
  | schedule task delay interval times hcall hmay =>
      exact act_setCall (by rw [hcall]; rfl) rfl rfl rfl rfl rfl
  | @execute t task hcall hmay =>
      unfold ExecutorPool.execute
      cases w.execs with
      | none => exact act_setCall (by rw [hcall]; rfl) rfl rfl rfl rfl rfl
      | some q => exact act_setCall (by rw [hcall]; rfl) rfl rfl rfl rfl rfl
  | schedulePush hcall => exact act_setCall (by rw [hcall]; rfl) rfl rfl rfl rfl rfl
  | scheduleLock hcall hfree => exact act_setCall (by rw [hcall]; rfl) rfl rfl rfl rfl rfl
  | schedulerThere hcall hthere => exact act_setCall (by rw [hcall]; rfl) rfl rfl rfl rfl rfl
  | scheduleGet hcall hnone hget =>
      exact .got _ _ true _ (by rw [hcall]; nofun) hget rfl rfl rfl rfl
  | scheduleBind hcall hfree =>
      exact .bound _ _ .delayTasks _ (by rw [hcall]; rfl) rfl rfl rfl rfl rfl
  | scheduleUnlock hcall => exact act_setCall (by rw [hcall]; rfl) rfl rfl rfl rfl rfl
  | executePush hcall hqueue => exact act_setCall (by rw [hcall]; rfl) rfl rfl rfl rfl rfl
  | executeGet hcall hget =>
      exact .got _ _ false _ (by rw [hcall]; nofun) hget rfl rfl rfl rfl
  | executeRefused hcall hget => exact act_setCall (by rw [hcall]; rfl) rfl rfl rfl rfl rfl
  | executeBind hcall hfree =>
      exact .bound _ _ .execs _ (by rw [hcall]; rfl) rfl rfl rfl rfl rfl
  | @wake e hpc hbound =>
      refine .goes e { w.executors e with pc := .looping } rfl rfl rfl (fun _ => rfl) ?_
      have hwaits := Option.isSome_iff_ne_none.mp hbound
      refine ⟨?_, fun _ => .inr hwaits, ⟨?_, nofun⟩, .inr ⟨rfl, ?_⟩, fun _ _ => .inl hwaits, nofun,
        nofun⟩
      all_goals
        obtain hpc | hpc := hpc
        all_goals simp [Executor.atPoolIdle, hpc]
  | @more e name q hpc hwaits hqueue hsize =>
      have hrunning : running e ≠ .isStopping := by
        intro hstopping
        have hnot := not_consults hsame rfl (by rw [hpc]; nofun)
        rw [hpc, hstopping] at hnot
        cases hnot
      refine .goes e { w.executors e with pc := .popping } rfl rfl rfl (fun _ => rfl) ?_
      have hserves : (w.executors e).pc.serves = true := by
        rw [hpc]
        rfl
      have hclearing : (w.executors e).pc ≠ .clearing := by
        rw [hpc]
        nofun
      exact ⟨by simp [Executor.atPoolIdle, hpc], fun _ => .inl (by rw [hpc]; nofun),
        ⟨by rw [hpc]; nofun, nofun⟩, .inr ⟨rfl, hclearing⟩, fun _ _ => .inr ⟨hserves, rfl⟩,
        fun _ => .inr ⟨hrunning, hserves, hclearing⟩, fun _ => hrunning⟩
  | @noMore e name q hpc hwaits hqueue hsize =>
      exact act_goto .idling (by simp [Executor.atPoolIdle, hpc]) (by rw [hpc]; rfl) rfl nofun nofun
        rfl rfl rfl (fun _ => rfl)
  | @unbound e hpc hwaits =>
      exact act_goto .idling (by simp [Executor.atPoolIdle, hpc]) (by rw [hpc]; rfl) rfl nofun nofun
        rfl rfl rfl (fun _ => rfl)
  | @pop e name q q' currentTask hpc hwaits hqueue hpop =>
      have hstays : ¬ (w.executors e).atPoolIdle := by simp [Executor.atPoolIdle, hpc]
      exact act_goto (.running currentTask.exec currentTask.taskId) hstays (by rw [hpc]; rfl) rfl
        (fun _ => by rw [hpc]; rfl) nofun (by cases name <;> rfl) (by cases name <;> rfl)
        (by cases name <;> rfl) (by cases name <;> exact fun _ => rfl)
  | @runExecute e func id taskId hpc hcalls =>
      have hnone : (w.calls (.executor e)).binds = none := by
        rw [hcalls]
        rfl
      exact act_goto (.running .nothing taskId) (by simp [Executor.atPoolIdle, hpc])
        (by rw [hpc]; rfl) rfl (fun _ => by rw [hpc]; rfl) nofun rfl rfl rfl
        (binds_update hnone rfl)
  | @ran e job taskId hpc hjob hcalls =>
      exact act_goto (.finishing taskId) (by simp [Executor.atPoolIdle, hpc])
        (by rw [hpc]; rfl) rfl (fun _ => by rw [hpc]; rfl) nofun rfl rfl rfl (fun _ => rfl)
  | @finish e name q taskId hpc hwaits hqueue =>
      have hstays : ¬ (w.executors e).atPoolIdle := by simp [Executor.atPoolIdle, hpc]
      exact act_goto .looping hstays (by rw [hpc]; rfl) rfl nofun nofun
        (by cases name <;> rfl) (by cases name <;> rfl) (by cases name <;> rfl)
        (by cases name <;> exact fun _ => rfl)
  | @idle e hpc hidle => exact .idled e rfl rfl rfl rfl (.inl hpc)
  | @idleLock e hpc hidle hfree =>
      exact act_goto .idleSize (by simp [Executor.atPoolIdle, hpc, hidle]) (by rw [hpc]; rfl) rfl
        nofun nofun rfl rfl rfl (fun _ => rfl)
  | @idleRefused e hpc hsize =>
      have hafter : (w.executors e).atWaitUntil.pc.works = false ∧
          (w.executors e).atWaitUntil.pc ≠ .stopped ∧
          (w.executors e).atWaitUntil.pc ≠ .popping := by
        unfold Executor.atWaitUntil
        split
        · exact ⟨rfl, nofun, nofun⟩
        · exact ⟨rfl, nofun, nofun⟩
      refine .goes e (w.executors e).atWaitUntil rfl rfl rfl (fun _ => rfl) ?_
      refine ⟨by simp [Executor.atPoolIdle, hpc], fun _ => .inl (by rw [hpc]; nofun),
        ⟨by rw [hpc]; nofun, hafter.2.1⟩, .inr ⟨rfl, by rw [hpc]; nofun⟩,
        fun _ _ => .inr ⟨by rw [hpc]; rfl, rfl⟩, ?_, fun h => absurd h hafter.2.2⟩
      intro hworks
      rw [hafter.1] at hworks
      cases hworks
  | @idleAgreed e hpc hsize =>
      exact act_goto .idlePool (by simp [Executor.atPoolIdle, hpc]) (by rw [hpc]; rfl) rfl nofun
        nofun rfl rfl rfl (fun _ => rfl)
  | @idlePool e hpc => exact .idled e rfl rfl rfl rfl (.inr hpc)
  | @clear e hpc =>
      refine .goes e { w.executors e with pc := .resting, waits := none } rfl rfl rfl
        (fun _ => rfl) ?_
      exact ⟨by simp [Executor.atPoolIdle, hpc], fun _ => .inl (by rw [hpc]; nofun),
        ⟨by rw [hpc]; nofun, nofun⟩, .inl rfl, nofun, nofun, nofun⟩
  | @timeOut e hpc hwaits =>
      refine .goes e { w.executors e with pc := .releasing } rfl rfl rfl (fun _ => rfl) ?_
      exact ⟨by simp [Executor.atPoolIdle, hpc], fun _ => .inl (by rw [hpc]; nofun),
        ⟨by rw [hpc]; nofun, nofun⟩, .inl hwaits, nofun, nofun, nofun⟩
  | @released e pool hpc hrelease =>
      have hnot := not_consults hsame rfl (by rw [hpc]; nofun)
      rw [hpc] at hnot
      cases hnot
  | @kept e pool hpc hrelease =>
      have hnot := not_consults hsame rfl (by rw [hpc]; nofun)
      rw [hpc] at hnot
      cases hnot

end ExecutorPool

end NativePreferences
