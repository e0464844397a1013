import NativePreferences.ExecutorPool.DestructionInvariant

/-!
# NativePreferences.ExecutorPool.DestructionEnd

**What the destructor of a pool leaves.** When it returns, both lists are empty and there is no
call. It has waited for the executors that it has stopped, but not for one that has left `idle_` by
its timeout: such an executor has yet to set `running_` to `STOPPED`, and nothing else happens any
more (`destructor_returned`). That holds if `Clean` has not looked at the lists while an executor
was on its way from one to the other; else that one is left alive (`destructor_misses`).

An executor that has been told to stop may end the task that it runs, and starts no other
(`stopping_starts_nothing`). A task starts when it is popped, with the `mutex_` of the executor; its
function may be entered after `Stop` has set `running_`.
-/

namespace NativePreferences

open Lib

variable {α : Type}

namespace ExecutorPool

variable {w : ExecutorPool α} {ev : Event} {t : Thread} {e : Nat}

namespace Destruction

variable {s s' : Destruction α}

/-! ### Afterwards -/

/-- The pool is gone. An executor that was made has stopped, or has ended by its timeout and is
about to set `running_`. Executors that were never made are as they are at first. -/
structure Over (s : Destruction α) : Prop where
  returned : s.destructor = .returned
  nodes : s.pool.pool.nodes = []
  ended : ∀ e < s.pool.made, s.pc e = .stopped ∧
    s.running e = if s.leaving e then .running else .stopped
  fresh : ∀ e, s.pool.made ≤ e →
    s.pool.executors e = .fresh ∧ s.running e = .running ∧ s.leaving e = false
  outside : ∀ t, s.pool.calls t = .outside

/-- Since `s`, time has passed, and executors that were about to set `running_` may have done so. -/
structure Since (s s' : Destruction α) : Prop where
  pool : ∃ later, s'.pool = { s.pool with now := later }
  destructor : s'.destructor = s.destructor
  temp : s'.temp = s.temp
  missed : s'.missed = s.missed
  executors : ∀ e, (s'.running e = s.running e ∧ s'.leaving e = s.leaving e) ∨
    (s.leaving e = true ∧ s'.running e = .stopped ∧ s'.leaving e = false)

theorem Since.refl (s : Destruction α) : s.Since s :=
  ⟨⟨s.pool.now, rfl⟩, rfl, rfl, rfl, fun _ => .inl ⟨rfl, rfl⟩⟩

theorem Since.trans {s'' : Destruction α} (h : s.Since s') (h' : s'.Since s'') : s.Since s'' := by
  obtain ⟨later, hpool⟩ := h.pool
  obtain ⟨later', hpool'⟩ := h'.pool
  refine ⟨⟨later', by rw [hpool', hpool]⟩, h'.destructor.trans h.destructor,
    h'.temp.trans h.temp, h'.missed.trans h.missed, ?_⟩
  intro e
  rcases h.executors e with ⟨hrunning, hleaving⟩ | ⟨hleaving, hstopped, hleft⟩
  · rw [← hrunning, ← hleaving]
    exact h'.executors e
  · rcases h'.executors e with ⟨hrunning', hleaving'⟩ | ⟨hagain, -, -⟩
    · exact .inr ⟨hleaving, hrunning'.trans hstopped, hleaving'.trans hleft⟩
    · exact absurd (hleft.symm.trans hagain) (by simp)

theorem Lives.over (h : s.Lives) (hreturned : s.destructor = .returned) (hmissed : s.missed = []) :
    s.Over where
  returned := hreturned
  nodes := h.noNodes (by rw [hreturned]; rfl) hmissed
  ended e he := by
    have hpc : s.pc e = .stopped := by
      by_contra hpc
      have hin := (h.standing.stands e).linked he hpc
      rw [h.noNodes (by rw [hreturned]; rfl) hmissed] at hin
      cases hin
    refine ⟨hpc, ?_⟩
    -- the destructor has waited for each that it has told to stop
    have htold : s.running e ≠ .isStopping := by
      intro hstopping
      obtain ⟨phase, hawait⟩ := h.told e hstopping
      exact absurd (hreturned.symm.trans hawait) (by simp)
    have hlive : s.leaving e = false → s.running e ≠ .running := by
      intro hleft hrunning
      exact (h.standing.stands e).status ((status_of_not_leaving hleft).trans hrunning) hpc
    cases hleaving : s.leaving e with
    | true =>
        have hnot := (h.leaves e hleaving).2
        cases hrunning : s.running e with
        | running => rfl
        | isStopping => exact absurd hrunning htold
        | stopped => exact absurd hrunning hnot
    | false =>
        cases hrunning : s.running e with
        | running => exact absurd hrunning (hlive hleaving)
        | isStopping => exact absurd hrunning htold
        | stopped => rfl
  fresh e he := by
    obtain ⟨hfresh, hstatus⟩ := h.standing.fresh e he
    have hleft : s.leaving e = false := by
      rw [← Bool.not_eq_true]
      intro hleaving
      exact absurd ((status_of_leaving hleaving).symm.trans hstatus) (by simp)
    exact ⟨hfresh, (status_of_not_leaving hleft).symm.trans hstatus, hleft⟩
  outside := calls_outside h.standing h.calling (h.clients (by rw [hreturned]; nofun))
    (h.retiring (by rw [hreturned]; rfl))

namespace Over

/-- An executor has stopped, or waits and has never been bound. -/
theorem pc_cases (h : s.Over) (e : Nat) :
    s.pc e = .stopped ∨ (s.pc e = .waiting ∧ (s.pool.executors e).waits = none ∧
      s.running e = .running) := by
  by_cases he : e < s.pool.made
  · exact .inl (h.ended e he).1
  · obtain ⟨hfresh, hrunning, -⟩ := h.fresh e (Nat.le_of_not_lt he)
    refine .inr ⟨?_, ?_, hrunning⟩
    · rw [pc, hfresh]
      rfl
    · rw [hfresh]
      rfl

theorem not_pc (h : s.Over) {pc : Executor.Pc α} (hpc : (s.pool.executors e).pc = pc)
    (hstopped : pc ≠ .stopped) (hwaiting : pc ≠ .waiting) : False := by
  obtain hend | ⟨hwait, -, -⟩ := h.pc_cases e
  · exact hstopped (hpc.symm.trans hend)
  · exact hwaiting (hpc.symm.trans hwait)

/-- The pool itself lets time pass. -/
theorem pool_step (h : s.Over) (hstep : ExecutorPool.Step s.pool ev w)
    (hclients : ∀ n, w.calls (.client n) = .outside) :
    ∃ later, w = { s.pool with now := later } := by
  have hidle : ∀ e job id, (s.pool.executors e).pc ≠ .running job id :=
    fun e job id hpc => h.not_pc hpc (by simp) (by simp)
  cases hstep with
  | tick hlater => exact ⟨_, rfl⟩
  | schedule task delay interval times hcall hmay =>
      exact (not_begins hmay hidle hclients rfl (by simp)).elim
  | @execute t task hcall hmay =>
      unfold ExecutorPool.execute at hclients
      split at hclients
      · exact (not_begins hmay hidle hclients rfl (by simp)).elim
      · exact (not_begins hmay hidle hclients rfl (by simp)).elim
  | schedulePush hcall => exact (not_call h.outside hcall (by simp)).elim
  | scheduleLock hcall => exact (not_call h.outside hcall (by simp)).elim
  | schedulerThere hcall => exact (not_call h.outside hcall (by simp)).elim
  | scheduleGet hcall => exact (not_call h.outside hcall (by simp)).elim
  | scheduleBind hcall => exact (not_call h.outside hcall (by simp)).elim
  | scheduleUnlock hcall => exact (not_call h.outside hcall (by simp)).elim
  | executePush hcall => exact (not_call h.outside hcall (by simp)).elim
  | executeGet hcall => exact (not_call h.outside hcall (by simp)).elim
  | executeRefused hcall => exact (not_call h.outside hcall (by simp)).elim
  | executeBind hcall => exact (not_call h.outside hcall (by simp)).elim
  | @wake e hpc hbound =>
      obtain hpc | hpc := hpc
      · obtain hend | ⟨-, hwaits, -⟩ := h.pc_cases e
        · rw [pc, hpc] at hend
          cases hend
        · rw [hwaits] at hbound
          cases hbound
      · exact (h.not_pc hpc (by simp) (by simp)).elim
  | more hpc => exact (h.not_pc hpc (by simp) (by simp)).elim
  | noMore hpc => exact (h.not_pc hpc (by simp) (by simp)).elim
  | unbound hpc => exact (h.not_pc hpc (by simp) (by simp)).elim
  | pop hpc => exact (h.not_pc hpc (by simp) (by simp)).elim
  | runExecute hpc => exact (h.not_pc hpc (by simp) (by simp)).elim
  | ran hpc => exact (h.not_pc hpc (by simp) (by simp)).elim
  | finish hpc => exact (h.not_pc hpc (by simp) (by simp)).elim
  | idle hpc => exact (h.not_pc hpc (by simp) (by simp)).elim
  | idleLock hpc => exact (h.not_pc hpc (by simp) (by simp)).elim
  | idleRefused hpc => exact (h.not_pc hpc (by simp) (by simp)).elim
  | idleAgreed hpc => exact (h.not_pc hpc (by simp) (by simp)).elim
  | idlePool hpc => exact (h.not_pc hpc (by simp) (by simp)).elim
  | clear hpc => exact (h.not_pc hpc (by simp) (by simp)).elim
  | timeOut hpc => exact (h.not_pc hpc (by simp) (by simp)).elim
  | released hpc => exact (h.not_pc hpc (by simp) (by simp)).elim
  | kept hpc => exact (h.not_pc hpc (by simp) (by simp)).elim

/-- Time passes, or an executor sets `running_`. -/
theorem step (h : s.Over) (hstep : Step s ev s') : s.Since s' := by
  have hd : ∀ {d : Destructor}, s.destructor = d → d ≠ .returned → False := by
    intro d hd hne
    exact hne (hd.symm.trans h.returned)
  cases hstep with
  | run hstep hsame hclients hrefuses =>
      obtain ⟨later, rfl⟩ := h.pool_step hstep (hclients (by rw [h.returned]; simp))
      exact ⟨⟨later, rfl⟩, rfl, rfl, rfl, fun _ => .inl ⟨rfl, rfl⟩⟩
  | @stopped e hleaving =>
      refine ⟨⟨s.pool.now, rfl⟩, rfl, rfl, rfl, ?_⟩
      intro d
      by_cases hd : d = e
      · rw [hd]
        exact .inr ⟨hleaving, Function.update_self _ _ _, Function.update_self _ _ _⟩
      · exact .inl ⟨Function.update_of_ne hd _ _, Function.update_of_ne hd _ _⟩
  | @wakesToStop e hpc hrunning =>
      obtain hend | ⟨-, -, hlive⟩ := h.pc_cases e
      · rw [hpc] at hend
        cases hend
      · rw [hlive] at hrunning
        cases hrunning
  | loopEnds hpc => exact (h.not_pc hpc (by simp) (by simp)).elim
  | refusedToStop hpc => exact (h.not_pc hpc (by simp) (by simp)).elim
  | agreedToStop hpc => exact (h.not_pc hpc (by simp) (by simp)).elim
  | clearedToStop hpc => exact (h.not_pc hpc (by simp) (by simp)).elim
  | released hpc => exact (h.not_pc hpc (by simp) (by simp)).elim
  | kept hpc => exact (h.not_pc hpc (by simp) (by simp)).elim
  | destroy h' => exact (hd h' (by simp)).elim
  | cleanExecs h' => exact (hd h' (by simp)).elim
  | cleanDelayTasks h' => exact (hd h' (by simp)).elim
  | takeScheduler h' => exact (hd h' (by simp)).elim
  | stop h' => exact (hd h' (by simp)).elim
  | awaited h' => exact (hd h' (by simp)).elim
  | clean h' => exact (hd h' (by simp)).elim
  | busyThere h' => exact (hd h' (by simp)).elim
  | busyNone h' => exact (hd h' (by simp)).elim
  | busyMissed h' => exact (hd h' (by simp)).elim
  | idleThere h' => exact (hd h' (by simp)).elim
  | idleNone h' => exact (hd h' (by simp)).elim
  | deleteExecs h' => exact (hd h' (by simp)).elim

/-- The pool stays gone. -/
theorem since (h : s.Over) (hsince : s.Since s') : s'.Over := by
  obtain ⟨later, hpool⟩ := hsince.pool
  have hexecutors : s'.pool.executors = s.pool.executors := by rw [hpool]
  have hmade : s'.pool.made = s.pool.made := by rw [hpool]
  refine ⟨hsince.destructor.trans h.returned, by rw [hpool]; exact h.nodes, ?_, ?_,
    by rw [hpool]; exact h.outside⟩
  · intro e he
    obtain ⟨hpc, hrunning⟩ := h.ended e (hmade ▸ he)
    refine ⟨(congrArg (fun x => (x e).pc) hexecutors).trans hpc, ?_⟩
    rcases hsince.executors e with ⟨hsame, hleaving⟩ | ⟨-, hstopped, hleft⟩
    · rw [hsame, hleaving]
      exact hrunning
    · rw [hstopped, hleft]
      rfl
  · intro e he
    obtain ⟨hfresh, hrunning, hleft⟩ := h.fresh e (hmade ▸ he)
    rcases hsince.executors e with ⟨hsame, hleaving⟩ | ⟨hleaving, -, -⟩
    · exact ⟨(congrFun hexecutors e).trans hfresh, hsame.trans hrunning, hleaving.trans hleft⟩
    · exact absurd (hleft.symm.trans hleaving) (by simp)

end Over

/-- **When the destructor has returned** and has missed nobody, the lists are empty, there is no
call, and each executor that was ever made has stopped or has left the pool by its timeout and has
only `running_` to set. Whatever the threads do then, time passes and such executors stop, and
nothing else happens. -/
theorem destructor_returned {max min : UInt64} {ls ls' : List Event}
    (hrun : Run Step (initial max min : Destruction α) ls s) (hreturned : s.destructor = .returned)
    (hmissed : s.missed = []) (hrun' : Run Step s ls' s') : s.Over ∧ s.Since s' := by
  have hover : s.Over := ((lives_initial max min).run hrun).over hreturned hmissed
  refine ⟨hover, ?_⟩
  refine hrun'.invariant (I := fun u => s.Since u) ?_ (Since.refl s)
  intro u ev u' hu hstep
  exact hu.trans ((hover.since hu).step hstep)

/-- The executor has run a task and has left `idle_` by its timeout, and the destructor returns
before it sets `running_`. -/
theorem destructor_returned_after_task :
    ∃ s : Destruction Unit, s.pool.made = 1 ∧ s.leaving 0 = true ∧ s.Over := by
  obtain ⟨ls, hstart⟩ := scheduled_reached 0
  have hwake := hstart.snoc (.run_alive (.wake (e := 0) (.inl rfl) rfl) rfl rfl (fun _ => rfl))
  have hmore := hwake.snoc
    (.run_alive (.more (e := 0) rfl rfl rfl (by decide)) rfl rfl (fun _ => rfl))
  have hpop := hmore.snoc (.run_alive (.pop (e := 0) rfl rfl rfl rfl) rfl rfl (fun _ => rfl))
  have hran := hpop.snoc
    (.run_alive (.ran (e := 0) rfl (fun _ _ => nofun) rfl) rfl rfl (fun _ => rfl))
  have hfinish := hran.snoc (.run_alive (.finish (e := 0) rfl rfl rfl) rfl rfl (fun _ => rfl))
  have hnoMore := hfinish.snoc
    (.run_alive (.noMore (e := 0) rfl rfl rfl (by decide)) rfl rfl (fun _ => rfl))
  have hlock := hnoMore.snoc
    (.run_alive (.idleLock (e := 0) rfl rfl rfl) rfl rfl (fun _ => rfl))
  have hagreed := hlock.snoc
    (.run_alive (.idleAgreed (e := 0) rfl (by decide)) rfl rfl (fun _ => rfl))
  have hidle := hagreed.snoc (.run_alive (.idlePool (e := 0) rfl) rfl rfl (fun _ => rfl))
  have hclear := hidle.snoc (.run_alive (.clear (e := 0) rfl) rfl rfl (fun _ => rfl))
  have htimeOut := hclear.snoc (.run_alive (.timeOut (e := 0) rfl rfl) rfl rfl (fun _ => rfl))
  have hreleased := htimeOut.snoc (.released (e := 0) rfl rfl)
  have hdestroy := hreleased.snoc (.destroy rfl (fun _ => rfl))
  have hexecs := hdestroy.snoc (.cleanExecs rfl)
  have hdelay := hexecs.snoc (.cleanDelayTasks rfl)
  have htake := hdelay.snoc (.takeScheduler rfl rfl)
  have hclean := htake.snoc (.clean rfl)
  have hbusy := hclean.snoc (.busyNone rfl (by decide))
  have hnone := hbusy.snoc (.idleNone rfl (by decide))
  have hdelete := hnone.snoc (.deleteExecs rfl)
  exact ⟨_, rfl, rfl, (destructor_returned hdelete rfl rfl .nil).1⟩

/-- `Clean` looks at both lists while the worker is in the middle of `pool_.Idle`. The destructor
returns, and the worker goes on. -/
theorem destructor_misses :
    ∃ ls, ∃ s : Destruction Unit, Run Step (initial 2 0) ls s ∧ s.destructor = .returned ∧
      s.missed = [0] ∧ s.pc 0 = .idling ∧ s.running 0 = .running := by
  have hstart : Run Step (initial 2 0 : Destruction Unit) [] (initial 2 0) := .nil
  have hcall := hstart.snoc
    (.run_alive (.execute (t := .client 0) () rfl trivial) rfl rfl (fun _ => rfl))
  have hpush := hcall.snoc
    (.run_alive (.executePush (t := .client 0) rfl rfl) rfl rfl (fun _ => rfl))
  have hget := hpush.snoc (.run_alive (.executeGet (t := .client 0) rfl rfl) rfl rfl (fun _ => rfl))
  have hbind := hget.snoc
    (.run_alive (.executeBind (t := .client 0) rfl rfl) rfl rfl (fun _ => rfl))
  have hwake := hbind.snoc (.run_alive (.wake (e := 0) (.inl rfl) rfl) rfl rfl (fun _ => rfl))
  have hmore := hwake.snoc
    (.run_alive (.more (e := 0) rfl rfl rfl (by decide)) rfl rfl (fun _ => rfl))
  have hpop := hmore.snoc (.run_alive (.pop (e := 0) rfl rfl rfl rfl) rfl rfl (fun _ => rfl))
  have hran := hpop.snoc
    (.run_alive (.ran (e := 0) rfl (fun _ _ => nofun) rfl) rfl rfl (fun _ => rfl))
  have hfinish := hran.snoc (.run_alive (.finish (e := 0) rfl rfl rfl) rfl rfl (fun _ => rfl))
  have hnoMore := hfinish.snoc
    (.run_alive (.noMore (e := 0) rfl rfl rfl (by decide)) rfl rfl (fun _ => rfl))
  have hdestroy := hnoMore.snoc (.destroy rfl (by
    intro n
    cases n with
    | zero => rfl
    | succ n => rfl))
  have hexecs := hdestroy.snoc (.cleanExecs rfl)
  have hdelay := hexecs.snoc (.cleanDelayTasks rfl)
  have htake := hdelay.snoc (.takeScheduler rfl rfl)
  have hclean := htake.snoc (.clean rfl)
  have hbusy := hclean.snoc (.busyMissed (e := 0) rfl rfl (.inr ⟨rfl, rfl⟩))
  have hnone := hbusy.snoc (.idleNone rfl (by decide))
  have hdelete := hnone.snoc (.deleteExecs rfl)
  exact ⟨_, _, hdelete, rfl, rfl, rfl, rfl⟩

/-! ### Tasks -/

/-- `running_` does not become `RUNNING` again. -/
theorem Step.not_running (hstep : Step s ev s') (hrunning : s.running e ≠ .running) :
    s'.running e ≠ .running := by
  have hset : ∀ (d : Nat) (status : Status), status ≠ .running →
      Function.update s.running d status e ≠ .running := by
    intro d status hstatus
    by_cases hd : e = d
    · rw [hd, Function.update_self]
      exact hstatus
    · rw [Function.update_of_ne hd]
      exact hrunning
  cases hstep with
  | stopped => exact hset _ _ nofun
  | stop => exact hset _ _ nofun
  | _ => exact hrunning

/-- Only an executor whose `running_` is `RUNNING` starts a task. -/
theorem Step.started_running {id : TaskId} (hstep : Step s (.started e id) s') (h : s.Lives) :
    s.running e = .running := by
  cases hstep with
  | run hstep =>
      cases hstep with
      | pop hpc =>
          have hnot : s.pc e ≠ .stopped := by
            simp [pc, hpc]
          rw [← h.status_eq hnot]
          refine (h.standing.stands e).running_of_ne ?_ hnot
          exact fun hstopping => (h.standing.stands e).pops hstopping hpc

/-- **An executor that has been told to stop starts nothing.** This holds as soon as `Stop` has set
`running_`, in every run. The task that has been popped before is the last one. -/
theorem stopping_starts_nothing {max min : UInt64} {ls ls' : List Event} {id : TaskId}
    (hrun : Run Step (initial max min : Destruction α) ls s) (hstopping : s.running e ≠ .running)
    (hrun' : Run Step s ls' s') : .started e id ∉ ls' := by
  have hlives := (lives_initial max min).run hrun
  have hall : (s'.Lives ∧ s'.running e ≠ .running) ∧ .started e id ∉ ls' := by
    refine hrun'.invariant_history
      (I := fun hist u => (u.Lives ∧ u.running e ≠ .running) ∧ .started e id ∉ hist) ?_ []
      ⟨⟨hlives, hstopping⟩, List.not_mem_nil⟩
    intro hist u ev u' hu hstep
    refine ⟨⟨hu.1.1.step hstep, hstep.not_running hu.1.2⟩, ?_⟩
    rw [List.mem_append, List.mem_singleton]
    intro hstarted
    obtain hstarted | rfl := hstarted
    · exact hu.2 hstarted
    · exact hu.1.2 (hstep.started_running hu.1.1)
  exact hall.2

/-- An executor is told to stop while it runs a timer. -/
theorem stopping_starts_nothing_timer :
    ∃ ls s, Run Step (initial 1 0 : Destruction Unit) ls s ∧ s.pc 0 = .running (.user ()) 1 ∧
      ∀ ls' s' id, Run Step s ls' s' → .started 0 id ∉ ls' := by
  obtain ⟨ls, hstart⟩ := scheduled_reached 5
  have hwake := hstart.snoc (.run_alive (.wake (e := 0) (.inl rfl) rfl) rfl rfl (fun _ => rfl))
  have hmore := hwake.snoc
    (.run_alive (.more (e := 0) rfl rfl rfl (by decide)) rfl rfl (fun _ => rfl))
  have hpop := hmore.snoc (.run_alive (.pop (e := 0) rfl rfl rfl rfl) rfl rfl (fun _ => rfl))
  have hdestroy := hpop.snoc (.destroy rfl (fun _ => rfl))
  have hexecs := hdestroy.snoc (.cleanExecs rfl)
  have hdelay := hexecs.snoc (.cleanDelayTasks rfl)
  have htake := hdelay.snoc (.takeScheduler rfl rfl)
  have hstop := htake.snoc (.stop (e := 0) rfl rfl rfl)
  exact ⟨_, _, hstop, rfl, fun _ _ _ hrun' => stopping_starts_nothing hstop nofun hrun'⟩

end Destruction

end ExecutorPool

end NativePreferences
