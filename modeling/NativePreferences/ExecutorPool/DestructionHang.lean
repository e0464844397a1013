import NativePreferences.ExecutorPool.DestructionInvariant

/-!
# NativePreferences.ExecutorPool.DestructionHang

**When the destructor of a pool does not return.** There are two ways in which its `Stop(true)`
waits for ever.

* `Stop` sets `running_` to `IS_STOPPING` whatever it was. If the executor has stopped in the
  meantime, by its timeout, nobody sets it to `STOPPED` again (`Overwritten`).
* A timer that runs when `delayTasks_` is cleared is queued again when it is finished. The
  executor of the timers then neither empties the queue, since it is to stop, nor goes idle, since
  the queue is not empty, and `Release` does not find a busy executor (`Circling`).

Neither state is ever left (`destructor_waits_for_stopped`, `destructor_waits_for_timer`), and both
are reached.
-/

namespace NativePreferences

open Lib

variable {α : Type}

/-- The executor is in the outer loop of `Run`, and has no task. -/
def Executor.Pc.circles : Executor.Pc α → Bool
  | .waiting | .looping | .idling | .idleSize | .clearing | .releasing => true
  | _ => false

/-- The executor serves no queue, and will not until it is bound. -/
def Executor.Rests (x : Executor α) : Prop :=
  x.pc = .clearing ∨ x.pc = .stopped ∨
    (x.waits = none ∧ (x.pc = .waiting ∨ x.pc = .resting ∨ x.pc = .releasing))

namespace ExecutorPool

variable {w w' : ExecutorPool α} {running : Nat → Status} {ev : Event} {t : Thread} {e : Nat}

namespace Destruction

variable {s s' : Destruction α} {phase : Destructor.Phase}

/-- The destructor waits for an executor that had stopped before it was told to. -/
structure Overwritten (s : Destruction α) (phase : Destructor.Phase) (e : Nat) : Prop where
  awaiting : s.destructor = .await phase e
  stopping : s.running e = .isStopping
  stopped : s.pc e = .stopped
  left : s.leaving e = false

/-- An executor goes on that has not stopped. -/
theorem Overwritten.goto (h : s.Overwritten phase e) {d : Nat} {x : Executor α}
    (hd : s.pc d ≠ .stopped) (hexecutors : w.executors = Function.update s.pool.executors d x) :
    Overwritten { s with pool := w } phase e := by
  refine ⟨h.awaiting, h.stopping, ?_, h.left⟩
  have hne : e ≠ d := by
    intro hed
    exact hd (hed ▸ h.stopped)
  show (w.executors e).pc = .stopped
  rw [hexecutors, Function.update_of_ne hne]
  exact h.stopped

theorem Overwritten.step (h : s.Overwritten phase e) (hstep : Step s ev s') :
    s'.Overwritten phase e := by
  have hd : ∀ {d : Destructor}, s.destructor = d → d ≠ .await phase e → False := by
    intro d hd hne
    exact hne (hd.symm.trans h.awaiting)
  cases hstep with
  | run hstep hsame hclients hrefuses =>
      exact ⟨h.awaiting, h.stopping, (hstep.act hsame).stopped h.stopped, h.left⟩
  | wakesToStop hpc => exact h.goto (by rw [hpc]; nofun) rfl
  | loopEnds hpc => exact h.goto (by rw [hpc]; nofun) rfl
  | refusedToStop hpc => exact h.goto (by rw [hpc]; nofun) rfl
  | agreedToStop hpc => exact h.goto (by rw [hpc]; nofun) rfl
  | clearedToStop hpc => exact h.goto (by rw [hpc]; nofun) rfl
  | @released d pool hpc hrelease =>
      have hnext := h.goto (w := { s.pool with pool }.goto d .stopped) (by rw [hpc]; nofun) rfl
      refine ⟨hnext.awaiting, hnext.stopping, hnext.stopped, ?_⟩
      have hne : e ≠ d := by
        intro hed
        rw [← hed, h.stopped] at hpc
        cases hpc
      exact (Function.update_of_ne hne _ _).trans h.left
  | @stopped d hleaving =>
      have hne : e ≠ d := by
        intro hed
        rw [← hed, h.left] at hleaving
        cases hleaving
      exact ⟨h.awaiting, (Function.update_of_ne hne _ _).trans h.stopping, h.stopped,
        (Function.update_of_ne hne _ _).trans h.left⟩
  | kept hpc => exact h.goto (by rw [hpc]; nofun) rfl
  | awaited h' hrunning =>
      obtain ⟨-, rfl⟩ := Destructor.await.inj (h'.symm.trans h.awaiting)
      rw [h.stopping] at hrunning
      cases hrunning
  | destroy h' => exact (hd h' nofun).elim
  | cleanExecs h' => exact (hd h' nofun).elim
  | cleanDelayTasks h' => exact (hd h' nofun).elim
  | takeScheduler h' => exact (hd h' nofun).elim
  | stop h' => exact (hd h' nofun).elim
  | clean h' => exact (hd h' nofun).elim
  | busyThere h' => exact (hd h' nofun).elim
  | busyNone h' => exact (hd h' nofun).elim
  | busyMissed h' => exact (hd h' nofun).elim
  | idleThere h' => exact (hd h' nofun).elim
  | idleNone h' => exact (hd h' nofun).elim
  | deleteExecs h' => exact (hd h' nofun).elim

/-- **A stopped executor is waited for in vain.** -/
theorem destructor_waits_for_stopped {ls : List Event} (h : s.Overwritten phase e)
    (hrun : Run Step s ls s') : s'.destructor = .await phase e := by
  have hend : s'.Overwritten phase e :=
    hrun.invariant (I := fun u => u.Overwritten phase e) (fun _ _ _ h hstep => h.step hstep) h
  exact hend.awaiting

/-- The executor goes idle after a task, and its time is over when `Clean` has found it. -/
theorem destructor_waits_for_stopped_reached :
    ∃ ls s, Run Step (initial 1 0 : Destruction Unit) ls s ∧
      ∀ ls' s', Run Step s ls' s' → s'.destructor = .await .idle 0 := by
  obtain ⟨ls, hstart⟩ := scheduled_reached 0
  have hwake := hstart.snoc (.run_alive (.wake (e := 0) (.inl rfl) rfl) rfl rfl (fun _ => rfl))
  have hmore := hwake.snoc
    (.run_alive (.more (e := 0) rfl rfl rfl (by decide)) rfl rfl (fun _ => rfl))
  have hpop := hmore.snoc (.run_alive (.pop (e := 0) rfl rfl rfl rfl) rfl rfl (fun _ => rfl))
  have hran := hpop.snoc
    (.run_alive (.ran (e := 0) rfl (fun _ _ => nofun) rfl) rfl rfl (fun _ => rfl))
  have hfinish := hran.snoc (.run_alive (.finish (e := 0) rfl rfl rfl) rfl rfl (fun _ => rfl))
  have hnoMore := hfinish.snoc
    (.run_alive (.noMore (e := 0) rfl rfl rfl (by decide)) rfl rfl (fun _ => rfl))
  have hlock := hnoMore.snoc
    (.run_alive (.idleLock (e := 0) rfl rfl rfl) rfl rfl (fun _ => rfl))
  have hagreed := hlock.snoc
    (.run_alive (.idleAgreed (e := 0) rfl (by decide)) rfl rfl (fun _ => rfl))
  have hidle := hagreed.snoc (.run_alive (.idlePool (e := 0) rfl) rfl rfl (fun _ => rfl))
  have hclear := hidle.snoc (.run_alive (.clear (e := 0) rfl) rfl rfl (fun _ => rfl))
  -- the destructor finds it at the head of `idle_`, and its time is over before `Stop`
  have hdestroy := hclear.snoc (.destroy rfl (fun _ => rfl))
  have hexecs := hdestroy.snoc (.cleanExecs rfl)
  have hdelay := hexecs.snoc (.cleanDelayTasks rfl)
  have htake := hdelay.snoc (.takeScheduler rfl rfl)
  have hclean := htake.snoc (.clean rfl)
  have hbusy := hclean.snoc (.busyNone rfl (by decide))
  have hthere := hbusy.snoc (.idleThere (e := 0) rfl rfl)
  have htimeOut := hthere.snoc (.run_first (.timeOut (e := 0) rfl rfl) rfl
    (fun _ => rfl) (fun _ _ => rfl) (fun _ t task id _ hpush => nomatch hpush))
  have hreleased := htimeOut.snoc (.released (e := 0) rfl rfl)
  have hstopped := hreleased.snoc (.stopped (e := 0) rfl)
  have hstop := hstopped.snoc (.stop (e := 0) rfl rfl rfl)
  exact ⟨_, _, hstop, fun ls' s' hrun => destructor_waits_for_stopped ⟨rfl, rfl, rfl, rfl⟩ hrun⟩

/-! ### A timer -/

/-- The destructor waits for the executor of the timers, which is to stop and has no task, while
there is a timer. All others rest, and nobody calls. -/
structure Circling (s : Destruction α) (phase : Destructor.Phase) (e : Nat) : Prop where
  awaiting : s.destructor = .await phase e
  stopping : s.running e = .isStopping
  left : s.leaving e = false
  circles : (s.pc e).circles = true
  idle : (s.pool.executors e).idle = some .delayTasks
  notIdle : e ∉ s.pool.pool.idle
  timer : s.pool.delayTasks.size ≠ 0
  rests : ∀ d, d ≠ e → (s.pool.executors d).Rests ∧ (s.running d = .isStopping → s.pc d = .stopped)
  outside : ∀ t, s.pool.calls t = .outside

namespace Circling

/-- Nobody runs a task, or has popped one. -/
theorem not_serving (h : s.Circling phase e) {d : Nat} {pc : Executor.Pc α}
    (hpc : (s.pool.executors d).pc = pc) (hcircles : pc.circles = false) (hstopped : pc ≠ .stopped)
    (hresting : pc ≠ .resting) : False := by
  by_cases hd : d = e
  · subst hd
    have hcircle := h.circles
    rw [Destruction.pc, hpc, hcircles] at hcircle
    cases hcircle
  · have hout : pc ≠ .clearing ∧ pc ≠ .waiting ∧ pc ≠ .releasing := by
      refine ⟨?_, ?_, ?_⟩
      all_goals
        intro hbad
        rw [hbad] at hcircles
        cases hcircles
    obtain hrest | hrest | ⟨-, hrest | hrest | hrest⟩ := (h.rests d hd).1
    · exact hout.1 (hpc.symm.trans hrest)
    · exact hstopped (hpc.symm.trans hrest)
    · exact hout.2.1 (hpc.symm.trans hrest)
    · exact hresting (hpc.symm.trans hrest)
    · exact hout.2.2 (hpc.symm.trans hrest)

/-- Only the executor of the timers is in `Run` where a queue is served. -/
theorem eq_of_pc (h : s.Circling phase e) {d : Nat} {pc : Executor.Pc α}
    (hpc : (s.pool.executors d).pc = pc)
    (hne : pc = .looping ∨ pc = .idling ∨ pc = .idleSize) : d = e := by
  by_contra hd
  obtain hrest | hrest | ⟨-, hrest | hrest | hrest⟩ := (h.rests d hd).1
  all_goals
    rw [hrest] at hpc
    rw [← hpc] at hne
    obtain hne | hne | hne := hne
    all_goals cases hne

/-- The executor of the timers goes on. -/
theorem goto (h : s.Circling phase e) {x : Executor α} (hpool : w.pool = s.pool.pool)
    (htasks : w.delayTasks = s.pool.delayTasks) (hcalls : w.calls = s.pool.calls)
    (hexecutors : w.executors = Function.update s.pool.executors e x)
    (hcircles : x.pc.circles = true) (hidle : x.idle = (s.pool.executors e).idle) :
    Circling { s with pool := w } phase e := by
  have hself : w.executors e = x := by rw [hexecutors, Function.update_self]
  refine ⟨h.awaiting, h.stopping, h.left, ?_, ?_, hpool ▸ h.notIdle, htasks ▸ h.timer, ?_,
    hcalls ▸ h.outside⟩
  · show (w.executors e).pc.circles = true
    rw [hself]
    exact hcircles
  · show (w.executors e).idle = _
    rw [hself, hidle]
    exact h.idle
  · intro d hd
    have hother : w.executors d = s.pool.executors d := by
      rw [hexecutors, Function.update_of_ne hd]
    show (w.executors d).Rests ∧ (_ → (w.executors d).pc = .stopped)
    rw [hother]
    exact h.rests d hd

/-- Another executor goes on, and rests. -/
theorem other (h : s.Circling phase e) {d : Nat} (hd : d ≠ e) {x : Executor α}
    (hidle : w.pool.idle ⊆ s.pool.pool.idle) (htasks : w.delayTasks = s.pool.delayTasks)
    (hcalls : w.calls = s.pool.calls)
    (hexecutors : w.executors = Function.update s.pool.executors d x) (hrests : x.Rests)
    (hstopped : s.running d = .isStopping → x.pc = .stopped) :
    Circling { s with pool := w } phase e := by
  have hself : w.executors e = s.pool.executors e := by
    rw [hexecutors, Function.update_of_ne (Ne.symm hd)]
  refine ⟨h.awaiting, h.stopping, h.left, ?_, ?_, fun hin => h.notIdle (hidle hin),
    htasks ▸ h.timer, ?_, hcalls ▸ h.outside⟩
  · show (w.executors e).pc.circles = true
    rw [hself]
    exact h.circles
  · show (w.executors e).idle = _
    rw [hself]
    exact h.idle
  · intro c hc
    show (w.executors c).Rests ∧ (_ → (w.executors c).pc = .stopped)
    by_cases hcd : c = d
    · rw [hcd, hexecutors, Function.update_self]
      exact ⟨hrests, hstopped⟩
    · rw [hexecutors, Function.update_of_ne hcd]
      exact h.rests c hc

theorem pool_step (h : s.Circling phase e) (hstep : ExecutorPool.Step s.pool ev w)
    (hsame : ∀ e, (s.pc e).consults (s.running e) = true → w.executors e = s.pool.executors e)
    (hclients : ∀ n, w.calls (.client n) = .outside) :
    Circling { s with pool := w } phase e := by
  have hidle : ∀ e job id, (s.pool.executors e).pc ≠ .running job id :=
    fun e job id hpc => h.not_serving hpc rfl (by simp) (by simp)
  -- where `Run` looks at `running_`, this machine does not step
  have hblocked : ∀ {d : Nat} {x : Executor α} {pc : Executor.Pc α},
      w.executors = Function.update s.pool.executors d x → (s.pool.executors d).pc = pc →
        x.pc ≠ pc → pc.consults (s.running d) = false := by
    intro d x pc hexecutors hpc hmoves
    subst hpc
    exact not_consults hsame hexecutors hmoves
  cases hstep with
  | tick hlater =>
      exact ⟨h.awaiting, h.stopping, h.left, h.circles, h.idle, h.notIdle, h.timer, h.rests,
        h.outside⟩
  | schedule task delay interval times hcall hmay =>
      exact (not_begins hmay hidle hclients rfl (by simp)).elim
  | @execute t task hcall hmay =>
      unfold ExecutorPool.execute at hclients
      split at hclients
      · exact (not_begins hmay hidle hclients rfl (by simp)).elim
      · exact (not_begins hmay hidle hclients rfl (by simp)).elim
  | schedulePush hcall => exact (not_call h.outside hcall (by simp)).elim
  | scheduleLock hcall => exact (not_call h.outside hcall (by simp)).elim
  | schedulerThere hcall => exact (not_call h.outside hcall (by simp)).elim
  | scheduleGet hcall => exact (not_call h.outside hcall (by simp)).elim
  | scheduleBind hcall => exact (not_call h.outside hcall (by simp)).elim
  | scheduleUnlock hcall => exact (not_call h.outside hcall (by simp)).elim
  | executePush hcall => exact (not_call h.outside hcall (by simp)).elim
  | executeGet hcall => exact (not_call h.outside hcall (by simp)).elim
  | executeRefused hcall => exact (not_call h.outside hcall (by simp)).elim
  | executeBind hcall => exact (not_call h.outside hcall (by simp)).elim
  | @wake d hpc hbound =>
      by_cases hd : d = e
      · subst hd
        exact h.goto rfl rfl rfl rfl rfl rfl
      · -- another one has nothing to wake up for
        obtain hrest | hrest | ⟨hnone, -⟩ := (h.rests d hd).1
        · rw [hrest] at hpc
          obtain hpc | hpc := hpc
          all_goals cases hpc
        · rw [hrest] at hpc
          obtain hpc | hpc := hpc
          all_goals cases hpc
        · rw [hnone] at hbound
          cases hbound
  | @more d name q hpc hwaits hqueue hsize =>
      have hnot := hblocked rfl hpc (by simp)
      rw [h.eq_of_pc hpc (.inl rfl), h.stopping] at hnot
      cases hnot
  | @noMore d name q hpc hwaits hqueue hsize =>
      have hnot := hblocked rfl hpc (by simp)
      rw [h.eq_of_pc hpc (.inl rfl), h.stopping] at hnot
      cases hnot
  | @unbound d hpc hwaits =>
      have hnot := hblocked rfl hpc (by simp)
      rw [h.eq_of_pc hpc (.inl rfl), h.stopping] at hnot
      cases hnot
  | pop hpc => exact (h.not_serving hpc rfl (by simp) (by simp)).elim
  | runExecute hpc => exact (h.not_serving hpc rfl (by simp) (by simp)).elim
  | ran hpc => exact (h.not_serving hpc rfl (by simp) (by simp)).elim
  | finish hpc => exact (h.not_serving hpc rfl (by simp) (by simp)).elim
  | @idle d hpc hworker =>
      rw [h.eq_of_pc hpc (.inr (.inl rfl)), h.idle] at hworker
      cases hworker
  | @idleLock d hpc htimer hfree =>
      obtain rfl := h.eq_of_pc hpc (.inr (.inl rfl))
      exact h.goto rfl rfl rfl rfl rfl rfl
  | @idleRefused d hpc hsize =>
      have hmoves : (s.pool.executors d).atWaitUntil.pc ≠ .idleSize := by
        unfold Executor.atWaitUntil
        split
        · simp
        · simp
      have hnot := hblocked rfl hpc hmoves
      rw [h.eq_of_pc hpc (.inr (.inr rfl)), h.stopping] at hnot
      cases hnot
  | idleAgreed hpc hsize => exact absurd hsize h.timer
  | idlePool hpc => exact (h.not_serving hpc rfl (by simp) (by simp)).elim
  | @clear d hpc =>
      have hnot := hblocked rfl hpc (by simp)
      have hd : d ≠ e := by
        intro hd
        rw [hd, h.stopping] at hnot
        cases hnot
      refine h.other hd (List.Subset.refl _) rfl rfl rfl (.inr (.inr ⟨rfl, .inr (.inl rfl)⟩)) ?_
      intro hstopping
      rw [hstopping] at hnot
      cases hnot
  | @timeOut d hpc hwaits =>
      have hd : d ≠ e := by
        intro hd
        have hcircle := h.circles
        rw [← hd, Destruction.pc, hpc] at hcircle
        cases hcircle
      refine h.other hd (List.Subset.refl _) rfl rfl rfl
        (.inr (.inr ⟨hwaits, .inr (.inr rfl)⟩)) ?_
      intro hstopping
      have hended := (h.rests d hd).2 hstopping
      rw [Destruction.pc, hpc] at hended
      cases hended
  | released hpc =>
      have hnot := hblocked rfl hpc (by simp)
      cases hnot
  | kept hpc =>
      have hnot := hblocked rfl hpc (by simp)
      cases hnot

theorem step (h : s.Circling phase e) (hstep : Step s ev s') : s'.Circling phase e := by
  have hd : ∀ {d : Destructor}, s.destructor = d → d ≠ .await phase e → False := by
    intro d hd hne
    exact hne (hd.symm.trans h.awaiting)
  -- nobody else is to stop
  have honly : ∀ {d : Nat} {pc : Executor.Pc α}, s.pc d = pc → pc ≠ .stopped →
      s.running d = .isStopping → d = e := by
    intro d pc hpc hstopped hstopping
    by_contra hne
    exact hstopped (hpc.symm.trans ((h.rests d hne).2 hstopping))
  cases hstep with
  | run hstep hsame hclients hrefuses =>
      exact h.pool_step hstep hsame (hclients (by rw [h.awaiting]; simp))
  | wakesToStop hpc hrunning =>
      obtain rfl := honly hpc (by simp) hrunning
      exact h.goto rfl rfl rfl rfl rfl rfl
  | loopEnds hpc hrunning =>
      obtain rfl := honly hpc (by simp) hrunning
      exact h.goto rfl rfl rfl rfl rfl rfl
  | refusedToStop hpc hrunning hsize =>
      obtain rfl := honly hpc (by simp) hrunning
      exact h.goto rfl rfl rfl rfl rfl rfl
  | agreedToStop hpc hrunning hsize => exact absurd hsize h.timer
  | clearedToStop hpc hrunning =>
      obtain rfl := honly hpc (by simp) hrunning
      exact h.goto rfl rfl rfl rfl rfl rfl
  | @released d pool hpc hrelease =>
      obtain ⟨hin, hidle, -⟩ := Pool.release_true hrelease
      have hne : d ≠ e := by
        intro hde
        exact h.notIdle (hde ▸ hin)
      have hsub : pool.idle ⊆ s.pool.pool.idle := by
        rw [hidle]
        exact List.erase_subset
      have hnext : Circling { s with pool := { s.pool with pool }.goto d .stopped } phase e :=
        h.other hne hsub rfl rfl rfl (.inr (.inl rfl)) (fun _ => rfl)
      exact ⟨hnext.awaiting, hnext.stopping,
        (Function.update_of_ne (Ne.symm hne) _ _).trans h.left, hnext.circles, hnext.idle,
        hnext.notIdle, hnext.timer, hnext.rests, hnext.outside⟩
  | @stopped d hleaving =>
      have hne : e ≠ d := by
        intro hed
        rw [← hed, h.left] at hleaving
        cases hleaving
      refine ⟨h.awaiting, (Function.update_of_ne hne _ _).trans h.stopping,
        (Function.update_of_ne hne _ _).trans h.left, h.circles, h.idle, h.notIdle, h.timer, ?_,
        h.outside⟩
      intro c hc
      refine ⟨(h.rests c hc).1, ?_⟩
      intro hstopping
      by_cases hcd : c = d
      · rw [hcd] at hstopping
        exact absurd ((Function.update_self d _ s.running).symm.trans hstopping) (by simp)
      · exact (h.rests c hc).2 ((Function.update_of_ne hcd _ _).symm.trans hstopping)
  | @kept d pool hpc hrelease =>
      have hpc : (s.pool.executors d).pc = .releasing := hpc
      have hpool : pool = s.pool.pool := Pool.release_false hrelease
      by_cases hne : d = e
      · subst hne
        exact h.goto hpool rfl rfl rfl rfl rfl
      · have hwaits : (s.pool.executors d).waits = none := by
          obtain hrest | hrest | ⟨hnone, -⟩ := (h.rests d hne).1
          · rw [hrest] at hpc
            cases hpc
          · rw [hrest] at hpc
            cases hpc
          · exact hnone
        have hsub : pool.idle ⊆ s.pool.pool.idle := by
          rw [hpool]
          exact List.Subset.refl _
        refine h.other hne hsub rfl rfl rfl (.inr (.inr ⟨hwaits, .inl rfl⟩)) ?_
        intro hstopping
        have hended := (h.rests d hne).2 hstopping
        rw [pc, hpc] at hended
        cases hended
  | awaited h' hrunning =>
      obtain ⟨-, rfl⟩ := Destructor.await.inj (h'.symm.trans h.awaiting)
      rw [h.stopping] at hrunning
      cases hrunning
  | destroy h' => exact (hd h' (by simp)).elim
  | cleanExecs h' => exact (hd h' (by simp)).elim
  | cleanDelayTasks h' => exact (hd h' (by simp)).elim
  | takeScheduler h' => exact (hd h' (by simp)).elim
  | stop h' => exact (hd h' (by simp)).elim
  | clean h' => exact (hd h' (by simp)).elim
  | busyThere h' => exact (hd h' (by simp)).elim
  | busyNone h' => exact (hd h' (by simp)).elim
  | busyMissed h' => exact (hd h' (by simp)).elim
  | idleThere h' => exact (hd h' (by simp)).elim
  | idleNone h' => exact (hd h' (by simp)).elim
  | deleteExecs h' => exact (hd h' (by simp)).elim

end Circling

/-- **A timer that is queued again is waited for in vain.** -/
theorem destructor_waits_for_timer {ls : List Event} (h : s.Circling phase e)
    (hrun : Run Step s ls s') : s'.destructor = .await phase e := by
  have hend : s'.Circling phase e :=
    hrun.invariant (I := fun u => u.Circling phase e) (fun _ _ _ h hstep => h.step hstep) h
  exact hend.awaiting

/-- The destructor begins while a timer runs. -/
theorem destructor_waits_for_timer_reached :
    ∃ ls s, Run Step (initial 1 0 : Destruction Unit) ls s ∧
      ∀ ls' s', Run Step s ls' s' → s'.destructor = .await .scheduler 0 := by
  obtain ⟨ls, hstart⟩ := scheduled_reached 5
  have hwake := hstart.snoc (.run_alive (.wake (e := 0) (.inl rfl) rfl) rfl rfl (fun _ => rfl))
  have hmore := hwake.snoc
    (.run_alive (.more (e := 0) rfl rfl rfl (by decide)) rfl rfl (fun _ => rfl))
  have hpop := hmore.snoc (.run_alive (.pop (e := 0) rfl rfl rfl rfl) rfl rfl (fun _ => rfl))
  -- the destructor begins while the task runs
  have hdestroy := hpop.snoc (.destroy rfl (fun _ => rfl))
  have hexecs := hdestroy.snoc (.cleanExecs rfl)
  have hdelay := hexecs.snoc (.cleanDelayTasks rfl)
  have htake := hdelay.snoc (.takeScheduler rfl rfl)
  have hstop := htake.snoc (.stop (e := 0) rfl rfl rfl)
  have hran := hstop.snoc (.run_first (.ran (e := 0) rfl (fun _ _ => nofun) rfl) rfl
    (fun _ => rfl) (fun _ _ => rfl) (fun _ t task id _ hpush => nomatch hpush))
  have hfinish := hran.snoc (.run_first (.finish (e := 0) rfl rfl rfl) rfl
    (fun _ => rfl) (fun _ _ => rfl) (fun _ t task id _ hpush => nomatch hpush))
  refine ⟨_, _, hfinish, fun ls' s' hrun => destructor_waits_for_timer ?_ hrun⟩
  refine ⟨rfl, rfl, rfl, rfl, rfl, by decide, by decide, ?_, fun _ => rfl⟩
  intro d hd
  cases d with
  | zero => exact absurd rfl hd
  | succ d => exact ⟨.inr (.inr ⟨rfl, .inl rfl⟩), nofun⟩

end Destruction

end ExecutorPool

end NativePreferences
