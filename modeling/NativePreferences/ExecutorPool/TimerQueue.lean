import NativePreferences.ExecutorPool.Places

/-!
# NativePreferences.ExecutorPool.TimerQueue

**A scheduled task is never stranded.** `mtx_` is held by one section at a time (`Locked`), and
`scheduler_` is changed with it only. So `scheduler_` names the executor that serves
`delayTasks_`, from the `Get` of `Schedule` to the moment when that executor has found the queue
empty, and where the queue is not empty it names one, or a call of `Schedule` is still to look
whether it does (`Timed`).
-/

namespace NativePreferences

open Lib

variable {α : Type}

/-- The `idle_` of the timer's executor holds `mtx_` here. -/
def Executor.Pc.holdsMtx : Executor.Pc α → Bool
  | .idleSize | .idlePool => true
  | _ => false

namespace ExecutorPool

variable {w w' : ExecutorPool α} {ev : Event} {t : Thread} {e : Nat}

/-! ### The mutex -/

/-- `Schedule` holds `mtx_` here. -/
def Call.holdsMtx : Call α → Bool
  | .scheduleTest _ | .scheduleBind _ _ | .scheduleUnlock _ => true
  | _ => false

/-- `mtx_` is where those are that believe to hold it. -/
structure Locked (w : ExecutorPool α) : Prop where
  call : ∀ t, (w.calls t).holdsMtx = true → w.mtx = some (.schedule t)
  idle : ∀ e, (w.executors e).pc.holdsMtx = true → w.mtx = some (.idle e)

theorem holds_setCall {c : Call α} (hc : c.holdsMtx = true → (w.calls t).holdsMtx = true)
    (u : Thread) (hu : (Function.update w.calls t c u).holdsMtx = true) :
    (w.calls u).holdsMtx = true := by
  by_cases hut : u = t
  · rw [hut, Function.update_self] at hu
    rw [hut]
    exact hc hu
  · rw [Function.update_of_ne hut] at hu
    exact hu

theorem holds_setExecutor {x : Executor α}
    (hx : x.pc.holdsMtx = true → (w.executors e).pc.holdsMtx = true) (d : Nat)
    (hd : (Function.update w.executors e x d).pc.holdsMtx = true) :
    (w.executors d).pc.holdsMtx = true := by
  by_cases hde : d = e
  · rw [hde, Function.update_self] at hd
    rw [hde]
    exact hx hd
  · rw [Function.update_of_ne hde] at hd
    exact hd

/-- A step that leaves `mtx_` alone brings nobody into a section. -/
theorem Locked.keep (h : w.Locked) (hmtx : w'.mtx = w.mtx)
    (hcalls : ∀ t, (w'.calls t).holdsMtx = true → (w.calls t).holdsMtx = true)
    (hpcs : ∀ e, (w'.executors e).pc.holdsMtx = true → (w.executors e).pc.holdsMtx = true) :
    w'.Locked where
  call t ht := hmtx.trans (h.call t (hcalls t ht))
  idle e he := hmtx.trans (h.idle e (hpcs e he))

/-- A call takes `mtx_`. -/
theorem Locked.take_call (h : w.Locked) (hfree : w.mtx = none) {c : Call α}
    (hmtx : w'.mtx = some (.schedule t)) (hcalls : w'.calls = Function.update w.calls t c)
    (hexecutors : w'.executors = w.executors) : w'.Locked where
  call u hu := by
    by_cases hut : u = t
    · rw [hut, hmtx]
    · rw [hcalls, Function.update_of_ne hut] at hu
      exact nomatch hfree.symm.trans (h.call u hu)
  idle d hd := by
    rw [hexecutors] at hd
    exact nomatch hfree.symm.trans (h.idle d hd)

/-- An executor takes `mtx_`. -/
theorem Locked.take_idle (h : w.Locked) (hfree : w.mtx = none) {x : Executor α}
    (hmtx : w'.mtx = some (.idle e)) (hcalls : w'.calls = w.calls)
    (hexecutors : w'.executors = Function.update w.executors e x) : w'.Locked where
  call u hu := by
    rw [hcalls] at hu
    exact nomatch hfree.symm.trans (h.call u hu)
  idle d hd := by
    by_cases hde : d = e
    · rw [hde, hmtx]
    · rw [hexecutors, Function.update_of_ne hde] at hd
      exact nomatch hfree.symm.trans (h.idle d hd)

/-- A call gives `mtx_` back. -/
theorem Locked.release_call (h : w.Locked) (ht : (w.calls t).holdsMtx = true) {c : Call α}
    (hc : c.holdsMtx = false) (hcalls : w'.calls = Function.update w.calls t c)
    (hexecutors : w'.executors = w.executors) : w'.Locked := by
  have hmtx := h.call t ht
  constructor
  · intro u hu
    rw [hcalls] at hu
    by_cases hut : u = t
    · rw [hut, Function.update_self, hc] at hu
      cases hu
    · rw [Function.update_of_ne hut] at hu
      cases hmtx.symm.trans (h.call u hu)
      exact absurd rfl hut
  · intro d hd
    rw [hexecutors] at hd
    cases hmtx.symm.trans (h.idle d hd)

/-- An executor gives `mtx_` back. -/
theorem Locked.release_idle (h : w.Locked) (he : (w.executors e).pc.holdsMtx = true)
    {x : Executor α} (hx : x.pc.holdsMtx = false) (hcalls : w'.calls = w.calls)
    (hexecutors : w'.executors = Function.update w.executors e x) : w'.Locked := by
  have hmtx := h.idle e he
  constructor
  · intro u hu
    rw [hcalls] at hu
    cases hmtx.symm.trans (h.call u hu)
  · intro d hd
    rw [hexecutors] at hd
    by_cases hde : d = e
    · rw [hde, Function.update_self, hx] at hd
      cases hd
    · rw [Function.update_of_ne hde] at hd
      cases hmtx.symm.trans (h.idle d hd)
      exact absurd rfl hde

theorem holdsMtx_atWaitUntil (x : Executor α) : x.atWaitUntil.pc.holdsMtx = false := by
  unfold Executor.atWaitUntil
  dsimp only
  split
  · rfl
  · rfl

theorem Locked.step (h : w.Locked) (hstep : Step w ev w') : w'.Locked := by
  cases hstep with
  | tick hlater => exact h.keep rfl (fun _ => id) (fun _ => id)
  | schedule task delay interval times hcall hmay =>
      exact h.keep rfl (holds_setCall nofun) (fun _ => id)
  | @execute t task hcall hmay =>
      unfold ExecutorPool.execute
      cases w.execs with
      | none => exact h.keep rfl (holds_setCall nofun) (fun _ => id)
      | some q => exact h.keep rfl (holds_setCall nofun) (fun _ => id)
  | schedulePush hcall => exact h.keep rfl (holds_setCall nofun) (fun _ => id)
  | scheduleLock hcall hfree => exact h.take_call hfree rfl rfl rfl
  | schedulerThere hcall hthere =>
      exact h.keep rfl (holds_setCall (fun _ => by rw [hcall]; rfl)) (fun _ => id)
  | @scheduleGet t taskId e pool hcall hnone hget =>
      have hheld : (w.calls t).holdsMtx = true := by rw [hcall]; rfl
      exact h.keep rfl (holds_setCall (fun _ => hheld)) (fun _ => id)
  | @scheduleBind t taskId e hcall hfree =>
      have hheld : (w.calls t).holdsMtx = true := by rw [hcall]; rfl
      exact h.keep rfl (holds_setCall (fun _ => hheld)) (holds_setExecutor id)
  | scheduleUnlock hcall => exact h.release_call (by rw [hcall]; rfl) rfl rfl rfl
  | executePush hcall hqueue => exact h.keep rfl (holds_setCall nofun) (fun _ => id)
  | executeGet hcall hget => exact h.keep rfl (holds_setCall nofun) (fun _ => id)
  | executeRefused hcall hget => exact h.keep rfl (holds_setCall nofun) (fun _ => id)
  | executeBind hcall hfree => exact h.keep rfl (holds_setCall nofun) (holds_setExecutor id)
  | wake hpc hbound => exact h.keep rfl (fun _ => id) (holds_setExecutor nofun)
  | more hpc hwaits hqueue hsize => exact h.keep rfl (fun _ => id) (holds_setExecutor nofun)
  | noMore hpc hwaits hqueue hsize => exact h.keep rfl (fun _ => id) (holds_setExecutor nofun)
  | unbound hpc hwaits => exact h.keep rfl (fun _ => id) (holds_setExecutor nofun)
  | @pop e name q q' currentTask hpc hwaits hqueue hpop =>
      cases name with
      | delayTasks => exact h.keep rfl (fun _ => id) (holds_setExecutor nofun)
      | execs => exact h.keep rfl (fun _ => id) (holds_setExecutor nofun)
  | runExecute hpc hcalls => exact h.keep rfl (holds_setCall nofun) (holds_setExecutor nofun)
  | ran hpc hjob hcalls => exact h.keep rfl (fun _ => id) (holds_setExecutor nofun)
  | @finish e name q taskId hpc hwaits hqueue =>
      cases name with
      | delayTasks => exact h.keep rfl (fun _ => id) (holds_setExecutor nofun)
      | execs => exact h.keep rfl (fun _ => id) (holds_setExecutor nofun)
  | idle hpc hidle => exact h.keep rfl (fun _ => id) (holds_setExecutor nofun)
  | idleLock hpc hidle hfree => exact h.take_idle hfree rfl rfl rfl
  | idleRefused hpc hsize =>
      exact h.release_idle (by rw [hpc]; rfl) (holdsMtx_atWaitUntil _) rfl rfl
  | idleAgreed hpc hsize =>
      exact h.keep rfl (fun _ => id) (holds_setExecutor (fun _ => by rw [hpc]; rfl))
  | idlePool hpc => exact h.release_idle (by rw [hpc]; rfl) rfl rfl rfl
  | clear hpc => exact h.keep rfl (fun _ => id) (holds_setExecutor nofun)
  | timeOut hpc hwaits => exact h.keep rfl (fun _ => id) (holds_setExecutor nofun)
  | released hpc hrelease => exact h.keep rfl (fun _ => id) (holds_setExecutor nofun)
  | kept hpc hrelease => exact h.keep rfl (fun _ => id) (holds_setExecutor nofun)

/-! ### The scheduler -/

/-- The task is queued, and `scheduler_` is still to be tested. -/
def Call.pushed : Call α → Bool
  | .scheduleLock _ | .scheduleTest _ => true
  | _ => false

/-- `scheduler_` names the executor that serves the timer's queue, or is about to. -/
structure Timed (w : ExecutorPool α) : Prop where
  served : ∀ e, w.scheduler = some e →
    (∃ t id, w.calls t = .scheduleBind id e) ∨ (w.executors e).Ahead .delayTasks
  named : ∀ e, (w.executors e).Ahead .delayTasks → w.scheduler = some e
  binding : ∀ t id e, w.calls t = .scheduleBind id e → w.scheduler = some e
  queued : w.delayTasks.size ≠ 0 → w.scheduler ≠ none ∨ ∃ t, (w.calls t).pushed = true

/-- A step that neither changes `scheduler_` nor reaches or leaves a `Bind` of `Schedule`. -/
theorem Timed.keep (h : w.Timed) (hplaced : w.Placed) (hstep : Step w ev w')
    (hscheduler : w'.scheduler = w.scheduler)
    (hcalls : ∀ t id e, w'.calls t = .scheduleBind id e ↔ w.calls t = .scheduleBind id e)
    (hlook : ∀ e, ev = .looked e .delayTasks → (w'.executors e).Ahead .delayTasks)
    (hqueued : w'.delayTasks.size ≠ 0 →
      w.scheduler ≠ none ∨ ∃ t, (w'.calls t).pushed = true) : w'.Timed := by
  refine ⟨?_, ?_, ?_, ?_⟩
  · intro e he
    rw [hscheduler] at he
    obtain ⟨t, id, ht⟩ | hahead := h.served e he
    · exact .inl ⟨t, id, (hcalls t id e).mpr ht⟩
    · obtain ⟨hahead, -⟩ | hlooked := hstep.ahead hplaced hahead
      · exact .inr hahead
      · exact .inr (hlook e hlooked)
  · intro e he
    rw [hscheduler]
    obtain hahead | ⟨t, id, ht, hnot⟩ := hstep.ahead_of hplaced he
    · exact h.named e hahead
    · rw [(hcalls t id e).mpr ht] at hnot
      cases hnot
  · intro t id e ht
    rw [hscheduler]
    exact h.binding t id e ((hcalls t id e).mp ht)
  · rw [hscheduler]
    exact hqueued

theorem bind_setCall {c : Call α} (ht : ∀ id e, w.calls t ≠ .scheduleBind id e)
    (hc : ∀ id e, c ≠ .scheduleBind id e) (u : Thread) (id : TaskId) (e : Nat) :
    Function.update w.calls t c u = .scheduleBind id e ↔ w.calls u = .scheduleBind id e := by
  by_cases hu : u = t
  · rw [hu, Function.update_self]
    exact iff_of_false (hc id e) (ht id e)
  · rw [Function.update_of_ne hu]

/-- The call that is still to test `scheduler_` is another one. -/
theorem pushed_setCall {c : Call α} (ht : (w.calls t).pushed = false)
    (h : ∃ u, (w.calls u).pushed = true) :
    ∃ u, (Function.update w.calls t c u).pushed = true := by
  obtain ⟨u, hu⟩ := h
  refine ⟨u, ?_⟩
  have hut : u ≠ t := by
    intro hut
    rw [hut, ht] at hu
    cases hu
  rw [Function.update_of_ne hut]
  exact hu

/-- A step of a call outside the sections of `Schedule`. -/
theorem Timed.keep_call (h : w.Timed) (hplaced : w.Placed) (hstep : Step w ev w') {c c' : Call α}
    (ht : w.calls t = c) (hcalls : w'.calls = Function.update w.calls t c')
    (hc : ∀ id e, c ≠ .scheduleBind id e) (hc' : ∀ id e, c' ≠ .scheduleBind id e)
    (hpushed : c.pushed = true → c'.pushed = true)
    (hscheduler : w'.scheduler = w.scheduler) (hqueue : w'.delayTasks = w.delayTasks)
    (hlook : ∀ e, ev ≠ .looked e .delayTasks) : w'.Timed := by
  refine h.keep hplaced hstep hscheduler ?_ (fun e he => absurd he (hlook e)) ?_
  · rw [hcalls]
    exact bind_setCall (fun id e => ht ▸ hc id e) hc'
  · rw [hqueue, hcalls]
    intro hsize
    refine (h.queued hsize).imp_right ?_
    intro hexists
    cases hbefore : c.pushed with
    | true =>
        refine ⟨t, ?_⟩
        rw [Function.update_self]
        exact hpushed hbefore
    | false => exact pushed_setCall (ht ▸ hbefore) hexists

/-- A step of an executor that does not touch `scheduler_`. -/
theorem Timed.keep_executor (h : w.Timed) (hplaced : w.Placed) (hstep : Step w ev w')
    (hscheduler : w'.scheduler = w.scheduler) (hcalls : w'.calls = w.calls)
    (hlook : ∀ e, ev = .looked e .delayTasks → (w'.executors e).Ahead .delayTasks)
    (hqueue : w'.delayTasks = w.delayTasks ∨ w.scheduler ≠ none) : w'.Timed := by
  refine h.keep hplaced hstep hscheduler (fun t id e => by rw [hcalls]) hlook ?_
  intro hsize
  obtain hsame | hsome := hqueue
  · rw [hsame] at hsize
    rw [hcalls]
    exact h.queued hsize
  · exact .inl hsome

/-- `Schedule` finds no scheduler, and gets one. -/
theorem Timed.got (h : w.Timed) (hplaced : w.Placed) (hstep : Step w ev w') {id : TaskId}
    (hnone : w.scheduler = none)
    (hscheduler : w'.scheduler = some e)
    (hcalls : w'.calls = Function.update w.calls t (.scheduleBind id e)) : w'.Timed := by
  have hself : w'.calls t = .scheduleBind id e := by
    rw [hcalls, Function.update_self]
  refine ⟨?_, ?_, ?_, fun _ => .inl (by rw [hscheduler]; nofun)⟩
  · intro d hd
    obtain rfl : e = d := Option.some.inj (hscheduler.symm.trans hd)
    exact .inl ⟨t, id, hself⟩
  · intro d hd
    obtain hahead | ⟨u, id', hu, hnot⟩ := hstep.ahead_of hplaced hd
    · cases hnone.symm.trans (h.named d hahead)
    · cases hnone.symm.trans (h.binding u id' d hu)
  · intro u id' d hu
    by_cases hut : u = t
    · rw [hut, hself] at hu
      cases hu
      exact hscheduler
    · rw [hcalls, Function.update_of_ne hut] at hu
      cases hnone.symm.trans (h.binding u id' d hu)

/-- `Schedule` binds the scheduler. -/
theorem Timed.bound (h : w.Timed) (hplaced : w.Placed) (hstep : Step w ev w') {id : TaskId}
    (ht : w.calls t = .scheduleBind id e)
    (hfree : (w.executors e).pc.unlocked = true) (hscheduler : w'.scheduler = w.scheduler)
    (hexecutors : w'.executors e = (w.executors e).bind .delayTasks)
    (hcalls : w'.calls = Function.update w.calls t (.scheduleUnlock id)) : w'.Timed := by
  have hnamed : w.scheduler = some e := h.binding t id e ht
  have hbinds : (w.calls t).binds = some e := by rw [ht]; rfl
  refine ⟨?_, ?_, ?_, fun _ => .inl (by rw [hscheduler, hnamed]; nofun)⟩
  · intro d hd
    rw [hscheduler, hnamed] at hd
    obtain rfl := Option.some.inj hd
    have hpc := (hplaced.binds t e hbinds).2.waits_of_unlocked (hplaced.sane e) hfree
    rw [hexecutors]
    exact .inr (Executor.ahead_bind hpc)
  · intro d hd
    rw [hscheduler]
    obtain hahead | ⟨u, id', hu, -⟩ := hstep.ahead_of hplaced hd
    · exact h.named d hahead
    · exact h.binding u id' d hu
  · intro u id' d hu
    have hut : u ≠ t := by
      intro hut
      rw [hut, hcalls, Function.update_self] at hu
      cases hu
    rw [hcalls, Function.update_of_ne hut] at hu
    rw [hscheduler]
    exact h.binding u id' d hu

/-- The scheduler has found the queue empty, under `mtx_`. -/
theorem Timed.agreed (h : w.Timed) (hplaced : w.Placed) (hlocked : w.Locked)
    (hstep : Step w ev w') (hpc : (w.executors e).pc = .idleSize)
    (hsize : w'.delayTasks.size = 0) (hscheduler : w'.scheduler = none)
    (hpc' : (w'.executors e).pc = .idlePool) (hcalls : w'.calls = w.calls) : w'.Timed := by
  have hnamed : w.scheduler = some e := by
    refine h.named e ⟨(hplaced.sane e).timer (.inl hpc), ?_⟩
    rw [hpc]
    rfl
  have hmtx : w.mtx = some (.idle e) := hlocked.idle e (by rw [hpc]; rfl)
  -- no call is about to bind a scheduler, since it would hold `mtx_`
  have hnobind : ∀ u id d, w.calls u ≠ .scheduleBind id d := by
    intro u id d hu
    cases hmtx.symm.trans (hlocked.call u (by rw [hu]; rfl))
  refine ⟨?_, ?_, ?_, fun hne => absurd hsize hne⟩
  · intro d hd
    cases hscheduler.symm.trans hd
  · intro d hd
    obtain hahead | ⟨u, id, hu, -⟩ := hstep.ahead_of hplaced hd
    · obtain rfl : e = d := Option.some.inj (hnamed.symm.trans (h.named d hahead))
      exact absurd hd (not_ahead_of_pc hpc' (fun _ => rfl) _)
    · exact absurd hu (hnobind u id d)
  · intro u id d hu
    rw [hcalls] at hu
    exact absurd hu (hnobind u id d)

theorem Timed.step (h : w.Timed) (hplaced : w.Placed) (hlocked : w.Locked)
    (hstep : Step w ev w') : w'.Timed := by
  have hcase := hstep
  cases hcase with
  | tick hlater => exact h.keep_executor hplaced hstep rfl rfl nofun (.inl rfl)
  | schedule task delay interval times hcall hmay =>
      exact h.keep_call hplaced hstep hcall rfl (fun _ _ => nofun) (fun _ _ => nofun) nofun
        rfl rfl nofun
  | @execute t task hcall hmay =>
      rw [ExecutorPool.execute] at hstep ⊢
      cases hexecs : w.execs with
      | none =>
          rw [hexecs] at hstep
          exact h.keep_call hplaced hstep hcall rfl (fun _ _ => nofun) (fun _ _ => nofun) nofun
            rfl rfl nofun
      | some q =>
          rw [hexecs] at hstep
          exact h.keep_call hplaced hstep hcall rfl (fun _ _ => nofun) (fun _ _ => nofun) nofun
            rfl rfl nofun
  | @schedulePush t innerTask delay hcall =>
      refine h.keep hplaced hstep rfl (bind_setCall (fun _ _ => hcall ▸ nofun) (fun _ _ => nofun))
        nofun (fun _ => .inr ⟨t, ?_⟩)
      show (Function.update w.calls t _ t).pushed = true
      rw [Function.update_self]
      rfl
  | scheduleLock hcall hfree =>
      exact h.keep_call hplaced hstep hcall rfl (fun _ _ => nofun) (fun _ _ => nofun) (fun _ => rfl)
        rfl rfl nofun
  | schedulerThere hcall hthere =>
      exact h.keep hplaced hstep rfl (bind_setCall (fun _ _ => hcall ▸ nofun) (fun _ _ => nofun))
        nofun (fun _ => .inl (hthere ▸ nofun))
  | @scheduleGet t taskId e pool hcall hnone hget =>
      exact h.got hplaced hstep hnone rfl rfl
  | @scheduleBind t taskId e hcall hfree =>
      exact h.bound hplaced hstep hcall hfree rfl (Function.update_self ..) rfl
  | scheduleUnlock hcall =>
      exact h.keep_call hplaced hstep hcall rfl (fun _ _ => nofun) (fun _ _ => nofun) nofun
        rfl rfl nofun
  | executePush hcall hqueue =>
      exact h.keep_call hplaced hstep hcall rfl (fun _ _ => nofun) (fun _ _ => nofun) nofun
        rfl rfl nofun
  | executeGet hcall hget =>
      exact h.keep_call hplaced hstep hcall rfl (fun _ _ => nofun) (fun _ _ => nofun) nofun
        rfl rfl nofun
  | executeRefused hcall hget =>
      exact h.keep_call hplaced hstep hcall rfl (fun _ _ => nofun) (fun _ _ => nofun) nofun
        rfl rfl nofun
  | executeBind hcall hfree =>
      exact h.keep_call hplaced hstep hcall rfl (fun _ _ => nofun) (fun _ _ => nofun) nofun
        rfl rfl nofun
  | wake hpc hbound => exact h.keep_executor hplaced hstep rfl rfl nofun (.inl rfl)
  | @more e name q hpc hwaits hqueue hsize =>
      refine h.keep_executor hplaced hstep rfl rfl ?_ (.inl rfl)
      intro d hd
      cases hd
      exact ahead_self hwaits rfl
  | @noMore e name q hpc hwaits hqueue hsize =>
      refine h.keep_executor hplaced hstep rfl rfl ?_ (.inl rfl)
      intro d hd
      cases hd
      exact ahead_self hwaits rfl
  | unbound hpc hwaits => exact h.keep_executor hplaced hstep rfl rfl nofun (.inl rfl)
  | @pop e name q q' currentTask hpc hwaits hqueue hpop =>
      cases name with
      | delayTasks =>
          have hnamed := h.named e ⟨hwaits, by rw [hpc]; rfl⟩
          exact h.keep_executor hplaced hstep rfl rfl nofun (.inr (hnamed ▸ nofun))
      | execs => exact h.keep_executor hplaced hstep rfl rfl nofun (.inl rfl)
  | runExecute hpc hcalls =>
      exact h.keep_call hplaced hstep hcalls rfl (fun _ _ => nofun) (fun _ _ => nofun) nofun
        rfl rfl nofun
  | ran hpc hjob hcalls => exact h.keep_executor hplaced hstep rfl rfl nofun (.inl rfl)
  | @finish e name q taskId hpc hwaits hqueue =>
      -- the task may come back to the queue, which the executor still serves
      cases name with
      | delayTasks =>
          have hnamed := h.named e ⟨hwaits, by rw [hpc]; rfl⟩
          exact h.keep_executor hplaced hstep rfl rfl nofun (.inr (hnamed ▸ nofun))
      | execs => exact h.keep_executor hplaced hstep rfl rfl nofun (.inl rfl)
  | idle hpc hidle => exact h.keep_executor hplaced hstep rfl rfl nofun (.inl rfl)
  | idleLock hpc hidle hfree => exact h.keep_executor hplaced hstep rfl rfl nofun (.inl rfl)
  | @idleRefused e hpc hsize =>
      have hwaits := (hplaced.sane e).timer (.inl hpc)
      refine h.keep_executor hplaced hstep rfl rfl ?_ (.inl rfl)
      intro d hd
      cases hd
      refine ahead_self hwaits ?_
      rw [Executor.atWaitUntil, hwaits]
      rfl
  | @idleAgreed e hpc hsize =>
      refine h.agreed hplaced hlocked hstep hpc hsize rfl ?_ rfl
      show (Function.update w.executors e _ e).pc = _
      rw [Function.update_self]
  | idlePool hpc => exact h.keep_executor hplaced hstep rfl rfl nofun (.inl rfl)
  | clear hpc => exact h.keep_executor hplaced hstep rfl rfl nofun (.inl rfl)
  | timeOut hpc hwaits => exact h.keep_executor hplaced hstep rfl rfl nofun (.inl rfl)
  | released hpc hrelease => exact h.keep_executor hplaced hstep rfl rfl nofun (.inl rfl)
  | kept hpc hrelease => exact h.keep_executor hplaced hstep rfl rfl nofun (.inl rfl)

/-! ### Runs -/

theorem locked_initial (max min : UInt64) : (initial max min : ExecutorPool α).Locked :=
  ⟨nofun, nofun⟩

theorem timed_initial (max min : UInt64) : (initial max min : ExecutorPool α).Timed where
  served _ h := nomatch h
  named _ h := nomatch h.1
  binding _ _ _ h := nomatch h
  queued h := absurd rfl h

theorem timed_run {max min : UInt64} {ls : List Event}
    (hrun : Run Step (initial max min) ls w) : w.Placed ∧ w.Timed := by
  have hall : w.Placed ∧ w.Locked ∧ w.Timed := by
    refine hrun.invariant (I := fun w => w.Placed ∧ w.Locked ∧ w.Timed) ?_
      ⟨placed_initial max min, locked_initial max min, timed_initial max min⟩
    intro u ev u' ⟨hplaced, hlocked, htimed⟩ hstep
    exact ⟨hplaced.step hstep, hlocked.step hstep, htimed.step hplaced hlocked hstep⟩
  exact ⟨hall.1, hall.2.2⟩

/-- A call of `Schedule` is in progress. -/
def Call.inSchedule : Call α → Bool
  | .schedulePush _ _ | .scheduleLock _ | .scheduleTest _ | .scheduleBind _ _
  | .scheduleUnlock _ => true
  | _ => false

/-- Somebody is to look at the queue when no call is in progress. -/
theorem Timed.exists_ahead (h : w.Timed) (hcalls : ∀ t, (w.calls t).inSchedule = false)
    (hsize : w.delayTasks.size ≠ 0) : ∃ e, (w.executors e).Ahead .delayTasks := by
  obtain hscheduler | ⟨t, ht⟩ := h.queued hsize
  · obtain ⟨e, he⟩ := Option.ne_none_iff_exists'.mp hscheduler
    obtain ⟨t, id, ht⟩ | hahead := h.served e he
    · have hno := hcalls t
      rw [ht] at hno
      cases hno
    · exact ⟨e, hahead⟩
  · have hno := hcalls t
    cases hcall : w.calls t with
    | scheduleLock | scheduleTest =>
        rw [hcall] at hno
        cases hno
    | _ =>
        rw [hcall] at ht
        cases ht

/-- **The timer's queue.** Whenever it holds a task and no call of `Schedule` is in progress, an
executor is bound to it, runs, and will look at it again before it goes idle. -/
theorem timer_queue_served {max min : UInt64} {ls : List Event}
    (hrun : Run Step (initial max min) ls w) (hcalls : ∀ t, (w.calls t).inSchedule = false)
    (hsize : w.delayTasks.size ≠ 0) :
    ∃ e < w.made, (w.executors e).waits = some .delayTasks ∧ (w.executors e).pc ≠ .stopped ∧
      w.LooksBeforeIdle e .delayTasks := by
  obtain ⟨hplaced, htimed⟩ := timed_run hrun
  obtain ⟨e, hahead⟩ := htimed.exists_ahead hcalls hsize
  refine ⟨e, ?_, hahead.1, hahead.not_stopped (hplaced.sane e), looks_before_idle hplaced hahead⟩
  exact hplaced.lt_made_of_waits (hahead.1 ▸ nofun)

/-- After one `Schedule` on a pool with a single executor. -/
theorem timer_queue_served_once :
    ∃ w : ExecutorPool Unit, w.delayTasks.size = 1 ∧
      ∃ e < w.made, (w.executors e).waits = some .delayTasks ∧ (w.executors e).pc ≠ .stopped ∧
        w.LooksBeforeIdle e .delayTasks := by
  have hrun := Run.cons (Step.schedule (w := initial 1 0) (t := .client 0) () 0 0 1 rfl trivial)
    (.cons (.schedulePush (t := .client 0) rfl)
    (.cons (.scheduleLock (t := .client 0) rfl rfl)
    (.cons (.scheduleGet (t := .client 0) rfl rfl rfl)
    (.cons (.scheduleBind (t := .client 0) (e := 0) rfl rfl)
    (.cons (.scheduleUnlock (t := .client 0) rfl) .nil)))))
  refine ⟨_, rfl, timer_queue_served hrun ?_ nofun⟩
  intro t
  cases t with
  | client n =>
      cases n with
      | zero => rfl
      | succ n => rfl
  | executor e => rfl

end ExecutorPool

end NativePreferences
