import NativePreferences.ExecutorPool.Tasks
import NativePreferences.ExecutorPool.WorkerQueue

/-!
# NativePreferences.ExecutorPool.Progress

**An executor that is ahead of its queue can look at it.** `LooksBeforeIdle` says what such an
executor does first, whatever happens. That it can do so at all takes more, since on its way it may
need `mtx_`, or the `mutex_` of an executor that it is to bind. Whoever holds `mtx_` can go on until
it is free (`exists_freed`), an executor that is to be bound can go on until its `mutex_` is free
(`exists_unlocked`), and so from every state of a run there is a run to the next `Size`
(`can_look_of_ahead`).
-/

namespace NativePreferences.ExecutorPool

open Lib

variable {α : Type} {w w' : ExecutorPool α} {ev : Event} {t : Thread} {e : Nat} {q : QueueName}

/-! ### What the steps keep -/

/-- Whoever holds `mtx_` is in a section of it. -/
structure Holder (w : ExecutorPool α) : Prop where
  call : ∀ t, w.mtx = some (.schedule t) → (w.calls t).holdsMtx = true
  idle : ∀ e, w.mtx = some (.idle e) → (w.executors e).pc.holdsMtx = true

theorem kept_setCall {c : Call α} (hc : (w.calls t).holdsMtx = true → c.holdsMtx = true)
    (u : Thread) (hu : (w.calls u).holdsMtx = true) :
    (Function.update w.calls t c u).holdsMtx = true := by
  by_cases hut : u = t
  · rw [hut] at hu
    rw [hut, Function.update_self]
    exact hc hu
  · rw [Function.update_of_ne hut]
    exact hu

theorem kept_setExecutor {x : Executor α}
    (hx : (w.executors e).pc.holdsMtx = true → x.pc.holdsMtx = true) (d : Nat)
    (hd : (w.executors d).pc.holdsMtx = true) :
    (Function.update w.executors e x d).pc.holdsMtx = true := by
  by_cases hde : d = e
  · rw [hde] at hd
    rw [hde, Function.update_self]
    exact hx hd
  · rw [Function.update_of_ne hde]
    exact hd

theorem Holder.keep (h : w.Holder) (hmtx : w'.mtx = w.mtx)
    (hcalls : ∀ t, (w.calls t).holdsMtx = true → (w'.calls t).holdsMtx = true)
    (hpcs : ∀ e, (w.executors e).pc.holdsMtx = true → (w'.executors e).pc.holdsMtx = true) :
    w'.Holder where
  call t ht := hcalls t (h.call t (hmtx.symm.trans ht))
  idle e he := hpcs e (h.idle e (hmtx.symm.trans he))

theorem Holder.step (h : w.Holder) (hstep : Step w ev w') : w'.Holder := by
  -- a call or an executor goes on, outside of the sections
  have hcall : ∀ {c c' : Call α} {t : Thread}, w.calls t = c → c.holdsMtx = false →
      (w.calls t).holdsMtx = true → c'.holdsMtx = true := by
    intro c c' t ht hc hholds
    rw [ht, hc] at hholds
    cases hholds
  have hpc : ∀ {pc pc' : Executor.Pc α} {e : Nat}, (w.executors e).pc = pc →
      pc.holdsMtx = false → (w.executors e).pc.holdsMtx = true → pc'.holdsMtx = true := by
    intro pc pc' e he hc hholds
    rw [he, hc] at hholds
    cases hholds
  cases hstep with
  | tick hlater => exact h.keep rfl (fun _ => id) (fun _ => id)
  | schedule task delay interval times hout hmay =>
      exact h.keep rfl (kept_setCall (hcall hout rfl)) (fun _ => id)
  | execute task hout hmay =>
      unfold ExecutorPool.execute
      cases w.execs with
      | none => exact h.keep rfl (kept_setCall (hcall hout rfl)) (fun _ => id)
      | some q => exact h.keep rfl (kept_setCall (hcall hout rfl)) (fun _ => id)
  | schedulePush ht => exact h.keep rfl (kept_setCall (hcall ht rfl)) (fun _ => id)
  | @scheduleLock t id ht hfree =>
      refine ⟨fun u hu => ?_, nofun⟩
      cases hu
      show (Function.update w.calls t _ t).holdsMtx = true
      rw [Function.update_self]
      rfl
  | schedulerThere ht hthere => exact h.keep rfl (kept_setCall (fun _ => rfl)) (fun _ => id)
  | scheduleGet ht hnone hget => exact h.keep rfl (kept_setCall (fun _ => rfl)) (fun _ => id)
  | scheduleBind ht hfree =>
      exact h.keep rfl (kept_setCall (fun _ => rfl)) (kept_setExecutor (fun h => h))
  | scheduleUnlock ht => exact ⟨nofun, nofun⟩
  | executePush ht hqueue => exact h.keep rfl (kept_setCall (hcall ht rfl)) (fun _ => id)
  | executeGet ht hget => exact h.keep rfl (kept_setCall (hcall ht rfl)) (fun _ => id)
  | executeRefused ht hget => exact h.keep rfl (kept_setCall (hcall ht rfl)) (fun _ => id)
  | executeBind ht hfree =>
      exact h.keep rfl (kept_setCall (hcall ht rfl)) (kept_setExecutor (fun h => h))
  | wake he hbound =>
      obtain he | he := he
      · exact h.keep rfl (fun _ => id) (kept_setExecutor (hpc he rfl))
      · exact h.keep rfl (fun _ => id) (kept_setExecutor (hpc he rfl))
  | more he hwaits hqueue hsize => exact h.keep rfl (fun _ => id) (kept_setExecutor (hpc he rfl))
  | noMore he hwaits hqueue hsize =>
      exact h.keep rfl (fun _ => id) (kept_setExecutor (hpc he rfl))
  | unbound he hwaits => exact h.keep rfl (fun _ => id) (kept_setExecutor (hpc he rfl))
  | @pop e name q q' task he hwaits hqueue hpop =>
      cases name with
      | delayTasks => exact h.keep rfl (fun _ => id) (kept_setExecutor (hpc he rfl))
      | execs => exact h.keep rfl (fun _ => id) (kept_setExecutor (hpc he rfl))
  | @runExecute e func id taskId he hout =>
      exact h.keep rfl (kept_setCall (hcall hout rfl)) (kept_setExecutor (hpc he rfl))
  | ran he hjob hout => exact h.keep rfl (fun _ => id) (kept_setExecutor (hpc he rfl))
  | @finish e name q taskId he hwaits hqueue =>
      cases name with
      | delayTasks => exact h.keep rfl (fun _ => id) (kept_setExecutor (hpc he rfl))
      | execs => exact h.keep rfl (fun _ => id) (kept_setExecutor (hpc he rfl))
  | idle he hidle => exact h.keep rfl (fun _ => id) (kept_setExecutor (hpc he rfl))
  | @idleLock e he hidle hfree =>
      refine ⟨nofun, fun d hd => ?_⟩
      cases hd
      show (Function.update w.executors e _ e).pc.holdsMtx = true
      rw [Function.update_self]
      rfl
  | idleRefused he hsize => exact ⟨nofun, nofun⟩
  | idleAgreed he hsize => exact h.keep rfl (fun _ => id) (kept_setExecutor (fun _ => rfl))
  | idlePool he => exact ⟨nofun, nofun⟩
  | clear he => exact h.keep rfl (fun _ => id) (kept_setExecutor (hpc he rfl))
  | timeOut he hwaits => exact h.keep rfl (fun _ => id) (kept_setExecutor (hpc he rfl))
  | released he hrelease => exact h.keep rfl (fun _ => id) (kept_setExecutor (hpc he rfl))
  | kept he hrelease => exact h.keep rfl (fun _ => id) (kept_setExecutor (hpc he rfl))

/-- `execs_` is there for those who use it. -/
structure Wired (w : ExecutorPool α) : Prop where
  waits : ∀ e, (w.executors e).waits = some .execs → w.queue .execs ≠ none
  calls : ∀ t, (w.calls t).inExecute = true → w.queue .execs ≠ none

/-- An executor is bound to `execs_` by a call of `Execute` only. -/
theorem Step.waits_of (hstep : Step w ev w') (hwaits : (w'.executors e).waits = some .execs) :
    (w.executors e).waits = some .execs ∨ ∃ t id, w.calls t = .executeBind id e := by
  -- an executor goes on, and stays bound as it was
  have hgoes : ∀ {x : Executor α} {d : Nat},
      (Function.update w.executors d x e).waits = some .execs →
      (x.waits = some .execs → (w.executors d).waits = some .execs) →
        (w.executors e).waits = some .execs ∨ ∃ t id, w.calls t = .executeBind id e := by
    intro x d he hx
    by_cases hed : e = d
    · rw [hed, Function.update_self] at he
      rw [hed]
      exact .inl (hx he)
    · rw [Function.update_of_ne hed] at he
      exact .inl he
  cases hstep with
  | execute task hout hmay =>
      unfold ExecutorPool.execute at hwaits
      cases hexecs : w.execs with
      | none =>
          rw [hexecs] at hwaits
          exact .inl hwaits
      | some q =>
          rw [hexecs] at hwaits
          exact .inl hwaits
  | tick | schedule | schedulePush | scheduleLock | schedulerThere | scheduleGet | scheduleUnlock
  | executePush | executeGet | executeRefused => exact .inl hwaits
  | scheduleBind ht hfree => exact hgoes hwaits nofun
  | @executeBind t id d ht hfree =>
      by_cases hed : e = d
      · exact .inr ⟨t, id, hed ▸ ht⟩
      · exact .inl ((congrArg Executor.waits (Function.update_of_ne hed _ _)).symm.trans hwaits)
  | @pop d name q q' task he hthere hqueue hpop =>
      cases name with
      | delayTasks => exact hgoes hwaits (fun h => h)
      | execs => exact hgoes hwaits (fun h => h)
  | @finish d name q taskId he hthere hqueue =>
      cases name with
      | delayTasks => exact hgoes hwaits (fun h => h)
      | execs => exact hgoes hwaits (fun h => h)
  | clear he => exact hgoes hwaits nofun
  | wake | more | noMore | unbound | runExecute | ran | idle | idleLock | idleRefused | idleAgreed
  | idlePool | timeOut | released | kept => exact hgoes hwaits (fun h => h)

/-- `Execute` goes on only where `execs_` is. -/
theorem Step.inExecute_of (hstep : Step w ev w') (hsound : w.Sound) (hplaced : w.Placed)
    (ht : (w'.calls t).inExecute = true) :
    (w.calls t).inExecute = true ∨ w.queue .execs ≠ none := by
  have hgoes : ∀ {c : Call α} {u : Thread},
      (Function.update w.calls u c t).inExecute = true →
      (c.inExecute = true → (w.calls u).inExecute = true ∨ w.queue .execs ≠ none) →
        (w.calls t).inExecute = true ∨ w.queue .execs ≠ none := by
    intro c u ht hc
    by_cases htu : t = u
    · rw [htu, Function.update_self] at ht
      rw [htu]
      exact hc ht
    · rw [Function.update_of_ne htu] at ht
      exact .inl ht
  cases hstep with
  | execute task hout hmay =>
      unfold ExecutorPool.execute at ht
      cases hexecs : w.execs with
      | none =>
          rw [hexecs] at ht
          exact hgoes ht (fun h => absurd h Bool.false_ne_true)
      | some q =>
          refine .inr ?_
          rw [queue, hexecs]
          exact Option.some_ne_none q
  | schedule | schedulePush | scheduleLock | schedulerThere | scheduleGet | scheduleBind
  | scheduleUnlock | executeRefused | executeBind =>
      exact hgoes ht (fun h => absurd h Bool.false_ne_true)
  | executePush hcall hqueue =>
      refine .inr ?_
      rw [queue, hqueue]
      exact Option.some_ne_none _
  | executeGet hcall hget => exact hgoes ht (fun _ => .inl (by rw [hcall]; rfl))
  | @runExecute e func id taskId he hout =>
      obtain ⟨name, hwaits⟩ := waits_of_serves hplaced (by rw [he]; rfl)
      have hexecs := ((hsound.held e name _ taskId (held_running he hwaits)).2 func id rfl).1
      exact .inr (Option.isSome_iff_ne_none.mp hexecs)
  | @pop d name q q' task he hthere hqueue hpop =>
      cases name with
      | delayTasks => exact .inl ht
      | execs => exact .inl ht
  | @finish d name q taskId he hthere hqueue =>
      cases name with
      | delayTasks => exact .inl ht
      | execs => exact .inl ht
  | tick | wake | more | noMore | unbound | ran | idle | idleLock | idleRefused | idleAgreed
  | idlePool | clear | timeOut | released | kept => exact .inl ht

/-- What holds in every state of a run. -/
structure Alive (w : ExecutorPool α) : Prop where
  steady : w.Steady
  sound : w.Sound
  holder : w.Holder
  wired : w.Wired

theorem Alive.step (h : w.Alive) (hstep : Step w ev w') : w'.Alive := by
  obtain ⟨l, -, hwork⟩ := hstep.exists_work h.steady.placed
  refine ⟨h.steady.step hstep, h.sound.work hwork, h.holder.step hstep, ?_, ?_⟩
  · intro e hwaits
    rw [hwork.queue_ne_none]
    obtain hwaits | ⟨t, id, ht⟩ := hstep.waits_of hwaits
    · exact h.wired.waits e hwaits
    · exact h.wired.calls t (by rw [ht]; rfl)
  · intro t ht
    rw [hwork.queue_ne_none]
    obtain ht | hthere := hstep.inExecute_of h.sound h.steady.placed ht
    · exact h.wired.calls t ht
    · exact hthere

theorem alive_initial (max min : UInt64) : (initial max min : ExecutorPool α).Alive :=
  ⟨steady_initial max min, sound_initial max min, ⟨nofun, nofun⟩, nofun, nofun⟩

theorem Alive.run {ls : List Event} (h : w.Alive) (hrun : Run Step w ls w') : w'.Alive :=
  hrun.invariant (fun _ _ _ h hstep => h.step hstep) h

/-! ### Nobody is stuck -/

/-- An executor that is to be bound comes to a place where its `mutex_` is free. -/
theorem exists_unlocked (h : w.Alive) (hbinds : (w.calls t).binds = some e) :
    ∃ ls w', Run Step w ls w' ∧ (w'.executors e).pc.unlocked = true ∧ w'.calls = w.calls ∧
      w'.mtx = w.mtx ∧ ∀ d, d ≠ e → w'.executors d = w.executors d := by
  obtain ⟨hbusy, hfree⟩ := h.steady.placed.binds t e hbinds
  have hserves : (w.executors e).pc.serves = true → (w.executors e).pc = .clearing := by
    intro hserves
    exact hfree.1.resolve_right ((h.steady.placed.sane e).serves hserves)
  have hself : ∀ x : Executor α, (Function.update w.executors e x e).pc = x.pc := by
    intro x
    rw [Function.update_self]
  cases hpc : (w.executors e).pc with
  | waiting => exact ⟨[], w, .nil, by rw [hpc]; rfl, rfl, rfl, fun _ _ => rfl⟩
  | resting => exact ⟨[], w, .nil, by rw [hpc]; rfl, rfl, rfl, fun _ _ => rfl⟩
  | clearing =>
      refine ⟨_, _, .cons (.clear hpc) .nil, ?_, rfl, rfl, fun d hd => Function.update_of_ne hd _ _⟩
      exact congrArg Executor.Pc.unlocked (hself _)
  | releasing =>
      -- It is busy, so `Release` refuses it.
      have hrelease : w.pool.release e false = (false, w.pool) :=
        Pool.release_of_notMem (h.steady.placed.not_idle_of_busy hbusy)
      refine ⟨_, _, .cons (.kept hpc hrelease) .nil, ?_, rfl, rfl,
        fun d hd => Function.update_of_ne hd _ _⟩
      exact congrArg Executor.Pc.unlocked (hself _)
  | stopped => exact absurd hpc hfree.2
  | _ =>
      rw [hpc] at hserves
      cases hserves rfl

/-- `Schedule` gives `mtx_` back, and an executor that is bound to a queue stays where it is. -/
structure Freed (e : Nat) (t : Thread) (w w' : ExecutorPool α) : Prop where
  mtx : w'.mtx = none
  outside : w'.calls t = .outside
  calls : ∀ u, u ≠ t → w'.calls u = w.calls u
  executor : w'.executors e = w.executors e

theorem exists_freed_of_unlock {id : TaskId} (ht : w.calls t = .scheduleUnlock id) (e : Nat) :
    ∃ ls w', Run Step w ls w' ∧ Freed e t w w' :=
  ⟨_, _, .cons (.scheduleUnlock ht) .nil, rfl, Function.update_self _ _ _,
    fun _ hu => Function.update_of_ne hu _ _, rfl⟩

theorem exists_freed_of_bind (h : w.Alive) (he : (w.executors e).Ahead q) {id : TaskId} {d : Nat}
    (ht : w.calls t = .scheduleBind id d) : ∃ ls w', Run Step w ls w' ∧ Freed e t w w' := by
  have hbinds : (w.calls t).binds = some d := by
    rw [ht]
    rfl
  -- What is to be bound is free, so it is another one.
  have hne : e ≠ d := by
    rintro rfl
    exact he.not_free (h.steady.placed.binds t e hbinds).2
  obtain ⟨ls, w₁, hrun, hunlocked, hcalls, -, hothers⟩ := exists_unlocked h hbinds
  rw [← hcalls] at ht
  obtain ⟨w₂, hbind, hcalls₂, hexecutors₂⟩ : ∃ w₂, Step w₁ .other w₂ ∧
      w₂.calls = Function.update w₁.calls t (.scheduleUnlock id) ∧
      w₂.executors = Function.update w₁.executors d ((w₁.executors d).bind .delayTasks) :=
    ⟨_, .scheduleBind ht hunlocked, rfl, rfl⟩
  obtain ⟨ls', w', hrun', hfreed⟩ := exists_freed_of_unlock (w := w₂) (t := t)
    (by rw [hcalls₂, Function.update_self]) e
  refine ⟨_, w', hrun.append (.cons hbind hrun'), hfreed.mtx, hfreed.outside, ?_, ?_⟩
  · intro u hu
    rw [hfreed.calls u hu, hcalls₂, Function.update_of_ne hu, hcalls]
  · rw [hfreed.executor, hexecutors₂, Function.update_of_ne hne, hothers e hne]

theorem exists_freed_of_holds (h : w.Alive) (he : (w.executors e).Ahead q)
    (ht : (w.calls t).holdsMtx = true) : ∃ ls w', Run Step w ls w' ∧ Freed e t w w' := by
  cases hcall : w.calls t with
  | scheduleUnlock id => exact exists_freed_of_unlock hcall e
  | scheduleBind id d => exact exists_freed_of_bind h he hcall
  | scheduleTest id =>
      cases hscheduler : w.scheduler with
      | some d =>
          have hstep := Step.schedulerThere hcall hscheduler
          obtain ⟨ls, w', hrun, hfreed⟩ := exists_freed_of_unlock
            (w := w.setCall t (.scheduleUnlock id)) (Function.update_self _ _ _) e
          refine ⟨_, w', .cons hstep hrun, hfreed.mtx, hfreed.outside, ?_, hfreed.executor⟩
          intro u hu
          exact (hfreed.calls u hu).trans (Function.update_of_ne hu _ _)
      | none =>
          obtain ⟨d, pool, hget⟩ := Pool.get_forced w.pool w.made
          have hstep := Step.scheduleGet hcall hscheduler hget
          obtain ⟨ls, w', hrun, hfreed⟩ :=
            exists_freed_of_bind (h.step hstep) he (Function.update_self _ _ _)
          refine ⟨_, w', .cons hstep hrun, hfreed.mtx, hfreed.outside, ?_, hfreed.executor⟩
          intro u hu
          exact (hfreed.calls u hu).trans (Function.update_of_ne hu _ _)
  | _ =>
      rw [hcall] at ht
      cases ht

/-- `mtx_` can become free while an executor that does not hold it stays where it is, and so does
every call that is not in a section. -/
theorem exists_freed (h : w.Alive) (he : (w.executors e).Ahead q)
    (hpc : (w.executors e).pc.holdsMtx = false) :
    ∃ ls w', Run Step w ls w' ∧ w'.mtx = none ∧ w'.executors e = w.executors e ∧
      ∀ u, (w.calls u).holdsMtx = false → w'.calls u = w.calls u := by
  match hmtx : w.mtx with
  | none => exact ⟨[], w, .nil, hmtx, rfl, fun _ _ => rfl⟩
  | some (.schedule t) =>
      have ht := h.holder.call t hmtx
      obtain ⟨ls, w', hrun, hfreed⟩ := exists_freed_of_holds h he ht
      refine ⟨ls, w', hrun, hfreed.mtx, hfreed.executor, ?_⟩
      intro u hu
      refine hfreed.calls u ?_
      rintro rfl
      exact Bool.false_ne_true (hu.symm.trans ht)
  | some (.idle d) =>
      have hd := h.holder.idle d hmtx
      have hne : e ≠ d := by
        rintro rfl
        exact Bool.false_ne_true (hpc.symm.trans hd)
      cases hplace : (w.executors d).pc with
      | idlePool =>
          exact ⟨_, _, .cons (.idlePool hplace) .nil, rfl, Function.update_of_ne hne _ _,
            fun _ _ => rfl⟩
      | idleSize =>
          by_cases hsize : w.delayTasks.size = 0
          · have hstep := Step.idleAgreed hplace hsize
            refine ⟨_, _, .cons hstep (.cons (.idlePool (e := d) ?_) .nil), rfl, ?_,
              fun _ _ => rfl⟩
            · show (Function.update w.executors d _ d).pc = _
              rw [Function.update_self]
            · exact (Function.update_of_ne hne _ _).trans (Function.update_of_ne hne _ _)
          · exact ⟨_, _, .cons (.idleRefused hplace hsize) .nil, rfl,
              Function.update_of_ne hne _ _, fun _ _ => rfl⟩
      | _ =>
          rw [hplace] at hd
          cases hd

/-- The call returns, and an executor that is bound to a queue stays where it is. -/
def Returned (e : Nat) (t : Thread) (w w' : ExecutorPool α) : Prop :=
  w'.calls t = .outside ∧ w'.executors e = w.executors e

theorem exists_returned_of_bind (h : w.Alive) (he : (w.executors e).Ahead q) {id : TaskId} {d : Nat}
    (ht : w.calls t = .executeBind id d) : ∃ ls w', Run Step w ls w' ∧ Returned e t w w' := by
  have hbinds : (w.calls t).binds = some d := by
    rw [ht]
    rfl
  have hne : e ≠ d := by
    rintro rfl
    exact he.not_free (h.steady.placed.binds t e hbinds).2
  obtain ⟨ls, w₁, hrun, hunlocked, hcalls, -, hothers⟩ := exists_unlocked h hbinds
  rw [← hcalls] at ht
  refine ⟨_, _, hrun.snoc (.executeBind ht hunlocked), Function.update_self _ _ _, ?_⟩
  exact (Function.update_of_ne hne _ _).trans (hothers e hne)

theorem exists_returned_of_get (h : w.Alive) (he : (w.executors e).Ahead q) {id : TaskId}
    (ht : w.calls t = .executeGet id) : ∃ ls w', Run Step w ls w' ∧ Returned e t w w' := by
  cases hget : w.pool.get false w.made with
  | mk got pool =>
      cases got with
      | none => exact ⟨_, _, .cons (.executeRefused ht hget) .nil, Function.update_self _ _ _, rfl⟩
      | some d =>
          have hstep := Step.executeGet ht hget
          obtain ⟨ls, w', hrun, hreturned⟩ := exists_returned_of_bind (t := t)
            (h.step hstep) he (Function.update_self _ _ _)
          exact ⟨_, w', .cons hstep hrun, hreturned⟩

/-- A call can return. -/
theorem exists_returned (h : w.Alive) (he : (w.executors e).Ahead q)
    (hpc : (w.executors e).pc.holdsMtx = false) (t : Thread) :
    ∃ ls w', Run Step w ls w' ∧ Returned e t w w' := by
  have hsection : (w.calls t).holdsMtx = true → ∃ ls w', Run Step w ls w' ∧ Returned e t w w' := by
    intro ht
    obtain ⟨ls, w', hrun, hfreed⟩ := exists_freed_of_holds h he ht
    exact ⟨ls, w', hrun, hfreed.outside, hfreed.executor⟩
  -- `Schedule` waits for `mtx_`.
  have hlock : ∀ {v : ExecutorPool α} {id : TaskId}, v.Alive → v.executors e = w.executors e →
      v.calls t = .scheduleLock id → ∃ ls w', Run Step v ls w' ∧ Returned e t w w' := by
    intro v id hv hexecutor ht
    rw [← hexecutor] at he hpc
    obtain ⟨ls, v₁, hrun, hmtx, hsame, hcalls⟩ := exists_freed hv he hpc
    have ht₁ : v₁.calls t = .scheduleLock id := by
      rw [hcalls t (by rw [ht]; rfl), ht]
    have hrun₁ := hrun.snoc (.scheduleLock ht₁ hmtx)
    rw [← hsame] at he
    obtain ⟨ls', w', hrun', hfreed⟩ := exists_freed_of_holds (t := t) (hv.run hrun₁) he (by
      show (Function.update v₁.calls t (.scheduleTest id) t).holdsMtx = true
      rw [Function.update_self]
      rfl)
    refine ⟨_, w', hrun₁.append hrun', hfreed.outside, ?_⟩
    exact hfreed.executor.trans (hsame.trans hexecutor)
  cases hcall : w.calls t with
  | outside => exact ⟨[], w, .nil, hcall, rfl⟩
  | schedulePush innerTask delay =>
      have hstep := Step.schedulePush hcall
      obtain ⟨ls, w', hrun, hreturned⟩ :=
        hlock (h.step hstep) rfl (Function.update_self _ _ _)
      exact ⟨_, w', .cons hstep hrun, hreturned⟩
  | scheduleLock id => exact hlock h rfl hcall
  | scheduleTest id => exact hsection (by rw [hcall]; rfl)
  | scheduleBind id d => exact hsection (by rw [hcall]; rfl)
  | scheduleUnlock id => exact hsection (by rw [hcall]; rfl)
  | executePush task id =>
      obtain ⟨p, hp⟩ := Option.ne_none_iff_exists'.mp (h.wired.calls t (by rw [hcall]; rfl))
      have hstep := Step.executePush hcall hp
      obtain ⟨ls, w', hrun, hreturned⟩ := exists_returned_of_get (t := t)
        (h.step hstep) he (Function.update_self _ _ _)
      exact ⟨_, w', .cons hstep hrun, hreturned⟩
  | executeGet id => exact exists_returned_of_get h he hcall
  | executeBind id d => exact exists_returned_of_bind h he hcall

/-! ### The way to `Size` -/

/-- A run leads from the state to a `Size` of the queue by the executor. -/
def CanLook (w : ExecutorPool α) (e : Nat) (q : QueueName) : Prop :=
  ∃ ls w', Run Step w ls w' ∧ .looked e q ∈ ls

theorem CanLook.look (hstep : Step w (.looked e q) w') : w.CanLook e q :=
  ⟨_, w', .cons hstep .nil, List.mem_cons_self⟩

theorem CanLook.run {ls : List Event} (hrun : Run Step w ls w') (h : w'.CanLook e q) :
    w.CanLook e q := by
  obtain ⟨ls', w'', hrun', hlook⟩ := h
  exact ⟨_, w'', hrun.append hrun', List.mem_append_right _ hlook⟩

theorem CanLook.step (hstep : Step w ev w') (h : w'.CanLook e q) : w.CanLook e q :=
  .run (.cons hstep .nil) h

/-- The queue of an executor is there. -/
theorem Alive.queue_ne_none (h : w.Alive) (hwaits : (w.executors e).waits = some q) :
    w.queue q ≠ none := by
  cases q with
  | delayTasks => nofun
  | execs => exact h.wired.waits e hwaits

theorem can_look_of_looping (h : w.Alive) (hwaits : (w.executors e).waits = some q)
    (hpc : (w.executors e).pc = .looping) : w.CanLook e q := by
  obtain ⟨p, hp⟩ := Option.ne_none_iff_exists'.mp (h.queue_ne_none hwaits)
  by_cases hsize : p.size = 0
  · exact .look (.noMore hpc hwaits hp hsize)
  · exact .look (.more hpc hwaits hp (Nat.pos_of_ne_zero hsize))

theorem setQueue_executors (w : ExecutorPool α) (name : QueueName) (p : TaskQueue α) :
    (w.setQueue name p).executors = w.executors := by
  cases name with
  | delayTasks => rfl
  | execs => rfl

theorem goto_self (w : ExecutorPool α) (e : Nat) (pc : Executor.Pc α) :
    (w.goto e pc).executors e = { w.executors e with pc } := Function.update_self _ _ _

theorem can_look_of_finishing (h : w.Alive) (hwaits : (w.executors e).waits = some q) {id : TaskId}
    (hpc : (w.executors e).pc = .finishing id) : w.CanLook e q := by
  obtain ⟨p, hp⟩ := Option.ne_none_iff_exists'.mp (h.queue_ne_none hwaits)
  have hstep := Step.finish hpc hwaits hp
  refine .step hstep (can_look_of_looping (h.step hstep) ?_ ?_)
  · rw [goto_self, setQueue_executors]
    exact hwaits
  · rw [goto_self]

theorem can_look_of_ran (h : w.Alive) (hwaits : (w.executors e).waits = some q) {job : Job α}
    {id : TaskId} (hpc : (w.executors e).pc = .running job id)
    (hjob : ∀ func id, job ≠ .execute func id) (hcall : w.calls (.executor e) = .outside) :
    w.CanLook e q := by
  have hstep := Step.ran hpc hjob hcall
  have hpc' : ((w.goto e (.finishing id)).executors e).pc = .finishing id := by
    rw [goto_self]
  refine .step hstep (can_look_of_finishing (h.step hstep) ?_ hpc')
  rw [goto_self]
  exact hwaits

/-- The executor is in a task, and perhaps in a call that the task makes. -/
theorem can_look_of_running (h : w.Alive) (hwaits : (w.executors e).waits = some q) {job : Job α}
    {id : TaskId} (hpc : (w.executors e).pc = .running job id) : w.CanLook e q := by
  -- The call returns first.
  have hreturn : ∀ {v : ExecutorPool α} {job : Job α}, v.Alive →
      (v.executors e).waits = some q → (v.executors e).pc = .running job id →
      (∀ {v' : ExecutorPool α}, v'.Alive → (v'.executors e).waits = some q →
        (v'.executors e).pc = .running job id → v'.calls (.executor e) = .outside →
          v'.CanLook e q) → v.CanLook e q := by
    intro v job hv hwaits hpc hnext
    obtain ⟨ls, v', hrun, hout, hsame⟩ := exists_returned (q := q) hv ⟨hwaits, by rw [hpc]; rfl⟩
      (by rw [hpc]; rfl) (.executor e)
    exact .run hrun (hnext (hv.run hrun) (hsame ▸ hwaits) (hsame ▸ hpc) hout)
  refine hreturn h hwaits hpc ?_
  intro v hv hwaits hpc hout
  cases job with
  | execute func taskId =>
      have hstep := Step.runExecute hpc hout
      have hpc' : ((v.goto e (.running .nothing id)).executors e).pc = .running .nothing id := by
        rw [goto_self]
      refine .step hstep (hreturn (hv.step hstep) ?_ hpc' ?_)
      · exact (congrArg Executor.waits (goto_self v e _)).trans hwaits
      · intro v' hv' hwaits' hpc' hout'
        exact can_look_of_ran hv' hwaits' hpc' nofun hout'
  | user func => exact can_look_of_ran hv hwaits hpc nofun hout
  | nothing => exact can_look_of_ran hv hwaits hpc nofun hout

/-- `Pop` waits for the time of the first task at most. -/
theorem can_look_of_popping (h : w.Alive) (hwaits : (w.executors e).waits = some q)
    (hpc : (w.executors e).pc = .popping) : w.CanLook e q := by
  obtain ⟨p, hp⟩ := Option.ne_none_iff_exists'.mp (h.queue_ne_none hwaits)
  have hpopped : ∀ {v : ExecutorPool α}, v.Alive → v.executors e = w.executors e →
      v.queue q = some p → (∃ task p', p.pop InnerTask.invalid v.now = some (task, p')) →
        v.CanLook e q := by
    intro v hv hsame hp ⟨task, p', hpop⟩
    have hstep := Step.pop (hsame ▸ hpc) (hsame ▸ hwaits) hp hpop
    have hpc' : (((v.setQueue q p').goto e (.running task.exec task.taskId)).executors e).pc =
        .running task.exec task.taskId := by
      rw [goto_self]
    refine .step hstep (can_look_of_running (hv.step hstep) ?_ hpc')
    rw [goto_self, setQueue_executors, hsame]
    exact hwaits
  cases htasks : p.tasks with
  | nil => exact hpopped h rfl hp ⟨_, _, by rw [PriorityQueue.pop, htasks]⟩
  | cons temp rest =>
      have htick := Step.tick (w := w) (le_max_left w.now temp.time)
      refine .step htick (hpopped (h.step htick) rfl ?_ ?_)
      · cases q with
        | delayTasks => exact hp
        | execs => exact hp
      · rw [PriorityQueue.pop, htasks]
        exact ⟨_, _, if_neg (not_lt.mpr (le_max_right w.now temp.time))⟩

theorem can_look_of_idleSize (hpc : (w.executors e).pc = .idleSize) : w.CanLook e .delayTasks := by
  by_cases hsize : w.delayTasks.size = 0
  · exact .look (.idleAgreed hpc hsize)
  · exact .look (.idleRefused hpc hsize)

theorem can_look_of_idling (h : w.Alive) (hwaits : (w.executors e).waits = some .delayTasks)
    (hpc : (w.executors e).pc = .idling) : w.CanLook e .delayTasks := by
  have he : (w.executors e).Ahead .delayTasks := ⟨hwaits, by rw [hpc]; rfl⟩
  obtain ⟨ls, v, hrun, hmtx, hsame, -⟩ := exists_freed h he (by rw [hpc]; rfl)
  have hidle := (h.steady.placed.sane e).idle_eq _ hwaits
  rw [← hsame] at hpc hidle
  refine .run hrun (.step (.idleLock hpc hidle hmtx) (can_look_of_idleSize ?_))
  exact congrArg Executor.pc (goto_self { v with mtx := some (.idle e) } e .idleSize)

theorem can_look_of_ahead (h : w.Alive) (he : (w.executors e).Ahead q) : w.CanLook e q := by
  obtain ⟨hwaits, hahead⟩ := he
  have hsane := h.steady.placed.sane e
  have hwake : (w.executors e).pc = .waiting ∨ (w.executors e).pc = .resting → w.CanLook e q := by
    intro hpc
    have hstep := Step.wake hpc (by rw [hwaits]; rfl)
    refine .step hstep (can_look_of_looping (h.step hstep) ?_ ?_)
    · rw [goto_self]
      exact hwaits
    · rw [goto_self]
  cases hpc : (w.executors e).pc with
  | waiting => exact hwake (.inl hpc)
  | resting => exact hwake (.inr hpc)
  | looping => exact can_look_of_looping h hwaits hpc
  | popping => exact can_look_of_popping h hwaits hpc
  | running job id => exact can_look_of_running h hwaits hpc
  | finishing id => exact can_look_of_finishing h hwaits hpc
  | idling =>
      rw [hpc] at hahead
      obtain rfl : q = .delayTasks := eq_of_beq hahead
      exact can_look_of_idling h hwaits hpc
  | idleSize =>
      rw [hpc] at hahead
      obtain rfl : q = .delayTasks := eq_of_beq hahead
      exact can_look_of_idleSize hpc
  | idlePool | clearing =>
      rw [hpc] at hahead
      cases hahead
  | releasing =>
      rw [hsane.ended (.inl hpc)] at hwaits
      cases hwaits
  | stopped =>
      rw [hsane.ended (.inr hpc)] at hwaits
      cases hwaits

/-! ### Runs -/

/-- **What serves the timer's queue can come to it.** The executor that `timer_queue_served` speaks
of has a run to its next `Size`. -/
theorem timer_queue_reached {max min : UInt64} {ls : List Event}
    (hrun : Run Step (initial max min) ls w) (hcalls : ∀ t, (w.calls t).inSchedule = false)
    (hsize : w.delayTasks.size ≠ 0) :
    ∃ e, w.LooksBeforeIdle e .delayTasks ∧ w.CanLook e .delayTasks := by
  have halive := (alive_initial max min).run hrun
  obtain ⟨e, hahead⟩ := halive.steady.timed.exists_ahead hcalls hsize
  exact ⟨e, looks_before_idle halive.steady.placed hahead, can_look_of_ahead halive hahead⟩

/-- The same for the queue of the workers. -/
theorem worker_queue_reached {max min : UInt64} {ls : List Event}
    (hrun : Run (guarded Step RefusedRightly) (initial max min) ls w)
    (hcalls : ∀ t, (w.calls t).inExecute = false) {p : TaskQueue α} (hp : w.execs = some p)
    (hsize : p.size ≠ 0) : ∃ e, w.LooksBeforeIdle e .execs ∧ w.CanLook e .execs := by
  obtain ⟨hplaced, htended⟩ := tended_run hrun
  obtain ⟨e, hahead⟩ := htended.exists_ahead hcalls hp hsize
  have halive := (alive_initial max min).run hrun.unguard
  exact ⟨e, looks_before_idle hplaced hahead, can_look_of_ahead halive hahead⟩

end NativePreferences.ExecutorPool
