import NativePreferences.ExecutorPool.Machine

/-!
# NativePreferences.ExecutorPool.Places

**Where the executors are.** An executor in the idle list serves no queue, and neither does one
that a call has got and is about to bind; no two calls are about to bind the same one
(`Placed`). So `Bind` never takes an executor away from a queue.

From a `Size` of its queue to the next one an executor serves it: `Executor.Ahead` says that it
is bound to a queue and will call `Size` of it again before `pool_.Idle`. That ends with the call
of `Size` only (`Step.ahead`), in every run (`looks_before_idle`).
-/

namespace NativePreferences

open Lib

variable {α : Type}

/-! ### One executor -/

/-- With these `waits_` is not null. -/
def Executor.Pc.serves : Executor.Pc α → Bool
  | .looping | .popping | .running _ _ | .finishing _ | .idling | .idleSize | .idlePool => true
  | _ => false

/-- `Size` of this queue is still to come before `pool_.Idle`. The last one is in the loop for
`execs_`, and in `idle_` for `delayTasks_`. -/
def Executor.Pc.ahead (q : QueueName) : Executor.Pc α → Bool
  | .idling | .idleSize => q == .delayTasks
  | .idlePool | .clearing => false
  | _ => true

namespace Executor

variable {x x' : Executor α} {q : QueueName}

/-- What `Run` and `Bind` keep of an executor. -/
structure Sane (x : Executor α) : Prop where
  idle_eq : ∀ q, x.waits = some q → x.idle = some q
  serves : x.pc.serves = true → x.waits ≠ none
  timer : x.pc = .idleSize ∨ x.pc = .idlePool → x.waits = some .delayTasks
  ended : x.pc = .releasing ∨ x.pc = .stopped → x.waits = none

/-- It serves no queue, or is about to say so, and may be bound. -/
def Free (x : Executor α) : Prop := (x.pc = .clearing ∨ x.waits = none) ∧ x.pc ≠ .stopped

/-- It is bound to the queue, and will look at it before it goes idle. -/
def Ahead (q : QueueName) (x : Executor α) : Prop := x.waits = some q ∧ x.pc.ahead q = true

theorem Ahead.not_free (h : x.Ahead q) : ¬ x.Free := by
  intro hfree
  obtain hpc | hwaits := hfree.1
  · have hahead := h.2
    rw [hpc] at hahead
    cases q with
    | delayTasks => cases hahead
    | execs => cases hahead
  · rw [h.1] at hwaits
    cases hwaits

theorem Ahead.not_stopped (h : x.Ahead q) (hsane : x.Sane) : x.pc ≠ .stopped := by
  intro hpc
  have hwaits := hsane.ended (.inr hpc)
  rw [h.1] at hwaits
  cases hwaits

/-- What goes idle the way `Schedule` says serves its queue. -/
theorem Sane.waits_timer (h : x.Sane)
    (hidle : x.idle = some .delayTasks) (hwaits : x.waits ≠ none) :
    x.waits = some .delayTasks := by
  obtain ⟨name, hname⟩ := Option.ne_none_iff_exists'.mp hwaits
  rw [h.idle_eq name hname] at hidle
  rw [hname, hidle]

theorem sane_fresh : (fresh : Executor α).Sane :=
  ⟨nofun, nofun, fun h => h.elim nofun nofun, fun _ => rfl⟩

theorem free_fresh : (fresh : Executor α).Free := ⟨.inr rfl, nofun⟩

/-- A free executor whose `mutex_` is free waits. -/
theorem Free.waits_of_unlocked (h : x.Free) (hsane : x.Sane) (hfree : x.pc.unlocked = true) :
    x.pc = .waiting ∨ x.pc = .resting := by
  obtain ⟨hx, hstopped⟩ := h
  cases hpc : x.pc with
  | waiting => exact .inl rfl
  | resting => exact .inr rfl
  | stopped => exact absurd hpc hstopped
  | running job id =>
      have hnone : x.waits ≠ none := hsane.serves (by rw [hpc]; rfl)
      obtain hclearing | hwaits := hx
      · rw [hpc] at hclearing
        cases hclearing
      · exact absurd hwaits hnone
  | _ =>
      rw [hpc] at hfree
      cases hfree

theorem sane_bind (hpc : x.pc = .waiting ∨ x.pc = .resting) : (x.bind q).Sane := by
  refine ⟨fun _ h => h, nofun, ?_, ?_⟩
  all_goals
    intro hbad
    obtain hpc | hpc := hpc
    all_goals
      change x.pc = _ ∨ x.pc = _ at hbad
      rw [hpc] at hbad
      exact hbad.elim nofun nofun

theorem ahead_bind (hpc : x.pc = .waiting ∨ x.pc = .resting) : (x.bind q).Ahead q := by
  refine ⟨rfl, ?_⟩
  show x.pc.ahead q = true
  obtain hpc | hpc := hpc
  all_goals
    rw [hpc]
    rfl

/-- What a step of an executor in `Run` does to it, apart from the one that goes idle: it is
sane and free if it was, and comes no nearer to its queue. -/
structure Moved (x x' : Executor α) : Prop where
  sane : x'.Sane
  free : x.Free → x'.Free
  ahead : ∀ q, x'.Ahead q → x.Ahead q

/-- A step from one place where a queue is served to another. -/
theorem Moved.of_serves {pc : Pc α} (h : x.Sane) (hwaits : x.waits ≠ none)
    (hpc : x.pc ≠ .clearing) (hserves : pc.serves = true)
    (htimer : pc = .idleSize ∨ pc = .idlePool → x.waits = some .delayTasks)
    (hahead : ∀ q, x.waits = some q → pc.ahead q = true → x.pc.ahead q = true) :
    x.Moved { x with pc } where
  sane := by
    refine ⟨h.idle_eq, fun _ => hwaits, htimer, ?_⟩
    intro hbad
    change pc = _ ∨ pc = _ at hbad
    obtain rfl | rfl := hbad
    · cases hserves
    · cases hserves
  free hfree := by
    obtain hclearing | hnone := hfree.1
    · exact absurd hclearing hpc
    · exact absurd hnone hwaits
  ahead q hx := ⟨hx.1, hahead q hx.1 hx.2⟩

end Executor

namespace ExecutorPool

/-- The executor that a call has got and has not bound yet. -/
def Call.binds : Call α → Option Nat
  | .scheduleBind _ e | .executeBind _ e => some e
  | _ => none

/-- The call is about to bind the executor to the queue. -/
def Call.binding (q : QueueName) (id : TaskId) (e : Nat) : Call α :=
  match q with
  | .delayTasks => .scheduleBind id e
  | .execs => .executeBind id e

theorem Call.binds_binding (q : QueueName) (id : TaskId) (e : Nat) :
    (Call.binding q id e : Call α).binds = some e := by
  cases q with
  | delayTasks => rfl
  | execs => rfl

/-- The executors of the pool are where its lists say. -/
structure Placed (w : ExecutorPool α) : Prop where
  nodup : w.pool.nodes.Nodup
  made : ∀ e ∈ w.pool.nodes, e < w.made
  fresh : ∀ e, w.made ≤ e → w.executors e = .fresh
  sane : ∀ e, (w.executors e).Sane
  idle : ∀ e ∈ w.pool.idle, (w.executors e).Free
  binds : ∀ t e, (w.calls t).binds = some e → e ∈ w.pool.busy ∧ (w.executors e).Free
  unique : ∀ t t' e, (w.calls t).binds = some e → (w.calls t').binds = some e → t = t'

/-- What a step does to the executors and to the pool. -/
inductive Effect (w w' : ExecutorPool α) (ev : Event) : Prop
  /-- Nothing. -/
  | quiet (hpool : w'.pool = w.pool) (hmade : w'.made = w.made)
      (hexecutors : w'.executors = w.executors)
      (hcalls : ∀ t, (w'.calls t).binds = (w.calls t).binds) (hev : ∀ e, ev ≠ .idled e)
  /-- An executor goes on. -/
  | moved (e : Nat) (x : Executor α) (hpool : w'.pool = w.pool) (hmade : w'.made = w.made)
      (hexecutors : w'.executors = Function.update w.executors e x)
      (hcalls : ∀ t, (w'.calls t).binds = (w.calls t).binds) (hev : ∀ e, ev ≠ .idled e)
      (he : e < w.made) (hmoved : (w.executors e).Moved x)
      (hahead : ∀ q, (w.executors e).Ahead q → x.Ahead q ∨ ev = .looked e q)
  /-- A call gets an executor. -/
  | got (t : Thread) (e : Nat) (force : Bool) (c : Call α)
      (hget : w.pool.get force w.made = (some e, w'.pool))
      (hmade : w'.made = if e = w.made then w.made + 1 else w.made)
      (hexecutors : w'.executors = w.executors)
      (hcalls : w'.calls = Function.update w.calls t c) (hbinds : c.binds = some e)
      (hev : ∀ e, ev ≠ .idled e)
  /-- A call binds the executor that it got. -/
  | bound (t : Thread) (id : TaskId) (e : Nat) (q : QueueName) (c : Call α)
      (hpool : w'.pool = w.pool) (hmade : w'.made = w.made)
      (hexecutors : w'.executors = Function.update w.executors e ((w.executors e).bind q))
      (hcalls : w'.calls = Function.update w.calls t c) (hbinds : c.binds = none)
      (hgot : w.calls t = .binding q id e) (hfree : (w.executors e).pc.unlocked = true)
      (hev : ∀ e, ev ≠ .idled e)
  /-- An executor goes idle. -/
  | idled (e : Nat) (hpool : w'.pool = w.pool.toIdle e) (hmade : w'.made = w.made)
      (hexecutors : w'.executors =
        Function.update w.executors e { w.executors e with pc := .clearing })
      (hcalls : w'.calls = w.calls) (he : e < w.made) (hserves : (w.executors e).pc.serves = true)
      (hahead : ∀ q, ¬ (w.executors e).Ahead q) (hev : ∀ d, ev = .idled d → d = e)
  /-- An executor ends. -/
  | released (e : Nat) (hrelease : w.pool.release e false = (true, w'.pool))
      (hmade : w'.made = w.made)
      (hexecutors : w'.executors =
        Function.update w.executors e { w.executors e with pc := .stopped })
      (hcalls : w'.calls = w.calls) (hpc : (w.executors e).pc = .releasing)
      (hev : ∀ e, ev ≠ .idled e)

variable {w w' : ExecutorPool α} {ev : Event} {t : Thread} {e : Nat} {q : QueueName}

theorem binds_update {c : Call α} (h : (w.calls t).binds = none) (hc : c.binds = none)
    (u : Thread) : (Function.update w.calls t c u).binds = (w.calls u).binds := by
  by_cases hu : u = t
  · rw [hu, Function.update_self, h, hc]
  · rw [Function.update_of_ne hu]

/-- An executor that is not at its start has been made. -/
theorem Placed.lt_made (h : w.Placed) (hpc : (w.executors e).pc ≠ .waiting) : e < w.made := by
  by_contra hge
  rw [h.fresh e (Nat.le_of_not_lt hge)] at hpc
  exact hpc rfl

theorem Placed.lt_made_of_waits (h : w.Placed) (hwaits : (w.executors e).waits ≠ none) :
    e < w.made := by
  by_contra hge
  rw [h.fresh e (Nat.le_of_not_lt hge)] at hwaits
  exact hwaits rfl

/-- Updated executors are sane if the one that changed is. -/
theorem Placed.sane_update (h : w.Placed) {x : Executor α} (hx : x.Sane) (d : Nat) :
    (Function.update w.executors e x d).Sane := by
  by_cases hd : d = e
  · rw [hd, Function.update_self]
    exact hx
  · rw [Function.update_of_ne hd]
    exact h.sane d

theorem Placed.fresh_update (h : w.Placed) {x : Executor α} (he : e < w.made) (d : Nat)
    (hd : w.made ≤ d) : Function.update w.executors e x d = .fresh := by
  rw [Function.update_of_ne (Nat.ne_of_gt (Nat.lt_of_lt_of_le he hd))]
  exact h.fresh d hd

theorem Placed.moved (h : w.Placed) {x : Executor α} (he : e < w.made)
    (hmoved : (w.executors e).Moved x) (hpool : w'.pool = w.pool) (hmade : w'.made = w.made)
    (hexecutors : w'.executors = Function.update w.executors e x)
    (hcalls : ∀ t, (w'.calls t).binds = (w.calls t).binds) : w'.Placed := by
  have hfree : ∀ d, (w.executors d).Free → (w'.executors d).Free := by
    intro d hd
    rw [hexecutors]
    by_cases hde : d = e
    · rw [hde] at hd ⊢
      rw [Function.update_self]
      exact hmoved.free hd
    · rw [Function.update_of_ne hde]
      exact hd
  refine ⟨?_, ?_, ?_, ?_, ?_, ?_, ?_⟩
  · rw [hpool]
    exact h.nodup
  · rw [hpool, hmade]
    exact h.made
  · rw [hexecutors, hmade]
    exact h.fresh_update he
  · rw [hexecutors]
    exact h.sane_update hmoved.sane
  · intro d hd
    rw [hpool] at hd
    exact hfree d (h.idle d hd)
  · intro t d hd
    rw [hcalls] at hd
    obtain ⟨hbusy, hd⟩ := h.binds t d hd
    rw [hpool]
    exact ⟨hbusy, hfree d hd⟩
  · intro t t' d ht ht'
    rw [hcalls] at ht ht'
    exact h.unique t t' d ht ht'

/-- Nobody is about to bind an executor that a `Get` returns. -/
theorem Placed.not_binds_got (h : w.Placed) {force : Bool} {pool : Pool}
    (hget : w.pool.get force w.made = (some e, pool)) (t : Thread) :
    (w.calls t).binds ≠ some e := by
  intro hbinds
  have hbusy := (h.binds t e hbinds).1
  obtain ⟨hidle, -⟩ | ⟨hfresh, -⟩ := Pool.get_some hget
  · exact (List.nodup_append.mp h.nodup).2.2 e hidle e hbusy rfl
  · rw [hfresh] at hbusy
    exact absurd (h.made w.made (List.mem_append_right _ hbusy)) (Nat.lt_irrefl _)

/-- What a `Get` returns is free. -/
theorem Placed.free_got (h : w.Placed) {force : Bool} {pool : Pool}
    (hget : w.pool.get force w.made = (some e, pool)) : (w.executors e).Free := by
  obtain ⟨hidle, -⟩ | ⟨hfresh, -⟩ := Pool.get_some hget
  · exact h.idle e hidle
  · rw [hfresh, h.fresh w.made (Nat.le_refl _)]
    exact Executor.free_fresh

/-- An executor is in one list only. -/
theorem Placed.not_idle_of_busy (h : w.Placed) (he : e ∈ w.pool.busy) : e ∉ w.pool.idle :=
  fun hidle => (List.nodup_append.mp h.nodup).2.2 e hidle e he rfl

theorem Placed.got (h : w.Placed) {force : Bool} {c : Call α}
    (hget : w.pool.get force w.made = (some e, w'.pool))
    (hmade : w'.made = if e = w.made then w.made + 1 else w.made)
    (hexecutors : w'.executors = w.executors)
    (hcalls : w'.calls = Function.update w.calls t c) (hbinds : c.binds = some e) :
    w'.Placed := by
  have hfree : (w.executors e).Free := h.free_got hget
  have hnew : ∀ u, (w.calls u).binds ≠ some e := h.not_binds_got hget
  have hgrow : w.made ≤ w'.made := by
    rw [hmade]
    split
    · exact Nat.le_succ _
    · exact Nat.le_refl _
  -- the executors of the pool afterwards
  obtain ⟨hnodup, hnodes, hbusy, hidle⟩ : w'.pool.nodes.Nodup ∧
      (∀ d ∈ w'.pool.nodes, d < w'.made) ∧ w'.pool.busy = e :: w.pool.busy ∧
      w'.pool.idle ⊆ w.pool.idle := by
    obtain ⟨-, hperm, hbusy, hidle⟩ | ⟨rfl, hperm, hbusy, hidle⟩ := Pool.get_some hget
    · refine ⟨hperm.nodup_iff.mpr h.nodup, ?_, hbusy, hidle⟩
      intro d hd
      exact Nat.lt_of_lt_of_le (h.made d (hperm.subset hd)) hgrow
    · have hnotin : w.made ∉ w.pool.nodes := fun hin => absurd (h.made _ hin) (Nat.lt_irrefl _)
      refine ⟨hperm.nodup_iff.mpr (List.nodup_cons.mpr ⟨hnotin, h.nodup⟩), ?_, hbusy, ?_⟩
      · intro d hd
        rw [hmade, if_pos rfl]
        obtain rfl | hd := List.mem_cons.mp (hperm.subset hd)
        · exact Nat.lt_succ_self _
        · exact Nat.lt_succ_of_lt (h.made d hd)
      · rw [hidle]
        exact fun _ hd => hd
  refine ⟨hnodup, hnodes, ?_, ?_, ?_, ?_, ?_⟩
  · intro d hd
    rw [hexecutors]
    exact h.fresh d (Nat.le_trans hgrow hd)
  · rw [hexecutors]
    exact h.sane
  · rw [hexecutors]
    exact fun d hd => h.idle d (hidle hd)
  · intro u d hd
    rw [hcalls] at hd
    rw [hexecutors, hbusy]
    by_cases hu : u = t
    · rw [hu, Function.update_self, hbinds] at hd
      obtain rfl := Option.some.inj hd
      exact ⟨List.mem_cons_self, hfree⟩
    · rw [Function.update_of_ne hu] at hd
      obtain ⟨hd, hdfree⟩ := h.binds u d hd
      exact ⟨List.mem_cons_of_mem _ hd, hdfree⟩
  · intro u u' d hd hd'
    rw [hcalls] at hd hd'
    by_cases hu : u = t
    · by_cases hu' : u' = t
      · rw [hu, hu']
      · rw [hu, Function.update_self, hbinds] at hd
        rw [Function.update_of_ne hu', ← hd] at hd'
        exact absurd hd' (hnew u')
    · by_cases hu' : u' = t
      · rw [hu', Function.update_self, hbinds] at hd'
        rw [Function.update_of_ne hu, ← hd'] at hd
        exact absurd hd (hnew u)
      · rw [Function.update_of_ne hu] at hd
        rw [Function.update_of_ne hu'] at hd'
        exact h.unique u u' d hd hd'

theorem Placed.bound (h : w.Placed) {c : Call α} (hpool : w'.pool = w.pool)
    (hmade : w'.made = w.made)
    (hexecutors : w'.executors = Function.update w.executors e ((w.executors e).bind q))
    (hcalls : w'.calls = Function.update w.calls t c) (hbinds : c.binds = none)
    (hgot : (w.calls t).binds = some e) (hfree : (w.executors e).pc.unlocked = true) :
    w'.Placed := by
  obtain ⟨hbusy, hfree'⟩ := h.binds t e hgot
  have hpc := hfree'.waits_of_unlocked (h.sane e) hfree
  have he : e < w.made := h.made e (List.mem_append_right _ hbusy)
  -- who is about to bind afterwards was before, and another executor
  have hrest : ∀ u d, (w'.calls u).binds = some d → (w.calls u).binds = some d ∧ d ≠ e := by
    intro u d hd
    rw [hcalls] at hd
    have hu : u ≠ t := by
      intro hu
      rw [hu, Function.update_self, hbinds] at hd
      cases hd
    rw [Function.update_of_ne hu] at hd
    refine ⟨hd, ?_⟩
    intro hde
    rw [hde] at hd
    exact hu (h.unique u t e hd hgot)
  refine ⟨?_, ?_, ?_, ?_, ?_, ?_, ?_⟩
  · rw [hpool]
    exact h.nodup
  · rw [hpool, hmade]
    exact h.made
  · rw [hexecutors, hmade]
    exact h.fresh_update he
  · rw [hexecutors]
    exact h.sane_update (Executor.sane_bind hpc)
  · intro d hd
    rw [hpool] at hd
    have hde : d ≠ e := by
      intro hde
      rw [hde] at hd
      exact h.not_idle_of_busy hbusy hd
    rw [hexecutors, Function.update_of_ne hde]
    exact h.idle d hd
  · intro u d hd
    obtain ⟨hd, hde⟩ := hrest u d hd
    rw [hpool, hexecutors, Function.update_of_ne hde]
    exact h.binds u d hd
  · intro u u' d hd hd'
    exact h.unique u u' d (hrest u d hd).1 (hrest u' d hd').1

theorem Placed.idled (h : w.Placed) (hpool : w'.pool = w.pool.toIdle e)
    (hmade : w'.made = w.made)
    (hexecutors : w'.executors =
      Function.update w.executors e { w.executors e with pc := .clearing })
    (hcalls : w'.calls = w.calls) (he : e < w.made)
    (hserves : (w.executors e).pc.serves = true) : w'.Placed := by
  have hperm : w'.pool.nodes.Perm w.pool.nodes := by
    rw [hpool]
    exact Pool.toIdle_nodes e w.pool
  have hnot : ¬ (w.executors e).Free := by
    intro hfree
    obtain hpc | hwaits := hfree.1
    · rw [hpc] at hserves
      cases hserves
    · exact (h.sane e).serves hserves hwaits
  refine ⟨hperm.nodup_iff.mpr h.nodup, ?_, ?_, ?_, ?_, ?_, ?_⟩
  · rw [hmade]
    exact fun d hd => h.made d (hperm.subset hd)
  · rw [hexecutors, hmade]
    exact h.fresh_update he
  · rw [hexecutors]
    refine h.sane_update ⟨(h.sane e).idle_eq, nofun, ?_, ?_⟩
    · exact fun hbad => hbad.elim nofun nofun
    · exact fun hbad => hbad.elim nofun nofun
  · intro d hd
    rw [hpool] at hd
    rw [hexecutors]
    by_cases hde : d = e
    · rw [hde, Function.update_self]
      exact ⟨.inl rfl, nofun⟩
    · rw [Function.update_of_ne hde]
      exact h.idle d ((Pool.mem_toIdle_idle hd).resolve_left hde)
  · intro u d hd
    rw [hcalls] at hd
    obtain ⟨hbusy, hfree⟩ := h.binds u d hd
    have hde : d ≠ e := by
      intro hde
      rw [hde] at hfree
      exact hnot hfree
    rw [hpool, hexecutors, Function.update_of_ne hde]
    exact ⟨(Pool.mem_toIdle_busy hde).mpr hbusy, hfree⟩
  · rw [hcalls]
    exact h.unique

theorem Placed.released (h : w.Placed) (hrelease : w.pool.release e false = (true, w'.pool))
    (hmade : w'.made = w.made)
    (hexecutors : w'.executors =
      Function.update w.executors e { w.executors e with pc := .stopped })
    (hcalls : w'.calls = w.calls) (hpc : (w.executors e).pc = .releasing) : w'.Placed := by
  obtain ⟨hmem, hidle, hbusy⟩ := Pool.release_true hrelease
  have he : e < w.made := h.made e (List.mem_append_left _ hmem)
  have hsub : w'.pool.nodes.Sublist w.pool.nodes := by
    rw [Pool.nodes, hidle, hbusy]
    exact (List.erase_sublist ..).append_right w.pool.busy
  refine ⟨h.nodup.sublist hsub, ?_, ?_, ?_, ?_, ?_, ?_⟩
  · rw [hmade]
    exact fun d hd => h.made d (hsub.subset hd)
  · rw [hexecutors, hmade]
    exact h.fresh_update he
  · rw [hexecutors]
    refine h.sane_update ⟨(h.sane e).idle_eq, ?_, ?_, fun _ => (h.sane e).ended (.inl hpc)⟩
    · intro hbad
      cases hbad
    · intro hbad
      rcases hbad with hbad | hbad
      · cases hbad
      · cases hbad
  · intro d hd
    rw [hidle] at hd
    have hnodup : w.pool.idle.Nodup := (List.nodup_append.mp h.nodup).1
    have hde : d ≠ e := by
      intro hde
      rw [hde] at hd
      exact hnodup.not_mem_erase hd
    rw [hexecutors, Function.update_of_ne hde]
    exact h.idle d (List.mem_of_mem_erase hd)
  · intro u d hd
    rw [hcalls] at hd
    obtain ⟨hd, hfree⟩ := h.binds u d hd
    have hde : d ≠ e := by
      intro hde
      rw [hde] at hd
      exact h.not_idle_of_busy hd hmem
    rw [hbusy, hexecutors, Function.update_of_ne hde]
    exact ⟨hd, hfree⟩
  · rw [hcalls]
    exact h.unique

theorem Placed.effect (h : w.Placed) (heffect : Effect w w' ev) : w'.Placed := by
  cases heffect with
  | quiet hpool hmade hexecutors hcalls =>
      refine ⟨?_, ?_, ?_, ?_, ?_, ?_, ?_⟩
      · exact hpool ▸ h.nodup
      · exact hpool ▸ hmade ▸ h.made
      · exact hexecutors ▸ hmade ▸ h.fresh
      · exact hexecutors ▸ h.sane
      · exact hpool ▸ hexecutors ▸ h.idle
      · intro t e hbinds
        rw [hpool, hexecutors]
        exact h.binds t e ((hcalls t).symm.trans hbinds)
      · intro t t' e ht ht'
        exact h.unique t t' e ((hcalls t).symm.trans ht) ((hcalls t').symm.trans ht')
  | moved e x hpool hmade hexecutors hcalls hev he hmoved hahead =>
      exact h.moved he hmoved hpool hmade hexecutors hcalls
  | got t e force c hget hmade hexecutors hcalls hbinds hev =>
      exact h.got hget hmade hexecutors hcalls hbinds
  | bound t id e q c hpool hmade hexecutors hcalls hbinds hgot hfree hev =>
      have hbefore : (w.calls t).binds = some e := by
        rw [hgot, Call.binds_binding]
      exact h.bound hpool hmade hexecutors hcalls hbinds hbefore hfree
  | idled e hpool hmade hexecutors hcalls he hserves hahead hev =>
      exact h.idled hpool hmade hexecutors hcalls he hserves
  | released e hrelease hmade hexecutors hcalls hpc hev =>
      exact h.released hrelease hmade hexecutors hcalls hpc

/-! ### One step -/

theorem setCall_quiet {c : Call α} (hcall : (w.calls t).binds = none) (hc : c.binds = none)
    (hpool : w'.pool = w.pool) (hmade : w'.made = w.made) (hexecutors : w'.executors = w.executors)
    (hcalls : w'.calls = Function.update w.calls t c) (hev : ∀ e, ev ≠ .idled e) :
    Effect w w' ev :=
  .quiet hpool hmade hexecutors (fun u => hcalls ▸ binds_update hcall hc u) hev

/-- An executor that serves a queue goes on to a place where it still does. -/
theorem Placed.goes (h : w.Placed) (pc : Executor.Pc α) (hwaits : (w.executors e).waits ≠ none)
    (hpc : (w.executors e).pc ≠ .clearing) (hserves : pc.serves = true)
    (htimer : pc = .idleSize ∨ pc = .idlePool → (w.executors e).waits = some .delayTasks)
    (hback : ∀ q, (w.executors e).waits = some q → pc.ahead q = true →
      (w.executors e).pc.ahead q = true)
    (hahead : ∀ q, (w.executors e).Ahead q → pc.ahead q = true ∨ ev = .looked e q)
    (hpool : w'.pool = w.pool) (hmade : w'.made = w.made)
    (hexecutors : w'.executors = Function.update w.executors e { w.executors e with pc })
    (hcalls : ∀ t, (w'.calls t).binds = (w.calls t).binds) (hev : ∀ e, ev ≠ .idled e) :
    Effect w w' ev := by
  refine .moved e { w.executors e with pc } hpool hmade hexecutors hcalls hev
    (h.lt_made_of_waits hwaits) (.of_serves (h.sane e) hwaits hpc hserves htimer hback) ?_
  intro q hq
  exact (hahead q hq).imp_left (fun hpc => ⟨hq.1, hpc⟩)

/-- It stays before a call of `Size`. -/
theorem Placed.goes_ahead (h : w.Placed) (pc : Executor.Pc α) (hserves : pc.serves = true)
    (hpc : ∀ q, (w.executors e).pc.ahead q = true) (hpc' : ∀ q, pc.ahead q = true)
    (hwaits : (w.executors e).waits ≠ none)
    (hpool : w'.pool = w.pool) (hmade : w'.made = w.made)
    (hexecutors : w'.executors = Function.update w.executors e { w.executors e with pc })
    (hcalls : ∀ t, (w'.calls t).binds = (w.calls t).binds) (hev : ∀ e, ev ≠ .idled e) :
    Effect w w' ev := by
  have hclearing : (w.executors e).pc ≠ .clearing := by
    intro hbad
    have hahead := hpc .execs
    rw [hbad] at hahead
    cases hahead
  refine h.goes pc hwaits hclearing hserves ?_ (fun q _ _ => hpc q) (fun q _ => .inl (hpc' q))
    hpool hmade hexecutors hcalls hev
  intro hbad
  have hahead := hpc' .execs
  obtain hbad | hbad := hbad
  all_goals
    rw [hbad] at hahead
    cases hahead

/-- An executor that serves no queue goes on. -/
theorem goes_free (x : Executor α) (he : e < w.made)
    (hwaits : x.waits = none) (hserves : x.pc.serves = false) (hstopped : x.pc ≠ .stopped)
    (hnot : ∀ q, ¬ (w.executors e).Ahead q)
    (hpool : w'.pool = w.pool) (hmade : w'.made = w.made)
    (hexecutors : w'.executors = Function.update w.executors e x) (hcalls : w'.calls = w.calls)
    (hev : ∀ e, ev ≠ .idled e) : Effect w w' ev := by
  have hmoved : (w.executors e).Moved x := by
    refine ⟨⟨?_, ?_, ?_, fun _ => hwaits⟩, fun _ => ⟨.inr hwaits, hstopped⟩, ?_⟩
    · intro q hq
      rw [hwaits] at hq
      cases hq
    · intro hbad
      rw [hserves] at hbad
      cases hbad
    · intro hbad
      obtain hbad | hbad := hbad
      all_goals
        rw [hbad] at hserves
        cases hserves
    · intro q hq
      have hnone := hq.1
      rw [hwaits] at hnone
      cases hnone
  exact .moved e x hpool hmade hexecutors (fun t => by rw [hcalls]) hev he hmoved
    (fun q hq => absurd hq (hnot q))

/-- Where `waits_` is null no queue is served. -/
theorem not_ahead_of_waits (hwaits : (w.executors e).waits = none) (q : QueueName) :
    ¬ (w.executors e).Ahead q := by
  intro hq
  have hnone := hq.1
  rw [hwaits] at hnone
  cases hnone

theorem not_ahead_of_pc {pc : Executor.Pc α} (hpc : (w.executors e).pc = pc)
    (hnot : ∀ q, pc.ahead q = false) (q : QueueName) : ¬ (w.executors e).Ahead q := by
  intro hq
  have hahead := hq.2
  rw [hpc, hnot] at hahead
  cases hahead

theorem ahead_self {x : Executor α} (hwaits : x.waits = some q)
    (hpc : x.pc.ahead q = true) : (Function.update w.executors e x e).Ahead q := by
  rw [Function.update_self]
  exact ⟨hwaits, hpc⟩

theorem Step.effect (hstep : Step w ev w') (h : w.Placed) : Effect w w' ev := by
  cases hstep with
  | tick hlater => exact .quiet rfl rfl rfl (fun _ => rfl) nofun
  | schedule task delay interval times hcall hmay =>
      exact setCall_quiet (by rw [hcall]; rfl) rfl rfl rfl rfl rfl nofun
  | @execute t task hcall hmay =>
      unfold ExecutorPool.execute
      cases w.execs with
      | none => exact setCall_quiet (by rw [hcall]; rfl) rfl rfl rfl rfl rfl nofun
      | some q => exact setCall_quiet (by rw [hcall]; rfl) rfl rfl rfl rfl rfl nofun
  | schedulePush hcall => exact setCall_quiet (by rw [hcall]; rfl) rfl rfl rfl rfl rfl nofun
  | scheduleLock hcall hfree => exact setCall_quiet (by rw [hcall]; rfl) rfl rfl rfl rfl rfl nofun
  | schedulerThere hcall hthere =>
      exact setCall_quiet (by rw [hcall]; rfl) rfl rfl rfl rfl rfl nofun
  | scheduleGet hcall hnone hget => exact .got _ _ true _ hget rfl rfl rfl rfl nofun
  | scheduleBind hcall hfree =>
      exact .bound _ _ _ .delayTasks _ rfl rfl rfl rfl rfl hcall hfree nofun
  | scheduleUnlock hcall => exact setCall_quiet (by rw [hcall]; rfl) rfl rfl rfl rfl rfl nofun
  | executePush hcall hqueue => exact setCall_quiet (by rw [hcall]; rfl) rfl rfl rfl rfl rfl nofun
  | executeGet hcall hget => exact .got _ _ false _ hget rfl rfl rfl rfl nofun
  | executeRefused hcall hget => exact setCall_quiet (by rw [hcall]; rfl) rfl rfl rfl rfl rfl nofun
  | executeBind hcall hfree =>
      exact .bound _ _ _ .execs _ rfl rfl rfl rfl rfl hcall hfree nofun
  | @wake e hpc hbound =>
      have hahead : ∀ q, (w.executors e).pc.ahead q = true := by
        intro q
        obtain hpc | hpc := hpc
        all_goals
          rw [hpc]
          rfl
      exact h.goes_ahead .looping rfl hahead (fun _ => rfl) (Option.isSome_iff_ne_none.mp hbound)
        rfl rfl rfl (fun _ => rfl) nofun
  | @more e name q hpc hwaits hqueue hsize =>
      exact h.goes_ahead .popping rfl (fun q => by rw [hpc]; rfl) (fun _ => rfl)
        (by rw [hwaits]; nofun) rfl rfl rfl (fun _ => rfl) nofun
  | @noMore e name q hpc hwaits hqueue hsize =>
      refine h.goes .idling (by rw [hwaits]; nofun) (by rw [hpc]; nofun) rfl
        (fun hbad => hbad.elim nofun nofun) (fun q _ _ => by rw [hpc]; rfl) ?_
        rfl rfl rfl (fun _ => rfl) nofun
      intro q hq
      obtain rfl : name = q := Option.some.inj (hwaits.symm.trans hq.1)
      exact .inr rfl
  | @unbound e hpc hwaits => exact absurd hwaits ((h.sane e).serves (by rw [hpc]; rfl))
  | @pop e name q q' currentTask hpc hwaits hqueue hpop =>
      exact h.goes_ahead (.running currentTask.exec currentTask.taskId) rfl
        (fun q => by rw [hpc]; rfl) (fun _ => rfl) (by rw [hwaits]; nofun)
        (by cases name <;> rfl) (by cases name <;> rfl) (by cases name <;> rfl)
        (by cases name <;> exact fun _ => rfl) nofun
  | @runExecute e func id taskId hpc hcalls =>
      have hnone : (w.calls (.executor e)).binds = none := by
        rw [hcalls]
        rfl
      exact h.goes_ahead (.running .nothing taskId) rfl (fun q => by rw [hpc]; rfl) (fun _ => rfl)
        ((h.sane e).serves (by rw [hpc]; rfl)) rfl rfl rfl (binds_update hnone rfl) nofun
  | @ran e job taskId hpc hjob hcalls =>
      exact h.goes_ahead (.finishing taskId) rfl (fun q => by rw [hpc]; rfl) (fun _ => rfl)
        ((h.sane e).serves (by rw [hpc]; rfl)) rfl rfl rfl (fun _ => rfl) nofun
  | @finish e name q taskId hpc hwaits hqueue =>
      exact h.goes_ahead .looping rfl (fun q => by rw [hpc]; rfl) (fun _ => rfl)
        (by rw [hwaits]; nofun)
        (by cases name <;> rfl) (by cases name <;> rfl) (by cases name <;> rfl)
        (by cases name <;> exact fun _ => rfl) nofun
  | @idle e hpc hidle =>
      refine .idled e rfl rfl rfl rfl (h.lt_made (by rw [hpc]; nofun)) (by rw [hpc]; rfl) ?_
        (fun d hd => (Event.idled.inj hd).symm)
      intro q hq
      obtain rfl : QueueName.execs = q := by
        have hq' := (h.sane e).idle_eq q hq.1
        rw [hidle] at hq'
        exact Option.some.inj hq'
      have hahead := hq.2
      rw [hpc] at hahead
      cases hahead
  | @idleLock e hpc hidle hfree =>
      have hne : (w.executors e).waits ≠ none := (h.sane e).serves (by rw [hpc]; rfl)
      have hwaits := (h.sane e).waits_timer hidle hne
      refine h.goes .idleSize hne (by rw [hpc]; nofun) rfl (fun _ => hwaits) ?_ ?_
        rfl rfl rfl (fun _ => rfl) nofun
      · intro q _ hq
        rw [hpc]
        exact hq
      · intro q hq
        have hahead := hq.2
        rw [hpc] at hahead
        exact .inl hahead
  | @idleRefused e hpc hsize =>
      have hwaits := (h.sane e).timer (.inl hpc)
      have hnext : (w.executors e).atWaitUntil = { w.executors e with pc := .looping } := by
        have hbound : (w.executors e).waits.isSome = true := by
          rw [hwaits]
          rfl
        rw [Executor.atWaitUntil, if_pos hbound]
      rw [hnext]
      refine h.goes .looping (by rw [hwaits]; nofun) (by rw [hpc]; nofun) rfl
        (fun hbad => hbad.elim nofun nofun) ?_ (fun q _ => .inl rfl) rfl rfl rfl (fun _ => rfl)
        nofun
      intro q hq _
      obtain rfl : QueueName.delayTasks = q := Option.some.inj (hwaits.symm.trans hq)
      rw [hpc]
      rfl
  | @idleAgreed e hpc hsize =>
      have hwaits := (h.sane e).timer (.inl hpc)
      refine h.goes .idlePool (by rw [hwaits]; nofun) (by rw [hpc]; nofun) rfl (fun _ => hwaits)
        (fun q _ hq => nomatch hq) ?_ rfl rfl rfl (fun _ => rfl) nofun
      intro q hq
      obtain rfl : QueueName.delayTasks = q := Option.some.inj (hwaits.symm.trans hq.1)
      exact .inr rfl
  | @idlePool e hpc =>
      exact .idled e rfl rfl rfl rfl (h.lt_made (by rw [hpc]; nofun)) (by rw [hpc]; rfl)
        (not_ahead_of_pc hpc (fun _ => rfl)) (fun d hd => (Event.idled.inj hd).symm)
  | @clear e hpc =>
      exact goes_free { w.executors e with pc := .resting, waits := none }
        (h.lt_made (by rw [hpc]; nofun)) rfl rfl nofun
        (not_ahead_of_pc hpc (fun _ => rfl)) rfl rfl rfl rfl nofun
  | @timeOut e hpc hwaits =>
      exact goes_free { w.executors e with pc := .releasing } (h.lt_made (by rw [hpc]; nofun))
        hwaits rfl nofun (not_ahead_of_waits hwaits) rfl rfl rfl rfl nofun
  | @released e pool hpc hrelease =>
      exact .released e hrelease rfl rfl rfl hpc nofun
  | @kept e pool hpc hrelease =>
      have hwaits := (h.sane e).ended (.inl hpc)
      exact goes_free { w.executors e with pc := .waiting } (h.lt_made (by rw [hpc]; nofun))
        hwaits rfl nofun (not_ahead_of_waits hwaits) (Pool.release_false hrelease) rfl rfl rfl
        nofun

theorem Placed.step (h : w.Placed) (hstep : Step w ev w') : w'.Placed := h.effect (hstep.effect h)

/-- An executor that is ahead of its queue stays so until it looks at it. -/
theorem Step.ahead (hstep : Step w ev w') (h : w.Placed) (he : (w.executors e).Ahead q) :
    (w'.executors e).Ahead q ∧ ev ≠ .idled e ∨ ev = .looked e q := by
  cases hstep.effect h with
  | quiet hpool hmade hexecutors hcalls hev =>
      rw [hexecutors]
      exact .inl ⟨he, hev e⟩
  | moved d x hpool hmade hexecutors hcalls hev hd hmoved hahead =>
      rw [hexecutors]
      by_cases hde : e = d
      · rw [hde, Function.update_self]
        rw [hde] at he
        exact (hahead q he).imp_left (fun hx => ⟨hx, hev d⟩)
      · rw [Function.update_of_ne hde]
        exact .inl ⟨he, hev e⟩
  | got t d force c hget hmade hexecutors hcalls hbinds hev =>
      rw [hexecutors]
      exact .inl ⟨he, hev e⟩
  | bound t id d q' c hpool hmade hexecutors hcalls hbinds hgot hfree hev =>
      -- what is bound is free, so it is another one
      have hde : e ≠ d := by
        intro hde
        rw [hde] at he
        exact he.not_free (h.binds t d (hgot ▸ Call.binds_binding q' id d)).2
      rw [hexecutors, Function.update_of_ne hde]
      exact .inl ⟨he, hev e⟩
  | idled d hpool hmade hexecutors hcalls hd hserves hahead hev =>
      have hde : e ≠ d := by
        intro hde
        rw [hde] at he
        exact hahead q he
      rw [hexecutors, Function.update_of_ne hde]
      exact .inl ⟨he, fun hidled => hde (hev e hidled)⟩
  | released d hrelease hmade hexecutors hcalls hpc hev =>
      have hde : e ≠ d := by
        intro hde
        rw [hde] at he
        exact not_ahead_of_waits ((h.sane d).ended (.inl hpc)) q he
      rw [hexecutors, Function.update_of_ne hde]
      exact .inl ⟨he, hev e⟩

/-- Only `Bind` makes an executor be ahead of a queue. -/
theorem Step.ahead_of (hstep : Step w ev w') (h : w.Placed) (he : (w'.executors e).Ahead q) :
    (w.executors e).Ahead q ∨
      ∃ t id, w.calls t = .binding q id e ∧ (w'.calls t).binds = none := by
  cases hstep.effect h with
  | quiet hpool hmade hexecutors hcalls hev =>
      rw [hexecutors] at he
      exact .inl he
  | moved d x hpool hmade hexecutors hcalls hev hd hmoved hahead =>
      rw [hexecutors] at he
      by_cases hde : e = d
      · rw [hde, Function.update_self] at he
        rw [hde]
        exact .inl (hmoved.ahead q he)
      · rw [Function.update_of_ne hde] at he
        exact .inl he
  | got t d force c hget hmade hexecutors hcalls hbinds hev =>
      rw [hexecutors] at he
      exact .inl he
  | bound t id d q' c hpool hmade hexecutors hcalls hbinds hgot hfree hev =>
      by_cases hde : e = d
      · rw [hde, hexecutors, Function.update_self] at he
        obtain rfl : q' = q := Option.some.inj he.1
        refine .inr ⟨t, id, hde ▸ hgot, ?_⟩
        rw [hcalls, Function.update_self]
        exact hbinds
      · rw [hexecutors, Function.update_of_ne hde] at he
        exact .inl he
  | idled d hpool hmade hexecutors hcalls hd hserves hahead hev =>
      have hde : e ≠ d := by
        intro hde
        rw [hde, hexecutors, Function.update_self] at he
        cases he.2
      rw [hexecutors, Function.update_of_ne hde] at he
      exact .inl he
  | released d hrelease hmade hexecutors hcalls hpc hev =>
      have hde : e ≠ d := by
        intro hde
        rw [hde, hexecutors, Function.update_self] at he
        have hnone := (h.sane d).ended (.inl hpc)
        rw [he.1] at hnone
        cases hnone
      rw [hexecutors, Function.update_of_ne hde] at he
      exact .inl he

/-! ### Runs -/

theorem placed_initial (max min : UInt64) : (initial max min : ExecutorPool α).Placed where
  nodup := List.nodup_nil
  made _ h := absurd h List.not_mem_nil
  fresh _ _ := rfl
  sane _ := Executor.sane_fresh
  idle _ h := absurd h List.not_mem_nil
  binds _ _ h := nomatch h
  unique _ _ _ h := nomatch h

/-- Whatever happens, the executor looks at the queue again before it goes idle. -/
def LooksBeforeIdle (w : ExecutorPool α) (e : Nat) (q : QueueName) : Prop :=
  ∀ ls w', Run Step w ls w' →
    ∀ before after, ls = before ++ .idled e :: after → .looked e q ∈ before

theorem looks_before_idle (h : w.Placed) (he : (w.executors e).Ahead q) :
    w.LooksBeforeIdle e q := by
  intro ls w' hrun before after hls
  refine hrun.precedes (P := fun w => w.Placed ∧ (w.executors e).Ahead q) ?_ ⟨h, he⟩ hls
  intro u ev u' hu hstep
  have hu' : u'.Placed := hu.1.step hstep
  obtain ⟨hahead, hne⟩ | hlook := hstep.ahead hu.1 hu.2
  · exact ⟨hne, .inl ⟨hu', hahead⟩⟩
  · exact ⟨hlook ▸ nofun, .inr hlook⟩

end ExecutorPool

end NativePreferences
