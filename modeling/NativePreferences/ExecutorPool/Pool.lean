import Mathlib.Data.List.Nodup
import Mathlib.Data.List.Perm.Basic

/-!
# NativePreferences.ExecutorPool.Pool

**The executors that are idle and those that are busy** (`pool.h`). Each of the two linked lists
is a list, from its head on; a node is the number of the executor that is its `data`. Each
function takes `mutex_` once, and is one step.

`Get` makes an executor when none is idle, up to `capability_`, or beyond it if it is forced to.
`Idle` and `Release` look for the executor they are given, and do nothing where it is not.
-/

namespace NativePreferences

/-- `Pool`. -/
structure Pool where
  capability : UInt32
  min : UInt32
  current : UInt32
  idle : List Nat
  busy : List Nat

namespace Pool

/-- The constructor. -/
def initial (capability min : UInt32) : Pool := ⟨capability, min, 0, [], []⟩

/-- `Get`, where an executor that is made gets the number `fresh`. -/
def get (isForce : Bool) (fresh : Nat) (p : Pool) : Option Nat × Pool :=
  match p.idle with
  | cur :: rest => (some cur, { p with idle := rest, busy := cur :: p.busy })
  | [] =>
      if !isForce && decide (p.capability ≤ p.current) then (none, p)
      else (some fresh, { p with current := p.current + 1, busy := fresh :: p.busy })

/-- `Release`. -/
def release (data : Nat) (force : Bool) (p : Pool) : Bool × Pool :=
  if !force && decide (p.current ≤ p.min) then (false, p)
  else if data ∈ p.idle then
    (true, { p with current := p.current - 1, idle := p.idle.erase data })
  else (false, p)

/-- `Idle`. -/
def toIdle (data : Nat) (p : Pool) : Pool :=
  if data ∈ p.busy then { p with idle := data :: p.idle, busy := p.busy.erase data } else p

/-- The executors of the pool. -/
def nodes (p : Pool) : List Nat := p.idle ++ p.busy

variable {p p' : Pool} {e fresh : Nat}

/-- What a successful `Get` does: it takes an idle executor, or makes one. -/
theorem get_some {isForce : Bool} (hget : p.get isForce fresh = (some e, p')) :
    (e ∈ p.idle ∧ p'.nodes.Perm p.nodes ∧ p'.busy = e :: p.busy ∧ p'.idle ⊆ p.idle) ∨
    (e = fresh ∧ p'.nodes.Perm (fresh :: p.nodes) ∧ p'.busy = fresh :: p.busy ∧
      p'.idle = p.idle) := by
  unfold get at hget
  split at hget
  · next cur rest hidle =>
      obtain ⟨hcur, rfl⟩ := Prod.mk.inj hget
      obtain rfl := Option.some.inj hcur
      refine .inl ⟨?_, ?_, rfl, ?_⟩
      · rw [hidle]
        exact List.mem_cons_self
      · rw [nodes, nodes, hidle]
        exact List.perm_middle
      · intro d hd
        rw [hidle]
        exact List.mem_cons_of_mem _ hd
  · split at hget
    · cases hget
    · obtain ⟨hfresh, rfl⟩ := Prod.mk.inj hget
      obtain rfl := Option.some.inj hfresh
      exact .inr ⟨rfl, List.perm_middle, rfl, rfl⟩

/-- `Idle` moves an executor that is busy, and the pool has the same ones as before. -/
theorem toIdle_nodes (e : Nat) (p : Pool) : (p.toIdle e).nodes.Perm p.nodes := by
  unfold toIdle
  split
  · next hbusy =>
      have hmoved : (e :: p.idle ++ p.busy.erase e).Perm (p.idle ++ e :: p.busy.erase e) :=
        List.perm_middle.symm
      exact hmoved.trans ((List.perm_cons_erase hbusy).symm.append_left p.idle)
  · exact .refl _

theorem mem_toIdle_idle {d : Nat} (h : d ∈ (p.toIdle e).idle) : d = e ∨ d ∈ p.idle := by
  unfold toIdle at h
  split at h
  · exact List.mem_cons.mp h
  · exact .inr h

theorem mem_toIdle_busy {d : Nat} (hd : d ≠ e) : d ∈ (p.toIdle e).busy ↔ d ∈ p.busy := by
  unfold toIdle
  split
  · exact List.mem_erase_of_ne hd
  · exact .rfl

theorem notMem_toIdle_busy (h : p.busy.Nodup) : e ∉ (p.toIdle e).busy := by
  unfold toIdle
  split
  · exact h.not_mem_erase
  · next hbusy => exact hbusy

/-- A successful `Release` takes an idle executor off. -/
theorem release_true {force : Bool} (h : p.release e force = (true, p')) :
    e ∈ p.idle ∧ p'.idle = p.idle.erase e ∧ p'.busy = p.busy := by
  unfold release at h
  split at h
  · cases (Prod.mk.inj h).1
  · split at h
    · next hidle =>
        obtain ⟨-, rfl⟩ := Prod.mk.inj h
        exact ⟨hidle, rfl, rfl⟩
    · cases (Prod.mk.inj h).1

theorem release_false {force : Bool} (h : p.release e force = (false, p')) : p' = p := by
  unfold release at h
  split at h
  · exact (Prod.mk.inj h).2.symm
  · split at h
    · cases (Prod.mk.inj h).1
    · exact (Prod.mk.inj h).2.symm

/-- `Release` refuses an executor that is not idle. -/
theorem release_of_notMem {force : Bool} (h : e ∉ p.idle) : p.release e force = (false, p) := by
  rw [release, if_neg h, ite_self]

/-- A `Get` that is forced has an executor. -/
theorem get_forced (p : Pool) (fresh : Nat) : ∃ e p', p.get true fresh = (some e, p') := by
  unfold get
  split
  · exact ⟨_, _, rfl⟩
  · exact ⟨_, _, rfl⟩

end Pool

end NativePreferences
