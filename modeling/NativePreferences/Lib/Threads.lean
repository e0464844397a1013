import Mathlib.Logic.Function.Basic
import NativePreferences.Lib.Transition

/-!
# NativePreferences.Lib.Threads

**Threads over shared memory.** A system of threads is a shared state and a program
counter for each thread; a thread is named by a number. What one thread can do is a
relation `T t sh p e sh' p'`: thread `t` at `p` makes the step `e`, which takes the
shared state from `sh` to `sh'` and its own counter to `p'`. The system interleaves such
steps (`Threads.Step`).

A thread that runs alone, with nobody else moving in between, is a run of the system
(`Solo.run`).

Two rules reduce an invariant of the system to facts about one step of one thread:

* `Threads.step_forall` — an assertion about each thread is kept if the thread that
  moves keeps its own and disturbs nobody else's;
* `LockInv.step` — a lock whose holder is recorded is held by the recorded thread only,
  provided each step leaves the lock alone, takes it when it is free, or gives it back.
-/

namespace NativePreferences.Lib

variable {Sh P E : Type*}

/-- The name of a thread. -/
abbrev Tid : Type := Nat

/-- The state of a system of threads. -/
structure Threads (Sh P : Type*) where
  sh : Sh
  pc : Tid → P

/-- What a single thread can do. -/
abbrev ThreadSem (Sh P E : Type*) : Type _ := Tid → Sh → P → E → Sh → P → Prop

namespace Threads

/-- One step of the system: one thread moves, the others stay where they are. -/
inductive Step (T : ThreadSem Sh P E) : Threads Sh P → Tid × E → Threads Sh P → Prop
  | mk {s : Threads Sh P} {t : Tid} {e : E} {sh' : Sh} {p' : P} (h : T t s.sh (s.pc t) e sh' p') :
      Step T s (t, e) ⟨sh', Function.update s.pc t p'⟩

variable {T : ThreadSem Sh P E} {s s' : Threads Sh P} {l : Tid × E}

/-- The thread that moved. -/
theorem Step.own (h : Step T s l s') : T l.1 s.sh (s.pc l.1) l.2 s'.sh (s'.pc l.1) := by
  cases h with
  | mk h => simpa using h

/-- Every other thread. -/
theorem Step.pc_of_ne (h : Step T s l s') {u : Tid} (hu : u ≠ l.1) : s'.pc u = s.pc u := by
  cases h with
  | mk h => simp [Function.update_of_ne hu]

/-- Assertion rule: the thread that moves re-establishes its own assertion and leaves the
assertions of the others true. -/
theorem step_forall {A : Sh → Tid → P → Prop} (h : Step T s l s')
    (hown : A s'.sh l.1 (s'.pc l.1))
    (hother : ∀ u, u ≠ l.1 → A s.sh u (s.pc u) → A s'.sh u (s.pc u))
    (hall : ∀ t, A s.sh t (s.pc t)) : ∀ t, A s'.sh t (s'.pc t) := by
  intro u
  by_cases hu : u = l.1
  · rw [hu]
    exact hown
  · rw [h.pc_of_ne hu]
    exact hother u hu (hall u)

end Threads

/-! ### A thread that runs alone -/

/-- Steps of thread `t` with nobody else moving in between. -/
inductive Solo (T : ThreadSem Sh P E) (t : Tid) : Sh → P → List E → Sh → P → Prop
  | nil {sh : Sh} {p : P} : Solo T t sh p [] sh p
  | cons {sh sh₁ sh' : Sh} {p p₁ p' : P} {e : E} {es : List E} :
      T t sh p e sh₁ p₁ → Solo T t sh₁ p₁ es sh' p' → Solo T t sh p (e :: es) sh' p'

namespace Solo

variable {T : ThreadSem Sh P E} {t : Tid} {sh sh₁ sh' : Sh} {p p₁ p' : P} {es es' : List E}

theorem append (h : Solo T t sh p es sh₁ p₁) (h' : Solo T t sh₁ p₁ es' sh' p') :
    Solo T t sh p (es ++ es') sh' p' := by
  induction h with
  | nil => exact h'
  | cons hs _ ih => exact .cons hs (ih h')

/-- Such steps are a run of the system. -/
theorem run (pc : Tid → P) (h : Solo T t sh p es sh' p') :
    Run (Threads.Step T) ⟨sh, Function.update pc t p⟩ (es.map (Prod.mk t))
      ⟨sh', Function.update pc t p'⟩ := by
  induction h with
  | nil => exact .nil
  | @cons sh sh₁ sh' p p₁ p' e es hs _ ih =>
      have hstep : Threads.Step T ⟨sh, Function.update pc t p⟩ (t, e)
          ⟨sh₁, Function.update (Function.update pc t p) t p₁⟩ := by
        refine .mk ?_
        show T t sh (Function.update pc t p t) e sh₁ p₁
        rw [Function.update_self]
        exact hs
      rw [Function.update_idem] at hstep
      exact .cons hstep ih

/-- A thread that comes home leaves all counters as they were. -/
theorem run_home (pc : Tid → P) (h : Solo T t sh p es sh' (pc t)) :
    Run (Threads.Step T) ⟨sh, Function.update pc t p⟩ (es.map (Prod.mk t)) ⟨sh', pc⟩ := by
  have hrun := h.run pc
  rw [Function.update_eq_self] at hrun
  exact hrun

/-- A thread that starts from where its counter stands. -/
theorem run_away (pc : Tid → P) (h : Solo T t sh (pc t) es sh' p') :
    Run (Threads.Step T) ⟨sh, pc⟩ (es.map (Prod.mk t)) ⟨sh', Function.update pc t p'⟩ := by
  have hrun := h.run pc
  rw [Function.update_eq_self] at hrun
  exact hrun

theorem run_back (pc : Tid → P) (h : Solo T t sh (pc t) es sh' (pc t)) :
    Run (Threads.Step T) ⟨sh, pc⟩ (es.map (Prod.mk t)) ⟨sh', pc⟩ := by
  have hrun := h.run_home pc
  rw [Function.update_eq_self] at hrun
  exact hrun

end Solo

/-! ### Locks -/

/-- The lock variable `held` names every thread whose counter satisfies `holds`. -/
def LockInv (held : Sh → Option Tid) (holds : P → Prop) (s : Threads Sh P) : Prop :=
  ∀ t, holds (s.pc t) → held s.sh = some t

/-- What a step of thread `t` may do with a lock. -/
inductive LockStep (held : Sh → Option Tid) (holds : P → Prop) (t : Tid) (sh : Sh) (p : P)
    (sh' : Sh) (p' : P) : Prop
  | keep (hheld : held sh' = held sh) (hholds : holds p' ↔ holds p)
  | acquire (hfree : held sh = none) (hheld : held sh' = some t)
  | release (hholds : holds p) (hheld : held sh' = none) (hdone : ¬ holds p')

section Lock

variable {held : Sh → Option Tid} {holds : P → Prop} {T : ThreadSem Sh P E}
variable {s s' : Threads Sh P} {l : Tid × E}

/-- At most one thread holds the lock. -/
theorem LockInv.unique (h : LockInv held holds s) {t u : Tid} (ht : holds (s.pc t))
    (hu : holds (s.pc u)) : t = u :=
  Option.some.inj ((h t ht).symm.trans (h u hu))

/-- Lock rule. -/
theorem LockInv.step (h : LockInv held holds s) (hstep : Threads.Step T s l s')
    (hlock : LockStep held holds l.1 s.sh (s.pc l.1) s'.sh (s'.pc l.1)) :
    LockInv held holds s' := by
  intro u hu
  by_cases hul : u = l.1
  · rw [hul] at hu ⊢
    cases hlock with
    | keep hheld hholds => exact hheld.trans (h _ (hholds.mp hu))
    | acquire _ hheld => exact hheld
    | release _ _ hdone => exact absurd hu hdone
  · rw [hstep.pc_of_ne hul] at hu
    have hheldu : held s.sh = some u := h u hu
    cases hlock with
    | keep hheld _ => exact hheld.trans hheldu
    | acquire hfree _ => exact absurd (hfree.symm.trans hheldu) (by simp)
    | release hholds _ _ => exact absurd (h.unique hu hholds) hul

end Lock

end NativePreferences.Lib
