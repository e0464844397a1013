import Mathlib.Logic.Function.Basic
import Mathlib.Tactic.TypeStar

/-!
# NativePreferences.Lib.RecordLocks

**Advisory locks on whole files, owned by processes.** A process has at most one lock on a file,
whichever descriptor it was set through: a second one replaces the first, and to unlock the file
or to close any descriptor of it gives up the lock of the process. A write lock is granted where
no other process has a lock, a read lock where no other process has a write lock.

Granted locks are always compatible (`Compatible`).
-/

namespace NativePreferences.Lib

inductive LockKind
  | read
  | write
  deriving DecidableEq, Repr

/-- The lock that each process has on each file. -/
abbrev RecordLocks (F P : Type*) : Type _ := F → P → Option LockKind

namespace RecordLocks

variable {F P : Type*} {r : RecordLocks F P} {f g : F} {p q : P} {k : LockKind}

/-- No other process has a lock that conflicts. -/
def Grants (r : RecordLocks F P) (f : F) (p : P) (k : LockKind) : Prop :=
  ∀ q, q ≠ p → r f q = none ∨ (k = .read ∧ r f q = some .read)

/-- Of two processes with a lock on a file neither may write. -/
def Compatible (r : RecordLocks F P) : Prop :=
  ∀ f p q, p ≠ q → r f p = some .write → r f q = none

theorem compatible_empty : Compatible (fun _ _ => none : RecordLocks F P) :=
  fun _ _ _ _ _ => rfl

variable [DecidableEq F] [DecidableEq P]

/-- `F_SETLK`, where it is granted. -/
def lock (r : RecordLocks F P) (f : F) (p : P) (k : LockKind) : RecordLocks F P :=
  Function.update r f (Function.update (r f) p (some k))

/-- The process gives up its lock: `F_UNLCK`, or `close`. -/
def unlock (r : RecordLocks F P) (f : F) (p : P) : RecordLocks F P :=
  Function.update r f (Function.update (r f) p none)

@[simp] theorem lock_self : r.lock f p k f p = some k := by
  simp [lock]

@[simp] theorem unlock_self : r.unlock f p f p = none := by
  simp [unlock]

theorem lock_of_ne (h : g ≠ f ∨ q ≠ p) : r.lock f p k g q = r g q := by
  unfold lock
  by_cases hg : g = f
  · subst hg
    rw [Function.update_self, Function.update_of_ne (h.resolve_left (not_not.mpr rfl))]
  · rw [Function.update_of_ne hg]

theorem unlock_of_ne (h : g ≠ f ∨ q ≠ p) : r.unlock f p g q = r g q := by
  unfold unlock
  by_cases hg : g = f
  · subst hg
    rw [Function.update_self, Function.update_of_ne (h.resolve_left (not_not.mpr rfl))]
  · rw [Function.update_of_ne hg]

/-- A lock that is granted is compatible with the others. -/
theorem Compatible.lock (h : r.Compatible) (hgrants : r.Grants f p k) :
    (r.lock f p k).Compatible := by
  intro g q₁ q₂ hne hwrite
  by_cases h₁ : g = f ∧ q₁ = p
  · obtain ⟨rfl, rfl⟩ := h₁
    rw [lock_self] at hwrite
    obtain rfl : k = .write := Option.some.inj hwrite
    rw [lock_of_ne (.inr hne.symm)]
    obtain hnone | ⟨hread, -⟩ := hgrants q₂ hne.symm
    · exact hnone
    · cases hread
  · have hold : r g q₁ = some .write := by
      rw [lock_of_ne (not_and_or.mp h₁)] at hwrite
      exact hwrite
    by_cases h₂ : g = f ∧ q₂ = p
    · obtain ⟨rfl, rfl⟩ := h₂
      obtain hnone | ⟨-, hread⟩ := hgrants q₁ hne
      · cases hnone.symm.trans hold
      · cases hread.symm.trans hold
    · rw [lock_of_ne (not_and_or.mp h₂)]
      exact h g q₁ q₂ hne hold

theorem Compatible.unlock (h : r.Compatible) (f : F) (p : P) : (r.unlock f p).Compatible := by
  intro g q₁ q₂ hne hwrite
  have h₁ : ¬ (g = f ∧ q₁ = p) := by
    intro heq
    obtain ⟨rfl, rfl⟩ := heq
    rw [unlock_self] at hwrite
    cases hwrite
  rw [unlock_of_ne (not_and_or.mp h₁)] at hwrite
  by_cases h₂ : g = f ∧ q₂ = p
  · obtain ⟨rfl, rfl⟩ := h₂
    exact unlock_self
  · rw [unlock_of_ne (not_and_or.mp h₂)]
    exact h g q₁ q₂ hne hwrite

end RecordLocks

end NativePreferences.Lib
