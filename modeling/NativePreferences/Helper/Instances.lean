import NativePreferences.Impl.Durability

/-!
# NativePreferences.Helper.Instances

**The instances of one path in a process** (`preferences_helper.cpp`). `GetPreferences` hands
out the instance that `prefsCache_` holds for the path, or makes a new one and starts its
load. `DeletePreferences` and `RemovePreferencesFromCache` take the instance out of the cache
again; a client that still has it can go on using it, and its flush tasks go on running.

* `DeletePreferences` lets go of `prefsCacheMutex_` after it has closed the instance, and
  removes the files only then. So it takes two steps, `closed` and `deleted`, and a
  `GetPreferences` may come in between.
* `Close` only lowers `isActive_`, and a lowered `isActive_` is only reported: a closed
  instance works like any other, and nothing of the flag is kept here.
* Every access to the files takes the file lock, so the instances share the files one access
  at a time: a step of an instance is a step of its `Machine` on the common files.
-/

namespace NativePreferences

open Lib

/-- The machine with these files. -/
def Machine.onDisk (m : Machine) (disk : Option PrefMap) : Machine :=
  { m with sh := { m.sh with disk } }

/-- What a process has of one path. -/
structure Instances where
  /-- The document of the files. -/
  disk : Option PrefMap
  /-- The instances that `GetPreferences` has made, by number. -/
  made : Nat → Machine
  count : Nat
  /-- The entry of the path in `prefsCache_`. -/
  cached : Option Nat
  /-- The calls of `DeletePreferences` that have not come to the files yet. -/
  deleting : Nat

namespace Instances

/-- A process that has not used the path. -/
def initial (disk : Option PrefMap) : Instances :=
  { disk, made := fun _ => .initial none, count := 0, cached := none, deleting := 0 }

/-- What a step shows. -/
inductive Event
  /-- `GetPreferences` has made an instance. -/
  | opened (i : Nat)
  /-- `GetPreferences` has returned the instance in the cache. -/
  | found (i : Nat)
  /-- `RemovePreferencesFromCache` has returned. -/
  | removedFromCache
  /-- `DeletePreferences` has closed the instance and dropped it from the cache. -/
  | closed
  /-- `DeletePreferences` has returned. -/
  | deleted (code : ErrCode)
  /-- A thread of an instance has made a step. -/
  | inst (i : Nat) (l : Label)
  deriving DecidableEq

/-- The process after instance `i` has come to `m`. -/
def set (w : Instances) (i : Nat) (m : Machine) : Instances :=
  { w with disk := m.sh.disk, made := Function.update w.made i m }

/-- One step of the process. -/
inductive Step : Instances → Event → Instances → Prop
  | opened {w : Instances} (hmiss : w.cached = none) :
      Step w (.opened w.count)
        { w with
          made := Function.update w.made w.count (.initial w.disk), count := w.count + 1,
          cached := some w.count }
  | found {w : Instances} {i : Nat} (hhit : w.cached = some i) : Step w (.found i) w
  | removedFromCache {w : Instances} : Step w .removedFromCache { w with cached := none }
  | closed {w : Instances} :
      Step w .closed { w with cached := none, deleting := w.deleting + 1 }
  | deleted {w : Instances} {n : Nat} (hn : w.deleting = n + 1) :
      Step w (.deleted .ok) { w with disk := none, deleting := n }
  | deleteFailed {w : Instances} {n : Nat} {left : Option PrefMap} (hn : w.deleting = n + 1)
      (hleft : left = w.disk ∨ left = none) :
      Step w (.deleted .deleteFileFail) { w with disk := left, deleting := n }
  | inst {w : Instances} {i : Nat} {l : Label} {m : Machine} (hi : i < w.count)
      (h : ((w.made i).onDisk w.disk).Step l m) : Step w (.inst i l) (w.set i m)

/-- The map that `GetPreferences` gives access to: that of the instance in the cache, or of a
new one that loads the files. -/
def getPreferences (w : Instances) (o : Weather) (dirAccessible : Bool) : PrefMap :=
  match w.cached with
  | some i => (w.made i).sh.cache.visible
  | none => ((Store.initial w.disk).loadFromDisk o dirAccessible).cache.visible

variable {w w' : Instances} {i : Nat} {ev : Event}

/-! ### Runs of one instance -/

/-- A run of one instance on the common files is a run of the process. -/
theorem run_inst {m m' : Machine} {ls : List Label} (hrun : Run Machine.Step m ls m')
    (hi : i < w.count) (hm : (w.made i).onDisk w.disk = m) (hne : ls ≠ []) :
    Run Step w (ls.map (.inst i)) (w.set i m') := by
  induction hrun generalizing w with
  | nil => exact absurd rfl hne
  | @cons m m₁ m' l ls hstep hrest ih =>
      subst hm
      have hfirst : Step w (.inst i l) (w.set i m₁) := .inst hi hstep
      cases ls with
      | nil =>
          cases hrest with
          | nil => exact .cons hfirst .nil
      | cons l' ls =>
          have hdisk : (((w.set i m₁).made i).onDisk (w.set i m₁).disk) = m₁ := by
            simp [set, Machine.onDisk]
          have hset : (w.set i m₁).set i m' = w.set i m' := by simp [set]
          rw [← hset]
          exact .cons hfirst (ih hi hdisk (by simp))

/-! ### Invariants of each instance -/

/-- Assertion rule: an assertion about each instance that does not depend on the files is kept
if the instance that moves keeps it and a new one has it. -/
theorem forall_made {A : Nat → Machine → Prop} (hstep : w.Step ev w')
    (hnew : ev = .opened w.count → A w.count (.initial w.disk))
    (hinst : ∀ i l m, ev = .inst i l → A i (w.made i) →
      ((w.made i).onDisk w.disk).Step l m → A i m)
    (h : ∀ i, A i (w.made i)) : ∀ i, A i (w'.made i) := by
  intro j
  cases hstep with
  | found | removedFromCache | closed | deleted | deleteFailed => exact h j
  | opened hmiss =>
      by_cases hj : j = w.count
      · subst hj
        simpa using hnew rfl
      · simpa [Function.update_of_ne hj] using h j
  | @inst i l m hi hs =>
      by_cases hj : j = i
      · subst hj
        simpa [set] using hinst j l m rfl (h j) hs
      · simpa [set, Function.update_of_ne hj] using h j

end Instances

end NativePreferences
