import Mathlib.Data.Finmap

/-!
# NativePreferences.ExecutorPool.PriorityQueue

**The queue of tasks** (`priority_queue.h`). The entries of the multimap `tasks_` are a list in
the order of their times, those of one time in the order they came; an iterator into it, as
`indexes_` keeps one for each id, is the number of the entry. Each function takes `pqMtx_` once,
and is one step.

`Pop` waits while no entry is due. Its waiting is left to its caller here: `pop` has no result
until there is an entry that is due, or no entry at all.
-/

namespace NativePreferences

variable {Tsk Tme Tid : Type}

/-- `PQMatrix`. -/
structure PQMatrix (Tsk Tid : Type) where
  task : Tsk
  id : Tid

/-- An entry of `tasks_`, with the number that an iterator to it has. -/
structure PQEntry (Tsk Tme Tid : Type) where
  time : Tme
  matrix : PQMatrix Tsk Tid
  iterator : Nat

/-- `PriorityQueue`. -/
structure PriorityQueue (Tsk Tme Tid : Type) where
  tasks : List (PQEntry Tsk Tme Tid)
  running : Finmap (fun _ : Tid => PQMatrix Tsk Tid)
  indexes : Finmap (fun _ : Tid => Nat)
  /-- The number of entries made so far. -/
  emplaced : Nat

namespace PriorityQueue

/-- A queue without tasks. -/
def empty : PriorityQueue Tsk Tme Tid := ⟨[], ∅, ∅, 0⟩

/-- `Size`. -/
def size (q : PriorityQueue Tsk Tme Tid) : Nat := q.tasks.length

/-- Where `tasks_.emplace` puts an entry: behind the others of its time. -/
def insertTask [LT Tme] [DecidableLT Tme] (e : PQEntry Tsk Tme Tid) :
    List (PQEntry Tsk Tme Tid) → List (PQEntry Tsk Tme Tid)
  | [] => [e]
  | x :: xs => if e.time < x.time then e :: x :: xs else x :: insertTask e xs

variable [LT Tme] [DecidableLT Tme] [DecidableEq Tid]

/-- `indexes_.emplace(id, tasks_.emplace(tme, matrix))`. An id that is there keeps its index. -/
def emplace (q : PriorityQueue Tsk Tme Tid) (id : Tid) (tme : Tme) (matrix : PQMatrix Tsk Tid) :
    PriorityQueue Tsk Tme Tid :=
  { q with
    tasks := insertTask ⟨tme, matrix, q.emplaced⟩ q.tasks
    indexes := if id ∈ q.indexes then q.indexes else q.indexes.insert id q.emplaced
    emplaced := q.emplaced + 1 }

/-- `Push`. A task that is not valid is refused. -/
def push (valid : Tsk → Bool) (q : PriorityQueue Tsk Tme Tid) (tsk : Tsk) (id : Tid) (tme : Tme) :
    Bool × PriorityQueue Tsk Tme Tid :=
  if valid tsk then (true, q.emplace id tme ⟨tsk, id⟩) else (false, q)

/-- `Pop`, at a time when it does not wait. An empty queue yields `INVALID_TSK`. -/
def pop (invalidTsk : Tsk) (now : Tme) (q : PriorityQueue Tsk Tme Tid) :
    Option (Tsk × PriorityQueue Tsk Tme Tid) :=
  match q.tasks with
  | [] => some (invalidTsk, q)
  | temp :: rest =>
      if now < temp.time then none
      else
        let id := temp.matrix.id
        some (temp.matrix.task,
          { q with
            tasks := rest
            running := if id ∈ q.running then q.running else q.running.insert id temp.matrix
            indexes := q.indexes.erase id })

/-- `Finish`. The updater says whether the task is to run again, and when, and may change it. -/
def finish (updater : Tsk → (Bool × Tme) × Tsk) (q : PriorityQueue Tsk Tme Tid) (id : Tid) :
    PriorityQueue Tsk Tme Tid :=
  match q.running.lookup id with
  | none => q
  | some matrix =>
      let ((again, time), task) := updater matrix.task
      let q := if again then q.emplace id time { matrix with task } else q
      { q with running := q.running.erase id }

end PriorityQueue

end NativePreferences
