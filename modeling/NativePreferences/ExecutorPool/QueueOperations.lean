import Mathlib.Order.Defs.LinearOrder
import NativePreferences.ExecutorPool.PriorityQueue

/-!
# NativePreferences.ExecutorPool.QueueOperations

**The rest of the queue** (`Find`, `Update`, `Remove` and `Clean` of `priority_queue.h`), and what
holds of a queue at all times: its entries are in the order of their times, those of one time in the
order they came, and an index leads to an entry of its id (`WellFormed`). The converse does not
hold: an id that comes twice has one index.

A `Remove` that is to wait does so while `running_` has the id. Its waiting is left to its caller,
as the one of `Pop` is: `remove` has no result then.
-/

namespace NativePreferences

namespace PriorityQueue

variable {Tsk Tme Tid : Type} [DecidableEq Tid]

/-- `tasks_.erase`. -/
def eraseTask (index : Nat) (tasks : List (PQEntry Tsk Tme Tid)) : List (PQEntry Tsk Tme Tid) :=
  tasks.filter (fun e => e.iterator != index)

/-- The entry that an index leads to. -/
def entryAt (q : PriorityQueue Tsk Tme Tid) (id : Tid) : Option (PQEntry Tsk Tme Tid) :=
  (q.indexes.lookup id).bind (fun index => q.tasks.find? (fun e => e.iterator == index))

/-- `Find`. -/
def find (invalidTsk : Tsk) (q : PriorityQueue Tsk Tme Tid) (id : Tid) : Tsk :=
  ((q.entryAt id).map (fun e => e.matrix.task)).getD invalidTsk

/-- `Remove`, at a time when it does not wait. -/
def remove (q : PriorityQueue Tsk Tme Tid) (id : Tid) (wait : Bool) :
    Option (Bool × PriorityQueue Tsk Tme Tid) :=
  if wait = true ∧ id ∈ q.running then none
  else
    match q.indexes.lookup id with
    | none => some (false, q)
    | some index =>
        some (true,
          { q with tasks := eraseTask index q.tasks, indexes := q.indexes.erase id })

/-- `Clean`. -/
def clean (q : PriorityQueue Tsk Tme Tid) : PriorityQueue Tsk Tme Tid :=
  { q with tasks := [], indexes := ∅ }

variable [LinearOrder Tme]

/-- `Update`. The updater may change the task, and says whether it has a new time. -/
def update (updater : Tsk → (Bool × Tme) × Tsk) (q : PriorityQueue Tsk Tme Tid) (id : Tid) :
    Bool × PriorityQueue Tsk Tme Tid :=
  match q.entryAt id with
  | some index =>
      let ((updated, time), task) := updater index.matrix.task
      if !updated then
        (false, { q with tasks := q.tasks.map (fun e =>
          if e.iterator = index.iterator then { e with matrix := { e.matrix with task } } else e) })
      else
        let matrix := { index.matrix with task }
        (true,
          { q with
            tasks := insertTask ⟨time, matrix, q.emplaced⟩ (eraseTask index.iterator q.tasks)
            indexes := q.indexes.insert id q.emplaced
            emplaced := q.emplaced + 1 })
  | none =>
      match q.running.lookup id with
      | none => (false, q)
      | some running =>
          let ((updated, _), task) := updater running.task
          (updated, { q with running := q.running.insert id { running with task } })

end PriorityQueue

/-! ### The order of the entries -/

variable {Tsk Tme Tid : Type}

theorem PriorityQueue.mem_eraseTask {index : Nat} {tasks : List (PQEntry Tsk Tme Tid)}
    {e : PQEntry Tsk Tme Tid} :
    e ∈ eraseTask index tasks ↔ e ∈ tasks ∧ e.iterator ≠ index := by
  rw [eraseTask, List.mem_filter]
  simp

/-- An entry whose task is changed where an iterator leads to it. -/
def PriorityQueue.retask (index : Nat) (task : Tsk) (e : PQEntry Tsk Tme Tid) :
    PQEntry Tsk Tme Tid :=
  if e.iterator = index then { e with matrix := { e.matrix with task } } else e

@[simp] theorem PriorityQueue.retask_iterator (index : Nat) (task : Tsk) (e : PQEntry Tsk Tme Tid) :
    (retask index task e).iterator = e.iterator := by
  rw [retask]
  split <;> rfl

@[simp] theorem PriorityQueue.retask_time (index : Nat) (task : Tsk) (e : PQEntry Tsk Tme Tid) :
    (retask index task e).time = e.time := by
  rw [retask]
  split <;> rfl

@[simp] theorem PriorityQueue.retask_id (index : Nat) (task : Tsk) (e : PQEntry Tsk Tme Tid) :
    (retask index task e).matrix.id = e.matrix.id := by
  rw [retask]
  split <;> rfl

theorem PriorityQueue.retask_self (e : PQEntry Tsk Tme Tid) (task : Tsk) :
    retask e.iterator task e = { e with matrix := { e.matrix with task } } :=
  if_pos rfl

theorem PriorityQueue.retask_of_ne {index : Nat} {e : PQEntry Tsk Tme Tid}
    (h : e.iterator ≠ index) (task : Tsk) : retask index task e = e :=
  if_neg h

theorem PriorityQueue.entryAt_some [DecidableEq Tid] {q : PriorityQueue Tsk Tme Tid} {id : Tid}
    {e : PQEntry Tsk Tme Tid} (h : q.entryAt id = some e) :
    q.indexes.lookup id = some e.iterator ∧ e ∈ q.tasks := by
  rw [entryAt, Option.bind_eq_some_iff] at h
  obtain ⟨index, hindex, hfind⟩ := h
  have hnumber := List.find?_some hfind
  rw [hindex, beq_iff_eq.mp hnumber]
  exact ⟨rfl, List.mem_of_find?_eq_some hfind⟩

theorem PriorityQueue.remove_inv [DecidableEq Tid] {q q' : PriorityQueue Tsk Tme Tid} {id : Tid}
    {wait res : Bool} (hremove : q.remove id wait = some (res, q')) :
    (wait = true → id ∉ q.running) ∧
      (q.indexes.lookup id = none ∧ q' = q ∨
        ∃ index, q.indexes.lookup id = some index ∧
          q' = { q with tasks := eraseTask index q.tasks, indexes := q.indexes.erase id }) := by
  rw [PriorityQueue.remove] at hremove
  split at hremove
  · cases hremove
  · next hwait =>
    refine ⟨fun hw hin => hwait ⟨hw, hin⟩, ?_⟩
    split at hremove
    · next hindex => exact .inl ⟨hindex, (Prod.mk.inj (Option.some.inj hremove)).2.symm⟩
    · next index hindex =>
      exact .inr ⟨index, hindex, (Prod.mk.inj (Option.some.inj hremove)).2.symm⟩

theorem PriorityQueue.remove_running [DecidableEq Tid] {q q' : PriorityQueue Tsk Tme Tid} {id : Tid}
    {wait res : Bool} (hremove : q.remove id wait = some (res, q')) : q'.running = q.running := by
  obtain ⟨-, ⟨-, rfl⟩ | ⟨index, -, rfl⟩⟩ := remove_inv hremove
  · rfl
  · rfl

theorem PriorityQueue.size_remove [DecidableEq Tid] {q q' : PriorityQueue Tsk Tme Tid} {id : Tid}
    {wait res : Bool} (hremove : q.remove id wait = some (res, q')) (hsize : q'.size ≠ 0) :
    q.size ≠ 0 := by
  obtain ⟨-, ⟨-, rfl⟩ | ⟨index, -, rfl⟩⟩ := remove_inv hremove
  · exact hsize
  · intro hzero
    rw [size, List.length_eq_zero_iff] at hzero
    exact hsize (by simp [size, hzero, eraseTask])

theorem PriorityQueue.perm_eraseTask {tasks : List (PQEntry Tsk Tme Tid)}
    {e : PQEntry Tsk Tme Tid} (hnodup : (tasks.map PQEntry.iterator).Nodup) (he : e ∈ tasks) :
    tasks.Perm (e :: eraseTask e.iterator tasks) := by
  induction tasks with
  | nil => exact absurd he List.not_mem_nil
  | cons x tasks ih =>
      obtain ⟨hx, hnodup⟩ := List.nodup_cons.mp hnodup
      rcases List.mem_cons.mp he with rfl | he
      · -- The numbers of the others differ from this one.
        have hothers : eraseTask e.iterator (e :: tasks) = tasks := by
          rw [eraseTask, List.filter_cons_of_neg (by simp), List.filter_eq_self]
          intro y hy
          refine bne_iff_ne.mpr ?_
          intro heq
          exact hx (heq ▸ List.mem_map_of_mem hy)
        rw [hothers]
      · have hne : x.iterator ≠ e.iterator := fun heq => hx (heq ▸ List.mem_map_of_mem he)
        have hkept : eraseTask e.iterator (x :: tasks) = x :: eraseTask e.iterator tasks :=
          List.filter_cons_of_pos (by simpa using hne)
        rw [hkept]
        exact ((ih hnodup he).cons x).trans (.swap e x _)

variable [LinearOrder Tme]

/-- The entry is due earlier, or came earlier with the same time. -/
def PQEntry.Before (x y : PQEntry Tsk Tme Tid) : Prop :=
  x.time < y.time ∨ x.time = y.time ∧ x.iterator < y.iterator

namespace PriorityQueue

theorem insertTask_perm (e : PQEntry Tsk Tme Tid) (tasks : List (PQEntry Tsk Tme Tid)) :
    (insertTask e tasks).Perm (e :: tasks) := by
  induction tasks with
  | nil => exact .refl _
  | cons x tasks ih =>
      rw [insertTask]
      split
      · exact .refl _
      · exact (ih.cons x).trans (.swap e x tasks)

theorem mem_insertTask {e x : PQEntry Tsk Tme Tid} {tasks : List (PQEntry Tsk Tme Tid)} :
    x ∈ insertTask e tasks ↔ x = e ∨ x ∈ tasks :=
  (insertTask_perm e tasks).mem_iff.trans List.mem_cons

/-- An entry goes behind those of its time if it came after all of them. -/
theorem insertTask_sorted {e : PQEntry Tsk Tme Tid} {tasks : List (PQEntry Tsk Tme Tid)}
    (hsorted : tasks.Pairwise PQEntry.Before) (hnew : ∀ x ∈ tasks, x.iterator < e.iterator) :
    (insertTask e tasks).Pairwise PQEntry.Before := by
  induction tasks with
  | nil => exact List.pairwise_singleton _ _
  | cons x tasks ih =>
      obtain ⟨hx, htasks⟩ := List.pairwise_cons.mp hsorted
      rw [insertTask]
      by_cases hlt : e.time < x.time
      · rw [if_pos hlt]
        refine List.pairwise_cons.mpr ⟨?_, hsorted⟩
        intro y hy
        rcases List.mem_cons.mp hy with rfl | hy
        · exact .inl hlt
        · rcases hx y hy with hxy | ⟨hxy, -⟩
          · exact .inl (hlt.trans hxy)
          · exact .inl (hxy ▸ hlt)
      · rw [if_neg hlt]
        have hrest : ∀ y ∈ tasks, y.iterator < e.iterator :=
          fun y hy => hnew y (List.mem_cons_of_mem _ hy)
        refine List.pairwise_cons.mpr ⟨?_, ih htasks hrest⟩
        intro y hy
        rcases mem_insertTask.mp hy with rfl | hy
        · rcases lt_or_eq_of_le (le_of_not_gt hlt) with hxy | hxy
          · exact .inl hxy
          · exact .inr ⟨hxy, hnew x List.mem_cons_self⟩
        · exact hx y hy

/-! ### Well-formed queues -/

variable [DecidableEq Tid]

/-- The entries are in order, each with a number of its own, and an index leads to an entry of its
id. A task that runs is kept under its id. -/
structure WellFormed (q : PriorityQueue Tsk Tme Tid) : Prop where
  sorted : q.tasks.Pairwise PQEntry.Before
  nodup : (q.tasks.map PQEntry.iterator).Nodup
  numbered : ∀ e ∈ q.tasks, e.iterator < q.emplaced
  indexed : ∀ id index, q.indexes.lookup id = some index →
    ∃ e ∈ q.tasks, e.iterator = index ∧ e.matrix.id = id
  running : ∀ id matrix, q.running.lookup id = some matrix → matrix.id = id

variable {q q' : PriorityQueue Tsk Tme Tid} {id : Tid}

theorem wellFormed_empty : (empty : PriorityQueue Tsk Tme Tid).WellFormed where
  sorted := .nil
  nodup := .nil
  numbered _ h := absurd h List.not_mem_nil
  indexed _ _ h := by simp [empty] at h
  running _ _ h := by simp [empty] at h

/-- The entry that an index leads to is the only one with its number. -/
theorem WellFormed.eq_of_iterator (h : q.WellFormed) {x y : PQEntry Tsk Tme Tid}
    (hx : x ∈ q.tasks) (hy : y ∈ q.tasks) (heq : x.iterator = y.iterator) : x = y :=
  List.inj_on_of_nodup_map h.nodup hx hy heq

theorem WellFormed.entryAt_id (h : q.WellFormed) {e : PQEntry Tsk Tme Tid}
    (he : q.entryAt id = some e) : e.matrix.id = id := by
  obtain ⟨hindex, hmem⟩ := entryAt_some he
  obtain ⟨e', hmem', hiterator, hid⟩ := h.indexed id _ hindex
  rw [h.eq_of_iterator hmem hmem' hiterator.symm]
  exact hid

/-- A well-formed queue whose entries and indices are added to. -/
theorem WellFormed.insert (h : q.WellFormed) {e : PQEntry Tsk Tme Tid}
    (he : e.iterator = q.emplaced) (htasks : q'.tasks = insertTask e q.tasks)
    (hemplaced : q'.emplaced = q.emplaced + 1)
    (hindexes : ∀ id index, q'.indexes.lookup id = some index →
      q.indexes.lookup id = some index ∨ id = e.matrix.id ∧ index = e.iterator)
    (hrunning : ∀ id matrix, q'.running.lookup id = some matrix →
      q.running.lookup id = some matrix) : q'.WellFormed := by
  have hnew : ∀ x ∈ q.tasks, x.iterator < e.iterator := fun x hx => he ▸ h.numbered x hx
  constructor
  · rw [htasks]
    exact insertTask_sorted h.sorted hnew
  · rw [htasks, ((insertTask_perm e q.tasks).map _).nodup_iff, List.map_cons, List.nodup_cons]
    refine ⟨?_, h.nodup⟩
    intro hin
    obtain ⟨x, hx, heq⟩ := List.mem_map.mp hin
    exact absurd heq (Nat.ne_of_lt (hnew x hx))
  · intro x hx
    rw [htasks] at hx
    rw [hemplaced]
    rcases mem_insertTask.mp hx with rfl | hx
    · exact he ▸ Nat.lt_succ_self _
    · exact Nat.lt_succ_of_lt (h.numbered x hx)
  · intro id index hindex
    rw [htasks]
    rcases hindexes id index hindex with hold | ⟨rfl, rfl⟩
    · obtain ⟨x, hx, hnumber, hid⟩ := h.indexed id index hold
      exact ⟨x, mem_insertTask.mpr (.inr hx), hnumber, hid⟩
    · exact ⟨e, mem_insertTask.mpr (.inl rfl), rfl, rfl⟩
  · exact fun id matrix hlookup => h.running id matrix (hrunning id matrix hlookup)

/-- A well-formed queue that has lost one entry, and the index that led to it. -/
theorem WellFormed.sublist (h : q.WellFormed) (htasks : q'.tasks.Sublist q.tasks)
    (hemplaced : q'.emplaced = q.emplaced)
    (hindexes : ∀ id index, q'.indexes.lookup id = some index →
      q.indexes.lookup id = some index ∧
        ∀ e ∈ q.tasks, e.iterator = index → e.matrix.id = id → e ∈ q'.tasks)
    (hrunning : ∀ id matrix, q'.running.lookup id = some matrix → matrix.id = id) :
    q'.WellFormed where
  sorted := h.sorted.sublist htasks
  nodup := h.nodup.sublist (htasks.map _)
  numbered e he := hemplaced ▸ h.numbered e (htasks.subset he)
  indexed id index hindex := by
    obtain ⟨hold, hkept⟩ := hindexes id index hindex
    obtain ⟨e, he, hnumber, hid⟩ := h.indexed id index hold
    exact ⟨e, hkept e he hnumber hid, hnumber, hid⟩
  running := hrunning

/-- The tasks that run are others. -/
theorem WellFormed.of_running (h : q.WellFormed) (htasks : q'.tasks = q.tasks)
    (hindexes : q'.indexes = q.indexes) (hemplaced : q'.emplaced = q.emplaced)
    (hrunning : ∀ id matrix, q'.running.lookup id = some matrix → matrix.id = id) :
    q'.WellFormed := by
  refine h.sublist (htasks ▸ .refl _) hemplaced ?_ hrunning
  intro id index hindex
  rw [hindexes] at hindex
  rw [htasks]
  exact ⟨hindex, fun e he _ _ => he⟩

/-! ### What the functions do -/

theorem pop_inv {invalidTsk tsk : Tsk} {now : Tme} {entry : PQEntry Tsk Tme Tid}
    {rest : List (PQEntry Tsk Tme Tid)} (hpop : q.pop invalidTsk now = some (tsk, q'))
    (htasks : q.tasks = entry :: rest) :
    q' = { q with
      tasks := rest
      running := if entry.matrix.id ∈ q.running then q.running
        else q.running.insert entry.matrix.id entry.matrix
      indexes := q.indexes.erase entry.matrix.id } := by
  rw [PriorityQueue.pop, htasks] at hpop
  dsimp only at hpop
  split at hpop
  · cases hpop
  · exact (Prod.mk.inj (Option.some.inj hpop)).2.symm

/-- What `Pop` returns: `INVALID_TSK` if there is no entry, or the task of the first, which is
due. -/
theorem pop_cases {invalidTsk tsk : Tsk} {now : Tme}
    (hpop : q.pop invalidTsk now = some (tsk, q')) :
    q.tasks = [] ∧ tsk = invalidTsk ∧ q' = q ∨
      ∃ entry rest, q.tasks = entry :: rest ∧ entry.time ≤ now ∧ tsk = entry.matrix.task := by
  rw [PriorityQueue.pop] at hpop
  split at hpop
  · next htasks =>
    obtain ⟨rfl, rfl⟩ := Prod.mk.inj (Option.some.inj hpop)
    exact .inl ⟨htasks, rfl, rfl⟩
  · next entry rest htasks =>
    split at hpop
    · cases hpop
    · next hdue =>
      exact .inr ⟨entry, rest, htasks, not_lt.mp hdue,
        (Prod.mk.inj (Option.some.inj hpop)).1.symm⟩

theorem finish_inv (updater : Tsk → (Bool × Tme) × Tsk) (q : PriorityQueue Tsk Tme Tid) (id : Tid) :
    (id ∉ q.running ∧ q.finish updater id = q) ∨
    ∃ matrix, q.running.lookup id = some matrix ∧
      q.finish updater id =
        { (if (updater matrix.task).1.1 then
            q.emplace id (updater matrix.task).1.2 { matrix with task := (updater matrix.task).2 }
          else q) with running := q.running.erase id } := by
  rw [PriorityQueue.finish]
  cases hrunning : q.running.lookup id with
  | none => exact .inl ⟨Finmap.lookup_eq_none.mp hrunning, rfl⟩
  | some matrix =>
      refine .inr ⟨matrix, rfl, ?_⟩
      dsimp only
      split <;> rfl

/-- What `Update` does: an entry comes back with its new time, or stays with its task changed, or
the task that runs is changed. -/
theorem update_cases (updater : Tsk → (Bool × Tme) × Tsk) (q : PriorityQueue Tsk Tme Tid)
    (id : Tid) :
    (∃ entry, q.entryAt id = some entry ∧ (updater entry.matrix.task).1.1 = true ∧
      (q.update updater id).2 =
        { q with
          tasks := insertTask ⟨(updater entry.matrix.task).1.2,
            { entry.matrix with task := (updater entry.matrix.task).2 }, q.emplaced⟩
              (eraseTask entry.iterator q.tasks)
          indexes := q.indexes.insert id q.emplaced
          emplaced := q.emplaced + 1 }) ∨
    (∃ entry, q.entryAt id = some entry ∧ (updater entry.matrix.task).1.1 = false ∧
      (q.update updater id).2 =
        { q with tasks := q.tasks.map (retask entry.iterator (updater entry.matrix.task).2) }) ∨
    q.entryAt id = none ∧
      ((∃ matrix, q.running.lookup id = some matrix ∧
        (q.update updater id).2 =
          { q with running :=
            q.running.insert id { matrix with task := (updater matrix.task).2 } }) ∨
        id ∉ q.running ∧ (q.update updater id).2 = q) := by
  rw [PriorityQueue.update]
  cases hentry : q.entryAt id with
  | some entry =>
      dsimp only
      cases hupdated : (updater entry.matrix.task).1.1 with
      | true => exact .inl ⟨entry, rfl, hupdated, rfl⟩
      | false => exact .inr (.inl ⟨entry, rfl, hupdated, rfl⟩)
  | none =>
      refine .inr (.inr ⟨rfl, ?_⟩)
      dsimp only
      cases hrunning : q.running.lookup id with
      | none => exact .inr ⟨Finmap.lookup_eq_none.mp hrunning, rfl⟩
      | some matrix => exact .inl ⟨matrix, rfl, rfl⟩

/-! ### The functions keep it -/

theorem WellFormed.emplace (h : q.WellFormed) (tme : Tme) (matrix : PQMatrix Tsk Tid) :
    (q.emplace matrix.id tme matrix).WellFormed := by
  refine h.insert (e := ⟨tme, matrix, q.emplaced⟩) rfl rfl rfl ?_ (fun _ _ hlookup => hlookup)
  intro id index hindex
  change (if matrix.id ∈ q.indexes then q.indexes
    else q.indexes.insert matrix.id q.emplaced).lookup id = _ at hindex
  split at hindex
  · exact .inl hindex
  · by_cases heq : id = matrix.id
    · rw [heq, Finmap.lookup_insert] at hindex
      exact .inr ⟨heq, (Option.some.inj hindex).symm⟩
    · rw [Finmap.lookup_insert_of_ne _ heq] at hindex
      exact .inl hindex

theorem WellFormed.push (h : q.WellFormed) (valid : Tsk → Bool) (tsk : Tsk) (id : Tid)
    (tme : Tme) : (q.push valid tsk id tme).2.WellFormed := by
  rw [PriorityQueue.push]
  split
  · exact h.emplace tme ⟨tsk, id⟩
  · exact h

theorem WellFormed.pop (h : q.WellFormed) {invalidTsk tsk : Tsk} {now : Tme}
    {entry : PQEntry Tsk Tme Tid} {rest : List (PQEntry Tsk Tme Tid)}
    (hpop : q.pop invalidTsk now = some (tsk, q')) (htasks : q.tasks = entry :: rest) :
    q'.WellFormed := by
  obtain rfl := pop_inv hpop htasks
  refine h.sublist ?_ rfl ?_ ?_
  · rw [htasks]
    exact List.sublist_cons_self _ _
  · intro id index hindex
    dsimp only at hindex
    have hne : id ≠ entry.matrix.id := by
      rintro rfl
      simp at hindex
    rw [Finmap.lookup_erase_ne hne] at hindex
    refine ⟨hindex, ?_⟩
    intro e he hnumber hid
    rw [htasks] at he
    rcases List.mem_cons.mp he with rfl | he
    · exact absurd hid.symm hne
    · exact he
  · intro id matrix hlookup
    dsimp only at hlookup
    split at hlookup
    · exact h.running id matrix hlookup
    · by_cases heq : id = entry.matrix.id
      · rw [heq, Finmap.lookup_insert] at hlookup
        rw [← Option.some.inj hlookup, heq]
      · rw [Finmap.lookup_insert_of_ne _ heq] at hlookup
        exact h.running id matrix hlookup

theorem lookup_erase_some {id id' : Tid} {matrix : PQMatrix Tsk Tid}
    {running : Finmap (fun _ : Tid => PQMatrix Tsk Tid)}
    (h : (running.erase id).lookup id' = some matrix) : running.lookup id' = some matrix := by
  have hne : id' ≠ id := by
    rintro rfl
    simp at h
  rwa [Finmap.lookup_erase_ne hne] at h

theorem WellFormed.erase_running (h : q.WellFormed) (id : Tid) :
    { q with running := q.running.erase id }.WellFormed := by
  refine h.of_running rfl rfl rfl ?_
  intro id' matrix hlookup
  exact h.running id' matrix (lookup_erase_some hlookup)

theorem WellFormed.finish (h : q.WellFormed) (updater : Tsk → (Bool × Tme) × Tsk) (id : Tid) :
    (q.finish updater id).WellFormed := by
  rcases finish_inv updater q id with ⟨-, hsame⟩ | ⟨matrix, hrunning, hfinish⟩
  · rw [hsame]
    exact h
  · rw [hfinish]
    obtain rfl : matrix.id = id := h.running id matrix hrunning
    split
    · exact (h.emplace _ { matrix with task := _ }).erase_running _
    · exact h.erase_running _

theorem WellFormed.remove (h : q.WellFormed) {wait res : Bool}
    (hremove : q.remove id wait = some (res, q')) : q'.WellFormed := by
  obtain ⟨-, ⟨-, rfl⟩ | ⟨index, hindex, rfl⟩⟩ := remove_inv hremove
  · exact h
  · refine h.sublist List.filter_sublist rfl ?_ h.running
    intro id' index' hindex'
    dsimp only at hindex'
    have hne : id' ≠ id := by
      rintro rfl
      simp at hindex'
    rw [Finmap.lookup_erase_ne hne] at hindex'
    refine ⟨hindex', ?_⟩
    intro e he hnumber hid
    refine mem_eraseTask.mpr ⟨he, ?_⟩
    intro heq
    obtain ⟨e', he', hnumber', hid'⟩ := h.indexed id index hindex
    rw [h.eq_of_iterator he he' (heq.trans hnumber'.symm)] at hid
    exact hne (hid.symm.trans hid')

/-- A task that is changed in its place. -/
theorem WellFormed.retask (h : q.WellFormed) (index : Nat) (task : Tsk) :
    { q with tasks := q.tasks.map (retask index task) }.WellFormed where
  sorted := by
    refine List.pairwise_map.mpr (h.sorted.imp ?_)
    intro x y hxy
    simpa [PQEntry.Before] using hxy
  nodup := by
    rw [List.map_map]
    have hsame : PQEntry.iterator ∘ PriorityQueue.retask index task =
        (PQEntry.iterator : PQEntry Tsk Tme Tid → Nat) :=
      funext (fun e => retask_iterator index task e)
    rw [hsame]
    exact h.nodup
  numbered e he := by
    obtain ⟨e', he', rfl⟩ := List.mem_map.mp he
    rw [retask_iterator]
    exact h.numbered e' he'
  indexed id index' hindex := by
    obtain ⟨e, he, hnumber, hid⟩ := h.indexed id index' hindex
    exact ⟨_, List.mem_map_of_mem he, (retask_iterator ..).trans hnumber,
      (retask_id ..).trans hid⟩
  running := h.running

theorem WellFormed.clean (h : q.WellFormed) : q.clean.WellFormed := by
  refine h.sublist (List.nil_sublist _) rfl ?_ h.running
  intro id index hindex
  exact absurd hindex (by simp [PriorityQueue.clean])

theorem WellFormed.update (h : q.WellFormed) (updater : Tsk → (Bool × Tme) × Tsk) (id : Tid) :
    (q.update updater id).2.WellFormed := by
  rcases update_cases updater q id with
    ⟨entry, hentry, -, hq⟩ | ⟨entry, -, -, hq⟩ | ⟨-, ⟨matrix, hrunning, hq⟩ | ⟨-, hq⟩⟩
  · obtain ⟨hindex, hmem⟩ := entryAt_some hentry
    have hid := h.entryAt_id hentry
    -- The queue without the entry and its index is well-formed, and the entry comes back.
    have herased : (⟨eraseTask entry.iterator q.tasks, q.running, q.indexes.erase id,
        q.emplaced⟩ : PriorityQueue Tsk Tme Tid).WellFormed := by
      have hremove : q.remove id false = some (true, ⟨eraseTask entry.iterator q.tasks, q.running,
          q.indexes.erase id, q.emplaced⟩) := by
        rw [PriorityQueue.remove, if_neg (by simp), hindex]
      exact h.remove hremove
    rw [hq]
    refine herased.insert (e := ⟨_, _, q.emplaced⟩) rfl rfl rfl ?_ (fun _ _ hlookup => hlookup)
    intro id' index' hindex'
    dsimp only at hindex' ⊢
    by_cases heq : id' = id
    · rw [heq, Finmap.lookup_insert] at hindex'
      exact .inr ⟨heq.trans hid.symm, (Option.some.inj hindex').symm⟩
    · rw [Finmap.lookup_insert_of_ne _ heq] at hindex'
      exact .inl (by rw [Finmap.lookup_erase_ne heq, hindex'])
  · rw [hq]
    exact h.retask _ _
  · rw [hq]
    refine h.of_running rfl rfl rfl ?_
    intro id' matrix' hlookup
    dsimp only at hlookup
    by_cases heq : id' = id
    · rw [heq, Finmap.lookup_insert] at hlookup
      rw [← Option.some.inj hlookup, heq]
      exact h.running id matrix hrunning
    · rw [Finmap.lookup_insert_of_ne _ heq] at hlookup
      exact h.running id' matrix' hlookup
  · rw [hq]
    exact h

/-- What `Remove` does to a well-formed queue: it takes off the entry that the index of the id leads
to, and no other. -/
theorem WellFormed.remove_cases (h : q.WellFormed) {wait res : Bool}
    (hremove : q.remove id wait = some (res, q')) :
    (q.entryAt id = none ∧ q' = q) ∨
    ∃ entry, q.entryAt id = some entry ∧ q.tasks.Perm (entry :: q'.tasks) ∧
      q'.tasks.Sublist q.tasks ∧ q'.emplaced = q.emplaced := by
  obtain ⟨-, ⟨hindex, rfl⟩ | ⟨index, hindex, rfl⟩⟩ := remove_inv hremove
  · refine .inl ⟨?_, rfl⟩
    rw [entryAt, hindex]
    rfl
  · obtain ⟨entry, hmem, rfl, -⟩ := h.indexed id index hindex
    refine .inr ⟨entry, ?_, perm_eraseTask h.nodup hmem, List.filter_sublist, rfl⟩
    rw [entryAt, hindex, Option.bind_some]
    cases hfind : q.tasks.find? (fun e => e.iterator == entry.iterator) with
    | none =>
        have hnone := List.find?_eq_none.mp hfind entry hmem
        exact absurd (beq_self_eq_true _) hnone
    | some e =>
        have hfound := List.find?_some hfind
        have hnumber : e.iterator = entry.iterator := beq_iff_eq.mp hfound
        rw [h.eq_of_iterator (List.mem_of_find?_eq_some hfind) hmem hnumber]

/-! ### What is in `running_` -/

theorem push_running (valid : Tsk → Bool) (q : PriorityQueue Tsk Tme Tid) (tsk : Tsk) (id : Tid)
    (tme : Tme) : (q.push valid tsk id tme).2.running = q.running := by
  rw [PriorityQueue.push]
  split <;> rfl

theorem mem_running_pop {invalidTsk tsk : Tsk} {now : Tme} {entry : PQEntry Tsk Tme Tid}
    {rest : List (PQEntry Tsk Tme Tid)} (hpop : q.pop invalidTsk now = some (tsk, q'))
    (htasks : q.tasks = entry :: rest) :
    id ∈ q'.running ↔ id = entry.matrix.id ∨ id ∈ q.running := by
  obtain rfl := pop_inv hpop htasks
  dsimp only
  split
  · next hin =>
    refine ⟨.inr, ?_⟩
    intro hor
    obtain rfl | hid := hor
    · exact hin
    · exact hid
  · exact Finmap.mem_insert

theorem mem_running_finish {updater : Tsk → (Bool × Tme) × Tsk} {id' : Tid} :
    id' ∈ (q.finish updater id).running ↔ id' ≠ id ∧ id' ∈ q.running := by
  rcases finish_inv updater q id with ⟨hnot, hsame⟩ | ⟨matrix, -, hfinish⟩
  · rw [hsame]
    refine ⟨fun hin => ⟨?_, hin⟩, And.right⟩
    rintro rfl
    exact hnot hin
  · rw [hfinish]
    exact Finmap.mem_erase

theorem mem_running_update {updater : Tsk → (Bool × Tme) × Tsk} {id' : Tid} :
    id' ∈ (q.update updater id).2.running ↔ id' ∈ q.running := by
  rcases update_cases updater q id with
    ⟨entry, -, -, hq⟩ | ⟨entry, -, -, hq⟩ | ⟨-, ⟨matrix, hrunning, hq⟩ | ⟨-, hq⟩⟩
  · rw [hq]
  · rw [hq]
  · rw [hq, Finmap.mem_insert]
    refine ⟨?_, .inr⟩
    intro hor
    obtain rfl | hin := hor
    · exact Finmap.mem_of_lookup_eq_some hrunning
    · exact hin
  · rw [hq]

theorem size_update {updater : Tsk → (Bool × Tme) × Tsk}
    (hsize : (q.update updater id).2.size ≠ 0) : q.size ≠ 0 := by
  intro hzero
  have hnone : q.entryAt id = none := by
    rw [size, List.length_eq_zero_iff] at hzero
    rw [entryAt, hzero]
    cases q.indexes.lookup id <;> rfl
  refine hsize ?_
  rw [PriorityQueue.update, hnone]
  dsimp only
  split
  · exact hzero
  · exact hzero

end PriorityQueue

end NativePreferences
