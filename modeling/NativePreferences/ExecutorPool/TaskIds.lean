import NativePreferences.ExecutorPool.Tasks

/-!
# NativePreferences.ExecutorPool.TaskIds

**The places of one id.** `indexes_` and `running_` have one entry for each id, so they tell where a
task is only as long as its id is in a queue once (`PriorityQueue.Single`). `Push` breaks that for
an id that is there already; the other functions keep it, and a waiting `Remove` leaves none of the
id behind (`Single.remove_lacks`).

In the pool a task goes from the call that makes it into a queue, and from `delayTasks_`, by the
executor that runs it there, into `execs_`. So an id that is nowhere comes back only with
`GenTaskId` (`Work.unused`), and one that is in `execs_` only does not return to `delayTasks_`
(`Work.left`).
-/

namespace NativePreferences

/-! ### Queues -/

namespace PriorityQueue

variable {Tsk Tme Tid : Type}

/-- The id is neither queued nor running. -/
structure Lacks (q : PriorityQueue Tsk Tme Tid) (id : Tid) : Prop where
  entries : ∀ e ∈ q.tasks, e.matrix.id ≠ id
  running : id ∉ q.running

theorem lacks_empty (id : Tid) : (empty : PriorityQueue Tsk Tme Tid).Lacks id :=
  ⟨fun _ he => absurd he List.not_mem_nil, Finmap.notMem_empty⟩

variable [DecidableEq Tid]

/-- The id is queued or running once, and its index leads to its entry. -/
structure Single (q : PriorityQueue Tsk Tme Tid) (id : Tid) : Prop where
  indexed : ∀ e ∈ q.tasks, e.matrix.id = id → q.indexes.lookup id = some e.iterator
  running : id ∈ q.running → ∀ e ∈ q.tasks, e.matrix.id ≠ id

variable {q q' : PriorityQueue Tsk Tme Tid} {id id' : Tid}

theorem Lacks.single (h : q.Lacks id) : q.Single id :=
  ⟨fun e he heq => absurd heq (h.entries e he), fun hrunning => absurd hrunning h.running⟩

/-- A queue with fewer entries and the same index. -/
theorem Single.of_subset (h : q.Single id) (htasks : ∀ e ∈ q'.tasks, e ∈ q.tasks)
    (hindexes : q'.indexes.lookup id = q.indexes.lookup id)
    (hrunning : id ∈ q'.running → id ∈ q.running) : q'.Single id where
  indexed e he heq := hindexes.trans (h.indexed e (htasks e he) heq)
  running hin e he := h.running (hrunning hin) e (htasks e he)

theorem Single.remove (hs : q.Single id) {id' : Tid} {wait res : Bool}
    (hremove : q.remove id' wait = some (res, q')) : q'.Single id := by
  obtain ⟨-, ⟨-, rfl⟩ | ⟨index, hindex, rfl⟩⟩ := remove_inv hremove
  · exact hs
  · constructor
    · intro e he heq
      obtain ⟨hmem, hne⟩ := mem_eraseTask.mp he
      have hlookup := hs.indexed e hmem heq
      have hid : id ≠ id' := by
        rintro rfl
        exact hne (Option.some.inj (hlookup.symm.trans hindex))
      exact (Finmap.lookup_erase_ne hid).trans hlookup
    · exact fun hin e he => hs.running hin e (mem_eraseTask.mp he).1

/-- **A waiting `Remove` leaves nothing of an id that was there once.** -/
theorem Single.remove_lacks (hs : q.Single id) {res : Bool}
    (hremove : q.remove id true = some (res, q')) : q'.Lacks id := by
  obtain ⟨hwait, ⟨hindex, rfl⟩ | ⟨index, hindex, rfl⟩⟩ := remove_inv hremove
  · refine ⟨fun e he heq => ?_, hwait rfl⟩
    cases hindex.symm.trans (hs.indexed e he heq)
  · refine ⟨fun e he heq => ?_, hwait rfl⟩
    obtain ⟨hmem, hne⟩ := mem_eraseTask.mp he
    exact hne (Option.some.inj ((hs.indexed e hmem heq).symm.trans hindex))

theorem Lacks.remove (h : q.Lacks id) {id' : Tid} {wait res : Bool}
    (hremove : q.remove id' wait = some (res, q')) : q'.Lacks id := by
  obtain ⟨-, ⟨-, rfl⟩ | ⟨index, -, rfl⟩⟩ := remove_inv hremove
  · exact h
  · exact ⟨fun e he => h.entries e (mem_eraseTask.mp he).1, h.running⟩

variable [LinearOrder Tme]

/-- An id without entries has no index. -/
theorem WellFormed.not_mem_indexes (h : q.WellFormed) (hnone : ∀ e ∈ q.tasks, e.matrix.id ≠ id) :
    id ∉ q.indexes := by
  rw [← Finmap.lookup_eq_none]
  cases hindex : q.indexes.lookup id with
  | none => rfl
  | some index =>
      obtain ⟨e, he, -, hid⟩ := h.indexed id index hindex
      exact absurd hid (hnone e he)

theorem Single.eq_of_id (hs : q.Single id) (h : q.WellFormed) {x y : PQEntry Tsk Tme Tid}
    (hx : x ∈ q.tasks) (hy : y ∈ q.tasks) (hxid : x.matrix.id = id) (hyid : y.matrix.id = id) :
    x = y := by
  have hsame := (hs.indexed x hx hxid).symm.trans (hs.indexed y hy hyid)
  exact h.eq_of_iterator hx hy (Option.some.inj hsame)

/-- A new entry, of another id or of one that has none. -/
theorem Single.emplace (hs : q.Single id) (h : q.WellFormed) {matrix : PQMatrix Tsk Tid}
    (hnone : matrix.id = id → q.Lacks id) (tme : Tme) :
    (q.emplace matrix.id tme matrix).Single id := by
  have hmem : ∀ e ∈ (q.emplace matrix.id tme matrix).tasks,
      e = ⟨tme, matrix, q.emplaced⟩ ∨ e ∈ q.tasks := fun e he => mem_insertTask.mp he
  constructor
  · intro e he heq
    change (if matrix.id ∈ q.indexes then q.indexes
      else q.indexes.insert matrix.id q.emplaced).lookup id = _
    rcases hmem e he with rfl | hold
    · change matrix.id = id at heq
      rw [if_neg (heq ▸ h.not_mem_indexes (hnone heq).entries), heq, Finmap.lookup_insert]
    · split
      · exact hs.indexed e hold heq
      · have hne : id ≠ matrix.id := by
          rintro rfl
          exact (hnone rfl).entries e hold heq
        rw [Finmap.lookup_insert_of_ne _ hne]
        exact hs.indexed e hold heq
  · intro hin e he
    rcases hmem e he with rfl | hold
    · exact fun heq => (hnone heq).running hin
    · exact hs.running hin e hold

theorem Single.pop (hs : q.Single id) (h : q.WellFormed) {invalidTsk tsk : Tsk} {now : Tme}
    {entry : PQEntry Tsk Tme Tid} {rest : List (PQEntry Tsk Tme Tid)}
    (hpop : q.pop invalidTsk now = some (tsk, q')) (htasks : q.tasks = entry :: rest) :
    q'.Single id := by
  have hrunning : id ∈ q'.running ↔ id = entry.matrix.id ∨ id ∈ q.running :=
    mem_running_pop hpop htasks
  obtain rfl := pop_inv hpop htasks
  have hsub : ∀ e ∈ rest, e ∈ q.tasks := fun e he => htasks ▸ List.mem_cons_of_mem _ he
  -- The entry that is popped is the only one of its id.
  have hothers : entry.matrix.id = id → ∀ e ∈ rest, e.matrix.id ≠ id := by
    intro hid e he heq
    have hsame := hs.eq_of_id h (hsub e he) (htasks ▸ List.mem_cons_self) heq hid
    have hnodup := h.nodup.of_map
    rw [htasks, List.nodup_cons] at hnodup
    exact hnodup.1 (hsame ▸ he)
  constructor
  · intro e he heq
    have hne : id ≠ entry.matrix.id := fun hid => hothers hid.symm e he heq
    exact (Finmap.lookup_erase_ne hne).trans (hs.indexed e (hsub e he) heq)
  · intro hin e he
    rcases hrunning.mp hin with hid | hold
    · exact hothers hid.symm e he
    · exact hs.running hold e (hsub e he)

theorem Single.finish (hs : q.Single id) (h : q.WellFormed)
    (updater : Tsk → (Bool × Tme) × Tsk) (id' : Tid) : (q.finish updater id').Single id := by
  rcases finish_inv updater q id' with ⟨-, hsame⟩ | ⟨matrix, hm, hfinish⟩
  · rw [hsame]
    exact hs
  · obtain rfl : matrix.id = id' := h.running id' matrix hm
    -- The task leaves `running_`, and then comes back as an entry if it is to run again.
    let q₀ : PriorityQueue Tsk Tme Tid := { q with running := q.running.erase matrix.id }
    have hs₀ : q₀.Single id :=
      hs.of_subset (fun e he => he) rfl (fun hin => (Finmap.mem_erase.mp hin).2)
    have h₀ : q₀.WellFormed := h.erase_running matrix.id
    have hlacks : matrix.id = id → q₀.Lacks id := by
      rintro rfl
      refine ⟨hs.running (Finmap.mem_of_lookup_eq_some hm), ?_⟩
      exact fun hin => (Finmap.mem_erase.mp hin).1 rfl
    rw [hfinish]
    split
    · let matrix' : PQMatrix Tsk Tid := { matrix with task := (updater matrix.task).2 }
      have hlacks' : matrix'.id = id → q₀.Lacks id := hlacks
      exact hs₀.emplace h₀ hlacks' (updater matrix.task).1.2
    · exact hs₀

theorem Single.update (hs : q.Single id) (h : q.WellFormed)
    (updater : Tsk → (Bool × Tme) × Tsk) (id' : Tid) : (q.update updater id').2.Single id := by
  rcases update_cases updater q id' with
    ⟨entry, hentry, -, hq⟩ | ⟨entry, -, -, hq⟩ | ⟨-, ⟨matrix, hm, hq⟩ | ⟨-, hq⟩⟩
  · obtain ⟨-, hmem⟩ := entryAt_some hentry
    have hid := h.entryAt_id hentry
    rw [hq]
    constructor
    · intro e he heq
      dsimp only
      rcases mem_insertTask.mp he with rfl | he
      · change entry.matrix.id = id at heq
        rw [← heq, hid, Finmap.lookup_insert]
      · obtain ⟨hold, hne⟩ := mem_eraseTask.mp he
        have hne' : id ≠ id' := by
          rintro rfl
          exact hne (congrArg _ (hs.eq_of_id h hold hmem heq hid))
        rw [Finmap.lookup_insert_of_ne _ hne']
        exact hs.indexed e hold heq
    · intro hin e he
      rcases mem_insertTask.mp he with rfl | he
      · exact hs.running hin entry hmem
      · exact hs.running hin e (mem_eraseTask.mp he).1
  · rw [hq]
    constructor
    · intro e he heq
      obtain ⟨e', he', rfl⟩ := List.mem_map.mp he
      rw [retask_id] at heq
      rw [retask_iterator]
      exact hs.indexed e' he' heq
    · intro hin e he
      obtain ⟨e', he', rfl⟩ := List.mem_map.mp he
      rw [retask_id]
      exact hs.running hin e' he'
  · have hrunning : id ∈ (q.update updater id').2.running ↔ id ∈ q.running :=
      mem_running_update
    rw [hq] at hrunning ⊢
    exact hs.of_subset (fun e he => he) rfl hrunning.mp
  · rw [hq]
    exact hs

/-! ### An id that is not there -/

theorem Lacks.emplace (h : q.Lacks id) {matrix : PQMatrix Tsk Tid} (hne : matrix.id ≠ id)
    (tme : Tme) : (q.emplace matrix.id tme matrix).Lacks id where
  entries e he := by
    rcases mem_insertTask.mp he with rfl | he
    · exact hne
    · exact h.entries e he
  running := h.running

theorem Lacks.pop (h : q.Lacks id) {invalidTsk tsk : Tsk} {now : Tme}
    {entry : PQEntry Tsk Tme Tid} {rest : List (PQEntry Tsk Tme Tid)}
    (hpop : q.pop invalidTsk now = some (tsk, q')) (htasks : q.tasks = entry :: rest) :
    q'.Lacks id := by
  constructor
  · obtain rfl := pop_inv hpop htasks
    exact fun e he => h.entries e (htasks ▸ List.mem_cons_of_mem _ he)
  · intro hin
    rcases (mem_running_pop hpop htasks).mp hin with heq | hold
    · exact h.entries entry (htasks ▸ List.mem_cons_self) heq.symm
    · exact h.running hold

theorem Lacks.finish (h : q.Lacks id) (hq : q.WellFormed) (updater : Tsk → (Bool × Tme) × Tsk)
    (id' : Tid) : (q.finish updater id').Lacks id := by
  constructor
  · rcases finish_inv updater q id' with ⟨-, hsame⟩ | ⟨matrix, hm, hfinish⟩
    · rw [hsame]
      exact h.entries
    · have hne : matrix.id ≠ id := by
        rintro rfl
        exact h.running (Finmap.mem_of_lookup_eq_some (hq.running id' matrix hm ▸ hm))
      rw [hfinish]
      split
      · intro e he
        rcases mem_insertTask.mp he with rfl | he
        · exact hne
        · exact h.entries e he
      · exact h.entries
  · exact fun hin => h.running (mem_running_finish.mp hin).2

theorem Lacks.update (h : q.Lacks id) (updater : Tsk → (Bool × Tme) × Tsk) (id' : Tid) :
    (q.update updater id').2.Lacks id := by
  constructor
  · rcases update_cases updater q id' with
      ⟨entry, hentry, -, hq⟩ | ⟨entry, -, -, hq⟩ | ⟨-, ⟨matrix, -, hq⟩ | ⟨-, hq⟩⟩
    · obtain ⟨-, hmem⟩ := entryAt_some hentry
      rw [hq]
      intro e he
      rcases mem_insertTask.mp he with rfl | he
      · exact h.entries entry hmem
      · exact h.entries e (mem_eraseTask.mp he).1
    · rw [hq]
      intro e he
      obtain ⟨e', he', rfl⟩ := List.mem_map.mp he
      rw [retask_id]
      exact h.entries e' he'
    · rw [hq]
      exact h.entries
    · rw [hq]
      exact h.entries
  · exact fun hin => h.running (mem_running_update.mp hin)

end PriorityQueue

/-! ### The pool -/

namespace ExecutorPool

variable {α : Type} {w w' : ExecutorPool α} {l : Label α} {id : TaskId} {name : QueueName}

/-- The id is not in this queue, and no executor holds it from there. -/
structure Vacant (w : ExecutorPool α) (id : TaskId) (name : QueueName) : Prop where
  queue : ∀ q, w.queue name = some q → q.Lacks id
  held : ∀ e job, w.held e ≠ some (name, job, id)

/-- The id is in `execs_` at most. -/
structure Left (w : ExecutorPool α) (id : TaskId) : Prop where
  carried : ∀ t name task, w.carried t = some (name, task) → task.taskId ≠ id
  vacant : w.Vacant id .delayTasks

/-- No task has the id. -/
structure Unused (w : ExecutorPool α) (id : TaskId) : Prop where
  carried : ∀ t name task, w.carried t = some (name, task) → task.taskId ≠ id
  vacant : ∀ name, w.Vacant id name

theorem Unused.left (h : w.Unused id) : w.Left id := ⟨h.carried, h.vacant .delayTasks⟩

/-- A queue that has changed has kept a property, and so have the others. -/
theorem queue_update_of {P : TaskQueue α → Prop} {name' : QueueName} {q q' p : TaskQueue α}
    (hget : w.queue name = some q) (hqueue : w'.queue = Function.update w.queue name (some q'))
    (hkeep : name' = name → P q → P q') (hold : ∀ q, w.queue name' = some q → P q)
    (hp : w'.queue name' = some p) : P p := by
  rw [hqueue] at hp
  by_cases hn : name' = name
  · subst hn
    rw [Function.update_self] at hp
    exact Option.some.inj hp ▸ hkeep rfl (hold q hget)
  · rw [Function.update_of_ne hn] at hp
    exact hold p hp

/-- An id comes into a queue when it is pushed there. -/
theorem Vacant.work (h : w.Vacant id name) (hwork : Work w w' l) (hsound : w.Sound)
    (hid : id ≠ invalidTaskId)
    (hqueued : ∀ number task, l = .queued name number task → task.taskId ≠ id) :
    w'.Vacant id name where
  queue p hp := by
    cases hwork with
    | quiet hl hqueue hcarried hheld => exact h.queue p (hqueue ▸ hp)
    | gave t name' task hid' hshaped hthere hcaller hnone hqueue hcarried hheld =>
        exact h.queue p (hqueue ▸ hp)
    | queued t name' task time q hcarry hget hqueue hcarried hheld =>
        refine queue_update_of hget hqueue ?_ h.queue hp
        rintro rfl hlacks
        obtain ⟨hshaped, -⟩ := hsound.carried t name task hcarry
        let matrix : PQMatrix (InnerTask α) TaskId := ⟨task, task.taskId⟩
        have hne : matrix.id ≠ id := hqueued q.emplaced task rfl
        rw [hshaped.push]
        exact hlacks.emplace hne time
    | started e name' q q' entry rest hnone hahead hget htasks hpop hqueue hcarried hheld =>
        exact queue_update_of hget hqueue (fun _ hlacks => hlacks.pop hpop htasks) h.queue hp
    | startedNothing e name' hnone hahead hthere hqueue hcarried hheld =>
        exact h.queue p (hqueue ▸ hp)
    | handed e name' func id' taskId hholds hnone hqueue hcarried hheld =>
        exact h.queue p (hqueue ▸ hp)
    | ran e name' job id' hholds hjob hnone hqueue hcarried hheld => exact h.queue p (hqueue ▸ hp)
    | finished e name' id' q hholds hget hqueue hcarried hheld =>
        have hwell := (hsound.queues name' q hget).wellFormed
        exact queue_update_of hget hqueue (fun _ hlacks => hlacks.finish hwell _ id') h.queue hp
    | erased name' id' wait res q q' hget hremove hqueue hcarried hheld =>
        exact queue_update_of hget hqueue (fun _ hlacks => hlacks.remove hremove) h.queue hp
    | reset id' interval q task hget htask hqueue hcarried hheld =>
        exact queue_update_of hget hqueue (fun _ hlacks => hlacks.update _ id')
          h.queue hp
  held e job he := by
    rcases hwork.held_of he with ⟨job', hold, -⟩ |
      ⟨-, -, ⟨q, entry, rest, -, hget, htasks, -, heq⟩ | ⟨-, -, heq⟩⟩
    · exact h.held e job' hold
    · have hmem : entry ∈ q.tasks := htasks ▸ List.mem_cons_self
      obtain ⟨hentry, -⟩ := (hsound.queues name q hget).entries entry hmem
      exact (h.queue q hget).entries entry hmem (hentry.trans heq.symm)
    · exact hid heq

/-- **An id that has left `delayTasks_` comes back with `GenTaskId` only.** -/
theorem Work.left (hwork : Work w w' l) (h : w.Left id) (hsound : w.Sound)
    (hid : id ≠ invalidTaskId) (hgave : ∀ task, l = .gave task → task.taskId ≠ id) :
    w'.Left id where
  carried t name task ht := by
    rcases hwork.carried_of ht with hold | ⟨rfl, -⟩ | ⟨e, name', func, taskId, -, hheld, -⟩
    · exact h.carried t name task hold
    · exact hgave task rfl
    · obtain ⟨-, rfl, rfl, -⟩ := (hsound.held e name' _ taskId hheld).2 func task.taskId rfl
      rintro rfl
      exact h.vacant.held e _ hheld
  vacant := by
    refine h.vacant.work hwork hsound hid ?_
    rintro number task rfl
    obtain ⟨t, ht, -⟩ := hwork.queued_inv
    exact h.carried t _ task ht

/-- **An id that no task has comes back with `GenTaskId` only.** -/
theorem Work.unused (hwork : Work w w' l) (h : w.Unused id) (hsound : w.Sound)
    (hid : id ≠ invalidTaskId) (hgave : ∀ task, l = .gave task → task.taskId ≠ id) :
    w'.Unused id where
  carried := (hwork.left h.left hsound hid hgave).carried
  vacant name := by
    refine (h.vacant name).work hwork hsound hid ?_
    rintro number task rfl
    obtain ⟨t, ht, -⟩ := hwork.queued_inv
    exact h.carried t _ task ht

/-! ### An id that each queue has once -/

/-- The call is the one of `Execute` that an executor makes for the task it has popped from
`delayTasks_`. -/
def HandsOver (w : ExecutorPool α) (t : Thread) (id : TaskId) : Prop :=
  ∃ e job, t = .executor e ∧ w.held e = some (.delayTasks, job, id)

/-- A task with the id is on its way into a queue, and nowhere else. -/
structure OnlyCarried (w : ExecutorPool α) (t : Thread) (id : TaskId) : Prop where
  vacant : ∀ name, w.Vacant id name
  only : ∀ t' name task, w.carried t' = some (name, task) → task.taskId = id → t' = t

/-- Each queue has the id once, with its index, and the executor that holds it from there has it in
`running_`. -/
structure SingleUse (w : ExecutorPool α) (id : TaskId) : Prop where
  queues : ∀ name q, w.queue name = some q → q.Single id
  held : ∀ e name job q, w.held e = some (name, job, id) → w.queue name = some q → id ∈ q.running
  holder : ∀ e e' name job job', w.held e = some (name, job, id) →
    w.held e' = some (name, job', id) → e = e'
  carried : ∀ t name task, w.carried t = some (name, task) → task.taskId = id →
    (name = .execs ∧ w.HandsOver t id) ∨ w.OnlyCarried t id

/-- What is asked of a step: an id is given when no task has it, and handed over to `execs_` when
it is not there. -/
structure Careful (w : ExecutorPool α) (id : TaskId) (l : Label α) : Prop where
  gave : ∀ task, l = .gave task → task.taskId = id → w.Unused id
  queued : ∀ number task, l = .queued .execs number task → task.taskId = id →
    ∀ q, w.execs = some q → q.Lacks id

theorem SingleUse.queues_work (h : w.SingleUse id) (hwork : Work w w' l) (hsound : w.Sound)
    (hcareful : w.Careful id l) (n : QueueName) (p : TaskQueue α) (hp : w'.queue n = some p) :
    p.Single id := by
  cases hwork with
  | quiet hl hqueue hcarried hheld => exact h.queues n p (hqueue ▸ hp)
  | gave t name task hid hshaped hthere hcaller hnone hqueue hcarried hheld =>
      exact h.queues n p (hqueue ▸ hp)
  | queued t name task time q hcarry hget hqueue hcarried hheld =>
      refine queue_update_of hget hqueue ?_ (h.queues n) hp
      rintro rfl hsingle
      obtain ⟨hshaped, -⟩ := hsound.carried t n task hcarry
      let matrix : PQMatrix (InnerTask α) TaskId := ⟨task, task.taskId⟩
      have hlacks : matrix.id = id → q.Lacks id := by
        intro hid
        rcases h.carried t n task hcarry hid with ⟨rfl, -⟩ | honly
        · exact hcareful.queued q.emplaced task rfl hid q hget
        · exact (honly.vacant n).queue q hget
      rw [hshaped.push]
      exact hsingle.emplace (hsound.queues n q hget).wellFormed hlacks time
  | started e name q q' entry rest hnone hahead hget htasks hpop hqueue hcarried hheld =>
      have hwell := (hsound.queues name q hget).wellFormed
      exact queue_update_of hget hqueue (fun _ hs => hs.pop hwell hpop htasks) (h.queues n) hp
  | startedNothing e name hnone hahead hthere hqueue hcarried hheld =>
      exact h.queues n p (hqueue ▸ hp)
  | handed e name func id' taskId hholds hnone hqueue hcarried hheld =>
      exact h.queues n p (hqueue ▸ hp)
  | ran e name job id' hholds hjob hnone hqueue hcarried hheld =>
      exact h.queues n p (hqueue ▸ hp)
  | finished e name id' q hholds hget hqueue hcarried hheld =>
      have hwell := (hsound.queues name q hget).wellFormed
      exact queue_update_of hget hqueue (fun _ hs => hs.finish hwell _ id') (h.queues n) hp
  | erased name id' wait res q q' hget hremove hqueue hcarried hheld =>
      exact queue_update_of hget hqueue (fun _ hs => hs.remove hremove) (h.queues n) hp
  | reset id' interval q task hget htask hqueue hcarried hheld =>
      have hwell := (hsound.queues .delayTasks q hget).wellFormed
      exact queue_update_of hget hqueue (fun _ hs => hs.update hwell _ id')
        (h.queues n) hp

theorem SingleUse.held_work (h : w.SingleUse id) (hwork : Work w w' l) (hsound : w.Sound)
    (hid : id ≠ invalidTaskId) (e : Nat) (n : QueueName) (job : Option (Job α)) (p : TaskQueue α)
    (he : w'.held e = some (n, job, id)) (hp : w'.queue n = some p) : id ∈ p.running := by
  rcases hwork.held_of he with ⟨job', hold, -⟩ |
    ⟨-, -, ⟨q, entry, rest, rfl, hget, htasks, -, heq⟩ | ⟨-, -, heq⟩⟩
  · obtain ⟨q, hq⟩ := Option.ne_none_iff_exists'.mp (hsound.held e n job' id hold).1
    rcases hwork.running_next hq (h.held e n job' q hold hq) with ⟨p', hp', hin⟩ | ⟨d, rfl⟩
    · cases hp.symm.trans hp'
      exact hin
    · -- The executor that finishes the task does not hold it any more.
      obtain ⟨hd, hnone⟩ := hwork.finished_inv
      obtain rfl := h.holder e d n _ _ hold hd
      cases hnone.symm.trans he
  · exact heq ▸ hwork.started_running hsound hp
  · exact absurd heq hid

/-- An executor that starts a task of the id is the only one that holds it from there. -/
theorem SingleUse.not_held_of_started (h : w.SingleUse id) (hsound : w.Sound) {n : QueueName}
    {q : TaskQueue α} {entry : PQEntry (InnerTask α) Int TaskId} (hget : w.queue n = some q)
    (hmem : entry ∈ q.tasks) (heq : entry.matrix.task.taskId = id) (e : Nat)
    (job : Option (Job α)) : w.held e ≠ some (n, job, id) := by
  intro he
  obtain ⟨hentry, -⟩ := (hsound.queues n q hget).entries entry hmem
  exact (h.queues n q hget).running (h.held e n job q he hget) entry hmem (hentry.trans heq)

theorem SingleUse.holder_work (h : w.SingleUse id) (hwork : Work w w' l) (hsound : w.Sound)
    (hid : id ≠ invalidTaskId) (e e' : Nat) (n : QueueName) (job job' : Option (Job α))
    (he : w'.held e = some (n, job, id)) (he' : w'.held e' = some (n, job', id)) : e = e' := by
  rcases hwork.held_of he with ⟨j, hold, -⟩ |
    ⟨-, -, ⟨q, entry, rest, hl, hget, htasks, -, heq⟩ | ⟨-, -, heq⟩⟩
  · rcases hwork.held_of he' with ⟨j', hold', -⟩ |
      ⟨-, -, ⟨q, entry, rest, hl, hget, htasks, -, heq⟩ | ⟨-, -, heq⟩⟩
    · exact h.holder e e' n j j' hold hold'
    · refine absurd hold ?_
      exact h.not_held_of_started hsound hget (htasks ▸ List.mem_cons_self) heq.symm e j
    · exact absurd heq hid
  · rcases hwork.held_of he' with ⟨j', hold', -⟩ |
      ⟨-, -, ⟨q', entry', rest', hl', -⟩ | ⟨-, -, heq'⟩⟩
    · exact absurd hold'
        (h.not_held_of_started hsound hget (htasks ▸ List.mem_cons_self) heq.symm e' j')
    · exact (Label.started.inj (hl.symm.trans hl')).1
    · exact absurd heq' hid
  · exact absurd heq hid

/-- An executor that hands a task over goes on holding it until the task is queued. -/
theorem HandsOver.work {t : Thread} (h : w.HandsOver t id) (hwork : Work w w' l)
    (hsound : w.Sound) {o : QueueName × InnerTask α} (ho : w.carried t = some o) :
    w'.HandsOver t id := by
  obtain ⟨e, job, rfl, he⟩ := h
  rcases hwork.held_next he with hkept | ⟨-, hkept⟩ | ⟨j, -, -, -, hnone, -⟩ | ⟨rfl, -⟩
  · exact ⟨e, _, rfl, hkept⟩
  · exact ⟨e, _, rfl, hkept⟩
  · cases hnone.symm.trans ho
  · obtain ⟨name, job, id', hbusy, -⟩ := hsound.busy e o ho
    cases he.symm.trans hbusy

theorem SingleUse.carried_work (h : w.SingleUse id) (hwork : Work w w' l) (hsound : w.Sound)
    (hid : id ≠ invalidTaskId) (hcareful : w.Careful id l) (t : Thread) (n : QueueName)
    (task : InnerTask α) (ht : w'.carried t = some (n, task)) (htask : task.taskId = id) :
    (n = .execs ∧ w'.HandsOver t id) ∨ w'.OnlyCarried t id := by
  rcases hwork.carried_of ht with hold | ⟨rfl, -, -, -, -, -⟩ |
    ⟨e, name, func, taskId, rfl, hheld, hnext, rfl, -⟩
  · rcases h.carried t n task hold htask with ⟨rfl, hover⟩ | honly
    · exact .inl ⟨rfl, hover.work hwork hsound hold⟩
    · refine .inr ⟨fun name => (honly.vacant name).work hwork hsound hid ?_, ?_⟩
      · -- What is queued with the id is what this call is to queue.
        rintro number task' rfl hid'
        obtain ⟨u, hu, hnone⟩ := hwork.queued_inv
        obtain rfl := honly.only u _ task' hu hid'
        cases hnone.symm.trans ht
      · intro u name task' hu hid'
        rcases hwork.carried_of hu with hold' | ⟨rfl, -⟩ | ⟨d, name', func, taskId, -, hd, -⟩
        · exact honly.only u name task' hold' hid'
        · exact absurd htask ((hcareful.gave task' rfl hid').carried t n task hold)
        · obtain ⟨-, rfl, rfl, -⟩ := (hsound.held d name' _ taskId hd).2 func task'.taskId rfl
          exact absurd (hid' ▸ hd) ((honly.vacant .delayTasks).held d _)
  · have hunused := hcareful.gave task rfl htask
    obtain ⟨u, name, -, hcarried⟩ := hwork.gave_inv
    -- Only the call that was given the id has something new to queue.
    have hcall : ∀ t' o, w'.carried t' = some o → o.2.taskId = id → t' = u := by
      intro t' o ht' hid'
      by_contra hne
      rw [hcarried, Function.update_of_ne hne] at ht'
      exact hunused.carried t' o.1 o.2 ht' hid'
    refine .inr ⟨fun name => (hunused.vacant name).work hwork hsound hid nofun, ?_⟩
    intro t' name' task' ht' hid'
    exact (hcall t' _ ht' hid').trans (hcall t _ ht htask).symm
  · obtain ⟨-, rfl, rfl, -⟩ := (hsound.held e name _ taskId hheld).2 func task.taskId rfl
    exact .inl ⟨rfl, e, _, rfl, htask ▸ hnext⟩

theorem SingleUse.work (h : w.SingleUse id) (hwork : Work w w' l) (hsound : w.Sound)
    (hid : id ≠ invalidTaskId) (hcareful : w.Careful id l) : w'.SingleUse id :=
  ⟨h.queues_work hwork hsound hcareful, h.held_work hwork hsound hid,
    h.holder_work hwork hsound hid, h.carried_work hwork hsound hid hcareful⟩

theorem unused_initial (max min : UInt64) (id : TaskId) :
    (initial max min : ExecutorPool α).Unused id where
  carried _ _ _ ht := nomatch ht
  vacant _ :=
    ⟨fun _ hq => queue_initial hq ▸ PriorityQueue.lacks_empty id, fun _ _ he => nomatch he⟩

theorem singleUse_initial (max min : UInt64) (id : TaskId) :
    (initial max min : ExecutorPool α).SingleUse id where
  queues _ _ hq := queue_initial hq ▸ (PriorityQueue.lacks_empty id).single
  held _ _ _ _ he := nomatch he
  holder _ _ _ _ _ he := nomatch he
  carried _ _ _ ht := nomatch ht

end ExecutorPool

end NativePreferences
