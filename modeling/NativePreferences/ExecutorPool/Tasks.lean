import NativePreferences.ExecutorPool.TaskPool

/-!
# NativePreferences.ExecutorPool.Tasks

**Where the tasks are.** A task in a queue is one that `Schedule` or `Execute` has made for this
queue, under its own id. A task in `running_` has been popped by an executor that has not finished
it, and an executor that is to queue a task is still in the function that it runs (`Sound`).

A pool for one thread has no `execs_`, and of its executors only one has popped something at any
time (`held_unique`).
-/

namespace NativePreferences

open Lib

variable {α : Type}

/-! ### Updaters -/

namespace InnerTask

/-- The updater leaves the id and the function alone. -/
def Keeps (updater : InnerTask α → (Bool × Int) × InnerTask α) : Prop :=
  ∀ task, (updater task).2.taskId = task.taskId ∧ (updater task).2.exec = task.exec

theorem keeps_nextTimer (now : Int) : Keeps (nextTimer now : InnerTask α → _) := by
  intro task
  rw [nextTimer]
  split
  · dsimp only
    split <;> exact ⟨rfl, rfl⟩
  · exact ⟨rfl, rfl⟩

theorem keeps_updater (w : ExecutorPool α) (name : QueueName) : Keeps (w.updater name) := by
  cases name with
  | delayTasks => exact keeps_nextTimer w.now
  | execs => exact fun task => ⟨rfl, rfl⟩

theorem keeps_reset (now interval : Int) : Keeps (reset now interval : InnerTask α → _) := by
  intro task
  rw [reset]
  dsimp only
  split <;> exact ⟨rfl, rfl⟩

variable {hasExecs : Bool} {name : QueueName} {task task' : InnerTask α}

theorem Shaped.congr (h : task.Shaped hasExecs name) (hid : task'.taskId = task.taskId)
    (hexec : task'.exec = task.exec) : task'.Shaped hasExecs name := by
  constructor
  · rw [hid]
    exact h.valid
  · rw [hexec, hid]
    exact h.exec

theorem Shaped.push (h : task.Shaped hasExecs name) (q : TaskQueue α) (time : Int) :
    (q.push InnerTask.valid task task.taskId time).2 =
      q.emplace task.taskId time ⟨task, task.taskId⟩ := by
  have hvalid : InnerTask.valid task = true := bne_iff_ne.mpr h.valid
  rw [PriorityQueue.push, if_pos hvalid]

/-- Only a task of `delayTasks_` calls `Execute`, with its own id. -/
theorem Shaped.of_execute (h : task.Shaped hasExecs name) {func : α} {id : TaskId}
    (hexec : task.exec = .execute func id) :
    hasExecs = true ∧ name = .delayTasks ∧ id = task.taskId := by
  have hshape := h.exec
  rw [hexec] at hshape
  cases name with
  | execs =>
      obtain ⟨func', heq⟩ := hshape
      cases heq
  | delayTasks =>
      dsimp only at hshape
      split at hshape
      · next htrue =>
        obtain ⟨func', heq⟩ := hshape
        cases heq
        exact ⟨htrue, rfl, rfl⟩
      · obtain ⟨func', heq⟩ := hshape
        cases heq

end InnerTask

/-! ### Queues -/

/-- A queue that holds what has been made for it. -/
structure QueueSound (hasExecs : Bool) (name : QueueName) (q : TaskQueue α) : Prop where
  wellFormed : q.WellFormed
  entries : ∀ entry ∈ q.tasks, entry.matrix.id = entry.matrix.task.taskId ∧
    entry.matrix.task.Shaped hasExecs name
  running : ∀ id matrix, q.running.lookup id = some matrix → matrix.task.taskId = id ∧
    matrix.task.Shaped hasExecs name

namespace QueueSound

variable {hasExecs : Bool} {name : QueueName} {q q' : TaskQueue α} {id : TaskId}

theorem empty : QueueSound hasExecs name (.empty : TaskQueue α) where
  wellFormed := PriorityQueue.wellFormed_empty
  entries _ h := absurd h List.not_mem_nil
  running _ _ h := by simp [PriorityQueue.empty] at h

/-- What is in the queue was there before, or is a new entry. -/
theorem of_subset (h : QueueSound hasExecs name q) (hq : q'.WellFormed)
    (htasks : ∀ e ∈ q'.tasks, e ∈ q.tasks ∨
      e.matrix.id = e.matrix.task.taskId ∧ e.matrix.task.Shaped hasExecs name)
    (hrunning : ∀ id matrix, q'.running.lookup id = some matrix →
      q.running.lookup id = some matrix ∨
        matrix.task.taskId = id ∧ matrix.task.Shaped hasExecs name) :
    QueueSound hasExecs name q' where
  wellFormed := hq
  entries e he := (htasks e he).elim (h.entries e) (fun hnew => hnew)
  running id matrix hm := (hrunning id matrix hm).elim (h.running id matrix) (fun hnew => hnew)

theorem emplace (h : QueueSound hasExecs name q) {matrix : PQMatrix (InnerTask α) TaskId}
    (hid : matrix.id = matrix.task.taskId) (hshaped : matrix.task.Shaped hasExecs name)
    (time : Int) : QueueSound hasExecs name (q.emplace matrix.id time matrix) := by
  refine h.of_subset (h.wellFormed.emplace time matrix) ?_ (fun _ _ hm => .inl hm)
  intro e he
  rcases PriorityQueue.mem_insertTask.mp he with rfl | he
  · exact .inr ⟨hid, hshaped⟩
  · exact .inl he

theorem pop (h : QueueSound hasExecs name q) {task : InnerTask α} {now : Int}
    {entry : PQEntry (InnerTask α) Int TaskId} {rest : List (PQEntry (InnerTask α) Int TaskId)}
    (hpop : q.pop InnerTask.invalid now = some (task, q')) (htasks : q.tasks = entry :: rest) :
    QueueSound hasExecs name q' := by
  refine h.of_subset (h.wellFormed.pop hpop htasks) ?_ ?_
  · obtain rfl := PriorityQueue.pop_inv hpop htasks
    intro e he
    exact .inl (htasks ▸ List.mem_cons_of_mem _ he)
  · obtain rfl := PriorityQueue.pop_inv hpop htasks
    intro id matrix hm
    dsimp only at hm
    split at hm
    · exact .inl hm
    · by_cases heq : id = entry.matrix.id
      · rw [heq, Finmap.lookup_insert] at hm
        obtain rfl := Option.some.inj hm
        obtain ⟨hid, hshaped⟩ := h.entries entry (htasks ▸ List.mem_cons_self)
        exact .inr ⟨hid.symm.trans heq.symm, hshaped⟩
      · rw [Finmap.lookup_insert_of_ne _ heq] at hm
        exact .inl hm

theorem erase_running (h : QueueSound hasExecs name q) (id : TaskId) :
    QueueSound hasExecs name { q with running := q.running.erase id } := by
  refine h.of_subset (h.wellFormed.erase_running id) (fun e he => .inl he) ?_
  intro id' matrix hm
  exact .inl (PriorityQueue.lookup_erase_some hm)

theorem finish (h : QueueSound hasExecs name q)
    {updater : InnerTask α → (Bool × Int) × InnerTask α} (hkeeps : InnerTask.Keeps updater)
    (id : TaskId) : QueueSound hasExecs name (q.finish updater id) := by
  rcases PriorityQueue.finish_inv updater q id with ⟨-, hsame⟩ | ⟨matrix, hrunning, hfinish⟩
  · rw [hsame]
    exact h
  · obtain ⟨hid, hshaped⟩ := h.running id matrix hrunning
    obtain ⟨hkeepsId, hkeepsExec⟩ := hkeeps matrix.task
    obtain rfl : matrix.id = id := h.wellFormed.running id matrix hrunning
    rw [hfinish]
    split
    · let matrix' : PQMatrix (InnerTask α) TaskId := { matrix with task := (updater matrix.task).2 }
      have hid' : matrix'.id = matrix'.task.taskId := hid.symm.trans hkeepsId.symm
      have hnew := h.emplace hid' (hshaped.congr hkeepsId hkeepsExec) (updater matrix.task).1.2
      exact hnew.erase_running matrix.id
    · exact h.erase_running matrix.id

theorem remove (h : QueueSound hasExecs name q) {wait res : Bool}
    (hremove : q.remove id wait = some (res, q')) : QueueSound hasExecs name q' := by
  refine h.of_subset (h.wellFormed.remove hremove) ?_ ?_
  · obtain ⟨-, ⟨-, rfl⟩ | ⟨index, -, rfl⟩⟩ := PriorityQueue.remove_inv hremove
    · exact fun e he => .inl he
    · exact fun e he => .inl (PriorityQueue.mem_eraseTask.mp he).1
  · obtain ⟨-, ⟨-, rfl⟩ | ⟨index, -, rfl⟩⟩ := PriorityQueue.remove_inv hremove
    · exact fun _ _ hm => .inl hm
    · exact fun _ _ hm => .inl hm

theorem reset (h : QueueSound hasExecs name q) (now interval : Int) (id : TaskId) :
    QueueSound hasExecs name (q.update (InnerTask.reset now interval) id).2 := by
  have hkeeps : InnerTask.Keeps (InnerTask.reset now interval : InnerTask α → _) :=
    InnerTask.keeps_reset now interval
  have hwell := h.wellFormed.update (InnerTask.reset now interval) id
  rcases PriorityQueue.update_cases (InnerTask.reset now interval) q id with
    ⟨entry, hentry, -, hq⟩ | ⟨entry, -, hkept, -⟩ | ⟨-, ⟨matrix, hrunning, hq⟩ | ⟨-, hq⟩⟩
  · obtain ⟨-, hmem⟩ := PriorityQueue.entryAt_some hentry
    obtain ⟨hid, hshaped⟩ := h.entries entry hmem
    obtain ⟨hkeepsId, hkeepsExec⟩ := hkeeps entry.matrix.task
    rw [hq] at hwell ⊢
    refine h.of_subset hwell ?_ (fun _ _ hm => .inl hm)
    intro e he
    rcases PriorityQueue.mem_insertTask.mp he with rfl | he
    · exact .inr ⟨hid.trans hkeepsId.symm, hshaped.congr hkeepsId hkeepsExec⟩
    · exact .inl (PriorityQueue.mem_eraseTask.mp he).1
  · cases (show true = false from hkept)
  · obtain ⟨hid, hshaped⟩ := h.running id matrix hrunning
    obtain ⟨hkeepsId, hkeepsExec⟩ := hkeeps matrix.task
    rw [hq] at hwell ⊢
    refine h.of_subset hwell (fun e he => .inl he) ?_
    intro id' matrix' hm
    dsimp only at hm
    by_cases heq : id' = id
    · rw [heq, Finmap.lookup_insert] at hm
      obtain rfl := Option.some.inj hm
      exact .inr ⟨hkeepsId.trans (hid.trans heq.symm), hshaped.congr hkeepsId hkeepsExec⟩
    · rw [Finmap.lookup_insert_of_ne _ heq] at hm
      exact .inl hm
  · rw [hq]
    exact h

end QueueSound

/-! ### The pool -/

namespace ExecutorPool

variable {w w' : ExecutorPool α} {l : Label α}

/-- What is queued, what is still to be queued and what the executors hold fits together. -/
structure Sound (w : ExecutorPool α) : Prop where
  queues : ∀ name q, w.queue name = some q → QueueSound w.execs.isSome name q
  carried : ∀ t name task, w.carried t = some (name, task) →
    task.Shaped w.execs.isSome name ∧ w.queue name ≠ none
  held : ∀ e name job id, w.held e = some (name, job, id) → w.queue name ≠ none ∧
    ∀ func id', job = some (.execute func id') →
      w.execs.isSome = true ∧ name = .delayTasks ∧ id' = id ∧ id' ≠ invalidTaskId
  runs : ∀ name q id, w.queue name = some q → id ∈ q.running →
    ∃ e job, w.held e = some (name, job, id)
  busy : ∀ e o, w.carried (.executor e) = some o →
    ∃ name job id, w.held e = some (name, some job, id) ∧ ∀ func id', job ≠ .execute func id'

/-- One queue of the pool has changed. -/
theorem queue_update {name : QueueName} {q q' : TaskQueue α} (hget : w.queue name = some q)
    (hqueue : w'.queue = Function.update w.queue name (some q')) (n : QueueName) :
    (w'.queue n).isSome = (w.queue n).isSome := by
  rw [hqueue]
  by_cases hn : n = name
  · rw [hn, Function.update_self, hget]
    rfl
  · rw [Function.update_of_ne hn]

theorem isSome_execs (h : ∀ n, (w'.queue n).isSome = (w.queue n).isSome) :
    w'.execs.isSome = w.execs.isSome := h .execs

theorem Work.isSome (h : Work w w' l) (n : QueueName) :
    (w'.queue n).isSome = (w.queue n).isSome := by
  cases h with
  | quiet hl hqueue hcarried hheld => rw [hqueue]
  | gave t name task hid hshaped hthere hcaller hnone hqueue hcarried hheld => rw [hqueue]
  | queued t name task time q hcarry hget hqueue hcarried hheld => exact queue_update hget hqueue n
  | started e name q q' entry rest hnone hahead hget htasks hpop hqueue hcarried hheld =>
      exact queue_update hget hqueue n
  | startedNothing e name hnone hahead hthere hqueue hcarried hheld => rw [hqueue]
  | handed e name func id taskId hholds hnone hqueue hcarried hheld => rw [hqueue]
  | ran e name job id hholds hjob hnone hqueue hcarried hheld => rw [hqueue]
  | finished e name id q hholds hget hqueue hcarried hheld => exact queue_update hget hqueue n
  | erased name id wait res q q' hget hremove hqueue hcarried hheld =>
      exact queue_update hget hqueue n
  | reset id interval q task hget htask hqueue hcarried hheld => exact queue_update hget hqueue n

theorem Work.queue_ne_none (h : Work w w' l) {n : QueueName} :
    w'.queue n ≠ none ↔ w.queue n ≠ none := by
  rw [← Option.isSome_iff_ne_none, ← Option.isSome_iff_ne_none, h.isSome]

/-- A queue that has changed holds what has been made for it, and so do the others. -/
theorem Sound.queues_update (h : w.Sound) {name : QueueName} {q q' : TaskQueue α}
    (hget : w.queue name = some q)
    (hqueue : w'.queue = Function.update w.queue name (some q'))
    (hq : QueueSound w.execs.isSome name q → QueueSound w.execs.isSome name q') (n : QueueName)
    (p : TaskQueue α) (hp : w'.queue n = some p) : QueueSound w.execs.isSome n p := by
  rw [hqueue] at hp
  by_cases hn : n = name
  · subst hn
    rw [Function.update_self] at hp
    obtain rfl := Option.some.inj hp
    exact hq (h.queues n q hget)
  · rw [Function.update_of_ne hn] at hp
    exact h.queues n p hp

theorem Sound.queues_work (h : w.Sound) (hwork : Work w w' l) (n : QueueName) (p : TaskQueue α)
    (hp : w'.queue n = some p) : QueueSound w'.execs.isSome n p := by
  rw [isSome_execs hwork.isSome]
  cases hwork with
  | quiet hl hqueue hcarried hheld => exact h.queues n p (hqueue ▸ hp)
  | gave t name task hid hshaped hthere hcaller hnone hqueue hcarried hheld =>
      exact h.queues n p (hqueue ▸ hp)
  | queued t name task time q hcarry hget hqueue hcarried hheld =>
      obtain ⟨hshaped, -⟩ := h.carried t name task hcarry
      refine h.queues_update hget hqueue ?_ n p hp
      intro hq
      let matrix : PQMatrix (InnerTask α) TaskId := ⟨task, task.taskId⟩
      have hid : matrix.id = matrix.task.taskId := rfl
      rw [hshaped.push]
      exact hq.emplace hid hshaped time
  | started e name q q' entry rest hnone hahead hget htasks hpop hqueue hcarried hheld =>
      exact h.queues_update hget hqueue (fun hq => hq.pop hpop htasks) n p hp
  | startedNothing e name hnone hahead hthere hqueue hcarried hheld =>
      exact h.queues n p (hqueue ▸ hp)
  | handed e name func id taskId hholds hnone hqueue hcarried hheld =>
      exact h.queues n p (hqueue ▸ hp)
  | ran e name job id hholds hjob hnone hqueue hcarried hheld => exact h.queues n p (hqueue ▸ hp)
  | finished e name id q hholds hget hqueue hcarried hheld =>
      refine h.queues_update hget hqueue ?_ n p hp
      exact fun hq => hq.finish (InnerTask.keeps_updater w name) id
  | erased name id wait res q q' hget hremove hqueue hcarried hheld =>
      exact h.queues_update hget hqueue (fun hq => hq.remove hremove) n p hp
  | reset id interval q task hget htask hqueue hcarried hheld =>
      exact h.queues_update hget hqueue (fun hq => hq.reset w.now interval id) n p hp

/-- A value at one place is updated: it is the new one there. -/
theorem update_eq_some {ι : Type} [DecidableEq ι] {β : Type} {f g : ι → Option β} {i j : ι}
    {o : Option β} {b : β} (hg : g = Function.update f i o) (hb : g j = some b) :
    (j = i ∧ o = some b) ∨ (j ≠ i ∧ f j = some b) := by
  rw [hg] at hb
  by_cases hj : j = i
  · rw [hj, Function.update_self] at hb
    exact .inl ⟨hj, hb⟩
  · rw [Function.update_of_ne hj] at hb
    exact .inr ⟨hj, hb⟩

/-- **Where a task that is to be queued comes from**: it was to be queued before, has just been
made, or is handed to `Execute` by an executor. -/
theorem Work.carried_of (h : Work w w' l) {t : Thread} {n : QueueName} {task : InnerTask α}
    (ht : w'.carried t = some (n, task)) :
    w.carried t = some (n, task) ∨
    (l = .gave task ∧ w.carried t = none ∧ task.taskId = w.genTaskId ∧
      task.Shaped w.execs.isSome n ∧ w.queue n ≠ none ∧
      ∀ e, t = .executor e → ∃ name func id, w'.held e = some (name, some (.user func), id)) ∨
    ∃ e name func taskId, t = .executor e ∧
      w.held e = some (name, some (.execute func task.taskId), taskId) ∧
        w'.held e = some (name, some .nothing, taskId) ∧ n = .execs ∧
        task = ⟨.user func, 0, unlimitedTimes, task.taskId⟩ := by
  cases h with
  | quiet hl hqueue hcarried hheld => exact .inl (hcarried ▸ ht)
  | gave u name task' hid hshaped hthere hcaller hnone hqueue hcarried hheld =>
      rcases update_eq_some hcarried ht with ⟨rfl, heq⟩ | ⟨-, hold⟩
      · cases heq
        exact .inr (.inl ⟨rfl, hnone, hid, hshaped, hthere, hheld ▸ hcaller⟩)
      · exact .inl hold
  | queued u name task' time q hcarry hget hqueue hcarried hheld =>
      rcases update_eq_some hcarried ht with ⟨-, heq⟩ | ⟨-, hold⟩
      · cases heq
      · exact .inl hold
  | started e name q q' entry rest hnone hahead hget htasks hpop hqueue hcarried hheld =>
      exact .inl (hcarried ▸ ht)
  | startedNothing e name hnone hahead hthere hqueue hcarried hheld => exact .inl (hcarried ▸ ht)
  | handed e name func id taskId hholds hnone hqueue hcarried hheld =>
      rcases update_eq_some hcarried ht with ⟨rfl, heq⟩ | ⟨-, hold⟩
      · cases heq
        refine .inr (.inr ⟨e, name, func, taskId, rfl, hholds, ?_, rfl, rfl⟩)
        rw [hheld, Function.update_self]
      · exact .inl hold
  | ran e name job id hholds hjob hnone hqueue hcarried hheld => exact .inl (hcarried ▸ ht)
  | finished e name id q hholds hget hqueue hcarried hheld => exact .inl (hcarried ▸ ht)
  | erased name id wait res q q' hget hremove hqueue hcarried hheld => exact .inl (hcarried ▸ ht)
  | reset id interval q task' hget htask hqueue hcarried hheld => exact .inl (hcarried ▸ ht)

/-- **What becomes of a task that is to be queued.** -/
theorem Work.carried_next (h : Work w w' l) {t : Thread} {n : QueueName} {task : InnerTask α}
    (ht : w.carried t = some (n, task)) :
    w'.carried t = some (n, task) ∨
      ∃ q, w.queue n = some q ∧ l = .queued n q.emplaced task ∧ w'.carried t = none := by
  have hkept : ∀ {u : Thread} {o : Option (QueueName × InnerTask α)},
      w'.carried = Function.update w.carried u o → t ≠ u → w'.carried t = some (n, task) := by
    intro u o hcarried hne
    rw [hcarried, Function.update_of_ne hne, ht]
  cases h with
  | quiet hl hqueue hcarried hheld => exact .inl (hcarried ▸ ht)
  | gave u name task' hid hshaped hthere hcaller hnone hqueue hcarried hheld =>
      refine .inl (hkept hcarried ?_)
      rintro rfl
      cases ht.symm.trans hnone
  | queued u name task' time q hcarry hget hqueue hcarried hheld =>
      by_cases hu : t = u
      · subst hu
        cases ht.symm.trans hcarry
        exact .inr ⟨q, hget, rfl, by rw [hcarried, Function.update_self]⟩
      · exact .inl (hkept hcarried hu)
  | started e name q q' entry rest hnone hahead hget htasks hpop hqueue hcarried hheld =>
      exact .inl (hcarried ▸ ht)
  | startedNothing e name hnone hahead hthere hqueue hcarried hheld => exact .inl (hcarried ▸ ht)
  | handed e name func id taskId hholds hnone hqueue hcarried hheld =>
      refine .inl (hkept hcarried ?_)
      rintro rfl
      cases ht.symm.trans hnone
  | ran e name job id hholds hjob hnone hqueue hcarried hheld => exact .inl (hcarried ▸ ht)
  | finished e name id q hholds hget hqueue hcarried hheld => exact .inl (hcarried ▸ ht)
  | erased name id wait res q q' hget hremove hqueue hcarried hheld => exact .inl (hcarried ▸ ht)
  | reset id interval q task' hget htask hqueue hcarried hheld => exact .inl (hcarried ▸ ht)

/-- A task that has been made is to be queued. -/
theorem Work.gave_inv {task : InnerTask α} (h : Work w w' (.gave task)) :
    ∃ t n, w.queue n ≠ none ∧ w'.carried = Function.update w.carried t (some (n, task)) := by
  cases h with
  | quiet hl => cases hl
  | gave t name _ hid hshaped hthere hcaller hnone hqueue hcarried hheld =>
      exact ⟨t, name, hthere, hcarried⟩

/-- **Where a task that an executor holds comes from**: it was held before, with more to do, or has
been popped. -/
theorem Work.held_of (h : Work w w' l) {e : Nat} {n : QueueName} {job : Option (Job α)}
    {id : TaskId} (he : w'.held e = some (n, job, id)) :
    (∃ job', w.held e = some (n, job', id) ∧ (job = job' ∨ job = some .nothing ∨ job = none)) ∨
    w.held e = none ∧ (w.executors e).Ahead n ∧
      ((∃ q entry rest, l = .started e n entry.iterator entry.matrix.task ∧
        w.queue n = some q ∧ q.tasks = entry :: rest ∧ job = some entry.matrix.task.exec ∧
          id = entry.matrix.task.taskId) ∨
      w.queue n ≠ none ∧ job = some .nothing ∧ id = invalidTaskId) := by
  cases h with
  | quiet hl hqueue hcarried hheld => exact .inl ⟨job, hheld ▸ he, .inl rfl⟩
  | gave t name task hid hshaped hthere hcaller hnone hqueue hcarried hheld =>
      exact .inl ⟨job, hheld ▸ he, .inl rfl⟩
  | queued t name task time q hcarry hget hqueue hcarried hheld =>
      exact .inl ⟨job, hheld ▸ he, .inl rfl⟩
  | started d name q q' entry rest hnone hahead hget htasks hpop hqueue hcarried hheld =>
      rcases update_eq_some hheld he with ⟨rfl, heq⟩ | ⟨-, hold⟩
      · cases heq
        exact .inr ⟨hnone, hahead, .inl ⟨q, entry, rest, rfl, hget, htasks, rfl, rfl⟩⟩
      · exact .inl ⟨job, hold, .inl rfl⟩
  | startedNothing d name hnone hahead hthere hqueue hcarried hheld =>
      rcases update_eq_some hheld he with ⟨rfl, heq⟩ | ⟨-, hold⟩
      · cases heq
        exact .inr ⟨hnone, hahead, .inr ⟨hthere, rfl, rfl⟩⟩
      · exact .inl ⟨job, hold, .inl rfl⟩
  | handed d name func id' taskId hholds hnone hqueue hcarried hheld =>
      rcases update_eq_some hheld he with ⟨rfl, heq⟩ | ⟨-, hold⟩
      · cases heq
        exact .inl ⟨_, hholds, .inr (.inl rfl)⟩
      · exact .inl ⟨job, hold, .inl rfl⟩
  | ran d name job' id' hholds hjob hnone hqueue hcarried hheld =>
      rcases update_eq_some hheld he with ⟨rfl, heq⟩ | ⟨-, hold⟩
      · cases heq
        exact .inl ⟨_, hholds, .inr (.inr rfl)⟩
      · exact .inl ⟨job, hold, .inl rfl⟩
  | finished d name id' q hholds hget hqueue hcarried hheld =>
      rcases update_eq_some hheld he with ⟨-, heq⟩ | ⟨-, hold⟩
      · cases heq
      · exact .inl ⟨job, hold, .inl rfl⟩
  | erased name id' wait res q q' hget hremove hqueue hcarried hheld =>
      exact .inl ⟨job, hheld ▸ he, .inl rfl⟩
  | reset id' interval q task hget htask hqueue hcarried hheld =>
      exact .inl ⟨job, hheld ▸ he, .inl rfl⟩

/-- The task that is started is the first one of its queue. -/
theorem Work.started_inv {e number : Nat} {n : QueueName} {task : InnerTask α}
    (h : Work w w' (.started e n number task)) :
    w.held e = none ∧ (w.executors e).Ahead n ∧
      w'.held e = some (n, some task.exec, task.taskId) ∧
      ∃ q entry rest, w.queue n = some q ∧ q.tasks = entry :: rest ∧ entry.iterator = number ∧
        entry.matrix.task = task := by
  cases h with
  | quiet hl => cases hl
  | started e name q q' entry rest hnone hahead hget htasks hpop hqueue hcarried hheld =>
      refine ⟨hnone, hahead, ?_, q, entry, rest, hget, htasks, rfl, rfl⟩
      rw [hheld, Function.update_self]

theorem Work.queued_inv {n : QueueName} {number : Nat} {task : InnerTask α}
    (h : Work w w' (.queued n number task)) :
    ∃ t, w.carried t = some (n, task) ∧ w'.carried t = none := by
  cases h with
  | quiet hl => cases hl
  | queued t _ _ time q hcarry hget hqueue hcarried hheld =>
      exact ⟨t, hcarry, by rw [hcarried, Function.update_self]⟩

theorem Work.ran_inv {e : Nat} {n : QueueName} {job : Job α} {id : TaskId}
    (h : Work w w' (.ran e n job id)) :
    w.held e = some (n, some job, id) ∧ w'.held e = some (n, none, id) := by
  cases h with
  | quiet hl => cases hl
  | ran _ _ _ _ hholds hjob hnone hqueue hcarried hheld =>
      exact ⟨hholds, by rw [hheld, Function.update_self]⟩

theorem Work.finished_inv {e : Nat} {n : QueueName} {id : TaskId}
    (h : Work w w' (.finished e n id)) : w.held e = some (n, none, id) ∧ w'.held e = none := by
  cases h with
  | quiet hl => cases hl
  | finished _ _ _ q hholds hget hqueue hcarried hheld =>
      exact ⟨hholds, by rw [hheld, Function.update_self]⟩

/-- **What an executor does with a task that it holds**: it keeps it, hands it to `Execute`, the
function returns, or the task is finished. -/
theorem Work.held_next (h : Work w w' l) {e : Nat} {n : QueueName} {job : Option (Job α)}
    {id : TaskId} (he : w.held e = some (n, job, id)) :
    w'.held e = some (n, job, id) ∨
    ((∃ func id', job = some (.execute func id')) ∧ w'.held e = some (n, some .nothing, id)) ∨
    (∃ j, job = some j ∧ (∀ func id', j ≠ .execute func id') ∧ l = .ran e n j id ∧
      w.carried (.executor e) = none ∧ w'.held e = some (n, none, id)) ∨
    (job = none ∧ l = .finished e n id ∧ w'.held e = none) := by
  have hkept : ∀ {d : Nat} {o : Option (QueueName × Option (Job α) × TaskId)},
      w'.held = Function.update w.held d o → e ≠ d → w'.held e = some (n, job, id) := by
    intro d o hheld hne
    rw [hheld, Function.update_of_ne hne, he]
  cases h with
  | quiet hl hqueue hcarried hheld => exact .inl (hheld ▸ he)
  | gave t name task hid hshaped hthere hcaller hnone hqueue hcarried hheld =>
      exact .inl (hheld ▸ he)
  | queued t name task time q hcarry hget hqueue hcarried hheld => exact .inl (hheld ▸ he)
  | started d name q q' entry rest hnone hahead hget htasks hpop hqueue hcarried hheld =>
      refine .inl (hkept hheld ?_)
      rintro rfl
      cases he.symm.trans hnone
  | startedNothing d name hnone hahead hthere hqueue hcarried hheld =>
      refine .inl (hkept hheld ?_)
      rintro rfl
      cases he.symm.trans hnone
  | handed d name func id' taskId hholds hnone hqueue hcarried hheld =>
      by_cases hd : e = d
      · subst hd
        cases he.symm.trans hholds
        exact .inr (.inl ⟨⟨func, id', rfl⟩, by rw [hheld, Function.update_self]⟩)
      · exact .inl (hkept hheld hd)
  | ran d name j id' hholds hjob hnone hqueue hcarried hheld =>
      by_cases hd : e = d
      · subst hd
        cases he.symm.trans hholds
        exact .inr (.inr (.inl ⟨j, rfl, hjob, rfl, hnone, by rw [hheld, Function.update_self]⟩))
      · exact .inl (hkept hheld hd)
  | finished d name id' q hholds hget hqueue hcarried hheld =>
      by_cases hd : e = d
      · subst hd
        cases he.symm.trans hholds
        exact .inr (.inr (.inr ⟨rfl, rfl, by rw [hheld, Function.update_self]⟩))
      · exact .inl (hkept hheld hd)
  | erased name id' wait res q q' hget hremove hqueue hcarried hheld => exact .inl (hheld ▸ he)
  | reset id' interval q task hget htask hqueue hcarried hheld => exact .inl (hheld ▸ he)

/-- **Where a task in `running_` comes from**: it was there before, and has not been finished, or
it has been popped. -/
theorem Work.running_of (h : Work w w' l) (hsound : w.Sound) {n : QueueName} {p : TaskQueue α}
    {id : TaskId} (hp : w'.queue n = some p) (hid : id ∈ p.running) :
    (∃ q, w.queue n = some q ∧ id ∈ q.running ∧ ∀ e, l ≠ .finished e n id) ∨
    ∃ e number task, l = .started e n number task ∧ w'.held e = some (n, some task.exec, id) := by
  have hother : ∀ {name : QueueName} {q : TaskQueue α},
      w'.queue = Function.update w.queue name (some q) → n ≠ name → w.queue n = some p := by
    intro name q hqueue hne
    rw [← hp, hqueue, Function.update_of_ne hne]
  have hsame : ∀ {name : QueueName} {q : TaskQueue α},
      w'.queue = Function.update w.queue name (some q) → n = name → p = q := by
    intro name q hqueue heq
    subst heq
    rw [hqueue, Function.update_self] at hp
    exact (Option.some.inj hp).symm
  cases h with
  | quiet hl hqueue hcarried hheld =>
      refine .inl ⟨p, hqueue ▸ hp, hid, ?_⟩
      rintro e rfl
      cases hl
  | gave t name task hid' hshaped hthere hcaller hnone hqueue hcarried hheld =>
      exact .inl ⟨p, hqueue ▸ hp, hid, nofun⟩
  | queued t name task time q hcarry hget hqueue hcarried hheld =>
      by_cases hn : n = name
      · obtain rfl := hsame hqueue hn
        rw [PriorityQueue.push_running] at hid
        exact .inl ⟨q, hn ▸ hget, hid, nofun⟩
      · exact .inl ⟨p, hother hqueue hn, hid, nofun⟩
  | started e name q q' entry rest hnone hahead hget htasks hpop hqueue hcarried hheld =>
      by_cases hn : n = name
      · obtain rfl := hsame hqueue hn
        rcases (PriorityQueue.mem_running_pop hpop htasks).mp hid with rfl | hold
        · obtain ⟨hentry, -⟩ :=
            (hsound.queues name q hget).entries entry (htasks ▸ List.mem_cons_self)
          refine .inr ⟨e, entry.iterator, entry.matrix.task, by rw [hn], ?_⟩
          rw [hheld, Function.update_self, hn, hentry]
        · exact .inl ⟨q, hn ▸ hget, hold, nofun⟩
      · exact .inl ⟨p, hother hqueue hn, hid, nofun⟩
  | startedNothing e name hnone hahead hthere hqueue hcarried hheld =>
      exact .inl ⟨p, hqueue ▸ hp, hid, nofun⟩
  | handed e name func id' taskId hholds hnone hqueue hcarried hheld =>
      exact .inl ⟨p, hqueue ▸ hp, hid, nofun⟩
  | ran e name job id' hholds hjob hnone hqueue hcarried hheld =>
      exact .inl ⟨p, hqueue ▸ hp, hid, nofun⟩
  | finished e name id' q hholds hget hqueue hcarried hheld =>
      by_cases hn : n = name
      · obtain rfl := hsame hqueue hn
        obtain ⟨hne, hold⟩ := PriorityQueue.mem_running_finish.mp hid
        refine .inl ⟨q, hn ▸ hget, hold, ?_⟩
        rintro d heq
        cases heq
        exact hne rfl
      · refine .inl ⟨p, hother hqueue hn, hid, ?_⟩
        rintro d heq
        cases heq
        exact hn rfl
  | erased name id' wait res q q' hget hremove hqueue hcarried hheld =>
      by_cases hn : n = name
      · obtain rfl := hsame hqueue hn
        rw [PriorityQueue.remove_running hremove] at hid
        exact .inl ⟨q, hn ▸ hget, hid, nofun⟩
      · exact .inl ⟨p, hother hqueue hn, hid, nofun⟩
  | reset id' interval q task hget htask hqueue hcarried hheld =>
      by_cases hn : n = .delayTasks
      · obtain rfl := hsame hqueue hn
        rw [PriorityQueue.mem_running_update] at hid
        exact .inl ⟨q, hn ▸ hget, hid, nofun⟩
      · exact .inl ⟨p, hother hqueue hn, hid, nofun⟩

theorem Sound.carried_work (h : w.Sound) (hwork : Work w w' l) (t : Thread) (n : QueueName)
    (task : InnerTask α) (ht : w'.carried t = some (n, task)) :
    task.Shaped w'.execs.isSome n ∧ w'.queue n ≠ none := by
  rw [isSome_execs hwork.isSome, hwork.queue_ne_none]
  rcases hwork.carried_of ht with hold | ⟨-, -, -, hshaped, hthere, -⟩ |
    ⟨e, name, func, taskId, -, hheld, -, rfl, htask⟩
  · exact h.carried t n task hold
  · exact ⟨hshaped, hthere⟩
  · obtain ⟨-, hexecute⟩ := h.held e name _ taskId hheld
    obtain ⟨hexecs, -, -, hvalid⟩ := hexecute func task.taskId rfl
    exact ⟨⟨hvalid, ⟨func, congrArg InnerTask.exec htask⟩⟩, Option.isSome_iff_ne_none.mp hexecs⟩

theorem Sound.held_work (h : w.Sound) (hwork : Work w w' l) (e : Nat) (n : QueueName)
    (job : Option (Job α)) (id : TaskId) (he : w'.held e = some (n, job, id)) :
    w'.queue n ≠ none ∧ ∀ func id', job = some (.execute func id') →
      w'.execs.isSome = true ∧ n = .delayTasks ∧ id' = id ∧ id' ≠ invalidTaskId := by
  rw [isSome_execs hwork.isSome, hwork.queue_ne_none]
  rcases hwork.held_of he with ⟨job', hold, hjob⟩ |
    ⟨-, -, ⟨q, entry, rest, -, hget, htasks, hjob, hid⟩ | ⟨hthere, hjob, -⟩⟩
  · obtain ⟨hthere, hexecute⟩ := h.held e n job' id hold
    refine ⟨hthere, ?_⟩
    intro func id' heq
    rcases hjob with rfl | rfl | rfl
    · exact hexecute func id' heq
    · cases heq
    · cases heq
  · refine ⟨hget ▸ nofun, ?_⟩
    intro func id' heq
    obtain ⟨-, hshaped⟩ := (h.queues n q hget).entries entry (htasks ▸ List.mem_cons_self)
    obtain ⟨hexecs, hname, hid'⟩ := hshaped.of_execute (Option.some.inj (hjob.symm.trans heq))
    exact ⟨hexecs, hname, hid'.trans hid.symm, hid' ▸ hshaped.valid⟩
  · refine ⟨hthere, ?_⟩
    intro func id' heq
    cases hjob.symm.trans heq

/-- A task stays in `running_` until it is finished. -/
theorem Work.running_next (h : Work w w' l) {n : QueueName} {q : TaskQueue α} {id : TaskId}
    (hq : w.queue n = some q) (hid : id ∈ q.running) :
    (∃ p, w'.queue n = some p ∧ id ∈ p.running) ∨ ∃ e, l = .finished e n id := by
  -- The queue has changed, and has kept its running tasks.
  have hnext : ∀ {name : QueueName} {q₁ q' : TaskQueue α}, w.queue name = some q₁ →
      w'.queue = Function.update w.queue name (some q') →
      (n = name → id ∈ q₁.running → id ∈ q'.running) →
        ∃ p, w'.queue n = some p ∧ id ∈ p.running := by
    intro name q₁ q' hget hqueue hkeep
    rw [hqueue]
    by_cases hn : n = name
    · subst hn
      cases hget.symm.trans hq
      exact ⟨q', Function.update_self .., hkeep rfl hid⟩
    · exact ⟨q, by rw [Function.update_of_ne hn, hq], hid⟩
  cases h with
  | quiet hl hqueue hcarried hheld => exact .inl ⟨q, hqueue ▸ hq, hid⟩
  | gave t name task hid' hshaped hthere hcaller hnone hqueue hcarried hheld =>
      exact .inl ⟨q, hqueue ▸ hq, hid⟩
  | queued t name task time q₁ hcarry hget hqueue hcarried hheld =>
      refine .inl (hnext hget hqueue (fun _ hin => ?_))
      rw [PriorityQueue.push_running]
      exact hin
  | started e name q₁ q' entry rest hnone hahead hget htasks hpop hqueue hcarried hheld =>
      exact .inl (hnext hget hqueue
        (fun _ hin => (PriorityQueue.mem_running_pop hpop htasks).mpr (.inr hin)))
  | startedNothing e name hnone hahead hthere hqueue hcarried hheld =>
      exact .inl ⟨q, hqueue ▸ hq, hid⟩
  | handed e name func id' taskId hholds hnone hqueue hcarried hheld =>
      exact .inl ⟨q, hqueue ▸ hq, hid⟩
  | ran e name job id' hholds hjob hnone hqueue hcarried hheld =>
      exact .inl ⟨q, hqueue ▸ hq, hid⟩
  | finished e name id' q₁ hholds hget hqueue hcarried hheld =>
      by_cases hsame : n = name ∧ id = id'
      · obtain ⟨rfl, rfl⟩ := hsame
        exact .inr ⟨e, rfl⟩
      · refine .inl (hnext hget hqueue ?_)
        intro hn hin
        exact PriorityQueue.mem_running_finish.mpr ⟨fun heq => hsame ⟨hn, heq⟩, hin⟩
  | erased name id' wait res q₁ q' hget hremove hqueue hcarried hheld =>
      refine .inl (hnext hget hqueue (fun _ hin => ?_))
      rw [PriorityQueue.remove_running hremove]
      exact hin
  | reset id' interval q₁ task hget htask hqueue hcarried hheld =>
      exact .inl (hnext hget hqueue
        (fun _ hin => (PriorityQueue.mem_running_update).mpr hin))

/-- A task that is started is in `running_`. -/
theorem Work.started_running {e number : Nat} {n : QueueName} {task : InnerTask α}
    (h : Work w w' (.started e n number task)) (hsound : w.Sound) {p : TaskQueue α}
    (hp : w'.queue n = some p) : task.taskId ∈ p.running := by
  cases h with
  | quiet hl => cases hl
  | started _ _ q q' entry rest hnone hahead hget htasks hpop hqueue hcarried hheld =>
      rw [hqueue, Function.update_self] at hp
      obtain rfl := Option.some.inj hp
      obtain ⟨hentry, -⟩ := (hsound.queues n q hget).entries entry (htasks ▸ List.mem_cons_self)
      exact (PriorityQueue.mem_running_pop hpop htasks).mpr (.inl hentry.symm)

theorem Sound.runs_work (h : w.Sound) (hwork : Work w w' l) (n : QueueName) (p : TaskQueue α)
    (id : TaskId) (hp : w'.queue n = some p) (hid : id ∈ p.running) :
    ∃ e job, w'.held e = some (n, job, id) := by
  rcases hwork.running_of h hp hid with ⟨q, hq, hold, hnot⟩ | ⟨e, number, task, -, hheld⟩
  · obtain ⟨e, job, he⟩ := h.runs n q id hq hold
    rcases hwork.held_next he with hkept | ⟨-, hkept⟩ | ⟨j, -, -, -, -, hkept⟩ | ⟨-, hfinished, -⟩
    · exact ⟨e, _, hkept⟩
    · exact ⟨e, _, hkept⟩
    · exact ⟨e, _, hkept⟩
    · exact absurd hfinished (hnot e)
  · exact ⟨e, _, hheld⟩

theorem Sound.busy_work (h : w.Sound) (hwork : Work w w' l) (e : Nat)
    (o : QueueName × InnerTask α) (ho : w'.carried (.executor e) = some o) :
    ∃ name job id, w'.held e = some (name, some job, id) ∧
      ∀ func id', job ≠ .execute func id' := by
  rcases hwork.carried_of ho with hold | ⟨-, -, -, -, -, hcaller⟩ |
    ⟨d, name, func, taskId, heq, -, hnext, -⟩
  · -- The task was to be queued before, so the executor's function has not returned.
    obtain ⟨name, job, id, hheld, hjob⟩ := h.busy e o hold
    rcases hwork.held_next hheld with hkept | ⟨⟨func, id', heq⟩, -⟩ | ⟨j, -, -, -, hnone, -⟩ |
      ⟨hnone, -⟩
    · exact ⟨name, job, id, hkept, hjob⟩
    · exact absurd (Option.some.inj heq) (hjob func id')
    · cases hold.symm.trans hnone
    · cases hnone
  · obtain ⟨name, func, id, hheld⟩ := hcaller e rfl
    exact ⟨name, _, id, hheld, nofun⟩
  · cases heq
    exact ⟨name, _, taskId, hnext, nofun⟩

theorem Sound.work (h : w.Sound) (hwork : Work w w' l) : w'.Sound :=
  ⟨h.queues_work hwork, h.carried_work hwork, h.held_work hwork, h.runs_work hwork,
    h.busy_work hwork⟩

theorem queue_initial {max min : UInt64} {name : QueueName} {q : TaskQueue α}
    (hq : (initial max min : ExecutorPool α).queue name = some q) : q = .empty := by
  cases name with
  | delayTasks => exact (Option.some.inj hq).symm
  | execs =>
      change (if 1 < max then some .empty else none) = some q at hq
      split at hq
      · exact (Option.some.inj hq).symm
      · cases hq

theorem sound_initial (max min : UInt64) : (initial max min : ExecutorPool α).Sound where
  queues name q hq := queue_initial hq ▸ .empty
  carried _ _ _ ht := nomatch ht
  held _ _ _ _ he := nomatch he
  runs name q id hq hid := by
    rw [queue_initial hq] at hid
    exact absurd hid Finmap.notMem_empty
  busy _ _ ho := nomatch ho

/-! ### A pool for one thread -/

theorem held_ahead {x : Executor α} {name : QueueName} {job : Option (Job α)} {id : TaskId}
    (h : x.held = some (name, job, id)) : x.Ahead name := by
  rw [Executor.held] at h
  split at h
  · next job' id' hpc =>
    obtain ⟨name', hwaits, heq⟩ := Option.map_eq_some_iff.mp h
    cases heq
    exact ⟨hwaits, by rw [hpc]; rfl⟩
  · next id' hpc =>
    obtain ⟨name', hwaits, heq⟩ := Option.map_eq_some_iff.mp h
    cases heq
    exact ⟨hwaits, by rw [hpc]; rfl⟩
  · cases h

theorem pc_of_held {x : Executor α} {name : QueueName} {job : Job α} {id : TaskId}
    (h : x.held = some (name, some job, id)) : x.pc = .running job id := by
  rw [Executor.held] at h
  split at h
  · next job' id' hpc =>
    obtain ⟨name', -, heq⟩ := Option.map_eq_some_iff.mp h
    cases heq
    exact hpc
  · next id' hpc =>
    obtain ⟨name', -, heq⟩ := Option.map_eq_some_iff.mp h
    cases heq
  · cases h

/-- What holds of a pool for one thread at all times: it has no `execs_`. -/
structure Solo (w : ExecutorPool α) : Prop where
  steady : w.Steady
  sound : w.Sound
  alone : w.execs = none

theorem solo_initial (min : UInt64) : (initial 1 min : ExecutorPool α).Solo :=
  ⟨steady_initial 1 min, sound_initial 1 min, rfl⟩

namespace Solo

variable {name : QueueName} {e e' : Nat}

/-- All tasks are in `delayTasks_`. -/
theorem queue_eq (h : w.Solo) {q : TaskQueue α} (hget : w.queue name = some q) :
    name = .delayTasks ∧ q = w.delayTasks := by
  cases name with
  | delayTasks => exact ⟨rfl, (Option.some.inj hget).symm⟩
  | execs => cases h.alone.symm.trans hget

theorem name_eq (h : w.Solo) (hthere : w.queue name ≠ none) : name = .delayTasks := by
  obtain ⟨q, hget⟩ := Option.ne_none_iff_exists'.mp hthere
  exact (h.queue_eq hget).1

theorem delayTasks_eq (hqueue : w'.queue = w.queue) : w'.delayTasks = w.delayTasks :=
  Option.some.inj (congrFun hqueue .delayTasks)

/-- The queue that a step changes is `delayTasks_`. -/
theorem delayTasks_update (h : w.Solo) {q q' : TaskQueue α} (hget : w.queue name = some q)
    (hqueue : w'.queue = Function.update w.queue name (some q')) :
    name = .delayTasks ∧ q = w.delayTasks ∧ w'.delayTasks = q' := by
  obtain ⟨rfl, rfl⟩ := h.queue_eq hget
  refine ⟨rfl, rfl, ?_⟩
  have hnew := congrFun hqueue .delayTasks
  rw [Function.update_self] at hnew
  exact Option.some.inj hnew

theorem queueSound (h : w.Solo) : QueueSound false .delayTasks w.delayTasks := by
  have hsound := h.sound.queues .delayTasks w.delayTasks rfl
  rw [h.alone] at hsound
  exact hsound

/-- A task is popped by the executor that `scheduler_` names, and it holds no other then. -/
theorem held_none (h : w.Solo) (hahead : (w.executors e).Ahead .delayTasks)
    (hnone : w.held e = none) (d : Nat) : w.held d = none := by
  cases hd : w.held d with
  | none => rfl
  | some o =>
      obtain ⟨name, job, id⟩ := o
      obtain ⟨hthere, -⟩ := h.sound.held d name job id hd
      obtain rfl := h.name_eq hthere
      have hscheduler := h.steady.timed.named d (held_ahead hd)
      rw [h.steady.timed.named e hahead] at hscheduler
      cases hscheduler
      cases hnone.symm.trans hd

/-- **Of the executors only one has popped a task and not finished it.** -/
theorem held_unique (h : w.Solo) {o o' : QueueName × Option (Job α) × TaskId}
    (he : w.held e = some o) (he' : w.held e' = some o') : e = e' := by
  obtain ⟨name, job, id⟩ := o
  obtain ⟨name', job', id'⟩ := o'
  obtain rfl := h.name_eq (h.sound.held e name job id he).1
  obtain rfl := h.name_eq (h.sound.held e' name' job' id' he').1
  have hscheduler := h.steady.timed.named e (held_ahead he)
  rw [h.steady.timed.named e' (held_ahead he')] at hscheduler
  exact (Option.some.inj hscheduler).symm

/-- Nothing is in `running_` when a task is popped. -/
theorem running_empty (h : w.Solo) (hnone : ∀ d, w.held d = none) (id : TaskId) :
    id ∉ w.delayTasks.running := by
  intro hin
  obtain ⟨e, job, he⟩ := h.sound.runs .delayTasks w.delayTasks id rfl hin
  cases (hnone e).symm.trans he

/-- The function that an executor runs is a client's, or none. -/
theorem not_execute (h : w.Solo) {job : Option (Job α)} {id : TaskId}
    (he : w.held e = some (name, job, id)) (func : α) (id' : TaskId) :
    job ≠ some (.execute func id') := by
  intro heq
  obtain ⟨hexecs, -⟩ := (h.sound.held e name job id he).2 func id' heq
  rw [h.alone] at hexecs
  cases hexecs

end Solo

end ExecutorPool

namespace TaskPool

open ExecutorPool

variable {s s' : TaskPool α} {l : ExecutorPool.Label α} {ls : List (ExecutorPool.Label α)}
variable {max min : UInt64}

theorem Step.sound (hstep : Step s l s') (h : s.pool.Sound) : s'.pool.Sound := h.work hstep.work

theorem Step.solo (hstep : Step s l s') (h : s.pool.Solo) : s'.pool.Solo where
  steady := hstep.steady h.steady
  sound := hstep.sound h.sound
  alone := by
    have hexecs := isSome_execs hstep.work.isSome
    rw [h.alone] at hexecs
    exact Option.not_isSome_iff_eq_none.mp (hexecs ▸ Bool.false_ne_true)

end TaskPool

end NativePreferences
