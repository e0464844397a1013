import NativePreferences.ExecutorPool.Tasks

/-!
# NativePreferences.ExecutorPool.Repetition

**How often a periodic task runs.** In a pool for one thread a task is in one place at a time: a
call is still to queue it, it is in the queue, or in `running_` (`Place`). A step moves it on, from
the call to the queue, from there to `running_`, and by `Finish` back to the queue, with one less
in `times`, or takes it off (`Moved`).

So `times` and the number of returns add up to what the task was scheduled with, from which the
counts follow by induction over the run (`Counted`). `NextTimer` counts down before it compares.
A task that is scheduled with `times = 0` is started all the same, and `times` wraps.
-/

namespace NativePreferences

open Lib

variable {α : Type}

namespace ExecutorPool

/-! ### Places -/

/-- Where a task is. -/
inductive Place (α : Type)
  | carried (t : Thread) (task : InnerTask α)
  | queued (entry : PQEntry (InnerTask α) Int TaskId)
  | running (id : TaskId) (task : InnerTask α)

def Place.task : Place α → InnerTask α
  | .carried _ task => task
  | .queued entry => entry.matrix.task
  | .running _ task => task

variable {w w' : ExecutorPool α} {l : Label α}

/-- There is a task in this place. -/
def At (w : ExecutorPool α) : Place α → Prop
  | .carried t task => w.carried t = some (.delayTasks, task)
  | .queued entry => entry ∈ w.delayTasks.tasks
  | .running id task => ∃ matrix, w.delayTasks.running.lookup id = some matrix ∧
      matrix.task = task

/-- How a step moves a task from one place to another. -/
inductive Goes : Label α → Place α → Place α → Prop
  | queue (t : Thread) (entry : PQEntry (InnerTask α) Int TaskId) :
      Goes (.queued .delayTasks entry.iterator entry.matrix.task) (.carried t entry.matrix.task)
        (.queued entry)
  | start (e : Nat) (entry : PQEntry (InnerTask α) Int TaskId) :
      Goes (.started e .delayTasks entry.iterator entry.matrix.task) (.queued entry)
        (.running entry.matrix.task.taskId entry.matrix.task)
  /-- `Finish` queues the task again. -/
  | again (e : Nat) (id : TaskId) (task : InnerTask α) (now : Int)
      (entry : PQEntry (InnerTask α) Int TaskId) (hagain : (task.nextTimer now).1.1 = true)
      (htask : entry.matrix.task = (task.nextTimer now).2) :
      Goes (.finished e .delayTasks id) (.running id task) (.queued entry)
  | resetQueued (entry entry' : PQEntry (InnerTask α) Int TaskId)
      (hexec : entry'.matrix.task.exec = entry.matrix.task.exec) :
      Goes (.reset (some entry.matrix.task)) (.queued entry) (.queued entry')
  | resetRunning (id : TaskId) (task task' : InnerTask α) (hexec : task'.exec = task.exec) :
      Goes (.reset (some task)) (.running id task) (.running id task')

/-- How a step takes a task off. -/
inductive Leaves : Label α → Place α → Prop
  | erase (name : QueueName) (entry : PQEntry (InnerTask α) Int TaskId) :
      Leaves (.erased name (some entry)) (.queued entry)
  | finish (e : Nat) (id : TaskId) (task : InnerTask α) (now : Int)
      (hlast : (task.nextTimer now).1.1 = false) :
      Leaves (.finished e .delayTasks id) (.running id task)

/-- What a step does to the places. -/
inductive Moved (w w' : ExecutorPool α) : Label α → Prop
  | still {l : Label α} (hat : ∀ p, w'.At p ↔ w.At p) (hgave : ∀ task, l ≠ .gave task)
      (hstarted : ∀ e name number task, l ≠ .started e name number task)
      (hfinished : ∀ e name id task, l = .finished e name id → ¬ w.At (.running id task)) :
      Moved w w' l
  | given (t : Thread) (task : InnerTask α)
      (hat : ∀ p, w'.At p ↔ w.At p ∨ p = .carried t task) : Moved w w' (.gave task)
  | goes {l : Label α} (old new : Place α) (hgoes : Goes l old new) (hold : w.At old)
      (hat : ∀ p, w'.At p ↔ w.At p ∧ p ≠ old ∨ p = new) : Moved w w' l
  | leaves {l : Label α} (old : Place α) (hleaves : Leaves l old) (hold : w.At old)
      (hat : ∀ p, w'.At p ↔ w.At p ∧ p ≠ old) : Moved w w' l

theorem Goes.exec {old new : Place α} (h : Goes l old new) :
    new.task.exec = old.task.exec := by
  cases h with
  | queue t entry => rfl
  | start e entry => rfl
  | again e id task now entry hagain htask =>
      change entry.matrix.task.exec = task.exec
      rw [htask, (InnerTask.keeps_nextTimer now task).2]
  | resetQueued entry entry' hexec => exact hexec
  | resetRunning id task task' hexec => exact hexec

theorem Goes.started_inv {e number : Nat} {name : QueueName} {task : InnerTask α}
    {old new : Place α} (h : Goes (.started e name number task) old new) :
    old.task = task ∧ new = .running task.taskId task := by
  cases h with
  | start e entry => exact ⟨rfl, rfl⟩

theorem Goes.finished_inv {e : Nat} {name : QueueName} {id : TaskId} {old new : Place α}
    (h : Goes (.finished e name id) old new) : ∃ task, old = .running id task := by
  cases h with
  | again e id task now entry hagain htask => exact ⟨task, rfl⟩

theorem Leaves.finished_inv {e : Nat} {name : QueueName} {id : TaskId} {old : Place α}
    (h : Leaves (.finished e name id) old) : ∃ task, old = .running id task := by
  cases h with
  | finish e id task now hlast => exact ⟨task, rfl⟩

/-! ### Each step is one of these -/

theorem at_of_same (hcarried : w'.carried = w.carried) (hqueue : w'.queue = w.queue)
    (p : Place α) : w'.At p ↔ w.At p := by
  have hdelay := Solo.delayTasks_eq hqueue
  cases p with
  | carried t task => rw [At, At, hcarried]
  | queued entry => rw [At, At, hdelay]
  | running id task => rw [At, At, hdelay]

theorem Work.moved_gave (h : w.Solo) {t : Thread} {name : QueueName} {task : InnerTask α}
    (hthere : w.queue name ≠ none) (hnone : w.carried t = none) (hqueue : w'.queue = w.queue)
    (hcarried : w'.carried = Function.update w.carried t (some (name, task))) :
    Moved w w' (.gave task) := by
  obtain rfl := h.name_eq hthere
  have hdelay := Solo.delayTasks_eq hqueue
  refine .given t task ?_
  intro p
  cases p with
  | carried u task' =>
      rw [At, At, hcarried]
      by_cases hu : u = t
      · subst hu
        rw [Function.update_self, hnone]
        simp [eq_comm]
      · rw [Function.update_of_ne hu]
        simp [hu]
  | queued entry =>
      rw [At, At, hdelay]
      simp
  | running id task' =>
      rw [At, At, hdelay]
      simp

theorem Work.moved_queued {t : Thread} {task : InnerTask α} {time : Int}
    (hcarry : w.carried t = some (.delayTasks, task))
    (hdelay : w'.delayTasks = w.delayTasks.emplace task.taskId time ⟨task, task.taskId⟩)
    (hcarried : w'.carried = Function.update w.carried t none) :
    Moved w w' (.queued .delayTasks w.delayTasks.emplaced task) := by
  refine .goes (.carried t task) _
    (.queue t ⟨time, ⟨task, task.taskId⟩, w.delayTasks.emplaced⟩) hcarry ?_
  intro p
  cases p with
  | carried u task' =>
      rw [At, At, hcarried]
      by_cases hu : u = t
      · subst hu
        rw [Function.update_self, hcarry]
        simp [eq_comm]
      · rw [Function.update_of_ne hu]
        simp [hu]
  | queued entry =>
      rw [At, At, hdelay]
      change entry ∈ PriorityQueue.insertTask _ _ ↔ _
      rw [PriorityQueue.mem_insertTask]
      simp [or_comm]
  | running id task' =>
      rw [At, At, hdelay]
      simp [PriorityQueue.emplace]

/-- What is behind the first entry is all but this entry. -/
theorem mem_rest_iff {entry entry' : PQEntry (InnerTask α) Int TaskId}
    {rest : List (PQEntry (InnerTask α) Int TaskId)} (hnodup : (entry :: rest).Nodup) :
    entry' ∈ rest ↔ entry' ∈ entry :: rest ∧ entry' ≠ entry := by
  constructor
  · intro hin
    refine ⟨List.mem_cons_of_mem _ hin, ?_⟩
    rintro rfl
    exact (List.nodup_cons.mp hnodup).1 hin
  · intro ⟨hin, hne⟩
    exact (List.mem_cons.mp hin).resolve_left hne

/-- What is popped is all that is in `running_` then. -/
theorem Work.moved_started (h : w.Solo) {e : Nat} {entry : PQEntry (InnerTask α) Int TaskId}
    {rest : List (PQEntry (InnerTask α) Int TaskId)} (hnone : ∀ d, w.held d = none)
    (htasks : w.delayTasks.tasks = entry :: rest)
    (hpop : w.delayTasks.pop InnerTask.invalid w.now = some (entry.matrix.task, w'.delayTasks))
    (hcarried : w'.carried = w.carried) :
    Moved w w' (.started e .delayTasks entry.iterator entry.matrix.task) := by
  have hmem : entry ∈ w.delayTasks.tasks := htasks ▸ List.mem_cons_self
  obtain ⟨hid, -⟩ := h.queueSound.entries entry hmem
  have hnodup := h.queueSound.wellFormed.nodup.of_map
  rw [htasks] at hnodup
  have hnot := h.running_empty hnone
  have hq := PriorityQueue.pop_inv hpop htasks
  rw [if_neg (hnot _)] at hq
  refine .goes _ _ (.start e entry) hmem ?_
  intro p
  cases p with
  | carried u task =>
      rw [At, At, hcarried]
      simp
  | queued entry' =>
      rw [At, At, hq, htasks]
      change entry' ∈ rest ↔ _
      rw [mem_rest_iff hnodup]
      simp
  | running id task =>
      rw [At, At, hq]
      dsimp only
      by_cases heq : id = entry.matrix.id
      · subst heq
        rw [Finmap.lookup_insert, Finmap.lookup_eq_none.mpr (hnot _)]
        simp [hid, eq_comm]
      · rw [Finmap.lookup_insert_of_ne _ heq, Finmap.lookup_eq_none.mpr (hnot _)]
        rw [hid] at heq
        simp [heq]

theorem at_running_erase {q : TaskQueue α} {id id' : TaskId} {task task' : InnerTask α}
    {matrix : PQMatrix (InnerTask α) TaskId} (hm : q.running.lookup id = some matrix)
    (htask : matrix.task = task) :
    (∃ m, (q.running.erase id).lookup id' = some m ∧ m.task = task') ↔
      (∃ m, q.running.lookup id' = some m ∧ m.task = task') ∧
        Place.running id' task' ≠ .running id task := by
  by_cases heq : id' = id
  · subst heq
    rw [Finmap.lookup_erase, hm]
    simp [htask, eq_comm]
  · rw [Finmap.lookup_erase_ne heq]
    simp [heq]

theorem Work.moved_finished {e : Nat} {id : TaskId}
    (hdelay : w'.delayTasks = w.delayTasks.finish (InnerTask.nextTimer w.now) id)
    (hcarried : w'.carried = w.carried) : Moved w w' (.finished e .delayTasks id) := by
  rcases PriorityQueue.finish_inv (InnerTask.nextTimer w.now) w.delayTasks id with
    ⟨hnot, hsame⟩ | ⟨matrix, hm, hfinish⟩
  · refine .still ?_ nofun nofun ?_
    case refine_2 =>
      rintro _ _ _ task heq ⟨matrix, hm, -⟩
      cases heq
      exact hnot (Finmap.mem_of_lookup_eq_some hm)
    intro p
    rw [hsame] at hdelay
    cases p with
    | carried u task => rw [At, At, hcarried]
    | queued entry => rw [At, At, hdelay]
    | running id task => rw [At, At, hdelay]
  · have hold : w.At (.running id matrix.task) := ⟨matrix, hm, rfl⟩
    rw [hfinish] at hdelay
    cases hagain : (matrix.task.nextTimer w.now).1.1 with
    | false =>
        rw [hagain, if_neg Bool.false_ne_true] at hdelay
        refine .leaves _ (.finish e id matrix.task w.now hagain) hold ?_
        intro p
        cases p with
        | carried u task =>
            rw [At, At, hcarried]
            simp
        | queued entry =>
            rw [At, At, hdelay]
            simp
        | running id' task' =>
            rw [At, At, hdelay]
            exact at_running_erase hm rfl
    | true =>
        rw [hagain, if_pos rfl] at hdelay
        refine .goes _ _ (.again e id matrix.task w.now ⟨(matrix.task.nextTimer w.now).1.2,
          { matrix with task := (matrix.task.nextTimer w.now).2 }, w.delayTasks.emplaced⟩ hagain
            rfl) hold ?_
        intro p
        cases p with
        | carried u task =>
            rw [At, At, hcarried]
            simp
        | queued entry =>
            rw [At, At, hdelay]
            change entry ∈ PriorityQueue.insertTask _ _ ↔ _
            rw [PriorityQueue.mem_insertTask, or_comm]
            simp
        | running id' task' =>
            rw [At, At, hdelay]
            dsimp only
            rw [at_running_erase hm rfl]
            simp

theorem Work.moved_erased (h : w.Solo) {id : TaskId} {wait res : Bool}
    (hremove : w.delayTasks.remove id wait = some (res, w'.delayTasks))
    (hcarried : w'.carried = w.carried) :
    Moved w w' (.erased .delayTasks (w.delayTasks.entryAt id)) := by
  have hrunning := PriorityQueue.remove_running hremove
  have hcases := h.queueSound.wellFormed.remove_cases hremove
  rcases hcases with ⟨hentry, hsame⟩ | ⟨entry, hentry, hperm, -, -⟩
  · rw [hentry]
    refine .still ?_ nofun nofun nofun
    intro p
    cases p with
    | carried u task => rw [At, At, hcarried]
    | queued entry => rw [At, At, hsame]
    | running id task => rw [At, At, hsame]
  · rw [hentry]
    have hnodup := hperm.nodup_iff.mp h.queueSound.wellFormed.nodup.of_map
    refine .leaves _ (.erase .delayTasks entry) (hperm.mem_iff.mpr List.mem_cons_self) ?_
    intro p
    cases p with
    | carried u task =>
        rw [At, At, hcarried]
        simp
    | queued entry' =>
        rw [At, At, hperm.mem_iff, mem_rest_iff hnodup]
        simp
    | running id' task =>
        rw [At, At, hrunning]
        simp

theorem Work.moved_reset (h : w.Solo) {id : TaskId} {interval : Int}
    (hdelay : w'.delayTasks = (w.delayTasks.update (InnerTask.reset w.now interval) id).2)
    (hcarried : w'.carried = w.carried) :
    Moved w w' (.reset (((w.delayTasks.entryAt id).map PQEntry.matrix <|>
      w.delayTasks.running.lookup id).map PQMatrix.task)) := by
  have hkeeps : InnerTask.Keeps (InnerTask.reset w.now interval : InnerTask α → _) :=
    InnerTask.keeps_reset w.now interval
  rcases PriorityQueue.update_cases (InnerTask.reset w.now interval) w.delayTasks id with
    ⟨entry, hentry, -, hq⟩ | ⟨entry, -, hkept, -⟩ | ⟨hentry, ⟨matrix, hm, hq⟩ | ⟨hnot, hq⟩⟩
  · obtain ⟨-, hmem⟩ := PriorityQueue.entryAt_some hentry
    rw [hentry]
    refine .goes (.queued entry) (.queued ⟨(InnerTask.reset w.now interval entry.matrix.task).1.2,
      { entry.matrix with task := (InnerTask.reset w.now interval entry.matrix.task).2 },
      w.delayTasks.emplaced⟩) (.resetQueued entry _ (hkeeps _).2) hmem ?_
    rw [hq] at hdelay
    intro p
    cases p with
    | carried u task =>
        rw [At, At, hcarried]
        simp
    | queued entry' =>
        rw [At, At, hdelay]
        change entry' ∈ PriorityQueue.insertTask _ _ ↔ _
        rw [PriorityQueue.mem_insertTask, PriorityQueue.mem_eraseTask, or_comm]
        have hnumber : entry' ∈ w.delayTasks.tasks →
            (entry'.iterator ≠ entry.iterator ↔ entry' ≠ entry) := by
          intro hin
          refine not_congr ⟨h.queueSound.wellFormed.eq_of_iterator hin hmem, ?_⟩
          rintro rfl
          rfl
        simp only [ne_eq, Place.queued.injEq]
        rw [and_congr_right hnumber]
    | running id' task =>
        rw [At, At, hdelay]
        simp
  · cases (show true = false from hkept)
  · rw [hentry]
    change Moved w w' (.reset ((w.delayTasks.running.lookup id).map PQMatrix.task))
    rw [hm]
    refine .goes (.running id matrix.task)
      (.running id (InnerTask.reset w.now interval matrix.task).2)
      (.resetRunning id matrix.task _ (hkeeps _).2) ⟨matrix, hm, rfl⟩ ?_
    rw [hq] at hdelay
    intro p
    cases p with
    | carried u task =>
        rw [At, At, hcarried]
        simp
    | queued entry' =>
        rw [At, At, hdelay]
        simp
    | running id' task =>
        rw [At, At, hdelay]
        dsimp only
        by_cases heq : id' = id
        · subst heq
          rw [Finmap.lookup_insert, hm]
          simp [eq_comm]
        · rw [Finmap.lookup_insert_of_ne _ heq]
          simp [heq]
  · rw [hentry, Finmap.lookup_eq_none.mpr hnot]
    refine .still ?_ nofun nofun nofun
    rw [hq] at hdelay
    intro p
    cases p with
    | carried u task => rw [At, At, hcarried]
    | queued entry => rw [At, At, hdelay]
    | running id task => rw [At, At, hdelay]

/-- **What a step does to the places**, in a pool for one thread. -/
theorem Work.moved (hwork : Work w w' l) (h : w.Solo) : Moved w w' l := by
  cases hwork with
  | quiet hl hqueue hcarried hheld =>
      refine .still (at_of_same hcarried hqueue) ?_ ?_ ?_
      · rintro task rfl
        cases hl
      · rintro e name number task rfl
        cases hl
      · rintro e name id task rfl
        cases hl
  | gave t name task hid hshaped hthere hcaller hnone hqueue hcarried hheld =>
      exact moved_gave h hthere hnone hqueue hcarried
  | queued t name task time q hcarry hget hqueue hcarried hheld =>
      obtain ⟨hshaped, -⟩ := h.sound.carried t name task hcarry
      obtain ⟨rfl, rfl, hdelay⟩ := h.delayTasks_update hget hqueue
      rw [hshaped.push] at hdelay
      exact moved_queued hcarry hdelay hcarried
  | started e name q q' entry rest hnone hahead hget htasks hpop hqueue hcarried hheld =>
      obtain ⟨rfl, rfl, rfl⟩ := h.delayTasks_update hget hqueue
      exact moved_started h (h.held_none hahead hnone) htasks hpop hcarried
  | startedNothing e name hnone hahead hthere hqueue hcarried hheld =>
      exact .still (at_of_same hcarried hqueue) nofun nofun nofun
  | handed e name func id taskId hholds hnone hqueue hcarried hheld =>
      exact absurd rfl (h.not_execute hholds func id)
  | ran e name job id hholds hjob hnone hqueue hcarried hheld =>
      exact .still (at_of_same hcarried hqueue) nofun nofun nofun
  | finished e name id q hholds hget hqueue hcarried hheld =>
      obtain ⟨rfl, rfl, hdelay⟩ := h.delayTasks_update hget hqueue
      exact moved_finished hdelay hcarried
  | erased name id wait res q q' hget hremove hqueue hcarried hheld =>
      obtain ⟨rfl, rfl, rfl⟩ := h.delayTasks_update hget hqueue
      exact moved_erased h hremove hcarried
  | reset id interval q task hget htask hqueue hcarried hheld =>
      obtain ⟨-, rfl, hdelay⟩ := h.delayTasks_update hget hqueue
      rw [htask]
      exact moved_reset h hdelay hcarried

theorem At.running_unique {id : TaskId} {task task' : InnerTask α} (h : w.At (.running id task))
    (h' : w.At (.running id task')) : task = task' := by
  obtain ⟨matrix, hm, rfl⟩ := h
  obtain ⟨matrix', hm', rfl⟩ := h'
  cases hm.symm.trans hm'
  rfl

/-- The function that an executor runs is in `running_`. -/
def HeldRuns (w : ExecutorPool α) : Prop :=
  ∀ e name func id, w.held e = some (name, some (.user func), id) →
    ∃ task, w.At (.running id task) ∧ task.exec = .user func

theorem Moved.running (h : Moved w w' l) {id : TaskId} {task : InnerTask α}
    (hat : w.At (.running id task)) (hnot : ∀ e, l ≠ .finished e .delayTasks id) :
    ∃ task', w'.At (.running id task') ∧ task'.exec = task.exec := by
  cases h with
  | still hsame => exact ⟨task, (hsame _).mpr hat, rfl⟩
  | given t task' hnext => exact ⟨task, (hnext _).mpr (.inl hat), rfl⟩
  | goes old new hgoes hold hnext =>
      by_cases heq : Place.running id task = old
      · subst heq
        cases hgoes with
        | again e _ _ now entry hagain htask => exact absurd rfl (hnot e)
        | resetRunning _ _ task' hexec => exact ⟨task', (hnext _).mpr (.inr rfl), hexec⟩
      · exact ⟨task, (hnext _).mpr (.inl ⟨hat, heq⟩), rfl⟩
  | leaves old hleaves hold hnext =>
      refine ⟨task, (hnext _).mpr ⟨hat, ?_⟩, rfl⟩
      rintro rfl
      cases hleaves with
      | finish e _ _ now hlast => exact hnot e rfl

theorem HeldRuns.work (hruns : HeldRuns w) (hwork : Work w w' l) (h : w.Solo) : HeldRuns w' := by
  intro e name func id he
  have hmoved := hwork.moved h
  rcases hwork.held_of he with ⟨job', hold, hjob⟩ |
    ⟨hnone, hahead, ⟨q, entry, rest, rfl, hget, htasks, hjob, hid⟩ | ⟨-, hjob, -⟩⟩
  · obtain rfl : some (.user func) = job' := hjob.resolve_right (by simp)
    obtain ⟨task, hat, hexec⟩ := hruns e name func id hold
    have hnot : ∀ d, l ≠ .finished d .delayTasks id := by
      rintro d rfl
      obtain ⟨hheld, -⟩ := hwork.finished_inv
      obtain rfl := h.held_unique hold hheld
      cases hold.symm.trans hheld
    obtain ⟨task', hat', hexec'⟩ := hmoved.running hat hnot
    exact ⟨task', hat', hexec'.trans hexec⟩
  · obtain ⟨rfl, -⟩ := h.queue_eq hget
    refine ⟨entry.matrix.task, ?_, (Option.some.inj hjob).symm⟩
    cases hmoved with
    | still _ _ hstarted => exact absurd rfl (hstarted _ _ _ _)
    | goes old new hgoes hold hnext =>
        obtain ⟨-, rfl⟩ := hgoes.started_inv
        exact hid ▸ (hnext _).mpr (.inr rfl)
    | leaves old hleaves => cases hleaves
  · cases hjob

theorem countP_snoc {hist : List (Label α)} (f : Label α → Bool) :
    (hist ++ [l]).countP f = hist.countP f + if f l then 1 else 0 := by
  rw [List.countP_append, List.countP_singleton]

theorem countP_snoc_of_false {hist : List (Label α)} {f : Label α → Bool} (hf : f l = false) :
    (hist ++ [l]).countP f = hist.countP f := by
  rw [countP_snoc, hf]
  rfl

theorem countP_snoc_of_true {hist : List (Label α)} {f : Label α → Bool} (hf : f l = true) :
    (hist ++ [l]).countP f = hist.countP f + 1 := by
  rw [countP_snoc, if_pos hf]

end ExecutorPool

/-! ### The counts -/

theorem InnerTask.nextTimer_periodic {task : InnerTask α} (hinterval : task.interval ≠ 0)
    (htimes : 0 < task.times.toNat) (now : Int) :
    ((task.nextTimer now).1.1 = true ↔ 1 < task.times.toNat) ∧
      (task.nextTimer now).2.times.toNat + 1 = task.times.toNat ∧
      (task.nextTimer now).2.interval = task.interval := by
  have hone : (1 : UInt64) ≤ task.times := by
    rw [UInt64.le_iff_toNat_le]
    exact htimes
  have hdown : (task.times - 1).toNat = task.times.toNat - 1 := UInt64.toNat_sub_of_le _ _ hone
  have hpos : 0 < task.times - 1 ↔ 1 < task.times.toNat := by
    rw [UInt64.lt_iff_toNat_lt, hdown]
    change 0 < task.times.toNat - 1 ↔ _
    omega
  rw [InnerTask.nextTimer, if_pos hinterval]
  dsimp only
  split
  · next h => exact ⟨iff_of_true rfl (hpos.mp h), by dsimp only; omega, rfl⟩
  · next h =>
    refine ⟨iff_of_false Bool.false_ne_true (fun hlt => h (hpos.mpr hlt)), ?_, rfl⟩
    dsimp only
    omega

variable [DecidableEq α]

/-- The job is this function of a client. -/
def Job.isUser (a : α) : Job α → Bool
  | .user task => decide (task = a)
  | _ => false

theorem Job.isUser_iff {a : α} {job : Job α} : job.isUser a = true ↔ job = .user a := by
  cases job with
  | user task => simp [isUser]
  | _ => simp [isUser]

namespace ExecutorPool

namespace Label

/-- The function is given to the pool. -/
def gives (a : α) : Label α → Bool
  | .gave task => task.exec.isUser a
  | _ => false

/-- An executor starts the function. -/
def starts (a : α) : Label α → Bool
  | .started _ _ _ task => task.exec.isUser a
  | _ => false

/-- The function has returned. -/
def returns (a : α) : Label α → Bool
  | .ran _ _ job _ => job.isUser a
  | _ => false

/-- The function is scheduled with these, and is neither removed nor reset. -/
def Repeats (a : α) (interval : Int) (times : UInt64) : Label α → Prop
  | .gave task => task.exec = .user a → task.interval = interval ∧ task.times = times
  | .erased _ (some entry) => entry.matrix.task.exec ≠ .user a
  | .reset (some task) => task.exec ≠ .user a
  | _ => True

end Label

variable {w w' : ExecutorPool α} {l : Label α} {hist : List (Label α)} {a : α} {interval : Int}
variable {n : UInt64}

/-- How far the function has come, by the place where it is. -/
def Phase (a : α) (n : UInt64) (hist : List (Label α)) (w : ExecutorPool α) : Place α → Prop
  | .carried _ task => hist.countP (Label.starts a) = 0 ∧ hist.countP (Label.returns a) = 0 ∧
      task.times = n
  | .queued entry => hist.countP (Label.starts a) = hist.countP (Label.returns a) ∧
      hist.countP (Label.returns a) < n.toNat ∧
      entry.matrix.task.times.toNat + hist.countP (Label.returns a) = n.toNat
  | .running id task =>
      (∃ e, w.held e = some (.delayTasks, some (.user a), id) ∧
        hist.countP (Label.starts a) = hist.countP (Label.returns a) + 1 ∧
        hist.countP (Label.returns a) < n.toNat ∧
        task.times.toNat + hist.countP (Label.returns a) = n.toNat) ∨
      (∃ e, w.held e = some (.delayTasks, none, id) ∧
        hist.countP (Label.starts a) = hist.countP (Label.returns a) ∧
        hist.countP (Label.returns a) ≤ n.toNat ∧
        task.times.toNat + hist.countP (Label.returns a) = n.toNat + 1)

/-- Where the function is, and how often it has been started and has returned. -/
inductive Tracked (a : α) (interval : Int) (n : UInt64) (hist : List (Label α))
    (w : ExecutorPool α) : Prop
  | unknown (hnone : ∀ p, w.At p → p.task.exec ≠ .user a)
      (hgives : hist.countP (Label.gives a) = 0) (hstarts : hist.countP (Label.starts a) = 0)
      (hreturns : hist.countP (Label.returns a) = 0)
  | placed (p : Place α) (hat : w.At p) (hexec : p.task.exec = .user a)
      (hinterval : p.task.interval = interval)
      (hunique : ∀ p', w.At p' → p'.task.exec = .user a → p' = p)
      (hgives : hist.countP (Label.gives a) = 1) (hphase : Phase a n hist w p)
  | done (hnone : ∀ p, w.At p → p.task.exec ≠ .user a)
      (hgives : hist.countP (Label.gives a) = 1)
      (hstarts : hist.countP (Label.starts a) = n.toNat)
      (hreturns : hist.countP (Label.returns a) = n.toNat)

theorem ne_of_not_gives {task : InnerTask α} (h : Label.gives a (.gave task) = false) :
    task.exec ≠ .user a := by
  intro hexec
  have htrue : task.exec.isUser a = true := Job.isUser_iff.mpr hexec
  cases h.symm.trans htrue

/-- A function that is nowhere and is not given to the pool is nowhere afterwards. -/
theorem Moved.nowhere (h : Moved w w' l) (hnone : ∀ p, w.At p → p.task.exec ≠ .user a)
    (hgives : l.gives a = false) (p : Place α) (hp : w'.At p) : p.task.exec ≠ .user a := by
  cases h with
  | still hat => exact hnone p ((hat p).mp hp)
  | given t task hat =>
      rcases (hat p).mp hp with hold | rfl
      · exact hnone p hold
      · exact ne_of_not_gives hgives
  | goes old new hgoes hold hat =>
      rcases (hat p).mp hp with ⟨hp, -⟩ | rfl
      · exact hnone p hp
      · rw [hgoes.exec]
        exact hnone old hold
  | leaves old hleaves hold hat => exact hnone p ((hat p).mp hp).1

/-- What is started is in the queue. -/
theorem Work.queued_of_starts (hwork : Work w w' l) (h : w.Solo) (hl : l.starts a = true) :
    ∃ e entry, l = .started e .delayTasks entry.iterator entry.matrix.task ∧
      w.At (.queued entry) ∧ entry.matrix.task.exec = .user a := by
  cases l with
  | started e name number task =>
      obtain ⟨-, -, -, q, entry, rest, hget, htasks, rfl, rfl⟩ := hwork.started_inv
      obtain ⟨rfl, rfl⟩ := h.queue_eq hget
      refine ⟨e, entry, rfl, ?_, Job.isUser_iff.mp hl⟩
      exact show entry ∈ w.delayTasks.tasks from htasks ▸ List.mem_cons_self
  | _ => cases hl

/-- What returns is in `running_`. -/
theorem Work.running_of_returns (hwork : Work w w' l) (h : w.Solo) (hruns : HeldRuns w)
    (hl : l.returns a = true) :
    ∃ e id task, l = .ran e .delayTasks (.user a) id ∧ w.At (.running id task) ∧
      task.exec = .user a := by
  cases l with
  | ran e name job id =>
      obtain rfl := Job.isUser_iff.mp hl
      obtain ⟨hheld, -⟩ := hwork.ran_inv
      obtain rfl := h.name_eq (h.sound.held e name _ id hheld).1
      obtain ⟨task, hat, hexec⟩ := hruns e .delayTasks a id hheld
      exact ⟨e, id, task, rfl, hat, hexec⟩
  | _ => cases hl

/-- A function that is nowhere is neither started nor returned from. -/
theorem Work.silent (hwork : Work w w' l) (h : w.Solo) (hruns : HeldRuns w)
    (hnone : ∀ p, w.At p → p.task.exec ≠ .user a) :
    l.starts a = false ∧ l.returns a = false := by
  constructor
  · refine Bool.eq_false_iff.mpr ?_
    intro hl
    obtain ⟨e, entry, -, hat, hexec⟩ := hwork.queued_of_starts h hl
    exact hnone _ hat hexec
  · refine Bool.eq_false_iff.mpr ?_
    intro hl
    obtain ⟨e, id, task, -, hat, hexec⟩ := hwork.running_of_returns h hruns hl
    exact hnone _ hat hexec

/-- The function stays where it is, and is neither started nor returned from. -/
theorem Phase.keep {p : Place α} (hphase : Phase a n hist w p) (hwork : Work w w' l)
    (hstarts : l.starts a = false) (hreturns : l.returns a = false)
    (hfinished : ∀ e id task, p = .running id task → l ≠ .finished e .delayTasks id) :
    Phase a n (hist ++ [l]) w' p := by
  have hs : (hist ++ [l]).countP (Label.starts a) = hist.countP (Label.starts a) :=
    countP_snoc_of_false hstarts
  have hr : (hist ++ [l]).countP (Label.returns a) = hist.countP (Label.returns a) :=
    countP_snoc_of_false hreturns
  cases p with
  | carried t task => rwa [Phase, hs, hr]
  | queued entry => rwa [Phase, hs, hr]
  | running id task =>
      rw [Phase, hs, hr]
      rcases hphase with ⟨e, hheld, hcounts⟩ | ⟨e, hheld, hcounts⟩
      · rcases hwork.held_next hheld with hkept | ⟨⟨func, id', heq⟩, -⟩ | ⟨j, hj, -, rfl, -⟩ |
          ⟨hnone, -⟩
        · exact .inl ⟨e, hkept, hcounts⟩
        · cases heq
        · cases hj
          have htrue : (Job.user a).isUser a = true := Job.isUser_iff.mpr rfl
          cases hreturns.symm.trans htrue
        · cases hnone
      · rcases hwork.held_next hheld with hkept | ⟨⟨func, id', heq⟩, -⟩ | ⟨j, hj, -⟩ | ⟨-, hfin, -⟩
        · exact .inr ⟨e, hkept, hcounts⟩
        · cases heq
        · cases hj
        · exact absurd hfin (hfinished e id task rfl)

/-- The function moves on. -/
theorem Phase.goes {old new : Place α} (hphase : Phase a n hist w old) (hwork : Work w w' l)
    (h : w.Solo) (hn : n ≠ 0) (hinterval : interval ≠ 0) (hgoes : Goes l old new)
    (hexec : old.task.exec = .user a) (hold : old.task.interval = interval)
    (hl : l.Repeats a interval n) :
    Phase a n (hist ++ [l]) w' new ∧ new.task.interval = interval := by
  have hpos : 0 < n.toNat := by
    rw [Nat.pos_iff_ne_zero]
    exact fun hzero => hn (UInt64.toNat_inj.mp hzero)
  cases hgoes with
  | queue t entry =>
      obtain ⟨hs, hr, htimes⟩ := hphase
      refine ⟨?_, hold⟩
      rw [Phase, countP_snoc_of_false rfl, countP_snoc_of_false rfl]
      exact ⟨by rw [hs, hr], by omega, by rw [htimes, hr, Nat.add_zero]⟩
  | start e entry =>
      obtain ⟨hs, hlt, htimes⟩ := hphase
      obtain ⟨-, -, hheld, -⟩ := hwork.started_inv
      have htrue :
          Label.starts a (.started e .delayTasks entry.iterator entry.matrix.task) = true :=
        Job.isUser_iff.mpr hexec
      refine ⟨.inl ⟨e, ?_, ?_⟩, hold⟩
      · rw [hheld]
        change some (_, some (Place.queued entry).task.exec, _) = _
        rw [hexec]
      · rw [countP_snoc_of_true htrue, countP_snoc_of_false rfl]
        exact ⟨by rw [hs], hlt, htimes⟩
  | again e id task now entry hagain htask =>
      obtain ⟨hheld, -⟩ := hwork.finished_inv
      rcases hphase with ⟨d, hd, -⟩ | ⟨d, -, hs, hle, htimes⟩
      · obtain rfl := h.held_unique hd hheld
        cases hd.symm.trans hheld
      · change task.interval = interval at hold
        obtain ⟨hiff, hdown, hkept⟩ :=
          InnerTask.nextTimer_periodic (hold ▸ hinterval) (by omega) now
        have hlt := hiff.mp hagain
        constructor
        · rw [Phase, countP_snoc_of_false rfl, countP_snoc_of_false rfl, htask]
          exact ⟨hs, by omega, by omega⟩
        · change entry.matrix.task.interval = interval
          rw [htask, hkept, hold]
  | resetQueued entry entry' hexec' => exact absurd hexec hl
  | resetRunning id task task' hexec' => exact absurd hexec hl

/-- The function has returned. -/
theorem Phase.returned {e : Nat} {id : TaskId} {task : InnerTask α}
    (hphase : Phase a n hist w (.running id task))
    (hwork : Work w w' (.ran e .delayTasks (.user a) id)) (h : w.Solo) :
    Phase a n (hist ++ [.ran e .delayTasks (.user a) id]) w' (.running id task) := by
  obtain ⟨hheld, hnext⟩ := hwork.ran_inv
  have htrue : Label.returns a (.ran e .delayTasks (.user a) id : Label α) = true :=
    Job.isUser_iff.mpr rfl
  rcases hphase with ⟨d, -, hs, hlt, htimes⟩ | ⟨d, hd, -⟩
  · refine .inr ⟨e, hnext, ?_⟩
    rw [countP_snoc_of_true htrue, countP_snoc_of_false rfl]
    exact ⟨hs, hlt, by omega⟩
  · obtain rfl := h.held_unique hd hheld
    cases hd.symm.trans hheld

/-- The function is finished for the last time. -/
theorem Phase.finished {e : Nat} {id : TaskId} {task : InnerTask α} {now : Int}
    (hphase : Phase a n hist w (.running id task)) (hwork : Work w w' (.finished e .delayTasks id))
    (h : w.Solo) (hinterval : task.interval ≠ 0) (hlast : (task.nextTimer now).1.1 = false) :
    hist.countP (Label.starts a) = n.toNat ∧ hist.countP (Label.returns a) = n.toNat := by
  obtain ⟨hheld, -⟩ := hwork.finished_inv
  rcases hphase with ⟨d, hd, -⟩ | ⟨d, -, hs, hle, htimes⟩
  · obtain rfl := h.held_unique hd hheld
    cases hd.symm.trans hheld
  · obtain ⟨hiff, -⟩ := InnerTask.nextTimer_periodic hinterval (by omega) now
    have hle' : ¬ 1 < task.times.toNat := by
      intro hlt
      cases hlast.symm.trans (hiff.mpr hlt)
    omega

/-- A function that is in one place, and is not given to the pool again. -/
theorem Moved.tracked (hmoved : Moved w w' l) (hwork : Work w w' l) (h : w.Solo)
    (hruns : HeldRuns w) (hn : n ≠ 0) (hinterval : interval ≠ 0) (hl : l.Repeats a interval n)
    (hgive : l.gives a = false) (hgives : (hist ++ [l]).countP (Label.gives a) = 1) {p : Place α}
    (hat : w.At p) (hexec : p.task.exec = .user a) (hkept : p.task.interval = interval)
    (hunique : ∀ p', w.At p' → p'.task.exec = .user a → p' = p)
    (hphase : Phase a n hist w p) : Tracked a interval n (hist ++ [l]) w' := by
  -- It stays where it is.
  have hstay : w'.At p → (∀ p', w'.At p' → w.At p' ∨ p'.task.exec ≠ .user a) →
      l.starts a = false → l.returns a = false →
      (∀ e id task, p = .running id task → l ≠ .finished e .delayTasks id) →
      Tracked a interval n (hist ++ [l]) w' := by
    intro hat' hof hs hr hfinished
    refine .placed p hat' hexec hkept ?_ hgives (hphase.keep hwork hs hr hfinished)
    intro p' hp' hexec'
    exact hunique p' ((hof p' hp').resolve_right (not_not_intro hexec')) hexec'
  cases hmoved with
  | still hsame hgave hstarted hfinished =>
      have hs : l.starts a = false := by
        cases l with
        | started e name number task => exact absurd rfl (hstarted e name number task)
        | _ => rfl
      by_cases hr : l.returns a = true
      · obtain ⟨e, id, task, rfl, hrunning, hrexec⟩ := hwork.running_of_returns h hruns hr
        obtain rfl := hunique _ hrunning hrexec
        refine .placed _ ((hsame _).mpr hat) hexec hkept ?_ hgives (hphase.returned hwork h)
        exact fun p' hp' => hunique p' ((hsame p').mp hp')
      · refine hstay ((hsame p).mpr hat) (fun p' hp' => .inl ((hsame p').mp hp')) hs
          (Bool.eq_false_iff.mpr hr) ?_
        rintro e id task rfl heq
        exact hfinished e _ id task heq hat
  | given t task hnext =>
      refine hstay ((hnext p).mpr (.inl hat)) ?_ rfl rfl nofun
      intro p' hp'
      rcases (hnext p').mp hp' with hold | rfl
      · exact .inl hold
      · exact .inr (ne_of_not_gives hgive)
  | goes old new hgoes hold hnext =>
      by_cases hp : p = old
      · subst hp
        obtain ⟨hphase', hkept'⟩ := hphase.goes hwork h hn hinterval hgoes hexec hkept hl
        refine .placed new ((hnext new).mpr (.inr rfl)) (hgoes.exec.trans hexec) hkept' ?_ hgives
          hphase'
        intro p' hp' hexec'
        rcases (hnext p').mp hp' with ⟨hp', hne⟩ | heq
        · exact absurd (hunique p' hp' hexec') hne
        · exact heq
      · have hother : old.task.exec ≠ .user a := fun heq => hp (hunique old hold heq).symm
        refine hstay ((hnext p).mpr (.inl ⟨hat, hp⟩)) ?_ ?_ ?_ ?_
        · intro p' hp'
          rcases (hnext p').mp hp' with ⟨hp', -⟩ | rfl
          · exact .inl hp'
          · exact .inr (hgoes.exec ▸ hother)
        · refine Bool.eq_false_iff.mpr ?_
          intro hs
          obtain ⟨e, entry, rfl, -, hsexec⟩ := hwork.queued_of_starts h hs
          obtain ⟨htask, -⟩ := hgoes.started_inv
          exact hother (htask ▸ hsexec)
        · cases hgoes <;> rfl
        · rintro e id task rfl rfl
          obtain ⟨task', rfl⟩ := hgoes.finished_inv
          exact hp (congrArg _ (hat.running_unique hold))
  | leaves old hleaves hold hnext =>
      by_cases hp : p = old
      · subst hp
        have hnone : ∀ p', w'.At p' → p'.task.exec ≠ .user a := by
          intro p' hp' hexec'
          obtain ⟨hp', hne⟩ := (hnext p').mp hp'
          exact hne (hunique p' hp' hexec')
        cases hleaves with
        | erase name entry => exact absurd hexec hl
        | finish e id task now hlast =>
            obtain ⟨hs, hr⟩ := hphase.finished hwork h (hkept ▸ hinterval) hlast
            exact .done hnone hgives ((countP_snoc_of_false rfl).trans hs)
              ((countP_snoc_of_false rfl).trans hr)
      · refine hstay ((hnext p).mpr ⟨hat, hp⟩) (fun p' hp' => .inl ((hnext p').mp hp').1) ?_ ?_ ?_
        · cases hleaves <;> rfl
        · cases hleaves <;> rfl
        · rintro e id task rfl rfl
          obtain ⟨task', rfl⟩ := hleaves.finished_inv
          exact hp (congrArg _ (hat.running_unique hold))

/-- A function that has been given to the pool is not given to it again. -/
theorem gives_eq_false (hgives : hist.countP (Label.gives a) = 1)
    (honce : (hist ++ [l]).countP (Label.gives a) ≤ 1) : l.gives a = false := by
  cases hgive : l.gives a with
  | false => rfl
  | true =>
      rw [countP_snoc_of_true hgive, hgives] at honce
      exact absurd honce (by decide)

/-- **What a step does to the counts.** -/
theorem Tracked.work (ht : Tracked a interval n hist w) (hwork : Work w w' l) (h : w.Solo)
    (hruns : HeldRuns w) (hn : n ≠ 0) (hinterval : interval ≠ 0) (hl : l.Repeats a interval n)
    (honce : (hist ++ [l]).countP (Label.gives a) ≤ 1) :
    Tracked a interval n (hist ++ [l]) w' := by
  have hmoved := hwork.moved h
  have hcount : ∀ {f : Label α → Bool} {k : Nat}, f l = false → hist.countP f = k →
      (hist ++ [l]).countP f = k := fun hf hk => (countP_snoc_of_false hf).trans hk
  cases ht with
  | unknown hnone hgives hstarts hreturns =>
      obtain ⟨hs, hr⟩ := hwork.silent h hruns hnone
      by_cases hgive : l.gives a = true
      · -- The function is given to the pool.
        cases hmoved with
        | given t task hat =>
            have hexec : task.exec = .user a := Job.isUser_iff.mp hgive
            obtain ⟨hkept, htimes⟩ := hl hexec
            refine .placed (.carried t task) ((hat _).mpr (.inr rfl)) hexec hkept ?_ ?_
              ⟨hcount hs hstarts, hcount hr hreturns, htimes⟩
            · intro p hp hpexec
              rcases (hat p).mp hp with hold | heq
              · exact absurd hpexec (hnone p hold)
              · exact heq
            · rw [countP_snoc_of_true hgive, hgives]
        | still hat hgave =>
            cases l with
            | gave task => exact absurd rfl (hgave task)
            | _ => cases hgive
        | goes old new hgoes =>
            cases hgoes <;> cases hgive
        | leaves old hleaves =>
            cases hleaves <;> cases hgive
      · have hfalse := Bool.eq_false_iff.mpr hgive
        exact .unknown (hmoved.nowhere hnone hfalse) (hcount hfalse hgives) (hcount hs hstarts)
          (hcount hr hreturns)
  | done hnone hgives hstarts hreturns =>
      obtain ⟨hs, hr⟩ := hwork.silent h hruns hnone
      have hfalse := gives_eq_false hgives honce
      exact .done (hmoved.nowhere hnone hfalse) (hcount hfalse hgives) (hcount hs hstarts)
        (hcount hr hreturns)
  | placed p hat hexec hkept hunique hgives hphase =>
      have hfalse := gives_eq_false hgives honce
      have hgives' := hcount hfalse hgives
      exact hmoved.tracked hwork h hruns hn hinterval hl hfalse hgives' hat hexec hkept hunique
        hphase

end ExecutorPool

/-! ### Runs -/

namespace TaskPool

open ExecutorPool

variable {s : TaskPool α} {ls : List (ExecutorPool.Label α)} {a : α} {interval : Int} {n : UInt64}
variable {min : UInt64}

/-- A step in a pool where the function is scheduled with these, and is neither removed nor
reset. -/
def RepeatsStep (a : α) (interval : Int) (n : UInt64) :
    TaskPool α → ExecutorPool.Label α → TaskPool α → Prop :=
  guarded Step (fun _ l => l.Repeats a interval n)

/-- The function is started `n` times: never more often, it is not in the queue once it has returned
`n` times, and it is lost sight of only then. -/
structure Counted (a : α) (n : UInt64) (ls : List (ExecutorPool.Label α)) (s : TaskPool α) :
    Prop where
  atMost : ls.countP (Label.starts a) ≤ n.toNat
  ended : ls.countP (Label.returns a) = n.toNat →
    ∀ entry ∈ s.pool.delayTasks.tasks, entry.matrix.task.exec ≠ .user a
  total : ls.countP (Label.gives a) = 1 → (∀ p, s.pool.At p → p.task.exec ≠ .user a) →
    ls.countP (Label.starts a) = n.toNat ∧ ls.countP (Label.returns a) = n.toNat

theorem counted_of_tracked (h : Tracked a interval n ls s.pool) (hn : n ≠ 0) :
    Counted a n ls s := by
  have hpos : n.toNat ≠ 0 := fun hzero => hn (UInt64.toNat_inj.mp hzero)
  cases h with
  | unknown hnone hgives hstarts hreturns =>
      refine ⟨by omega, fun _ entry he => hnone (.queued entry) he, ?_⟩
      intro hone
      omega
  | done hnone hgives hstarts hreturns =>
      exact ⟨hstarts.le, fun _ entry he => hnone (.queued entry) he, fun _ _ => ⟨hstarts, hreturns⟩⟩
  | placed p hat hexec hkept hunique hgives hphase =>
      have hthere : ¬ ∀ p, s.pool.At p → p.task.exec ≠ .user a := fun hnone => hnone p hat hexec
      refine ⟨?_, ?_, fun _ hnone => absurd hnone hthere⟩
      · cases p with
        | carried t task =>
            obtain ⟨hs, -⟩ := hphase
            omega
        | queued entry =>
            obtain ⟨hs, hlt, -⟩ := hphase
            omega
        | running id task =>
            rcases hphase with ⟨e, -, hs, hlt, -⟩ | ⟨e, -, hs, hle, -⟩
            · omega
            · omega
      · intro hreturns entry he hexec'
        -- An entry of the queue is the place, and there it has not returned `n` times.
        obtain rfl := hunique (.queued entry) he hexec'
        obtain ⟨-, hlt, -⟩ := hphase
        omega

theorem run_tracked (hrun : Run (RepeatsStep a interval n) (initial 1 min) ls s)
    (hgives : ls.countP (Label.gives a) ≤ 1) (hinterval : interval ≠ 0) (hn : n ≠ 0) :
    Tracked a interval n ls s.pool := by
  have hall := hrun.invariant_history (I := fun hist s => hist.countP (Label.gives a) ≤ 1 →
    s.pool.Solo ∧ HeldRuns s.pool ∧ Tracked a interval n hist s.pool) ?_ [] ?_
  · exact (hall hgives).2.2
  · intro hist s l s' hI ⟨hstep, hl⟩ honce
    have hbefore : hist.countP (Label.gives a) ≤ 1 := by
      rw [countP_snoc] at honce
      omega
    obtain ⟨hsolo, hruns, htracked⟩ := hI hbefore
    have hwork := hstep.work
    exact ⟨hstep.solo hsolo, hruns.work hwork hsolo,
      htracked.work hwork hsolo hruns hn hinterval hl honce⟩
  · intro _
    refine ⟨solo_initial min, nofun, .unknown ?_ rfl rfl rfl⟩
    intro p hp
    cases p with
    | carried t task => cases hp
    | queued entry => exact absurd hp List.not_mem_nil
    | running id task =>
        obtain ⟨matrix, hm, -⟩ := hp
        simp [initial, ExecutorPool.initial, PriorityQueue.empty] at hm

/-- A function that is scheduled is started, whatever its `times`. -/
theorem run_started (a : α) (interval : Int) (n : UInt64) :
    ∃ (ls : List (ExecutorPool.Label α)) (s : TaskPool α),
      Run (RepeatsStep a interval n) (initial 1 0) ls s ∧ ls.countP (Label.gives a) = 1 ∧
        ls.countP (Label.starts a) = 1 := by
  obtain ⟨s, s', hrun, -⟩ := run_schedule a interval n rfl
  refine ⟨_, s, hrun.guard ?_, ?_, ?_⟩
  · simp [Label.Repeats]
  · simp [Label.gives, Job.isUser]
  · simp [Label.starts, Job.isUser]

/-- **A function that is scheduled with an interval is started as often as `times` says, unless this
is 0.** -/
theorem repetition_count (a : α) (interval : Int) (hinterval : interval ≠ 0) (n : UInt64) :
    (∀ (min : UInt64) (ls : List (ExecutorPool.Label α)) (s : TaskPool α),
      Run (RepeatsStep a interval n) (initial 1 min) ls s → ls.countP (Label.gives a) ≤ 1 →
        Counted a n ls s) ↔ n ≠ 0 := by
  constructor
  · rintro hclaim rfl
    obtain ⟨ls, s, hrun, hgives, hstarts⟩ := run_started a interval 0
    have hle := (hclaim 0 ls s hrun hgives.le).atMost
    rw [hstarts] at hle
    exact absurd hle (by decide)
  · intro hn min ls s hrun hgives
    exact counted_of_tracked (run_tracked hrun hgives hinterval hn) hn

/-- Once, at an interval of 5. -/
theorem repetition_count_once :
    ∃ (ls : List (ExecutorPool.Label Unit)) (s : TaskPool Unit),
      Run (RepeatsStep () 5 1) (initial 1 0) ls s ∧ ls.countP (Label.starts ()) = 1 ∧
        Counted () 1 ls s := by
  obtain ⟨ls, s, hrun, hgives, hstarts⟩ := run_started () 5 1
  exact ⟨ls, s, hrun, hstarts,
    (repetition_count () 5 (by decide) 1).mpr (by decide) 0 ls s hrun hgives.le⟩

/-- A function that is to be started 0 times is started. -/
theorem repetition_count_zero :
    ¬ ∀ (a : Unit) (interval : Int), interval ≠ 0 → ∀ (n min : UInt64)
      (ls : List (ExecutorPool.Label Unit)) (s : TaskPool Unit),
        Run (RepeatsStep a interval n) (initial 1 min) ls s → ls.countP (Label.gives a) ≤ 1 →
          Counted a n ls s := by
  intro hclaim
  obtain ⟨ls, s, hrun, hgives, hstarts⟩ := run_started () 5 0
  have hle := (hclaim () 5 (by decide) 0 0 ls s hrun hgives.le).atMost
  rw [hstarts] at hle
  exact absurd hle (by decide)

end TaskPool

end NativePreferences
