import NativePreferences.ExecutorPool.Tasks

/-!
# NativePreferences.ExecutorPool.SingleThread

**A pool for one thread runs each one-shot task once, and in order.** Without `execs_` a task goes
into `delayTasks_` once, as an entry with a number of its own. A step queues an entry, starts the
first one, takes one off for `Remove`, or leaves the entries alone (`Change`). So at any time what
has been queued is what has been started, what has been taken off and what is in the queue
(`Accounted`), and an executor that has started a task has returned from it or is running it
(`Run`). The next task is popped when no executor runs one, hence what precedes it in the order
of the queue has been run before.
-/

namespace NativePreferences

open Lib

variable {α : Type}

/-- `NextTimer` does not queue the task again. -/
def InnerTask.OneShot (task : InnerTask α) : Prop := task.interval = 0 ∨ task.times = 1

theorem InnerTask.OneShot.nextTimer {task : InnerTask α} (h : task.OneShot) (now : Int) :
    (task.nextTimer now).1.1 = false := by
  rw [InnerTask.nextTimer]
  rcases h with hinterval | htimes
  · rw [if_neg (not_not_intro hinterval)]
  · split
    · dsimp only
      rw [htimes, if_neg (by decide)]
    · rfl

/-- What an entry is known by: its number and its task. -/
def PQEntry.key (entry : PQEntry (InnerTask α) Int TaskId) : Nat × InnerTask α :=
  (entry.iterator, entry.matrix.task)

namespace ExecutorPool

namespace Label

/-- What is scheduled is to run once, and nothing is reset. -/
def OneShot : Label α → Prop
  | .gave task => task.OneShot
  | .reset _ => False
  | _ => True

def queuedKey : Label α → Option (Nat × InnerTask α)
  | .queued _ number task => some (number, task)
  | _ => none

def startedKey : Label α → Option (Nat × InnerTask α)
  | .started _ _ number task => some (number, task)
  | _ => none

/-- The entry has left the queue. -/
def goneKey : Label α → Option (Nat × InnerTask α)
  | .started _ _ number task => some (number, task)
  | .erased _ (some entry) => some entry.key
  | _ => none

theorem goneKey_eq {l : Label α} {key : Nat × InnerTask α} (h : l.goneKey = some key) :
    (∃ e name, l = .started e name key.1 key.2) ∨
      ∃ name entry, l = .erased name (some entry) ∧ entry.key = key := by
  cases l with
  | started e name number task =>
      cases h
      exact .inl ⟨e, name, rfl⟩
  | erased name entry =>
      cases entry with
      | none => cases h
      | some entry => exact .inr ⟨name, entry, rfl, Option.some.inj h⟩
  | _ => cases h

end Label

theorem startedKey_sublist (ls : List (Label α)) :
    (ls.filterMap Label.startedKey).Sublist (ls.filterMap Label.goneKey) := by
  induction ls with
  | nil => exact .slnil
  | cons l ls ih =>
      cases hl : l.startedKey with
      | some key =>
          have hgone : l.goneKey = some key := by
            cases l with
            | started => exact hl
            | _ => cases hl
          rw [List.filterMap_cons_some hl, List.filterMap_cons_some hgone]
          exact ih.cons_cons key
      | none =>
          rw [List.filterMap_cons_none hl, List.filterMap_cons]
          cases l.goneKey with
          | none => exact ih
          | some key => exact ih.cons key

variable {w w' : ExecutorPool α} {l : Label α}

/-! ### What a step does to the entries -/

/-- The tasks are to run once. -/
structure OneShots (w : ExecutorPool α) : Prop where
  carried : ∀ t name task, w.carried t = some (name, task) → task.OneShot
  entries : ∀ entry ∈ w.delayTasks.tasks, entry.matrix.task.OneShot
  running : ∀ id matrix, w.delayTasks.running.lookup id = some matrix → matrix.task.OneShot

theorem oneShots_initial (max min : UInt64) : (initial max min : ExecutorPool α).OneShots where
  carried _ _ _ ht := nomatch ht
  entries _ he := absurd he List.not_mem_nil
  running _ _ hm := by simp [initial, PriorityQueue.empty] at hm

/-- What a step does to the entries of `delayTasks_`. -/
inductive Change (w w' : ExecutorPool α) : Label α → Prop
  | kept {l : Label α} (hqueued : l.queuedKey = none) (hgone : l.goneKey = none)
      (htasks : w'.delayTasks.tasks = w.delayTasks.tasks)
      (hemplaced : w'.delayTasks.emplaced = w.delayTasks.emplaced) : Change w w' l
  | queued (t : Thread) (task : InnerTask α) (time : Int)
      (hcarry : w.carried t = some (.delayTasks, task))
      (htasks : w'.delayTasks.tasks = PriorityQueue.insertTask
        ⟨time, ⟨task, task.taskId⟩, w.delayTasks.emplaced⟩ w.delayTasks.tasks)
      (hemplaced : w'.delayTasks.emplaced = w.delayTasks.emplaced + 1) :
      Change w w' (.queued .delayTasks w.delayTasks.emplaced task)
  | started (e : Nat) (entry : PQEntry (InnerTask α) Int TaskId)
      (hnone : ∀ d, w.held d = none)
      (htasks : w.delayTasks.tasks = entry :: w'.delayTasks.tasks)
      (hemplaced : w'.delayTasks.emplaced = w.delayTasks.emplaced) :
      Change w w' (.started e .delayTasks entry.iterator entry.matrix.task)
  | erased (entry : PQEntry (InnerTask α) Int TaskId)
      (htasks : w.delayTasks.tasks.Perm (entry :: w'.delayTasks.tasks))
      (hemplaced : w'.delayTasks.emplaced = w.delayTasks.emplaced) :
      Change w w' (.erased .delayTasks (some entry))

/-- A task that runs only once is not queued again. -/
theorem OneShots.finish (h : w.OneShots) (id : TaskId) {q : TaskQueue α}
    (hq : q = w.delayTasks.finish (w.updater .delayTasks) id) :
    q.tasks = w.delayTasks.tasks ∧ q.emplaced = w.delayTasks.emplaced ∧
      ∀ id' matrix, q.running.lookup id' = some matrix →
        w.delayTasks.running.lookup id' = some matrix := by
  rcases PriorityQueue.finish_inv (w.updater .delayTasks) w.delayTasks id with
    ⟨-, hsame⟩ | ⟨matrix, hrunning, hfinish⟩
  · rw [hq, hsame]
    exact ⟨rfl, rfl, fun _ _ hm => hm⟩
  · have hagain : (w.updater .delayTasks matrix.task).1.1 = false :=
      (h.running id matrix hrunning).nextTimer w.now
    rw [hq, hfinish, hagain]
    exact ⟨rfl, rfl, fun _ _ hm => PriorityQueue.lookup_erase_some hm⟩

theorem Work.change (hwork : Work w w' l) (h : w.Solo) (hshots : w.OneShots) (hl : l.OneShot) :
    Change w w' l := by
  have hkept : ∀ {l : Label α}, l.queuedKey = none → l.goneKey = none → w'.queue = w.queue →
      Change w w' l := by
    intro l hqueued hgone hqueue
    have heq := Solo.delayTasks_eq hqueue
    exact .kept hqueued hgone (heq ▸ rfl) (heq ▸ rfl)
  cases hwork with
  | quiet hl hqueue hcarried hheld =>
      cases l with
      | other | called | removed => exact hkept rfl rfl hqueue
      | _ => cases hl
  | gave t name task hid hshaped hthere hcaller hnone hqueue hcarried hheld =>
      exact hkept rfl rfl hqueue
  | queued t name task time q hcarry hget hqueue hcarried hheld =>
      obtain ⟨hshaped, -⟩ := h.sound.carried t name task hcarry
      obtain ⟨rfl, rfl, heq⟩ := h.delayTasks_update hget hqueue
      rw [hshaped.push] at heq
      exact .queued t task time hcarry (heq ▸ rfl) (heq ▸ rfl)
  | started e name q q' entry rest hnone hahead hget htasks hpop hqueue hcarried hheld =>
      obtain ⟨rfl, rfl, rfl⟩ := h.delayTasks_update hget hqueue
      have hq := PriorityQueue.pop_inv hpop htasks
      refine .started e entry (h.held_none hahead hnone) ?_ (hq ▸ rfl)
      rw [htasks, hq]
  | startedNothing e name hnone hahead hthere hqueue hcarried hheld =>
      exact hkept rfl rfl hqueue
  | handed e name func id taskId hholds hnone hqueue hcarried hheld =>
      exact hkept rfl rfl hqueue
  | ran e name job id hholds hjob hnone hqueue hcarried hheld => exact hkept rfl rfl hqueue
  | finished e name id q hholds hget hqueue hcarried hheld =>
      obtain ⟨rfl, rfl, heq⟩ := h.delayTasks_update hget hqueue
      obtain ⟨htasks, hemplaced, -⟩ := hshots.finish id heq
      exact .kept rfl rfl htasks hemplaced
  | erased name id wait res q q' hget hremove hqueue hcarried hheld =>
      obtain ⟨rfl, rfl, rfl⟩ := h.delayTasks_update hget hqueue
      rcases h.queueSound.wellFormed.remove_cases hremove with
        ⟨hentry, heq⟩ | ⟨entry, hentry, hperm, -, hemplaced⟩
      · rw [hentry]
        exact .kept rfl rfl (heq ▸ rfl) (heq ▸ rfl)
      · rw [hentry]
        exact .erased entry hperm hemplaced
  | reset id interval q task hget htask hqueue hcarried hheld => cases hl

/-- An entry was there before, or has been queued. -/
theorem Change.mem_of (h : Change w w' l) {entry : PQEntry (InnerTask α) Int TaskId}
    (he : entry ∈ w'.delayTasks.tasks) :
    entry ∈ w.delayTasks.tasks ∨
      entry.iterator = w.delayTasks.emplaced ∧
        ∃ t, w.carried t = some (.delayTasks, entry.matrix.task) := by
  cases h with
  | kept hqueued hgone htasks hemplaced => exact .inl (htasks ▸ he)
  | queued t task time hcarry htasks hemplaced =>
      rw [htasks] at he
      rcases PriorityQueue.mem_insertTask.mp he with rfl | he
      · exact .inr ⟨rfl, t, hcarry⟩
      · exact .inl he
  | started e entry' hnone htasks hemplaced => exact .inl (htasks ▸ List.mem_cons_of_mem _ he)
  | erased entry' htasks hemplaced =>
      exact .inl (htasks.mem_iff.mpr (List.mem_cons_of_mem _ he))

/-- What runs was there before, or has been popped. -/
theorem Work.lookup_running (hwork : Work w w' l) (h : w.Solo) (hshots : w.OneShots)
    (hl : l.OneShot) {id : TaskId} {matrix : PQMatrix (InnerTask α) TaskId}
    (hm : w'.delayTasks.running.lookup id = some matrix) :
    w.delayTasks.running.lookup id = some matrix ∨
      ∃ entry ∈ w.delayTasks.tasks, entry.matrix = matrix := by
  have hsame : w'.queue = w.queue → w.delayTasks.running.lookup id = some matrix :=
    fun hqueue => Solo.delayTasks_eq hqueue ▸ hm
  cases hwork with
  | quiet hl hqueue hcarried hheld => exact .inl (hsame hqueue)
  | gave t name task hid hshaped hthere hcaller hnone hqueue hcarried hheld =>
      exact .inl (hsame hqueue)
  | queued t name task time q hcarry hget hqueue hcarried hheld =>
      obtain ⟨rfl, rfl, heq⟩ := h.delayTasks_update hget hqueue
      rw [heq, PriorityQueue.push_running] at hm
      exact .inl hm
  | started e name q q' entry rest hnone hahead hget htasks hpop hqueue hcarried hheld =>
      obtain ⟨rfl, rfl, rfl⟩ := h.delayTasks_update hget hqueue
      rw [PriorityQueue.pop_inv hpop htasks] at hm
      dsimp only at hm
      split at hm
      · exact .inl hm
      · by_cases heq : id = entry.matrix.id
        · rw [heq, Finmap.lookup_insert] at hm
          exact .inr ⟨entry, htasks ▸ List.mem_cons_self, Option.some.inj hm⟩
        · rw [Finmap.lookup_insert_of_ne _ heq] at hm
          exact .inl hm
  | startedNothing e name hnone hahead hthere hqueue hcarried hheld => exact .inl (hsame hqueue)
  | handed e name func id taskId hholds hnone hqueue hcarried hheld => exact .inl (hsame hqueue)
  | ran e name job id hholds hjob hnone hqueue hcarried hheld => exact .inl (hsame hqueue)
  | finished e name id q hholds hget hqueue hcarried hheld =>
      obtain ⟨rfl, rfl, heq⟩ := h.delayTasks_update hget hqueue
      obtain ⟨-, -, hrunning⟩ := hshots.finish id heq
      exact .inl (hrunning _ _ hm)
  | erased name id wait res q q' hget hremove hqueue hcarried hheld =>
      obtain ⟨rfl, rfl, rfl⟩ := h.delayTasks_update hget hqueue
      rw [PriorityQueue.remove_running hremove] at hm
      exact .inl hm
  | reset id interval q task hget htask hqueue hcarried hheld => cases hl

theorem OneShots.work (hshots : w.OneShots) (hwork : Work w w' l) (h : w.Solo)
    (hl : l.OneShot) : w'.OneShots where
  carried t name task ht := by
    rcases hwork.carried_of ht with hold | ⟨rfl, -⟩ | ⟨e, name', func, taskId, -, hheld, -⟩
    · exact hshots.carried t name task hold
    · exact hl
    · exact absurd rfl (h.not_execute hheld func task.taskId)
  entries entry he := by
    rcases (hwork.change h hshots hl).mem_of he with hold | ⟨-, t, hcarry⟩
    · exact hshots.entries entry hold
    · exact hshots.carried t _ _ hcarry
  running id matrix hm := by
    rcases hwork.lookup_running h hshots hl hm with hold | ⟨entry, hmem, rfl⟩
    · exact hshots.running id matrix hold
    · exact hshots.entries entry hmem

/-! ### Every task is accounted for -/

/-- What has been queued since the start is what has left the queue and what is in it. -/
structure Accounted (hist : List (Label α)) (q : TaskQueue α) : Prop where
  numbers : (hist.filterMap Label.queuedKey).map Prod.fst = List.range q.emplaced
  all : (hist.filterMap Label.queuedKey).Perm
    (hist.filterMap Label.goneKey ++ q.tasks.map PQEntry.key)

theorem accounted_initial : Accounted ([] : List (Label α)) .empty := ⟨rfl, .refl _⟩

theorem filterMap_snoc {β : Type} {f : Label α → Option β} {hist : List (Label α)} :
    (hist ++ [l]).filterMap f = hist.filterMap f ++ (f l).toList := by
  rw [List.filterMap_append]
  cases hf : f l with
  | none => rw [List.filterMap_cons_none hf, List.filterMap_nil, Option.toList_none]
  | some b => rw [List.filterMap_cons_some hf, List.filterMap_nil, Option.toList_some]

/-- The entry that leaves the queue is accounted for as gone. -/
theorem Accounted.gone {hist : List (Label α)} {q q' : TaskQueue α} (h : Accounted hist q)
    {entry : PQEntry (InnerTask α) Int TaskId} (htasks : q.tasks.Perm (entry :: q'.tasks))
    (hemplaced : q'.emplaced = q.emplaced) (hqueued : l.queuedKey = none)
    (hgone : l.goneKey = some entry.key) : Accounted (hist ++ [l]) q' where
  numbers := by
    rw [filterMap_snoc, hqueued, hemplaced, Option.toList_none, List.append_nil, h.numbers]
  all := by
    rw [filterMap_snoc, filterMap_snoc, hqueued, hgone, Option.toList_none, Option.toList_some,
      List.append_nil, ← List.append_cons]
    exact h.all.trans ((htasks.map PQEntry.key).append_left _)

theorem Accounted.change {hist : List (Label α)} (h : Accounted hist w.delayTasks)
    (hchange : Change w w' l) : Accounted (hist ++ [l]) w'.delayTasks := by
  cases hchange with
  | kept hqueued hgone htasks hemplaced =>
      constructor
      · rw [filterMap_snoc, hqueued, hemplaced, Option.toList_none, List.append_nil, h.numbers]
      · rw [filterMap_snoc, filterMap_snoc, hqueued, hgone, htasks, Option.toList_none,
          List.append_nil, List.append_nil]
        exact h.all
  | queued t task time hcarry htasks hemplaced =>
      have hkeys := (PriorityQueue.insertTask_perm ⟨time, ⟨task, task.taskId⟩,
        w.delayTasks.emplaced⟩ w.delayTasks.tasks).map PQEntry.key
      rw [← htasks] at hkeys
      constructor
      · rw [filterMap_snoc, hemplaced, List.range_succ, ← h.numbers, List.map_append]
        rfl
      · rw [filterMap_snoc, filterMap_snoc]
        change (_ ++ [(w.delayTasks.emplaced, task)]).Perm (_ ++ [] ++ _)
        rw [List.append_nil]
        have hall := h.all.append_right [(w.delayTasks.emplaced, task)]
        rw [List.append_assoc] at hall
        exact hall.trans (((List.perm_append_singleton _ _).trans hkeys.symm).append_left _)
  | started e entry hnone htasks hemplaced => exact h.gone (htasks ▸ .refl _) hemplaced rfl rfl
  | erased entry htasks hemplaced => exact h.gone htasks hemplaced rfl rfl

/-! ### What has been started has been run -/

/-- The executor has started the task of this entry, and nothing since. -/
def LastStarted (hist : List (Label α)) (e number : Nat) (task : InnerTask α) : Prop :=
  ∃ before mid, hist = before ++ .started e .delayTasks number task :: mid ∧
    ∀ l ∈ mid, ∀ name n t, l ≠ .started e name n t

/-- The executor has started the task of this entry, and has returned from it before it has
started another. -/
def Ran (hist : List (Label α)) (e number : Nat) (task : InnerTask α) : Prop :=
  ∃ before after, hist = before ++ .ran e .delayTasks task.exec task.taskId :: after ∧
    LastStarted before e number task

/-- What has been started has been run, or runs. -/
def Runs (hist : List (Label α)) (w : ExecutorPool α) : Prop :=
  ∀ e name number task, .started e name number task ∈ hist → Ran hist e number task ∨
    LastStarted hist e number task ∧ w.held e = some (.delayTasks, some task.exec, task.taskId)

theorem Runs.work {hist : List (Label α)} (hruns : Runs hist w) (hwork : Work w w' l)
    (h : w.Solo) : Runs (hist ++ [l]) w' := by
  intro e name number task hmem
  rcases List.mem_append.mp hmem with hmem | hmem
  · rcases hruns e name number task hmem with ⟨before, after, heq, hlast⟩ | ⟨hlast, hheld⟩
    · exact .inl ⟨before, after ++ [l], by simp [heq], hlast⟩
    · rcases hwork.held_next hheld with hkept | ⟨⟨func, id', hjob⟩, -⟩ | ⟨j, hjob, -, rfl, -⟩ |
        ⟨hnone, -⟩
      · obtain ⟨before, mid, heq, hmid⟩ := hlast
        refine .inr ⟨⟨before, mid ++ [l], by simp [heq], ?_⟩, hkept⟩
        intro l' hl'
        rcases List.mem_append.mp hl' with hl' | hl'
        · exact hmid l' hl'
        · -- An executor that starts a task holds none.
          obtain rfl := List.mem_singleton.mp hl'
          rintro name' n t rfl
          cases hheld.symm.trans hwork.started_inv.1
      · exact absurd hjob (h.not_execute hheld func id')
      · cases hjob
        exact .inl ⟨hist, [], rfl, hlast⟩
      · cases hnone
  · obtain rfl := List.mem_singleton.mp hmem
    obtain ⟨-, -, hheld, q, entry, rest, hget, -⟩ := hwork.started_inv
    obtain ⟨rfl, -⟩ := h.queue_eq hget
    exact .inr ⟨⟨hist, [], rfl, nofun⟩, hheld⟩

/-! ### The order -/

theorem not_before_self (x : PQEntry (InnerTask α) Int TaskId) : ¬ x.Before x := by
  rintro (hlt | ⟨-, hlt⟩)
  · exact absurd hlt (lt_irrefl _)
  · exact absurd hlt (lt_irrefl _)

theorem not_before_of_before {x y : PQEntry (InnerTask α) Int TaskId} (hxy : x.Before y) :
    ¬ y.Before x := by
  rintro (hlt | ⟨heq, hlt⟩)
  · rcases hxy with hxy | ⟨hxy, -⟩
    · exact absurd hlt (lt_asymm hxy)
    · exact absurd hxy (ne_of_gt hlt)
  · rcases hxy with hxy | ⟨-, hxy⟩
    · exact absurd heq (ne_of_gt hxy)
    · exact absurd hlt (lt_asymm hxy)

/-- What holds of the entries since the state `u`, in which `x` was in the queue: those of then
are the ones with the numbers of then, and `x` has not left the queue unnoticed. -/
structure Since (u : ExecutorPool α) (x : PQEntry (InnerTask α) Int TaskId)
    (hist : List (Label α)) (w : ExecutorPool α) : Prop where
  old : ∀ entry ∈ w.delayTasks.tasks,
    entry ∈ u.delayTasks.tasks ∨ u.delayTasks.emplaced ≤ entry.iterator
  later : u.delayTasks.emplaced ≤ w.delayTasks.emplaced
  kept : x ∈ w.delayTasks.tasks ∨
    (∃ e, .started e .delayTasks x.iterator x.matrix.task ∈ hist) ∨
      .erased .delayTasks (some x) ∈ hist

theorem since_refl {u : ExecutorPool α} {x : PQEntry (InnerTask α) Int TaskId}
    (hx : x ∈ u.delayTasks.tasks) : Since u x [] u :=
  ⟨fun _ he => .inl he, le_rfl, .inl hx⟩

theorem Since.change {u : ExecutorPool α} {x : PQEntry (InnerTask α) Int TaskId}
    {hist : List (Label α)} (h : Since u x hist w) (hchange : Change w w' l) :
    Since u x (hist ++ [l]) w' where
  old entry he := by
    rcases hchange.mem_of he with hold | ⟨hnumber, -⟩
    · exact h.old entry hold
    · exact .inr (hnumber ▸ h.later)
  later := by
    cases hchange with
    | kept hqueued hgone htasks hemplaced => exact hemplaced ▸ h.later
    | queued t task time hcarry htasks hemplaced => exact hemplaced ▸ h.later.trans (Nat.le_succ _)
    | started e entry hnone htasks hemplaced => exact hemplaced ▸ h.later
    | erased entry htasks hemplaced => exact hemplaced ▸ h.later
  kept := by
    have hseen : ∀ {l' : Label α}, l' ∈ hist → l' ∈ hist ++ [l] :=
      fun hl' => List.mem_append_left _ hl'
    have hnow : l ∈ hist ++ [l] := List.mem_append_right _ List.mem_cons_self
    rcases h.kept with hx | ⟨e, hstarted⟩ | herased
    · cases hchange with
      | kept hqueued hgone htasks hemplaced => exact .inl (htasks ▸ hx)
      | queued t task time hcarry htasks hemplaced =>
          exact .inl (htasks ▸ PriorityQueue.mem_insertTask.mpr (.inr hx))
      | started e entry hnone htasks hemplaced =>
          rw [htasks] at hx
          rcases List.mem_cons.mp hx with rfl | hx
          · exact .inr (.inl ⟨e, hnow⟩)
          · exact .inl hx
      | erased entry htasks hemplaced =>
          rcases List.mem_cons.mp (htasks.mem_iff.mp hx) with rfl | hx
          · exact .inr (.inr hnow)
          · exact .inl hx
    · exact .inr (.inl ⟨e, hseen hstarted⟩)
    · exact .inr (.inr (hseen herased))

/-- **Before a task is started, those before it in the queue have left it.** -/
theorem Since.not_mem {u : ExecutorPool α} {x y : PQEntry (InnerTask α) Int TaskId}
    {hist : List (Label α)} (h : Since u x hist w) (hu : u.Solo) (hw : w.Solo)
    (hy : y ∈ u.delayTasks.tasks) (hxy : x.Before y)
    {entry : PQEntry (InnerTask α) Int TaskId} {rest : List (PQEntry (InnerTask α) Int TaskId)}
    (htasks : w.delayTasks.tasks = entry :: rest) (hnumber : entry.iterator = y.iterator) :
    x ∉ w.delayTasks.tasks := by
  have hentry : entry = y := by
    rcases h.old entry (htasks ▸ List.mem_cons_self) with hold | hnew
    · exact hu.queueSound.wellFormed.eq_of_iterator hold hy hnumber
    · have hlt := hu.queueSound.wellFormed.numbered y hy
      omega
  intro hx
  have hsorted := hw.queueSound.wellFormed.sorted
  rw [htasks, hentry] at hsorted
  rw [htasks, hentry] at hx
  rcases List.mem_cons.mp hx with rfl | hx
  · exact not_before_self x hxy
  · exact not_before_of_before hxy ((List.pairwise_cons.mp hsorted).1 x hx)

/-- What has been scheduled is queued, or is still to be queued. -/
def Given (hist : List (Label α)) (w : ExecutorPool α) : Prop :=
  ∀ task, .gave task ∈ hist → (∃ t, w.carried t = some (.delayTasks, task)) ∨
    ∃ number, .queued .delayTasks number task ∈ hist

theorem Given.work {hist : List (Label α)} (hgiven : Given hist w) (hwork : Work w w' l)
    (h : w.Solo) : Given (hist ++ [l]) w' := by
  intro task hmem
  rcases List.mem_append.mp hmem with hmem | hmem
  · rcases hgiven task hmem with ⟨t, ht⟩ | ⟨number, hqueued⟩
    · rcases hwork.carried_next ht with hkept | ⟨q, -, rfl, -⟩
      · exact .inl ⟨t, hkept⟩
      · exact .inr ⟨q.emplaced, List.mem_append_right _ List.mem_cons_self⟩
    · exact .inr ⟨number, List.mem_append_left _ hqueued⟩
  · obtain rfl := List.mem_singleton.mp hmem
    obtain ⟨t, name, hthere, hcarried⟩ := hwork.gave_inv
    obtain rfl := h.name_eq hthere
    exact .inl ⟨t, by rw [hcarried, Function.update_self]⟩

end ExecutorPool

/-! ### Runs -/

namespace TaskPool

open ExecutorPool

variable {s s' u : TaskPool α} {l : ExecutorPool.Label α} {ls : List (ExecutorPool.Label α)}
variable {min : UInt64}

/-- A step of `Execute`, of `Schedule` for a task that is to run once, of `Remove` or of an
executor. -/
def OneShotStep : TaskPool α → ExecutorPool.Label α → TaskPool α → Prop :=
  guarded Step (fun _ l => l.OneShot)

/-- What holds of the tasks of a pool for one thread after a run. -/
structure InOrder (hist : List (ExecutorPool.Label α)) (s : TaskPool α) : Prop where
  solo : s.pool.Solo
  shots : s.pool.OneShots
  runs : Runs hist s.pool

theorem inOrder_initial (min : UInt64) : InOrder [] (initial 1 min : TaskPool α) :=
  ⟨solo_initial min, oneShots_initial 1 min, nofun⟩

theorem InOrder.step {hist : List (ExecutorPool.Label α)} (h : InOrder hist s)
    (hstep : OneShotStep s l s') :
    InOrder (hist ++ [l]) s' ∧ Change s.pool s'.pool l := by
  obtain ⟨hstep, hl⟩ := hstep
  have hwork := hstep.work
  exact ⟨⟨hstep.solo h.solo, h.shots.work hwork h.solo hl, h.runs.work hwork h.solo⟩,
    hwork.change h.solo h.shots hl⟩

theorem run_inOrder (hrun : Run OneShotStep (initial 1 min) ls s) :
    InOrder ls s ∧ Accounted ls s.pool.delayTasks ∧ Given ls s.pool := by
  refine hrun.invariant_history
    (I := fun hist s => InOrder hist s ∧ Accounted hist s.pool.delayTasks ∧ Given hist s.pool)
    ?_ [] ⟨inOrder_initial min, accounted_initial, nofun⟩
  intro hist s l s' ⟨horder, haccounted, hgiven⟩ hstep
  obtain ⟨hnext, hchange⟩ := horder.step hstep
  exact ⟨hnext, haccounted.change hchange, hgiven.work hstep.1.work horder.solo⟩

/-- From a state on, with what has happened since. -/
theorem run_since (hrun : Run OneShotStep u ls s) (hu : u.pool.Solo) (hshots : u.pool.OneShots)
    {x : PQEntry (InnerTask α) Int TaskId} (hx : x ∈ u.pool.delayTasks.tasks) :
    InOrder ls s ∧ Since u.pool x ls s.pool := by
  refine hrun.invariant_history
    (I := fun hist s => InOrder hist s ∧ Since u.pool x hist s.pool)
    ?_ [] ⟨⟨hu, hshots, nofun⟩, since_refl hx⟩
  intro hist s l s' ⟨horder, hsince⟩ hstep
  obtain ⟨hnext, hchange⟩ := horder.step hstep
  exact ⟨hnext, hsince.change hchange⟩

/-- Of two tasks in the queue the one before the other is run first, or is taken off. -/
theorem runs_first (hrun : Run OneShotStep u ls s) (hu : u.pool.Solo) (hshots : u.pool.OneShots)
    {x y : PQEntry (InnerTask α) Int TaskId} (hx : x ∈ u.pool.delayTasks.tasks)
    (hy : y ∈ u.pool.delayTasks.tasks) (hxy : x.Before y)
    {before after : List (ExecutorPool.Label α)} {e : Nat} {task : InnerTask α}
    (hls : ls = before ++ .started e .delayTasks y.iterator task :: after) :
    (∃ d, Ran before d x.iterator x.matrix.task) ∨ .erased .delayTasks (some x) ∈ before := by
  subst hls
  obtain ⟨v, hbefore, hrest⟩ := hrun.append_inv
  obtain ⟨horder, hsince⟩ := run_since hbefore hu hshots hx
  cases hrest with
  | cons hstep _ =>
    obtain ⟨hnone, hahead, -, q, entry, rest, hget, htasks, hnumber, -⟩ := hstep.1.work.started_inv
    obtain ⟨-, rfl⟩ := horder.solo.queue_eq hget
    rcases hsince.kept with hin | ⟨d, hstarted⟩ | herased
    · exact absurd hin (hsince.not_mem hu horder.solo hy hxy htasks hnumber)
    · -- What has been started does not run any more when `y` is popped.
      rcases horder.runs d _ _ _ hstarted with hran | ⟨-, hheld⟩
      · exact .inl ⟨d, hran⟩
      · cases hheld.symm.trans (horder.solo.held_none hahead hnone d)
    · exact .inr herased

/-- `delayTasks_` is empty, and no executor runs a task. -/
def Settled (s : TaskPool α) : Prop :=
  s.pool.delayTasks.tasks = [] ∧ ∀ e job id, (s.pool.executors e).pc ≠ .running job id

/-- **Exactly once, in order.** In every run of a pool for one thread whose tasks are to run once:

* each number stands for one entry, what is started has been queued as the entry of its number, and
  what has been scheduled has been queued, unless its call is still to do so;
* no entry is started twice;
* when the queue is empty and nothing runs, each entry that `Remove` has not taken off has been
  started once, by an executor that has returned from it;
* of two entries in the queue the one that is due earlier, or has come earlier with the same time,
  has been run when the other is started, unless it has been taken off. -/
theorem exactly_once_in_order (hrun : Run OneShotStep (initial 1 min) ls s) :
    ((ls.filterMap Label.queuedKey).map Prod.fst).Nodup ∧
    (∀ key ∈ ls.filterMap Label.startedKey, key ∈ ls.filterMap Label.queuedKey) ∧
    (∀ task, .gave task ∈ ls → (∃ t, s.pool.carried t = some (.delayTasks, task)) ∨
      ∃ number, (number, task) ∈ ls.filterMap Label.queuedKey) ∧
    ((ls.filterMap Label.startedKey).map Prod.fst).Nodup ∧
    (s.Settled → ∀ key ∈ ls.filterMap Label.queuedKey,
      (∀ name entry, .erased name (some entry) ∈ ls → entry.key ≠ key) →
        ((ls.filterMap Label.startedKey).map Prod.fst).count key.1 = 1 ∧
          ∃ e, Ran ls e key.1 key.2) ∧
    (∀ ls₁ ls₂ u, ls = ls₁ ++ ls₂ → Run OneShotStep (initial 1 min) ls₁ u →
      Run OneShotStep u ls₂ s → ∀ x ∈ u.pool.delayTasks.tasks, ∀ y ∈ u.pool.delayTasks.tasks,
        x.Before y → ∀ before after e task,
          ls₂ = before ++ .started e .delayTasks y.iterator task :: after →
            (∃ d, Ran before d x.iterator x.matrix.task) ∨
              .erased .delayTasks (some x) ∈ before) := by
  obtain ⟨horder, haccounted, hgiven⟩ := run_inOrder hrun
  have hnumbers : ((ls.filterMap Label.queuedKey).map Prod.fst).Nodup := by
    rw [haccounted.numbers]
    exact List.nodup_range
  have honce : ((ls.filterMap Label.startedKey).map Prod.fst).Nodup := by
    have hgone := ((haccounted.all.map Prod.fst).nodup_iff.mp hnumbers)
    rw [List.map_append] at hgone
    exact hgone.of_append_left.sublist ((startedKey_sublist ls).map _)
  refine ⟨hnumbers, ?_, ?_, honce, ?_, ?_⟩
  · intro key hkey
    refine haccounted.all.mem_iff.mpr (List.mem_append_left _ ?_)
    exact (startedKey_sublist ls).subset hkey
  · intro task hgave
    rcases hgiven task hgave with hcarry | ⟨number, hqueued⟩
    · exact .inl hcarry
    · exact .inr ⟨number, List.mem_filterMap.mpr ⟨_, hqueued, rfl⟩⟩
  · intro ⟨htasks, hruns⟩ key hkey hkept
    have hgone := haccounted.all.mem_iff.mp hkey
    rw [htasks, List.map_nil, List.append_nil] at hgone
    obtain ⟨e, name, hstarted⟩ : ∃ e name, .started e name key.1 key.2 ∈ ls := by
      obtain ⟨l, hl, heq⟩ := List.mem_filterMap.mp hgone
      rcases Label.goneKey_eq heq with ⟨e, name, rfl⟩ | ⟨name, entry, rfl, hentry⟩
      · exact ⟨e, name, hl⟩
      · exact absurd hentry (hkept name entry hl)
    constructor
    · refine List.count_eq_one_of_mem honce (List.mem_map.mpr ⟨key, ?_, rfl⟩)
      exact List.mem_filterMap.mpr ⟨_, hstarted, rfl⟩
    · rcases horder.runs e name _ _ hstarted with hran | ⟨-, hheld⟩
      · exact ⟨e, hran⟩
      · exact absurd (pc_of_held hheld) (hruns e _ _)
  · intro ls₁ ls₂ u _ hrun₁ hrun₂ x hx y hy hxy before after e task hls
    obtain ⟨hu, -⟩ := run_inOrder hrun₁
    exact runs_first hrun₂ hu.solo hu.shots hx hy hxy hls

/-- The first of two tasks that are scheduled, due at time 1. -/
def firstScheduled : InnerTask Unit := ⟨.user (), 0, 1, 1⟩

/-- The second, due at once. -/
def secondScheduled : InnerTask Unit := ⟨.user (), 0, 1, 2⟩

/-- Two clients have scheduled a task each, and an executor runs both. -/
theorem run_both :
    ∃ u s : TaskPool Unit,
      Run Step (initial 1 0) [.gave firstScheduled, .queued .delayTasks 0 firstScheduled,
        .gave secondScheduled, .queued .delayTasks 1 secondScheduled] u ∧
      Run Step u [.other, .other, .other, .other, .other, .other, .other, .other, .other,
        .started 0 .delayTasks 1 secondScheduled, .ran 0 .delayTasks (.user ()) 2,
        .finished 0 .delayTasks 2, .other, .other, .started 0 .delayTasks 0 firstScheduled,
        .ran 0 .delayTasks (.user ()) 1] s ∧
      u.pool.delayTasks.tasks =
        [⟨0, ⟨secondScheduled, 2⟩, 1⟩, ⟨1, ⟨firstScheduled, 1⟩, 0⟩] ∧ s.Settled := by
  refine ⟨_, _,
    .cons (.of_pool (.schedule (t := .client 0) () 1 0 1 rfl trivial) rfl
      (work_schedule (placed_initial 1 0) () 1 0 1 rfl trivial))
    (.cons (.of_pool (.schedulePush (t := .client 0) rfl) rfl (work_schedulePush rfl))
    (.cons (.of_pool (.schedule (t := .client 1) () 0 0 1 rfl trivial) rfl
      (work_schedule (((placed_initial 1 0).step
        (.schedule (t := .client 0) () 1 0 1 rfl trivial)).step
          (.schedulePush (t := .client 0) rfl)) () 0 0 1 rfl trivial))
    (.cons (.of_pool (.schedulePush (t := .client 1) rfl) rfl (work_schedulePush rfl)) .nil))),
    .cons (.of_pool (.scheduleLock (t := .client 0) rfl rfl) rfl (.call rfl rfl rfl rfl rfl rfl))
    (.cons (.of_pool (.scheduleGet (t := .client 0) rfl rfl rfl) rfl
      (.call rfl rfl rfl rfl rfl rfl))
    (.cons (.of_pool (.scheduleBind (t := .client 0) (e := 0) rfl rfl) rfl
      (.quiet rfl rfl (funext (carried_update rfl)) (funext (held_update rfl))))
    (.cons (.of_pool (.scheduleUnlock (t := .client 0) rfl) rfl (.call rfl rfl rfl rfl rfl rfl))
    (.cons (.of_pool (.scheduleLock (t := .client 1) rfl rfl) rfl (.call rfl rfl rfl rfl rfl rfl))
    (.cons (.of_pool (.schedulerThere (t := .client 1) rfl rfl) rfl
      (.call rfl rfl rfl rfl rfl rfl))
    (.cons (.of_pool (.scheduleUnlock (t := .client 1) rfl) rfl (.call rfl rfl rfl rfl rfl rfl))
    (.cons (.of_pool (.wake (e := 0) (.inl rfl) rfl) rfl (.executor rfl rfl rfl rfl rfl))
    (.cons (.of_pool (.more (e := 0) rfl rfl rfl Nat.two_pos) rfl
      (.executor rfl rfl rfl rfl rfl))
    (.cons (.of_pool (.pop (e := 0) rfl rfl rfl rfl) rfl (work_pop rfl rfl rfl rfl rfl))
    (.cons (.of_pool (.ran (e := 0) rfl nofun rfl) rfl (work_ran rfl rfl nofun rfl))
    (.cons (.of_pool (.finish (e := 0) rfl rfl rfl) rfl (work_finish rfl rfl rfl))
    (.cons (.of_pool (.more (e := 0) rfl rfl rfl Nat.one_pos) rfl
      (.executor rfl rfl rfl rfl rfl))
    (.cons (.of_pool (.tick (show (0 : Int) ≤ 1 by decide)) rfl (.quiet rfl rfl rfl rfl))
    (.cons (.of_pool (.pop (e := 0) rfl rfl rfl rfl) rfl (work_pop rfl rfl rfl rfl rfl))
    (.cons (.of_pool (.ran (e := 0) rfl nofun rfl) rfl (work_ran rfl rfl nofun rfl))
      .nil))))))))))))))), rfl, rfl, ?_⟩
  intro e job id hpc
  cases e with
  | zero =>
      change Executor.Pc.finishing 1 = _ at hpc
      cases hpc
  | succ e =>
      change Executor.Pc.waiting = _ at hpc
      cases hpc

/-- Both tasks are queued before one is started, and both are run. The second comes first. -/
theorem exactly_once_in_order_two :
    ∃ (ls before after : List (ExecutorPool.Label Unit)) (u s : TaskPool Unit),
      Run OneShotStep (initial 1 0) ls u ∧
      Run OneShotStep u (before ++ .started 0 .delayTasks 0 firstScheduled :: after) s ∧
      s.Settled ∧ (∀ number < 2, (((ls ++ (before ++ .started 0 .delayTasks 0 firstScheduled ::
        after)).filterMap Label.startedKey).map Prod.fst).count number = 1) ∧
      ∃ d, Ran before d 1 secondScheduled := by
  obtain ⟨u, s, hqueued, hrun, htasks, hsettled⟩ := run_both
  have hqueued' : Run OneShotStep (initial 1 0) _ u :=
    hqueued.guard (by simp [Label.OneShot, InnerTask.OneShot, firstScheduled, secondScheduled])
  have hrun' : Run OneShotStep u _ s := hrun.guard (by simp [Label.OneShot])
  obtain ⟨-, -, -, -, honce, horder⟩ := exactly_once_in_order (hqueued'.append hrun')
  have hfirst := honce hsettled (0, firstScheduled) (by simp [Label.queuedKey]) (by simp)
  have hsecond := honce hsettled (1, secondScheduled) (by simp [Label.queuedKey]) (by simp)
  have hran := horder _ _ u rfl hqueued' hrun' ⟨0, ⟨secondScheduled, 2⟩, 1⟩ (by simp [htasks])
    ⟨1, ⟨firstScheduled, 1⟩, 0⟩ (by simp [htasks]) (.inl (by decide))
    [.other, .other, .other, .other, .other, .other, .other, .other, .other,
      .started 0 .delayTasks 1 secondScheduled, .ran 0 .delayTasks (.user ()) 2,
      .finished 0 .delayTasks 2, .other, .other] [.ran 0 .delayTasks (.user ()) 1] 0 firstScheduled
    rfl
  refine ⟨_, _, _, u, s, hqueued', hrun', hsettled, ?_, hran.resolve_right (by simp)⟩
  intro number hnumber
  obtain rfl | rfl : number = 0 ∨ number = 1 := by omega
  · exact hfirst.1
  · exact hsecond.1

end TaskPool

end NativePreferences
