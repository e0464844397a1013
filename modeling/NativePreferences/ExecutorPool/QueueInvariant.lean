import Mathlib.Data.Multiset.AddSub
import NativePreferences.ExecutorPool.TaskIds

/-!
# NativePreferences.ExecutorPool.QueueInvariant

**A queue whose ids are used once at a time.** Where `Push` gets an id that is neither queued nor
running, every id is `Single` and the three maps of `priority_queue.h` say the same of it
(`Consistent`): an index leads to the entry of its id, each entry has its index, and no id is queued
twice or queued and running.

The matrices that are queued or running are a multiset (`held`). What each function does to it is
said with one matrix split off, `q.held = matrix ::ₘ rest`, and since no other matrix has its id, to
change this one is to change all of that id (`map_updated`).
-/

namespace NativePreferences

open Lib

namespace PriorityQueue

variable {Tsk Tme Tid : Type}

/-- What is queued, and what runs. -/
def held (q : PriorityQueue Tsk Tme Tid) : Multiset (PQMatrix Tsk Tid) :=
  (q.tasks.map PQEntry.matrix : List _) + q.running.entries.map Sigma.snd

/-- An entry is split off. -/
theorem held_queued {q q' : PriorityQueue Tsk Tme Tid} {entry : PQEntry Tsk Tme Tid}
    (htasks : q.tasks.Perm (entry :: q'.tasks)) (hrunning : q'.running = q.running) :
    q.held = entry.matrix ::ₘ q'.held := by
  have hmap : (↑(q.tasks.map PQEntry.matrix) : Multiset (PQMatrix Tsk Tid)) =
      entry.matrix ::ₘ ↑(q'.tasks.map PQEntry.matrix) :=
    Multiset.coe_eq_coe.mpr (htasks.map PQEntry.matrix)
  rw [held, held, hmap, hrunning, Multiset.cons_add]

theorem held_clean (q : PriorityQueue Tsk Tme Tid) :
    q.clean.held = q.running.entries.map Sigma.snd :=
  zero_add _

variable [DecidableEq Tid]

/-- What an updater makes of the task with an id. -/
def updated (updater : Tsk → (Bool × Tme) × Tsk) (id : Tid) (matrix : PQMatrix Tsk Tid) :
    PQMatrix Tsk Tid :=
  if matrix.id = id then { matrix with task := (updater matrix.task).2 } else matrix

/-! ### Multisets of matrices -/

section

variable {running : Finmap (fun _ : Tid => PQMatrix Tsk Tid)} {id : Tid} {matrix : PQMatrix Tsk Tid}
variable {held rest : Multiset (PQMatrix Tsk Tid)}

theorem erase_insert (running : Finmap (fun _ : Tid => PQMatrix Tsk Tid)) (id : Tid)
    (matrix : PQMatrix Tsk Tid) : (running.insert id matrix).erase id = running.erase id := by
  refine Finmap.ext_lookup ?_
  intro id'
  by_cases heq : id' = id
  · rw [heq, Finmap.lookup_erase, Finmap.lookup_erase]
  · rw [Finmap.lookup_erase_ne heq, Finmap.lookup_erase_ne heq, Finmap.lookup_insert_of_ne _ heq]

theorem erase_of_not_mem (h : id ∉ running) : running.erase id = running := by
  refine Finmap.ext_lookup ?_
  intro id'
  by_cases heq : id' = id
  · rw [heq, Finmap.lookup_erase, Finmap.lookup_eq_none.mpr h]
  · rw [Finmap.lookup_erase_ne heq]

theorem entries_of_lookup (h : running.lookup id = some matrix) :
    running.entries.map Sigma.snd = matrix ::ₘ (running.erase id).entries.map Sigma.snd := by
  have hinsert : (running.erase id).insert id matrix = running := by
    refine Finmap.ext_lookup ?_
    intro id'
    by_cases heq : id' = id
    · rw [heq, h, Finmap.lookup_insert]
    · rw [Finmap.lookup_insert_of_ne _ heq, Finmap.lookup_erase_ne heq]
  have hentries : ((running.erase id).insert id matrix).entries =
      ⟨id, matrix⟩ ::ₘ (running.erase id).entries :=
    Finmap.entries_insert_of_notMem Finmap.notMem_erase_self
  rw [hinsert] at hentries
  rw [hentries, Multiset.map_cons]

/-- No matrix has the id. -/
theorem map_updated_of_not_mem (h : id ∉ held.map PQMatrix.id)
    (updater : Tsk → (Bool × Tme) × Tsk) : held.map (updated updater id) = held := by
  conv_rhs => rw [← Multiset.map_id held]
  refine Multiset.map_congr rfl ?_
  intro other hother
  refine if_neg ?_
  rintro rfl
  exact h (Multiset.mem_map_of_mem _ hother)

/-- One matrix has the id. -/
theorem map_updated (hnodup : (held.map PQMatrix.id).Nodup) (hheld : held = matrix ::ₘ rest)
    (hid : matrix.id = id) (updater : Tsk → (Bool × Tme) × Tsk) :
    held.map (updated updater id) = { matrix with task := (updater matrix.task).2 } ::ₘ rest := by
  rw [hheld, Multiset.map_cons, Multiset.nodup_cons, hid] at hnodup
  rw [hheld, Multiset.map_cons, map_updated_of_not_mem hnodup.1, updated, if_pos hid]

end

variable {q q' : PriorityQueue Tsk Tme Tid} {id : Tid} {matrix : PQMatrix Tsk Tid}

/-- A matrix that runs is split off. -/
theorem held_running (hlookup : q.running.lookup id = some matrix) (htasks : q'.tasks = q.tasks)
    (hrunning : q'.running = q.running.erase id) : q.held = matrix ::ₘ q'.held := by
  rw [held, held, entries_of_lookup hlookup, htasks, hrunning, Multiset.add_cons]

theorem single_clean (q : PriorityQueue Tsk Tme Tid) (id : Tid) : q.clean.Single id :=
  ⟨fun _ he => absurd he List.not_mem_nil, fun _ _ he => absurd he List.not_mem_nil⟩

/-! ### Consistent queues -/

variable [LinearOrder Tme]

/-- The maps of the queue agree. -/
structure Consistent (q : PriorityQueue Tsk Tme Tid) : Prop where
  wellFormed : q.WellFormed
  single : ∀ id, q.Single id

theorem consistent_empty : (empty : PriorityQueue Tsk Tme Tid).Consistent :=
  ⟨wellFormed_empty, fun id => (lacks_empty id).single⟩

/-- The ids of what runs are the keys of `running_`. -/
theorem WellFormed.running_ids (h : q.WellFormed) :
    (q.running.entries.map Sigma.snd).map PQMatrix.id = q.running.entries.keys := by
  rw [Multiset.map_map]
  refine Multiset.map_congr rfl ?_
  intro x hx
  exact h.running x.1 x.2 (Finmap.lookup_eq_some_iff.mpr hx)

theorem WellFormed.mem_ids (h : q.WellFormed) : id ∈ q.held.map PQMatrix.id ↔
    (∃ e ∈ q.tasks, e.matrix.id = id) ∨ id ∈ q.running := by
  rw [held, Multiset.map_add, Multiset.map_coe, List.map_map, h.running_ids, Multiset.mem_add,
    Multiset.mem_coe, List.mem_map]
  rfl

namespace Consistent

/-- An index leads to the entry of its id, and the entry has no other index. -/
theorem indexes_iff (h : q.Consistent) {index : Nat} : q.indexes.lookup id = some index ↔
    ∃ e ∈ q.tasks, e.iterator = index ∧ e.matrix.id = id := by
  constructor
  · exact h.wellFormed.indexed id index
  · intro ⟨e, he, hnumber, hid⟩
    rw [← hnumber]
    exact (h.single id).indexed e he hid

theorem ids_nodup (h : q.Consistent) : (q.tasks.map (fun e => e.matrix.id)).Nodup := by
  refine List.Nodup.map_on ?_ h.wellFormed.nodup.of_map
  intro x hx y hy heq
  exact (h.single y.matrix.id).eq_of_id h.wellFormed hx hy heq rfl

theorem disjoint (h : q.Consistent) {e : PQEntry Tsk Tme Tid} (he : e ∈ q.tasks) :
    e.matrix.id ∉ q.running :=
  fun hin => (h.single e.matrix.id).running hin e he rfl

/-- No id is queued or running twice. -/
theorem held_nodup (h : q.Consistent) : (q.held.map PQMatrix.id).Nodup := by
  rw [held, Multiset.map_add, Multiset.map_coe, List.map_map, h.wellFormed.running_ids,
    Multiset.nodup_add]
  refine ⟨h.ids_nodup, q.running.nodupKeys.nodup_keys, ?_⟩
  rw [Multiset.disjoint_left]
  intro id hid hin
  obtain ⟨e, he, rfl⟩ := List.mem_map.mp (Multiset.mem_coe.mp hid)
  exact h.disjoint he hin

end Consistent

/-! ### What the functions do to the matrices -/

theorem held_emplace (q : PriorityQueue Tsk Tme Tid) (tme : Tme) (matrix : PQMatrix Tsk Tid) :
    (q.emplace matrix.id tme matrix).held = matrix ::ₘ q.held := by
  let entry : PQEntry Tsk Tme Tid := ⟨tme, matrix, q.emplaced⟩
  have hperm : (q.emplace matrix.id tme matrix).tasks.Perm (entry :: q.tasks) :=
    insertTask_perm entry q.tasks
  exact held_queued hperm rfl

theorem held_push {valid : Tsk → Bool} {tsk : Tsk} (hvalid : valid tsk = true)
    (q : PriorityQueue Tsk Tme Tid) (id : Tid) (tme : Tme) :
    (q.push valid tsk id tme).2.held = ⟨tsk, id⟩ ::ₘ q.held := by
  rw [PriorityQueue.push, if_pos hvalid]
  exact held_emplace q tme ⟨tsk, id⟩

namespace Consistent

/-- An entry that is popped comes into `running_`. -/
theorem held_pop (h : q.Consistent) {invalidTsk tsk : Tsk} {now : Tme}
    (hpop : q.pop invalidTsk now = some (tsk, q')) : q'.held = q.held := by
  rcases pop_cases hpop with ⟨-, -, rfl⟩ | ⟨entry, rest, htasks, -, -⟩
  · rfl
  · have hnot := h.disjoint (htasks ▸ List.mem_cons_self : entry ∈ q.tasks)
    have hq := pop_inv hpop htasks
    rw [if_neg hnot] at hq
    let q₀ : PriorityQueue Tsk Tme Tid := { q with tasks := rest }
    have hqueued : q.held = entry.matrix ::ₘ q₀.held := held_queued (htasks ▸ .refl _) rfl
    have hrunning : q'.held = entry.matrix ::ₘ q₀.held := by
      rw [hq]
      refine held_running (Finmap.lookup_insert _) rfl ?_
      exact ((erase_insert ..).trans (erase_of_not_mem hnot)).symm
    rw [hqueued, hrunning]

/-- A task that has run is queued again, as the updater leaves it, or is gone. -/
theorem held_finish (h : q.Consistent) (updater : Tsk → (Bool × Tme) × Tsk)
    (hlookup : q.running.lookup id = some matrix) :
    ((updater matrix.task).1.1 = true →
      (q.finish updater id).held = q.held.map (updated updater id)) ∧
    ((updater matrix.task).1.1 = false → q.held = matrix ::ₘ (q.finish updater id).held) := by
  have hid : matrix.id = id := h.wellFormed.running id matrix hlookup
  rcases finish_inv updater q id with ⟨hnot, -⟩ | ⟨matrix', hlookup', hfinish⟩
  · exact absurd (Finmap.mem_of_lookup_eq_some hlookup) hnot
  · obtain rfl : matrix = matrix' := Option.some.inj (hlookup.symm.trans hlookup')
    let q₀ : PriorityQueue Tsk Tme Tid := { q with running := q.running.erase id }
    have hheld : q.held = matrix ::ₘ q₀.held := held_running hlookup rfl rfl
    constructor
    · intro hagain
      rw [map_updated h.held_nodup hheld hid, hfinish, if_pos hagain]
      subst hid
      exact held_emplace q₀ _ { matrix with task := (updater matrix.task).2 }
    · intro hlast
      rw [hfinish, hlast, if_neg Bool.false_ne_true]
      exact hheld

theorem held_remove (h : q.Consistent) {wait res : Bool}
    (hremove : q.remove id wait = some (res, q')) :
    (q.entryAt id = none ∧ q' = q) ∨
      ∃ entry, q.entryAt id = some entry ∧ q.held = entry.matrix ::ₘ q'.held := by
  rcases h.wellFormed.remove_cases hremove with hnone | ⟨entry, hentry, hperm, -, -⟩
  · exact .inl hnone
  · exact .inr ⟨entry, hentry, held_queued hperm (remove_running hremove)⟩

/-- An id that has no index is not queued. -/
theorem not_queued (h : q.Consistent) (hnone : q.entryAt id = none) {e : PQEntry Tsk Tme Tid}
    (he : e ∈ q.tasks) : e.matrix.id ≠ id := by
  intro hid
  have hindex := (h.single id).indexed e he hid
  rw [entryAt, hindex, Option.bind_some] at hnone
  exact absurd (beq_self_eq_true _) (List.find?_eq_none.mp hnone e he)

theorem held_update (h : q.Consistent) (updater : Tsk → (Bool × Tme) × Tsk) (id : Tid) :
    (q.update updater id).2.held = q.held.map (updated updater id) := by
  rcases update_cases updater q id with ⟨entry, hentry, -, hq⟩ | ⟨entry, hentry, -, hq⟩ |
    ⟨hnone, ⟨matrix, hlookup, hq⟩ | ⟨hnot, hq⟩⟩
  · obtain ⟨-, hmem⟩ := entryAt_some hentry
    let q₀ : PriorityQueue Tsk Tme Tid := { q with tasks := eraseTask entry.iterator q.tasks }
    have hheld : q.held = entry.matrix ::ₘ q₀.held :=
      held_queued (perm_eraseTask h.wellFormed.nodup hmem) rfl
    let entry' : PQEntry Tsk Tme Tid := ⟨(updater entry.matrix.task).1.2,
      { entry.matrix with task := (updater entry.matrix.task).2 }, q.emplaced⟩
    have hperm : (q.update updater id).2.tasks.Perm (entry' :: q₀.tasks) := by
      rw [hq]
      exact insertTask_perm entry' q₀.tasks
    rw [map_updated h.held_nodup hheld (h.wellFormed.entryAt_id hentry)]
    exact held_queued hperm (by rw [hq])
  · obtain ⟨-, hmem⟩ := entryAt_some hentry
    let q₀ : PriorityQueue Tsk Tme Tid := { q with tasks := eraseTask entry.iterator q.tasks }
    have herase : q.tasks.Perm (entry :: q₀.tasks) := perm_eraseTask h.wellFormed.nodup hmem
    have hheld : q.held = entry.matrix ::ₘ q₀.held := held_queued herase rfl
    let entry' := retask entry.iterator (updater entry.matrix.task).2 entry
    have hperm : (q.update updater id).2.tasks.Perm (entry' :: q₀.tasks) := by
      have hothers : q₀.tasks.map (retask entry.iterator (updater entry.matrix.task).2) =
          q₀.tasks := by
        conv_rhs => rw [← List.map_id q₀.tasks]
        refine List.map_congr_left ?_
        intro e he
        exact retask_of_ne (mem_eraseTask.mp he).2 _
      have hmap := herase.map (retask entry.iterator (updater entry.matrix.task).2)
      rw [List.map_cons, hothers] at hmap
      rw [hq]
      exact hmap
    have hentry' : entry'.matrix = { entry.matrix with task := (updater entry.matrix.task).2 } :=
      congrArg PQEntry.matrix (retask_self entry _)
    rw [map_updated h.held_nodup hheld (h.wellFormed.entryAt_id hentry), ← hentry']
    exact held_queued hperm (by rw [hq])
  · have hid : matrix.id = id := h.wellFormed.running id matrix hlookup
    let q₀ : PriorityQueue Tsk Tme Tid := { q with running := q.running.erase id }
    have hheld : q.held = matrix ::ₘ q₀.held := held_running hlookup rfl rfl
    rw [map_updated h.held_nodup hheld hid, hq]
    have herase : q₀.running = (q.running.insert id
        { matrix with task := (updater matrix.task).2 }).erase id := (erase_insert ..).symm
    exact held_running (Finmap.lookup_insert _) rfl herase
  · rw [hq, map_updated_of_not_mem]
    rw [h.wellFormed.mem_ids]
    intro hor
    obtain ⟨e, he, hid⟩ | hin := hor
    · exact h.not_queued hnone he hid
    · exact hnot hin

end Consistent

/-! ### Sequences of calls -/

/-- A call, with what `Pop` and `Remove` return. -/
inductive Operation (Tsk Tme Tid : Type)
  | push (tsk : Tsk) (id : Tid) (tme : Tme)
  /-- `Pop` that returns `tsk` at `now`. -/
  | pop (now : Tme) (tsk : Tsk)
  | update (id : Tid) (updater : Tsk → (Bool × Tme) × Tsk)
  | remove (id : Tid) (wait res : Bool)
  | finish (id : Tid)
  | clean

/-- A valid task is pushed with an id that is neither queued nor running. -/
def Allowed (valid : Tsk → Bool) (q : PriorityQueue Tsk Tme Tid) : Operation Tsk Tme Tid → Prop
  | .push tsk id _ => valid tsk = true ∧ q.Lacks id
  | _ => True

/-- A call on the queue that was made with `invalidTsk` and `updater`. -/
inductive Step (valid : Tsk → Bool) (invalidTsk : Tsk) (updater : Tsk → (Bool × Tme) × Tsk) :
    PriorityQueue Tsk Tme Tid → Operation Tsk Tme Tid → PriorityQueue Tsk Tme Tid → Prop
  | push (q : PriorityQueue Tsk Tme Tid) (tsk : Tsk) (id : Tid) (tme : Tme) :
      Step valid invalidTsk updater q (.push tsk id tme) (q.push valid tsk id tme).2
  | pop {q q' : PriorityQueue Tsk Tme Tid} {now : Tme} {tsk : Tsk}
      (h : q.pop invalidTsk now = some (tsk, q')) :
      Step valid invalidTsk updater q (.pop now tsk) q'
  | update (q : PriorityQueue Tsk Tme Tid) (id : Tid) (u : Tsk → (Bool × Tme) × Tsk) :
      Step valid invalidTsk updater q (.update id u) (q.update u id).2
  | remove {q q' : PriorityQueue Tsk Tme Tid} {id : Tid} {wait res : Bool}
      (h : q.remove id wait = some (res, q')) :
      Step valid invalidTsk updater q (.remove id wait res) q'
  | finish (q : PriorityQueue Tsk Tme Tid) (id : Tid) :
      Step valid invalidTsk updater q (.finish id) (q.finish updater id)
  | clean (q : PriorityQueue Tsk Tme Tid) : Step valid invalidTsk updater q .clean q.clean

variable {valid : Tsk → Bool} {invalidTsk : Tsk} {updater : Tsk → (Bool × Tme) × Tsk}
variable {op : Operation Tsk Tme Tid} {ops : List (Operation Tsk Tme Tid)}

theorem Consistent.step (h : q.Consistent) (hstep : Step valid invalidTsk updater q op q')
    (hallowed : Allowed valid q op) : q'.Consistent := by
  obtain ⟨hwell, hsingle⟩ := h
  cases hstep with
  | push tsk id tme =>
      obtain ⟨hvalid, hlacks⟩ := hallowed
      refine ⟨hwell.push valid tsk id tme, fun id' => ?_⟩
      rw [PriorityQueue.push, if_pos hvalid]
      exact (hsingle id').emplace hwell (fun heq => heq ▸ hlacks) tme
  | pop hpop =>
      rcases pop_cases hpop with ⟨-, -, rfl⟩ | ⟨entry, rest, htasks, -, -⟩
      · exact ⟨hwell, hsingle⟩
      · exact ⟨hwell.pop hpop htasks, fun id => (hsingle id).pop hwell hpop htasks⟩
  | update id u => exact ⟨hwell.update u id, fun id' => (hsingle id').update hwell u id⟩
  | remove hremove => exact ⟨hwell.remove hremove, fun id => (hsingle id).remove hremove⟩
  | finish id => exact ⟨hwell.finish _ id, fun id' => (hsingle id').finish hwell _ id⟩
  | clean => exact ⟨hwell.clean, single_clean q⟩

/-- `tasks_`, `indexes_` and `running_` agree: an index leads to the one entry of its id, every
entry has one, and no id is queued twice or queued and running. -/
structure Agrees (q : PriorityQueue Tsk Tme Tid) : Prop where
  inverse : ∀ id index, q.indexes.lookup id = some index ↔
    ∃ e ∈ q.tasks, e.iterator = index ∧ e.matrix.id = id
  iterators : (q.tasks.map PQEntry.iterator).Nodup
  unique : (q.tasks.map (fun e => e.matrix.id)).Nodup
  disjoint : ∀ e ∈ q.tasks, e.matrix.id ∉ q.running

theorem Consistent.agrees (h : q.Consistent) : q.Agrees where
  inverse _ _ := h.indexes_iff
  iterators := h.wellFormed.nodup
  unique := h.ids_nodup
  disjoint _ he := h.disjoint he

/-- A task is taken that is due, and none is due before it. It runs then. -/
def TakesDue (q q' : PriorityQueue Tsk Tme Tid) (now : Tme) (tsk : Tsk) : Prop :=
  ∃ entry : PQEntry Tsk Tme Tid, entry.matrix.task = tsk ∧ q.tasks = entry :: q'.tasks ∧
    entry.time ≤ now ∧ (∀ other ∈ q.tasks, entry.time ≤ other.time) ∧
      q'.running = q.running.insert entry.matrix.id entry.matrix

theorem Consistent.takesDue (h : q.Consistent) {now : Tme} {tsk : Tsk}
    (hpop : q.pop invalidTsk now = some (tsk, q')) (hne : tsk ≠ invalidTsk) :
    TakesDue q q' now tsk := by
  rcases pop_cases hpop with ⟨-, heq, -⟩ | ⟨entry, rest, htasks, hdue, rfl⟩
  · exact absurd heq hne
  · have hq := pop_inv hpop htasks
    rw [if_neg (h.disjoint (htasks ▸ List.mem_cons_self))] at hq
    refine ⟨entry, rfl, ?_, hdue, ?_, ?_⟩
    · rw [hq, htasks]
    · have hsorted := h.wellFormed.sorted
      rw [htasks, List.pairwise_cons] at hsorted
      rw [htasks]
      intro other hother
      rcases List.mem_cons.mp hother with rfl | hother
      · exact le_refl _
      · rcases hsorted.1 other hother with hlt | ⟨heq, -⟩
        · exact hlt.le
        · exact heq.le
    · rw [hq]

/-- What becomes of the matrices that are queued or running. `Update` and a `Finish` that repeats
only let the updater change the task of their id. -/
def Accounts (updater : Tsk → (Bool × Tme) × Tsk) (q q' : PriorityQueue Tsk Tme Tid) :
    Operation Tsk Tme Tid → Prop
  | .push tsk id _ => q'.held = ⟨tsk, id⟩ ::ₘ q.held
  | .pop _ _ => q'.held = q.held
  | .update id u => q'.held = q.held.map (updated u id)
  | .remove id _ _ =>
      (∀ e ∈ q.tasks, e.matrix.id ≠ id) ∧ q'.held = q.held ∨
        ∃ e ∈ q.tasks, e.matrix.id = id ∧ q.held = e.matrix ::ₘ q'.held
  | .finish id =>
      match q.running.lookup id with
      | none => q'.held = q.held
      | some matrix =>
          if (updater matrix.task).1.1 then q'.held = q.held.map (updated updater id)
          else q.held = matrix ::ₘ q'.held
  | .clean => q'.held = q.running.entries.map Sigma.snd

theorem Consistent.accounts (h : q.Consistent) (hstep : Step valid invalidTsk updater q op q')
    (hallowed : Allowed valid q op) : Accounts updater q q' op := by
  cases hstep with
  | push tsk id tme => exact held_push hallowed.1 q id tme
  | pop hpop => exact h.held_pop hpop
  | update id u => exact h.held_update u id
  | remove hremove =>
      rcases h.held_remove hremove with ⟨hnone, rfl⟩ | ⟨entry, hentry, hheld⟩
      · exact .inl ⟨fun e he => h.not_queued hnone he, rfl⟩
      · exact .inr ⟨entry, (entryAt_some hentry).2, h.wellFormed.entryAt_id hentry, hheld⟩
  | finish id =>
      rw [Accounts]
      split
      · next hnone =>
        rcases finish_inv updater q id with ⟨-, hsame⟩ | ⟨matrix, hlookup, -⟩
        · rw [hsame]
        · cases hnone.symm.trans hlookup
      · next matrix hlookup =>
        obtain ⟨hagain, hlast⟩ := h.held_finish updater hlookup
        split
        · next hrepeat => exact hagain hrepeat
        · next hrepeat => exact hlast (Bool.eq_false_iff.mpr hrepeat)
  | clean => exact held_clean q

/-- **The representation of a queue.** As long as ids are pushed that are neither queued nor
running, the maps agree, `Pop` takes a task that is due, and no task is lost or duplicated. -/
theorem representation (hinvalid : valid invalidTsk = false)
    (hrun : Run (guarded (Step valid invalidTsk updater) (Allowed valid)) empty ops q) :
    q.Agrees ∧ ∀ op q', Step valid invalidTsk updater q op q' → Allowed valid q op →
      (∀ now tsk, op = .pop now tsk → valid tsk = true → TakesDue q q' now tsk) ∧
        Accounts updater q q' op := by
  have h : q.Consistent :=
    hrun.invariant (fun _ _ _ h hstep => h.step hstep.1 hstep.2) consistent_empty
  refine ⟨h.agrees, ?_⟩
  intro op q' hstep hallowed
  refine ⟨?_, h.accounts hstep hallowed⟩
  rintro now tsk rfl hvalid
  cases hstep with
  | pop hpop =>
      refine h.takesDue hpop ?_
      rintro rfl
      cases hinvalid.symm.trans hvalid

/-- A task is pushed, and popped when it is due. -/
theorem representation_push :
    ∃ q q' : PriorityQueue Nat Nat Nat,
      Run (guarded (Step (· != 0) 0 (fun tsk => ((decide (1 < tsk), 5), tsk - 1)))
        (Allowed (· != 0))) empty [.push 2 7 3] q ∧
      q.pop 0 4 = some (2, q') ∧ q.Agrees ∧ TakesDue q q' 4 2 ∧ q'.held = q.held := by
  have hrun : Run (guarded (Step (· != 0) 0 (fun tsk => ((decide (1 < tsk), 5), tsk - 1)))
      (Allowed (· != 0))) (empty : PriorityQueue Nat Nat Nat) [.push 2 7 3] _ :=
    .cons ⟨.push _ 2 7 3, rfl, lacks_empty 7⟩ .nil
  obtain ⟨hagrees, hnext⟩ := representation rfl hrun
  obtain ⟨htakes, haccounts⟩ := hnext (.pop 4 2) _ (.pop rfl) trivial
  exact ⟨_, _, hrun, rfl, hagrees, htakes 4 2 rfl rfl, haccounts⟩

end PriorityQueue

end NativePreferences
