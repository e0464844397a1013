import NativePreferences.ExecutorPool.Pool
import NativePreferences.Lib.LinkedLists
import NativePreferences.Lib.Transition

/-!
# NativePreferences.ExecutorPool.PoolNodes

**The nodes of a pool** (`pool.h`). `Pool` has two lists; here are the nodes they are made of, with
every read and write through a pointer. A pointer that leads nowhere has no node, and then the
function has no result. `Release` and `Idle` search a list in a loop, which may take so many rounds.

The lists have their nodes at `idles` and `busys` (`Represents`). What a call returns and where the
nodes are after it is said in terms of these two (`get_cases`, `release_cases`, `toIdle_cases`), and
everything else is derived from that. In particular the calls do to the lists what `Pool` says
(`get_lists`, `release_lists`, `toIdle_lists`).
-/

namespace NativePreferences

open Lib

/-- `Pool`. `heap` has the nodes that were made and not deleted. -/
structure NodePool (A D : Type) where
  capability : UInt32
  min : UInt32
  current : UInt32
  idle : Option A
  busy : Option A
  heap : Heap A D

namespace NodePool

variable {A D : Type}

/-- The constructor. -/
def initial (capability min : UInt32) : NodePool A D :=
  ⟨capability, min, 0, none, none, fun _ => none⟩

section

variable [DecidableEq A]

/-- `new Node()` at the address `fresh`, with `data` made for it. -/
def make (fresh : A) (data : D) (p : NodePool A D) : NodePool A D :=
  { p with
    current := p.current + 1
    idle := some fresh
    heap := Function.update p.heap fresh (some ⟨none, none, data⟩) }

/-- `cur` is put in front of `busy_`, in `Get`. -/
def linkBusy (heap : Heap A D) (busy : Option A) (cur : A) : Option (Heap A D) := do
  let heap ← heap.write cur (.setNext busy)
  match busy with
  | none => some heap
  | some head => do
      let node ← heap head
      let heap ← heap.write cur (.setPrev node.prev)
      heap.write head (.setPrev (some cur))

/-- `Get`, from `Node *cur = idle_` on. -/
def take (cur : A) (p : NodePool A D) : Option (Option D × NodePool A D) := do
  let node ← p.heap cur
  let idle := node.next
  let heap ← p.heap.writeAt idle (.setPrev none)
  let heap ← linkBusy heap p.busy cur
  let node ← heap cur
  some (some node.data, { p with idle, busy := some cur, heap })

/-- `Get`, where a node that is made gets the address `fresh` and `data`. -/
def get (isForce : Bool) (fresh : A) (data : D) (p : NodePool A D) :
    Option (Option D × NodePool A D) :=
  match p.idle with
  | some cur => p.take cur
  | none =>
      if !isForce && decide (p.capability ≤ p.current) then some (none, p)
      else (p.make fresh data).take fresh

/-- `cur->next->prev = cur->prev` and `cur->prev->next = cur->next`, in `Release` and `Idle`. -/
def unlink (heap : Heap A D) (cur : A) : Option (Heap A D) := do
  let node ← heap cur
  let heap ← heap.writeAt node.next (.setPrev node.prev)
  let node ← heap cur
  heap.writeAt node.prev (.setNext node.next)

/-- `Release`, where `cur` has the data. -/
def delete (cur : A) (p : NodePool A D) : Option (NodePool A D) := do
  let heap ← unlink p.heap cur
  let node ← heap cur
  some { p with
    idle := if p.idle = some cur then node.next else p.idle
    current := p.current - 1
    heap := heap.free cur }

/-- `cur` is put in front of `idle_`, in `Idle`. -/
def linkIdle (heap : Heap A D) (idle : Option A) (cur : A) : Option (Heap A D) := do
  let heap ← heap.write cur (.setPrev none)
  let heap ← heap.write cur (.setNext idle)
  heap.writeAt idle (.setPrev (some cur))

/-- `Idle`, where `cur` has the data. -/
def move (cur : A) (p : NodePool A D) : Option (NodePool A D) := do
  let node ← p.heap cur
  let busy := if p.busy = some cur then node.next else p.busy
  let heap ← unlink p.heap cur
  let heap ← linkIdle heap p.idle cur
  some { p with idle := some cur, busy, heap }

variable [DecidableEq D]

/-- `Release`. -/
def release (rounds : Nat) (data : D) (force : Bool) (p : NodePool A D) :
    Option (Bool × NodePool A D) :=
  if !force && decide (p.current ≤ p.min) then some (false, p)
  else
    match p.heap.find data rounds p.idle with
    | none => none
    | some none => some (false, p)
    | some (some cur) => (p.delete cur).map (fun p => (true, p))

/-- `Idle`. -/
def toIdle (rounds : Nat) (data : D) (p : NodePool A D) : Option (NodePool A D) :=
  match p.heap.find data rounds p.busy with
  | none => none
  | some none => some p
  | some (some cur) => p.move cur

end

/-! ### The checks of the count -/

theorem kept_iff {force : Bool} {a b : UInt32} :
    (!force && decide (a ≤ b)) = true ↔ force = false ∧ a ≤ b := by
  rw [Bool.and_eq_true, Bool.not_eq_true', decide_eq_true_iff]

theorem not_kept_iff {force : Bool} {a b : UInt32} :
    ¬ (!force && decide (a ≤ b)) = true ↔ force = true ∨ b < a := by
  rw [kept_iff, not_and_or, Bool.not_eq_false, UInt32.not_le]

/-! ### Lists with their nodes -/

/-- The lists have their nodes at `idles` and `busys`, and there are no others. -/
structure Represents (p : NodePool A D) (data : A → D) (idles busys : List A) : Prop where
  idle : Linked p.heap data p.idle idles
  busy : Linked p.heap data p.busy busys
  disjoint : ∀ a ∈ idles, a ∉ busys
  allocated : ∀ a, (p.heap a).isSome ↔ a ∈ idles ∨ a ∈ busys
  current : p.current = UInt32.ofNat (idles.length + busys.length)

theorem Represents.initial (capability min : UInt32) (data : A → D) :
    (NodePool.initial capability min).Represents data [] [] where
  idle := .nil _ data
  busy := .nil _ data
  disjoint _ ha := absurd ha List.not_mem_nil
  allocated a := by simp [NodePool.initial]
  current := rfl

variable [DecidableEq A]

section

variable {h : Heap A D} {data : A → D} {head next : Option A} {as us vs : List A} {cur : A}

theorem unlink_eq (hl : Linked h data head (us ++ cur :: vs)) :
    unlink h cur = some (h.join us.getLast? vs.head?) := by
  have hnode : h cur = some ⟨us.getLast?, vs.head?, data cur⟩ := hl.node us cur vs rfl
  have hnext : ∀ a, vs.head? = some a → (h a).isSome := by
    intro a ha
    exact hl.isSome (mem_of_next ha)
  have hprev : ∀ a, us.getLast? = some a →
      (h.adjust vs.head? (.setPrev us.getLast?) a).isSome := by
    intro a ha
    rw [Heap.isSome_adjust]
    exact hl.isSome (mem_of_prev ha)
  have hagain : h.adjust vs.head? (.setPrev us.getLast?) cur =
      some ⟨us.getLast?, vs.head?, data cur⟩ := by
    rw [Heap.adjust_of_ne hl.next_ne, hnode]
  exact Option.bind_eq_some_iff.mpr ⟨_, hnode, Option.bind_eq_some_iff.mpr
    ⟨_, Heap.writeAt_eq hnext _, Option.bind_eq_some_iff.mpr ⟨_, hagain, Heap.writeAt_eq hprev _⟩⟩⟩

theorem linkBusy_eq (hl : Linked h data head as) (hcur : cur ∉ as)
    (hnode : h cur = some ⟨none, next, data cur⟩) :
    linkBusy h head cur = some (h.push cur head) := by
  have hsome : (h cur).isSome := by rw [hnode]; rfl
  refine Option.bind_eq_some_iff.mpr ⟨_, Heap.write_eq hsome _, ?_⟩
  cases head with
  | none => rfl
  | some first =>
      obtain ⟨rest, rfl, hfirst⟩ := hl.head_node
      have hne : some cur ≠ some first := by
        intro heq
        exact hcur (Option.some.inj heq ▸ List.mem_cons_self)
      let h₁ := h.adjust (some cur) (.setNext (some first))
      have hcur₁ : h₁ cur = some ⟨none, some first, data cur⟩ :=
        (Heap.adjust_self ..).trans (congrArg (Option.map _) hnode)
      have hfirst₁ : h₁ first = some ⟨none, rest.head?, data first⟩ :=
        (Heap.adjust_of_ne hne).trans hfirst
      -- `busy_->prev` is null, and so is `cur->prev` already
      have hwrite : h₁.write cur (.setPrev none) = some h₁ := by
        rw [Heap.write_eq (by rw [hcur₁]; rfl), Heap.adjust_id]
        intro node hnode₁
        obtain rfl := Option.some.inj (hcur₁.symm.trans hnode₁)
        rfl
      have hlast : h₁.write first (.setPrev (some cur)) =
          some (h₁.adjust (some first) (.setPrev (some cur))) :=
        Heap.write_eq (by rw [hfirst₁]; rfl) _
      exact Option.bind_eq_some_iff.mpr ⟨_, hfirst₁, Option.bind_eq_some_iff.mpr
        ⟨_, hwrite, hlast⟩⟩

theorem linkIdle_eq (hl : Linked h data head as) (hsome : (h cur).isSome) :
    linkIdle h head cur = some ((h.adjust (some cur) (.setPrev none)).push cur head) := by
  have hsome₁ : (h.adjust (some cur) (.setPrev none) cur).isSome := by
    rw [Heap.isSome_adjust, hsome]
  have hfirst : ∀ a, head = some a →
      ((h.adjust (some cur) (.setPrev none)).adjust (some cur) (.setNext head) a).isSome := by
    intro a ha
    rw [Heap.isSome_adjust, Heap.isSome_adjust]
    exact hl.isSome (List.mem_of_mem_head? (hl.head_eq ▸ ha))
  exact Option.bind_eq_some_iff.mpr ⟨_, Heap.write_eq hsome _, Option.bind_eq_some_iff.mpr
    ⟨_, Heap.write_eq hsome₁ _, Heap.writeAt_eq hfirst _⟩⟩

end

variable {p p' : NodePool A D} {data : A → D} {rest idles busys us vs : List A} {cur fresh : A}

namespace Represents

theorem make (h : p.Represents data [] busys) (hfresh : p.heap fresh = none) (d : D) :
    (p.make fresh d).Represents (Function.update data fresh d) [fresh] busys := by
  have hnot : fresh ∉ busys := by
    intro hin
    have hsome := (h.allocated fresh).mpr (.inr hin)
    rw [hfresh] at hsome
    cases hsome
  have hne : ∀ a ∈ busys, a ≠ fresh := fun a ha heq => hnot (heq ▸ ha)
  constructor
  · refine Linked.singleton ?_
    rw [Function.update_self]
    exact Function.update_self ..
  · refine h.busy.congr ?_ ?_
    · intro a ha
      exact Function.update_of_ne (hne a ha) _ _
    · intro a ha
      exact Function.update_of_ne (hne a ha) _ _
  · intro a ha
    exact List.mem_singleton.mp ha ▸ hnot
  · intro a
    by_cases ha : a = fresh
    · subst ha
      simp [NodePool.make]
    · have hold := h.allocated a
      simpa [NodePool.make, ha] using hold
  · have hcurrent := h.current
    rw [List.length_nil, Nat.zero_add] at hcurrent
    rw [List.length_singleton, Nat.add_comm, UInt32.ofNat_add, ← hcurrent]
    rfl

/-- The head of `idle_` goes to the front of `busy_`. -/
theorem take (h : p.Represents data (cur :: rest) busys) : ∃ heap,
    p.take cur = some (some (data cur), { p with idle := rest.head?, busy := some cur, heap }) ∧
      Represents { p with idle := rest.head?, busy := some cur, heap } data rest
        (cur :: busys) := by
  have hl : Linked p.heap data p.idle ([] ++ cur :: rest) := h.idle
  have hnode : p.heap cur = some ⟨none, rest.head?, data cur⟩ := hl.node [] cur rest rfl
  obtain ⟨hcur, -⟩ := List.nodup_cons.mp h.idle.nodup
  have hcurbusy : cur ∉ busys := h.disjoint cur List.mem_cons_self
  have hdisjoint : ∀ a ∈ rest, a ∉ busys := fun a ha => h.disjoint a (List.mem_cons_of_mem _ ha)
  -- the next node becomes the head
  have hnext : ∀ a, rest.head? = some a → a ∈ rest := fun a ha => List.mem_of_mem_head? ha
  let h₁ := p.heap.adjust rest.head? (.setPrev none)
  have hidle₁ : Linked h₁ data rest.head? rest := hl.remove
  have hbusy₁ : Linked h₁ data p.busy busys :=
    h.busy.adjust (fun a ha => hdisjoint a (hnext a ha)) _
  have hnode₁ : h₁ cur = some ⟨none, rest.head?, data cur⟩ :=
    (Heap.adjust_of_ne hl.next_ne).trans hnode
  -- `cur` becomes the head of `busy_`
  let h₂ := h₁.push cur p.busy
  have hbusy₂ : Linked h₂ data (some cur) (cur :: busys) := hbusy₁.push hcurbusy hnode₁
  have hhead : ∀ a, p.busy = some a → a ∉ rest := by
    intro a ha hin
    exact hdisjoint a hin (List.mem_of_mem_head? (h.busy.head_eq ▸ ha))
  have hidle₂ : Linked h₂ data rest.head? rest := hidle₁.push_other hcur hhead
  refine ⟨h₂, ?_, hidle₂, hbusy₂, ?_, ?_, ?_⟩
  · have hwrite : p.heap.writeAt rest.head? (.setPrev none) = some h₁ :=
      Heap.writeAt_eq (fun a ha => h.idle.isSome (List.mem_cons_of_mem _ (hnext a ha))) _
    exact Option.bind_eq_some_iff.mpr ⟨_, hnode, Option.bind_eq_some_iff.mpr ⟨_, hwrite,
      Option.bind_eq_some_iff.mpr ⟨_, linkBusy_eq hbusy₁ hcurbusy hnode₁,
        Option.bind_eq_some_iff.mpr ⟨_, hbusy₂.node [] cur busys rfl, rfl⟩⟩⟩⟩
  · intro a ha hin
    rcases List.mem_cons.mp hin with rfl | hin
    · exact hcur ha
    · exact hdisjoint a ha hin
  · intro a
    have hold := h.allocated a
    simp only [h₂, h₁, Heap.isSome_push, Heap.isSome_adjust, hold, List.mem_cons]
    tauto
  · rw [List.length_cons, ← Nat.add_assoc, Nat.add_right_comm]
    exact h.current

/-- A node is taken off `idle_`. -/
theorem delete (h : p.Represents data (us ++ cur :: vs) busys) : ∃ heap,
    p.delete cur =
      some { p with idle := (us ++ vs).head?, current := p.current - 1, heap } ∧
    Represents { p with idle := (us ++ vs).head?, current := p.current - 1, heap } data (us ++ vs)
      busys := by
  have hl := h.idle
  have hmem : cur ∈ us ++ cur :: vs := List.mem_append_right us List.mem_cons_self
  have hcur : cur ∉ us ++ vs := hl.not_mem_others
  have hkept : us ++ vs ⊆ us ++ cur :: vs := ((List.sublist_cons_self cur vs).append_left us).subset
  let h₁ := p.heap.join us.getLast? vs.head?
  have hidle₁ : Linked h₁ data (us ++ vs).head? (us ++ vs) := hl.remove
  have hbusy₁ : Linked h₁ data p.busy busys := h.busy.remove_other h.disjoint
  refine ⟨h₁.free cur, ?_, hidle₁.free hcur, hbusy₁.free (h.disjoint cur hmem), ?_, ?_, ?_⟩
  · rw [← hl.head_remove]
    exact Option.bind_eq_some_iff.mpr ⟨_, unlink_eq hl, Option.bind_eq_some_iff.mpr
      ⟨_, hl.remove_self, rfl⟩⟩
  · intro a ha
    exact h.disjoint a (hkept ha)
  · intro a
    by_cases ha : a = cur
    · subst ha
      simp [Heap.free, hcur, h.disjoint a hmem]
    · have hold := h.allocated a
      simp only [h₁, Heap.free_of_ne ha, Heap.isSome_join, hold, List.mem_append,
        List.mem_cons, ha, false_or]
  · have hcurrent := h.current
    rw [List.perm_middle.length_eq, List.length_cons, Nat.add_right_comm, UInt32.ofNat_add]
      at hcurrent
    rw [hcurrent]
    exact UInt32.add_sub_cancel _ _

/-- A node of `busy_` goes to the front of `idle_`. -/
theorem move (h : p.Represents data idles (us ++ cur :: vs)) : ∃ heap,
    p.move cur = some { p with idle := some cur, busy := (us ++ vs).head?, heap } ∧
      Represents { p with idle := some cur, busy := (us ++ vs).head?, heap } data (cur :: idles)
        (us ++ vs) := by
  have hl := h.busy
  have hmem : cur ∈ us ++ cur :: vs := List.mem_append_right us List.mem_cons_self
  have hcur : cur ∉ us ++ vs := hl.not_mem_others
  have hkept : us ++ vs ⊆ us ++ cur :: vs := ((List.sublist_cons_self cur vs).append_left us).subset
  have hcuridle : cur ∉ idles := fun ha => h.disjoint cur ha hmem
  -- `cur` leaves `busy_`
  let h₁ := p.heap.join us.getLast? vs.head?
  have hbusy₁ : Linked h₁ data (us ++ vs).head? (us ++ vs) := hl.remove
  have hidle₁ : Linked h₁ data p.idle idles :=
    h.idle.remove_other (fun a ha hin => h.disjoint a hin ha)
  have hnode₁ : h₁ cur = some ⟨us.getLast?, vs.head?, data cur⟩ := hl.remove_self
  have hsome₁ : (h₁ cur).isSome := by rw [hnode₁]; rfl
  -- it becomes the head of `idle_`
  let h₂ := h₁.adjust (some cur) (.setPrev none)
  have hnode₂ : h₂ cur = some ⟨none, vs.head?, data cur⟩ :=
    (Heap.adjust_self ..).trans (congrArg (Option.map _) hnode₁)
  have hidle₂ : Linked h₂ data p.idle idles :=
    hidle₁.adjust (fun a ha => Option.some.inj ha ▸ hcuridle) _
  have hbusy₂ : Linked h₂ data (us ++ vs).head? (us ++ vs) :=
    hbusy₁.adjust (fun a ha => Option.some.inj ha ▸ hcur) _
  let h₃ := h₂.push cur p.idle
  have hidle₃ : Linked h₃ data (some cur) (cur :: idles) := hidle₂.push hcuridle hnode₂
  have hbusy₃ : Linked h₃ data (us ++ vs).head? (us ++ vs) := by
    refine hbusy₂.push_other hcur ?_
    intro a ha hin
    exact h.disjoint a (List.mem_of_mem_head? (h.idle.head_eq ▸ ha)) (hkept hin)
  refine ⟨h₃, ?_, hidle₃, hbusy₃, ?_, ?_, ?_⟩
  · rw [← hl.head_remove]
    exact Option.bind_eq_some_iff.mpr ⟨_, hl.node us cur vs rfl, Option.bind_eq_some_iff.mpr
      ⟨_, unlink_eq hl, Option.bind_eq_some_iff.mpr ⟨_, linkIdle_eq hidle₁ hsome₁, rfl⟩⟩⟩
  · intro a ha hin
    rcases List.mem_cons.mp ha with rfl | ha
    · exact hcur hin
    · exact h.disjoint a ha (hkept hin)
  · intro a
    have hold := h.allocated a
    simp only [h₃, h₂, h₁, Heap.isSome_push, Heap.isSome_adjust, Heap.isSome_join, hold,
      List.mem_append, List.mem_cons]
    tauto
  · have hcurrent := h.current
    rw [List.perm_middle.length_eq, List.length_cons, ← Nat.add_assoc, Nat.add_right_comm]
      at hcurrent
    exact hcurrent

/-! ### What the functions do -/

/-- `Get` takes the head of `idle_`. -/
theorem get_takes (h : p.Represents data (cur :: rest) busys) (isForce : Bool) (fresh : A) (d : D) :
    ∃ heap, p.get isForce fresh d =
        some (some (data cur), { p with idle := rest.head?, busy := some cur, heap }) ∧
      Represents { p with idle := rest.head?, busy := some cur, heap } data rest
        (cur :: busys) := by
  rw [get, show p.idle = some cur from h.idle.head_eq]
  exact h.take

/-- `Get` finds `idle_` empty, and there are enough nodes. -/
theorem get_refuses (h : p.Represents data [] busys) (hfull : p.capability ≤ p.current) (fresh : A)
    (d : D) : p.get false fresh d = some (none, p) := by
  rw [get, show p.idle = none from h.idle.head_eq]
  exact if_pos (kept_iff.mpr ⟨rfl, hfull⟩)

/-- `Get` makes a node. -/
theorem get_makes (h : p.Represents data [] busys) {isForce : Bool}
    (hroom : isForce = true ∨ p.current < p.capability) (hfresh : p.heap fresh = none) (d : D) :
    ∃ heap, p.get isForce fresh d = some (some d,
        { p with current := p.current + 1, idle := none, busy := some fresh, heap }) ∧
      Represents { p with current := p.current + 1, idle := none, busy := some fresh, heap }
        (Function.update data fresh d) [] (fresh :: busys) := by
  obtain ⟨heap, htake, hrep⟩ := (h.make hfresh d).take
  rw [Function.update_self] at htake
  rw [get, show p.idle = none from h.idle.head_eq]
  exact ⟨heap, (if_neg (not_kept_iff.mpr hroom)).trans htake, hrep⟩

/-- Every call of `Get` returns. -/
theorem get_returns (h : p.Represents data idles busys) (hfresh : p.heap fresh = none)
    (isForce : Bool) (d : D) : (p.get isForce fresh d).isSome := by
  cases idles with
  | cons cur rest =>
      obtain ⟨heap, hget, -⟩ := h.get_takes isForce fresh d
      rw [hget]
      rfl
  | nil =>
      by_cases hroom : isForce = true ∨ p.current < p.capability
      · obtain ⟨heap, hget, -⟩ := h.get_makes hroom hfresh d
        rw [hget]
        rfl
      · obtain ⟨hforce, hfull⟩ := not_or.mp hroom
        rw [Bool.eq_false_iff.mpr hforce, h.get_refuses (UInt32.not_lt.mp hfull)]
        rfl

/-- `Get` finds no node and may not make one, or takes the head of `idle_`, or makes a node. -/
theorem get_cases (h : p.Represents data idles busys) (hfresh : p.heap fresh = none)
    {isForce : Bool} {d : D} {res : Option D} (hget : p.get isForce fresh d = some (res, p')) :
    (res = none ∧ p' = p ∧ idles = [] ∧ isForce = false ∧ p.capability ≤ p.current) ∨
    (∃ cur rest heap, idles = cur :: rest ∧ res = some (data cur) ∧
      p' = { p with idle := rest.head?, busy := some cur, heap } ∧
      p'.Represents data rest (cur :: busys)) ∨
    (idles = [] ∧ (isForce = true ∨ p.current < p.capability) ∧ res = some d ∧ ∃ heap,
      p' = { p with current := p.current + 1, idle := none, busy := some fresh, heap } ∧
      p'.Represents (Function.update data fresh d) [] (fresh :: busys)) := by
  cases idles with
  | cons cur rest =>
      obtain ⟨heap, htakes, hrep⟩ := h.get_takes isForce fresh d
      obtain ⟨rfl, rfl⟩ := Prod.mk.inj (Option.some.inj (htakes.symm.trans hget))
      exact .inr (.inl ⟨cur, rest, heap, rfl, rfl, rfl, hrep⟩)
  | nil =>
      by_cases hroom : isForce = true ∨ p.current < p.capability
      · obtain ⟨heap, hmakes, hrep⟩ := h.get_makes hroom hfresh d
        obtain ⟨rfl, rfl⟩ := Prod.mk.inj (Option.some.inj (hmakes.symm.trans hget))
        exact .inr (.inr ⟨rfl, hroom, rfl, heap, rfl, hrep⟩)
      · obtain ⟨hforce, hfull⟩ := not_or.mp hroom
        obtain rfl := Bool.eq_false_iff.mpr hforce
        have hrefuses := h.get_refuses (UInt32.not_lt.mp hfull) fresh d
        obtain ⟨rfl, rfl⟩ := Prod.mk.inj (Option.some.inj (hrefuses.symm.trans hget))
        exact .inl ⟨rfl, rfl, rfl, rfl, UInt32.not_lt.mp hfull⟩

variable [DecidableEq D] {rounds : Nat} {d : D}

/-- Every call of `Release` returns. -/
theorem release_returns (h : p.Represents data idles busys) (hrounds : idles.length < rounds)
    (d : D) (force : Bool) : (p.release rounds d force).isSome := by
  rw [release]
  split
  · rfl
  · rw [h.idle.find d hrounds]
    cases hfind : idles.find? (fun a => data a = d) with
    | none => rfl
    | some cur =>
        obtain ⟨-, us, vs, rfl, -⟩ := List.find?_eq_some_iff_append.mp hfind
        obtain ⟨heap, hdelete, -⟩ := h.delete
        simp only [hdelete]
        rfl

/-- Every call of `Idle` returns. -/
theorem toIdle_returns (h : p.Represents data idles busys) (hrounds : busys.length < rounds)
    (d : D) : (p.toIdle rounds d).isSome := by
  rw [toIdle, h.busy.find d hrounds]
  cases hfind : busys.find? (fun a => data a = d) with
  | none => rfl
  | some cur =>
      obtain ⟨-, us, vs, rfl, -⟩ := List.find?_eq_some_iff_append.mp hfind
      obtain ⟨heap, hmove, -⟩ := h.move
      simp only [hmove]
      rfl

/-- `Release` does nothing, or it deletes the first node of `idle_` with the data. -/
theorem release_cases (h : p.Represents data idles busys) {force res : Bool}
    (hrelease : p.release rounds d force = some (res, p')) :
    (res = false ∧ p' = p ∧
      (force = false ∧ p.current ≤ p.min ∨ ∀ a ∈ idles, data a ≠ d)) ∨
    (res = true ∧ (force = true ∨ p.min < p.current) ∧ ∃ us cur vs heap,
      idles = us ++ cur :: vs ∧ data cur = d ∧ (∀ a ∈ us, data a ≠ d) ∧
      p' = { p with idle := (us ++ vs).head?, current := p.current - 1, heap } ∧
      p'.Represents data (us ++ vs) busys) := by
  rw [release] at hrelease
  split at hrelease
  · next hkept =>
      obtain ⟨rfl, rfl⟩ := Prod.mk.inj (Option.some.inj hrelease)
      exact .inl ⟨rfl, rfl, .inl (kept_iff.mp hkept)⟩
  · next hkept =>
      have hallowed : force = true ∨ p.min < p.current := not_kept_iff.mp hkept
      cases hfind : p.heap.find d rounds p.idle with
      | none =>
          rw [hfind] at hrelease
          cases hrelease
      | some found =>
          have hfirst := h.idle.find_eq hfind
          rw [hfind] at hrelease
          cases found with
          | none =>
              obtain ⟨rfl, rfl⟩ := Prod.mk.inj (Option.some.inj hrelease)
              refine .inl ⟨rfl, rfl, .inr ?_⟩
              intro a ha
              simpa using List.find?_eq_none.mp hfirst a ha
          | some cur =>
              obtain ⟨hd, us, vs, rfl, hus⟩ := List.find?_eq_some_iff_append.mp hfirst
              obtain ⟨heap, hdelete, hrep⟩ := h.delete
              simp only [hdelete, Option.map_some] at hrelease
              obtain ⟨rfl, rfl⟩ := Prod.mk.inj (Option.some.inj hrelease)
              refine .inr ⟨rfl, hallowed, us, cur, vs, heap, rfl, by simpa using hd, ?_, rfl, hrep⟩
              intro a ha
              simpa using hus a ha

/-- `Idle` does nothing, or it moves the first node of `busy_` with the data. -/
theorem toIdle_cases (h : p.Represents data idles busys) (hidle : p.toIdle rounds d = some p') :
    (p' = p ∧ ∀ a ∈ busys, data a ≠ d) ∨
    ∃ us cur vs heap, busys = us ++ cur :: vs ∧ data cur = d ∧ (∀ a ∈ us, data a ≠ d) ∧
      p' = { p with idle := some cur, busy := (us ++ vs).head?, heap } ∧
      p'.Represents data (cur :: idles) (us ++ vs) := by
  rw [toIdle] at hidle
  cases hfind : p.heap.find d rounds p.busy with
  | none =>
      rw [hfind] at hidle
      cases hidle
  | some found =>
      have hfirst := h.busy.find_eq hfind
      rw [hfind] at hidle
      cases found with
      | none =>
          obtain rfl := Option.some.inj hidle
          refine .inl ⟨rfl, ?_⟩
          intro a ha
          simpa using List.find?_eq_none.mp hfirst a ha
      | some cur =>
          obtain ⟨hd, us, vs, rfl, hus⟩ := List.find?_eq_some_iff_append.mp hfirst
          obtain ⟨heap, hmove, hrep⟩ := h.move
          simp only [hmove] at hidle
          obtain rfl := Option.some.inj hidle
          refine .inr ⟨us, cur, vs, heap, rfl, by simpa using hd, ?_, rfl, hrep⟩
          intro a ha
          simpa using hus a ha

end Represents

/-! ### The pool of lists -/

/-- The lists of executors that the nodes make up. -/
def lists (p : NodePool A Nat) (data : A → Nat) (idles busys : List A) : Pool where
  capability := p.capability
  min := p.min
  current := p.current
  idle := idles.map data
  busy := busys.map data

/-- The first node with its data is taken out. -/
theorem erase_lists {B : Type} {data : B → Nat} {us vs : List B} {cur : B}
    (hus : ∀ a ∈ us, data a ≠ data cur) :
    ((us ++ cur :: vs).map data).erase (data cur) = (us ++ vs).map data := by
  have hnot : data cur ∉ us.map data := by
    intro hin
    obtain ⟨a, ha, heq⟩ := List.mem_map.mp hin
    exact hus a ha heq
  rw [List.map_append, List.map_cons, List.erase_append_right _ hnot, List.erase_cons_head,
    List.map_append]

namespace Represents

variable {p p' : NodePool A Nat} {data : A → Nat} {rounds d : Nat}

/-- `Get` on the nodes is `Get` on the lists. -/
theorem get_lists (h : p.Represents data idles busys) (hfresh : p.heap fresh = none)
    {isForce : Bool} {res : Option Nat} (hget : p.get isForce fresh d = some (res, p')) :
    ∃ data' idles' busys', p'.Represents data' idles' busys' ∧
      (p.lists data idles busys).get isForce d = (res, p'.lists data' idles' busys') := by
  rcases h.get_cases hfresh hget with ⟨rfl, rfl, rfl, rfl, hfull⟩ |
    ⟨cur, rest, heap, rfl, rfl, rfl, hrep⟩ | ⟨rfl, hroom, rfl, heap, rfl, hrep⟩
  · refine ⟨data, [], busys, h, ?_⟩
    exact if_pos (kept_iff.mpr ⟨rfl, hfull⟩)
  · exact ⟨data, rest, cur :: busys, hrep, rfl⟩
  · refine ⟨_, [], fresh :: busys, hrep, ?_⟩
    have hsame : busys.map (Function.update data fresh d) = busys.map data := by
      refine List.map_congr_left ?_
      intro a ha
      refine Function.update_of_ne ?_ _ _
      rintro rfl
      have hsome := (h.allocated a).mpr (.inr ha)
      rw [hfresh] at hsome
      cases hsome
    refine (if_neg (not_kept_iff.mpr hroom)).trans ?_
    rw [lists, lists, List.map_cons, hsame, Function.update_self]
    rfl

/-- `Release` on the nodes is `Release` on the lists. -/
theorem release_lists (h : p.Represents data idles busys) {force res : Bool}
    (hrelease : p.release rounds d force = some (res, p')) :
    ∃ idles', p'.Represents data idles' busys ∧
      (p.lists data idles busys).release d force = (res, p'.lists data idles' busys) := by
  rcases h.release_cases hrelease with ⟨rfl, rfl, hkept⟩ |
    ⟨rfl, hallowed, us, cur, vs, heap, rfl, rfl, hus, rfl, hrep⟩
  · refine ⟨idles, h, ?_⟩
    rw [Pool.release]
    split
    · rfl
    · next hforce =>
        rcases hkept with hmin | hnone
        · exact absurd (kept_iff.mpr hmin) hforce
        · refine if_neg ?_
          intro hin
          obtain ⟨a, ha, heq⟩ := List.mem_map.mp hin
          exact hnone a ha heq
  · refine ⟨us ++ vs, hrep, ?_⟩
    have hmem : data cur ∈ (us ++ cur :: vs).map data :=
      List.mem_map_of_mem (List.mem_append_right us List.mem_cons_self)
    refine ((if_neg (not_kept_iff.mpr hallowed)).trans (if_pos hmem)).trans ?_
    simp only [lists, erase_lists hus]

/-- `Idle` on the nodes is `Idle` on the lists. -/
theorem toIdle_lists (h : p.Represents data idles busys)
    (hidle : p.toIdle rounds d = some p') : ∃ idles' busys', p'.Represents data idles' busys' ∧
      (p.lists data idles busys).toIdle d = p'.lists data idles' busys' := by
  rcases h.toIdle_cases hidle with ⟨rfl, hnone⟩ | ⟨us, cur, vs, heap, rfl, rfl, hus, rfl, hrep⟩
  · refine ⟨idles, busys, h, if_neg ?_⟩
    intro hin
    obtain ⟨a, ha, heq⟩ := List.mem_map.mp hin
    exact hnone a ha heq
  · refine ⟨cur :: idles, us ++ vs, hrep, ?_⟩
    have hmem : data cur ∈ (us ++ cur :: vs).map data :=
      List.mem_map_of_mem (List.mem_append_right us List.mem_cons_self)
    refine (if_pos hmem).trans ?_
    simp only [lists, erase_lists hus, List.map_cons]

end Represents

end NodePool

end NativePreferences
