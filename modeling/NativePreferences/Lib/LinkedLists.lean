import Mathlib.Data.List.Nodup
import Mathlib.Logic.Function.Basic

/-!
# NativePreferences.Lib.LinkedLists

**Doubly linked lists in a heap.** A heap has a node at each address that is allocated, and a
pointer is an address or null. A write through a pointer that leads nowhere has no result.

`Linked h data head as` says that a list from `head` on has its nodes at the addresses `as`: each
node has its neighbours in `as` as `prev` and `next`, and the data that `data` says. So a heap is
known on a list as soon as the addresses are. The rules are about the writes that take a node out
(`Linked.remove`) and put one in front (`Linked.push`); other lists stay as they are
(`Linked.remove_other`, `Linked.push_other`).
-/

namespace NativePreferences.Lib

variable {A D : Type*}

/-- A node. -/
structure ListNode (A D : Type*) where
  prev : Option A
  next : Option A
  data : D

namespace ListNode

def setPrev (prev : Option A) (node : ListNode A D) : ListNode A D := { node with prev }

def setNext (next : Option A) (node : ListNode A D) : ListNode A D := { node with next }

end ListNode

/-- The nodes that are allocated. -/
abbrev Heap (A D : Type*) : Type _ := A → Option (ListNode A D)

/-! ### Lists -/

/-- The list from `head` on has its nodes at `as`. -/
structure Linked (h : Heap A D) (data : A → D) (head : Option A) (as : List A) : Prop where
  head_eq : head = as.head?
  nodup : as.Nodup
  node : ∀ xs a ys, as = xs ++ a :: ys → h a = some ⟨xs.getLast?, ys.head?, data a⟩

variable {h h' : Heap A D} {data data' : A → D} {head p : Option A} {as us vs xs ys : List A}
variable {a b cur : A}

theorem append_eq_append_cons (heq : us ++ vs = xs ++ a :: ys) :
    (∃ zs, vs = zs ++ a :: ys ∧ xs = us ++ zs) ∨ ∃ zs, us = xs ++ a :: zs ∧ ys = zs ++ vs := by
  rcases List.append_eq_append_iff.mp heq with ⟨zs, hxs, hvs⟩ | ⟨zs, hus, hys⟩
  · exact .inl ⟨zs, hvs, hxs⟩
  · cases zs with
    | nil =>
        rw [List.append_nil] at hus
        exact .inl ⟨[], hys.symm, hus.symm.trans (List.append_nil us).symm⟩
    | cons z zs =>
        obtain ⟨ha, hys⟩ := List.cons.inj hys
        exact .inr ⟨zs, ha ▸ hus, hys⟩

theorem mem_of_next (ha : vs.head? = some a) : a ∈ us ++ cur :: vs :=
  List.mem_append_right us (List.mem_cons_of_mem cur (List.mem_of_mem_head? ha))

theorem mem_of_prev (ha : us.getLast? = some a) : a ∈ us ++ cur :: vs :=
  List.mem_append_left _ (List.mem_of_getLast? ha)

namespace Linked

theorem nil (h : Heap A D) (data : A → D) : Linked h data none [] where
  head_eq := rfl
  nodup := .nil
  node _ _ _ heq := absurd heq.symm (List.append_ne_nil_of_right_ne_nil _ (List.cons_ne_nil _ _))

theorem singleton (ha : h a = some ⟨none, none, data a⟩) : Linked h data (some a) [a] where
  head_eq := rfl
  nodup := List.nodup_singleton a
  node xs b ys heq := by
    cases xs with
    | nil =>
        obtain ⟨rfl, rfl⟩ := List.cons.inj heq
        exact ha
    | cons x xs => exact absurd (List.cons.inj heq).2.symm (by simp)

/-- A list is known by its own nodes. -/
theorem congr (hl : Linked h data head as) (hheap : ∀ a ∈ as, h' a = h a)
    (hdata : ∀ a ∈ as, data' a = data a) : Linked h' data' head as where
  head_eq := hl.head_eq
  nodup := hl.nodup
  node xs a ys heq := by
    have hmem : a ∈ as := heq ▸ List.mem_append_right xs List.mem_cons_self
    rw [hheap a hmem, hdata a hmem]
    exact hl.node xs a ys heq

theorem isSome (hl : Linked h data head as) (ha : a ∈ as) : (h a).isSome := by
  obtain ⟨xs, ys, rfl⟩ := List.append_of_mem ha
  rw [hl.node xs a ys rfl]
  rfl

/-- The node at the head has no `prev`. -/
theorem head_node (hl : Linked h data (some cur) as) :
    ∃ rest, as = cur :: rest ∧ h cur = some ⟨none, rest.head?, data cur⟩ := by
  cases as with
  | nil => cases hl.head_eq
  | cons a rest =>
      obtain rfl := Option.some.inj hl.head_eq
      exact ⟨rest, rfl, hl.node [] cur rest rfl⟩

/-- The next node leads back. -/
theorem next_prev (hl : Linked h data head as) (ha : a ∈ as) {node : ListNode A D}
    (hnode : h a = some node) (hnext : node.next = some b) :
    ∃ node', h b = some node' ∧ node'.prev = some a := by
  obtain ⟨xs, ys, rfl⟩ := List.append_of_mem ha
  obtain rfl := Option.some.inj ((hl.node xs a ys rfl).symm.trans hnode)
  cases ys with
  | nil => cases hnext
  | cons y ys =>
      obtain rfl := Option.some.inj hnext
      refine ⟨_, hl.node (xs ++ [a]) y ys (by simp), ?_⟩
      exact List.getLast?_concat

/-- The previous node leads here. -/
theorem prev_next (hl : Linked h data head as) (ha : a ∈ as) {node : ListNode A D}
    (hnode : h a = some node) (hprev : node.prev = some b) :
    ∃ node', h b = some node' ∧ node'.next = some a := by
  obtain ⟨xs, ys, rfl⟩ := List.append_of_mem ha
  obtain rfl := Option.some.inj ((hl.node xs a ys rfl).symm.trans hnode)
  obtain ⟨zs, rfl⟩ := List.getLast?_eq_some_iff.mp hprev
  exact ⟨_, hl.node zs b (a :: ys) (by simp), rfl⟩

theorem next_ne (hl : Linked h data head (us ++ cur :: vs)) : vs.head? ≠ some cur := by
  intro hnext
  have hcur : (cur :: vs).Nodup := (List.nodup_append.mp hl.nodup).2.1
  exact (List.nodup_cons.mp hcur).1 (List.mem_of_mem_head? hnext)

theorem prev_ne (hl : Linked h data head (us ++ cur :: vs)) : us.getLast? ≠ some cur := by
  intro hprev
  exact (List.nodup_append.mp hl.nodup).2.2 cur (List.mem_of_getLast? hprev) cur
    List.mem_cons_self rfl

/-- A node is there once. -/
theorem not_mem_others (hl : Linked h data head (us ++ cur :: vs)) : cur ∉ us ++ vs :=
  (List.nodup_cons.mp (List.perm_middle.nodup_iff.mp hl.nodup)).1

/-- The head of the list without a node. -/
theorem head_remove [DecidableEq A] (hl : Linked h data head (us ++ cur :: vs)) :
    (if head = some cur then vs.head? else head) = (us ++ vs).head? := by
  cases us with
  | nil => exact if_pos hl.head_eq
  | cons u us =>
      have hne : head ≠ some cur := by
        rw [hl.head_eq]
        intro heq
        have hu := (List.nodup_cons.mp hl.nodup).1
        exact hu (Option.some.inj heq ▸ List.mem_append_right us List.mem_cons_self)
      exact (if_neg hne).trans hl.head_eq

end Linked

/-! ### Searching -/

section

variable [DecidableEq D]

/-- From `cur` on, the first node with this data, if there is one. The search may take so many
rounds. -/
def Heap.find (h : Heap A D) (d : D) : (rounds : Nat) → (cur : Option A) → Option (Option A)
  | 0, _ => none
  | _ + 1, none => some none
  | rounds + 1, some cur =>
      match h cur with
      | none => none
      | some node => if node.data = d then some (some cur) else Heap.find h d rounds node.next

theorem Linked.find_suffix (hl : Linked h data head (xs ++ ys)) (d : D) {rounds : Nat}
    (hrounds : ys.length < rounds) :
    h.find d rounds ys.head? = some (ys.find? (fun a => data a = d)) := by
  induction ys generalizing xs rounds with
  | nil =>
      cases rounds with
      | zero => exact absurd hrounds (Nat.not_lt_zero _)
      | succ rounds => rfl
  | cons y ys ih =>
      cases rounds with
      | zero => exact absurd hrounds (Nat.not_lt_zero _)
      | succ rounds =>
          have hnode := hl.node xs y ys rfl
          rw [List.head?_cons, Heap.find, hnode]
          dsimp only
          by_cases hd : data y = d
          · rw [if_pos hd, List.find?_cons_of_pos (by simpa using hd)]
          · rw [if_neg hd, List.find?_cons_of_neg (by simpa using hd)]
            have hl' : Linked h data head ((xs ++ [y]) ++ ys) := by
              rw [List.append_assoc]
              exact hl
            exact ih hl' (Nat.lt_of_succ_lt_succ hrounds)

/-- More rounds change nothing. -/
theorem Heap.find_mono {d : D} {rounds : Nat} {r : Option A} (hfind : h.find d rounds p = some r)
    (more : Nat) : h.find d (rounds + more) p = some r := by
  induction rounds generalizing p with
  | zero => cases hfind
  | succ rounds ih =>
      rw [Nat.succ_add]
      cases p with
      | none => exact hfind
      | some cur =>
          rw [Heap.find] at hfind ⊢
          cases hnode : h cur with
          | none =>
              rw [hnode] at hfind
              cases hfind
          | some node =>
              rw [hnode] at hfind
              dsimp only at hfind ⊢
              split at hfind
              · next hd => rw [if_pos hd, hfind]
              · next hd => rw [if_neg hd, ih hfind]

/-- A search that may take long enough comes to its end. -/
theorem Linked.find (hl : Linked h data head as) (d : D) {rounds : Nat}
    (hrounds : as.length < rounds) :
    h.find d rounds head = some (as.find? (fun a => data a = d)) := by
  have hl' : Linked h data head ([] ++ as) := hl
  rw [hl.head_eq]
  exact hl'.find_suffix d hrounds

/-- A search that comes to its end has found the first node with the data. -/
theorem Linked.find_eq (hl : Linked h data head as) {d : D} {rounds : Nat} {r : Option A}
    (hfind : h.find d rounds head = some r) : as.find? (fun a => data a = d) = r := by
  have hmore := Heap.find_mono hfind (as.length + 1)
  have hlong := hl.find d (show as.length < rounds + (as.length + 1) by omega)
  exact Option.some.inj (hlong.symm.trans hmore)

end

/-! ### Writing -/

variable [DecidableEq A]

namespace Heap

/-- The node that a pointer leads to is changed. -/
def adjust (h : Heap A D) (p : Option A) (f : ListNode A D → ListNode A D) : Heap A D :=
  fun a => if p = some a then (h a).map f else h a

/-- A write to the node at `a`. -/
def write (h : Heap A D) (a : A) (f : ListNode A D → ListNode A D) : Option (Heap A D) :=
  if (h a).isSome then some (h.adjust (some a) f) else none

/-- A write through `p`, unless it is null. -/
def writeAt (h : Heap A D) (p : Option A) (f : ListNode A D → ListNode A D) :
    Option (Heap A D) :=
  match p with
  | none => some h
  | some a => h.write a f

/-- The neighbours of a node are linked with each other. -/
def join (h : Heap A D) (prev next : Option A) : Heap A D :=
  (h.adjust next (.setPrev prev)).adjust prev (.setNext next)

/-- The node at `cur` is linked with the head of a list. -/
def push (h : Heap A D) (cur : A) (head : Option A) : Heap A D :=
  (h.adjust (some cur) (.setNext head)).adjust head (.setPrev (some cur))

/-- The node is deleted. -/
def free (h : Heap A D) (a : A) : Heap A D := Function.update h a none

variable {f : ListNode A D → ListNode A D}

theorem adjust_self (h : Heap A D) (a : A) (f : ListNode A D → ListNode A D) :
    h.adjust (some a) f a = (h a).map f :=
  if_pos rfl

theorem adjust_of_ne (hp : p ≠ some a) : h.adjust p f a = h a := if_neg hp

@[simp] theorem isSome_adjust : (h.adjust p f a).isSome = (h a).isSome := by
  rw [adjust]
  split
  · exact Option.isSome_map
  · rfl

@[simp] theorem isSome_join {prev next : Option A} : (h.join prev next a).isSome = (h a).isSome :=
  isSome_adjust.trans isSome_adjust

@[simp] theorem isSome_push : (h.push cur head a).isSome = (h a).isSome :=
  isSome_adjust.trans isSome_adjust

theorem adjust_id (hf : ∀ node, h a = some node → f node = node) : h.adjust (some a) f = h := by
  funext b
  by_cases hb : a = b
  · subst hb
    rw [adjust_self]
    cases hnode : h a with
    | none => rfl
    | some node => exact congrArg some (hf node hnode)
  · exact adjust_of_ne (fun heq => hb (Option.some.inj heq))

theorem free_of_ne (hb : b ≠ a) : h.free a b = h b := Function.update_of_ne hb _ _

theorem write_eq (ha : (h a).isSome) (f : ListNode A D → ListNode A D) :
    h.write a f = some (h.adjust (some a) f) :=
  if_pos ha

theorem writeAt_eq (hp : ∀ a, p = some a → (h a).isSome) (f : ListNode A D → ListNode A D) :
    h.writeAt p f = some (h.adjust p f) := by
  cases p with
  | none => rfl
  | some a => exact write_eq (hp a rfl) f

end Heap

namespace Linked

/-- Another node is changed. -/
theorem adjust (hl : Linked h data head as) (hp : ∀ a, p = some a → a ∉ as)
    (f : ListNode A D → ListNode A D) : Linked (h.adjust p f) data head as := by
  refine hl.congr ?_ (fun _ _ => rfl)
  intro a ha
  exact Heap.adjust_of_ne (fun heq => hp a heq ha)

/-- Another node is deleted. -/
theorem free (hl : Linked h data head as) (ha : a ∉ as) : Linked (h.free a) data head as := by
  refine hl.congr ?_ (fun _ _ => rfl)
  intro b hb
  exact Heap.free_of_ne (fun heq => ha (heq ▸ hb))

/-- A node is taken out. Its neighbours are linked with each other. -/
theorem remove (hl : Linked h data head (us ++ cur :: vs)) :
    Linked (h.join us.getLast? vs.head?) data (us ++ vs).head? (us ++ vs) where
  head_eq := rfl
  nodup := hl.nodup.sublist ((List.sublist_cons_self _ _).append_left us)
  node xs a ys heq := by
    rw [Heap.join]
    obtain ⟨hus, hcurvs, hdisjoint⟩ := List.nodup_append.mp hl.nodup
    obtain ⟨-, hvs⟩ := List.nodup_cons.mp hcurvs
    rcases append_eq_append_cons heq with ⟨zs, rfl, rfl⟩ | ⟨zs, rfl, rfl⟩
    · -- behind the node that is taken out
      have hold := hl.node (us ++ cur :: zs) a ys (by simp)
      have hlast : us.getLast? ≠ some a := by
        intro hlast
        exact hdisjoint a (List.mem_of_getLast? hlast) a (by simp) rfl
      rw [Heap.adjust_of_ne hlast]
      cases zs with
      | nil =>
          rw [List.nil_append, List.head?_cons, Heap.adjust_self, hold, List.append_nil]
          rfl
      | cons z zs =>
          have hne : (z :: zs ++ a :: ys).head? ≠ some a := by
            intro hz
            obtain rfl := Option.some.inj hz
            exact (List.nodup_cons.mp hvs).1 (by simp)
          rw [Heap.adjust_of_ne hne, hold, List.getLast?_append_cons, List.getLast?_append_cons,
            List.getLast?_cons_cons]
    · -- before it
      have hold := hl.node xs a (zs ++ cur :: vs) (by simp)
      have hfirst : vs.head? ≠ some a := by
        intro hfirst
        exact hdisjoint a (by simp) a
          (List.mem_cons_of_mem _ (List.mem_of_mem_head? hfirst)) rfl
      rw [List.getLast?_append_cons]
      cases zs with
      | nil =>
          rw [List.getLast?_singleton, Heap.adjust_self, Heap.adjust_of_ne hfirst, hold]
          rfl
      | cons z zs =>
          have hne : (a :: z :: zs).getLast? ≠ some a := by
            rw [List.getLast?_cons_cons]
            intro hlast
            have hazs : (a :: z :: zs).Nodup := (List.nodup_append.mp hus).2.1
            exact (List.nodup_cons.mp hazs).1 (List.mem_of_getLast? hlast)
          rw [Heap.adjust_of_ne hne, Heap.adjust_of_ne hfirst, hold]
          rfl

/-- The node that is taken out keeps its links. -/
theorem remove_self (hl : Linked h data head (us ++ cur :: vs)) :
    h.join us.getLast? vs.head? cur = some ⟨us.getLast?, vs.head?, data cur⟩ := by
  rw [Heap.join, Heap.adjust_of_ne hl.prev_ne, Heap.adjust_of_ne hl.next_ne]
  exact hl.node us cur vs rfl

/-- A node is taken out of another list. -/
theorem remove_other (hl : Linked h data head as) (hother : ∀ a ∈ us ++ cur :: vs, a ∉ as) :
    Linked (h.join us.getLast? vs.head?) data head as := by
  refine (hl.adjust ?_ _).adjust ?_ _
  · intro a ha
    exact hother a (mem_of_next ha)
  · intro a ha
    exact hother a (mem_of_prev ha)

/-- A node is put in front. -/
theorem push (hl : Linked h data head as) (hcur : cur ∉ as) {next : Option A}
    (hnode : h cur = some ⟨none, next, data cur⟩) :
    Linked (h.push cur head) data (some cur) (cur :: as) where
  head_eq := rfl
  nodup := List.nodup_cons.mpr ⟨hcur, hl.nodup⟩
  node xs a ys heq := by
    rw [Heap.push]
    have hhead : head ≠ some cur := by
      intro hhead
      exact hcur (List.mem_of_mem_head? (hl.head_eq ▸ hhead))
    cases xs with
    | nil =>
        obtain ⟨rfl, rfl⟩ := List.cons.inj heq
        rw [Heap.adjust_of_ne hhead, Heap.adjust_self, hnode, hl.head_eq]
        rfl
    | cons x xs =>
        have htail : as = xs ++ a :: ys := (List.cons.inj heq).2
        obtain rfl : cur = x := (List.cons.inj heq).1
        have ha : a ∈ as := htail ▸ List.mem_append_right xs List.mem_cons_self
        have hne : some cur ≠ some a := by
          intro hne
          exact hcur (Option.some.inj hne ▸ ha)
        have hold := hl.node xs a ys htail
        cases xs with
        | nil =>
            have hfirst : head = some a := by
              rw [hl.head_eq, htail]
              rfl
            rw [hfirst, Heap.adjust_self, Heap.adjust_of_ne hne, hold]
            rfl
        | cons x xs =>
            have hfirst : head ≠ some a := by
              rw [hl.head_eq, htail]
              intro hfirst
              have hnodup : (x :: xs ++ a :: ys).Nodup := htail ▸ hl.nodup
              exact (List.nodup_cons.mp hnodup).1 (Option.some.inj hfirst ▸ by simp)
            rw [Heap.adjust_of_ne hfirst, Heap.adjust_of_ne hne, hold, List.getLast?_cons_cons]

/-- A node is put in front of another list. -/
theorem push_other (hl : Linked h data head as) (hcur : cur ∉ as) (hp : ∀ a, p = some a → a ∉ as) :
    Linked (h.push cur p) data head as :=
  (hl.adjust (fun _ ha => Option.some.inj ha ▸ hcur) _).adjust hp _

end Linked

end NativePreferences.Lib
