import Mathlib.Data.List.Range
import NativePreferences.ExecutorPool.PoolNodes

/-!
# NativePreferences.ExecutorPool.PoolLists

**The two lists of a pool, over any calls.** `idle_` and `busy_` stay two lists of nodes that have
no node in common and leave none out, whatever is called (`Represents.step`). `current_` is their
number of nodes modulo 2^32. An unforced `Get` makes a node only while `current_ < capability_`; a
forced one does not look at `current_`, so the count is right as long as no forced `Get` makes a
node when there are 2^32 - 1 (`Roomy`), and wrong from then on (`Counts.wraps`).
-/

namespace NativePreferences

open Lib

namespace NodePool

/-- A call. A `Get` that makes a node gets it at `fresh`, with `data`. -/
inductive Call (A D : Type)
  | get (isForce : Bool) (fresh : A) (data : D)
  | release (data : D) (force : Bool)
  | idle (data : D)

/-- A forced `Get`. -/
def Call.Forced {A D : Type} : Call A D → Prop
  | .get isForce _ _ => isForce = true
  | _ => False

variable {A D : Type}

/-- A forced `Get` that makes a node makes it while `current_` can still count it. -/
def Roomy (p : NodePool A D) (call : Call A D) : Prop :=
  call.Forced → p.idle = none → p.current.toNat + 1 < UInt32.size

/-- `idle_` and `busy_` are doubly linked lists that share the nodes among them, and `current_`
counts them. -/
structure Sound (p : NodePool A D) (idles busys : List A) : Prop where
  idle : ∃ data, Linked p.heap data p.idle idles
  busy : ∃ data, Linked p.heap data p.busy busys
  heads : ∀ cur node, p.idle = some cur ∨ p.busy = some cur → p.heap cur = some node →
    node.prev = none
  inverse : ∀ a b node node', p.heap a = some node → p.heap b = some node' →
    (node.next = some b ↔ node'.prev = some a)
  one : ∀ a, (p.heap a).isSome → Xor (a ∈ idles) (a ∈ busys)
  count : p.current.toNat = idles.length + busys.length

variable {p p' : NodePool A D} {data : A → D} {idles busys : List A} {call : Call A D}
variable {calls : List (Call A D)} {capability min : UInt32}

namespace Represents

theorem current_toNat (h : p.Represents data idles busys)
    (hsize : idles.length + busys.length < UInt32.size) :
    p.current.toNat = idles.length + busys.length := by
  rw [h.current]
  exact UInt32.toNat_ofNat_of_lt' hsize

/-- The links of a node lead to nodes that link back. -/
theorem inverse (h : p.Represents data idles busys) {a b : A} {node node' : ListNode A D}
    (hnode : p.heap a = some node) (hnode' : p.heap b = some node') :
    node.next = some b ↔ node'.prev = some a := by
  constructor
  · intro hnext
    have hback : ∃ node', p.heap b = some node' ∧ node'.prev = some a := by
      rcases (h.allocated a).mp (Option.isSome_of_eq_some hnode) with ha | ha
      · exact h.idle.next_prev ha hnode hnext
      · exact h.busy.next_prev ha hnode hnext
    obtain ⟨node'', hb, hprev⟩ := hback
    exact Option.some.inj (hnode'.symm.trans hb) ▸ hprev
  · intro hprev
    have hback : ∃ node, p.heap a = some node ∧ node.next = some b := by
      rcases (h.allocated b).mp (Option.isSome_of_eq_some hnode') with hb | hb
      · exact h.idle.prev_next hb hnode' hprev
      · exact h.busy.prev_next hb hnode' hprev
    obtain ⟨node'', ha, hnext⟩ := hback
    exact Option.some.inj (hnode.symm.trans ha) ▸ hnext

theorem sound (h : p.Represents data idles busys)
    (hsize : idles.length + busys.length < UInt32.size) : p.Sound idles busys where
  idle := ⟨data, h.idle⟩
  busy := ⟨data, h.busy⟩
  heads cur node hhead hnode := by
    have hprev : ∃ rest : List A, p.heap cur = some ⟨none, rest.head?, data cur⟩ := by
      rcases hhead with hidle | hbusy
      · obtain ⟨rest, -, hcur⟩ := (hidle ▸ h.idle).head_node
        exact ⟨rest, hcur⟩
      · obtain ⟨rest, -, hcur⟩ := (hbusy ▸ h.busy).head_node
        exact ⟨rest, hcur⟩
    obtain ⟨rest, hcur⟩ := hprev
    obtain rfl := Option.some.inj (hcur.symm.trans hnode)
    rfl
  inverse _ _ _ _ hnode hnode' := h.inverse hnode hnode'
  one a ha := by
    rcases (h.allocated a).mp ha with hidle | hbusy
    · exact .inl ⟨hidle, h.disjoint a hidle⟩
    · exact .inr ⟨hbusy, fun hidle => h.disjoint a hidle hbusy⟩
  count := h.current_toNat hsize

end Represents

/-- The nodes of sound lists are the nodes that are allocated, each once. -/
theorem Sound.mem_iff (h : p.Sound idles busys) (a : A) :
    a ∈ idles ++ busys ↔ (p.heap a).isSome := by
  obtain ⟨⟨data, hidle⟩, ⟨data', hbusy⟩, -, -, hone, -⟩ := h
  rw [List.mem_append]
  constructor
  · intro ha
    rcases ha with ha | ha
    · exact hidle.isSome ha
    · exact hbusy.isSome ha
  · intro ha
    exact (hone a ha).or

theorem Sound.nodup (h : p.Sound idles busys) : (idles ++ busys).Nodup := by
  obtain ⟨⟨data, hidle⟩, ⟨data', hbusy⟩, -, -, hone, -⟩ := h
  refine hidle.nodup.append hbusy.nodup ?_
  intro a ha hb
  rcases hone a (hidle.isSome ha) with ⟨-, hnot⟩ | ⟨-, hnot⟩
  · exact hnot hb
  · exact hnot ha

/-- From 2^32 nodes on the count is wrong. -/
theorem Represents.not_sound (h : p.Represents data idles busys)
    (hsize : UInt32.size ≤ idles.length + busys.length) {idles' busys' : List A} :
    ¬ p.Sound idles' busys' := by
  intro hsound
  have hperm : (idles' ++ busys').Perm (idles ++ busys) := by
    have hdisjoint : idles.Disjoint busys := fun a ha => h.disjoint a ha
    refine (List.perm_ext_iff_of_nodup hsound.nodup
      (h.idle.nodup.append h.busy.nodup hdisjoint)).mpr ?_
    intro a
    rw [hsound.mem_iff, h.allocated, List.mem_append]
  have hlength := hperm.length_eq
  rw [List.length_append, List.length_append, ← hsound.count] at hlength
  have hbound := p.current.toNat_lt_size
  omega

/-! ### Calls in a row -/

variable [DecidableEq A] [DecidableEq D]

/-- A call that returns. -/
inductive Step : NodePool A D → Call A D → NodePool A D → Prop
  | get {p p' : NodePool A D} {isForce : Bool} {fresh : A} {d : D} {res : Option D}
      (hfresh : p.heap fresh = none) (h : p.get isForce fresh d = some (res, p')) :
      Step p (.get isForce fresh d) p'
  | release {p p' : NodePool A D} {d : D} {force res : Bool} (rounds : Nat)
      (h : p.release rounds d force = some (res, p')) : Step p (.release d force) p'
  | idle {p p' : NodePool A D} {d : D} (rounds : Nat) (h : p.toIdle rounds d = some p') :
      Step p (.idle d) p'

/-- Every call returns. No pointer is followed that leads nowhere, and no loop goes on for ever. -/
structure Returns (p : NodePool A D) : Prop where
  get : ∀ isForce fresh d, p.heap fresh = none → (p.get isForce fresh d).isSome
  release : ∀ d force, ∃ rounds, (p.release rounds d force).isSome
  idle : ∀ d, ∃ rounds, (p.toIdle rounds d).isSome

namespace Represents

theorem returns (h : p.Represents data idles busys) : p.Returns where
  get isForce _ d hfresh := h.get_returns hfresh isForce d
  release d force := ⟨idles.length + 1, h.release_returns (Nat.lt_succ_self _) d force⟩
  idle d := ⟨busys.length + 1, h.toIdle_returns (Nat.lt_succ_self _) d⟩

/-- The nodes after a call: as many or fewer, or one more where `Get` makes one. -/
theorem step (h : p.Represents data idles busys) (hstep : Step p call p') :
    p'.capability = p.capability ∧ ∃ data' idles' busys', p'.Represents data' idles' busys' ∧
      (idles'.length + busys'.length ≤ idles.length + busys.length ∨
        idles'.length + busys'.length = idles.length + busys.length + 1 ∧ p.idle = none ∧
          (call.Forced ∨ p.current < p.capability)) := by
  cases hstep with
  | get hfresh hget =>
      rcases h.get_cases hfresh hget with ⟨-, rfl, -⟩ | ⟨cur, rest, heap, rfl, -, rfl, hrep⟩ |
        ⟨rfl, hroom, -, heap, rfl, hrep⟩
      · exact ⟨rfl, data, idles, busys, h, .inl (le_refl _)⟩
      · refine ⟨rfl, data, rest, cur :: busys, hrep, .inl ?_⟩
        rw [List.length_cons, List.length_cons]
        omega
      · refine ⟨rfl, _, [], _ :: busys, hrep, .inr ⟨?_, h.idle.head_eq, hroom⟩⟩
        rw [List.length_cons]
        omega
  | release rounds hrelease =>
      rcases h.release_cases hrelease with ⟨-, rfl, -⟩ |
        ⟨-, -, us, cur, vs, heap, rfl, -, -, rfl, hrep⟩
      · exact ⟨rfl, data, idles, busys, h, .inl (le_refl _)⟩
      · refine ⟨rfl, data, us ++ vs, busys, hrep, .inl ?_⟩
        rw [List.perm_middle.length_eq, List.length_cons]
        omega
  | idle rounds hidle =>
      rcases h.toIdle_cases hidle with ⟨rfl, -⟩ | ⟨us, cur, vs, heap, rfl, -, -, rfl, hrep⟩
      · exact ⟨rfl, data, idles, busys, h, .inl (le_refl _)⟩
      · refine ⟨rfl, data, cur :: idles, us ++ vs, hrep, .inl ?_⟩
        rw [List.perm_middle.length_eq, List.length_cons, List.length_cons]
        omega

/-- A `Release` that deletes a node leaves one less to count. -/
theorem release_count (h : p.Represents data idles busys)
    (hsize : idles.length + busys.length < UInt32.size) {rounds : Nat} {d : D} {force : Bool}
    (hrelease : p.release rounds d force = some (true, p')) :
    p.current.toNat = p'.current.toNat + 1 := by
  rcases h.release_cases hrelease with ⟨hfalse, -, -⟩ |
    ⟨-, -, us, cur, vs, heap, rfl, -, -, -, hrep⟩
  · cases hfalse
  · rw [h.current_toNat hsize]
    rw [List.perm_middle.length_eq, List.length_cons] at hsize ⊢
    rw [hrep.current_toNat (by omega)]
    omega

end Represents

/-- The pool has fewer than 2^32 nodes. -/
def Counts (p : NodePool A D) : Prop :=
  ∃ data idles busys, p.Represents data idles busys ∧
    idles.length + busys.length < UInt32.size

theorem Counts.step (h : p.Counts) (hstep : Step p call p') (hroomy : Roomy p call) :
    p'.Counts := by
  obtain ⟨data, idles, busys, hrep, hsize⟩ := h
  obtain ⟨-, data', idles', busys', hrep', hfewer | ⟨hmore, hnone, hcause⟩⟩ := hrep.step hstep
  · exact ⟨data', idles', busys', hrep', lt_of_le_of_lt hfewer hsize⟩
  · refine ⟨data', idles', busys', hrep', ?_⟩
    have hcount := hrep.current_toNat hsize
    rcases hcause with hforced | hroom
    · have hnext := hroomy hforced hnone
      omega
    · have hlt := UInt32.lt_iff_toNat_lt.mp hroom
      have hbound := p.capability.toNat_lt_size
      omega

/-- A forced `Get` that makes one node too many. -/
theorem Counts.wraps (h : p.Counts) (hstep : Step p call p') (hroomy : ¬ Roomy p call) :
    ¬ p'.Sound idles busys := by
  obtain ⟨data, idles', busys', hrep, hsize⟩ := h
  rw [Roomy, Classical.not_imp, Classical.not_imp] at hroomy
  obtain ⟨hforced, hnone, hfull⟩ := hroomy
  rw [hrep.current_toNat hsize] at hfull
  cases hstep with
  | get hfresh hget =>
      rcases hrep.get_cases hfresh hget with ⟨-, -, -, hunforced, -⟩ |
        ⟨cur, rest, heap, rfl, -⟩ | ⟨rfl, -, -, heap, rfl, hrep'⟩
      · cases hunforced.symm.trans hforced
      · cases hnone.symm.trans hrep.idle.head_eq
      · refine hrep'.not_sound ?_
        rw [List.length_cons]
        simp only [List.length_nil] at hfull ⊢
        omega
  | release => exact hforced.elim
  | idle => exact hforced.elim

/-- The pool has no more nodes than its capability. -/
def Within (capability : UInt32) (p : NodePool A D) : Prop :=
  p.capability = capability ∧ ∃ data idles busys, p.Represents data idles busys ∧
    idles.length + busys.length ≤ capability.toNat

theorem Within.step (h : Within capability p) (hstep : Step p call p') (hcall : ¬ call.Forced) :
    Within capability p' := by
  obtain ⟨rfl, data, idles, busys, hrep, hsize⟩ := h
  obtain ⟨hsame, data', idles', busys', hrep', hfewer | ⟨hmore, -, hforced | hroom⟩⟩ :=
    hrep.step hstep
  · exact ⟨hsame, data', idles', busys', hrep', hfewer.trans hsize⟩
  · exact absurd hforced hcall
  · refine ⟨hsame, data', idles', busys', hrep', ?_⟩
    have hcount := hrep.current_toNat (lt_of_le_of_lt hsize p.capability.toNat_lt_size)
    have hlt := UInt32.lt_iff_toNat_lt.mp hroom
    omega

variable [Inhabited D]

/-- **The lists of a pool.** As long as a forced `Get` makes no node when there are 2^32 - 1,
`idle_` and `busy_` are well linked and share the nodes among them, every call returns, and
`current_` is their number, which a `Release` never takes below 0. If no `Get` is forced it is at
most `capability_`. -/
theorem lists_sound (hrun : Run (guarded Step Roomy) (initial capability min) calls p) :
    (∃ idles busys, p.Sound idles busys) ∧ p.Returns ∧
      (∀ rounds d force p', p.release rounds d force = some (true, p') →
        p.current.toNat = p'.current.toNat + 1) ∧
      ((∀ call ∈ calls, ¬ call.Forced) → p.current ≤ capability) := by
  have hinitial := Represents.initial (A := A) capability min (fun _ => (default : D))
  have hcounts : p.Counts :=
    hrun.invariant (fun _ _ _ h hstep => h.step hstep.1 hstep.2)
      ⟨_, [], [], hinitial, Nat.zero_lt_succ _⟩
  obtain ⟨data, idles, busys, hrep, hsize⟩ := hcounts
  refine ⟨⟨idles, busys, hrep.sound hsize⟩, hrep.returns, ?_, ?_⟩
  · intro rounds d force p' hrelease
    exact hrep.release_count hsize hrelease
  · intro hunforced
    have hwithin : Within capability p :=
      (hrun.guard hunforced).invariant (fun _ _ _ h hstep => h.step hstep.1.1 hstep.2)
        ⟨rfl, _, [], [], hinitial, Nat.zero_le _⟩
    obtain ⟨-, data', idles', busys', hrep', hfew⟩ := hwithin
    rw [UInt32.le_iff_toNat_le,
      hrep'.current_toNat (lt_of_le_of_lt hfew capability.toNat_lt_size)]
    exact hfew

/-- The middle one of three nodes becomes idle, and is deleted. -/
theorem lists_sound_middle : ∃ p : NodePool Nat Nat,
    Run (guarded Step Roomy) (initial 1 0)
      [.get false 1 10, .get true 2 20, .get true 3 30, .idle 20, .release 20 false] p ∧
    p.current = 2 ∧ p.busy = some 3 ∧ ∃ idles busys, p.Sound idles busys := by
  have hrun : Run (guarded Step Roomy) (initial 1 0 : NodePool Nat Nat)
      [.get false 1 10, .get true 2 20, .get true 3 30, .idle 20, .release 20 false] _ :=
    .cons ⟨.get rfl rfl, fun h _ => Bool.noConfusion h⟩ <|
    .cons ⟨.get rfl rfl, fun _ _ => by decide⟩ <|
    .cons ⟨.get rfl rfl, fun _ _ => by decide⟩ <|
    .cons ⟨.idle 4 rfl, False.elim⟩ <| .cons ⟨.release 2 rfl, False.elim⟩ .nil
  exact ⟨_, hrun, rfl, rfl, (lists_sound hrun).1⟩

/-! ### A count that wraps -/

/-- `Get(true)`, so many times. -/
def forcedGets (n : Nat) : List (Call Nat Nat) := (List.range n).map (fun a => .get true a a)

theorem forcedGets_run (n : Nat) : ∃ p, Run Step (initial 0 0) (forcedGets n) p ∧
    p.Represents id [] (List.range n).reverse := by
  induction n with
  | zero => exact ⟨_, .nil, Represents.initial 0 0 id⟩
  | succ n ih =>
      obtain ⟨p, hrun, hrep⟩ := ih
      have hfresh : p.heap n = none := by
        rw [← Option.not_isSome_iff_eq_none, hrep.allocated]
        simp
      obtain ⟨heap, hget, hrep'⟩ := hrep.get_makes (.inl rfl) hfresh n
      have hcalls : forcedGets (n + 1) = forcedGets n ++ [.get true n n] := by
        rw [forcedGets, List.range_succ, List.map_append]
        rfl
      have hdata : Function.update id n n = id := Function.update_eq_self n id
      rw [hdata] at hrep'
      rw [hcalls, List.range_succ, List.reverse_append]
      exact ⟨_, hrun.append (.cons (.get hfresh hget) .nil), hrep'⟩

/-- After 2^32 forced calls `current_` is 0. -/
theorem count_wraps : ¬ ∀ p, Run Step (initial 0 0) (forcedGets UInt32.size) p →
    ∃ idles busys, p.Sound idles busys := by
  intro hall
  obtain ⟨p, hrun, hrep⟩ := forcedGets_run UInt32.size
  obtain ⟨idles, busys, hsound⟩ := hall p hrun
  refine hrep.not_sound ?_ hsound
  rw [List.length_reverse, List.length_range]
  exact Nat.le_add_left _ _

end NodePool

end NativePreferences
