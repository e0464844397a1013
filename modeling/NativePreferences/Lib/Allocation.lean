import Mathlib.Data.Multiset.AddSub
import NativePreferences.Lib.Program

/-!
# NativePreferences.Lib.Allocation

**Programs that allocate.** A program asks for blocks of memory, and any request may be refused;
it gives blocks back, and may do so with a block that is not its own. What `malloc` hands out is
not cleared, and a pointer in it may be used before anybody has written it (`Slot`). `Arena` says
which blocks there are, and whether any of this has gone wrong.

`Owns` is the judgement about such programs: which blocks are the program's own while it runs.
What it gives back is its own, and at the end the blocks it is left with are in a relation to its
result, whatever it has been granted and refused. Such a program can be run beside any other
blocks, and leaves them alone (`Owns.exec`).

A program may also tell its environment something that needs no answer (`emit`).
-/

namespace NativePreferences.Lib

variable {E α β : Type}

/-- The name of a block. -/
abbrev Block : Type := Nat

/-- A pointer to a block that holds a `β`, or null. -/
abbrev Ptr (β : Type) : Type := Option (Block × β)

/-- The block that a pointer points to. -/
def Ptr.block (p : Ptr β) : Option Block := p.map Prod.fst

/-- A pointer in memory that has not been cleared. -/
inductive Slot (β : Type)
  /-- Nobody has written it, and it may point anywhere. -/
  | unwritten
  | written (p : Ptr β)

/-- What a program asks of the allocator. -/
inductive AllocCall (E : Type)
  | malloc
  /-- Give a block back. With a null pointer nothing happens. -/
  | free (p : Option Block)
  /-- Use a pointer that nobody has written. -/
  | wild
  | emit (e : E)

abbrev AllocCall.Answer : AllocCall E → Type
  | .malloc => Option Block
  | .free _ => Unit
  | .wild => Unit
  | .emit _ => Unit

/-- Programs that allocate. -/
abbrev Allocating (E α : Type) : Type := Program (AllocCall E) AllocCall.Answer α

/-- The blocks there are. -/
structure Arena where
  live : Multiset Block
  /-- A block has been given back that was not there, or a pointer used that nobody has written. -/
  broken : Bool

/-- The allocator. It may refuse any request. -/
def allocSem : Sem (AllocCall E) AllocCall.Answer Arena
  | .malloc, h, none, h' => h' = h
  | .malloc, h, some b, h' => b ∉ h.live ∧ h' = { h with live := b ::ₘ h.live }
  | .free none, h, _, h' => h' = h
  | .free (some b), h, _, h' => h' = ⟨h.live.erase b, h.broken || decide (b ∉ h.live)⟩
  | .wild, h, _, h' => h' = { h with broken := true }
  | .emit _, h, _, h' => h' = h

def malloc : Allocating E (Option Block) := Program.op AllocCall.malloc

def free (p : Option Block) : Allocating E Unit := Program.op (AllocCall.free p)

def wild : Allocating E Unit := Program.op AllocCall.wild

def emit (e : E) : Allocating E Unit := Program.op (AllocCall.emit e)

/-- Give back one block after the other. -/
def freeAll : List (Option Block) → Allocating E Unit
  | [] => return
  | p :: ps => do
      free p
      freeAll ps

/-- Ask for `n` blocks more, where `bs` have been granted. -/
def mallocLoop : Nat → List Block → Allocating E (Option (List Block))
  | 0, bs => return some bs
  | n + 1, bs => do
      let p ← malloc
      match p with
      | none => do
          freeAll (bs.map some)
          return none
      | some b => mallocLoop n (b :: bs)

/-- Ask for `n` blocks. If one is refused, those that were granted are given back. -/
def mallocAll (n : Nat) : Allocating E (Option (List Block)) := mallocLoop n []

/-- The blocks behind pointers. -/
def blocks (ps : List (Option Block)) : Multiset Block := (ps.filterMap id : List Block)

namespace Slot

/-- The block behind the pointer, if somebody has written it. -/
def block : Slot β → Option Block
  | .unwritten => none
  | .written p => p.block

/-- The object behind the pointer, if somebody has written it. -/
def object : Slot β → Option β
  | .unwritten => none
  | .written p => p.map Prod.snd

def isWritten : Slot β → Bool
  | .unwritten => false
  | .written _ => true

/-- Give back what the pointer points to. -/
def free : Slot β → Allocating E Unit
  | .unwritten => wild
  | .written p => Lib.free p.block

end Slot

theorem malloc_bind (f : Option Block → Allocating E β) :
    (malloc >>= f) = .call .malloc f := by
  simp [malloc, Program.op]

theorem free_bind (p : Option Block) (f : Unit → Allocating E β) :
    (free p >>= f) = .call (.free p) f := by
  simp [free, Program.op]

theorem emit_bind (e : E) (f : Unit → Allocating E β) : (emit e >>= f) = .call (.emit e) f := by
  simp [emit, Program.op]

@[simp] theorem blocks_nil : blocks [] = 0 := rfl

@[simp] theorem blocks_none : blocks [none] = 0 := rfl

@[simp] theorem blocks_some (b : Block) : blocks [some b] = {b} := rfl

theorem blocks_append (ps ps' : List (Option Block)) :
    blocks (ps ++ ps') = blocks ps + blocks ps' := by
  rw [blocks, List.filterMap_append, ← Multiset.coe_add]
  rfl

theorem blocks_cons (p : Option Block) (ps : List (Option Block)) :
    blocks (p :: ps) = blocks [p] + blocks ps := blocks_append [p] ps

theorem blocks_map_some (bs : List Block) : blocks (bs.map some) = bs := by
  rw [blocks, List.filterMap_map]
  exact congrArg _ List.filterMap_some

theorem blocks_left_comm (own own' own'' : Multiset Block) :
    own + (own' + own'') = own' + (own + own'') := by
  rw [← Multiset.add_assoc, Multiset.add_comm own, Multiset.add_assoc]

/-- A block joins those behind pointers. -/
theorem blocks_snoc (ps : List (Option Block)) (b : Block) :
    blocks (ps ++ [some b]) = b ::ₘ blocks ps := by
  rw [blocks_append, blocks_some, Multiset.add_comm, Multiset.singleton_add]

theorem freeAll_append (ps ps' : List (Option Block)) :
    (freeAll (ps ++ ps') : Allocating E Unit) = freeAll ps >>= fun _ => freeAll ps' := by
  induction ps with
  | nil => rfl
  | cons p ps ih => simp only [List.cons_append, freeAll, ih, Program.bind_assoc]

/-! ### What has happened -/

/-- What a run shows besides its blocks. -/
structure Log (E : Type) where
  /-- Which requests have been met, the oldest first. -/
  outcomes : List Bool
  emitted : List E

namespace Log

/-- Nothing has happened. -/
def empty : Log E := ⟨[], []⟩

/-- A request is met, or not. -/
def answer (log : Log E) (met : Bool) : Log E := { log with outcomes := log.outcomes ++ [met] }

def tell (log : Log E) (e : E) : Log E := { log with emitted := log.emitted ++ [e] }

/-- Some request has been refused. -/
def refused (log : Log E) : Bool := log.outcomes.contains false

/-- A call and its answer are added. -/
def add (log : Log E) : Event (AllocCall.Answer : AllocCall E → Type) → Log E
  | ⟨.malloc, p⟩ => log.answer p.isSome
  | ⟨.free _, _⟩ => log
  | ⟨.wild, _⟩ => log
  | ⟨.emit e, _⟩ => log.tell e

/-- What a trace shows. -/
def after (log : Log E) (tr : List (Event (AllocCall.Answer : AllocCall E → Type))) :
    Log E := tr.foldl add log

@[simp] theorem refused_answer (log : Log E) (met : Bool) :
    (log.answer met).refused = (log.refused || !met) := by
  cases met <;> simp [refused, answer]

/-- What has just been refused is not forgotten. -/
theorem refused_answer_false (log : Log E) : (log.answer false).refused = true := by simp

@[simp] theorem emitted_answer (log : Log E) (met : Bool) :
    (log.answer met).emitted = log.emitted := rfl

@[simp] theorem refused_tell (log : Log E) (e : E) : (log.tell e).refused = log.refused := rfl

@[simp] theorem emitted_tell (log : Log E) (e : E) :
    (log.tell e).emitted = log.emitted ++ [e] := rfl

end Log

/-! ### Ownership -/

/-- The blocks `own` are the program's. It gives back none but its own, uses no pointer that nobody
has written, and ends with a result, a log and own blocks that satisfy `Q`, whatever is granted. -/
def Owns (Q : α → Log E → Multiset Block → Prop) :
    Allocating E α → Log E → Multiset Block → Prop
  | .ret a, log, own => Q a log own
  | .call .malloc k, log, own =>
      Owns Q (k none) (log.answer false) own ∧
        ∀ b, b ∉ own → Owns Q (k (some b)) (log.answer true) (b ::ₘ own)
  | .call (.free none) k, log, own => Owns Q (k ()) log own
  | .call (.free (some b)) k, log, own => b ∈ own ∧ Owns Q (k ()) log (own.erase b)
  | .call .wild _, _, _ => False
  | .call (.emit e) k, log, own => Owns Q (k ()) (log.tell e) own

section Owns

variable {Q Q' : α → Log E → Multiset Block → Prop} {p : Allocating E α}
variable {log : Log E} {own : Multiset Block}

@[simp] theorem owns_pure {a : α} : Owns Q (pure a) log own ↔ Q a log own := .rfl

theorem Owns.mono (h : Owns Q p log own) (hQ : ∀ a log own, Q a log own → Q' a log own) :
    Owns Q' p log own := by
  induction p generalizing log own with
  | ret a => exact hQ a log own h
  | call c k ih =>
      cases c with
      | malloc => exact ⟨ih none h.1, fun b hb => ih (some b) (h.2 b hb)⟩
      | free p =>
          cases p with
          | none => exact ih () h
          | some b => exact ⟨h.1, ih () h.2⟩
      | wild => exact h
      | emit e => exact ih () h

/-- Two judgements about a program are one. -/
theorem Owns.and (h : Owns Q p log own) (h' : Owns Q' p log own) :
    Owns (fun a log own => Q a log own ∧ Q' a log own) p log own := by
  induction p generalizing log own with
  | ret a => exact ⟨h, h'⟩
  | call c k ih =>
      cases c with
      | malloc => exact ⟨ih none h.1 h'.1, fun b hb => ih (some b) (h.2 b hb) (h'.2 b hb)⟩
      | free p =>
          cases p with
          | none => exact ih () h h'
          | some b => exact ⟨h.1, ih () h.2 h'.2⟩
      | wild => exact h
      | emit e => exact ih () h h'

/-- Sequencing rule. -/
theorem Owns.bind {Q : β → Log E → Multiset Block → Prop} {f : α → Allocating E β}
    (h : Owns (fun a => Owns Q (f a)) p log own) : Owns Q (p >>= f) log own := by
  induction p generalizing log own with
  | ret a => exact h
  | call c k ih =>
      cases c with
      | malloc => exact ⟨ih none h.1, fun b hb => ih (some b) (h.2 b hb)⟩
      | free p =>
          cases p with
          | none => exact ih () h
          | some b => exact ⟨h.1, ih () h.2⟩
      | wild => exact h
      | emit e => exact ih () h

/-- The outcomes are added to those that were there. -/
theorem Owns.extends (h : Owns Q p log own) :
    Owns (fun a log' own => Q a log' own ∧ log.outcomes <+: log'.outcomes) p log own := by
  induction p generalizing log own with
  | ret a => exact ⟨h, List.prefix_rfl⟩
  | call c k ih =>
      cases c with
      | malloc =>
          refine ⟨(ih none h.1).mono ?_, fun b hb => (ih (some b) (h.2 b hb)).mono ?_⟩
          · exact fun a log' own' h => ⟨h.1, (List.prefix_append _ _).trans h.2⟩
          · exact fun a log' own' h => ⟨h.1, (List.prefix_append _ _).trans h.2⟩
      | free p =>
          cases p with
          | none => exact ih () h
          | some b => exact ⟨h.1, ih () h.2⟩
      | wild => exact h
      | emit e => exact ih () h

/-- A refusal is not forgotten. -/
theorem Owns.of_refused (h : Owns Q p log own) (hrefused : log.refused = true) :
    Owns (fun a log own => Q a log own ∧ log.refused = true) p log own := by
  refine h.extends.mono ?_
  intro a log' own' h
  refine ⟨h.1, ?_⟩
  rw [Log.refused, List.contains_iff_mem] at hrefused ⊢
  exact h.2.subset hrefused

/-- A request: it is refused, or there is a new block. -/
theorem Owns.malloc {Q : β → Log E → Multiset Block → Prop} {f : Option Block → Allocating E β}
    (hrefused : Owns Q (f none) (log.answer false) own)
    (hgranted : ∀ b, b ∉ own → Owns Q (f (some b)) (log.answer true) (b ::ₘ own)) :
    Owns Q (Lib.malloc >>= f) log own := by
  rw [malloc_bind]
  exact ⟨hrefused, hgranted⟩

/-- Own blocks are given back. -/
theorem Owns.free {Q : β → Log E → Multiset Block → Prop} {f : Unit → Allocating E β}
    {p : Option Block} (h : Owns Q (f ()) log own) :
    Owns Q (Lib.free p >>= f) log (blocks [p] + own) := by
  rw [free_bind]
  cases p with
  | none =>
      rw [blocks_none, Multiset.zero_add]
      exact h
  | some b =>
      rw [blocks_some, Multiset.singleton_add]
      refine ⟨Multiset.mem_cons_self b own, ?_⟩
      rw [Multiset.erase_cons_head]
      exact h

theorem Owns.emit {Q : β → Log E → Multiset Block → Prop} {f : Unit → Allocating E β} {e : E}
    (h : Owns Q (f ()) (log.tell e) own) : Owns Q (Lib.emit e >>= f) log own := by
  rw [emit_bind]
  exact h

/-- Own blocks are given back one after the other. -/
theorem owns_freeAll {Q : Unit → Log E → Multiset Block → Prop} (ps : List (Option Block))
    (h : Q () log own) : Owns Q (Lib.freeAll ps) log (blocks ps + own) := by
  induction ps with
  | nil =>
      rw [blocks_nil, Multiset.zero_add]
      exact h
  | cons p ps ih =>
      rw [blocks_cons, Multiset.add_assoc]
      exact .free ih

theorem Owns.freeAll {Q : β → Log E → Multiset Block → Prop} {f : Unit → Allocating E β}
    (ps : List (Option Block)) (h : Owns Q (f ()) log own) :
    Owns Q (Lib.freeAll ps >>= f) log (blocks ps + own) :=
  .bind (owns_freeAll ps h)

/-- A written pointer is one's own. -/
theorem Owns.freeSlot {Q : β → Log E → Multiset Block → Prop} {f : Unit → Allocating E β}
    {γ : Type} {slot : Slot γ} (hwritten : slot.isWritten = true) (h : Owns Q (f ()) log own) :
    Owns Q (slot.free >>= f) log (blocks [slot.block] + own) := by
  cases slot with
  | unwritten => exact absurd hwritten Bool.false_ne_true
  | written p => exact .free h

theorem Owns.mallocLoop {Q : β → Log E → Multiset Block → Prop}
    {f : Option (List Block) → Allocating E β} {n : Nat} (bs : List Block)
    (hrefused : ∀ log', log'.refused = true → log'.emitted = log.emitted →
      Owns Q (f none) log' own)
    (hgranted : ∀ bs' log', bs'.length = bs.length + n → log'.refused = log.refused →
      log'.emitted = log.emitted → Owns Q (f (some bs')) log' (bs' + own)) :
    Owns Q (Lib.mallocLoop n bs >>= f) log (bs + own) := by
  induction n generalizing bs log with
  | zero => exact hgranted bs log rfl rfl rfl
  | succ n ih =>
      rw [Lib.mallocLoop, Program.bind_assoc]
      refine .malloc ?_ ?_
      · dsimp only
        rw [Program.bind_assoc, ← blocks_map_some]
        refine .freeAll _ ?_
        exact hrefused _ (Log.refused_answer_false log) rfl
      · intro b _
        dsimp only
        rw [← Multiset.cons_add, Multiset.cons_coe]
        refine ih (b :: bs) hrefused ?_
        intro bs' log' hlength hlog htold
        refine hgranted bs' log' ?_ ?_ htold
        · rw [hlength, List.length_cons]
          omega
        · rw [hlog, Log.refused_answer]
          simp

/-- All the blocks are granted, or none is kept. -/
theorem Owns.mallocAll {Q : β → Log E → Multiset Block → Prop}
    {f : Option (List Block) → Allocating E β} {n : Nat}
    (hrefused : ∀ log', log'.refused = true → log'.emitted = log.emitted →
      Owns Q (f none) log' own)
    (hgranted : ∀ bs log', bs.length = n → log'.refused = log.refused →
      log'.emitted = log.emitted → Owns Q (f (some bs)) log' (bs + own)) :
    Owns Q (Lib.mallocAll n >>= f) log own := by
  rw [Lib.mallocAll, ← Multiset.zero_add own, ← Multiset.coe_nil]
  refine .mallocLoop [] ?_ ?_
  · exact hrefused
  · intro bs log' hlength
    exact hgranted bs log' (by simpa using hlength)

/-! ### Runs -/

/-- What has gone wrong stays so. -/
theorem exec_broken {w w' : Arena} {a : α}
    {tr : List (Event (AllocCall.Answer : AllocCall E → Type))}
    (hrun : Exec allocSem p w tr a w') (hbroken : w.broken = true) : w'.broken = true := by
  induction hrun with
  | ret => exact hbroken
  | @call c k w w₁ w' r tr a hs _ ih =>
      refine ih ?_
      cases c with
      | malloc =>
          cases r with
          | none =>
              obtain rfl : w₁ = _ := hs
              exact hbroken
          | some b =>
              obtain ⟨-, rfl⟩ := hs
              exact hbroken
      | free p =>
          cases p with
          | none =>
              obtain rfl : w₁ = _ := hs
              exact hbroken
          | some b =>
              obtain rfl : w₁ = _ := hs
              simp [hbroken]
      | wild =>
          obtain rfl : w₁ = _ := hs
          rfl
      | emit e =>
          obtain rfl : w₁ = _ := hs
          exact hbroken

/-- A program that uses a pointer that nobody has written. -/
theorem exec_wild_bind {f : Unit → Allocating E β} {w w' : Arena} {a : β}
    {tr : List (Event (AllocCall.Answer : AllocCall E → Type))}
    (hrun : Exec allocSem (wild >>= f) w tr a w') : w'.broken = true := by
  obtain ⟨_, _, w₁, _, hwild, hrest, -⟩ := exec_bind_iff.mp hrun
  obtain ⟨hs, -⟩ := exec_op_iff.mp hwild
  obtain rfl : w₁ = _ := hs
  exact exec_broken hrest rfl

/-- What the judgement means for a run beside other blocks: they stay, nothing is given back that
was not there, and the own blocks at the end are as `Q` says. -/
theorem Owns.exec (h : Owns Q p log own) {rest : Multiset Block} {broken : Bool} {a : α}
    {tr : List (Event (AllocCall.Answer : AllocCall E → Type))} {w : Arena}
    (hrun : Exec allocSem p ⟨own + rest, broken⟩ tr a w) :
    ∃ own', w = ⟨own' + rest, broken⟩ ∧ Q a (log.after tr) own' := by
  generalize hstart : (⟨own + rest, broken⟩ : Arena) = start at hrun
  induction hrun generalizing log own with
  | ret => exact ⟨own, hstart.symm, h⟩
  | @call c k w w₁ w' r tr a hs _ ih =>
      subst hstart
      cases c with
      | malloc =>
          cases r with
          | none =>
              obtain rfl : w₁ = _ := hs
              exact ih h.1 rfl
          | some b =>
              obtain ⟨hfresh, rfl⟩ := hs
              have hown : b ∉ own := fun hin => hfresh (Multiset.mem_add.mpr (.inl hin))
              refine ih (h.2 b hown) ?_
              rw [Multiset.cons_add]
      | free p =>
          cases p with
          | none =>
              obtain rfl : w₁ = _ := hs
              exact ih h rfl
          | some b =>
              obtain rfl : w₁ = _ := hs
              refine ih h.2 ?_
              have hin : b ∈ own + rest := Multiset.mem_add.mpr (.inl h.1)
              simp [Multiset.erase_add_left_pos rest h.1, hin]
      | wild => exact h.elim
      | emit e =>
          obtain rfl : w₁ = _ := hs
          exact ih h rfl

end Owns

end NativePreferences.Lib
