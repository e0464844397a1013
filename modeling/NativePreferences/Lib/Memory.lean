import NativePreferences.Lib.Bytes
import NativePreferences.Lib.Program

/-!
# NativePreferences.Lib.Memory

**Buffers that are written and read through pointers.** A pointer is a position counted from the
beginning of the buffer, and nothing in the languages that have them keeps it inside. So both
directions are kept apart from the size of the buffer:

* what is written goes to `Cells`, all the memory from the beginning of the buffer on, and
  whether it stayed inside is asked afterwards;
* a read is a call (`Peek`). Inside the buffer the answer is what lies there, behind its end it
  may be anything.

Writing goes through a copy that checks its arguments and may refuse (`Copy`). When it refuses is
left open. `Lays` is the rule for programs that write one piece after another and give up at the
first refusal, `Within` the one for programs that read.
-/

namespace NativePreferences.Lib

variable {α β : Type}

/-! ### Memory -/

/-- The memory from the beginning of a buffer on, as far as it has been written. -/
abbrev Cells : Type := Nat → Option UInt8

namespace Cells

/-- Nothing has been written. -/
def blank : Cells := fun _ => none

/-- Write `bs` at the position `p`. -/
def copy (m : Cells) (p : Nat) (bs : Bytes) : Cells :=
  fun i => if p ≤ i ∧ i < p + bs.length then bs[i - p]? else m i

/-- What a buffer of this size holds that was zero before it was written. -/
def contents (m : Cells) (size : Nat) : Bytes := (List.range size).map (fun i => (m i).getD 0)

variable {m : Cells} {p : Nat} {bs bs' : Bytes}

@[simp] theorem copy_nil (m : Cells) (p : Nat) : m.copy p [] = m := by
  funext i
  simp only [copy, List.length_nil, Nat.add_zero]
  rw [if_neg (by omega)]

/-- Two writes in a row are one. -/
theorem copy_copy (m : Cells) (p : Nat) (bs bs' : Bytes) :
    (m.copy p bs).copy (p + bs.length) bs' = m.copy p (bs ++ bs') := by
  funext i
  simp only [copy, List.length_append]
  by_cases hsnd : p + bs.length ≤ i ∧ i < p + bs.length + bs'.length
  · rw [if_pos hsnd, if_pos (by omega), List.getElem?_append_right (by omega)]
    congr 1
    omega
  · rw [if_neg hsnd]
    by_cases hfst : p ≤ i ∧ i < p + bs.length
    · rw [if_pos hfst, if_pos (by omega), List.getElem?_append_left (by omega)]
    · rw [if_neg hfst, if_neg (by omega)]

/-- Exactly the cells of the piece have been written. -/
theorem blank_copy_isSome {i : Nat} :
    (blank.copy p bs i).isSome ↔ p ≤ i ∧ i < p + bs.length := by
  simp only [copy, blank]
  split
  · next hin =>
    simp only [hin, and_self, iff_true]
    rw [Option.isSome_iff_ne_none, ne_eq, List.getElem?_eq_none_iff]
    omega
  · next hout => simp [hout]

theorem contents_copy (m : Cells) (bs : Bytes) : (m.copy 0 bs).contents bs.length = bs := by
  refine List.ext_getElem (by simp [contents]) ?_
  intro i hi hi'
  simp [contents, copy, hi']

end Cells

/-! ### Checked copies -/

/-- A copy of `src` to `dest`, which the caller says has room for `destMax` bytes. A null pointer
is `none`. -/
structure Copy where
  dest : Option Nat
  destMax : Nat
  src : Bytes
  deriving DecidableEq

/-- Programs that copy. A copy answers whether it was made. -/
abbrev Copying (α : Type) : Type := Program Copy (fun _ => Bool) α

/-- Which copies are made: a function of the destination, its size and the number of bytes. -/
abbrev CopyCheck : Type := Option Nat → Nat → Nat → Bool

/-- Every copy below `limit` bytes that fits its destination is made. -/
def CopyCheck.Admits (check : CopyCheck) (limit : Nat) : Prop :=
  ∀ p destMax count, count ≤ destMax → destMax < limit → check (some p) destMax count = true

/-- A copy that is refused changes nothing. -/
def Copy.answer (check : CopyCheck) (c : Copy) (m : Cells) : Bool × Cells :=
  if check c.dest c.destMax c.src.length then
    (true, match c.dest with | some p => m.copy p c.src | none => m)
  else (false, m)

/-- What the program returns. -/
def Copying.result (check : CopyCheck) (prog : Copying α) (m : Cells) : α :=
  (prog.interp (Copy.answer check) m).2.1

/-- The memory it leaves. -/
def Copying.memory (check : CopyCheck) (prog : Copying α) (m : Cells) : Cells :=
  (prog.interp (Copy.answer check) m).2.2

/-- Make the copy, and go on with `rest` unless it is refused. -/
def Copying.orElse (c : Copy) (refused : α) (rest : Copying α) : Copying α := do
  let ok ← Program.op c
  if ok then rest else return refused

/-- Where the program ends well, it has laid down `bs` at `p` and written nothing else; and it
ends well if all copies of the size of `bs` are made. -/
structure Copying.Lays (check : CopyCheck) (limit : Nat) (good : α → Prop) (prog : Copying α)
    (p : Nat) (bs : Bytes) : Prop where
  memory_eq : ∀ m, good (prog.result check m) → prog.memory check m = m.copy p bs
  ends_well : check.Admits limit → bs.length < limit → ∀ m, good (prog.result check m)

section Lays

variable {check : CopyCheck} {limit : Nat} {good : α → Prop} {rest : Copying α} {p : Nat}

theorem Copying.orElse_eq (check : CopyCheck) (c : Copy) (refused : α) (rest : Copying α)
    (m : Cells) :
    ((Copying.orElse c refused rest).result check m,
        (Copying.orElse c refused rest).memory check m) =
      if check c.dest c.destMax c.src.length then
        (rest.result check (c.answer check m).2, rest.memory check (c.answer check m).2)
      else (refused, m) := by
  show (((Copying.orElse c refused rest).interp (Copy.answer check) m).2.1,
    ((Copying.orElse c refused rest).interp (Copy.answer check) m).2.2) = _
  simp only [Copying.orElse, Program.op, Program.call_bind, Program.ret_bind, Program.interp]
  cases hok : check c.dest c.destMax c.src.length with
  | true =>
      have hans : (c.answer check m).1 = true := by simp [Copy.answer, hok]
      rw [hans, if_pos rfl, if_pos rfl]
      rfl
  | false =>
      have hans : c.answer check m = (false, m) := by simp [Copy.answer, hok]
      rw [hans, if_neg (by simp), if_neg (by simp)]
      rfl

/-- A copy that is made. -/
theorem Copying.result_orElse {c : Copy} (hok : check c.dest c.destMax c.src.length = true)
    (refused : α) (rest : Copying α) (m : Cells) :
    (Copying.orElse c refused rest).result check m = rest.result check (c.answer check m).2 := by
  have heq := Copying.orElse_eq check c refused rest m
  rw [if_pos hok] at heq
  exact (Prod.mk.inj heq).1

/-- Nothing is left to write. -/
theorem Copying.Lays.done {a : α} (ha : good a) :
    Copying.Lays check limit good (.ret a) p [] where
  memory_eq := fun m _ => (Cells.copy_nil m p).symm
  ends_well := fun _ _ _ => ha

/-- A piece, and what comes behind it. -/
theorem Copying.Lays.piece {refused : α} {src bs : Bytes} {destMax : Nat}
    (hrest : Copying.Lays check limit good rest (p + src.length) bs) (hrefused : ¬ good refused)
    (hfits : src.length ≤ destMax) (hsize : (src ++ bs).length < limit → destMax < limit) :
    Copying.Lays check limit good (.orElse ⟨some p, destMax, src⟩ refused rest) p (src ++ bs) := by
  refine ⟨?_, ?_⟩
  · intro m hgood
    have heq := Copying.orElse_eq check ⟨some p, destMax, src⟩ refused rest m
    split at heq
    · next hok =>
      obtain ⟨hres, hmem⟩ := Prod.mk.inj heq
      have hans : (Copy.answer check ⟨some p, destMax, src⟩ m).2 = m.copy p src := by
        simp [Copy.answer, hok]
      rw [hans] at hres hmem
      rw [hres] at hgood
      rw [hmem, hrest.memory_eq _ hgood, Cells.copy_copy]
    · rw [(Prod.mk.inj heq).1] at hgood
      exact absurd hgood hrefused
  · intro hadmits hlen m
    have heq := Copying.orElse_eq check ⟨some p, destMax, src⟩ refused rest m
    rw [if_pos (hadmits p destMax src.length hfits (hsize hlen))] at heq
    rw [(Prod.mk.inj heq).1]
    refine hrest.ends_well hadmits ?_ _
    rw [List.length_append] at hlen
    omega

/-- A piece with room for itself. -/
theorem Copying.Lays.exact_piece {refused : α} {src bs : Bytes} {destMax : Nat}
    (hrest : Copying.Lays check limit good rest (p + src.length) bs) (hrefused : ¬ good refused)
    (hsize : src.length = destMax) :
    Copying.Lays check limit good (.orElse ⟨some p, destMax, src⟩ refused rest) p (src ++ bs) := by
  refine hrest.piece hrefused (le_of_eq hsize) ?_
  rw [List.length_append]
  omega

end Lays

/-! ### Reads -/

/-- What a program that reads asks for. -/
inductive Peek
  /-- The `n` bytes at the position `off`. -/
  | read (off n : Nat)
  /-- Memory for `n` elements. -/
  | resize (n : Nat)
  deriving DecidableEq

abbrev Peek.Answer : Peek → Type
  | .read _ _ => Bytes
  | .resize _ => Bool

/-- Programs that read. -/
abbrev Peeking (α : Type) : Type := Program Peek Peek.Answer α

/-- Reads of the buffer `data`. `room` says which requests for memory are met. -/
def peekSem (data : Bytes) (room : Nat → Bool) : Sem Peek Peek.Answer Unit
  | .read off n, _, r, _ =>
      r.length = n ∧ ∀ i < n, ∀ b, data[off + i]? = some b → r[i]? = some b
  | .resize n, _, r, _ => r = room n

/-- A read that stays inside a buffer of this size. -/
def Peek.Inside (size : Nat) : Peek → Prop
  | .read off n => off + n ≤ size
  | .resize _ => True

variable {data : Bytes} {room : Nat → Bool} {Q Q' : α → Prop}

/-- Every request is answered. -/
theorem exists_peek (c : Peek) (u : Unit) : ∃ r u', peekSem data room c u r u' := by
  cases c with
  | resize n => exact ⟨room n, u, rfl⟩
  | read off n =>
      refine ⟨(List.range n).map (fun i => (data[off + i]?).getD 0), u, by simp, ?_⟩
      intro i hi b hb
      simp [hi, hb]

/-- Inside the buffer there is only one answer. -/
theorem peek_inside {off n : Nat} {r : Bytes} {u u' : Unit}
    (h : peekSem data room (.read off n) u r u') (hin : off + n ≤ data.length) :
    r = (data.drop off).take n := by
  obtain ⟨hlen, hsame⟩ := h
  refine List.ext_getElem ?_ ?_
  · rw [hlen, List.length_take, List.length_drop]
    omega
  · intro i hi hi'
    have hin' : off + i < data.length := by omega
    have hget := hsame i (by omega) data[off + i] (List.getElem?_eq_getElem hin')
    rw [List.getElem?_eq_getElem hi] at hget
    rw [Option.some.inj hget, List.getElem_take, List.getElem_drop]

/-- The program reads inside the buffer only, and returns with `Q`. -/
def Peeking.Within (data : Bytes) (room : Nat → Bool) (Q : α → Prop) : Peeking α → Prop
  | .ret a => Q a
  | .call (.read off n) k =>
      off + n ≤ data.length ∧ Peeking.Within data room Q (k ((data.drop off).take n))
  | .call (.resize n) k => Peeking.Within data room Q (k (room n))

theorem Peeking.Within.mono {p : Peeking α} (h : Peeking.Within data room Q p)
    (hQ : ∀ a, Q a → Q' a) : Peeking.Within data room Q' p := by
  induction p with
  | ret a => exact hQ a h
  | call c k ih =>
      cases c with
      | read off n => exact ⟨h.1, ih _ h.2⟩
      | resize n => exact ih _ h

theorem Peeking.Within.bind {p : Peeking α} {f : α → Peeking β} {Q : β → Prop}
    (h : Peeking.Within data room (fun a => Peeking.Within data room Q (f a)) p) :
    Peeking.Within data room Q (p >>= f) := by
  induction p with
  | ret a => exact h
  | call c k ih =>
      cases c with
      | read off n => exact ⟨h.1, ih _ h.2⟩
      | resize n => exact ih _ h

/-- What this means for a run. -/
theorem Peeking.Within.exec {p : Peeking α} (h : Peeking.Within data room Q p) {u u' : Unit}
    {tr : List (Event Peek.Answer)} {a : α} (hrun : Exec (peekSem data room) p u tr a u') :
    (∀ ev ∈ tr, ev.1.Inside data.length) ∧ Q a := by
  induction hrun with
  | ret => exact ⟨by simp, h⟩
  | @call c k w w₁ w' r tr a hs _ ih =>
      cases c with
      | read off n =>
          obtain ⟨hin, hrest⟩ := h
          rw [← peek_inside hs hin] at hrest
          obtain ⟨htr, hQ⟩ := ih hrest
          exact ⟨List.forall_mem_cons.mpr ⟨hin, htr⟩, hQ⟩
      | resize n =>
          obtain rfl : r = room n := hs
          obtain ⟨htr, hQ⟩ := ih h
          exact ⟨List.forall_mem_cons.mpr ⟨trivial, htr⟩, hQ⟩

end NativePreferences.Lib
