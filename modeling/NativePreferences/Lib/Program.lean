import Mathlib.Tactic.TypeStar

/-!
# NativePreferences.Lib.Program

**Programs over calls**: straight-line code that talks to its environment only
through a fixed set of calls, and whose control flow depends on the answers.

A program is a tree of calls (`Program`). What a call can answer and what it does
to the world is a separate relation (`Sem`), so that one program text is run under
several environments: one in which nothing fails, one in which everything may fail.
Two judgments are derived from it:

* `Exec` — the program runs to its end, with the list of calls it made and the
  answers it got (its *trace*);
* `Crash` — the program is killed somewhere, between two calls or inside a call
  that is not atomic.

The rules below take both judgments apart along `do` blocks (`exec_bind_iff`,
`crash_bind_iff`), so that a proof about a long program is assembled from one
lemma per function it calls.
-/

namespace NativePreferences.Lib

/-- Programs over the calls `C`, where the call `c` is answered by an `R c`. -/
inductive Program (C : Type) (R : C → Type) (α : Type) : Type
  | ret (a : α)
  | call (c : C) (k : R c → Program C R α)

variable {C : Type} {R : C → Type} {W α β : Type}

namespace Program

/-- Sequencing: run `f` on the result of the program. -/
def bind : Program C R α → (α → Program C R β) → Program C R β
  | .ret a, f => f a
  | .call c k, f => .call c (fun r => (k r).bind f)

instance : Monad (Program C R) where
  pure := .ret
  bind := Program.bind

/-- The program that makes one call and returns its answer. -/
def op (c : C) : Program C R (R c) := .call c .ret

@[simp] theorem pure_eq_ret (a : α) : (pure a : Program C R α) = .ret a := rfl

@[simp] theorem ret_bind (a : α) (f : α → Program C R β) : (Program.ret a >>= f) = f a := rfl

@[simp] theorem call_bind (c : C) (k : R c → Program C R α) (f : α → Program C R β) :
    (Program.call c k >>= f) = .call c (fun r => k r >>= f) := rfl

theorem bind_assoc {γ : Type} (p : Program C R α) (f : α → Program C R β)
    (g : β → Program C R γ) : (p >>= f) >>= g = p >>= fun a => f a >>= g := by
  induction p with
  | ret a => rfl
  | call c k ih =>
      simp only [call_bind]
      exact congrArg (Program.call c) (funext ih)

@[simp] theorem map_eq_bind (g : α → β) (p : Program C R α) :
    g <$> p = p >>= fun a => .ret (g a) := rfl

end Program

/-- What an environment does with a call: `S c w r w'` says that in the world `w` the
call `c` may be answered by `r`, leaving the world `w'`. -/
abbrev Sem (C : Type) (R : C → Type) (W : Type) : Type := (c : C) → W → R c → W → Prop

/-- A call together with the answer it got. -/
abbrev Event (R : C → Type) : Type := Σ c, R c

/-- `Exec S p w tr a w'`: started in `w`, the program `p` runs to its end with result
`a` in the world `w'`, and `tr` lists its calls with their answers. -/
inductive Exec (S : Sem C R W) : Program C R α → W → List (Event R) → α → W → Prop
  | ret {a : α} {w : W} : Exec S (.ret a) w [] a w
  | call {c : C} {k : R c → Program C R α} {w w₁ w' : W} {r : R c} {tr : List (Event R)}
      {a : α} :
      S c w r w₁ → Exec S (k r) w₁ tr a w' → Exec S (.call c k) w (⟨c, r⟩ :: tr) a w'

/-- `Crash S mid p w w'`: started in `w`, the program `p` may be killed with the world
in `w'`. It is killed before a call or after its last one (`here`), in the middle of a
call (`inside`, with `mid` the half-done states of that call), or later (`after`). -/
inductive Crash (S : Sem C R W) (mid : C → W → W → Prop) : Program C R α → W → W → Prop
  | here {p : Program C R α} {w : W} : Crash S mid p w w
  | inside {c : C} {k : R c → Program C R α} {w w' : W} :
      mid c w w' → Crash S mid (.call c k) w w'
  | after {c : C} {k : R c → Program C R α} {w w₁ w' : W} {r : R c} :
      S c w r w₁ → Crash S mid (k r) w₁ w' → Crash S mid (.call c k) w w'

variable {S : Sem C R W} {mid : C → W → W → Prop}

/-! ### Taking executions apart -/

@[simp] theorem exec_ret_iff {a b : α} {w w' : W} {tr : List (Event R)} :
    Exec S (.ret a) w tr b w' ↔ tr = [] ∧ b = a ∧ w' = w := by
  constructor
  · intro h
    cases h
    exact ⟨rfl, rfl, rfl⟩
  · rintro ⟨rfl, rfl, rfl⟩
    exact .ret

@[simp] theorem exec_call_iff {c : C} {k : R c → Program C R α} {w w' : W}
    {tr : List (Event R)} {a : α} :
    Exec S (.call c k) w tr a w' ↔
      ∃ r w₁ tr₁, S c w r w₁ ∧ Exec S (k r) w₁ tr₁ a w' ∧ tr = ⟨c, r⟩ :: tr₁ := by
  constructor
  · intro h
    cases h with
    | call hs hk => exact ⟨_, _, _, hs, hk, rfl⟩
  · rintro ⟨r, w₁, tr₁, hs, hk, rfl⟩
    exact .call hs hk

/-- A sequence runs its first part and then its second. -/
theorem exec_bind_iff {p : Program C R α} {f : α → Program C R β} {w w' : W}
    {tr : List (Event R)} {b : β} :
    Exec S (p >>= f) w tr b w' ↔
      ∃ tr₁ a w₁ tr₂, Exec S p w tr₁ a w₁ ∧ Exec S (f a) w₁ tr₂ b w' ∧ tr = tr₁ ++ tr₂ := by
  induction p generalizing w tr with
  | ret a =>
      constructor
      · intro h
        exact ⟨[], a, w, tr, .ret, h, rfl⟩
      · rintro ⟨tr₁, a', w₁, tr₂, ha, hf, rfl⟩
        obtain ⟨rfl, rfl, rfl⟩ := exec_ret_iff.mp ha
        exact hf
  | call c k ih =>
      simp only [Program.call_bind, exec_call_iff, ih]
      constructor
      · rintro ⟨r, w₁, tr₁, hs, ⟨tr₂, a, w₂, tr₃, hk, hf, rfl⟩, rfl⟩
        exact ⟨⟨c, r⟩ :: tr₂, a, w₂, tr₃, ⟨r, w₁, tr₂, hs, hk, rfl⟩, hf, rfl⟩
      · rintro ⟨_, a, w₂, tr₃, ⟨r, w₁, tr₂, hs, hk, rfl⟩, hf, rfl⟩
        exact ⟨r, w₁, tr₂ ++ tr₃, hs, ⟨tr₂, a, w₂, tr₃, hk, hf, rfl⟩, rfl⟩

@[simp] theorem exec_op_iff {c : C} {w w' : W} {tr : List (Event R)} {r : R c} :
    Exec S (Program.op c) w tr r w' ↔ S c w r w' ∧ tr = [⟨c, r⟩] := by
  simp only [Program.op, exec_call_iff, exec_ret_iff]
  constructor
  · rintro ⟨r', w₁, tr₁, hs, ⟨rfl, rfl, rfl⟩, rfl⟩
    exact ⟨hs, rfl⟩
  · rintro ⟨hs, rfl⟩
    exact ⟨r, w', [], hs, ⟨rfl, rfl, rfl⟩, rfl⟩

/-- A single call whose answer is translated. -/
theorem exec_op_translated_iff {c : C} {f : R c → β} {w w' : W} {tr : List (Event R)} {b : β} :
    Exec S (Program.op c >>= fun r => .ret (f r)) w tr b w' ↔
      ∃ r, S c w r w' ∧ tr = [⟨c, r⟩] ∧ b = f r := by
  constructor
  · intro h
    obtain ⟨tr₁, r, w₁, tr₂, hop, hret, rfl⟩ := exec_bind_iff.mp h
    obtain ⟨hS, rfl⟩ := exec_op_iff.mp hop
    obtain ⟨rfl, rfl, rfl⟩ := exec_ret_iff.mp hret
    exact ⟨r, hS, rfl, rfl⟩
  · intro ⟨r, hS, htr, hb⟩
    rw [htr, hb]
    exact .call hS .ret

theorem exec_op_translated {c : C} {f : R c → β} {w w' : W} {tr : List (Event R)} {b : β}
    (h : Exec S (Program.op c >>= fun r => .ret (f r)) w tr b w') :
    ∃ r, S c w r w' ∧ tr = [⟨c, r⟩] ∧ b = f r :=
  exec_op_translated_iff.mp h

/-! ### Taking crashes apart -/

@[simp] theorem crash_ret_iff {a : α} {w w' : W} : Crash S mid (.ret a) w w' ↔ w' = w := by
  constructor
  · intro h
    cases h
    rfl
  · rintro rfl
    exact .here

@[simp] theorem crash_call_iff {c : C} {k : R c → Program C R α} {w w' : W} :
    Crash S mid (.call c k) w w' ↔
      w' = w ∨ mid c w w' ∨ ∃ r w₁, S c w r w₁ ∧ Crash S mid (k r) w₁ w' := by
  constructor
  · intro h
    cases h with
    | here => exact .inl rfl
    | inside hm => exact .inr (.inl hm)
    | after hs hk => exact .inr (.inr ⟨_, _, hs, hk⟩)
  · rintro (rfl | hm | ⟨r, w₁, hs, hk⟩)
    · exact .here
    · exact .inside hm
    · exact .after hs hk

/-- A sequence is killed in its first part, or in its second after the first is done. -/
theorem crash_bind_iff {p : Program C R α} {f : α → Program C R β} {w w' : W} :
    Crash S mid (p >>= f) w w' ↔
      Crash S mid p w w' ∨ ∃ tr a w₁, Exec S p w tr a w₁ ∧ Crash S mid (f a) w₁ w' := by
  induction p generalizing w with
  | ret a =>
      constructor
      · intro h
        exact .inr ⟨[], a, w, .ret, h⟩
      · rintro (h | ⟨tr, a', w₁, he, h⟩)
        · obtain rfl := crash_ret_iff.mp h
          exact .here
        · obtain ⟨-, rfl, rfl⟩ := exec_ret_iff.mp he
          exact h
  | call c k ih =>
      simp only [Program.call_bind, crash_call_iff, exec_call_iff, ih]
      constructor
      · rintro (rfl | hm | ⟨r, w₁, hs, hk | ⟨tr, a, w₂, he, hf⟩⟩)
        · exact .inl (.inl rfl)
        · exact .inl (.inr (.inl hm))
        · exact .inl (.inr (.inr ⟨r, w₁, hs, hk⟩))
        · exact .inr ⟨_, a, w₂, ⟨r, w₁, tr, hs, he, rfl⟩, hf⟩
      · rintro ((rfl | hm | ⟨r, w₁, hs, hk⟩) | ⟨_, a, w₂, ⟨r, w₁, tr, hs, he, rfl⟩, hf⟩)
        · exact .inl rfl
        · exact .inr (.inl hm)
        · exact .inr (.inr ⟨r, w₁, hs, .inl hk⟩)
        · exact .inr (.inr ⟨r, w₁, hs, .inr ⟨tr, a, w₂, he, hf⟩⟩)

@[simp] theorem crash_op_iff {c : C} {w w' : W} :
    Crash S mid (Program.op c : Program C R (R c)) w w' ↔
      w' = w ∨ mid c w w' ∨ ∃ r, S c w r w' := by
  simp only [Program.op, crash_call_iff, crash_ret_iff]
  constructor
  · rintro (rfl | hm | ⟨r, w₁, hs, rfl⟩)
    · exact .inl rfl
    · exact .inr (.inl hm)
    · exact .inr (.inr ⟨r, hs⟩)
  · rintro (rfl | hm | ⟨r, hs⟩)
    · exact .inl rfl
    · exact .inr (.inl hm)
    · exact .inr (.inr ⟨r, w', hs, rfl⟩)

/-! ### Programs that make only some calls

A part of a program that makes only harmless calls (reports, queries) is stepped over
in one go: it leaves the world as it is, and its trace holds only such calls. -/

/-- Every call the program can make satisfies `P`. -/
def Program.OnlyCalls (P : C → Prop) : Program C R α → Prop
  | .ret _ => True
  | .call c k => P c ∧ ∀ r, (k r).OnlyCalls P

theorem Program.onlyCalls_bind {P : C → Prop} {p : Program C R α} {f : α → Program C R β}
    (hp : p.OnlyCalls P) (hf : ∀ a, (f a).OnlyCalls P) : (p >>= f).OnlyCalls P := by
  induction p with
  | ret a => exact hf a
  | call c k ih => exact ⟨hp.1, fun r => ih r (hp.2 r)⟩

theorem Program.onlyCalls_op {P : C → Prop} {c : C} (hc : P c) :
    (Program.op c : Program C R (R c)).OnlyCalls P := ⟨hc, fun _ => trivial⟩

theorem Program.OnlyCalls.mono {P Q : C → Prop} (hPQ : ∀ c, P c → Q c) {p : Program C R α}
    (hp : p.OnlyCalls P) : p.OnlyCalls Q := by
  induction p with
  | ret a => trivial
  | call c k ih => exact ⟨hPQ c hp.1, fun r => ih r (hp.2 r)⟩

/-- The trace of such a program consists of such calls. -/
theorem Exec.onlyCalls {P : C → Prop} {p : Program C R α} {w w' : W} {tr : List (Event R)}
    {a : α} (h : Exec S p w tr a w') (hp : p.OnlyCalls P) : ∀ ev ∈ tr, P ev.1 := by
  induction h with
  | ret => simp
  | call _ _ ih =>
      intro ev hev
      rcases List.mem_cons.mp hev with rfl | hev
      · exact hp.1
      · exact ih (hp.2 _) ev hev

/-- Invariant rule: what every call keeps, the program keeps. -/
theorem Exec.invariant {P : C → Prop} {I : W → Prop}
    (hS : ∀ c w r w', P c → I w → S c w r w' → I w')
    {p : Program C R α} {w w' : W} {tr : List (Event R)} {a : α}
    (h : Exec S p w tr a w') (hp : p.OnlyCalls P) (hI : I w) : I w' := by
  induction h with
  | ret => exact hI
  | call hs _ ih => exact ih (hp.2 _) (hS _ _ _ _ hp.1 hI hs)

/-- The invariant rule for a program that is killed. -/
theorem Crash.invariant {P : C → Prop} {I : W → Prop}
    (hS : ∀ c w r w', P c → I w → S c w r w' → I w')
    (hmid : ∀ c w w', P c → I w → mid c w w' → I w')
    {p : Program C R α} {w w' : W} (h : Crash S mid p w w') (hp : p.OnlyCalls P) (hI : I w) :
    I w' := by
  induction h with
  | here => exact hI
  | inside hm => exact hmid _ _ _ hp.1 hI hm
  | after hs _ ih => exact ih (hp.2 _) (hS _ _ _ _ hp.1 hI hs)

/-- Frame rule: calls that change nothing add up to a program that changes nothing. -/
theorem Exec.frame {P : C → Prop} (hS : ∀ c w r w', P c → S c w r w' → w' = w)
    {p : Program C R α} {w w' : W} {tr : List (Event R)} {a : α}
    (h : Exec S p w tr a w') (hp : p.OnlyCalls P) : w' = w := by
  refine h.invariant (I := fun v => v = w) ?_ hp rfl
  intro c v r v' hc hv hs
  exact (hS c v r v' hc hs).trans hv

/-- The frame rule for a program that is killed. -/
theorem Crash.frame {P : C → Prop} (hS : ∀ c w r w', P c → S c w r w' → w' = w)
    (hmid : ∀ c w w', P c → mid c w w' → w' = w)
    {p : Program C R α} {w w' : W} (h : Crash S mid p w w') (hp : p.OnlyCalls P) : w' = w := by
  refine h.invariant (I := fun v => v = w) ?_ ?_ hp rfl
  · intro c v r v' hc hv hs
    exact (hS c v r v' hc hs).trans hv
  · intro c v v' hc hv hm
    exact (hmid c v v' hc hm).trans hv

/-! ### What a program may return -/

/-- Every result that the program can return satisfies `P`, whatever it is answered. -/
def Program.Returns (P : α → Prop) : Program C R α → Prop
  | .ret a => P a
  | .call _ k => ∀ r, (k r).Returns P

theorem Program.returns_bind {P : β → Prop} {f : α → Program C R β} (hf : ∀ a, (f a).Returns P)
    (p : Program C R α) : (p >>= f).Returns P := by
  induction p with
  | ret a => exact hf a
  | call c k ih => exact fun r => ih r

theorem Exec.returns {P : α → Prop} {p : Program C R α} {w w' : W} {tr : List (Event R)} {a : α}
    (h : Exec S p w tr a w') (hp : p.Returns P) : P a := by
  induction h with
  | ret => exact hp
  | call _ _ ih => exact ih (hp _)

/-! ### Other environments -/

/-- Simulation rule: where each call of one environment has its counterpart in another, an
execution has one too, with the same trace and the same result. -/
theorem Exec.simulate {V : Type} {S' : Sem C R V} {P : C → Prop} {Q : W → V → Prop}
    (hS : ∀ c w v r w', P c → Q w v → S c w r w' → ∃ v', S' c v r v' ∧ Q w' v')
    {p : Program C R α} {w w' : W} {v : V} {tr : List (Event R)} {a : α}
    (h : Exec S p w tr a w') (hp : p.OnlyCalls P) (hQ : Q w v) :
    ∃ v', Exec S' p v tr a v' ∧ Q w' v' := by
  induction h generalizing v with
  | ret => exact ⟨v, .ret, hQ⟩
  | call hs _ ih =>
      obtain ⟨v₁, hs', hQ₁⟩ := hS _ _ _ _ _ hp.1 hQ hs
      obtain ⟨v', hk, hQ'⟩ := ih (hp.2 _) hQ₁
      exact ⟨v', .call hs' hk, hQ'⟩

/-- An environment with more answers. -/
theorem Exec.sem_mono {S' : Sem C R W} {p : Program C R α} {w w' : W} {tr : List (Event R)} {a : α}
    (hS : ∀ c w r w', S c w r w' → S' c w r w') (h : Exec S p w tr a w') :
    Exec S' p w tr a w' := by
  induction h with
  | ret => exact .ret
  | call hs _ ih => exact .call (hS _ _ _ _ hs) ih

/-- What every answer satisfies, those in a trace do. -/
theorem Exec.forall_event {P : Event R → Prop} (hS : ∀ c w r w', S c w r w' → P ⟨c, r⟩)
    {p : Program C R α} {w w' : W} {tr : List (Event R)} {a : α} (h : Exec S p w tr a w') :
    ∀ ev ∈ tr, P ev := by
  induction h with
  | ret => simp
  | call hs _ ih =>
      intro ev hev
      rcases List.mem_cons.mp hev with rfl | hev
      · exact hS _ _ _ _ hs
      · exact ih ev hev

/-- Where every call of a program is answered, the program comes to its end. -/
theorem Program.OnlyCalls.exists_exec {P : C → Prop} (hS : ∀ c w, P c → ∃ r w', S c w r w')
    {p : Program C R α} (hp : p.OnlyCalls P) (w : W) : ∃ tr a w', Exec S p w tr a w' := by
  induction p generalizing w with
  | ret a => exact ⟨[], a, w, .ret⟩
  | call c k ih =>
      obtain ⟨r, w₁, hs⟩ := hS c w hp.1
      obtain ⟨tr, a, w', hk⟩ := ih r (hp.2 r) w₁
      exact ⟨⟨c, r⟩ :: tr, a, w', .call hs hk⟩

/-- Where every call is answered, every program comes to its end. -/
theorem exists_exec (hS : ∀ c w, ∃ r w', S c w r w') (p : Program C R α) (w : W) :
    ∃ tr a w', Exec S p w tr a w' := by
  have hall : p.OnlyCalls (fun _ => True) := by
    induction p with
    | ret a => trivial
    | call c k ih => exact ⟨trivial, ih⟩
  exact hall.exists_exec (fun c w _ => hS c w) w

/-! ### Running a program

An environment that also says *which* answer it gives runs every program to its end. -/

/-- Run the program with the answers given by `answer`. -/
def Program.interp (answer : (c : C) → W → R c × W) :
    Program C R α → W → List (Event R) × α × W
  | .ret a, w => ([], a, w)
  | .call c k, w =>
      let (r, w₁) := answer c w
      let (tr, a, w') := (k r).interp answer w₁
      (⟨c, r⟩ :: tr, a, w')

/-- Answers that the environment allows make an execution. -/
theorem exec_interp {answer : (c : C) → W → R c × W} {P : C → Prop}
    (hS : ∀ c w, P c → S c w (answer c w).1 (answer c w).2)
    {p : Program C R α} (hp : p.OnlyCalls P) (w : W) :
    Exec S p w (p.interp answer w).1 (p.interp answer w).2.1 (p.interp answer w).2.2 := by
  induction p generalizing w with
  | ret a => exact .ret
  | call c k ih => exact .call (hS c w hp.1) (ih _ (hp.2 _) _)

end NativePreferences.Lib
