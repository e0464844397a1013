import Mathlib.Tactic.TypeStar

/-!
# NativePreferences.Lib.Transition

**Labelled transition systems and their runs.**

A system is a relation `step s l s'` between states, labelled by what an observer sees.
`Run step s ls s'` is a finite run with the list of its labels, oldest first. The rules
below are the two inductions every safety proof uses: an invariant that each step keeps
holds along every run (`Run.invariant`), and so does one that may also mention what has
been observed so far (`Run.invariant_history`).

A run whose steps all meet a side condition is a run of the restricted system
(`guarded`). To speak of the states that one run goes through, take a run of the system
whose labels show them (`recorded`).
-/

namespace NativePreferences.Lib

variable {σ ℓ : Type*}

/-- `Run step s ls s'`: from `s`, steps with the labels `ls` lead to `s'`. -/
inductive Run (step : σ → ℓ → σ → Prop) : σ → List ℓ → σ → Prop
  | nil {s : σ} : Run step s [] s
  | cons {s s₁ s' : σ} {l : ℓ} {ls : List ℓ} :
      step s l s₁ → Run step s₁ ls s' → Run step s (l :: ls) s'

/-- The system `step` restricted to the steps that meet `ok`. -/
def guarded (step : σ → ℓ → σ → Prop) (ok : σ → ℓ → Prop) (s : σ) (l : ℓ) (s' : σ) : Prop :=
  step s l s' ∧ ok s l

/-- The system whose labels also show the state that the step leads to. -/
def recorded (step : σ → ℓ → σ → Prop) (s : σ) (l : ℓ × σ) (s' : σ) : Prop :=
  step s l.1 s' ∧ l.2 = s'

/-- The states of a recorded run that starts in `s`. -/
def states (s : σ) (ls : List (ℓ × σ)) : List σ := s :: ls.map Prod.snd

variable {step : σ → ℓ → σ → Prop} {s s' s'' : σ} {ls ls' : List ℓ}

namespace Run

/-- Runs compose. -/
theorem append (h : Run step s ls s') (h' : Run step s' ls' s'') :
    Run step s (ls ++ ls') s'' := by
  induction h with
  | nil => exact h'
  | cons hs _ ih => exact .cons hs (ih h')

/-- One step more. -/
theorem snoc {l : ℓ} (h : Run step s ls s') (hs : step s' l s'') : Run step s (ls ++ [l]) s'' :=
  h.append (.cons hs .nil)

/-- A run can be cut where its labels are. -/
theorem append_inv (h : Run step s (ls ++ ls') s'') :
    ∃ s', Run step s ls s' ∧ Run step s' ls' s'' := by
  induction ls generalizing s with
  | nil => exact ⟨s, .nil, h⟩
  | cons l ls ih =>
      cases h with
      | cons hs hrest =>
          obtain ⟨u, hrun, hrun'⟩ := ih hrest
          exact ⟨u, .cons hs hrun, hrun'⟩

/-- What every step of one system does, the other can do too. -/
theorem mono {step' : σ → ℓ → σ → Prop} (hsub : ∀ s l s', step s l s' → step' s l s')
    (h : Run step s ls s') : Run step' s ls s' := by
  induction h with
  | nil => exact .nil
  | cons hs _ ih => exact .cons (hsub _ _ _ hs) ih

/-- A run of a restricted system is a run of the system. -/
theorem unguard {ok : σ → ℓ → Prop} (h : Run (guarded step ok) s ls s') : Run step s ls s' :=
  h.mono (fun _ _ _ hs => hs.1)

/-- A run in which an invariant makes every step meet a condition is a run of the system
restricted by it. -/
theorem guard_invariant {I : σ → Prop} {ok : σ → ℓ → Prop}
    (hstep : ∀ s l s', I s → step s l s' → I s') (h : Run step s ls s') (hI : I s)
    (hall : ∀ l ∈ ls, ∀ s, I s → ok s l) : Run (guarded step ok) s ls s' := by
  induction h with
  | nil => exact .nil
  | cons hs _ ih =>
      refine .cons ⟨hs, hall _ List.mem_cons_self _ hI⟩ (ih (hstep _ _ _ hI hs) ?_)
      intro l hl
      exact hall l (List.mem_cons_of_mem _ hl)

/-- A run whose labels all meet a condition is a run of the system restricted by it. -/
theorem guard {ok : ℓ → Prop} (h : Run step s ls s') (hall : ∀ l ∈ ls, ok l) :
    Run (guarded step (fun _ l => ok l)) s ls s' :=
  h.guard_invariant (I := fun _ => True) (fun _ _ _ _ _ => trivial) trivial
    (fun l hl _ _ => hall l hl)

/-- Every run can be recorded. -/
theorem record (h : Run step s ls s') :
    ∃ rs, Run (recorded step) s rs s' ∧ rs.map Prod.fst = ls := by
  induction h with
  | nil => exact ⟨[], .nil, rfl⟩
  | @cons s s₁ s' l ls hs _ ih =>
      obtain ⟨rs, hrun, hls⟩ := ih
      refine ⟨(l, s₁) :: rs, .cons ⟨hs, rfl⟩ hrun, ?_⟩
      rw [List.map_cons, hls]

/-- Invariant rule with history: what holds at first, and is kept by each step when the
step's label joins the history, holds at the end of every run. -/
theorem invariant_history {I : List ℓ → σ → Prop}
    (hstep : ∀ hist s l s', I hist s → step s l s' → I (hist ++ [l]) s')
    (hrun : Run step s ls s') (hist : List ℓ) (h : I hist s) : I (hist ++ ls) s' := by
  induction hrun generalizing hist with
  | nil => simpa using h
  | @cons s s₁ s' l ls hs _ ih =>
      have hnext : I (hist ++ [l]) s₁ := hstep hist s l s₁ h hs
      simpa using ih (hist ++ [l]) hnext

/-- Invariant rule with the states passed so far. -/
theorem invariant_states {I : List σ → σ → Prop} {ls : List (ℓ × σ)}
    (hstep : ∀ seen s l s', I seen s → step s l s' → I (seen ++ [s']) s')
    (hrun : Run (recorded step) s ls s') (h : I [s] s) : I (states s ls) s' := by
  have hrule := hrun.invariant_history (I := fun hist s' => I (states s hist) s') ?_ [] h
  · simpa using hrule
  · intro hist s₁ l s₂ hI ⟨hs, heq⟩
    have hnext : I (states s hist ++ [s₂]) s₂ := hstep _ s₁ l.1 s₂ hI hs
    simpa [states, heq] using hnext

/-- Invariant rule. -/
theorem invariant {I : σ → Prop} (hstep : ∀ s l s', I s → step s l s' → I s')
    (hrun : Run step s ls s') (h : I s) : I s' := by
  induction hrun with
  | nil => exact h
  | cons hs _ ih => exact ih (hstep _ _ _ h hs)

/-- What holds at first and not at the end has been ended by a step. -/
theorem exists_change {P : σ → Prop} (hrun : Run step s ls s') (h : P s) (h' : ¬ P s') :
    ∃ ls₁ l ls₂ s₁ s₂, ls = ls₁ ++ l :: ls₂ ∧ Run step s ls₁ s₁ ∧ step s₁ l s₂ ∧
      Run step s₂ ls₂ s' ∧ P s₁ ∧ ¬ P s₂ := by
  induction hrun with
  | nil => exact absurd h h'
  | @cons s s₁ s' l ls hs hrest ih =>
      by_cases hnext : P s₁
      · obtain ⟨ls₁, l', ls₂, u, u', rfl, hrun₁, hstep, hrun₂, hP, hnot⟩ := ih hnext h'
        exact ⟨l :: ls₁, l', ls₂, u, u', rfl, .cons hs hrun₁, hstep, hrun₂, hP, hnot⟩
      · exact ⟨[], l, ls, s, s₁, rfl, .nil, hs, hrest, h, hnext⟩

/-- Where `b` cannot happen while a property holds, and only `a` ends the property, `b` comes
after an `a`. -/
theorem precedes {P : σ → Prop} {a b : ℓ}
    (hstep : ∀ s l s', P s → step s l s' → l ≠ b ∧ (P s' ∨ l = a))
    (hrun : Run step s ls s') (h : P s) {before after : List ℓ}
    (hls : ls = before ++ b :: after) : a ∈ before := by
  induction hrun generalizing before with
  | nil => exact absurd hls.symm (List.append_ne_nil_of_right_ne_nil _ (List.cons_ne_nil _ _))
  | cons hs _ ih =>
      obtain ⟨hne, hnext⟩ := hstep _ _ _ h hs
      cases before with
      | nil => exact absurd (List.cons.inj hls).1 hne
      | cons l' before =>
          obtain ⟨rfl, htail⟩ := List.cons.inj hls
          obtain hnext | rfl := hnext
          · exact List.mem_cons_of_mem _ (ih hnext htail)
          · exact List.mem_cons_self

end Run

end NativePreferences.Lib
