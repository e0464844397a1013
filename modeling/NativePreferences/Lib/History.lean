import Mathlib.Data.List.Basic

/-!
# NativePreferences.Lib.History

**What stands at the end of a history.** A history is a list of events, oldest first. Some events
establish a fact and others undo it; the fact stands at the end if it was established and has not
been undone since (`Since`). The rule for proofs that follow a run is `since_snoc`: one more event
either establishes the fact or leaves it standing.
-/

namespace NativePreferences.Lib

variable {α : Type*} {p q : α → Prop} {hist hist' : List α} {e : α}

/-- Some event of the history is a `p`, and none after it is a `q`. -/
def Since (p q : α → Prop) (hist : List α) : Prop :=
  ∃ before e after, hist = before ++ e :: after ∧ p e ∧ ∀ e' ∈ after, ¬ q e'

theorem not_since_nil : ¬ Since p q ([] : List α) := by
  intro ⟨before, e, after, heq, _, _⟩
  exact absurd heq.symm (by simp)

/-- One more event. -/
theorem since_snoc : Since p q (hist ++ [e]) ↔ p e ∨ (Since p q hist ∧ ¬ q e) := by
  constructor
  · intro ⟨before, e₁, after, heq, hp, hq⟩
    rcases List.eq_nil_or_concat after with rfl | ⟨after', e₂, rfl⟩
    · obtain ⟨-, hlast⟩ := List.append_inj' heq rfl
      obtain rfl : e = e₁ := List.head_eq_of_cons_eq hlast
      exact .inl hp
    · rw [List.concat_eq_append] at heq hq
      have hsplit : hist ++ [e] = (before ++ e₁ :: after') ++ [e₂] := by simpa using heq
      obtain ⟨rfl, hlast⟩ := List.append_inj' hsplit rfl
      obtain rfl : e = e₂ := List.head_eq_of_cons_eq hlast
      refine .inr ⟨⟨before, e₁, after', rfl, hp, ?_⟩, hq e (by simp)⟩
      intro e' he'
      exact hq e' (List.mem_append_left _ he')
  · intro h
    rcases h with hp | ⟨⟨before, e₁, after, rfl, hp, hq⟩, hnq⟩
    · exact ⟨hist, e, [], rfl, hp, by simp⟩
    · refine ⟨before, e₁, after ++ [e], by simp, hp, ?_⟩
      intro e' he'
      rcases List.mem_append.mp he' with he' | he'
      · exact hq e' he'
      · rwa [List.mem_singleton.mp he']

/-- An event that is neither changes nothing. -/
theorem since_snoc_of_neither (hp : ¬ p e) (hq : ¬ q e) :
    Since p q (hist ++ [e]) ↔ Since p q hist := by
  rw [since_snoc]
  constructor
  · intro h
    rcases h with h | h
    · exact absurd h hp
    · exact h.1
  · intro h
    exact .inr ⟨h, hq⟩

end NativePreferences.Lib
