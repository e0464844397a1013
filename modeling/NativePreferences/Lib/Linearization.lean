import Mathlib.Data.List.Basic

/-!
# NativePreferences.Lib.Linearization

**Histories of overlapping calls, and the sequential executions that explain them.**

An object is given by what each operation does when it runs alone: `apply s o` is the reply
and the next state. A history is the list of calls and returns of a concurrent run, in the
order of time; calls are told apart by numbers. It is explained by a log, a list of calls in
some order, if running the operations of the log one after the other gives each returned call
its reply, and the log never puts a call before one that had returned when it was made
(`Explains`).

The rules at the end say how an explanation is extended as the run goes on. In them the log
only grows at its end: a call joins it at the step at which it takes effect.
-/

namespace NativePreferences.Lib

variable {σ O A : Type*}

/-- A call that is made, or that returns. -/
inductive CallEvent (O A : Type*)
  | call (i : Nat) (o : O)
  | ret (i : Nat) (a : A)

/-- `x` comes before `y` in the list. -/
def Before {α : Type*} (l : List α) (x y : α) : Prop :=
  ∃ l₁ l₂ l₃, l = l₁ ++ x :: (l₂ ++ y :: l₃)

/-- Running the operations of the log one after the other from `s` gives the replies in the log
and ends in `s'`. -/
def Replays (apply : σ → O → A × σ) : σ → List (Nat × O × A) → σ → Prop
  | s, [], s' => s' = s
  | s, (_, o, a) :: log, s' => (apply s o).1 = a ∧ Replays apply (apply s o).2 log s'

/-- The log is a sequential execution that explains the history. -/
structure Explains (apply : σ → O → A × σ) (s₀ : σ) (h : List (CallEvent O A))
    (log : List (Nat × O × A)) (s : σ) : Prop where
  replays : Replays apply s₀ log s
  /-- No call is in the log twice. -/
  nodup : (log.map Prod.fst).Nodup
  /-- What is in the log was called. -/
  called : ∀ i o a, (i, o, a) ∈ log → .call i o ∈ h
  /-- What has returned is in the log, with the reply it returned. -/
  returned : ∀ i a, .ret i a ∈ h → ∃ o, (i, o, a) ∈ log
  /-- A call that returned before another was made comes before it in the log. -/
  ordered : ∀ i j a o, Before h (.ret i a) (.call j o) → j ∈ log.map Prod.fst →
    Before (log.map Prod.fst) i j

/-! ### Lists -/

theorem Before.mem_left {α : Type*} {l : List α} {x y : α} (h : Before l x y) : x ∈ l := by
  obtain ⟨l₁, l₂, l₃, rfl⟩ := h
  simp

theorem Before.snoc {α : Type*} {l : List α} {x y : α} (h : Before l x y) (z : α) :
    Before (l ++ [z]) x y := by
  obtain ⟨l₁, l₂, l₃, rfl⟩ := h
  exact ⟨l₁, l₂, l₃ ++ [z], by simp⟩

theorem before_last {α : Type*} {l : List α} {x : α} (h : x ∈ l) (z : α) :
    Before (l ++ [z]) x z := by
  obtain ⟨l₁, l₂, rfl⟩ := List.append_of_mem h
  exact ⟨l₁, l₂, [], by simp⟩

/-- What comes before something in a longer list does so already, or that something is new. -/
theorem Before.of_snoc {α : Type*} {l : List α} {x y z : α} (h : Before (l ++ [z]) x y) :
    Before l x y ∨ (x ∈ l ∧ y = z) := by
  obtain ⟨l₁, l₂, l₃, heq⟩ := h
  rcases List.eq_nil_or_concat l₃ with rfl | ⟨l₃', w, rfl⟩
  · have hsplit : l ++ [z] = (l₁ ++ x :: l₂) ++ [y] := by simp [heq]
    obtain ⟨hl, hz⟩ := List.append_inj' hsplit rfl
    refine .inr ⟨?_, (List.singleton_inj.mp hz).symm⟩
    rw [hl]
    simp
  · have hsplit : l ++ [z] = (l₁ ++ x :: (l₂ ++ y :: l₃')) ++ [w] := by simp [heq]
    obtain ⟨hl, -⟩ := List.append_inj' hsplit rfl
    exact .inl ⟨l₁, l₂, l₃', hl⟩

theorem Replays.snoc {apply : σ → O → A × σ} {s s' : σ} {log : List (Nat × O × A)}
    (h : Replays apply s log s') (i : Nat) (o : O) :
    Replays apply s (log ++ [(i, o, (apply s' o).1)]) (apply s' o).2 := by
  induction log generalizing s with
  | nil =>
      obtain rfl : s' = s := h
      exact ⟨rfl, rfl⟩
  | cons entry log ih =>
      obtain ⟨j, o', a⟩ := entry
      obtain ⟨hreply, hrest⟩ := h
      exact ⟨hreply, ih hrest⟩

/-! ### Extending an explanation -/

section Explains

variable {apply : σ → O → A × σ} {s₀ s : σ} {h : List (CallEvent O A)} {log : List (Nat × O × A)}
variable {i : Nat} {o : O} {a : A}

theorem explains_nil (apply : σ → O → A × σ) (s₀ : σ) : Explains apply s₀ [] [] s₀ where
  replays := rfl
  nodup := List.nodup_nil
  called := by simp
  returned := by simp
  ordered := fun _ _ _ _ hbefore => absurd hbefore.mem_left (by simp)

/-- A call with a new number. -/
theorem Explains.call (hex : Explains apply s₀ h log s) (hnew : ∀ o, .call i o ∉ h) (o : O) :
    Explains apply s₀ (h ++ [.call i o]) log s where
  replays := hex.replays
  nodup := hex.nodup
  called := fun j o' a hmem => List.mem_append_left _ (hex.called j o' a hmem)
  returned := by
    intro j a hret
    rcases List.mem_append.mp hret with hold | hlast
    · exact hex.returned j a hold
    · exact absurd hlast (by simp)
  ordered := by
    intro j k a o' hbefore hk
    rcases hbefore.of_snoc with hold | ⟨-, heq⟩
    · exact hex.ordered j k a o' hold hk
    · -- the call is new, so it cannot be in the log
      obtain ⟨rfl, rfl⟩ : k = i ∧ o' = o := by simpa using heq
      obtain ⟨⟨k', o'', a'⟩, hmem, rfl⟩ := List.mem_map.mp hk
      exact absurd (hex.called _ _ _ hmem) (hnew o'')

/-- A call that is in the log returns. -/
theorem Explains.ret (hex : Explains apply s₀ h log s) (hmem : (i, o, a) ∈ log) :
    Explains apply s₀ (h ++ [.ret i a]) log s where
  replays := hex.replays
  nodup := hex.nodup
  called := fun j o' a' hmem => List.mem_append_left _ (hex.called j o' a' hmem)
  returned := by
    intro j a' hret
    rcases List.mem_append.mp hret with hold | hlast
    · exact hex.returned j a' hold
    · obtain ⟨rfl, rfl⟩ : j = i ∧ a' = a := by simpa using hlast
      exact ⟨o, hmem⟩
  ordered := by
    intro j k a' o' hbefore hk
    rcases hbefore.of_snoc with hold | ⟨-, heq⟩
    · exact hex.ordered j k a' o' hold hk
    · exact absurd heq (by simp)

/-- A call takes effect. -/
theorem Explains.commit (hex : Explains apply s₀ h log s) (hcall : .call i o ∈ h)
    (hnot : i ∉ log.map Prod.fst) :
    Explains apply s₀ h (log ++ [(i, o, (apply s o).1)]) (apply s o).2 where
  replays := hex.replays.snoc i o
  nodup := by
    rw [List.map_append, List.nodup_append]
    refine ⟨hex.nodup, by simp, ?_⟩
    intro j hj k hk heq
    obtain rfl : k = i := by simpa using hk
    exact hnot (heq ▸ hj)
  called := by
    intro j o' a hmem
    rcases List.mem_append.mp hmem with hold | hlast
    · exact hex.called j o' a hold
    · obtain ⟨rfl, rfl, -⟩ : j = i ∧ o' = o ∧ a = (apply s o).1 := by simpa using hlast
      exact hcall
  returned := by
    intro j a hret
    obtain ⟨o', hmem⟩ := hex.returned j a hret
    exact ⟨o', List.mem_append_left _ hmem⟩
  ordered := by
    intro j k a o' hbefore hk
    rw [List.map_append] at hk ⊢
    rcases List.mem_append.mp hk with hold | hlast
    · exact (hex.ordered j k a o' hbefore hold).snoc i
    · -- the call that takes effect comes last, and what has returned is in the log
      obtain rfl : k = i := by simpa using hlast
      obtain ⟨o'', hmem⟩ := hex.returned j a hbefore.mem_left
      exact before_last (List.mem_map_of_mem hmem) _

end Explains

end NativePreferences.Lib
