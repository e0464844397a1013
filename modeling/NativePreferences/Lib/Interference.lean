import NativePreferences.Lib.Program

/-!
# NativePreferences.Lib.Interference

**Postconditions of programs over calls, in a world that others may change.** Before each call of
the program the world moves by the relation `T`, the *rely* condition; then the call is answered.
`p.Ensures S T Q w` says that the program `p`, started in `w`, can only end with a result and a
world that satisfy `Q`. The world of a result is the one right after the last call.

With equality for `T` nobody interferes, and this is a postcondition of `Exec` (`Exec.ensures`).
-/

namespace NativePreferences.Lib

variable {C : Type} {R : C → Type} {W α β : Type}
variable {S : Sem C R W} {T : W → W → Prop} {Q Q' : α → W → Prop}

/-- Started in this world, the program ends with `Q`. -/
def Program.Ensures (S : Sem C R W) (T : W → W → Prop) (Q : α → W → Prop) :
    Program C R α → W → Prop
  | .ret a, w => Q a w
  | .call c k, w => ∀ w₁ r w₂, T w w₁ → S c w₁ r w₂ → (k r).Ensures S T Q w₂

namespace Program

variable {p : Program C R α} {f : α → Program C R β} {w : W}

theorem Ensures.mono (h : p.Ensures S T Q w) (hQ : ∀ a w', Q a w' → Q' a w') :
    p.Ensures S T Q' w := by
  induction p generalizing w with
  | ret a => exact hQ a w h
  | call c k ih =>
      intro w₁ r w₂ hT hS
      exact ih r (h w₁ r w₂ hT hS)

theorem Ensures.and (h : p.Ensures S T Q w) (h' : p.Ensures S T Q' w) :
    p.Ensures S T (fun a w' => Q a w' ∧ Q' a w') w := by
  induction p generalizing w with
  | ret a => exact ⟨h, h'⟩
  | call c k ih =>
      intro w₁ r w₂ hT hS
      exact ih r (h w₁ r w₂ hT hS) (h' w₁ r w₂ hT hS)

/-- What the others do before the next call is accounted for. -/
theorem Ensures.stable (h : p.Ensures S T Q w) (htrans : ∀ w₁ w₂ w₃, T w₁ w₂ → T w₂ w₃ → T w₁ w₃)
    (hQ : ∀ a w₁ w₂, Q a w₁ → T w₁ w₂ → Q a w₂) {w' : W} (hT : T w w') : p.Ensures S T Q w' := by
  cases p with
  | ret a => exact hQ a w w' h hT
  | call c k =>
      intro w₁ r w₂ hT' hS
      exact h w₁ r w₂ (htrans w w' w₁ hT hT') hS

/-- Sequencing rule. -/
theorem ensures_bind_iff {Q : β → W → Prop} :
    (p >>= f).Ensures S T Q w ↔ p.Ensures S T (fun a w' => (f a).Ensures S T Q w') w := by
  induction p generalizing w with
  | ret a => exact Iff.rfl
  | call c k ih =>
      constructor
      · intro h w₁ r w₂ hT hS
        exact (ih r).mp (h w₁ r w₂ hT hS)
      · intro h w₁ r w₂ hT hS
        exact (ih r).mpr (h w₁ r w₂ hT hS)

/-- The sequencing rule with a spec of the first part. -/
theorem Ensures.bind {Q' : β → W → Prop} (h : p.Ensures S T Q w)
    (hf : ∀ a w', Q a w' → (f a).Ensures S T Q' w') : (p >>= f).Ensures S T Q' w :=
  ensures_bind_iff.mpr (h.mono hf)

/-- A part that runs alone, and only makes calls that change nothing. -/
theorem OnlyCalls.ensures {P : C → Prop} (hS : ∀ c w r w', P c → S c w r w' → w' = w)
    (hp : p.OnlyCalls P) (hQ : ∀ a, Q a w) : p.Ensures S Eq Q w := by
  induction p with
  | ret a => exact hQ a
  | call c k ih =>
      rintro _ r w₂ rfl hs
      obtain rfl := hS c w r w₂ hp.1 hs
      exact ih r (hp.2 r)

end Program

/-- A program that runs alone. -/
theorem Exec.ensures {p : Program C R α} {w w' : W} {tr : List (Event R)} {a : α}
    (h : Exec S p w tr a w') (hp : p.Ensures S Eq Q w) : Q a w' := by
  induction h with
  | ret => exact hp
  | call hs _ ih => exact ih (hp _ _ _ rfl hs)

end NativePreferences.Lib
