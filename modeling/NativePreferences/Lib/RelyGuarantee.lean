import NativePreferences.Lib.Program

/-!
# NativePreferences.Lib.RelyGuarantee

**Programs that run beside others.** Between two calls of the program the world moves by the
relation `T`, the *rely* condition. In return each call of the program is a move that meets `G`,
the *guarantee*: `p.Keeps S T G Q w` says that `p`, started in `w`, meets `G` at each of its calls,
and that `Q` holds of its result and stays true after the program has ended.

The rule for a call is `Keeps.call`: it takes an assertion that the others cannot falsify
(`Stable`) from before the call to after it. A program is proved call by call with it, and what
becomes of its result is `Keeps.map`.
-/

namespace NativePreferences.Lib

variable {C : Type} {R : C → Type} {W α β : Type}
variable {S : Sem C R W} {T : W → W → Prop} {G : W → Event R → W → Prop}
variable {Q Q' : α → W → Prop} {P : W → Prop} {w w' : W}

/-- The others cannot make it false. -/
def Stable (T : W → W → Prop) (P : W → Prop) : Prop := ∀ w w', P w → T w w' → P w'

/-- Started in this world, the program guarantees `G` and ends with `Q`. -/
def Program.Keeps (S : Sem C R W) (T : W → W → Prop) (G : W → Event R → W → Prop)
    (Q : α → W → Prop) : Program C R α → W → Prop
  | .ret a, w => ∀ w', T w w' → Q a w'
  | .call c k, w => ∀ w₁ r w₂, T w w₁ → S c w₁ r w₂ →
      G w₁ ⟨c, r⟩ w₂ ∧ (k r).Keeps S T G Q w₂

namespace Program

variable {p : Program C R α} {c : C} {k : R c → Program C R α}

theorem Keeps.mono (h : p.Keeps S T G Q w) (hQ : ∀ a w', Q a w' → Q' a w') :
    p.Keeps S T G Q' w := by
  induction p generalizing w with
  | ret a => exact fun w' hT => hQ a w' (h w' hT)
  | call c k ih =>
      intro w₁ r w₂ hT hS
      obtain ⟨hG, hrest⟩ := h w₁ r w₂ hT hS
      exact ⟨hG, ih r hrest⟩

/-- The result is translated. -/
theorem Keeps.map {Q' : β → W → Prop} {g : α → β} (h : p.Keeps S T G Q w)
    (hQ : ∀ a w', Q a w' → Q' (g a) w') :
    (p >>= fun a => .ret (g a)).Keeps S T G Q' w := by
  induction p generalizing w with
  | ret a => exact fun w' hT => hQ a w' (h w' hT)
  | call c k ih =>
      intro w₁ r w₂ hT hS
      obtain ⟨hG, hrest⟩ := h w₁ r w₂ hT hS
      exact ⟨hG, ih r hrest⟩

/-- The others move first. -/
theorem Keeps.moved (h : p.Keeps S T G Q w) (htrans : ∀ w₁ w₂ w₃, T w₁ w₂ → T w₂ w₃ → T w₁ w₃)
    (hT : T w w') : p.Keeps S T G Q w' := by
  cases p with
  | ret a => exact fun w₂ hT' => h w₂ (htrans w w' w₂ hT hT')
  | call c k => exact fun w₁ r w₂ hT' hS => h w₁ r w₂ (htrans w w' w₁ hT hT') hS

/-- The program is at its end. -/
theorem Keeps.ret {a : α} (hstable : Stable T P) (hP : P w) (hQ : ∀ w', P w' → Q a w') :
    (Program.ret a : Program C R α).Keeps S T G Q w :=
  fun w' hT => hQ w' (hstable w w' hP hT)

/-- Rule for a call. -/
theorem Keeps.call (hstable : Stable T P) (hP : P w)
    (hcall : ∀ w₁ r w₂, P w₁ → S c w₁ r w₂ → G w₁ ⟨c, r⟩ w₂ ∧ (k r).Keeps S T G Q w₂) :
    (Program.call c k).Keeps S T G Q w :=
  fun w₁ r w₂ hT hS => hcall w₁ r w₂ (hstable w w₁ hP hT) hS

end Program

end NativePreferences.Lib
