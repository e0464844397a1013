import Mathlib.Data.Finset.Dedup
import NativePreferences.Js.KeyChangeBoard

/-!
# NativePreferences.Js.KeyChangeSound

**The functions of a proxy, among everything that others do meanwhile.** Each call is a move of the
board (`Guarantee`), and each function ends with lists that say who stands (`Agree`). Changes,
tasks, and whatever the other users of the store do between two calls, are the rely condition.
-/

namespace NativePreferences.KeyChange

open Lib

variable {φ ω : Type} [DecidableEq φ] [DecidableEq ω]
variable {w w' : Process φ ω} {o o' : Observer φ} {l : Label φ} {op : Op φ}
variable {st sh cl : Finset (Observer φ)}

/-- What the others may do between two calls. -/
def Moves (w w' : Process φ ω) : Prop := ∃ ls, Run Other w ls w'

theorem Moves.refl (w : Process φ ω) : Moves w w := ⟨[], .nil⟩

theorem Moves.trans (w₁ w₂ w₃ : Process φ ω) (h : Moves w₁ w₂) (h' : Moves w₂ w₃) :
    Moves w₁ w₃ := by
  obtain ⟨ls, hrun⟩ := h
  obtain ⟨ls', hrun'⟩ := h'
  exact ⟨ls ++ ls', hrun.append hrun'⟩

/-- Only `on` registers an object, and only for its own callback; only `off` takes one out, of its
own mode, and only that of its callback, if it has one. -/
def Op.Allows (op : Op φ) : ObserverCall φ → Prop
  | .registerObserver o => op = .on o.mode o.callback
  | .unRegisterObserver o | .clearCallback o =>
      ∃ argument, op = .off o.mode argument ∧
        ∀ callback, argument = .function callback → callback = o.callback
  | .makeShared _ _ | .release _ => True

/-- What each call of a function meets. -/
def Guarantee (op : Op φ) (w : Process φ ω)
    (e : Event (ObserverCall.Answer : ObserverCall φ → Type)) (w' : Process φ ω) : Prop :=
  Sound w' ∧ Follows (.call e) w w' ∧ op.Allows e.1

/-- The objects of the proxy, between two calls. -/
structure At (standing shared cleared : Finset (Observer φ)) (w : Process φ ω) : Prop where
  sound : Sound w
  standing : w.standing = standing
  shared : w.shared = shared
  cleared : w.cleared = cleared

theorem At.other (h : At st sh cl w) (hother : Other w l w') : At st sh cl w' := by
  obtain ⟨hstanding, hshared, hcleared, _⟩ := hother.frame
  exact ⟨h.sound.other hother, hstanding.trans h.standing, hshared.trans h.shared,
    hcleared.trans h.cleared⟩

/-- The others leave them alone. -/
theorem stable_at : Stable Moves (At st sh cl : Process φ ω → Prop) := by
  intro w w' h hmoves
  obtain ⟨ls, hrun⟩ := hmoves
  exact hrun.invariant (fun _ _ _ h hother => h.other hother) h

/-- A new object, before it is registered. -/
def Fresh (A cl : Finset (Observer φ)) (o : Observer φ) (w : Process φ ω) : Prop :=
  At A (insert o A) cl w ∧ ¬ w.Knows o

theorem stable_fresh : Stable Moves (Fresh st cl o : Process φ ω → Prop) := by
  intro w w' h hmoves
  obtain ⟨ls, hrun⟩ := hmoves
  refine hrun.invariant ?_ h
  intro w₁ l w₂ h hother
  exact ⟨h.1.other hother, fun hknows => h.2 (hother.knows h.1.sound hknows)⟩

/-! ### One call -/

/-- The object is taken off the board. -/
theorem Sound.board_erase (hsound : Sound w) (hsound' : Sound w')
    (hstanding : w'.standing = w.standing.erase o) (hwaiting : w'.waiting = w.waiting)
    (ho : o ∈ w.standing ∨ o.slot ∉ w.board.subscribed) :
    w'.board = ⟨w.board.subscribed.erase o.slot, Function.update w.board.pending o.slot 0⟩ := by
  refine hsound'.board_eq ?_ ?_ ?_
  · ext who
    rw [hstanding, Finset.mem_erase]
    constructor
    · intro hwho
      obtain ⟨o', ho', rfl⟩ := Finset.mem_image.mp hwho
      obtain ⟨hne, hstands⟩ := Finset.mem_erase.mp ho'
      refine ⟨?_, Finset.mem_image_of_mem _ hstands⟩
      intro hslot
      rcases ho with ho | hnot
      · exact hne (hsound.standing_inj hstands ho hslot)
      · exact hnot (Finset.mem_image.mpr ⟨o', hstands, hslot⟩)
    · intro ⟨hne, hwho⟩
      obtain ⟨o', ho', rfl⟩ := Finset.mem_image.mp hwho
      exact Finset.mem_image_of_mem _ (Finset.mem_erase.mpr ⟨fun heq => hne (heq ▸ rfl), ho'⟩)
  · intro o' ho'
    rw [hstanding, Finset.mem_erase] at ho'
    have hslot : o'.slot ≠ o.slot := by
      intro hslot
      rcases ho with ho | hnot
      · exact ho'.1 (hsound.standing_inj ho'.2 ho hslot)
      · exact hnot (Finset.mem_image.mpr ⟨o', ho'.2, hslot⟩)
    rw [hwaiting, Function.update_of_ne hslot, hsound.pending_slot ho'.2]
  · intro who hwho
    by_cases heq : who = o.slot
    · rw [heq, Function.update_self]
    · rw [Function.update_of_ne heq]
      exact pending_of_not (fun hin => hwho (Finset.mem_erase.mpr ⟨heq, hin⟩))

theorem At.unRegister (h : At st sh cl w) (ho : o ∈ st)
    (hop : op.Allows (.unRegisterObserver o)) {errCode : Int}
    (hS : ObserverCall.sem (.unRegisterObserver o) w errCode w') :
    At (if errCode = eOk then st.erase o else st) sh cl w' ∧
      Guarantee op w ⟨.unRegisterObserver o, errCode⟩ w' := by
  obtain ⟨hsound, rfl, rfl, rfl⟩ := h
  obtain ⟨answer, hcode, rfl⟩ := hS
  have hsub : (if errCode = eOk then w.standing.erase o else w.standing) ⊆ w.standing := by
    split
    · exact Finset.erase_subset _ _
    · exact Finset.Subset.refl _
  have hentry : ∀ o' ∈ (if errCode = eOk then w.standing.erase o else w.standing),
      ((w.preferences.unRegisterObserver (.own o) o.mode.registerMode answer).2.entries
        o'.mode.registerMode).count (.own o') = 1 := by
    intro o' ho'
    have hlive := hsound.alive o' (hsound.standing o' (hsub ho')).1
    by_cases hok : errCode = eOk
    · rw [if_pos hok, Finset.mem_erase] at ho'
      rw [KeyObservers.count_entries_unRegister (by simpa using ho'.1) hlive]
      exact hsound.entry o' ho'.2
    · rw [KeyObservers.unRegister_of_ne (hcode ▸ hok)]
      exact hsound.entry o' (hsub ho')
  have hsound' : Sound { w with
      preferences := (w.preferences.unRegisterObserver (.own o) o.mode.registerMode answer).2
      standing := if errCode = eOk then w.standing.erase o else w.standing } := by
    constructor
    · exact hsound.inStep.unRegister
    · exact fun o' ho' => hsound.standing o' (hsub ho')
    · exact hsound.slots
    · exact hentry
    · exact fun o' mode hin => hsound.modes o' mode (KeyObservers.entries_unRegister_subset _ hin)
    · intro o' hknows
      refine hsound.known o' ?_
      cases hknows with
      | entry mode hin => exact .entry mode (KeyObservers.entries_unRegister_subset _ hin)
      | waiting key hin => exact .waiting key hin
    · intro o' ho'
      rw [KeyObservers.destroyed_unRegister]
      exact hsound.alive o' ho'
    · intro o' ho'
      rw [KeyObservers.destroyed_unRegister] at ho'
      exact hsound.made o' ho'
  refine ⟨⟨hsound', rfl, rfl, rfl⟩, hsound', ?_, hop⟩
  by_cases hok : errCode = eOk
  · refine follows_of_step (if_pos hok) ?_
    rw [hsound.board_erase hsound' (if_pos hok) rfl (.inl ho)]
    exact .unsubscribe
  · refine follows_of_eq (if_neg hok) ?_
    unfold Process.board
    dsimp only
    rw [if_neg hok]
    rfl

theorem At.clear (h : At st sh cl w) (hshared : o ∈ sh) (hcallback : o ∉ cl)
    (hop : op.Allows (.clearCallback o))
    (hS : ObserverCall.sem (.clearCallback o) w () w') :
    At (st.erase o) sh (insert o cl) w' ∧ Guarantee op w ⟨.clearCallback o, ()⟩ w' := by
  obtain ⟨hsound, rfl, rfl, rfl⟩ := h
  obtain rfl := hS
  have hsound' : Sound { w with
      cleared := insert o w.cleared
      standing := w.standing.erase o } := by
    constructor
    · exact hsound.inStep
    · intro o' ho'
      obtain ⟨hne, hin⟩ := Finset.mem_erase.mp ho'
      obtain ⟨hshared', hcallback'⟩ := hsound.standing o' hin
      refine ⟨hshared', ?_⟩
      simp [hne, hcallback']
    · intro o₁ h₁ o₂ h₂ hc₁ hc₂ hslot
      exact hsound.slots o₁ h₁ o₂ h₂ (fun hin => hc₁ (Finset.mem_insert_of_mem hin))
        (fun hin => hc₂ (Finset.mem_insert_of_mem hin)) hslot
    · exact fun o' ho' => hsound.entry o' (Finset.mem_of_mem_erase ho')
    · exact hsound.modes
    · intro o' hknows
      refine (hsound.known o' ?_).imp_right Finset.mem_insert_of_mem
      cases hknows with
      | entry mode hin => exact .entry mode hin
      | waiting key hin => exact .waiting key hin
    · exact hsound.alive
    · intro o' ho'
      rcases ho' with ho' | ho' | ho'
      · exact hsound.made o' (.inl ho')
      · rcases Finset.mem_insert.mp ho' with rfl | ho'
        · exact hsound.made o' (.inl hshared)
        · exact hsound.made o' (.inr (.inl ho'))
      · exact hsound.made o' (.inr (.inr ho'))
  refine ⟨⟨hsound', rfl, rfl, rfl⟩, hsound', follows_of_step rfl ?_, hop⟩
  rw [hsound.board_erase hsound' rfl rfl (hsound.stands_or_not hshared hcallback)]
  exact .unsubscribe

/-- What goes is not on the board, and nothing knows of it but what finds its reference deleted. -/
theorem At.release (h : At st sh cl w) (hnot : o ∉ st) (hgone : o ∈ cl ∨ ¬ w.Knows o)
    (hS : ObserverCall.sem (.release o) w () w') :
    At st (sh.erase o) cl w' ∧ Guarantee op w ⟨.release o, ()⟩ w' := by
  obtain ⟨hsound, rfl, rfl, rfl⟩ := h
  obtain rfl := hS
  have hsound' : Sound { w with shared := w.shared.erase o } := by
    constructor
    · exact hsound.inStep
    · intro o' ho'
      obtain ⟨hshared', hcallback'⟩ := hsound.standing o' ho'
      exact ⟨Finset.mem_erase.mpr ⟨fun heq => hnot (heq ▸ ho'), hshared'⟩, hcallback'⟩
    · exact fun o₁ h₁ o₂ h₂ =>
        hsound.slots o₁ (Finset.mem_of_mem_erase h₁) o₂ (Finset.mem_of_mem_erase h₂)
    · exact hsound.entry
    · exact hsound.modes
    · intro o' hknows
      have hknows' : w.Knows o' := by
        cases hknows with
        | entry mode hin => exact .entry mode hin
        | waiting key hin => exact .waiting key hin
      by_cases heq : o' = o
      · subst heq
        exact .inr (hgone.resolve_right (fun h => h hknows'))
      · exact (hsound.known o' hknows').imp_left (fun hin => Finset.mem_erase.mpr ⟨heq, hin⟩)
    · exact fun o' ho' => hsound.alive o' (Finset.mem_of_mem_erase ho')
    · exact fun o' ho' => hsound.made o' (ho'.imp_left Finset.mem_of_mem_erase)
  exact ⟨⟨hsound', rfl, rfl, rfl⟩, hsound', follows_of_eq rfl rfl, trivial⟩

/-- A new object, for a subscription that nobody stands for. -/
theorem At.makeShared {callback : φ} {mode : ChangeMode} (h : At st st cl w)
    (hnew : ∀ o ∈ st, o.slot ≠ (mode, callback))
    (hS : ObserverCall.sem (.makeShared callback mode) w o w') :
    (Fresh st cl o w' ∧ o ∉ st ∧ o ∉ cl ∧ o.callback = callback ∧ o.mode = mode) ∧
      Guarantee op w ⟨.makeShared callback mode, o⟩ w' := by
  obtain ⟨hsound, rfl, hshared, rfl⟩ := h
  obtain ⟨rfl, rfl⟩ := hS
  have hnever : ¬ (Observer.mk w.nextId callback mode ∈ w.shared ∨
      Observer.mk w.nextId callback mode ∈ w.cleared ∨
      .own (Observer.mk w.nextId callback mode) ∈ w.preferences.destroyed) :=
    fun hin => Nat.lt_irrefl _ (hsound.made _ hin)
  obtain ⟨hnotShared, hnotCleared, hnotGone⟩ := not_or.mp hnever |>.imp_right not_or.mp
  have hstands : ∀ o ∈ w.shared, o ∈ w.standing := fun o ho => hshared ▸ ho
  have hslot : ∀ o ∈ w.shared, o.slot ≠ (Observer.mk w.nextId callback mode).slot :=
    fun o ho => hnew o (hstands o ho)
  have hknows : ∀ o, Process.Knows { w with
      nextId := w.nextId + 1
      shared := insert (Observer.mk w.nextId callback mode) w.shared } o → w.Knows o := by
    intro o hknows
    cases hknows with
    | entry mode hin => exact .entry mode hin
    | waiting key hin => exact .waiting key hin
  have hsound' : Sound { w with
      nextId := w.nextId + 1
      shared := insert (Observer.mk w.nextId callback mode) w.shared } := by
    constructor
    · exact hsound.inStep
    · exact fun o ho => ⟨Finset.mem_insert_of_mem (hsound.standing o ho).1,
        (hsound.standing o ho).2⟩
    · intro o₁ h₁ o₂ h₂ hc₁ hc₂ heq
      rcases Finset.mem_insert.mp h₁ with rfl | h₁
      · rcases Finset.mem_insert.mp h₂ with rfl | h₂
        · rfl
        · exact absurd heq.symm (hslot o₂ h₂)
      · rcases Finset.mem_insert.mp h₂ with rfl | h₂
        · exact absurd heq (hslot o₁ h₁)
        · exact hsound.slots o₁ h₁ o₂ h₂ hc₁ hc₂ heq
    · exact hsound.entry
    · exact hsound.modes
    · exact fun o ho => (hsound.known o (hknows o ho)).imp_left Finset.mem_insert_of_mem
    · intro o ho
      rcases Finset.mem_insert.mp ho with rfl | ho
      · exact hnotGone
      · exact hsound.alive o ho
    · intro o ho
      rcases ho with ho | ho
      · rcases Finset.mem_insert.mp ho with rfl | ho
        · exact Nat.lt_succ_self _
        · exact Nat.lt_succ_of_lt (hsound.made o (.inl ho))
      · exact Nat.lt_succ_of_lt (hsound.made o (.inr ho))
  refine ⟨⟨⟨⟨hsound', rfl, congrArg (insert _) hshared, rfl⟩, ?_⟩, ?_, hnotCleared, rfl, rfl⟩, hsound',
    follows_of_eq rfl rfl, trivial⟩
  · intro h
    exact (hsound.known _ (hknows _ h)).elim hnotShared hnotCleared
  · exact fun hin => hnotShared (hshared.symm ▸ hin)

theorem Fresh.register (h : Fresh st cl o w) (hnot : o ∉ st) (hcallback : o ∉ cl)
    (hop : op.Allows (.registerObserver o)) {errCode : Int}
    (hS : ObserverCall.sem (.registerObserver o) w errCode w') :
    (if errCode = eOk then At (insert o st) (insert o st) cl w' else Fresh st cl o w') ∧
      Guarantee op w ⟨.registerObserver o, errCode⟩ w' := by
  obtain ⟨⟨hsound, rfl, hshared, rfl⟩, hunknown⟩ := h
  obtain ⟨answer, hcode, rfl⟩ := hS
  have hmode : o.mode.registerMode = .localChange ∨ o.mode.registerMode = .multiPrecessChange := by
    cases o.mode
    · exact .inl rfl
    · exact .inr rfl
  have howner : o ∈ w.shared := by simp [hshared]
  by_cases hok : errCode = eOk
  · have haccepts := KeyObservers.accepts_of_ok hmode (hcode.symm.trans hok)
    have hentries : ∀ o' mode,
        .own o' ∈ (w.preferences.registerObserver (.own o) o.mode.registerMode answer).2.entries
          mode → .own o' ∈ w.preferences.entries mode ∨ o' = o ∧ mode = o.mode.registerMode := by
      intro o' mode hin
      replace hin : .own o' ∈ (w.preferences.step
          (.register (.own o) o.mode.registerMode answer)).entries mode := hin
      obtain hold | ⟨answer', heq⟩ := KeyObservers.mem_entries_of_step hin
      · exact .inl hold
      · cases heq
        exact .inr ⟨rfl, rfl⟩
    have hsound' : Sound { w with
        preferences := (w.preferences.registerObserver (.own o) o.mode.registerMode answer).2
        standing := if errCode = eOk then insert o w.standing else w.standing } := by
      constructor
      · exact hsound.inStep.register
      · intro o' ho'
        rw [if_pos hok] at ho'
        rcases Finset.mem_insert.mp ho' with rfl | ho'
        · exact ⟨howner, hcallback⟩
        · exact hsound.standing o' ho'
      · exact hsound.slots
      · intro o' ho'
        rw [if_pos hok] at ho'
        rcases Finset.mem_insert.mp ho' with rfl | ho'
        · have hnone : (w.preferences.entries o'.mode.registerMode).count (.own o') = 0 :=
            List.count_eq_zero.mpr (fun hin => hunknown (.entry _ hin))
          dsimp only
          rw [KeyObservers.entries_register haccepts, List.count_append, hnone]
          simp
        · have hne : o' ≠ o := fun heq => hnot (heq ▸ ho')
          dsimp only
          rw [KeyObservers.count_entries_register (by simpa using hne)]
          exact hsound.entry o' ho'
      · intro o' mode hin
        rcases hentries o' mode hin with hold | ⟨rfl, rfl⟩
        · exact hsound.modes o' mode hold
        · rfl
      · intro o' hknows
        cases hknows with
        | entry mode hin =>
            rcases hentries o' mode hin with hold | ⟨rfl, rfl⟩
            · exact hsound.known o' (.entry mode hold)
            · exact .inl howner
        | waiting key hin => exact hsound.known o' (.waiting key hin)
      · intro o' ho'
        rw [KeyObservers.destroyed_register]
        exact hsound.alive o' ho'
      · intro o' ho'
        rw [KeyObservers.destroyed_register] at ho'
        exact hsound.made o' ho'
    rw [if_pos hok]
    refine ⟨⟨hsound', if_pos hok, hshared, rfl⟩, hsound', ?_, hop⟩
    refine follows_of_step (if_pos hok) ?_
    have hnew : o.slot ∉ w.board.subscribed :=
      (hsound.stands_or_not howner hcallback).resolve_left hnot
    have hboard : Process.board _ = ⟨insert o.slot w.board.subscribed, w.board.pending⟩ :=
      hsound'.board_eq ?_ ?_ ?_
    · rw [hboard]
      exact .subscribe hnew
    · dsimp only
      rw [if_pos hok, Finset.image_insert]
      rfl
    · intro o' ho'
      rw [if_pos hok] at ho'
      rcases Finset.mem_insert.mp ho' with rfl | ho'
      · rw [pending_of_not hnew]
        exact waitingFor_eq_zero (fun key hin => hunknown (.waiting key hin))
      · exact (hsound.pending_slot ho').symm
    · exact fun who hwho => pending_of_not (fun hin => hwho (Finset.mem_insert_of_mem hin))
  · have hentries : ∀ mode,
        (w.preferences.registerObserver (.own o) o.mode.registerMode answer).2.entries mode =
          w.preferences.entries mode := fun mode =>
      KeyObservers.entries_register_of_ne
        (.inr (KeyObservers.not_accepts_of_ne (hcode ▸ hok)))
    have hknows : ∀ o', Process.Knows { w with
        preferences := (w.preferences.registerObserver (.own o) o.mode.registerMode answer).2
        standing := if errCode = eOk then insert o w.standing else w.standing } o' →
          w.Knows o' := by
      intro o' hknows
      cases hknows with
      | entry mode hin => exact .entry mode (hentries mode ▸ hin)
      | waiting key hin => exact .waiting key hin
    have hsound' : Sound { w with
        preferences := (w.preferences.registerObserver (.own o) o.mode.registerMode answer).2
        standing := if errCode = eOk then insert o w.standing else w.standing } := by
      rw [if_neg hok]
      rw [if_neg hok] at hknows
      constructor
      · exact hsound.inStep.register
      · exact hsound.standing
      · exact hsound.slots
      · intro o' ho'
        dsimp only
        rw [hentries]
        exact hsound.entry o' ho'
      · exact fun o' mode hin => hsound.modes o' mode (hentries mode ▸ hin)
      · exact fun o' ho' => hsound.known o' (hknows o' ho')
      · intro o' ho'
        rw [KeyObservers.destroyed_register]
        exact hsound.alive o' ho'
      · intro o' ho'
        rw [KeyObservers.destroyed_register] at ho'
        exact hsound.made o' ho'
    rw [if_neg hok]
    refine ⟨⟨⟨hsound', if_neg hok, hshared, rfl⟩, fun h => hunknown (hknows o h)⟩, hsound', ?_, hop⟩
    refine follows_of_eq (if_neg hok) ?_
    unfold Process.board
    dsimp only
    rw [if_neg hok]
    rfl

/-! ### The functions -/

/-- What is proved of a function: its calls are moves of the board, and it ends with `Q`. -/
abbrev Does {α : Type} (op : Op φ) (p : Prog φ α) (Q : α → Process φ ω → Prop)
    (w : Process φ ω) : Prop :=
  p.Keeps ObserverCall.sem Moves (Guarantee op) Q w

section

variable {α : Type} {Q : α → Process φ ω → Prop}

theorem does_ret {a : α} (h : At st sh cl w) (hQ : ∀ w', At st sh cl w' → Q a w') :
    Does op (pure a) Q w :=
  .ret stable_at h hQ

theorem does_unRegister {k : Int → Prog φ α} (h : At st sh cl w) (ho : o ∈ st)
    (hop : op.Allows (.unRegisterObserver o))
    (hk : ∀ errCode w', At (if errCode = eOk then st.erase o else st) sh cl w' →
      Does op (k errCode) Q w') : Does op (unRegisterObserver o >>= k) Q w := by
  refine .call stable_at h ?_
  intro w₁ r w₂ h₁ hS
  obtain ⟨hnext, hG⟩ := h₁.unRegister ho hop hS
  exact ⟨hG, hk r w₂ hnext⟩

theorem does_clear {k : Unit → Prog φ α} (h : At st sh cl w) (hshared : o ∈ sh)
    (hcallback : o ∉ cl) (hop : op.Allows (.clearCallback o))
    (hk : ∀ w', At (st.erase o) sh (insert o cl) w' → Does op (k ()) Q w') :
    Does op (clearCallback o >>= k) Q w := by
  refine .call stable_at h ?_
  intro w₁ r w₂ h₁ hS
  obtain ⟨hnext, hG⟩ := h₁.clear hshared hcallback hop hS
  exact ⟨hG, hk w₂ hnext⟩

theorem does_release {k : Unit → Prog φ α} (h : At st sh cl w) (ho : o ∈ cl)
    (hk : ∀ w', At st (sh.erase o) cl w' → Does op (k ()) Q w') :
    Does op (release o >>= k) Q w := by
  refine .call stable_at h ?_
  intro w₁ r w₂ h₁ hS
  have hnot : o ∉ st := by
    rw [← h₁.standing]
    rw [← h₁.cleared] at ho
    exact fun hin => (h₁.sound.standing o hin).2 ho
  obtain ⟨hnext, hG⟩ := h₁.release hnot (.inl ho) hS
  exact ⟨hG, hk w₂ hnext⟩

theorem does_makeShared {k : Observer φ → Prog φ α} {callback : φ} {mode : ChangeMode}
    (h : At st st cl w) (hnew : ∀ o ∈ st, o.slot ≠ (mode, callback))
    (hk : ∀ o w', Fresh st cl o w' → o ∉ st → o ∉ cl → o.callback = callback → o.mode = mode →
      Does op (k o) Q w') : Does op (makeShared callback mode >>= k) Q w := by
  refine .call stable_at h ?_
  intro w₁ r w₂ h₁ hS
  obtain ⟨⟨hfresh, hnot, hcl, hcallback, hmode⟩, hG⟩ := h₁.makeShared hnew hS
  exact ⟨hG, hk r w₂ hfresh hnot hcl hcallback hmode⟩

theorem does_register {k : Int → Prog φ α} (h : Fresh st cl o w) (hnot : o ∉ st)
    (hcallback : o ∉ cl) (hop : op.Allows (.registerObserver o))
    (hk : ∀ errCode w', (if errCode = eOk then At (insert o st) (insert o st) cl w'
      else Fresh st cl o w') → Does op (k errCode) Q w') :
    Does op (registerObserver o >>= k) Q w := by
  refine .call stable_fresh h ?_
  intro w₁ r w₂ h₁ hS
  obtain ⟨hnext, hG⟩ := h₁.register hnot hcallback hop hS
  exact ⟨hG, hk r w₂ hnext⟩

/-- An object that was not registered goes away. -/
theorem does_discard {k : Unit → Prog φ α} (h : Fresh st cl o w) (hnot : o ∉ st)
    (hk : ∀ w', At st st cl w' → Does op (k ()) Q w') : Does op (release o >>= k) Q w := by
  refine .call stable_fresh h ?_
  intro w₁ r w₂ h₁ hS
  obtain ⟨hnext, hG⟩ := h₁.1.release hnot (.inr h₁.2) hS
  rw [Finset.erase_insert hnot] at hnext
  exact ⟨hG, hk w₂ hnext⟩

end

/-- Between two functions. -/
def Ends (B : Finset (Observer φ)) (observers : List (Observer φ)) (w : Process φ ω) : Prop :=
  ∃ cl, At (B ∪ observers.toFinset) (B ∪ observers.toFinset) cl w

theorem ends_cons {B : Finset (Observer φ)} {observers : List (Observer φ)} :
    Ends B (o :: observers) w ↔ Ends (insert o B) observers w := by
  rw [Ends, Ends, List.toFinset_cons, Finset.insert_union, Finset.union_insert]

theorem At.uncleared (h : At st sh cl w) (ho : o ∈ st) : o ∈ sh ∧ o ∉ cl := by
  rw [← h.shared, ← h.cleared]
  rw [← h.standing] at ho
  exact h.sound.standing o ho

/-- The objects that are left, when one of them is taken out. -/
theorem erase_union_cons {B : Finset (Observer φ)} {rest : List (Observer φ)} (hB : o ∉ B)
    (hrest : o ∉ rest) : (B ∪ (o :: rest).toFinset).erase o = B ∪ rest.toFinset := by
  rw [List.toFinset_cons, Finset.union_insert, Finset.erase_insert]
  simpa using ⟨hB, hrest⟩

/-- The object is taken out: `UnRegisterObserver` has returned `E_OK`. -/
theorem does_takeOut {α : Type} {Q : α → Process φ ω → Prop} {k : Unit → Prog φ α}
    {B : Finset (Observer φ)} {rest : List (Observer φ)} (hB : o ∉ B) (hrest : o ∉ rest)
    (hcallback : o ∉ cl) (hop : op.Allows (.clearCallback o))
    (h : At ((B ∪ (o :: rest).toFinset).erase o) (B ∪ (o :: rest).toFinset) cl w)
    (hk : ∀ w', Ends B rest w' → Does op (k ()) Q w') :
    Does op (clearCallback o >>= fun _ => release o >>= k) Q w := by
  refine does_clear h (by simp) hcallback hop ?_
  intro w₁ h₁
  refine does_release h₁ (Finset.mem_insert_self o cl) ?_
  intro w₂ h₂
  rw [Finset.erase_idem, erase_union_cons hB hrest] at h₂
  exact hk w₂ ⟨_, h₂⟩

/-- `RegisteredObserver` ends with one object more, or as it began. -/
theorem does_registeredObserver {B : Finset (Observer φ)} {observers : List (Observer φ)}
    {callback : φ} {mode : ChangeMode} (hB : ∀ o ∈ B, o.mode ≠ mode)
    (h : Ends B observers w) :
    Does (.on mode callback) (registeredObserver observers callback mode) (fun r w' =>
      Ends B r.2 w' ∧ (r.2 = observers ∧
          (r.1 = eOk → callback ∈ observers.map Observer.callback) ∨
        callback ∉ observers.map Observer.callback ∧ r.1 = eOk ∧
          ∃ o, o.callback = callback ∧ o.mode = mode ∧ r.2 = observers ++ [o])) w := by
  obtain ⟨cl, h⟩ := h
  unfold registeredObserver
  have hhas : hasRegisteredObserver observers callback = true ↔
      callback ∈ observers.map Observer.callback := by
    simp only [hasRegisteredObserver, List.any_eq_true, beq_iff_eq, List.mem_map,
      @eq_comm φ callback]
  by_cases hin : callback ∈ observers.map Observer.callback
  · rw [if_pos (hhas.mpr hin)]
    exact does_ret h (fun w' h' => ⟨⟨cl, h'⟩, .inl ⟨rfl, fun _ => hin⟩⟩)
  · rw [if_neg (fun hyes => hin (hhas.mp hyes))]
    have hnew : ∀ o ∈ B ∪ observers.toFinset, o.slot ≠ (mode, callback) := by
      intro o ho hslot
      obtain ⟨hmode, hcallback⟩ := Prod.mk.inj hslot
      rcases Finset.mem_union.mp ho with ho | ho
      · exact hB o ho hmode
      · exact hin (List.mem_map.mpr ⟨o, List.mem_toFinset.mp ho, hcallback⟩)
    refine does_makeShared h hnew ?_
    intro o w₁ hfresh hnot hcl hcallback hmode
    refine does_register hfresh hnot hcl (by rw [Op.Allows, hcallback, hmode]) ?_
    intro errCode w₂ hnext
    by_cases hok : errCode = eOk
    · rw [if_neg (not_not.mpr hok)]
      rw [if_pos hok] at hnext
      refine does_ret hnext ?_
      intro w₃ h₃
      have heq : insert o (B ∪ observers.toFinset) = B ∪ (observers ++ [o]).toFinset := by
        ext o'
        simp
      rw [heq] at h₃
      exact ⟨⟨cl, h₃⟩, .inr ⟨hin, rfl, o, hcallback, hmode, rfl⟩⟩
    · rw [if_pos hok]
      rw [if_neg hok] at hnext
      refine does_discard hnext hnot ?_
      intro w₃ h₃
      refine does_ret h₃ ?_
      intro w₄ h₄
      exact ⟨⟨cl, h₄⟩, .inl ⟨rfl, fun heq => absurd heq hok⟩⟩

/-- `UnRegisteredObserver` ends without the object of the callback, or as it began. -/
theorem does_unRegisteredObserver {callback : φ} (observers : List (Observer φ))
    {B : Finset (Observer φ)} (hB : ∀ o ∈ observers, o ∉ B) (hnodup : observers.Nodup)
    (hop : ∀ o ∈ observers, callback = o.callback → op.Allows (.unRegisterObserver o))
    (h : Ends B observers w) :
    Does op (unRegisteredObserver callback observers) (fun r w' =>
      Ends B r.2 w' ∧ r.2.Sublist observers ∧
        r.2.map Observer.callback =
          if r.1 = eOk then (observers.map Observer.callback).erase callback
          else observers.map Observer.callback) w := by
  induction observers generalizing B with
  | nil =>
      obtain ⟨cl, h⟩ := h
      refine does_ret h ?_
      intro w' h'
      exact ⟨⟨cl, h'⟩, .refl _, by simp⟩
  | cons it rest ih =>
      obtain ⟨hnotB, hrestB⟩ := List.forall_mem_cons.mp hB
      obtain ⟨hrest, hnodup⟩ := List.nodup_cons.mp hnodup
      obtain ⟨hop, hopRest⟩ := List.forall_mem_cons.mp hop
      unfold unRegisteredObserver
      by_cases hcallback : callback = it.callback
      · rw [if_pos hcallback]
        obtain ⟨cl, h⟩ := h
        have hstands : it ∈ B ∪ (it :: rest).toFinset := by simp
        refine does_unRegister h hstands (hop hcallback) ?_
        intro errCode w₁ h₁
        by_cases hok : errCode = eOk
        · rw [if_neg (not_not.mpr hok)]
          rw [if_pos hok] at h₁
          refine does_takeOut hnotB hrest (h.uncleared hstands).2 (hop hcallback) h₁ ?_
          intro w₂ ⟨cl', h₂⟩
          refine does_ret h₂ ?_
          intro w₃ h₃
          exact ⟨⟨cl', h₃⟩, List.sublist_cons_self _ _, by simp [hcallback]⟩
        · rw [if_pos hok]
          rw [if_neg hok] at h₁
          refine does_ret h₁ ?_
          intro w₂ h₂
          exact ⟨⟨cl, h₂⟩, .refl _, (if_neg hok).symm⟩
      · rw [if_neg hcallback]
        have hB' : ∀ o ∈ rest, o ∉ insert it B := by
          intro o ho hin
          rcases Finset.mem_insert.mp hin with rfl | hin
          · exact hrest ho
          · exact hrestB o ho hin
        refine (ih hB' hnodup hopRest (ends_cons.mp h)).map ?_
        intro r w' ⟨hend, hsub, hmap⟩
        refine ⟨ends_cons.mpr hend, hsub.cons_cons it, ?_⟩
        rw [List.map_cons, hmap]
        split
        · rw [List.map_cons, List.erase_cons_tail (by simpa using fun heq => hcallback heq.symm)]
        · rfl

/-- The loop of `UnRegisteredAllObservers` takes everything off the board, whatever the codes. -/
theorem does_unRegisterAllLoop {α : Type} {Q : α → Process φ ω → Prop} {k : Bool → Prog φ α}
    (observers : List (Observer φ)) {hasFailed : Bool} (hst : observers.toFinset ⊆ st)
    (hnodup : observers.Nodup) (hop : ∀ o ∈ observers, op.Allows (.unRegisterObserver o))
    (h : At st sh cl w)
    (hk : ∀ failed w', At (st \ observers.toFinset) sh (cl ∪ observers.toFinset) w' →
      Does op (k failed) Q w') :
    Does op (unRegisterAllLoop hasFailed observers >>= k) Q w := by
  induction observers generalizing hasFailed st cl w with
  | nil =>
      refine hk hasFailed w ?_
      simpa using h
  | cons observer rest ih =>
      obtain ⟨hrest, hnodup⟩ := List.nodup_cons.mp hnodup
      obtain ⟨hop, hopRest⟩ := List.forall_mem_cons.mp hop
      rw [List.toFinset_cons] at hst hk
      have hstands : observer ∈ st := hst (Finset.mem_insert_self _ _)
      obtain ⟨hshared, hcallback⟩ := h.uncleared hstands
      rw [unRegisterAllLoop, Program.bind_assoc]
      refine does_unRegister h hstands hop ?_
      intro errCode w₁ h₁
      rw [Program.bind_assoc]
      refine does_clear h₁ hshared hcallback hop ?_
      intro w₂ h₂
      have herase : (if errCode = eOk then st.erase observer else st).erase observer =
          st.erase observer := by
        split
        · exact Finset.erase_idem
        · rfl
      rw [herase] at h₂
      refine ih ?_ hnodup hopRest h₂ ?_
      · intro o ho
        refine Finset.mem_erase.mpr ⟨?_, hst (Finset.mem_insert_of_mem ho)⟩
        exact fun heq => hrest (heq ▸ List.mem_toFinset.mp ho)
      · intro failed w₃ h₃
        refine hk failed w₃ ?_
        rwa [Finset.erase_sdiff_comm, ← Finset.sdiff_insert, Finset.insert_union,
          ← Finset.union_insert] at h₃

/-- `observers.clear()`, when all of them have lost their references. -/
theorem does_releaseAll {α : Type} {Q : α → Process φ ω → Prop} {k : Unit → Prog φ α}
    (observers : List (Observer φ)) (hcl : observers.toFinset ⊆ cl) (h : At st sh cl w)
    (hk : ∀ w', At st (sh \ observers.toFinset) cl w' → Does op (k ()) Q w') :
    Does op (releaseAll observers >>= k) Q w := by
  induction observers generalizing sh w with
  | nil =>
      refine hk w ?_
      simpa using h
  | cons observer rest ih =>
      rw [List.toFinset_cons] at hcl hk
      rw [releaseAll, Program.bind_assoc]
      refine does_release h (hcl (Finset.mem_insert_self _ _)) ?_
      intro w₁ h₁
      refine ih (fun o ho => hcl (Finset.mem_insert_of_mem ho)) h₁ ?_
      intro w₂ h₂
      rw [Finset.erase_sdiff_comm, ← Finset.sdiff_insert] at h₂
      exact hk w₂ h₂

/-- `UnRegisteredAllObservers` ends without objects. -/
theorem does_unRegisteredAllObservers {B : Finset (Observer φ)} {observers : List (Observer φ)}
    (hB : ∀ o ∈ observers, o ∉ B) (hnodup : observers.Nodup)
    (hop : ∀ o ∈ observers, op.Allows (.unRegisterObserver o)) (h : Ends B observers w) :
    Does op (unRegisteredAllObservers observers) (fun r w' =>
      Ends B r.2 w' ∧ r.2 = [] ∧ (r.1 = eOk ∨ r.1 = eError)) w := by
  obtain ⟨cl, h⟩ := h
  have hrest : (B ∪ observers.toFinset) \ observers.toFinset = B := by
    refine Finset.union_sdiff_cancel_right (Finset.disjoint_left.mpr ?_)
    exact fun o ho hin => hB o (List.mem_toFinset.mp hin) ho
  unfold unRegisteredAllObservers
  refine does_unRegisterAllLoop observers Finset.subset_union_right hnodup hop h ?_
  intro failed w₁ h₁
  refine does_releaseAll observers Finset.subset_union_right h₁ ?_
  intro w₂ h₂
  rw [hrest] at h₂
  refine does_ret h₂ ?_
  intro w₃ h₃
  refine ⟨⟨_, by simpa using h₃⟩, rfl, ?_⟩
  cases failed
  · exact .inl rfl
  · exact .inr rfl

/-- `JSObservers::Unsubscribe` ends with the objects that were not asked for, and with those for
which `UnRegisterObserver` has failed. -/
theorem does_unsubscribe {callback : Option (Option φ)} {errCode : Int}
    (observers : List (Observer φ)) {B : Finset (Observer φ)} (hB : ∀ o ∈ observers, o ∉ B)
    (hnodup : observers.Nodup)
    (hop : ∀ o ∈ observers, callback = none ∨ callback = some (some o.callback) →
      op.Allows (.unRegisterObserver o)) (h : Ends B observers w) :
    Does op (unsubscribe callback errCode observers) (fun r w' =>
      Ends B r.2 w' ∧ r.2.Sublist observers ∧
        (∀ o ∈ observers, ¬ (callback = none ∨ callback = some (some o.callback)) → o ∈ r.2) ∧
        (r.1 = errCode ∧ r.2 = observers.filter (fun o =>
            ¬ (callback = none ∨ callback = some (some o.callback))) ∨
          r.1 ≠ eOk ∧ ∃ o ∈ r.2, callback = none ∨ callback = some (some o.callback))) w := by
  induction observers generalizing B errCode w with
  | nil =>
      obtain ⟨cl, h⟩ := h
      refine does_ret h ?_
      intro w' h'
      exact ⟨⟨cl, h'⟩, .refl _, fun o ho _ => ho, .inl ⟨rfl, rfl⟩⟩
  | cons observer rest ih =>
      obtain ⟨hnotB, hrestB⟩ := List.forall_mem_cons.mp hB
      obtain ⟨hrest, hnodup⟩ := List.nodup_cons.mp hnodup
      obtain ⟨hop, hopRest⟩ := List.forall_mem_cons.mp hop
      have hB' : ∀ o ∈ rest, o ∉ insert observer B := by
        intro o ho hin
        rcases Finset.mem_insert.mp hin with rfl | hin
        · exact hrest ho
        · exact hrestB o ho hin
      unfold unsubscribe
      by_cases hhit : callback = none ∨ callback = some (some observer.callback)
      · rw [if_pos hhit]
        have hstands : observer ∈ B ∪ (observer :: rest).toFinset := by simp
        obtain ⟨cl, h⟩ := h
        refine does_unRegister h hstands (hop hhit) ?_
        intro status w₁ h₁
        by_cases hok : status = eOk
        · rw [if_pos hok] at h₁ ⊢
          refine does_takeOut hnotB hrest (h.uncleared hstands).2 (hop hhit) h₁ ?_
          intro w₂ h₂
          refine (ih hrestB hnodup hopRest h₂).mono ?_
          intro r w' ⟨hend, hsub, hkept, hcases⟩
          have hkept' := List.forall_mem_cons.mpr ⟨fun hnot => absurd hhit hnot, hkept⟩
          refine ⟨hend, hsub.cons observer, hkept', hcases.imp_left ?_⟩
          intro ⟨hcode, hlist⟩
          rw [List.filter_cons_of_neg (by simpa [← or_iff_not_imp_left] using hhit)]
          exact ⟨hcode, hlist⟩
        · rw [if_neg hok] at h₁ ⊢
          refine (ih hB' hnodup hopRest (ends_cons.mp ⟨cl, h₁⟩)).map ?_
          intro r w' ⟨hend, hsub, hkept, hcases⟩
          have hkept' := List.forall_mem_cons.mpr ⟨fun _ => List.mem_cons_self,
            fun o ho hnot => List.mem_cons_of_mem observer (hkept o ho hnot)⟩
          refine ⟨ends_cons.mpr hend, hsub.cons_cons observer, hkept',
            .inr ⟨?_, observer, ?_, hhit⟩⟩
          · rcases hcases with ⟨hcode, -⟩ | ⟨hcode, -⟩
            · rwa [hcode]
            · exact hcode
          · exact List.mem_cons_self
      · rw [if_neg hhit]
        refine (ih hB' hnodup hopRest (ends_cons.mp h)).map ?_
        intro r w' ⟨hend, hsub, hkept, hcases⟩
        have hkept' := List.forall_mem_cons.mpr ⟨fun _ => List.mem_cons_self,
          fun o ho hnot => List.mem_cons_of_mem observer (hkept o ho hnot)⟩
        refine ⟨ends_cons.mpr hend, hsub.cons_cons observer, hkept', hcases.imp ?_ ?_⟩
        · intro ⟨hcode, hlist⟩
          rw [List.filter_cons_of_pos (by simpa using hhit), hlist]
          exact ⟨hcode, rfl⟩
        · intro ⟨hcode, o, ho, hwanted⟩
          exact ⟨hcode, o, List.mem_cons_of_mem _ ho, hwanted⟩

end NativePreferences.KeyChange
