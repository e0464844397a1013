import Mathlib.Data.Finset.Image
import Mathlib.Data.Multiset.MapFold
import NativePreferences.Js.KeyChange
import NativePreferences.Lib.RelyGuarantee
import NativePreferences.Lib.Subscription

/-!
# NativePreferences.Js.KeyChangeBoard

**The board behind a proxy.** Objects, weak pointers, entries without an observer, references that
are deleted and tasks that find them deleted: for the callbacks all this comes to a board
(`Process.board`). A subscription is pending what its object has been called with and has not
passed on.

`Sound` is what keeps it so: an object that stands has one entry in the store, and what else the
store or a task knows of is either held by the proxy or has lost its reference. So
`UnRegisterObserver` may well take out somebody else's entry instead of the object's own
(it takes out the first without an observer): the object has no reference when its callback comes
up, and nobody who stands is concerned (`Sound.other`).
-/

namespace NativePreferences.KeyChange

open Lib

variable {φ ω : Type} [DecidableEq φ]
variable {w w' : Process φ ω} {o o' : Observer φ} {l : Label φ}

/-- The calls and the tasks that have not come to their end. -/
def Process.waiting (w : Process φ ω) : Multiset (Observer φ × String) := w.calls + w.tasks

/-- The keys among them for an object. -/
def waitingFor (waiting : Multiset (Observer φ × String)) (o : Observer φ) : Multiset String :=
  (waiting.filter (fun entry => entry.1 = o)).map Prod.snd

/-- What a proxy is for the callbacks. -/
def Process.board (w : Process φ ω) : Board (ChangeMode × φ) String where
  subscribed := w.standing.image Observer.slot
  pending who :=
    (w.waiting.filter (fun entry => entry.1 ∈ w.standing ∧ entry.1.slot = who)).map Prod.snd

/-- The object may still come up. -/
inductive Process.Knows (w : Process φ ω) (o : Observer φ) : Prop
  | entry (mode : RegisterMode) (h : .own o ∈ w.preferences.entries mode)
  | waiting (key : String) (h : (o, key) ∈ w.waiting)

variable [DecidableEq ω]

/-- What holds of a process at any time. -/
structure Sound (w : Process φ ω) : Prop where
  inStep : w.preferences.InStep
  standing : ∀ o ∈ w.standing, o ∈ w.shared ∧ o ∉ w.cleared
  slots : ∀ o ∈ w.shared, ∀ o' ∈ w.shared, o ∉ w.cleared → o' ∉ w.cleared → o.slot = o'.slot →
    o = o'
  entry : ∀ o ∈ w.standing, (w.preferences.entries o.mode.registerMode).count (.own o) = 1
  modes : ∀ o mode, .own o ∈ w.preferences.entries mode → mode = o.mode.registerMode
  known : ∀ o, w.Knows o → o ∈ w.shared ∨ o ∈ w.cleared
  alive : ∀ o ∈ w.shared, .own o ∉ w.preferences.destroyed
  made : ∀ o, o ∈ w.shared ∨ o ∈ w.cleared ∨ .own o ∈ w.preferences.destroyed → o.id < w.nextId

/-! ### The board -/

@[simp] theorem waitingFor_add (m m' : Multiset (Observer φ × String)) (o : Observer φ) :
    waitingFor (m + m') o = waitingFor m o + waitingFor m' o := by
  simp [waitingFor]

@[simp] theorem waitingFor_cons (key : String) (m : Multiset (Observer φ × String))
    (o o' : Observer φ) :
    waitingFor ((o', key) ::ₘ m) o =
      if o' = o then key ::ₘ waitingFor m o else waitingFor m o := by
  by_cases heq : o' = o
  · simp [waitingFor, heq]
  · simp [waitingFor, heq]

theorem waitingFor_eq_zero {m : Multiset (Observer φ × String)}
    (h : ∀ key, (o, key) ∉ m) : waitingFor m o = 0 := by
  rw [waitingFor, Multiset.filter_eq_nil.mpr, Multiset.map_zero]
  rintro ⟨o', key⟩ hin rfl
  exact h key hin

/-- Each of the observers that is the object is called with all the keys. -/
theorem waitingFor_notices (observers : List (Registered φ ω)) (keys : List String)
    (o : Observer φ) :
    waitingFor (notices observers keys) o = observers.count (.own o) • (keys : Multiset String) := by
  induction observers with
  | nil => simp [notices, waitingFor]
  | cons observer observers ih =>
      have hsplit : notices (observer :: observers) keys =
          (observer.notices keys : Multiset _) + notices observers keys := by
        simp [notices, ← Multiset.coe_add]
      rw [hsplit, waitingFor_add, ih]
      cases observer with
      | foreign x =>
          rw [List.count_cons_of_ne (by simp)]
          exact zero_add _
      | own o' =>
          by_cases heq : o' = o
          · subst heq
            have hall : waitingFor ((Registered.own o' : Registered φ ω).notices keys : Multiset _) o' =
                (keys : Multiset String) := by
              simp [Registered.notices, waitingFor, Multiset.filter_eq_self.mpr]
            rw [hall, List.count_cons_self, succ_nsmul']
          · have hnone : waitingFor ((Registered.own o' : Registered φ ω).notices keys : Multiset _) o =
                0 := by
              refine waitingFor_eq_zero ?_
              simp [Registered.notices, heq]
            rw [hnone, zero_add, List.count_cons_of_ne (by simpa using heq)]

theorem Sound.standing_inj (h : Sound w) (ho : o ∈ w.standing) (ho' : o' ∈ w.standing)
    (hslot : o.slot = o'.slot) : o = o' :=
  h.slots o (h.standing o ho).1 o' (h.standing o' ho').1 (h.standing o ho).2
    (h.standing o' ho').2 hslot

/-- The board has what waits for the object that stands. -/
theorem Sound.pending_slot (h : Sound w) (ho : o ∈ w.standing) :
    w.board.pending o.slot = waitingFor w.waiting o := by
  refine congrArg (Multiset.map Prod.snd) (Multiset.filter_congr ?_)
  intro entry _
  constructor
  · intro hentry
    exact h.standing_inj hentry.1 ho hentry.2
  · intro heq
    rw [heq]
    exact ⟨ho, rfl⟩

omit [DecidableEq ω] in
theorem pending_of_not {who : ChangeMode × φ} (h : who ∉ w.board.subscribed) :
    w.board.pending who = 0 := by
  show Multiset.map Prod.snd _ = 0
  rw [Multiset.filter_eq_nil.mpr, Multiset.map_zero]
  intro entry _ hentry
  exact h (Finset.mem_image.mpr ⟨entry.1, hentry.1, hentry.2⟩)

/-- A board is known by its subscribers and by what each of them waits for. -/
theorem Sound.board_eq (h : Sound w) {subscribed : Finset (ChangeMode × φ)}
    {pending : ChangeMode × φ → Multiset String}
    (hsubscribed : w.standing.image Observer.slot = subscribed)
    (hpending : ∀ o ∈ w.standing, waitingFor w.waiting o = pending o.slot)
    (hnot : ∀ who ∉ subscribed, pending who = 0) : w.board = ⟨subscribed, pending⟩ := by
  obtain rfl : w.board.subscribed = subscribed := hsubscribed
  have hall : w.board.pending = pending := by
    funext who
    by_cases hwho : who ∈ w.board.subscribed
    · obtain ⟨o, ho, rfl⟩ := Finset.mem_image.mp hwho
      rw [h.pending_slot ho]
      exact hpending o ho
    · rw [pending_of_not hwho]
      exact (hnot who hwho).symm
  rw [← hall]

/-- What the board hears of a step. -/
def view : Label φ → Option (BoardEvent (ChangeMode × φ) ChangeMode String)
  | .call ⟨.registerObserver o, (errCode : Int)⟩ =>
      if errCode = eOk then some (.subscribe o.slot) else none
  | .call ⟨.unRegisterObserver o, (errCode : Int)⟩ =>
      if errCode = eOk then some (.unsubscribe o.slot) else none
  | .call ⟨.clearCallback o, _⟩ => some (.unsubscribe o.slot)
  | .change mode keys => some (.publish mode keys)
  | .lost o key => some (.lose o.slot key)
  | .deliver o key => some (.deliver o.slot key)
  | _ => none

/-- The board moves as it hears. -/
def Follows (l : Label φ) (w w' : Process φ ω) : Prop :=
  Run (Board.Step Prod.fst) w.board (view l).toList w'.board

omit [DecidableEq ω] in
/-- A step that the board does not hear of. -/
theorem follows_of_eq (hview : view l = none) (heq : w'.board = w.board) : Follows l w w' := by
  rw [Follows, hview, heq]
  exact .nil

omit [DecidableEq ω] in
theorem follows_of_step {e : BoardEvent (ChangeMode × φ) ChangeMode String}
    (hview : view l = some e) (h : Board.Step Prod.fst w.board e w'.board) : Follows l w w' := by
  rw [Follows, hview]
  exact .cons h .nil

/-! ### What the others do -/

omit [DecidableEq φ] [DecidableEq ω] in
theorem mem_waiting_iff {key : String} :
    (o, key) ∈ w.waiting ↔ (o, key) ∈ w.calls ∨ (o, key) ∈ w.tasks := by
  simp [Process.waiting]

/-- Nothing of the proxy's own is moved by the others. -/
theorem Other.frame (h : Other w l w') :
    w'.standing = w.standing ∧ w'.shared = w.shared ∧ w'.cleared = w.cleared ∧
      w'.nextId = w.nextId := by
  cases h <;> exact ⟨rfl, rfl, rfl, rfl⟩

/-- Nobody else makes the proxy's entries. -/
theorem mem_entries_of_foreign {event : ObserverEvent (Registered φ ω)} (h : Foreign event)
    {mode : RegisterMode} (hentry : .own o ∈ (w.preferences.step event).entries mode) :
    .own o ∈ w.preferences.entries mode := by
  obtain hold | ⟨answer, rfl⟩ := KeyObservers.mem_entries_of_step hentry
  · exact hold
  · cases h

theorem destroyed_of_foreign {event : ObserverEvent (Registered φ ω)} (h : Foreign event)
    (hgone : .own o ∈ (w.preferences.step event).destroyed) :
    .own o ∈ w.preferences.destroyed := by
  cases h with
  | register => rwa [KeyObservers.step, KeyObservers.destroyed_register] at hgone
  | unRegister => rwa [KeyObservers.step, KeyObservers.destroyed_unRegister] at hgone
  | destroy => simpa [KeyObservers.step] using hgone

theorem count_entries_foreign {event : ObserverEvent (Registered φ ω)} (h : Foreign event)
    (hlive : .own o ∉ w.preferences.destroyed) (mode : RegisterMode) :
    ((w.preferences.step event).entries mode).count (.own o) =
      (w.preferences.entries mode).count (.own o) := by
  cases h with
  | register => exact KeyObservers.count_entries_register (by simp) mode
  | unRegister => exact KeyObservers.count_entries_unRegister (by simp) hlive mode
  | destroy => cases mode <;> rfl

/-- What is known of an object after the others have moved was known before. -/
theorem Other.knows (h : Other w l w') (hsound : Sound w) (hknows : w'.Knows o) : w.Knows o := by
  cases h with
  | elsewhere hforeign =>
      cases hknows with
      | entry mode hentry => exact .entry mode (mem_entries_of_foreign hforeign hentry)
      | waiting key hin => exact .waiting key hin
  | destroy =>
      cases hknows with
      | entry mode hentry =>
          refine .entry mode ?_
          cases mode <;> exact hentry
      | waiting key hin => exact .waiting key hin
  | @change mode keys =>
      cases hknows with
      | entry mode hentry => exact .entry mode hentry
      | waiting key hin =>
          rw [mem_waiting_iff] at hin
          rcases hin with hin | hin
          · rcases Multiset.mem_add.mp hin with hin | hin
            · exact .waiting key (mem_waiting_iff.mpr (.inl hin))
            · obtain ⟨observer, hcalled, hnotice⟩ := List.mem_flatMap.mp (Multiset.mem_coe.mp hin)
              cases observer with
              | foreign x => exact absurd hnotice (List.not_mem_nil)
              | own o' =>
                  obtain ⟨key', _, heq⟩ := List.mem_map.mp hnotice
                  obtain ⟨rfl, rfl⟩ := Prod.mk.inj heq
                  rw [hsound.inStep.called] at hcalled
                  exact .entry _ (List.mem_filter.mp hcalled).1
          · exact .waiting key (mem_waiting_iff.mpr (.inr hin))
  | send hcall =>
      cases hknows with
      | entry mode hentry => exact .entry mode hentry
      | waiting key hin =>
          rw [mem_waiting_iff] at hin
          refine .waiting key (mem_waiting_iff.mpr ?_)
          rcases hin with hin | hin
          · exact .inl (Multiset.mem_of_mem_erase hin)
          · rcases Multiset.mem_cons.mp hin with heq | hin
            · exact .inl (heq ▸ hcall)
            · exact .inr hin
  | lost hcall =>
      cases hknows with
      | entry mode hentry => exact .entry mode hentry
      | waiting key hin =>
          rw [mem_waiting_iff] at hin
          exact .waiting key (mem_waiting_iff.mpr (hin.imp_left Multiset.mem_of_mem_erase))
  | pass hcall =>
      cases hknows with
      | entry mode hentry => exact .entry mode hentry
      | waiting key hin =>
          rw [mem_waiting_iff] at hin
          exact .waiting key (mem_waiting_iff.mpr (hin.imp_left Multiset.mem_of_mem_erase))

/-- **The others keep what holds of the process.** -/
theorem Sound.other (hsound : Sound w) (h : Other w l w') : Sound w' := by
  obtain ⟨hstanding, hshared, hcleared, hnext⟩ := h.frame
  have hpreferences : w'.preferences.InStep ∧
      (∀ o ∈ w.standing, (w'.preferences.entries o.mode.registerMode).count (.own o) = 1) ∧
      (∀ o mode, .own o ∈ w'.preferences.entries mode → .own o ∈ w.preferences.entries mode) ∧
      (∀ o ∈ w.shared, .own o ∉ w'.preferences.destroyed) ∧
      (∀ o, .own o ∈ w'.preferences.destroyed → o.id < w.nextId) := by
    cases h with
    | @elsewhere event hforeign =>
        refine ⟨hsound.inStep.run [event], ?_, ?_, ?_, ?_⟩
        · intro o ho
          rw [count_entries_foreign hforeign (hsound.alive o (hsound.standing o ho).1)]
          exact hsound.entry o ho
        · exact fun o mode hentry => mem_entries_of_foreign hforeign hentry
        · exact fun o ho hgone => hsound.alive o ho (destroyed_of_foreign hforeign hgone)
        · exact fun o hgone =>
            hsound.made o (.inr (.inr (destroyed_of_foreign hforeign hgone)))
    | @destroy o₀ hmade hnot =>
        refine ⟨hsound.inStep.run [.destroy (.own o₀)], ?_, ?_, ?_, ?_⟩
        · intro o ho
          refine Eq.trans ?_ (hsound.entry o ho)
          cases o.mode <;> rfl
        · intro o mode hentry
          cases mode <;> exact hentry
        · intro o ho hgone
          rcases List.mem_cons.mp hgone with heq | hgone
          · cases heq
            exact hnot ho
          · exact hsound.alive o ho hgone
        · intro o hgone
          rcases List.mem_cons.mp hgone with heq | hgone
          · cases heq
            exact hmade
          · exact hsound.made o (.inr (.inr hgone))
    | _ =>
        exact ⟨hsound.inStep, hsound.entry, fun _ _ hentry => hentry, hsound.alive,
          fun o hgone => hsound.made o (.inr (.inr hgone))⟩
  obtain ⟨hinStep, hentry, hsub, halive, hmade⟩ := hpreferences
  constructor
  · exact hinStep
  · rw [hstanding, hshared, hcleared]
    exact hsound.standing
  · rw [hshared, hcleared]
    exact hsound.slots
  · rw [hstanding]
    exact hentry
  · exact fun o mode ho => hsound.modes o mode (hsub o mode ho)
  · intro o hknows
    rw [hshared, hcleared]
    exact hsound.known o (h.knows hsound hknows)
  · rw [hshared]
    exact halive
  · intro o ho
    rw [hshared, hcleared] at ho
    rw [hnext]
    rcases ho with ho | ho | ho
    · exact hsound.made o (.inl ho)
    · exact hsound.made o (.inr (.inl ho))
    · exact hmade o ho

/-- What one of the objects was called with has come to its end. -/
theorem Sound.board_take (hsound : Sound w) (hsound' : Sound w') (hstanding : w'.standing = w.standing)
    {key : String} (hwaiting : w.waiting = (o, key) ::ₘ w'.waiting)
    (ho : o ∈ w.standing ∨ o.slot ∉ w.board.subscribed) :
    w'.board = ⟨w.board.subscribed,
      Function.update w.board.pending o.slot ((w.board.pending o.slot).erase key)⟩ := by
  have hsubscribed : w'.standing.image Observer.slot = w.board.subscribed := by
    rw [hstanding]
    rfl
  refine hsound'.board_eq hsubscribed ?_ ?_
  · intro o' ho'
    rw [hstanding] at ho'
    have hpending := hsound.pending_slot ho'
    rw [hwaiting, waitingFor_cons] at hpending
    by_cases hslot : o'.slot = o.slot
    · have hstands : o ∈ w.standing :=
        ho.resolve_right (fun hnot => hnot (Finset.mem_image.mpr ⟨o', ho', hslot⟩))
      obtain rfl : o' = o := hsound.standing_inj ho' hstands hslot
      rw [if_pos rfl] at hpending
      rw [Function.update_self, hpending, Multiset.erase_cons_head]
    · have hne : o ≠ o' := fun heq => hslot (heq ▸ rfl)
      rw [if_neg hne] at hpending
      rw [Function.update_of_ne hslot, hpending]
  · intro who hwho
    by_cases heq : who = o.slot
    · rw [heq, Function.update_self, pending_of_not (heq ▸ hwho)]
      exact Multiset.erase_zero key
    · rw [Function.update_of_ne heq, pending_of_not hwho]

omit [DecidableEq ω] in
/-- So has what an object was called with that does not stand: nobody hears of it. -/
theorem board_drop (hstanding : w'.standing = w.standing) {key : String}
    (hwaiting : w.waiting = (o, key) ::ₘ w'.waiting) (ho : o ∉ w.standing) :
    w'.board = w.board := by
  unfold Process.board
  rw [hstanding, hwaiting]
  congr 1
  funext who
  rw [Multiset.filter_cons_of_neg _ (fun h => ho h.1)]

omit [DecidableEq ω] in
theorem waiting_erase_calls {key : String} (hcall : (o, key) ∈ w.calls) :
    w.waiting = (o, key) ::ₘ (w.calls.erase (o, key) + w.tasks) := by
  rw [Process.waiting, ← Multiset.cons_add, Multiset.cons_erase hcall]

/-- An object that still has its reference stands, or nobody stands for its subscription. -/
theorem Sound.stands_or_not (hsound : Sound w) (hshared : o ∈ w.shared) (hcallback : o ∉ w.cleared) :
    o ∈ w.standing ∨ o.slot ∉ w.board.subscribed := by
  refine or_iff_not_imp_right.mpr ?_
  intro hnot
  obtain ⟨o', ho', hslot⟩ := Finset.mem_image.mp (not_not.mp hnot)
  obtain ⟨hshared', hcallback'⟩ := hsound.standing o' ho'
  rw [hsound.slots o hshared o' hshared' hcallback hcallback' hslot.symm]
  exact ho'

/-- **The board moves as the others do.** -/
theorem Sound.other_follows (hsound : Sound w) (h : Other w l w') : Follows l w w' := by
  have hsound' := hsound.other h
  cases h with
  | elsewhere => exact follows_of_eq rfl rfl
  | destroy => exact follows_of_eq rfl rfl
  | @change mode keys =>
      refine follows_of_step rfl ?_
      have hboard : Process.board _ = ⟨w.board.subscribed, fun who =>
          if who ∈ w.board.subscribed ∧ who.1 = mode then w.board.pending who + keys
          else w.board.pending who⟩ := hsound'.board_eq rfl ?_ ?_
      · rw [hboard]
        exact .publish
      · intro o ho
        have hmem : o.slot ∈ w.board.subscribed := Finset.mem_image_of_mem _ ho
        have hlive : .own o ∉ w.preferences.destroyed := hsound.alive o (hsound.standing o ho).1
        have hcount : (w.preferences.called mode.registerMode).count (.own o) =
            (w.preferences.entries mode.registerMode).count (.own o) := by
          rw [hsound.inStep.called, List.count_filter (by simpa using hlive)]
        have hwaiting : waitingFor (w.calls + notices
            (w.preferences.called mode.registerMode) keys + w.tasks) o =
              w.board.pending o.slot +
                (w.preferences.entries mode.registerMode).count (.own o) • (keys : Multiset _) := by
          rw [hsound.pending_slot ho, Process.waiting, waitingFor_add, waitingFor_add,
            waitingFor_add, waitingFor_notices, hcount, add_right_comm]
        refine hwaiting.trans ?_
        by_cases hmode : o.mode = mode
        · rw [if_pos ⟨hmem, hmode⟩, ← hmode, hsound.entry o ho, one_nsmul]
        · have hnone : (w.preferences.entries mode.registerMode).count (.own o) = 0 := by
            refine List.count_eq_zero.mpr ?_
            intro hentry
            have hmodes := hsound.modes o _ hentry
            exact hmode (ChangeMode.registerMode_inj hmodes).symm
          rw [if_neg (fun h => hmode h.2), hnone, zero_nsmul, add_zero]
      · intro who hwho
        rw [if_neg (fun h => hwho h.1)]
        exact pending_of_not hwho
  | @send o key hcall =>
      refine follows_of_eq rfl ?_
      have hwaiting : w.calls.erase (o, key) + (o, key) ::ₘ w.tasks = w.waiting := by
        rw [waiting_erase_calls hcall, Multiset.add_cons]
      unfold Process.board
      rw [← hwaiting]
      rfl
  | @lost o key hcall _ hcallback =>
      have hshared : o ∈ w.shared := (hsound.known o
        (.waiting key (mem_waiting_iff.mpr (.inl hcall)))).resolve_right hcallback
      refine follows_of_step rfl ?_
      rw [hsound.board_take hsound' rfl (waiting_erase_calls hcall)
        (hsound.stands_or_not hshared hcallback)]
      exact .lose
  | @pass o key hcall hgone =>
      refine follows_of_eq rfl (board_drop rfl (waiting_erase_calls hcall) ?_)
      intro ho
      rcases hgone with hgone | hgone
      · exact hsound.alive o (hsound.standing o ho).1 hgone
      · exact (hsound.standing o ho).2 hgone

end NativePreferences.KeyChange
