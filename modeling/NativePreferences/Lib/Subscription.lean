import Mathlib.Data.Finset.Basic
import Mathlib.Data.Multiset.AddSub
import Mathlib.Logic.Function.Basic
import NativePreferences.Lib.Transition

/-!
# NativePreferences.Lib.Subscription

**What subscribing is for.** A board knows who has subscribed, each to the topic that is his, and
what he has not been told yet. A publication is put down for everybody who is subscribed to the
topic at that moment, and each of them is told of it later, in any order. Who unsubscribes is told
nothing more, also of what was published before.

While somebody stays subscribed, he is told of each publication once: nothing twice
(`Board.Step.told_le`), and, if no delivery fails, nothing is left out (`Board.Step.le_told`).
-/

namespace NativePreferences.Lib

variable {σ τ μ : Type} [DecidableEq σ] [DecidableEq τ] [DecidableEq μ]

/-- The subscribers, and what is put down for each. -/
structure Board (σ μ : Type) where
  subscribed : Finset σ
  pending : σ → Multiset μ

/-- What happens at a board. -/
inductive BoardEvent (σ τ μ : Type)
  | subscribe (who : σ)
  | unsubscribe (who : σ)
  | publish (topic : τ) (messages : List μ)
  | deliver (who : σ) (message : μ)
  /-- The message cannot be delivered. -/
  | lose (who : σ) (message : μ)
  deriving DecidableEq

namespace Board

/-- Nobody has subscribed. -/
def empty : Board σ μ := ⟨∅, fun _ => 0⟩

/-- One event. -/
inductive Step (topicOf : σ → τ) : Board σ μ → BoardEvent σ τ μ → Board σ μ → Prop
  | subscribe {b : Board σ μ} {who : σ} (hnew : who ∉ b.subscribed) :
      Step topicOf b (.subscribe who) ⟨insert who b.subscribed, b.pending⟩
  | unsubscribe {b : Board σ μ} {who : σ} :
      Step topicOf b (.unsubscribe who)
        ⟨b.subscribed.erase who, Function.update b.pending who 0⟩
  | publish {b : Board σ μ} {topic : τ} {messages : List μ} :
      Step topicOf b (.publish topic messages)
        ⟨b.subscribed, fun who =>
          if who ∈ b.subscribed ∧ topicOf who = topic then b.pending who + messages
          else b.pending who⟩
  | deliver {b : Board σ μ} {who : σ} {message : μ} (hwaits : message ∈ b.pending who) :
      Step topicOf b (.deliver who message)
        ⟨b.subscribed, Function.update b.pending who ((b.pending who).erase message)⟩
  | lose {b : Board σ μ} {who : σ} {message : μ} :
      Step topicOf b (.lose who message)
        ⟨b.subscribed, Function.update b.pending who ((b.pending who).erase message)⟩

/-- How often the event puts the message down for a subscriber. -/
def told (topicOf : σ → τ) (who : σ) (message : μ) : BoardEvent σ τ μ → Nat
  | .publish topic messages => if topicOf who = topic then messages.count message else 0
  | _ => 0

/-- How often the message was put down for a subscriber. -/
def published (topicOf : σ → τ) (who : σ) (message : μ) : List (BoardEvent σ τ μ) → Nat
  | [] => 0
  | l :: ls => told topicOf who message l + published topicOf who message ls

/-- How often the subscriber was told. -/
def delivered (who : σ) (message : μ) (ls : List (BoardEvent σ τ μ)) : Nat :=
  ls.count (.deliver who message)

variable {topicOf : σ → τ} {b b' : Board σ μ} {l : BoardEvent σ τ μ}
variable {ls : List (BoardEvent σ τ μ)} {who : σ} {message : μ}

/-! ### One event -/

theorem Step.stays (h : Step topicOf b l b') (hsub : who ∈ b.subscribed)
    (hl : l ≠ .unsubscribe who) : who ∈ b'.subscribed := by
  cases h with
  | subscribe => exact Finset.mem_insert_of_mem hsub
  | unsubscribe =>
      refine Finset.mem_erase.mpr ⟨?_, hsub⟩
      intro heq
      exact hl (heq ▸ rfl)
  | publish => exact hsub
  | deliver => exact hsub
  | lose => exact hsub

theorem count_erase_update (who' : σ) (message' : μ) :
    (Function.update b.pending who' ((b.pending who').erase message') who).count message =
      if who' = who ∧ message' = message then (b.pending who).count message - 1
      else (b.pending who).count message := by
  by_cases hwho : who = who'
  · subst hwho
    rw [Function.update_self]
    by_cases hmessage : message = message'
    · subst hmessage
      simp
    · rw [Multiset.count_erase_of_ne hmessage, if_neg (fun h => hmessage h.2.symm)]
  · rw [Function.update_of_ne hwho, if_neg (fun h => hwho h.1.symm)]

/-- Nothing is told that was not put down. -/
theorem Step.told_le (h : Step topicOf b l b') (hsub : who ∈ b.subscribed)
    (hl : l ≠ .unsubscribe who) :
    (b'.pending who).count message + delivered who message [l] ≤
      (b.pending who).count message + told topicOf who message l := by
  cases h with
  | subscribe => simp [delivered, told]
  | @unsubscribe who' =>
      have hne : who ≠ who' := fun heq => hl (heq ▸ rfl)
      simp [delivered, told, Function.update_of_ne hne]
  | @publish topic messages =>
      by_cases htopic : topicOf who = topic
      · simp [delivered, told, hsub, htopic]
      · simp [delivered, told, htopic]
  | @deliver who' message' hwaits =>
      dsimp only
      rw [count_erase_update]
      by_cases hsame : who' = who ∧ message' = message
      · obtain ⟨rfl, rfl⟩ := hsame
        have hpos : 0 < (b.pending who').count message' := Multiset.count_pos.mpr hwaits
        simp only [and_self, if_true, delivered, told, List.count_singleton_self]
        omega
      · have hne : (BoardEvent.deliver who' message' : BoardEvent σ τ μ) ≠
            .deliver who message := by simpa using hsame
        simp [hsame, delivered, told, hne]
  | lose =>
      dsimp only
      rw [count_erase_update]
      simp only [delivered, told, List.count_singleton]
      split <;> simp

/-- What is put down is told or still to be told. -/
theorem Step.le_told (h : Step topicOf b l b') (hsub : who ∈ b.subscribed)
    (hl : l ≠ .unsubscribe who) (hkept : l ≠ .lose who message) :
    (b.pending who).count message + told topicOf who message l ≤
      (b'.pending who).count message + delivered who message [l] := by
  cases h with
  | subscribe => simp [delivered, told]
  | @unsubscribe who' =>
      have hne : who ≠ who' := fun heq => hl (heq ▸ rfl)
      simp [delivered, told, Function.update_of_ne hne]
  | @publish topic messages =>
      by_cases htopic : topicOf who = topic
      · simp [delivered, told, hsub, htopic]
      · simp [delivered, told, htopic]
  | @deliver who' message' hwaits =>
      dsimp only
      rw [count_erase_update]
      by_cases hsame : who' = who ∧ message' = message
      · obtain ⟨rfl, rfl⟩ := hsame
        simp only [and_self, if_true, delivered, told, List.count_singleton_self]
        omega
      · simp [hsame, delivered, told]
  | @lose who' message' =>
      have hne : ¬ (who' = who ∧ message' = message) := by simpa using hkept
      dsimp only
      rw [count_erase_update, if_neg hne]
      simp [delivered, told]

/-! ### A run -/

theorem delivered_cons :
    delivered who message (l :: ls) = delivered who message [l] + delivered who message ls := by
  rw [delivered, delivered, delivered, ← List.count_append, List.singleton_append]

/-- **Nothing is told twice**: while somebody stays subscribed, what he is told and is still to be
told is at most what was put down. -/
theorem delivered_le (h : Run (Step topicOf) b ls b') (hsub : who ∈ b.subscribed)
    (hstay : .unsubscribe who ∉ ls) :
    (b'.pending who).count message + delivered who message ls ≤
      (b.pending who).count message + published topicOf who message ls := by
  induction h with
  | nil => simp [delivered, published]
  | @cons b b₁ b' l ls hstep _ ih =>
      rw [List.mem_cons, not_or] at hstay
      have hone : (b₁.pending who).count message + delivered who message [l] ≤
          (b.pending who).count message + told topicOf who message l :=
        hstep.told_le hsub (fun heq => hstay.1 heq.symm)
      have hrest := ih (hstep.stays hsub (fun heq => hstay.1 heq.symm)) hstay.2
      rw [delivered_cons, published]
      omega

/-- **Nothing is left out**, if no delivery fails. -/
theorem le_delivered (h : Run (Step topicOf) b ls b') (hsub : who ∈ b.subscribed)
    (hstay : .unsubscribe who ∉ ls) (hkept : .lose who message ∉ ls) :
    (b.pending who).count message + published topicOf who message ls ≤
      (b'.pending who).count message + delivered who message ls := by
  induction h with
  | nil => simp [delivered, published]
  | @cons b b₁ b' l ls hstep _ ih =>
      rw [List.mem_cons, not_or] at hstay hkept
      have hone := hstep.le_told hsub (fun heq => hstay.1 heq.symm) (fun heq => hkept.1 heq.symm)
      have hrest := ih (hstep.stays hsub (fun heq => hstay.1 heq.symm)) hstay.2 hkept.2
      rw [delivered_cons, published]
      omega

end Board

end NativePreferences.Lib
