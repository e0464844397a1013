import NativePreferences.Js.KeyChangeSound

/-!
# NativePreferences.Js.KeyChangeRuns

**What JavaScript sees of its subscriptions**, whatever the other users of the store, the service and
the threads that report changes do meanwhile.

A proxy does what a board does (`follows_board`), with the subscribers that the answers to `on` and
`off` leave (`FrontEnd.Settles`). So a callback is not called any more once `off` has returned
(`not_called_after_off`), and while it stays subscribed it is called for each change once
(`called_once`).

The two front ends differ in what `off` without a callback leaves: one forgets all objects, also
those that the service would not unregister, the other keeps these. And `off` with `undefined`
stands for all callbacks in one of them, for none in the other.
-/

namespace NativePreferences.KeyChange

open Lib

variable {φ ω : Type} [DecidableEq φ] [DecidableEq ω]
variable {front : FrontEnd} {s s' : Proxy φ ω} {w w' : Process φ ω} {l : Label φ}
variable {ls : List (Label φ)} {o : Observer φ} {lists : ObserverLists φ}

/-- The callbacks of the list of a mode. -/
def ObserverLists.callbacks (lists : ObserverLists φ) (mode : ChangeMode) : List φ :=
  (lists.of mode).map Observer.callback

/-- What a call that has returned with this code has made of the callbacks of its mode. -/
def FrontEnd.Settles : FrontEnd → Op φ → Int → List φ → List φ → Prop
  | _, .on _ callback, errCode, before, after =>
      after = if errCode = eOk ∧ callback ∉ before then before ++ [callback] else before
  | _, .off _ (.function callback), errCode, before, after =>
      after = if errCode = eOk then before.erase callback else before
  | .napi, .off _ .missing, errCode, _, after | .napi, .off _ .nullish, errCode, _, after =>
      after = [] ∧ (errCode = eOk ∨ errCode = eError)
  | .sendable, .off _ .missing, errCode, before, after =>
      after.Sublist before ∧ (errCode = eOk ↔ after = [])
  | .sendable, .off _ .nullish, errCode, before, after => after = before ∧ errCode = eOk

/-- The lists say who stands. -/
structure Agree (lists : ObserverLists φ) (w : Process φ ω) : Prop where
  modes : ∀ mode, ∀ o ∈ lists.of mode, o.mode = mode
  nodup : ∀ mode, (lists.callbacks mode).Nodup
  ends : Ends lists.localObservers.toFinset lists.multiProcessObservers w

/-- Where the thread of JavaScript stands. -/
def Fits (front : FrontEnd) (w : Process φ ω) : Thread φ → Prop
  | .idle lists => Agree lists w
  | .busy op lists rest => Sound w ∧ (∀ mode, (lists.callbacks mode).Nodup) ∧
      Does op rest (fun r w' => Agree (lists.set r.2 op.mode) w' ∧
        front.Settles op r.1 (lists.callbacks op.mode) (r.2.map Observer.callback)) w

/-! ### A call of `on` or `off` -/

/-- The other mode. -/
def ChangeMode.other : ChangeMode → ChangeMode
  | .change => .multiProcessChange
  | .multiProcessChange => .change

theorem ChangeMode.other_ne (mode : ChangeMode) : mode.other ≠ mode := by
  cases mode <;> simp [other]

theorem ends_iff (lists : ObserverLists φ) (mode : ChangeMode) :
    Ends lists.localObservers.toFinset lists.multiProcessObservers w ↔
      Ends (lists.of mode.other).toFinset (lists.of mode) w := by
  cases mode with
  | change =>
      show Ends _ _ w ↔ Ends lists.multiProcessObservers.toFinset lists.localObservers w
      rw [Ends, Ends, Finset.union_comm]
  | multiProcessChange => exact Iff.rfl

/-- The list of the mode has been replaced. -/
theorem Agree.set (h : Agree lists w) {mode : ChangeMode} {observers : List (Observer φ)}
    (hmodes : ∀ o ∈ observers, o.mode = mode) (hnodup : (observers.map Observer.callback).Nodup)
    (hends : Ends (lists.of mode.other).toFinset observers w') :
    Agree (lists.set observers mode) w' := by
  refine ⟨?_, ?_, ?_⟩
  · intro mode' o ho
    rw [ObserverLists.of_set] at ho
    by_cases heq : mode' = mode
    · rw [if_pos heq] at ho
      rw [heq]
      exact hmodes o ho
    · rw [if_neg heq] at ho
      exact h.modes mode' o ho
  · intro mode'
    rw [ObserverLists.callbacks, ObserverLists.of_set]
    by_cases heq : mode' = mode
    · rwa [if_pos heq]
    · rw [if_neg heq]
      exact h.nodup mode'
  · rwa [ends_iff _ mode, ObserverLists.of_set, ObserverLists.of_set, if_neg mode.other_ne,
      if_pos rfl]

/-- The list of the mode has lost some objects. -/
theorem Agree.shrink (h : Agree lists w) {mode : ChangeMode} {observers : List (Observer φ)}
    (hsub : observers.Sublist (lists.of mode))
    (hends : Ends (lists.of mode.other).toFinset observers w') :
    Agree (lists.set observers mode) w' :=
  h.set (fun o ho => h.modes mode o (hsub.subset ho))
    ((h.nodup mode).sublist (hsub.map Observer.callback)) hends

theorem map_filter_callback {callback : φ} {observers : List (Observer φ)}
    (hnodup : (observers.map Observer.callback).Nodup) :
    (observers.filter (fun o => ¬ callback = o.callback)).map Observer.callback =
      (observers.map Observer.callback).erase callback := by
  rw [hnodup.erase_eq_filter, List.filter_map]
  congr 2
  funext o
  show decide (¬ callback = o.callback) = (o.callback != callback)
  rw [bne, beq_eq_decide, decide_not, decide_eq_decide.mpr eq_comm]

/-- **Every call ends as it settles.** -/
theorem Agree.perform (h : Agree lists w) (front : FrontEnd) (op : Op φ) :
    Does op (front.perform (lists.of op.mode) op) (fun r w' =>
      Agree (lists.set r.2 op.mode) w' ∧
        front.Settles op r.1 (lists.callbacks op.mode) (r.2.map Observer.callback)) w := by
  have hends := (ends_iff lists op.mode).mp h.ends
  have hother : ∀ o ∈ (lists.of op.mode.other).toFinset, o.mode ≠ op.mode := by
    intro o ho
    rw [h.modes _ o (List.mem_toFinset.mp ho)]
    exact op.mode.other_ne
  have hB : ∀ o ∈ lists.of op.mode, o ∉ (lists.of op.mode.other).toFinset :=
    fun o ho hin => hother o hin (h.modes _ o ho)
  have hnodup : (lists.of op.mode).Nodup := List.Nodup.of_map _ (h.nodup op.mode)
  cases op with
  | on mode callback =>
      refine (does_registeredObserver hother hends).mono ?_
      intro r w' ⟨hend, hcases⟩
      rcases hcases with ⟨hsame, hin⟩ | ⟨hnew, hok, o, rfl, rfl, hlist⟩
      · refine ⟨h.shrink (hsame ▸ .refl _) hend, ?_⟩
        show r.2.map Observer.callback = _
        rw [if_neg (fun hyes => hyes.2 (hin hyes.1)), hsame]
        rfl
      · refine ⟨?_, ?_⟩
        · rw [hlist] at hend ⊢
          refine h.set ?_ ?_ hend
          · intro o' ho'
            rcases List.mem_append.mp ho' with ho' | ho'
            · exact h.modes _ o' ho'
            · exact congrArg Observer.mode (List.mem_singleton.mp ho')
          · rw [List.map_append]
            refine (h.nodup _).append (List.nodup_singleton _) ?_
            exact fun c hc hin => hnew (List.mem_singleton.mp hin ▸ hc)
        · show r.2.map Observer.callback = _
          rw [if_pos ⟨hok, hnew⟩, hlist, List.map_append]
          rfl
  | off mode argument =>
      have hmode : ∀ o ∈ lists.of mode, o.mode = mode := h.modes mode
      have hall : ∀ o ∈ lists.of mode, (∀ callback, argument = .function callback →
          callback = o.callback) → (Op.off mode argument).Allows (.unRegisterObserver o) := by
        intro o ho hargument
        exact ⟨argument, by rw [hmode o ho], hargument⟩
      cases front with
      | napi =>
          cases argument with
          | function callback =>
              refine (does_unRegisteredObserver (lists.of mode) hB hnodup ?_ hends).mono ?_
              · exact fun o ho heq => hall o ho (fun c hc => by cases hc; exact heq)
              · exact fun r w' ⟨hend, hsub, hmap⟩ => ⟨h.shrink hsub hend, hmap⟩
          | missing =>
              refine (does_unRegisteredAllObservers hB hnodup
                (fun o ho => hall o ho (fun c hc => by cases hc)) hends).mono ?_
              intro r w' ⟨hend, hnil, hcode⟩
              rw [hnil] at hend ⊢
              exact ⟨h.shrink (List.nil_sublist _) hend, rfl, hcode⟩
          | nullish =>
              refine (does_unRegisteredAllObservers hB hnodup
                (fun o ho => hall o ho (fun c hc => by cases hc)) hends).mono ?_
              intro r w' ⟨hend, hnil, hcode⟩
              rw [hnil] at hend ⊢
              exact ⟨h.shrink (List.nil_sublist _) hend, rfl, hcode⟩
      | sendable =>
          cases argument with
          | function callback =>
              refine (does_unsubscribe (lists.of mode) hB hnodup ?_ hends).mono ?_
              · intro o ho heq
                refine hall o ho ?_
                intro c hc
                cases hc
                simpa using heq
              · intro r w' ⟨hend, hsub, hkept, hcases⟩
                refine ⟨h.shrink hsub hend, ?_⟩
                show r.2.map Observer.callback = _
                rcases hcases with ⟨hok, hlist⟩ | ⟨hne, o, ho, heq⟩
                · rw [if_pos hok, hlist]
                  refine Eq.trans (congrArg _ (List.filter_congr ?_))
                    (map_filter_callback (h.nodup mode))
                  simp
                · -- The only object of the callback is still there.
                  have hall : ∀ o' ∈ lists.of mode, o' ∈ r.2 := by
                    intro o' ho'
                    by_cases hcallback : callback = o'.callback
                    · have hsame : o' = o := by
                        refine List.inj_on_of_nodup_map (h.nodup mode) ho' (hsub.subset ho) ?_
                        rw [← hcallback]
                        simpa using heq
                      exact hsame ▸ ho
                    · exact hkept o' ho' (by simpa using hcallback)
                  rw [if_neg hne, hsub.eq_of_length_le (hnodup.subperm hall).length_le]
                  rfl
          | missing =>
              refine (does_unsubscribe (lists.of mode) hB hnodup
                (fun o ho _ => hall o ho (fun c hc => by cases hc)) hends).mono ?_
              intro r w' ⟨hend, hsub, _, hcases⟩
              refine ⟨h.shrink hsub hend, hsub.map _, ?_⟩
              rcases hcases with ⟨hok, hlist⟩ | ⟨hne, o, ho, _⟩
              · simp [hok, hlist]
              · simp [hne, List.ne_nil_of_mem ho]
          | nullish =>
              refine (does_unsubscribe (lists.of mode) hB hnodup ?_ hends).mono ?_
              · exact fun o ho heq => by simp at heq
              · intro r w' ⟨hend, hsub, _, hcases⟩
                refine ⟨h.shrink hsub hend, ?_⟩
                rcases hcases with ⟨hok, hlist⟩ | ⟨hne, o, ho, heq⟩
                · refine ⟨?_, hok⟩
                  rw [hlist]
                  simp [ObserverLists.callbacks, Op.mode]
                · simp at heq

/-! ### One step -/

theorem Agree.holds (h : Agree lists w) :
    ∃ cl, At (lists.localObservers.toFinset ∪ lists.multiProcessObservers.toFinset)
      (lists.localObservers.toFinset ∪ lists.multiProcessObservers.toFinset) cl w := h.ends

theorem Agree.sound (h : Agree lists w) : Sound w := by
  obtain ⟨_, hat⟩ := h.holds
  exact hat.sound

theorem Agree.other (h : Agree lists w) (hother : Other w l w') : Agree lists w' := by
  obtain ⟨cl, hat⟩ := h.holds
  exact ⟨h.modes, h.nodup, cl, hat.other hother⟩

/-- Who stands is in the list of his mode. -/
theorem Agree.mem_standing_iff (h : Agree lists w) : o ∈ w.standing ↔ o ∈ lists.of o.mode := by
  obtain ⟨cl, hat⟩ := h.holds
  rw [hat.standing, Finset.mem_union, List.mem_toFinset, List.mem_toFinset]
  constructor
  · intro hin
    rcases hin with hin | hin
    · rwa [h.modes .change o hin]
    · rwa [h.modes .multiProcessChange o hin]
  · intro hin
    cases hmode : o.mode with
    | change =>
        rw [hmode] at hin
        exact .inl hin
    | multiProcessChange =>
        rw [hmode] at hin
        exact .inr hin

/-- Between two functions, a reference that has not been deleted belongs to a subscription. -/
theorem Agree.standing_of_task (h : Agree lists w) {key : String} (htask : (o, key) ∈ w.tasks)
    (hcallback : o ∉ w.cleared) : o ∈ w.standing := by
  obtain ⟨cl, hat⟩ := h.holds
  have hshared := (h.sound.known o
    (.waiting key (mem_waiting_iff.mpr (.inr htask)))).resolve_right hcallback
  rw [hat.shared] at hshared
  rwa [hat.standing]

/-- A task has come to its end. -/
theorem Sound.task (h : Sound w) (o : Observer φ) (key : String) :
    Sound { w with tasks := w.tasks.erase (o, key) } := by
  refine { h with known := ?_ }
  intro o' hknows
  refine h.known o' ?_
  cases hknows with
  | entry mode hin => exact .entry mode hin
  | waiting key' hin =>
      rw [mem_waiting_iff] at hin
      exact .waiting key' (mem_waiting_iff.mpr (hin.imp_right Multiset.mem_of_mem_erase))

theorem Agree.task (h : Agree lists w) (o : Observer φ) (key : String) :
    Agree lists { w with tasks := w.tasks.erase (o, key) } := by
  obtain ⟨cl, hat⟩ := h.holds
  exact ⟨h.modes, h.nodup, cl, hat.sound.task o key, hat.standing, hat.shared, hat.cleared⟩

omit [DecidableEq ω] in
theorem waiting_erase_tasks {key : String} (htask : (o, key) ∈ w.tasks) :
    w.waiting = (o, key) ::ₘ (w.calls + w.tasks.erase (o, key)) := by
  rw [Process.waiting, ← Multiset.add_cons, Multiset.cons_erase htask]

/-- **One step** keeps the thread where it fits, and the board moves with it. -/
theorem Step.fits (h : Step front s l s') (hfits : Fits front s.process s.js) :
    Fits front s'.process s'.js ∧ Follows l s.process s'.process := by
  cases h with
  | @other w w' js l hother =>
      cases js with
      | idle lists =>
          exact ⟨Agree.other hfits hother, Sound.other_follows (Agree.sound hfits) hother⟩
      | busy op lists rest =>
          obtain ⟨hsound, hnodup, hdoes⟩ := hfits
          exact ⟨⟨hsound.other hother, hnodup,
            hdoes.moved Moves.trans ⟨_, .cons hother .nil⟩⟩, hsound.other_follows hother⟩
  | @start w lists op =>
      exact ⟨⟨Agree.sound hfits, Agree.nodup hfits, Agree.perform hfits front op⟩, .nil⟩
  | @call w w' lists op c k r hS =>
      obtain ⟨hG, hrest⟩ := hfits.2.2 w r w' (Moves.refl w) hS
      exact ⟨⟨hG.1, hfits.2.1, hrest⟩, hG.2.1⟩
  | @finish w lists op errCode observers =>
      exact ⟨(hfits.2.2 w (Moves.refl w)).1, .nil⟩
  | @deliver w lists o key htask hcallback =>
      replace hfits : Agree lists w := hfits
      have hstands := hfits.standing_of_task htask hcallback
      have hin : key ∈ w.board.pending o.slot := by
        rw [hfits.sound.pending_slot hstands, waiting_erase_tasks htask, waitingFor_cons,
          if_pos rfl]
        exact Multiset.mem_cons_self _ _
      refine ⟨hfits.task o key, follows_of_step rfl ?_⟩
      rw [hfits.sound.board_take (hfits.sound.task o key) rfl (waiting_erase_tasks htask)
        (.inl hstands)]
      exact .deliver hin
  | @drop w lists o key htask hcallback =>
      replace hfits : Agree lists w := hfits
      refine ⟨hfits.task o key, follows_of_eq rfl (board_drop rfl (waiting_erase_tasks htask) ?_)⟩
      exact fun hstands => (hfits.sound.standing o hstands).2 hcallback

/-! ### A run -/

/-- A run keeps the thread where it fits, and is a run of the board. -/
theorem run_fits (hrun : Run (Step front) s ls s') (hfits : Fits front s.process s.js) :
    Fits front s'.process s'.js ∧
      Run (Board.Step Prod.fst) s.process.board (ls.filterMap view) s'.process.board := by
  induction hrun with
  | nil => exact ⟨hfits, .nil⟩
  | @cons s s₁ s' l ls hstep _ ih =>
      obtain ⟨hfits₁, hfollows⟩ := hstep.fits hfits
      obtain ⟨hfits', hboard⟩ := ih hfits₁
      refine ⟨hfits', ?_⟩
      have hsplit : (l :: ls).filterMap view = (view l).toList ++ ls.filterMap view := by
        cases hview : view l with
        | none => rw [List.filterMap_cons_none hview, Option.toList_none, List.nil_append]
        | some e => rw [List.filterMap_cons_some hview, Option.toList_some, List.singleton_append]
      rw [hsplit]
      exact hfollows.append hboard

/-- A call that has returned, with its code. -/
def finished : Label φ → Option (Op φ × Int)
  | .finish op errCode => some (op, errCode)
  | _ => none

/-- The callbacks as the answers leave them. -/
inductive Settled (front : FrontEnd) :
    List (Op φ × Int) → (ChangeMode → List φ) → Prop
  | nil : Settled front [] (fun _ => [])
  | snoc {calls : List (Op φ × Int)} {callbacks : ChangeMode → List φ} {op : Op φ} {errCode : Int}
      {after : List φ} (h : Settled front calls callbacks)
      (hlast : front.Settles op errCode (callbacks op.mode) after) :
      Settled front (calls ++ [(op, errCode)]) (Function.update callbacks op.mode after)

/-- The lists, also while a call is under way: as they were at its start. -/
def Thread.listsOf : Thread φ → ObserverLists φ
  | .idle lists => lists
  | .busy _ lists _ => lists

omit [DecidableEq φ] in
theorem callbacks_set (lists : ObserverLists φ) (observers : List (Observer φ))
    (mode : ChangeMode) :
    (lists.set observers mode).callbacks =
      Function.update lists.callbacks mode (observers.map Observer.callback) := by
  funext mode'
  rw [ObserverLists.callbacks, ObserverLists.of_set, Function.update_apply]
  split <;> rfl

/-- The lists are what the answers have left. -/
theorem run_settled (hrun : Run (Step front) s ls s') (hfits : Fits front s.process s.js)
    {calls : List (Op φ × Int)} (hsettled : Settled front calls s.js.listsOf.callbacks) :
    Settled front (calls ++ ls.filterMap finished) s'.js.listsOf.callbacks := by
  induction hrun generalizing calls with
  | nil => simpa using hsettled
  | @cons s s₁ s' l ls hstep _ ih =>
      obtain ⟨hfits₁, _⟩ := hstep.fits hfits
      cases hstep with
      | @finish w lists op errCode observers =>
          obtain ⟨_, hsettles⟩ := hfits.2.2 w (Moves.refl w)
          have hone : Settled front (calls ++ [(op, errCode)])
              (lists.set observers op.mode).callbacks := by
            rw [callbacks_set]
            exact hsettled.snoc hsettles
          have hrest := ih hfits₁ hone
          rwa [List.append_assoc] at hrest
      | other hother =>
          cases hother <;> exact ih hfits₁ hsettled
      | start => exact ih hfits₁ hsettled
      | call => exact ih hfits₁ hsettled
      | deliver => exact ih hfits₁ hsettled
      | drop => exact ih hfits₁ hsettled

/-- A new proxy. -/
theorem agree_initial (others : List ω) (stubs : List (ObserverStub ω)) (nextStub : Nat)
    (destroyed : List ω) :
    Agree ⟨[], []⟩ (initial others stubs nextStub destroyed : Proxy φ ω).process := by
  have hentry : ∀ (o : Observer φ) (mode : RegisterMode), .own o ∉
      (initial others stubs nextStub destroyed : Proxy φ ω).process.preferences.entries mode := by
    intro o mode
    cases mode <;> simp [initial, KeyObservers.entries]
  refine ⟨?_, ?_, ∅, ?_, rfl, rfl, rfl⟩
  · intro mode
    cases mode <;> simp [ObserverLists.of]
  · intro mode
    cases mode <;> exact List.nodup_nil
  · constructor
    · exact rfl
    · simp [initial]
    · simp [initial]
    · simp [initial]
    · exact fun o mode hin => absurd hin (hentry o mode)
    · intro o hknows
      cases hknows with
      | entry mode hin => exact absurd hin (hentry o mode)
      | waiting key hin => simp [initial, Process.waiting] at hin
    · simp [initial]
    · simp [initial]

/-- A store with an entry that has lost its observer, and one callback that has subscribed. -/
def subscribedBehind : Proxy Nat Nat where
  process :=
    { preferences := ⟨[.foreign 0, .own ⟨0, 5, .change⟩], [], [], 0, [.foreign 0]⟩
      nextId := 1, shared := {⟨0, 5, .change⟩}, cleared := ∅, calls := 0, tasks := 0
      standing := {⟨0, 5, .change⟩} }
  js := .idle ⟨[⟨0, 5, .change⟩], []⟩

theorem run_subscribedBehind :
    Run (Step .napi) (initial [0] [] 0 [0])
      [.start (.on .change 5), .call ⟨.makeShared 5 .change, (⟨0, 5, .change⟩ : Observer Nat)⟩,
        .call ⟨.registerObserver ⟨0, 5, .change⟩, (0 : Int)⟩, .finish (.on .change 5) 0]
      subscribedBehind :=
  .cons .start (.cons (.call ⟨rfl, rfl⟩) (.cons (.call ⟨⟨true, true, 0⟩, rfl, rfl⟩)
    (.cons .finish .nil)))

/-- **A proxy is a board.** Over any run, JavaScript sees what it would see of a board on which
it subscribes with `on` and unsubscribes with `off`, and the subscribers are those that the answers
have left. -/
theorem follows_board (others : List ω) (stubs : List (ObserverStub ω)) (nextStub : Nat)
    (destroyed : List ω)
    (hrun : Run (Step front) (initial others stubs nextStub destroyed : Proxy φ ω) ls s) :
    ∃ b, Run (Board.Step Prod.fst) Board.empty (ls.filterMap view) b ∧
      Settled front (ls.filterMap finished) s.js.listsOf.callbacks ∧
      ∀ lists, s.js = .idle lists → ∀ mode callback,
        (mode, callback) ∈ b.subscribed ↔ callback ∈ lists.callbacks mode := by
  have hfits := @agree_initial φ ω _ _ others stubs nextStub destroyed
  have hempty : (initial others stubs nextStub destroyed : Proxy φ ω).process.board =
      Board.empty := hfits.sound.board_eq rfl (by simp [initial]) (fun _ _ => rfl)
  obtain ⟨hend, hboard⟩ := run_fits hrun hfits
  rw [hempty] at hboard
  refine ⟨s.process.board, hboard, ?_, ?_⟩
  · have hstart : Settled front []
        (initial others stubs nextStub destroyed : Proxy φ ω).js.listsOf.callbacks := by
      have hnil : (initial others stubs nextStub destroyed : Proxy φ ω).js.listsOf.callbacks =
          fun _ => [] := by
        funext mode
        cases mode <;> rfl
      rw [hnil]
      exact .nil
    exact run_settled hrun hfits hstart
  · intro lists hidle mode callback
    rw [hidle] at hend
    replace hend : Agree lists s.process := hend
    constructor
    · intro hin
      obtain ⟨o, ho, hslot⟩ := Finset.mem_image.mp hin
      obtain ⟨rfl, rfl⟩ := Prod.mk.inj hslot
      exact List.mem_map_of_mem (hend.mem_standing_iff.mp ho)
    · intro hin
      obtain ⟨o, ho, rfl⟩ := List.mem_map.mp hin
      have hmode := hend.modes mode o ho
      refine Finset.mem_image.mpr ⟨o, hend.mem_standing_iff.mpr (hmode ▸ ho), ?_⟩
      rw [Observer.slot, hmode]

/-- The subscription of one callback. -/
theorem follows_board_one :
    ∃ b, Run (Board.Step Prod.fst) Board.empty
        [(.subscribe (.change, 5) : BoardEvent (ChangeMode × Nat) ChangeMode String)] b ∧
      Settled .napi [(.on .change 5, 0)] (ObserverLists.callbacks ⟨[⟨0, 5, .change⟩], []⟩) ∧
      ∀ lists, Thread.idle ⟨[⟨0, 5, .change⟩], []⟩ = .idle lists → ∀ mode callback,
        (mode, callback) ∈ b.subscribed ↔ callback ∈ lists.callbacks mode :=
  follows_board [0] [] 0 [0] run_subscribedBehind

/-! ### After `off` -/

/-- The answer to `off` says that the callback is not subscribed any more. -/
def FrontEnd.TakesOut (callback : φ) : FrontEnd → CallbackArgument φ → Int → Prop
  | _, .function callback', errCode => callback' = callback ∧ errCode = eOk
  | .napi, .missing, _ | .napi, .nullish, _ => True
  | .sendable, .missing, errCode => errCode = eOk
  | .sendable, .nullish, _ => False

/-- Nobody new is there but who has called `on`. -/
theorem FrontEnd.Settles.mem_or_on {op : Op φ} {errCode : Int} {before after : List φ}
    (h : front.Settles op errCode before after) {callback : φ} (hin : callback ∈ after) :
    callback ∈ before ∨ op = .on op.mode callback := by
  cases op with
  | on mode callback' =>
      obtain rfl : after = _ := h
      split at hin
      · rcases List.mem_append.mp hin with hin | hin
        · exact .inl hin
        · rw [List.mem_singleton.mp hin]
          exact .inr rfl
      · exact .inl hin
  | off mode argument =>
      refine .inl ?_
      have hone : ∀ c, (after = if errCode = eOk then before.erase c else before) →
          callback ∈ before := by
        rintro c rfl
        split at hin
        · exact List.mem_of_mem_erase hin
        · exact hin
      cases front <;> cases argument
      · exact absurd hin (by simp [h.1])
      · exact absurd hin (by simp [h.1])
      · exact hone _ h
      · exact h.1.subset hin
      · exact h.1 ▸ hin
      · exact hone _ h

theorem FrontEnd.Settles.not_mem {mode : ChangeMode} {argument : CallbackArgument φ}
    {errCode : Int} {before after : List φ}
    (h : front.Settles (.off mode argument) errCode before after) (hnodup : before.Nodup)
    {callback : φ} (hout : front.TakesOut callback argument errCode) : callback ∉ after := by
  have hone : ∀ c, (after = if errCode = eOk then before.erase c else before) →
      c = callback ∧ errCode = eOk → callback ∉ after := by
    rintro c rfl ⟨rfl, hok⟩
    rw [if_pos hok]
    exact hnodup.not_mem_erase
  cases front <;> cases argument
  · simp [h.1]
  · simp [h.1]
  · exact hone _ h hout
  · simp [h.2.mp hout]
  · exact absurd hout id
  · exact hone _ h hout

/-- The callback has no subscription, and none is under way. -/
def Absent (mode : ChangeMode) (callback : φ) : Thread φ → Prop
  | .idle lists => callback ∉ lists.callbacks mode
  | .busy op lists _ => callback ∉ lists.callbacks mode ∧ op ≠ .on mode callback

/-- Without a call of `on` it stays so, and the callback is not called. -/
theorem Step.absent (h : Step front s l s') (hfits : Fits front s.process s.js)
    {mode : ChangeMode} {callback : φ} (habsent : Absent mode callback s.js)
    (hl : l ≠ .start (.on mode callback)) :
    Absent mode callback s'.js ∧ ∀ o key, o.slot = (mode, callback) → l ≠ .deliver o key := by
  cases h with
  | other hother =>
      refine ⟨habsent, ?_⟩
      rintro o key _ rfl
      cases hother
  | @start w lists op =>
      refine ⟨⟨habsent, ?_⟩, fun o key _ heq => by cases heq⟩
      intro heq
      exact hl (heq ▸ rfl)
  | call => exact ⟨habsent, fun o key _ heq => by cases heq⟩
  | @finish w lists op errCode observers =>
      refine ⟨?_, fun o key _ heq => by cases heq⟩
      obtain ⟨hnot, hne⟩ := habsent
      obtain ⟨_, hsettles⟩ := hfits.2.2 w (Moves.refl w)
      show callback ∉ (lists.set observers op.mode).callbacks mode
      rw [callbacks_set, Function.update_apply]
      split
      · next hmode =>
        intro hin
        rcases hsettles.mem_or_on hin with hold | heq
        · exact hnot (hmode ▸ hold)
        · exact hne (hmode ▸ heq)
      · exact hnot
  | @deliver w lists o key htask hcallback =>
      refine ⟨habsent, ?_⟩
      rintro o' key' hslot heq
      cases heq
      replace hfits : Agree lists w := hfits
      obtain ⟨rfl, rfl⟩ := Prod.mk.inj hslot
      exact habsent (List.mem_map_of_mem (hfits.mem_standing_iff.mp
        (hfits.standing_of_task htask hcallback)))
  | drop => exact ⟨habsent, fun o key _ heq => by cases heq⟩

/-- **After `off`.** Once `off` has returned for a callback, the callback is not called by that
subscription until it is asked for again, also if changes had been reported before, and whichever
entry of the store was taken out. -/
theorem not_called_after_off (others : List ω) (stubs : List (ObserverStub ω)) (nextStub : Nat)
    (destroyed : List ω) {before after : List (Label φ)} {mode : ChangeMode}
    {argument : CallbackArgument φ} {errCode : Int} {callback : φ}
    (hrun : Run (Step front) (initial others stubs nextStub destroyed : Proxy φ ω)
      (before ++ .finish (.off mode argument) errCode :: after) s)
    (hout : front.TakesOut callback argument errCode)
    (hon : .start (.on mode callback) ∉ after) :
    ∀ o key, o.slot = (mode, callback) → .deliver o key ∉ after := by
  obtain ⟨s₁, hrun₁, hrest⟩ := hrun.append_inv
  have hfits₁ := (run_fits hrun₁ (@agree_initial φ ω _ _ others stubs nextStub destroyed)).1
  cases hrest with
  | @cons _ s₂ _ _ _ hfinish hafter =>
      have hfits₂ := (hfinish.fits hfits₁).1
      have habsent : Absent mode callback s₂.js := by
        cases hfinish with
        | other hother => cases hother
        | @finish w lists op errCode observers =>
            obtain ⟨hagree, hsettles⟩ := hfits₁.2.2 w (Moves.refl w)
            show callback ∉ ObserverLists.callbacks _ mode
            rw [callbacks_set, Op.mode, Function.update_self]
            exact hsettles.not_mem (hfits₁.2.1 mode) hout
      clear hfinish hrun hrun₁ hfits₁
      induction hafter with
      | nil => simp
      | @cons s₂ s₃ s l ls hstep _ ih =>
          rw [List.mem_cons, not_or] at hon
          obtain ⟨habsent', hnot⟩ := hstep.absent hfits₂ habsent (fun heq => hon.1 heq.symm)
          intro o key hslot hin
          rcases List.mem_cons.mp hin with heq | hin
          · exact hnot o key hslot heq.symm
          · exact ih hon.2 (hstep.fits hfits₂).1 habsent' o key hslot hin

/-- `off` takes out the entry without an observer; a change comes before the reference is deleted,
and one task and one call are still on their way when `off` returns. -/
theorem not_called_after_off_pending :
    ∃ before s, Run (Step .napi) (initial [0] [] 0 [0] : Proxy Nat Nat)
        (before ++ .finish (.off .change (.function 5)) 0 :: [.aside, .aside]) s ∧
      .deliver ⟨0, 5, .change⟩ "j" ∉ [(.aside : Label Nat), .aside] := by
  have h₁ := run_subscribedBehind.snoc (.other (@Other.change _ _ _ _ _ .change ["k"]))
  have h₂ := h₁.snoc (.other (@Other.send _ _ _ _ _ ⟨0, 5, .change⟩ "k"
    (by decide) (by decide) (by decide)))
  have h₃ := h₂.snoc (@Step.start _ _ _ _ _ _ _ (.off .change (.function 5)))
  have h₄ : Run _ _ (_ ++
      [Label.call ⟨ObserverCall.unRegisterObserver ⟨0, 5, .change⟩, (0 : Int)⟩]) _ :=
    h₃.snoc (.call ⟨⟨true, true, 0⟩, rfl, rfl⟩)
  have h₅ := h₄.snoc (.other (@Other.change _ _ _ _ _ .change ["j"]))
  have h₆ : Run _ _ (_ ++ [Label.call ⟨ObserverCall.clearCallback ⟨0, 5, .change⟩, ()⟩]) _ :=
    h₅.snoc (.call rfl)
  have h₇ : Run _ _ (_ ++ [Label.call ⟨ObserverCall.release ⟨0, 5, .change⟩, ()⟩]) _ :=
    h₆.snoc (.call rfl)
  have h₈ : Run _ _ (_ ++ Label.finish (Op.off .change (.function 5)) 0 :: [.aside, .aside]) _ :=
    h₇.append (.cons .finish (.cons (@Step.drop _ _ _ _ _ _ _ ⟨0, 5, .change⟩ "k"
      (by decide) (by decide)) (.cons (.other (@Other.pass _ _ _ _ _ ⟨0, 5, .change⟩ "j"
        (by decide) (.inr (by decide)))) .nil)))
  exact ⟨_, _, h₈, not_called_after_off [0] [] 0 [0] h₈ ⟨rfl, rfl⟩ (by simp) _ _ rfl⟩

/-! ### While a callback is subscribed -/

omit [DecidableEq φ] in
/-- What the board hears of a call. -/
theorem view_call (e : Event (ObserverCall.Answer : ObserverCall φ → Type)) :
    view (.call e) = none ∨ (∃ o : Observer φ, view (.call e) = some (.subscribe o.slot)) ∨
      ∃ o : Observer φ, (e.1 = .unRegisterObserver o ∨ e.1 = .clearCallback o) ∧
        view (.call e) = some (.unsubscribe o.slot) := by
  obtain ⟨c, r⟩ := e
  cases c with
  | makeShared => exact .inl rfl
  | registerObserver o =>
      by_cases hok : (r : Int) = eOk
      · exact .inr (.inl ⟨o, if_pos hok⟩)
      · exact .inl (if_neg hok)
  | unRegisterObserver o =>
      by_cases hok : (r : Int) = eOk
      · exact .inr (.inr ⟨o, .inl rfl, if_pos hok⟩)
      · exact .inl (if_neg hok)
  | clearCallback o => exact .inr (.inr ⟨o, .inr rfl, rfl⟩)
  | release => exact .inl rfl

omit [DecidableEq φ] in
theorem lost_of_view {who : ChangeMode × φ} {key : String} (h : view l = some (.lose who key)) :
    ∃ o, o.slot = who ∧ l = .lost o key := by
  cases l with
  | call e =>
      rcases view_call e with hview | ⟨o, hview⟩ | ⟨o, _, hview⟩
      · exact absurd (hview.symm.trans h) (by simp)
      · exact absurd (hview.symm.trans h) (by simp)
      · exact absurd (hview.symm.trans h) (by simp)
  | lost o key' =>
      have heq : some (BoardEvent.lose o.slot key') = some (.lose who key) := h
      simp only [Option.some.injEq, BoardEvent.lose.injEq] at heq
      exact ⟨o, heq.1, by rw [heq.2]⟩
  | _ => exact absurd h (by simp [view])

/-- No call of `off` is under way that is for the callback. -/
def Stays (mode : ChangeMode) (callback : φ) : Thread φ → Prop
  | .idle _ => True
  | .busy op _ _ => ∀ argument, op = .off mode argument →
      ∃ other, argument = .function other ∧ other ≠ callback

/-- Without such a call nothing takes the callback off the board. -/
theorem Step.stays (h : Step front s l s') (hfits : Fits front s.process s.js)
    {mode : ChangeMode} {callback : φ} (hstays : Stays mode callback s.js)
    (hl : ∀ argument, l = .start (.off mode argument) →
      ∃ other, argument = .function other ∧ other ≠ callback) :
    Stays mode callback s'.js ∧ view l ≠ some (.unsubscribe (mode, callback)) := by
  cases h with
  | other hother =>
      refine ⟨hstays, ?_⟩
      cases hother <;> simp [view]
  | start => exact ⟨fun argument heq => hl argument (heq ▸ rfl), by simp [view]⟩
  | @call w w' lists op c k r hS =>
      refine ⟨hstays, ?_⟩
      have hallows : op.Allows c := (hfits.2.2 w r w' (Moves.refl w) hS).1.2.2
      intro hview
      rcases view_call ⟨c, r⟩ with hnone | ⟨o, hsome⟩ | ⟨o, hc, hsome⟩
      · exact absurd (hnone.symm.trans hview) (by simp)
      · exact absurd (hsome.symm.trans hview) (by simp)
      · have hslot : o.slot = (mode, callback) := by simpa using hsome.symm.trans hview
        obtain ⟨rfl, rfl⟩ := Prod.mk.inj hslot
        have hown : op.Allows (.unRegisterObserver o) := by
          rcases hc with hc | hc
          · exact (congrArg op.Allows hc).mp hallows
          · exact (congrArg op.Allows hc).mp hallows
        obtain ⟨argument, hop, hcallback⟩ := hown
        obtain ⟨other, rfl, hne⟩ := hstays argument hop
        exact hne (hcallback other rfl)
  | finish => exact ⟨trivial, by simp [view]⟩
  | deliver => exact ⟨trivial, by simp [view]⟩
  | drop => exact ⟨trivial, by simp [view]⟩

theorem run_stays (hrun : Run (Step front) s ls s') (hfits : Fits front s.process s.js)
    {mode : ChangeMode} {callback : φ} (hstays : Stays mode callback s.js)
    (hoff : ∀ argument, .start (.off mode argument) ∈ ls →
      ∃ other, argument = .function other ∧ other ≠ callback) :
    .unsubscribe (mode, callback) ∉ ls.filterMap view := by
  induction hrun with
  | nil => simp
  | @cons s s₁ s' l ls hstep _ ih =>
      obtain ⟨hstays₁, hview⟩ := hstep.stays hfits hstays
        (fun argument heq => hoff argument (heq ▸ List.mem_cons_self))
      have hrest := ih (hstep.fits hfits).1 hstays₁
        (fun argument hin => hoff argument (List.mem_cons_of_mem _ hin))
      intro hin
      obtain ⟨l', hl', hsome⟩ := List.mem_filterMap.mp hin
      rcases List.mem_cons.mp hl' with rfl | hl'
      · exact hview hsome
      · exact hrest (List.mem_filterMap.mpr ⟨l', hl', hsome⟩)

/-- **Once for each change.** Let a callback be subscribed and not be unsubscribed in what follows.
The calls that it gets with a key, and those that are still to come, are no more than were still to
come before and the changes of the key; they are no fewer if every task could be sent. -/
theorem called_once (others : List ω) (stubs : List (ObserverStub ω)) (nextStub : Nat)
    (destroyed : List ω) {before after : List (Label φ)}
    (hrun : Run (Step front) (initial others stubs nextStub destroyed : Proxy φ ω) before s)
    (hidle : s.js = .idle lists) {mode : ChangeMode} {callback : φ}
    (hsubscribed : callback ∈ lists.callbacks mode) (hrun' : Run (Step front) s after s')
    (hoff : ∀ argument, .start (.off mode argument) ∈ after →
      ∃ other, argument = .function other ∧ other ≠ callback) (key : String) :
    (s'.process.board.pending (mode, callback)).count key +
          Board.delivered (mode, callback) key (after.filterMap view) ≤
        (s.process.board.pending (mode, callback)).count key +
          Board.published Prod.fst (mode, callback) key (after.filterMap view) ∧
      ((∀ o, o.slot = (mode, callback) → .lost o key ∉ after) →
        (s.process.board.pending (mode, callback)).count key +
            Board.published Prod.fst (mode, callback) key (after.filterMap view) ≤
          (s'.process.board.pending (mode, callback)).count key +
            Board.delivered (mode, callback) key (after.filterMap view)) := by
  have hfits := (run_fits hrun (@agree_initial φ ω _ _ others stubs nextStub destroyed)).1
  have hboard := (run_fits hrun' hfits).2
  have hunsubscribe : .unsubscribe (mode, callback) ∉ after.filterMap view := by
    refine run_stays hrun' hfits ?_ hoff
    rw [hidle]
    exact trivial
  have hmem : (mode, callback) ∈ s.process.board.subscribed := by
    rw [hidle] at hfits
    replace hfits : Agree lists s.process := hfits
    obtain ⟨o, ho, rfl⟩ := List.mem_map.mp hsubscribed
    have hmode := hfits.modes mode o ho
    refine Finset.mem_image.mpr ⟨o, hfits.mem_standing_iff.mpr (hmode ▸ ho), ?_⟩
    rw [Observer.slot, hmode]
  refine ⟨Board.delivered_le hboard hmem hunsubscribe, ?_⟩
  intro hkept
  refine Board.le_delivered hboard hmem hunsubscribe ?_
  intro hin
  obtain ⟨l, hl, hview⟩ := List.mem_filterMap.mp hin
  obtain ⟨o, hslot, rfl⟩ := lost_of_view hview
  exact hkept o hslot hl

/-- One change, of which the callback is told. -/
theorem called_once_one :
    ∃ s s' : Proxy Nat Nat, Run (Step .napi) s
        [.change .change ["k"], .aside, .deliver ⟨0, 5, .change⟩ "k"] s' ∧
      (s'.process.board.pending (.change, 5)).count "k" + 1 ≤
        (s.process.board.pending (.change, 5)).count "k" + 1 := by
  have h₀ : Run (Step .napi) subscribedBehind [] subscribedBehind := .nil
  have h₁ := h₀.snoc (.other (@Other.change _ _ _ _ _ .change ["k"]))
  have h₂ := h₁.snoc (.other (@Other.send _ _ _ _ _ ⟨0, 5, .change⟩ "k"
    (by decide) (by decide) (by decide)))
  have h₃ := h₂.snoc (@Step.deliver _ _ _ _ _ _ _ ⟨0, 5, .change⟩ "k" (by decide) (by decide))
  exact ⟨_, _, h₃, (called_once [0] [] 0 [0] run_subscribedBehind rfl (by decide) h₃
    (by simp) "k").1⟩

end NativePreferences.KeyChange
