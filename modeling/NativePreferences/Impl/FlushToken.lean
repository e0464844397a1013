import NativePreferences.Impl.Locks

/-!
# NativePreferences.Impl.FlushToken

**Who pops the flush token.** `Flush` and `FlushSync` do nothing when the queue is full:
they rely on the flusher that filled it. So a full queue must have a flusher that will
still pop. Over a whole run this holds exactly as long as no flusher's reload has failed
(`queue_has_flusher_iff`): both the task of `Flush` and `FlushSync` return without popping
when `PreLoad` returns false, and from then on the queue stays full.
-/

namespace NativePreferences

open Lib

variable {disk : Option PrefMap} {ls : List Label} {m : Machine}

/-- Somebody will still pop the token: a thread between its push and its pop, or a task
that waits in the executor. -/
def HasFlusher (m : Machine) : Prop :=
  0 < m.sh.scheduled ∨ ∃ t, (m.pc t).unpopped = true

/-- The reload of a flusher failed. -/
def GivesUp (l : Label) : Prop := ∃ f, l.2 = .reloadFailed (.flusher f)

theorem TokenOwned.hasFlusher (h : TokenOwned m) (hqueue : m.sh.queue ≠ none) : HasFlusher m := by
  cases h with
  | free hfree => exact absurd hfree hqueue
  | waiting _ hsched => exact .inl (by omega)
  | running t _ _ hiff => exact .inr ⟨t, (hiff t).mpr rfl⟩

theorem TokenAbandoned.not_hasFlusher (h : TokenAbandoned m) : ¬ HasFlusher m := by
  intro hflusher
  rcases hflusher with hsched | ⟨t, ht⟩
  · rw [h.scheduled_eq] at hsched
    exact absurd hsched (by omega)
  · exact absurd (ht.symm.trans (h.unpopped_eq t)) (by simp)

/-- The history decides where the token is. -/
theorem token_history (hrun : Run Machine.Step (.initial disk) ls m) :
    (TokenOwned m ∧ ∀ l ∈ ls, ¬ GivesUp l) ∨ (TokenAbandoned m ∧ ∃ l ∈ ls, GivesUp l) := by
  refine Run.invariant_history
    (I := fun hist m => (TokenOwned m ∧ ∀ l ∈ hist, ¬ GivesUp l) ∨
      (TokenAbandoned m ∧ ∃ l ∈ hist, GivesUp l))
    ?_ hrun [] (.inl ⟨tokenOwned_initial disk, by simp⟩)
  intro hist m l m' hinv hstep
  rcases hinv with ⟨hown, hall⟩ | ⟨haban, l₀, hmem, hgives⟩
  · by_cases hl : GivesUp l
    · obtain ⟨f, hf⟩ := hl
      exact .inr ⟨hown.abandoned hstep hf, l, by simp, f, hf⟩
    · rcases hown.step hstep with hown' | ⟨-, hgives⟩
      · refine .inl ⟨hown', ?_⟩
        intro l' hmem
        rcases List.mem_append.mp hmem with hold | hnew
        · exact hall l' hold
        · rw [List.mem_singleton.mp hnew]
          exact hl
      · exact absurd hgives hl
  · exact .inr ⟨haban.step hstep, l₀, List.mem_append_left _ hmem, hgives⟩

/-- **A full queue has a flusher exactly as long as no flusher has given up.** -/
theorem queue_has_flusher_iff (hrun : Run Machine.Step (.initial disk) ls m) :
    (m.sh.queue ≠ none → HasFlusher m) ↔ ∀ l ∈ ls, ¬ GivesUp l := by
  rcases token_history hrun with ⟨hown, hall⟩ | ⟨haban, l, hmem, hgives⟩
  · exact iff_of_true hown.hasFlusher hall
  · refine iff_of_false ?_ (fun hall => hall l hmem hgives)
    intro himp
    refine haban.not_hasFlusher (himp ?_)
    rw [haban.queue_eq]
    simp

/-- The load fails, then the reload of a `FlushSync`: it returns, and leaves a full queue
without a flusher. -/
theorem queue_without_flusher :
    ¬ ∀ (disk : Option PrefMap) (ls : List Label) (m : Machine),
      Run Machine.Step (.initial disk) ls m → m.sh.queue ≠ none → HasFlusher m := by
  intro hall
  -- thread 0 runs the load task, thread 1 calls `FlushSync`
  obtain ⟨m, hrun⟩ : ∃ m, Run Machine.Step (.initial (some ∅))
      [(0, .tau), (0, .tau), (0, .tau), (0, .tau), (0, .tau),
        (1, .call .flushSync), (1, .pushed .sync), (1, .tau), (1, .tau), (1, .tau),
        (1, .reloadFailed (.flusher .sync)), (1, .ret .ok)] m :=
    ⟨_, .cons (.mk (.loadStart rfl)) <| .cons (.mk (.loadGo rfl)) <|
      .cons (.mk (.loadAcquire rfl rfl)) <| .cons (.mk (.loadFail (.inr rfl))) <|
      .cons (.mk .loadFinish) <| .cons (.mk .callFlushSync) <| .cons (.mk (.pushOk rfl)) <|
      .cons (.mk (.preLoadGo rfl)) <| .cons (.mk (.preLoadAcquire rfl)) <|
      .cons (.mk (.preLoadReload rfl)) <| .cons (.mk (.reloadFail rfl rfl)) <|
      .cons (.mk .ret) .nil⟩
  rcases token_history hrun with ⟨-, hnone⟩ | ⟨haban, -⟩
  · exact hnone (1, .reloadFailed (.flusher .sync)) (by simp) ⟨.sync, rfl⟩
  · refine haban.not_hasFlusher (hall _ _ m hrun ?_)
    rw [haban.queue_eq]
    simp

/-- Between the push and the pop of a `FlushSync`. -/
theorem queue_has_flusher_pushed :
    ∃ m, Run Machine.Step (.initial (some ∅)) [(1, .call .flushSync), (1, .pushed .sync)] m ∧
      m.sh.queue = some 1 ∧ HasFlusher m := by
  obtain ⟨m, hrun, hqueue⟩ : ∃ m, Run Machine.Step (.initial (some ∅))
      [(1, .call .flushSync), (1, .pushed .sync)] m ∧ m.sh.queue = some 1 :=
    ⟨_, .cons (.mk .callFlushSync) (.cons (.mk (.pushOk rfl)) .nil), rfl⟩
  refine ⟨m, hrun, hqueue, (queue_has_flusher_iff hrun).mpr ?_ (by rw [hqueue]; simp)⟩
  simp [GivesUp]

end NativePreferences
