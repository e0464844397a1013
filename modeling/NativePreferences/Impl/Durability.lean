import NativePreferences.Impl.Coalescing

/-!
# NativePreferences.Impl.Durability

**What is left of an instance when it is released.** `RemovePreferencesFromCache` drops the
reference of the helper; the instance goes when the last client has dropped its own. A
call in progress, a running flush task and a load task hold references of their own, a
scheduled flush task does not: when it runs too late it finds the instance gone and does
nothing. `OH_Preferences_Close` is a `FlushSync` followed by such a release.

So a flush is durable if no token is in the queue when the instance goes
(`reopen_eq_visible`). A token that is left may belong to a scheduled task, and then the
flush is lost, even if a `FlushSync` came after it and returned `E_OK`.
-/

namespace NativePreferences

open Lib

variable {t : Tid} {disk : Option PrefMap} {m₁ m₂ m : Machine} {ls₁ ls₂ : List Label}

/-- Nobody holds a reference to the instance. -/
structure Released (m : Machine) : Prop where
  idle : ∀ t, m.pc t = .idle
  loadDone : m.sh.loadPending = false

/-- The map the next `GetPreferences` on the path of a released instance loads. -/
def Machine.reopen (m : Machine) (o : Weather) (dirAccessible : Bool) : PrefMap :=
  ((Store.initial m.sh.disk).loadFromDisk o dirAccessible).cache.visible

/-- A queue that is empty at the end was never left full by a flusher that gave up. -/
theorem not_givesUp_of_queue {ls : List Label} (hrun : Run Machine.Step (.initial disk) ls m)
    (hqueue : m.sh.queue = none) : TokenOwned m ∧ ∀ l ∈ ls, ¬ GivesUp l := by
  rcases token_history hrun with hown | ⟨haban, -⟩
  · exact hown
  · exact absurd (hqueue.symm.trans haban.queue_eq) (by simp)

/-- With no owner left, an owned token is not there. -/
theorem TokenOwned.scheduled_eq (h : TokenOwned m) (hqueue : m.sh.queue = none) :
    m.sh.scheduled = 0 := by
  cases h with
  | free _ hsched | running _ _ hsched => exact hsched
  | waiting hfull => exact absurd (hqueue.symm.trans hfull) (by simp)

/-- **A flush is durable if no token is left.** No write fails, a flush starts after the last
mutation has returned, and the file is not read after that. At the flush the instance has
read or written its file, or there is nothing in the file, or something to write. If the
queue is empty when the instance is released, the next instance shows what readers saw
at that flush. -/
theorem reopen_eq_visible {c : Call} (hrun₁ : Run Machine.WritingStep (.initial disk) ls₁ m₁)
    (hquiet : Quiet m₁) (hcall : m₁.Step (t, .call c) m₂) (hc : c = .flush ∨ c = .flushSync)
    (hrun₂ : Run Machine.WritingStep m₂ ls₂ m) (hno : ∀ l ∈ ls₂, ¬ StartsMutation l)
    (hrel : Released m) (hread : ∀ l ∈ ls₂, ¬ ReadsFile l)
    (hfile : m₁.sh.loadResult = true ∨ m₁.sh.persisted = ∅ ∨ ¬ m₁.sh.cache.Clean)
    (hqueue : m.sh.queue = none) (o : Weather) (ho : o.readable = true) (dirAccessible : Bool) :
    m.reopen o dirAccessible = m₁.sh.cache.visible := by
  have hwhole := hrun₁.append (.cons ⟨hcall, by simp⟩ hrun₂)
  obtain ⟨htoken, hgive⟩ := not_givesUp_of_queue hwhole.unguard hqueue
  have htoken₁ : TokenOwned m₁ := by
    rcases token_history hrun₁.unguard with ⟨hown, -⟩ | ⟨-, l, hmem, hgives⟩
    · exact hown
    · exact absurd hgives (hgive l (by simp [hmem]))
  obtain ⟨hbase, htrack⟩ := track_run hrun₁ (baseInv_initial disk) (trackInv_initial disk)
  have hsettled : FileSettled m₁ := by
    intro hnot
    rcases hfile with htrue | hempty | hdirty
    · exact absurd (htrue.symm.trans hnot) (by simp)
    · exact .inl hempty
    · exact .inr (.inr hdirty)
  have hcalm : ∀ l ∈ ls₂, ¬ GivesUp l ∧ ¬ ReadsFile l := by
    intro l hl
    exact ⟨hgive l (by simp [hl]), hread l hl⟩
  have hstart : Calm m₁ := ⟨hbase, htrack, htoken₁, hquiet, hsettled⟩
  obtain ⟨hpers, -⟩ := hstart.run hc hcall (calm_run_of hrun₂ hno hcalm)
    ⟨hrel.idle, htoken.scheduled_eq hqueue⟩
  rw [Machine.reopen, Store.visible_loadFromDisk _ ho]
  exact hpers

/-- A `Put` and a `Flush` whose task is still scheduled. A `FlushSync` finds the queue full and
returns `E_OK`; the instance goes, and the update with it. -/
theorem reopen_loses_update :
    ¬ ∀ (disk : Option PrefMap) (ls₁ ls₂ : List Label) (m₁ m₂ m : Machine) (t : Tid) (c : Call)
      (o : Weather) (dirAccessible : Bool),
      Run Machine.WritingStep (.initial disk) ls₁ m₁ → Quiet m₁ → m₁.sh.loadResult = true →
      m₁.Step (t, .call c) m₂ → (c = .flush ∨ c = .flushSync) →
      Run Machine.WritingStep m₂ ls₂ m → (∀ l ∈ ls₂, ¬ StartsMutation l) → Released m →
      o.readable = true → m.reopen o dirAccessible = m₁.sh.cache.visible := by
  intro hall
  have hskip : Solo TStep 1 (.free { Store.oneUnsaved with queue := some 1 } 1 false) (.push .sync)
      [.skipped .sync, .ret .ok] (.free { Store.oneUnsaved with queue := some 1 } 1 false) .idle :=
    .cons (.pushFull (by simp [Shared.free])) <| .cons .ret .nil
  have hafter : Run Machine.WritingStep _ _ _ := (hskip.run_home allIdle).guard (by simp)
  have hlost := hall _ _ _ _ _ _ _ _ ⟨true, true, true⟩ true
    (((run_loaded ∅).append run_oneUnsaved).append run_flushPending) (fun _ => rfl) rfl
    (.mk .callFlushSync) (.inr rfl) hafter (by simp [StartsMutation]) ⟨fun _ => rfl, rfl⟩ rfl
  exact absurd hlost (by decide)

/-- A `Put` and a `FlushSync` that finds the queue empty. -/
theorem reopen_after_flushSync :
    ∃ m : Machine, Released m ∧
      m.reopen ⟨true, true, true⟩ true = Finmap.singleton "a" (.int 1) := by
  obtain ⟨s, hsync, hload, hqueue⟩ : ∃ s : Shared,
      Solo TStep 1 (.free Store.oneUnsaved 0 false) (.push .sync)
        [.pushed .sync, .tau, .tau, .popped .sync, .snapshot .sync, .tau,
          .wrote (Finmap.singleton "a" (.int 1)),
          .notified ⟨{"a"}, Finmap.singleton "a" (.int 1)⟩, .tau, .ret .ok] s .idle ∧
      s.loadPending = false ∧ s.queue = none :=
    ⟨_, .cons (.pushOk rfl) <| .cons (.preLoadDone rfl) <| .cons (.flushAcquire rfl) <|
      .cons (.popToken rfl) <| .cons (.snapshotEnter rfl) <| .cons (.snapshotTake rfl) <|
      .cons .writeOk <| .cons .notify <| .cons .unlockSync <| .cons .ret .nil, rfl, rfl⟩
  have hrel : Released ⟨s, allIdle⟩ := ⟨fun _ => rfl, hload⟩
  refine ⟨⟨s, allIdle⟩, hrel, ?_⟩
  exact reopen_eq_visible ((run_loaded ∅).append run_oneUnsaved) (fun _ => rfl)
    (.mk .callFlushSync) (.inr rfl) ((hsync.run_home allIdle).guard (by simp))
    (by simp [StartsMutation]) hrel (by simp [ReadsFile]) (.inl rfl) hqueue _ rfl _

end NativePreferences
