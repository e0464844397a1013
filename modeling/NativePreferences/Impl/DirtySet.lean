import NativePreferences.Impl.FlushSyncHonesty
import NativePreferences.Impl.PlainMap

/-!
# NativePreferences.Impl.DirtySet

**The marks of a loaded instance are complete**, and so the shortcut of `WriteToDiskFile` is
sound. As long as no write fails, each key whose visible value differs from the map that was
persisted last is in `modifiedKeys_`, or a `Clear` is pending and the key is still in the
cache. A flusher that has taken its snapshot and not yet finished the write counts as having
persisted what it took.

So whenever `WriteToDiskFile` returns `E_OK`, whether it wrote or found nothing to write, the
file holds what readers saw when the snapshot read the flag, whatever other threads have done
in the meantime (`marks_complete`).
-/

namespace NativePreferences

open Lib

variable {t : Tid} {V : PrefMap} {s s' : Shared} {p p' : Pc} {e : Ev} {m m' : Machine} {l : Label}

/-! ### The map that was persisted last -/

/-- The map that was persisted last: the one that a flusher has taken, or else what the file
holds. -/
def Machine.lastPersisted (m : Machine) : PrefMap := m.inflight.getD m.sh.persisted

/-- With nothing read or written so far and nothing on its way, there is no document. -/
def NothingUnread (m : Machine) : Prop :=
  m.sh.loadResult = false → m.inflight = none → m.sh.disk = none

theorem NothingUnread.step (h : NothingUnread m) (hlock : MutexInv m) (hstep : m.WritingStep l m') :
    NothingUnread m' := by
  have hlock' : MutexInv m' := hlock.step hstep.1
  intro hres hnone
  cases tstep_data hstep.1.own with
  | same hcache hdisk hres' hpc | put key value cleared hp hcache hdisk hres' hpc
  | delete key cleared hp hcache hdisk hres' hpc | clear hev hp hcache hdisk hres' hpc
  | clean f cleared hp hp' hmod hcache hdisk hres' hpc =>
      rw [hdisk]
      refine h (hres'.symm.trans hres) ?_
      rw [← inflight_step hlock hstep.1 hpc]
      exact hnone
  | reload values c hev hp hfree hres₀ hread hcache hdisk hres' hpc
  | load values hev hp hfree hcache hdisk hres' hpc
  | notified map hpc hexp hpc' hholds hcache hdisk hres' =>
      exact absurd (hres.symm.trans hres') (by simp)
  | take f cleared hp hcache hdisk hres' hpc | wrote map hev hp hpc hcache hdisk hres' =>
      rw [inflight_of_holds hlock' (Pc.holdsMutex_of_inflight hpc), hpc] at hnone
      exact absurd hnone (by simp)
  | failed hev => exact absurd hev hstep.2

theorem nothingUnread_of_loaded (h : m.sh.toStore.Loaded) : NothingUnread m := by
  intro hres _
  rcases h.settled with hyes | hnone
  · exact absurd (hres.symm.trans hyes) (by simp)
  · exact hnone

theorem NothingUnread.fileSettled (h : NothingUnread m) : FileSettled m := by
  intro hres
  cases hflight : m.inflight with
  | none =>
      refine .inl ?_
      rw [Store.persisted, h hres hflight]
      rfl
  | some map => exact .inr (.inl (by simp))

/-- What the marks are complete for is what was persisted last. -/
theorem NothingUnread.target_eq (h : NothingUnread m) : m.target = m.lastPersisted := by
  rw [Machine.target, Machine.lastPersisted]
  cases hflight : m.inflight with
  | some map => rfl
  | none =>
      show m.sh.base = m.sh.persisted
      rw [Shared.base]
      cases hres : m.sh.loadResult with
      | true => rfl
      | false =>
          rw [Store.persisted, h hres hflight]
          rfl

/-! ### Following a `WriteToDiskFile` -/

/-- The thread is inside `WriteToDiskFile`, past the read of the flag. -/
def Pc.saving : Pc → Bool
  | .snapshot _ _ | .writeXml _ _ _ | .written _ _ _ => true
  | _ => false

/-- A `WriteToDiskFile` that is going to leave `V` in the file, unless its write fails. -/
def Saves (V : PrefMap) (s : Shared) : Pc → Prop
  | .snapshot _ cleared =>
      (s.cache.settle cleared).valuesCache = V ∧
        ((s.cache.settle cleared).modifiedKeys = ∅ → s.persisted = V)
  | .writeXml _ _ map | .written _ _ map => map = V
  | .unlock _ code => code = .ok → s.persisted = V
  | _ => False

/-- The steps of a run during the `WriteToDiskFile` of thread `t`. -/
abbrev Machine.SavingStep (t : Tid) : Machine → Label → Machine → Prop :=
  guarded Machine.Step (fun m l => l.1 = t → (m.pc t).saving = true)

theorem Saves.holdsMutex (h : Saves V s p) : p.holdsMutex = true := by
  cases p with
  | snapshot | writeXml | written | unlock => rfl
  | _ => exact h.elim

/-- The thread itself moves. -/
theorem tstep_saves (h : TStep t s p e s' p') (hsave : Saves V s p) (hin : p.saving = true)
    (hexp : ∀ map, p.expects = some map → s.disk = some map) : Saves V s' p' := by
  cases h with
  | snapshotClean hsnap =>
      intro _
      exact hsave.2 (Cache.snapshot_none hsnap).1
  | snapshotTake hsnap => exact (Cache.snapshot_some hsnap).1.trans hsave.1
  | writeOk => exact hsave
  | writeFail => exact fun hcode => absurd hcode (by simp)
  | notify =>
      intro _
      show s.disk.getD ∅ = V
      rw [hexp _ rfl]
      exact hsave
  | _ => exact absurd hin (by simp [Pc.saving])

/-- Another thread moves. -/
theorem Saves.of_ne (h : Saves V m.sh (m.pc t)) (hlock : LocksInv m) (hstep : m.Step l m')
    (hne : t ≠ l.1) : Saves V m'.sh (m'.pc t) := by
  have hheld : (m.pc t).holdsMutex = true := h.holdsMutex
  have hdisk : m'.sh.disk = m.sh.disk := by
    rcases tstep_disk hstep.own with heq | hholds
    · exact heq
    · exact absurd (LockInv.unique hlock.mutex hheld hholds) hne
  have hpers : m'.sh.persisted = m.sh.persisted := by rw [Store.persisted, Store.persisted, hdisk]
  rw [hstep.pc_of_ne hne]
  cases hp : m.pc t with
  | snapshot f cleared =>
      rw [hp] at h
      obtain ⟨hval, hmod⟩ := settle_of_ne hlock.cacheMutex hstep hne (by rw [hp]; rfl) cleared
      refine ⟨hval.trans h.1, ?_⟩
      intro hempty
      exact hpers.trans (h.2 (hmod.symm.trans hempty))
  | writeXml | written =>
      rw [hp] at h
      exact h
  | unlock f code =>
      rw [hp] at h
      exact fun hcode => hpers.trans (h hcode)
  | _ =>
      rw [hp] at h
      exact h.elim

theorem Saves.step (h : Saves V m.sh (m.pc t)) (hbase : BaseInv m) (hstep : m.SavingStep t l m') :
    Saves V m'.sh (m'.pc t) := by
  by_cases hl : t = l.1
  · have hown := hstep.1.own
    rw [← hl] at hown
    exact tstep_saves hown h (hstep.2 hl.symm) (hbase.expects t)
  · exact h.of_ne hbase.locks hstep.1 hl

/-- It starts when the flag is read, with the map that readers see at that moment. -/
theorem saves_entered {f : Flusher} (hbase : BaseInv m) (htrack : TrackInv m)
    (hfile : FileSettled m) (hstep : m.Step (t, .snapshot f) m') :
    Saves m.sh.cache.visible m'.sh (m'.pc t) := by
  have hown : TStep t m.sh (m.pc t) (.snapshot f) m'.sh (m'.pc t) := hstep.own
  generalize hp : m.pc t = p at hown
  generalize hs : m.sh = s at hown ⊢
  generalize m'.sh = s' at hown ⊢
  generalize m'.pc t = p' at hown ⊢
  cases hown with
  | snapshotEnter =>
      have hvis : (s.cache.settle s.cache.isCleared).valuesCache = s.cache.visible := by
        rw [← Cache.visible_of_not_cleared (Cache.isCleared_settle s.cache)]
        exact Cache.visible_settle id
      refine ⟨hvis, ?_⟩
      intro hmod
      have hpers := persisted_of_unmarked hbase.locks.mutex htrack hfile hp (by rw [hs]; exact hmod)
      rw [hs] at hpers
      exact hpers.trans hvis

/-! ### The result -/

/-- **The marks are complete.** Take any run in which no write fails and which has come
through a state where the instance was loaded. Each key whose visible value differs from the
map persisted last is marked; and a `WriteToDiskFile` that starts now, and comes to return
`E_OK`, leaves the file with what readers see now. -/
theorem marks_complete {disk : Option PrefMap} {ls₀ ls₁ : List Label} {m₀ m : Machine}
    (hrun₀ : Run Machine.WritingStep (.initial disk) ls₀ m₀) (hload : m₀.sh.toStore.Loaded)
    (hrun₁ : Run Machine.WritingStep m₀ ls₁ m) :
    (∀ key, m.sh.cache.visible.lookup key ≠ m.lastPersisted.lookup key →
      key ∈ m.sh.cache.modifiedKeys ∨
        (m.sh.cache.isCleared = true ∧ key ∈ m.sh.cache.valuesCache)) ∧
    ∀ (t : Tid) (f : Flusher) (m₁ m₂ : Machine) (ls₂ : List Label),
      m.Step (t, .snapshot f) m₁ → Run (Machine.SavingStep t) m₁ ls₂ m₂ →
      m₂.pc t = .unlock f .ok → m₂.sh.persisted = m.sh.cache.visible := by
  obtain ⟨hbase₀, htrack₀⟩ := track_run hrun₀ (baseInv_initial disk) (trackInv_initial disk)
  obtain ⟨⟨hbase, htrack⟩, hread⟩ : (BaseInv m ∧ TrackInv m) ∧ NothingUnread m := by
    refine Run.invariant (I := fun m => (BaseInv m ∧ TrackInv m) ∧ NothingUnread m) ?_ hrun₁
      ⟨⟨hbase₀, htrack₀⟩, nothingUnread_of_loaded hload⟩
    intro m l m' ⟨⟨hbase, htrack⟩, hread⟩ hstep
    exact ⟨⟨hbase.step hstep.1, htrack.step hbase hstep.1 hstep.2⟩,
      hread.step hbase.locks.mutex hstep⟩
  refine ⟨?_, ?_⟩
  · rw [← hread.target_eq]
    exact htrack.tracks
  · intro t f m₁ m₂ ls₂ hstart hrun hdone
    have hsave := saves_entered hbase htrack hread.fileSettled hstart
    obtain ⟨-, hend⟩ : BaseInv m₂ ∧ Saves m.sh.cache.visible m₂.sh (m₂.pc t) := by
      refine Run.invariant (I := fun m' => BaseInv m' ∧ Saves m.sh.cache.visible m'.sh (m'.pc t))
        ?_ hrun ⟨hbase.step hstart, hsave⟩
      intro m₁ l m₂ ⟨hbase, hsave⟩ hstep
      exact ⟨hbase.step hstep.1, hsave.step hbase hstep⟩
    rw [hdone] at hend
    exact hend rfl

/-- A `Put`, and a `FlushSync` that is about to take its snapshot. -/
theorem marks_complete_after_put :
    ∃ m m₁ m₂ : Machine, m.Step (1, .snapshot .sync) m₁ ∧ m₂.pc 1 = .unlock .sync .ok ∧
      m.lastPersisted = ∅ ∧ m.sh.cache.visible = Finmap.singleton "a" (.int 1) ∧
      m₂.sh.persisted = m.sh.cache.visible := by
  have hbegin : Solo TStep 1 (.free Store.oneUnsaved 0 false) .idle
      [.call .flushSync, .pushed .sync, .tau, .tau, .popped .sync]
      { Shared.free Store.oneUnsaved 0 false with mutex := some 1 } (.snapshotLock .sync) :=
    .cons .callFlushSync <| .cons (.pushOk rfl) <| .cons (.preLoadDone rfl) <|
      .cons (.flushAcquire rfl) <| .cons (.popToken rfl) .nil
  have hrun : Run Machine.WritingStep Machine.oneUnsaved _ _ :=
    (hbegin.run_away allIdle).guard (by simp)
  have hload : (Machine.loaded ∅).sh.toStore.Loaded := ⟨rfl, .inl rfl⟩
  obtain ⟨m₁, hstart, m₂, hwrite, hdone⟩ : ∃ m₁,
      Machine.Step ⟨{ Shared.free Store.oneUnsaved 0 false with mutex := some 1 },
        Function.update allIdle 1 (.snapshotLock .sync)⟩ (1, .snapshot .sync) m₁ ∧
      ∃ m₂, Run (Machine.SavingStep 1) m₁
        [(1, .tau), (1, .wrote (Finmap.singleton "a" (.int 1))),
          (1, .notified ⟨{"a"}, Finmap.singleton "a" (.int 1)⟩)] m₂ ∧
        m₂.pc 1 = .unlock .sync .ok :=
    ⟨_, .mk (.snapshotEnter rfl), _, .cons ⟨.mk (.snapshotTake rfl), fun _ => rfl⟩ <|
      .cons ⟨.mk .writeOk, fun _ => rfl⟩ <| .cons ⟨.mk .notify, fun _ => rfl⟩ .nil, rfl⟩
  have hsave := (marks_complete (run_loaded ∅) hload (run_oneUnsaved.append hrun)).2 1 .sync
    m₁ m₂ _ hstart hwrite hdone
  exact ⟨_, m₁, m₂, hstart, hdone, rfl, rfl, hsave⟩

end NativePreferences
