import NativePreferences.Impl.Coalescing

/-!
# NativePreferences.Impl.LateLoad

**Clients that come before the load.** `AwaitLoadFile` gives up waiting after two seconds,
so calls may be served from a cache that does not know the file yet. Two things go wrong
then, and nothing else does:

* a flush writes the cache over a file that was never read. As long as every write
  happens with `loadResult_` true, no entry of the file is lost that was not overwritten,
  deleted or cleared through the instance (`persisted_keeps_untouched`);
* `LoadFromDisk` moves what it read over the cache. As long as it stores nothing else for
  the key, a `Get` after a `Put` returns the value that was put (`get_after_put`).
  `ReloadFromDisk` merges instead, and is harmless.

Both proofs follow one key that nobody touches.
-/

namespace NativePreferences

open Lib

variable {t u : Tid} {s s' : Shared} {p p' : Pc} {e : Ev} {m m' : Machine} {l : Label}
variable {key : String} {value : PreferencesValue}

/-! ### A key that nobody touches -/

/-- The step overwrites, deletes or clears the key. -/
def Touches (key : String) (l : Label) : Prop :=
  l.2 = .clear ∨ l.2 = .delete key ∨ ∃ value, l.2 = .put key value

/-- The thread is in a critical section of `Put` or `Delete` with this key. -/
def Pc.edits (key : String) : Pc → Prop
  | .putBody k _ _ | .deleteBody k _ => k = key
  | _ => False

theorem Pc.not_edits_resume (c : Caller) (ok : Bool) : ¬ (c.resume ok).edits key :=
  Caller.forall_resume (P := fun p => ¬ p.edits key) (fun _ => id) (fun _ => id) id (fun _ => id)
    c ok

theorem Pc.not_edits_afterPush (f : Flusher) : ¬ f.afterPush.edits key := by
  cases f <;> exact id

theorem Pc.holdsCache_of_edits (h : p.edits key) : p.holdsCache = true := by
  cases p with
  | putBody | deleteBody => rfl
  | _ => exact h.elim

/-- Who comes to edit the key has shown it. -/
theorem tstep_edits (h : TStep t s p e s' p') (hedits : p'.edits key) : Touches key (t, e) := by
  cases h with
  | putEnter =>
      obtain rfl : _ = key := hedits
      exact .inr (.inr ⟨_, rfl⟩)
  | deleteEnter =>
      obtain rfl : _ = key := hedits
      exact .inr (.inl rfl)
  | preLoadDone | preLoadSkip | reloadNotNeeded | reloadOk | reloadFail =>
      exact absurd hedits (Pc.not_edits_resume _ _)
  | pushOk => exact absurd hedits (Pc.not_edits_afterPush _)
  | _ => exact hedits.elim

/-- The flag is down and nobody is about to change the key. -/
structure Untouched (key : String) (m : Machine) : Prop where
  flag : m.sh.cache.isCleared = false
  quiet : ∀ t, ¬ (m.pc t).edits key

theorem Untouched.cleared (h : Untouched key m) (hinv : ClearedInv m) {cleared : Bool}
    (hsaw : (m.pc t).sawCleared = cleared) : cleared = false := by
  cases cleared with
  | false => rfl
  | true => exact absurd (h.flag.symm.trans (hinv t hsaw)) (by simp)

theorem Untouched.quiet_step (h : Untouched key m) (hstep : m.Step l m') (hno : ¬ Touches key l)
    (u : Tid) : ¬ (m'.pc u).edits key := by
  by_cases hu : u = l.1
  · rw [hu]
    intro hedits
    exact hno (tstep_edits hstep.own hedits)
  · rw [hstep.pc_of_ne hu]
    exact h.quiet u

/-- What a step does to the entry of a key that it does not touch, and to `loadResult_`. -/
inductive EntryStep (key : String) (m : Machine) (l : Label) (m' : Machine) : Prop
  | keep (hentry : m'.sh.cache.valuesCache.lookup key = m.sh.cache.valuesCache.lookup key)
      (hres : m'.sh.loadResult = m.sh.loadResult)
  /-- The end of a write. -/
  | notified (hentry : m'.sh.cache.valuesCache.lookup key = m.sh.cache.valuesCache.lookup key)
      (hwritten : ∃ map, (m.pc l.1).inflight = some map ∧ (m.pc l.1).expects = some map)
      (hres' : m'.sh.loadResult = true)
  | reload (values : PrefMap) (hres : m.sh.loadResult = false) (hread : m.sh.disk = some values)
      (hentry : m'.sh.cache.valuesCache.lookup key = (m.sh.cache.valuesCache ∪ values).lookup key)
      (hres' : m'.sh.loadResult = true)
  | load (values : PrefMap) (hev : l.2 = .loadStored values) (hread : m.sh.disk = some values)
      (hentry : m'.sh.cache.valuesCache.lookup key = values.lookup key)
      (hres' : m'.sh.loadResult = true)

theorem Untouched.step (h : Untouched key m) (hbase : BaseInv m) (hstep : m.Step l m')
    (hno : ¬ Touches key l) : Untouched key m' ∧ EntryStep key m l m' := by
  have hquiet := h.quiet_step hstep hno
  have hcleared : ∀ cleared, (m.pc l.1).sawCleared = cleared → cleared = false :=
    fun _ => h.cleared hbase.locks.cleared
  have hflag : m'.sh.cache.isCleared = m.sh.cache.isCleared → Untouched key m' :=
    fun heq => ⟨heq.trans h.flag, hquiet⟩
  have hsame : m'.sh.cache = m.sh.cache → m'.sh.loadResult = m.sh.loadResult →
      Untouched key m' ∧ EntryStep key m l m' :=
    fun hcache hres => ⟨hflag (by rw [hcache]), .keep (by rw [hcache]) hres⟩
  cases tstep_data hstep.own with
  | same hcache _ hres | wrote _ _ _ _ hcache _ hres | failed _ _ _ hcache _ hres =>
      exact hsame hcache hres
  | notified map hpc hexp _ _ hcache _ hres' =>
      exact ⟨hflag (by rw [hcache]), .notified (by rw [hcache]) ⟨map, hpc, hexp⟩ hres'⟩
  | put k v cleared hp hcache _ hres =>
      obtain rfl : cleared = false := hcleared cleared (by rw [hp]; rfl)
      have hk : key ≠ k := by
        rintro rfl
        exact h.quiet l.1 (by rw [hp]; rfl)
      refine ⟨⟨?_, hquiet⟩, .keep ?_ hres⟩
      · rw [hcache]
        exact Cache.isCleared_put h.flag
      · rw [hcache]
        exact Cache.lookup_put_of_ne hk
  | delete k cleared hp hcache _ hres =>
      have hk : key ≠ k := by
        rintro rfl
        exact h.quiet l.1 (by rw [hp]; rfl)
      refine ⟨hflag ?_, .keep ?_ hres⟩
      · rw [hcache, Cache.isCleared_delete]
      · rw [hcache]
        exact Cache.lookup_delete_of_ne hk
  | clear hev => exact absurd (.inl hev) hno
  | reload values c _ _ _ hres hread hcache _ hres' =>
      exact ⟨hflag (by rw [hcache]; rfl), .reload values hres hread (by rw [hcache]; rfl) hres'⟩
  | load values hev hp _ hcache _ hres' =>
      have hread : m.sh.disk = some values := hbase.expects l.1 values (by rw [hp]; rfl)
      exact ⟨hflag (by rw [hcache]; rfl), .load values hev hread (by rw [hcache]; rfl) hres'⟩
  | clean f cleared hp _ _ hcache _ hres =>
      obtain rfl : cleared = false := hcleared cleared (by rw [hp]; rfl)
      exact hsame hcache hres
  | take f cleared hp hcache _ hres =>
      obtain rfl : cleared = false := hcleared cleared (by rw [hp]; rfl)
      exact ⟨hflag (by rw [hcache]; rfl), .keep (by rw [hcache]; rfl) hres⟩

/-! ### Writing over a file -/

/-- Only the holder of `mutex_` raises `loadResult_`, and nobody lowers it. -/
theorem tstep_loadResult (h : TStep t s p e s' p') :
    s'.loadResult = s.loadResult ∨ (s'.loadResult = true ∧ p.holdsMutex = true) := by
  cases h with
  | reloadOk | notify | loadStore => exact .inr ⟨rfl, rfl⟩
  | _ => exact .inl rfl

/-- A thread that has written has just done so. -/
theorem tstep_written {map map' : PrefMap} (h : TStep t s p e s' p')
    (hflight : p'.inflight = some map) (hexp : p'.expects = some map') :
    e = .wrote map ∧ s'.loadResult = s.loadResult := by
  cases h with
  | writeOk =>
      obtain rfl := Option.some.inj hflight
      exact ⟨rfl, rfl⟩
  | preLoadDone | preLoadSkip | reloadNotNeeded | reloadOk | reloadFail =>
      rw [Pc.inflight_resume] at hflight
      exact absurd hflight (by simp)
  | pushOk =>
      rw [Pc.inflight_afterPush] at hflight
      exact absurd hflight (by simp)
  | snapshotTake => exact absurd hexp (by simp [Pc.expects])
  | _ => exact absurd hflight (by simp [Pc.inflight])

/-- The steps of the runs in which the file is written only when it has been read. -/
abbrev Machine.CarefulStep : Machine → Label → Machine → Prop :=
  guarded Machine.Step (fun m l => ∀ map, l.2 = .wrote map → m.sh.loadResult = true)

/-- The entry `key ↦ value` of the file is where it should be. -/
structure Keeps (key : String) (value : PreferencesValue) (m : Machine) : Prop where
  untouched : Untouched key m
  disk : m.sh.persisted.lookup key = some value
  entry : m.sh.cache.valuesCache.lookup key = if m.sh.loadResult then some value else none
  maps : ∀ t map, (m.pc t).inflight = some map → m.sh.loadResult = true →
    map.lookup key = some value
  written : ∀ t map map', (m.pc t).inflight = some map → (m.pc t).expects = some map' →
    m.sh.loadResult = true

theorem Keeps.disk_step (h : Keeps key value m) (hstep : m.CarefulStep l m') :
    m'.sh.persisted.lookup key = some value := by
  obtain ⟨hstep, hcare⟩ := hstep
  have hkeep : m'.sh.disk = m.sh.disk → m'.sh.persisted.lookup key = some value := by
    intro hdisk
    rw [Store.persisted, hdisk]
    exact h.disk
  cases tstep_data hstep.own with
  | wrote map hev hpc _ _ hdisk =>
      have hmap : map.lookup key = some value := h.maps l.1 map hpc (hcare map hev)
      simpa [Store.persisted, hdisk] using hmap
  | same _ hdisk | put _ _ _ _ _ hdisk | delete _ _ _ _ hdisk | clear _ _ _ hdisk
  | reload _ _ _ _ _ _ _ _ hdisk | load _ _ _ _ _ hdisk | clean _ _ _ _ _ _ hdisk
  | take _ _ _ _ hdisk | failed _ _ _ _ hdisk | notified _ _ _ _ _ _ hdisk =>
      exact hkeep hdisk

theorem Keeps.entry_step (h : Keeps key value m) (hentry : EntryStep key m l m') :
    m'.sh.cache.valuesCache.lookup key = if m'.sh.loadResult then some value else none := by
  have hdisk : ∀ values, m.sh.disk = some values → values.lookup key = some value := by
    intro values hread
    simpa [Store.persisted, hread] using h.disk
  cases hentry with
  | keep heq hres =>
      rw [heq, hres]
      exact h.entry
  | notified heq hwritten hres' =>
      obtain ⟨map, hflight, hexp⟩ := hwritten
      have hres : m.sh.loadResult = true := h.written l.1 map map hflight hexp
      rw [heq, h.entry, hres, hres']
  | reload values hres hread heq hres' =>
      have hnone : m.sh.cache.valuesCache.lookup key = none := by
        rw [h.entry, hres]
        rfl
      rw [heq, hres', Finmap.lookup_union_right (Finmap.lookup_eq_none.mp hnone)]
      exact hdisk values hread
  | load values _ hread heq hres' =>
      rw [heq, hres']
      exact hdisk values hread

theorem Keeps.maps_step (h : Keeps key value m) (hbase : BaseInv m) (hstep : m.Step l m')
    (u : Tid) (map : PrefMap) (hflight : (m'.pc u).inflight = some map)
    (hres' : m'.sh.loadResult = true) : map.lookup key = some value := by
  by_cases hu : u = l.1
  · rw [hu] at hflight
    cases tstep_data hstep.own with
    | take f cleared hp _ _ hres hpc =>
        obtain rfl : cleared = false :=
          h.untouched.cleared hbase.locks.cleared (t := l.1) (by rw [hp]; rfl)
        obtain rfl := Option.some.inj (hpc.symm.trans hflight)
        show m.sh.cache.valuesCache.lookup key = some value
        rw [h.entry, ← hres, hres']
        rfl
    | wrote map' _ hpc hpc' _ _ hres =>
        rw [hpc', ← hpc] at hflight
        exact h.maps l.1 map hflight (hres.symm.trans hres')
    | failed _ hpc' | notified _ _ _ hpc' => exact absurd (hpc'.symm.trans hflight) (by simp)
    | same _ _ hres hpc | put _ _ _ _ _ _ hres hpc | delete _ _ _ _ _ hres hpc
    | clear _ _ _ _ hres hpc | clean _ _ _ _ _ _ _ hres hpc =>
        rw [hpc] at hflight
        exact h.maps l.1 map hflight (hres.symm.trans hres')
    | reload _ _ _ hp _ _ _ _ _ _ hpc | load _ _ hp _ _ _ _ hpc =>
        rw [hpc, hp] at hflight
        exact absurd hflight (by simp [Pc.inflight])
  · rw [hstep.pc_of_ne hu] at hflight
    rcases tstep_loadResult hstep.own with hres | ⟨-, hholds⟩
    · exact h.maps u map hflight (hres.symm.trans hres')
    · have hholdsu : (m.pc u).holdsMutex = true := Pc.holdsMutex_of_inflight hflight
      exact absurd (LockInv.unique hbase.locks.mutex hholdsu hholds) hu

theorem Keeps.written_step (h : Keeps key value m) (hstep : m.CarefulStep l m') (u : Tid)
    (map map' : PrefMap) (hflight : (m'.pc u).inflight = some map)
    (hexp : (m'.pc u).expects = some map') : m'.sh.loadResult = true := by
  obtain ⟨hstep, hcare⟩ := hstep
  by_cases hu : u = l.1
  · rw [hu] at hflight hexp
    obtain ⟨hev, hres⟩ := tstep_written hstep.own hflight hexp
    exact hres.trans (hcare map hev)
  · rw [hstep.pc_of_ne hu] at hflight hexp
    have hold : m.sh.loadResult = true := h.written u map map' hflight hexp
    rcases tstep_loadResult hstep.own with hres | ⟨hres', -⟩
    · exact hres.trans hold
    · exact hres'

theorem Keeps.step (h : Keeps key value m) (hbase : BaseInv m) (hstep : m.CarefulStep l m')
    (hno : ¬ Touches key l) : Keeps key value m' := by
  obtain ⟨huntouched, hentry⟩ := h.untouched.step hbase hstep.1 hno
  exact ⟨huntouched, h.disk_step hstep, h.entry_step hentry, h.maps_step hbase hstep.1,
    h.written_step hstep⟩

theorem keeps_initial {values : PrefMap} (hvalue : values.lookup key = some value) :
    Keeps key value (.initial (some values)) where
  untouched := ⟨rfl, fun _ => id⟩
  disk := hvalue
  entry := rfl
  maps := fun _ _ hflight => absurd hflight (by simp [Machine.initial, Pc.inflight])
  written := fun _ _ _ hflight => absurd hflight (by simp [Machine.initial, Pc.inflight])

/-- **No entry is lost that was not touched**, in every run in which the file is written only
when it has been read. -/
theorem persisted_keeps_untouched {values : PrefMap} {ls : List Label}
    (hrun : Run Machine.CarefulStep (.initial (some values)) ls m)
    (hvalue : values.lookup key = some value) (hno : ∀ l ∈ ls, ¬ Touches key l) :
    m.sh.persisted.lookup key = some value := by
  have hguard : Run (guarded Machine.CarefulStep (fun _ l => ¬ Touches key l)) _ _ _ :=
    hrun.guard hno
  obtain ⟨hkeeps, -⟩ : Keeps key value m ∧ BaseInv m := by
    refine hguard.invariant (I := fun m => Keeps key value m ∧ BaseInv m) ?_
      ⟨keeps_initial hvalue, baseInv_initial _⟩
    intro m l m' ⟨hkeeps, hbase⟩ ⟨hstep, hno⟩
    exact ⟨hkeeps.step hbase hstep hno, hbase.step hstep.1⟩
  exact hkeeps.disk

/-- A store whose file holds 1 under "a". -/
def oneSaved : PrefMap := Finmap.singleton "a" (.int 1)

/-- A `Put` that did not wait for the load, and a `FlushSync` before the load: the file, which
was never read, is overwritten. -/
theorem persisted_loses_untouched :
    ¬ ∀ (values : PrefMap) (ls : List Label) (m : Machine) (key : String)
      (value : PreferencesValue), Run Machine.Step (.initial (some values)) ls m →
      values.lookup key = some value → (∀ l ∈ ls, ¬ Touches key l) →
      m.sh.persisted.lookup key = some value := by
  intro hall
  obtain ⟨s, hsolo, hpers⟩ : ∃ s : Shared,
      Solo TStep 1 (Machine.initial (some oneSaved)).sh .idle
        [.call (.op (.put "b" (.int 2))), .tau, .tau, .put "b" (.int 2), .ret .ok,
          .call .flushSync, .pushed .sync, .tau, .tau, .tau, .tau, .popped .sync, .snapshot .sync,
          .tau, .wrote (Finmap.singleton "b" (.int 2)),
          .notified ⟨{"b"}, Finmap.singleton "b" (.int 2)⟩, .tau, .ret .ok] s .idle ∧
      s.persisted = Finmap.singleton "b" (.int 2) :=
    ⟨_, .cons (.callOp rfl) <| .cons (.awaitNotLoaded rfl) <| .cons (.waitEnd rfl) <|
      .cons (.putEnter rfl) <| .cons .putBody <| .cons .callFlushSync <| .cons (.pushOk rfl) <|
      .cons (.preLoadGo rfl) <| .cons (.preLoadAcquire rfl) <|
      .cons (@TStep.preLoadSkip _ _ _ true rfl) <| .cons (.flushAcquire rfl) <|
      .cons (.popToken rfl) <| .cons (.snapshotEnter rfl) <| .cons (.snapshotTake rfl) <|
      .cons .writeOk <| .cons .notify <| .cons .unlockSync <| .cons .ret .nil, rfl⟩
  have hkept := hall oneSaved _ _ "a" (.int 1) (hsolo.run_back allIdle) (by decide)
    (by simp [Touches])
  have hpers' : (⟨s, allIdle⟩ : Machine).sh.persisted = Finmap.singleton "b" (.int 2) := hpers
  rw [hpers'] at hkept
  exact absurd hkept (by decide)

/-- The same calls after the load. -/
theorem persisted_keeps_loaded :
    ∃ m : Machine, m.sh.persisted.lookup "b" = some (.int 2) ∧
      m.sh.persisted.lookup "a" = some (.int 1) := by
  have hput := put_solo_loaded (t := 1) (Machine.loaded oneSaved).sh.toStore 0 false rfl rfl "b"
    (.int 2) rfl
  obtain ⟨s, ks, map, hflush, hpers⟩ : ∃ (s : Shared) (ks : Finset String) (map : PrefMap),
      Solo TStep 1 (.free { (Machine.loaded oneSaved).sh.toStore with
          cache := (Cache.initial.load oneSaved).put "b" (.int 2) false } 0 false) .idle
        [.call .flushSync, .pushed .sync, .tau, .tau, .popped .sync, .snapshot .sync, .tau,
          .wrote map, .notified ⟨ks, map⟩, .tau, .ret .ok] s .idle ∧
      s.persisted.lookup "b" = some (.int 2) :=
    ⟨_, _, _, .cons .callFlushSync <| .cons (.pushOk rfl) <| .cons (.preLoadDone rfl) <|
      .cons (.flushAcquire rfl) <| .cons (.popToken rfl) <| .cons (.snapshotEnter rfl) <|
      .cons (.snapshotTake rfl) <| .cons .writeOk <| .cons .notify <| .cons .unlockSync <|
      .cons .ret .nil, rfl⟩
  have hload : Run Machine.CarefulStep _ _ _ :=
    (run_loaded oneSaved).unguard.guard_invariant (I := fun _ => True)
      (fun _ _ _ _ _ => trivial) trivial (by simp)
  have hrest : Run Machine.CarefulStep (.loaded oneSaved) _ _ :=
    ((hput.run_back allIdle).append (hflush.run_back allIdle)).guard_invariant (I := LoadedInv)
      (fun _ _ _ h hstep => h.step hstep) (loadedInv_loaded oneSaved)
      (fun _ _ _ h _ _ => h.loadResult)
  refine ⟨⟨s, allIdle⟩, hpers, ?_⟩
  exact persisted_keeps_untouched (hload.append hrest) (by decide) (by simp [Touches])

/-! ### Loading over a cache -/

/-- What became of a `Put` of thread `t`, while nobody else touches the key: it is in its
critical section, or the cache holds its value. -/
inductive Acked (t : Tid) (key : String) (value : PreferencesValue) (m : Machine) : Prop
  | pending (cleared : Bool) (hp : m.pc t = .putBody key value cleared)
      (hflag : cleared = false → m.sh.cache.isCleared = false)
  | done (h : Untouched key m) (v : PreferencesValue)
      (hentry : m.sh.cache.valuesCache.lookup key = some v) (hsame : v.Same value)

theorem tstep_putBody {cleared : Bool} (h : TStep t s p e s' p')
    (hp : p = .putBody key value cleared) :
    s'.cache = s.cache.put key value cleared ∧ p' = .idle := by
  subst hp
  cases h with
  | putBody => exact ⟨rfl, rfl⟩

/-- `LoadFromDisk` stores nothing else for the key. -/
def LoadAgrees (key : String) (value : PreferencesValue) (l : Label) : Prop :=
  ∀ values, l.2 = .loadStored values → ∃ v, values.lookup key = some v ∧ v.Same value

theorem Acked.step (h : Acked t key value m) (hbase : BaseInv m) (hstep : m.Step l m')
    (hno : ¬ Touches key l) (hload : LoadAgrees key value l) : Acked t key value m' := by
  cases h with
  | pending cleared hp hflag =>
      have hholds : (m.pc t).holdsCache = true := by rw [hp]; rfl
      have hother : ∀ u, (m.pc u).holdsCache = true → u = t := by
        intro u hu
        exact LockInv.unique hbase.locks.cacheMutex hu hholds
      by_cases ht : t = l.1
      · subst ht
        obtain ⟨hcache, hpc'⟩ := tstep_putBody hstep.own hp
        obtain ⟨hdown, v, hentry, hsame⟩ :
            (m.sh.cache.put key value cleared).isCleared = false ∧ ∃ v,
              (m.sh.cache.put key value cleared).valuesCache.lookup key = some v ∧
              v.Same value := Cache.lookup_put_self hflag
        rw [← hcache] at hdown hentry
        refine .done ⟨hdown, ?_⟩ v hentry hsame
        intro u hedits
        by_cases hu : u = l.1
        · rw [hu, hpc'] at hedits
          exact hedits
        · rw [hstep.pc_of_ne hu] at hedits
          exact hu (hother u (Pc.holdsCache_of_edits hedits))
      · refine .pending cleared (by rw [hstep.pc_of_ne ht]; exact hp) ?_
        intro hfalse
        rcases tstep_isCleared hstep.own with heq | ⟨hev, -⟩ | hown
        · exact heq.trans (hflag hfalse)
        · exact absurd (.inl hev) hno
        · exact absurd (hother l.1 hown).symm ht
  | done huntouched v hentry hsame =>
      obtain ⟨huntouched', hstep'⟩ := huntouched.step hbase hstep hno
      cases hstep' with
      | keep heq | notified heq => exact .done huntouched' v (heq.trans hentry) hsame
      | reload values _ _ heq =>
          have hmem : key ∈ m.sh.cache.valuesCache :=
            Finmap.lookup_isSome.mp (by rw [hentry]; rfl)
          refine .done huntouched' v ?_ hsame
          rw [heq, Finmap.lookup_union_left hmem]
          exact hentry
      | load values hev _ heq =>
          obtain ⟨v', hv', hsame'⟩ := hload values hev
          exact .done huntouched' v' (heq.trans hv') hsame'

theorem tstep_put (h : TStep t s p e s' p') (hev : e = .put key value) :
    p' = .putBody key value s.cache.isCleared ∧ s'.cache = s.cache := by
  cases h with
  | putEnter =>
      obtain ⟨rfl, rfl⟩ := Ev.put.inj hev
      exact ⟨rfl, rfl⟩
  | _ => exact absurd hev (by simp)

theorem tstep_answer {q : Query} {a : Answer} (h : TStep t s p e s' p') (hev : e = .answer q a) :
    s.cacheMutex = none ∧ a = q.answer s.cache.visible := by
  cases h with
  | query hfree =>
      obtain ⟨rfl, rfl⟩ := Ev.answer.inj hev
      exact ⟨hfree, rfl⟩
  | _ => exact absurd hev (by simp)

/-- **`Get` returns what was put**, in every run in which `LoadFromDisk` stores nothing else for
the key after the `Put`. The `Put` of thread `t` enters its critical section, and nobody
touches the key after that; a `Get` answered later is answered after the `Put` has
returned, because the lock is held until then. -/
theorem get_after_put {disk : Option PrefMap} {ls₁ ls₂ : List Label} {m₁ m₂ m₃ m₄ : Machine}
    {defValue : PreferencesValue} {a : Answer} (hrun₁ : Run Machine.Step (.initial disk) ls₁ m₁)
    (hput : m₁.Step (t, .put key value) m₂) (hrun₂ : Run Machine.Step m₂ ls₂ m₃)
    (hno : ∀ l ∈ ls₂, ¬ Touches key l) (hload : ∀ l ∈ ls₂, LoadAgrees key value l)
    (hget : m₃.Step (u, .answer (.get key defValue) a) m₄) :
    ∃ v, a = .value v ∧ v.Same value := by
  have hbase : BaseInv m₁ :=
    hrun₁.invariant (fun _ _ _ h hstep => h.step hstep) (baseInv_initial disk)
  have hguard : Run (guarded Machine.Step (fun _ l => ¬ Touches key l ∧ LoadAgrees key value l))
      _ _ _ := hrun₂.guard (fun l hl => ⟨hno l hl, hload l hl⟩)
  obtain ⟨hp, hcache⟩ := tstep_put hput.own rfl
  have hstart : Acked t key value m₂ := by
    refine .pending _ hp ?_
    rw [hcache]
    exact id
  obtain ⟨hend, hbase₃⟩ : Acked t key value m₃ ∧ BaseInv m₃ := by
    refine hguard.invariant (I := fun m => Acked t key value m ∧ BaseInv m) ?_
      ⟨hstart, hbase.step hput⟩
    intro m l m' ⟨hacked, hb⟩ ⟨hstep, hl, hagrees⟩
    exact ⟨hacked.step hb hstep hl hagrees, hb.step hstep⟩
  obtain ⟨hfree, ha⟩ := tstep_answer hget.own rfl
  cases hend with
  | pending cleared hp₃ =>
      have hheld : m₃.sh.cacheMutex = some t := hbase₃.locks.cacheMutex t (by rw [hp₃]; rfl)
      exact absurd (hfree.symm.trans hheld) (by simp)
  | done huntouched v hentry hsame =>
      refine ⟨v, ?_, hsame⟩
      rw [ha, Cache.visible_of_not_cleared huntouched.flag, Query.answer, hentry]
      rfl

/-- A `Put` under "a" that did not wait for the load, then the load, then a `Get`. -/
theorem run_late_load (value : PreferencesValue) (hcheck : (Op.put "a" value).check = .ok) :
    ∃ m₁ m₂ m₃ m₄ : Machine,
      Run Machine.Step (.initial (some oneSaved))
        [(1, .call (.op (.put "a" value))), (1, .tau), (1, .tau)] m₁ ∧
      m₁.Step (1, .put "a" value) m₂ ∧
      Run Machine.Step m₂
        [(1, .ret .ok), (0, .tau), (0, .tau), (0, .tau), (0, .tau), (0, .loadStored oneSaved),
          (0, .tau), (1, .call (.op (.query (.get "a" .monostate)))), (1, .tau), (1, .tau)] m₃ ∧
      m₃.Step (1, .answer (.get "a" .monostate) (.value (.int 1))) m₄ :=
  ⟨_, _, _, _,
    .cons (.mk (.callOp hcheck)) <| .cons (.mk (.awaitNotLoaded rfl)) <|
      .cons (.mk (.waitEnd rfl)) .nil,
    .mk (.putEnter rfl),
    .cons (.mk .putBody) <| .cons (.mk (.loadStart rfl)) <| .cons (.mk (.loadGo rfl)) <|
      .cons (.mk (.loadAcquire rfl rfl)) <| .cons (.mk (.loadOk (.inr rfl) rfl)) <|
      .cons (.mk (.loadStore rfl)) <| .cons (.mk .loadFinish) <| .cons (.mk (.callOp rfl)) <|
      .cons (.mk (.awaitLoaded rfl)) <| .cons (.mk (.preLoadDone rfl)) .nil,
    .mk (.query rfl)⟩

/-- 2 was put under "a" and acknowledged; after the load `Get` returns 1 again. -/
theorem get_after_put_loses :
    ¬ ∀ (disk : Option PrefMap) (ls₁ ls₂ : List Label) (m₁ m₂ m₃ m₄ : Machine) (t u : Tid)
      (key : String) (value defValue : PreferencesValue) (a : Answer),
      Run Machine.Step (.initial disk) ls₁ m₁ → m₁.Step (t, .put key value) m₂ →
      Run Machine.Step m₂ ls₂ m₃ → (t, .ret .ok) ∈ ls₂ → (∀ l ∈ ls₂, ¬ Touches key l) →
      m₃.Step (u, .answer (.get key defValue) a) m₄ → ∃ v, a = .value v ∧ v.Same value := by
  intro hall
  obtain ⟨m₁, m₂, m₃, m₄, hrun₁, hput, hrun₂, hget⟩ :=
    run_late_load (.int 2) rfl
  obtain ⟨v, ha, hsame⟩ := hall _ _ _ m₁ m₂ m₃ m₄ _ _ _ _ _ _ hrun₁ hput hrun₂ (by simp)
    (by simp [Touches]) hget
  obtain rfl := Answer.value.inj ha
  exact absurd hsame (by decide)

/-- The load finds the value that was put. -/
theorem get_after_put_agrees :
    ∃ (m₃ m₄ : Machine) (a : Answer), m₃.Step (1, .answer (.get "a" .monostate) a) m₄ ∧
      ∃ v, a = .value v ∧ v.Same (.int 1) := by
  obtain ⟨m₁, m₂, m₃, m₄, hrun₁, hput, hrun₂, hget⟩ := run_late_load (.int 1) rfl
  refine ⟨m₃, m₄, _, hget, get_after_put hrun₁ hput hrun₂ (by simp [Touches]) ?_ hget⟩
  intro l hl values hev
  obtain rfl : values = oneSaved := by
    simp only [List.mem_cons, List.not_mem_nil, or_false] at hl
    rcases hl with rfl | rfl | rfl | rfl | rfl | rfl | rfl | rfl | rfl | rfl <;> simp_all
  exact ⟨.int 1, by decide, by decide⟩

end NativePreferences
