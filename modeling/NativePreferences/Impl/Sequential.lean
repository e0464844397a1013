import NativePreferences.Impl.Machine

/-!
# NativePreferences.Impl.Sequential

**A call that runs alone does what the sequential function says.** For each function of
`Store` and each weather, a thread of the machine that finds both locks free can go from
the call to its return without anybody else moving, and leaves the store, the code and the
notices that the function computes.
-/

namespace NativePreferences

open Lib

variable {t : Tid}

/-- The notices among these events. -/
def notices (es : List Ev) : List Notice :=
  es.filterMap fun
    | .notified n => some n
    | _ => none

/-- Where no thread is in a call. -/
def allIdle : Tid → Pc := fun _ => .idle

/-- The shared state with both locks free. -/
def Shared.free (s : Store) (scheduled : Nat) (loadPending : Bool) : Shared :=
  { s with mutex := none, cacheMutex := none, scheduled, loadPending }

section

variable (s : Store) (n : Nat) (b : Bool) (o : Weather)

/-! ### Loading -/

theorem preLoad_solo (c : Caller) :
    ∃ es, Solo TStep t (.free s n b) (.preLoad c) es (.free (s.preLoad o).2 n b)
      (c.resume (s.preLoad o).1) ∧ notices es = [] := by
  cases hres : s.loadResult with
  | true =>
      have hpre : s.preLoad o = (true, s) := by simp [Store.preLoad, hres]
      rw [hpre]
      exact ⟨[.tau], .cons (.preLoadDone hres) .nil, rfl⟩
  | false =>
      cases hwant : (s.wantsReload && o.accessible) with
      | false =>
          have hpre : s.preLoad o = (true, s) := by simp [Store.preLoad, hres, hwant]
          rw [hpre]
          exact ⟨[.tau, .tau, .tau], .cons (.preLoadGo hres) <| .cons (.preLoadAcquire rfl) <|
            .cons (.preLoadSkip hwant) .nil, rfl⟩
      | true =>
          have hpre : s.preLoad o = s.reloadFromDisk o := by simp [Store.preLoad, hres, hwant]
          have hreload : s.wantsReload = true := by simp_all
          rw [hpre]
          have hfail : ∃ es, Solo TStep t (.free s n b) (.preLoad c) es (.free s n b)
              (c.resume false) ∧ notices es = [] :=
            ⟨[.tau, .tau, .tau, .reloadFailed c], .cons (.preLoadGo hres) <|
              .cons (.preLoadAcquire rfl) <| .cons (.preLoadReload hreload) <|
              .cons (.reloadFail hres rfl) .nil, rfl⟩
          cases hdisk : s.disk with
          | none =>
              have hoff : s.reloadFromDisk o = (false, s) := by
                simp [Store.reloadFromDisk, hres, hdisk]
              rw [hoff]
              exact hfail
          | some values =>
              cases hread : o.readable with
              | false =>
                  have hoff : s.reloadFromDisk o = (false, s) := by
                    simp [Store.reloadFromDisk, hres, hdisk, hread]
                  rw [hoff]
                  exact hfail
              | true =>
                  have hok : s.reloadFromDisk o = (true, s.reloaded values) := by
                    simp [Store.reloadFromDisk, hres, hdisk, hread]
                  rw [hok]
                  exact ⟨[.tau, .tau, .tau, .reloaded], .cons (.preLoadGo hres) <|
                    .cons (.preLoadAcquire rfl) <| .cons (.preLoadReload hreload) <|
                    .cons (.reloadOk hres rfl hdisk) .nil, rfl⟩

theorem awaitLoadFile_solo (op : Op) :
    ∃ es, Solo TStep t (.free s n b) (.await op) es (.free (s.awaitLoadFile o) n b) (.enter op) ∧
      notices es = [] := by
  cases hload : s.loaded with
  | true =>
      obtain ⟨es, hsolo, hnone⟩ := preLoad_solo (t := t) s n b o (.op op)
      have hawait : s.awaitLoadFile o = (s.preLoad o).2 := by simp [Store.awaitLoadFile, hload]
      rw [hawait]
      exact ⟨.tau :: es, .cons (.awaitLoaded hload) hsolo, hnone⟩
  | false =>
      have hawait : s.awaitLoadFile o = s := by simp [Store.awaitLoadFile, hload]
      rw [hawait]
      exact ⟨[.tau, .tau], .cons (.awaitNotLoaded hload) <| .cons (.waitEnd rfl) .nil, rfl⟩

theorem loadFromDisk_solo (dirAccessible : Bool) :
    ∃ es, Solo TStep t (.free s n true) .idle es
      (.free (s.loadFromDisk o dirAccessible) n false) .idle := by
  cases hload : s.loaded with
  | true =>
      have heq : s.loadFromDisk o dirAccessible = s := by simp [Store.loadFromDisk, hload]
      rw [heq]
      exact ⟨_, .cons (.loadStart rfl) <| .cons (.loadAlready hload) .nil⟩
  | false =>
      obtain ⟨never, hnever, heq⟩ : ∃ never, (never = true ∨ never = s.isNeverUnlock) ∧
          s.loadFromDisk o dirAccessible =
            { s with isNeverUnlock := never }.loadFromDisk o true := by
        cases dirAccessible with
        | true => exact ⟨s.isNeverUnlock, .inr rfl, rfl⟩
        | false => exact ⟨true, .inl rfl, by simp [Store.loadFromDisk, hload]⟩
      rw [heq]
      have hfail : ∃ es, Solo TStep t (.free s n true) .idle es
          (.free { s with isNeverUnlock := never, loaded := true } n false) .idle :=
        ⟨_, .cons (.loadStart rfl) <| .cons (.loadGo hload) <| .cons (.loadAcquire rfl hload) <|
          .cons (.loadFail hnever) <| .cons .loadFinish .nil⟩
      cases hdisk : s.disk with
      | none => simpa [Store.loadFromDisk, hload, hdisk] using hfail
      | some values =>
          cases hread : o.readable with
          | false => simpa [Store.loadFromDisk, hload, hdisk, hread] using hfail
          | true =>
              have hok : ∃ es, Solo TStep t (.free s n true) .idle es
                  (.free { s with
                    isNeverUnlock := false, loaded := true, loadResult := true,
                    cache := s.cache.load values } n false) .idle :=
                ⟨_, .cons (.loadStart rfl) <| .cons (.loadGo hload) <|
                  .cons (.loadAcquire rfl hload) <| .cons (.loadOk hnever hdisk) <|
                  .cons (.loadStore rfl) <| .cons .loadFinish .nil⟩
              simpa [Store.loadFromDisk, hload, hdisk, hread] using hok

/-! ### Put, Delete, Clear and the reading functions -/

/-- A call that waits for the load, up to its critical section. -/
theorem enter_solo (op : Op) (hcheck : op.check = .ok) :
    ∃ es, Solo TStep t (.free s n b) .idle es (.free (s.awaitLoadFile o) n b) (.enter op) ∧
      notices es = [] := by
  obtain ⟨es, hsolo, hnone⟩ := awaitLoadFile_solo (t := t) s n b o op
  exact ⟨.call (.op op) :: es, .cons (.callOp hcheck) hsolo, hnone⟩

theorem put_solo (key : String) (value : PreferencesValue)
    (hcheck : (Op.put key value).check = .ok) :
    ∃ es, Solo TStep t (.free s n b) .idle (es ++ [.put key value, .ret .ok])
      (.free (s.put o key value).2 n b) .idle ∧ (s.put o key value).1 = .ok ∧ notices es = [] := by
  obtain ⟨es, hsolo, hnone⟩ := enter_solo (t := t) s n b o (.put key value) hcheck
  obtain ⟨hkey, hvalue⟩ : checkKey key = .ok ∧ checkValue value = .ok := by
    rw [Op.check] at hcheck
    split at hcheck
    · next hkey => exact ⟨hkey, hcheck⟩
    · next hkey => exact absurd hcheck hkey
  have hput : s.put o key value = (.ok, { s.awaitLoadFile o with
      cache := (s.awaitLoadFile o).cache.put key value (s.awaitLoadFile o).cache.isCleared }) := by
    simp [Store.put, hkey, hvalue]
  rw [hput]
  exact ⟨es, hsolo.append (.cons (.putEnter rfl) (.cons .putBody .nil)), rfl, hnone⟩

/-- On a loaded instance a `Put` does not wait. -/
theorem put_solo_loaded (hload : s.loaded = true) (hres : s.loadResult = true) (key : String)
    (value : PreferencesValue) (hcheck : (Op.put key value).check = .ok) :
    Solo TStep t (.free s n b) .idle
      [.call (.op (.put key value)), .tau, .tau, .put key value, .ret .ok]
      (.free { s with cache := s.cache.put key value s.cache.isCleared } n b) .idle :=
  .cons (.callOp hcheck) <| .cons (.awaitLoaded hload) <| .cons (.preLoadDone hres) <|
    .cons (.putEnter rfl) <| .cons .putBody .nil

theorem delete_solo (key : String) (hcheck : checkKey key = .ok) :
    ∃ es, Solo TStep t (.free s n b) .idle (es ++ [.delete key, .ret .ok])
      (.free (s.delete o key).2 n b) .idle ∧ (s.delete o key).1 = .ok ∧ notices es = [] := by
  obtain ⟨es, hsolo, hnone⟩ := enter_solo (t := t) s n b o (.delete key) hcheck
  have hdel : s.delete o key = (.ok, { s.awaitLoadFile o with
      cache := (s.awaitLoadFile o).cache.delete key (s.awaitLoadFile o).cache.isCleared }) := by
    simp [Store.delete, hcheck]
  rw [hdel]
  exact ⟨es, hsolo.append (.cons (.deleteEnter rfl) (.cons .deleteBody .nil)), rfl, hnone⟩

theorem clear_solo :
    ∃ es, Solo TStep t (.free s n b) .idle (es ++ [.clear]) (.free (s.clear o).2 n b) .idle ∧
      (s.clear o).1 = .ok ∧ notices es = [] := by
  obtain ⟨es, hsolo, hnone⟩ := enter_solo (t := t) s n b o .clear rfl
  exact ⟨es, hsolo.append (.cons .clear .nil), rfl, hnone⟩

theorem query_solo (q : Query) (hcheck : q.check = .ok) :
    ∃ es, Solo TStep t (.free s n b) .idle (es ++ [.answer q (s.query o q).1])
      (.free (s.query o q).2 n b) .idle ∧ notices es = [] := by
  obtain ⟨es, hsolo, hnone⟩ := enter_solo (t := t) s n b o (.query q) hcheck
  have hquery : s.query o q = (q.answer (s.awaitLoadFile o).cache.visible, s.awaitLoadFile o) := by
    simp [Store.query, hcheck]
  rw [hquery]
  exact ⟨es, hsolo.append (.cons (.query rfl) .nil), hnone⟩

/-! ### Flushing -/

/-- The shared state with `mutex_` held. -/
def Shared.locked (t : Tid) (s : Store) (scheduled : Nat) (loadPending : Bool) : Shared :=
  { s with mutex := some t, cacheMutex := none, scheduled, loadPending }

theorem writeToDiskFile_solo (f : Flusher) :
    ∃ es, Solo TStep t (.locked t s n b) (.snapshotLock f) es
      (.locked t (s.writeToDiskFile o).store n b) (.unlock f (s.writeToDiskFile o).code) ∧
      notices es = (s.writeToDiskFile o).notices := by
  rcases s.cache.snapshot_cases s.cache.isCleared with ⟨-, hsnap⟩ | ⟨-, hsnap⟩
  · rw [Store.writeToDiskFile, hsnap]
    exact ⟨[.snapshot f, .tau],
      .cons (.snapshotEnter rfl) <| .cons (.snapshotClean hsnap) .nil, rfl⟩
  · rw [Store.writeToDiskFile, hsnap]
    cases hw : o.writable with
    | true =>
        exact ⟨_, .cons (.snapshotEnter rfl) <| .cons (.snapshotTake hsnap) <|
          .cons .writeOk <| .cons .notify .nil, rfl⟩
    | false =>
        exact ⟨_, .cons (.snapshotEnter rfl) <| .cons (.snapshotTake hsnap) <|
          .cons .writeFail .nil, rfl⟩

/-- Where the body of a flusher ends: a task is over, `FlushSync` returns. -/
def Flusher.done : Flusher → ErrCode → Pc
  | .task, _ => .idle
  | .sync, code => .ret code

theorem unlock_solo (f : Flusher) (code : ErrCode) :
    Solo TStep t (.locked t s n b) (.unlock f code) [.tau] (.free s n b) (f.done code) := by
  cases f with
  | task => exact .cons .unlockTask .nil
  | sync => exact .cons .unlockSync .nil

theorem notices_append (es es' : List Ev) : notices (es ++ es') = notices es ++ notices es' :=
  List.filterMap_append

/-- From the lock to the end. -/
theorem flushLock_solo (f : Flusher) (r : Flushed) {es : List Ev}
    (h : Solo TStep t (.locked t s n b) (.pop f) es (.locked t r.store n b) (.unlock f r.code))
    (hnotices : notices es = r.notices) :
    ∃ es, Solo TStep t (.free s n b) (.flushLock f) es (.free r.store n b) (f.done r.code) ∧
      notices es = r.notices := by
  refine ⟨.tau :: (es ++ [.tau]), .cons (.flushAcquire rfl) (h.append (unlock_solo _ n b f _)), ?_⟩
  rw [← hnotices]
  show notices (es ++ [.tau]) = notices es
  rw [notices_append]
  exact List.append_nil _

theorem flusher_solo (f : Flusher) :
    ∃ es, Solo TStep t (.free s n b) (.preLoad (.flusher f)) es
      (.free (s.flusher o).store n b) (f.done (s.flusher o).code) ∧
      notices es = (s.flusher o).notices := by
  obtain ⟨es, hsolo, hnone⟩ := preLoad_solo (t := t) s n b o (.flusher f)
  rw [Store.flusher]
  generalize s.preLoad o = loaded at hsolo ⊢
  obtain ⟨ok, s'⟩ := loaded
  cases ok with
  | false =>
      refine ⟨es, ?_, hnone⟩
      cases f <;> exact hsolo
  | true =>
      have hrest : ∀ r : Flushed,
          (∃ es, Solo TStep t (.locked t s' n b) (.pop f) es (.locked t r.store n b)
            (.unlock f r.code) ∧ notices es = r.notices) →
          ∃ es, Solo TStep t (.free s n b) (.preLoad (.flusher f)) es (.free r.store n b)
            (f.done r.code) ∧ notices es = r.notices := by
        intro r ⟨es₁, hpop, hnot⟩
        obtain ⟨es₂, hlock, hnot₂⟩ := flushLock_solo s' n b f r hpop hnot
        refine ⟨es ++ es₂, hsolo.append hlock, ?_⟩
        rw [notices_append, hnone, hnot₂, List.nil_append]
      refine hrest _ ?_
      simp only [if_true]
      cases hqueue : s'.queue with
      | none => exact ⟨[.tau], .cons (.popEmpty hqueue) .nil, rfl⟩
      | some value =>
          by_cases hvalue : value = 1
          · subst hvalue
            obtain ⟨es₁, hwrite, hnot⟩ :=
              writeToDiskFile_solo (t := t) { s' with queue := none } n b o f
            exact ⟨.popped f :: es₁, .cons (.popToken hqueue) hwrite, hnot⟩
          · simp only [hvalue, if_false]
            exact ⟨[.popped f], .cons (.popOther hqueue hvalue) .nil, rfl⟩

theorem flushSync_solo :
    ∃ es, Solo TStep t (.free s n b) .idle (es ++ [.ret (s.flushSync o).code])
      (.free (s.flushSync o).store n b) .idle ∧ notices es = (s.flushSync o).notices := by
  rw [Store.flushSync, Store.pushNoWait]
  cases hqueue : s.queue with
  | some value =>
      exact ⟨[.call .flushSync, .skipped .sync], .cons .callFlushSync <|
        .cons (.pushFull (by simp [Shared.free, hqueue])) <| .cons .ret .nil, rfl⟩
  | none =>
      obtain ⟨es, hsolo, hnot⟩ := flusher_solo (t := t) { s with queue := some 1 } n b o .sync
      refine ⟨.call .flushSync :: .pushed .sync :: es, ?_, hnot⟩
      exact .cons .callFlushSync <| .cons (.pushOk hqueue) <| hsolo.append (.cons .ret .nil)

/-- `Flush`, and its task on the same thread. -/
theorem flush_solo :
    ∃ es, Solo TStep t (.free s n b) .idle es (.free (s.flush o).store n b) .idle ∧
      notices es = (s.flush o).notices := by
  rw [Store.flush, Store.pushNoWait]
  cases hqueue : s.queue with
  | some value =>
      exact ⟨[.call .flush, .skipped .task, .ret .ok], .cons .callFlush <|
        .cons (.pushFull (by simp [Shared.free, hqueue])) <| .cons .ret .nil, rfl⟩
  | none =>
      obtain ⟨es, hsolo, hnot⟩ := flusher_solo (t := t) { s with queue := some 1 } n b o .task
      refine ⟨.call .flush :: .pushed .task :: .ret .ok :: .tau :: es, ?_, hnot⟩
      exact .cons .callFlush <| .cons (.pushOk hqueue) <| .cons .schedule <|
        .cons (.taskStart rfl) hsolo

end

end NativePreferences
