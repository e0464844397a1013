import NativePreferences.Impl.Coupling

/-!
# NativePreferences.Impl.Atomicity

**The calls on the cache are atomic, although `Clear` takes no lock.** Every run of the threads
of `Impl.CriticalSections` is explained by a log of the same calls run one after the other
(`calls_atomic`). A call joins the log at the step at which it takes effect (`Impl.Coupling`).

The invariant has two parts. `Consistent` is about the present: the lock works, the cache of the
log and the cache of the machine are coupled as the holder of the lock says, and the readers have
copied what is there. `Logged` is about the past: the log explains what was called and returned,
it does not hold the calls that are still to take effect, and it holds the others with the reply
that they are going to return.
-/

namespace NativePreferences

open Lib

variable {t : Tid} {s s' : Cells} {p p' : Spot} {e : CellEv} {a c : Cache} {i : Nat}

/-! ### Locks -/

variable {m m' : CellMachine} {l : Tid × CellEv}

theorem cellStep_writer (h : CellStep t s p e s' p') :
    LockStep Cells.writer (fun p => p.alone = true) t s p s' p' := by
  cases h with
  | lock _ hfree | lockDelete hfree => exact .acquire hfree rfl
  | unlock => exact .release rfl rfl (by simp [Spot.alone])
  | @flagDown i d | @empty i d | @lower i d =>
      cases d <;> exact .keep rfl
        (by simp [Spot.alone, Spot.flagDown, Spot.afterEmpty, Spot.afterLower])
  | @putMark i key value cleared => cases cleared <;> exact .keep rfl (by simp [Spot.alone])
  | _ => exact .keep rfl (by simp [Spot.alone])

/-- A thread that comes to hold the lock shared registers. -/
theorem cellStep_shares (h : CellStep t s p e s' p') (hshares : p'.shares = true) :
    (p.shares = true ∧ s'.readers = s.readers) ∨ (p.alone = false ∧ t ∈ s'.readers) := by
  cases h with
  | lockShared => exact .inr ⟨rfl, Finset.mem_insert_self _ _⟩
  | readUp | readDown | readMissing | readFound | readValue | readBegin | readCopy | readEnd =>
      exact .inl ⟨rfl, rfl⟩
  | @flagDown i d | @empty i d | @lower i d =>
      cases d <;> exact absurd hshares
        (by simp [Spot.shares, Spot.flagDown, Spot.afterEmpty, Spot.afterLower])
  | @putMark i key value cleared => cases cleared <;> exact absurd hshares (by simp [Spot.shares])
  | _ => exact absurd hshares (by simp [Spot.shares])

theorem cellStep_readers_of_ne (h : CellStep t s p e s' p') {u : Tid} (hu : u ≠ t)
    (hmem : u ∈ s.readers) : u ∈ s'.readers := by
  cases h with
  | lockShared => exact Finset.mem_insert_of_mem hmem
  | unlockShared => exact Finset.mem_erase.mpr ⟨hu, hmem⟩
  | _ => exact hmem

theorem cellStep_excl (h : CellStep t s p e s' p') (hexcl : s.writer ≠ none → s.readers = ∅)
    (hheld : s'.writer ≠ none) : s'.readers = ∅ := by
  cases h with
  | lock _ _ hnone | lockDelete _ hnone => exact hnone
  | lockShared hfree => exact absurd hfree hheld
  | unlock => exact absurd rfl hheld
  | unlockShared =>
      show s.readers.erase t = ∅
      rw [hexcl hheld, Finset.erase_empty]
  | _ => exact hexcl hheld

/-- Who holds the lock alone after a step is in a section, or held it before and did not move. -/
theorem cellStep_holder (h : CellStep t s p e s' p') {u : Tid} (hheld : s'.writer = some u) :
    (u = t ∧ p'.alone = true) ∨ (s.writer = some u ∧ p'.alone = p.alone) := by
  cases h with
  | lock _ _ _ | lockDelete _ _ => exact .inl ⟨(Option.some.inj hheld).symm, rfl⟩
  | unlock => exact absurd hheld (by simp)
  | @flagDown i d | @empty i d | @lower i d => cases d <;> exact .inr ⟨hheld, rfl⟩
  | @putMark i key value cleared => cases cleared <;> exact .inr ⟨hheld, rfl⟩
  | _ => exact .inr ⟨hheld, rfl⟩

/-- `cacheMutex_` works. -/
structure SectionLocks (m : CellMachine) : Prop where
  writer : LockInv Cells.writer (fun p : Spot => p.alone = true) m
  held : ∀ t, m.sh.writer = some t → (m.pc t).alone = true
  readers : ∀ t, (m.pc t).shares = true → t ∈ m.sh.readers
  excl : m.sh.writer ≠ none → m.sh.readers = ∅

theorem SectionLocks.step (h : SectionLocks m) (hstep : m.Step l m') : SectionLocks m' := by
  refine ⟨h.writer.step hstep (cellStep_writer hstep.own), ?_, ?_,
    cellStep_excl hstep.own h.excl⟩
  · intro u hu
    rcases cellStep_holder hstep.own hu with ⟨rfl, halone⟩ | ⟨hold, hsame⟩
    · exact halone
    · by_cases hul : u = l.1
      · rw [hul, hsame, ← hul]
        exact h.held u hold
      · rw [hstep.pc_of_ne hul]
        exact h.held u hold
  · intro u hu
    by_cases hul : u = l.1
    · subst hul
      rcases cellStep_shares hstep.own hu with ⟨hold, hsame⟩ | ⟨-, hnew⟩
      · rw [hsame]
        exact h.readers _ hold
      · exact hnew
    · rw [hstep.pc_of_ne hul] at hu
      exact cellStep_readers_of_ne hstep.own hul (h.readers u hu)

/-- Nobody is alone while somebody shares. -/
theorem SectionLocks.writer_none (h : SectionLocks m) (hshares : (m.pc t).shares = true) :
    m.sh.writer = none := by
  by_contra hheld
  have hmem := h.readers t hshares
  rw [h.excl hheld] at hmem
  exact absurd hmem (Finset.notMem_empty t)

/-- While a thread is alone, the others are outside. -/
theorem SectionLocks.outside (h : SectionLocks m) (halone : (m.pc t).alone = true) {u : Tid}
    (hu : u ≠ t) : (m.pc u).alone = false ∧ (m.pc u).shares = false := by
  have hheld : m.sh.writer = some t := h.writer t halone
  refine ⟨?_, ?_⟩
  · cases hal : (m.pc u).alone with
    | false => rfl
    | true => exact absurd (h.writer.unique hal halone) hu
  · cases hsh : (m.pc u).shares with
    | false => rfl
    | true => exact absurd ((h.writer_none hsh).symm.trans hheld) (by simp)

/-! ### The other threads -/

/-- Outside the sections nothing depends on the cache. -/
theorem Spot.owed_of_outside (halone : p.alone = false) (hshares : p.shares = false)
    (c c' : Cache) : p.owed c' = p.owed c := by
  cases p with
  | idle | enter | ret => rfl
  | readFlag | readFind | readValue | readCopy | readLeave =>
      exact absurd hshares (by simp [Spot.shares])
  | _ => exact absurd halone (by simp [Spot.alone])

theorem Spot.copies_of_outside (hshares : p.shares = false) (c : Cache) : p.Copies c := by
  cases p with
  | readFlag | readFind | readValue | readCopy | readLeave =>
      exact absurd hshares (by simp [Spot.shares])
  | _ => trivial

/-- Inside them nothing that is owed depends on the flag. -/
theorem Spot.owed_clear (p : Spot) (c : Cache) : p.owed c.clear = p.owed c := by
  cases p with
  | putInsert i key value cleared => cases cleared <;> rfl
  | putMark i key value cleared => cases cleared <;> rfl
  | snapTest i =>
      have hmod : c.clear.modifiedKeys = c.modifiedKeys := rfl
      simp only [Spot.owed, Cache.snapshot, Cache.settle, Bool.false_eq_true, if_false, hmod]
      split <;> rfl
  | _ => rfl

theorem Spot.copies_clear (h : p.Copies c) : p.Copies c.clear := by
  cases p with
  | readValue i q => exact h
  | readCopy i q rest allDatas => exact h
  | _ => trivial

/-- The log has made `a` of the cache, and the machine agrees. -/
structure Consistent (m : CellMachine) (a : Cache) : Prop where
  locks : SectionLocks m
  /-- With nobody alone in a section, the cache is that of the log. -/
  free : m.sh.writer = none → a = m.sh.cache
  couples : ∀ t, (m.pc t).alone = true → Couples a m.sh.cache (m.pc t)
  copies : ∀ t, (m.pc t).Copies m.sh.cache

/-- What the others owe is untouched. -/
def Undisturbed (m : CellMachine) (t : Tid) (m' : CellMachine) : Prop :=
  ∀ u, u ≠ t → (m'.pc u).owed m'.sh.cache = (m.pc u).owed m.sh.cache

/-- Outside the sections of those who are alone. -/
theorem Couples.eq_of_not_alone (h : Couples a c p) (hp : p.alone = false) : a = c := by
  cases p with
  | idle | enter | readFlag | readFind | readValue | readCopy | readLeave | ret => exact h
  | _ => exact absurd hp (by simp [Spot.alone])

/-- The moving thread is alone in its section. -/
theorem Consistent.step_alone (h : Consistent m a) (hstep : m.Step l m')
    (halone : (m.pc l.1).alone = true) :
    ∃ a', Progress a m.sh (m.pc l.1) m'.sh (m'.pc l.1) a' ∧ Consistent m' a' ∧
      Undisturbed m l.1 m' := by
  obtain ⟨a', hprog, hcouple⟩ := alone_progress hstep.own halone (h.couples _ halone)
  have hlocks := h.locks.step hstep
  have hout : ∀ u, u ≠ l.1 → (m.pc u).alone = false ∧ (m.pc u).shares = false := by
    intro u hu
    exact h.locks.outside halone hu
  refine ⟨a', hprog, ⟨hlocks, ?_, ?_, ?_⟩, ?_⟩
  · intro hfree
    refine hcouple.eq_of_not_alone (Bool.eq_false_iff.mpr ?_)
    intro halone'
    exact absurd ((hlocks.writer _ halone').symm.trans hfree) (by simp)
  · intro u hu
    by_cases hul : u = l.1
    · rw [hul]
      exact hcouple
    · rw [hstep.pc_of_ne hul, (hout u hul).1] at hu
      exact absurd hu (by simp)
  · intro u
    refine Spot.copies_of_outside ?_ _
    by_cases hul : u = l.1
    · rw [hul]
      refine Bool.eq_false_iff.mpr ?_
      intro hshares
      rcases cellStep_shares hstep.own hshares with ⟨hold, -⟩ | ⟨hnot, -⟩
      · exact absurd (h.locks.writer_none hold) (by rw [h.locks.writer _ halone]; simp)
      · exact absurd (hnot.symm.trans halone) (by simp)
    · rw [hstep.pc_of_ne hul]
      exact (hout u hul).2
  · intro u hu
    rw [hstep.pc_of_ne hu]
    exact Spot.owed_of_outside (hout u hu).1 (hout u hu).2 _ _

/-- The moving thread shares its section. -/
theorem Consistent.step_shares (h : Consistent m a) (hstep : m.Step l m')
    (hshares : (m.pc l.1).shares = true) :
    Progress a m.sh (m.pc l.1) m'.sh (m'.pc l.1) a ∧ Consistent m' a ∧ Undisturbed m l.1 m' := by
  have ha : a = m.sh.cache := h.free (h.locks.writer_none hshares)
  obtain ⟨hprog, ⟨hcache, hwriter⟩, hcopies⟩ :=
    shares_progress hstep.own hshares ha (h.copies l.1)
  have hlocks := h.locks.step hstep
  refine ⟨hprog, ⟨hlocks, ?_, ?_, ?_⟩, ?_⟩
  · intro _
    rw [hcache]
    exact ha
  · intro u hu
    have hheld := hlocks.writer u hu
    rw [hwriter, h.locks.writer_none hshares] at hheld
    exact absurd hheld (by simp)
  · intro u
    rw [hcache]
    by_cases hul : u = l.1
    · rw [hul]
      exact hcopies
    · rw [hstep.pc_of_ne hul]
      exact h.copies u
  · intro u hu
    rw [hstep.pc_of_ne hu, hcache]

/-- A step outside the sections that leaves the cache alone. -/
structure Outside (s : Cells) (s' : Cells) (p' : Spot) : Prop where
  cache : s'.cache = s.cache
  writer : s'.writer = none → s.writer = none
  /-- Whoever enters a section alone finds it free, and starts with the cache of the log. -/
  couples : p'.alone = true → s.writer = none ∧ Couples s.cache s.cache p'
  copies : p'.Copies s.cache

theorem Consistent.step_outside (h : Consistent m a) (hstep : m.Step l m')
    (hout : Outside m.sh m'.sh (m'.pc l.1)) : Consistent m' a ∧ Undisturbed m l.1 m' := by
  refine ⟨⟨h.locks.step hstep, ?_, ?_, ?_⟩, ?_⟩
  · intro hfree
    rw [hout.cache]
    exact h.free (hout.writer hfree)
  · intro u hu
    rw [hout.cache]
    by_cases hul : u = l.1
    · rw [hul] at hu ⊢
      obtain ⟨hfree, hcouples⟩ := hout.couples hu
      rw [h.free hfree]
      exact hcouples
    · rw [hstep.pc_of_ne hul] at hu ⊢
      exact h.couples u hu
  · intro u
    rw [hout.cache]
    by_cases hul : u = l.1
    · rw [hul]
      exact hout.copies
    · rw [hstep.pc_of_ne hul]
      exact h.copies u
  · intro u hu
    rw [hstep.pc_of_ne hu, hout.cache]

/-- The moving thread clears. -/
theorem Consistent.step_clear (h : Consistent m a) (hstep : m.Step l m')
    (hcache : m'.sh.cache = m.sh.cache.clear) (hwriter : m'.sh.writer = m.sh.writer)
    (hpc : m'.pc l.1 = .ret i (.code .ok)) : Consistent m' a.clear ∧ Undisturbed m l.1 m' := by
  refine ⟨⟨h.locks.step hstep, ?_, ?_, ?_⟩, ?_⟩
  · intro hfree
    rw [hcache, h.free (hwriter.symm.trans hfree)]
  · intro u hu
    by_cases hul : u = l.1
    · rw [hul, hpc] at hu
      exact absurd hu (by simp [Spot.alone])
    · rw [hstep.pc_of_ne hul] at hu ⊢
      rw [hcache]
      exact (h.couples u hu).clear
  · intro u
    by_cases hul : u = l.1
    · rw [hul, hpc]
      trivial
    · rw [hstep.pc_of_ne hul, hcache]
      exact Spot.copies_clear (h.copies u)
  · intro u hu
    rw [hstep.pc_of_ne hu, hcache]
    exact Spot.owed_clear _ _

/-! ### The log -/

/-- The log explains what has been called and returned, and knows the calls that are going on. -/
structure Logged (c₀ : Cache) (hist : List (CallEvent CacheCall CacheReply)) (m : CellMachine)
    (log : List (Nat × CacheCall × CacheReply)) (a : Cache) : Prop where
  explains : Explains Cache.perform c₀ hist log a
  pending : ∀ t i op, (m.pc t).pending = some (i, op) →
    .call i op ∈ hist ∧ i ∉ log.map Prod.fst
  distinct : ∀ t u i op op', (m.pc t).pending = some (i, op) →
    (m.pc u).pending = some (i, op') → t = u
  owed : ∀ t i r, (m.pc t).owed m.sh.cache = some (i, r) → ∃ op, (i, op, r) ∈ log
  fresh : ∀ i op, .call i op ∈ hist → i < m.sh.next

section Logged

variable {c₀ a' : Cache} {hist : List (CallEvent CacheCall CacheReply)}
variable {log : List (Nat × CacheCall × CacheReply)}

/-- A step that shows nothing. -/
theorem Logged.progress (h : Logged c₀ hist m log a) (hstep : m.Step l m')
    (hprog : Progress a m.sh (m.pc l.1) m'.sh (m'.pc l.1) a') (hund : Undisturbed m l.1 m')
    (hnext : m'.sh.next = m.sh.next) : ∃ log', Logged c₀ hist m' log' a' := by
  have hpend_ne : ∀ u, u ≠ l.1 → (m'.pc u).pending = (m.pc u).pending := by
    intro u hu
    rw [hstep.pc_of_ne hu]
  cases hprog with
  | silent hpend howed =>
      have hpend' : ∀ u, (m'.pc u).pending = (m.pc u).pending := by
        intro u
        by_cases hul : u = l.1
        · rw [hul, hpend]
        · exact hpend_ne u hul
      refine ⟨log, h.explains, ?_, ?_, ?_, ?_⟩
      · intro u i op hu
        rw [hpend'] at hu
        exact h.pending u i op hu
      · intro u v i op op' hu hv
        rw [hpend'] at hu hv
        exact h.distinct u v i op op' hu hv
      · intro u i r hu
        by_cases hul : u = l.1
        · rw [hul, howed] at hu
          exact h.owed _ i r hu
        · rw [hund u hul] at hu
          exact h.owed u i r hu
      · intro i op hcall
        rw [hnext]
        exact h.fresh i op hcall
  | commit i op hpend hpend' howed =>
      obtain ⟨hcall, hnot⟩ := h.pending _ i op hpend
      -- the thread is not among those that wait any more
      have hne : ∀ u j op', (m'.pc u).pending = some (j, op') →
          u ≠ l.1 ∧ (m.pc u).pending = some (j, op') := by
        intro u j op' hu
        have hul : u ≠ l.1 := by
          intro heq
          rw [heq, hpend'] at hu
          exact absurd hu (by simp)
        exact ⟨hul, (hpend_ne u hul).symm.trans hu⟩
      refine ⟨_, h.explains.commit hcall hnot, ?_, ?_, ?_, ?_⟩
      · intro u j op' hu
        obtain ⟨hul, hu⟩ := hne u j op' hu
        obtain ⟨hcall', hnot'⟩ := h.pending u j op' hu
        refine ⟨hcall', ?_⟩
        rw [List.map_append, List.mem_append]
        rintro (hold | hlast)
        · exact hnot' hold
        · obtain rfl : j = i := by simpa using hlast
          exact hul (h.distinct u l.1 j op' op hu hpend)
      · intro u v j op₁ op₂ hu hv
        exact h.distinct u v j op₁ op₂ (hne u j op₁ hu).2 (hne v j op₂ hv).2
      · intro u j r hu
        by_cases hul : u = l.1
        · rw [hul, howed] at hu
          obtain ⟨rfl, rfl⟩ : i = j ∧ (a.perform op).1 = r := by simpa using hu
          exact ⟨op, by simp⟩
        · rw [hund u hul] at hu
          obtain ⟨op', hmem⟩ := h.owed u j r hu
          exact ⟨op', List.mem_append_left _ hmem⟩
      · intro j op' hcall'
        rw [hnext]
        exact h.fresh j op' hcall'

theorem Logged.call {op : CacheCall} (h : Logged c₀ hist m log a) (hstep : m.Step l m')
    (hpc : m'.pc l.1 = .enter m.sh.next op) (hcache : m'.sh.cache = m.sh.cache)
    (hnext : m'.sh.next = m.sh.next + 1) :
    Logged c₀ (hist ++ [.call m.sh.next op]) m' log a := by
  -- the number is new: it is not among those that were called
  have hnew : ∀ op', CallEvent.call m.sh.next op' ∉ hist := by
    intro op' hmem
    exact absurd (h.fresh _ _ hmem) (lt_irrefl _)
  have hpend : ∀ u i op', (m'.pc u).pending = some (i, op') →
      (u = l.1 ∧ i = m.sh.next ∧ op' = op) ∨
        (i ≠ m.sh.next ∧ (m.pc u).pending = some (i, op')) := by
    intro u i op' hu
    by_cases hul : u = l.1
    · rw [hul, hpc] at hu
      obtain ⟨rfl, rfl⟩ : m.sh.next = i ∧ op = op' := by simpa [Spot.pending] using hu
      exact .inl ⟨hul, rfl, rfl⟩
    · rw [hstep.pc_of_ne hul] at hu
      refine .inr ⟨?_, hu⟩
      rintro rfl
      exact hnew op' (h.pending u _ op' hu).1
  refine ⟨h.explains.call hnew op, ?_, ?_, ?_, ?_⟩
  · intro u i op' hu
    rcases hpend u i op' hu with ⟨-, rfl, rfl⟩ | ⟨-, hold⟩
    · refine ⟨by simp, ?_⟩
      intro hmem
      obtain ⟨⟨j, op'', r⟩, hlog, rfl⟩ := List.mem_map.mp hmem
      exact hnew op'' (h.explains.called _ _ _ hlog)
    · obtain ⟨hcall, hnot⟩ := h.pending u i op' hold
      exact ⟨List.mem_append_left _ hcall, hnot⟩
  · intro u v i op₁ op₂ hu hv
    rcases hpend u i op₁ hu with ⟨rfl, rfl, -⟩ | ⟨hne, hold⟩
    · rcases hpend v _ op₂ hv with ⟨rfl, -, -⟩ | ⟨hne, -⟩
      · rfl
      · exact absurd rfl hne
    · rcases hpend v i op₂ hv with ⟨-, heq, -⟩ | ⟨-, hold'⟩
      · exact absurd heq hne
      · exact h.distinct u v i op₁ op₂ hold hold'
  · intro u i r hu
    by_cases hul : u = l.1
    · rw [hul, hpc] at hu
      exact absurd hu (by simp [Spot.owed])
    · rw [hstep.pc_of_ne hul, hcache] at hu
      exact h.owed u i r hu
  · intro i op' hmem
    rw [hnext]
    rcases List.mem_append.mp hmem with hold | hlast
    · exact Nat.lt_succ_of_lt (h.fresh i op' hold)
    · obtain ⟨rfl, -⟩ : i = m.sh.next ∧ op' = op := by simpa using hlast
      exact Nat.lt_succ_self _

theorem Logged.ret {r : CacheReply} (h : Logged c₀ hist m log a) (hstep : m.Step l m')
    (hret : m.pc l.1 = .ret i r) (hpc : m'.pc l.1 = .idle) (hsh : m'.sh = m.sh) :
    Logged c₀ (hist ++ [.ret i r]) m' log a := by
  have hpend : ∀ u j op, (m'.pc u).pending = some (j, op) → (m.pc u).pending = some (j, op) := by
    intro u j op hu
    by_cases hul : u = l.1
    · rw [hul, hpc] at hu
      exact absurd hu (by simp [Spot.pending])
    · rw [hstep.pc_of_ne hul] at hu
      exact hu
  obtain ⟨op, hmem⟩ := h.owed l.1 i r (by rw [hret]; rfl)
  refine ⟨h.explains.ret hmem, ?_, ?_, ?_, ?_⟩
  · intro u j op' hu
    obtain ⟨hcall, hnot⟩ := h.pending u j op' (hpend u j op' hu)
    exact ⟨List.mem_append_left _ hcall, hnot⟩
  · intro u v j op₁ op₂ hu hv
    exact h.distinct u v j op₁ op₂ (hpend u j op₁ hu) (hpend v j op₂ hv)
  · intro u j r' hu
    by_cases hul : u = l.1
    · rw [hul, hpc] at hu
      exact absurd hu (by simp [Spot.owed])
    · rw [hstep.pc_of_ne hul, hsh] at hu
      exact h.owed u j r' hu
  · intro j op' hmem
    rw [hsh]
    rcases List.mem_append.mp hmem with hold | hlast
    · exact h.fresh j op' hold
    · exact absurd hlast (by simp)

end Logged

/-! ### Every run -/

/-- The steps, sorted by what the log has to do. -/
inductive CellStepKind (s : Cells) (p : Spot) (e : CellEv) (s' : Cells) (p' : Spot) : Prop
  | call (op : CacheCall) (hout : Outside s s' p') (hp' : p' = .enter s.next op)
      (he : e = some (.call s.next op)) (hnext : s'.next = s.next + 1)
  | ret (i : Nat) (r : CacheReply) (hout : Outside s s' p') (hp : p = .ret i r) (hp' : p' = .idle)
      (he : e = some (.ret i r)) (hsh : s' = s)
  | clear (i : Nat) (hcache : s'.cache = s.cache.clear) (hwriter : s'.writer = s.writer)
      (hp : p = .enter i .clear) (hp' : p' = .ret i (.code .ok)) (he : e = none)
      (hnext : s'.next = s.next)
  | enter (hout : Outside s s' p') (hpend : p'.pending = p.pending)
      (howed : p'.owed s'.cache = p.owed s.cache) (he : e = none) (hnext : s'.next = s.next)
  | alone (hp : p.alone = true) (he : e = none) (hnext : s'.next = s.next)
  | shares (hp : p.shares = true) (he : e = none) (hnext : s'.next = s.next)

theorem cellStep_kind (h : CellStep t s p e s' p') : CellStepKind s p e s' p' := by
  cases h with
  | call => exact .call _ ⟨rfl, id, by simp [Spot.alone], trivial⟩ rfl rfl rfl
  | ret => exact .ret _ _ ⟨rfl, id, by simp [Spot.alone], trivial⟩ rfl rfl rfl rfl
  | clear => exact .clear _ rfl rfl rfl rfl rfl rfl
  | lock hop hfree _ =>
      subst hop
      exact .enter ⟨rfl, fun _ => hfree, fun _ => ⟨hfree, rfl⟩, trivial⟩ rfl rfl rfl rfl
  | lockDelete hfree _ =>
      exact .enter ⟨rfl, fun _ => hfree, fun _ => ⟨hfree, rfl⟩, trivial⟩ rfl rfl rfl rfl
  | lockShared hfree =>
      exact .enter ⟨rfl, id, by simp [Spot.alone], trivial⟩ rfl rfl rfl rfl
  | unlockShared | readUp | readDown | readMissing | readFound | readValue | readBegin | readCopy
  | readEnd => exact .shares rfl rfl rfl
  | _ => exact .alone rfl rfl rfl

/-- The machine and the log agree, now and on what has been seen. -/
structure Atomic (c₀ : Cache) (hist : List (CallEvent CacheCall CacheReply)) (m : CellMachine)
    (log : List (Nat × CacheCall × CacheReply)) (a : Cache) : Prop where
  logged : Logged c₀ hist m log a
  consistent : Consistent m a

/-- **One step.** -/
theorem atomic_step {c₀ : Cache} {hist : List (CallEvent CacheCall CacheReply)}
    {log : List (Nat × CacheCall × CacheReply)} (h : Atomic c₀ hist m log a)
    (hstep : m.Step l m') : ∃ log' a', Atomic c₀ (hist ++ l.2.toList) m' log' a' := by
  obtain ⟨hlog, hcons⟩ := h
  cases cellStep_kind hstep.own with
  | call op hout hp' he hnext =>
      rw [he]
      exact ⟨log, a, hlog.call hstep hp' hout.cache hnext, (hcons.step_outside hstep hout).1⟩
  | ret i r hout hp hp' he hsh =>
      rw [he]
      exact ⟨log, a, hlog.ret hstep hp hp' hsh, (hcons.step_outside hstep hout).1⟩
  | clear i hcache hwriter hp hp' he hnext =>
      rw [he, Option.toList_none, List.append_nil]
      obtain ⟨hcons', hund⟩ := hcons.step_clear hstep hcache hwriter hp'
      have hprog : Progress a m.sh (m.pc l.1) m'.sh (m'.pc l.1) (a.perform .clear).2 := by
        rw [hp, hp']
        exact .commit i .clear rfl rfl rfl
      obtain ⟨log', hlog'⟩ := hlog.progress hstep hprog hund hnext
      exact ⟨log', a.clear, hlog', hcons'⟩
  | enter hout hpend howed he hnext =>
      rw [he, Option.toList_none, List.append_nil]
      obtain ⟨hcons', hund⟩ := hcons.step_outside hstep hout
      obtain ⟨log', hlog'⟩ := hlog.progress hstep (.silent hpend howed) hund hnext
      exact ⟨log', a, hlog', hcons'⟩
  | alone hp he hnext =>
      rw [he, Option.toList_none, List.append_nil]
      obtain ⟨a', hprog, hcons', hund⟩ := hcons.step_alone hstep hp
      obtain ⟨log', hlog'⟩ := hlog.progress hstep hprog hund hnext
      exact ⟨log', a', hlog', hcons'⟩
  | shares hp he hnext =>
      rw [he, Option.toList_none, List.append_nil]
      obtain ⟨hprog, hcons', hund⟩ := hcons.step_shares hstep hp
      obtain ⟨log', hlog'⟩ := hlog.progress hstep hprog hund hnext
      exact ⟨log', a, hlog', hcons'⟩

theorem atomic_initial (c₀ : Cache) : Atomic c₀ [] (.initial c₀) [] c₀ where
  logged := by
    refine ⟨explains_nil _ _, ?_, ?_, ?_, ?_⟩
    · intro t i op h
      exact absurd h (by simp [CellMachine.initial, Spot.pending])
    · intro t u i op op' h
      exact absurd h (by simp [CellMachine.initial, Spot.pending])
    · intro t i r h
      exact absurd h (by simp [CellMachine.initial, Spot.owed])
    · simp
  consistent := by
    refine ⟨⟨?_, ?_, ?_, fun _ => rfl⟩, fun _ => rfl, ?_, fun _ => trivial⟩
    · intro t h
      exact absurd h (by simp [CellMachine.initial, Spot.alone])
    · intro t h
      exact absurd h (by simp [CellMachine.initial])
    · intro t h
      exact absurd h (by simp [CellMachine.initial, Spot.shares])
    · intro t h
      exact absurd h (by simp [CellMachine.initial, Spot.alone])

theorem history_snoc (ls : List (Tid × CellEv)) (l : Tid × CellEv) :
    history (ls ++ [l]) = history ls ++ l.2.toList := by
  obtain ⟨t, e⟩ := l
  cases e with
  | none => simp [history]
  | some ev => simp [history]

/-- **Linearizability.** The calls and returns of every run, from any cache, are explained by the
same calls run one after the other. When no call is going on, the cache is what they leave. -/
theorem calls_atomic (c₀ : Cache) (ls : List (Tid × CellEv)) (m : CellMachine)
    (hrun : Run CellMachine.Step (.initial c₀) ls m) :
    ∃ log a, Explains Cache.perform c₀ (history ls) log a ∧
      ((∀ t, m.pc t = .idle) → a = m.sh.cache) := by
  have hinv := hrun.invariant_history (I := fun hist m => ∃ log a, Atomic c₀ (history hist) m log a)
    ?_ [] ⟨[], c₀, atomic_initial c₀⟩
  · obtain ⟨log, a, hatomic⟩ := hinv
    refine ⟨log, a, hatomic.logged.explains, ?_⟩
    intro hidle
    refine hatomic.consistent.free (Option.eq_none_iff_forall_ne_some.mpr ?_)
    intro t hheld
    have halone := hatomic.consistent.locks.held t hheld
    rw [hidle t] at halone
    exact absurd halone (by simp [Spot.alone])
  · intro hist m₁ l m₂ hinv hstep
    obtain ⟨log, a, hatomic⟩ := hinv
    obtain ⟨log', a', hatomic'⟩ := atomic_step hatomic hstep
    refine ⟨log', a', ?_⟩
    rw [history_snoc]
    exact hatomic'

/-! ### A `Clear` that is overwritten -/

/-- The cells while nobody reads. -/
def idleReaders (values : PrefMap) (keys : Finset String) (flag : Bool) (next : Nat)
    (writer : Option Tid) : Cells :=
  { cache := { modifiedKeys := keys, isCleared := flag, valuesCache := values }
    writer := writer, readers := ∅, next := next }

/-- The map with one entry. -/
def oneEntry : PrefMap := Finmap.insert "k" (.int 1) ∅

/-- `Put` in a cleared store, up to the store that lowers the flag. -/
theorem put_until_lower :
    Solo CellStep 0 (idleReaders ∅ ∅ true 0 none) .idle
      [some (.call 0 (.put "k" (.int 1))), none, none, none, none, none, none, none]
      (idleReaders oneEntry {"k"} true 1 (some 0)) (.lower 0 (.put "k" (.int 1))) := by
  have hlock : CellStep 0 (idleReaders ∅ ∅ true 1 none) (.enter 0 (.put "k" (.int 1))) none
      (idleReaders ∅ ∅ true 1 (some 0)) (.flag 0 (.put "k" (.int 1))) := .lock rfl rfl rfl
  have hloop : CellStep 0 (idleReaders ∅ ∅ true 1 (some 0)) (.loop 0 (.put "k" (.int 1))) none
      (idleReaders ∅ ∅ true 1 (some 0)) (.mark 0 (.put "k" (.int 1)) []) := .loop rfl
  refine .cons .call (.cons hlock (.cons (.flagUp rfl) (.cons hloop ?_)))
  exact .cons .marked (.cons .empty (.cons .putInsert (.cons .putMark .nil)))

/-- Another thread clears and returns. -/
theorem clear_before_lower :
    Solo CellStep 1 (idleReaders oneEntry {"k"} true 1 (some 0)) .idle
      [some (.call 1 .clear), none, some (.ret 1 (.code .ok))]
      (idleReaders oneEntry {"k"} true 2 (some 0)) .idle :=
  .cons .call (.cons .clear (.cons .ret .nil))

/-- The rest of `Put`. -/
theorem put_from_lower :
    Solo CellStep 0 (idleReaders oneEntry {"k"} true 2 (some 0)) (.lower 0 (.put "k" (.int 1)))
      [none, none, some (.ret 0 (.code .ok))]
      (idleReaders oneEntry {"k"} false 2 none) .idle :=
  .cons .lower (.cons .unlock (.cons .ret .nil))

/-- A `Clear` returns between the last writes of a `Put` and is lost. Still the run is explained:
the `Clear` comes first in the log, and the flag was up already. -/
theorem calls_atomic_overwritten :
    ∃ ls m, Run CellMachine.Step (.initial ⟨∅, true, ∅⟩) ls m ∧
      history ls = [.call 0 (.put "k" (.int 1)), .call 1 .clear, .ret 1 (.code .ok),
        .ret 0 (.code .ok)] ∧
      m.sh.cache.visible = oneEntry ∧
      ∃ log a, Explains Cache.perform ⟨∅, true, ∅⟩ (history ls) log a ∧ a = m.sh.cache := by
  have hput := put_until_lower.run_away (fun _ => Spot.idle)
  have hclear := clear_before_lower.run_back
    (Function.update (fun _ => Spot.idle) 0 (Spot.lower 0 (.put "k" (.int 1))))
  have hrest := put_from_lower.run_home (fun _ => Spot.idle)
  have hrun := (hput.append hclear).append hrest
  refine ⟨_, _, hrun, rfl, rfl, ?_⟩
  obtain ⟨log, a, hex, hidle⟩ := calls_atomic _ _ _ hrun
  exact ⟨log, a, hex, hidle (fun _ => rfl)⟩

end NativePreferences
