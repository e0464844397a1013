import NativePreferences.Enhance.Freshness

/-!
# NativePreferences.Enhance.Coherence

**Every interleaving of processes on one database.** Each call is proved to end well whatever the
others do between its kernel calls (`EnhanceImpl.call_fresh`), so a process in the middle of a call
is one whose rest will end well, and this is kept by every step of every process.

The condition on the run cannot be dropped. A process that has a copy of a value and then reads
something else may return the copy after another process has replaced the value.
-/

namespace NativePreferences

open Lib
open EnhanceImpl

variable {db db' : SharedDb} {p : Proc} {t : Tid}

/-- The store is fresh, or will be when the call is done. -/
def Proc.Sound (db : SharedDb) : Proc → Prop
  | .idle h => Fresh h db
  | .busy op h seen p => p.Ensures (watchedKernel op h) Others (Done op) (db, seen)

/-- Steps of the others. -/
theorem Proc.Sound.later (hp : p.Sound db) (hl : Later db db') : p.Sound db' := by
  cases p with
  | idle h => exact Fresh.later hp hl
  | busy op h seen p =>
      refine Program.Ensures.stable (w := (db, seen)) hp others_trans ?_ ⟨hl, rfl⟩
      intro res w₁ w₂ ⟨hf, hread⟩ ⟨hl', hseen⟩
      refine ⟨hf.later hl', ?_⟩
      rw [hseen]
      exact hread

/-- What a step shows is current. -/
def ProcEv.Current : ProcEv → Prop
  | .ret op seen reply => ReadCurrent seen op reply
  | _ => True

/-- **A step of a process.** -/
theorem step_sound {m m' : Processes} {l : Tid × ProcEv}
    (hstep : guarded Processes.Step Coherent m l m') (hp : (m.pc l.1).Sound m.sh) :
    (m'.pc l.1).Sound m'.sh ∧ Later m.sh m'.sh ∧ l.2.Current := by
  obtain ⟨hmove, hcoh⟩ := hstep
  have hown := hmove.own
  obtain ⟨t, e⟩ := l
  dsimp only at hown hp ⊢
  generalize hpc : m.pc t = p at hown hp
  generalize m'.pc t = p' at hown ⊢
  generalize m'.sh = sh' at hown ⊢
  cases hown with
  | @call h op =>
      refine ⟨call_fresh (w := (m.sh, [m.sh])) hp List.mem_cons_self ?_, Later.refl _, trivial⟩
      rintro key value rfl
      exact hcoh
  | @kernel _ op h seen c k r hS =>
      have hmoves : MovesUpToDate op h m.sh.contents ⟨c, r⟩ := by
        simpa only [Coherent, hpc] using hcoh
      refine ⟨?_, sharedKernel_later hS, trivial⟩
      exact hp (m.sh, seen) r (sh', sh' :: seen) ⟨Later.refl _, rfl⟩ ⟨hS, rfl, hmoves⟩
  | ret => exact ⟨hp.1, Later.refl _, hp.2⟩

/-- **Answers are current.** In every run in which every step is `Coherent`, whatever the
interleaving, each `Get`, `GetValue` and `HasKey` returns what the database said at a moment while
the call went on. -/
theorem reads_current (db : SharedDb) (hver : 0 ≤ db.version.toInt) (ls : List (Tid × ProcEv))
    (m : Processes) (hrun : Run (guarded Processes.Step Coherent) (.initial db) ls m)
    (t : Tid) (op : Op) (seen : List SharedDb) (reply : Reply)
    (hret : (t, .ret op seen reply) ∈ ls) : ReadCurrent seen op reply := by
  have hinv := hrun.invariant_history
    (I := fun hist m => (∀ t, (m.pc t).Sound m.sh) ∧ ∀ l ∈ hist, l.2.Current) ?_ [] ?_
  · exact hinv.2 _ (by simpa using hret)
  · intro hist m l m' ⟨hsound, hcur⟩ hstep
    obtain ⟨hown, hlater, hlabel⟩ := step_sound hstep (hsound l.1)
    refine ⟨?_, ?_⟩
    · exact Threads.step_forall (A := fun sh _ p => p.Sound sh) hstep.1 hown
        (fun u _ hu => hu.later hlater) hsound
    · intro l' hl'
      rcases List.mem_append.mp hl' with hold | hnew
      · exact hcur l' hold
      · rw [List.mem_singleton.mp hnew]
        exact hlabel
  · refine ⟨?_, by simp⟩
    intro _
    exact ⟨rfl, hver, fun _ => truthful_empty _⟩

/-! ### Two processes that write to one key -/

/-- The kernel, with the states of the database written down. -/
def recordedKernel : Sem KernelCall KernelAnswer Watched := fun c w r w' =>
  sharedKernel c w.1 r w'.1 ∧ w'.2 = w'.1 :: w.2

section Alone

variable {op : Op} {h h' : EnhanceImpl} {reply : Reply} {tr : List (Event KernelAnswer)}
variable {seen : List SharedDb}

/-- What a process shows that makes a call while nobody else does anything. -/
def callLabels (t : Tid) (op : Op) (tr : List (Event KernelAnswer)) (seen : List SharedDb)
    (reply : Reply) : List (Tid × ProcEv) :=
  (ProcEv.call op :: (tr.map .kernel ++ [.ret op seen reply])).map (Prod.mk t)

theorem ret_mem_callLabels : (t, .ret op seen reply) ∈ callLabels t op tr seen reply := by
  simp [callLabels]

theorem solo_exec {prog : KernelProgram (Reply × EnhanceImpl)} {res : Reply × EnhanceImpl}
    {w w' : Watched} (hexec : Exec recordedKernel prog w tr res w') :
    Solo ProcStep t w.1 (.busy op h w.2 prog) (tr.map .kernel ++ [.ret op w'.2 res.1]) w'.1
      (.idle res.2) := by
  induction hexec with
  | ret => exact .cons .ret .nil
  | @call c k w w₁ w' r tr res hs _ ih =>
      refine .cons (.kernel hs.1) ?_
      rw [← hs.2]
      exact ih

theorem run_call (t : Tid) (pc : Tid → Proc) (hpc : pc t = .idle h)
    (hexec : Exec recordedKernel (h.call op) (db, [db]) tr (reply, h') (db', seen)) :
    Run Processes.Step ⟨db, pc⟩ (callLabels t op tr seen reply)
      ⟨db', Function.update pc t (.idle h')⟩ := by
  refine Solo.run_away pc ?_
  rw [hpc]
  exact .cons .call (solo_exec hexec)

theorem coherent_kernel {m : Processes} {t : Tid} {ev : Event KernelAnswer}
    (hev : ∀ op h c, MovesUpToDate op h c ev) : Coherent m (t, .kernel ev) := by
  rw [Coherent]
  split
  · exact hev _ _ _
  · trivial

/-- Kernel calls after which the version is not taken over. -/
theorem coherent_callLabels (t : Tid) (op : Op) (tr : List (Event KernelAnswer))
    (seen : List SharedDb) (reply : Reply)
    (hsize : ∀ key value, op = .put key value → parcelSize value < 2 ^ 32)
    (htr : ∀ ev ∈ tr, ∀ op h c, MovesUpToDate op h c ev) :
    ∀ l ∈ callLabels t op tr seen reply, ∀ m, Coherent m l := by
  intro l hl m
  rw [callLabels, List.map_cons, List.map_append, List.map_map] at hl
  rcases List.mem_cons.mp hl with rfl | hl
  · cases op with
    | put key value => exact hsize key value rfl
    | delete | clear | query => trivial
  · rcases List.mem_append.mp hl with hl | hl
    · obtain ⟨ev, hev, rfl⟩ := List.mem_map.mp hl
      exact coherent_kernel (htr ev hev)
    · obtain rfl : l = _ := List.mem_singleton.mp hl
      trivial

end Alone

/-- The bytes of a small value. -/
def smallBytes : Bytes := [1, 0, 0, 0, 0]

theorem unmarshalling_smallBytes : unmarshallingPreferenceValue smallBytes = (.ok, .int 0) := by
  decide

/-- The database at first, and after each of the two writes. -/
def emptyDb : SharedDb := ⟨some ∅, 0⟩

@[inherit_doc emptyDb] def largeDb : SharedDb := ⟨some (Finmap.insert "k" largeBytes ∅), 1⟩

@[inherit_doc emptyDb] def smallDb : SharedDb := ⟨some (Finmap.insert "k" smallBytes ∅), 2⟩

/-- One process has a copy of its own value; the other has replaced the value. -/
def overtaken : Tid → Proc :=
  Function.update (Function.update (fun _ => .idle .initial) 0 (.idle (withLarge 1))) 1
    (.idle (EnhanceImpl.initial.afterPut "k" (.int 0) (calSize (.int 0))))

theorem commits_put {value : Bytes} (hlt : db.version.toInt < db'.version.toInt) :
    Commits (.kvPut "k" value) db GrdCode.ok db' := by
  rw [Commits, if_pos rfl]
  exact hlt

theorem exec_put_large : Exec recordedKernel (EnhanceImpl.initial.call (.put "k" largeValue))
    (emptyDb, [emptyDb]) [⟨.kvPut "k" largeBytes, GrdCode.ok⟩] (.code .ok, withLarge 1)
    (largeDb, [largeDb, emptyDb]) := by
  have hS : recordedKernel (.kvPut "k" largeBytes) (emptyDb, [emptyDb]) GrdCode.ok
      (largeDb, [largeDb, emptyDb]) :=
    ⟨⟨.inl ⟨∅, rfl, rfl, rfl⟩, commits_put (by decide)⟩, rfl⟩
  have hexec := exec_put_ok (h := .initial) rfl (by decide : checkKey "k" = .ok)
    (rfl : checkValue largeValue = .ok) marshalling_largeValue hS
  rw [afterPut_largeValue] at hexec
  exact hexec

theorem exec_put_small : Exec recordedKernel (EnhanceImpl.initial.call (.put "k" (.int 0)))
    (largeDb, [largeDb]) [⟨.kvPut "k" smallBytes, GrdCode.ok⟩]
    (.code .ok, EnhanceImpl.initial.afterPut "k" (.int 0) (calSize (.int 0)))
    (smallDb, [smallDb, largeDb]) := by
  have hS : recordedKernel (.kvPut "k" smallBytes) (largeDb, [largeDb]) GrdCode.ok
      (smallDb, [smallDb, largeDb]) := by
    refine ⟨⟨.inl ⟨_, rfl, rfl, ?_⟩, commits_put (by decide)⟩, rfl⟩
    rw [Finmap.insert_insert]
    rfl
  exact exec_put_ok rfl (by decide) rfl rfl hS

/-- Both writes; nothing about them is incoherent. -/
theorem run_overtaken : ∃ ls, Run Processes.Step (.initial emptyDb) ls ⟨smallDb, overtaken⟩ ∧
    ∀ l ∈ ls, ∀ m, Coherent m l := by
  have hlarge := run_call 0 (fun _ => .idle .initial) rfl exec_put_large
  have hsmall := run_call 1
    (Function.update (fun _ => .idle .initial) 0 (.idle (withLarge 1))) rfl exec_put_small
  refine ⟨_, hlarge.append hsmall, ?_⟩
  intro l hl
  rcases List.mem_append.mp hl with hl | hl
  · refine coherent_callLabels _ _ _ _ _ ?_ ?_ l hl
    · intro key value heq
      obtain ⟨-, rfl⟩ := Op.put.inj heq
      rw [parcelSize_largeValue]
      decide
    · simp [MovesUpToDate]
  · refine coherent_callLabels _ _ _ _ _ ?_ ?_ l hl
    · intro key value heq
      obtain ⟨-, rfl⟩ := Op.put.inj heq
      decide
    · simp [MovesUpToDate]

theorem holds_smallDb : Holds smallDb.contents "k" (.int 0) :=
  ⟨smallBytes, Finmap.lookup_insert _, unmarshalling_smallBytes⟩

theorem collect_smallBytes (version : Int64) :
    collect [("k", smallBytes)] ∅ (withLarge version).largeCachedData =
      (.ok, Finmap.insert "k" (.int 0) ∅, (withLarge version).largeCachedData) := by
  simp only [collect, unmarshalling_smallBytes, ne_eq, not_true, if_false, Finmap.notMem_empty]
  rw [if_neg (by decide)]

/-- The first process reads everything, and sees the new value. -/
theorem exec_getAllData_small :
    Exec recordedKernel ((withLarge 1).call (.query .getAllData)) (smallDb, [smallDb])
      [⟨.getConfig, some 2⟩, ⟨.kvFilter, (GrdCode.ok, [⟨"k", smallBytes, .ok, .ok⟩])⟩]
      (.answer (.codeMap .ok (Finmap.insert "k" (.int 0) ∅)), withLarge 2)
      (smallDb, [smallDb, smallDb, smallDb]) := by
  have hS : recordedKernel .getConfig (smallDb, [smallDb]) (some 2) (smallDb, [smallDb, smallDb]) :=
    ⟨⟨⟨rfl, rfl⟩, rfl, rfl⟩, rfl⟩
  have hlists : Lists [⟨"k", smallBytes, .ok, .ok⟩] (Finmap.insert "k" smallBytes ∅) := by
    refine ⟨by simp, by simp, ?_⟩
    intro key value
    by_cases heq : key = "k"
    · rw [heq, Finmap.lookup_insert]
      simp
    · rw [Finmap.lookup_insert_of_ne _ heq]
      simp [Ne.symm heq]
  have hall : Exec recordedKernel PreferencesDb.getAll (smallDb, [smallDb, smallDb])
      [⟨.kvFilter, (GrdCode.ok, [⟨"k", smallBytes, .ok, .ok⟩])⟩] (.ok, [("k", smallBytes)])
      (smallDb, [smallDb, smallDb, smallDb]) := by
    have hS' : recordedKernel .kvFilter (smallDb, [smallDb, smallDb])
        (GrdCode.ok, [⟨"k", smallBytes, .ok, .ok⟩]) (smallDb, [smallDb, smallDb, smallDb]) :=
      ⟨⟨⟨rfl, .inl ⟨_, rfl, rfl, hlists⟩⟩, rfl⟩, rfl⟩
    exact .call hS' .ret
  exact exec_getAllData_ok rfl hS hall (collect_smallBytes 1)

/-- After that it returns its old copy. -/
theorem exec_get_stale :
    Exec recordedKernel ((withLarge 2).call (.query (.get "k" (.int 1)))) (smallDb, [smallDb])
      [⟨.getConfig, some 2⟩] (.answer (.value largeValue), withLarge 2)
      (smallDb, [smallDb, smallDb]) :=
  exec_get_hit (.int 1) rfl (by decide) (Finmap.lookup_insert _) ⟨⟨⟨rfl, rfl⟩, rfl, rfl⟩, rfl⟩

/-- A process puts a large value, another one replaces it by a small one. The first reads all data,
which brings it the new value, and then gets the old one for the same key. -/
theorem reads_outdated :
    ∃ ls m seen, Run Processes.Step (.initial emptyDb) ls m ∧
      (0, .ret (.query (.get "k" (.int 1))) seen (.answer (.value largeValue))) ∈ ls ∧
      ¬ ReadCurrent seen (.query (.get "k" (.int 1))) (.answer (.value largeValue)) := by
  obtain ⟨ls, hputs, -⟩ := run_overtaken
  have hall := run_call 0 overtaken rfl exec_getAllData_small
  have hget := run_call 0
    (Function.update overtaken 0 (.idle (withLarge 2))) rfl exec_get_stale
  refine ⟨_, _, _, (hputs.append hall).append hget,
    List.mem_append_right _ ret_mem_callLabels, ?_⟩
  rintro ⟨db, hdb, hcur⟩
  obtain rfl : db = smallDb := by simpa using hdb
  rcases hcur (by decide) with ⟨v, ⟨oriValue, hval, hitem⟩, hv⟩ | ⟨hnone, -⟩
  · obtain rfl : smallBytes = oriValue :=
      Option.some.inj ((Finmap.lookup_insert (a := "k") (s := ∅)).symm.trans hval)
    rw [unmarshalling_smallBytes] at hitem
    obtain ⟨-, rfl⟩ := Prod.mk.inj hitem
    exact absurd (Answer.value.inj hv) (by simp [largeValue])
  · exact hnone _ holds_smallDb

/-- Without the `GetAllData` in between it gets the value of the other process. -/
theorem reads_current_overtaken :
    ∃ ls m seen, Run (guarded Processes.Step Coherent) (.initial emptyDb) ls m ∧
      (0, .ret (.query (.get "k" (.int 1))) seen (.answer (.value (.int 0)))) ∈ ls ∧
      ReadCurrent seen (.query (.get "k" (.int 1))) (.answer (.value (.int 0))) := by
  obtain ⟨ls, hputs, hcoh⟩ := run_overtaken
  have hS : recordedKernel .getConfig (smallDb, [smallDb]) (some 2) (smallDb, [smallDb, smallDb]) :=
    ⟨⟨⟨rfl, rfl⟩, rfl, rfl⟩, rfl⟩
  have hS' : recordedKernel (.kvGet "k") (smallDb, [smallDb, smallDb]) (GrdCode.ok, smallBytes)
      (smallDb, [smallDb, smallDb, smallDb]) :=
    ⟨⟨⟨rfl, .inl ⟨_, smallBytes, rfl, Finmap.lookup_insert _, rfl⟩⟩, rfl⟩, rfl⟩
  have hmiss : Exec recordedKernel ((withLarge 1).call (.query (.get "k" (.int 1))))
      (smallDb, [smallDb]) [⟨.getConfig, some 2⟩, ⟨.kvGet "k", (GrdCode.ok, smallBytes)⟩]
      (.answer (.value (.int 0)), withLarge 1) (smallDb, [smallDb, smallDb, smallDb]) :=
    exec_get_miss (.int 1) rfl (by decide) (by decide) hS hS'
  have hget := run_call 0 overtaken rfl hmiss
  have hcoh' := coherent_callLabels 0 (.query (.get "k" (.int 1)))
    [⟨.getConfig, some 2⟩, ⟨.kvGet "k", (GrdCode.ok, smallBytes)⟩]
    [smallDb, smallDb, smallDb] (.answer (.value (.int 0))) (by simp)
    (by simp [MovesUpToDate, smallBytes, cachedThresholds])
  have hrun : Run (guarded Processes.Step Coherent) (.initial emptyDb) _ _ :=
    (hputs.append hget).guard_invariant (I := fun _ => True) (fun _ _ _ _ _ => trivial) trivial
      (fun l hl m _ => (List.mem_append.mp hl).elim (hcoh l · m) (hcoh' l · m))
  refine ⟨_, _, _, hrun, List.mem_append_right _ ret_mem_callLabels, ?_⟩
  exact reads_current _ (by decide) _ _ hrun _ _ _ _ (List.mem_append_right _ ret_mem_callLabels)

end NativePreferences
