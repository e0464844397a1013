import NativePreferences.ExecutorPool.Destruction

/-!
# NativePreferences.ExecutorPool.DestructionInvariant

**What holds in the whole life of a pool.** Every executor is in one of the two lists until it has
stopped, and it is busy while it has a task (`Standing`). An executor is in a call only while it
runs a task (`Calling`). So where those that are busy are all on their way to `idle_`, nobody asks
for an executor (`calls_outside`), and the loops of `Pool::Clean` leave nothing behind but what they
miss on that way (`Lives`).
-/

namespace NativePreferences

open Lib

variable {α : Type}

namespace ExecutorPool

variable {w w' : ExecutorPool α} {running : Nat → Status} {ev : Event} {t : Thread} {e : Nat}

/-! ### The invariant -/

/-- What holds of an executor in the whole life of a pool. While it is to stop it is only known to
be in a list, and to be busy while it has a task. -/
structure Stands (w : ExecutorPool α) (running : Nat → Status) (e : Nat) : Prop where
  linked : e < w.made → (w.executors e).pc ≠ .stopped → e ∈ w.pool.nodes
  status : running e = .running → (w.executors e).pc ≠ .stopped
  ended : running e = .stopped → (w.executors e).pc = .stopped
  serves : running e = .running → (w.executors e).pc.serves = true →
    (w.executors e).waits ≠ none
  bound : running e = .running → (w.executors e).waits ≠ none →
    (w.executors e).pc ≠ .clearing → e ∈ w.pool.busy ∧ ∀ t, (w.calls t).binds ≠ some e
  binds : ∀ t, running e = .running → (w.calls t).binds = some e → e ∈ w.pool.busy
  unique : ∀ t t', running e = .running → (w.calls t).binds = some e →
    (w.calls t').binds = some e → t = t'
  works : (w.executors e).pc.works = true → e ∈ w.pool.busy
  pops : running e = .isStopping → (w.executors e).pc ≠ .popping

/-- What holds in the whole life of a pool. -/
structure Standing (w : ExecutorPool α) (running : Nat → Status) : Prop where
  nodup : w.pool.nodes.Nodup
  made : ∀ e ∈ w.pool.nodes, e < w.made
  fresh : ∀ e, w.made ≤ e → w.executors e = .fresh ∧ running e = .running
  stands : ∀ e, w.Stands running e

variable {running' : Nat → Status} {x : Executor α}

/-- An executor stays as it is, and is in the lists where it was. -/
theorem Stands.congr (h : w.Stands running e) (hx : w'.executors e = w.executors e)
    (hrunning : running' e = running e) (hmade : e < w'.made → e < w.made)
    (hnodes : e ∈ w.pool.nodes → e ∈ w'.pool.nodes)
    (hbusy : e ∈ w.pool.busy → e ∈ w'.pool.busy)
    (hbinds : ∀ t, (w'.calls t).binds = some e → (w.calls t).binds = some e) :
    w'.Stands running' e where
  linked he := by
    rw [hx]
    exact fun hpc => hnodes (h.linked (hmade he) hpc)
  status := by
    rw [hx, hrunning]
    exact h.status
  ended := by
    rw [hx, hrunning]
    exact h.ended
  serves := by
    rw [hx, hrunning]
    exact h.serves
  bound := by
    rw [hx, hrunning]
    intro hlive hwaits hpc
    obtain ⟨hin, hnone⟩ := h.bound hlive hwaits hpc
    exact ⟨hbusy hin, fun t ht => hnone t (hbinds t ht)⟩
  binds t := by
    rw [hrunning]
    exact fun hlive ht => hbusy (h.binds t hlive (hbinds t ht))
  unique t t' := by
    rw [hrunning]
    exact fun hlive ht ht' => h.unique t t' hlive (hbinds t ht) (hbinds t' ht')
  works := by
    rw [hx]
    exact fun hworks => hbusy (h.works hworks)
  pops := by
    rw [hx, hrunning]
    exact h.pops

/-- One that has not ended and is not to stop runs. -/
theorem Stands.running_of_ne (h : w.Stands running e) (hstopping : running e ≠ .isStopping)
    (hpc : (w.executors e).pc ≠ .stopped) : running e = .running := by
  cases hrunning : running e with
  | running => rfl
  | isStopping => exact absurd hrunning hstopping
  | stopped => exact absurd (h.ended hrunning) hpc

namespace Standing

/-- A busy executor is not idle. -/
theorem not_idle (h : w.Standing running) (he : e ∈ w.pool.busy) : e ∉ w.pool.idle :=
  fun hidle => (List.nodup_append.mp h.nodup).2.2 e hidle e he rfl

/-- An executor that is not as it was made has been made. -/
theorem lt_made (h : w.Standing running)
    (he : running e = .running → w.executors e ≠ .fresh) : e < w.made := by
  by_contra hge
  obtain ⟨hfresh, hrunning⟩ := h.fresh e (Nat.le_of_not_lt hge)
  exact he hrunning hfresh

/-- Those that have not been made are as before. -/
theorem fresh_update (h : w.Standing running) (he : e < w.made) (hmade : w.made ≤ w'.made)
    (hexecutors : w'.executors = Function.update w.executors e x)
    (hrunning : ∀ d, d ≠ e → running' d = running d) (d : Nat) (hd : w'.made ≤ d) :
    w'.executors d = .fresh ∧ running' d = .running := by
  have hne : d ≠ e := Nat.ne_of_gt (Nat.lt_of_lt_of_le he (Nat.le_trans hmade hd))
  rw [hexecutors, Function.update_of_ne hne, hrunning d hne]
  exact h.fresh d (Nat.le_trans hmade hd)

theorem quiet (h : w.Standing running) (hnodes : w'.pool.nodes = w.pool.nodes)
    (hbusy : w'.pool.busy = w.pool.busy) (hmade : w'.made = w.made)
    (hexecutors : w'.executors = w.executors)
    (hbinds : ∀ t, (w'.calls t).binds = (w.calls t).binds) : w'.Standing running := by
  refine ⟨hnodes ▸ h.nodup, hnodes ▸ hmade ▸ h.made, hexecutors ▸ hmade ▸ h.fresh, ?_⟩
  intro d
  refine (h.stands d).congr (by rw [hexecutors]) rfl (hmade ▸ id) (hnodes ▸ id) (hbusy ▸ id) ?_
  exact fun t ht => (hbinds t).symm.trans ht

theorem goes (h : w.Standing running) (hpool : w'.pool = w.pool)
    (hmade : w'.made = w.made) (hexecutors : w'.executors = Function.update w.executors e x)
    (hbinds : ∀ t, (w'.calls t).binds = (w.calls t).binds)
    (hgoes : (w.executors e).Goes (running e) x) : w'.Standing running := by
  have he : e < w.made := by
    refine h.lt_made ?_
    intro hrunning hfresh
    obtain hpc | hwaits := hgoes.there hrunning
    · exact hpc (by rw [hfresh]; rfl)
    · exact hwaits (by rw [hfresh]; rfl)
  refine ⟨hpool ▸ h.nodup, hpool ▸ hmade ▸ h.made,
    h.fresh_update he hmade.ge hexecutors (fun _ _ => rfl), ?_⟩
  intro d
  by_cases hd : d = e
  · subst hd
    have hself : w'.executors d = x := by rw [hexecutors, Function.update_self]
    obtain ⟨hbefore, hafter⟩ := hgoes.stopped
    have hx := h.stands d
    refine ⟨?_, ?_, ?_, ?_, ?_, ?_, ?_, ?_, ?_⟩
    · rw [hpool, hmade]
      exact fun hlt _ => hx.linked hlt hbefore
    · rw [hself]
      exact fun _ => hafter
    · exact fun hended => absurd (hx.ended hended) hbefore
    · rw [hself]
      intro hlive hserves
      obtain hwaits | ⟨hserves, hwaits⟩ := hgoes.serves hlive hserves
      · exact hwaits
      · rw [hwaits]
        exact hx.serves hlive hserves
    · rw [hself, hpool]
      intro hlive hwaits _
      obtain hnone | ⟨hsame, hpc⟩ := hgoes.waits
      · exact absurd hnone hwaits
      · simp only [hbinds]
        exact hx.bound hlive (hsame ▸ hwaits) hpc
    · intro t hlive ht
      rw [hpool]
      exact hx.binds t hlive ((hbinds t).symm.trans ht)
    · intro t t' hlive ht ht'
      exact hx.unique t t' hlive ((hbinds t).symm.trans ht) ((hbinds t').symm.trans ht')
    · rw [hself, hpool]
      intro hworks
      obtain hworks | ⟨hstopping, hserves, hpc⟩ := hgoes.works hworks
      · exact hx.works hworks
      · have hlive := hx.running_of_ne hstopping hbefore
        exact (hx.bound hlive (hx.serves hlive hserves) hpc).1
    · rw [hself]
      exact fun hstopping hpop => hgoes.pops hpop hstopping
  · refine (h.stands d).congr ?_ rfl (hmade ▸ id) (hpool ▸ id) (hpool ▸ id) ?_
    · rw [hexecutors, Function.update_of_ne hd]
    · exact fun t ht => (hbinds t).symm.trans ht

/-- What a `Get` takes from the idle list serves no queue. -/
theorem idle_of (h : w.Standing running) (hidle : e ∈ w.pool.idle)
    (hlive : running e = .running) :
    ((w.executors e).waits = none ∨ (w.executors e).pc = .clearing) ∧
      ∀ t, (w.calls t).binds ≠ some e := by
  refine ⟨?_, fun t ht => h.not_idle ((h.stands e).binds t hlive ht) hidle⟩
  by_contra hnot
  rw [not_or] at hnot
  exact h.not_idle ((h.stands e).bound hlive hnot.1 hnot.2).1 hidle

theorem got (h : w.Standing running) {force : Bool} {c : Call α}
    (hget : w.pool.get force w.made = (some e, w'.pool))
    (hmade : w'.made = if e = w.made then w.made + 1 else w.made)
    (hexecutors : w'.executors = w.executors)
    (hcalls : w'.calls = Function.update w.calls t c) (hbinds : c.binds = some e) :
    w'.Standing running := by
  -- the executor was idle or is new
  have hfree : running e = .running →
      ((w.executors e).waits = none ∨ (w.executors e).pc = .clearing) ∧
        ∀ u, (w.calls u).binds ≠ some e := by
    intro hlive
    obtain ⟨hidle, -⟩ | ⟨rfl, -⟩ := Pool.get_some hget
    · exact h.idle_of hidle hlive
    · refine ⟨.inl (by rw [(h.fresh _ (Nat.le_refl _)).1]; rfl), ?_⟩
      intro u hu
      have hin := (h.stands w.made).binds u hlive hu
      exact absurd (h.made _ (List.mem_append_right _ hin)) (Nat.lt_irrefl _)
  have hnew : w.made ∉ w.pool.nodes := fun hin => absurd (h.made _ hin) (Nat.lt_irrefl _)
  have hgrow : w.made ≤ w'.made := by
    rw [hmade]
    split
    · exact Nat.le_succ _
    · exact Nat.le_refl _
  obtain ⟨hnodup, hin, hnodes, hbusy⟩ : w'.pool.nodes.Nodup ∧
      (∀ d ∈ w'.pool.nodes, d = e ∨ d ∈ w.pool.nodes) ∧
      (∀ d ∈ w.pool.nodes, d ∈ w'.pool.nodes) ∧ w'.pool.busy = e :: w.pool.busy := by
    obtain ⟨-, hperm, hbusy, -⟩ | ⟨rfl, hperm, hbusy, -⟩ := Pool.get_some hget
    · exact ⟨hperm.nodup_iff.mpr h.nodup, fun d hd => .inr (hperm.subset hd),
        fun d hd => hperm.symm.subset hd, hbusy⟩
    · exact ⟨hperm.nodup_iff.mpr (List.nodup_cons.mpr ⟨hnew, h.nodup⟩),
        fun d hd => List.mem_cons.mp (hperm.subset hd),
        fun d hd => hperm.symm.subset (List.mem_cons_of_mem _ hd), hbusy⟩
  have hself : e ∈ w'.pool.busy := by
    rw [hbusy]
    exact List.mem_cons_self
  have hlt : e < w'.made := by
    obtain ⟨hidle, -⟩ | ⟨rfl, -⟩ := Pool.get_some hget
    · exact Nat.lt_of_lt_of_le (h.made e (List.mem_append_left _ hidle)) hgrow
    · rw [hmade, if_pos rfl]
      exact Nat.lt_succ_self _
  have hother : ∀ d, d ≠ e → d < w'.made → d < w.made := by
    intro d hd hdm
    rw [hmade] at hdm
    split at hdm
    · next he => exact Nat.lt_of_le_of_ne (Nat.le_of_lt_succ hdm) (he ▸ hd)
    · exact hdm
  refine ⟨hnodup, ?_, ?_, ?_⟩
  · intro d hd
    obtain rfl | hd := hin d hd
    · exact hlt
    · exact Nat.lt_of_lt_of_le (h.made d hd) hgrow
  · intro d hd
    rw [hexecutors]
    exact h.fresh d (Nat.le_trans hgrow hd)
  · intro d
    by_cases hd : d = e
    · subst hd
      have hx := h.stands d
      have honly : running d = .running → ∀ u, (w'.calls u).binds = some d → u = t := by
        intro hlive u hu
        by_contra hut
        rw [hcalls, Function.update_of_ne hut] at hu
        exact (hfree hlive).2 u hu
      refine ⟨fun _ _ => List.mem_append_right _ hself, ?_, ?_, ?_, ?_, fun _ _ _ => hself, ?_,
        fun _ => hself, ?_⟩
      · rw [hexecutors]
        exact hx.status
      · rw [hexecutors]
        exact hx.ended
      · rw [hexecutors]
        exact hx.serves
      · rw [hexecutors]
        intro hlive hwaits hpc
        obtain hnone | hclearing := (hfree hlive).1
        · exact absurd hnone hwaits
        · exact absurd hclearing hpc
      · intro u u' hlive hu hu'
        rw [honly hlive u hu, honly hlive u' hu']
      · rw [hexecutors]
        exact hx.pops
    · refine (h.stands d).congr (by rw [hexecutors]) rfl (hother d hd) (hnodes d) ?_ ?_
      · rw [hbusy]
        exact List.mem_cons_of_mem _
      · intro u hu
        rw [hcalls] at hu
        by_cases hut : u = t
        · rw [hut, Function.update_self, hbinds] at hu
          exact absurd (Option.some.inj hu).symm hd
        · rwa [Function.update_of_ne hut] at hu

theorem bind (h : w.Standing running) {c : Call α} {q : QueueName}
    (hgot : (w.calls t).binds = some e) (hpool : w'.pool = w.pool) (hmade : w'.made = w.made)
    (hexecutors : w'.executors = Function.update w.executors e ((w.executors e).bind q))
    (hcalls : w'.calls = Function.update w.calls t c) (hbinds : c.binds = none) :
    w'.Standing running := by
  have he : e < w.made := by
    by_contra hge
    obtain ⟨-, hlive⟩ := h.fresh e (Nat.le_of_not_lt hge)
    exact hge (h.made e (List.mem_append_right _ ((h.stands e).binds t hlive hgot)))
  have hbefore : ∀ u d, (w'.calls u).binds = some d → u ≠ t ∧ (w.calls u).binds = some d := by
    intro u d hu
    rw [hcalls] at hu
    by_cases hut : u = t
    · rw [hut, Function.update_self, hbinds] at hu
      cases hu
    · rw [Function.update_of_ne hut] at hu
      exact ⟨hut, hu⟩
  refine ⟨hpool ▸ h.nodup, hpool ▸ hmade ▸ h.made,
    h.fresh_update he hmade.ge hexecutors (fun _ _ => rfl), ?_⟩
  intro d
  by_cases hd : d = e
  · subst hd
    have hx := h.stands d
    have hself : w'.executors d = (w.executors d).bind q := by
      rw [hexecutors, Function.update_self]
    refine ⟨?_, ?_, ?_, ?_, ?_, ?_, ?_, ?_, ?_⟩
    · rw [hself, hpool, hmade]
      exact hx.linked
    · rw [hself]
      exact hx.status
    · rw [hself]
      exact hx.ended
    · rw [hself]
      exact fun _ _ => nofun
    · rw [hpool]
      intro hlive _ _
      refine ⟨hx.binds t hlive hgot, ?_⟩
      intro u hu
      obtain ⟨hut, hu⟩ := hbefore u d hu
      exact hut (hx.unique u t hlive hu hgot)
    · rw [hpool]
      exact fun u hlive hu => hx.binds u hlive (hbefore u d hu).2
    · exact fun u u' hlive hu hu' =>
        hx.unique u u' hlive (hbefore u d hu).2 (hbefore u' d hu').2
    · rw [hself, hpool]
      exact hx.works
    · rw [hself]
      exact hx.pops
  · refine (h.stands d).congr ?_ rfl (hmade ▸ id) (hpool ▸ id) (hpool ▸ id) ?_
    · rw [hexecutors, Function.update_of_ne hd]
    · exact fun u hu => (hbefore u d hu).2

theorem idled (h : w.Standing running) (hpool : w'.pool = w.pool.toIdle e)
    (hmade : w'.made = w.made)
    (hexecutors : w'.executors =
      Function.update w.executors e { w.executors e with pc := .clearing })
    (hcalls : w'.calls = w.calls)
    (hpc : (w.executors e).pc = .idling ∨ (w.executors e).pc = .idlePool) :
    w'.Standing running := by
  have hserves : (w.executors e).pc.serves = true ∧ (w.executors e).pc ≠ .clearing ∧
      (w.executors e).pc ≠ .stopped ∧ (w.executors e).pc ≠ .waiting := by
    obtain hpc | hpc := hpc
    all_goals
      rw [hpc]
      exact ⟨rfl, nofun, nofun, nofun⟩
  have he : e < w.made := by
    refine h.lt_made ?_
    intro _ hfresh
    exact hserves.2.2.2 (by rw [hfresh]; rfl)
  have hperm : w'.pool.nodes.Perm w.pool.nodes := hpool ▸ Pool.toIdle_nodes e w.pool
  refine ⟨hperm.nodup_iff.mpr h.nodup, ?_,
    h.fresh_update he hmade.ge hexecutors (fun _ _ => rfl), ?_⟩
  · intro d hd
    rw [hmade]
    exact h.made d (hperm.subset hd)
  intro d
  by_cases hd : d = e
  · subst hd
    have hx := h.stands d
    have hself : w'.executors d = { w.executors d with pc := .clearing } := by
      rw [hexecutors, Function.update_self]
    refine ⟨?_, ?_, ?_, ?_, ?_, ?_, ?_, ?_, ?_⟩
    · rw [hmade]
      exact fun hlt _ => hperm.symm.subset (hx.linked hlt hserves.2.2.1)
    · rw [hself]
      exact fun _ => nofun
    · exact fun hended => absurd (hx.ended hended) hserves.2.2.1
    · rw [hself]
      exact fun _ => nofun
    · rw [hself]
      exact fun _ _ hne => absurd rfl hne
    · -- nobody is about to bind an executor that serves a queue
      rw [hcalls]
      intro u hlive hu
      exact absurd hu ((hx.bound hlive (hx.serves hlive hserves.1) hserves.2.1).2 u)
    · rw [hcalls]
      exact hx.unique
    · rw [hself]
      nofun
    · rw [hself]
      exact fun _ => nofun
  · refine (h.stands d).congr ?_ rfl (hmade ▸ id) (fun hin => hperm.symm.subset hin) ?_ ?_
    · rw [hexecutors, Function.update_of_ne hd]
    · rw [hpool]
      exact (Pool.mem_toIdle_busy hd).mpr
    · exact fun u hu => hcalls ▸ hu

theorem released (h : w.Standing running) {force : Bool}
    (hpc : (w.executors e).pc = .releasing)
    (hrelease : w.pool.release e force = (true, w'.pool)) (hmade : w'.made = w.made)
    (hexecutors : w'.executors =
      Function.update w.executors e { w.executors e with pc := .stopped })
    (hcalls : w'.calls = w.calls) : w'.Standing (Function.update running e .stopped) := by
  obtain ⟨-, hidle, hbusy⟩ := Pool.release_true hrelease
  have hsub : w'.pool.nodes.Sublist w.pool.nodes := by
    rw [Pool.nodes, Pool.nodes, hidle, hbusy]
    exact List.erase_sublist.append (List.Sublist.refl _)
  have he : e < w.made := by
    refine h.lt_made ?_
    intro _ hfresh
    rw [hfresh] at hpc
    cases hpc
  refine ⟨h.nodup.sublist hsub, ?_,
    h.fresh_update he hmade.ge hexecutors (fun d hd => Function.update_of_ne hd _ _), ?_⟩
  · intro d hd
    rw [hmade]
    exact h.made d (hsub.subset hd)
  intro d
  by_cases hd : d = e
  · subst hd
    have hself : w'.executors d = { w.executors d with pc := .stopped } := by
      rw [hexecutors, Function.update_self]
    refine ⟨?_, ?_, ?_, ?_, ?_, ?_, ?_, ?_, ?_⟩
    · rw [hself]
      exact fun _ hne => absurd rfl hne
    · rw [Function.update_self]
      simp
    · rw [hself]
      exact fun _ => rfl
    · rw [Function.update_self]
      simp
    · rw [Function.update_self]
      simp
    · rw [Function.update_self]
      exact fun _ => (by simp)
    · rw [Function.update_self]
      simp
    · rw [hself]
      simp
    · rw [Function.update_self]
      simp
  · refine (h.stands d).congr ?_ (Function.update_of_ne hd _ _) (hmade ▸ id) ?_ (hbusy ▸ id) ?_
    · rw [hexecutors, Function.update_of_ne hd]
    · intro hin
      rw [Pool.nodes, hidle, hbusy, List.mem_append, List.mem_erase_of_ne hd]
      exact List.mem_append.mp hin
    · exact fun u hu => hcalls ▸ hu

/-- `Stop` sets `running_`. -/
theorem stop (h : w.Standing running) (he : e < w.made)
    (hfree : (w.executors e).pc.unlocked = true) :
    w.Standing (Function.update running e .isStopping) := by
  refine ⟨h.nodup, h.made, ?_, ?_⟩
  · intro d hd
    rw [Function.update_of_ne (Nat.ne_of_gt (Nat.lt_of_lt_of_le he hd))]
    exact h.fresh d hd
  intro d
  by_cases hd : d = e
  · subst hd
    have hx := h.stands d
    refine ⟨hx.linked, ?_, ?_, ?_, ?_, ?_, ?_, hx.works, ?_⟩
    · rw [Function.update_self]
      nofun
    · rw [Function.update_self]
      nofun
    · rw [Function.update_self]
      nofun
    · rw [Function.update_self]
      nofun
    · rw [Function.update_self]
      exact fun _ => nofun
    · rw [Function.update_self]
      exact fun _ _ => nofun
    · intro _ hpop
      rw [hpop] at hfree
      cases hfree
  · exact (h.stands d).congr rfl (Function.update_of_ne hd _ _) id id id (fun _ => id)

theorem act (h : w.Standing running) (hact : Act running w w') : w'.Standing running := by
  cases hact with
  | quiet hpool hbusy hmade hexecutors hbinds => exact h.quiet hpool hbusy hmade hexecutors hbinds
  | goes e x hpool hmade hexecutors hbinds hgoes => exact h.goes hpool hmade hexecutors hbinds hgoes
  | got t e force c hcall hget hmade hexecutors hcalls hbinds =>
      exact h.got hget hmade hexecutors hcalls hbinds
  | bound t e q c hgot hpool hmade hexecutors hcalls hbinds =>
      exact h.bind hgot hpool hmade hexecutors hcalls hbinds
  | idled e hpool hmade hexecutors hcalls hpc => exact h.idled hpool hmade hexecutors hcalls hpc

end Standing

/-! ### Calls -/

/-- An executor is in a call only while it runs a task. -/
def Calling (w : ExecutorPool α) : Prop :=
  ∀ e, w.calls (.executor e) ≠ .outside → ∃ job id, (w.executors e).pc = .running job id

namespace Calling

theorem outside (h : w.Calling) (hpc : ∀ job id, (w.executors e).pc ≠ .running job id) :
    w.calls (.executor e) = .outside := by
  by_contra hcall
  obtain ⟨job, id, hrunning⟩ := h e hcall
  exact hpc job id hrunning

/-- An executor goes on that is in no call. -/
theorem executor (h : w.Calling) (hout : w.calls (.executor e) = .outside)
    (hexecutors : w'.executors = Function.update w.executors e x) (hcalls : w'.calls = w.calls) :
    w'.Calling := by
  intro d hd
  rw [hcalls] at hd
  have hne : d ≠ e := by
    intro hde
    rw [hde] at hd
    exact hd hout
  rw [hexecutors, Function.update_of_ne hne]
  exact h d hd

/-- A call goes on. -/
theorem call (h : w.Calling) {c : Call α} (ht : w.calls t ≠ .outside)
    (hpc : ∀ d, (w'.executors d).pc = (w.executors d).pc)
    (hcalls : w'.calls = Function.update w.calls t c) : w'.Calling := by
  intro d hd
  rw [hcalls] at hd
  rw [hpc]
  by_cases hdt : .executor d = t
  · exact h d (hdt ▸ ht)
  · rw [Function.update_of_ne hdt] at hd
    exact h d hd

/-- A call begins, in a task if it is an executor's. -/
theorem enter (h : w.Calling) {c : Call α}
    (hrunning : ∀ d, t = .executor d → ∃ job id, (w.executors d).pc = .running job id)
    (hexecutors : w'.executors = w.executors)
    (hcalls : w'.calls = Function.update w.calls t c) : w'.Calling := by
  intro d hd
  rw [hexecutors]
  rw [hcalls] at hd
  by_cases hdt : .executor d = t
  · exact hrunning d hdt.symm
  · rw [Function.update_of_ne hdt] at hd
    exact h d hd

theorem running_of_mayCall (hmay : w.mayCall t) (d : Nat) (ht : t = .executor d) :
    ∃ job id, (w.executors d).pc = .running job id := by
  subst ht
  obtain ⟨task, id, hpc⟩ := hmay
  exact ⟨_, id, hpc⟩

theorem bound (q : QueueName) (d : Nat) :
    (Function.update w.executors e ((w.executors e).bind q) d).pc = (w.executors d).pc := by
  by_cases hd : d = e
  · rw [hd, Function.update_self]
    rfl
  · rw [Function.update_of_ne hd]

theorem step (h : w.Calling) (hstep : Step w ev w') : w'.Calling := by
  cases hstep with
  | tick hlater => exact h
  | schedule task delay interval times hcall hmay => exact h.enter (running_of_mayCall hmay) rfl rfl
  | @execute t task hcall hmay =>
      unfold ExecutorPool.execute
      cases w.execs with
      | none => exact h.enter (running_of_mayCall hmay) rfl rfl
      | some q => exact h.enter (running_of_mayCall hmay) rfl rfl
  | schedulePush hcall => exact h.call (by rw [hcall]; nofun) (fun _ => rfl) rfl
  | scheduleLock hcall hfree => exact h.call (by rw [hcall]; nofun) (fun _ => rfl) rfl
  | schedulerThere hcall hthere => exact h.call (by rw [hcall]; nofun) (fun _ => rfl) rfl
  | scheduleGet hcall hnone hget => exact h.call (by rw [hcall]; nofun) (fun _ => rfl) rfl
  | scheduleBind hcall hfree =>
      exact h.call (by rw [hcall]; nofun) (bound .delayTasks) rfl
  | scheduleUnlock hcall => exact h.call (by rw [hcall]; nofun) (fun _ => rfl) rfl
  | executePush hcall hqueue => exact h.call (by rw [hcall]; nofun) (fun _ => rfl) rfl
  | executeGet hcall hget => exact h.call (by rw [hcall]; nofun) (fun _ => rfl) rfl
  | executeRefused hcall hget => exact h.call (by rw [hcall]; nofun) (fun _ => rfl) rfl
  | executeBind hcall hfree =>
      exact h.call (by rw [hcall]; nofun) (bound .execs) rfl
  | wake hpc hbound =>
      refine h.executor (h.outside ?_) rfl rfl
      obtain hpc | hpc := hpc
      all_goals
        rw [hpc]
        exact fun _ _ => nofun
  | more hpc hwaits hqueue hsize =>
      exact h.executor (h.outside (by rw [hpc]; exact fun _ _ => nofun)) rfl rfl
  | noMore hpc hwaits hqueue hsize =>
      exact h.executor (h.outside (by rw [hpc]; exact fun _ _ => nofun)) rfl rfl
  | unbound hpc hwaits =>
      exact h.executor (h.outside (by rw [hpc]; exact fun _ _ => nofun)) rfl rfl
  | @pop e name q q' currentTask hpc hwaits hqueue hpop =>
      exact h.executor (h.outside (by rw [hpc]; exact fun _ _ => nofun)) (by cases name <;> rfl)
        (by cases name <;> rfl)
  | @runExecute e func id taskId hpc hcalls =>
      have hnext : (w.goto e (.running .nothing taskId)).Calling := h.executor hcalls rfl rfl
      refine hnext.enter ?_ rfl rfl
      intro d hd
      obtain rfl := Thread.executor.inj hd
      exact ⟨.nothing, taskId, congrArg Executor.pc (Function.update_self e _ w.executors)⟩
  | ran hpc hjob hcalls => exact h.executor hcalls rfl rfl
  | @finish e name q taskId hpc hwaits hqueue =>
      exact h.executor (h.outside (by rw [hpc]; exact fun _ _ => nofun)) (by cases name <;> rfl)
        (by cases name <;> rfl)
  | idle hpc hidle => exact h.executor (h.outside (by rw [hpc]; exact fun _ _ => nofun)) rfl rfl
  | idleLock hpc hidle hfree =>
      exact h.executor (h.outside (by rw [hpc]; exact fun _ _ => nofun)) rfl rfl
  | idleRefused hpc hsize =>
      exact h.executor (h.outside (by rw [hpc]; exact fun _ _ => nofun)) rfl rfl
  | idleAgreed hpc hsize =>
      exact h.executor (h.outside (by rw [hpc]; exact fun _ _ => nofun)) rfl rfl
  | idlePool hpc => exact h.executor (h.outside (by rw [hpc]; exact fun _ _ => nofun)) rfl rfl
  | clear hpc => exact h.executor (h.outside (by rw [hpc]; exact fun _ _ => nofun)) rfl rfl
  | timeOut hpc hwaits =>
      exact h.executor (h.outside (by rw [hpc]; exact fun _ _ => nofun)) rfl rfl
  | released hpc hrelease =>
      exact h.executor (h.outside (by rw [hpc]; exact fun _ _ => nofun)) rfl rfl
  | kept hpc hrelease =>
      exact h.executor (h.outside (by rw [hpc]; exact fun _ _ => nofun)) rfl rfl

end Calling

/-- No call goes on where there is none. -/
theorem not_call (houtside : ∀ t, w.calls t = .outside) {c : Call α} (hcall : w.calls t = c)
    (hc : c ≠ .outside) : False :=
  hc (hcall.symm.trans (houtside t))

/-- None begins where no client calls and nobody runs a task. -/
theorem not_begins (hmay : w.mayCall t)
    (hidle : ∀ e job id, (w.executors e).pc ≠ .running job id)
    (hclients : ∀ n, w'.calls (.client n) = .outside) {c : Call α}
    (hcalls : w'.calls = Function.update w.calls t c) (hc : c ≠ .outside) : False := by
  cases t with
  | client n =>
      have hbegun := hclients n
      rw [hcalls, Function.update_self] at hbegun
      exact hc hbegun
  | executor e =>
      obtain ⟨task, id, hpc⟩ := hmay
      exact hidle e _ id hpc

/-! ### The destructor -/

/-- `scheduler_` has been made. -/
theorem Step.scheduler (hstep : Step w ev w') (hmade : ∀ e, w.scheduler = some e → e < w.made)
    (hnodes : ∀ e ∈ w.pool.nodes, e < w.made) : ∀ e, w'.scheduler = some e → e < w'.made := by
  cases hstep with
  | @execute t task hcall hmay =>
      unfold ExecutorPool.execute
      cases w.execs with
      | none => exact hmade
      | some q => exact hmade
  | @scheduleGet t id e pool hcall hnone hget =>
      intro d hd
      rw [← Option.some.inj hd]
      show e < ite _ _ _
      obtain ⟨hidle, -⟩ | ⟨rfl, -⟩ := Pool.get_some hget
      · split
        · exact Nat.lt_succ_of_lt (hnodes e (List.mem_append_left _ hidle))
        · exact hnodes e (List.mem_append_left _ hidle)
      · rw [if_pos rfl]
        exact Nat.lt_succ_self _
  | executeGet hcall hget =>
      intro e he
      show e < ite _ _ _
      split
      · exact Nat.lt_succ_of_lt (hmade e he)
      · exact hmade e he
  | @pop e name q q' currentTask hpc hwaits hqueue hpop =>
      cases name with
      | delayTasks => exact hmade
      | execs => exact hmade
  | @finish e name q taskId hpc hwaits hqueue =>
      cases name with
      | delayTasks => exact hmade
      | execs => exact hmade
  | idleAgreed hpc hsize => exact fun _ => nofun
  | _ => exact hmade

/-- The first loop of `Clean` is over. -/
@[simp] def Destructor.pastBusy : Destructor → Bool
  | .idle | .stop .idle _ | .await .idle _ | .deleteExecs | .returned => true
  | _ => false

/-- The second one is over too. -/
@[simp] def Destructor.pastIdle : Destructor → Bool
  | .deleteExecs | .returned => true
  | _ => false

/-- Every busy executor is about to call `pool_.Idle`, or in the middle of it. -/
def Retiring (w : ExecutorPool α) : Prop := ∀ e ∈ w.pool.busy, (w.executors e).atPoolIdle

theorem retiring_of_nil (hbusy : w.pool.busy = []) : w.Retiring := by
  simp [Retiring, hbusy]

/-- What holds until the pool is gone. -/
structure Destruction.Lives (s : Destruction α) : Prop where
  standing : s.pool.Standing s.status
  calling : s.pool.Calling
  scheduler : ∀ e, s.pool.scheduler = some e → e < s.pool.made
  target : ∀ phase e, s.destructor = .stop phase e → e < s.pool.made
  leaves : ∀ e, s.leaving e = true → s.pc e = .stopped ∧ s.running e ≠ .stopped
  told : ∀ e, s.running e = .isStopping → ∃ phase, s.destructor = .await phase e
  clients : s.destructor ≠ .alive → ∀ n, s.pool.calls (.client n) = .outside
  retiring : s.destructor.pastBusy = true → s.pool.Retiring
  noNodes : s.destructor.pastIdle = true → s.missed = [] → s.pool.pool.nodes = []

/-- Where the busy ones all retire and no client calls, there is no call. -/
theorem calls_outside (hstanding : w.Standing running) (hcalling : w.Calling)
    (hclients : ∀ n, w.calls (.client n) = .outside) (hretiring : w.Retiring) (t : Thread) :
    w.calls t = .outside := by
  cases t with
  | client n => exact hclients n
  | executor e =>
      refine hcalling.outside ?_
      intro job id hpc
      have hat := hretiring e ((hstanding.stands e).works (by rw [hpc]; rfl))
      simp [Executor.atPoolIdle, hpc] at hat

/-- Without calls nobody gets busy, and those that retire get idle. -/
theorem Act.retiring (hact : Act running w w') (hnodup : w.pool.busy.Nodup)
    (hcalls : ∀ t, w.calls t = .outside) (hretiring : w.Retiring) :
    w'.Retiring ∧ (w.pool.nodes = [] → w'.pool.nodes = []) := by
  unfold Retiring
  cases hact with
  | quiet hpool hbusy' hmade hexecutors =>
      rw [hbusy', hexecutors, hpool]
      exact ⟨hretiring, id⟩
  | goes d x hpool hmade hexecutors hbinds hgoes =>
      rw [hpool, hexecutors]
      refine ⟨?_, id⟩
      intro e he
      have hne : e ≠ d := by
        intro hed
        exact hgoes.stays (hed ▸ hretiring e he)
      rw [Function.update_of_ne hne]
      exact hretiring e he
  | got t e force c hcall => exact absurd (hcalls t) hcall
  | bound t e q c hgot =>
      rw [hcalls t] at hgot
      cases hgot
  | idled d hpool hmade hexecutors =>
      rw [hpool, hexecutors]
      constructor
      · intro e he
        have hne : e ≠ d := by
          intro hed
          exact Pool.notMem_toIdle_busy hnodup (hed ▸ he)
        rw [Function.update_of_ne hne]
        exact hretiring e ((Pool.mem_toIdle_busy hne).mp he)
      · intro hnil
        exact List.perm_nil.mp (hnil ▸ Pool.toIdle_nodes d w.pool)

theorem Act.made_le (hact : Act running w w') : w.made ≤ w'.made := by
  cases hact with
  | quiet hpool hbusy hmade => exact hmade.ge
  | goes e x hpool hmade => exact hmade.ge
  | got t e force c hcall hget hmade =>
      rw [hmade]
      split
      · exact Nat.le_succ _
      · exact Nat.le_refl _
  | bound t e q c hgot hpool hmade => exact hmade.ge
  | idled e hpool hmade => exact hmade.ge

/-- An executor that has stopped stays so. -/
theorem Act.stopped (hact : Act running w w') (hpc : (w.executors e).pc = .stopped) :
    (w'.executors e).pc = .stopped := by
  cases hact with
  | quiet hpool hbusy hmade hexecutors => rwa [hexecutors]
  | goes d x hpool hmade hexecutors hbinds hgoes =>
      have hd : e ≠ d := by
        intro hd
        exact hgoes.stopped.1 (hd ▸ hpc)
      rwa [hexecutors, Function.update_of_ne hd]
  | got t d force c hcall hget hmade hexecutors => rwa [hexecutors]
  | bound t d q c hgot hpool hmade hexecutors =>
      rw [hexecutors, Calling.bound]
      exact hpc
  | idled d hpool hmade hexecutors hcalls hd =>
      have hne : e ≠ d := by
        intro hed
        obtain hd | hd := hd
        all_goals
          rw [← hed, hpc] at hd
          cases hd
      rwa [hexecutors, Function.update_of_ne hne]

namespace Destruction

variable {s s' : Destruction α}

theorem status_of_leaving (h : s.leaving e = true) : s.status e = .stopped := by
  rw [status, if_pos h]

theorem status_of_not_leaving (h : s.leaving e = false) : s.status e = s.running e := by
  rw [status, if_neg (by simp [h])]

/-- An executor in `Run` does not leave. -/
theorem Lives.not_leaving (h : s.Lives) (hpc : s.pc e ≠ .stopped) : s.leaving e = false := by
  rw [← Bool.not_eq_true]
  exact fun hleaving => hpc (h.leaves e hleaving).1

theorem Lives.status_eq (h : s.Lives) (hpc : s.pc e ≠ .stopped) : s.status e = s.running e :=
  status_of_not_leaving (h.not_leaving hpc)

/-- A step of the pool, with the destructor where it was. -/
theorem Lives.act (h : s.Lives) (hact : Act s.status s.pool w) (hcalling : w.Calling)
    (hscheduler : ∀ e, w.scheduler = some e → e < w.made)
    (hclients : s.destructor ≠ .alive → ∀ n, w.calls (.client n) = .outside) :
    Lives { s with pool := w } := by
  have hlists : s.destructor.pastBusy = true →
      w.Retiring ∧ (s.pool.pool.nodes = [] → w.pool.nodes = []) := by
    intro hpast
    have halive : s.destructor ≠ .alive := by
      intro halive
      rw [halive] at hpast
      cases hpast
    have hretiring := h.retiring hpast
    exact hact.retiring (List.nodup_append.mp h.standing.nodup).2.1
      (calls_outside h.standing h.calling (h.clients halive) hretiring) hretiring
  refine ⟨h.standing.act hact, hcalling, hscheduler, ?_, ?_, h.told, hclients,
    fun hpast => (hlists hpast).1, ?_⟩
  · exact fun phase e hstop => Nat.lt_of_lt_of_le (h.target phase e hstop) hact.made_le
  · intro e hleaving
    obtain ⟨hpc, hrunning⟩ := h.leaves e hleaving
    exact ⟨hact.stopped hpc, hrunning⟩
  · intro hpast hmissed
    have hbefore : s.destructor.pastBusy = true := by
      show s.destructor.pastBusy = true
      cases hd : s.destructor with
      | deleteExecs | returned => rfl
      | _ =>
          have hpast : s.destructor.pastIdle = true := hpast
          rw [hd] at hpast
          cases hpast
    exact (hlists hbefore).2 (h.noNodes hpast hmissed)

theorem not_await {d : Destructor} (hd : s.destructor = d) (hne : ∀ phase e, d ≠ .await phase e)
    (phase : Destructor.Phase) (e : Nat) (h : s.destructor = .await phase e) :
    s.running e ≠ .isStopping :=
  absurd (hd.symm.trans h) (hne phase e)

/-- The destructor goes on, and the pool has the same executors. -/
theorem Lives.destructor (h : s.Lives) {d : Destructor} {temp : UInt32} {missed : List Nat}
    (hnodes : w.pool.nodes = s.pool.pool.nodes) (hbusy : w.pool.busy = s.pool.pool.busy)
    (hmade : w.made = s.pool.made) (hexecutors : w.executors = s.pool.executors)
    (hcalls : w.calls = s.pool.calls)
    (hscheduler : ∀ e, w.scheduler = some e → e < w.made)
    (htarget : ∀ phase e, d = .stop phase e → e < w.made)
    (hclients : ∀ n, s.pool.calls (.client n) = .outside)
    (hawait : ∀ phase e, s.destructor = .await phase e → s.running e ≠ .isStopping)
    (hpastBusy : d.pastBusy = true → s.pool.Retiring)
    (hpastIdle : d.pastIdle = true → missed = [] → s.pool.pool.nodes = []) :
    Lives { s with pool := w, destructor := d, temp, missed } where
  standing := h.standing.quiet hnodes hbusy hmade hexecutors (fun t => by rw [hcalls])
  calling e he := by
    show ∃ job id, (w.executors e).pc = .running job id
    rw [hexecutors]
    exact h.calling e (hcalls ▸ he)
  scheduler := hscheduler
  target := htarget
  leaves e hleaving := by
    show (w.executors e).pc = .stopped ∧ _
    rw [hexecutors]
    exact h.leaves e hleaving
  told e hstopping := by
    obtain ⟨phase, hd⟩ := h.told e hstopping
    exact absurd hstopping (hawait phase e hd)
  clients _ n := by
    show w.calls _ = _
    rw [hcalls]
    exact hclients n
  retiring hpast e he := by
    show (w.executors e).atPoolIdle
    rw [hexecutors]
    exact hpastBusy hpast e (hbusy ▸ he)
  noNodes hpast hmissed := hnodes.trans (hpastIdle hpast hmissed)

/-- An executor that is to stop goes on. -/
theorem Lives.goes_of_stopping (h : s.Lives) {pc : Executor.Pc α} (hpc : s.pc e = pc)
    (hrunning : s.running e = .isStopping)
    (hplace : pc ≠ .stopped ∧ pc ≠ .idlePool ∧ pc ≠ .idling) (hafter : x.pc ≠ .stopped)
    (hworks : x.pc.works = false)
    (hwaits : x.waits = none ∨ (x.waits = (s.pool.executors e).waits ∧ pc ≠ .clearing)) :
    (s.pool.executors e).Goes (s.status e) x := by
  subst hpc
  have hstatus : s.status e = .isStopping := (h.status_eq hplace.1).trans hrunning
  rw [hstatus]
  refine ⟨?_, nofun, ⟨hplace.1, hafter⟩, hwaits, nofun, ?_, ?_⟩
  · rintro (hat | ⟨hat, -⟩)
    · exact hplace.2.1 hat
    · exact hplace.2.2 hat
  · intro h
    rw [hworks] at h
    cases h
  · intro h
    rw [h] at hworks
    cases hworks

theorem Lives.goes (h : s.Lives) (hpool : w.pool = s.pool.pool) (hmade : w.made = s.pool.made)
    (hexecutors : w.executors = Function.update s.pool.executors e x)
    (hcalls : w.calls = s.pool.calls) (hscheduler : ∀ e, w.scheduler = some e → e < s.pool.made)
    (hpc : ∀ job id, s.pc e ≠ .running job id)
    (hgoes : (s.pool.executors e).Goes (s.status e) x) : Lives { s with pool := w } := by
  refine h.act (.goes e x hpool hmade hexecutors (fun t => by rw [hcalls]) hgoes)
    (h.calling.executor (h.calling.outside hpc) hexecutors hcalls) (hmade ▸ hscheduler) ?_
  rw [hcalls]
  exact h.clients

theorem Lives.step (h : s.Lives) (hstep : Step s ev s') : s'.Lives := by
  cases hstep with
  | run hstep hsame hclients hrefuses =>
      refine h.act (hstep.act ?_) (h.calling.step hstep)
        (hstep.scheduler h.scheduler h.standing.made) hclients
      intro e hconsults
      refine hsame e ?_
      rwa [← h.status_eq]
      intro hpc
      rw [show (s.pool.executors e).pc = .stopped from hpc] at hconsults
      cases hconsults
  | wakesToStop hpc hrunning =>
      exact h.goes rfl rfl rfl rfl h.scheduler (by simp [hpc])
        (h.goes_of_stopping hpc hrunning (by simp) (by simp) rfl (.inr ⟨rfl, by simp⟩))
  | loopEnds hpc hrunning =>
      exact h.goes rfl rfl rfl rfl h.scheduler (by simp [hpc])
        (h.goes_of_stopping hpc hrunning (by simp) (by simp) rfl (.inr ⟨rfl, by simp⟩))
  | refusedToStop hpc hrunning hsize =>
      exact h.goes rfl rfl rfl rfl h.scheduler (by simp [hpc])
        (h.goes_of_stopping hpc hrunning (by simp) (by simp) rfl (.inr ⟨rfl, by simp⟩))
  | agreedToStop hpc hrunning hsize =>
      exact h.goes rfl rfl rfl rfl (fun _ hsome => by cases hsome) (by simp [hpc])
        (h.goes_of_stopping hpc hrunning (by simp) (by simp) rfl (.inr ⟨rfl, by simp⟩))
  | clearedToStop hpc hrunning =>
      exact h.goes rfl rfl rfl rfl h.scheduler (by simp [hpc])
        (h.goes_of_stopping hpc hrunning (by simp) (by simp) rfl (.inl rfl))
  | @released e pool hpc hrelease =>
      have hpc : (s.pool.executors e).pc = .releasing := hpc
      obtain ⟨hin, -, hbusy⟩ := Pool.release_true hrelease
      have hout := h.calling.outside (by rw [hpc]; simp)
      have hnot : s.pc e ≠ .stopped := by
        rw [pc, hpc]
        simp
      have hstatus : ({ s with pool := { s.pool with pool }.goto e .stopped }.setLeaving e
          true).status = Function.update s.status e .stopped := by
        funext d
        by_cases hd : d = e
        · rw [hd, Function.update_self]
          exact status_of_leaving (Function.update_self _ _ _)
        · rw [Function.update_of_ne hd]
          simp only [status, setLeaving, Function.update_of_ne hd]
      refine ⟨hstatus ▸ h.standing.released hpc hrelease rfl rfl rfl,
        h.calling.executor hout rfl rfl, h.scheduler, h.target, ?_, h.told, h.clients,
        ?_, ?_⟩
      · intro d hleaving
        by_cases hd : d = e
        · subst hd
          refine ⟨congrArg Executor.pc (Function.update_self d _ s.pool.executors), ?_⟩
          intro hstopped
          exact hnot ((h.standing.stands d).ended ((h.status_eq hnot).trans hstopped))
        · have hleft := (Function.update_of_ne hd _ _).symm.trans hleaving
          obtain ⟨hended, hrunning⟩ := h.leaves d hleft
          exact ⟨(congrArg Executor.pc (Function.update_of_ne hd _ s.pool.executors)).trans hended,
            hrunning⟩
      · intro hpast d hd
        have hat := h.retiring hpast d (hbusy ▸ hd)
        have hne : d ≠ e := by
          rintro rfl
          simp [Executor.atPoolIdle, hpc] at hat
        show (Function.update s.pool.executors e _ d).atPoolIdle
        rw [Function.update_of_ne hne]
        exact hat
      · intro hpast hmissed
        have hnil := h.noNodes hpast hmissed
        rw [Pool.nodes, List.append_eq_nil_iff] at hnil
        rw [hnil.1] at hin
        cases hin
  | @stopped e hleaving =>
      have hstatus : ((s.setLeaving e false).setRunning e .stopped).status = s.status := by
        funext d
        by_cases hd : d = e
        · rw [hd, status_of_leaving hleaving]
          exact (status_of_not_leaving (Function.update_self _ _ _)).trans
            (Function.update_self _ _ _)
        · simp only [status, setLeaving, setRunning, Function.update_of_ne hd]
      refine ⟨hstatus ▸ h.standing, h.calling, h.scheduler, h.target, ?_, ?_, h.clients, h.retiring,
        h.noNodes⟩
      · intro d hd
        by_cases hde : d = e
        · rw [hde] at hd
          exact absurd ((Function.update_self e _ s.leaving).symm.trans hd) (by simp)
        · obtain ⟨hended, hrunning⟩ := h.leaves d ((Function.update_of_ne hde _ _).symm.trans hd)
          exact ⟨hended, fun h => hrunning ((Function.update_of_ne hde _ _).symm.trans h)⟩
      · intro d hd
        by_cases hde : d = e
        · rw [hde] at hd
          exact absurd ((Function.update_self e _ s.running).symm.trans hd) (by simp)
        · exact h.told d ((Function.update_of_ne hde _ _).symm.trans hd)
  | @kept e pool hpc hrelease =>
      have hpc : (s.pool.executors e).pc = .releasing := hpc
      exact h.goes (Pool.release_false hrelease) rfl rfl rfl h.scheduler
        (by rw [pc, hpc]; simp)
        ⟨by simp [Executor.atPoolIdle, hpc], fun _ => .inl (by rw [hpc]; simp),
          ⟨by rw [hpc]; simp, (by simp)⟩,
          .inr ⟨rfl, by rw [hpc]; simp⟩, by simp [Executor.Pc.serves], by simp, by simp⟩
  | destroy hd hclients =>
      exact h.destructor rfl rfl rfl rfl rfl h.scheduler (fun _ _ => by simp) hclients
        (not_await hd (by simp)) (by simp) (by simp)
  | cleanExecs hd =>
      exact h.destructor rfl rfl rfl rfl rfl h.scheduler (fun _ _ => by simp)
        (h.clients (by rw [hd]; simp)) (not_await hd (by simp)) (by simp) (by simp)
  | cleanDelayTasks hd =>
      exact h.destructor rfl rfl rfl rfl rfl h.scheduler (fun _ _ => by simp)
        (h.clients (by rw [hd]; simp)) (not_await hd (by simp)) (by simp) (by simp)
  | takeScheduler hd hfree =>
      have hclients := h.clients (by rw [hd]; simp)
      cases hscheduler : s.pool.scheduler with
      | none =>
          exact h.destructor rfl rfl rfl rfl rfl (fun _ hsome => by cases hsome)
            (fun _ _ => by simp) hclients (not_await hd (by simp)) (by simp) (by simp)
      | some e =>
          refine h.destructor rfl rfl rfl rfl rfl (fun _ hsome => by cases hsome) ?_ hclients
            (not_await hd (by simp)) (by simp) (by simp)
          intro phase d hstop
          rw [← (Destructor.stop.inj hstop).2]
          exact h.scheduler e hscheduler
  | @stop phase e hd hfree hleft =>
      have hstatus : ({ s with destructor := .await phase e }.setRunning e .isStopping).status =
          Function.update s.status e .isStopping := by
        funext d
        by_cases hd : d = e
        · rw [hd, Function.update_self, status, if_neg (by simp [setRunning, hleft])]
          exact Function.update_self _ _ _
        · rw [Function.update_of_ne hd]
          simp only [status, setRunning, Function.update_of_ne hd]
      refine ⟨hstatus ▸ h.standing.stop (h.target phase e hd) hfree, h.calling, h.scheduler,
        (fun _ _ hstop => by cases hstop), ?_, ?_, fun _ => h.clients (by rw [hd]; simp), ?_,
        (fun hpast => by cases hpast)⟩
      · intro d hleaving
        have hde : d ≠ e := by
          rintro rfl
          exact absurd (hleft.symm.trans hleaving) (by simp)
        obtain ⟨hended, hrunning⟩ := h.leaves d hleaving
        exact ⟨hended, fun h => hrunning ((Function.update_of_ne hde _ _).symm.trans h)⟩
      · intro d hstopping
        by_cases hde : d = e
        · exact ⟨phase, by rw [hde]; rfl⟩
        · obtain ⟨phase', hawait⟩ := h.told d ((Function.update_of_ne hde _ _).symm.trans hstopping)
          exact absurd (hd.symm.trans hawait) (by simp)
      · intro hpast
        refine h.retiring ?_
        rw [hd]
        cases phase with
        | idle => rfl
        | _ => cases hpast
  | @awaited phase e hd hrunning =>
      refine h.destructor rfl rfl rfl rfl rfl h.scheduler ?_ (h.clients (by rw [hd]; simp)) ?_ ?_ ?_
      · cases phase with
        | _ => simp
      · intro phase' d hawait
        obtain ⟨-, rfl⟩ := Destructor.await.inj (hd.symm.trans hawait)
        rw [hrunning]
        simp
      · intro hpast
        refine h.retiring ?_
        rw [hd]
        cases phase with
        | idle => rfl
        | _ => cases hpast
      · cases phase with
        | _ => simp
  | clean hd =>
      exact h.destructor rfl rfl rfl rfl rfl h.scheduler (fun _ _ => by simp)
        (h.clients (by rw [hd]; simp)) (not_await hd (by simp)) (by simp) (by simp)
  | @busyThere e rest hd hbusy =>
      refine h.destructor rfl rfl rfl rfl rfl h.scheduler ?_ (h.clients (by rw [hd]; simp))
        (not_await hd (by simp)) (by simp) (by simp)
      intro phase d hstop
      rw [← (Destructor.stop.inj hstop).2]
      refine h.standing.made e (List.mem_append_right _ ?_)
      rw [hbusy]
      exact List.mem_cons_self
  | busyNone hd hbusy =>
      exact h.destructor rfl rfl rfl rfl rfl h.scheduler (fun _ _ => by simp)
        (h.clients (by rw [hd]; simp)) (not_await hd (by simp))
        (fun _ => retiring_of_nil hbusy) (by simp)
  | @busyMissed e hd hbusy hidle =>
      refine h.destructor rfl rfl rfl rfl rfl h.scheduler (fun _ _ => by simp)
        (h.clients (by rw [hd]; simp)) (not_await hd (by simp)) (fun _ => ?_) (by simp)
      intro d hin
      rw [hbusy, List.mem_singleton] at hin
      rw [hin]
      exact hidle
  | @idleThere e rest hd hidle =>
      refine h.destructor rfl rfl rfl rfl rfl h.scheduler ?_ (h.clients (by rw [hd]; simp))
        (not_await hd (by simp)) (fun _ => h.retiring (by rw [hd]; rfl)) (by simp)
      intro phase d hstop
      rw [← (Destructor.stop.inj hstop).2]
      refine h.standing.made e (List.mem_append_left _ ?_)
      rw [hidle]
      exact List.mem_cons_self
  | idleNone hd hidle =>
      refine h.destructor rfl rfl rfl rfl rfl h.scheduler (fun _ _ => by simp)
        (h.clients (by rw [hd]; simp)) (not_await hd (by simp))
        (fun _ => h.retiring (by rw [hd]; rfl)) ?_
      intro hpast hbusy
      rw [Pool.nodes, hidle, hbusy]
      rfl
  | deleteExecs hd =>
      exact h.destructor rfl rfl rfl rfl rfl h.scheduler (fun _ _ => by simp)
        (h.clients (by rw [hd]; simp)) (not_await hd (by simp))
        (fun _ => h.retiring (by rw [hd]; rfl)) (fun _ => h.noNodes (by rw [hd]; rfl))

theorem lives_initial (max min : UInt64) : (initial max min : Destruction α).Lives := by
  refine ⟨⟨List.nodup_nil, fun e he => absurd he List.not_mem_nil, fun _ _ => ⟨rfl, rfl⟩, ?_⟩,
    fun e he => absurd rfl he, fun _ => nofun, fun _ _ => nofun, fun _ => nofun, fun _ => nofun,
    fun hne => absurd rfl hne, nofun, nofun⟩
  intro e
  exact ⟨nofun, fun _ => nofun, nofun, fun _ => nofun, fun _ hwaits => absurd rfl hwaits,
    fun _ _ => nofun, fun _ _ _ => nofun, nofun, nofun⟩

theorem Lives.run {ls : List Event} (h : s.Lives) (hrun : Run Step s ls s') : s'.Lives :=
  hrun.invariant (fun _ _ _ h hstep => h.step hstep) h

/-! ### Runs of one executor -/

/-- A step that does not depend on `running_`, where only the first executor has been made. -/
theorem Step.run_first (hstep : ExecutorPool.Step s.pool ev w)
    (hpc : (s.pc 0).consults (s.running 0) = false)
    (hothers : ∀ e, w.executors (e + 1) = s.pool.executors (e + 1))
    (hclients : s.destructor ≠ .alive → ∀ n, w.calls (.client n) = .outside)
    (hrefuses : s.destructor ≠ .alive → Refuses s.pool w) : Step s ev { s with pool := w } := by
  refine .run hstep ?_ hclients hrefuses
  intro e he
  cases e with
  | zero =>
      rw [hpc] at he
      cases he
  | succ e => exact hothers e

theorem Step.run_alive (hstep : ExecutorPool.Step s.pool ev w) (halive : s.destructor = .alive)
    (hpc : (s.pc 0).consults (s.running 0) = false)
    (hothers : ∀ e, w.executors (e + 1) = s.pool.executors (e + 1)) :
    Step s ev { s with pool := w } :=
  .run_first hstep hpc hothers (fun hne => absurd halive hne) (fun hne => absurd halive hne)

/-- A pool of one executor, which has just been bound to a task. -/
def scheduled (interval : Int) : Destruction Unit where
  pool :=
    { (ExecutorPool.initial 1 0 : ExecutorPool Unit) with
      taskId := 1
      pool := ⟨1, 0, 1, [], [0]⟩
      delayTasks :=
        (PriorityQueue.empty.push InnerTask.valid ⟨.user (), interval, unlimitedTimes, 1⟩ 1 0).2
      scheduler := some 0
      executors := Function.update (fun _ => .fresh) 0 (Executor.fresh.bind .delayTasks)
      made := 1 }
  running := fun _ => .running
  leaving := fun _ => false
  destructor := .alive
  temp := 0
  missed := []

theorem scheduled_reached (interval : Int) :
    ∃ ls, Run Step (initial 1 0) ls (scheduled interval) := by
  have hstart : Run Step (initial 1 0 : Destruction Unit) [] (initial 1 0) := .nil
  have hcall := hstart.snoc (.run_alive
    (.schedule (t := .client 0) () 0 interval unlimitedTimes rfl trivial) rfl rfl (fun _ => rfl))
  have hpush := hcall.snoc (.run_alive (.schedulePush (t := .client 0) rfl) rfl rfl (fun _ => rfl))
  have hlock := hpush.snoc
    (.run_alive (.scheduleLock (t := .client 0) rfl rfl) rfl rfl (fun _ => rfl))
  have hget := hlock.snoc
    (.run_alive (.scheduleGet (t := .client 0) rfl rfl rfl) rfl rfl (fun _ => rfl))
  have hbind := hget.snoc
    (.run_alive (.scheduleBind (t := .client 0) rfl rfl) rfl rfl (fun _ => rfl))
  have hend := hbind.snoc
    (.run_alive (.scheduleUnlock (t := .client 0) rfl) rfl rfl (fun _ => rfl))
  refine ⟨_, (congrArg (Run Step _ _) ?_).mp hend⟩
  refine (congrArg (fun calls =>
    { scheduled interval with pool := { (scheduled interval).pool with calls } }) ?_ :)
  funext t
  by_cases ht : t = .client 0
  · rw [ht]
    rfl
  · simp only [setCall, schedule, afterGet, setExecutor, Function.update_of_ne ht]
    rfl

end Destruction

end ExecutorPool

end NativePreferences
