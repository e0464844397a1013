import Mathlib.Data.Finset.Insert
import Mathlib.Data.Finset.Erase
import NativePreferences.Enhance.MissingCollection
import NativePreferences.Lib.Transition

/-!
# NativePreferences.Enhance.Handles

**The handle `db_`** over the lives of any number of `PreferencesDb` objects. A handle is open from
the call of `DbOpenApi` that yields it to the call of `DbCloseApi` that closes it, and a call is in
order if its handle is open.

`db_` always is `nullptr` or an open handle (`Owned`), so what may go wrong is a call with
`nullptr`. There are three places where nobody looks:

* the destructor tests `db_ != nullptr || DbCloseApi != nullptr`, and closes `nullptr` where the
  database is closed or was never opened;
* after a successful repair `Init` goes on without opening the database again;
* `CreateCollection`.
-/

namespace NativePreferences.Grd

open Lib Grd.PreferencesDb

variable {H : Type} {api : Api → Bool} {db db' : Option H} {tr tr' : Trace H}

/-! ### Calls on one handle -/

/-- Calls that neither open, close nor repair, and take no other handle. -/
def Call.OnHandle (db : Option H) : Call H → Prop
  | .dbOpen _ | .dbClose _ | .dbRepair => False
  | c => ∀ db', c.handle = some db' → db' = db

theorem Call.OnHandle.handle_eq {c : Call H} (h : c.OnHandle db)
    (hdb : c.handle = some db') : db' = db := by
  cases c with
  | dbOpen | dbClose | dbRepair => exact absurd h id
  | _ => exact h db' hdb

/-- A successful repair. -/
def repaired : Event (Answer (H := H)) := ⟨.dbRepair, grdOk⟩

theorem createCollection_onHandle :
    (createCollection api db).OnlyCalls (fun c => c.OnHandle db) := by
  rw [createCollection]
  split
  · trivial
  · refine Program.onlyCalls_bind (Program.onlyCalls_op ?_) (fun _ => trivial)
    simp [Call.OnHandle, Call.handle]

theorem initCollection_onHandle :
    (initCollection api db).OnlyCalls (fun c => c.OnHandle db) := by
  refine Program.onlyCalls_bind createCollection_onHandle ?_
  intro _
  refine Program.onlyCalls_bind (Program.onlyCalls_op ?_) (fun _ => trivial)
  simp [Call.OnHandle, Call.handle]

theorem not_repaired_of_onHandle (h : ∀ ev ∈ tr, ev.1.OnHandle db) : repaired ∉ tr := by
  intro hev
  exact h _ hev

theorem Request.onHandle (q : Request) : (q.run api db).OnlyCalls (fun c => c.OnHandle db) := by
  rcases q.run_cases api db with ⟨res, hret, -⟩ | hloop
  · rw [hret]
    trivial
  · refine hloop.onlyCalls ?_ ?_ ?_
    · intro c hc hdb
      cases c <;> simp_all [Call.isAttempt, Call.OnHandle]
    · simp [Call.OnHandle, Call.handle]
    · intro c hc
      cases c <;> simp_all [Call.OnResult, Call.OnHandle, Call.handle]

theorem dropCollection_onHandle :
    (dropCollection api db).OnlyCalls (fun c => c.OnHandle db) := by
  rw [dropCollection]
  split
  · trivial
  split
  · trivial
  · refine Program.onlyCalls_bind (Program.onlyCalls_op ?_) (fun _ => trivial)
    simp [Call.OnHandle, Call.handle]

/-! ### Objects -/

variable {ι : Type}

/-- The objects that exist, each with its `db_`, and the open handles. -/
structure Process (ι H : Type) where
  objects : ι → Option (Option H)
  handles : Finset H

/-- No object, and no open handle. -/
def Process.initial : Process ι H := { objects := fun _ => none, handles := ∅ }

/-- Every `db_` is `nullptr` or an open handle, and no two objects have the same. -/
structure Owned (s : Process ι H) : Prop where
  isOpen : ∀ i handle, s.objects i = some (some handle) → handle ∈ s.handles
  own : ∀ i j handle, s.objects i = some (some handle) → s.objects j = some (some handle) → i = j

theorem owned_initial : Owned (Process.initial : Process ι H) := by
  constructor <;> simp [Process.initial]

/-- What has to be seen of the object that a step changes, and of the others. -/
theorem owned_update [DecidableEq ι] {s : Process ι H} {i : ι} {x : Option (Option H)}
    {handles : Finset H}
    (hself : ∀ handle, x = some (some handle) → handle ∈ handles)
    (hothers : ∀ j handle, j ≠ i → s.objects j = some (some handle) →
      handle ∈ handles ∧ x ≠ some (some handle)) (ho : Owned s) :
    Owned { objects := Function.update s.objects i x, handles := handles } := by
  constructor
  · intro j handle (hj : Function.update s.objects i x j = some (some handle))
    by_cases hji : j = i
    · subst hji
      rw [Function.update_self] at hj
      exact hself handle hj
    · rw [Function.update_of_ne hji] at hj
      exact (hothers j handle hji hj).1
  · intro j k handle (hj : Function.update s.objects i x j = some (some handle))
      (hk : Function.update s.objects i x k = some (some handle))
    by_cases hji : j = i
    · by_cases hki : k = i
      · exact hji.trans hki.symm
      · rw [hji, Function.update_self] at hj
        rw [Function.update_of_ne hki] at hk
        exact absurd hj (hothers k handle hki hk).2
    · rw [Function.update_of_ne hji] at hj
      by_cases hki : k = i
      · rw [hki, Function.update_self] at hk
        exact absurd hk (hothers j handle hji hj).2
      · rw [Function.update_of_ne hki] at hk
        exact ho.own j k handle hj hk

/-! ### Open handles -/

variable [DecidableEq H] {handles handles' : Finset H} {ev : Event (Answer (H := H))} {code : Int}

/-- The open handles after a call. -/
def openAfter (handles : Finset H) : Event (Answer (H := H)) → Finset H
  | ⟨.dbOpen _, (_, some db)⟩ => insert db handles
  | ⟨.dbClose (some db), errCode⟩ => if errCode = grdOk then handles.erase db else handles
  | _ => handles

/-- The open handles after some calls. -/
def openHandles (handles : Finset H) (tr : Trace H) : Finset H := tr.foldl openAfter handles

/-- A call with a handle is made with an open one. -/
def InOrder (handles : Finset H) (ev : Event (Answer (H := H))) : Prop :=
  ∀ db, ev.1.handle = some db → ∃ handle ∈ handles, db = some handle

/-- All calls with a handle are made with one that was opened before and not closed since. -/
def AllInOrder (handles : Finset H) (tr : Trace H) : Prop :=
  ∀ before ev after, tr = before ++ ev :: after → InOrder (openHandles handles before) ev

/-- A kernel that hands out a new handle if `DbOpenApi` says `GRD_OK` or `GRD_REBUILD_DATABASE`, and
only then. Its answers may be any otherwise. -/
def handleKernel : Sem (Call H) Answer (Finset H)
  | .dbOpen flags, handles, r, handles' =>
      (r.2.isSome ↔ r.1 = grdOk ∨ r.1 = grdRebuildDatabase) ∧ (∀ db, r.2 = some db → db ∉ handles) ∧
        handles' = openAfter handles ⟨.dbOpen flags, r⟩
  | c, handles, r, handles' => handles' = openAfter handles ⟨c, r⟩

theorem allInOrder_nil (handles : Finset H) : AllInOrder handles [] := by
  intro before ev after heq
  exact absurd heq.symm (List.append_ne_nil_of_right_ne_nil _ (List.cons_ne_nil _ _))

theorem allInOrder_cons : AllInOrder handles (ev :: tr) ↔
    InOrder handles ev ∧ AllInOrder (openAfter handles ev) tr := by
  constructor
  · intro h
    refine ⟨h [] ev tr rfl, ?_⟩
    intro before ev' after heq
    exact h (ev :: before) ev' after (by rw [heq]; rfl)
  · intro ⟨hev, htr⟩ before ev' after heq
    cases before with
    | nil =>
        obtain ⟨rfl, -⟩ := List.cons.inj heq
        exact hev
    | cons first before =>
        obtain ⟨rfl, hrest⟩ := List.cons.inj heq
        exact htr before ev' after hrest

theorem allInOrder_append : AllInOrder handles (tr ++ tr') ↔
    AllInOrder handles tr ∧ AllInOrder (openHandles handles tr) tr' := by
  induction tr generalizing handles with
  | nil => simp [allInOrder_nil, openHandles]
  | cons ev tr ih =>
      rw [List.cons_append, allInOrder_cons, allInOrder_cons, ih, and_assoc]
      rfl

theorem handleKernel_open {c : Call H} {r : Answer c} (h : handleKernel c handles r handles') :
    handles' = openAfter handles ⟨c, r⟩ := by
  cases c with
  | dbOpen flags => exact h.2.2
  | _ => exact h

theorem exec_openHandles {α : Type} {p : GrdProgram H α} {a : α}
    (h : Exec handleKernel p handles tr a handles') : handles' = openHandles handles tr := by
  induction h with
  | ret => rfl
  | call hs _ ih =>
      rw [ih, handleKernel_open hs]
      rfl

/-! ### Which calls are in order -/

/-- One call with `nullptr` is enough. -/
theorem not_allInOrder_of_null (hev : ev ∈ tr) (hnull : ev.1.handle = some none) :
    ¬ AllInOrder handles tr := by
  intro h
  obtain ⟨before, after, rfl⟩ := List.append_of_mem hev
  obtain ⟨handle, -, heq⟩ := h before ev after rfl none hnull
  exact absurd heq (by simp)

theorem allInOrder_of_no_handle (h : ∀ ev ∈ tr, ev.1.handle = none) : AllInOrder handles tr := by
  intro before ev after heq db hdb
  rw [h ev (by simp [heq])] at hdb
  exact absurd hdb (by simp)

theorem openAfter_of_onHandle {db : Option H} (h : ev.1.OnHandle db) :
    openAfter handles ev = handles := by
  obtain ⟨c, r⟩ := ev
  cases c with
  | dbOpen | dbClose => exact absurd h id
  | _ => rfl

theorem openHandles_of_onHandle {db : Option H} (h : ∀ ev ∈ tr, ev.1.OnHandle db) :
    openHandles handles tr = handles := by
  induction tr with
  | nil => rfl
  | cons ev tr ih =>
      have hrest := ih (fun ev' hev' => h ev' (List.mem_cons_of_mem _ hev'))
      rw [openHandles, List.foldl_cons, openAfter_of_onHandle (h ev List.mem_cons_self)]
      exact hrest

theorem allInOrder_of_onHandle {handle : H} (hopen : handle ∈ handles)
    (h : ∀ ev ∈ tr, ev.1.OnHandle (some handle)) : AllInOrder handles tr := by
  intro before ev after heq db hdb
  have hbefore : openHandles handles before = handles :=
    openHandles_of_onHandle fun ev' hev' => h ev' (by simp [heq, hev'])
  rw [hbefore]
  exact ⟨handle, hopen, (h ev (by simp [heq])).handle_eq hdb⟩

/-! ### What the functions do to the handle -/

/-- What a function does to `db_` and to the open handles. -/
inductive Effect (db : Option H) (handles : Finset H) (db' : Option H) (handles' : Finset H) : Prop
  | none (hdb : db' = db) (hhandles : handles' = handles)
  | opened (handle : H) (hdb : db = .none) (hnew : handle ∉ handles) (hdb' : db' = some handle)
      (hhandles : handles' = insert handle handles)
  | closed (handle : H) (hdb : db = some handle) (hdb' : db' = .none)
      (hhandles : handles' = handles.erase handle)

theorem exec_openDb {isNeedRebuild : Bool}
    (h : Exec handleKernel (openDb api none isNeedRebuild) handles tr (code, db') handles') :
    (∀ ev ∈ tr, ev.1.handle = none ∧ ev ≠ repaired) ∧
      ((db' = none ∧ handles' = handles ∧ code ≠ grdOk ∧ code ≠ grdRebuildDatabase) ∨
        ∃ handle, handle ∉ handles ∧ db' = some handle ∧ handles' = insert handle handles ∧
          (code = grdOk ∨ code = grdRebuildDatabase)) := by
  rw [openDb] at h
  split at h
  · obtain ⟨rfl, heq, rfl⟩ := exec_ret_iff.mp h
    obtain ⟨rfl, rfl⟩ := Prod.mk.inj heq
    exact ⟨by simp, .inl ⟨rfl, rfl, by decide, by decide⟩⟩
  · obtain ⟨tr₁, ⟨errCode, handle⟩, handles₁, tr₂, hop, hret, rfl⟩ := exec_bind_iff.mp h
    obtain ⟨⟨hyield, hnew, rfl⟩, rfl⟩ := exec_op_iff.mp hop
    obtain ⟨rfl, heq, rfl⟩ := exec_ret_iff.mp hret
    obtain ⟨rfl, rfl⟩ := Prod.mk.inj heq
    refine ⟨by simp [Call.handle, repaired], ?_⟩
    cases handle with
    | none =>
        have hnot := (not_congr hyield).mp (by simp)
        exact .inl ⟨rfl, rfl, not_or.mp hnot⟩
    | some handle => exact .inr ⟨handle, hnew handle rfl, rfl, rfl, hyield.mp rfl⟩

theorem exec_repairDb (h : Exec handleKernel (repairDb api) handles tr code handles') :
    handles' = handles ∧ (∀ ev ∈ tr, ev.1.handle = none) ∧ (code = grdOk ↔ repaired ∈ tr) := by
  rw [repairDb] at h
  split at h
  · obtain ⟨rfl, rfl, rfl⟩ := exec_ret_iff.mp h
    exact ⟨rfl, by simp, by simp [eError, eBase, grdOk]⟩
  · obtain ⟨rfl, rfl⟩ := exec_op_iff.mp h
    refine ⟨rfl, by simp [Call.handle], ?_⟩
    rw [List.mem_singleton, repaired]
    constructor
    · intro hok
      rw [hok]
    · intro heq
      exact (eq_of_heq (Sigma.mk.inj heq).2).symm

theorem exec_repairLoop {n : Nat} {success : Bool}
    (h : Exec handleKernel (repairLoop api n) handles tr success handles') :
    handles' = handles ∧ (∀ ev ∈ tr, ev.1.handle = none) ∧ (success = true ↔ repaired ∈ tr) := by
  induction n generalizing tr handles with
  | zero =>
      obtain ⟨rfl, rfl, rfl⟩ := exec_ret_iff.mp h
      exact ⟨rfl, by simp, by simp⟩
  | succ n ih =>
      obtain ⟨tr₁, innerErr, handles₁, tr₂, hrepair, hrest, rfl⟩ := exec_bind_iff.mp h
      obtain ⟨rfl, hnone, hok⟩ := exec_repairDb hrepair
      by_cases hsuccess : innerErr = grdOk
      · rw [if_pos hsuccess] at hrest
        obtain ⟨rfl, rfl, rfl⟩ := exec_ret_iff.mp hrest
        rw [List.append_nil]
        exact ⟨rfl, hnone, iff_of_true rfl (hok.mp hsuccess)⟩
      · have hnot : repaired ∉ tr₁ := fun hmem => hsuccess (hok.mpr hmem)
        rw [if_neg hsuccess] at hrest
        split at hrest
        · -- busy: once more
          obtain ⟨rfl, hnone₂, hrepaired⟩ := ih hrest
          refine ⟨rfl, ?_, ?_⟩
          · intro ev hev
            exact (List.mem_append.mp hev).elim (hnone ev) (hnone₂ ev)
          · rw [hrepaired, List.mem_append, or_iff_right hnot]
        · obtain ⟨rfl, rfl, rfl⟩ := exec_ret_iff.mp hrest
          rw [List.append_nil]
          exact ⟨rfl, hnone, iff_of_false (by simp) hnot⟩

/-- The end of `Init` preloads the index with whatever `db_` is. -/
theorem exec_initCollection_null
    (h : Exec handleKernel (initCollection api none) handles tr code handles') :
    ¬ AllInOrder handles tr := by
  obtain ⟨tr₁, _, handles₁, tr₂, -, hpreload, rfl⟩ := exec_bind_iff.mp h
  obtain ⟨r, -, rfl, -⟩ := exec_op_translated hpreload
  exact not_allInOrder_of_null (List.mem_append_right _ List.mem_cons_self) rfl

theorem exec_initCollection_open {handle : H} (hopen : handle ∈ handles)
    (h : Exec handleKernel (initCollection api (some handle)) handles tr code handles') :
    handles' = handles ∧ AllInOrder handles tr ∧ repaired ∉ tr := by
  have hcalls := h.onlyCalls initCollection_onHandle
  refine ⟨?_, allInOrder_of_onHandle hopen hcalls, not_repaired_of_onHandle hcalls⟩
  rw [exec_openHandles h, openHandles_of_onHandle hcalls]

/-- `TryRepairAndRebuild` opens the database only by rebuilding it. -/
theorem exec_tryRepairAndRebuild
    (h : Exec handleKernel (tryRepairAndRebuild api none) handles tr (code, db') handles') :
    (∀ ev ∈ tr, ev.1.handle = none) ∧
      ((db' = none ∧ handles' = handles ∧ (code = grdOk ↔ repaired ∈ tr)) ∨
        ∃ handle, handle ∉ handles ∧ db' = some handle ∧ handles' = insert handle handles ∧
          repaired ∉ tr) := by
  obtain ⟨tr₁, success, handles₁, tr₂, hloop, hrest, rfl⟩ := exec_bind_iff.mp h
  obtain ⟨rfl, hnone, hrepaired⟩ := exec_repairLoop hloop
  cases success with
  | true =>
      obtain ⟨rfl, heq, rfl⟩ := exec_ret_iff.mp hrest
      obtain ⟨rfl, rfl⟩ := Prod.mk.inj heq
      rw [List.append_nil]
      exact ⟨hnone, .inl ⟨rfl, rfl, iff_of_true rfl (hrepaired.mp rfl)⟩⟩
  | false =>
      have hnot : repaired ∉ tr₁ := fun hmem => absurd (hrepaired.mpr hmem) (by simp)
      obtain ⟨tr₃, ⟨innerErr, db₁⟩, handles₂, tr₄, hopen, hret, rfl⟩ := exec_bind_iff.mp hrest
      obtain ⟨hcalls, hyield⟩ := exec_openDb hopen
      have htr : tr₄ = [] ∧ db' = db₁ ∧ handles' = handles₂ ∧
          (code = grdOk ↔ innerErr = grdOk ∨ innerErr = grdRebuildDatabase) := by
        dsimp only at hret
        split at hret
        · rename_i hcode
          obtain ⟨rfl, heq, rfl⟩ := exec_ret_iff.mp hret
          obtain ⟨rfl, rfl⟩ := Prod.mk.inj heq
          exact ⟨rfl, rfl, rfl, iff_of_true rfl hcode⟩
        · rename_i hcode
          obtain ⟨rfl, heq, rfl⟩ := exec_ret_iff.mp hret
          obtain ⟨rfl, rfl⟩ := Prod.mk.inj heq
          exact ⟨rfl, rfl, rfl, iff_of_false (fun hok => hcode (.inl hok)) hcode⟩
      obtain ⟨rfl, rfl, rfl, hcode⟩ := htr
      have hnorepair : repaired ∉ tr₁ ++ (tr₃ ++ []) := by
        simp only [List.append_nil, List.mem_append, not_or]
        exact ⟨hnot, fun hmem => (hcalls _ hmem).2 rfl⟩
      refine ⟨?_, ?_⟩
      · intro ev hev
        simp only [List.append_nil, List.mem_append] at hev
        exact hev.elim (hnone ev) (fun hmem => (hcalls ev hmem).1)
      · rcases hyield with ⟨rfl, rfl, hok, hrebuild⟩ | ⟨handle, hnew, hdb, hhandles, -⟩
        · refine .inl ⟨rfl, rfl, iff_of_false ?_ hnorepair⟩
          rw [hcode]
          exact not_or.mpr ⟨hok, hrebuild⟩
        · exact .inr ⟨handle, hnew, hdb, hhandles, hnorepair⟩

/-- `Init` after the database has been opened. -/
theorem exec_init_opened {handle : H} (hnone : ∀ ev ∈ tr, ev.1.handle = none)
    (hrepair : repaired ∉ tr) (hhandles : openHandles handles tr = insert handle handles)
    (h : Exec handleKernel (do
      let errCode ← initCollection api (some handle)
      return (errCode, some handle)) (insert handle handles) tr' (code, db') handles') :
    db' = some handle ∧ handles' = insert handle handles ∧ AllInOrder handles (tr ++ tr') ∧
      repaired ∉ tr ++ tr' := by
  obtain ⟨tr₁, errCode, handles₁, tr₂, hcollection, hret, rfl⟩ := exec_bind_iff.mp h
  obtain ⟨rfl, heq, rfl⟩ := exec_ret_iff.mp hret
  obtain ⟨rfl, hinOrder, hnot⟩ := exec_initCollection_open (Finset.mem_insert_self _ _) hcollection
  rw [List.append_nil, allInOrder_append, hhandles]
  refine ⟨(Prod.mk.inj heq).2, rfl, ⟨allInOrder_of_no_handle hnone, hinOrder⟩, ?_⟩
  intro hmem
  exact (List.mem_append.mp hmem).elim hrepair hnot

/-- `Init` after the database was found corrupted. After a successful repair it goes on with
`nullptr`. -/
theorem exec_init_corrupted
    (h : Exec handleKernel (do
      let (innerErr, db) ← tryRepairAndRebuild api none
      if innerErr ≠ grdOk then return (transferGrdErrno innerErr, db)
      else
        let errCode ← initCollection api db
        return (errCode, db)) handles tr (code, db') handles') :
    Effect none handles db' handles' ∧ (AllInOrder handles tr ↔ repaired ∉ tr) := by
  obtain ⟨tr₁, ⟨innerErr, db₁⟩, handles₁, tr₂, hrebuild, hrest, rfl⟩ := exec_bind_iff.mp h
  obtain ⟨hnone, hyield⟩ := exec_tryRepairAndRebuild hrebuild
  have hhandles := exec_openHandles hrebuild
  dsimp only at hrest
  by_cases hok : innerErr = grdOk
  · rw [if_neg (not_not.mpr hok)] at hrest
    rcases hyield with ⟨rfl, rfl, hrepaired⟩ | ⟨handle, hnew, rfl, rfl, hnot⟩
    · obtain ⟨tr₃, errCode, handles₂, tr₄, hcollection, hret, rfl⟩ := exec_bind_iff.mp hrest
      obtain ⟨rfl, heq, rfl⟩ := exec_ret_iff.mp hret
      obtain ⟨-, rfl⟩ := Prod.mk.inj heq
      refine ⟨.none rfl ?_, iff_of_false ?_ ?_⟩
      · rw [exec_openHandles hcollection,
          openHandles_of_onHandle (hcollection.onlyCalls initCollection_onHandle)]
      · intro hall
        have hpart := (allInOrder_append.mp hall).2
        rw [List.append_nil, ← hhandles] at hpart
        exact exec_initCollection_null hcollection hpart
      · intro hnot
        exact hnot (List.mem_append_left _ (hrepaired.mp hok))
    · obtain ⟨hdb', hhandles', hinOrder, hnot'⟩ :=
        exec_init_opened hnone hnot hhandles.symm hrest
      exact ⟨.opened handle rfl hnew hdb' hhandles', iff_of_true hinOrder hnot'⟩
  · rw [if_pos hok] at hrest
    obtain ⟨rfl, heq, rfl⟩ := exec_ret_iff.mp hrest
    obtain ⟨-, rfl⟩ := Prod.mk.inj heq
    rw [List.append_nil]
    rcases hyield with ⟨rfl, rfl, hrepaired⟩ | ⟨handle, hnew, hdb', hhandles', hnot⟩
    · exact ⟨.none rfl rfl, iff_of_true (allInOrder_of_no_handle hnone)
        (fun hmem => hok (hrepaired.mpr hmem))⟩
    · exact ⟨.opened handle rfl hnew hdb' hhandles',
        iff_of_true (allInOrder_of_no_handle hnone) hnot⟩

/-- `Init` is in order exactly if no repair succeeds. -/
theorem exec_init (hdb : ∀ handle, db = some handle → handle ∈ handles)
    (h : Exec handleKernel (init api db) handles tr (code, db') handles') :
    Effect db handles db' handles' ∧ (AllInOrder handles tr ↔ repaired ∉ tr) := by
  have hsilent (heq : db' = db) (hhandles : handles' = handles) (htr : tr = []) :
      Effect db handles db' handles' ∧ (AllInOrder handles tr ↔ repaired ∉ tr) := by
    rw [htr]
    exact ⟨.none heq hhandles, iff_of_true (allInOrder_nil handles) List.not_mem_nil⟩
  rw [init] at h
  split at h
  · obtain ⟨rfl, heq, rfl⟩ := exec_ret_iff.mp h
    exact hsilent (Prod.mk.inj heq).2 rfl rfl
  rename_i hnull
  obtain rfl : db = none := not_not.mp hnull
  split at h
  · obtain ⟨rfl, heq, rfl⟩ := exec_ret_iff.mp h
    exact hsilent (Prod.mk.inj heq).2 rfl rfl
  obtain ⟨tr₁, ⟨errCode, db₁⟩, handles₁, tr₂, hopen, hrest, rfl⟩ := exec_bind_iff.mp h
  obtain ⟨hcalls, hyield⟩ := exec_openDb hopen
  have hnone₁ : ∀ ev ∈ tr₁, ev.1.handle = none := fun ev hev => (hcalls ev hev).1
  have hrepair₁ : repaired ∉ tr₁ := fun hmem => (hcalls _ hmem).2 rfl
  have hhandles₁ := exec_openHandles hopen
  dsimp only at hrest
  by_cases hcorrupted : errCode = grdDataCorrupted
  · -- an open that fails yields no handle
    rw [if_pos hcorrupted] at hrest
    rcases hyield with ⟨rfl, rfl, -, -⟩ | ⟨handle, -, -, -, hcode⟩
    · obtain ⟨heffect, horder⟩ := exec_init_corrupted hrest
      refine ⟨heffect, ?_⟩
      rw [allInOrder_append, ← hhandles₁, and_iff_right (allInOrder_of_no_handle hnone₁), horder,
        List.mem_append, or_iff_right hrepair₁]
    · rw [hcorrupted] at hcode
      exact absurd hcode (by decide)
  rw [if_neg hcorrupted] at hrest
  by_cases hok : errCode = grdOk
  · rw [if_neg (not_not.mpr hok)] at hrest
    rcases hyield with ⟨-, -, hnot, -⟩ | ⟨handle, hnew, rfl, rfl, -⟩
    · exact absurd hok hnot
    · obtain ⟨hdb', hhandles', hinOrder, hnot⟩ :=
        exec_init_opened hnone₁ hrepair₁ hhandles₁.symm hrest
      exact ⟨.opened handle rfl hnew hdb' hhandles', iff_of_true hinOrder hnot⟩
  · rw [if_pos hok] at hrest
    obtain ⟨rfl, heq, rfl⟩ := exec_ret_iff.mp hrest
    obtain ⟨-, rfl⟩ := Prod.mk.inj heq
    rw [List.append_nil]
    refine ⟨?_, iff_of_true (allInOrder_of_no_handle hnone₁) hrepair₁⟩
    rcases hyield with ⟨rfl, rfl, -⟩ | ⟨handle, hnew, hdb', hhandles', -⟩
    · exact .none rfl rfl
    · exact .opened handle rfl hnew hdb' hhandles'

theorem allInOrder_close {handle : H} (hopen : handle ∈ handles) (errCode : Int) :
    AllInOrder handles [⟨Call.dbClose (some handle), errCode⟩] := by
  refine allInOrder_cons.mpr ⟨?_, allInOrder_nil _⟩
  intro db hdb
  exact ⟨handle, hopen, (Option.some.inj hdb).symm⟩

theorem exec_closeDb (hdb : ∀ handle, db = some handle → handle ∈ handles)
    (h : Exec handleKernel (closeDb api db) handles tr (code, db') handles') :
    Effect db handles db' handles' ∧ AllInOrder handles tr ∧ (code = eOk → db' = none) := by
  rw [closeDb] at h
  cases db with
  | none =>
      obtain ⟨rfl, heq, rfl⟩ := exec_ret_iff.mp h
      obtain ⟨-, rfl⟩ := Prod.mk.inj heq
      exact ⟨.none rfl rfl, allInOrder_nil _, fun _ => rfl⟩
  | some handle =>
      rw [if_pos (by simp)] at h
      split at h
      · obtain ⟨rfl, heq, rfl⟩ := exec_ret_iff.mp h
        obtain ⟨rfl, rfl⟩ := Prod.mk.inj heq
        exact ⟨.none rfl rfl, allInOrder_nil _, fun hok => absurd hok (by decide)⟩
      · obtain ⟨tr₁, errCode, handles₁, tr₂, hop, hrest, rfl⟩ := exec_bind_iff.mp h
        obtain ⟨hclose, rfl⟩ := exec_op_iff.mp hop
        have hhandles : handles₁ = if errCode = eOk then handles.erase handle else handles :=
          hclose
        have hclosed := allInOrder_close (hdb handle rfl) errCode
        by_cases hok : errCode = eOk
        · rw [if_neg (not_not.mpr hok)] at hrest
          rw [if_pos hok] at hhandles
          obtain ⟨rfl, heq, rfl⟩ := exec_ret_iff.mp hrest
          obtain ⟨-, rfl⟩ := Prod.mk.inj heq
          exact ⟨.closed handle rfl rfl hhandles, hclosed, fun _ => rfl⟩
        · rw [if_pos hok] at hrest
          rw [if_neg hok] at hhandles
          obtain ⟨rfl, heq, rfl⟩ := exec_ret_iff.mp hrest
          obtain ⟨rfl, rfl⟩ := Prod.mk.inj heq
          exact ⟨.none rfl hhandles, hclosed,
            fun hcode => absurd (transferGrdErrno_eq_eOk_iff.mp hcode) hok⟩

/-- The destructor closes `nullptr` too, if it can. -/
theorem exec_destructor (hdb : ∀ handle, db = some handle → handle ∈ handles)
    (h : Exec handleKernel (destructor api db) handles tr () handles') :
    (handles' = handles ∨ ∃ handle, db = some handle ∧ handles' = handles.erase handle) ∧
      (AllInOrder handles tr ↔ db ≠ none ∨ api .dbCloseApi = false) := by
  rw [destructor] at h
  split at h
  · rename_i hclosing
    obtain ⟨tr₁, errCode, handles₁, tr₂, hop, hrest, rfl⟩ := exec_bind_iff.mp h
    obtain ⟨hclose, rfl⟩ := exec_op_iff.mp hop
    obtain ⟨rfl, -, rfl⟩ := exec_ret_iff.mp hrest
    cases db with
    | none =>
        have hapi : api .dbCloseApi = true := hclosing.resolve_left (not_not.mpr rfl)
        refine ⟨.inl hclose, iff_of_false ?_ (by simp [hapi])⟩
        exact not_allInOrder_of_null List.mem_cons_self rfl
    | some handle =>
        have hhandles : handles' = if errCode = grdOk then handles.erase handle else handles :=
          hclose
        refine ⟨?_, iff_of_true (allInOrder_close (hdb handle rfl) errCode) (.inl (by simp))⟩
        split at hhandles
        · exact .inr ⟨handle, rfl, hhandles⟩
        · exact .inl hhandles
  · rename_i hsilent
    obtain ⟨rfl, -, rfl⟩ := exec_ret_iff.mp h
    have hapi : api .dbCloseApi = false :=
      Bool.eq_false_of_not_eq_true fun hapi => hsilent (.inr hapi)
    exact ⟨.inl rfl, iff_of_true (allInOrder_nil _) (.inr hapi)⟩

/-! ### Actions -/

/-- The member functions, apart from construction and destruction. -/
inductive Action
  | init
  | request (q : Request)
  | dropCollection
  | createCollection
  | closeDb

namespace Action

/-- The function, with the handle that it leaves. -/
def run (api : Api → Bool) (db : Option H) : Action → GrdProgram H (Option H)
  | init => do
      let (_, db) ← PreferencesDb.init api db
      return db
  | request q => do
      let _ ← q.run api db
      return db
  | dropCollection => do
      let _ ← PreferencesDb.dropCollection api db
      return db
  | createCollection => do
      let _ ← PreferencesDb.createCollection api db
      return db
  | closeDb => do
      let (_, db) ← PreferencesDb.closeDb api db
      return db

/-- The calls of the action are with an open handle: no repair succeeds, and `CreateCollection`
finds an open database. -/
def Fine (api : Api → Bool) (db : Option H) (tr : Trace H) : Action → Prop
  | init => repaired ∉ tr
  | createCollection => db ≠ none ∨ api .dbCreateCollectionApi = false
  | _ => True

end Action

/-- A function that leaves `db_` alone and makes calls on it. -/
theorem exec_onHandle {α : Type} {p : GrdProgram H α}
    (hp : p.OnlyCalls (fun c => c.OnHandle db))
    (h : Exec handleKernel (do
      let _ ← p
      return db) handles tr db' handles') :
    Effect db handles db' handles' ∧ (∀ ev ∈ tr, ev.1.OnHandle db) ∧
      ∃ a, Exec handleKernel p handles tr a handles' := by
  obtain ⟨tr₁, a, handles₁, tr₂, hrun, hret, rfl⟩ := exec_bind_iff.mp h
  obtain ⟨rfl, rfl, rfl⟩ := exec_ret_iff.mp hret
  have hcalls := hrun.onlyCalls hp
  rw [List.append_nil]
  refine ⟨.none rfl ?_, hcalls, a, hrun⟩
  rw [exec_openHandles hrun, openHandles_of_onHandle hcalls]

theorem exec_action {a : Action} (hdb : ∀ handle, db = some handle → handle ∈ handles)
    (h : Exec handleKernel (a.run api db) handles tr db' handles') :
    Effect db handles db' handles' ∧ (AllInOrder handles tr ↔ a.Fine api db tr) := by
  cases a with
  | init =>
      obtain ⟨tr₁, ⟨code, db₁⟩, handles₁, tr₂, hinit, hret, rfl⟩ := exec_bind_iff.mp h
      obtain ⟨rfl, rfl, rfl⟩ := exec_ret_iff.mp hret
      rw [List.append_nil]
      exact exec_init hdb hinit
  | closeDb =>
      obtain ⟨tr₁, ⟨code, db₁⟩, handles₁, tr₂, hclose, hret, rfl⟩ := exec_bind_iff.mp h
      obtain ⟨rfl, rfl, rfl⟩ := exec_ret_iff.mp hret
      rw [List.append_nil]
      obtain ⟨heffect, hall, -⟩ := exec_closeDb hdb hclose
      exact ⟨heffect, iff_of_true hall trivial⟩
  | request q =>
      obtain ⟨heffect, hcalls, res, hrun⟩ := exec_onHandle q.onHandle h
      refine ⟨heffect, iff_of_true ?_ trivial⟩
      cases db with
      | some handle => exact allInOrder_of_onHandle (hdb handle rfl) hcalls
      | none =>
          have htr : tr = [] := by
            cases q <;> exact (exec_ret_iff.mp hrun).1
          rw [htr]
          exact allInOrder_nil _
  | dropCollection =>
      obtain ⟨heffect, hcalls, res, hrun⟩ := exec_onHandle dropCollection_onHandle h
      refine ⟨heffect, iff_of_true ?_ trivial⟩
      cases db with
      | some handle => exact allInOrder_of_onHandle (hdb handle rfl) hcalls
      | none =>
          obtain ⟨rfl, -, -⟩ := exec_ret_iff.mp hrun
          exact allInOrder_nil _
  | createCollection =>
      obtain ⟨heffect, hcalls, res, hrun⟩ := exec_onHandle createCollection_onHandle h
      refine ⟨heffect, ?_⟩
      cases db with
      | some handle =>
          exact iff_of_true (allInOrder_of_onHandle (hdb handle rfl) hcalls) (.inl (by simp))
      | none =>
          rw [createCollection] at hrun
          split at hrun
          · rename_i hapi
            obtain ⟨rfl, -, -⟩ := exec_ret_iff.mp hrun
            exact iff_of_true (allInOrder_nil _) (.inr (Bool.eq_false_of_not_eq_true hapi))
          · rename_i hapi
            obtain ⟨r, -, rfl, -⟩ := exec_op_translated hrun
            refine iff_of_false (not_allInOrder_of_null List.mem_cons_self rfl) ?_
            intro hfine
            exact hapi (by simp [hfine.resolve_left (not_not.mpr rfl)])

/-! ### Runs -/

/-- What is seen of a step: whose it is, and its calls. -/
inductive Label (ι H : Type)
  | construct (i : ι)
  | call (i : ι) (a : Action) (calls : Trace H)
  | destroy (i : ι) (calls : Trace H)

def Label.calls : Label ι H → Trace H
  | construct _ => []
  | call _ _ calls | destroy _ calls => calls

/-- The calls of a run. -/
def allCalls (ls : List (Label ι H)) : Trace H := ls.flatMap Label.calls

variable [DecidableEq ι]

/-- A step of the process: an object is constructed, one of its functions is called, or it is
destroyed. -/
inductive Step (api : Api → Bool) : Process ι H → Label ι H → Process ι H → Prop
  | construct {s : Process ι H} {i : ι} (hnew : s.objects i = none) :
      Step api s (.construct i) { s with objects := Function.update s.objects i (some none) }
  | call {s : Process ι H} {i : ι} {a : Action} {db db' : Option H} {tr : Trace H}
      {handles' : Finset H} (hdb : s.objects i = some db)
      (hrun : Exec handleKernel (a.run api db) s.handles tr db' handles') :
      Step api s (.call i a tr)
        { objects := Function.update s.objects i (some db'), handles := handles' }
  | destroy {s : Process ι H} {i : ι} {db : Option H} {tr : Trace H} {handles' : Finset H}
      (hdb : s.objects i = some db)
      (hrun : Exec handleKernel (destructor api db) s.handles tr () handles') :
      Step api s (.destroy i tr)
        { objects := Function.update s.objects i none, handles := handles' }

/-- The step makes its calls with an open handle: no repair succeeds in an `Init`, and neither
`CreateCollection` nor the destructor is called for an object whose `db_` is `nullptr`. -/
def Fine (api : Api → Bool) (s : Process ι H) : Label ι H → Prop
  | .construct _ => True
  | .call i a calls => ∀ db, s.objects i = some db → a.Fine api db calls
  | .destroy i _ => ∀ db, s.objects i = some db → db ≠ none ∨ api .dbCloseApi = false

variable {s s' : Process ι H} {l : Label ι H} {ls : List (Label ι H)}

theorem Owned.effect (ho : Owned s) {i : ι} (hi : s.objects i = some db)
    (h : Effect db s.handles db' handles') :
    Owned { objects := Function.update s.objects i (some db'), handles := handles' } := by
  cases h with
  | none hdb hhandles =>
      subst hdb hhandles
      refine owned_update ?_ ?_ ho
      · intro handle heq
        exact ho.isOpen i handle (hi.trans heq)
      · intro j handle hji hj
        exact ⟨ho.isOpen j handle hj, fun heq => hji (ho.own j i handle hj (hi.trans heq))⟩
  | opened handle hdb hnew hdb' hhandles =>
      subst hdb' hhandles
      refine owned_update ?_ ?_ ho
      · intro handle' heq
        obtain rfl : handle = handle' := Option.some.inj (Option.some.inj heq)
        exact Finset.mem_insert_self _ _
      · intro j handle' hji hj
        have hopen := ho.isOpen j handle' hj
        refine ⟨Finset.mem_insert_of_mem hopen, ?_⟩
        intro heq
        obtain rfl : handle = handle' := Option.some.inj (Option.some.inj heq)
        exact hnew hopen
  | closed handle hdb hdb' hhandles =>
      subst hdb hdb' hhandles
      refine owned_update (by simp) ?_ ho
      intro j handle' hji hj
      refine ⟨Finset.mem_erase.mpr ⟨?_, ho.isOpen j handle' hj⟩, by simp⟩
      intro heq
      rw [heq] at hj
      exact hji (ho.own j i handle hj hi)

/-- One step. -/
theorem Owned.step (ho : Owned s) (h : Step api s l s') :
    Owned s' ∧ s'.handles = openHandles s.handles l.calls ∧
      (AllInOrder s.handles l.calls ↔ Fine api s l) := by
  cases h with
  | construct hnew =>
      refine ⟨owned_update (by simp) ?_ ho, rfl, iff_of_true (allInOrder_nil _) trivial⟩
      intro j handle _ hj
      exact ⟨ho.isOpen j handle hj, by simp⟩
  | @call i a db db' tr handles' hdb hrun =>
      obtain ⟨heffect, horder⟩ := exec_action
        (fun handle heq => ho.isOpen i handle (by rw [hdb, heq])) hrun
      refine ⟨ho.effect hdb heffect, exec_openHandles hrun, horder.trans ?_⟩
      constructor
      · intro hfine db₁ hdb₁
        obtain rfl : db = db₁ := Option.some.inj (hdb.symm.trans hdb₁)
        exact hfine
      · intro hfine
        exact hfine db hdb
  | @destroy i db tr handles' hdb hrun =>
      obtain ⟨hhandles, horder⟩ := exec_destructor
        (fun handle heq => ho.isOpen i handle (by rw [hdb, heq])) hrun
      refine ⟨owned_update (by simp) ?_ ho, exec_openHandles hrun, horder.trans ?_⟩
      · intro j handle hji hj
        refine ⟨?_, by simp⟩
        rcases hhandles with rfl | ⟨own, rfl, rfl⟩
        · exact ho.isOpen j handle hj
        · refine Finset.mem_erase.mpr ⟨?_, ho.isOpen j handle hj⟩
          intro heq
          rw [heq] at hj
          exact hji (ho.own j i own hj hdb)
      · constructor
        · intro hfine db₁ hdb₁
          obtain rfl : db = db₁ := Option.some.inj (hdb.symm.trans hdb₁)
          exact hfine
        · intro hfine
          exact hfine db hdb

theorem Owned.allInOrder (ho : Owned s)
    (h : Lib.Run (guarded (Step api) (Fine api)) s ls s') :
    AllInOrder s.handles (allCalls ls) := by
  induction h with
  | nil => exact allInOrder_nil _
  | cons hs _ ih =>
      obtain ⟨ho', hhandles, horder⟩ := ho.step hs.1
      rw [allCalls, List.flatMap_cons, allInOrder_append, ← hhandles]
      exact ⟨horder.mpr hs.2, ih ho'⟩

theorem Owned.guarded (ho : Owned s) (h : Lib.Run (Step api) s ls s')
    (hall : AllInOrder s.handles (allCalls ls)) :
    Lib.Run (Lib.guarded (Step api) (Fine api)) s ls s' := by
  induction h with
  | nil => exact .nil
  | cons hs _ ih =>
      obtain ⟨ho', hhandles, horder⟩ := ho.step hs
      rw [allCalls, List.flatMap_cons, allInOrder_append, ← hhandles] at hall
      exact .cons ⟨hs, horder.mp hall.1⟩ (ih ho' hall.2)

/-- **All calls of a run are in order** exactly if its steps are fine. -/
theorem allInOrder_iff (api : Api → Bool) (h : Lib.Run (Step api) Process.initial ls s') :
    AllInOrder ∅ (allCalls ls) ↔
      Lib.Run (guarded (Step api) (Fine api)) Process.initial ls s' :=
  ⟨owned_initial.guarded h, owned_initial.allInOrder⟩

/-! ### The store

A store holds its `PreferencesDb` by a `shared_ptr` that nobody shares: to set it to `nullptr` is to
destroy the object. -/

/-- `PreferencesEnhanceImpl::CloseDb`. -/
def storeCloseDb (api : Api → Bool) : Option (Option H) → GrdProgram H (Int × Option (Option H))
  | none => return (eOk, none)
  | some db => do
      let (errCode, db) ← closeDb api db
      if errCode ≠ eOk then return (errCode, some db)
      else
        let _ ← destructor api db
        return (eOk, none)

/-- A store that has been closed has passed `nullptr` to `DbCloseApi`. -/
theorem storeCloseDb_null {o : Option (Option H)} (hapi : api .dbCloseApi = true)
    (hdb : ∀ handle, db = some handle → handle ∈ handles)
    (h : Exec handleKernel (storeCloseDb api (some db)) handles tr (eOk, o) handles') :
    ¬ AllInOrder handles tr := by
  obtain ⟨tr₁, ⟨errCode, db₁⟩, handles₁, tr₂, hclose, hrest, rfl⟩ := exec_bind_iff.mp h
  obtain ⟨heffect, -, hnull⟩ := exec_closeDb hdb hclose
  dsimp only at hrest
  by_cases hok : errCode = eOk
  · rw [if_neg (not_not.mpr hok)] at hrest
    obtain ⟨tr₃, _, handles₂, tr₄, hdestroy, -, rfl⟩ := exec_bind_iff.mp hrest
    obtain rfl := hnull hok
    intro hall
    have hlast := (allInOrder_append.mp (allInOrder_append.mp hall).2).1
    rw [← exec_openHandles hclose] at hlast
    rcases (exec_destructor (by simp) hdestroy).2.mp hlast with hopen | hmissing
    · exact hopen rfl
    · rw [hapi] at hmissing
      exact absurd hmissing (by simp)
  · rw [if_pos hok] at hrest
    obtain ⟨-, heq, -⟩ := exec_ret_iff.mp hrest
    exact absurd (Prod.mk.inj heq).1.symm hok

/-- The calls of an `Init` in which nothing fails. -/
def initCalls : Trace Unit :=
  [⟨.dbOpen 1, (grdOk, some ())⟩, ⟨.dbCreateCollection (some ()), grdOk⟩,
    ⟨.dbIndexPreload (some ()), grdOk⟩]

theorem exec_initCalls : Exec handleKernel (Action.run (H := Unit) (fun _ => true) none .init) ∅
    initCalls (some ()) (insert () ∅) :=
  .call ⟨by simp, by simp, rfl⟩ (.call rfl (.call rfl .ret))

theorem step_initCalls {s : Process Unit Unit} (hnull : s.objects () = some none)
    (hhandles : s.handles = ∅) : Step (fun _ => true) s (.call () .init initCalls)
      { objects := Function.update s.objects () (some (some ())), handles := insert () ∅ } :=
  .call hnull (by rw [hhandles]; exact exec_initCalls)

/-- Construction, `Init`, destruction. -/
theorem allInOrder_init : AllInOrder ∅ (allCalls
    ([.construct (), .call () .init initCalls, .destroy () [⟨.dbClose (some ()), grdOk⟩]] :
      List (Label Unit Unit))) := by
  have hdestroy : Exec handleKernel (destructor (fun _ => true) (some ())) (insert () ∅)
      [⟨.dbClose (some ()), grdOk⟩] () ((insert () ∅ : Finset Unit).erase ()) := .call rfl .ret
  have hrun : Lib.Run (guarded (Step (fun _ => true)) (Fine (fun _ => true))) Process.initial
      [.construct (), .call () .init initCalls, .destroy () [⟨.dbClose (some ()), grdOk⟩]] _ :=
    .cons ⟨.construct rfl, trivial⟩ (.cons ⟨step_initCalls rfl rfl, by
      intro db _
      simp [Action.Fine, initCalls, repaired]⟩ (.cons ⟨.destroy rfl hdestroy, by
        intro db hdb
        obtain rfl : some () = db := Option.some.inj hdb
        exact .inl (by simp)⟩ .nil))
  exact (allInOrder_iff _ hrun.unguard).mpr hrun

/-- `CloseDb`, and then the destructor with `nullptr`. -/
theorem closed_twice : ¬ ∀ (api : Api → Bool) (ls : List (Label Unit Unit))
    (s' : Process Unit Unit), Lib.Run (Step api) Process.initial ls s' →
      AllInOrder ∅ (allCalls ls) := by
  intro h
  have hclose : Exec handleKernel (Action.run (fun _ => true) (some ()) .closeDb) (insert () ∅)
      [⟨.dbClose (some ()), grdOk⟩] none ((insert () ∅ : Finset Unit).erase ()) := .call rfl .ret
  have hdestroy : Exec handleKernel (destructor (fun _ => true) none)
      ((insert () ∅ : Finset Unit).erase ()) [⟨.dbClose none, grdOk⟩] ()
      ((insert () ∅ : Finset Unit).erase ()) := .call rfl .ret
  have hall := h _ [.construct (), .call () .init initCalls,
      .call () .closeDb [⟨.dbClose (some ()), grdOk⟩], .destroy () [⟨.dbClose none, grdOk⟩]] _
    (.cons (.construct rfl) (.cons (step_initCalls rfl rfl)
      (.cons (.call rfl hclose) (.cons (.destroy rfl hdestroy) .nil))))
  have hnull : (⟨.dbClose none, grdOk⟩ : Event (Answer (H := Unit))) ∈ allCalls
      ([.construct (), .call () .init initCalls, .call () .closeDb [⟨.dbClose (some ()), grdOk⟩],
        .destroy () [⟨.dbClose none, grdOk⟩]] : List (Label Unit Unit)) := by
    simp [allCalls, Label.calls]
  exact not_allInOrder_of_null hnull rfl hall

end NativePreferences.Grd
