import NativePreferences.Enhance.Grd

/-!
# NativePreferences.Enhance.MissingCollection

**A missing collection behaves like an empty one.** `Put`, `Delete`, `Get` and `GetAll` create the
collection when they find none, and make their call again. So where creating works, the caller
cannot tell a missing collection from an empty one, and there is an empty one afterwards.

The four loops are one (`retryLoop`), and `retryLoop_missing` says what it does without a
collection. Whatever the kernel answers, the loop makes two attempts at most.
-/

namespace NativePreferences.Grd

open Lib Grd.PreferencesDb

variable {H : Type}

/-! ### Requests -/

/-- The functions that need the collection, with the arguments of the caller. -/
inductive Request
  | put (key value : Bytes)
  | delete (key : Bytes)
  | get (key value : Bytes)
  /-- For some number of rounds of the loop over the result set. -/
  | getAll (rounds : Nat) (data : Data)

namespace Request

/-- Code and data. -/
abbrev Result : Request → Type
  | put _ _ | delete _ => Int
  | get _ _ => Int × Bytes
  | getAll _ _ => Option (Int × Data)

/-- The function. -/
def run (api : Api → Bool) (db : Option H) : (q : Request) → GrdProgram H q.Result
  | put key value => PreferencesDb.put api db key value
  | delete key => PreferencesDb.delete api db key
  | get key value => PreferencesDb.get api db key value
  | getAll rounds data => PreferencesDb.getAll api rounds db data

/-- The functions of the kernel that it needs could be loaded. -/
def loaded (api : Api → Bool) : Request → Bool
  | put _ _ => api .dbKvPutApi
  | delete _ => api .dbKvDelApi
  | get _ _ => api .dbKvGetApi && api .freeItemApi
  | getAll _ _ => isApiValid api

end Request

/-- The calls that need the collection. -/
def Call.isAttempt : Call H → Bool
  | .dbKvPut _ _ _ | .dbKvGet _ _ | .dbKvDel _ _ | .dbKvFilter _ => true
  | _ => false

def Call.isCreate : Call H → Bool
  | .dbCreateCollection _ => true
  | _ => false

/-- The code of an answer. -/
def answerCode : (c : Call H) → Answer c → Int
  | .dbOpen _, r | .dbKvGet _ _, r | .getItem _ _, r | .getItemSize, r => r.1
  | .dbClose _, r | .dbCreateCollection _, r | .dbDropCollection _, r | .dbIndexPreload _, r
  | .dbKvPut _ _ _, r | .dbKvDel _ _, r | .dbKvFilter _, r | .next, r | .freeItem, r
  | .freeResultSet, r | .dbRepair, r => r

/-! ### A database without the collection -/

/-- A database whose collection may be missing. With a collection `v` the kernel is `T`, and
`empty` is a collection that has just been created. -/
def tableKernel {V : Type} (T : Sem (Call H) Answer V) (empty : V) :
    Sem (Call H) Answer (Option V)
  | c, some v, r, w' => ∃ v', T c v r v' ∧ w' = some v'
  | .dbCreateCollection _, none, r, w' => r = grdOk ∧ w' = some empty
  | c, none, r, w' => answerCode c r = grdUndefinedTable ∧ w' = none

/-! ### The loop -/

section Loop

variable {W α β : Type} {S : Sem (Call H) Answer W} {api : Api → Bool} {db : Option H}
variable {c : Call H} {f : Answer c → Int × α} {leave : Nat → Int × α → GrdProgram H β}
variable {spent : Int → β} {w w' : W} {tr : Trace H} {b : β}

theorem createCollection_calls :
    (createCollection api db).OnlyCalls (fun c => c.isCreate = true) := by
  rw [createCollection]
  split
  · trivial
  · exact Program.onlyCalls_bind (Program.onlyCalls_op rfl) (fun _ => trivial)

theorem not_isAttempt_of_isCreate {c : Call H} (h : c.isCreate = true) : c.isAttempt ≠ true := by
  cases c <;> simp [Call.isCreate, Call.isAttempt] at h ⊢

/-- Every round of the loop makes one attempt. -/
theorem retryLoop_attempts
    (hleave : ∀ m ret, (leave m ret).OnlyCalls (fun c => c.isAttempt ≠ true)) (n : Nat) (last : Int)
    (h : Exec S (retryLoop api db (Program.op c >>= fun r => .ret (f r)) leave spent n last)
      w tr b w') :
    tr.countP (fun ev => ev.1.isAttempt) ≤ n := by
  induction n generalizing last w tr with
  | zero =>
      obtain ⟨rfl, -, -⟩ := exec_ret_iff.mp h
      exact Nat.le_refl 0
  | succ n ih =>
      obtain ⟨trAttempt, ret, w₁, tr₂, htry, hrest, rfl⟩ := exec_bind_iff.mp h
      obtain ⟨r, -, rfl, -⟩ := exec_op_translated htry
      have hnone {p : Call H → Prop} (hp : ∀ c, p c → c.isAttempt ≠ true) {γ : Type}
          {prog : GrdProgram H γ} {v v' : W} {a : γ} {tr' : Trace H}
          (hrun : Exec S prog v tr' a v') (hcalls : prog.OnlyCalls p) :
          tr'.countP (fun ev => ev.1.isAttempt) = 0 :=
        List.countP_eq_zero.mpr fun ev hev => hp _ (hrun.onlyCalls hcalls ev hev)
      -- one call is one attempt at most
      rw [List.countP_append]
      refine (Nat.add_le_add_right List.countP_le_length _).trans ?_
      rw [List.length_singleton]
      by_cases hundef : ret.1 = grdUndefinedTable
      · rw [if_pos hundef] at hrest
        obtain ⟨trCreate, code, w₂, tr₄, hmake, hloop, rfl⟩ := exec_bind_iff.mp hrest
        have hcreate := hnone (fun _ => not_isAttempt_of_isCreate) hmake createCollection_calls
        have hloop := ih ret.1 hloop
        rw [List.countP_append]
        omega
      · rw [if_neg hundef] at hrest
        have hleft := hnone (fun _ hc => hc) hrest (hleave _ _)
        omega

variable {V : Type} {T : Sem (Call H) Answer V} {empty v : V} {o o' : Option V}

/-- With a collection the first attempt is the last one. -/
theorem retryLoop_there (hthere : ∀ r v', T c v r v' → answerCode c r ≠ grdUndefinedTable)
    (hcode : ∀ r, (f r).1 = answerCode c r) (n : Nat) (last : Int) :
    Exec (tableKernel T empty)
        (retryLoop api db (Program.op c >>= fun r => .ret (f r)) leave spent (n + 1) last)
        (some v) tr b o' ↔
      ∃ r v' tr', T c v r v' ∧ Exec (tableKernel T empty) (leave (n + 1) (f r)) (some v') tr' b o' ∧
        tr = ⟨c, r⟩ :: tr' := by
  rw [retryLoop, exec_bind_iff]
  constructor
  · intro ⟨tr₁, ret, w₁, tr₂, htry, hrest, htr⟩
    obtain ⟨r, ⟨v', hT, rfl⟩, rfl, rfl⟩ := exec_op_translated htry
    have hdef : (f r).1 ≠ grdUndefinedTable := by
      rw [hcode]
      exact hthere r v' hT
    rw [if_neg hdef] at hrest
    exact ⟨r, v', tr₂, hT, hrest, htr⟩
  · intro ⟨r, v', tr', hT, hrest, htr⟩
    have hdef : (f r).1 ≠ grdUndefinedTable := by
      rw [hcode]
      exact hthere r v' hT
    refine ⟨[⟨c, r⟩], f r, some v', tr', exec_op_translated_iff.mpr ⟨r, ⟨v', hT, rfl⟩, rfl, rfl⟩,
      ?_, htr⟩
    rw [if_neg hdef]
    exact hrest

theorem exec_createCollection_missing (hapi : api .dbCreateCollectionApi = true) {code : Int} :
    Exec (tableKernel T empty) (createCollection api db) none tr code o' ↔
      tr = [⟨Call.dbCreateCollection db, grdOk⟩] ∧ code = eOk ∧ o' = some empty := by
  rw [createCollection, if_neg (by simp [hapi])]
  refine exec_op_translated_iff.trans ?_
  constructor
  · intro ⟨r, ⟨hr, ho'⟩, htr, hcode⟩
    obtain rfl : r = grdOk := hr
    exact ⟨htr, hcode.trans (by decide), ho'⟩
  · intro ⟨htr, hcode, ho'⟩
    exact ⟨grdOk, ⟨rfl, ho'⟩, htr, hcode.trans (by decide)⟩

/-- Without a collection the first attempt finds none, one is created, and the second attempt is
like the first one with an empty collection. -/
theorem retryLoop_missing (hapi : api .dbCreateCollectionApi = true) (hc : c.isAttempt = true)
    (hthere : ∀ r v', T c empty r v' → answerCode c r ≠ grdUndefinedTable)
    (hcode : ∀ r, (f r).1 = answerCode c r) (hleave : ∀ ret, leave 1 ret = leave 2 ret)
    (last : Int) :
    Exec (tableKernel T empty)
        (retryLoop api db (Program.op c >>= fun r => .ret (f r)) leave spent 2 last) none tr b o' ↔
      ∃ r tr', answerCode c r = grdUndefinedTable ∧
        Exec (tableKernel T empty)
          (retryLoop api db (Program.op c >>= fun r => .ret (f r)) leave spent 2 last)
          (some empty) tr' b o' ∧
        tr = ⟨c, r⟩ :: ⟨Call.dbCreateCollection db, grdOk⟩ :: tr' := by
  have hmissing (r : Answer c) (w' : Option V) : tableKernel T empty c none r w' ↔
      answerCode c r = grdUndefinedTable ∧ w' = none := by
    cases c <;> simp [Call.isAttempt] at hc <;> exact Iff.rfl
  have hagain (ret : Int) (tr' : Trace H) : Exec (tableKernel T empty) (retryLoop api db
        (Program.op c >>= fun r => .ret (f r)) leave spent 1 ret) (some empty) tr' b o' ↔
      Exec (tableKernel T empty) (retryLoop api db
        (Program.op c >>= fun r => .ret (f r)) leave spent 2 last) (some empty) tr' b o' := by
    rw [retryLoop_there hthere hcode, retryLoop_there hthere hcode]
    simp only [Nat.zero_add, hleave]
  have hundef {r : Answer c} (hr : answerCode c r = grdUndefinedTable) :
      (f r).1 = grdUndefinedTable := (hcode r).trans hr
  constructor
  · intro h
    obtain ⟨tr₁, ret, w₁, tr₂, htry, hrest, rfl⟩ := exec_bind_iff.mp h
    obtain ⟨r, hT, rfl, rfl⟩ := exec_op_translated htry
    obtain ⟨hr, rfl⟩ := (hmissing r w₁).mp hT
    rw [if_pos (hundef hr)] at hrest
    obtain ⟨trCreate, code, w₂, tr', hmake, hloop, rfl⟩ := exec_bind_iff.mp hrest
    obtain ⟨rfl, -, rfl⟩ := (exec_createCollection_missing hapi).mp hmake
    exact ⟨r, tr', hr, (hagain _ _).mp hloop, rfl⟩
  · intro ⟨r, tr', hr, hloop, htr⟩
    refine exec_bind_iff.mpr ⟨[⟨c, r⟩], f r, none, ⟨Call.dbCreateCollection db, grdOk⟩ :: tr',
      exec_op_translated_iff.mpr ⟨r, (hmissing r none).mpr ⟨hr, rfl⟩, rfl, rfl⟩, ?_, htr⟩
    rw [if_pos (hundef hr)]
    exact exec_bind_iff.mpr ⟨_, eOk, some empty, tr',
      (exec_createCollection_missing hapi).mpr ⟨rfl, rfl, rfl⟩, (hagain _ _).mpr hloop, rfl⟩

end Loop

/-! ### All four functions -/

/-- What a function can do without a collection it can do with an empty one, and the other way
round. Without one, it creates one. -/
def LikeEmpty {V : Type} {α : Type} (T : Sem (Call H) Answer V) (empty : V)
    (p : GrdProgram H α) : Prop :=
  (∀ res o', (∃ tr, Exec (tableKernel T empty) p none tr res o') ↔
      ∃ tr, Exec (tableKernel T empty) p (some empty) tr res o') ∧
    ∀ tr res o', Exec (tableKernel T empty) p none tr res o' →
      tr.countP (fun ev => ev.1.isCreate) = 1

theorem exists_undefined {c : Call H} (hc : c.isAttempt = true) :
    ∃ r, answerCode c r = grdUndefinedTable := by
  cases c with
  | dbKvGet db key => exact ⟨(grdUndefinedTable, []), rfl⟩
  | dbKvPut | dbKvDel | dbKvFilter => exact ⟨grdUndefinedTable, rfl⟩
  | _ => simp [Call.isAttempt] at hc

theorem retryLoop_likeEmpty {V α β : Type} {T : Sem (Call H) Answer V} {empty : V}
    {api : Api → Bool} {db : Option H} {c : Call H} {f : Answer c → Int × α}
    {leave : Nat → Int × α → GrdProgram H β} {spent : Int → β}
    (hapi : api .dbCreateCollectionApi = true) (hc : c.isAttempt = true)
    (hthere : ∀ r v', T c empty r v' → answerCode c r ≠ grdUndefinedTable)
    (hcode : ∀ r, (f r).1 = answerCode c r) (hleave : ∀ ret, leave 1 ret = leave 2 ret)
    (hcalls : ∀ m ret, (leave m ret).OnlyCalls (fun c => c.isCreate ≠ true)) (last : Int) :
    LikeEmpty T empty
      (retryLoop api db (Program.op c >>= fun r => .ret (f r)) leave spent 2 last) := by
  constructor
  · intro res o'
    constructor
    · intro ⟨tr, h⟩
      obtain ⟨r, tr', -, hloop, -⟩ := (retryLoop_missing hapi hc hthere hcode hleave last).mp h
      exact ⟨tr', hloop⟩
    · intro ⟨tr, h⟩
      obtain ⟨r, hr⟩ := exists_undefined hc
      exact ⟨_, (retryLoop_missing hapi hc hthere hcode hleave last).mpr ⟨r, tr, hr, h, rfl⟩⟩
  · intro tr res o' h
    obtain ⟨r, tr', -, hloop, rfl⟩ := (retryLoop_missing hapi hc hthere hcode hleave last).mp h
    obtain ⟨r', v', tr'', -, hrest, rfl⟩ := (retryLoop_there hthere hcode 1 last).mp hloop
    have hnot : c.isCreate = false := by
      cases c <;> simp [Call.isAttempt] at hc <;> rfl
    have hleft : tr''.countP (fun ev => ev.1.isCreate) = 0 :=
      List.countP_eq_zero.mpr fun ev hev => hrest.onlyCalls (hcalls _ _) ev hev
    rw [List.countP_cons, List.countP_cons, List.countP_cons, hleft, hnot]
    rfl

/-- The calls for a result set or an item, which take no handle. -/
def Call.OnResult : Call H → Prop
  | .next | .getItem _ _ | .getItemSize | .freeItem | .freeResultSet => True
  | _ => False

theorem Call.OnResult.not_isAttempt {c : Call H} (h : c.OnResult) : c.isAttempt ≠ true := by
  cases c <;> simp [Call.OnResult, Call.isAttempt] at h ⊢

theorem Call.OnResult.not_isCreate {c : Call H} (h : c.OnResult) : c.isCreate ≠ true := by
  cases c <;> simp [Call.OnResult, Call.isCreate] at h ⊢

theorem getAllInner_calls (rounds : Nat) (ret : Int) (data : Data) :
    (getAllInner (H := H) rounds ret data).OnlyCalls Call.OnResult := by
  induction rounds generalizing ret data with
  | zero => trivial
  | succ rounds ih =>
      refine Program.onlyCalls_bind (Program.onlyCalls_op trivial) ?_
      intro code
      split
      · refine Program.onlyCalls_bind (Program.onlyCalls_op trivial) ?_
        intro ⟨sizeCode, keySize, valueSize⟩
        dsimp only
        split
        · trivial
        · refine Program.onlyCalls_bind (Program.onlyCalls_op trivial) ?_
          intro ⟨itemCode, item⟩
          dsimp only
          split
          · trivial
          · exact ih _ _
      · trivial

/-- A program that is the loop around an attempt. -/
inductive IsLoop {β : Type} (api : Api → Bool) (db : Option H) : GrdProgram H β → Prop
  | loop {α : Type} (c : Call H) (f : Answer c → Int × α) (leave : Nat → Int × α → GrdProgram H β)
      (spent : Int → β) (last : Int) (hc : c.isAttempt = true) (hdb : c.handle = some db)
      (hcode : ∀ r, (f r).1 = answerCode c r) (hleave : ∀ ret, leave 1 ret = leave 2 ret)
      (hcalls : ∀ m ret, (leave m ret).OnlyCalls Call.OnResult) :
      IsLoop api db (retryLoop api db (Program.op c >>= fun r => .ret (f r)) leave spent
        createCollectionRetryTimes last)

/-- The calls of the loop. -/
theorem IsLoop.onlyCalls {β : Type} {api : Api → Bool} {db : Option H} {p : GrdProgram H β}
    {P : Call H → Prop} (hattempt : ∀ c, c.isAttempt = true → c.handle = some db → P c)
    (hcreate : P (.dbCreateCollection db)) (hresult : ∀ c, c.OnResult → P c)
    (h : IsLoop api db p) : p.OnlyCalls P := by
  cases h with
  | loop c f leave spent last hc hdb _ _ hcalls =>
      have hloop : ∀ n last, (retryLoop api db (Program.op c >>= fun r => .ret (f r)) leave spent n
          last).OnlyCalls P := by
        intro n
        induction n with
        | zero => exact fun _ => trivial
        | succ n ih =>
            intro last
            refine Program.onlyCalls_bind (Program.onlyCalls_bind
              (Program.onlyCalls_op (hattempt c hc hdb)) (fun _ => trivial)) ?_
            intro ret
            split
            · refine Program.onlyCalls_bind ?_ (fun _ => ih _)
              rw [createCollection]
              split
              · trivial
              · exact Program.onlyCalls_bind (Program.onlyCalls_op hcreate) (fun _ => trivial)
            · exact (hcalls _ _).mono hresult
      exact hloop _ _

/-- Each of the four is the loop, unless the database is closed or the kernel has no such
function. -/
theorem Request.run_cases (api : Api → Bool) (db : Option H) (q : Request) :
    (∃ res, q.run api db = .ret res ∧ (db = none ∨ q.loaded api = false)) ∨
      IsLoop api db (q.run api db) := by
  by_cases hdb : db = none
  · subst hdb
    cases q <;> exact .inl ⟨_, rfl, .inl rfl⟩
  cases q with
  | put key value =>
      by_cases hapi : api .dbKvPutApi = true
      · rw [run, PreferencesDb.put, if_neg hdb, if_neg (not_not.mpr hapi)]
        exact .inr (.loop (Call.dbKvPut db key value) (fun r => (r, ())) _ _ _ rfl rfl
          (fun _ => rfl) (fun _ => rfl) (fun _ _ => trivial))
      · rw [run, PreferencesDb.put, if_neg hdb, if_pos hapi]
        exact .inl ⟨_, rfl, .inr (Bool.eq_false_of_not_eq_true hapi)⟩
  | delete key =>
      by_cases hapi : api .dbKvDelApi = true
      · rw [run, PreferencesDb.delete, if_neg hdb, if_neg (not_not.mpr hapi)]
        exact .inr (.loop (Call.dbKvDel db key) (fun r => (r, ())) _ _ _ rfl rfl (fun _ => rfl)
          (fun _ => rfl) (fun _ _ => trivial))
      · rw [run, PreferencesDb.delete, if_neg hdb, if_pos hapi]
        exact .inl ⟨_, rfl, .inr (Bool.eq_false_of_not_eq_true hapi)⟩
  | get key value =>
      by_cases hapi : api .dbKvGetApi = true ∧ api .freeItemApi = true
      · rw [run, PreferencesDb.get, if_neg hdb, if_neg (by simp [hapi])]
        refine .inr (.loop (Call.dbKvGet db key) id _ _ _ rfl rfl (fun _ => rfl) (fun _ => rfl) ?_)
        intro m ret
        split
        · split
          · trivial
          · exact Program.onlyCalls_bind (Program.onlyCalls_op trivial) (fun _ => trivial)
        · trivial
      · have hnot : ¬ api .dbKvGetApi = true ∨ ¬ api .freeItemApi = true := not_and_or.mp hapi
        rw [run, PreferencesDb.get, if_neg hdb, if_pos hnot]
        refine .inl ⟨_, rfl, .inr ?_⟩
        simpa [loaded] using hapi
  | getAll rounds data =>
      by_cases hapi : isApiValid api = true
      · rw [run, PreferencesDb.getAll, if_neg hdb, if_neg (not_not.mpr hapi)]
        refine .inr (.loop (Call.dbKvFilter db) (fun r => (r, ())) _ _ _ rfl rfl (fun _ => rfl)
          (fun _ => rfl) ?_)
        intro m ret
        split
        · refine Program.onlyCalls_bind (getAllInner_calls rounds eOk data) ?_
          intro innerErr
          cases innerErr with
          | none => trivial
          | some innerErr =>
              exact Program.onlyCalls_bind (Program.onlyCalls_op trivial) (fun _ => trivial)
        · trivial
      · rw [run, PreferencesDb.getAll, if_neg hdb, if_pos hapi]
        exact .inl ⟨_, rfl, .inr (Bool.eq_false_of_not_eq_true hapi)⟩

variable {V : Type}

/-- **A missing collection behaves like an empty one.** Where creating works, each function has the
same results and leaves the same collection, and one collection is created. A kernel `T` with a
collection does not say that there is none. With any kernel there are two attempts at most. -/
theorem missing_like_empty (T : Sem (Call H) Answer V) (empty : V)
    (hthere : ∀ c v r v', c.isAttempt = true → T c v r v' → answerCode c r ≠ grdUndefinedTable)
    (api : Api → Bool) (hapi : api .dbCreateCollectionApi = true) (handle : H) (q : Request)
    (hloaded : q.loaded api = true) :
    LikeEmpty T empty (q.run api (some handle)) ∧
      ∀ (W : Type) (S : Sem (Call H) Answer W) (api : Api → Bool) (db : Option H) (w : W)
        (tr : Trace H) (res : q.Result) (w' : W), Exec S (q.run api db) w tr res w' →
          tr.countP (fun ev => ev.1.isAttempt) ≤ 2 := by
  constructor
  · rcases q.run_cases api (some handle) with ⟨res, -, hnone | hnot⟩ | hloop
    · exact absurd hnone (by simp)
    · exact absurd hloaded (by simp [hnot])
    · generalize q.run api (some handle) = p at hloop
      cases hloop with
      | loop c f leave spent last hc _ hcode hleave hcalls =>
          exact retryLoop_likeEmpty hapi hc (fun r v' hT => hthere c empty r v' hc hT) hcode hleave
            (fun m ret => (hcalls m ret).mono fun _ hres => hres.not_isCreate) last
  · intro W S api db w tr res w' h
    rcases q.run_cases api db with ⟨res', hret, -⟩ | hloop
    · rw [hret] at h
      obtain ⟨rfl, -, -⟩ := exec_ret_iff.mp h
      exact Nat.zero_le 2
    · generalize q.run api db = p at hloop h
      cases hloop with
      | loop c f leave spent last hc _ hcode hleave hcalls =>
          exact retryLoop_attempts
            (fun m ret => (hcalls m ret).mono fun _ hres => hres.not_isAttempt) 2 last h

/-- A collection that is a list of entries. -/
def listKernel : Sem (Call Unit) Answer Data
  | .dbKvPut _ key value, v, r, v' => r = grdOk ∧ v' = (key, value) :: v.filter (·.1 ≠ key)
  | .dbKvDel _ key, v, r, v' => r = grdOk ∧ v' = v.filter (·.1 ≠ key)
  | .dbKvGet _ key, v, r, v' =>
      v' = v ∧ r = ((v.lookup key).map fun value => (grdOk, value)).getD (grdNoData, [])
  | .dbKvFilter _, v, r, v' => r = grdOk ∧ v' = v
  | _, v, _, v' => v' = v

theorem listKernel_there (c : Call Unit) (v : Data) (r : Answer c) (v' : Data)
    (hc : c.isAttempt = true) (h : listKernel c v r v') : answerCode c r ≠ grdUndefinedTable := by
  cases c with
  | dbKvPut | dbKvDel | dbKvFilter =>
      obtain ⟨rfl, -⟩ := h
      exact show grdOk ≠ grdUndefinedTable by decide
  | dbKvGet db key =>
      obtain ⟨-, rfl⟩ := h
      cases v.lookup key <;> simp [answerCode, grdOk, grdNoData, grdUndefinedTable]
  | _ => simp [Call.isAttempt] at hc

/-- `Put` into a database without the collection. -/
theorem missing_like_empty_put : ∃ tr, Exec (tableKernel listKernel [])
    (Request.run (fun _ => true) (some ()) (.put [107] [1])) none tr eOk
      (some [([107], [1])]) := by
  have hlike := (missing_like_empty listKernel [] listKernel_there (fun _ => true) rfl ()
    (.put [107] [1]) rfl).1.1 eOk (some [([107], [1])])
  exact hlike.mpr ⟨_, .call (r := grdOk) ⟨_, ⟨rfl, rfl⟩, rfl⟩ .ret⟩

end NativePreferences.Grd
