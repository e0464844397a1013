import NativePreferences.Enhance.Grd

/-!
# NativePreferences.Enhance.Scan

**Whether `GetAll` returns everything.** The loop over a result set ends as soon as `NextApi` says
anything else than `GRD_OK`, and what `GetAllInner` returns then is the code of the call before. So
the scan is complete exactly if `NextApi` says nothing but `GRD_OK` and `GRD_NO_DATA`: any other
code cuts the list short, and the caller is told `E_OK`.

`getAllInner_cases` says how a scan can end, and carries the result.
-/

namespace NativePreferences.Grd

open Lib Grd.PreferencesDb

/-! ### A kernel with a collection -/

/-- The collection in the order in which it is listed, and how far the result set is. -/
structure ScanState where
  collection : Data
  /-- What the result set has not come to. -/
  rest : Data
  /-- The entry at which it stands. -/
  item : Option (Bytes × Bytes)

variable {H : Type}

/-- A kernel whose calls may be answered by any code. What it delivers is right, and it says
`GRD_NO_DATA` only at the end. -/
def scanKernel : Sem (Call H) Answer ScanState
  | .dbKvFilter _, w, r, w' =>
      (r = grdOk ∧ w' = { w with rest := w.collection, item := none }) ∨ (r ≠ grdOk ∧ w' = w)
  | .next, w, r, w' =>
      (r = grdOk ∧ ∃ entry rest, w.rest = entry :: rest ∧
        w' = { w with rest := rest, item := some entry }) ∨
      (r ≠ grdOk ∧ (r = grdNoData → w.rest = []) ∧ w' = w)
  | .getItemSize, w, r, w' =>
      w' = w ∧ (r.1 = grdOk → ∃ entry, w.item = some entry ∧
        r.2 = (entry.1.length, entry.2.length))
  | .getItem keySize valueSize, w, r, w' =>
      w' = w ∧ (r.1 = grdOk → ∃ entry, w.item = some entry ∧
        (keySize = entry.1.length → valueSize = entry.2.length → r.2 = entry))
  | _, w, _, w' => w' = w

/-- The answer of `NextApi`, if this is a call of it. -/
def nextCode : Event (Answer (H := H)) → Option Int
  | ⟨.next, code⟩ => some code
  | _ => none

/-- What `NextApi` has answered. -/
def nextCodes (tr : Trace H) : List Int := tr.filterMap nextCode

variable {w w' : ScanState} {tr : Trace H} {ret ret' : Int}
variable {data data' : Data}

theorem nextCodes_append (tr tr' : Trace H) :
    nextCodes (tr ++ tr') = nextCodes tr ++ nextCodes tr' := List.filterMap_append

/-- **How a scan ends**: by an answer of `NextApi`, and then with `E_OK`, or by a failing call for
an entry. -/
inductive Ending (w : ScanState) (codes : List Int) (ret : Int) (data data' : Data) : Prop
  /-- What `NextApi` said is `code`. -/
  | next (delivered : Data) (code : Int) (hcodes : codes = delivered.map (fun _ => grdOk) ++ [code])
      (hcode : code ≠ grdOk) (hret : ret = eOk) (hdata : data' = data ++ delivered)
      (hall : code = grdNoData → delivered = w.rest)
  | item (hcodes : ∀ code ∈ codes, code = grdOk) (hret : ret ≠ eOk)

/-- What one round of the loop does. -/
inductive ScanRound (rounds : Nat) (w : ScanState) (ret : Int) (data : Data)
    (tr : Trace H) (res : Option (Int × Data)) (w' : ScanState) : Prop
  /-- `NextApi` says `code`, and the code of the last round is returned. -/
  | last (code : Int) (htr : nextCodes tr = [code]) (hcode : code ≠ grdOk)
      (hend : code = grdNoData → w.rest = []) (hres : res = some (transferGrdErrno ret, data))
  /-- `GetItemSizeApi` or `GetItemApi` fails with `code`. -/
  | failed (code : Int) (htr : nextCodes tr = [grdOk]) (hcode : code ≠ grdOk)
      (hres : res = some (transferGrdErrno code, data))
  | more (entry : Bytes × Bytes) (rest : Data) (tr' : Trace H)
      (hrest : w.rest = entry :: rest) (htr : nextCodes tr = grdOk :: nextCodes tr')
      (hloop : Exec scanKernel (getAllInner rounds eOk (data ++ [entry]))
        { w with rest := rest, item := some entry } tr' res w')

variable {rounds : Nat} {res : Option (Int × Data)}

theorem getAllInner_succ
    (h : Exec (scanKernel (H := H)) (getAllInner (rounds + 1) ret data) w tr res w') :
    ScanRound rounds w ret data tr res w' := by
  obtain ⟨tr₁, code, w₁, tr₂, hop, hrest, rfl⟩ := exec_bind_iff.mp h
  obtain ⟨hnext, rfl⟩ := exec_op_iff.mp hop
  rcases hnext with ⟨rfl, entry, rest, hentry, rfl⟩ | ⟨hcode, hlast, rfl⟩
  · rw [if_pos (transferGrdErrno_eq_eOk_iff.mpr rfl)] at hrest
    obtain ⟨tr₃, ⟨sizeCode, keySize, valueSize⟩, w₂, tr₄, hop, hread, rfl⟩ :=
      exec_bind_iff.mp hrest
    clear hrest
    obtain ⟨⟨rfl, hsize⟩, rfl⟩ := exec_op_iff.mp hop
    dsimp only at hread
    by_cases hsizeCode : sizeCode = grdOk
    · rw [if_neg (not_not.mpr hsizeCode)] at hread
      obtain ⟨tr₅, ⟨itemCode, item⟩, w₃, tr₆, hop, hnext, rfl⟩ := exec_bind_iff.mp hread
      clear hread
      obtain ⟨⟨rfl, hitem⟩, rfl⟩ := exec_op_iff.mp hop
      dsimp only at hnext
      by_cases hitemCode : itemCode = eOk
      · rw [if_neg (not_not.mpr hitemCode), hitemCode] at hnext
        -- the sizes and the buffers are those of the entry
        obtain ⟨e, he, hsizes⟩ := hsize hsizeCode
        obtain rfl : entry = e := Option.some.inj he
        obtain ⟨hkeySize, hvalueSize⟩ := Prod.mk.inj hsizes
        obtain ⟨e, he, hfilled⟩ := hitem hitemCode
        obtain rfl : entry = e := Option.some.inj he
        obtain rfl : item = entry := hfilled hkeySize hvalueSize
        exact .more item rest tr₆ hentry rfl hnext
      · rw [if_pos hitemCode] at hnext
        obtain ⟨rfl, rfl, rfl⟩ := exec_ret_iff.mp hnext
        exact .failed itemCode rfl hitemCode rfl
    · rw [if_pos hsizeCode] at hread
      obtain ⟨rfl, rfl, rfl⟩ := exec_ret_iff.mp hread
      exact .failed sizeCode rfl hsizeCode rfl
  · rw [if_neg (fun hok => hcode (transferGrdErrno_eq_eOk_iff.mp hok))] at hrest
    obtain ⟨rfl, rfl, rfl⟩ := exec_ret_iff.mp hrest
    exact .last code rfl hcode hlast rfl

theorem getAllInner_cases (hret : ret = eOk)
    (h : Exec (scanKernel (H := H)) (getAllInner rounds ret data) w tr (some (ret', data')) w') :
    Ending w (nextCodes tr) ret' data data' := by
  induction rounds generalizing ret data w tr with
  | zero =>
      obtain ⟨-, heq, -⟩ := exec_ret_iff.mp h
      exact absurd heq (by simp)
  | succ rounds ih =>
      cases getAllInner_succ h with
      | last code htr hcode hend hres =>
          obtain ⟨rfl, rfl⟩ := Prod.mk.inj (Option.some.inj hres)
          refine .next [] code htr hcode ?_ (List.append_nil _).symm (fun hno => (hend hno).symm)
          rw [transferGrdErrno_eq_eOk_iff]
          exact hret
      | failed code htr hcode hres =>
          obtain ⟨rfl, rfl⟩ := Prod.mk.inj (Option.some.inj hres)
          refine .item (by simp [htr]) ?_
          rw [ne_eq, transferGrdErrno_eq_eOk_iff]
          exact hcode
      | more entry rest tr' hrest htr hloop =>
          rw [htr]
          cases ih rfl hloop with
          | next delivered code hcodes hcode hret' hdata hall =>
              refine .next (entry :: delivered) code (by rw [hcodes]; rfl) hcode hret' ?_ ?_
              · rw [hdata, List.append_assoc]
                rfl
              · intro hno
                rw [hrest, hall hno]
          | item hcodes hret' =>
              refine .item ?_ hret'
              intro code hcode
              rcases List.mem_cons.mp hcode with rfl | hcode
              · rfl
              · exact hcodes code hcode

/-- One round more than there are entries is enough for the loop. -/
theorem getAllInner_returns (hrounds : w.rest.length < rounds)
    (h : Exec (scanKernel (H := H)) (getAllInner rounds ret data) w tr res w') : res ≠ none := by
  induction rounds generalizing ret data w tr with
  | zero => exact absurd hrounds (Nat.not_lt_zero _)
  | succ rounds ih =>
      cases getAllInner_succ h with
      | last code htr hcode hend hres => simp [hres]
      | failed code htr hcode hres => simp [hres]
      | more entry rest tr' hrest htr hloop =>
          refine ih ?_ hloop
          rw [hrest, List.length_cons] at hrounds
          exact Nat.lt_of_succ_lt_succ hrounds

/-- The list is the whole collection, because the kernel has said that there is no more. -/
def Complete (w : ScanState) (tr : Trace H) (data data' : Data) : Prop :=
  data' = data ++ w.collection ∧ (nextCodes tr).getLast? = some grdNoData

theorem Ending.complete_iff (h : Ending w (nextCodes tr) ret data data')
    (hrest : w.rest = w.collection) : (ret = eOk → Complete w tr data data') ↔
      ∀ code ∈ nextCodes tr, code = grdOk ∨ code = grdNoData := by
  cases h with
  | next delivered code hcodes hcode hret hdata hall =>
      rw [imp_iff_right hret, Complete, hcodes, List.getLast?_concat, Option.some.injEq]
      constructor
      · intro ⟨_, hno⟩ c hc
        rcases List.mem_append.mp hc with hc | hc
        · obtain ⟨_, -, rfl⟩ := List.mem_map.mp hc
          exact .inl rfl
        · exact .inr ((List.mem_singleton.mp hc).trans hno)
      · intro hfine
        have hno : code = grdNoData :=
          (hfine code (List.mem_append_right _ List.mem_cons_self)).resolve_left hcode
        exact ⟨by rw [hdata, hall hno, hrest], hno⟩
  | item hcodes hret =>
      constructor
      · intro _ code hcode
        exact .inl (hcodes code hcode)
      · intro _ heq
        exact absurd heq hret

theorem exec_filter {db : Option H} {r : Int × Unit}
    (h : Exec scanKernel (do
      let ret ← Program.op (Call.dbKvFilter db)
      return (ret, ())) w tr r w') :
    (∀ ev ∈ tr, nextCode ev = none) ∧ w'.collection = w.collection ∧
      (r.1 = grdOk → w'.rest = w'.collection) := by
  obtain ⟨code, hfilter, rfl, rfl⟩ := exec_op_translated h
  rcases hfilter with ⟨-, rfl⟩ | ⟨hcode, rfl⟩
  · exact ⟨by simp [nextCode], rfl, fun _ => rfl⟩
  · exact ⟨by simp [nextCode], rfl, fun hok => absurd hok hcode⟩

theorem exec_scan_createCollection {api : Api → Bool} {db : Option H}
    (h : Exec scanKernel (createCollection api db) w tr ret w') :
    (∀ ev ∈ tr, nextCode ev = none) ∧ w' = w := by
  rw [createCollection] at h
  split at h
  · obtain ⟨rfl, -, rfl⟩ := exec_ret_iff.mp h
    exact ⟨by simp, rfl⟩
  · obtain ⟨code, rfl, rfl, -⟩ := exec_op_translated h
    exact ⟨by simp [nextCode], rfl⟩

/-- `GetAll` fails before the scan, or scans the collection. -/
theorem getAll_cases {api : Api → Bool} {db : Option H}
    (h : Exec scanKernel (getAll api rounds db data) w tr res w') :
    (∃ code, res = some (code, data) ∧ code ≠ eOk ∧ nextCodes tr = []) ∨
      ∃ (w₁ : ScanState) (trScan : Trace H) (w₂ : ScanState),
        w₁.collection = w.collection ∧ w₁.rest = w₁.collection ∧
        nextCodes tr = nextCodes trScan ∧
        Exec scanKernel (getAllInner rounds eOk data) w₁ trScan res w₂ := by
  rw [getAll] at h
  split at h
  · obtain ⟨rfl, rfl, rfl⟩ := exec_ret_iff.mp h
    exact .inl ⟨_, rfl, by decide, rfl⟩
  split at h
  · obtain ⟨rfl, rfl, rfl⟩ := exec_ret_iff.mp h
    exact .inl ⟨_, rfl, by decide, rfl⟩
  rcases retryLoop_cases (fun w₀ => w₀.collection = w.collection) (fun ev => nextCode ev = none)
    (fun w₀ tr r w₁ hI htry => ⟨(exec_filter htry).2.1.trans hI, (exec_filter htry).1⟩)
    (fun w₀ tr r w₁ hI hmake => ⟨by rw [(exec_scan_createCollection hmake).2, hI],
      (exec_scan_createCollection hmake).1⟩)
    createCollectionRetryTimes eOk (by simp [createCollectionRetryTimes]) rfl h with
    ⟨rfl, htr⟩ | ⟨pre, w₀, trFilter, r, w₁, m, post, rfl, hpre, hI, htry, hdef, hleave⟩
  · exact .inl ⟨_, rfl, by decide, List.filterMap_eq_nil_iff.mpr htr⟩
  · obtain ⟨hfilter, hcollection, hrest⟩ := exec_filter htry
    have hcodes : nextCodes (pre ++ (trFilter ++ post)) = nextCodes post := by
      rw [nextCodes_append, nextCodes_append, nextCodes, List.filterMap_eq_nil_iff.mpr hpre,
        nextCodes, List.filterMap_eq_nil_iff.mpr hfilter]
      rfl
    rw [hcodes]
    by_cases hok : r.1 = grdOk
    · rw [if_pos hok] at hleave
      obtain ⟨trScan, answer, w₂, trFree, hscan, hfree, rfl⟩ := exec_bind_iff.mp hleave
      refine .inr ⟨w₁, trScan, w₂, hcollection.trans hI, hrest hok, ?_, ?_⟩
      · cases answer with
        | none =>
            obtain ⟨rfl, -, -⟩ := exec_ret_iff.mp hfree
            rw [List.append_nil]
        | some innerErr =>
            obtain ⟨code, -, rfl, -⟩ := exec_op_translated hfree
            rw [nextCodes_append]
            exact List.append_nil _
      · cases answer with
        | none =>
            obtain ⟨-, rfl, -⟩ := exec_ret_iff.mp hfree
            exact hscan
        | some innerErr =>
            obtain ⟨code, -, -, rfl⟩ := exec_op_translated hfree
            exact hscan
    · rw [if_neg hok] at hleave
      obtain ⟨rfl, rfl, rfl⟩ := exec_ret_iff.mp hleave
      refine .inl ⟨_, rfl, ?_, rfl⟩
      rw [ne_eq, transferGrdErrno_eq_eOk_iff]
      exact hok

/-- `GetAll` returns. -/
theorem getAll_returns {api : Api → Bool} {db : Option H} (hrounds : w.collection.length < rounds)
    (h : Exec scanKernel (getAll api rounds db data) w tr res w') : res ≠ none := by
  rcases getAll_cases h with ⟨code, rfl, -⟩ | ⟨w₁, trScan, w₂, hcollection, hrest, -, hscan⟩
  · exact Option.some_ne_none _
  · refine getAllInner_returns ?_ hscan
    rw [hrest, hcollection]
    exact hrounds

/-- **A scan is complete** exactly if `NextApi` gives no codes but `GRD_OK` and `GRD_NO_DATA`. -/
theorem getAll_complete_iff (api : Api → Bool) (rounds : Nat) (db : Option H)
    (h : Exec scanKernel (getAll api rounds db data) w tr (some (ret, data')) w') :
    (ret = eOk → Complete w tr data data') ↔
      ∀ code ∈ nextCodes tr, code = grdOk ∨ code = grdNoData := by
  rcases getAll_cases h with ⟨code, heq, hcode, htr⟩ |
    ⟨w₁, trScan, w₂, hcollection, hrest, htr, hscan⟩
  · obtain ⟨rfl, rfl⟩ := Prod.mk.inj (Option.some.inj heq)
    constructor
    · intro _ c hc
      rw [htr] at hc
      exact absurd hc List.not_mem_nil
    · intro _ heq
      exact absurd heq hcode
  · rw [Complete, htr, ← hcollection]
    exact (getAllInner_cases rfl hscan).complete_iff hrest

/-- The scan of a working kernel. -/
theorem getAll_one_entry : Complete (H := Unit) ⟨[([107], [1])], [], none⟩
    [⟨.dbKvFilter (some ()), grdOk⟩, ⟨.next, grdOk⟩, ⟨.getItemSize, (grdOk, 1, 1)⟩,
      ⟨.getItem 1 1, (grdOk, [107], [1])⟩, ⟨.next, grdNoData⟩, ⟨.freeResultSet, grdOk⟩] []
    [([107], [1])] := by
  have hrun : Exec scanKernel (getAll (fun _ => true) 2 (some ()) []) ⟨[([107], [1])], [], none⟩
      [⟨.dbKvFilter (some ()), grdOk⟩, ⟨.next, grdOk⟩, ⟨.getItemSize, (grdOk, 1, 1)⟩,
        ⟨.getItem 1 1, (grdOk, [107], [1])⟩, ⟨.next, grdNoData⟩, ⟨.freeResultSet, grdOk⟩]
      (some (eOk, [([107], [1])])) ⟨[([107], [1])], [], some ([107], [1])⟩ :=
    .call (.inl ⟨rfl, rfl⟩) (.call (.inl ⟨rfl, _, _, rfl, rfl⟩)
      (.call ⟨rfl, fun _ => ⟨_, rfl, rfl⟩⟩ (.call ⟨rfl, fun _ => ⟨_, rfl, fun _ _ => rfl⟩⟩
        (.call (.inr ⟨by decide, fun _ => rfl, rfl⟩) (.call rfl .ret)))))
  exact (getAll_complete_iff _ _ _ hrun).mpr (by decide) rfl

/-- `NextApi` fails (`GRD_INNER_ERR`) before the first entry. -/
theorem getAll_cut_short : ¬ ∀ (api : Api → Bool) (rounds : Nat) (db : Option Unit)
    (w : ScanState) (tr : Trace Unit) (ret : Int) (data' : Data)
    (w' : ScanState), Exec scanKernel (getAll api rounds db []) w tr (some (ret, data')) w' →
      ret = eOk → Complete w tr [] data' := by
  intro h
  have hrun : Exec scanKernel (getAll (fun _ => true) 1 (some ()) []) ⟨[([107], [1])], [], none⟩
      [⟨.dbKvFilter (some ()), grdOk⟩, ⟨.next, -8000⟩, ⟨.freeResultSet, grdOk⟩]
      (some (eOk, [])) ⟨[([107], [1])], [([107], [1])], none⟩ :=
    .call (.inl ⟨rfl, rfl⟩) (.call (.inr ⟨by decide, by decide, rfl⟩) (.call rfl .ret))
  have hall := (h _ _ _ _ _ _ _ _ hrun rfl).1
  exact absurd hall (by decide)

end NativePreferences.Grd
