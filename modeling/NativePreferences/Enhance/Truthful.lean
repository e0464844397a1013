import NativePreferences.Enhance.EnhanceImpl
import NativePreferences.Lib.Transition

/-!
# NativePreferences.Enhance.Truthful

**What a store with the enhanced backend returns when the database fails.** Whatever call of the
kernel fails, and whatever it says about its version, a store keeps copies only of what is in the
collection (`Truthful`), and so its answers are true.

There is one exception. `Clear` drops the collection, creates it again and only then forgets its
copies. If the second of these calls fails, the store is left with copies of what is gone, and
they are returned as soon as something takes over the version of the kernel.
-/

namespace NativePreferences

open Lib

/-- The collection holds the value under the key. -/
def Holds (c : Collection) (key : String) (v : PreferencesValue) : Prop :=
  ∃ oriValue, c.lookup key = some oriValue ∧ unmarshallingPreferenceValue oriValue = (.ok, v)

/-- The copies are copies of what is in the collection. -/
def Truthful (cached : PrefMap) (c : Collection) : Prop :=
  ∀ key v, cached.lookup key = some v → Holds c key v

/-- What `Get` and `GetValue` return is in the collection, or it is the default value. -/
def Answer.TrueOf (c : Collection) : Query → Answer → Prop
  | .get key defValue, .value v => Holds c key v ∨ v = defValue
  | .getValue key defValue, .codeValue errCode v =>
      if errCode = .ok then Holds c key v else v = defValue
  | .get _ _, _ | .getValue _ _, _ => False
  | _, _ => True

variable {h : EnhanceImpl} {w : Option Collection} {c : Collection} {key : String}

/-! ### The database -/

namespace PreferencesDb

theorem faulty_createCollection (w : Option Collection) :
    createCollection.Ensures faultyKernel Eq (fun _ w' => contents w' = contents w) w := by
  rintro w₁ r w₂ rfl (⟨-, rfl⟩ | ⟨-, rfl⟩)
  · rfl
  · rfl

theorem faulty_getKernelDataVersion (w : Option Collection) :
    getKernelDataVersion.Ensures faultyKernel Eq (fun _ w' => w' = w) w := by
  rintro w₁ r w₂ rfl rfl
  rfl

/-- The loop, for an attempt that changes nothing if there is no collection. -/
theorem faulty_retry {α : Type} {attempt : KernelProgram (GrdCode × α)}
    {Q : GrdCode × α → Collection → Prop}
    (hattempt : ∀ w, contents w = c → attempt.Ensures faultyKernel Eq
      (fun ret w' => Q ret (contents w') ∧ (ret.1 = .undefinedTable → contents w' = c)) w)
    (last : GrdCode × α) (hw : contents w = c) :
    (retry attempt createCollectionRetryTimes last).Ensures faultyKernel Eq
      (fun ret w' => Q ret (contents w')) w := by
  refine ensures_retry (fun w => contents w = c) ?_ _ last hw ?_
  · intro w₁ hw₁
    refine (hattempt w₁ hw₁).mono ?_
    intro ret w' ⟨hQ, hsame⟩
    split
    · next hundef =>
      refine (faulty_createCollection w').mono ?_
      intro _ w'' hw''
      rw [hw'']
      exact ⟨hsame hundef, hQ⟩
    · exact hQ
  · intro hzero
    exact absurd hzero (by decide)

/-- `Put` and `Delete`: the call changes the collection, or it fails and changes nothing. -/
theorem faulty_write {attempt : KernelProgram (GrdCode × Unit)} {f : Collection → Collection}
    (hattempt : ∀ w, attempt.Ensures faultyKernel Eq
      (fun ret w' => (∃ c, w = some c ∧ ret.1 = .ok ∧ w' = some (f c)) ∨ (ret.1 ≠ .ok ∧ w' = w)) w)
    (w : Option Collection) :
    (do
      let ret ← retry attempt createCollectionRetryTimes (.ok, ())
      return transferGrdErrno ret.1 : KernelProgram ErrCode).Ensures faultyKernel Eq
      (fun errCode w' => contents w' = if errCode = .ok then f (contents w) else contents w) w := by
  refine (faulty_retry (c := contents w)
    (Q := fun ret c' => c' = if ret.1 = .ok then f (contents w) else contents w) ?_ _ rfl).bind ?_
  · intro w₁ hw₁
    refine (hattempt w₁).mono ?_
    rintro ret w' (⟨c, rfl, hok, rfl⟩ | ⟨hfail, rfl⟩)
    · refine ⟨?_, ?_⟩
      · rw [if_pos hok, ← hw₁]
        rfl
      · intro hundef
        exact absurd (hundef.symm.trans hok) (by simp)
    · refine ⟨?_, fun _ => hw₁⟩
      rw [if_neg hfail, hw₁]
  · intro ret w' hret
    show contents w' = if transferGrdErrno ret.1 = .ok then _ else _
    simp only [transferGrdErrno_ok_iff]
    exact hret

theorem faulty_put (key : String) (value : Bytes) (w : Option Collection) :
    (put key value).Ensures faultyKernel Eq
      (fun errCode w' => contents w' =
        if errCode = .ok then (contents w).insert key value else contents w) w := by
  refine faulty_write (f := fun c => c.insert key value) ?_ w
  rintro w₁ _ r w₂ rfl hput
  exact hput

theorem faulty_delete (key : String) (w : Option Collection) :
    (delete key).Ensures faultyKernel Eq
      (fun errCode w' => contents w' =
        if errCode = .ok then (contents w).erase key else contents w) w := by
  refine faulty_write (f := fun c => c.erase key) ?_ w
  rintro w₁ _ r w₂ rfl hdel
  exact hdel

theorem faulty_get (key : String) (w : Option Collection) :
    (get key).Ensures faultyKernel Eq
      (fun ret w' => contents w' = contents w ∧
        (ret.1 = .ok → (contents w).lookup key = some ret.2)) w := by
  refine (faulty_retry (c := contents w)
    (Q := fun ret c' => c' = contents w ∧ (ret.1 = .ok → (contents w).lookup key = some ret.2))
    ?_ _ rfl).bind ?_
  · rintro w₁ hw₁ w₂ r w₃ rfl ⟨rfl, hr⟩
    refine ⟨⟨hw₁, ?_⟩, fun _ => hw₁⟩
    rw [← hw₁]
    exact hr
  · intro ret w' ⟨hw', hret⟩
    refine ⟨hw', ?_⟩
    intro hok
    exact hret (transferGrdErrno_ok_iff.mp hok)

/-- The rows that are delivered are among those of the result set that arrive. -/
theorem mem_getAllInner {resultSet : List Row} {key : String} {value : Bytes}
    (hmem : (key, value) ∈ (getAllInner resultSet).2) :
    ∃ row ∈ resultSet, row.sizeCode = .ok ∧ row.itemCode = .ok ∧ row.key = key ∧
      row.value = value := by
  induction resultSet with
  | nil => exact absurd hmem (by simp [getAllInner])
  | cons row resultSet ih =>
      rw [getAllInner] at hmem
      split at hmem
      · exact absurd hmem (by simp)
      · next hsize =>
        split at hmem
        · exact absurd hmem (by simp)
        · next hitem =>
          rcases List.mem_cons.mp hmem with heq | hrest
          · obtain ⟨rfl, rfl⟩ : key = row.key ∧ value = row.value := by simpa using heq
            exact ⟨row, List.mem_cons_self, not_not.mp hsize, not_not.mp hitem, rfl, rfl⟩
          · obtain ⟨row', hrow', hrow⟩ := ih hrest
            exact ⟨row', List.mem_cons_of_mem _ hrow', hrow⟩

theorem faulty_getAll (w : Option Collection) :
    getAll.Ensures faultyKernel Eq
      (fun ret w' => contents w' = contents w ∧ (ret.1 = .ok → ∀ key value, (key, value) ∈ ret.2 →
        (contents w).lookup key = some value)) w := by
  refine (faulty_retry (c := contents w)
    (Q := fun ret c' => c' = contents w ∧ (ret.1 = .ok → ∀ row ∈ ret.2, row.sizeCode = .ok →
      row.itemCode = .ok → (contents w).lookup row.key = some row.value)) ?_ _ rfl).bind ?_
  · rintro w₁ hw₁ w₂ r w₃ rfl ⟨rfl, hr⟩
    refine ⟨⟨hw₁, ?_⟩, fun _ => hw₁⟩
    rw [← hw₁]
    exact hr
  · intro ⟨ret, resultSet⟩ w' ⟨hw', hrows⟩
    by_cases hok : ret = .ok
    · show Program.Ensures _ _ _ (if ret = .ok then _ else _) w'
      rw [if_pos hok]
      refine ⟨hw', ?_⟩
      intro _ key value hmem
      obtain ⟨row, hrow, hsize, hitem, rfl, rfl⟩ := mem_getAllInner hmem
      exact hrows hok row hrow hsize hitem
    · show Program.Ensures _ _ _ (if ret = .ok then _ else _) w'
      rw [if_neg hok]
      refine ⟨hw', ?_⟩
      intro hret
      exact absurd (transferGrdErrno_ok_iff.mp hret) hok

end PreferencesDb

/-! ### The reading functions -/

theorem truthful_empty (c : Collection) : Truthful ∅ c := by
  intro key v hv
  exact absurd hv (by simp)

/-- Copies may be dropped, and the collection may change where there is no copy. -/
theorem Truthful.of_untouched {cached cached' : PrefMap} {c' : Collection} (ht : Truthful cached c)
    (hsame : ∀ k v, cached'.lookup k = some v →
      cached.lookup k = some v ∧ c'.lookup k = c.lookup k) : Truthful cached' c' := by
  intro k v hk
  obtain ⟨hold, hlook⟩ := hsame k v hk
  obtain ⟨oriValue, hval, hitem⟩ := ht k v hold
  exact ⟨oriValue, hlook.trans hval, hitem⟩

/-- A copy that is replaced by one of what the collection holds. -/
theorem Truthful.replace {cached : PrefMap} {v : PreferencesValue}
    (ht : Truthful (cached.erase key) c) (hv : Holds c key v) :
    Truthful (cached.insert key v) c := by
  intro k u hk
  by_cases heq : k = key
  · rw [heq] at hk ⊢
    have huv : v = u := Option.some.inj ((Finmap.lookup_insert _).symm.trans hk)
    rw [← huv]
    exact hv
  · rw [Finmap.lookup_insert_of_ne _ heq] at hk
    exact ht k u ((Finmap.lookup_erase_ne heq).trans hk)

/-- What is left after a key is erased is about other keys. -/
theorem lookup_erase_some {cached : PrefMap} {k : String} {v : PreferencesValue}
    (hk : (cached.erase key).lookup k = some v) : k ≠ key ∧ cached.lookup k = some v := by
  have hne : k ≠ key := by
    rintro rfl
    rw [Finmap.lookup_erase] at hk
    exact absurd hk (by simp)
  exact ⟨hne, (Finmap.lookup_erase_ne hne).symm.trans hk⟩

theorem Truthful.insert {cached : PrefMap} {v : PreferencesValue} (ht : Truthful cached c)
    (hv : Holds c key v) : Truthful (cached.insert key v) c :=
  Truthful.replace (ht.of_untouched (fun _ _ hk => ⟨(lookup_erase_some hk).2, rfl⟩)) hv

namespace EnhanceImpl

/-- What was found is in the collection, or there is an error code. -/
def Found.Sound (c : Collection) (key : String) : Found → Prop
  | .value v => Holds c key v
  | .malformed errCode | .failed errCode => errCode ≠ .ok

theorem keep_truthful {oriValue : Bytes} (ht : Truthful h.largeCachedData c)
    (hval : c.lookup key = some oriValue) (version : Int64) :
    Truthful (h.keep key version oriValue).2.largeCachedData c ∧
      (h.keep key version oriValue).1.Sound c key := by
  rw [EnhanceImpl.keep]
  split
  · next hbad => exact ⟨ht, hbad⟩
  · next hok =>
    have hholds : Holds c key (unmarshallingPreferenceValue oriValue).2 :=
      ⟨oriValue, hval, Prod.ext (not_not.mp hok) rfl⟩
    split
    · exact ⟨ht.insert hholds, hholds⟩
    · exact ⟨ht, hholds⟩

/-- `Get`, `GetValue` and `HasKey` find what is there. -/
theorem find_truthful (ht : Truthful h.largeCachedData (contents w)) (key : String) :
    (h.find key).Ensures faultyKernel Eq
      (fun res w' => contents w' = contents w ∧ Truthful res.2.largeCachedData (contents w) ∧
        res.1.Sound (contents w) key) w := by
  rw [find]
  split
  · refine (PreferencesDb.faulty_getKernelDataVersion w).bind ?_
    rintro version _ rfl
    cases version with
    | none => exact ⟨rfl, ht, by simp [Found.Sound]⟩
    | some version =>
        dsimp only
        split
        · next v hv =>
          refine ⟨rfl, ht, ?_⟩
          split at hv
          · exact ht key v hv
          · exact absurd hv (by simp)
        · refine (PreferencesDb.faulty_get key _).bind ?_
          intro ⟨errCode, oriValue⟩ w' ⟨hw', hget⟩
          dsimp only
          split
          · next hfail => exact ⟨hw', ht, hfail⟩
          · next hok =>
            obtain ⟨hkeep, hfound⟩ := keep_truthful ht (hget (not_not.mp hok)) version
            exact ⟨hw', hkeep, hfound⟩
  · exact ⟨rfl, ht, by simp [Found.Sound]⟩

/-- The collection holds no value that is large enough to be kept. -/
def NothingLarge (c : Collection) : Prop :=
  ∀ key oriValue, c.lookup key = some oriValue → oriValue.length < cachedThresholds

/-- The loop over what the database returned. -/
theorem collect_truthful {data : List (String × Bytes)} {result cached : PrefMap}
    (hdata : ∀ key oriValue, (key, oriValue) ∈ data → c.lookup key = some oriValue)
    (ht : Truthful cached c) :
    Truthful (collect data result cached).2.2 c ∧
      (NothingLarge c → (collect data result cached).2.2 = cached) := by
  induction data generalizing result cached with
  | nil => exact ⟨ht, fun _ => rfl⟩
  | cons entry data ih =>
      obtain ⟨key, oriValue⟩ := entry
      have hval : c.lookup key = some oriValue := hdata key oriValue List.mem_cons_self
      have hrest : ∀ k b, (k, b) ∈ data → c.lookup k = some b := by
        intro k b hmem
        exact hdata k b (List.mem_cons_of_mem _ hmem)
      simp only [collect]
      split
      · exact ⟨ht, fun _ => rfl⟩
      · next hok =>
        have hholds : Holds c key (unmarshallingPreferenceValue oriValue).2 :=
          ⟨oriValue, hval, Prod.ext (not_not.mp hok) rfl⟩
        by_cases hlarge : cachedThresholds ≤ oriValue.length
        · rw [if_pos hlarge]
          refine ⟨(ih hrest (ht.insert hholds)).1, ?_⟩
          intro hnone
          exact absurd (hnone key oriValue hval) (not_lt.mpr hlarge)
        · rw [if_neg hlarge]
          exact ih hrest ht

/-- `GetAllInner` keeps copies of what is there. -/
theorem getAllInner_truthful (ht : Truthful h.largeCachedData (contents w)) :
    h.getAllInner.Ensures faultyKernel Eq
      (fun res w' => contents w' = contents w ∧ Truthful res.2.largeCachedData (contents w) ∧
        (NothingLarge (contents w) → res.2.largeCachedData = h.largeCachedData)) w := by
  rw [getAllInner]
  split
  · refine (PreferencesDb.faulty_getKernelDataVersion w).bind ?_
    rintro version _ rfl
    cases version with
    | none => exact ⟨rfl, ht, fun _ => rfl⟩
    | some version =>
        refine (PreferencesDb.faulty_getAll _).bind ?_
        intro ⟨errCode, data⟩ w' ⟨hw', hdata⟩
        dsimp only
        split
        · exact ⟨hw', ht, fun _ => rfl⟩
        · next hok =>
          obtain ⟨hcached, hsame⟩ : Truthful (collect data ∅ h.largeCachedData).2.2 _ ∧ _ :=
            collect_truthful (hdata (not_not.mp hok)) ht
          split
          · exact ⟨hw', hcached, hsame⟩
          · exact ⟨hw', hcached, hsame⟩
  · exact ⟨rfl, ht, fun _ => rfl⟩

theorem Found.get_true {found : Found} (hfound : found.Sound c key) (defValue : PreferencesValue) :
    (found.answer (.get key defValue)).TrueOf c (.get key defValue) := by
  cases found with
  | value v => exact .inl hfound
  | malformed | failed => exact .inr rfl

theorem Found.getValue_true {found : Found} (hfound : found.Sound c key)
    (defValue : PreferencesValue) :
    (found.answer (.getValue key defValue)).TrueOf c (.getValue key defValue) := by
  cases found with
  | value v => exact hfound
  | malformed errCode =>
      show if errCode = .ok then _ else _
      rw [if_neg hfound]
  | failed errCode =>
      show if errCode = .ok then _ else _
      rw [if_neg hfound]

/-- **A reading function.** -/
theorem query_truthful (ht : Truthful h.largeCachedData (contents w)) (q : Query) :
    (h.query q).Ensures faultyKernel Eq
      (fun res w' => contents w' = contents w ∧ Truthful res.2.largeCachedData (contents w) ∧
        res.1.TrueOf (contents w) q) w := by
  cases q with
  | get key defValue =>
      rw [query]
      split
      · exact ⟨rfl, ht, .inr rfl⟩
      · refine (find_truthful ht key).bind ?_
        intro res w' ⟨hw', hres, hfound⟩
        exact ⟨hw', hres, Found.get_true hfound defValue⟩
  | getValue key defValue =>
      rw [query]
      split
      · next hkey =>
        refine ⟨rfl, ht, ?_⟩
        show if checkKey key = .ok then _ else _
        rw [if_neg hkey]
      · refine (find_truthful ht key).bind ?_
        intro res w' ⟨hw', hres, hfound⟩
        exact ⟨hw', hres, Found.getValue_true hfound defValue⟩
  | hasKey key =>
      rw [query]
      split
      · exact ⟨rfl, ht, trivial⟩
      · refine (find_truthful ht key).bind ?_
        intro res w' ⟨hw', hres, _⟩
        exact ⟨hw', hres, trivial⟩
  | getAll | getAllData | getAllDatas =>
      refine (getAllInner_truthful ht).bind ?_
      intro res w' ⟨hw', hres, _⟩
      exact ⟨hw', hres, trivial⟩

/-! ### The writing functions -/

theorem afterPut_truthful {value : PreferencesValue} {oriValue : Bytes}
    (ht : Truthful h.largeCachedData c)
    (hitem : unmarshallingPreferenceValue oriValue = (.ok, value))
    (oriValueLen : Nat) :
    Truthful (h.afterPut key value oriValueLen).largeCachedData (c.insert key oriValue) := by
  have hrest : Truthful (h.largeCachedData.erase key) (c.insert key oriValue) := by
    refine ht.of_untouched ?_
    intro k v hk
    obtain ⟨hne, hold⟩ := lookup_erase_some hk
    exact ⟨hold, Finmap.lookup_insert_of_ne _ hne⟩
  rw [afterPut]
  split
  · exact hrest.replace ⟨oriValue, Finmap.lookup_insert _, hitem⟩
  · exact hrest

theorem afterDelete_truthful (ht : Truthful h.largeCachedData c) :
    Truthful (h.afterDelete key).largeCachedData (c.erase key) := by
  rw [afterDelete]
  split
  · refine ht.of_untouched ?_
    intro k v hk
    obtain ⟨hne, hold⟩ := lookup_erase_some hk
    exact ⟨hold, Finmap.lookup_erase_ne hne⟩
  · next hmem =>
    refine ht.of_untouched ?_
    intro k v hk
    refine ⟨hk, Finmap.lookup_erase_ne ?_⟩
    rintro rfl
    exact hmem (Finmap.mem_of_lookup_eq_some hk)

theorem put_truthful {value : PreferencesValue} (ht : Truthful h.largeCachedData (contents w))
    (hsize : parcelSize value < 2 ^ 32) (key : String) :
    (h.put key value).Ensures faultyKernel Eq
      (fun res w' => Truthful res.2.largeCachedData (contents w')) w := by
  rw [put]
  split
  · exact ht
  · split
    · exact ht
    · split
      · split
        · exact ht
        · next oriValue hmarshal =>
          have hitem := unmarshalling_marshalling hmarshal (hsize.trans (by decide))
          refine (PreferencesDb.faulty_put key oriValue w).bind ?_
          intro errCode w' hw'
          split
          · next hfail =>
            rw [if_neg hfail] at hw'
            show Truthful h.largeCachedData (contents w')
            rw [hw']
            exact ht
          · next hok =>
            rw [if_pos (not_not.mp hok)] at hw'
            show Truthful (h.afterPut key value _).largeCachedData (contents w')
            rw [hw']
            exact afterPut_truthful ht hitem _
      · exact ht

theorem delete_truthful (ht : Truthful h.largeCachedData (contents w)) (key : String) :
    (h.delete key).Ensures faultyKernel Eq
      (fun res w' => Truthful res.2.largeCachedData (contents w')) w := by
  rw [delete]
  split
  · exact ht
  · split
    · refine (PreferencesDb.faulty_delete key w).bind ?_
      intro errCode w' hw'
      split
      · next hfail =>
        rw [if_neg hfail] at hw'
        show Truthful h.largeCachedData (contents w')
        rw [hw']
        exact ht
      · next hok =>
        rw [if_pos (not_not.mp hok)] at hw'
        show Truthful (h.afterDelete key).largeCachedData (contents w')
        rw [hw']
        exact afterDelete_truthful ht
    · exact ht

/-- `Clear`, unless it is left between the two calls for the collection. -/
theorem clear_truthful {tr : List (Event KernelAnswer)} {res : ErrCode × EnhanceImpl}
    {w' : Option Collection} (ht : Truthful h.largeCachedData (contents w))
    (hex : Exec faultyKernel h.clear w tr res w')
    (hdone : ∀ pre code,
      tr = pre ++ [⟨.dropCollection, GrdCode.ok⟩, ⟨.createCollection, code⟩] →
        code = GrdCode.ok ∨ (h.largeCachedData = ∅ ∧ NothingLarge (contents w))) :
    Truthful res.2.largeCachedData (contents w') := by
  rw [clear] at hex
  split at hex
  · obtain ⟨tr₁, ⟨all, h₁⟩, w₁, tr₂, hall, hrest₁, rfl⟩ := exec_bind_iff.mp hex
    obtain ⟨hw₁, ht₁, hnone⟩ := hall.ensures (getAllInner_truthful ht)
    dsimp only at hrest₁
    split at hrest₁
    · obtain ⟨-, rfl, rfl⟩ := exec_ret_iff.mp hrest₁
      rw [hw₁]
      exact ht₁
    · obtain ⟨tr₃, errCode, w₂, tr₄, hdrop, hrest₂, rfl⟩ := exec_bind_iff.mp hrest₁
      obtain ⟨dropCode, hS, rfl, rfl⟩ := PreferencesDb.exec_dropCollection hdrop
      split at hrest₂
      · next hfail =>
        obtain ⟨-, rfl, rfl⟩ := exec_ret_iff.mp hrest₂
        rcases hS with ⟨rfl, -⟩ | ⟨-, rfl⟩
        · exact absurd rfl hfail
        · rw [hw₁]
          exact ht₁
      · next hok =>
        obtain rfl : dropCode = .ok := transferGrdErrno_ok_iff.mp (not_not.mp hok)
        obtain ⟨tr₅, errCode, w₃, tr₆, hcreate, hrest₃, rfl⟩ := exec_bind_iff.mp hrest₂
        obtain ⟨createCode, hS', rfl, rfl⟩ := PreferencesDb.exec_createCollection hcreate
        split at hrest₃
        · next hfail =>
          -- the copies are still there, and must be none
          obtain ⟨rfl, rfl, rfl⟩ := exec_ret_iff.mp hrest₃
          rcases hdone tr₁ createCode (by simp) with rfl | ⟨hempty, hlarge⟩
          · exact absurd rfl hfail
          · show Truthful h₁.largeCachedData _
            rw [hnone hlarge, hempty]
            exact truthful_empty _
        · obtain ⟨-, rfl, rfl⟩ := exec_ret_iff.mp hrest₃
          exact truthful_empty _
  · obtain ⟨-, rfl, rfl⟩ := exec_ret_iff.mp hex
    exact ht

/-! ### Runs -/

/-- The call is one after which the store can be trusted. The value of a `Put` fits the buffer
that is made for it, and a `Clear` that has dropped the collection creates it again, unless there
was nothing large in the store. -/
structure Orderly (s : Session) (l : SessionEv) : Prop where
  fits : ∀ key value, l.1 = .put key value → parcelSize value < 2 ^ 32
  clears : l.1 = .clear → ∀ pre code,
    l.2.1 = pre ++ [⟨.dropCollection, GrdCode.ok⟩, ⟨.createCollection, code⟩] →
      code = GrdCode.ok ∨ (s.1.largeCachedData = ∅ ∧ NothingLarge (contents s.2))

/-- **One call.** -/
theorem step_truthful {s s' : Session} {l : SessionEv}
    (ht : Truthful s.1.largeCachedData (contents s.2))
    (hstep : guarded (Step faultyKernel) Orderly s l s') :
    Truthful s'.1.largeCachedData (contents s'.2) := by
  obtain ⟨hex, hfits, hclears⟩ := hstep
  obtain ⟨op, tr, reply⟩ := l
  cases op with
  | put key value =>
      have hput : (s.1.call (.put key value)).Ensures faultyKernel Eq
          (fun res w' => Truthful res.2.largeCachedData (contents w')) s.2 :=
        (put_truthful ht (hfits key value rfl) key).bind (fun _ _ h => h)
      exact hex.ensures hput
  | delete key =>
      have hdelete : (s.1.call (.delete key)).Ensures faultyKernel Eq
          (fun res w' => Truthful res.2.largeCachedData (contents w')) s.2 :=
        (delete_truthful ht key).bind (fun _ _ h => h)
      exact hex.ensures hdelete
  | clear =>
      obtain ⟨h', w'⟩ := s'
      obtain ⟨tr₁, res, w₁, tr₂, hclear, hret, htr⟩ := exec_bind_iff.mp hex
      obtain ⟨rfl, hres, hw'⟩ := exec_ret_iff.mp hret
      obtain ⟨-, rfl⟩ := Prod.mk.inj hres
      obtain rfl : w' = w₁ := hw'
      rw [List.append_nil] at htr
      exact clear_truthful ht hclear (fun pre code heq => hclears rfl pre code (htr.trans heq))
  | query q =>
      have hquery : (s.1.call (.query q)).Ensures faultyKernel Eq
          (fun res w' => Truthful res.2.largeCachedData (contents w')) s.2 := by
        refine (query_truthful ht q).bind ?_
        intro res w' ⟨hw', hres, _⟩
        show Truthful res.2.largeCachedData (contents w')
        rw [hw']
        exact hres
      exact hex.ensures hquery

/-- **Answers are true.** In every run from a new store in which every call is `Orderly`, whatever
fails, what `Get` or `GetValue` return next is in the collection or is the default value. -/
theorem reads_truthful (w₀ : Option Collection) (ls : List SessionEv) (h : EnhanceImpl)
    (w : Option Collection)
    (hrun : Run (guarded (Step faultyKernel) Orderly) (initial, w₀) ls (h, w))
    (q : Query) (tr : List (Event KernelAnswer)) (a : Answer) (h' : EnhanceImpl)
    (w' : Option Collection) (hread : Step faultyKernel (h, w) (.query q, tr, .answer a) (h', w')) :
    a.TrueOf (contents w') q := by
  have ht : Truthful h.largeCachedData (contents w) :=
    hrun.invariant (I := fun s => Truthful s.1.largeCachedData (contents s.2))
      (fun s l s' ht hstep => step_truthful ht hstep) (truthful_empty _)
  have hquery : (h.call (.query q)).Ensures faultyKernel Eq
      (fun res w' => ∀ a, res.1 = .answer a → a.TrueOf (contents w') q) w := by
    refine (query_truthful ht q).bind ?_
    intro res w' ⟨hw', _, htrue⟩ a ha
    obtain rfl := Reply.answer.inj ha
    rw [hw']
    exact htrue
  exact hread.ensures hquery a rfl

/-! ### A `Clear` that is left half done -/

section HalfCleared

variable {W : Type} {S : Sem KernelCall KernelAnswer W} {w w' w₁ : W}
variable {h : EnhanceImpl} {value : PreferencesValue} {oriValue : Bytes} {key : String}

theorem exec_put_ok (hopen : h.isOpen = true) (hkey : checkKey key = .ok)
    (hval : checkValue value = .ok) (hm : marshallingPreferenceValue value = .ok oriValue)
    (hS : S (.kvPut key oriValue) w GrdCode.ok w') :
    Exec S (h.call (.put key value)) w [⟨.kvPut key oriValue, GrdCode.ok⟩]
      (.code .ok, h.afterPut key value (calSize value)) w' := by
  have hprog : h.put key value = PreferencesDb.put key oriValue >>= fun errCode =>
      if errCode ≠ .ok then pure (errCode, h)
      else pure (.ok, h.afterPut key value (calSize value)) := by
    rw [put, if_neg (not_not.mpr hkey), if_neg (not_not.mpr hval), if_pos hopen, hm]
  rw [call, hprog]
  exact .call hS .ret

theorem exec_getAllInner_ok {data : List (String × Bytes)} {tr : List (Event KernelAnswer)}
    {result cached : PrefMap} (hopen : h.isOpen = true) {version : Int64}
    (hS : S .getConfig w (some version) w₁)
    (hall : Exec S PreferencesDb.getAll w₁ tr (.ok, data) w')
    (hcollect : collect data ∅ h.largeCachedData = (.ok, result, cached)) :
    Exec S h.getAllInner w (⟨.getConfig, some version⟩ :: tr)
      ((.ok, result), { h with largeCachedData := cached, cachedDataVersion := version }) w' := by
  rw [getAllInner, if_pos hopen]
  refine .call hS ?_
  show Exec S (PreferencesDb.getAll >>= _) w₁ tr _ w'
  refine exec_bind_iff.mpr ⟨tr, (.ok, data), w', [], hall, ?_, (List.append_nil tr).symm⟩
  dsimp only
  rw [hcollect]
  exact .ret

/-- Everything is read, the collection is dropped, and cannot be created. -/
theorem exec_clear_half {c : Collection} {data : List (String × Bytes)}
    {tr : List (Event KernelAnswer)} {result cached : PrefMap} (hopen : h.isOpen = true)
    (version : Int64)
    (hall : Exec faultyKernel PreferencesDb.getAll (some c) tr (.ok, data) (some c))
    (hcollect : collect data ∅ h.largeCachedData = (.ok, result, cached)) :
    Exec faultyKernel (h.call .clear) (some c)
      (⟨.getConfig, some version⟩ :: (tr ++ [⟨.dropCollection, GrdCode.ok⟩,
        ⟨.createCollection, GrdCode.other⟩]))
      (.code .error, { h with largeCachedData := cached, cachedDataVersion := version }) none := by
  have hclear : Exec faultyKernel h.clear (some c)
      (⟨.getConfig, some version⟩ :: (tr ++ [⟨.dropCollection, GrdCode.ok⟩,
        ⟨.createCollection, GrdCode.other⟩]))
      (.error, { h with largeCachedData := cached, cachedDataVersion := version }) none := by
    rw [clear, if_pos hopen]
    have hS : faultyKernel .getConfig (some c) (some version) (some c) := rfl
    refine exec_bind_iff.mpr ⟨_, _, _, _, exec_getAllInner_ok hopen hS hall hcollect, ?_, rfl⟩
    exact .call (.inl ⟨rfl, rfl⟩) (.call (.inr ⟨by simp, rfl⟩) .ret)
  exact exec_bind_iff.mpr ⟨_, _, _, [], hclear, .ret, (List.append_nil _).symm⟩

/-- `GetAllData` reads everything and takes over the version. -/
theorem exec_getAllData_ok {data : List (String × Bytes)} {tr : List (Event KernelAnswer)}
    {result cached : PrefMap} (hopen : h.isOpen = true) {version : Int64}
    (hS : S .getConfig w (some version) w₁)
    (hall : Exec S PreferencesDb.getAll w₁ tr (.ok, data) w')
    (hcollect : collect data ∅ h.largeCachedData = (.ok, result, cached)) :
    Exec S (h.call (.query .getAllData)) w (⟨.getConfig, some version⟩ :: tr)
      (.answer (.codeMap .ok result),
        { h with largeCachedData := cached, cachedDataVersion := version }) w' := by
  have hinner := exec_getAllInner_ok hopen hS hall hcollect
  have hquery : Exec S (h.query .getAllData) w (⟨.getConfig, some version⟩ :: tr)
      (.codeMap .ok result,
        { h with largeCachedData := cached, cachedDataVersion := version }) w' :=
    exec_bind_iff.mpr ⟨_, _, _, [], hinner, .ret, (List.append_nil _).symm⟩
  exact exec_bind_iff.mpr ⟨_, _, _, [], hquery, .ret, (List.append_nil _).symm⟩

theorem exec_get {found : Found} {h' : EnhanceImpl} {tr : List (Event KernelAnswer)}
    (defValue : PreferencesValue) (hkey : checkKey key = .ok)
    (hfind : Exec S (h.find key) w tr (found, h') w') :
    Exec S (h.call (.query (.get key defValue))) w tr
      (.answer (found.answer (.get key defValue)), h') w' := by
  have hquery : Exec S (h.query (.get key defValue)) w tr
      (found.answer (.get key defValue), h') w' := by
    rw [query, if_neg (not_not.mpr hkey)]
    exact exec_bind_iff.mpr ⟨_, _, _, [], hfind, .ret, (List.append_nil _).symm⟩
  exact exec_bind_iff.mpr ⟨_, _, _, [], hquery, .ret, (List.append_nil _).symm⟩

/-- `Get` finds a copy. -/
theorem exec_get_hit (defValue : PreferencesValue) (hopen : h.isOpen = true)
    (hkey : checkKey key = .ok) (hval : h.largeCachedData.lookup key = some value)
    (hS : S .getConfig w (some h.cachedDataVersion) w') :
    Exec S (h.call (.query (.get key defValue))) w [⟨.getConfig, some h.cachedDataVersion⟩]
      (.answer (.value value), h) w' := by
  have hfind : Exec S (h.find key) w [⟨.getConfig, some h.cachedDataVersion⟩]
      (.value value, h) w' := by
    rw [find, if_pos hopen]
    refine .call hS ?_
    dsimp only [Program.bind]
    rw [if_pos rfl, hval]
    exact .ret
  exact exec_get defValue hkey hfind

/-- `Get` asks the database. -/
theorem exec_get_miss (defValue : PreferencesValue) (hopen : h.isOpen = true)
    (hkey : checkKey key = .ok) {version : Int64} (hver : version ≠ h.cachedDataVersion)
    (hS : S .getConfig w (some version) w₁) (hS' : S (.kvGet key) w₁ (GrdCode.ok, oriValue) w') :
    Exec S (h.call (.query (.get key defValue))) w
      [⟨.getConfig, some version⟩, ⟨.kvGet key, (GrdCode.ok, oriValue)⟩]
      (.answer ((h.keep key version oriValue).1.answer (.get key defValue)),
        (h.keep key version oriValue).2) w' := by
  have hfind : Exec S (h.find key) w
      [⟨.getConfig, some version⟩, ⟨.kvGet key, (GrdCode.ok, oriValue)⟩]
      (h.keep key version oriValue) w' := by
    rw [find, if_pos hopen]
    refine .call hS ?_
    dsimp only [Program.bind]
    rw [if_neg hver]
    exact .call hS' .ret
  exact exec_get defValue hkey hfind

/-- A `Delete` that fails. -/
theorem exec_delete_fails {w : Option Collection} (hopen : h.isOpen = true)
    (hkey : checkKey key = .ok) :
    Exec faultyKernel (h.call (.delete key)) w [⟨.kvDel key, GrdCode.other⟩] (.code .error, h)
      w := by
  rw [call, delete, if_neg (not_not.mpr hkey), if_pos hopen]
  exact .call (.inr ⟨by simp, rfl⟩) .ret

end HalfCleared

/-- A value that is large enough to be kept. -/
def largeValue : PreferencesValue := .uint8Array (List.replicate cachedThresholds 0)

/-- Its bytes. -/
def largeBytes : Bytes := 10 :: (bytesOf 8 cachedThresholds ++ List.replicate cachedThresholds 0)

theorem marshalling_largeValue : marshallingPreferenceValue largeValue = .ok largeBytes := by
  simp only [marshallingPreferenceValue, largeValue, marshallingVecUInt8, List.length_replicate]
  rw [if_neg (by decide)]
  rfl

theorem parcelSize_largeValue : parcelSize largeValue = 9 + cachedThresholds := by
  rw [largeValue, parcelSize, List.length_replicate]
  omega

theorem length_largeBytes : cachedThresholds ≤ largeBytes.length := by
  rw [marshalling_length marshalling_largeValue, parcelSize_largeValue]
  decide

theorem unmarshalling_largeBytes : unmarshallingPreferenceValue largeBytes = (.ok, largeValue) := by
  refine unmarshalling_marshalling marshalling_largeValue ?_
  rw [parcelSize_largeValue]
  decide

/-- A store that has put a large value under "k". -/
def withLarge (version : Int64) : EnhanceImpl :=
  { isOpen := true, largeCachedData := Finmap.insert "k" largeValue ∅,
    cachedDataVersion := version }

theorem afterPut_largeValue :
    initial.afterPut "k" largeValue (calSize largeValue) = withLarge 1 := by
  rw [afterPut, if_pos]
  · rfl
  · rw [calSize, parcelSize_largeValue]
    decide

theorem collect_largeBytes (version : Int64) :
    collect [("k", largeBytes)] ∅ (withLarge version).largeCachedData =
      (.ok, Finmap.insert "k" largeValue ∅, (withLarge version).largeCachedData) := by
  simp only [collect, unmarshalling_largeBytes, length_largeBytes, if_true, ne_eq, not_true,
    if_false, Finmap.notMem_empty, withLarge, Finmap.insert_insert]

theorem step_put_large : ∃ tr, Step faultyKernel (initial, some ∅)
    (.put "k" largeValue, tr, .code .ok) (withLarge 1, some (Finmap.insert "k" largeBytes ∅)) := by
  have hS : faultyKernel (.kvPut "k" largeBytes) (some ∅) GrdCode.ok
      (some (Finmap.insert "k" largeBytes ∅)) := .inl ⟨∅, rfl, rfl, rfl⟩
  have hexec := exec_put_ok (h := initial) rfl (by decide : checkKey "k" = .ok)
    (rfl : checkValue largeValue = .ok) marshalling_largeValue hS
  rw [afterPut_largeValue] at hexec
  exact ⟨_, hexec⟩

theorem step_clear_half : ∃ tr, Step faultyKernel
    (withLarge 1, some (Finmap.insert "k" largeBytes ∅)) (.clear, tr, .code .error)
    (withLarge 1, none) := by
  have hall : Exec faultyKernel PreferencesDb.getAll (some (Finmap.insert "k" largeBytes ∅))
      [⟨.kvFilter, (GrdCode.ok, [⟨"k", largeBytes, .ok, .ok⟩])⟩] (.ok, [("k", largeBytes)])
      (some (Finmap.insert "k" largeBytes ∅)) := by
    refine .call ⟨rfl, ?_⟩ .ret
    intro _ row hrow _ _
    obtain rfl : row = _ := List.mem_singleton.mp hrow
    exact Finmap.lookup_insert _
  exact ⟨_, exec_clear_half rfl 1 hall (collect_largeBytes 1)⟩

/-- The collection is created by the way. -/
theorem step_getAllData_create : ∃ tr, Step faultyKernel (withLarge 1, none)
    (.query .getAllData, tr, .answer (.codeMap .ok ∅)) (withLarge 2, some ∅) := by
  have hall : Exec faultyKernel PreferencesDb.getAll none
      [⟨.kvFilter, (GrdCode.undefinedTable, [])⟩, ⟨.createCollection, GrdCode.ok⟩,
        ⟨.kvFilter, (GrdCode.ok, [])⟩] (.ok, []) (some ∅) :=
    .call ⟨rfl, by simp⟩ (.call (.inl ⟨rfl, rfl⟩) (.call ⟨rfl, by simp⟩ .ret))
  exact ⟨_, exec_getAllData_ok (S := faultyKernel) (w := none) rfl rfl hall rfl⟩

theorem step_getAllData : ∃ tr, Step faultyKernel (withLarge 2, some ∅)
    (.query .getAllData, tr, .answer (.codeMap .ok ∅)) (withLarge 3, some ∅) := by
  have hall : Exec faultyKernel PreferencesDb.getAll (some ∅)
      [⟨.kvFilter, (GrdCode.ok, [])⟩] (.ok, []) (some ∅) := .call ⟨rfl, by simp⟩ .ret
  exact ⟨_, exec_getAllData_ok (S := faultyKernel) (w := some ∅) rfl rfl hall rfl⟩

theorem step_get_large (version : Int64) (w : Option Collection) : ∃ tr,
    Step faultyKernel (withLarge version, w)
      (.query (.get "k" (.int 0)), tr, .answer (.value largeValue)) (withLarge version, w) :=
  ⟨_, exec_get_hit (.int 0) rfl (by decide) (Finmap.lookup_insert _) rfl⟩

/-- `Clear` drops the collection and fails to create it. After two calls of `GetAllData`, which
find nothing, the store returns what was put before the `Clear`. -/
theorem reads_stale :
    ∃ ls h w tr, Run (Step faultyKernel) (initial, some ∅) ls (h, w) ∧
      Step faultyKernel (h, w) (.query (.get "k" (.int 0)), tr, .answer (.value largeValue))
        (h, w) ∧
      ¬ (Answer.value largeValue).TrueOf (contents w) (.get "k" (.int 0)) := by
  obtain ⟨_, hput⟩ := step_put_large
  obtain ⟨_, hclear⟩ := step_clear_half
  obtain ⟨_, hcreate⟩ := step_getAllData_create
  obtain ⟨_, hall⟩ := step_getAllData
  obtain ⟨tr, hget⟩ := step_get_large 3 (some ∅)
  refine ⟨_, withLarge 3, some ∅, tr,
    .cons hput (.cons hclear (.cons hcreate (.cons hall .nil))), hget, ?_⟩
  rintro (⟨oriValue, hval, -⟩ | heq)
  · exact absurd hval (by simp [contents])
  · exact absurd heq (by simp [largeValue])

/-- A `Delete` fails; the value is still there and is returned. -/
theorem reads_truthful_after_failed_delete :
    ∃ ls h w tr h' w', Run (guarded (Step faultyKernel) Orderly) (initial, some ∅) ls (h, w) ∧
      Step faultyKernel (h, w) (.query (.get "k" (.int 0)), tr, .answer (.value largeValue))
        (h', w') ∧
      (Answer.value largeValue).TrueOf (contents w') (.get "k" (.int 0)) := by
  obtain ⟨tr₁, hput⟩ := step_put_large
  have hdelete : Step faultyKernel (withLarge 1, some (Finmap.insert "k" largeBytes ∅))
      (.delete "k", [⟨.kvDel "k", GrdCode.other⟩], .code .error)
      (withLarge 1, some (Finmap.insert "k" largeBytes ∅)) :=
    exec_delete_fails rfl (by decide)
  obtain ⟨tr, hget⟩ := step_get_large 1 (some (Finmap.insert "k" largeBytes ∅))
  have hrun : Run (guarded (Step faultyKernel) Orderly) (initial, some ∅)
      [(.put "k" largeValue, tr₁, .code .ok),
        (.delete "k", [⟨.kvDel "k", GrdCode.other⟩], .code .error)]
      (withLarge 1, some (Finmap.insert "k" largeBytes ∅)) := by
    refine .cons ⟨hput, ?_, by simp⟩ (.cons ⟨hdelete, by simp, by simp⟩ .nil)
    rintro key value heq
    obtain ⟨rfl, rfl⟩ := Op.put.inj heq
    rw [parcelSize_largeValue]
    decide
  exact ⟨_, _, _, tr, _, _, hrun, hget, reads_truthful _ _ _ _ hrun _ tr _ _ _ hget⟩

end EnhanceImpl

end NativePreferences
