import NativePreferences.Enhance.Processes
import NativePreferences.Enhance.Refinement

/-!
# NativePreferences.Enhance.Freshness

**What a store returns while other processes write to its database.** A store relies on one
invariant (`Fresh`): if its version is the one of the kernel, its copies are copies of what is in
the collection. The others cannot break it, since each of their writes raises the version.

The store itself can. When it takes over the version of the kernel, it does not look at the copies
that it made under the old one, and they may be out of date. A run in which they never are at
such a moment is `Coherent`, and there every answer is one that the database could have given.
-/

namespace NativePreferences

open Lib

variable {db db' db'' : SharedDb} {h : EnhanceImpl} {op : Op} {key : String}

/-! ### Versions -/

theorem nextVersion_toInt {v w : Int64} (hlt : v.toInt < w.toInt) :
    (nextVersion v).toInt = v.toInt + 1 := by
  have hw : w.toInt < 2 ^ 63 := Int64.toInt_lt w
  have hv : -2 ^ 63 ≤ v.toInt := Int64.le_toInt v
  have hne : v ≠ Int64.maxValue := by
    rintro rfl
    have hmax : Int64.maxValue.toInt = 2 ^ 63 - 1 := by decide
    omega
  have hone : (1 : Int64).toInt = 1 := by decide
  rw [nextVersion, if_neg hne, Int64.toInt_add, hone]
  exact Int.bmod_eq_of_le (by omega) (by omega)

/-- The database at a later moment. Where the version is the same, nothing has been written. -/
structure Later (db db' : SharedDb) : Prop where
  version_le : db.version.toInt ≤ db'.version.toInt
  contents_eq : db'.version = db.version → db'.contents = db.contents
  isSome : db'.version = db.version → db.collection.isSome → db'.collection.isSome

theorem Later.refl (db : SharedDb) : Later db db := ⟨le_refl _, fun _ => rfl, fun _ hsome => hsome⟩

/-- A version that has come back has never been left. -/
theorem Later.version_eq (h₁ : Later db db') (h₂ : Later db' db'')
    (heq : db''.version = db.version) :
    db'.version = db.version ∧ db''.version = db'.version := by
  have hle₁ := h₁.version_le
  have hle₂ := h₂.version_le
  have hmid : db'.version = db.version := by
    refine Int64.toInt_inj.mp ?_
    rw [heq] at hle₂
    omega
  exact ⟨hmid, heq.trans hmid.symm⟩

theorem Later.trans (h₁ : Later db db') (h₂ : Later db' db'') : Later db db'' := by
  refine ⟨h₁.version_le.trans h₂.version_le, ?_, ?_⟩
  · intro heq
    obtain ⟨heq₁, heq₂⟩ := h₁.version_eq h₂ heq
    exact (h₂.contents_eq heq₂).trans (h₁.contents_eq heq₁)
  · intro heq hsome
    obtain ⟨heq₁, heq₂⟩ := h₁.version_eq h₂ heq
    exact h₂.isSome heq₂ (h₁.isSome heq₁ hsome)

/-- A write that counts. -/
theorem Later.of_lt (hlt : db.version.toInt < db'.version.toInt) : Later db db' := by
  have hne : db'.version ≠ db.version := by
    intro heq
    rw [heq] at hlt
    omega
  exact ⟨le_of_lt hlt, fun heq => absurd heq hne, fun heq => absurd heq hne⟩

/-- A call that leaves the collection alone. -/
theorem Later.of_collection_eq (hver : db.version.toInt ≤ db'.version.toInt)
    (hcoll : db'.collection = db.collection) : Later db db' := by
  refine ⟨hver, ?_, ?_⟩
  · intro _
    rw [SharedDb.contents, hcoll]
    rfl
  · intro _ hsome
    rw [hcoll]
    exact hsome

theorem erase_of_notMem {c : Collection} (hmem : key ∉ c) : c.erase key = c := by
  refine Finmap.ext_lookup ?_
  intro k
  by_cases heq : k = key
  · rw [heq, Finmap.lookup_erase, Finmap.lookup_eq_none.mpr hmem]
  · exact Finmap.lookup_erase_ne heq

/-- **Every call of the kernel** takes the database to a later moment. -/
theorem sharedKernel_later {c : KernelCall} {r : KernelAnswer c} (hS : sharedKernel c db r db') :
    Later db db' := by
  obtain ⟨hmap, hver⟩ := hS
  cases c with
  | kvPut key value =>
      rcases hmap with ⟨c, -, rfl, -⟩ | ⟨-, rfl, hsame⟩
      · exact .of_lt hver
      · exact .of_collection_eq (le_of_eq (congrArg _ hver.symm)) hsame
  | kvDel key =>
      rcases hmap with ⟨c, hdb, rfl, hdb'⟩ | ⟨-, rfl, hsame⟩
      · by_cases hmem : key ∈ db.contents
        · exact .of_lt (by simpa [Commits, hmem] using hver)
        · have hle : db.version.toInt ≤ db'.version.toInt := by simpa [Commits, hmem] using hver
          have hc : db.contents = c := by rw [SharedDb.contents, hdb]; rfl
          refine .of_collection_eq hle ?_
          rw [hdb', erase_of_notMem (hc ▸ hmem), hdb]
      · exact .of_collection_eq (by simpa [Commits] using hver) hsame
  | kvGet key => exact .of_collection_eq (le_of_eq (congrArg _ hver.symm)) hmap.1
  | kvFilter => exact .of_collection_eq (le_of_eq (congrArg _ hver.symm)) hmap.1
  | createCollection =>
      refine ⟨hver, ?_, ?_⟩
      · intro _
        rw [SharedDb.contents, hmap.2]
        rfl
      · intro _ _
        rw [hmap.2]
        rfl
  | dropCollection =>
      rcases hmap with ⟨-, rfl, -⟩ | ⟨-, rfl, hsame⟩
      · exact .of_lt hver
      · exact .of_collection_eq (le_of_eq (congrArg _ hver.symm)) hsame
  | getConfig => exact .of_collection_eq (le_of_eq (congrArg _ hver.2.symm)) hmap.1

/-! ### The invariant -/

/-- The store is open, its version is none that the kernel has not reached, and at that version
its copies can be trusted. -/
structure Fresh (h : EnhanceImpl) (db : SharedDb) : Prop where
  isOpen : h.isOpen = true
  version_le : h.cachedDataVersion.toInt ≤ db.version.toInt
  truthful : h.cachedDataVersion = db.version → Truthful h.largeCachedData db.contents

/-- The others do not break it. -/
theorem Fresh.later (hf : Fresh h db) (hl : Later db db') : Fresh h db' := by
  have hle₁ := hf.version_le
  have hle₂ := hl.version_le
  refine ⟨hf.isOpen, hle₁.trans hle₂, ?_⟩
  intro heq
  have hver : db'.version = db.version := by
    refine Int64.toInt_inj.mp ?_
    rw [heq] at hle₁
    omega
  rw [hl.contents_eq hver]
  exact hf.truthful (heq.trans hver)

/-! ### A call among others -/

/-- The database, and its states since the call began. -/
abbrev Watched : Type := SharedDb × List SharedDb

/-- The kernel, for the call `op` of the store `h`, as long as that is coherent. -/
def watchedKernel (op : Op) (h : EnhanceImpl) : Sem KernelCall KernelAnswer Watched :=
  fun c w r w' => sharedKernel c w.1 r w'.1 ∧ w'.2 = w'.1 :: w.2 ∧
    MovesUpToDate op h w.1.contents ⟨c, r⟩

/-- What the others do between two calls of the kernel. -/
def Others (w w' : Watched) : Prop := Later w.1 w'.1 ∧ w'.2 = w.2

theorem others_trans (w₁ w₂ w₃ : Watched) (h₁ : Others w₁ w₂) (h₂ : Others w₂ w₃) :
    Others w₁ w₃ :=
  ⟨h₁.1.trans h₂.1, h₂.2.trans h₁.2⟩

/-- One kernel call: it starts from a later moment, and its end is written down. -/
theorem watched_step {c : KernelCall} {r : KernelAnswer c} {w w₁ w₂ : Watched}
    (hT : Others w w₁) (hS : watchedKernel op h c w₁ r w₂) :
    Later w.1 w₁.1 ∧ Later w₁.1 w₂.1 ∧ w₂.1 ∈ w₂.2 ∧ w.2 ⊆ w₂.2 := by
  obtain ⟨hl, hsame⟩ := hT
  obtain ⟨hker, hseen, -⟩ := hS
  refine ⟨hl, sharedKernel_later hker, ?_, ?_⟩
  · rw [hseen]
    exact List.mem_cons_self
  · rw [hseen, hsame]
    exact List.subset_cons_self _ _

/-- Any number of them. -/
theorem ensures_later {α : Type} (p : KernelProgram α) (w : Watched) :
    p.Ensures (watchedKernel op h) Others (fun _ w' => Later w.1 w'.1 ∧ w.2 ⊆ w'.2) w := by
  induction p generalizing w with
  | ret a => exact ⟨Later.refl _, fun _ hd => hd⟩
  | call c k ih =>
      intro w₁ r w₂ hT hS
      obtain ⟨hl₁, hl₂, -, hsub⟩ := watched_step hT hS
      refine (ih r w₂).mono ?_
      intro _ w' ⟨hl, hsub'⟩
      exact ⟨(hl₁.trans hl₂).trans hl, fun _ hd => hsub' (hsub hd)⟩

namespace PreferencesDb

/-- The loop. What holds after an attempt that found no collection must hold on when there is one
again. -/
theorem shared_retry {α : Type} {attempt : KernelProgram (GrdCode × α)}
    {Q : GrdCode × α → Watched → Prop} (last : GrdCode × α) (w₀ : Watched)
    (hattempt : ∀ w, Later w₀.1 w.1 → attempt.Ensures (watchedKernel op h) Others Q w)
    (hstable : ∀ ret w w', ret.1 = .undefinedTable → Q ret w → Later w.1 w'.1 → w.2 ⊆ w'.2 →
      Q ret w') :
    (retry attempt createCollectionRetryTimes last).Ensures (watchedKernel op h) Others Q w₀ := by
  refine ensures_retry (fun w => Later w₀.1 w.1) ?_ _ last (Later.refl _) ?_
  · intro w hw
    refine ((hattempt w hw).and (ensures_later attempt w)).mono ?_
    intro ret w' ⟨hQ, hl, _⟩
    split
    · next hundef =>
      refine (ensures_later createCollection w').mono ?_
      intro _ w'' ⟨hl', hsub⟩
      exact ⟨(hw.trans hl).trans hl', hstable ret w' w'' hundef hQ hl' hsub⟩
    · exact hQ
  · intro hzero
    exact absurd hzero (by decide)

/-- The loop, for what holds only if it succeeds: then the last attempt found a collection. -/
theorem shared_retry_ok {α : Type} {attempt : KernelProgram (GrdCode × α)}
    {Q : α → Watched → Prop} (last : GrdCode × α) (w₀ : Watched)
    (hattempt : ∀ w, Later w₀.1 w.1 → attempt.Ensures (watchedKernel op h) Others
      (fun ret w' => ret.1 = .ok → Q ret.2 w') w) :
    (retry attempt createCollectionRetryTimes last).Ensures (watchedKernel op h) Others
      (fun ret w' => ret.1 = .ok → Q ret.2 w') w₀ := by
  refine shared_retry last w₀ hattempt ?_
  intro ret w₁ w₂ hundef _ _ _ hok
  exact absurd (hundef.symm.trans hok) (by simp)

/-- A state in which a `Get` may have looked. -/
structure LookedUp (h : EnhanceImpl) (key : String) (ok : Prop) (value : Bytes) (db : SharedDb) :
    Prop where
  found : ok → db.contents.lookup key = some value
  upToDate : ok → cachedThresholds ≤ value.length → UpToDate h db.contents (· = key)
  missing : ¬ ok → key ∉ db.contents

theorem shared_kvGet {ret : GrdCode × Bytes} {w w' : Watched}
    (hS : watchedKernel op h (.kvGet key) w ret w') :
    LookedUp h key (ret.1 = .ok) ret.2 w'.1 := by
  obtain ⟨⟨⟨hsame, hcases⟩, -⟩, -, hmoves⟩ := hS
  have hcont : w'.1.contents = w.1.contents := by
    rw [SharedDb.contents, hsame]
    rfl
  refine ⟨?_, ?_, ?_⟩
  · intro hok
    rw [hcont, SharedDb.contents]
    rcases hcases with ⟨c, value, hc, hval, rfl⟩ | ⟨c, -, -, hno⟩ | ⟨-, hno⟩
    · rw [hc]
      exact hval
    · exact absurd (hno.symm.trans hok) (by simp)
    · exact absurd (hno.symm.trans hok) (by simp)
  · intro hok hlarge
    rw [hcont]
    exact hmoves hok hlarge
  · intro hfail
    rw [hcont, SharedDb.contents]
    rcases hcases with ⟨c, value, -, -, rfl⟩ | ⟨c, hc, hnone, -⟩ | ⟨hc, -⟩
    · exact absurd rfl hfail
    · rw [hc]
      exact Finmap.lookup_eq_none.mp hnone
    · rw [hc]
      exact Finmap.notMem_empty

/-- `PreferencesDb::Get` looks at one moment. -/
theorem shared_get (key : String) (w : Watched) :
    (get key).Ensures (watchedKernel op h) Others
      (fun ret w' => ∃ d ∈ w'.2, Later w.1 d ∧ Later d w'.1 ∧
        LookedUp h key (ret.1 = .ok) ret.2 d) w := by
  refine (shared_retry (Q := fun ret w' => ∃ d ∈ w'.2, Later w.1 d ∧ Later d w'.1 ∧
    LookedUp h key (ret.1 = .ok) ret.2 d) _ w ?_ ?_).bind ?_
  · intro w₁ hw₁ w₂ ret w₃ hT hS
    obtain ⟨hl₁, hl₂, hmem, -⟩ := watched_step hT hS
    exact ⟨w₃.1, hmem, hw₁.trans (hl₁.trans hl₂), Later.refl _, shared_kvGet hS⟩
  · intro ret w₁ w₂ _ ⟨d, hd, hl, hl', hlook⟩ hlater hsub
    exact ⟨d, hsub hd, hl, hl'.trans hlater, hlook⟩
  · intro ret w' ⟨d, hd, hl, hl', hlook⟩
    refine ⟨d, hd, hl, hl', ?_⟩
    show LookedUp h key (transferGrdErrno ret.1 = .ok) ret.2 d
    rw [transferGrdErrno_ok_iff]
    exact hlook

/-- `PreferencesDb::GetAll`, when it succeeds, ends with the call that read everything. -/
theorem shared_getAll (w : Watched) :
    getAll.Ensures (watchedKernel op h) Others
      (fun ret w' => ret.1 = .ok → w'.1.collection.isSome ∧
        (∀ key value, w'.1.contents.lookup key = some value ↔ (key, value) ∈ ret.2) ∧
        (op ≠ .clear → UpToDate h w'.1.contents (LargeIn w'.1.contents))) w := by
  refine (shared_retry_ok (Q := fun rows w' => w'.1.collection.isSome ∧
    Lists rows w'.1.contents ∧ (op ≠ .clear → UpToDate h w'.1.contents (LargeIn w'.1.contents)))
    _ w ?_).bind ?_
  · intro w₁ hw₁ w₂ ret w₃ hT hS hok
    obtain ⟨⟨⟨hsame, hcases⟩, -⟩, -, hmoves⟩ := hS
    have hcont : w₃.1.contents = w₂.1.contents := by
      rw [SharedDb.contents, hsame]
      rfl
    rw [hcont, hsame]
    rcases hcases with ⟨c, hc, -, hlists⟩ | ⟨-, hno⟩
    · rw [SharedDb.contents, hc]
      refine ⟨rfl, hlists, ?_⟩
      have hup := hmoves hok
      rw [SharedDb.contents, hc] at hup
      exact hup
    · exact absurd (hno.symm.trans hok) (by simp)
  · intro ⟨ret, resultSet⟩ w' hret
    show Program.Ensures _ _ _ (if ret = .ok then _ else _) w'
    by_cases hok : ret = .ok
    · obtain ⟨hsome, hlists, hup⟩ := hret hok
      rw [if_pos hok, getAllInner_fine hlists.fine]
      intro _
      refine ⟨hsome, ?_, hup⟩
      intro key value
      rw [hlists.mem key value]
      simp
    · rw [if_neg hok]
      intro hok'
      exact absurd (transferGrdErrno_ok_iff.mp hok') hok

/-- `PreferencesDb::Put`, when it succeeds, ends with the call that wrote. -/
theorem shared_put (key : String) (value : Bytes) (w : Watched) :
    (put key value).Ensures (watchedKernel op h) Others
      (fun errCode w' => errCode = .ok → ∃ d, Later w.1 d ∧
        d.version.toInt < w'.1.version.toInt ∧ w'.1.contents = d.contents.insert key value) w := by
  refine (shared_retry_ok (Q := fun _ w' => ∃ d, Later w.1 d ∧
    d.version.toInt < w'.1.version.toInt ∧ w'.1.contents = d.contents.insert key value)
    _ w ?_).bind ?_
  · intro w₁ hw₁ w₂ ret w₃ hT hS hok
    obtain ⟨hl₁, hl₂, -, -⟩ := watched_step hT hS
    obtain ⟨⟨hcases, hver⟩, -, -⟩ := hS
    rcases hcases with ⟨c, hc, rfl, hc'⟩ | ⟨-, rfl, -⟩
    · refine ⟨w₂.1, hw₁.trans hl₁, hver, ?_⟩
      rw [SharedDb.contents, SharedDb.contents, hc, hc']
      rfl
    · exact absurd hok (by simp)
  · intro ret w' hret hok
    exact hret (transferGrdErrno_ok_iff.mp hok)

/-- `PreferencesDb::Delete`, when it succeeds, ends with the call that deleted. -/
theorem shared_delete (key : String) (w : Watched) :
    (delete key).Ensures (watchedKernel op h) Others
      (fun errCode w' => errCode = .ok → ∃ d, Later w.1 d ∧ Later d w'.1 ∧
        w'.1.contents = d.contents.erase key ∧
        (key ∈ d.contents → d.version.toInt < w'.1.version.toInt) ∧
        (key ∈ h.largeCachedData → key ∉ d.contents → UpToDate h d.contents (· = key))) w := by
  refine (shared_retry_ok (Q := fun _ w' => ∃ d, Later w.1 d ∧ Later d w'.1 ∧
    w'.1.contents = d.contents.erase key ∧
    (key ∈ d.contents → d.version.toInt < w'.1.version.toInt) ∧
    (key ∈ h.largeCachedData → key ∉ d.contents → UpToDate h d.contents (· = key)))
    _ w ?_).bind ?_
  · intro w₁ hw₁ w₂ ret w₃ hT hS hok
    obtain ⟨hl₁, hl₂, -, -⟩ := watched_step hT hS
    obtain ⟨⟨hcases, hver⟩, -, hmoves⟩ := hS
    rcases hcases with ⟨c, hc, rfl, hc'⟩ | ⟨-, rfl, -⟩
    · refine ⟨w₂.1, hw₁.trans hl₁, hl₂, ?_, ?_, hmoves rfl⟩
      · rw [SharedDb.contents, SharedDb.contents, hc, hc']
        rfl
      · intro hmem
        simpa [Commits, hmem] using hver
    · exact absurd hok (by simp)
  · intro ret w' hret hok
    exact hret (transferGrdErrno_ok_iff.mp hok)

end PreferencesDb

/-! ### The reading functions -/

/-- Copies up to date but for the one of `key`, which is dropped. -/
theorem UpToDate.truthful_erase {c : Collection} (hup : UpToDate h c (· = key)) :
    Truthful (h.largeCachedData.erase key) c := by
  intro k v hk
  obtain ⟨hne, hold⟩ := lookup_erase_some hk
  exact hup k v hold hne

namespace EnhanceImpl

variable {w : Watched}

/-- What was found is what the collection says. -/
def Found.Current (c : Collection) (key : String) : Found → Prop
  | .value v => Holds c key v
  | .malformed errCode => errCode ≠ .ok ∧ key ∈ c ∧ ∀ v, ¬ Holds c key v
  | .failed errCode => errCode ≠ .ok ∧ key ∉ c

theorem holds_mem {c : Collection} {v : PreferencesValue} (hv : Holds c key v) : key ∈ c := by
  obtain ⟨oriValue, hval, -⟩ := hv
  exact Finmap.mem_of_lookup_eq_some hval

/-- What comes from the database. -/
theorem keep_fresh {oriValue : Bytes} {d₀ d db : SharedDb} (hf : Fresh h db)
    (hl₀ : Later d₀ d) (hl : Later d db)
    (hlook : PreferencesDb.LookedUp h key True oriValue d) :
    Fresh (h.keep key d₀.version oriValue).2 db ∧
      (h.keep key d₀.version oriValue).1.Current d.contents key := by
  have hval : d.contents.lookup key = some oriValue := hlook.found trivial
  rw [EnhanceImpl.keep]
  split
  · next hbad =>
    refine ⟨hf, hbad, Finmap.mem_of_lookup_eq_some hval, ?_⟩
    intro v hholds
    obtain ⟨oriValue', hval', hitem⟩ := hholds
    obtain rfl : oriValue' = oriValue := Option.some.inj (hval'.symm.trans hval)
    exact hbad (congrArg Prod.fst hitem)
  · next hok =>
    have hholds : Holds d.contents key (unmarshallingPreferenceValue oriValue).2 :=
      ⟨oriValue, hval, Prod.ext (not_not.mp hok) rfl⟩
    split
    · next hlarge =>
      refine ⟨⟨hf.isOpen, (hl₀.trans hl).version_le, ?_⟩, hholds⟩
      intro heq
      -- nothing has been written since the version was read
      obtain ⟨-, heq'⟩ := hl₀.version_eq hl heq.symm
      rw [hl.contents_eq heq']
      exact Truthful.replace (hlook.upToDate trivial hlarge).truthful_erase hholds
    · exact ⟨hf, hholds⟩

/-- **`Get`, `GetValue` and `HasKey`** find what the database says at one moment. -/
theorem find_fresh (hf : Fresh h w.1) (key : String) :
    (h.find key).Ensures (watchedKernel op h) Others
      (fun res w' => Fresh res.2 w'.1 ∧ ∃ d ∈ w'.2, res.1.Current d.contents key) w := by
  rw [find, if_pos hf.isOpen]
  intro w₁ version w₂ hT hS
  obtain ⟨hl₁, hl₂, hmem, -⟩ := watched_step hT hS
  have hf₂ : Fresh h w₂.1 := hf.later (hl₁.trans hl₂)
  obtain ⟨⟨-, hver, hsame⟩, -, -⟩ := hS
  obtain rfl : version = some w₂.1.version := hver.trans (congrArg some hsame.symm)
  show Program.Ensures _ _ _ _ w₂
  dsimp only [Program.bind]
  split
  · next v hv =>
    split at hv
    · next heq => exact ⟨hf₂, w₂.1, hmem, hf₂.truthful heq.symm key v hv⟩
    · exact absurd hv (by simp)
  · refine (PreferencesDb.shared_get key w₂).bind ?_
    intro res w' hres
    obtain ⟨errCode, oriValue⟩ := res
    obtain ⟨d, hd, hl, hl', hlook⟩ := hres
    have hf' : Fresh h w'.1 := hf₂.later (hl.trans hl')
    dsimp only at hlook ⊢
    split
    · next hfail => exact ⟨hf', d, hd, hfail, hlook.missing hfail⟩
    · next hok =>
      rw [eq_true (not_not.mp hok)] at hlook
      obtain ⟨hkeep, hfound⟩ := keep_fresh hf' hl hl' hlook
      exact ⟨hkeep, d, hd, hfound⟩

/-- The loop of `GetAllInner` replaces the copies of all that is large. -/
theorem collect_fresh {c : Collection} {data : List (String × Bytes)} {result cached : PrefMap}
    (hdata : ∀ key oriValue, (key, oriValue) ∈ data → c.lookup key = some oriValue)
    (hcached : ∀ key v, cached.lookup key = some v →
      (∀ oriValue, (key, oriValue) ∈ data → oriValue.length < cachedThresholds) → Holds c key v)
    (hok : (collect data result cached).1 = .ok) :
    Truthful (collect data result cached).2.2 c := by
  induction data generalizing result cached with
  | nil =>
      intro key v hv
      exact hcached key v hv (by simp)
  | cons entry data ih =>
      obtain ⟨key, oriValue⟩ := entry
      have hval : c.lookup key = some oriValue := hdata key oriValue List.mem_cons_self
      have hrest : ∀ k b, (k, b) ∈ data → c.lookup k = some b := by
        intro k b hmem
        exact hdata k b (List.mem_cons_of_mem _ hmem)
      simp only [collect] at hok ⊢
      split at hok
      · next hbad => exact absurd hok hbad
      · next hitem =>
        rw [if_neg hitem]
        refine ih hrest ?_ hok
        intro k v hk hsmall
        split at hk
        · -- a large value: the copy under its key is replaced by what the kernel has
          by_cases heq : k = key
          · subst heq
            rw [Finmap.lookup_insert] at hk
            exact ⟨oriValue, hval, Prod.ext (not_not.mp hitem) (Option.some.inj hk)⟩
          · rw [Finmap.lookup_insert_of_ne _ heq] at hk
            refine hcached k v hk ?_
            intro b hb
            rcases List.mem_cons.mp hb with hhead | hb
            · exact absurd (Prod.mk.inj hhead).1 heq
            · exact hsmall b hb
        · next hlarge =>
          refine hcached k v hk ?_
          intro b hb
          rcases List.mem_cons.mp hb with hhead | hb
          · rw [(Prod.mk.inj hhead).2]
            exact not_le.mp hlarge
          · exact hsmall b hb

/-- `GetAllInner`. In a `Clear` it may leave the store with a version that does not fit. -/
theorem getAllInner_fresh (hf : Fresh h w.1) :
    h.getAllInner.Ensures (watchedKernel op h) Others
      (fun res w' => if res.1.1 = .ok then
          res.2.isOpen = true ∧ res.2.cachedDataVersion.toInt ≤ w'.1.version.toInt ∧
            w'.1.collection.isSome ∧ (op ≠ .clear → Fresh res.2 w'.1)
        else Fresh res.2 w'.1) w := by
  rw [getAllInner, if_pos hf.isOpen]
  intro w₁ version w₂ hT hS
  obtain ⟨hl₁, hl₂, -, -⟩ := watched_step hT hS
  have hf₂ : Fresh h w₂.1 := hf.later (hl₁.trans hl₂)
  obtain ⟨⟨-, hver, hsame⟩, -, -⟩ := hS
  obtain rfl : version = some w₂.1.version := hver.trans (congrArg some hsame.symm)
  refine ((PreferencesDb.shared_getAll w₂).and (ensures_later _ w₂)).bind ?_
  intro res w' hres
  obtain ⟨errCode, data⟩ := res
  obtain ⟨hall, hl, -⟩ := hres
  have hf' : Fresh h w'.1 := hf₂.later hl
  dsimp only at hall ⊢
  split
  · next hfail =>
    show if errCode = .ok then _ else _
    rw [if_neg hfail]
    exact hf'
  · next hok =>
    obtain ⟨hsome, hmem, hup⟩ := hall (not_not.mp hok)
    have hdata : ∀ key oriValue, (key, oriValue) ∈ data →
        w'.1.contents.lookup key = some oriValue := fun key oriValue => (hmem key oriValue).mpr
    split
    · next hbad =>
      show if (collect data ∅ h.largeCachedData).1 = .ok then _ else _
      rw [if_neg hbad]
      refine ⟨hf'.isOpen, hf'.version_le, ?_⟩
      intro heq
      exact (collect_truthful hdata (hf'.truthful heq)).1
    · next hgood =>
      -- the copies of small values are those of before, and nobody else has changed them
      show _ ∧ _ ∧ _ ∧ _
      refine ⟨hf.isOpen, hl.version_le, hsome, ?_⟩
      intro hclear
      refine ⟨hf.isOpen, hl.version_le, ?_⟩
      intro _
      refine collect_fresh hdata ?_ (not_not.mp hgood)
      intro key v hv hsmall
      refine hup hclear key v hv ?_
      intro hlisted
      obtain ⟨oriValue, hval, hlarge⟩ := hlisted
      exact absurd (hsmall oriValue ((hmem key oriValue).mp hval)) (not_lt.mpr hlarge)

/-- What `Get`, `GetValue` and `HasKey` return of what they have found. -/
theorem Found.get_current {c : Collection} {found : Found} (hfound : found.Current c key)
    (defValue : PreferencesValue) :
    (found.answer (.get key defValue)).Current c (.get key defValue) := by
  intro _
  cases found with
  | value v => exact .inl ⟨v, hfound, rfl⟩
  | malformed errCode => exact .inr ⟨hfound.2.2, rfl⟩
  | failed errCode => exact .inr ⟨fun v hv => hfound.2 (holds_mem hv), rfl⟩

theorem Found.getValue_current {c : Collection} {found : Found} (hfound : found.Current c key)
    (defValue : PreferencesValue) :
    (found.answer (.getValue key defValue)).Current c (.getValue key defValue) := by
  intro _
  cases found with
  | value v => exact .inl ⟨v, hfound, rfl⟩
  | malformed errCode => exact .inr ⟨hfound.2.2, errCode, hfound.1, rfl⟩
  | failed errCode =>
      exact .inr ⟨fun v hv => hfound.2 (holds_mem hv), errCode, hfound.1, rfl⟩

theorem Found.hasKey_current {c : Collection} {found : Found} (hfound : found.Current c key) :
    (found.answer (.hasKey key)).Current c (.hasKey key) := by
  intro _
  cases found with
  | value v => exact .inl ⟨holds_mem hfound, rfl⟩
  | malformed errCode => exact .inl ⟨hfound.2.1, rfl⟩
  | failed errCode => exact .inr ⟨hfound.2, rfl⟩

/-- The common form of `Get`, `GetValue` and `HasKey`. -/
theorem lookup_fresh {q : Query} (hf : Fresh h w.1) (hseen : w.1 ∈ w.2)
    (hfound : ∀ found : Found, ∀ c : Collection, found.Current c key → (found.answer q).Current c q)
    (hbad : checkKey key ≠ .ok → ∀ c, q.rejected.Current c q) :
    Program.Ensures (watchedKernel op h) Others
      (fun res w' => Fresh res.2 w'.1 ∧ ∃ d ∈ w'.2, res.1.Current d.contents q)
      (if checkKey key ≠ .ok then pure (q.rejected, h)
        else do
          let (found, h) ← h.find key
          return (found.answer q, h)) w := by
  split
  · next hkey => exact ⟨hf, w.1, hseen, hbad hkey _⟩
  · refine (find_fresh hf key).bind ?_
    intro res w' ⟨hres, d, hd, hcur⟩
    exact ⟨hres, d, hd, hfound res.1 d.contents hcur⟩

/-- **A reading function.** -/
theorem query_fresh (hf : Fresh h w.1) (hseen : w.1 ∈ w.2) (q : Query) :
    (h.query q).Ensures (watchedKernel (.query q) h) Others
      (fun res w' => Fresh res.2 w'.1 ∧ ∃ d ∈ w'.2, res.1.Current d.contents q) w := by
  cases q with
  | get key defValue =>
      refine lookup_fresh hf hseen (fun _ _ hfound => Found.get_current hfound defValue) ?_
      intro hbad _ hkey
      exact absurd hkey hbad
  | getValue key defValue =>
      refine lookup_fresh hf hseen (fun _ _ hfound => Found.getValue_current hfound defValue) ?_
      intro hbad _ hkey
      exact absurd hkey hbad
  | hasKey key =>
      refine lookup_fresh hf hseen (fun _ _ hfound => Found.hasKey_current hfound) ?_
      intro hbad _ hkey
      exact absurd hkey hbad
  | getAll | getAllData | getAllDatas =>
      refine ((getAllInner_fresh hf).and (ensures_later _ w)).bind ?_
      intro res w' ⟨hres, _, hsub⟩
      refine ⟨?_, w.1, hsub hseen, trivial⟩
      split at hres
      · exact hres.2.2.2 (by simp)
      · exact hres

/-! ### The writing functions -/

/-- A copy and the version change along with the database. -/
theorem afterPut_fresh {value : PreferencesValue} {oriValue : Bytes} (hf : Fresh h db)
    (hlt : db.version.toInt < db'.version.toInt)
    (hcont : db'.contents = db.contents.insert key oriValue)
    (hitem : unmarshallingPreferenceValue oriValue = (.ok, value)) (oriValueLen : Nat) :
    Fresh (h.afterPut key value oriValueLen) db' := by
  have hle : h.cachedDataVersion.toInt < db'.version.toInt := lt_of_le_of_lt hf.version_le hlt
  refine ⟨(afterPut_isOpen h key value oriValueLen).trans hf.isOpen, ?_, ?_⟩
  · rw [afterPut]
    split
    · show (nextVersion h.cachedDataVersion).toInt ≤ _
      rw [nextVersion_toInt hle]
      omega
    · exact le_of_lt hle
  · intro heq
    have hver : h.cachedDataVersion = db.version := by
      have hbefore := hf.version_le
      rw [afterPut] at heq
      split at heq
      · have hnext : (nextVersion h.cachedDataVersion).toInt = db'.version.toInt :=
          congrArg Int64.toInt heq
        rw [nextVersion_toInt hle] at hnext
        exact Int64.toInt_inj.mp (by omega)
      · have hsame : h.cachedDataVersion.toInt = db'.version.toInt := congrArg Int64.toInt heq
        omega
    rw [hcont]
    exact afterPut_truthful (hf.truthful hver) hitem oriValueLen

theorem put_fresh {value : PreferencesValue} (hf : Fresh h w.1) (hsize : parcelSize value < 2 ^ 32)
    (key : String) :
    (h.put key value).Ensures (watchedKernel op h) Others (fun res w' => Fresh res.2 w'.1) w := by
  rw [put]
  split
  · exact hf
  · split
    · exact hf
    · rw [if_pos hf.isOpen]
      split
      · exact hf
      · next oriValue hmarshal =>
        have hitem := unmarshalling_marshalling hmarshal (hsize.trans (by decide))
        refine ((PreferencesDb.shared_put key oriValue w).and (ensures_later _ w)).bind ?_
        intro errCode w' hres
        obtain ⟨hput, hl, -⟩ := hres
        split
        · exact hf.later hl
        · next hok =>
          obtain ⟨d, hd, hlt, hcont⟩ := hput (not_not.mp hok)
          exact afterPut_fresh (hf.later hd) hlt hcont hitem _

theorem afterDelete_fresh (hf : Fresh h db) (hl : Later db db')
    (hcont : db'.contents = db.contents.erase key)
    (hlt : key ∈ db.contents → db.version.toInt < db'.version.toInt)
    (hup : key ∈ h.largeCachedData → key ∉ db.contents → UpToDate h db.contents (· = key)) :
    Fresh (h.afterDelete key) db' := by
  rw [afterDelete]
  split
  · next hmem =>
    have hle := hf.version_le
    have hle' := hl.version_le
    have hlt' : h.cachedDataVersion.toInt < db'.version.toInt := by
      by_cases hkey : key ∈ db.contents
      · exact lt_of_le_of_lt hle (hlt hkey)
      · -- the copy is out of date, so the version is not the one of the kernel
        have hne : h.cachedDataVersion.toInt ≠ db.version.toInt := by
          intro heq
          obtain ⟨v, hv⟩ := Option.isSome_iff_exists.mp (Finmap.lookup_isSome.mpr hmem)
          exact hkey (holds_mem (hf.truthful (Int64.toInt_inj.mp heq) key v hv))
        omega
    have hnext := nextVersion_toInt hlt'
    refine ⟨hf.isOpen, ?_, ?_⟩
    · show (nextVersion h.cachedDataVersion).toInt ≤ _
      omega
    · -- the version that is counted up is the one of the kernel only if nobody else wrote
      intro heq
      have hnext' : (nextVersion h.cachedDataVersion).toInt = db'.version.toInt :=
        congrArg Int64.toInt heq
      show Truthful (h.largeCachedData.erase key) _
      rw [hcont]
      by_cases hkey : key ∈ db.contents
      · have hver : h.cachedDataVersion = db.version := by
          have hlt'' := hlt hkey
          exact Int64.toInt_inj.mp (by omega)
        have ht : Truthful (h.afterDelete key).largeCachedData (db.contents.erase key) :=
          afterDelete_truthful (hf.truthful hver)
        rw [afterDelete, if_pos hmem] at ht
        exact ht
      · rw [erase_of_notMem hkey]
        exact (hup hmem hkey).truthful_erase
  · exact hf.later hl

theorem delete_fresh (hf : Fresh h w.1) (key : String) :
    (h.delete key).Ensures (watchedKernel op h) Others (fun res w' => Fresh res.2 w'.1) w := by
  rw [delete]
  split
  · exact hf
  · rw [if_pos hf.isOpen]
    refine ((PreferencesDb.shared_delete key w).and (ensures_later _ w)).bind ?_
    intro errCode w' hres
    obtain ⟨hdel, hl, -⟩ := hres
    split
    · exact hf.later hl
    · next hok =>
      obtain ⟨d, hd, hl', hcont, hlt, hup⟩ := hdel (not_not.mp hok)
      exact afterDelete_fresh (hf.later hd) hl' hcont hlt hup

/-- **`Clear`.** A collection that is gone when it is to be dropped has been dropped by another,
and that counts as a write; so whatever the version is, it is not the one of the kernel. -/
theorem clear_fresh (hf : Fresh h w.1) :
    h.clear.Ensures (watchedKernel op h) Others (fun res w' => Fresh res.2 w'.1) w := by
  rw [clear, if_pos hf.isOpen]
  refine (getAllInner_fresh hf).bind ?_
  intro res w₁ hall
  obtain ⟨all, h₁⟩ := res
  dsimp only at hall ⊢
  split
  · next hfail =>
    rw [if_neg hfail] at hall
    exact hall
  · next hok =>
    rw [if_pos (not_not.mp hok)] at hall
    obtain ⟨hopen, hle, hsome, -⟩ := hall
    intro w₂ code w₃ hT hS
    obtain ⟨hl₂, hl₃, -, -⟩ := watched_step hT hS
    have hle₂ := hl₂.version_le
    obtain ⟨⟨hcases, hver⟩, -, -⟩ := hS
    rcases hcases with ⟨-, rfl, -⟩ | ⟨hnone, rfl, hsame⟩
    · -- dropped here, and the kernel is past the version of the copies
      have hlt : h₁.cachedDataVersion.toInt < w₃.1.version.toInt :=
        lt_of_le_of_lt (hle.trans hle₂) hver
      refine (ensures_later PreferencesDb.createCollection w₃).bind ?_
      intro errCode w₄ hres
      obtain ⟨hl₄, -⟩ := hres
      have hle₄ := hl₄.version_le
      split
      · refine ⟨hopen, (le_of_lt hlt).trans hle₄, ?_⟩
        intro heq
        have hver' : h₁.cachedDataVersion.toInt = w₄.1.version.toInt := congrArg Int64.toInt heq
        omega
      · refine ⟨hopen, ?_, fun _ => truthful_empty _⟩
        show (nextVersion h₁.cachedDataVersion).toInt ≤ _
        rw [nextVersion_toInt hlt]
        omega
    · -- dropped by another after the listing, which found it
      refine ⟨hopen, (hle.trans hle₂).trans hl₃.version_le, ?_⟩
      intro heq
      have hstay : w₂.1.version = w₁.1.version := by
        have hv₃ : h₁.cachedDataVersion.toInt = w₃.1.version.toInt := congrArg Int64.toInt heq
        have hv : w₃.1.version = w₂.1.version := hver
        rw [hv] at hv₃
        exact Int64.toInt_inj.mp (by omega)
      have hsome₂ := hl₂.isSome hstay hsome
      rw [hnone] at hsome₂
      exact absurd hsome₂ (by simp)

/-- What a call ends with. -/
def Done (op : Op) (res : Reply × EnhanceImpl) (w : Watched) : Prop :=
  Fresh res.2 w.1 ∧ ReadCurrent w.2 op res.1

/-- **A call.** -/
theorem call_fresh (hf : Fresh h w.1) (hseen : w.1 ∈ w.2)
    (hsize : ∀ key value, op = .put key value → parcelSize value < 2 ^ 32) :
    (h.call op).Ensures (watchedKernel op h) Others (Done op) w := by
  cases op with
  | put key value =>
      refine (put_fresh hf (hsize key value rfl) key).bind ?_
      intro res w' hres
      exact ⟨hres, trivial⟩
  | delete key =>
      refine (delete_fresh hf key).bind ?_
      intro res w' hres
      exact ⟨hres, trivial⟩
  | clear =>
      refine (clear_fresh hf).bind ?_
      intro res w' hres
      exact ⟨hres, trivial⟩
  | query q =>
      refine (query_fresh hf hseen q).bind ?_
      intro res w' hres
      exact hres

end EnhanceImpl

end NativePreferences
