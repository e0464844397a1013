import NativePreferences.Lib.History
import NativePreferences.Impl.PlainMap

/-!
# NativePreferences.Impl.Replay

**A late reload is not a replay.** A store whose first load failed works on an empty cache, and
when its file becomes readable `ReloadFromDisk` merges the file into the cache. What a client would
expect is what its calls make of the map in the file: those calls, carried out on that map
(`replay`).

The merge gives way to every value that was put, so puts are replayed. It knows nothing of keys
that are not in the cache: a `Delete` of a key that was not loaded leaves no trace, nor does a
`Clear` that a later `Put` has carried out. The two agree exactly when no key of the file was
deleted or cleared away without being put again, or when the last `Clear` still stands
(`reload_replays_iff`).
-/

namespace NativePreferences

open Lib

variable {s s' : Store} {o : Weather} {op : Op} {ops : List Op} {key : String}
variable {c c' : Cache} {m m' base : PrefMap}

/-! ### Replaying -/

/-- The calls on a store, each with the weather it meets. -/
def Store.calls (s : Store) (cs : List (Weather × Op)) : Store :=
  cs.foldl (fun s (o, op) => (s.call o op).2) s

/-- The same calls on a plain map. -/
def PlainMap.replay (m : PrefMap) (ops : List Op) : PrefMap :=
  ops.foldl (fun m op => (PlainMap.call m op).2) m

theorem Store.calls_snoc (s : Store) (cs : List (Weather × Op)) (o : Weather) (op : Op) :
    s.calls (cs ++ [(o, op)]) = ((s.calls cs).call o op).2 := by
  simp [Store.calls]

theorem PlainMap.replay_snoc (m : PrefMap) (ops : List Op) (op : Op) :
    PlainMap.replay m (ops ++ [op]) = (PlainMap.call (PlainMap.replay m ops) op).2 := by
  simp [PlainMap.replay]

/-- The same keys, with values that are the same or that `operator==` takes for the same. -/
def PrefMap.Alike (m n : PrefMap) : Prop :=
  ∀ key, Option.Rel PreferencesValue.Same (m.lookup key) (n.lookup key)

/-- The call gives the key a value. -/
def Op.Sets (key : String) (op : Op) : Prop :=
  ∃ value, op = .put key value ∧ op.check = .ok

/-- The call takes the key out. -/
def Op.Drops (key : String) (op : Op) : Prop :=
  op = .clear ∨ (op = .delete key ∧ checkKey key = .ok)

/-- The key was taken out and has not been put since. -/
def Gone (key : String) (ops : List Op) : Prop := Since (Op.Drops key) (Op.Sets key) ops

/-- There was a `Clear`, and nothing was put since. -/
def EndsCleared (ops : List Op) : Prop := Since (· = .clear) (fun op => ∃ key, op.Sets key) ops

theorem endsCleared_snoc_of_neither (hclear : op ≠ .clear) (hsets : ¬ ∃ key, op.Sets key) :
    EndsCleared (ops ++ [op]) ↔ EndsCleared ops := since_snoc_of_neither hclear hsets

/-! ### What is left of a call -/

/-- What one call does to the cache of a store that is not reloaded, and to a plain map. -/
inductive CallCases (op : Op) (c c' : Cache) (m m' : PrefMap) : Prop
  | put (key : String) (value : PreferencesValue) (hop : op = .put key value)
      (hcheck : op.check = .ok) (hc : c' = c.put key value c.isCleared)
      (hm : m' = m.insert key value)
  | delete (key : String) (hop : op = .delete key) (hcheck : checkKey key = .ok)
      (hc : c' = c.delete key c.isCleared) (hm : m' = m.erase key)
  | clear (hop : op = .clear) (hc : c' = c.clear) (hm : m' = ∅)
  /-- A query, or a call with arguments that are refused. -/
  | idle (hsets : ∀ key, ¬ op.Sets key) (hdrops : ∀ key, ¬ op.Drops key) (hc : c' = c)
      (hm : m' = m)

/-- A reload that works is remembered, so a store that does not count as loaded was not reloaded by
the call. -/
theorem Store.awaitLoadFile_of_not_loaded (h : (s.awaitLoadFile o).loadResult = false) :
    s.awaitLoadFile o = s := by
  unfold Store.awaitLoadFile at h ⊢
  split at h
  · next hloaded =>
    rw [if_pos hloaded]
    unfold Store.preLoad at h ⊢
    split at h
    · next hres => rw [if_pos hres]
    · next hres =>
      rw [if_neg hres]
      split at h
      · next hwants =>
        rw [if_pos hwants]
        unfold Store.reloadFromDisk at h ⊢
        rw [if_neg hres] at h ⊢
        split at h
        · split at h
          · exact absurd h (by simp [Store.reloaded])
          · next hread => rw [if_neg hread]
        · rfl
      · next hwants => rw [if_neg hwants]
  · next hloaded => rw [if_neg hloaded]

theorem Store.call_cases (m : PrefMap) (h : (s.call o op).2.loadResult = false) :
    s.loadResult = false ∧ (s.call o op).2.loaded = s.loaded ∧
      CallCases op s.cache (s.call o op).2.cache m (PlainMap.call m op).2 := by
  have hsame (s' : Store) (heq : s' = s.awaitLoadFile o) (hres : s'.loadResult = false) :
      s' = s := heq.trans (Store.awaitLoadFile_of_not_loaded (heq ▸ hres))
  cases op with
  | put key value =>
      by_cases hcheck : (Op.put key value).check = .ok
      · have hcheck' := hcheck
        rw [Op.check] at hcheck'
        split at hcheck'
        · next hkey =>
          have hcall : (s.call o (.put key value)).2 =
              let s := s.awaitLoadFile o
              { s with cache := s.cache.put key value s.cache.isCleared } := by
            simp only [Store.call, Store.put, if_pos hkey, if_pos hcheck']
            rfl
          rw [hcall] at h ⊢
          have hs : s.awaitLoadFile o = s := hsame _ rfl h
          rw [hs] at h ⊢
          refine ⟨h, rfl, .put key value rfl hcheck rfl ?_⟩
          rw [PlainMap.call, if_pos hcheck]
        · next hkey => exact absurd hcheck' hkey
      · have hcall : (s.call o (.put key value)).2 = s := by
          rw [Op.check] at hcheck
          split at hcheck
          · next hkey => simp only [Store.call, Store.put, if_pos hkey, if_neg hcheck]; rfl
          · next hkey => simp only [Store.call, Store.put, if_neg hkey]; rfl
        rw [hcall] at h ⊢
        refine ⟨h, rfl, .idle ?_ ?_ rfl ?_⟩
        · intro k hsets
          obtain ⟨value, -, hok⟩ := hsets
          exact hcheck hok
        · intro k hdrops
          simp [Op.Drops] at hdrops
        · rw [PlainMap.call, if_neg hcheck]
  | delete key =>
      by_cases hkey : checkKey key = .ok
      · have hcall : (s.call o (.delete key)).2 =
            let s := s.awaitLoadFile o
            { s with cache := s.cache.delete key s.cache.isCleared } := by
          simp only [Store.call, Store.delete, if_pos hkey]
          rfl
        rw [hcall] at h ⊢
        have hs : s.awaitLoadFile o = s := hsame _ rfl h
        rw [hs] at h ⊢
        refine ⟨h, rfl, .delete key rfl hkey rfl ?_⟩
        rw [PlainMap.call, if_pos hkey]
      · have hcall : (s.call o (.delete key)).2 = s := by
          simp only [Store.call, Store.delete, if_neg hkey]
          rfl
        rw [hcall] at h ⊢
        refine ⟨h, rfl, .idle ?_ ?_ rfl ?_⟩
        · intro k hsets
          obtain ⟨value, heq, -⟩ := hsets
          exact absurd heq (by simp)
        · intro k hdrops
          rcases hdrops with heq | ⟨heq, hok⟩
          · exact absurd heq (by simp)
          · exact hkey ((Op.delete.inj heq) ▸ hok)
        · rw [PlainMap.call, if_neg hkey]
  | clear =>
      have hs : s.awaitLoadFile o = s := hsame _ rfl h
      have hcall : (s.call o .clear).2 = { s with cache := s.cache.clear } := by
        simp only [Store.call, Store.clear, hs]
        rfl
      rw [hcall] at h ⊢
      exact ⟨h, rfl, .clear rfl rfl rfl⟩
  | query q =>
      have hcall : (s.call o (.query q)).2 = s := by
        by_cases hcheck : q.check = .ok
        · have hcall : (s.call o (.query q)).2 = s.awaitLoadFile o := by
            simp only [Store.call, Store.query, if_pos hcheck]
            rfl
          rw [hcall] at h ⊢
          exact hsame _ rfl h
        · simp only [Store.call, Store.query, if_neg hcheck]
          rfl
      rw [hcall] at h ⊢
      refine ⟨h, rfl, .idle ?_ ?_ rfl ?_⟩
      · intro k hsets
        obtain ⟨value, heq, -⟩ := hsets
        exact absurd heq (by simp)
      · intro k hdrops
        simp [Op.Drops] at hdrops
      · rw [PlainMap.call]
        split <;> rfl

/-! ### One key through the calls -/

/-- What readers see under a key, and what the replay holds there. -/
inductive KeyCases (ops : List Op) (base : PrefMap) (c : Cache) (m : PrefMap) (key : String) : Prop
  | gone (hgone : Gone key ops) (hc : c.visible.lookup key = none) (hm : m.lookup key = none)
  | untouched (hgone : ¬ Gone key ops) (hc : c.visible.lookup key = none)
      (hm : m.lookup key = base.lookup key)
  | held (v w : PreferencesValue) (hgone : ¬ Gone key ops) (hc : c.visible.lookup key = some v)
      (hm : m.lookup key = some w) (hsame : v.Same w)

/-- The cache of a store that was not reloaded, after these calls, beside their replay on
`base`. -/
structure Replays (ops : List Op) (base : PrefMap) (c : Cache) (m : PrefMap) : Prop where
  cleared : c.isCleared = true ↔ EndsCleared ops
  key : ∀ key, KeyCases ops base c m key

theorem replays_initial (base : PrefMap) : Replays [] base .initial base := by
  constructor
  · constructor
    · intro h
      exact absurd h (by decide)
    · intro h
      exact absurd h not_since_nil
  · intro key
    exact .untouched not_since_nil (Finmap.lookup_empty key) rfl

theorem KeyCases.congr {ops' : List Op} (h : KeyCases ops base c m key)
    (hgone : Gone key ops' ↔ Gone key ops)
    (hc : c'.visible.lookup key = c.visible.lookup key) (hm : m'.lookup key = m.lookup key) :
    KeyCases ops' base c' m' key := by
  cases h with
  | gone h hv hl => exact .gone (hgone.mpr h) (hc.trans hv) (hm.trans hl)
  | untouched h hv hl => exact .untouched (hgone.not.mpr h) (hc.trans hv) (hm.trans hl)
  | held v w h hv hl hsame => exact .held v w (hgone.not.mpr h) (hc.trans hv) (hm.trans hl) hsame

/-- Step: one more call. -/
theorem Replays.step (h : Replays ops base c m) (hcall : CallCases op c c' m m') :
    Replays (ops ++ [op]) base c' m' := by
  cases hcall with
  | idle hsets hdrops hc hm =>
      subst hc hm
      have hclear : op ≠ .clear := fun heq => hdrops "" (.inl heq)
      have hnone : ¬ ∃ key, op.Sets key := fun ⟨key, hkey⟩ => hsets key hkey
      refine ⟨h.cleared.trans (endsCleared_snoc_of_neither hclear hnone).symm, ?_⟩
      intro key
      exact (h.key key).congr (since_snoc_of_neither (hdrops key) (hsets key)) rfl rfl
  | put k value hop hcheck hc hm =>
      subst hop hc hm
      have hsets : (Op.put k value).Sets k := ⟨value, rfl, hcheck⟩
      have hdrops (key : String) : ¬ (Op.put k value).Drops key := by simp [Op.Drops]
      refine ⟨?_, ?_⟩
      · have hlow : (c.put k value c.isCleared).isCleared = false := (Cache.lookup_put_self id).1
        rw [hlow, EndsCleared, since_snoc]
        simp only [Bool.false_eq_true, false_iff, not_or, reduceCtorEq, not_false_eq_true, true_and]
        intro ⟨_, hnone⟩
        exact hnone ⟨k, hsets⟩
      · intro key
        by_cases hk : key = k
        · subst hk
          obtain ⟨v, hv, hsame⟩ : ∃ v, (c.put key value c.isCleared).visible.lookup key = some v ∧
            v.Same value := Cache.visible_put_self
          refine .held v value ?_ hv (Finmap.lookup_insert m) hsame
          rw [Gone, since_snoc]
          intro hgone
          rcases hgone with hdrop | ⟨-, hnone⟩
          · exact hdrops key hdrop
          · exact hnone hsets
        · have hother : ¬ (Op.put k value).Sets key := by
            intro ⟨_, heq, _⟩
            exact hk (Op.put.inj heq).1.symm
          exact (h.key key).congr (since_snoc_of_neither (hdrops key) hother)
            (Cache.visible_put_of_ne hk) (Finmap.lookup_insert_of_ne m hk)
  | delete k hop hcheck hc hm =>
      subst hop hc hm
      have hsets (key : String) : ¬ (Op.delete k).Sets key := by simp [Op.Sets]
      refine ⟨?_, ?_⟩
      · rw [Cache.isCleared_delete, h.cleared]
        exact (endsCleared_snoc_of_neither (by simp) (fun ⟨key, hkey⟩ => hsets key hkey)).symm
      · intro key
        by_cases hk : key = k
        · subst hk
          refine .gone ?_ ?_ (Finmap.lookup_erase key m)
          · exact since_snoc.mpr (.inl (.inr ⟨rfl, hcheck⟩))
          · rw [Cache.visible_delete, Finmap.lookup_erase]
        · have hother : ¬ (Op.delete k).Drops key := by
            intro hdrop
            rcases hdrop with heq | ⟨heq, -⟩
            · exact absurd heq (by simp)
            · exact hk (Op.delete.inj heq).symm
          refine (h.key key).congr (since_snoc_of_neither hother (hsets key)) ?_
            (Finmap.lookup_erase_ne hk)
          rw [Cache.visible_delete, Finmap.lookup_erase_ne hk]
  | clear hop hc hm =>
      subst hop hc hm
      refine ⟨?_, ?_⟩
      · exact iff_of_true rfl (since_snoc.mpr (.inl rfl))
      · intro key
        refine .gone (since_snoc.mpr (.inl (.inl rfl))) ?_ (Finmap.lookup_empty key)
        rw [Cache.visible_clear, Finmap.lookup_empty]

/-- After a failed load, every sequence of calls leaves the cache beside their replay. -/
theorem replays_calls (base : PrefMap) (hloaded : s.loaded = true) (hcache : s.cache = .initial)
    (cs : List (Weather × Op)) (hres : (s.calls cs).loadResult = false) :
    (s.calls cs).loaded = true ∧
      Replays (cs.map Prod.snd) base (s.calls cs).cache
        (PlainMap.replay base (cs.map Prod.snd)) := by
  induction cs using List.reverseRecOn with
  | nil => exact ⟨hloaded, hcache ▸ replays_initial base⟩
  | append_singleton cs x ih =>
      obtain ⟨o, op⟩ := x
      rw [Store.calls_snoc] at hres ⊢
      rw [List.map_append, List.map_singleton, PlainMap.replay_snoc]
      obtain ⟨hres₁, hkeep, hcases⟩ := Store.call_cases
        (PlainMap.replay base (cs.map Prod.snd)) hres
      obtain ⟨hloaded₁, hreplays⟩ := ih hres₁
      exact ⟨hkeep.trans hloaded₁, hreplays.step hcases⟩

/-! ### The reload -/

theorem PreferencesValue.Same.refl (v : PreferencesValue) : v.Same v := .inl rfl

theorem PrefMap.rel_refl (a : Option PreferencesValue) : Option.Rel PreferencesValue.Same a a := by
  cases a with
  | none => exact .none
  | some v => exact .some (.refl v)

/-- Where the merge meets a key. -/
theorem Cache.visible_reload_lookup (hc : c.isCleared = false) (key : String) :
    (c.reload base).visible.lookup key = (c.visible.lookup key).or (base.lookup key) := by
  have hreload : (c.reload base).visible = c.valuesCache ∪ base := Cache.visible_of_not_cleared hc
  rw [hreload, Cache.visible_of_not_cleared hc]
  by_cases hmem : key ∈ c.valuesCache
  · obtain ⟨v, hv⟩ := Finmap.mem_iff.mp hmem
    rw [Finmap.lookup_union_left hmem, hv]
    rfl
  · rw [Finmap.lookup_union_right hmem, Finmap.lookup_eq_none.mpr hmem]
    rfl

/-- The merge is the replay exactly where no key of the file is gone, unless the cache is to be
emptied anyway. -/
theorem Replays.alike_reload_iff (h : Replays ops base c m) :
    PrefMap.Alike (c.reload base).visible m ↔ EndsCleared ops ∨ ∀ key ∈ base, ¬ Gone key ops := by
  cases hc : c.isCleared with
  | true =>
      refine iff_of_true ?_ (.inl (h.cleared.mp hc))
      intro key
      have hvis : (c.reload base).visible = ∅ := Cache.visible_of_cleared hc
      have hgone : Gone key ops := by
        obtain ⟨before, op, after, heq, rfl, hnone⟩ := h.cleared.mp hc
        exact ⟨before, .clear, after, heq, .inl rfl, fun op hop hsets => hnone op hop ⟨key, hsets⟩⟩
      rw [hvis, Finmap.lookup_empty]
      cases h.key key with
      | gone _ _ hm => rw [hm]; exact .none
      | untouched hno | held _ _ hno => exact absurd hgone hno
  | false =>
      have hcleared : ¬ EndsCleared ops := by
        intro hends
        exact absurd ((h.cleared.mpr hends).symm.trans hc) (by simp)
      constructor
      · intro halike
        refine .inr ?_
        intro key hkey hgone
        obtain ⟨v, hv⟩ := Finmap.mem_iff.mp hkey
        have hrel := halike key
        rw [Cache.visible_reload_lookup hc] at hrel
        cases h.key key with
        | gone _ hvis hm =>
            rw [hvis, hm, hv] at hrel
            exact absurd hrel (by rintro ⟨⟩)
        | untouched hno | held _ _ hno => exact hno hgone
      · intro hcond key
        rw [Cache.visible_reload_lookup hc]
        cases h.key key with
        | gone hgone hvis hm =>
            have hnot : key ∉ base := fun hkey => (hcond.resolve_left hcleared) key hkey hgone
            rw [hvis, hm, Finmap.lookup_eq_none.mpr hnot]
            exact .none
        | untouched _ hvis hm =>
            rw [hvis, hm]
            exact PrefMap.rel_refl _
        | held v w _ hvis hm hsame =>
            rw [hvis, hm]
            exact .some hsame

/-- A new instance whose `LoadFromDisk` has failed. -/
def Store.FirstLoadFailed (s : Store) : Prop :=
  ∃ disk o dirAccessible,
    s = (Store.initial disk).loadFromDisk o dirAccessible ∧ s.loadResult = false

theorem Store.FirstLoadFailed.cache_eq (h : s.FirstLoadFailed) :
    s.loaded = true ∧ s.cache = .initial := by
  obtain ⟨disk, o, dirAccessible, rfl, hres⟩ := h
  cases disk with
  | none => cases dirAccessible <;> exact ⟨rfl, rfl⟩
  | some values =>
      cases hread : o.readable with
      | false => cases dirAccessible <;> simp [Store.loadFromDisk, Store.initial, hread]
      | true =>
          cases dirAccessible <;>
            exact absurd hres (by simp [Store.loadFromDisk, Store.initial, hread])

/-- The store when its file has come to hold `base`. -/
def Store.onFile (s : Store) (base : PrefMap) : Store := { s with disk := some base }

theorem Store.reloadFromDisk_true (h : ((s.onFile base).reloadFromDisk o).1 = true) :
    s.loadResult = false ∧ ((s.onFile base).reloadFromDisk o).2.cache = s.cache.reload base := by
  have hres : s.loadResult = false := by
    cases hres : s.loadResult with
    | false => rfl
    | true => simp [Store.reloadFromDisk, Store.onFile, hres] at h
  cases hread : o.readable with
  | false => simp [Store.reloadFromDisk, Store.onFile, hres, hread] at h
  | true => simp [Store.reloadFromDisk, Store.onFile, Store.reloaded, hres, hread]

/-- **When a late reload is a replay.** Let the first load of an instance fail, let any calls
follow, in any weather, and let a `ReloadFromDisk` then succeed in reading `base`. What readers see
afterwards is what the calls make of `base` if, and only if, the calls end with a `Clear` that no
`Put` follows, or no key of `base` was deleted or cleared away by a call after which it was not
put again. -/
theorem Store.reload_replays_iff (hfail : s.FirstLoadFailed) (cs : List (Weather × Op))
    (base : PrefMap) (hreload : (((s.calls cs).onFile base).reloadFromDisk o).1 = true) :
    PrefMap.Alike (((s.calls cs).onFile base).reloadFromDisk o).2.cache.visible
        (PlainMap.replay base (cs.map Prod.snd)) ↔
      EndsCleared (cs.map Prod.snd) ∨ ∀ key ∈ base, ¬ Gone key (cs.map Prod.snd) := by
  obtain ⟨hloaded, hcache⟩ := hfail.cache_eq
  obtain ⟨hres, hmerged⟩ := Store.reloadFromDisk_true hreload
  obtain ⟨-, hreplays⟩ := replays_calls base hloaded hcache cs hres
  rw [hmerged]
  exact hreplays.alike_reload_iff

/-- An instance on a file that cannot be read yet. -/
def Store.unread : Store := (Store.initial none).loadFromDisk ⟨false, false, false⟩ false

theorem Store.firstLoadFailed_unread : Store.unread.FirstLoadFailed :=
  ⟨none, ⟨false, false, false⟩, false, rfl, rfl⟩

/-- A `Put` over a key of the file, and a `Delete` of a key that is not in the file. -/
theorem reload_replays_put :
    PrefMap.Alike
      (((Store.unread.calls [(⟨false, false, false⟩, .put "a" (.int 2)),
        (⟨false, false, false⟩, .delete "b")]).onFile
          (Finmap.singleton "a" (.int 1))).reloadFromDisk ⟨true, true, true⟩).2.cache.visible
      (PlainMap.replay (Finmap.singleton "a" (.int 1)) [.put "a" (.int 2), .delete "b"]) := by
  refine (Store.reload_replays_iff Store.firstLoadFailed_unread _ _ (by decide)).mpr (.inr ?_)
  intro key hkey hgone
  obtain rfl : key = "a" := (Finmap.mem_singleton key "a" _).mp hkey
  have hdelete : ¬ (Op.delete "b").Drops "a" := by simp [Op.Drops]
  have hput : ¬ (Op.put "a" (.int 2)).Drops "a" := by simp [Op.Drops]
  have hsets : (Op.put "a" (.int 2)).Sets "a" := ⟨.int 2, rfl, by decide⟩
  have hgone : Gone "a" (([] ++ [.put "a" (.int 2)]) ++ [.delete "b"]) := hgone
  rw [Gone, since_snoc, since_snoc] at hgone
  rcases hgone with hdrop | ⟨hdrop | ⟨-, hnone⟩, -⟩
  · exact hdelete hdrop
  · exact hput hdrop
  · exact hnone hsets

/-- A `Delete` of a key that the file turns out to have. -/
theorem reload_resurrects :
    ¬ ∀ (s : Store) (o : Weather) (cs : List (Weather × Op)) (base : PrefMap),
      s.FirstLoadFailed → (((s.calls cs).onFile base).reloadFromDisk o).1 = true →
      PrefMap.Alike (((s.calls cs).onFile base).reloadFromDisk o).2.cache.visible
        (PlainMap.replay base (cs.map Prod.snd)) := by
  intro hall
  have halike := hall Store.unread ⟨true, true, true⟩ [(⟨false, false, false⟩, .delete "a")]
    (Finmap.singleton "a" (.int 1)) Store.firstLoadFailed_unread (by decide) "a"
  have hvisible : (((Store.unread.calls [(⟨false, false, false⟩, .delete "a")]).onFile
      (Finmap.singleton "a" (.int 1))).reloadFromDisk
        ⟨true, true, true⟩).2.cache.visible.lookup "a" = some (.int 1) := by decide
  have hreplayed : (PlainMap.replay (Finmap.singleton "a" (.int 1)) [.delete "a"]).lookup "a" =
      none := by decide
  rw [hvisible, show [((⟨false, false, false⟩ : Weather), Op.delete "a")].map Prod.snd =
    [.delete "a"] from rfl, hreplayed] at halike
  exact absurd halike (by rintro ⟨⟩)

end NativePreferences
