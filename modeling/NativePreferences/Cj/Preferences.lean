import NativePreferences.Cj.ValueTypes
import NativePreferences.Ndk.SetGet

/-!
# NativePreferences.Cj.Preferences

**`PreferencesImpl` of the `cj` front end over a store.** `GetAll` either hands out all entries or
none, where a text may have become a null pointer. It keeps no block that it does not hand out, and
what it hands out goes back without a rest (`getAll_run`). What Cangjie puts under a key it gets
back, unless it is an array with an empty text: that is stored, and every `Get` of it yields
`ValueType{0}`, the integer zero (`put_get`).
-/

namespace NativePreferences.Cj

open Lib Store

variable {own rest : Multiset Block} {log : Log Empty}

/-! ### All entries -/

/-- **What `GetAll` hands out.** All entries, with a null pointer for a text that is empty or whose
block was refused, or `ValueTypes{0}`: that only if a key or a text of an array is empty, or if a
block was refused. Beside the blocks that it hands out there are those that were there before, and
once Cangjie has given it back there are only those. -/
theorem getAll_run (objects : List (String × PreferencesValue))
    {tr : List (Event (AllocCall.Answer : AllocCall Empty → Type))} {vs : ValueTypes} {w : Arena}
    (hrun : Exec allocSem (getAll objects) ⟨rest, false⟩ tr vs w) :
    w = ⟨blocks vs.pointers + rest, false⟩ ∧ Got objects (Log.empty.after tr).refused vs ∧
      ∀ tr' w', Exec allocSem (ffiFreeValueTypes vs) w tr' () w' → w' = ⟨rest, false⟩ := by
  have hstart : (⟨rest, false⟩ : Arena) = ⟨0 + rest, false⟩ := by rw [Multiset.zero_add]
  rw [hstart] at hrun
  obtain ⟨own, rfl, hown, hgot⟩ := (owns_getAll objects 0).exec hrun
  rw [Multiset.add_zero] at hown
  subst hown
  refine ⟨rfl, hgot, ?_⟩
  intro tr' w' hfree
  have howns : Owns (fun _ _ own => own = 0) (ffiFreeValueTypes vs) Log.empty
      (blocks vs.pointers) := owns_ffiFreeValueTypes vs
  obtain ⟨own', rfl, rfl⟩ := howns.exec hfree
  rw [Multiset.zero_add]

/-- An array with an empty text, where every request is met: nothing is handed out. And a text
without a block: it is handed out as a null pointer. -/
theorem getAll_run_gapped :
    (∃ tr w, Exec allocSem (getAll [("b", .stringArray ["y", ""])]) ⟨{7}, false⟩ tr .zero w ∧
      w = ⟨{7}, false⟩ ∧ (Log.empty.after tr).refused = false) ∧
    ∃ tr key head w, Exec allocSem (getAll [("a", .string "x")]) ⟨{7}, false⟩ tr
        ⟨key, some (head, [{ ValueType.zero with tag := typeStr }]), 1⟩ w ∧
      Got [("a", .string "x")] true
        ⟨key, some (head, [{ ValueType.zero with tag := typeStr }]), 1⟩ := by
  have hgapped : Exec allocSem (getAll [("b", .stringArray ["y", ""])]) ⟨{7}, false⟩
      [⟨.malloc, some 0⟩, ⟨.malloc, some 1⟩, ⟨.malloc, some 2⟩, ⟨.malloc, some 3⟩,
        ⟨.malloc, some 4⟩, ⟨.free (some 4), ()⟩, ⟨.free (some 3), ()⟩, ⟨.free (some 2), ()⟩,
        ⟨.free (some 0), ()⟩, ⟨.free (some 1), ()⟩] ValueTypes.zero ⟨{7}, false⟩ := by
    iterate 5 refine .call ⟨by decide, rfl⟩ ?_
    iterate 5 refine .call rfl ?_
    exact .ret
  have hnull : Exec allocSem (getAll [("a", .string "x")]) ⟨{7}, false⟩
      [⟨.malloc, some 0⟩, ⟨.malloc, some 1⟩, ⟨.malloc, some 2⟩, ⟨.malloc, none⟩]
      ⟨some (0, [some (2, "a")]), some (1, [{ ValueType.zero with tag := typeStr }]), 1⟩
      ⟨2 ::ₘ 1 ::ₘ 0 ::ₘ {7}, false⟩ := by
    iterate 3 refine .call ⟨by decide, rfl⟩ ?_
    exact .call rfl .ret
  exact ⟨⟨_, _, hgapped, (getAll_run _ hgapped).1, rfl⟩, _, _, _, _, hnull,
    (getAll_run _ hnull).2.1⟩

/-! ### One entry -/

/-- `CValueTypeToNativeValue`. There is no value for a pointer to nothing. -/
def cValueTypeToNativeValue (value : ValueType) : Option PreferencesValue :=
  if value.tag = typeInt then some (.int64 value.integer)
  else if value.tag = typeDou then some (.double value.float64)
  else if value.tag = typeStr then value.string.read.map .string
  else if value.tag = typeBool then some (.bool value.boolean)
  else if value.tag = typeBoolArr then value.boolArray.read.map .boolArray
  else if value.tag = typeDouArr then value.doubleArray.read.map .doubleArray
  else if value.tag = typeStrArr then
    value.stringArray.read.bind (fun texts =>
      (texts.mapM CString.read).map .stringArray)
  else some (.int (-1))

/-- `PreferencesImpl::Get`: what the store has under the key, or the default. -/
def getValue (o : Weather) (key : String) (defValue : PreferencesValue) (s : Store) :
    Prog ValueType := get (s.get o key defValue).1

/-- A text that has been read has no zero byte. -/
theorem CString.cStr_of_read {p : CString} {text : String} (h : p.read = some text) :
    cStr text = text := by
  obtain ⟨q, -, rfl⟩ := Option.map_eq_some_iff.mp h
  exact cStr_cStr q.2

theorem texts_of_mapM {texts : List CString} {v : List String}
    (h : texts.mapM CString.read = some v) :
    texts.map CString.text = v ∧ v.map cStr = v := by
  induction texts generalizing v with
  | nil =>
      obtain rfl : [] = v := by simpa using h
      exact ⟨rfl, rfl⟩
  | cons p texts ih =>
      rw [List.mapM_cons] at h
      obtain ⟨text, hp, h⟩ := Option.bind_eq_some_iff.mp h
      obtain ⟨v', hv', h⟩ := Option.bind_eq_some_iff.mp h
      obtain rfl := Option.some.inj h
      obtain ⟨htexts, hcut⟩ := ih hv'
      rw [List.map_cons, List.map_cons, htexts, hcut, CString.cStr_of_read hp, CString.text, hp]
      exact ⟨rfl, rfl⟩

theorem read_eq {β : Type} {a : CArr β} {xs : List β} (h : a.read = some xs) : a.elems = xs := by
  unfold CArr.read at h
  split at h
  · exact Option.some.inj h
  · cases h

theorem tag_cases {tag : UInt8} (h : tag ≤ typeStrArr) :
    tag = typeInt ∨ tag = typeDou ∨ tag = typeStr ∨ tag = typeBool ∨ tag = typeBoolArr ∨
      tag = typeDouArr ∨ tag = typeStrArr := by
  have hle : tag.toNat ≤ 6 := UInt8.le_iff_toNat_le.mp h
  simp only [← UInt8.toNat_inj, typeInt, typeDou, typeStr, typeBool, typeBoolArr, typeDouArr,
    typeStrArr, UInt8.reduceToNat]
  omega

/-- What Cangjie puts looks the same in the store. -/
theorem viewOf_native {v : ValueType} {n : PreferencesValue}
    (h : cValueTypeToNativeValue v = some n) (htag : v.tag ≤ typeStrArr) :
    viewOf n = v.view := by
  obtain htag | htag | htag | htag | htag | htag | htag := tag_cases htag
  all_goals
    rw [cValueTypeToNativeValue, htag] at h
    rw [ValueType.view, htag]
  · obtain rfl := Option.some.inj h
    rfl
  · obtain rfl := Option.some.inj h
    rfl
  · obtain ⟨text, hread, rfl⟩ := Option.map_eq_some_iff.mp h
    show View.str (cStr text) = View.str v.string.text
    rw [CString.cStr_of_read hread, CString.text, hread, Option.getD_some]
  · obtain rfl := Option.some.inj h
    rfl
  · obtain ⟨bools, hread, rfl⟩ := Option.map_eq_some_iff.mp h
    exact congrArg View.bools (read_eq hread).symm
  · obtain ⟨doubles, hread, rfl⟩ := Option.map_eq_some_iff.mp h
    exact congrArg View.dous (read_eq hread).symm
  · obtain ⟨texts, hread, h⟩ := Option.bind_eq_some_iff.mp h
    obtain ⟨strings, hstrings, rfl⟩ := Option.map_eq_some_iff.mp h
    obtain ⟨htexts, hcut⟩ := texts_of_mapM hstrings
    show View.strs (strings.map cStr) = View.strs (v.stringArray.elems.map CString.text)
    rw [read_eq hread, htexts, hcut]

/-- A value that compares equal has the same texts. -/
theorem gapped_iff {w n : PreferencesValue} (h : w.Same n) : Gapped w ↔ Gapped n := by
  obtain rfl | heq := h
  · exact Iff.rfl
  · cases w <;> cases n <;> simp_all [PreferencesValue.eq, Gapped]

theorem owns_get (n : PreferencesValue) (own : Multiset Block) :
    Owns (fun v log own' => own' = blocks v.pointers + own ∧
      (¬ Gapped n ∧ Shown log.refused n v ∨
        (Gapped n ∨ log.refused = true) ∧ v = .zero)) (get n) log own := by
  refine .bind ((owns_nativeValueToCValueType n own).mono ?_)
  intro r log own' h
  obtain ⟨hblocks, hcase⟩ := h
  obtain ⟨hcode, hgap, hshown⟩ | ⟨hcode, hnone, hwhy⟩ := hcase
  · rw [if_neg (not_not_intro hcode), owns_pure]
    exact ⟨hblocks, .inl ⟨hgap, hshown⟩⟩
  · rw [if_pos (by rw [hcode]; decide), owns_pure]
    refine ⟨?_, .inr ⟨hwhy, rfl⟩⟩
    rw [hblocks, hnone]
    rfl

/-- **The put/get law.** What Cangjie has put under a key, and nobody has changed since, comes
back if no block is refused, and with it only its own blocks: an array with an empty text as
`ValueType{0}`, anything else as it was put, unless the store had another number under the key
that compares equal, which `Put` leaves in place. -/
theorem put_get (s : Store) (o o' : Weather) (key : String) (v : ValueType)
    (defValue n : PreferencesValue) (later : List LaterEvent)
    (hn : cValueTypeToNativeValue v = some n) (htag : v.tag ≤ typeStrArr)
    (hput : (s.put o key n).1 = .ok) (hlater : NoLaterChange key o' (s.put o key n).2 later)
    {tr : List (Event (AllocCall.Answer : AllocCall Empty → Type))} {got : ValueType} {w : Arena}
    (hrun : Exec allocSem (getValue o' key defValue (later.foldl after (s.put o key n).2))
      ⟨rest, false⟩ tr got w) (hgranted : (Log.empty.after tr).refused = false) :
    w = ⟨blocks got.pointers + rest, false⟩ ∧ (Gapped n → got = .zero) ∧
      (¬ Gapped n → (∃ m, m.Same n ∧ got.view = viewOf m) ∧
        ((∀ val, (s.awaitLoadFile o).cache.visible.lookup key = some val →
          val.eq n = true → val = n) → got.view = v.view)) := by
  obtain ⟨hkey, hkept⟩ := put_ok hput
  have hlookup := hlater.lookup_eq
  rw [Leaves, hkept] at hlookup
  rw [← Cache.kept_eq_iff]
  have hsame : ((s.awaitLoadFile o).cache.kept key n).Same n := Cache.kept_same
  generalize (s.awaitLoadFile o).cache.kept key n = m at *
  generalize later.foldl after _ = s' at *
  have hread : (s'.get o' key defValue).1 = m := by
    rw [Store.get, if_pos hkey]
    dsimp only
    rw [hlookup, Option.getD_some]
  rw [getValue, hread, show (⟨rest, false⟩ : Arena) = ⟨0 + rest, false⟩ by
    rw [Multiset.zero_add]] at hrun
  obtain ⟨own, rfl, hown, hcase⟩ := (owns_get m 0).exec hrun
  rw [Multiset.add_zero] at hown
  rw [hgranted] at hcase
  refine ⟨by rw [hown], ?_, ?_⟩
  · intro hgap
    obtain ⟨hnot, -⟩ | ⟨-, hzero⟩ := hcase
    · exact absurd ((gapped_iff hsame).mpr hgap) hnot
    · exact hzero
  · intro hgap
    obtain ⟨-, hshown⟩ | ⟨hbad | hbad, -⟩ := hcase
    · refine ⟨⟨m, hsame, hshown.view⟩, ?_⟩
      intro hm
      rw [hshown.view, hm, viewOf_native hn htag]
    · exact absurd ((gapped_iff hsame).mp hbad) hgap
    · exact absurd hbad (by decide)

/-- A text is put in a store, and got at once. Then an array with an empty text. -/
theorem put_get_gapped :
    (∃ tr got w, Exec allocSem (getValue ⟨true, true, true⟩ "a" .monostate
        (oneUnsaved.put ⟨true, true, true⟩ "a" (.string "x")).2) ⟨{7}, false⟩ tr got w ∧
      w = ⟨blocks got.pointers + {7}, false⟩ ∧ got.view = .str "x") ∧
    ∃ tr w, Exec allocSem (getValue ⟨true, true, true⟩ "a" .monostate
        (oneUnsaved.put ⟨true, true, true⟩ "a" (.stringArray ["y", ""])).2) ⟨{7}, false⟩ tr
        ValueType.zero w ∧ w = ⟨{7}, false⟩ ∧ ValueType.zero.view = .int 0 := by
  have htext : Exec allocSem (getValue ⟨true, true, true⟩ "a" .monostate
      (oneUnsaved.put ⟨true, true, true⟩ "a" (.string "x")).2) ⟨{7}, false⟩
      [⟨.malloc, some 0⟩] { ValueType.zero with string := some (0, "x"), tag := typeStr }
      ⟨0 ::ₘ {7}, false⟩ := by
    rw [getValue, show ((oneUnsaved.put ⟨true, true, true⟩ "a" (.string "x")).2.get
      ⟨true, true, true⟩ "a" .monostate).1 = .string "x" by decide]
    exact .call ⟨by decide, rfl⟩ .ret
  have hgapped : Exec allocSem (getValue ⟨true, true, true⟩ "a" .monostate
      (oneUnsaved.put ⟨true, true, true⟩ "a" (.stringArray ["y", ""])).2) ⟨{7}, false⟩
      [⟨.malloc, some 0⟩, ⟨.malloc, some 1⟩, ⟨.free (some 1), ()⟩, ⟨.free (some 0), ()⟩]
      ValueType.zero ⟨{7}, false⟩ := by
    rw [getValue, show ((oneUnsaved.put ⟨true, true, true⟩ "a" (.stringArray ["y", ""])).2.get
      ⟨true, true, true⟩ "a" .monostate).1 = .stringArray ["y", ""] by decide]
    iterate 2 refine .call ⟨by decide, rfl⟩ ?_
    iterate 2 refine .call rfl ?_
    exact .ret
  have hput := put_get oneUnsaved ⟨true, true, true⟩ ⟨true, true, true⟩ "a"
    { ValueType.zero with string := some (20, "x"), tag := typeStr } .monostate (.string "x") []
    rfl (by decide) (by decide) rfl htext rfl
  have hput' := put_get oneUnsaved ⟨true, true, true⟩ ⟨true, true, true⟩ "a"
    { ValueType.zero with
      stringArray := ⟨some (20, [some (21, "y"), some (22, "")]), 2⟩, tag := typeStrArr }
    .monostate (.stringArray ["y", ""]) [] rfl (by decide) (by decide) rfl hgapped rfl
  refine ⟨⟨_, _, _, htext, hput.1, ?_⟩, _, _, hgapped, hput'.1, rfl⟩
  exact (hput.2.2 id).2 (by decide)

end NativePreferences.Cj
