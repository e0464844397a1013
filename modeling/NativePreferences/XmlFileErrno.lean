import NativePreferences.XmlFileLoad

/-!
# NativePreferences.XmlFileErrno

**What a load makes of an old `errno`.** `ReadFile` takes the value of `errno` after the parse for
the reason of a failure. A system call that fails sets `errno`, one that succeeds leaves it alone,
and a text that does not parse makes no call fail. So what `XmlReadFile` finds there may be from
long before the load: `xmlResetLastError` resets the error of libxml2, and nothing resets `errno`.

`withErrno` is the environment without faults of `Os.lean`, with `errno` as a part of the world
(`exec_forget_errno`). The only calls that fail in it are those on files that are not there. One
of them comes before the main file is read: `ReadLock` looks for the lock file, and where there is
none, `errno` is `ENOENT` from then on (`errnoAtRead`).
-/

namespace NativePreferences

open Lib

variable {Doc : Type} {parse : Bytes → Option Doc} {path bundle : String} {w : Files} {e : Nat}

/-! ### The environment -/

/-- `ENOENT`. -/
def enoent : Nat := 2

/-- `errno` after a call on a file: the call fails where there is no file. -/
def errnoAfter (isThere : Bool) (e : Nat) : Nat := if isThere then e else enoent

/-- The environment without faults, with the files and `errno` for its world. Nobody else holds
the lock. -/
def withErrno (parse : Bytes → Option Doc) : Sem OsCall (OsCall.Ret Doc) (Files × Nat)
  | .stat p, (w, e), r, v => r = (w p).isSome ∧ v = (w, errnoAfter (w p).isSome e)
  | .rename a b, (w, e), r, v =>
      r = (w a).isSome ∧ v = (if (w a).isSome then w.move a b else w, errnoAfter (w a).isSome e)
  | .remove p, (w, e), r, v =>
      r = (w p).isSome ∧ v = (w.set p none, errnoAfter (w p).isSome e)
  | .openFile p, (w, e), r, v => r = true ∧ v = (w.set p (some []), e)
  | .write p buf, (w, e), r, v =>
      r = (buf.length : Int) ∧ buf.length ≤ intMax ∧ v = (w.set p (some buf), e)
  | .fsync _, v, r, v' => r = true ∧ v' = v
  | .xmlReadFile p, (w, e), r, v =>
      r = (docAt parse w p, errnoAfter (w p).isSome e) ∧ v = (w, errnoAfter (w p).isSome e)
  | .errno, v, r, v' => r = v.2 ∧ v' = v
  | .fileSize p, (w, e), r, v =>
      r = ((w p).getD []).length ∧ v = (w, errnoAfter (w p).isSome e)
  | .lock p write, (w, e), r, v =>
      r = false ∧ v = if write then (w.touch (lockPath p), e)
        else (w, errnoAfter (w (lockPath p)).isSome e)
  | .close _, v, _, v' | .xmlGetLastError, v, _, v' | .strerror _, v, _, v'
  | .report _, v, _, v' => v' = v

theorem errnoAfter_eq (isThere : Bool) (e : Nat) :
    errnoAfter isThere e = e ∨ errnoAfter isThere e = enoent := by
  cases isThere with
  | true => exact .inl rfl
  | false => exact .inr rfl

theorem withErrno_answers (c : OsCall) (v : Files × Nat) (hc : c.Fits) :
    ∃ r v', withErrno parse c v r v' := by
  cases c with
  | write => exact ⟨_, _, rfl, hc, rfl⟩
  | stat | rename | remove | openFile | fsync | xmlReadFile | errno | fileSize | lock =>
      exact ⟨_, _, rfl, rfl⟩
  | close => exact ⟨(), v, rfl⟩
  | report => exact ⟨(), v, rfl⟩
  | xmlGetLastError => exact ⟨none, v, rfl⟩
  | strerror => exact ⟨"", v, rfl⟩

/-- A call leaves `errno` or sets it to `ENOENT`, and does to the files what it does in the
environment without faults. -/
theorem withErrno_faultFree (c : OsCall) {v v' : Files × Nat} {r : c.Ret Doc}
    (hv : v.2 = e ∨ v.2 = enoent) (h : withErrno parse c v r v') :
    faultFree parse (fun x => x = e ∨ x = enoent) c v.1 r v'.1 ∧ (v'.2 = e ∨ v'.2 = enoent) := by
  have hafter : ∀ b, errnoAfter b v.2 = e ∨ errnoAfter b v.2 = enoent := by
    intro b
    rcases errnoAfter_eq b v.2 with h | h
    · rw [h]
      exact hv
    · exact .inr h
  cases c with
  | stat | remove | fileSize =>
      obtain ⟨rfl, rfl⟩ := h
      exact ⟨⟨rfl, rfl⟩, hafter _⟩
  | openFile =>
      obtain ⟨rfl, rfl⟩ := h
      exact ⟨⟨rfl, rfl⟩, hv⟩
  | rename a b =>
      obtain ⟨rfl, rfl⟩ := h
      cases ha : v.1 a with
      | some c => exact ⟨.inl ⟨rfl, by simp [ha], rfl⟩, hafter true⟩
      | none => exact ⟨.inr ⟨rfl, ha, rfl⟩, hafter false⟩
  | write =>
      obtain ⟨rfl, hlen, rfl⟩ := h
      exact ⟨⟨rfl, hlen, rfl⟩, hv⟩
  | fsync =>
      obtain ⟨rfl, rfl⟩ := h
      exact ⟨⟨rfl, rfl⟩, hv⟩
  | xmlReadFile p =>
      obtain ⟨rfl, rfl⟩ := h
      exact ⟨⟨rfl, fun _ => hafter _, rfl⟩, hafter _⟩
  | errno =>
      obtain ⟨-, rfl⟩ := h
      exact ⟨rfl, hv⟩
  | lock p write =>
      obtain ⟨-, rfl⟩ := h
      cases write with
      | true => exact ⟨rfl, hv⟩
      | false => exact ⟨rfl, hafter _⟩
  | close | xmlGetLastError | strerror | report =>
      obtain rfl : v' = v := h
      exact ⟨rfl, hv⟩

/-- Without its `errno`, a run is a run of the environment without faults. -/
theorem exec_forget_errno {α : Type} {p : Os Doc α} {v v' : Files × Nat} {tr : List (OsEvent Doc)}
    {a : α} (h : Exec (withErrno parse) p v tr a v') (hp : p.OnlyCalls OsCall.Fits) :
    Exec (faultFree parse (fun x => x = v.2 ∨ x = enoent)) p v.1 tr a v'.1 := by
  -- from here on, `errno` is what it was or `ENOENT`
  have hS : ∀ (c : OsCall) (u : Files × Nat) (w : Files) (r : c.Ret Doc) (u' : Files × Nat),
      c.Fits → (u.1 = w ∧ (u.2 = v.2 ∨ u.2 = enoent)) → withErrno parse c u r u' →
        ∃ w', faultFree parse (fun x => x = v.2 ∨ x = enoent) c w r w' ∧
          (u'.1 = w' ∧ (u'.2 = v.2 ∨ u'.2 = enoent)) := by
    intro c u w r u' _ ⟨hu, he⟩ hs
    obtain ⟨hfree, he'⟩ := withErrno_faultFree c he hs
    exact ⟨u'.1, hu ▸ hfree, rfl, he'⟩
  obtain ⟨w', hexec, rfl, -⟩ := h.simulate hS hp ⟨rfl, .inl rfl⟩
  exact hexec

/-! ### Loads -/

/-- `errno` when the main file is read. -/
def errnoAtRead (path : String) (w : Files) (e : Nat) : Nat :=
  errnoAfter (w (lockPath path)).isSome e

/-- A load that starts with this `errno` gives the document of the backup. -/
def Recovers (parse : Bytes → Option Doc) (path bundle : String) (w : Files) (e : Nat) : Prop :=
  ∀ tr r v, Exec (withErrno parse) (xmlReadFile path bundle) (w, e) tr r v →
    r = docAt parse w (bakPath path)

theorem exists_exec_withErrno (parse : Bytes → Option Doc) (path bundle : String)
    (v : Files × Nat) :
    ∃ tr r v', Exec (withErrno parse) (xmlReadFile path bundle) v tr r v' :=
  xmlReadFile_fits.exists_exec (fun c v hc => withErrno_answers c v hc) v

/-- With an `errno` that stands for corruption, a load finds the view. -/
theorem exec_xmlReadFile_view (hfits : PathFits path)
    (he : isNonCorrupt (errnoAtRead path w e) = false) {tr : List (OsEvent Doc)} {r : Option Doc}
    {v : Files × Nat} (h : Exec (withErrno parse) (xmlReadFile path bundle) (w, e) tr r v) :
    r = view parse path w := by
  -- what `errno` is before the lock does not matter
  unfold xmlReadFile at h
  obtain ⟨tr₁, multi, v₁, tr₂, hlock, hrest, -⟩ := exec_bind_iff.mp h
  obtain ⟨-, rfl⟩ := (exec_op_iff.mp hlock).1
  have hfitsRest := (xmlReadFile_fits : (xmlReadFile path bundle : Os Doc _).OnlyCalls _).2 multi
  have hrest := exec_forget_errno hrest hfitsRest
  have hload : Exec (faultFree parse (fun x => x = errnoAtRead path w e ∨ x = enoent))
      (xmlReadFile path bundle) w _ r v.1 := exec_bind_iff.mpr
    ⟨_, multi, w, _, exec_op_iff.mpr ⟨rfl, rfl⟩, hrest, rfl⟩
  refine (exec_xmlReadFile hfits ?_ hload).1
  intro x hx
  rcases hx with rfl | rfl
  · exact he
  · rfl

/-- With one of the five codes of `isNonCorrupt`, the backup is not looked at. -/
theorem exec_xmlReadFile_none (hfits : PathFits path) (hmain : (w path).isSome)
    (hdoc : docAt parse w path = none) (he : isNonCorrupt (errnoAtRead path w e) = true)
    {tr : List (OsEvent Doc)} {r : Option Doc} {v : Files × Nat}
    (h : Exec (withErrno parse) (xmlReadFile path bundle) (w, e) tr r v) : r = none := by
  unfold xmlReadFile at h
  obtain ⟨_, multi, v₁, _, hlock, h, -⟩ := exec_bind_iff.mp h
  obtain ⟨-, rfl⟩ := (exec_op_iff.mp hlock).1
  obtain ⟨_, ex, v₂, _, hex, h, -⟩ := exec_bind_iff.mp h
  rw [isFileExist, if_neg (by have := hfits.main; omega)] at hex
  obtain ⟨rfl, rfl⟩ := (exec_op_iff.mp hex).1
  rw [if_pos hmain] at h
  obtain ⟨_, ⟨doc, errCode⟩, v₃, _, hread, h, -⟩ := exec_bind_iff.mp h
  obtain ⟨hr, rfl⟩ := (exec_op_iff.mp hread).1
  obtain ⟨rfl, rfl⟩ := Prod.mk.inj hr
  rw [hdoc] at h
  obtain ⟨_, msg, v₄, _, -, h, -⟩ := exec_bind_iff.mp h
  obtain ⟨_, nc, v₅, _, hnc, h, -⟩ := exec_bind_iff.mp h
  -- `errno` is still that of the lock: the main file is there
  have herrno : errnoAfter (w path).isSome (errnoAfter (w path).isSome (errnoAtRead path w e)) =
      errnoAtRead path w e := by simp only [errnoAfter, hmain, if_true]
  obtain rfl : nc = true := by
    rw [exec_reportNonCorruptError hnc, ← he, ← herrno]
    rfl
  exact (exec_ret_iff.mp h).2.1

/-- Where there is no lock file, every load recovers. -/
theorem recovers_of_no_lock (hfits : PathFits path) (hlock : w (lockPath path) = none)
    (hdoc : docAt parse w path = none) : Recovers parse path bundle w e := by
  intro tr r v h
  have he : isNonCorrupt (errnoAtRead path w e) = false := by
    rw [errnoAtRead, hlock]
    rfl
  rw [exec_xmlReadFile_view hfits he h, view, hdoc, Option.none_or]

/-- **Exactly when a load recovers.** The main file does not parse, the backup does, and no system
call fails, that on the lock file included. The load gives the document of the backup if and only
if the `errno` from before is none of the five codes of `isNonCorrupt`. -/
theorem xmlReadFile_recovers_iff (hfits : PathFits path) (hlock : (w (lockPath path)).isSome)
    (hmain : (w path).isSome) (hdoc : docAt parse w path = none)
    (hbak : (docAt parse w (bakPath path)).isSome) :
    Recovers parse path bundle w e ↔ isNonCorrupt e = false := by
  have hread : errnoAtRead path w e = e := by rw [errnoAtRead, errnoAfter, if_pos hlock]
  constructor
  · intro hrec
    by_contra he
    rw [Bool.not_eq_false] at he
    obtain ⟨tr, r, v, h⟩ := exists_exec_withErrno parse path bundle (w, e)
    have hnone : r = none :=
      exec_xmlReadFile_none hfits hmain hdoc (by rw [hread]; exact he) h
    rw [← hrec tr r v h, hnone] at hbak
    exact Bool.noConfusion hbak
  · intro he tr r v h
    rw [exec_xmlReadFile_view hfits (by rw [hread]; exact he) h, view, hdoc, Option.none_or]

/-- A main file that does not parse, a backup that does, and a lock file. -/
def brokenWithBackup : Files :=
  Files.set (Files.set (Files.set (fun _ => none) "/p" (some [0])) "/p.bak" (some [1, 62]))
    "/p.lock" (some [])

/-- A look at a file that was not there, some time before. -/
theorem xmlReadFile_recovers_enoent : Recovers parseTagged "/p" "b" brokenWithBackup enoent :=
  (xmlReadFile_recovers_iff (by decide) (by decide) (by decide) (by decide) (by decide)).mpr
    (by decide)

/-- The disk was full, some time before. The backup is good, and the load gives nothing. -/
theorem xmlReadFile_stale_enospc :
    ¬ ∀ (w : Files) (e : Nat), (w (lockPath "/p")).isSome → (w "/p").isSome →
      docAt parseTagged w "/p" = none → (docAt parseTagged w (bakPath "/p")).isSome →
      Recovers parseTagged "/p" "b" w e := by
  intro hall
  have hrec := hall brokenWithBackup 28 (by decide) (by decide) (by decide) (by decide)
  obtain ⟨tr, r, v, h⟩ := exists_exec_withErrno parseTagged "/p" "b" (brokenWithBackup, 28)
  have hnone : r = none := exec_xmlReadFile_none (by decide) (by decide) (by decide) (by decide) h
  exact absurd ((hrec tr r v h).symm.trans hnone) (by decide)

end NativePreferences
