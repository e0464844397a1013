import NativePreferences.Lib.RecordLocks
import NativePreferences.Lib.Threads

/-!
# NativePreferences.FileLock

**Who is in the files of a path** (`preferences_file_lock.cpp`). `SaveXmlFile`, `XmlReadFile` and
`DeletePreferences` each work between the lock of a `PreferencesFileLock` and its destruction.
Threads of one process exclude each other by `inProcessMutex_`; threads of different processes by
a record lock on the lock file, which is at most one file at a time, and a new one after a
`DeletePreferences`.

* `ReadLock` takes no record lock where there is no lock file (`Pc.reading`).
* `DeletePreferences` removes the lock file before it is done (`Pc.swept`).
* The destructor gives `inProcessMutex_` back first, then the record lock, by `F_UNLCK` and once
  more by `close`. Whatever a thread of the process has locked by then is given up too.

Every `Lock` succeeds here: an attempt that fails is followed by another one.
-/

namespace NativePreferences.FileLock

open Lib

/-- What is done under the lock. -/
inductive Access
  | save
  | read
  | delete
  deriving DecidableEq, Repr

/-- The type of the record lock. -/
def Access.lockType : Access → LockKind
  | .read => .read
  | .save | .delete => .write

/-- Where a thread is. A lock file goes by a number, and `fd` is `fd_`. -/
inductive Pc
  | outside
  /-- It has `inProcessMutex_`. -/
  | constructed (a : Access)
  /-- Before `open`. -/
  | opening (a : Access)
  /-- Before `F_SETLK`. -/
  | setting (a : Access) (file fd : Nat)
  /-- In `XmlReadFile`, without a record lock. -/
  | reading
  /-- In `SaveXmlFile`, `XmlReadFile` or `DeletePreferences`, with a record lock. -/
  | inside (a : Access) (file fd : Nat)
  /-- In `DeletePreferences`, after the lock file was removed. -/
  | swept (file fd : Nat)
  /-- In the destructor, before `F_UNLCK`. -/
  | unlocking (file : Nat)
  /-- In the destructor, before `close`. -/
  | closing (file : Nat)
  deriving DecidableEq, Repr

namespace Pc

/-- In the critical section. -/
def active : Pc → Bool
  | .reading | .inside _ _ _ | .swept _ _ => true
  | _ => false

/-- In a critical section that writes. -/
def writes : Pc → Bool
  | .inside a _ _ => a != .read
  | .swept _ _ => true
  | _ => false

/-- Between the constructor and the destructor. -/
def hasMutex : Pc → Bool
  | .outside | .unlocking _ | .closing _ => false
  | _ => true

/-- The record lock that the thread has set. -/
def lock : Pc → Option (Nat × LockKind)
  | .inside a file _ => some (file, a.lockType)
  | .swept file _ => some (file, .write)
  | _ => none

/-- The lock file that the thread has open, up to its destructor. -/
def file : Pc → Option Nat
  | .setting _ file _ | .inside _ file _ | .swept file _ => some file
  | _ => none

end Pc

/-- What the threads share. -/
structure Shared where
  /-- The file at the path of the lock. -/
  lockFile : Option Nat
  /-- How many lock files there have been. -/
  created : Nat
  locks : RecordLocks Nat Nat
  /-- `inProcessMutex_` of each process. -/
  inProcessMutex : Nat → Option Tid

/-- What a step shows. -/
inductive Event
  /-- The lock file was removed. -/
  | removed (file : Nat)
  /-- A process gave up its record lock on the file. -/
  | released (file : Nat)
  | other
  deriving DecidableEq, Repr

/-- After `inProcessMutex_->unlock()`. -/
def afterUnlock (file fd : Nat) : Pc := if 0 < fd then .unlocking file else .outside

variable (proc : Tid → Nat)

/-- One step of a thread. -/
inductive Does (t : Tid) : Shared → Pc → Event → Shared → Pc → Prop
  | construct {sh : Shared} (a : Access) (hfree : sh.inProcessMutex (proc t) = none) :
      Does t sh .outside .other
        { sh with inProcessMutex := Function.update sh.inProcessMutex (proc t) (some t) }
        (.constructed a)
  -- `ReadLock`, `WriteLock`
  | noLockFile {sh : Shared} (habsent : sh.lockFile = none) :
      Does t sh (.constructed .read) .other sh .reading
  | lockFile {sh : Shared} (hthere : sh.lockFile ≠ none) :
      Does t sh (.constructed .read) .other sh (.opening .read)
  | writeLock {sh : Shared} {a : Access} (ha : a ≠ .read) :
      Does t sh (.constructed a) .other sh (.opening a)
  -- `Lock`
  | openThere {sh : Shared} {a : Access} {file : Nat} (fd : Nat)
      (hthere : sh.lockFile = some file) :
      Does t sh (.opening a) .other sh (.setting a file fd)
  | openCreate {sh : Shared} {a : Access} (fd : Nat) (habsent : sh.lockFile = none) :
      Does t sh (.opening a) .other
        { sh with lockFile := some sh.created, created := sh.created + 1 }
        (.setting a sh.created fd)
  | again {sh : Shared} {a : Access} {file fd : Nat}
      (hrefused : ¬ sh.locks.Grants file (proc t) a.lockType) :
      Does t sh (.setting a file fd) .other sh (.setting a file fd)
  | setLock {sh : Shared} {a : Access} {file fd : Nat}
      (hgranted : sh.locks.Grants file (proc t) a.lockType) :
      Does t sh (.setting a file fd) .other
        { sh with locks := sh.locks.lock file (proc t) a.lockType } (.inside a file fd)
  -- the work of `DeletePreferences` on the lock file
  | removeThere {sh : Shared} {file fd removed : Nat} (hthere : sh.lockFile = some removed) :
      Does t sh (.inside .delete file fd) (.removed removed) { sh with lockFile := none }
        (.swept file fd)
  | removeNone {sh : Shared} {file fd : Nat} (habsent : sh.lockFile = none) :
      Does t sh (.inside .delete file fd) .other sh (.swept file fd)
  -- the destructor
  | destructReader {sh : Shared} :
      Does t sh .reading .other
        { sh with inProcessMutex := Function.update sh.inProcessMutex (proc t) none } .outside
  | destruct {sh : Shared} {a : Access} {file fd : Nat} (ha : a ≠ .delete) :
      Does t sh (.inside a file fd) .other
        { sh with inProcessMutex := Function.update sh.inProcessMutex (proc t) none }
        (afterUnlock file fd)
  | destructDeleter {sh : Shared} {file fd : Nat} :
      Does t sh (.swept file fd) .other
        { sh with inProcessMutex := Function.update sh.inProcessMutex (proc t) none }
        (afterUnlock file fd)
  | unlock {sh : Shared} {file : Nat} :
      Does t sh (.unlocking file) (.released file)
        { sh with locks := sh.locks.unlock file (proc t) } (.closing file)
  | close {sh : Shared} {file : Nat} :
      Does t sh (.closing file) (.released file)
        { sh with locks := sh.locks.unlock file (proc t) } .outside

/-- The threads, before any of them has begun. -/
def initial (present : Bool) : Threads Shared Pc where
  sh :=
    { lockFile := if present then some 0 else none, created := if present then 1 else 0,
      locks := fun _ _ => none, inProcessMutex := fun _ => none }
  pc _ := .outside

/-- One step of the threads. -/
abbrev Step : Threads Shared Pc → Tid × Event → Threads Shared Pc → Prop :=
  Threads.Step (Does proc)

variable {proc} {t : Tid} {sh sh' : Shared} {p p' : Pc} {ev : Event}
variable {s s' : Threads Shared Pc} {l : Tid × Event}

/-! ### One step -/

theorem hasMutex_afterUnlock (file fd : Nat) : (afterUnlock file fd).hasMutex = false := by
  unfold afterUnlock
  split
  · rfl
  · rfl

theorem lock_afterUnlock (file fd : Nat) : (afterUnlock file fd).lock = none := by
  unfold afterUnlock
  split
  · rfl
  · rfl

/-- A thread with a record lock is between the constructor and the destructor. -/
theorem hasMutex_of_lock {file : Nat} {k : LockKind} (h : p.lock = some (file, k)) :
    p.hasMutex = true := by
  cases p with
  | inside a file fd => rfl
  | swept file fd => rfl
  | _ => cases h

/-- What a step does to the mutex of the process. -/
inductive MutexStep (proc : Tid → Nat) (t : Tid) (sh sh' : Shared) (p p' : Pc) : Prop
  | keep (hmutex : sh'.inProcessMutex = sh.inProcessMutex) (hpc : p'.hasMutex = p.hasMutex)
  | acquire (hfree : sh.inProcessMutex (proc t) = none)
      (hmutex : sh'.inProcessMutex = Function.update sh.inProcessMutex (proc t) (some t))
  | release (hpc : p.hasMutex = true)
      (hmutex : sh'.inProcessMutex = Function.update sh.inProcessMutex (proc t) none)
      (hpc' : p'.hasMutex = false)

theorem Does.mutex (h : Does proc t sh p ev sh' p') : MutexStep proc t sh sh' p p' := by
  cases h with
  | construct a hfree => exact .acquire hfree rfl
  | noLockFile | lockFile | writeLock | openThere | openCreate | again | setLock | removeThere
  | removeNone | unlock | close => exact .keep rfl rfl
  | destructReader => exact .release rfl rfl rfl
  | destruct ha => exact .release rfl rfl (hasMutex_afterUnlock _ _)
  | destructDeleter => exact .release rfl rfl (hasMutex_afterUnlock _ _)

/-- What a step does to the record locks. -/
inductive LocksStep (proc : Tid → Nat) (t : Tid) (sh sh' : Shared) (p p' : Pc) (ev : Event) :
    Prop
  | keep (hlocks : sh'.locks = sh.locks) (hpc : p'.lock = none ∨ p'.lock = p.lock)
  | lock (file : Nat) (k : LockKind) (hmutex : p.hasMutex = true)
      (hgranted : sh.locks.Grants file (proc t) k)
      (hlocks : sh'.locks = sh.locks.lock file (proc t) k) (hpc : p'.lock = some (file, k))
  | unlock (file : Nat) (hev : ev = .released file)
      (hlocks : sh'.locks = sh.locks.unlock file (proc t)) (hpc : p'.lock = none)

theorem Does.locks (h : Does proc t sh p ev sh' p') : LocksStep proc t sh sh' p p' ev := by
  cases h with
  | construct | noLockFile | lockFile | writeLock | openThere | openCreate | again
  | destructReader => exact .keep rfl (.inl rfl)
  | removeThere | removeNone => exact .keep rfl (.inr rfl)
  | setLock hgranted => exact .lock _ _ rfl hgranted rfl rfl
  | destruct ha => exact .keep rfl (.inl (lock_afterUnlock _ _))
  | destructDeleter => exact .keep rfl (.inl (lock_afterUnlock _ _))
  | unlock => exact .unlock _ rfl rfl rfl
  | close => exact .unlock _ rfl rfl rfl

/-! ### The mutex of a process -/

/-- `inProcessMutex_` names the thread of the process that has it. -/
def MutexInv (proc : Tid → Nat) (s : Threads Shared Pc) : Prop :=
  ∀ t, (s.pc t).hasMutex = true → s.sh.inProcessMutex (proc t) = some t

theorem MutexInv.unique (h : MutexInv proc s) {u : Tid} (ht : (s.pc t).hasMutex = true)
    (hu : (s.pc u).hasMutex = true) (hproc : proc t = proc u) : t = u := by
  have htu := h t ht
  rw [hproc, h u hu] at htu
  exact (Option.some.inj htu).symm

theorem MutexInv.step (h : MutexInv proc s) (hstep : Step proc s l s') : MutexInv proc s' := by
  have hown := hstep.own.mutex
  refine Threads.step_forall (A := fun (sh : Shared) (t : Tid) (p : Pc) =>
    p.hasMutex = true → sh.inProcessMutex (proc t) = some t) hstep ?_ ?_ h
  · intro hpc
    cases hown with
    | keep hmutex hsame =>
        rw [hmutex]
        exact h l.1 (hsame ▸ hpc)
    | acquire hfree hmutex => rw [hmutex, Function.update_self]
    | release _ _ hpc' => cases hpc'.symm.trans hpc
  · intro u hu hold hpc
    have hheld := hold hpc
    cases hown with
    | keep hmutex _ =>
        rw [hmutex]
        exact hheld
    | acquire hfree hmutex =>
        have hproc : proc u ≠ proc l.1 := by
          intro heq
          rw [heq, hfree] at hheld
          cases hheld
        rw [hmutex, Function.update_of_ne hproc]
        exact hheld
    | release hhad hmutex _ =>
        have hproc : proc u ≠ proc l.1 := fun heq => hu (h.unique hpc hhad heq)
        rw [hmutex, Function.update_of_ne hproc]
        exact hheld

/-! ### The record locks -/

/-- No record lock is given up while another thread of the process relies on it. -/
def NoEarlyRelease (proc : Tid → Nat) (s : Threads Shared Pc) (l : Tid × Event) : Prop :=
  ∀ file, l.2 = .released file →
    ∀ u k, u ≠ l.1 → proc u = proc l.1 → (s.pc u).lock ≠ some (file, k)

/-- The record lock that a thread has set is there. -/
def LocksInv (proc : Tid → Nat) (s : Threads Shared Pc) : Prop :=
  ∀ t file k, (s.pc t).lock = some (file, k) → s.sh.locks file (proc t) = some k

theorem LocksInv.step (h : LocksInv proc s) (hmutex : MutexInv proc s)
    (hstep : Step proc s l s') (hok : NoEarlyRelease proc s l) : LocksInv proc s' := by
  have hown := hstep.own.locks
  refine Threads.step_forall (A := fun (sh : Shared) (t : Tid) (p : Pc) =>
    ∀ file k, p.lock = some (file, k) → sh.locks file (proc t) = some k) hstep ?_ ?_ h
  · intro file k hlock
    cases hown with
    | keep hlocks hpc =>
        rw [hlocks]
        obtain hnone | hsame := hpc
        · cases hnone.symm.trans hlock
        · exact h l.1 file k (hsame.symm.trans hlock)
    | lock file' k' _ _ hlocks hpc =>
        cases hpc.symm.trans hlock
        rw [hlocks, RecordLocks.lock_self]
    | unlock file' _ _ hpc => cases hpc.symm.trans hlock
  · intro u hu hold file k hlock
    have hheld := hold file k hlock
    cases hown with
    | keep hlocks _ =>
        rw [hlocks]
        exact hheld
    | lock file' k' hhas _ hlocks _ =>
        -- the thread that locks has the mutex, so this one is of another process
        have hproc : proc u ≠ proc l.1 :=
          fun heq => hu (hmutex.unique (hasMutex_of_lock hlock) hhas heq)
        rw [hlocks, RecordLocks.lock_of_ne (.inr hproc)]
        exact hheld
    | unlock file' hev hlocks _ =>
        have hne : file ≠ file' ∨ proc u ≠ proc l.1 := by
          by_contra hboth
          rw [not_or, not_not, not_not] at hboth
          exact hok file' hev u k hu hboth.2 (hboth.1 ▸ hlock)
        rw [hlocks, RecordLocks.unlock_of_ne hne]
        exact hheld

theorem compatible_step (h : s.sh.locks.Compatible) (hstep : Step proc s l s') :
    s'.sh.locks.Compatible := by
  cases hstep.own.locks with
  | keep hlocks _ => exact hlocks ▸ h
  | lock file k _ hgranted hlocks _ => exact hlocks ▸ h.lock hgranted
  | unlock file _ hlocks _ => exact hlocks ▸ h.unlock file (proc l.1)

/-! ### The lock files -/

/-- What a step does to the lock file. -/
inductive FilesStep (sh sh' : Shared) (p p' : Pc) (ev : Event) : Prop
  | keep (hfile : sh'.lockFile = sh.lockFile) (hcreated : sh'.created = sh.created)
      (hpc : p'.file = none ∨ p'.file = p.file ∨ p'.file = sh.lockFile)
  | create (hfile : sh'.lockFile = some sh.created) (hcreated : sh'.created = sh.created + 1)
      (habsent : sh.lockFile = none) (hpc : p'.file = some sh.created)
  | remove (file : Nat) (hthere : sh.lockFile = some file) (hev : ev = .removed file)
      (hfile : sh'.lockFile = none) (hcreated : sh'.created = sh.created)
      (hpc : p'.file = p.file)

theorem file_afterUnlock (file fd : Nat) : (afterUnlock file fd).file = none := by
  unfold afterUnlock
  split
  · rfl
  · rfl

theorem Does.files (h : Does proc t sh p ev sh' p') : FilesStep sh sh' p p' ev := by
  cases h with
  | construct | noLockFile | lockFile | writeLock | destructReader | unlock | close =>
      exact .keep rfl rfl (.inl rfl)
  | openThere fd hthere => exact .keep rfl rfl (.inr (.inr hthere.symm))
  | openCreate fd habsent => exact .create rfl rfl habsent rfl
  | again | setLock => exact .keep rfl rfl (.inr (.inl rfl))
  | removeThere hthere => exact .remove _ hthere rfl rfl rfl rfl
  | removeNone habsent => exact .keep rfl rfl (.inr (.inl rfl))
  | destruct ha => exact .keep rfl rfl (.inl (file_afterUnlock _ _))
  | destructDeleter => exact .keep rfl rfl (.inl (file_afterUnlock _ _))

/-- Of the lock files so far, all but the one at the path have been removed. -/
structure FilesInv (hist : List (Tid × Event)) (s : Threads Shared Pc) : Prop where
  lockFile : ∀ file, s.sh.lockFile = some file → file < s.sh.created
  opened : ∀ t file, (s.pc t).file = some file → file < s.sh.created
  removed : ∀ file < s.sh.created,
    s.sh.lockFile = some file ∨ ∃ v, (v, Event.removed file) ∈ hist

theorem FilesInv.step {hist : List (Tid × Event)} (h : FilesInv hist s)
    (hstep : Step proc s l s') : FilesInv (hist ++ [l]) s' := by
  have hown := hstep.own.files
  have hgrow : s.sh.created ≤ s'.sh.created := by
    cases hown with
    | keep _ hcreated _ => exact Nat.le_of_eq hcreated.symm
    | create _ hcreated _ _ => exact hcreated ▸ Nat.le_succ _
    | remove _ _ _ _ hcreated _ => exact Nat.le_of_eq hcreated.symm
  have hkept : ∀ file, (∃ v, (v, Event.removed file) ∈ hist) →
      ∃ v, (v, Event.removed file) ∈ hist ++ [l] :=
    fun file hv => hv.imp (fun v hv => List.mem_append_left _ hv)
  refine ⟨?_, ?_, ?_⟩
  · intro file hfile
    cases hown with
    | keep hsame _ _ => exact Nat.lt_of_lt_of_le (h.lockFile file (hsame ▸ hfile)) hgrow
    | create hnew hcreated _ _ =>
        obtain rfl : s.sh.created = file := Option.some.inj (hnew.symm.trans hfile)
        exact hcreated ▸ Nat.lt_succ_self _
    | remove _ _ _ hnone _ _ => cases hnone.symm.trans hfile
  · refine Threads.step_forall (A := fun (sh : Shared) (_ : Tid) (p : Pc) =>
      ∀ file, p.file = some file → file < sh.created) hstep ?_ ?_ h.opened
    · intro file hfile
      cases hown with
      | keep _ _ hpc =>
          obtain hnone | hsame | hlock := hpc
          · cases hnone.symm.trans hfile
          · exact Nat.lt_of_lt_of_le (h.opened l.1 file (hsame.symm.trans hfile)) hgrow
          · exact Nat.lt_of_lt_of_le (h.lockFile file (hlock.symm.trans hfile)) hgrow
      | create _ hcreated _ hpc =>
          obtain rfl : s.sh.created = file := Option.some.inj (hpc.symm.trans hfile)
          exact hcreated ▸ Nat.lt_succ_self _
      | remove _ _ _ _ _ hpc =>
          exact Nat.lt_of_lt_of_le (h.opened l.1 file (hpc.symm.trans hfile)) hgrow
    · exact fun u _ hold file hfile => Nat.lt_of_lt_of_le (hold file hfile) hgrow
  · intro file hlt
    cases hown with
    | keep hsame hcreated _ =>
        rw [hsame]
        exact (h.removed file (hcreated ▸ hlt)).imp_right (hkept file)
    | create hnew hcreated habsent _ =>
        rw [hnew]
        obtain hold | rfl := Nat.lt_succ_iff_lt_or_eq.mp (hcreated ▸ hlt)
        · obtain hthere | hremoved := h.removed file hold
          · cases habsent.symm.trans hthere
          · exact .inr (hkept file hremoved)
        · exact .inl rfl
    | remove gone hthere hev hnone hcreated _ =>
        refine .inr ?_
        obtain hthere' | hremoved := h.removed file (hcreated ▸ hlt)
        · obtain rfl : gone = file := Option.some.inj (hthere.symm.trans hthere')
          exact ⟨l.1, List.mem_append_right _ (List.mem_singleton.mpr (Prod.ext rfl hev.symm))⟩
        · exact hkept file hremoved

theorem filesInv_initial (present : Bool) : FilesInv [] (initial present) := by
  cases present with
  | true =>
      refine ⟨?_, nofun, ?_⟩
      · intro file hfile
        cases hfile
        exact Nat.one_pos
      · intro file hlt
        obtain rfl : file = 0 := Nat.lt_one_iff.mp hlt
        exact .inl rfl
  | false => exact ⟨nofun, nofun, fun file hlt => absurd hlt (Nat.not_lt_zero file)⟩

/-! ### Runs -/

theorem mutexInv_run {present : Bool} {ls : List (Tid × Event)}
    (hrun : Run (Step proc) (initial present) ls s) : MutexInv proc s :=
  hrun.invariant (fun _ _ _ h hstep => h.step hstep) nofun

theorem locksInv_run {present : Bool} {ls : List (Tid × Event)}
    (hrun : Run (guarded (Step proc) (NoEarlyRelease proc)) (initial present) ls s) :
    LocksInv proc s ∧ s.sh.locks.Compatible := by
  have hall : MutexInv proc s ∧ LocksInv proc s ∧ s.sh.locks.Compatible := by
    refine hrun.invariant
      (I := fun s => MutexInv proc s ∧ LocksInv proc s ∧ s.sh.locks.Compatible) ?_
      ⟨nofun, nofun, RecordLocks.compatible_empty⟩
    intro s l s' ⟨hmutex, hlocks, hcompatible⟩ ⟨hstep, hok⟩
    exact ⟨hmutex.step hstep, hlocks.step hmutex hstep hok, compatible_step hcompatible hstep⟩
  exact hall.2

theorem filesInv_run {present : Bool} {ls : List (Tid × Event)}
    (hrun : Run (Step proc) (initial present) ls s) : FilesInv ls s :=
  hrun.invariant_history (I := FilesInv) (fun _ _ _ _ h hstep => h.step hstep) []
    (filesInv_initial present)

/-- In the critical section a thread has the mutex. -/
theorem hasMutex_of_active (h : p.active = true) : p.hasMutex = true := by
  cases p with
  | reading | inside | swept => rfl
  | _ => cases h

/-- In the critical section a thread has a record lock, unless it reads without one. -/
theorem lock_of_active (h : p.active = true) :
    p = .reading ∨ ∃ file k, p.lock = some (file, k) ∧ p.file = some file := by
  cases p with
  | reading => exact .inl rfl
  | inside a file fd => exact .inr ⟨file, a.lockType, rfl, rfl⟩
  | swept file fd => exact .inr ⟨file, .write, rfl, rfl⟩
  | _ => cases h

/-- A thread that writes has a write lock. -/
theorem lock_of_writes (h : p.writes = true) :
    p.active = true ∧ ∃ file, p.lock = some (file, .write) ∧ p.file = some file := by
  cases p with
  | inside a file fd =>
      cases a with
      | save => exact ⟨rfl, file, rfl, rfl⟩
      | delete => exact ⟨rfl, file, rfl, rfl⟩
      | read => cases h
  | swept file fd => exact ⟨rfl, file, rfl, rfl⟩
  | _ => cases h

/-- **Exclusion.** Threads of one process are never in their sections at the same time. As long
as no record lock is given up early, neither are threads of two processes of which one writes,
unless the other reads without a record lock, or the two have locked different lock files and one
of these has been removed. -/
theorem sections_exclusive (proc : Tid → Nat) (present : Bool) :
    (∀ ls s, Run (Step proc) (initial present) ls s → ∀ t u, t ≠ u →
      (s.pc t).active = true → (s.pc u).active = true → proc t ≠ proc u) ∧
    (∀ ls s, Run (guarded (Step proc) (NoEarlyRelease proc)) (initial present) ls s →
      ∀ t u, t ≠ u → (s.pc t).writes = true → (s.pc u).active = true →
      s.pc u = .reading ∨
        ∃ f g, (s.pc t).file = some f ∧ (s.pc u).file = some g ∧ f ≠ g ∧
          ∃ v, (v, Event.removed f) ∈ ls ∨ (v, Event.removed g) ∈ ls) := by
  have hmutex : ∀ ls s, Run (Step proc) (initial present) ls s → ∀ t u, t ≠ u →
      (s.pc t).active = true → (s.pc u).active = true → proc t ≠ proc u := by
    intro ls s hrun t u htu ht hu hproc
    have hinv := mutexInv_run hrun
    exact htu (hinv.unique (hasMutex_of_active ht) (hasMutex_of_active hu) hproc)
  refine ⟨hmutex, ?_⟩
  intro ls s hrun t u htu ht hu
  obtain ⟨hactive, f, hlockt, hfilet⟩ := lock_of_writes ht
  have hproc := hmutex ls s hrun.unguard t u htu hactive hu
  obtain ⟨hlocks, hcompatible⟩ := locksInv_run hrun
  obtain hreading | ⟨g, k, hlocku, hfileu⟩ := lock_of_active hu
  · exact .inl hreading
  · have hfg : f ≠ g := by
      intro hfg
      rw [← hfg] at hlocku
      have hnone := hcompatible f _ _ hproc (hlocks t f .write hlockt)
      cases hnone.symm.trans (hlocks u f k hlocku)
    -- at most one of the two files is the one at the path
    have hfiles := filesInv_run hrun.unguard
    refine .inr ⟨f, g, hfilet, hfileu, hfg, ?_⟩
    obtain hf | ⟨v, hf⟩ := hfiles.removed f (hfiles.opened t f hfilet)
    · obtain hg | ⟨v, hg⟩ := hfiles.removed g (hfiles.opened u g hfileu)
      · exact absurd (Option.some.inj (hf.symm.trans hg)) hfg
      · exact ⟨v, .inr hg⟩
    · exact ⟨v, .inl hf⟩

/-- Thread 0 deletes, and has removed the lock file; thread 1 of another process makes a new one
and saves. -/
theorem run_removed :
    ∃ ls s, Run (guarded (Step id) (NoEarlyRelease id)) (initial true) ls s ∧
      (s.pc 1).writes = true ∧ s.pc 0 = .swept 0 3 := by
  have hquiet : ∀ (s : Threads Shared Pc) (t : Tid), NoEarlyRelease id s (t, .other) :=
    fun _ _ _ h => nomatch h
  have hrun : Run (guarded (Step id) (NoEarlyRelease id)) (initial true) _ _ :=
    .cons ⟨.mk (t := 0) (.construct .delete rfl), hquiet _ _⟩
    (.cons ⟨.mk (t := 0) (.writeLock nofun), hquiet _ _⟩
    (.cons ⟨.mk (t := 0) (.openThere 3 rfl), hquiet _ _⟩
    (.cons ⟨.mk (t := 0) (.setLock (fun _ _ => .inl rfl)), hquiet _ _⟩
    (.cons ⟨.mk (t := 0) (.removeThere rfl), fun _ h => nomatch h⟩
    (.cons ⟨.mk (t := 1) (.construct .save rfl), hquiet _ _⟩
    (.cons ⟨.mk (t := 1) (.writeLock nofun), hquiet _ _⟩
    (.cons ⟨.mk (t := 1) (.openCreate 3 rfl), hquiet _ _⟩
    (.cons ⟨.mk (t := 1) (.setLock (fun _ _ => .inl rfl)), hquiet _ _⟩ .nil))))))))
  exact ⟨_, _, hrun, rfl, rfl⟩

/-- The two have locked different files there. -/
theorem sections_exclusive_removed :
    ∃ ls s, Run (guarded (Step id) (NoEarlyRelease id)) (initial true) ls s ∧
      ∃ f, (s.pc 1).file = some f ∧ f ≠ 0 ∧
        ∃ v, (v, Event.removed f) ∈ ls ∨ (v, Event.removed 0) ∈ ls := by
  obtain ⟨ls, s, hrun, hwrites, hswept⟩ := run_removed
  have hactive : (s.pc 0).active = true := by rw [hswept]; rfl
  obtain hreading | ⟨f, g, hf, hg, hfg, hremoved⟩ :=
    (sections_exclusive id true).2 ls s hrun 1 0 Nat.one_ne_zero hwrites hactive
  · cases hswept.symm.trans hreading
  · rw [hswept] at hg
    obtain rfl : 0 = g := Option.some.inj hg
    exact ⟨ls, s, hrun, f, hf, hfg, hremoved⟩

/-- Two sections, of which one writes, at the same time. -/
def Overlap (proc : Tid → Nat) (present : Bool) : Prop :=
  ∃ ls s, Run (Step proc) (initial present) ls s ∧
    ∃ t u, t ≠ u ∧ (s.pc t).writes = true ∧ (s.pc u).active = true

/-- Nobody else has a lock on a file that only the process itself has locked. -/
theorem grants_own {r : RecordLocks Nat Nat} {file q : Nat} {k k' : LockKind}
    (hr : ∀ q, r file q = none) : (r.lock file q k).Grants file q k' := by
  intro q' hq
  rw [RecordLocks.lock_of_ne (.inr hq)]
  exact .inl (hr q')

/-- Threads 0 and 1 are of one process, thread 2 of another. Thread 0 has saved and has given its
mutex back; thread 1 locks the mutex and the file; thread 0 gives up the record lock, which is
that of thread 1 too; thread 2 locks the file. -/
theorem overlap_released : Overlap (fun t => if t = 2 then 1 else 0) true := by
  have hgiven : RecordLocks.Grants
      (((RecordLocks.lock (fun _ _ => none) 0 0 .write).lock 0 0 .write).unlock 0 0) 0 1
      .write := by
    intro q hq
    by_cases hq0 : q = 0
    · rw [hq0]
      exact .inl RecordLocks.unlock_self
    · rw [RecordLocks.unlock_of_ne (.inr hq0), RecordLocks.lock_of_ne (.inr hq0),
        RecordLocks.lock_of_ne (.inr hq0)]
      exact .inl rfl
  have hrun : Run (Step (fun t => if t = 2 then 1 else 0)) (initial true) _ _ :=
    .cons (.mk (t := 0) (.construct .save rfl))
    (.cons (.mk (t := 0) (.writeLock nofun))
    (.cons (.mk (t := 0) (.openThere 3 rfl))
    (.cons (.mk (t := 0) (.setLock (fun _ _ => .inl rfl)))
    (.cons (.mk (t := 0) (.destruct nofun))
    (.cons (.mk (t := 1) (.construct .save rfl))
    (.cons (.mk (t := 1) (.writeLock nofun))
    (.cons (.mk (t := 1) (.openThere 4 rfl))
    (.cons (.mk (t := 1) (.setLock (grants_own (fun _ => rfl))))
    (.cons (.mk (t := 0) .unlock)
    (.cons (.mk (t := 2) (.construct .save rfl))
    (.cons (.mk (t := 2) (.writeLock nofun))
    (.cons (.mk (t := 2) (.openThere 3 rfl))
    (.cons (.mk (t := 2) (.setLock hgiven)) .nil)))))))))))))
  exact ⟨_, _, hrun, 1, 2, by decide, rfl, rfl⟩

/-- Thread 0 finds no lock file and reads; thread 1 of another process saves. -/
theorem overlap_reading : Overlap id false := by
  have hrun : Run (Step id) (initial false) _ _ :=
    .cons (.mk (t := 0) (.construct .read rfl))
    (.cons (.mk (t := 0) (.noLockFile rfl))
    (.cons (.mk (t := 1) (.construct .save rfl))
    (.cons (.mk (t := 1) (.writeLock nofun))
    (.cons (.mk (t := 1) (.openCreate 3 rfl))
    (.cons (.mk (t := 1) (.setLock (fun _ _ => .inl rfl))) .nil)))))
  exact ⟨_, _, hrun, 1, 0, by decide, rfl, rfl⟩

/-- A thread that deletes has removed the lock file; a thread of another process saves. -/
theorem overlap_removed : Overlap id true := by
  obtain ⟨ls, s, hrun, hwrites, hswept⟩ := run_removed
  exact ⟨ls, s, hrun.unguard, 1, 0, Nat.one_ne_zero, hwrites, by rw [hswept]; rfl⟩

/-- In each of the three ways two sections can be active at the same time. -/
theorem sections_overlap :
    Overlap (fun t => if t = 2 then 1 else 0) true ∧ Overlap id false ∧ Overlap id true :=
  ⟨overlap_released, overlap_reading, overlap_removed⟩

end NativePreferences.FileLock
