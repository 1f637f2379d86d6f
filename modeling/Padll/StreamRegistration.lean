import Padll.Library.Interleaving
import Padll.LdPreloadedRuns

/-! Threads that open and close streams through the enforcing backend, with the libc call and
each locked table operation a step of its own. -/
namespace Padll
open Interleaving
variable {opts : Options} {Tid : Type} [DecidableEq Tid]

/-- Where a thread stands in `fopen`, `fopen64` or `fclose`. -/
inductive StreamPc where
  | idle
  | opening (pathname : Path) (mountPoint : MountPoint)
  | registering (fptr : FilePtr) (pathname : Path) (mountPoint : MountPoint)
  | selecting (stream : FilePtr)
  | closing (stream : FilePtr)
  | erasing (stream : FilePtr)
  deriving DecidableEq

/-- The two functions that open a stream; their bodies act alike on the table. -/
inductive StreamOpener where
  | fopen | fopen64
  deriving DecidableEq

/-- The call of the enforcing backend behind an opening. -/
def StreamOpener.call (pathname mode : Path) (fptr : FilePtr) : StreamOpener → PosixCall
  | .fopen => .fopen pathname mode fptr
  | .fopen64 => .fopen64 pathname mode fptr

/-- The steps of a thread, in the order the method bodies take them. -/
inductive StreamAction where
  | callFopen (opener : StreamOpener) (pathname : Path)
  | libcFopen (fptr : FilePtr)
  | createEntry
  | callFclose (stream : FilePtr)
  | pickWorkflow
  | libcFclose
  | removeEntry
  deriving DecidableEq

/-- The table, the threads, and the open streams with who opened them on which path. -/
structure StreamSystem (opts : Options) (Tid : Type) where
  table : MountPointTable opts
  pc : Tid → StreamPc
  opened : FilePtr → Option (Tid × Path)

/-- A stream has an entry with the mount point of a path. -/
def MountPointTable.Registers (table : MountPointTable opts) (fptr : FilePtr) (pathname : Path) :
    Prop :=
  ∃ e, table.getMountPointEntryPtr fptr = some e ∧ e.mountPoint = extractMountPoint opts pathname

namespace StreamSystem

/-- No call in progress and no stream open. -/
def start (table : MountPointTable opts) : StreamSystem opts Tid where
  table := table
  pc := fun _ => .idle
  opened := fun _ => none

/-- One step of a thread. libc answers an opening with null or with a stream that is not open;
a thread closes the streams it opened. -/
def next (s : StreamSystem opts Tid) : Tid × StreamAction → Option (StreamSystem opts Tid)
  | (t, .callFopen _ pathname) =>
    match s.pc t with
    | .idle =>
      let picked := s.table.pickWorkflowIdPath pathname
      some { s with
        table := picked.2
        pc := Function.update s.pc t (.opening pathname picked.1.1) }
    | _ => none
  | (t, .libcFopen fptr) =>
    match s.pc t with
    | .opening pathname mountPoint =>
      if fptr = .nullptr then
        some { s with pc := Function.update s.pc t (.registering .nullptr pathname mountPoint) }
      else if isFilePointerValid fptr ∧ s.opened fptr = none then
        some { s with
          pc := Function.update s.pc t (.registering fptr pathname mountPoint)
          opened := Function.update s.opened fptr (some (t, pathname)) }
      else none
    | _ => none
  | (t, .createEntry) =>
    match s.pc t with
    | .registering fptr pathname mountPoint =>
      some { s with
        table := (s.table.createMountPointEntryPtr fptr pathname mountPoint
          LdPreloadedPosix.getMetadataUnit).2
        pc := Function.update s.pc t .idle }
    | _ => none
  | (t, .callFclose stream) =>
    match s.pc t, s.opened stream with
    | .idle, some (owner, _) =>
      if owner = t then some { s with pc := Function.update s.pc t (.selecting stream) } else none
    | _, _ => none
  | (t, .pickWorkflow) =>
    match s.pc t with
    | .selecting stream =>
      some { s with
        table := (s.table.pickWorkflowIdPtr stream).2
        pc := Function.update s.pc t (.closing stream) }
    | _ => none
  | (t, .libcFclose) =>
    match s.pc t with
    | .closing stream =>
      some { s with
        pc := Function.update s.pc t (.erasing stream)
        opened := Function.update s.opened stream none }
    | _ => none
  | (t, .removeEntry) =>
    match s.pc t with
    | .erasing stream =>
      some { s with
        table := (s.table.removeMountPointEntryPtr stream).2
        pc := Function.update s.pc t .idle }
    | _ => none

/-- No call is in progress. -/
def Quiescent (s : StreamSystem opts Tid) : Prop := ∀ t, s.pc t = .idle

/-- Every open stream has an entry with the mount point of the path it was opened with. -/
def AllRegistered (s : StreamSystem opts Tid) : Prop :=
  ∀ fptr owner pathname, s.opened fptr = some (owner, pathname) →
    s.table.Registers fptr pathname

/-- What a step found and what it left, one case for each action and answer of libc. -/
inductive Step (s : StreamSystem opts Tid) :
    Tid × StreamAction → StreamSystem opts Tid → Prop where
  | callFopen {t : Tid} {opener : StreamOpener} {pathname : Path} (at_pc : s.pc t = .idle) :
    Step s (t, .callFopen opener pathname)
      { s with
        table := (s.table.pickWorkflowIdPath pathname).2
        pc := Function.update s.pc t
          (.opening pathname (MountPointTable.extractMountPoint opts pathname)) }
  | libcFopenNull {t : Tid} {pathname : Path} {mountPoint : MountPoint}
    (at_pc : s.pc t = .opening pathname mountPoint) :
    Step s (t, .libcFopen .nullptr)
      { s with pc := Function.update s.pc t (.registering .nullptr pathname mountPoint) }
  | libcFopen {t : Tid} {fptr : FilePtr} {pathname : Path} {mountPoint : MountPoint}
    (at_pc : s.pc t = .opening pathname mountPoint) (valid : isFilePointerValid fptr)
    (free : s.opened fptr = none) :
    Step s (t, .libcFopen fptr)
      { s with
        pc := Function.update s.pc t (.registering fptr pathname mountPoint)
        opened := Function.update s.opened fptr (some (t, pathname)) }
  | createEntry {t : Tid} {fptr : FilePtr} {pathname : Path} {mountPoint : MountPoint}
    (at_pc : s.pc t = .registering fptr pathname mountPoint) :
    Step s (t, .createEntry)
      { s with
        table := (s.table.createMountPointEntryPtr fptr pathname mountPoint
          LdPreloadedPosix.getMetadataUnit).2
        pc := Function.update s.pc t .idle }
  | callFclose {t : Tid} {stream : FilePtr} {pathname : Path} (at_pc : s.pc t = .idle)
    (owned : s.opened stream = some (t, pathname)) :
    Step s (t, .callFclose stream) { s with pc := Function.update s.pc t (.selecting stream) }
  | pickWorkflow {t : Tid} {stream : FilePtr} (at_pc : s.pc t = .selecting stream) :
    Step s (t, .pickWorkflow)
      { s with
        table := (s.table.pickWorkflowIdPtr stream).2
        pc := Function.update s.pc t (.closing stream) }
  | libcFclose {t : Tid} {stream : FilePtr} (at_pc : s.pc t = .closing stream) :
    Step s (t, .libcFclose)
      { s with
        pc := Function.update s.pc t (.erasing stream)
        opened := Function.update s.opened stream none }
  | removeEntry {t : Tid} {stream : FilePtr} (at_pc : s.pc t = .erasing stream) :
    Step s (t, .removeEntry)
      { s with
        table := (s.table.removeMountPointEntryPtr stream).2
        pc := Function.update s.pc t .idle }

theorem step_of_next {s s' : StreamSystem opts Tid} {a : Tid × StreamAction}
    (h : s.next a = some s') : Step s a s' := by
  obtain ⟨t, action⟩ := a
  cases action with
  | callFopen opener pathname =>
    cases hpc : s.pc t with
    | idle =>
      simp only [next, hpc, Option.some.injEq] at h
      exact h ▸ .callFopen hpc
    | _ => simp [next, hpc] at h
  | libcFopen fptr =>
    cases hpc : s.pc t with
    | opening pathname mountPoint =>
      simp only [next, hpc] at h
      split at h
      · next hnull =>
        subst hnull
        exact Option.some.inj h ▸ .libcFopenNull hpc
      · split at h
        · next hfree => exact Option.some.inj h ▸ .libcFopen hpc hfree.1 hfree.2
        · cases h
    | _ => simp [next, hpc] at h
  | createEntry =>
    cases hpc : s.pc t with
    | registering fptr pathname mountPoint =>
      simp only [next, hpc, Option.some.injEq] at h
      exact h ▸ .createEntry hpc
    | _ => simp [next, hpc] at h
  | callFclose stream =>
    cases hpc : s.pc t with
    | idle =>
      cases ho : s.opened stream with
      | none => simp [next, hpc, ho] at h
      | some opening =>
        obtain ⟨owner, pathname⟩ := opening
        simp only [next, hpc, ho] at h
        split at h
        · next howner =>
          subst howner
          exact Option.some.inj h ▸ .callFclose hpc ho
        · cases h
    | _ => simp [next, hpc] at h
  | pickWorkflow =>
    cases hpc : s.pc t with
    | selecting stream =>
      simp only [next, hpc, Option.some.injEq] at h
      exact h ▸ .pickWorkflow hpc
    | _ => simp [next, hpc] at h
  | libcFclose =>
    cases hpc : s.pc t with
    | closing stream =>
      simp only [next, hpc, Option.some.injEq] at h
      exact h ▸ .libcFclose hpc
    | _ => simp [next, hpc] at h
  | removeEntry =>
    cases hpc : s.pc t with
    | erasing stream =>
      simp only [next, hpc, Option.some.injEq] at h
      exact h ▸ .removeEntry hpc
    | _ => simp [next, hpc] at h

end StreamSystem

/-- A thread is in the middle of a call on a stream that is still open. -/
def StreamPc.busy : StreamPc → FilePtr → Prop
  | registering fptr _ _, p => fptr = p
  | selecting stream, p | closing stream, p => stream = p
  | _, _ => False

namespace StreamSystem

/-- What a thread may rely on where it stands. -/
def Holds (opts : Options) (opened : FilePtr → Option (Tid × Path)) (t : Tid) : StreamPc → Prop
  | .idle | .erasing _ => True
  | .opening pathname mountPoint => mountPoint = MountPointTable.extractMountPoint opts pathname
  | .registering fptr pathname mountPoint =>
    mountPoint = MountPointTable.extractMountPoint opts pathname ∧
      (fptr = .nullptr ∨ opened fptr = some (t, pathname))
  | .selecting stream | .closing stream => ∃ pathname, opened stream = some (t, pathname)

/-- Each thread has what it relies on, and each open stream is registered unless the thread
that opened it is in the middle of a call on it. -/
structure Consistent (s : StreamSystem opts Tid) : Prop where
  holds : ∀ t, Holds opts s.opened t (s.pc t)
  valid : ∀ fptr owner pathname, s.opened fptr = some (owner, pathname) → isFilePointerValid fptr
  registered : ∀ fptr owner pathname, s.opened fptr = some (owner, pathname) →
    (s.pc owner).busy fptr ∨ s.table.Registers fptr pathname

/-- The erase that ends an `fclose` finds its stream closed, or open again in the middle of
a call of the thread that opened it. -/
def EraseSafe (s : StreamSystem opts Tid) (a : Tid × StreamAction) : Prop :=
  a.2 = .removeEntry → ∀ stream, s.pc a.1 = .erasing stream →
    ∀ owner pathname, s.opened stream = some (owner, pathname) → (s.pc owner).busy stream

omit [DecidableEq Tid] in
theorem start_consistent (table : MountPointTable opts) :
    (start table : StreamSystem opts Tid).Consistent :=
  ⟨fun _ => trivial, nofun, nofun⟩

omit [DecidableEq Tid] in
private theorem Holds.mono {opened opened' : FilePtr → Option (Tid × Path)} {t : Tid}
    {pc : StreamPc} (h : Holds opts opened t pc)
    (hopened : ∀ fptr pathname, opened fptr = some (t, pathname) →
      opened' fptr = some (t, pathname)) : Holds opts opened' t pc := by
  cases pc with
  | registering fptr pathname mountPoint => exact ⟨h.1, h.2.imp_right (hopened fptr pathname)⟩
  | selecting stream =>
    obtain ⟨pathname, h⟩ := h
    exact ⟨pathname, hopened stream pathname h⟩
  | closing stream =>
    obtain ⟨pathname, h⟩ := h
    exact ⟨pathname, hopened stream pathname h⟩
  | _ => exact h

/-- A step of one thread keeps the system consistent if the others keep their streams and
their registrations, and it accounts for its own. -/
private theorem Consistent.of_thread {s : StreamSystem opts Tid} (h : s.Consistent) (t : Tid)
    {table : MountPointTable opts} {pc : StreamPc} {opened : FilePtr → Option (Tid × Path)}
    (hopened : ∀ u, u ≠ t → ∀ fptr pathname,
      opened fptr = some (u, pathname) ↔ s.opened fptr = some (u, pathname))
    (hothers : ∀ u, u ≠ t → ∀ fptr pathname, s.opened fptr = some (u, pathname) →
      s.table.Registers fptr pathname → (s.pc u).busy fptr ∨ table.Registers fptr pathname)
    (hholds : Holds opts opened t pc)
    (hown : ∀ fptr pathname, opened fptr = some (t, pathname) →
      isFilePointerValid fptr ∧ (pc.busy fptr ∨ table.Registers fptr pathname)) :
    Consistent ⟨table, Function.update s.pc t pc, opened⟩ where
  holds u := by
    change Holds opts opened u (Function.update s.pc t pc u)
    by_cases hu : u = t
    · subst hu
      rw [Function.update_self]
      exact hholds
    · rw [Function.update_of_ne hu]
      exact (h.holds u).mono fun fptr pathname => (hopened u hu fptr pathname).mpr
  valid fptr u pathname hfptr := by
    by_cases hu : u = t
    · subst hu
      exact (hown fptr pathname hfptr).1
    · exact h.valid fptr u pathname ((hopened u hu fptr pathname).mp hfptr)
  registered fptr u pathname hfptr := by
    change (Function.update s.pc t pc u).busy fptr ∨ table.Registers fptr pathname
    by_cases hu : u = t
    · subst hu
      rw [Function.update_self]
      exact (hown fptr pathname hfptr).2
    · have hfptr := (hopened u hu fptr pathname).mp hfptr
      rw [Function.update_of_ne hu]
      exact (h.registered fptr u pathname hfptr).elim .inl (hothers u hu fptr pathname hfptr)

private theorem Registers.of_entry {table table' : MountPointTable opts} {fptr : FilePtr}
    {pathname : Path} (h : table.Registers fptr pathname)
    (hentry : table'.getMountPointEntryPtr fptr = table.getMountPointEntryPtr fptr) :
    table'.Registers fptr pathname := by
  obtain ⟨e, he, hm⟩ := h
  exact ⟨e, hentry.trans he, hm⟩

omit [DecidableEq Tid] in
/-- Away from the stream a thread is busy with, what it opened is registered. -/
private theorem Consistent.own {s : StreamSystem opts Tid} (h : s.Consistent) {t : Tid}
    {fptr : FilePtr} {pathname : Path} (hfptr : s.opened fptr = some (t, pathname))
    (hbusy : ¬ (s.pc t).busy fptr) :
    isFilePointerValid fptr ∧ s.table.Registers fptr pathname :=
  ⟨h.valid fptr t pathname hfptr, (h.registered fptr t pathname hfptr).resolve_left hbusy⟩

/-- A step that changes neither what is open nor an entry keeps the system consistent. -/
private theorem Consistent.of_moved {s : StreamSystem opts Tid} (h : s.Consistent) (t : Tid)
    {table : MountPointTable opts} {pc : StreamPc}
    (hentry : ∀ fptr, table.getMountPointEntryPtr fptr = s.table.getMountPointEntryPtr fptr)
    (hholds : Holds opts s.opened t pc) (hbusy : ∀ fptr, (s.pc t).busy fptr → pc.busy fptr) :
    Consistent ⟨table, Function.update s.pc t pc, s.opened⟩ := by
  apply h.of_thread t (fun _ _ _ _ => Iff.rfl)
  · intro u _ fptr pathname _ hreg
    exact .inr (Registers.of_entry hreg (hentry fptr))
  · exact hholds
  · intro fptr pathname hfptr
    refine ⟨h.valid fptr t pathname hfptr, ?_⟩
    rcases h.registered fptr t pathname hfptr with hown | hreg
    · exact .inl (hbusy fptr hown)
    · exact .inr (Registers.of_entry hreg (hentry fptr))

/-- libc opens a stream that was not open: only the thread that called holds it. -/
private theorem Consistent.libcFopen {s : StreamSystem opts Tid} (h : s.Consistent) {t : Tid}
    {fptr : FilePtr} {pathname : Path} {mountPoint : MountPoint}
    (at_pc : s.pc t = .opening pathname mountPoint) (valid : isFilePointerValid fptr)
    (free : s.opened fptr = none) :
    Consistent { s with
      pc := Function.update s.pc t (.registering fptr pathname mountPoint)
      opened := Function.update s.opened fptr (some (t, pathname)) } := by
  have hholds := h.holds t
  rw [at_pc] at hholds
  apply h.of_thread t
  · intro u hu q pathname
    rcases eq_or_ne q fptr with rfl | hf
    · simp [free, Ne.symm hu]
    · rw [Function.update_of_ne hf]
  · exact fun _ _ _ _ _ hreg => .inr hreg
  · exact ⟨hholds, .inr (Function.update_self _ _ _)⟩
  · intro q pathname hq
    rcases eq_or_ne q fptr with rfl | hf
    · exact ⟨valid, .inl rfl⟩
    · rw [Function.update_of_ne hf] at hq
      obtain ⟨hvalid, hreg⟩ := h.own hq (by rw [at_pc]; exact id)
      exact ⟨hvalid, .inr hreg⟩

/-- A thread enters the stream it was handed: no other thread has that stream, and null is
never open. -/
private theorem Consistent.createEntry {s : StreamSystem opts Tid} (h : s.Consistent) {t : Tid}
    {fptr : FilePtr} {pathname : Path} {mountPoint : MountPoint}
    (at_pc : s.pc t = .registering fptr pathname mountPoint) :
    Consistent { s with
      table := (s.table.createMountPointEntryPtr fptr pathname mountPoint
        LdPreloadedPosix.getMetadataUnit).2
      pc := Function.update s.pc t .idle } := by
  have hholds := h.holds t
  rw [at_pc] at hholds
  obtain ⟨hpoint, hhanded⟩ := hholds
  have hentry := s.table.getMountPointEntryPtr_create fptr
  have howner : ∀ u path, s.opened fptr = some (u, path) → (t, pathname) = (u, path) := by
    intro u path hopen
    rcases hhanded with rfl | hhanded
    · exact absurd (h.valid _ u path hopen) (by decide)
    · exact Option.some.inj (hhanded.symm.trans hopen)
  apply h.of_thread t (fun _ _ _ _ => Iff.rfl)
  · intro u hu q path hq hreg
    have hne : q ≠ fptr := by
      rintro rfl
      exact hu (congrArg Prod.fst (howner u path hq)).symm
    exact .inr (Registers.of_entry hreg ((hentry q _ _ _).trans (if_neg fun e => hne e.1)))
  · trivial
  · intro q path hq
    rcases eq_or_ne q fptr with rfl | hf
    · obtain rfl : pathname = path := congrArg Prod.snd (howner t path hq)
      have hvalid := h.valid q t pathname hq
      exact ⟨hvalid, .inr ⟨_, (hentry q _ _ _).trans (if_pos ⟨rfl, hvalid⟩), hpoint⟩⟩
    · obtain ⟨hvalid, hreg⟩ := h.own hq (by rw [at_pc]; exact Ne.symm hf)
      exact ⟨hvalid, .inr (Registers.of_entry hreg
        ((hentry q _ _ _).trans (if_neg fun e => hf e.1)))⟩

private theorem Consistent.libcFclose {s : StreamSystem opts Tid} (h : s.Consistent) {t : Tid}
    {stream : FilePtr} (at_pc : s.pc t = .closing stream) :
    Consistent { s with
      pc := Function.update s.pc t (.erasing stream)
      opened := Function.update s.opened stream none } := by
  have hholds := h.holds t
  rw [at_pc] at hholds
  obtain ⟨path, hopen⟩ := hholds
  apply h.of_thread t
  · intro u hu q pathname
    rcases eq_or_ne q stream with rfl | hf
    · simp [hopen, Ne.symm hu]
    · rw [Function.update_of_ne hf]
  · exact fun _ _ _ _ _ hreg => .inr hreg
  · trivial
  · intro q pathname hq
    rcases eq_or_ne q stream with rfl | hf
    · rw [Function.update_self] at hq
      cases hq
    · rw [Function.update_of_ne hf] at hq
      obtain ⟨hvalid, hreg⟩ := h.own hq (by rw [at_pc]; exact Ne.symm hf)
      exact ⟨hvalid, .inr hreg⟩

/-- A safe erase takes the entry of no open stream whose owner relies on it. -/
private theorem Consistent.removeEntry {s : StreamSystem opts Tid} (h : s.Consistent) {t : Tid}
    {stream : FilePtr} (at_pc : s.pc t = .erasing stream) (hsafe : s.EraseSafe (t, .removeEntry)) :
    Consistent { s with
      table := (s.table.removeMountPointEntryPtr stream).2
      pc := Function.update s.pc t .idle } := by
  have hentry := s.table.getMountPointEntryPtr_remove stream
  have hopen := hsafe rfl stream at_pc
  apply h.of_thread t (fun _ _ _ _ => Iff.rfl)
  · intro u hu q path hq hreg
    rcases eq_or_ne q stream with rfl | hf
    · exact .inl (hopen u path hq)
    · exact .inr (Registers.of_entry hreg ((hentry q).trans (if_neg hf)))
  · trivial
  · intro q path hq
    obtain ⟨hvalid, hreg⟩ := h.own hq (by rw [at_pc]; exact id)
    have hf : q ≠ stream := by
      rintro rfl
      have hbusy := hopen t path hq
      rw [at_pc] at hbusy
      exact hbusy
    exact ⟨hvalid, .inr (Registers.of_entry hreg ((hentry q).trans (if_neg hf)))⟩

/-- Every step but an unsafe erase keeps the system consistent. -/
theorem Step.consistent {s s' : StreamSystem opts Tid} {a : Tid × StreamAction} (hs : Step s a s')
    (h : s.Consistent) (hsafe : s.EraseSafe a) : s'.Consistent := by
  cases hs with
  | @callFopen t _ pathname at_pc =>
    have hentry := (s.table.pickWorkflowIdPath_same pathname).getMountPointEntryPtr
    exact h.of_moved t hentry rfl (by rw [at_pc]; exact nofun)
  | @libcFopenNull t pathname mountPoint at_pc =>
    have hholds := h.holds t
    rw [at_pc] at hholds
    exact h.of_moved t (fun _ => rfl) ⟨hholds, .inl rfl⟩ (by rw [at_pc]; exact nofun)
  | libcFopen at_pc valid free => exact h.libcFopen at_pc valid free
  | createEntry at_pc => exact h.createEntry at_pc
  | @callFclose t stream pathname at_pc owned =>
    exact h.of_moved t (fun _ => rfl) ⟨pathname, owned⟩ (by rw [at_pc]; exact nofun)
  | @pickWorkflow t stream at_pc =>
    have hholds := h.holds t
    rw [at_pc] at hholds
    have hentry := (s.table.pickWorkflowIdEntry_same
      (s.table.getMountPointEntryPtr stream)).getMountPointEntryPtr
    exact h.of_moved t hentry hholds (by rw [at_pc]; exact fun _ => id)
  | libcFclose at_pc => exact h.libcFclose at_pc
  | removeEntry at_pc => exact h.removeEntry at_pc hsafe

/-- Two threads that interleave on one address: the first closes its stream, the second is
handed the address and registers it, then the first erases the entry of the second. -/
theorem recycled_stream_unregistered :
    ¬ ∀ s : StreamSystem (Options.shipped .single) Bool,
      Reaches next (fun _ _ => True) (start freshSingle.mountPointTable) s →
        s.Quiescent → s.AllRegistered := by
  intro h
  have htrace : (exec next (start freshSingle.mountPointTable)
      [(false, .callFopen .fopen "/tmp/a".toList), (false, .libcFopen (.stream 1)),
        (false, .createEntry), (false, .callFclose (.stream 1)), (false, .pickWorkflow),
        (false, .libcFclose), (true, .callFopen .fopen "/tmp/b".toList),
        (true, .libcFopen (.stream 1)), (true, .createEntry), (false, .removeEntry)]).any
      (fun s : StreamSystem (Options.shipped .single) Bool =>
        decide ((∀ t, s.pc t = .idle) ∧ s.opened (.stream 1) = some (true, "/tmp/b".toList) ∧
          s.table.getMountPointEntryPtr (.stream 1) = none)) = true := by
    decide
  obtain ⟨s, hs, hlast⟩ := (Option.any_eq_true _ _).mp htrace
  obtain ⟨hquiescent, hopen, hnone⟩ := of_decide_eq_true hlast
  obtain ⟨e, he, -⟩ := h s (Reaches.of_exec (fun _ _ _ => trivial) hs) hquiescent _ _ _ hopen
  rw [hnone] at he
  cases he

/-- In every interleaving whose erases are all safe, every open stream is registered whenever
no call is in progress. -/
theorem reaches_allRegistered (table : MountPointTable opts) {s : StreamSystem opts Tid}
    (hrun : Reaches next EraseSafe (start table) s) (hquiescent : s.Quiescent) :
    s.AllRegistered := by
  have hconsistent := hrun.invariant
    (fun _ _ _ h hsafe taken => (step_of_next taken).consistent h hsafe) (start_consistent table)
  intro fptr owner pathname hfptr
  refine (hconsistent.own hfptr ?_).2
  rw [hquiescent owner]
  exact id

/-- The second thread is handed the address that the first has closed, and the first erases its
entry before the second inserts its own. -/
theorem reaches_allRegistered_recycled :
    ∃ s : StreamSystem (Options.shipped .single) Bool,
      s.opened (.stream 1) = some (true, "/tmp/b".toList) ∧ s.AllRegistered := by
  have htrace : (exec next (start freshSingle.mountPointTable)
      [(false, .callFopen .fopen "/tmp/a".toList), (false, .libcFopen (.stream 1)),
        (false, .createEntry), (false, .callFclose (.stream 1)), (false, .pickWorkflow),
        (false, .libcFclose), (true, .callFopen .fopen64 "/tmp/b".toList),
        (true, .libcFopen (.stream 1))]).any
      (fun m : StreamSystem (Options.shipped .single) Bool =>
        decide (m.pc false = .erasing (.stream 1) ∧
          m.pc true = .registering (.stream 1) "/tmp/b".toList .kRemote ∧
          m.opened (.stream 1) = some (true, "/tmp/b".toList)) &&
        (exec next m [(false, .removeEntry), (true, .createEntry)]).any fun s =>
          decide ((∀ t, s.pc t = .idle) ∧
            s.opened (.stream 1) = some (true, "/tmp/b".toList))) = true := by
    decide
  obtain ⟨m, hm, hrest⟩ := (Option.any_eq_true _ _).mp htrace
  obtain ⟨hmiddle, hlast⟩ := (Bool.and_eq_true _ _).mp hrest
  obtain ⟨herasing, hregistering, hrecycled⟩ := of_decide_eq_true hmiddle
  obtain ⟨s, hs, hidle⟩ := (Option.any_eq_true _ _).mp hlast
  obtain ⟨hquiescent, hopen⟩ := of_decide_eq_true hidle
  have hreached : Reaches next EraseSafe (start freshSingle.mountPointTable) m := by
    refine Reaches.of_exec (fun a ha m herase => ?_) hm
    simp only [List.mem_cons, List.not_mem_nil, or_false] at ha
    rcases ha with rfl | rfl | rfl | rfl | rfl | rfl | rfl | rfl <;> cases herase
  -- the erased stream is open again, in the middle of the call that opened it
  have hsafe : m.EraseSafe (false, .removeEntry) := by
    intro _ stream hstream owner pathname howner
    obtain rfl := StreamPc.erasing.inj (herasing.symm.trans hstream)
    obtain ⟨rfl, rfl⟩ := Prod.mk.inj (Option.some.inj (hrecycled.symm.trans howner))
    rw [hregistering]
    rfl
  have hfinish : Along next EraseSafe m [(false, .removeEntry), (true, .createEntry)] :=
    ⟨hsafe, fun _ _ => ⟨nofun, fun _ _ => trivial⟩⟩
  exact ⟨s, hopen, reaches_allRegistered _ (hreached.trans (.of_along hfinish hs)) hquiescent⟩

/-- An unsafe erase takes the entry of a stream that is open and at rest. -/
theorem unsafe_erase {s : StreamSystem opts Tid} {t owner : Tid} {stream : FilePtr}
    {pathname : Path} (hpc : s.pc t = .erasing stream)
    (hopen : s.opened stream = some (owner, pathname)) (hrest : ¬ (s.pc owner).busy stream) :
    ∃ s', s.next (t, .removeEntry) = some s' ∧ s'.opened stream = some (owner, pathname) ∧
      ¬ (s'.pc owner).busy stream ∧ ¬ s'.table.Registers stream pathname := by
  refine ⟨⟨(s.table.removeMountPointEntryPtr stream).2, Function.update s.pc t .idle, s.opened⟩,
    by simp only [next, hpc], hopen, ?_, ?_⟩
  · change ¬ (Function.update s.pc t StreamPc.idle owner).busy stream
    by_cases ho : owner = t
    · subst ho
      rw [Function.update_self]
      exact id
    · rwa [Function.update_of_ne ho]
  · rintro ⟨e, he, -⟩
    rw [MountPointTable.getMountPointEntryPtr_remove, if_pos rfl] at he
    cases he

private theorem update_back {s : StreamSystem opts Tid} {t : Tid} (hpc : s.pc t = .idle)
    (pc : StreamPc) : Function.update (Function.update s.pc t pc) t .idle = s.pc := by
  rw [Function.update_idem, ← hpc, Function.update_eq_self]

/-- Undisturbed, the steps of an opening leave the table as the method does. -/
theorem exec_fopen {s : StreamSystem opts Tid} {t : Tid} (hpc : s.pc t = .idle)
    (opener : StreamOpener) (pathname mode : Path) {fptr : FilePtr}
    (hfptr : fptr = .nullptr ∨ isFilePointerValid fptr ∧ s.opened fptr = none)
    {o : LdPreloadedPosix opts} (ho : o.mountPointTable = s.table) :
    (exec next s [(t, .callFopen opener pathname), (t, .libcFopen fptr), (t, .createEntry)]).map
        (fun s' => (s'.table, s'.pc)) =
      some ((LdPreloadedPosix.after (opener.call pathname mode fptr) o).mountPointTable, s.pc) := by
  have hafter : (LdPreloadedPosix.after (opener.call pathname mode fptr) o).mountPointTable =
      ((s.table.pickWorkflowIdPath pathname).2.createMountPointEntryPtr fptr pathname
        (MountPointTable.extractMountPoint opts pathname) LdPreloadedPosix.getMetadataUnit).2 := by
    rw [← ho]
    cases opener <;> rfl
  rw [hafter, exec_cons, next, hpc]
  simp only [Option.bind_some, exec_cons, next, Function.update_self]
  rcases hfptr with hnull | hfree
  · simp only [hnull, if_true, Option.bind_some, Function.update_self, Function.update_idem, exec,
      Option.map_some, update_back hpc]
    rfl
  · have hnull : fptr ≠ .nullptr := by
      rintro rfl
      exact absurd hfree.1 (by decide)
    simp only [if_neg hnull, if_pos hfree, Option.bind_some, Function.update_self,
      Function.update_idem, exec, Option.map_some, update_back hpc]
    rfl

/-- Undisturbed, the steps of a closing leave the table as the method does. -/
theorem exec_fclose {s : StreamSystem opts Tid} {t : Tid} (hpc : s.pc t = .idle)
    {stream : FilePtr} {pathname : Path} (hopen : s.opened stream = some (t, pathname))
    (result : Int32) {o : LdPreloadedPosix opts} (ho : o.mountPointTable = s.table) :
    (exec next s [(t, .callFclose stream), (t, .pickWorkflow), (t, .libcFclose),
        (t, .removeEntry)]).map (fun s' => (s'.table, s'.pc)) =
      some ((LdPreloadedPosix.after (.fclose stream result) o).mountPointTable, s.pc) := by
  have hafter : (LdPreloadedPosix.after (.fclose stream result) o).mountPointTable =
      ((s.table.pickWorkflowIdPtr stream).2.removeMountPointEntryPtr stream).2 := by
    rw [← ho]
    rfl
  rw [hafter, exec_cons]
  simp only [next, hpc, hopen, if_true, Option.bind_some, Function.update_self,
    Function.update_idem, exec, Option.map_some, update_back hpc]

end StreamSystem

end Padll
