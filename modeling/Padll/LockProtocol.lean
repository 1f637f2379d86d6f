import Padll.EntryLifetime
import Padll.LdPreloadedRuns
import Padll.Library.RwLock

/-! The locks of the mount point table: which accesses of its two tables can overlap among any
number of threads, and what follows for the tables an access sees. -/
namespace Padll
open Interleaving RwLocks
variable {opts : Options} {Tid : Type}

inductive SharedLock where
  | fdSharedLock
  | fptrSharedLock
  deriving DecidableEq

inductive SharedTable where
  | fileDescriptorsTable
  | filePtrTable
  deriving DecidableEq

/-- The methods that lock, with their arguments. -/
inductive TableMethod where
  | mutate (mutation : Mutation)
  | getMountPointEntry (key : EntryKey)
  | fdTableToString
  | fpTableToString

namespace TableMethod

/-- Invalid keys are rejected before any lock. -/
def locks : TableMethod → Bool
  | mutate (.createMountPointEntry key _) | mutate (.removeMountPointEntry key)
  | getMountPointEntry key => key.isValid
  | mutate (.replaceFileDescriptor oldFd newFd) =>
    isFileDescriptorValid oldFd && isFileDescriptorValid newFd
  | fdTableToString | fpTableToString => true

def sharedLock : TableMethod → SharedLock
  | mutate (.createMountPointEntry (.fd _) _) => .fdSharedLock
  | mutate (.createMountPointEntry (.ptr _) _) => .fptrSharedLock
  | getMountPointEntry (.fd _) => .fdSharedLock
  | getMountPointEntry (.ptr _) => .fptrSharedLock
  | mutate (.removeMountPointEntry (.fd _)) => .fdSharedLock
  | mutate (.removeMountPointEntry (.ptr _)) => .fptrSharedLock
  | mutate (.replaceFileDescriptor _ _) => .fdSharedLock
  | fdTableToString => .fdSharedLock
  -- the lock of the other table
  | fpTableToString => .fdSharedLock

/-- `lock_guard` locks exclusively, `shared_lock` shares. -/
def lockMode : TableMethod → LockMode
  | mutate (.createMountPointEntry _ _) | mutate (.removeMountPointEntry _)
  | mutate (.replaceFileDescriptor _ _) => .exclusive
  | getMountPointEntry _ | fdTableToString | fpTableToString => .shared

/-- The table a method accesses. -/
def table : TableMethod → SharedTable
  | mutate (.createMountPointEntry (.fd _) _) | mutate (.removeMountPointEntry (.fd _))
  | mutate (.replaceFileDescriptor _ _) | getMountPointEntry (.fd _) | fdTableToString =>
    .fileDescriptorsTable
  | mutate (.createMountPointEntry (.ptr _) _) | mutate (.removeMountPointEntry (.ptr _))
  | getMountPointEntry (.ptr _) | fpTableToString => .filePtrTable

/-- Insertions, removals and re-keying write; lookups and iterations read. -/
def writes : TableMethod → Bool
  | mutate _ => true
  | getMountPointEntry _ | fdTableToString | fpTableToString => false

def access (t : MountPointTable opts) : TableMethod → MountPointTable opts
  | mutate mutation => mutation.onTable t
  | getMountPointEntry _ | fdTableToString | fpTableToString => t

end TableMethod

def lockedMethods (opts : Options) : LockedMethods TableMethod SharedLock (MountPointTable opts) where
  enters := TableMethod.locks
  lock := TableMethod.sharedLock
  mode := TableMethod.lockMode
  access method t := method.access t

/-- The threads that call the methods of one table, and the table. -/
abbrev TableLocking (Tid : Type) (opts : Options) :=
  LockSystem Tid TableMethod SharedLock (MountPointTable opts)

/-- The lock declared for a table. -/
def SharedTable.lock : SharedTable → SharedLock
  | fileDescriptorsTable => .fdSharedLock
  | filePtrTable => .fptrSharedLock

/-- The contents of a table stay the same. -/
def SharedTable.Unchanged (t t' : MountPointTable opts) : SharedTable → Prop
  | fileDescriptorsTable => t'.fileDescriptorsTable = t.fileDescriptorsTable
  | filePtrTable => t'.filePtrTable = t.filePtrTable

namespace TableMethod

theorem lockMode_of_writes {m : TableMethod} (h : m.writes) : m.lockMode = .exclusive := by
  cases m with
  | mutate mutation => cases mutation <;> rfl
  | _ => cases h

/-- Every method but one takes the lock of its table. -/
theorem sharedLock_eq {m : TableMethod} (h : m ≠ fpTableToString) :
    m.sharedLock = m.table.lock := by
  cases m with
  | mutate mutation =>
    cases mutation with
    | replaceFileDescriptor => rfl
    | createMountPointEntry key entry => cases key <;> rfl
    | removeMountPointEntry key => cases key <;> rfl
  | getMountPointEntry key => cases key <;> rfl
  | fdTableToString => rfl
  | fpTableToString => exact absurd rfl h

/-- An access leaves alone every table that it does not write. -/
theorem access_unchanged (m : TableMethod) (t : MountPointTable opts) {table : SharedTable}
    (h : m.writes → m.table ≠ table) : table.Unchanged t (m.access t) := by
  cases m with
  | mutate mutation =>
    have hne := h rfl
    cases mutation with
    | createMountPointEntry key entry =>
      cases key <;> cases table <;> first | rfl | exact absurd rfl hne
    | removeMountPointEntry key =>
      cases key <;> cases table <;> first | rfl | exact absurd rfl hne
    | replaceFileDescriptor oldFd newFd =>
      cases table with
      | fileDescriptorsTable => exact absurd rfl hne
      | filePtrTable => exact t.replaceFileDescriptor_ptr oldFd newFd
  | _ => cases table <;> rfl

end TableMethod

namespace TableLocking

/-- No thread accesses a table that another is writing. -/
def WritesAlone (s : TableLocking Tid opts) : Prop :=
  ∀ t u m m', u ≠ t → s.phase t = .accessing m → s.phase u = .accessing m' → m.writes →
    m'.table ≠ m.table

/-- An iteration over the file pointers, and a change of them. -/
def TraversesWritten (m m' : TableMethod) : Prop :=
  m = .fpTableToString ∧ m'.writes ∧ m'.table = .filePtrTable

/-- `fp_table_to_string` and the writers of file pointers do not start on each other. -/
def StartsApart (s : TableLocking Tid opts) (a : Tid × LockAction TableMethod) : Prop :=
  a.2 = .acquire → ∀ m, s.phase a.1 = .calling m → ∀ u m', s.phase u = .accessing m' →
    ¬ TraversesWritten m m' ∧ ¬ TraversesWritten m' m

variable [DecidableEq Tid]

def next (s : TableLocking Tid opts) (a : Tid × LockAction TableMethod) :
    Option (TableLocking Tid opts) :=
  LockSystem.next (lockedMethods opts) s a

/-- A file pointer is registered while another thread prints the table of file pointers. -/
theorem file_pointer_created_during_traversal :
    ¬ ∀ (opts : Options) (table : MountPointTable opts) (s : TableLocking Bool opts),
      Reaches next (fun _ _ => True) (LockSystem.start table) s → s.WritesAlone := by
  intro h
  have hcalled : Reaches next (fun _ _ => True)
      (LockSystem.start { prng := fun _ => 0 } : TableLocking Bool (.shipped .single)) _ :=
    .step (a := (true, .call .fpTableToString)) .refl trivial rfl
  have htraversing := Reaches.step (a := (true, .acquire)) hcalled trivial rfl
  have hcreating := Reaches.step (a := (false,
    .call (.mutate (.createMountPointEntry (.ptr (.stream 8)) ⟨"/tmp/a".toList, .kRemote, 0⟩))))
    htraversing trivial rfl
  have hboth := Reaches.step (a := (false, .acquire)) hcreating trivial rfl
  exact h _ _ _ hboth false true _ _ nofun rfl rfl rfl rfl

omit [DecidableEq Tid] in
theorem start_writesAlone (table : MountPointTable opts) :
    WritesAlone (LockSystem.start table : TableLocking Tid opts) := by
  intro t u m m' _ haccessing
  cases haccessing

section Steps
variable {s s' : TableLocking Tid opts} {t : Tid} {action : LockAction TableMethod}

theorem writesAlone_of_startsApart (hlocks : s'.LocksMatch (lockedMethods opts))
    (halone : s.WritesAlone) (hstep : LockSystem.Step (lockedMethods opts) s t action s')
    (hapart : s.StartsApart (t, action)) : s'.WritesAlone := by
  intro v u m m' hne hm hm' hwrites htable
  by_cases hprints : m' = .fpTableToString
  · have hcross : TraversesWritten m' m := by
      refine ⟨hprints, hwrites, htable.symm.trans ?_⟩
      rw [hprints]
      rfl
    obtain hv | ⟨rfl, rfl, hv⟩ := hstep.accessing_before hm
    · obtain hu | ⟨rfl, rfl, hu⟩ := hstep.accessing_before hm'
      · exact halone v u m m' hne hv hu hwrites htable
      · exact (hapart rfl m' hu v m hv).1 hcross
    · obtain hu | ⟨rfl, -, -⟩ := hstep.accessing_before hm'
      · exact (hapart rfl m hv u m' hu).2 hcross
      · exact hne rfl
  · -- both methods take the lock of the table
    have hwriter : m ≠ .fpTableToString := by
      rintro rfl
      cases hwrites
    have hlock : m'.sharedLock = m.sharedLock := by
      rw [TableMethod.sharedLock_eq hprints, TableMethod.sharedLock_eq hwriter, htable]
    have hheld : (s'.phase v).held = some m := by rw [hm, Phase.held_accessing]
    have hother : (s'.phase u).held = some m' := by rw [hm', Phase.held_accessing]
    exact hne (hlocks.excludes hheld (TableMethod.lockMode_of_writes hwrites) hother hlock)

theorem startsApart_of_writesAlone
    (hstep : LockSystem.Step (lockedMethods opts) s t action s') (halone : s'.WritesAlone) :
    s.StartsApart (t, action) := by
  rintro rfl m hcalling u m' haccessing
  obtain ⟨hstarted, hkept⟩ := hstep.accessing_after hcalling
  have hne : u ≠ t := by
    rintro rfl
    rw [hcalling] at haccessing
    cases haccessing
  have hother : s'.phase u = .accessing m' := (hkept u hne).trans haccessing
  constructor
  · rintro ⟨rfl, hwrites, htable⟩
    exact halone u t m' _ hne.symm hother hstarted hwrites htable.symm
  · rintro ⟨rfl, hwrites, htable⟩
    exact halone t u m _ hne hstarted hother hwrites htable.symm

/-- While no table is accessed and written at once, steps of other threads leave the table of
an access as it is. -/
theorem unchanged_of_writesAlone (halone : s.WritesAlone)
    (hstep : LockSystem.Step (lockedMethods opts) s t action s') {u : Tid} {m : TableMethod}
    (hne : u ≠ t) (haccessing : s.phase u = .accessing m) :
    m.table.Unchanged s.data s'.data := by
  cases hstep with
  | @access m' accessing =>
    exact m'.access_unchanged s.data fun hwrites htable =>
      halone t u m' m hne accessing haccessing hwrites htable.symm
  | _ => cases m.table <;> rfl

end Steps

/-- In every interleaving in which `fp_table_to_string` and the writers of file pointers never
start on each other, no table is accessed while it is written, and what an access sees stays as
it is; and the first such start breaks that. -/
theorem reaches_writesAlone (table : MountPointTable opts) {s : TableLocking Tid opts}
    (hrun : Reaches next StartsApart (LockSystem.start table) s) :
    s.WritesAlone ∧ ∀ a s', s.next a = some s' →
      (s.StartsApart a ↔ s'.WritesAlone) ∧
        ∀ t m, t ≠ a.1 → s.phase t = .accessing m → m.table.Unchanged s.data s'.data := by
  have halone := hrun.invariant (I := fun s => s.LocksMatch (lockedMethods opts) ∧ s.WritesAlone)
    (fun s a s' h hapart taken => by
      have hstep := LockSystem.step_of_next taken
      have hlocks := h.1.step hstep
      exact ⟨hlocks, writesAlone_of_startsApart hlocks h.2 hstep hapart⟩)
    ⟨LockSystem.start_locksMatch table, start_writesAlone table⟩
  refine ⟨halone.2, fun a s' taken => ?_⟩
  have hstep := LockSystem.step_of_next taken
  constructor
  · constructor
    · exact writesAlone_of_startsApart (halone.1.step hstep) halone.2 hstep
    · exact startsApart_of_writesAlone hstep
  · intro t m hne haccessing
    exact unchanged_of_writesAlone halone.2 hstep hne haccessing

/-- A file pointer is looked up while another thread prints the table of file pointers, into which
it was inserted before. -/
theorem reaches_writesAlone_apart :
    ∃ s : TableLocking Bool (.shipped .single), s.phase true = .accessing .fpTableToString ∧
      s.phase false = .accessing (.getMountPointEntry (.ptr (.stream 8))) ∧ s.WritesAlone := by
  have hcalled : Reaches next StartsApart
      (LockSystem.start { prng := fun _ => 0 } : TableLocking Bool (.shipped .single)) _ :=
    .step (a := (false,
      .call (.mutate (.createMountPointEntry (.ptr (.stream 8)) ⟨"/tmp/a".toList, .kRemote, 0⟩))))
      .refl nofun rfl
  have hcreating := Reaches.step (a := (false, .acquire)) hcalled
    (fun _ _ _ u _ haccessing => by cases u <;> cases haccessing) rfl
  have hcreated := Reaches.step (a := (false, .access)) hcreating nofun rfl
  have hreleased := Reaches.step (a := (false, .release)) hcreated nofun rfl
  have hprinting := Reaches.step (a := (true, .call .fpTableToString)) hreleased nofun rfl
  have htraversing := Reaches.step (a := (true, .acquire)) hprinting
    (fun _ _ _ u _ haccessing => by cases u <;> cases haccessing) rfl
  have hlooking := Reaches.step (a := (false, .call (.getMountPointEntry (.ptr (.stream 8)))))
    htraversing nofun rfl
  have hboth := Reaches.step (a := (false, .acquire)) hlooking
    (fun _ m hcalling u m' haccessing => by
      cases hcalling
      cases u with
      | false => cases haccessing
      | true =>
        cases haccessing
        constructor
        · rintro ⟨h, -⟩
          cases h
        · rintro ⟨-, h, -⟩
          cases h) rfl
  exact ⟨_, rfl, rfl, (reaches_writesAlone _ hboth).1⟩

theorem reaches_locksMatch {table : MountPointTable opts} {s : TableLocking Tid opts}
    {ok : TableLocking Tid opts → Tid × LockAction TableMethod → Prop}
    (hrun : Reaches next ok (LockSystem.start table) s) : s.LocksMatch (lockedMethods opts) :=
  hrun.invariant (fun _ _ _ h _ taken => h.step (LockSystem.step_of_next taken))
    (LockSystem.start_locksMatch table)

/-- The locks never block all threads: from every state of every interleaving, as long as some
thread is in a method some thread in a method can go on, and when no further method is called all
are over after exactly the steps that remain, three at most a thread; then all locks are free. -/
theorem reaches_drains [Fintype Tid] {table : MountPointTable opts} {s : TableLocking Tid opts}
    (hrun : Reaches next (fun _ _ => True) (LockSystem.start table) s)
    {actions : List (Tid × LockAction TableMethod)} {s' : TableLocking Tid opts}
    (hproceeds : ∀ a ∈ actions, LockSystem.Proceeds a) (hexec : exec next s actions = some s') :
    s'.remaining + actions.length = s.remaining ∧ s.remaining ≤ 3 * Fintype.card Tid ∧
      ((∃ t, s'.phase t ≠ .idle) → ∃ a, LockSystem.Proceeds a ∧ (s'.next a).isSome) ∧
      ((∀ t, s'.phase t = .idle) → ∀ k t mode, ¬ (s'.locks k).Holds t mode) := by
  have hall : ∀ a ∈ actions, ∀ m : TableLocking Tid opts, True := fun _ _ _ => trivial
  have hlocks := reaches_locksMatch (hrun.trans (Reaches.of_exec hall hexec))
  refine ⟨LockSystem.exec_remaining hproceeds hexec, s.remaining_le, hlocks.enabled, ?_⟩
  intro hidle k t mode hholds
  obtain ⟨m, hm, -⟩ := (hlocks k t mode).mp hholds
  rw [hidle t] at hm
  cases hm

/-- The table of descriptors is printed while a file pointer is to be registered. -/
theorem reaches_drains_printing :
    ∃ s s' : TableLocking Bool (.shipped .single), s'.remaining + 5 = s.remaining ∧
      ∀ k t mode, ¬ (s'.locks k).Holds t mode := by
  let first : TableLocking Bool (.shipped .single) := LockSystem.start { prng := fun _ => 0 }
  have hbegun : exec next first
      [(true, .call .fdTableToString), (false, .call (.mutate
        (.createMountPointEntry (.ptr (.stream 8)) ⟨"/tmp/a".toList, .kRemote, 0⟩))),
        (true, .acquire)] = some _ := rfl
  have hrun : Reaches next (fun _ _ => True) first _ :=
    Reaches.of_exec (fun _ _ _ => trivial) hbegun
  have hproceeds : ∀ a ∈ [(false, LockAction.acquire), (true, .access), (false, .access),
      (false, .release), (true, .release)], LockSystem.Proceeds (M := TableMethod) a := by
    simp [LockSystem.Proceeds]
  have hdrained := reaches_drains hrun hproceeds rfl
  refine ⟨_, _, hdrained.1, hdrained.2.2.2 fun t => ?_⟩
  cases t <;> rfl

end TableLocking

end Padll
