import Padll.Library.Interleaving
import Padll.Library.OwningMap
import Padll.MountPointTable

/-! Lifetime of the table's entries: threads that look an entry up under the lock and read it
through the pointer afterwards, among threads that create, remove and re-key entries. -/
namespace Padll
open Interleaving KeyedMap
variable {opts : Options} {Tid : Type}

/-- Keys of the two tables, side by side. -/
inductive EntryKey where
  | fd (fd : Int32)
  | ptr (filePtr : FilePtr)
  deriving DecidableEq

def EntryKey.isValid : EntryKey → Bool
  | fd key => isFileDescriptorValid key
  | ptr key => isFilePointerValid key

/-- Both tables with the entries they own. -/
abbrev EntryTable := OwningMap EntryKey MountPointEntry

namespace EntryTable

def createMountPointEntry (table : EntryTable) (key : EntryKey) (entry : MountPointEntry) :
    Bool × EntryTable :=
  if key.isValid then
    match table.emplace key entry with
    | (true, table') => (true, table')
    | (false, table') => (false, table'.assign key entry)
  else (false, table)

/-- The pointer outlives the lock. -/
def getMountPointEntry (table : EntryTable) (key : EntryKey) : Option Nat :=
  if key.isValid then table.keys.find key else none

def removeMountPointEntry (table : EntryTable) (key : EntryKey) : Bool × EntryTable :=
  if key.isValid then ((table.keys.find key).isSome, table.erase key) else (false, table)

def replaceFileDescriptor (table : EntryTable) (oldFd newFd : Int32) : Bool × EntryTable :=
  if !isFileDescriptorValid oldFd || !isFileDescriptorValid newFd then (false, table)
  else
    match table.keys.find (.fd oldFd) with
    | none => (false, table)
    | some _ => (true, table.move (.fd oldFd) (.fd newFd))

end EntryTable

/-- The locked sections that change a table. -/
inductive Mutation where
  | createMountPointEntry (key : EntryKey) (entry : MountPointEntry)
  | removeMountPointEntry (key : EntryKey)
  | replaceFileDescriptor (oldFd newFd : Int32)

namespace Mutation

def apply (table : EntryTable) : Mutation → EntryTable
  | createMountPointEntry key entry => (table.createMountPointEntry key entry).2
  | removeMountPointEntry key => (table.removeMountPointEntry key).2
  | replaceFileDescriptor oldFd newFd => (table.replaceFileDescriptor oldFd newFd).2

/-- The entry a mutation is about to destroy: the one of the key it removes or overwrites, or
the one it moves onto a registered descriptor. -/
def Dooms (table : EntryTable) (c : Nat) : Mutation → Prop
  | createMountPointEntry key _ | removeMountPointEntry key =>
    key.isValid ∧ table.keys.find key = some c
  | replaceFileDescriptor oldFd newFd =>
    (isFileDescriptorValid oldFd ∧ isFileDescriptorValid newFd) ∧
      table.keys.find (.fd oldFd) = some c ∧ newFd ≠ oldFd ∧ table.keys.find (.fd newFd) ≠ none

end Mutation

/-- The steps of a thread: the locked half of `pick_workflow_id`, its read through the pointer,
and the mutations. -/
inductive EntryAction where
  | getMountPointEntry (key : EntryKey)
  | read
  | mutate (mutation : Mutation)

/-- The tables and the entry each thread holds a pointer to. -/
structure EntrySystem (Tid : Type) where
  table : EntryTable
  holding : Tid → Option Nat

namespace EntrySystem

def start (table : EntryTable) : EntrySystem Tid := ⟨table, fun _ => none⟩

variable [DecidableEq Tid]

/-- One step of a thread. A thread that holds a pointer reads through it next: that step stands
for the whole selection, which goes on reading through the reference it is handed. -/
def next (s : EntrySystem Tid) : Tid × EntryAction → Option (EntrySystem Tid)
  | (t, .getMountPointEntry key) =>
    match s.holding t with
    | none =>
      some { s with holding := Function.update s.holding t (s.table.getMountPointEntry key) }
    | some _ => none
  | (t, .read) =>
    match s.holding t with
    | none => none
    | some _ => some { s with holding := Function.update s.holding t none }
  | (t, .mutate mutation) =>
    match s.holding t with
    | none => some { s with table := mutation.apply s.table }
    | some _ => none

/-- The pointers that threads hold lead to living entries. -/
def HeldAlive (s : EntrySystem Tid) : Prop :=
  ∀ t c, s.holding t = some c → (s.table.heap.cell c).isSome

/-- A step that reads an entry already destroyed. -/
def ReadsDestroyed (s : EntrySystem Tid) (a : Tid × EntryAction) : Prop :=
  a.2 = .read ∧ ∃ c, s.holding a.1 = some c ∧ s.table.heap.cell c = none

/-- A mutation dooms no entry that some thread holds a pointer to. -/
def MutationSafe (s : EntrySystem Tid) (a : Tid × EntryAction) : Prop :=
  ∀ mutation, a.2 = .mutate mutation → ∀ t c, s.holding t = some c → ¬ mutation.Dooms s.table c

end EntrySystem

section Cells

private theorem cell_create (table : EntryTable) (key : EntryKey) (entry : MountPointEntry)
    {c : Nat} (hc : c < table.heap.bound) :
    (table.createMountPointEntry key entry).2.heap.cell c =
      if key.isValid ∧ table.keys.find key = some c then none else table.heap.cell c := by
  unfold EntryTable.createMountPointEntry
  by_cases hv : key.isValid
  · rw [if_pos hv]
    cases hk : table.keys.find key with
    | none =>
      rw [OwningMap.emplace_absent hk, if_neg nofun]
      exact OwningMap.cell_insertFresh table key entry hk hc
    | some d =>
      rw [OwningMap.emplace_present hk, ← hk]
      -- the refused cell came first, so the bound has moved by one
      have hassign := OwningMap.cell_assign (table.discard entry) key entry
        (c := c) (Nat.lt_succ_of_lt hc)
      rw [OwningMap.cell_discard table entry hc] at hassign
      simp only [hv, true_and]
      exact hassign
  · rw [if_neg hv, if_neg fun e => hv e.1]

private theorem cell_remove (table : EntryTable) (key : EntryKey) (c : Nat) :
    (table.removeMountPointEntry key).2.heap.cell c =
      if key.isValid ∧ table.keys.find key = some c then none else table.heap.cell c := by
  unfold EntryTable.removeMountPointEntry
  by_cases hv : key.isValid
  · simp only [hv, if_true, true_and]
    exact table.cell_erase key c
  · rw [if_neg hv, if_neg fun e => hv e.1]

private theorem replace_eq (table : EntryTable) (oldFd newFd : Int32) :
    (table.replaceFileDescriptor oldFd newFd).2 =
      if isFileDescriptorValid oldFd ∧ isFileDescriptorValid newFd then
        table.move (.fd oldFd) (.fd newFd)
      else table := by
  unfold EntryTable.replaceFileDescriptor
  by_cases hv : isFileDescriptorValid oldFd ∧ isFileDescriptorValid newFd
  · rw [if_pos hv, if_neg (by simp [hv.1, hv.2])]
    cases h : table.keys.find (.fd oldFd) with
    | none => rw [OwningMap.move_absent _ h]
    | some c => rfl
  · rw [if_neg hv, if_pos]
    rw [Bool.or_eq_true, Bool.not_eq_true', Bool.not_eq_true', ← Bool.not_eq_true,
      ← Bool.not_eq_true]
    exact not_and_or.mp hv

/-- A mutation destroys, among the living entries, exactly the one it dooms. -/
theorem Mutation.cell_apply (mutation : Mutation) (table : EntryTable) {c : Nat}
    (hc : (table.heap.cell c).isSome) :
    ((mutation.apply table).heap.cell c).isSome ↔ ¬ mutation.Dooms table c := by
  cases mutation with
  | createMountPointEntry key entry =>
    change ((table.createMountPointEntry key entry).2.heap.cell c).isSome ↔ _
    rw [cell_create table key entry (Heap.lt_bound hc)]
    split
    · next hd => exact iff_of_false nofun (not_not_intro hd)
    · next hd => exact iff_of_true hc hd
  | removeMountPointEntry key =>
    change ((table.removeMountPointEntry key).2.heap.cell c).isSome ↔ _
    rw [cell_remove]
    split
    · next hd => exact iff_of_false nofun (not_not_intro hd)
    · next hd => exact iff_of_true hc hd
  | replaceFileDescriptor oldFd newFd =>
    change ((table.replaceFileDescriptor oldFd newFd).2.heap.cell c).isSome ↔ _
    rw [replace_eq]
    by_cases hv : isFileDescriptorValid oldFd ∧ isFileDescriptorValid newFd
    · rw [if_pos hv, OwningMap.cell_move]
      split
      · next hd =>
        exact iff_of_false nofun
          (not_not_intro ⟨hv, hd.1, fun e => hd.2.1 (congrArg EntryKey.fd e), hd.2.2⟩)
      · next hd =>
        exact iff_of_true hc fun e =>
          hd ⟨e.2.1, fun h => e.2.2.1 (EntryKey.fd.inj h), e.2.2.2⟩
    · rw [if_neg hv]
      exact iff_of_true hc fun e => hv e.1

end Cells

namespace EntrySystem
variable [DecidableEq Tid]

omit [DecidableEq Tid] in
/-- Nothing destroyed is ever read next exactly while all held entries live. -/
theorem heldAlive_iff {s : EntrySystem Tid} : s.HeldAlive ↔ ∀ a, ¬ s.ReadsDestroyed a := by
  constructor
  · rintro h ⟨t, action⟩ ⟨-, c, hheld, hdead⟩
    have halive := h t c hheld
    rw [hdead] at halive
    cases halive
  · intro h t c hheld
    by_contra hdead
    exact h (t, .read) ⟨rfl, c, hheld, Option.not_isSome_iff_eq_none.mp hdead⟩

/-- A looked-up entry lives. -/
private theorem isSome_of_getMountPointEntry {table : EntryTable} {key : EntryKey} {c : Nat}
    (h : table.getMountPointEntry key = some c) : (table.heap.cell c).isSome := by
  unfold EntryTable.getMountPointEntry at h
  split at h
  · exact table.alive key c h
  · cases h

/-- A thread may take up a living entry or none. -/
private theorem HeldAlive.hold {s : EntrySystem Tid} (h : s.HeldAlive) (t : Tid) {p : Option Nat}
    (hp : ∀ c, p = some c → (s.table.heap.cell c).isSome) :
    HeldAlive ⟨s.table, Function.update s.holding t p⟩ := by
  intro u c hu
  change Function.update s.holding t p u = some c at hu
  by_cases hut : u = t
  · subst hut
    rw [Function.update_self] at hu
    exact hp c hu
  · rw [Function.update_of_ne hut] at hu
    exact h u c hu

/-- A step keeps the held entries alive exactly if it is a safe mutation or none. -/
theorem next_heldAlive {s s' : EntrySystem Tid} {a : Tid × EntryAction} (h : s.HeldAlive)
    (taken : s.next a = some s') : s.MutationSafe a ↔ s'.HeldAlive := by
  obtain ⟨t, action⟩ := a
  cases action with
  | getMountPointEntry key =>
    cases hheld : s.holding t with
    | some c => simp [next, hheld] at taken
    | none =>
      simp only [next, hheld, Option.some.injEq] at taken
      subst taken
      exact iff_of_true nofun (h.hold t fun _ => isSome_of_getMountPointEntry)
  | read =>
    cases hheld : s.holding t with
    | none => simp [next, hheld] at taken
    | some c =>
      simp only [next, hheld, Option.some.injEq] at taken
      subst taken
      exact iff_of_true nofun (h.hold t nofun)
  | mutate mutation =>
    cases hheld : s.holding t with
    | some c => simp [next, hheld] at taken
    | none =>
      simp only [next, hheld, Option.some.injEq] at taken
      subst taken
      constructor
      · intro hsafe u c hu
        exact (mutation.cell_apply s.table (h u c hu)).mpr (hsafe mutation rfl u c hu)
      · intro halive mutation' heq u c hu
        obtain rfl := EntryAction.mutate.inj heq
        exact (mutation.cell_apply s.table (h u c hu)).mp (halive u c hu)

/-- A thread looks an entry up, another overwrites it, and the first reads what is gone. -/
theorem overwritten_entry_read :
    ¬ ∀ s : EntrySystem Bool, Reaches next (fun _ _ => True) (start .empty) s →
      ∀ a, (s.next a).isSome → ¬ s.ReadsDestroyed a := by
  intro h
  have htrace : (exec next (start .empty)
      [(true, .mutate (.createMountPointEntry (.fd 3) ⟨"/tmp/a".toList, .kRemote, 0⟩)),
        (false, .getMountPointEntry (.fd 3)),
        (true, .mutate (.createMountPointEntry (.fd 3) ⟨"/tmp/b".toList, .kRemote, 0⟩))]).any
      (fun s : EntrySystem Bool =>
        decide ((s.next (false, .read)).isSome ∧ s.holding false = some 0 ∧
          (s.table.heap.cell 0).isNone)) = true := by
    decide
  obtain ⟨s, hs, hlast⟩ := (Option.any_eq_true _ _).mp htrace
  obtain ⟨henabled, hheld, hdead⟩ := of_decide_eq_true hlast
  exact h s (Reaches.of_exec (fun _ _ _ => trivial) hs) _ henabled
    ⟨rfl, 0, hheld, Option.isNone_iff_eq_none.mp hdead⟩

/-- In every interleaving whose mutations are all safe no step reads a destroyed entry; and
the first mutation that is not safe lets a read of one follow. -/
theorem reaches_reads_alive (table : EntryTable) {s : EntrySystem Tid}
    (hrun : Reaches next MutationSafe (start table) s) :
    (∀ a, ¬ s.ReadsDestroyed a) ∧
      ∀ a s', s.next a = some s' → (s.MutationSafe a ↔ ∀ b, ¬ s'.ReadsDestroyed b) := by
  have halive := hrun.invariant (I := HeldAlive)
    (fun _ _ _ h hsafe taken => (next_heldAlive h taken).mp hsafe) nofun
  refine ⟨heldAlive_iff.mp halive, fun a s' taken => ?_⟩
  rw [← heldAlive_iff]
  exact next_heldAlive halive taken

/-- A thread registers a descriptor while another holds the entry of a different one. -/
theorem reaches_reads_alive_looked_up :
    ∃ s : EntrySystem Bool, s.holding false = some 0 ∧
      (s.table.keys.find (.fd 4)).isSome ∧ ∀ a, ¬ s.ReadsDestroyed a := by
  have hcreated : Reaches next MutationSafe (start .empty : EntrySystem Bool) _ :=
    .step (a := (true, .mutate (.createMountPointEntry (.fd 3) ⟨"/tmp/a".toList, .kRemote, 0⟩)))
      .refl (fun _ _ _ _ held => nomatch held) rfl
  have hheld := Reaches.step (a := (false, .getMountPointEntry (.fd 3))) hcreated nofun rfl
  -- the other descriptor has no entry yet that the mutation could destroy
  have hother := Reaches.step
    (a := (true, .mutate (.createMountPointEntry (.fd 4) ⟨"/tmp/b".toList, .kRemote, 0⟩))) hheld
    (fun mutation heq _ _ _ hdooms => by
      obtain rfl := EntryAction.mutate.inj heq
      cases hdooms.2) rfl
  exact ⟨_, rfl, rfl, (reaches_reads_alive .empty hother).1⟩

end EntrySystem

section Refinement

/-- The cells hold what the table of the sequential model holds. -/
structure EntryTable.Represents (table : EntryTable) (t : MountPointTable opts) : Prop where
  fd : ∀ key, table.view.find (.fd key) = t.fileDescriptorsTable.find key
  ptr : ∀ key, table.view.find (.ptr key) = t.filePtrTable.find key

/-- A mutation as the operation of the sequential model. -/
def Mutation.onTable (t : MountPointTable opts) : Mutation → MountPointTable opts
  | createMountPointEntry (.fd key) ⟨path, mountPoint, unit⟩ =>
    (t.createMountPointEntryFd key path mountPoint unit).2
  | createMountPointEntry (.ptr key) ⟨path, mountPoint, unit⟩ =>
    (t.createMountPointEntryPtr key path mountPoint unit).2
  | removeMountPointEntry (.fd key) => (t.removeMountPointEntryFd key).2
  | removeMountPointEntry (.ptr key) => (t.removeMountPointEntryPtr key).2
  | replaceFileDescriptor oldFd newFd => (t.replaceFileDescriptor oldFd newFd).2

private theorem find_create (table : EntryTable) (key j : EntryKey) (entry : MountPointEntry) :
    (table.createMountPointEntry key entry).2.view.find j =
      if j = key ∧ key.isValid then some entry else table.view.find j := by
  unfold EntryTable.createMountPointEntry
  by_cases hv : key.isValid
  · rw [if_pos hv]
    simp only [hv, and_true]
    cases hk : table.keys.find key with
    | none =>
      rw [OwningMap.emplace_absent hk]
      exact congrFun (congrArg Map.find (OwningMap.view_insertFresh table key entry hk)) j
    | some c =>
      rw [OwningMap.emplace_present hk]
      change ((OwningMap.discard table entry).assign key entry).view.find j = _
      rw [OwningMap.view_assign, OwningMap.view_discard, find_assign]
  · rw [if_neg hv, if_neg fun e => hv e.2]

private theorem find_remove (table : EntryTable) (key j : EntryKey) :
    (table.removeMountPointEntry key).2.view.find j =
      if j = key ∧ key.isValid then none else table.view.find j := by
  unfold EntryTable.removeMountPointEntry
  by_cases hv : key.isValid
  · rw [if_pos hv]
    simp only [hv, and_true]
    exact congrFun (congrArg Map.find (table.view_erase key)) j
  · rw [if_neg hv, if_neg fun e => hv e.2]

private theorem find_createEntry {κ : Type} [DecidableEq κ] (valid : κ → Bool)
    (table : Map κ MountPointEntry) (key j : κ) (entry : MountPointEntry) :
    (createEntry valid table key entry).2.find j =
      if j = key ∧ valid key then some entry else table.find j := by
  rw [createEntry_table]
  by_cases hv : valid key
  · simp only [hv, if_true, and_true, find_assign]
  · rw [if_neg hv, if_neg fun e => hv e.2]

private theorem find_removeEntry {κ : Type} [DecidableEq κ] (valid : κ → Bool)
    (table : Map κ MountPointEntry) (key j : κ) :
    (removeEntry valid table key).2.find j =
      if j = key ∧ valid key then none else table.find j := by
  rw [removeEntry_table]
  by_cases hv : valid key
  · simp only [hv, if_true, and_true, find_erase]
  · rw [if_neg hv, if_neg fun e => hv e.2]

/-- What the sequential model holds under a key of either table. -/
def MountPointTable.held (t : MountPointTable opts) : EntryKey → Option MountPointEntry
  | .fd key => t.fileDescriptorsTable.find key
  | .ptr key => t.filePtrTable.find key

private theorem EntryTable.Represents.held {table : EntryTable} {t : MountPointTable opts}
    (h : table.Represents t) (j : EntryKey) : table.view.find j = t.held j := by
  cases j with
  | fd j => exact h.fd j
  | ptr j => exact h.ptr j

theorem held_create (t : MountPointTable opts) (key j : EntryKey)
    (entry : MountPointEntry) :
    (Mutation.onTable t (.createMountPointEntry key entry)).held j =
      if j = key ∧ key.isValid then some entry else t.held j := by
  cases key with
  | fd key =>
    cases j with
    | fd j =>
      refine (find_createEntry isFileDescriptorValid t.fileDescriptorsTable key j entry).trans ?_
      simp only [EntryKey.fd.injEq]
      rfl
    | ptr j => exact (if_neg fun e => nomatch e.1).symm
  | ptr key =>
    cases j with
    | fd j => exact (if_neg fun e => nomatch e.1).symm
    | ptr j =>
      refine (find_createEntry isFilePointerValid t.filePtrTable key j entry).trans ?_
      simp only [EntryKey.ptr.injEq]
      rfl

theorem held_remove (t : MountPointTable opts) (key j : EntryKey) :
    (Mutation.onTable t (.removeMountPointEntry key)).held j =
      if j = key ∧ key.isValid then none else t.held j := by
  cases key with
  | fd key =>
    cases j with
    | fd j =>
      refine (find_removeEntry isFileDescriptorValid t.fileDescriptorsTable key j).trans ?_
      simp only [EntryKey.fd.injEq]
      rfl
    | ptr j => exact (if_neg fun e => nomatch e.1).symm
  | ptr key =>
    cases j with
    | fd j => exact (if_neg fun e => nomatch e.1).symm
    | ptr j =>
      refine (find_removeEntry isFilePointerValid t.filePtrTable key j).trans ?_
      simp only [EntryKey.ptr.injEq]
      rfl

private theorem find_replace {table : EntryTable} {t : MountPointTable opts}
    (h : table.Represents t) (oldFd newFd : Int32) (j : EntryKey) :
    (table.replaceFileDescriptor oldFd newFd).2.view.find j =
      (t.replaceFileDescriptor oldFd newFd).2.held j := by
  rw [replace_eq]
  simp only [isFileDescriptorValid_iff]
  cases j with
  | fd j =>
    rw [MountPointTable.held, MountPointTable.replaceFileDescriptor_table]
    split
    · rw [OwningMap.view_move]
      exact find_move_embed (fun _ _ => EntryKey.fd.inj) h.fd oldFd newFd j
    · exact h.fd j
  | ptr j =>
    rw [MountPointTable.held, MountPointTable.replaceFileDescriptor_ptr]
    split
    · rw [OwningMap.view_move, find_move_other (by simp) (by simp)]
      exact h.ptr j
    · exact h.ptr j

/-- The cells follow the sequential model through every mutation. -/
theorem EntryTable.Represents.apply {table : EntryTable} {t : MountPointTable opts}
    (h : table.Represents t) (mutation : Mutation) :
    (mutation.apply table).Represents (mutation.onTable t) := by
  have hheld : ∀ j, (mutation.apply table).view.find j = (mutation.onTable t).held j := by
    intro j
    cases mutation with
    | createMountPointEntry key entry =>
      rw [Mutation.apply, find_create, held_create, h.held]
    | removeMountPointEntry key =>
      rw [Mutation.apply, find_remove, held_remove, h.held]
    | replaceFileDescriptor oldFd newFd => exact find_replace h oldFd newFd j
  exact ⟨fun key => hheld (.fd key), fun key => hheld (.ptr key)⟩

/-- What a thread finds behind the pointer right after its lookup is the entry the sequential
model looks up. -/
theorem EntryTable.Represents.getMountPointEntry {table : EntryTable} {t : MountPointTable opts}
    (h : table.Represents t) (key : EntryKey) :
    (table.getMountPointEntry key).bind table.heap.cell =
      match key with
      | .fd key => t.getMountPointEntryFd key
      | .ptr key => t.getMountPointEntryPtr key := by
  cases key with
  | fd key =>
    change (if isFileDescriptorValid key then table.keys.find (.fd key) else none).bind _ =
      if isFileDescriptorValid key then t.fileDescriptorsTable.find key else none
    split
    · exact h.fd key
    · rfl
  | ptr key =>
    change (if isFilePointerValid key then table.keys.find (.ptr key) else none).bind _ =
      if isFilePointerValid key then t.filePtrTable.find key else none
    split
    · exact h.ptr key
    · rfl

end Refinement

end Padll
