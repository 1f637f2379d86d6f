import Mathlib.Data.List.GetD
import Mathlib.Data.List.Infix
import Padll.Library.KeyedMap
import Padll.Libc

/-! The mount point table: entries by descriptor and by stream, the registered workflows of
each mount point, and the choice of a workflow for a path, a descriptor or a stream. -/
namespace Padll
open KeyedMap

structure MountPointEntry where
  path : Path
  mountPoint : MountPoint
  metadataServerUnit : UInt32
  deriving DecidableEq, Repr

namespace Path

/-- The position of the first occurrence of a text in a path, if there is one. -/
def find : Path → Path → Option Nat
  | [], text => if text = [] then some 0 else none
  | c :: path, text => if text <+: c :: path then some 0 else (find path text).map (· + 1)

/-- The search succeeds exactly if the text occurs as a block of the path. -/
theorem find_isSome_iff (path text : Path) : (path.find text).isSome ↔ text <:+: path := by
  induction path with
  | nil => by_cases h : text = [] <;> simp [find, h]
  | cons c path ih =>
    by_cases h : text <+: c :: path
    · simp only [find, if_pos h, Option.isSome_some, true_iff]
      exact h.isInfix
    · rw [find, if_neg h, Option.isSome_map, ih, List.infix_cons_iff]
      exact (or_iff_right h).symm

end Path

/-- `static_cast<uint32_t> (-1)`: no workflow. -/
def noWorkflow : UInt32 := -1

def isFileDescriptorValid (fd : Int32) : Bool := !decide (fd ≤ 2)

def isFilePointerValid (fptr : FilePtr) : Bool :=
  !decide (fptr = .nullptr ∨ fptr = .stdin ∨ fptr = .stdout ∨ fptr = .stderr)

section Entries
variable {κ : Type} [DecidableEq κ] (valid : κ → Bool)

/-- Create or replace the entry of a valid key; the flag says whether the key was absent. -/
def createEntry (table : Map κ MountPointEntry) (key : κ) (entry : MountPointEntry) :
    Bool × Map κ MountPointEntry :=
  if valid key then
    match emplace table key entry with
    | (true, table') => (true, table')
    | (false, table') => (false, assign table' key entry)
  else (false, table)

def getEntry (table : Map κ MountPointEntry) (key : κ) : Option MountPointEntry :=
  if valid key then table.find key else none

def removeEntry (table : Map κ MountPointEntry) (key : κ) : Bool × Map κ MountPointEntry :=
  if valid key then
    match erase table key with
    | (0, table') => (false, table')
    | (_, table') => (true, table')
  else (false, table)

end Entries

def registerMountPointType (workflows : Map MountPoint (List UInt32)) (type : MountPoint)
    (ids : List UInt32) : Map MountPoint (List UInt32) :=
  match workflows.find type with
  | none => (emplace workflows type ids).2
  | some _ => assign workflows type ids

def initializeWorkflows (opts : Options) : Map MountPoint (List UInt32) :=
  if opts.mountPointDifferentiationEnabled then
    registerMountPointType empty .kRemote opts.workflows.defaultRemoteMountPointWorkflows
  else registerMountPointType empty .kNone defaultMountPointWorkflows

/-- The table of a process. `prng` lists the values the generator will produce; the
workflows stay as the constructor registered them. -/
structure MountPointTable (opts : Options) where
  fileDescriptorsTable : Map Int32 MountPointEntry := empty
  filePtrTable : Map FilePtr MountPointEntry := empty
  mountPointWorkflows : Map MountPoint (List UInt32) := initializeWorkflows opts
  prng : Nat → UInt32
  initialized : mountPointWorkflows = initializeWorkflows opts := by rfl

namespace MountPointTable
variable {opts : Options}

def createMountPointEntryFd (t : MountPointTable opts) (fd : Int32) (path : Path)
    (mountPoint : MountPoint) (metadataServerUnit : UInt32) : Bool × MountPointTable opts :=
  let (inserted, table) := createEntry isFileDescriptorValid t.fileDescriptorsTable fd
    ⟨path, mountPoint, metadataServerUnit⟩
  (inserted, { t with fileDescriptorsTable := table })

def createMountPointEntryPtr (t : MountPointTable opts) (filePtr : FilePtr) (path : Path)
    (mountPoint : MountPoint) (metadataServerUnit : UInt32) : Bool × MountPointTable opts :=
  let (inserted, table) := createEntry isFilePointerValid t.filePtrTable filePtr
    ⟨path, mountPoint, metadataServerUnit⟩
  (inserted, { t with filePtrTable := table })

def getMountPointEntryFd (t : MountPointTable opts) (key : Int32) : Option MountPointEntry :=
  getEntry isFileDescriptorValid t.fileDescriptorsTable key

def getMountPointEntryPtr (t : MountPointTable opts) (key : FilePtr) : Option MountPointEntry :=
  getEntry isFilePointerValid t.filePtrTable key

def removeMountPointEntryFd (t : MountPointTable opts) (key : Int32) :
    Bool × MountPointTable opts :=
  let (removed, table) := removeEntry isFileDescriptorValid t.fileDescriptorsTable key
  (removed, { t with fileDescriptorsTable := table })

def removeMountPointEntryPtr (t : MountPointTable opts) (key : FilePtr) :
    Bool × MountPointTable opts :=
  let (removed, table) := removeEntry isFilePointerValid t.filePtrTable key
  (removed, { t with filePtrTable := table })

def replaceFileDescriptor (t : MountPointTable opts) (oldFd newFd : Int32) :
    Bool × MountPointTable opts :=
  if !isFileDescriptorValid oldFd || !isFileDescriptorValid newFd then (false, t)
  else
    match t.fileDescriptorsTable.find oldFd with
    | none => (false, t)
    | some _ =>
      (true, { t with fileDescriptorsTable := (move t.fileDescriptorsTable oldFd newFd).2 })

def compareFirstWithRemoteMountPoint (opts : Options) (path : Path) : MountPoint :=
  match Path.find path opts.defaultRemoteMountPoint with
  | some _ => .kRemote
  | none => .kNone

def extractMountPointFromPath (opts : Options) (path : Path) : MountPoint :=
  if opts.mountPointDifferentiationEnabled then compareFirstWithRemoteMountPoint opts path
  else .kNone

def extractMountPoint (opts : Options) (path : Path) : MountPoint :=
  if !opts.mountPointDifferentiationEnabled then .kNone else extractMountPointFromPath opts path

/-- Draw from the generator to choose among the workflows of a registered mount point. -/
def selectWorkflowFromMountpoint (t : MountPointTable opts) (namespaceName : MountPoint) :
    UInt32 × MountPointTable opts :=
  match t.mountPointWorkflows.find namespaceName with
  | some workflows =>
    let randomItem := (t.prng 0).toNat % workflows.length
    (workflows.getD randomItem noWorkflow, { t with prng := fun n => t.prng (n + 1) })
  | none => (noWorkflow, t)

/-- Selection by metadata unit is not implemented: it finds no workflow. -/
def selectWorkflowFromMetadataUnit : UInt32 := noWorkflow

def pickWorkflowIdPath (t : MountPointTable opts) (path : Path) :
    (MountPoint × UInt32) × MountPointTable opts :=
  let namespaceType :=
    if !opts.mountPointDifferentiationEnabled then .kNone else extractMountPointFromPath opts path
  let (workflowId, t') :=
    if opts.selectWorkflowByMetadataUnit then (selectWorkflowFromMetadataUnit, t)
    else t.selectWorkflowFromMountpoint namespaceType
  ((namespaceType, workflowId), t')

/-- Choose a workflow for the entry a lookup returned. -/
def pickWorkflowIdEntry (t : MountPointTable opts) :
    Option MountPointEntry → UInt32 × MountPointTable opts
  | some entry =>
    if opts.selectWorkflowByMetadataUnit then (selectWorkflowFromMetadataUnit, t)
    else t.selectWorkflowFromMountpoint entry.mountPoint
  | none => (noWorkflow, t)

def pickWorkflowIdFd (t : MountPointTable opts) (fd : Int32) : UInt32 × MountPointTable opts :=
  t.pickWorkflowIdEntry (t.getMountPointEntryFd fd)

def pickWorkflowIdPtr (t : MountPointTable opts) (filePtr : FilePtr) :
    UInt32 × MountPointTable opts :=
  t.pickWorkflowIdEntry (t.getMountPointEntryPtr filePtr)

def pickWorkflowIdByForce (t : MountPointTable opts) : UInt32 × MountPointTable opts :=
  t.selectWorkflowFromMountpoint
    (if opts.mountPointDifferentiationEnabled then .kRemote else .kNone)

end MountPointTable

section Entries
variable {κ : Type} [DecidableEq κ] {valid : κ → Bool}

theorem createEntry_table (table : Map κ MountPointEntry) (key : κ) (entry : MountPointEntry) :
    (createEntry valid table key entry).2 = if valid key then assign table key entry else table := by
  unfold createEntry
  split
  · cases h : table.find key with
    | none => simp [emplace_absent h]
    | some b => simp [emplace_present h]
  · rfl

theorem removeEntry_table (table : Map κ MountPointEntry) (key : κ) :
    (removeEntry valid table key).2 = if valid key then (erase table key).2 else table := by
  unfold removeEntry
  split
  · obtain ⟨count, table', heq⟩ : ∃ count table', erase table key = (count, table') := ⟨_, _, rfl⟩
    rw [heq]
    cases count <;> rfl
  · rfl

theorem getEntry_createEntry (table : Map κ MountPointEntry) (key j : κ) (entry : MountPointEntry) :
    getEntry valid (createEntry valid table key entry).2 j =
      if j = key ∧ valid key then some entry else getEntry valid table j := by
  rw [createEntry_table]
  by_cases hv : valid key
  · by_cases hj : j = key
    · simp [getEntry, hv, hj]
    · simp [getEntry, hv, hj]
  · simp [hv]

theorem getEntry_removeEntry (table : Map κ MountPointEntry) (key j : κ) :
    getEntry valid (removeEntry valid table key).2 j =
      if j = key then none else getEntry valid table j := by
  rw [removeEntry_table]
  by_cases hj : j = key
  · subst hj
    by_cases hv : valid j
    · simp [getEntry, hv]
    · simp [getEntry, hv]
  · by_cases hv : valid key
    · simp [getEntry, hv, hj]
    · simp [hv, hj]

end Entries

@[simp] theorem isFileDescriptorValid_iff {fd : Int32} : isFileDescriptorValid fd ↔ 2 < fd := by
  simp [isFileDescriptorValid]

/-- With differentiation on, remote are the paths in which the remote mount point occurs. -/
theorem MountPointTable.extractMountPoint_kRemote_iff (opts : Options) (path : Path) :
    extractMountPoint opts path = .kRemote ↔
      opts.mountPointDifferentiationEnabled ∧ opts.defaultRemoteMountPoint <:+: path := by
  rw [← Path.find_isSome_iff]
  cases hd : opts.mountPointDifferentiationEnabled with
  | false => simp [extractMountPoint, hd]
  | true =>
    have hfind : extractMountPoint opts path = compareFirstWithRemoteMountPoint opts path := by
      simp only [extractMountPoint, extractMountPointFromPath, hd]
      rfl
    rw [hfind, compareFirstWithRemoteMountPoint]
    cases Path.find path opts.defaultRemoteMountPoint with
    | none => simp
    | some position => simp

/-- A mount point under which calls are submitted: its workflows are registered and
workflows are chosen by mount point. -/
def Options.enforces (opts : Options) (mountPoint : MountPoint) : Bool :=
  !opts.selectWorkflowByMetadataUnit && ((initializeWorkflows opts).find mountPoint).isSome

theorem initializeWorkflows_find (opts : Options) (mountPoint : MountPoint) :
    (initializeWorkflows opts).find mountPoint =
      if opts.mountPointDifferentiationEnabled then
        if mountPoint = .kRemote then some opts.workflows.defaultRemoteMountPointWorkflows else none
      else if mountPoint = .kNone then some defaultMountPointWorkflows else none := by
  unfold initializeWorkflows
  split <;>
    simp only [registerMountPointType, find_empty, emplace_absent (find_empty _), find_assign]

/-- With differentiation on, calls are submitted under the remote mount point only. -/
theorem Options.enforces_iff {opts : Options} (hdiff : opts.mountPointDifferentiationEnabled = true)
    (mountPoint : MountPoint) :
    opts.enforces mountPoint = true ↔
      opts.selectWorkflowByMetadataUnit = false ∧ mountPoint = .kRemote := by
  rw [Options.enforces, initializeWorkflows_find, if_pos hdiff]
  cases opts.selectWorkflowByMetadataUnit <;> cases mountPoint <;> simp

/-- Registered lists are inhabited and none of their ids is the sentinel. -/
theorem initializeWorkflows_ids {opts : Options} {mountPoint : MountPoint} {ids : List UInt32}
    (h : (initializeWorkflows opts).find mountPoint = some ids) :
    0 < ids.length ∧ noWorkflow ∉ ids := by
  rw [initializeWorkflows_find] at h
  split at h
  · split at h
    · obtain rfl := Option.some.inj h
      refine ⟨?_, fun hmem => ?_⟩
      · have := opts.workflows.accepted
        rw [opts.workflows.remote_eq, workflowIds, List.length_map, List.length_range]
        omega
      · obtain ⟨i, -, hi, hv⟩ := opts.workflows.mem_remote hmem
        have := opts.workflows.small
        have hno : noWorkflow.toNat = 4294967295 := rfl
        omega
    · cases h
  · split at h
    · obtain rfl := Option.some.inj h
      exact ⟨by decide, by decide⟩
    · cases h

namespace MountPointTable
variable {opts : Options}

/-- Tables agree up to the generator. -/
structure SameEntries (t t' : MountPointTable opts) : Prop where
  fd : t'.fileDescriptorsTable = t.fileDescriptorsTable
  ptr : t'.filePtrTable = t.filePtrTable

theorem SameEntries.refl (t : MountPointTable opts) : t.SameEntries t := ⟨rfl, rfl⟩

theorem SameEntries.getMountPointEntryPtr {t t' : MountPointTable opts} (h : t.SameEntries t')
    (key : FilePtr) : t'.getMountPointEntryPtr key = t.getMountPointEntryPtr key := by
  rw [MountPointTable.getMountPointEntryPtr, h.ptr]
  rfl

theorem getMountPointEntryPtr_create (t : MountPointTable opts) (filePtr key : FilePtr)
    (path : Path) (mountPoint : MountPoint) (unit : UInt32) :
    (t.createMountPointEntryPtr filePtr path mountPoint unit).2.getMountPointEntryPtr key =
      if key = filePtr ∧ isFilePointerValid filePtr then some ⟨path, mountPoint, unit⟩
      else t.getMountPointEntryPtr key :=
  getEntry_createEntry t.filePtrTable filePtr key _

theorem getMountPointEntryPtr_remove (t : MountPointTable opts) (filePtr key : FilePtr) :
    (t.removeMountPointEntryPtr filePtr).2.getMountPointEntryPtr key =
      if key = filePtr then none else t.getMountPointEntryPtr key :=
  getEntry_removeEntry t.filePtrTable filePtr key

theorem selectWorkflowFromMountpoint_spec (t : MountPointTable opts) (mountPoint : MountPoint) :
    match (initializeWorkflows opts).find mountPoint with
    | some ids => (t.selectWorkflowFromMountpoint mountPoint).1 ∈ ids
    | none => (t.selectWorkflowFromMountpoint mountPoint).1 = noWorkflow := by
  cases h : (initializeWorkflows opts).find mountPoint with
  | none => simp only [selectWorkflowFromMountpoint, t.initialized, h]
  | some ids =>
    have hlt := Nat.mod_lt (t.prng 0).toNat (initializeWorkflows_ids h).1
    simp only [selectWorkflowFromMountpoint, t.initialized, h]
    rw [List.getD_eq_getElem _ _ hlt]
    exact List.getElem_mem hlt

/-- Selection succeeds exactly on registered mount points. -/
theorem selectWorkflowFromMountpoint_ne (t : MountPointTable opts) (mountPoint : MountPoint) :
    (t.selectWorkflowFromMountpoint mountPoint).1 ≠ noWorkflow ↔
      ((initializeWorkflows opts).find mountPoint).isSome := by
  have hspec := t.selectWorkflowFromMountpoint_spec mountPoint
  cases h : (initializeWorkflows opts).find mountPoint with
  | none =>
    rw [h] at hspec
    simp [hspec]
  | some ids =>
    rw [h] at hspec
    have hne : (t.selectWorkflowFromMountpoint mountPoint).1 ≠ noWorkflow := by
      intro e
      exact (initializeWorkflows_ids h).2 (e ▸ hspec)
    simp [hne]

theorem selectWorkflowFromMountpoint_same (t : MountPointTable opts) (mountPoint : MountPoint) :
    t.SameEntries (t.selectWorkflowFromMountpoint mountPoint).2 := by
  unfold selectWorkflowFromMountpoint
  split <;> exact ⟨rfl, rfl⟩

theorem pickWorkflowIdPath_ne (t : MountPointTable opts) (path : Path) :
    (t.pickWorkflowIdPath path).1.2 ≠ noWorkflow ↔ opts.enforces (extractMountPoint opts path) := by
  cases hs : opts.selectWorkflowByMetadataUnit with
  | true => simp [pickWorkflowIdPath, hs, selectWorkflowFromMetadataUnit, Options.enforces]
  | false =>
    simp only [Options.enforces, hs, Bool.not_false, Bool.true_and]
    rw [← t.selectWorkflowFromMountpoint_ne (extractMountPoint opts path)]
    simp only [pickWorkflowIdPath, hs, Bool.false_eq_true, if_false]
    rfl

theorem pickWorkflowIdPath_same (t : MountPointTable opts) (path : Path) :
    t.SameEntries (t.pickWorkflowIdPath path).2 := by
  unfold pickWorkflowIdPath
  cases hs : opts.selectWorkflowByMetadataUnit with
  | true => exact .refl t
  | false => exact t.selectWorkflowFromMountpoint_same _

theorem pickWorkflowIdEntry_ne (t : MountPointTable opts) (entry : Option MountPointEntry) :
    (t.pickWorkflowIdEntry entry).1 ≠ noWorkflow ↔
      ∃ e, entry = some e ∧ opts.enforces e.mountPoint := by
  cases entry with
  | none => simp [pickWorkflowIdEntry]
  | some e =>
    cases hs : opts.selectWorkflowByMetadataUnit with
    | true => simp [pickWorkflowIdEntry, hs, selectWorkflowFromMetadataUnit, Options.enforces]
    | false =>
      simp only [pickWorkflowIdEntry, hs, Bool.false_eq_true, if_false, Options.enforces,
        selectWorkflowFromMountpoint_ne]
      simp

theorem pickWorkflowIdEntry_same (t : MountPointTable opts) (entry : Option MountPointEntry) :
    t.SameEntries (t.pickWorkflowIdEntry entry).2 := by
  unfold pickWorkflowIdEntry
  split
  · split
    · exact .refl t
    · exact t.selectWorkflowFromMountpoint_same _
  · exact .refl t

theorem pickWorkflowIdByForce_ne (t : MountPointTable opts) :
    t.pickWorkflowIdByForce.1 ≠ noWorkflow := by
  rw [pickWorkflowIdByForce, selectWorkflowFromMountpoint_ne, initializeWorkflows_find]
  cases opts.mountPointDifferentiationEnabled <;> rfl

theorem pickWorkflowIdByForce_same (t : MountPointTable opts) :
    t.SameEntries t.pickWorkflowIdByForce.2 :=
  t.selectWorkflowFromMountpoint_same _

theorem replaceFileDescriptor_table (t : MountPointTable opts) (oldFd newFd : Int32) :
    (t.replaceFileDescriptor oldFd newFd).2.fileDescriptorsTable =
      if 2 < oldFd ∧ 2 < newFd then (move t.fileDescriptorsTable oldFd newFd).2
      else t.fileDescriptorsTable := by
  by_cases hv : 2 < oldFd ∧ 2 < newFd
  · have ho := isFileDescriptorValid_iff.mpr hv.1
    have hn := isFileDescriptorValid_iff.mpr hv.2
    cases h : t.fileDescriptorsTable.find oldFd with
    | none => simp [replaceFileDescriptor, hv, ho, hn, h, move_absent newFd h]
    | some e => simp [replaceFileDescriptor, hv, ho, hn, h]
  · have hguard : (!isFileDescriptorValid oldFd || !isFileDescriptorValid newFd) = true := by
      by_contra hc
      refine hv ⟨isFileDescriptorValid_iff.mp ?_, isFileDescriptorValid_iff.mp ?_⟩
      · by_contra ho
        simp [ho] at hc
      · by_contra hn
        simp [hn] at hc
    rw [replaceFileDescriptor, if_pos hguard, if_neg hv]

theorem replaceFileDescriptor_ptr (t : MountPointTable opts) (oldFd newFd : Int32) :
    (t.replaceFileDescriptor oldFd newFd).2.filePtrTable = t.filePtrTable := by
  unfold replaceFileDescriptor
  split
  · rfl
  · split <;> rfl

theorem getMountPointEntryFd_eq {fd : Int32} (t : MountPointTable opts) (hfd : 2 < fd) :
    t.getMountPointEntryFd fd = t.fileDescriptorsTable.find fd :=
  if_pos (isFileDescriptorValid_iff.mpr hfd)

theorem getMountPointEntryFd_invalid {fd : Int32} (t : MountPointTable opts) (hfd : ¬ 2 < fd) :
    t.getMountPointEntryFd fd = none :=
  if_neg fun h => hfd (isFileDescriptorValid_iff.mp h)

/-- Re-keying another descriptor keeps the entry a descriptor has. -/
theorem getMountPointEntryFd_replace {t : MountPointTable opts} {oldFd newFd fd : Int32}
    {e : MountPointEntry} (hne : fd ≠ oldFd) (h : t.getMountPointEntryFd fd = some e) :
    (t.replaceFileDescriptor oldFd newFd).2.getMountPointEntryFd fd = some e := by
  by_cases hfd : 2 < fd
  · rw [getMountPointEntryFd_eq _ hfd] at h ⊢
    rw [replaceFileDescriptor_table]
    split
    · exact find_move_kept h hne
    · exact h
  · rw [getMountPointEntryFd_invalid t hfd] at h
    cases h

/-- Re-keying leaves the source without an entry. -/
theorem getMountPointEntryFd_replace_source (t : MountPointTable opts) {oldFd newFd : Int32}
    (ho : 2 < oldFd) (hn : 2 < newFd) (hne : newFd ≠ oldFd) :
    (t.replaceFileDescriptor oldFd newFd).2.getMountPointEntryFd oldFd = none := by
  rw [getMountPointEntryFd_eq _ ho, replaceFileDescriptor_table, if_pos ⟨ho, hn⟩]
  exact find_move_source hne

/-- Re-keying onto a free descriptor hands it the entry of the source. -/
theorem getMountPointEntryFd_replace_target {t : MountPointTable opts} {oldFd newFd : Int32}
    {e : MountPointEntry} (ho : 2 < oldFd) (hn : 2 < newFd)
    (he : t.getMountPointEntryFd oldFd = some e) (hfree : t.getMountPointEntryFd newFd = none) :
    (t.replaceFileDescriptor oldFd newFd).2.getMountPointEntryFd newFd = some e := by
  rw [getMountPointEntryFd_eq t ho] at he
  rw [getMountPointEntryFd_eq t hn] at hfree
  rw [getMountPointEntryFd_eq _ hn, replaceFileDescriptor_table, if_pos ⟨ho, hn⟩,
    find_move_free he hfree, if_pos rfl]

/-- Re-keying concerns the two descriptors it names. -/
theorem getMountPointEntryFd_replace_other (t : MountPointTable opts) {oldFd newFd fd : Int32}
    (ho : fd ≠ oldFd) (hn : fd ≠ newFd) :
    (t.replaceFileDescriptor oldFd newFd).2.getMountPointEntryFd fd = t.getMountPointEntryFd fd := by
  by_cases hfd : 2 < fd
  · rw [getMountPointEntryFd_eq _ hfd, getMountPointEntryFd_eq _ hfd, replaceFileDescriptor_table]
    split
    · exact find_move_other ho hn
    · rfl
  · rw [getMountPointEntryFd_invalid _ hfd, getMountPointEntryFd_invalid _ hfd]

end MountPointTable

end Padll
