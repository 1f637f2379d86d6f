import Padll.LdPreloadedRuns

/-! Decisions taken for a descriptor: they follow the path it was opened with while the
registration lasts, across closing and number reuse, and across duplication. -/
namespace Padll
open LdPreloadedPosix
variable {opts : Options}

namespace PosixCall

/-- Path and resulting descriptor of the calls that open by path. -/
def opened : PosixCall → Option (Path × Int32)
  | openVariadic path _ _ fd | «open» path _ fd | creat path _ fd | creat64 path _ fd
  | openatVariadic _ path _ _ fd | openat _ path _ fd | open64Variadic path _ _ fd
  | open64 path _ fd => some (path, fd)
  | _ => none

/-- The descriptor of the calls that act on one. -/
def descriptor : PosixCall → Option Int32
  | read fd _ _ _ | write fd _ _ _ | pread fd _ _ _ _ | pwrite fd _ _ _ _ | pread64 fd _ _ _ _
  | pwrite64 fd _ _ _ _ | mmap _ _ _ _ fd _ _ | fstatfs fd _ _ | fstatfs64 fd _ _
  | fgetxattr fd _ _ _ _ | fsetxattr fd _ _ _ _ _ | flistxattr fd _ _ _ => some fd
  | _ => none

/-- Calls that may take a registration away from a descriptor or give it another: closing
it, duplicating it, opening onto it. -/
def disturbs (f : Int32) : PosixCall → Bool
  | close fd _ => fd = f
  | fcntl fd cmd _ _ => fd = f ∧ (cmd = fDupfd ∨ cmd = fDupfdCloexec)
  | c => c.opened.any (·.2 = f)

end PosixCall

def Action.disturbs (f : Int32) : Action → Bool
  | call c => c.disturbs f
  | setStatisticCollection _ => false

section Registration

private theorem effect_opened {c : PosixCall} {path : Path} {fd : Int32}
    (h : c.opened = some (path, fd)) :
    c.profile.effect = .openFd fd path ∧
      ∃ operationType, c.profile.control = .submitted (.path path) operationType .metaOp 1 := by
  cases c <;> simp only [PosixCall.opened, Option.some.injEq, Prod.mk.injEq, reduceCtorEq] at h <;>
    obtain ⟨rfl, rfl⟩ := h <;> exact ⟨rfl, _, rfl⟩

private theorem control_descriptor {c : PosixCall} {fd : Int32} (h : c.descriptor = some fd) :
    ∃ operationType operationContext payload,
      c.profile.control = .submitted (.descriptor fd) operationType operationContext payload := by
  cases c <;> simp only [PosixCall.descriptor, Option.some.injEq, reduceCtorEq] at h <;>
    subst h <;> exact ⟨_, _, _, rfl⟩

/-- An undisturbed descriptor is none of those the tables change under. -/
private theorem effect_undisturbed {c : PosixCall} {f : Int32} (h : c.disturbs f = false) :
    match c.profile.effect with
    | .openFd fd _ | .closeFd fd | .duplicate fd _ => f ≠ fd
    | .keep | .openStream _ _ | .closeStream _ => True := by
  cases c with
  | openVariadic | «open» | creat | creat64 | openatVariadic | openat | open64Variadic | open64 =>
    rintro rfl
    simp [PosixCall.disturbs, PosixCall.opened] at h
  | close fd result =>
    rintro rfl
    simp [PosixCall.disturbs] at h
  | fcntl fd cmd arg resultValue =>
    by_cases hc : cmd = fDupfd ∨ cmd = fDupfdCloexec
    · simp only [PosixCall.profile, if_pos hc]
      rintro rfl
      simp [PosixCall.disturbs, hc] at h
    · simp only [PosixCall.profile, if_neg hc]
  | _ => trivial

/-- The registration of a descriptor outlives every call that does not disturb it. -/
theorem getMountPointEntryFd_after {c : PosixCall} {f : Int32} (h : c.disturbs f = false)
    (o : LdPreloadedPosix opts) {e : MountPointEntry}
    (he : o.mountPointTable.getMountPointEntryFd f = some e) :
    (after c o).mountPointTable.getMountPointEntryFd f = some e := by
  have hu := effect_undisturbed h
  have hsame := c.profile.chosen_same o.mountPointTable
  have hc : (c.profile.chosen o.mountPointTable).getMountPointEntryFd f = some e := by
    rw [MountPointTable.getMountPointEntryFd, hsame.fd]
    exact he
  refine (getMountPointEntryFd_settle _ _ _).trans ?_
  revert hu
  cases c.profile.effect with
  | keep => exact fun _ => hc
  | openFd fd path =>
    intro hne
    exact (if_neg fun hx => hne hx.1).trans hc
  | openStream fptr path => exact fun _ => hc
  | closeFd fd =>
    intro hne
    exact (if_neg fun hx => hne hx.2).trans hc
  | closeStream stream => exact fun _ => hc
  | duplicate fd result => exact fun hne => MountPointTable.getMountPointEntryFd_replace hne hc

/-- Opening onto a descriptor registers it under the mount point of the path. -/
theorem getMountPointEntryFd_opened {c : PosixCall} {path : Path} {f : Int32}
    (h : c.opened = some (path, f)) (hf : 2 < f) (o : LdPreloadedPosix opts) :
    (after c o).mountPointTable.getMountPointEntryFd f =
      some ⟨path, MountPointTable.extractMountPoint opts path, getMetadataUnit⟩ := by
  refine (getMountPointEntryFd_settle _ _ _).trans ?_
  rw [(effect_opened h).1]
  exact if_pos ⟨rfl, hf⟩

theorem submits_opened {c : PosixCall} {path : Path} {f : Int32} (h : c.opened = some (path, f))
    (o : LdPreloadedPosix opts) :
    o.submits c = opts.enforces (MountPointTable.extractMountPoint opts path) := by
  obtain ⟨operationType, hc⟩ := (effect_opened h).2
  rw [submits_eq, CallRecord.enforced_recordOf hc]
  rfl

theorem submits_descriptor {d : PosixCall} {f : Int32} (h : d.descriptor = some f)
    (o : LdPreloadedPosix opts) :
    o.submits d =
      (o.mountPointTable.getMountPointEntryFd f).any fun e => opts.enforces e.mountPoint := by
  obtain ⟨operationType, operationContext, payload, hc⟩ := control_descriptor h
  rw [submits_eq, CallRecord.enforced_recordOf hc]
  rfl

/-- A descriptor opened by path is decided like its path for as long as no call disturbs it. -/
theorem run_submits_descriptor (o : LdPreloadedPosix opts) {c : PosixCall} {path : Path}
    {f : Int32} (hopen : c.opened = some (path, f)) (hf : 2 < f) {actions : List Action}
    (hkept : ∀ a ∈ actions, a.disturbs f = false) {d : PosixCall} (hd : d.descriptor = some f) :
    (run (.call c :: actions) o).2.submits d = o.submits c := by
  have hkeep : ∀ a ∈ actions, ∀ s : LdPreloadedPosix opts,
      (∃ e, s.mountPointTable.getMountPointEntryFd f = some e ∧
        e.mountPoint = MountPointTable.extractMountPoint opts path) →
      ∃ e, (step a s).2.mountPointTable.getMountPointEntryFd f = some e ∧
        e.mountPoint = MountPointTable.extractMountPoint opts path := by
    rintro a ha s ⟨e, he, hm⟩
    cases a with
    | call b =>
      rw [step_call]
      exact ⟨e, getMountPointEntryFd_after (hkept _ ha) s he, hm⟩
    | setStatisticCollection value => exact ⟨e, he, hm⟩
  obtain ⟨e, he, hm⟩ := OutputMachine.run_invariant_of_mem hkeep
    ⟨_, getMountPointEntryFd_opened hopen hf o, rfl⟩
  rw [run_call_cons, submits_descriptor hd, submits_opened hopen, run, he, Option.any_some, hm]

theorem run_submits_descriptor_read :
    (run [.call (.«open» "/tmp/x".toList 0 3), .call (.close 4 0), .call (.fcntl 5 fDupfd 0 3)]
      freshSingle).2.submits (.read 3 0 16 16) =
        freshSingle.submits (.«open» "/tmp/x".toList 0 3) ∧
      freshSingle.submits (.«open» "/tmp/x".toList 0 3) = true :=
  ⟨run_submits_descriptor freshSingle rfl (by decide) (by decide) rfl, by decide⟩

end Registration

section Origins

/-- What a descriptor of the kernel denotes. -/
inductive Origin where
  | inherited
  | opened (path : Path)
  | socket
  deriving DecidableEq, Repr

/-- The kernel's descriptor table: the open descriptors and what they denote. -/
abbrev KernelTable := Int32 → Option Origin

/-- A new descriptor is not open before; a failed call has a negative result. -/
def KernelTable.acquire (k : KernelTable) (fd : Int32) (origin : Origin) : Option KernelTable :=
  if fd < 0 then some k
  else if (k fd).isSome then none
  else some (Function.update k fd (some origin))

/-- Closing frees an open descriptor; a failed call has a negative result. -/
def KernelTable.release (k : KernelTable) (fd result : Int32) : Option KernelTable :=
  if result < 0 then some k
  else if result = 0 ∧ (k fd).isSome then some (Function.update k fd none)
  else none

/-- The kernel's side of opening, closing and `socket`; `none` for a result no kernel gives,
and for every other call. -/
def kernelStep (k : KernelTable) : PosixCall → Option KernelTable
  | .socket _ _ _ fd => k.acquire fd .socket
  | .close fd result => k.release fd result
  | c => c.opened.bind fun opened => k.acquire opened.2 (.opened opened.1)

def kernelRun : List PosixCall → KernelTable → Option KernelTable
  | [], k => some k
  | c :: cs, k => (kernelStep k c).bind (kernelRun cs)

/-- The path a call opens onto a given descriptor. -/
def PosixCall.openedOnto (f : Int32) (c : PosixCall) : Option Path :=
  c.opened.bind fun opened => if opened.2 = f then some opened.1 else none

/-- The path of the last call of a run that opened onto a descriptor. -/
def lastOpened (f : Int32) : List PosixCall → Option Path
  | [] => none
  | c :: cs => (lastOpened f cs).or (c.openedOnto f)

/-- After the calls, a descriptor call on an open descriptor is submitted exactly when the
file it denotes was opened by path, under the remote mount point. -/
def FollowsOrigin (calls : List PosixCall) (k : KernelTable) (o : LdPreloadedPosix opts) : Prop :=
  ∀ k', kernelRun calls k = some k' → ∀ f, 2 < f → (k' f).isSome →
    ∀ d : PosixCall, d.descriptor = some f →
      ((run (calls.map .call) o).2.submits d ↔
        ∃ path, k' f = some (.opened path) ∧
          MountPointTable.extractMountPoint opts path = .kRemote)

/-- Only the standard descriptors are open. -/
def standardOnly : KernelTable := fun fd => if 0 ≤ fd ∧ fd ≤ 2 then some .inherited else none

/-- A number closed and handed out again by `socket` is still submitted. -/
theorem socket_keeps_registration :
    ¬ FollowsOrigin
      [.«open» "/tmp/x".toList 0 3, .close 3 0, .socket 2 1 0 3] standardOnly freshSingle := by
  intro h
  obtain ⟨path, hpath, -⟩ := (h _ rfl 3 (by decide) (by decide) (.read 3 0 16 16) rfl).mp (by decide)
  have hsocket : some Origin.socket = some (.opened path) := hpath
  cases hsocket

private theorem kernelStep_cases {k k' : KernelTable} {c : PosixCall} (h : kernelStep k c = some k') :
    (∃ path fd, c.opened = some (path, fd) ∧ k.acquire fd (.opened path) = some k') ∨
      (c.opened = none ∧ c.profile.effect = .keep ∧ ∃ fd, k.acquire fd .socket = some k') ∨
      (c.opened = none ∧ ∃ fd result, c.profile.effect = .closeFd fd ∧
        k.release fd result = some k') := by
  unfold kernelStep at h
  split at h
  · next domain type protocol fd => exact .inr (.inl ⟨rfl, rfl, fd, h⟩)
  · next fd result => exact .inr (.inr ⟨rfl, fd, result, rfl, h⟩)
  · obtain ⟨opened, hopened, hk⟩ := Option.bind_eq_some_iff.mp h
    exact .inl ⟨opened.1, opened.2, hopened, hk⟩

/-- Without hard removal, only opening onto a descriptor changes its mount point. -/
private theorem mountPoint_kernelStep (hr : opts.hardRemove = false) {k k' : KernelTable}
    {c : PosixCall} (h : kernelStep k c = some k') {f : Int32} (hf : 2 < f)
    (o : LdPreloadedPosix opts) :
    ((after c o).mountPointTable.getMountPointEntryFd f).map (·.mountPoint) =
      ((c.openedOnto f).map (MountPointTable.extractMountPoint opts)).or
        ((o.mountPointTable.getMountPointEntryFd f).map (·.mountPoint)) := by
  have hsame := c.profile.chosen_same o.mountPointTable
  have hc : (c.profile.chosen o.mountPointTable).getMountPointEntryFd f =
      o.mountPointTable.getMountPointEntryFd f := by
    rw [MountPointTable.getMountPointEntryFd, hsame.fd]
    rfl
  have hs := getMountPointEntryFd_settle (c.profile.chosen o.mountPointTable) c.profile.effect f
  rw [hc] at hs
  rw [show (after c o).mountPointTable.getMountPointEntryFd f = _ from hs]
  rcases kernelStep_cases h with ⟨path, fd, hop, -⟩ | ⟨hop, heff, -⟩ | ⟨hop, fd, result, heff, -⟩
  · by_cases hfd : fd = f
    · subst hfd
      simp [PosixCall.openedOnto, hop, (effect_opened hop).1, hf]
    · simp [PosixCall.openedOnto, hop, (effect_opened hop).1, hfd, Ne.symm hfd]
  · simp [PosixCall.openedOnto, hop, heff]
  · simp [PosixCall.openedOnto, hop, heff, hr]

/-- The mount point registered for a descriptor is that of the last path opened onto it. -/
theorem run_mountPoint (hr : opts.hardRemove = false) {k k' : KernelTable}
    {calls : List PosixCall} (h : kernelRun calls k = some k') {f : Int32} (hf : 2 < f)
    (o : LdPreloadedPosix opts) :
    ((run (calls.map .call) o).2.mountPointTable.getMountPointEntryFd f).map (·.mountPoint) =
      ((lastOpened f calls).map (MountPointTable.extractMountPoint opts)).or
        ((o.mountPointTable.getMountPointEntryFd f).map (·.mountPoint)) := by
  induction calls generalizing k o with
  | nil => rfl
  | cons c cs ih =>
    obtain ⟨k₁, hstep, hrest⟩ := Option.bind_eq_some_iff.mp h
    rw [List.map_cons, run_call_cons, ih hrest, mountPoint_kernelStep hr hstep hf]
    cases hl : lastOpened f cs <;> simp [lastOpened, hl]

private theorem acquire_apply {k k' : KernelTable} {fd f : Int32} {origin : Origin}
    (h : k.acquire fd origin = some k') (hf : 2 < f) :
    k' f = if f = fd then some origin else k f := by
  unfold KernelTable.acquire at h
  split at h
  · next hneg =>
    have hne : f ≠ fd := by
      rintro rfl
      rw [Int32.lt_iff_toInt_lt] at hf hneg
      exact absurd (hf.trans hneg) (by decide)
    rw [← Option.some.inj h, if_neg hne]
  · split at h
    · cases h
    · rw [← Option.some.inj h, Function.update_apply]

private theorem release_apply {k k' : KernelTable} {fd f result : Int32} {origin : Origin}
    (h : k.release fd result = some k') (hf : k' f = some origin) : k f = some origin := by
  unfold KernelTable.release at h
  split at h
  · rwa [← Option.some.inj h] at hf
  · split at h
    · rw [← Option.some.inj h, Function.update_apply] at hf
      split at hf
      · cases hf
      · exact hf
    · cases h

private theorem origin_kernelStep {k k' : KernelTable} {c : PosixCall}
    (h : kernelStep k c = some k') {f : Int32} (hf : 2 < f) {path : Path}
    (hpath : k' f = some (.opened path)) :
    c.openedOnto f = some path ∨ (c.openedOnto f = none ∧ k f = some (.opened path)) := by
  rcases kernelStep_cases h with ⟨p, fd, hop, hk⟩ | ⟨hop, -, fd, hk⟩ | ⟨hop, fd, result, -, hk⟩
  · rw [acquire_apply hk hf] at hpath
    by_cases hfd : f = fd
    · rw [if_pos hfd] at hpath
      obtain rfl : p = path := Origin.opened.inj (Option.some.inj hpath)
      exact .inl (by simp [PosixCall.openedOnto, hop, hfd])
    · rw [if_neg hfd] at hpath
      exact .inr ⟨by simp [PosixCall.openedOnto, hop, Ne.symm hfd], hpath⟩
  · rw [acquire_apply hk hf] at hpath
    split at hpath
    · cases hpath
    · exact .inr ⟨by simp [PosixCall.openedOnto, hop], hpath⟩
  · exact .inr ⟨by simp [PosixCall.openedOnto, hop], release_apply hk hpath⟩

/-- A file opened by path during a run is the last one opened onto its descriptor. -/
theorem lastOpened_of_origin {k k' : KernelTable} {calls : List PosixCall}
    (h : kernelRun calls k = some k') {f : Int32} (hf : 2 < f) {path : Path}
    (hpath : k' f = some (.opened path)) :
    lastOpened f calls = some path ∨
      (lastOpened f calls = none ∧ k f = some (.opened path)) := by
  induction calls generalizing k with
  | nil =>
    obtain rfl := Option.some.inj h
    exact .inr ⟨rfl, hpath⟩
  | cons c cs ih =>
    obtain ⟨k₁, hstep, hrest⟩ := Option.bind_eq_some_iff.mp h
    rcases ih hrest with hl | ⟨hl, hk₁⟩
    · exact .inl (by simp [lastOpened, hl])
    · simpa [lastOpened, hl] using origin_kernelStep hstep hf hk₁

/-- Under the shipped options exactly the remote mount point is submitted. -/
theorem shipped_enforces (workflows : MountPointWorkflows) (mountPoint : MountPoint) :
    (Options.shipped workflows).enforces mountPoint = decide (mountPoint = .kRemote) := by
  rw [Options.enforces, initializeWorkflows_find]
  cases mountPoint <;> rfl

/-- Descriptors open before a run. -/
def KernelTable.ofInherited (inherited : Int32 → Bool) : KernelTable :=
  fun fd => if inherited fd then some .inherited else none

/-- Descriptor calls follow the last path opened onto the descriptor, and so the path of the
file it denotes whenever that file was opened by path. -/
theorem run_submits_lastOpened (workflows : MountPointWorkflows) (statCollection : Bool)
    (prng : Nat → UInt32) (inherited : Int32 → Bool) {calls : List PosixCall} {k : KernelTable}
    (hk : kernelRun calls (.ofInherited inherited) = some k) {f : Int32} (hf : 2 < f)
    {d : PosixCall} (hd : d.descriptor = some f) :
    let o : LdPreloadedPosix (.shipped workflows) := construct statCollection prng
    ((run (calls.map .call) o).2.submits d ↔
      ∃ path, lastOpened f calls = some path ∧
        MountPointTable.extractMountPoint (.shipped workflows) path = .kRemote) ∧
    ∀ path, k f = some (.opened path) →
      ((run (calls.map .call) o).2.submits d ↔
        MountPointTable.extractMountPoint (.shipped workflows) path = .kRemote) := by
  intro o
  have hr : (Options.shipped workflows).hardRemove = false := rfl
  have hempty : o.mountPointTable.getMountPointEntryFd f = none := by
    unfold MountPointTable.getMountPointEntryFd getEntry
    split <;> rfl
  have hm := run_mountPoint hr hk hf o
  rw [hempty, Option.map_none, Option.or_none] at hm
  have hsub : (run (calls.map .call) o).2.submits d ↔ ∃ path, lastOpened f calls = some path ∧
      MountPointTable.extractMountPoint (.shipped workflows) path = .kRemote := by
    rw [submits_descriptor hd]
    cases he : (run (calls.map .call) o).2.mountPointTable.getMountPointEntryFd f with
    | none =>
      rw [he, Option.map_none, eq_comm, Option.map_eq_none_iff] at hm
      simp [hm]
    | some e =>
      rw [he, Option.map_some, eq_comm, Option.map_eq_some_iff] at hm
      obtain ⟨path, hl, hmount⟩ := hm
      simp [hl, ← hmount, shipped_enforces]
  refine ⟨hsub, fun path hpath => ?_⟩
  rcases lastOpened_of_origin hk hf hpath with hl | ⟨-, hinherited⟩
  · rw [hsub, hl]
    simp
  · unfold KernelTable.ofInherited at hinherited
    split at hinherited <;> cases hinherited

theorem run_submits_lastOpened_reused :
    (run ([.«open» "/tmp/x".toList 0 3, .close 3 0, .«open» "/home/y".toList 0 3].map .call)
        freshSingle).2.submits (.read 3 0 16 16) = true ↔
      MountPointTable.extractMountPoint (.shipped .single) "/home/y".toList = .kRemote :=
  (run_submits_lastOpened .single true (fun _ => 0) (fun fd => 0 ≤ fd ∧ fd ≤ 2) rfl (by decide)
    rfl).2 _ rfl

end Origins

section Duplication

/-- `freshSingle` after opening a remote path onto descriptor 3. -/
def openedSingle : LdPreloadedPosix (Options.shipped .single) :=
  (step (.call (.«open» "/tmp/x".toList 0 3)) freshSingle).2

end Duplication

section Closing

/-- Closing a descriptor is submitted exactly when reading it is, and not when it is registered
outside the remote mount point. -/
def ClosesLikeReads (o : LdPreloadedPosix opts) (f : Int32) : Prop :=
  ∀ closed buf counter result,
    (o.submits (.close f closed) = true ↔ o.submits (.read f buf counter result) = true) ∧
      ∀ e, o.mountPointTable.getMountPointEntryFd f = some e → e.mountPoint = .kNone →
        o.submits (.close f closed) = false

/-- A file opened outside the remote mount point is closed by force. -/
theorem local_file_closed_by_force :
    ¬ ∀ (actions : List Action) (f : Int32),
      let o : LdPreloadedPosix (Options.shipped .single) := (run actions freshSingle).2
      2 < f → (o.mountPointTable.getMountPointEntryFd f).isSome → ClosesLikeReads o f := by
  intro h
  have hclose := h [.call (.«open» "/home/x".toList 0 3)] 3 (by decide) (by decide)
  obtain ⟨-, hbypassed⟩ := hclose 0 0 16 16
  have hsubmitted := hbypassed ⟨"/home/x".toList, .kNone, getMetadataUnit⟩ (by decide) rfl
  revert hsubmitted
  decide

/-- Where the regular choice finds no workflow, one is forced: every close is submitted. -/
theorem submits_close (o : LdPreloadedPosix opts) (f closed : Int32) :
    o.submits (.close f closed) = true := by
  rw [submits_eq, CallRecord.enforced_recordOf rfl]
  rfl

/-- In every state a run reaches, a registered descriptor is closed as it is read exactly if it
is registered under the remote mount point and workflows are chosen by mount point. -/
theorem run_closesLikeReads_iff (hdiff : opts.mountPointDifferentiationEnabled = true)
    (statCollection : Bool) (prng : Nat → UInt32) (actions : List Action) :
    let o : LdPreloadedPosix opts := (run actions (construct statCollection prng)).2
    ∀ f e, 2 < f → o.mountPointTable.getMountPointEntryFd f = some e →
      (ClosesLikeReads o f ↔
        opts.selectWorkflowByMetadataUnit = false ∧ e.mountPoint = .kRemote) := by
  intro o f e _ he
  have hread : ∀ buf counter result,
      o.submits (.read f buf counter result) = opts.enforces e.mountPoint := by
    intro buf counter result
    rw [submits_descriptor rfl, he, Option.any_some]
  rw [← Options.enforces_iff hdiff]
  constructor
  · intro h
    rw [← hread 0 0 0]
    exact (h 0 0 0 0).1.mp (submits_close o f 0)
  · intro henforces closed buf counter result
    refine ⟨?_, fun e' he' hnone => ?_⟩
    · rw [hread, submits_close, henforces]
    · obtain rfl : e = e' := Option.some.inj (he.symm.trans he')
      have hremote := ((Options.enforces_iff hdiff _).mp henforces).2
      rw [hnone] at hremote
      cases hremote

theorem run_closesLikeReads_iff_opened :
    ClosesLikeReads
      (run [.call (.«open» "/tmp/x".toList 0 3)] freshSingle).2 3 :=
  (run_closesLikeReads_iff rfl true (fun _ => 0) [.call (.«open» "/tmp/x".toList 0 3)] 3
    ⟨"/tmp/x".toList, .kRemote, getMetadataUnit⟩ (by decide) (by decide)).mpr ⟨rfl, rfl⟩

end Closing

end Padll
