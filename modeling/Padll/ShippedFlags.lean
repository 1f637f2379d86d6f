import Padll.FileSystemRuns
import Padll.LoadBalancing

/-! The library as it is shipped: `open` is intercepted and nothing else, so that requests come
from `open` alone and no `close` reaches the table of descriptors. -/
namespace Padll
variable {opts : Options}

namespace InterposedRecord

/-- The path and the answer of an `open` that was made on the loaded backend. -/
def enforcedOpen (r : InterposedRecord opts) : Option (Path × Int32) :=
  match r.call with
  | .opening (.«open» path _ _) fd => if r.before.ldpLoaded then some (path, fd) else none
  | _ => none

/-- What a call registers for a descriptor. -/
def registers (fd : Int32) (r : InterposedRecord opts) : Option MountPointEntry :=
  r.enforcedOpen.bind fun (path, result) =>
    if fd = result ∧ 2 < result then
      some ⟨path, MountPointTable.extractMountPoint opts path, LdPreloadedPosix.getMetadataUnit⟩
    else none

end InterposedRecord

namespace PosixFileSystem

section Shipped
variable {c : InterposedCall} {fs : PosixFileSystem opts}

private theorem flag_shipped (c : InterposedCall) :
    c.flag .shipped = match c with | .opening (.«open» ..) _ => true | _ => false := by
  cases c with
  | opening call fd =>
    cases call with
    | «open» path flags mode =>
      rw [InterposedCall.flag, InterposedCall.method]
      split <;> rfl
    | openat dirfd path flags mode | open64 path flags mode =>
      rw [InterposedCall.flag, InterposedCall.method]
      split <;> rfl
  | direct call fixed =>
    cases call with
    | openVariadic | «open» | openatVariadic | openat | open64Variadic | open64 => cases fixed
    | _ => rfl

/-- The enforcing backend serves `open` once loaded, and duplications. -/
private theorem enforcing_shipped (r : InterposedRecord opts) :
    r.enforcing .shipped =
      (decide (r.call.method.operation = .special .fcntl) || r.enforcedOpen.isSome) := by
  have henforcing : r.enforcing .shipped = (decide (r.call.method.operation = .special .fcntl) ||
      r.call.flag .shipped && r.before.ldpLoaded) := rfl
  rw [henforcing, flag_shipped, InterposedRecord.enforcedOpen]
  split
  · split <;> simp [*]
  · rfl

private theorem profile_of_enforcedOpen {r : InterposedRecord opts} {path : Path} {result : Int32}
    (h : r.enforcedOpen = some (path, result)) :
    r.call.method.profile.control = .submitted (.path path) .«open» .metaOp 1 ∧
      r.call.method.profile.effect = .openFd result path := by
  unfold InterposedRecord.enforcedOpen at h
  split at h
  · next hcall =>
    obtain ⟨-, h⟩ := Option.ite_none_right_eq_some.mp h
    obtain ⟨rfl, rfl⟩ := Prod.mk.inj (Option.some.inj h)
    rw [hcall, InterposedCall.method]
    split <;> exact ⟨rfl, rfl⟩
  · cases h

/-- What the enforcing backend serves shows the submissions and the table of its method. -/
theorem recordOf_enforcing {intercept : InterceptedCalls}
    (h : (recordOf intercept c fs).enforcing intercept = true) :
    (recordOf intercept c fs).submissions =
        c.method.profile.submissions fs.ldPreloadedPosix.mountPointTable ∧
      (recordOf intercept c fs).after.object.ldPreloadedPosix =
        LdPreloadedPosix.after c.method fs.ldPreloadedPosix := by
  have hstep := LdPreloadedPosix.step_call c.method fs.ldPreloadedPosix
  rw [LdPreloadedPosix.step] at hstep
  have hevents := congrArg (·.1.map CallRecord.events) hstep
  have hobject := congrArg Prod.snd hstep
  rw [← CallRecord.submissions_recordOf, InterposedRecord.submissions, recordOf,
    perform_enforcing h]
  exact ⟨congrArg (List.filterMap Event.submission?) (List.cons.inj hevents).1, hobject⟩

/-- What the passthrough backend serves submits nothing and leaves the table alone. -/
theorem recordOf_passing {intercept : InterceptedCalls}
    (h : ¬ (recordOf intercept c fs).enforcing intercept = true) :
    (recordOf intercept c fs).submissions = [] ∧
      (recordOf intercept c fs).after.object.ldPreloadedPosix = fs.ldPreloadedPosix := by
  rw [InterposedRecord.submissions, recordOf, perform_passing h, onPassthrough,
    PosixPassthrough.performs]
  exact ⟨rfl, rfl⟩

/-- Only an `open` on the loaded backend submits, for its path. -/
private theorem submissions_shipped (c : InterposedCall) (fs : PosixFileSystem opts) :
    (recordOf .shipped c fs).submissions =
      match (recordOf .shipped c fs).enforcedOpen with
      | some (path, _) =>
        if fs.ldPreloadedPosix.mountPointTable.controls (.path path) then
          [⟨(choose fs.ldPreloadedPosix.mountPointTable (.path path)).1, .«open», .metaOp, 1⟩]
        else []
      | none => [] := by
  have henforcing := enforcing_shipped (recordOf .shipped c fs)
  cases hopen : (recordOf .shipped c fs).enforcedOpen with
  | some opened =>
    rw [hopen, Option.isSome_some, Bool.or_true] at henforcing
    have hcontrol : c.method.profile.control = _ := (profile_of_enforcedOpen hopen).1
    rw [(recordOf_enforcing henforcing).1, Profile.submissions, hcontrol]
    rfl
  | none =>
    rw [hopen, Option.isSome_none, Bool.or_false] at henforcing
    by_cases hfcntl : c.method.operation = .special .fcntl
    · have hserved : (recordOf .shipped c fs).enforcing .shipped = true :=
        henforcing.trans (decide_eq_true hfcntl)
      rw [(recordOf_enforcing hserved).1, Profile.submissions]
      cases hmethod : c.method with
      | fcntl fd cmd arg resultValue => rfl
      | _ => simp [hmethod, PosixCall.operation] at hfcntl
    · refine (recordOf_passing ?_).1
      rw [henforcing]
      exact fun h => hfcntl (of_decide_eq_true h)

/-- The entries of descriptors after a call other than `fcntl`. -/
private theorem entry_shipped {c : InterposedCall}
    (hfcntl : c.method.operation ≠ .special .fcntl) (fs : PosixFileSystem opts) (fd : Int32) :
    let after := (recordOf .shipped c fs).after.object.ldPreloadedPosix.mountPointTable
    after.getMountPointEntryFd fd = ((recordOf .shipped c fs).registers fd).or
      (fs.ldPreloadedPosix.mountPointTable.getMountPointEntryFd fd) := by
  intro after
  have henforcing := enforcing_shipped (recordOf .shipped c fs)
  rw [decide_eq_false (show (recordOf .shipped c fs).call.method.operation ≠ _ from hfcntl),
    Bool.false_or] at henforcing
  rw [InterposedRecord.registers]
  cases hopen : (recordOf .shipped c fs).enforcedOpen with
  | some opened =>
    obtain ⟨path, result⟩ := opened
    rw [hopen, Option.isSome_some] at henforcing
    have heffect : c.method.profile.effect = .openFd result path :=
      (profile_of_enforcedOpen hopen).2
    have hsame := c.method.profile.chosen_same fs.ldPreloadedPosix.mountPointTable
    have hchosen :
        (c.method.profile.chosen fs.ldPreloadedPosix.mountPointTable).getMountPointEntryFd fd =
          fs.ldPreloadedPosix.mountPointTable.getMountPointEntryFd fd := by
      rw [MountPointTable.getMountPointEntryFd, hsame.fd]
      rfl
    rw [show after = settle _ c.method.profile.effect from
      congrArg (·.mountPointTable) (recordOf_enforcing henforcing).2, getMountPointEntryFd_settle,
      heffect, Option.bind_some, hchosen]
    by_cases hfd : fd = result ∧ 2 < result
    · simp [hfd]
    · simp [hfd]
  | none =>
    rw [hopen, Option.isSome_none] at henforcing
    have hpassed := (recordOf_passing (Bool.not_eq_true _ ▸ henforcing)).2
    rw [show after = _ from congrArg (·.mountPointTable) hpassed]
    rfl

/-- Every record of a run is the record of its call on some objects. -/
private theorem run_recordOf (intercept : InterceptedCalls) (actions : List FileSystemAction)
    (fs : PosixFileSystem opts) :
    ∀ r ∈ (run intercept actions fs).1, ∃ s : PosixFileSystem opts,
      r = recordOf intercept r.call s := by
  refine OutputMachine.run_outputs (I := fun _ => True) (fun _ _ _ => trivial) ?_ actions trivial
  intro a s _ r hr
  cases a with
  | call c =>
    obtain rfl := List.mem_singleton.mp hr
    exact ⟨s, rfl⟩
  | setLoaded value => cases hr

/-- The shipped library submits one request for every `open` of a path with the remote mount point
in it, made once it is loaded, and no other request in any run. -/
theorem run_shipped_submissions {workflows : MountPointWorkflows} (actions : List FileSystemAction)
    (fs : PosixFileSystem (Options.shipped workflows)) :
    ∀ r ∈ (run .shipped actions fs).1,
      (r.submissions ≠ [] ↔
        ∃ path fd, r.enforcedOpen = some (path, fd) ∧ "/tmp".toList <:+: path) ∧
      ∀ s ∈ r.submissions, r.submissions = [s] ∧
        (Options.shipped workflows).registered s.workflowId ∧
          s.operationType = .«open» ∧ s.operationContext = .metaOp ∧ s.operationSize = 1 := by
  intro r hr
  obtain ⟨o, ho⟩ := run_recordOf .shipped actions fs r hr
  have hsubmissions := submissions_shipped r.call o
  rw [← ho] at hsubmissions
  rw [hsubmissions]
  cases hopen : r.enforcedOpen with
  | none => simp
  | some opened =>
    obtain ⟨path, fd⟩ := opened
    have hremote : o.ldPreloadedPosix.mountPointTable.controls (.path path) = true ↔
        "/tmp".toList <:+: path := by
      rw [MountPointTable.controls, Options.enforces_iff rfl,
        MountPointTable.extractMountPoint_kRemote_iff]
      exact ⟨fun h => h.2.2, fun h => ⟨rfl, rfl, h⟩⟩
    by_cases hcontrols : o.ldPreloadedPosix.mountPointTable.controls (.path path) = true
    · simp only [hcontrols, if_true]
      refine ⟨iff_of_true (List.cons_ne_nil _ _) ⟨path, fd, rfl, hremote.mp hcontrols⟩, ?_⟩
      intro s hs
      obtain rfl := List.mem_singleton.mp hs
      exact ⟨rfl, choose_registered ((choose_ne _ _).mpr hcontrols), rfl, rfl, rfl⟩
    · simp only [hcontrols]
      refine ⟨iff_of_false (fun h => h rfl) ?_, List.forall_mem_nil _⟩
      rintro ⟨path', fd', h, hin⟩
      obtain ⟨rfl, rfl⟩ := Prod.mk.inj (Option.some.inj h)
      exact hcontrols (hremote.mpr hin)

/-- The first `open` of a remote path is submitted. -/
theorem run_shipped_submissions_opened :
    let opening : InterposedCall := .opening (.«open» "/tmp/x".toList 0 0) 3
    (recordOf .shipped opening
      (⟨{}, true, freshSingle⟩ : PosixFileSystem (Options.shipped .single))).submissions ≠ [] :=
  (run_shipped_submissions [.call (.opening (.«open» "/tmp/x".toList 0 0) 3)]
    ⟨{}, true, freshSingle⟩ _ List.mem_cons_self).1.mpr
      ⟨"/tmp/x".toList, 3, rfl, [], "/x".toList, rfl⟩

/-- No `close` reaches the shipped library: over a run without `fcntl` the entry of a descriptor
is that of the last `open` that answered it, whatever was closed since. -/
theorem run_shipped_registrations {actions : List FileSystemAction}
    (hfcntl : ∀ c, .call c ∈ actions → c.method.operation ≠ .special .fcntl)
    (fs : PosixFileSystem opts) (fd : Int32) :
    (run .shipped actions fs).2.ldPreloadedPosix.mountPointTable.getMountPointEntryFd fd =
      ((run .shipped actions fs).1.reverse.findSome? (·.registers fd)).or
        (fs.ldPreloadedPosix.mountPointTable.getMountPointEntryFd fd) := by
  induction actions generalizing fs with
  | nil => rfl
  | cons a actions ih =>
    have hrest := fun c hc => hfcntl c (List.mem_cons_of_mem a hc)
    cases a with
    | setLoaded value => exact ih hrest _
    | call c =>
      rw [run_call_cons, List.reverse_cons, List.findSome?_append, Option.or_assoc]
      refine (ih hrest _).trans (congrArg (Option.or _) ?_)
      have hentry := entry_shipped (hfcntl c List.mem_cons_self) fs fd
      cases hregisters : (recordOf .shipped c fs).registers fd <;>
        simpa [hregisters] using hentry

/-- A descriptor keeps its path over a `close` and its reuse by a socket. -/
theorem run_shipped_registrations_reused :
    let actions := [.call (.opening (.«open» "/tmp/x".toList 0 0) 3),
      .call (.direct (.close 3 0) rfl), .call (.direct (.socket 2 1 0 3) rfl)]
    let outcome := run .shipped actions
      (⟨{}, true, freshSingle⟩ : PosixFileSystem (Options.shipped .single))
    outcome.2.ldPreloadedPosix.mountPointTable.getMountPointEntryFd 3 =
      (outcome.1.reverse.findSome? (·.registers 3)).or none := by
  refine run_shipped_registrations (fun c hc => ?_) _ 3
  simp only [List.mem_cons, FileSystemAction.call.injEq, List.not_mem_nil, or_false] at hc
  obtain rfl | rfl | rfl := hc <;> decide

end Shipped

end PosixFileSystem

end Padll
