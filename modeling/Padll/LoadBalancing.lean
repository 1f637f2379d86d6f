import Padll.LdPreloadedRuns

/-! Load balancing: two runs that differ in the generator alone stay equal in everything but
the workflow ids of their submissions, and those are registered in both. -/
namespace Padll
open LdPreloadedPosix
variable {opts : Options}

section Selection

/-- A choice that finds a workflow takes it from a registered list. -/
private theorem select_mem {t : MountPointTable opts} {mountPoint : MountPoint}
    (h : (t.selectWorkflowFromMountpoint mountPoint).1 ≠ noWorkflow) :
    ∃ ids, (initializeWorkflows opts).find mountPoint = some ids ∧
      (t.selectWorkflowFromMountpoint mountPoint).1 ∈ ids := by
  have hspec := t.selectWorkflowFromMountpoint_spec mountPoint
  cases hfind : (initializeWorkflows opts).find mountPoint with
  | none =>
    rw [hfind] at hspec
    exact absurd hspec h
  | some ids =>
    rw [hfind] at hspec
    exact ⟨ids, rfl, hspec⟩

/-- Ids that the table was initialized with. -/
def Options.registered (opts : Options) (id : UInt32) : Prop :=
  ∃ mountPoint ids, (initializeWorkflows opts).find mountPoint = some ids ∧ id ∈ ids

private theorem pickWorkflowIdEntry_registered {t : MountPointTable opts}
    {entry : Option MountPointEntry} (h : (t.pickWorkflowIdEntry entry).1 ≠ noWorkflow) :
    opts.registered (t.pickWorkflowIdEntry entry).1 := by
  cases entry with
  | none => exact absurd rfl h
  | some e =>
    cases hs : opts.selectWorkflowByMetadataUnit with
    | true => exact absurd (by simp [MountPointTable.pickWorkflowIdEntry, hs,
        MountPointTable.selectWorkflowFromMetadataUnit]) h
    | false =>
      have heq : (t.pickWorkflowIdEntry (some e)).1 =
          (t.selectWorkflowFromMountpoint e.mountPoint).1 := by
        simp [MountPointTable.pickWorkflowIdEntry, hs]
      rw [heq] at h ⊢
      exact ⟨_, select_mem h⟩

/-- Whatever a selection finds is registered. -/
theorem choose_registered {t : MountPointTable opts} {selection : Selection}
    (h : (choose t selection).1 ≠ noWorkflow) : opts.registered (choose t selection).1 := by
  cases selection with
  | path path =>
    cases hs : opts.selectWorkflowByMetadataUnit with
    | true => exact absurd (by simp [choose, MountPointTable.pickWorkflowIdPath, hs,
        MountPointTable.selectWorkflowFromMetadataUnit]) h
    | false =>
      have heq : (choose t (.path path)).1 =
          (t.selectWorkflowFromMountpoint (MountPointTable.extractMountPoint opts path)).1 := by
        simp only [choose, MountPointTable.pickWorkflowIdPath, hs, Bool.false_eq_true, if_false]
        rfl
      rw [heq] at h ⊢
      exact ⟨_, select_mem h⟩
  | descriptor fd => exact pickWorkflowIdEntry_registered h
  | closing fd =>
    by_cases hfd : (t.pickWorkflowIdFd fd).1 = noWorkflow
    · rw [choose, if_pos hfd] at h ⊢
      exact ⟨_, select_mem h⟩
    · rw [choose, if_neg hfd] at h ⊢
      exact pickWorkflowIdEntry_registered h
  | stream stream => exact pickWorkflowIdEntry_registered h

theorem registered_shipped {workflows : MountPointWorkflows} {id : UInt32}
    (h : (Options.shipped workflows).registered id) :
    ∃ i : Nat, 1 ≤ i ∧ (i : Int) ≤ workflows.numWorkflows ∧ id.toNat = 1000 * i := by
  obtain ⟨mountPoint, ids, hfind, hmem⟩ := h
  rw [initializeWorkflows_find] at hfind
  split at hfind
  · split at hfind
    · obtain rfl := Option.some.inj hfind
      exact workflows.mem_remote hmem
    · cases hfind
  · next hoff => exact absurd rfl hoff

end Selection

section Lockstep

/-- Equal in everything but the state of the generator. -/
structure SameUpToPrng (o o' : LdPreloadedPosix opts) : Prop where
  collect : o'.collect = o.collect
  hooked : o'.hooked = o.hooked
  stats : o'.stats = o.stats
  entries : o.mountPointTable.SameEntries o'.mountPointTable

/-- Submissions that differ at most in the workflow, which is registered in both. -/
structure SameUpToWorkflow (opts : Options) (s s' : Submission) : Prop where
  operationType : s'.operationType = s.operationType
  operationContext : s'.operationContext = s.operationContext
  operationSize : s'.operationSize = s.operationSize
  left : opts.registered s.workflowId
  right : opts.registered s'.workflowId

/-- Records of one call in two runs: the same answer to the caller, and submissions that
differ at most in the workflow. -/
structure SameCall (opts : Options) (r r' : CallRecord) : Prop where
  call : r'.call = r.call
  returned : r'.returned = r.returned
  submissions : List.Forall₂ (SameUpToWorkflow opts) r.submissions r'.submissions

private theorem controls_congr {t t' : MountPointTable opts} (h : t.SameEntries t')
    (selection : Selection) : t'.controls selection = t.controls selection := by
  cases selection with
  | path path => rfl
  | descriptor fd =>
    simp only [MountPointTable.controls, MountPointTable.getMountPointEntryFd, h.fd]
  | closing fd => rfl
  | stream stream =>
    simp only [MountPointTable.controls, MountPointTable.getMountPointEntryPtr, h.ptr]

private theorem counted_congr {t t' : MountPointTable opts} (h : t.SameEntries t') (p : Profile) :
    p.counted t' = p.counted t := by
  unfold Profile.counted
  cases p.control with
  | submitted selection operationType operationContext payload => exact controls_congr h selection
  | unsubmitted enforced => rfl

private theorem settle_congr {t t' : MountPointTable opts} (h : t.SameEntries t')
    (effect : TableEffect) : (settle t effect).SameEntries (settle t' effect) := by
  obtain ⟨hfd, hptr⟩ := h
  cases effect with
  | keep => exact ⟨hfd, hptr⟩
  | openFd fd path =>
    simp only [settle, MountPointTable.createMountPointEntryFd]
    exact ⟨by rw [hfd], hptr⟩
  | openStream fptr path =>
    simp only [settle, MountPointTable.createMountPointEntryPtr]
    exact ⟨hfd, by rw [hptr]⟩
  | closeFd fd =>
    unfold settle
    cases opts.hardRemove with
    | false => exact ⟨hfd, hptr⟩
    | true => exact ⟨congrArg (fun table => (removeEntry isFileDescriptorValid table fd).2) hfd, hptr⟩
  | closeStream stream =>
    exact ⟨hfd, congrArg (fun table => (removeEntry isFilePointerValid table stream).2) hptr⟩
  | duplicate fd result =>
    refine ⟨?_, ?_⟩
    · simp only [settle, MountPointTable.replaceFileDescriptor_table, hfd]
    · simp only [settle, MountPointTable.replaceFileDescriptor_ptr, hptr]

private theorem submissions_congr {t t' : MountPointTable opts} (h : t.SameEntries t')
    (p : Profile) : List.Forall₂ (SameUpToWorkflow opts) (p.submissions t) (p.submissions t') := by
  unfold Profile.submissions
  cases p.control with
  | unsubmitted enforced => exact .nil
  | submitted selection operationType operationContext payload =>
    have hc := controls_congr h selection
    cases hs : t.controls selection with
    | false =>
      rw [hs] at hc
      simp [hs, hc]
    | true =>
      rw [hs] at hc
      simp only [hs, hc, if_true]
      exact .cons ⟨rfl, rfl, rfl, choose_registered ((choose_ne t selection).mpr hs),
        choose_registered ((choose_ne t' selection).mpr hc)⟩ .nil

theorem SameEntries.symm_trans {t t' u u' : MountPointTable opts} (h : t.SameEntries t')
    (hu : t.SameEntries u) (hu' : t'.SameEntries u') : u.SameEntries u' :=
  ⟨hu'.fd.trans (h.fd.trans hu.fd.symm), hu'.ptr.trans (h.ptr.trans hu.ptr.symm)⟩

private theorem after_congr {o o' : LdPreloadedPosix opts} (h : SameUpToPrng o o')
    (c : PosixCall) : SameUpToPrng (after c o) (after c o') := by
  obtain ⟨hcollect, hhooked, hstats, hentries⟩ := h
  refine ⟨hcollect, ?_, ?_, settle_congr ?_ _⟩
  · simp only [after, hhooked]
  · simp only [after, hcollect, hstats, Profile.update, counted_congr hentries]
  · exact SameEntries.symm_trans hentries (c.profile.chosen_same _) (c.profile.chosen_same _)

/-- One step keeps the two objects together. -/
private theorem step_congr {o o' : LdPreloadedPosix opts} (h : SameUpToPrng o o') (a : Action) :
    List.Forall₂ (SameCall opts) (step a o).1 (step a o').1 ∧
      SameUpToPrng (step a o).2 (step a o').2 := by
  cases a with
  | setStatisticCollection value => exact ⟨.nil, rfl, h.hooked, h.stats, h.entries⟩
  | call c =>
    rw [step_call, step_call]
    refine ⟨.cons ⟨rfl, rfl, ?_⟩ .nil, after_congr h c⟩
    rw [CallRecord.submissions_recordOf, CallRecord.submissions_recordOf]
    exact submissions_congr h.entries c.profile

/-- Runs from objects that differ in the generator alone keep tables, statistics and answers
equal, and submit the same requests up to a registered workflow id. -/
theorem run_sameUpToPrng {workflowsEnv : Option (List Char)} {n : Int}
    (accepted : optionPadllWorkflows workflowsEnv = .ok n) (small : 1000 * n < 2^31)
    {o o' : LdPreloadedPosix (.shipped (.ofCount n (optionPadllWorkflows_pos accepted) small))}
    (h : SameUpToPrng o o') (actions : List Action) :
    SameUpToPrng (run actions o).2 (run actions o').2 ∧
      List.Forall₂ (fun r r' : CallRecord => r'.call = r.call ∧ r'.returned = r.returned ∧
        List.Forall₂ (fun s s' : Submission =>
          s'.operationType = s.operationType ∧ s'.operationContext = s.operationContext ∧
          s'.operationSize = s.operationSize ∧
          (∃ i : Nat, 1 ≤ i ∧ (i : Int) ≤ n ∧ s.workflowId.toNat = 1000 * i) ∧
          ∃ i : Nat, 1 ≤ i ∧ (i : Int) ≤ n ∧ s'.workflowId.toNat = 1000 * i)
          r.submissions r'.submissions)
        (run actions o).1 (run actions o').1 := by
  obtain ⟨hrecords, hend⟩ := OutputMachine.run_lockstep
    (fun a _ _ hs => step_congr hs a) actions h
  refine ⟨hend, hrecords.imp fun r r' hr => ⟨hr.call, hr.returned, hr.submissions.imp ?_⟩⟩
  intro s s' hs
  exact ⟨hs.operationType, hs.operationContext, hs.operationSize, registered_shipped hs.left,
    registered_shipped hs.right⟩

/-- Objects constructed over two generators differ in nothing else. -/
theorem construct_sameUpToPrng (collect : Bool) (prng prng' : Nat → UInt32) :
    SameUpToPrng (construct collect prng : LdPreloadedPosix opts) (construct collect prng') :=
  ⟨rfl, rfl, rfl, rfl, rfl⟩

private theorem two_accepted : optionPadllWorkflows (some "2".toList) = .ok 2 := rfl

theorem run_sameUpToPrng_seeds :
    SameUpToPrng
      (run [.call (.«open» "/tmp/x".toList 0 3), .call (.close 4 0)]
        (construct true (fun _ => 0) : LdPreloadedPosix
          (.shipped (.ofCount 2 (optionPadllWorkflows_pos two_accepted) (by decide))))).2
      (run [.call (.«open» "/tmp/x".toList 0 3), .call (.close 4 0)]
        (construct true fun n => n.toUInt32)).2 :=
  (run_sameUpToPrng two_accepted (by decide)
    (construct_sameUpToPrng true (fun _ => 0) fun n => n.toUInt32)
    [.call (.«open» "/tmp/x".toList 0 3), .call (.close 4 0)]).1

end Lockstep

end Padll
