import Mathlib.Data.Nat.Count
import Mathlib.Data.Int.CardIntervalMod
import Padll.LdPreloadedRuns
import Padll.Xoshiro

/-! Where the values of the generator go: one to each submitted request, in order, and over a
period of the generator almost equally often to each workflow. -/
namespace Padll
open LdPreloadedPosix Xoshiro128StarStar
variable {opts : Options}

/-- The workflows of the one mount point that is registered. -/
def Options.liveWorkflows (opts : Options) : List UInt32 :=
  if opts.mountPointDifferentiationEnabled then opts.workflows.defaultRemoteMountPointWorkflows
  else defaultMountPointWorkflows

/-- The workflow that a value of the generator stands for. -/
def Options.drawn (opts : Options) (value : UInt32) : UInt32 :=
  opts.liveWorkflows.getD (value.toNat % opts.liveWorkflows.length) noWorkflow

section Draws

/-- A choice from a table took the next value if it found a workflow, and none otherwise. -/
def Drawn (t : MountPointTable opts) (chosen : UInt32 × MountPointTable opts) : Prop :=
  (chosen.1 = noWorkflow → chosen.2.prng = t.prng) ∧
    (chosen.1 ≠ noWorkflow →
      chosen.1 = opts.drawn (t.prng 0) ∧ chosen.2.prng = fun n => t.prng (n + 1))

private theorem drawn_untouched (t : MountPointTable opts) : Drawn t (noWorkflow, t) :=
  ⟨fun _ => rfl, fun h => absurd rfl h⟩

private theorem liveWorkflows_of_find {mountPoint : MountPoint} {ids : List UInt32}
    (h : (initializeWorkflows opts).find mountPoint = some ids) : opts.liveWorkflows = ids := by
  rw [initializeWorkflows_find] at h
  unfold Options.liveWorkflows
  split_ifs at h ⊢ <;> exact Option.some.inj h

private theorem select_drawn (t : MountPointTable opts) (mountPoint : MountPoint) :
    Drawn t (t.selectWorkflowFromMountpoint mountPoint) := by
  have hne := t.selectWorkflowFromMountpoint_ne mountPoint
  cases hfind : (initializeWorkflows opts).find mountPoint with
  | none =>
    have hselect : t.selectWorkflowFromMountpoint mountPoint = (noWorkflow, t) := by
      simp only [MountPointTable.selectWorkflowFromMountpoint, t.initialized, hfind]
    rw [hselect]
    exact drawn_untouched t
  | some ids =>
    have hselect : t.selectWorkflowFromMountpoint mountPoint =
        (opts.drawn (t.prng 0), { t with prng := fun n => t.prng (n + 1) }) := by
      simp only [MountPointTable.selectWorkflowFromMountpoint, t.initialized, hfind,
        Options.drawn, liveWorkflows_of_find hfind]
    rw [hfind] at hne
    rw [hselect] at hne ⊢
    exact ⟨fun h => absurd h (hne.mpr rfl), fun _ => ⟨rfl, rfl⟩⟩

private theorem pickWorkflowIdEntry_drawn (t : MountPointTable opts)
    (entry : Option MountPointEntry) : Drawn t (t.pickWorkflowIdEntry entry) := by
  cases entry with
  | none => exact drawn_untouched t
  | some e =>
    unfold MountPointTable.pickWorkflowIdEntry
    cases opts.selectWorkflowByMetadataUnit with
    | true => exact drawn_untouched t
    | false => exact select_drawn t e.mountPoint

private theorem choose_drawn (t : MountPointTable opts) (selection : Selection) :
    Drawn t (choose t selection) := by
  cases selection with
  | path path =>
    unfold choose MountPointTable.pickWorkflowIdPath
    cases opts.selectWorkflowByMetadataUnit with
    | true => exact drawn_untouched t
    | false => exact select_drawn t _
  | descriptor fd => exact pickWorkflowIdEntry_drawn t _
  | closing fd =>
    have hfd := pickWorkflowIdEntry_drawn t (t.getMountPointEntryFd fd)
    by_cases h : (t.pickWorkflowIdFd fd).1 = noWorkflow
    · -- the regular choice took no value, so the forced one takes the first
      have hsame : (t.pickWorkflowIdFd fd).2.prng = t.prng := hfd.1 h
      have hforce := select_drawn (t.pickWorkflowIdFd fd).2
        (if opts.mountPointDifferentiationEnabled then .kRemote else .kNone)
      rw [choose, if_pos h]
      unfold Drawn at hforce ⊢
      rw [hsame] at hforce
      exact hforce
    · rw [choose, if_neg h]
      exact hfd
  | stream stream => exact pickWorkflowIdEntry_drawn t _

private theorem settle_prng (t : MountPointTable opts) (effect : TableEffect) :
    (settle t effect).prng = t.prng := by
  cases effect with
  | keep => rfl
  | openFd fd path => rfl
  | openStream fptr path => rfl
  | closeFd fd =>
    unfold settle
    cases opts.hardRemove <;> rfl
  | closeStream stream => rfl
  | duplicate fd result =>
    change (t.replaceFileDescriptor fd result).2.prng = t.prng
    unfold MountPointTable.replaceFileDescriptor
    split
    · rfl
    · split <;> rfl

/-- What a call submits carries the next values, and the generator has moved past them. -/
private theorem submissions_drawn (p : Profile) (t : MountPointTable opts) :
    (p.submissions t).map (·.workflowId) =
        (List.range (p.submissions t).length).map (fun n => opts.drawn (t.prng n)) ∧
      (p.chosen t).prng = fun n => t.prng (n + (p.submissions t).length) := by
  unfold Profile.submissions Profile.chosen
  cases p.control with
  | unsubmitted enforced => exact ⟨rfl, rfl⟩
  | submitted selection operationType operationContext payload =>
    have hdrawn := choose_drawn t selection
    have hcontrols := choose_ne t selection
    by_cases h : (choose t selection).1 = noWorkflow
    · have hc : ¬ t.controls selection = true := fun hc => hcontrols.mpr hc h
      simp only [if_neg hc]
      exact ⟨rfl, hdrawn.1 h⟩
    · obtain ⟨hvalue, hmoved⟩ := hdrawn.2 h
      simp only [if_pos (hcontrols.mp h)]
      exact ⟨congrArg (fun id => [id]) hvalue, hmoved⟩

end Draws

section Runs

/-- The workflow ids that the requests of a run were submitted under, in order. -/
def workflowsOf (records : List CallRecord) : List UInt32 :=
  (records.flatMap CallRecord.submissions).map (·.workflowId)

/-- In every run the requests take the values of the generator one by one, in the order of
submission, and nothing else takes any. -/
private theorem run_drawn (actions : List Action) (o : LdPreloadedPosix opts) :
    workflowsOf (run actions o).1 = (List.range (workflowsOf (run actions o).1).length).map
        (fun n => opts.drawn (o.mountPointTable.prng n)) ∧
      (run actions o).2.mountPointTable.prng =
        fun n => o.mountPointTable.prng (n + (workflowsOf (run actions o).1).length) := by
  induction actions generalizing o with
  | nil => exact ⟨rfl, rfl⟩
  | cons a actions ih =>
    cases a with
    | setStatisticCollection value => exact ih { o with collect := value }
    | call c =>
      obtain ⟨hids, hmoved⟩ := submissions_drawn c.profile o.mountPointTable
      obtain ⟨ihids, ihmoved⟩ := ih (after c o)
      have hprng : (after c o).mountPointTable.prng =
          fun n => o.mountPointTable.prng
            (n + (c.profile.submissions o.mountPointTable).length) :=
        (settle_prng _ _).trans hmoved
      have hsplit : workflowsOf (run (.call c :: actions) o).1 =
          (c.profile.submissions o.mountPointTable).map (·.workflowId) ++
            workflowsOf (run actions (after c o)).1 := by
        rw [workflowsOf, run_call_cons, List.flatMap_cons, List.map_append,
          CallRecord.submissions_recordOf]
        rfl
      rw [hprng] at ihids ihmoved
      rw [hsplit, List.length_append, List.length_map, run_call_cons, ihmoved]
      constructor
      · rw [List.range_add, List.map_append, ← hids, List.map_map, ihids]
        simp only [List.length_map, List.length_range, Function.comp_def, Nat.add_comm]
      · funext n
        exact congrArg o.mountPointTable.prng (by omega)

/-- The process seeds its generator with its id: the requests of every run from there carry the
workflows that the generator names, and leave it after as many calls as requests. -/
theorem run_workflowIds (collect : Bool) (seed : UInt64) (actions : List Action) :
    let final := run actions (construct collect (ofSeed seed).stream : LdPreloadedPosix opts)
    workflowsOf final.1 = (List.range (workflowsOf final.1).length).map
        (fun n => opts.drawn ((ofSeed seed).stream n)) ∧
      final.2.mountPointTable.prng =
        (advance^[(workflowsOf final.1).length] (ofSeed seed)).stream := by
  intro final
  obtain ⟨hids, hmoved⟩ := run_drawn actions
    (construct collect (ofSeed seed).stream : LdPreloadedPosix opts)
  refine ⟨hids, hmoved.trans ?_⟩
  funext n
  exact congrArg (fun g => g.next.1) (Function.iterate_add_apply advance n _ (ofSeed seed))

end Runs

section Balance

/-- What the selection after `k` others under the same mount point finds. -/
def MountPointTable.selection (t : MountPointTable opts) (mountPoint : MountPoint) (k : Nat) :
    UInt32 :=
  (((fun t' : MountPointTable opts =>
    (t'.selectWorkflowFromMountpoint mountPoint).2)^[k] t).selectWorkflowFromMountpoint
      mountPoint).1

private theorem selection_eq {mountPoint : MountPoint}
    (h : ((initializeWorkflows opts).find mountPoint).isSome) (t : MountPointTable opts) (k : Nat) :
    t.selection mountPoint k = opts.drawn (t.prng k) := by
  have hnext (t' : MountPointTable opts) :=
    (select_drawn t' mountPoint).2 ((t'.selectWorkflowFromMountpoint_ne mountPoint).mpr h)
  induction k generalizing t with
  | zero => exact (hnext t).1
  | succ k ih =>
    have hstep := ih (t.selectWorkflowFromMountpoint mountPoint).2
    rw [(hnext t).2] at hstep
    exact hstep

/-- Words by their residue: the first ones get the words of the last, incomplete block. -/
private theorem card_residue {n i : Nat} (hi : i < n) :
    (Finset.univ.filter fun u : UInt32 => u.toNat % n = i).card =
      2 ^ 32 / n + if i < 2 ^ 32 % n then 1 else 0 := by
  have hrange : (Finset.univ.filter fun u : UInt32 => u.toNat % n = i).card =
      ((Finset.range (2 ^ 32)).filter fun v => v ≡ i [MOD n]).card := by
    apply Finset.card_nbij UInt32.toNat
    · intro u hu
      have hu := (Finset.mem_filter.mp hu).2
      refine Finset.mem_filter.mpr ⟨Finset.mem_range.mpr u.toNat_lt, ?_⟩
      rw [Nat.ModEq, hu, Nat.mod_eq_of_lt hi]
    · exact fun u _ v _ heq => UInt32.toNat_inj.mp heq
    · intro v hv
      obtain ⟨hlt, hmod⟩ := Finset.mem_filter.mp hv
      have hvalue : (UInt32.ofNat v).toNat = v := by
        rw [UInt32.toNat_ofNat', Nat.mod_eq_of_lt (Finset.mem_range.mp hlt)]
      rw [Nat.ModEq, Nat.mod_eq_of_lt hi] at hmod
      refine ⟨UInt32.ofNat v, Finset.mem_filter.mpr ⟨Finset.mem_univ _, ?_⟩, hvalue⟩
      rw [hvalue, hmod]
  rw [hrange, ← Nat.count_eq_card_filter_range, Nat.count_modEq_card _ (by omega),
    Nat.mod_eq_of_lt hi]

private theorem drawn_shipped {n : Int} (accepted : 0 < n) (small : 1000 * n < 2^31)
    (value : UInt32) : ((Options.shipped (.ofCount n accepted small)).drawn value).toNat =
      1000 * (value.toNat % n.toNat + 1) := by
  have hlt := Nat.mod_lt value.toNat (show 0 < n.toNat by omega)
  have hlive : (Options.shipped (.ofCount n accepted small)).liveWorkflows =
      workflowIds 1 n.toNat := rfl
  rw [Options.drawn, hlive, workflowIds, List.length_map, List.length_range,
    List.getD_eq_getElem _ _ (by rwa [List.length_map, List.length_range]), List.getElem_map,
    List.getElem_range]
  exact workflowId_toNat (by omega)

/-- The choice among the workflows is balanced: over a period of the generator the remote mount
point's workflows are found equally often, up to the values left over when the words are divided
among them, and the first one once less for the state that is left out. -/
theorem selections_balanced {workflowsEnv : Option (List Char)} {n : Int}
    (accepted : optionPadllWorkflows workflowsEnv = .ok n) (small : 1000 * n < 2^31)
    (t : MountPointTable (.shipped (.ofCount n (optionPadllWorkflows_pos accepted) small)))
    {g : Xoshiro128StarStar} (seeded : t.prng = g.stream) (alive : g ≠ 0) {i : Nat}
    (hi : (i : Int) < n) :
    ((Finset.range (2 ^ 128 - 1)).filter fun k =>
        (t.selection .kRemote k).toNat = 1000 * (i + 1)).card =
      2 ^ 96 * (2 ^ 32 / n.toNat + if i < 2 ^ 32 % n.toNat then 1 else 0) -
        if i = 0 then 1 else 0 := by
  have hlt : i < n.toNat := by omega
  have hvalue (k : Nat) : (t.selection .kRemote k).toNat = 1000 * (i + 1) ↔
      (g.stream k).toNat % n.toNat = i := by
    rw [selection_eq rfl, seeded, drawn_shipped]
    omega
  have hcount := card_stream (fun u => u.toNat % n.toNat = i) alive
  have hzero : (0 : UInt32).toNat % n.toNat = i ↔ i = 0 := by
    rw [UInt32.toNat_zero, Nat.zero_mod]
    exact eq_comm
  simp only [hzero, card_residue hlt] at hcount
  simp only [hvalue]
  exact hcount

private theorem three_accepted : optionPadllWorkflows (some "3".toList) = .ok 3 := rfl

/-- The first process has its generator in the cycle. -/
theorem selections_balanced_init :
    ((Finset.range (2 ^ 128 - 1)).filter fun k =>
        (({ prng := (ofSeed 1).stream } : MountPointTable (.shipped (.ofCount 3
          (optionPadllWorkflows_pos three_accepted) (by decide)))).selection .kRemote k).toNat =
            1000 * (0 + 1)).card =
      2 ^ 96 * (2 ^ 32 / Int.toNat 3 + if 0 < 2 ^ 32 % Int.toNat 3 then 1 else 0) -
        if 0 = 0 then 1 else 0 :=
  selections_balanced three_accepted (by decide) _ rfl (by decide) (by decide)

end Balance

end Padll
