import Padll.Library.OutputMachine
import Padll.LdPreloadedCalls

/-! Runs of the enforcing backend: calls interleaved with switching the statistics on and
off, and what each call submits and counts in terms of the tables before it. -/
namespace Padll
variable {opts : Options}

inductive Action where
  | call (call : PosixCall)
  | setStatisticCollection (value : Bool)

/-- One performed call, as seen from outside. -/
structure CallRecord where
  call : PosixCall
  collecting : Bool
  events : List Event
  returned : CValue

namespace CallRecord

def submissions (r : CallRecord) : List Submission := r.events.filterMap Event.submission?

/-- The call went to the data plane stage. -/
def enforced (r : CallRecord) : Bool := !r.submissions.isEmpty

end CallRecord

namespace LdPreloadedPosix

/-- The object right after construction. -/
def construct (statCollection : Bool) (prng : Nat → UInt32) : LdPreloadedPosix opts where
  collect := statCollection
  mountPointTable := { prng := prng }

def step : Action → LdPreloadedPosix opts → List CallRecord × LdPreloadedPosix opts
  | .call c, o =>
    let (returned, w) := c.perform ⟨o, []⟩
    ([⟨c, o.collect, w.events, returned⟩], w.object)
  | .setStatisticCollection value, o => ([], (setStatisticCollection value ⟨o, []⟩).2.object)

def run (actions : List Action) (o : LdPreloadedPosix opts) :
    List CallRecord × LdPreloadedPosix opts :=
  OutputMachine.run step actions o

/-- Whether a call made on an object goes to the stage. -/
def submits (o : LdPreloadedPosix opts) (c : PosixCall) : Bool :=
  (step (.call c) o).1.any CallRecord.enforced

end LdPreloadedPosix

/-- The shortest workflow list. -/
def MountPointWorkflows.single : MountPointWorkflows := .ofCount 1 (by decide) (by decide)

/-- A fresh object under the shipped options with one workflow. -/
def freshSingle : LdPreloadedPosix (Options.shipped .single) :=
  LdPreloadedPosix.construct true fun _ => 0

/-- Whether a selection finds a workflow, read off the tables without choosing one. -/
def MountPointTable.controls (t : MountPointTable opts) : Selection → Bool
  | .path path => opts.enforces (MountPointTable.extractMountPoint opts path)
  | .descriptor fd => (t.getMountPointEntryFd fd).any fun e => opts.enforces e.mountPoint
  | .closing _ => true
  | .stream stream => (t.getMountPointEntryPtr stream).any fun e => opts.enforces e.mountPoint

theorem choose_ne (t : MountPointTable opts) (selection : Selection) :
    (choose t selection).1 ≠ noWorkflow ↔ t.controls selection = true := by
  cases selection with
  | path path => exact t.pickWorkflowIdPath_ne path
  | descriptor fd =>
    rw [MountPointTable.controls, Option.any_eq_true]
    exact t.pickWorkflowIdEntry_ne _
  | closing fd =>
    refine iff_of_true ?_ rfl
    by_cases h : (t.pickWorkflowIdFd fd).1 = noWorkflow
    · rw [choose, if_pos h]
      exact MountPointTable.pickWorkflowIdByForce_ne _
    · rw [choose, if_neg h]
      exact h
  | stream stream =>
    rw [MountPointTable.controls, Option.any_eq_true]
    exact t.pickWorkflowIdEntry_ne _

/-- Choosing a workflow moves the generator and nothing else. -/
theorem choose_same (t : MountPointTable opts) (selection : Selection) :
    t.SameEntries (choose t selection).2 := by
  cases selection with
  | path path => exact t.pickWorkflowIdPath_same path
  | descriptor fd => exact t.pickWorkflowIdEntry_same _
  | closing fd =>
    have hfd := t.pickWorkflowIdEntry_same (t.getMountPointEntryFd fd)
    by_cases h : (t.pickWorkflowIdFd fd).1 = noWorkflow
    · rw [choose, if_pos h]
      have hforce := MountPointTable.pickWorkflowIdByForce_same (t.pickWorkflowIdFd fd).2
      exact ⟨hforce.fd.trans hfd.fd, hforce.ptr.trans hfd.ptr⟩
    · rw [choose, if_neg h]
      exact hfd
  | stream stream => exact t.pickWorkflowIdEntry_same _

/-- The entry of a descriptor once a call has settled the tables. -/
theorem getMountPointEntryFd_settle (t : MountPointTable opts) (effect : TableEffect) (f : Int32) :
    (settle t effect).getMountPointEntryFd f =
      match effect with
      | .openFd fd path =>
        if f = fd ∧ 2 < fd then
          some ⟨path, MountPointTable.extractMountPoint opts path, LdPreloadedPosix.getMetadataUnit⟩
        else t.getMountPointEntryFd f
      | .closeFd fd =>
        if opts.hardRemove ∧ f = fd then none else t.getMountPointEntryFd f
      | .duplicate fd result => (t.replaceFileDescriptor fd result).2.getMountPointEntryFd f
      | .keep | .openStream _ _ | .closeStream _ => t.getMountPointEntryFd f := by
  cases effect with
  | keep => rfl
  | openFd fd path =>
    refine (getEntry_createEntry _ fd f _).trans ?_
    simp only [isFileDescriptorValid_iff]
    rfl
  | openStream fptr path => rfl
  | closeFd fd =>
    cases hr : opts.hardRemove with
    | false => simp [settle, hr]
    | true =>
      simp only [settle, hr, if_true, true_and]
      exact getEntry_removeEntry _ fd f
  | closeStream stream => rfl
  | duplicate fd result => rfl

namespace Profile

/-- What a call submits. -/
def submissions (p : Profile) (t : MountPointTable opts) : List Submission :=
  match p.control with
  | .submitted selection operationType operationContext payload =>
    if t.controls selection then
      [⟨(choose t selection).1, operationType, operationContext, payload.toInt64.toUInt64⟩]
    else []
  | .unsubmitted _ => []

/-- The flag a call hands to the statistics. -/
def counted (p : Profile) (t : MountPointTable opts) : Bool :=
  match p.control with
  | .submitted selection _ _ _ => t.controls selection
  | .unsubmitted enforced => enforced

/-- The table once the workflow is chosen. -/
def chosen (p : Profile) (t : MountPointTable opts) : MountPointTable opts :=
  match p.control with
  | .submitted selection _ _ _ => (choose t selection).2
  | .unsubmitted _ => t

def update (p : Profile) (t : MountPointTable opts) : StatisticUpdate :=
  statisticUpdate p.operation.type p.status (p.counted t)

theorem submit_eq (p : Profile) (t : MountPointTable opts) :
    p.submit t = ((p.submissions t).map .submit, p.counted t, p.chosen t) := by
  unfold submit submissions counted chosen
  cases p.control with
  | submitted selection operationType operationContext payload =>
    have hc := choose_ne t selection
    by_cases h : (choose t selection).1 = noWorkflow
    · have hf : t.controls selection = false := by
        rw [← Bool.not_eq_true, ← hc, not_not]
        exact h
      simp [h, hf]
    · simp [h, hc.mp h]
  | unsubmitted enforced => rfl

theorem run_eq (p : Profile) (o : LdPreloadedPosix opts) :
    p.run o =
      ((p.submissions o.mountPointTable).map .submit ++ [.libc ⟨p.slot.symbol, p.args⟩],
        { collect := o.collect
          hooked := Function.update o.hooked p.slot true
          stats := if o.collect then o.stats.record p.operation (p.update o.mountPointTable)
            else o.stats
          mountPointTable := settle (p.chosen o.mountPointTable) p.effect }) := by
  rw [run, submit_eq]
  rfl

theorem chosen_same (p : Profile) (t : MountPointTable opts) : t.SameEntries (p.chosen t) := by
  unfold chosen
  split
  · exact choose_same t _
  · exact .refl t

end Profile

namespace PosixCall

theorem profile_operation (c : PosixCall) : c.profile.operation = c.operation := by
  cases c <;> rfl

theorem profile_returned (c : PosixCall) : c.profile.returned = c.result := by
  cases c <;> rfl

end PosixCall

namespace LdPreloadedPosix

/-- The record of a call made on an object. -/
def recordOf (c : PosixCall) (o : LdPreloadedPosix opts) : CallRecord where
  call := c
  collecting := o.collect
  events := (c.profile.submissions o.mountPointTable).map .submit ++
    [.libc ⟨c.profile.slot.symbol, c.profile.args⟩]
  returned := c.result

/-- The object after a call. -/
def after (c : PosixCall) (o : LdPreloadedPosix opts) : LdPreloadedPosix opts where
  collect := o.collect
  hooked := Function.update o.hooked c.profile.slot true
  stats :=
    if o.collect then o.stats.record c.operation (c.profile.update o.mountPointTable) else o.stats
  mountPointTable := settle (c.profile.chosen o.mountPointTable) c.profile.effect

theorem step_call (c : PosixCall) (o : LdPreloadedPosix opts) :
    step (.call c) o = ([recordOf c o], after c o) := by
  have h := c.performs o []
  rw [Profile.run_eq, c.profile_operation, c.profile_returned] at h
  rw [step, h]
  rfl

theorem step_setStatisticCollection (value : Bool) (o : LdPreloadedPosix opts) :
    step (.setStatisticCollection value) o = ([], { o with collect := value }) := rfl

/-- A run that begins with a call. -/
theorem run_call_cons (c : PosixCall) (actions : List Action) (o : LdPreloadedPosix opts) :
    run (.call c :: actions) o =
      (recordOf c o :: (run actions (after c o)).1, (run actions (after c o)).2) := by
  rw [run, OutputMachine.run_cons, step_call]
  rfl

/-- A call updates the entry of its operation while statistics are collected. -/
theorem entry_after (c : PosixCall) (o : LdPreloadedPosix opts) (op : Operation) :
    (after c o).stats.entry op =
      if o.collect ∧ op = c.operation then
        (c.profile.update o.mountPointTable).applyEntry (o.stats.entry op)
      else o.stats.entry op := by
  have hstats : (after c o).stats = if o.collect then
      o.stats.record c.operation (c.profile.update o.mountPointTable) else o.stats := rfl
  rw [hstats]
  cases o.collect with
  | false => simp
  | true =>
    rw [if_pos rfl, CallStatistics.entry_record]
    simp

end LdPreloadedPosix

namespace CallRecord
open LdPreloadedPosix

theorem submissions_recordOf (c : PosixCall) (o : LdPreloadedPosix opts) :
    (recordOf c o).submissions = c.profile.submissions o.mountPointTable := by
  simp [submissions, recordOf, List.filterMap_append, List.filterMap_map, Function.comp_def,
    Event.submission?]

/-- A call with a selection is enforced exactly when the tables control the selection. -/
theorem enforced_recordOf {c : PosixCall} {selection : Selection} {operationType : Posix}
    {operationContext : PosixMeta} {payload : Int32}
    (h : c.profile.control = .submitted selection operationType operationContext payload)
    (o : LdPreloadedPosix opts) :
    (recordOf c o).enforced = o.mountPointTable.controls selection := by
  rw [enforced, submissions_recordOf, Profile.submissions, h]
  cases hc : o.mountPointTable.controls selection <;> simp [hc]

/-- Calls outside any selection are never submitted. -/
theorem enforced_recordOf_unsubmitted {c : PosixCall} {enforced' : Bool}
    (h : c.profile.control = .unsubmitted enforced') (o : LdPreloadedPosix opts) :
    (recordOf c o).enforced = false := by
  rw [enforced, submissions_recordOf, Profile.submissions, h]
  rfl

end CallRecord

namespace LdPreloadedPosix

theorem submits_eq (o : LdPreloadedPosix opts) (c : PosixCall) :
    o.submits c = (recordOf c o).enforced := by
  rw [submits, step_call, List.any_cons, List.any_nil, Bool.or_false]

/-- Every record of a run is the record of its call on some object. -/
theorem run_records (actions : List Action) (o : LdPreloadedPosix opts) :
    ∀ r ∈ (run actions o).1, ∃ s : LdPreloadedPosix opts, r = recordOf r.call s := by
  refine OutputMachine.run_outputs (I := fun _ => True) (fun _ _ _ => trivial) ?_ actions trivial
  intro a s _ r hr
  cases a with
  | call c =>
    rw [step_call, List.mem_singleton] at hr
    exact ⟨s, hr ▸ rfl⟩
  | setStatisticCollection value => cases hr

/-- A run of calls leaves one record a call, in order. -/
theorem run_calls (calls : List PosixCall) (o : LdPreloadedPosix opts) :
    (run (calls.map .call) o).1.map (·.call) = calls := by
  induction calls generalizing o with
  | nil => rfl
  | cons c cs ih =>
    rw [List.map_cons, run_call_cons, List.map_cons, ih (after c o)]
    rfl

/-- Calls alone do not switch the statistics. -/
theorem run_calls_collecting (calls : List PosixCall) (o : LdPreloadedPosix opts) :
    ∀ r ∈ (run (calls.map .call) o).1, r.collecting = o.collect := by
  refine OutputMachine.run_outputs_of_mem (I := fun s => s.collect = o.collect) ?_ ?_ rfl
  · intro a ha s hs
    obtain ⟨c, -, rfl⟩ := List.mem_map.mp ha
    rw [step_call]
    exact hs
  · intro a ha s hs r hr
    obtain ⟨c, -, rfl⟩ := List.mem_map.mp ha
    rw [step_call, List.mem_singleton] at hr
    rw [hr]
    exact hs

end LdPreloadedPosix

end Padll
