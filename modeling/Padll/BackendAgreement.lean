import Padll.DescriptorDecisions
import Padll.PassthroughAccounting

/-! One run served by either backend: what a data, directory or extended attribute call adds to
the statistics when it is enforced, and what it adds when it is passed through. -/
namespace Padll
open LdPreloadedPosix
variable {opts : Options}

/-- A zero or the failure of a status call. -/
def CValue.isZeroOrMinusOne : CValue → Bool
  | .int r => r = 0 || r = -1
  | .long r => r = 0 || r = -1
  | _ => false

namespace PosixCall

/-- The classes in which either backend counts operations, bytes and errors. -/
def measured (c : PosixCall) : Bool :=
  c.operation.type = .dataCalls || c.operation.type = .directoryCalls ||
    c.operation.type = .extAttrCalls

/-- What an enforced call adds to its entry. -/
def enforcedUpdate (c : PosixCall) : StatisticUpdate :=
  if c.failed then .failed else .counted c.bytes

end PosixCall

namespace StatisticUpdate

/-- The amounts added to the operation, byte and error counters. -/
def amounts (u : StatisticUpdate) : UInt64 × UInt64 × UInt64 := (u.operations, u.bytes, u.errors)

end StatisticUpdate

/-- What the operation, byte and error counters of an entry gained. -/
def gained (op : Operation) (before after : CallStatistics) : UInt64 × UInt64 × UInt64 :=
  ((after.entry op).operationCounter - (before.entry op).operationCounter,
    (after.entry op).byteCounter - (before.entry op).byteCounter,
    (after.entry op).errorCounter - (before.entry op).errorCounter)

/-- The calls as the enforcing backend runs them. -/
def enforcing (calls : List PassthroughCall) : List Action := calls.map (.call ·.call)

/-- Each call of a run adds the same amounts to the same entries in both backends, and equal
statistics stay equal over the run. -/
def MeasuresAlike (calls : List PassthroughCall) (o : LdPreloadedPosix opts)
    (p : PosixPassthrough) : Prop :=
  (∀ served c rest, calls = served ++ c :: rest → ∀ op,
    let o' := (run (enforcing served) o).2
    let p' := (PosixPassthrough.run served p).2
    gained op o'.stats (step (.call c.call) o').2.stats =
      gained op p'.stats (PosixPassthrough.step c p').2.stats) ∧
  (o.stats = p.stats →
    (run (enforcing calls) o).2.stats = (PosixPassthrough.run calls p).2.stats)

/-- The enforcing backend counts the bytes of an attribute, the passthrough backend none. -/
theorem attribute_bytes_differ :
    ¬ ∀ (calls : List PassthroughCall) (o : LdPreloadedPosix (Options.shipped .single))
      (p : PosixPassthrough), o.collect = true → p.collect = true →
      (∀ c ∈ calls, c.call.measured = true) →
      (∀ r ∈ (run (enforcing calls) o).1, r.enforced = true) → MeasuresAlike calls o p := by
  intro h
  obtain ⟨hgained, -⟩ := h [⟨.getxattr "/tmp/x".toList "user.a".toList 0 16 5, nofun⟩] freshSingle
    (PosixPassthrough.construct true) rfl rfl (by decide) (by decide)
  have hdiffer := hgained [] _ [] rfl (.extAttr .getxattr)
  revert hdiffer
  decide

section Updates

theorem gained_record (s : CallStatistics) (op op' : Operation) (u : StatisticUpdate) :
    gained op' s (s.record op u) = if op' = op then u.amounts else (0, 0, 0) := by
  rw [gained, CallStatistics.entry_record]
  split
  · simp [StatisticUpdate.amounts]
  · simp

/-- The two judgements of an attribute answer: negative answers fail, or minus one does. -/
private theorem attribute_agrees {negative minusOne zero : Bool} {bytes : UInt64}
    (hminusOne : minusOne = true → negative = true) (hzero : zero = true → negative = false)
    (hbytes : negative = false → (bytes = 0 ↔ zero = true)) :
    ((if negative then .failed else .counted bytes : StatisticUpdate) =
        if !minusOne then .counted 0 else .failed) ↔ (zero || minusOne) = true := by
  cases negative with
  | true =>
    have hz : zero = false := Bool.eq_false_iff.mpr fun h => nomatch hzero h
    cases minusOne <;> simp [hz]
  | false =>
    have hm : minusOne = false := Bool.eq_false_iff.mpr fun h => nomatch hminusOne h
    simp [hm, hbytes rfl]

private theorem attrSize_agrees (r : Int64) :
    ((if decide (r < 0) then .failed
        else .counted (CValue.bytes .extAttrCalls (.long r)) : StatisticUpdate) =
        if decide (r ≠ -1) then .counted 0 else .failed) ↔
      (CValue.long r).isZeroOrMinusOne = true := by
  rw [decide_not]
  apply attribute_agrees
  · intro h
    rw [of_decide_eq_true h]
    rfl
  · intro h
    rw [of_decide_eq_true h]
    rfl
  · intro h
    have hr : 0 ≤ r := Int64.not_lt.mp (of_decide_eq_false h)
    rw [CValue.bytes, if_pos ⟨.inr rfl, hr⟩, decide_eq_true_iff]
    exact ⟨congrArg UInt64.toInt64, congrArg Int64.toUInt64⟩

private theorem attrStatus_agrees (r : Int32) :
    ((if decide (r < 0) then .failed
        else .counted (CValue.bytes .extAttrCalls (.int r)) : StatisticUpdate) =
        if decide (r ≠ -1) then .counted 0 else .failed) ↔
      (CValue.int r).isZeroOrMinusOne = true := by
  rw [decide_not]
  apply attribute_agrees
  · intro h
    rw [of_decide_eq_true h]
    rfl
  · intro h
    rw [of_decide_eq_true h]
    rfl
  · intro h
    have hr : 0 ≤ r := Int32.not_lt.mp (of_decide_eq_false h)
    rw [CValue.bytes, if_pos ⟨.inr rfl, hr⟩, decide_eq_true_iff]
    refine ⟨fun e => ?_, congrArg fun r : Int32 => r.toInt64.toUInt64⟩
    have hback := congrArg (fun x : UInt64 => x.toInt64.toInt32) e
    simpa using hback

/-- The backends add the same to the entry of a call unless it is an attribute call with an
answer other than zero and failure. -/
theorem updates_eq_iff {c : PosixCall} (hmeasured : c.measured = true)
    (hmunmap : c.operation ≠ .data .munmap) :
    c.enforcedUpdate = c.passthroughUpdate ↔
      (c.operation.type = .extAttrCalls → c.result.isZeroOrMinusOne = true) := by
  cases c with
  | read _ _ _ r | write _ _ _ r | pread _ _ _ _ r | pwrite _ _ _ _ r | pread64 _ _ _ _ r
  | pwrite64 _ _ _ _ r =>
    refine iff_of_true ?_ fun h => by cases h
    change (if decide (r < 0) then StatisticUpdate.failed
      else .counted (CValue.bytes .dataCalls (.long r))) =
        if decide (0 ≤ r) then .counted r.toUInt64 else .failed
    by_cases hr : 0 ≤ r
    · simp [hr, Int64.not_lt.mpr hr, CValue.bytes]
    · simp [hr, Int64.not_le.mp hr]
  | mmap _ _ _ _ _ _ memPtr =>
    refine iff_of_true ?_ fun h => by cases h
    change (if decide (memPtr = mapFailed) then StatisticUpdate.failed else .counted 0) =
      if decide (memPtr ≠ mapFailed) then .counted 0 else .failed
    by_cases hm : memPtr = mapFailed <;> simp [hm]
  | munmap _ _ r => exact absurd rfl hmunmap
  | mkdir _ _ r | mkdirat _ _ _ r | mknod _ _ _ r | mknodat _ _ _ _ r | rmdir _ r =>
    refine iff_of_true ?_ fun h => by cases h
    change (if decide (r ≠ 0) then StatisticUpdate.failed
      else .counted (CValue.bytes .directoryCalls (.int r))) =
        if decide (r = 0) then .counted 0 else .failed
    by_cases hr : r = 0 <;> simp [hr, CValue.bytes]
  | getxattr _ _ _ _ r | lgetxattr _ _ _ _ r | fgetxattr _ _ _ _ r | listxattr _ _ _ r
  | llistxattr _ _ _ r | flistxattr _ _ _ r =>
    exact (attrSize_agrees r).trans ⟨fun h _ => h, fun h => h rfl⟩
  | setxattr _ _ _ _ _ r | lsetxattr _ _ _ _ _ r | fsetxattr _ _ _ _ _ r =>
    exact (attrStatus_agrees r).trans ⟨fun h _ => h, fun h => h rfl⟩
  | _ => cases hmeasured

/-- Updates that count an operation add the same amounts only if they are the same. -/
theorem amounts_inj (c : PosixCall) :
    c.enforcedUpdate.amounts = c.passthroughUpdate.amounts ↔
      c.enforcedUpdate = c.passthroughUpdate := by
  refine ⟨fun h => ?_, congrArg StatisticUpdate.amounts⟩
  revert h
  unfold PosixCall.enforcedUpdate PosixCall.passthroughUpdate
  split <;> split <;>
    simp [StatisticUpdate.amounts, StatisticUpdate.operations, StatisticUpdate.bytes,
      StatisticUpdate.errors]

end Updates

section Calls

/-- Unmapping is enforced in no state: its workflow is chosen for a descriptor never registered. -/
theorem munmap_not_enforced {c : PosixCall} {o : LdPreloadedPosix opts}
    (h : (recordOf c o).enforced = true) : c.operation ≠ .data .munmap := by
  intro hmunmap
  cases c with
  | munmap addr length result =>
    have hnone := o.mountPointTable.getMountPointEntryFd_invalid (show ¬ (2 : Int32) < -1 by decide)
    rw [CallRecord.enforced_recordOf rfl, MountPointTable.controls, hnone] at h
    cases h
  | _ => simp [PosixCall.operation] at hmunmap

theorem step_enforced {c : PosixCall} {o : LdPreloadedPosix opts} (hcollect : o.collect = true)
    (h : (recordOf c o).enforced = true) :
    (step (.call c) o).2.stats = o.stats.record c.operation c.enforcedUpdate := by
  have hupdate : c.profile.update o.mountPointTable = c.enforcedUpdate := by
    rw [update_recordOf, if_pos h, PosixCall.enforcedUpdate]
  rw [step_call, ← hupdate]
  exact if_pos hcollect

theorem step_passed {c : PassthroughCall} {p : PosixPassthrough} (hcollect : p.collect = true)
    (h : c.call.measured = true) :
    (PosixPassthrough.step c p).2.stats =
      p.stats.record c.call.operation c.call.passthroughUpdate := by
  have hcounted : c.call.countedIn = some c.call.operation := by
    obtain ⟨call, implemented⟩ := c
    cases call with
    | open64Variadic | sync => cases h
    | _ => rfl
  rw [PosixPassthrough.step_eq, PosixPassthrough.after, hcounted]
  exact if_pos hcollect

/-- One enforced call adds the same in both backends exactly if they judge its answer alike. -/
theorem gained_eq_iff {c : PassthroughCall} {o : LdPreloadedPosix opts} {p : PosixPassthrough}
    (ho : o.collect = true) (hp : p.collect = true) (hmeasured : c.call.measured = true)
    (henforced : (recordOf c.call o).enforced = true) :
    (∀ op, gained op o.stats (step (.call c.call) o).2.stats =
        gained op p.stats (PosixPassthrough.step c p).2.stats) ↔
      (c.call.operation.type = .extAttrCalls → c.call.result.isZeroOrMinusOne = true) := by
  rw [← updates_eq_iff hmeasured (munmap_not_enforced henforced), ← amounts_inj,
    step_enforced ho henforced, step_passed hp hmeasured]
  simp only [gained_record]
  constructor
  · intro h
    simpa using h c.call.operation
  · intro h op
    rw [h]

end Calls

section Runs

theorem run_enforcing_collect (calls : List PassthroughCall) (o : LdPreloadedPosix opts) :
    (run (enforcing calls) o).2.collect = o.collect := by
  induction calls generalizing o with
  | nil => rfl
  | cons c calls ih =>
    rw [enforcing, List.map_cons, run_call_cons]
    exact ih (after c.call o)

/-- A call in a run leaves the record it has on the state the calls before it lead to. -/
theorem run_enforcing_record (served rest : List PassthroughCall) (c : PassthroughCall)
    (o : LdPreloadedPosix opts) :
    recordOf c.call (run (enforcing served) o).2 ∈ (run (enforcing (served ++ c :: rest)) o).1 := by
  rw [enforcing, List.map_append, run, OutputMachine.run_append, List.map_cons]
  apply List.mem_append_right
  exact (congrArg Prod.fst (run_call_cons c.call _ _)).symm ▸ List.mem_cons_self

/-- Judged alike, calls keep equal statistics equal. -/
theorem run_stats_eq {calls : List PassthroughCall} {o : LdPreloadedPosix opts}
    {p : PosixPassthrough} (ho : o.collect = true) (hp : p.collect = true)
    (hmeasured : ∀ c ∈ calls, c.call.measured = true)
    (henforced : ∀ r ∈ (run (enforcing calls) o).1, r.enforced = true)
    (h : ∀ c ∈ calls, c.call.operation.type = .extAttrCalls →
      c.call.result.isZeroOrMinusOne = true) (hstats : o.stats = p.stats) :
    (run (enforcing calls) o).2.stats = (PosixPassthrough.run calls p).2.stats := by
  induction calls generalizing o p with
  | nil => exact hstats
  | cons c calls ih =>
    have hrecords := run_call_cons c.call (enforcing calls) o
    have hall := fun r hr => henforced r (hrecords.symm ▸ hr)
    have hfirst := hall _ List.mem_cons_self
    have hagree := (updates_eq_iff (hmeasured c List.mem_cons_self)
      (munmap_not_enforced hfirst)).mpr (h c List.mem_cons_self)
    have hstep : (after c.call o).stats = (PosixPassthrough.after c.call p).stats := by
      have henforcing := step_enforced ho hfirst
      have hpassing := step_passed hp (hmeasured c List.mem_cons_self)
      rw [step_call] at henforcing
      rw [PosixPassthrough.step_eq] at hpassing
      rw [henforcing, hpassing, hagree, hstats]
    rw [enforcing, List.map_cons, run_call_cons, PosixPassthrough.run, OutputMachine.run_cons,
      PosixPassthrough.step_eq]
    exact ih ho ((PosixPassthrough.after_collect c.call p).trans hp)
      (fun d hd => hmeasured d (List.mem_cons_of_mem c hd))
      (fun r hr => hall r (List.mem_cons_of_mem _ hr))
      (fun d hd => h d (List.mem_cons_of_mem c hd)) hstep

/-- Enforced throughout, a run measures alike in both backends exactly if every attribute call
in it is answered zero or minus one. -/
theorem measuresAlike_iff {calls : List PassthroughCall} {o : LdPreloadedPosix opts}
    {p : PosixPassthrough} (ho : o.collect = true) (hp : p.collect = true)
    (hmeasured : ∀ c ∈ calls, c.call.measured = true)
    (henforced : ∀ r ∈ (run (enforcing calls) o).1, r.enforced = true) :
    MeasuresAlike calls o p ↔
      ∀ c ∈ calls, c.call.operation.type = .extAttrCalls →
        c.call.result.isZeroOrMinusOne = true := by
  have hstep : ∀ served c rest, calls = served ++ c :: rest →
      ((∀ op, gained op (run (enforcing served) o).2.stats
            (step (.call c.call) (run (enforcing served) o).2).2.stats =
          gained op (PosixPassthrough.run served p).2.stats
            (PosixPassthrough.step c (PosixPassthrough.run served p).2).2.stats) ↔
        (c.call.operation.type = .extAttrCalls → c.call.result.isZeroOrMinusOne = true)) := by
    rintro served c rest rfl
    exact gained_eq_iff ((run_enforcing_collect served o).trans ho)
      ((PosixPassthrough.run_collect served p).trans hp)
      (hmeasured c (List.mem_append_right served List.mem_cons_self))
      (henforced _ (run_enforcing_record served rest c o))
  constructor
  · rintro ⟨hgained, -⟩ c hc
    obtain ⟨served, rest, hsplit⟩ := List.append_of_mem hc
    exact (hstep served c rest hsplit).mp (hgained served c rest hsplit)
  · intro h
    refine ⟨fun served c rest hsplit => ?_, run_stats_eq ho hp hmeasured henforced h⟩
    have hc : c ∈ calls := hsplit ▸ List.mem_append_right served List.mem_cons_self
    exact (hstep served c rest hsplit).mpr (h c hc)

theorem measuresAlike_iff_registered :
    MeasuresAlike
      [⟨.read 3 0 16 16, nofun⟩, ⟨.getxattr "/tmp/x".toList "user.a".toList 0 16 (-1), nofun⟩,
        ⟨.mkdir "/tmp/d".toList 0 0, nofun⟩] openedSingle (PosixPassthrough.construct true) := by
  refine (measuresAlike_iff rfl rfl (by decide) (by decide)).mpr ?_
  decide

end Runs

end Padll
