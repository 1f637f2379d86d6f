import Mathlib.Data.UInt
import Padll.LdPreloadedRuns

/-! Accounting of the enforcing backend: what a run adds to the counters of every operation,
in terms of the calls made, the calls submitted and the answers of libc. -/
namespace Padll
open LdPreloadedPosix
variable {opts : Options}

section Updates

/-- A result as the enforcing backend hands it to the statistics. -/
def CValue.status : CValue → Int64
  | .int r => r.toInt64
  | .long r => r
  | .pointer memPtr => (mmapStatus memPtr).toInt64
  | .stream fptr => (if fptr ≠ .nullptr then (0 : Int32) else -1).toInt64
  | _ => 1

theorem PosixCall.profile_status (c : PosixCall) : c.profile.status = c.result.status := by
  cases c <;> rfl

private theorem toInt64_nonneg (r : Int32) : 0 ≤ r.toInt64 ↔ 0 ≤ r := by
  simp [Int64.le_iff_toInt_le, Int32.le_iff_toInt_le]

private theorem statisticUpdate_int (type : OperationType) (r : Int32) :
    statisticUpdate type r.toInt64 true =
      if (CValue.int r).signalsFailure type then .failed
      else .counted ((CValue.int r).bytes type) := by
  cases type with
  | directoryCalls =>
    by_cases hr : r = 0
    · simp [statisticUpdate, CValue.signalsFailure, CValue.bytes, hr]
    · simp [statisticUpdate, CValue.signalsFailure, hr]
  | dataCalls | extAttrCalls =>
    by_cases hr : 0 ≤ r
    · simp [statisticUpdate, CValue.signalsFailure, CValue.bytes, toInt64_nonneg, hr]
    · simp [statisticUpdate, CValue.signalsFailure, toInt64_nonneg, hr]
  | metadataCalls | specialCalls =>
    by_cases hr : 0 ≤ r
    · simp [statisticUpdate, CValue.signalsFailure, CValue.bytes, hr]
    · simp [statisticUpdate, CValue.signalsFailure, hr]

private theorem statisticUpdate_long {type : OperationType} (r : Int64)
    (h : type = .dataCalls ∨ type = .extAttrCalls) :
    statisticUpdate type r true =
      if (CValue.long r).signalsFailure type then .failed
      else .counted ((CValue.long r).bytes type) := by
  have hupdate : statisticUpdate type r true =
      if 0 ≤ r then .counted r.toUInt64 else .failed := by
    rcases h with rfl | rfl
    · rfl
    · rfl
  rw [hupdate]
  by_cases hr : 0 ≤ r
  · simp [CValue.signalsFailure, CValue.bytes, h, hr]
  · simp [CValue.signalsFailure, hr]

/-- An enforced result is an error or counts its bytes, by the convention of its class. -/
theorem statisticUpdate_enforced {type : OperationType} {result : CValue}
    (h : result.FitsClass type) :
    statisticUpdate type result.status true =
      if result.signalsFailure type then .failed else .counted (result.bytes type) := by
  cases result with
  | int r => exact statisticUpdate_int type r
  | long r =>
    cases type with
    | dataCalls => exact statisticUpdate_long r (.inl rfl)
    | extAttrCalls => exact statisticUpdate_long r (.inr rfl)
    | _ => exact h.elim
  | pointer memPtr =>
    cases type with
    | dataCalls =>
      by_cases hm : memPtr = mapFailed
      · simp [statisticUpdate, CValue.status, CValue.signalsFailure, mmapStatus, hm]
      · simp [statisticUpdate, CValue.status, CValue.signalsFailure, CValue.bytes, mmapStatus, hm]
        rfl
    | _ => exact h.elim
  | stream fptr =>
    cases type with
    | metadataCalls =>
      by_cases hf : fptr = .nullptr
      · simp [statisticUpdate, CValue.status, CValue.signalsFailure, hf]
      · simp [statisticUpdate, CValue.status, CValue.signalsFailure, CValue.bytes, hf]
    | _ => exact h.elim
  | void =>
    cases type with
    | metadataCalls => rfl
    | _ => exact h.elim
  | uint value | ulong value | text value => cases type <;> exact h.elim

end Updates

section Calls

/-- The flag handed to the statistics is whether the call was submitted, but for `sync`. -/
theorem counted_eq (c : PosixCall) (o : LdPreloadedPosix opts) :
    c.profile.counted o.mountPointTable =
      ((recordOf c o).enforced || decide (c.operation = .metadata .sync)) := by
  cases hc : c.profile.control with
  | submitted selection operationType operationContext payload =>
    have hne : c.operation ≠ .metadata .sync := by
      cases c with
      | sync => cases hc
      | _ => simp [PosixCall.operation]
    rw [CallRecord.enforced_recordOf hc, Profile.counted, hc, decide_eq_false hne, Bool.or_false]
  | unsubmitted enforced =>
    rw [CallRecord.enforced_recordOf_unsubmitted hc, Profile.counted, hc, Bool.false_or]
    cases c with
    | sync =>
      obtain rfl : true = enforced := Control.unsubmitted.inj hc
      rfl
    | socket | fcntl =>
      obtain rfl : false = enforced := Control.unsubmitted.inj hc
      rfl
    | _ => cases hc

/-- What a call contributes, by the convention of its class. -/
theorem update_eq (c : PosixCall) (t : MountPointTable opts) :
    c.profile.update t =
      if c.profile.counted t then
        if c.failed then .failed else .counted c.bytes
      else .bypassed := by
  rw [Profile.update, c.profile_operation, c.profile_status]
  cases c.profile.counted t with
  | false => rfl
  | true => exact statisticUpdate_enforced c.result_fitsClass

theorem sync_of_operation {c : PosixCall} (h : c.operation = .metadata .sync) :
    c = .sync := by
  cases c with
  | sync => rfl
  | _ => simp [PosixCall.operation] at h

/-- A failed call moves no bytes. -/
private theorem bytes_of_failed {type : OperationType} {result : CValue}
    (h : result.signalsFailure type = true) :
    result.bytes type = 0 := by
  cases result with
  | int r =>
    by_cases ht : type = .directoryCalls
    · rw [ht]
      rfl
    · rw [CValue.signalsFailure, if_neg ht, decide_eq_true_iff] at h
      exact if_neg fun hx => Int32.not_le.mpr h hx.2
  | long r =>
    rw [CValue.signalsFailure, decide_eq_true_iff] at h
    exact if_neg fun hx => Int64.not_le.mpr h hx.2
  | _ => rfl

theorem update_operations (c : PosixCall) (t : MountPointTable opts) :
    (c.profile.update t).operations = if c.profile.counted t then 1 else 0 := by
  rw [update_eq]
  cases c.profile.counted t <;> cases c.failed <;> rfl

theorem update_bypasses (c : PosixCall) (t : MountPointTable opts) :
    (c.profile.update t).bypasses = if c.profile.counted t then 0 else 1 := by
  rw [update_eq]
  cases c.profile.counted t <;> cases c.failed <;> rfl

/-- What a call adds to its entry: `sync` is counted even where it is not enforced. -/
theorem update_recordOf (c : PosixCall) (o : LdPreloadedPosix opts) :
    c.profile.update o.mountPointTable =
      if (recordOf c o).enforced then if c.failed then .failed else .counted c.bytes
      else if c.operation = .metadata .sync then .counted 0 else .bypassed := by
  rw [update_eq, counted_eq]
  by_cases h : c.operation = .metadata .sync
  · obtain rfl := sync_of_operation h
    cases (recordOf PosixCall.sync o).enforced <;> rfl
  · rw [decide_eq_false h, Bool.or_false, if_neg h]

theorem update_errors (c : PosixCall) (o : LdPreloadedPosix opts) :
    (c.profile.update o.mountPointTable).errors =
      if (recordOf c o).enforced && c.failed then 1 else 0 := by
  rw [update_recordOf]
  cases (recordOf c o).enforced with
  | true => cases c.failed <;> rfl
  | false =>
    simp only [Bool.false_eq_true, if_false, Bool.false_and]
    split <;> rfl

theorem update_bytes (c : PosixCall) (o : LdPreloadedPosix opts) :
    (c.profile.update o.mountPointTable).bytes =
      if (recordOf c o).enforced then c.bytes else 0 := by
  rw [update_recordOf]
  cases (recordOf c o).enforced with
  | true =>
    cases hf : c.failed with
    | false => rfl
    | true => exact (bytes_of_failed hf).symm
  | false =>
    simp only [Bool.false_eq_true, if_false]
    split <;> rfl

end Calls

section Counters

/-- The calls of an operation made while statistics were collected. -/
def CallRecord.collected (op : Operation) (r : CallRecord) : Bool :=
  r.collecting && decide (r.call.operation = op)

/-- A counter of one operation has grown by the weights of its collected calls. -/
theorem run_counter (op : Operation) (weight : CallRecord → UInt64)
    {counter : StatisticEntry → UInt64} {added : StatisticUpdate → UInt64}
    (happly : ∀ u e, counter (u.applyEntry e) = counter e + added u)
    (hweight : ∀ c (o : LdPreloadedPosix opts), c.operation = op →
      weight (recordOf c o) = added (c.profile.update o.mountPointTable))
    (actions : List Action) (o : LdPreloadedPosix opts) :
    counter ((run actions o).2.stats.entry op) =
      counter (o.stats.entry op) +
        (((run actions o).1.filter (·.collected op)).map weight).sum := by
  rw [← OutputMachine.sum_map_filter]
  refine OutputMachine.run_tally (I := fun _ => True)
    (fun s : LdPreloadedPosix opts => counter (s.stats.entry op)) _
    (fun _ _ _ => trivial) (fun a s _ => ?_) actions trivial
  cases a with
  | setStatisticCollection value => simp [step_setStatisticCollection]
  | call c =>
    have hcollected : (recordOf c s).collected op = true ↔ s.collect ∧ op = c.operation := by
      rw [CallRecord.collected, Bool.and_eq_true, decide_eq_true_iff, eq_comm (a := op)]
      rfl
    rw [step_call]
    simp only [List.map_cons, List.map_nil, List.sum_cons, List.sum_nil, add_zero, hcollected,
      entry_after]
    split
    · next h => rw [happly, hweight c s h.2.symm]
    · exact (add_zero _).symm

theorem nsmul_one_eq (n : Nat) : n • (1 : UInt64) = UInt64.ofNat n := by
  induction n with
  | zero => exact zero_nsmul 1
  | succ n ih =>
    rw [succ_nsmul, ih, UInt64.ofNat_add]
    rfl

/-- A counter that each marked call raises by one counts the marked calls. -/
theorem run_count (op : Operation) {counter : StatisticEntry → UInt64}
    {added : StatisticUpdate → UInt64}
    (happly : ∀ u e, counter (u.applyEntry e) = counter e + added u) {mark : CallRecord → Bool}
    (hmark : ∀ c (o : LdPreloadedPosix opts), c.operation = op →
      (if mark (recordOf c o) then 1 else 0) = added (c.profile.update o.mountPointTable))
    (actions : List Action) (o : LdPreloadedPosix opts) :
    counter ((run actions o).2.stats.entry op) =
      counter (o.stats.entry op) +
        UInt64.ofNat (((run actions o).1.filter (·.collected op)).countP mark) := by
  rw [run_counter op (fun r => if mark r then 1 else 0) happly hmark,
    OutputMachine.sum_map_indicator, nsmul_one_eq]

/-- The calls of an operation that the statistics take for submitted. -/
def CallRecord.countsAsEnforced (r : CallRecord) : Bool :=
  r.enforced || decide (r.call.operation = .metadata .sync)

theorem run_operationCounter (op : Operation) (actions : List Action)
    (o : LdPreloadedPosix opts) :
    ((run actions o).2.stats.entry op).operationCounter =
      (o.stats.entry op).operationCounter +
        UInt64.ofNat (((run actions o).1.filter (·.collected op)).countP
          (·.countsAsEnforced)) := by
  refine run_count op StatisticUpdate.applyEntry_operationCounter (fun c o _ => ?_) actions o
  rw [update_operations, counted_eq]
  rfl

theorem run_bypassCounter (op : Operation) (actions : List Action) (o : LdPreloadedPosix opts) :
    ((run actions o).2.stats.entry op).bypassCounter =
      (o.stats.entry op).bypassCounter +
        UInt64.ofNat (((run actions o).1.filter (·.collected op)).countP
          (!·.countsAsEnforced)) := by
  refine run_count op StatisticUpdate.applyEntry_bypassCounter (fun c o _ => ?_) actions o
  rw [update_bypasses, counted_eq]
  change (if !((recordOf c o).enforced || decide (c.operation = .metadata .sync)) then 1 else 0) = _
  cases (recordOf c o).enforced || decide (c.operation = .metadata .sync) <;> rfl

theorem run_errorCounter (op : Operation) (actions : List Action) (o : LdPreloadedPosix opts) :
    ((run actions o).2.stats.entry op).errorCounter =
      (o.stats.entry op).errorCounter +
        UInt64.ofNat (((run actions o).1.filter (·.collected op)).countP
          fun r => r.enforced && r.call.failed) := by
  refine run_count op StatisticUpdate.applyEntry_errorCounter (fun c o _ => ?_) actions o
  rw [update_errors]
  rfl

theorem run_byteCounter (op : Operation) (actions : List Action) (o : LdPreloadedPosix opts) :
    ((run actions o).2.stats.entry op).byteCounter =
      (o.stats.entry op).byteCounter +
        ((((run actions o).1.filter (·.collected op)).filter (·.enforced)).map
          (·.call.bytes)).sum := by
  rw [← OutputMachine.sum_map_filter]
  refine run_counter op _ StatisticUpdate.applyEntry_byteCounter (fun c o _ => ?_) actions o
  rw [update_bytes]
  rfl

theorem run_entryName (op : Operation) (actions : List Action) (o : LdPreloadedPosix opts) :
    ((run actions o).2.stats.entry op).entryName = (o.stats.entry op).entryName := by
  apply OutputMachine.run_invariant (I := fun s : LdPreloadedPosix opts =>
    (s.stats.entry op).entryName = (o.stats.entry op).entryName) ?_ actions rfl
  intro a s hs
  cases a with
  | setStatisticCollection value => exact hs
  | call c =>
    rw [step_call, entry_after]
    split
    · rw [StatisticUpdate.applyEntry_entryName, hs]
    · exact hs

/-- One call changes the entry of its own operation and no other, and none while statistics
are off. -/
theorem step_entry (c : PosixCall) (o : LdPreloadedPosix opts) :
    (o.collect = true →
      (step (.call c) o).2.stats.entry c.operation ≠ o.stats.entry c.operation ∧
        ∀ op, op ≠ c.operation →
          (step (.call c) o).2.stats.entry op = o.stats.entry op) ∧
      (o.collect = false → (step (.call c) o).2.stats = o.stats) := by
  rw [step_call]
  refine ⟨fun h => ⟨?_, fun op hop => ?_⟩, fun h => ?_⟩
  · rw [entry_after, if_pos ⟨h, rfl⟩]
    exact StatisticUpdate.applyEntry_ne _ _
  · rw [entry_after, if_neg fun e => hop e.2]
  · exact if_neg (Bool.not_eq_true _ ▸ h)

/-- After any run from construction the entry of every operation counts its collected calls:
errors, bytes and totals; and every call moves the counters of its own entry only. -/
theorem run_accounts (statCollection : Bool) (prng : Nat → UInt32) (actions : List Action) :
    let o : LdPreloadedPosix opts := construct statCollection prng
    (∀ op : Operation,
      let entry := (run actions o).2.stats.entry op
      let collected := (run actions o).1.filter (·.collected op)
      entry.entryName = op.name ∧
      entry.errorCounter = UInt64.ofNat (collected.countP fun r => r.enforced && r.call.failed) ∧
      entry.byteCounter = ((collected.filter (·.enforced)).map (·.call.bytes)).sum ∧
      entry.operationCounter + entry.bypassCounter = UInt64.ofNat collected.length ∧
      (collected.countP (·.countsAsEnforced) < 2^64 →
        entry.errorCounter.toNat ≤ entry.operationCounter.toNat)) ∧
    ∀ (c : PosixCall) (s : LdPreloadedPosix opts),
      (s.collect = true →
        (step (.call c) s).2.stats.entry c.operation ≠ s.stats.entry c.operation ∧
          ∀ op, op ≠ c.operation → (step (.call c) s).2.stats.entry op = s.stats.entry op) ∧
      (s.collect = false → (step (.call c) s).2.stats = s.stats) := by
  intro o
  refine ⟨fun op => ?_, step_entry⟩
  intro entry collected
  have hfresh : o.stats.entry op = { entryName := op.name } := CallStatistics.entry_default op
  have hname := run_entryName op actions o
  have herror := run_errorCounter op actions o
  have hbyte := run_byteCounter op actions o
  have hoperation := run_operationCounter op actions o
  have hbypass := run_bypassCounter op actions o
  rw [hfresh] at hname herror hbyte hoperation hbypass
  rw [UInt64.zero_add] at herror hbyte hoperation hbypass
  refine ⟨hname, herror, hbyte, ?_, fun hwrap => ?_⟩
  · have hlength := collected.length_eq_countP_add_countP (·.countsAsEnforced)
    rw [hlength, UInt64.ofNat_add]
    refine congrArg₂ (· + ·) hoperation (hbypass.trans (congrArg UInt64.ofNat ?_))
    exact List.countP_congr fun r _ => by simp
  · have hle : collected.countP (fun r => r.enforced && r.call.failed) ≤
        collected.countP (·.countsAsEnforced) := by
      refine List.countP_mono_left fun r _ h => ?_
      simp only [Bool.and_eq_true] at h
      simp [CallRecord.countsAsEnforced, h.1]
    rw [show entry.errorCounter = _ from herror, show entry.operationCounter = _ from hoperation,
      UInt64.toNat_ofNat', UInt64.toNat_ofNat', Nat.mod_eq_of_lt hwrap,
      Nat.mod_eq_of_lt (hle.trans_lt hwrap)]
    exact hle

end Counters

section Submissions

/-- The context the calls of a class are to be submitted under. -/
def OperationType.context : OperationType → PosixMeta
  | .dataCalls => .dataOp
  | _ => .metaOp

/-- Submission and accounting agree over a run of calls: at most one submission a call, ahead
of its libc call and under the context of its class; and in the end the operation counters
count the submitted calls and the bypass counters the others. -/
def SubmissionsAgree (calls : List PosixCall) (o : LdPreloadedPosix opts) : Prop :=
  let records := (run (calls.map .call) o).1
  (∀ r ∈ records, r.submissions.length ≤ 1 ∧
    (∃ call, r.events = r.submissions.map .submit ++ [.libc call]) ∧
    ∀ s ∈ r.submissions, s.operationContext = r.call.operation.type.context) ∧
  ∀ op : Operation,
    let entry := (run (calls.map .call) o).2.stats.entry op
    entry.operationCounter =
        UInt64.ofNat (records.countP fun r => decide (r.call.operation = op) && r.enforced) ∧
      entry.bypassCounter =
        UInt64.ofNat (records.countP fun r => decide (r.call.operation = op) && !r.enforced)

/-- `sync` is counted as an operation although it was never submitted. -/
theorem sync_counted_unsubmitted : ¬ SubmissionsAgree [.sync] freshSingle := by
  intro h
  have hop := (h.2 (.metadata .sync)).1
  exact absurd hop (by decide)

/-- The calls other than `rmdir` are submitted under the context of their class. -/
private theorem control_context {c : PosixCall} {selection : Selection} {operationType : Posix}
    {operationContext : PosixMeta} {payload : Int32}
    (h : c.profile.control = .submitted selection operationType operationContext payload)
    (hrmdir : c.operation ≠ .directory .rmdir) :
    operationContext = c.operation.type.context := by
  cases c with
  | rmdir path result => exact absurd rfl hrmdir
  | _ => cases h <;> rfl

/-- What the record of one call shows. -/
private theorem recordOf_shape (c : PosixCall) (o : LdPreloadedPosix opts) :
    (recordOf c o).submissions.length ≤ 1 ∧
      ∃ call, (recordOf c o).events = (recordOf c o).submissions.map .submit ++ [.libc call] := by
  rw [CallRecord.submissions_recordOf]
  refine ⟨?_, _, rfl⟩
  unfold Profile.submissions
  split
  · split <;> simp
  · simp

private theorem recordOf_context {c : PosixCall} (hrmdir : c.operation ≠ .directory .rmdir)
    (o : LdPreloadedPosix opts) :
    ∀ s ∈ (recordOf c o).submissions, s.operationContext = c.operation.type.context := by
  rw [CallRecord.submissions_recordOf, Profile.submissions]
  cases hc : c.profile.control with
  | submitted selection operationType operationContext payload =>
    have hcontext := control_context hc hrmdir
    cases hs : o.mountPointTable.controls selection with
    | false => simp [hs]
    | true => simpa [hs] using hcontext
  | unsubmitted enforced => simp

/-- `rmdir` goes out under the directory context whenever its path is controlled. -/
private theorem recordOf_rmdir (path : Path) (result : Int32) (o : LdPreloadedPosix opts) :
    (∀ s ∈ (recordOf (.rmdir path result) o).submissions, s.operationContext = .metaOp) ↔
      opts.enforces (MountPointTable.extractMountPoint opts path) = false := by
  rw [CallRecord.submissions_recordOf]
  change (∀ s ∈ (if o.mountPointTable.controls (.path path) then _ else _), _) ↔
    o.mountPointTable.controls (.path path) = false
  cases o.mountPointTable.controls (.path path) <;> simp

theorem ofNat_eq_zero {n : Nat} : UInt64.ofNat n = 0 ↔ 2^64 ∣ n := by
  rw [← UInt64.toNat_inj, UInt64.toNat_ofNat', UInt64.toNat_zero, Nat.dvd_iff_mod_eq_zero]

private theorem contexts_iff (calls : List PosixCall) (o : LdPreloadedPosix opts) :
    (∀ r ∈ (run (calls.map .call) o).1,
      ∀ s ∈ r.submissions, s.operationContext = r.call.operation.type.context) ↔
      ∀ path result, .rmdir path result ∈ calls →
        opts.enforces (MountPointTable.extractMountPoint opts path) = false := by
  constructor
  · intro h path result hmem
    rw [← run_calls calls o] at hmem
    obtain ⟨r, hr, hcall⟩ := List.mem_map.mp hmem
    obtain ⟨s, hs⟩ := run_records _ _ r hr
    have hcontext := h r hr
    rw [hs, hcall] at hcontext
    exact (recordOf_rmdir path result s).mp hcontext
  · intro h r hr
    obtain ⟨s, hs⟩ := run_records _ _ r hr
    by_cases hrmdir : r.call.operation = .directory .rmdir
    · have hmem : r.call ∈ calls := by
        rw [← run_calls calls o]
        exact List.mem_map_of_mem hr
      obtain ⟨path, result, hcall⟩ : ∃ path result, r.call = .rmdir path result := by
        cases hc : r.call with
        | rmdir path result => exact ⟨path, result, rfl⟩
        | _ => simp [hc, PosixCall.operation] at hrmdir
      rw [hcall] at hmem hs
      rw [hs]
      exact (recordOf_rmdir path result s).mpr (h path result hmem)
    · rw [hs]
      exact recordOf_context hrmdir s

private theorem sync_not_enforced {r : CallRecord} {s : LdPreloadedPosix opts}
    (hs : r = recordOf r.call s) (h : r.call.operation = .metadata .sync) : r.enforced = false := by
  rw [sync_of_operation h] at hs
  rw [hs]
  exact CallRecord.enforced_recordOf_unsubmitted rfl s

/-- Over the calls of any other operation the statistics take for submitted what was. -/
private theorem counts_other (records : List CallRecord) {op : Operation}
    (hop : op ≠ .metadata .sync) :
    records.countP (fun r => r.countsAsEnforced && decide (r.call.operation = op)) =
        records.countP (fun r => decide (r.call.operation = op) && r.enforced) ∧
      records.countP (fun r => (!r.countsAsEnforced) && decide (r.call.operation = op)) =
        records.countP (fun r => decide (r.call.operation = op) && !r.enforced) := by
  have hsame : ∀ r : CallRecord, r.call.operation = op → r.countsAsEnforced = r.enforced := by
    intro r hr
    rw [CallRecord.countsAsEnforced, hr, decide_eq_false hop, Bool.or_false]
  have hcount : ∀ f : Bool → Bool,
      records.countP (fun r => f r.countsAsEnforced && decide (r.call.operation = op)) =
        records.countP fun r => decide (r.call.operation = op) && f r.enforced := by
    intro f
    apply List.countP_congr
    intro r _
    by_cases hr : r.call.operation = op
    · simp [hr, hsame]
    · simp [hr]
  exact ⟨hcount id, hcount (!·)⟩

/-- Every `sync` is taken for submitted, and none was. -/
private theorem counts_sync {records : List CallRecord}
    (hnone : ∀ r ∈ records, r.call.operation = .metadata .sync → r.enforced = false) :
    records.countP (fun r => r.countsAsEnforced && decide (r.call.operation = .metadata .sync)) =
        records.countP (fun r => decide (r.call.operation = .metadata .sync)) ∧
      records.countP (fun r => decide (r.call.operation = .metadata .sync) && r.enforced) = 0 ∧
      records.countP (fun r =>
        (!r.countsAsEnforced) && decide (r.call.operation = .metadata .sync)) = 0 ∧
      records.countP (fun r => decide (r.call.operation = .metadata .sync) && !r.enforced) =
        records.countP (fun r => decide (r.call.operation = .metadata .sync)) := by
  have hcounted : ∀ r : CallRecord, r.call.operation = .metadata .sync →
      r.countsAsEnforced = true := by
    intro r hr
    rw [CallRecord.countsAsEnforced, decide_eq_true hr, Bool.or_true]
  refine ⟨List.countP_congr fun r _ => ?_, List.countP_eq_zero.mpr fun r hr => ?_,
    List.countP_eq_zero.mpr fun r _ => ?_, List.countP_congr fun r hr => ?_⟩
  · simpa using hcounted r
  · simpa using hnone r hr
  · by_cases hr : r.call.operation = .metadata .sync
    · simp [hcounted r hr]
    · simp [hr]
  · simpa using hnone r hr

private theorem counters_iff {o : LdPreloadedPosix opts} (hcollect : o.collect = true)
    (hfresh : o.stats = {}) (calls : List PosixCall) :
    (∀ op : Operation,
      ((run (calls.map .call) o).2.stats.entry op).operationCounter =
          UInt64.ofNat ((run (calls.map .call) o).1.countP
            fun r => decide (r.call.operation = op) && r.enforced) ∧
        ((run (calls.map .call) o).2.stats.entry op).bypassCounter =
          UInt64.ofNat ((run (calls.map .call) o).1.countP
            fun r => decide (r.call.operation = op) && !r.enforced)) ↔
      2^64 ∣ calls.countP fun c => decide (c.operation = .metadata .sync) := by
  have hcollected : ∀ op, (run (calls.map .call) o).1.filter (·.collected op) =
      (run (calls.map .call) o).1.filter fun r => decide (r.call.operation = op) := by
    refine fun op => List.filter_congr fun r hr => ?_
    rw [CallRecord.collected, run_calls_collecting calls o r hr, hcollect, Bool.true_and]
  have hrecords := run_records (calls.map .call) o
  have hsync : calls.countP (fun c => decide (c.operation = .metadata .sync)) =
      (run (calls.map .call) o).1.countP fun r => decide (r.call.operation = .metadata .sync) := by
    conv_lhs => rw [← run_calls calls o]
    exact List.countP_map
  have hoperation := fun op => run_operationCounter op (calls.map .call) o
  have hbypass := fun op => run_bypassCounter op (calls.map .call) o
  simp only [hfresh, CallStatistics.entry_default, UInt64.zero_add, hcollected,
    List.countP_filter] at hoperation hbypass
  simp only [hoperation, hbypass]
  rw [hsync, ← ofNat_eq_zero]
  generalize (run (calls.map .call) o).1 = records at hrecords ⊢
  have hnone : ∀ r ∈ records, r.call.operation = .metadata .sync → r.enforced = false := by
    intro r hr h
    obtain ⟨s, hs⟩ := hrecords r hr
    exact sync_not_enforced hs h
  obtain ⟨hcounted, hsubmitted, hbypassed, hunsubmitted⟩ := counts_sync hnone
  constructor
  · intro h
    have hop := (h (.metadata .sync)).1
    rw [hcounted, hsubmitted] at hop
    exact hop
  · intro h op
    by_cases hop : op = .metadata .sync
    · rw [hop, hcounted, hsubmitted, hbypassed, hunsubmitted, h]
      exact ⟨rfl, rfl⟩
    · obtain ⟨hoperations, hbypasses⟩ := counts_other records hop
      rw [hoperations, hbypasses]
      exact ⟨rfl, rfl⟩

/-- Submission and accounting agree exactly over the runs without a controlled `rmdir` whose
`sync` calls number a multiple of the counter range. -/
theorem submissionsAgree_iff (prng : Nat → UInt32) (calls : List PosixCall) :
    SubmissionsAgree calls (construct true prng : LdPreloadedPosix opts) ↔
      (∀ path result, .rmdir path result ∈ calls →
        opts.enforces (MountPointTable.extractMountPoint opts path) = false) ∧
      2^64 ∣ calls.countP fun c => decide (c.operation = .metadata .sync) := by
  rw [← contexts_iff calls (construct true prng), ← counters_iff (o := construct true prng) rfl rfl]
  refine ⟨fun h => ⟨fun r hr => (h.1 r hr).2.2, h.2⟩, fun h => ⟨fun r hr => ?_, h.2⟩⟩
  obtain ⟨s, hs⟩ := run_records _ _ r hr
  have hshape := recordOf_shape r.call s
  rw [← hs] at hshape
  exact ⟨hshape.1, hshape.2, h.1 r hr⟩

end Submissions

end Padll
