import Padll.EnforcedAccounting
import Padll.PosixPassthrough

/-! Accounting of the passthrough backend: what a run adds to the counters of every
operation, and over which runs these count the calls and failures of that operation. -/
namespace Padll
namespace PosixPassthrough

section Judgement

/-- Answers libc does not give, a positive status or one below `-1`, on which the success
test of a method and the sign of the result disagree. -/
def offContract : PosixCall → Bool
  | .munmap _ _ r | .statfs _ _ r | .fstatfs _ _ r | .statfs64 _ _ r | .fstatfs64 _ _ r
  | .unlink _ r | .unlinkat _ _ _ r | .rename _ _ r | .renameat _ _ _ _ r | .fclose _ r => 0 < r
  | .getxattr _ _ _ _ r | .lgetxattr _ _ _ _ r | .fgetxattr _ _ _ _ r | .listxattr _ _ _ r
  | .llistxattr _ _ _ r | .flistxattr _ _ _ r => r < -1
  | .setxattr _ _ _ _ _ r | .lsetxattr _ _ _ _ _ r | .fsetxattr _ _ _ _ _ r
  | .socket _ _ _ r | .fcntl _ _ _ r => r < -1
  | _ => false

/-- The operations whose methods take every answer but `-1` for a success. -/
def acceptsBelowMinusOne : Operation → Bool
  | .extAttr _ | .special _ => true
  | _ => false

private theorem status_split (r : Int32) :
    (!decide (r = 0)).toNat = (decide (r < 0)).toNat + (decide (0 < r)).toNat := by
  simp only [Int32.lt_iff_toInt_lt, ← Int32.toInt_inj, Int32.toInt_zero]
  rcases lt_trichotomy r.toInt 0 with h | h | h
  · simp [h, h.ne, h.not_gt]
  · simp [h]
  · simp [h, h.ne', h.not_gt]

private theorem negative_split (z : Int) :
    (decide (z < 0)).toNat = (!decide (z ≠ -1)).toNat + (decide (z < -1)).toNat := by
  rcases lt_trichotomy z (-1) with h | h | h
  · simp [h, h.ne, show z < 0 by omega]
  · simp [h]
  · simp [h.ne', h.not_gt, show ¬ z < 0 by omega]

private theorem attrStatus_split (r : Int32) :
    (decide (r < 0)).toNat = (!decide (r ≠ -1)).toNat + (decide (r < -1)).toNat := by
  have hminus : (-1 : Int32).toInt = -1 := rfl
  simp only [Int32.lt_iff_toInt_lt, ne_eq, ← Int32.toInt_inj, Int32.toInt_zero, hminus]
  exact negative_split r.toInt

private theorem attrSize_split (r : Int64) :
    (decide (r < 0)).toNat = (!decide (r ≠ -1)).toNat + (decide (r < -1)).toNat := by
  have hminus : (-1 : Int64).toInt = -1 := rfl
  simp only [Int64.lt_iff_toInt_lt, ne_eq, ← Int64.toInt_inj, Int64.toInt_zero, hminus]
  exact negative_split r.toInt

/-- How the error a method counts and the failure of its call differ, answer by answer. -/
theorem judgement (c : PosixCall) :
    if acceptsBelowMinusOne c.operation then
      c.failed.toNat = (!c.passes).toNat + (offContract c).toNat
    else (!c.passes).toNat = c.failed.toNat + (offContract c).toNat := by
  cases c with
  | munmap _ _ r | statfs _ _ r | fstatfs _ _ r | statfs64 _ _ r | fstatfs64 _ _ r | unlink _ r
  | unlinkat _ _ _ r | rename _ _ r | renameat _ _ _ _ r | fclose _ r => exact status_split r
  | getxattr _ _ _ _ r | lgetxattr _ _ _ _ r | fgetxattr _ _ _ _ r | listxattr _ _ _ r
  | llistxattr _ _ _ r | flistxattr _ _ _ r => exact attrSize_split r
  | setxattr _ _ _ _ _ r | lsetxattr _ _ _ _ _ r | fsetxattr _ _ _ _ _ r
  | socket _ _ _ r | fcntl _ _ _ r => exact attrStatus_split r
  | read _ _ _ r | write _ _ _ r | pread _ _ _ _ r | pwrite _ _ _ _ r | pread64 _ _ _ _ r
  | pwrite64 _ _ _ _ r =>
    change (!decide (0 ≤ r)).toNat = (decide (r < 0)).toNat + 0
    simp [← Int64.not_le]
  | openVariadic _ _ _ r | «open» _ _ r | creat _ _ r | creat64 _ _ r | openatVariadic _ _ _ _ r
  | openat _ _ _ r | open64Variadic _ _ _ r | open64 _ _ r | close _ r =>
    change (!decide (0 ≤ r)).toNat = (decide (r < 0)).toNat + 0
    simp [← Int32.not_le]
  | mmap _ _ _ _ _ _ memPtr =>
    change (!decide (memPtr ≠ mapFailed)).toNat = (decide (memPtr = mapFailed)).toNat + 0
    simp
  | fopen _ _ fptr | fopen64 _ _ fptr =>
    change (!decide (fptr ≠ .nullptr)).toNat = (decide (fptr = .nullptr)).toNat + 0
    simp
  | mkdir _ _ r | mkdirat _ _ _ r | mknod _ _ _ r | mknodat _ _ _ _ r | rmdir _ r =>
    change (!decide (r = 0)).toNat = (decide (r ≠ 0)).toNat + 0
    simp
  | sync => rfl

end Judgement

section Counters

theorem run_calls (calls : List PassthroughCall) (o : PosixPassthrough) :
    (run calls o).1.map (·.call) = calls.map (·.call) := by
  induction calls generalizing o with
  | nil => rfl
  | cons c calls ih =>
    rw [run, OutputMachine.run_cons, step_eq]
    exact congrArg (c.call :: ·) (ih (after c.call o))

/-- Calls neither switch the collection on nor off. -/
theorem after_collect (c : PosixCall) (o : PosixPassthrough) : (after c o).collect = o.collect := by
  unfold after
  split <;> rfl

theorem run_collect (calls : List PassthroughCall) (o : PosixPassthrough) :
    (run calls o).2.collect = o.collect := by
  induction calls generalizing o with
  | nil => rfl
  | cons c calls ih =>
    rw [run, OutputMachine.run_cons, step_eq]
    exact (ih (after c.call o)).trans (after_collect c.call o)

theorem entry_after (c : PosixCall) {o : PosixPassthrough} (hcollect : o.collect = true)
    (op : Operation) :
    (after c o).stats.entry op =
      if c.countedIn = some op then c.passthroughUpdate.applyEntry (o.stats.entry op)
      else o.stats.entry op := by
  unfold after
  cases c.countedIn with
  | none => rfl
  | some operation =>
    simp only [hcollect, if_true, CallStatistics.entry_record, Option.some.injEq, eq_comm]

/-- A counter of one operation that every marked call raises by one counts them. -/
private theorem run_count (op : Operation) (mark : PosixCall → Bool)
    {counter : StatisticEntry → UInt64} {added : StatisticUpdate → UInt64}
    (happly : ∀ u e, counter (u.applyEntry e) = counter e + added u)
    (hmark : ∀ c : PosixCall,
      (if mark c then 1 else 0) = if c.countedIn = some op then added c.passthroughUpdate else 0)
    (calls : List PassthroughCall) {o : PosixPassthrough} (hcollect : o.collect = true) :
    counter ((run calls o).2.stats.entry op) =
      counter (o.stats.entry op) + UInt64.ofNat (calls.countP (mark ·.call)) := by
  have hcalls : calls.countP (mark ·.call) = (run calls o).1.countP (mark ·.call) := by
    have h := congrArg (List.countP mark) (run_calls calls o)
    rw [List.countP_map, List.countP_map] at h
    exact h.symm
  rw [hcalls, ← nsmul_one_eq, ← OutputMachine.sum_map_indicator]
  refine OutputMachine.run_tally (I := fun s : PosixPassthrough => s.collect = true)
    (fun s : PosixPassthrough => counter (s.stats.entry op)) _ ?_ ?_ calls hcollect
  · intro c s hs
    rw [step_eq]
    exact (after_collect c.call s).trans hs
  · intro c s hs
    rw [step_eq, entry_after c.call hs]
    simp only [List.map_cons, List.map_nil, List.sum_cons, List.sum_nil, add_zero, hmark]
    split
    · exact happly _ _
    · exact (add_zero _).symm

theorem run_operationCounter (op : Operation) (calls : List PassthroughCall)
    {o : PosixPassthrough} (hcollect : o.collect = true) :
    ((run calls o).2.stats.entry op).operationCounter =
      (o.stats.entry op).operationCounter +
        UInt64.ofNat (calls.countP fun c => decide (c.call.countedIn = some op)) := by
  refine run_count op (fun c => decide (c.countedIn = some op))
    StatisticUpdate.applyEntry_operationCounter ?_ calls hcollect
  intro c
  by_cases hop : c.countedIn = some op
  · rw [PosixCall.passthroughUpdate]
    cases c.passes <;> simp [hop, StatisticUpdate.operations]
  · simp [hop]

theorem run_errorCounter (op : Operation) (calls : List PassthroughCall)
    {o : PosixPassthrough} (hcollect : o.collect = true) :
    ((run calls o).2.stats.entry op).errorCounter =
      (o.stats.entry op).errorCounter +
        UInt64.ofNat (calls.countP fun c =>
          decide (c.call.countedIn = some op) && !c.call.passes) := by
  refine run_count op (fun c => decide (c.countedIn = some op) && !c.passes)
    StatisticUpdate.applyEntry_errorCounter ?_ calls hcollect
  intro c
  by_cases hop : c.countedIn = some op
  · rw [PosixCall.passthroughUpdate]
    cases c.passes <;> simp [hop, StatisticUpdate.errors]
  · simp [hop]

theorem run_entryName (op : Operation) (calls : List PassthroughCall) {o : PosixPassthrough}
    (hcollect : o.collect = true) :
    ((run calls o).2.stats.entry op).entryName = (o.stats.entry op).entryName := by
  refine (OutputMachine.run_invariant (I := fun s : PosixPassthrough => s.collect = true ∧
    (s.stats.entry op).entryName = (o.stats.entry op).entryName) ?_ calls ⟨hcollect, rfl⟩).2
  rintro c s ⟨hs, hname⟩
  rw [step_eq]
  refine ⟨(after_collect c.call s).trans hs, ?_⟩
  rw [entry_after c.call hs]
  split
  · exact (StatisticUpdate.applyEntry_entryName _ _).trans hname
  · exact hname

end Counters

section Conservation

/-- The statistics are conserved over a run: the entry of every operation counts its calls and
its failures, and no call changes the entry of another operation. -/
def StatisticsConserved (calls : List PassthroughCall) (o : PosixPassthrough) : Prop :=
  (∀ op : Operation,
    let entry := (run calls o).2.stats.entry op
    entry.entryName = op.name ∧
      entry.operationCounter =
        UInt64.ofNat (calls.countP fun c => decide (c.call.operation = op)) ∧
      entry.errorCounter =
        UInt64.ofNat (calls.countP fun c => decide (c.call.operation = op) && c.call.failed)) ∧
  ∀ before c later, calls = before ++ c :: later → ∀ op, op ≠ c.call.operation →
    (run (before ++ [c]) o).2.stats.entry op = (run before o).2.stats.entry op

/-- `open64` with a mode is missing from its own entry. -/
theorem open64_miscounted :
    ¬ StatisticsConserved [⟨.open64Variadic "/tmp/x".toList 0o100 0o644 3, by decide⟩]
      (construct true) := by
  intro h
  have hop := (h.1 (.metadata .open64Variadic)).2.1
  exact absurd hop (by decide)

/-- Away from `open64` with a mode a call is counted in its own entry, and `sync` in none. -/
private theorem countedIn_eq {c : PosixCall} (h : c.operation ≠ .metadata .open64Variadic) :
    c.countedIn = if c.operation = .metadata .sync then none else some c.operation := by
  cases c with
  | open64Variadic path flags mode fd => exact absurd rfl h
  | _ => rfl

private theorem frame_iff (calls : List PassthroughCall) {o : PosixPassthrough}
    (hcollect : o.collect = true) :
    (∀ before c later, calls = before ++ c :: later → ∀ op, op ≠ c.call.operation →
      (run (before ++ [c]) o).2.stats.entry op = (run before o).2.stats.entry op) ↔
      ∀ c ∈ calls, c.call.operation ≠ .metadata .open64Variadic := by
  have hstep : ∀ (before : List PassthroughCall) (c : PassthroughCall) (op : Operation),
      (run (before ++ [c]) o).2.stats.entry op =
        if c.call.countedIn = some op then
          c.call.passthroughUpdate.applyEntry ((run before o).2.stats.entry op)
        else (run before o).2.stats.entry op := by
    intro before c op
    have hbefore := (run_collect before o).trans hcollect
    rw [run, OutputMachine.run_append, OutputMachine.run_cons, OutputMachine.run_nil, step_eq]
    exact entry_after c.call hbefore op
  constructor
  · intro h c hc hvariadic
    obtain ⟨before, later, rfl⟩ := List.append_of_mem hc
    have hcounted : c.call.countedIn = some (.metadata .open64) := by
      cases hcall : c.call with
      | open64Variadic path flags mode fd => rfl
      | _ => simp [hcall, PosixCall.operation] at hvariadic
    have hkept := h before c later rfl (.metadata .open64) (by simp [hvariadic])
    rw [hstep, if_pos hcounted] at hkept
    exact StatisticUpdate.applyEntry_ne _ _ hkept
  · intro h before c later hcalls op hop
    have hc := h c (hcalls ▸ List.mem_append_right before List.mem_cons_self)
    rw [hstep, countedIn_eq hc, if_neg]
    split
    · simp
    · simpa using hop.symm

/-- Errors counted and calls failed differ by the answers outside libc's contract. -/
private theorem errors_iff (op : Operation) (calls : List PassthroughCall) :
    UInt64.ofNat (calls.countP fun c => decide (c.call.operation = op) && !c.call.passes) =
        UInt64.ofNat (calls.countP fun c => decide (c.call.operation = op) && c.call.failed) ↔
      2^64 ∣ calls.countP fun c => decide (c.call.operation = op) && offContract c.call := by
  have hjudgement : ∀ c : PassthroughCall, decide (c.call.operation = op) = true →
      if acceptsBelowMinusOne op then
        c.call.failed.toNat = (!c.call.passes).toNat + (offContract c.call).toNat
      else (!c.call.passes).toNat = c.call.failed.toNat + (offContract c.call).toNat := by
    intro c hop
    rw [← of_decide_eq_true hop]
    exact judgement c.call
  cases hkind : acceptsBelowMinusOne op with
  | true =>
    simp only [hkind, if_true] at hjudgement
    rw [OutputMachine.countP_and_eq_add hjudgement, UInt64.ofNat_add, eq_comm,
      UInt64.add_eq_left, ofNat_eq_zero]
  | false =>
    simp only [hkind, Bool.false_eq_true, if_false] at hjudgement
    rw [OutputMachine.countP_and_eq_add hjudgement, UInt64.ofNat_add, UInt64.add_eq_left,
      ofNat_eq_zero]

/-- No call of a run is counted as `sync`, and none of them fails. -/
private theorem passed_sync {calls : List PassthroughCall}
    (h : ∀ c ∈ calls, c.call.operation ≠ .metadata .open64Variadic) :
    (∀ c ∈ calls, c.call.countedIn ≠ some (.metadata .sync)) ∧
      ∀ c ∈ calls, c.call.operation = .metadata .sync →
        c.call.failed = false ∧ offContract c.call = false := by
  constructor
  · intro c hc
    rw [countedIn_eq (h c hc)]
    split
    · simp
    · simpa
  · intro c _ hop
    rw [sync_of_operation hop]
    exact ⟨rfl, rfl⟩

/-- `sync` is in no counter and neither fails nor leaves libc's contract. -/
private theorem counts_passed_sync {calls : List PassthroughCall}
    (h : ∀ c ∈ calls, c.call.operation ≠ .metadata .open64Variadic) :
    calls.countP (fun c => decide (c.call.countedIn = some (.metadata .sync))) = 0 ∧
      calls.countP (fun c =>
        decide (c.call.countedIn = some (.metadata .sync)) && !c.call.passes) = 0 ∧
      calls.countP (fun c => decide (c.call.operation = .metadata .sync) && c.call.failed) = 0 ∧
      calls.countP (fun c =>
        decide (c.call.operation = .metadata .sync) && offContract c.call) = 0 := by
  obtain ⟨huncounted, hquiet⟩ := passed_sync h
  refine ⟨?_, ?_, ?_, ?_⟩
  · exact List.countP_eq_zero.mpr fun c hc => by simpa using huncounted c hc
  · exact List.countP_eq_zero.mpr fun c hc => by simp [huncounted c hc]
  · exact List.countP_eq_zero.mpr fun c hc => by simpa using fun hop => (hquiet c hc hop).1
  · exact List.countP_eq_zero.mpr fun c hc => by simpa using fun hop => (hquiet c hc hop).2

/-- Every other operation is counted under its own name. -/
private theorem counts_passed_other {calls : List PassthroughCall}
    (h : ∀ c ∈ calls, c.call.operation ≠ .metadata .open64Variadic) {op : Operation}
    (hsync : op ≠ .metadata .sync) :
    calls.countP (fun c => decide (c.call.countedIn = some op)) =
        calls.countP (fun c => decide (c.call.operation = op)) ∧
      calls.countP (fun c => decide (c.call.countedIn = some op) && !c.call.passes) =
        calls.countP fun c => decide (c.call.operation = op) && !c.call.passes := by
  have hcounted : ∀ c ∈ calls, (c.call.countedIn = some op ↔ c.call.operation = op) := by
    intro c hc
    rw [countedIn_eq (h c hc)]
    split
    · next hc => simp [hc, Ne.symm hsync]
    · simp
  constructor
  · exact List.countP_congr fun c hc => by simp [hcounted c hc]
  · exact List.countP_congr fun c hc => by simp [hcounted c hc]

/-- Over runs without `open64` with a mode, the counters of an operation are right exactly
where its missed or misjudged calls fill whole turns of a counter. -/
private theorem counters_iff {calls : List PassthroughCall}
    (h : ∀ c ∈ calls, c.call.operation ≠ .metadata .open64Variadic) (op : Operation) :
    (UInt64.ofNat (calls.countP fun c => decide (c.call.countedIn = some op)) =
          UInt64.ofNat (calls.countP fun c => decide (c.call.operation = op)) ∧
        UInt64.ofNat (calls.countP fun c =>
            decide (c.call.countedIn = some op) && !c.call.passes) =
          UInt64.ofNat (calls.countP fun c => decide (c.call.operation = op) && c.call.failed)) ↔
      (op = .metadata .sync → 2^64 ∣ calls.countP fun c => decide (c.call.operation = op)) ∧
        2^64 ∣ calls.countP fun c => decide (c.call.operation = op) && offContract c.call := by
  rcases eq_or_ne op (.metadata .sync) with rfl | hsync
  · obtain ⟨hnone, herror, hfailed, hoff⟩ := counts_passed_sync h
    rw [hnone, herror, hfailed, hoff, ← ofNat_eq_zero, eq_comm]
    simp
  · obtain ⟨hoperations, herrors⟩ := counts_passed_other h hsync
    rw [hoperations, herrors, errors_iff]
    exact ⟨fun hx => ⟨fun e => absurd e hsync, hx.2⟩, fun hx => ⟨rfl, hx.2⟩⟩

/-- The statistics are conserved exactly over the runs without `open64` with a mode whose
`sync` calls, and whose answers outside libc's contract for any one operation, number
multiples of the counter range. -/
theorem statisticsConserved_iff (calls : List PassthroughCall) :
    StatisticsConserved calls (construct true) ↔
      (∀ c ∈ calls, c.call.operation ≠ .metadata .open64Variadic) ∧
      2^64 ∣ calls.countP (fun c => decide (c.call.operation = .metadata .sync)) ∧
      ∀ op, 2^64 ∣ calls.countP fun c => decide (c.call.operation = op) && offContract c.call := by
  have hcollect : (construct true).collect = true := rfl
  have hfresh : ∀ op, (construct true).stats.entry op = { entryName := op.name } :=
    CallStatistics.entry_default
  have hname := fun op => run_entryName op calls hcollect
  have hoperation := fun op => run_operationCounter op calls hcollect
  have herror := fun op => run_errorCounter op calls hcollect
  simp only [hfresh, UInt64.zero_add] at hname hoperation herror
  rw [StatisticsConserved, frame_iff calls hcollect]
  simp only [hname, hoperation, herror, true_and]
  constructor
  · rintro ⟨hcounters, hvariadic⟩
    have hop := fun op => (counters_iff hvariadic op).mp (hcounters op)
    exact ⟨hvariadic, (hop _).1 rfl, fun op => (hop op).2⟩
  · rintro ⟨hvariadic, hsync, hoff⟩
    refine ⟨fun op => (counters_iff hvariadic op).mpr ⟨?_, hoff op⟩, hvariadic⟩
    rintro rfl
    exact hsync

end Conservation

end PosixPassthrough

end Padll
