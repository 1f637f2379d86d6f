import Padll.StatisticsReport
import Padll.Unintercepted

/-! Runs of the whole library: each shows both backends runs of their own on the calls they
serve, so that what holds of the backends holds of the calls an application makes. -/
namespace Padll
variable {opts : Options}

private theorem all_operations : Operation.all.Nodup ∧ ∀ op, op ∈ Operation.all := by
  refine ⟨by decide, fun op => ?_⟩
  cases op with
  | data op => cases op <;> decide
  | metadata op => cases op <;> decide
  | directory op => cases op <;> decide
  | extAttr op => cases op <;> decide
  | special op => cases op <;> decide

/-- A call and whether the enforcing backend is loaded when it is dispatched. -/
structure ServedCall where
  call : InterposedCall
  loaded : Bool

namespace ServedCall
variable {intercept : InterceptedCalls}

/-- The enforcing backend serves the call; `fcntl` never leaves it. -/
def enforcing (intercept : InterceptedCalls) (c : ServedCall) : Bool :=
  c.call.method.operation = .special .fcntl || c.call.flag intercept && c.loaded

theorem implemented {c : ServedCall} (h : ¬ c.enforcing intercept = true) :
    c.call.method.operation ≠ .special .fcntl := by
  intro hfcntl
  rw [enforcing, decide_eq_true hfcntl, Bool.true_or] at h
  exact h rfl

def enforcedCall (intercept : InterceptedCalls) (c : ServedCall) : Option PosixCall :=
  if c.enforcing intercept then some c.call.method else none

def passedCall (intercept : InterceptedCalls) (c : ServedCall) : Option PassthroughCall :=
  if h : c.enforcing intercept then none else some ⟨c.call.method, implemented h⟩

/-- The entry a call is counted in, by the backend that serves it. -/
def countedIn (intercept : InterceptedCalls) (c : ServedCall) : Option Operation :=
  if c.enforcing intercept then some c.call.method.operation else c.call.method.countedIn

theorem countedIn_split (op : Operation) (calls : List ServedCall) :
    (calls.filterMap (·.enforcedCall intercept)).countP (fun c => decide (c.operation = op)) +
        (calls.filterMap (·.passedCall intercept)).countP
          (fun c => decide (c.call.countedIn = some op)) =
      calls.countP fun c => decide (c.countedIn intercept = some op) := by
  rw [List.countP_filterMap, List.countP_filterMap]
  have hsplit : ∀ c : ServedCall, true = true →
      (decide (c.countedIn intercept = some op)).toNat =
        (((c.enforcedCall intercept).map fun c => decide (c.operation = op)).getD false).toNat +
          (((c.passedCall intercept).map
            fun c => decide (c.call.countedIn = some op)).getD false).toNat := by
    intro c _
    by_cases h : c.enforcing intercept = true
    · simp [countedIn, enforcedCall, passedCall, h]
    · simp [countedIn, enforcedCall, passedCall, h]
  have hcounts := OutputMachine.countP_and_eq_add hsplit calls
  simp only [Bool.true_and] at hcounts
  exact hcounts.symm

theorem countedIn_isSome (c : ServedCall) :
    (c.countedIn intercept).isSome =
      !(decide (c.call.method.operation = .metadata .sync) && !c.enforcing intercept) := by
  have hcounted : ∀ c : PosixCall,
      c.countedIn.isSome = !decide (c.operation = .metadata .sync) := by
    intro c
    cases c <;> rfl
  rw [countedIn]
  split
  · next h => simp [h]
  · next h => simp [h, hcounted]

/-- The calls are those of each operation and the `sync` calls passed through. -/
theorem counted_add_passed (intercept : InterceptedCalls) (calls : List ServedCall) :
    (Operation.all.map fun op => UInt64.ofNat
        (calls.countP fun c => decide (c.countedIn intercept = some op))).sum +
      UInt64.ofNat (calls.countP fun c =>
        decide (c.call.method.operation = .metadata .sync) && !c.enforcing intercept) =
      UInt64.ofNat calls.length := by
  have hkeys := OutputMachine.sum_map_countP all_operations.1 all_operations.2
    (·.countedIn intercept) (1 : UInt64) calls
  simp only [nsmul_one_eq] at hkeys
  rw [hkeys, calls.length_eq_countP_add_countP fun c => (c.countedIn intercept).isSome,
    UInt64.ofNat_add]
  refine congrArg₂ (· + ·) rfl (congrArg UInt64.ofNat (List.countP_congr fun c _ => ?_))
  simp [countedIn_isSome]

end ServedCall

namespace InterposedRecord
variable {intercept : InterceptedCalls}

def served (r : InterposedRecord opts) : ServedCall := ⟨r.call, r.before.ldpLoaded⟩

abbrev enforcing (intercept : InterceptedCalls) (r : InterposedRecord opts) : Bool :=
  r.served.enforcing intercept

abbrev enforcedCall (intercept : InterceptedCalls) (r : InterposedRecord opts) :
    Option PosixCall :=
  r.served.enforcedCall intercept

/-- The call as the enforcing backend records it. -/
def enforcedRecord (intercept : InterceptedCalls) (r : InterposedRecord opts) : Option CallRecord :=
  if r.enforcing intercept then
    some ⟨r.call.method, r.before.ldPreloadedPosix.collect, r.after.events, r.returned⟩
  else none

abbrev passedCall (intercept : InterceptedCalls) (r : InterposedRecord opts) :
    Option PassthroughCall :=
  r.served.passedCall intercept

/-- The call as the passthrough backend records it. -/
def passedRecord (intercept : InterceptedCalls) (r : InterposedRecord opts) : Option CallRecord :=
  if r.enforcing intercept then none
  else some ⟨r.call.method, r.before.posixPassthrough.collect, r.after.events, r.returned⟩

abbrev countedIn (intercept : InterceptedCalls) (r : InterposedRecord opts) : Option Operation :=
  r.served.countedIn intercept

end InterposedRecord

/-- The calls among the actions. -/
def FileSystemAction.call? : FileSystemAction → Option InterposedCall
  | call c => some c
  | setLoaded _ => none

namespace PosixFileSystem
variable {intercept : InterceptedCalls}

section Projection
variable {c : InterposedCall} {fs : PosixFileSystem opts}

theorem perform_enforcing (h : (recordOf intercept c fs).enforcing intercept = true) :
    c.perform intercept ⟨fs, []⟩ = onLdPreloaded c.method.perform ⟨fs, []⟩ := by
  by_cases hfcntl : c.method.operation = .special .fcntl
  · cases c with
    | opening call fd =>
      cases call <;> · simp only [InterposedCall.method] at hfcntl; split at hfcntl <;> cases hfcntl
    | direct call fixed =>
      cases call with
      | fcntl fd cmd arg resultValue => rfl
      | _ => cases hfcntl
  · change (decide (c.method.operation = .special .fcntl) || c.flag intercept && fs.ldpLoaded) =
      true at h
    rw [decide_eq_false hfcntl, Bool.false_or] at h
    rw [perform_dispatches intercept c ⟨c.method, hfcntl⟩ rfl]
    exact if_pos h

theorem perform_passing (h : ¬ (recordOf intercept c fs).enforcing intercept = true) :
    c.perform intercept ⟨fs, []⟩ = onPassthrough
      (PassthroughCall.perform ⟨c.method, ServedCall.implemented h⟩) ⟨fs, []⟩ := by
  have hfcntl : c.method.operation ≠ .special .fcntl := ServedCall.implemented h
  change ¬ (decide (c.method.operation = .special .fcntl) || c.flag intercept && fs.ldpLoaded) =
    true at h
  rw [decide_eq_false hfcntl, Bool.false_or] at h
  rw [perform_dispatches intercept c ⟨c.method, hfcntl⟩ rfl]
  exact if_neg h

private theorem step_enforcing (a : FileSystemAction) (fs : PosixFileSystem opts) :
    LdPreloadedPosix.run ((step intercept a fs).1.filterMap
        fun r => (r.enforcedCall intercept).map .call) fs.ldPreloadedPosix =
      ((step intercept a fs).1.filterMap (·.enforcedRecord intercept),
        (step intercept a fs).2.ldPreloadedPosix) := by
  cases a with
  | setLoaded value => rfl
  | call c =>
    have hstep : step intercept (.call c) fs =
      ([recordOf intercept c fs], (recordOf intercept c fs).after.object) := rfl
    rw [hstep]
    by_cases h : (recordOf intercept c fs).enforcing intercept = true
    · simp only [List.filterMap_cons, List.filterMap_nil, ServedCall.enforcedCall,
        InterposedRecord.enforcedRecord, if_pos h, Option.map_some]
      rw [recordOf, perform_enforcing h]
      rfl
    · simp only [List.filterMap_cons, List.filterMap_nil, ServedCall.enforcedCall,
        InterposedRecord.enforcedRecord, if_neg h, Option.map_none]
      rw [recordOf, perform_passing h]
      rfl

private theorem step_passing (a : FileSystemAction) (fs : PosixFileSystem opts) :
    PosixPassthrough.run ((step intercept a fs).1.filterMap (·.passedCall intercept))
        fs.posixPassthrough =
      ((step intercept a fs).1.filterMap (·.passedRecord intercept),
        (step intercept a fs).2.posixPassthrough) := by
  cases a with
  | setLoaded value => rfl
  | call c =>
    have hstep : step intercept (.call c) fs =
      ([recordOf intercept c fs], (recordOf intercept c fs).after.object) := rfl
    rw [hstep]
    by_cases h : (recordOf intercept c fs).enforcing intercept = true
    · simp only [List.filterMap_cons, List.filterMap_nil, ServedCall.passedCall,
        InterposedRecord.passedRecord, if_pos h, dif_pos h]
      rw [recordOf, perform_enforcing h]
      rfl
    · simp only [List.filterMap_cons, List.filterMap_nil, ServedCall.passedCall,
        InterposedRecord.passedRecord, if_neg h, dif_neg h]
      let recorded (w : CValue × World (PosixFileSystem opts)) :
          List CallRecord × PosixPassthrough :=
        ([⟨c.method, fs.posixPassthrough.collect, w.2.events, w.1⟩], w.2.object.posixPassthrough)
      exact congrArg recorded (perform_passing h).symm

theorem run_interposed (intercept : InterceptedCalls) (actions : List FileSystemAction)
    (fs : PosixFileSystem opts) :
    (run intercept actions fs).1.map (·.call) = actions.filterMap (·.call?) := by
  induction actions generalizing fs with
  | nil => rfl
  | cons a actions ih =>
    cases a with
    | call c =>
      rw [run_call_cons]
      exact congrArg (c :: ·) (ih _)
    | setLoaded value => exact ih _

theorem run_enforcing (intercept : InterceptedCalls) (actions : List FileSystemAction)
    (fs : PosixFileSystem opts) :
    LdPreloadedPosix.run
        (((run intercept actions fs).1.filterMap (·.enforcedCall intercept)).map .call)
        fs.ldPreloadedPosix =
      ((run intercept actions fs).1.filterMap (·.enforcedRecord intercept),
        (run intercept actions fs).2.ldPreloadedPosix) := by
  rw [List.map_filterMap]
  exact OutputMachine.run_component step_enforcing actions fs

theorem run_passing (intercept : InterceptedCalls) (actions : List FileSystemAction)
    (fs : PosixFileSystem opts) :
    PosixPassthrough.run ((run intercept actions fs).1.filterMap (·.passedCall intercept))
        fs.posixPassthrough =
      ((run intercept actions fs).1.filterMap (·.passedRecord intercept),
        (run intercept actions fs).2.posixPassthrough) :=
  OutputMachine.run_component step_passing actions fs

/-- A run answers the calls in order, and each backend goes through a run of its own on the calls
that it serves: the records, events and answers of the whole are those of the two. -/
theorem run_projects (intercept : InterceptedCalls) (actions : List FileSystemAction)
    (fs : PosixFileSystem opts) :
    let (records, final) := run intercept actions fs
    records.map (·.call) = actions.filterMap (·.call?) ∧
      LdPreloadedPosix.run ((records.filterMap (·.enforcedCall intercept)).map .call)
          fs.ldPreloadedPosix =
        (records.filterMap (·.enforcedRecord intercept), final.ldPreloadedPosix) ∧
      PosixPassthrough.run (records.filterMap (·.passedCall intercept)) fs.posixPassthrough =
        (records.filterMap (·.passedRecord intercept), final.posixPassthrough) :=
  ⟨run_interposed intercept actions fs, run_enforcing intercept actions fs,
    run_passing intercept actions fs⟩

end Projection

section Conservation

/-- What the counters of both backends hold of the calls of an operation. -/
def counted (fs : PosixFileSystem opts) (op : Operation) : UInt64 :=
  (fs.ldPreloadedPosix.stats.entry op).operationCounter +
    (fs.ldPreloadedPosix.stats.entry op).bypassCounter +
      (fs.posixPassthrough.stats.entry op).operationCounter

/-- The objects right after construction. -/
def construct (prng : Nat → UInt32) (loaded : Bool) : PosixFileSystem opts where
  posixPassthrough := .construct true
  ldpLoaded := loaded
  ldPreloadedPosix := .construct true prng

private theorem enforced_counted {calls : List PosixCall} {records : List CallRecord}
    {final : LdPreloadedPosix opts} {prng : Nat → UInt32}
    (hrun : LdPreloadedPosix.run (calls.map .call) (.construct true prng) = (records, final))
    (op : Operation) :
    (final.stats.entry op).operationCounter + (final.stats.entry op).bypassCounter =
      UInt64.ofNat (calls.countP fun c => decide (c.operation = op)) := by
  have hentry := @LdPreloadedPosix.entry_run opts true prng (calls.map .call) op
  have hcalls := LdPreloadedPosix.run_calls calls (.construct true prng : LdPreloadedPosix opts)
  have hcollecting := LdPreloadedPosix.run_calls_collecting calls
    (.construct true prng : LdPreloadedPosix opts)
  rw [hrun] at hentry hcalls hcollecting
  have hcollected : (records.filter (·.collected op)).length =
      calls.countP fun c => decide (c.operation = op) := by
    rw [← List.countP_eq_length_filter, ← hcalls, List.countP_map]
    refine List.countP_congr fun r hr => ?_
    rw [CallRecord.collected, hcollecting r hr]
    rfl
  rw [hentry, enforcedEntry, ← hcollected,
    List.length_eq_countP_add_countP (·.countsAsEnforced), UInt64.ofNat_add]
  exact congrArg₂ (· + ·) rfl (congrArg UInt64.ofNat (List.countP_congr fun r _ => by simp))

/-- Every call of an application is counted once, by one of the backends and in one entry, but for
the `sync` calls that are passed through. -/
theorem run_conserves (intercept : InterceptedCalls) (prng : Nat → UInt32) (loaded : Bool)
    (actions : List FileSystemAction) :
    let outcome := run intercept actions (construct prng loaded : PosixFileSystem opts)
    (∀ op, outcome.2.counted op =
      UInt64.ofNat (outcome.1.countP fun r => decide (r.countedIn intercept = some op))) ∧
    (Operation.all.map outcome.2.counted).sum +
        UInt64.ofNat (outcome.1.countP fun r =>
          decide (r.call.method.operation = .metadata .sync) && !r.enforcing intercept) =
      UInt64.ofNat (actions.filterMap (·.call?)).length := by
  intro outcome
  let start : PosixFileSystem opts := construct prng loaded
  let served := outcome.1.map (·.served)
  have hcalls : outcome.1.map (·.call) = _ := run_interposed intercept actions start
  have hserved : ∀ p : ServedCall → Bool,
      outcome.1.countP (fun r => p r.served) = served.countP p := fun p => List.countP_map.symm
  have hcounted : ∀ op, outcome.2.counted op =
      UInt64.ofNat (served.countP fun c => decide (c.countedIn intercept = some op)) := by
    intro op
    have hpassing := PosixPassthrough.entry_run (outcome.1.filterMap (·.passedCall intercept)) op
    rw [show PosixPassthrough.run _ (.construct true) = _ from run_passing intercept actions start]
      at hpassing
    rw [counted, enforced_counted (run_enforcing intercept actions start),
      ← ServedCall.countedIn_split, List.filterMap_map, List.filterMap_map, UInt64.ofNat_add,
      show outcome.2.posixPassthrough.stats.entry op = _ from hpassing]
    rfl
  refine ⟨fun op => (hcounted op).trans (congrArg UInt64.ofNat (hserved _).symm), ?_⟩
  rw [← hcalls, List.length_map, ← List.length_map (f := (·.served)),
    ← ServedCall.counted_add_passed intercept served, ← hserved,
    List.map_congr_left fun op _ => hcounted op]
  rfl

end Conservation

end PosixFileSystem

end Padll
