import Padll.ConcurrentUpdates
import Padll.Library.ThreadCalls
import Padll.StatisticsReport

/-! Threads on the passthrough backend: a call is its libc call and then, one atomic increment
after the other, its statistics; the statistics of all threads are those of one of them. -/
namespace Padll
open Interleaving ThreadCalls

namespace StatisticUpdate

/-- The increments an update consists of, in order. -/
def increments : StatisticUpdate → List CounterIncrement
  | counted bytes => [⟨.operation, 1⟩, ⟨.byte, bytes⟩]
  | failed => [⟨.operation, 1⟩, ⟨.byte, 0⟩, ⟨.error, 1⟩]
  | bypassed => [⟨.bypass, 1⟩]

/-- What an update adds to a counter. -/
def amount (u : StatisticUpdate) : Counter → UInt64
  | .operation => u.operations
  | .byte => u.bytes
  | .error => u.errors
  | .bypass => u.bypasses

theorem applyEntry_eq_increments (u : StatisticUpdate) (e : StatisticEntry) :
    u.applyEntry e = u.increments.foldl (fun e i => i.apply e) e := by
  cases u <;> rfl

theorem applyEntry_counter (u : StatisticUpdate) (e : StatisticEntry) (c : Counter) :
    (u.applyEntry e).counter c = e.counter c + u.amount c := by
  cases c with
  | operation => exact u.applyEntry_operationCounter e
  | byte => exact u.applyEntry_byteCounter e
  | error => exact u.applyEntry_errorCounter e
  | bypass => exact u.applyEntry_bypassCounter e

end StatisticUpdate

namespace CounterIncrement

/-- What an increment adds to a counter. -/
def added (c : Counter) (i : CounterIncrement) : UInt64 := if i.counter = c then i.amount else 0

theorem apply_counter_added (i : CounterIncrement) (e : StatisticEntry) (c : Counter) :
    (i.apply e).counter c = e.counter c + i.added c := by
  rw [apply_counter, added]
  split
  · rfl
  · exact (add_zero _).symm

theorem sum_added (u : StatisticUpdate) (c : Counter) :
    (u.increments.map (added c)).sum = u.amount c := by
  cases u <;> cases c <;> simp [StatisticUpdate.increments, added, StatisticUpdate.amount,
    StatisticUpdate.operations, StatisticUpdate.bytes, StatisticUpdate.errors,
    StatisticUpdate.bypasses]

end CounterIncrement

def ClassStatistics.increment {type : OperationType} (s : ClassStatistics type) (operation : Int32)
    (i : CounterIncrement) : ClassStatistics type :=
  ⟨s.1.increment (operation, i), Statistics.modifyEntry_holds s.2 operation i.apply_entryName⟩

namespace CallStatistics

/-- One increment in the entry named after an operation. -/
def increment (s : CallStatistics) (op : Operation) (i : CounterIncrement) : CallStatistics :=
  match op with
  | .metadata o => { s with metadataStats := s.metadataStats.increment o.toInt i }
  | .data o => { s with dataStats := s.dataStats.increment o.toInt i }
  | .directory o => { s with dirStats := s.dirStats.increment o.toInt i }
  | .extAttr o => { s with extAttrStats := s.extAttrStats.increment o.toInt i }
  | .special o => { s with specialStats := s.specialStats.increment o.toInt i }

theorem entry_increment (s : CallStatistics) (op op' : Operation) (i : CounterIncrement) :
    (s.increment op i).entry op' = if op' = op then i.apply (s.entry op') else s.entry op' := by
  have hsame : (s.increment op i).container op.type =
      (s.container op.type).increment op.toInt i := by
    cases op <;> rfl
  by_cases htype : op'.type = op.type
  · have hget : (s.increment op i).getStatisticEntry op'.type op'.toInt =
        if op' = op then (s.getStatisticEntry op'.type op'.toInt).map i.apply
        else s.getStatisticEntry op'.type op'.toInt := by
      rw [getStatisticEntry, getStatisticEntry, htype, hsame]
      exact Statistics.get_modifyEntry (s.container op.type).2 htype i.apply
        ((s.container op.type).increment op.toInt i).2
    rw [entry, hget, getStatisticEntry_eq]
    split <;> rfl
  · have hother : (s.increment op i).container op'.type = s.container op'.type := by
      cases op <;> cases op' <;> first | rfl | exact absurd rfl htype
    have hne : op' ≠ op := fun e => htype (congrArg Operation.type e)
    rw [if_neg hne, entry, getStatisticEntry, hother]
    rfl

theorem counter_default (op : Operation) (c : Counter) :
    (({} : CallStatistics).entry op).counter c = 0 := by
  rw [entry_default]
  cases c <;> rfl

end CallStatistics

namespace PosixPassthrough

/-- The backend as the threads see it, and the calls in the order of their libc calls. -/
structure SharedPassthrough (Tid : Type) where
  world : World PosixPassthrough
  order : List (Tid × PassthroughCall)

/-- The entry a call counts in, and the increments it still is to perform there. -/
abbrev CountingPhase := Option Operation × List CounterIncrement

variable {Tid : Type}

/-- The libc call, after which the call owes the increments of its update. -/
def startCall (t : Tid) (c : PassthroughCall) (x : SharedPassthrough Tid) :
    CountingPhase × SharedPassthrough Tid :=
  ((c.call.countedIn, if x.world.object.collect then c.call.passthroughUpdate.increments else []),
    ⟨⟨x.world.object, x.world.events ++ [.libc c.call.libcCall]⟩, x.order ++ [(t, c)]⟩)

def SharedPassthrough.increment (x : SharedPassthrough Tid) (op : Operation)
    (i : CounterIncrement) : SharedPassthrough Tid :=
  let object := { x.world.object with stats := x.world.object.stats.increment op i }
  { x with world := ⟨object, x.world.events⟩ }

/-- The next increment, or the return. -/
def resumeCall (phase : CountingPhase) (x : SharedPassthrough Tid) :
    Option CountingPhase × SharedPassthrough Tid :=
  match phase with
  | (some op, i :: rest) => (some (some op, rest), x.increment op i)
  | _ => (none, x)

def phases (Tid : Type) : Phases Tid PassthroughCall CountingPhase (SharedPassthrough Tid) where
  start := startCall
  resume _ := resumeCall

section Threads
variable [DecidableEq Tid]

/-- The system right after construction, every thread before its calls. -/
def startThreads (calls : Tid → List PassthroughCall) :
    System Tid PassthroughCall CountingPhase (SharedPassthrough Tid) :=
  System.start ⟨⟨construct true, []⟩, []⟩ calls

abbrev ReachesThreads (calls : Tid → List PassthroughCall) :
    System Tid PassthroughCall CountingPhase (SharedPassthrough Tid) → Prop :=
  Reaches (System.next (phases Tid)) (fun _ _ => True) (startThreads calls)

/-- What the rest of a phase adds to a counter of an operation. -/
private def owed (op : Operation) (c : Counter) (phase : CountingPhase) : UInt64 :=
  if phase.1 = some op then (phase.2.map (CounterIncrement.added c)).sum else 0

/-- What a call adds to a counter of an operation. -/
def worth (op : Operation) (c : Counter) (call : PosixCall) : UInt64 :=
  if call.countedIn = some op then call.passthroughUpdate.amount c else 0

omit [DecidableEq Tid] in
private theorem resumeCall_cases (phase : CountingPhase) (x : SharedPassthrough Tid) :
    (∃ op i rest, phase = (some op, i :: rest) ∧
      resumeCall phase x = (some (some op, rest), x.increment op i)) ∨
    ((∀ op c, owed op c phase = 0) ∧ resumeCall phase x = (none, x)) := by
  obtain ⟨operation, increments⟩ := phase
  cases operation with
  | none => exact .inr ⟨fun _ _ => rfl, rfl⟩
  | some op =>
    cases increments with
    | nil => exact .inr ⟨fun op' c => ite_self 0, rfl⟩
    | cons i rest => exact .inl ⟨op, i, rest, rfl, rfl⟩

variable {calls : Tid → List PassthroughCall}
  {s : System Tid PassthroughCall CountingPhase (SharedPassthrough Tid)}

/-- The libc calls are those of the calls made, in order; names and collection stay. -/
private theorem recorded (hrun : ReachesThreads calls s) :
    s.Kept calls (fun _ _ => True) fun x => x.world.object.collect = true ∧
      x.world.events = x.order.map (fun entry => .libc entry.2.call.libcCall) ∧
        ∀ op, (x.world.object.stats.entry op).entryName = op.name := by
  refine System.reaches_kept ?_ ?_ hrun
    ⟨rfl, rfl, fun op => congrArg StatisticEntry.entryName (CallStatistics.entry_default op)⟩
  · rintro t c - x ⟨hcollect, hevents, hnames⟩
    refine ⟨trivial, hcollect, ?_, hnames⟩
    simp [phases, startCall, hevents]
  · rintro t p x ⟨hcollect, hevents, hnames⟩ -
    refine ⟨fun _ _ => trivial, ?_⟩
    obtain ⟨op, i, rest, -, h⟩ | ⟨-, h⟩ := resumeCall_cases p x
    · simp only [phases, h]
      refine ⟨hcollect, hevents, fun op' => ?_⟩
      simp only [SharedPassthrough.increment, CallStatistics.entry_increment]
      split
      · rw [CounterIncrement.apply_entryName, hnames]
      · exact hnames op'
    · simp only [phases, h]
      exact ⟨hcollect, hevents, hnames⟩

theorem reached_collect (hrun : ReachesThreads calls s) :
    s.shared.world.object.collect = true :=
  (recorded hrun).shared.1

/-- Each thread's calls stand in the order in which it makes them. -/
private theorem order_of_thread (hrun : ReachesThreads calls s) (t : Tid) :
    ofThread t s.shared.order ++ s.rest t = calls t := by
  have hresume : ∀ (phase : CountingPhase) (x : SharedPassthrough Tid),
      (resumeCall phase x).2.order = x.order := by
    intro phase x
    obtain ⟨op, i, rest, -, h⟩ | ⟨-, h⟩ := resumeCall_cases phase x
    · rw [h]
      rfl
    · rw [h]
  refine System.reaches_thread (R := fun rest _ x =>
    ofThread t x.order ++ rest = calls t) t (fun _ => recorded)
    ?_ ?_ ?_ ?_ hrun rfl
  · intro c rest x _ h
    simpa [phases, startCall] using h
  · intro rest p x _ _ h
    exact (hresume p x).symm ▸ h
  · intro u hu c _ rest p x _ h
    simpa [phases, startCall, hu] using h
  · intro u _ q _ rest p x _ h
    exact (hresume q x).symm ▸ h

private theorem counter_pending [Fintype Tid] (hrun : ReachesThreads calls s) (op : Operation)
    (c : Counter) :
    (s.shared.world.object.stats.entry op).counter c + s.pending (owed op c) =
      (s.shared.order.map fun entry => worth op c entry.2.call).sum := by
  have hvalue := System.reaches_pending (g := owed op c) (V := fun x m =>
    x.world.object.collect = true ∧ (x.world.object.stats.entry op).counter c + m =
      (x.order.map fun entry => worth op c entry.2.call).sum) ?_ ?_ hrun ?_
  · exact hvalue.2
  · rintro t call x m ⟨hcollect, h⟩
    refine ⟨hcollect, ?_⟩
    have howed : owed op c (startCall t call x).1 = worth op c call.call := by
      simp [owed, worth, startCall, hcollect, CounterIncrement.sum_added]
    simp only [phases, howed]
    simp only [startCall, List.map_append, List.map_singleton, List.sum_append,
      List.sum_singleton, ← h]
    rw [add_comm (worth op c call.call), ← add_assoc]
  · rintro t p x m ⟨hcollect, h⟩
    obtain ⟨op', i, rest, rfl, hnext⟩ | ⟨hnothing, hnext⟩ := resumeCall_cases p x
    · simp only [phases, hnext, Option.elim_some]
      refine ⟨hcollect, Eq.trans ?_ h⟩
      simp only [SharedPassthrough.increment, CallStatistics.entry_increment, owed,
        Option.some.injEq, List.map_cons, List.sum_cons]
      by_cases hop : op' = op
      · simp [hop, CounterIncrement.apply_counter_added, add_assoc]
      · simp [hop, Ne.symm hop]
    · simp only [phases, hnext, Option.elim_none]
      rw [hnothing] at h
      exact ⟨hcollect, h⟩
  · refine ⟨rfl, ?_⟩
    rw [startThreads, System.pending_start, add_zero]
    exact CallStatistics.counter_default op c

/-- Once all threads are done the counters hold what the calls are worth. -/
theorem finished_counter [Fintype Tid] (hrun : ReachesThreads calls s) (hfinished : s.Finished)
    (op : Operation) (c : Counter) :
    (s.shared.world.object.stats.entry op).counter c =
      (s.shared.order.map fun entry => worth op c entry.2.call).sum := by
  have hcounter := counter_pending hrun op c
  rwa [hfinished.pending_eq_zero, add_zero] at hcounter

theorem finished_order (hrun : ReachesThreads calls s) (hfinished : s.Finished) (t : Tid) :
    ofThread t s.shared.order = calls t := by
  have horder := order_of_thread hrun t
  rwa [(hfinished t).1, List.append_nil] at horder

/-- Once all threads are done an operation is counted as often as they call it. -/
theorem finished_calls [Fintype Tid] (hrun : ReachesThreads calls s) (hfinished : s.Finished)
    (op : Operation) :
    (s.shared.world.object.stats.entry op).operationCounter =
      UInt64.ofNat (∑ t, (calls t).countP fun c => decide (c.call.countedIn = some op)) := by
  have hworth : ∀ c : PosixCall, worth op .operation c =
      if decide (c.countedIn = some op) then 1 else 0 := by
    intro c
    by_cases hop : c.countedIn = some op
    · rw [worth, if_pos hop, if_pos (decide_eq_true hop), PosixCall.passthroughUpdate]
      cases c.passes <;> rfl
    · simp [worth, hop]
  refine (finished_counter hrun hfinished op .operation).trans ?_
  simp only [hworth, ← finished_order hrun hfinished]
  rw [OutputMachine.sum_map_indicator, nsmul_one_eq, countP_ofThread]

/-- The counters of a run depend on which calls it makes, not on their order. -/
private theorem run_counter_perm {order order' : List PassthroughCall} (h : order'.Perm order)
    (op : Operation) (c : Counter) :
    ((run order' (construct true)).2.stats.entry op).counter c =
      (order.map fun call => worth op c call.call).sum := by
  have hsum : ((run order' (construct true)).2.stats.entry op).counter c = _ :=
    @run_sum op (·.counter c) (·.amount c) (fun u e => u.applyEntry_counter e c) order' _ rfl
  have hfresh : ((construct true).stats.entry op).counter c = 0 :=
    CallStatistics.counter_default op c
  rw [hsum, hfresh, zero_add]
  exact (h.map _).sum_eq

/-- Once all threads are done the entries are those of a run of the calls in any order. -/
theorem finished_entry [Fintype Tid] (hrun : ReachesThreads calls s) (hfinished : s.Finished)
    {order : List PassthroughCall} (hperm : order.Perm (s.shared.order.map (·.2)))
    (op : Operation) :
    s.shared.world.object.stats.entry op = (run order (construct true)).2.stats.entry op := by
  apply StatisticEntry.ext_counter
  · rw [(recorded hrun).shared.2.2, run_entryName op order rfl]
    exact (congrArg StatisticEntry.entryName (CallStatistics.entry_default op)).symm
  · intro c
    rw [finished_counter hrun hfinished, run_counter_perm hperm, List.map_map]
    rfl

/-- However the threads are scheduled, once all have made their calls the statistics are those
of one thread that makes the same calls in any order, and each thread's libc calls are made in
its own. -/
theorem threads_serialize [Fintype Tid] (hrun : ReachesThreads calls s) (hfinished : s.Finished) :
    (∀ t, ofThread t s.shared.order = calls t) ∧
      s.shared.world.events = s.shared.order.map (fun entry => .libc entry.2.call.libcCall) ∧
      ∀ order, order.Perm (s.shared.order.map (·.2)) → ∀ op,
        s.shared.world.object.stats.entry op = (run order (construct true)).2.stats.entry op := by
  refine ⟨finished_order hrun hfinished, (recorded hrun).shared.2.1, fun order hperm op => ?_⟩
  exact finished_entry hrun hfinished hperm op

/-- Two threads, one of them counting while the other calls. -/
theorem threads_serialize_two :
    ∃ s, ReachesThreads (fun t : Bool => if t then [⟨.read 3 0 8 8, fun h => by cases h⟩]
        else [⟨.close 4 (-1), fun h => by cases h⟩]) s ∧
      ∀ op, s.shared.world.object.stats.entry op =
        (run (s.shared.order.map (·.2)) (construct true)).2.stats.entry op := by
  have hrun : exec (System.next (phases Bool)) (startThreads fun t : Bool =>
      if t then [⟨.read 3 0 8 8, fun h => by cases h⟩] else [⟨.close 4 (-1), fun h => by cases h⟩])
        [true, false, true, false, false, true, true, false, false] = some _ := rfl
  have hreached : ReachesThreads _ _ := Reaches.of_exec (fun _ _ _ => trivial) hrun
  refine ⟨_, hreached, (threads_serialize hreached fun t => ?_).2.2 _ (.refl _)⟩
  cases t with
  | false => exact ⟨rfl, rfl⟩
  | true => exact ⟨rfl, rfl⟩

end Threads

end PosixPassthrough

end Padll
