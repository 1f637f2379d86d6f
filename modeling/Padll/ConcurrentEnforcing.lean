import Padll.ConcurrentPassthrough
import Padll.TableIntegrity

/-! Threads on the enforcing backend: a call chooses its workflow, submits, calls libc, settles
the tables and then counts, and other threads run in between. -/
namespace Padll
open Interleaving ThreadCalls
variable {opts : Options}

namespace CallRecord

/-- What a recorded call adds to its entry. -/
def update (r : CallRecord) : StatisticUpdate :=
  statisticUpdate r.call.operation.type r.call.profile.status r.countsAsEnforced

theorem update_recordOf (c : PosixCall) (o : LdPreloadedPosix opts) :
    (LdPreloadedPosix.recordOf c o).update = c.profile.update o.mountPointTable := by
  rw [update, countsAsEnforced, Profile.update, counted_eq, c.profile_operation]
  rfl

/-- What a recorded call adds to a counter of an operation. -/
def worth (op : Operation) (c : Counter) (r : CallRecord) : UInt64 :=
  if r.collected op then r.update.amount c else 0

theorem events_recordOf (c : PosixCall) (o : LdPreloadedPosix opts) :
    (LdPreloadedPosix.recordOf c o).events =
      (LdPreloadedPosix.recordOf c o).submissions.map .submit ++ [.libc c.libcCall] := by
  rw [submissions_recordOf]
  rfl

end CallRecord

namespace LdPreloadedPosix

/-- The backend as the threads see it: what they did in order, and the calls in the order of
their libc calls. -/
structure SharedEnforcing (opts : Options) (Tid : Type) where
  object : LdPreloadedPosix opts
  events : List (Tid × Event)
  log : List (Tid × CallRecord)

/-- Where a thread stands in a call. -/
inductive EnforcingPhase where
  | chosen (r : CallRecord)
  | submitted (r : CallRecord)
  | called (r : CallRecord)
  | counting (op : Operation) (increments : List CounterIncrement)

variable {Tid : Type}

namespace SharedEnforcing

def choose (x : SharedEnforcing opts Tid) (c : PosixCall) : SharedEnforcing opts Tid :=
  let object := { x.object with
    hooked := Function.update x.object.hooked c.profile.slot true
    mountPointTable := c.profile.chosen x.object.mountPointTable }
  { x with object := object }

def submit (x : SharedEnforcing opts Tid) (t : Tid) (r : CallRecord) : SharedEnforcing opts Tid :=
  { x with events := x.events ++ r.submissions.map fun s => (t, .submit s) }

def callLibc (x : SharedEnforcing opts Tid) (t : Tid) (r : CallRecord) :
    SharedEnforcing opts Tid :=
  { x with events := x.events ++ [(t, .libc r.call.libcCall)], log := x.log ++ [(t, r)] }

def settle (x : SharedEnforcing opts Tid) (c : PosixCall) : SharedEnforcing opts Tid :=
  let object := { x.object with
    mountPointTable := Padll.settle x.object.mountPointTable c.profile.effect }
  { x with object := object }

def increment (x : SharedEnforcing opts Tid) (op : Operation) (i : CounterIncrement) :
    SharedEnforcing opts Tid :=
  let object := { x.object with stats := x.object.stats.increment op i }
  { x with object := object }

end SharedEnforcing

/-- The call picks its workflow, which decides all it is going to submit and count. The lookup
under the lock, the reading of the entry through the pointer and the draw of the generator are one
step here, although other threads can run between them. -/
def startCall (c : PosixCall) (x : SharedEnforcing opts Tid) :
    EnforcingPhase × SharedEnforcing opts Tid :=
  (.chosen (recordOf c x.object), x.choose c)

/-- The next phase of a call, or its return. -/
def resumeCall (t : Tid) (phase : EnforcingPhase) (x : SharedEnforcing opts Tid) :
    Option EnforcingPhase × SharedEnforcing opts Tid :=
  match phase with
  | .chosen r => (some (.submitted r), x.submit t r)
  | .submitted r => (some (.called r), x.callLibc t r)
  | .called r =>
    (some (.counting r.call.operation (if r.collecting then r.update.increments else [])),
      x.settle r.call)
  | .counting op (i :: rest) => (some (.counting op rest), x.increment op i)
  | .counting _ [] => (none, x)

def phases (opts : Options) (Tid : Type) :
    Phases Tid PosixCall EnforcingPhase (SharedEnforcing opts Tid) where
  start _ := startCall
  resume := resumeCall

section Threads
variable [DecidableEq Tid]

def startThreads (opts : Options) (prng : Nat → UInt32) (calls : Tid → List PosixCall) :
    System Tid PosixCall EnforcingPhase (SharedEnforcing opts Tid) :=
  System.start ⟨construct true prng, [], []⟩ calls

abbrev ReachesThreads (prng : Nat → UInt32) (calls : Tid → List PosixCall) :
    System Tid PosixCall EnforcingPhase (SharedEnforcing opts Tid) → Prop :=
  Reaches (System.next (phases opts Tid)) (fun _ _ => True) (startThreads opts prng calls)

/-- The call a thread has chosen a workflow for without calling libc yet. -/
def EnforcingPhase.undone : EnforcingPhase → List CallRecord
  | .chosen r | .submitted r => [r]
  | _ => []

/-- What a thread has submitted for such a call. -/
def EnforcingPhase.begun : EnforcingPhase → List Event
  | .submitted r => r.submissions.map .submit
  | _ => []

/-- The increments a phase still leads to. -/
private def owed (op : Operation) (c : Counter) : EnforcingPhase → UInt64
  | .called r => r.worth op c
  | .counting op' increments =>
    if op' = op then (increments.map (CounterIncrement.added c)).sum else 0
  | _ => 0

/-- A record is that of its call on some state of the backend. -/
def IsRecord (opts : Options) (r : CallRecord) : Prop :=
  ∃ o : LdPreloadedPosix opts, o.collect = true ∧ r = recordOf r.call o

theorem IsRecord.events {r : CallRecord} (h : IsRecord opts r) :
    r.events = r.submissions.map .submit ++ [.libc r.call.libcCall] := by
  obtain ⟨o, -, ho⟩ := h
  rw [ho]
  exact CallRecord.events_recordOf r.call o

/-- The record a phase is about is one, of a call from a list. -/
def EnforcingPhase.Recorded (opts : Options) (calls : List PosixCall) : EnforcingPhase → Prop
  | .chosen r | .submitted r | .called r => IsRecord opts r ∧ r.call ∈ calls
  | .counting .. => True

variable {prng : Nat → UInt32} {calls : Tid → List PosixCall}
  {s : System Tid PosixCall EnforcingPhase (SharedEnforcing opts Tid)}

/-- Whatever a thread does goes back to a record of its call; the entries keep their names. -/
theorem recorded (hrun : ReachesThreads prng calls s) :
    s.Kept calls (fun t => EnforcingPhase.Recorded opts (calls t)) fun x =>
      (x.object.collect = true ∧ x.object.mountPointTable.KeysValid) ∧
        (∀ entry ∈ x.log, IsRecord opts entry.2) ∧
          ∀ op, (x.object.stats.entry op).entryName = op.name := by
  refine System.reaches_kept ?_ ?_ hrun ⟨⟨rfl, fun key hkey => by cases key <;> cases hkey⟩,
    List.forall_mem_nil _,
    fun op => congrArg StatisticEntry.entryName (CallStatistics.entry_default op)⟩
  · rintro t c hc x ⟨⟨hcollect, hkeys⟩, hlog, hnames⟩
    have hchosen := hkeys.same (c.profile.chosen_same x.object.mountPointTable)
    exact ⟨⟨⟨x.object, hcollect, rfl⟩, hc⟩, ⟨hcollect, hchosen⟩, hlog, hnames⟩
  · rintro t p x ⟨⟨hcollect, hkeys⟩, hlog, hnames⟩ hp
    match p with
    | .chosen r =>
      refine ⟨?_, ⟨hcollect, hkeys⟩, hlog, hnames⟩
      rintro p ⟨⟩
      exact hp
    | .submitted r =>
      refine ⟨?_, ⟨hcollect, hkeys⟩, fun entry hentry => ?_, hnames⟩
      · rintro p ⟨⟩
        exact hp
      · obtain hbefore | hnow := List.mem_append.mp hentry
        · exact hlog entry hbefore
        · obtain rfl := List.mem_singleton.mp hnow
          exact hp.1
    | .called r =>
      refine ⟨?_, ⟨hcollect, hkeys.settle r.call.profile.effect⟩, hlog, hnames⟩
      rintro p ⟨⟩
      trivial
    | .counting op [] =>
      exact ⟨fun p hp => (Option.not_mem_none p hp).elim, ⟨hcollect, hkeys⟩, hlog, hnames⟩
    | .counting op (i :: rest) =>
      refine ⟨?_, ⟨hcollect, hkeys⟩, hlog, fun op' => ?_⟩
      · rintro p ⟨⟩
        trivial
      · change ((x.object.stats.increment op i).entry op').entryName = op'.name
        rw [CallStatistics.entry_increment]
        split
        · rw [CounterIncrement.apply_entryName, hnames]
        · exact hnames op'

/-- The phases of a thread touch its own events and records only. -/
theorem ofThread_resumeCall {t u : Tid} (hu : u ≠ t) (q : EnforcingPhase)
    (x : SharedEnforcing opts Tid) :
    ofThread t (resumeCall u q x).2.log = ofThread t x.log ∧
      ofThread t (resumeCall u q x).2.events = ofThread t x.events := by
  match q with
  | .chosen r =>
    have hnone := ofThread_other hu (r.submissions.map Event.submit)
    rw [List.map_map] at hnone
    refine ⟨rfl, ?_⟩
    change ofThread t (x.events ++ r.submissions.map ((u, ·) ∘ Event.submit)) = _
    rw [ofThread_append, hnone, List.append_nil]
  | .submitted r => simp [resumeCall, SharedEnforcing.callLibc, hu]
  | .called r | .counting op [] | .counting op (i :: rest) => exact ⟨rfl, rfl⟩

/-- A thread's records are those of its calls in order, and its events those of its records. -/
theorem log_of_thread (hrun : ReachesThreads prng calls s) (t : Tid) :
    let undone := (s.phase t).elim [] EnforcingPhase.undone
    (ofThread t s.shared.log ++ undone).map (·.call) ++ s.rest t = calls t ∧
      ofThread t s.shared.events =
        (ofThread t s.shared.log).flatMap (·.events) ++
          (s.phase t).elim [] EnforcingPhase.begun := by
  let R : List PosixCall → Option EnforcingPhase → SharedEnforcing opts Tid → Prop :=
    fun rest p x =>
      (ofThread t x.log ++ p.elim [] EnforcingPhase.undone).map (·.call) ++ rest = calls t ∧
        ofThread t x.events =
          (ofThread t x.log).flatMap (·.events) ++ p.elim [] EnforcingPhase.begun
  refine System.reaches_thread (R := R) t (fun _ => recorded) ?_ ?_ ?_ ?_ hrun ?_
  · rintro c rest x - ⟨hcalls, hevents⟩
    refine ⟨?_, hevents⟩
    simpa [phases, startCall, SharedEnforcing.choose, EnforcingPhase.undone, recordOf] using hcalls
  · rintro rest p x - hp ⟨hcalls, hevents⟩
    cases p with
    | chosen r =>
      refine ⟨hcalls, ?_⟩
      have hown := ofThread_own t (r.submissions.map Event.submit)
      rw [List.map_map] at hown
      simp only [Option.elim_some, EnforcingPhase.begun, List.append_nil] at hevents
      change ofThread t (x.events ++ r.submissions.map ((t, ·) ∘ Event.submit)) = _
      rw [ofThread_append, hown, hevents]
      rfl
    | submitted r =>
      simp only [Option.elim_some, EnforcingPhase.begun, EnforcingPhase.undone] at hcalls hevents
      refine ⟨?_, ?_⟩
      · simpa [phases, resumeCall, SharedEnforcing.callLibc, EnforcingPhase.undone] using hcalls
      · simp [phases, resumeCall, SharedEnforcing.callLibc, EnforcingPhase.begun, hevents,
          hp.1.events]
    | called r => exact ⟨hcalls, hevents⟩
    | counting op increments => cases increments <;> exact ⟨hcalls, hevents⟩
  · rintro u hu c - rest p x - h
    exact h
  · rintro u hu q - rest p x - h
    obtain ⟨hlog, hevents⟩ := ofThread_resumeCall hu q x
    simp only [R, phases, hlog, hevents]
    exact h
  · simp [R]

/-- What the counters hold and what is owed to them is what the records are worth. -/
private theorem counter_pending [Fintype Tid] (hrun : ReachesThreads prng calls s)
    (op : Operation) (c : Counter) :
    (s.shared.object.stats.entry op).counter c + s.pending (owed op c) =
      (s.shared.log.map fun entry => entry.2.worth op c).sum := by
  refine System.reaches_pending (g := owed op c) (V := fun x m =>
    (x.object.stats.entry op).counter c + m = (x.log.map fun entry => entry.2.worth op c).sum)
    ?_ ?_ hrun ?_
  · rintro t call x m h
    simpa [phases, startCall, owed, SharedEnforcing.choose] using h
  · rintro t p x m h
    match p with
    | .chosen r => exact h
    | .submitted r =>
      simp only [phases, resumeCall, SharedEnforcing.callLibc, Option.elim_some, owed, zero_add,
        List.map_append, List.map_singleton, List.sum_append, List.sum_singleton] at h ⊢
      rw [← h, add_comm (r.worth op c), ← add_assoc]
    | .called r =>
      have howed : owed op c (.counting r.call.operation
          (if r.collecting then r.update.increments else [])) = r.worth op c := by
        cases hr : r.collecting with
        | true =>
          simp [owed, CallRecord.worth, CallRecord.collected, hr, CounterIncrement.sum_added]
        | false => simp [owed, CallRecord.worth, CallRecord.collected, hr]
      simp only [phases, resumeCall, Option.elim_some, howed]
      exact h
    | .counting op' [] => simpa [phases, resumeCall, owed] using h
    | .counting op' (i :: rest) =>
      simp only [phases, resumeCall, Option.elim_some, SharedEnforcing.increment,
        CallStatistics.entry_increment]
      refine Eq.trans ?_ h
      by_cases hop : op' = op
      · simp [owed, hop, CounterIncrement.apply_counter_added, add_assoc]
      · simp [owed, hop, Ne.symm hop]
  · rw [startThreads, System.pending_start, add_zero]
    exact CallStatistics.counter_default op c

omit [DecidableEq Tid] in
/-- What a record adds to a counter, by the accounting of a call. -/
theorem IsRecord.amount {r : CallRecord} (h : IsRecord opts r) (c : Counter) :
    r.update.amount c =
      match c with
      | .operation => if r.countsAsEnforced then 1 else 0
      | .byte => if r.enforced then r.call.bytes else 0
      | .error => if r.enforced && r.call.failed then 1 else 0
      | .bypass => if !r.countsAsEnforced then 1 else 0 := by
  obtain ⟨o, -, ho⟩ := h
  have hcounted : r.call.profile.counted o.mountPointTable = r.countsAsEnforced := by
    rw [counted_eq, ho]
    rfl
  have hupdate : r.update = r.call.profile.update o.mountPointTable := by
    rw [ho]
    exact CallRecord.update_recordOf r.call o
  rw [hupdate]
  cases c with
  | operation => exact (update_operations _ _).trans (by rw [hcounted])
  | byte =>
    rw [ho]
    exact update_bytes r.call o
  | error =>
    rw [ho]
    exact update_errors r.call o
  | bypass =>
    refine (update_bypasses _ _).trans ?_
    rw [hcounted]
    cases r.countsAsEnforced <;> rfl

omit [DecidableEq Tid] in
/-- The worth of the records of an operation, summed, is what its entry is to hold. -/
theorem enforcedEntry_counter {records : List CallRecord}
    (hrecords : ∀ r ∈ records, IsRecord opts r) (op : Operation) (c : Counter) :
    (enforcedEntry records op).counter c = (records.map (·.worth op c)).sum := by
  have hsum : (records.map (·.worth op c)).sum =
      ((records.filter (·.collected op)).map (·.update.amount c)).sum :=
    OutputMachine.sum_map_filter _ _ records
  rw [hsum, List.map_congr_left fun r hr => (hrecords r (List.mem_of_mem_filter hr)).amount c]
  cases c with
  | byte =>
    exact (OutputMachine.sum_map_filter (fun r : CallRecord => r.enforced) (·.call.bytes) _).symm
  | operation | error | bypass =>
    rw [OutputMachine.sum_map_indicator, nsmul_one_eq]
    rfl

/-- Once all threads are done the entries hold what the records are worth. -/
theorem finished_counter [Fintype Tid] (hrun : ReachesThreads prng calls s)
    (hfinished : s.Finished) (op : Operation) (c : Counter) :
    (s.shared.object.stats.entry op).counter c =
      (s.shared.log.map fun entry => entry.2.worth op c).sum := by
  have hcounter := counter_pending hrun op c
  rwa [hfinished.pending_eq_zero, add_zero] at hcounter

theorem finished_log (hrun : ReachesThreads prng calls s) (hfinished : s.Finished) (t : Tid) :
    (ofThread t s.shared.log).map (·.call) = calls t ∧
      ofThread t s.shared.events = (ofThread t s.shared.log).flatMap (·.events) := by
  have hthread := log_of_thread hrun t
  rw [(hfinished t).1, (hfinished t).2] at hthread
  simpa using hthread

/-- Once all threads are done an operation is counted or bypassed as often as they call it. -/
theorem finished_calls [Fintype Tid] (hrun : ReachesThreads prng calls s)
    (hfinished : s.Finished) (op : Operation) :
    (s.shared.object.stats.entry op).operationCounter +
        (s.shared.object.stats.entry op).bypassCounter =
      UInt64.ofNat (∑ t, (calls t).countP fun c => decide (c.operation = op)) := by
  have hworth : ∀ entry ∈ s.shared.log,
      entry.2.worth op .operation + entry.2.worth op .bypass =
        if decide (entry.2.call.operation = op) then 1 else 0 := by
    intro entry hentry
    have hrecord := (recorded hrun).shared.2.1 entry hentry
    have ⟨o, hcollect, ho⟩ := hrecord
    have hcollected : entry.2.collected op = decide (entry.2.call.operation = op) := by
      have hcollecting : entry.2.collecting = true := by
        rw [ho]
        exact hcollect
      rw [CallRecord.collected, hcollecting, Bool.true_and]
    rw [CallRecord.worth, CallRecord.worth, hcollected, hrecord.amount, hrecord.amount]
    cases decide (entry.2.call.operation = op) <;> cases entry.2.countsAsEnforced <;> rfl
  have hthread : ∀ t, (ofThread t s.shared.log).map (·.call) = calls t :=
    fun t => (finished_log hrun hfinished t).1
  have hop := finished_counter hrun hfinished op .operation
  have hbypass := finished_counter hrun hfinished op .bypass
  refine (congrArg₂ (· + ·) hop hbypass).trans ?_
  simp only [← hthread, List.countP_map]
  rw [← List.sum_map_add, List.map_congr_left hworth, OutputMachine.sum_map_indicator,
    nsmul_one_eq, countP_ofThread]
  rfl

/-- Once all threads are done the entries hold the accounting of all the records. -/
theorem finished_entry [Fintype Tid] (hrun : ReachesThreads prng calls s)
    (hfinished : s.Finished) (op : Operation) :
    s.shared.object.stats.entry op = enforcedEntry (s.shared.log.map (·.2)) op := by
  obtain ⟨-, hlog, hnames⟩ := (recorded hrun).shared
  have hrecords : ∀ r ∈ s.shared.log.map (·.2), IsRecord opts r := by
    rintro r hr
    obtain ⟨entry, hentry, rfl⟩ := List.mem_map.mp hr
    exact hlog entry hentry
  apply StatisticEntry.ext_counter
  · exact hnames op
  · intro c
    rw [finished_counter hrun hfinished, enforcedEntry_counter hrecords, List.map_map]
    rfl

/-- The records of the calls that a thread has begun, in order. -/
def begunRecords (s : System Tid PosixCall EnforcingPhase (SharedEnforcing opts Tid)) (t : Tid) :
    List CallRecord :=
  ofThread t s.shared.log ++ (s.phase t).elim [] EnforcingPhase.undone

/-- A record is that of its call on a state the threads have gone through, in which the thread,
with the earlier records, goes on to that call. -/
def Began (prng : Nat → UInt32) (calls : Tid → List PosixCall)
    (s : System Tid PosixCall EnforcingPhase (SharedEnforcing opts Tid)) (t : Tid)
    (earlier : List CallRecord) (r : CallRecord) : Prop :=
  ∃ m, ReachesThreads prng calls m ∧
    Reaches (System.next (phases opts Tid)) (fun _ _ => True) m s ∧
    m.phase t = none ∧ (m.rest t).head? = some r.call ∧ ofThread t m.shared.log = earlier ∧
    r = recordOf r.call m.shared.object

theorem Began.next {s' : System Tid PosixCall EnforcingPhase (SharedEnforcing opts Tid)} {t u : Tid}
    {earlier : List CallRecord} {r : CallRecord} (h : Began prng calls s t earlier r)
    (taken : s.next (phases opts Tid) u = some s') : Began prng calls s' t earlier r := by
  obtain ⟨m, hreached, hlater, hm⟩ := h
  exact ⟨m, hreached, .step hlater trivial taken, hm⟩

/-- A phase of a call begins none. -/
theorem begunRecords_resume {u : Tid} {p : EnforcingPhase} (running : s.phase u = some p)
    (t : Tid) :
    begunRecords ⟨(resumeCall u p s.shared).2, s.rest,
      Function.update s.phase u (resumeCall u p s.shared).1⟩ t = begunRecords s t := by
  rcases eq_or_ne t u with rfl | ht
  · simp only [begunRecords, Function.update_self, running]
    cases p with
    | submitted r => simp [resumeCall, SharedEnforcing.callLibc, EnforcingPhase.undone]
    | counting op increments => cases increments <;> rfl
    | chosen r | called r => rfl
  · simp only [begunRecords, Function.update_of_ne ht, (ofThread_resumeCall ht.symm p s.shared).1]

/-- A call that begins takes the tables as they are. -/
theorem begunRecords_start {u : Tid} {c : PosixCall} {rest : List PosixCall}
    (idle : s.phase u = none) (t : Tid) :
    begunRecords ⟨(startCall c s.shared).2, Function.update s.rest u rest,
      Function.update s.phase u (some (startCall c s.shared).1)⟩ t =
        begunRecords s t ++ if t = u then [recordOf c s.shared.object] else [] := by
  rcases eq_or_ne t u with rfl | ht
  · simp only [begunRecords, Function.update_self, idle, if_true, Option.elim_none, List.append_nil]
    rfl
  · simp only [begunRecords, Function.update_of_ne ht, if_neg ht, List.append_nil]
    rfl

/-- Every record of a thread is that of its call on the state in which the call began. -/
theorem records_began (hrun : ReachesThreads prng calls s) (t : Tid)
    (earlier : List CallRecord) (r : CallRecord) (later : List CallRecord)
    (hrecords : begunRecords s t = earlier ++ r :: later) : Began prng calls s t earlier r := by
  refine hrun.invariant_reached (I := fun s => ∀ t earlier r later,
    begunRecords s t = earlier ++ r :: later → Began prng calls s t earlier r) ?_ ?_ t earlier r
    later hrecords
  · rintro s u s' reached ih - taken t earlier r later hrecords
    cases System.step_of_next taken with
    | resume running =>
      have hbefore := (begunRecords_resume running t).symm.trans hrecords
      exact (ih t earlier r later hbefore).next taken
    | @start c rest idle waiting =>
      have hafter := (begunRecords_start idle t).symm.trans hrecords
      rcases eq_or_ne t u with rfl | ht
      · rw [if_pos rfl] at hafter
        rcases later.eq_nil_or_concat with rfl | ⟨later', last, rfl⟩
        · obtain ⟨hearlier, hr⟩ := List.append_inj' hafter rfl
          obtain rfl := List.singleton_inj.mp hr
          rw [begunRecords, idle, Option.elim_none, List.append_nil] at hearlier
          exact ⟨s, reached, .step .refl trivial taken, idle, congrArg List.head? waiting, hearlier,
            rfl⟩
        · rw [List.concat_eq_append, ← List.cons_append, ← List.append_assoc] at hafter
          exact (ih t earlier r later' (List.append_inj' hafter rfl).1).next taken
      · rw [if_neg ht, List.append_nil] at hafter
        exact (ih t earlier r later hafter).next taken
  · intro t earlier r later hrecords
    exact (List.append_ne_nil_of_right_ne_nil earlier (List.cons_ne_nil r later)
      hrecords.symm).elim

/-- However the threads are scheduled, once all have made their calls each has done what its
records say, in its own order, each record is that of its call on the state in which the call
began, the entries hold the accounting of all the records, and the tables hold valid keys only. -/
theorem threads_account [Fintype Tid] (hrun : ReachesThreads prng calls s)
    (hfinished : s.Finished) :
    (∀ t, (ofThread t s.shared.log).map (·.call) = calls t ∧
      ofThread t s.shared.events = (ofThread t s.shared.log).flatMap (·.events)) ∧
    (∀ t earlier r later, ofThread t s.shared.log = earlier ++ r :: later →
      Began prng calls s t earlier r) ∧
    (∀ op, s.shared.object.stats.entry op = enforcedEntry (s.shared.log.map (·.2)) op) ∧
    s.shared.object.mountPointTable.KeysValid := by
  obtain ⟨-, hkeys⟩ := (recorded hrun).shared.1
  refine ⟨finished_log hrun hfinished, fun t earlier r later hrecords => ?_,
    finished_entry hrun hfinished, hkeys⟩
  refine records_began hrun t earlier r later ?_
  rw [begunRecords, (hfinished t).2, Option.elim_none, List.append_nil, hrecords]

/-- One thread closes while another is between its libc call and the tables. -/
theorem threads_account_two :
    ∃ s : System Bool PosixCall EnforcingPhase (SharedEnforcing (.shipped .single) Bool),
      ReachesThreads (fun _ => 0)
        (fun t => if t then [.«open» "/tmp/x".toList 0 3] else [.close 4 (-1)]) s ∧
      ∀ op, s.shared.object.stats.entry op = enforcedEntry (s.shared.log.map (·.2)) op := by
  have hrun : exec (System.next (phases (Options.shipped .single) Bool))
      (startThreads _ (fun _ => 0) fun t : Bool =>
        if t then [.«open» "/tmp/x".toList 0 3] else [.close 4 (-1)])
      [true, true, true, false, false, false, false, true, true, false, true, false, true, false,
        false] = some _ := rfl
  have hreached : ReachesThreads _ _ _ := Reaches.of_exec (fun _ _ _ => trivial) hrun
  refine ⟨_, hreached, (threads_account hreached fun t => ?_).2.2.1⟩
  cases t with
  | false => exact ⟨rfl, rfl⟩
  | true => exact ⟨rfl, rfl⟩

end Threads

end LdPreloadedPosix

end Padll
