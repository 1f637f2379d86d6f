import Padll.ConcurrentEnforcing
import Padll.FileSystemRuns
import Padll.Library.Components

/-! Threads on the interposed functions: a call reads the loading flag and goes through the phases
of the backend it is left to, while other threads call or set the flag. Each backend sees a run of
threads of its own. -/
namespace Padll
open Interleaving ThreadCalls
variable {opts : Options} {Tid : Type}

namespace PosixFileSystem
open LdPreloadedPosix (EnforcingPhase SharedEnforcing)
open PosixPassthrough (CountingPhase SharedPassthrough)

/-- The objects as the threads see them, and the calls in the order in which they read the flag. -/
structure SharedFileSystem (opts : Options) (Tid : Type) where
  enforcing : SharedEnforcing opts Tid
  passing : SharedPassthrough Tid
  ldpLoaded : Bool
  served : List (Tid × ServedCall)

/-- Where a thread stands in an action. -/
inductive FileSystemPhase where
  | dispatched (c : ServedCall)
  | enforcing (p : EnforcingPhase)
  | passing (p : CountingPhase)
  | loading

namespace SharedFileSystem

/-- A phase of the enforcing backend, as one of the whole. -/
def enforce (x : SharedFileSystem opts Tid)
    (after : Option EnforcingPhase × SharedEnforcing opts Tid) :
    Option FileSystemPhase × SharedFileSystem opts Tid :=
  (after.1.map .enforcing, { x with enforcing := after.2 })

/-- A phase of the passthrough backend, as one of the whole. -/
def pass (x : SharedFileSystem opts Tid) (after : Option CountingPhase × SharedPassthrough Tid) :
    Option FileSystemPhase × SharedFileSystem opts Tid :=
  (after.1.map .passing, { x with passing := after.2 })

end SharedFileSystem

/-- A wrapper reads the flag, or the flag is set. -/
def startAction (t : Tid) (a : FileSystemAction) (x : SharedFileSystem opts Tid) :
    FileSystemPhase × SharedFileSystem opts Tid :=
  match a with
  | .call c =>
    let served : ServedCall := ⟨c, x.ldpLoaded⟩
    (.dispatched served, { x with served := x.served ++ [(t, served)] })
  | .setLoaded value => (.loading, { x with ldpLoaded := value })

/-- The next phase in the backend that serves the call. -/
def resumeAction (intercept : InterceptedCalls) (t : Tid) (phase : FileSystemPhase)
    (x : SharedFileSystem opts Tid) : Option FileSystemPhase × SharedFileSystem opts Tid :=
  match phase with
  | .dispatched c =>
    if h : c.enforcing intercept then
      let (p, enforcing) := LdPreloadedPosix.startCall c.call.method x.enforcing
      x.enforce (some p, enforcing)
    else
      let (p, passing) := PosixPassthrough.startCall t ⟨c.call.method, c.implemented h⟩ x.passing
      x.pass (some p, passing)
  | .enforcing p => x.enforce (LdPreloadedPosix.resumeCall t p x.enforcing)
  | .passing p => x.pass (PosixPassthrough.resumeCall p x.passing)
  | .loading => (none, x)

def phases (opts : Options) (Tid : Type) (intercept : InterceptedCalls) :
    Phases Tid FileSystemAction FileSystemPhase (SharedFileSystem opts Tid) where
  start := startAction
  resume := resumeAction intercept

section Threads
variable [DecidableEq Tid]

/-- The system right after construction, every thread before its actions. -/
def startThreads (opts : Options) (prng : Nat → UInt32) (loaded : Bool)
    (actions : Tid → List FileSystemAction) :
    System Tid FileSystemAction FileSystemPhase (SharedFileSystem opts Tid) :=
  System.start ⟨⟨.construct true prng, [], []⟩, ⟨⟨.construct true, []⟩, []⟩, loaded, []⟩ actions

abbrev ReachesThreads (intercept : InterceptedCalls) (prng : Nat → UInt32) (loaded : Bool)
    (actions : Tid → List FileSystemAction) :
    System Tid FileSystemAction FileSystemPhase (SharedFileSystem opts Tid) → Prop :=
  Reaches (System.next (phases opts Tid intercept)) (fun _ _ => True)
    (startThreads opts prng loaded actions)

/-- The calls of a thread that the enforcing backend serves. -/
def SharedFileSystem.enforcedCalls (intercept : InterceptedCalls) (x : SharedFileSystem opts Tid)
    (t : Tid) : List PosixCall :=
  (ofThread t x.served).filterMap (·.enforcedCall intercept)

/-- The calls of a thread that are passed through. -/
def SharedFileSystem.passedCalls (intercept : InterceptedCalls) (x : SharedFileSystem opts Tid)
    (t : Tid) : List PassthroughCall :=
  (ofThread t x.served).filterMap (·.passedCall intercept)

/-- A thread comes to the enforcing backend with the call it has dispatched there. -/
def enforcingStand (intercept : InterceptedCalls) :
    FileSystemPhase → List PosixCall × Option EnforcingPhase
  | .dispatched c => ((c.enforcedCall intercept).toList, none)
  | .enforcing p => ([], some p)
  | _ => ([], none)

/-- A thread comes to the passthrough backend with the call it has dispatched there. -/
def passingStand (intercept : InterceptedCalls) :
    FileSystemPhase → List PassthroughCall × Option CountingPhase
  | .dispatched c => ((c.passedCall intercept).toList, none)
  | .passing p => ([], some p)
  | _ => ([], none)

omit [DecidableEq Tid] in
private theorem resume_dispatched_enforcing {intercept : InterceptedCalls} {c : ServedCall}
    (h : c.enforcing intercept = true) (t : Tid) (x : SharedFileSystem opts Tid) :
    (phases opts Tid intercept).resume t (.dispatched c) x =
      (some (.enforcing (LdPreloadedPosix.startCall c.call.method x.enforcing).1),
        { x with enforcing := (LdPreloadedPosix.startCall c.call.method x.enforcing).2 }) :=
  dif_pos h

omit [DecidableEq Tid] in
private theorem resume_dispatched_passing {intercept : InterceptedCalls} {c : ServedCall}
    (h : ¬ c.enforcing intercept = true) (t : Tid) (x : SharedFileSystem opts Tid) :
    let call : PassthroughCall := ⟨c.call.method, c.implemented h⟩
    (phases opts Tid intercept).resume t (.dispatched c) x =
      (some (.passing (PosixPassthrough.startCall t call x.passing).1),
        { x with passing := (PosixPassthrough.startCall t call x.passing).2 }) :=
  dif_neg h

private theorem enforcingStandOf_enforcing (intercept : InterceptedCalls)
    (p : Option EnforcingPhase) :
    System.Component.standOf (enforcingStand intercept) (p.map .enforcing) = ([], p) := by
  cases p <;> rfl

private theorem enforcingStandOf_passing (intercept : InterceptedCalls) (p : Option CountingPhase) :
    System.Component.standOf (enforcingStand intercept) (p.map .passing) = ([], none) := by
  cases p <;> rfl

private theorem passingStandOf_passing (intercept : InterceptedCalls) (p : Option CountingPhase) :
    System.Component.standOf (passingStand intercept) (p.map .passing) = ([], p) := by
  cases p <;> rfl

private theorem passingStandOf_enforcing (intercept : InterceptedCalls)
    (p : Option EnforcingPhase) :
    System.Component.standOf (passingStand intercept) (p.map .enforcing) = ([], none) := by
  cases p <;> rfl

omit [DecidableEq Tid] in
private theorem resume_served (intercept : InterceptedCalls) (t : Tid) (p : FileSystemPhase)
    (x : SharedFileSystem opts Tid) :
    ((phases opts Tid intercept).resume t p x).2.served = x.served := by
  cases p with
  | dispatched c =>
    by_cases h : c.enforcing intercept = true
    · rw [resume_dispatched_enforcing h]
    · rw [resume_dispatched_passing h]
  | enforcing p => rfl
  | passing p => rfl
  | loading => rfl

/-- What the threads bring to the enforcing backend, and where they stand there. -/
def enforcingComponent (opts : Options) (Tid : Type) [DecidableEq Tid]
    (intercept : InterceptedCalls) :
    System.Component (phases opts Tid intercept) (LdPreloadedPosix.phases opts Tid) where
  view x := x.enforcing
  calls := SharedFileSystem.enforcedCalls intercept
  stand := enforcingStand intercept
  start_view t a x := by cases a <;> rfl
  start_phase t a x := by cases a <;> rfl
  start_calls t a x u := by
    cases a with
    | call c => exact filterMap_ofThread_concat _ t u ⟨c, x.ldpLoaded⟩ x.served
    | setLoaded value =>
      change _ = _ ++ if u = t then [] else []
      rw [ite_self, List.append_nil]
      rfl
  resume_calls t p x := congrArg (fun served u =>
    (ofThread u served).filterMap (·.enforcedCall intercept)) (resume_served intercept t p x)
  resume t p x := by
    cases p with
    | dispatched c =>
      by_cases h : c.enforcing intercept = true
      · have hstand : enforcingStand intercept (.dispatched c) = ([c.call.method], none) := by
          rw [enforcingStand, ServedCall.enforcedCall, if_pos h, Option.toList_some]
        rw [resume_dispatched_enforcing h, hstand]
        exact .inr rfl
      · have hstand : enforcingStand intercept (.dispatched c) = ([], none) := by
          rw [enforcingStand, ServedCall.enforcedCall, if_neg h, Option.toList_none]
        rw [resume_dispatched_passing h, hstand]
        exact .inl ⟨rfl, rfl⟩
    | enforcing p =>
      refine .inr (congrArg some (Prod.ext (Eq.symm ?_) rfl))
      exact enforcingStandOf_enforcing intercept (LdPreloadedPosix.resumeCall t p x.enforcing).1
    | passing p =>
      refine .inl ⟨?_, rfl⟩
      exact enforcingStandOf_passing intercept (PosixPassthrough.resumeCall p x.passing).1
    | loading => exact .inl ⟨rfl, rfl⟩

/-- What the threads bring to the passthrough backend, and where they stand there. -/
def passingComponent (opts : Options) (Tid : Type) [DecidableEq Tid]
    (intercept : InterceptedCalls) :
    System.Component (phases opts Tid intercept) (PosixPassthrough.phases Tid) where
  view x := x.passing
  calls := SharedFileSystem.passedCalls intercept
  stand := passingStand intercept
  start_view t a x := by cases a <;> rfl
  start_phase t a x := by cases a <;> rfl
  start_calls t a x u := by
    cases a with
    | call c => exact filterMap_ofThread_concat _ t u ⟨c, x.ldpLoaded⟩ x.served
    | setLoaded value =>
      change _ = _ ++ if u = t then [] else []
      rw [ite_self, List.append_nil]
      rfl
  resume_calls t p x := congrArg (fun served u =>
    (ofThread u served).filterMap (·.passedCall intercept)) (resume_served intercept t p x)
  resume t p x := by
    cases p with
    | dispatched c =>
      by_cases h : c.enforcing intercept = true
      · have hstand : passingStand intercept (.dispatched c) = ([], none) := by
          rw [passingStand, ServedCall.passedCall, dif_pos h, Option.toList_none]
        rw [resume_dispatched_enforcing h, hstand]
        exact .inl ⟨rfl, rfl⟩
      · have hstand : passingStand intercept (.dispatched c) =
            ([⟨c.call.method, c.implemented h⟩], none) := by
          rw [passingStand, ServedCall.passedCall, dif_neg h, Option.toList_some]
        rw [resume_dispatched_passing h, hstand]
        exact .inr rfl
    | enforcing p =>
      refine .inl ⟨?_, rfl⟩
      exact passingStandOf_enforcing intercept (LdPreloadedPosix.resumeCall t p x.enforcing).1
    | passing p =>
      refine .inr (congrArg some (Prod.ext (Eq.symm ?_) rfl))
      exact passingStandOf_passing intercept (PosixPassthrough.resumeCall p x.passing).1
    | loading => exact .inl ⟨rfl, rfl⟩

variable {intercept : InterceptedCalls} {prng : Nat → UInt32} {loaded : Bool}
  {actions : Tid → List FileSystemAction}
  {s : System Tid FileSystemAction FileSystemPhase (SharedFileSystem opts Tid)}

/-- Each thread's calls are dispatched in the order in which it makes them. -/
private theorem served_of_thread (hrun : ReachesThreads intercept prng loaded actions s) (t : Tid) :
    (ofThread t s.shared.served).map (·.call) ++ (s.rest t).filterMap (·.call?) =
      (actions t).filterMap (·.call?) := by
  have hkept : ∀ m : System Tid FileSystemAction FileSystemPhase (SharedFileSystem opts Tid),
      ReachesThreads intercept prng loaded actions m →
        m.Kept actions (fun _ _ => True) fun _ => True := fun m reached =>
    System.reaches_kept (fun _ _ _ _ _ => ⟨trivial, trivial⟩)
      (fun _ _ _ _ _ => ⟨fun _ _ => trivial, trivial⟩) reached trivial
  refine System.reaches_thread (R := fun rest _ x => (ofThread t x.served).map (·.call) ++
    rest.filterMap (·.call?) = (actions t).filterMap (·.call?)) t hkept ?_ ?_ ?_ ?_ hrun rfl
  · intro a rest x _ h
    cases a with
    | call c => simpa [phases, startAction, FileSystemAction.call?] using h
    | setLoaded value => exact h
  · intro rest p x _ _ h
    rwa [resume_served]
  · intro u hu a _ rest p x _ h
    cases a with
    | call c => simpa [phases, startAction, hu] using h
    | setLoaded value => exact h
  · intro u _ q _ rest p x _ h
    rwa [resume_served]

theorem finished_served (hrun : ReachesThreads intercept prng loaded actions s)
    (hfinished : s.Finished) (t : Tid) :
    (ofThread t s.shared.served).map (·.call) = (actions t).filterMap (·.call?) := by
  have hthread := served_of_thread hrun t
  rwa [(hfinished t).1, List.filterMap_nil, List.append_nil] at hthread

theorem enforcing_reached (hrun : ReachesThreads intercept prng loaded actions s) :
    LdPreloadedPosix.ReachesThreads prng (s.shared.enforcedCalls intercept)
      ((enforcingComponent opts Tid intercept).project s) :=
  (enforcingComponent opts Tid intercept).reaches_project hrun fun _ => rfl

theorem passing_reached (hrun : ReachesThreads intercept prng loaded actions s) :
    PosixPassthrough.ReachesThreads (s.shared.passedCalls intercept)
      ((passingComponent opts Tid intercept).project s) :=
  (passingComponent opts Tid intercept).reaches_project hrun fun _ => rfl

/-- However threads call and load, each backend goes through a run of threads of its own, on the
calls that were dispatched to it, and each thread's calls are dispatched in its own order. -/
theorem threads_project (hrun : ReachesThreads intercept prng loaded actions s) :
    (∀ t, (ofThread t s.shared.served).map (·.call) ++ (s.rest t).filterMap (·.call?) =
      (actions t).filterMap (·.call?)) ∧
    LdPreloadedPosix.ReachesThreads prng (s.shared.enforcedCalls intercept)
      ((enforcingComponent opts Tid intercept).project s) ∧
    PosixPassthrough.ReachesThreads (s.shared.passedCalls intercept)
      ((passingComponent opts Tid intercept).project s) :=
  ⟨served_of_thread hrun, enforcing_reached hrun, passing_reached hrun⟩

/-- A thread is about to open a file untold of the loading, which another thread ends and then
opens a file itself. -/
theorem threads_project_two :
    ∃ s : System Bool FileSystemAction FileSystemPhase (SharedFileSystem (.shipped .single) Bool),
      LdPreloadedPosix.ReachesThreads (fun _ => 0) (s.shared.enforcedCalls .shipped)
        ((enforcingComponent (.shipped .single) Bool .shipped).project s) ∧
      s.shared.enforcedCalls .shipped true = [.«open» "/tmp/y".toList 0 4] ∧
      (s.shared.passedCalls .shipped false).map (·.call) = [.«open» "/tmp/x".toList 0 3] := by
  have hrun : exec (System.next (phases (Options.shipped .single) Bool .shipped))
      (startThreads _ (fun _ => 0) false fun t : Bool =>
        if t then [.setLoaded true, .call (.opening (.«open» "/tmp/y".toList 0 0) 4)]
        else [.call (.opening (.«open» "/tmp/x".toList 0 0) 3)])
      [false, true, true, true, true, false] = some _ := rfl
  have hreached : ReachesThreads _ _ _ _ _ := Reaches.of_exec (fun _ _ _ => trivial) hrun
  exact ⟨_, (threads_project hreached).2.1, rfl, rfl⟩

def SharedFileSystem.objects (x : SharedFileSystem opts Tid) : PosixFileSystem opts where
  posixPassthrough := x.passing.world.object
  ldpLoaded := x.ldpLoaded
  ldPreloadedPosix := x.enforcing.object

private theorem counted_served [Fintype Tid] (hrun : ReachesThreads intercept prng loaded actions s)
    (hfinished : s.Finished) (op : Operation) :
    s.shared.objects.counted op = UInt64.ofNat
      ((s.shared.served.map (·.2)).countP fun c => decide (c.countedIn intercept = some op)) := by
  have henforced := LdPreloadedPosix.finished_calls (enforcing_reached hrun)
    ((enforcingComponent opts Tid intercept).project_finished hfinished) op
  have hpassed := PosixPassthrough.finished_calls (passing_reached hrun)
    ((passingComponent opts Tid intercept).project_finished hfinished) op
  refine (congrArg₂ (· + ·) henforced hpassed).trans ?_
  rw [← UInt64.ofNat_add, ← Finset.sum_add_distrib]
  simp only [SharedFileSystem.enforcedCalls, SharedFileSystem.passedCalls,
    ServedCall.countedIn_split]
  rw [countP_ofThread, List.countP_map]
  rfl

/-- However threads call and load, once all are done every call has been counted once, by one of
the backends and in one entry, but for the `sync` calls that were passed through. -/
theorem threads_conserve [Fintype Tid] (hrun : ReachesThreads intercept prng loaded actions s)
    (hfinished : s.Finished) :
    (∀ op, s.shared.objects.counted op = UInt64.ofNat
      (s.shared.served.countP fun entry => decide (entry.2.countedIn intercept = some op))) ∧
    (Operation.all.map s.shared.objects.counted).sum +
        UInt64.ofNat (s.shared.served.countP fun entry =>
          decide (entry.2.call.method.operation = .metadata .sync) &&
            !entry.2.enforcing intercept) =
      UInt64.ofNat (∑ t, ((actions t).filterMap (·.call?)).length) := by
  have hlength : s.shared.served.length = ∑ t, ((actions t).filterMap (·.call?)).length := by
    have hsum := countP_ofThread (fun _ => true) s.shared.served
    simp only [List.countP_true] at hsum
    rw [← hsum]
    refine Finset.sum_congr rfl fun t _ => ?_
    rw [← finished_served hrun hfinished t, List.length_map]
  refine ⟨fun op => (counted_served hrun hfinished op).trans ?_, ?_⟩
  · rw [List.countP_map]
    rfl
  · have hcounted := ServedCall.counted_add_passed intercept (s.shared.served.map (·.2))
    rw [← List.map_congr_left fun op _ => counted_served hrun hfinished op, List.countP_map,
      List.length_map] at hcounted
    rw [← hlength]
    exact hcounted

/-- The two threads once both are done. -/
theorem threads_conserve_two :
    ∃ s : System Bool FileSystemAction FileSystemPhase (SharedFileSystem (.shipped .single) Bool),
      (Operation.all.map s.shared.objects.counted).sum +
        UInt64.ofNat (s.shared.served.countP fun entry =>
          decide (entry.2.call.method.operation = .metadata .sync) &&
            !entry.2.enforcing .shipped) = 2 := by
  have hrun : exec (System.next (phases (Options.shipped .single) Bool .shipped))
      (startThreads _ (fun _ => 0) false fun t : Bool =>
        if t then [.setLoaded true, .call (.opening (.«open» "/tmp/y".toList 0 0) 4)]
        else [.call (.opening (.«open» "/tmp/x".toList 0 0) 3)])
      [false, true, true, true, false, true, false, true, false, true, true, false, true, true,
        true] = some _ := rfl
  have hreached : ReachesThreads _ _ _ _ _ := Reaches.of_exec (fun _ _ _ => trivial) hrun
  refine ⟨_, (threads_conserve hreached fun t => ?_).2⟩
  cases t with
  | false => exact ⟨rfl, rfl⟩
  | true => exact ⟨rfl, rfl⟩

end Threads

end PosixFileSystem

end Padll
