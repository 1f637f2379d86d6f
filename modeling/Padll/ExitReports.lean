import Padll.ConcurrentFileSystem

/-! The end of a process: its threads are done, the file system objects are destroyed and write
their reports, which are held against the calls the threads have made. -/
namespace Padll
open Interleaving ThreadCalls
variable {opts : Options} {Tid : Type}

namespace PosixFileSystem

/-- The objects are destroyed in the reverse order of their construction; libc answers the opening
and the closing of the two files. -/
def exitReports (p : Process) (path : Path) (enforcing passing : FilePtr × Int32) :
    FileSystem opts (Option StatisticsReport × Option StatisticsReport) := do
  let enforced ← onLdPreloaded (LdPreloadedPosix.generateStatisticsReport p path
    (fun _ => enforcing.1) fun _ => enforcing.2)
  let passed ← onPassthrough (PosixPassthrough.generateStatisticsReport p path
    (fun _ => passing.1) fun _ => passing.2)
  return (enforced, passed)

section Threads
variable [DecidableEq Tid] {intercept : InterceptedCalls} {prng : Nat → UInt32} {loaded : Bool}
  {actions : Tid → List FileSystemAction}
  {s : System Tid FileSystemAction FileSystemPhase (SharedFileSystem opts Tid)}

/-- However the threads of a process call and load, the reports at its end show what they did: each
thread's calls were dispatched in its order, either backend has records of those dispatched to it,
and either report is the accounting of the records, the second one with its own file opened. -/
theorem exit_reports [Fintype Tid] (hrun : ReachesThreads intercept prng loaded actions s)
    (hfinished : s.Finished) (p : Process) (path : Path) (enforcing passing : FilePtr × Int32) :
    let enforced := s.shared.enforcing.log
    let passed := s.shared.passing.order
    let written := (exitReports p path enforcing passing ⟨s.shared.objects, []⟩).1
    (∀ t, (ofThread t s.shared.served).map (·.call) = (actions t).filterMap (·.call?) ∧
      (ofThread t enforced).map (·.call) = s.shared.enforcedCalls intercept t ∧
      ofThread t passed = s.shared.passedCalls intercept t) ∧
    ReportShows written.1 enforcing.1 (reportFile path "padll-ldpreloaded-stats-" p)
      (reportOf (enforcedEntry (enforced.map (·.2)))) ∧
    ReportShows written.2 passing.1 (reportFile path "padll-passthrough-stats-" p)
      (reportOf (passedEntry (passed.map (·.2) ++
        [PosixPassthrough.reportFopen p path passing.1]))) := by
  intro enforced passed written
  have henforcing := (enforcingComponent opts Tid intercept).project_finished hfinished
  have hpassing := (passingComponent opts Tid intercept).project_finished hfinished
  have hpassed : ∀ op, s.shared.passing.world.object.stats.entry op =
      passedEntry (passed.map (·.2)) op := by
    intro op
    rw [← PosixPassthrough.entry_run]
    exact PosixPassthrough.finished_entry (passing_reached hrun) hpassing (.refl _) op
  refine ⟨fun t => ⟨finished_served hrun hfinished t, ?_, ?_⟩, ?_, ?_⟩
  · exact (LdPreloadedPosix.finished_log (enforcing_reached hrun) henforcing t).1
  · exact PosixPassthrough.finished_order (passing_reached hrun) hpassing t
  · obtain ⟨hwritten, -⟩ := LdPreloadedPosix.generateStatisticsReport_apply p path enforcing.1
      enforcing.2 s.shared.enforcing.object []
    exact CallStatistics.reportShows _ (by decide) p
      (LdPreloadedPosix.finished_entry (enforcing_reached hrun) henforcing) hwritten
  · obtain ⟨hwritten, -⟩ := PosixPassthrough.generateStatisticsReport_apply p path passing.1
      passing.2 s.shared.passing.world.object
      (LdPreloadedPosix.generateStatisticsReport p path (fun _ => enforcing.1)
        (fun _ => enforcing.2) ⟨s.shared.enforcing.object, []⟩).2.events
    exact CallStatistics.reportShows _ (by decide) p
      (PosixPassthrough.entry_run_append (PosixPassthrough.reached_collect (passing_reached hrun))
        hpassed _) hwritten

/-- Two threads, one of which opens its file after the loading, and both reports. -/
theorem exit_reports_two :
    ∃ s : System Bool FileSystemAction FileSystemPhase (SharedFileSystem (.shipped .single) Bool),
      let written := (exitReports ⟨7, 1⟩ "/tmp".toList (.stream 1, 0) (.stream 2, 0)
        ⟨s.shared.objects, []⟩).1
      (ofThread true s.shared.enforcing.log).map (·.call) = [.«open» "/tmp/y".toList 0 4] ∧
      written.1.isSome ∧ written.2.isSome := by
  have hrun : exec (System.next (phases (Options.shipped .single) Bool .shipped))
      (startThreads _ (fun _ => 0) false fun t : Bool =>
        if t then [.setLoaded true, .call (.opening (.«open» "/tmp/y".toList 0 0) 4)]
        else [.call (.opening (.«open» "/tmp/x".toList 0 0) 3)])
      [false, true, true, true, false, true, false, true, false, true, true, false, true, true,
        true] = some _ := rfl
  have hreached : ReachesThreads _ _ _ _ _ := Reaches.of_exec (fun _ _ _ => trivial) hrun
  obtain ⟨hcalls, hfirst, hsecond⟩ := exit_reports hreached
    (fun t => by cases t <;> exact ⟨rfl, rfl⟩) ⟨7, 1⟩ "/tmp".toList (.stream 1, 0) (.stream 2, 0)
  exact ⟨_, (hcalls true).2.1, hfirst.1.mpr (by decide), hsecond.1.mpr (by decide)⟩

end Threads

end PosixFileSystem

end Padll
