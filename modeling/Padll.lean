import Padll.Library.KeyedMap
import Padll.Library.OutputMachine
import Padll.Library.Interleaving
import Padll.Library.ThreadPrograms
import Padll.Library.ThreadCalls
import Padll.Library.Components
import Padll.Library.OwningMap
import Padll.Library.RwLock
import Padll.Library.PaddedRow
import Padll.Library.PackedPolynomial
import Padll.Library.FullPeriod
import Padll.Options
import Padll.Libc
import Padll.PosixCall
import Padll.Statistics
import Padll.MountPointTable
import Padll.LdPreloadedPosix
import Padll.LdPreloadedCalls
import Padll.LdPreloadedRuns
import Padll.DescriptorDecisions
import Padll.EnforcedAccounting
import Padll.LoadBalancing
import Padll.PosixPassthrough
import Padll.PassthroughAccounting
import Padll.PosixFileSystem
import Padll.OpenInterposition
import Padll.StreamRegistration
import Padll.EntryLifetime
import Padll.BackendAgreement
import Padll.TableIntegrity
import Padll.Unintercepted
import Padll.RequestCost
import Padll.PathClassification
import Padll.StatisticsInitialization
import Padll.WorkflowCounts
import Padll.LockProtocol
import Padll.ConcurrentUpdates
import Padll.Snapshots
import Padll.ReportRows
import Padll.StatisticsReport
import Padll.FileSystemRuns
import Padll.ShippedFlags
import Padll.ConcurrentPassthrough
import Padll.ConcurrentEnforcing
import Padll.ThreadIsolation
import Padll.CallSerializability
import Padll.ConcurrentFileSystem
import Padll.ExitReports
import Padll.StatisticsTable
import Padll.Xoshiro
import Padll.SplitMix
import Padll.WorkflowDraws
