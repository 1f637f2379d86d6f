import Padll.LdPreloadedPosix
import Padll.PosixCall

/-! Every method of the enforcing backend in one uniform form: the workflow it chooses, what
it submits, the libc call, what it does to the tables and the statistics it updates. -/
namespace Padll
open LdPreloadedPosix

variable {opts : Options}

/-- Perform a call through its method. -/
def PosixCall.perform : PosixCall → LdPreloaded opts CValue
  | read fd buf counter result => .long <$> ldPreloadedPosixRead fd buf counter fun _ => result
  | write fd buf counter result => .long <$> ldPreloadedPosixWrite fd buf counter fun _ => result
  | pread fd buf counter offset result =>
    .long <$> ldPreloadedPosixPread fd buf counter offset fun _ => result
  | pwrite fd buf counter offset result =>
    .long <$> ldPreloadedPosixPwrite fd buf counter offset fun _ => result
  | pread64 fd buf counter offset result =>
    .long <$> ldPreloadedPosixPread64 fd buf counter offset fun _ => result
  | pwrite64 fd buf counter offset result =>
    .long <$> ldPreloadedPosixPwrite64 fd buf counter offset fun _ => result
  | mmap addr length prot flags fd offset memPtr =>
    .pointer <$> ldPreloadedPosixMmap addr length prot flags fd offset fun _ => memPtr
  | munmap addr length result => .int <$> ldPreloadedPosixMunmap addr length fun _ => result
  | openVariadic path flags mode fd =>
    .int <$> ldPreloadedPosixOpenVariadic path flags mode fun _ => fd
  | «open» path flags fd => .int <$> ldPreloadedPosixOpen path flags fun _ => fd
  | creat path mode fd => .int <$> ldPreloadedPosixCreat path mode fun _ => fd
  | creat64 path mode fd => .int <$> ldPreloadedPosixCreat64 path mode fun _ => fd
  | openatVariadic dirfd path flags mode fd =>
    .int <$> ldPreloadedPosixOpenatVariadic dirfd path flags mode fun _ => fd
  | openat dirfd path flags fd => .int <$> ldPreloadedPosixOpenat dirfd path flags fun _ => fd
  | open64Variadic path flags mode fd =>
    .int <$> ldPreloadedPosixOpen64Variadic path flags mode fun _ => fd
  | open64 path flags fd => .int <$> ldPreloadedPosixOpen64 path flags fun _ => fd
  | close fd result => .int <$> ldPreloadedPosixClose fd fun _ => result
  | sync => (fun _ => .void) <$> ldPreloadedPosixSync fun _ => ()
  | statfs path buf result => .int <$> ldPreloadedPosixStatfs path buf fun _ => result
  | fstatfs fd buf result => .int <$> ldPreloadedPosixFstatfs fd buf fun _ => result
  | statfs64 path buf result => .int <$> ldPreloadedPosixStatfs64 path buf fun _ => result
  | fstatfs64 fd buf result => .int <$> ldPreloadedPosixFstatfs64 fd buf fun _ => result
  | unlink path result => .int <$> ldPreloadedPosixUnlink path fun _ => result
  | unlinkat dirfd pathname flags result =>
    .int <$> ldPreloadedPosixUnlinkat dirfd pathname flags fun _ => result
  | rename oldPath newPath result => .int <$> ldPreloadedPosixRename oldPath newPath fun _ => result
  | renameat olddirfd oldPath newdirfd newPath result =>
    .int <$> ldPreloadedPosixRenameat olddirfd oldPath newdirfd newPath fun _ => result
  | fopen pathname mode fptr => .stream <$> ldPreloadedPosixFopen pathname mode fun _ => fptr
  | fopen64 pathname mode fptr => .stream <$> ldPreloadedPosixFopen64 pathname mode fun _ => fptr
  | fclose stream result => .int <$> ldPreloadedPosixFclose stream fun _ => result
  | mkdir path mode result => .int <$> ldPreloadedPosixMkdir path mode fun _ => result
  | mkdirat dirfd path mode result =>
    .int <$> ldPreloadedPosixMkdirat dirfd path mode fun _ => result
  | mknod path mode dev result => .int <$> ldPreloadedPosixMknod path mode dev fun _ => result
  | mknodat dirfd path mode dev result =>
    .int <$> ldPreloadedPosixMknodat dirfd path mode dev fun _ => result
  | rmdir path result => .int <$> ldPreloadedPosixRmdir path fun _ => result
  | getxattr path name value size result =>
    .long <$> ldPreloadedPosixGetxattr path name value size fun _ => result
  | lgetxattr path name value size result =>
    .long <$> ldPreloadedPosixLgetxattr path name value size fun _ => result
  | fgetxattr fd name value size result =>
    .long <$> ldPreloadedPosixFgetxattr fd name value size fun _ => result
  | setxattr path name value size flags result =>
    .int <$> ldPreloadedPosixSetxattr path name value size flags fun _ => result
  | lsetxattr path name value size flags result =>
    .int <$> ldPreloadedPosixLsetxattr path name value size flags fun _ => result
  | fsetxattr fd name value size flags result =>
    .int <$> ldPreloadedPosixFsetxattr fd name value size flags fun _ => result
  | listxattr path list size result =>
    .long <$> ldPreloadedPosixListxattr path list size fun _ => result
  | llistxattr path list size result =>
    .long <$> ldPreloadedPosixLlistxattr path list size fun _ => result
  | flistxattr fd list size result =>
    .long <$> ldPreloadedPosixFlistxattr fd list size fun _ => result
  | socket domain type protocol fd =>
    .int <$> ldPreloadedPosixSocket domain type protocol fun _ => fd
  | fcntl fd cmd arg resultValue => .int <$> ldPreloadedPosixFcntl fd cmd arg fun _ => resultValue

/-- By what a call chooses its workflow. -/
inductive Selection where
  | path (path : Path)
  | descriptor (fd : Int32)
  | closing (fd : Int32)
  | stream (stream : FilePtr)
  deriving DecidableEq, Repr

/-- Whether a call goes to the stage, and as what. -/
inductive Control where
  | submitted (selection : Selection) (operationType : Posix) (operationContext : PosixMeta)
    (payload : Int32)
  | unsubmitted (enforced : Bool)
  deriving DecidableEq, Repr

/-- What a call does to the tables once libc has answered. -/
inductive TableEffect where
  | keep
  | openFd (fd : Int32) (path : Path)
  | openStream (fptr : FilePtr) (path : Path)
  | closeFd (fd : Int32)
  | closeStream (stream : FilePtr)
  | duplicate (fd result : Int32)
  deriving DecidableEq, Repr

/-- Everything one call contributes, in uniform shape. -/
structure Profile where
  slot : LibcSlot
  args : List CValue
  control : Control
  effect : TableEffect
  operation : Operation
  status : Int64
  returned : CValue

namespace Profile

def ofPath (site : CallSite) (path : Path) (args : List CValue) (status : Int64)
    (returned : CValue) : Profile :=
  ⟨site.slot, args, .submitted (.path path) site.operationType site.operationContext 1, .keep,
    site.operation, status, returned⟩

def ofFd (site : CallSite) (fd payload : Int32) (args : List CValue) (status : Int64)
    (returned : CValue) : Profile :=
  ⟨site.slot, args, .submitted (.descriptor fd) site.operationType site.operationContext payload,
    .keep, site.operation, status, returned⟩

def ofOpen (slot : LibcSlot) (operation : Metadata) (path : Path) (args : List CValue)
    (fd : Int32) : Profile :=
  ⟨slot, args, .submitted (.path path) .«open» .metaOp 1, .openFd fd path, .metadata operation,
    fd.toInt64, .int fd⟩

def ofFopen (slot : LibcSlot) (operationType : Posix) (operation : Metadata) (pathname : Path)
    (args : List CValue) (fptr : FilePtr) : Profile :=
  ⟨slot, args, .submitted (.path pathname) operationType .metaOp 1, .openStream fptr pathname,
    .metadata operation, (if fptr ≠ .nullptr then (0 : Int32) else -1).toInt64, .stream fptr⟩

end Profile

def PosixCall.profile : PosixCall → Profile
  | read fd buf counter result =>
    .ofFd ⟨.read, .read, .dataOp, .data .read⟩ fd counter.toUInt32.toInt32
      [.int fd, .pointer buf, .ulong counter] result (.long result)
  | write fd buf counter result =>
    .ofFd ⟨.write, .write, .dataOp, .data .write⟩ fd counter.toUInt32.toInt32
      [.int fd, .pointer buf, .ulong counter] result (.long result)
  | pread fd buf counter offset result =>
    .ofFd ⟨.pread, .pread, .dataOp, .data .pread⟩ fd counter.toUInt32.toInt32
      [.int fd, .pointer buf, .ulong counter, .long offset] result (.long result)
  | pwrite fd buf counter offset result =>
    .ofFd ⟨.pwrite, .pwrite, .dataOp, .data .pwrite⟩ fd counter.toUInt32.toInt32
      [.int fd, .pointer buf, .ulong counter, .long offset] result (.long result)
  | pread64 fd buf counter offset result =>
    .ofFd ⟨.pread64, .pread64, .dataOp, .data .pread64⟩ fd counter.toUInt32.toInt32
      [.int fd, .pointer buf, .ulong counter, .long offset] result (.long result)
  | pwrite64 fd buf counter offset result =>
    .ofFd ⟨.pwrite64, .pwrite64, .dataOp, .data .pwrite64⟩ fd counter.toUInt32.toInt32
      [.int fd, .pointer buf, .ulong counter, .long offset] result (.long result)
  | mmap addr length prot flags fd offset memPtr =>
    .ofFd ⟨.mmap, .mmap, .dataOp, .data .mmap⟩ fd 1
      [.pointer addr, .ulong length, .int prot, .int flags, .int fd, .long offset]
      (mmapStatus memPtr).toInt64 (.pointer memPtr)
  | munmap addr length result =>
    .ofFd ⟨.munmap, .munmap, .dataOp, .data .munmap⟩ (-1) 1 [.pointer addr, .ulong length]
      result.toInt64 (.int result)
  | openVariadic path flags mode fd =>
    .ofOpen .openVar .openVariadic path [.text path, .int flags, .uint mode] fd
  | «open» path flags fd => .ofOpen .«open» .«open» path [.text path, .int flags] fd
  | creat path mode fd => .ofOpen .creat .creat path [.text path, .uint mode] fd
  | creat64 path mode fd => .ofOpen .creat64 .creat64 path [.text path, .uint mode] fd
  | openatVariadic dirfd path flags mode fd =>
    .ofOpen .openatVar .openatVariadic path [.int dirfd, .text path, .int flags, .uint mode] fd
  | openat dirfd path flags fd =>
    .ofOpen .openat .openat path [.int dirfd, .text path, .int flags] fd
  | open64Variadic path flags mode fd =>
    .ofOpen .open64Var .open64Variadic path [.text path, .int flags, .uint mode] fd
  | open64 path flags fd => .ofOpen .open64 .open64 path [.text path, .int flags] fd
  | close fd result =>
    ⟨.close, [.int fd], .submitted (.closing fd) .close .metaOp 1, .closeFd fd, .metadata .close,
      result.toInt64, .int result⟩
  | sync => ⟨.sync, [], .unsubmitted true, .keep, .metadata .sync, 1, .void⟩
  | statfs path buf result =>
    .ofPath ⟨.statfs, .statfs, .metaOp, .metadata .statfs⟩ path [.text path, .pointer buf]
      result.toInt64 (.int result)
  | fstatfs fd buf result =>
    .ofFd ⟨.fstatfs, .fstatfs, .metaOp, .metadata .fstatfs⟩ fd 1 [.int fd, .pointer buf]
      result.toInt64 (.int result)
  | statfs64 path buf result =>
    .ofPath ⟨.statfs64, .statfs64, .metaOp, .metadata .statfs64⟩ path [.text path, .pointer buf]
      result.toInt64 (.int result)
  | fstatfs64 fd buf result =>
    .ofFd ⟨.fstatfs64, .fstatfs64, .metaOp, .metadata .fstatfs64⟩ fd 1 [.int fd, .pointer buf]
      result.toInt64 (.int result)
  | unlink path result =>
    .ofPath ⟨.unlink, .unlink, .metaOp, .metadata .unlink⟩ path [.text path]
      result.toInt64 (.int result)
  | unlinkat dirfd pathname flags result =>
    .ofPath ⟨.unlinkat, .unlink, .metaOp, .metadata .unlinkat⟩ pathname
      [.int dirfd, .text pathname, .int flags] result.toInt64 (.int result)
  | rename oldPath newPath result =>
    .ofPath ⟨.rename, .rename, .metaOp, .metadata .rename⟩ newPath
      [.text oldPath, .text newPath] result.toInt64 (.int result)
  | renameat olddirfd oldPath newdirfd newPath result =>
    .ofPath ⟨.renameat, .rename, .metaOp, .metadata .renameat⟩ newPath
      [.int olddirfd, .text oldPath, .int newdirfd, .text newPath] result.toInt64 (.int result)
  | fopen pathname mode fptr =>
    .ofFopen .fopen .fopen .fopen pathname [.text pathname, .text mode] fptr
  | fopen64 pathname mode fptr =>
    .ofFopen .fopen64 .fopen64 .fopen64 pathname [.text pathname, .text mode] fptr
  | fclose stream result =>
    ⟨.fclose, [.stream stream], .submitted (.stream stream) .fclose .metaOp 1,
      .closeStream stream, .metadata .fclose, result.toInt64, .int result⟩
  | mkdir path mode result =>
    .ofPath ⟨.mkdir, .mkdir, .metaOp, .directory .mkdir⟩ path [.text path, .uint mode]
      result.toInt64 (.int result)
  | mkdirat dirfd path mode result =>
    .ofPath ⟨.mkdirat, .mkdir, .metaOp, .directory .mkdirat⟩ path
      [.int dirfd, .text path, .uint mode] result.toInt64 (.int result)
  | mknod path mode dev result =>
    .ofPath ⟨.mknod, .mknod, .metaOp, .directory .mknod⟩ path
      [.text path, .uint mode, .ulong dev] result.toInt64 (.int result)
  | mknodat dirfd path mode dev result =>
    .ofPath ⟨.mknodat, .mknod, .metaOp, .directory .mknodat⟩ path
      [.int dirfd, .text path, .uint mode, .ulong dev] result.toInt64 (.int result)
  | rmdir path result =>
    .ofPath ⟨.rmdir, .rmdir, .dirOp, .directory .rmdir⟩ path [.text path]
      result.toInt64 (.int result)
  | getxattr path name value size result =>
    .ofPath ⟨.getxattr, .getxattr, .metaOp, .extAttr .getxattr⟩ path
      [.text path, .text name, .pointer value, .ulong size] result (.long result)
  | lgetxattr path name value size result =>
    .ofPath ⟨.lgetxattr, .getxattr, .metaOp, .extAttr .lgetxattr⟩ path
      [.text path, .text name, .pointer value, .ulong size] result (.long result)
  | fgetxattr fd name value size result =>
    .ofFd ⟨.fgetxattr, .getxattr, .metaOp, .extAttr .fgetxattr⟩ fd 1
      [.int fd, .text name, .pointer value, .ulong size] result (.long result)
  | setxattr path name value size flags result =>
    .ofPath ⟨.setxattr, .setxattr, .metaOp, .extAttr .setxattr⟩ path
      [.text path, .text name, .pointer value, .ulong size, .int flags]
      result.toInt64 (.int result)
  | lsetxattr path name value size flags result =>
    .ofPath ⟨.lsetxattr, .setxattr, .metaOp, .extAttr .lsetxattr⟩ path
      [.text path, .text name, .pointer value, .ulong size, .int flags]
      result.toInt64 (.int result)
  | fsetxattr fd name value size flags result =>
    .ofFd ⟨.fsetxattr, .setxattr, .metaOp, .extAttr .fsetxattr⟩ fd 1
      [.int fd, .text name, .pointer value, .ulong size, .int flags] result.toInt64 (.int result)
  | listxattr path list size result =>
    .ofPath ⟨.listxattr, .listxattr, .metaOp, .extAttr .listxattr⟩ path
      [.text path, .pointer list, .ulong size] result (.long result)
  | llistxattr path list size result =>
    .ofPath ⟨.llistxattr, .listxattr, .metaOp, .extAttr .llistxattr⟩ path
      [.text path, .pointer list, .ulong size] result (.long result)
  | flistxattr fd list size result =>
    .ofFd ⟨.flistxattr, .listxattr, .metaOp, .extAttr .flistxattr⟩ fd 1
      [.int fd, .pointer list, .ulong size] result (.long result)
  | socket domain type protocol fd =>
    ⟨.socket, [.int domain, .int type, .int protocol], .unsubmitted false, .keep,
      .special .socket, fd.toInt64, .int fd⟩
  | fcntl fd cmd arg resultValue =>
    ⟨.fcntl, [.int fd, .int cmd, .pointer arg], .unsubmitted false,
      if cmd = fDupfd ∨ cmd = fDupfdCloexec then .duplicate fd resultValue else .keep,
      .special .fcntl, resultValue.toInt64, .int resultValue⟩

/-- The workflow a selection leads to. -/
def choose (t : MountPointTable opts) : Selection → UInt32 × MountPointTable opts
  | .path path => ((t.pickWorkflowIdPath path).1.2, (t.pickWorkflowIdPath path).2)
  | .descriptor fd => t.pickWorkflowIdFd fd
  | .closing fd =>
    if (t.pickWorkflowIdFd fd).1 = noWorkflow then (t.pickWorkflowIdFd fd).2.pickWorkflowIdByForce
    else t.pickWorkflowIdFd fd
  | .stream stream => t.pickWorkflowIdPtr stream

/-- The tables after a call. -/
def settle (t : MountPointTable opts) : TableEffect → MountPointTable opts
  | .keep => t
  | .openFd fd path =>
    (t.createMountPointEntryFd fd path (MountPointTable.extractMountPoint opts path)
      getMetadataUnit).2
  | .openStream fptr path =>
    (t.createMountPointEntryPtr fptr path (MountPointTable.extractMountPoint opts path)
      getMetadataUnit).2
  | .closeFd fd => if opts.hardRemove then (t.removeMountPointEntryFd fd).2 else t
  | .closeStream stream => (t.removeMountPointEntryPtr stream).2
  | .duplicate fd result => (t.replaceFileDescriptor fd result).2

/-- What a result adds to the statistics of its class. -/
def statisticUpdate (type : OperationType) (result : Int64) (enforced : Bool) : StatisticUpdate :=
  if enforced then
    match type with
    | .dataCalls | .extAttrCalls => if 0 ≤ result then .counted result.toUInt64 else .failed
    | .metadataCalls | .specialCalls => if 0 ≤ result.toInt32 then .counted 0 else .failed
    | .directoryCalls => if result.toInt32 = 0 then .counted 0 else .failed
  else .bypassed

namespace Profile

/-- The submission, if the choice finds a workflow; whether the call counts as enforced; and
the table the choice leaves. -/
def submit (p : Profile) (t : MountPointTable opts) :
    List Event × Bool × MountPointTable opts :=
  match p.control with
  | .submitted selection operationType operationContext payload =>
    let picked := choose t selection
    if picked.1 = noWorkflow then ([], false, picked.2)
    else
      ([.submit ⟨picked.1, operationType, operationContext, payload.toInt64.toUInt64⟩], true,
        picked.2)
  | .unsubmitted enforced => ([], enforced, t)

/-- One call: its events and the object after it. -/
def run (p : Profile) (o : LdPreloadedPosix opts) : List Event × LdPreloadedPosix opts :=
  let (events, enforced, table) := p.submit o.mountPointTable
  (events ++ [.libc ⟨p.slot.symbol, p.args⟩],
    { collect := o.collect
      hooked := Function.update o.hooked p.slot true
      stats :=
        if o.collect then
          o.stats.record p.operation (statisticUpdate p.operation.type p.status enforced)
        else o.stats
      mountPointTable := settle table p.effect })

end Profile

/-- The dispatcher updates the entry of the operation it is given. -/
theorem updateStatisticsOfClass_eq (s : CallStatistics) (op : Operation) (result : Int64)
    (enforced : Bool) :
    updateStatisticsOfClass s op.type op.toInt result enforced =
      s.record op (statisticUpdate op.type result enforced) := by
  cases enforced with
  | false => cases op <;> rfl
  | true =>
    cases op with
    | data o | extAttr o =>
      by_cases h : 0 ≤ result <;>
        simp only [updateStatisticsOfClass, Operation.type, Operation.toInt, statisticUpdate,
          updateStatisticEntryData, updateStatisticEntryExtAttr, h, if_true, if_false] <;> rfl
    | metadata o | special o =>
      by_cases h : 0 ≤ result.toInt32 <;>
        simp only [updateStatisticsOfClass, Operation.type, Operation.toInt, statisticUpdate,
          updateStatisticEntryMetadata, updateStatisticEntrySpecial, h, if_true, if_false] <;> rfl
    | directory o =>
      by_cases h : result.toInt32 = 0 <;>
        simp only [updateStatisticsOfClass, Operation.type, Operation.toInt, statisticUpdate,
          updateStatisticEntryDir, h, if_true, if_false] <;> rfl

theorem updateStatistics_apply (op : Operation) (result : Int64) (enforced : Bool)
    (o : LdPreloadedPosix opts) (events : List Event) :
    updateStatistics op.type op.toInt result enforced ⟨o, events⟩ =
      ((), ⟨{ o with
        stats := if o.collect then o.stats.record op (statisticUpdate op.type result enforced)
          else o.stats }, events⟩) := by
  rw [← updateStatisticsOfClass_eq]
  cases hc : o.collect with
  | false =>
    obtain ⟨collect, hooked, stats, table⟩ := o
    obtain rfl : collect = false := hc
    rfl
  | true =>
    obtain ⟨collect, hooked, stats, table⟩ := o
    obtain rfl : collect = true := hc
    rfl

private theorem updateMetadata_apply (operation : Metadata) (result : Int64) (enforced : Bool)
    (o : LdPreloadedPosix opts) (events : List Event) :
    updateStatistics .metadataCalls operation.toInt result enforced ⟨o, events⟩ =
      ((), ⟨{ o with
        stats := if o.collect then
            o.stats.record (.metadata operation) (statisticUpdate .metadataCalls result enforced)
          else o.stats }, events⟩) :=
  updateStatistics_apply (.metadata operation) result enforced o events

private theorem updateSpecial_apply (operation : Special) (result : Int64) (enforced : Bool)
    (o : LdPreloadedPosix opts) (events : List Event) :
    updateStatistics .specialCalls operation.toInt result enforced ⟨o, events⟩ =
      ((), ⟨{ o with
        stats := if o.collect then
            o.stats.record (.special operation) (statisticUpdate .specialCalls result enforced)
          else o.stats }, events⟩) :=
  updateStatistics_apply (.special operation) result enforced o events

section Bodies
variable {R : Type}

/-- A method that behaves as a profile says, from every object and trace. -/
def Performs (method : LdPreloaded opts CValue) (p : Profile) : Prop :=
  ∀ o events, method ⟨o, events⟩ = (p.returned, ⟨(p.run o).2, events ++ (p.run o).1⟩)

/-- Enforcing what a selection chose submits what the profile says. -/
private theorem enforceRequest_submit (p : Profile) {selection : Selection}
    {operationType : Posix} {operationContext : PosixMeta} {payload : Int32}
    (hp : p.control = .submitted selection operationType operationContext payload)
    (t : MountPointTable opts) (o : LdPreloadedPosix opts) (events : List Event) :
    enforceRequest (choose t selection).1 operationType operationContext payload ⟨o, events⟩ =
        ((p.submit t).2.1, ⟨o, events ++ (p.submit t).1⟩) ∧
      (choose t selection).2 = (p.submit t).2.2 := by
  rw [enforceRequest_apply, Profile.submit, hp]
  by_cases h : (choose t selection).1 = noWorkflow
  · simp only [if_pos h, List.append_nil, and_self]
  · simp only [if_neg h, and_self]

private theorem pathCall_performs (site : CallSite) (path : Path) (args : List CValue)
    (toLong : R → Int64) (result : R) (wrap : R → CValue) :
    Performs (wrap <$> pathCall site path args toLong fun _ => result : LdPreloaded opts CValue)
      (.ofPath site path args (toLong result) (wrap result)) := by
  intro o events
  obtain ⟨henforce, htable⟩ := enforceRequest_submit
    (.ofPath site path args (toLong result) (wrap result)) rfl o.mountPointTable _ events
  simp only [choose] at henforce htable
  simp only [pathCall, map_apply, bind_apply, pure_apply, hookPosix_apply, onTable_apply]
  rw [henforce]
  simp only [callLibc_apply, updateStatistics_apply, Profile.run, List.append_assoc, ← htable]
  rfl

private theorem fdCall_performs (site : CallSite) (fd payload : Int32) (args : List CValue)
    (toLong : R → Int64) (result : R) (wrap : R → CValue) :
    Performs
      (wrap <$> fdCall site fd payload args toLong fun _ => result : LdPreloaded opts CValue)
      (.ofFd site fd payload args (toLong result) (wrap result)) := by
  intro o events
  obtain ⟨henforce, htable⟩ := enforceRequest_submit
    (.ofFd site fd payload args (toLong result) (wrap result)) rfl o.mountPointTable _ events
  simp only [choose] at henforce htable
  simp only [fdCall, map_apply, bind_apply, pure_apply, hookPosix_apply, onTable_apply]
  rw [henforce]
  simp only [callLibc_apply, updateStatistics_apply, Profile.run, List.append_assoc, ← htable]
  rfl

private theorem openCall_performs (slot : LibcSlot) (operation : Metadata) (path : Path)
    (args : List CValue) (fd : Int32) :
    Performs (.int <$> openCall slot operation path args fun _ => fd : LdPreloaded opts CValue)
      (.ofOpen slot operation path args fd) := by
  intro o events
  obtain ⟨henforce, htable⟩ := enforceRequest_submit
    (.ofOpen slot operation path args fd) rfl o.mountPointTable _ events
  simp only [choose] at henforce htable
  simp only [openCall, map_apply, bind_apply, pure_apply, hookPosix_apply, onTable_apply]
  rw [henforce]
  simp only [callLibc_apply, onTable_apply, updateMetadata_apply, Profile.run, List.append_assoc,
    ← htable]
  rfl

private theorem fopenCall_performs (slot : LibcSlot) (operationType : Posix)
    (operation : Metadata) (pathname : Path) (args : List CValue) (fptr : FilePtr) :
    Performs
      (.stream <$> fopenCall slot operationType operation pathname args fun _ => fptr :
        LdPreloaded opts CValue)
      (.ofFopen slot operationType operation pathname args fptr) := by
  intro o events
  obtain ⟨henforce, htable⟩ := enforceRequest_submit
    (.ofFopen slot operationType operation pathname args fptr) rfl o.mountPointTable _ events
  simp only [choose] at henforce htable
  simp only [fopenCall, map_apply, bind_apply, pure_apply, hookPosix_apply, onTable_apply]
  rw [henforce]
  simp only [callLibc_apply, onTable_apply, updateMetadata_apply, Profile.run, List.append_assoc,
    ← htable]
  rfl

private theorem pickWorkflowIdToClose_apply (fd : Int32) (o : LdPreloadedPosix opts)
    (events : List Event) :
    pickWorkflowIdToClose fd ⟨o, events⟩ =
      ((choose o.mountPointTable (.closing fd)).1,
        ⟨{ o with mountPointTable := (choose o.mountPointTable (.closing fd)).2 }, events⟩) := by
  change (if (o.mountPointTable.pickWorkflowIdFd fd).1 = noWorkflow
      then onTable (·.pickWorkflowIdByForce)
      else pure (o.mountPointTable.pickWorkflowIdFd fd).1 : LdPreloaded opts UInt32)
    ⟨{ o with mountPointTable := (o.mountPointTable.pickWorkflowIdFd fd).2 }, events⟩ = _
  by_cases h : (o.mountPointTable.pickWorkflowIdFd fd).1 = noWorkflow
  · simp only [choose, if_pos h, onTable_apply]
  · simp only [choose, if_neg h, pure_apply]

private theorem close_performs (fd result : Int32) :
    Performs (.int <$> ldPreloadedPosixClose fd fun _ => result : LdPreloaded opts CValue)
      (PosixCall.close fd result).profile := by
  intro o events
  obtain ⟨henforce, htable⟩ := enforceRequest_submit (PosixCall.close fd result).profile rfl
    o.mountPointTable _ events
  simp only [ldPreloadedPosixClose, map_apply, bind_apply, hookPosix_apply,
    pickWorkflowIdToClose_apply]
  rw [henforce]
  simp only [callLibc_apply, Profile.run, List.append_assoc, ← htable]
  cases hr : opts.hardRemove with
  | false =>
    simp only [Bool.false_eq_true, if_false, bind_apply, pure_apply, updateMetadata_apply,
      PosixCall.profile, settle, hr]
    rfl
  | true =>
    simp only [if_true, bind_apply, pure_apply, onTable_apply, updateMetadata_apply,
      PosixCall.profile, settle, hr]
    rfl

private theorem sync_performs :
    Performs ((fun _ => .void) <$> ldPreloadedPosixSync fun _ => () : LdPreloaded opts CValue)
      PosixCall.sync.profile := by
  intro o events
  simp only [ldPreloadedPosixSync, map_apply, bind_apply, hookPosix_apply, callLibc_apply,
    updateMetadata_apply]
  rfl

private theorem fclose_performs (stream : FilePtr) (result : Int32) :
    Performs (.int <$> ldPreloadedPosixFclose stream fun _ => result : LdPreloaded opts CValue)
      (PosixCall.fclose stream result).profile := by
  intro o events
  obtain ⟨henforce, htable⟩ := enforceRequest_submit (PosixCall.fclose stream result).profile rfl
    o.mountPointTable _ events
  simp only [choose] at henforce htable
  simp only [ldPreloadedPosixFclose, map_apply, bind_apply, pure_apply, hookPosix_apply,
    onTable_apply]
  rw [henforce]
  simp only [callLibc_apply, onTable_apply, updateMetadata_apply, Profile.run, List.append_assoc,
    ← htable]
  rfl

private theorem socket_performs (domain type protocol fd : Int32) :
    Performs
      (.int <$> ldPreloadedPosixSocket domain type protocol fun _ => fd : LdPreloaded opts CValue)
      (PosixCall.socket domain type protocol fd).profile := by
  intro o events
  simp only [ldPreloadedPosixSocket, map_apply, bind_apply, pure_apply, hookPosix_apply,
    callLibc_apply, updateSpecial_apply]
  rfl

private theorem fcntl_performs (fd cmd : Int32) (arg : Address) (resultValue : Int32) :
    Performs
      (.int <$> ldPreloadedPosixFcntl fd cmd arg fun _ => resultValue : LdPreloaded opts CValue)
      (PosixCall.fcntl fd cmd arg resultValue).profile := by
  intro o events
  simp only [ldPreloadedPosixFcntl, map_apply, bind_apply, hookPosix_apply, callLibc_apply]
  by_cases h : cmd = fDupfd ∨ cmd = fDupfdCloexec
  · simp only [h, if_true, bind_apply, onTable_apply, updateSpecial_apply, Profile.run,
      PosixCall.profile, Profile.submit]
    rfl
  · simp only [h, if_false, bind_apply, pure_apply, updateSpecial_apply, Profile.run,
      PosixCall.profile, Profile.submit]
    rfl

end Bodies

/-- Every method does what its profile says. -/
theorem PosixCall.performs (c : PosixCall) :
    Performs (c.perform : LdPreloaded opts CValue) c.profile := by
  cases c with
  | read | write | pread | pwrite | pread64 | pwrite64 | mmap | munmap | fstatfs | fstatfs64
  | fgetxattr | fsetxattr | flistxattr => exact fdCall_performs _ _ _ _ _ _ _
  | openVariadic | «open» | creat | creat64 | openatVariadic | openat | open64Variadic
  | open64 => exact openCall_performs _ _ _ _ _
  | fopen | fopen64 => exact fopenCall_performs _ _ _ _ _ _
  | close fd result => exact close_performs fd result
  | sync => exact sync_performs
  | fclose stream result => exact fclose_performs stream result
  | socket domain type protocol fd => exact socket_performs domain type protocol fd
  | fcntl fd cmd arg resultValue => exact fcntl_performs fd cmd arg resultValue
  | _ => exact pathCall_performs _ _ _ _ _ _

end Padll
