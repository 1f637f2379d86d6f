import Padll.MountPointTable
import Padll.Statistics

/-! The enforcing backend. Each method hooks its libc pointer, chooses a workflow, submits the
request, performs the libc call, maintains the table and updates the statistics. -/
namespace Padll

/-- The enforcing object; `hooked` tells which libc pointers are resolved. -/
structure LdPreloadedPosix (opts : Options) where
  collect : Bool := true
  hooked : LibcSlot → Bool := fun _ => false
  stats : CallStatistics := {}
  mountPointTable : MountPointTable opts

abbrev LdPreloaded (opts : Options) := StateM (World (LdPreloadedPosix opts))

namespace LdPreloadedPosix
variable {opts : Options} {R : Type}

def emit (event : Event) : LdPreloaded opts Unit :=
  modify fun w => { w with events := w.events ++ [event] }

def hookPosix (slot : LibcSlot) : LdPreloaded opts Unit :=
  modify fun w =>
    { w with object := { w.object with hooked := Function.update w.object.hooked slot true } }

/-- Call through a resolved pointer; `libc` is what the library answers. -/
def callLibc (slot : LibcSlot) (args : List CValue) (libc : LibcCall → R) : LdPreloaded opts R := do
  emit (.libc ⟨slot.symbol, args⟩)
  return libc ⟨slot.symbol, args⟩

/-- Run one operation of the mount point table. -/
def onTable (f : MountPointTable opts → R × MountPointTable opts) : LdPreloaded opts R :=
  modifyGet fun w =>
    ((f w.object.mountPointTable).1,
      { w with object := { w.object with mountPointTable := (f w.object.mountPointTable).2 } })

def setStatisticCollection (value : Bool) : LdPreloaded opts Unit :=
  modify fun w => { w with object := { w.object with collect := value } }

def getMetadataUnit : UInt32 := -1

/-- The stage takes the size as `uint64_t`. -/
def stageEnforceRequest (workflowId : UInt32) (operationType : Posix)
    (operationContext : PosixMeta) (operationSize : UInt64) : LdPreloaded opts Unit :=
  emit (.submit ⟨workflowId, operationType, operationContext, operationSize⟩)

def enforceRequest (workflowId : UInt32) (operationType : Posix) (operationContext : PosixMeta)
    (payload : Int32) : LdPreloaded opts Bool := do
  let isValid := decide (workflowId ≠ noWorkflow)
  if isValid then
    stageEnforceRequest workflowId operationType operationContext payload.toInt64.toUInt64
  return isValid

def updateStatisticEntryData (s : CallStatistics) (operation : Int32) (bytes : Int64)
    (enforced : Bool) : CallStatistics :=
  if enforced then
    if 0 ≤ bytes then
      { s with dataStats := s.dataStats.updateStatisticEntry operation 1 bytes.toUInt64 }
    else { s with dataStats := s.dataStats.updateStatisticEntryWithError operation 1 0 1 }
  else { s with dataStats := s.dataStats.updateBypassedStatisticEntry operation 1 }

def updateStatisticEntryMetadata (s : CallStatistics) (operation : Int32) (result : Int32)
    (enforced : Bool) : CallStatistics :=
  if enforced then
    if 0 ≤ result then
      { s with metadataStats := s.metadataStats.updateStatisticEntry operation 1 0 }
    else { s with metadataStats := s.metadataStats.updateStatisticEntryWithError operation 1 0 1 }
  else { s with metadataStats := s.metadataStats.updateBypassedStatisticEntry operation 1 }

def updateStatisticEntryDir (s : CallStatistics) (operation : Int32) (result : Int32)
    (enforced : Bool) : CallStatistics :=
  if enforced then
    if result = 0 then { s with dirStats := s.dirStats.updateStatisticEntry operation 1 0 }
    else { s with dirStats := s.dirStats.updateStatisticEntryWithError operation 1 0 1 }
  else { s with dirStats := s.dirStats.updateBypassedStatisticEntry operation 1 }

def updateStatisticEntryExtAttr (s : CallStatistics) (operation : Int32) (result : Int64)
    (enforced : Bool) : CallStatistics :=
  if enforced then
    if 0 ≤ result then
      { s with extAttrStats := s.extAttrStats.updateStatisticEntry operation 1 result.toUInt64 }
    else { s with extAttrStats := s.extAttrStats.updateStatisticEntryWithError operation 1 0 1 }
  else { s with extAttrStats := s.extAttrStats.updateBypassedStatisticEntry operation 1 }

def updateStatisticEntrySpecial (s : CallStatistics) (operation : Int32) (result : Int32)
    (enforced : Bool) : CallStatistics :=
  if enforced then
    if 0 ≤ result then
      { s with specialStats := s.specialStats.updateStatisticEntry operation 1 0 }
    else { s with specialStats := s.specialStats.updateStatisticEntryWithError operation 1 0 1 }
  else { s with specialStats := s.specialStats.updateBypassedStatisticEntry operation 1 }

/-- Dispatch on the class; metadata, directory and special results narrow to `int`. -/
def updateStatisticsOfClass (s : CallStatistics) (operationType : OperationType)
    (operation : Int32) (result : Int64) (enforced : Bool) : CallStatistics :=
  match operationType with
  | .dataCalls => updateStatisticEntryData s operation result enforced
  | .metadataCalls => updateStatisticEntryMetadata s operation result.toInt32 enforced
  | .directoryCalls => updateStatisticEntryDir s operation result.toInt32 enforced
  | .extAttrCalls => updateStatisticEntryExtAttr s operation result enforced
  | .specialCalls => updateStatisticEntrySpecial s operation result.toInt32 enforced

def updateStatistics (operationType : OperationType) (operation : Int32) (result : Int64)
    (enforced : Bool) : LdPreloaded opts Unit :=
  modify fun w =>
    if w.object.collect then
      { w with object := { w.object with
        stats := updateStatisticsOfClass w.object.stats operationType operation result enforced } }
    else w

/-- What one of the copied method bodies fills in. -/
structure CallSite where
  slot : LibcSlot
  operationType : Posix
  operationContext : PosixMeta
  operation : Operation

/-- Body of the methods that choose by path. -/
def pathCall (site : CallSite) (path : Path) (args : List CValue) (toLong : R → Int64)
    (libc : LibcCall → R) : LdPreloaded opts R := do
  hookPosix site.slot
  let (_, workflowId) ← onTable (·.pickWorkflowIdPath path)
  let enforced ← enforceRequest workflowId site.operationType site.operationContext 1
  let result ← callLibc site.slot args libc
  updateStatistics site.operation.type site.operation.toInt (toLong result) enforced
  return result

/-- Body of the methods that choose by descriptor. -/
def fdCall (site : CallSite) (fd : Int32) (payload : Int32) (args : List CValue)
    (toLong : R → Int64) (libc : LibcCall → R) : LdPreloaded opts R := do
  hookPosix site.slot
  let workflowId ← onTable (·.pickWorkflowIdFd fd)
  let enforced ← enforceRequest workflowId site.operationType site.operationContext payload
  let result ← callLibc site.slot args libc
  updateStatistics site.operation.type site.operation.toInt (toLong result) enforced
  return result

/-- Body of the methods that open a descriptor. -/
def openCall (slot : LibcSlot) (operation : Metadata) (path : Path) (args : List CValue)
    (libc : LibcCall → Int32) : LdPreloaded opts Int32 := do
  hookPosix slot
  let (mountpoint, workflowId) ← onTable (·.pickWorkflowIdPath path)
  let enforced ← enforceRequest workflowId .«open» .metaOp 1
  let fd ← callLibc slot args libc
  let _ ← onTable (·.createMountPointEntryFd fd path mountpoint getMetadataUnit)
  updateStatistics .metadataCalls operation.toInt fd.toInt64 enforced
  return fd

/-- Body of the methods that open a stream. -/
def fopenCall (slot : LibcSlot) (operationType : Posix) (operation : Metadata) (pathname : Path)
    (args : List CValue) (libc : LibcCall → FilePtr) : LdPreloaded opts FilePtr := do
  hookPosix slot
  let (mountpoint, workflowId) ← onTable (·.pickWorkflowIdPath pathname)
  let enforced ← enforceRequest workflowId operationType .metaOp 1
  let fptr ← callLibc slot args libc
  let _ ← onTable (·.createMountPointEntryPtr fptr pathname mountpoint getMetadataUnit)
  let result : Int32 := if fptr ≠ .nullptr then 0 else -1
  updateStatistics .metadataCalls operation.toInt result.toInt64 enforced
  return fptr

/-! Data calls: the byte count narrows to the `int` payload. -/

def ldPreloadedPosixRead (fd : Int32) (buf : Address) (counter : UInt64)
    (libc : LibcCall → Int64) : LdPreloaded opts Int64 :=
  fdCall ⟨.read, .read, .dataOp, .data .read⟩ fd counter.toUInt32.toInt32
    [.int fd, .pointer buf, .ulong counter] id libc

def ldPreloadedPosixWrite (fd : Int32) (buf : Address) (counter : UInt64)
    (libc : LibcCall → Int64) : LdPreloaded opts Int64 :=
  fdCall ⟨.write, .write, .dataOp, .data .write⟩ fd counter.toUInt32.toInt32
    [.int fd, .pointer buf, .ulong counter] id libc

def ldPreloadedPosixPread (fd : Int32) (buf : Address) (counter : UInt64) (offset : Int64)
    (libc : LibcCall → Int64) : LdPreloaded opts Int64 :=
  fdCall ⟨.pread, .pread, .dataOp, .data .pread⟩ fd counter.toUInt32.toInt32
    [.int fd, .pointer buf, .ulong counter, .long offset] id libc

def ldPreloadedPosixPwrite (fd : Int32) (buf : Address) (counter : UInt64) (offset : Int64)
    (libc : LibcCall → Int64) : LdPreloaded opts Int64 :=
  fdCall ⟨.pwrite, .pwrite, .dataOp, .data .pwrite⟩ fd counter.toUInt32.toInt32
    [.int fd, .pointer buf, .ulong counter, .long offset] id libc

def ldPreloadedPosixPread64 (fd : Int32) (buf : Address) (counter : UInt64) (offset : Int64)
    (libc : LibcCall → Int64) : LdPreloaded opts Int64 :=
  fdCall ⟨.pread64, .pread64, .dataOp, .data .pread64⟩ fd counter.toUInt32.toInt32
    [.int fd, .pointer buf, .ulong counter, .long offset] id libc

def ldPreloadedPosixPwrite64 (fd : Int32) (buf : Address) (counter : UInt64) (offset : Int64)
    (libc : LibcCall → Int64) : LdPreloaded opts Int64 :=
  fdCall ⟨.pwrite64, .pwrite64, .dataOp, .data .pwrite64⟩ fd counter.toUInt32.toInt32
    [.int fd, .pointer buf, .ulong counter, .long offset] id libc

def mmapStatus (memPtr : Address) : Int32 := if memPtr = mapFailed then -1 else 0

def ldPreloadedPosixMmap (addr : Address) (length : UInt64) (prot flags fd : Int32)
    (offset : Int64) (libc : LibcCall → Address) : LdPreloaded opts Address :=
  fdCall ⟨.mmap, .mmap, .dataOp, .data .mmap⟩ fd 1
    [.pointer addr, .ulong length, .int prot, .int flags, .int fd, .long offset]
    (fun memPtr => (mmapStatus memPtr).toInt64) libc

/-- No descriptor to go by: the choice is made for `-1`. -/
def ldPreloadedPosixMunmap (addr : Address) (length : UInt64) (libc : LibcCall → Int32) :
    LdPreloaded opts Int32 :=
  fdCall ⟨.munmap, .munmap, .dataOp, .data .munmap⟩ (-1) 1 [.pointer addr, .ulong length]
    Int32.toInt64 libc

/-! Metadata calls. -/

def ldPreloadedPosixOpenVariadic (path : Path) (flags : Int32) (mode : UInt32)
    (libc : LibcCall → Int32) : LdPreloaded opts Int32 :=
  openCall .openVar .openVariadic path [.text path, .int flags, .uint mode] libc

def ldPreloadedPosixOpen (path : Path) (flags : Int32) (libc : LibcCall → Int32) :
    LdPreloaded opts Int32 :=
  openCall .«open» .«open» path [.text path, .int flags] libc

def ldPreloadedPosixCreat (path : Path) (mode : UInt32) (libc : LibcCall → Int32) :
    LdPreloaded opts Int32 :=
  openCall .creat .creat path [.text path, .uint mode] libc

def ldPreloadedPosixCreat64 (path : Path) (mode : UInt32) (libc : LibcCall → Int32) :
    LdPreloaded opts Int32 :=
  openCall .creat64 .creat64 path [.text path, .uint mode] libc

def ldPreloadedPosixOpenatVariadic (dirfd : Int32) (path : Path) (flags : Int32) (mode : UInt32)
    (libc : LibcCall → Int32) : LdPreloaded opts Int32 :=
  openCall .openatVar .openatVariadic path [.int dirfd, .text path, .int flags, .uint mode] libc

def ldPreloadedPosixOpenat (dirfd : Int32) (path : Path) (flags : Int32)
    (libc : LibcCall → Int32) : LdPreloaded opts Int32 :=
  openCall .openat .openat path [.int dirfd, .text path, .int flags] libc

def ldPreloadedPosixOpen64Variadic (path : Path) (flags : Int32) (mode : UInt32)
    (libc : LibcCall → Int32) : LdPreloaded opts Int32 :=
  openCall .open64Var .open64Variadic path [.text path, .int flags, .uint mode] libc

def ldPreloadedPosixOpen64 (path : Path) (flags : Int32) (libc : LibcCall → Int32) :
    LdPreloaded opts Int32 :=
  openCall .open64 .open64 path [.text path, .int flags] libc

/-- The workflow of a descriptor, by force where the regular choice finds none. -/
def pickWorkflowIdToClose (fd : Int32) : LdPreloaded opts UInt32 := do
  let workflowId ← onTable (·.pickWorkflowIdFd fd)
  if workflowId = noWorkflow then onTable (·.pickWorkflowIdByForce) else return workflowId

def ldPreloadedPosixClose (fd : Int32) (libc : LibcCall → Int32) : LdPreloaded opts Int32 := do
  hookPosix .close
  let workflowId ← pickWorkflowIdToClose fd
  let enforced ← enforceRequest workflowId .close .metaOp 1
  let result ← callLibc .close [.int fd] libc
  if opts.hardRemove then
    let _ ← onTable (·.removeMountPointEntryFd fd)
  updateStatistics .metadataCalls Metadata.close.toInt result.toInt64 enforced
  return result

def ldPreloadedPosixSync (libc : LibcCall → Unit) : LdPreloaded opts Unit := do
  hookPosix .sync
  callLibc .sync [] libc
  updateStatistics .metadataCalls Metadata.sync.toInt 1 true

def ldPreloadedPosixStatfs (path : Path) (buf : Address) (libc : LibcCall → Int32) :
    LdPreloaded opts Int32 :=
  pathCall ⟨.statfs, .statfs, .metaOp, .metadata .statfs⟩ path [.text path, .pointer buf]
    Int32.toInt64 libc

def ldPreloadedPosixFstatfs (fd : Int32) (buf : Address) (libc : LibcCall → Int32) :
    LdPreloaded opts Int32 :=
  fdCall ⟨.fstatfs, .fstatfs, .metaOp, .metadata .fstatfs⟩ fd 1 [.int fd, .pointer buf]
    Int32.toInt64 libc

def ldPreloadedPosixStatfs64 (path : Path) (buf : Address) (libc : LibcCall → Int32) :
    LdPreloaded opts Int32 :=
  pathCall ⟨.statfs64, .statfs64, .metaOp, .metadata .statfs64⟩ path [.text path, .pointer buf]
    Int32.toInt64 libc

def ldPreloadedPosixFstatfs64 (fd : Int32) (buf : Address) (libc : LibcCall → Int32) :
    LdPreloaded opts Int32 :=
  fdCall ⟨.fstatfs64, .fstatfs64, .metaOp, .metadata .fstatfs64⟩ fd 1 [.int fd, .pointer buf]
    Int32.toInt64 libc

def ldPreloadedPosixUnlink (path : Path) (libc : LibcCall → Int32) : LdPreloaded opts Int32 :=
  pathCall ⟨.unlink, .unlink, .metaOp, .metadata .unlink⟩ path [.text path] Int32.toInt64 libc

def ldPreloadedPosixUnlinkat (dirfd : Int32) (pathname : Path) (flags : Int32)
    (libc : LibcCall → Int32) : LdPreloaded opts Int32 :=
  pathCall ⟨.unlinkat, .unlink, .metaOp, .metadata .unlinkat⟩ pathname
    [.int dirfd, .text pathname, .int flags] Int32.toInt64 libc

def ldPreloadedPosixRename (oldPath newPath : Path) (libc : LibcCall → Int32) :
    LdPreloaded opts Int32 :=
  pathCall ⟨.rename, .rename, .metaOp, .metadata .rename⟩ newPath [.text oldPath, .text newPath]
    Int32.toInt64 libc

def ldPreloadedPosixRenameat (olddirfd : Int32) (oldPath : Path) (newdirfd : Int32)
    (newPath : Path) (libc : LibcCall → Int32) : LdPreloaded opts Int32 :=
  pathCall ⟨.renameat, .rename, .metaOp, .metadata .renameat⟩ newPath
    [.int olddirfd, .text oldPath, .int newdirfd, .text newPath] Int32.toInt64 libc

def ldPreloadedPosixFopen (pathname mode : Path) (libc : LibcCall → FilePtr) :
    LdPreloaded opts FilePtr :=
  fopenCall .fopen .fopen .fopen pathname [.text pathname, .text mode] libc

def ldPreloadedPosixFopen64 (pathname mode : Path) (libc : LibcCall → FilePtr) :
    LdPreloaded opts FilePtr :=
  fopenCall .fopen64 .fopen64 .fopen64 pathname [.text pathname, .text mode] libc

def ldPreloadedPosixFclose (stream : FilePtr) (libc : LibcCall → Int32) :
    LdPreloaded opts Int32 := do
  hookPosix .fclose
  let workflowId ← onTable (·.pickWorkflowIdPtr stream)
  let enforced ← enforceRequest workflowId .fclose .metaOp 1
  let result ← callLibc .fclose [.stream stream] libc
  let _ ← onTable (·.removeMountPointEntryPtr stream)
  updateStatistics .metadataCalls Metadata.fclose.toInt result.toInt64 enforced
  return result

/-! Directory calls. -/

def ldPreloadedPosixMkdir (path : Path) (mode : UInt32) (libc : LibcCall → Int32) :
    LdPreloaded opts Int32 :=
  pathCall ⟨.mkdir, .mkdir, .metaOp, .directory .mkdir⟩ path [.text path, .uint mode]
    Int32.toInt64 libc

def ldPreloadedPosixMkdirat (dirfd : Int32) (path : Path) (mode : UInt32)
    (libc : LibcCall → Int32) : LdPreloaded opts Int32 :=
  pathCall ⟨.mkdirat, .mkdir, .metaOp, .directory .mkdirat⟩ path
    [.int dirfd, .text path, .uint mode] Int32.toInt64 libc

def ldPreloadedPosixMknod (path : Path) (mode : UInt32) (dev : UInt64)
    (libc : LibcCall → Int32) : LdPreloaded opts Int32 :=
  pathCall ⟨.mknod, .mknod, .metaOp, .directory .mknod⟩ path
    [.text path, .uint mode, .ulong dev] Int32.toInt64 libc

def ldPreloadedPosixMknodat (dirfd : Int32) (path : Path) (mode : UInt32) (dev : UInt64)
    (libc : LibcCall → Int32) : LdPreloaded opts Int32 :=
  pathCall ⟨.mknodat, .mknod, .metaOp, .directory .mknodat⟩ path
    [.int dirfd, .text path, .uint mode, .ulong dev] Int32.toInt64 libc

/-- The one directory call submitted under `dir_op`. -/
def ldPreloadedPosixRmdir (path : Path) (libc : LibcCall → Int32) : LdPreloaded opts Int32 :=
  pathCall ⟨.rmdir, .rmdir, .dirOp, .directory .rmdir⟩ path [.text path] Int32.toInt64 libc

/-! Extended attribute calls. -/

def ldPreloadedPosixGetxattr (path name : Path) (value : Address) (size : UInt64)
    (libc : LibcCall → Int64) : LdPreloaded opts Int64 :=
  pathCall ⟨.getxattr, .getxattr, .metaOp, .extAttr .getxattr⟩ path
    [.text path, .text name, .pointer value, .ulong size] id libc

def ldPreloadedPosixLgetxattr (path name : Path) (value : Address) (size : UInt64)
    (libc : LibcCall → Int64) : LdPreloaded opts Int64 :=
  pathCall ⟨.lgetxattr, .getxattr, .metaOp, .extAttr .lgetxattr⟩ path
    [.text path, .text name, .pointer value, .ulong size] id libc

def ldPreloadedPosixFgetxattr (fd : Int32) (name : Path) (value : Address) (size : UInt64)
    (libc : LibcCall → Int64) : LdPreloaded opts Int64 :=
  fdCall ⟨.fgetxattr, .getxattr, .metaOp, .extAttr .fgetxattr⟩ fd 1
    [.int fd, .text name, .pointer value, .ulong size] id libc

def ldPreloadedPosixSetxattr (path name : Path) (value : Address) (size : UInt64) (flags : Int32)
    (libc : LibcCall → Int32) : LdPreloaded opts Int32 :=
  pathCall ⟨.setxattr, .setxattr, .metaOp, .extAttr .setxattr⟩ path
    [.text path, .text name, .pointer value, .ulong size, .int flags] Int32.toInt64 libc

def ldPreloadedPosixLsetxattr (path name : Path) (value : Address) (size : UInt64)
    (flags : Int32) (libc : LibcCall → Int32) : LdPreloaded opts Int32 :=
  pathCall ⟨.lsetxattr, .setxattr, .metaOp, .extAttr .lsetxattr⟩ path
    [.text path, .text name, .pointer value, .ulong size, .int flags] Int32.toInt64 libc

def ldPreloadedPosixFsetxattr (fd : Int32) (name : Path) (value : Address) (size : UInt64)
    (flags : Int32) (libc : LibcCall → Int32) : LdPreloaded opts Int32 :=
  fdCall ⟨.fsetxattr, .setxattr, .metaOp, .extAttr .fsetxattr⟩ fd 1
    [.int fd, .text name, .pointer value, .ulong size, .int flags] Int32.toInt64 libc

def ldPreloadedPosixListxattr (path : Path) (list : Address) (size : UInt64)
    (libc : LibcCall → Int64) : LdPreloaded opts Int64 :=
  pathCall ⟨.listxattr, .listxattr, .metaOp, .extAttr .listxattr⟩ path
    [.text path, .pointer list, .ulong size] id libc

def ldPreloadedPosixLlistxattr (path : Path) (list : Address) (size : UInt64)
    (libc : LibcCall → Int64) : LdPreloaded opts Int64 :=
  pathCall ⟨.llistxattr, .listxattr, .metaOp, .extAttr .llistxattr⟩ path
    [.text path, .pointer list, .ulong size] id libc

def ldPreloadedPosixFlistxattr (fd : Int32) (list : Address) (size : UInt64)
    (libc : LibcCall → Int64) : LdPreloaded opts Int64 :=
  fdCall ⟨.flistxattr, .listxattr, .metaOp, .extAttr .flistxattr⟩ fd 1
    [.int fd, .pointer list, .ulong size] id libc

/-! Special calls: never submitted. -/

def ldPreloadedPosixSocket (domain type protocol : Int32) (libc : LibcCall → Int32) :
    LdPreloaded opts Int32 := do
  hookPosix .socket
  let fd ← callLibc .socket [.int domain, .int type, .int protocol] libc
  updateStatistics .specialCalls Special.socket.toInt fd.toInt64 false
  return fd

def fDupfd : Int32 := 0

def fDupfdCloexec : Int32 := 1030

def ldPreloadedPosixFcntl (fd cmd : Int32) (arg : Address) (libc : LibcCall → Int32) :
    LdPreloaded opts Int32 := do
  hookPosix .fcntl
  let resultValue ← callLibc .fcntl [.int fd, .int cmd, .pointer arg] libc
  if cmd = fDupfd ∨ cmd = fDupfdCloexec then
    let _ ← onTable (·.replaceFileDescriptor fd resultValue)
  updateStatistics .specialCalls Special.fcntl.toInt resultValue.toInt64 false
  return resultValue

/-! How the building blocks act on an object and a trace. -/

theorem bind_apply {σ α β : Type} (x : StateM σ α) (f : α → StateM σ β) (s : σ) :
    (x >>= f) s = f (x s).1 (x s).2 := rfl

theorem map_apply {σ α β : Type} (f : α → β) (x : StateM σ α) (s : σ) :
    (f <$> x) s = (f (x s).1, (x s).2) := rfl

theorem pure_apply {σ α : Type} (a : α) (s : σ) : (pure a : StateM σ α) s = (a, s) := rfl

theorem hookPosix_apply (slot : LibcSlot) (o : LdPreloadedPosix opts) (events : List Event) :
    hookPosix slot ⟨o, events⟩ =
      ((), ⟨{ o with hooked := Function.update o.hooked slot true }, events⟩) := rfl

theorem onTable_apply (f : MountPointTable opts → R × MountPointTable opts)
    (o : LdPreloadedPosix opts) (events : List Event) :
    onTable f ⟨o, events⟩ =
      ((f o.mountPointTable).1, ⟨{ o with mountPointTable := (f o.mountPointTable).2 }, events⟩) :=
  rfl

theorem callLibc_apply (slot : LibcSlot) (args : List CValue) (libc : LibcCall → R)
    (o : LdPreloadedPosix opts) (events : List Event) :
    callLibc slot args libc ⟨o, events⟩ =
      (libc ⟨slot.symbol, args⟩, ⟨o, events ++ [.libc ⟨slot.symbol, args⟩]⟩) := rfl

theorem enforceRequest_apply (workflowId : UInt32) (operationType : Posix)
    (operationContext : PosixMeta) (payload : Int32) (o : LdPreloadedPosix opts)
    (events : List Event) :
    enforceRequest workflowId operationType operationContext payload ⟨o, events⟩ =
      if workflowId = noWorkflow then (false, ⟨o, events⟩)
      else (true, ⟨o, events ++
        [.submit ⟨workflowId, operationType, operationContext, payload.toInt64.toUInt64⟩]⟩) := by
  by_cases h : workflowId = noWorkflow
  · simp only [enforceRequest, h, ne_eq, not_true_eq_false, decide_false, if_true]
    rfl
  · simp only [enforceRequest, h, ne_eq, not_false_eq_true, decide_true, if_true, if_false]
    rfl

end LdPreloadedPosix

end Padll
