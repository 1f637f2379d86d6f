import Padll.Libc

/-! Calls of the intercepted interface as data, with the answer of libc. -/
namespace Padll

/-- A call of the intercepted interface together with the answer of libc. -/
inductive PosixCall where
  | read (fd : Int32) (buf : Address) (counter : UInt64) (result : Int64)
  | write (fd : Int32) (buf : Address) (counter : UInt64) (result : Int64)
  | pread (fd : Int32) (buf : Address) (counter : UInt64) (offset : Int64) (result : Int64)
  | pwrite (fd : Int32) (buf : Address) (counter : UInt64) (offset : Int64) (result : Int64)
  | pread64 (fd : Int32) (buf : Address) (counter : UInt64) (offset : Int64) (result : Int64)
  | pwrite64 (fd : Int32) (buf : Address) (counter : UInt64) (offset : Int64) (result : Int64)
  | mmap (addr : Address) (length : UInt64) (prot flags fd : Int32) (offset : Int64)
    (memPtr : Address)
  | munmap (addr : Address) (length : UInt64) (result : Int32)
  | openVariadic (path : Path) (flags : Int32) (mode : UInt32) (fd : Int32)
  | «open» (path : Path) (flags : Int32) (fd : Int32)
  | creat (path : Path) (mode : UInt32) (fd : Int32)
  | creat64 (path : Path) (mode : UInt32) (fd : Int32)
  | openatVariadic (dirfd : Int32) (path : Path) (flags : Int32) (mode : UInt32) (fd : Int32)
  | openat (dirfd : Int32) (path : Path) (flags : Int32) (fd : Int32)
  | open64Variadic (path : Path) (flags : Int32) (mode : UInt32) (fd : Int32)
  | open64 (path : Path) (flags : Int32) (fd : Int32)
  | close (fd : Int32) (result : Int32)
  | sync
  | statfs (path : Path) (buf : Address) (result : Int32)
  | fstatfs (fd : Int32) (buf : Address) (result : Int32)
  | statfs64 (path : Path) (buf : Address) (result : Int32)
  | fstatfs64 (fd : Int32) (buf : Address) (result : Int32)
  | unlink (path : Path) (result : Int32)
  | unlinkat (dirfd : Int32) (pathname : Path) (flags : Int32) (result : Int32)
  | rename (oldPath newPath : Path) (result : Int32)
  | renameat (olddirfd : Int32) (oldPath : Path) (newdirfd : Int32) (newPath : Path)
    (result : Int32)
  | fopen (pathname mode : Path) (fptr : FilePtr)
  | fopen64 (pathname mode : Path) (fptr : FilePtr)
  | fclose (stream : FilePtr) (result : Int32)
  | mkdir (path : Path) (mode : UInt32) (result : Int32)
  | mkdirat (dirfd : Int32) (path : Path) (mode : UInt32) (result : Int32)
  | mknod (path : Path) (mode : UInt32) (dev : UInt64) (result : Int32)
  | mknodat (dirfd : Int32) (path : Path) (mode : UInt32) (dev : UInt64) (result : Int32)
  | rmdir (path : Path) (result : Int32)
  | getxattr (path name : Path) (value : Address) (size : UInt64) (result : Int64)
  | lgetxattr (path name : Path) (value : Address) (size : UInt64) (result : Int64)
  | fgetxattr (fd : Int32) (name : Path) (value : Address) (size : UInt64) (result : Int64)
  | setxattr (path name : Path) (value : Address) (size : UInt64) (flags : Int32) (result : Int32)
  | lsetxattr (path name : Path) (value : Address) (size : UInt64) (flags : Int32) (result : Int32)
  | fsetxattr (fd : Int32) (name : Path) (value : Address) (size : UInt64) (flags : Int32)
    (result : Int32)
  | listxattr (path : Path) (list : Address) (size : UInt64) (result : Int64)
  | llistxattr (path : Path) (list : Address) (size : UInt64) (result : Int64)
  | flistxattr (fd : Int32) (list : Address) (size : UInt64) (result : Int64)
  | socket (domain type protocol : Int32) (fd : Int32)
  | fcntl (fd cmd : Int32) (arg : Address) (resultValue : Int32)

namespace PosixCall

/-- The operation a call is counted as. -/
def operation : PosixCall → Operation
  | read .. => .data .read
  | write .. => .data .write
  | pread .. => .data .pread
  | pwrite .. => .data .pwrite
  | pread64 .. => .data .pread64
  | pwrite64 .. => .data .pwrite64
  | mmap .. => .data .mmap
  | munmap .. => .data .munmap
  | openVariadic .. => .metadata .openVariadic
  | «open» .. => .metadata .«open»
  | creat .. => .metadata .creat
  | creat64 .. => .metadata .creat64
  | openatVariadic .. => .metadata .openatVariadic
  | openat .. => .metadata .openat
  | open64Variadic .. => .metadata .open64Variadic
  | open64 .. => .metadata .open64
  | close .. => .metadata .close
  | sync => .metadata .sync
  | statfs .. => .metadata .statfs
  | fstatfs .. => .metadata .fstatfs
  | statfs64 .. => .metadata .statfs64
  | fstatfs64 .. => .metadata .fstatfs64
  | unlink .. => .metadata .unlink
  | unlinkat .. => .metadata .unlinkat
  | rename .. => .metadata .rename
  | renameat .. => .metadata .renameat
  | fopen .. => .metadata .fopen
  | fopen64 .. => .metadata .fopen64
  | fclose .. => .metadata .fclose
  | mkdir .. => .directory .mkdir
  | mkdirat .. => .directory .mkdirat
  | mknod .. => .directory .mknod
  | mknodat .. => .directory .mknodat
  | rmdir .. => .directory .rmdir
  | getxattr .. => .extAttr .getxattr
  | lgetxattr .. => .extAttr .lgetxattr
  | fgetxattr .. => .extAttr .fgetxattr
  | setxattr .. => .extAttr .setxattr
  | lsetxattr .. => .extAttr .lsetxattr
  | fsetxattr .. => .extAttr .fsetxattr
  | listxattr .. => .extAttr .listxattr
  | llistxattr .. => .extAttr .llistxattr
  | flistxattr .. => .extAttr .flistxattr
  | socket .. => .special .socket
  | fcntl .. => .special .fcntl

/-- What libc answered. -/
def result : PosixCall → CValue
  | read _ _ _ r | write _ _ _ r | pread _ _ _ _ r | pwrite _ _ _ _ r | pread64 _ _ _ _ r
  | pwrite64 _ _ _ _ r | getxattr _ _ _ _ r | lgetxattr _ _ _ _ r | fgetxattr _ _ _ _ r
  | listxattr _ _ _ r | llistxattr _ _ _ r | flistxattr _ _ _ r => .long r
  | mmap _ _ _ _ _ _ memPtr => .pointer memPtr
  | openVariadic _ _ _ fd | «open» _ _ fd | creat _ _ fd | creat64 _ _ fd
  | openatVariadic _ _ _ _ fd | openat _ _ _ fd | open64Variadic _ _ _ fd | open64 _ _ fd
  | socket _ _ _ fd => .int fd
  | munmap _ _ r | close _ r | statfs _ _ r | fstatfs _ _ r | statfs64 _ _ r | fstatfs64 _ _ r
  | unlink _ r | unlinkat _ _ _ r | rename _ _ r | renameat _ _ _ _ r | fclose _ r | mkdir _ _ r
  | mkdirat _ _ _ r | mknod _ _ _ r | mknodat _ _ _ _ r | rmdir _ r | setxattr _ _ _ _ _ r
  | lsetxattr _ _ _ _ _ r | fsetxattr _ _ _ _ _ r | fcntl _ _ _ r => .int r
  | fopen _ _ fptr | fopen64 _ _ fptr => .stream fptr
  | sync => .void

end PosixCall

/-- A result of a class signals failure: a negative integer, non-zero for directory calls,
`MAP_FAILED`, a null stream. -/
def CValue.signalsFailure (type : OperationType) : CValue → Bool
  | .int r => if type = .directoryCalls then r ≠ 0 else r < 0
  | .long r => r < 0
  | .pointer memPtr => memPtr = mapFailed
  | .stream fptr => fptr = .nullptr
  | _ => false

/-- The bytes a result stands for: non-negative results of data and extended attribute
calls; a mapping moves none. -/
def CValue.bytes (type : OperationType) : CValue → UInt64
  | .int r =>
    if (type = .dataCalls ∨ type = .extAttrCalls) ∧ 0 ≤ r then r.toInt64.toUInt64 else 0
  | .long r => if (type = .dataCalls ∨ type = .extAttrCalls) ∧ 0 ≤ r then r.toUInt64 else 0
  | _ => 0

namespace PosixCall

def failed (c : PosixCall) : Bool := c.result.signalsFailure c.operation.type

def bytes (c : PosixCall) : UInt64 := c.result.bytes c.operation.type

end PosixCall

/-- The kinds of result the calls of a class have. -/
def CValue.FitsClass : OperationType → CValue → Prop
  | .dataCalls, .int _ | .dataCalls, .long _ | .dataCalls, .pointer _ => True
  | .extAttrCalls, .int _ | .extAttrCalls, .long _ => True
  | .metadataCalls, .int _ | .metadataCalls, .stream _ | .metadataCalls, .void => True
  | .directoryCalls, .int _ | .specialCalls, .int _ => True
  | _, _ => False

theorem PosixCall.result_fitsClass (c : PosixCall) : c.result.FitsClass c.operation.type := by
  cases c <;> trivial

end Padll
