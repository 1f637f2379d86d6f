import Padll.Options

/-! The libc surface: operation classes with their numbering, symbols and function pointers,
C values, and what a call leaves in the trace of a process. -/
namespace Padll

abbrev Address := UInt64

/-- What `mmap` returns on failure. -/
def mapFailed : Address := -1

inductive FilePtr where
  | nullptr | stdin | stdout | stderr
  | stream (address : Nat)
  deriving DecidableEq, Repr

inductive OperationType where
  | metadataCalls | dataCalls | directoryCalls | extAttrCalls | specialCalls
  deriving DecidableEq, Repr

inductive Metadata where
  | noOp | «open» | openVariadic | open64 | open64Variadic | creat | creat64 | openat
  | openatVariadic | close | sync | statfs | fstatfs | statfs64 | fstatfs64 | unlink | unlinkat
  | rename | renameat | fopen | fopen64 | fclose
  deriving DecidableEq, Repr

inductive Data where
  | noOp | read | write | pread | pwrite | pread64 | pwrite64 | mmap | munmap
  deriving DecidableEq, Repr

inductive Directory where
  | noOp | mkdir | mkdirat | rmdir | mknod | mknodat
  deriving DecidableEq, Repr

inductive ExtendedAttributes where
  | noOp | getxattr | lgetxattr | fgetxattr | setxattr | lsetxattr | fsetxattr | listxattr
  | llistxattr | flistxattr
  deriving DecidableEq, Repr

inductive Special where
  | noOp | socket | fcntl
  deriving DecidableEq, Repr

namespace Metadata

def values : List Metadata :=
  [noOp, «open», openVariadic, open64, open64Variadic, creat, creat64, openat, openatVariadic, close,
    sync, statfs, fstatfs, statfs64, fstatfs64, unlink, unlinkat, rename, renameat, fopen, fopen64,
    fclose]

def toInt : Metadata → Int32
  | noOp => 0 | «open» => 1 | openVariadic => 2 | open64 => 3 | open64Variadic => 4 | creat => 5
  | creat64 => 6 | openat => 7 | openatVariadic => 8 | close => 9 | sync => 10 | statfs => 11
  | fstatfs => 12 | statfs64 => 13 | fstatfs64 => 14 | unlink => 15 | unlinkat => 16 | rename => 17
  | renameat => 18 | fopen => 19 | fopen64 => 20 | fclose => 21

def name : Metadata → String
  | noOp => "no_op" | «open» => "open" | openVariadic => "open_variadic" | open64 => "open64"
  | open64Variadic => "open64_variadic" | creat => "creat" | creat64 => "creat64"
  | openat => "openat" | openatVariadic => "openat_variadic" | close => "close" | sync => "sync"
  | statfs => "statfs" | fstatfs => "fstatfs" | statfs64 => "statfs64" | fstatfs64 => "fstatfs64"
  | unlink => "unlink" | unlinkat => "unlinkat" | rename => "rename" | renameat => "renameat"
  | fopen => "fopen" | fopen64 => "fopen64" | fclose => "fclose"

end Metadata

namespace Data

def values : List Data := [noOp, read, write, pread, pwrite, pread64, pwrite64, mmap, munmap]

def toInt : Data → Int32
  | noOp => 0 | read => 1 | write => 2 | pread => 3 | pwrite => 4 | pread64 => 5 | pwrite64 => 6
  | mmap => 7 | munmap => 8

def name : Data → String
  | noOp => "no_op" | read => "read" | write => "write" | pread => "pread" | pwrite => "pwrite"
  | pread64 => "pread64" | pwrite64 => "pwrite64" | mmap => "mmap" | munmap => "munmap"

end Data

namespace Directory

def values : List Directory := [noOp, mkdir, mkdirat, rmdir, mknod, mknodat]

def toInt : Directory → Int32
  | noOp => 0 | mkdir => 1 | mkdirat => 2 | rmdir => 3 | mknod => 4 | mknodat => 5

def name : Directory → String
  | noOp => "no_op" | mkdir => "mkdir" | mkdirat => "mkdirat" | rmdir => "rmdir" | mknod => "mknod"
  | mknodat => "mknodat"

end Directory

namespace ExtendedAttributes

def values : List ExtendedAttributes :=
  [noOp, getxattr, lgetxattr, fgetxattr, setxattr, lsetxattr, fsetxattr, listxattr, llistxattr,
    flistxattr]

def toInt : ExtendedAttributes → Int32
  | noOp => 0 | getxattr => 1 | lgetxattr => 2 | fgetxattr => 3 | setxattr => 4 | lsetxattr => 5
  | fsetxattr => 6 | listxattr => 7 | llistxattr => 8 | flistxattr => 9

def name : ExtendedAttributes → String
  | noOp => "no_op" | getxattr => "getxattr" | lgetxattr => "lgetxattr" | fgetxattr => "fgetxattr"
  | setxattr => "setxattr" | lsetxattr => "lsetxattr" | fsetxattr => "fsetxattr"
  | listxattr => "listxattr" | llistxattr => "llistxattr" | flistxattr => "flistxattr"

end ExtendedAttributes

namespace Special

def values : List Special := [noOp, socket, fcntl]

def toInt : Special → Int32
  | noOp => 0 | socket => 1 | fcntl => 2

def name : Special → String
  | noOp => "no_op" | socket => "socket" | fcntl => "fcntl"

end Special

/-- An operation of any class. -/
inductive Operation where
  | metadata (operation : Metadata)
  | data (operation : Data)
  | directory (operation : Directory)
  | extAttr (operation : ExtendedAttributes)
  | special (operation : Special)
  deriving DecidableEq, Repr

namespace Operation

def type : Operation → OperationType
  | metadata _ => .metadataCalls
  | data _ => .dataCalls
  | directory _ => .directoryCalls
  | extAttr _ => .extAttrCalls
  | special _ => .specialCalls

def toInt : Operation → Int32
  | metadata o => o.toInt
  | data o => o.toInt
  | directory o => o.toInt
  | extAttr o => o.toInt
  | special o => o.toInt

def name : Operation → String
  | metadata o => o.name
  | data o => o.name
  | directory o => o.name
  | extAttr o => o.name
  | special o => o.name

end Operation

/-- The operations of a class in the order of their numbers. -/
def OperationType.values : OperationType → List Operation
  | metadataCalls => Metadata.values.map .metadata
  | dataCalls => Data.values.map .data
  | directoryCalls => Directory.values.map .directory
  | extAttrCalls => ExtendedAttributes.values.map .extAttr
  | specialCalls => Special.values.map .special

/-- Names `dlsym` looks up. -/
inductive LibcSymbol where
  | read | write | pread | pwrite | pread64 | pwrite64 | mmap | munmap
  | «open» | creat | creat64 | openat | open64 | close | sync | statfs | fstatfs | statfs64 | fstatfs64
  | unlink | unlinkat | rename | renameat | fopen | fopen64 | fclose
  | mkdir | mkdirat | rmdir | mknod | mknodat
  | getxattr | lgetxattr | fgetxattr | setxattr | lsetxattr | fsetxattr | listxattr | llistxattr
  | flistxattr
  | socket | fcntl
  deriving DecidableEq, Repr

/-- Function pointers that hold a looked-up symbol. -/
inductive LibcSlot where
  | read | write | pread | pwrite | pread64 | pwrite64 | mmap | munmap
  | openVar | «open» | creat | creat64 | openatVar | openat | open64Var | open64 | close | sync
  | statfs | fstatfs | statfs64 | fstatfs64 | unlink | unlinkat | rename | renameat | fopen
  | fopen64 | fclose
  | mkdir | mkdirat | rmdir | mknod | mknodat
  | getxattr | lgetxattr | fgetxattr | setxattr | lsetxattr | fsetxattr | listxattr | llistxattr
  | flistxattr
  | socket | fcntl
  deriving DecidableEq, Repr

/-- The name each hook asks for. -/
def LibcSlot.symbol : LibcSlot → LibcSymbol
  | read => .read | write => .write | pread => .pread | pwrite => .pwrite | pread64 => .pread64
  | pwrite64 => .pwrite64 | mmap => .mmap | munmap => .munmap
  | openVar => .«open» | «open» => .«open» | creat => .creat | creat64 => .creat64
  | openatVar => .openat | openat => .openat | open64Var => .open64 | open64 => .open64
  | close => .close | sync => .sync | statfs => .statfs | fstatfs => .fstatfs
  | statfs64 => .statfs64 | fstatfs64 => .fstatfs64 | unlink => .unlink | unlinkat => .unlinkat
  | rename => .rename | renameat => .renameat | fopen => .fopen | fopen64 => .fopen64
  | fclose => .fclose
  | mkdir => .mkdir | mkdirat => .mkdirat | rmdir => .rmdir | mknod => .mknod | mknodat => .mknodat
  | getxattr => .getxattr | lgetxattr => .lgetxattr | fgetxattr => .fgetxattr
  | setxattr => .setxattr | lsetxattr => .lsetxattr | fsetxattr => .fsetxattr
  | listxattr => .listxattr | llistxattr => .llistxattr | flistxattr => .flistxattr
  | socket => .socket | fcntl => .fcntl

/-- Arguments and results as they cross the C interface. -/
inductive CValue where
  | int (value : Int32)
  | uint (value : UInt32)
  | long (value : Int64)
  | ulong (value : UInt64)
  | pointer (value : Address)
  | text (value : Path)
  | stream (value : FilePtr)
  | void
  deriving DecidableEq, Repr

/-- One call of a libc function. -/
structure LibcCall where
  function : LibcSymbol
  args : List CValue
  deriving DecidableEq, Repr

/-- Operation types a data plane request carries. -/
inductive Posix where
  | read | write | pread | pwrite | pread64 | pwrite64 | mmap | munmap
  | «open» | close | statfs | fstatfs | statfs64 | fstatfs64 | unlink | rename | fopen | fopen64
  | fclose | mkdir | mknod | rmdir | getxattr | setxattr | listxattr
  deriving DecidableEq, Repr

/-- Contexts a data plane request carries. -/
inductive PosixMeta where
  | dataOp | metaOp | dirOp
  deriving DecidableEq, Repr

/-- A request as the data plane stage receives it. -/
structure Submission where
  workflowId : UInt32
  operationType : Posix
  operationContext : PosixMeta
  operationSize : UInt64
  deriving DecidableEq, Repr

/-- What an observer outside the library sees, in order. -/
inductive Event where
  | submit (submission : Submission)
  | libc (call : LibcCall)
  deriving DecidableEq, Repr

def Event.submission? : Event → Option Submission
  | submit s => some s
  | libc _ => none

def Event.libcCall? : Event → Option LibcCall
  | submit _ => none
  | libc call => some call

/-- An object together with the events so far. -/
structure World (σ : Type) where
  object : σ
  events : List Event

/-- Every operation stands in its class at the position of its number. -/
theorem OperationType.values_toInt (op : Operation) :
    op.type.values[op.toInt.toNatClampNeg]? = some op := by
  cases op with
  | metadata o => cases o <;> rfl
  | data o => cases o <;> rfl
  | directory o => cases o <;> rfl
  | extAttr o => cases o <;> rfl
  | special o => cases o <;> rfl

theorem Operation.toInt_inj {op op' : Operation} (htype : op.type = op'.type)
    (h : op.toInt.toNatClampNeg = op'.toInt.toNatClampNeg) : op = op' := by
  have h1 := OperationType.values_toInt op
  rw [htype, h, OperationType.values_toInt op'] at h1
  exact (Option.some.inj h1).symm

end Padll
