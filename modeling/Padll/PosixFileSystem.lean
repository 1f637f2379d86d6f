import Padll.PosixPassthrough

/-! The interposed functions. Each hands its call to one of the two backends; the open functions
first read the mode behind their flags where `O_CREAT` asks for one. -/
namespace Padll
variable {opts : Options}

/-- The file system objects of the preloaded library. -/
structure PosixFileSystem (opts : Options) where
  posixPassthrough : PosixPassthrough := {}
  ldpLoaded : Bool
  ldPreloadedPosix : LdPreloadedPosix opts

abbrev FileSystem (opts : Options) := StateM (World (PosixFileSystem opts))

/-- The `padll_intercept` flags, one for each hook. -/
abbrev InterceptedCalls := LibcSlot → Bool

/-- The flags the header is shipped with. -/
def InterceptedCalls.shipped : InterceptedCalls
  | .openVar | .«open» => true
  | _ => false

def oCreat : Int32 := 0o100

/-- Includes the bit of `O_DIRECTORY`. -/
def oTmpfile : Int32 := 0o20200000

/-- The variadic mode read as an `int` and cast back. -/
def vaArgMode (mode : UInt32) : UInt32 := mode.toInt32.toUInt32

namespace PosixFileSystem
variable {R : Type}

def onPassthrough (method : Passthrough R) : FileSystem opts R := fun w =>
  let (result, after) := method ⟨w.object.posixPassthrough, w.events⟩
  (result, ⟨{ w.object with posixPassthrough := after.object }, after.events⟩)

def onLdPreloaded (method : LdPreloaded opts R) : FileSystem opts R := fun w =>
  let (result, after) := method ⟨w.object.ldPreloadedPosix, w.events⟩
  (result, ⟨{ w.object with ldPreloadedPosix := after.object }, after.events⟩)

/-- The enforcing backend serves an intercepted call once it is loaded. -/
def serve (intercepted : Bool) (enforcing : LdPreloaded opts R) (passing : Passthrough R) :
    FileSystem opts R := fun w =>
  if intercepted && w.object.ldpLoaded then onLdPreloaded enforcing w else onPassthrough passing w

open LdPreloadedPosix PosixPassthrough

/-! Data calls. -/

def read (intercept : InterceptedCalls) (fd : Int32) (buf : Address) (size : UInt64)
    (libc : LibcCall → Int64) : FileSystem opts Int64 :=
  serve (intercept .read) (ldPreloadedPosixRead fd buf size libc)
    (passthroughPosixRead fd buf size libc)

def write (intercept : InterceptedCalls) (fd : Int32) (buf : Address) (size : UInt64)
    (libc : LibcCall → Int64) : FileSystem opts Int64 :=
  serve (intercept .write) (ldPreloadedPosixWrite fd buf size libc)
    (passthroughPosixWrite fd buf size libc)

def pread (intercept : InterceptedCalls) (fd : Int32) (buf : Address) (size : UInt64)
    (offset : Int64) (libc : LibcCall → Int64) : FileSystem opts Int64 :=
  serve (intercept .pread) (ldPreloadedPosixPread fd buf size offset libc)
    (passthroughPosixPread fd buf size offset libc)

def pwrite (intercept : InterceptedCalls) (fd : Int32) (buf : Address) (size : UInt64)
    (offset : Int64) (libc : LibcCall → Int64) : FileSystem opts Int64 :=
  serve (intercept .pwrite) (ldPreloadedPosixPwrite fd buf size offset libc)
    (passthroughPosixPwrite fd buf size offset libc)

def pread64 (intercept : InterceptedCalls) (fd : Int32) (buf : Address) (size : UInt64)
    (offset : Int64) (libc : LibcCall → Int64) : FileSystem opts Int64 :=
  serve (intercept .pread64) (ldPreloadedPosixPread64 fd buf size offset libc)
    (passthroughPosixPread64 fd buf size offset libc)

def pwrite64 (intercept : InterceptedCalls) (fd : Int32) (buf : Address) (size : UInt64)
    (offset : Int64) (libc : LibcCall → Int64) : FileSystem opts Int64 :=
  serve (intercept .pwrite64) (ldPreloadedPosixPwrite64 fd buf size offset libc)
    (passthroughPosixPwrite64 fd buf size offset libc)

def mmap (intercept : InterceptedCalls) (addr : Address) (length : UInt64) (prot flags fd : Int32)
    (offset : Int64) (libc : LibcCall → Address) : FileSystem opts Address :=
  serve (intercept .mmap) (ldPreloadedPosixMmap addr length prot flags fd offset libc)
    (passthroughPosixMmap addr length prot flags fd offset libc)

def munmap (intercept : InterceptedCalls) (addr : Address) (length : UInt64)
    (libc : LibcCall → Int32) : FileSystem opts Int32 :=
  serve (intercept .munmap) (ldPreloadedPosixMunmap addr length libc)
    (passthroughPosixMunmap addr length libc)

/-! Metadata calls. -/

def «open» (intercept : InterceptedCalls) (path : Path) (flags : Int32) (mode : UInt32)
    (libc : LibcCall → Int32) : FileSystem opts Int32 :=
  if flags &&& oCreat ≠ 0 then
    serve (intercept .openVar) (ldPreloadedPosixOpenVariadic path flags (vaArgMode mode) libc)
      (passthroughPosixOpenVariadic path flags (vaArgMode mode) libc)
  else
    serve (intercept .«open») (ldPreloadedPosixOpen path flags libc)
      (passthroughPosixOpen path flags libc)

def creat (intercept : InterceptedCalls) (path : Path) (mode : UInt32) (libc : LibcCall → Int32) :
    FileSystem opts Int32 :=
  serve (intercept .creat) (ldPreloadedPosixCreat path mode libc)
    (passthroughPosixCreat path mode libc)

def creat64 (intercept : InterceptedCalls) (path : Path) (mode : UInt32) (libc : LibcCall → Int32) :
    FileSystem opts Int32 :=
  serve (intercept .creat64) (ldPreloadedPosixCreat64 path mode libc)
    (passthroughPosixCreat64 path mode libc)

def openat (intercept : InterceptedCalls) (dirfd : Int32) (path : Path) (flags : Int32)
    (mode : UInt32) (libc : LibcCall → Int32) : FileSystem opts Int32 :=
  if flags &&& oCreat ≠ 0 then
    serve (intercept .openatVar)
      (ldPreloadedPosixOpenatVariadic dirfd path flags (vaArgMode mode) libc)
      (passthroughPosixOpenatVariadic dirfd path flags (vaArgMode mode) libc)
  else
    serve (intercept .openat) (ldPreloadedPosixOpenat dirfd path flags libc)
      (passthroughPosixOpenat dirfd path flags libc)

def open64 (intercept : InterceptedCalls) (path : Path) (flags : Int32) (mode : UInt32)
    (libc : LibcCall → Int32) : FileSystem opts Int32 :=
  if flags &&& oCreat ≠ 0 then
    serve (intercept .open64Var) (ldPreloadedPosixOpen64Variadic path flags (vaArgMode mode) libc)
      (passthroughPosixOpen64Variadic path flags (vaArgMode mode) libc)
  else
    serve (intercept .open64) (ldPreloadedPosixOpen64 path flags libc)
      (passthroughPosixOpen64 path flags libc)

def close (intercept : InterceptedCalls) (fd : Int32) (libc : LibcCall → Int32) :
    FileSystem opts Int32 :=
  serve (intercept .close) (ldPreloadedPosixClose fd libc) (passthroughPosixClose fd libc)

def sync (intercept : InterceptedCalls) (libc : LibcCall → Unit) : FileSystem opts Unit :=
  serve (intercept .sync) (ldPreloadedPosixSync libc) (passthroughPosixSync libc)

def statfs (intercept : InterceptedCalls) (path : Path) (buf : Address) (libc : LibcCall → Int32) :
    FileSystem opts Int32 :=
  serve (intercept .statfs) (ldPreloadedPosixStatfs path buf libc)
    (passthroughPosixStatfs path buf libc)

def fstatfs (intercept : InterceptedCalls) (fd : Int32) (buf : Address) (libc : LibcCall → Int32) :
    FileSystem opts Int32 :=
  serve (intercept .fstatfs) (ldPreloadedPosixFstatfs fd buf libc)
    (passthroughPosixFstatfs fd buf libc)

def statfs64 (intercept : InterceptedCalls) (path : Path) (buf : Address) (libc : LibcCall → Int32)
    : FileSystem opts Int32 :=
  serve (intercept .statfs64) (ldPreloadedPosixStatfs64 path buf libc)
    (passthroughPosixStatfs64 path buf libc)

def fstatfs64 (intercept : InterceptedCalls) (fd : Int32) (buf : Address) (libc : LibcCall → Int32)
    : FileSystem opts Int32 :=
  serve (intercept .fstatfs64) (ldPreloadedPosixFstatfs64 fd buf libc)
    (passthroughPosixFstatfs64 fd buf libc)

def unlink (intercept : InterceptedCalls) (path : Path) (libc : LibcCall → Int32) :
    FileSystem opts Int32 :=
  serve (intercept .unlink) (ldPreloadedPosixUnlink path libc)
    (passthroughPosixUnlink path libc)

def unlinkat (intercept : InterceptedCalls) (dirfd : Int32) (pathname : Path) (flags : Int32)
    (libc : LibcCall → Int32) : FileSystem opts Int32 :=
  serve (intercept .unlinkat) (ldPreloadedPosixUnlinkat dirfd pathname flags libc)
    (passthroughPosixUnlinkat dirfd pathname flags libc)

def rename (intercept : InterceptedCalls) (oldPath newPath : Path) (libc : LibcCall → Int32) :
    FileSystem opts Int32 :=
  serve (intercept .rename) (ldPreloadedPosixRename oldPath newPath libc)
    (passthroughPosixRename oldPath newPath libc)

def renameat (intercept : InterceptedCalls) (olddirfd : Int32) (oldPath : Path) (newdirfd : Int32)
    (newPath : Path) (libc : LibcCall → Int32) : FileSystem opts Int32 :=
  serve (intercept .renameat) (ldPreloadedPosixRenameat olddirfd oldPath newdirfd newPath libc)
    (passthroughPosixRenameat olddirfd oldPath newdirfd newPath libc)

def fopen (intercept : InterceptedCalls) (pathname mode : Path) (libc : LibcCall → FilePtr) :
    FileSystem opts FilePtr :=
  serve (intercept .fopen) (ldPreloadedPosixFopen pathname mode libc)
    (passthroughPosixFopen pathname mode libc)

def fopen64 (intercept : InterceptedCalls) (pathname mode : Path) (libc : LibcCall → FilePtr) :
    FileSystem opts FilePtr :=
  serve (intercept .fopen64) (ldPreloadedPosixFopen64 pathname mode libc)
    (passthroughPosixFopen64 pathname mode libc)

def fclose (intercept : InterceptedCalls) (stream : FilePtr) (libc : LibcCall → Int32) :
    FileSystem opts Int32 :=
  serve (intercept .fclose) (ldPreloadedPosixFclose stream libc)
    (passthroughPosixFclose stream libc)

/-! Directory calls. -/

def mkdir (intercept : InterceptedCalls) (path : Path) (mode : UInt32) (libc : LibcCall → Int32) :
    FileSystem opts Int32 :=
  serve (intercept .mkdir) (ldPreloadedPosixMkdir path mode libc)
    (passthroughPosixMkdir path mode libc)

def mkdirat (intercept : InterceptedCalls) (dirfd : Int32) (path : Path) (mode : UInt32)
    (libc : LibcCall → Int32) : FileSystem opts Int32 :=
  serve (intercept .mkdirat) (ldPreloadedPosixMkdirat dirfd path mode libc)
    (passthroughPosixMkdirat dirfd path mode libc)

def rmdir (intercept : InterceptedCalls) (path : Path) (libc : LibcCall → Int32) :
    FileSystem opts Int32 :=
  serve (intercept .rmdir) (ldPreloadedPosixRmdir path libc) (passthroughPosixRmdir path libc)

def mknod (intercept : InterceptedCalls) (path : Path) (mode : UInt32) (dev : UInt64)
    (libc : LibcCall → Int32) : FileSystem opts Int32 :=
  serve (intercept .mknod) (ldPreloadedPosixMknod path mode dev libc)
    (passthroughPosixMknod path mode dev libc)

def mknodat (intercept : InterceptedCalls) (dirfd : Int32) (path : Path) (mode : UInt32)
    (dev : UInt64) (libc : LibcCall → Int32) : FileSystem opts Int32 :=
  serve (intercept .mknodat) (ldPreloadedPosixMknodat dirfd path mode dev libc)
    (passthroughPosixMknodat dirfd path mode dev libc)

/-! Extended attribute calls. -/

def getxattr (intercept : InterceptedCalls) (path name : Path) (value : Address) (size : UInt64)
    (libc : LibcCall → Int64) : FileSystem opts Int64 :=
  serve (intercept .getxattr) (ldPreloadedPosixGetxattr path name value size libc)
    (passthroughPosixGetxattr path name value size libc)

def lgetxattr (intercept : InterceptedCalls) (path name : Path) (value : Address) (size : UInt64)
    (libc : LibcCall → Int64) : FileSystem opts Int64 :=
  serve (intercept .lgetxattr) (ldPreloadedPosixLgetxattr path name value size libc)
    (passthroughPosixLgetxattr path name value size libc)

def fgetxattr (intercept : InterceptedCalls) (fd : Int32) (name : Path) (value : Address)
    (size : UInt64) (libc : LibcCall → Int64) : FileSystem opts Int64 :=
  serve (intercept .fgetxattr) (ldPreloadedPosixFgetxattr fd name value size libc)
    (passthroughPosixFgetxattr fd name value size libc)

def setxattr (intercept : InterceptedCalls) (path name : Path) (value : Address) (size : UInt64)
    (flags : Int32) (libc : LibcCall → Int32) : FileSystem opts Int32 :=
  serve (intercept .setxattr) (ldPreloadedPosixSetxattr path name value size flags libc)
    (passthroughPosixSetxattr path name value size flags libc)

def lsetxattr (intercept : InterceptedCalls) (path name : Path) (value : Address) (size : UInt64)
    (flags : Int32) (libc : LibcCall → Int32) : FileSystem opts Int32 :=
  serve (intercept .lsetxattr) (ldPreloadedPosixLsetxattr path name value size flags libc)
    (passthroughPosixLsetxattr path name value size flags libc)

def fsetxattr (intercept : InterceptedCalls) (fd : Int32) (name : Path) (value : Address)
    (size : UInt64) (flags : Int32) (libc : LibcCall → Int32) : FileSystem opts Int32 :=
  serve (intercept .fsetxattr) (ldPreloadedPosixFsetxattr fd name value size flags libc)
    (passthroughPosixFsetxattr fd name value size flags libc)

def listxattr (intercept : InterceptedCalls) (path : Path) (list : Address) (size : UInt64)
    (libc : LibcCall → Int64) : FileSystem opts Int64 :=
  serve (intercept .listxattr) (ldPreloadedPosixListxattr path list size libc)
    (passthroughPosixListxattr path list size libc)

def llistxattr (intercept : InterceptedCalls) (path : Path) (list : Address) (size : UInt64)
    (libc : LibcCall → Int64) : FileSystem opts Int64 :=
  serve (intercept .llistxattr) (ldPreloadedPosixLlistxattr path list size libc)
    (passthroughPosixLlistxattr path list size libc)

def flistxattr (intercept : InterceptedCalls) (fd : Int32) (list : Address) (size : UInt64)
    (libc : LibcCall → Int64) : FileSystem opts Int64 :=
  serve (intercept .flistxattr) (ldPreloadedPosixFlistxattr fd list size libc)
    (passthroughPosixFlistxattr fd list size libc)

/-! Special calls. -/

def socket (intercept : InterceptedCalls) (domain type protocol : Int32) (libc : LibcCall → Int32) :
    FileSystem opts Int32 :=
  serve (intercept .socket) (ldPreloadedPosixSocket domain type protocol libc)
    (passthroughPosixSocket domain type protocol libc)

/-- Reads neither its flag nor whether the enforcing backend is loaded. -/
def fcntl (fd cmd : Int32) (arg : Address) (libc : LibcCall → Int32) : FileSystem opts Int32 :=
  onLdPreloaded (ldPreloadedPosixFcntl fd cmd arg libc)

end PosixFileSystem

/-- A call of an interposed open function; the mode is what stands behind the flags. -/
inductive InterposedOpen where
  | «open» (path : Path) (flags : Int32) (mode : UInt32)
  | openat (dirfd : Int32) (path : Path) (flags : Int32) (mode : UInt32)
  | open64 (path : Path) (flags : Int32) (mode : UInt32)

namespace InterposedOpen
open PosixFileSystem

def perform (intercept : InterceptedCalls) (libc : LibcCall → Int32) :
    InterposedOpen → FileSystem opts Int32
  | «open» path flags mode => PosixFileSystem.open intercept path flags mode libc
  | openat dirfd path flags mode => PosixFileSystem.openat intercept dirfd path flags mode libc
  | open64 path flags mode => PosixFileSystem.open64 intercept path flags mode libc

def function : InterposedOpen → LibcSymbol
  | «open» .. => .«open»
  | openat .. => .openat
  | open64 .. => .open64

def flags : InterposedOpen → Int32
  | «open» _ flags _ | openat _ _ flags _ | open64 _ flags _ => flags

def mode : InterposedOpen → UInt32
  | «open» _ _ mode | openat _ _ _ mode | open64 _ _ mode => mode

/-- The arguments up to the flags. -/
def fixedArgs : InterposedOpen → List CValue
  | «open» path flags _ | open64 path flags _ => [.text path, .int flags]
  | openat dirfd path flags _ => [.int dirfd, .text path, .int flags]

end InterposedOpen

/-- The backend methods between which `O_CREAT` decides. -/
def PosixCall.dependsOnFlags : PosixCall → Bool
  | .openVariadic .. | .«open» .. | .openatVariadic .. | .openat .. | .open64Variadic ..
  | .open64 .. => true
  | _ => false

/-- A call of an interposed function together with the answer of libc. -/
inductive InterposedCall where
  | opening (call : InterposedOpen) (fd : Int32)
  | direct (call : PosixCall) (fixed : call.dependsOnFlags = false)

namespace InterposedCall

/-- Perform a call through its wrapper. -/
def perform (intercept : InterceptedCalls) : InterposedCall → FileSystem opts CValue
  | .opening call fd => .int <$> call.perform intercept fun _ => fd
  | .direct (.read fd buf counter result) _ =>
    .long <$> PosixFileSystem.read intercept fd buf counter fun _ => result
  | .direct (.write fd buf counter result) _ =>
    .long <$> PosixFileSystem.write intercept fd buf counter fun _ => result
  | .direct (.pread fd buf counter offset result) _ =>
    .long <$> PosixFileSystem.pread intercept fd buf counter offset fun _ => result
  | .direct (.pwrite fd buf counter offset result) _ =>
    .long <$> PosixFileSystem.pwrite intercept fd buf counter offset fun _ => result
  | .direct (.pread64 fd buf counter offset result) _ =>
    .long <$> PosixFileSystem.pread64 intercept fd buf counter offset fun _ => result
  | .direct (.pwrite64 fd buf counter offset result) _ =>
    .long <$> PosixFileSystem.pwrite64 intercept fd buf counter offset fun _ => result
  | .direct (.mmap addr length prot flags fd offset memPtr) _ =>
    .pointer <$> PosixFileSystem.mmap intercept addr length prot flags fd offset fun _ => memPtr
  | .direct (.munmap addr length result) _ =>
    .int <$> PosixFileSystem.munmap intercept addr length fun _ => result
  | .direct (.creat path mode fd) _ =>
    .int <$> PosixFileSystem.creat intercept path mode fun _ => fd
  | .direct (.creat64 path mode fd) _ =>
    .int <$> PosixFileSystem.creat64 intercept path mode fun _ => fd
  | .direct (.close fd result) _ => .int <$> PosixFileSystem.close intercept fd fun _ => result
  | .direct .sync _ => (fun _ => .void) <$> PosixFileSystem.sync intercept fun _ => ()
  | .direct (.statfs path buf result) _ =>
    .int <$> PosixFileSystem.statfs intercept path buf fun _ => result
  | .direct (.fstatfs fd buf result) _ =>
    .int <$> PosixFileSystem.fstatfs intercept fd buf fun _ => result
  | .direct (.statfs64 path buf result) _ =>
    .int <$> PosixFileSystem.statfs64 intercept path buf fun _ => result
  | .direct (.fstatfs64 fd buf result) _ =>
    .int <$> PosixFileSystem.fstatfs64 intercept fd buf fun _ => result
  | .direct (.unlink path result) _ =>
    .int <$> PosixFileSystem.unlink intercept path fun _ => result
  | .direct (.unlinkat dirfd pathname flags result) _ =>
    .int <$> PosixFileSystem.unlinkat intercept dirfd pathname flags fun _ => result
  | .direct (.rename oldPath newPath result) _ =>
    .int <$> PosixFileSystem.rename intercept oldPath newPath fun _ => result
  | .direct (.renameat olddirfd oldPath newdirfd newPath result) _ =>
    .int <$> PosixFileSystem.renameat intercept olddirfd oldPath newdirfd newPath fun _ => result
  | .direct (.fopen pathname mode fptr) _ =>
    .stream <$> PosixFileSystem.fopen intercept pathname mode fun _ => fptr
  | .direct (.fopen64 pathname mode fptr) _ =>
    .stream <$> PosixFileSystem.fopen64 intercept pathname mode fun _ => fptr
  | .direct (.fclose stream result) _ =>
    .int <$> PosixFileSystem.fclose intercept stream fun _ => result
  | .direct (.mkdir path mode result) _ =>
    .int <$> PosixFileSystem.mkdir intercept path mode fun _ => result
  | .direct (.mkdirat dirfd path mode result) _ =>
    .int <$> PosixFileSystem.mkdirat intercept dirfd path mode fun _ => result
  | .direct (.mknod path mode dev result) _ =>
    .int <$> PosixFileSystem.mknod intercept path mode dev fun _ => result
  | .direct (.mknodat dirfd path mode dev result) _ =>
    .int <$> PosixFileSystem.mknodat intercept dirfd path mode dev fun _ => result
  | .direct (.rmdir path result) _ => .int <$> PosixFileSystem.rmdir intercept path fun _ => result
  | .direct (.getxattr path name value size result) _ =>
    .long <$> PosixFileSystem.getxattr intercept path name value size fun _ => result
  | .direct (.lgetxattr path name value size result) _ =>
    .long <$> PosixFileSystem.lgetxattr intercept path name value size fun _ => result
  | .direct (.fgetxattr fd name value size result) _ =>
    .long <$> PosixFileSystem.fgetxattr intercept fd name value size fun _ => result
  | .direct (.setxattr path name value size flags result) _ =>
    .int <$> PosixFileSystem.setxattr intercept path name value size flags fun _ => result
  | .direct (.lsetxattr path name value size flags result) _ =>
    .int <$> PosixFileSystem.lsetxattr intercept path name value size flags fun _ => result
  | .direct (.fsetxattr fd name value size flags result) _ =>
    .int <$> PosixFileSystem.fsetxattr intercept fd name value size flags fun _ => result
  | .direct (.listxattr path list size result) _ =>
    .long <$> PosixFileSystem.listxattr intercept path list size fun _ => result
  | .direct (.llistxattr path list size result) _ =>
    .long <$> PosixFileSystem.llistxattr intercept path list size fun _ => result
  | .direct (.flistxattr fd list size result) _ =>
    .long <$> PosixFileSystem.flistxattr intercept fd list size fun _ => result
  | .direct (.socket domain type protocol fd) _ =>
    .int <$> PosixFileSystem.socket intercept domain type protocol fun _ => fd
  | .direct (.fcntl fd cmd arg resultValue) _ =>
    .int <$> PosixFileSystem.fcntl fd cmd arg fun _ => resultValue

/-- The backend method a call leads to. -/
def method : InterposedCall → PosixCall
  | .opening (.«open» path flags mode) fd =>
    if flags &&& oCreat ≠ 0 then .openVariadic path flags (vaArgMode mode) fd
    else .«open» path flags fd
  | .opening (.openat dirfd path flags mode) fd =>
    if flags &&& oCreat ≠ 0 then .openatVariadic dirfd path flags (vaArgMode mode) fd
    else .openat dirfd path flags fd
  | .opening (.open64 path flags mode) fd =>
    if flags &&& oCreat ≠ 0 then .open64Variadic path flags (vaArgMode mode) fd
    else .open64 path flags fd
  | .direct call _ => call

/-- The flag meant for a call. -/
def flag (intercept : InterceptedCalls) (c : InterposedCall) : Bool := intercept c.method.profile.slot

end InterposedCall

end Padll
