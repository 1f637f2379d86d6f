import Padll.LdPreloadedRuns

/-! The passthrough backend. Each method calls the libc function of its name and, with its
own success test, counts the call in the entry it names. -/
namespace Padll

/-- The passthrough object. -/
structure PosixPassthrough where
  collect : Bool := true
  stats : CallStatistics := {}

abbrev Passthrough := StateM (World PosixPassthrough)

namespace PosixPassthrough
variable {R : Type}

/-- Call what `dlsym` finds under a name; `libc` is what it answers. -/
def callNext (symbol : LibcSymbol) (args : List CValue) (libc : LibcCall → R) : Passthrough R := do
  modify fun w => { w with events := w.events ++ [.libc ⟨symbol, args⟩] }
  return libc ⟨symbol, args⟩

/-- The update at the end of a method, in the container and at the index it names. -/
def updateStatistics (operation : Operation) (success : Bool) (bytes : UInt64) :
    Passthrough Unit :=
  modify fun w =>
    if w.object.collect then
      { w with object := { w.object with
        stats := w.object.stats.record operation (if success then .counted bytes else .failed) } }
    else w

/-- Body of the methods: they differ in the call, the success test and what they count. -/
def passthroughCall (symbol : LibcSymbol) (args : List CValue) (operation : Operation)
    (success : R → Bool) (bytes : R → UInt64) (libc : LibcCall → R) : Passthrough R := do
  let result ← callNext symbol args libc
  updateStatistics operation (success result) (bytes result)
  return result

/-- Body of the methods that move data. -/
def transferCall (symbol : LibcSymbol) (args : List CValue) (operation : Data)
    (libc : LibcCall → Int64) : Passthrough Int64 :=
  passthroughCall symbol args (.data operation) (fun result => 0 ≤ result) Int64.toUInt64 libc

/-- Body of the methods that open or close a descriptor. -/
def descriptorCall (symbol : LibcSymbol) (args : List CValue) (operation : Metadata)
    (libc : LibcCall → Int32) : Passthrough Int32 :=
  passthroughCall symbol args (.metadata operation) (fun result => 0 ≤ result) (fun _ => 0) libc

/-- Body of the methods for which zero alone is success. -/
def statusCall (symbol : LibcSymbol) (args : List CValue) (operation : Operation)
    (libc : LibcCall → Int32) : Passthrough Int32 :=
  passthroughCall symbol args operation (fun result => result = 0) (fun _ => 0) libc

/-- Body of the methods that open a stream. -/
def streamCall (symbol : LibcSymbol) (args : List CValue) (operation : Metadata)
    (libc : LibcCall → FilePtr) : Passthrough FilePtr :=
  passthroughCall symbol args (.metadata operation) (fun result => result ≠ .nullptr)
    (fun _ => 0) libc

/-- Body of the extended attribute methods that answer with a size. -/
def attrSizeCall (symbol : LibcSymbol) (args : List CValue) (operation : ExtendedAttributes)
    (libc : LibcCall → Int64) : Passthrough Int64 :=
  passthroughCall symbol args (.extAttr operation) (fun result => result ≠ -1) (fun _ => 0) libc

/-- Body of the extended attribute methods that answer with a status. -/
def attrStatusCall (symbol : LibcSymbol) (args : List CValue) (operation : ExtendedAttributes)
    (libc : LibcCall → Int32) : Passthrough Int32 :=
  passthroughCall symbol args (.extAttr operation) (fun result => result ≠ -1) (fun _ => 0) libc

/-! Data calls. -/

def passthroughPosixRead (fd : Int32) (buf : Address) (counter : UInt64)
    (libc : LibcCall → Int64) : Passthrough Int64 :=
  transferCall .read [.int fd, .pointer buf, .ulong counter] .read libc

def passthroughPosixWrite (fd : Int32) (buf : Address) (counter : UInt64)
    (libc : LibcCall → Int64) : Passthrough Int64 :=
  transferCall .write [.int fd, .pointer buf, .ulong counter] .write libc

def passthroughPosixPread (fd : Int32) (buf : Address) (counter : UInt64) (offset : Int64)
    (libc : LibcCall → Int64) : Passthrough Int64 :=
  transferCall .pread [.int fd, .pointer buf, .ulong counter, .long offset] .pread libc

def passthroughPosixPwrite (fd : Int32) (buf : Address) (counter : UInt64) (offset : Int64)
    (libc : LibcCall → Int64) : Passthrough Int64 :=
  transferCall .pwrite [.int fd, .pointer buf, .ulong counter, .long offset] .pwrite libc

def passthroughPosixPread64 (fd : Int32) (buf : Address) (counter : UInt64) (offset : Int64)
    (libc : LibcCall → Int64) : Passthrough Int64 :=
  transferCall .pread64 [.int fd, .pointer buf, .ulong counter, .long offset] .pread64 libc

def passthroughPosixPwrite64 (fd : Int32) (buf : Address) (counter : UInt64) (offset : Int64)
    (libc : LibcCall → Int64) : Passthrough Int64 :=
  transferCall .pwrite64 [.int fd, .pointer buf, .ulong counter, .long offset] .pwrite64 libc

def passthroughPosixMmap (addr : Address) (length : UInt64) (prot flags fd : Int32)
    (offset : Int64) (libc : LibcCall → Address) : Passthrough Address :=
  passthroughCall .mmap
    [.pointer addr, .ulong length, .int prot, .int flags, .int fd, .long offset]
    (.data .mmap) (fun result => result ≠ mapFailed) (fun _ => 0) libc

def passthroughPosixMunmap (addr : Address) (length : UInt64) (libc : LibcCall → Int32) :
    Passthrough Int32 :=
  statusCall .munmap [.pointer addr, .ulong length] (.data .munmap) libc

/-! Metadata calls. -/

def passthroughPosixOpenVariadic (path : Path) (flags : Int32) (mode : UInt32)
    (libc : LibcCall → Int32) : Passthrough Int32 :=
  descriptorCall .«open» [.text path, .int flags, .uint mode] .openVariadic libc

def passthroughPosixOpen (path : Path) (flags : Int32) (libc : LibcCall → Int32) :
    Passthrough Int32 :=
  descriptorCall .«open» [.text path, .int flags] .«open» libc

def passthroughPosixCreat (path : Path) (mode : UInt32) (libc : LibcCall → Int32) :
    Passthrough Int32 :=
  descriptorCall .creat [.text path, .uint mode] .creat libc

def passthroughPosixCreat64 (path : Path) (mode : UInt32) (libc : LibcCall → Int32) :
    Passthrough Int32 :=
  descriptorCall .creat64 [.text path, .uint mode] .creat64 libc

def passthroughPosixOpenatVariadic (dirfd : Int32) (path : Path) (flags : Int32) (mode : UInt32)
    (libc : LibcCall → Int32) : Passthrough Int32 :=
  descriptorCall .openat [.int dirfd, .text path, .int flags, .uint mode] .openatVariadic libc

def passthroughPosixOpenat (dirfd : Int32) (path : Path) (flags : Int32)
    (libc : LibcCall → Int32) : Passthrough Int32 :=
  descriptorCall .openat [.int dirfd, .text path, .int flags] .openat libc

/-- Counted as `open64`, like the overload without a mode. -/
def passthroughPosixOpen64Variadic (path : Path) (flags : Int32) (mode : UInt32)
    (libc : LibcCall → Int32) : Passthrough Int32 :=
  descriptorCall .open64 [.text path, .int flags, .uint mode] .open64 libc

def passthroughPosixOpen64 (path : Path) (flags : Int32) (libc : LibcCall → Int32) :
    Passthrough Int32 :=
  descriptorCall .open64 [.text path, .int flags] .open64 libc

def passthroughPosixClose (fd : Int32) (libc : LibcCall → Int32) : Passthrough Int32 :=
  descriptorCall .close [.int fd] .close libc

/-- The method returns out of the call; the update written after it is never reached. -/
def passthroughPosixSync (libc : LibcCall → Unit) : Passthrough Unit :=
  callNext .sync [] libc

def passthroughPosixStatfs (path : Path) (buf : Address) (libc : LibcCall → Int32) :
    Passthrough Int32 :=
  statusCall .statfs [.text path, .pointer buf] (.metadata .statfs) libc

def passthroughPosixFstatfs (fd : Int32) (buf : Address) (libc : LibcCall → Int32) :
    Passthrough Int32 :=
  statusCall .fstatfs [.int fd, .pointer buf] (.metadata .fstatfs) libc

def passthroughPosixStatfs64 (path : Path) (buf : Address) (libc : LibcCall → Int32) :
    Passthrough Int32 :=
  statusCall .statfs64 [.text path, .pointer buf] (.metadata .statfs64) libc

def passthroughPosixFstatfs64 (fd : Int32) (buf : Address) (libc : LibcCall → Int32) :
    Passthrough Int32 :=
  statusCall .fstatfs64 [.int fd, .pointer buf] (.metadata .fstatfs64) libc

def passthroughPosixUnlink (oldPath : Path) (libc : LibcCall → Int32) : Passthrough Int32 :=
  statusCall .unlink [.text oldPath] (.metadata .unlink) libc

def passthroughPosixUnlinkat (dirfd : Int32) (pathname : Path) (flags : Int32)
    (libc : LibcCall → Int32) : Passthrough Int32 :=
  statusCall .unlinkat [.int dirfd, .text pathname, .int flags] (.metadata .unlinkat) libc

def passthroughPosixRename (oldPath newPath : Path) (libc : LibcCall → Int32) :
    Passthrough Int32 :=
  statusCall .rename [.text oldPath, .text newPath] (.metadata .rename) libc

def passthroughPosixRenameat (olddirfd : Int32) (oldPath : Path) (newdirfd : Int32)
    (newPath : Path) (libc : LibcCall → Int32) : Passthrough Int32 :=
  statusCall .renameat [.int olddirfd, .text oldPath, .int newdirfd, .text newPath]
    (.metadata .renameat) libc

def passthroughPosixFopen (pathname mode : Path) (libc : LibcCall → FilePtr) :
    Passthrough FilePtr :=
  streamCall .fopen [.text pathname, .text mode] .fopen libc

def passthroughPosixFopen64 (pathname mode : Path) (libc : LibcCall → FilePtr) :
    Passthrough FilePtr :=
  streamCall .fopen64 [.text pathname, .text mode] .fopen64 libc

def passthroughPosixFclose (stream : FilePtr) (libc : LibcCall → Int32) : Passthrough Int32 :=
  statusCall .fclose [.stream stream] (.metadata .fclose) libc

/-! Directory calls. -/

def passthroughPosixMkdir (path : Path) (mode : UInt32) (libc : LibcCall → Int32) :
    Passthrough Int32 :=
  statusCall .mkdir [.text path, .uint mode] (.directory .mkdir) libc

def passthroughPosixMkdirat (dirfd : Int32) (path : Path) (mode : UInt32)
    (libc : LibcCall → Int32) : Passthrough Int32 :=
  statusCall .mkdirat [.int dirfd, .text path, .uint mode] (.directory .mkdirat) libc

def passthroughPosixRmdir (path : Path) (libc : LibcCall → Int32) : Passthrough Int32 :=
  statusCall .rmdir [.text path] (.directory .rmdir) libc

def passthroughPosixMknod (path : Path) (mode : UInt32) (dev : UInt64)
    (libc : LibcCall → Int32) : Passthrough Int32 :=
  statusCall .mknod [.text path, .uint mode, .ulong dev] (.directory .mknod) libc

def passthroughPosixMknodat (dirfd : Int32) (path : Path) (mode : UInt32) (dev : UInt64)
    (libc : LibcCall → Int32) : Passthrough Int32 :=
  statusCall .mknodat [.int dirfd, .text path, .uint mode, .ulong dev] (.directory .mknodat) libc

/-! Extended attribute calls. -/

def passthroughPosixGetxattr (path name : Path) (value : Address) (size : UInt64)
    (libc : LibcCall → Int64) : Passthrough Int64 :=
  attrSizeCall .getxattr [.text path, .text name, .pointer value, .ulong size] .getxattr libc

def passthroughPosixLgetxattr (path name : Path) (value : Address) (size : UInt64)
    (libc : LibcCall → Int64) : Passthrough Int64 :=
  attrSizeCall .lgetxattr [.text path, .text name, .pointer value, .ulong size] .lgetxattr libc

def passthroughPosixFgetxattr (fd : Int32) (name : Path) (value : Address) (size : UInt64)
    (libc : LibcCall → Int64) : Passthrough Int64 :=
  attrSizeCall .fgetxattr [.int fd, .text name, .pointer value, .ulong size] .fgetxattr libc

def passthroughPosixSetxattr (path name : Path) (value : Address) (size : UInt64) (flags : Int32)
    (libc : LibcCall → Int32) : Passthrough Int32 :=
  attrStatusCall .setxattr [.text path, .text name, .pointer value, .ulong size, .int flags]
    .setxattr libc

def passthroughPosixLsetxattr (path name : Path) (value : Address) (size : UInt64)
    (flags : Int32) (libc : LibcCall → Int32) : Passthrough Int32 :=
  attrStatusCall .lsetxattr [.text path, .text name, .pointer value, .ulong size, .int flags]
    .lsetxattr libc

def passthroughPosixFsetxattr (fd : Int32) (name : Path) (value : Address) (size : UInt64)
    (flags : Int32) (libc : LibcCall → Int32) : Passthrough Int32 :=
  attrStatusCall .fsetxattr [.int fd, .text name, .pointer value, .ulong size, .int flags]
    .fsetxattr libc

def passthroughPosixListxattr (path : Path) (list : Address) (size : UInt64)
    (libc : LibcCall → Int64) : Passthrough Int64 :=
  attrSizeCall .listxattr [.text path, .pointer list, .ulong size] .listxattr libc

def passthroughPosixLlistxattr (path : Path) (list : Address) (size : UInt64)
    (libc : LibcCall → Int64) : Passthrough Int64 :=
  attrSizeCall .llistxattr [.text path, .pointer list, .ulong size] .llistxattr libc

def passthroughPosixFlistxattr (fd : Int32) (list : Address) (size : UInt64)
    (libc : LibcCall → Int64) : Passthrough Int64 :=
  attrSizeCall .flistxattr [.int fd, .pointer list, .ulong size] .flistxattr libc

/-! Special calls. -/

def passthroughPosixSocket (domain type protocol : Int32) (libc : LibcCall → Int32) :
    Passthrough Int32 :=
  passthroughCall .socket [.int domain, .int type, .int protocol] (.special .socket)
    (fun result => result ≠ -1) (fun _ => 0) libc

end PosixPassthrough

/-- The calls the passthrough backend has a method for: all but `fcntl`. -/
structure PassthroughCall where
  call : PosixCall
  implemented : call.operation ≠ .special .fcntl

namespace PassthroughCall
open PosixPassthrough

/-- Perform a call through its method. -/
def perform : PassthroughCall → Passthrough CValue
  | ⟨.read fd buf counter result, _⟩ =>
    .long <$> passthroughPosixRead fd buf counter fun _ => result
  | ⟨.write fd buf counter result, _⟩ =>
    .long <$> passthroughPosixWrite fd buf counter fun _ => result
  | ⟨.pread fd buf counter offset result, _⟩ =>
    .long <$> passthroughPosixPread fd buf counter offset fun _ => result
  | ⟨.pwrite fd buf counter offset result, _⟩ =>
    .long <$> passthroughPosixPwrite fd buf counter offset fun _ => result
  | ⟨.pread64 fd buf counter offset result, _⟩ =>
    .long <$> passthroughPosixPread64 fd buf counter offset fun _ => result
  | ⟨.pwrite64 fd buf counter offset result, _⟩ =>
    .long <$> passthroughPosixPwrite64 fd buf counter offset fun _ => result
  | ⟨.mmap addr length prot flags fd offset memPtr, _⟩ =>
    .pointer <$> passthroughPosixMmap addr length prot flags fd offset fun _ => memPtr
  | ⟨.munmap addr length result, _⟩ => .int <$> passthroughPosixMunmap addr length fun _ => result
  | ⟨.openVariadic path flags mode fd, _⟩ =>
    .int <$> passthroughPosixOpenVariadic path flags mode fun _ => fd
  | ⟨.«open» path flags fd, _⟩ => .int <$> passthroughPosixOpen path flags fun _ => fd
  | ⟨.creat path mode fd, _⟩ => .int <$> passthroughPosixCreat path mode fun _ => fd
  | ⟨.creat64 path mode fd, _⟩ => .int <$> passthroughPosixCreat64 path mode fun _ => fd
  | ⟨.openatVariadic dirfd path flags mode fd, _⟩ =>
    .int <$> passthroughPosixOpenatVariadic dirfd path flags mode fun _ => fd
  | ⟨.openat dirfd path flags fd, _⟩ =>
    .int <$> passthroughPosixOpenat dirfd path flags fun _ => fd
  | ⟨.open64Variadic path flags mode fd, _⟩ =>
    .int <$> passthroughPosixOpen64Variadic path flags mode fun _ => fd
  | ⟨.open64 path flags fd, _⟩ => .int <$> passthroughPosixOpen64 path flags fun _ => fd
  | ⟨.close fd result, _⟩ => .int <$> passthroughPosixClose fd fun _ => result
  | ⟨.sync, _⟩ => (fun _ => .void) <$> passthroughPosixSync fun _ => ()
  | ⟨.statfs path buf result, _⟩ => .int <$> passthroughPosixStatfs path buf fun _ => result
  | ⟨.fstatfs fd buf result, _⟩ => .int <$> passthroughPosixFstatfs fd buf fun _ => result
  | ⟨.statfs64 path buf result, _⟩ => .int <$> passthroughPosixStatfs64 path buf fun _ => result
  | ⟨.fstatfs64 fd buf result, _⟩ => .int <$> passthroughPosixFstatfs64 fd buf fun _ => result
  | ⟨.unlink path result, _⟩ => .int <$> passthroughPosixUnlink path fun _ => result
  | ⟨.unlinkat dirfd pathname flags result, _⟩ =>
    .int <$> passthroughPosixUnlinkat dirfd pathname flags fun _ => result
  | ⟨.rename oldPath newPath result, _⟩ =>
    .int <$> passthroughPosixRename oldPath newPath fun _ => result
  | ⟨.renameat olddirfd oldPath newdirfd newPath result, _⟩ =>
    .int <$> passthroughPosixRenameat olddirfd oldPath newdirfd newPath fun _ => result
  | ⟨.fopen pathname mode fptr, _⟩ => .stream <$> passthroughPosixFopen pathname mode fun _ => fptr
  | ⟨.fopen64 pathname mode fptr, _⟩ =>
    .stream <$> passthroughPosixFopen64 pathname mode fun _ => fptr
  | ⟨.fclose stream result, _⟩ => .int <$> passthroughPosixFclose stream fun _ => result
  | ⟨.mkdir path mode result, _⟩ => .int <$> passthroughPosixMkdir path mode fun _ => result
  | ⟨.mkdirat dirfd path mode result, _⟩ =>
    .int <$> passthroughPosixMkdirat dirfd path mode fun _ => result
  | ⟨.mknod path mode dev result, _⟩ => .int <$> passthroughPosixMknod path mode dev fun _ => result
  | ⟨.mknodat dirfd path mode dev result, _⟩ =>
    .int <$> passthroughPosixMknodat dirfd path mode dev fun _ => result
  | ⟨.rmdir path result, _⟩ => .int <$> passthroughPosixRmdir path fun _ => result
  | ⟨.getxattr path name value size result, _⟩ =>
    .long <$> passthroughPosixGetxattr path name value size fun _ => result
  | ⟨.lgetxattr path name value size result, _⟩ =>
    .long <$> passthroughPosixLgetxattr path name value size fun _ => result
  | ⟨.fgetxattr fd name value size result, _⟩ =>
    .long <$> passthroughPosixFgetxattr fd name value size fun _ => result
  | ⟨.setxattr path name value size flags result, _⟩ =>
    .int <$> passthroughPosixSetxattr path name value size flags fun _ => result
  | ⟨.lsetxattr path name value size flags result, _⟩ =>
    .int <$> passthroughPosixLsetxattr path name value size flags fun _ => result
  | ⟨.fsetxattr fd name value size flags result, _⟩ =>
    .int <$> passthroughPosixFsetxattr fd name value size flags fun _ => result
  | ⟨.listxattr path list size result, _⟩ =>
    .long <$> passthroughPosixListxattr path list size fun _ => result
  | ⟨.llistxattr path list size result, _⟩ =>
    .long <$> passthroughPosixLlistxattr path list size fun _ => result
  | ⟨.flistxattr fd list size result, _⟩ =>
    .long <$> passthroughPosixFlistxattr fd list size fun _ => result
  | ⟨.socket domain type protocol fd, _⟩ =>
    .int <$> passthroughPosixSocket domain type protocol fun _ => fd
  | ⟨.fcntl .., h⟩ => absurd rfl h

end PassthroughCall

namespace PosixCall

/-- The libc call behind a call, the same in both backends. -/
def libcCall (c : PosixCall) : LibcCall := ⟨c.profile.slot.symbol, c.profile.args⟩

/-- The entry the passthrough backend counts a call in: `open64` with a mode shares the entry
of `open64`, and `sync` reaches none. -/
def countedIn : PosixCall → Option Operation
  | open64Variadic .. => some (.metadata .open64)
  | sync => none
  | c => some c.operation

/-- The success test of each passthrough method. -/
def passes : PosixCall → Bool
  | read _ _ _ r | write _ _ _ r | pread _ _ _ _ r | pwrite _ _ _ _ r | pread64 _ _ _ _ r
  | pwrite64 _ _ _ _ r => 0 ≤ r
  | mmap _ _ _ _ _ _ memPtr => memPtr ≠ mapFailed
  | openVariadic _ _ _ fd | «open» _ _ fd | creat _ _ fd | creat64 _ _ fd
  | openatVariadic _ _ _ _ fd | openat _ _ _ fd | open64Variadic _ _ _ fd | open64 _ _ fd
  | close _ fd => 0 ≤ fd
  | munmap _ _ r | statfs _ _ r | fstatfs _ _ r | statfs64 _ _ r | fstatfs64 _ _ r | unlink _ r
  | unlinkat _ _ _ r | rename _ _ r | renameat _ _ _ _ r | fclose _ r | mkdir _ _ r
  | mkdirat _ _ _ r | mknod _ _ _ r | mknodat _ _ _ _ r | rmdir _ r => r = 0
  | fopen _ _ fptr | fopen64 _ _ fptr => fptr ≠ .nullptr
  | getxattr _ _ _ _ r | lgetxattr _ _ _ _ r | fgetxattr _ _ _ _ r | listxattr _ _ _ r
  | llistxattr _ _ _ r | flistxattr _ _ _ r => r ≠ -1
  | setxattr _ _ _ _ _ r | lsetxattr _ _ _ _ _ r | fsetxattr _ _ _ _ _ r | socket _ _ _ r
  | fcntl _ _ _ r => r ≠ -1
  | sync => true

/-- The bytes a passthrough method adds on success. -/
def passedBytes : PosixCall → UInt64
  | read _ _ _ r | write _ _ _ r | pread _ _ _ _ r | pwrite _ _ _ _ r | pread64 _ _ _ _ r
  | pwrite64 _ _ _ _ r => r.toUInt64
  | _ => 0

/-- What the passthrough backend adds to the entry it counts a call in. -/
def passthroughUpdate (c : PosixCall) : StatisticUpdate :=
  if c.passes then .counted c.passedBytes else .failed

end PosixCall

namespace PosixPassthrough
open LdPreloadedPosix
variable {R : Type}

/-- The object after a call. -/
def after (c : PosixCall) (o : PosixPassthrough) : PosixPassthrough :=
  match c.countedIn with
  | some operation =>
    { o with stats := if o.collect then o.stats.record operation c.passthroughUpdate else o.stats }
  | none => o

private theorem passthroughCall_apply (symbol : LibcSymbol) (args : List CValue)
    (operation : Operation) (success : R → Bool) (bytes : R → UInt64) (result : R)
    (wrap : R → CValue) (o : PosixPassthrough) (events : List Event) :
    (wrap <$> passthroughCall symbol args operation success bytes fun _ => result)
        ⟨o, events⟩ =
      (wrap result, ⟨{ o with
        stats := if o.collect then o.stats.record operation
            (if success result then .counted (bytes result) else .failed)
          else o.stats }, events ++ [.libc ⟨symbol, args⟩]⟩) := by
  obtain ⟨collect, stats⟩ := o
  cases collect <;> rfl

/-- Every method performs the libc call of its name once, answers what it answers and counts
it in one entry at most. -/
theorem performs (c : PassthroughCall) (o : PosixPassthrough) (events : List Event) :
    c.perform ⟨o, events⟩ = (c.call.result, ⟨after c.call o, events ++ [.libc c.call.libcCall]⟩) := by
  obtain ⟨call, implemented⟩ := c
  cases call with
  | sync => rfl
  | fcntl fd cmd arg resultValue => exact absurd rfl implemented
  | _ => exact passthroughCall_apply _ _ _ _ _ _ _ o events

/-- The object right after construction. -/
def construct (statCollection : Bool) : PosixPassthrough where
  collect := statCollection

def step (c : PassthroughCall) (o : PosixPassthrough) : List CallRecord × PosixPassthrough :=
  let (returned, w) := c.perform ⟨o, []⟩
  ([⟨c.call, o.collect, w.events, returned⟩], w.object)

def run (calls : List PassthroughCall) (o : PosixPassthrough) :
    List CallRecord × PosixPassthrough :=
  OutputMachine.run step calls o

theorem step_eq (c : PassthroughCall) (o : PosixPassthrough) :
    step c o = ([⟨c.call, o.collect, [.libc c.call.libcCall], c.call.result⟩], after c.call o) := by
  rw [step, performs]
  rfl

end PosixPassthrough

end Padll
