import Diod.Wire.Create

/-!
# The host

What the server asks of the system it runs on: calls into the file system, and
memory. The host is a parameter of the model. It has a state of its own and answers
a call as it likes (`Diod.Host`), so what is proved of the server holds whatever
the files are, whatever other processes do to them, and whichever call fails.

Calls that name a file by its path are told apart from those on a descriptor
(`Diod.HostCall.paths`), and those that change a file, a directory entry or an
attribute from those that only look (`Diod.HostCall.modifies`).
-/

namespace Diod

/-! ### Error numbers -/

/-- `EPERM` -/
def EPERM : ℕ := 1

/-- `ENOENT` -/
def ENOENT : ℕ := 2

/-- `EINTR` -/
def EINTR : ℕ := 4

/-- `EIO` -/
def EIO : ℕ := 5

/-- `EBADF` -/
def EBADF : ℕ := 9

/-- `EWOULDBLOCK` -/
def EWOULDBLOCK : ℕ := 11

/-- `ENOMEM` -/
def ENOMEM : ℕ := 12

/-- `EACCES` -/
def EACCES : ℕ := 13

/-- `EEXIST` -/
def EEXIST : ℕ := 17

/-- `EISDIR` -/
def EISDIR : ℕ := 21

/-- `EINVAL` -/
def EINVAL : ℕ := 22

/-- `EROFS` -/
def EROFS : ℕ := 30

/-- `ENOSYS` -/
def ENOSYS : ℕ := 38

/-- `EPROTO` -/
def EPROTO : ℕ := 71

/-! ### What a call returns -/

/-- `struct stat`, as far as it is read. -/
structure Stat where
  (dev ino : UInt64)
  (mode uid gid : UInt32)
  (nlink rdev size blksize blocks : UInt64)
  (atimeSec atimeNsec mtimeSec mtimeNsec ctimeSec ctimeNsec : UInt64)
deriving Inhabited

/-- `S_ISDIR (st.st_mode)` -/
def Stat.isDir (st : Stat) : Bool := st.mode &&& 0xf000 == 0x4000

/-- `S_ISLNK (st.st_mode)` -/
def Stat.isLnk (st : Stat) : Bool := st.mode &&& 0xf000 == 0xa000

/-- `struct dirent` -/
structure Dirent where
  (ino : UInt64)
  (off : UInt64)
  (type : UInt8)
  (name : Bytes)

/-- `struct statvfs`, with the `f_type` of `struct statfs`. -/
structure Statvfs where
  (type bsize : UInt32)
  (blocks bfree bavail files ffree fsid : UInt64)
  namemax : UInt32
deriving Inhabited

/-- `struct timespec` -/
structure Timespec where
  (sec nsec : UInt64)

/-- The answer to a call: `errno` when it fails, else 0 and, of the other fields, the
ones the call is there for. -/
structure HostReply where
  err : ℕ := 0
  /-- A descriptor, a length, an id. -/
  num : ℕ := 0
  st : Stat := default
  vfs : Statvfs := default
  data : Bytes := []
  ents : List Dirent := []

/-! ### Calls -/

/-- `O_CREAT` -/
def O_CREAT : UInt32 := 0x40

/-- `O_TRUNC` -/
def O_TRUNC : UInt32 := 0x200

/-- `O_DIRECT` -/
def O_DIRECT : UInt32 := 0x4000

/-- The calls the server makes: those that name files by their path, those on a
descriptor, and those that change the credentials of the thread. -/
inductive HostCall where
  | stat (path : Bytes)
  | lstat (path : Bytes)
  | statvfs (path : Bytes)
  | statfs (path : Bytes)
  | openFile (path : Bytes) (flags mode : UInt32)
  | opendir (path : Bytes)
  | readlink (path : Bytes)
  | mkdir (path : Bytes) (mode : UInt32)
  | rmdir (path : Bytes)
  | unlink (path : Bytes)
  | remove (path : Bytes)
  | rename (oldpath newpath : Bytes)
  | link (oldpath newpath : Bytes)
  | symlink (target path : Bytes)
  | mknod (path : Bytes) (mode major minor : UInt32)
  | chmod (path : Bytes) (mode : UInt32)
  | lchown (path : Bytes) (uid gid : UInt32)
  | truncate (path : Bytes) (size : UInt64)
  | utimensat (path : Bytes) (atime mtime : Timespec)
  | lgetxattr (path : Bytes) (name : Bytes) (size : ℕ)
  | llistxattr (path : Bytes) (size : ℕ)
  | lsetxattr (path : Bytes) (name : Option Bytes) (value : Bytes) (flags : UInt32)
  | lremovexattr (path : Bytes) (name : Option Bytes)
  | fstat (fd : ℕ)
  | fdopendir (fd : ℕ)
  | close (fd : ℕ)
  | closedir (fd : ℕ)
  | pread (fd : ℕ) (count : UInt32) (offset : UInt64)
  | pwrite (fd : ℕ) (data : Bytes) (offset : UInt64)
  | fchmod (fd : ℕ) (mode : UInt32)
  | fchown (fd : ℕ) (uid gid : UInt32)
  | ftruncate (fd : ℕ) (size : UInt64)
  | futimens (fd : ℕ) (atime mtime : Timespec)
  | readdir (fd : ℕ) (offset : UInt64)
  | fsync (fd : ℕ)
  | fdatasync (fd : ℕ)
  | flock (fd : ℕ) (op : ℕ)
  | readFd (fd : ℕ)
  | setfsgid (gid : UInt32)
  | setfsuid (uid : UInt32)
  | setgroups (sg : List UInt32)
  | chgPrivcap (val : Bool)

namespace HostCall

/-- The paths a call names. -/
def paths : HostCall → List Bytes
  | .stat p | .lstat p | .statvfs p | .statfs p | .openFile p _ _ | .opendir p | .readlink p
  | .mkdir p _ | .rmdir p | .unlink p | .remove p | .symlink _ p | .mknod p _ _ _ | .chmod p _
  | .lchown p _ _ | .truncate p _ | .utimensat p _ _ | .lgetxattr p _ _ | .llistxattr p _
  | .lsetxattr p _ _ _ | .lremovexattr p _ => [p]
  | .rename p q | .link p q => [p, q]
  | _ => []

/-- **The calls that modify** a file, a directory entry or an attribute. -/
def modifies : HostCall → Bool
  | .openFile _ flags _ => flags &&& (O_CREAT ||| O_TRUNC) != 0
  | .mkdir .. | .rmdir .. | .unlink .. | .remove .. | .rename .. | .link .. | .symlink ..
  | .mknod .. | .chmod .. | .lchown .. | .truncate .. | .utimensat .. | .lsetxattr ..
  | .lremovexattr .. | .pwrite .. | .fchmod .. | .fchown .. | .ftruncate .. | .futimens .. => true
  | _ => false

end HostCall

/-- **A host** with states of type `σ`. -/
structure Host (σ : Type) where
  /-- Answer a call. -/
  call : HostCall → σ → HostReply × σ
  /-- Answer a `malloc`: what is in the memory, or nothing. -/
  malloc : σ → Malloc × σ

/-- A host that never changes, and has memory. -/
def Host.steady (reply : HostCall → HostReply) : Host Unit where
  call c s := (reply c, s)
  malloc s := (some fun _ => 0, s)

end Diod
