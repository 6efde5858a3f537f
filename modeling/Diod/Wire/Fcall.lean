import Diod.Lib.LittleEndian

/-!
# The messages of the protocol

The message types of 9P2000.L that the library can decode, and the decoded form
of a message: the union `Npfcall.u` of `npfs.h`, one constructor for each of its
members that `np_deserialize` fills in.

A decoded message holds its strings and its data as *pointers into the packet*,
not as bytes of its own. `Diod.Fcall` is therefore generic in what stands for a
string and for a block of data: the decoder produces the windows of
`Diod.Npstr`, while the server – and a client comparing what it sent with what
arrived – reads the bytes behind them, a `Diod.Msg`. `Diod.Fcall.map` goes from
the first to the second.
-/

namespace Diod

/-- `NOTAG` -/
def NOTAG : UInt16 := 0xffff

/-- `NOFID` -/
def NOFID : UInt32 := 0xffffffff

/-- `NONUNAME` -/
def NONUNAME : UInt32 := 0xffffffff

/-- The most elements a `Twalk` may carry. -/
def MAXWELEM : ℕ := 16

/-- Room for the header of an i/o message. -/
def IOHDRSZ : ℕ := 24

/-- Room for the header of a directory read. -/
def DIRHDRSZ : ℕ := 24

/-- What identifies a file system object to a client. -/
structure Npqid where
  type : UInt8
  version : UInt32
  path : UInt64
deriving DecidableEq

/-! ### Message types -/

/-- The message types that `np_deserialize` supports. -/
inductive MsgType where
  | rlerror | tstatfs | rstatfs | tlopen | rlopen | tlcreate | rlcreate | tsymlink | rsymlink
  | tmknod | rmknod | trename | rrename | treadlink | rreadlink | tgetattr | rgetattr | tsetattr
  | rsetattr | txattrwalk | rxattrwalk | txattrcreate | rxattrcreate | treaddir | rreaddir
  | tfsync | rfsync | tlock | rlock | tgetlock | rgetlock | tlink | rlink | tmkdir | rmkdir
  | trenameat | rrenameat | tunlinkat | runlinkat | tversion | rversion | tauth | rauth | tattach
  | rattach | tflush | rflush | twalk | rwalk | tread | rread | twrite | rwrite | tclunk | rclunk
  | tremove | rremove
deriving DecidableEq

namespace MsgType

/-- The byte that stands for a message type on the wire. -/
def code : MsgType → UInt8
  | .rlerror => 7 | .tstatfs => 8 | .rstatfs => 9 | .tlopen => 12 | .rlopen => 13
  | .tlcreate => 14 | .rlcreate => 15 | .tsymlink => 16 | .rsymlink => 17 | .tmknod => 18
  | .rmknod => 19 | .trename => 20 | .rrename => 21 | .treadlink => 22 | .rreadlink => 23
  | .tgetattr => 24 | .rgetattr => 25 | .tsetattr => 26 | .rsetattr => 27 | .txattrwalk => 30
  | .rxattrwalk => 31 | .txattrcreate => 32 | .rxattrcreate => 33 | .treaddir => 40
  | .rreaddir => 41 | .tfsync => 50 | .rfsync => 51 | .tlock => 52 | .rlock => 53
  | .tgetlock => 54 | .rgetlock => 55 | .tlink => 70 | .rlink => 71 | .tmkdir => 72
  | .rmkdir => 73 | .trenameat => 74 | .rrenameat => 75 | .tunlinkat => 76 | .runlinkat => 77
  | .tversion => 100 | .rversion => 101 | .tauth => 102 | .rauth => 103 | .tattach => 104
  | .rattach => 105 | .tflush => 108 | .rflush => 109 | .twalk => 110 | .rwalk => 111
  | .tread => 116 | .rread => 117 | .twrite => 118 | .rwrite => 119 | .tclunk => 120
  | .rclunk => 121 | .tremove => 122 | .rremove => 123

/-- All of them, in the order of their codes. -/
def all : List MsgType :=
  [.rlerror, .tstatfs, .rstatfs, .tlopen, .rlopen, .tlcreate, .rlcreate, .tsymlink, .rsymlink,
    .tmknod, .rmknod, .trename, .rrename, .treadlink, .rreadlink, .tgetattr, .rgetattr,
    .tsetattr, .rsetattr, .txattrwalk, .rxattrwalk, .txattrcreate, .rxattrcreate, .treaddir,
    .rreaddir, .tfsync, .rfsync, .tlock, .rlock, .tgetlock, .rgetlock, .tlink, .rlink, .tmkdir,
    .rmkdir, .trenameat, .rrenameat, .tunlinkat, .runlinkat, .tversion, .rversion, .tauth,
    .rauth, .tattach, .rattach, .tflush, .rflush, .twalk, .rwalk, .tread, .rread, .twrite,
    .rwrite, .tclunk, .rclunk, .tremove, .rremove]

/-- The message type a byte stands for, if it stands for one. -/
def ofCode (c : UInt8) : Option MsgType := all.find? fun t => t.code == c

@[simp] theorem ofCode_code (t : MsgType) : ofCode t.code = some t := by
  cases t <;> rfl

theorem code_of_ofCode {c : UInt8} {t : MsgType} (h : ofCode c = some t) : t.code = c := by
  simpa using List.find?_some h

end MsgType

/-! ### Decoded messages -/

/-- The fields of an `Rstatfs`. -/
structure Nprstatfs where
  (type bsize : UInt32)
  (blocks bfree bavail files ffree fsid : UInt64)
  namelen : UInt32

/-- The fields of an `Rgetattr`. -/
structure Nprgetattr where
  valid : UInt64
  qid : Npqid
  (mode uid gid : UInt32)
  (nlink rdev size blksize blocks atimeSec atimeNsec mtimeSec : UInt64)
  (mtimeNsec ctimeSec ctimeNsec btimeSec btimeNsec gen dataVersion : UInt64)

/-- The fields of a `Tsetattr`. -/
structure Nptsetattr where
  (fid valid mode uid gid : UInt32)
  (size atimeSec atimeNsec mtimeSec mtimeNsec : UInt64)

/-- A decoded message, over a type `S` of strings and a type `D` of data
blocks. The arrays of `Twalk` and `Rwalk` are lists: `nwname` and `nwqid` are
their lengths. -/
inductive Fcall (S D : Type) where
  | rlerror (ecode : UInt32)
  | tstatfs (fid : UInt32)
  | rstatfs (a : Nprstatfs)
  | tlopen (fid flags : UInt32)
  | rlopen (qid : Npqid) (iounit : UInt32)
  | tlcreate (fid : UInt32) (name : S) (flags mode gid : UInt32)
  | rlcreate (qid : Npqid) (iounit : UInt32)
  | tsymlink (fid : UInt32) (name symtgt : S) (gid : UInt32)
  | rsymlink (qid : Npqid)
  | tmknod (fid : UInt32) (name : S) (mode major minor gid : UInt32)
  | rmknod (qid : Npqid)
  | trename (fid dfid : UInt32) (name : S)
  | rrename
  | treadlink (fid : UInt32)
  | rreadlink (target : S)
  | tgetattr (fid : UInt32) (requestMask : UInt64)
  | rgetattr (a : Nprgetattr)
  | tsetattr (a : Nptsetattr)
  | rsetattr
  | txattrwalk (fid attrfid : UInt32) (name : S)
  | rxattrwalk (size : UInt64)
  | txattrcreate (fid : UInt32) (name : S) (size : UInt64) (flag : UInt32)
  | rxattrcreate
  | treaddir (fid : UInt32) (offset : UInt64) (count : UInt32)
  | rreaddir (count : UInt32) (data : D)
  | tfsync (fid datasync : UInt32)
  | rfsync
  | tlock (fid : UInt32) (type : UInt8) (flags : UInt32) (start length : UInt64) (procId : UInt32)
      (clientId : S)
  | rlock (status : UInt8)
  | tgetlock (fid : UInt32) (type : UInt8) (start length : UInt64) (procId : UInt32)
      (clientId : S)
  | rgetlock (type : UInt8) (start length : UInt64) (procId : UInt32) (clientId : S)
  | tlink (dfid fid : UInt32) (name : S)
  | rlink
  | tmkdir (fid : UInt32) (name : S) (mode gid : UInt32)
  | rmkdir (qid : Npqid)
  | trenameat (olddirfid : UInt32) (oldname : S) (newdirfid : UInt32) (newname : S)
  | rrenameat
  | tunlinkat (dirfid : UInt32) (name : S) (flags : UInt32)
  | runlinkat
  | tversion (msize : UInt32) (version : S)
  | rversion (msize : UInt32) (version : S)
  | tauth (afid : UInt32) (uname aname : S) (nUname : UInt32)
  | rauth (qid : Npqid)
  | tattach (fid afid : UInt32) (uname aname : S) (nUname : UInt32)
  | rattach (qid : Npqid)
  | tflush (oldtag : UInt16)
  | rflush
  | twalk (fid newfid : UInt32) (wnames : List S)
  | rwalk (wqids : List Npqid)
  | tread (fid : UInt32) (offset : UInt64) (count : UInt32)
  | rread (count : UInt32) (data : D)
  | twrite (fid : UInt32) (offset : UInt64) (count : UInt32) (data : D)
  | rwrite (count : UInt32)
  | tclunk (fid : UInt32)
  | rclunk
  | tremove (fid : UInt32)
  | rremove

/-- A message with its strings and data as bytes. -/
abbrev Msg := Fcall Bytes Bytes

namespace Fcall

variable {S D S' D' : Type}

/-- The type of a message. -/
def type : Fcall S D → MsgType
  | .rlerror .. => .rlerror | .tstatfs .. => .tstatfs | .rstatfs .. => .rstatfs
  | .tlopen .. => .tlopen | .rlopen .. => .rlopen | .tlcreate .. => .tlcreate
  | .rlcreate .. => .rlcreate | .tsymlink .. => .tsymlink | .rsymlink .. => .rsymlink
  | .tmknod .. => .tmknod | .rmknod .. => .rmknod | .trename .. => .trename
  | .rrename => .rrename | .treadlink .. => .treadlink | .rreadlink .. => .rreadlink
  | .tgetattr .. => .tgetattr | .rgetattr .. => .rgetattr | .tsetattr .. => .tsetattr
  | .rsetattr => .rsetattr | .txattrwalk .. => .txattrwalk | .rxattrwalk .. => .rxattrwalk
  | .txattrcreate .. => .txattrcreate | .rxattrcreate => .rxattrcreate
  | .treaddir .. => .treaddir | .rreaddir .. => .rreaddir | .tfsync .. => .tfsync
  | .rfsync => .rfsync | .tlock .. => .tlock | .rlock .. => .rlock | .tgetlock .. => .tgetlock
  | .rgetlock .. => .rgetlock | .tlink .. => .tlink | .rlink => .rlink | .tmkdir .. => .tmkdir
  | .rmkdir .. => .rmkdir | .trenameat .. => .trenameat | .rrenameat => .rrenameat
  | .tunlinkat .. => .tunlinkat | .runlinkat => .runlinkat | .tversion .. => .tversion
  | .rversion .. => .rversion | .tauth .. => .tauth | .rauth .. => .rauth
  | .tattach .. => .tattach | .rattach .. => .rattach | .tflush .. => .tflush
  | .rflush => .rflush | .twalk .. => .twalk | .rwalk .. => .rwalk | .tread .. => .tread
  | .rread .. => .rread | .twrite .. => .twrite | .rwrite .. => .rwrite | .tclunk .. => .tclunk
  | .rclunk => .rclunk | .tremove .. => .tremove | .rremove => .rremove

/-- Replace the strings of a message, and its data blocks given their counts. -/
def map (f : S → S') (g : ℕ → D → D') : Fcall S D → Fcall S' D'
  | .rlerror ecode => .rlerror ecode
  | .tstatfs fid => .tstatfs fid
  | .rstatfs a => .rstatfs a
  | .tlopen fid flags => .tlopen fid flags
  | .rlopen qid iounit => .rlopen qid iounit
  | .tlcreate fid name flags mode gid => .tlcreate fid (f name) flags mode gid
  | .rlcreate qid iounit => .rlcreate qid iounit
  | .tsymlink fid name symtgt gid => .tsymlink fid (f name) (f symtgt) gid
  | .rsymlink qid => .rsymlink qid
  | .tmknod fid name mode major minor gid => .tmknod fid (f name) mode major minor gid
  | .rmknod qid => .rmknod qid
  | .trename fid dfid name => .trename fid dfid (f name)
  | .rrename => .rrename
  | .treadlink fid => .treadlink fid
  | .rreadlink target => .rreadlink (f target)
  | .tgetattr fid requestMask => .tgetattr fid requestMask
  | .rgetattr a => .rgetattr a
  | .tsetattr a => .tsetattr a
  | .rsetattr => .rsetattr
  | .txattrwalk fid attrfid name => .txattrwalk fid attrfid (f name)
  | .rxattrwalk size => .rxattrwalk size
  | .txattrcreate fid name size flag => .txattrcreate fid (f name) size flag
  | .rxattrcreate => .rxattrcreate
  | .treaddir fid offset count => .treaddir fid offset count
  | .rreaddir count data => .rreaddir count (g count.toNat data)
  | .tfsync fid datasync => .tfsync fid datasync
  | .rfsync => .rfsync
  | .tlock fid type flags start length procId clientId =>
      .tlock fid type flags start length procId (f clientId)
  | .rlock status => .rlock status
  | .tgetlock fid type start length procId clientId =>
      .tgetlock fid type start length procId (f clientId)
  | .rgetlock type start length procId clientId => .rgetlock type start length procId (f clientId)
  | .tlink dfid fid name => .tlink dfid fid (f name)
  | .rlink => .rlink
  | .tmkdir fid name mode gid => .tmkdir fid (f name) mode gid
  | .rmkdir qid => .rmkdir qid
  | .trenameat olddirfid oldname newdirfid newname =>
      .trenameat olddirfid (f oldname) newdirfid (f newname)
  | .rrenameat => .rrenameat
  | .tunlinkat dirfid name flags => .tunlinkat dirfid (f name) flags
  | .runlinkat => .runlinkat
  | .tversion msize version => .tversion msize (f version)
  | .rversion msize version => .rversion msize (f version)
  | .tauth afid uname aname nUname => .tauth afid (f uname) (f aname) nUname
  | .rauth qid => .rauth qid
  | .tattach fid afid uname aname nUname => .tattach fid afid (f uname) (f aname) nUname
  | .rattach qid => .rattach qid
  | .tflush oldtag => .tflush oldtag
  | .rflush => .rflush
  | .twalk fid newfid wnames => .twalk fid newfid (wnames.map f)
  | .rwalk wqids => .rwalk wqids
  | .tread fid offset count => .tread fid offset count
  | .rread count data => .rread count (g count.toNat data)
  | .twrite fid offset count data => .twrite fid offset count (g count.toNat data)
  | .rwrite count => .rwrite count
  | .tclunk fid => .tclunk fid
  | .rclunk => .rclunk
  | .tremove fid => .tremove fid
  | .rremove => .rremove

@[simp] theorem type_map (f : S → S') (g : ℕ → D → D') (c : Fcall S D) :
    (c.map f g).type = c.type := by
  cases c <;> rfl

end Fcall

end Diod
