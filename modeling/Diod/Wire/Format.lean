import Diod.Lib.Codec
import Diod.Wire.Fcall

/-!
# The wire format, as the protocol document gives it

`protocol.md` lists the fields of each message in the order they travel:
integers of 1, 2, 4 or 8 bytes, strings behind a two-byte length, data behind a
four-byte count, and the arrays of *walk* behind a two-byte count that may not
exceed `Diod.MAXWELEM`. `Diod.MsgType.layout` is that list; a qid is its three
integers in a row.

The fields are read with the exact codecs of `Diod.Lib.Codec`, so the format
comes with both halves of a round trip. What this file adds is the passage
between a message and the list of its fields: `Diod.Fcall.vals` writes a message
out, `Diod.Fcall.ofVals` reads one back, and the second undoes the first.

Nothing here is taken from the code: it is what `np_deserialize` and the
constructors are compared with.
-/

namespace Diod

/-! ### The kinds of field -/

/-- The kinds of field a message is made of. -/
inductive Kind where
  /-- An integer of `w` bytes. -/
  | int (w : ℕ)
  /-- `length[2] string[length]` -/
  | str
  /-- `count[4] data[count]` -/
  | data
  /-- `nwname[2] nwname*(wname[s])` -/
  | names
  /-- `nwqid[2] nwqid*(wqid[13])` -/
  | qids

/-- A field of a message, generic as `Diod.Fcall` is in what stands for a string
and for a block of data. A block stands behind its count. -/
inductive Val (S D : Type) where
  | int (n : ℕ)
  | str (s : S)
  | data (n : ℕ) (d : D)
  | names (l : List S)
  | qids (l : List Npqid)

/-- Replace the strings of a field, and its data block given its count. -/
def Val.map {S S' D D' : Type} (f : S → S') (g : ℕ → D → D') : Val S D → Val S' D'
  | .int n => .int n
  | .str s => .str (f s)
  | .data n d => .data n (g n d)
  | .names l => .names (l.map f)
  | .qids l => .qids l

/-- A field the format can carry: a string that fits its length prefix, a block as
long as its count says, at most `Diod.MAXWELEM` elements. -/
def Val.Fits : Val Bytes Bytes → Prop
  | .int _ => True
  | .str s => s.length ≤ 65535
  | .data n d => d.length = n
  | .names l => l.length ≤ MAXWELEM ∧ ∀ s ∈ l, s.length ≤ 65535
  | .qids l => l.length ≤ MAXWELEM

namespace Npqid

/-- `type[1] version[4] path[8]` -/
def codec : Codec Npqid where
  enc q := leBytes 1 q.type.toNat ++ (leBytes 4 q.version.toNat ++ leBytes 8 q.path.toNat)
  dec bs := ((Codec.nat 1).dec bs).bind fun t => ((Codec.nat 4).dec t.2).bind fun v =>
    ((Codec.nat 8).dec v.2).map fun p => (⟨.ofNat t.1, .ofNat v.1, .ofNat p.1⟩, p.2)
  Ok _ := True
  dec_enc q r _ := by
    have ht : ∀ r, (Codec.nat 1).dec (leBytes 1 q.type.toNat ++ r) = some (q.type.toNat, r) :=
      fun r => (Codec.nat 1).dec_enc _ r q.type.toNat_lt
    have hv : ∀ r, (Codec.nat 4).dec (leBytes 4 q.version.toNat ++ r) =
        some (q.version.toNat, r) := fun r => (Codec.nat 4).dec_enc _ r q.version.toNat_lt
    have hp : ∀ r, (Codec.nat 8).dec (leBytes 8 q.path.toNat ++ r) = some (q.path.toNat, r) :=
      fun r => (Codec.nat 8).dec_enc _ r q.path.toNat_lt
    simp [ht, hv, hp]
  enc_of_dec {bs q r} h := by
    obtain ⟨⟨t, bs₁⟩, ht, h⟩ := Option.bind_eq_some_iff.mp h
    obtain ⟨⟨v, bs₂⟩, hv, h⟩ := Option.bind_eq_some_iff.mp h
    obtain ⟨⟨p, bs₃⟩, hp, h⟩ := Option.map_eq_some_iff.mp h
    obtain ⟨rfl, rfl⟩ := Prod.mk.inj h
    obtain ⟨rfl, hto⟩ := (Codec.nat 1).enc_of_dec ht
    obtain ⟨h1, hvo⟩ := (Codec.nat 4).enc_of_dec hv
    obtain ⟨h2, hpo⟩ := (Codec.nat 8).enc_of_dec hp
    change t < 2 ^ 8 at hto
    change v < 2 ^ 32 at hvo
    change p < 2 ^ 64 at hpo
    change bs₁ = _ at h1
    change bs₂ = _ at h2
    rw [h1, h2]
    simp [Codec.nat, UInt8.toNat_ofNat_of_lt' hto, UInt32.toNat_ofNat_of_lt' hvo,
      UInt64.toNat_ofNat_of_lt' hpo]

end Npqid

/-- How a field of each kind travels. -/
def Kind.codec : Kind → Codec (Val Bytes Bytes)
  | .int w => (Codec.nat w).emb .int (fun | .int n => some n | _ => none)
      (fun _ _ => rfl) (by rintro ⟨⟩ <;> simp)
  | .str => (Codec.block 2).emb .str (fun | .str s => some s | _ => none)
      (fun _ _ => rfl) (by rintro ⟨⟩ <;> simp)
  | .data => (Codec.block 4).emb (fun d => .data d.length d)
      (fun | .data n d => if n = d.length then some d else none | _ => none)
      (fun _ _ => if_pos rfl) (by rintro ⟨⟩ <;> simp [eq_comm])
  | .names => (Codec.counted 2 MAXWELEM (Codec.block 2)).emb .names
      (fun | .names l => some l | _ => none) (fun _ _ => rfl) (by rintro ⟨⟩ <;> simp)
  | .qids => (Codec.counted 2 MAXWELEM Npqid.codec).emb .qids
      (fun | .qids l => some l | _ => none) (fun _ _ => rfl) (by rintro ⟨⟩ <;> simp)

/-! ### The fields of each message -/

/-- **The fields of each message type**, after `size[4] type[1] tag[2]`, as
`protocol.md` lists them. -/
def MsgType.layout : MsgType → List Kind
  | .rlerror | .tstatfs | .treadlink | .rwrite | .tclunk | .tremove => [.int 4]
  | .rstatfs => [.int 4, .int 4, .int 8, .int 8, .int 8, .int 8, .int 8, .int 8, .int 4]
  | .tlopen | .tfsync => [.int 4, .int 4]
  | .rlopen | .rlcreate => [.int 1, .int 4, .int 8, .int 4]
  | .tlcreate => [.int 4, .str, .int 4, .int 4, .int 4]
  | .tsymlink | .tauth => [.int 4, .str, .str, .int 4]
  | .rsymlink | .rmknod | .rmkdir | .rauth | .rattach => [.int 1, .int 4, .int 8]
  | .tmknod => [.int 4, .str, .int 4, .int 4, .int 4, .int 4]
  | .trename | .txattrwalk | .tlink => [.int 4, .int 4, .str]
  | .rrename | .rsetattr | .rxattrcreate | .rfsync | .rlink | .rrenameat | .runlinkat | .rflush
  | .rclunk | .rremove => []
  | .rreadlink => [.str]
  | .tgetattr => [.int 4, .int 8]
  | .rgetattr =>
      [.int 8, .int 1, .int 4, .int 8, .int 4, .int 4, .int 4, .int 8, .int 8, .int 8, .int 8,
       .int 8, .int 8, .int 8, .int 8, .int 8, .int 8, .int 8, .int 8, .int 8, .int 8, .int 8]
  | .tsetattr => [.int 4, .int 4, .int 4, .int 4, .int 4, .int 8, .int 8, .int 8, .int 8, .int 8]
  | .rxattrwalk => [.int 8]
  | .txattrcreate => [.int 4, .str, .int 8, .int 4]
  | .treaddir | .tread => [.int 4, .int 8, .int 4]
  | .rreaddir | .rread => [.data]
  | .tlock => [.int 4, .int 1, .int 4, .int 8, .int 8, .int 4, .str]
  | .rlock => [.int 1]
  | .tgetlock => [.int 4, .int 1, .int 8, .int 8, .int 4, .str]
  | .rgetlock => [.int 1, .int 8, .int 8, .int 4, .str]
  | .tmkdir => [.int 4, .str, .int 4, .int 4]
  | .trenameat => [.int 4, .str, .int 4, .str]
  | .tunlinkat => [.int 4, .str, .int 4]
  | .tversion | .rversion => [.int 4, .str]
  | .tattach => [.int 4, .int 4, .str, .str, .int 4]
  | .tflush => [.int 2]
  | .twalk => [.int 4, .int 4, .names]
  | .rwalk => [.qids]
  | .twrite => [.int 4, .int 8, .data]

/-- The codecs of the fields of a message type. -/
def MsgType.codecs (t : MsgType) : List (Codec (Val Bytes Bytes)) := t.layout.map Kind.codec

/-- Read the fields of a message type off the front of some bytes. -/
def MsgType.parse (t : MsgType) (bs : Bytes) : Option (List (Val Bytes Bytes) × Bytes) :=
  Codec.decSeq t.codecs bs

namespace Fcall

variable {S D : Type}

/-- The fields of a message, in the order of `Diod.MsgType.layout`. -/
def vals : Fcall S D → List (Val S D)
  | .rlerror ecode => [.int ecode.toNat]
  | .tstatfs fid => [.int fid.toNat]
  | .rstatfs a =>
      [.int a.type.toNat, .int a.bsize.toNat, .int a.blocks.toNat, .int a.bfree.toNat,
       .int a.bavail.toNat, .int a.files.toNat, .int a.ffree.toNat, .int a.fsid.toNat,
       .int a.namelen.toNat]
  | .tlopen fid flags => [.int fid.toNat, .int flags.toNat]
  | .rlopen qid iounit =>
      [.int qid.type.toNat, .int qid.version.toNat, .int qid.path.toNat, .int iounit.toNat]
  | .tlcreate fid name flags mode gid =>
      [.int fid.toNat, .str name, .int flags.toNat, .int mode.toNat, .int gid.toNat]
  | .rlcreate qid iounit =>
      [.int qid.type.toNat, .int qid.version.toNat, .int qid.path.toNat, .int iounit.toNat]
  | .tsymlink fid name symtgt gid => [.int fid.toNat, .str name, .str symtgt, .int gid.toNat]
  | .rsymlink qid => [.int qid.type.toNat, .int qid.version.toNat, .int qid.path.toNat]
  | .tmknod fid name mode major minor gid =>
      [.int fid.toNat, .str name, .int mode.toNat, .int major.toNat, .int minor.toNat,
       .int gid.toNat]
  | .rmknod qid => [.int qid.type.toNat, .int qid.version.toNat, .int qid.path.toNat]
  | .trename fid dfid name => [.int fid.toNat, .int dfid.toNat, .str name]
  | .rrename => []
  | .treadlink fid => [.int fid.toNat]
  | .rreadlink target => [.str target]
  | .tgetattr fid requestMask => [.int fid.toNat, .int requestMask.toNat]
  | .rgetattr a =>
      [.int a.valid.toNat, .int a.qid.type.toNat, .int a.qid.version.toNat, .int a.qid.path.toNat,
       .int a.mode.toNat, .int a.uid.toNat, .int a.gid.toNat, .int a.nlink.toNat,
       .int a.rdev.toNat, .int a.size.toNat, .int a.blksize.toNat, .int a.blocks.toNat,
       .int a.atimeSec.toNat, .int a.atimeNsec.toNat, .int a.mtimeSec.toNat,
       .int a.mtimeNsec.toNat, .int a.ctimeSec.toNat, .int a.ctimeNsec.toNat,
       .int a.btimeSec.toNat, .int a.btimeNsec.toNat, .int a.gen.toNat, .int a.dataVersion.toNat]
  | .tsetattr a =>
      [.int a.fid.toNat, .int a.valid.toNat, .int a.mode.toNat, .int a.uid.toNat,
       .int a.gid.toNat, .int a.size.toNat, .int a.atimeSec.toNat, .int a.atimeNsec.toNat,
       .int a.mtimeSec.toNat, .int a.mtimeNsec.toNat]
  | .rsetattr => []
  | .txattrwalk fid attrfid name => [.int fid.toNat, .int attrfid.toNat, .str name]
  | .rxattrwalk size => [.int size.toNat]
  | .txattrcreate fid name size flag =>
      [.int fid.toNat, .str name, .int size.toNat, .int flag.toNat]
  | .rxattrcreate => []
  | .treaddir fid offset count => [.int fid.toNat, .int offset.toNat, .int count.toNat]
  | .rreaddir count data => [.data count.toNat data]
  | .tfsync fid datasync => [.int fid.toNat, .int datasync.toNat]
  | .rfsync => []
  | .tlock fid type flags start length procId clientId =>
      [.int fid.toNat, .int type.toNat, .int flags.toNat, .int start.toNat, .int length.toNat,
       .int procId.toNat, .str clientId]
  | .rlock status => [.int status.toNat]
  | .tgetlock fid type start length procId clientId =>
      [.int fid.toNat, .int type.toNat, .int start.toNat, .int length.toNat, .int procId.toNat,
       .str clientId]
  | .rgetlock type start length procId clientId =>
      [.int type.toNat, .int start.toNat, .int length.toNat, .int procId.toNat, .str clientId]
  | .tlink dfid fid name => [.int dfid.toNat, .int fid.toNat, .str name]
  | .rlink => []
  | .tmkdir fid name mode gid => [.int fid.toNat, .str name, .int mode.toNat, .int gid.toNat]
  | .rmkdir qid => [.int qid.type.toNat, .int qid.version.toNat, .int qid.path.toNat]
  | .trenameat olddirfid oldname newdirfid newname =>
      [.int olddirfid.toNat, .str oldname, .int newdirfid.toNat, .str newname]
  | .rrenameat => []
  | .tunlinkat dirfid name flags => [.int dirfid.toNat, .str name, .int flags.toNat]
  | .runlinkat => []
  | .tversion msize version => [.int msize.toNat, .str version]
  | .rversion msize version => [.int msize.toNat, .str version]
  | .tauth afid uname aname nUname => [.int afid.toNat, .str uname, .str aname, .int nUname.toNat]
  | .rauth qid => [.int qid.type.toNat, .int qid.version.toNat, .int qid.path.toNat]
  | .tattach fid afid uname aname nUname =>
      [.int fid.toNat, .int afid.toNat, .str uname, .str aname, .int nUname.toNat]
  | .rattach qid => [.int qid.type.toNat, .int qid.version.toNat, .int qid.path.toNat]
  | .tflush oldtag => [.int oldtag.toNat]
  | .rflush => []
  | .twalk fid newfid wnames => [.int fid.toNat, .int newfid.toNat, .names wnames]
  | .rwalk wqids => [.qids wqids]
  | .tread fid offset count => [.int fid.toNat, .int offset.toNat, .int count.toNat]
  | .rread count data => [.data count.toNat data]
  | .twrite fid offset count data =>
      [.int fid.toNat, .int offset.toNat, .data count.toNat data]
  | .rwrite count => [.int count.toNat]
  | .tclunk fid => [.int fid.toNat]
  | .rclunk => []
  | .tremove fid => [.int fid.toNat]
  | .rremove => []

/-- The message with given fields. -/
def ofVals : MsgType → List (Val S D) → Option (Fcall S D)
  | .rlerror, [.int ecode] => some (.rlerror (.ofNat ecode))
  | .tstatfs, [.int fid] => some (.tstatfs (.ofNat fid))
  | .rstatfs, [.int type, .int bsize, .int blocks, .int bfree, .int bavail, .int files, .int
      ffree, .int fsid, .int namelen] =>
      some (.rstatfs ⟨.ofNat type, .ofNat bsize, .ofNat blocks, .ofNat bfree, .ofNat bavail,
      .ofNat files, .ofNat ffree, .ofNat fsid, .ofNat namelen⟩)
  | .tlopen, [.int fid, .int flags] => some (.tlopen (.ofNat fid) (.ofNat flags))
  | .rlopen, [.int q₁, .int q₂, .int q₃, .int iounit] =>
      some (.rlopen ⟨.ofNat q₁, .ofNat q₂, .ofNat q₃⟩ (.ofNat iounit))
  | .tlcreate, [.int fid, .str name, .int flags, .int mode, .int gid] =>
      some (.tlcreate (.ofNat fid) name (.ofNat flags) (.ofNat mode) (.ofNat gid))
  | .rlcreate, [.int q₁, .int q₂, .int q₃, .int iounit] =>
      some (.rlcreate ⟨.ofNat q₁, .ofNat q₂, .ofNat q₃⟩ (.ofNat iounit))
  | .tsymlink, [.int fid, .str name, .str symtgt, .int gid] =>
      some (.tsymlink (.ofNat fid) name symtgt (.ofNat gid))
  | .rsymlink, [.int q₁, .int q₂, .int q₃] => some (.rsymlink ⟨.ofNat q₁, .ofNat q₂, .ofNat q₃⟩)
  | .tmknod, [.int fid, .str name, .int mode, .int major, .int minor, .int gid] =>
      some (.tmknod (.ofNat fid) name (.ofNat mode) (.ofNat major) (.ofNat minor) (.ofNat gid))
  | .rmknod, [.int q₁, .int q₂, .int q₃] => some (.rmknod ⟨.ofNat q₁, .ofNat q₂, .ofNat q₃⟩)
  | .trename, [.int fid, .int dfid, .str name] => some (.trename (.ofNat fid) (.ofNat dfid) name)
  | .rrename, [] => some .rrename
  | .treadlink, [.int fid] => some (.treadlink (.ofNat fid))
  | .rreadlink, [.str target] => some (.rreadlink target)
  | .tgetattr, [.int fid, .int requestMask] => some (.tgetattr (.ofNat fid) (.ofNat requestMask))
  | .rgetattr, [.int valid, .int q₁, .int q₂, .int q₃, .int mode, .int uid, .int gid, .int nlink,
      .int rdev, .int size, .int blksize, .int blocks, .int atimeSec, .int atimeNsec, .int mtimeSec,
      .int mtimeNsec, .int ctimeSec, .int ctimeNsec, .int btimeSec, .int btimeNsec, .int gen, .int
      dataVersion] =>
      some (.rgetattr ⟨.ofNat valid, ⟨.ofNat q₁, .ofNat q₂, .ofNat q₃⟩, .ofNat mode, .ofNat uid,
      .ofNat gid, .ofNat nlink, .ofNat rdev, .ofNat size, .ofNat blksize, .ofNat blocks, .ofNat
      atimeSec, .ofNat atimeNsec, .ofNat mtimeSec, .ofNat mtimeNsec, .ofNat ctimeSec, .ofNat
      ctimeNsec, .ofNat btimeSec, .ofNat btimeNsec, .ofNat gen, .ofNat dataVersion⟩)
  | .tsetattr, [.int fid, .int valid, .int mode, .int uid, .int gid, .int size, .int atimeSec,
      .int atimeNsec, .int mtimeSec, .int mtimeNsec] =>
      some (.tsetattr ⟨.ofNat fid, .ofNat valid, .ofNat mode, .ofNat uid, .ofNat gid, .ofNat size,
      .ofNat atimeSec, .ofNat atimeNsec, .ofNat mtimeSec, .ofNat mtimeNsec⟩)
  | .rsetattr, [] => some .rsetattr
  | .txattrwalk, [.int fid, .int attrfid, .str name] =>
      some (.txattrwalk (.ofNat fid) (.ofNat attrfid) name)
  | .rxattrwalk, [.int size] => some (.rxattrwalk (.ofNat size))
  | .txattrcreate, [.int fid, .str name, .int size, .int flag] =>
      some (.txattrcreate (.ofNat fid) name (.ofNat size) (.ofNat flag))
  | .rxattrcreate, [] => some .rxattrcreate
  | .treaddir, [.int fid, .int offset, .int count] =>
      some (.treaddir (.ofNat fid) (.ofNat offset) (.ofNat count))
  | .rreaddir, [.data count data] => some (.rreaddir (.ofNat count) data)
  | .tfsync, [.int fid, .int datasync] => some (.tfsync (.ofNat fid) (.ofNat datasync))
  | .rfsync, [] => some .rfsync
  | .tlock, [.int fid, .int type, .int flags, .int start, .int length, .int procId, .str clientId]
      =>
      some (.tlock (.ofNat fid) (.ofNat type) (.ofNat flags) (.ofNat start) (.ofNat length)
      (.ofNat procId) clientId)
  | .rlock, [.int status] => some (.rlock (.ofNat status))
  | .tgetlock, [.int fid, .int type, .int start, .int length, .int procId, .str clientId] =>
      some (.tgetlock (.ofNat fid) (.ofNat type) (.ofNat start) (.ofNat length) (.ofNat procId)
      clientId)
  | .rgetlock, [.int type, .int start, .int length, .int procId, .str clientId] =>
      some (.rgetlock (.ofNat type) (.ofNat start) (.ofNat length) (.ofNat procId) clientId)
  | .tlink, [.int dfid, .int fid, .str name] => some (.tlink (.ofNat dfid) (.ofNat fid) name)
  | .rlink, [] => some .rlink
  | .tmkdir, [.int fid, .str name, .int mode, .int gid] =>
      some (.tmkdir (.ofNat fid) name (.ofNat mode) (.ofNat gid))
  | .rmkdir, [.int q₁, .int q₂, .int q₃] => some (.rmkdir ⟨.ofNat q₁, .ofNat q₂, .ofNat q₃⟩)
  | .trenameat, [.int olddirfid, .str oldname, .int newdirfid, .str newname] =>
      some (.trenameat (.ofNat olddirfid) oldname (.ofNat newdirfid) newname)
  | .rrenameat, [] => some .rrenameat
  | .tunlinkat, [.int dirfid, .str name, .int flags] =>
      some (.tunlinkat (.ofNat dirfid) name (.ofNat flags))
  | .runlinkat, [] => some .runlinkat
  | .tversion, [.int msize, .str version] => some (.tversion (.ofNat msize) version)
  | .rversion, [.int msize, .str version] => some (.rversion (.ofNat msize) version)
  | .tauth, [.int afid, .str uname, .str aname, .int nUname] =>
      some (.tauth (.ofNat afid) uname aname (.ofNat nUname))
  | .rauth, [.int q₁, .int q₂, .int q₃] => some (.rauth ⟨.ofNat q₁, .ofNat q₂, .ofNat q₃⟩)
  | .tattach, [.int fid, .int afid, .str uname, .str aname, .int nUname] =>
      some (.tattach (.ofNat fid) (.ofNat afid) uname aname (.ofNat nUname))
  | .rattach, [.int q₁, .int q₂, .int q₃] => some (.rattach ⟨.ofNat q₁, .ofNat q₂, .ofNat q₃⟩)
  | .tflush, [.int oldtag] => some (.tflush (.ofNat oldtag))
  | .rflush, [] => some .rflush
  | .twalk, [.int fid, .int newfid, .names wnames] =>
      some (.twalk (.ofNat fid) (.ofNat newfid) wnames)
  | .rwalk, [.qids wqids] => some (.rwalk wqids)
  | .tread, [.int fid, .int offset, .int count] =>
      some (.tread (.ofNat fid) (.ofNat offset) (.ofNat count))
  | .rread, [.data count data] => some (.rread (.ofNat count) data)
  | .twrite, [.int fid, .int offset, .data count data] =>
      some (.twrite (.ofNat fid) (.ofNat offset) (.ofNat count) data)
  | .rwrite, [.int count] => some (.rwrite (.ofNat count))
  | .tclunk, [.int fid] => some (.tclunk (.ofNat fid))
  | .rclunk, [] => some .rclunk
  | .tremove, [.int fid] => some (.tremove (.ofNat fid))
  | .rremove, [] => some .rremove
  | _, _ => none

/-- The bytes of a message behind its header. -/
def body (m : Msg) : Bytes := Codec.encSeq m.type.codecs m.vals

/-- **The messages the format can carry.** -/
def Fits (m : Msg) : Prop := ∀ v ∈ m.vals, v.Fits

/-! ### Reading a message back -/

/-- **A message is what its fields say.** -/
theorem ofVals_vals (m : Fcall S D) : ofVals m.type m.vals = some m := by
  cases m <;> exact congrArg some (by simp)

theorem vals_map {S' D' : Type} (f : S → S') (g : ℕ → D → D') (m : Fcall S D) :
    (m.map f g).vals = m.vals.map (Val.map f g) := by
  cases m <;> rfl

/-- A message is determined by its type and its fields. -/
theorem ext_vals {m m' : Fcall S D} (ht : m.type = m'.type) (hv : m.vals = m'.vals) : m = m' := by
  have h := ofVals_vals m
  rw [ht, hv, ofVals_vals m'] at h
  exact (Option.some.inj h).symm

end Fcall

namespace Kind

theorem ok_data {n : ℕ} {d : Bytes} :
    Kind.data.codec.Ok (.data n d) ↔ n = d.length ∧ d.length < 2 ^ 32 := by
  simp [codec, Codec.emb, Codec.block]

theorem ok_int {w n : ℕ} (h : n < 256 ^ w) :
    (Kind.int w).codec.Ok (.int n) ↔ (Val.int n : Val Bytes Bytes).Fits := by
  simpa [codec, Codec.emb, Codec.nat, Val.Fits] using h

theorem ok_str (s : Bytes) : Kind.str.codec.Ok (.str s) ↔ (Val.str s : Val Bytes Bytes).Fits := by
  simp [codec, Codec.emb, Codec.block, Val.Fits, Nat.lt_succ_iff]

theorem ok_data_fits (n : UInt32) (d : Bytes) :
    Kind.data.codec.Ok (.data n.toNat d) ↔ (Val.data n.toNat d : Val Bytes Bytes).Fits := by
  rw [ok_data, Val.Fits]
  exact ⟨fun h => h.1.symm, fun h => ⟨h.symm, h ▸ n.toNat_lt⟩⟩

theorem ok_names (l : List Bytes) :
    Kind.names.codec.Ok (.names l) ↔ (Val.names l : Val Bytes Bytes).Fits := by
  simp [codec, Codec.emb, Codec.block, Codec.counted, MAXWELEM, Val.Fits, Nat.lt_succ_iff]
  omega

theorem ok_qids (l : List Npqid) :
    Kind.qids.codec.Ok (.qids l) ↔ (Val.qids l : Val Bytes Bytes).Fits := by
  simp [codec, Codec.emb, Codec.counted, Npqid.codec, MAXWELEM, Val.Fits]
  omega

/-- The fields `vs` can be carried exactly when they fit. -/
def OkFits (ks : List Kind) (vs : List (Val Bytes Bytes)) : Prop :=
  Codec.OkSeq (ks.map codec) vs ↔ ∀ v ∈ vs, v.Fits

theorem okFits_nil : OkFits [] [] := by simp [OkFits, Codec.OkSeq]

theorem okFits_cons {k : Kind} {v : Val Bytes Bytes} {ks : List Kind} {vs : List (Val Bytes Bytes)}
    (hv : k.codec.Ok v ↔ v.Fits) (h : OkFits ks vs) : OkFits (k :: ks) (v :: vs) := by
  simp only [OkFits, List.map_cons, Codec.OkSeq, List.forall_mem_cons, hv]
  exact and_congr_right fun _ => h

end Kind

namespace Fcall

variable {m : Msg}

open Kind in
/-- **The messages that fit are the ones whose fields the format can carry.** -/
theorem okSeq_vals : Codec.OkSeq m.type.codecs m.vals ↔ m.Fits := by
  change OkFits m.type.layout m.vals
  cases m
  all_goals
    dsimp only [type, vals, MsgType.layout]
    repeat'
      first
      | refine okFits_cons (ok_int (UInt32.toNat_lt _)) ?_
      | refine okFits_cons (ok_int (UInt64.toNat_lt _)) ?_
      | refine okFits_cons (ok_str _) ?_
      | refine okFits_cons (ok_int (UInt8.toNat_lt _)) ?_
      | refine okFits_cons (ok_int (UInt16.toNat_lt _)) ?_
      | refine okFits_cons (ok_data_fits _ _) ?_
      | refine okFits_cons (ok_names _) ?_
      | refine okFits_cons (ok_qids _) ?_
      | exact okFits_nil

/-- **What is written is read back.** -/
theorem parse_body (h : m.Fits) (r : Bytes) : m.type.parse (m.body ++ r) = some (m.vals, r) :=
  Codec.decSeq_encSeq _ _ r (okSeq_vals.mpr h)

end Fcall

end Diod
