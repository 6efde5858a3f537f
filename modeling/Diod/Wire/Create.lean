import Diod.Wire.Buf

/-!
# Building a packet

The constructors `np_create_t*` and `np_create_r*` of `np.c`. Each adds up the
size of its fields, allocates a packet of that size and seven more bytes for the
header, puts the header and then the fields, and gives up if one of them did not
fit. `Diod.npCreate` is that outline; a constructor is the outline at its own sum,
its own message type and its own sequence of puts.

The block that `malloc` returns holds whatever was there before, and may be
`NULL`: it is an argument of every constructor. An assertion that fails
(`NP_ASSERT`) is `none` as well.

`Diod.create` calls the constructor of a message.
-/

namespace Diod

/-- What `malloc` answers: `NULL`, or a block with whatever was in it. -/
abbrev Malloc := Option (ℕ → UInt8)

/-- The size of a qid in a packet. -/
def QIDSIZE : ℕ := 13

/-- `s ? strlen (s) : 0` -/
def strlen0 (s : Option CStr) : ℕ := (s.map CStr.strlen).getD 0

/-- `np_create_common`: allocate a packet, and put its header. -/
def npCreateCommon (M : Malloc) (size : ℕ) (id : UInt8) :
    Option ((UInt32 × UInt8 × UInt16) × Cbuf) :=
  M.bind fun junk =>
    let size := UInt32.ofNat (size + (4 + 1 + 2))
    let put : BufM (UInt32 × UInt8 × UInt16) := do
      bufInit 0 (asInt size.toNat)
      return (← bufPutInt32 size, ← bufPutInt8 id, ← bufPutInt16 NOTAG)
    put ⟨(List.range size.toNat).map junk, 0, 0⟩

/-- `np_post_check` -/
def npPostCheck (fc : Npfcall) (b : Cbuf) : Option Npfcall :=
  if bufCheckOverflow b then none else some fc

/-- What the constructors share: the size of the fields, the message type, and how
the fields are put. -/
def npCreate (M : Malloc) (size : ℕ) (id : MsgType) (put : BufM (Fcall Npstr (Option ℤ))) :
    Option Npfcall := do
  let ((size, type, tag), b) ← npCreateCommon M size id.code
  let (u, b) ← put b
  npPostCheck { size, type, tag, pkt := b.mem, u } b

/-- The same in a buffer of the caller's, with room for `room` bytes of packet:
`np_create_common_static`. -/
def npCreateStatic (junk : ℕ → UInt8) (room size : ℕ) (id : MsgType)
    (put : BufM (Fcall Npstr (Option ℤ))) : Option Npfcall :=
  -- NP_ASSERT (buflen >= sizeof(Npfcall) + size)
  if size + (4 + 1 + 2) ≤ room then npCreate (some junk) size id put else none

/-- Put a block of data behind its count. -/
def bufPutData (count : UInt32) (data : Bytes) : BufM (UInt32 × Option ℤ) := do
  let count ← bufPutInt32 count
  let p ← bufAlloc (asInt count.toNat)
  bufMove p data
  return (count, p)

/-- Put one element after another. -/
def bufPutEach {α β : Type} (put : α → BufM β) : List α → BufM (List β)
  | [] => return []
  | a :: l => return (← put a) :: (← bufPutEach put l)

/-- Put the array of a walk behind its number of elements. -/
def bufPutWalk {α β : Type} (put : α → BufM β) (l : List α) : BufM (List β) := do
  bufPutInt 2 l.length
  bufPutEach put l

/-- Write to the data of an `Rread` or an `Rreaddir`. -/
def Npfcall.fill (fc : Npfcall) (data : Bytes) : Npfcall :=
  match fc.u with
  | .rread _ (some off) | .rreaddir _ (some off) =>
    { fc with pkt := storeAt fc.pkt off.toNat data }
  | _ => fc

/-! ### The constructors -/

/-- `np_create_tversion` -/
def npCreateTversion (M : Malloc) (msize : UInt32) (version : CStr) : Option Npfcall :=
  npCreate M (4 + 2 + version.strlen) .tversion do
    return .tversion (← bufPutInt32 msize) (← bufPutStr (some version))

/-- `np_create_rversion` -/
def npCreateRversion (M : Malloc) (msize : UInt32) (version : Option CStr) : Option Npfcall :=
  npCreate M (4 + 2 + strlen0 version) .rversion do
    return .rversion (← bufPutInt32 msize) (← bufPutStr version)

/-- `np_create_tauth` -/
def npCreateTauth (M : Malloc) (afid : UInt32) (uname aname : Option CStr) (nUname : UInt32) :
    Option Npfcall :=
  npCreate M (4 + 2 + strlen0 uname + 2 + strlen0 aname + 4) .tauth do
    return .tauth (← bufPutInt32 afid) (← bufPutStr uname) (← bufPutStr aname)
      (← bufPutInt32 nUname)

/-- `np_create_rauth` -/
def npCreateRauth (M : Malloc) (qid : Npqid) : Option Npfcall :=
  npCreate M QIDSIZE .rauth do
    return .rauth (← bufPutQid qid)

/-- `np_create_tflush` -/
def npCreateTflush (M : Malloc) (oldtag : UInt16) : Option Npfcall :=
  npCreate M 2 .tflush do
    return .tflush (← bufPutInt16 oldtag)

/-- `np_create_rflush` -/
def npCreateRflush (M : Malloc) : Option Npfcall :=
  npCreate M 0 .rflush (return .rflush)

/-- `np_create_tattach` -/
def npCreateTattach (M : Malloc) (fid afid : UInt32) (uname aname : Option CStr) (nUname : UInt32) :
    Option Npfcall :=
  npCreate M (2 * 4 + 2 + strlen0 uname + 2 + strlen0 aname + 4) .tattach do
    return .tattach (← bufPutInt32 fid) (← bufPutInt32 afid) (← bufPutStr uname)
      (← bufPutStr aname) (← bufPutInt32 nUname)

/-- `np_create_rattach` -/
def npCreateRattach (M : Malloc) (qid : Npqid) : Option Npfcall :=
  npCreate M QIDSIZE .rattach do
    return .rattach (← bufPutQid qid)

/-- `np_create_twalk` -/
def npCreateTwalk (M : Malloc) (fid newfid : UInt32) (wnames : List CStr) : Option Npfcall :=
  -- NP_ASSERT (nwname <= MAXWELEM)
  if wnames.length ≤ MAXWELEM then
    npCreate M (2 * 4 + 2 + (wnames.map fun s => 2 + s.strlen).sum) .twalk do
      return .twalk (← bufPutInt32 fid) (← bufPutInt32 newfid)
        (← bufPutWalk (fun s => bufPutStr (some s)) wnames)
  else none

/-- `np_create_rwalk` -/
def npCreateRwalk (M : Malloc) (wqids : List Npqid) : Option Npfcall :=
  -- NP_ASSERT (nwqid <= MAXWELEM)
  if wqids.length ≤ MAXWELEM then
    npCreate M (2 + wqids.length * QIDSIZE) .rwalk do
      return .rwalk (← bufPutWalk bufPutQid wqids)
  else none

/-- `np_create_tread` -/
def npCreateTread (M : Malloc) (fid : UInt32) (offset : UInt64) (count : UInt32)
    : Option Npfcall :=
  npCreate M (4 + 8 + 4) .tread do
    return .tread (← bufPutInt32 fid) (← bufPutInt64 offset) (← bufPutInt32 count)

/-- `np_alloc_rread` -/
def npAllocRread (M : Malloc) (count : UInt32) : Option Npfcall :=
  npCreate M (4 + count.toNat) .rread do
    let count ← bufPutInt32 count
    return .rread count (← bufAlloc (asInt count.toNat))

/-- `np_create_rread`, with `count` bytes of data. -/
def npCreateRread (M : Malloc) (count : UInt32) (data : Bytes) : Option Npfcall :=
  (npAllocRread M count).map fun fc => fc.fill data

/-- `np_create_twrite`, with `count` bytes of data. -/
def npCreateTwrite (M : Malloc) (fid : UInt32) (offset : UInt64) (count : UInt32) (data : Bytes) :
    Option Npfcall :=
  npCreate M (4 + 8 + 4 + count.toNat) .twrite do
    let fid ← bufPutInt32 fid
    let offset ← bufPutInt64 offset
    let (count, p) ← bufPutData count data
    return .twrite fid offset count p

/-- `np_create_rwrite` -/
def npCreateRwrite (M : Malloc) (count : UInt32) : Option Npfcall :=
  npCreate M 4 .rwrite do
    return .rwrite (← bufPutInt32 count)

/-- `np_create_tclunk` -/
def npCreateTclunk (M : Malloc) (fid : UInt32) : Option Npfcall :=
  npCreate M 4 .tclunk do
    return .tclunk (← bufPutInt32 fid)

/-- `np_create_rclunk` -/
def npCreateRclunk (M : Malloc) : Option Npfcall :=
  npCreate M 0 .rclunk (return .rclunk)

/-- `np_create_tremove` -/
def npCreateTremove (M : Malloc) (fid : UInt32) : Option Npfcall :=
  npCreate M 4 .tremove do
    return .tremove (← bufPutInt32 fid)

/-- `np_create_rremove` -/
def npCreateRremove (M : Malloc) : Option Npfcall :=
  npCreate M 0 .rremove (return .rremove)

/-- `np_create_rlerror` -/
def npCreateRlerror (M : Malloc) (ecode : UInt32) : Option Npfcall :=
  npCreate M 4 .rlerror do
    return .rlerror (← bufPutInt32 ecode)

/-- `np_create_tstatfs` -/
def npCreateTstatfs (M : Malloc) (fid : UInt32) : Option Npfcall :=
  npCreate M 4 .tstatfs do
    return .tstatfs (← bufPutInt32 fid)

/-- `np_create_rstatfs` -/
def npCreateRstatfs (M : Malloc) (a : Nprstatfs) : Option Npfcall :=
  npCreate M (2 * 4 + 6 * 8 + 4) .rstatfs do
    return .rstatfs ⟨← bufPutInt32 a.type, ← bufPutInt32 a.bsize, ← bufPutInt64 a.blocks,
      ← bufPutInt64 a.bfree, ← bufPutInt64 a.bavail, ← bufPutInt64 a.files, ← bufPutInt64 a.ffree,
      ← bufPutInt64 a.fsid, ← bufPutInt32 a.namelen⟩

/-- `np_create_tlopen` -/
def npCreateTlopen (M : Malloc) (fid flags : UInt32) : Option Npfcall :=
  npCreate M (4 + 4) .tlopen do
    return .tlopen (← bufPutInt32 fid) (← bufPutInt32 flags)

/-- `np_create_rlopen` -/
def npCreateRlopen (M : Malloc) (qid : Npqid) (iounit : UInt32) : Option Npfcall :=
  npCreate M (QIDSIZE + 4) .rlopen do
    return .rlopen (← bufPutQid qid) (← bufPutInt32 iounit)

/-- `np_create_tlcreate` -/
def npCreateTlcreate (M : Malloc) (fid : UInt32) (name : CStr) (flags mode gid : UInt32)
    : Option Npfcall :=
  npCreate M (4 + 2 + name.strlen + 4 + 4 + 4) .tlcreate do
    return .tlcreate (← bufPutInt32 fid) (← bufPutStr (some name)) (← bufPutInt32 flags)
      (← bufPutInt32 mode) (← bufPutInt32 gid)

/-- `np_create_rlcreate` -/
def npCreateRlcreate (M : Malloc) (qid : Npqid) (iounit : UInt32) : Option Npfcall :=
  npCreate M (QIDSIZE + 4) .rlcreate do
    return .rlcreate (← bufPutQid qid) (← bufPutInt32 iounit)

/-- `np_create_tsymlink` -/
def npCreateTsymlink (M : Malloc) (fid : UInt32) (name symtgt : CStr) (gid : UInt32)
    : Option Npfcall :=
  npCreate M (4 + 2 + name.strlen + 2 + symtgt.strlen + 4) .tsymlink do
    return .tsymlink (← bufPutInt32 fid) (← bufPutStr (some name)) (← bufPutStr (some symtgt))
      (← bufPutInt32 gid)

/-- `np_create_rsymlink` -/
def npCreateRsymlink (M : Malloc) (qid : Npqid) : Option Npfcall :=
  npCreate M QIDSIZE .rsymlink do
    return .rsymlink (← bufPutQid qid)

/-- `np_create_tmknod` -/
def npCreateTmknod (M : Malloc) (fid : UInt32) (name : CStr) (mode major minor gid : UInt32)
    : Option Npfcall :=
  npCreate M (4 + 2 + name.strlen + 4 + 4 + 4 + 4) .tmknod do
    return .tmknod (← bufPutInt32 fid) (← bufPutStr (some name)) (← bufPutInt32 mode)
      (← bufPutInt32 major) (← bufPutInt32 minor) (← bufPutInt32 gid)

/-- `np_create_rmknod` -/
def npCreateRmknod (M : Malloc) (qid : Npqid) : Option Npfcall :=
  npCreate M QIDSIZE .rmknod do
    return .rmknod (← bufPutQid qid)

/-- `np_create_trename` -/
def npCreateTrename (M : Malloc) (fid dfid : UInt32) (name : CStr) : Option Npfcall :=
  npCreate M (4 + 4 + 2 + name.strlen) .trename do
    return .trename (← bufPutInt32 fid) (← bufPutInt32 dfid) (← bufPutStr (some name))

/-- `np_create_rrename` -/
def npCreateRrename (M : Malloc) : Option Npfcall :=
  npCreate M 0 .rrename (return .rrename)

/-- `np_create_treadlink` -/
def npCreateTreadlink (M : Malloc) (fid : UInt32) : Option Npfcall :=
  npCreate M 4 .treadlink do
    return .treadlink (← bufPutInt32 fid)

/-- `np_create_rreadlink` -/
def npCreateRreadlink (M : Malloc) (target : CStr) : Option Npfcall :=
  npCreate M (2 + target.strlen) .rreadlink do
    return .rreadlink (← bufPutStr (some target))

/-- `np_create_tgetattr` -/
def npCreateTgetattr (M : Malloc) (fid : UInt32) (requestMask : UInt64) : Option Npfcall :=
  npCreate M (4 + 8) .tgetattr do
    return .tgetattr (← bufPutInt32 fid) (← bufPutInt64 requestMask)

/-- `np_create_rgetattr` -/
def npCreateRgetattr (M : Malloc) (a : Nprgetattr) : Option Npfcall :=
  npCreate M (8 + QIDSIZE + 3 * 4 + 15 * 8) .rgetattr do
    return .rgetattr ⟨← bufPutInt64 a.valid, ← bufPutQid a.qid, ← bufPutInt32 a.mode,
      ← bufPutInt32 a.uid, ← bufPutInt32 a.gid, ← bufPutInt64 a.nlink, ← bufPutInt64 a.rdev,
      ← bufPutInt64 a.size, ← bufPutInt64 a.blksize, ← bufPutInt64 a.blocks,
      ← bufPutInt64 a.atimeSec, ← bufPutInt64 a.atimeNsec, ← bufPutInt64 a.mtimeSec,
      ← bufPutInt64 a.mtimeNsec, ← bufPutInt64 a.ctimeSec, ← bufPutInt64 a.ctimeNsec,
      ← bufPutInt64 a.btimeSec, ← bufPutInt64 a.btimeNsec, ← bufPutInt64 a.gen,
      ← bufPutInt64 a.dataVersion⟩

/-- `np_create_tsetattr` -/
def npCreateTsetattr (M : Malloc) (a : Nptsetattr) : Option Npfcall :=
  npCreate M (5 * 4 + 5 * 8) .tsetattr do
    return .tsetattr ⟨← bufPutInt32 a.fid, ← bufPutInt32 a.valid, ← bufPutInt32 a.mode,
      ← bufPutInt32 a.uid, ← bufPutInt32 a.gid, ← bufPutInt64 a.size, ← bufPutInt64 a.atimeSec,
      ← bufPutInt64 a.atimeNsec, ← bufPutInt64 a.mtimeSec, ← bufPutInt64 a.mtimeNsec⟩

/-- `np_create_rsetattr` -/
def npCreateRsetattr (M : Malloc) : Option Npfcall :=
  npCreate M 0 .rsetattr (return .rsetattr)

/-- `np_create_txattrwalk` -/
def npCreateTxattrwalk (M : Malloc) (fid attrfid : UInt32) (name : Option CStr)
    : Option Npfcall :=
  npCreate M (2 * 4 + 2 + strlen0 name) .txattrwalk do
    return .txattrwalk (← bufPutInt32 fid) (← bufPutInt32 attrfid) (← bufPutStr name)

/-- `np_create_rxattrwalk` -/
def npCreateRxattrwalk (M : Malloc) (size : UInt64) : Option Npfcall :=
  npCreate M 8 .rxattrwalk do
    return .rxattrwalk (← bufPutInt64 size)

/-- `np_create_txattrcreate` -/
def npCreateTxattrcreate (M : Malloc) (fid : UInt32) (name : Option CStr) (size : UInt64)
    (flag : UInt32) : Option Npfcall :=
  npCreate M (4 + 2 + strlen0 name + 8 + 4) .txattrcreate do
    return .txattrcreate (← bufPutInt32 fid) (← bufPutStr name) (← bufPutInt64 size)
      (← bufPutInt32 flag)

/-- `np_create_rxattrcreate` -/
def npCreateRxattrcreate (M : Malloc) : Option Npfcall :=
  npCreate M 0 .rxattrcreate (return .rxattrcreate)

/-- `np_create_rreaddir`. The data is left to its caller. -/
def npCreateRreaddir (M : Malloc) (count : UInt32) : Option Npfcall :=
  npCreate M (4 + count.toNat) .rreaddir do
    let count ← bufPutInt32 count
    return .rreaddir count (← bufAlloc (asInt count.toNat))

/-- `np_create_treaddir` -/
def npCreateTreaddir (M : Malloc) (fid : UInt32) (offset : UInt64) (count : UInt32)
    : Option Npfcall :=
  npCreate M (4 + 8 + 4) .treaddir do
    return .treaddir (← bufPutInt32 fid) (← bufPutInt64 offset) (← bufPutInt32 count)

/-- `np_create_tfsync` -/
def npCreateTfsync (M : Malloc) (fid datasync : UInt32) : Option Npfcall :=
  npCreate M (4 + 4) .tfsync do
    return .tfsync (← bufPutInt32 fid) (← bufPutInt32 datasync)

/-- `np_create_rfsync` -/
def npCreateRfsync (M : Malloc) : Option Npfcall :=
  npCreate M 0 .rfsync (return .rfsync)

/-- `np_create_tlock` -/
def npCreateTlock (M : Malloc) (fid : UInt32) (type : UInt8) (flags : UInt32)
    (start length : UInt64) (procId : UInt32) (clientId : CStr) : Option Npfcall :=
  npCreate M (4 + 1 + 4 + 2 * 8 + 4 + 2 + clientId.strlen) .tlock do
    return .tlock (← bufPutInt32 fid) (← bufPutInt8 type) (← bufPutInt32 flags)
      (← bufPutInt64 start) (← bufPutInt64 length) (← bufPutInt32 procId)
      (← bufPutStr (some clientId))

/-- `np_create_rlock` -/
def npCreateRlock (M : Malloc) (status : UInt8) : Option Npfcall :=
  npCreate M 1 .rlock do
    return .rlock (← bufPutInt8 status)

/-- `np_create_tgetlock` -/
def npCreateTgetlock (M : Malloc) (fid : UInt32) (type : UInt8) (start length : UInt64)
    (procId : UInt32) (clientId : CStr) : Option Npfcall :=
  npCreate M (4 + 1 + 2 * 8 + 4 + 2 + clientId.strlen) .tgetlock do
    return .tgetlock (← bufPutInt32 fid) (← bufPutInt8 type) (← bufPutInt64 start)
      (← bufPutInt64 length) (← bufPutInt32 procId) (← bufPutStr (some clientId))

/-- `np_create_rgetlock` -/
def npCreateRgetlock (M : Malloc) (type : UInt8) (start length : UInt64) (procId : UInt32)
    (clientId : CStr) : Option Npfcall :=
  npCreate M (1 + 2 * 8 + 4 + 2 + clientId.strlen) .rgetlock do
    return .rgetlock (← bufPutInt8 type) (← bufPutInt64 start) (← bufPutInt64 length)
      (← bufPutInt32 procId) (← bufPutStr (some clientId))

/-- `np_create_tlink` -/
def npCreateTlink (M : Malloc) (dfid fid : UInt32) (name : CStr) : Option Npfcall :=
  npCreate M (2 * 4 + 2 + name.strlen) .tlink do
    return .tlink (← bufPutInt32 dfid) (← bufPutInt32 fid) (← bufPutStr (some name))

/-- `np_create_rlink` -/
def npCreateRlink (M : Malloc) : Option Npfcall :=
  npCreate M 0 .rlink (return .rlink)

/-- `np_create_tmkdir` -/
def npCreateTmkdir (M : Malloc) (fid : UInt32) (name : CStr) (mode gid : UInt32)
    : Option Npfcall :=
  npCreate M (4 + 2 + name.strlen + 4 + 4) .tmkdir do
    return .tmkdir (← bufPutInt32 fid) (← bufPutStr (some name)) (← bufPutInt32 mode)
      (← bufPutInt32 gid)

/-- `np_create_rmkdir` -/
def npCreateRmkdir (M : Malloc) (qid : Npqid) : Option Npfcall :=
  npCreate M QIDSIZE .rmkdir do
    return .rmkdir (← bufPutQid qid)

/-- `np_create_trenameat` -/
def npCreateTrenameat (M : Malloc) (olddirfid : UInt32) (oldname : CStr) (newdirfid : UInt32)
    (newname : CStr) : Option Npfcall :=
  npCreate M (4 + 2 + oldname.strlen + 4 + 2 + newname.strlen) .trenameat do
    return .trenameat (← bufPutInt32 olddirfid) (← bufPutStr (some oldname))
      (← bufPutInt32 newdirfid) (← bufPutStr (some newname))

/-- `np_create_rrenameat` -/
def npCreateRrenameat (M : Malloc) : Option Npfcall :=
  npCreate M 0 .rrenameat (return .rrenameat)

/-- `np_create_tunlinkat` -/
def npCreateTunlinkat (M : Malloc) (dirfid : UInt32) (name : CStr) (flags : UInt32)
    : Option Npfcall :=
  npCreate M (4 + 2 + name.strlen + 4) .tunlinkat do
    return .tunlinkat (← bufPutInt32 dirfid) (← bufPutStr (some name)) (← bufPutInt32 flags)

/-- `np_create_runlinkat` -/
def npCreateRunlinkat (M : Malloc) : Option Npfcall :=
  npCreate M 0 .runlinkat (return .runlinkat)

/-- `np_create_rflush_static` -/
def npCreateRflushStatic (junk : ℕ → UInt8) (room : ℕ) : Option Npfcall :=
  npCreateStatic junk room 0 .rflush (return .rflush)

/-- `np_create_rlerror_static` -/
def npCreateRlerrorStatic (junk : ℕ → UInt8) (room : ℕ) (ecode : UInt32) : Option Npfcall :=
  npCreateStatic junk room 4 .rlerror do return .rlerror (← bufPutInt32 ecode)

/-! ### Changing a packet -/

/-- `np_set_tag` -/
def npSetTag (fc : Npfcall) (tag : UInt16) : Npfcall :=
  { fc with tag, pkt := storeAt fc.pkt 5 (shrBytes 2 tag.toNat) }

/-- Put a size and a count over those of a packet. -/
def bufPutCount (size count : UInt32) : BufM (UInt32 × UInt32) := do
  bufInit 0 (asInt size.toNat)
  let size ← bufPutInt32 size
  bufInit 7 (asInt size.toNat - 7)
  return (size, ← bufPutInt32 count)

/-- What `np_set_rread_count` and `np_finalize_rreaddir` share: a packet of `cap`
bytes of data is cut to its first `count`. -/
def npSetCount (fc : Npfcall) (cap count : UInt32) (u : UInt32 → Fcall Npstr (Option ℤ)) :
    Option Npfcall :=
  -- NP_ASSERT (count <= fc->u.rread.count)
  if count ≤ cap then
    (bufPutCount (.ofNat (4 + 1 + 2 + 4 + count.toNat)) count ⟨fc.pkt, 0, 0⟩).map
      fun ((size, count), b) => { fc with size, pkt := b.mem, u := u count }
  else none

/-- `np_set_rread_count` -/
def npSetRreadCount (fc : Npfcall) (count : UInt32) : Option Npfcall :=
  match fc.u with
  | .rread cap data => npSetCount fc cap count fun count => .rread count data
  | _ => none

/-- `np_finalize_rreaddir` -/
def npFinalizeRreaddir (fc : Npfcall) (count : UInt32) : Option Npfcall :=
  match fc.u with
  | .rreaddir cap data => npSetCount fc cap count fun count => .rreaddir count data
  | _ => none

/-- The bytes of a packet that are sent: `np_fdtrans_send` writes `fc->size` of
them. -/
def Npfcall.packet (fc : Npfcall) : Bytes := fc.pkt.take fc.size.toNat

/-! ### One constructor for each message -/

/-- **The constructor of a message**, applied to its fields. A string is `NULL` or a
C string, and `NULL` is only passed where the constructor looks for it. The data of
an `Rreaddir` is filled in behind `np_create_rreaddir`. -/
def create (M : Malloc) : Fcall (Option CStr) Bytes → Option Npfcall
  | .rlerror ecode => npCreateRlerror M ecode
  | .tstatfs fid => npCreateTstatfs M fid
  | .rstatfs a => npCreateRstatfs M a
  | .tlopen fid flags => npCreateTlopen M fid flags
  | .rlopen qid iounit => npCreateRlopen M qid iounit
  | .tlcreate fid name flags mode gid =>
      name.bind fun name => npCreateTlcreate M fid name flags mode gid
  | .rlcreate qid iounit => npCreateRlcreate M qid iounit
  | .tsymlink fid name symtgt gid =>
      name.bind fun name => symtgt.bind fun symtgt => npCreateTsymlink M fid name symtgt gid
  | .rsymlink qid => npCreateRsymlink M qid
  | .tmknod fid name mode major minor gid =>
      name.bind fun name => npCreateTmknod M fid name mode major minor gid
  | .rmknod qid => npCreateRmknod M qid
  | .trename fid dfid name => name.bind fun name => npCreateTrename M fid dfid name
  | .rrename => npCreateRrename M
  | .treadlink fid => npCreateTreadlink M fid
  | .rreadlink target => target.bind fun target => npCreateRreadlink M target
  | .tgetattr fid requestMask => npCreateTgetattr M fid requestMask
  | .rgetattr a => npCreateRgetattr M a
  | .tsetattr a => npCreateTsetattr M a
  | .rsetattr => npCreateRsetattr M
  | .txattrwalk fid attrfid name => npCreateTxattrwalk M fid attrfid name
  | .rxattrwalk size => npCreateRxattrwalk M size
  | .txattrcreate fid name size flag => npCreateTxattrcreate M fid name size flag
  | .rxattrcreate => npCreateRxattrcreate M
  | .treaddir fid offset count => npCreateTreaddir M fid offset count
  | .rreaddir count data => (npCreateRreaddir M count).map fun fc => fc.fill data
  | .tfsync fid datasync => npCreateTfsync M fid datasync
  | .rfsync => npCreateRfsync M
  | .tlock fid type flags start length procId clientId =>
      clientId.bind fun clientId => npCreateTlock M fid type flags start length procId clientId
  | .rlock status => npCreateRlock M status
  | .tgetlock fid type start length procId clientId =>
      clientId.bind fun clientId => npCreateTgetlock M fid type start length procId clientId
  | .rgetlock type start length procId clientId =>
      clientId.bind fun clientId => npCreateRgetlock M type start length procId clientId
  | .tlink dfid fid name => name.bind fun name => npCreateTlink M dfid fid name
  | .rlink => npCreateRlink M
  | .tmkdir fid name mode gid => name.bind fun name => npCreateTmkdir M fid name mode gid
  | .rmkdir qid => npCreateRmkdir M qid
  | .trenameat olddirfid oldname newdirfid newname =>
      oldname.bind fun oldname => newname.bind fun newname =>
        npCreateTrenameat M olddirfid oldname newdirfid newname
  | .rrenameat => npCreateRrenameat M
  | .tunlinkat dirfid name flags => name.bind fun name => npCreateTunlinkat M dirfid name flags
  | .runlinkat => npCreateRunlinkat M
  | .tversion msize version => version.bind fun version => npCreateTversion M msize version
  | .rversion msize version => npCreateRversion M msize version
  | .tauth afid uname aname nUname => npCreateTauth M afid uname aname nUname
  | .rauth qid => npCreateRauth M qid
  | .tattach fid afid uname aname nUname => npCreateTattach M fid afid uname aname nUname
  | .rattach qid => npCreateRattach M qid
  | .tflush oldtag => npCreateTflush M oldtag
  | .rflush => npCreateRflush M
  | .twalk fid newfid wnames => (wnames.mapM id).bind (npCreateTwalk M fid newfid)
  | .rwalk wqids => npCreateRwalk M wqids
  | .tread fid offset count => npCreateTread M fid offset count
  | .rread count data => npCreateRread M count data
  | .twrite fid offset count data => npCreateTwrite M fid offset count data
  | .rwrite count => npCreateRwrite M count
  | .tclunk fid => npCreateTclunk M fid
  | .rclunk => npCreateRclunk M
  | .tremove fid => npCreateTremove M fid
  | .rremove => npCreateRremove M

end Diod
