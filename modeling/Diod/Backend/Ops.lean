import Diod.Backend.Xattr
import Diod.Backend.Exports
import Diod.Wire.Format

/-!
# The operations of the file server

`diod_ops.c` and `diod_fid.c`. Each operation acts on the fid it is given, which is
the `f` of its state; a second fid, where there is one, is only read. The result is
the reply. An operation that stops has set the error number, and has undone what it
did as far as the source does.

The operations that make a file (`symlink`, `mknod`, `mkdir`) differ in the call they
make and in how they take it back, and are instances of `Diod.Op.diodMake`.
-/

namespace Diod

namespace Op

variable {σ α : Type} (H : Host σ) (C : Conf)

/-! ### Fids -/

/-- `diod_fidclone`: the path is shared, and the flags are copied. -/
def diodFidclone : Prog (Ost σ DiodFid) DiodFid := do
  let f ← fid
  allocOr H ENOMEM
  let p ← pathIncref f.path
  pure { f with path := p, ioctx := none, xattr := none }

/-- `diod_fiddestroy`, without freeing the fid. -/
def diodFiddestroy : Prog (Ost σ DiodFid) Unit := do
  let f ← fid
  .when f.ioctx.isSome do
    let _ ← ioctxClose H false
  .when f.xattr.isSome do
    let _ ← xattrClose H
  pathDecref f.path

/-- Run an operation on another fid, which is handed back. -/
def onFid (nf : DiodFid) (x : Prog (Ost σ DiodFid) α) :
    Prog (Ost σ DiodFid) (α × DiodFid) := fun o =>
  match x { o with f := nf } with
  | (.ok a, o') => (.ok (a, o'.f), { o' with f := o.f })
  | (.stop, o') => (.stop, { o' with f := o.f })
  | (.crash, o') => (.crash, { o' with f := o.f })

/-! ### Attaching and walking -/

/-- `diod_fidalloc`, on a fid that is there -/
def diodFidalloc (ns : Bytes) : Prog (Ost σ DiodFid) Path := do
  allocOr H ENOMEM
  match ← (pathCreate H ns).attempt with
  | none => fail ENOMEM
  | some p => do
    setFid fun _ => ⟨p, none, none, false, false, false⟩
    pure p

/-- What `diod_attach` does with the new fid. -/
def attachStat (uid : UInt32) (aname : Bytes) (p : Path) : Prog (Ost σ DiodFid) Msg := do
  failIf (C.runasuid.any (· ≠ uid)) EPERM
  let m ← malloc H
  .when (m.isSome ∧ (C.diodFetchXflags aname).any (· &&& XFLAGS_SHAREFD ≠ 0)) <|
    setFid fun f => { f with sharefd := true }
  let r ← sysOr H (.stat p.s)
  allocOr H ENOMEM
  pure (.rattach (diodUstat2qid r.st))

/-- `diod_attach`, by a user with this uid -/
def diodAttach (uid : UInt32) (aname : Bytes) : Prog (Ost σ DiodFid) Msg := do
  let p ← diodFidalloc H aname
  Prog.done (attachStat H C uid aname p) fun r => .when r.isNone (diodFiddestroy H)

/-- `diod_clone` -/
def diodClone : Prog (Ost σ DiodFid) DiodFid := diodFidclone H

/-- The last component of a path. -/
def basename (path : Bytes) : Bytes := (path.reverse.takeWhile (· ≠ 47)).reverse

/-- `_statmnt`. An error is the one it sets, and the `errno` it leaves behind. -/
def statmnt (path : Bytes) : Prog (Ost σ DiodFid) (Except (ℕ × ℕ) Stat) := do
  let r ← syscall H (.stat path)
  if r.err ≠ 0 then
    return .error (r.err, r.err)
  if (← malloc H).isNone then
    return .error (ENOMEM, ENOMEM)
  let ppath := path ++ [47, 46, 46]
  let rp ← syscall H (.stat ppath)
  if rp.err ≠ 0 then
    return .error (rp.err, rp.err)
  let d ← syscall H (.opendir ppath)
  if d.err ≠ 0 then
    return .error (d.err, d.err)
  let e ← syscall H (.readdir d.num 0)
  let _ ← syscall H (.closedir d.num)
  match e.ents.find? fun d => d.name == basename path with
  | some dp => return .ok { r.st with dev := rp.st.dev, ino := dp.ino }
  | none =>
    -- at the end of the directory `errno` is 0
    return .error (if e.err ≠ 0 then e.err else ENOENT, e.err)

/-- What `diod_walk` finds out about the file, which may be on another file system than
its directory. -/
def walkStat (npath : Path) (st : Stat) (dev : UInt64) : Prog (Ost σ DiodFid) Stat :=
  if st.dev ≠ dev then do
    match ← statmnt H npath.s with
    | .ok st => do
      setFid fun f => { f with mountpt := true }
      pure st
    | .error (e, _) => fail e
  else pure st

/-- `diod_walk` -/
def diodWalk (wname : Bytes) : Prog (Ost σ DiodFid) Npqid := do
  let f ← fid
  failIf f.mountpt ENOENT
  let npath ← pathAppendOr H f.path wname
  Prog.done (do
    let r ← sysOr H (.lstat npath.s)
    let r2 ← sysOr H (.stat f.path.s)
    let st ← walkStat H npath r.st r2.st.dev
    pathDecref f.path
    setFid fun f => { f with path := npath }
    pure (diodUstat2qid st)) fun r => .when r.isNone (pathDecref npath)

/-! ### Reading and writing -/

/-- `f->ioctx` -/
def ioctx : Prog (Ost σ DiodFid) IOCtx := do
  let f ← fid
  match f.ioctx with
  | some i => derefIoctx i
  | none => .crash

/-- `if (!f->ioctx) { np_uerror (EBADF); goto error; }` -/
def openOr : Prog (Ost σ DiodFid) IOCtx := do
  let f ← fid
  failIf f.ioctx.isNone EBADF
  ioctx

theorem openOr_of_get {o : Ost σ DiodFid} {i : ℕ} {x : IOCtx} (hi : o.f.ioctx = some i)
    (hx : o.ioctxs.get i = some x) : openOr o = (.ok x, o) := by
  rw [openOr, fid_bind, Prog.bind_of_ok (failIf_of_not (by simp [hi]) _ _), ioctx, fid_bind, hi]
  exact derefIoctx_of_get hx

/-- What `diod_read` and `diod_write` check first. -/
def openOrXattr : Prog (Ost σ DiodFid) Unit := do
  let f ← fid
  failIf (f.ioctx.isNone ∧ ¬f.isXattr) EBADF

/-- The attribute or the descriptor they act on. -/
def xattrOrIoctx : Prog (Ost σ DiodFid) (Xattr ⊕ IOCtx) := do
  let f ← fid
  if f.isXattr then
    match f.xattr with
    | some x => pure (.inl x)
    | none => .crash
  else do
    let x ← ioctx
    pure (.inr x)

/-- Read from an attribute or a descriptor. -/
def readFrom (offset : UInt64) (count : UInt32) : Xattr ⊕ IOCtx → Prog (Ost σ DiodFid) Bytes
  | .inl x =>
    match xattrPread x count offset with
    | .ok data => pure data
    | .error e => fail e
  | .inr x => do
    let r ← sysOr H (.pread x.fd count offset)
    pure r.data

/-- `diod_read` -/
def diodRead (offset : UInt64) (count : UInt32) : Prog (Ost σ DiodFid) Msg := do
  openOrXattr
  allocOr H ENOMEM
  let data ← readFrom H offset count (← xattrOrIoctx)
  pure (.rread (.ofNat data.length) data)

/-- Write to an attribute or a descriptor. -/
def writeTo (offset : UInt64) (data : Bytes) : Xattr ⊕ IOCtx → Prog (Ost σ DiodFid) ℕ
  | .inl x =>
    match xattrPwrite x data offset with
    | .ok (x, n) => do
      setFid fun f => { f with xattr := some x }
      pure n
    | .error e => fail e
  | .inr x => do
    let r ← sysOr H (.pwrite x.fd data offset)
    pure r.num

/-- `diod_write` -/
def diodWrite (offset : UInt64) (data : Bytes) : Prog (Ost σ DiodFid) Msg := do
  openOrXattr
  let n ← writeTo H offset data (← xattrOrIoctx)
  allocOr H ENOMEM
  pure (.rwrite (.ofNat n))

/-- What `diod_clunk` closes. -/
def clunkClose (f : DiodFid) : Prog (Ost σ DiodFid) Bool :=
  if f.isXattr then xattrClose H
  else if f.ioctx.isSome then ioctxClose H true
  else pure true

/-- `diod_clunk` -/
def diodClunk : Prog (Ost σ DiodFid) Msg := do
  let f ← fid
  let ok ← clunkClose H f
  .when (ok = false) .stop
  allocOr H ENOMEM
  pure .rclunk

/-- `diod_fsync` -/
def diodFsync (datasync : UInt32) : Prog (Ost σ DiodFid) Msg := do
  let x ← openOr
  let _ ← sysOr H (if datasync ≠ 0 then .fdatasync x.fd else .fsync x.fd)
  allocOr H ENOMEM
  pure .rfsync

/-! ### Opening and creating -/

/-- `dotl_oflag_map`: the flags of the host, with those of the protocol. On a 64-bit
host `O_LARGEFILE` is 0. -/
def dotlOflagMap : List (UInt32 × UInt32) :=
  [(O_CREAT, 0o100), (0x80, 0o200), (0x100, 0o400), (O_TRUNC, 0o1000), (0x400, 0o2000),
    (0x800, 0o4000), (0x1000, 0o10000), (0x2000, 0o20000), (O_DIRECT, 0o40000), (0, 0o100000),
    (0x10000, 0o200000), (0x20000, 0o400000), (0x40000, 0o1000000), (0x80000, 0o2000000),
    (0x101000, 0o4000000)]

/-- `_remap_oflags` -/
def remapOflags (flags : UInt32) : UInt32 :=
  dotlOflagMap.foldl (fun r m => if flags &&& m.2 ≠ 0 then r ||| m.1 else r) (flags &&& 3)

/-- `diod_lopen`, by a user with this uid -/
def diodLopen (uid : UInt32) (flags : UInt32) : Prog (Ost σ DiodFid) Msg := do
  let flags := remapOflags flags
  failIf (flags &&& O_DIRECT ≠ 0) EINVAL
  let flags := flags &&& ~~~O_CREAT
  let f ← fid
  failIf f.ioctx.isSome EINVAL
  let i ← ioctxOpen H uid flags 0
  let x ← derefIoctx i
  match ← malloc H with
  | some _ => pure (.rlopen x.qid x.iounit)
  | none => do
    let _ ← ioctxClose H false
    fail ENOMEM

/-- What `diod_lcreate` does with the fid at its new path. -/
def lcreateOpen (uid : UInt32) (opath npath : Path) (flags mode : UInt32) :
    Prog (Ost σ DiodFid) Msg := do
  let i ← ioctxOpen H uid flags mode
  let x ← derefIoctx i
  match ← malloc H with
  | some _ => do
    pathDecref opath
    pure (.rlcreate x.qid x.iounit)
  | none => do
    let _ ← ioctxClose H false
    let _ ← syscall H (.unlink npath.s)
    fail ENOMEM

/-- The part of `diod_lcreate` that has to put the fid back from `npath` if it fails. -/
def lcreateAt (uid : UInt32) (opath npath : Path) (flags mode : UInt32) :
    Prog (Ost σ DiodFid) Msg := do
  setFid fun f => { f with path := npath }
  Prog.done (lcreateOpen H uid opath npath flags mode) fun r => .when r.isNone do
    pathDecref npath
    setFid fun f => { f with path := opath }

/-- `diod_lcreate`, by a user with this uid -/
def diodLcreate (uid : UInt32) (name : Bytes) (flags mode : UInt32) : Prog (Ost σ DiodFid) Msg := do
  let flags := remapOflags flags
  failIf (flags &&& O_DIRECT ≠ 0) EINVAL
  let flags := flags ||| O_CREAT
  let f ← fid
  failIf f.ioctx.isSome EINVAL
  let npath ← pathAppendOr H f.path name
  lcreateAt H uid f.path npath flags mode

/-- What the operations that make a file in a directory share. -/
def diodMake (name : Bytes) (prepare : Prog (Ost σ DiodFid) Unit) (make undo : Bytes → HostCall)
    (reply : Npqid → Msg) : Prog (Ost σ DiodFid) Msg := do
  let f ← fid
  let npath ← pathAppendOr H f.path name
  Prog.done (do
    prepare
    let _ ← sysOr H (make npath.s)
    let r ← sysOr H (.lstat npath.s)
    match ← malloc H with
    | some _ => pure (reply (diodUstat2qid r.st))
    | none => do
      let _ ← syscall H (undo npath.s)
      fail ENOMEM) fun _ => pathDecref npath

/-- `diod_symlink` -/
def diodSymlink (name symtgt : Bytes) : Prog (Ost σ DiodFid) Msg :=
  diodMake H name (allocOr H ENOMEM) (.symlink (cstr symtgt)) .unlink .rsymlink

/-- `diod_mknod` -/
def diodMknod (name : Bytes) (mode major minor : UInt32) : Prog (Ost σ DiodFid) Msg :=
  diodMake H name (pure ()) (fun p => .mknod p mode major minor) .unlink .rmknod

/-- `diod_mkdir` -/
def diodMkdir (name : Bytes) (mode : UInt32) : Prog (Ost σ DiodFid) Msg :=
  diodMake H name (pure ()) (fun p => .mkdir p mode) .rmdir .rmkdir

/-- `diod_link`, of the fid into the directory `d` -/
def diodLink (d : DiodFid) (name : Bytes) : Prog (Ost σ DiodFid) Msg := do
  let f ← fid
  let npath ← pathAppendOr H d.path name
  Prog.done (do
    let _ ← sysOr H (.link f.path.s npath.s)
    match ← malloc H with
    | some _ => pure .rlink
    | none => do
      let _ ← syscall H (.unlink npath.s)
      fail ENOMEM) fun _ => pathDecref npath

/-! ### Removing and renaming -/

/-- `diod_remove` -/
def diodRemove : Prog (Ost σ DiodFid) Msg := do
  let f ← fid
  let _ ← sysOr H (.remove f.path.s)
  allocOr H ENOMEM
  pure .rremove

/-- The way back when there is no memory for the reply of `diod_rename`. Whether it
succeeds is not looked at. -/
def renameBack (opath npath : Path) : Prog (Ost σ DiodFid) Msg := do
  let _ ← syscall H (.rename npath.s opath.s)
  fail ENOMEM

/-- `diod_rename`, of the fid into the directory `d` -/
def diodRename (d : DiodFid) (name : Bytes) : Prog (Ost σ DiodFid) Msg := do
  let f ← fid
  let npath ← pathAppendOr H d.path name
  Prog.done (do
    let _ ← sysOr H (.rename f.path.s npath.s)
    match ← malloc H with
    | some _ => do
      pathDecref f.path
      setFid fun f => { f with path := npath }
      pure .rrename
    | none => renameBack H f.path npath) fun r => .when r.isNone (pathDecref npath)

/-- `diod_renameat`, from the directory of the fid into the directory `d` -/
def diodRenameat (oldname : Bytes) (d : DiodFid) (newname : Bytes) : Prog (Ost σ DiodFid) Msg := do
  let f ← fid
  let opath ← pathAppendOr H f.path oldname
  Prog.done (do
    let npath ← pathAppendOr H d.path newname
    Prog.done (do
      let _ ← sysOr H (.rename opath.s npath.s)
      allocOr H ENOMEM
      pure .rrenameat) fun _ => pathDecref npath) fun _ => pathDecref opath

/-- `Uremovedir` -/
def Uremovedir : UInt32 := 0x200

/-- `diod_unlinkat` -/
def diodUnlinkat (name : Bytes) (flags : UInt32) : Prog (Ost σ DiodFid) Msg := do
  let f ← fid
  let rpath ← pathAppendOr H f.path name
  Prog.done (do
    let r ← sysOr H (.lstat rpath.s)
    failIf (r.st.isDir ∧ flags &&& Uremovedir = 0) EISDIR
    let _ ← sysOr H (if r.st.isDir then .rmdir rpath.s else .unlink rpath.s)
    allocOr H ENOMEM
    pure .runlinkat) fun _ => pathDecref rpath

/-! ### Attributes -/

/-- `V9FS_MAGIC` -/
def V9FS_MAGIC : UInt32 := 0x01021997

/-- The type that `diod_statfs` reports. -/
def statfsType (path : Bytes) : Prog (Ost σ DiodFid) UInt32 :=
  if C.statfsPassthru then do
    let r ← sysOr H (.statfs path)
    pure r.vfs.type
  else pure V9FS_MAGIC

/-- `diod_statfs` -/
def diodStatfs : Prog (Ost σ DiodFid) Msg := do
  let f ← fid
  let r ← sysOr H (.statvfs f.path.s)
  let type ← statfsType H C f.path.s
  allocOr H ENOMEM
  let v := r.vfs
  pure (.rstatfs ⟨type, v.bsize, v.blocks, v.bfree, v.bavail, v.files, v.ffree, v.fsid, v.namemax⟩)

/-- `diod_readlink` -/
def diodReadlink : Prog (Ost σ DiodFid) Msg := do
  let f ← fid
  let r ← sysOr H (.readlink f.path.s)
  allocOr H ENOMEM
  pure (.rreadlink (cstr r.data))

/-- `_lstat`, `_chmod`, `_lchown`, `_truncate` and `_utimensat`: the call on the
descriptor when the fid is open, and on the path when it is not. -/
def onFile (path : Bytes → HostCall) (fd : ℕ → HostCall) : Prog (Ost σ DiodFid) HostReply := do
  let f ← fid
  match f.ioctx with
  | some i => do
    let x ← derefIoctx i
    sysOr H (fd x.fd)
  | none => sysOr H (path f.path.s)

/-- What `diod_getattr` reports. What `_statmnt` leaves in `errno` becomes the error. -/
def getattrStat (f : DiodFid) : Prog (Ost σ DiodFid) Stat :=
  if f.mountpt then do
    match ← statmnt H f.path.s with
    | .ok st => pure st
    | .error (_, errno) => fail errno
  else do
    let r ← onFile H .lstat .fstat
    pure r.st

/-- `diod_getattr` -/
def diodGetattr (requestMask : UInt64) : Prog (Ost σ DiodFid) Msg := do
  let f ← fid
  let st ← getattrStat H f
  allocOr H ENOMEM
  pure (.rgetattr {
    valid := requestMask, qid := diodUstat2qid st, mode := st.mode, uid := st.uid, gid := st.gid,
    nlink := st.nlink, rdev := st.rdev, size := st.size, blksize := st.blksize,
    blocks := st.blocks, atimeSec := st.atimeSec, atimeNsec := st.atimeNsec,
    mtimeSec := st.mtimeSec, mtimeNsec := st.mtimeNsec, ctimeSec := st.ctimeSec,
    ctimeNsec := st.ctimeNsec, btimeSec := 0, btimeNsec := 0, gen := 0, dataVersion := 0 })

/-- The time that `diod_setattr` asks for: the one given, now (`UTIME_NOW`), or none
(`UTIME_OMIT`). -/
def setattrTime (valid set : Bool) (sec nsec : UInt64) : Timespec :=
  if !valid then ⟨0, 0x3ffffffe⟩ else if !set then ⟨0, 0x3fffffff⟩ else ⟨sec, nsec⟩

/-- `Samode` and the other bits of the `valid` of a `Tsetattr` -/
def Samode : UInt32 := 0x1

@[inherit_doc Samode] def Sauid : UInt32 := 0x2

@[inherit_doc Samode] def Sagid : UInt32 := 0x4

@[inherit_doc Samode] def Sasize : UInt32 := 0x8

@[inherit_doc Samode] def Saatime : UInt32 := 0x10

@[inherit_doc Samode] def Samtime : UInt32 := 0x20

@[inherit_doc Samode] def Sactime : UInt32 := 0x40

@[inherit_doc Samode] def Saatimeset : UInt32 := 0x80

@[inherit_doc Samode] def Samtimeset : UInt32 := 0x100

/-- `diod_setattr` -/
def diodSetattr (a : Nptsetattr) : Prog (Ost σ DiodFid) Msg := do
  let valid (bit : UInt32) : Bool := a.valid &&& bit ≠ 0
  .when (valid Samode) do
    let _ ← onFile H (.chmod · a.mode) (.fchmod · a.mode)
  let uid := if valid Sauid then a.uid else 0xffffffff
  let gid := if valid Sagid then a.gid else 0xffffffff
  .when (valid Sauid || valid Sagid) do
    let _ ← onFile H (.lchown · uid gid) (.fchown · uid gid)
  .when (valid Sasize) do
    let _ ← onFile H (.truncate · a.size) (.ftruncate · a.size)
  let atime := setattrTime (valid Saatime) (valid Saatimeset) a.atimeSec a.atimeNsec
  let mtime := setattrTime (valid Samtime) (valid Samtimeset) a.mtimeSec a.mtimeNsec
  .when (valid Saatime || valid Samtime) do
    let _ ← onFile H (.utimensat · atime mtime) (.futimens · atime mtime)
  let ctimeUpdated := valid Samode || valid Sauid || valid Sagid || valid Sasize ||
    valid Saatime || valid Samtime
  .when (valid Sactime && !ctimeUpdated) do
    let _ ← onFile H (.lchown · 0xffffffff 0xffffffff) (.fchown · 0xffffffff 0xffffffff)
  allocOr H ENOMEM
  pure .rsetattr

/-- Read an attribute, on the fid that is to have it. -/
def xattrwalkFill (name : Bytes) : Prog (Ost σ DiodFid) Msg := do
  let size ← xattrOpen H name
  setFid fun f => { f with isXattr := true }
  allocOr H ENOMEM
  pure (.rxattrwalk (.ofNat size))

/-- The same, where the fid is destroyed on an error. -/
def xattrwalkOpen (name : Bytes) : Prog (Ost σ DiodFid) Msg :=
  Prog.done (xattrwalkFill H name) fun r => .when r.isNone (diodFiddestroy H)

/-- `diod_xattrwalk`: the reply, and the fid of the attribute. -/
def diodXattrwalk (name : Bytes) : Prog (Ost σ DiodFid) (Msg × DiodFid) := do
  let nf ← diodFidclone H
  onFid nf (xattrwalkOpen H name)

/-- `diod_xattrcreate` -/
def diodXattrcreate (name : Bytes) (size : UInt64) (flags : UInt32) : Prog (Ost σ DiodFid) Msg := do
  xattrCreate H name size.toNat flags
  setFid fun f => { f with isXattr := true }
  allocOr H ENOMEM
  pure .rxattrcreate

/-! ### Directories and locks -/

/-- `np_serialize_p9dirent`: nothing, when it does not fit. The space that is left is
passed as an `int`. -/
def npSerializeP9dirent (qid : Npqid) (offset : UInt64) (type : UInt8) (name : Bytes)
    (buflen : ℕ) : Bytes :=
  let bs := Npqid.codec.enc qid ++ leBytes 8 offset.toNat ++ leBytes 1 type.toNat ++
    leBytes 2 name.length ++ name
  if (bs.length : ℤ) ≤ asInt buflen then bs else []

/-- `DT_UNKNOWN`, `DT_DIR`, `DT_REG` and `DT_LNK` -/
def DT_UNKNOWN : UInt8 := 0

@[inherit_doc DT_UNKNOWN] def DT_DIR : UInt8 := 4

@[inherit_doc DT_UNKNOWN] def DT_REG : UInt8 := 8

@[inherit_doc DT_UNKNOWN] def DT_LNK : UInt8 := 10

/-- `_dirent2qid` -/
def dirent2qid (d : Dirent) : Npqid where
  path := d.ino
  version := 0
  type := if d.type = DT_DIR then Qtdir else if d.type = DT_LNK then Qtsymlink else Qtfile

/-- `_copy_dirent_linux` -/
def copyDirentLinux (d : Dirent) (buflen : ℕ) : Prog (Ost σ DiodFid) Bytes := do
  let f ← fid
  if d.type = DT_UNKNOWN then do
    let r ← syscall H (.lstat (f.path.s ++ 47 :: d.name))
    if r.err ≠ 0 then do
      npUerror r.err
      pure []
    else pure (npSerializeP9dirent (diodUstat2qid r.st) d.off d.type d.name buflen)
  else pure (npSerializeP9dirent (dirent2qid d) d.off d.type d.name buflen)

/-- The loop of `_read_dir_linux` over the entries, with the error that ends them. -/
def readDirLoop (count err : ℕ) : List Dirent → Bytes → Prog (Ost σ DiodFid) Bytes
  | [], bs => do
    .when (err ≠ 0) (npUerror err)
    pure bs
  | d :: ds, bs => do
    let f ← fid
    if f.mountpt ∧ d.name ≠ [46] ∧ d.name ≠ [46, 46] then
      if bs.length < count then readDirLoop count err ds bs else pure bs
    else do
      let e ← copyDirentLinux H d (count - bs.length)
      if e = [] then pure bs
      else if (bs ++ e).length < count then readDirLoop count err ds (bs ++ e)
      else pure (bs ++ e)

/-- `_read_dir_linux`, which reports an error through the thread's error number -/
def readDirLinux (x : IOCtx) (offset : UInt64) (count : UInt32) : Prog (Ost σ DiodFid) Bytes :=
  if x.dir then do
    let r ← syscall H (.readdir x.fd offset)
    readDirLoop H count.toNat r.err r.ents []
  else do
    npUerror EINVAL
    pure []

/-- `diod_readdir` -/
def diodReaddir (offset : UInt64) (count : UInt32) : Prog (Ost σ DiodFid) Msg := do
  let x ← openOr
  allocOr H ENOMEM
  let bs ← readDirLinux H x offset count
  let o ← .read
  .when (o.ecode ≠ 0) .stop
  pure (.rreaddir (.ofNat bs.length) bs)

/-- `Lsuccess`, `Lblocked` and `Lerror` -/
def Lsuccess : UInt8 := 0

@[inherit_doc Lsuccess] def Lblocked : UInt8 := 1

@[inherit_doc Lsuccess] def Lerror : UInt8 := 2

/-- `Lrdlck`, `Lwrlck` and `Lunlck` -/
def Lrdlck : UInt8 := 0

@[inherit_doc Lrdlck] def Lwrlck : UInt8 := 1

@[inherit_doc Lrdlck] def Lunlck : UInt8 := 2

/-- `ioctx_flock`: the error. -/
def ioctxFlock (i : ℕ) (type flags : ℕ) : Prog (Ost σ DiodFid) ℕ := do
  let x ← derefIoctx i
  let r ← syscall H (.flock x.fd (type + flags))
  .when (r.err = 0) <| setIoctx i fun y => { y with lockType := type }
  pure r.err

/-- The lock that `diod_lock` asks for. -/
def lockOp (i : ℕ) (type : UInt8) : Prog (Ost σ DiodFid) ℕ :=
  if type = Lunlck then ioctxFlock H i LOCK_UN 0
  else if type = Lrdlck then ioctxFlock H i LOCK_SH LOCK_NB
  else if type = Lwrlck then ioctxFlock H i LOCK_EX LOCK_NB
  else fail EINVAL

/-- `diod_lock` -/
def diodLock (type : UInt8) (flags : UInt32) : Prog (Ost σ DiodFid) Msg := do
  failIf (flags &&& ~~~1 ≠ 0) EINVAL
  let f ← fid
  match f.ioctx with
  | none => fail EBADF
  | some i => do
    let status (e : ℕ) : UInt8 :=
      if e = 0 then Lsuccess else if e = EWOULDBLOCK ∧ type ≠ Lunlck then Lblocked else Lerror
    let e ← lockOp H i type
    allocOr H ENOMEM
    pure (.rlock (status e))

/-- `ioctx_testlock` -/
def ioctxTestlock (x : IOCtx) (type : ℕ) : Prog (Ost σ DiodFid) ℕ := do
  if x.lockType = LOCK_UN then do
    let r ← syscall H (.flock x.fd (type + LOCK_NB))
    if r.err = 0 then do
      let _ ← syscall H (.flock x.fd LOCK_UN)
      pure LOCK_UN
    else pure LOCK_EX
  else pure LOCK_UN

/-- `diod_getlock` -/
def diodGetlock (type : UInt8) (start length : UInt64) (procId : UInt32) (clientId : Bytes) :
    Prog (Ost σ DiodFid) Msg := do
  let x ← openOr
  allocOr H ENOMEM
  failIf (type ≠ Lrdlck ∧ type ≠ Lwrlck) EINVAL
  let ftype ← ioctxTestlock H x (if type = Lrdlck then LOCK_SH else LOCK_EX)
  allocOr H ENOMEM
  let type := if ftype = LOCK_EX then Lwrlck else Lunlck
  pure (.rgetlock type start length procId (cstr clientId))

end Op

end Diod
