import Diod.Npfs.User

/-!
# The handlers of requests

`fcall.c`: what a worker thread does for each type of request. A handler finds the
request's fid in `req->fid`, checks what it may be used for, gives the thread the
credentials of the fid's user and calls the operation of the backend the fid belongs
to. It returns the reply, or stops with an error.

Each check is repeated in each handler, and they do not all make the same ones. What
they share is the last step (`Diod.dispatch`), and what they do at the end with a fid
they looked up (`Diod.withFound`) or made (`Diod.withNew`).
-/

namespace Diod

variable {σ α : Type} (H : Host σ) (S : Npsrv)

/-! ### What handlers share -/

/-- `if (!req->fid) { np_uerror (EIO); goto done; }` -/
def reqPtr : Prog (World σ) ℕ := do
  let w ← .read
  match w.rfid with
  | none => fail EIO
  | some p => pure p

/-- The request's fid. -/
def reqFid : Prog (World σ) (ℕ × Npfid) := do
  let p ← reqPtr
  let f ← deref p
  pure (p, f)

/-- `if (fid->flags & FID_FLAGS_ROFS) { np_uerror (EROFS); goto done; }` -/
def rofsCheck (f : Npfid) : Prog (World σ) Unit := failIf f.rofs EROFS

/-- No gid, to `np_setfsid`. -/
def noGid : UInt32 := 0xffffffff

/-- **The last step of a handler**: a fid of the server itself is left to `ctl`; for any
other the thread takes on its user's credentials and calls the file server. -/
def dispatch (p : ℕ) (f : Npfid) (gid : UInt32) (ctl : Prog (World σ) α)
    (op : Prog (Ost σ DiodFid) α) : Prog (World σ) α :=
  if f.isTmp then ctl
  else do
    npSetfsid H S f.user gid
    auxOp srvAux p op

/-- A second fid, looked up at the start and released at the end. -/
def withFound (n : UInt32) (e : ℕ) (x : ℕ → Prog (World σ) α) : Prog (World σ) α := do
  match ← npFidFind n with
  | none => fail e
  | some p => Prog.done (x p) fun _ => do
    let _ ← npFidDecref H p

/-- A new fid, released at the end if there is no reply. -/
def withNew (p : ℕ) (x : Prog (World σ) α) : Prog (World σ) α :=
  Prog.done x fun rc => .when rc.isNone do
    let _ ← npFidDecref H p

/-- `np_fid_create` in a handler, for the fid `f`. When the number is in use, the name
of the user is printed. -/
def createOr (f : Npfid) (n : UInt32) : Prog (World σ) ℕ := do
  match ← (npFidCreate H S n).attempt with
  | some p => pure p
  | none => do
    let w ← .read
    .when (w.b.ecode = EEXIST) do
      .when f.user.isNone .crash
      npUerror EIO
    .stop

/-! ### Sessions -/

/-- `9P2000.L` -/
def versionName : Bytes := [57, 80, 50, 48, 48, 48, 46, 76]

/-- `np_version`. The size is lowered before the version is looked at. -/
def npVersion (msize : UInt32) (version : Bytes) : Prog (World σ) Msg := do
  failIf (asInt msize.toNat < (IOHDRSZ + 1 : ℕ)) EIO
  let w ← .read
  let msize := if msize > w.conn.msize then w.conn.msize else msize
  .when (msize < w.conn.msize) <|
    .modify fun w => { w with conn := { w.conn with msize := msize } }
  if npStrEq (S.behind versionName) version versionName then do
    allocOr H ENOMEM
    pure (.rversion msize versionName)
  else fail EIO

/-- Make what hangs on a new fid, from `f`. -/
def makeAux {F : Type} (V : AuxView F) (p : ℕ) (f : F) (x : Prog (Ost σ F) α) :
    Prog (World σ) α := fun w =>
  let w := { w with trace := w.trace ++ [.op V.backend []] }
  match runOp [w.uid p] f x w with
  | (.ok a, f', w') =>
    (.ok a, w'.setPool (w'.conn.pool.update p fun g => { g with aux := V.put f' }))
  | (r, _, w') => (r, w')

/-- `np_auth`. The reference taken on the fid is not released on an error. -/
def npAuth (ans : Ans) (uname aname : Bytes) (nUname : UInt32) : Prog (World σ) Msg := do
  if !S.conf.diodAuthRequired ans.mem aname then do
    allocOr H ENOMEM
    pure (.rlerror (.ofNat ENOENT))
  else do
    let p ← reqPtr
    npFidIncref p
    let u ← npAttach2user ans uname nUname
    updateFid p fun f => { f with user := some u }
    updateFid p fun f => { f with type := Qtauth }
    let f ← deref p
    failIf (f.aux ≠ .null) EIO
    makeAux authAux p ⟨none⟩ (Op.startauth H)
    allocOr H ENOMEM
    pure (.rauth ⟨Qtauth, 0, 0⟩)

/-- `np_conn_set_authuser` -/
def npConnSetAuthuser (uid : UInt32) : Prog (World σ) Unit :=
  .modify fun w => { w with conn := { w.conn with authuser := uid } }

/-- `checkauth`, of the fid `q` with the credential -/
def npCheckauth (ans : Ans) (q : ℕ) (uid : UInt32) : Prog (World σ) Unit := do
  let a ← deref q
  failIf (a.aux = .null) EIO
  auxOp authAux q (Op.checkauth uid ans.munge)
  record (.checkauth uid)

/-- Who the user is, and whether to believe it, where authentication is required. -/
def attachAuth (ans : Ans) (p : ℕ) (uname : Bytes) (nUname : UInt32) :
    Option ℕ → Prog (World σ) Unit
  | some q => do
    let a ← deref q
    let u ← npAfid2user S a uname nUname
    updateFid p fun f => { f with user := some u }
    npCheckauth ans q u.uid
    npConnSetAuthuser u.uid
  | none => do
    let u ← npAttach2user ans uname nUname
    updateFid p fun f => { f with user := some u }
    failIf (S.authconn = false) EPERM
    let w ← .read
    failIf (w.conn.authuser = NONUNAME) EPERM
    failIf (w.conn.authuser ≠ 0 ∧ w.conn.authuser ≠ u.uid) EPERM

/-- The same where it is not. -/
def attachNoauth (ans : Ans) (p : ℕ) (uname : Bytes) (nUname : UInt32) :
    Prog (World σ) Unit := do
  let u ← npAttach2user ans uname nUname
  updateFid p fun f => { f with user := some u }
  .when (u.uid = 0) do
    record .rootAttach
    npConnSetAuthuser u.uid

/-- The part of `np_attach` that finds out who the user is, and whether to believe it. -/
def attachUser (ans : Ans) (required : Bool) (p : ℕ) (uname : Bytes) (nUname : UInt32)
    (q : Option ℕ) : Prog (World σ) Unit :=
  if required then attachAuth S ans p uname nUname q else attachNoauth ans p uname nUname

/-- `diod_remapuser` -/
def diodRemapuser (ans : Ans) (p : ℕ) : Prog (World σ) Unit :=
  .when S.conf.allsquash <|
    match ans.squash with
    | .ok u => updateFid p fun f => { f with user := some u }
    | .error e => fail e

/-- `diod_exportok` -/
def diodExportok (ans : Ans) (p : ℕ) : Prog (World σ) Unit := do
  let f ← deref p
  let w ← .read
  match f.aname with
  | none => fail EPERM
  | some aname => do
    failIf (aname = [] ∨ (aname.head? ≠ some 47 ∧ aname ≠ ctlName) ∨ ans.mem = false) EPERM
    match S.conf.diodMatchExports aname w.conn.client with
    | none => fail EPERM
    | some xflags =>
      .when (xflags &&& XFLAGS_RO ≠ 0) (updateFid p fun f => { f with rofs := true })

/-- The part of `np_attach` that attaches. -/
def attachAux (p : ℕ) (aname : Bytes) : Prog (World σ) Msg := do
  let f ← deref p
  if f.aname = some ctlName then do
    let rc ← makeAux ctlAux p ⟨none, none⟩ (Op.npCtlAttach H)
    updateFid p fun f => { f with type := (ctlQid none).type }
    pure rc
  else
    match f.user with
    | none => .crash
    | some u =>
      makeAux srvAux p ⟨⟨0, []⟩, none, none, false, false, false⟩
        (Op.diodAttach H S.conf u.uid aname)

/-- `np_attach`, once the fid to authenticate with is there, or is not needed -/
def npAttachWith (ans : Ans) (p : ℕ) (q : Option ℕ) (uname aname : Bytes) (nUname : UInt32) :
    Prog (World σ) Msg := do
  attachUser S ans (S.conf.diodAuthRequired ans.mem aname) p uname nUname q
  diodRemapuser S ans p
  diodExportok S ans p
  let rc ← attachAux H S p aname
  npFidIncref p
  pure rc

/-- `np_attach` -/
def npAttach (ans : Ans) (afid : UInt32) (uname aname : Bytes) (nUname : UInt32) :
    Prog (World σ) Msg := do
  let p ← reqPtr
  if afid = NOFID then npAttachWith H S ans p none uname aname nUname
  else withFound H afid EPERM fun q => do
    let a ← deref q
    failIf (a.isAuth = false) EPERM
    npAttachWith H S ans p (some q) uname aname nUname

/-! ### Walking -/

/-- What a walk copies from the fid to the new one. The name is copied last, and may
fail. -/
def copyFid (p : ℕ) (f : Npfid) : Prog (World σ) Unit := do
  updateFid p fun g => { g with user := f.user, type := f.type, rofs := f.rofs, zombie := f.zombie }
  match f.aname with
  | none => .crash
  | some aname => do
    allocOr H ENOMEM
    updateFid p fun g => { g with aname := some aname }

/-- The clone of `np_walk`: what hangs on the new fid. -/
def walkClone (p p' : ℕ) (f : Npfid) : Prog (World σ) Unit := do
  if f.isTmp then do
    let c ← auxOp ctlAux p (Op.npCtlClone H)
    updateFid p' fun g => { g with aux := .ctl c }
  else do
    let d ← auxOp srvAux p (Op.diodClone H)
    updateFid p' fun g => { g with aux := .srv d }

/-- One step of a walk. -/
def walkStep (p : ℕ) (wname : Bytes) : Prog (World σ) Npqid := do
  let f ← deref p
  if f.isTmp then auxOp ctlAux p (Op.npCtlWalk S.ctlroot wname)
  else auxOp srvAux p (Op.diodWalk H wname)

/-- The loop of `np_walk`. It ends at the first name that cannot be walked, and behind
anything but a directory. -/
def walkLoop (p : ℕ) : List Bytes → List Npqid → Prog (World σ) (List Npqid)
  | [], wqids => pure wqids
  | wname :: wnames, wqids => do
    match ← (walkStep H S p wname).attempt with
    | none => pure wqids
    | some wqid => do
      updateFid p fun f => { f with type := wqid.type }
      if wnames ≠ [] ∧ wqid.type &&& Qtdir = 0 then pure (wqids ++ [wqid])
      else walkLoop p wnames (wqids ++ [wqid])

/-- The walk itself, on the new fid or in place. There is no error for a reply that
cannot be made. -/
def walkNames (p : ℕ) (wnames : List Bytes) : Prog (World σ) Msg := do
  let f ← deref p
  .when (f.isTmp = false) (npSetfsid H S f.user noGid)
  let wqids ← walkLoop H S p wnames []
  .when (wqids = [] ∧ wnames ≠ []) .stop
  npUerror 0
  let m ← malloc H
  .when m.isNone .stop
  pure (.rwalk wqids)

/-- `np_walk`, up to the new fid, if there is one -/
def npWalkBegin (fid newfid : UInt32) (wnames : List Bytes) : Prog (World σ) (Option ℕ) := do
  let (_, f) ← reqFid
  failIf (wnames.length > MAXWELEM) EIO
  if fid = newfid then pure none
  else do
    let p ← createOr H S f newfid
    pure (some p)

/-- `np_walk`, from there on -/
def npWalkEnd (wnames : List Bytes) (new : Option ℕ) : Prog (World σ) Msg := do
  let (p, f) ← reqFid
  match new with
  | none => walkNames H S p wnames
  | some p' => withNew H p' do
    walkClone H p p' f
    copyFid H p' f
    walkNames H S p' wnames

/-- `np_walk` -/
def npWalk (fid newfid : UInt32) (wnames : List Bytes) : Prog (World σ) Msg := do
  let new ← npWalkBegin H S fid newfid wnames
  npWalkEnd H S wnames new

/-- `np_xattrwalk`, up to the new fid -/
def npXattrwalkBegin (attrfid : UInt32) : Prog (World σ) ℕ := do
  let (_, f) ← reqFid
  createOr H S f attrfid

/-- `np_xattrwalk`, from there on -/
def npXattrwalkEnd (name : Bytes) (p' : ℕ) : Prog (World σ) Msg := do
  let (p, f) ← reqFid
  withNew H p' do
    copyFid H p' f
    let (rc, d) ← dispatch H S p f noGid (fail EPERM) (Op.diodXattrwalk H name)
    updateFid p' fun g => { g with aux := .srv d }
    pure rc

/-- `np_xattrwalk` -/
def npXattrwalk (attrfid : UInt32) (name : Bytes) : Prog (World σ) Msg := do
  let p' ← npXattrwalkBegin H S attrfid
  npXattrwalkEnd H S name p'

/-! ### Reading and writing -/

/-- `readafid`, which is not expected to be called -/
def readafid (f : Npfid) : Prog (World σ) α := do
  record (.op .auth [f.aux.backend])
  fail EIO

/-- `np_read` -/
def npRead (offset : UInt64) (count : UInt32) : Prog (World σ) Msg := do
  let (p, f) ← reqFid
  let w ← .read
  failIf (count.toNat + IOHDRSZ > w.conn.msize.toNat) EIO
  if f.isAuth then do
    let m ← malloc H
    .when m.isNone .stop
    readafid f
  else do
    dispatch H S p f noGid (auxOp ctlAux p (Op.npCtlRead H S.ctlroot offset count))
      (Op.diodRead H offset count)

/-- `np_write` -/
def npWrite (offset : UInt64) (count : UInt32) (data : Bytes) : Prog (World σ) Msg := do
  let (p, f) ← reqFid
  if f.isAuth then do
    failIf (f.aux = .null) EIO
    auxOp authAux p (Op.writeafid H offset data)
    allocOr H ENOMEM
    pure (.rwrite count)
  else do
    rofsCheck f
    let w ← .read
    failIf (count.toNat + IOHDRSZ > w.conn.msize.toNat) EIO
    dispatch H S p f noGid (auxOp ctlAux p (Op.npCtlWrite H count)) (Op.diodWrite H offset data)

/-- `np_clunk`. The thread keeps the credentials it has. -/
def npClunk : Prog (World σ) Msg :=
  Prog.done (do
    let (p, f) ← reqFid
    if f.isAuth then do
      allocOr H ENOMEM
      pure .rclunk
    else if f.isTmp then auxOp ctlAux p (Op.npCtlClunk H)
    else auxOp srvAux p (Op.diodClunk H)) fun _ => npFidDecrefReq H

/-- `np_remove` -/
def npRemove : Prog (World σ) Msg :=
  Prog.done (do
    let (p, f) ← reqFid
    rofsCheck f
    dispatch H S p f noGid (fail EPERM) (Op.diodRemove H)) fun _ => npFidDecrefReq H

/-- `np_readdir`. The sum is one of 32 bits. -/
def npReaddir (offset : UInt64) (count : UInt32) : Prog (World σ) Msg := do
  let (p, f) ← reqFid
  let w ← .read
  failIf (count + .ofNat DIRHDRSZ > w.conn.msize) EIO
  dispatch H S p f noGid (auxOp ctlAux p (Op.npCtlReaddir H S.ctlroot offset count))
    (Op.diodReaddir H offset count)

/-! ### The other operations -/

/-- `np_statfs` -/
def npStatfs : Prog (World σ) Msg := do
  let (p, f) ← reqFid
  dispatch H S p f noGid (fail ENOSYS) (Op.diodStatfs H S.conf)

/-- `np_readlink` -/
def npReadlink : Prog (World σ) Msg := do
  let (p, f) ← reqFid
  dispatch H S p f noGid (fail EPERM) (Op.diodReadlink H)

/-- `np_getattr` -/
def npGetattr (requestMask : UInt64) : Prog (World σ) Msg := do
  let (p, f) ← reqFid
  dispatch H S p f noGid (auxOp ctlAux p (Op.npCtlGetattr H S.ctlroot requestMask))
    (Op.diodGetattr H requestMask)

/-- `np_xattrcreate`. There is no check of `FID_FLAGS_ROFS`. -/
def npXattrcreate (name : Bytes) (size : UInt64) (flag : UInt32) : Prog (World σ) Msg := do
  let (p, f) ← reqFid
  dispatch H S p f noGid (fail EPERM) (Op.diodXattrcreate H name size flag)

/-- `np_lopen`. On a read-only export only opening for writing is refused. -/
def npLopen (flags : UInt32) : Prog (World σ) Msg := do
  let (p, f) ← reqFid
  failIf (f.rofs ∧ (flags &&& 1 ≠ 0 ∨ flags &&& 2 ≠ 0)) EROFS
  dispatch H S p f noGid (auxOp ctlAux p (Op.npCtlLopen H flags))
    (Op.diodLopen H ((f.uid).getD NONUNAME) flags)

/-- What the handlers that need a writable file share. -/
def npFidOp (gid : UInt32) (ctl : ℕ → Prog (World σ) Msg) (op : Npfid → Prog (Ost σ DiodFid) Msg) :
    Prog (World σ) Msg := do
  let (p, f) ← reqFid
  rofsCheck f
  dispatch H S p f gid (ctl p) (op f)

/-- `fid->type = rc->u.rlcreate.qid.type` -/
def retype : Msg → Prog (World σ) Unit
  | .rlcreate qid _ => do
    let p ← reqPtr
    updateFid p fun f => { f with type := qid.type }
  | _ => pure ()

/-- `np_lcreate` -/
def npLcreate (name : Bytes) (flags mode gid : UInt32) : Prog (World σ) Msg := do
  let rc ← npFidOp H S gid (fun _ => fail EPERM) fun f =>
    Op.diodLcreate H ((f.uid).getD NONUNAME) name flags mode
  retype rc
  pure rc

/-- `np_symlink` -/
def npSymlink (name symtgt : Bytes) (gid : UInt32) : Prog (World σ) Msg :=
  npFidOp H S gid (fun _ => fail EPERM) fun _ => Op.diodSymlink H name symtgt

/-- `np_mknod` -/
def npMknod (name : Bytes) (mode major minor gid : UInt32) : Prog (World σ) Msg :=
  npFidOp H S gid (fun _ => fail EPERM) fun _ => Op.diodMknod H name mode major minor

/-- `np_mkdir` -/
def npMkdir (name : Bytes) (mode gid : UInt32) : Prog (World σ) Msg :=
  npFidOp H S gid (fun _ => fail EPERM) fun _ => Op.diodMkdir H name mode

/-- `np_setattr` -/
def npSetattr (a : Nptsetattr) : Prog (World σ) Msg :=
  npFidOp H S noGid (fun p => auxOp ctlAux p (Op.npCtlSetattr H)) fun _ => Op.diodSetattr H a

/-- `np_fsync` -/
def npFsync (datasync : UInt32) : Prog (World σ) Msg :=
  npFidOp H S noGid (fun _ => fail EPERM) fun _ => Op.diodFsync H datasync

/-- `np_lock` -/
def npLock (type : UInt8) (flags : UInt32) : Prog (World σ) Msg :=
  npFidOp H S noGid (fun _ => fail EPERM) fun _ => Op.diodLock H type flags

/-- `np_getlock` -/
def npGetlock (type : UInt8) (start length : UInt64) (procId : UInt32) (clientId : Bytes) :
    Prog (World σ) Msg :=
  npFidOp H S noGid (fun _ => fail EPERM) fun _ =>
    Op.diodGetlock H type start length procId clientId

/-- `np_unlinkat` -/
def npUnlinkat (name : Bytes) (flags : UInt32) : Prog (World σ) Msg :=
  npFidOp H S noGid (fun _ => fail EPERM) fun _ => Op.diodUnlinkat H name flags

/-- `np_rename`. Only the fid is checked, not the directory. -/
def npRename (dfid : UInt32) (name : Bytes) : Prog (World σ) Msg := do
  let (p, f) ← reqFid
  withFound H dfid EIO fun q => do
    rofsCheck f
    failIf f.isTmp EPERM
    npSetfsid H S f.user noGid
    srvOp2 p q fun d => Op.diodRename H d name

/-- `np_link`. The request's fid is the directory, and only the other one is checked. -/
def npLink (fid : UInt32) (name : Bytes) : Prog (World σ) Msg := do
  let p ← reqPtr
  withFound H fid EIO fun q => do
    let f ← deref q
    rofsCheck f
    failIf f.isTmp EPERM
    npSetfsid H S f.user noGid
    srvOp2 q p fun d => Op.diodLink H d name

/-- `np_renameat`. The old directory is checked, and the credentials are those of the
new one. -/
def npRenameat (oldname : Bytes) (newdirfid : UInt32) (newname : Bytes) : Prog (World σ) Msg := do
  let (p, f) ← reqFid
  rofsCheck f
  failIf f.isTmp EPERM
  withFound H newdirfid EIO fun q => do
    let d ← deref q
    npSetfsid H S d.user noGid
    srvOp2 p q fun d => Op.diodRenameat H oldname d newname

end Diod
