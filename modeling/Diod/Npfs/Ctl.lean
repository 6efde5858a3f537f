import Diod.Backend.Ops

/-!
# The files of the server itself

`ctl.c`: a client that attaches to `ctl` sees one directory of files that the server
makes up, with its version, its connections, its exports and the like. Reading one
runs its getter once, and later reads are served from the text it returned. Two of
the getters read a file under `/proc`.

What the other getters print, and the times of the files, are parameters.
-/

namespace Diod

/-- How a file gets its text: from `/proc`, or from the server. -/
inductive Getf where
  | proc
  | text
deriving DecidableEq

/-- `Npfile`, of a file in the root directory. -/
structure Npfile where
  name : Bytes
  inum : UInt64
  getf : Option Getf
  /-- `NP_CTL_FLAGS_SINK` -/
  sink : Bool := false
  /-- `NP_CTL_FLAGS_ZEROSRC` -/
  zerosrc : Bool := false
deriving DecidableEq

/-- The files of the server: the root directory's entries, in the order of its list. -/
structure Ctlroot where
  child : List Npfile := []
  /-- What a getter prints. -/
  text : Bytes → Bytes := fun _ => []
  /-- The times of a file: access, modification and change. -/
  times : Option Npfile → Timespec × Timespec × Timespec := fun _ => (⟨0, 0⟩, ⟨0, 0⟩, ⟨0, 0⟩)
  /-- What lies behind the name of a file in memory. -/
  behind : Bytes → ℕ → UInt8 := fun _ _ => 0

/-- `Fid` of `ctl.c`: the file, which is `none` for the root directory, and its text. -/
structure CtlFid where
  file : Option Npfile
  data : Option Bytes
deriving DecidableEq

/-- `file->qid` -/
def ctlQid (file : Option Npfile) : Npqid where
  type := if file.isNone then Qtdir ||| Qttmp else Qttmp
  version := 0
  path := (file.map (·.inum)).getD 1

/-- `file->mode` -/
def ctlMode : Option Npfile → UInt32
  | none => 0o40555
  | some file => if file.sink then 0o100666 else 0o100444

namespace Op

variable {σ : Type} (H : Host σ) (K : Ctlroot)

/-- `np_ctl_attach` -/
def npCtlAttach : Prog (Ost σ CtlFid) Msg := do
  allocOr H ENOMEM
  allocOr H ENOMEM
  setFid fun _ => ⟨none, none⟩
  pure (.rattach (ctlQid none))

/-- `np_ctl_clone` -/
def npCtlClone : Prog (Ost σ CtlFid) CtlFid := do
  let f ← fid
  allocOr H ENOMEM
  pure ⟨f.file, none⟩

/-- `f->file->child`, which only the root directory has. -/
def ctlChild (f : CtlFid) : List Npfile := if f.file.isNone then K.child else []

/-- `np_ctl_walk` -/
def npCtlWalk (wname : Bytes) : Prog (Ost σ CtlFid) Npqid := do
  let f ← fid
  match (ctlChild K f).find? fun ff => npStrEq (K.behind ff.name) wname ff.name with
  | none => fail ENOENT
  | some ff => do
    setFid fun f => { f with file := some ff }
    pure (ctlQid (some ff))

/-- `np_ctl_clunk` -/
def npCtlClunk : Prog (Ost σ CtlFid) Msg := do
  allocOr H ENOMEM
  pure .rclunk

/-- `np_ctl_lopen`. `O_RDONLY` is 0, so only `O_RDWR` asks for a file that can be
read. -/
def npCtlLopen (mode : UInt32) : Prog (Ost σ CtlFid) Msg := do
  let f ← fid
  let wronly := mode &&& 1 ≠ 0
  let rdwr := mode &&& 2 ≠ 0
  failIf ((wronly ∨ rdwr) ∧ ¬f.file.any (·.sink)) EACCES
  failIf (rdwr ∧ f.file.any fun ff => ff.getf.isNone && !ff.zerosrc) EACCES
  .when f.data.isSome .crash
  allocOr H ENOMEM
  pure (.rlopen (ctlQid f.file) 0)

/-- `_ctl_get_proc` -/
def ctlGetProc (name : Bytes) : Prog (Ost σ CtlFid) Bytes := do
  let path := [47, 112, 114, 111, 99, 47] ++ name.map fun c => if c = 46 then 47 else c
  let r ← sysOr H (.openFile path 0 0)
  Prog.done (do
    allocOr H ENOMEM
    let d ← sysOr H (.readFd r.num)
    pure (cstr d.data)) fun _ => do
      let _ ← syscall H (.close r.num)

/-- `f->file->getf (f->file->name, f->file->getf_arg)` -/
def ctlGetf (file : Npfile) : Prog (Ost σ CtlFid) Unit := do
  match file.getf with
  | none => pure ()
  | some .proc => do
    let s ← ctlGetProc H file.name
    setFid fun f => { f with data := some s }
  | some .text => do
    allocOr H ENOMEM
    setFid fun f => { f with data := some (K.text file.name) }

/-- The text of a file, when it is not there yet. -/
def ctlGet (f : CtlFid) : Prog (Ost σ CtlFid) Unit :=
  match f.data, f.file with
  | none, some file => ctlGetf H K file
  | _, _ => pure ()

/-- `np_ctl_read` -/
def npCtlRead (offset : UInt64) (count : UInt32) : Prog (Ost σ CtlFid) Msg := do
  let f ← fid
  if f.file.any (·.zerosrc) then do
    allocOr H ENOMEM
    pure (.rread count (List.replicate count.toNat 0))
  else do
    ctlGet H K f
    let f ← fid
    let data := (((f.data.getD []).drop offset.toNat).take count.toNat)
    allocOr H ENOMEM
    pure (.rread (.ofNat data.length) data)

/-- The loop of `np_ctl_readdir`, at the entry with this number. -/
def ctlReaddirLoop (offset count : ℕ) : ℕ → List Npfile → Bytes → Bytes
  | _, [], bs => bs
  | off, ff :: ffs, bs =>
    if off < offset then ctlReaddirLoop offset count (off + 1) ffs bs
    else
      let e := npSerializeP9dirent (ctlQid (some ff)) (.ofNat (off + 1)) DT_REG ff.name
        (count - bs.length)
      if e = [] then bs else ctlReaddirLoop offset count (off + 1) ffs (bs ++ e)

/-- `np_ctl_readdir` -/
def npCtlReaddir (offset : UInt64) (count : UInt32) : Prog (Ost σ CtlFid) Msg := do
  let f ← fid
  allocOr H ENOMEM
  let bs := ctlReaddirLoop offset.toNat count.toNat 0 (ctlChild K f) []
  pure (.rreaddir (.ofNat bs.length) bs)

/-- `np_ctl_getattr` -/
def npCtlGetattr (requestMask : UInt64) : Prog (Ost σ CtlFid) Msg := do
  let f ← fid
  allocOr H ENOMEM
  let (a, m, c) := K.times f.file
  pure (.rgetattr {
    valid := requestMask, qid := ctlQid f.file, mode := ctlMode f.file, uid := 0, gid := 0,
    nlink := 1, rdev := 0, size := 0, blksize := 0, blocks := 0, atimeSec := a.sec,
    atimeNsec := a.nsec, mtimeSec := m.sec, mtimeNsec := m.nsec, ctimeSec := c.sec,
    ctimeNsec := c.nsec, btimeSec := 0, btimeNsec := 0, gen := 0, dataVersion := 0 })

/-- `np_ctl_setattr` -/
def npCtlSetattr : Prog (Ost σ CtlFid) Msg := do
  allocOr H ENOMEM
  pure .rsetattr

/-- `np_ctl_write` -/
def npCtlWrite (count : UInt32) : Prog (Ost σ CtlFid) Msg := do
  let f ← fid
  failIf (¬f.file.any (·.sink)) ENOSYS
  allocOr H ENOMEM
  pure (.rwrite count)

end Op

end Diod
