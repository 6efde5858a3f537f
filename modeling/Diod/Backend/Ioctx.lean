import Diod.Backend.Fid

/-!
# Paths and descriptors

`diod_ioctx.c`: the pool of paths, in which each string is found at most once, and
the descriptors that are open on a path. On an export with `sharefd` a file that is
opened for reading again, by the same user and with the same flags, gets the
descriptor that is there.

The lists of descriptors are linked as in the source, through `next` and `prev`. A
link that leads to a descriptor that is gone is a crash.
-/

namespace Diod

/-- `Qtdir`, `Qtsymlink`, `Qtfile`, `Qttmp` and `Qtauth` -/
def Qtdir : UInt8 := 0x80

@[inherit_doc Qtdir] def Qtsymlink : UInt8 := 0x02

@[inherit_doc Qtdir] def Qtfile : UInt8 := 0x00

@[inherit_doc Qtdir] def Qttmp : UInt8 := 0x04

@[inherit_doc Qtdir] def Qtauth : UInt8 := 0x08

/-- `diod_ustat2qid` -/
def diodUstat2qid (st : Stat) : Npqid where
  path := st.ino
  version := 0
  type := if st.isDir then Qtdir else if st.isLnk then Qtsymlink else Qtfile

namespace Op

variable {σ : Type} (H : Host σ)

/-! ### The pool of paths -/

/-- `path_incref` -/
def pathIncref (p : Path) : Prog (Ost σ DiodFid) Path := do
  .modify fun o => { o with
    paths := o.paths.modify p.id fun x => { x with refcount := x.refcount + 1 } }
  pure p

/-- `path_decref` -/
def pathDecref (p : Path) : Prog (Ost σ DiodFid) Unit := fun o =>
  match o.paths.get p.id with
  | none => (.crash, o)
  | some x =>
    if x.refcount = 1 then (.ok (), { o with paths := o.paths.free p.id })
    else (.ok (), { o with
      paths := o.paths.modify p.id fun x => { x with refcount := x.refcount - 1 } })

/-- What `path_decref` does: the last holder frees the path. -/
theorem pathDecref_cases (p : Path) (o : Ost σ DiodFid) :
    o.paths.get p.id = none ∧ pathDecref p o = (.crash, o) ∨
    (∃ x, o.paths.get p.id = some x ∧ x.refcount = 1 ∧
      pathDecref p o = (.ok (), { o with paths := o.paths.free p.id })) ∨
    ∃ x, o.paths.get p.id = some x ∧ x.refcount ≠ 1 ∧
      pathDecref p o = (.ok (), { o with
        paths := o.paths.modify p.id fun x => { x with refcount := x.refcount - 1 } }) := by
  rcases hx : o.paths.get p.id with _ | x
  · exact .inl ⟨rfl, by rw [pathDecref, hx]⟩
  by_cases h1 : x.refcount = 1
  · exact .inr (.inl ⟨x, rfl, h1, by rw [pathDecref, hx]; exact if_pos h1⟩)
  · exact .inr (.inr ⟨x, rfl, h1, by rw [pathDecref, hx]; exact if_neg h1⟩)

/-- `_path_alloc`: the path with this string, or a new one. The two allocations are
the path and its entry in the hash table. -/
def pathAlloc (s : Bytes) : Prog (Ost σ DiodFid) Path := do
  let o ← .read
  match o.paths.find fun x => cstr x.buf == cstr s with
  | some (id, x) => pathIncref ⟨id, x.buf⟩
  | none => do
    let _ ← mallocOrStop H
    let _ ← mallocOrStop H
    let o ← .read
    .modify fun o => { o with paths := o.paths.alloc ⟨s, 1, none⟩ }
    pure ⟨o.paths.next, s⟩

/-- `path_create` -/
def pathCreate (ns : Bytes) : Prog (Ost σ DiodFid) Path := do
  let _ ← mallocOrStop H
  pathAlloc H ns

/-- `path_append` -/
def pathAppend (opath : Path) (ns : Bytes) : Prog (Ost σ DiodFid) Path := do
  let _ ← mallocOrStop H
  pathAlloc H (opath.buf ++ 47 :: ns)

/-- `if (!(npath = path_append (..))) { np_uerror (ENOMEM); goto error; }` -/
def pathAppendOr (opath : Path) (ns : Bytes) : Prog (Ost σ DiodFid) Path := do
  match ← (pathAppend H opath ns).attempt with
  | some p => pure p
  | none => fail ENOMEM

/-! ### The lists of descriptors -/

/-- `*i` -/
def derefIoctx (i : ℕ) : Prog (Ost σ DiodFid) IOCtx := fun o =>
  match o.ioctxs.get i with
  | some x => (.ok x, o)
  | none => (.crash, o)

theorem derefIoctx_of_get {i : ℕ} {x : IOCtx} {o : Ost σ DiodFid} (h : o.ioctxs.get i = some x) :
    derefIoctx i o = (.ok x, o) := by
  rw [derefIoctx, h]

/-- Change `*i`. -/
def setIoctx (i : ℕ) (g : IOCtx → IOCtx) : Prog (Ost σ DiodFid) Unit := do
  let _ ← derefIoctx i
  .modify fun o => { o with ioctxs := o.ioctxs.modify i g }

/-- `path->ioctx` -/
def ioctxHead (p : Path) : Prog (Ost σ DiodFid) (Option ℕ) := fun o =>
  match o.paths.get p.id with
  | some x => (.ok x.ioctx, o)
  | none => (.crash, o)

/-- Change `path->ioctx`. -/
def setIoctxHead (p : Path) (i : Option ℕ) : Prog (Ost σ DiodFid) Unit := do
  let _ ← ioctxHead p
  .modify fun o => { o with paths := o.paths.modify p.id fun x => { x with ioctx := i } }

/-- What comes behind `prev`, or else first in the list, is `next`. -/
def setNext (p : Path) (prev next : Option ℕ) : Prog (Ost σ DiodFid) Unit :=
  match prev with
  | some j => setIoctx j fun y => { y with next := next }
  | none => setIoctxHead p next

/-- What comes before `next`, if there is one, is `prev`. -/
def setPrev (next prev : Option ℕ) : Prog (Ost σ DiodFid) Unit :=
  match next with
  | some j => setIoctx j fun y => { y with prev := prev }
  | none => pure ()

/-- `_unlink_ioctx` -/
def unlinkIoctx (p : Path) (i : ℕ) : Prog (Ost σ DiodFid) Unit := do
  let x ← derefIoctx i
  setNext p x.prev x.next
  setPrev x.next x.prev
  setIoctx i fun y => { y with prev := none, next := none }

/-- `_link_ioctx` -/
def linkIoctx (p : Path) (i : ℕ) : Prog (Ost σ DiodFid) Unit := do
  let head ← ioctxHead p
  setIoctx i fun y => { y with next := head, prev := none }
  setPrev head (some i)
  setIoctxHead p (some i)

/-! ### Opening and closing -/

/-- `_ioctx_close_destroy`, of a descriptor that is not (or no longer) in a list. The
result is whether closing succeeded. -/
def ioctxCloseDestroy (fd : ℕ) (dir : Bool) (seterrno : Bool) : Prog (Ost σ DiodFid) Bool := do
  let r ← syscall H (if dir then .closedir fd else .close fd)
  .when (r.err ≠ 0 ∧ seterrno) (npUerror r.err)
  pure (decide (r.err = 0))

/-- `_ioctx_create_open`. Memory that was allocated for a descriptor that could not be
opened is not followed. -/
def ioctxCreateOpen (uid : UInt32) (p : Path) (flags mode : UInt32) : Prog (Ost σ DiodFid) ℕ := do
  allocOr H ENOMEM
  let r ← sysOr H (.openFile p.s flags mode)
  let fd := r.num
  let st ← Prog.done (do
    let r ← sysOr H (.fstat fd)
    .when r.st.isDir do
      let _ ← sysOr H (.fdopendir fd)
    pure r.st) fun st => .when st.isNone do
      let _ ← ioctxCloseDestroy H fd false false
  let o ← .read
  let x : IOCtx := ⟨1, LOCK_UN, fd, st.isDir, flags, uid, 0, diodUstat2qid st, none, none⟩
  .modify fun o => { o with ioctxs := o.ioctxs.alloc x }
  pure o.ioctxs.next

/-- The search of `ioctx_open` for a descriptor to share. The list is followed for as
many steps as there are descriptors. -/
def ioctxShared (uid flags : UInt32) : ℕ → Option ℕ → Prog (Ost σ DiodFid) (Option ℕ)
  | 0, _ => pure none
  | _, none => pure none
  | n + 1, some i => do
    let x ← derefIoctx i
    if x.qid.type = Qtfile ∧ x.openFlags = flags ∧ x.uid = uid then
      setIoctx i fun y => { y with refcount := y.refcount + 1 }
      pure (some i)
    else ioctxShared uid flags n x.next

/-- The search, where descriptors are shared and the file is opened for reading. -/
def ioctxSearch (uid : UInt32) (f : DiodFid) (flags : UInt32) :
    Prog (Ost σ DiodFid) (Option ℕ) :=
  if f.sharefd ∧ flags &&& 3 = 0 then do
    let o ← .read
    let head ← ioctxHead f.path
    ioctxShared uid flags o.ioctxs.next head
  else pure none

/-- The descriptor that was found, or a new one. -/
def ioctxOrOpen (uid : UInt32) (p : Path) (flags mode : UInt32) :
    Option ℕ → Prog (Ost σ DiodFid) ℕ
  | some i => pure i
  | none => do
    let i ← ioctxCreateOpen H uid p flags mode
    linkIoctx p i
    pure i

/-- `ioctx_open` -/
def ioctxOpen (uid : UInt32) (flags mode : UInt32) : Prog (Ost σ DiodFid) ℕ := do
  let f ← fid
  .when f.ioctx.isSome .crash
  let shared ← ioctxSearch uid f flags
  let i ← ioctxOrOpen H uid f.path flags mode shared
  setFid fun f => { f with ioctx := some i }
  pure i

/-- The count of `ioctx_close`: the last one closes the descriptor. -/
def ioctxDecref (p : Path) (i : ℕ) (seterrno : Bool) : Prog (Ost σ DiodFid) Bool := do
  let x ← derefIoctx i
  if x.refcount = 1 then do
    unlinkIoctx p i
    .modify fun o => { o with ioctxs := o.ioctxs.free i }
    ioctxCloseDestroy H x.fd x.dir seterrno
  else do
    setIoctx i fun y => { y with refcount := y.refcount - 1 }
    pure true

/-- `ioctx_close`. The result is whether closing succeeded. -/
def ioctxClose (seterrno : Bool) : Prog (Ost σ DiodFid) Bool := do
  let f ← fid
  match f.ioctx with
  | none => .crash
  | some i => do
    let ok ← ioctxDecref H f.path i seterrno
    setFid fun f => { f with ioctx := none }
    pure ok

end Op

end Diod
