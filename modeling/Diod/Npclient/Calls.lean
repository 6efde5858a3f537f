import Diod.Npclient.Pool
import Diod.Lib.Prog
import Diod.Npfs.Ctl

/-!
# The calls of the client

`libnpclient`: what a program that mounts a file system over 9P calls. Each call sends
requests one after the other and waits for each reply; most walk to a file, do something
with it, and give its fid back. What a request does on the other side is a parameter
(`rpc`), so the same calls can be run against different servers.

A call that returns `NULL` or `-1` is one that stops here, with the error in `ecode`. One
that does not return crashes: it waits for a number, or has freed a reply twice. The
second happens in `npc_walk`, whose variable `rc` still has the reply of the message
before when the next message fails (`Diod.Npc.walkError`).

Memory does not run out in the client, and `dirname` and `basename` are parameters.
-/

namespace Diod

/-- `ENOTDIR` -/
def ENOTDIR : ℕ := 20

/-- `ERANGE` -/
def ERANGE : ℕ := 34

/-- `Npcfid`, without the buffer of `npc_gets` and `npc_readdir_r` -/
structure Npcfid where
  fid : UInt32
  offset : UInt64 := 0
  iounit : UInt32 := 0
deriving DecidableEq

/-- `Npcfsys`, with the error number of the thread and what is at the other end. -/
structure Npcfsys (X : Type) where
  msize : UInt32
  /-- `NPC_SHORTREAD_EOF` -/
  shortread : Bool := false
  fidpool : Npcpool
  /-- `np_rerror ()` -/
  ecode : ℕ := 0
  peer : X

namespace Npc

variable {X : Type} (rpc : Msg → X → Msg × X)

/-- `np_uerror` -/
def npUerror (e : ℕ) : Prog (Npcfsys X) Unit := .modify fun c => { c with ecode := e }

/-- `np_uerror (e); goto done;` -/
def fail {α : Type} (e : ℕ) : Prog (Npcfsys X) α := do
  npUerror e
  .stop

/-- `npc_rpc`, over a connection that works -/
def npcRpc (tc : Msg) : Prog (Npcfsys X) Msg := fun c =>
  let (rc, x) := rpc tc c.peer
  match rc with
  | .rlerror e => (.stop, { c with peer := x, ecode := e.toNat })
  | rc => (.ok rc, { c with peer := x })

variable {tc : Msg} {c : Npcfsys X} {x : X}

theorem npcRpc_of_error {e : UInt32} (h : rpc tc c.peer = (.rlerror e, x)) :
    npcRpc rpc tc c = (.stop, { c with peer := x, ecode := e.toNat }) := by
  rw [npcRpc, h]

theorem npcRpc_of_reply {rc : Msg} (hrc : rc.type ≠ .rlerror)
    (h : rpc tc c.peer = (rc, x)) : npcRpc rpc tc c = (.ok rc, { c with peer := x }) := by
  rw [npcRpc, h]
  cases rc with
  | rlerror e => exact absurd rfl hrc
  | _ => rfl

/-- `npc_fid_alloc` -/
def npcFidAlloc : Prog (Npcfsys X) Npcfid := fun c =>
  match c.fidpool.npcGetId with
  | some (n, p) => (.ok ⟨n, 0, 0⟩, { c with fidpool := p })
  | none => (.crash, c)

/-- `npc_fid_free` -/
def npcFidFree (f : Npcfid) : Prog (Npcfsys X) Unit :=
  .modify fun c => { c with fidpool := c.fidpool.npcPutId f.fid }

/-! ### Fields of replies -/

/-- `rc->u.rwalk.nwqid` -/
def nwqid : Msg → ℕ
  | .rwalk wqids => wqids.length
  | _ => 0

/-- `rc->u.rread.count`, and the same of `rwrite` and `rreaddir` -/
def ioCount : Msg → UInt32
  | .rread count _ | .rwrite count | .rreaddir count _ => count
  | _ => 0

/-- `rc->u.rread.data`, and the same of `rreaddir` -/
def ioData : Msg → Bytes
  | .rread _ data | .rreaddir _ data => data
  | _ => []

/-- `rc->u.rlopen.iounit`, and the same of `rlcreate` -/
def iounitOf : Msg → UInt32
  | .rlopen _ iounit | .rlcreate _ iounit => iounit
  | _ => 0

/-- `rc->u.rxattrwalk.size`, which becomes a `ssize_t` -/
def xattrSize : Msg → ℤ
  | .rxattrwalk size => if size.toNat < 2 ^ 63 then size.toNat else (size.toNat : ℤ) - 2 ^ 64
  | _ => 0

/-! ### Fids -/

/-- `npc_clunk` -/
def npcClunk (f : Npcfid) : Prog (Npcfsys X) Unit := do
  let _ ← npcRpc rpc (.tclunk f.fid)
  npcFidFree f

/-- `saved_err = np_rerror (); (void) npc_clunk (fid); np_uerror (saved_err);`, and leave -/
def clunkAndFail {α : Type} (f : Npcfid) : Prog (Npcfsys X) α := do
  let c ← .read
  let _ ← (npcClunk rpc f).attempt
  npUerror c.ecode
  .stop

/-- `npc_clone` -/
def npcClone (f : Npcfid) : Prog (Npcfsys X) Npcfid := do
  let nfid ← npcFidAlloc
  match ← (npcRpc rpc (.twalk f.fid nfid.fid [])).attempt with
  | some _ => pure nfid
  | none => do
    npcFidFree nfid
    .stop

/-- The inner loop of `npc_walk`: up to `n` names from the front of the path, what is left
of it, and whether there was a slash behind the last name (`t`). The last name is not cut
off. -/
def gather : ℕ → ℕ → Bytes → Bool → List Bytes × Bytes × Bool
  | 0, _, s, t => ([], s, t)
  | _ + 1, 0, s, t => ([], s, t)
  | _ + 1, _ + 1, [], t => ([], [], t)
  | k + 1, n + 1, c :: s, t =>
    if c = 47 then gather k (n + 1) s t
    else
      match (c :: s).dropWhile (· ≠ 47) with
      | [] => ([(c :: s).takeWhile (· ≠ 47)], c :: s, false)
      | _ :: s' =>
        let (names, rest) := gather k n s' true
        ((c :: s).takeWhile (· ≠ 47) :: names, rest)

/-- The label `error` of `npc_walk`. `stale`: `rc` is a reply that has been freed. -/
def walkError (stale : Bool) (nfid : UInt32) (f : Npcfid) : Prog (Npcfsys X) Unit := do
  .when stale .crash
  if nfid = f.fid then clunkAndFail rpc f
  else do
    npcFidFree f
    .stop

/-- The loop of `npc_walk`, which sends one message after the other: the first from the fid
it is given to the new one, the others from the new one to itself. The path gets shorter
each time. -/
def walkLoop (f : Npcfid) : ℕ → Bool → UInt32 → Bytes → Bool → Prog (Npcfsys X) Unit
  | 0, _, _, _, _ => .crash
  | k + 1, stale, nfid, s, t => do
    let (names, s', t') := gather s.length MAXWELEM s t
    match ← (npcRpc rpc (.twalk nfid f.fid names)).attempt with
    | none => walkError rpc stale nfid f
    | some rc =>
      if nwqid rc ≠ names.length then do
        npUerror ENOENT
        walkError rpc false f.fid f
      else if t' = false ∨ s' = [] then pure ()
      else walkLoop f k true f.fid s' t'

/-- `npc_walk` -/
def npcWalk (nfid : Npcfid) : Option Bytes → Prog (Npcfsys X) Npcfid
  | none => npcClone rpc nfid
  | some path => do
    let s := (cstr path).dropWhile (· = 47)
    let f ← npcFidAlloc
    walkLoop rpc f (s.length + 1) false nfid.fid s false
    pure f

/-- `npc_remove`. The fid is given back whatever the reply is. -/
def npcRemove (f : Npcfid) : Prog (Npcfsys X) Unit := do
  let r ← (npcRpc rpc (.tremove f.fid)).attempt
  npcFidFree f
  .when r.isNone .stop

/-- `npc_remove_bypath` -/
def npcRemoveBypath (root : Npcfid) (path : Bytes) : Prog (Npcfsys X) Unit := do
  let f ← npcWalk rpc root (some path)
  npcRemove rpc f

/-! ### Opening files -/

/-- The iounit of a fid that has been opened. -/
def limitIounit (msize iounit : UInt32) : UInt32 :=
  let maxio := msize - .ofNat IOHDRSZ
  if iounit = 0 ∨ iounit > maxio then maxio else iounit

/-- `npc_open` -/
def npcOpen (f : Npcfid) (flags : UInt32) : Prog (Npcfsys X) Npcfid := do
  let c ← .read
  let rc ← npcRpc rpc (.tlopen f.fid flags)
  pure { f with iounit := limitIounit c.msize (iounitOf rc), offset := 0 }

/-- `npc_create` -/
def npcCreate (f : Npcfid) (name : Bytes) (flags mode gid : UInt32) : Prog (Npcfsys X) Npcfid := do
  let c ← .read
  let rc ← npcRpc rpc (.tlcreate f.fid name flags mode gid)
  pure { f with iounit := limitIounit c.msize (iounitOf rc) }

/-- What the calls with a path have in common: walk, do something with the file, and give
its fid back if that fails. -/
def walkThen {α : Type} (root : Npcfid) (path : Bytes) (op : Npcfid → Prog (Npcfsys X) α) :
    Prog (Npcfsys X) (Npcfid × α) := do
  let f ← npcWalk rpc root (some path)
  match ← (op f).attempt with
  | some a => pure (f, a)
  | none => clunkAndFail rpc f

/-- `npc_open_bypath` -/
def npcOpenBypath (root : Npcfid) (path : Bytes) (flags : UInt32) : Prog (Npcfsys X) Npcfid := do
  let (_, f) ← walkThen rpc root path fun f => npcOpen rpc f flags
  pure f

/-- `npc_create_bypath` -/
def npcCreateBypath (dirname basename : Bytes → Bytes) (root : Npcfid) (path : Bytes)
    (flags mode gid : UInt32) : Prog (Npcfsys X) Npcfid := do
  let (_, f) ← walkThen rpc root (dirname path) fun f =>
    npcCreate rpc f (basename path) flags mode gid
  pure f

/-! ### Reading and writing -/

/-- `npc_pread` -/
def npcPread (f : Npcfid) (count : UInt32) (offset : UInt64) : Prog (Npcfsys X) Bytes := do
  let c ← .read
  let maxio := c.msize - .ofNat IOHDRSZ
  let count := if count > maxio then maxio else count
  let rc ← npcRpc rpc (.tread f.fid offset count)
  if ioCount rc > count then fail EPROTO
  else pure ((ioData rc).take (ioCount rc).toNat)

/-- `npc_read` -/
def npcRead (f : Npcfid) (count : UInt32) : Prog (Npcfsys X) (Npcfid × Bytes) := do
  let buf ← npcPread rpc f count f.offset
  pure ({ f with offset := f.offset + .ofNat buf.length }, buf)

/-- What is asked for at once. -/
def ioLimit (msize count : UInt32) : UInt32 :=
  if count > msize - .ofNat IOHDRSZ then msize - .ofNat IOHDRSZ else count

theorem toNat_ioLimit {msize : UInt32} (hm : IOHDRSZ < msize.toNat) (count : UInt32) :
    (ioLimit msize count).toNat = min count.toNat (msize.toNat - IOHDRSZ) := by
  have hmax : (msize - .ofNat IOHDRSZ).toNat = msize.toNat - IOHDRSZ :=
    UInt32.toNat_sub_of_le _ _ (UInt32.le_iff_toNat_le.mpr hm.le)
  rw [← hmax, ioLimit]
  split
  · exact (min_eq_right (UInt32.lt_iff_toNat_lt.mp ‹_›).le).symm
  · exact (min_eq_left (UInt32.le_iff_toNat_le.mp (UInt32.not_lt.mp ‹_›))).symm

section

variable {rpc} {f : Npcfid} {count : UInt32} {c : Npcfsys X} {x : X}

theorem npcRead_of_error {e : UInt32}
    (h : rpc (.tread f.fid f.offset (ioLimit c.msize count)) c.peer = (.rlerror e, x)) :
    npcRead rpc f count c = (.stop, { c with peer := x, ecode := e.toNat }) := by
  have hpread : npcPread rpc f count f.offset c =
      (.stop, { c with peer := x, ecode := e.toNat }) := by
    rw [npcPread, Prog.read_bind, ← ioLimit, Prog.bind_of_stop (npcRpc_of_error rpc h)]
  rw [npcRead, Prog.bind_of_stop hpread]

theorem npcRead_of_reply {bs : Bytes} (hbs : bs.length ≤ (ioLimit c.msize count).toNat)
    (h : rpc (.tread f.fid f.offset (ioLimit c.msize count)) c.peer =
      (.rread (.ofNat bs.length) bs, x)) :
    npcRead rpc f count c =
      (.ok ({ f with offset := f.offset + .ofNat bs.length }, bs), { c with peer := x }) := by
  have hcount : (UInt32.ofNat bs.length).toNat = bs.length :=
    UInt32.toNat_ofNat_of_lt' (hbs.trans_lt (UInt32.toNat_lt _))
  have hpread : npcPread rpc f count f.offset c = (.ok bs, { c with peer := x }) := by
    rw [npcPread, Prog.read_bind, ← ioLimit,
      Prog.bind_of_ok (npcRpc_of_reply rpc (by rintro ⟨⟩) h), if_neg]
    · change (Res.ok (bs.take (UInt32.ofNat bs.length).toNat), _) = _
      rw [hcount, List.take_length]
    · refine fun hgt => absurd (UInt32.lt_iff_toNat_lt.mp hgt) ?_
      change ¬_ < (UInt32.ofNat bs.length).toNat
      rw [hcount]
      exact hbs.not_gt
  rw [npcRead, Prog.bind_of_ok hpread]
  rfl

end

/-- The loop of `npc_get`. -/
def getLoop : ℕ → Npcfid → UInt32 → Bytes → Prog (Npcfsys X) (Npcfid × Bytes)
  | 0, _, _, _ => .crash
  | k + 1, f, count, buf =>
    if buf.length < count.toNat then do
      let (f, got) ← npcRead rpc f (count - .ofNat buf.length)
      let c ← .read
      if got = [] then pure (f, buf)
      else if c.shortread ∧ buf.length < count.toNat - (buf ++ got).length then
        pure (f, buf ++ got)
      else getLoop k f count (buf ++ got)
    else pure (f, buf)

/-- `npc_get`, with this many reads at most. A read that fails leaves the fid open. -/
def npcGet (reads : ℕ) (root : Npcfid) (path : Bytes) (count : UInt32) :
    Prog (Npcfsys X) Bytes := do
  let f ← npcOpenBypath rpc root path 0
  let (f, buf) ← getLoop rpc reads f count []
  npcClunk rpc f
  pure buf

/-- `AGET_CHUNK` -/
def AGET_CHUNK : ℕ := 4096

/-- The loop of `npc_aget`, into a buffer of `ssize` bytes. -/
def agetLoop : ℕ → Npcfid → ℕ → Bytes → Prog (Npcfsys X) (Npcfid × Bytes)
  | 0, _, _, _ => .crash
  | k + 1, f, ssize, s => do
    let ssize := if ssize - s.length = 1 then ssize + AGET_CHUNK else ssize
    let (f, got) ← npcRead rpc f (.ofNat (ssize - s.length - 1))
    let c ← .read
    if got = [] then pure (f, s)
    else if c.shortread ∧ s.length < ssize - (s ++ got).length - 1 then pure (f, s ++ got)
    else agetLoop k f ssize (s ++ got)

/-- `npc_aget`, with this many reads at most. A clunk that fails is tried again. -/
def npcAget (reads : ℕ) (root : Npcfid) (path : Bytes) : Prog (Npcfsys X) Bytes := do
  let f ← npcOpenBypath rpc root path 0
  let r ← (do
    let (f, s) ← agetLoop rpc reads f AGET_CHUNK []
    npcClunk rpc f
    pure s).attempt
  match r with
  | some s => pure s
  | none => do
    let _ ← (npcClunk rpc f).attempt
    .stop

/-- `npc_pwrite`: how much was written -/
def npcPwrite (f : Npcfid) (buf : Bytes) (offset : UInt64) : Prog (Npcfsys X) UInt32 := do
  let c ← .read
  let maxio := c.msize - .ofNat IOHDRSZ
  let count := if .ofNat buf.length > maxio then maxio else .ofNat buf.length
  let rc ← npcRpc rpc (.twrite f.fid offset count (buf.take count.toNat))
  -- the `u32` count is returned as an `int`
  if asInt (ioCount rc).toNat < 0 then .stop else pure (ioCount rc)

/-- `npc_write` -/
def npcWrite (f : Npcfid) (buf : Bytes) : Prog (Npcfsys X) (Npcfid × UInt32) := do
  let n ← npcPwrite rpc f buf f.offset
  pure ({ f with offset := f.offset + n.toUInt64 }, n)

/-- The loop that `npc_put`, `npc_puts` and `npc_setxattr` have in common, up to a bound that is the
length of the buffer, as a `u32`, an `int` or a `size_t`. What has been written is added up in an
`int`, and what happens when that overflows is undefined. -/
def putLoop (bound : ℤ) : ℕ → Npcfid → Bytes → ℕ → Prog (Npcfsys X) ℕ
  | 0, _, _, _ => .crash
  | k + 1, f, buf, done =>
    if (done : ℤ) < bound then do
      let (f, n) ← npcWrite rpc f (buf.drop done)
      if 2 ^ 31 ≤ done + n.toNat then .crash else putLoop bound k f buf (done + n.toNat)
    else pure done

/-- `npc_put`, with this many writes at most -/
def npcPut (writes : ℕ) (root : Npcfid) (path buf : Bytes) : Prog (Npcfsys X) ℕ := do
  let f ← npcOpenBypath rpc root path 1
  let r ← (putLoop rpc buf.length writes f buf 0).attempt
  npcClunk rpc f
  match r with
  | some done => pure done
  | none => .stop

/-- `npc_puts`, with this many writes at most -/
def npcPuts (writes : ℕ) (f : Npcfid) (buf : Bytes) : Prog (Npcfsys X) ℕ :=
  putLoop rpc (asInt (cstr buf).length) writes f (cstr buf) 0

/-! ### Attributes -/

/-- `npc_xattrwalk` -/
def npcXattrwalk (f attrfid : Npcfid) (name : Bytes) : Prog (Npcfsys X) ℤ := do
  let rc ← npcRpc rpc (.txattrwalk f.fid attrfid.fid name)
  if xattrSize rc < 0 then .stop else pure (xattrSize rc)

/-- `npc_xattrcreate` -/
def npcXattrcreate (f : Npcfid) (name : Bytes) (size : UInt64) (flags : UInt32) :
    Prog (Npcfsys X) Unit := do
  let _ ← npcRpc rpc (.txattrcreate f.fid name size flags)
  pure ()

/-- The loop of `npc_getxattr`. A read that fails returns `-1`, which is added to a `size_t`:
the last byte is read again, or, where there is none, the loop ends with `-1`. -/
def xattrLoop : ℕ → Npcfid → ℕ → Bytes → Prog (Npcfsys X) Bytes
  | 0, _, _, _ => .crash
  | k + 1, f, size, buf =>
    if buf.length < size then do
      match ← (npcRead rpc f (.ofNat (size - buf.length))).attempt with
      | some (f, got) => if got = [] then pure buf else xattrLoop k f size (buf ++ got)
      | none => if buf = [] then .stop else xattrLoop k f size buf.dropLast
    else pure buf

/-- `npc_getxattr`, and with no name `npc_listxattr`: what is returned, and what is in the
buffer then. Both fids are given back at the end, also the second one when it was never
made on the other side. -/
def npcGetxattr (reads : ℕ) (root : Npcfid) (path attr : Bytes) (size : ℕ) :
    Prog (Npcfsys X) (ℤ × Bytes) := do
  let f ← npcWalk rpc root (some path)
  let attrfid ← npcFidAlloc
  let r ← (do
    let ret ← npcXattrwalk rpc f attrfid attr
    if size = 0 then pure (ret, [])
    else if ret > size then do
      npUerror ERANGE
      pure (ret, [])
    else do
      let buf ← xattrLoop rpc reads attrfid size []
      pure ((buf.length : ℤ), buf)).attempt
  let _ ← (npcClunk rpc f).attempt
  let _ ← (npcClunk rpc attrfid).attempt
  match r with
  | some ret => pure ret
  | none => .stop

/-- `npc_setxattr`. What it returns is what the clunk returns. -/
def npcSetxattr (writes : ℕ) (root : Npcfid) (path name val : Bytes) (flags : UInt32) :
    Prog (Npcfsys X) Unit := do
  let f ← npcWalk rpc root (some path)
  let _ ← (do
    npcXattrcreate rpc f name (.ofNat val.length) flags
    putLoop rpc val.length writes f val 0).attempt
  npcClunk rpc f

/-! ### Requests about one fid -/

/-- `npc_mkdir` -/
def npcMkdir (f : Npcfid) (name : Bytes) (mode gid : UInt32) : Prog (Npcfsys X) Msg :=
  npcRpc rpc (.tmkdir f.fid name mode gid)

/-- `npc_rename` -/
def npcRename (f dfid : Npcfid) (name : Bytes) : Prog (Npcfsys X) Msg :=
  npcRpc rpc (.trename f.fid dfid.fid name)

/-- `npc_getattr`, and `npc_fstat` with `Gabasic` -/
def npcGetattr (f : Npcfid) (requestMask : UInt64) : Prog (Npcfsys X) Msg :=
  npcRpc rpc (.tgetattr f.fid requestMask)

/-- `npc_setattr`, and what is made from it: `npc_fchmod`, `npc_fchown`, `npc_ftruncate`,
`npc_futime` -/
def npcSetattr (f : Npcfid) (a : Nptsetattr) : Prog (Npcfsys X) Msg :=
  npcRpc rpc (.tsetattr { a with fid := f.fid })

/-- `npc_readdir` -/
def npcReaddir (f : Npcfid) (offset : UInt64) (count : UInt32) : Prog (Npcfsys X) Msg :=
  npcRpc rpc (.treaddir f.fid offset count)

/-- `npc_lock` -/
def npcLock (f : Npcfid) (type : UInt8) (flags : UInt32) (start length : UInt64) (procId : UInt32)
    (clientId : Bytes) : Prog (Npcfsys X) Msg :=
  npcRpc rpc (.tlock f.fid type flags start length procId clientId)

/-- `npc_getlock` -/
def npcGetlock (f : Npcfid) (type : UInt8) (start length : UInt64) (procId : UInt32)
    (clientId : Bytes) : Prog (Npcfsys X) Msg :=
  npcRpc rpc (.tgetlock f.fid type start length procId clientId)

/-- Walk, send one request, clunk. -/
def walkClunk {α : Type} (root : Npcfid) (path : Bytes) (op : Npcfid → Prog (Npcfsys X) α) :
    Prog (Npcfsys X) α := do
  let (f, a) ← walkThen rpc root path op
  npcClunk rpc f
  pure a

/-- `npc_mkdir_bypath` -/
def npcMkdirBypath (dirname basename : Bytes → Bytes) (root : Npcfid) (path : Bytes)
    (mode gid : UInt32) : Prog (Npcfsys X) Msg :=
  walkClunk rpc root (dirname path) fun f => npcMkdir rpc f (basename path) mode gid

/-- `npc_stat`, with `Gabasic` -/
def npcStat (root : Npcfid) (path : Bytes) : Prog (Npcfsys X) Msg :=
  walkClunk rpc root path fun f => npcGetattr rpc f 0x7ff

/-- `npc_chmod`, `npc_chown`, `npc_truncate` and `npc_utime` -/
def npcSetattrBypath (root : Npcfid) (path : Bytes) (a : Nptsetattr) : Prog (Npcfsys X) Msg :=
  walkClunk rpc root path fun f => npcSetattr rpc f a

/-- `S_ISDIR (sb.st_mode)`, of the reply to `npc_fstat` -/
def replyIsDir : Msg → Bool
  | .rgetattr a => a.mode &&& 0xf000 == 0x4000
  | _ => false

/-- `npc_opendir` -/
def npcOpendir (root : Npcfid) (path : Bytes) : Prog (Npcfsys X) Npcfid := do
  let f ← npcOpenBypath rpc root path 0
  let r ← (do
    let rc ← npcGetattr rpc f 0x7ff
    if replyIsDir rc then pure f else fail ENOTDIR).attempt
  match r with
  | some f => pure f
  | none => do
    let _ ← (npcClunk rpc f).attempt
    .stop

/-! ### Attaching -/

/-- `npc_auth`, with the function that writes a credential, or fails to have one. There is
no error where authentication is not required. -/
def npcAuth (writes : ℕ) (aname : Bytes) (uid : UInt32) (auth : Option (Except ℕ Bytes)) :
    Prog (Npcfsys X) Npcfid := do
  let afid ← npcFidAlloc
  match ← (npcRpc rpc (.tauth afid.fid [] aname uid)).attempt with
  | none => do
    npcFidFree afid
    let c ← .read
    .when (c.ecode = 0 ∨ c.ecode = ENOENT) (npUerror 0)
    .stop
  | some _ => do
    let r ← (match auth with
      | none => pure ()
      | some (.error e) => fail e
      | some (.ok cred) => do
        let _ ← npcPuts rpc writes afid cred).attempt
    match r with
    | some _ => pure afid
    | none => clunkAndFail rpc afid

/-- `npc_attach`. Whether it has failed is asked of `np_rerror`. -/
def npcAttach (afid : Option Npcfid) (aname : Bytes) (uid : UInt32) : Prog (Npcfsys X) Npcfid := do
  let f ← npcFidAlloc
  let _ ← (npcRpc rpc (.tattach f.fid ((afid.map (·.fid)).getD NOFID) [] aname uid)).attempt
  let c ← .read
  if c.ecode ≠ 0 then do
    npcFidFree f
    .stop
  else pure f

end Npc

end Diod
