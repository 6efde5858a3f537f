import Diod.Npfs.World

/-!
# Users and credentials

`np_setfsid` of `user-linux.c`, which gives the thread the credentials of a fid's
user before an operation, and the lookups of users in `user.c`. The thread remembers
which credentials it has, so that most requests need no call; when a call fails it
remembers that it does not know (`NONUNAME`).

The kernel's part is modelled as documented: `setfsuid` and `setfsgid` take effect
and return the previous id, or fail, and a change of the uid to or from 0 sets or
clears the capabilities. That a thread may change its ids at all is checked when the
server starts.
-/

namespace Diod

variable {σ : Type} (H : Host σ) (S : Npsrv)

/-- A call that changes the credentials. -/
def credCall (c : HostCall) : Prog (World σ) HostReply := fun w =>
  let (r, s) := H.call c w.b.host
  (.ok r, { w with b := { w.b with host := s } })

/-- Change what the thread believes, or what is. -/
def setWthread (g : Wthread → Wthread) : Prog (World σ) Unit :=
  .modify fun w => { w with wt := g w.wt }

/-- The kernel's `setfsuid`. The id `-1` is not set. -/
def Kcred.setfsuid (k : Kcred) (uid : UInt32) : Kcred :=
  if uid = NONUNAME then k
  else { k with
    fsuid := uid, caps := if uid = 0 then true else if k.fsuid = 0 then false else k.caps }

/-- The kernel's `setfsgid` -/
def Kcred.setfsgid (k : Kcred) (gid : UInt32) : Kcred :=
  if gid = NONUNAME then k else { k with fsgid := gid }

/-- `setfsgid`: the previous gid and what `errno` is then, or an error. -/
def setfsgid (gid : UInt32) : Prog (World σ) (Except ℕ (UInt32 × ℕ)) := do
  let r ← credCall H (.setfsgid gid)
  if r.err ≠ 0 then return .error r.err
  let w ← .read
  setWthread fun t => { t with k := t.k.setfsgid gid }
  return .ok (w.wt.k.fsgid, r.num)

/-- `setfsuid`: the previous uid, or an error. -/
def setfsuid (uid : UInt32) : Prog (World σ) (Except ℕ UInt32) := do
  let r ← credCall H (.setfsuid uid)
  if r.err ≠ 0 then return .error r.err
  let w ← .read
  setWthread fun t => { t with k := t.k.setfsuid uid }
  return .ok w.wt.k.fsuid

/-- The gid that `np_setfsid` sets. It must be one of the user's groups, unless the
connection is trusted. -/
def fsidGid (u : Npuser) (gidOverride : UInt32) : Prog (World σ) UInt32 := do
  let w ← .read
  failIf (gidOverride ≠ 0xffffffff ∧ u.uid ≠ 0 ∧ w.conn.authuser ≠ 0 ∧ ¬S.nouserdb ∧
    gidOverride ∉ u.sg) EPERM
  pure (if gidOverride = 0xffffffff then u.gid else gidOverride)

/-- `np_uerror (e); wt->fsgid = NONUNAME; goto done;` -/
def loseGid (e : ℕ) : Prog (World σ) Unit := do
  setWthread fun t => { t with fsgid := NONUNAME }
  fail e

/-- The first part of `np_setfsid`, for the gid. When the previous gid is not the one
expected, the error is whatever `errno` is. -/
def switchGid (gid : UInt32) : Prog (World σ) Unit := do
  let w ← .read
  .when (w.wt.fsgid ≠ gid) do
    match ← setfsgid H gid with
    | .error e => loseGid e
    | .ok (n, errno) =>
      if n ≠ w.wt.fsgid then loseGid errno else setWthread fun t => { t with fsgid := gid }

/-- `np_uerror (e); wt->fsuid = NONUNAME; goto done;` -/
def loseUid (e : ℕ) : Prog (World σ) Unit := do
  setWthread fun t => { t with fsuid := NONUNAME }
  fail e

/-- The supplementary groups. -/
def switchGroups (u : Npuser) : Prog (World σ) Unit := do
  let r ← credCall H (.setgroups u.sg)
  if r.err ≠ 0 then loseUid r.err
  else setWthread fun t => { t with k := { t.k with groups := u.sg } }

/-- What follows when the uid is set: the capabilities that come and go with it, and the
supplementary groups. -/
def followUid (u : Npuser) : Prog (World σ) Unit := do
  setWthread fun t => { t with
    privcap := if u.uid = 0 then true else if t.fsuid = 0 then false else t.privcap }
  .when S.setgroups (switchGroups H u)
  setWthread fun t => { t with fsuid := u.uid }

/-- The second part, for the uid. -/
def switchUid (u : Npuser) : Prog (World σ) Unit := do
  let w ← .read
  .when (w.wt.fsuid ≠ u.uid) do
    match ← setfsuid H u.uid with
    | .error e => loseUid e
    | .ok n => if n ≠ w.wt.fsuid then loseUid EPERM else followUid H S u

/-- `_chg_privcap` -/
def chgPrivcap (val : Bool) : Prog (World σ) Unit := do
  let r ← credCall H (.chgPrivcap val)
  failIf (r.err ≠ 0) r.err
  setWthread fun t => { t with privcap := val, k := { t.k with caps := val } }

/-- The last part, for the capabilities of a connection that is trusted. -/
def switchCaps : Prog (World σ) Unit := do
  let w ← .read
  .when (S.dacBypass ∧ w.wt.fsuid ≠ 0) do
    if ¬w.wt.privcap ∧ w.conn.authuser = 0 then chgPrivcap H true
    else .when (w.wt.privcap ∧ w.conn.authuser ≠ 0) (chgPrivcap H false)

/-- What `np_setfsid` does when ids are switched. A fid without a user is a crash
then. -/
def switchIds (gidOverride : UInt32) : Option Npuser → Prog (World σ) Unit
  | none => .crash
  | some u => do
    let gid ← fsidGid S u gidOverride
    switchGid H gid
    switchUid H S u

/-- `np_setfsid` -/
def npSetfsid (u : Option Npuser) (gidOverride : UInt32) : Prog (World σ) Unit := do
  .when S.setfsid (switchIds H S gidOverride u)
  switchCaps H S

/-! ### Looking up users -/

/-- `np_attach2user` -/
def npAttach2user (ans : Ans) (uname : Bytes) (nUname : UInt32) : Prog (World σ) Npuser := do
  failIf (nUname = NONUNAME ∧ uname = []) EIO
  match ans.user with
  | .ok u => pure u
  | .error e => fail e

/-- `np_afid2user` -/
def npAfid2user (afid : Npfid) (uname : Bytes) (nUname : UInt32) : Prog (World σ) Npuser := do
  match afid.user with
  | none => .crash
  | some u => do
    failIf (if nUname ≠ NONUNAME then nUname ≠ u.uid
      else npStrEq (S.behind u.uname) uname u.uname = false) EPERM
    pure u

end Diod
