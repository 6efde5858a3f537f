import Diod.Npfs.Handlers

/-!
# From a request to its reply

`srv.c`: the receive thread looks up or makes the request's fid
(`Diod.npPreprocessRequest`), a worker thread runs the handler for its type
(`Diod.npProcessRequest`), releases the fid and replies
(`Diod.npPostprocessRequest`). A request that is taken out of the queue before a
worker gets to it is only released (`Diod.npReqUnref`).

`Diod.serve` is all of this for one request, with nothing in between.
-/

namespace Diod

variable {σ : Type} (H : Host σ) (S : Npsrv)

/-! ### The fids a request names -/

namespace Fcall

/-- The fid that `np_preprocess_request` looks up for a request. -/
def reqFid : Msg → Option UInt32
  | .tstatfs fid | .tlopen fid _ | .tlcreate fid .. | .tsymlink fid .. | .tmknod fid ..
  | .trename fid _ _ | .treadlink fid | .tgetattr fid _ | .txattrwalk fid _ _
  | .txattrcreate fid .. | .treaddir fid _ _ | .tfsync fid _ | .tlock fid .. | .tgetlock fid ..
  | .tmkdir fid .. | .twalk fid _ _ | .tread fid _ _ | .twrite fid .. | .tclunk fid
  | .tremove fid => some fid
  | .tsetattr a => some a.fid
  | .tlink dfid _ _ => some dfid
  | .trenameat olddirfid _ _ _ => some olddirfid
  | .tunlinkat dirfid _ _ => some dirfid
  | _ => none

/-- The fids that a handler looks up. -/
def finds : Msg → List UInt32
  | .trename _ dfid _ => [dfid]
  | .tlink _ fid _ => [fid]
  | .trenameat _ _ newdirfid _ => [newdirfid]
  | .tattach _ afid _ _ _ => if afid = NOFID then [] else [afid]
  | _ => []

/-- The fids that are made when a request is received. -/
def opens : Msg → List UInt32
  | .tauth afid _ _ _ => [afid]
  | .tattach fid _ _ _ _ => [fid]
  | _ => []

/-- The fids that a handler makes. -/
def makes : Msg → List UInt32
  | .twalk fid newfid _ => if fid = newfid then [] else [newfid]
  | .txattrwalk _ attrfid _ => [attrfid]
  | _ => []

/-- **The fids a request makes.** -/
def creates (tc : Msg) : List UInt32 := tc.opens ++ tc.makes

/-- **The fids a request names**, in any of its arguments. -/
def fids (tc : Msg) : List UInt32 := tc.reqFid.toList ++ tc.finds ++ tc.creates

end Fcall

/-! ### The receive thread -/

/-- Change `req->fid`. -/
def setReqFid (p : Option ℕ) : Prog (World σ) Unit := .modify fun w => { w with rfid := p }

/-- The fid of a `Tauth` or a `Tattach`. It goes again if there is no memory for its
name. -/
def newReqFid (n : UInt32) (aname : Bytes) : Prog (World σ) Unit := do
  match ← (npFidCreate H S n).attempt with
  | none => pure ()
  | some p => do
    match ← malloc H with
    | some _ => do
      updateFid p fun f => { f with aname := some (cstr aname) }
      setReqFid (some p)
    | none => do
      let _ ← npFidDecref H p

/-- The fid of any other request. -/
def findReqFid : Option UInt32 → Prog (World σ) Unit
  | none => pure ()
  | some n => do
    let p ← npFidFind n
    setReqFid p

/-- `np_preprocess_request` -/
def npPreprocessRequest : Msg → Prog (World σ) Unit
  | .tauth afid _ aname _ => newReqFid H S afid aname
  | .tattach fid _ _ aname _ => newReqFid H S fid aname
  | tc => findReqFid tc.reqFid

/-- What `np_req_unref` does with the fid. -/
def npReqUnref : Prog (World σ) Unit := do
  let w ← .read
  match w.rfid with
  | none => pure ()
  | some p => do
    let _ ← npFidDecref H p
    setReqFid none

/-! ### A worker thread -/

/-- The handler for a request. A `Tflush`, or what is not a request, does not get this
far. -/
def handler (ans : Ans) : Msg → Prog (World σ) Msg
  | .tstatfs _ => npStatfs H S
  | .tlopen _ flags => npLopen H S flags
  | .tlcreate _ name flags mode gid => npLcreate H S name flags mode gid
  | .tsymlink _ name symtgt gid => npSymlink H S name symtgt gid
  | .tmknod _ name mode major minor gid => npMknod H S name mode major minor gid
  | .trename _ dfid name => npRename H S dfid name
  | .treadlink _ => npReadlink H S
  | .tgetattr _ requestMask => npGetattr H S requestMask
  | .tsetattr a => npSetattr H S a
  | .txattrwalk _ attrfid name => npXattrwalk H S attrfid name
  | .txattrcreate _ name size flag => npXattrcreate H S name size flag
  | .treaddir _ offset count => npReaddir H S offset count
  | .tfsync _ datasync => npFsync H S datasync
  | .tlock _ type flags _ _ _ _ => npLock H S type flags
  | .tgetlock _ type start length procId clientId =>
      npGetlock H S type start length procId clientId
  | .tlink _ fid name => npLink H S fid name
  | .tmkdir _ name mode gid => npMkdir H S name mode gid
  | .trenameat _ oldname newdirfid newname => npRenameat H S oldname newdirfid newname
  | .tunlinkat _ name flags => npUnlinkat H S name flags
  | .tversion msize version => npVersion H S msize version
  | .tauth _ uname aname nUname => npAuth H S ans uname aname nUname
  | .tattach _ afid uname aname nUname => npAttach H S ans afid uname aname nUname
  | .twalk fid newfid wnames => npWalk H S fid newfid wnames
  | .tread _ offset count => npRead H S offset count
  | .twrite _ offset count data => npWrite H S offset count data
  | .tclunk _ => npClunk H
  | .tremove _ => npRemove H S
  | _ => .crash

/-- `np_process_request`: the reply, or nothing on an error -/
def npProcessRequest (ans : Ans) (tc : Msg) : Prog (World σ) (Option Msg) := do
  npUerror 0
  (handler H S ans tc).attempt

/-- The accounting of `np_postprocess_request` for an operation that was interrupted. -/
def interrupted : Msg → Prog (World σ) Unit
  | .tclunk _ | .tremove _ => setReqFid none
  | .twalk fid newfid _ => .when (fid ≠ newfid) (npFidDecrefBynum H newfid)
  | _ => pure ()

/-- What is sent: an error, or the reply. A request that was interrupted is not
answered. -/
def answer (ecode : ℕ) (rc : Option Msg) : Prog (World σ) (Option Msg) :=
  if ecode = EINTR then pure none
  else if ecode ≠ 0 then pure (some (.rlerror (.ofNat ecode)))
  else
    match rc with
    | some rc => pure (some rc)
    | none => .crash

/-- `np_postprocess_request`: the message that is sent, if one is -/
def npPostprocessRequest (tc : Msg) (ecode : ℕ) (rc : Option Msg) :
    Prog (World σ) (Option Msg) := do
  .when (ecode = EINTR) (interrupted H tc)
  npReqUnref H
  answer ecode rc

/-- **One request**, from its receipt to its reply, with nothing in between. A `Tflush`
then finds nothing to flush. -/
def serve (ans : Ans) : Msg → Prog (World σ) (Option Msg)
  | .tflush _ => pure (some .rflush)
  | tc => do
    npPreprocessRequest H S tc
    let rc ← npProcessRequest H S ans tc
    let w ← .read
    npPostprocessRequest H tc w.b.ecode rc

end Diod
