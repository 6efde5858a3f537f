import Diod.Npfs.Fidpool

/-!
# The state a request is processed in

A request is processed by one worker thread on the state of one connection
(`Diod.World`). The state has the connection and its fids, the thread with the
credentials it runs under, and what the file server and the host share between all
connections. What happens is written down as a list of `Diod.Event`: the calls made
to the host, each with the users of the fids it is made for and the user the thread
runs as; the operations of the three backends, each with what hangs on the fids they
are given; and the fids that were looked up.

The operations of a backend run on what hangs on a fid, and can change nothing else
of a connection. `Diod.runOp` is the only way into them.
-/

namespace Diod

/-! ### Connections, threads, the server -/

/-- `Npconn`, as far as requests depend on it. -/
structure Npconn where
  client : Client := {}
  msize : UInt32
  authuser : UInt32 := NONUNAME
  pool : FidPool := .empty

/-- The credentials of a thread, as the kernel has them. The three capabilities that
`_chg_privcap` sets are set and cleared together. -/
structure Kcred where
  (fsuid fsgid : UInt32)
  groups : List UInt32 := []
  caps : Bool

/-- `Npwthread`: what the thread believes its credentials to be, and what they are. -/
structure Wthread where
  (fsuid fsgid : UInt32)
  privcap : Bool
  k : Kcred

/-- A thread as `np_wthread_create` makes it. -/
def Wthread.new (euid egid : UInt32) : Wthread :=
  ⟨euid, egid, euid == 0, ⟨euid, egid, [], euid == 0⟩⟩

/-- `Npsrv`, with its flags. -/
structure Npsrv where
  /-- `SRV_FLAGS_SETFSID` -/
  setfsid : Bool := false
  /-- `SRV_FLAGS_AUTHCONN` -/
  authconn : Bool := false
  /-- `SRV_FLAGS_NOUSERDB` -/
  nouserdb : Bool := false
  /-- `SRV_FLAGS_DAC_BYPASS` -/
  dacBypass : Bool := false
  /-- `SRV_FLAGS_SETGROUPS` -/
  setgroups : Bool := false
  /-- `SRV_FLAGS_LOOSEFID` -/
  loosefid : Bool := false
  conf : Conf
  ctlroot : Ctlroot := {}
  /-- What lies behind a C string in memory. -/
  behind : Bytes → ℕ → UInt8 := fun _ _ => 0

/-- What the user database and MUNGE say while a request is processed. -/
structure Ans where
  /-- There is memory for looking at the exports. -/
  mem : Bool := true
  /-- The user that the request names. -/
  user : Except ℕ Npuser := .error EPERM
  /-- The user that all users are squashed to. -/
  squash : Except ℕ Npuser := .error EPERM
  /-- The uid a credential is for. -/
  munge : Bytes → Option UInt32 := fun _ => none

/-! ### Events -/

/-- What happens while a request is processed. -/
inductive Event where
  /-- A call for fids of these users, by a thread that runs as `fsuid`. -/
  | call (uids : List (Option UInt32)) (fsuid : UInt32) (c : HostCall) (err : ℕ)
  /-- An operation of a backend, on fids with these auxes. -/
  | op (k : Backend) (auxes : List (Option Backend))
  /-- `np_fid_find` returned this fid. -/
  | find (f : Npfid)
  /-- `checkauth` accepted a credential for this uid. -/
  | checkauth (uid : UInt32)
  /-- An attach as root, where authentication is not required. -/
  | rootAttach

/-- The state a request is processed in. -/
structure World (σ : Type) where
  conn : Npconn
  wt : Wthread
  b : Back σ
  /-- `req->fid` -/
  rfid : Option ℕ
  trace : List Event

namespace World

variable {σ : Type}

/-- A new connection, and a thread that runs as root. -/
def new (s : σ) : World σ where
  conn := { msize := 65536 }
  wt := .new 0 0
  b := ⟨s, .empty, .empty, 0, []⟩
  rfid := none
  trace := []

/-- What hangs on a fid. -/
def aux (w : World σ) (p : ℕ) : Aux := ((w.conn.pool.get p).map (·.aux)).getD .null

/-- The uid of a fid's user. -/
def uid (w : World σ) (p : ℕ) : Option UInt32 := (w.conn.pool.get p).bind (·.uid)

variable {w : World σ} {p : ℕ} {f : Npfid}

theorem aux_of_get (h : w.conn.pool.get p = some f) : w.aux p = f.aux := by
  rw [aux, h]
  rfl

theorem uid_of_get (h : w.conn.pool.get p = some f) : w.uid p = f.uid := by
  rw [uid, h]
  rfl

/-- Change the pool. -/
def setPool (w : World σ) (P : FidPool) : World σ := { w with conn := { w.conn with pool := P } }

end World

variable {σ F α : Type}

/-! ### Errors and memory -/

/-- `np_uerror` -/
def npUerror (e : ℕ) : Prog (World σ) Unit :=
  .modify fun w => { w with b := { w.b with ecode := e } }

/-- `np_uerror (e); goto done;` -/
def fail (e : ℕ) : Prog (World σ) α := do
  npUerror e
  .stop

/-- `if (c) { np_uerror (e); goto done; }` -/
def failIf (c : Prop) [Decidable c] (e : ℕ) : Prog (World σ) Unit := .when c (fail e)

/-- Write an event down. -/
def record (e : Event) : Prog (World σ) Unit := .modify fun w => { w with trace := w.trace ++ [e] }

/-- `*p`. A pointer that leads nowhere is a crash. -/
def deref (p : ℕ) : Prog (World σ) Npfid := fun w =>
  match w.conn.pool.get p with
  | some f => (.ok f, w)
  | none => (.crash, w)

/-- Change a fid. -/
def updateFid (p : ℕ) (g : Npfid → Npfid) : Prog (World σ) Unit :=
  .modify fun w => w.setPool (w.conn.pool.update p g)

/-! ### Operations of a backend -/

/-- **Run an operation** on what hangs on a fid, for fids of these users. -/
def runOp (uids : List (Option UInt32)) (f : F) (x : Prog (Ost σ F) α) (w : World σ) :
    Res α × F × World σ :=
  let (r, o) := x ⟨{ w.b with log := [] }, f⟩
  (r, o.f, { w with
    b := { o.toBack with log := [] }
    trace := w.trace ++ o.log.map fun l => .call uids w.wt.k.fsuid l.1 l.2 })

/-- The auxes of a backend. -/
structure AuxView (F : Type) where
  backend : Backend
  get : Aux → Option F
  put : F → Aux
  put_of_get : ∀ {a f}, get a = some f → a = put f
  backend_put : ∀ f, (put f).backend = some backend

/-- Those of the file server. -/
def srvAux : AuxView DiodFid where
  backend := .srv
  get | .srv f => some f | _ => none
  put := .srv
  put_of_get {a _} h := by cases a <;> simp_all
  backend_put _ := rfl

/-- Those of the server itself. -/
def ctlAux : AuxView CtlFid where
  backend := .ctl
  get | .ctl f => some f | _ => none
  put := .ctl
  put_of_get {a _} h := by cases a <;> simp_all
  backend_put _ := rfl

/-- Those of the authentication. -/
def authAux : AuxView Da where
  backend := .auth
  get | .auth d => some d | _ => none
  put := .auth
  put_of_get {a _} h := by cases a <;> simp_all
  backend_put _ := rfl

/-- The aux of a fid, taken to be one of a backend. -/
def derefAux (V : AuxView F) (p : ℕ) : Prog (World σ) F := fun w =>
  match V.get (w.aux p) with
  | some f => (.ok f, w)
  | none => (.crash, w)

/-- Run an operation on the aux of a fid, for fids of these users. -/
def runAux (V : AuxView F) (p : ℕ) (uids : List (Option UInt32)) (x : Prog (Ost σ F) α) :
    Prog (World σ) α := fun w =>
  match V.get (w.aux p) with
  | none => (.crash, w)
  | some f =>
    let (r, f', w') := runOp uids f x w
    (r, w'.setPool (w'.conn.pool.update p fun g => { g with aux := V.put f' }))

/-- An operation of a backend on a fid. -/
def auxOp (V : AuxView F) (p : ℕ) (x : Prog (Ost σ F) α) : Prog (World σ) α := do
  let w ← .read
  record (.op V.backend [(w.aux p).backend])
  runAux V p [w.uid p] x

/-- An operation of the file server on a fid, with another that is only read. -/
def srvOp2 (p q : ℕ) (x : DiodFid → Prog (Ost σ DiodFid) α) : Prog (World σ) α := do
  let w ← .read
  record (.op .srv [(w.aux p).backend, (w.aux q).backend])
  let d ← derefAux srvAux q
  runAux srvAux p [w.uid p, w.uid q] (x d)

variable (H : Host σ) (S : Npsrv)

/-- A `malloc`. -/
def malloc : Prog (World σ) Malloc := fun w =>
  let (m, s) := H.malloc w.b.host
  (.ok m, { w with b := { w.b with host := s } })

/-- `if (!(rc = np_create_..)) { np_uerror (ENOMEM); goto done; }` -/
def allocOr (e : ℕ) : Prog (World σ) Unit := do
  match ← malloc H with
  | some _ => pure ()
  | none => fail e

/-! ### The pool -/

/-- `_destroy_fid`, of a fid that is out of the pool. The hook is chosen by the type of
the fid, and does nothing when nothing hangs on it. -/
def destroyFid (f : Npfid) : Prog (World σ) Unit := do
  if f.isAuth then
    match f.aux with
    | .null | .auth _ => pure ()
    | _ => .crash
  else if f.isTmp then
    match f.aux with
    | .null | .ctl _ => pure ()
    | _ => .crash
  else
    match f.aux with
    | .null => pure ()
    | .srv d => fun w =>
      match runOp [f.uid] d (Op.diodFiddestroy H) w with
      | (.crash, _, w') => (.crash, w')
      | (_, _, w') => (.ok (), w')
    | _ => .crash

/-- `np_fid_find` -/
def npFidFind (n : UInt32) : Prog (World σ) (Option ℕ) := do
  let w ← .read
  match w.conn.pool.lookup n with
  | some (p, f) => do
    record (.find f)
    .modify fun w => w.setPool (w.conn.pool.incref p)
    pure (some p)
  | none => pure none

/-- What `np_fid_create` does with a fid that is in the way. Its path is printed, which
takes it to be a fid of the file server. -/
def unclunked (n : UInt32) : Prog (World σ) Unit := do
  let w ← .read
  match w.conn.pool.lookup n with
  | none => pure ()
  | some (p, f) => do
    record (.op .srv [f.aux.backend])
    .when (f.aux.backend.any (· ≠ .srv)) .crash
    if S.loosefid then updateFid p fun f => { f with zombie := true } else fail EEXIST

/-- `np_fid_create` -/
def npFidCreate (n : UInt32) : Prog (World σ) ℕ := do
  unclunked S n
  allocOr H ENOMEM
  let w ← .read
  .modify fun w => w.setPool (w.conn.pool.create n)
  pure w.conn.pool.next

/-- `np_fid_incref` -/
def npFidIncref (p : ℕ) : Prog (World σ) Unit := do
  let _ ← deref p
  .modify fun w => w.setPool (w.conn.pool.incref p)

/-- `np_fid_decref`. The result is whether the fid was destroyed. -/
def npFidDecref (p : ℕ) : Prog (World σ) Bool := do
  let f ← deref p
  .modify fun w => w.setPool (w.conn.pool.decref p)
  if f.refcount = 1 then do
    destroyFid H f
    pure true
  else pure false

/-- `np_fid_decref (&req->fid)` -/
def npFidDecrefReq : Prog (World σ) Unit := do
  let w ← .read
  match w.rfid with
  | none => pure ()
  | some p => do
    let destroyed ← npFidDecref H p
    .when destroyed (.modify fun w => { w with rfid := none })

/-- `np_fid_decref_bynum` -/
def npFidDecrefBynum (n : UInt32) : Prog (World σ) Unit := do
  let w ← .read
  match w.conn.pool.lookup n with
  | some (p, _) => do
    let _ ← npFidDecref H p
  | none => pure ()

end Diod
