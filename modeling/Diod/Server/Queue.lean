import Diod.Lib.Runs
import Diod.Host.Calls

/-!
# Queues of requests

`srv.c`, `conn.c` and `np_flush` of `fcall.c`: what happens to a request between its
receipt and its reply. The receive thread of a connection puts it into the queue of a
thread pool; a worker of the pool moves it to the work list, processes it, releases its
fid, sends the reply, takes it off the work list and answers the `Tflush` that may have
come in the meantime. A `Tflush` is handled by the receive thread at once, and the end
of a connection flushes what is left of its requests.

What a handler does is a label here: the error number it leaves, and what becomes of
the references on fids. Requests are numbered in the order in which they are received,
which is also the order of a queue; a worker takes the first, so a work list has the
requests of its pool in the opposite order.

Fids matter only for the thread pools. A pool stays on the server's list as long as a
fid refers to it, and is looked for by `Tflush` only there.
-/

namespace Diod

/-- How far a worker has got with a request on the work list. -/
inductive Stage where
  /-- Taken out of the queue. -/
  | picked
  /-- Processed, with this error number. -/
  | processed (ecode : ℕ)
  /-- The fid has been released. -/
  | released (ecode : ℕ)
  /-- The reply has been sent, or suppressed. -/
  | replied
deriving DecidableEq

/-- Where a request is. -/
inductive Place where
  | queued (tp : ℕ)
  | working (tp : ℕ) (st : Stage)
  /-- Off the work list. -/
  | left
  | freed
deriving DecidableEq

/-- On the work list of a thread pool. -/
def Place.worksAt (tp : ℕ) : Place → Bool
  | .working tp' _ => tp' = tp
  | _ => false

/-- In the queue or on the work list of a thread pool. -/
def Place.isAt (tp : ℕ) : Place → Bool
  | .queued tp' | .working tp' _ => tp' = tp
  | _ => false

/-- Neither waiting nor on a work list. -/
def Place.gone : Place → Bool
  | .left | .freed => true
  | _ => false

/-- The request still refers to its fid. -/
def Place.holds : Place → Bool
  | .queued _ | .working _ .picked | .working _ (.processed _) => true
  | _ => false

/-- With a worker, or just off the work list. -/
def Place.begun : Place → Bool
  | .working _ _ | .left => true
  | _ => false

/-- A reply to the request may still be sent. -/
def Place.early : Place → Bool
  | .queued _ | .working _ .picked | .working _ (.processed _) | .working _ (.released _) => true
  | _ => false

/-- What kind of request it is, as far as references go. -/
inductive Qkind where
  /-- `Tclunk`, `Tremove` -/
  | drop
  /-- `Twalk` to a new fid -/
  | walk
  | other
deriving DecidableEq

/-- `Npreq`, of any request but a `Tflush`. -/
structure Qreq where
  conn : ℕ
  tag : UInt16
  kind : Qkind := .other
  /-- `req->fid` -/
  fid : Option ℕ := none
  /-- `req->state == REQ_NOREPLY` -/
  noreply : Bool := false
  /-- `req->flushreq` -/
  flushreq : Option ℕ := none
  place : Place := .freed
deriving DecidableEq

/-- `Npreq`, of a `Tflush`, with the request that the client means, which is the last one
it sent with that tag, and the one that was found, with whether it still waited. -/
structure Qflush where
  conn : ℕ
  oldtag : UInt16
  meant : Option ℕ
  found : Option (ℕ × Bool)
deriving DecidableEq

/-- `Npfid`, as far as thread pools go. -/
structure Qfid where
  conn : ℕ
  refcount : ℕ
  tpool : Option ℕ
  /-- Its creation has succeeded, and it has not been clunked, or not for long. -/
  owned : Bool := false
deriving DecidableEq

/-- What is sent to a client. -/
inductive Sent where
  | reply (i : ℕ)
  | rflush (j : ℕ)
deriving DecidableEq

/-- The fid of a request when it is received. -/
inductive Source where
  /-- There is none. -/
  | none
  /-- `np_fid_find` -/
  | found (f : ℕ)
  /-- `np_fid_create`, with the thread pool that is selected -/
  | made (tp : Option ℕ)
deriving DecidableEq

/-- What a handler does with references, when it has done its work. -/
inductive RefEffect where
  | nothing
  /-- `Tattach`, `Tauth`: one more on the request's fid -/
  | keep
  /-- `Twalk`, `Txattrwalk`: a new fid, with the pool of the request's -/
  | clone
  /-- `Tclunk`, `Tremove`: one less on the request's fid -/
  | drop
deriving DecidableEq

/-- The thread pools of the server and the fids that refer to them. -/
structure Tpools where
  /-- `srv->tpool`: the default pool, and then the others. -/
  list : List ℕ := [0]
  /-- `tp->refcount` -/
  refs : ℕ → ℕ := fun tp => if tp = 0 then 1 else 0
  nfid : ℕ := 0
  fid : ℕ → Qfid := fun _ => ⟨0, 0, none, false⟩

/-- The state of the server, as far as queues go. -/
structure Qsrv where
  tp : Tpools := {}
  nreq : ℕ := 0
  req : ℕ → Qreq := fun _ => ⟨0, 0, .other, none, false, none, .freed⟩
  nflush : ℕ := 0
  flush : ℕ → Qflush := fun _ => ⟨0, 0, none, none⟩
  /-- Connections whose requests have been flushed, and that read no more. -/
  closing : ℕ → Bool := fun _ => false
  sent : List Sent := []

/-! ### References -/

namespace Tpools

variable (t : Tpools)

/-- Change a fid. -/
def setFid (f : ℕ) (g : Qfid → Qfid) : Tpools :=
  { t with fid := fun k => if k = f then g (t.fid k) else t.fid k }

/-- `np_tpool_incref` -/
def incref : Option ℕ → Tpools
  | none => t
  | some tp => { t with refs := fun k => if k = tp then t.refs k + 1 else t.refs k }

/-- `np_tpool_decref` -/
def decref : Option ℕ → Tpools
  | none => t
  | some tp => { t with refs := fun k => if k = tp then t.refs k - 1 else t.refs k }

/-- `np_fid_incref` -/
def fidIncref (f : ℕ) : Tpools := t.setFid f fun x => { x with refcount := x.refcount + 1 }

/-- `np_fid_decref`: the last reference takes the one on the pool with it. -/
def fidDecref (f : ℕ) : Tpools :=
  let t' := t.setFid f fun x => { x with refcount := x.refcount - 1 }
  if (t.fid f).refcount = 1 then t'.decref (t.fid f).tpool else t'

/-- The reference of a request. -/
def decrefOpt : Option ℕ → Tpools
  | none => t
  | some f => t.fidDecref f

/-- A new fid, with a reference on its pool. -/
def makeFid (conn : ℕ) (tp : Option ℕ) (owned : Bool) : Tpools :=
  { t.incref tp with
    nfid := t.nfid + 1
    fid := fun f => if f = t.nfid then ⟨conn, 1, tp, owned⟩ else t.fid f }

/-- The pool that `np_tpool_select` makes, if there is none of the name, comes second. -/
def select : Option ℕ → Tpools
  | none => t
  | some tp => if tp ∈ t.list then t else { t with list := t.list.headD 0 :: tp :: t.list.tail }

/-- The pool of a fid, or the default one. -/
def poolFor (fid : Option ℕ) : ℕ := (fid.bind fun f => (t.fid f).tpool).getD (t.list.headD 0)

/-- What a handler does with references. -/
def refEffect (f : ℕ) : RefEffect → Tpools
  | .nothing => t
  | .keep => t.setFid f fun x => { x with refcount := x.refcount + 1, owned := true }
  | .clone => t.makeFid (t.fid f).conn (t.fid f).tpool true
  | .drop => (t.setFid f fun x => { x with owned := false }).fidDecref f

/-- What `np_fidpool_destroy` does with one fid. -/
def destroyFid (conn : ℕ) (t : Tpools) (f : ℕ) : Tpools :=
  if (t.fid f).conn = conn ∧ (t.fid f).refcount ≠ 0 then
    (t.decref (t.fid f).tpool).setFid f fun x => { x with refcount := 0, owned := false }
  else t

/-- `np_tpool_cleanup` -/
def cleanup : Tpools := { t with list := t.list.filter fun tp => t.refs tp ≠ 0 }

end Tpools

namespace Qsrv

variable (s : Qsrv)

/-! ### The lists -/

/-- The requests of a thread pool that wait, the first one first. -/
def reqs (tp : ℕ) : List ℕ :=
  (List.range s.nreq).filter fun i => (s.req i).place = .queued tp

/-- The requests of a thread pool that are worked on, the last one first. -/
def workreqs (tp : ℕ) : List ℕ :=
  ((List.range s.nreq).filter fun i => (s.req i).place.worksAt tp).reverse

/-- `creq->conn == req->conn && creq->tag == oldtag` -/
def isFor (conn : ℕ) (oldtag : UInt16) (i : ℕ) : Bool :=
  (s.req i).conn == conn && (s.req i).tag == oldtag

/-- The search of `np_flush` in one pool: a request, and whether it still waits. -/
def findIn (conn : ℕ) (oldtag : UInt16) (tp : ℕ) : Option (ℕ × Bool) :=
  match (s.reqs tp).find? (s.isFor conn oldtag) with
  | some i => some (i, true)
  | none => ((s.workreqs tp).find? (s.isFor conn oldtag)).map fun i => (i, false)

/-- The search of `np_flush`. -/
def findReq (conn : ℕ) (oldtag : UInt16) : Option (ℕ × Bool) :=
  s.tp.list.findSome? (s.findIn conn oldtag)

/-- The request that a client means by a tag. -/
def meant (conn : ℕ) (oldtag : UInt16) : Option ℕ :=
  (List.range s.nreq).reverse.find? (s.isFor conn oldtag)

/-! ### Parts of a step -/

/-- Change a request. -/
def setReq (i : ℕ) (g : Qreq → Qreq) : Qsrv :=
  { s with req := fun j => if j = i then g (s.req j) else s.req j }

/-- Change the references. -/
def setTp (t : Tpools) : Qsrv := { s with tp := t }

/-- Send something. -/
def send (m : Sent) : Qsrv := { s with sent := s.sent ++ [m] }

/-- `np_req_unref`, the last time -/
def reqUnref (i : ℕ) : Qsrv :=
  (s.setTp (s.tp.decrefOpt (s.req i).fid)).setReq i fun r =>
    { r with place := .freed, fid := none }

/-- `np_srv_add_req` -/
def addReq (conn : ℕ) (tag : UInt16) (kind : Qkind) (fid : Option ℕ) : Qsrv :=
  { s with
    nreq := s.nreq + 1
    req := fun i => if i = s.nreq then
        ⟨conn, tag, kind, fid, false, none, .queued (s.tp.poolFor fid)⟩
      else s.req i }

/-- Write a `Tflush` down. -/
def addFlush (x : Qflush) : Qsrv :=
  { s with nflush := s.nflush + 1, flush := fun j => if j = s.nflush then x else s.flush j }

/-- `np_flush`, of a `Tflush` that has been written down -/
def npFlush (j : ℕ) : Option (ℕ × Bool) → Qsrv
  | some (i, true) => (s.reqUnref i).send (.rflush j)
  | some (i, false) => s.setReq i fun r => { r with flushreq := some j }
  | none => s.send (.rflush j)

/-- The accounting for an operation that was interrupted, with the fid that goes by the
number of the new one. -/
def interrupted (i : ℕ) (bynum : Option ℕ) : Qsrv :=
  match (s.req i).kind with
  | .drop =>
    let t := match (s.req i).fid with
      | some f => s.tp.setFid f fun x => { x with owned := true }
      | none => s.tp
    (s.setTp t).setReq i fun r => { r with noreply := true, fid := none }
  | .walk => (s.setTp (s.tp.decrefOpt bynum)).setReq i fun r => { r with noreply := true }
  | .other => s.setReq i fun r => { r with noreply := true }

/-- The fid of a request is released. -/
def release (i : ℕ) (tp ecode : ℕ) : Qsrv :=
  (s.setTp (s.tp.decrefOpt (s.req i).fid)).setReq i fun r =>
    { r with fid := none, place := .working tp (.released ecode) }

/-- What `np_conn_flush` does with one request. -/
def flushReq (conn : ℕ) (s : Qsrv) (i : ℕ) : Qsrv :=
  if (s.req i).conn = conn then
    match (s.req i).place with
    | .queued tp => if tp ∈ s.tp.list then s.reqUnref i else s
    | .working tp _ => if tp ∈ s.tp.list then s.setReq i fun r => { r with noreply := true } else s
    | _ => s
  else s

end Qsrv

/-! ### Steps -/

/-- **The steps of the server.** -/
inductive Qstep where
  /-- A request is received and queued. -/
  | receive (conn : ℕ) (tag : UInt16) (kind : Qkind) (src : Source)
  /-- A `Tflush` is received and handled. -/
  | flush (conn : ℕ) (oldtag : UInt16)
  /-- A worker takes the first request out of a queue. -/
  | pick (tp : ℕ)
  /-- `np_process_request` -/
  | process (i : ℕ) (ecode : ℕ) (eff : RefEffect)
  /-- `np_postprocess_request`, up to the reply; with the fid that
  `np_fid_decref_bynum` hits, if any -/
  | release (i : ℕ) (bynum : Option ℕ)
  /-- `np_req_respond` -/
  | respond (i : ℕ)
  /-- `np_srv_remove_workreq` -/
  | leave (i : ℕ)
  /-- `np_postprocess_flush` and `np_req_unref` -/
  | finish (i : ℕ)
  /-- `np_conn_flush`, at the end of a connection -/
  | hangup (conn : ℕ)
  /-- `np_conn_destroy`, when all requests are gone -/
  | close (conn : ℕ)
deriving DecidableEq

namespace Qsrv

variable (s : Qsrv)

/-- **A step of the server**, if it is enabled. -/
def step : Qstep → Option Qsrv
  | .receive conn tag kind src =>
    if s.closing conn then none
    else
      match src with
      | .none => some (s.addReq conn tag kind none)
      | .found f =>
        if f < s.tp.nfid ∧ (s.tp.fid f).conn = conn ∧ (s.tp.fid f).refcount ≠ 0 then
          some ((s.setTp (s.tp.fidIncref f)).addReq conn tag kind (some f))
        else none
      | .made tp =>
        some ((s.setTp ((s.tp.select tp).makeFid conn tp false)).addReq conn tag kind
          (some s.tp.nfid))
  | .flush conn oldtag =>
    if s.closing conn then none
    else
      let r := s.findReq conn oldtag
      some ((s.addFlush ⟨conn, oldtag, s.meant conn oldtag, r⟩).npFlush s.nflush r)
  | .pick tp =>
    if tp ∈ s.tp.list then
      (s.reqs tp).head?.map fun i => s.setReq i fun r => { r with place := .working tp .picked }
    else none
  | .process i ecode eff =>
    match (s.req i).place with
    | .working tp .picked =>
      if eff = .drop ↔ (s.req i).kind = .drop then
        let t := match (s.req i).fid with
          | some f => s.tp.refEffect f eff
          | none => s.tp
        -- `np_fid_decref` clears the pointer to a fid that it destroys
        let gone := eff = .drop ∧ (s.req i).fid.any fun f => (s.tp.fid f).refcount = 1
        some ((s.setTp t).setReq i fun r => { r with
          fid := if gone then none else r.fid, place := .working tp (.processed ecode) })
      else none
    | _ => none
  | .release i bynum =>
    match (s.req i).place with
    | .working tp (.processed ecode) =>
      some ((if ecode = EINTR then s.interrupted i bynum else s).release i tp ecode)
    | _ => none
  | .respond i =>
    match (s.req i).place with
    | .working tp (.released _) =>
      let s' := s.setReq i fun r => { r with place := .working tp .replied }
      some (if (s.req i).noreply then s' else s'.send (.reply i))
    | _ => none
  | .leave i =>
    match (s.req i).place with
    | .working _ .replied => some (s.setReq i fun r => { r with place := .left })
    | _ => none
  | .finish i =>
    match (s.req i).place with
    | .left =>
      let s' := s.setReq i fun r => { r with place := .freed, flushreq := none }
      match (s.req i).flushreq with
      | some j => some (s'.send (.rflush j))
      | none => some s'
    | _ => none
  | .hangup conn =>
    if s.closing conn then none
    else some ((List.range s.nreq).foldl (flushReq conn) { s with
      closing := fun c => if c = conn then true else s.closing c })
  | .close conn =>
    if s.closing conn ∧ ∀ i ∈ List.range s.nreq, (s.req i).conn = conn → (s.req i).place = .freed
    then some (s.setTp ((List.range s.tp.nfid).foldl (Tpools.destroyFid conn) s.tp.cleanup))
    else none

/-- **What a step can do**, one case for each branch, with its guards. -/
inductive Steps (s : Qsrv) : Qstep → Qsrv → Prop
  | receive {conn : ℕ} {tag : UInt16} {kind : Qkind} (hc : s.closing conn = false) :
    Steps s (.receive conn tag kind .none) (s.addReq conn tag kind none)
  | receiveFound {conn : ℕ} {tag : UInt16} {kind : Qkind} {f : ℕ} (hc : s.closing conn = false)
    (hlt : f < s.tp.nfid) (hcn : (s.tp.fid f).conn = conn) (hr : (s.tp.fid f).refcount ≠ 0) :
    Steps s (.receive conn tag kind (.found f))
      ((s.setTp (s.tp.fidIncref f)).addReq conn tag kind (some f))
  | receiveMade {conn : ℕ} {tag : UInt16} {kind : Qkind} {tp : Option ℕ}
    (hc : s.closing conn = false) :
    Steps s (.receive conn tag kind (.made tp))
      ((s.setTp ((s.tp.select tp).makeFid conn tp false)).addReq conn tag kind (some s.tp.nfid))
  | flush {conn : ℕ} {oldtag : UInt16} (hc : s.closing conn = false) :
    Steps s (.flush conn oldtag)
      ((s.addFlush ⟨conn, oldtag, s.meant conn oldtag, s.findReq conn oldtag⟩).npFlush s.nflush
        (s.findReq conn oldtag))
  | pick {tp i : ℕ} (htp : tp ∈ s.tp.list) (hi : i ∈ s.reqs tp) :
    Steps s (.pick tp) (s.setReq i fun r => { r with place := .working tp .picked })
  | process {i ecode tp : ℕ} {eff : RefEffect} (hp : (s.req i).place = .working tp .picked)
    (he : eff = .drop ↔ (s.req i).kind = .drop) :
    Steps s (.process i ecode eff)
      ((s.setTp (match (s.req i).fid with
        | some f => s.tp.refEffect f eff
        | none => s.tp)).setReq i fun r => { r with
          fid := if eff = .drop ∧ (s.req i).fid.any (fun f => (s.tp.fid f).refcount = 1) then none
            else r.fid
          place := .working tp (.processed ecode) })
  | release {i ecode tp : ℕ} {bynum : Option ℕ}
    (hp : (s.req i).place = .working tp (.processed ecode)) :
    Steps s (.release i bynum)
      ((if ecode = EINTR then s.interrupted i bynum else s).release i tp ecode)
  | silence {i ecode tp : ℕ} (hp : (s.req i).place = .working tp (.released ecode))
    (hn : (s.req i).noreply = true) :
    Steps s (.respond i) (s.setReq i fun r => { r with place := .working tp .replied })
  | respond {i ecode tp : ℕ} (hp : (s.req i).place = .working tp (.released ecode))
    (hn : (s.req i).noreply = false) :
    Steps s (.respond i)
      ((s.setReq i fun r => { r with place := .working tp .replied }).send (.reply i))
  | leave {i tp : ℕ} (hp : (s.req i).place = .working tp .replied) :
    Steps s (.leave i) (s.setReq i fun r => { r with place := .left })
  | finish {i : ℕ} (hp : (s.req i).place = .left) (hf : (s.req i).flushreq = none) :
    Steps s (.finish i) (s.setReq i fun r => { r with place := .freed, flushreq := none })
  | finishFlush {i j : ℕ} (hp : (s.req i).place = .left) (hf : (s.req i).flushreq = some j) :
    Steps s (.finish i)
      ((s.setReq i fun r => { r with place := .freed, flushreq := none }).send (.rflush j))
  | hangup {conn : ℕ} (hc : s.closing conn = false) :
    Steps s (.hangup conn) ((List.range s.nreq).foldl (flushReq conn) { s with
      closing := fun c => if c = conn then true else s.closing c })
  | close {conn : ℕ} (hc : s.closing conn = true)
    (hgone : ∀ i ∈ List.range s.nreq, (s.req i).conn = conn → (s.req i).place = .freed) :
    Steps s (.close conn)
      (s.setTp ((List.range s.tp.nfid).foldl (Tpools.destroyFid conn) s.tp.cleanup))

/-- A step that is taken is one of these. -/
theorem steps_of_step {s s' : Qsrv} {a : Qstep} (h : s.step a = some s') : s.Steps a s' := by
  cases a with
  | receive conn tag kind src =>
    simp only [step] at h
    split at h
    · cases h
    · rename_i hc
      rw [Bool.not_eq_true] at hc
      split at h
      · cases h
        exact .receive hc
      · obtain ⟨⟨hlt, hcn, hr⟩, h⟩ := Option.ite_none_right_eq_some.mp h
        cases h
        exact .receiveFound hc hlt hcn hr
      · cases h
        exact .receiveMade hc
  | flush conn oldtag =>
    obtain ⟨hc, h⟩ := Option.ite_none_left_eq_some.mp h
    cases h
    exact .flush (by simpa using hc)
  | pick tp =>
    obtain ⟨htp, h⟩ := Option.ite_none_right_eq_some.mp h
    obtain ⟨i, hi, rfl⟩ := Option.map_eq_some_iff.mp h
    exact .pick htp (List.mem_of_mem_head? hi)
  | process i ecode eff =>
    simp only [step] at h
    split at h
    · obtain ⟨he, h⟩ := Option.ite_none_right_eq_some.mp h
      cases h
      exact .process ‹_› he
    · cases h
  | release i bynum =>
    simp only [step] at h
    split at h
    · cases h
      exact .release ‹_›
    · cases h
  | respond i =>
    simp only [step] at h
    split at h
    · cases h
      split
      · exact .silence ‹_› ‹_›
      · exact .respond ‹_› (Bool.not_eq_true _ ▸ ‹_›)
    · cases h
  | leave i =>
    simp only [step] at h
    split at h
    · cases h
      exact .leave ‹_›
    · cases h
  | finish i =>
    simp only [step] at h
    split at h
    · split at h
      · cases h
        exact .finishFlush ‹_› ‹_›
      · cases h
        exact .finish ‹_› ‹_›
    · cases h
  | hangup conn =>
    obtain ⟨hc, h⟩ := Option.ite_none_left_eq_some.mp h
    cases h
    exact .hangup (by simpa using hc)
  | close conn =>
    obtain ⟨⟨hc, hgone⟩, h⟩ := Option.ite_none_right_eq_some.mp h
    cases h
    exact .close hc hgone

end Qsrv

end Diod
