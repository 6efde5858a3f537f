import Diod.Lib.Count
import Diod.Lib.Runs

/-!
# References on connections

A connection must outlive its requests. `np_req_alloc` takes a reference on it and
`np_req_unref` gives it back; at the end of the receive loop `np_conn_cleanup` flushes
what is queued, waits until `conn->refcount` is zero and destroys the connection.

`Diod.Qsrv` takes for granted that a connection ends when its requests are gone. Here is
what that rests on, at a finer grain: a step is one critical section of `srv->lock`,
`conn->lock` or `req->lock`, with the thread's own code up to the next one. A request has
one reference, as `np_req_ref` is not called, and what matters is **who has it**: the
receive thread, a queue, a work list, a worker, or the `flushreq` field of another
request (`Diod.Hold`). Every transfer is a step, and the code does not check that the one
who gives a request away has it: `np_flush` unreferences whatever stands in `flushreq`.

The threads are not tied to one request at a time. Each request that a thread has in hand
can go on by itself, which allows every interleaving of the real threads and more. The
thread pool of a request and the pools on the server's list are arbitrary.
-/

namespace Diod

/-- **Who has a request**, and what is to be done with it. -/
inductive Hold where
  /-- The receive thread, which has just made it. -/
  | received
  | queued (tp : ℕ)
  /-- The work list of a pool; with whether the reply has been sent, or suppressed. -/
  | working (tp : ℕ) (replied : Bool)
  /-- A worker, which has taken it off the work list. -/
  | left
  /-- A worker that is in `np_req_unref` for the `Tflush` in its `flushreq`. -/
  | owing (j : ℕ)
  /-- The `flushreq` field of another request. -/
  | attached (i : ℕ)
  /-- The receive thread, which is to answer a `Tflush`. -/
  | answering
  /-- A thread that calls `np_req_unref`. -/
  | unref
  /-- The reference is gone. -/
  | dying
  /-- The reference is gone, and `flushreq` has been given up. -/
  | dropped
  | freed
deriving DecidableEq

/-- In the hands of one thread, with no `Tflush` attached. -/
def Hold.handed : Hold → Bool
  | .received | .answering | .unref | .dying | .dropped => true
  | _ => false

/-- What `flushreq` of request `i` may be: the `Tflush` `j` is attached to `i` as long as
the worker has not come to it. -/
def Hold.Carries (i j : ℕ) : Hold → Hold → Prop
  | .working _ _, h | .left, h => h = .attached i
  | .owing k, _ => k = j
  | _, _ => False

/-- `Npreq`, as far as its connection goes. -/
structure Creq where
  conn : ℕ
  tag : UInt16
  /-- `req->state == REQ_NOREPLY` -/
  noreply : Bool := false
  flushreq : Option ℕ := none
  hold : Hold := .received
deriving DecidableEq

/-- How far the receive thread of a connection has got. -/
inductive Cphase where
  /-- In the loop. -/
  | reading
  /-- In `np_conn_cleanup`, waiting. -/
  | cleanup
  | destroyed
deriving DecidableEq

/-- The server, as far as requests and connections go. A connection that has not been
made is one that has read nothing. -/
structure Csrv where
  /-- `conn->refcount` -/
  refs : ℕ → ℕ := fun _ => 0
  phase : ℕ → Cphase := fun _ => .reading
  nreq : ℕ := 0
  req : ℕ → Creq := fun _ => ⟨0, 0, false, none, .freed⟩
  /-- `srv->tpool` -/
  pools : List ℕ := [0]
  /-- `tp->reqs_first` -/
  reqs : ℕ → List ℕ := fun _ => []
  /-- `tp->workreqs` -/
  workreqs : ℕ → List ℕ := fun _ => []
  /-- What has been sent: the connection, and the request that is answered. -/
  sent : List (ℕ × ℕ) := []

/-- **The steps of the server.** -/
inductive Cstep where
  /-- `np_req_alloc` -/
  | alloc (c : ℕ) (tag : UInt16)
  /-- `np_srv_add_req`, to the queue of some pool -/
  | addReq (i tp : ℕ)
  /-- `np_flush` -/
  | flush (i : ℕ) (oldtag : UInt16)
  /-- A worker takes the first request of a queue. -/
  | pick (tp : ℕ)
  /-- The operation was interrupted, and is not answered. -/
  | interrupt (i : ℕ)
  /-- `np_req_respond` in `np_postprocess_request` -/
  | respond (i : ℕ)
  /-- `np_srv_remove_workreq` -/
  | leave (i : ℕ)
  /-- `np_req_respond_flush` in `np_postprocess_flush`, if there is a `Tflush` -/
  | postFlush (i : ℕ)
  /-- The rest of `np_postprocess_flush`, when the `Tflush` is gone -/
  | resume (i : ℕ)
  /-- `np_req_respond_flush` in the receive thread -/
  | answer (i : ℕ)
  /-- `np_req_unref`: the count of the request -/
  | unref (i : ℕ)
  /-- `np_req_unref`: `flushreq` -/
  | dropFlush (i : ℕ)
  /-- `np_req_unref`: `np_conn_decref`, and the request is freed -/
  | decref (i : ℕ)
  /-- The receive loop ends: `np_conn_flush` -/
  | hangup (c : ℕ)
  /-- `np_conn_destroy`, after the wait for the count to be zero -/
  | destroy (c : ℕ)
  /-- Pools are made and cleaned up. -/
  | setPools (l : List ℕ)
deriving DecidableEq

namespace Csrv

variable (s : Csrv)

/-! ### Parts of a step -/

/-- Change a request. -/
def setReq (i : ℕ) (g : Creq → Creq) : Csrv :=
  { s with req := fun j => if j = i then g (s.req j) else s.req j }

/-- Hand a request over. -/
def setHold (i : ℕ) (h : Hold) : Csrv := s.setReq i fun r => { r with hold := h }

/-- `req->flushreq = ...` -/
def setFlushreq (i : ℕ) (o : Option ℕ) : Csrv := s.setReq i fun r => { r with flushreq := o }

/-- `req->state = REQ_NOREPLY` -/
def setNoreply (i : ℕ) : Csrv := s.setReq i fun r => { r with noreply := true }

/-- The receive thread goes on. -/
def setPhase (c : ℕ) (p : Cphase) : Csrv :=
  { s with phase := fun k => if k = c then p else s.phase k }

/-- Change the queue of a pool. -/
def setReqs (tp : ℕ) (l : List ℕ) : Csrv :=
  { s with reqs := fun k => if k = tp then l else s.reqs k }

/-- Change the work list of a pool. -/
def setWorkreqs (tp : ℕ) (l : List ℕ) : Csrv :=
  { s with workreqs := fun k => if k = tp then l else s.workreqs k }

/-- `np_srv_remove_req` -/
def removeReq (tp i : ℕ) : Csrv := s.setReqs tp ((s.reqs tp).erase i)

/-- `np_req_respond` -/
def npReqRespond (i : ℕ) : Csrv :=
  if (s.req i).noreply then s else { s with sent := s.sent ++ [((s.req i).conn, i)] }

/-- `np_req_alloc` -/
def npReqAlloc (c : ℕ) (tag : UInt16) : Csrv :=
  { s with
    refs := fun k => if k = c then s.refs k + 1 else s.refs k
    nreq := s.nreq + 1
    req := fun i => if i = s.nreq then { conn := c, tag } else s.req i }

/-- `np_conn_decref`, and the end of `np_req_unref` -/
def npConnDecref (i : ℕ) : Csrv :=
  { s.setHold i .freed with
    refs := fun k => if k = (s.req i).conn then s.refs k - 1 else s.refs k }

/-- `creq->conn == req->conn && creq->tag == oldtag` -/
def isFor (c : ℕ) (oldtag : UInt16) (i : ℕ) : Bool :=
  (s.req i).conn == c && (s.req i).tag == oldtag

/-- The search of `np_flush` in one pool: the pool, the request, and whether it waits. -/
def findIn (c : ℕ) (oldtag : UInt16) (tp : ℕ) : Option (ℕ × ℕ × Bool) :=
  match (s.reqs tp).find? (s.isFor c oldtag) with
  | some k => some (tp, k, true)
  | none => ((s.workreqs tp).find? (s.isFor c oldtag)).map fun k => (tp, k, false)

/-- `np_flush`. The old `Tflush` is unreferenced before the field is set, but `srv->lock`
is held over both. -/
def npFlush (i : ℕ) (oldtag : UInt16) : Csrv :=
  match s.pools.findSome? (s.findIn (s.req i).conn oldtag) with
  | some (tp, k, true) => ((s.removeReq tp k).setHold k .unref).setHold i .answering
  | some (_, k, false) =>
    let s' := (s.setHold i (.attached k)).setFlushreq k (some i)
    match (s.req k).flushreq with
    | some j => s'.setHold j .unref
    | none => s'
  | none => s.setHold i .answering

/-- What `np_conn_flush` does with a queued request. -/
def flushQueued (c tp : ℕ) (s : Csrv) (i : ℕ) : Csrv :=
  if (s.req i).conn = c then (s.removeReq tp i).setHold i .unref else s

/-- What `np_conn_flush` does with a request on a work list. -/
def flushWorking (c : ℕ) (s : Csrv) (i : ℕ) : Csrv :=
  if (s.req i).conn = c then s.setNoreply i else s

/-- What `np_conn_flush` does with a pool. -/
def flushPool (c : ℕ) (s : Csrv) (tp : ℕ) : Csrv :=
  let s' := (s.reqs tp).foldl (flushQueued c tp) s
  (s'.workreqs tp).foldl (flushWorking c) s'

/-- `np_conn_flush` -/
def npConnFlush (c : ℕ) : Csrv := s.pools.foldl (flushPool c) s

/-- **A step of the server**, if it is enabled. -/
def step : Cstep → Option Csrv
  | .alloc c tag => if s.phase c = .reading then some (s.npReqAlloc c tag) else none
  | .addReq i tp =>
    if (s.req i).hold = .received then
      some ((s.setHold i (.queued tp)).setReqs tp (s.reqs tp ++ [i]))
    else none
  | .flush i oldtag => if (s.req i).hold = .received then some (s.npFlush i oldtag) else none
  | .pick tp =>
    (s.reqs tp).head?.map fun i =>
      ((s.removeReq tp i).setHold i (.working tp false)).setWorkreqs tp (i :: s.workreqs tp)
  | .interrupt i =>
    match (s.req i).hold with
    | .working _ false => some (s.setNoreply i)
    | _ => none
  | .respond i =>
    match (s.req i).hold with
    | .working tp false => some ((s.npReqRespond i).setHold i (.working tp true))
    | _ => none
  | .leave i =>
    match (s.req i).hold with
    | .working tp true => some ((s.setWorkreqs tp ((s.workreqs tp).erase i)).setHold i .left)
    | _ => none
  | .postFlush i =>
    if (s.req i).hold = .left then
      match (s.req i).flushreq with
      | some j => some (((s.npReqRespond j).setHold i (.owing j)).setHold j .unref)
      | none => some (s.setHold i .unref)
    else none
  | .resume i =>
    match (s.req i).hold with
    | .owing j =>
      if (s.req j).hold = .freed then some ((s.setFlushreq i none).setHold i .unref) else none
    | _ => none
  | .answer i =>
    if (s.req i).hold = .answering then some ((s.npReqRespond i).setHold i .unref) else none
  | .unref i => if (s.req i).hold = .unref then some (s.setHold i .dying) else none
  | .dropFlush i =>
    if (s.req i).hold = .dying then
      match (s.req i).flushreq with
      | some j => some ((s.setHold j .unref).setHold i .dropped)
      | none => some (s.setHold i .dropped)
    else none
  | .decref i => if (s.req i).hold = .dropped then some (s.npConnDecref i) else none
  | .hangup c =>
    if s.phase c = .reading then some ((s.setPhase c .cleanup).npConnFlush c) else none
  | .destroy c =>
    if s.phase c = .cleanup ∧ s.refs c = 0 then some (s.setPhase c .destroyed) else none
  | .setPools l => some { s with pools := l }

/-- The live requests of a connection. -/
def live (c : ℕ) : ℕ :=
  Nat.count (fun i => (s.req i).hold ≠ .freed ∧ (s.req i).conn = c) s.nreq

/-- What has been sent on a connection. -/
def sentOn (c : ℕ) : List ℕ := (s.sent.filter fun x => x.1 = c).map Prod.snd

/-! ### Ownership -/

/-- **Every reference has one owner.** What stands in a queue or on a work list is held by
it, and stands there once; what stands in a `flushreq` field is attached to that request
until its worker gives it up. -/
structure Owned (s : Csrv) : Prop where
  queued : ∀ tp, ∀ i ∈ s.reqs tp, (s.req i).hold = .queued tp
  once : ∀ tp, (s.reqs tp).Nodup
  working : ∀ tp, ∀ i ∈ s.workreqs tp, ∃ b, (s.req i).hold = .working tp b
  workOnce : ∀ tp, (s.workreqs tp).Nodup
  flushreq : ∀ i j, (s.req i).flushreq = some j → j ≠ i ∧ j < s.nreq ∧
    (s.req j).conn = (s.req i).conn ∧ Hold.Carries i j (s.req i).hold (s.req j).hold

/-- **The count of a connection is right**, and it is zero when the connection is gone. -/
structure Sound (s : Csrv) : Prop extends Owned s where
  refs : ∀ c, s.refs c = s.live c
  born : ∀ i, s.nreq ≤ i → (s.req i).hold = .freed
  ended : ∀ c, s.phase c = .destroyed → s.refs c = 0

variable {s} {s' : Csrv} {i j k c tp : ℕ} {p : Hold} {l : List ℕ}

theorem setHold_hold (s : Csrv) (i : ℕ) (p : Hold) (k : ℕ) :
    ((s.setHold i p).req k).hold = if k = i then p else (s.req k).hold := by
  change (if k = i then _ else _ : Creq).hold = _
  split <;> rfl

@[simp] theorem setHold_conn (s : Csrv) (i : ℕ) (p : Hold) (k : ℕ) :
    ((s.setHold i p).req k).conn = (s.req k).conn := by
  change (if k = i then _ else _ : Creq).conn = _
  split <;> rfl

@[simp] theorem setHold_flushreq (s : Csrv) (i : ℕ) (p : Hold) (k : ℕ) :
    ((s.setHold i p).req k).flushreq = (s.req k).flushreq := by
  change (if k = i then _ else _ : Creq).flushreq = _
  split <;> rfl

theorem setHold_self (s : Csrv) (i : ℕ) (p : Hold) : ((s.setHold i p).req i).hold = p := by
  rw [setHold_hold, if_pos rfl]

theorem setHold_of_ne (s : Csrv) (p : Hold) (h : k ≠ i) :
    ((s.setHold i p).req k).hold = (s.req k).hold := by
  rw [setHold_hold, if_neg h]

/-- A request is handed over. Its new owner must be the list where it stands, if any, and
it must not be attached to a request that counts on it. -/
theorem Owned.setHold (h : s.Owned) (hq : ∀ tp, i ∈ s.reqs tp → p = .queued tp)
    (hw : ∀ tp, i ∈ s.workreqs tp → ∃ b, p = .working tp b)
    (hf : ∀ j, (s.req i).flushreq = some j → Hold.Carries i j p (s.req j).hold)
    (hr : ∀ k, (s.req k).flushreq = some i → (s.req k).hold = .owing i) :
    (s.setHold i p).Owned := by
  refine ⟨fun tp k hk => ?_, h.once, fun tp k hk => ?_, h.workOnce, fun k j hj => ?_⟩
  · rcases eq_or_ne k i with rfl | hne
    · exact (setHold_self s k p).trans (hq tp hk)
    · exact (setHold_of_ne s p hne).trans (h.queued tp k hk)
  · rcases eq_or_ne k i with rfl | hne
    · rw [setHold_self]
      exact hw tp hk
    · rw [setHold_of_ne s p hne]
      exact h.working tp k hk
  · rw [setHold_flushreq] at hj
    obtain ⟨hjk, hlt, hconn, hc⟩ := h.flushreq k j hj
    refine ⟨hjk, hlt, by rw [setHold_conn, setHold_conn, hconn], ?_⟩
    rcases eq_or_ne k i with rfl | hki
    · rw [setHold_self, setHold_of_ne s p hjk]
      exact hf j hj
    · rw [setHold_of_ne s p hki]
      rcases eq_or_ne j i with rfl | hji
      · rw [hr k hj]
        rfl
      · rw [setHold_of_ne s p hji]
        exact hc

/-- Of the counts nothing changes when a live request goes to another owner. -/
theorem Sound.setHold (h : s.Sound) (hl : (s.req i).hold ≠ .freed) (hp : p ≠ .freed)
    (ho : (s.setHold i p).Owned) : (s.setHold i p).Sound := by
  refine ⟨ho, fun c => (h.refs c).trans (count_congr_lt fun k _ => ?_), fun k hk => ?_, h.ended⟩
  · rw [setHold_hold, setHold_conn]
    split
    · subst_vars
      exact ⟨fun hx => ⟨hp, hx.2⟩, fun hx => ⟨hl, hx.2⟩⟩
    · rfl
  · have hne : k ≠ i := fun hki => hl (hki ▸ h.born k hk)
    exact (setHold_of_ne s p hne).trans (h.born k hk)

/-- Nobody but a worker that is done with it refers to a request that is not attached. -/
theorem Owned.owing (h : s.Owned) (hi : ∀ k, (s.req i).hold ≠ .attached k)
    (hk : (s.req k).flushreq = some i) : (s.req k).hold = .owing i := by
  obtain ⟨-, -, -, hc⟩ := h.flushreq k i hk
  generalize (s.req k).hold = q at hc ⊢
  cases q with
  | working tp b => exact absurd hc (hi k)
  | left => exact absurd hc (hi k)
  | owing m => exact congrArg Hold.owing hc
  | _ => exact hc.elim

/-- Only a worker has requests with a `Tflush`. -/
theorem Owned.no_flushreq (h : s.Owned) (hi : ∀ j q, ¬ Hold.Carries i j (s.req i).hold q) :
    (s.req i).flushreq ≠ some j :=
  fun hj => hi j _ (h.flushreq i j hj).2.2.2

/-- **A thread hands a request over** that it has in hand. -/
theorem Sound.move (h : s.Sound) (hi : (s.req i).hold.handed = true) (hp : p ≠ .freed) :
    (s.setHold i p).Sound := by
  have hne : ∀ q : Hold, q.handed = false → (s.req i).hold ≠ q := fun q hq he => by
    rw [he, hq] at hi
    exact Bool.false_ne_true hi
  refine h.setHold (hne _ rfl) hp (h.toOwned.setHold (fun tp hm => ?_) (fun tp hm => ?_)
    (fun j hj => ?_) fun k hk => h.owing (fun k => hne _ rfl) hk)
  · exact absurd (h.queued tp i hm) (hne _ rfl)
  · obtain ⟨b, hb⟩ := h.working tp i hm
    exact absurd hb (hne _ rfl)
  · refine absurd hj (h.no_flushreq fun j q hc => ?_)
    generalize (s.req i).hold = r at hi hc
    cases r <;> first | exact hc | cases hi

/-- The queue of a pool changes. -/
theorem Sound.setReqs (h : s.Sound) (hl : ∀ i ∈ l, (s.req i).hold = .queued tp)
    (hn : l.Nodup) : (s.setReqs tp l).Sound := by
  refine ⟨⟨fun k i hi => ?_, fun k => ?_, h.working, h.workOnce, h.flushreq⟩, h.refs, h.born,
    h.ended⟩
  · change i ∈ (if k = tp then l else s.reqs k) at hi
    split at hi
    · subst_vars
      exact hl i hi
    · exact h.queued k i hi
  · change (if k = tp then l else s.reqs k).Nodup
    split
    · exact hn
    · exact h.once k

/-- The work list of a pool changes. -/
theorem Sound.setWorkreqs (h : s.Sound) (hl : ∀ i ∈ l, ∃ b, (s.req i).hold = .working tp b)
    (hn : l.Nodup) : (s.setWorkreqs tp l).Sound := by
  refine ⟨⟨h.queued, h.once, fun k i hi => ?_, fun k => ?_, h.flushreq⟩, h.refs, h.born, h.ended⟩
  · change i ∈ (if k = tp then l else s.workreqs k) at hi
    split at hi
    · subst_vars
      exact hl i hi
    · exact h.working k i hi
  · change (if k = tp then l else s.workreqs k).Nodup
    split
    · exact hn
    · exact h.workOnce k

/-- Two states with the same lists and counts, and the same owners of all requests. -/
theorem Sound.setReq (h : s.Sound) {g : Creq → Creq} (hc : (g (s.req i)).conn = (s.req i).conn)
    (hh : (g (s.req i)).hold = (s.req i).hold)
    (hf : ∀ j, (g (s.req i)).flushreq = some j → j ≠ i ∧ j < s.nreq ∧
      (s.req j).conn = (s.req i).conn ∧ Hold.Carries i j (s.req i).hold (s.req j).hold) :
    (s.setReq i g).Sound := by
  have hconn : ∀ k, ((s.setReq i g).req k).conn = (s.req k).conn := fun k => by
    change (if k = i then _ else _ : Creq).conn = _
    split
    · subst_vars
      exact hc
    · rfl
  have hhold : ∀ k, ((s.setReq i g).req k).hold = (s.req k).hold := fun k => by
    change (if k = i then _ else _ : Creq).hold = _
    split
    · subst_vars
      exact hh
    · rfl
  refine ⟨⟨fun tp k hk => (hhold k).trans (h.queued tp k hk), h.once, fun tp k hk => ?_,
    h.workOnce, fun k j hj => ?_⟩, fun c => (h.refs c).trans (count_congr_lt fun k _ => ?_),
    fun k hk => (hhold k).trans (h.born k hk), h.ended⟩
  · rw [hhold]
    exact h.working tp k hk
  · rw [hconn, hconn, hhold, hhold]
    change (if k = i then _ else _ : Creq).flushreq = _ at hj
    split at hj
    · subst_vars
      exact hf j hj
    · exact h.flushreq k j hj
  · rw [hhold, hconn]

theorem Sound.setNoreply (h : s.Sound) (i : ℕ) : (s.setNoreply i).Sound :=
  h.setReq rfl rfl fun j hj => h.flushreq i j hj

theorem Sound.npReqRespond (h : s.Sound) (i : ℕ) : (s.npReqRespond i).Sound := by
  unfold Csrv.npReqRespond
  split
  · exact h
  · exact ⟨⟨h.queued, h.once, h.working, h.workOnce, h.flushreq⟩, h.refs, h.born, h.ended⟩

theorem npReqRespond_req (s : Csrv) (i : ℕ) : (s.npReqRespond i).req = s.req := by
  unfold npReqRespond
  split <;> rfl

/-- A live request has been made. -/
theorem Sound.lt (h : s.Sound) (hi : (s.req i).hold ≠ .freed) : i < s.nreq :=
  Nat.lt_of_not_le fun hn => hi (h.born i hn)

/-- A connection without references has no live request. -/
theorem Sound.conn_ne (h : s.Sound) (hc : s.refs c = 0) (hi : (s.req i).hold ≠ .freed) :
    (s.req i).conn ≠ c := by
  intro hic
  have hpos : 0 < s.live c := count_pos_of_lt (h.lt hi) ⟨hi, hic⟩
  rw [← h.refs c, hc] at hpos
  exact Nat.lt_irrefl 0 hpos

/-! ### The steps -/

/-- `np_req_alloc` -/
theorem Sound.npReqAlloc (h : s.Sound) (hc : s.phase c = .reading) (tag : UInt16) :
    (s.npReqAlloc c tag).Sound := by
  have hreq : ∀ k, k ≠ s.nreq → (s.npReqAlloc c tag).req k = s.req k := fun k hk => if_neg hk
  have hnew : (s.npReqAlloc c tag).req s.nreq = { conn := c, tag } := if_pos rfl
  have hold : ∀ k, (s.req k).hold ≠ .freed → (s.npReqAlloc c tag).req k = s.req k :=
    fun k hk => hreq k (Nat.ne_of_lt (h.lt hk))
  refine ⟨⟨fun tp k hk => ?_, h.once, fun tp k hk => ?_, h.workOnce, fun k j hj => ?_⟩,
    fun d => ?_, fun k hk => ?_, fun d hd => ?_⟩
  · have hq := h.queued tp k hk
    rw [hold k (by simp [hq]), hq]
  · obtain ⟨b, hb⟩ := h.working tp k hk
    rw [hold k (by simp [hb])]
    exact ⟨b, hb⟩
  · rcases eq_or_ne k s.nreq with rfl | hne
    · rw [hnew] at hj
      exact absurd hj (by simp)
    · rw [hreq k hne] at hj ⊢
      obtain ⟨hjk, hlt, hconn, hcar⟩ := h.flushreq k j hj
      rw [hreq j (Nat.ne_of_lt hlt)]
      exact ⟨hjk, Nat.lt_succ_of_lt hlt, hconn, hcar⟩
  · have hlive : (s.npReqAlloc c tag).live d = s.live d + if c = d then 1 else 0 := by
      unfold live
      change Nat.count _ (s.nreq + 1) = _
      rw [Nat.count_succ, hnew]
      congr 1
      · exact count_congr_lt fun k hk => by rw [hreq k (Nat.ne_of_lt hk)]
      · simp
    rw [hlive, ← h.refs d]
    change (if d = c then s.refs d + 1 else s.refs d) = _
    simp only [eq_comm (a := c)]
    split <;> rfl
  · rw [hreq k (Nat.ne_of_gt hk)]
    exact h.born k (Nat.le_of_succ_le hk)
  · have hdc : d ≠ c := by
      rintro rfl
      exact absurd (hc.symm.trans hd) (by simp)
    exact (if_neg hdc).trans (h.ended d hd)

/-- `np_conn_decref`: the count goes down with the request. -/
theorem Sound.npConnDecref (h : s.Sound) (hi : (s.req i).hold = .dropped) :
    (s.npConnDecref i).Sound := by
  have hl : (s.req i).hold ≠ .freed := by simp [hi]
  have ho : (s.setHold i .freed).Owned := by
    refine h.toOwned.setHold (fun tp hm => ?_) (fun tp hm => ?_) (fun j hj => ?_) fun k hk => ?_
    · exact absurd ((h.queued tp i hm).symm.trans hi) (by simp)
    · obtain ⟨b, hb⟩ := h.working tp i hm
      exact absurd (hb.symm.trans hi) (by simp)
    · exact absurd hj (h.no_flushreq fun j q hc => by rwa [hi] at hc)
    · exact h.owing (by simp [hi]) hk
  refine ⟨⟨ho.queued, ho.once, ho.working, ho.workOnce, ho.flushreq⟩, fun d => ?_, fun k hk => ?_,
    fun d hd => ?_⟩
  · have hlive : (s.setHold i .freed).live d + (if d = (s.req i).conn then 1 else 0) =
        s.live d := by
      split
      · rename_i hd
        exact count_erase (h.lt hl) ⟨hl, hd.symm⟩ (fun hx => hx.1 (setHold_self s i _))
          fun k hk => by rw [setHold_of_ne s _ hk, setHold_conn]
      · rename_i hd
        refine count_congr_lt fun k _ => ?_
        rcases eq_or_ne k i with rfl | hne
        · exact ⟨fun hx => absurd (setHold_self s k _) hx.1, fun hx => absurd hx.2.symm hd⟩
        · rw [setHold_of_ne s _ hne, setHold_conn]
    have hd := h.refs d
    change (if d = (s.req i).conn then s.refs d - 1 else s.refs d) = (s.setHold i .freed).live d
    split at hlive
    · rename_i hdc
      rw [if_pos hdc]
      omega
    · rename_i hdc
      rw [if_neg hdc]
      omega
  · change ((s.setHold i .freed).req k).hold = _
    rw [setHold_hold]
    split
    · rfl
    · exact h.born k hk
  · have hz := h.ended d hd
    change (if d = (s.req i).conn then s.refs d - 1 else s.refs d) = 0
    split <;> omega

/-- A request is taken out of a queue. -/
theorem Sound.unqueue (h : s.Sound) (hi : i ∈ s.reqs tp) (hp : p ≠ .freed) :
    ((s.removeReq tp i).setHold i p).Sound := by
  have hq := h.queued tp i hi
  have hs : (s.removeReq tp i).Sound :=
    h.setReqs (fun k hk => h.queued tp k (List.mem_of_mem_erase hk)) ((h.once tp).erase i)
  refine hs.setHold (by rw [show (s.removeReq tp i).req i = s.req i from rfl, hq]; simp) hp
    (hs.toOwned.setHold (fun k hk => ?_) (fun k hk => ?_) (fun j hj => ?_) fun k hk => ?_)
  · -- the request stood in this queue only, and once
    obtain rfl : k = tp := by simpa using (hs.queued k i hk).symm.trans hq
    change i ∈ (if k = k then (s.reqs k).erase i else s.reqs k) at hk
    rw [if_pos rfl] at hk
    exact absurd hk (h.once k).not_mem_erase
  · obtain ⟨b, hb⟩ := h.working k i hk
    exact absurd (hb.symm.trans hq) (by simp)
  · exact absurd hj (h.no_flushreq fun j q hc => by rwa [hq] at hc)
  · exact h.owing (by simp [hq]) hk

/-- A `Tflush` is given up by the request that it is attached to. -/
theorem Sound.detach (h : s.Sound) (hj : (s.req j).hold = .attached k)
    (hk : (s.req k).flushreq = some j → (s.req k).hold = .owing j) (hp : p ≠ .freed) :
    (s.setHold j p).Sound := by
  refine h.setHold (by simp [hj]) hp (h.toOwned.setHold (fun tp hm => ?_) (fun tp hm => ?_)
    (fun m hm => ?_) fun m hm => ?_)
  · exact absurd ((h.queued tp j hm).symm.trans hj) (by simp)
  · obtain ⟨b, hb⟩ := h.working tp j hm
    exact absurd (hb.symm.trans hj) (by simp)
  · exact absurd hm (h.no_flushreq fun m q hc => by rwa [hj] at hc)
  · rcases eq_or_ne m k with rfl | hne
    · exact hk hm
    · obtain ⟨-, -, -, hc⟩ := h.flushreq m j hm
      rw [hj] at hc
      generalize (s.req m).hold = q at hc ⊢
      cases q with
      | working tp b => exact absurd (Hold.attached.inj hc).symm hne
      | left => exact absurd (Hold.attached.inj hc).symm hne
      | owing n => exact congrArg Hold.owing hc
      | _ => exact hc.elim

/-- The search of `np_flush` finds a request of the connection, in a queue or on a work
list. -/
theorem findIn_spec {c : ℕ} {oldtag : UInt16} {tp₀ : ℕ} {w : Bool}
    (hf : s.findIn c oldtag tp₀ = some (tp, k, w)) :
    (s.req k).conn = c ∧ k ∈ if w then s.reqs tp else s.workreqs tp := by
  have hconn : ∀ m, s.isFor c oldtag m = true → (s.req m).conn = c := fun m hm => by
    simp only [isFor, Bool.and_eq_true, beq_iff_eq] at hm
    exact hm.1
  unfold findIn at hf
  split at hf
  · rename_i m hm
    cases hf
    exact ⟨hconn k (List.find?_some hm), List.mem_of_find?_eq_some hm⟩
  · obtain ⟨m, hm, he⟩ := Option.map_eq_some_iff.mp hf
    cases he
    exact ⟨hconn k (List.find?_some hm), List.mem_of_find?_eq_some hm⟩

variable {b : Bool} {a : Cstep}

/-- **A `Tflush` is attached** to a request on a work list. -/
theorem Sound.attach (h : s.Sound) (hi : (s.req i).hold = .received)
    (hk : (s.req k).hold = .working tp b) (hc : (s.req k).conn = (s.req i).conn) :
    ((s.setHold i (.attached k)).setFlushreq k (some i)).Sound := by
  have hik : i ≠ k := by
    rintro rfl
    exact absurd (hi.symm.trans hk) (by simp)
  refine (h.move (by rw [hi]; rfl) (by simp)).setReq rfl rfl fun j hj => ?_
  obtain rfl : i = j := Option.some.inj hj
  refine ⟨hik, h.lt (by simp [hi]), by simp [hc], ?_⟩
  rw [setHold_self, setHold_of_ne s _ hik.symm, hk]
  rfl

/-- `np_flush` -/
theorem Sound.npFlush (h : s.Sound) (hi : (s.req i).hold = .received) (oldtag : UInt16) :
    (s.npFlush i oldtag).Sound := by
  unfold Csrv.npFlush
  split
  · -- it still waits, and is taken out of the queue
    rename_i tp k hf
    obtain ⟨tp₀, -, hf⟩ := List.exists_of_findSome?_eq_some hf
    obtain ⟨-, hk⟩ := findIn_spec hf
    have hik : i ≠ k := by
      rintro rfl
      exact absurd (hi.symm.trans (h.queued tp i hk)) (by simp)
    refine (h.unqueue hk (by simp)).move ?_ (by simp)
    rw [setHold_of_ne _ _ hik]
    change (s.req i).hold.handed = true
    rw [hi]
    rfl
  · -- it is worked on, and an older `Tflush` for it is superseded
    rename_i tp k hf
    obtain ⟨tp₀, -, hf⟩ := List.exists_of_findSome?_eq_some hf
    obtain ⟨hc, hk⟩ := findIn_spec hf
    obtain ⟨b, hk⟩ := h.working tp k hk
    have hs := h.attach hi hk hc
    split
    · rename_i j hj
      obtain ⟨hjk, -, -, hcar⟩ := h.flushreq k j hj
      rw [hk] at hcar
      have hji : j ≠ i := by
        rintro rfl
        exact absurd (hi.symm.trans hcar) (by simp)
      have hhold : (((s.setHold i (.attached k)).setFlushreq k (some i)).req j).hold =
          .attached k := by
        change (if j = k then _ else _ : Creq).hold = _
        rw [if_neg hjk, setHold_of_ne s _ hji]
        exact hcar
      refine hs.detach hhold (fun hkj => ?_) (by simp)
      change (if k = k then _ else _ : Creq).flushreq = _ at hkj
      rw [if_pos rfl] at hkj
      exact absurd (Option.some.inj hkj).symm hji
    · exact hs
  · exact h.move (by rw [hi]; rfl) (by simp)

/-- `np_srv_add_req` -/
theorem Sound.addReq (h : s.Sound) (hi : (s.req i).hold = .received) (tp : ℕ) :
    ((s.setHold i (.queued tp)).setReqs tp (s.reqs tp ++ [i])).Sound := by
  have hnot : i ∉ s.reqs tp := fun hm => absurd (hi.symm.trans (h.queued tp i hm)) (by simp)
  refine (h.move (by rw [hi]; rfl) (by simp)).setReqs (fun k hk => ?_) ?_
  · rcases List.mem_append.mp hk with hk | hk
    · rw [setHold_of_ne s _ (ne_of_mem_of_not_mem hk hnot)]
      exact h.queued tp k hk
    · rw [List.mem_singleton.mp hk, setHold_self]
  · exact (h.once tp).append (List.nodup_singleton i) (List.disjoint_singleton.mpr hnot)

/-- A worker moves a request to the work list. -/
theorem Sound.pick (h : s.Sound) (hi : i ∈ s.reqs tp) :
    (((s.removeReq tp i).setHold i (.working tp false)).setWorkreqs tp
      (i :: s.workreqs tp)).Sound := by
  have hnot : i ∉ s.workreqs tp := fun hm => by
    obtain ⟨b, hb⟩ := h.working tp i hm
    exact absurd (hb.symm.trans (h.queued tp i hi)) (by simp)
  refine (h.unqueue hi (by simp)).setWorkreqs (fun k hk => ?_)
    (List.nodup_cons.mpr ⟨hnot, h.workOnce tp⟩)
  rcases List.mem_cons.mp hk with rfl | hk
  · exact ⟨false, setHold_self _ _ _⟩
  · rw [setHold_of_ne _ _ (ne_of_mem_of_not_mem hk hnot)]
    exact h.working tp k hk

/-- The reply is sent while the request stays on the work list. -/
theorem Sound.respond (h : s.Sound) (hi : (s.req i).hold = .working tp false) :
    (s.setHold i (.working tp true)).Sound := by
  refine h.setHold (by simp [hi]) (by simp) (h.toOwned.setHold (fun k hk => ?_) (fun k hk => ?_)
    (fun j hj => ?_) fun k hk => h.owing (by simp [hi]) hk)
  · exact absurd ((h.queued k i hk).symm.trans hi) (by simp)
  · obtain ⟨b, hb⟩ := h.working k i hk
    obtain ⟨rfl, -⟩ : k = tp ∧ b = false := by simpa using hb.symm.trans hi
    exact ⟨true, rfl⟩
  · have hc := (h.flushreq i j hj).2.2.2
    rwa [hi] at hc

/-- `np_srv_remove_workreq` -/
theorem Sound.leave (h : s.Sound) (hi : (s.req i).hold = .working tp b) :
    ((s.setWorkreqs tp ((s.workreqs tp).erase i)).setHold i .left).Sound := by
  have hs : (s.setWorkreqs tp ((s.workreqs tp).erase i)).Sound :=
    h.setWorkreqs (fun k hk => h.working tp k (List.mem_of_mem_erase hk)) ((h.workOnce tp).erase i)
  have hi' : ((s.setWorkreqs tp ((s.workreqs tp).erase i)).req i).hold = .working tp b := hi
  refine hs.setHold (by simp [hi']) (by simp) (hs.toOwned.setHold (fun k hk => ?_)
    (fun k hk => ?_) (fun j hj => ?_) fun k hk => hs.owing (by simp [hi']) hk)
  · exact absurd ((h.queued k i hk).symm.trans hi) (by simp)
  · obtain ⟨b', hb⟩ := hs.working k i hk
    obtain ⟨rfl, -⟩ : k = tp ∧ b' = b := by simpa using hb.symm.trans hi'
    change i ∈ (if k = k then (s.workreqs k).erase i else s.workreqs k) at hk
    rw [if_pos rfl] at hk
    exact absurd hk (h.workOnce k).not_mem_erase
  · have hc := (h.flushreq i j hj).2.2.2
    rwa [hi] at hc

/-- A request that a worker has taken off the work list goes on. -/
theorem Sound.proceed (h : s.Sound) (hi : (s.req i).hold = .left ∨ ∃ j, (s.req i).hold = .owing j)
    (hp : p ≠ .freed)
    (hf : ∀ j, (s.req i).flushreq = some j → Hold.Carries i j p (s.req j).hold) :
    (s.setHold i p).Sound := by
  have hne : ∀ q : Hold, q ≠ .left → (∀ j, q ≠ .owing j) → (s.req i).hold ≠ q := by
    rintro q hl ho rfl
    rcases hi with hi | ⟨j, hi⟩
    · exact hl hi
    · exact ho j hi
  refine h.setHold (hne _ (by simp) (by simp)) hp (h.toOwned.setHold (fun tp hk => ?_)
    (fun tp hk => ?_) hf fun k hk => h.owing (fun m => hne _ (by simp) (by simp)) hk)
  · exact absurd (h.queued tp i hk) (hne _ (by simp) (by simp))
  · obtain ⟨b, hb⟩ := h.working tp i hk
    exact absurd hb (hne _ (by simp) (by simp))

/-- **The deferred `Tflush` is answered** and given up. -/
theorem Sound.postFlush (h : s.Sound) (hi : (s.req i).hold = .left)
    (hj : (s.req i).flushreq = some j) :
    ((s.setHold i (.owing j)).setHold j .unref).Sound := by
  obtain ⟨hji, -, -, hc⟩ := h.flushreq i j hj
  rw [hi] at hc
  have hs : (s.setHold i (.owing j)).Sound :=
    h.proceed (.inl hi) (by simp) fun k hk => by
      obtain rfl : j = k := Option.some.inj (hj.symm.trans hk)
      rfl
  refine hs.detach ((setHold_of_ne s _ hji).trans hc) (fun _ => setHold_self s i _) (by simp)

/-- The worker has given up the `Tflush`, and clears the field. -/
theorem Sound.resume (h : s.Sound) (hi : (s.req i).hold = .owing j) :
    ((s.setFlushreq i none).setHold i .unref).Sound := by
  have hs : (s.setFlushreq i none).Sound :=
    h.setReq rfl rfl fun k hk => absurd hk (by simp)
  have hreq : (s.setFlushreq i none).req i = { s.req i with flushreq := none } := if_pos rfl
  refine hs.proceed (.inr ⟨j, by rw [hreq]; exact hi⟩) (by simp) fun k hk => ?_
  rw [hreq] at hk
  exact absurd hk (by simp)

/-! ### The end of a connection -/

theorem Sound.setPhase (h : s.Sound) {p : Cphase} (hp : p = .destroyed → s.refs c = 0) :
    (s.setPhase c p).Sound := by
  refine ⟨⟨h.queued, h.once, h.working, h.workOnce, h.flushreq⟩, h.refs, h.born, fun d hd => ?_⟩
  change (if d = c then p else s.phase d) = _ at hd
  split at hd
  · subst_vars
    exact hp rfl
  · exact h.ended d hd

/-- Nothing is sent, and no connection changes. -/
structure Silent (s s' : Csrv) : Prop where
  sent : s'.sent = s.sent
  phase : s'.phase = s.phase

theorem Silent.trans {s'' : Csrv} (h : Silent s s') (h' : Silent s' s'') : Silent s s'' :=
  ⟨h'.sent.trans h.sent, h'.phase.trans h.phase⟩

/-- The queue of a pool. What is still to be looked at is still in the queue. -/
theorem Sound.flushQueued (c tp : ℕ) : ∀ (l : List ℕ) {s : Csrv}, s.Sound → l.Nodup →
    (∀ i ∈ l, i ∈ s.reqs tp) →
    (l.foldl (flushQueued c tp) s).Sound ∧ Silent s (l.foldl (Csrv.flushQueued c tp) s)
  | [], _, h, _, _ => ⟨h, rfl, rfl⟩
  | i :: l, s, h, hn, hl => by
    obtain ⟨hil, hn⟩ := List.nodup_cons.mp hn
    have hi : i ∈ s.reqs tp := hl i List.mem_cons_self
    rw [List.foldl_cons]
    by_cases hc : (s.req i).conn = c
    · rw [Csrv.flushQueued, if_pos hc]
      obtain ⟨hs, hq⟩ := Sound.flushQueued c tp l (h.unqueue hi (by simp : Hold.unref ≠ .freed)) hn
        fun k hk => by
          change k ∈ if tp = tp then (s.reqs tp).erase i else s.reqs tp
          rw [if_pos rfl]
          exact (List.mem_erase_of_ne (ne_of_mem_of_not_mem hk hil)).mpr
            (hl k (List.mem_cons_of_mem i hk))
      exact ⟨hs, hq.sent, hq.phase⟩
    · rw [Csrv.flushQueued, if_neg hc]
      exact Sound.flushQueued c tp l h hn fun k hk => hl k (List.mem_cons_of_mem i hk)

/-- The work list of a pool. -/
theorem Sound.flushWorking (c : ℕ) : ∀ (l : List ℕ) {s : Csrv}, s.Sound →
    (l.foldl (flushWorking c) s).Sound ∧ Silent s (l.foldl (Csrv.flushWorking c) s)
  | [], _, h => ⟨h, rfl, rfl⟩
  | i :: l, s, h => by
    rw [List.foldl_cons]
    by_cases hc : (s.req i).conn = c
    · rw [Csrv.flushWorking, if_pos hc]
      obtain ⟨hs, hq⟩ := Sound.flushWorking c l (h.setNoreply i)
      exact ⟨hs, hq.sent, hq.phase⟩
    · rw [Csrv.flushWorking, if_neg hc]
      exact Sound.flushWorking c l h

theorem Sound.flushPools (c : ℕ) : ∀ (l : List ℕ) {s : Csrv}, s.Sound →
    (l.foldl (flushPool c) s).Sound ∧ Silent s (l.foldl (flushPool c) s)
  | [], _, h => ⟨h, rfl, rfl⟩
  | tp :: l, s, h => by
    obtain ⟨h₁, hq₁⟩ := Sound.flushQueued c tp _ h (h.once tp) fun _ hi => hi
    obtain ⟨h₂, hq₂⟩ := Sound.flushWorking c (((s.reqs tp).foldl (Csrv.flushQueued c tp) s).workreqs
      tp) h₁
    obtain ⟨h₃, hq₃⟩ := Sound.flushPools c l h₂
    exact ⟨h₃, (hq₁.trans hq₂).trans hq₃⟩

/-- `np_conn_flush` -/
theorem Sound.npConnFlush (h : s.Sound) (c : ℕ) :
    (s.npConnFlush c).Sound ∧ Silent s (s.npConnFlush c) :=
  Sound.flushPools c s.pools h

/-! ### Runs -/

/-- **Every step keeps the counts right.** -/
theorem Sound.step (h : s.Sound) (hs : s.step a = some s') : s'.Sound := by
  cases a with
  | alloc c tag =>
    obtain ⟨hc, rfl⟩ := of_guard hs
    exact h.npReqAlloc hc tag
  | addReq i tp =>
    obtain ⟨hi, rfl⟩ := of_guard hs
    exact h.addReq hi tp
  | flush i oldtag =>
    obtain ⟨hi, rfl⟩ := of_guard hs
    exact h.npFlush hi oldtag
  | pick tp =>
    obtain ⟨i, hi, rfl⟩ := Option.map_eq_some_iff.mp hs
    exact h.pick (List.mem_of_head? hi)
  | interrupt i =>
    simp only [Csrv.step] at hs
    split at hs
    · cases hs
      exact h.setNoreply i
    · cases hs
  | respond i =>
    simp only [Csrv.step] at hs
    split at hs
    · rename_i tp hi
      cases hs
      exact (h.npReqRespond i).respond ((congrFun (npReqRespond_req s i) i).symm ▸ hi)
    · cases hs
  | leave i =>
    simp only [Csrv.step] at hs
    split at hs
    · rename_i tp hi
      cases hs
      exact h.leave hi
    · cases hs
  | postFlush i =>
    obtain ⟨hi, hs⟩ := Option.ite_none_right_eq_some.mp hs
    split at hs
    · rename_i j hj
      cases hs
      have hreq := congrFun (npReqRespond_req s j) i
      exact (h.npReqRespond j).postFlush (hreq.symm ▸ hi) (hreq.symm ▸ hj)
    · rename_i hj
      cases hs
      exact h.proceed (.inl hi) (by simp) fun j hj' => absurd (hj.symm.trans hj') (by simp)
  | resume i =>
    simp only [Csrv.step] at hs
    split at hs
    · rename_i j hi
      obtain ⟨-, rfl⟩ := of_guard hs
      exact h.resume hi
    · cases hs
  | answer i =>
    obtain ⟨hi, rfl⟩ := of_guard hs
    exact (h.npReqRespond i).move (by rw [npReqRespond_req, hi]; rfl) (by simp)
  | unref i =>
    obtain ⟨hi, rfl⟩ := of_guard hs
    exact h.move (by rw [hi]; rfl) (by simp)
  | dropFlush i =>
    obtain ⟨hi, hs⟩ := Option.ite_none_right_eq_some.mp hs
    split at hs
    · -- a request that dies has no `Tflush` any more
      rename_i j hj
      exact absurd hj (h.no_flushreq fun j q hc => by rwa [hi] at hc)
    · cases hs
      exact h.move (by rw [hi]; rfl) (by simp)
  | decref i =>
    obtain ⟨hi, rfl⟩ := of_guard hs
    exact h.npConnDecref hi
  | hangup c =>
    obtain ⟨hc, rfl⟩ := of_guard hs
    exact ((h.setPhase (p := .cleanup) (by simp)).npConnFlush c).1
  | destroy c =>
    obtain ⟨⟨-, hc⟩, rfl⟩ := of_guard hs
    exact h.setPhase fun _ => hc
  | setPools l =>
    cases hs
    exact ⟨⟨h.queued, h.once, h.working, h.workOnce, h.flushreq⟩, h.refs, h.born, h.ended⟩

/-- The server at the start. -/
theorem sound_start : Sound {} :=
  ⟨⟨by simp, by simp, by simp, by simp, by simp⟩, fun _ => rfl, fun _ _ => rfl, by simp⟩

theorem sound_of_reaches (h : Reaches Csrv.step (fun _ _ => True) {} s) : s.Sound :=
  h.invariant sound_start fun _ _ _ hs _ hstep => hs.step hstep

theorem sentOn_npReqRespond (h : (s.req i).conn ≠ c) :
    (s.npReqRespond i).sentOn c = s.sentOn c := by
  unfold npReqRespond
  split
  · rfl
  · simp [sentOn, h]

theorem npReqRespond_phase (s : Csrv) (i : ℕ) : (s.npReqRespond i).phase = s.phase := by
  unfold npReqRespond
  split <;> rfl

theorem npFlush_silent (s : Csrv) (i : ℕ) (oldtag : UInt16) : Silent s (s.npFlush i oldtag) := by
  unfold npFlush
  split
  · exact ⟨rfl, rfl⟩
  · split <;> exact ⟨rfl, rfl⟩
  · exact ⟨rfl, rfl⟩

/-- Nothing is sent on a connection that is gone. -/
theorem Sound.step_sent (h : s.Sound) (hd : s.phase c = .destroyed)
    (hs : s.step a = some s') : s'.phase c = .destroyed ∧ s'.sentOn c = s.sentOn c := by
  have hc := h.ended c hd
  have hresp : ∀ i, (s.req i).hold ≠ .freed → (s.npReqRespond i).phase c = .destroyed ∧
      (s.npReqRespond i).sentOn c = s.sentOn c := fun i hi =>
    ⟨(congrFun (npReqRespond_phase s i) c).trans hd, sentOn_npReqRespond (h.conn_ne hc hi)⟩
  have hsilent : Silent s s' → s'.phase c = .destroyed ∧ s'.sentOn c = s.sentOn c := fun hq =>
    ⟨(congrFun hq.phase c).trans hd, by rw [sentOn, sentOn, hq.sent]⟩
  cases a with
  | respond i =>
    simp only [Csrv.step] at hs
    split at hs
    · rename_i tp hi
      cases hs
      exact hresp i (by simp [hi])
    · cases hs
  | postFlush i =>
    obtain ⟨hi, hs⟩ := Option.ite_none_right_eq_some.mp hs
    split at hs
    · rename_i j hj
      cases hs
      have hcar := (h.flushreq i j hj).2.2.2
      rw [hi] at hcar
      exact hresp j (by simp [show (s.req j).hold = .attached i from hcar])
    · cases hs
      exact ⟨hd, rfl⟩
  | answer i =>
    obtain ⟨hi, rfl⟩ := of_guard hs
    exact hresp i (by simp [hi])
  | hangup d =>
    obtain ⟨hph, rfl⟩ := of_guard hs
    have hq := ((h.setPhase (p := .cleanup) (c := d) (by simp)).npConnFlush d).2
    have hcd : c ≠ d := by
      rintro rfl
      exact absurd (hd.symm.trans hph) (by simp)
    exact ⟨((congrFun hq.phase c).trans (if_neg hcd)).trans hd,
      by rw [sentOn, sentOn, hq.sent]; rfl⟩
  | destroy d =>
    obtain ⟨-, rfl⟩ := of_guard hs
    refine ⟨?_, rfl⟩
    change (if c = d then _ else _) = _
    split
    · rfl
    · exact hd
  | flush i oldtag =>
    obtain ⟨-, rfl⟩ := of_guard hs
    exact hsilent (npFlush_silent s i oldtag)
  | pick tp =>
    obtain ⟨i, -, rfl⟩ := Option.map_eq_some_iff.mp hs
    exact ⟨hd, rfl⟩
  | interrupt i =>
    simp only [Csrv.step] at hs
    split at hs
    · cases hs
      exact ⟨hd, rfl⟩
    · cases hs
  | leave i =>
    simp only [Csrv.step] at hs
    split at hs
    · cases hs
      exact ⟨hd, rfl⟩
    · cases hs
  | resume i =>
    simp only [Csrv.step] at hs
    split at hs
    · obtain ⟨-, rfl⟩ := of_guard hs
      exact ⟨hd, rfl⟩
    · cases hs
  | dropFlush i =>
    obtain ⟨-, hs⟩ := Option.ite_none_right_eq_some.mp hs
    split at hs <;> (cases hs; exact ⟨hd, rfl⟩)
  | setPools l =>
    cases hs
    exact ⟨hd, rfl⟩
  | alloc d tag | addReq i tp | unref i | decref i =>
    obtain ⟨-, rfl⟩ := of_guard hs
    exact ⟨hd, rfl⟩

/-- Nothing refers to a connection without references. -/
theorem Sound.unreferenced (h : s.Sound) (hc : s.refs c = 0) :
    (∀ tp, ∀ i ∈ s.reqs tp ++ s.workreqs tp, (s.req i).conn ≠ c) ∧
      ∀ i j, (s.req i).flushreq = some j → (s.req i).conn ≠ c ∧ (s.req j).conn ≠ c := by
  refine ⟨fun tp i hi => h.conn_ne hc ?_, fun i j hj => ?_⟩
  · rcases List.mem_append.mp hi with hi | hi
    · simp [h.queued tp i hi]
    · obtain ⟨b, hb⟩ := h.working tp i hi
      simp [hb]
  · obtain ⟨-, -, hconn, hcar⟩ := h.flushreq i j hj
    have hi : (s.req i).conn ≠ c := by
      refine h.conn_ne hc fun hf => ?_
      rw [hf] at hcar
      exact hcar
    exact ⟨hi, hconn ▸ hi⟩

end Csrv

/-! ### The result -/

/-- **The count of a connection is the number of its live requests**, after every run of
the server. When `np_conn_destroy` runs, and ever after, no queue, no work list and no
`flushreq` field leads to the connection, and nothing is sent on it any more. -/
theorem conn_refcount {s : Csrv} (h : Reaches Csrv.step (fun _ _ => True) {} s) (c : ℕ) :
    s.refs c = s.live c ∧
      ((s.step (.destroy c)).isSome ∨ s.phase c = .destroyed →
        (∀ tp, ∀ i ∈ s.reqs tp ++ s.workreqs tp, (s.req i).conn ≠ c) ∧
          ∀ i j, (s.req i).flushreq = some j → (s.req i).conn ≠ c ∧ (s.req j).conn ≠ c) ∧
      (s.phase c = .destroyed → ∀ s', Reaches Csrv.step (fun _ _ => True) s s' →
        s'.sentOn c = s.sentOn c) := by
  have hs := Csrv.sound_of_reaches h
  refine ⟨hs.refs c, fun hc => hs.unreferenced ?_, fun hd s' hr => ?_⟩
  · rcases hc with hc | hc
    · obtain ⟨s', hs'⟩ := Option.isSome_iff_exists.mp hc
      exact (Option.ite_none_right_eq_some.mp hs').1.2
    · exact hs.ended c hc
  · exact (hr.invariant (I := fun t => t.Sound ∧ t.phase c = .destroyed ∧
      t.sentOn c = s.sentOn c) ⟨hs, hd, rfl⟩ fun t u a ⟨ht, hp, he⟩ _ hstep =>
        have hq := ht.step_sent hp hstep
        ⟨ht.step hstep, hq.1, hq.2.trans he⟩).2.2

/-- The run of a connection to its end: request 0 is worked on, the `Tflush` 1 for it is
superseded by 2, the `Tflush` 4 finds request 3 still in the queue. After the end of the
receive loop the worker answers 2. -/
def connectionRun : List Cstep :=
  [.alloc 0 1, .addReq 0 0, .pick 0, .alloc 0 2, .flush 1 1, .alloc 0 3, .flush 2 1,
    .unref 1, .dropFlush 1, .decref 1, .alloc 0 4, .addReq 3 0, .alloc 0 5, .flush 4 4,
    .unref 3, .dropFlush 3, .decref 3, .answer 4, .unref 4, .dropFlush 4, .decref 4,
    .hangup 0, .respond 0, .leave 0, .postFlush 0, .unref 2, .dropFlush 2, .decref 2,
    .resume 0, .unref 0, .dropFlush 0, .decref 0, .destroy 0]

theorem conn_refcount_destroyed : ∃ s : Csrv, Reaches Csrv.step (fun _ _ => True) {} s ∧
    s.nreq = 5 ∧ s.phase 0 = .destroyed ∧ s.sentOn 0 = [4, 2] ∧ s.live 0 = 0 ∧
      ∀ s', Reaches Csrv.step (fun _ _ => True) s s' → s'.sentOn 0 = [4, 2] := by
  have hrun : (runSteps Csrv.step {} connectionRun).map
      (fun s => (s.nreq, s.phase 0, s.sentOn 0, s.refs 0)) =
        some (5, .destroyed, [4, 2], 0) := by decide +kernel
  obtain ⟨s, hs, he⟩ := Option.map_eq_some_iff.mp hrun
  simp only [Prod.mk.injEq] at he
  obtain ⟨hn, hp, hsent, hrefs⟩ := he
  have hr : Reaches Csrv.step (fun _ _ => True) {} s := reaches_of_forall (fun _ _ _ => trivial) hs
  obtain ⟨hlive, -, hafter⟩ := conn_refcount hr 0
  exact ⟨s, hr, hn, hp, hsent, hlive ▸ hrefs, fun s' hs' => (hafter hp s' hs').trans hsent⟩

end Diod
