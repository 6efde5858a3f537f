import Diod.Npclient.Calls
import Diod.Npfs.Handled
import Diod.Lib.Triple
import Diod.Lib.Runs
import Mathlib.Data.Finset.Basic
import Mathlib.Data.Finset.Lattice.Lemmas

/-!
# The fids of a session

The client gives a number to each of its fids, and the server has a fid for each number it
has been told of. The two sides agree on which numbers are in use only as long as each
knows what the other does with a fid when a request fails: **a `Tclunk` that fails ends the
fid on the server**, while `npc_clunk` keeps its number.

The server of this module may answer any request with an error (`Diod.Sess.rpc`); apart
from that it does what its requests say. Whichever calls are made, the numbers agree after
each of them as long as no `Tclunk` is answered with an error, and `npc_attach` does not
find an error that an earlier call has left behind (`Diod.fids_agree`). The first fails
without anything unusual: `npc_getxattr` of an attribute that is not there clunks a fid
that the server has never made (`Diod.fids_diverge`).
-/

namespace Diod

/-! ### A server -/

/-- The other end of a session: the fids it has, the replies it is going to send, and
whether it has answered a `Tclunk` with an error. -/
structure Sess where
  live : Finset UInt32
  replies : List Msg
  spoiled : Bool := false

/-- A walk of some names that succeeds has walked at least one of them. -/
def Fcall.walkFits : Msg → Msg → Bool
  | .twalk _ _ names, .rwalk qids =>
    decide (qids.length ≤ names.length) && (names.isEmpty || !qids.isEmpty)
  | _, _ => true

/-- **The replies that a request can have**, apart from errors: of its type, where the fids
it names are there and those it makes are not. -/
def Fcall.Admits (live : Finset UInt32) (tc rc : Msg) : Prop :=
  rc.type.code = tc.type.code + 1 ∧
    (∀ n ∈ tc.reqFid.toList ++ tc.finds, n ∈ live) ∧ (∀ n ∈ tc.creates, n ∉ live) ∧
    tc.walkFits rc = true

-- by the lists: `UInt32` is finite, and trying all its values would decide this as well
instance (live : Finset UInt32) (tc rc : Msg) : Decidable (tc.Admits live rc) :=
  haveI := List.decidableBAll (fun n => n ∈ live) (tc.reqFid.toList ++ tc.finds)
  haveI := List.decidableBAll (fun n => n ∉ live) tc.creates
  inferInstanceAs (Decidable (_ ∧ _ ∧ _ ∧ _))

namespace Sess

/-- What is left when a `Tclunk` or a `Tremove` has been handled. -/
def drop (tc : Msg) (live : Finset UInt32) : Finset UInt32 :=
  if tc.drops then live \ tc.reqFid.toList.toFinset else live

/-- An error. The fid of a `Tclunk` or a `Tremove` is gone all the same. -/
def refuse (tc : Msg) (e : UInt32) (x : Sess) : Msg × Sess :=
  (.rlerror (if e = 0 then .ofNat EIO else e),
    { live := drop tc x.live
      replies := x.replies.tail
      spoiled := x.spoiled || tc.type == .tclunk })

/-- **One request and its reply.** A reply that the request cannot have becomes an error. -/
def rpc (tc : Msg) (x : Sess) : Msg × Sess :=
  match x.replies with
  | [] => refuse tc 0 x
  | .rlerror e :: _ => refuse tc e x
  | rc :: replies =>
    if tc.Admits x.live rc then
      (rc, { x with live := drop tc (x.live ∪ tc.creates.toFinset), replies })
    else refuse tc 0 x

end Sess

theorem Fcall.Admits.type_ne {live : Finset UInt32} {tc rc : Msg} (h : tc.Admits live rc) :
    rc.type ≠ .rlerror := by
  intro he
  have hcode := h.1
  rw [he] at hcode
  generalize tc.type = t at hcode
  revert hcode
  cases t <;> decide

/-- A request is refused, or has one of the replies that it can have. -/
theorem Sess.rpc_cases (tc : Msg) (x : Sess) :
    (∃ e, Sess.rpc tc x = Sess.refuse tc e x) ∨
      ∃ rc replies, tc.Admits x.live rc ∧ Sess.rpc tc x =
        (rc, { x with live := Sess.drop tc (x.live ∪ tc.creates.toFinset), replies }) := by
  rw [Sess.rpc]
  split
  · exact .inl ⟨_, rfl⟩
  · exact .inl ⟨_, rfl⟩
  · split
    · rename_i h
      exact .inr ⟨_, _, h, rfl⟩
    · exact .inl ⟨_, rfl⟩

/-! ### Agreement -/

/-- **The two sides agree**, except that the client may already have taken a number that the
server does not know yet. -/
def Npcfsys.Synced (c : Npcfsys Sess) (o : Option UInt32) : Prop :=
  (∀ n, c.fidpool.has n = true ↔ n ∈ c.peer.live ∨ o = some n) ∧ ∀ n, o = some n → n ∉ c.peer.live

/-- They agree, or a `Tclunk` has been answered with an error. -/
def Agree (o : Option UInt32) (c : Npcfsys Sess) : Prop := c.peer.spoiled = true ∨ c.Synced o

namespace Npc

open Prog

variable {α : Type} {o o' : Option UInt32} {f : Npcfid} {tc : Msg}

variable {E : Npcfsys Sess → Prop} {Q : Unit → Npcfsys Sess → Prop} {β : Type}
  {x : Prog (Npcfsys Sess) α} {op : Npcfid → Prog (Npcfsys Sess) α} {g : α → Prog (Npcfsys Sess) β}

/-- What a request does to a session, whatever the reply is. -/
theorem triple_rpc {P : Npcfsys Sess → Prop} {Q : Msg → Npcfsys Sess → Prop}
    (hok : ∀ c rc c', P c → tc.Admits c.peer.live rc →
      c'.peer.live = Sess.drop tc (c.peer.live ∪ tc.creates.toFinset) →
      c'.peer.spoiled = c.peer.spoiled → c'.fidpool = c.fidpool → c'.ecode = c.ecode → Q rc c')
    (hstop : ∀ c c', P c → c'.peer.live = Sess.drop tc c.peer.live →
      c'.peer.spoiled = (c.peer.spoiled || tc.type == .tclunk) → c'.fidpool = c.fidpool →
      c'.ecode ≠ 0 → E c') : Triple P (npcRpc Sess.rpc tc) Q E := by
  intro c hP
  rcases Sess.rpc_cases tc c.peer with ⟨e, h⟩ | ⟨rc, replies, ha, h⟩
  · rw [npcRpc_of_error Sess.rpc h]
    refine hstop c _ hP rfl rfl rfl ?_
    change UInt32.toNat _ ≠ 0
    split
    · decide
    · rename_i he
      exact fun h0 => he (UInt32.toNat_inj.mp h0)
  · rw [npcRpc_of_reply Sess.rpc ha.type_ne h]
    exact hok c rc _ hP ha rfl rfl rfl rfl

/-! ### The parts of a call -/

/-- **A call after which the numbers agree** if they did before. -/
def Balanced (x : Prog (Npcfsys Sess) α) : Prop :=
  Triple (Agree none) x (fun _ => Agree none) (Agree none)

/-- A refusal takes no fid away, except that of a `Tclunk` or a `Tremove`. -/
theorem agree_refused {c c' : Npcfsys Sess} (hd : tc.drops = false) (hc : Agree o c)
    (hl : c'.peer.live = Sess.drop tc c.peer.live)
    (hs : c'.peer.spoiled = (c.peer.spoiled || tc.type == .tclunk))
    (hf : c'.fidpool = c.fidpool) : Agree o c' := by
  have ht : (tc.type == MsgType.tclunk) = false := by
    cases tc <;> first | rfl | cases hd
  rw [Sess.drop, hd] at hl
  rw [ht, Bool.or_false] at hs
  exact hc.imp (hs.trans ·) fun h => by rwa [Npcfsys.Synced, hl, hf]

/-- A request that neither makes nor drops a fid. -/
theorem triple_plain (tc : Msg) (hm : tc.creates = []) (hd : tc.drops = false) :
    Triple (Agree o) (npcRpc Sess.rpc tc) (fun _ => Agree o) (Agree o) := by
  refine triple_rpc (fun c rc c' hc _ hl hs hf _ => ?_) fun c c' hc hl hs hf _ =>
    agree_refused hd hc hl hs hf
  rw [hm, Sess.drop, hd] at hl
  simp only [List.toFinset_nil, Finset.union_empty, Bool.false_eq_true, if_false] at hl
  exact hc.imp (hs.trans ·) fun h => by rwa [Npcfsys.Synced, hl, hf]

/-- A request that makes the fid whose number the client has taken. -/
theorem triple_make (tc : Msg) {n : UInt32} (hm : tc.reqFid ≠ some n → tc.creates = [n])
    (hd : tc.drops = false) :
    Triple (Agree (some n)) (npcRpc Sess.rpc tc) (fun _ => Agree none) (Agree (some n)) := by
  refine triple_rpc (fun c rc c' hc ha hl hs hf _ => ?_) fun c c' hc hl hs hf _ =>
    agree_refused hd hc hl hs hf
  refine hc.imp (hs.trans ·) fun h => ?_
  -- a fid that is not there is not walked from
  have hne : tc.reqFid ≠ some n := fun hr => h.2 n rfl (ha.2.1 n (by simp [hr]))
  rw [hm hne, Sess.drop, hd] at hl
  refine ⟨fun m => ?_, fun m hm => by cases hm⟩
  rw [hf, h.1 m, hl]
  simp [or_comm, eq_comm]

theorem triple_twalk (nfid : UInt32) (names : List Bytes) :
    Triple (Agree (some f.fid)) (npcRpc Sess.rpc (.twalk nfid f.fid names))
      (fun _ => Agree none) (Agree (some f.fid)) := by
  refine triple_make _ (fun hne => ?_) rfl
  have hne' : nfid ≠ f.fid := fun h => hne (congrArg some h)
  simp [Fcall.creates, Fcall.opens, Fcall.makes, hne']

theorem triple_alloc : Triple (Agree none) npcFidAlloc (fun f => Agree (some f.fid)) E := by
  intro c hc
  rw [npcFidAlloc]
  rcases hp : c.fidpool.npcGetId with _ | r
  · trivial
  · obtain ⟨n, p⟩ := r
    obtain ⟨hfree, hhas⟩ := Npcpool.npcGetId_spec hp
    refine hc.imp id fun h => ⟨fun m => ?_, fun m hm => ?_⟩
    · change p.has m = true ↔ m ∈ c.peer.live ∨ some n = some m
      rw [hhas, Bool.or_eq_true, h.1 m, decide_eq_true_eq, Option.some_inj]
      simp [eq_comm]
    · obtain rfl : n = m := Option.some_inj.mp hm
      intro hl
      rw [(h.1 n).mpr (.inl hl)] at hfree
      cases hfree

theorem triple_free : Triple (Agree (some f.fid)) (npcFidFree f) (fun _ => Agree none) E := by
  refine triple_modify fun c hc => hc.imp id fun h => ⟨fun m => ?_, fun m hm => by cases hm⟩
  change (c.fidpool.npcPutId f.fid).has m = true ↔ m ∈ c.peer.live ∨ none = some m
  rw [Npcpool.has_npcPutId, Bool.and_eq_true, h.1 m, decide_eq_true_eq]
  constructor
  · rintro ⟨hm | hm, hne⟩
    · exact .inl hm
    · exact absurd (Option.some_inj.mp hm).symm hne
  · rintro (hm | hm)
    · exact ⟨.inl hm, fun he => h.2 f.fid rfl (he ▸ hm)⟩
    · cases hm

/-- `npc_clunk`, which succeeds only for a fid that the server has. -/
theorem triple_clunk_known : Triple (Agree o) (npcClunk Sess.rpc f)
    (fun _ c => c.peer.spoiled = true ∨ o ≠ some f.fid ∧ c.Synced o) (Agree o') := by
  have hrpc : Triple (Agree o) (npcRpc Sess.rpc (.tclunk f.fid))
      (fun _ c => c.peer.spoiled = true ∨ f.fid ∉ c.peer.live ∧ o ≠ some f.fid ∧
        (∀ n, c.fidpool.has n = true ↔ n ∈ c.peer.live ∨ o = some n ∨ n = f.fid) ∧
        ∀ n, o = some n → n ∉ c.peer.live) (Agree o') := by
    refine triple_rpc (fun c rc c' hc ha hl hs hf _ => ?_) fun c c' _ _ hs _ _ => ?_
    · refine hc.imp (hs.trans ·) fun h => ?_
      have hin : f.fid ∈ c.peer.live := ha.2.1 f.fid (by simp [Fcall.reqFid])
      have hl' : ∀ n, n ∈ c'.peer.live ↔ n ∈ c.peer.live ∧ n ≠ f.fid := fun n => by
        rw [hl]
        simp [Sess.drop, Fcall.drops, Fcall.creates, Fcall.opens, Fcall.makes, Fcall.reqFid]
      refine ⟨fun hn => ((hl' _).mp hn).2 rfl, fun ho => h.2 _ ho hin, fun n => ?_, fun n hn hn' =>
        h.2 n hn ((hl' n).mp hn').1⟩
      rw [hf, h.1 n, hl' n]
      by_cases hnf : n = f.fid
      · simp [hnf, hin]
      · simp [hnf]
    · exact .inl (hs.trans (by simp [Fcall.type]))
  refine hrpc.bind fun _ => triple_modify fun c hc => hc.imp id ?_
  rintro ⟨hnin, hno, hhas, hlive⟩
  refine ⟨hno, fun n => ?_, hlive⟩
  change (c.fidpool.npcPutId f.fid).has n = true ↔ n ∈ c.peer.live ∨ o = some n
  rw [Npcpool.has_npcPutId, Bool.and_eq_true, hhas n, decide_eq_true_eq]
  by_cases hnf : n = f.fid
  · simp [hnf, hnin, hno]
  · simp [hnf]

theorem triple_clunk : Triple (Agree o) (npcClunk Sess.rpc f) (fun _ => Agree o) (Agree o') :=
  triple_clunk_known.post fun _ _ h => h.imp id (·.2)

/-- A fid that the client may have taken a number for, and no other, is given back. -/
theorem triple_clunk_own (ho : o = none ∨ o = some f.fid) :
    Triple (Agree o) (npcClunk Sess.rpc f) (fun _ => Agree none) (Agree none) := by
  refine triple_clunk_known.post fun _ c h => h.imp id fun ⟨hne, hs⟩ => ?_
  rcases ho with rfl | ho
  · exact hs
  · exact absurd ho hne

theorem triple_uerror (e : ℕ) : Triple (Agree o) (npUerror e) (fun _ => Agree o) E :=
  triple_modify fun _ h => h

/-- A fid that is gone on the server, and still has its number. -/
def Dropped (n : UInt32) (c : Npcfsys Sess) : Prop :=
  c.peer.spoiled = true ∨ ∀ m, (c.fidpool.has m = true ∧ m ≠ n ↔ m ∈ c.peer.live)

/-- `npc_remove`, after which the number is free in any case. -/
theorem balanced_remove : Balanced (npcRemove Sess.rpc f) := by
  have hgone : ∀ c c' : Npcfsys Sess, Agree none c → c'.peer.spoiled = c.peer.spoiled →
      c'.fidpool = c.fidpool → c'.peer.live = Sess.drop (.tremove f.fid) c.peer.live →
      Dropped f.fid c' := fun c c' hc hs hf hl => hc.imp (hs.trans ·) fun h n => by
    rw [hf, h.1 n, hl]
    simp [Sess.drop, Fcall.drops, Fcall.reqFid]
  have hrpc : Triple (Agree none) (npcRpc Sess.rpc (.tremove f.fid)) (fun _ => Dropped f.fid)
      (Dropped f.fid) := by
    refine triple_rpc (fun c rc c' hc _ hl hs hf _ => hgone c c' hc hs hf ?_)
      fun c c' hc hl hs hf _ => hgone c c' hc ?_ hf hl
    · rw [hl]
      simp [Fcall.creates, Fcall.opens, Fcall.makes]
    · rw [hs]
      exact Bool.or_false _
  have hfree : Triple (Dropped f.fid) (npcFidFree f) (fun _ => Agree none) (Agree none) := by
    refine triple_modify fun c hc => hc.imp id fun h => ⟨fun n => ?_, fun n hn => by cases hn⟩
    change (c.fidpool.npcPutId f.fid).has n = true ↔ n ∈ c.peer.live ∨ none = some n
    rw [Npcpool.has_npcPutId, Bool.and_eq_true, decide_eq_true_eq, h n]
    simp
  exact hrpc.attempt_any.bind fun r => hfree.bind fun _ =>
    triple_when (fun _ => triple_stop fun _ h => h) fun _ _ h => h

/-- Give a fid back, and leave with the error from before. -/
theorem triple_clunkAndFail {Q : α → Npcfsys Sess → Prop} (ho : o = none ∨ o = some f.fid) :
    Triple (Agree o) (clunkAndFail Sess.rpc f) Q (Agree none) :=
  triple_read_bind fun c₀ => Triple.bind
    ((triple_clunk_own ho).attempt_any.pre fun _ h => h.1)
    fun _ => (triple_uerror c₀.ecode).bind fun _ => triple_stop fun _ h => h

/-! ### Walking -/

theorem triple_walkError (stale : Bool) (nfid : UInt32) :
    Triple (Agree (some f.fid)) (walkError Sess.rpc stale nfid f) Q (Agree none) := by
  have hcrash : Triple (Agree (some f.fid)) (.when (stale = true) .crash)
      (fun _ => Agree (some f.fid)) (Agree none) :=
    triple_when (fun _ => triple_crash) fun _ _ h => h
  refine hcrash.bind fun _ => triple_ite (fun _ => triple_clunkAndFail (.inr rfl)) fun _ => ?_
  exact triple_free.bind fun _ => triple_stop fun _ h => h

/-- The label `error` with a fid that the server has. -/
theorem triple_walkError_known (stale : Bool) :
    Triple (Agree none) (walkError Sess.rpc stale f.fid f) Q (Agree none) := by
  have hcrash : Triple (Agree none) (.when (stale = true) .crash)
      (fun _ => Agree none) (Agree none) :=
    triple_when (fun _ => triple_crash) fun _ _ h => h
  exact hcrash.bind fun _ => triple_ite (fun _ => triple_clunkAndFail (.inl rfl))
    fun hne => absurd rfl hne

/-- What follows a reply: it is the end, or there are more messages. -/
theorem triple_walkReply {k : ℕ}
    (ih : ∀ s t, Balanced (walkLoop Sess.rpc f k true f.fid s t)) (rc : Msg)
    (names : List Bytes) (s : Bytes) (t : Bool) :
    Balanced (if nwqid rc ≠ names.length then do
        npUerror ENOENT
        walkError Sess.rpc false f.fid f
      else if t = false ∨ s = [] then pure ()
      else walkLoop Sess.rpc f k true f.fid s t) := by
  refine triple_ite (fun _ => (triple_uerror ENOENT).bind fun _ => triple_walkError_known false)
    fun _ => triple_ite (fun _ => triple_pure fun _ h => h) fun _ => ih s t

/-- The messages after the first one. -/
theorem triple_walkLoop_inPlace (k : ℕ) (s : Bytes) (t : Bool) :
    Balanced (walkLoop Sess.rpc f k true f.fid s t) := by
  induction k generalizing s t with
  | zero => exact triple_crash
  | succ k ih =>
    rw [walkLoop]
    rcases gather s.length MAXWELEM s t with ⟨names, s', t'⟩
    have hrpc := triple_plain (o := none) (.twalk f.fid f.fid names)
      (by simp [Fcall.creates, Fcall.opens, Fcall.makes]) rfl
    refine hrpc.attempt.bind fun r => ?_
    rcases r with _ | rc
    · exact triple_walkError_known true
    · exact triple_walkReply ih rc names s' t'

/-- All of them. -/
theorem triple_walkLoop (k : ℕ) (nfid : UInt32) (s : Bytes) (t : Bool) :
    Triple (Agree (some f.fid)) (walkLoop Sess.rpc f k false nfid s t) (fun _ => Agree none)
      (Agree none) := by
  cases k with
  | zero => exact triple_crash
  | succ k =>
    rw [walkLoop]
    rcases gather s.length MAXWELEM s t with ⟨names, s', t'⟩
    refine (triple_twalk nfid names).attempt.bind fun r => ?_
    rcases r with _ | rc
    · exact triple_walkError false nfid
    · exact triple_walkReply (fun s t => triple_walkLoop_inPlace k s t) rc names s' t'

theorem balanced_clone (nfid : Npcfid) : Balanced (npcClone Sess.rpc nfid) := by
  refine triple_alloc.bind fun f => (triple_twalk nfid.fid []).attempt.bind fun r => ?_
  rcases r with _ | rc
  · exact triple_free.bind fun _ => triple_stop fun _ h => h
  · exact triple_pure fun _ h => h

/-- **`npc_walk`**: whatever the replies are, the numbers agree afterwards. -/
theorem balanced_walk (nfid : Npcfid) (path : Option Bytes) :
    Balanced (npcWalk Sess.rpc nfid path) := by
  rcases path with _ | path
  · exact balanced_clone nfid
  · exact triple_alloc.bind fun f => (triple_walkLoop _ nfid.fid _ false).bind fun _ =>
      triple_pure fun _ h => h

/-! ### The other calls -/

/-- A program that neither takes numbers nor makes fids. -/
def Keeps (x : Prog (Npcfsys Sess) α) : Prop :=
  ∀ o, Triple (Agree o) x (fun _ => Agree o) (Agree o)

theorem Keeps.bind (hx : Keeps x) (hg : ∀ a, Keeps (g a)) : Keeps (x >>= g) :=
  fun o => (hx o).bind fun a => hg a o

theorem Keeps.pure (a : α) : Keeps (Pure.pure a : Prog (Npcfsys Sess) α) :=
  fun _ => triple_pure fun _ h => h

theorem Keeps.stop : Keeps (Prog.stop : Prog (Npcfsys Sess) α) := fun _ => triple_stop fun _ h => h

theorem Keeps.crash : Keeps (Prog.crash : Prog (Npcfsys Sess) α) := fun _ => triple_crash

theorem Keeps.read_bind {g : Npcfsys Sess → Prog (Npcfsys Sess) α} (hg : ∀ c, Keeps (g c)) :
    Keeps (Prog.read >>= g) :=
  fun o => triple_read_bind fun c => (hg c o).pre fun _ h => h.1

theorem Keeps.attempt (hx : Keeps x) : Keeps x.attempt :=
  fun o => (hx o).attempt_any

theorem Keeps.ite {c : Prop} [Decidable c] {y : Prog (Npcfsys Sess) α} (hx : Keeps x)
    (hy : Keeps y) : Keeps (if c then x else y) :=
  fun o => triple_ite (fun _ => hx o) fun _ => hy o

theorem keeps_rpc (hm : tc.creates = []) (hd : tc.drops = false) : Keeps (npcRpc Sess.rpc tc) :=
  fun _ => triple_plain _ hm hd

theorem keeps_fail (e : ℕ) : Keeps (fail e : Prog (Npcfsys Sess) α) :=
  fun _ => (triple_uerror e).bind fun _ => triple_stop fun _ h => h

theorem keeps_open (flags : UInt32) : Keeps (npcOpen Sess.rpc f flags) :=
  .read_bind fun _ => (keeps_rpc rfl rfl).bind fun _ => .pure _

theorem keeps_create (name : Bytes) (flags mode gid : UInt32) :
    Keeps (npcCreate Sess.rpc f name flags mode gid) :=
  .read_bind fun _ => (keeps_rpc rfl rfl).bind fun _ => .pure _

theorem keeps_pread (count : UInt32) (offset : UInt64) : Keeps (npcPread Sess.rpc f count offset) :=
  .read_bind fun _ => (keeps_rpc rfl rfl).bind fun _ => .ite (keeps_fail _) (.pure _)

theorem keeps_read (count : UInt32) : Keeps (npcRead Sess.rpc f count) :=
  (keeps_pread count _).bind fun _ => .pure _

theorem keeps_getLoop (k : ℕ) (f : Npcfid) (count : UInt32) (buf : Bytes) :
    Keeps (getLoop Sess.rpc k f count buf) := by
  induction k generalizing f buf with
  | zero => exact .crash
  | succ k ih =>
    rw [getLoop]
    exact .ite ((keeps_read _).bind fun r => .read_bind fun _ =>
      .ite (.pure _) (.ite (.pure _) (ih r.1 _))) (.pure _)

theorem keeps_agetLoop (k : ℕ) (f : Npcfid) (ssize : ℕ) (buf : Bytes) :
    Keeps (agetLoop Sess.rpc k f ssize buf) := by
  induction k generalizing f ssize buf with
  | zero => exact .crash
  | succ k ih =>
    rw [agetLoop]
    exact (keeps_read _).bind fun r => .read_bind fun _ =>
      .ite (.pure _) (.ite (.pure _) (ih r.1 _ _))

theorem keeps_pwrite (buf : Bytes) (offset : UInt64) : Keeps (npcPwrite Sess.rpc f buf offset) :=
  .read_bind fun _ => (keeps_rpc rfl rfl).bind fun _ => .ite .stop (.pure _)

theorem keeps_write (buf : Bytes) : Keeps (npcWrite Sess.rpc f buf) :=
  (keeps_pwrite buf _).bind fun _ => .pure _

theorem keeps_putLoop (bound : ℤ) (k : ℕ) (f : Npcfid) (buf : Bytes) (done : ℕ) :
    Keeps (putLoop Sess.rpc bound k f buf done) := by
  induction k generalizing f done with
  | zero => exact .crash
  | succ k ih =>
    rw [putLoop]
    exact .ite ((keeps_write _).bind fun r => .ite .crash (ih r.1 _)) (.pure _)

theorem keeps_xattrLoop (k : ℕ) (f : Npcfid) (size : ℕ) (buf : Bytes) :
    Keeps (xattrLoop Sess.rpc k f size buf) := by
  induction k generalizing f buf with
  | zero => exact .crash
  | succ k ih =>
    rw [xattrLoop]
    refine .ite ((keeps_read _).attempt.bind fun r => ?_) (.pure _)
    rcases r with _ | r
    · exact .ite .stop (ih f _)
    · exact .ite (.pure _) (ih r.1 _)

theorem Keeps.balanced (h : Keeps x) : Balanced x := h none

theorem Balanced.bind (hx : Balanced x) (hg : ∀ a, Balanced (g a)) : Balanced (x >>= g) :=
  Triple.bind hx hg

theorem Balanced.pure (a : α) : Balanced (Pure.pure a : Prog (Npcfsys Sess) α) :=
  (Keeps.pure a).balanced

theorem Balanced.stop : Balanced (Prog.stop : Prog (Npcfsys Sess) α) := Keeps.stop.balanced

theorem Balanced.attempt (hx : Balanced x) : Balanced x.attempt :=
  Triple.attempt_any hx

theorem balanced_clunk : Balanced (npcClunk Sess.rpc f) := triple_clunk

theorem balanced_clunkAndFail : Balanced (clunkAndFail Sess.rpc f : Prog (Npcfsys Sess) α) :=
  triple_clunkAndFail (.inl rfl)

theorem balanced_walkThen (root : Npcfid) (path : Bytes)
    (hop : ∀ f, Keeps (op f)) : Balanced (walkThen Sess.rpc root path op) := by
  refine (balanced_walk root _).bind fun f => (hop f).balanced.attempt.bind fun r => ?_
  rcases r with _ | a
  · exact balanced_clunkAndFail
  · exact .pure _

theorem balanced_walkClunk (root : Npcfid) (path : Bytes)
    (hop : ∀ f, Keeps (op f)) : Balanced (walkClunk Sess.rpc root path op) :=
  (balanced_walkThen root path hop).bind fun _ => balanced_clunk.bind fun _ =>
    .pure _

theorem balanced_openBypath (root : Npcfid) (path : Bytes) (flags : UInt32) :
    Balanced (npcOpenBypath Sess.rpc root path flags) :=
  (balanced_walkThen root path fun _ => keeps_open flags).bind fun _ => .pure _

theorem balanced_get (reads : ℕ) (root : Npcfid) (path : Bytes) (count : UInt32) :
    Balanced (npcGet Sess.rpc reads root path count) :=
  (balanced_openBypath root path 0).bind fun f => (keeps_getLoop reads f count []).balanced.bind
    fun _ => balanced_clunk.bind fun _ => .pure _

theorem balanced_aget (reads : ℕ) (root : Npcfid) (path : Bytes) :
    Balanced (npcAget Sess.rpc reads root path) := by
  refine (balanced_openBypath root path 0).bind fun f => Balanced.bind (Balanced.attempt
    ((keeps_agetLoop reads f AGET_CHUNK []).balanced.bind fun _ => balanced_clunk.bind fun _ =>
      .pure _)) fun r => ?_
  rcases r with _ | s
  · exact balanced_clunk.attempt.bind fun _ => .stop
  · exact .pure _

theorem balanced_put (writes : ℕ) (root : Npcfid) (path buf : Bytes) :
    Balanced (npcPut Sess.rpc writes root path buf) := by
  refine (balanced_openBypath root path 1).bind fun f =>
    (keeps_putLoop _ writes f buf 0).balanced.attempt.bind fun r => balanced_clunk.bind fun _ => ?_
  rcases r with _ | s
  · exact Balanced.stop
  · exact .pure _

theorem balanced_setxattr (writes : ℕ) (root : Npcfid) (path name val : Bytes) (flags : UInt32) :
    Balanced (npcSetxattr Sess.rpc writes root path name val flags) := by
  have hcreate : ∀ f : Npcfid, Keeps (npcXattrcreate Sess.rpc f name (.ofNat val.length) flags) :=
    fun f => (keeps_rpc rfl rfl).bind fun _ => .pure _
  exact (balanced_walk root _).bind fun f =>
    ((hcreate f).bind fun _ => keeps_putLoop _ writes f val 0).balanced.attempt.bind fun _ =>
      balanced_clunk

theorem balanced_opendir (root : Npcfid) (path : Bytes) :
    Balanced (npcOpendir Sess.rpc root path) := by
  have hstat : ∀ f : Npcfid, Keeps (do
      let rc ← npcGetattr Sess.rpc f 0x7ff
      if replyIsDir rc then pure f else fail ENOTDIR) := fun f =>
    Keeps.bind (keeps_rpc rfl rfl) fun _ => .ite (.pure _) (keeps_fail _)
  refine (balanced_openBypath root path 0).bind fun f => (hstat f).balanced.attempt.bind fun r => ?_
  rcases r with _ | f
  · exact balanced_clunk.attempt.bind fun _ => .stop
  · exact .pure _

/-- A number that the client has taken, and the server may know. -/
def Maybe (n : UInt32) (c : Npcfsys Sess) : Prop := Agree none c ∨ Agree (some n) c

theorem triple_xattrwalk (attrfid : Npcfid) (name : Bytes) :
    Triple (Agree (some attrfid.fid)) (npcXattrwalk Sess.rpc f attrfid name)
      (fun _ => Agree none) (Maybe attrfid.fid) := by
  have hrpc := triple_make (.txattrwalk f.fid attrfid.fid name) (n := attrfid.fid)
    (fun _ => rfl) rfl
  refine (hrpc.exit fun _ => .inr).bind fun rc => ?_
  exact triple_ite (fun _ => triple_stop fun _ => .inl) fun _ => triple_pure fun _ h => h

/-- `npc_getxattr`. The server may not have the second fid when it is clunked. -/
theorem balanced_getxattr (reads : ℕ) (root : Npcfid) (path attr : Bytes) (size : ℕ) :
    Balanced (npcGetxattr Sess.rpc reads root path attr size) := by
  refine (balanced_walk root _).bind fun f => Triple.bind triple_alloc fun attrfid => ?_
  have hread : ∀ ret : ℤ, Keeps (if size = 0 then pure (ret, [])
      else if ret > size then do
        npUerror ERANGE
        pure (ret, [])
      else do
        let buf ← xattrLoop Sess.rpc reads attrfid size []
        pure ((buf.length : ℤ), buf) : Prog (Npcfsys Sess) (ℤ × Bytes)) := fun ret =>
    .ite (.pure _) (.ite (Keeps.bind (fun _ => triple_uerror _) fun _ => .pure _)
      ((keeps_xattrLoop _ _ _ _).bind fun _ => .pure _))
  have hget := (triple_xattrwalk (f := f) attrfid attr).bind fun ret =>
    (hread ret).balanced.exit fun _ => .inl
  have hclunk : Triple (Maybe attrfid.fid) (npcClunk Sess.rpc f).attempt
      (fun _ => Maybe attrfid.fid) (Agree none) := by
    refine Triple.attempt_any (triple_or ?_ ?_)
    · exact triple_clunk.mono (fun _ h => h) (fun _ _ => .inl) fun _ => .inl
    · exact triple_clunk.mono (fun _ h => h) (fun _ _ => .inr) fun _ => .inr
  have hown : Triple (Maybe attrfid.fid) (npcClunk Sess.rpc attrfid) (fun _ => Agree none)
      (Agree none) := triple_or (triple_clunk_own (.inl rfl)) (triple_clunk_own (.inr rfl))
  refine (hget.post fun _ _ => .inl).attempt_any.bind fun r =>
    hclunk.bind fun _ => hown.attempt_any.bind fun _ => ?_
  rcases r with _ | ret
  · exact Balanced.stop
  · exact Balanced.pure _

/-! ### Attaching -/

theorem balanced_auth (writes : ℕ) (aname : Bytes) (uid : UInt32)
    (auth : Option (Except ℕ Bytes)) : Balanced (npcAuth Sess.rpc writes aname uid auth) := by
  refine Triple.bind triple_alloc fun afid => ?_
  have hrpc := triple_make (.tauth afid.fid [] aname uid) (n := afid.fid) (fun _ => rfl) rfl
  refine hrpc.attempt.bind fun r => ?_
  rcases r with _ | _
  · refine triple_free.bind fun _ => Keeps.balanced (.read_bind fun c => ?_)
    exact Keeps.bind (fun _ => triple_when (fun _ => triple_uerror 0) fun _ _ h => h)
      fun _ => .stop
  · refine (Keeps.balanced ?_).attempt.bind fun r => ?_
    · -- the credential is written through the new fid, if there is one to write
      rcases auth with _ | e | cred
      · exact .pure _
      · exact keeps_fail e
      · exact (keeps_putLoop _ _ _ _ _).bind fun _ => .pure _
    · rcases r with _ | _
      · exact balanced_clunkAndFail
      · exact .pure _

/-- `npc_attach`, where no error is left over from before. -/
theorem triple_attach (afid : Option Npcfid) (aname : Bytes) (uid : UInt32) :
    Triple (fun c => Agree none c ∧ c.ecode = 0) (npcAttach Sess.rpc afid aname uid)
      (fun _ => Agree none) (Agree none) := by
  have halloc : Triple (fun c : Npcfsys Sess => c.ecode = 0) npcFidAlloc (fun _ c => c.ecode = 0)
      (fun _ => False) := by
    intro c hc
    rw [npcFidAlloc]
    rcases c.fidpool.npcGetId with _ | r
    · trivial
    · exact hc
  refine ((triple_alloc (E := Agree none).and halloc).exit fun _ h => h.1).bind fun f => ?_
  have hrpc := triple_make (.tattach f.fid ((afid.map (·.fid)).getD NOFID) [] aname uid)
    (n := f.fid) (fun _ => rfl) rfl
  have hcode : Triple (fun c : Npcfsys Sess => c.ecode = 0)
      (npcRpc Sess.rpc (.tattach f.fid ((afid.map (·.fid)).getD NOFID) [] aname uid))
      (fun _ c => c.ecode = 0) (fun c => c.ecode ≠ 0) :=
    triple_rpc (fun _ _ _ hc _ _ _ _ he => he.trans hc) fun _ _ _ _ _ _ he => he
  -- whether the request has failed can be seen from the error code
  have hboth : Triple (fun c => Agree (some f.fid) c ∧ c.ecode = 0)
      (npcRpc Sess.rpc (.tattach f.fid ((afid.map (·.fid)).getD NOFID) [] aname uid)).attempt
      (fun _ c => if c.ecode ≠ 0 then Agree (some f.fid) c else Agree none c) (Agree none) := by
    refine Triple.attempt_any ((hrpc.and hcode).mono (fun _ h => h) ?_ ?_)
    · rintro rc c ⟨h, he⟩
      rwa [if_neg (not_not.mpr he)]
    · rintro c ⟨h, he⟩
      rwa [if_pos he]
  refine hboth.bind fun _ => triple_read_bind fun c₀ => triple_ite (fun he => ?_) fun he => ?_
  · refine (triple_free.pre ?_).bind fun _ => triple_stop fun _ h => h
    rintro c ⟨h, rfl⟩
    rwa [if_pos he] at h
  · refine triple_pure ?_
    rintro c ⟨h, rfl⟩
    rwa [if_neg he] at h

end Npc

/-! ### Runs -/

/-- **The calls of the library**, with what is given to them. Where a call reads or writes
in a loop, `k` bounds how often. -/
inductive NpcCall
  | auth (k : ℕ) (aname : Bytes) (uid : UInt32) (cred : Option (Except ℕ Bytes))
  | attach (afid : Option Npcfid) (aname : Bytes) (uid : UInt32)
  | walk (f : Npcfid) (path : Option Bytes)
  | clone (f : Npcfid)
  | clunk (f : Npcfid)
  | remove (f : Npcfid)
  | open (f : Npcfid) (flags : UInt32)
  | create (f : Npcfid) (name : Bytes) (flags mode gid : UInt32)
  | pread (f : Npcfid) (count : UInt32) (offset : UInt64)
  | read (f : Npcfid) (count : UInt32)
  | pwrite (f : Npcfid) (buf : Bytes) (offset : UInt64)
  | write (f : Npcfid) (buf : Bytes)
  | puts (k : ℕ) (f : Npcfid) (buf : Bytes)
  | mkdir (f : Npcfid) (name : Bytes) (mode gid : UInt32)
  | rename (f dfid : Npcfid) (name : Bytes)
  | getattr (f : Npcfid) (requestMask : UInt64)
  | setattr (f : Npcfid) (a : Nptsetattr)
  | readdir (f : Npcfid) (offset : UInt64) (count : UInt32)
  | lock (f : Npcfid) (type : UInt8) (flags : UInt32) (start length : UInt64) (procId : UInt32)
      (clientId : Bytes)
  | getlock (f : Npcfid) (type : UInt8) (start length : UInt64) (procId : UInt32)
      (clientId : Bytes)
  | xattrwalk (f attrfid : Npcfid) (name : Bytes)
  | xattrcreate (f : Npcfid) (name : Bytes) (size : UInt64) (flags : UInt32)
  | openBypath (root : Npcfid) (path : Bytes) (flags : UInt32)
  | createBypath (root : Npcfid) (path : Bytes) (flags mode gid : UInt32)
  | mkdirBypath (root : Npcfid) (path : Bytes) (mode gid : UInt32)
  | removeBypath (root : Npcfid) (path : Bytes)
  | stat (root : Npcfid) (path : Bytes)
  | setattrBypath (root : Npcfid) (path : Bytes) (a : Nptsetattr)
  | opendir (root : Npcfid) (path : Bytes)
  | get (k : ℕ) (root : Npcfid) (path : Bytes) (count : UInt32)
  | aget (k : ℕ) (root : Npcfid) (path : Bytes)
  | put (k : ℕ) (root : Npcfid) (path buf : Bytes)
  | getxattr (k : ℕ) (root : Npcfid) (path attr : Bytes) (size : ℕ)
  | setxattr (k : ℕ) (root : Npcfid) (path name val : Bytes) (flags : UInt32)

section

open Npc Prog

variable (dirname basename : Bytes → Bytes)

/-- Run a program for what it does. -/
def Npc.forget {X α : Type} (x : Prog (Npcfsys X) α) : Prog (Npcfsys X) Unit := do
  let _ ← x
  pure ()

/-- Make a call, and forget what it returns. -/
def NpcCall.run : NpcCall → Prog (Npcfsys Sess) Unit
  | .auth k aname uid cred => forget (npcAuth Sess.rpc k aname uid cred)
  | .attach afid aname uid => forget (npcAttach Sess.rpc afid aname uid)
  | .walk f path => forget (npcWalk Sess.rpc f path)
  | .clone f => forget (npcClone Sess.rpc f)
  | .clunk f => npcClunk Sess.rpc f
  | .remove f => npcRemove Sess.rpc f
  | .open f flags => forget (npcOpen Sess.rpc f flags)
  | .create f name flags mode gid =>
    forget (npcCreate Sess.rpc f name flags mode gid)
  | .pread f count offset => forget (npcPread Sess.rpc f count offset)
  | .read f count => forget (npcRead Sess.rpc f count)
  | .pwrite f buf offset => forget (npcPwrite Sess.rpc f buf offset)
  | .write f buf => forget (npcWrite Sess.rpc f buf)
  | .puts k f buf => forget (npcPuts Sess.rpc k f buf)
  | .mkdir f name mode gid => forget (npcMkdir Sess.rpc f name mode gid)
  | .rename f dfid name => forget (npcRename Sess.rpc f dfid name)
  | .getattr f requestMask => forget (npcGetattr Sess.rpc f requestMask)
  | .setattr f a => forget (npcSetattr Sess.rpc f a)
  | .readdir f offset count => forget (npcReaddir Sess.rpc f offset count)
  | .lock f type flags start length procId clientId =>
    forget (npcLock Sess.rpc f type flags start length procId clientId)
  | .getlock f type start length procId clientId =>
    forget (npcGetlock Sess.rpc f type start length procId clientId)
  | .xattrwalk f attrfid name => do
    -- the program has the second fid from another call
    let c ← .read
    if c.fidpool.has attrfid.fid then forget (npcXattrwalk Sess.rpc f attrfid name) else .crash
  | .xattrcreate f name size flags => npcXattrcreate Sess.rpc f name size flags
  | .openBypath root path flags => forget (npcOpenBypath Sess.rpc root path flags)
  | .createBypath root path flags mode gid =>
    forget (npcCreateBypath Sess.rpc dirname basename root path flags mode gid)
  | .mkdirBypath root path mode gid =>
    forget (npcMkdirBypath Sess.rpc dirname basename root path mode gid)
  | .removeBypath root path => npcRemoveBypath Sess.rpc root path
  | .stat root path => forget (npcStat Sess.rpc root path)
  | .setattrBypath root path a => forget (npcSetattrBypath Sess.rpc root path a)
  | .opendir root path => forget (npcOpendir Sess.rpc root path)
  | .get k root path count => forget (npcGet Sess.rpc k root path count)
  | .aget k root path => forget (npcAget Sess.rpc k root path)
  | .put k root path buf => forget (npcPut Sess.rpc k root path buf)
  | .getxattr k root path attr size =>
    forget (npcGetxattr Sess.rpc k root path attr size)
  | .setxattr k root path name val flags => npcSetxattr Sess.rpc k root path name val flags

/-- `npc_attach` finds no error from before. -/
def NpcCall.Fresh (c : Npcfsys Sess) : NpcCall → Prop
  | .attach .. => c.ecode = 0
  | _ => True

instance (c : Npcfsys Sess) : ∀ a : NpcCall, Decidable (a.Fresh c)
  | .attach .. => inferInstanceAs (Decidable (c.ecode = 0))
  | .auth .. | .walk .. | .clone .. | .clunk .. | .remove .. | .open .. | .create .. | .pread ..
  | .read .. | .pwrite .. | .write .. | .puts .. | .mkdir .. | .rename .. | .getattr ..
  | .setattr .. | .readdir .. | .lock .. | .getlock .. | .xattrwalk .. | .xattrcreate ..
  | .openBypath .. | .createBypath .. | .mkdirBypath .. | .removeBypath .. | .stat ..
  | .setattrBypath .. | .opendir .. | .get .. | .aget .. | .put .. | .getxattr ..
  | .setxattr .. => inferInstanceAs (Decidable True)

theorem Npc.Balanced.forget {α : Type} {x : Prog (Npcfsys Sess) α} (h : Balanced x) :
    Balanced (Npc.forget x) :=
  h.bind fun _ => .pure _

theorem Npc.balanced_request (tc : Msg) (hm : tc.creates = []) (hd : tc.drops = false) :
    Balanced (Npc.forget (npcRpc Sess.rpc tc)) :=
  (keeps_rpc hm hd).balanced.forget

/-- `npc_xattrwalk` with a fid that is in use already, which the server refuses. -/
theorem Npc.balanced_xattrwalk (f attrfid : Npcfid) (name : Bytes) :
    Balanced ((NpcCall.xattrwalk f attrfid name).run dirname basename) := by
  refine triple_read_bind fun c₀ => triple_ite (fun hhas => ?_) fun _ => triple_crash
  have hrpc : Triple (fun c => Agree none c ∧ c = c₀)
      (npcRpc Sess.rpc (.txattrwalk f.fid attrfid.fid name)) (fun _ => Agree none)
      (Agree none) := by
    refine triple_rpc (fun c rc c' hc ha _ hs _ _ => ?_) fun c c' hc hl hs hf _ => ?_
    · obtain ⟨hc, rfl⟩ := hc
      refine hc.imp (hs.trans ·) fun h => ?_
      rcases (h.1 attrfid.fid).mp hhas with hin | ho
      · exact absurd hin (ha.2.2.1 attrfid.fid (by simp [Fcall.creates, Fcall.opens, Fcall.makes]))
      · cases ho
    · exact agree_refused rfl hc.1 hl hs hf
  refine Triple.bind (hrpc.bind fun rc => ?_) fun _ => triple_pure fun _ h => h
  exact (Keeps.ite .stop (.pure _)).balanced

/-- **What a call keeps**: the numbers agree afterwards, or a `Tclunk` has failed. -/
theorem NpcCall.run_agree (a : NpcCall) :
    Triple (fun c => Agree none c ∧ a.Fresh c) (a.run dirname basename) (fun _ => Agree none)
      (Agree none) := by
  have weaken : ∀ {x : Prog (Npcfsys Sess) Unit}, Balanced x →
      Triple (fun c => Agree none c ∧ a.Fresh c) x (fun _ => Agree none) (Agree none) :=
    fun h => Triple.pre h fun _ h => h.1
  cases a with
  | auth k aname uid cred => exact weaken (balanced_auth k aname uid cred).forget
  | attach afid aname uid =>
    exact (triple_attach afid aname uid).bind fun _ => triple_pure fun _ h => h
  | walk f path => exact weaken ((balanced_walk f path).forget)
  | clone f => exact weaken ((balanced_clone f).forget)
  | clunk f => exact weaken balanced_clunk
  | remove f => exact weaken balanced_remove
  | «open» f flags => exact weaken (keeps_open flags).balanced.forget
  | create f name flags mode gid => exact weaken (keeps_create name flags mode gid).balanced.forget
  | pread f count offset => exact weaken (keeps_pread count offset).balanced.forget
  | read f count => exact weaken (keeps_read count).balanced.forget
  | pwrite f buf offset => exact weaken (keeps_pwrite buf offset).balanced.forget
  | write f buf => exact weaken (keeps_write buf).balanced.forget
  | puts k f buf => exact weaken (keeps_putLoop _ k f _ 0).balanced.forget
  | openBypath root path flags => exact weaken (balanced_openBypath root path flags).forget
  | createBypath root path flags mode gid =>
    exact weaken ((balanced_walkThen root _ fun _ => keeps_create _ flags mode gid).bind fun _ =>
      .pure _).forget
  | mkdirBypath root path mode gid =>
    exact weaken (Balanced.forget (balanced_walkClunk root _ fun _ => keeps_rpc rfl rfl))
  | removeBypath root path =>
    exact weaken ((balanced_walk root _).bind fun _ => balanced_remove)
  | stat root path =>
    exact weaken (Balanced.forget (balanced_walkClunk root _ fun _ => keeps_rpc rfl rfl))
  | setattrBypath root path a =>
    exact weaken (Balanced.forget (balanced_walkClunk root _ fun _ => keeps_rpc rfl rfl))
  | opendir root path => exact weaken (balanced_opendir root path).forget
  | get k root path count => exact weaken (balanced_get k root path count).forget
  | aget k root path => exact weaken (balanced_aget k root path).forget
  | put k root path buf => exact weaken (balanced_put k root path buf).forget
  | getxattr k root path attr size =>
    exact weaken (balanced_getxattr k root path attr size).forget
  | setxattr k root path name val flags =>
    exact weaken (balanced_setxattr k root path name val flags)
  | xattrwalk f attrfid name => exact weaken (balanced_xattrwalk dirname basename f attrfid name)
  | _ => exact weaken (balanced_request _ rfl rfl)

/-- **One call**, which is no step if it does not come to an end. -/
def npcStep (c : Npcfsys Sess) (a : NpcCall) : Option (Npcfsys Sess) :=
  match a.run dirname basename c with
  | (.ok _, c') | (.stop, c') => some c'
  | (.crash, _) => none

/-- A connection after `npc_start`. -/
def Npcfsys.start (msize : UInt32) (shortread : Bool) (replies : List Msg) : Npcfsys Sess where
  msize
  shortread
  fidpool := .npcCreatePool NOFID
  ecode := 0
  peer := { live := ∅, replies }

/-- **A call without the two mishaps**: no `Tclunk` in it is answered with an error, and
`npc_attach` finds no error from before. -/
def Regular (c : Npcfsys Sess) (a : NpcCall) : Prop :=
  a.Fresh c ∧ ∀ c', npcStep dirname basename c a = some c' → c'.peer.spoiled = false

instance (c : Npcfsys Sess) (a : NpcCall) : Decidable (Regular dirname basename c a) :=
  inferInstanceAs (Decidable (_ ∧ ∀ c' ∈ npcStep dirname basename c a, c'.peer.spoiled = false))

theorem agree_step {c c' : Npcfsys Sess} {a : NpcCall} (hc : Agree none c) (ha : a.Fresh c)
    (h : npcStep dirname basename c a = some c') : Agree none c' := by
  have hrun := a.run_agree dirname basename c ⟨hc, ha⟩
  unfold npcStep at h
  split at h <;> rename_i hx
  · rw [hx] at hrun
    cases h
    exact hrun
  · rw [hx] at hrun
    cases h
    exact hrun
  · cases h

/-- **The two sides agree** on the numbers in use after each call of a run, in which no
`Tclunk` is answered with an error and `npc_attach` finds no error from before. Any other
request may fail. -/
theorem fids_agree {msize : UInt32} {shortread : Bool} {replies : List Msg} {c : Npcfsys Sess}
    (h : Reaches (npcStep dirname basename) (Regular dirname basename)
      (.start msize shortread replies) c) (n : UInt32) :
    c.fidpool.has n = true ↔ n ∈ c.peer.live := by
  have hinv : Agree none c ∧ c.peer.spoiled = false := by
    refine h.invariant (I := fun c => Agree none c ∧ c.peer.spoiled = false) ?_ ?_
    · refine ⟨.inr ⟨fun n => ?_, fun n hn => by cases hn⟩, rfl⟩
      simp [Npcfsys.start, Npcpool.has_npcCreatePool]
    · intro c c' a hc ha hstep
      exact ⟨agree_step dirname basename hc.1 ha.1 hstep, ha.2 c' hstep⟩
  obtain ⟨hs | hs, hns⟩ := hinv
  · rw [hs] at hns
    cases hns
  · simpa using hs.1 n

end

/-- A file is walked to, and cannot be removed. -/
theorem fids_agree_remove_fails :
    ∃ c, Reaches (npcStep id id) (Regular id id) (.start 65536 false
        [.rattach ⟨0x80, 0, 1⟩, .rwalk [⟨0, 0, 2⟩], .rlerror 13]) c ∧
      c.ecode = 13 ∧ c.fidpool.has 0 = true ∧ c.fidpool.has 1 = false ∧
      ∀ n, c.fidpool.has n = true ↔ n ∈ c.peer.live := by
  let calls : List NpcCall :=
    [.attach none [] 0, .walk ⟨0, 0, 0⟩ (some [0x61]), .remove ⟨1, 0, 0⟩]
  have hrun : (runSteps (npcStep id id) (.start 65536 false
      [.rattach ⟨0x80, 0, 1⟩, .rwalk [⟨0, 0, 2⟩], .rlerror 13]) calls).map
        (fun c => (c.ecode, c.fidpool.has 0, c.fidpool.has 1)) = some (13, true, false) := by
    decide +kernel
  have hmeets : runMeets (npcStep id id) (fun c a => decide (Regular id id c a)) (.start 65536 false
      [.rattach ⟨0x80, 0, 1⟩, .rwalk [⟨0, 0, 2⟩], .rlerror 13]) calls = true := by
    decide +kernel
  obtain ⟨c, hc, hv⟩ := Option.map_eq_some_iff.mp hrun
  obtain ⟨he, hv⟩ := Prod.mk.inj hv
  obtain ⟨h0, h1⟩ := Prod.mk.inj hv
  have h := reaches_of_runSteps (fun _ _ => of_decide_eq_true) hc hmeets
  exact ⟨c, h, he, h0, h1, fids_agree id id h⟩

/-- The replies to a `Tattach`, and to the `Twalk` and the `Txattrwalk` of a `npc_getxattr`
for an attribute that is not there. The two requests after that are `Tclunk`s. -/
def noAttr : List Msg := [.rattach ⟨0x80, 0, 1⟩, .rwalk [⟨0, 0, 2⟩], .rlerror 61, .rclunk, .rclunk]

/-- **`npc_getxattr` loses a number** when the attribute is not there: it clunks a fid that
the server has not made. And `npc_attach`, once it has failed, loses what it makes. -/
theorem fids_diverge :
    (∃ c, Reaches (npcStep id id) (fun _ _ => True) (.start 65536 false noAttr) c ∧
      ∃ n, c.fidpool.has n = true ∧ n ∉ c.peer.live) ∧
    ∃ c, Reaches (npcStep id id) (fun _ _ => True)
        (.start 65536 false [.rlerror 13, .rattach ⟨0x80, 0, 1⟩]) c ∧
      ∃ n, c.fidpool.has n = false ∧ n ∈ c.peer.live := by
  have hattr : (runSteps (npcStep id id) (.start 65536 false noAttr)
      [.attach none [] 0, .getxattr 1 ⟨0, 0, 0⟩ [0x61] [0x62] 0]).map
        (fun c => (c.fidpool.has 2, decide (2 ∈ c.peer.live))) = some (true, false) := by
    decide +kernel
  have hattach : (runSteps (npcStep id id)
      (.start 65536 false [.rlerror 13, .rattach ⟨0x80, 0, 1⟩])
      [.attach none [] 0, .attach none [] 0]).map
        (fun c => (c.fidpool.has 0, decide (0 ∈ c.peer.live))) = some (false, true) := by
    decide +kernel
  obtain ⟨c, hc, hv⟩ := Option.map_eq_some_iff.mp hattr
  obtain ⟨hhas, hlive⟩ := Prod.mk.inj hv
  obtain ⟨c', hc', hv'⟩ := Option.map_eq_some_iff.mp hattach
  obtain ⟨hhas', hlive'⟩ := Prod.mk.inj hv'
  exact ⟨⟨c, reaches_of_forall (fun _ _ _ => trivial) hc, 2, hhas, of_decide_eq_false hlive⟩,
    ⟨c', reaches_of_forall (fun _ _ _ => trivial) hc', 0, hhas', of_decide_eq_true hlive'⟩⟩

end Diod
