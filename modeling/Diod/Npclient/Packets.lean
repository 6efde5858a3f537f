import Diod.Npclient.Walk
import Diod.Lib.Ledger

/-!
# The packets of a walk

`npc_walk` sends one `Twalk` after the other, and has two variables for them: `tc` for the
request and `rc` for the reply. Both packets are freed at the end of each turn, and the two
variables are not cleared. What stands behind the label `error` frees what they point to.

The next turn makes a new request, or sets `tc` to `NULL`. But `npc_rpc` leaves `rc` alone when
it fails, and then `rc` still is **the reply of the turn before, which has been freed**. So
the packets are in order if and only if no `Twalk` but the first fails
(`Diod.Packets.walk_packets_iff`). Whether the walk gets through, how many qids there are, and
what becomes of the `Tclunk` at the end does not matter.

Packets are handles of a `Diod.Ledger`, which is where they are freed and read. What happens
to the requests is given from outside, one outcome for each (`Diod.Outcome`).
-/

namespace Diod

/-- **What may become of a request.** -/
inductive Outcome
  /-- There is no memory to make it. -/
  | nomem
  /-- `fs->trans` is `NULL`, and it is not sent. -/
  | aborted
  /-- It cannot be sent, or the connection fails or ends before there is a reply. -/
  | lost
  /-- The reply is an `Rlerror`, or has another tag. -/
  | error
  /-- The reply, and how many qids are in it. -/
  | reply (nwqid : ℕ)
deriving DecidableEq

/-- There is a reply to the caller. -/
def Outcome.answered : Outcome → Bool
  | .reply _ => true
  | _ => false

/-- The names of the messages of a walk: what the inner loop of `npc_walk` gathers, turn
after turn, until there is no more slash or nothing behind it. -/
def turns : ℕ → Bytes → Bool → List (List Bytes)
  | 0, _, _ => []
  | k + 1, s, t =>
    let (names, s', t') := Npc.gather s.length MAXWELEM s t
    names :: if t' = false ∨ s' = [] then [] else turns k s' t'

/-- The path gets shorter in every turn, so there is an end. -/
theorem turns_succ {k : ℕ} {s : Bytes} {t : Bool} (hk : s.length < k) :
    turns (k + 1) s t = turns k s t := by
  induction k generalizing s t with
  | zero => exact absurd hk (Nat.not_lt_zero _)
  | succ k ih =>
    rw [turns, turns]
    rcases hg : Npc.gather s.length MAXWELEM s t with ⟨names, s', t'⟩
    obtain ⟨-, -, -, hle, hlt⟩ := Npc.gather_spec (Nat.le_refl _) (.inl (by decide)) hg
    by_cases hend : t' = false ∨ s' = []
    · simp only [if_pos hend]
    · obtain ⟨ht, hne⟩ := not_or.mp hend
      have hs : s ≠ [] := by
        rintro rfl
        exact hne (List.eq_nil_of_length_eq_zero (Nat.le_zero.mp hle))
      have hshort : s'.length < k := by
        have := hlt (by decide) (by simpa using ht) hs
        omega
      simp only [if_neg hend, ih hshort]

/-- The packets of a call, and how many `Twalk`s it has come to. -/
structure Packets extends Ledger where
  walks : ℕ := 0
deriving DecidableEq

namespace Packets

/-- The request is sent and there is a reply, `l.next`. Its tag is compared with that of the
request. -/
def receive (tc : ℕ) (l : Ledger) : Ledger := (((l.use tc).acquire).use tc).use l.next

/-- `npc_rpc` with the request `tc`: the number of qids of the reply, if there is one, and
the variable `rc` of the caller. It is set only when there is a reply. -/
def npcRpc (o : Outcome) (tc : ℕ) (rc : Option ℕ) (l : Ledger) : Option ℕ × Option ℕ × Ledger :=
  match o with
  | .nomem | .aborted => (none, rc, l)
  | .lost => (none, rc, l.use tc)
  | .error => (none, rc, (receive tc l).release (some l.next))
  | .reply nwqid => (some nwqid, some l.next, receive tc l)

/-- `npc_clunk` -/
def npcClunk (o : Outcome) (l : Ledger) : Ledger :=
  if o = .nomem then l
  else
    let (_, rc, l') := npcRpc o l.next none l.acquire
    (l'.release (some l.next)).release rc

/-- The label `error` of `npc_walk` -/
def walkError (clunk : Outcome) (tc rc : Option ℕ) (nfid fid : UInt32) (m : Packets) : Packets :=
  let l := (m.toLedger.release rc).release tc
  { m with toLedger := if nfid = fid then npcClunk clunk l else l }

variable (outs : ℕ → Outcome) (clunk : Outcome)

/-- The loop of `npc_walk`, with the names of the turns to come. -/
def walkLoop (fid : UInt32) : List (List Bytes) → UInt32 → Option ℕ → Packets → Packets
  | [], _, _, m => m
  | names :: rest, nfid, rc, m =>
    let o := outs m.walks
    let m := { m with walks := m.walks + 1 }
    if o = .nomem then walkError clunk none rc nfid fid m
    else
      let tc := m.next
      match npcRpc o tc rc m.acquire with
      | (none, rc, l) => walkError clunk (some tc) rc nfid fid { m with toLedger := l }
      | (some nwqid, rc, l) =>
        -- `rc->u.rwalk.nwqid` is read
        let l := rc.elim l l.use
        if nwqid ≠ names.length then
          walkError clunk (some tc) rc fid fid { m with toLedger := l }
        else
          walkLoop fid rest fid rc { m with toLedger := (l.release (some tc)).release rc }

/-- `npc_clone`, with a fid -/
def npcClone (m : Packets) : Packets :=
  let o := outs m.walks
  let m := { m with walks := m.walks + 1 }
  if o = .nomem then m
  else
    let tc := m.next
    match npcRpc o tc none m.acquire with
    | (none, rc, l) => { m with toLedger := (l.release rc).release (some tc) }
    | (some _, rc, l) => { m with toLedger := (l.release (some tc)).release rc }

/-- `npc_walk`. There may be no memory for a copy of the path, or for the new fid; then nothing
is sent. -/
def npcWalk (path : Option Bytes) (dup : Bool) (nfid : UInt32) (fid : Option UInt32) : Packets :=
  match path, fid with
  | none, some _ => npcClone outs {}
  | some path, some fid =>
    if dup then
      let s := (cstr path).dropWhile (· = 47)
      walkLoop outs clunk fid (turns (s.length + 1) s false) nfid none {}
    else {}
  | _, none => {}

/-! ### Requests -/

variable {outs clunk} {o : Outcome} {l : Ledger} {tc : ℕ} {hs : List ℕ} {rc : Option ℕ}

theorem owes_receive (hl : l.Owes (tc :: hs)) : (receive tc l).Owes (l.next :: tc :: hs) := by
  have htc : tc ∈ tc :: hs := List.mem_cons_self
  exact ((hl.use htc).acquire.use (List.mem_cons_of_mem _ htc)).use List.mem_cons_self

theorem grows_npcRpc (o : Outcome) (tc : ℕ) (rc : Option ℕ) (l : Ledger) :
    l.Grows (npcRpc o tc rc l).2.2 := by
  have hreceive : l.Grows (receive tc l) := Ledger.grows_acquire l
  rcases o with _ | _ | _ | _ | n
  · exact .refl l
  · exact .refl l
  · exact l.grows_use tc
  · exact hreceive.trans (Ledger.grows_release (receive tc l) (some l.next))
  · exact hreceive

/-- A request that is not answered: its packet is still there, and nothing else is. -/
theorem npcRpc_of_failed (rc : Option ℕ) (ho : o.answered = false) (hl : l.Owes (tc :: hs)) :
    ∃ l', npcRpc o tc rc l = (none, rc, l') ∧ l'.Owes (tc :: hs) := by
  rcases o with _ | _ | _ | _ | n
  · exact ⟨l, rfl, hl⟩
  · exact ⟨l, rfl, hl⟩
  · exact ⟨_, rfl, hl.use List.mem_cons_self⟩
  · -- the reply is freed by `npc_rpc` itself
    exact ⟨_, rfl, (owes_receive hl).release⟩
  · exact absurd ho (by simp [Outcome.answered])

theorem Outcome.exists_reply (ho : o.answered = true) : ∃ n, o = .reply n := by
  rcases o with _ | _ | _ | _ | n
  iterate 4 exact absurd ho (by decide)
  exact ⟨n, rfl⟩

theorem npcClunk_settled (o : Outcome) (hl : l.Settled) : (npcClunk o l).Settled := by
  rw [npcClunk]
  split
  · exact hl
  · have howes := (Ledger.owes_nil_iff.mpr hl).acquire
    rw [← Ledger.owes_nil_iff]
    rcases ho : o.answered with _ | _
    · obtain ⟨l', hrpc, hl'⟩ := npcRpc_of_failed none ho howes
      rw [hrpc]
      exact hl'.release
    · obtain ⟨n, rfl⟩ := Outcome.exists_reply ho
      exact (owes_receive howes).swap.release.release

theorem grows_npcClunk (o : Outcome) (l : Ledger) : l.Grows (npcClunk o l) := by
  rw [npcClunk]
  split
  · exact .refl l
  · exact ((l.grows_acquire.trans (grows_npcRpc o l.next none _)).trans
      (Ledger.grows_release _ _)).trans (Ledger.grows_release _ _)

/-! ### The label `error` -/

variable {m : Packets} {nfid fid : UInt32}

/-- Both variables are what they should be. -/
theorem walkError_settled {tc rc : Option ℕ} (hl : ((m.release rc).release tc).Settled) :
    (walkError clunk tc rc nfid fid m).Settled := by
  simp only [walkError]
  split
  · exact npcClunk_settled clunk hl
  · exact hl

/-- One of them is a packet that has been freed. -/
theorem walkError_spoilt {tc rc : Option ℕ} (hl : (m.release rc).Spoilt) :
    (walkError clunk tc rc nfid fid m).Spoilt := by
  have hgrow := Ledger.grows_release (m.release rc) tc
  simp only [walkError]
  split
  · exact (hgrow.trans (grows_npcClunk clunk _)).spoilt hl
  · exact hgrow.spoilt hl

/-! ### The loop -/

/-- **The variables between two turns**: all packets have been freed, and after the first
turn `rc` points to one of them. -/
structure Between (rc : Option ℕ) (m : Packets) : Prop where
  settled : m.Settled
  first : rc = none → m.walks = 0
  stale : ∀ h, rc = some h → h < m.next ∧ 0 < m.walks

/-- A turn in which no request could be made, or it failed. -/
theorem turn_of_failed {l : Ledger} {tc : Option ℕ} (hb : Between rc m)
    (hsettled : rc = none → (l.release tc).Settled) (hgrow : m.Grows l) :
    (walkError clunk tc rc nfid fid ⟨l, m.walks + 1⟩).Settled ↔ m.walks = 0 := by
  rcases rc with _ | h
  · exact iff_of_true (walkError_settled (hsettled rfl)) (hb.first rfl)
  · obtain ⟨hlt, hpos⟩ := hb.stale h rfl
    refine iff_of_false (Ledger.Spoilt.not_settled (walkError_spoilt ?_)) (by omega)
    exact hgrow.spoilt_release hb.settled hlt

/-- The packets when the reply has been read, with its handle and that of the request. -/
def answer (m : Packets) : Ledger := (receive m.next m.acquire).use (m.next + 1)

variable {ns : List Bytes} {rest : List (List Bytes)} {n : ℕ}

theorem walkLoop_of_nomem (h : outs m.walks = .nomem) :
    walkLoop outs clunk fid (ns :: rest) nfid rc m =
      walkError clunk none rc nfid fid ⟨m.toLedger, m.walks + 1⟩ := by
  rw [walkLoop, if_pos h]

theorem walkLoop_of_failed {l : Ledger} (hmem : outs m.walks ≠ .nomem)
    (h : npcRpc (outs m.walks) m.next rc m.acquire = (none, rc, l)) :
    walkLoop outs clunk fid (ns :: rest) nfid rc m =
      walkError clunk (some m.next) rc nfid fid ⟨l, m.walks + 1⟩ := by
  rw [walkLoop, if_neg hmem]
  dsimp only
  rw [h]

theorem walkLoop_of_reply (h : outs m.walks = .reply n) :
    walkLoop outs clunk fid (ns :: rest) nfid rc m =
      if n ≠ ns.length then
        walkError clunk (some m.next) (some (m.next + 1)) fid fid ⟨m.answer, m.walks + 1⟩
      else walkLoop outs clunk fid rest fid (some (m.next + 1))
        ⟨(m.answer.release (some m.next)).release (some (m.next + 1)), m.walks + 1⟩ := by
  rw [walkLoop, h]
  rfl

/-- A `Twalk` that is not the first one, and fails. -/
def Fails (outs : ℕ → Outcome) (n : ℕ) : Prop := ∃ i < n, 0 < i ∧ (outs i).answered = false

/-- **The packets of the loop**: they are in order at the end if and only if no later `Twalk`
fails. -/
theorem walkLoop_settled_iff (names : List (List Bytes)) (hb : Between rc m)
    (hok : ∀ i < m.walks, (outs i).answered = true) :
    (walkLoop outs clunk fid names nfid rc m).Settled ↔
      ¬Fails outs (walkLoop outs clunk fid names nfid rc m).walks := by
  induction names generalizing nfid rc m with
  | nil =>
    refine iff_of_true hb.settled ?_
    rintro ⟨i, hi, -, hfail⟩
    rw [hok i hi] at hfail
    exact Bool.noConfusion hfail
  | cons ns rest ih =>
    have howes := (Ledger.owes_nil_iff.mpr hb.settled).acquire
    -- a turn that is the last one: it is in order if it is answered, or the first
    have hlast : ∀ m' : Packets, m'.walks = m.walks + 1 →
        (m'.Settled ↔ (outs m.walks).answered = true ∨ m.walks = 0) →
        (m'.Settled ↔ ¬Fails outs m'.walks) := by
      intro m' hw hiff
      rw [hiff, hw]
      constructor
      · rintro hgood ⟨i, hi, hpos, hfail⟩
        rcases Nat.lt_succ_iff_lt_or_eq.mp hi with hi | rfl
        · rw [hok i hi] at hfail
          exact Bool.noConfusion hfail
        · rcases hgood with hgood | hzero
          · rw [hgood] at hfail
            exact Bool.noConfusion hfail
          · omega
      · intro hno
        rcases Nat.eq_zero_or_pos m.walks with hzero | hpos
        · exact Or.inr hzero
        · refine Or.inl (Bool.not_eq_false _ ▸ fun hfail => hno ?_)
          exact ⟨m.walks, Nat.lt_succ_self _, hpos, hfail⟩
    rcases ho : (outs m.walks).answered with _ | _
    · by_cases hmem : outs m.walks = .nomem
      · rw [walkLoop_of_nomem hmem]
        have hturn : (walkError clunk none rc nfid fid ⟨m.toLedger, m.walks + 1⟩).Settled ↔ _ :=
          turn_of_failed hb (fun _ => hb.settled) (.refl _)
        exact hlast _ rfl (hturn.trans (by simp [ho]))
      · obtain ⟨l, hrpc, hl⟩ := npcRpc_of_failed rc ho howes
        have hgrow : m.Grows l := by
          have := grows_npcRpc (outs m.walks) m.next rc m.acquire
          rw [hrpc] at this
          exact m.grows_acquire.trans this
        rw [walkLoop_of_failed hmem hrpc]
        refine hlast _ rfl ((turn_of_failed hb (fun _ => ?_) hgrow).trans (by simp [ho]))
        exact Ledger.owes_nil_iff.mp hl.release
    · obtain ⟨n, hn⟩ := Outcome.exists_reply ho
      have hread : m.answer.Owes [m.next + 1, m.next] :=
        (owes_receive howes).use List.mem_cons_self
      rw [walkLoop_of_reply hn]
      split
      · have hfree := Ledger.owes_nil_iff.mp hread.release.release
        exact hlast _ rfl (iff_of_true (walkError_settled hfree) (Or.inl ho))
      · have hfree := Ledger.owes_nil_iff.mp hread.swap.release.release
        refine ih ⟨hfree, fun h => absurd h (by simp), ?_⟩ ?_
        · intro h hh
          obtain rfl := Option.some.inj hh
          exact ⟨Nat.lt_succ_self _, Nat.succ_pos _⟩
        · intro i hi
          rcases Nat.lt_succ_iff_lt_or_eq.mp hi with hi | rfl
          · exact hok i hi
          · exact ho

/-! ### The call -/

/-- The packets of `npc_clone` are in order, whatever happens. -/
theorem npcClone_settled (outs : ℕ → Outcome) :
    (npcClone outs {}).Settled ∧ (npcClone outs {}).walks ≤ 1 := by
  have howes := (Ledger.owes_nil_iff.mpr Ledger.settled_empty).acquire
  rcases ho : (outs 0).answered with _ | _
  · by_cases hmem : outs 0 = .nomem
    · rw [npcClone, if_pos hmem]
      exact ⟨Ledger.settled_empty, le_rfl⟩
    · obtain ⟨l, hrpc, hl⟩ := npcRpc_of_failed none ho howes
      have heq : npcClone outs {} = ⟨l.release (some 0), 1⟩ := by
        rw [npcClone, if_neg hmem]
        dsimp only
        rw [show npcRpc _ _ _ _ = _ from hrpc]
        rfl
      rw [heq]
      exact ⟨Ledger.owes_nil_iff.mp hl.release, le_rfl⟩
  · obtain ⟨n, hn⟩ := Outcome.exists_reply ho
    have heq : npcClone outs {} =
        ⟨((receive 0 (Ledger.acquire {})).release (some 0)).release (some 1), 1⟩ := by
      rw [npcClone, hn]
      rfl
    rw [heq]
    exact ⟨Ledger.owes_nil_iff.mp (owes_receive howes).swap.release.release, le_rfl⟩

theorem not_fails_iff : ¬Fails outs n ↔ ∀ i, 0 < i → i < n → (outs i).answered = true := by
  simp only [Fails, not_exists, not_and, Bool.not_eq_false]
  exact ⟨fun h i hpos hi => h i hi hpos, fun h i hi hpos => h i hpos hi⟩

/-- **The packets of `npc_walk` are in order if and only if no `Twalk` but the first fails**:
each is freed exactly once, and none is read after that. This is so for every path, every
outcome of each request, and every outcome of the `Tclunk` at the end. -/
theorem walk_packets_iff (outs : ℕ → Outcome) (clunk : Outcome) (path : Option Bytes) (dup : Bool)
    (nfid : UInt32) (fid : Option UInt32) :
    (npcWalk outs clunk path dup nfid fid).Settled ↔
      ∀ i, 0 < i → i < (npcWalk outs clunk path dup nfid fid).walks →
        (outs i).answered = true := by
  have hempty : (({} : Packets).Settled ↔
      ∀ i, 0 < i → i < ({} : Packets).walks → (outs i).answered = true) :=
    iff_of_true Ledger.settled_empty fun i _ hi => absurd hi (Nat.not_lt_zero _)
  rcases path with _ | path <;> rcases fid with _ | fid
  · exact hempty
  · obtain ⟨hsettled, hle⟩ := npcClone_settled outs
    refine iff_of_true hsettled fun i hpos hi => ?_
    exact absurd (lt_of_lt_of_le hi hle) (by omega)
  · exact hempty
  · rw [npcWalk]
    split
    · rw [← not_fails_iff]
      refine walkLoop_settled_iff _ ⟨Ledger.settled_empty, fun _ => rfl, fun h hh => ?_⟩ ?_
      · exact absurd hh (by simp)
      · exact fun i hi => absurd hi (Nat.not_lt_zero _)
    · exact hempty

/-- **A reply is freed twice**: there are seventeen names, the first message is answered, and the
second is not. -/
theorem reply_freed_twice :
    ¬(npcWalk (fun i => if i = 0 then .reply 16 else .error) (.reply 0) (some deepPath) true 0
        (some 1)).Settled ∧
      (npcWalk (fun i => if i = 0 then .reply 16 else .error) (.reply 0) (some deepPath) true 0
        (some 1)).released.count 1 = 2 := by
  have hcount : (npcWalk (fun i => if i = 0 then .reply 16 else .error) (.reply 0) (some deepPath)
      true 0 (some 1)).released.count 1 = 2 := by decide +kernel
  exact ⟨Ledger.Spoilt.not_settled ⟨1, hcount.ge⟩, hcount⟩

end Packets

end Diod
