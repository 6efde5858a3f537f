import Diod.Transport.Fdtrans
import Diod.Wire.Extent

/-!
# What a transport hands to the decoder

`np_trans_recv` takes a packet from its transport and decodes it. `np_deserialize` believes
the size field of the packet; that this many bytes were received is left to the transport.

`np_fdtrans_recv` sees to it: it reads on until it has as many bytes as the size field says.
**`rdma_trans_recv` does not look at the size field.** It hands over what is left of the
message it has received, at most `msize` bytes of it, and the buffer behind that holds what
was in the memory before. Whether more is parsed than was received is then up to the client
(`Diod.decodes_received_iff`).

The completions that the network delivers are the input of the model, with the errors they
can come with.
-/

namespace Diod

/-! ### The RDMA transport -/

/-- A `Rdmactx` that is waiting to be read: the `len` bytes that were received, of which `pos`
have been handed over. -/
structure Rdmactx where
  buf : Bytes
  pos : ℕ
  le : pos ≤ buf.length

/-- A work completion: a message that was received, one that was sent, something else, or one
whose status is not `IBV_WC_SUCCESS`. -/
inductive Wc where
  | recv (buf : Bytes)
  | send
  | other
  | failed

/-- One turn behind the label `poll`: what `ibv_get_cq_event` returns, the completions that
`ibv_poll_cq` finds, and what it returns when it finds no more. -/
structure CqTurn where
  event : ℕ
  wcs : List Wc
  ret : ℤ

/-- One call: the current `msize`, whether the allocation succeeds, and the turns. -/
structure RdmaCall where
  msize : ℕ
  alloc : Bool
  turns : List CqTurn

/-- The `while` loop over the completions, up to the first message: whether the connection is
closing, and the message. -/
def pollCq : Bool → List Wc → Bool × Option Bytes
  | closing, [] => (closing, none)
  | closing, .recv buf :: _ => (closing, some buf)
  | _, .failed :: wcs => pollCq true wcs
  | closing, _ :: wcs => pollCq closing wcs

/-- Below the label `again`, with a message to read: the first `n` bytes that are left of it
go into the packet. -/
def rdmaTake (msize : ℕ) (ctx : Rdmactx) (rest : List Rdmactx) : Recvd × List Rdmactx :=
  let n := min (ctx.buf.length - ctx.pos) msize
  (.msg ⟨msize, (ctx.buf.drop ctx.pos).take n⟩ n,
    if ctx.pos + n = ctx.buf.length then rest
    else ⟨ctx.buf, ctx.pos + n, by have := ctx.le; omega⟩ :: rest)

/-- Below the label `poll`. -/
def rdmaPoll (msize : ℕ) : List CqTurn → Recvd × List Rdmactx
  | [] => (.blocked, [])
  | t :: turns =>
    if t.event ≠ 0 then (.error t.event, [])
    else
      match pollCq false t.wcs with
      | (_, some buf) => rdmaTake msize ⟨buf, 0, Nat.zero_le _⟩ []
      | (closing, none) =>
        if t.ret = 0 ∧ !closing then rdmaPoll msize turns else (.error t.ret.toNat, [])

/-- `rdma_trans_recv`, and the messages from `rfirst` to `rlast` that it leaves. -/
def rdmaTransRecv (c : RdmaCall) (ctxs : List Rdmactx) : Recvd × List Rdmactx :=
  if c.alloc then
    match ctxs with
    | ctx :: rest => rdmaTake c.msize ctx rest
    | [] => rdmaPoll c.msize c.turns
  else (.error ENOMEM, ctxs)

/-! ### Receiving -/

/-- What `np_trans_recv` comes back with. A packet that was decoded stands with the bytes that
were received for it, and the buffer that the decoder left. -/
inductive Delivery where
  | fcall (valid : Bytes) (fc : Npfcall) (b : Cbuf)
  | eof
  | error (errno : ℕ)
  | blocked

/-- `np_trans_recv`. Behind the bytes that are in use, the packet holds what was in its memory
before. -/
def npTransRecv (stale : Bytes) : Recvd → Delivery
  | .msg pkt size =>
    (deserialize (pkt.pkt ++ stale)).elim (.error EPROTO) fun p =>
      .fcall (pkt.pkt.take size) p.1 p.2
  | .eof => .eof
  | .error errno => .error errno
  | .blocked => .blocked

variable {stale valid input : Bytes} {pkt : Inbuf} {fc : Npfcall} {b : Cbuf} {msize size n : ℕ}
  {c : RecvCall} {t : Fdtrans}

theorem npTransRecv_of_some (h : deserialize (pkt.pkt ++ stale) = some (fc, b)) (size : ℕ) :
    npTransRecv stale (.msg pkt size) = .fcall (pkt.pkt.take size) fc b := by
  simp only [npTransRecv, h, Option.elim_some]

theorem npTransRecv_eq_fcall {r : Recvd}
    (h : npTransRecv stale r = .fcall valid fc b) : ∃ pkt size, r = .msg pkt size ∧
      valid = pkt.pkt.take size ∧ deserialize (pkt.pkt ++ stale) = some (fc, b) := by
  cases r with
  | msg pkt size =>
    simp only [npTransRecv] at h
    rcases hd : deserialize (pkt.pkt ++ stale) with _ | ⟨fc', b'⟩
    · rw [hd] at h
      cases h
    · rw [hd] at h
      cases h
      exact ⟨pkt, size, rfl, rfl, hd⟩
  | eof => cases h
  | error errno => cases h
  | blocked => cases h

/-- **Only what was received is decoded**: parsing ends with it, and whatever else the memory
holds, the message is the same. -/
structure OnlyReceived (valid : Bytes) (fc : Npfcall) (b : Cbuf) : Prop where
  parse : b.ep ≤ valid.length
  same : ∀ stale, ∃ fc' b', deserialize (valid ++ stale) = some (fc', b') ∧
    fc'.size = fc.size ∧ fc'.type = fc.type ∧ fc'.tag = fc.tag ∧ fc'.u = fc.u

/-- **The condition on what was received**: the size field is there, and as many bytes as it
says. -/
def SizeReceived (valid : Bytes) : Prop :=
  4 ≤ valid.length ∧ leNat (valid.take 4) ≤ valid.length

instance : DecidablePred SizeReceived := fun _ => inferInstanceAs (Decidable (_ ∧ _))

/-- The end of what is parsed, if that is more than a header, is where the size field says. -/
theorem parseEnd_eq {mem : Bytes} (h : 7 ≤ parseEnd mem) : parseEnd mem = leNat (mem.take 4) := by
  have hlt : leNat (mem.take 4) < 4294967296 := by
    refine lt_of_lt_of_le (leNat_lt _) ?_
    exact Nat.pow_le_pow_right (by decide) (List.length_take_le 4 mem)
  have hsize : (sizeField mem).toNat = leNat (mem.take 4) := UInt32.toNat_ofNat_of_lt' hlt
  have h4 : (4 : UInt32).toNat = 4 := rfl
  have hsub := UInt32.toNat_sub (sizeField mem) 4
  rw [hsize, h4] at hsub
  generalize leNat (mem.take 4) = s at hlt hsub ⊢
  simp only [parseEnd, asInt] at h ⊢
  split at h
  · omega
  · omega

/-- **A packet that was decoded is one that was received exactly if it has the bytes that its
size field says.** -/
theorem onlyReceived_iff {pkt : Bytes}
    (hpre : valid <+: pkt) (h : deserialize (pkt ++ stale) = some (fc, b)) :
    OnlyReceived valid fc b ↔ SizeReceived valid := by
  obtain ⟨hep, h7⟩ := deserialize_ep h
  have hend := parseEnd_eq (hep ▸ h7)
  obtain ⟨t, rfl⟩ := hpre
  rw [List.append_assoc] at h hep hend
  have htake : 4 ≤ valid.length → (valid ++ (t ++ stale)).take 4 = valid.take 4 :=
    List.take_append_of_le_length
  constructor
  · intro ho
    have hle := ho.parse
    refine ⟨by omega, ?_⟩
    rw [← htake (by omega)]
    omega
  · rintro ⟨h4, hle⟩
    rw [htake h4] at hend
    refine ⟨by omega, fun stale' => deserialize_alike (n := valid.length) ?_ ?_ h⟩
    · rw [List.take_left, List.take_left]
    · rw [hend]
      exact Int.ofNat_le.mpr hle

/-! ### The stream transport -/

theorem npPeekSize_append {buf : Bytes} (h : 4 ≤ buf.length) (r : Bytes) :
    npPeekSize (buf ++ r) = npPeekSize buf := by
  rw [npPeekSize, npPeekSize, if_pos h, if_pos (by rw [List.length_append]; omega),
    List.take_append_of_le_length h]

/-- The size that a turn of the loop knows is that of the packet. -/
theorem recvTurn_size {input' : Bytes} {fc fc' : Inbuf} {size' : ℕ}
    {r : ReadResult} {as : List Access} (hs : size = 0 ∨ size = npPeekSize fc.pkt)
    (h : recvTurn msize input fc size r = (as, input', .again fc' size')) :
    size' = 0 ∨ size' = npPeekSize fc'.pkt := by
  cases r with
  | eintr =>
    cases h
    exact hs
  | error errno => cases h
  | data n =>
    obtain ⟨got, hgot⟩ : ∃ got, got = input.take (min (n + 1) (readLen msize fc.pkt.length)) :=
      ⟨_, rfl⟩
    simp only [recvTurn, ← hgot] at h
    by_cases hnil : got = []
    · rw [if_pos hnil] at h
      cases h
    · rw [if_neg hnil, Prod.mk.injEq, Prod.mk.injEq] at h
      obtain ⟨-, -, h⟩ := h
      by_cases hp : size = 0 ∧ (if size = 0 then npPeekSize (fc.pkt ++ got) else size) > msize
      · rw [if_pos hp] at h
        cases h
      · rw [if_neg hp] at h
        cases h
        by_cases h0 : size = 0
        · exact .inr (if_pos h0)
        · rw [if_neg h0]
          -- the size is known, so it has been read
          obtain rfl := hs.resolve_left h0
          refine .inr (npPeekSize_append ?_ got).symm
          by_contra hlt
          exact h0 (if_neg hlt)

/-- The loop ends when it has as many bytes as the size says. -/
theorem recvLoop_done_size {reads : List ReadResult} {fc : Inbuf}
    (hs : size = 0 ∨ size = npPeekSize fc.pkt) (hd : ¬(size = 0 ∨ fc.pkt.length < size))
    (h : (recvLoop msize reads input fc size).out = .msg pkt n) :
    n ≠ 0 ∧ n = npPeekSize pkt.pkt ∧ n ≤ pkt.pkt.length := by
  rw [recvLoop_done reads input hd] at h
  cases h
  obtain ⟨h0, hle⟩ := not_or.mp hd
  exact ⟨h0, hs.resolve_left h0, not_lt.mp hle⟩

/-- **The loop ends with the packet that its size field says.** -/
theorem recvLoop_size (reads : List ReadResult) {fc : Inbuf}
    (hs : size = 0 ∨ size = npPeekSize fc.pkt)
    (h : (recvLoop msize reads input fc size).out = .msg pkt n) :
    n ≠ 0 ∧ n = npPeekSize pkt.pkt ∧ n ≤ pkt.pkt.length := by
  induction reads generalizing input fc size with
  | nil =>
    by_cases hd : size = 0 ∨ fc.pkt.length < size
    · rw [recvLoop, if_pos hd] at h
      cases h
    · exact recvLoop_done_size hs hd h
  | cons r reads ih =>
    by_cases hd : size = 0 ∨ fc.pkt.length < size
    · rw [recvLoop, if_pos hd] at h
      rcases hturn : recvTurn msize input fc size r with ⟨as, input', ⟨fc', size'⟩ | _ | _⟩
      · rw [hturn] at h
        exact ih (recvTurn_size hs hturn) h
      · rw [hturn] at h
        cases h
      · rw [hturn] at h
        cases h
    · exact recvLoop_done_size hs hd h

/-- The message that a call returns is the one of its loop. -/
theorem recvRest_eq_msg {r : Recv}
    (h : (recvRest c r).1.out = .msg pkt n) : r.out = .msg pkt n := by
  unfold recvRest at h
  split at h
  · split at h
    · split at h
      · exact h
      · cases h
    · exact h
  · exact h

/-- **`np_fdtrans_recv` returns a packet with the bytes that its size field says.** -/
theorem npFdtransRecv_size (h : (npFdtransRecv c t).1.out = .msg pkt n) :
    n ≠ 0 ∧ n = npPeekSize pkt.pkt ∧ n ≤ pkt.pkt.length := by
  obtain ⟨fc, input⟩ := t
  rcases fc with _ | fc
  · simp only [npFdtransRecv] at h
    by_cases ha : c.alloc = true
    · rw [if_pos ha] at h
      exact recvLoop_size c.reads (.inl rfl) (recvRest_eq_msg h)
    · rw [if_neg ha] at h
      cases h
  · simp only [npFdtransRecv] at h
    by_cases hbig : npPeekSize fc.pkt > c.msize
    · rw [if_pos hbig] at h
      cases h
    · rw [if_neg hbig] at h
      exact recvLoop_size c.reads (.inr rfl) (recvRest_eq_msg h)

/-- What the stream transport returns, and is decoded, has been received. -/
theorem sizeReceived_npFdtransRecv (h : (npFdtransRecv c t).1.out = .msg pkt n)
    (hd : deserialize (pkt.pkt ++ stale) = some (fc, b)) : SizeReceived (pkt.pkt.take n) := by
  obtain ⟨h0, hn, hle⟩ := npFdtransRecv_size h
  have hlen : 4 ≤ pkt.pkt.length := by
    by_contra hlt
    exact h0 (hn.trans (if_neg hlt))
  have hpeek : n = leNat (pkt.pkt.take 4) := by
    rw [hn, npPeekSize, if_pos hlen, orBytes_eq_leNat]
  obtain ⟨hep, h7⟩ := deserialize_ep hd
  have hend := parseEnd_eq (hep ▸ h7)
  rw [List.take_append_of_le_length hlen, ← hpeek] at hend
  have h4 : 4 ≤ n := by omega
  refine ⟨?_, ?_⟩
  · rw [List.length_take]
    omega
  · rw [List.take_take, List.length_take, Nat.min_eq_left h4, ← hpeek, Nat.min_eq_left hle]

/-! ### Both transports -/

/-- The message that polling finds. -/
def polledMsg : List CqTurn → Option Bytes
  | [] => none
  | t :: turns =>
    if t.event ≠ 0 then none
    else
      match pollCq false t.wcs with
      | (_, some buf) => some buf
      | (closing, none) => if t.ret = 0 ∧ !closing then polledMsg turns else none

/-- **The message that a call reads from**: the first that is waiting, or the next to come. -/
def rdmaFront (c : RdmaCall) : List Rdmactx → Option Rdmactx
  | ctx :: _ => some ctx
  | [] => (polledMsg c.turns).map fun buf => ⟨buf, 0, Nat.zero_le _⟩

/-- What a call hands over of a message: what is left of it, up to `msize`. -/
def Rdmactx.handed (msize : ℕ) (ctx : Rdmactx) : Bytes := (ctx.buf.drop ctx.pos).take msize

theorem rdmaTake_eq {ctx : Rdmactx} {rest : List Rdmactx}
    (h : (rdmaTake msize ctx rest).1 = .msg pkt n) : pkt.pkt.take n = ctx.handed msize := by
  cases h
  rw [List.take_take, Nat.min_self, Nat.min_comm, ← List.length_drop, Rdmactx.handed,
    ← List.take_take, List.take_length]

theorem rdmaPoll_eq {turns : List CqTurn}
    (h : (rdmaPoll msize turns).1 = .msg pkt n) : ∃ buf, polledMsg turns = some buf ∧
      pkt.pkt.take n = Rdmactx.handed msize ⟨buf, 0, Nat.zero_le _⟩ := by
  induction turns with
  | nil => cases h
  | cons t turns ih =>
    by_cases hev : t.event ≠ 0
    · rw [rdmaPoll, if_pos hev] at h
      cases h
    · rw [rdmaPoll, if_neg hev] at h
      rw [polledMsg, if_neg hev]
      rcases hpoll : pollCq false t.wcs with ⟨closing, _ | buf⟩ <;> rw [hpoll] at h
      · by_cases hc : t.ret = 0 ∧ (!closing) = true
        · simp only [if_pos hc] at h ⊢
          exact ih h
        · simp only [if_neg hc] at h
          cases h
      · exact ⟨buf, rfl, rdmaTake_eq h⟩

/-- **`rdma_trans_recv` hands over what is left of one message**, whatever its size field
says. -/
theorem rdmaTransRecv_eq {c : RdmaCall} {ctxs : List Rdmactx}
    (h : (rdmaTransRecv c ctxs).1 = .msg pkt n) :
    ∃ ctx, rdmaFront c ctxs = some ctx ∧ pkt.pkt.take n = ctx.handed c.msize := by
  by_cases ha : c.alloc = true
  · rcases ctxs with _ | ⟨ctx, rest⟩
    · simp only [rdmaTransRecv, if_pos ha] at h
      obtain ⟨buf, hbuf, heq⟩ := rdmaPoll_eq h
      exact ⟨⟨buf, 0, Nat.zero_le _⟩, by rw [rdmaFront, hbuf]; rfl, heq⟩
    · simp only [rdmaTransRecv, if_pos ha] at h
      exact ⟨ctx, rfl, rdmaTake_eq h⟩
  · simp only [rdmaTransRecv, if_neg ha] at h
    cases h

/-- **What is decoded has been received** over the stream transport, whatever the kernel and
the client do. Over the RDMA transport it has exactly if what is handed over of the client's
message has the bytes that its size field says. -/
theorem decodes_received_iff (stale valid : Bytes) (fc : Npfcall) (b : Cbuf) :
    (∀ (c : RecvCall) (t : Fdtrans),
      npTransRecv stale (npFdtransRecv c t).1.out = .fcall valid fc b → OnlyReceived valid fc b) ∧
    ∀ (c : RdmaCall) (ctxs : List Rdmactx),
      npTransRecv stale (rdmaTransRecv c ctxs).1 = .fcall valid fc b →
        ∃ ctx, rdmaFront c ctxs = some ctx ∧
          (OnlyReceived valid fc b ↔ SizeReceived (ctx.handed c.msize)) := by
  constructor
  · intro c t h
    obtain ⟨pkt, n, hr, rfl, hd⟩ := npTransRecv_eq_fcall h
    exact (onlyReceived_iff (List.take_prefix n _) hd).mpr (sizeReceived_npFdtransRecv hr hd)
  · intro c ctxs h
    obtain ⟨pkt, n, hr, rfl, hd⟩ := npTransRecv_eq_fcall h
    obtain ⟨ctx, hctx, heq⟩ := rdmaTransRecv_eq hr
    refine ⟨ctx, hctx, ?_⟩
    rw [← heq]
    exact onlyReceived_iff (List.take_prefix n _) hd

/-- A message of the client arrives, behind one that was sent. -/
def rdmaArrives (buf : Bytes) : RdmaCall := ⟨8192, true, [⟨0, [.send, .recv buf], 0⟩]⟩

/-- A `Tclunk` of 11 bytes, as a whole. -/
theorem decodes_received_tclunk : ∃ fc b,
    npTransRecv [] (rdmaTransRecv (rdmaArrives (twoTclunks.take 11)) []).1 =
      .fcall (twoTclunks.take 11) fc b ∧ OnlyReceived (twoTclunks.take 11) fc b := by
  obtain ⟨⟨fc, b⟩, hd⟩ := Option.isSome_iff_exists.mp
    (show (deserialize (twoTclunks.take 11 ++ [])).isSome by decide)
  have hrun : npTransRecv [] (rdmaTransRecv (rdmaArrives (twoTclunks.take 11)) []).1 =
      .fcall (twoTclunks.take 11) fc b :=
    @npTransRecv_of_some _ ⟨8192, twoTclunks.take 11⟩ _ _ hd 11
  refine ⟨fc, b, hrun, ?_⟩
  obtain ⟨ctx, hctx, hiff⟩ := (decodes_received_iff [] _ fc b).2 _ _ hrun
  obtain rfl := Option.some.inj hctx
  exact hiff.mpr (by decide)

/-- The message that was delivered. -/
def Delivery.u : Delivery → Option (Fcall Npstr (Option ℤ))
  | .fcall _ fc _ => some fc.u
  | _ => none

/-- **A fid that nobody sent.** Of a `Tclunk` the client sends the first 7 bytes, which is
all that is handed over, and the fid is taken from what the memory held before. -/
theorem rdma_decodes_stale :
    (npTransRecv [1, 0, 0, 0] (rdmaTransRecv (rdmaArrives (twoTclunks.take 7)) []).1).u =
      some (.tclunk 1) ∧
    (npTransRecv [2, 0, 0, 0] (rdmaTransRecv (rdmaArrives (twoTclunks.take 7)) []).1).u =
      some (.tclunk 2) ∧
    ∃ fc b, npTransRecv [1, 0, 0, 0] (rdmaTransRecv (rdmaArrives (twoTclunks.take 7)) []).1 =
      .fcall (twoTclunks.take 7) fc b ∧ ¬OnlyReceived (twoTclunks.take 7) fc b := by
  refine ⟨rfl, rfl, ?_⟩
  obtain ⟨⟨fc, b⟩, hd⟩ := Option.isSome_iff_exists.mp
    (show (deserialize (twoTclunks.take 7 ++ [1, 0, 0, 0])).isSome by decide)
  refine ⟨fc, b, @npTransRecv_of_some _ ⟨8192, twoTclunks.take 7⟩ _ _ hd 7, ?_⟩
  rw [onlyReceived_iff List.prefix_rfl hd]
  decide

end Diod
