import Diod.Host.Calls

/-!
# Receiving packets from a file descriptor

`np_fdtrans_recv` cuts a stream of bytes into packets. It reads as much as fits
into a buffer of `msize` bytes, and when it finds more than one packet there, it
copies the rest into a second buffer and starts from that one at the next call.

Between two calls `np_version` may have lowered `msize`. The comment in the source
argues that the cached buffer is then larger than it has to be, and it is; but what
is *in* it was read under the old `msize`, and both the next copy and the length of
the next read are computed from the new one.

The model follows the buffers as far as their size goes: the `msize` a buffer was
allocated with, and the bytes that are in use. Every call of `read` and every store
into a buffer is recorded (`Diod.Access`), and it is *safe* when it stays inside the
buffer and its length does not underflow. What the kernel answers to `read`, and
`malloc` to an allocation, is part of the input.
-/

namespace Diod

/-! ### Buffers and accesses -/

/-- `np_peek_size`: the size of the packet at the front, 0 if it is not there yet. -/
def npPeekSize (buf : Bytes) : ℕ := if 4 ≤ buf.length then orBytes (buf.take 4) else 0

/-- A packet buffer: the `msize` that `np_alloc_fcall` was given, and the bytes in
use. -/
structure Inbuf where
  alloc : ℕ
  pkt : Bytes

/-- What the receiver does to its buffers. -/
inductive Access where
  /-- `read (fdin, fc->pkt + len, msize - len)` -/
  | read (msize len : ℕ)
  /-- `n` bytes stored at an offset into a buffer -/
  | store (alloc off n : ℕ)
deriving DecidableEq

/-- **An access that stays inside**: a length that does not underflow, bytes that fit
into the buffer. -/
def Access.Safe : Access → Prop
  | .read msize len => len ≤ msize
  | .store alloc off n => off + n ≤ alloc

instance : DecidablePred Access.Safe
  | .read msize len => inferInstanceAs (Decidable (len ≤ msize))
  | .store alloc off n => inferInstanceAs (Decidable (off + n ≤ alloc))

/-! ### One call -/

/-- What the kernel answers to a `read`. -/
inductive ReadResult where
  /-- At most `n + 1` bytes, of those asked for that are there. -/
  | data (n : ℕ)
  | eintr
  | error (errno : ℕ)

/-- How a call ends. A call whose last `read` is not answered is blocked in it. -/
inductive Recvd where
  | msg (fc : Inbuf) (size : ℕ)
  | eof
  | error (errno : ℕ)
  | blocked

/-- The length `msize - len` of a read, a `u32`. -/
def readLen (msize len : ℕ) : ℕ := (msize + 4294967296 - len) % 4294967296

/-- What a call did, what it left of the stream, and how it ended. -/
structure Recv where
  accesses : List Access
  input : Bytes
  out : Recvd

/-- How a turn of the loop ends: with the loop going on, or with the call's end. -/
inductive Turn where
  | again (fc : Inbuf) (size : ℕ)
  | eof
  | error (errno : ℕ)

/-- A turn of the loop of `np_fdtrans_recv`, given the answer to its `read`. -/
def recvTurn (msize : ℕ) (input : Bytes) (fc : Inbuf) (size : ℕ) :
    ReadResult → List Access × Bytes × Turn
  | .eintr => ([.read msize fc.pkt.length], input, .again fc size)
  | .error errno => ([.read msize fc.pkt.length], input, .error errno)
  | .data n =>
    let len := fc.pkt.length
    let got := input.take (min (n + 1) (readLen msize len))
    if got = [] then ([.read msize len], input, .eof)
    else
      let fc' : Inbuf := ⟨fc.alloc, fc.pkt ++ got⟩
      let size' := if size = 0 then npPeekSize fc'.pkt else size
      ([.read msize len, .store fc.alloc len got.length], input.drop got.length,
        if size = 0 ∧ size' > msize then .error EPROTO else .again fc' size')

/-- The loop of `np_fdtrans_recv`: it goes on while the size of the packet is not
known or the packet is not complete. -/
def recvLoop (msize : ℕ) : List ReadResult → Bytes → Inbuf → ℕ → Recv
  | [], input, fc, size =>
    if size = 0 ∨ fc.pkt.length < size then ⟨[.read msize fc.pkt.length], input, .blocked⟩
    else ⟨[], input, .msg fc size⟩
  | r :: reads, input, fc, size =>
    if size = 0 ∨ fc.pkt.length < size then
      match recvTurn msize input fc size r with
      | (as, input, .again fc size) =>
        let r := recvLoop msize reads input fc size
        { r with accesses := as ++ r.accesses }
      | (as, input, .eof) => ⟨as, input, .eof⟩
      | (as, input, .error errno) => ⟨as, input, .error errno⟩
    else ⟨[], input, .msg fc size⟩

/-- One call: the current `msize`, whether the two allocations succeed, and what the
kernel answers. -/
structure RecvCall where
  msize : ℕ
  alloc : Bool
  allocRest : Bool
  reads : List ReadResult

/-- The receiver between two calls: the cached buffer, and the bytes to come. -/
structure Fdtrans where
  fc : Option Inbuf
  input : Bytes

/-- `np_fdtrans_recv`, behind its loop: what follows the packet goes into a new
buffer. -/
def recvRest (c : RecvCall) (r : Recv) : Recv × Fdtrans :=
  match r.out with
  | .msg fc size =>
    if fc.pkt.length > size then
      if c.allocRest then
        let rest := fc.pkt.drop size
        ({ r with accesses := r.accesses ++ [.store c.msize 0 rest.length] },
          ⟨some ⟨c.msize, rest⟩, r.input⟩)
      else ({ r with out := .error ENOMEM }, ⟨none, r.input⟩)
    else (r, ⟨none, r.input⟩)
  | _ => (r, ⟨none, r.input⟩)

/-- `np_fdtrans_recv` -/
def npFdtransRecv (c : RecvCall) (t : Fdtrans) : Recv × Fdtrans :=
  match t.fc with
  | some fc =>
    let size := npPeekSize fc.pkt
    if size > c.msize then (⟨[], t.input, .error EPROTO⟩, ⟨none, t.input⟩)
    else recvRest c (recvLoop c.msize c.reads t.input fc size)
  | none =>
    if c.alloc then recvRest c (recvLoop c.msize c.reads t.input ⟨c.msize, []⟩ 0)
    else (⟨[], t.input, .error ENOMEM⟩, ⟨none, t.input⟩)

/-! ### A connection -/

/-- **The calls of a connection**, each with the state it starts in. A call that is
blocked is the last. -/
def recvRun : List RecvCall → Fdtrans → List (RecvCall × Fdtrans)
  | [], _ => []
  | c :: cs, t =>
    let (r, t') := npFdtransRecv c t
    (c, t) :: match r.out with
      | .blocked => []
      | _ => recvRun cs t'

/-! ### The loop -/

/-- The loop has stayed inside its buffer, and leaves at most `msize` bytes in it. -/
structure LoopSafe (msize : ℕ) (r : Recv) : Prop where
  safe : ∀ a ∈ r.accesses, a.Safe
  fits : ∀ fc size, r.out = .msg fc size → fc.pkt.length ≤ msize

variable {msize size : ℕ} {r : Recv} {as : List Access} {fc : Inbuf} {c : RecvCall} {t : Fdtrans}

theorem LoopSafe.more (h : LoopSafe msize r)
    (has : ∀ a ∈ as, a.Safe) : LoopSafe msize { r with accesses := as ++ r.accesses } where
  safe := by
    simp only [List.mem_append]
    rintro a (ha | ha)
    exacts [has a ha, h.safe a ha]
  fits := h.fits

theorem loopSafe_of_out {input : Bytes} {o : Recvd}
    (has : ∀ a ∈ as, a.Safe) (ho : ∀ fc size, o ≠ .msg fc size) : LoopSafe msize ⟨as, input, o⟩ :=
  ⟨has, fun fc size h => absurd h (ho fc size)⟩

theorem readLen_eq {len : ℕ} (hm : msize < 2147483648) (hl : len ≤ msize) :
    readLen msize len = msize - len := by
  rw [readLen]
  omega

/-- **A turn that starts with at most `msize` bytes is safe**, and leaves at most
`msize` bytes in the same buffer. -/
theorem recvTurn_safe (hm : msize < 2147483648) (input : Bytes)
    (size : ℕ) (ha : msize ≤ fc.alloc) (hl : fc.pkt.length ≤ msize) (r : ReadResult) :
    (∀ a ∈ (recvTurn msize input fc size r).1, a.Safe) ∧
      ∀ fc' size', (recvTurn msize input fc size r).2.2 = .again fc' size' →
        fc'.alloc = fc.alloc ∧ fc'.pkt.length ≤ msize := by
  have hread : ∀ a ∈ [Access.read msize fc.pkt.length], a.Safe := by simpa [Access.Safe] using hl
  cases r with
  | eintr => exact ⟨hread, by rintro _ _ ⟨⟩; exact ⟨rfl, hl⟩⟩
  | error errno => exact ⟨hread, by rintro _ _ ⟨⟩⟩
  | data n =>
    obtain ⟨got, hgot⟩ : ∃ got, got = input.take (min (n + 1) (readLen msize fc.pkt.length)) :=
      ⟨_, rfl⟩
    -- the bytes read fit behind those that are there
    have hlen : fc.pkt.length + got.length ≤ msize := by
      rw [hgot, readLen_eq hm hl, List.length_take]
      omega
    simp only [recvTurn, ← hgot]
    split
    · exact ⟨hread, by rintro _ _ ⟨⟩⟩
    · refine ⟨?_, fun fc' size' h => ?_⟩
      · simp only [List.mem_cons, List.not_mem_nil, or_false]
        rintro a (rfl | rfl)
        exacts [hl, hlen.trans ha]
      · by_cases hp : size = 0 ∧ (if size = 0 then npPeekSize (fc.pkt ++ got) else size) > msize
        · rw [if_pos hp] at h
          cases h
        · rw [if_neg hp] at h
          cases h
          exact ⟨rfl, by simpa using hlen⟩

/-- **A loop that starts with at most `msize` bytes is safe.** The buffer may be larger
than `msize`. -/
theorem recvLoop_safe (hm : msize < 2147483648) (reads : List ReadResult)
    (input : Bytes) (size : ℕ) (ha : msize ≤ fc.alloc)
    (hl : fc.pkt.length ≤ msize) : LoopSafe msize (recvLoop msize reads input fc size) := by
  induction reads generalizing input fc size with
  | nil =>
    rw [recvLoop]
    split
    · exact loopSafe_of_out (by simpa [Access.Safe] using hl) (by simp)
    · exact ⟨by simp, by rintro _ _ ⟨⟩; exact hl⟩
  | cons r reads ih =>
    obtain ⟨hsafe, hagain⟩ := recvTurn_safe hm input size ha hl r
    rw [recvLoop]
    split
    · split
      · rename_i as input' fc' size' heq
        rw [heq] at hsafe hagain
        obtain ⟨halloc, hl'⟩ := hagain fc' size' rfl
        exact (ih input' size' (halloc ▸ ha) hl').more hsafe
      · rename_i heq
        rw [heq] at hsafe
        exact loopSafe_of_out hsafe (by simp)
      · rename_i heq
        rw [heq] at hsafe
        exact loopSafe_of_out hsafe (by simp)
    · exact ⟨by simp, by rintro _ _ ⟨⟩; exact hl⟩

/-- The loop does nothing when the packet is complete. -/
theorem recvLoop_done (reads : List ReadResult) (input : Bytes)
    (h : ¬(size = 0 ∨ fc.pkt.length < size)) :
    recvLoop msize reads input fc size = ⟨[], input, .msg fc size⟩ := by
  cases reads <;> rw [recvLoop, if_neg h]

/-- Otherwise it reads. -/
theorem recvLoop_reads (reads : List ReadResult) (input : Bytes)
    (h : size = 0 ∨ fc.pkt.length < size) :
    .read msize fc.pkt.length ∈ (recvLoop msize reads input fc size).accesses := by
  rcases reads with _ | ⟨r, reads⟩
  · simp [recvLoop, if_pos h]
  · have hturn : .read msize fc.pkt.length ∈ (recvTurn msize input fc size r).1 := by
      cases r with
      | eintr => simp [recvTurn]
      | error errno => simp [recvTurn]
      | data n => simp only [recvTurn]; split <;> simp
    rw [recvLoop, if_pos h]
    split
    all_goals
      rename_i heq
      rw [heq] at hturn
      simp_all

/-! ### The call -/

/-- What the loop did, the call did. -/
theorem mem_recvRest {a : Access} (h : a ∈ r.accesses) : a ∈ (recvRest c r).1.accesses := by
  unfold recvRest
  split
  · split
    · split
      exacts [List.mem_append_left _ h, h]
    · exact h
  · exact h

theorem recvRest_safe (h : LoopSafe c.msize r) : ∀ a ∈ (recvRest c r).1.accesses, a.Safe := by
  unfold recvRest
  split
  · rename_i fc size hout
    have hl := h.fits fc size hout
    split
    · split
      · simp only [List.mem_append, List.mem_singleton]
        rintro a (ha | rfl)
        · exact h.safe a ha
        · simp only [Access.Safe, List.length_drop]
          omega
      · exact h.safe
    · exact h.safe
  · exact h.safe

/-- The buffer that is cached has the size of the call that cached it. -/
theorem alloc_recvRest (h : (recvRest c r).2.fc = some fc) : fc.alloc = c.msize := by
  unfold recvRest at h
  split at h
  · split at h
    · split at h
      · cases h; rfl
      · cases h
    · cases h
  · cases h

theorem alloc_npFdtransRecv (h : (npFdtransRecv c t).2.fc = some fc) : fc.alloc = c.msize := by
  obtain ⟨cached, input⟩ := t
  cases cached <;> simp only [npFdtransRecv] at h <;> split at h
  · exact alloc_recvRest h
  · cases h
  · cases h
  · exact alloc_recvRest h

/-- **The condition on the state a call starts in**: unless the call ends at once, what
the cached buffer holds behind its first packet is at most the current `msize`. -/
def LeftoverFits (c : RecvCall) (t : Fdtrans) : Prop :=
  ∀ fc ∈ t.fc, npPeekSize fc.pkt ≤ c.msize → (npPeekSize fc.pkt ≠ 0 → c.allocRest = true) →
    fc.pkt.length - npPeekSize fc.pkt ≤ c.msize

/-- **A call is safe exactly when the leftover fits.** -/
theorem npFdtransRecv_safe_iff (hm : c.msize < 2147483648) (ha : ∀ fc ∈ t.fc, c.msize ≤ fc.alloc) :
    (∀ a ∈ (npFdtransRecv c t).1.accesses, a.Safe) ↔ LeftoverFits c t := by
  obtain ⟨fc, input⟩ := t
  rcases fc with _ | fc
  · refine iff_of_true ?_ (by rintro fc ⟨⟩)
    simp only [npFdtransRecv]
    split
    · exact recvRest_safe (recvLoop_safe hm c.reads input 0 le_rfl (Nat.zero_le _))
    · simp
  · obtain ⟨size, hsize⟩ : ∃ size, size = npPeekSize fc.pkt := ⟨_, rfl⟩
    have ha : c.msize ≤ fc.alloc := ha fc rfl
    simp only [LeftoverFits, Option.mem_some_iff, forall_eq', npFdtransRecv, ← hsize]
    by_cases hbig : size > c.msize
    · rw [if_pos hbig]
      exact iff_of_true (by simp) (by omega)
    rw [if_neg hbig]
    by_cases hmore : size = 0 ∨ fc.pkt.length < size
    · by_cases hl : fc.pkt.length ≤ c.msize
      · exact iff_of_true (recvRest_safe (recvLoop_safe hm c.reads input size ha hl)) (by omega)
      · -- the length of the first read underflows
        have h0 : size = 0 := by omega
        refine iff_of_false (fun h => hl ?_) (by simpa [h0] using hl)
        exact h _ (mem_recvRest (recvLoop_reads c.reads input hmore))
    · -- the packet is complete: only the rest is copied
      rw [recvLoop_done c.reads input hmore]
      by_cases hrest : fc.pkt.length > size
      · cases hr : c.allocRest
        · exact iff_of_true (by simp [recvRest, hrest, hr]) (by simp; omega)
        · simp [recvRest, hrest, hr, Access.Safe]
          omega
      · exact iff_of_true (by simp [recvRest, hrest]) (by omega)

/-! ### The connection -/

/-- What holds of the cached buffer before each call of a run. -/
theorem alloc_of_mem_recvRun {calls : List RecvCall}
    (hdec : calls.Pairwise fun c d => d.msize ≤ c.msize)
    (ht : ∀ fc ∈ t.fc, ∀ c ∈ calls, c.msize ≤ fc.alloc) {u : Fdtrans}
    (h : (c, u) ∈ recvRun calls t) : c ∈ calls ∧ ∀ fc ∈ u.fc, c.msize ≤ fc.alloc := by
  induction calls generalizing t with
  | nil => cases h
  | cons d calls ih =>
    rw [List.pairwise_cons] at hdec
    rw [recvRun, List.mem_cons] at h
    rcases h with h | h
    · cases h
      exact ⟨List.mem_cons_self, fun fc hfc => ht fc hfc c List.mem_cons_self⟩
    · have hrec : (c, u) ∈ recvRun calls (npFdtransRecv d t).2 := by
        split at h
        exacts [absurd h (by simp), h]
      -- the next buffer is one of this call's `msize`, and that is the largest to come
      have hnext : ∀ fc ∈ (npFdtransRecv d t).2.fc, ∀ c ∈ calls, c.msize ≤ fc.alloc :=
        fun fc hfc c hc => (hdec.1 c hc).trans (alloc_npFdtransRecv hfc).ge
      obtain ⟨hc, hu⟩ := ih hdec.2 hnext hrec
      exact ⟨List.mem_cons_of_mem _ hc, hu⟩

/-- **No call oversteps a buffer exactly when every leftover fits.** Over any stream,
any way the kernel splits it and any `msize` values that do not grow (and fit the `int`
that `np_alloc_fcall` takes), all stores stay inside the buffers and no read length
underflows precisely if each call meets `Diod.LeftoverFits`. -/
theorem recv_safe_iff (calls : List RecvCall) (input : Bytes)
    (hmsize : ∀ c ∈ calls, 25 ≤ c.msize ∧ c.msize < 2147483648)
    (hdec : calls.Pairwise fun c d => d.msize ≤ c.msize) :
    (∀ p ∈ recvRun calls ⟨none, input⟩, ∀ a ∈ (npFdtransRecv p.1 p.2).1.accesses, a.Safe) ↔
      ∀ p ∈ recvRun calls ⟨none, input⟩, LeftoverFits p.1 p.2 := by
  refine forall₂_congr fun p hp => ?_
  obtain ⟨hc, ha⟩ := alloc_of_mem_recvRun hdec (by rintro fc ⟨⟩) hp
  exact npFdtransRecv_safe_iff (hmsize p.1 hc).2 ha

/-- Two packets that arrive in one `read`, under an unchanged `msize`. -/
def twoPackets : List RecvCall := [⟨25, true, true, [.data 63]⟩, ⟨25, true, true, []⟩]

/-- Two `Tclunk`s. -/
def twoTclunks : Bytes := [11, 0, 0, 0, 120, 0, 0, 1, 0, 0, 0, 11, 0, 0, 0, 120, 1, 0, 2, 0, 0, 0]

theorem recv_safe_two_tclunks :
    (∀ c ∈ twoPackets, 25 ≤ c.msize ∧ c.msize < 2147483648) ∧
      (twoPackets.Pairwise fun c d => d.msize ≤ c.msize) ∧
      ((∀ p ∈ recvRun twoPackets ⟨none, twoTclunks⟩,
          ∀ a ∈ (npFdtransRecv p.1 p.2).1.accesses, a.Safe) ↔
        ∀ p ∈ recvRun twoPackets ⟨none, twoTclunks⟩, LeftoverFits p.1 p.2) :=
  ⟨by decide, by decide, recv_safe_iff twoPackets twoTclunks (by decide) (by decide)⟩

/-- A call that reads up to 64 bytes, and one after `np_version` has lowered `msize`. -/
def loweredMsize : List RecvCall := [⟨64, true, true, [.data 63]⟩, ⟨25, true, true, []⟩]

/-- `Tversion` with `msize` 25, a `Tclunk`, and 32 bytes of what follows. -/
def versionThenMore : Bytes :=
  [21, 0, 0, 0, 100, 255, 255, 25, 0, 0, 0, 8, 0, 57, 80, 50, 48, 48, 48, 46, 76] ++
    [11, 0, 0, 0, 120, 1, 0, 1, 0, 0, 0] ++ List.replicate 32 0

/-- **32 bytes are copied into a buffer of 25.** -/
theorem leftover_copy_oversteps :
    (∀ c ∈ loweredMsize, 25 ≤ c.msize ∧ c.msize < 2147483648) ∧
      (loweredMsize.Pairwise fun c d => d.msize ≤ c.msize) ∧
      ∃ p ∈ recvRun loweredMsize ⟨none, versionThenMore⟩,
        .store 25 0 32 ∈ (npFdtransRecv p.1 p.2).1.accesses ∧ ¬(Access.store 25 0 32).Safe := by
  refine ⟨by decide, by decide, ?_⟩
  refine ⟨(⟨25, true, true, []⟩, ⟨some ⟨64, versionThenMore.drop 21⟩, []⟩), ?_, by decide,
    by decide⟩
  refine List.mem_cons_of_mem _ ?_
  exact List.mem_cons_self

end Diod
