import Diod.Transport.Fdtrans

/-!
# The stream of packets

As long as `msize` stays as it is, `np_fdtrans_recv` gives back **the packets that were
sent, in order and byte for byte, whatever the reads deliver** (`Diod.recv_packets`):
several packets may come in one read and one packet in many, and what comes after a
packet waits in the cached buffer.

What is yet to come at any time is determined by the state alone: it is the contents of
the buffer followed by the bytes that have not been read (`Diod.Fdtrans.stream`). A turn of
the loop moves bytes from the second part to the first, and a call that ends takes one
packet off the front. So nothing depends on where the reads cut.
-/

namespace Diod

/-! ### Packets and streams -/

/-- **A packet of at most `msize` bytes**, which begins with its own size. -/
structure IsPacket (msize : ℕ) (p : Bytes) : Prop where
  min : 7 ≤ p.length
  max : p.length ≤ msize
  size : npPeekSize p = p.length

/-- The bytes that are yet to be returned. -/
def Fdtrans.stream (t : Fdtrans) : Bytes := (t.fc.elim [] Inbuf.pkt) ++ t.input

/-- How many answers to `read` are data (or the end of the stream). -/
def dataCount : List ReadResult → ℕ
  | [] => 0
  | .data _ :: reads => dataCount reads + 1
  | _ :: reads => dataCount reads

/-- **A call under `msize`** for which there is memory, and whose reads do not fail other
than with `EINTR`. -/
structure RecvCall.Plain (msize : ℕ) (c : RecvCall) : Prop where
  msize_eq : c.msize = msize
  alloc : c.alloc = true
  allocRest : c.allocRest = true
  reads : ∀ errno, .error errno ∉ c.reads

/-- What a call hands to its caller: a packet, or nothing at the end of the stream. -/
def Recvd.returned : Recvd → Option (Option Bytes)
  | .msg fc size => some (some (fc.pkt.take size))
  | .eof => some none
  | .error _ => none
  | .blocked => none

variable {msize : ℕ} {p rest : Bytes}

/-- The size of a packet is known from its first four bytes. -/
theorem npPeekSize_of_front (hp : IsPacket msize p) {buf input : Bytes}
    (h : buf ++ input = p ++ rest) :
    npPeekSize buf = if 4 ≤ buf.length then p.length else 0 := by
  have h7 := hp.min
  have hsize := hp.size
  unfold npPeekSize at hsize ⊢
  rw [if_pos (by omega)] at hsize
  split
  · rename_i h4
    have htake := congrArg (List.take 4) h
    rw [List.take_append_of_le_length h4, List.take_append_of_le_length (by omega)] at htake
    rw [htake, hsize]
  · rfl

/-- **The loop reads on exactly until the packet is complete.** -/
theorem reads_on_iff (hp : IsPacket msize p) {buf input : Bytes} (h : buf ++ input = p ++ rest) :
    (npPeekSize buf = 0 ∨ buf.length < npPeekSize buf) ↔ buf.length < p.length := by
  have h7 := hp.min
  rw [npPeekSize_of_front hp h]
  split <;> omega

/-! ### The loop -/

/-- **A read within a packet**: it returns something, and the loop goes on with that. -/
theorem recvTurn_data (hm : msize < 4294967296) (hp : IsPacket msize p) {input : Bytes} {fc : Inbuf}
    (h : fc.pkt ++ input = p ++ rest) (hlt : fc.pkt.length < p.length) (n : ℕ) :
    ∃ as got input', got ≠ [] ∧ input = got ++ input' ∧ fc.pkt.length + got.length ≤ msize ∧
      recvTurn msize input fc (npPeekSize fc.pkt) (.data n) =
        (as, input', .again ⟨fc.alloc, fc.pkt ++ got⟩ (npPeekSize (fc.pkt ++ got))) := by
  have hmax := hp.max
  obtain ⟨got, hgot⟩ : ∃ got, got = input.take (min (n + 1) (readLen msize fc.pkt.length)) :=
    ⟨_, rfl⟩
  have hread : readLen msize fc.pkt.length = msize - fc.pkt.length := by
    rw [readLen]
    omega
  -- the rest of the packet has not been read, so there is something to read
  have hin : 0 < input.length := by
    have hl := congrArg List.length h
    simp only [List.length_append] at hl
    omega
  have hlen : got.length = min (min (n + 1) (msize - fc.pkt.length)) input.length := by
    rw [hgot, hread, List.length_take]
  have hne : got ≠ [] := by
    intro h0
    rw [h0, List.length_nil] at hlen
    omega
  obtain ⟨input', hinput⟩ : got <+: input := hgot ▸ List.take_prefix _ _
  have h' : (fc.pkt ++ got) ++ input' = p ++ rest := by
    rw [List.append_assoc, hinput, h]
  have hsize : (if npPeekSize fc.pkt = 0 then npPeekSize (fc.pkt ++ got) else npPeekSize fc.pkt) =
      npPeekSize (fc.pkt ++ got) := by
    rw [npPeekSize_of_front hp h, npPeekSize_of_front hp h', List.length_append]
    have h7 := hp.min
    split_ifs <;> omega
  have hle : npPeekSize (fc.pkt ++ got) ≤ msize := by
    rw [npPeekSize_of_front hp h']
    split <;> omega
  have hdrop : input.drop got.length = input' := by rw [← hinput, List.drop_left]
  refine ⟨[.read msize fc.pkt.length, .store fc.alloc fc.pkt.length got.length], got, input', hne,
    hinput.symm, by omega, ?_⟩
  simp only [recvTurn, ← hgot]
  rw [if_neg hne]
  simp only [hsize, hdrop]
  rw [if_neg (fun hbig => absurd hbig.2 (not_lt.mpr hle))]

/-- **A packet has been found**: it is at the front of the buffer, and what follows is the
rest of the stream. -/
def Cut (msize : ℕ) (p rest : Bytes) (r : Recv) : Prop :=
  ∃ fc, r.out = .msg fc p.length ∧ fc.pkt ++ r.input = p ++ rest ∧
    p.length ≤ fc.pkt.length ∧ fc.pkt.length ≤ msize

theorem cut_of_complete (hp : IsPacket msize p) (reads : List ReadResult) {input : Bytes}
    {fc : Inbuf} (h : fc.pkt ++ input = p ++ rest) (hge : ¬fc.pkt.length < p.length)
    (hl : fc.pkt.length ≤ msize) :
    Cut msize p rest (recvLoop msize reads input fc (npPeekSize fc.pkt)) := by
  have h7 := hp.min
  rw [recvLoop_done reads input (mt (reads_on_iff hp h).mp hge)]
  refine ⟨fc, ?_, h, not_lt.mp hge, hl⟩
  rw [npPeekSize_of_front hp h, if_pos (by omega)]

/-- **The loop finds the packet**, unless it is blocked: then it has had fewer answers than
bytes are missing. -/
theorem recvLoop_packet (hm : msize < 4294967296) (hp : IsPacket msize p)
    (reads : List ReadResult) (hr : ∀ errno, .error errno ∉ reads) {input : Bytes} {fc : Inbuf}
    (h : fc.pkt ++ input = p ++ rest) (hl : fc.pkt.length ≤ msize) :
    (recvLoop msize reads input fc (npPeekSize fc.pkt)).out = .blocked ∧
        fc.pkt.length + dataCount reads < p.length ∨
      Cut msize p rest (recvLoop msize reads input fc (npPeekSize fc.pkt)) := by
  induction reads generalizing input fc with
  | nil =>
    by_cases hlt : fc.pkt.length < p.length
    · rw [recvLoop, if_pos ((reads_on_iff hp h).mpr hlt)]
      exact .inl ⟨rfl, hlt⟩
    · exact .inr (cut_of_complete hp [] h hlt hl)
  | cons r reads ih =>
    have hr' : ∀ errno, .error errno ∉ reads := fun e he => hr e (List.mem_cons_of_mem _ he)
    by_cases hlt : fc.pkt.length < p.length
    · rw [recvLoop, if_pos ((reads_on_iff hp h).mpr hlt)]
      cases r with
      | eintr => exact ih hr' h hl
      | error errno => exact absurd List.mem_cons_self (hr errno)
      | data n =>
        obtain ⟨as, got, input', hne, rfl, hle, hturn⟩ := recvTurn_data hm hp h hlt n
        rw [hturn]
        have h' : (fc.pkt ++ got) ++ input' = p ++ rest := by rw [List.append_assoc, h]
        have hl' : (fc.pkt ++ got).length ≤ msize := by rw [List.length_append]; exact hle
        have hpos := List.length_pos_iff.mpr hne
        -- one answer is used up, and at least one byte less is missing
        rcases @ih hr' input' ⟨fc.alloc, fc.pkt ++ got⟩ h' hl' with ⟨hb, hc⟩ | hc
        · refine .inl ⟨hb, ?_⟩
          simp only [List.length_append] at hc
          simp only [dataCount]
          omega
        · exact .inr hc
    · exact .inr (cut_of_complete hp _ h hlt hl)

/-- At the end of the stream the loop says so, after at most one answer. -/
theorem recvLoop_end (msize : ℕ) (reads : List ReadResult) (hr : ∀ errno, .error errno ∉ reads)
    (fc : Inbuf) :
    (recvLoop msize reads [] fc 0).out = .blocked ∧ dataCount reads = 0 ∨
      (recvLoop msize reads [] fc 0).out = .eof ∧ (recvLoop msize reads [] fc 0).input = [] := by
  induction reads with
  | nil => exact .inl ⟨by simp [recvLoop], rfl⟩
  | cons r reads ih =>
    rw [recvLoop, if_pos (.inl rfl)]
    cases r with
    | eintr => exact ih fun e he => hr e (List.mem_cons_of_mem _ he)
    | error errno => exact absurd List.mem_cons_self (hr errno)
    | data n =>
      have hturn : (recvTurn msize [] fc 0 (.data n)) =
          ([.read msize fc.pkt.length], [], .eof) := by
        rw [recvTurn, List.take_nil]
        exact if_pos rfl
      rw [hturn]
      exact .inr ⟨rfl, rfl⟩

/-! ### The call -/

/-- **The state between two calls**: what is cached has at most `msize` bytes. -/
def Fdtrans.Fits (msize : ℕ) (t : Fdtrans) : Prop := ∀ fc ∈ t.fc, fc.pkt.length ≤ msize

variable {c : RecvCall} {t : Fdtrans}

/-- Behind the loop the packet is returned, and the rest is kept. -/
theorem recvRest_cut (hc : c.Plain msize) {r : Recv} (h : Cut msize p rest r) :
    (recvRest c r).1.out.returned = some (some p) ∧ (recvRest c r).2.stream = rest ∧
      (recvRest c r).2.Fits msize := by
  obtain ⟨fc, hout, hs, hge, hle⟩ := h
  obtain ⟨more, hmore⟩ : ∃ more, fc.pkt = p ++ more := by
    have hpre : p <+: fc.pkt := List.prefix_of_prefix_length_le (List.prefix_append p rest)
      (hs ▸ List.prefix_append fc.pkt r.input) hge
    exact hpre.imp fun _ h => h.symm
  have hrest : more ++ r.input = rest := by
    rw [hmore, List.append_assoc] at hs
    exact List.append_cancel_left hs
  have hpkt : Recvd.returned (.msg fc p.length) = some (some p) := by
    rw [Recvd.returned, hmore, List.take_left]
  have hdrop : fc.pkt.drop p.length = more := by rw [hmore, List.drop_left]
  unfold recvRest
  simp only [hout, hc.allocRest, if_true, hdrop]
  split
  · refine ⟨hpkt, hrest, fun fc' hfc => ?_⟩
    obtain rfl := Option.some.inj hfc
    rw [hmore, List.length_append] at hle
    exact (Nat.le_add_left _ _).trans hle
  · -- the packet is all there is in the buffer
    rename_i hgt
    rw [hout]
    have hnil : more = [] := by
      rw [hmore, List.length_append] at hgt
      exact List.eq_nil_of_length_eq_zero (by omega)
    rw [hnil] at hrest
    exact ⟨hpkt, hrest, fun _ hfc => by cases hfc⟩

/-- **A call returns the packet at the front of the stream**, unless it is blocked. -/
theorem npFdtransRecv_packet (hm : msize < 4294967296) (hc : c.Plain msize) (hp : IsPacket msize p)
    (ht : t.Fits msize) (hs : t.stream = p ++ rest) :
    (npFdtransRecv c t).1.out = .blocked ∧ dataCount c.reads < msize ∨
      (npFdtransRecv c t).1.out.returned = some (some p) ∧ (npFdtransRecv c t).2.stream = rest ∧
        (npFdtransRecv c t).2.Fits msize := by
  -- with or without a cached buffer, the loop starts at the front of the stream
  obtain ⟨fc, hfc, hl, heq⟩ : ∃ fc : Inbuf, fc.pkt ++ t.input = p ++ rest ∧
      fc.pkt.length ≤ msize ∧ npFdtransRecv c t =
        recvRest c (recvLoop msize c.reads t.input fc (npPeekSize fc.pkt)) := by
    obtain ⟨cached, input⟩ := t
    rcases cached with _ | fc
    · refine ⟨⟨c.msize, []⟩, hs, Nat.zero_le _, ?_⟩
      simp only [npFdtransRecv, hc.alloc, if_true, hc.msize_eq]
      rfl
    · have hs : fc.pkt ++ input = p ++ rest := hs
      refine ⟨fc, hs, ht fc rfl, ?_⟩
      have hle : ¬npPeekSize fc.pkt > msize := by
        have hmax := hp.max
        rw [npPeekSize_of_front hp hs]
        split <;> omega
      simp only [npFdtransRecv, hc.msize_eq]
      rw [if_neg hle]
  rw [heq]
  rcases recvLoop_packet hm hp c.reads hc.reads hfc hl with ⟨hb, hlt⟩ | hcut
  · refine .inl ⟨?_, lt_of_lt_of_le (by omega) hp.max⟩
    rw [recvRest]
    split
    · rename_i hout
      rw [hb] at hout
      cases hout
    · exact hb
  · exact .inr (recvRest_cut hc hcut)

/-- **A call at the end of the stream says so**, unless it is blocked. -/
theorem npFdtransRecv_end (hc : c.Plain msize) (hs : t.stream = []) :
    (npFdtransRecv c t).1.out = .blocked ∧ dataCount c.reads = 0 ∨
      (npFdtransRecv c t).1.out.returned = some none ∧ (npFdtransRecv c t).2 = ⟨none, []⟩ := by
  obtain ⟨fc, heq⟩ : ∃ fc : Inbuf, npFdtransRecv c t =
      recvRest c (recvLoop msize c.reads [] fc 0) := by
    obtain ⟨cached, input⟩ := t
    rcases cached with _ | fc
    · obtain rfl : input = [] := hs
      refine ⟨⟨c.msize, []⟩, ?_⟩
      simp only [npFdtransRecv, hc.alloc, if_true, hc.msize_eq]
    · obtain ⟨hpkt, rfl⟩ := List.append_eq_nil_iff.mp hs
      have hpkt : fc.pkt = [] := hpkt
      refine ⟨fc, ?_⟩
      simp only [npFdtransRecv, hc.msize_eq, hpkt]
      rw [if_neg (by simp [npPeekSize])]
      rfl
  rw [heq]
  rcases recvLoop_end msize c.reads hc.reads fc with ⟨hb, h0⟩ | ⟨he, hin⟩
  · exact .inl ⟨by simp [recvRest, hb], h0⟩
  · exact .inr (by simp [recvRest, he, hin, Recvd.returned])

/-- **A call takes the next packet off the stream**, if there is one, unless it is blocked. -/
theorem npFdtransRecv_next (hm : msize < 4294967296) (hc : c.Plain msize) (ht : t.Fits msize)
    {packets : List Bytes} (hp : ∀ p ∈ packets, IsPacket msize p)
    (hs : t.stream = packets.flatten) :
    (npFdtransRecv c t).1.out = .blocked ∧ dataCount c.reads ≤ msize ∨
      (npFdtransRecv c t).1.out.returned = some packets.head? ∧
        (npFdtransRecv c t).2.stream = packets.tail.flatten ∧ (npFdtransRecv c t).2.Fits msize := by
  rcases packets with _ | ⟨p, packets⟩
  · rcases npFdtransRecv_end hc hs with ⟨hb, h0⟩ | ⟨hr, ht'⟩
    · exact .inl ⟨hb, by omega⟩
    · exact .inr ⟨hr, by rw [ht']; rfl, by rw [ht']; exact fun _ h => by cases h⟩
  · rcases npFdtransRecv_packet hm hc (hp p List.mem_cons_self) ht hs with ⟨hb, hlt⟩ | h
    · exact .inl ⟨hb, hlt.le⟩
    · exact .inr h

/-! ### The connection -/

/-- What the calls of a connection return. -/
def returns (calls : List RecvCall) (t : Fdtrans) : List (Option (Option Bytes)) :=
  (recvRun calls t).map fun q => (npFdtransRecv q.1 q.2).1.out.returned

theorem recvRun_cons (cs : List RecvCall) (h : (npFdtransRecv c t).1.out ≠ .blocked) :
    recvRun (c :: cs) t = (c, t) :: recvRun cs (npFdtransRecv c t).2 := by
  rw [recvRun]
  split
  rename_i r t' heq
  rw [heq] at h ⊢
  split
  · contradiction
  · rfl

/-- With enough answers no call is blocked. -/
theorem recvRun_answered (hm : msize < 4294967296) (calls : List RecvCall)
    (hc : ∀ c ∈ calls, c.Plain msize) (hd : ∀ c ∈ calls, msize < dataCount c.reads)
    {packets : List Bytes} (hp : ∀ p ∈ packets, IsPacket msize p) (ht : t.Fits msize)
    (hs : t.stream = packets.flatten) :
    ∀ q ∈ recvRun calls t, (npFdtransRecv q.1 q.2).1.out ≠ .blocked := by
  induction calls generalizing t packets with
  | nil => exact fun q hq => by cases hq
  | cons c cs ih =>
    obtain ⟨hc₀, hc⟩ := List.forall_mem_cons.mp hc
    obtain ⟨hd₀, hd⟩ := List.forall_mem_cons.mp hd
    rcases npFdtransRecv_next hm hc₀ ht hp hs with ⟨-, hle⟩ | ⟨hr, hs', ht'⟩
    · exact absurd hd₀ (not_lt.mpr hle)
    · have hb : (npFdtransRecv c t).1.out ≠ .blocked := fun h => by rw [h] at hr; cases hr
      rw [recvRun_cons cs hb]
      refine List.forall_mem_cons.mpr ⟨hb, ih hc hd (fun p h => hp p ?_) ht' hs'⟩
      exact List.mem_of_mem_tail h

/-- Calls that are not blocked return one packet after the other. -/
theorem returns_of_answered (hm : msize < 4294967296) (calls : List RecvCall)
    (hc : ∀ c ∈ calls, c.Plain msize) {packets : List Bytes}
    (hp : ∀ p ∈ packets, IsPacket msize p) (ht : t.Fits msize) (hs : t.stream = packets.flatten)
    (hb : ∀ q ∈ recvRun calls t, (npFdtransRecv q.1 q.2).1.out ≠ .blocked) :
    returns calls t = (List.range calls.length).map fun i => some packets[i]? := by
  induction calls generalizing t packets with
  | nil => rfl
  | cons c cs ih =>
    obtain ⟨hc₀, hc⟩ := List.forall_mem_cons.mp hc
    have hb₀ : (npFdtransRecv c t).1.out ≠ .blocked :=
      hb (c, t) (by rw [recvRun]; exact List.mem_cons_self)
    rw [recvRun_cons cs hb₀] at hb
    rcases npFdtransRecv_next hm hc₀ ht hp hs with ⟨hblock, -⟩ | ⟨hr, hs', ht'⟩
    · exact absurd hblock hb₀
    · have hrest := ih hc (fun p h => hp p (List.mem_of_mem_tail h)) ht' hs'
        (List.forall_mem_cons.mp hb).2
      rw [returns, recvRun_cons cs hb₀, List.map_cons, hr, List.length_cons,
        List.range_succ_eq_map, List.map_cons, List.map_map, List.head?_eq_getElem?]
      refine congrArg _ (hrest.trans (List.map_congr_left fun i _ => ?_))
      simp

/-- **The packets come back in order and byte for byte, and then the end of the stream,
however it is delivered**: the `i`-th call returns the `i`-th packet, and says that the
stream has ended when there is none. A call is only blocked as long as data is missing;
more answers than `msize` are enough for any call. -/
theorem recv_packets (hm : msize < 4294967296) (packets : List Bytes)
    (hp : ∀ p ∈ packets, IsPacket msize p) (calls : List RecvCall)
    (hc : ∀ c ∈ calls, c.Plain msize) :
    ((∀ c ∈ calls, msize < dataCount c.reads) →
      ∀ q ∈ recvRun calls ⟨none, packets.flatten⟩, (npFdtransRecv q.1 q.2).1.out ≠ .blocked) ∧
    ((∀ q ∈ recvRun calls ⟨none, packets.flatten⟩, (npFdtransRecv q.1 q.2).1.out ≠ .blocked) →
      returns calls ⟨none, packets.flatten⟩ =
        (List.range calls.length).map fun i => some packets[i]?) := by
  have ht : Fdtrans.Fits msize ⟨none, packets.flatten⟩ := fun _ h => by cases h
  exact ⟨fun hd => recvRun_answered hm calls hc hd hp ht rfl,
    returns_of_answered hm calls hc hp ht rfl⟩

/-- Three calls. The first has a read that is interrupted and one that gets all, and the
others find what they need without one, or at the end of the stream. -/
def threeCalls : List RecvCall :=
  [⟨25, true, true, [.eintr, .data 63]⟩, ⟨25, true, true, []⟩, ⟨25, true, true, [.data 0]⟩]

/-- The two `Tclunk`s, and the end of the stream. -/
theorem recv_packets_two_tclunks :
    returns threeCalls ⟨none, twoTclunks⟩ =
      [some (some (twoTclunks.take 11)), some (some (twoTclunks.drop 11)), some none] := by
  have hp : ∀ p ∈ [twoTclunks.take 11, twoTclunks.drop 11], IsPacket 25 p := by
    simp only [List.forall_mem_cons]
    exact ⟨⟨by decide, by decide, by decide⟩, ⟨by decide, by decide, by decide⟩,
      fun p h => by cases h⟩
  have hc : ∀ c ∈ threeCalls, c.Plain 25 := by
    simp only [threeCalls, List.forall_mem_cons]
    exact ⟨⟨rfl, rfl, rfl, by simp⟩, ⟨rfl, rfl, rfl, by simp⟩, ⟨rfl, rfl, rfl, by simp⟩,
      fun c h => by cases h⟩
  have hb : ∀ q ∈ recvRun threeCalls ⟨none, twoTclunks⟩,
      (npFdtransRecv q.1 q.2).1.out.returned.isSome = true := by
    decide
  refine (recv_packets (show 25 < 4294967296 by decide) _ hp threeCalls hc).2 fun q hq h => ?_
  have := hb q hq
  rw [h] at this
  cases this

end Diod
