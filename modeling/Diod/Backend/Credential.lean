import Diod.Backend.Auth
import Diod.Transport.Fdtrans
import Diod.Wire.RoundTrip
import Mathlib.Data.List.TakeWhile

/-!
# Writing a credential

`writeafid` once more, with the memory it uses. A client that authenticates sends its
credential in one `Twrite` after the other, each at the offset where the last one
ended, and the server appends them to `da->datastr`. This runs before anything is known
about the client, and `np_write` does not look at the count of a write to an auth fid.

Two things can go wrong, and both depend on what the client sends.

* **A credential is a C string.** How much has been written is asked of `strlen`, so
  after data with a NUL in it the next write comes at the wrong offset and is refused.
* **A count is a `u32`.** The first block is `malloc (count + 1)`, which for the greatest
  count has no bytes at all, and the result is an `int`, negative from `2 ^ 31` on.
  `np_deserialize` lets such counts through.

`Diod.credential_kept_iff` says that there is nothing else.
-/

namespace Diod

/-! ### One write -/

/-- A `Twrite` to an auth fid. -/
structure AfidWrite where
  offset : UInt64
  count : UInt32
  /-- The memory from `tc->u.twrite.data` on. -/
  data : ℕ → UInt8
  /-- What is in the memory that `malloc` or `realloc` adds. -/
  fresh : ℕ → UInt8

/-- What `writeafid` leaves behind. -/
structure AfidDone where
  ret : ℤ
  /-- The block that `da->datastr` points to, to its end. -/
  datastr : Option Bytes
  accesses : List Access

/-- `realloc`, or `malloc` where there was nothing. -/
def resize (old : Bytes) (size : ℕ) (fresh : ℕ → UInt8) : Bytes :=
  old.take size ++ (List.range (size - old.length)).map fresh

namespace AfidWrite

/-- A packet as `np_deserialize` hands it to `np_write`, if it is a `Twrite`. Behind the
packet there is other memory. -/
def ofPacket (behind fresh : ℕ → UInt8) (pkt : Bytes) : Option AfidWrite :=
  (deserialize pkt).bind fun x =>
    match x.1.u with
    | .twrite _ offset count (some p) =>
      some ⟨offset, count, fun i => (pkt[p.toNat + i]?).getD (behind (p.toNat + i)), fresh⟩
    | _ => none

variable (r : AfidWrite)

/-- The `count` bytes of data. -/
def bytes : Bytes := (List.range r.count.toNat).map r.data

/-- The block that the data is to go into. At an unexpected offset there is none. -/
def block : Option Bytes → Option Bytes
  | none => if r.offset = 0 then some (resize [] (r.count + 1).toNat r.fresh) else none
  | some s =>
    if r.offset.toNat = (cstr s).length then
      some (resize s (r.offset + r.count.toUInt64 + 1).toNat r.fresh)
    else none

/-- `writeafid`, where memory does not run out. -/
def writeafid (datastr : Option Bytes) : AfidDone :=
  if r.count = 0 then ⟨-1, datastr, []⟩
  else
    match r.block datastr with
    | none => ⟨-1, datastr, []⟩
    | some s =>
      let off := r.offset.toNat
      -- `ret` is an `int`, and the `u32` count is assigned to it
      ⟨asInt r.count.toNat,
        some (storeAt (storeAt s off r.bytes) (off + r.count.toNat) [0]),
        [.store s.length off r.count.toNat, .store s.length (off + r.count.toNat) 1]⟩

@[simp]
theorem length_bytes : r.bytes.length = r.count.toNat := by simp [bytes]

/-- **What a write needs**: its count is an `int`, and the size of the block does not
wrap around. -/
def Fits : Prop :=
  r.count.toNat < 2 ^ 31 ∧ r.offset.toNat + r.count.toNat + 1 < 2 ^ 64

end AfidWrite

/-! ### The memory -/

theorem length_resize (old : Bytes) (size : ℕ) (fresh : ℕ → UInt8) :
    (resize old size fresh).length = size := by
  simp only [resize, List.length_append, List.length_take, List.length_map, List.length_range]
  omega

variable {D : Bytes} {d : Option Bytes}

/-- What fits is kept. -/
theorem prefix_resize {z : Bytes} {size : ℕ} (h : D.length ≤ size) (fresh : ℕ → UInt8) :
    D <+: resize (D ++ z) size fresh := by
  rw [resize, List.take_append, List.take_of_length_le h, List.append_assoc]
  exact List.prefix_append _ _

/-- The two stores of `writeafid`, into a block of just the right size. -/
theorem storeAt_credential {s bs : Bytes} (hp : D <+: s)
    (hs : s.length = D.length + bs.length + 1) :
    storeAt (storeAt s D.length bs) (D.length + bs.length) [0] = D ++ bs ++ [0] := by
  obtain ⟨rest, rfl⟩ := hp
  rw [List.length_append] at hs
  have hq : (rest.take bs.length).length = bs.length := by rw [List.length_take]; omega
  have ht : (rest.drop bs.length).length = [(0 : UInt8)].length := by
    rw [List.length_drop, List.length_singleton]; omega
  have hlast := storeAt_append (w := D ++ bs) (r := []) ht
  rw [← List.take_append_drop bs.length rest, storeAt_append hq, ← List.append_assoc]
  simpa using hlast

/-- What `strlen` counts of `da->datastr`. -/
def soFar (d : Option Bytes) : Bytes := (d.map cstr).getD []

/-- What has been written so far is what `da->datastr` holds. -/
def BlockHolds (D : Bytes) : Option Bytes → Prop
  | none => D = []
  | some s => s = D ++ [0]

theorem cstr_nul (D : Bytes) : cstr (D ++ [0]) = cstr D := by
  by_cases h : 0 ∈ D
  · obtain ⟨u, v, rfl, hu⟩ := List.eq_append_cons_of_mem h
    rw [List.append_assoc, List.cons_append, cstr_append_nul hu, cstr_append_nul hu]
  · rw [cstr_append_nul h, cstr_of_not_mem h]

/-- **A credential is a C string**: all of it is seen where it has no NUL. -/
theorem soFar_eq_iff (hd : BlockHolds D d) : D.length = (soFar d).length ↔ 0 ∉ D := by
  rcases d with _ | s
  · obtain rfl : D = [] := hd
    simp [soFar]
  · obtain rfl : s = D ++ [0] := hd
    have hcut : cstr D <+: D := List.takeWhile_prefix _
    change D.length = (cstr (D ++ [0])).length ↔ _
    rw [cstr_nul]
    constructor
    · intro h h0
      rw [← hcut.eq_of_length h.symm] at h0
      simpa using List.mem_takeWhile_imp h0
    · intro h0
      rw [cstr, List.takeWhile_eq_self_iff.mpr]
      intro a ha
      simpa using ne_of_mem_of_not_mem ha h0

theorem soFar_of_blockHolds (hd : BlockHolds D d) (h0 : 0 ∉ D) : soFar d = D := by
  rcases d with _ | s
  · exact (show D = [] from hd).symm
  · have hlen := (soFar_eq_iff hd).mpr h0
    obtain rfl : s = D ++ [0] := hd
    have hcut : soFar (some (D ++ [0])) <+: D := by
      change cstr (D ++ [0]) <+: D
      rw [cstr_nul]
      exact List.takeWhile_prefix _
    exact hcut.eq_of_length hlen.symm

/-! ### The handler -/

namespace Op

variable {σ : Type} {H : Host σ} {o : Ost σ Da} {offset : UInt64} {data : Bytes}

theorem writeafid_refuses
    (h : data = [] ∨ offset.toNat ≠ ((o.f.datastr.map cstr).getD []).length) :
    writeafid H offset data o = (.stop, { o with ecode := EIO }) := by
  by_cases hd : data = []
  · exact Prog.bind_of_stop (failIf_of hd _ o)
  · have ho := h.resolve_left hd
    rw [writeafid, Prog.bind_of_ok (failIf_of_not hd _ o), fid_bind]
    exact Prog.bind_of_stop (failIf_of ho _ o)

theorem writeafid_appends (hd : data ≠ [])
    (ho : offset.toNat = ((o.f.datastr.map cstr).getD []).length)
    (hm : (H.malloc o.host).1 ≠ none) :
    ∃ o', writeafid H offset data o = (.ok (), o') ∧
      o'.f.datastr = some ((o.f.datastr.map cstr).getD [] ++ data) := by
  obtain ⟨m, hm'⟩ := Option.ne_none_iff_exists'.mp hm
  have hmalloc : malloc H o = (.ok (some m), { o with host := (H.malloc o.host).2 }) := by
    rw [malloc, ← hm']
  rw [writeafid, Prog.bind_of_ok (failIf_of_not hd _ o), fid_bind,
    Prog.bind_of_ok (failIf_of_not (not_not.mpr ho) _ o), Prog.bind_of_ok hmalloc]
  exact ⟨_, rfl, rfl⟩

end Op

/-! ### One write -/

/-- **A write that does its work**: it is answered with its count, appends its data, and
stays inside the block. -/
def AfidDone.Appends (x : AfidDone) (r : AfidWrite) (D : Bytes) : Prop :=
  x.ret = r.count.toNat ∧ x.datastr = some (D ++ r.bytes ++ [0]) ∧ ∀ a ∈ x.accesses, a.Safe

namespace AfidWrite

variable {r : AfidWrite} {D s : Bytes} {d : Option Bytes}

/-- The block is there at the right offset only, with what `strlen` counts in front. It is
as large as it should be where the write fits. -/
theorem exists_block (ho : r.offset.toNat = (soFar d).length) :
    ∃ s, r.block d = some s ∧ (r.offset.toNat ≤ s.length → soFar d <+: s) ∧
      s.length < 2 ^ 64 ∧ (r.Fits → s.length = r.offset.toNat + r.count.toNat + 1) := by
  rcases d with _ | s
  · have hz : r.offset = 0 := UInt64.toNat_inj.mp ho
    refine ⟨_, if_pos hz, fun _ => List.nil_prefix, ?_, ?_⟩
    · rw [length_resize]
      exact (UInt32.toNat_lt _).trans (by decide)
    · rintro ⟨hc, -⟩
      rw [length_resize, UInt32.toNat_add, Nat.mod_eq_of_lt, hz]
      · simp
      · exact Nat.lt_of_lt_of_le (Nat.add_lt_add_right hc _) (by decide)
  · refine ⟨_, if_pos ho, ?_, ?_, ?_⟩
    · rw [length_resize, ho]
      intro h
      have hs : s = soFar (some s) ++ s.dropWhile (· ≠ 0) := (List.takeWhile_append_dropWhile).symm
      nth_rewrite 2 [hs]
      exact prefix_resize h _
    · rw [length_resize]
      exact UInt64.toNat_lt _
    · rintro ⟨-, hs⟩
      rw [length_resize, UInt64.toNat_add, UInt64.toNat_add, UInt32.toNat_toUInt64,
        Nat.mod_add_mod]
      exact Nat.mod_eq_of_lt hs

theorem writeafid_of_block (hc : r.count ≠ 0) (hb : r.block d = some s) : r.writeafid d =
    ⟨asInt r.count.toNat, some (storeAt (storeAt s r.offset.toNat r.bytes)
        (r.offset.toNat + r.count.toNat) [0]),
      [.store s.length r.offset.toNat r.count.toNat,
        .store s.length (r.offset.toNat + r.count.toNat) 1]⟩ := by
  rw [writeafid, if_neg hc, hb]

/-- At another offset the write is refused. -/
theorem writeafid_of_offset (ho : r.offset.toNat ≠ (soFar d).length) :
    r.writeafid d = ⟨-1, d, []⟩ := by
  have hb : r.block d = none := by
    rcases d with _ | s
    · exact if_neg fun h => ho (congrArg UInt64.toNat h)
    · exact if_neg ho
  rw [writeafid, hb]
  split <;> rfl

/-- **A write at the offset that `strlen` gives does its work exactly where it fits.** -/
theorem appends_soFar_iff (ho : r.offset.toNat = (soFar d).length) (hc : r.count ≠ 0) :
    (r.writeafid d).Appends r (soFar d) ↔ r.Fits := by
  obtain ⟨s, hb, hp, hlt, hlen⟩ := exists_block ho
  rw [writeafid_of_block hc hb]
  constructor
  · rintro ⟨hret, -, hsafe⟩
    have hint : r.count.toNat < 2 ^ 31 := by
      simp only [asInt] at hret
      split at hret <;> omega
    -- a block whose size has wrapped around has no room for the NUL
    have hnul : (Access.store s.length (r.offset.toNat + r.count.toNat) 1).Safe :=
      hsafe _ (by simp)
    exact ⟨hint, hnul.trans_lt hlt⟩
  · intro hf
    have hs := hlen hf
    have hroom : s.length = (soFar d).length + r.bytes.length + 1 := by rw [length_bytes, hs, ho]
    have hstore := storeAt_credential (hp (by omega)) hroom
    rw [length_bytes, ← ho] at hstore
    refine ⟨asInt_of_lt hf.1, congrArg some hstore, ?_⟩
    simp only [List.mem_cons, List.not_mem_nil, or_false]
    rintro a (rfl | rfl) <;> simp only [Access.Safe] <;> omega

/-- Where everything before was kept, there must be no NUL in it either. -/
theorem appends_iff (hd : BlockHolds D d) (ho : r.offset.toNat = D.length) (hc : r.count ≠ 0) :
    (r.writeafid d).Appends r D ↔ 0 ∉ D ∧ r.Fits := by
  by_cases h0 : 0 ∈ D
  · have hne : r.offset.toNat ≠ (soFar d).length := fun h =>
      (soFar_eq_iff hd).mp (ho.symm.trans h) h0
    rw [writeafid_of_offset hne]
    refine iff_of_false (fun h => ?_) fun h => h.1 h0
    have hret : (-1 : ℤ) = r.count.toNat := h.1
    omega
  · have hD := soFar_of_blockHolds hd h0
    have := appends_soFar_iff (hD ▸ ho) hc
    rw [hD] at this
    exact this.trans (and_iff_right h0).symm

/-- The handler of the backend's model does what is done here to the memory. -/
theorem writeafid_refines {σ : Type} (H : Host σ) (o : Ost σ Da) (hf : r.Fits)
    (hm : (H.malloc o.host).1 ≠ none) :
    (Op.writeafid H r.offset r.bytes o).2.f.datastr.map (· ++ [0]) =
        (r.writeafid (o.f.datastr.map (· ++ [0]))).datastr ∧
      ((Op.writeafid H r.offset r.bytes o).1 = .ok () ↔
        0 ≤ (r.writeafid (o.f.datastr.map (· ++ [0]))).ret) := by
  have hold : (o.f.datastr.map cstr).getD [] = soFar (o.f.datastr.map (· ++ [0])) := by
    rcases o.f.datastr with _ | D
    · rfl
    · exact (cstr_nul D).symm
  have hempty : r.bytes = [] ↔ r.count = 0 := by
    rw [← List.length_eq_zero_iff, length_bytes, ← UInt32.toNat_inj]
    rfl
  by_cases hok : r.count ≠ 0 ∧ r.offset.toNat = (soFar (o.f.datastr.map (· ++ [0]))).length
  · obtain ⟨hc, ho⟩ := hok
    obtain ⟨hret, hdata, -⟩ := (appends_soFar_iff ho hc).mpr hf
    obtain ⟨o', hop, hf'⟩ := Op.writeafid_appends (mt hempty.mp hc) (hold ▸ ho) hm
    rw [hop, hdata, hret]
    refine ⟨?_, iff_of_true rfl (Int.natCast_nonneg _)⟩
    rw [hf', hold, Option.map_some]
  · have hx : r.writeafid (o.f.datastr.map (· ++ [0])) = ⟨-1, o.f.datastr.map (· ++ [0]), []⟩ := by
      by_cases hc : r.count = 0
      · rw [writeafid, if_pos hc]
      · exact writeafid_of_offset fun ho => hok ⟨hc, ho⟩
    rw [Op.writeafid_refuses, hx]
    · exact ⟨rfl, iff_of_false (fun h => by cases h) (show ¬(0 : ℤ) ≤ -1 by decide)⟩
    · rw [hempty, hold]
      exact not_and_or.mp hok |>.imp not_not.mp id

theorem writeafid_refines_first : ∃ (o : Ost Unit Da) (r : AfidWrite), r.Fits ∧
    (Op.writeafid (.steady fun _ => {}) r.offset r.bytes o).2.f.datastr.map (· ++ [0]) =
      (r.writeafid (o.f.datastr.map (· ++ [0]))).datastr := by
  have hf : Fits ⟨0, 1, fun _ => 97, fun _ => 0⟩ := ⟨by decide, by decide⟩
  exact ⟨⟨⟨(), .empty, .empty, 0, []⟩, ⟨none⟩⟩, _, hf,
    (writeafid_refines _ _ hf (by simp [Host.steady])).1⟩

end AfidWrite

/-! ### A whole credential -/

/-- **The writes of a credential**: none is empty, and each comes where the last one
ended. -/
def InSequence : ℕ → List AfidWrite → Prop
  | _, [] => True
  | n, r :: rs => r.offset.toNat = n ∧ r.count ≠ 0 ∧ InSequence (n + r.count.toNat) rs

/-- Every write does its work. -/
def CredentialKept : Bytes → Option Bytes → List AfidWrite → Prop
  | _, _, [] => True
  | D, d, r :: rs =>
    (r.writeafid d).Appends r D ∧ CredentialKept (D ++ r.bytes) (r.writeafid d).datastr rs

/-- From any point on: the induction is on the writes, and carries that all of what has
been written is in the block. -/
theorem credentialKept_from {rs : List AfidWrite}
    (hd : BlockHolds D d) (h : InSequence D.length rs) : CredentialKept D d rs ↔
      (rs ≠ [] → 0 ∉ D) ∧ (∀ r ∈ rs, r.Fits) ∧ ∀ r ∈ rs.dropLast, 0 ∉ r.bytes := by
  induction rs generalizing D d with
  | nil => simp [CredentialKept]
  | cons r rs ih =>
    obtain ⟨ho, hc, hseq⟩ := h
    have hone := AfidWrite.appends_iff hd ho hc
    have hrest : (r.writeafid d).Appends r D →
        (CredentialKept (D ++ r.bytes) (r.writeafid d).datastr rs ↔ _) := fun hx =>
      ih (by rw [hx.2.1]; rfl) (by simpa using hseq)
    rw [CredentialKept, and_congr_right hrest, hone]
    -- only a further write sees the NULs of this one
    rcases rs with _ | ⟨r', rs⟩
    · simp
    · simp only [List.mem_append, not_or, ne_eq, reduceCtorEq, not_false_eq_true, forall_const,
        List.dropLast_cons_cons, List.forall_mem_cons]
      tauto

/-- **A credential is kept exactly where no data but the last has a NUL and every write
fits.** -/
theorem credential_kept_iff {rs : List AfidWrite} (h : InSequence 0 rs) :
    CredentialKept [] none rs ↔
      (∀ r ∈ rs, r.Fits) ∧ ∀ r ∈ rs.dropLast, 0 ∉ r.bytes := by
  have := credentialKept_from (D := []) (d := none) rfl h
  simpa using this

/-- A `Twrite` of one byte to fid 2. -/
def twriteByte (offset byte : UInt8) : Bytes :=
  [24, 0, 0, 0, 118, 0, 0, 2, 0, 0, 0, offset, 0, 0, 0, 0, 0, 0, 0, 1, 0, 0, 0, byte]

/-- A `Twrite` with the greatest count and no data. -/
def twriteHuge : Bytes :=
  [23, 0, 0, 0, 118, 0, 0, 2, 0, 0, 0, 0, 0, 0, 0, 0, 0, 0, 0, 255, 255, 255, 255]

/-- What a packet asks for, with the first byte at `data`. -/
def fieldsOf (pkt : Bytes) : Option (UInt64 × UInt32 × UInt8) :=
  (AfidWrite.ofPacket (fun _ => 0) (fun _ => 0) pkt).map fun r => (r.offset, r.count, r.data 0)

theorem ofPacket_of_fieldsOf {pkt : Bytes} {offset : UInt64} {count : UInt32} {byte : UInt8}
    (h : fieldsOf pkt = some (offset, count, byte)) : ∃ data fresh,
      AfidWrite.ofPacket (fun _ => 0) (fun _ => 0) pkt = some ⟨offset, count, data, fresh⟩ ∧
        data 0 = byte := by
  obtain ⟨⟨o, c, d, f⟩, hp, hf⟩ := Option.map_eq_some_iff.mp h
  simp only [Prod.mk.injEq] at hf
  obtain ⟨rfl, rfl, hd⟩ := hf
  exact ⟨d, f, hp, hd⟩

/-- Two bytes, one after the other. -/
theorem inSequence_two (d₁ d₂ f₁ f₂ : ℕ → UInt8) :
    InSequence 0 [⟨0, 1, d₁, f₁⟩, ⟨1, 1, d₂, f₂⟩] :=
  ⟨rfl, (by decide : (1 : UInt32) ≠ 0), rfl, (by decide : (1 : UInt32) ≠ 0), trivial⟩

/-- The letters `a` and `b` make a credential. -/
theorem credential_kept_ab : ∃ r₁ r₂ : AfidWrite,
    AfidWrite.ofPacket (fun _ => 0) (fun _ => 0) (twriteByte 0 97) = some r₁ ∧
      AfidWrite.ofPacket (fun _ => 0) (fun _ => 0) (twriteByte 1 98) = some r₂ ∧
      InSequence 0 [r₁, r₂] ∧ CredentialKept [] none [r₁, r₂] := by
  obtain ⟨d₁, f₁, hp₁, hd₁⟩ := ofPacket_of_fieldsOf
    (show fieldsOf (twriteByte 0 97) = some (0, 1, 97) by decide +kernel)
  obtain ⟨d₂, f₂, hp₂, -⟩ := ofPacket_of_fieldsOf
    (show fieldsOf (twriteByte 1 98) = some (1, 1, 98) by decide +kernel)
  have hseq := inSequence_two d₁ d₂ f₁ f₂
  refine ⟨_, _, hp₁, hp₂, hseq, (credential_kept_iff hseq).mpr ⟨?_, ?_⟩⟩
  · simp [AfidWrite.Fits]
  · simp [AfidWrite.bytes, hd₁]

/-- **A credential with a NUL in its first part**: both packets are taken by
`np_deserialize`, and the second write is refused. A single write with the greatest count
goes into a block without bytes. -/
theorem credential_lost :
    (∃ r₁ r₂ : AfidWrite,
      AfidWrite.ofPacket (fun _ => 0) (fun _ => 0) (twriteByte 0 0) = some r₁ ∧
      AfidWrite.ofPacket (fun _ => 0) (fun _ => 0) (twriteByte 1 98) = some r₂ ∧
      InSequence 0 [r₁, r₂] ∧ (r₂.writeafid (r₁.writeafid none).datastr).ret = -1 ∧
      ¬CredentialKept [] none [r₁, r₂]) ∧
    ∃ r : AfidWrite, AfidWrite.ofPacket (fun _ => 0) (fun _ => 0) twriteHuge = some r ∧
      InSequence 0 [r] ∧ (r.writeafid none).ret = -1 ∧
      .store 0 0 4294967295 ∈ (r.writeafid none).accesses := by
  constructor
  · obtain ⟨d₁, f₁, hp₁, hd₁⟩ := ofPacket_of_fieldsOf
      (show fieldsOf (twriteByte 0 0) = some (0, 1, 0) by decide +kernel)
    obtain ⟨d₂, f₂, hp₂, -⟩ := ofPacket_of_fieldsOf
      (show fieldsOf (twriteByte 1 98) = some (1, 1, 98) by decide +kernel)
    have hseq := inSequence_two d₁ d₂ f₁ f₂
    -- the first write stores the NUL, and behind it its own
    have hstored := ((AfidWrite.appends_iff (r := ⟨0, 1, d₁, f₁⟩) (D := []) (d := none) rfl rfl
      hseq.2.1).mpr ⟨by simp, by simp [AfidWrite.Fits]⟩).2.1
    have hret : (AfidWrite.writeafid ⟨1, 1, d₂, f₂⟩
        (AfidWrite.writeafid ⟨0, 1, d₁, f₁⟩ none).datastr).ret = -1 := by
      rw [hstored, AfidWrite.writeafid_of_offset]
      simp [AfidWrite.bytes, hd₁, soFar, cstr]
    refine ⟨_, _, hp₁, hp₂, hseq, hret, fun h => ?_⟩
    have := h.2.1.1
    rw [hret] at this
    cases this
  · obtain ⟨d, f, hp, -⟩ := ofPacket_of_fieldsOf
      (show fieldsOf twriteHuge = some (0, 4294967295, 0) by decide +kernel)
    have hc : (4294967295 : UInt32) ≠ 0 := by decide
    have hb : AfidWrite.block ⟨0, 4294967295, d, f⟩ none = some [] := by
      rw [AfidWrite.block, if_pos rfl, show ((4294967295 : UInt32) + 1).toNat = 0 by decide]
      rfl
    refine ⟨_, hp, ⟨rfl, hc, trivial⟩, ?_, ?_⟩
    · rw [AfidWrite.writeafid_of_block hc hb]
      rfl
    · rw [AfidWrite.writeafid_of_block hc hb]
      exact List.mem_cons_self

end Diod
