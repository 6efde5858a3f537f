import Diod.Lib.Fitting
import Diod.Wire.RoundTrip
import Diod.Backend.Ops

/-!
# Directory entries

An `Rreaddir` carries directory entries one behind the other, each with a qid, an offset,
a type and a name. `np_serialize_p9dirent` writes one into the space that is left of a
buffer, or nothing if it does not fit; `np_deserialize_p9dirent` reads one off the front of
what was received.

The size that the first of them compares with the space is exact, so **what is written is
the longest prefix of the entries that fits** (`Diod.packDirents_eq`), and the second reads
these entries back and nothing else (`Diod.dirents_round_trip`).

What the reader is given comes from the other side, so it may be anything. A read outside of
the buffer, or a write behind the end of the caller's `name`, is a *fault* in the model, the
result `none`. **There is none** (`Diod.npDeserializeP9dirent_isSome`): the cursor is either
inside of the buffer or on the mark behind its end, and with the mark nothing is read.
-/

namespace Diod

open Cbuf

/-! ### Writing -/

/-- A directory entry as `np_serialize_p9dirent` gets it. -/
structure P9dirent where
  qid : Npqid
  offset : UInt64
  type : UInt8
  name : CStr

/-- `qid[13] offset[8] type[1] name[s]` -/
def P9dirent.bytes (d : P9dirent) : Bytes :=
  Npqid.codec.enc d.qid ++ leBytes 8 d.offset.toNat ++ leBytes 1 d.type.toNat ++
    leBytes 2 d.name.bytes.length ++ d.name.bytes

/-- The `size` that `np_serialize_p9dirent` computes. -/
def P9dirent.size (d : P9dirent) : ℕ := QIDSIZE + 8 + 1 + 2 + d.name.strlen

theorem length_bytes (d : P9dirent) : d.bytes.length = d.size := by
  simp [P9dirent.bytes, P9dirent.size, Npqid.codec, QIDSIZE, CStr.strlen]
  omega

theorem length_flatMap_bytes (ds : List P9dirent) :
    (ds.flatMap P9dirent.bytes).length = totalSize P9dirent.size ds := by
  induction ds with
  | nil => rfl
  | cons d ds ih => rw [List.flatMap_cons, List.length_append, length_bytes, ih, totalSize_cons]

/-- What `np_serialize_p9dirent` puts. -/
def putP9dirent (d : P9dirent) : BufM Npstr := do
  let _ ← bufPutQid d.qid
  let _ ← bufPutInt64 d.offset
  let _ ← bufPutInt8 d.type
  bufPutStr (some d.name)

/-- `np_serialize_p9dirent`, where the memory begins at `buf` -/
def npSerializeP9direntBuf (d : P9dirent) (buflen : ℤ) : BufM ℤ := do
  if asInt d.size > buflen then return 0
  bufInit 0 buflen
  let _ ← putP9dirent d
  let b ← get
  return if bufCheckOverflow b then 0 else b.p

theorem writes_putP9dirent (d : P9dirent) : Writes (putP9dirent d) d.bytes := by
  have h := (writes_qid d.qid).bind fun _ => (writes_int64 d.offset).bind fun _ =>
    (writes_int8 d.type).bind fun _ => writes_bufPutStr (some d.name)
  have hb : d.bytes = Npqid.codec.enc d.qid ++ ((Kind.int 8).codec.enc (.int d.offset.toNat) ++
      ((Kind.int 1).codec.enc (.int d.type.toNat) ++
        (leBytes 2 (argBytes (some d.name)).length ++ argBytes (some d.name)))) := by
    simp only [P9dirent.bytes, List.append_assoc]
    rfl
  rw [hb]
  exact h

/-- **An entry is written at the front of the space if it fits**, and otherwise nothing
is. -/
theorem npSerializeP9direntBuf_eq {d : P9dirent} {mem : Bytes} (hm : mem.length < 2147483648)
    (hd : d.size < 2147483648) : npSerializeP9direntBuf d mem.length ⟨mem, 0, 0⟩ =
      if d.size ≤ mem.length then some ((d.size : ℤ), mid d.bytes (mem.drop d.size))
      else some (0, ⟨mem, 0, 0⟩) := by
  rw [npSerializeP9direntBuf, asInt_of_lt hd]
  rcases Nat.lt_or_ge mem.length d.size with hlt | hle
  · rw [if_neg (Nat.not_le.mpr hlt), if_pos (by omega)]
    rfl
  · have hinit : bufInit 0 mem.length ⟨mem, 0, 0⟩ = some ((), mid [] mem) := by
      change some ((), Cbuf.mk mem 0 (0 + _)) = _
      simp [mid]
    obtain ⟨s, hs⟩ := writes_putP9dirent d [] mem (by rwa [length_bytes]) hm
    rw [length_bytes, List.nil_append] at hs
    have hend : bufCheckOverflow (mid d.bytes (mem.drop d.size)) = false := by
      simp [bufCheckOverflow, mid]
    have hp : (mid d.bytes (mem.drop d.size)).p = d.size := by
      simp [mid, length_bytes]
    rw [if_pos hle, if_neg (by omega), bufM_bind hinit, bufM_bind hs]
    change some ((if bufCheckOverflow _ = true then (0 : ℤ) else _), _) = _
    rw [hend, hp]
    rfl

/-- What the backends append to a reply is what is written here. -/
theorem op_npSerializeP9dirent_eq (d : P9dirent) (buflen : ℕ) :
    Op.npSerializeP9dirent d.qid d.offset d.type d.name.bytes buflen =
      if (d.size : ℤ) ≤ asInt buflen then d.bytes else [] := by
  rw [← length_bytes]
  rfl

/-! ### Filling a buffer -/

/-- Entries are written one after another into the space that is left, until one of them
returns 0: the bytes written, and the space that is left. -/
def packDirents : List P9dirent → Bytes → Option (Bytes × Bytes)
  | [], rest => some ([], rest)
  | d :: ds, rest => do
    let (i, b) ← npSerializeP9direntBuf d rest.length ⟨rest, 0, 0⟩
    if i = 0 then return ([], b.mem)
    let (bs, rest) ← packDirents ds (b.mem.drop i.toNat)
    return (b.mem.take i.toNat ++ bs, rest)

theorem packDirents_cons_of_lt {d : P9dirent} {ds : List P9dirent} {rest : Bytes}
    (hr : rest.length < 2147483648) (hd : d.size < 2147483648) (h : rest.length < d.size) :
    packDirents (d :: ds) rest = some ([], rest) := by
  rw [packDirents, npSerializeP9direntBuf_eq hr hd, if_neg (Nat.not_le.mpr h)]
  rfl

theorem packDirents_cons_of_le {d : P9dirent} {ds : List P9dirent} {rest bs rest' : Bytes}
    (hr : rest.length < 2147483648) (hd : d.size < 2147483648) (h : d.size ≤ rest.length)
    (hds : packDirents ds (rest.drop d.size) = some (bs, rest')) :
    packDirents (d :: ds) rest = some (d.bytes ++ bs, rest') := by
  have hpos : ((d.size : ℕ) : ℤ) ≠ 0 := by
    simp only [P9dirent.size, QIDSIZE]
    omega
  rw [packDirents, npSerializeP9direntBuf_eq hr hd, if_pos h]
  change (if ((d.size : ℕ) : ℤ) = 0 then _ else _) = _
  rw [if_neg hpos, Int.toNat_natCast]
  have hdrop : (mid d.bytes (rest.drop d.size)).mem.drop d.size = rest.drop d.size :=
    List.drop_left' (length_bytes d)
  have htake : (mid d.bytes (rest.drop d.size)).mem.take d.size = d.bytes :=
    List.take_left' (length_bytes d)
  change (packDirents ds (List.drop d.size _)).bind _ = _
  rw [hdrop, hds, htake]
  rfl

/-- **What is written is the longest prefix that fits.** -/
theorem packDirents_eq {ds : List P9dirent} (hds : ∀ d ∈ ds, d.size < 2147483648) {buf : Bytes}
    (hb : buf.length < 2147483648) :
    packDirents ds buf = some ((fitting P9dirent.size buf.length ds).flatMap P9dirent.bytes,
      buf.drop (totalSize P9dirent.size (fitting P9dirent.size buf.length ds))) := by
  induction ds generalizing buf with
  | nil => rfl
  | cons d ds ih =>
    obtain ⟨hd, hds⟩ := List.forall_mem_cons.mp hds
    rcases Nat.lt_or_ge buf.length d.size with h | h
    · rw [packDirents_cons_of_lt hb hd h, fitting_cons_of_lt h]
      rfl
    · have hrec := @ih hds (buf.drop d.size) (by rw [List.length_drop]; omega)
      rw [packDirents_cons_of_le hb hd h hrec, fitting_cons_of_le h, List.length_drop,
        List.flatMap_cons, totalSize_cons, List.drop_drop]

/-! ### Reading -/

/-- `x`, which reads `n` bytes at the cursor if they lie before the end of the buffer. A
read outside of the memory is a fault. -/
def bufRead {α : Type} (n : ℕ) (x : BufM α) : BufM α := fun b =>
  if b.p + n ≤ b.ep ∧ ¬(0 ≤ b.p ∧ b.p + n ≤ b.mem.length) then none else x b

/-- The `n` bytes at a pointer, which has to point into the memory. -/
def bufLoad (p : Option ℤ) (n : ℕ) : BufM Bytes := fun b =>
  p.bind fun off =>
    if 0 ≤ off ∧ off + n ≤ b.mem.length then some ((b.mem.drop off.toNat).take n, b) else none

/-- Store bytes at the start of another buffer, in which they have to have room. -/
def bufStore (buf bs : Bytes) : BufM Bytes := fun b =>
  if bs.length ≤ buf.length then some (storeAt buf 0 bs, b) else none

/-- What `np_deserialize_p9dirent` returns, and what it leaves in its arguments. -/
structure P9direntOut where
  ret : ℤ
  qid : Npqid
  offset : UInt64
  type : UInt8
  name : Bytes

/-- The end of `np_deserialize_p9dirent`, which copies the name. -/
def copyP9dirent (qid : Npqid) (offset : UInt64) (type : UInt8) (s9 : Npstr) (name : Bytes) :
    BufM P9direntOut := do
  let b ← get
  if bufCheckOverflow b ∨ s9.len.toNat ≥ name.length then
    return ⟨0, qid, offset, type, name⟩
  else
    let str ← bufLoad s9.str s9.len.toNat
    let name ← bufStore name (str ++ [0])
    return ⟨b.p, qid, offset, type, name⟩

/-- `np_deserialize_p9dirent`, where the memory begins at `buf`, on `namelen` bytes for the
name -/
def getP9dirent (name : Bytes) (buflen : ℤ) : BufM P9direntOut := do
  bufInit 0 buflen
  let qtype ← bufRead 1 bufGetInt8
  let version ← bufRead 4 bufGetInt32
  let path ← bufRead 8 bufGetInt64
  let offset ← bufRead 8 bufGetInt64
  let type ← bufRead 1 bufGetInt8
  let len ← bufRead 2 bufGetInt16
  let str ← bufAlloc len.toNat
  copyP9dirent ⟨qtype, version, path⟩ offset type ⟨len, str⟩ name

/-- `np_deserialize_p9dirent` of a buffer -/
def npDeserializeP9dirent (name buf : Bytes) : Option P9direntOut :=
  (getP9dirent name buf.length ⟨buf, 0, 0⟩).map (·.1)

/-! ### No fault -/

/-- **Where the cursor can be**: inside of the memory, or on the mark behind its end. -/
def Tidy (mem : Bytes) (b : Cbuf) : Prop := (∃ w r, w ++ r = mem ∧ b = mid w r) ∨ b = past mem

variable {α : Type} {mem : Bytes} {b : Cbuf}

theorem bufRead_mid {n : ℕ} (x : BufM α) (w r : Bytes) : bufRead n x (mid w r) = x (mid w r) := by
  refine if_neg ?_
  rintro ⟨hle, hn⟩
  refine hn ⟨Int.natCast_nonneg _, ?_⟩
  exact hle

theorem bufRead_past {n : ℕ} (x : BufM α) : bufRead n x (past mem) = x (past mem) := by
  refine if_neg ?_
  rintro ⟨hle, -⟩
  simp only [past] at hle
  omega

/-- Reading a number does not fault. -/
theorem tidy_read (n : ℕ) (f : ℕ → α) (h : Tidy mem b) :
    ∃ a b', bufRead n (f <$> bufGetInt n) b = some (a, b') ∧ Tidy mem b' := by
  rcases h with ⟨w, r, rfl, rfl⟩ | rfl
  · rw [bufRead_mid, bufM_map]
    rcases Nat.lt_or_ge r.length n with hn | hn
    · exact ⟨_, _, by rw [bufGetInt_mid_lt hn]; rfl, .inr rfl⟩
    · refine ⟨_, _, by rw [bufGetInt_mid hn]; rfl, .inl ⟨_, _, ?_, rfl⟩⟩
      simp
  · rw [bufRead_past, bufM_map]
    exact ⟨_, _, by rw [bufGetInt_past]; rfl, .inr rfl⟩

/-- Without the mark, the pointer that was set points to bytes of the buffer. -/
theorem tidy_alloc (n : ℕ) (h : Tidy mem b) :
    ∃ s b', bufAlloc n b = some (s, b') ∧ b'.mem = mem ∧
      (bufCheckOverflow b' = false → Inside mem.length s n) := by
  have hpast : bufCheckOverflow (past mem) = true := by simp [bufCheckOverflow, past]
  rcases h with ⟨w, r, rfl, rfl⟩ | rfl
  · rcases Nat.lt_or_ge r.length n with hn | hn
    · refine ⟨none, past (w ++ r), ?_, rfl, fun h => ?_⟩
      · rw [bufAlloc, bufM_bind (bufCheckSize_mid_lt hn)]
        rfl
      · rw [hpast] at h
        cases h
    · refine ⟨_, _, bufAlloc_mid hn, by simp [mid], fun _ => ⟨w.length, rfl, by omega, ?_⟩⟩
      rw [List.length_append]
      omega
  · refine ⟨none, past mem, ?_, rfl, fun h => ?_⟩
    · rw [bufAlloc, bufM_bind bufCheckSize_past]
      rfl
    · rw [hpast] at h
      cases h

/-- The copy of the name reads the bytes of the string, and writes one more than these. -/
theorem copyP9dirent_isSome {qid : Npqid} {offset : UInt64} {type : UInt8} {s9 : Npstr}
    {name : Bytes} (hmem : b.mem = mem)
    (hs : bufCheckOverflow b = false → Inside mem.length s9.str s9.len.toNat) :
    ∃ out b', copyP9dirent qid offset type s9 name b = some (out, b') ∧
      out.name.length = name.length := by
  by_cases h : bufCheckOverflow b ∨ s9.len.toNat ≥ name.length
  · refine ⟨⟨0, qid, offset, type, name⟩, b, ?_, rfl⟩
    change (if _ then _ else _ : BufM P9direntOut) b = _
    rw [if_pos h]
    rfl
  · obtain ⟨hov, hlen⟩ := not_or.mp h
    obtain ⟨off, hstr, h0, hin⟩ := hs (Bool.eq_false_iff.mpr hov)
    have hload : bufLoad s9.str s9.len.toNat b =
        some ((mem.drop off.toNat).take s9.len.toNat, b) := by
      rw [bufLoad, hstr, Option.bind_some, hmem, if_pos ⟨h0, hin⟩]
    have hroom : ((mem.drop off.toNat).take s9.len.toNat ++ [0]).length ≤ name.length := by
      rw [List.length_append, List.length_take, List.length_singleton]
      omega
    have hstore : bufStore name ((mem.drop off.toNat).take s9.len.toNat ++ [0]) b =
        some (storeAt name 0 ((mem.drop off.toNat).take s9.len.toNat ++ [0]), b) := if_pos hroom
    refine ⟨⟨b.p, qid, offset, type,
      storeAt name 0 ((mem.drop off.toNat).take s9.len.toNat ++ [0])⟩, b, ?_, ?_⟩
    · change (if _ then _ else _ : BufM P9direntOut) b = _
      rw [if_neg h, bufM_bind hload, bufM_bind hstore]
      rfl
    · simp only [storeAt, List.take_zero, List.nil_append, Nat.zero_add, List.length_append,
        List.length_drop] at hroom ⊢
      omega

/-- **No buffer makes `np_deserialize_p9dirent` read outside of it, or write behind the end
of the name.** -/
theorem npDeserializeP9dirent_isSome (name buf : Bytes) :
    ∃ out, npDeserializeP9dirent name buf = some out ∧ out.name.length = name.length := by
  have hinit : bufInit 0 buf.length ⟨buf, 0, 0⟩ = some ((), mid [] buf) := by
    change some ((), Cbuf.mk buf 0 (0 + _)) = _
    simp [mid]
  have h₀ : Tidy buf (mid [] buf) := .inl ⟨[], buf, rfl, rfl⟩
  obtain ⟨qtype, b₁, hr₁, h₁⟩ := tidy_read 1 UInt8.ofNat h₀
  obtain ⟨version, b₂, hr₂, h₂⟩ := tidy_read 4 UInt32.ofNat h₁
  obtain ⟨path, b₃, hr₃, h₃⟩ := tidy_read 8 UInt64.ofNat h₂
  obtain ⟨offset, b₄, hr₄, h₄⟩ := tidy_read 8 UInt64.ofNat h₃
  obtain ⟨type, b₅, hr₅, h₅⟩ := tidy_read 1 UInt8.ofNat h₄
  obtain ⟨len, b₆, hr₆, h₆⟩ := tidy_read 2 UInt16.ofNat h₅
  obtain ⟨str, b₇, hr₇, hmem, hin⟩ := tidy_alloc len.toNat h₆
  obtain ⟨out, b₈, hcopy, hname⟩ := @copyP9dirent_isSome _ _ ⟨qtype, version, path⟩ offset type
    ⟨len, str⟩ name hmem hin
  refine ⟨out, ?_, hname⟩
  rw [npDeserializeP9dirent, getP9dirent, bufGetInt8, bufGetInt16, bufGetInt32, bufGetInt64,
    bufM_bind hinit, bufM_bind hr₁, bufM_bind hr₂,
    bufM_bind hr₃, bufM_bind hr₄, bufM_bind hr₅, bufM_bind hr₆, bufM_bind hr₇, hcopy]
  rfl

/-! ### Reading back -/

/-- A number that was written is read. -/
theorem bufRead_written {n v : ℕ} (f : ℕ → α) (hv : v < 256 ^ n) (w r : Bytes) :
    bufRead n (f <$> bufGetInt n) (mid w (leBytes n v ++ r)) =
      some (f v, mid (w ++ leBytes n v) r) := by
  have hlen : n ≤ (leBytes n v ++ r).length := by simp
  rw [bufRead_mid, bufM_map, bufGetInt_mid hlen, List.take_left' (length_leBytes n v),
    List.drop_left' (length_leBytes n v), leNat_leBytes_of_lt hv]
  rfl

/-- The name that was written is copied, with a NUL behind it. -/
theorem copyP9dirent_written {d : P9dirent} {name w r : Bytes} (hw : w.length = 24)
    (hlen : d.name.strlen < 65536) (hname : d.name.strlen < name.length) :
    ∃ b', copyP9dirent d.qid d.offset d.type ⟨.ofNat d.name.strlen, some w.length⟩ name
        (mid (w ++ d.name.bytes) r) = some (⟨d.size, d.qid, d.offset, d.type,
          d.name.bytes ++ 0 :: name.drop (d.name.strlen + 1)⟩, b') := by
  have hl : (UInt16.ofNat d.name.strlen).toNat = d.name.strlen :=
    UInt16.toNat_ofNat_of_lt' (by change _ < 65536; omega)
  have hov : bufCheckOverflow (mid (w ++ d.name.bytes) r) = false := by
    simp [bufCheckOverflow, mid]
  have hload : bufLoad (some w.length) d.name.strlen (mid (w ++ d.name.bytes) r) =
      some (d.name.bytes, mid (w ++ d.name.bytes) r) := by
    refine (if_pos ⟨Int.natCast_nonneg _, ?_⟩).trans ?_
    · simp [mid, CStr.strlen]
    · simp [mid, CStr.strlen]
  have hstore : bufStore name (d.name.bytes ++ [0]) (mid (w ++ d.name.bytes) r) =
      some (d.name.bytes ++ 0 :: name.drop (d.name.strlen + 1), mid (w ++ d.name.bytes) r) := by
    refine (if_pos ?_).trans ?_
    · rw [List.length_append, List.length_singleton]
      exact hname
    · simp [storeAt, CStr.strlen]
  have hp : (mid (w ++ d.name.bytes) r).p = d.size := by
    simp [mid, hw, P9dirent.size, QIDSIZE, CStr.strlen]
  refine ⟨mid (w ++ d.name.bytes) r, ?_⟩
  change (if _ then _ else _ : BufM P9direntOut) _ = _
  rw [hl, if_neg (by simp [hov]; omega), bufM_bind hload, bufM_bind hstore, ← hp]
  rfl

/-- **An entry that was written is read back**, whatever follows it. -/
theorem npDeserializeP9dirent_bytes {d : P9dirent} {name : Bytes} (hlen : d.name.strlen < 65536)
    (hname : d.name.strlen < name.length) (r : Bytes) :
    npDeserializeP9dirent name (d.bytes ++ r) = some ⟨d.size, d.qid, d.offset, d.type,
      d.name.bytes ++ 0 :: name.drop (d.name.strlen + 1)⟩ := by
  obtain ⟨buf, hbuf⟩ : ∃ buf, buf = d.bytes ++ r := ⟨_, rfl⟩
  have hinit : bufInit 0 buf.length ⟨buf, 0, 0⟩ = some ((), mid [] buf) := by
    change some ((), Cbuf.mk buf 0 (0 + _)) = _
    simp [mid]
  have hb : buf = leBytes 1 d.qid.type.toNat ++ (leBytes 4 d.qid.version.toNat ++
      (leBytes 8 d.qid.path.toNat ++ (leBytes 8 d.offset.toNat ++ (leBytes 1 d.type.toNat ++
        (leBytes 2 d.name.strlen ++ (d.name.bytes ++ r)))))) := by
    rw [hbuf]
    simp [P9dirent.bytes, Npqid.codec, CStr.strlen]
  have hl : (UInt16.ofNat d.name.strlen).toNat = d.name.strlen :=
    UInt16.toNat_ofNat_of_lt' (by change _ < 65536; omega)
  obtain ⟨w, hwdef⟩ : ∃ w, w = [] ++ leBytes 1 d.qid.type.toNat ++ leBytes 4 d.qid.version.toNat ++
      leBytes 8 d.qid.path.toNat ++ leBytes 8 d.offset.toNat ++ leBytes 1 d.type.toNat ++
        leBytes 2 d.name.strlen := ⟨_, rfl⟩
  have hw : w.length = 24 := by simp [hwdef]
  have halloc : bufAlloc d.name.strlen (mid w (d.name.bytes ++ r)) =
      some (some (w.length : ℤ), mid (w ++ d.name.bytes) r) := by
    have h := bufAlloc_mid (w := w) (show d.name.strlen ≤ (d.name.bytes ++ r).length by
      simp [CStr.strlen])
    rwa [CStr.strlen, List.take_left, List.drop_left] at h
  obtain ⟨b', hcopy⟩ := copyP9dirent_written (r := r) hw hlen hname
  rw [← hbuf, npDeserializeP9dirent, getP9dirent, bufGetInt8, bufGetInt16, bufGetInt32,
    bufGetInt64, bufM_bind hinit, hb, bufM_bind (bufRead_written _ d.qid.type.toNat_lt _ _),
    bufM_bind (bufRead_written _ d.qid.version.toNat_lt _ _),
    bufM_bind (bufRead_written _ d.qid.path.toNat_lt _ _),
    bufM_bind (bufRead_written _ d.offset.toNat_lt _ _),
    bufM_bind (bufRead_written _ d.type.toNat_lt _ _),
    bufM_bind (bufRead_written _ (show d.name.strlen < 256 ^ 2 from hlen) _ _), ← hwdef, hl,
    bufM_bind halloc, UInt8.ofNat_toNat, UInt8.ofNat_toNat, UInt32.ofNat_toNat,
    UInt64.ofNat_toNat, UInt64.ofNat_toNat, hcopy]
  rfl

/-! ### The round trip -/

/-- What was read is an entry. Its name is the C string at the front of the buffer. -/
def P9direntOut.Shows (out : P9direntOut) (d : P9dirent) : Prop :=
  out.ret = d.size ∧ out.qid = d.qid ∧ out.offset = d.offset ∧ out.type = d.type ∧
    cstr out.name = d.name.bytes

/-- `np_deserialize_p9dirent` is called again and again on what is left, at most this many
times, with the same buffer for the name: what was read, and what is left in the end. -/
def unpackDirents : ℕ → Bytes → Bytes → Option (List P9direntOut × Bytes)
  | 0, _, bs => some ([], bs)
  | k + 1, name, bs =>
    if bs = [] then some ([], [])
    else do
      let out ← npDeserializeP9dirent name bs
      if out.ret = 0 then return ([], bs)
      let (l, bs) ← unpackDirents k out.name (bs.drop out.ret.toNat)
      return (out :: l, bs)

/-- **Entries that were written are read back one by one, and nothing is left.** -/
theorem unpackDirents_flatMap {ds : List P9dirent} {name : Bytes} {k : ℕ} (hk : ds.length ≤ k)
    (hds : ∀ d ∈ ds, d.name.strlen < name.length ∧ d.name.strlen < 65536) :
    ∃ outs, unpackDirents k name (ds.flatMap P9dirent.bytes) = some (outs, []) ∧
      List.Forall₂ P9direntOut.Shows outs ds := by
  induction ds generalizing name k with
  | nil =>
    refine ⟨[], ?_, .nil⟩
    cases k <;> rfl
  | cons d ds ih =>
    obtain ⟨⟨hname, hlen⟩, hds⟩ := List.forall_mem_cons.mp hds
    rcases k with _ | k
    · exact absurd hk (Nat.not_succ_le_zero _)
    obtain ⟨out, hout⟩ : ∃ out : P9direntOut, out = ⟨d.size, d.qid, d.offset, d.type,
      d.name.bytes ++ 0 :: name.drop (d.name.strlen + 1)⟩ := ⟨_, rfl⟩
    have hread : npDeserializeP9dirent name (d.bytes ++ ds.flatMap P9dirent.bytes) = some out :=
      hout ▸ npDeserializeP9dirent_bytes hlen hname _
    -- the buffer for the name keeps its length
    have hroom : out.name.length = name.length := by
      rw [hout]
      simp only [CStr.strlen, List.length_append, List.length_cons, List.length_drop] at hname ⊢
      omega
    obtain ⟨outs, hrec, hshow⟩ := @ih out.name _ (Nat.le_of_succ_le_succ hk)
      (by rw [hroom]; exact hds)
    have hpos : out.ret ≠ 0 := by
      rw [hout]
      simp only [P9dirent.size, QIDSIZE]
      omega
    have hret : out.ret.toNat = d.size := by rw [hout]; rfl
    have hne : d.bytes ++ ds.flatMap P9dirent.bytes ≠ [] := by
      intro h
      have h0 := congrArg List.length h
      rw [List.length_append, length_bytes, List.length_nil] at h0
      simp only [P9dirent.size, QIDSIZE] at h0
      omega
    refine ⟨out :: outs, ?_, .cons ?_ hshow⟩
    · rw [List.flatMap_cons, unpackDirents, if_neg hne, hread]
      change (if out.ret = 0 then _ else _) = _
      rw [if_neg hpos, hret, List.drop_left' (length_bytes d)]
      change (unpackDirents k out.name _).bind _ = _
      rw [hrec]
      rfl
    · rw [hout]
      exact ⟨rfl, rfl, rfl, rfl, cstr_append_nul d.name.nul _⟩

/-- **Directory entries survive the trip.** Entries are written one after another into a
buffer until one does not fit, and the bytes that were written are read again: what comes
out is the longest prefix of the entries that fits, each with its qid, offset, type and
name, and no byte is left. The reader stays inside of its buffer, and inside of the
`namelen` bytes for the name, whatever the bytes are. -/
theorem dirents_round_trip :
    (∀ (ds : List P9dirent) (name buf : Bytes), buf.length < 2147483648 →
      (∀ d ∈ ds, d.name.strlen < name.length ∧ d.name.strlen < 65536) →
      ∃ k bs rest, k ≤ ds.length ∧ totalSize P9dirent.size (ds.take k) ≤ buf.length ∧
        (∀ j ≤ ds.length, totalSize P9dirent.size (ds.take j) ≤ buf.length → j ≤ k) ∧
        packDirents ds buf = some (bs, rest) ∧ bs.length + rest.length = buf.length ∧
        ∀ calls, k ≤ calls → ∃ outs, unpackDirents calls name bs = some (outs, []) ∧
          List.Forall₂ P9direntOut.Shows outs (ds.take k)) ∧
    ∀ name buf : Bytes, ∃ out, npDeserializeP9dirent name buf = some out ∧
      out.name.length = name.length := by
  refine ⟨fun ds name buf hb hds => ?_, npDeserializeP9dirent_isSome⟩
  obtain ⟨ps, hps⟩ : ∃ ps, ps = fitting P9dirent.size buf.length ds := ⟨_, rfl⟩
  have hpre : ps <+: ds := hps ▸ fitting_isPrefix _ _ _
  have htake : ds.take ps.length = ps := (List.prefix_iff_eq_take.mp hpre).symm
  have hsize : totalSize P9dirent.size ps ≤ buf.length := hps ▸ totalSize_fitting_le _ _ _
  have hsmall : ∀ d ∈ ds, d.size < 2147483648 := fun d hd => by
    have h := (hds d hd).2
    simp only [P9dirent.size, QIDSIZE]
    omega
  have hpack := packDirents_eq hsmall hb
  rw [← hps] at hpack
  have hlen := length_flatMap_bytes ps
  refine ⟨ps.length, _, _, hpre.length_le, by rwa [htake], fun j hj hle => ?_, hpack, ?_, ?_⟩
  · rw [hps]
    exact le_length_fitting hj hle
  · rw [hlen, List.length_drop]
    omega
  · intro calls hcalls
    rw [htake]
    exact unpackDirents_flatMap hcalls fun d hd => hds d (hpre.mem hd)

/-- The entries `abc`, `def` and `ghi`. -/
def abcDefGhi : List P9dirent :=
  [⟨⟨1, 2, 3⟩, 0, 1, ⟨[97, 98, 99], by decide⟩⟩, ⟨⟨4, 5, 6⟩, 50, 2, ⟨[100, 101, 102], by decide⟩⟩,
    ⟨⟨7, 8, 9⟩, 100, 3, ⟨[103, 104, 105], by decide⟩⟩]

/-- Into 80 bytes go two entries of 27. -/
theorem dirents_round_trip_two : ∃ bs rest outs,
    packDirents abcDefGhi (List.replicate 80 0) = some (bs, rest) ∧
      unpackDirents 3 (List.replicate 128 0) bs = some (outs, []) ∧
      List.Forall₂ P9direntOut.Shows outs (abcDefGhi.take 2) := by
  have hnames : ∀ d ∈ abcDefGhi, d.name.strlen < (List.replicate 128 (0 : UInt8)).length ∧
      d.name.strlen < 65536 := by
    rw [List.length_replicate]
    decide
  obtain ⟨k, bs, rest, hk, hsize, hmax, hpack, -, hun⟩ := dirents_round_trip.1 abcDefGhi
    (List.replicate 128 0) (List.replicate 80 0) (by simp) hnames
  have h2 : 2 ≤ k := hmax 2 (by decide) (by decide)
  have h3 : k < 3 := by
    refine lt_of_le_of_ne hk ?_
    rintro rfl
    exact absurd hsize (by decide)
  obtain rfl : k = 2 := by omega
  obtain ⟨outs, hout, hshow⟩ := hun 3 (by decide)
  exact ⟨bs, rest, outs, hpack, hout, hshow⟩

end Diod
