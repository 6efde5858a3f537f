import Diod.Wire.Format

/-!
# The cursor that packets are written and read with

`struct cbuf` of `np.c`: a packet buffer with a cursor `p` and an end `ep`, and
the functions `buf_put_*` and `buf_get_*` on it. The cursor is a pointer, here an
*integer* offset from the start of the packet: a length that turns negative on
its way through an `int` moves it backwards, and nothing in the code stops it.

An access that does not fit leaves a mark, `p = ep + 1`, and from then on nothing
fits any more; the functions then return zeros and `NULL`s, and the mark is
looked at once, at the end (`buf_check_overflow`).

The functions live in `Diod.BufM`, which adds to the buffer the one way out that
the decoder has, `goto error`.
-/

namespace Diod

/-! ### C strings and windows -/

/-- A C string: bytes without a NUL, which ends it. -/
structure CStr where
  bytes : Bytes
  nul : 0 ∉ bytes

/-- `strlen` -/
def CStr.strlen (s : CStr) : ℕ := s.bytes.length

/-- A decoded string: its length, and a pointer into the packet. -/
structure Npstr where
  len : UInt16
  str : Option ℤ
deriving DecidableEq

/-- The `n` bytes behind a pointer into a packet. -/
def window (pkt : Bytes) (p : Option ℤ) (n : ℕ) : Bytes :=
  p.elim [] fun off => (pkt.drop off.toNat).take n

/-- The bytes of a decoded string. -/
def Npstr.view (pkt : Bytes) (s : Npstr) : Bytes := window pkt s.str s.len.toNat

/-- The message that a decoded message and its packet stand for. -/
def Fcall.view (pkt : Bytes) (u : Fcall Npstr (Option ℤ)) : Msg :=
  u.map (Npstr.view pkt) fun n p => window pkt p n

/-- A message with its packet. -/
structure Npfcall where
  size : UInt32
  type : UInt8
  tag : UInt16
  pkt : Bytes
  u : Fcall Npstr (Option ℤ)

/-- A pointer to `n` bytes that all lie inside a packet of `size` bytes. -/
def Inside (size : ℕ) (p : Option ℤ) (n : ℕ) : Prop :=
  ∃ off, p = some off ∧ 0 ≤ off ∧ off + n ≤ size

/-- A number that is passed as an `int`. -/
def asInt (v : ℕ) : ℤ :=
  if v % 4294967296 < 2147483648 then (v % 4294967296 : ℕ)
  else (v % 4294967296 : ℕ) - 4294967296

variable {v : ℕ}

theorem asInt_of_lt (h : v < 2147483648) : asInt v = v := by
  have hv : v % 4294967296 = v := Nat.mod_eq_of_lt (by omega)
  simp only [asInt, hv, if_pos h]

theorem asInt_of_ge (h : 2147483648 ≤ v) (h' : v < 4294967296) : asInt v = v - 4294967296 := by
  simp only [asInt, Nat.mod_eq_of_lt h', if_neg (Nat.not_lt.mpr h)]

/-! ### The cursor -/

/-- `struct cbuf`: a packet, a cursor and an end, as offsets into the packet. -/
structure Cbuf where
  mem : Bytes
  p : ℤ
  ep : ℤ

/-- Code that runs on a buffer and may leave by `goto error`. -/
abbrev BufM := StateT Cbuf Option

theorem bufM_bind {α β : Type} {x : BufM α} {f : α → BufM β} {b b' : Cbuf} {a : α}
    (h : x b = some (a, b')) : (x >>= f) b = f a b' := by
  change (x b).bind (fun p => f p.1 p.2) = _
  rw [h]
  rfl

/-- `buf_init`, at an offset into the packet. -/
def bufInit (data datalen : ℤ) : BufM Unit :=
  modify fun b => { b with p := data, ep := data + datalen }

/-- `buf_check_overflow` -/
def bufCheckOverflow (b : Cbuf) : Bool := decide (b.p > b.ep)

/-- `buf_check_size`. What does not fit leaves the mark behind the end. -/
def bufCheckSize (len : ℤ) : BufM Bool := fun b =>
  if b.p + len > b.ep then
    some (false, if b.p ≤ b.ep then { b with p := b.ep + 1 } else b)
  else some (true, b)

/-- `buf_alloc` -/
def bufAlloc (len : ℤ) : BufM (Option ℤ) := do
  if ← bufCheckSize len then
    let b ← get
    set { b with p := b.p + len }
    return some b.p
  else return none

/-! ### Reading -/

/-- `b[0] | b[1] << 8 | …` -/
def orBytes : Bytes → ℕ
  | [] => 0
  | b :: bs => b.toNat ||| orBytes bs <<< 8

theorem orBytes_eq_leNat (bs : Bytes) : orBytes bs = leNat bs := by
  induction bs with
  | nil => rfl
  | cons b bs ih =>
    rw [orBytes, ih, or_shiftLeft_of_lt b.toNat_lt, leNat_cons]
    omega

/-- What the readers of integers share: `w` bytes off the cursor, or zero. -/
def bufGetInt (w : ℕ) : BufM ℕ := do
  if ← bufCheckSize w then
    let b ← get
    set { b with p := b.p + w }
    return orBytes ((b.mem.drop b.p.toNat).take w)
  else return 0

/-- `buf_get_int8` -/
def bufGetInt8 : BufM UInt8 := UInt8.ofNat <$> bufGetInt 1

/-- `buf_get_int16` -/
def bufGetInt16 : BufM UInt16 := UInt16.ofNat <$> bufGetInt 2

/-- `buf_get_int32` -/
def bufGetInt32 : BufM UInt32 := UInt32.ofNat <$> bufGetInt 4

/-- `buf_get_int64` -/
def bufGetInt64 : BufM UInt64 := UInt64.ofNat <$> bufGetInt 8

/-- `buf_get_str` -/
def bufGetStr : BufM Npstr := do
  let len ← bufGetInt16
  let str ← bufAlloc len.toNat
  return ⟨len, str⟩

/-- `buf_get_qid` -/
def bufGetQid : BufM Npqid := do
  let type ← bufGetInt8
  let version ← bufGetInt32
  let path ← bufGetInt64
  return ⟨type, version, path⟩

/-- The loops over the elements of a walk. -/
def bufTimes {α : Type} (x : BufM α) : ℕ → BufM (List α)
  | 0 => return []
  | n + 1 => return (← x) :: (← bufTimes x n)

/-! ### Writing -/

/-- The bytes `val`, `val >> 8`, … -/
def shrBytes (w val : ℕ) : Bytes := (List.range w).map fun i => UInt8.ofNat (val >>> (8 * i))

theorem shrBytes_eq_leBytes (w val : ℕ) : shrBytes w val = leBytes w val := by
  induction w generalizing val with
  | zero => rfl
  | succ w ih =>
    have hs : ∀ i, val >>> (8 * (i + 1)) = (val / 256) >>> (8 * i) := fun i => by
      rw [Nat.mul_add, Nat.mul_one, Nat.add_comm, Nat.shiftRight_add, Nat.shiftRight_eq_div_pow val]
    rw [leBytes, ← ih, shrBytes, List.range_succ_eq_map, List.map_cons, List.map_map]
    simp [shrBytes, Function.comp_def, hs]

/-- Store bytes at an offset into a packet. -/
def storeAt (mem : Bytes) (off : ℕ) (bs : Bytes) : Bytes :=
  mem.take off ++ (bs ++ mem.drop (off + bs.length))

/-- What the writers of integers share: `w` bytes at the cursor, if they fit. -/
def bufPutInt (w val : ℕ) : BufM Unit := do
  if ← bufCheckSize w then
    modify fun b => { b with mem := storeAt b.mem b.p.toNat (shrBytes w val), p := b.p + w }

/-- `buf_put_int8`. The writers return what they leave in the decoded message. -/
def bufPutInt8 (val : UInt8) : BufM UInt8 := do bufPutInt 1 val.toNat; return val

/-- `buf_put_int16` -/
def bufPutInt16 (val : UInt16) : BufM UInt16 := do bufPutInt 2 val.toNat; return val

/-- `buf_put_int32` -/
def bufPutInt32 (val : UInt32) : BufM UInt32 := do bufPutInt 4 val.toNat; return val

/-- `buf_put_int64` -/
def bufPutInt64 (val : UInt64) : BufM UInt64 := do bufPutInt 8 val.toNat; return val

/-- `memmove` to a pointer into the packet. -/
def bufMove (p : Option ℤ) (bs : Bytes) : BufM Unit :=
  p.forM fun off => modify fun b => { b with mem := storeAt b.mem off.toNat bs }

/-- `buf_put_str`. A `NULL` is written as the empty string. -/
def bufPutStr (s : Option CStr) : BufM Npstr := do
  let slen := (s.map CStr.strlen).getD 0
  if ← bufCheckSize (2 + slen) then
    bufPutInt 2 (UInt16.ofNat slen).toNat
    let str ← bufAlloc slen
    s.forM fun s => bufMove str s.bytes
    return ⟨.ofNat slen, str⟩
  else return ⟨0, none⟩

/-- `buf_put_qid` -/
def bufPutQid (qid : Npqid) : BufM Npqid := do
  return ⟨← bufPutInt8 qid.type, ← bufPutInt32 qid.version, ← bufPutInt64 qid.path⟩

end Diod
