import Diod.Npclient.Calls
import Diod.Npfs.Dirent

/-!
# Reading a directory

A client reads a directory entry by entry with `npc_readdir_r`, out of a buffer that is
filled with one `Treaddir` after another. What ties the two sides together is the offset of
an entry: the client keeps that of the last entry it returned and asks for what follows, and
`np_ctl_readdir` gives every file the number of the next one as its offset.

**The client sees the list of files, as one cursor goes through it** (`Diod.sim_dirRun`):
where the replies are cut does not matter, every file is returned once and in order, and
`npc_seekdir` goes back to where `npc_telldir` was called (`Diod.readdir_iterates`). What is
needed for this is that every entry fits into the buffer on its own. Otherwise the first one
that does not is taken for the end.

The invariant says **what of the list is still in the buffer**: between `buf_used` and
`buf_len` there are the next entries, some number of them, and nothing else.

The model of the client is faithful where an offset can be a position: a read outside of its
buffer is a crash.
-/

namespace Diod

open Prog

/-! ### The server -/

/-- A file of a directory, as `np_ctl_readdir` looks at it. -/
structure CtlEntry where
  qid : Npqid
  name : CStr

/-- The entry that is written for the file with a number. -/
def CtlEntry.dirent (ff : CtlEntry) (off : ℕ) : P9dirent where
  qid := ff.qid
  offset := .ofNat (off + 1)
  type := if ff.qid.type &&& Qtdir ≠ 0 then Op.DT_DIR else Op.DT_REG
  name := ff.name

/-- The loop of `np_ctl_readdir`, in a directory that may have others below it -/
def ctlDirLoop (offset count : ℕ) : ℕ → List CtlEntry → Bytes → Bytes
  | _, [], bs => bs
  | off, ff :: ffs, bs =>
    if off < offset then ctlDirLoop offset count (off + 1) ffs bs
    else
      let d := ff.dirent off
      let e := Op.npSerializeP9dirent d.qid d.offset d.type d.name.bytes (count - bs.length)
      if e = [] then bs else ctlDirLoop offset count (off + 1) ffs (bs ++ e)

/-- The other end of the connection, where `np_ctl_readdir` answers. -/
def ctlRpc {X : Type} (child : List CtlEntry) : Msg → X → Msg × X
  | .treaddir _ offset count, x =>
    let bs := ctlDirLoop offset.toNat count.toNat 0 child []
    (.rreaddir (.ofNat bs.length) bs, x)
  | _, x => (.rlerror (.ofNat EIO), x)

/-- The files of the root directory, which are all of one kind, as such a list. -/
def Npfile.entry (ff : Npfile) : CtlEntry := ⟨ctlQid (some ff), CStr.ofBytes ff.name⟩

/-- **The loop over the root directory is a case of the general one.** -/
theorem ctlReaddirLoop_eq (offset count : ℕ) {ffs : List Npfile} (h : ∀ ff ∈ ffs, 0 ∉ ff.name)
    (off : ℕ) (bs : Bytes) : Op.ctlReaddirLoop offset count off ffs bs =
      ctlDirLoop offset count off (ffs.map Npfile.entry) bs := by
  induction ffs generalizing off bs with
  | nil => rfl
  | cons ff ffs ih =>
    obtain ⟨hff, hffs⟩ := List.forall_mem_cons.mp h
    have hname : ff.entry.name.bytes = ff.name := argBytes_ofBytes hff
    have htype : (ff.entry.dirent off).type = Op.DT_REG :=
      if_neg (show ¬(Qttmp &&& Qtdir ≠ 0) by decide)
    simp only [Op.ctlReaddirLoop, List.map_cons, ctlDirLoop, htype, ih hffs]
    rw [show (ff.entry.dirent off).name.bytes = ff.name from hname]
    rfl

/-- What `np_ctl_readdir` answers is what the client is given here. -/
theorem npCtlReaddir_eq {σ X : Type} {H : Host σ} {K : Ctlroot} {o : Ost σ CtlFid} (x : X)
    (fid : UInt32) {offset : UInt64} {count : UInt32} (hm : (H.malloc o.host).1 ≠ none)
    (h : ∀ ff ∈ Op.ctlChild K o.f, 0 ∉ ff.name) :
    (Op.npCtlReaddir H K offset count o).1 = .ok
      (ctlRpc ((Op.ctlChild K o.f).map Npfile.entry) (.treaddir fid offset count) x).1 := by
  obtain ⟨-, ha⟩ | ⟨hnone, -⟩ := Op.allocOr_cases H ENOMEM o
  · rw [Op.npCtlReaddir, Op.fid_bind, bind_of_ok ha]
    simp only [ctlReaddirLoop_eq _ _ h]
    rfl
  · exact absurd hnone hm

/-- The entries of a directory, from a number on. -/
def ctlDirents : ℕ → List CtlEntry → List P9dirent
  | _, [] => []
  | off, ff :: ffs => ff.dirent off :: ctlDirents (off + 1) ffs

theorem getElem?_ctlDirents (off : ℕ) (ffs : List CtlEntry) (k : ℕ) :
    (ctlDirents off ffs)[k]? = ffs[k]?.map fun ff => ff.dirent (off + k) := by
  induction ffs generalizing off k with
  | nil => rfl
  | cons ff ffs ih =>
    rcases k with _ | k
    · rfl
    · rw [ctlDirents, List.getElem?_cons_succ, ih, List.getElem?_cons_succ,
        show off + 1 + k = off + (k + 1) by omega]

theorem length_ctlDirents (off : ℕ) (ffs : List CtlEntry) :
    (ctlDirents off ffs).length = ffs.length := by
  induction ffs generalizing off with
  | nil => rfl
  | cons ff ffs ih => rw [ctlDirents, List.length_cons, ih, List.length_cons]

/-- **A reply holds the longest run of entries from `offset` on that fits.** -/
theorem ctlDirLoop_eq {offset count : ℕ} (hc : count < 2147483648) (ffs : List CtlEntry)
    (off : ℕ) (bs : Bytes) (hb : bs.length ≤ count) : ctlDirLoop offset count off ffs bs =
      bs ++ (fitting P9dirent.size (count - bs.length)
        ((ctlDirents off ffs).drop (offset - off))).flatMap P9dirent.bytes := by
  induction ffs generalizing off bs with
  | nil => simp [ctlDirLoop, ctlDirents]
  | cons ff ffs ih =>
    rw [ctlDirLoop, ctlDirents]
    by_cases hlt : off < offset
    · obtain ⟨k, hk⟩ : ∃ k, offset - off = k + 1 := ⟨offset - off - 1, by omega⟩
      rw [if_pos hlt, ih (off + 1) bs hb, hk, List.drop_succ_cons,
        show offset - (off + 1) = k by omega]
    · rw [if_neg hlt, show offset - off = 0 by omega, List.drop_zero]
      have he := op_npSerializeP9dirent_eq (ff.dirent off) (count - bs.length)
      rw [asInt_of_lt (by omega)] at he
      by_cases hfit : (ff.dirent off).size ≤ count - bs.length
      · have hlen := length_bytes (ff.dirent off)
        have hne : (ff.dirent off).bytes ≠ [] := by
          intro h0
          rw [h0, List.length_nil] at hlen
          simp only [P9dirent.size, QIDSIZE] at hlen
          omega
        rw [if_pos (by omega)] at he
        simp only [he]
        rw [if_neg hne, ih (off + 1) _ (by rw [List.length_append]; omega),
          fitting_cons_of_le hfit, List.flatMap_cons, List.length_append,
          show offset - (off + 1) = 0 by omega, List.drop_zero, List.append_assoc, hlen,
          show count - (bs.length + (ff.dirent off).size) =
            count - bs.length - (ff.dirent off).size by omega]
      · rw [if_neg (by omega)] at he
        simp only [he]
        rw [if_pos trivial, fitting_cons_of_lt (by omega), List.flatMap_nil, List.append_nil]

/-! ### The client -/

/-- `PATH_MAX` -/
def PATH_MAX : ℕ := 4096

/-- `Npcfid` of a directory that was opened with `npc_opendir`, with its buffer. -/
structure Npcdir where
  f : Npcfid
  buf : Option Bytes
  (bufSize bufLen bufUsed : ℤ)

/-- What is set of a `struct dirent`. Its name is the C string in `d_name`. -/
structure NpcDirent where
  dOff : UInt64
  dType : UInt8
  dIno : UInt64
  dName : Bytes
deriving DecidableEq

/-- The directory that `npc_opendir` returns, with what `malloc` gave it for a buffer. -/
def npcDirOpened (f : Npcfid) (buf : Bytes) : Npcdir :=
  ⟨{ f with offset := 0 }, some buf, buf.length, 0, 0⟩

/-- A `u64` that is returned as a `long`. -/
def asLong (v : UInt64) : ℤ := if v.toNat < 2 ^ 63 then v.toNat else (v.toNat : ℤ) - 2 ^ 64

/-- `npc_seekdir` -/
def npcSeekdir (d : Npcdir) (offset : ℤ) : Npcdir :=
  { d with f := { d.f with offset := .ofNat (offset % 2 ^ 64).toNat }, bufUsed := d.bufLen }

/-- `npc_telldir` -/
def npcTelldir (d : Npcdir) : ℤ := asLong d.f.offset

namespace Npc

variable {X : Type}

/-- The second half of `npc_readdir_r`: one entry out of the buffer. The `dName` are the
`PATH_MAX + 1` bytes that are taken to be at `entry->d_name`. -/
def readdirEntry (dName buf : Bytes) (d : Npcdir) :
    Prog (Npcfsys X) (Npcdir × ℕ × Option NpcDirent) :=
  -- the pointer and the length are those of a part of the buffer
  if 0 ≤ d.bufUsed ∧ d.bufLen ≤ buf.length then
    match npDeserializeP9dirent dName ((buf.take d.bufLen.toNat).drop d.bufUsed.toNat) with
    | none => .crash
    | some out =>
      if out.ret = 0 then pure (d, EIO, none)
      else pure ({ d with f := { d.f with offset := out.offset }, bufUsed := d.bufUsed + out.ret },
        0, some ⟨out.offset, out.type, out.qid.path, cstr out.name⟩)
  else .crash

/-- What `npc_readdir_r` does with the reply to its `Treaddir`. -/
def readdirFilled (dName buf : Bytes) (d : Npcdir) (rc : Msg) :
    Prog (Npcfsys X) (Npcdir × ℕ × Option NpcDirent) := do
  -- NP_ASSERT (rc->u.rreaddir.count <= count)
  .when (ioCount rc > .ofNat d.bufSize.toNat) .crash
  let buf := storeAt buf 0 ((ioData rc).take (ioCount rc).toNat)
  let d := { d with buf := some buf, bufLen := asInt (ioCount rc).toNat }
  if d.bufLen < 0 then do
    let c ← .read
    pure (d, c.ecode, none)
  else if d.bufLen = 0 then pure (d, 0, none)
  else readdirEntry dName buf { d with bufUsed := 0 }

variable (rpc : Msg → X → Msg × X)

/-- `npc_readdir_r`: the error number, and the entry, where there is none at the end of the
directory. -/
def npcReaddirR (dName : Bytes) (d : Npcdir) :
    Prog (Npcfsys X) (Npcdir × ℕ × Option NpcDirent) :=
  match d.buf with
  | none => pure (d, EINVAL, none)
  | some buf =>
    if d.bufUsed ≥ d.bufLen then do
      match ← (npcReaddir rpc d.f d.f.offset (.ofNat d.bufSize.toNat)).attempt with
      | none => do
        let c ← .read
        pure ({ d with bufLen := -1 }, c.ecode, none)
      | some rc => readdirFilled dName buf d rc
    else readdirEntry dName buf d

end Npc

/-! ### Programs that read a directory -/

/-- What a program does with an open directory: read an entry, remember where it is, go back
to where it was. -/
inductive DirOp where
  | read
  | tell
  | seek (i : ℕ)

/-- The program so far: the directory, the positions it has been told, and what `npc_readdir_r`
has returned. -/
structure DirRun where
  dir : Npcdir
  told : List ℤ := []
  out : List (ℕ × Option NpcDirent) := []

/-- One step of a program. -/
def dirStep {X : Type} (rpc : Msg → X → Msg × X) (dName : Bytes) (s : DirRun) :
    DirOp → Prog (Npcfsys X) DirRun
  | .read => do
    let (d, e, r) ← Npc.npcReaddirR rpc dName s.dir
    pure { s with dir := d, out := s.out ++ [(e, r)] }
  | .tell => pure { s with told := s.told ++ [npcTelldir s.dir] }
  | .seek i =>
    match s.told[i]? with
    | some t => pure { s with dir := npcSeekdir s.dir t }
    | none => pure s

/-- One step after another. -/
def dirRun {X : Type} (rpc : Msg → X → Msg × X) (dName : Bytes) :
    List DirOp → DirRun → Prog (Npcfsys X) DirRun
  | [], s => pure s
  | op :: ops, s => do
    let s ← dirStep rpc dName s op
    dirRun rpc dName ops s

/-- **A cursor in a list**: where it is, where it has been remembered to be, and what has been
read. -/
structure Cursor (α : Type) where
  pos : ℕ := 0
  told : List ℕ := []
  out : List (Option α) := []

/-- The same step of a program, on a cursor. -/
def Cursor.step {α : Type} (l : List α) (c : Cursor α) : DirOp → Cursor α
  | .read =>
    { c with
      pos := if c.pos < l.length then c.pos + 1 else c.pos
      out := c.out ++ [l[c.pos]?] }
  | .tell => { c with told := c.told ++ [c.pos] }
  | .seek i =>
    match c.told[i]? with
    | some t => { c with pos := t }
    | none => c

/-- The whole program, on a cursor. -/
def Cursor.run {α : Type} (l : List α) (ops : List DirOp) (c : Cursor α) : Cursor α :=
  ops.foldl (Cursor.step l) c

section Cursor

variable {α : Type} {l : List α} {c : Cursor α}

/-- Reading on goes through the list, and stays at its end. -/
theorem Cursor.run_reads (l : List α) (n : ℕ) {c : Cursor α} (hc : c.pos ≤ l.length) :
    (c.run l (List.replicate n .read)).out =
        c.out ++ (List.range n).map (fun i => l[c.pos + i]?) ∧
      (c.run l (List.replicate n .read)).pos = min (c.pos + n) l.length ∧
      (c.run l (List.replicate n .read)).told = c.told := by
  induction n generalizing c with
  | zero => simp [run, hc]
  | succ n ih =>
    obtain ⟨hout, hpos, htold⟩ := ih (c := c.step l .read) (by simp only [step]; split <;> omega)
    refine ⟨hout.trans ?_, hpos.trans ?_, htold⟩
    · have hnext : ∀ i, l[(c.step l .read).pos + i]? = l[c.pos + (i + 1)]? := by
        intro i
        simp only [step]
        rcases Nat.lt_or_ge c.pos l.length with h | h
        · rw [if_pos h, Nat.add_assoc, Nat.add_comm 1]
        · rw [if_neg (by omega), List.getElem?_eq_none (by omega),
            List.getElem?_eq_none (by omega)]
      simp only [hnext, List.range_succ_eq_map, List.map_cons, List.map_map, Nat.add_zero]
      simp [step, Function.comp_def]
    · simp only [step]
      split <;> omega

/-- What has been remembered is not forgotten. -/
theorem Cursor.told_run (l : List α) (ops : List DirOp) (c : Cursor α) :
    c.told <+: (c.run l ops).told := by
  induction ops generalizing c with
  | nil => exact List.prefix_rfl
  | cons op ops ih =>
    refine List.IsPrefix.trans ?_ (ih (c.step l op))
    cases op with
    | read => exact List.prefix_rfl
    | tell => exact List.prefix_append _ _
    | seek i =>
      simp only [step]
      split
      · exact List.prefix_rfl
      · exact List.prefix_rfl

/-- Going back to where the cursor was remembered first, and reading on from there. -/
theorem Cursor.run_seek (l : List α) {k : ℕ} (hk : k ≤ l.length) (ops : List DirOp) (n : ℕ) :
    ∃ out, (run l (List.replicate k .read ++ .tell :: (ops ++ .seek 0 :: List.replicate n .read))
      {}).out = out ++ (List.range n).map fun i => l[k + i]? := by
  obtain ⟨-, hpos, htold⟩ := run_reads l k (show ({} : Cursor α).pos ≤ l.length from Nat.zero_le _)
  rw [Nat.zero_add, Nat.min_eq_left hk] at hpos
  obtain ⟨c, hc⟩ : ∃ c, c = (run l (List.replicate k .read) ({} : Cursor α)).step l .tell :=
    ⟨_, rfl⟩
  have htell : c.told = [k] := by
    rw [hc]
    simp only [step, htold, hpos, List.nil_append]
  have hseek : (c.run l ops).told[0]? = some k := by
    obtain ⟨t, ht⟩ := c.told_run l ops
    rw [← ht, htell]
    rfl
  have hback : ((c.run l ops).step l (.seek 0)).pos = k := by
    simp only [step, hseek]
  obtain ⟨hout, -⟩ := run_reads l n (c := (c.run l ops).step l (.seek 0)) (hback.trans_le hk)
  rw [hback] at hout
  refine ⟨_, Eq.trans ?_ hout⟩
  simp only [run, List.foldl_append, List.foldl_cons, hc]

end Cursor

/-! ### The buffer -/

/-- The entry that a program is given. -/
def P9dirent.entry (d : P9dirent) : NpcDirent := ⟨d.offset, d.type, d.qid.path, d.name.bytes⟩

/-- **An open directory that stands before the entry `k`**: this is the offset of the last one
that was returned, and in the buffer there are the next entries, some number of them. -/
structure Stands (ds : List P9dirent) (size k : ℕ) (d : Npcdir) : Prop where
  le : k ≤ ds.length
  offset : d.f.offset = .ofNat k
  bufSize : d.bufSize = size
  used : 0 ≤ d.bufUsed
  buf : ∃ buf, d.buf = some buf ∧ buf.length = size ∧ 0 ≤ d.bufLen ∧ d.bufLen ≤ size ∧
    ∃ m, (buf.take d.bufLen.toNat).drop d.bufUsed.toNat =
      ((ds.drop k).take m).flatMap P9dirent.bytes

/-- A list of entries as the client needs it: the offsets are positions, the names fit into
`d_name` and the entries into the buffer. -/
structure Listing (size : ℕ) (ds : List P9dirent) : Prop where
  length : ds.length < 2147483648
  offset : ∀ (k : ℕ) (d : P9dirent), ds[k]? = some d → d.offset = .ofNat (k + 1)
  name : ∀ d ∈ ds, d.name.strlen ≤ PATH_MAX
  fits : ∀ d ∈ ds, d.size ≤ size

theorem stands_opened (ds : List P9dirent) (f : Npcfid) (buf : Bytes) :
    Stands ds buf.length 0 (npcDirOpened f buf) where
  le := Nat.zero_le _
  offset := rfl
  bufSize := rfl
  used := le_refl _
  buf := ⟨buf, rfl, rfl, le_refl _, Int.natCast_nonneg _, 0, rfl⟩

section Stands

variable {X : Type} {ds : List P9dirent} {size k : ℕ} {d : Npcdir} {dName : Bytes}

variable {buf : Bytes}

/-- One entry out of the buffer. -/
theorem Stands.entry (hds : Listing size ds) (hd : dName.length = PATH_MAX + 1)
    (h : Stands ds size k d) (hbuf : d.buf = some buf)
    (hlt : d.bufUsed < d.bufLen) (c : Npcfsys X) :
    ∃ e d', ds[k]? = some e ∧ Stands ds size (k + 1) d' ∧
      Npc.readdirEntry dName buf d c = (.ok (d', 0, some e.entry), c) := by
  obtain ⟨buf', hb, hlen, h0, hle, m, hwin⟩ := h.buf
  obtain rfl : buf = buf' := Option.some.inj (hbuf.symm.trans hb)
  have hused := h.used
  -- the part of the buffer is not empty, so there is an entry in it
  have hne : (buf.take d.bufLen.toNat).drop d.bufUsed.toNat ≠ [] := by
    intro h0
    have := congrArg List.length h0
    simp only [List.length_drop, List.length_take, List.length_nil] at this
    omega
  rcases hdrop : ds.drop k with _ | ⟨e, ds'⟩
  · rw [hwin, hdrop] at hne
    simp at hne
  rcases m with _ | m
  · rw [hwin] at hne
    simp at hne
  have hk : ds[k]? = some e := by
    rw [← List.head?_drop, hdrop]
    rfl
  have hmem : e ∈ ds := List.mem_of_getElem? hk
  have hds' : ds.drop (k + 1) = ds' := by
    rw [← List.drop_drop, hdrop]
    rfl
  rw [hdrop, List.take_succ_cons, List.flatMap_cons] at hwin
  have hname := hds.name e hmem
  simp only [PATH_MAX] at hname hd
  have hdec := @npDeserializeP9dirent_bytes e dName (by omega) (by omega)
    ((ds'.take m).flatMap P9dirent.bytes)
  have hpos : (e.size : ℤ) ≠ 0 := by
    simp only [P9dirent.size, QIDSIZE]
    omega
  refine ⟨e, { d with
    f := { d.f with offset := e.offset }
    bufUsed := d.bufUsed + e.size }, hk, ?_, ?_⟩
  · refine ⟨?_, hds.offset k e hk, h.bufSize, by change 0 ≤ d.bufUsed + _; omega, buf, hb, hlen, h0,
      hle, m, ?_⟩
    · exact (List.getElem?_eq_some_iff.mp hk).1
    · change (buf.take d.bufLen.toNat).drop (d.bufUsed + e.size).toNat = _
      rw [show (d.bufUsed + e.size).toNat = d.bufUsed.toNat + e.size by omega, ← List.drop_drop,
        hwin, hds', ← length_bytes e, List.drop_left]
  · rw [Npc.readdirEntry, if_pos ⟨h.used, by omega⟩, hwin, hdec]
    simp only
    rw [if_neg hpos, cstr_append_nul e.name.nul]
    rfl

/-- What the client is sent when nothing is left in its buffer. -/
theorem ctlRpc_readdir (child : List CtlEntry) (hsize : size < 2147483648) (fid : UInt32)
    (hk : k < 2147483648) (x : X) :
    ctlRpc child (.treaddir fid (.ofNat k) (.ofNat size)) x =
      let bs := (fitting P9dirent.size size ((ctlDirents 0 child).drop k)).flatMap P9dirent.bytes
      (.rreaddir (.ofNat bs.length) bs, x) := by
  have ho : (UInt64.ofNat k).toNat = k := UInt64.toNat_ofNat_of_lt' (by change _ < 2 ^ 64; omega)
  have hs : (UInt32.ofNat size).toNat = size :=
    UInt32.toNat_ofNat_of_lt' (by change _ < 2 ^ 32; omega)
  have h := @ctlDirLoop_eq k size hsize child 0 [] (Nat.zero_le _)
  rw [Nat.sub_zero, List.nil_append, List.length_nil, Nat.sub_zero] at h
  simp only [ctlRpc, ho, hs, h]

/-- What the client does with a reply: there are entries in the buffer again, or the end was
reached. -/
theorem Stands.filled (hds : Listing size ds) (hsize : size < 2147483648)
    (hd : dName.length = PATH_MAX + 1) (h : Stands ds size k d)
    (hbuf : d.buf = some buf) (c : Npcfsys X) :
    let bs := (fitting P9dirent.size size (ds.drop k)).flatMap P9dirent.bytes
    ∃ d', Stands ds size (if k < ds.length then k + 1 else k) d' ∧
      Npc.readdirFilled dName buf d (.rreaddir (.ofNat bs.length) bs) c =
        (.ok (d', 0, ds[k]?.map P9dirent.entry), c) := by
  intro bs
  obtain ⟨buf', hb, hlen, h0, hle, -⟩ := h.buf
  obtain rfl : buf = buf' := Option.some.inj (hbuf.symm.trans hb)
  have hused := h.used
  have hbs : bs.length ≤ size := by
    rw [show bs.length = _ from length_flatMap_bytes _]
    exact totalSize_fitting_le P9dirent.size size (ds.drop k)
  have hcount : (UInt32.ofNat bs.length).toNat = bs.length :=
    UInt32.toNat_ofNat_of_lt' (by change _ < 2 ^ 32; omega)
  have hroom : ¬(UInt32.ofNat bs.length > UInt32.ofNat d.bufSize.toNat) := by
    rw [gt_iff_lt, UInt32.lt_iff_toNat_lt, hcount, h.bufSize, Int.toNat_natCast,
      UInt32.toNat_ofNat_of_lt' (by change _ < 2 ^ 32; omega)]
    omega
  have hstore : storeAt buf 0 (bs.take bs.length) = bs ++ buf.drop bs.length := by
    simp [storeAt]
  have hlen' : (bs ++ buf.drop bs.length).length = size := by
    rw [List.length_append, List.length_drop]
    omega
  have hint : asInt bs.length = bs.length := asInt_of_lt (by omega)
  have hwhen : Prog.when (UInt32.ofNat bs.length > UInt32.ofNat d.bufSize.toNat) .crash c =
      (.ok (), c) := by
    rw [Prog.when, if_neg hroom]
    rfl
  simp only [Npc.readdirFilled, Npc.ioCount, Npc.ioData, hcount, hstore, hint]
  rw [if_neg (show ¬(bs.length : ℤ) < 0 by omega)]
  have htake := List.prefix_iff_eq_take.mp (fitting_isPrefix P9dirent.size size (ds.drop k))
  rcases Nat.lt_or_ge k ds.length with hk | hk
  · -- an entry fits, so there is one in the reply
    have hpos : 0 < bs.length := by
      rcases hdrop : ds.drop k with _ | ⟨e, ds'⟩
      · have := congrArg List.length hdrop
        simp only [List.length_drop, List.length_nil] at this
        omega
      · have hmem : e ∈ ds := List.mem_of_mem_drop (hdrop ▸ List.mem_cons_self)
        simp only [bs, hdrop, fitting_cons_of_le (hds.fits e hmem), List.flatMap_cons,
          List.length_append, length_bytes, P9dirent.size, QIDSIZE]
        omega
    rw [if_neg (show ¬(bs.length : ℤ) = 0 by omega), if_pos hk]
    have hst : Stands ds size k { d with
        buf := some (bs ++ buf.drop bs.length)
        bufLen := bs.length
        bufUsed := 0 } := by
      refine ⟨h.le, h.offset, h.bufSize, le_refl _, _, rfl, hlen', Int.natCast_nonneg _,
        Int.ofNat_le.mpr hbs, (fitting P9dirent.size size (ds.drop k)).length, ?_⟩
      simp only [Int.toNat_natCast, Int.toNat_zero, List.drop_zero, List.take_left, ← htake, bs]
    obtain ⟨e, d', hk', hd', hrun⟩ := hst.entry hds hd rfl (Int.natCast_pos.mpr hpos) c
    exact ⟨d', hd', by rw [hk']; exact (bind_of_ok hwhen).trans hrun⟩
  · have hnil : bs = [] := by
      simp only [bs, List.drop_eq_nil_of_le hk, fitting_nil, List.flatMap_nil]
    have hl : (bs.length : ℤ) = 0 := by simp [hnil]
    rw [if_pos hl, if_neg (by omega), List.getElem?_eq_none hk]
    refine ⟨_, ?_, bind_of_ok hwhen⟩
    refine ⟨h.le, h.offset, h.bufSize, hused, _, rfl, hlen', Int.natCast_nonneg _,
      Int.ofNat_le.mpr hbs, 0, ?_⟩
    rw [List.take_zero, List.flatMap_nil, List.drop_eq_nil_of_le]
    simp [hnil]

/-- **One call of `npc_readdir_r` returns the entry before which the directory stands**, or
the end, whether it was in the buffer or not. -/
theorem Stands.read {child : List CtlEntry} (hds : Listing size (ctlDirents 0 child))
    (hsize : size < 2147483648) (hd : dName.length = PATH_MAX + 1)
    (h : Stands (ctlDirents 0 child) size k d) (c : Npcfsys X) :
    ∃ d', Stands (ctlDirents 0 child) size
        (if k < (ctlDirents 0 child).length then k + 1 else k) d' ∧
      Npc.npcReaddirR (ctlRpc child) dName d c =
        (.ok (d', 0, (ctlDirents 0 child)[k]?.map P9dirent.entry), c) := by
  obtain ⟨buf, hb, -⟩ := h.buf
  rcases lt_or_ge d.bufUsed d.bufLen with hlt | hge
  · obtain ⟨e, d', hk, hd', hrun⟩ := h.entry hds hd hb hlt c
    refine ⟨d', ?_, ?_⟩
    · rwa [if_pos (List.getElem?_eq_some_iff.mp hk).1]
    · rw [Npc.npcReaddirR, hb, hk]
      simp only
      rw [if_neg (by omega)]
      exact hrun
  · obtain ⟨d', hd', hrun⟩ := h.filled hds hsize hd hb c
    refine ⟨d', hd', ?_⟩
    have hrpc := ctlRpc_readdir (k := k) child hsize d.f.fid
      (lt_of_le_of_lt h.le hds.length) c.peer
    rw [Npc.npcReaddirR, hb]
    simp only
    rw [if_pos hge, h.offset, h.bufSize, Int.toNat_natCast, Npc.npcReaddir,
      bind_of_ok (attempt_of_ok (Npc.npcRpc_of_reply _ (by exact MsgType.noConfusion) hrpc))]
    exact hrun

end Stands

/-! ### Whole programs -/

/-- **The program with the directory does what it does with a cursor.** -/
structure Tracks (ds : List P9dirent) (size : ℕ) (s : DirRun) (c : Cursor P9dirent) : Prop where
  stands : Stands ds size c.pos s.dir
  told : s.told = c.told.map Nat.cast
  le : ∀ t ∈ c.told, t ≤ ds.length
  out : s.out = c.out.map fun r => (0, r.map P9dirent.entry)

section Tracks

variable {X : Type} {child : List CtlEntry} {size : ℕ} {dName : Bytes} {s : DirRun}
  {c : Cursor P9dirent}

/-- One step. -/
theorem sim_dirStep (hds : Listing size (ctlDirents 0 child)) (hsize : size < 2147483648)
    (hd : dName.length = PATH_MAX + 1) (h : Tracks (ctlDirents 0 child) size s c) (op : DirOp)
    (x : Npcfsys X) :
    ∃ s', dirStep (ctlRpc child) dName s op x = (.ok s', x) ∧
      Tracks (ctlDirents 0 child) size s' (c.step (ctlDirents 0 child) op) := by
  have hlen := hds.length
  cases op with
  | read =>
    obtain ⟨d', hd', hrun⟩ := h.stands.read hds hsize hd x
    refine ⟨_, bind_of_ok hrun, hd', h.told, h.le, ?_⟩
    simp [h.out, Cursor.step]
  | tell =>
    refine ⟨_, rfl, h.stands, ?_, ?_, h.out⟩
    · have hpos := h.stands.le
      have ht : npcTelldir s.dir = c.pos := by
        rw [npcTelldir, h.stands.offset, asLong,
          UInt64.toNat_ofNat_of_lt' (by change _ < 2 ^ 64; omega), if_pos (by omega)]
      simp [h.told, ht, Cursor.step]
    · intro t ht
      rcases List.mem_append.mp ht with ht | ht
      · exact h.le t ht
      · obtain rfl := List.mem_singleton.mp ht
        exact h.stands.le
  | seek i =>
    rcases hi : c.told[i]? with _ | t
    · refine ⟨s, ?_, ?_⟩
      · simp only [dirStep, h.told, List.getElem?_map, hi]
        rfl
      · simpa only [Cursor.step, hi] using h
    · have htl := h.le t (List.mem_of_getElem? hi)
      refine ⟨{ s with dir := npcSeekdir s.dir t }, ?_, ?_⟩
      · simp only [dirStep, h.told, List.getElem?_map, hi]
        rfl
      · simp only [Cursor.step, hi]
        obtain ⟨buf, hb, hl, h0, hle, -⟩ := h.stands.buf
        refine ⟨⟨htl, ?_, h.stands.bufSize, h0, buf, hb, hl, h0, hle, 0, ?_⟩, h.told, h.le, h.out⟩
        · have ht : ((t : ℤ) % 2 ^ 64).toNat = t := by omega
          exact congrArg UInt64.ofNat ht
        · change (buf.take s.dir.bufLen.toNat).drop s.dir.bufLen.toNat = _
          rw [List.take_zero, List.flatMap_nil, List.drop_eq_nil_of_le (by simp)]

/-- **The run of a program is that of a cursor**, from any state in which the two agree. -/
theorem sim_dirRun (hds : Listing size (ctlDirents 0 child)) (hsize : size < 2147483648)
    (hd : dName.length = PATH_MAX + 1) (h : Tracks (ctlDirents 0 child) size s c)
    (ops : List DirOp) (x : Npcfsys X) :
    ∃ s', dirRun (ctlRpc child) dName ops s x = (.ok s', x) ∧
      Tracks (ctlDirents 0 child) size s' (c.run (ctlDirents 0 child) ops) := by
  induction ops generalizing s c with
  | nil => exact ⟨s, rfl, h⟩
  | cons op ops ih =>
    obtain ⟨s₁, hrun₁, h₁⟩ := sim_dirStep hds hsize hd h op x
    obtain ⟨s₂, hrun₂, h₂⟩ := ih h₁
    exact ⟨s₂, (bind_of_ok hrun₁).trans hrun₂, h₂⟩

end Tracks

/-- The client can go through the files of a directory when each of them fits. -/
theorem listing_ctlDirents {child : List CtlEntry} {size : ℕ} (hlen : child.length < 2147483648)
    (hname : ∀ ff ∈ child, ff.name.strlen ≤ PATH_MAX)
    (hfits : ∀ ff ∈ child, (ff.dirent 0).size ≤ size) : Listing size (ctlDirents 0 child) := by
  have hmem : ∀ d ∈ ctlDirents 0 child, ∃ ff ∈ child, d.name = ff.name := by
    intro d hd
    obtain ⟨k, hk⟩ := List.mem_iff_getElem?.mp hd
    rw [getElem?_ctlDirents] at hk
    obtain ⟨ff, hff, rfl⟩ := Option.map_eq_some_iff.mp hk
    exact ⟨ff, List.mem_of_getElem? hff, rfl⟩
  refine ⟨by rwa [length_ctlDirents], ?_, ?_, ?_⟩
  · intro k d hk
    rw [getElem?_ctlDirents, Nat.zero_add] at hk
    obtain ⟨ff, -, rfl⟩ := Option.map_eq_some_iff.mp hk
    rfl
  · intro d hd
    obtain ⟨ff, hff, hn⟩ := hmem d hd
    rw [hn]
    exact hname ff hff
  · intro d hd
    obtain ⟨ff, hff, hn⟩ := hmem d hd
    have := hfits ff hff
    simp only [P9dirent.size, hn] at this ⊢
    exact this

/-- **Going through a directory of the server.** Reading on returns every file once and in
order, and then the end. Reading on from where `npc_telldir` was called after `k` entries,
whatever was done since, does the same from the next one on.

The server counts the files with an `int`, as the client does the bytes of its buffer, and the
bytes at `entry->d_name` are as many as `npc_readdir_r` takes there to be. -/
theorem readdir_iterates {X : Type} {child : List CtlEntry} {f : Npcfid} {buf dName : Bytes}
    (hlen : child.length < 2147483648) (hname : ∀ ff ∈ child, ff.name.strlen ≤ PATH_MAX)
    (hbuf : buf.length < 2147483648) (hfits : ∀ ff ∈ child, (ff.dirent 0).size ≤ buf.length)
    (hd : dName.length = PATH_MAX + 1) (x : Npcfsys X) :
    (∀ n, ∃ s', dirRun (ctlRpc child) dName (List.replicate n .read)
        { dir := npcDirOpened f buf } x = (.ok s', x) ∧
      s'.out = (List.range n).map fun i =>
        (0, child[i]?.map fun ff => (ff.dirent i).entry)) ∧
    (∀ k ≤ child.length, ∀ ops n, ∃ s' out, dirRun (ctlRpc child) dName
        (List.replicate k .read ++ .tell :: (ops ++ .seek 0 :: List.replicate n .read))
        { dir := npcDirOpened f buf } x = (.ok s', x) ∧
      s'.out = out ++ (List.range n).map fun i =>
        (0, child[k + i]?.map fun ff => (ff.dirent (k + i)).entry)) := by
  have hds := listing_ctlDirents hlen hname hfits
  have h₀ : Tracks (ctlDirents 0 child) buf.length { dir := npcDirOpened f buf } {} :=
    ⟨stands_opened _ f buf, rfl, fun t ht => absurd ht List.not_mem_nil, rfl⟩
  have hentry : ∀ i, (ctlDirents 0 child)[i]?.map P9dirent.entry =
      child[i]?.map fun ff : CtlEntry => (ff.dirent i).entry := by
    intro i
    rw [getElem?_ctlDirents, Option.map_map, Nat.zero_add]
    rfl
  refine ⟨fun n => ?_, fun k hk ops n => ?_⟩
  · obtain ⟨s', hrun, ht⟩ := sim_dirRun hds hbuf hd h₀ (List.replicate n .read) x
    refine ⟨s', hrun, ht.out.trans ?_⟩
    obtain ⟨hout, -⟩ := Cursor.run_reads (ctlDirents 0 child) n
      (show ({} : Cursor P9dirent).pos ≤ _ from Nat.zero_le _)
    simp [hout, ← hentry]
  · obtain ⟨s', hrun, ht⟩ := sim_dirRun hds hbuf hd h₀
      (List.replicate k .read ++ .tell :: (ops ++ .seek 0 :: List.replicate n .read)) x
    obtain ⟨out, hout⟩ := Cursor.run_seek (ctlDirents 0 child)
      (hk.trans_eq (length_ctlDirents 0 child).symm) ops n
    refine ⟨s', out.map fun r => (0, r.map P9dirent.entry), hrun, ht.out.trans ?_⟩
    simp [hout, ← hentry]

theorem nul_not_mem_names : 0 ∉ ([97] : Bytes) ∧ 0 ∉ ([98, 99] : Bytes) := by decide

/-- The file `a` and the directory `bc`. -/
def fileAndDir : List CtlEntry :=
  [⟨⟨Qttmp, 0, 1⟩, ⟨[97], nul_not_mem_names.1⟩⟩,
    ⟨⟨Qttmp ||| Qtdir, 0, 2⟩, ⟨[98, 99], nul_not_mem_names.2⟩⟩]

/-- Into 26 bytes goes one entry at a time. -/
theorem readdir_iterates_two :
    let run ops := dirRun (ctlRpc fileAndDir) (List.replicate 4097 0) ops
      { dir := npcDirOpened ⟨1, 0, 0⟩ (List.replicate 26 0) }
      ⟨65536, false, Npcpool.npcCreatePool 64, 0, ()⟩
    (∃ s', (run [.read, .read, .read]).1 = .ok s' ∧
      s'.out = [(0, some ⟨1, Op.DT_REG, 1, [97]⟩), (0, some ⟨2, Op.DT_DIR, 2, [98, 99]⟩),
        (0, none)]) ∧
    ∃ s' out, (run [.read, .tell, .read, .read, .seek 0, .read]).1 = .ok s' ∧
      s'.out = out ++ [(0, some ⟨2, Op.DT_DIR, 2, [98, 99]⟩)] := by
  intro run
  have hfits : ∀ ff ∈ fileAndDir, (ff.dirent 0).size ≤ (List.replicate 26 (0 : UInt8)).length := by
    rw [List.length_replicate]
    decide
  obtain ⟨hreads, hseek⟩ := @readdir_iterates Unit fileAndDir ⟨1, 0, 0⟩ _ _ (by decide)
    (by decide) (by rw [List.length_replicate]; decide) hfits
    (List.length_replicate (n := 4097) (a := (0 : UInt8)))
    (⟨65536, false, Npcpool.npcCreatePool 64, 0, ()⟩ : Npcfsys Unit)
  constructor
  · obtain ⟨s', hrun, hout⟩ := hreads 3
    exact ⟨s', congrArg Prod.fst hrun, hout⟩
  · obtain ⟨s', out, hrun, hout⟩ := hseek 1 (by decide) [.read, .read] 1
    exact ⟨s', out, congrArg Prod.fst hrun, hout⟩

end Diod
