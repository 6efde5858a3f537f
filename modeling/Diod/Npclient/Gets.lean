import Diod.Npclient.Calls
import Diod.Lib.Runs

/-!
# Reading lines

`npc_gets` reads a file line by line. It reads as much as there is room for, looks for a
newline, and keeps what is behind it for the next call, in `fid->buf`. The next call may have
less room. Then only a part of what was kept is taken into the caller's buffer, and if there
is a newline in that part, **what is behind it is appended to what is left in `fid->buf`**,
although it belongs in front.

So bytes change their order exactly when there is a newline in the part that is taken, with
something behind it, and something else than that is left. Apart from that all bytes are
returned, in order, and newlines are dropped. But **an empty line is returned as `NULL`**,
which is what the end of the file looks like; and when a read fails, the bytes that the same
call has taken before are lost. There is nothing else that can go wrong, unless a buffer is
larger than an `int` can say (`Diod.Gets.gets_lines_iff`).

The file may be read in pieces of any length: the server has a plan for this
(`Diod.Filesrv`), which may also let a read fail.
-/

namespace Diod

open Prog

/-! ### A file and its reads -/

/-- **A file at the other end**, and what becomes of the reads to come: an error, or at most so
many bytes and one more. After that reads are as long as they can be. -/
structure Filesrv where
  file : Bytes
  fits : file.length < 2 ^ 63
  plan : List (Option ℕ) := []

namespace Filesrv

/-- So many bytes at an offset of the file. -/
def piece (x : Filesrv) (offset : UInt64) (n : ℕ) : Bytes := (x.file.drop offset.toNat).take n

/-- The reply with some bytes. -/
def rread (bs : Bytes) : Msg := .rread (.ofNat bs.length) bs

/-- The reply to a `Tread`. -/
def rpc : Msg → Filesrv → Msg × Filesrv
  | .tread _ offset count, x =>
    match x.plan with
    | [] => (rread (x.piece offset count.toNat), x)
    | none :: plan => (.rlerror (.ofNat EIO), { x with plan })
    | some k :: plan => (rread (x.piece offset (min count.toNat (k + 1))), { x with plan })
  | _, x => (.rlerror (.ofNat ENOSYS), x)

/-- A read fails, or returns something unless nothing was asked for or the file is at its
end. -/
theorem rpc_tread (x : Filesrv) (fid : UInt32) (offset : UInt64) (count : UInt32) :
    (x.plan.head? = some none ∧ ∃ x', x'.file = x.file ∧
      rpc (.tread fid offset count) x = (.rlerror (.ofNat EIO), x')) ∨
    x.plan.head? ≠ some none ∧ ∃ n x', x'.file = x.file ∧ n ≤ count.toNat ∧
      (0 < count.toNat → 0 < n) ∧
      rpc (.tread fid offset count) x = (rread (x.piece offset n), x') := by
  rcases x with ⟨file, fits, _ | ⟨_ | k, plan⟩⟩
  · exact Or.inr ⟨by simp, count.toNat, _, rfl, le_rfl, id, rfl⟩
  · exact Or.inl ⟨rfl, ⟨file, fits, plan⟩, rfl, rfl⟩
  · refine Or.inr ⟨by simp, min count.toNat (k + 1), ⟨file, fits, plan⟩, rfl, ?_, ?_, rfl⟩
    · exact Nat.min_le_left _ _
    · exact fun h => Nat.lt_min.mpr ⟨h, Nat.succ_pos k⟩

end Filesrv

/-- A program with an open file, and what `npc_gets` has kept of it: `fid->buf`, whose length
is `fid->buf_size`. -/
structure Gets where
  sys : Npcfsys Filesrv
  fid : Npcfid
  buf : Option Bytes

namespace Gets

/-- What has not been read of the file. -/
def rest (g : Gets) : Bytes := g.sys.peer.file.drop g.fid.offset.toNat

/-- **What is still to come.** -/
def left (g : Gets) : Bytes := g.buf.getD [] ++ g.rest

/-! ### `npc_gets` -/

/-- `npc_read` -/
def npcRead (count : UInt32) : Prog Gets Bytes := fun g =>
  match Npc.npcRead Filesrv.rpc g.fid count g.sys with
  | (.ok (f, got), c) => (.ok got, { g with sys := c, fid := f })
  | (.stop, c) => (.stop, { g with sys := c })
  | (.crash, c) => (.crash, { g with sys := c })

/-- `_buf_save` -/
def bufSave (bs : Bytes) : Prog Gets Unit :=
  .modify fun g => { g with buf := some (g.buf.getD [] ++ bs) }

/-- How much `_buf_restore` copies, of this size. Both are an `int`. -/
def restored (size : ℕ) (len : ℤ) : ℤ := if len > size then size else len

/-- `_buf_restore`. When the length is negative `memcpy` gets a size that is larger than any
memory. -/
def bufRestore (len : ℤ) : Prog Gets Bytes := fun g =>
  match g.buf with
  | none => (.ok [], g)
  | some b =>
    let ret := restored b.length len
    if ret < 0 then (.crash, g)
    else (.ok (b.take ret.toNat),
      { g with buf := if b.length > ret then some (b.drop ret.toNat) else none })

/-- The second half of a turn: `_strnchr` looks for a newline in what is new, and `done`, which
is an `int`, counts it. The result is the buffer and where its newline is. -/
def scan (next : Bytes → Prog Gets (Bytes × Option ℕ)) (buf got : Bytes) :
    Prog Gets (Bytes × Option ℕ) :=
  if 2 ^ 31 ≤ (buf ++ got).length then .crash
  else
    match got.findIdx? (· = 10) with
    | some i => pure (buf ++ got, some (buf.length + i))
    | none => next (buf ++ got)

/-- The loop of `npc_gets`, in a turn that reads. -/
def getsLoop (count : UInt32) : ℕ → Bytes → Prog Gets (Bytes × Option ℕ)
  | 0, _ => .crash
  | k + 1, buf =>
    if buf.length < count.toNat then do
      let got ← npcRead (count - .ofNat buf.length - 1)
      if got = [] then pure (buf, none) else scan (getsLoop count k) buf got
    else pure (buf, none)

/-- The first turn, which reads only if nothing was kept. -/
def gather (count : UInt32) (got : Bytes) : Prog Gets (Bytes × Option ℕ) :=
  if got = [] then getsLoop count (count.toNat + 1) []
  else scan (getsLoop count (count.toNat + 1)) [] got

/-- `return done > 0 ? buf : NULL`, as a string -/
def returned (bs : Bytes) : Option Bytes := if 0 < bs.length then some (cstr bs) else none

/-- What is done behind the loop: what follows a newline is kept. -/
def finish (buf : Bytes) : Option ℕ → Prog Gets (Option Bytes)
  | some i => do
    .when (buf.drop (i + 1) ≠ []) (bufSave (buf.drop (i + 1)))
    pure (returned (buf.take i))
  | none => pure (returned buf)

/-- `npc_gets`, with memory -/
def npcGets (count : UInt32) : Prog Gets (Option Bytes) := do
  let got ← bufRestore (asInt (count - 1).toNat)
  let (buf, nlp) ← gather count got
  finish buf nlp

/-! ### Reads -/

/-- **These bytes were read**, and nothing else happened. -/
structure Took (g : Gets) (bs : Bytes) (g' : Gets) : Prop where
  buf : g'.buf = g.buf
  msize : g'.sys.msize = g.sys.msize
  rest : g.rest = bs ++ g'.rest

variable {g g' g'' : Gets} {bs cs : Bytes}

theorem Took.trans (h : Took g bs g') (h' : Took g' cs g'') : Took g (bs ++ cs) g'' where
  buf := h'.buf.trans h.buf
  msize := h'.msize.trans h.msize
  rest := by rw [h.rest, h'.rest, List.append_assoc]

/-- The sum of an offset and what is read there does not wrap. -/
theorem toNat_offset_add (x : Filesrv) (offset : UInt64) (n : ℕ) :
    (offset + .ofNat (x.piece offset n).length).toNat =
      offset.toNat + (x.piece offset n).length := by
  have hfits := x.fits
  have hoff : offset.toNat < 2 ^ 64 := offset.toNat_lt
  have hlen : (x.piece offset n).length ≤ x.file.length - offset.toNat := by
    simp only [Filesrv.piece, List.length_take, List.length_drop]
    exact Nat.min_le_right _ _
  rw [UInt64.toNat_add, UInt64.toNat_ofNat_of_lt' (show _ < 18446744073709551616 by omega)]
  refine Nat.mod_eq_of_lt ?_
  omega

/-- `npc_read` of the file. -/
theorem npcRead_filesrv {c : Npcfsys Filesrv} (f : Npcfid) (hm : IOHDRSZ < c.msize.toNat)
    (count : UInt32) :
    (c.peer.plan.head? = some none ∧ ∃ c', c'.msize = c.msize ∧ c'.peer.file = c.peer.file ∧
      Npc.npcRead Filesrv.rpc f count c = (.stop, c')) ∨
    c.peer.plan.head? ≠ some none ∧ ∃ n c', c'.msize = c.msize ∧ c'.peer.file = c.peer.file ∧
      n ≤ count.toNat ∧ (0 < count.toNat → 0 < n) ∧
      Npc.npcRead Filesrv.rpc f count c =
        (.ok ({ f with offset := f.offset + .ofNat (c.peer.piece f.offset n).length },
          c.peer.piece f.offset n), c') := by
  have hlim := Npc.toNat_ioLimit hm count
  rcases c.peer.rpc_tread f.fid f.offset (Npc.ioLimit c.msize count) with
    ⟨hplan, x', hx, hrpc⟩ | ⟨hplan, n, x', hx, hn, hpos, hrpc⟩
  · exact Or.inl ⟨hplan, { c with peer := x', ecode := EIO }, rfl, hx, Npc.npcRead_of_error hrpc⟩
  · have hlen : (c.peer.piece f.offset n).length ≤ n := List.length_take_le _ _
    exact Or.inr ⟨hplan, n, { c with peer := x' }, rfl, hx, by omega, fun h => hpos (by omega),
      Npc.npcRead_of_reply (hlen.trans hn) hrpc⟩

/-- **What a read does.** -/
theorem npcRead_cases (hm : IOHDRSZ < g.sys.msize.toNat) (count : UInt32) :
    (g.sys.peer.plan.head? = some none ∧ ∃ g', npcRead count g = (.stop, g') ∧ Took g [] g') ∨
    g.sys.peer.plan.head? ≠ some none ∧ ∃ bs g', npcRead count g = (.ok bs, g') ∧
      Took g bs g' ∧ bs.length ≤ count.toNat ∧ (bs = [] → count.toNat = 0 ∨ g'.rest = []) := by
  rcases npcRead_filesrv g.fid hm count with
    ⟨hplan, c', hsize, hfile, hread⟩ | ⟨hplan, n, c', hsize, hfile, hn, hpos, hread⟩
  · refine Or.inl ⟨hplan, { g with sys := c' }, ?_, rfl, hsize, ?_⟩
    · rw [npcRead, hread]
    · simp only [rest, hfile, List.nil_append]
  · refine Or.inr ⟨hplan, g.sys.peer.piece g.fid.offset n, { g with
      sys := c'
      fid := { g.fid with
        offset := g.fid.offset + .ofNat (g.sys.peer.piece g.fid.offset n).length } }, ?_,
      ⟨rfl, hsize, ?_⟩, (List.length_take_le _ _).trans hn, ?_⟩
    · rw [npcRead, hread]
    · simp only [rest, hfile, toNat_offset_add]
      rw [← List.drop_drop]
      exact (List.prefix_iff_eq_append.mp (List.take_prefix n _)).symm
    · intro hnil
      refine Or.imp id (fun h => ?_) (Nat.eq_zero_or_pos count.toNat)
      have hdrop : g.rest = [] := by
        rcases List.take_eq_nil_iff.mp hnil with hzero | hrest
        · exact absurd hzero (by have := hpos h; omega)
        · exact hrest
      simp only [rest, hfile, hnil, List.length_nil] at hdrop ⊢
      simpa using hdrop

/-! ### Newlines -/

/-- Where the first newline is. -/
theorem findIdx?_newline {bs : Bytes} {i : ℕ} (h : bs.findIdx? (· = 10) = some i) :
    ∃ a b, bs = a ++ 10 :: b ∧ 10 ∉ a ∧ a.length = i := by
  obtain ⟨hi, hat, hbefore⟩ := List.findIdx?_eq_some_iff_getElem.mp h
  refine ⟨bs.take i, bs.drop (i + 1), ?_, ?_, List.length_take_of_le hi.le⟩
  · rw [← of_decide_eq_true hat, List.getElem_cons_drop, List.take_append_drop]
  · intro hmem
    obtain ⟨j, hj, hget⟩ := List.getElem_of_mem hmem
    rw [List.length_take_of_le hi.le] at hj
    rw [List.getElem_take] at hget
    exact hbefore j hj (decide_eq_true hget)

theorem findIdx?_newline_eq_none {bs : Bytes} :
    bs.findIdx? (· = 10) = none ↔ 10 ∉ bs := by
  rw [List.findIdx?_eq_none_iff]
  constructor
  · intro h hmem
    simpa using h 10 hmem
  · intro h x hx
    rw [decide_eq_false_iff_not]
    rintro rfl
    exact h hx

variable {a buf : Bytes} {count : UInt32} {m : ℕ}

theorem findIdx?_append_newline (b : Bytes) (ha : 10 ∉ a) :
    (a ++ 10 :: b).findIdx? (· = 10) = some a.length := by
  rw [List.findIdx?_append, findIdx?_newline_eq_none.mpr ha, List.findIdx?_cons]
  simp

/-! ### The loop -/

/-- **What a loop has found** when it ends: the bytes in the buffer, and where the first newline
is, or that there is none. -/
def Found (count : ℕ) (buf : Bytes) (g : Gets) : Option ℕ → Prop
  | some i => ∃ a b, buf = a ++ 10 :: b ∧ 10 ∉ a ∧ a.length = i
  | none => 10 ∉ buf ∧ (buf.length + 1 = count ∨ g.rest = [])

/-- How a loop can end that has some bytes already. -/
def LoopEnd (count : ℕ) (buf : Bytes) (g : Gets) : Res (Bytes × Option ℕ) × Gets → Prop
  | (.crash, _) => 2 ^ 31 < count
  | (.stop, g') => ∃ bs, Took g bs g' ∧ (bs ≠ [] → g.buf = none) ∧
      (bs = [] ↔ g.sys.peer.plan.head? = some none)
  | (.ok (buf', nlp), g') => ∃ bs, buf' = buf ++ bs ∧ Took g bs g' ∧ buf'.length < count ∧
      (bs ≠ [] → g.buf = none) ∧ Found count buf' g' nlp

/-- The turns after one that has read something. -/
theorem LoopEnd.cons {count : ℕ} {got : Bytes} {r : Res (Bytes × Option ℕ) × Gets}
    (h : LoopEnd count (buf ++ got) g' r) (hplan : g.sys.peer.plan.head? ≠ some none)
    (hgot : got ≠ []) (hnone : g.buf = none) (htook : Took g got g') : LoopEnd count buf g r := by
  have hne : ∀ bs, got ++ bs ≠ [] := fun bs hc => hgot (List.append_eq_nil_iff.mp hc).1
  obtain ⟨r, g''⟩ := r
  rcases r with ⟨buf', nlp⟩ | _ | _
  · obtain ⟨bs, rfl, hbs, hlen, -, hfound⟩ := h
    exact ⟨got ++ bs, List.append_assoc .., htook.trans hbs, hlen, fun _ => hnone, hfound⟩
  · obtain ⟨bs, hbs, -⟩ := h
    exact ⟨got ++ bs, htook.trans hbs, fun _ => hnone, iff_of_false (hne bs) hplan⟩
  · exact h

theorem toNat_room {n : ℕ} (h : n < count.toNat) :
    (count - .ofNat n - 1).toNat = count.toNat - n - 1 := by
  have hlt := count.toNat_lt
  have hn : (UInt32.ofNat n).toNat = n :=
    UInt32.toNat_ofNat_of_lt' (show n < 4294967296 by omega)
  have hsub : (count - .ofNat n).toNat = count.toNat - n := by
    rw [UInt32.toNat_sub_of_le _ _ (UInt32.le_iff_toNat_le.mpr (by omega)), hn]
  rw [UInt32.toNat_sub_of_le _ _ (UInt32.le_iff_toNat_le.mpr ?_), hsub]
  · rfl
  · rw [hsub]
    exact Nat.sub_pos_of_lt h

/-- **The loop of `npc_gets`**, from a turn that reads: there is no newline in the buffer, and
nothing has been kept unless the buffer is full. -/
theorem getsLoop_ends {k : ℕ} (hk : count.toNat - buf.length ≤ k)
    (hlt : buf.length < count.toNat) (hbuf : 10 ∉ buf)
    (hkept : g.buf = none ∨ buf.length + 1 = count.toNat) (hm : IOHDRSZ < g.sys.msize.toNat) :
    LoopEnd count.toNat buf g (getsLoop count k buf g) := by
  induction k generalizing buf g with
  | zero => omega
  | succ k ih =>
    have hroom := toNat_room hlt
    rw [getsLoop, if_pos hlt]
    rcases npcRead_cases hm (count - .ofNat buf.length - 1) with
      ⟨hplan, g', hread, htook⟩ | ⟨hplan, got, g', hread, htook, hlen, hnil⟩
    · rw [bind_of_stop hread]
      exact ⟨[], htook, fun h => absurd rfl h, iff_of_true rfl hplan⟩
    rw [bind_of_ok hread]
    rw [hroom] at hlen hnil
    by_cases hgot : got = []
    · -- the buffer is full, or the file is at its end
      subst hgot
      refine ⟨[], (List.append_nil _).symm, htook, hlt, fun h => absurd rfl h, hbuf, ?_⟩
      exact (hnil rfl).imp (fun h => by omega) id
    · have hnone : g.buf = none := by
        refine hkept.resolve_right fun h => hgot ?_
        exact List.eq_nil_of_length_eq_zero (by omega)
      have hgotlen : (buf ++ got).length < count.toNat := by
        rw [List.length_append]
        omega
      have hnone' : g'.buf = none := htook.buf.trans hnone
      rw [if_neg hgot, scan]
      split
      · rename_i hbig
        exact (lt_of_le_of_lt hbig hgotlen : 2 ^ 31 < count.toNat)
      · rcases hfind : got.findIdx? (· = 10) with _ | i
        · have hbuf' : 10 ∉ buf ++ got := by
            rw [List.mem_append, not_or]
            exact ⟨hbuf, findIdx?_newline_eq_none.mp hfind⟩
          have hpos : 0 < got.length := List.length_pos_iff.mpr hgot
          have hk' : count.toNat - (buf ++ got).length ≤ k := by
            rw [List.length_append]
            omega
          have hend := ih hk' hgotlen hbuf' (Or.inl hnone') (by rw [htook.msize]; exact hm)
          rw [hfind]
          exact hend.cons hplan hgot hnone htook
        · rw [hfind]
          obtain ⟨a, b, hsplit, ha, rfl⟩ := findIdx?_newline hfind
          refine ⟨got, rfl, htook, hgotlen, fun _ => hnone, buf ++ a, b, ?_, ?_, ?_⟩
          · rw [hsplit, List.append_assoc]
          · rw [List.mem_append, not_or]
            exact ⟨hbuf, ha⟩
          · exact List.length_append

/-! ### A call -/

/-- What was kept. -/
def saved (g : Gets) : Bytes := g.buf.getD []

theorem left_eq (g : Gets) : g.left = g.saved ++ g.rest := rfl

/-- What `_buf_restore` takes, and what it leaves. -/
theorem bufRestore_cases (g : Gets) (h2 : 2 ≤ count.toNat) :
    (∃ g', bufRestore (asInt (count - 1).toNat) g = (.crash, g') ∧ 2 ^ 31 < count.toNat) ∨
    ∃ buf, bufRestore (asInt (count - 1).toNat) g =
        (.ok (g.saved.take (count.toNat - 1)), { g with buf }) ∧
      buf.getD [] = g.saved.drop (count.toNat - 1) ∧
      (g.saved.length ≤ count.toNat - 1 → buf = none) := by
  have hm : (count - 1).toNat = count.toNat - 1 :=
    UInt32.toNat_sub_of_le _ _ (UInt32.le_iff_toNat_le.mpr (le_trans (by decide) h2))
  have hlt := count.toNat_lt
  rcases g with ⟨sys, fid, _ | b⟩
  · refine Or.inr ⟨none, ?_, ?_, fun _ => rfl⟩ <;> simp [bufRestore, saved]
  rw [hm, bufRestore]
  change (∃ g', (if restored b.length _ < 0 then _ else _) = _ ∧ _) ∨
    ∃ buf, (if restored b.length _ < 0 then _ else _) = (Res.ok (b.take _), _) ∧
      buf.getD [] = b.drop _ ∧ (b.length ≤ _ → buf = none)
  rcases Nat.lt_or_ge (count.toNat - 1) (2 ^ 31) with hsmall | hbig
  · right
    rw [asInt_of_lt hsmall]
    rcases Nat.lt_or_ge b.length (count.toNat - 1) with hlen | hlen
    · -- all of it
      rw [show restored b.length (count.toNat - 1 : ℕ) = b.length from if_pos (by omega)]
      refine ⟨none, ?_, ?_, fun _ => rfl⟩
      · simp [List.take_of_length_le hlen.le]
      · simp [List.drop_of_length_le hlen.le]
    · rw [show restored b.length (count.toNat - 1 : ℕ) = (count.toNat - 1 : ℕ) from
        if_neg (by omega), if_neg (by omega), Int.toNat_natCast]
      refine ⟨_, rfl, ?_, fun hle => if_neg (by omega)⟩
      split
      · rfl
      · rw [List.drop_of_length_le (by omega)]
        rfl
  · left
    have hneg : asInt (count.toNat - 1) < 0 := by
      rw [asInt_of_ge hbig (by omega)]
      omega
    rw [show restored b.length (asInt (count.toNat - 1)) = asInt (count.toNat - 1) from
      if_neg (by omega), if_pos hneg]
    exact ⟨_, rfl, by omega⟩

/-- What `finish` keeps is behind what was kept already. -/
theorem finish_newline (g : Gets) (a b : Bytes) :
    ∃ g', finish (a ++ 10 :: b) (some a.length) g = (.ok (returned a), g') ∧
      g'.saved = g.saved ++ b ∧ g'.rest = g.rest ∧ g'.sys.msize = g.sys.msize := by
  have hdrop : (a ++ 10 :: b).drop (a.length + 1) = b := by simp
  have htake : (a ++ 10 :: b).take a.length = a := by simp
  rw [finish, hdrop, htake]
  by_cases hb : b = []
  · refine ⟨g, ?_, by simp [hb], rfl, rfl⟩
    rw [when, if_neg (not_not.mpr hb)]
    rfl
  · refine ⟨{ g with buf := some (g.saved ++ b) }, ?_, rfl, rfl, rfl⟩
    rw [when, if_pos hb]
    rfl

/-- How a call can end: the newline is in what was kept, or behind it, or there is none. -/
def CallEnd (count : ℕ) (g : Gets) : Res (Option Bytes) × Gets → Prop
  | (.crash, _) => 2 ^ 31 < count
  | (.stop, g') => g'.sys.msize = g.sys.msize ∧ ∃ bs, g.left = bs ++ g'.left ∧
      (bs = [] ↔ g.saved = [] ∧ g.sys.peer.plan.head? = some none)
  | (.ok r, g') => g'.sys.msize = g.sys.msize ∧
      ((∃ a b, g.saved.take (count - 1) = a ++ 10 :: b ∧ 10 ∉ a ∧ r = returned a ∧
          g'.left = g.saved.drop (count - 1) ++ b ++ g.rest) ∨
        10 ∉ g.saved.take (count - 1) ∧
          ((∃ a d, g.left = a ++ 10 :: d ∧ 10 ∉ a ∧ a.length < count - 1 ∧ r = returned a ∧
              g'.left = d) ∨
            ∃ a, g.left = a ++ g'.left ∧ 10 ∉ a ∧ a.length ≤ count - 1 ∧
              (a.length = count - 1 ∨ g'.left = []) ∧ r = returned a))

/-- The loop, after some bytes that were kept have been taken into the buffer. -/
theorem callEnd_of_loop {buf : Option Bytes}
    {x : Prog Gets (Bytes × Option ℕ)} (h2 : 2 ≤ count.toNat)
    (hkept : buf.getD [] = g.saved.drop (count.toNat - 1))
    (hfull : buf = none ∨ (g.saved.take (count.toNat - 1)).length + 1 = count.toNat)
    (hnl : 10 ∉ g.saved.take (count.toNat - 1))
    (hend : LoopEnd count.toNat (g.saved.take (count.toNat - 1)) { g with buf }
      (x { g with buf })) :
    CallEnd count.toNat g ((x >>= fun r => finish r.1 r.2) { g with buf }) := by
  have hleft : g.left = g.saved.take (count.toNat - 1) ++ (buf.getD [] ++ g.rest) := by
    rw [hkept, ← List.append_assoc, List.take_append_drop]
    rfl
  -- what is left of what was kept is in front of what is read only if nothing is read
  have hcomm : ∀ bs : Bytes, (bs ≠ [] → buf = none) → ∀ cs : Bytes,
      buf.getD [] ++ (bs ++ cs) = bs ++ (buf.getD [] ++ cs) := by
    intro bs hbs cs
    rcases eq_or_ne bs [] with rfl | hne
    · rfl
    · rw [hbs hne]
      rfl
  have hleft' : ∀ bs g', Took { g with buf } bs g' → (bs ≠ [] → buf = none) →
      g.left = g.saved.take (count.toNat - 1) ++ bs ++ g'.left := by
    intro bs g' htook hbs
    have hrest : g.rest = bs ++ g'.rest := htook.rest
    rw [hleft, hrest, hcomm bs hbs, List.append_assoc, left, htook.buf]
  rw [bind_apply]
  rcases hx : x { g with buf } with ⟨r, g'⟩
  rw [hx] at hend
  rcases r with ⟨buf', nlp⟩ | _ | _
  · obtain ⟨bs, rfl, htook, hlen, hbs, hfound⟩ := hend
    have hsplit := hleft' bs g' htook hbs
    rcases nlp with _ | i
    · obtain ⟨hno, hstop⟩ := hfound
      refine ⟨htook.msize, Or.inr ⟨hnl, Or.inr ⟨_, hsplit, hno, by omega, ?_, rfl⟩⟩⟩
      rcases hfull with rfl | hfull
      · refine hstop.imp (fun h => by omega) fun h => ?_
        rw [left, htook.buf, h]
        rfl
      · rw [List.length_append] at *
        exact Or.inl (by omega)
    · obtain ⟨a, b, hab, ha, rfl⟩ := hfound
      obtain ⟨g'', hfinish, hsaved, hrest, hmsize⟩ := finish_newline g' a b
      have hne : bs ≠ [] := by
        rintro rfl
        rw [List.append_nil] at hab
        exact hnl (hab ▸ by simp)
      have hnone : g'.saved = [] := by
        rw [saved, htook.buf, show ({ g with buf } : Gets).buf = none from hbs hne]
        rfl
      have halen : a.length < count.toNat - 1 := by
        rw [hab, List.length_append, List.length_cons] at hlen
        omega
      dsimp only
      rw [hab, hfinish]
      refine ⟨hmsize.trans htook.msize, Or.inr ⟨hnl, Or.inl ?_⟩⟩
      refine ⟨a, b ++ g'.rest, ?_, ha, halen, rfl, ?_⟩
      · rw [hsplit, hab, left_eq, hnone, List.nil_append, List.append_assoc, List.cons_append]
      · rw [left_eq, hsaved, hnone, hrest, List.nil_append]
  · obtain ⟨bs, htook, hbs, hiff⟩ := hend
    refine ⟨htook.msize, _, hleft' bs g' htook hbs, ?_⟩
    rw [List.append_eq_nil_iff, hiff, List.take_eq_nil_iff]
    exact and_congr_left fun _ => or_iff_right (by omega)
  · exact hend

/-- **What a call of `npc_gets` does.** -/
theorem npcGets_ends (h2 : 2 ≤ count.toNat) (hm : IOHDRSZ < g.sys.msize.toNat) :
    CallEnd count.toNat g (npcGets count g) := by
  rcases bufRestore_cases g h2 with ⟨g', hres, hbig⟩ | ⟨buf, hres, hkept, hnone⟩
  · rw [npcGets, bind_of_crash hres]
    exact hbig
  rw [npcGets, bind_of_ok hres]
  have hlen : (g.saved.take (count.toNat - 1)).length ≤ count.toNat - 1 := List.length_take_le _ _
  -- what is left of what was kept leaves no room
  have hfull : buf = none ∨ (g.saved.take (count.toNat - 1)).length + 1 = count.toNat := by
    rcases Nat.lt_or_ge (count.toNat - 1) g.saved.length with hlt | hge
    · right
      rw [List.length_take_of_le hlt.le]
      omega
    · exact Or.inl (hnone hge)
  have hloop : 10 ∉ g.saved.take (count.toNat - 1) →
      LoopEnd count.toNat (g.saved.take (count.toNat - 1)) { g with buf }
        (getsLoop count (count.toNat + 1) (g.saved.take (count.toNat - 1)) { g with buf }) :=
    fun hnl => getsLoop_ends (by omega) (by omega) hnl hfull hm
  generalize htake : g.saved.take (count.toNat - 1) = got at *
  rw [gather]
  by_cases hgot : got = []
  · subst hgot
    rw [if_pos rfl]
    rw [← htake] at hloop hfull
    refine callEnd_of_loop h2 hkept hfull (by rw [htake]; simp) ?_
    have := hloop (by rw [htake]; simp)
    rwa [htake] at *
  · rw [if_neg hgot, scan, List.nil_append]
    by_cases hbig : 2 ^ 31 ≤ got.length
    · rw [if_pos hbig]
      exact (by omega : 2 ^ 31 < count.toNat)
    rw [if_neg hbig]
    rcases hfind : got.findIdx? (· = 10) with _ | i
    · have hnl := findIdx?_newline_eq_none.mp hfind
      rw [← htake] at hfull hnl hloop
      have := callEnd_of_loop h2 hkept hfull hnl (hloop hnl)
      rw [htake] at this
      rwa [hfind]
    · rw [hfind]
      obtain ⟨a, b, rfl, ha, rfl⟩ := findIdx?_newline hfind
      obtain ⟨g', hfinish, hsaved, hrest, hmsize⟩ := finish_newline { g with buf } a b
      refine (?_ : CallEnd _ _ (finish (a ++ 10 :: b) (some ([].length + a.length)) { g with buf }))
      rw [List.length_nil, Nat.zero_add, hfinish]
      refine ⟨hmsize, Or.inl ⟨a, b, htake, ha, rfl, ?_⟩⟩
      rw [left_eq, hsaved, hrest]
      change buf.getD [] ++ b ++ g.rest = _
      rw [hkept]

/-! ### Lines -/

/-- **What a call should return**, with room for so many bytes, and what should be left then:
the bytes up to a newline or as many as there is room for, and the newline is dropped if it is
one of those that there is room for. -/
def getLine (m : ℕ) (l : Bytes) : Option Bytes × Bytes :=
  if l = [] then (none, [])
  else
    let line := (l.takeWhile (· ≠ 10)).take m
    (some line, l.drop (if line.length < m then line.length + 1 else m))

section

variable {a d : Bytes} {m : ℕ}

theorem takeWhile_newline (ha : 10 ∉ a) (d : Bytes) :
    (a ++ d).takeWhile (· ≠ 10) = a ++ d.takeWhile (· ≠ 10) := by
  refine List.takeWhile_append_of_pos fun x hx => decide_eq_true ?_
  rintro rfl
  exact ha hx

theorem getLine_newline (ha : 10 ∉ a) (hlt : a.length < m) (d : Bytes) :
    getLine m (a ++ 10 :: d) = (some a, d) := by
  have hline : ((a ++ 10 :: d).takeWhile (· ≠ 10)).take m = a := by
    rw [takeWhile_newline ha, List.takeWhile_cons_of_neg (by simp), List.append_nil,
      List.take_of_length_le hlt.le]
  rw [getLine, if_neg (by simp)]
  simp only [hline, if_pos hlt]
  rw [← List.drop_drop, List.drop_left]
  rfl

theorem getLine_full (ha : 10 ∉ a) (hne : a ≠ []) (d : Bytes) :
    getLine a.length (a ++ d) = (some a, d) := by
  have hline : ((a ++ d).takeWhile (· ≠ 10)).take a.length = a := by
    rw [takeWhile_newline ha, List.take_left]
  rw [getLine, if_neg (by simp [hne])]
  simp only [hline, lt_irrefl, if_false, List.drop_left]

theorem getLine_end (ha : 10 ∉ a) (hne : a ≠ []) (hle : a.length ≤ m) :
    getLine m a = (some a, []) := by
  rcases hle.lt_or_eq with hlt | rfl
  · have hline : (a.takeWhile (· ≠ 10)).take m = a := by
      have := takeWhile_newline ha []
      rw [List.takeWhile_nil, List.append_nil] at this
      rw [this, List.take_of_length_le hle]
    rw [getLine, if_neg hne]
    simp only [hline, if_pos hlt]
    rw [List.drop_of_length_le (Nat.le_succ _)]
  · have := getLine_full ha hne []
    rwa [List.append_nil] at this

theorem head?_newline (ha : 10 ∉ a) : (a ++ 10 :: d).head? ≠ some 10 ↔ a ≠ [] := by
  rcases a with _ | ⟨x, a⟩
  · simp
  · refine iff_of_true (fun h => ha ?_) (by simp)
    rw [List.cons_append, List.head?_cons, Option.some.injEq] at h
    rw [h]
    exact List.mem_cons_self

theorem returned_of_ne (h0 : 0 ∉ a) (hne : a ≠ []) : returned a = some a := by
  rw [returned, if_pos (List.length_pos_iff.mpr hne), cstr_of_not_mem h0]

/-- An empty line comes out as the end of the file does. -/
theorem returned_eq_iff (h0 : 0 ∉ a) : returned a = some a ↔ a ≠ [] := by
  refine ⟨?_, returned_of_ne h0⟩
  rintro h rfl
  exact absurd h (by simp [returned])

end

/-- It returns the next line and takes it from what is still to come, or reports a failed read
and takes nothing. -/
def RightEnd (g : Gets) (count : UInt32) : Res (Option Bytes) × Gets → Prop
  | (.ok r, g') => (r, g'.left) = getLine (count.toNat - 1) g.left
  | (.stop, g') => g'.left = g.left
  | (.crash, _) => False

/-- **A call is right.** -/
def Right (g : Gets) (count : UInt32) : Prop := RightEnd g count (npcGets count g)

/-- What was kept has no newline in the part that a call takes, or what is behind it may as well
stand behind the other part. -/
def Commutes (m : ℕ) (saved : Bytes) : Prop :=
  ∀ i ∈ (saved.take m).findIdx? (· = 10),
    saved.drop m ++ (saved.take m).drop (i + 1) = (saved.take m).drop (i + 1) ++ saved.drop m

/-- It does not meet an empty line, and takes a part of what was kept whose order is kept; and
if it cannot read it has not taken anything yet. -/
def OrderlyEnd (g : Gets) (count : UInt32) : Res (Option Bytes) × Gets → Prop
  | (.ok _, _) => g.left.head? ≠ some 10 ∧ Commutes (count.toNat - 1) g.saved
  | (.stop, _) => g.saved = [] ∧ g.sys.peer.plan.head? = some none
  | (.crash, _) => False

/-- **What it takes for a call to be right.** -/
def Orderly (g : Gets) (count : UInt32) : Prop := OrderlyEnd g count (npcGets count g)

instance (g : Gets) (count : UInt32) : ∀ r, Decidable (RightEnd g count r)
  | (.ok _, _) => inferInstanceAs (Decidable (_ = _))
  | (.stop, _) => inferInstanceAs (Decidable (_ = _))
  | (.crash, _) => inferInstanceAs (Decidable False)

instance (g : Gets) (count : UInt32) : Decidable (Right g count) :=
  inferInstanceAs (Decidable (RightEnd g count _))

instance (m : ℕ) (saved : Bytes) : Decidable (Commutes m saved) :=
  inferInstanceAs (Decidable (∀ _ ∈ _, _ = _))

instance (g : Gets) (count : UInt32) : ∀ r, Decidable (OrderlyEnd g count r)
  | (.ok _, _) => inferInstanceAs (Decidable (_ ≠ _ ∧ Commutes _ _))
  | (.stop, _) => inferInstanceAs (Decidable (_ = _ ∧ _ = _))
  | (.crash, _) => inferInstanceAs (Decidable False)

instance (g : Gets) (count : UInt32) : Decidable (Orderly g count) :=
  inferInstanceAs (Decidable (OrderlyEnd g count _))

theorem commutes_newline {saved b : Bytes} (h : saved.take m = a ++ 10 :: b)
    (ha : 10 ∉ a) : Commutes m saved ↔ saved.drop m ++ b = b ++ saved.drop m := by
  have hdrop : (a ++ 10 :: b).drop (a.length + 1) = b := by simp
  rw [Commutes, h, findIdx?_append_newline b ha]
  simp only [Option.mem_some_iff, forall_eq', hdrop]

theorem commutes_of_not_mem {saved : Bytes} (h : 10 ∉ saved.take m) : Commutes m saved := by
  rw [Commutes, findIdx?_newline_eq_none.mpr h]
  rintro i ⟨⟩

/-- What is still to come, if there is a newline in the part that is taken. -/
theorem left_newline {b : Bytes} (h : g.saved.take m = a ++ 10 :: b) :
    g.left = a ++ 10 :: (b ++ g.saved.drop m ++ g.rest) := by
  have hsaved : g.saved = a ++ 10 :: b ++ g.saved.drop m := by
    rw [← h, List.take_append_drop]
  calc g.left = a ++ 10 :: b ++ g.saved.drop m ++ g.rest := by rw [left_eq, ← hsaved]
    _ = _ := by simp

/-- **A call is right exactly then.** -/
theorem right_iff (h2 : 2 ≤ count.toNat) (hm : IOHDRSZ < g.sys.msize.toNat)
    (h0 : 0 ∉ g.left) : Right g count ↔ Orderly g count := by
  have hend := npcGets_ends h2 hm
  rw [Right, Orderly]
  rcases hx : npcGets count g with ⟨r, g'⟩
  rw [hx] at hend
  rcases r with r | _ | _
  · obtain ⟨-, ⟨a, b, htake, ha, rfl, hleft'⟩ | ⟨hnl, hend⟩⟩ := hend
    · -- the newline is in what was kept
      have hleft := left_newline htake
      have hlt : a.length < count.toNat - 1 := by
        have := List.length_take_le (count.toNat - 1) g.saved
        rw [htake, List.length_append, List.length_cons] at this
        omega
      have ha0 : 0 ∉ a := fun h => h0 (hleft ▸ List.mem_append_left _ h)
      simp only [RightEnd, OrderlyEnd]
      rw [hleft, getLine_newline ha hlt, head?_newline ha, commutes_newline htake ha, hleft',
        Prod.mk.injEq, returned_eq_iff ha0, List.append_left_inj]
    · simp only [RightEnd, OrderlyEnd]
      rw [and_iff_left (commutes_of_not_mem hnl)]
      rcases hend with ⟨a, d, hleft, ha, hlt, rfl, rfl⟩ | ⟨a, hleft, ha, hle, hfull, rfl⟩
      · have ha0 : 0 ∉ a := fun h => h0 (hleft ▸ List.mem_append_left _ h)
        rw [hleft, getLine_newline ha hlt, head?_newline ha, Prod.mk.injEq, returned_eq_iff ha0,
          and_iff_left rfl]
      · have ha0 : 0 ∉ a := fun h => h0 (hleft ▸ List.mem_append_left _ h)
        rcases eq_or_ne a [] with rfl | hne
        · -- the file is at its end
          have hnil : g'.left = [] := hfull.resolve_left fun h => by
            rw [List.length_nil] at h
            omega
          rw [hleft, hnil]
          exact iff_of_true rfl (by simp)
        · refine iff_of_true ?_ ?_
          · rw [hleft, returned_of_ne ha0 hne]
            rcases hfull with hfull | hnil
            · rw [← hfull, getLine_full ha hne]
            · rw [hnil, List.append_nil, getLine_end ha hne hle]
          · rw [hleft]
            rcases a with _ | ⟨x, a⟩
            · exact absurd rfl hne
            · intro h
              exact ha (Option.some.inj h ▸ List.mem_cons_self)
  · obtain ⟨-, bs, hleft, hiff⟩ := hend
    simp only [RightEnd, OrderlyEnd]
    rw [← hiff, hleft]
    exact ⟨fun h => List.append_left_eq_self.mp h.symm, fun h => by rw [h, List.nil_append]⟩
  · rfl

/-! ### Calls one after another -/

/-- A count that leaves room for a byte and the NUL. -/
abbrev Count := { count : UInt32 // 2 ≤ count.toNat }

/-- A call. -/
def step (g : Gets) (count : Count) : Option Gets :=
  match npcGets count.1 g with
  | (.crash, _) => none
  | (_, g') => some g'

/-- What calls keep: the connection can carry a byte, and there is no NUL to come. -/
structure Readable (g : Gets) : Prop where
  msize : IOHDRSZ < g.sys.msize.toNat
  text : 0 ∉ g.left

theorem Readable.step {count : Count} (h : Readable g) (hstep : step g count = some g') :
    Readable g' := by
  have hend := npcGets_ends count.2 h.msize
  rw [Gets.step] at hstep
  rcases hx : npcGets count.1 g with ⟨r, g''⟩
  rw [hx] at hend hstep
  rcases r with r | _ | _
  · obtain rfl : g'' = g' := Option.some.inj hstep
    obtain ⟨hmsize, hend⟩ := hend
    refine ⟨by rw [hmsize]; exact h.msize, fun h0 => h.text ?_⟩
    rcases hend with ⟨a, b, htake, -, -, hleft'⟩ | ⟨-, ⟨a, d, hleft, -, -, -, rfl⟩ | ⟨a, hleft, -⟩⟩
    · rw [left_newline htake]
      rw [hleft'] at h0
      simp only [List.mem_append, List.mem_cons] at h0 ⊢
      tauto
    · rw [hleft]
      exact List.mem_append_right _ (List.mem_cons_of_mem _ h0)
    · rw [hleft]
      exact List.mem_append_right _ h0
  · obtain rfl : g'' = g' := Option.some.inj hstep
    obtain ⟨hmsize, bs, hleft, -⟩ := hend
    refine ⟨by rw [hmsize]; exact h.msize, fun h0 => h.text ?_⟩
    rw [hleft]
    exact List.mem_append_right _ h0
  · exact absurd hstep (by rintro ⟨⟩)

/-- A file that has just been opened, with a plan for its reads. -/
def opened (file : Bytes) (fits : file.length < 2 ^ 63) (plan : List (Option ℕ)) : Gets where
  sys := { msize := 65536, fidpool := .npcCreatePool NOFID, peer := ⟨file, fits, plan⟩ }
  fid := { fid := 1 }
  buf := none

end Gets

end Diod
