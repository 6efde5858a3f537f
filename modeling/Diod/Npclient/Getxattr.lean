import Diod.Npclient.Calls
import Diod.Backend.Xattrs

/-!
# Getting an attribute

`npc_getxattr` asks for the length of an attribute and then reads until the caller's buffer is
full or nothing more comes, as one reads a file. The server does not answer like that: a `Tread`
that goes behind the end of an attribute fails, and does not return what there is. So **a buffer
that is larger than the attribute makes the call fail**, unless the number of bytes that are asked
for, a `u32`, has lost the difference. And if the buffer is too small, the length is returned all
the same, with an error number that nobody is told to look at.

An attribute of length `L` is had right just if the buffer has size 0, or its size is `L` modulo
`2³²` (`Diod.Attrsrv.getxattr_right_iff`). The loop ends, if not with an error, when it asks for
nothing (`Diod.Attrsrv.mod_of_ended`). As long as nothing has failed, what is in the buffer is the
beginning of the value, and how much the server is asked for depends on its length alone
(`Diod.Attrsrv.xattrLoop_reads`).
-/

namespace Diod

variable {σ : Type}

/-- **A server with a file**: the operation on its fid, and the fid of the attribute that has been
opened. -/
structure Attrsrv (σ : Type) where
  o : Ost σ DiodFid
  attr : Option DiodFid := none

namespace Attrsrv

open Npc Prog

variable (H : Host σ) (msize : UInt32)

/-- The reply of an operation on the fid of the attribute. -/
def answer (s : Attrsrv σ) : Res Msg × Ost σ DiodFid → Msg × Attrsrv σ
  | (.ok rc, o) => (rc, ⟨{ o with f := s.o.f }, some o.f⟩)
  | (_, o) => (.rlerror (.ofNat o.ecode), ⟨{ o with f := s.o.f }, some o.f⟩)

/-- The requests of `npc_getxattr`, with the check of `np_read`. -/
def rpc : Msg → Attrsrv σ → Msg × Attrsrv σ
  | .twalk _ _ names, s => (.rwalk (names.map fun _ => ⟨0, 0, 0⟩), s)
  | .txattrwalk _ _ name, s =>
    match Op.diodXattrwalk H name s.o with
    | (.ok (rc, d), o) => (rc, ⟨o, some d⟩)
    | (_, o) => (.rlerror (.ofNat o.ecode), { s with o := o })
  | .tread _ offset count, s =>
    if count.toNat + IOHDRSZ > msize.toNat then (.rlerror (.ofNat EIO), s)
    else
      match s.attr with
      | none => (.rlerror (.ofNat EBADF), s)
      | some d => s.answer (Op.diodRead H offset count { s.o with f := d })
  | .tclunk _, s => (.rclunk, s)
  | _, s => (.rlerror (.ofNat ENOSYS), s)

/-- **The value has been fetched**, and can be read from the fid of the attribute. -/
def Serving (v : Bytes) (c : Npcfsys (Attrsrv σ)) : Prop :=
  c.msize = msize ∧ ∃ d x, c.peer.attr = some d ∧ d.isXattr = true ∧ d.xattr = some x ∧
    x.set = false ∧ x.buf = v ∧ x.len = v.length

variable {H msize} {v : Bytes} {c : Npcfsys (Attrsrv σ)} {f : Npcfid} {size : ℕ}

/-! ### One read -/

section

variable (hmem : ∀ s, (H.malloc s).1 ≠ none)

include hmem

/-- A `Tread` of an attribute returns all that is asked for, or fails. -/
theorem diodRead_eq {o : Ost σ DiodFid} {x : Xattr} (hi : o.f.isXattr = true)
    (hx : o.f.xattr = some x) (hs : x.set = false) (offset : UInt64) (count : UInt32) :
    ∃ o', o'.f = o.f ∧ Op.diodRead H offset count o =
      if offset.toNat + count.toNat ≤ x.len then
        (.ok (.rread (.ofNat ((x.buf.drop offset.toNat).take count.toNat).length)
          ((x.buf.drop offset.toNat).take count.toNat)), o')
      else (.stop, o') := by
  have hopen : Op.openOrXattr o = (.ok (), o) := by
    rw [Op.openOrXattr, Op.fid_bind, Op.failIf_of_not (by simp [hi])]
  rw [Op.diodRead, bind_of_ok hopen]
  rcases Op.allocOr_cases H ENOMEM o with ⟨-, ha⟩ | ⟨hm, -⟩
  · have hor : Op.xattrOrIoctx { o with host := (H.malloc o.host).2 } = (.ok (.inl x), _) :=
      Op.xattrOrIoctx_of_xattr hx hi
    rw [bind_of_ok ha, bind_of_ok hor]
    by_cases hb : offset.toNat + count.toNat ≤ x.len
    · refine ⟨{ o with host := (H.malloc o.host).2 }, rfl, ?_⟩
      rw [Op.readFrom, Op.xattrPread, if_pos ⟨by simp [hs], Op.boundsCheck_iff.mpr hb⟩, if_pos hb]
      rfl
    · refine ⟨{ o with host := (H.malloc o.host).2, ecode := EINVAL }, rfl, ?_⟩
      rw [Op.readFrom, Op.xattrPread, if_neg fun h => hb (Op.boundsCheck_iff.mp h.2), if_neg hb]
      rfl
  · exact absurd hm (hmem _)

variable (hm : IOHDRSZ < msize.toNat)

include hm

theorem npcRead_eq (hc : Serving msize v c) (f : Npcfid) (count : UInt32) :
    ∃ c', Serving msize v c' ∧ npcRead (rpc H msize) f count c =
      if f.offset.toNat + (ioLimit msize count).toNat ≤ v.length then
        (.ok ({ f with offset := f.offset + .ofNat (ioLimit msize count).toNat },
          (v.drop f.offset.toNat).take (ioLimit msize count).toNat), c')
      else (.stop, c') := by
  obtain ⟨rfl, d, x, hd, hi, hx, hset, rfl, hlen⟩ := hc
  obtain ⟨o', hf, hread⟩ := diodRead_eq hmem (o := { c.peer.o with f := d }) hi hx hset f.offset
    (ioLimit c.msize count)
  have hfits : ¬(ioLimit c.msize count).toNat + IOHDRSZ > c.msize.toNat := by
    rw [toNat_ioLimit hm]
    omega
  have hrpc : rpc H c.msize (.tread f.fid f.offset (ioLimit c.msize count)) c.peer =
      c.peer.answer (Op.diodRead H f.offset (ioLimit c.msize count) { c.peer.o with f := d }) := by
    rw [rpc, if_neg hfits, hd]
  rw [hread, hlen] at hrpc
  have hserving : ∀ e, Serving c.msize x.buf
      { c with peer := ⟨{ o' with f := c.peer.o.f }, some o'.f⟩, ecode := e } :=
    fun _ => ⟨rfl, o'.f, x, rfl, hf ▸ hi, hf ▸ hx, hset, rfl, hlen⟩
  split
  · rename_i hle
    rw [if_pos hle] at hrpc
    have htake : ((x.buf.drop f.offset.toNat).take (ioLimit c.msize count).toNat).length =
        (ioLimit c.msize count).toNat := by
      rw [List.length_take, List.length_drop]
      omega
    have hreply := npcRead_of_reply htake.le hrpc
    rw [htake] at hreply
    exact ⟨_, hserving _, hreply⟩
  · rename_i hgt
    rw [if_neg hgt] at hrpc
    exact ⟨_, hserving _, npcRead_of_error hrpc⟩

/-! ### The loop -/

/-- **The loop ends when it asks for nothing**, unless it ends with an error. -/
theorem mod_of_ended {k : ℕ} {buf buf' : Bytes} {c' : Npcfsys (Attrsrv σ)}
    (hc : Serving msize v c) (h : xattrLoop (rpc H msize) k f size buf c = (.ok buf', c')) :
    (size - buf'.length) % 2 ^ 32 = 0 := by
  induction k generalizing f buf c with
  | zero => cases h
  | succ k ih =>
    rw [xattrLoop] at h
    by_cases hlt : buf.length < size
    · rw [if_pos hlt] at h
      obtain ⟨c₁, hc₁, hread⟩ := npcRead_eq hmem hm hc f (.ofNat (size - buf.length))
      by_cases hle : f.offset.toNat + (ioLimit msize (.ofNat (size - buf.length))).toNat ≤ v.length
      · rw [if_pos hle] at hread
        rw [bind_of_ok (attempt_of_ok hread)] at h
        dsimp only at h
        by_cases hnil : (v.drop f.offset.toNat).take
            (ioLimit msize (.ofNat (size - buf.length))).toNat = []
        · rw [if_pos hnil] at h
          obtain rfl : buf = buf' := Res.ok.inj (congrArg Prod.fst h)
          have hzero := congrArg List.length hnil
          rw [List.length_take, List.length_drop, List.length_nil] at hzero
          rw [toNat_ioLimit hm] at hle hzero
          have : (UInt32.ofNat (size - buf.length)).toNat = (size - buf.length) % 2 ^ 32 := rfl
          omega
        · rw [if_neg hnil] at h
          exact ih hc₁ h
      · rw [if_neg hle] at hread
        rw [bind_of_ok (attempt_of_stop hread)] at h
        dsimp only at h
        split at h
        · cases h
        · exact ih hc₁ h
    · rw [if_neg hlt] at h
      obtain rfl : buf = buf' := Res.ok.inj (congrArg Prod.fst h)
      rw [Nat.sub_eq_zero_of_le (not_lt.mp hlt), Nat.zero_mod]

/-- **As long as nothing fails** the buffer has the beginning of the value. With a size that is
`L` modulo `2³²` nothing does, and `L` modulo `2³²` is also what is read in the end. -/
theorem xattrLoop_reads (hv : v.length < 2 ^ 63) (hsize : size % 2 ^ 32 = v.length % 2 ^ 32)
    (hle : v.length ≤ size) {k n : ℕ} (hc : Serving msize v c) (hn : n ≤ v.length % 2 ^ 32)
    (hoff : f.offset.toNat = n) (hk : v.length % 2 ^ 32 - n < k) :
    ∃ c', xattrLoop (rpc H msize) k f size (v.take n) c =
      (.ok (v.take (v.length % 2 ^ 32)), c') := by
  induction k generalizing f n c with
  | zero => exact absurd hk (Nat.not_lt_zero _)
  | succ k ih =>
    have hmod : v.length % 2 ^ 32 ≤ v.length := Nat.mod_le _ _
    have hlen : (v.take n).length = n := List.length_take_of_le (hn.trans hmod)
    rw [xattrLoop, hlen]
    by_cases hlt : n < size
    · rw [if_pos hlt]
      have hcount : (UInt32.ofNat (size - n)).toNat = v.length % 2 ^ 32 - n := by
        change (size - n) % 2 ^ 32 = _
        omega
      have hlim := toNat_ioLimit hm (.ofNat (size - n))
      rw [hcount] at hlim
      obtain ⟨c₁, hc₁, hread⟩ := npcRead_eq hmem hm hc f (.ofNat (size - n))
      rw [hoff, if_pos (by omega)] at hread
      rw [bind_of_ok (attempt_of_ok hread)]
      dsimp only
      generalize (ioLimit msize (.ofNat (size - n))).toNat = j at *
      split
      · rename_i hnil
        have hzero := congrArg List.length hnil
        rw [List.length_take, List.length_drop, List.length_nil] at hzero
        obtain rfl : n = v.length % 2 ^ 32 := by omega
        exact ⟨_, rfl⟩
      · rename_i hne
        have hpos : 0 < j := Nat.pos_of_ne_zero fun h => hne (by rw [h, List.take_zero])
        rw [← List.take_add]
        refine ih hc₁ (by omega) ?_ (by omega)
        rw [UInt64.toNat_add, hoff, UInt64.toNat_ofNat_of_lt' (by change j < 2 ^ 64; omega)]
        exact Nat.mod_eq_of_lt (by omega)
    · have hfull := hle.trans (not_lt.mp hlt)
      obtain rfl : n = v.length % 2 ^ 32 := by omega
      rw [if_neg hlt]
      exact ⟨c, rfl⟩

end

/-! ### The call -/

/-- What is done behind a part of a call, whatever became of it, does not change the result. -/
theorem fst_attempt_bind {S α : Type} {x : Prog S α} {g : Option α → Prog S α} {s : S}
    (hsome : ∀ a s', (g (some a) s').1 = .ok a) (hnone : ∀ s', (g none s').1 = .stop) :
    ((x.attempt >>= g) s).1 = (x s).1 := by
  rcases hx : x s with ⟨_ | _ | _, s'⟩
  · rw [bind_of_ok (attempt_of_ok hx)]
    exact hsome _ s'
  · rw [bind_of_ok (attempt_of_stop hx)]
    exact hnone s'
  · rw [bind_of_crash (attempt_of_crash hx)]

/-- **The call is right**: it returns the length, and the value if there is room for it, and fails
if there is a buffer that is too small. -/
def Right (v : Bytes) (size : ℕ) (r : Res (ℤ × Bytes)) : Prop :=
  if size = 0 then r = .ok (v.length, [])
  else if v.length ≤ size then r = .ok (v.length, v)
  else r = .stop

/-- What `npc_getxattr` returns, from there on where the attribute is open. -/
theorem npcGetxattr_fst {c₁ : Npcfsys (Attrsrv σ)} {root : Npcfid} {path attr : Bytes} {n : UInt32}
    {pool : Npcpool} {s : Attrsrv σ} (size reads : ℕ) (hv : v.length < 2 ^ 63)
    (hwalk : npcWalk (rpc H msize) root (some path) c = (.ok f, c₁))
    (hid : c₁.fidpool.npcGetId = some (n, pool))
    (hopen : rpc H msize (.txattrwalk f.fid n attr) c₁.peer =
      (.rxattrwalk (.ofNat v.length), s)) :
    (npcGetxattr (rpc H msize) reads root path attr size c).1 =
      if size = 0 then .ok (v.length, [])
      else if (v.length : ℤ) > size then .ok (v.length, [])
      else ((do
        let buf ← xattrLoop (rpc H msize) reads ⟨n, 0, 0⟩ size []
        pure ((buf.length : ℤ), buf)) { c₁ with fidpool := pool, peer := s }).1 := by
  have halloc : npcFidAlloc c₁ = (.ok ⟨n, 0, 0⟩, { c₁ with fidpool := pool }) := by
    rw [npcFidAlloc, hid]
  have hclunk : ∀ (g : Npcfid) (c : Npcfsys (Attrsrv σ)),
      (npcClunk (rpc H msize) g).attempt c = (.ok (some ()), _) := fun _ _ => rfl
  rw [npcGetxattr, bind_of_ok hwalk, bind_of_ok halloc]
  refine (fst_attempt_bind (fun _ _ => ?_) fun _ => ?_).trans ?_
  · rw [bind_of_ok (hclunk _ _), bind_of_ok (hclunk _ _)]
    rfl
  · rw [bind_of_ok (hclunk _ _), bind_of_ok (hclunk _ _)]
    rfl
  · have hlen : (UInt64.ofNat v.length).toNat = v.length :=
      UInt64.toNat_ofNat_of_lt' (hv.trans (by decide))
    have hsize : xattrSize (.rxattrwalk (.ofNat v.length)) = v.length := by
      rw [xattrSize, hlen, if_pos hv]
    have hreply : npcRpc (rpc H msize) (.txattrwalk f.fid n attr) { c₁ with fidpool := pool } =
        (.ok _, { c₁ with fidpool := pool, peer := s }) := npcRpc_of_reply _ (by rintro ⟨⟩) hopen
    have hxwalk : npcXattrwalk (rpc H msize) f ⟨n, 0, 0⟩ attr { c₁ with fidpool := pool } =
        (.ok v.length, { c₁ with fidpool := pool, peer := s }) := by
      rw [npcXattrwalk, bind_of_ok hreply, hsize, if_neg (by omega)]
      rfl
    rw [bind_of_ok hxwalk]
    split
    · rfl
    · split <;> rfl

/-- **An attribute is had right just if** the buffer has size 0, or a size that is the length of
the attribute modulo `2³²`. -/
theorem getxattr_right_iff {value : σ → Bytes → Option Bytes → Bytes} (hH : H.Attributes value)
    (hmem : ∀ s, (H.malloc s).1 ≠ none) (hm : IOHDRSZ < msize.toNat) {c₁ : Npcfsys (Attrsrv σ)}
    {root : Npcfid} {path attr p : Bytes} {n : UInt32} {pool : Npcpool}
    {m : Msg} {d : DiodFid} {o : Ost σ DiodFid}
    (hwalk : npcWalk (rpc H msize) root (some path) c = (.ok f, c₁)) (hc : c₁.msize = msize)
    (hid : c₁.fidpool.npcGetId = some (n, pool))
    (hopen : Op.diodXattrwalk H attr c₁.peer.o = (.ok (m, d), o)) (hp : c₁.peer.o.f.path.s = p)
    (hlength : value (atLength H attr c₁.peer.o.host) p (xattrName attr) = v)
    (hfetch : value (atFetch H p attr c₁.peer.o.host) p (xattrName attr) = v)
    (hv : v.length < 2 ^ 63) (size : ℕ) :
    (∃ k, ∀ reads ≥ k,
      Right v size (npcGetxattr (rpc H msize) reads root path attr size c).1) ↔
    size = 0 ∨ size % 2 ^ 32 = v.length := by
  obtain ⟨mem, he, he', rfl, hi, hx⟩ := Op.diodXattrwalk_spec hopen
  obtain ⟨hnum, hdata⟩ := hH.fetchReply_eq H he he'
  rw [hp] at hnum hdata hx hopen
  rw [hlength, hfetch] at hdata
  rw [hfetch] at hnum
  have hbuf : (fetchReply H p attr c₁.peer.o.host).1.data = v := by
    rw [hdata]
    split
    · exact Eq.symm ‹_›
    · rfl
  rw [hnum, hbuf, storeAt_memBytes] at hx
  have hrpc : rpc H msize (.txattrwalk f.fid n attr) c₁.peer =
      (.rxattrwalk (.ofNat v.length), ⟨o, some d⟩) := by
    rw [rpc, hopen, hnum]
  have hserving : Serving msize v { c₁ with fidpool := pool, peer := ⟨o, some d⟩ } :=
    ⟨hc, d, _, rfl, hi, hx, rfl, rfl, rfl⟩
  have hcall := fun reads => npcGetxattr_fst size reads hv hwalk hid hrpc
  simp only [hcall, Right]
  by_cases hzero : size = 0
  · simp [hzero]
  rw [or_iff_right hzero]
  simp only [if_neg hzero]
  by_cases hle : v.length ≤ size
  · simp only [if_pos hle, if_neg (show ¬(v.length : ℤ) > size by omega)]
    have hreads : size % 2 ^ 32 = v.length % 2 ^ 32 → ∀ k > v.length, ∃ c',
        xattrLoop (rpc H msize) k ⟨n, 0, 0⟩ size []
          { c₁ with fidpool := pool, peer := ⟨o, some d⟩ } =
            (.ok (v.take (v.length % 2 ^ 32)), c') := fun hmod k hk =>
      xattrLoop_reads hmem hm hv hmod hle hserving (Nat.zero_le _) rfl
        ((Nat.sub_le _ _).trans_lt ((Nat.mod_le _ _).trans_lt hk))
    constructor
    · rintro ⟨k, hk⟩
      have hret := hk (max k (v.length + 1)) (le_max_left _ _)
      rcases hloop : xattrLoop (rpc H msize) (max k (v.length + 1)) ⟨n, 0, 0⟩ size []
        { c₁ with fidpool := pool, peer := ⟨o, some d⟩ } with ⟨buf | _ | _, c'⟩
      · rw [bind_of_ok hloop] at hret
        obtain rfl : buf = v := congrArg Prod.snd (Res.ok.inj hret)
        have hend := mod_of_ended hmem hm hserving hloop
        have hmod : size % 2 ^ 32 = buf.length % 2 ^ 32 := by omega
        obtain ⟨c'', htake⟩ := hreads hmod _ (le_max_right k _)
        have hlen := congrArg List.length (Res.ok.inj (congrArg Prod.fst (hloop.symm.trans htake)))
        rw [List.length_take] at hlen
        omega
      · rw [bind_of_stop hloop] at hret
        cases hret
      · rw [bind_of_crash hloop] at hret
        cases hret
    · intro hmod
      have hlen : v.length % 2 ^ 32 = v.length := by omega
      refine ⟨v.length + 1, fun reads hge => ?_⟩
      obtain ⟨c', hloop⟩ := hreads (by omega) reads hge
      rw [hlen, List.take_length] at hloop
      rw [bind_of_ok hloop]
      rfl
  · simp only [if_neg hle, if_pos (show (v.length : ℤ) > size by omega)]
    refine iff_of_false ?_ fun h => hle (h ▸ Nat.mod_le _ _)
    rintro ⟨k, hk⟩
    cases hk k le_rfl

/-- A client that has attached to a server, with a file that has an attribute of three bytes. -/
def attached : Npcfsys (Attrsrv ℕ) where
  msize := 8192
  fidpool := .npcCreatePool 1024
  peer := ⟨⟨onePath 1, plainFid.f⟩, none⟩

/-- A buffer that is as large as the attribute. -/
theorem getxattr_exact : ∃ k, ∀ reads ≥ k, Right [1, 2, 3] 3
    (npcGetxattr (rpc growing 8192) reads ⟨9, 0, 0⟩ [] [120] 3 attached).1 := by
  have hwalk : npcWalk (rpc growing 8192) ⟨9, 0, 0⟩ (some []) attached = (.ok _, _) := rfl
  have hopen : Op.diodXattrwalk growing [120] attached.peer.o = (.ok (_, _), _) := rfl
  refine (getxattr_right_iff growing_attributes ?_ ?_ hwalk rfl rfl hopen rfl rfl rfl ?_ 3).mpr ?_
  · exact fun _ h => by cases h
  · decide
  · decide
  · exact Or.inr rfl

/-- **A buffer that is larger** makes the call fail, and one that is too small does not. -/
theorem getxattr_larger_fails :
    (npcGetxattr (rpc growing 8192) 9 ⟨9, 0, 0⟩ [] [120] 4 attached).1.ending = .stop ∧
    (npcGetxattr (rpc growing 8192) 9 ⟨9, 0, 0⟩ [] [120] 2 attached).1 = .ok (3, []) :=
  ⟨by decide +kernel, rfl⟩

end Attrsrv

end Diod
