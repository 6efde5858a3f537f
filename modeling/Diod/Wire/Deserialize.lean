import Diod.Wire.Buf

/-!
# Decoding a packet

`np_deserialize` reads the header of a packet and then, in a `switch` over the
message type, the fields of that type one after another. `Diod.getU` is the
`switch`; it follows the source branch by branch.

The branches are all of one kind, and `Diod.reads_getU` says so once: each reads
the fields that `Diod.MsgType.layout` – the protocol document's list – names, in
that order, and nothing else. What is proved about decoding afterwards is proved
by induction on a list of fields (`Diod.getVals`) and not by going through the
message types again.
-/

namespace Diod

/-- A block of data: its count, and a pointer to it. The count is passed to
`buf_alloc` as an `int`. -/
def bufGetData : BufM (UInt32 × Option ℤ) := do
  let count ← bufGetInt32
  let data ← bufAlloc (asInt count.toNat)
  return (count, data)

/-- The array of a walk: its number of elements, which may not exceed `MAXWELEM`,
and the elements. -/
def bufGetWalk {α : Type} (x : BufM α) : BufM (List α) := do
  let n ← bufGetInt16
  if n.toNat > MAXWELEM then failure
  bufTimes x n.toNat

/-- The `switch` of `np_deserialize`: the fields of each message type, in the order
they are read. -/
def getU : MsgType → BufM (Fcall Npstr (Option ℤ))
  | .rlerror => return .rlerror (← bufGetInt32)
  | .tstatfs => return .tstatfs (← bufGetInt32)
  | .rstatfs => do
      return .rstatfs ⟨← bufGetInt32, ← bufGetInt32, ← bufGetInt64, ← bufGetInt64, ← bufGetInt64,
        ← bufGetInt64, ← bufGetInt64, ← bufGetInt64, ← bufGetInt32⟩
  | .tlopen => return .tlopen (← bufGetInt32) (← bufGetInt32)
  | .rlopen => return .rlopen (← bufGetQid) (← bufGetInt32)
  | .tlcreate => do
      return .tlcreate (← bufGetInt32) (← bufGetStr) (← bufGetInt32) (← bufGetInt32)
        (← bufGetInt32)
  | .rlcreate => return .rlcreate (← bufGetQid) (← bufGetInt32)
  | .tsymlink => return .tsymlink (← bufGetInt32) (← bufGetStr) (← bufGetStr) (← bufGetInt32)
  | .rsymlink => return .rsymlink (← bufGetQid)
  | .tmknod => do
      return .tmknod (← bufGetInt32) (← bufGetStr) (← bufGetInt32) (← bufGetInt32)
        (← bufGetInt32) (← bufGetInt32)
  | .rmknod => return .rmknod (← bufGetQid)
  | .trename => return .trename (← bufGetInt32) (← bufGetInt32) (← bufGetStr)
  | .rrename => return .rrename
  | .treadlink => return .treadlink (← bufGetInt32)
  | .rreadlink => return .rreadlink (← bufGetStr)
  | .tgetattr => return .tgetattr (← bufGetInt32) (← bufGetInt64)
  | .rgetattr => do
      return .rgetattr ⟨← bufGetInt64, ← bufGetQid, ← bufGetInt32, ← bufGetInt32, ← bufGetInt32,
        ← bufGetInt64, ← bufGetInt64, ← bufGetInt64, ← bufGetInt64, ← bufGetInt64, ← bufGetInt64,
        ← bufGetInt64, ← bufGetInt64, ← bufGetInt64, ← bufGetInt64, ← bufGetInt64, ← bufGetInt64,
        ← bufGetInt64, ← bufGetInt64, ← bufGetInt64⟩
  | .tsetattr => do
      return .tsetattr ⟨← bufGetInt32, ← bufGetInt32, ← bufGetInt32, ← bufGetInt32,
        ← bufGetInt32, ← bufGetInt64, ← bufGetInt64, ← bufGetInt64, ← bufGetInt64, ← bufGetInt64⟩
  | .rsetattr => return .rsetattr
  | .txattrwalk => return .txattrwalk (← bufGetInt32) (← bufGetInt32) (← bufGetStr)
  | .rxattrwalk => return .rxattrwalk (← bufGetInt64)
  | .txattrcreate => do
      return .txattrcreate (← bufGetInt32) (← bufGetStr) (← bufGetInt64) (← bufGetInt32)
  | .rxattrcreate => return .rxattrcreate
  | .treaddir => return .treaddir (← bufGetInt32) (← bufGetInt64) (← bufGetInt32)
  | .rreaddir => do
      let (count, data) ← bufGetData
      return .rreaddir count data
  | .tfsync => return .tfsync (← bufGetInt32) (← bufGetInt32)
  | .rfsync => return .rfsync
  | .tlock => do
      return .tlock (← bufGetInt32) (← bufGetInt8) (← bufGetInt32) (← bufGetInt64)
        (← bufGetInt64) (← bufGetInt32) (← bufGetStr)
  | .rlock => return .rlock (← bufGetInt8)
  | .tgetlock => do
      return .tgetlock (← bufGetInt32) (← bufGetInt8) (← bufGetInt64) (← bufGetInt64)
        (← bufGetInt32) (← bufGetStr)
  | .rgetlock => do
      return .rgetlock (← bufGetInt8) (← bufGetInt64) (← bufGetInt64) (← bufGetInt32)
        (← bufGetStr)
  | .tlink => return .tlink (← bufGetInt32) (← bufGetInt32) (← bufGetStr)
  | .rlink => return .rlink
  | .tmkdir => return .tmkdir (← bufGetInt32) (← bufGetStr) (← bufGetInt32) (← bufGetInt32)
  | .rmkdir => return .rmkdir (← bufGetQid)
  | .trenameat => return .trenameat (← bufGetInt32) (← bufGetStr) (← bufGetInt32) (← bufGetStr)
  | .rrenameat => return .rrenameat
  | .tunlinkat => return .tunlinkat (← bufGetInt32) (← bufGetStr) (← bufGetInt32)
  | .runlinkat => return .runlinkat
  | .tversion => return .tversion (← bufGetInt32) (← bufGetStr)
  | .rversion => return .rversion (← bufGetInt32) (← bufGetStr)
  | .tauth => return .tauth (← bufGetInt32) (← bufGetStr) (← bufGetStr) (← bufGetInt32)
  | .rauth => return .rauth (← bufGetQid)
  | .tattach => do
      return .tattach (← bufGetInt32) (← bufGetInt32) (← bufGetStr) (← bufGetStr) (← bufGetInt32)
  | .rattach => return .rattach (← bufGetQid)
  | .tflush => return .tflush (← bufGetInt16)
  | .rflush => return .rflush
  | .twalk => return .twalk (← bufGetInt32) (← bufGetInt32) (← bufGetWalk bufGetStr)
  | .rwalk => return .rwalk (← bufGetWalk bufGetQid)
  | .tread => return .tread (← bufGetInt32) (← bufGetInt64) (← bufGetInt32)
  | .rread => do
      let (count, data) ← bufGetData
      return .rread count data
  | .twrite => do
      let fid ← bufGetInt32
      let offset ← bufGetInt64
      let (count, data) ← bufGetData
      return .twrite fid offset count data
  | .rwrite => return .rwrite (← bufGetInt32)
  | .tclunk => return .tclunk (← bufGetInt32)
  | .rclunk => return .rclunk
  | .tremove => return .tremove (← bufGetInt32)
  | .rremove => return .rremove

/-- `np_deserialize`, from the `switch` on. -/
def npDeserializeU (size : UInt32) (type : UInt8) (tag : UInt16) : BufM Npfcall :=
  match MsgType.ofCode type with
  | none => failure
  | some t => do
    let u ← getU t
    let b ← get
    if bufCheckOverflow b then failure
    else return { size, type, tag, pkt := b.mem, u }

/-- `np_deserialize` -/
def npDeserialize : BufM Npfcall := do
  bufInit 0 4
  let size ← bufGetInt32
  bufInit 4 (asInt (size - 4).toNat)
  let type ← bufGetInt8
  let tag ← bufGetInt16
  npDeserializeU size type tag

/-- `np_deserialize` of a packet: the message and the buffer it leaves, or `none`
from the label `error`. -/
def deserialize (pkt : Bytes) : Option (Npfcall × Cbuf) := npDeserialize ⟨pkt, 0, 0⟩

/-- What `np_deserialize` returns: the size of the message as an `int`, or zero. -/
def deserializeRet (pkt : Bytes) : ℤ := ((deserialize pkt).map fun x => asInt x.1.size.toNat).getD 0

/-- One field, read as its kind is read. -/
def getVal : Kind → BufM (Val Npstr (Option ℤ))
  | .int 1 => return .int (← bufGetInt8).toNat
  | .int 2 => return .int (← bufGetInt16).toNat
  | .int 4 => return .int (← bufGetInt32).toNat
  | .int 8 => return .int (← bufGetInt64).toNat
  | .int w => return .int (← bufGetInt w)
  | .str => return .str (← bufGetStr)
  | .data => do
    let (count, data) ← bufGetData
    return .data count.toNat data
  | .names => return .names (← bufGetWalk bufGetStr)
  | .qids => return .qids (← bufGetWalk bufGetQid)

/-- One field after another. -/
def getVals : List Kind → BufM (List (Val Npstr (Option ℤ)))
  | [] => return []
  | k :: ks => return (← getVal k) :: (← getVals ks)

/-! ### The branches of the switch -/

/-- A piece of the decoder reads the fields `ks` of a message of type `t`, and puts
them where `k` says. -/
def Reads (x : BufM (Fcall Npstr (Option ℤ))) (t : MsgType)
    (k : List (Val Npstr (Option ℤ)) → List (Val Npstr (Option ℤ))) (ks : List Kind) : Prop :=
  (fun u => (u.type, u.vals)) <$> x = (fun vs => (t, k vs)) <$> getVals ks

namespace Reads

variable {t : MsgType} {k : List (Val Npstr (Option ℤ)) → List (Val Npstr (Option ℤ))}
  {ks : List Kind}

theorem done {u : Fcall Npstr (Option ℤ)} (ht : u.type = t) (hv : u.vals = k []) :
    Reads (pure u) t k [] := by
  simp [Reads, getVals, ht, hv]

theorem bind {α : Type} {x : BufM α} {v : α → Val Npstr (Option ℤ)} {d : Kind}
    {f : α → BufM (Fcall Npstr (Option ℤ))} (hx : getVal d = (return v (← x)))
    (hf : ∀ a, Reads (f a) t (fun vs => k (v a :: vs)) ks) : Reads (x >>= f) t k (d :: ks) := by
  simp only [Reads, getVals, hx, map_bind, bind_assoc, pure_bind, map_pure]
  refine bind_congr fun a => (hf a).trans ?_
  simp

theorem qid {f : Npqid → BufM (Fcall Npstr (Option ℤ))}
    (hf : ∀ a, Reads (f a) t (fun vs =>
      k (.int a.type.toNat :: .int a.version.toNat :: .int a.path.toNat :: vs)) ks) :
    Reads (bufGetQid >>= f) t k (.int 1 :: .int 4 :: .int 8 :: ks) := by
  simp only [bufGetQid, bind_assoc, pure_bind]
  exact bind rfl fun _ => bind rfl fun _ => bind rfl fun _ => hf _

end Reads

section

attribute [local irreducible] bufGetInt8 bufGetInt16 bufGetInt32 bufGetInt64 bufGetStr bufGetQid
  bufGetWalk bufGetData

theorem reads_getU (t : MsgType) : Reads (getU t) t (fun vs => vs) t.layout := by
  cases t
  all_goals
    dsimp only [getU, MsgType.layout]
    repeat'
      first
      | refine Reads.qid fun _ => ?_
      | refine Reads.bind rfl fun _ => ?_
      | exact Reads.done rfl rfl

end

theorem bufM_map {α β : Type} (g : α → β) (x : BufM α) (b : Cbuf) :
    (g <$> x) b = (x b).map fun p => (g p.1, p.2) := by
  change (x b).bind _ = _
  cases x b <;> rfl

variable {t : MsgType}

theorem exists_u {b b' : Cbuf} {vs : List (Val Npstr (Option ℤ))}
    (h : getVals t.layout b = some (vs, b')) :
    ∃ u, u.type = t ∧ u.vals = vs ∧ getU t b = some (u, b') := by
  have hr := congrFun (reads_getU t) b
  simp only [bufM_map, h, Option.map_some] at hr
  obtain ⟨⟨u, b₁⟩, hu, he⟩ := Option.map_eq_some_iff.mp hr
  simp only [Prod.mk.injEq] at he
  obtain ⟨⟨ht, hv⟩, rfl⟩ := he
  exact ⟨u, ht, hv, hu⟩

/-- **A branch of the `switch` reads the fields of its message type.** -/
theorem getU_eq_some {b b' : Cbuf} {u : Fcall Npstr (Option ℤ)} :
    getU t b = some (u, b') ↔ u.type = t ∧ getVals t.layout b = some (u.vals, b') := by
  constructor
  · intro hu
    have hr := congrFun (reads_getU t) b
    simp only [bufM_map, hu, Option.map_some] at hr
    obtain ⟨⟨vs, b₁⟩, hvs, he⟩ := Option.map_eq_some_iff.mp hr.symm
    simp only [Prod.mk.injEq] at he
    obtain ⟨⟨ht, rfl⟩, rfl⟩ := he
    exact ⟨ht.symm, hvs⟩
  · rintro ⟨ht, hvs⟩
    obtain ⟨u', ht', hv, hu'⟩ := exists_u hvs
    rw [hu', Fcall.ext_vals (ht'.trans ht.symm) hv]

end Diod
