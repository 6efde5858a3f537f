import Mathlib.Data.List.Forall2
import Diod.Lib.Runs
import Diod.Lib.Triple
import Diod.Backend.Effects

/-!
# Writing and reading attributes

A fid that an attribute hangs on is read and written with `Tread` and `Twrite`, like a file. What
is written goes to the host when the fid is closed, and what is read was fetched when the fid was
made, by a `Txattrwalk`. So there are two things to ask: whether what is stored is what was
written, and whether what is read is a value that the attribute had.

**Writing.** The buffer that a `Txattrcreate` makes is not cleared, and nothing says which of its
bytes have been written. Whenever the fid is closed, by a `Tclunk` or because the connection is
gone, **the whole buffer is stored** (`Diod.xattr_stores_unwritten`), and an attribute of size 0 is
removed. So it is stored as it should be if and only if it is closed by a `Tclunk`, is not empty,
and all of it has been written (`Diod.xattr_commit_iff`).

**Reading.** A `Txattrwalk` fetches an attribute, or the list of their names, with two calls: one
with size 0, which returns the length, and one with a buffer of that size. Other processes may
change the attribute between the two. If it has grown, the second call fails with `ERANGE`, and if
it has shrunk, `x->len` is what the second call returns. But a size of 0 means something else to
the kernel. If the attribute was empty at first, the second call is made with size 0 too: it
stores nothing and returns the length again, and that is taken for the number of bytes in the
buffer. When the attribute was given a value in between, reading from the fid returns **what
lies in the memory of the server** (`Diod.xattr_leaks_memory`). This is all that can happen
(`Diod.xattr_stored_iff`).
-/

namespace Diod

open Prog

variable {σ : Type}

/-! ### Requests on the fid of an attribute -/

/-- The calls that change an attribute. -/
def HostCall.setsXattr : HostCall → Bool
  | .lsetxattr .. | .lremovexattr .. => true
  | _ => false

theorem Local.setsXattr {c : HostCall} (h : Local c) : c.setsXattr = false := by
  have := h.2
  cases c <;> first | rfl | cases this

/-- What may be asked of a fid. The last one is not a request: the connection is gone. -/
inductive Xattrreq where
  | create (name : Bytes) (size : UInt64) (flags : UInt32)
  | read (offset : UInt64) (count : UInt32)
  | write (offset : UInt64) (data : Bytes)
  | clunk
  | destroy

variable (H : Host σ)

/-- Its operation, with the reply if there is to be one. -/
def Xattrreq.op : Xattrreq → Prog (Ost σ DiodFid) (Option Msg)
  | .create name size flags => do
    let rc ← Op.diodXattrcreate H name size flags
    pure (some rc)
  | .read offset count => do
    let rc ← Op.diodRead H offset count
    pure (some rc)
  | .write offset data => do
    let rc ← Op.diodWrite H offset data
    pure (some rc)
  | .clunk => do
    let rc ← Op.diodClunk H
    pure (some rc)
  | .destroy => do
    Op.diodFiddestroy H
    pure none

/-- `x->name` -/
def xattrName (name : Bytes) : Option Bytes := if name = [] then none else some (cstr name)

/-- The operation on a fid, where the rest of the server is as `b` says. -/
def Xattrreq.run (q : Xattrreq) (b : Back σ) (f : DiodFid) : Res (Option Msg) × Ost σ DiodFid :=
  q.op H ⟨{ b with log := [] }, f⟩

/-- The calls of an operation that change an attribute. -/
def Ost.sets {F : Type} (o : Ost σ F) : List HostCall := (o.log.map (·.1)).filter (·.setsXattr)

namespace Op

variable {H} {o o' : Ost σ DiodFid} {x : Xattr}

/-! ### What the operations do to the attribute -/

/-- What `xattr_close` asks for. -/
def storeCall (path : Bytes) (x : Xattr) : HostCall :=
  -- a size of zero removes the attribute, whatever was written
  if 0 < x.len then .lsetxattr path x.name x.buf x.setflags else .lremovexattr path x.name

theorem storeCall_sets (path : Bytes) (x : Xattr) : (storeCall path x).setsXattr = true := by
  rw [storeCall]
  split <;> rfl

theorem sets_append {l : List (HostCall × ℕ)} (h : o'.log = o.log ++ l) :
    o'.sets = o.sets ++ (l.map (·.1)).filter (·.setsXattr) := by
  rw [Ost.sets, h, List.map_append, List.filter_append]
  rfl

/-- Calls that do not change attributes. -/
def Plain (c : HostCall) : Prop := c.setsXattr = false

/-- What hangs on the fid is left alone. -/
def SameXattr (f f' : DiodFid) : Prop :=
  f'.xattr = f.xattr ∧ f'.isXattr = f.isXattr ∧ f'.path = f.path

theorem sameXattr : Change SameXattr where
  refl _ := ⟨rfl, rfl, rfl⟩
  trans h h' := ⟨h'.1.trans h.1, h'.2.1.trans h.2.1, h'.2.2.trans h.2.2⟩

theorem Tame.sets {K : DiodFid → DiodFid → Prop} {t : Bool} {e : End}
    (h : Tame Plain K t e o o') : o'.sets = o.sets := by
  obtain ⟨l, hl, hc⟩ := h.log
  rw [sets_append hl, List.filter_eq_nil_iff.mpr, List.append_nil]
  intro c hm
  obtain ⟨c', hc', rfl⟩ := List.mem_map.mp hm
  simpa [Plain] using hc c' hc'

/-- An attribute that is made: its buffer is not cleared. -/
theorem xattrAlloc_cases (name : Bytes) (size : ℕ) (set : Bool) (setflags : UInt32)
    (o : Ost σ DiodFid) : ∃ r o', xattrAlloc H name size set setflags o = (r, o') ∧
      o'.f = o.f ∧ o'.log = o.log ∧
      (r = .stop ∨ ∃ m, r = .ok ⟨xattrName name, memBytes m size, size, set, setflags⟩ ∧
        (size = 0 → o'.host =
          if name = [] then (H.malloc o.host).2 else (H.malloc (H.malloc o.host).2).2)) := by
  rw [xattrAlloc]
  rcases allocOr_cases H ENOMEM o with ⟨-, ha⟩ | ⟨-, ha⟩
  · rw [bind_of_ok ha]
    -- an empty name stands for the list of names, and is not copied
    have hname : ∃ r o', Prog.when (name ≠ []) (allocOr H ENOMEM)
        { o with host := (H.malloc o.host).2 } = (r, o') ∧ o'.f = o.f ∧ o'.log = o.log ∧
        (r = .stop ∨ r = .ok () ∧ o'.host =
          if name = [] then (H.malloc o.host).2 else (H.malloc (H.malloc o.host).2).2) := by
      by_cases hn : name = []
      · rw [Prog.when, if_neg (not_not.mpr hn), if_pos hn]
        exact ⟨_, _, rfl, rfl, rfl, .inr ⟨rfl, rfl⟩⟩
      · rw [Prog.when, if_pos hn, if_neg hn]
        rcases allocOr_cases H ENOMEM { o with host := (H.malloc o.host).2 } with
          ⟨-, ha⟩ | ⟨-, ha⟩
        · exact ⟨_, _, ha, rfl, rfl, .inr ⟨rfl, rfl⟩⟩
        · exact ⟨_, _, ha, rfl, rfl, .inl rfl⟩
    obtain ⟨r, o₁, h₁, hf, hl, rfl | ⟨rfl, hh⟩⟩ := hname
    · rw [bind_of_stop h₁]
      exact ⟨_, _, rfl, hf, hl, .inl rfl⟩
    · rw [bind_of_ok h₁]
      by_cases hz : size = 0
      · rw [if_pos hz]
        subst hz
        -- no buffer, so any memory will do
        exact ⟨_, _, rfl, hf, hl, .inr ⟨fun _ => 0, rfl, fun _ => hh⟩⟩
      · rw [if_neg hz]
        rcases hm : H.malloc o₁.host with ⟨m, s⟩
        have h : malloc H o₁ = (.ok m, { o₁ with host := s }) := by rw [malloc, hm]
        rw [bind_of_ok h]
        rcases m with _ | m
        · exact ⟨_, _, rfl, hf, hl, .inl rfl⟩
        · exact ⟨_, _, rfl, hf, hl, .inr ⟨m, rfl, fun h => absurd h hz⟩⟩
  · rw [bind_of_stop ha]
    exact ⟨_, _, rfl, rfl, rfl, .inl rfl⟩

/-- **A `Txattrcreate`** makes a buffer, if no attribute hangs on the fid. -/
theorem diodXattrcreate_spec {name : Bytes} {size : UInt64} {flags : UInt32} {r : Res Msg}
    (h : diodXattrcreate H name size flags o = (r, o')) (hc : r.ending ≠ .crash) :
    o.f.xattr = none ∧ o'.log = o.log ∧ (o'.f = o.f ∨ ∃ m, o'.f = { o.f with
      xattr := some ⟨xattrName name, memBytes m size.toNat, size.toNat, true, flags⟩
      isXattr := true }) := by
  rw [diodXattrcreate, xattrCreate, bind_assoc, fid_bind, bind_assoc] at h
  rcases hx : o.f.xattr with _ | x
  · have hw : Prog.when (o.f.xattr.isSome = true) (.crash : Prog (Ost σ DiodFid) Unit) o =
        (.ok (), o) := by rw [hx]; rfl
    rw [bind_of_ok hw, bind_assoc] at h
    obtain ⟨r₁, o₁, h₁, hf₁, hl₁, rfl | ⟨m, rfl, -⟩⟩ :=
      xattrAlloc_cases (H := H) name size.toNat true flags o
    · rw [bind_of_stop h₁] at h
      cases h
      exact ⟨rfl, hl₁, .inl hf₁⟩
    · rw [bind_of_ok h₁] at h
      rw [bind_of_ok (setFid_eq _ _), bind_of_ok (setFid_eq _ _)] at h
      rcases allocOr_cases H ENOMEM _ with ⟨-, ha⟩ | ⟨-, ha⟩
      · rw [bind_of_ok ha] at h
        cases h
        exact ⟨rfl, hl₁, .inr ⟨m, by simp [hf₁]⟩⟩
      · -- the attribute stays on the fid when there is no memory for the answer
        rw [bind_of_stop ha] at h
        cases h
        exact ⟨rfl, hl₁, .inr ⟨m, by simp [hf₁]⟩⟩
  · -- the assertion of `xattr_create`
    have hw : Prog.when (o.f.xattr.isSome = true) (.crash : Prog (Ost σ DiodFid) Unit) o =
        (.crash, o) := by rw [hx]; rfl
    rw [bind_of_crash hw] at h
    cases h
    exact absurd rfl hc

/-- The attribute after a `Twrite`. -/
def xattrWritten (x : Xattr) (data : Bytes) (offset : UInt64) : Xattr :=
  match xattrPwrite x data offset with
  | .ok (y, _) => y
  | .error _ => x

theorem xattrWritten_of_set (hs : x.set = true) (data : Bytes) (offset : UInt64) :
    xattrWritten x data offset = if offset.toNat + data.length ≤ x.len then
      { x with buf := storeAt x.buf offset.toNat data } else x := by
  by_cases hb : offset.toNat + data.length ≤ x.len
  · rw [xattrWritten, xattrPwrite, if_pos ⟨hs, boundsCheck_iff.mpr hb⟩, if_pos hb]
  · rw [xattrWritten, xattrPwrite, if_neg fun h => hb (boundsCheck_iff.mp h.2), if_neg hb]

/-- An attribute that was opened for reading is not written to. -/
theorem xattrWritten_of_get (hs : x.set = false) (data : Bytes) (offset : UInt64) :
    xattrWritten x data offset = x := by
  rw [xattrWritten, xattrPwrite, if_neg (by simp [hs])]

theorem xattrOrIoctx_of_xattr (hx : o.f.xattr = some x) (hi : o.f.isXattr = true) :
    xattrOrIoctx o = (.ok (.inl x), o) := by
  rw [xattrOrIoctx, fid_bind, if_pos hi, hx]
  rfl

theorem xattrOrIoctx_eq_inl (h : xattrOrIoctx o = (.ok (.inl x), o')) : o.f.xattr = some x := by
  rw [xattrOrIoctx, fid_bind] at h
  by_cases hi : o.f.isXattr = true
  · rw [if_pos hi] at h
    rcases hx : o.f.xattr with _ | y
    · rw [hx] at h
      cases h
    · rw [hx] at h
      cases h
      rfl
  · rw [if_neg hi] at h
    obtain ⟨_, _, -, h⟩ := bind_eq_ok h
    cases h

/-- **A `Twrite`** to an attribute. -/
theorem diodWrite_spec (offset : UInt64) (data : Bytes) (hx : o.f.xattr = some x)
    (hi : o.f.isXattr = true) :
    (diodWrite H offset data o).2.log = o.log ∧
    (diodWrite H offset data o).2.f = { o.f with xattr := some (xattrWritten x data offset) } := by
  -- an attribute is open without a descriptor
  have hopen : openOrXattr o = (.ok (), o) := by
    rw [openOrXattr, fid_bind, failIf_of_not (by simp [hi])]
  rw [diodWrite, bind_of_ok hopen, bind_of_ok (xattrOrIoctx_of_xattr hx hi), xattrWritten]
  -- what is written stays, even if there is no memory for the answer
  rcases hw : xattrPwrite x data offset with e | ⟨y, n⟩
  · have hto : writeTo H offset data (.inl x) o = (.stop, { o with ecode := e }) := by
      rw [writeTo, hw]
      rfl
    rw [bind_of_stop hto]
    exact ⟨rfl, by simp [← hx]⟩
  · have hto : writeTo H offset data (.inl x) o =
        (.ok n, { o with f := { o.f with xattr := some y } }) := by
      rw [writeTo, hw]
      rfl
    rw [bind_of_ok hto]
    rcases allocOr_cases H ENOMEM { o with f := { o.f with xattr := some y } } with
      ⟨-, ha⟩ | ⟨-, ha⟩
    · rw [bind_of_ok ha]
      exact ⟨rfl, rfl⟩
    · rw [bind_of_stop ha]
      exact ⟨rfl, rfl⟩

/-- A `Twrite` where no attribute hangs on the fid. -/
theorem diodWrite_same (offset : UInt64) (data : Bytes) (hx : o.f.xattr = none) :
    (diodWrite H offset data).DoesAt (Tame Plain SameXattr false) o := by
  refine sameXattr.effect.bindAt (sameXattr.openOrXattr o) fun _ o₁ h₁ => ?_
  have hx₁ : o₁.f.xattr = none :=
    ((sameXattr.openOrXattr (L := Plain) (t := false) o).of_eq h₁).fid.1.trans hx
  refine sameXattr.effect.bindAt (sameXattr.xattrOrIoctx o₁) fun y o₂ h₂ => ?_
  rcases y with y | y
  · -- there is no attribute to write to, so it is a file
    rw [xattrOrIoctx_eq_inl h₂] at hx₁
    cases hx₁
  · have hw : (writeTo H offset data (.inr y)).Does (Tame Plain SameXattr false) :=
      sameXattr.effect.bind (sameXattr.sysOr H (show Plain (.pwrite ..) from rfl)) fun _ =>
        sameXattr.effect.pure _
    exact sameXattr.effect.bind hw (fun _ => sameXattr.reply H _ _) o₂

theorem xattrStore_spec (path : Bytes) (hs : x.set = true) :
    ∃ ok o', xattrStore H path x o = (.ok ok, o') ∧ o'.f = o.f ∧
      o'.log = o.log ++ [(storeCall path x, (H.call (storeCall path x) o.host).1.err)] := by
  have hc : syscall H (storeCall path x) o = (.ok (H.call (storeCall path x) o.host).1, _) := rfl
  rw [xattrStore, if_pos hs, ← storeCall, bind_of_ok hc, Prog.when]
  split
  · exact ⟨_, _, rfl, rfl, rfl⟩
  · exact ⟨_, _, rfl, rfl, rfl⟩

/-- **An attribute is closed**: if it is to be set, the whole buffer is stored, or the attribute
is removed. -/
theorem xattrClose_spec (hx : o.f.xattr = some x) :
    ∃ ok o', xattrClose H o = (.ok ok, o') ∧ o'.f = { o.f with xattr := none } ∧
      o'.sets = o.sets ++ if x.set then [storeCall o.f.path.s x] else [] := by
  rw [xattrClose, fid_bind, hx]
  dsimp only
  by_cases hs : x.set = true
  · obtain ⟨ok, o₁, h₁, hf₁, hl₁⟩ := xattrStore_spec (H := H) (o := o) o.f.path.s hs
    rw [bind_of_ok h₁, bind_of_ok (setFid_eq _ _)]
    refine ⟨_, _, rfl, by rw [hf₁], (sets_append (o := o) (by exact hl₁)).trans ?_⟩
    simp [hs, storeCall_sets]
  · have h₁ : xattrStore H o.f.path.s x o = (.ok true, o) := by
      rw [xattrStore, if_neg hs]
      rfl
    rw [bind_of_ok h₁, bind_of_ok (setFid_eq _ _)]
    exact ⟨_, _, rfl, rfl, by rw [if_neg hs, List.append_nil]; rfl⟩

theorem xattrClose_of_none (hx : o.f.xattr = none) : xattrClose H o = (.ok true, o) := by
  rw [xattrClose, fid_bind, hx]
  rfl

/-- **A `Tclunk`** of the fid of an attribute. -/
theorem diodClunk_spec (hx : o.f.xattr = some x) (hi : o.f.isXattr = true) :
    ∃ r o', diodClunk H o = (r, o') ∧ r.ending ≠ .crash ∧ o'.f = { o.f with xattr := none } ∧
      o'.sets = o.sets ++ if x.set then [storeCall o.f.path.s x] else [] := by
  obtain ⟨ok, o₁, h₁, hf₁, hs₁⟩ := xattrClose_spec (H := H) hx
  have hc : clunkClose H o.f o = (.ok ok, o₁) := by rw [clunkClose, if_pos hi, h₁]
  rw [diodClunk, fid_bind, bind_of_ok hc]
  -- the buffer is gone, whether or not it could be stored
  rcases ok with - | -
  · exact ⟨_, _, rfl, by simp, hf₁, hs₁⟩
  · have hw : Prog.when (true = false) (.stop : Prog (Ost σ DiodFid) Unit) o₁ = (.ok (), o₁) := rfl
    rw [bind_of_ok hw]
    rcases allocOr_cases H ENOMEM o₁ with ⟨-, ha⟩ | ⟨-, ha⟩
    · rw [bind_of_ok ha]
      exact ⟨_, _, rfl, by simp, hf₁, hs₁⟩
    · rw [bind_of_stop ha]
      exact ⟨_, _, rfl, by simp, hf₁, hs₁⟩

theorem ioctxClose_same (seterrno : Bool) :
    (ioctxClose H seterrno).Does (Tame Plain SameXattr false) :=
  sameXattr.ioctxClose H (fun _ hc => hc.setsXattr) (fun _ _ => ⟨rfl, rfl, rfl⟩) fun _ => rfl

/-- A `Tclunk` where no attribute hangs on the fid. -/
theorem diodClunk_same (hx : o.f.xattr = none) :
    (diodClunk H).DoesAt (Tame Plain SameXattr false) o := by
  -- a fid on which no attribute hangs may still be marked as one
  refine doesAt_fid_bind (sameXattr.effect.bindAt ?_ fun ok o₁ _ => ?_)
  · refine doesAt_ite (fun _ => doesAt_of_eq (xattrClose_of_none hx) ?_) fun _ =>
      doesAt_ite (fun _ => ioctxClose_same true o) fun _ => sameXattr.effect.pure _ o
    exact sameXattr.effect.refl _ _
  · exact sameXattr.effect.bind (sameXattr.effect.when fun _ => sameXattr.effect.stop)
      (fun _ => sameXattr.reply H _ _) o₁

end Op

/-! ### Fids that are destroyed -/

/-- What is asked of the host when a fid is closed. -/
def DiodFid.closing (f : DiodFid) : List HostCall :=
  match f.xattr with
  | some x => if x.set then [Op.storeCall f.path.s x] else []
  | none => []

namespace Op

variable {H} {o o' : Ost σ DiodFid}

/-- A program that does not leave early. -/
abbrev Straight {α : Type} (x : Prog (Ost σ DiodFid) α) : Prop :=
  Triple (fun _ => True) x (fun _ _ => True) fun _ => False

theorem derefIoctx_straight (i : ℕ) : Straight (derefIoctx i : Prog (Ost σ DiodFid) IOCtx) := by
  intro o _
  rw [derefIoctx]
  cases o.ioctxs.get i <;> trivial

theorem setIoctx_straight (i : ℕ) (g : IOCtx → IOCtx) :
    Straight (setIoctx i g : Prog (Ost σ DiodFid) Unit) :=
  (derefIoctx_straight i).bind fun _ => triple_modify fun _ _ => trivial

theorem setNext_straight (p : Path) (prev next : Option ℕ) :
    Straight (setNext p prev next : Prog (Ost σ DiodFid) Unit) := by
  have hh : Straight (ioctxHead p : Prog (Ost σ DiodFid) (Option ℕ)) := by
    intro o _
    rw [ioctxHead]
    cases o.paths.get p.id <;> trivial
  rcases prev with _ | j
  · exact hh.bind fun _ => triple_modify fun _ _ => trivial
  · exact setIoctx_straight j _

theorem ioctxCloseDestroy_straight (fd : ℕ) (dir seterrno : Bool) :
    Straight (ioctxCloseDestroy H fd dir seterrno) := by
  have hs : ∀ c, Straight (syscall H c) := fun _ _ _ => trivial
  refine (hs _).bind fun r => Triple.bind (Q := fun _ _ => True) ?_ fun _ =>
    triple_pure fun _ _ => trivial
  exact triple_ite (fun _ => triple_modify fun _ _ => trivial) fun _ =>
    triple_pure fun _ _ => trivial

theorem ioctxClose_straight : Straight (ioctxClose H false) := by
  have hu : ∀ p i, Straight (unlinkIoctx p i : Prog (Ost σ DiodFid) Unit) := fun p i => by
    refine (derefIoctx_straight i).bind fun x => (setNext_straight p _ _).bind fun _ =>
      Triple.bind (Q := fun _ _ => True) ?_ fun _ => setIoctx_straight i _
    rcases x.next with _ | j
    · exact triple_pure fun _ _ => trivial
    · exact setIoctx_straight j _
  have hd : ∀ p i, Straight (ioctxDecref H p i false) := fun p i => by
    refine (derefIoctx_straight i).bind fun x => triple_ite (fun _ => ?_) fun _ => ?_
    · refine (hu p i).bind fun _ => Triple.bind (Q := fun _ _ => True)
        (triple_modify fun _ _ => trivial) fun _ => ioctxCloseDestroy_straight _ _ _
    · exact (setIoctx_straight i _).bind fun _ => triple_pure fun _ _ => trivial
  intro o _
  rw [ioctxClose, fid_bind]
  rcases o.f.ioctx with _ | i
  · trivial
  · refine ((hd o.f.path i).bind fun _ => ?_ : Straight _) o trivial
    exact fun _ _ => trivial

variable {r : Res Unit}

/-- The descriptor of a fid that is destroyed is closed first, and that does not stop. -/
theorem closeFirst_spec {c : Prop} [Decidable c]
    (h : Prog.when c (ioctxClose H false >>= fun _ => pure ()) o = (r, o')) :
    r ≠ .stop ∧ Tame Plain SameXattr false r.ending o o' := by
  have hd : (Prog.when c (ioctxClose H false >>= fun _ => pure ())).Does
      (Tame Plain SameXattr false) :=
    sameXattr.effect.when fun _ => sameXattr.effect.bind (ioctxClose_same false) fun _ =>
      sameXattr.effect.pure _
  have hst : Straight (Prog.when c (ioctxClose H false >>= fun _ => pure ())) :=
    triple_ite (fun _ => ioctxClose_straight.bind fun _ => triple_pure fun _ _ => trivial) fun _ =>
      triple_pure fun _ _ => trivial
  refine ⟨?_, (hd o).of_eq h⟩
  rintro rfl
  have hs := hst o trivial
  rw [h] at hs
  exact hs

/-- Then the attribute is, if there is one. -/
theorem closeSecond_spec {f : DiodFid} (hx : o.f.xattr = f.xattr) (hp : o.f.path = f.path) :
    ∃ o', Prog.when (f.xattr.isSome = true) (xattrClose H >>= fun _ => pure ()) o = (.ok (), o') ∧
      o'.f = { o.f with xattr := none } ∧ o'.sets = o.sets ++ f.closing := by
  rw [DiodFid.closing]
  rcases hf : f.xattr with _ | x
  · -- nothing is closed, and the field is empty already
    refine ⟨o, rfl, ?_, (List.append_nil _).symm⟩
    rw [← hf, ← hx]
  · obtain ⟨ok, o₁, h₁, hf₁, hs₁⟩ := xattrClose_spec (H := H) (hx.trans hf)
    rw [Prog.when, if_pos Option.isSome_some, bind_of_ok h₁]
    exact ⟨o₁, rfl, hf₁, by rw [hs₁, hp]⟩

/-- **A fid is destroyed**, with the attribute that hangs on it. -/
theorem diodFiddestroy_spec (h : diodFiddestroy H o = (r, o')) (hc : r.ending ≠ .crash) :
    o'.f.xattr = none ∧ o'.f.isXattr = o.f.isXattr ∧ o'.sets = o.sets ++ o.f.closing := by
  -- the descriptor, the attribute and the path, in this order
  rw [diodFiddestroy, fid_bind] at h
  rcases h₁ : Prog.when (o.f.ioctx.isSome = true) (ioctxClose H false >>= fun _ => pure ()) o with
    ⟨r₁, o₁⟩
  obtain ⟨hst, ht₁⟩ := closeFirst_spec h₁
  rcases r₁ with _ | _ | _
  · obtain ⟨hx₁, hi₁, hp₁⟩ := ht₁.fid
    obtain ⟨o₂, h₂, hf₂, hs₂⟩ := closeSecond_spec (H := H) hx₁ hp₁
    rw [bind_of_ok h₁, bind_of_ok h₂] at h
    have ht := (sameXattr.pathDecref (L := Plain) (t := false) o.f.path o₂).of_eq h
    obtain ⟨hx', hi', -⟩ := ht.fid
    rw [hx', hi', ht.sets, hs₂, ht₁.sets, hf₂]
    exact ⟨rfl, hi₁, rfl⟩
  · exact absurd rfl hst
  · rw [bind_of_crash h₁] at h
    cases h
    exact absurd rfl hc

end Op

/-! ### What the requests do to the attribute -/

section

variable {H} {b : Back σ} {f : DiodFid} {r : Res (Option Msg)} {o : Ost σ DiodFid}

theorem run_eq {α : Type} {x : Prog (Ost σ DiodFid) α} {g : α → Option Msg}
    (h : (x >>= fun a => pure (g a)) ⟨{ b with log := [] }, f⟩ = (r, o)) :
    ∃ r', x ⟨{ b with log := [] }, f⟩ = (r', o) ∧ r'.ending = r.ending := by
  have hx := bind_pure_apply x g ⟨{ b with log := [] }, f⟩
  rw [h] at hx
  exact ⟨_, Prod.ext rfl hx.2.symm, hx.1.symm⟩

theorem run_create {name : Bytes} {size : UInt64} {flags : UInt32}
    (h : (Xattrreq.create name size flags).run H b f = (r, o)) (hc : r.ending ≠ .crash) :
    f.xattr = none ∧ o.sets = [] ∧ (o.f = f ∨ ∃ m, o.f = { f with
      xattr := some ⟨xattrName name, Op.memBytes m size.toNat, size.toNat, true, flags⟩
      isXattr := true }) := by
  obtain ⟨r', h, he⟩ := run_eq h
  obtain ⟨hx, hl, hf⟩ := Op.diodXattrcreate_spec h (he ▸ hc)
  exact ⟨hx, by rw [Ost.sets, hl]; rfl, hf⟩

variable {offset : UInt64}

theorem run_read {count : UInt32} (h : (Xattrreq.read offset count).run H b f = (r, o)) :
    o.f.xattr = f.xattr ∧ o.f.isXattr = f.isXattr ∧ o.sets = [] := by
  obtain ⟨r', h, -⟩ := run_eq h
  have ht : Op.Tame Op.Plain Op.SameXattr false _ _ _ :=
    (Op.sameXattr.diodRead H (fun _ hc => hc.setsXattr) offset count _).of_eq h
  exact ⟨ht.fid.1, ht.fid.2.1, ht.sets⟩

theorem run_write {data : Bytes} (hf : ∀ x, f.xattr = some x → f.isXattr = true)
    (h : (Xattrreq.write offset data).run H b f = (r, o)) :
    o.f.xattr = f.xattr.map (Op.xattrWritten · data offset) ∧ o.f.isXattr = f.isXattr ∧
      o.sets = [] := by
  obtain ⟨r', h, -⟩ := run_eq h
  rcases hx : f.xattr with _ | x
  · have ht := (Op.diodWrite_same (H := H) offset data (o := ⟨{ b with log := [] }, f⟩) hx).of_eq h
    exact ⟨ht.fid.1.trans hx, ht.fid.2.1, ht.sets⟩
  · obtain ⟨hl, hf⟩ := Op.diodWrite_spec (H := H) (o := ⟨{ b with log := [] }, f⟩) offset data hx
      (hf x hx)
    rw [h] at hl hf
    rw [hf, Ost.sets, hl]
    exact ⟨rfl, rfl, rfl⟩

theorem run_clunk (hf : ∀ x, f.xattr = some x → f.isXattr = true)
    (h : Xattrreq.clunk.run H b f = (r, o)) :
    o.f.xattr = none ∧ o.f.isXattr = f.isXattr ∧ o.sets = f.closing := by
  obtain ⟨r', h, -⟩ := run_eq h
  rw [DiodFid.closing]
  rcases hx : f.xattr with _ | x
  · have ht := (Op.diodClunk_same (H := H) (o := ⟨{ b with log := [] }, f⟩) hx).of_eq h
    exact ⟨ht.fid.1.trans hx, ht.fid.2.1, ht.sets⟩
  · obtain ⟨r₁, o₁, h₁, -, hf₁, hs₁⟩ := Op.diodClunk_spec (H := H)
      (o := ⟨{ b with log := [] }, f⟩) hx (hf x hx)
    obtain ⟨-, rfl⟩ := Prod.mk.inj (h₁.symm.trans h)
    rw [hf₁, hs₁]
    exact ⟨rfl, rfl, rfl⟩

theorem run_destroy (h : Xattrreq.destroy.run H b f = (r, o)) (hc : r.ending ≠ .crash) :
    o.f.xattr = none ∧ o.f.isXattr = f.isXattr ∧ o.sets = f.closing := by
  obtain ⟨r', h, he⟩ := run_eq h
  obtain ⟨hx, hi, hs⟩ := Op.diodFiddestroy_spec h (he ▸ hc)
  exact ⟨hx, hi, hs⟩

end

/-! ### Runs of a fid -/

/-- A fid, and what is known of the attribute that it is to set: the name and the flags of the
last `Txattrcreate`, and the bytes that have been written since. -/
structure Xfid where
  f : DiodFid
  name : Bytes := []
  flags : UInt32 := 0
  written : List (Option UInt8) := []

namespace Xfid

/-- Bytes are written, if there is room for them. -/
def overlay (w : List (Option UInt8)) (offset : ℕ) (data : Bytes) : List (Option UInt8) :=
  -- a write that does not fit is refused as a whole
  if offset + data.length ≤ w.length then
    w.take offset ++ (data.map some ++ w.drop (offset + data.length))
  else w

/-- What is known after a request. -/
def note (s : Xfid) : Xattrreq → Xfid
  | .create name size flags => { s with name, flags, written := .replicate size.toNat none }
  | .write offset data => { s with written := overlay s.written offset.toNat data }
  | _ => s

/-- A request, with the rest of the server as it is then. -/
def step (s : Xfid) (a : Back σ × Xattrreq) : Option Xfid :=
  match a.2.run H a.1 s.f with
  | (.crash, _) => none
  | (_, o) => some { s.note a.2 with f := o.f }

/-- A byte of the buffer, and what was written there. -/
def Byte (b : UInt8) (w : Option UInt8) : Prop := ∀ v, w = some v → b = v

/-- **What is known is right**: an attribute that is to be set is the one that was created last,
and its buffer has what was written. -/
structure Tracks (s : Xfid) : Prop where
  flag : ∀ x, s.f.xattr = some x → s.f.isXattr = true
  buf : ∀ x, s.f.xattr = some x → x.set = true → x.len = s.written.length ∧
    x.name = xattrName s.name ∧ x.setflags = s.flags ∧ List.Forall₂ Byte x.buf s.written

variable {H} {s s' : Xfid}

variable {buf data : Bytes} {w : List (Option UInt8)} {a : Back σ × Xattrreq} {f : DiodFid}
  {q : Xattrreq} {r : Res (Option Msg)}

/-- Writing to the buffer, and writing it down. -/
theorem byte_overlay (h : List.Forall₂ Byte buf w)
    {offset : ℕ} (hb : offset + data.length ≤ w.length) :
    List.Forall₂ Byte (storeAt buf offset data) (overlay w offset data) := by
  have hdata : List.Forall₂ Byte data (data.map some) := by
    rw [List.forall₂_map_right_iff, List.forall₂_same]
    intro b _ v hv
    exact Option.some.inj hv
  rw [storeAt, overlay, if_pos hb]
  exact List.rel_append (List.forall₂_take offset h)
    (List.rel_append hdata (List.forall₂_drop (offset + data.length) h))

theorem overlay_length (w : List (Option UInt8)) (offset : ℕ) (data : Bytes) :
    (overlay w offset data).length = w.length := by
  rw [overlay]
  split
  · simp only [List.length_append, List.length_take, List.length_map, List.length_drop]
    omega
  · rfl

/-- A buffer that was written everywhere. -/
theorem eq_of_byte (h : List.Forall₂ Byte buf w) (hw : none ∉ w) : w = buf.map some := by
  -- on the buffer and what was written, byte by byte
  induction h with
  | nil => rfl
  | @cons b o buf w hb _ ih =>
    rw [List.mem_cons, not_or] at hw
    obtain ⟨ho, hw⟩ := hw
    obtain ⟨v, rfl⟩ := Option.ne_none_iff_exists'.mp (Ne.symm ho)
    rw [List.map_cons, hb v rfl, ih hw]

theorem step_eq_some (h : s.step H a = some s') :
    ∃ r o, a.2.run H a.1 s.f = (r, o) ∧ r.ending ≠ .crash ∧ s' = { s.note a.2 with f := o.f } := by
  rw [step] at h
  rcases hr : a.2.run H a.1 s.f with ⟨r, o⟩
  rw [hr] at h
  rcases r with m | _ | _
  · exact ⟨_, _, rfl, by simp, (Option.some.inj h).symm⟩
  · exact ⟨_, _, rfl, by simp, (Option.some.inj h).symm⟩
  · cases h

/-- No attribute hangs on the fid. -/
theorem tracks_of_none (h : s.f.xattr = none) : s.Tracks := by
  refine ⟨fun x hx => ?_, fun x hx => ?_⟩
  · rw [h] at hx
    cases hx
  · rw [h] at hx
    cases hx

/-- A `Txattrcreate`: the buffer may hold anything, and nothing has been written. -/
theorem tracks_created {name : Bytes} {size : ℕ} {flags : UInt32} {m : ℕ → UInt8}
    (hf : f.xattr = some ⟨xattrName name, Op.memBytes m size, size, true, flags⟩)
    (hi : f.isXattr = true) : Tracks ⟨f, name, flags, List.replicate size none⟩ := by
  refine ⟨fun _ _ => hi, fun x hx _ => ?_⟩
  obtain rfl := Option.some.inj (hf.symm.trans hx)
  refine ⟨(List.length_replicate).symm, rfl, rfl, ?_⟩
  -- nothing is known of the bytes, so every byte is right
  rw [List.forall₂_iff_get]
  refine ⟨by simp [Op.memBytes], fun i _ _ v hv => ?_⟩
  simp at hv

/-- A `Twrite`. -/
theorem Tracks.written (h : s.Tracks) {offset : UInt64}
    (hx : f.xattr = s.f.xattr.map (Op.xattrWritten · data offset)) (hi : f.isXattr = s.f.isXattr) :
    Tracks { s with f, written := overlay s.written offset.toNat data } := by
  refine ⟨fun y hy => ?_, fun y hy hset => ?_⟩
  · obtain ⟨x, hx', -⟩ := Option.map_eq_some_iff.mp (hx.symm.trans hy)
    exact hi.trans (h.flag x hx')
  · obtain ⟨x, hx', rfl⟩ := Option.map_eq_some_iff.mp (hx.symm.trans hy)
    by_cases hs : x.set = true
    · obtain ⟨hl, hn, hfl, hb⟩ := h.buf x hx' hs
      rw [Op.xattrWritten_of_set hs]
      dsimp only
      rw [overlay_length]
      split
      · exact ⟨hl, hn, hfl, byte_overlay hb (by omega)⟩
      · -- it does not fit, and neither the buffer nor the note changes
        rw [overlay, if_neg (by omega)]
        exact ⟨hl, hn, hfl, hb⟩
    · -- an attribute that is read does not become one that is set
      rw [Op.xattrWritten_of_get (by simpa using hs)] at hset
      exact absurd hset hs

theorem Tracks.step (h : s.Tracks) (hs : s.step H a = some s') : s'.Tracks := by
  obtain ⟨b, q⟩ := a
  obtain ⟨r, o, hr, hc, rfl⟩ := step_eq_some hs
  rcases q with ⟨name, size, flags⟩ | ⟨offset, count⟩ | ⟨offset, data⟩ | _ | _
  · obtain ⟨hx, -, hf | ⟨m, hf⟩⟩ := run_create hr hc
    · exact tracks_of_none (by simpa [hf] using hx)
    · exact tracks_created (m := m) (by rw [hf]; rfl) (by rw [hf])
  · obtain ⟨hx, hi, -⟩ := run_read hr
    exact ⟨fun x hx' => hi.trans (h.flag x (hx.symm.trans hx')),
      fun x hx' => h.buf x (hx.symm.trans hx')⟩
  · obtain ⟨hx, hi, -⟩ := run_write h.flag hr
    exact h.written hx hi
  · exact tracks_of_none (run_clunk h.flag hr).1
  · exact tracks_of_none (run_destroy hr hc).1

/-! ### What is stored -/

/-- **A request is as it should be**: the attribute is only changed by a `Tclunk`, when all of it
has been written, and then it is what was written. A `Tclunk` before that fails. -/
def Commits (s : Xfid) (q : Xattrreq) (r : Res (Option Msg)) (l : List HostCall) : Prop :=
  (q = .clunk → s.f.pending = true → none ∉ s.written → ∃ v, s.written = v.map some ∧
    l = [.lsetxattr s.f.path.s (xattrName s.name) v s.flags]) ∧
  (¬(q = .clunk ∧ s.f.pending = true ∧ none ∉ s.written) →
    l = [] ∧ (q = .clunk → s.f.pending = true → r.ending = .stop))

/-- **The fid is not closed too early**: by a `Tclunk` only, when all has been written. The
attribute is not empty. -/
def Spares (s : Xfid) (q : Xattrreq) : Prop :=
  s.f.pending = true → q ≠ .destroy ∧ (q = .clunk → none ∉ s.written ∧ s.written ≠ [])

/-- Where nothing is asked of the host, and the fid is not closed. -/
theorem commits_of_nil {l : List HostCall} (hl : l = [])
    (hq : s.f.pending = true → q ≠ .clunk) : s.Commits q r l :=
  ⟨fun h hp => absurd h (hq hp), fun _ => ⟨hl, fun h hp => absurd h (hq hp)⟩⟩

theorem pending_iff : s.f.pending = true ↔ ∃ x, s.f.xattr = some x ∧ x.set = true := by
  rw [DiodFid.pending, Option.any_eq_true]

/-- What is asked of the host when a fid is closed. -/
theorem Tracks.closing (h : s.Tracks) (hp : s.f.pending = true) :
    s.f.closing = [if s.written = [] then .lremovexattr s.f.path.s (xattrName s.name)
      else .lsetxattr s.f.path.s (xattrName s.name) ((s.f.xattr.map (·.buf)).getD []) s.flags] := by
  obtain ⟨x, hx, hs⟩ := pending_iff.mp hp
  obtain ⟨hl, hn, hf, -⟩ := h.buf x hx hs
  rw [DiodFid.closing, hx]
  dsimp only
  rw [if_pos hs, Op.storeCall, hn, hf, hl]
  by_cases hw : s.written = []
  · rw [if_pos hw, hw, if_neg (by simp)]
  · rw [if_neg hw, if_pos (List.length_pos_iff.mpr hw)]
    rfl

theorem closing_of_not_pending (hp : ¬s.f.pending = true) : s.f.closing = [] := by
  rw [DiodFid.closing]
  rcases hx : s.f.xattr with _ | x
  · rfl
  · exact if_neg fun hs => hp (pending_iff.mpr ⟨x, hx, hs⟩)

/-- **A `Tclunk` of an attribute that is to be set**: it stores what was written if there is
something, and if that is all of it. -/
theorem Tracks.commits_clunk_iff (h : s.Tracks) (hp : s.f.pending = true)
    (r : Res (Option Msg)) :
    s.Commits .clunk r s.f.closing ↔ none ∉ s.written ∧ s.written ≠ [] := by
  rw [h.closing hp]
  constructor
  · intro hcm
    -- it is stored all the same where bytes are missing
    have hn : none ∉ s.written := fun hn => by
      have hnil := (hcm.2 fun hq => hq.2.2 hn).1
      cases hnil
    -- an empty attribute is removed
    refine ⟨hn, fun hw => ?_⟩
    obtain ⟨v, -, hv⟩ := hcm.1 rfl hp hn
    rw [if_pos hw] at hv
    cases hv
  · rintro ⟨hn, hw⟩
    refine ⟨fun _ _ _ => ?_, fun hq => absurd ⟨rfl, hp, hn⟩ hq⟩
    obtain ⟨x, hx, hset⟩ := pending_iff.mp hp
    obtain ⟨-, -, -, hb⟩ := h.buf x hx hset
    exact ⟨x.buf, eq_of_byte hb hn, by rw [if_neg hw, hx]; rfl⟩

/-- Nothing is to be stored when the fid is closed. -/
theorem commits_of_not_pending (hp : ¬s.f.pending = true)
    (r : Res (Option Msg)) : s.Commits q r s.f.closing ↔ s.Spares q :=
  iff_of_true (commits_of_nil (closing_of_not_pending hp) fun h => absurd h hp) fun h =>
    absurd h hp

theorem commits_iff (h : s.Tracks) {b : Back σ}
    {o : Ost σ DiodFid} (hr : q.run H b s.f = (r, o)) (hc : r.ending ≠ .crash) :
    s.Commits q r o.sets ↔ s.Spares q := by
  rcases q with ⟨name, size, flags⟩ | ⟨offset, count⟩ | ⟨offset, data⟩ | _ | _
  · exact iff_of_true (commits_of_nil (run_create hr hc).2.1 fun _ => by simp) fun _ => by simp
  · exact iff_of_true (commits_of_nil (run_read hr).2.2 fun _ => by simp) fun _ => by simp
  · exact iff_of_true (commits_of_nil (run_write h.flag hr).2.2 fun _ => by simp) fun _ => by simp
  · obtain ⟨-, -, hs⟩ := run_clunk h.flag hr
    rw [hs]
    by_cases hp : s.f.pending = true
    · rw [h.commits_clunk_iff hp]
      exact ⟨fun hw _ => ⟨by simp, fun _ => hw⟩, fun hsp => (hsp hp).2 rfl⟩
    · exact commits_of_not_pending hp r
  · obtain ⟨-, -, hs⟩ := run_destroy hr hc
    rw [hs]
    by_cases hp : s.f.pending = true
    · -- it is stored, and not by a `Tclunk`
      refine iff_of_false (fun hcm => ?_) fun hsp => (hsp hp).1 rfl
      have hnil := (hcm.2 fun hq => by cases hq.1).1
      rw [h.closing hp] at hnil
      cases hnil
    · exact commits_of_not_pending hp r

end Xfid

/-- **What is stored is what was written**, and is stored by the `Tclunk`, if and only if the fid
is closed by a `Tclunk`, with an attribute that is not empty and that has been written
everywhere. -/
theorem xattr_commit_iff {s₀ s : Xfid} (h0 : s₀.f.xattr = none)
    (h : Reaches (Xfid.step H) (fun _ _ => True) s₀ s) (b : Back σ) (q : Xattrreq)
    (hc : (q.run H b s.f).1.ending ≠ .crash) :
    s.Commits q (q.run H b s.f).1 (q.run H b s.f).2.sets ↔ s.Spares q :=
  Xfid.commits_iff (h.invariant (Xfid.tracks_of_none h0) fun _ _ _ hi _ hs => hi.step hs) rfl hc

/-- A host that does what it is asked, with memory that is not clear. -/
def uncleared : Host Unit where
  call _ s := ({}, s)
  malloc s := (some fun _ => 170, s)

/-- A server with one path. -/
def onePath (s : σ) : Back σ := ⟨s, Heap.empty.alloc ⟨[97], 1, none⟩, .empty, 0, []⟩

/-- A fid on it. -/
def plainFid : Xfid := { f := ⟨⟨0, [97]⟩, none, none, false, false, false⟩ }

/-- An attribute of two bytes, which are written one after the other. -/
theorem xattr_commit_iff_written : ∃ s, Reaches (Xfid.step uncleared) (fun _ _ => True) plainFid s ∧
    s.f.pending = true ∧ s.written = [some 8, some 9] ∧
    s.Commits .clunk (Xattrreq.clunk.run uncleared (onePath ()) s.f).1
      (Xattrreq.clunk.run uncleared (onePath ()) s.f).2.sets := by
  have hrun : runSteps (Xfid.step uncleared) plainFid [(onePath (), .create [117] 2 0),
    (onePath (), .write 1 [9]), (onePath (), .write 0 [8])] = some _ := rfl
  have hr : Reaches (Xfid.step uncleared) (fun _ _ => True) plainFid _ :=
    reaches_of_forall (fun _ _ _ => trivial) hrun
  refine ⟨_, hr, rfl, rfl, (xattr_commit_iff _ rfl hr (onePath ()) .clunk ?_).mpr ?_⟩
  · exact fun h => by cases h
  · exact fun _ => ⟨by simp, fun _ => by decide⟩

/-- **Bytes are stored that were not written**: of an attribute of two bytes one has been
written, and the fid is closed, by a `Tclunk` that is answered, or with its connection. -/
theorem xattr_stores_unwritten : ∃ s, Reaches (Xfid.step uncleared) (fun _ _ => True) plainFid s ∧
    s.written = [some 8, none] ∧
    (Xattrreq.clunk.run uncleared (onePath ()) s.f).1.result = some (some .rclunk) ∧
    (Xattrreq.clunk.run uncleared (onePath ()) s.f).2.sets =
      [.lsetxattr [97] (some [117]) [8, 170] 0] ∧
    (Xattrreq.destroy.run uncleared (onePath ()) s.f).1.result = some none ∧
    (Xattrreq.destroy.run uncleared (onePath ()) s.f).2.sets =
      [.lsetxattr [97] (some [117]) [8, 170] 0] := by
  have hrun : runSteps (Xfid.step uncleared) plainFid [(onePath (), .create [117] 2 0),
    (onePath (), .write 0 [8])] = some _ := rfl
  exact ⟨_, reaches_of_forall (fun _ _ _ => trivial) hrun, rfl, rfl, rfl, rfl, rfl⟩

/-! ### What is read -/

/-- **A host with attributes**, where `value s path name` is the value of an attribute, or the
list of their names if `name` is none. A call for its length stores nothing, and a call for the
value stores all of it, if it fits. -/
structure Host.Attributes (H : Host σ) (value : σ → Bytes → Option Bytes → Bytes) : Prop where
  length : ∀ s path name, (H.call (Op.xattrCall path name 0) s).1.err = 0 →
    (H.call (Op.xattrCall path name 0) s).1.num = (value s path name).length ∧
    (H.call (Op.xattrCall path name 0) s).1.data = []
  fetch : ∀ s path name n, 0 < n → (H.call (Op.xattrCall path name n) s).1.err = 0 →
    (H.call (Op.xattrCall path name n) s).1.data = value s path name ∧
    (H.call (Op.xattrCall path name n) s).1.num = (value s path name).length ∧
    (value s path name).length ≤ n

/-- The host when `_lgetxattr` asks for the length: the fid, the attribute and its name have
been allocated. -/
def atLength (name : Bytes) (s : σ) : σ :=
  let s := (H.malloc s).2
  if name = [] then (H.malloc s).2 else (H.malloc (H.malloc s).2).2

/-- What it is told. -/
def lengthReply (path name : Bytes) (s : σ) : HostReply × σ :=
  H.call (Op.xattrCall path (xattrName name) 0) (atLength H name s)

/-- The host when it asks for the bytes. -/
def atFetch (path name : Bytes) (s : σ) : σ := (H.malloc (lengthReply H path name s).2).2

/-- What it is told then. -/
def fetchReply (path name : Bytes) (s : σ) : HostReply × σ :=
  H.call (Op.xattrCall path (xattrName name) (lengthReply H path name s).1.num)
    (atFetch H path name s)

namespace Op

variable {H} {o o' : Ost σ DiodFid} {x y : Xattr}

theorem sysOr_eq_ok {c : HostCall} {r : HostReply} (h : sysOr H c o = (.ok r, o')) :
    r = (H.call c o.host).1 ∧ r.err = 0 ∧ o'.host = (H.call c o.host).2 ∧ o'.f = o.f := by
  have hc : syscall H c o = (.ok (H.call c o.host).1, _) := rfl
  rw [sysOr, bind_of_ok hc] at h
  split at h
  · cases h
    exact ⟨rfl, ‹_›, rfl, rfl⟩
  · cases h

/-- The two calls of `_lgetxattr`. -/
theorem lgetxattr_eq_ok {path : Bytes} (h : lgetxattr H x path o = (.ok y, o')) :
    ∃ m, let r₁ := H.call (xattrCall path x.name 0) o.host
      let r₂ := H.call (xattrCall path x.name r₁.1.num) (H.malloc r₁.2).2
      r₁.1.err = 0 ∧ r₂.1.err = 0 ∧ o'.f = o.f ∧
      y = { x with buf := storeAt (memBytes m r₂.1.num) 0 r₂.1.data, len := r₂.1.num } := by
  obtain ⟨r₁, o₁, h₁, h⟩ := bind_eq_ok h
  obtain ⟨rfl, he₁, hh₁, hf₁⟩ := sysOr_eq_ok h₁
  -- the buffer is allocated between the two calls
  obtain ⟨m, o₂, h₂, h⟩ := bind_eq_ok h
  have hm : malloc H o₁ =
      (.ok (H.malloc o₁.host).1, { o₁ with host := (H.malloc o₁.host).2 }) := rfl
  obtain ⟨hm, rfl⟩ := Prod.mk.inj (hm.symm.trans h₂)
  rcases m with _ | m
  · cases h
  · obtain ⟨r₂, o₃, h₃, h⟩ := bind_eq_ok h
    obtain ⟨rfl, he₂, hh₂, hf₂⟩ := sysOr_eq_ok h₃
    cases h
    rw [hh₁] at he₂
    exact ⟨m, he₁, he₂, hf₂.trans hf₁, by rw [hh₁]⟩

variable {name : Bytes} {m : Msg}

/-- An attribute is opened, on a fid that is there. -/
theorem xattrOpen_spec {n : ℕ} (h : xattrOpen H name o = (.ok n, o')) :
    ∃ m, let s := if name = [] then (H.malloc o.host).2 else (H.malloc (H.malloc o.host).2).2
      let r₁ := H.call (xattrCall o.f.path.s (xattrName name) 0) s
      let r₂ := H.call (xattrCall o.f.path.s (xattrName name) r₁.1.num) (H.malloc r₁.2).2
      r₁.1.err = 0 ∧ r₂.1.err = 0 ∧ n = r₂.1.num ∧ o'.f = { o.f with
        xattr := some ⟨xattrName name, storeAt (memBytes m r₂.1.num) 0 r₂.1.data, r₂.1.num,
          false, 0⟩ } := by
  rw [xattrOpen, fid_bind] at h
  obtain ⟨_, o₁, hw, h⟩ := bind_eq_ok h
  obtain rfl : o₁ = o := by
    rw [Prog.when] at hw
    split at hw <;> cases hw
    rfl
  obtain ⟨r, o₂, h₂, hf₂, -, rfl | ⟨_, rfl, hh⟩⟩ :=
    xattrAlloc_cases (H := H) name 0 false 0 o₁
  · rw [bind_of_ok (attempt_of_stop h₂)] at h
    cases h
  · -- the attribute is made without a buffer, which comes with its length
    rw [bind_of_ok (attempt_of_ok h₂)] at h
    obtain ⟨y, o₃, h₃, h⟩ := bind_eq_ok h
    obtain ⟨m, he₁, he₂, hf₃, hy⟩ := lgetxattr_eq_ok h₃
    rw [bind_of_ok (setFid_eq _ _)] at h
    rw [hh rfl] at he₁ he₂ hy
    cases h
    exact ⟨m, he₁, he₂, by rw [hy], by rw [hf₃, hf₂, hy]⟩

/-- **A `Txattrwalk`** that succeeds. -/
theorem diodXattrwalk_spec {f : DiodFid} (h : diodXattrwalk H name o = (.ok (m, f), o')) :
    ∃ mem, let r := (fetchReply H o.f.path.s name o.host).1
      (lengthReply H o.f.path.s name o.host).1.err = 0 ∧ r.err = 0 ∧
      m = .rxattrwalk (.ofNat r.num) ∧ f.isXattr = true ∧
      f.xattr = some ⟨xattrName name, storeAt (memBytes mem r.num) 0 r.data, r.num, false, 0⟩ := by
  -- the new fid is a copy, with the path of the old one
  obtain ⟨nf, o₁, hclone, h⟩ := bind_eq_ok h
  have hnf := diodFidclone_eq_ok H hclone
  have hh₁ : o₁.host = (H.malloc o.host).2 := by
    rcases allocOr_cases H ENOMEM o with ⟨-, ha⟩ | ⟨-, ha⟩
    · rw [diodFidclone, fid_bind, bind_of_ok ha] at hclone
      cases hclone
      rfl
    · rw [diodFidclone, fid_bind, bind_of_stop ha] at hclone
      cases hclone
  rw [onFid] at h
  rcases hx : xattrwalkOpen H name { o₁ with f := nf } with ⟨r, o₂⟩
  rw [hx] at h
  rcases r with m' | _ | _
  · cases h
    obtain ⟨o₃, r, hfill, hd, -⟩ := done_eq hx (by simp)
    obtain rfl : o₃ = o₂ := (Prod.mk.inj hd).2
    obtain ⟨n, o₄, ho, hfill⟩ := bind_eq_ok hfill
    obtain ⟨mem, he₁, he₂, hn, hf⟩ := xattrOpen_spec ho
    rw [bind_of_ok (setFid_eq _ _)] at hfill
    have hp : nf.path = o.f.path := by rw [hnf]
    have hs : (if name = [] then (H.malloc o₁.host).2 else (H.malloc (H.malloc o₁.host).2).2) =
        atLength H name o.host := by rw [hh₁]; rfl
    dsimp only at he₁ he₂ hn hf
    rw [hp, hs] at he₁ he₂ hn hf
    rcases allocOr_cases H ENOMEM _ with ⟨-, ha⟩ | ⟨-, ha⟩
    · rw [bind_of_ok ha] at hfill
      cases hfill
      exact ⟨mem, he₁, he₂, by rw [hn]; rfl, rfl, by rw [hf]; rfl⟩
    · rw [bind_of_stop ha] at hfill
      cases hfill
  · cases h
  · cases h

/-- What a `Tread` returns from an attribute. -/
theorem diodRead_eq_ok {offset : UInt64} {count : UInt32}
    (h : diodRead H offset count o = (.ok m, o')) (hi : o.f.isXattr = true) :
    ∃ x, o.f.xattr = some x ∧ x.set = false ∧ offset.toNat + count.toNat ≤ x.len ∧
      m = .rread (.ofNat ((x.buf.drop offset.toNat).take count.toNat).length)
        ((x.buf.drop offset.toNat).take count.toNat) := by
  obtain ⟨_, o₁, h₁, h⟩ := bind_eq_ok h
  obtain ⟨_, o₂, h₂, h⟩ := bind_eq_ok h
  obtain ⟨y, o₃, h₃, h⟩ := bind_eq_ok h
  have hs₁ := ((sameXattr.openOrXattr (L := Plain) (t := false) o).of_eq h₁).fid
  have hs₂ := ((sameXattr.allocOr (L := Plain) (t := false) H ENOMEM o₁).of_eq h₂).fid
  have hs := sameXattr.trans hs₁ hs₂
  rcases hx : o.f.xattr with _ | x
  · rw [xattrOrIoctx, fid_bind, if_pos (hs.2.1.trans hi), hs.1.trans hx] at h₃
    cases h₃
  · rw [xattrOrIoctx_of_xattr (hs.1.trans hx) (hs.2.1.trans hi)] at h₃
    cases h₃
    obtain ⟨data, o₄, h₄, h⟩ := bind_eq_ok h
    cases h
    rw [readFrom, xattrPread] at h₄
    -- `xattr_pread` checks against `x->len` and not against what the host has stored
    by_cases hc : ¬x.set = true ∧ boundsCheck x.len count.toNat offset.toNat = true
    · rw [if_pos hc] at h₄
      cases h₄
      exact ⟨x, rfl, by simpa using hc.1, boundsCheck_iff.mp hc.2, rfl⟩
    · rw [if_neg hc] at h₄
      cases h₄

end Op

namespace Xfid

variable {H} {s s' : Xfid} {x : Xattr}

/-- The attribute that the fid was opened with is the only one that can be read from it. -/
structure Opened (x : Xattr) (s : Xfid) : Prop where
  flag : s.f.isXattr = true
  only : ∀ y, s.f.xattr = some y → y.set = false → y = x

theorem Opened.step {a : Back σ × Xattrreq} (h : s.Opened x) (hs : s.step H a = some s') :
    s'.Opened x := by
  obtain ⟨b, q⟩ := a
  obtain ⟨r, o, hr, hc, rfl⟩ := step_eq_some hs
  have hnone : o.f.isXattr = s.f.isXattr → o.f.xattr = none →
      Opened x { s.note q with f := o.f } := fun hi hn =>
    ⟨hi.trans h.flag, fun y hy => by rw [hn] at hy; cases hy⟩
  rcases q with ⟨name, size, flags⟩ | ⟨offset, count⟩ | ⟨offset, data⟩ | _ | _
  · obtain ⟨hx, -, hf | ⟨m, hf⟩⟩ := run_create hr hc
    · exact hnone (by rw [hf]) (by rw [hf, hx])
    · -- an attribute that is made now cannot be read
      refine ⟨by rw [hf], fun y hy hset => ?_⟩
      rw [hf] at hy
      cases hy
      cases hset
  · obtain ⟨hx, hi, -⟩ := run_read hr
    exact ⟨hi.trans h.flag, fun y hy => h.only y (hx.symm.trans hy)⟩
  · obtain ⟨hx, hi, -⟩ := run_write (fun _ _ => h.flag) hr
    refine ⟨hi.trans h.flag, fun y hy hset => ?_⟩
    obtain ⟨z, hz, rfl⟩ := Option.map_eq_some_iff.mp (hx.symm.trans hy)
    by_cases hzs : z.set = true
    · rw [Op.xattrWritten_of_set hzs] at hset
      split at hset <;> simp [hzs] at hset
    · have hzs : z.set = false := by simpa using hzs
      rw [Op.xattrWritten_of_get hzs] at hset ⊢
      exact h.only z hz hset
  · obtain ⟨hx, hi, -⟩ := run_clunk (fun _ _ => h.flag) hr
    exact hnone hi hx
  · obtain ⟨hx, hi, -⟩ := run_destroy hr hc
    exact hnone hi hx

/-- What is read later. -/
theorem Opened.read (h : s.Opened x) {b : Back σ} {offset : UInt64} {count n : UInt32}
    {data : Bytes} {o : Ost σ DiodFid}
    (hr : (Xattrreq.read offset count).run H b s.f = (.ok (some (.rread n data)), o)) :
    offset.toNat + count.toNat ≤ x.len ∧ data = (x.buf.drop offset.toNat).take count.toNat := by
  obtain ⟨m, o', hm, hr⟩ := bind_eq_ok hr
  cases hr
  obtain ⟨y, hy, hset, hb, hd⟩ := Op.diodRead_eq_ok hm h.flag
  obtain rfl := h.only y hy hset
  cases hd
  exact ⟨hb, rfl⟩

end Xfid

/-- What is in the buffer, where the host has stored a value of the length that it returns. -/
theorem storeAt_memBytes (m : ℕ → UInt8) (v : Bytes) :
    storeAt (Op.memBytes m v.length) 0 v = v := by
  simp [storeAt, Op.memBytes]

/-- **What the second call stores, and what it returns**: the length of the value is right, and
nothing is stored if the attribute was empty at the time of the first. -/
theorem Host.Attributes.fetchReply_eq {value : σ → Bytes → Option Bytes → Bytes}
    (hH : H.Attributes value) {path name : Bytes} {s : σ}
    (he₁ : (lengthReply H path name s).1.err = 0) (he₂ : (fetchReply H path name s).1.err = 0) :
    (fetchReply H path name s).1.num =
      (value (atFetch H path name s) path (xattrName name)).length ∧
    (fetchReply H path name s).1.data =
      if value (atLength H name s) path (xattrName name) = [] then []
      else value (atFetch H path name s) path (xattrName name) := by
  obtain ⟨hlen, -⟩ := hH.length _ _ _ he₁
  rw [fetchReply] at he₂ ⊢
  by_cases hv : value (atLength H name s) path (xattrName name) = []
  · -- a call with no room is a call for the length
    have hz : (lengthReply H path name s).1.num = 0 := by
      rw [lengthReply, hlen, hv]
      rfl
    rw [hz] at he₂ ⊢
    rw [if_pos hv]
    exact hH.length _ _ _ he₂
  · have hz : 0 < (lengthReply H path name s).1.num := by
      rw [lengthReply, hlen]
      exact List.length_pos_iff.mpr hv
    obtain ⟨hd, hn, -⟩ := hH.fetch _ _ _ _ hz he₂
    rw [if_neg hv]
    exact ⟨hn, hd⟩

/-- **What is read from an attribute is a value that it had**, and `x->len` is at most the number
of bytes that the host stored, if and only if the attribute is not empty when its length is
asked for, or still is when the bytes are. -/
theorem xattr_stored_iff {value : σ → Bytes → Option Bytes → Bytes} (hH : H.Attributes value)
    {o o' : Ost σ DiodFid} {name : Bytes} {m : Msg} {f : DiodFid}
    (h : Op.diodXattrwalk H name o = (.ok (m, f), o')) :
    ∃ x, f.xattr = some x ∧ m = .rxattrwalk (.ofNat x.len) ∧
      (x.len ≤ (fetchReply H o.f.path.s name o.host).1.data.length ↔
        (value (atLength H name o.host) o.f.path.s (xattrName name) = [] →
          value (atFetch H o.f.path.s name o.host) o.f.path.s (xattrName name) = [])) ∧
      (x.len ≤ (fetchReply H o.f.path.s name o.host).1.data.length →
        ∀ s, Reaches (Xfid.step H) (fun _ _ => True) { f := f } s → ∀ b offset count n data o₁,
          (Xattrreq.read offset count).run H b s.f = (.ok (some (.rread n data)), o₁) →
          data.length = count.toNat ∧ data = ((value (atFetch H o.f.path.s name o.host) o.f.path.s
            (xattrName name)).drop offset.toNat).take count.toNat) := by
  obtain ⟨mem, he₁, he₂, hm, hi, hx⟩ := Op.diodXattrwalk_spec h
  have hfetch := hH.fetchReply_eq H he₁ he₂
  have hiff : (fetchReply H o.f.path.s name o.host).1.num ≤
        (fetchReply H o.f.path.s name o.host).1.data.length ↔
      (value (atLength H name o.host) o.f.path.s (xattrName name) = [] →
        value (atFetch H o.f.path.s name o.host) o.f.path.s (xattrName name) = []) := by
    rw [hfetch.1, hfetch.2]
    split
    · simp [*]
    · simp [*]
  refine ⟨_, hx, hm, hiff, fun hl s hs b offset count n data o₁ hr => ?_⟩
  have hopen : Xfid.Opened _ s := hs.invariant
    (⟨hi, fun y hy _ => (Option.some.inj (hx.symm.trans hy)).symm⟩ : Xfid.Opened _ { f := f })
    fun _ _ _ hi _ hs => hi.step hs
  obtain ⟨hb, hd⟩ := hopen.read hr
  -- nothing but the value is in the buffer
  have hbuf : storeAt (Op.memBytes mem (fetchReply H o.f.path.s name o.host).1.num) 0
      (fetchReply H o.f.path.s name o.host).1.data =
      value (atFetch H o.f.path.s name o.host) o.f.path.s (xattrName name) := by
    rw [hfetch.1, hfetch.2]
    split
    · rw [hiff.mp hl ‹_›]
      rfl
    · exact storeAt_memBytes mem _
  dsimp only at hb hd
  rw [hbuf] at hd
  rw [hfetch.1] at hb
  refine ⟨?_, hd⟩
  rw [hd, List.length_take, List.length_drop]
  omega

/-- A host with an attribute that is empty at first, and has a value when it is asked for the
second time. -/
def growing : Host ℕ where
  call
    | .lgetxattr _ _ n, s | .llistxattr _ n, s =>
      (if n = 0 then { num := (value s).length }
        else if (value s).length ≤ n then { num := (value s).length, data := value s }
        else { err := 34 }, s + 1)
    | _, s => ({}, s)
  malloc s := (some fun _ => 170, s)
where
  /-- Its value. -/
  value (s : ℕ) : Bytes := if s = 0 then [] else [1, 2, 3]

theorem growing_attributes : growing.Attributes fun s _ _ => growing.value s where
  length s path name _ := by
    cases name <;> exact ⟨rfl, rfl⟩
  fetch s path name n hn he := by
    have hcall : growing.call (Op.xattrCall path name n) s =
        (if n = 0 then { num := (growing.value s).length }
          else if (growing.value s).length ≤ n then
            { num := (growing.value s).length, data := growing.value s }
          else { err := 34 }, s + 1) := by
      cases name <;> rfl
    rw [hcall, if_neg hn.ne'] at he ⊢
    dsimp only at he ⊢
    split at he
    · rename_i hle
      rw [if_pos hle]
      exact ⟨rfl, rfl, hle⟩
    · cases he

/-- An attribute that does not change, and a `Tread` behind its first byte. -/
theorem xattr_stored_iff_steady : ∃ m f o' n data o₁,
    Op.diodXattrwalk growing [120] ⟨onePath 1, plainFid.f⟩ = (.ok (m, f), o') ∧
    (Xattrreq.read 1 2).run growing (onePath 5) f = (.ok (some (.rread n data)), o₁) ∧
    data = [2, 3] := by
  have h : Op.diodXattrwalk growing [120] ⟨onePath 1, plainFid.f⟩ = (.ok (_, _), _) := rfl
  obtain ⟨x, -, -, hiff, hread⟩ := xattr_stored_iff growing growing_attributes h
  have hstored := hiff.mpr fun hv => by cases hv
  refine ⟨_, _, _, _, _, _, h, rfl, ?_⟩
  exact (hread hstored _ .refl (onePath 5) 1 2 _ _ _ rfl).2

/-- **A client reads the memory of the server**: the attribute was empty when the length was asked
for, and has three bytes when it is fetched. -/
theorem xattr_leaks_memory : ∃ m f o' x, Op.diodXattrwalk growing [120]
      ⟨onePath 0, plainFid.f⟩ = (.ok (m, f), o') ∧ f.xattr = some x ∧ x.len = 3 ∧
    (fetchReply growing [97] [120] 0).1.data = [] ∧
    ((Xattrreq.read 0 3).run growing (onePath 5) f).1.result =
      some (some (.rread 3 [170, 170, 170])) :=
  ⟨_, _, _, _, rfl, rfl, rfl, rfl, rfl⟩

end Diod
