import Diod.Backend.Ops
import Diod.Backend.Auth

/-!
# What the operations of the file server do

An operation is summed up by `Diod.Op.Tame`: the calls it may make, what it may do to what
hangs on the fid, and that it leaves the error number alone when it has a result. Here are
the parts of operations and those that leave the fid alone, for any changes that it may
undergo; the others are in `Diod.Backend.Upkeep`. All later arguments about requests go
through these summaries and never look into an operation again.

There are three kinds of operations, by the calls they make: those that keep to a
descriptor (`Diod.Local`), those that look at files by their path (`Diod.Look`), and
those that modify. Only a fid that is closed with an attribute pending belongs to the
last kind without being asked to modify anything.
-/

namespace Diod

/-- A call that names no path and modifies nothing. -/
def Local (c : HostCall) : Prop := c.paths = [] ∧ c.modifies = false

/-- A call that modifies nothing. -/
def Look (c : HostCall) : Prop := c.modifies = false

/-- A call. -/
def Any (_ : HostCall) : Prop := True

theorem Local.look {c : HostCall} (h : Local c) : Look c := h.2

namespace Op

open Prog

variable {σ F α : Type} {L L' : HostCall → Prop} {K K' : F → F → Prop} {t : Bool}

/-- **What an operation may do**: make calls of the kind `L` and change the fid as `K`
allows. If `t`, it leaves the error number at 0 when it has a result. -/
structure Tame (L : HostCall → Prop) (K : F → F → Prop) (t : Bool) (e : End) (o o' : Ost σ F) :
    Prop where
  log : ∃ l, o'.log = o.log ++ l ∧ ∀ c ∈ l, L c.1
  fid : K o.f o'.f
  ecode : t = true → e = .ok → o.ecode = 0 → o'.ecode = 0

/-- The changes of a fid that go through an operation. -/
structure Change (K : F → F → Prop) : Prop where
  refl : ∀ f, K f f
  trans : ∀ {f g h}, K f g → K g h → K f h

variable {e : End} {o o' : Ost σ DiodFid} {f f' nf : DiodFid} {x : Prog (Ost σ DiodFid) α}
  {uid flags mode : UInt32} {j : ℕ} {p : Path}

theorem Tame.mono {o o' : Ost σ F} (h : Tame L K t e o o') (hL : ∀ c, L c → L' c)
    (hK : ∀ f f', K f f' → K' f f') : Tame L' K' t e o o' :=
  ⟨logged_mono h.log fun _ => hL _, hK _ _ h.fid, h.ecode⟩

theorem Tame.trans {K₁ M : F → F → Prop} {e' : End} {o o' o₂ : Ost σ F} (h : Tame L K t e o o')
    (h' : Tame L K₁ t e' o' o₂) (hK : K o.f o'.f → K₁ o'.f o₂.f → M o.f o₂.f) :
    Tame L M t (e.join e') o o₂ := by
  refine ⟨logged_trans h.log h'.log (fun _ h => h) fun _ h => h, hK h.fid h'.fid, ?_⟩
  intro ht he h0
  obtain ⟨rfl, rfl⟩ := End.join_eq_ok he
  exact h'.ecode ht rfl (h.ecode ht rfl h0)

theorem setFid_tame {g : F → F} (hg : ∀ f, K f (g f)) :
    (setFid g : Prog (Ost σ F) Unit).Does (Tame L K t) :=
  fun o => ⟨⟨[], (List.append_nil _).symm, by simp⟩, hg o.f, fun _ _ h => h⟩

theorem fail_ne_ok (e : ℕ) (o : Ost σ F) : (fail e o : Res α × Ost σ F).1.ending ≠ .ok :=
  fun h => by cases h

theorem doesAt_fid_bind {R : End → Ost σ F → Ost σ F → Prop} {g : F → Prog (Ost σ F) α}
    {o : Ost σ F} (h : (g o.f).DoesAt R o) : (Op.fid >>= g).DoesAt R o :=
  h

section

variable (hK : Change K)

include hK

theorem Change.effect : Effect (Tame (σ := σ) L K t) where
  refl e o := ⟨⟨[], by simp, by simp⟩, hK.refl _, fun _ _ h => h⟩
  trans h h' := h.trans h' hK.trans

/-! ### The smallest steps -/

theorem Change.tame_of_same {e : End} {o o' : Ost σ F} (hl : o'.log = o.log) (hf : o'.f = o.f)
    (he : o'.ecode = o.ecode) : Tame L K t e o o' :=
  ⟨⟨[], by simp [hl], by simp⟩, by rw [hf]; exact hK.refl _, fun _ _ h => by rw [he, h]⟩

theorem Change.npUerror (e : ℕ) : (npUerror e : Prog (Ost σ F) Unit).Does (Tame L K false) :=
  fun _ => ⟨⟨[], (List.append_nil _).symm, by simp⟩, hK.refl _, fun h => by cases h⟩

theorem Change.fail (e : ℕ) : (fail e : Prog (Ost σ F) α).Does (Tame L K t) :=
  fun _ => ⟨⟨[], (List.append_nil _).symm, by simp⟩, hK.refl _, fun _ h => by cases h⟩

theorem Change.failIf (c : Prop) [Decidable c] (e : ℕ) :
    (failIf c e : Prog (Ost σ F) Unit).Does (Tame L K t) :=
  hK.effect.when fun _ => hK.fail e

theorem Change.fid_does : (Op.fid : Prog (Ost σ F) F).Does (Tame L K t) :=
  fun o => hK.effect.refl .ok o

theorem Change.fid_bind {g : F → Prog (Ost σ F) α} (hg : ∀ f, (g f).Does (Tame L K t)) :
    (Op.fid >>= g).Does (Tame L K t) :=
  hK.effect.bind hK.fid_does hg

variable (H : Host σ)

variable {c : HostCall}

theorem Change.syscall (hc : L c) : (Op.syscall H c : Prog (Ost σ F) HostReply).Does (Tame L K t) :=
  fun _ => ⟨⟨[(c, _)], rfl, by simpa using hc⟩, hK.refl _, fun _ _ h => h⟩

theorem Change.sysOr (hc : L c) : (Op.sysOr H c : Prog (Ost σ F) HostReply).Does (Tame L K t) :=
  hK.effect.bind (hK.syscall H hc) fun _ => does_ite (fun _ => hK.effect.pure _) fun _ => hK.fail _

theorem Change.malloc : (Op.malloc H : Prog (Ost σ F) Malloc).Does (Tame L K t) :=
  fun _ => hK.tame_of_same rfl rfl rfl

theorem Change.mallocOrStop : (Op.mallocOrStop H : Prog (Ost σ F) _).Does (Tame L K t) :=
  hK.effect.bind (hK.malloc H) fun m => by
    rcases m with _ | _
    · exact hK.effect.stop
    · exact hK.effect.pure _

theorem Change.allocOr (e : ℕ) : (Op.allocOr H e : Prog (Ost σ F) Unit).Does (Tame L K t) :=
  hK.effect.bind (hK.malloc H) fun m => by
    rcases m with _ | _
    · exact hK.fail e
    · exact hK.effect.pure _

/-- An operation ends with its reply, if there is memory. -/
theorem Change.reply (e : ℕ) (r : α) :
    (Op.allocOr H e >>= fun _ => pure r : Prog (Ost σ F) α).Does (Tame L K t) :=
  hK.effect.bind (hK.allocOr H e) fun _ => hK.effect.pure r

end

/-! ### Fids of the file server -/

/-- **What may happen to a fid of the file server**: unless `m`, it stays where it is,
and unless `a`, no attribute becomes pending. -/
def Moves (m a : Bool) (f f' : DiodFid) : Prop :=
  (m = false → f'.path = f.path) ∧ (a = false → f'.pending = true → f.pending = true)

variable {m a : Bool}

theorem moves : Change (Moves m a) where
  refl _ := ⟨fun _ => rfl, fun _ h => h⟩
  trans h h' := ⟨fun hm => (h'.1 hm).trans (h.1 hm), fun ha hp => h.2 ha (h'.2 ha hp)⟩

theorem tame : Effect (Tame (σ := σ) L (Moves m a) t) := moves.effect

theorem Moves.mono (h : Moves false false f f') : Moves m a f f' :=
  ⟨fun _ => h.1 rfl, fun _ => h.2 rfl⟩

/-- A change that leaves the path and the attribute alone. -/
theorem moves_of_same (hp : f'.path = f.path) (hx : f'.xattr = f.xattr) : Moves m a f f' :=
  ⟨fun _ => hp, fun _ => by rw [DiodFid.pending, hx]; exact id⟩

/-- Dropping the attribute. -/
theorem moves_close (hp : f'.path = f.path) (hx : f'.xattr = none) : Moves m a f f' :=
  ⟨fun _ => hp, fun _ h => by simp [DiodFid.pending, hx] at h⟩

/-- The calls by which `_statmnt` finds out about a mount point, from its parent. -/
structure Peeks (L : HostCall → Prop) (path : Bytes) : Prop where
  self : L (.stat path)
  parent : L (.stat (path ++ [47, 46, 46]))
  list : L (.opendir (path ++ [47, 46, 46]))
  own : ∀ c, Local c → L c

theorem peeks_look (path : Bytes) : Peeks Look path := ⟨rfl, rfl, rfl, fun _ h => h.look⟩

/-! ### Paths and descriptors -/

section

variable {K : DiodFid → DiodFid → Prop} (hK : Change K)

include hK

theorem Change.pathIncref (p : Path) :
    (Op.pathIncref p : Prog (Ost σ DiodFid) Path).Does (Tame L K t) :=
  fun _ => hK.tame_of_same rfl rfl rfl

theorem Change.pathDecref (p : Path) :
    (Op.pathDecref p : Prog (Ost σ DiodFid) Unit).Does (Tame L K t) := by
  intro o
  rcases pathDecref_cases p o with ⟨-, h⟩ | ⟨x, -, -, h⟩ | ⟨x, -, -, h⟩
  · exact doesAt_of_eq h (hK.effect.refl _ o)
  · exact doesAt_of_eq h (hK.tame_of_same rfl rfl rfl)
  · exact doesAt_of_eq h (hK.tame_of_same rfl rfl rfl)

omit hK in
theorem pathDecref_ne_stop (p : Path) (o : Ost σ DiodFid) :
    (pathDecref p o).1.ending ≠ .stop := by
  rcases pathDecref_cases p o with ⟨-, h⟩ | ⟨x, -, -, h⟩ | ⟨x, -, -, h⟩ <;> rw [h] <;>
    simp

variable (H : Host σ)

theorem Change.pathAlloc (s : Bytes) : (Op.pathAlloc H s).Does (Tame L K t) := by
  refine hK.effect.bind hK.effect.read fun o => ?_
  split
  · exact hK.pathIncref _
  · exact hK.effect.bind (hK.mallocOrStop H) fun _ =>
      hK.effect.bind (hK.mallocOrStop H) fun _ =>
      hK.effect.bind hK.effect.read fun _ =>
      hK.effect.bind (fun _ => hK.tame_of_same rfl rfl rfl) fun _ => hK.effect.pure _

theorem Change.pathCreate (ns : Bytes) : (Op.pathCreate H ns).Does (Tame L K t) :=
  hK.effect.bind (hK.mallocOrStop H) fun _ => hK.pathAlloc H ns

theorem Change.pathAppendOr (p : Path) (ns : Bytes) :
    (Op.pathAppendOr H p ns).Does (Tame L K t) := by
  have hx : (Op.pathAppend H p ns).Does (Tame L K t) :=
    hK.effect.bind (hK.mallocOrStop H) fun _ => hK.pathAlloc H _
  exact hK.effect.attempt_bind hx (returns_true _) (fun _ _ => hK.effect.pure _)
    (hK.fail _) fun _ => fail_ne_ok _ _

theorem Change.derefIoctx (i : ℕ) :
    (Op.derefIoctx i : Prog (Ost σ DiodFid) IOCtx).Does (Tame L K t) := by
  intro o
  unfold DoesAt Op.derefIoctx
  split <;> exact hK.effect.refl _ o

theorem Change.ioctxHead (p : Path) :
    (Op.ioctxHead p : Prog (Ost σ DiodFid) (Option ℕ)).Does (Tame L K t) := by
  intro o
  unfold DoesAt Op.ioctxHead
  split <;> exact hK.effect.refl _ o

theorem Change.setIoctx (i : ℕ) (g : IOCtx → IOCtx) :
    (Op.setIoctx i g : Prog (Ost σ DiodFid) Unit).Does (Tame L K t) :=
  hK.effect.bind (hK.derefIoctx i) fun _ _ => hK.tame_of_same rfl rfl rfl

theorem Change.setIoctxHead (p : Path) (i : Option ℕ) :
    (Op.setIoctxHead p i : Prog (Ost σ DiodFid) Unit).Does (Tame L K t) :=
  hK.effect.bind (hK.ioctxHead p) fun _ _ => hK.tame_of_same rfl rfl rfl

theorem Change.setNext (p : Path) (prev next : Option ℕ) :
    (Op.setNext p prev next : Prog (Ost σ DiodFid) Unit).Does (Tame L K t) := by
  rcases prev with _ | j
  · exact hK.setIoctxHead p next
  · exact hK.setIoctx j _

theorem Change.setPrev (next prev : Option ℕ) :
    (Op.setPrev next prev : Prog (Ost σ DiodFid) Unit).Does (Tame L K t) := by
  rcases next with _ | j
  · exact hK.effect.pure _
  · exact hK.setIoctx j _

theorem Change.unlinkIoctx (p : Path) (i : ℕ) :
    (Op.unlinkIoctx p i : Prog (Ost σ DiodFid) Unit).Does (Tame L K t) :=
  hK.effect.bind (hK.derefIoctx i) fun _ =>
  hK.effect.bind (hK.setNext p _ _) fun _ =>
  hK.effect.bind (hK.setPrev _ _) fun _ => hK.setIoctx i _

theorem Change.linkIoctx (p : Path) (i : ℕ) :
    (Op.linkIoctx p i : Prog (Ost σ DiodFid) Unit).Does (Tame L K t) :=
  hK.effect.bind (hK.ioctxHead p) fun _ =>
  hK.effect.bind (hK.setIoctx i _) fun _ =>
  hK.effect.bind (hK.setPrev _ _) fun _ => hK.setIoctxHead p _

section

variable (hL : ∀ c, Local c → L c)

include hL

variable {seterrno : Bool}

theorem Change.ioctxCloseDestroy (fd : ℕ) (dir : Bool) (ht : seterrno = true → t = false) :
    (Op.ioctxCloseDestroy H fd dir seterrno).Does (Tame L K t) := by
  refine hK.effect.bind (hK.syscall H (hL _ (by cases dir <;> exact ⟨rfl, rfl⟩))) fun r =>
    hK.effect.bind (hK.effect.when fun h => ?_) fun _ => hK.effect.pure _
  rw [ht h.2]
  exact hK.npUerror _

theorem Change.ioctxCreateOpen (uid : UInt32) (p : Path) (flags mode : UInt32)
    (ho : L (.openFile p.s flags mode)) :
    (Op.ioctxCreateOpen H uid p flags mode).Does (Tame L K t) := by
  refine hK.effect.bind (hK.allocOr H _) fun _ =>
    hK.effect.bind (hK.sysOr H ho) fun r =>
    hK.effect.bind (hK.effect.done ?_ (fun st => ?_) (when_isNone_ne_stop _)) fun st =>
    hK.effect.bind hK.effect.read fun o =>
    hK.effect.bind (fun _ => hK.tame_of_same rfl rfl rfl) fun _ => hK.effect.pure _
  · exact hK.effect.bind (hK.sysOr H (hL _ ⟨rfl, rfl⟩)) fun r =>
      hK.effect.bind (hK.effect.when fun _ =>
        hK.effect.bind (hK.sysOr H (hL _ ⟨rfl, rfl⟩)) fun _ => hK.effect.pure _)
        fun _ => hK.effect.pure _
  · exact hK.effect.when fun _ =>
      hK.effect.bind (hK.ioctxCloseDestroy H hL _ _ fun h => by cases h) fun _ =>
        hK.effect.pure _

omit hL in
theorem Change.ioctxShared (uid flags : UInt32) : ∀ (n : ℕ) (i : Option ℕ),
    (Op.ioctxShared uid flags n i : Prog (Ost σ DiodFid) _).Does (Tame L K t)
  | 0, _ => hK.effect.pure _
  | _ + 1, none => hK.effect.pure _
  | n + 1, some i => hK.effect.bind (hK.derefIoctx i) fun x =>
      does_ite
        (fun _ => hK.effect.bind (hK.setIoctx i _) fun _ => hK.effect.pure _)
        fun _ => Change.ioctxShared uid flags n x.next

omit hL in
theorem Change.ioctxSearch (uid : UInt32) (f : DiodFid) (flags : UInt32) :
    (Op.ioctxSearch uid f flags : Prog (Ost σ DiodFid) _).Does (Tame L K t) :=
  does_ite
    (fun _ => hK.effect.bind hK.effect.read fun _ =>
      hK.effect.bind (hK.ioctxHead _) fun _ => hK.ioctxShared uid flags _ _)
    fun _ => hK.effect.pure _

theorem Change.ioctxOrOpen (uid : UInt32) (p : Path) (flags mode : UInt32)
    (ho : L (.openFile p.s flags mode)) (i : Option ℕ) :
    (Op.ioctxOrOpen H uid p flags mode i).Does (Tame L K t) := by
  rcases i with _ | i
  · exact hK.effect.bind (hK.ioctxCreateOpen H hL uid p flags mode ho) fun i =>
      hK.effect.bind (hK.linkIoctx p i) fun _ => hK.effect.pure _
  · exact hK.effect.pure _

theorem Change.ioctxOpen (hi : ∀ f i, K f { f with ioctx := i }) (uid flags mode : UInt32)
    {o : Ost σ DiodFid} (ho : L (.openFile o.f.path.s flags mode)) :
    (Op.ioctxOpen H uid flags mode).DoesAt (Tame L K t) o :=
  doesAt_fid_bind <| (hK.effect.bind (hK.effect.when fun _ => hK.effect.crash) fun _ =>
    hK.effect.bind (hK.ioctxSearch uid o.f flags) fun i =>
    hK.effect.bind (hK.ioctxOrOpen H hL uid o.f.path flags mode ho i) fun _ =>
    hK.effect.bind (setFid_tame fun f => hi f _) fun _ => hK.effect.pure _) o

theorem Change.ioctxDecref (p : Path) (i : ℕ) (ht : seterrno = true → t = false) :
    (Op.ioctxDecref H p i seterrno).Does (Tame L K t) :=
  hK.effect.bind (hK.derefIoctx i) fun _ => does_ite
    (fun _ => hK.effect.bind (hK.unlinkIoctx p i) fun _ =>
      hK.effect.bind (fun _ => hK.tame_of_same rfl rfl rfl) fun _ =>
        hK.ioctxCloseDestroy H hL _ _ ht)
    fun _ => hK.effect.bind (hK.setIoctx i _) fun _ => hK.effect.pure _

theorem Change.ioctxClose (hi : ∀ f i, K f { f with ioctx := i })
    (ht : seterrno = true → t = false) : (Op.ioctxClose H seterrno).Does (Tame L K t) := by
  refine hK.fid_bind fun f => ?_
  split
  · exact hK.effect.crash
  · exact hK.effect.bind (hK.ioctxDecref H hL _ _ ht) fun _ =>
      hK.effect.bind (setFid_tame fun f => hi f _) fun _ => hK.effect.pure _

end

/-! ### Attributes -/

theorem Change.xattrAlloc (name : Bytes) (size : ℕ) (set : Bool) (setflags : UInt32) :
    (Op.xattrAlloc H name size set setflags).Does (Tame L K t) := by
  refine hK.effect.bind (hK.allocOr H _) fun _ =>
    hK.effect.bind (hK.effect.when fun _ => hK.allocOr H _) fun _ =>
    does_ite (fun _ => hK.effect.pure _) fun _ =>
    hK.effect.bind (hK.malloc H) fun m => ?_
  rcases m with _ | m
  · exact hK.fail _
  · exact hK.effect.pure _

theorem Change.lgetxattr (x : Xattr) (path : Bytes)
    (hL : ∀ c : HostCall, c.paths = [path] → Look c → L c) :
    (Op.lgetxattr H x path).Does (Tame L K t) := by
  have hc : ∀ size, L (xattrCall path x.name size) := fun size => by
    cases x.name <;> exact hL _ rfl rfl
  refine hK.effect.bind (hK.sysOr H (hc 0)) fun r => hK.effect.bind (hK.malloc H) fun m => ?_
  rcases m with _ | m
  · exact hK.fail _
  · exact hK.effect.bind (hK.sysOr H (hc _)) fun _ => hK.effect.pure _

/-- Closing an attribute calls the host, and sets the error number, only if it is
pending. -/
theorem Change.xattrStore (path : Bytes) (x : Xattr)
    (hx : x.set = true → t = false ∧ ∀ c : HostCall, c.paths = [path] → L c) :
    (Op.xattrStore H path x).Does (Tame L K t) := by
  refine does_ite (fun h => ?_) fun _ => hK.effect.pure _
  obtain ⟨rfl, hc⟩ := hx h
  exact hK.effect.bind (hK.syscall H (hc _ (by split <;> rfl))) fun _ =>
    hK.effect.bind (hK.effect.when fun _ => hK.npUerror _) fun _ => hK.effect.pure _

theorem Change.xattrClose {o : Ost σ DiodFid} (hg : ∀ f, K f { f with xattr := none })
    (ho : o.f.pending = true → t = false ∧ ∀ c : HostCall, c.paths = [o.f.path.s] → L c) :
    (Op.xattrClose H).DoesAt (Tame L K t) o := by
  refine doesAt_fid_bind ?_
  rcases hx : o.f.xattr with _ | x
  · exact hK.effect.pure _ o
  · exact hK.effect.bind
      (hK.xattrStore H _ x fun h => ho (by simp [DiodFid.pending, hx, h]))
      (fun _ => hK.effect.bind (setFid_tame hg) fun _ => hK.effect.pure _) o

/-! ### Operations that leave the fid alone -/

theorem Change.diodFidclone : (Op.diodFidclone H).Does (Tame L K t) :=
  hK.fid_bind fun _ =>
  hK.effect.bind (hK.allocOr H _) fun _ =>
  hK.effect.bind (hK.pathIncref _) fun _ => hK.effect.pure _

theorem Change.statmnt {path : Bytes} (hL : Peeks L path) :
    (Op.statmnt H path).Does (Tame L K t) := by
  refine hK.effect.bind (hK.syscall H hL.self) fun r =>
    does_ite (fun _ => hK.effect.pure _) fun _ =>
    hK.effect.bind (hK.malloc H) fun _ =>
    does_ite (fun _ => hK.effect.pure _) fun _ =>
    hK.effect.bind (hK.syscall H hL.parent) fun rp =>
    does_ite (fun _ => hK.effect.pure _) fun _ =>
    hK.effect.bind (hK.syscall H hL.list) fun d =>
    does_ite (fun _ => hK.effect.pure _) fun _ =>
    hK.effect.bind (hK.syscall H (hL.own _ ⟨rfl, rfl⟩)) fun e =>
    hK.effect.bind (hK.syscall H (hL.own _ ⟨rfl, rfl⟩)) fun _ => ?_
  split <;> exact hK.effect.pure _

theorem Change.ioctx : (Op.ioctx : Prog (Ost σ DiodFid) IOCtx).Does (Tame L K t) := by
  refine hK.fid_bind fun f => ?_
  split
  · exact hK.derefIoctx _
  · exact hK.effect.crash

theorem Change.openOr : (Op.openOr : Prog (Ost σ DiodFid) IOCtx).Does (Tame L K t) :=
  hK.fid_bind fun _ => hK.effect.bind (hK.failIf _ _) fun _ => hK.ioctx

theorem Change.openOrXattr : (Op.openOrXattr : Prog (Ost σ DiodFid) Unit).Does (Tame L K t) :=
  hK.fid_bind fun _ => hK.failIf _ _

theorem Change.xattrOrIoctx :
    (Op.xattrOrIoctx : Prog (Ost σ DiodFid) (Xattr ⊕ IOCtx)).Does (Tame L K t) := by
  refine hK.fid_bind fun f =>
    does_ite (fun _ => ?_) fun _ => hK.effect.bind hK.ioctx fun _ => hK.effect.pure _
  split
  · exact hK.effect.pure _
  · exact hK.effect.crash

theorem Change.diodFsync (hL : ∀ c : HostCall, c.paths = [] → L c) (datasync : UInt32) :
    (Op.diodFsync H datasync).Does (Tame L K t) :=
  hK.effect.bind hK.openOr fun _ =>
  hK.effect.bind (hK.sysOr H (hL _ (by split <;> rfl))) fun _ => hK.reply H _ _

section

variable (hL : ∀ c, Local c → L c)

include hL

theorem Change.diodRead (offset : UInt64) (count : UInt32) :
    (Op.diodRead H offset count).Does (Tame L K t) := by
  refine hK.effect.bind hK.openOrXattr fun _ =>
    hK.effect.bind (hK.allocOr H _) fun _ =>
    hK.effect.bind hK.xattrOrIoctx fun x =>
    hK.effect.bind ?_ fun _ => hK.effect.pure _
  rcases x with x | x
  · simp only [readFrom]
    split
    · exact hK.effect.pure _
    · exact hK.fail _
  · exact hK.effect.bind (hK.sysOr H (hL _ ⟨rfl, rfl⟩)) fun _ => hK.effect.pure _

theorem Change.ioctxFlock (i type flags : ℕ) : (Op.ioctxFlock H i type flags).Does (Tame L K t) :=
  hK.effect.bind (hK.derefIoctx i) fun _ =>
  hK.effect.bind (hK.syscall H (hL _ ⟨rfl, rfl⟩)) fun _ =>
  hK.effect.bind (hK.effect.when fun _ => hK.setIoctx i _) fun _ => hK.effect.pure _

theorem Change.diodLock (type : UInt8) (flags : UInt32) :
    (Op.diodLock H type flags).Does (Tame L K t) := by
  have h : ∀ i type flags, (Op.ioctxFlock H i type flags).Does (Tame L K t) := hK.ioctxFlock H hL
  refine hK.effect.bind (hK.failIf _ _) fun _ => hK.fid_bind fun f => ?_
  split
  · exact hK.fail _
  · exact hK.effect.bind (does_ite (fun _ => h _ _ _) fun _ => does_ite (fun _ => h _ _ _) fun _ =>
      does_ite (fun _ => h _ _ _) fun _ => hK.fail _) fun _ => hK.reply H _ _

theorem Change.diodGetlock (type : UInt8) (start length : UInt64) (procId : UInt32)
    (clientId : Bytes) :
    (Op.diodGetlock H type start length procId clientId).Does (Tame L K t) := by
  have h : ∀ fd k, (Op.syscall H (.flock fd k) : Prog (Ost σ DiodFid) _).Does (Tame L K t) :=
    fun fd k => hK.syscall H (hL _ ⟨rfl, rfl⟩)
  exact hK.effect.bind hK.openOr fun _ => hK.effect.bind (hK.allocOr H _) fun _ =>
    hK.effect.bind (hK.failIf _ _) fun _ => hK.effect.bind (does_ite
      (fun _ => hK.effect.bind (h _ _) fun _ => does_ite
        (fun _ => hK.effect.bind (h _ _) fun _ => hK.effect.pure _) fun _ => hK.effect.pure _)
      fun _ => hK.effect.pure _) fun _ => hK.reply H _ _

end

end

variable (H : Host σ)

theorem xattrAlloc_set (name : Bytes) (size : ℕ) (set : Bool) (setflags : UInt32) :
    (xattrAlloc H name size set setflags).Returns fun x => x.set = set := by
  refine returns_of_last fun _ => returns_of_last fun _ =>
    returns_ite (returns_pure rfl) (returns_of_last fun m => ?_)
  rcases m with _ | m
  · exact returns_of_last fun _ => returns_stop
  · exact returns_pure rfl

theorem lgetxattr_set (x : Xattr) (path : Bytes) :
    (lgetxattr H x path).Returns fun y => y.set = x.set := by
  refine returns_of_last fun _ => returns_of_last fun m => ?_
  rcases m with _ | m
  · exact returns_of_last fun _ => returns_stop
  · exact returns_of_last fun _ => returns_pure rfl

/-! ### Fids -/

theorem diodFidclone_eq_ok {d : DiodFid}
    (h : diodFidclone H o = (.ok d, o')) : d = { o.f with ioctx := none, xattr := none } := by
  obtain ⟨f, o₁, hf, h⟩ := bind_eq_ok h
  obtain ⟨_, o₂, -, h⟩ := bind_eq_ok h
  obtain ⟨p, o₃, hp, h⟩ := bind_eq_ok h
  cases hf
  cases hp
  cases h
  rfl

theorem diodFidclone_pending : (diodFidclone H).Returns fun f => f.pending = false :=
  returns_of_last fun _ => returns_of_last fun _ => returns_of_last fun _ => returns_pure rfl

theorem diodFidalloc_tame (ns : Bytes) : (diodFidalloc H ns).Does (Tame L (Moves true a) t) := by
  refine tame.bind (moves.allocOr H _) fun _ =>
    tame.attempt_bind (moves.pathCreate H ns) (returns_true _) (fun p _ => ?_)
      (moves.fail _) fun _ => fail_ne_ok _ _
  have hg : ∀ f : DiodFid, Moves true a f ⟨p, none, none, false, false, false⟩ :=
    fun _ => ⟨fun h => (by cases h), fun _ h => (by cases h)⟩
  exact tame.bind (setFid_tame hg) fun _ => tame.pure _
/-! ### The types of files

What a walk or a create finds is never taken for a fid of another kind. -/

/-- A qid of the file server. -/
def PlainQid (q : Npqid) : Prop := q.type &&& Qtauth = 0 ∧ q.type &&& Qttmp = 0

theorem diodUstat2qid_plain (st : Stat) : PlainQid (diodUstat2qid st) := by
  unfold PlainQid diodUstat2qid
  dsimp only
  split
  · decide
  · split <;> decide

theorem diodWalk_plain (wname : Bytes) : (diodWalk H wname).Returns PlainQid :=
  returns_of_last fun _ => returns_of_last fun _ => returns_of_last fun _ => returns_done <|
    returns_of_last fun _ => returns_of_last fun _ => returns_of_last fun st =>
    returns_of_last fun _ => returns_of_last fun _ => returns_pure (diodUstat2qid_plain st)

/-- The descriptor at an address, if there is one, is of a file of the server. -/
def PlainAt (o : Ost σ DiodFid) (i : ℕ) : Prop := ∀ x, o.ioctxs.get i = some x → PlainQid x.qid

/-- The types of descriptors do not change. -/
def KeepsPlain (_ : End) (o o' : Ost σ DiodFid) : Prop := ∀ i, PlainAt o i → PlainAt o' i

theorem keepsPlain : Effect (KeepsPlain (σ := σ)) where
  refl _ _ _ h := h
  trans h h' i hi := h' i (h i hi)

theorem derefIoctx_eq_ok {i : ℕ} {x : IOCtx}
    (h : derefIoctx i o = (.ok x, o')) : o.ioctxs.get i = some x ∧ o' = o := by
  unfold derefIoctx at h
  rcases hx : o.ioctxs.get i with _ | y
  · rw [hx] at h
    cases h
  · rw [hx] at h
    cases h
    exact ⟨rfl, rfl⟩

theorem derefIoctx_keepsPlain (i : ℕ) :
    (derefIoctx i : Prog (Ost σ DiodFid) IOCtx).Does KeepsPlain := by
  intro o
  unfold DoesAt derefIoctx
  split <;> exact keepsPlain.refl _ o

theorem ioctxHead_keepsPlain (p : Path) :
    (ioctxHead p : Prog (Ost σ DiodFid) (Option ℕ)).Does KeepsPlain := by
  intro o
  unfold DoesAt ioctxHead
  split <;> exact keepsPlain.refl _ o

theorem setIoctx_keepsPlain (i : ℕ) {g : IOCtx → IOCtx} (hg : ∀ x, (g x).qid = x.qid) :
    (setIoctx i g : Prog (Ost σ DiodFid) Unit).Does KeepsPlain := by
  refine keepsPlain.bind (derefIoctx_keepsPlain i) fun _ o j hj x hx => ?_
  obtain ⟨y, hy, rfl⟩ := Heap.get_of_get_modify hx
  split
  · rw [hg]
    exact hj y hy
  · exact hj y hy

theorem setIoctxHead_keepsPlain (p : Path) (i : Option ℕ) :
    (setIoctxHead p i : Prog (Ost σ DiodFid) Unit).Does KeepsPlain :=
  keepsPlain.bind (ioctxHead_keepsPlain p) fun _ _ _ h => h

theorem linkIoctx_keepsPlain (p : Path) (i : ℕ) :
    (linkIoctx p i : Prog (Ost σ DiodFid) Unit).Does KeepsPlain := by
  refine keepsPlain.bind (ioctxHead_keepsPlain p) fun head =>
    keepsPlain.bind (setIoctx_keepsPlain i fun _ => rfl) fun _ =>
    keepsPlain.bind ?_ fun _ => setIoctxHead_keepsPlain p _
  rcases head with _ | j
  · exact keepsPlain.pure _
  · exact setIoctx_keepsPlain j fun _ => rfl

/-- Only the descriptors of regular files are shared. -/
theorem ioctxShared_plain (uid flags : UInt32) : ∀ (n : ℕ) (i : Option ℕ) {o o' : Ost σ DiodFid}
    {j : ℕ}, ioctxShared uid flags n i o = (.ok (some j), o') → PlainAt o' j
  | 0, _, _, _, _, h => by cases h
  | _ + 1, none, _, _, _, h => by cases h
  | n + 1, some i, o, o', j, h => by
    obtain ⟨x, o₁, hx, hs⟩ := bind_eq_ok h
    obtain ⟨hx, rfl⟩ := derefIoctx_eq_ok hx
    split at hs
    · rename_i hq
      obtain ⟨_, o₂, h₂, h⟩ := bind_eq_ok hs
      cases h
      refine DoesAt.of_eq (setIoctx_keepsPlain i ?_ o₁) h₂ i fun y hy => ?_
      · exact fun _ => rfl
      obtain rfl : x = y := Option.some.inj (hx.symm.trans hy)
      rw [PlainQid, hq.1]
      decide
    · exact ioctxShared_plain uid flags n x.next hs

theorem ioctxSearch_plain (h : ioctxSearch uid f flags o = (.ok (some j), o')) : PlainAt o' j := by
  unfold ioctxSearch at h
  split at h
  · obtain ⟨_, _, _, h⟩ := bind_eq_ok h
    obtain ⟨_, _, _, h⟩ := bind_eq_ok h
    exact ioctxShared_plain _ _ _ _ h
  · cases h

theorem ioctxCreateOpen_plain
    (h : ioctxCreateOpen H uid p flags mode o = (.ok j, o')) : PlainAt o' j := by
  obtain ⟨_, _, _, h⟩ := bind_eq_ok h
  obtain ⟨_, _, _, h⟩ := bind_eq_ok h
  obtain ⟨st, o₁, -, h⟩ := bind_eq_ok h
  cases h
  intro x hx
  rw [Heap.get_alloc_next] at hx
  cases hx
  exact diodUstat2qid_plain st

theorem ioctxOrOpen_plain {i : Option ℕ} (hi : ∀ k, i = some k → PlainAt o k)
    (h : ioctxOrOpen H uid p flags mode i o = (.ok j, o')) : PlainAt o' j := by
  rcases i with _ | k
  · obtain ⟨k, o₁, hk, h⟩ := bind_eq_ok h
    obtain ⟨_, o₂, hl, h⟩ := bind_eq_ok h
    cases h
    exact (linkIoctx_keepsPlain p _ o₁).of_eq hl _ (ioctxCreateOpen_plain H hk)
  · cases h
    exact hi _ rfl

theorem ioctxOpen_plain (h : ioctxOpen H uid flags mode o = (.ok j, o')) : PlainAt o' j := by
  obtain ⟨f, _, _, h⟩ := bind_eq_ok h
  obtain ⟨_, _, _, h⟩ := bind_eq_ok h
  obtain ⟨i, o₁, hi, h⟩ := bind_eq_ok h
  obtain ⟨k, o₂, hk, h⟩ := bind_eq_ok h
  have hp : PlainAt o₂ k := by
    refine ioctxOrOpen_plain H (fun k hk => ?_) hk
    subst hk
    exact ioctxSearch_plain hi
  cases h
  exact hp

/-- The type that `np_lcreate` gives a fid. -/
theorem diodLcreate_plain (uid : UInt32) (name : Bytes) (flags mode : UInt32) :
    (diodLcreate H uid name flags mode).Returns fun rc =>
      ∃ qid iounit, rc = .rlcreate qid iounit ∧ PlainQid qid := by
  refine returns_of_last fun _ => returns_of_last fun f => returns_of_last fun _ =>
    returns_of_last fun npath => returns_of_last fun _ => returns_done fun o rc o' h => ?_
  obtain ⟨i, o₁, hi, hd⟩ := bind_eq_ok h
  obtain ⟨x, o₂, hx, hm⟩ := bind_eq_ok hd
  have hp : PlainQid x.qid := ioctxOpen_plain H hi x (derefIoctx_eq_ok hx).1
  obtain ⟨m, o₃, -, hr⟩ := bind_eq_ok hm
  rcases m with _ | m
  · obtain ⟨_, _, _, hr⟩ := bind_eq_ok hr
    obtain ⟨_, _, _, hr⟩ := bind_eq_ok hr
    cases hr
  · obtain ⟨_, _, _, hr⟩ := bind_eq_ok hr
    cases hr
    exact ⟨_, _, rfl, hp⟩

end Op

end Diod
