import Mathlib.Data.List.TakeWhile
import Diod.Lib.Heap
import Diod.Lib.Prog
import Diod.Host.Calls

/-!
# The objects behind a fid

What the file server hangs on a fid (`Fid` of `diod_fid.h`): a path, an open
descriptor, and an extended attribute that is being read or written. Paths are
shared between fids through a pool, and so are descriptors, so a fid holds addresses
into two heaps of the server. The bytes of a path never change once it is in the
pool, so a fid carries them along with the address (`Diod.Path`).

An operation on a fid is a `Diod.Prog` over `Diod.Ost`: what hangs on the fid, the
heaps, the host, and the error number of the thread. Every call it makes is logged
with the error it got. The other two things that can hang on a fid, the files the
server makes up itself and the state of an authentication, are operated on in the
same way, so the first of these is a parameter.
-/

namespace Diod

/-! ### Paths, descriptors, attributes -/

/-- The string at the front of some bytes, up to the first NUL. -/
def cstr (bs : Bytes) : Bytes := bs.takeWhile (· ≠ 0)

section

variable {bs : Bytes} (h : 0 ∉ bs)

include h

theorem cstr_append_of_not_mem (cs : Bytes) : cstr (bs ++ cs) = bs ++ cstr cs := by
  refine List.takeWhile_append_of_pos fun b hb => ?_
  rw [decide_eq_true_eq]
  rintro rfl
  exact h hb

theorem cstr_of_not_mem : cstr bs = bs := by simpa [cstr] using cstr_append_of_not_mem h []

theorem cstr_append_nul (cs : Bytes) : cstr (bs ++ 0 :: cs) = bs := by
  rw [cstr_append_of_not_mem h]
  simp [cstr]

end

/-- `np_strcmp (str, cs) == 0`, for a string of the protocol and a C string. The byte
`cs[str->len]` that it looks at may lie behind the end of `cs`, and what is there is an
argument. -/
def npStrEq (behind : ℕ → UInt8) (str cs : Bytes) : Bool :=
  (cstr str ++ [0]).take str.length == (cs ++ [0]).take str.length &&
    (str.length == cs.length ||
      (decide (cs.length < str.length) && behind (str.length - cs.length - 1) == 0))

/-- A path as a fid holds it: its address in the pool, and the `len` bytes of
`path->s`. -/
structure Path where
  id : ℕ
  buf : Bytes
deriving DecidableEq

/-- `path_s` -/
def Path.s (p : Path) : Bytes := cstr p.buf

/-- `struct path_struct` -/
structure PathObj where
  buf : Bytes
  refcount : ℕ
  /-- The head of the list of descriptors that opened this path. -/
  ioctx : Option ℕ

/-- `LOCK_SH`, `LOCK_EX`, `LOCK_NB` and `LOCK_UN` -/
def LOCK_SH : ℕ := 1

@[inherit_doc LOCK_SH] def LOCK_EX : ℕ := 2

@[inherit_doc LOCK_SH] def LOCK_NB : ℕ := 4

@[inherit_doc LOCK_SH] def LOCK_UN : ℕ := 8

/-- `struct ioctx_struct` -/
structure IOCtx where
  refcount : ℕ
  lockType : ℕ
  fd : ℕ
  dir : Bool
  openFlags : UInt32
  /-- The uid of `ioctx->user`. -/
  uid : UInt32
  iounit : UInt32
  qid : Npqid
  (next prev : Option ℕ)

/-- `struct xattr_struct`. Its `flags` are `XATTR_FLAGS_SET` or `XATTR_FLAGS_GET`. -/
structure Xattr where
  name : Option Bytes
  buf : Bytes
  len : ℕ
  set : Bool
  setflags : UInt32
deriving DecidableEq

/-- `Fid` of `diod_fid.h`, with its flags. -/
structure DiodFid where
  path : Path
  ioctx : Option ℕ
  xattr : Option Xattr
  /-- `DIOD_FID_FLAGS_MOUNTPT` -/
  mountpt : Bool
  /-- `DIOD_FID_FLAGS_SHAREFD` -/
  sharefd : Bool
  /-- `DIOD_FID_FLAGS_XATTR` -/
  isXattr : Bool
deriving DecidableEq

/-- An attribute waits to be stored when the fid is closed. -/
def DiodFid.pending (f : DiodFid) : Bool := f.xattr.any (·.set)

/-! ### The state of an operation -/

/-- The part of the server that operations share, and the thread's error number. -/
structure Back (σ : Type) where
  host : σ
  paths : Heap PathObj
  ioctxs : Heap IOCtx
  ecode : ℕ
  log : List (HostCall × ℕ)

/-- The state of an operation on a fid, of which `F` is the part that is its own. -/
structure Ost (σ F : Type) extends Back σ where
  f : F

namespace Op

variable {σ F α : Type}

/-- `np_uerror` -/
def npUerror (e : ℕ) : Prog (Ost σ F) Unit := .modify fun o => { o with ecode := e }

/-- `np_uerror (e); goto error;` -/
def fail (e : ℕ) : Prog (Ost σ F) α := do
  npUerror e
  .stop

/-- `if (c) { np_uerror (e); goto error; }` -/
def failIf (c : Prop) [Decidable c] (e : ℕ) : Prog (Ost σ F) Unit := .when c (fail e)

variable {c : Prop}

theorem failIf_of [Decidable c] (h : c) (e : ℕ) (o : Ost σ F) :
    failIf c e o = (.stop, { o with ecode := e }) := by
  rw [failIf, Prog.when, if_pos h]
  rfl

theorem failIf_of_not [Decidable c] (h : ¬c) (e : ℕ) (o : Ost σ F) :
    failIf c e o = (.ok (), o) := by
  rw [failIf, Prog.when, if_neg h]
  rfl

/-- What hangs on the fid. -/
def fid : Prog (Ost σ F) F := fun o => (.ok o.f, o)

theorem fid_bind (g : F → Prog (Ost σ F) α) (o : Ost σ F) : (fid >>= g) o = g o.f o := rfl

/-- Change it. -/
def setFid (g : F → F) : Prog (Ost σ F) Unit := .modify fun o => { o with f := g o.f }

theorem setFid_eq (g : F → F) (o : Ost σ F) : setFid g o = (.ok (), { o with f := g o.f }) := rfl

variable (H : Host σ)

/-- A call, with its answer. -/
def syscall (c : HostCall) : Prog (Ost σ F) HostReply := fun o =>
  let (r, s) := H.call c o.host
  (.ok r, { o with host := s, log := o.log ++ [(c, r.err)] })

/-- `if (c < 0) { np_uerror (errno); goto error; }` -/
def sysOr (c : HostCall) : Prog (Ost σ F) HostReply := do
  let r ← syscall H c
  if r.err = 0 then pure r else fail r.err

/-- A `malloc`. -/
def malloc : Prog (Ost σ F) Malloc := fun o =>
  let (m, s) := H.malloc o.host
  (.ok m, { o with host := s })

/-- `if (!(x = malloc (..))) goto nomem;` -/
def mallocOrStop : Prog (Ost σ F) (ℕ → UInt8) := do
  match ← malloc H with
  | some m => pure m
  | none => .stop

/-- `if (!(x = malloc (..))) { np_uerror (ENOMEM); goto error; }`, and the same for
what is made with `malloc`, such as a reply. -/
def allocOr (e : ℕ) : Prog (Ost σ F) Unit := do
  match ← malloc H with
  | some _ => pure ()
  | none => fail e

theorem allocOr_cases (e : ℕ) (o : Ost σ F) :
    (H.malloc o.host).1 ≠ none ∧
      allocOr H e o = (.ok (), { o with host := (H.malloc o.host).2 }) ∨
    (H.malloc o.host).1 = none ∧
      allocOr H e o = (.stop, { o with host := (H.malloc o.host).2, ecode := e }) := by
  rcases hm : H.malloc o.host with ⟨m, s⟩
  have h : malloc H o = (.ok m, { o with host := s }) := by rw [malloc, hm]
  rcases m with _ | m
  · exact .inr ⟨rfl, by rw [allocOr, Prog.bind_of_ok h]; rfl⟩
  · exact .inl ⟨by simp, by rw [allocOr, Prog.bind_of_ok h]; rfl⟩

end Op

end Diod
