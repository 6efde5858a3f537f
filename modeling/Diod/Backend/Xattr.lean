import Diod.Backend.Ioctx

/-!
# Extended attributes

`diod_xattr.c`. A `Txattrwalk` reads the whole attribute into a buffer that `Tread`
then copies from. A `Txattrcreate` only makes a buffer, which `Twrite` fills: the
attribute is stored, or removed when the buffer is empty, *when the fid is closed*
(`Diod.Op.xattrClose`).
-/

namespace Diod

namespace Op

variable {σ : Type} (H : Host σ)

/-- The first `n` bytes of some memory. -/
def memBytes (m : ℕ → UInt8) (n : ℕ) : Bytes := (List.range n).map m

/-- `_xattr_create` -/
def xattrAlloc (name : Bytes) (size : ℕ) (set : Bool) (setflags : UInt32) :
    Prog (Ost σ DiodFid) Xattr := do
  allocOr H ENOMEM
  .when (name ≠ []) (allocOr H ENOMEM)
  let nm := if name = [] then none else some (cstr name)
  if size = 0 then pure ⟨nm, [], 0, set, setflags⟩
  else do
    match ← malloc H with
    | some m => pure ⟨nm, memBytes m size, size, set, setflags⟩
    | none => fail ENOMEM

/-- `bounds_check` -/
def boundsCheck (bufsize count offset : ℕ) : Bool :=
  decide (offset ≤ bufsize ∧ count ≤ bufsize - offset)

theorem boundsCheck_iff {bufsize count offset : ℕ} :
    boundsCheck bufsize count offset = true ↔ offset + count ≤ bufsize := by
  rw [boundsCheck, decide_eq_true_eq]
  omega

/-- `xattr_pwrite`: the bytes written, or `EINVAL`. An offset from `2⁶³` upwards is a
negative `off_t`, and is refused like any other that is behind the end. -/
def xattrPwrite (x : Xattr) (data : Bytes) (offset : UInt64) : Except ℕ (Xattr × ℕ) :=
  if x.set ∧ boundsCheck x.len data.length offset.toNat then
    .ok ({ x with buf := storeAt x.buf offset.toNat data }, data.length)
  else .error EINVAL

/-- `xattr_pread` -/
def xattrPread (x : Xattr) (count : UInt32) (offset : UInt64) : Except ℕ Bytes :=
  if ¬x.set ∧ boundsCheck x.len count.toNat offset.toNat then
    .ok ((x.buf.drop offset.toNat).take count.toNat)
  else .error EINVAL

/-- `lgetxattr` for an attribute, or `llistxattr` for the list of their names. -/
def xattrCall (path : Bytes) (name : Option Bytes) (size : ℕ) : HostCall :=
  match name with
  | some name => .lgetxattr path name size
  | none => .llistxattr path size

/-- `_lgetxattr`: one call for the length, and one for the bytes. What the second call does not
store is what was in the memory before, or lies behind it. -/
def lgetxattr (x : Xattr) (path : Bytes) : Prog (Ost σ DiodFid) Xattr := do
  let r ← sysOr H (xattrCall path x.name 0)
  match ← malloc H with
  | none => fail ENOMEM
  | some m => do
    let r ← sysOr H (xattrCall path x.name r.num)
    pure { x with buf := storeAt (memBytes m r.num) 0 r.data, len := r.num }

/-- `xattr_open`. When there is no memory for the attribute, its name is read through
a null pointer. -/
def xattrOpen (name : Bytes) : Prog (Ost σ DiodFid) ℕ := do
  let f ← fid
  .when f.xattr.isSome .crash
  match ← (xattrAlloc H name 0 false 0).attempt with
  | none => .crash
  | some x => do
    let x ← lgetxattr H x f.path.s
    setFid fun f => { f with xattr := some x }
    pure x.len

/-- `xattr_create` -/
def xattrCreate (name : Bytes) (size : ℕ) (setflags : UInt32) : Prog (Ost σ DiodFid) Unit := do
  let f ← fid
  .when f.xattr.isSome .crash
  let x ← xattrAlloc H name size true setflags
  setFid fun f => { f with xattr := some x }

/-- What `xattr_close` does with an attribute that is to be set: it is stored, or
removed. The result is whether that succeeded. -/
def xattrStore (path : Bytes) (x : Xattr) : Prog (Ost σ DiodFid) Bool :=
  if x.set then do
    let r ← syscall H (if 0 < x.len then .lsetxattr path x.name x.buf x.setflags
      else .lremovexattr path x.name)
    .when (r.err ≠ 0) (npUerror r.err)
    pure (decide (r.err = 0))
  else pure true

/-- `xattr_close`, with the same result -/
def xattrClose : Prog (Ost σ DiodFid) Bool := do
  let f ← fid
  match f.xattr with
  | none => pure true
  | some x => do
    let ok ← xattrStore H f.path.s x
    setFid fun f => { f with xattr := none }
    pure ok

end Op

end Diod
