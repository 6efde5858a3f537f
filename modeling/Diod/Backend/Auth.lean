import Diod.Backend.Fid

/-!
# Authentication

`diod_auth.c`: the client writes a MUNGE credential to the fid that `Tauth` made, and
a later `Tattach` has it decoded. What MUNGE says of a credential is a parameter of
the request.
-/

namespace Diod

/-- `struct diod_auth_struct`: the credential, once something has been written. -/
structure Da where
  datastr : Option Bytes
deriving DecidableEq

namespace Op

variable {σ : Type} (H : Host σ)

/-- `startauth`, with the `_da_create` that makes the state and a context for
MUNGE. -/
def startauth : Prog (Ost σ Da) Unit := do
  allocOr H ENOMEM
  allocOr H ENOMEM
  setFid fun _ => ⟨none⟩

/-- `checkauth`, for a user with this uid. MUNGE refuses a credential, or says whose it
is. -/
def checkauth (uid : UInt32) (munge : Bytes → Option UInt32) : Prog (Ost σ Da) Unit := do
  let da ← fid
  match da.datastr with
  | none => fail EPERM
  | some cred =>
    match munge (cstr cred) with
    | none => fail EPERM
    | some mungeuid => failIf (mungeuid ≠ uid) EPERM

/-- `writeafid` -/
def writeafid (offset : UInt64) (data : Bytes) : Prog (Ost σ Da) Unit := do
  failIf (data = []) EIO
  let da ← fid
  let old := (da.datastr.map cstr).getD []
  failIf (offset.toNat ≠ old.length) EIO
  match ← malloc H with
  | none => do
    setFid fun _ => ⟨none⟩
    fail ENOMEM
  | some _ => setFid fun _ => ⟨some (old ++ data)⟩

end Op

end Diod
