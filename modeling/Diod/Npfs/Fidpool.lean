import Diod.Backend.Auth
import Diod.Npfs.Ctl

/-!
# Fids

The fids of a connection, and the references that are counted on each. A fid is
found by its number among those that are not marked as zombies; the requests of a
client hold its address.

The pool keeps a fid exactly as long as there are references to it: a count of zero
is not possible (`Diod.FidPool.pos`), and only `Diod.FidPool.incref` and
`Diod.FidPool.decref` change a count. What else there is to a fid is changed by
`Diod.FidPool.update`, which leaves the count and the number alone.
-/

namespace Diod

/-- `Npuser` -/
structure Npuser where
  uname : Bytes
  uid : UInt32
  gid : UInt32
  sg : List UInt32
deriving DecidableEq

/-- Who made what hangs on a fid: the file server, the server itself, or the
authentication. -/
inductive Backend where
  | srv
  | ctl
  | auth
deriving DecidableEq

/-- `fid->aux`, with what it points to. -/
inductive Aux where
  | null
  | srv (f : DiodFid)
  | ctl (f : CtlFid)
  | auth (d : Da)
deriving DecidableEq

/-- Who made it. -/
def Aux.backend : Aux → Option Backend
  | .null => none
  | .srv _ => some .srv
  | .ctl _ => some .ctl
  | .auth _ => some .auth

/-- `Npfid`, with its two flags. The thread pool it prefers is left out. -/
structure Npfid where
  fid : UInt32
  refcount : ℕ
  type : UInt8 := 0
  user : Option Npuser := none
  aname : Option Bytes := none
  /-- `FID_FLAGS_ZOMBIE` -/
  zombie : Bool := false
  /-- `FID_FLAGS_ROFS` -/
  rofs : Bool := false
  aux : Aux := .null
deriving DecidableEq

namespace Npfid

/-- `fid->type & Qtauth` -/
def isAuth (f : Npfid) : Bool := f.type &&& Qtauth != 0

/-- `fid->type & Qttmp` -/
def isTmp (f : Npfid) : Bool := f.type &&& Qttmp != 0

/-- The uid of `fid->user`. -/
def uid (f : Npfid) : Option UInt32 := f.user.map (·.uid)

/-- **A fid that is ready for use**: its user, its aname and what hangs on it are
there. -/
def ready (f : Npfid) : Bool := f.user.isSome && f.aname.isSome && f.aux != .null

end Npfid

/-- `Npfidpool` -/
structure FidPool where
  heap : Heap Npfid
  /-- Every fid in the pool is referenced. -/
  pos : ∀ p f, heap.get p = some f → 0 < f.refcount

namespace FidPool

/-- The pool of a new connection. -/
def empty : FidPool := ⟨.empty, fun _ _ h => by cases h⟩

instance : Inhabited FidPool := ⟨empty⟩

/-- `*p` -/
def get (P : FidPool) (p : ℕ) : Option Npfid := P.heap.get p

/-- The address of the next fid. -/
def next (P : FidPool) : ℕ := P.heap.next

/-- The references on a fid, if it is there. -/
def refs (P : FidPool) (p : ℕ) : Option ℕ := (P.get p).map (·.refcount)

/-- `_lookup_fid` -/
def lookup (P : FidPool) (n : UInt32) : Option (ℕ × Npfid) :=
  P.heap.find fun f => f.fid == n && !f.zombie

theorem get_next (P : FidPool) : P.get P.next = none := P.heap.fresh _ le_rfl

variable {P : FidPool} {n : UInt32} {p q : ℕ} {f : Npfid}

theorem get_of_lookup
    (h : P.lookup n = some (p, f)) : P.get p = some f ∧ f.fid = n ∧ f.zombie = false := by
  obtain ⟨hp, hf⟩ := Heap.get_of_find h
  simp only [Bool.and_eq_true, beq_iff_eq, Bool.not_eq_true'] at hf
  exact ⟨hp, hf⟩

theorem lookup_eq_none :
    P.lookup n = none ↔ ∀ p f, P.get p = some f → f.fid = n → f.zombie = true := by
  refine Heap.find_eq_none.trans (forall₂_congr fun p f => forall_congr' fun _ => ?_)
  cases f.zombie <;> simp

/-! ### Changes that do not count -/

/-- Change a fid, except for its number and its count. -/
def update (P : FidPool) (p : ℕ) (g : Npfid → Npfid) : FidPool where
  heap := P.heap.modify p fun f => { g f with fid := f.fid, refcount := f.refcount }
  pos q f h := by
    obtain ⟨a, ha, rfl⟩ := Heap.get_of_get_modify h
    have := P.pos q a ha
    split <;> exact this

theorem get_update_self (h : P.get p = some f) (g : Npfid → Npfid) :
    (P.update p g).get p = some { g f with fid := f.fid, refcount := f.refcount } := by
  refine (Heap.get_modify_self ..).trans ?_
  rw [show P.heap.get p = some f from h, Option.map_some]

theorem get_update_of_ne (hq : q ≠ p) (g : Npfid → Npfid) : (P.update p g).get q = P.get q :=
  Heap.get_modify_of_ne hq _

theorem refs_update (P : FidPool) (p : ℕ) (g : Npfid → Npfid) (q : ℕ) :
    (P.update p g).refs q = P.refs q := by
  rcases eq_or_ne q p with rfl | hq
  · rcases h : P.get q with _ | f
    · have hn : (P.update q g).get q = none := by
        refine (Heap.get_modify_self ..).trans ?_
        rw [show P.heap.get q = none from h, Option.map_none]
      simp only [refs, hn, h]
    · simp only [refs, get_update_self h, h, Option.map_some]
  · simp only [refs, get_update_of_ne hq]

/-! ### Counting -/

/-- `_create_fid` and `_link_fid`, with the first reference. -/
def create (P : FidPool) (n : UInt32) : FidPool where
  heap := P.heap.alloc { fid := n, refcount := 1 }
  pos p f h := by
    rcases eq_or_ne p P.heap.next with rfl | hne
    · rw [Heap.get_alloc_next] at h
      cases h
      exact Nat.one_pos
    · exact P.pos p f (by rwa [Heap.get_alloc_of_ne hne] at h)

@[simp] theorem next_create (P : FidPool) (n : UInt32) : (P.create n).next = P.next + 1 := rfl

@[simp] theorem get_create_next (P : FidPool) (n : UInt32) :
    (P.create n).get P.next = some { fid := n, refcount := 1 } :=
  Heap.get_alloc_next ..

theorem get_create_of_ne (hp : p ≠ P.next) (n : UInt32) : (P.create n).get p = P.get p :=
  Heap.get_alloc_of_ne hp _

/-- `np_fid_incref` -/
def incref (P : FidPool) (p : ℕ) : FidPool where
  heap := P.heap.modify p fun f => { f with refcount := f.refcount + 1 }
  pos q f h := by
    obtain ⟨a, ha, rfl⟩ := Heap.get_of_get_modify h
    have := P.pos q a ha
    split
    · exact Nat.succ_pos _
    · exact this

@[simp] theorem next_incref (P : FidPool) (p : ℕ) : (P.incref p).next = P.next := rfl

theorem get_incref_self (h : P.get p = some f) :
    (P.incref p).get p = some { f with refcount := f.refcount + 1 } := by
  refine (Heap.get_modify_self ..).trans ?_
  rw [show P.heap.get p = some f from h, Option.map_some]

theorem get_incref_of_ne (hq : q ≠ p) : (P.incref p).get q = P.get q :=
  Heap.get_modify_of_ne hq _

theorem refs_incref (h : P.get p = some f) (q : ℕ) :
    (P.incref p).refs q = if q = p then some (f.refcount + 1) else P.refs q := by
  split
  · rename_i hq
    rw [hq, refs, get_incref_self h, Option.map_some]
  · rename_i hq
    rw [refs, get_incref_of_ne hq, refs]

/-- The count of `np_fid_decref`: the fid is unlinked with its last reference. -/
def decref (P : FidPool) (p : ℕ) : FidPool where
  heap := if (P.heap.get p).any (·.refcount = 1) then P.heap.free p
    else P.heap.modify p fun f => { f with refcount := f.refcount - 1 }
  pos q f h := by
    split at h
    · exact P.pos q f (Heap.get_of_get_free h).2
    · rename_i hlast
      obtain ⟨a, ha, rfl⟩ := Heap.get_of_get_modify h
      have := P.pos q a ha
      split
      · rename_i heq
        subst heq
        have : a.refcount ≠ 1 := by simpa [ha] using hlast
        exact Nat.sub_pos_of_lt (by omega)
      · exact this

theorem next_decref (P : FidPool) (p : ℕ) : (P.decref p).next = P.next := by
  unfold decref next
  split <;> rfl

theorem get_decref_of_ne (hq : q ≠ p) : (P.decref p).get q = P.get q := by
  unfold decref get
  split
  · exact Heap.get_free_of_ne hq
  · exact Heap.get_modify_of_ne hq _

theorem refs_decref_of_ne (hq : q ≠ p) : (P.decref p).refs q = P.refs q := by
  rw [refs, get_decref_of_ne hq, refs]

theorem get_decref_last (h : P.get p = some f)
    (hf : f.refcount = 1) : (P.decref p).get p = none := by
  have h : P.heap.get p = some f := h
  unfold decref get
  dsimp only
  rw [if_pos (by simp [h, hf])]
  exact Heap.get_free_self ..

theorem get_decref_self (h : P.get p = some f)
    (hf : f.refcount ≠ 1) : (P.decref p).get p = some { f with refcount := f.refcount - 1 } := by
  have h : P.heap.get p = some f := h
  unfold decref get
  dsimp only
  rw [if_neg (by simp [h, hf])]
  refine (Heap.get_modify_self ..).trans ?_
  rw [h, Option.map_some]

end FidPool

end Diod
