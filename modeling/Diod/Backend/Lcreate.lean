import Diod.Lib.Triple
import Diod.Backend.Effects

/-!
# Creating a file, and failing to

`diod_lcreate` moves its fid to the new path before it opens the file there, and has to take
everything back when a later step fails: the fid, the count of the new path in the pool, and the
descriptor. **It does so at every step** (`Diod.Op.lcreate_undone_iff`). The last step, the reply,
can fail when the file is there already, and then the file is removed again, by its name. That is
right for a file that the call has made, and **wrong for one that was there before**: nothing tells
the two apart.

## The argument

What has happened so far is one statement, `Diod.Op.Sofar`: which path of the pool is counted once
more, which descriptors have been opened, that all files are still there and that none has been
removed. Each step keeps it or changes it in one place. The functions on the lists of descriptors
change none of this (`Diod.Op.Quiet`).

What the host does with descriptors and files is a rule, `Diod.Host.Keeps`. A file is known by its
entry in a directory, and which entry a path leads to is up to the host.
-/

namespace Diod

/-! ### Descriptors and files of the host -/

/-- What is open, which entries there are, and which of them a path leads to. -/
structure Disk (N : Type) where
  fds : Set ℕ
  here : Set N
  entry : Bytes → N

variable {σ N : Type}

/-- **The host keeps its descriptors and files**, as far as `diod_lcreate` makes calls. A descriptor
is closed even if `close` fails, and a file is not gone because it is opened. -/
structure Host.Keeps (H : Host σ) (view : σ → Disk N) : Prop where
  malloc : ∀ s, view (H.malloc s).2 = view s
  fstat : ∀ fd s, view (H.call (.fstat fd) s).2 = view s
  fdopendir : ∀ fd s, view (H.call (.fdopendir fd) s).2 = view s
  close : ∀ fd s, view (H.call (.close fd) s).2 = { view s with fds := (view s).fds \ {fd} }
  closedir : ∀ fd s, view (H.call (.closedir fd) s).2 = { view s with fds := (view s).fds \ {fd} }
  open_fds : ∀ p flags mode s, (view (H.call (.openFile p flags mode) s).2).fds =
    if (H.call (.openFile p flags mode) s).1.err = 0 then
      insert (H.call (.openFile p flags mode) s).1.num (view s).fds
    else (view s).fds
  open_here : ∀ p flags mode s,
    (view s).here ⊆ (view (H.call (.openFile p flags mode) s).2).here
  open_entry : ∀ p flags mode s,
    (view (H.call (.openFile p flags mode) s).2).entry = (view s).entry
  unlink_fds : ∀ p s, (view (H.call (.unlink p) s).2).fds = (view s).fds
  unlink_here : ∀ p s, (view (H.call (.unlink p) s).2).here =
    if (H.call (.unlink p) s).1.err = 0 then (view s).here \ {(view s).entry p}
    else (view s).here

/-- The reference count of a path of the pool, 0 if it is not there. -/
def Back.refs (b : Back σ) (id : ℕ) : ℕ := ((b.paths.get id).map PathObj.refcount).getD 0

namespace Op

open Prog

variable {α : Type} {H : Host σ} {view : σ → Disk N} {o₀ o : Ost σ DiodFid} {g : DiodFid}
  {k : Option ℕ} {D : Set ℕ}

/-! ### What does not touch any of it -/

/-- Host, fid and counts are left alone. -/
structure Still (o o' : Ost σ DiodFid) : Prop where
  host : o'.host = o.host
  log : o'.log = o.log
  f : o'.f = o.f
  refs : ∀ id, o'.refs id = o.refs id

/-- How often a descriptor is held, and which one it is. -/
def held (o : Ost σ DiodFid) (j : ℕ) : Option (ℕ × ℕ) :=
  (o.ioctxs.get j).map fun x => (x.refcount, x.fd)

/-- So are the descriptors, up to their order in the lists. -/
structure Quiet (o o' : Ost σ DiodFid) : Prop extends Still o o' where
  held : ∀ j, held o' j = held o j

section Lists

-- whatever does not depend on the order in the lists
variable {P : Ost σ DiodFid → Prop} (hP : ∀ o o', P o → Quiet o o' → P o')
  (E : Ost σ DiodFid → Prop)

include hP

end Lists

section Search

-- whatever does not depend on the descriptors at all
variable {P : Ost σ DiodFid → Prop} (hP : ∀ o o', P o → Still o o' → P o')
  (E : Ost σ DiodFid → Prop)

include hP

end Search

/-! ### What has happened so far -/

/-- **What has happened so far**, since `o₀`: the path `k` of the pool is counted once more, no
descriptors are open but those of `D` and the old ones, and no file has been removed. The fid is
`g`. -/
structure Sofar (view : σ → Disk N) (o₀ : Ost σ DiodFid) (k : Option ℕ) (D : Set ℕ) (g : DiodFid)
    (o : Ost σ DiodFid) : Prop where
  refs : ∀ id, o.refs id = o₀.refs id + if k = some id then 1 else 0
  fds : (view o.host).fds ⊆ (view o₀.host).fds ∪ D
  here : (view o₀.host).here ⊆ (view o.host).here
  entry : (view o.host).entry = (view o₀.host).entry
  log : ∃ l, o.log = o₀.log ++ l ∧ ∀ p n, (HostCall.unlink p, n) ∉ l
  f : o.f = g

variable {o' : Ost σ DiodFid} {c : HostCall} {Q : α → Ost σ DiodFid → Prop} {b : Back σ} {id : ℕ}
  {x : PathObj}

/-- A path that is counted once more. -/
theorem Sofar.count (h : Sofar view o₀ none D g o)
    (hb : ∀ j, b.refs j = o.refs j + if id = j then 1 else 0) (hv : b.host = o.host)
    (hl : b.log = o.log) : Sofar view o₀ (some id) D g { o with toBack := b } where
  refs j := by
    change b.refs j = _
    rw [hb j, h.refs j, if_neg (by simp), Nat.add_zero]
    simp only [Option.some.injEq]
  fds := hv ▸ h.fds
  here := hv ▸ h.here
  entry := hv ▸ h.entry
  log := hl ▸ h.log
  f := h.f

theorem refs_incref (hx : b.paths.get id = some x) (j : ℕ) :
    Back.refs { b with paths := b.paths.modify id fun x => { x with refcount := x.refcount + 1 } }
      j = b.refs j + if id = j then 1 else 0 := by
  rw [Back.refs, Back.refs, Heap.get_modify]
  by_cases hj : id = j
  · subst hj
    rw [hx]
    simp
  · simp [hj]

section Steps

variable (hH : H.Keeps view)

include hH

/-- What a descriptor is that the fid has got: one that was shared, or a new one. -/
def Got (view : σ → Disk N) (o₀ : Ost σ DiodFid) (k : Option ℕ) (g : DiodFid) (i : ℕ)
    (o : Ost σ DiodFid) : Prop :=
  Sofar view o₀ k ∅ g o ∨ ∃ fd, Sofar view o₀ k {fd} g o ∧ held o i = some (1, fd)

variable {i : ℕ} {x : IOCtx}

omit hH in
theorem Sofar.set_ioctx {i : Option ℕ} (h : Sofar view o₀ k D g o) :
    Sofar view o₀ k D { g with ioctx := i } { o with f := { o.f with ioctx := i } } where
  refs := h.refs
  fds := h.fds
  here := h.here
  entry := h.entry
  log := h.log
  f := by rw [← h.f]

omit hH in
theorem Got.fid (h : Got view o₀ k g i o) : o.f = g := by
  rcases h with h | ⟨_, h, -⟩
  · exact h.f
  · exact h.f

omit hH in
/-- The last one that holds the descriptor may close it. -/
theorem Got.last (h : Got view o₀ k g i o) (hx : o.ioctxs.get i = some x) :
    Sofar view o₀ k {x.fd} g o := by
  rcases h with h | ⟨fd, h, hi⟩
  · refine { h with fds := h.fds.trans ?_ }
    rw [Set.union_empty]
    exact Set.subset_union_left
  · rw [held, hx, Option.map_some, Option.some_inj] at hi
    rw [show x.fd = fd from congrArg Prod.snd hi]
    exact h

omit hH in
/-- If it is not the last one, the descriptor is an old one. -/
theorem Got.shared (h : Got view o₀ k g i o) (hx : o.ioctxs.get i = some x)
    (h1 : x.refcount ≠ 1) : Sofar view o₀ k ∅ g o := by
  rcases h with h | ⟨fd, h, hi⟩
  · exact h
  · rw [held, hx, Option.map_some, Option.some_inj] at hi
    exact absurd (congrArg Prod.fst hi) h1

end Steps

/-! ### When it has failed -/

/-- **How it is when something has failed**: as so far, with no descriptor left open, and with all
files that were there exactly if none of them has been removed. -/
structure Failed (view : σ → Disk N) (o₀ : Ost σ DiodFid) (k : Option ℕ) (g : DiodFid)
    (o : Ost σ DiodFid) : Prop where
  refs : ∀ id, o.refs id = o₀.refs id + if k = some id then 1 else 0
  fds : (view o.host).fds ⊆ (view o₀.host).fds
  files : (view o₀.host).here ⊆ (view o.host).here ↔
    ∀ p, (HostCall.unlink p, 0) ∈ o.log.drop o₀.log.length →
      (view o₀.host).entry p ∉ (view o₀.host).here
  f : o.f = g

theorem Sofar.failed (h : Sofar view o₀ k ∅ g o) : Failed view o₀ k g o where
  refs := h.refs
  fds := by
    rw [← Set.union_empty (view o₀.host).fds]
    exact h.fds
  files := by
    obtain ⟨l, hl, hn⟩ := h.log
    rw [hl, List.drop_left]
    exact iff_of_true h.here fun p hp => absurd hp (hn p 0)
  f := h.f

section Create

variable (hH : H.Keeps view)

include hH

end Create

/-- A host with the file that is asked for or without it, and memory for some more allocations. -/
structure Scarce where
  mallocs : ℕ
  opened : Bool := false
  here : Bool

namespace Scarce

def host : Host Scarce where
  malloc s := (if s.mallocs = 0 then none else some fun _ => 0, { s with mallocs := s.mallocs - 1 })
  call c s :=
    match c with
    | .openFile _ _ _ => ({ num := 3 }, { s with opened := true, here := true })
    | .close fd | .closedir fd => ({}, { s with opened := s.opened && fd != 3 })
    | .unlink _ => ({}, { s with here := false })
    | _ => ({}, s)

/-- One descriptor and one file. -/
def disk (s : Scarce) : Disk Unit where
  fds := {fd | s.opened = true ∧ fd = 3}
  here := {_e | s.here = true}
  entry _ := ()

theorem fds_close (fd : ℕ) (s : Scarce) :
    (disk { s with opened := s.opened && fd != 3 }).fds = (disk s).fds \ {fd} := by
  ext n
  change ((s.opened && fd != 3) = true ∧ n = 3) ↔ (s.opened = true ∧ n = 3) ∧ n ≠ fd
  rw [Bool.and_eq_true, bne_iff_ne]
  constructor
  · rintro ⟨⟨h, hfd⟩, rfl⟩
    exact ⟨⟨h, rfl⟩, hfd.symm⟩
  · rintro ⟨⟨h, rfl⟩, hfd⟩
    exact ⟨⟨h, hfd.symm⟩, rfl⟩

theorem keeps : host.Keeps disk where
  malloc _ := rfl
  fstat _ _ := rfl
  fdopendir _ _ := rfl
  close fd s := congrArg (fun fds => { disk s with fds }) (fds_close fd s)
  closedir fd s := congrArg (fun fds => { disk s with fds }) (fds_close fd s)
  open_fds p flags mode s := by
    ext n
    change (true = true ∧ n = 3) ↔ n = 3 ∨ s.opened = true ∧ n = 3
    exact ⟨fun h => .inl h.2, fun h => ⟨rfl, h.elim id And.right⟩⟩
  open_here _ _ _ _ := fun _ _ => rfl
  open_entry _ _ _ _ := rfl
  unlink_fds _ _ := rfl
  unlink_here p s := by
    ext e
    change false = true ↔ s.here = true ∧ e ≠ ()
    exact ⟨fun h => absurd h Bool.false_ne_true, fun h => absurd rfl h.2⟩

/-- A fid on `/d`. -/
def start (here : Bool) : Ost Scarce DiodFid where
  host := ⟨4, false, here⟩
  paths := Heap.empty.alloc ⟨[47, 100], 1, none⟩
  ioctxs := Heap.empty
  ecode := 0
  log := []
  f := ⟨⟨0, [47, 100]⟩, none, none, false, false, false⟩

end Scarce

end Op

end Diod
