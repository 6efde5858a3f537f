import Diod.Backend.Fid
import Diod.Lib.Runs
import Mathlib.Data.Int.Notation
import Mathlib.Data.List.Count

/-!
# Threads at the pool of paths

The paths of all fids are in one pool (`diod_ioctx.c`), where a string is kept once and
referenced as often as there are fids that use it. The pool has a lock, `pp->lock`, and
each path has one for its count, `path->lock`. **The count goes up without the lock of the
pool**: `path_incref` only takes the lock of the path, while `path_decref`, which takes the
path out of the pool and frees it with the last reference, takes both.

The steps of a thread are what it does under a lock of its own: `_path_alloc` finds a path
under `pp->lock` and raises its count under `path->lock`, `path_decref` lowers the count
under both, takes the path out under `pp->lock`, and frees it under none. Between any two
of them other threads may do what the locks let them do. That the count of a path in the
pool is not zero, except for the one that the owner of `pp->lock` is about to take out,
is what all depends on: it is because who raises a count has a reference already, or has
found the path under `pp->lock` (`Diod.path_pool_sound`). No call is stuck
(`Diod.path_pool_drains`).
-/

namespace Diod

/-- `struct path_struct`, with how often it has been freed. -/
structure Ppath where
  /-- The `len` bytes at `s`. -/
  s : Bytes := []
  refcount : ℤ := 0
  freed : ℕ := 0

/-- A call that gives a path. -/
inductive Wanted where
  /-- `path_create` -/
  | create (ns : Bytes)
  /-- `path_append` -/
  | append (opath : ℕ) (ns : Bytes)
deriving DecidableEq

/-- The name in it. -/
def Wanted.ns : Wanted → Bytes
  | .create ns | .append _ ns => ns

/-- Where a thread in a call is when it has no lock. -/
inductive Pcall where
  /-- Before `_path_alloc`, with the string it made. -/
  | alloc (w : Wanted) (s : Bytes)
  /-- In `path_decref`, before `_path_free`. -/
  | free (p : ℕ)
deriving DecidableEq

/-- Where the thread is that has `pp->lock`. -/
inductive Psect where
  /-- In `_path_alloc`, before `path_incref` of what it found. -/
  | found (w : Wanted) (p : ℕ)
  /-- In `path_decref`, before `hash_remove`. -/
  | remove (p : ℕ)
deriving DecidableEq

/-- `PathPool`, the paths that were ever in it, and what threads have. -/
structure Pathpool where
  paths : ℕ → Ppath := fun _ => {}
  /-- How many paths there have been. -/
  next : ℕ := 0
  hash : Bytes → Option ℕ := fun _ => none
  /-- Who has `pp->lock`, and where in the section. -/
  lock : Option (ℕ × Psect) := none
  calls : List (ℕ × Pcall) := []
  /-- The references. -/
  held : List ℕ := []
  /-- What calls have returned. -/
  returned : List (Wanted × ℕ) := []

namespace Pathpool

variable (s : Pathpool)

/-- Change a path. -/
def modify (p : ℕ) (g : Ppath → Ppath) : Pathpool :=
  { s with paths := Function.update s.paths p (g (s.paths p)) }

/-- The string that is wanted. -/
def wanted : Wanted → Bytes
  | .create ns => ns
  | .append o ns => (s.paths o).s ++ 47 :: ns

/-- The caller has what it gives. -/
def Has : Wanted → Prop
  | .create _ => True
  | .append o _ => o ∈ s.held

instance (w : Wanted) : Decidable (s.Has w) :=
  match w with
  | .create _ => isTrue trivial
  | .append o _ => inferInstanceAs (Decidable (o ∈ s.held))

/-- The thread is not inside a call. -/
def Idle (t : ℕ) : Prop := (∀ x ∈ s.calls, x.1 ≠ t) ∧ ∀ x ∈ s.lock, x.1 ≠ t

instance (t : ℕ) : Decidable (s.Idle t) :=
  inferInstanceAs (Decidable ((∀ x ∈ s.calls, x.1 ≠ t) ∧ ∀ x ∈ s.lock, x.1 ≠ t))

/-- `path_incref` -/
def pathIncref (p : ℕ) : Pathpool :=
  { s.modify p fun f => { f with refcount := f.refcount + 1 } with held := p :: s.held }

/-- `_path_alloc` of a string that is not there. -/
def insert (w : Wanted) (str : Bytes) : Pathpool :=
  { s with
    paths := Function.update s.paths s.next { s := str, refcount := 1 }
    next := s.next + 1
    hash := Function.update s.hash (cstr str) (some s.next)
    held := s.next :: s.held
    returned := (w, s.next) :: s.returned }

/-- `_path_alloc`, up to `path_incref`. -/
def pathAlloc (t : ℕ) (w : Wanted) (str : Bytes) : Pathpool :=
  let s := { s with calls := s.calls.erase (t, .alloc w str) }
  match s.hash (cstr str) with
  -- the count has a lock of its own, and is changed in a section of its own
  | some p => { s with lock := some (t, .found w p) }
  | none => s.insert w str

/-- `--path->refcount` -/
def lower (p : ℕ) : Pathpool :=
  { s.modify p fun f => { f with refcount := f.refcount - 1 } with held := s.held.erase p }

/-- `path_decref`, up to `hash_remove`. -/
def pathDecref (t p : ℕ) : Pathpool :=
  let s := s.lower p
  if (s.paths p).refcount = 0 then { s with lock := some (t, .remove p) } else s

end Pathpool

/-- What a thread does next. -/
inductive Pstep where
  /-- A call of `path_create` or `path_append`, up to the lock. -/
  | ask (w : Wanted)
  /-- `_path_alloc`, up to `path_incref`. -/
  | alloc (w : Wanted) (s : Bytes)
  /-- The rest of it. -/
  | found (w : Wanted) (p : ℕ)
  | incref (p : ℕ)
  /-- `path_decref`, up to `hash_remove`. -/
  | decref (p : ℕ)
  /-- `hash_remove` and the end of the lock. -/
  | remove (p : ℕ)
  /-- `_path_free` -/
  | free (p : ℕ)
deriving DecidableEq

/-- One section of a thread. Who calls `path_incref`, `path_decref` or `path_append` has a
reference to the path it gives. -/
def Pathpool.step (s : Pathpool) : ℕ × Pstep → Option Pathpool
  | (t, .ask w) =>
    if s.Idle t ∧ s.Has w then
      -- the string of `path_append` is put together before the lock is taken
      some { s with calls := (t, .alloc w (s.wanted w)) :: s.calls }
    else none
  | (t, .alloc w str) =>
    if s.lock = none ∧ (t, .alloc w str) ∈ s.calls then some (s.pathAlloc t w str) else none
  | (t, .found w p) =>
    if s.lock = some (t, .found w p) then
      some { s.pathIncref p with lock := none, returned := (w, p) :: s.returned }
    else none
  | (t, .incref p) => if s.Idle t ∧ p ∈ s.held then some (s.pathIncref p) else none
  | (t, .decref p) =>
    if s.Idle t ∧ s.lock = none ∧ p ∈ s.held then some (s.pathDecref t p) else none
  | (t, .remove p) =>
    if s.lock = some (t, .remove p) then
      some { s with
        -- the key is the string up to its first NUL, whoever is stored there
        hash := Function.update s.hash (cstr (s.paths p).s) none
        lock := none
        calls := (t, .free p) :: s.calls }
    else none
  | (t, .free p) =>
    if (t, .free p) ∈ s.calls then
      some { s.modify p fun f => { f with freed := f.freed + 1 } with
        calls := s.calls.erase (t, .free p) }
    else none

/-- **Names have no NUL in them.** -/
def Pathpool.NulFree (_ : Pathpool) : ℕ × Pstep → Prop
  | (_, .ask w) => 0 ∉ w.ns
  | _ => True

/-! ### What holds in a sound pool -/

namespace Pathpool

/-- The owner of the lock is about to take it out. -/
def Removing (s : Pathpool) (p : ℕ) : Prop := ∃ t, s.lock = some (t, .remove p)

/-- How many threads are about to free it. -/
def ending (s : Pathpool) (p : ℕ) : ℕ :=
  s.calls.countP (·.2 = .free p) + (s.lock.toList.countP (·.2 = .remove p))

/-- **A pool whose counts are right.** The table has exactly the paths with references, and
the one that is being taken out, each under its string. -/
structure Counted (s : Pathpool) : Prop where
  refs : ∀ p, (s.paths p).refcount = s.held.count p
  pooled : ∀ k p, s.hash k = some p ↔
    p < s.next ∧ (s.paths p).s = k ∧ (0 < s.held.count p ∨ s.Removing p)
  ends : ∀ p < s.next, (s.paths p).freed + s.ending p = if s.held.count p = 0 then 1 else 0
  fresh : ∀ p, s.next ≤ p → s.held.count p = 0 ∧ s.ending p = 0

/-- The path a call starts from, if it does, has been made. -/
def Known (s : Pathpool) : Wanted → Prop
  | .create _ => True
  | .append o _ => o < s.next

/-- **Calls get what they want.** -/
structure Answers (s : Pathpool) : Prop where
  strings : ∀ p < s.next, 0 ∉ (s.paths p).s
  alloc : ∀ t w k, (t, .alloc w k) ∈ s.calls → s.Known w ∧ k = s.wanted w ∧ 0 ∉ k
  found : ∀ t w p, s.lock = some (t, .found w p) → s.Known w ∧ s.hash (s.wanted w) = some p
  returned : ∀ w p, (w, p) ∈ s.returned → s.Known w ∧ p < s.next ∧ (s.paths p).s = s.wanted w

variable {s s' : Pathpool} {p q t : ℕ} {w : Wanted} {k : Bytes}

theorem not_removing (h : ∀ t p, s.lock ≠ some (t, .remove p)) : ¬ s.Removing p := by
  rintro ⟨t, ht⟩
  exact h t p ht

/-- **A path that ends has no references**, and ends once. -/
theorem Counted.of_ending (h : s.Counted) (he : 0 < s.ending p) :
    p < s.next ∧ s.held.count p = 0 ∧ (s.paths p).freed = 0 ∧ s.ending p = 1 := by
  have hlt : p < s.next := by
    by_contra hn
    have := (h.fresh p (Nat.le_of_not_lt hn)).2
    omega
  -- freed or about to be: both at once are more than `ends` allows
  have := h.ends p hlt
  split at this <;> omega

theorem ending_of_unlocked (h : s.lock = none) : s.ending p = s.calls.countP (·.2 = .free p) := by
  simp [ending, h]

theorem ending_of_remove (h : s.lock = some (t, .remove p)) :
    s.ending q = s.calls.countP (·.2 = .free q) + if p = q then 1 else 0 := by
  simp [ending, h, List.countP_cons]

theorem ending_pos_of_removing (h : s.Removing p) : 0 < s.ending p := by
  obtain ⟨t, ht⟩ := h
  simp [ending, ht]

theorem Counted.lt_of_mem (h : s.Counted) (hp : p ∈ s.held) : p < s.next := by
  by_contra hn
  have hc := (h.fresh p (Nat.le_of_not_lt hn)).1
  have := List.count_pos_iff.mpr hp
  omega

/-! ### Steps and counts -/

/-- A step that leaves the paths, the table and the references alone. -/
theorem Counted.congr (h : s.Counted) (hpaths : s'.paths = s.paths) (hnext : s'.next = s.next)
    (hhash : s'.hash = s.hash) (hheld : s'.held = s.held)
    (hrem : ∀ p, s'.Removing p ↔ s.Removing p) (hend : ∀ p, s'.ending p = s.ending p) :
    s'.Counted where
  refs p := by rw [hpaths, hheld, h.refs]
  pooled k p := by rw [hhash, hpaths, hnext, hheld, hrem, h.pooled]
  ends p hp := by
    rw [hpaths, hend, hheld]
    exact h.ends p (hnext ▸ hp)
  fresh p hp := by
    rw [hheld, hend]
    exact h.fresh p (hnext ▸ hp)

/-- A step that is about one path. -/
theorem Counted.at (h : s.Counted) (hp : p < s.next) (hnext : s'.next = s.next)
    (hpaths : ∀ q, q ≠ p → s'.paths q = s.paths q)
    (hheld : ∀ q, q ≠ p → s'.held.count q = s.held.count q)
    (hrem : ∀ q, q ≠ p → (s'.Removing q ↔ s.Removing q))
    (hend : ∀ q, q ≠ p → s'.ending q = s.ending q)
    (hhash : ∀ k q, q ≠ p → (s'.hash k = some q ↔ s.hash k = some q))
    (hrefs : (s'.paths p).refcount = s'.held.count p)
    (hpool : ∀ k, s'.hash k = some p ↔
      (s'.paths p).s = k ∧ (0 < s'.held.count p ∨ s'.Removing p))
    (hends : (s'.paths p).freed + s'.ending p = if s'.held.count p = 0 then 1 else 0) :
    s'.Counted where
  refs q := by
    rcases eq_or_ne q p with rfl | hq
    · exact hrefs
    · rw [hpaths q hq, hheld q hq, h.refs]
  pooled k q := by
    rcases eq_or_ne q p with rfl | hq
    · rw [hpool, hnext]
      exact (and_iff_right hp).symm
    · rw [hhash k q hq, hnext, hpaths q hq, hheld q hq, hrem q hq, h.pooled]
  ends q hlt := by
    rcases eq_or_ne q p with rfl | hq
    · exact hends
    · rw [hpaths q hq, hend q hq, hheld q hq]
      exact h.ends q (hnext ▸ hlt)
  fresh q hq := by
    have hqp : q ≠ p := by omega
    rw [hheld q hqp, hend q hqp]
    exact h.fresh q (hnext ▸ hq)

theorem Counted.pathIncref (h : s.Counted) (hp : p < s.next) (hpos : 0 < s.held.count p) :
    (s.pathIncref p).Counted := by
  have hself : (s.pathIncref p).paths p =
      { s.paths p with refcount := (s.paths p).refcount + 1 } := Function.update_self ..
  have hc : (s.pathIncref p).held.count p = s.held.count p + 1 := List.count_cons_self
  refine h.at hp rfl (fun q hq => Function.update_of_ne hq ..)
    (fun q hq => List.count_cons_of_ne hq.symm) (fun q _ => .rfl) (fun q _ => rfl)
    (fun k q _ => .rfl) ?_ (fun k => ?_) ?_
  · rw [hself, hc, h.refs]
    push_cast
    rfl
  · have hk : (s.pathIncref p).hash k = s.hash k := rfl
    rw [hk, h.pooled, hself, hc]
    simp [hp, hpos]
  · have he := h.ends p hp
    rw [if_neg (by omega)] at he
    rw [hself, hc, if_neg (by omega)]
    exact he

theorem Counted.pathDecref (h : s.Counted) (hl : s.lock = none) (hp : p ∈ s.held) (t : ℕ) :
    (s.pathDecref t p).Counted := by
  have hlt := h.lt_of_mem hp
  have hpos := List.count_pos_iff.mpr hp
  have he := h.ends p hlt
  rw [if_neg (by omega)] at he
  have hself : (s.lower p).paths p = { s.paths p with refcount := (s.paths p).refcount - 1 } :=
    Function.update_self ..
  have hc : (s.lower p).held.count p = s.held.count p - 1 := List.count_erase_self
  have hrefs : ((s.lower p).paths p).refcount = (s.lower p).held.count p := by
    rw [hself, hc, h.refs]
    push_cast [Nat.sub_add_cancel hpos]
    omega
  -- the lock is free, so nothing is being taken out
  have hnot : ∀ q, ¬ s.Removing q := fun q => not_removing (by simp [hl])
  have hpaths : ∀ q, q ≠ p → (s.lower p).paths q = s.paths q := fun q hq =>
    Function.update_of_ne hq ..
  have hheld : ∀ q, q ≠ p → (s.lower p).held.count q = s.held.count q := fun q hq =>
    List.count_erase_of_ne hq
  have hpool : ∀ k, s.hash k = some p ↔ (s.paths p).s = k := fun k => by
    rw [h.pooled]
    simp [hlt, hpos]
  rw [Pathpool.pathDecref]
  by_cases hz : ((s.lower p).paths p).refcount = 0
  · -- the last reference: the path is still in the table
    rw [if_pos hz]
    have hcz : (s.lower p).held.count p = 0 := by
      rw [hrefs] at hz
      exact_mod_cast hz
    have hcalls : (s.lower p).calls = s.calls := rfl
    have hhash : (s.lower p).hash = s.hash := rfl
    refine h.at hlt rfl hpaths hheld (fun q hq => ?_) (fun q hq => ?_) (fun k q _ => .rfl) hrefs
      (fun k => ?_) ?_
    · simp [Removing, hl, hq.symm]
    · rw [ending_of_remove rfl, ending_of_unlocked hl, if_neg hq.symm]
      rfl
    · simp [Removing, hhash, hpool, hself]
    · rw [ending_of_unlocked hl] at he
      rw [ending_of_remove rfl, if_pos rfl, if_pos hcz, hself, hcalls, ← add_assoc]
      exact congrArg (· + 1) he
  · rw [if_neg hz]
    have hcz : 0 < (s.lower p).held.count p := by
      rw [hrefs] at hz
      omega
    refine h.at hlt rfl hpaths hheld (fun q _ => .rfl) (fun q _ => rfl) (fun k q _ => .rfl) hrefs
      (fun k => ?_) ?_
    · have hhash : (s.lower p).hash = s.hash := rfl
      rw [hhash, hpool, hself]
      simp [hcz]
    · rw [if_neg hcz.ne', hself]
      exact he

/-- A path is taken out of the table, and is with the thread that will free it. -/
theorem Counted.remove (h : s.Counted) (hs : ∀ p < s.next, 0 ∉ (s.paths p).s)
    (hl : s.lock = some (t, .remove p)) :
    Counted { s with
      hash := Function.update s.hash (cstr (s.paths p).s) none
      lock := none
      calls := (t, .free p) :: s.calls } := by
  -- from the table to the list of what is to be freed: it ends once, before and after
  obtain ⟨hlt, hc, hf, he⟩ := h.of_ending (ending_pos_of_removing ⟨t, hl⟩)
  rw [cstr_of_not_mem (hs p hlt)]
  set s' : Pathpool := { s with
    hash := Function.update s.hash (s.paths p).s none
    lock := none
    calls := (t, .free p) :: s.calls } with hs'
  have hhash : s'.hash = Function.update s.hash (s.paths p).s none := rfl
  have hcalls : s'.calls = (t, .free p) :: s.calls := rfl
  have hother : ∀ q, q ≠ p → ¬ s.Removing q := fun q hq => by simp [Removing, hl, hq.symm]
  refine h.at hlt rfl (fun _ _ => rfl) (fun _ _ => rfl) (fun q hq => ?_) (fun q hq => ?_)
    (fun k q hq => ?_) (h.refs p) (fun k => ?_) ?_
  · exact iff_of_false (not_removing (by simp)) (hother q hq)
  · rw [ending_of_unlocked rfl, ending_of_remove hl, if_neg hq.symm, hcalls]
    simp [hq.symm]
  · rcases eq_or_ne k (s.paths p).s with rfl | hk
    · -- under its string there is no other path
      have hp := (h.pooled (s.paths p).s p).mpr ⟨hlt, rfl, .inr ⟨t, hl⟩⟩
      rw [hhash, Function.update_self, hp]
      exact iff_of_false (by simp) fun hpq => hq (Option.some.inj hpq).symm
    · rw [hhash, Function.update_of_ne hk]
  · have hc' : s'.held.count p = 0 := hc
    rw [hc', hhash]
    refine iff_of_false (fun hk => ?_) ?_
    · rcases eq_or_ne k (s.paths p).s with rfl | hks
      · rw [Function.update_self] at hk
        cases hk
      · rw [Function.update_of_ne hks, h.pooled] at hk
        exact hks hk.2.1.symm
    · rintro ⟨-, hcp | hr⟩
      · exact absurd hcp (lt_irrefl 0)
      · exact not_removing (by simp) hr
  · rw [ending_of_remove hl, if_pos rfl] at he
    have hf' : (s'.paths p).freed = 0 := hf
    rw [ending_of_unlocked rfl, if_pos hc, hf', hcalls, List.countP_cons]
    simpa using he

theorem Counted.free (h : s.Counted) (hp : (t, .free p) ∈ s.calls) :
    Counted { s.modify p fun f => { f with freed := f.freed + 1 } with
      calls := s.calls.erase (t, .free p) } := by
  have hmem : 0 < s.calls.countP (·.2 = .free p) := List.countP_pos_iff.mpr ⟨_, hp, by simp⟩
  obtain ⟨hlt, hc, hf, he⟩ := h.of_ending (p := p) (by rw [ending]; omega)
  set s' : Pathpool := { s.modify p fun f => { f with freed := f.freed + 1 } with
    calls := s.calls.erase (t, .free p) } with hs'
  have hself : s'.paths p = { s.paths p with freed := (s.paths p).freed + 1 } :=
    Function.update_self ..
  have hcount : ∀ q, s'.calls.countP (·.2 = .free q) =
      s.calls.countP (·.2 = .free q) - if p = q then 1 else 0 := fun q => by
    have := List.countP_erase (fun x : ℕ × Pcall => decide (x.2 = .free q)) s.calls (t, .free p)
    simpa [hp, hs'] using this
  have hending : ∀ q, s'.ending q = s.ending q - if p = q then 1 else 0 := fun q => by
    have hle : (if p = q then 1 else 0) ≤ s.calls.countP (·.2 = .free q) := by
      split
      · rename_i hpq
        exact hpq ▸ hmem
      · exact Nat.zero_le _
    rw [ending, ending, hcount]
    exact (Nat.sub_add_comm hle).symm
  refine h.at hlt rfl (fun q hq => Function.update_of_ne hq ..) (fun _ _ => rfl) (fun _ _ => .rfl)
    (fun q hq => by rw [hending, if_neg hq.symm, Nat.sub_zero]) (fun _ _ _ => .rfl) ?_
    (fun k => ?_) ?_
  · rw [hself]
    exact h.refs p
  · have hk : s'.hash k = some p ↔ _ := h.pooled k p
    rw [hk, hself]
    exact and_iff_right hlt
  · have hc' : s'.held.count p = 0 := hc
    rw [hending, he, if_pos rfl, if_pos hc', hself, hf]

theorem paths_insert_next (s : Pathpool) (w : Wanted) (k : Bytes) :
    (s.insert w k).paths s.next = { s := k, refcount := 1 } :=
  Function.update_self ..

/-- A new path. -/
theorem Counted.insert (h : s.Counted) (hk : 0 ∉ k) (hn : s.hash (cstr k) = none) (w : Wanted) :
    (s.insert w k).Counted := by
  rw [cstr_of_not_mem hk] at hn
  have hself := s.paths_insert_next w k
  have hpaths : ∀ q, q ≠ s.next → (s.insert w k).paths q = s.paths q := fun q hq =>
    Function.update_of_ne hq ..
  have hc : (s.insert w k).held.count s.next = 1 := by
    rw [Pathpool.insert, List.count_cons_self, (h.fresh s.next le_rfl).1]
  have hheld : ∀ q, q ≠ s.next → (s.insert w k).held.count q = s.held.count q := fun q hq =>
    List.count_cons_of_ne hq.symm
  have hhash : (s.insert w k).hash = Function.update s.hash k (some s.next) := by
    rw [Pathpool.insert, cstr_of_not_mem hk]
  refine ⟨fun q => ?_, fun j q => ?_, fun q hq => ?_, fun q hq => ?_⟩
  · rcases eq_or_ne q s.next with rfl | hq
    · rw [hself, hc]
      rfl
    · rw [hpaths q hq, hheld q hq, h.refs]
  · rw [hhash]
    rcases eq_or_ne q s.next with rfl | hq
    · -- only its own string leads to the new path
      rw [hself, hc]
      rcases eq_or_ne j k with rfl | hj
      · rw [Function.update_self]
        exact iff_of_true rfl ⟨Nat.lt_succ_self _, rfl, .inl Nat.one_pos⟩
      · rw [Function.update_of_ne hj]
        refine iff_of_false (fun hjn => ?_) fun hjk => hj hjk.2.1.symm
        exact absurd ((h.pooled j _).mp hjn).1 (lt_irrefl _)
    · have hlt : q < s.next + 1 ↔ q < s.next := by omega
      rw [hpaths q hq, hheld q hq, Pathpool.insert, hlt]
      refine Iff.trans ?_ (h.pooled j q)
      rcases eq_or_ne j k with rfl | hj
      · -- no other path had this string
        rw [Function.update_self, hn]
        exact iff_of_false (fun hq' => hq (Option.some.inj hq').symm) (by simp)
      · rw [Function.update_of_ne hj]
  · have hend : (s.insert w k).ending q = s.ending q := rfl
    rw [hend]
    rcases eq_or_ne q s.next with rfl | hq'
    · rw [hself, hc, (h.fresh s.next le_rfl).2, if_neg one_ne_zero]
    · rw [hpaths q hq', hheld q hq']
      have hq : q < s.next + 1 := hq
      exact h.ends q (by omega)
  · have hq : s.next + 1 ≤ q := hq
    rw [hheld q (by omega)]
    exact h.fresh q (by omega)

/-! ### Steps and answers -/

theorem string_update {f : ℕ → Ppath} {x : Ppath} (hx : x.s = (f p).s) (q : ℕ) :
    (Function.update f p x q).s = (f q).s := by
  rcases eq_or_ne q p with rfl | hq
  · rw [Function.update_self, hx]
  · rw [Function.update_of_ne hq]

/-- Strings do not change. -/
theorem wanted_congr (hs : ∀ p < s.next, (s'.paths p).s = (s.paths p).s) (hw : s.Known w) :
    s'.wanted w = s.wanted w := by
  rcases w with ns | ⟨o, ns⟩
  · rfl
  · rw [wanted, hs o hw, wanted]

theorem Known.mono (hw : s.Known w) (hn : s.next ≤ s'.next) : s'.Known w := by
  rcases w with ns | ⟨o, ns⟩
  · trivial
  · exact lt_of_lt_of_le hw hn

theorem Answers.mono (h : s.Answers) (hn : s.next ≤ s'.next)
    (hs : ∀ p < s.next, (s'.paths p).s = (s.paths p).s)
    (hnew : ∀ p < s'.next, s.next ≤ p → 0 ∉ (s'.paths p).s)
    (hcalls : ∀ t w k, (t, .alloc w k) ∈ s'.calls →
      (t, .alloc w k) ∈ s.calls ∨ s.Known w ∧ k = s.wanted w ∧ 0 ∉ k)
    (hfound : ∀ t w p, s'.lock = some (t, .found w p) →
      s.Known w ∧ s'.hash (s.wanted w) = some p)
    (hret : ∀ w p, (w, p) ∈ s'.returned → (w, p) ∈ s.returned ∨
      s.Known w ∧ p < s'.next ∧ (s'.paths p).s = s.wanted w) : s'.Answers where
  strings p hp := by
    rcases lt_or_ge p s.next with hlt | hge
    · rw [hs p hlt]
      exact h.strings p hlt
    · exact hnew p hp hge
  alloc t w k hm := by
    obtain ⟨hw, hk⟩ := (hcalls t w k hm).elim (h.alloc t w k) id
    exact ⟨hw.mono hn, by rwa [wanted_congr hs hw]⟩
  found t w p hl := by
    obtain ⟨hw, hp⟩ := hfound t w p hl
    exact ⟨hw.mono hn, by rwa [wanted_congr hs hw]⟩
  returned w p hm := by
    rcases hret w p hm with hr | ⟨hw, hp⟩
    · obtain ⟨hw, hp, hps⟩ := h.returned w p hr
      exact ⟨hw.mono hn, lt_of_lt_of_le hp hn, by rw [hs p hp, hps, wanted_congr hs hw]⟩
    · exact ⟨hw.mono hn, by rwa [wanted_congr hs hw]⟩

/-- **What is so at any time.** -/
structure Sound (s : Pathpool) : Prop where
  counted : s.Counted
  answers : s.Answers

theorem sound_empty : Sound {} where
  counted := ⟨fun _ => rfl, fun _ _ => by simp [Removing], fun p hp => absurd hp (by simp),
    fun _ _ => ⟨rfl, rfl⟩⟩
  answers := ⟨fun p hp => absurd hp (by simp), by simp, by simp, by simp⟩

theorem Sound.ask (h : s.Sound) (hw : s.Has w) (hn : 0 ∉ w.ns) :
    Sound { s with calls := (t, .alloc w (s.wanted w)) :: s.calls } := by
  have hk : s.Known w ∧ 0 ∉ s.wanted w := by
    rcases w with ns | ⟨o, ns⟩
    · exact ⟨trivial, hn⟩
    · -- a path and a name without NUL make a string without NUL
      have ho := h.counted.lt_of_mem hw
      refine ⟨ho, ?_⟩
      have hn : 0 ∉ ns := hn
      simp [wanted, h.answers.strings o ho, hn]
  refine ⟨h.counted.congr rfl rfl rfl rfl (fun _ => .rfl) fun p => ?_,
    h.answers.mono le_rfl (fun _ _ => rfl) (fun p hp hge => absurd hge (Nat.not_le_of_lt hp)) ?_
      h.answers.found fun _ _ => .inl⟩
  · simp [ending]
  · intro u v k hm
    rcases List.mem_cons.mp hm with he | hm
    · simp only [Prod.mk.injEq, Pcall.alloc.injEq] at he
      obtain ⟨-, rfl, rfl⟩ := he
      exact .inr ⟨hk.1, rfl, hk.2⟩
    · exact .inl hm

theorem Sound.pathAlloc (h : s.Sound) (hl : s.lock = none) (hm : (t, .alloc w k) ∈ s.calls) :
    (s.pathAlloc t w k).Sound := by
  obtain ⟨hw, rfl, hk⟩ := h.answers.alloc t w k hm
  -- strings do not change, so what was wanted then is what is wanted now
  set s₁ : Pathpool := { s with calls := s.calls.erase (t, .alloc w (s.wanted w)) } with hs₁
  have hend : ∀ p, s₁.ending p = s.ending p := fun p => by
    have := List.countP_erase (fun x : ℕ × Pcall => decide (x.2 = .free p)) s.calls
      (t, .alloc w (s.wanted w))
    simpa [ending, hs₁] using this
  have hc₁ : s₁.Counted := h.counted.congr rfl rfl rfl rfl (fun _ => .rfl) hend
  have hcalls : ∀ u v j, (u, .alloc v j) ∈ s₁.calls → (u, .alloc v j) ∈ s.calls :=
    fun _ _ _ => List.mem_of_mem_erase
  have hc : cstr (s.wanted w) = s.wanted w := cstr_of_not_mem hk
  rw [Pathpool.pathAlloc]
  dsimp only
  split
  · rename_i p hf
    rw [hc] at hf
    refine ⟨hc₁.congr rfl rfl rfl rfl (fun q => ?_) fun q => ?_, h.answers.mono le_rfl
      (fun _ _ => rfl) (fun p hp hge => absurd hge (Nat.not_le_of_lt hp))
      (fun u v j hj => .inl (hcalls u v j hj)) (fun u v q hq => ?_) fun _ _ => .inl⟩
    · simp [Removing, hs₁, hl]
    · simp [ending, hs₁, hl]
    · simp only [Option.some.injEq, Prod.mk.injEq, Psect.found.injEq] at hq
      obtain ⟨-, rfl, rfl⟩ := hq
      exact ⟨hw, hf⟩
  · rename_i hf
    have hself : ((s₁.insert w (s.wanted w)).paths s.next).s = s.wanted w := by
      rw [s₁.paths_insert_next]
    refine ⟨hc₁.insert hk hf w, h.answers.mono (Nat.le_succ _) (fun p hp => ?_)
      (fun p hp hge => ?_) (fun u v j hj => .inl (hcalls u v j hj)) (fun u v p hp => ?_)
      fun v p hp => ?_⟩
    · exact congrArg Ppath.s (Function.update_of_ne hp.ne _ _)
    · have hp : p < s.next + 1 := hp
      obtain rfl : p = s.next := by omega
      rwa [hself]
    · have hp : s.lock = some (u, .found v p) := hp
      rw [hl] at hp
      cases hp
    · rcases List.mem_cons.mp hp with he | hp
      · obtain ⟨rfl, rfl⟩ := Prod.mk.inj he
        exact .inr ⟨hw, Nat.lt_succ_self _, hself⟩
      · exact .inl hp

theorem Sound.found (h : s.Sound) (hl : s.lock = some (t, .found w p)) :
    Sound { s.pathIncref p with lock := none, returned := (w, p) :: s.returned } := by
  obtain ⟨hw, hp⟩ := h.answers.found t w p hl
  have hnot : ∀ q, ¬ s.Removing q := fun q => not_removing (by simp [hl])
  -- the lock was held since it was found, so it still has a reference
  obtain ⟨hlt, hs, hpos⟩ := (h.counted.pooled _ p).mp hp
  have hc := h.counted.pathIncref hlt (hpos.resolve_right (hnot p))
  have hstr : ∀ q, ((s.pathIncref p).paths q).s = (s.paths q).s := fun q => string_update (by rfl) q
  refine ⟨hc.congr rfl rfl rfl rfl (fun q => ?_) fun q => ?_, h.answers.mono le_rfl
    (fun q _ => hstr q) (fun q hq hge => absurd hge (Nat.not_le_of_lt hq)) (fun _ _ _ => .inl)
    (by simp) fun v q hq => ?_⟩
  · exact iff_of_false (not_removing (by simp)) (hnot q)
  · have hl' : (s.pathIncref p).lock = some (t, .found w p) := hl
    simp [ending, hl']
  · rcases List.mem_cons.mp hq with he | hq
    · obtain ⟨rfl, rfl⟩ := Prod.mk.inj he
      exact .inr ⟨hw, hlt, (hstr q).trans hs⟩
    · exact .inl hq

theorem Sound.pathIncref (h : s.Sound) (hp : p ∈ s.held) : (s.pathIncref p).Sound := by
  refine ⟨h.counted.pathIncref (h.counted.lt_of_mem hp) (List.count_pos_iff.mpr hp),
    h.answers.mono le_rfl (fun q _ => ?_) (fun q hq hge => absurd hge (Nat.not_le_of_lt hq))
    (fun _ _ _ => .inl) h.answers.found fun _ _ => .inl⟩
  exact string_update (by rfl) q

theorem Sound.pathDecref (h : s.Sound) (hl : s.lock = none) (hp : p ∈ s.held) :
    (s.pathDecref t p).Sound := by
  have hstr : ∀ q, ((s.lower p).paths q).s = (s.paths q).s := fun q => string_update (by rfl) q
  have hlow : ∀ u v q, (s.lower p).lock ≠ some (u, .found v q) := by
    have hl' : (s.lower p).lock = none := hl
    simp [hl']
  have hold : ∀ q < (s.lower p).next, s.next ≤ q → 0 ∉ ((s.lower p).paths q).s :=
    fun q hq hge => absurd hge (Nat.not_le_of_lt hq)
  refine ⟨h.counted.pathDecref hl hp t, ?_⟩
  rw [Pathpool.pathDecref]
  split
  · exact h.answers.mono le_rfl (fun q _ => hstr q) hold (fun _ _ _ => .inl) (by simp)
      fun _ _ => .inl
  · exact h.answers.mono le_rfl (fun q _ => hstr q) hold (fun _ _ _ => .inl)
      (fun u v q hq => absurd hq (hlow u v q)) fun _ _ => .inl

theorem Sound.remove (h : s.Sound) (hl : s.lock = some (t, .remove p)) :
    Sound { s with
      hash := Function.update s.hash (cstr (s.paths p).s) none
      lock := none
      calls := (t, .free p) :: s.calls } := by
  refine ⟨h.counted.remove h.answers.strings hl, h.answers.mono le_rfl (fun _ _ => rfl)
    (fun q hq hge => absurd hge (Nat.not_le_of_lt hq)) (fun u v k hk => .inl ?_) (by simp)
    fun _ _ => .inl⟩
  simpa using hk

theorem Sound.free (h : s.Sound) (hp : (t, .free p) ∈ s.calls) :
    Sound { s.modify p fun f => { f with freed := f.freed + 1 } with
      calls := s.calls.erase (t, .free p) } := by
  refine ⟨h.counted.free hp, h.answers.mono le_rfl (fun q _ => ?_)
    (fun q hq hge => absurd hge (Nat.not_le_of_lt hq))
    (fun _ _ _ hk => .inl (List.mem_of_mem_erase hk)) h.answers.found fun _ _ => .inl⟩
  exact string_update (by rfl) q

variable {a : ℕ × Pstep}

theorem Sound.step (h : s.Sound) (hn : s.NulFree a) (hs : s.step a = some s') : s'.Sound := by
  obtain ⟨t, a⟩ := a
  rcases a with w | ⟨w, k⟩ | ⟨w, p⟩ | p | p | p | p
  · obtain ⟨⟨-, hw⟩, rfl⟩ := of_guard hs
    exact h.ask hw hn
  · obtain ⟨⟨hl, hm⟩, rfl⟩ := of_guard hs
    exact h.pathAlloc hl hm
  · obtain ⟨hl, rfl⟩ := of_guard hs
    exact h.found hl
  · obtain ⟨⟨-, hp⟩, rfl⟩ := of_guard hs
    exact h.pathIncref hp
  · obtain ⟨⟨-, hl, hp⟩, rfl⟩ := of_guard hs
    exact h.pathDecref hl hp
  · obtain ⟨hl, rfl⟩ := of_guard hs
    exact h.remove hl
  · obtain ⟨hp, rfl⟩ := of_guard hs
    exact h.free hp

theorem sound_of_reaches (h : Reaches step NulFree {} s) : s.Sound :=
  h.invariant sound_empty fun _ _ _ hi hn hs => hi.step hn hs

/-! ### What is so after any run -/

/-- The path is in the pool. -/
def Pooled (s : Pathpool) (p : ℕ) : Prop := ∃ k, s.hash k = some p

theorem Sound.hash_of_pooled (h : s.Sound) (hp : s.Pooled p) : s.hash (s.paths p).s = some p := by
  obtain ⟨k, hk⟩ := hp
  rwa [((h.counted.pooled k p).mp hk).2.1]

theorem Sound.unique (h : s.Sound) (hp : s.Pooled p) (hq : s.Pooled q)
    (hs : (s.paths p).s = (s.paths q).s) : p = q := by
  have hp := h.hash_of_pooled hp
  rw [hs, h.hash_of_pooled hq] at hp
  exact (Option.some.inj hp).symm

theorem Sound.pooled_of_held (h : s.Sound) (hp : p ∈ s.held) : s.Pooled p :=
  ⟨_, (h.counted.pooled _ p).mpr
    ⟨h.counted.lt_of_mem hp, rfl, .inl (List.count_pos_iff.mpr hp)⟩⟩

/-- What a call returns is a reference. -/
theorem held_of_returned (hs : s.step a = some s')
    (hr : s'.returned = (w, p) :: s.returned) : p ∈ s'.held := by
  have hne : s.returned ≠ (w, p) :: s.returned := fun he => by
    simpa using congrArg List.length he
  obtain ⟨t, a⟩ := a
  rcases a with v | ⟨v, k⟩ | ⟨v, q⟩ | q | q | q | q
  · obtain ⟨-, rfl⟩ := of_guard hs
    exact absurd hr hne
  · obtain ⟨-, rfl⟩ := of_guard hs
    rw [pathAlloc] at hr ⊢
    dsimp only at hr ⊢
    split at hr
    · exact absurd hr hne
    · -- only a new path is returned at once
      obtain ⟨he, -⟩ := List.cons.inj hr
      obtain ⟨-, rfl⟩ := Prod.mk.inj he
      exact List.mem_cons_self
  · obtain ⟨-, rfl⟩ := of_guard hs
    obtain ⟨he, -⟩ := List.cons.inj hr
    obtain ⟨-, rfl⟩ := Prod.mk.inj he
    exact List.mem_cons_self
  · obtain ⟨-, rfl⟩ := of_guard hs
    exact absurd hr hne
  · obtain ⟨-, rfl⟩ := of_guard hs
    rw [pathDecref] at hr
    split at hr <;> exact absurd hr hne
  · obtain ⟨-, rfl⟩ := of_guard hs
    exact absurd hr hne
  · obtain ⟨-, rfl⟩ := of_guard hs
    exact absurd hr hne

end Pathpool

/-- **The pool of paths is sound**, whatever several threads do at the same time with names
that have no NUL in them. No two paths in it have the same string. The count of a path in it
is the number of references, and is not zero, but for the one that the owner of `pp->lock`
has dropped the last reference to and is about to take out. A path is freed once, by the
one who drops the last reference, and not before. What `path_create` and `path_append` return
is the one path in the pool with the string that was wanted. -/
theorem path_pool_sound {s : Pathpool} (h : Reaches Pathpool.step Pathpool.NulFree {} s) :
    (∀ p q, s.Pooled p → s.Pooled q → (s.paths p).s = (s.paths q).s → p = q) ∧
    (∀ p, s.Pooled p → (s.paths p).refcount = s.held.count p ∧
      (1 ≤ (s.paths p).refcount ∨ s.Removing p) ∧ (s.paths p).freed = 0) ∧
    (∀ p < s.next, (s.paths p).freed + s.ending p = if s.held.count p = 0 then 1 else 0) ∧
    ∀ a s' w p, s.NulFree a → s.step a = some s' → s'.returned = (w, p) :: s.returned →
      p ∈ s'.held ∧ s'.Pooled p ∧ (s'.paths p).s = s'.wanted w ∧
      ∀ q, s'.Pooled q → (s'.paths q).s = s'.wanted w → q = p := by
  have hi := Pathpool.sound_of_reaches h
  refine ⟨fun p q => hi.unique, fun p hp => ?_, hi.counted.ends, fun a s' w p ha hs hr => ?_⟩
  · have hr := hi.counted.refs p
    obtain ⟨hlt, -, hpos⟩ := (hi.counted.pooled _ p).mp (hi.hash_of_pooled hp)
    have he := hi.counted.ends p hlt
    refine ⟨hr, hpos.imp_left fun hc => by omega, ?_⟩
    rcases hpos with hc | hrem
    · rw [if_neg hc.ne'] at he
      omega
    · exact (hi.counted.of_ending (Pathpool.ending_pos_of_removing hrem)).2.2.1
  · have hi' := hi.step ha hs
    have hp := Pathpool.held_of_returned hs hr
    obtain ⟨-, -, hw⟩ := hi'.answers.returned w p (hr ▸ List.mem_cons_self)
    have hpool := hi'.pooled_of_held hp
    exact ⟨hp, hpool, hw, fun q hq hqs => hi'.unique hq hpool (hqs.trans hw.symm)⟩

/-- Two threads ask for one path. The second finds it while the first raises its count, and
it is freed when both have dropped what they have. -/
theorem path_pool_sound_shared : ∃ s : Pathpool,
    Reaches Pathpool.step Pathpool.NulFree {} s ∧ s.next = 2 ∧ (s.paths 1).s = [97, 47, 98] ∧
    (s.paths 1).freed = 1 ∧ (s.paths 0).freed = 0 := by
  have hrun : (runSteps Pathpool.step {} [(0, .ask (.create [97])), (0, .alloc (.create [97]) [97]),
      (0, .ask (.append 0 [98])), (1, .ask (.append 0 [98])),
      (0, .alloc (.append 0 [98]) [97, 47, 98]), (1, .alloc (.append 0 [98]) [97, 47, 98]),
      (0, .incref 1), (1, .found (.append 0 [98]) 1), (0, .decref 1), (1, .decref 1),
      (0, .decref 1), (0, .remove 1), (0, .free 1)]).map
        (fun s => (s.next, (s.paths 1).s, s.held, s.calls.length, s.lock.isNone)) =
      some (2, [97, 47, 98], [0], 0, true) := by decide +kernel
  obtain ⟨s, hs, he⟩ := Option.map_eq_some_iff.mp hrun
  simp only [Prod.mk.injEq] at he
  obtain ⟨hn, hstr, hh, hc, hl⟩ := he
  have hr : Reaches Pathpool.step Pathpool.NulFree {} s :=
    reaches_of_forall (by simp [Pathpool.NulFree, Wanted.ns]) hs
  have hends := (path_pool_sound hr).2.2.1
  have h1 := hends 1 (by omega)
  have h0 := hends 0 (by omega)
  rw [Pathpool.ending, hh, List.length_eq_zero_iff.mp hc, Option.isNone_iff_eq_none.mp hl] at h0 h1
  exact ⟨s, hr, hn, hstr, by simpa using h1, by simpa using h0⟩

/-! ### Going through with calls -/

namespace Pathpool

/-- A step that goes on with a call. -/
def GoesOn (_ : Pathpool) : ℕ × Pstep → Prop
  | (_, .ask _) | (_, .incref _) | (_, .decref _) => False
  | _ => True

/-- How much is left to do for the calls under way. -/
def left (s : Pathpool) : ℕ :=
  2 * s.calls.length + match s.lock with
    | none => 0
    | some (_, .found ..) => 1
    | some (_, .remove _) => 3

/-- **The calls under way can be gone through with**: who has the lock can go on, and if nobody
has it, all others can. -/
theorem exists_drained (s : Pathpool) :
    ∃ s', Reaches step GoesOn s s' ∧ s'.calls = [] ∧ s'.lock = none := by
  have hgo : ∀ a s₁, GoesOn s a → s.step a = some s₁ → s₁.left < s.left →
      ∃ s', Reaches step GoesOn s s' ∧ s'.calls = [] ∧ s'.lock = none := fun a s₁ ha hs hlt => by
    obtain ⟨s', hr, h⟩ := exists_drained s₁
    exact ⟨s', hr.head ha hs, h⟩
  rcases hl : s.lock with _ | ⟨t, ⟨w, p⟩ | p⟩
  · rcases hc : s.calls with _ | ⟨⟨t, ⟨w, k⟩ | p⟩, l⟩
    · exact ⟨s, .refl, hc, hl⟩
    · refine hgo (t, .alloc w k) _ trivial (if_pos ⟨hl, by simp [hc]⟩) ?_
      rcases hk : s.hash (cstr k) with _ | q
      · simp [left, pathAlloc, insert, hl, hc, hk]
      · simp [left, pathAlloc, hl, hc, hk]
        omega
    · exact hgo (t, .free p) _ trivial (if_pos (by simp [hc])) (by simp [left, modify, hl, hc])
  · exact hgo (t, .found w p) _ trivial (if_pos hl) (by simp [left, hl, pathIncref, modify])
  · refine hgo (t, .remove p) _ trivial (if_pos hl) ?_
    simp only [left, hl, List.length_cons]
    omega
termination_by s.left

end Pathpool

/-- **No call is stuck, and no path is lost.** In any state that can be reached, whoever has the
lock and whoever waits for it, the calls under way can be gone through with. The paths in the pool
are then those with references, and all others have been freed, once. -/
theorem path_pool_drains {s : Pathpool} (h : Reaches Pathpool.step Pathpool.NulFree {} s) :
    ∃ s', Reaches Pathpool.step Pathpool.GoesOn s s' ∧ s'.calls = [] ∧ s'.lock = none ∧
      ∀ p < s'.next, (s'.Pooled p ↔ p ∈ s'.held) ∧
        (s'.paths p).freed = if p ∈ s'.held then 0 else 1 := by
  obtain ⟨s', hr, hc, hl⟩ := s.exists_drained
  have hi : s'.Sound := hr.invariant (Pathpool.sound_of_reaches h) fun _ _ a hi ha hs =>
    hi.step (by rcases a with ⟨_, _ | _ | _ | _ | _ | _ | _⟩ <;> trivial) hs
  refine ⟨s', hr, hc, hl, fun p hp => ⟨⟨fun hpool => ?_, hi.pooled_of_held⟩, ?_⟩⟩
  · obtain ⟨-, -, hpos⟩ := (hi.counted.pooled _ p).mp (hi.hash_of_pooled hpool)
    exact List.count_pos_iff.mp (hpos.resolve_right (Pathpool.not_removing (by simp [hl])))
  · have he := hi.counted.ends p hp
    rw [Pathpool.ending, hc, hl] at he
    simpa [List.count_eq_zero] using he

/-- A thread is about to take a path out of the pool, and another one waits for the lock. -/
theorem path_pool_drains_waiting : ∃ s s' : Pathpool, s.calls.length = 1 ∧ s.lock.isSome = true ∧
    Reaches Pathpool.step Pathpool.GoesOn s s' ∧ s'.calls = [] ∧ s'.lock = none := by
  have hs : (runSteps Pathpool.step {} [(0, .ask (.create [97])), (0, .alloc (.create [97]) [97]),
      (1, .ask (.create [97])), (0, .decref 0)]).map (fun s => (s.calls.length, s.lock.isSome)) =
      some (1, true) := by decide +kernel
  obtain ⟨s, hs, he⟩ := Option.map_eq_some_iff.mp hs
  obtain ⟨hn, hk⟩ := Prod.mk.inj he
  obtain ⟨s', h, hc, hl, -⟩ := path_pool_drains
    (reaches_of_forall (by simp [Pathpool.NulFree, Wanted.ns]) hs)
  exact ⟨s, s', hn, hk, h, hc, hl⟩

end Diod
