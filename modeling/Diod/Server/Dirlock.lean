import Mathlib.Data.Nat.Notation
import Mathlib.Logic.Function.Basic
import Diod.Lib.Runs

/-!
# The lock of an open file

Threads that share an `IOCtx` change its reference count under `ioctx->lock`, and
`ioctx_readdir` takes the same lock where directory entries have no `d_off`, so that what
`telldir` returns belongs to the entry that was read.

But it gives the lock up once more than it took it, if there is an entry. As long as no call of
`ioctx_readdir` returns one, the lock does what it is for (`Diod.Dirlock.lock_kept`). With an
entry a thread gives up a lock that another one holds, in both variants of the code
(`Diod.Dirlock.lock_lost`).
-/

namespace Diod

/-- What a thread does with the lock. -/
inductive Act where
  | lock | unlock
  /-- Something else: the count, or the directory. -/
  | work
deriving DecidableEq

/-- The operations on an `IOCtx` that use its lock. -/
inductive Ioop where
  /-- `_ioctx_incref` -/
  | incref
  /-- `_ioctx_decref` -/
  | decref
  /-- What `_count_ioctx` does with it. -/
  | count
  /-- `ioctx_readdir`, for a directory or not, that has an entry to return or not. -/
  | readdir (dir entry : Bool)
deriving DecidableEq

/-- The code of an operation, with or without `_DIRENT_HAVE_D_OFF`. -/
def Ioop.code (dOff : Bool) : Ioop → List Act
  | .incref | .decref | .count => [.lock, .work, .unlock]
  | .readdir false _ => []
  | .readdir true entry =>
    (if dOff then [] else [.lock]) ++ [.work] ++ (if entry then [.work, .unlock] else []) ++
      -- `done:`
      (if dOff then [] else [.unlock])

/-- The lock, and what each thread has still to do. -/
structure Dirlock where
  owner : Option ℕ := none
  todo : ℕ → List Act := fun _ => []
  /-- The thread has locked, and has not unlocked since. -/
  inside : ℕ → Bool := fun _ => false
  /-- A thread that did not hold the lock has unlocked it. -/
  stray : Bool := false

namespace Dirlock

/-- The steps: a thread calls an operation, or goes on with one. -/
inductive Step where
  | call (t : ℕ) (op : Ioop)
  | go (t : ℕ)
deriving DecidableEq

open Function (update)

/-- **A step**, if the thread can take it. -/
def step (dOff : Bool) (s : Dirlock) : Step → Option Dirlock
  | .call t op =>
    if s.todo t = [] then some { s with todo := update s.todo t (op.code dOff) } else none
  | .go t =>
    match s.todo t with
    | [] => none
    | .lock :: l =>
      if s.owner = none then some { s with
        owner := some t, todo := update s.todo t l, inside := update s.inside t true }
      else none
    | .work :: l => some { s with todo := update s.todo t l }
    | .unlock :: l => some {
        owner := none, todo := update s.todo t l, inside := update s.inside t false
        stray := s.stray || s.owner ≠ some t }

/-- **The lock does what it is for**: it is unlocked by who holds it and free in the end, and
only one thread is inside. -/
structure Safe (s : Dirlock) : Prop where
  unlocked : s.stray = false
  free : (∀ t, s.todo t = []) → s.owner = none
  alone : ∀ t u, s.inside t = true → s.inside u = true → t = u

/-- Code that locks and unlocks in turn, and ends outside. -/
def Paired : Bool → List Act → Prop
  | b, [] => b = false
  | b, .work :: l => Paired b l
  | b, .lock :: l => b = false ∧ Paired true l
  | b, .unlock :: l => b = true ∧ Paired false l

/-- **All operations do**, but for a call that returns an entry. -/
theorem paired_code {op : Ioop} (h : op ≠ .readdir true true) (dOff : Bool) :
    Paired false (op.code dOff) := by
  rcases op with _ | _ | _ | ⟨_ | _, _ | _⟩
  all_goals rcases dOff with _ | _
  all_goals first | exact absurd rfl h | simp [Ioop.code, Paired]

/-- The threads are inside just if they hold the lock, and will leave it in turn. -/
structure Locked (s : Dirlock) : Prop where
  paired : ∀ t, Paired (s.inside t) (s.todo t)
  owner : ∀ t, s.inside t = true ↔ s.owner = some t
  unlocked : s.stray = false

theorem Locked.safe {s : Dirlock} (h : Locked s) : Safe s := by
  refine ⟨h.unlocked, fun hret => ?_, fun t u ht hu => ?_⟩
  · rcases ho : s.owner with _ | t
    · rfl
    · have hp := h.paired t
      rw [hret t, (h.owner t).mpr ho] at hp
      cases hp
  · exact Option.some.inj (((h.owner t).mp ht).symm.trans ((h.owner u).mp hu))

/-- What one thread may change. -/
theorem Locked.update {s s' : Dirlock} (h : Locked s) {t : ℕ} {b : Bool} {l : List Act}
    (htodo : s'.todo = update s.todo t l) (hin : s'.inside = update s.inside t b)
    (hp : Paired b l) (ho : ∀ u, s'.inside u = true ↔ s'.owner = some u)
    (hs : s'.stray = false) : Locked s' := by
  refine ⟨fun u => ?_, ho, hs⟩
  rw [htodo, hin]
  rcases eq_or_ne u t with rfl | hu
  · rwa [Function.update_self, Function.update_self]
  · rw [Function.update_of_ne hu, Function.update_of_ne hu]
    exact h.paired u

theorem Locked.step {dOff : Bool} {s s' : Dirlock} {a : Step} (h : Locked s)
    (ha : ∀ t, a ≠ .call t (.readdir true true)) (hs : step dOff s a = some s') : Locked s' := by
  rcases a with ⟨t, op⟩ | t
  · obtain ⟨ht, rfl⟩ := of_guard hs
    have hp := h.paired t
    rw [ht] at hp
    have hne : op ≠ .readdir true true := fun hop => ha t (by rw [hop])
    have hcode := paired_code hne dOff
    exact h.update rfl (Function.update_eq_self t _).symm (hp.symm ▸ hcode) h.owner h.unlocked
  · have hp := h.paired t
    rw [Dirlock.step] at hs
    split at hs
    · cases hs
    · next l htodo =>
      -- the lock is free, so no thread is inside
      obtain ⟨ho, rfl⟩ := of_guard hs
      rw [htodo] at hp
      refine h.update rfl rfl hp.2 (fun u => ?_) h.unlocked
      rcases eq_or_ne u t with rfl | hu
      · simp
      · simp [hu, h.owner, ho, hu.symm]
    · next l htodo =>
      obtain rfl := Option.some.inj hs
      rw [htodo] at hp
      exact h.update rfl (Function.update_eq_self t _).symm hp h.owner h.unlocked
    · next l htodo =>
      -- the thread is inside, so the lock is its own
      obtain rfl := Option.some.inj hs
      rw [htodo] at hp
      have ho := (h.owner t).mp hp.1
      refine h.update rfl rfl hp.2 (fun u => ?_) (by simp [h.unlocked, ho])
      rcases eq_or_ne u t with rfl | hu
      · simp
      · simp [hu, h.owner, ho, hu.symm]

/-- **As long as no call returns an entry**, only the holder unlocks, the lock is free when all
operations have returned, and no two threads are inside. -/
theorem lock_kept {dOff : Bool} {s : Dirlock}
    (h : Reaches (Dirlock.step dOff) (fun _ a => ∀ t, a ≠ .call t (.readdir true true)) {} s) :
    Safe s := by
  have h0 : Locked {} := ⟨fun _ => rfl, fun _ => by simp, rfl⟩
  exact (h.invariant h0 fun _ _ _ hs ha hstep => hs.step ha hstep).safe

theorem lock_kept_end : ∃ s, runSteps (Dirlock.step false) {} [.call 1 .incref, .go 1,
    .call 2 (.readdir true false), .go 1, .go 1, .go 2] = some s ∧ Safe s := by
  have h : ∀ s, runSteps (Dirlock.step false) {} [.call 1 .incref, .go 1,
      .call 2 (.readdir true false), .go 1, .go 1, .go 2] = some s → Safe s := fun s hs =>
    lock_kept (reaches_of_forall (by simp) hs)
  exact ⟨_, rfl, h _ rfl⟩

/-- **A thread gives up a lock that it does not hold**, so that two others are inside: one has
locked to count a reference, and the second one finds the lock free. -/
theorem lock_lost :
    (∃ s, runSteps (Dirlock.step false) {} [.call 2 (.readdir true true), .go 2, .go 2, .go 2,
        .go 2, .call 1 .incref, .go 1, .go 2, .call 3 .incref, .go 3] = some s ∧
      s.stray = true ∧ s.inside 1 = true ∧ s.inside 3 = true) ∧
    ∃ s, runSteps (Dirlock.step true) {} [.call 1 .incref, .go 1, .call 2 (.readdir true true),
        .go 2, .go 2, .go 2, .call 3 .incref, .go 3] = some s ∧
      s.stray = true ∧ s.inside 1 = true ∧ s.inside 3 = true := by
  constructor
  · exact ⟨_, rfl, by decide⟩
  · exact ⟨_, rfl, by decide⟩

end Dirlock

end Diod
