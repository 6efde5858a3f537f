import Diod.Lib.Runs
import Diod.Backend.Ops

/-!
# Locks

A `Tlock` locks the whole file, with `flock` on the descriptor of the fid, and
`ioctx->lock_type` is a note of the lock that the descriptor then has. `ioctx_testlock` goes by
the note: only where it says that there is no lock does it try to take one, and then it
releases what it got.

**A lock is converted in two steps**: `flock` releases the lock that is there, and then takes the
new one. With `LOCK_NB` the second step may fail, and then the descriptor has no lock. The note
is left as it is, and so is the client's idea of what it holds: it is told that the lock is
blocked (`Diod.lock_type_lost`).

This is the one thing that goes wrong with `flock` itself. The note is right at any time, and a
lock that is not granted leaves the old one, if no conversion fails, if what a `Tgetlock` took is
released, and if there is memory for the answer to a lock that was granted. Where one of these
does not hold, the request breaks it (`Diod.lock_type_right_iff`).
-/

namespace Diod

open Prog

variable {σ : Type}

/-! ### What `flock` does -/

/-- A lock is replaced by one of another type. -/
def Converts (old new : ℕ) : Prop := old ≠ LOCK_UN ∧ new ≠ LOCK_UN ∧ old ≠ new

instance (old new : ℕ) : Decidable (Converts old new) := inferInstanceAs (Decidable (_ ∧ _ ∧ _))

/-- The locks that `diod_lock` and `ioctx_testlock` ask for, with their flags. -/
def lockArgs (type : UInt8) : Option (ℕ × ℕ) :=
  if type = Op.Lunlck then some (LOCK_UN, 0)
  -- a lock that is taken is not waited for
  else if type = Op.Lrdlck then some (LOCK_SH, LOCK_NB)
  else if type = Op.Lwrlck then some (LOCK_EX, LOCK_NB)
  else none

/-- **A host with `flock`**, where `held s fd` is the type of the lock that a descriptor has.
When a lock is converted the old one is released first, and a call may fail for any reason. -/
structure Host.Flocks (H : Host σ) (held : σ → ℕ → ℕ) : Prop where
  malloc : ∀ s, held (H.malloc s).2 = held s
  granted : ∀ s fd type t f, lockArgs type = some (t, f) →
    (H.call (.flock fd (t + f)) s).1.err = 0 →
    held (H.call (.flock fd (t + f)) s).2 = Function.update (held s) fd t
  -- a conversion releases before it asks, so what it had is gone when it is refused
  refused : ∀ s fd type t f, lockArgs type = some (t, f) →
    (H.call (.flock fd (t + f)) s).1.err ≠ 0 →
    held (H.call (.flock fd (t + f)) s).2 =
      if Converts (held s fd) t then Function.update (held s) fd LOCK_UN else held s

/-! ### Requests -/

/-- Fids of any connections, with what the server has open. -/
structure Lockers (σ : Type) where
  b : Back σ
  fids : ℕ → DiodFid

/-- A `Tlock` or a `Tgetlock`. -/
inductive Lockreq where
  | lock (type : UInt8) (flags : UInt32)
  | getlock (type : UInt8) (start length : UInt64) (procId : UInt32) (clientId : Bytes)

variable (H : Host σ)

/-- The operation for a request. -/
def Lockreq.op : Lockreq → Prog (Ost σ DiodFid) Msg
  | .lock type flags => Op.diodLock H type flags
  | .getlock type start length procId clientId =>
    Op.diodGetlock H type start length procId clientId

/-- **A `Tlock` goes wrong**: a conversion fails, or there is no memory for the answer to a lock
that was granted. -/
def LockSpoils (s : σ) (x : IOCtx) (t f : ℕ) : Prop :=
  let r := H.call (.flock x.fd (t + f)) s
  if r.1.err = 0 then x.lockType ≠ t ∧ (H.malloc r.2).1 = none else Converts x.lockType t

/-- **A `Tgetlock` goes wrong**: the lock that it took is not released. -/
def GetlockSpoils (s : σ) (x : IOCtx) (t f : ℕ) : Prop :=
  let m := H.malloc s
  let r := H.call (.flock x.fd (t + f)) m.2
  m.1 ≠ none ∧ x.lockType = LOCK_UN ∧ r.1.err = 0 ∧ (H.call (.flock x.fd LOCK_UN) r.2).1.err ≠ 0

namespace Lockers

/-- A request on a fid. -/
def request (s : Lockers σ) (n : ℕ) (q : Lockreq) : Res Msg × Lockers σ :=
  let (r, o) := q.op H ⟨s.b, s.fids n⟩
  (r, ⟨o.toBack, Function.update s.fids n o.f⟩)

/-- Be ready for the next. -/
def step (s : Lockers σ) (a : ℕ × Lockreq) : Option (Lockers σ) :=
  match s.request H a.1 a.2 with
  | (.crash, _) => none
  | (_, s') => some s'

/-- What is open is there, and no two have the same descriptor. -/
structure Ready (s : Lockers σ) : Prop where
  isOpen : ∀ n i, (s.fids n).ioctx = some i → ∃ x, s.b.ioctxs.get i = some x
  own : ∀ i j x y, s.b.ioctxs.get i = some x → s.b.ioctxs.get j = some y → x.fd = y.fd → i = j

/-- **Every note is right**: the lock type is that of the lock that the kernel holds. -/
def Agrees (held : σ → ℕ → ℕ) (s : Lockers σ) : Prop :=
  ∀ i x, s.b.ioctxs.get i = some x → x.lockType = held s.b.host x.fd

/-- The lock of a fid is what it was. -/
def Unmoved (held : σ → ℕ → ℕ) (s s' : Lockers σ) (n : ℕ) : Prop :=
  ∀ i x, (s.fids n).ioctx = some i → s.b.ioctxs.get i = some x →
    held s'.b.host x.fd = held s.b.host x.fd

/-- **A request that the notes survive.** -/
def Spares (s : Lockers σ) (n : ℕ) : Lockreq → Prop
  | .lock type flags => flags &&& ~~~1 = 0 → ∀ i x t f, (s.fids n).ioctx = some i →
      s.b.ioctxs.get i = some x → lockArgs type = some (t, f) → ¬LockSpoils H s.b.host x t f
  | .getlock type _ _ _ _ => type ≠ Op.Lunlck → ∀ i x t f, (s.fids n).ioctx = some i →
      s.b.ioctxs.get i = some x → lockArgs type = some (t, f) → ¬GetlockSpoils H s.b.host x t f

end Lockers

/-! ### What the operations do -/

namespace Op

variable {H} {o : Ost σ DiodFid} {i : ℕ} {x : IOCtx}

/-- What `ioctx_flock` leaves behind. -/
def flocked (H : Host σ) (o : Ost σ DiodFid) (i : ℕ) (x : IOCtx) (t f : ℕ) : Ost σ DiodFid :=
  let r := H.call (.flock x.fd (t + f)) o.host
  { o with
    host := r.2
    log := o.log ++ [(.flock x.fd (t + f), r.1.err)]
    ioctxs := if r.1.err = 0 then o.ioctxs.modify i fun y => { y with lockType := t }
      else o.ioctxs }

theorem ioctxFlock_eq (hx : o.ioctxs.get i = some x) (t f : ℕ) :
    ioctxFlock H i t f o =
      (.ok (H.call (.flock x.fd (t + f)) o.host).1.err, flocked H o i x t f) := by
  rw [ioctxFlock, bind_of_ok (derefIoctx_of_get hx)]
  rcases hr : H.call (.flock x.fd (t + f)) o.host with ⟨r, s⟩
  have hc : syscall H (.flock x.fd (t + f)) o =
      (.ok r, { o with host := s, log := o.log ++ [(.flock x.fd (t + f), r.err)] }) := by
    rw [syscall, hr]
  rw [bind_of_ok hc]
  by_cases he : r.err = 0
  · -- `lock_type` is written only after a call that succeeds
    rw [Prog.when, if_pos he, setIoctx, bind_assoc, bind_of_ok (derefIoctx_of_get (by exact hx)),
      flocked, hr, if_pos he]
    rfl
  · rw [Prog.when, if_neg he, flocked, hr, if_neg he]
    rfl

variable {type : UInt8} {t f : ℕ}

theorem lockOp_eq (h : lockArgs type = some (t, f)) : lockOp H i type = ioctxFlock H i t f := by
  unfold lockArgs at h
  unfold lockOp
  split_ifs at h ⊢ <;> cases h <;> rfl

theorem lockOp_of_none (h : lockArgs type = none) : lockOp H i type = fail EINVAL := by
  unfold lockArgs at h
  unfold lockOp
  split_ifs at h ⊢
  rfl

theorem lockArgs_of_ne (hu : type ≠ Lunlck) (h : lockArgs type = some (t, f)) :
    f = LOCK_NB ∧ (type = Lrdlck ∧ t = LOCK_SH ∨ type = Lwrlck ∧ t = LOCK_EX) := by
  rw [lockArgs, if_neg hu] at h
  split_ifs at h with h₁ h₂ <;> cases h
  · exact ⟨rfl, .inl ⟨h₁, rfl⟩⟩
  · exact ⟨rfl, .inr ⟨h₂, rfl⟩⟩

/-- What a `Tlock` does with a descriptor, if it gets that far. -/
theorem diodLock_flocks {flags : UInt32} (hf : flags &&& ~~~1 = 0)
    (hi : o.f.ioctx = some i) (hx : o.ioctxs.get i = some x) (ht : lockArgs type = some (t, f)) :
    ∃ r o', diodLock H type flags o = (r, o') ∧ r.ending ≠ .crash ∧ o'.f = o.f ∧
      o'.ioctxs = (flocked H o i x t f).ioctxs ∧
      o'.host = (H.malloc (flocked H o i x t f).host).2 ∧
      (r.result = some (.rlock Lsuccess) ↔
        (H.call (.flock x.fd (t + f)) o.host).1.err = 0 ∧
        (H.malloc (flocked H o i x t f).host).1 ≠ none) := by
  -- the descriptor is locked before there is memory for the answer
  have hl := ioctxFlock_eq (H := H) hx t f
  rw [← lockOp_eq ht] at hl
  rw [diodLock, bind_of_ok (failIf_of_not (not_not.mpr hf) _ _), fid_bind, hi]
  dsimp only
  rw [bind_of_ok hl]
  rcases allocOr_cases H ENOMEM (flocked H o i x t f) with ⟨hm, ha⟩ | ⟨hm, ha⟩
  · rw [bind_of_ok ha]
    refine ⟨_, _, rfl, by simp, rfl, rfl, rfl, ?_⟩
    by_cases he : (H.call (.flock x.fd (t + f)) o.host).1.err = 0
    · simp [Res.result, he, hm]
    · rw [if_neg he]
      simp only [he, false_and, iff_false]
      split_ifs <;> simp [Res.result, Lsuccess, Lblocked, Lerror]
  · rw [bind_of_stop ha]
    exact ⟨_, _, rfl, by simp, rfl, rfl, rfl, by simp [Res.result, hm]⟩

/-- A `Tlock` that is refused before that. -/
theorem diodLock_refused (type : UInt8) (flags : UInt32)
    (h : ∀ i t f, flags &&& ~~~1 = 0 → o.f.ioctx = some i → lockArgs type ≠ some (t, f)) :
    ∃ e, diodLock H type flags o = (.stop, { o with ecode := e }) := by
  by_cases hf : flags &&& ~~~1 = 0
  · rw [diodLock, bind_of_ok (failIf_of_not (not_not.mpr hf) _ _), fid_bind]
    rcases hi : o.f.ioctx with _ | i
    · exact ⟨EBADF, rfl⟩
    · have hn : lockArgs type = none :=
        Option.eq_none_iff_forall_ne_some.mpr fun tf => h i tf.1 tf.2 hf hi
      dsimp only
      rw [lockOp_of_none hn]
      exact ⟨EINVAL, rfl⟩
  · exact ⟨EINVAL, by rw [diodLock, bind_of_stop (failIf_of hf _ _)]⟩

variable {held : σ → ℕ → ℕ} (hH : H.Flocks held)

include hH

/-- What `ioctx_testlock` leaves locked: the lock that it took, if it is not released. -/
theorem ioctxTestlock_spec (hx : x.lockType = held o.host x.fd)
    (hu : type ≠ Lunlck) (ht : lockArgs type = some (t, f)) :
    ∃ e o', ioctxTestlock H x t o = (.ok e, o') ∧ o'.f = o.f ∧ o'.ioctxs = o.ioctxs ∧
      held o'.host =
        if x.lockType = LOCK_UN ∧ (H.call (.flock x.fd (t + f)) o.host).1.err = 0 ∧
          (H.call (.flock x.fd LOCK_UN) (H.call (.flock x.fd (t + f)) o.host).2).1.err ≠ 0
        then Function.update (held o.host) x.fd t else held o.host := by
  obtain ⟨rfl, -⟩ := lockArgs_of_ne hu ht
  rw [ioctxTestlock]
  -- a descriptor that has a lock is not tried: the answer is that there is no conflict
  by_cases hn : x.lockType = LOCK_UN
  · have hc : syscall H (.flock x.fd (t + LOCK_NB)) o = (.ok _, _) := rfl
    rw [if_pos hn, bind_of_ok hc]
    by_cases he : (H.call (.flock x.fd (t + LOCK_NB)) o.host).1.err = 0
    · have hg := hH.granted o.host x.fd type t LOCK_NB ht he
      rw [if_pos he]
      refine ⟨LOCK_UN, _, rfl, rfl, rfl, ?_⟩
      have hun : lockArgs Lunlck = some (LOCK_UN, 0) := rfl
      -- what was taken to try is given back, unless the second call fails
      by_cases hr : (H.call (.flock x.fd LOCK_UN)
          (H.call (.flock x.fd (t + LOCK_NB)) o.host).2).1.err = 0
      · rw [if_neg (by simp [hr])]
        refine (hH.granted _ x.fd Lunlck LOCK_UN 0 hun hr).trans ?_
        rw [hg, Function.update_idem, ← hn, hx, Function.update_eq_self]
      · rw [if_pos ⟨hn, he, hr⟩]
        refine (hH.refused _ x.fd Lunlck LOCK_UN 0 hun hr).trans ?_
        rw [if_neg (by simp [Converts]), hg]
    · rw [if_neg he]
      -- there was no lock that could be lost on the way
      refine ⟨LOCK_EX, _, rfl, rfl, rfl, ?_⟩
      refine (hH.refused o.host x.fd type t LOCK_NB ht he).trans ?_
      rw [if_neg (by simp [Converts, ← hx, hn]), if_neg (by simp [he])]
  · rw [if_neg hn]
    exact ⟨LOCK_UN, o, rfl, rfl, rfl, by rw [if_neg (by simp [hn])]⟩

/-- What a `Tgetlock` does with a descriptor, if it gets that far. -/
theorem diodGetlock_tests (start length : UInt64) (procId : UInt32)
    (clientId : Bytes) (hi : o.f.ioctx = some i) (hx : o.ioctxs.get i = some x)
    (hl : x.lockType = held o.host x.fd) (hu : type ≠ Lunlck) (ht : lockArgs type = some (t, f)) :
    ∃ r o', diodGetlock H type start length procId clientId o = (r, o') ∧ r.ending ≠ .crash ∧
      o'.f = o.f ∧ o'.ioctxs = o.ioctxs ∧
      (GetlockSpoils H o.host x t f → held o'.host = Function.update (held o.host) x.fd t) ∧
      (¬GetlockSpoils H o.host x t f → held o'.host = held o.host) := by
  rw [diodGetlock, bind_of_ok (openOr_of_get hi hx)]
  rcases allocOr_cases H ENOMEM o with ⟨hm, ha⟩ | ⟨hm, ha⟩
  · obtain ⟨-, hty⟩ := lockArgs_of_ne hu ht
    have hg : ¬(type ≠ Lrdlck ∧ type ≠ Lwrlck) := by
      rcases hty with ⟨h, -⟩ | ⟨h, -⟩ <;> simp [h]
    have hte : (if type = Lrdlck then LOCK_SH else LOCK_EX) = t := by
      rcases hty with ⟨rfl, rfl⟩ | ⟨rfl, rfl⟩ <;> rfl
    obtain ⟨e, o₁, h₁, hf₁, hi₁, hh₁⟩ := ioctxTestlock_spec
      (o := { o with host := (H.malloc o.host).2 }) hH (by rw [hH.malloc]; exact hl) hu ht
    rw [bind_of_ok ha, bind_of_ok (failIf_of_not hg _ _), hte, bind_of_ok h₁]
    have hspoil : GetlockSpoils H o.host x t f ↔ x.lockType = LOCK_UN ∧
        (H.call (.flock x.fd (t + f)) (H.malloc o.host).2).1.err = 0 ∧
        (H.call (.flock x.fd LOCK_UN)
          (H.call (.flock x.fd (t + f)) (H.malloc o.host).2).2).1.err ≠ 0 :=
      ⟨fun h => h.2, fun h => ⟨hm, h⟩⟩
    dsimp only at hh₁
    rw [hH.malloc] at hh₁
    -- the answer is allocated after that, which moves no lock
    have hleft : ∀ s, held s = held o₁.host →
        (GetlockSpoils H o.host x t f → held s = Function.update (held o.host) x.fd t) ∧
        (¬GetlockSpoils H o.host x t f → held s = held o.host) := fun s hs =>
      ⟨fun h => by rw [hs, hh₁, if_pos (hspoil.mp h)],
        fun h => by rw [hs, hh₁, if_neg fun hc => h (hspoil.mpr hc)]⟩
    rcases allocOr_cases H ENOMEM o₁ with ⟨-, ha₁⟩ | ⟨-, ha₁⟩
    · rw [bind_of_ok ha₁]
      exact ⟨_, _, rfl, by simp, hf₁, hi₁, hleft _ (hH.malloc o₁.host)⟩
    · rw [bind_of_stop ha₁]
      exact ⟨_, _, rfl, by simp, hf₁, hi₁, hleft _ (hH.malloc o₁.host)⟩
  · rw [bind_of_stop ha]
    exact ⟨_, _, rfl, by simp, rfl, rfl, fun h => absurd hm h.1,
      fun _ => hH.malloc o.host⟩

/-- A `Tgetlock` that is refused before that. -/
theorem diodGetlock_refused (start length : UInt64) (procId : UInt32)
    (clientId : Bytes) (ho : ∀ i, o.f.ioctx = some i → ∃ x, o.ioctxs.get i = some x)
    (h : o.f.ioctx = none ∨ type = Lunlck ∨ lockArgs type = none) :
    ∃ o', diodGetlock H type start length procId clientId o = (.stop, o') ∧ o'.f = o.f ∧
      o'.ioctxs = o.ioctxs ∧ held o'.host = held o.host := by
  rcases hi : o.f.ioctx with _ | i
  · have hn : openOr o = (.stop, { o with ecode := EBADF }) := by
      rw [openOr, fid_bind, bind_of_stop (failIf_of (by simp [hi]) _ _)]
    rw [diodGetlock, bind_of_stop hn]
    exact ⟨_, rfl, rfl, rfl, rfl⟩
  · obtain ⟨x, hx⟩ := ho i hi
    have hty : type ≠ Lrdlck ∧ type ≠ Lwrlck := by
      rcases h with h | rfl | h
      · rw [hi] at h
        cases h
      · decide
      · constructor <;> rintro rfl <;> cases h
    rw [diodGetlock, bind_of_ok (openOr_of_get hi hx)]
    rcases allocOr_cases H ENOMEM o with ⟨-, ha⟩ | ⟨-, ha⟩
    · rw [bind_of_ok ha, bind_of_stop (failIf_of hty _ _)]
      exact ⟨_, rfl, rfl, rfl, hH.malloc o.host⟩
    · rw [bind_of_stop ha]
      exact ⟨_, rfl, rfl, rfl, hH.malloc o.host⟩

end Op

/-! ### One request -/

namespace Lockers

variable {H} {held : σ → ℕ → ℕ} {s s' : Lockers σ} {n i : ℕ} {x : IOCtx}

/-- **A request is as it should be**: every note is right, and a lock that is not granted leaves
the old one. -/
def Keeps (held : σ → ℕ → ℕ) (s : Lockers σ) (n : ℕ) (q : Lockreq) (r : Res Msg)
    (s' : Lockers σ) : Prop :=
  s'.Agrees held ∧ ∀ type flags, q = .lock type flags →
    r.result ≠ some (.rlock Op.Lsuccess) → s.Unmoved held s' n

variable {r : Res Msg} {b : Back σ} {t : ℕ} {type : UInt8} {flags : UInt32}

theorem request_eq {q : Lockreq} {o : Ost σ DiodFid}
    (h : q.op H ⟨s.b, s.fids n⟩ = (r, o)) (hf : o.f = s.fids n) :
    s.request H n q = (r, ⟨o.toBack, s.fids⟩) := by
  rw [request, h]
  dsimp only
  rw [hf, Function.update_eq_self]

/-- Notes may change, and nothing else. -/
theorem Ready.of_notes (h : s.Ready) (t : ℕ) (hb : b.ioctxs = s.b.ioctxs ∨
      b.ioctxs = s.b.ioctxs.modify i fun y => { y with lockType := t }) :
    Ready ⟨b, s.fids⟩ := by
  rcases hb with hb | hb
  · exact ⟨fun n j hj => by rw [hb]; exact h.isOpen n j hj,
      fun j k y z hy hz => h.own j k y z (hb ▸ hy) (hb ▸ hz)⟩
  · -- a note does not change which descriptor it is about
    have hget : ∀ j y, b.ioctxs.get j = some y →
        ∃ y', s.b.ioctxs.get j = some y' ∧ y'.fd = y.fd := by
      intro j y hy
      rw [hb] at hy
      obtain ⟨y', hy', rfl⟩ := Heap.get_of_get_modify hy
      exact ⟨y', hy', by split <;> rfl⟩
    refine ⟨fun n j hj => ?_, fun j k y z hy hz hyz => ?_⟩
    · obtain ⟨y, hy⟩ := h.isOpen n j hj
      dsimp only
      rw [hb, Heap.get_modify, hy]
      exact ⟨_, rfl⟩
    · obtain ⟨y', hy', hfy⟩ := hget j y hy
      obtain ⟨z', hz', hfz⟩ := hget k z hz
      exact h.own j k y' z' hy' hz' (by rw [hfy, hfz, hyz])

/-- The notes are as they were, and so are the locks. -/
theorem Agrees.of_same (h : s.Agrees held) (hi : b.ioctxs = s.b.ioctxs)
    (hl : held b.host = held s.b.host) : Agrees held ⟨b, s.fids⟩ := by
  intro j y hy
  dsimp only at hy ⊢
  rw [hl]
  exact h j y (hi ▸ hy)

/-- A note is changed with its lock. -/
theorem Agrees.of_granted (h : s.Agrees held) (hr : s.Ready) (hx : s.b.ioctxs.get i = some x)
    (hi : b.ioctxs = s.b.ioctxs.modify i fun y => { y with lockType := t })
    (hl : held b.host = Function.update (held s.b.host) x.fd t) : Agrees held ⟨b, s.fids⟩ := by
  intro j y hy
  dsimp only at hy ⊢
  rw [hi] at hy
  obtain ⟨y', hy', rfl⟩ := Heap.get_of_get_modify hy
  rw [hl]
  by_cases hj : j = i
  · subst hj
    obtain rfl := Option.some.inj (hx.symm.trans hy')
    rw [if_pos rfl]
    exact (Function.update_self x.fd t (held s.b.host)).symm
  · -- no other open file has this descriptor, so its lock is not touched
    rw [if_neg hj, Function.update_of_ne fun he => hj (hr.own j i y' x hy' hx he)]
    exact h j y' hy'

/-- The lock of a descriptor is changed, and its note is not. -/
theorem not_agrees_of_lost (hx : s.b.ioctxs.get i = some x)
    (hi : b.ioctxs = s.b.ioctxs) (hl : held b.host = Function.update (held s.b.host) x.fd t)
    (ht : x.lockType ≠ t) : ¬Agrees held ⟨b, s.fids⟩ := by
  intro h
  have hn := h i x (hi ▸ hx)
  dsimp only at hn
  rw [hl, Function.update_self] at hn
  exact ht hn

/-- There is at most one lock that a request can ask for. -/
theorem forall_asked_iff {f : ℕ} {P : IOCtx → ℕ → ℕ → Prop}
    (hi : (s.fids n).ioctx = some i) (hx : s.b.ioctxs.get i = some x)
    (ht : lockArgs type = some (t, f)) :
    (∀ i x t f, (s.fids n).ioctx = some i → s.b.ioctxs.get i = some x →
      lockArgs type = some (t, f) → P x t f) ↔ P x t f := by
  refine ⟨fun h => h i x t f hi hx ht, fun h j y t' f' hj hy ht' => ?_⟩
  obtain rfl := Option.some.inj (hi.symm.trans hj)
  obtain rfl := Option.some.inj (hx.symm.trans hy)
  obtain ⟨rfl, rfl⟩ := Prod.mk.inj (Option.some.inj (ht.symm.trans ht'))
  exact h

theorem unmoved_iff (hi : (s.fids n).ioctx = some i) (hx : s.b.ioctxs.get i = some x) :
    s.Unmoved held s' n ↔ held s'.b.host x.fd = held s.b.host x.fd := by
  refine ⟨fun h => h i x hi hx, fun h j y hj hy => ?_⟩
  obtain rfl := Option.some.inj (hi.symm.trans hj)
  obtain rfl := Option.some.inj (hx.symm.trans hy)
  exact h

/-- A lock that the host grants is kept as it should be if the reply gets out, or if it is the lock
that was held before. -/
theorem keeps_granted_iff
    {m : Prop} (hr : s.Ready) (ha : s.Agrees held) (hi : (s.fids n).ioctx = some i)
    (hx : s.b.ioctxs.get i = some x)
    (hb : b.ioctxs = s.b.ioctxs.modify i fun y => { y with lockType := t })
    (hl : held b.host = Function.update (held s.b.host) x.fd t)
    (hres : r.result = some (.rlock Op.Lsuccess) ↔ ¬m) :
    Keeps held s n (.lock type flags) r ⟨b, s.fids⟩ ↔ ¬(x.lockType ≠ t ∧ m) := by
  have hu : s.Unmoved held ⟨b, s.fids⟩ n ↔ x.lockType = t := by
    rw [unmoved_iff hi hx]
    dsimp only
    rw [hl, Function.update_self, ← ha i x hx]
    exact eq_comm
  refine ⟨fun h hs => ?_, fun h => ⟨ha.of_granted hr hx hb hl, fun _ _ _ hn => hu.mpr ?_⟩⟩
  · -- the lock is granted, and the client is told that there was an error
    exact hs.1 (hu.mp (h.2 type flags rfl fun hc => hres.mp hc hs.2))
  · by_contra hne
    exact hn (hres.mpr fun hm => h ⟨hne, hm⟩)

/-- A lock that the host refuses is as it should be if the old one is not lost on the way. -/
theorem keeps_refused_iff {c : Prop}
    [Decidable c] (ha : s.Agrees held) (hx : s.b.ioctxs.get i = some x)
    (hb : b.ioctxs = s.b.ioctxs) (hc : c → x.lockType ≠ t)
    (hl : held b.host = if c then Function.update (held s.b.host) x.fd t else held s.b.host) :
    Keeps held s n (.lock type flags) r ⟨b, s.fids⟩ ↔ ¬c := by
  refine ⟨fun h hs => ?_, fun h => ?_⟩
  · rw [if_pos hs] at hl
    exact not_agrees_of_lost hx hb hl (hc hs) h.1
  · rw [if_neg h] at hl
    exact ⟨ha.of_same hb hl, fun _ _ _ _ _ _ _ _ => by dsimp only; rw [hl]⟩

theorem lock_keeps_iff (hH : H.Flocks held) (hr : s.Ready) (ha : s.Agrees held) (n : ℕ)
    (type : UInt8) (flags : UInt32) :
    ∃ r s', s.request H n (.lock type flags) = (r, s') ∧ r.ending ≠ .crash ∧ s'.Ready ∧
      (Keeps held s n (.lock type flags) r s' ↔ s.Spares H n (.lock type flags)) := by
  by_cases hv : flags &&& ~~~1 = 0 ∧ ∃ i t f, (s.fids n).ioctx = some i ∧
      lockArgs type = some (t, f)
  · obtain ⟨hfl, i, t, f, hi, ht⟩ := hv
    obtain ⟨x, hx⟩ := hr.isOpen n i hi
    obtain ⟨r, o, ho, hc, hof, hoi, hoh, hres⟩ :=
      Op.diodLock_flocks (H := H) (o := ⟨s.b, s.fids n⟩) hfl hi hx ht
    have hspares : s.Spares H n (.lock type flags) ↔ ¬LockSpoils H s.b.host x t f :=
      (forall_prop_of_true hfl).trans (forall_asked_iff hi hx ht)
    have hheld : held o.host = held (H.call (.flock x.fd (t + f)) s.b.host).2 := by
      rw [hoh, hH.malloc]
      rfl
    refine ⟨r, _, request_eq ho hof, hc, ?_⟩
    rw [hspares, LockSpoils]
    dsimp only [Op.flocked] at hoi hres
    by_cases he : (H.call (.flock x.fd (t + f)) s.b.host).1.err = 0
    · rw [hH.granted s.b.host x.fd type t f ht he] at hheld
      rw [if_pos he] at hoi ⊢
      exact ⟨hr.of_notes t (.inr hoi),
        keeps_granted_iff hr ha hi hx hoi hheld (hres.trans (and_iff_right he))⟩
    · rw [hH.refused s.b.host x.fd type t f ht he, ← ha i x hx] at hheld
      rw [if_neg he] at hoi ⊢
      exact ⟨hr.of_notes (i := i) t (.inl hoi), keeps_refused_iff ha hx hoi And.left hheld⟩
  · -- nothing is asked of the host
    obtain ⟨e, he⟩ := Op.diodLock_refused (H := H) (o := ⟨s.b, s.fids n⟩) type flags
      fun i t f hf hi ht => hv ⟨hf, i, t, f, hi, ht⟩
    refine ⟨_, _, request_eq he rfl, by simp, hr.of_notes (i := 0) 0 (.inl rfl), ?_⟩
    refine iff_of_true ⟨ha.of_same rfl rfl, fun _ _ _ _ _ _ _ _ => rfl⟩ ?_
    exact fun hf i x t f hi _ ht => absurd ⟨hf, i, t, f, hi, ht⟩ hv

theorem getlock_keeps_iff (hH : H.Flocks held) (hr : s.Ready) (ha : s.Agrees held) (n : ℕ)
    (type : UInt8) (start length : UInt64) (procId : UInt32) (clientId : Bytes) :
    ∃ r s', s.request H n (.getlock type start length procId clientId) = (r, s') ∧
      r.ending ≠ .crash ∧ s'.Ready ∧
      (Keeps held s n (.getlock type start length procId clientId) r s' ↔
        s.Spares H n (.getlock type start length procId clientId)) := by
  by_cases hv : type ≠ Op.Lunlck ∧ ∃ i t f, (s.fids n).ioctx = some i ∧ lockArgs type = some (t, f)
  · obtain ⟨hu, i, t, f, hi, ht⟩ := hv
    obtain ⟨x, hx⟩ := hr.isOpen n i hi
    obtain ⟨r, o, ho, hc, hof, hoi, hs, hns⟩ := Op.diodGetlock_tests (o := ⟨s.b, s.fids n⟩) hH
      start length procId clientId hi hx (ha i x hx) hu ht
    have hspares : s.Spares H n (.getlock type start length procId clientId) ↔
        ¬GetlockSpoils H s.b.host x t f :=
      (forall_prop_of_true hu).trans (forall_asked_iff hi hx ht)
    refine ⟨r, _, request_eq ho hof, hc, hr.of_notes (i := i) t (.inl hoi), ?_⟩
    rw [hspares]
    refine ⟨fun h hsp => not_agrees_of_lost hx hoi (hs hsp) ?_ h.1,
      fun h => ⟨ha.of_same hoi (hns h), fun _ _ he => by cases he⟩⟩
    -- the note says that there is no lock, and there is the one that was tried
    rw [hsp.2.1]
    obtain ⟨-, ⟨-, rfl⟩ | ⟨-, rfl⟩⟩ := Op.lockArgs_of_ne hu ht <;> decide
  · -- nothing is tried: no file is open, or the type is none that can be tried
    have hn : (s.fids n).ioctx = none ∨ type = Op.Lunlck ∨ lockArgs type = none := by
      by_contra hc
      push Not at hc
      obtain ⟨hi, hu, ht⟩ := hc
      obtain ⟨i, hi⟩ := Option.ne_none_iff_exists'.mp hi
      obtain ⟨⟨t, f⟩, ht⟩ := Option.ne_none_iff_exists'.mp ht
      exact hv ⟨hu, i, t, f, hi, ht⟩
    obtain ⟨o, ho, hof, hoi, hoh⟩ := Op.diodGetlock_refused (o := ⟨s.b, s.fids n⟩) hH
      start length procId clientId (hr.isOpen n) hn
    refine ⟨_, _, request_eq ho hof, by simp, hr.of_notes (i := 0) 0 (.inl hoi), ?_⟩
    refine iff_of_true ⟨ha.of_same hoi hoh, fun _ _ he => by cases he⟩ ?_
    exact fun hu i x t f hi _ ht => absurd ⟨hu, i, t, f, hi, ht⟩ hv

/-- **One request**: it is as it should be if and only if none of the three things happens. -/
theorem keeps_iff (hH : H.Flocks held) (hr : s.Ready) (ha : s.Agrees held) (n : ℕ)
    (q : Lockreq) :
    ∃ r s', s.request H n q = (r, s') ∧ r.ending ≠ .crash ∧ s'.Ready ∧
      (Keeps held s n q r s' ↔ s.Spares H n q) := by
  rcases q with ⟨type, flags⟩ | ⟨type, start, length, procId, clientId⟩
  · exact lock_keeps_iff hH hr ha n type flags
  · exact getlock_keeps_iff hH hr ha n type start length procId clientId

theorem step_agrees (hH : H.Flocks held) (hr : s.Ready) (ha : s.Agrees held) {a : ℕ × Lockreq}
    (hs : s.Spares H a.1 a.2) (h : s.step H a = some s') : s'.Ready ∧ s'.Agrees held := by
  obtain ⟨r, s₁, he, hc, hr₁, hk⟩ := keeps_iff hH hr ha a.1 a.2
  have hs₁ : s' = s₁ := by
    rw [step, he] at h
    rcases r with m | - | -
    · exact (Option.some.inj h).symm
    · exact (Option.some.inj h).symm
    · cases h
  rw [hs₁]
  exact ⟨hr₁, (hk.mpr hs).1⟩

end Lockers

/-! ### A kernel with one file -/

namespace OneFile

/-- The type of the lock that a descriptor has. -/
def held (s : List (ℕ × ℕ)) (fd : ℕ) : ℕ := ((s.find? (·.1 = fd)).map (·.2)).getD LOCK_UN

/-- The type of lock that an operation asks for. -/
def lockType (op : ℕ) : ℕ :=
  if op &&& LOCK_UN ≠ 0 then LOCK_UN else if op &&& LOCK_SH ≠ 0 then LOCK_SH else LOCK_EX

/-- `flock`, where the locks of all descriptors are on one file. -/
def flock (fd op : ℕ) (s : List (ℕ × ℕ)) : HostReply × List (ℕ × ℕ) :=
  let rest := s.filter (·.1 ≠ fd)
  if lockType op = LOCK_UN then ({}, rest)
  else if held s fd = lockType op then ({}, s)
  -- shared locks go together, and nothing else does
  else if rest.all fun h => lockType op = LOCK_SH ∧ h.2 = LOCK_SH then
    ({}, (fd, lockType op) :: rest)
  else ({ err := EWOULDBLOCK }, rest)

/-- Its other calls do nothing. -/
def host : Host (List (ℕ × ℕ)) where
  call
    | .flock fd op, s => flock fd op s
    | _, s => ({}, s)
  malloc s := (some fun _ => 0, s)

variable (s : List (ℕ × ℕ)) (fd : ℕ)

theorem held_filter : held (s.filter (·.1 ≠ fd)) = Function.update (held s) fd LOCK_UN := by
  funext fd'
  rw [held, List.find?_filter]
  rcases eq_or_ne fd' fd with rfl | hne
  · rw [Function.update_self, List.find?_eq_none.mpr (by simp)]
    rfl
  · rw [Function.update_of_ne hne, held]
    congr 3
    funext h
    by_cases hh : h.1 = fd'
    · simp [hh, hne]
    · simp [hh]

theorem held_cons (t : ℕ) :
    held ((fd, t) :: s.filter (·.1 ≠ fd)) = Function.update (held s) fd t := by
  funext fd'
  rcases eq_or_ne fd' fd with rfl | hne
  · rw [Function.update_self, held, List.find?_cons_of_pos (by simp)]
    rfl
  · rw [held, List.find?_cons_of_neg (by simpa using hne.symm)]
    have := congrFun (held_filter s fd) fd'
    rw [Function.update_of_ne hne] at this
    rw [Function.update_of_ne hne, ← this, held]

theorem lockType_eq {type : UInt8} {t f : ℕ} (h : lockArgs type = some (t, f)) :
    lockType (t + f) = t := by
  unfold lockArgs at h
  split_ifs at h <;> cases h <;> decide

theorem flocks : host.Flocks held where
  malloc _ := rfl
  granted s fd type t f ht he := by
    change (flock fd (t + f) s).1.err = 0 at he
    change held (flock fd (t + f) s).2 = _
    rw [flock, lockType_eq ht] at he ⊢
    by_cases hu : t = LOCK_UN
    · rw [if_pos hu, held_filter, hu]
    · by_cases hs : held s fd = t
      · rw [if_neg hu, if_pos hs, ← hs, Function.update_eq_self]
      · rw [if_neg hu, if_neg hs] at he ⊢
        by_cases ha : (s.filter (·.1 ≠ fd)).all fun h => t = LOCK_SH ∧ h.2 = LOCK_SH
        · rw [if_pos ha, held_cons]
        · rw [if_neg ha] at he
          cases he
  refused s fd type t f ht he := by
    change (flock fd (t + f) s).1.err ≠ 0 at he
    change held (flock fd (t + f) s).2 = _
    rw [flock, lockType_eq ht] at he ⊢
    by_cases hu : t = LOCK_UN
    · rw [if_pos hu] at he
      exact absurd rfl he
    · by_cases hs : held s fd = t
      · rw [if_neg hu, if_pos hs] at he
        exact absurd rfl he
      · rw [if_neg hu, if_neg hs] at he ⊢
        by_cases ha : (s.filter (·.1 ≠ fd)).all fun h => t = LOCK_SH ∧ h.2 = LOCK_SH
        · rw [if_pos ha] at he
          exact absurd rfl he
        · rw [if_neg ha, held_filter]
          -- a descriptor without a lock has none afterwards either
          by_cases hn : held s fd = LOCK_UN
          · rw [if_neg fun h => h.1 hn, ← hn, Function.update_eq_self]
          · rw [if_pos ⟨hn, hu, hs⟩]

/-- A file, open on a descriptor. -/
def openOn (fd : ℕ) : IOCtx := ⟨1, LOCK_UN, fd, false, 2, 0, 0, ⟨0, 0, 0⟩, none, none⟩

/-- Two fids that are open, with the descriptors 3 and 4. -/
def twoFids : Lockers (List (ℕ × ℕ)) where
  b := ⟨[], .empty, (Heap.empty.alloc (openOn 3)).alloc (openOn 4), 0, []⟩
  fids n := ⟨⟨0, [97]⟩, if n < 2 then some n else none, none, false, false, false⟩

theorem twoFids_get {i : ℕ} {x : IOCtx} (h : twoFids.b.ioctxs.get i = some x) :
    i < 2 ∧ x = openOn (i + 3) := by
  have hi : i < 2 := Heap.lt_next h
  obtain rfl | rfl : i = 0 ∨ i = 1 := by omega
  · exact ⟨by decide, (Option.some.inj h).symm⟩
  · exact ⟨by decide, (Option.some.inj h).symm⟩

theorem twoFids_ready : twoFids.Ready where
  isOpen n i h := by
    obtain ⟨hn, rfl⟩ : n < 2 ∧ n = i := by simpa [twoFids] using h
    obtain rfl | rfl : n = 0 ∨ n = 1 := by omega
    · exact ⟨openOn 3, rfl⟩
    · exact ⟨openOn 4, rfl⟩
  own i j x y hx hy he := by
    obtain ⟨-, rfl⟩ := twoFids_get hx
    obtain ⟨-, rfl⟩ := twoFids_get hy
    exact Nat.add_right_cancel he

theorem twoFids_agrees : twoFids.Agrees held := by
  intro i x hx
  obtain ⟨-, rfl⟩ := twoFids_get hx
  rfl

/-- The first request is harmless: there is no lock yet. -/
theorem twoFids_spares (n : ℕ) (type : UInt8) (flags : UInt32) :
    twoFids.Spares host n (.lock type flags) := by
  intro _ i x t f _ hx _ hs
  obtain ⟨-, rfl⟩ := twoFids_get hx
  rw [LockSpoils] at hs
  split at hs
  · cases hs.2
  · exact hs.1 rfl

end OneFile

/-! ### Runs -/

open OneFile

/-- **`lock_type` is the lock that the kernel holds**, after any `Tlock` and `Tgetlock` of any
fids, as long as no conversion fails, what was granted can be answered, and what was tried is
released. The next request then keeps this, and leaves the lock of a fid that is not granted
another one, if and only if it is of that kind too. -/
theorem lock_type_right_iff {H : Host σ} {held : σ → ℕ → ℕ} (hH : H.Flocks held)
    {s₀ s : Lockers σ} (hr : s₀.Ready) (ha : s₀.Agrees held)
    (h : Reaches (Lockers.step H) (fun s a => s.Spares H a.1 a.2) s₀ s) :
    s.Agrees held ∧ ∀ n q, ∃ r s', s.request H n q = (r, s') ∧ r.ending ≠ .crash ∧
      (Lockers.Keeps held s n q r s' ↔ s.Spares H n q) := by
  obtain ⟨hr, ha⟩ := h.invariant (I := fun s => s.Ready ∧ s.Agrees held) ⟨hr, ha⟩
    fun _ _ _ hi hq hs => Lockers.step_agrees hH hi.1 hi.2 hq hs
  refine ⟨ha, fun n q => ?_⟩
  obtain ⟨r, s', he, hc, -, hk⟩ := Lockers.keeps_iff hH hr ha n q
  exact ⟨r, s', he, hc, hk⟩

/-- One fid is locked, and the other one asks for a lock that it does not get. -/
theorem lock_type_right_iff_blocked : ∃ s r s',
    Reaches (Lockers.step host) (fun s a => s.Spares host a.1 a.2) twoFids s ∧
    held s.b.host 3 = LOCK_SH ∧ s.request host 1 (.lock Op.Lwrlck 0) = (r, s') ∧
    r.result = some (.rlock Op.Lblocked) ∧ Lockers.Keeps held s 1 (.lock Op.Lwrlck 0) r s' := by
  have hreach : Reaches (Lockers.step host) (fun s a => s.Spares host a.1 a.2) twoFids _ :=
    .tail (a := (0, .lock Op.Lrdlck 0)) .refl (twoFids_spares 0 Op.Lrdlck 0) rfl
  obtain ⟨-, hnext⟩ := lock_type_right_iff flocks twoFids_ready twoFids_agrees hreach
  obtain ⟨r, s', hreq, -, hk⟩ := hnext 1 (.lock Op.Lwrlck 0)
  have hr := Prod.mk.inj hreq
  refine ⟨_, r, s', hreach, rfl, hreq, by rw [← hr.1]; rfl, hk.mpr ?_⟩
  intro _ i x t f hi hx _ hs
  obtain rfl : 1 = i := Option.some.inj hi
  obtain rfl : openOn 4 = x := Option.some.inj hx
  rw [LockSpoils] at hs
  split at hs
  · cases hs.2
  · exact hs.1 rfl

/-- **A lock is lost**: two fids have a shared lock, and one of them asks for an exclusive one.
It is blocked, its descriptor has no lock any more, and its `lock_type` is `LOCK_SH`. -/
theorem lock_type_lost : ∃ s s',
    runSteps (Lockers.step host) twoFids [(0, .lock Op.Lrdlck 0), (1, .lock Op.Lrdlck 0)] = some s ∧
    (s.b.ioctxs.get 0).map (fun x => (x.lockType, held s.b.host x.fd)) =
      some (LOCK_SH, LOCK_SH) ∧
    s.request host 0 (.lock Op.Lwrlck 0) = (.ok (.rlock Op.Lblocked), s') ∧
    (s'.b.ioctxs.get 0).map (fun x => (x.lockType, held s'.b.host x.fd)) =
      some (LOCK_SH, LOCK_UN) :=
  ⟨_, _, rfl, rfl, rfl, rfl⟩

end Diod
