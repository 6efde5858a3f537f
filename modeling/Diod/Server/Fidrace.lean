import Diod.Lib.Runs
import Mathlib.Data.Int.Notation
import Mathlib.Data.List.Count
import Mathlib.Data.List.Nodup
import Mathlib.Logic.Function.Basic

/-!
# Threads at one fid pool

`fidpool.c` with several threads, at the granularity of its locks. Everything is done
under one lock or another, but `np_fid_decref` needs three steps for the last reference:
**the decrement to zero** under `f->lock`, **the unlinking** under `pool->lock`, and the
destruction under none. In between the fid is still in its bucket with a count of zero,
and `np_fid_find` does not look at the count.

So a thread that asks for the number at that moment gets a fid that is about to be
destroyed (`Diod.find_revives`). Where no thread asks at that moment, no fid with a count
of zero is found and every fid is destroyed once (`Diod.fid_destroyed_once`).
-/

namespace Diod

/-! ### The pool -/

/-- What a thread inside `np_fid_decref` or `np_fid_decref_bynum` still has to do. -/
inductive Pend where
  | unlink (p : ℕ)
  | destroy (p : ℕ)
deriving DecidableEq

/-- The fid it is at. -/
def Pend.fid : Pend → ℕ
  | .unlink p | .destroy p => p

@[simp] theorem Pend.fid_unlink (p : ℕ) : (Pend.unlink p).fid = p := rfl

@[simp] theorem Pend.fid_destroy (p : ℕ) : (Pend.destroy p).fid = p := rfl

/-- `Npfid`, with how often it has been destroyed. -/
structure Rfid where
  num : UInt32 := 0
  refcount : ℤ := 0
  /-- `FID_FLAGS_ZOMBIE` -/
  zombie : Bool := false
  destroyed : ℕ := 0
deriving DecidableEq

/-- `Npfidpool`, the fids that were ever in it, and what its threads have. -/
structure Rpool where
  fids : ℕ → Rfid := fun _ => {}
  /-- How many fids there have been. -/
  next : ℕ := 0
  /-- The buckets, one behind the other, newest first. -/
  htable : List ℕ := []
  /-- The references, each with the thread that holds it. -/
  held : List (ℕ × ℕ) := []
  pend : List (ℕ × Pend) := []

/-- `FID_HTABLE_SIZE` -/
def FID_HTABLE_SIZE : UInt32 := 64

namespace Rpool

variable (s : Rpool)

/-- Change a fid. -/
def modify (p : ℕ) (g : Rfid → Rfid) : Rpool :=
  { s with fids := Function.update s.fids p (g (s.fids p)) }

theorem fids_modify (p : ℕ) (g : Rfid → Rfid) : (s.modify p g).fids p = g (s.fids p) :=
  Function.update_self ..

/-- `_lookup_fid`, which fid it finds. -/
def lookupFid (num : UInt32) : Option ℕ :=
  s.htable.find? fun p => (s.fids p).num = num ∧ (s.fids p).zombie = false

/-- `_optimize_fid`: `_lookup_fid` moves what it finds to the head. -/
def optimizeFid (p : ℕ) : Rpool := { s with htable := p :: s.htable.erase p }

/-- `_unlink_fid`. Of a fid that is in no bucket both links are null, and the head of the
bucket becomes null. -/
def unlinkFid (p : ℕ) : List ℕ :=
  if p ∈ s.htable then s.htable.erase p
  else s.htable.filter fun q =>
    (s.fids q).num % FID_HTABLE_SIZE ≠ (s.fids p).num % FID_HTABLE_SIZE

/-- `refcount++`, for a thread that has the reference from then on. -/
def gain (t p : ℕ) : Rpool :=
  { s.modify p fun f => { f with refcount := f.refcount + 1 } with held := (t, p) :: s.held }

/-- `--refcount`, of a reference that a thread has. -/
def lose (t p : ℕ) : Rpool :=
  { s.modify p fun f => { f with refcount := f.refcount - 1 } with held := s.held.erase (t, p) }

/-- The thread is not inside a call. -/
def Idle (t : ℕ) : Prop := ∀ x ∈ s.pend, x.1 ≠ t

instance (t : ℕ) : Decidable (s.Idle t) := inferInstanceAs (Decidable (∀ x ∈ s.pend, x.1 ≠ t))

/-- `np_fid_find` -/
def find (t : ℕ) (num : UInt32) : Rpool :=
  match s.lookupFid num with
  | none => s
  | some p => (s.optimizeFid p).gain t p

/-- A new fid with one reference, at the head of its bucket. -/
def link (t : ℕ) (num : UInt32) : Rpool :=
  { s with
    fids := Function.update s.fids s.next { num, refcount := 1 }
    next := s.next + 1
    htable := s.next :: s.htable
    held := (t, s.next) :: s.held }

/-- `np_fid_create`, on a server with or without `SRV_FLAGS_LOOSEFID`, with or without
memory. -/
def create (loose : Bool) (t : ℕ) (num : UInt32) (mem : Bool) : Rpool :=
  let new (s : Rpool) : Rpool := if mem then s.link t num else s
  match s.lookupFid num with
  | none => new s
  | some p =>
    let s := s.optimizeFid p
    if loose then new (s.modify p fun f => { f with zombie := true }) else s

/-- `np_fid_decref`, up to the release of `f->lock`. -/
def decref (t p : ℕ) : Rpool :=
  let s := s.lose t p
  if (s.fids p).refcount = 0 then { s with pend := (t, .unlink p) :: s.pend } else s

/-- `np_fid_decref_bynum`, up to the release of `pool->lock`, where it finds a fid. -/
def decrefBynum (t p : ℕ) : Rpool :=
  let s := (s.optimizeFid p).lose t p
  if (s.fids p).refcount = 0 then
    { s with htable := s.unlinkFid p, pend := (t, .destroy p) :: s.pend }
  else s

end Rpool

/-- What a thread does next. -/
inductive Rstep where
  | find (num : UInt32)
  | create (num : UInt32) (mem : Bool)
  | incref (p : ℕ)
  | decref (p : ℕ)
  | decrefBynum (num : UInt32)
  /-- The second lock of `np_fid_decref`. -/
  | unlink (p : ℕ)
  /-- `_destroy_fid` -/
  | destroy (p : ℕ)
deriving DecidableEq

/-- One critical section of a thread. A thread only drops references that it holds. -/
def Rpool.step (loose : Bool) (s : Rpool) : ℕ × Rstep → Option Rpool
  | (t, .find num) => if s.Idle t then some (s.find t num) else none
  | (t, .create num mem) => if s.Idle t then some (s.create loose t num mem) else none
  | (t, .incref p) => if s.Idle t ∧ (t, p) ∈ s.held then some (s.gain t p) else none
  | (t, .decref p) => if s.Idle t ∧ (t, p) ∈ s.held then some (s.decref t p) else none
  | (t, .decrefBynum num) =>
    if s.Idle t then
      match s.lookupFid num with
      | none => some s
      | some p => if (t, p) ∈ s.held then some (s.decrefBynum t p) else none
    else none
  | (t, .unlink p) =>
    if (t, .unlink p) ∈ s.pend then
      some { s with
        htable := s.unlinkFid p
        pend := (t, .destroy p) :: s.pend.erase (t, .unlink p) }
    else none
  | (t, .destroy p) =>
    if (t, .destroy p) ∈ s.pend then
      some { s.modify p fun f => { f with destroyed := f.destroyed + 1 } with
        pend := s.pend.erase (t, .destroy p) }
    else none

/-! ### What holds in a sound pool -/

namespace Rpool

/-- How many references threads hold on a fid. -/
def refs (s : Rpool) (p : ℕ) : ℕ := s.held.countP (·.2 = p)

/-- How many threads are about to destroy it. -/
def ending (s : Rpool) (p : ℕ) : ℕ := s.pend.countP (·.2.fid = p)

/-- Its count has reached zero, and it is still in its bucket. -/
def Unlinking (s : Rpool) (p : ℕ) : Prop := ∃ t, (t, .unlink p) ∈ s.pend

/-- **A pool whose counts are right**, and in which a fid ends once: it is with exactly one
thread, or destroyed, when the last reference is gone, and in its bucket until it is
unlinked. A number stands for one fid, apart from zombies. -/
structure Sound (s : Rpool) : Prop where
  count : ∀ p, (s.fids p).refcount = s.refs p
  ends : ∀ p < s.next, (s.fids p).destroyed + s.ending p = if s.refs p = 0 then 1 else 0
  linked : ∀ p, p ∈ s.htable ↔ p < s.next ∧ (0 < s.refs p ∨ s.Unlinking p)
  nodup : s.htable.Nodup
  single : ∀ p ∈ s.htable, ∀ q ∈ s.htable, (s.fids p).zombie = false →
    (s.fids q).zombie = false → (s.fids p).num = (s.fids q).num → p = q
  fresh : ∀ p, s.next ≤ p → s.refs p = 0 ∧ s.ending p = 0

/-- **The same pool but for one fid.** A step of a thread is of this kind, unless it makes
a fid. -/
structure Elsewhere (p : ℕ) (s s' : Rpool) : Prop where
  next : s'.next = s.next
  fids : ∀ q, q ≠ p → s'.fids q = s.fids q
  refs : ∀ q, q ≠ p → s'.refs q = s.refs q
  ending : ∀ q, q ≠ p → s'.ending q = s.ending q
  unlinking : ∀ q, q ≠ p → (s'.Unlinking q ↔ s.Unlinking q)
  htable : ∀ q, q ≠ p → (q ∈ s'.htable ↔ q ∈ s.htable)
  nodup : s.htable.Nodup → s'.htable.Nodup
  num : (s'.fids p).num = (s.fids p).num
  zombie : (s'.fids p).zombie = false → (s.fids p).zombie = false

variable {s s' s'' : Rpool} {p q t : ℕ}

theorem Elsewhere.trans (h : Elsewhere p s s') (h' : Elsewhere p s' s'') : Elsewhere p s s'' where
  next := h'.next.trans h.next
  fids q hq := (h'.fids q hq).trans (h.fids q hq)
  refs q hq := (h'.refs q hq).trans (h.refs q hq)
  ending q hq := (h'.ending q hq).trans (h.ending q hq)
  unlinking q hq := (h'.unlinking q hq).trans (h.unlinking q hq)
  htable q hq := (h'.htable q hq).trans (h.htable q hq)
  nodup hn := h'.nodup (h.nodup hn)
  num := h'.num.trans h.num
  zombie hz := h.zombie (h'.zombie hz)

/-- What is left to show then is about that fid. -/
theorem Sound.of_elsewhere (h : Sound s) (e : Elsewhere p s s') (hp : p < s.next)
    (hc : (s'.fids p).refcount = s'.refs p)
    (he : (s'.fids p).destroyed + s'.ending p = if s'.refs p = 0 then 1 else 0)
    (hl : p ∈ s'.htable ↔ 0 < s'.refs p ∨ s'.Unlinking p)
    (hin : p ∈ s'.htable → p ∈ s.htable) : Sound s' where
  count q := by
    by_cases hq : q = p
    · rw [hq, hc]
    · rw [e.fids q hq, e.refs q hq, h.count q]
  ends q hlt := by
    by_cases hq : q = p
    · rw [hq, he]
    · rw [e.fids q hq, e.refs q hq, e.ending q hq]
      exact h.ends q (e.next ▸ hlt)
  linked q := by
    by_cases hq : q = p
    · rw [hq, hl, e.next]
      exact (and_iff_right hp).symm
    · rw [e.htable q hq, e.next, e.refs q hq, e.unlinking q hq]
      exact h.linked q
  nodup := e.nodup h.nodup
  single q hq r hr zq zr hn := by
    have back : ∀ x ∈ s'.htable, (s'.fids x).zombie = false → x ∈ s.htable ∧
        (s.fids x).zombie = false ∧ (s'.fids x).num = (s.fids x).num := by
      intro x hx hz
      by_cases hxp : x = p
      · subst hxp
        exact ⟨hin hx, e.zombie hz, e.num⟩
      · rw [e.fids x hxp] at hz ⊢
        exact ⟨(e.htable x hxp).mp hx, hz, rfl⟩
    obtain ⟨hq', zq', nq⟩ := back q hq zq
    obtain ⟨hr', zr', nr⟩ := back r hr zr
    exact h.single q hq' r hr' zq' zr' (by rw [← nq, ← nr, hn])
  fresh q hle := by
    rw [e.next] at hle
    have hq : q ≠ p := by omega
    rw [e.refs q hq, e.ending q hq]
    exact h.fresh q hle

/-! ### The parts of a step -/

theorem elsewhere_optimizeFid (s : Rpool) (p : ℕ) : Elsewhere p s (s.optimizeFid p) where
  next := rfl
  fids _ _ := rfl
  refs _ _ := rfl
  ending _ _ := rfl
  unlinking _ _ := Iff.rfl
  htable q hq := by simp [optimizeFid, hq, List.mem_erase_of_ne hq]
  nodup hn := List.nodup_cons.mpr ⟨fun hm => (hn.mem_erase_iff.mp hm).1 rfl, hn.erase p⟩
  num := rfl
  zombie := id

theorem elsewhere_gain (s : Rpool) (t p : ℕ) : Elsewhere p s (s.gain t p) where
  next := rfl
  fids _ hq := Function.update_of_ne hq ..
  refs q hq := by simp [refs, gain, hq.symm]
  ending _ _ := rfl
  unlinking _ _ := Iff.rfl
  htable _ _ := Iff.rfl
  nodup := id
  num := by simp [gain, modify]
  zombie := by simp [gain, modify]

theorem elsewhere_lose (s : Rpool) (t p : ℕ) : Elsewhere p s (s.lose t p) where
  next := rfl
  fids _ hq := Function.update_of_ne hq ..
  refs q hq := by simp [refs, lose, List.countP_erase, hq.symm]
  ending _ _ := rfl
  unlinking _ _ := Iff.rfl
  htable _ _ := Iff.rfl
  nodup := id
  num := by simp [lose, modify]
  zombie := by simp [lose, modify]

theorem elsewhere_pend (s : Rpool) {l : List (ℕ × Pend)}
    (hc : ∀ q, q ≠ p → l.countP (·.2.fid = q) = s.ending q)
    (hu : ∀ q, q ≠ p → ∀ t, (t, .unlink q) ∈ l ↔ (t, .unlink q) ∈ s.pend) :
    Elsewhere p s { s with pend := l } where
  next := rfl
  fids _ _ := rfl
  refs _ _ := rfl
  ending := hc
  unlinking q hq := exists_congr (hu q hq)
  htable _ _ := Iff.rfl
  nodup := id
  num := rfl
  zombie := id

/-- A thread gets something to do. -/
theorem elsewhere_begin (s : Rpool) (t : ℕ) (a : Pend) :
    Elsewhere a.fid s { s with pend := (t, a) :: s.pend } :=
  elsewhere_pend s (fun q hq => by simp [ending, hq.symm]) fun q hq t' => by
    have hne : Pend.unlink q ≠ a := fun ha => hq (ha ▸ rfl)
    simp [hne]

/-- The thread that begins with the end of a fid is the only one. -/
theorem ends_begin {a : Pend} (hd : (s.fids a.fid).destroyed = 0) (he : s.ending a.fid = 0)
    (hr : s.refs a.fid = 0) (t : ℕ) :
    (s.fids a.fid).destroyed + ({ s with pend := (t, a) :: s.pend } : Rpool).ending a.fid =
      if s.refs a.fid = 0 then 1 else 0 := by
  have hone : ({ s with pend := (t, a) :: s.pend } : Rpool).ending a.fid = s.ending a.fid + 1 := by
    simp [ending]
  rw [hone, he, hd, if_pos hr]

theorem elsewhere_unlinkFid (hp : p ∈ s.htable) :
    Elsewhere p s { s with htable := s.unlinkFid p } where
  next := rfl
  fids _ _ := rfl
  refs _ _ := rfl
  ending _ _ := rfl
  unlinking _ _ := Iff.rfl
  htable q hq := by simp [unlinkFid, hp, List.mem_erase_of_ne hq]
  nodup hn := by
    rw [unlinkFid, if_pos hp]
    exact hn.erase p
  num := rfl
  zombie := id

theorem elsewhere_modify (s : Rpool) {g : Rfid → Rfid} (hn : (g (s.fids p)).num = (s.fids p).num)
    (hz : (g (s.fids p)).zombie = false → (s.fids p).zombie = false) :
    Elsewhere p s (s.modify p g) where
  next := rfl
  fids _ hq := Function.update_of_ne hq ..
  refs _ _ := rfl
  ending _ _ := rfl
  unlinking _ _ := Iff.rfl
  htable _ _ := Iff.rfl
  nodup := id
  num := by simpa [modify] using hn
  zombie := by simpa [modify] using hz

theorem refs_gain (s : Rpool) (t p : ℕ) : (s.gain t p).refs p = s.refs p + 1 := by
  simp [refs, gain]

theorem refs_lose (h : (t, p) ∈ s.held) : (s.lose t p).refs p + 1 = s.refs p := by
  have hpos : 0 < s.refs p := List.countP_pos_iff.mpr ⟨_, h, by simp⟩
  have hlose : (s.lose t p).refs p = s.refs p - 1 := by
    simp [refs, lose, List.countP_erase, h]
  omega

theorem refs_pos (h : (t, p) ∈ s.held) : 0 < s.refs p := by
  have := refs_lose h
  omega

theorem refcount_gain (s : Rpool) (t p : ℕ) :
    ((s.gain t p).fids p).refcount = (s.fids p).refcount + 1 := by
  simp [gain, modify]

theorem refcount_lose (s : Rpool) (t p : ℕ) :
    ((s.lose t p).fids p).refcount = (s.fids p).refcount - 1 := by
  simp [lose, modify]

theorem ending_pos (h : (t, a) ∈ s.pend) : 0 < s.ending a.fid :=
  List.countP_pos_iff.mpr ⟨_, h, by simp⟩

namespace Sound

variable (h : Sound s)

include h

theorem lt_of_refs (hp : 0 < s.refs p) : p < s.next := by
  by_contra hn
  have := (h.fresh p (Nat.le_of_not_lt hn)).1
  omega

theorem lt_of_ending (hp : 0 < s.ending p) : p < s.next := by
  by_contra hn
  have := (h.fresh p (Nat.le_of_not_lt hn)).2
  omega

/-- A fid with references has not ended, and no thread is about to end it. -/
theorem live (hp : 0 < s.refs p) :
    (s.fids p).destroyed = 0 ∧ s.ending p = 0 ∧ p ∈ s.htable ∧ ¬s.Unlinking p := by
  have he := h.ends p (h.lt_of_refs hp)
  rw [if_neg (by omega)] at he
  refine ⟨by omega, by omega, (h.linked p).mpr ⟨h.lt_of_refs hp, .inl hp⟩, ?_⟩
  rintro ⟨t, ht⟩
  have := ending_pos ht
  simp only [Pend.fid_unlink] at this
  omega

/-- A fid that a thread is about to end has no references, and no other thread is. -/
theorem last (hp : 0 < s.ending p) :
    (s.fids p).destroyed = 0 ∧ s.ending p = 1 ∧ s.refs p = 0 := by
  have he := h.ends p (h.lt_of_ending hp)
  split at he <;> omega

theorem optimizeFid (hp : p ∈ s.htable) : Sound (s.optimizeFid p) := by
  have hlt := ((h.linked p).mp hp).1
  refine h.of_elsewhere (elsewhere_optimizeFid s p) hlt (h.count p) (h.ends p hlt) ?_ fun _ => hp
  exact iff_of_true List.mem_cons_self ((h.linked p).mp hp).2

theorem gain (hp : 0 < s.refs p) : Sound (s.gain t p) := by
  obtain ⟨hd, he, hin, -⟩ := h.live hp
  have hrefs := refs_gain s t p
  refine h.of_elsewhere (elsewhere_gain s t p) (h.lt_of_refs hp) ?_ ?_ ?_ fun _ => hin
  · rw [refcount_gain, h.count p, hrefs]
    rfl
  · rw [if_neg (by omega)]
    simpa [Rpool.gain, modify] using ⟨hd, he⟩
  · exact iff_of_true hin (.inl (by omega))

/-- The count stays right when a reference is dropped. -/
theorem count_lose (hp : (t, p) ∈ s.held) :
    ((s.lose t p).fids p).refcount = (s.lose t p).refs p := by
  have hrefs := refs_lose hp
  rw [refcount_lose, h.count p, ← hrefs]
  omega

/-- A reference that is not the last. -/
theorem lose (hp : (t, p) ∈ s.held) (hz : ((s.lose t p).fids p).refcount ≠ 0) :
    Sound (s.lose t p) := by
  obtain ⟨hd, he, hin, -⟩ := h.live (refs_pos hp)
  have hcount := h.count_lose hp
  have hrefs : (s.lose t p).refs p ≠ 0 := by omega
  refine h.of_elsewhere (elsewhere_lose s t p) (h.lt_of_refs (refs_pos hp)) hcount ?_ ?_
    fun _ => hin
  · rw [if_neg hrefs]
    simpa [Rpool.lose, modify] using ⟨hd, he⟩
  · exact iff_of_true hin (.inl (by omega))

/-- The decrement, and what the thread that reaches zero has to do from then on. -/
theorem decref (hp : (t, p) ∈ s.held) : Sound (s.decref t p) := by
  rw [Rpool.decref]
  split
  · rename_i hz
    obtain ⟨hd, he, hin, -⟩ := h.live (refs_pos hp)
    have hcount := h.count_lose hp
    have hstep := (elsewhere_lose s t p).trans (elsewhere_begin (s.lose t p) t (.unlink p))
    refine h.of_elsewhere hstep (h.lt_of_refs (refs_pos hp)) hcount ?_ ?_ fun _ => hin
    · have hd' : ((s.lose t p).fids p).destroyed = 0 := by simpa [Rpool.lose, modify] using hd
      exact ends_begin (a := .unlink p) hd' he (by simp only [Pend.fid_unlink]; omega) t
    · exact iff_of_true hin (.inr ⟨t, List.mem_cons_self⟩)
  · rename_i hz
    exact h.lose hp hz

/-- By number, unlinking comes with the decrement. -/
theorem decrefBynum (hp : (t, p) ∈ s.held) : Sound (s.decrefBynum t p) := by
  have h' : Sound (s.optimizeFid p) := h.optimizeFid (h.live (refs_pos hp)).2.2.1
  rw [Rpool.decrefBynum]
  -- the order in the bucket does not matter from here on
  generalize hs₁ : s.optimizeFid p = s₁ at h' ⊢
  have hp₁ : (t, p) ∈ s₁.held := by rw [← hs₁]; exact hp
  split
  · rename_i hz
    obtain ⟨hd, he, hin, hu⟩ := h'.live (refs_pos hp₁)
    have hcount := h'.count_lose hp₁
    have hrefs : (s₁.lose t p).refs p = 0 := by omega
    have hmem : p ∈ (s₁.lose t p).htable := hin
    have hstep := ((elsewhere_lose s₁ t p).trans (elsewhere_unlinkFid hmem)).trans
      (elsewhere_begin _ t (.destroy p))
    refine h'.of_elsewhere hstep (h'.lt_of_refs (refs_pos hp₁)) hcount ?_ ?_ fun _ => hin
    · have hd' : ((s₁.lose t p).fids p).destroyed = 0 := by simpa [Rpool.lose, modify] using hd
      exact ends_begin (s := { s₁.lose t p with htable := (s₁.lose t p).unlinkFid p })
        (a := .destroy p) hd' he hrefs t
    · refine iff_of_false ?_ ?_
      · change p ∉ (s₁.lose t p).unlinkFid p
        rw [unlinkFid, if_pos hmem]
        exact h'.nodup.not_mem_erase
      · rintro (hpos | ⟨t', ht⟩)
        · exact absurd hrefs (Nat.ne_of_gt hpos)
        · exact hu ⟨t', by simpa [Rpool.lose, modify] using ht⟩
  · rename_i hz
    exact h'.lose hp₁ hz

/-- The second lock of `np_fid_decref`. -/
theorem unlink (hp : (t, .unlink p) ∈ s.pend) :
    Sound { s with
      htable := s.unlinkFid p
      pend := (t, .destroy p) :: s.pend.erase (t, .unlink p) } := by
  obtain ⟨hd, he, hr⟩ := h.last (ending_pos hp)
  simp only [Pend.fid_unlink] at hd he hr
  have hlt := h.lt_of_ending (ending_pos hp)
  have hin : p ∈ s.htable := (h.linked p).mpr ⟨hlt, .inr ⟨t, hp⟩⟩
  have hnone : (s.pend.erase (t, .unlink p)).countP (·.2.fid = p) = 0 := by
    rw [List.countP_erase, if_pos ⟨hp, by simp⟩]
    exact congrArg (· - 1) he
  have hpend := elsewhere_pend (p := p) { s with htable := s.unlinkFid p }
    (l := (t, .destroy p) :: s.pend.erase (t, .unlink p))
    (fun q hq => by simp [ending, hq.symm, List.countP_erase])
    (fun q hq t' => by simp [hq])
  refine h.of_elsewhere ((elsewhere_unlinkFid hin).trans hpend) hlt (h.count p) ?_ ?_ fun _ => hin
  · refine Eq.trans ?_ (if_pos hr).symm
    rw [show (s.fids p).destroyed = 0 from hd]
    rw [ending, List.countP_cons_of_pos (by simp), hnone]
  · refine iff_of_false ?_ ?_
    · change p ∉ s.unlinkFid p
      rw [unlinkFid, if_pos hin]
      exact h.nodup.not_mem_erase
    · rintro (hpos | ⟨t', ht⟩)
      · exact absurd hr (Nat.ne_of_gt hpos)
      · have ht' : (t', Pend.unlink p) ∈ s.pend.erase (t, .unlink p) := by simpa using ht
        exact absurd hnone (Nat.ne_of_gt (List.countP_pos_iff.mpr ⟨_, ht', by simp⟩))

/-- `_destroy_fid` -/
theorem destroy (hp : (t, .destroy p) ∈ s.pend) :
    Sound { s.modify p fun f => { f with destroyed := f.destroyed + 1 } with
      pend := s.pend.erase (t, .destroy p) } := by
  obtain ⟨hd, he, hr⟩ := h.last (ending_pos hp)
  simp only [Pend.fid_destroy] at hd he hr
  have hlt := h.lt_of_ending (ending_pos hp)
  have hmod := elsewhere_modify (p := p) s (g := fun f => { f with destroyed := f.destroyed + 1 })
    rfl id
  have hpend := elsewhere_pend (p := p)
    (s.modify p fun f => { f with destroyed := f.destroyed + 1 })
    (l := s.pend.erase (t, .destroy p))
    (fun q hq => by simp [ending, modify, hq.symm, List.countP_erase])
    (fun q hq t' => by simp [modify, List.mem_erase_of_ne])
  have hsame : ∀ t', (t', Pend.unlink p) ∈ s.pend.erase (t, .destroy p) ↔
      (t', .unlink p) ∈ s.pend := fun t' => by simp [List.mem_erase_of_ne]
  refine h.of_elsewhere (hmod.trans hpend) hlt ?_ ?_ ?_ id
  · simpa [modify, refs] using h.count p
  · refine Eq.trans ?_ (if_pos hr).symm
    have hnone : (s.pend.erase (t, .destroy p)).countP (·.2.fid = p) = 0 := by
      rw [List.countP_erase, if_pos ⟨hp, by simp⟩]
      exact congrArg (· - 1) he
    simp [ending, modify, hd, hnone]
  · exact ((h.linked p).trans (and_iff_right hlt)).trans
      (or_congr_right (exists_congr fun t' => (hsame t').symm))

/-- `np_fid_create` makes a zombie of the fid that is in its way. -/
theorem zombify (hp : p ∈ s.htable) : Sound (s.modify p fun f => { f with zombie := true }) := by
  have hlt := ((h.linked p).mp hp).1
  refine h.of_elsewhere (elsewhere_modify s rfl (by simp)) hlt ?_ ?_ ?_ id
  · simpa [modify, refs] using h.count p
  · rw [fids_modify]
    exact h.ends p hlt
  · exact (h.linked p).trans (and_iff_right hlt)

/-- A new fid, where no other stands for its number. -/
theorem link {num : UInt32} (hn : ∀ q ∈ s.htable, (s.fids q).num = num → (s.fids q).zombie = true) :
    Sound (s.link t num) := by
  have hold : ∀ q ∈ s.htable, q ≠ s.next := fun q hq =>
    Nat.ne_of_lt ((h.linked q).mp hq).1
  have hrefs : ∀ q, q ≠ s.next → (s.link t num).refs q = s.refs q := fun q hq => by
    simp [refs, Rpool.link, hq.symm]
  have hnew : (s.link t num).refs s.next = 1 := by
    have := (h.fresh s.next (Nat.le_refl _)).1
    simp only [refs] at this
    simp [refs, Rpool.link, this]
  have hfids : ∀ q, q ≠ s.next → (s.link t num).fids q = s.fids q := fun q hq =>
    Function.update_of_ne hq ..
  have hfid : (s.link t num).fids s.next = { num, refcount := 1 } := Function.update_self ..
  constructor
  · intro q
    by_cases hq : q = s.next
    · rw [hq, hfid, hnew]
      rfl
    · rw [hfids q hq, hrefs q hq, h.count q]
  · intro q hlt
    by_cases hq : q = s.next
    · rw [hq, hfid, hnew]
      exact (Nat.zero_add _).trans (h.fresh s.next (Nat.le_refl _)).2
    · rw [hfids q hq, hrefs q hq]
      exact h.ends q (Nat.lt_of_le_of_ne (Nat.le_of_lt_succ hlt) hq)
  · intro q
    by_cases hq : q = s.next
    · rw [hq, hnew]
      exact iff_of_true List.mem_cons_self ⟨Nat.lt_succ_self _, .inl Nat.one_pos⟩
    · rw [hrefs q hq]
      refine (List.mem_cons.trans (or_iff_right hq)).trans ((h.linked q).trans ?_)
      exact and_congr_left' ⟨Nat.lt_succ_of_lt, fun hlt =>
        Nat.lt_of_le_of_ne (Nat.le_of_lt_succ hlt) hq⟩
  · exact List.nodup_cons.mpr ⟨fun hin => hold _ hin rfl, h.nodup⟩
  · intro p hp q hq zp zq hnum
    rcases List.mem_cons.mp hp with rfl | hp <;> rcases List.mem_cons.mp hq with rfl | hq
    · rfl
    · rw [hfids q (hold q hq)] at zq hnum
      rw [hfid] at hnum
      exact absurd (hn q hq hnum.symm) (by simp [zq])
    · rw [hfids p (hold p hp)] at zp hnum
      rw [hfid] at hnum
      exact absurd (hn p hp hnum) (by simp [zp])
    · rw [hfids p (hold p hp)] at zp hnum
      rw [hfids q (hold q hq)] at zq hnum
      exact h.single p hp q hq zp zq hnum
  · intro q hle
    have hq : q ≠ s.next := by
      rintro rfl
      exact absurd hle (Nat.not_succ_le_self _)
    rw [hrefs q hq]
    exact h.fresh q (Nat.le_of_succ_le hle)

end Sound

variable {num : UInt32}

theorem mem_of_lookupFid (h : s.lookupFid num = some p) :
    p ∈ s.htable ∧ (s.fids p).num = num ∧ (s.fids p).zombie = false :=
  ⟨List.mem_of_find?_eq_some h, by simpa using List.find?_some h⟩

theorem zombie_of_lookupFid (h : s.lookupFid num = none) :
    ∀ q ∈ s.htable, (s.fids q).num = num → (s.fids q).zombie = true := by
  intro q hq hn
  simpa [hn] using List.find?_eq_none.mp h q hq

/-- `np_fid_create`, whatever it finds. -/
theorem Sound.create (h : Sound s) (loose : Bool) (t : ℕ) (num : UInt32) (mem : Bool) :
    Sound (s.create loose t num mem) := by
  rw [Rpool.create]
  rcases hl : s.lookupFid num with _ | p
  · rcases mem with _ | _
    · exact h
    · exact h.link (zombie_of_lookupFid hl)
  · obtain ⟨hin, hnum, hz⟩ := mem_of_lookupFid hl
    have ho := h.optimizeFid hin
    have hin' : p ∈ (s.optimizeFid p).htable := List.mem_cons_self
    rcases loose with _ | _
    · exact ho
    · rcases mem with _ | _
      · exact ho.zombify hin'
      · -- the fid that was found was the only one, and is a zombie now
        refine (ho.zombify hin').link fun q hq hn => ?_
        by_cases hqp : q = p
        · simp [hqp, modify]
        · simp only [modify, Function.update_of_ne hqp] at hn ⊢
          by_contra hzq
          exact hqp (ho.single q hq p hin' (by simpa using hzq) hz (hn.trans hnum.symm))

/-! ### Whole runs -/

/-- **No thread asks for a number while another one ends its fid.** -/
def Quiet (s : Rpool) : ℕ × Rstep → Prop
  | (_, .find num) =>
    ∀ p, s.Unlinking p → (s.fids p).num = num → (s.fids p).zombie = true
  | _ => True

/-- What is found then has references, and at any other time it does not. -/
theorem Sound.quiet_find_iff (h : Sound s) (t : ℕ) (num : UInt32) :
    s.Quiet (t, .find num) ↔ ∀ p, s.lookupFid num = some p → 0 < (s.fids p).refcount := by
  constructor
  · intro hq p hp
    obtain ⟨hin, hnum, hz⟩ := mem_of_lookupFid hp
    rcases ((h.linked p).mp hin).2 with hr | hu
    · rw [h.count p]
      exact Int.natCast_pos.mpr hr
    · rw [hq p hu hnum] at hz
      cases hz
  · rintro hf p ⟨t', hu⟩ hnum
    by_contra hz
    rw [Bool.not_eq_true] at hz
    have hlt := h.lt_of_ending (ending_pos hu)
    have hin : p ∈ s.htable := (h.linked p).mpr ⟨hlt, .inr ⟨t', hu⟩⟩
    rcases hl : s.lookupFid num with _ | q
    · rw [zombie_of_lookupFid hl p hin hnum] at hz
      cases hz
    · obtain ⟨hin', hnum', hz'⟩ := mem_of_lookupFid hl
      obtain rfl := h.single q hin' p hin hz' hz (hnum'.trans hnum.symm)
      have hpos := hf q hl
      have hzero := (h.last (ending_pos hu)).2.2
      rw [Pend.fid_unlink] at hzero
      rw [h.count q, hzero] at hpos
      exact absurd hpos (Int.lt_irrefl _)

theorem sound_empty : Sound {} where
  count _ := rfl
  ends p hp := absurd hp (Nat.not_lt_zero p)
  linked p := iff_of_false List.not_mem_nil fun h => absurd h.1 (Nat.not_lt_zero p)
  nodup := List.nodup_nil
  single _ hp := absurd hp List.not_mem_nil
  fresh _ _ := ⟨rfl, rfl⟩

/-- **A step keeps the pool sound.** -/
theorem Sound.step {loose : Bool} {a : ℕ × Rstep} (h : Sound s) (hq : s.Quiet a)
    (hs : s.step loose a = some s') : Sound s' := by
  obtain ⟨t, a⟩ := a
  cases a with
  | find num =>
    obtain ⟨-, rfl⟩ := of_guard hs
    rw [Rpool.find]
    split
    · exact h
    · rename_i p hp
      have hpos := (h.quiet_find_iff t num).mp hq p hp
      rw [h.count p] at hpos
      exact (h.optimizeFid (mem_of_lookupFid hp).1).gain (Int.natCast_pos.mp hpos)
  | create num mem =>
    obtain ⟨-, rfl⟩ := of_guard hs
    exact h.create loose t num mem
  | incref p =>
    obtain ⟨⟨-, hp⟩, rfl⟩ := of_guard hs
    exact h.gain (refs_pos hp)
  | decref p =>
    obtain ⟨⟨-, hp⟩, rfl⟩ := of_guard hs
    exact h.decref hp
  | decrefBynum num =>
    obtain ⟨-, hs⟩ := Option.ite_none_right_eq_some.mp hs
    split at hs
    · cases hs
      exact h
    · obtain ⟨hp, rfl⟩ := of_guard hs
      exact h.decrefBynum hp
  | unlink p =>
    obtain ⟨hp, rfl⟩ := of_guard hs
    exact h.unlink hp
  | destroy p =>
    obtain ⟨hp, rfl⟩ := of_guard hs
    exact h.destroy hp

end Rpool

/-- **Without a thread that asks for a number at the wrong moment, every fid is destroyed
once.** In every state of such a run, what `np_fid_find` returns has references exactly
if it is not asked at such a moment; no fid has been destroyed twice, or while a thread
holds a reference on it; and one that no thread has anything to do with any more has been
destroyed. -/
theorem fid_destroyed_once {loose : Bool} {s : Rpool}
    (h : Reaches (Rpool.step loose) Rpool.Quiet {} s) :
    (∀ t num, s.Quiet (t, .find num) ↔
        ∀ p, s.lookupFid num = some p → 0 < (s.fids p).refcount) ∧
      ∀ p < s.next, (s.fids p).destroyed ≤ 1 ∧
        ((s.fids p).destroyed = 1 → ∀ t, (t, p) ∉ s.held) ∧
        ((∀ t, (t, p) ∉ s.held) → (∀ x ∈ s.pend, x.2.fid ≠ p) → (s.fids p).destroyed = 1) := by
  have hs : s.Sound := h.invariant Rpool.sound_empty fun _ _ _ hI hq hstep => hI.step hq hstep
  refine ⟨hs.quiet_find_iff, fun p hp => ?_⟩
  have he := hs.ends p hp
  refine ⟨?_, ?_, ?_⟩
  · split at he <;> omega
  · intro hd t ht
    have := (hs.live (Rpool.refs_pos ht)).1
    omega
  · intro hheld hpend
    have hr : s.refs p = 0 := List.countP_eq_zero.mpr fun x hx hxp => by
      obtain ⟨t, q⟩ := x
      obtain rfl : q = p := by simpa using hxp
      exact hheld t hx
    have hn : s.ending p = 0 := List.countP_eq_zero.mpr fun x hx hxp =>
      hpend x hx (by simpa using hxp)
    rw [if_pos hr] at he
    omega

/-- A fid with two references. -/
theorem fid_destroyed_once_two_refs : ∃ s : Rpool,
    Reaches (Rpool.step false) Rpool.Quiet {} s ∧ s.next = 1 ∧ (s.fids 0).destroyed = 1 := by
  have hrun : (runSteps (Rpool.step false) {} [(0, .create 1 true), (0, .incref 0),
      (0, .decref 0), (0, .decref 0), (0, .unlink 0), (0, .destroy 0)]).map
        (fun s => (s.next, s.held, s.pend)) = some (1, [], []) := by decide +kernel
  obtain ⟨s, hs, he⟩ := Option.map_eq_some_iff.mp hrun
  simp only [Prod.mk.injEq] at he
  obtain ⟨hn, hh, hp⟩ := he
  have hr : Reaches (Rpool.step false) Rpool.Quiet {} s :=
    reaches_of_forall (by simp [Rpool.Quiet]) hs
  refine ⟨s, hr, hn, ((fid_destroyed_once hr).2 0 (by omega)).2.2 ?_ ?_⟩
  · simp [hh]
  · simp [hp]

/-- **A lookup between the decrement to zero and the unlinking.** Thread 1 finds the fid
whose last reference thread 0 has just dropped. Thread 0 destroys it, and thread 1, which
holds a reference, destroys it again. -/
theorem find_revives : ∃ s s' s'' : Rpool,
    Reaches (Rpool.step false) (fun _ _ => True) {} s ∧
      s.lookupFid 1 = some 0 ∧ (s.fids 0).refcount = 0 ∧
      Rpool.step false s (1, .find 1) = some s' ∧ (1, 0) ∈ s'.held ∧
      Reaches (Rpool.step false) (fun _ _ => True) s' s'' ∧ (s''.fids 0).destroyed = 2 := by
  have hrun : ((runSteps (Rpool.step false) {} [(0, .create 1 true), (0, .decref 0)]).bind fun s =>
      (Rpool.step false s (1, .find 1)).bind fun s' =>
      (runSteps (Rpool.step false) s' [(0, .unlink 0), (0, .destroy 0), (1, .decref 0),
        (1, .unlink 0), (1, .destroy 0)]).map fun s'' =>
      (s.lookupFid 1, (s.fids 0).refcount, s'.held, (s''.fids 0).destroyed)) =
      some (some 0, 0, [(1, 0)], 2) := by decide +kernel
  obtain ⟨s, hs, hrun⟩ := Option.bind_eq_some_iff.mp hrun
  obtain ⟨s', hs', hrun⟩ := Option.bind_eq_some_iff.mp hrun
  obtain ⟨s'', hs'', he⟩ := Option.map_eq_some_iff.mp hrun
  simp only [Prod.mk.injEq] at he
  obtain ⟨hl, hc, hh, hd⟩ := he
  exact ⟨s, s', s'', reaches_of_forall (fun _ _ _ => trivial) hs, hl, hc, hs',
    hh ▸ List.mem_cons_self, reaches_of_forall (fun _ _ _ => trivial) hs'', hd⟩

end Diod
