import Mathlib.Data.List.Nodup

/-!
# What has to be given back

A program gets hold of things that it has to give back: blocks of memory, descriptors. Each
is known by a number, its *handle*, and no number is used twice. A `Diod.Ledger` is what can
be said about them from outside: how many there have been, every time one was given back, and
whether one was used after that.

While a program runs it **owes** some of them (`Diod.Ledger.Owes`), and all others have been
given back exactly once. When it ends it should owe nothing (`Diod.Ledger.Settled`). A ledger
only grows, so what has been given back twice stays so (`Diod.Ledger.Grows.spoilt`).
-/

namespace Diod

/-- The handles below `next` have been in use. -/
structure Ledger where
  next : ℕ := 0
  /-- Each time a handle was given back, the last one first. -/
  released : List ℕ := []
  /-- A handle was used that had been given back. -/
  misused : Bool := false
deriving DecidableEq

namespace Ledger

/-- A new handle, which is `l.next`. -/
def acquire (l : Ledger) : Ledger := { l with next := l.next + 1 }

/-- Give a handle back, if there is one. -/
def release (l : Ledger) : Option ℕ → Ledger
  | none => l
  | some h => { l with released := h :: l.released }

/-- Use a handle. -/
def use (l : Ledger) (h : ℕ) : Ledger :=
  { l with misused := l.misused || decide (h ∈ l.released) }

/-- **What is owed**: these handles have not been given back, and all others exactly once. -/
structure Owes (l : Ledger) (hs : List ℕ) : Prop where
  nodup : hs.Nodup
  lt : ∀ h ∈ hs, h < l.next
  count : ∀ h, l.released.count h = if h < l.next ∧ h ∉ hs then 1 else 0
  fair : l.misused = false

/-- **Everything has been given back**, exactly once. -/
def Settled (l : Ledger) : Prop :=
  (∀ h < l.next, l.released.count h = 1) ∧ (∀ h ∈ l.released, h < l.next) ∧ l.misused = false

/-- Something has been given back twice. -/
def Spoilt (l : Ledger) : Prop := ∃ h, 2 ≤ l.released.count h

/-- Nothing is taken back. -/
def Grows (l l' : Ledger) : Prop := l.released <:+ l'.released ∧ l.next ≤ l'.next

variable {l l' l'' : Ledger} {hs : List ℕ} {h : ℕ}

/-! ### Handles that are owed -/

theorem owes_nil_iff : l.Owes [] ↔ l.Settled := by
  constructor
  · intro ho
    refine ⟨fun h hlt => by simpa [hlt] using ho.count h, fun h hmem => ?_, ho.fair⟩
    by_contra hlt
    have := ho.count h
    rw [if_neg fun hc => hlt hc.1, List.count_eq_zero] at this
    exact this hmem
  · rintro ⟨hone, hmem, hfair⟩
    refine ⟨List.nodup_nil, by simp, fun h => ?_, hfair⟩
    split
    · rename_i hlt
      exact hone h hlt.1
    · rename_i hlt
      rw [List.count_eq_zero]
      exact fun hc => hlt ⟨hmem h hc, List.not_mem_nil⟩

theorem settled_empty : ({} : Ledger).Settled := by
  refine ⟨fun h hlt => absurd hlt (Nat.not_lt_zero _), fun h hmem => ?_, rfl⟩
  exact absurd hmem List.not_mem_nil

theorem Owes.acquire (ho : l.Owes hs) : l.acquire.Owes (l.next :: hs) := by
  have hfresh : l.next ∉ hs := fun hc => Nat.lt_irrefl _ (ho.lt _ hc)
  refine ⟨List.nodup_cons.mpr ⟨hfresh, ho.nodup⟩, fun h hmem => ?_, fun h => ?_, ho.fair⟩
  · rcases List.mem_cons.mp hmem with rfl | hmem
    · exact Nat.lt_succ_self _
    · exact Nat.lt_succ_of_lt (ho.lt h hmem)
  · refine (ho.count h).trans ?_
    -- the new handle is owed, and the others are where they were
    have hiff : (h < l.next ∧ h ∉ hs) ↔ (h < l.next + 1 ∧ h ∉ l.next :: hs) := by
      rw [List.mem_cons, not_or]
      constructor
      · rintro ⟨hlt, hn⟩
        exact ⟨by omega, by omega, hn⟩
      · rintro ⟨hlt, hne, hn⟩
        exact ⟨by omega, hn⟩
    exact if_congr hiff rfl rfl

theorem Owes.release (ho : l.Owes (h :: hs)) : (l.release (some h)).Owes hs := by
  obtain ⟨hfresh, hnodup⟩ := List.nodup_cons.mp ho.nodup
  refine ⟨hnodup, fun k hk => ho.lt k (List.mem_cons_of_mem _ hk), fun k => ?_, ho.fair⟩
  have hcount := ho.count k
  change (h :: l.released).count k = if k < l.next ∧ k ∉ hs then 1 else 0
  rw [List.count_cons, hcount]
  rcases eq_or_ne h k with rfl | hne
  · have hlt := ho.lt h List.mem_cons_self
    simp [hlt, hfresh]
  · simp [hne, Ne.symm hne]

/-- The order in which handles are owed does not matter. -/
theorem Owes.swap {h' : ℕ} (ho : l.Owes (h :: h' :: hs)) : l.Owes (h' :: h :: hs) := by
  refine ⟨(List.Perm.swap h' h hs).nodup_iff.mp ho.nodup, fun k hk => ?_, fun k => ?_, ho.fair⟩
  · exact ho.lt k ((List.Perm.swap h' h hs).mem_iff.mpr hk)
  · rw [ho.count k]
    exact if_congr (by rw [(List.Perm.swap h' h hs).mem_iff]) rfl rfl

theorem Owes.use (ho : l.Owes hs) (hmem : h ∈ hs) : (l.use h).Owes hs := by
  refine ⟨ho.nodup, ho.lt, ho.count, ?_⟩
  have hzero := ho.count h
  rw [if_neg fun hc => hc.2 hmem, List.count_eq_zero] at hzero
  simp [Ledger.use, ho.fair, hzero]

theorem Spoilt.not_settled (hl : l.Spoilt) : ¬l.Settled := by
  obtain ⟨h, h2⟩ := hl
  rintro ⟨hone, hmem, -⟩
  have hpos : 0 < l.released.count h := by omega
  have := hone h (hmem h (List.count_pos_iff.mp hpos))
  omega

/-! ### Growing -/

theorem Grows.refl (l : Ledger) : l.Grows l := ⟨List.suffix_refl _, Nat.le_refl _⟩

theorem Grows.trans (h : l.Grows l') (h' : l'.Grows l'') : l.Grows l'' :=
  ⟨h.1.trans h'.1, Nat.le_trans h.2 h'.2⟩

theorem grows_acquire (l : Ledger) : l.Grows l.acquire := ⟨List.suffix_refl _, Nat.le_succ _⟩

theorem grows_use (l : Ledger) (h : ℕ) : l.Grows (l.use h) := Grows.refl l

theorem grows_release (l : Ledger) (o : Option ℕ) : l.Grows (l.release o) := by
  rcases o with _ | h
  · exact Grows.refl l
  · exact ⟨List.suffix_cons h _, Nat.le_refl _⟩

theorem Grows.spoilt (h : l.Grows l') (hl : l.Spoilt) : l'.Spoilt := by
  obtain ⟨k, hk⟩ := hl
  exact ⟨k, Nat.le_trans hk (h.1.sublist.count_le k)⟩

/-- A handle that was given back some time ago, and is again. -/
theorem Grows.spoilt_release (h' : l.Grows l') (hl : l.Settled) (hlt : h < l.next) :
    (l'.release (some h)).Spoilt := by
  refine ⟨h, ?_⟩
  have hcount := h'.1.sublist.count_le h
  rw [hl.1 h hlt] at hcount
  change 2 ≤ (h :: l'.released).count h
  rw [List.count_cons_self]
  omega

end Ledger

end Diod
