import Mathlib.Data.Nat.Count

/-!
# Counting below a bound

A reference count is right when it is the number of those who hold a reference. Here
these are the numbers below a bound with a property, and what matters is how the count
changes when one of them loses the property.
-/

namespace Diod

variable {p q : ℕ → Prop} [DecidablePred p] [DecidablePred q] {n i : ℕ}

theorem count_congr_lt (h : ∀ k < n, p k ↔ q k) : Nat.count p n = Nat.count q n :=
  le_antisymm (Nat.count_mono_left fun k hk => (h k hk).mp)
    (Nat.count_mono_left fun k hk => (h k hk).mpr)

/-- One number less. -/
theorem count_erase (hi : i < n) (hp : p i) (hq : ¬ q i) (h : ∀ k, k ≠ i → (q k ↔ p k)) :
    Nat.count q n + 1 = Nat.count p n := by
  induction n with
  | zero => exact absurd hi (Nat.not_lt_zero i)
  | succ n ih =>
    rw [Nat.count_succ, Nat.count_succ]
    rcases Nat.lt_or_eq_of_le (Nat.le_of_lt_succ hi) with hlt | rfl
    · rw [if_congr (h n (Nat.ne_of_gt hlt)) rfl rfl, Nat.add_right_comm, ih hlt]
    · rw [if_neg hq, if_pos hp, count_congr_lt fun k hk => h k (Nat.ne_of_lt hk)]

theorem count_pos_of_lt (hi : i < n) (hp : p i) : 0 < Nat.count p n :=
  lt_of_lt_of_le (Nat.succ_le_iff.mp (by rw [Nat.count_succ, if_pos hp]; exact Nat.le_add_left 1 _))
    (Nat.count_monotone p hi)

end Diod
