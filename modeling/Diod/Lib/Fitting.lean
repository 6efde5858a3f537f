import Mathlib.Order.Basic

/-!
# The longest prefix that fits

Records of different sizes are put one after another into a space of `n`, until one does
not fit. **What is put is the longest prefix of the list that fits as a whole**
(`Diod.le_length_fitting`): since sizes only add up, nothing is lost by deciding record
after record.
-/

namespace Diod

variable {α : Type} (size : α → ℕ)

/-- The size of a list of records. -/
def totalSize : List α → ℕ
  | [] => 0
  | a :: l => size a + totalSize l

/-- **The records that fit into `n`**, taken from the front until one does not. -/
def fitting : ℕ → List α → List α
  | _, [] => []
  | n, a :: l => if size a ≤ n then a :: fitting (n - size a) l else []

variable {size} {n k : ℕ} {a : α} {l : List α}

@[simp] theorem totalSize_nil : totalSize size [] = 0 := rfl

@[simp] theorem totalSize_cons : totalSize size (a :: l) = size a + totalSize size l := rfl

@[simp] theorem fitting_nil : fitting size n [] = [] := rfl

theorem fitting_cons_of_le (h : size a ≤ n) :
    fitting size n (a :: l) = a :: fitting size (n - size a) l := by
  rw [fitting, if_pos h]

theorem fitting_cons_of_lt (h : n < size a) : fitting size n (a :: l) = [] := by
  rw [fitting, if_neg (Nat.not_le.mpr h)]

theorem fitting_isPrefix (size : α → ℕ) (n : ℕ) (l : List α) : fitting size n l <+: l := by
  induction l generalizing n with
  | nil => exact List.prefix_rfl
  | cons a l ih =>
    rcases Nat.lt_or_ge n (size a) with h | h
    · rw [fitting_cons_of_lt h]
      exact List.nil_prefix
    · rw [fitting_cons_of_le h]
      exact List.cons_prefix_cons.mpr ⟨rfl, ih _⟩

/-- What is put fits as a whole. -/
theorem totalSize_fitting_le (size : α → ℕ) (n : ℕ) (l : List α) :
    totalSize size (fitting size n l) ≤ n := by
  induction l generalizing n with
  | nil => exact Nat.zero_le n
  | cons a l ih =>
    rcases Nat.lt_or_ge n (size a) with h | h
    · rw [fitting_cons_of_lt h]
      exact Nat.zero_le n
    · rw [fitting_cons_of_le h, totalSize_cons]
      have hl := ih (n - size a)
      omega

/-- **No longer prefix fits.** -/
theorem le_length_fitting (hk : k ≤ l.length) (h : totalSize size (l.take k) ≤ n) :
    k ≤ (fitting size n l).length := by
  induction l generalizing n k with
  | nil => exact hk
  | cons a l ih =>
    rcases k with _ | k
    · exact Nat.zero_le _
    · rw [List.take_succ_cons, totalSize_cons] at h
      rw [fitting_cons_of_le (by omega), List.length_cons]
      exact Nat.succ_le_succ (ih (Nat.le_of_succ_le_succ hk) (by omega))

end Diod
