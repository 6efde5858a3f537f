import Mathlib.Data.Nat.Bitwise
import Mathlib.Data.List.GetD
import Mathlib.Tactic.IntervalCases

/-!
# Maps of bits

A set of numbers may be kept as a list of bytes, with one bit for each number. What can be
done to such a map is said here by its bits (`Diod.bit`) only: zeros behind its end add
nothing, a byte may have a bit set or cleared, and the lowest number that is not in the map
is found by looking for the first byte that is not full.

How the lowest clear bit of a byte is found is left open. A program may have a table for it,
and all that has to be known of the table is `Diod.LowClear`.
-/

namespace Diod

/-- **The bit with a number.** Behind the end of the map no bit is set. -/
def bit (m : List UInt8) (k : ℕ) : Bool := (m.getD (k / 8) 0).toNat.testBit (k % 8)

/-! ### Bits of a byte -/

variable {r k : ℕ}

theorem testBit_setBit (b : UInt8) (hr : r < 8) :
    (b ||| (1 <<< UInt8.ofNat r)).toNat.testBit k = (b.toNat.testBit k || decide (r = k)) := by
  rw [UInt8.toNat_or, Nat.testBit_or]
  congr 1
  have : ((1 : UInt8) <<< UInt8.ofNat r).toNat = 2 ^ r := by
    interval_cases r <;> rfl
  rw [this, Nat.testBit_two_pow]

theorem testBit_clearBit (b : UInt8) (hr : r < 8) (hk : k < 8) :
    (b &&& ~~~(1 <<< UInt8.ofNat r)).toNat.testBit k = (b.toNat.testBit k && decide (r ≠ k)) := by
  rw [UInt8.toNat_and, Nat.testBit_and]
  congr 1
  interval_cases r <;> interval_cases k <;> rfl

theorem testBit_full (hk : k < 8) : (255 : UInt8).toNat.testBit k = true := by
  interval_cases k <;> rfl

/-! ### Maps -/

variable {m : List UInt8}

theorem getD_zeros (n i : ℕ) : (List.replicate n (0 : UInt8)).getD i 0 = 0 := by
  simp only [List.getD_eq_getElem?_getD, List.getElem?_replicate]
  split <;> rfl

theorem getD_append_zeros (l : List UInt8) (k i : ℕ) :
    (l ++ List.replicate k 0).getD i 0 = l.getD i 0 := by
  by_cases h : i < l.length
  · rw [List.getD_append _ _ _ _ h]
  · rw [List.getD_append_right _ _ _ _ (not_lt.mp h), List.getD_eq_default _ _ (not_lt.mp h),
      getD_zeros]

theorem bit_zeros (n k : ℕ) : bit (List.replicate n 0) k = false := by
  rw [bit, getD_zeros]
  exact Nat.zero_testBit _

theorem bit_append_zeros (m : List UInt8) (n k : ℕ) :
    bit (m ++ List.replicate n 0) k = bit m k := by
  rw [bit, bit, getD_append_zeros]

theorem lt_of_bit (h : bit m k = true) : k < 8 * m.length := by
  by_contra hk
  rw [bit, List.getD_eq_default _ _ (by omega)] at h
  rw [show (0 : UInt8).toNat = 0 from rfl, Nat.zero_testBit] at h
  exact Bool.false_ne_true h

/-- One byte has changed. -/
theorem bit_of_byte {m' : List UInt8} {i : ℕ} {b : UInt8}
    (h : ∀ j, m'.getD j 0 = if j = i then b else m.getD j 0) (k : ℕ) :
    bit m' k = if k / 8 = i then b.toNat.testBit (k % 8) else bit m k := by
  rw [bit, h]
  split <;> rfl

/-- A bit that is set. -/
theorem bit_set {i : ℕ} (hi : i < m.length) (hr : r < 8) (k : ℕ) :
    bit (m.set i (m.getD i 0 ||| (1 <<< UInt8.ofNat r))) k =
      (bit m k || decide (k = r + i * 8)) := by
  rw [bit_of_byte (m := m) (i := i) (b := m.getD i 0 ||| (1 <<< UInt8.ofNat r))]
  · split
    · rename_i hk
      rw [testBit_setBit _ hr, bit, hk]
      congr 1
      rw [decide_eq_decide]
      omega
    · have hne : k ≠ r + i * 8 := by omega
      simp [hne]
  · intro j
    simp only [List.getD_eq_getElem?_getD, List.getElem?_set]
    by_cases hj : j = i
    · simp [hj, hi]
    · simp [hj, Ne.symm hj]

/-- A bit that is cleared. -/
theorem bit_clear (m : List UInt8) (n k : ℕ) :
    bit (m.modify (n / 8) (· &&& ~~~(1 <<< UInt8.ofNat (n % 8)))) k =
      (bit m k && decide (k ≠ n)) := by
  rw [bit_of_byte (m := m) (i := n / 8)
    (b := m.getD (n / 8) 0 &&& ~~~(1 <<< UInt8.ofNat (n % 8)))]
  · split
    · rename_i hk
      rw [testBit_clearBit _ (Nat.mod_lt _ (by decide)) (Nat.mod_lt _ (by decide)), bit, hk]
      congr 1
      rw [decide_eq_decide]
      omega
    · have hne : k ≠ n := by
        rintro rfl
        exact absurd rfl ‹_›
      simp [hne]
  · intro j
    simp only [List.getD_eq_getElem?_getD, List.getElem?_modify]
    by_cases hj : n / 8 = j
    · subst hj
      rcases m[n / 8]? with _ | b <;> simp
    · rcases m[j]? with _ | b <;> simp [hj, Ne.symm hj]

/-! ### The lowest number that is free -/

/-- The first byte with a bit that is not set. -/
def firstFree (m : List UInt8) : ℕ := m.findIdx (· ≠ 0xff)

/-- **A table of lowest clear bits.** -/
def LowClear (low : ℕ → ℕ) : Prop :=
  ∀ b < 255, low b < 8 ∧ b.testBit (low b) = false ∧ ∀ j < low b, b.testBit j = true

/-- The bytes in front of it are full. -/
theorem bit_of_lt_firstFree (h : k / 8 < firstFree m) : bit m k = true := by
  have hlt : k / 8 < m.length := lt_of_lt_of_le h List.findIdx_le_length
  have hfull : m[k / 8] = 255 := by simpa using List.not_of_lt_findIdx h
  rw [bit, List.getD_eq_getElem _ _ hlt, hfull]
  exact testBit_full (Nat.mod_lt _ (by decide))

/-- A map without such a byte is full. -/
theorem bit_of_full (h : m.length ≤ firstFree m) (hk : k < 8 * m.length) : bit m k = true :=
  bit_of_lt_firstFree (by omega)

/-- A map with a number that is free has such a byte. -/
theorem firstFree_le (h : bit m k = false) : firstFree m ≤ k / 8 := by
  by_contra hlt
  rw [bit_of_lt_firstFree (not_le.mp hlt)] at h
  exact Bool.noConfusion h

variable {low : ℕ → ℕ}

/-- **The lowest number that is free**: it is free, and all below it are not. -/
theorem lowClear_firstFree (hlow : LowClear low) (h : firstFree m < m.length) :
    low (m.getD (firstFree m) 0).toNat < 8 ∧
      bit m (low (m.getD (firstFree m) 0).toNat + firstFree m * 8) = false ∧
      ∀ k < low (m.getD (firstFree m) 0).toNat + firstFree m * 8, bit m k = true := by
  have hfree : m.getD (firstFree m) 0 ≠ 255 := by
    have hfind : decide (m[firstFree m] ≠ 255) = true := List.findIdx_getElem (w := h)
    rw [List.getD_eq_getElem _ _ h]
    simpa using hfind
  have hlt : (m.getD (firstFree m) 0).toNat < 255 := by
    have hne : (m.getD (firstFree m) 0).toNat ≠ 255 := fun hc => hfree (UInt8.toNat_inj.mp hc)
    have := (m.getD (firstFree m) 0).toNat_lt
    omega
  obtain ⟨h8, hclear, hbelow⟩ := hlow _ hlt
  refine ⟨h8, ?_, ?_⟩
  · rw [bit, show (low _ + firstFree m * 8) / 8 = firstFree m by omega,
      show (low _ + firstFree m * 8) % 8 = low (m.getD (firstFree m) 0).toNat by omega]
    exact hclear
  · intro k hk
    -- either in a byte in front, or in the same byte below the bit
    rcases Nat.lt_or_ge (k / 8) (firstFree m) with hlt | hge
    · exact bit_of_lt_firstFree hlt
    · rw [bit, show k / 8 = firstFree m by omega]
      exact hbelow _ (by omega)

end Diod
