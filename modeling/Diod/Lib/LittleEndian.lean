import Mathlib.Data.Nat.Bitwise
import Mathlib.Tactic.Ring

/-!
# Little-endian numbers

Reading and writing natural numbers as blocks of bytes, least significant byte
first. Nothing here knows about a protocol: `Diod.leBytes` writes the `w` low
bytes of a number, `Diod.leNat` reads a block back, and the two are inverse to
each other as far as they can be – a number survives the trip up to the width of
the block (`Diod.leNat_leBytes`), a block survives it exactly
(`Diod.leBytes_leNat`).

The last section connects the two with the shifts and masks a program computes
with: `Diod.or_shiftLeft_of_lt` is the one fact needed, that a bitwise *or* with
a number shifted past it is an addition.
-/

namespace Diod

/-- A block of bytes. -/
abbrev Bytes := List UInt8

/-! ### Blocks and numbers -/

/-- The `w` low bytes of `v`, least significant first. -/
def leBytes : ℕ → ℕ → Bytes
  | 0, _ => []
  | w + 1, v => UInt8.ofNat v :: leBytes w (v / 256)

/-- The number a block spells, least significant byte first. -/
def leNat : Bytes → ℕ
  | [] => 0
  | b :: bs => b.toNat + 256 * leNat bs

@[simp] theorem leNat_nil : leNat [] = 0 := rfl

theorem leNat_cons (b : UInt8) (bs : Bytes) : leNat (b :: bs) = b.toNat + 256 * leNat bs := rfl

@[simp] theorem length_leBytes (w v : ℕ) : (leBytes w v).length = w := by
  induction w generalizing v with
  | zero => rfl
  | succ w ih => simp [leBytes, ih]

theorem leNat_lt (bs : Bytes) : leNat bs < 256 ^ bs.length := by
  induction bs with
  | nil => simp
  | cons b bs ih =>
    have hb : b.toNat < 256 := b.toNat_lt
    rw [leNat_cons, List.length_cons, pow_succ]
    omega

/-- **A number survives the trip up to the width of the block.** -/
theorem leNat_leBytes (w v : ℕ) : leNat (leBytes w v) = v % 256 ^ w := by
  induction w generalizing v with
  | zero => simp [leBytes, Nat.mod_one]
  | succ w ih =>
    have hb : (UInt8.ofNat v).toNat = v % 256 := UInt8.toNat_ofNat'
    rw [leBytes, leNat_cons, ih, hb, pow_succ, Nat.mul_comm (256 ^ w), Nat.mod_mul]

theorem leNat_leBytes_of_lt {w v : ℕ} (h : v < 256 ^ w) : leNat (leBytes w v) = v := by
  rw [leNat_leBytes, Nat.mod_eq_of_lt h]

/-- **A block survives the trip exactly.** -/
theorem leBytes_leNat (bs : Bytes) : leBytes bs.length (leNat bs) = bs := by
  induction bs with
  | nil => rfl
  | cons b bs ih =>
    have hb : b.toNat < 256 := b.toNat_lt
    have hdiv : (b.toNat + 256 * leNat bs) / 256 = leNat bs := by omega
    have hmod : UInt8.ofNat (b.toNat + 256 * leNat bs) = b := by
      refine UInt8.toNat_inj.mp ?_
      rw [UInt8.toNat_ofNat']
      omega
    rw [List.length_cons, leNat_cons, leBytes, hdiv, hmod, ih]

/-! ### Shifts and masks -/

/-- **An *or* past the top of a number is an addition.** -/
theorem or_shiftLeft_of_lt {a k : ℕ} (h : a < 2 ^ k) (b : ℕ) :
    a ||| b <<< k = a + b * 2 ^ k := by
  rw [Nat.or_comm, Nat.shiftLeft_eq, Nat.mul_comm b, ← Nat.two_pow_add_eq_or_of_lt h b]
  ring

end Diod
