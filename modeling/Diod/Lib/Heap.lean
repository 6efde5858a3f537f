import Mathlib.Logic.Function.Basic
import Mathlib.Data.List.Range

/-!
# Heaps of objects

Objects behind addresses that are given out in increasing order and never used
twice, so that a stale address is recognised as such. Freshness is part of the
structure: nothing lives at an address that has not been given out
(`Diod.Heap.fresh`).

Objects are also found by what they are, newest first (`Diod.Heap.find`), which is
the order of a list that is linked at its head.
-/

namespace Diod

/-- A heap of objects of type `α`. -/
structure Heap (α : Type) where
  /-- The object at an address. -/
  get : ℕ → Option α
  /-- The address that is given out next. -/
  next : ℕ
  /-- Nothing lives at an address that has not been given out. -/
  fresh : ∀ p, next ≤ p → get p = none

namespace Heap

variable {α : Type}

/-- The heap with no objects. -/
def empty : Heap α := ⟨fun _ => none, 0, fun _ _ => rfl⟩

instance : Inhabited (Heap α) := ⟨empty⟩

variable {h : Heap α} {p q : ℕ} {a : α} {P : α → Bool}

theorem lt_next (hp : h.get p = some a) : p < h.next := by
  by_contra hn
  rw [h.fresh p (Nat.le_of_not_lt hn)] at hp
  cases hp

/-- Put a new object at the next address. -/
def alloc (h : Heap α) (a : α) : Heap α where
  get := Function.update h.get h.next (some a)
  next := h.next + 1
  fresh p hp := by
    rw [Function.update_of_ne (by omega)]
    exact h.fresh p (by omega)

@[simp] theorem get_alloc_next (h : Heap α) (a : α) : (h.alloc a).get h.next = some a :=
  Function.update_self ..

theorem get_alloc_of_ne (hp : p ≠ h.next) (a : α) : (h.alloc a).get p = h.get p :=
  Function.update_of_ne hp ..

/-- Take the object at an address away. -/
def free (h : Heap α) (p : ℕ) : Heap α where
  get := Function.update h.get p none
  next := h.next
  fresh q hq := by
    rcases eq_or_ne q p with rfl | hne
    · exact Function.update_self ..
    · rw [Function.update_of_ne hne]
      exact h.fresh q hq

@[simp] theorem get_free_self (h : Heap α) (p : ℕ) : (h.free p).get p = none :=
  Function.update_self ..

theorem get_free_of_ne (hq : q ≠ p) : (h.free p).get q = h.get q :=
  Function.update_of_ne hq ..

theorem get_of_get_free (hq : (h.free p).get q = some a) : q ≠ p ∧ h.get q = some a := by
  rcases eq_or_ne q p with rfl | hne
  · rw [get_free_self] at hq
    cases hq
  · exact ⟨hne, by rwa [get_free_of_ne hne] at hq⟩

/-- Change the object at an address, if there is one. -/
def modify (h : Heap α) (p : ℕ) (g : α → α) : Heap α where
  get := Function.update h.get p ((h.get p).map g)
  next := h.next
  fresh q hq := by
    rcases eq_or_ne q p with rfl | hne
    · rw [Function.update_self, h.fresh q hq, Option.map_none]
    · rw [Function.update_of_ne hne]
      exact h.fresh q hq

@[simp] theorem get_modify_self (h : Heap α) (p : ℕ) (g : α → α) :
    (h.modify p g).get p = (h.get p).map g :=
  Function.update_self ..

theorem get_modify_of_ne (hq : q ≠ p) (g : α → α) : (h.modify p g).get q = h.get q :=
  Function.update_of_ne hq ..

theorem get_modify (h : Heap α) (p : ℕ) (g : α → α) (q : ℕ) :
    (h.modify p g).get q = (h.get q).map fun a => if p = q then g a else a := by
  rcases eq_or_ne q p with rfl | hne
  · simp [get_modify_self]
  · simp [get_modify_of_ne hne, hne.symm]

theorem modify_modify (h : Heap α) (p : ℕ) (g g' : α → α) :
    (h.modify p g).modify p g' = h.modify p (g' ∘ g) := by
  simp only [modify, Function.update_self, Function.update_idem, Option.map_map]

/-- What lives in a changed heap lived there before, changed at the one address. -/
theorem get_of_get_modify {g : α → α} {b : α} (hq : (h.modify p g).get q = some b) :
    ∃ a, h.get q = some a ∧ b = if q = p then g a else a := by
  rcases eq_or_ne q p with rfl | hne
  · rw [get_modify_self] at hq
    obtain ⟨a, ha, rfl⟩ := Option.map_eq_some_iff.mp hq
    exact ⟨a, ha, (if_pos rfl).symm⟩
  · rw [get_modify_of_ne hne] at hq
    exact ⟨b, hq, (if_neg hne).symm⟩

/-! ### Finding an object -/

/-- The newest object with a property, and its address. -/
def find (h : Heap α) (P : α → Bool) : Option (ℕ × α) :=
  (List.range h.next).reverse.findSome? fun p =>
    match h.get p with
    | some a => if P a then some (p, a) else none
    | none => none

theorem get_of_find (hf : h.find P = some (p, a)) : h.get p = some a ∧ P a = true := by
  obtain ⟨q, -, hq⟩ := List.exists_of_findSome?_eq_some hf
  split at hq
  · rename_i b hb
    split at hq
    · rename_i hP
      obtain ⟨rfl, rfl⟩ := Prod.mk.inj (Option.some.inj hq)
      exact ⟨hb, hP⟩
    · cases hq
  · cases hq

theorem find_eq_none : h.find P = none ↔ ∀ p a, h.get p = some a → P a = false := by
  refine List.findSome?_eq_none_iff.trans ⟨fun hn p a hp => ?_, fun hn p _ => ?_⟩
  · have := hn p (by simpa using lt_next hp)
    simp only [hp] at this
    split at this
    · cases this
    · rename_i hP
      simpa using hP
  · split
    · rename_i a ha
      rw [if_neg (by simp [hn p a ha])]
    · rfl

end Heap

end Diod
