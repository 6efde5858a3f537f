import Mathlib.Data.List.Nodup
import Mathlib.Data.List.Basic

/-!
# Doubly linked lists

Objects that are linked through two fields of their own, `next` and `prev`, with the
address of the first kept elsewhere. Many such lists may live in one store: a list is a
list of addresses, and `Diod.DList` says that the links of the store are the ones this
list needs. It reads the store at the addresses of the list only, so what is written to
other objects does not matter (`Diod.DList.congr`).

Programs change such a list by writing to the neighbours, in an order of their own. What
the lemmas ask for is therefore the store *after* all the writes, address by address:
`Diod.DList.push` for an object that becomes the first, and `Diod.DList.erase` for one
that leaves its place. **Moving to the front** is the one after the other.
-/

namespace Diod

/-- The links of an object. -/
structure Link where
  (next prev : Option ℕ)
deriving DecidableEq

variable {L L' : ℕ → Option Link} {hd pv : Option ℕ} {l : List ℕ} {p : ℕ}

/-- The objects of a list are linked to one another, the first of them back to `pv`. -/
def Linked (L : ℕ → Option Link) : Option ℕ → List ℕ → Prop
  | _, [] => True
  | pv, p :: l => L p = some ⟨l.head?, pv⟩ ∧ Linked L (some p) l

/-- **A doubly linked list** with its first object at `hd`. -/
structure DList (L : ℕ → Option Link) (hd : Option ℕ) (l : List ℕ) : Prop where
  head : hd = l.head?
  nodup : l.Nodup
  linked : Linked L none l

theorem dList_nil : DList L none [] := ⟨rfl, List.nodup_nil, trivial⟩

theorem Linked.congr (h : Linked L pv l) (hL : ∀ q ∈ l, L' q = L q) : Linked L' pv l := by
  induction l generalizing pv with
  | nil => trivial
  | cons q l ih =>
    rw [List.forall_mem_cons] at hL
    exact ⟨hL.1.trans h.1, ih h.2 hL.2⟩

/-- A list does not see what happens to other objects. -/
theorem DList.congr (h : DList L hd l) (hL : ∀ q ∈ l, L' q = L q) : DList L' hd l :=
  ⟨h.head, h.nodup, h.linked.congr hL⟩

theorem Linked.get (h : Linked L pv l) (hp : p ∈ l) : ∃ k, L p = some k := by
  induction l generalizing pv with
  | nil => cases hp
  | cons q l ih =>
    rcases List.mem_cons.mp hp with rfl | hp
    · exact ⟨_, h.1⟩
    · exact ih h.2 hp

theorem eq_cons_of_head? (h : l.head? = some p) : ∃ m, l = p :: m := by
  rcases l with _ | ⟨a, m⟩
  · cases h
  · exact ⟨m, by rw [Option.some.inj h]⟩

variable {k : Link} {q : ℕ}

/-- The object behind one of a list is in the list, too. -/
theorem Linked.next_mem (h : Linked L pv l) (hp : p ∈ l) (hk : L p = some k)
    (hq : k.next = some q) : q ∈ l := by
  induction l generalizing pv with
  | nil => cases hp
  | cons a l ih =>
    rcases List.mem_cons.mp hp with rfl | hp
    · rw [h.1] at hk
      obtain rfl := Option.some.inj hk
      exact List.mem_cons_of_mem p (List.mem_of_mem_head? hq)
    · exact List.mem_cons_of_mem a (ih h.2 hp)

/-- So is the object before one of a list, unless this is the first. -/
theorem Linked.prev_mem (h : Linked L pv l) (hp : p ∈ l) (hk : L p = some k)
    (hh : l.head? ≠ some p) : ∃ q ∈ l, k.prev = some q := by
  induction l generalizing pv with
  | nil => cases hp
  | cons a l ih =>
    have hne : p ≠ a := fun hpa => hh (by rw [hpa, List.head?_cons])
    have hp := (List.mem_cons.mp hp).resolve_left hne
    by_cases hl : l.head? = some p
    · obtain ⟨m, rfl⟩ := eq_cons_of_head? hl
      rw [h.2.1] at hk
      obtain rfl := Option.some.inj hk
      exact ⟨a, List.mem_cons_self, rfl⟩
    · obtain ⟨q, hq, hqp⟩ := ih h.2 hp hl
      exact ⟨q, List.mem_cons_of_mem a hq, hqp⟩

theorem head?_erase (h : l.head? ≠ some p) : (l.erase p).head? = l.head? := by
  rcases l with _ | ⟨a, m⟩
  · rfl
  · have hne : a ≠ p := fun ha => h (by rw [ha, List.head?_cons])
    rw [List.erase_cons_tail (by simpa using hne), List.head?_cons, List.head?_cons]

/-! ### Taking an object out -/

/-- What is left of the links of an object when the one with the links `k` is taken out. -/
def Link.without (k : Link) (q : ℕ) (j : Link) : Link where
  next := if k.prev = some q then k.next else j.next
  prev := if k.next = some q then k.prev else j.prev

/-- An object that is no neighbour keeps its links. -/
theorem Link.without_of_ne {j : Link} (hp : k.prev ≠ some q) (hn : k.next ≠ some q) :
    k.without q j = j := by
  rw [without, if_neg hp, if_neg hn]

theorem Linked.erase (h : Linked L pv l) (hn : l.Nodup) (hpv : ∀ q ∈ l, pv ≠ some q)
    (hp : p ∈ l) (hk : L p = some k)
    (hL : ∀ q ∈ l, q ≠ p → L' q = (L q).map (k.without q)) : Linked L' pv (l.erase p) := by
  induction l generalizing pv with
  | nil => cases hp
  | cons a m ih =>
    obtain ⟨ham, hn⟩ := List.nodup_cons.mp hn
    rcases eq_or_ne a p with rfl | hap
    · -- the first one goes, and what comes behind it is linked back to `pv`
      rw [List.erase_cons_head]
      rw [h.1] at hk
      obtain rfl := Option.some.inj hk
      rcases m with _ | ⟨r, m⟩
      · trivial
      · obtain ⟨hrm, -⟩ := List.nodup_cons.mp hn
        have hr : r ≠ a := fun hra => ham (hra ▸ List.mem_cons_self)
        refine ⟨?_, h.2.2.congr fun q hq => ?_⟩
        · rw [hL r (by simp) hr, h.2.1, Option.map_some, Link.without,
            if_neg (hpv r (by simp)), if_pos (List.head?_cons ..)]
        · obtain ⟨j, hj⟩ := h.2.2.get hq
          have hqa : q ≠ a := fun hqa => ham (hqa ▸ List.mem_cons_of_mem r hq)
          have hrq : some r ≠ some q := fun hrq => hrm (Option.some.inj hrq ▸ hq)
          rw [hL q (by simp [hq]) hqa, hj, Option.map_some,
            Link.without_of_ne (hpv q (by simp [hq])) hrq]
    · have hpm : p ∈ m := (List.mem_cons.mp hp).resolve_left hap.symm
      rw [List.erase_cons_tail (by simpa using hap)]
      have hka : k.next ≠ some a := fun hka => ham (h.2.next_mem hpm hk hka)
      refine ⟨?_, ih h.2 hn (fun q hq hqa => ham (Option.some.inj hqa ▸ hq)) hpm fun q hq =>
        hL q (List.mem_cons_of_mem a hq)⟩
      rw [hL a List.mem_cons_self hap, h.1, Option.map_some]
      by_cases hmp : m.head? = some p
      · -- the one behind the first goes
        obtain ⟨m, rfl⟩ := eq_cons_of_head? hmp
        rw [h.2.1] at hk
        obtain rfl := Option.some.inj hk
        rw [List.erase_cons_head, Link.without, if_pos rfl, if_neg hka]
      · obtain ⟨q, hq, hkq⟩ := h.2.prev_mem hpm hk hmp
        have hkp : k.prev ≠ some a := fun hkp => ham (Option.some.inj (hkq.symm.trans hkp) ▸ hq)
        rw [Link.without_of_ne hkp hka, head?_erase hmp]

theorem DList.prev_mem (h : DList L hd l) (hp : p ∈ l) (hk : L p = some k)
    (hq : k.prev = some q) : q ∈ l := by
  by_cases hh : l.head? = some p
  · obtain ⟨m, rfl⟩ := eq_cons_of_head? hh
    rw [h.linked.1] at hk
    obtain rfl := Option.some.inj hk
    cases hq
  · obtain ⟨a, ha, hka⟩ := h.linked.prev_mem hp hk hh
    rwa [← Option.some.inj (hka.symm.trans hq)]

/-- Objects that are not on the list keep their links when one of it is taken out. -/
theorem DList.without_of_not_mem (h : DList L hd l) (hp : p ∈ l)
    (hk : L p = some k) (hq : q ∉ l) : (L q).map (k.without q) = L q := by
  have hid : k.without q = id := funext fun j => Link.without_of_ne
    (fun hkq => hq (h.prev_mem hp hk hkq)) fun hkq => hq (h.linked.next_mem hp hk hkq)
  rw [hid, Option.map_id, id]

/-- **An object is taken out**: its neighbours are linked to each other. -/
theorem DList.erase (h : DList L hd l) (hp : p ∈ l) (hk : L p = some k)
    (hL : ∀ q ∈ l, q ≠ p → L' q = (L q).map (k.without q)) :
    DList L' (if k.prev = none then k.next else hd) (l.erase p) := by
  refine ⟨?_, h.nodup.erase p, h.linked.erase h.nodup (fun _ _ hq => by cases hq) hp hk hL⟩
  by_cases hh : l.head? = some p
  · obtain ⟨m, rfl⟩ := eq_cons_of_head? hh
    rw [h.linked.1] at hk
    obtain rfl := Option.some.inj hk
    rw [if_pos rfl, List.erase_cons_head]
  · obtain ⟨q, -, hq⟩ := h.linked.prev_mem hp hk hh
    rw [if_neg (by rw [hq]; simp), head?_erase hh, h.head]

/-! ### Putting an object first -/

/-- **An object is put first**: the one that was first is linked back to it. -/
theorem DList.push (h : DList L hd l) (hp : p ∉ l) (hself : L' p = some ⟨hd, none⟩)
    (hL : ∀ q ∈ l, L' q = (L q).map fun j =>
      ⟨j.next, if hd = some q then some p else j.prev⟩) : DList L' (some p) (p :: l) := by
  refine ⟨rfl, List.nodup_cons.mpr ⟨hp, h.nodup⟩, by rw [hself, h.head], ?_⟩
  rcases l with _ | ⟨a, m⟩
  · trivial
  · obtain ⟨ham, -⟩ := List.nodup_cons.mp h.nodup
    have hhd : hd = some a := h.head
    refine ⟨?_, h.linked.2.congr fun q hq => ?_⟩
    · rw [hL a List.mem_cons_self, h.linked.1, Option.map_some, if_pos hhd]
    · obtain ⟨j, hj⟩ := h.linked.2.get hq
      have hne : hd ≠ some q := fun hdq => ham (Option.some.inj (hhd.symm.trans hdq) ▸ hq)
      rw [hL q (List.mem_cons_of_mem a hq), hj, Option.map_some, if_neg hne]

end Diod
