import Mathlib.Logic.Basic

/-!
# Settings that can be protected

A `Diod.Setting` is a value that is read again and again from a source, unless it has been
set by hand: then it is **protected** and stays as it is. Reading can fail, and what is
protected is not read at all, so it cannot fail either.

What was read before does not matter: to read twice is to read the second time only
(`Diod.Setting.reread_of_reread`). A setting that has been through a history of its own becomes
what another one is after a single reading exactly if the two agree in what is protected
(`Diod.Setting.reread_eq_ok_iff_agrees`).
-/

namespace Diod

/-- A program that leaves with an error: its parts went through. -/
theorem except_bind_eq_ok {ε α β : Type} {x : Except ε α} {f : α → Except ε β} {b : β} :
    x >>= f = .ok b ↔ ∃ a, x = .ok a ∧ f a = .ok b := by
  rcases x with e | a
  · constructor
    · rintro ⟨⟩
    · rintro ⟨_, ⟨⟩, _⟩
  · constructor
    · intro h
      exact ⟨a, rfl, h⟩
    · rintro ⟨_, ⟨⟩, h⟩
      exact h

theorem except_map_eq_ok {ε α β : Type} {x : Except ε α} {f : α → β} {b : β} :
    x.map f = .ok b ↔ ∃ a, x = .ok a ∧ f a = b := by
  rcases x with e | a
  · constructor
    · rintro ⟨⟩
    · rintro ⟨_, ⟨⟩, _⟩
  · constructor
    · rintro ⟨⟩
      exact ⟨a, rfl, rfl⟩
    · rintro ⟨_, ⟨⟩, rfl⟩
      rfl

/-- Two runs of a loop that may leave with an error, one beside the other. -/
theorem foldlM_lockstep {ε α β : Type} {step : β → α → Except ε β} {R : β → β → Prop}
    (hstep : ∀ b c a b' c', R b c → step b a = .ok b' → step c a = .ok c' → R b' c') (l : List α)
    {b c b' c' : β} (h : R b c) (hb : l.foldlM step b = .ok b') (hc : l.foldlM step c = .ok c') :
    R b' c' := by
  induction l generalizing b c with
  | nil =>
    cases hb
    cases hc
    exact h
  | cons a l ih =>
    obtain ⟨b₁, hb₁, hb⟩ := except_bind_eq_ok.mp hb
    obtain ⟨c₁, hc₁, hc⟩ := except_bind_eq_ok.mp hc
    exact ih (hstep b c a b₁ c₁ h hb₁ hc₁) hb hc

/-- A value, and whether it is protected. -/
@[ext]
structure Setting (α : Type) where
  val : α
  ro : Bool := false

namespace Setting

variable {ε α : Type} {s t : Setting α} {x : Except ε α}

/-- Set by hand. -/
def set (v : α) : Setting α := ⟨v, true⟩

/-- Read again, unless it is protected. -/
def reread (s : Setting α) (x : Except ε α) : Except ε (Setting α) :=
  if s.ro then .ok s else x.map fun v => ⟨v, false⟩

theorem reread_of_ro (h : s.ro = true) (x : Except ε α) : s.reread x = .ok s := if_pos h

theorem reread_of_not_ro (h : s.ro = false) (x : Except ε α) :
    s.reread x = x.map fun v => ⟨v, false⟩ := by
  rw [reread, h]
  exact if_neg Bool.false_ne_true

theorem reread_eq_ok :
    s.reread x = .ok t ↔ if s.ro then t = s else x = .ok t.val ∧ t.ro = false := by
  rcases hs : s.ro with _ | _
  · rw [reread_of_not_ro hs, except_map_eq_ok, if_neg Bool.false_ne_true]
    constructor
    · rintro ⟨v, rfl, rfl⟩
      exact ⟨rfl, rfl⟩
    · rintro ⟨h, ht⟩
      exact ⟨t.val, h, by rw [← ht]⟩
  · rw [reread_of_ro hs, if_pos rfl]
    exact ⟨fun h => (Except.ok.inj h).symm, fun h => h ▸ rfl⟩

theorem ro_of_reread (h : s.reread x = .ok t) : t.ro = s.ro := by
  have h := reread_eq_ok.mp h
  rcases hs : s.ro with _ | _
  · rw [hs, if_neg Bool.false_ne_true] at h
    exact h.2
  · rw [hs, if_pos rfl] at h
    rw [h, hs]

theorem read_of_reread (h : s.reread x = .ok t) (hs : s.ro = false) : x = .ok t.val := by
  have h := reread_eq_ok.mp h
  rw [hs, if_neg Bool.false_ne_true] at h
  exact h.1

/-- **What was read before does not matter.** -/
theorem reread_of_reread (h : s.reread x = .ok t) (y : Except ε α) : t.reread y = s.reread y := by
  rcases hs : s.ro with _ | _
  · rw [reread_of_not_ro hs, reread_of_not_ro ((ro_of_reread h).trans hs)]
  · rw [reread_of_ro hs] at h
    rw [Except.ok.inj h]

/-- Two settings that have the same protection, and if they are protected, the same value. -/
structure Agrees (s t : Setting α) : Prop where
  ro : s.ro = t.ro
  val : s.ro = true → s.val = t.val

theorem Agrees.refl (s : Setting α) : s.Agrees s := ⟨rfl, fun _ => rfl⟩

theorem Agrees.of_not_ro (hs : s.ro = false) (ht : t.ro = false) : s.Agrees t :=
  ⟨hs.trans ht.symm, fun h => absurd (hs.symm.trans h) Bool.false_ne_true⟩

/-- **A setting becomes another one that is read from the source, exactly if the two agree.** -/
theorem reread_eq_ok_iff_agrees (ht : t.ro = false → x = .ok t.val) :
    s.reread x = .ok t ↔ s.Agrees t := by
  rw [reread_eq_ok]
  rcases hs : s.ro with _ | _
  · rw [if_neg Bool.false_ne_true]
    constructor
    · rintro ⟨-, h⟩
      exact .of_not_ro hs h
    · intro h
      have hro := h.ro.symm.trans hs
      exact ⟨ht hro, hro⟩
  · rw [if_pos rfl]
    constructor
    · rintro rfl
      exact .refl t
    · intro h
      exact Setting.ext (h.val hs).symm h.ro.symm

/-- What an element is added to by hand: to what was set by hand, not to what was read. -/
def kept {α : Type} (s : Setting (List α)) : List α := if s.ro then s.val else []

theorem kept_set {α : Type} (l : List α) : (set l).kept = l := rfl

theorem kept_of_not_ro {α : Type} {s : Setting (List α)} (h : s.ro = false) : s.kept = [] := by
  rw [kept, h]
  rfl

theorem Agrees.kept {α : Type} {s t : Setting (List α)} (h : s.Agrees t) : s.kept = t.kept := by
  rw [Setting.kept, Setting.kept, ← h.ro]
  by_cases hs : s.ro = true
  · rw [if_pos hs, if_pos hs, h.val hs]
  · rw [if_neg hs, if_neg hs]

/-- Two settings that agree, the second of which is read from the source if it can be. -/
structure Tracks (x : Except ε α) (s t : Setting α) : Prop extends s.Agrees t where
  read : t.ro = false → x = .ok t.val

theorem Tracks.set (x : Except ε α) (v : α) : Tracks x (.set v) (.set v) :=
  ⟨.refl _, fun h => absurd h.symm Bool.false_ne_true⟩

theorem Tracks.reread (h : Tracks x s t) : s.reread x = .ok t :=
  (reread_eq_ok_iff_agrees h.read).mpr h.toAgrees

/-- Two settings that begin alike, and are read from two sources. -/
theorem Tracks.of_reread {y : Except ε α} {r : Setting α} (hr : r.ro = false)
    (hs : r.reread y = .ok s) (ht : r.reread x = .ok t) : Tracks x s t :=
  ⟨.of_not_ro ((ro_of_reread hs).trans hr) ((ro_of_reread ht).trans hr),
    fun _ => read_of_reread ht hr⟩

end Setting

end Diod
