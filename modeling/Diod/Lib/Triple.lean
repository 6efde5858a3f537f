import Diod.Lib.Prog

/-!
# Triples

A rule of pre- and postconditions for programs that may leave early. A triple has one
postcondition for a program that ends with a result, and one for a program that stops;
of one that crashes it says nothing.
-/

namespace Diod.Prog

variable {S α β : Type} {P P' E E' : S → Prop} {Q Q' : α → S → Prop}

/-- **A triple**: started where `P` holds, a program ends with a result where `Q` holds, or
stops where `E` holds, or crashes. -/
def Triple (P : S → Prop) (x : Prog S α) (Q : α → S → Prop) (E : S → Prop) : Prop :=
  ∀ s, P s →
    match x s with
    | (.ok a, s') => Q a s'
    | (.stop, s') => E s'
    | (.crash, _) => True

variable {x : Prog S α} {c : Prop} {R : β → S → Prop}

/-- The rule of consequence. -/
theorem Triple.mono (h : Triple P x Q E) (hP : ∀ s, P' s → P s)
    (hQ : ∀ a s, Q a s → Q' a s) (hE : ∀ s, E s → E' s) : Triple P' x Q' E' := by
  intro s hs
  have := h s (hP s hs)
  rcases hx : x s with ⟨r, s'⟩
  rw [hx] at this
  rcases r with a | _ | _
  · exact hQ a s' this
  · exact hE s' this
  · trivial

theorem Triple.pre (h : Triple P x Q E) (hP : ∀ s, P' s → P s) : Triple P' x Q E :=
  fun s hs => h s (hP s hs)

theorem Triple.post (h : Triple P x Q E) (hQ : ∀ a s, Q a s → Q' a s) : Triple P x Q' E :=
  h.mono (fun _ h => h) hQ fun _ h => h

theorem Triple.exit (h : Triple P x Q E) (hE : ∀ s, E s → E' s) : Triple P x Q E' :=
  h.mono (fun _ h => h) (fun _ _ h => h) hE

/-- Two triples of one program. -/
theorem Triple.and (h : Triple P x Q E) (h' : Triple P' x Q' E') :
    Triple (fun s => P s ∧ P' s) x (fun a s => Q a s ∧ Q' a s) (fun s => E s ∧ E' s) := by
  intro s hs
  have h₁ := h s hs.1
  have h₂ := h' s hs.2
  rcases hx : x s with ⟨r, s'⟩
  rw [hx] at h₁ h₂
  rcases r with a | _ | _
  · exact ⟨h₁, h₂⟩
  · exact ⟨h₁, h₂⟩
  · trivial

/-- A precondition that is not about the state. -/
theorem triple_of_fact (h : c → Triple P x Q E) : Triple (fun s => c ∧ P s) x Q E :=
  fun s hs => h hs.1 s hs.2

/-- One of two preconditions. -/
theorem triple_or (h : Triple P x Q E) (h' : Triple P' x Q E) :
    Triple (fun s => P s ∨ P' s) x Q E := by
  rintro s (hs | hs)
  · exact h s hs
  · exact h' s hs

theorem triple_pure {a : α} (h : ∀ s, P s → Q a s) : Triple P (pure a) Q E := h

theorem triple_stop (h : ∀ s, P s → E s) : Triple P (stop : Prog S α) Q E := h

theorem triple_crash : Triple P (crash : Prog S α) Q E := fun _ _ => trivial

theorem triple_modify {Q : Unit → S → Prop} {g : S → S} (h : ∀ s, P s → Q () (g s)) :
    Triple P (modify g) Q E := h

/-- One program after the other. -/
theorem Triple.bind {f : α → Prog S β} (hx : Triple P x Q E)
    (hf : ∀ a, Triple (Q a) (f a) R E) : Triple P (x >>= f) R E := by
  intro s hs
  have := hx s hs
  rw [bind_apply]
  rcases h : x s with ⟨r, s'⟩
  rw [h] at this
  rcases r with a | _ | _
  · exact hf a s' this
  · exact this
  · trivial

/-- A look at the state. -/
theorem triple_read_bind {f : S → Prog S β}
    (hf : ∀ s₀, Triple (fun s => P s ∧ s = s₀) (f s₀) R E) : Triple P (read >>= f) R E := by
  intro s hs
  exact hf s s ⟨hs, rfl⟩

/-- A program whose failure is looked at. -/
theorem Triple.attempt (h : Triple P x Q E) :
    Triple P x.attempt (fun r s => match r with | some a => Q a s | none => E s) E' := by
  intro s hs
  have := h s hs
  rcases hx : x s with ⟨r, s'⟩
  rw [hx] at this
  rcases r with a | _ | _
  · rw [attempt_of_ok hx]; exact this
  · rw [attempt_of_stop hx]; exact this
  · rw [attempt_of_crash hx]; trivial

/-- A program whose failure does not matter. -/
theorem Triple.attempt_any (h : Triple P x (fun _ => E) E) :
    Triple P x.attempt (fun _ => E) E' := by
  refine h.attempt.post fun r s hr => ?_
  cases r <;> exact hr

/-- What is done at a label, with a result or without. -/
theorem Triple.done {y : Option α → Prog S Unit} (hx : Triple P x Q E)
    (hok : ∀ a, Triple (Q a) (y (some a)) (fun _ => Q' a) (Q' a))
    (hstop : Triple E (y none) (fun _ => E') E') : Triple P (x.done y) Q' E' := by
  intro s hs
  have h₁ := hx s hs
  rw [Prog.done]
  rcases hxs : x s with ⟨r, s'⟩
  rw [hxs] at h₁
  rcases r with a | _ | _
  · have h₂ := hok a s' h₁
    rcases hys : y (some a) s' with ⟨r, s''⟩
    rw [hys] at h₂
    dsimp only [Res.result]
    rw [hys]
    cases r <;> exact h₂
  · have h₂ := hstop s' h₁
    rcases hys : y none s' with ⟨r, s''⟩
    rw [hys] at h₂
    dsimp only [Res.result]
    rw [hys]
    cases r <;> exact h₂
  · trivial

theorem triple_ite [Decidable c] {y : Prog S α} (hx : c → Triple P x Q E)
    (hy : ¬c → Triple P y Q E) : Triple P (if c then x else y) Q E := by
  split
  · exact hx ‹_›
  · exact hy ‹_›

theorem triple_when [Decidable c] {x : Prog S Unit} {Q : Unit → S → Prop}
    (hx : c → Triple P x Q E) (hn : ¬c → ∀ s, P s → Q () s) : Triple P (when c x) Q E :=
  triple_ite hx fun h => triple_pure (hn h)

end Diod.Prog
