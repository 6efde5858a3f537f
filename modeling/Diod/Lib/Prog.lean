import Mathlib.Logic.Basic

/-!
# Programs with an early exit

The functions of a server change a state, and leave early: on an error they jump to
a label at their end, release what they hold and return nothing. A `Diod.Prog S α`
is such a function. It *stops* when it takes that jump (`Diod.Prog.stop`); what
stands behind the label is `Diod.Prog.done`. It *crashes* when the process dies, by
a failed assertion or a pointer that leads nowhere, and then nothing more is done.

## What a program is proved to do

A program is summed up by a relation `R e s s'` between how it ended, the state it
was started in and the state it left behind. `Diod.Prog.DoesAt R x s` says this of
one start, and `Diod.Prog.Does R x` of all. The relations that can be used this way
are those that go through a program from one statement to the next
(`Diod.Prog.Effect`): they allow nothing to happen, and what two statements do one
after the other is again of the kind, with the worse of their two ends.

What depends on the result of a program as well is a postcondition,
`Diod.Prog.Post`.
-/

namespace Diod

/-! ### Ends -/

/-- How a program ends, without its result. -/
inductive End where
  | ok
  | stop
  | crash
deriving DecidableEq

/-- The worse of two ends. -/
def End.join : End → End → End
  | .ok, e => e
  | .stop, .crash => .crash
  | .stop, _ => .stop
  | .crash, _ => .crash

@[simp] theorem End.ok_join (e : End) : End.ok.join e = e := rfl

@[simp] theorem End.join_ok (e : End) : e.join .ok = e := by cases e <;> rfl

@[simp] theorem End.join_crash (e : End) : e.join .crash = .crash := by cases e <;> rfl

theorem End.join_ne_crash {e e' : End} (h : e.join e' ≠ .crash) : e ≠ .crash ∧ e' ≠ .crash := by
  cases e <;> cases e' <;> simp_all [End.join]

theorem End.join_eq_ok {e e' : End} (h : e.join e' = .ok) : e = .ok ∧ e' = .ok := by
  cases e <;> cases e' <;> simp_all [End.join]

/-- How a program ends. -/
inductive Res (α : Type) where
  /-- With a result. -/
  | ok (a : α)
  /-- By an early exit, without one. -/
  | stop
  /-- With the process. -/
  | crash

namespace Res

variable {α : Type}

/-- The result, if there is one. -/
def result : Res α → Option α
  | .ok a => some a
  | _ => none

/-- The end, without the result. -/
def ending : Res α → End
  | .ok _ => .ok
  | .stop => .stop
  | .crash => .crash

@[simp] theorem ending_ok (a : α) : (ok a).ending = .ok := rfl

@[simp] theorem ending_stop : (stop : Res α).ending = .stop := rfl

@[simp] theorem ending_crash : (crash : Res α).ending = .crash := rfl

theorem eq_crash {r : Res α} (h : r.ending = .crash) : r = .crash := by
  rcases r with _ | _ | _
  · cases h
  · cases h
  · rfl

end Res

/-! ### Programs -/

/-- A program over the state `S` with a result of type `α`. -/
def Prog (S α : Type) : Type := S → Res α × S

namespace Prog

variable {S α β : Type}

instance : Monad (Prog S) where
  pure a := fun s => (.ok a, s)
  bind x f := fun s =>
    match x s with
    | (.ok a, s) => f a s
    | (.stop, s) => (.stop, s)
    | (.crash, s) => (.crash, s)

/-- Leave early. -/
def stop : Prog S α := fun s => (.stop, s)

/-- Die. -/
def crash : Prog S α := fun s => (.crash, s)

/-- Read the state. -/
def read : Prog S S := fun s => (.ok s, s)

/-- Change the state. -/
def modify (f : S → S) : Prog S Unit := fun s => (.ok (), f s)

/-- Run `x` only if something holds. -/
def when (c : Prop) [Decidable c] (x : Prog S Unit) : Prog S Unit := if c then x else pure ()

/-- What stands behind the label: run `y` when `x` has ended, with its result or
without. How `y` ends does not matter, unless it crashes. -/
def done (x : Prog S α) (y : Option α → Prog S Unit) : Prog S α := fun s =>
  match x s with
  | (.crash, s) => (.crash, s)
  | (r, s) =>
    match y r.result s with
    | (.crash, s) => (.crash, s)
    | (_, s) => (r, s)

/-- Run a program to its end and hand back whether it had a result. -/
def attempt (x : Prog S α) : Prog S (Option α) := fun s =>
  match x s with
  | (.ok a, s) => (.ok (some a), s)
  | (.stop, s) => (.ok none, s)
  | (.crash, s) => (.crash, s)

/-! ### Running one statement after another -/

theorem pure_apply (a : α) (s : S) : (pure a : Prog S α) s = (.ok a, s) := rfl

theorem bind_apply (x : Prog S α) (f : α → Prog S β) (s : S) :
    (x >>= f) s = match x s with
      | (.ok a, s) => f a s
      | (.stop, s) => (.stop, s)
      | (.crash, s) => (.crash, s) :=
  rfl

variable {x : Prog S α} {f : α → Prog S β} {s' : S} {a : α} {y : Option α → Prog S Unit} {r : Res α}
  {c : Prop}

theorem bind_of_ok {s : S} (h : x s = (.ok a, s')) : (x >>= f) s = f a s' := by
  rw [bind_apply, h]

theorem bind_of_stop {s : S} (h : x s = (.stop, s')) : (x >>= f) s = (.stop, s') := by
  rw [bind_apply, h]

theorem bind_of_crash {s : S} (h : x s = (.crash, s')) : (x >>= f) s = (.crash, s') := by
  rw [bind_apply, h]

theorem bind_eq_ok {s : S} {b : β}
    (h : (x >>= f) s = (.ok b, s')) : ∃ a s₁, x s = (.ok a, s₁) ∧ f a s₁ = (.ok b, s') := by
  rw [bind_apply] at h
  rcases hx : x s with ⟨r, s₁⟩
  rw [hx] at h
  rcases r with a | _ | _
  · exact ⟨a, s₁, rfl, h⟩
  · cases h
  · cases h

theorem bind_assoc {γ : Type} (x : Prog S α) (f : α → Prog S β) (g : β → Prog S γ) :
    x >>= f >>= g = x >>= fun a => f a >>= g := by
  funext s
  rw [bind_apply, bind_apply, bind_apply]
  rcases x s with ⟨r, s'⟩
  cases r <;> rfl

/-- What is made of a result changes neither the end nor the state. -/
theorem bind_pure_apply (x : Prog S α) (g : α → β) (s : S) :
    ((x >>= fun a => pure (g a)) s).1.ending = (x s).1.ending ∧
      ((x >>= fun a => pure (g a)) s).2 = (x s).2 := by
  rw [bind_apply]
  rcases x s with ⟨r, s'⟩
  cases r <;> exact ⟨rfl, rfl⟩

theorem read_bind (f : S → Prog S β) (s : S) : (read >>= f) s = f s s := rfl

theorem attempt_of_ok {s : S} (h : x s = (.ok a, s')) : x.attempt s = (.ok (some a), s') := by
  rw [attempt, h]

theorem attempt_of_stop {s : S} (h : x s = (.stop, s')) : x.attempt s = (.ok none, s') := by
  rw [attempt, h]

theorem attempt_of_crash {s : S} (h : x s = (.crash, s')) : x.attempt s = (.crash, s') := by
  rw [attempt, h]

/-- What an attempt that did not crash says of the program. -/
theorem attempt_eq_ok {s : S} {r : Option α} (h : x.attempt s = (.ok r, s')) :
    (∃ a, r = some a ∧ x s = (.ok a, s')) ∨ r = none ∧ x s = (.stop, s') := by
  unfold attempt at h
  rcases hx : x s with ⟨r', s₁⟩
  rw [hx] at h
  rcases r' with a | _ | _
  · cases h
    exact .inl ⟨a, rfl, rfl⟩
  · cases h
    exact .inr ⟨rfl, rfl⟩
  · cases h

theorem done_of_crash {s : S} (h : x s = (.crash, s')) : x.done y s = (.crash, s') := by
  rw [done, h]

/-- What is done behind the label of a program that did not crash. -/
theorem done_apply {s : S} (h : x s = (r, s')) (hr : r.ending ≠ .crash) :
    x.done y s = match y r.result s' with
      | (.crash, s) => (.crash, s)
      | (_, s) => (r, s) := by
  unfold done
  rw [h]
  rcases r with a | _ | _
  · rfl
  · rfl
  · exact absurd rfl hr

/-- What is done behind the label crashes. -/
theorem done_of_crash_after {s s'' : S}
    (h : x s = (r, s')) (hr : r.ending ≠ .crash) (hy : y r.result s' = (.crash, s'')) :
    x.done y s = (.crash, s'') := by
  rw [done_apply h hr, hy]

/-- What is done behind the label ends well. -/
theorem done_of_ok {s s'' : S}
    (h : x s = (r, s')) (hr : r.ending ≠ .crash) (hy : y r.result s' = (.ok (), s'')) :
    x.done y s = (r, s'') := by
  rw [done_apply h hr, hy]

/-- Where a program ended that has something to do behind its label. -/
theorem done_eq {s : S} (h : x.done y s = (r, s')) (hr : r.ending ≠ .crash) :
    ∃ s₁ q, x s = (r, s₁) ∧ y r.result s₁ = (q, s') ∧ q.ending ≠ .crash := by
  rcases hx : x s with ⟨r', s₁⟩
  by_cases hc : r'.ending = .crash
  · obtain rfl := Res.eq_crash hc
    rw [done_of_crash hx] at h
    cases h
    exact absurd rfl hr
  · rw [done_apply hx hc] at h
    rcases hy : y r'.result s₁ with ⟨q, s₂⟩
    rw [hy] at h
    rcases q with _ | _ | _
    · cases h; exact ⟨s₁, _, rfl, hy, by simp⟩
    · cases h; exact ⟨s₁, _, rfl, hy, by simp⟩
    · cases h; exact absurd rfl hr

/-- What is only done without a result does not stop with one. -/
theorem when_isNone_ne_stop (x : Prog S Unit) (a : α) (s : S) :
    (when ((some a).isNone = true) x s).1.ending ≠ .stop := by
  simp [when, pure_apply]

/-! ### Postconditions -/

/-- **A postcondition**: what holds of the end and the last state, started in `s`. -/
def Post (x : Prog S α) (s : S) (Q : Res α → S → Prop) : Prop := Q (x s).1 (x s).2

variable {s : S}

/-! ### Results -/

/-- **What is known of the result**, wherever the program is started. -/
def Returns (P : α → Prop) (x : Prog S α) : Prop := ∀ s a s', x s = (.ok a, s') → P a

variable {P : α → Prop}

theorem returns_true (x : Prog S α) : x.Returns fun _ => True := fun _ _ _ _ => trivial

theorem returns_pure (h : P a) : (pure a : Prog S α).Returns P := by
  intro s b s' hb
  cases hb
  exact h

theorem returns_stop : (stop : Prog S α).Returns P := by
  intro s a s' h
  cases h

theorem returns_bind {P : β → Prop} {Q : α → Prop}
    (hx : x.Returns Q) (hf : ∀ a, Q a → (f a).Returns P) : (x >>= f).Returns P := by
  intro s b s' h
  obtain ⟨a, s₁, ha, hb⟩ := bind_eq_ok h
  exact hf a (hx s a s₁ ha) s₁ b s' hb

/-- The result of what comes last. -/
theorem returns_of_last {P : β → Prop} (hf : ∀ a, (f a).Returns P) : (x >>= f).Returns P :=
  returns_bind (returns_true x) fun a _ => hf a

theorem returns_ite [Decidable c] {y : Prog S α} (hx : x.Returns P)
    (hy : y.Returns P) : (if c then x else y).Returns P := by
  split
  · exact hx
  · exact hy

theorem returns_done (hx : x.Returns P) : (x.done y).Returns P := by
  intro s a s' h
  obtain ⟨s₁, -, ha, -⟩ := done_eq h (by simp)
  exact hx s a s₁ ha

/-! ### Logs -/

section

variable {P Q R : α → Prop} {l₁ l₂ l₃ : List α}

theorem logged_mono (h : ∃ l, l₂ = l₁ ++ l ∧ ∀ v ∈ l, P v) (hP : ∀ v, P v → R v) :
    ∃ l, l₂ = l₁ ++ l ∧ ∀ v ∈ l, R v := by
  obtain ⟨l, hl, h⟩ := h
  exact ⟨l, hl, fun v hv => hP v (h v hv)⟩

/-- What is appended to a log in two parts. -/
theorem logged_trans (h : ∃ l, l₂ = l₁ ++ l ∧ ∀ v ∈ l, P v)
    (h' : ∃ l, l₃ = l₂ ++ l ∧ ∀ v ∈ l, Q v) (hP : ∀ v, P v → R v) (hQ : ∀ v, Q v → R v) :
    ∃ l, l₃ = l₁ ++ l ∧ ∀ v ∈ l, R v := by
  obtain ⟨l, rfl, hl⟩ := h
  obtain ⟨l', rfl, hl'⟩ := h'
  refine ⟨l ++ l', List.append_assoc .., fun v hv => ?_⟩
  rcases List.mem_append.mp hv with hv | hv
  · exact hP v (hl v hv)
  · exact hQ v (hl' v hv)

end

/-! ### Effects -/

/-- What a program does, started in `s`. -/
def DoesAt (R : End → S → S → Prop) (x : Prog S α) (s : S) : Prop := R (x s).1.ending s (x s).2

/-- **What a program does**, wherever it is started. -/
def Does (R : End → S → S → Prop) (x : Prog S α) : Prop := ∀ s, x.DoesAt R s

/-- **The relations that go through a program.** -/
structure Effect (R : End → S → S → Prop) : Prop where
  /-- Nothing may happen. -/
  refl : ∀ e s, R e s s
  /-- One thing may happen after the other. -/
  trans : ∀ {e e' : End} {a b c : S}, R e a b → R e' b c → R (e.join e') a c

variable {R R' : End → S → S → Prop}

theorem DoesAt.mono (h : x.DoesAt R s) (hR : ∀ e s', R e s s' → R' e s s') : x.DoesAt R' s :=
  hR _ _ h

theorem Does.mono (h : x.Does R) (hR : ∀ e s s', R e s s' → R' e s s') : x.Does R' :=
  fun s => hR _ _ _ (h s)

/-- A statement that reads is followed by one that knows what was read. -/
theorem doesAt_read_bind {f : S → Prog S β} (h : (f s).DoesAt R s) :
    (read >>= f).DoesAt R s :=
  h

/-- The same, of a statement that reads less. -/
theorem doesAt_bind_of_ok (hx : x s = (.ok a, s))
    (h : (f a).DoesAt R s) : (x >>= f).DoesAt R s := by
  rwa [DoesAt, bind_of_ok hx]

theorem doesAt_ite [Decidable c] {y : Prog S α} (hx : c → x.DoesAt R s)
    (hy : ¬c → y.DoesAt R s) : (if c then x else y).DoesAt R s := by
  split
  · exact hx ‹_›
  · exact hy ‹_›

theorem does_ite [Decidable c] {y : Prog S α} (hx : c → x.Does R)
    (hy : ¬c → y.Does R) : (if c then x else y).Does R :=
  fun s => doesAt_ite (fun h => hx h s) fun h => hy h s

/-- What `x` does is known from its end and its result. -/
theorem doesAt_of_eq (h : x s = (r, s')) (hR : R r.ending s s') : x.DoesAt R s := by
  unfold DoesAt
  rwa [h]

theorem DoesAt.of_eq (h : x.DoesAt R s) (hx : x s = (r, s')) : R r.ending s s' := by
  unfold DoesAt at h
  rwa [hx] at h

/-- One statement after another, each with an effect of its own. -/
theorem DoesAt.bind {Q T : End → S → S → Prop}
    (hx : x.DoesAt Q s) (hf : ∀ a s', x s = (.ok a, s') → (f a).DoesAt T s')
    (hn : ∀ e s', e ≠ .ok → Q e s s' → R e s s')
    (ht : ∀ e s' s₁, Q .ok s s' → T e s' s₁ → R e s s₁) : (x >>= f).DoesAt R s := by
  rcases h : x s with ⟨r, s'⟩
  have hx := hx.of_eq h
  rcases r with a | _ | _
  · rw [DoesAt, bind_of_ok h]
    exact ht _ _ _ hx (hf a s' h)
  · exact doesAt_of_eq (bind_of_stop h) (hn _ _ (by simp) hx)
  · exact doesAt_of_eq (bind_of_crash h) (hn _ _ (by simp) hx)

namespace Effect

variable (hR : Effect R)

include hR

theorem pure (a : α) : (Pure.pure a : Prog S α).Does R := fun s => hR.refl _ s

theorem stop : (Prog.stop : Prog S α).Does R := fun s => hR.refl _ s

theorem crash : (Prog.crash : Prog S α).Does R := fun s => hR.refl _ s

theorem read : (Prog.read : Prog S S).Does R := fun s => hR.refl _ s

variable {x : Prog S α} {f : α → Prog S β} {c : Prop} {y : Option α → Prog S Unit}

/-- One statement after another, where the second knows where the first ended. -/
theorem bindAt (hx : x.DoesAt R s)
    (hf : ∀ a s', x s = (.ok a, s') → (f a).DoesAt R s') : (x >>= f).DoesAt R s :=
  hx.bind hf (fun _ _ _ h => h) fun _ _ _ h h' => hR.trans h h'

theorem bind (hx : x.Does R) (hf : ∀ a, (f a).Does R) : (x >>= f).Does R :=
  fun s => hR.bindAt (hx s) fun a s' _ => hf a s'

/-- One statement after another, where the second knows what the first returned. -/
theorem bind_returns {P : α → Prop} (hx : x.Does R)
    (hP : x.Returns P) (hf : ∀ a, P a → (f a).Does R) : (x >>= f).Does R :=
  fun s => hR.bindAt (hx s) fun a s' h => hf a (hP s a s' h) s'

theorem whenAt [Decidable c] {x : Prog S Unit} (hx : c → x.DoesAt R s) : (when c x).DoesAt R s := by
  unfold when
  split
  · exact hx ‹_›
  · exact hR.pure () s

theorem when [Decidable c] {x : Prog S Unit} (hx : c → x.Does R) : (Prog.when c x).Does R :=
  fun s => hR.whenAt fun hc => hx hc s

/-- What is done behind the label adds to what was done before it. It may not stop
where there is a result to return. -/
theorem doneAt (hx : x.DoesAt R s)
    (hy : ∀ r s', x s = (r, s') → r.ending ≠ .crash → (y r.result).DoesAt R s')
    (hs : ∀ a s', (y (some a) s').1.ending ≠ .stop) : (x.done y).DoesAt R s := by
  rcases h : x s with ⟨r, s'⟩
  have hx := hx.of_eq h
  have hy := hy r s' h
  unfold DoesAt done
  rw [h]
  rcases r with a | _ | _
  · have hs := hs a s'
    have hy := hR.trans hx (hy (by simp))
    simp only [Res.result] at hy ⊢
    rcases h' : y (some a) s' with ⟨r', s''⟩
    rw [h'] at hs hy
    rcases r' with _ | _ | _
    · exact hy
    · exact absurd rfl hs
    · exact hy
  · have hy := hR.trans hx (hy (by simp))
    simp only [Res.result] at hy ⊢
    rcases h' : y none s' with ⟨r', s''⟩
    rw [h'] at hy
    cases r' <;> exact hy
  · exact hx

theorem done (hx : x.Does R)
    (hy : ∀ r, (y r).Does R) (hs : ∀ a s', (y (some a) s').1.ending ≠ .stop) : (x.done y).Does R :=
  fun s => hR.doneAt (hx s) (fun r s' _ _ => hy r.result s') hs

/-- A failed attempt that is not made good. -/
theorem attempt_bind {P : α → Prop} {f : Option α → Prog S β} (hx : x.Does R)
    (hP : x.Returns P) (hf : ∀ a, P a → (f (some a)).Does R) (hf' : (f none).Does R)
    (hn : ∀ s, (f none s).1.ending ≠ .ok) : (x.attempt >>= f).Does R := by
  intro s
  rcases h : x s with ⟨r, s'⟩
  have hx := (hx s).of_eq h
  rcases r with a | _ | _
  · rw [DoesAt, bind_of_ok (attempt_of_ok h)]
    simpa [Res.ending] using hR.trans hx (hf a (hP s a s' h) s')
  · rw [DoesAt, bind_of_ok (attempt_of_stop h)]
    have := hR.trans hx (hf' s')
    have hn := hn s'
    rcases h' : f none s' with ⟨r', s''⟩
    rw [h'] at this hn
    rcases r' with _ | _ | _
    · exact absurd rfl hn
    · exact this
    · exact this
  · exact doesAt_of_eq (bind_of_crash (attempt_of_crash h)) hx

end Effect

/-- A failed attempt, for an effect that does not tell stopping from ending. -/
theorem DoesAt.attempt (hx : x.DoesAt R s)
    (h : ∀ s', R .stop s s' → R .ok s s') : x.attempt.DoesAt R s := by
  rcases hxs : x s with ⟨r, s'⟩
  have hx := hx.of_eq hxs
  rcases r with a | _ | _
  · exact doesAt_of_eq (attempt_of_ok hxs) hx
  · exact doesAt_of_eq (attempt_of_stop hxs) (h _ hx)
  · exact doesAt_of_eq (attempt_of_crash hxs) hx

end Prog

end Diod
