import Mathlib.Data.Option.Basic

/-!
# Runs of a transition system

A system takes a step for a label when the label is enabled. What holds of every run
is shown by an invariant: it holds at the start, and each step keeps it. Runs whose
steps all meet a condition on the label and the state before the step are a case of
the same rule (`Diod.Reaches.invariant`).
-/

namespace Diod

variable {S L : Type} {step : S → L → Option S} {cond : S → L → Prop}

/-- **What is reached from a state** by steps that meet a condition. -/
inductive Reaches (step : S → L → Option S) (cond : S → L → Prop) (s : S) : S → Prop
  | refl : Reaches step cond s s
  | tail {t u : S} {a : L} : Reaches step cond s t → cond t a → step t a = some u →
      Reaches step cond s u

variable {s t : S} {I : S → Prop}

/-- A step with a guard. -/
theorem of_guard {c : Prop} [Decidable c] (h : (if c then some s else none) = some t) :
    c ∧ s = t := by
  obtain ⟨hc, h⟩ := Option.ite_none_right_eq_some.mp h
  exact ⟨hc, Option.some.inj h⟩

/-- The rule of invariants. -/
theorem Reaches.invariant (h : Reaches step cond s t) (h0 : I s)
    (hs : ∀ t u a, I t → cond t a → step t a = some u → I u) : I t := by
  induction h with
  | refl => exact h0
  | tail _ hc hstep ih => exact hs _ _ _ ih hc hstep

/-- Take the steps of a list of labels. -/
def runSteps (step : S → L → Option S) (s : S) : List L → Option S
  | [] => some s
  | a :: as => (step s a).bind fun s => runSteps step s as

/-- The steps of a list of labels all meet a condition. -/
def runMeets (step : S → L → Option S) (cond : S → L → Bool) (s : S) : List L → Bool
  | [] => true
  | a :: as => cond s a && ((step s a).map fun s => runMeets step cond s as).getD true

theorem Reaches.head {u : S} {a : L} (hc : cond s a) (ha : step s a = some t)
    (h : Reaches step cond t u) : Reaches step cond s u := by
  induction h with
  | refl => exact .tail .refl hc ha
  | tail _ hc hstep ih => exact .tail ih hc hstep

/-- A list of labels that runs through is a run. -/
theorem reaches_of_runSteps {c : S → L → Bool} (hc : ∀ s a, c s a = true → cond s a) :
    ∀ {s t : S} {l : List L}, runSteps step s l = some t → runMeets step c s l = true →
      Reaches step cond s t
  | s, t, [], h, _ => by
    cases h
    exact .refl
  | s, t, a :: l, h, hm => by
    obtain ⟨u, hu, h⟩ := Option.bind_eq_some_iff.mp h
    simp only [runMeets, hu, Option.map_some, Option.getD_some, Bool.and_eq_true] at hm
    exact .head (hc _ _ hm.1) hu (reaches_of_runSteps hc h hm.2)

/-- A list of labels, where the condition is one on labels. -/
theorem reaches_of_forall : ∀ {s t : S} {l : List L}, (∀ s, ∀ a ∈ l, cond s a) →
    runSteps step s l = some t → Reaches step cond s t
  | s, t, [], _, h => by
    cases h
    exact .refl
  | s, t, a :: l, hc, h => by
    obtain ⟨u, hu, h⟩ := Option.bind_eq_some_iff.mp h
    exact .head (hc s a List.mem_cons_self) hu
      (reaches_of_forall (fun s b hb => hc s b (List.mem_cons_of_mem _ hb)) h)

/-! ### What holds along a run -/

/-- **Each step of a list of labels has a property**, of the label and the state before. -/
def Along (step : S → L → Option S) (P : S → L → Prop) (s : S) : List L → Prop
  | [] => True
  | a :: as => P s a ∧ ∀ t ∈ step s a, Along step P t as

variable {P Q : S → L → Prop}

instance [∀ s a, Decidable (P s a)] : ∀ (s : S) (l : List L), Decidable (Along step P s l)
  | _, [] => inferInstanceAs (Decidable True)
  | s, a :: as =>
    haveI := fun t => instDecidableAlong t as
    inferInstanceAs (Decidable (P s a ∧ ∀ t ∈ step s a, Along step P t as))

/-- The rule of invariants for such properties: the invariant is kept by steps with one
property, and they have the other then. -/
theorem Along.of_invariant (hP : ∀ s a, I s → Q s a → P s a)
    (hI : ∀ s a t, I s → Q s a → step s a = some t → I t) :
    ∀ {l : List L} {s : S}, I s → Along step Q s l → Along step P s l
  | [], _, _, _ => trivial
  | a :: _, s, hs, ⟨ha, hl⟩ =>
    ⟨hP s a hs ha, fun t ht => (hl t ht).of_invariant hP hI (hI s a t hs ha ht)⟩

/-- Two properties that are the same where an invariant holds. -/
theorem Along.congr (hPQ : ∀ s a, I s → (P s a ↔ Q s a))
    (hI : ∀ s a t, I s → step s a = some t → I t) {l : List L} (hs : I s) :
    Along step P s l ↔ Along step Q s l :=
  ⟨.of_invariant (fun s a h => (hPQ s a h).mp) (fun s a t h _ => hI s a t h) hs,
    .of_invariant (fun s a h => (hPQ s a h).mpr) (fun s a t h _ => hI s a t h) hs⟩

/-- The step after some others. -/
theorem Along.last : ∀ {l : List L} {s t : S} {a : L}, Along step P s (l ++ [a]) →
    runSteps step s l = some t → P t a
  | [], s, t, a, h, ht => by
    obtain rfl : s = t := Option.some.inj ht
    exact h.1
  | b :: l, s, t, a, h, ht => by
    obtain ⟨u, hu, ht⟩ := Option.bind_eq_some_iff.mp ht
    exact (h.2 u hu).last ht

theorem runSteps_append (s : S) (l l' : List L) :
    runSteps step s (l ++ l') = (runSteps step s l).bind fun t => runSteps step t l' := by
  induction l generalizing s with
  | nil => rfl
  | cons a l ih =>
    simp only [List.cons_append, runSteps, ih]
    rcases step s a with _ | t <;> rfl

end Diod
