import Mathlib.Data.Option.Basic
import Mathlib.Data.Nat.Notation

/-!
# A walk in pieces

A walk takes one step after the other, each of which may fail, and before some of them it
is checked that one may go on from where one is. Here such a walk is compared with one that
is cut into **pieces** of at most `m` steps, where the check is never made before the first
step of a piece, and where a later piece that does not get anywhere is worse than a failure
(`Diod.Ending.stuck`). When the two end the same way is `Diod.inPieces_eq_iff`.
-/

namespace Diod

variable {F N : Type} (step : F → N → Option F) (go : F → Bool)

/-- **A walk** from position `i` on, with a check before the steps at some positions. -/
def march (checks : ℕ → Bool) : ℕ → F → List N → Option F
  | _, f, [] => some f
  | i, f, n :: ns =>
    if checks i && !go f then none else (step f n).bind fun g => march checks (i + 1) g ns

/-- **How far a loop gets** that makes the check before each step, or, if it is not a
`later` one, before each but the first. -/
def advance : Bool → F → List N → ℕ × F
  | _, f, [] => (0, f)
  | later, f, n :: ns =>
    if later && !go f then (0, f)
    else
      match step f n with
      | none => (0, f)
      | some g => ((advance true g ns).1 + 1, (advance true g ns).2)

/-- How a walk in pieces ends. -/
inductive Ending (F : Type)
  | arrived (f : F)
  | missed
  /-- Not a single step of a later piece could be taken. -/
  | stuck

/-- **A walk in pieces**, of which `k` bounds the number. -/
def inPieces (m : ℕ) : ℕ → Bool → F → List N → Ending F
  | _, _, f, [] => .arrived f
  | 0, _, _, _ :: _ => .missed
  | k + 1, later, f, n :: ns =>
    let r := advance step go false f ((n :: ns).take m)
    if r.1 = ((n :: ns).take m).length then inPieces m k true r.2 ((n :: ns).drop m)
    else if r.1 = 0 ∧ later = true then .stuck
    else .missed

variable {step go} {checks checks' : ℕ → Bool} {i : ℕ} {f g h : F} {n : N} {ns as bs : List N}

/-! ### Walks -/

theorem march_append :
    march step go checks i f (as ++ bs) =
      (march step go checks i f as).bind fun g => march step go checks (i + as.length) g bs := by
  induction as generalizing i f with
  | nil => rfl
  | cons n as ih =>
    simp only [List.cons_append, march]
    split
    · rfl
    · rcases step f n with _ | g
      · rfl
      · simp only [Option.bind_some, ih, List.length_cons]
        congr 1
        funext g
        rw [Nat.add_right_comm, Nat.add_assoc]

/-- The front of a walk, and what is checked behind it. -/
theorem march_front (h : march step go checks i f (as ++ n :: bs) = some g) :
    ∃ g', march step go checks i f as = some g' ∧
      (checks (i + as.length) = true → go g' = true) ∧ ∃ g'', step g' n = some g'' := by
  rw [march_append, Option.bind_eq_some_iff] at h
  obtain ⟨g', hg', h⟩ := h
  refine ⟨g', hg', ?_⟩
  rw [march] at h
  split at h
  · cases h
  · rename_i hc
    obtain ⟨g'', hs, -⟩ := Option.bind_eq_some_iff.mp h
    refine ⟨fun hi => ?_, g'', hs⟩
    simpa [hi] using hc

/-- A walk with fewer checks. -/
theorem march_mono (hle : ∀ i, checks' i = true → checks i = true)
    (h : march step go checks i f ns = some g) : march step go checks' i f ns = some g := by
  induction ns generalizing i f with
  | nil => exact h
  | cons n ns ih =>
    rw [march] at h ⊢
    split at h
    · cases h
    · rename_i hc
      obtain ⟨g', hs, h⟩ := Option.bind_eq_some_iff.mp h
      rw [if_neg, hs]
      · exact ih h
      · intro hc'
        rw [Bool.and_eq_true] at hc'
        exact hc (by rw [hle i hc'.1, hc'.2]; rfl)

/-- A walk with more checks, which would all have been passed. -/
theorem march_of_checks (h : march step go checks' i f ns = some g)
    (hc : ∀ as n bs g', ns = as ++ n :: bs → checks (i + as.length) = true →
      march step go checks' i f as = some g' → go g' = true) :
    march step go checks i f ns = some g := by
  induction ns generalizing i f with
  | nil => exact h
  | cons n ns ih =>
    rw [march] at h ⊢
    split at h
    · cases h
    · rename_i hno
      obtain ⟨g', hs, h⟩ := Option.bind_eq_some_iff.mp h
      rw [if_neg, hs]
      · refine ih h fun as n' bs g'' hns hi has => hc (n :: as) n' bs g'' (by rw [hns]; rfl) ?_ ?_
        · rwa [List.length_cons, Nat.add_comm as.length, ← Nat.add_assoc]
        · rw [march, if_neg hno, hs]
          exact has
      · intro hc'
        rw [Bool.and_eq_true] at hc'
        have := hc [] n ns f rfl hc'.1 rfl
        rw [this] at hc'
        exact absurd hc'.2 (by simp)

/-! ### Pieces -/

theorem advance_le (later : Bool) : (advance step go later f ns).1 ≤ ns.length := by
  induction ns generalizing later f with
  | nil => exact Nat.le_refl 0
  | cons n ns ih =>
    rw [advance]
    split
    · exact Nat.zero_le _
    · split
      · exact Nat.zero_le _
      · exact Nat.succ_le_succ (ih true)

/-- A loop gets as far as a walk does that makes the same checks. -/
theorem advance_march (hc : ∀ t, t + 1 < ns.length → checks (i + 1 + t) = true) :
    let r := advance step go (checks i) f ns
    march step go checks i f (ns.take r.1) = some r.2 ∧
      (r.1 < ns.length → march step go checks i f (ns.take (r.1 + 1)) = none) := by
  induction ns generalizing i f with
  | nil => exact ⟨rfl, fun h => absurd h (Nat.lt_irrefl 0)⟩
  | cons n ns ih =>
    rw [advance]
    by_cases hno : (checks i && !go f) = true
    · rw [if_pos hno]
      exact ⟨rfl, fun _ => by rw [List.take_succ_cons, march, if_pos hno]⟩
    · rw [if_neg hno]
      rcases hs : step f n with _ | g
      · refine ⟨rfl, fun _ => ?_⟩
        rw [List.take_succ_cons, march, if_neg hno, hs, Option.bind_none]
      · simp only [List.take_succ_cons, march, hs, Option.bind_some, if_neg hno, List.length_cons,
          Nat.add_lt_add_iff_right]
        rcases ns with _ | ⟨n', ns⟩
        · exact ⟨rfl, fun h => absurd h (Nat.lt_irrefl 0)⟩
        · have htrue : checks (i + 1) = true := hc 0 (by simp)
          have := ih (i := i + 1) (f := g) fun t ht => by
            have := hc (t + 1) (by simpa using ht)
            rwa [Nat.add_right_comm (i + 1) 1 t]
          rwa [htrue] at this

/-- The checks of a walk in one piece: before each step but the first. -/
def afterFirst (i : ℕ) : Bool := decide (i ≠ 0)

/-- The checks of a walk in pieces: not at the start of a piece. -/
def within (m i : ℕ) : Bool := decide (i % m ≠ 0)

section

variable {m k : ℕ}

/-- What one piece does, as part of the walk. -/
theorem piece_march (hi : m ∣ i) (ns : List N) :
    let r := advance step go false f (ns.take m)
    march step go (within m) i f ((ns.take m).take r.1) = some r.2 ∧
      (r.1 < (ns.take m).length →
        march step go (within m) i f ((ns.take m).take (r.1 + 1)) = none) := by
  have h0 : within m i = false := by simp [within, Nat.mod_eq_zero_of_dvd hi]
  have := @advance_march F N step go (within m) i f (ns.take m) fun t ht => by
    obtain ⟨j, rfl⟩ := hi
    have hlt : t + 1 < m := Nat.lt_of_lt_of_le ht (by rw [List.length_take]; omega)
    rw [within, decide_eq_true_eq, Nat.add_assoc, Nat.add_comm 1 t, Nat.mul_add_mod,
      Nat.mod_eq_of_lt hlt]
    exact Nat.succ_ne_zero t
  rwa [h0] at this

/-- A piece that gets nowhere cannot take its first step. -/
theorem advance_eq_zero : (advance step go false f (n :: ns)).1 = 0 ↔ step f n = none := by
  rw [advance, if_neg (by simp)]
  cases step f n <;> simp

theorem march_of_take_none {a : ℕ} (h : march step go checks i f (ns.take a) = none) :
    march step go checks i f ns = none := by
  rw [← List.take_append_drop a ns, march_append, h, Option.bind_none]

/-- **A step that cannot be taken, between two pieces.** If they are not `later` pieces, it
is not the first one. -/
def StuckAt (step : F → N → Option F) (go : F → Bool) (m : ℕ) (later : Bool) (i : ℕ) (f : F)
    (ns : List N) : Prop :=
  ∃ as n bs g, ns = as ++ n :: bs ∧ m ∣ as.length ∧ (later = false → as ≠ []) ∧
    march step go (within m) i f as = some g ∧ step g n = none

/-- If the front is not empty, the first piece is in it. -/
theorem piece_front (hd : m ∣ as.length) (hne : as ≠ []) (h : ns = as ++ bs) :
    as = ns.take m ++ as.drop m ∧ ns.drop m = as.drop m ++ bs ∧ (ns.take m).length = m := by
  have hle : m ≤ as.length := Nat.le_of_dvd (List.length_pos_iff.mpr hne) hd
  rw [h, List.take_append_of_le_length hle, List.drop_append_of_le_length hle, List.length_take]
  exact ⟨(List.take_append_drop m as).symm, rfl, Nat.min_eq_left hle⟩

/-- A first piece that does not get through is where the walk ends. -/
theorem stuckAt_of_short (hi : m ∣ i) {later : Bool}
    (hr : (advance step go false f ((n :: ns).take m)).1 < ((n :: ns).take m).length) :
    march step go (within m) i f (n :: ns) = none ∧
      (StuckAt step go m later i f (n :: ns) ↔
        (advance step go false f ((n :: ns).take m)).1 = 0 ∧ later = true) := by
  have hm : m ≠ 0 := by
    rintro rfl
    exact absurd hr (by simp)
  obtain ⟨m, rfl⟩ := Nat.exists_eq_succ_of_ne_zero hm
  have hpiece : march step go (within (m + 1)) i f ((n :: ns).take (m + 1)) = none :=
    march_of_take_none ((piece_march hi (n :: ns)).2 hr)
  refine ⟨march_of_take_none hpiece, ?_⟩
  · rw [List.take_succ_cons, advance_eq_zero]
    constructor
    · rintro ⟨as, n', bs, g, hns, hd, hl, has, hs⟩
      by_cases hne : as = []
      · subst hne
        obtain ⟨rfl, -⟩ := List.cons.inj hns
        obtain rfl : f = g := Option.some_inj.mp has
        refine ⟨hs, ?_⟩
        by_contra hf
        exact hl (by simpa using hf) rfl
      · rw [(piece_front hd hne hns).1, march_append, hpiece] at has
        cases has
    · rintro ⟨hs, rfl⟩
      exact ⟨[], n, ns, f, rfl, Nat.dvd_zero _, nofun, rfl, hs⟩

/-- What is behind a first piece that gets through. -/
theorem stuckAt_of_full (hm : 0 < m) (hi : m ∣ i) {later : Bool}
    (hr : (advance step go false f ((n :: ns).take m)).1 = ((n :: ns).take m).length) :
    march step go (within m) i f (n :: ns) =
        march step go (within m) (i + ((n :: ns).take m).length)
          (advance step go false f ((n :: ns).take m)).2 ((n :: ns).drop m) ∧
      (StuckAt step go m later i f (n :: ns) ↔
        StuckAt step go m true (i + ((n :: ns).take m).length)
          (advance step go false f ((n :: ns).take m)).2 ((n :: ns).drop m)) := by
  obtain ⟨m, rfl⟩ := Nat.exists_eq_succ_of_ne_zero (Nat.ne_of_gt hm)
  generalize hg : (advance step go false f ((n :: ns).take (m + 1))).2 = g
  have hpiece : march step go (within (m + 1)) i f ((n :: ns).take (m + 1)) = some g := by
    have := (@piece_march F N step go i f (m + 1) hi (n :: ns)).1
    rwa [hr, List.take_length, hg] at this
  have hmarch : ∀ cs : List N, march step go (within (m + 1)) i f ((n :: ns).take (m + 1) ++ cs) =
      march step go (within (m + 1)) (i + ((n :: ns).take (m + 1)).length) g cs := fun cs => by
    rw [march_append, hpiece, Option.bind_some]
  refine ⟨?_, ?_, ?_⟩
  · rw [← hmarch, List.take_append_drop]
  · rintro ⟨as, n', bs, g', hns, hd, -, has, hs⟩
    by_cases hne : as = []
    · -- the first step has been taken
      subst hne
      obtain ⟨rfl, -⟩ := List.cons.inj hns
      obtain rfl : f = g' := Option.some_inj.mp has
      rw [List.take_succ_cons, advance_eq_zero.mpr hs] at hr
      cases hr
    · obtain ⟨has', hrest, hlen⟩ := piece_front hd hne hns
      refine ⟨as.drop (m + 1), n', bs, g', hrest, ?_, nofun, ?_, hs⟩
      · rw [List.length_drop]
        exact Nat.dvd_sub hd (Nat.dvd_refl _)
      · rwa [← hmarch, ← has']
  · rintro ⟨as, n', bs, g', hrest, hd, -, has, hs⟩
    have hlen : ((n :: ns).take (m + 1)).length = m + 1 := by
      have := congrArg List.length hrest
      simp only [List.length_drop, List.length_append, List.length_cons] at this
      rw [List.length_take, List.length_cons]
      omega
    refine ⟨(n :: ns).take (m + 1) ++ as, n', bs, g', ?_, ?_, fun _ => by simp, ?_, hs⟩
    · rw [List.append_assoc, ← hrest, List.take_append_drop]
    · rw [List.length_append, hlen]
      exact Nat.dvd_add (Nat.dvd_refl _) hd
    · rwa [hmarch]

/-- **How a walk in pieces ends.** -/
theorem inPieces_spec (hm : 0 < m) (hi : m ∣ i) (hk : ns.length ≤ k) (later : Bool) :
    match inPieces step go m k later f ns with
    | .arrived g => march step go (within m) i f ns = some g ∧ ¬StuckAt step go m later i f ns
    | .missed => march step go (within m) i f ns = none ∧ ¬StuckAt step go m later i f ns
    | .stuck => march step go (within m) i f ns = none ∧ StuckAt step go m later i f ns := by
  have hnil : ∀ {i : ℕ} {f : F} {later : Bool}, ¬StuckAt step go m later i f ([] : List N) := by
    rintro i f later ⟨as, n, bs, g, h, -⟩
    exact absurd h (by simp)
  induction k generalizing i f ns later with
  | zero =>
    obtain rfl := List.eq_nil_of_length_eq_zero (Nat.le_zero.mp hk)
    exact ⟨rfl, hnil⟩
  | succ k ih =>
    rcases ns with _ | ⟨n, ns⟩
    · exact ⟨rfl, hnil⟩
    · rw [inPieces]
      by_cases hr : (advance step go false f ((n :: ns).take m)).1 = ((n :: ns).take m).length
      · obtain ⟨hmarch, hstuck⟩ := @stuckAt_of_full F N step go i f n ns m hm hi later hr
        rw [if_pos hr, hmarch, hstuck]
        by_cases hrest : (n :: ns).drop m = []
        · rw [hrest]
          cases k <;> exact ⟨rfl, hnil⟩
        · have hlen : m < (n :: ns).length := by
            by_contra hle
            exact hrest (List.drop_eq_nil_of_le (Nat.le_of_not_lt hle))
          rw [List.length_take, Nat.min_eq_left (Nat.le_of_lt hlen)]
          refine ih (Nat.dvd_add hi (Nat.dvd_refl m)) ?_ true
          rw [List.length_drop]
          omega
      · have hlt := Nat.lt_of_le_of_ne (advance_le false) hr
        obtain ⟨hmarch, hstuck⟩ := @stuckAt_of_short F N step go i f n ns m hi later hlt
        rw [if_neg hr, hmarch, hstuck]
        by_cases h : (advance step go false f ((n :: ns).take m)).1 = 0 ∧ later = true
        · rw [if_pos h]
          exact ⟨rfl, h⟩
        · rw [if_neg h]
          exact ⟨rfl, h⟩

theorem not_stuckAt_iff : ¬StuckAt step go m false 0 f ns ↔
    ∀ i (hi : i < ns.length), 0 < i → m ∣ i →
      ∀ g ∈ march step go (within m) 0 f (ns.take i), step g ns[i] ≠ none := by
  constructor
  · intro h i hi h0 hd g hg hs
    have hlen : (ns.take i).length = i := by
      rw [List.length_take, Nat.min_eq_left (Nat.le_of_lt hi)]
    refine h ⟨ns.take i, ns[i], ns.drop (i + 1), g, by simp, by rwa [hlen], fun _ hnil => ?_,
      hg, hs⟩
    rw [← hlen, hnil] at h0
    exact absurd h0 (Nat.lt_irrefl 0)
  · rintro h ⟨as, n, bs, g, rfl, hd, hne, has, hs⟩
    refine h as.length (by simp) (List.length_pos_iff.mpr (hne rfl)) hd g (by simpa using has) ?_
    simpa using hs

/-- The checks between the pieces are not made. -/
theorem march_within_of_afterFirst {as : List N} {g : F}
    (h : march step go afterFirst 0 f as = some g) : march step go (within m) 0 f as = some g := by
  refine march_mono (fun i hi => ?_) h
  rw [afterFirst, decide_eq_true_eq]
  rintro rfl
  simp [within] at hi

/-- A walk that gets through without them gets through with them if all of them succeed. -/
theorem march_afterFirst_iff {g : F} (h : march step go (within m) 0 f ns = some g) :
    march step go afterFirst 0 f ns = some g ↔ ∀ i < ns.length, 0 < i → m ∣ i →
      ∀ g ∈ march step go (within m) 0 f (ns.take i), go g = true := by
  constructor
  · intro hall i hi h0 _ g' has
    have hns : ns = ns.take i ++ ns[i] :: ns.drop (i + 1) := by simp
    rw [hns] at hall
    obtain ⟨g'', has', hgo, -⟩ := march_front hall
    rw [march_within_of_afterFirst has'] at has
    obtain rfl := Option.some_inj.mp has
    refine hgo (decide_eq_true ?_)
    rw [List.length_take, Nat.min_eq_left (Nat.le_of_lt hi)]
    omega
  · intro hgo
    refine march_of_checks h fun as n bs g' hns hi has => ?_
    rw [Nat.zero_add, afterFirst, decide_eq_true_eq] at hi
    by_cases hd : m ∣ as.length
    · refine hgo as.length (by rw [hns]; simp) (Nat.pos_of_ne_zero hi) hd g' ?_
      rwa [hns, List.take_left]
    · -- within a piece, the check was made
      rw [hns] at h
      obtain ⟨g'', has', hw, -⟩ := march_front h
      rw [has'] at has
      obtain rfl := Option.some_inj.mp has
      refine hw (decide_eq_true fun h0 => hd (Nat.dvd_of_mod_eq_zero ?_))
      rwa [Nat.zero_add] at h0

/-- **When the pieces do not matter**: no later piece begins with a step that cannot be
taken, and where the walk gets through, one may go on from between the pieces. -/
theorem inPieces_eq_iff (hm : 0 < m) :
    (inPieces step go m ns.length false f ns =
      match march step go afterFirst 0 f ns with
      | some g => .arrived g
      | none => .missed) ↔
    (∀ i (hi : i < ns.length), 0 < i → m ∣ i →
      ∀ g ∈ march step go (within m) 0 f (ns.take i), step g ns[i] ≠ none) ∧
    (march step go (within m) 0 f ns ≠ none → ∀ i < ns.length, 0 < i → m ∣ i →
      ∀ g ∈ march step go (within m) 0 f (ns.take i), go g = true) := by
  rw [← not_stuckAt_iff]
  have hspec := @inPieces_spec F N step go 0 f ns m _ hm (Nat.dvd_zero m) (Nat.le_refl _) false
  cases he : inPieces step go m ns.length false f ns with
  | arrived g =>
    rw [he] at hspec
    obtain ⟨hmarch, hno⟩ := hspec
    have hiff := march_afterFirst_iff hmarch
    constructor
    · intro heq
      rcases hall : march step go afterFirst 0 f ns with _ | g₀
      · rw [hall] at heq
        cases heq
      · rw [hall] at heq
        cases heq
        exact ⟨hno, fun _ => hiff.mp hall⟩
    · rintro ⟨-, hgo⟩
      rw [hiff.mpr (hgo (by rw [hmarch]; simp))]
  | missed =>
    rw [he] at hspec
    obtain ⟨hmarch, hno⟩ := hspec
    have hall : march step go afterFirst 0 f ns = none := by
      rcases hall : march step go afterFirst 0 f ns with _ | g₀
      · rfl
      · rw [march_within_of_afterFirst hall] at hmarch
        cases hmarch
    rw [hall]
    exact iff_of_true rfl ⟨hno, fun h => absurd hmarch h⟩
  | stuck =>
    rw [he] at hspec
    refine iff_of_false ?_ fun h => h.1 hspec.2
    split <;> exact nofun

end

end Diod
