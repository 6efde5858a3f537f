import Diod.Npfs.Process

/-!
# Handlers that count

Six handlers change the references on fids. `Tclunk` and `Tremove` give up the
request's fid, whether they succeed or not; `Tauth` and `Tattach` take another
reference on it; `Twalk` and `Txattrwalk` make a fid, and take it back when they fail.

What is left of `Diod.Mild` without the counts is `Diod.Loose`: fids that are there
before and after are alike, and none comes back. The counts are then said for each
handler on its own, and put together in `Diod.handler_does`.
-/

namespace Diod

open Prog

variable {σ α β : Type} {C C' : Scope}

/-! ### Without the counts -/

/-- **What a part of a handler does**, apart from references. -/
structure Loose (C : Scope) (e : End) (w w' : World σ) : Prop where
  trace : ∃ l, w'.trace = w.trace ++ l ∧ ∀ v ∈ l, C.emits v
  believes : w.wt.Believes → w'.wt.Believes
  sess : e ≠ .crash → ¬C.sess →
    w'.conn.msize = w.conn.msize ∧ w'.conn.authuser = w.conn.authuser
  next : e ≠ .crash → w.conn.pool.next ≤ w'.conn.pool.next
  /-- What is gone does not come back. -/
  gone : e ≠ .crash → ∀ q < w.conn.pool.next, w.conn.pool.get q = none →
    w'.conn.pool.get q = none
  alike : e ≠ .crash → ∀ q f f', C.keeps q → w.conn.pool.get q = some f →
    w'.conn.pool.get q = some f' → f.Like C.attr (C.moves e) f'
  ecode : C.clean = true → e = .ok → w.b.ecode = 0 → w'.b.ecode = 0

variable {P : FidPool} {e : End} {w' w₁ : World σ} {n : UInt32} {x : Prog (World σ) α}
  {g : α → Prog (World σ) β} {F : Type} {q : ℕ} {f' : Npfid}

theorem FidPool.lt_next {p : ℕ} {f : Npfid} (h : P.get p = some f) : p < P.next :=
  Heap.lt_next h

theorem FidPool.get_of_refs {P' : FidPool} (h : ∀ q, P'.refs q = P.refs q) (q : ℕ) :
    P'.get q = none ↔ P.get q = none := by
  have hq := h q
  unfold FidPool.refs at hq
  rw [← Option.map_eq_none_iff (f := Npfid.refcount), hq, Option.map_eq_none_iff]

theorem Mild.loose {w : World σ} (h : Mild C e w w') : Loose C e w w' where
  trace := h.trace
  believes := h.believes
  sess := h.sess
  next he := (h.next he).ge
  gone he q _ hq := (FidPool.get_of_refs (h.refs he) q).mpr hq
  alike he q f f' hq hf hf' := by
    obtain ⟨g, hg, hl⟩ := h.alike he q f hq hf
    obtain rfl : g = f' := Option.some.inj (hg.symm.trans hf')
    exact hl
  ecode := h.ecode

theorem Loose.trans {D : Scope} {e' : End} {a b c : World σ} (h : Loose C e a b)
    (h' : Loose C' e' b c) (hC : C.Le D e (e.join e')) (hC' : C'.Le D e' (e.join e')) :
    Loose D (e.join e') a c where
  trace := logged_trans h.trace h'.trace hC.emits hC'.emits
  believes hb := h'.believes (h.believes hb)
  sess hn hs :=
    have ⟨he, he'⟩ := End.join_ne_crash hn
    have h₁ := h.sess he fun h => hs (hC.sess h)
    have h₂ := h'.sess he' fun h => hs (hC'.sess h)
    ⟨h₂.1.trans h₁.1, h₂.2.trans h₁.2⟩
  next hn :=
    have ⟨he, he'⟩ := End.join_ne_crash hn
    (h.next he).trans (h'.next he')
  gone hn q hq hg :=
    have ⟨he, he'⟩ := End.join_ne_crash hn
    h'.gone he' q (hq.trans_le (h.next he)) (h.gone he q hq hg)
  alike hn q f k hq hf hk := by
    obtain ⟨he, he'⟩ := End.join_ne_crash hn
    have hlt := FidPool.lt_next hf
    rcases hg : b.conn.pool.get q with _ | g
    · rw [h'.gone he' q (hlt.trans_le (h.next he)) hg] at hk
      cases hk
    · exact ((h.alike he q f g (hC.keeps q hq) hf hg).mono hC.attr hC.moves).trans
        ((h'.alike he' q g k (hC'.keeps q hq) hg hk).mono hC'.attr hC'.moves)
  ecode hc hj h0 :=
    have ⟨he, he'⟩ := End.join_eq_ok hj
    h'.ecode (hC'.clean hc) he' (h.ecode (hC.clean hc) he h0)

/-- A larger scope. -/
theorem Loose.mono {w : World σ} (h : Loose C e w w') (hC : C.Le C' e e) : Loose C' e w w' where
  trace := logged_mono h.trace hC.emits
  believes := h.believes
  sess he hs := h.sess he fun h => hs (hC.sess h)
  next := h.next
  gone := h.gone
  alike he q f f' hq hf hf' := (h.alike he q f f' (hC.keeps q hq) hf hf').mono hC.attr hC.moves
  ecode hc := h.ecode (hC.clean hc)

/-- A crash leaves little to be said. -/
theorem Loose.crash {w : World σ} (h : Loose C e w w') : Loose C .crash w w' where
  trace := h.trace
  believes := h.believes
  sess h := absurd rfl h
  next h := absurd rfl h
  gone h := absurd rfl h
  alike h := absurd rfl h
  ecode _ h := by cases h

theorem Loose.of_rfid {w : World σ} (h : Loose C e w w') (r : Option ℕ) :
    Loose C e w { w' with rfid := r } :=
  ⟨h.trace, h.believes, h.sess, h.next, h.gone, h.alike, h.ecode⟩

theorem Npfid.Like.of_recount {x : Bool → Prop} {m : Prop} (f : Npfid) (n : ℕ) :
    f.Like x m { f with refcount := n } :=
  (Npfid.Like.refl f).recount f.refcount n

/-- One reference less. -/
theorem Released.loose {f : Npfid} {p : ℕ} {w : World σ}
    (h : Released f p e w w') (hf : w.conn.pool.get p = some f)
    (hc : C.clean = true → e = .ok → w.b.ecode = 0 → w'.b.ecode = 0)
    (hv : ∀ v, f.refcount = 1 → Closes f w.wt.k.fsuid v → C.emits v) : Loose C e w w' where
  trace := logged_mono h.trace fun v h => hv v h.1 h.2
  believes := by
    rw [h.wt]
    exact id
  sess he _ := by rw [h.conn he]; exact ⟨rfl, rfl⟩
  next he := by rw [h.conn he]; exact (FidPool.next_decref ..).ge
  gone he q hq hg := by
    rw [h.conn he]
    have hne : q ≠ p := fun hqp => by rw [hqp, hf] at hg; cases hg
    exact (FidPool.get_decref_of_ne hne).trans hg
  alike he q g g' _ hg hg' := by
    rw [h.conn he] at hg'
    rcases eq_or_ne q p with rfl | hne
    · obtain rfl : g = f := Option.some.inj (hg.symm.trans hf)
      by_cases h1 : g.refcount = 1
      · rw [FidPool.get_decref_last hf h1] at hg'
        cases hg'
      · rw [FidPool.get_decref_self hf h1] at hg'
        cases hg'
        exact .of_recount g _
    · rw [FidPool.get_decref_of_ne hne, hg] at hg'
      cases hg'
      exact .refl g
  ecode := hc

/-! ### Giving up the request's fid -/

variable (H : Host σ) (S : Npsrv) {tc : Msg} {w : World σ} {p : ℕ} {f : Npfid}

/-- The scope of what is done before a fid is given up. -/
def dropScope (S : Npsrv) (tc : Msg) (w : World σ) : Scope :=
  { emits := Emit S tc w, clean := false }

/-- What is left of a count. -/
def oneLess : Option ℕ → Option ℕ
  | some n => if n = 1 then none else some (n - 1)
  | none => none

theorem FidPool.refs_decref (h : P.get p = some f) (q : ℕ) :
    (P.decref p).refs q = if q = p then oneLess (P.refs p) else P.refs q := by
  split
  · rename_i hq
    rw [hq, FidPool.refs, FidPool.refs, h]
    by_cases h1 : f.refcount = 1
    · rw [FidPool.get_decref_last h h1]
      simp [oneLess, h1]
    · rw [FidPool.get_decref_self h h1]
      simp [oneLess, h1]
  · rename_i hq
    exact FidPool.refs_decref_of_ne hq

/-- **A request that gives its fid up.** -/
structure Dropped (S : Npsrv) (tc : Msg) (e : End) (w w' : World σ) : Prop where
  loose : Loose { scope S tc w with clean := false } e w w'
  next : e ≠ .crash → w'.conn.pool.next = w.conn.pool.next
  refs : e ≠ .crash → ∀ q, w'.conn.pool.refs q =
    if w.rfid = some q then oneLess (w.conn.pool.refs q) else w.conn.pool.refs q
  rfid : e ≠ .crash → w'.rfid = if w.rfid.bind w'.conn.pool.get = none then none else w.rfid

theorem Dropped.of_crash
    (h : Loose { scope S tc w with clean := false } .crash w w') : Dropped S tc .crash w w' :=
  ⟨h, fun h => absurd rfl h, fun h => absurd rfl h, fun h => absurd rfl h⟩

theorem dropScope_le (e e' : End) :
    (dropScope S tc w).Le { scope S tc w with clean := false } e e' :=
  ⟨fun _ h => h, fun _ => False.elim, False.elim, fun _ _ => trivial, False.elim,
    fun h => by cases h⟩

theorem npFidDecrefReq_of_none (hr : w.rfid = none) : npFidDecrefReq H w = (.ok (), w) := by
  rw [npFidDecrefReq, read_bind, hr]
  rfl

theorem npFidDecrefReq_of_some (hr : w.rfid = some p) :
    npFidDecrefReq H w = (npFidDecref H p >>= fun destroyed =>
      .when destroyed (.modify fun w => { w with rfid := none })) w := by
  rw [npFidDecrefReq, read_bind, hr]

/-- The request has no fid any more if that was the last reference. -/
theorem npFidDecrefReq_of_ok {b : Bool} (hr : w.rfid = some p)
    (hf : w.conn.pool.get p = some f) (h : npFidDecref H p w = (.ok b, w')) :
    npFidDecrefReq H w =
      (.ok (), { w' with rfid := if f.refcount = 1 then none else some p }) := by
  have hr' := ((npFidDecref_does H hf).of_eq h).rfid.trans hr
  obtain rfl := npFidDecref_ok H hf h
  rw [npFidDecrefReq_of_some H hr, bind_of_ok h]
  by_cases h1 : f.refcount = 1
  · simp [Prog.when, Prog.modify, h1]
  · simp [Prog.when, h1, ← hr', pure_apply]

section

variable {S} {w₁ w₂ : World σ} {e : End} {f₁ : Npfid}

/-- The fid that is given up is the one that the request began with, so what is asked of the
host when it is closed is what the request may ask. -/
theorem Mild.emit_of_closes (hm : Mild (dropScope S tc w) e w w₁) (hc : e ≠ .crash)
    (hp : w.rfid = some p) (hf₁ : w₁.conn.pool.get p = some f₁) :
    ∀ v, f₁.refcount = 1 → Closes f₁ w₁.wt.k.fsuid v → Emit S tc w v := by
  rintro v - ⟨-, c, err, rfl, hv⟩
  rcases hf : w.conn.pool.get p with _ | f
  · rw [(FidPool.get_of_refs (hm.refs hc) p).mpr hf] at hf₁
    cases hf₁
  · obtain ⟨f', hf', hl⟩ := hm.alike hc p f trivial hf
    obtain rfl : f' = f₁ := Option.some.inj (hf'.symm.trans hf₁)
    rw [hl.uid]
    exact .close hp hf (hv.imp id fun h => (hl.pending h).elim id False.elim)

/-- One reference less, after something mild. -/
theorem Dropped.of_released (hm : Mild (dropScope S tc w) e w w₁) (hp : w.rfid = some p)
    (hf₁ : w₁.conn.pool.get p = some f₁) (hconn : w₂.conn.pool = w₁.conn.pool.decref p)
    (hl : Loose { scope S tc w with clean := false } e w w₂) :
    Dropped S tc e w { w₂ with rfid := if f₁.refcount = 1 then none else some p } := by
  refine ⟨hl.of_rfid _, fun h => ?_, fun h q => ?_, fun h => ?_⟩
  · change w₂.conn.pool.next = _
    rw [hconn]
    exact (FidPool.next_decref ..).trans (hm.next h)
  · change w₂.conn.pool.refs q = _
    rw [hconn]
    refine (FidPool.refs_decref hf₁ q).trans ?_
    rw [hm.refs h, hm.refs h, hp]
    by_cases hqp : q = p
    · rw [if_pos hqp, if_pos (congrArg some hqp.symm), hqp]
    · rw [if_neg hqp, if_neg fun h => hqp (Option.some.inj h).symm]
  · change (if f₁.refcount = 1 then none else some p) =
      if w.rfid.bind w₂.conn.pool.get = none then none else w.rfid
    rw [hp, hconn, Option.bind_some]
    by_cases h1 : f₁.refcount = 1
    · rw [if_pos h1, FidPool.get_decref_last hf₁ h1, if_pos rfl]
    · rw [if_neg h1, FidPool.get_decref_self hf₁ h1, if_neg (by simp)]

end

/-- The request's fid is given up, after something mild. -/
theorem drop_does {body : Prog (World σ) Msg} (hb : body.DoesAt (Mild (dropScope S tc w)) w) :
    (Prog.done body fun _ => npFidDecrefReq H).DoesAt (Dropped S tc) w := by
  rcases hx : body w with ⟨r, w₁⟩
  have hm := hb.of_eq hx
  have hlm := hm.loose.mono (dropScope_le S _ _)
  by_cases hc : r.ending = .crash
  · obtain rfl := Res.eq_crash hc
    exact doesAt_of_eq (done_of_crash hx) (.of_crash S hlm)
  have hr := hm.rfid hc
  rcases hp : w.rfid with _ | p
  · have hd := npFidDecrefReq_of_none H (hr.trans hp)
    refine doesAt_of_eq (done_of_ok hx hc hd) ⟨hlm, hm.next, fun h q => ?_, fun h => ?_⟩
    · rw [hp, if_neg (by simp)]
      exact hm.refs h q
    · rw [hr, hp]
      rfl
  · have hq := npFidDecrefReq_of_some H (hr.trans hp)
    rcases hf₁ : w₁.conn.pool.get p with _ | f₁
    · have hd : npFidDecrefReq H w₁ = (.crash, w₁) := by
        rw [hq]
        exact bind_of_crash (bind_of_crash (deref_of_none hf₁))
      exact doesAt_of_eq (done_of_crash_after hx hc hd) (.of_crash S hlm.crash)
    · rcases hd : npFidDecref H p w₁ with ⟨r', w₂⟩
      have hrel := (npFidDecref_does H hf₁).of_eq hd
      have hll := hrel.loose (C := dropScope S tc w) hf₁ (fun h => by cases h)
        (hm.emit_of_closes hc hp hf₁)
      have hj := hm.loose.trans hll (dropScope_le S _ _) (dropScope_le S _ _)
      rcases r' with b | _ | _
      · rw [show End.join r.ending (Res.ending (.ok b : Res Bool)) = r.ending from
          End.join_ok ..] at hj
        have hconn := hrel.conn (by simp)
        exact doesAt_of_eq (done_of_ok hx hc (npFidDecrefReq_of_ok H (hr.trans hp) hf₁ hd))
          (.of_released hm hp hf₁ (by rw [hconn]) hj)
      · exact absurd rfl hrel.ne_stop
      · have hd' : npFidDecrefReq H w₁ = (.crash, w₂) := hq.trans (bind_of_crash hd)
        rw [show End.join r.ending (Res.ending (.crash : Res Bool)) = .crash from
          End.join_crash ..] at hj
        exact doesAt_of_eq (done_of_crash_after hx hc hd') (.of_crash S hj)

/-- Clunking a fid calls the host by path only if an attribute is pending. -/
theorem npClunk_does : (npClunk H).DoesAt (Dropped S (.tclunk n)) w := by
  refine drop_does H S (reqFid_bind fun p f hr hf => doesAt_ite (fun ha => ?_) fun ha =>
    doesAt_ite (fun ht => ?_) fun ht => ?_)
  · exact quiet_bind (allocOr_quiet H ENOMEM w) fun _ w₁ _ _ => Mild.refl _ w₁
  · rw [Bool.not_eq_true] at ha
    exact ctlOp_mild (m := fun _ => false) (L := Look) hf (.ctl hr hf ht fun _ => ha)
      ((Op.npCtlClunk_tame H).mono fun _ _ _ h => h) (fun _ _ hc => .look hr hf ht hc)
      fun _ h => by cases h
  · rw [Bool.not_eq_true] at ha ht
    refine auxOp_mild (L := fun c => Local c ∨ f.pending = true)
      (K := fun _ => Op.Moves false false) srvAux hf (.srv hr hf ht fun _ => ha) (fun d hd => ?_)
      (fun c err hc => .close hr hf hc) fun _ e d d' hd hK => ?_
    · have hd : f.aux = .srv d := srvAux.put_of_get hd
      exact Op.diodClunk_tame (fun _ h => .inl h) fun h _ => .inr (by
        simpa [Npfid.pending, hd] using h)
    · exact like_srv (srvAux.put_of_get hd) (fun h => .inl (hK.2 rfl h)) fun _ => hK.1 rfl

theorem npRemove_does : (npRemove H S).DoesAt (Dropped S (.tremove n)) w := by
  refine drop_does H S (reqFid_bind fun p f hr hf => failIf_bind fun hro => ?_)
  rw [Bool.not_eq_true] at hro
  exact dispatch_mild H S (m := fun _ => false) (a := false) hf
    (fun _ => (fail_quiet EPERM w).mild) (fun ht => .srv hr hf ht (unaware rfl))
    (Op.moves.tame fun f => (Op.anywhere f).remove)
    (fun ht _ c _ hk _ => .call hr hf ht hk fun _ => .inl hro)
    (fun _ h => by cases h) fun h => by cases h

/-! ### Opening the request's fid -/

/-- The scope without moves. -/
def Scope.still (C : Scope) : Scope := { C with moves := fun _ => False }

theorem Scope.still_steady (C : Scope) : C.still.Steady := fun _ _ => False.elim

theorem Scope.still_le (C : Scope) (e e' : End) : C.still.Le C e e' :=
  { Scope.Le.refl C e with moves := False.elim }

/-- What is made of a fid that is opened: it gets a user, and the flag `FID_FLAGS_ROFS`. -/
structure Npfid.Opening (f f' : Npfid) : Prop where
  fid : f'.fid = f.fid
  type : f'.type = f.type
  aname : f'.aname = f.aname
  zombie : f'.zombie = f.zombie
  aux : f'.aux = f.aux
  user : f.user.isSome = true → f'.user.isSome = true

/-- A step on the way to open the fid `p`. -/
structure Opens (C : Scope) (p : ℕ) (e : End) (w w' : World σ) : Prop extends Mild C e w w' where
  opening : e ≠ .crash → ∀ f, w.conn.pool.get p = some f →
    ∃ f', w'.conn.pool.get p = some f' ∧ f.Opening f'

theorem opens_effect (hC : C.Steady) : Effect (Opens (σ := σ) C p) where
  refl e w := ⟨Mild.refl e w, fun _ f hf => ⟨f, hf, rfl, rfl, rfl, rfl, rfl, id⟩⟩
  trans {e e' a b c} h h' := by
    refine ⟨(mild_effect hC).trans h.toMild h'.toMild, fun hn f hf => ?_⟩
    obtain ⟨he, he'⟩ := End.join_ne_crash hn
    obtain ⟨g, hg, h₁⟩ := h.opening he f hf
    obtain ⟨k, hk, h₂⟩ := h'.opening he' g hg
    exact ⟨k, hk, h₂.fid.trans h₁.fid, h₂.type.trans h₁.type, h₂.aname.trans h₁.aname,
      h₂.zombie.trans h₁.zombie, h₂.aux.trans h₁.aux, fun hu => h₂.user (h₁.user hu)⟩

theorem Quiet.opens {w : World σ} (h : Quiet e w w') : Opens C p e w w' :=
  ⟨h.mild, fun _ f hf => ⟨f, h.conn ▸ hf, rfl, rfl, rfl, rfl, rfl, id⟩⟩

/-- What is done elsewhere. -/
theorem Mild.opens {w : World σ} (h : Mild C e w w')
    (hp : e ≠ .crash → w'.conn.pool.get p = w.conn.pool.get p) : Opens C p e w w' :=
  ⟨h, fun he f hf => ⟨f, (hp he).trans hf, rfl, rfl, rfl, rfl, rfl, id⟩⟩

theorem updateFid_opens {g : Npfid → Npfid} (hk : ¬C.keeps p)
    (hg : ∀ f : Npfid, f.Opening (g f)) :
    (updateFid p g : Prog (World σ) Unit).Does (Opens C p) := by
  intro w
  refine ⟨updateFid_mild fun _ h => absurd h hk, fun _ f hf => ?_⟩
  have h := hg f
  exact ⟨_, FidPool.get_update_self hf g, rfl, h.type, h.aname, h.zombie, h.aux, h.user⟩

theorem setUser_opens (hk : ¬C.keeps p) (u : Npuser) :
    (updateFid p fun f => { f with user := some u } : Prog (World σ) Unit).Does (Opens C p) :=
  updateFid_opens hk fun _ => ⟨rfl, rfl, rfl, rfl, rfl, fun _ => rfl⟩

/-- A step that gives the fid `p` a user when it ends well. -/
structure Named (C : Scope) (p : ℕ) (e : End) (w w' : World σ) : Prop
    extends Opens C p e w w' where
  named : e = .ok → ∀ f, w.conn.pool.get p = some f →
    ∃ f', w'.conn.pool.get p = some f' ∧ f'.user.isSome = true

theorem opens_bind_named (hC : C.Steady) (hx : x.DoesAt (Opens C p) w)
    (hg : ∀ a w₁, x w = (.ok a, w₁) → (g a).DoesAt (Named C p) w₁) :
    (x >>= g).DoesAt (Named C p) w := by
  refine hx.bind hg (fun _ _ he h => ⟨h, fun h => absurd h he⟩) fun e w₁ w₂ h h' =>
    ⟨(opens_effect hC).trans h h'.toOpens, fun he f hf => ?_⟩
  obtain ⟨f₁, hf₁, -⟩ := h.opening (by simp) f hf
  exact h'.named he f₁ hf₁

/-- The user is set, and stays set. -/
theorem setUser_bind (hC : C.Steady) (hk : ¬C.keeps p) (u : Npuser)
    {g : Unit → Prog (World σ) α}
    (hg : ∀ w₁, Opens C p .ok w w₁ → (g ()).DoesAt (Opens C p) w₁) :
    (updateFid p (fun f => { f with user := some u }) >>= g).DoesAt (Named C p) w := by
  have hs := setUser_opens (C := C) hk u w
  have hn : (updateFid p fun f => { f with user := some u }).DoesAt (Named C p) w :=
    ⟨hs, fun _ f hf => ⟨_, FidPool.get_update_self hf _, rfl⟩⟩
  refine hn.bind (fun _ w₁ h => hg w₁ (hs.of_eq h)) (fun _ _ _ h => h) fun e w₁ w₂ h h' =>
    ⟨(opens_effect hC).trans h.toOpens h', fun he f hf => ?_⟩
  obtain ⟨f₁, hf₁, hu⟩ := h.named rfl f hf
  obtain ⟨f₂, hf₂, hl⟩ := h'.opening (by simp [he]) f₁ hf₁
  exact ⟨f₂, hf₂, hl.user hu⟩

section

variable (hC : C.Steady) (hk : ¬C.keeps p)

include hC

theorem npAttach2user_opens (ans : Ans) (uname : Bytes) (nUname : UInt32) :
    (npAttach2user ans uname nUname : Prog (World σ) Npuser).Does (Opens C p) := by
  refine (opens_effect hC).bind (fun w => (failIf_quiet _ _ w).opens) fun _ => ?_
  split
  · exact (opens_effect hC).pure _
  · exact fun w => (fail_quiet _ w).opens

theorem npAfid2user_opens (a : Npfid) (uname : Bytes) (nUname : UInt32) :
    (npAfid2user S a uname nUname : Prog (World σ) Npuser).Does (Opens C p) := by
  unfold npAfid2user
  split
  · exact (opens_effect hC).crash
  · exact (opens_effect hC).bind (fun w => (failIf_quiet _ _ w).opens) fun _ =>
      (opens_effect hC).pure _

omit hC in
theorem record_opens {v : Event} (hv : C.emits v) :
    (record v : Prog (World σ) Unit).Does (Opens C p) :=
  fun w => (record_mild hv w).opens fun _ => rfl

omit hC in
theorem npConnSetAuthuser_opens (hs : C.sess) (uid : UInt32) :
    (npConnSetAuthuser uid : Prog (World σ) Unit).Does (Opens C p) :=
  fun w => (session_mild (g := fun c => { c with authuser := uid }) (fun _ => rfl) hs w).opens
    fun _ => rfl

include hk

theorem attachNoauth_named (ans : Ans) (uname : Bytes) (nUname : UInt32) (hs : C.sess)
    (hv : C.emits .rootAttach) :
    (attachNoauth ans p uname nUname : Prog (World σ) Unit).Does (Named C p) := fun w =>
  opens_bind_named hC (npAttach2user_opens hC ans uname nUname w) fun u _ _ =>
  setUser_bind hC hk u fun w₁ _ =>
  (opens_effect hC).whenAt fun _ =>
  (opens_effect hC).bind (record_opens hv) (fun _ => npConnSetAuthuser_opens hs _) w₁

theorem diodRemapuser_opens (ans : Ans) :
    (diodRemapuser S ans p : Prog (World σ) Unit).Does (Opens C p) := by
  refine (opens_effect hC).when fun _ => ?_
  split
  · exact setUser_opens hk _
  · exact fun w => (fail_quiet _ w).opens

theorem diodExportok_opens (ans : Ans) :
    (diodExportok S ans p : Prog (World σ) Unit).Does (Opens C p) := by
  refine (opens_effect hC).bind (fun w => (deref_quiet p w).opens) fun f =>
    (opens_effect hC).bind (opens_effect hC).read fun w => ?_
  split
  · exact fun w => (fail_quiet _ w).opens
  · refine (opens_effect hC).bind (fun w => (failIf_quiet _ _ w).opens) fun _ => ?_
    split
    · exact fun w => (fail_quiet _ w).opens
    · exact (opens_effect hC).when fun _ =>
        updateFid_opens hk fun _ => ⟨rfl, rfl, rfl, rfl, rfl, id⟩

end

/-- An operation on another fid. -/
theorem auxOp_get_of_ne (V : AuxView F) (hq : p ≠ q) (x : Prog (Ost σ F) α) :
    (auxOp V q x).Does fun _ w w' => w'.conn.pool.get p = w.conn.pool.get p := by
  intro w
  have h : auxOp V q x w = runAux V q [w.uid q] x { w with
    trace := w.trace ++ [.op V.backend [(w.aux q).backend]] } := rfl
  rw [DoesAt, h]
  unfold runAux
  split
  · rfl
  · exact FidPool.get_update_of_ne hq _

theorem npCheckauth_opens (hC : C.Steady) (ans : Ans) (uid : UInt32) {g : Npfid}
    (hv : C.emits (.checkauth uid)) (hne : p ≠ q) (hq : w.conn.pool.get q = some g)
    (hop : C.emits (.op .auth [g.aux.backend])) : (npCheckauth ans q uid).DoesAt (Opens C p) w := by
  refine doesAt_bind_of_ok (deref_of_get hq) ?_
  refine (opens_effect hC).bindAt (failIf_quiet _ _ w).opens fun _ w₁ h₁ => ?_
  obtain rfl := (failIf_eq_ok h₁).2
  refine (opens_effect hC).bindAt ?_ fun _ w₂ _ => record_opens hv w₂
  have hm : (auxOp authAux q (Op.checkauth uid ans.munge)).DoesAt (Mild C) w₁ :=
    authOp_mild hq hop (Op.checkauth_tame uid ans.munge)
  exact hm.opens fun _ => auxOp_get_of_ne authAux hne _ w₁

/-- The credential of the fid `q` is looked at, for the fid `p`. -/
theorem attachAuth_named (hC : C.Steady) (hk : ¬C.keeps p) (ans : Ans) (uname : Bytes)
    (nUname : UInt32) {g : Npfid} (hs : C.sess) (hv : ∀ u, C.emits (.checkauth u))
    (hne : p ≠ q) (hkq : C.keeps q) (hq : w.conn.pool.get q = some g)
    (hop : C.emits (.op .auth [g.aux.backend])) :
    (attachAuth S ans p uname nUname (some q)).DoesAt (Named C p) w := by
  refine opens_bind_named hC (deref_quiet q w).opens fun a w₁ h₁ => ?_
  rw [deref_of_get hq] at h₁
  cases h₁
  have hx := npAfid2user_opens (p := p) S hC g uname nUname w
  refine opens_bind_named hC hx fun u w₁ h₁ => setUser_bind hC hk u fun w₂ h₂ => ?_
  -- so far nothing has happened to the other fid
  obtain ⟨g₂, hg₂, hl⟩ := ((opens_effect hC).trans (hx.of_eq h₁) h₂).alike
    (by simp) q g hkq hq
  refine (opens_effect hC).bindAt ?_ fun _ w₃ _ => npConnSetAuthuser_opens hs _ w₃
  exact npCheckauth_opens hC ans u.uid (hv _) hne hg₂ (hl.backend ▸ hop)

/-- The user of an attach. -/
theorem attachUser_named (hC : C.Steady) (hk : ¬C.keeps p) (ans : Ans) (required : Bool)
    (uname : Bytes) (nUname : UInt32) {q : Option ℕ} (hs : C.sess)
    (hv : ∀ u, C.emits (.checkauth u)) (hv' : C.emits .rootAttach)
    (hq : ∀ q', q = some q' → p ≠ q' ∧ C.keeps q' ∧ ∃ g, w.conn.pool.get q' = some g ∧
      C.emits (.op .auth [g.aux.backend])) :
    (attachUser S ans required p uname nUname q).DoesAt (Named C p) w := by
  refine doesAt_ite (fun _ => ?_) fun _ => attachNoauth_named hC hk ans uname nUname hs hv' w
  rcases q with _ | q
  · exact opens_bind_named hC (npAttach2user_opens hC ans uname nUname w) fun u _ _ =>
      setUser_bind hC hk u fun w₁ _ =>
      (opens_effect hC).bind (fun w => (failIf_quiet _ _ w).opens) (fun _ =>
      (opens_effect hC).bind (opens_effect hC).read fun _ =>
      (opens_effect hC).bind (fun w => (failIf_quiet _ _ w).opens) fun _ w =>
        (failIf_quiet _ _ w).opens) w₁
  · obtain ⟨hne, hkq, g, hg, hop⟩ := hq q rfl
    exact attachAuth_named S hC hk ans uname nUname hs hv hne hkq hg hop

/-! ### What hangs on a new fid -/

/-- What hangs on the fid `p` is made. -/
structure Made {F : Type} (V : AuxView F) (K : F → Prop) (C : Scope) (p : ℕ) (e : End)
    (w w' : World σ) : Prop extends Mild C e w w' where
  not_ok : e ≠ .ok → w'.conn = w.conn
  ok : e = .ok → ∃ d, K d ∧
    w'.conn = { w.conn with pool := w.conn.pool.update p fun g => { g with aux := V.put d } }

theorem makeAux_does (V : AuxView F) {L : HostCall → Prop} {K : F → F → Prop} {d : F}
    {x : Prog (Ost σ F) α} (hk : ¬C.keeps p) (hop : C.emits (.op V.backend []))
    (hx : x.DoesAt (Op.Tame L K C.clean) ⟨{ w.b with log := [] }, d⟩)
    (hc : ∀ k c err, L c → C.emits (.call [w.uid p] k c err)) :
    (makeAux V p d x).DoesAt (Made V (K d) C p) w := by
  unfold DoesAt makeAux
  simp only [runOp]
  rcases hr : x ⟨{ w.b with log := [] }, d⟩ with ⟨r, o⟩
  have ht := hx.of_eq hr
  obtain ⟨l, ho, hm⟩ := ht.log
  have htr : ∀ v ∈ Event.op V.backend [] ::
      o.log.map (fun l => Event.call [w.uid p] w.wt.k.fsuid l.1 l.2), C.emits v := by
    intro v hv
    rcases List.mem_cons.mp hv with rfl | hv
    · exact hop
    · obtain ⟨⟨c, err⟩, hce, rfl⟩ := List.mem_map.mp hv
      rw [ho, List.nil_append] at hce
      exact hc _ c err (hm _ hce)
  have htl : ∀ l' : List Event, w.trace ++ [Event.op V.backend []] ++ l' =
      w.trace ++ (Event.op V.backend [] :: l') := fun l' => by simp
  rcases r with a | _ | _
  · refine ⟨⟨⟨_, htl _, htr⟩, fun h => h, fun _ => rfl, fun _ _ => ⟨rfl, rfl⟩, fun _ => rfl,
      fun _ q => FidPool.refs_update _ _ _ q, fun _ q g hq hg => ?_, fun hc he => ht.ecode hc he⟩,
      fun h => absurd rfl h, fun _ => ⟨o.f, ht.fid, rfl⟩⟩
    have hne : q ≠ p := fun h => hk (h ▸ hq)
    exact ⟨g, (FidPool.get_update_of_ne hne _).trans hg, .refl g⟩
  · exact ⟨⟨⟨_, htl _, htr⟩, fun h => h, fun _ => rfl, fun _ _ => ⟨rfl, rfl⟩, fun _ => rfl,
      fun _ _ => rfl, fun _ q g _ hg => ⟨g, hg, .refl g⟩, fun _ h => by cases h⟩, fun _ => rfl,
      fun h => by cases h⟩
  · exact ⟨⟨⟨_, htl _, htr⟩, fun h => h, fun _ => rfl, fun _ _ => ⟨rfl, rfl⟩, fun _ => rfl,
      fun _ _ => rfl, fun _ q g _ hg => ⟨g, hg, .refl g⟩, fun _ h => by cases h⟩, fun _ => rfl,
      fun h => by cases h⟩

/-! ### Attaching -/

/-- A fid that has just been made. -/
structure Npfid.Fresh (f : Npfid) : Prop where
  aux : f.aux = .null
  type : f.type = 0

/-- **What becomes of a fid that is opened.** It is ready for use if `r`. -/
structure Npfid.Open (f f' : Npfid) (r : Prop) : Prop where
  fid : f'.fid = f.fid
  aname : f'.aname = f.aname
  zombie : f'.zombie = f.zombie
  kinded : f'.Kinded
  pending : f'.pending = false
  ready : r → f'.user.isSome = true ∧ f'.aux ≠ .null

theorem Npfid.Fresh.open {r : Prop} (hf : f.Fresh) (h : f.Opening f') (hr : ¬r) : f.Open f' r := by
  have ha : f'.aux = .null := h.aux.trans hf.aux
  refine ⟨h.fid, h.aname, h.zombie, ?_, ?_, fun h => absurd h hr⟩
  · rw [Npfid.Kinded, ha]
    trivial
  · rw [Npfid.pending, ha]

theorem Npfid.Fresh.of_opening (hf : f.Fresh) (h : f.Opening f') : f'.Fresh :=
  ⟨h.aux.trans hf.aux, h.type.trans hf.type⟩

/-- **A request that opens its fid**, and takes another reference on it if it ends well. -/
structure Attached (C : Scope) (p : ℕ) (e : End) (w w' : World σ) : Prop where
  loose : Loose C e w w'
  rfid : e ≠ .crash → w'.rfid = w.rfid
  next : e ≠ .crash → w'.conn.pool.next = w.conn.pool.next
  refs : e ≠ .crash → ∀ q, w'.conn.pool.refs q =
    if q = p ∧ e = .ok then (w.conn.pool.refs q).map (· + 1) else w.conn.pool.refs q
  own : e ≠ .crash → ∀ f, w.conn.pool.get p = some f → f.Fresh →
    ∃ f', w'.conn.pool.get p = some f' ∧ f.Open f' (e = .ok)

theorem Mild.attached {w : World σ} (h : Mild C.still e w w') (he : e ≠ .ok)
    (ho : e ≠ .crash → ∀ f, w.conn.pool.get p = some f → f.Fresh →
      ∃ f', w'.conn.pool.get p = some f' ∧ f.Open f' (e = .ok)) : Attached C p e w w' where
  loose := h.loose.mono (C.still_le e e)
  rfid := h.rfid
  next := h.next
  refs hc q := by
    rw [if_neg fun h => he h.2]
    exact h.refs hc q
  own := ho

theorem Opens.attached {w : World σ} (h : Opens C.still p e w w') (he : e ≠ .ok) :
    Attached C p e w w' :=
  h.toMild.attached he fun hc f hf hfr => by
    obtain ⟨f', hf', ho⟩ := h.opening hc f hf
    exact ⟨f', hf', hfr.open ho he⟩

theorem Opens.trans_attached {w : World σ} (h : Opens C.still p .ok w w₁)
    (h' : Attached C p e w₁ w') : Attached C p e w w' where
  loose := h.loose.trans h'.loose (C.still_le _ _) (.refl C e)
  rfid hc := (h'.rfid hc).trans (h.rfid (by simp))
  next hc := (h'.next hc).trans (h.next (by simp))
  refs hc q := by rw [h'.refs hc q, h.refs (by simp) q]
  own hc f hf hfr := by
    obtain ⟨f₁, hf₁, ho⟩ := h.opening (by simp) f hf
    obtain ⟨f', hf', ho'⟩ := h'.own hc f₁ hf₁ (hfr.of_opening ho)
    exact ⟨f', hf', ho'.fid.trans ho.fid, ho'.aname.trans ho.aname, ho'.zombie.trans ho.zombie,
      ho'.kinded, ho'.pending, ho'.ready⟩

theorem opens_bind_attached (hx : x.DoesAt (Opens C.still p) w)
    (hg : ∀ a w₁, x w = (.ok a, w₁) → (g a).DoesAt (Attached C p) w₁) :
    (x >>= g).DoesAt (Attached C p) w :=
  hx.bind hg (fun _ _ he h => h.attached he) fun _ _ _ h h' => h.trans_attached h'

/-- What hangs on the fid is made, or the fid stays as it is. -/
structure Hung (C : Scope) (p : ℕ) (e : End) (w w' : World σ) : Prop extends Mild C e w w' where
  own : e ≠ .crash → ∀ f, w.conn.pool.get p = some f → f.Fresh → f.user.isSome = true →
    ∃ f', w'.conn.pool.get p = some f' ∧ f.Open f' (e = .ok)

theorem FidPool.refs_of_get (h : P.get p = some f) : P.refs p = some f.refcount := by
  rw [FidPool.refs, h, Option.map_some]

/-- The fid gets its second reference. -/
theorem Hung.incref (h : Hung C.still p .ok w w₁) {f₁ : Npfid}
    (hf : w.conn.pool.get p = some f) (hu : f.user.isSome = true)
    (hf₁ : w₁.conn.pool.get p = some f₁) :
    Attached C p .ok w (w₁.setPool (w₁.conn.pool.incref p)) where
  loose :=
    { h.loose.mono (C.still_le _ _) with
      gone := fun _ q hq hg => by
        have hg₁ := h.loose.gone (by simp) q hq hg
        have hne : q ≠ p := fun hqp => by rw [hqp, hf] at hg; cases hg
        exact (FidPool.get_incref_of_ne hne).trans hg₁
      alike := fun he q g g' hq hg hg' => by
        rcases eq_or_ne q p with rfl | hne
        · obtain rfl : g' = { f₁ with refcount := f₁.refcount + 1 } :=
            Option.some.inj (hg'.symm.trans (FidPool.get_incref_self hf₁))
          have hl := h.loose.alike he q g f₁ hq hg hf₁
          exact (hl.mono (fun _ h => h) False.elim).trans (.of_recount f₁ _)
        · have hg₁ : w₁.conn.pool.get q = some g' := (FidPool.get_incref_of_ne hne).symm.trans hg'
          exact (h.loose.alike he q g g' hq hg hg₁).mono (fun _ h => h) False.elim }
  rfid := h.rfid
  next := h.next
  refs he q := by
    refine (FidPool.refs_incref hf₁ q).trans ?_
    by_cases hq : q = p
    · rw [if_pos hq, if_pos ⟨hq, rfl⟩, ← h.refs he q, hq, FidPool.refs_of_get hf₁, Option.map_some]
    · rw [if_neg hq, if_neg fun h => hq h.1, h.refs he q]
  own he g hg hfr := by
    obtain rfl : g = f := Option.some.inj (hg.symm.trans hf)
    obtain ⟨f', hf', ho⟩ := h.own he g hg hfr hu
    exact ⟨_, FidPool.get_incref_self hf', ho.fid, ho.aname, ho.zombie, ho.kinded, ho.pending,
      ho.ready⟩

theorem npFidIncref_of_get (hf : w.conn.pool.get p = some f) :
    npFidIncref p w = (.ok (), w.setPool (w.conn.pool.incref p)) :=
  bind_of_ok (deref_of_get hf)

section

variable {F : Type} {V : AuxView F} {K : F → Prop} {e : End} {w' : World σ}

theorem Made.get_ok (h : Made V K C p .ok w w') (hf : w.conn.pool.get p = some f) :
    ∃ d, K d ∧ w'.conn.pool.get p = some { f with aux := V.put d } := by
  obtain ⟨d, hd, hc⟩ := h.ok rfl
  rw [hc]
  exact ⟨d, hd, FidPool.get_update_self hf _⟩

theorem Made.get_not_ok (h : Made V K C p e w w') (he : e ≠ .ok)
    (hf : w.conn.pool.get p = some f) : w'.conn.pool.get p = some f := by
  rw [h.not_ok he]
  exact hf

theorem AuxView.put_ne_null (V : AuxView F) (d : F) : V.put d ≠ .null := fun h => by
  have hb := V.backend_put d
  rw [h] at hb
  cases hb

/-- Nothing was made. -/
theorem Made.hung (h : Made V K C p e w w') (he : e ≠ .ok) : Hung C p e w w' :=
  ⟨h.toMild, fun _ f hf hfr _ =>
    ⟨f, h.get_not_ok he hf, hfr.open ⟨rfl, rfl, rfl, rfl, rfl, id⟩ he⟩⟩

end

theorem Npfid.Fresh.kinded_srv (hf : f.Fresh) (d : DiodFid) :
    Npfid.Kinded { f with aux := .srv d } := by
  have h0 : (0 : UInt8) &&& Qttmp = 0 ∧ (0 : UInt8) &&& Qtauth = 0 := by decide
  simp [Npfid.Kinded, Aux.backend, Npfid.isTmp, Npfid.isAuth, hf.type, h0]

theorem kinded_ctl (f : Npfid) (c : CtlFid) :
    Npfid.Kinded { f with aux := .ctl c, type := (ctlQid none).type } := by
  have h0 : (ctlQid none).type &&& Qttmp ≠ 0 ∧ (ctlQid none).type &&& Qtauth = 0 := by decide
  simp [Npfid.Kinded, Aux.backend, Npfid.isTmp, Npfid.isAuth, h0]

section

variable (hk : ¬C.keeps p) (hop : ∀ k, C.emits (.op k []))
  (hc : ∀ u k c err, Look c → C.emits (.call [u] k c err))

include hk hop hc

theorem attachAux_hung (hC : C.Steady) (aname : Bytes) :
    (attachAux H S p aname).DoesAt (Hung C p) w := by
  rcases hf : w.conn.pool.get p with _ | f
  · exact doesAt_of_eq (bind_of_crash (deref_of_none hf)) ⟨Mild.refl _ w, fun h => absurd rfl h⟩
  · refine doesAt_bind_of_ok (deref_of_get hf) (doesAt_ite (fun _ => ?_) fun _ => ?_)
    · have hm := makeAux_does (w := w) ctlAux (d := ⟨none, none⟩) hk (hop _)
        (Op.npCtlAttach_tame (L := Look) H _) (hc _)
      refine hm.bind (T := fun e w₁ w₂ => e = .ok ∧ w₂ = w₁.setPool (w₁.conn.pool.update p
        fun f => { f with type := (ctlQid none).type })) (fun _ w₁ _ => ⟨rfl, rfl⟩)
        (fun _ _ he h => h.hung he) ?_
      rintro _ w₁ _ h ⟨rfl, rfl⟩
      refine ⟨(mild_effect hC).trans h.toMild (updateFid_mild fun _ h => absurd h hk),
        fun _ g hg hfr hu => ?_⟩
      obtain ⟨d, -, hd⟩ := h.get_ok hg
      exact ⟨_, FidPool.get_update_self hd _, rfl, rfl, rfl, kinded_ctl g d, rfl,
        fun _ => ⟨hu, ctlAux.put_ne_null d⟩⟩
    · rcases f.user with _ | u
      · exact ⟨Mild.refl _ w, fun h => absurd rfl h⟩
      · refine (makeAux_does srvAux hk (hop _) (Op.diodAttach_tame S.conf u.uid aname rfl)
          (hc _)).mono fun e w' h => ?_
        by_cases he : e = .ok
        · subst he
          refine ⟨h.toMild, fun _ g hg hfr hu => ?_⟩
          obtain ⟨d, hK, hd⟩ := h.get_ok hg
          have hp : d.pending = false := by
            rcases hp : d.pending with _ | _
            · rfl
            · exact absurd (hK.2 rfl hp) (by simp [DiodFid.pending])
          exact ⟨_, hd, rfl, rfl, rfl, hfr.kinded_srv d, hp,
            fun _ => ⟨hu, srvAux.put_ne_null d⟩⟩
        · exact h.hung he

/-- The part of `np_attach` behind the lookup of the fid to authenticate with. -/
theorem npAttachWith_attached (ans : Ans) {q : Option ℕ} (uname aname : Bytes) (nUname : UInt32)
    (hf : w.conn.pool.get p = some f) (hs : C.sess) (hv : ∀ u, C.emits (.checkauth u))
    (hv' : C.emits .rootAttach)
    (hq : ∀ q', q = some q' → p ≠ q' ∧ C.keeps q' ∧ ∃ g, w.conn.pool.get q' = some g ∧
      C.emits (.op .auth [g.aux.backend])) :
    (npAttachWith H S ans p q uname aname nUname).DoesAt (Attached C p) w := by
  have hC := C.still_steady
  have hn := attachUser_named (C := C.still) S hC hk ans (S.conf.diodAuthRequired ans.mem aname)
    uname nUname hs hv hv' hq
  have ho := hn.mono fun _ _ h => h.toOpens
  have hr := diodRemapuser_opens (σ := σ) (C := C.still) S hC hk ans
  have hx := diodExportok_opens (σ := σ) (C := C.still) S hC hk ans
  refine opens_bind_attached ho fun _ w₁ h₁ => opens_bind_attached (hr w₁) fun _ w₂ h₂ =>
    opens_bind_attached (hx w₂) fun _ w₃ h₃ => ?_
  -- the fid has a user by now, which was set before the other checks
  obtain ⟨f₁, hf₁, hu₁⟩ := (hn.of_eq h₁).named rfl f hf
  obtain ⟨f₃, hf₃, ho₃⟩ := ((opens_effect hC).trans ((hr w₁).of_eq h₂) ((hx w₂).of_eq h₃)).opening
    (by simp) f₁ hf₁
  have hu₃ := ho₃.user hu₁
  have hh := attachAux_hung (C := C.still) (w := w₃) H S hk hop hc hC aname
  refine hh.bind (T := fun e w₁ w₂ => ∀ f₁, w₁.conn.pool.get p = some f₁ →
    e = .ok ∧ w₂ = w₁.setPool (w₁.conn.pool.incref p)) (fun rc w₄ _ f₄ hf₄ => ?_)
    (fun e w₄ he h => h.attached he fun hc g hg hfr => h.own hc g hg hfr ?_)
    fun e w₄ w₅ h h' => ?_
  · rw [bind_of_ok (npFidIncref_of_get hf₄)]
    exact ⟨rfl, rfl⟩
  · obtain rfl : g = f₃ := Option.some.inj (hg.symm.trans hf₃)
    exact hu₃
  · have hr₄ : w₄.conn.pool.get p ≠ none := fun h₄ => by
      rw [(FidPool.get_of_refs (h.refs (by simp)) p).mp h₄] at hf₃
      cases hf₃
    obtain ⟨f₄, hf₄⟩ := Option.ne_none_iff_exists'.mp hr₄
    obtain ⟨rfl, rfl⟩ := h' f₄ hf₄
    exact h.incref hf₃ hu₃ hf₄

end

/-! ### A second fid, without the counts -/

section

variable {q : ℕ} {g : Npfid}

theorem World.found_loose (hg : w.conn.pool.get q = some g) (hv : C.emits (.find g)) :
    Loose C.still .ok w (w.found q g) where
  trace := ⟨[.find g], rfl, fun v h => by rw [List.mem_singleton.mp h]; exact hv⟩
  believes h := h
  sess _ _ := ⟨rfl, rfl⟩
  next _ := le_rfl
  gone _ q' _ h := by
    have hne : q' ≠ q := fun hq => by rw [hq, hg] at h; cases h
    exact (FidPool.get_incref_of_ne hne).trans h
  alike _ q' f f' _ hf hf' := by
    obtain ⟨n, hn⟩ := World.get_found hg hf
    obtain rfl : f' = { f with refcount := n } := Option.some.inj (hf'.symm.trans hn)
    exact .of_recount f n
  ecode _ _ h := h

/-- A reference that is not the last is given back. -/
theorem decref_loose (hg : w.conn.pool.get q = some g) (h1 : g.refcount ≠ 1) :
    Loose C.still .ok w (w.setPool (w.conn.pool.decref q)) :=
  Released.loose ⟨⟨[], (List.append_nil _).symm, by simp⟩, rfl, rfl, fun _ => rfl, by simp⟩ hg
    (fun _ _ h => h) fun _ h => absurd h h1

/-- Another fid is found and released around what opens the fid `p`. -/
theorem Attached.around {e : End} {w₂ : World σ} (hg : w.conn.pool.get q = some g) (hne : p ≠ q)
    (hv : C.emits (.find g)) (h : Attached C p e (w.found q g) w₂) (he : e ≠ .crash)
    {g₂ : Npfid} (hg₂ : w₂.conn.pool.get q = some g₂) (hn : g₂.refcount = g.refcount + 1)
    (h1 : g₂.refcount ≠ 1) : Attached C p e w (w₂.setPool (w₂.conn.pool.decref q)) where
  loose := by
    have h₁ := (World.found_loose hg hv).trans h.loose (C.still_le _ _) (.refl C _)
    have h₂ := h₁.trans (decref_loose (C := C) hg₂ h1) (D := C) (by simpa using .refl C e)
      (C.still_le _ _)
    simpa using h₂
  rfid := h.rfid
  next he := (FidPool.next_decref ..).trans (h.next he)
  refs _ q' := by
    rcases eq_or_ne q' q with rfl | hq
    · rw [if_neg fun h => hne h.1.symm, FidPool.refs_of_get hg]
      refine (FidPool.refs_of_get (FidPool.get_decref_self hg₂ h1)).trans ?_
      simp [hn]
    · refine (FidPool.refs_decref_of_ne hq).trans ?_
      rw [h.refs he q', World.found, FidPool.refs_incref hg, if_neg hq]
  own _ f hf hfr := by
    obtain ⟨f', hf', ho⟩ := h.own he f ((FidPool.get_incref_of_ne hne).trans hf) hfr
    exact ⟨f', (FidPool.get_decref_of_ne hne).trans hf', ho⟩

theorem withFound_attached {n : UInt32} {e : ℕ} {x : ℕ → Prog (World σ) α}
    (hne : ∀ q g, w.conn.pool.lookup n = some (q, g) → p ≠ q)
    (hfind : ∀ q g, w.conn.pool.lookup n = some (q, g) → C.emits (.find g))
    (hx : ∀ q g, w.conn.pool.lookup n = some (q, g) →
      (x q).DoesAt (Attached C p) (w.found q g)) :
    (withFound H n e x).DoesAt (Attached C p) w := by
  rcases hl : w.conn.pool.lookup n with _ | q
  · rw [DoesAt, withFound, bind_of_ok (npFidFind_of_none hl)]
    exact (fail_quiet (α := α) e w).opens.attached fun h => by cases h
  · obtain ⟨q, g⟩ := q
    have hg := (FidPool.get_of_lookup hl).1
    have hqp := (hne q g hl).symm
    rcases hr : x q (w.found q g) with ⟨r, w₂⟩
    have hm := (hx q g hl).of_eq hr
    by_cases hc : r.ending = .crash
    · obtain rfl := Res.eq_crash hc
      have hl₂ := (World.found_loose hg (hfind q g hl)).trans hm.loose (C.still_le _ _) (.refl C _)
      exact doesAt_of_eq (withFound_of_crash H hl hr) ⟨hl₂, fun h => absurd rfl h,
        fun h => absurd rfl h, fun h => absurd rfl h, fun h => absurd rfl h⟩
    · have hrefs := hm.refs hc q
      rw [if_neg fun h => hqp h.1, World.found, FidPool.refs_incref hg, if_pos rfl] at hrefs
      obtain ⟨g₂, hg₂, hn⟩ := Option.map_eq_some_iff.mp hrefs
      have h1 : g₂.refcount ≠ 1 := by
        have := w.conn.pool.pos q g hg
        omega
      exact doesAt_of_eq (withFound_of_shared H hl hr hc hg₂ h1)
        (hm.around hg hqp.symm (hfind q g hl) hc hg₂ hn h1)

end

/-- The fid that is opened is no fid to authenticate with. -/
theorem Npfid.Fresh.isAuth (hf : f.Fresh) : f.isAuth = false := by
  have h0 : (0 : UInt8) &&& Qtauth = 0 := by decide
  simp [Npfid.isAuth, hf.type, h0]

/-- A fid is found and released again when nothing else is done. -/
theorem found_fail_attached {e : ℕ} (hf : w.conn.pool.get p = some f) (hv : C.emits (.find f)) :
    Attached C p .stop w
      ({ w.found p f with b := { w.b with ecode := e } }.setPool
        ((w.found p f).conn.pool.decref p)) := by
  have h1 : f.refcount + 1 ≠ 1 := by
    have := w.conn.pool.pos p f hf
    omega
  have hm : Mild C.still .stop w
      ({ w.found p f with b := { w.b with ecode := e } }.setPool
        ((w.found p f).conn.pool.decref p)) :=
    Mild.around hf hv (fail_quiet (α := Unit) e (w.found p f)).mild
  refine Opens.attached ⟨hm, fun _ g hg => ?_⟩ (by simp)
  obtain rfl : g = f := Option.some.inj (hg.symm.trans hf)
  exact ⟨_, FidPool.get_decref_self (FidPool.get_incref_self hf) h1, rfl, rfl, rfl, rfl, rfl, id⟩

theorem npAttach_attached (ans : Ans) (n afid nUname : UInt32) (uname aname : Bytes)
    (hr : w.rfid = some p) (hf : w.conn.pool.get p = some f) (hfr : f.Fresh) :
    (npAttach H S ans afid uname aname nUname).DoesAt
      (Attached (scope S (.tattach n afid uname aname nUname) w) p) w := by
  have ho : Fcall.opens (.tattach n afid uname aname nUname) ≠ [] := by simp [Fcall.opens]
  have hk : ¬(scope S (.tattach n afid uname aname nUname) w).keeps p :=
    fun h => h.elim (fun h => ho h) fun h => h hr
  refine doesAt_bind_of_ok (reqPtr_of_rfid hr) (doesAt_ite (fun _ => ?_) fun hafid => ?_)
  · exact npAttachWith_attached H S hk (fun k => .make k ho) (fun _ _ _ _ hc => .attach ho hc) ans
      uname aname nUname hf rfl (fun u => .checkauth u ho) (.rootAttach ho) fun _ h => by cases h
  · have hn : afid ∈ Fcall.finds (.tattach n afid uname aname nUname) := by
      simp [Fcall.finds, hafid]
    by_cases hp : ∃ g, w.conn.pool.lookup afid = some (p, g)
    · -- the number of the new fid itself is given: it is not one to authenticate with
      obtain ⟨g, hl⟩ := hp
      obtain rfl : g = f := Option.some.inj ((FidPool.get_of_lookup hl).1.symm.trans hf)
      have h1 : g.refcount + 1 ≠ 1 := by
        have := w.conn.pool.pos p g hf
        omega
      have hd := deref_of_get (w := w.found p g) (FidPool.get_incref_self hf)
      refine doesAt_of_eq (withFound_of_shared H hl (r := .stop)
        (v := { w.found p g with b := { w.b with ecode := EPERM } }) ?_ (by simp)
        (FidPool.get_incref_self hf) h1) (found_fail_attached hf (.find hn hl))
      rw [bind_of_ok hd]
      exact bind_of_stop (failIf_of_pos hfr.isAuth)
    · refine withFound_attached H (fun q g hl hpq => hp ⟨g, hpq ▸ hl⟩) (fun q g hl => .find hn hl)
        fun q g hl => ?_
      have hpq : p ≠ q := fun hpq => hp ⟨g, hpq ▸ hl⟩
      have hg := (FidPool.get_of_lookup hl).1
      have hg' := FidPool.get_incref_self hg
      refine doesAt_bind_of_ok (deref_of_get (w := w.found q g) hg') ?_
      refine opens_bind_attached (failIf_quiet _ _ _).opens fun _ w₁ h₁ => ?_
      obtain ⟨ha, rfl⟩ := failIf_eq_ok h₁
      rw [Bool.not_eq_false] at ha
      refine npAttachWith_attached H S hk (fun k => .make k ho)
        (fun _ _ _ _ hc => .attach ho hc) ans
        uname aname nUname ((FidPool.get_incref_of_ne hpq).trans hf) rfl (fun u => .checkauth u ho)
        (.rootAttach ho) ?_
      rintro q' rfl'
      cases rfl'
      exact ⟨hpq, .inr fun h => hpq (Option.some.inj (hr.symm.trans h)), _, hg',
        Emit.afid (g := g) hn hl ha⟩

/-! ### Authentication -/

/-- The fid, which was `f`, is opened, or on its way. -/
structure OnWay (C : Scope) (p : ℕ) (f : Npfid) (e : End) (w w' : World σ) : Prop
    extends Mild C e w w' where
  own : e ≠ .crash → ∃ f', w'.conn.pool.get p = some f' ∧ f.Open f' (e = .ok)

/-- One statement after another, where the fid is no worse for a statement that fails. -/
theorem onWay_bind (hC : C.Steady) (hx : x.DoesAt (Mild C) w)
    (hn : ∀ w', x w = (.stop, w') → ∃ f', w'.conn.pool.get p = some f' ∧ f.Open f' False)
    (hg : ∀ a w₁, x w = (.ok a, w₁) → (g a).DoesAt (OnWay C p f) w₁) :
    (x >>= g).DoesAt (OnWay C p f) w := by
  rcases h : x w with ⟨r, w₁⟩
  have hm := hx.of_eq h
  rcases r with a | _ | _
  · have hg := hg a w₁ h
    rw [DoesAt, bind_of_ok h]
    exact ⟨(mild_effect hC).trans hm hg.toMild, hg.own⟩
  · obtain ⟨f', hf', ho⟩ := hn w₁ h
    exact doesAt_of_eq (bind_of_stop h) ⟨hm, fun _ =>
      ⟨f', hf', { ho with ready := fun h => by cases h }⟩⟩
  · exact doesAt_of_eq (bind_of_crash h) ⟨hm, fun h => absurd rfl h⟩

theorem kinded_auth (f : Npfid) (d : Da) :
    Npfid.Kinded { f with type := Qtauth, aux := .auth d } :=
  show (Qtauth &&& Qtauth != 0) = true by decide

theorem Quiet.get {w : World σ} (h : Quiet e w w') (q : ℕ) :
    w'.conn.pool.get q = w.conn.pool.get q := by
  rw [h.conn]

/-- **`np_auth`**, behind its first reference on the fid. -/
theorem npAuth_onWay (hC : C.Steady) (hk : ¬C.keeps p) (hop : ∀ k, C.emits (.op k [])) (ans : Ans)
    (uname : Bytes) (nUname : UInt32) (hf : w.conn.pool.get p = some f) (hfr : f.Fresh) :
    (do
      let u ← npAttach2user ans uname nUname
      updateFid p fun f => { f with user := some u }
      updateFid p fun f => { f with type := Qtauth }
      let f ← deref p
      failIf (f.aux ≠ .null) EIO
      makeAux authAux p ⟨none⟩ (Op.startauth H)
      allocOr H ENOMEM
      pure (.rauth ⟨Qtauth, 0, 0⟩) : Prog (World σ) Msg).DoesAt (OnWay C p f) w := by
  have hx := npAttach2user_opens (p := p) hC ans uname nUname w
  refine onWay_bind hC (hx.mono fun _ _ h => h.toMild) (fun w' h' => ?_) fun u w₁ h₁ => ?_
  · obtain ⟨f', hf', ho⟩ := (hx.of_eq h').opening (by simp) f hf
    exact ⟨f', hf', hfr.open ho id⟩
  obtain ⟨f₁, hf₁, ho⟩ := (hx.of_eq h₁).opening (by simp) f hf
  refine onWay_bind hC (updateFid_mild fun _ h => absurd h hk) (fun _ h => by cases h)
    fun _ w₂ h₂ => onWay_bind hC (updateFid_mild fun _ h => absurd h hk) (fun _ h => by cases h)
    fun _ w₃ h₃ => ?_
  -- the fid has its user and its type, and nothing hangs on it
  have hf₃ : w₃.conn.pool.get p = some { f₁ with user := some u, type := Qtauth } := by
    obtain ⟨-, rfl⟩ := Prod.mk.inj h₂
    obtain ⟨-, rfl⟩ := Prod.mk.inj h₃
    exact FidPool.get_update_self (FidPool.get_update_self hf₁ _) _
  have ha : f₁.aux = .null := ho.aux.trans hfr.aux
  have hkn : ∀ d, Npfid.Kinded { f₁ with user := some u, type := Qtauth, aux := .auth d } :=
    fun d => kinded_auth { f₁ with user := some u } d
  refine onWay_bind hC (deref_quiet p _).mild (fun _ h => ?_) fun g w₄ h₄ => ?_
  · rw [deref_of_get hf₃] at h
    cases h
  rw [deref_of_get hf₃] at h₄
  obtain ⟨hg, rfl⟩ := Prod.mk.inj h₄
  obtain rfl := Res.ok.inj hg
  refine onWay_bind hC (failIf_quiet _ _ _).mild (fun _ h => ?_) fun _ w₅ h₅ => ?_
  · unfold failIf Prog.when at h
    rw [if_neg (not_not.mpr ha)] at h
    cases h
  obtain ⟨-, rfl⟩ := failIf_eq_ok h₅
  have hm := makeAux_does (C := C) (w := w₅) authAux (d := ⟨none⟩) hk (hop _)
    (Op.startauth_tame (L := fun _ => False) H _) (fun _ _ _ h => h.elim)
  refine onWay_bind hC (hm.mono fun _ _ h => h.toMild) (fun w' h' => ?_) fun _ w₆ h₆ => ?_
  · refine ⟨_, (hm.of_eq h').get_not_ok (by simp) hf₃, ho.fid, ho.aname, ho.zombie,
      ?_, ?_, False.elim⟩
    · simp only [Npfid.Kinded, ha, Aux.backend]
    · simp only [Npfid.pending, ha]
  obtain ⟨d, -, hd⟩ := (hm.of_eq h₆).get_ok hf₃
  have hq := allocOr_quiet H ENOMEM w₆
  refine onWay_bind hC hq.mild (fun w' h' => ?_) fun _ w₇ h₇ => ?_
  · exact ⟨_, ((hq.of_eq h').get p).trans hd, ho.fid, ho.aname, ho.zombie, hkn d, rfl, False.elim⟩
  · exact ⟨Mild.refl _ w₇, fun _ => ⟨_, ((hq.of_eq h₇).get p).trans hd, ho.fid, ho.aname,
      ho.zombie, hkn d, rfl, fun _ => ⟨rfl, authAux.put_ne_null d⟩⟩⟩

end Diod
