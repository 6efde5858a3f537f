import Diod.Npfs.Count

/-!
# Walking

`Twalk` and `Txattrwalk`, the requests that make a fid. The new fid is in the pool
before anything hangs on it, and is taken back when the request fails. A walk can also
be in place; then it is the request's fid that moves.

The loop of a walk is the same in both cases, and is summed up for the fid `p` it runs
on, which is made like the request's fid. Where it fails at its first name the fid has
not moved, and this is the only way in which a walk fails with an error
(`Diod.Walked`).
-/

namespace Diod

open Prog

variable {σ α β : Type} {C : Scope} (H : Host σ) (S : Npsrv) {tc : Msg} {w₀ w : World σ}
  {p₀ p : ℕ} {f g : Npfid} {n : UInt32}

/-! ### One name -/

/-- The scope of a walk: the fid it runs on moves when `m`. -/
def walkScope (S : Npsrv) (tc : Msg) (w₀ : World σ) (m : End → Prop) : Scope :=
  { emits := Emit S tc w₀, moves := m, clean := false }

/-- **The fid of a walk**, `g` at `p`, which is the request's fid `f` or was made like it. -/
structure Walker (S : Npsrv) (w₀ : World σ) (f : Npfid) (p : ℕ) (g : Npfid) (w : World σ) :
    Prop where
  get : w.conn.pool.get p = some g
  backend : g.aux.backend = f.aux.backend
  isTmp : g.isTmp = f.isTmp
  uid : g.uid = f.uid
  kinded : g.Kinded
  /-- The thread has the credentials of the user. -/
  runs : f.isTmp = false → RunsAs S w₀ f.uid w.wt.k.fsuid

theorem Npfid.Kinded.of_ctl {c : CtlFid} (h : f.Kinded) (hc : f.aux = .ctl c) :
    f.isTmp = true ∧ f.isAuth = false := by
  unfold Npfid.Kinded at h
  rwa [hc] at h

variable {x : Bool → Prop} {m : Prop} {e : End} {w' w₁ : World σ}

/-- One of the server's own fids that gets the type of a file. -/
theorem like_tmp {t : UInt8} (hq : t &&& Qttmp ≠ 0)
    (hq' : t &&& Qtauth = 0) (ht : f.isTmp = true) (ha : f.isAuth = false) (hm : m) :
    f.Like x m { f with type := t } where
  fid := rfl
  user := rfl
  aname := rfl
  rofs := rfl
  zombie h := h
  backend := rfl
  isTmp := by rw [ht]; simpa [Npfid.isTmp] using hq
  isAuth := by rw [ha]; simpa [Npfid.isAuth] using hq'
  pending := .inl
  still h := absurd hm h

section

variable (hr : w₀.rfid = some p₀) (hf : w₀.conn.pool.get p₀ = some f)
  (hauth : tc.authAware = false)

include hr hf hauth

/-- A name that cannot be walked leaves the fid where it is. -/
theorem walkStep_mild (wname : Bytes) (hw : Walker S w₀ f p g w) :
    (walkStep H S p wname).DoesAt (Mild (walkScope S tc w₀ (· ≠ .stop))) w := by
  refine doesAt_bind_of_ok (deref_of_get hw.get) (doesAt_ite (fun ht => ?_) fun ht => ?_)
  · refine ctlOp_mild (m := fun e => decide (e ≠ .stop)) (L := fun _ => False) hw.get ?_
      (Op.npCtlWalk_tame S.ctlroot wname) (fun _ _ h => h.elim)
      fun e h => of_decide_eq_true (p := e ≠ .stop) h
    rw [hw.backend]
    exact .ctl hr hf (hw.isTmp.symm.trans ht) (unaware hauth)
  · rw [Bool.not_eq_true] at ht
    have ht₀ : f.isTmp = false := hw.isTmp.symm.trans ht
    refine srvOp_mild (m := fun e => decide (e ≠ .stop)) (a := false) hw.get ?_
      (Op.diodWalk_undone wname) (fun c err hc => ?_)
      (fun e h => of_decide_eq_true (p := e ≠ .stop) h)
      fun h => by cases h
    · rw [hw.backend]
      exact .srv hr hf ht₀ (unaware hauth)
    · rw [hw.uid]
      exact .call hr hf ht₀ (hw.runs ht₀) hc.elim

variable {w₁ w' : World σ} {e : End}

/-- A step that succeeds, with the type of what was walked to. -/
theorem walkStep_ok {wname : Bytes} {wqid : Npqid} (hw : Walker S w₀ f p g w)
    (h : walkStep H S p wname w = (.ok wqid, w₁)) :
    (∃ g', Walker S w₀ f p g' (w₁.setPool (w₁.conn.pool.update p fun f =>
        { f with type := wqid.type }))) ∧
      Mild (walkScope S tc w₀ fun _ => True) .ok w (w₁.setPool (w₁.conn.pool.update p fun f =>
        { f with type := wqid.type })) := by
  have hm := (walkStep_mild H S hr hf hauth wname hw).of_eq h
  obtain ⟨g₁, hg₁, hl⟩ := hm.alike (by simp) p g trivial hw.get
  -- the file is of the kind of the fid
  obtain ⟨ht, hwt⟩ : g₁.Like (fun _ => False) True { g₁ with type := wqid.type } ∧
      w₁.wt = w.wt := by
    rw [walkStep, bind_of_ok (deref_of_get hw.get)] at h
    split at h
    · obtain ⟨d, o, o', hd, hx, -, hwt, -⟩ := auxOp_eq_ok h
      rw [World.aux_of_get hw.get] at hd
      obtain ⟨ht, ha⟩ := hw.kinded.of_ctl (ctlAux.put_of_get hd)
      obtain ⟨h₁, h₂⟩ := Op.npCtlWalk_tmp S.ctlroot wname _ _ _ hx
      exact ⟨like_tmp h₁ h₂ (hl.isTmp.trans ht) (hl.isAuth.trans ha) trivial, hwt⟩
    · obtain ⟨d, o, o', hd, hx, -, hwt, -⟩ := auxOp_eq_ok h
      rw [World.aux_of_get hw.get] at hd
      obtain ⟨ht, ha⟩ := hw.kinded.of_srv (srvAux.put_of_get hd)
      exact ⟨like_plain (Op.diodWalk_plain H wname _ _ _ hx) (hl.isTmp.trans ht)
        (hl.isAuth.trans ha) trivial, hwt⟩
  have hu : Mild (walkScope S tc w₀ fun _ => True) .ok w₁
      (w₁.setPool (w₁.conn.pool.update p fun f => { f with type := wqid.type })) :=
    updateFid_mild fun f' _ hf' => by
      obtain rfl : f' = g₁ := Option.some.inj (hf'.symm.trans hg₁)
      exact ht
  refine ⟨⟨_, FidPool.get_update_self hg₁ _, (ht.backend.trans hl.backend).trans hw.backend,
    (ht.isTmp.trans hl.isTmp).trans hw.isTmp, (ht.uid.trans hl.uid).trans hw.uid,
    ht.kinded (hl.kinded hw.kinded), fun h => ?_⟩, ?_⟩
  · change RunsAs S w₀ f.uid w₁.wt.k.fsuid
    rw [hwt]
    exact hw.runs h
  · exact hm.trans hu ⟨fun _ h => h, fun _ h => h, fun _ => trivial, fun _ h => h, id, id⟩
      (.refl _ _)

/-! ### The loop -/

omit hr hf hauth in
/-- A step that failed, seen as a loop that has ended. -/
theorem Mild.walk_ended {m : End → Prop} (h : Mild (walkScope S tc w₀ (· ≠ .stop)) .stop w w₁) :
    Mild (walkScope S tc w₀ m) .ok w w₁ :=
  h.weaken ⟨fun _ h => h, fun _ h => h, fun h => absurd rfl h, fun _ h => h, id, fun h => h⟩
    (fun _ => by simp) fun h => by cases h

/-- **The loop of a walk.** It does not stop, and when it has not got anywhere the fid has
not moved. -/
theorem walkLoop_does : ∀ (wnames : List Bytes) (wqids : List Npqid) (w : World σ) (g : Npfid),
    Walker S w₀ f p g w →
      (walkLoop H S p wnames wqids w).1.ending ≠ .stop ∧
      (walkLoop H S p wnames wqids).DoesAt (Mild (walkScope S tc w₀ fun _ => True)) w ∧
      ∀ w', walkLoop H S p wnames wqids w = (.ok [], w') →
        wqids = [] ∧ Mild (walkScope S tc w₀ fun _ => False) .ok w w'
  | [], wqids, w, g, hw => by
    refine ⟨by simp [walkLoop, pure_apply], Mild.refl _ w, fun w' h => ?_⟩
    obtain ⟨hq, rfl⟩ := Prod.mk.inj h
    exact ⟨Res.ok.inj hq, Mild.refl _ w⟩
  | wname :: wnames, wqids, w, g, hw => by
    rcases hs : walkStep H S p wname w with ⟨r, w₁⟩
    have hm := (walkStep_mild H S hr hf hauth wname hw).of_eq hs
    rcases r with wqid | _ | _
    · obtain ⟨⟨g', hw'⟩, hm'⟩ := walkStep_ok H S hr hf hauth hw hs
      have h : walkLoop H S p (wname :: wnames) wqids w =
          (if wnames ≠ [] ∧ wqid.type &&& Qtdir = 0 then pure (wqids ++ [wqid])
            else walkLoop H S p wnames (wqids ++ [wqid]) : Prog (World σ) _)
          (w₁.setPool (w₁.conn.pool.update p fun f => { f with type := wqid.type })) :=
        bind_of_ok (attempt_of_ok hs)
      rw [DoesAt, h]
      split
      · refine ⟨fun h => (by cases h), hm', fun w' h => ?_⟩
        simpa using Res.ok.inj (Prod.mk.inj h).1
      · obtain ⟨hns, hd, he⟩ := walkLoop_does wnames (wqids ++ [wqid]) _ g' hw'
        refine ⟨hns, (mild_effect fun _ _ _ => trivial).trans hm' hd, fun w' h => ?_⟩
        exact absurd (he w' h).1 (by simp)
    · have h : walkLoop H S p (wname :: wnames) wqids w = (.ok wqids, w₁) :=
        bind_of_ok (attempt_of_stop hs)
      rw [DoesAt, h]
      refine ⟨fun h => (by cases h), hm.walk_ended, fun w' h => ?_⟩
      obtain ⟨hq, rfl⟩ := Prod.mk.inj h
      exact ⟨Res.ok.inj hq, hm.walk_ended⟩
    · have h : walkLoop H S p (wname :: wnames) wqids w = (.crash, w₁) :=
        bind_of_crash (attempt_of_crash hs)
      rw [DoesAt, h]
      exact ⟨fun h => (by cases h), hm.mono ⟨fun _ h => h, fun _ h => h, fun _ => trivial,
        fun _ h => h, id, id⟩, fun _ h => (by cases h)⟩

/-! ### The walk -/

/-- **A walk on the fid `p`.** Where it has an error, the fid has not moved. -/
structure Walked (S : Npsrv) (tc : Msg) (w₀ : World σ) (e : End) (w w' : World σ) : Prop
    extends Mild (walkScope S tc w₀ fun _ => True) e w w' where
  still : e = .stop → w'.b.ecode ≠ 0 → Mild (walkScope S tc w₀ fun _ => False) .stop w w'
  clean : e = .ok → w'.b.ecode = 0

omit hr hf hauth in
/-- What follows the loop: if it got anywhere, there is no error. -/
theorem walkReply_does (wnames : List Bytes) (wqids : List Npqid) :
    (do
      Prog.when (wqids = [] ∧ wnames ≠ []) .stop
      npUerror 0
      let m ← malloc H
      Prog.when m.isNone .stop
      pure (.rwalk wqids) : Prog (World σ) Msg).Does fun e w w' =>
        Quiet e w w' ∧ (e = .stop → wqids = [] ∨ w'.b.ecode = 0) ∧ (e = .ok → w'.b.ecode = 0) := by
  intro w
  by_cases hn : wqids = [] ∧ wnames ≠ []
  · have h : Prog.when (wqids = [] ∧ wnames ≠ []) (.stop : Prog (World σ) Unit) w = (.stop, w) := by
      rw [Prog.when, if_pos hn]
      rfl
    exact doesAt_of_eq (bind_of_stop h)
      ⟨quiet_effect.refl _ w, fun _ => .inl hn.1, fun h => (by cases h)⟩
  · have h : Prog.when (wqids = [] ∧ wnames ≠ []) (.stop : Prog (World σ) Unit) w =
        (.ok (), w) := by
      rw [Prog.when, if_neg hn]
      rfl
    rw [DoesAt, bind_of_ok h]
    rcases hm : (H.malloc w.b.host).1 with _ | a
    · simp only [bind_apply, npUerror, Prog.modify, malloc, hm, Prog.when, Res.ending]
      exact ⟨⟨rfl, rfl, rfl, id, fun _ _ => rfl⟩, fun _ => .inr rfl, fun _ => rfl⟩
    · simp only [bind_apply, npUerror, Prog.modify, malloc, hm, Prog.when, pure_apply, Res.ending]
      exact ⟨⟨rfl, rfl, rfl, id, fun _ _ => rfl⟩, fun _ => .inr rfl, fun _ => rfl⟩

omit hr hf hauth in
theorem Quiet.trans_walked (h : Quiet .ok w w₁)
    (h' : Walked S tc w₀ e w₁ w') : Walked S tc w₀ e w w' :=
  ⟨h.trans_mild h'.toMild, fun he h0 => h.trans_mild (h'.still he h0), h'.clean⟩

omit hr hf hauth in
/-- What a quiet step adds. -/
theorem Mild.trans_quiet (hC : C.Steady) (h : Mild C .ok w w₁)
    (h' : Quiet e w₁ w') : Mild C e w w' :=
  (mild_effect hC).trans h h'.mild

theorem walkNames_walked (wnames : List Bytes) (hg : w.conn.pool.get p = some g)
    (hb : g.aux.backend = f.aux.backend) (ht : g.isTmp = f.isTmp) (hu : g.user = f.user)
    (hk : g.Kinded) (hbl : w₀.wt.Believes → w.wt.Believes) :
    (walkNames H S p wnames).DoesAt (Walked S tc w₀) w := by
  have hq : (Prog.when (g.isTmp = false) (npSetfsid H S g.user noGid)).DoesAt
      (fun e w w' => Quiet e w w' ∧ (e = .ok → f.isTmp = false →
        RunsAs S w₀ f.uid w'.wt.k.fsuid)) w := by
    unfold Prog.when
    by_cases hg : g.isTmp = false
    · rw [if_pos hg]
      refine (npSetfsid_does H S g.user noGid w).mono fun e w' h => ⟨h.toQuiet, fun he _ => ?_⟩
      subst he
      rw [hu] at h
      exact fun hs hb hu => h.runsAs S hs (hbl hb) hu
    · rw [if_neg hg]
      exact ⟨quiet_effect.refl _ w, fun _ h => absurd (ht.trans h) hg⟩
  refine doesAt_bind_of_ok (deref_of_get hg) (hq.bind (T := Walked S tc w₀) (fun _ w₁ h₁ => ?_)
    (fun e w₁ he h => ⟨h.1.mild, fun _ _ => ?_, fun h' => absurd h' he⟩)
    fun e w₁ w₂ h h' => h.1.trans_walked S h')
  · obtain ⟨hq₁, hr₁⟩ := hq.of_eq h₁
    have hw : Walker S w₀ f p g w₁ := ⟨(hq₁.get p).trans hg, hb, ht, by
      rw [Npfid.uid, Npfid.uid, hu], hk, hr₁ rfl⟩
    obtain ⟨hns, hd, he⟩ := walkLoop_does H S hr hf hauth wnames [] w₁ g hw
    rcases hl : walkLoop H S p wnames [] w₁ with ⟨r, w₂⟩
    have hd := hd.of_eq hl
    rw [hl] at hns
    rcases r with wqids | _ | _
    · rw [DoesAt, bind_of_ok hl]
      obtain ⟨hq₂, hs, ho⟩ := walkReply_does H wnames wqids w₂
      refine ⟨hd.trans_quiet (fun _ _ _ => trivial) hq₂, fun h h0 => ?_, ho⟩
      -- an error is only left when the loop did not get anywhere
      obtain rfl : wqids = [] := (hs h).resolve_right h0
      rw [h] at hq₂
      exact (he w₂ hl).2.trans_quiet (fun _ _ => False.elim) hq₂
    · exact absurd rfl hns
    · exact doesAt_of_eq (bind_of_crash hl) ⟨hd, fun h => (by cases h), fun h => (by cases h)⟩
  · rename_i h₀ _
    subst h₀
    exact h.1.mild

end

/-! ### What a walk leaves alone -/

/-- No fid but the one at `p` changes. -/
def Elsewhere (p : ℕ) (_ : End) (w w' : World σ) : Prop :=
  ∀ q, q ≠ p → w'.conn.pool.get q = w.conn.pool.get q

theorem elsewhere : Effect (Elsewhere (σ := σ) p) where
  refl _ _ _ _ := rfl
  trans h h' q hq := (h' q hq).trans (h q hq)

theorem Quiet.elsewhere {w : World σ} (h : Quiet e w w') : Elsewhere p e w w' :=
  fun q _ => h.get q

theorem updateFid_elsewhere (g : Npfid → Npfid) :
    (updateFid p g : Prog (World σ) Unit).Does (Elsewhere p) :=
  fun _ _ hq => FidPool.get_update_of_ne hq g

theorem auxOp_elsewhere {F : Type} (V : AuxView F) (x : Prog (Ost σ F) α) :
    (auxOp V p x).Does (Elsewhere p) :=
  fun w _ hq => auxOp_get_of_ne V hq x w

theorem walkStep_elsewhere (wname : Bytes) : (walkStep H S p wname).Does (Elsewhere p) :=
  elsewhere.bind (fun w => (deref_quiet p w).elsewhere) fun _ =>
    does_ite (fun _ => auxOp_elsewhere _ _) fun _ => auxOp_elsewhere _ _

theorem walkLoop_elsewhere : ∀ (wnames : List Bytes) (wqids : List Npqid),
    (walkLoop H S p wnames wqids).Does (Elsewhere p)
  | [], wqids => elsewhere.pure wqids
  | wname :: wnames, wqids => by
    refine elsewhere.bind (fun w => (walkStep_elsewhere H S wname w).attempt fun _ h => h)
      fun r => ?_
    rcases r with _ | wqid
    · exact elsewhere.pure wqids
    · exact elsewhere.bind (updateFid_elsewhere _) fun _ =>
        does_ite (fun _ => elsewhere.pure _) fun _ => walkLoop_elsewhere wnames _

theorem walkNames_elsewhere (wnames : List Bytes) :
    (walkNames H S p wnames).Does (Elsewhere p) := by
  have hq : ∀ {α : Type} {x : Prog (World σ) α}, x.Does Quiet → x.Does (Elsewhere p) :=
    fun h w => (h w).elsewhere
  refine elsewhere.bind (hq (deref_quiet p)) fun f =>
    elsewhere.bind (elsewhere.when fun _ w => ((npSetfsid_does H S _ _ w).mono
      fun _ _ h => h.toQuiet).elsewhere) fun _ =>
    elsewhere.bind (walkLoop_elsewhere H S wnames []) fun _ =>
    elsewhere.bind (elsewhere.when fun _ => elsewhere.stop) fun _ =>
    elsewhere.bind (hq npUerror_quiet) fun _ =>
    elsewhere.bind (hq (malloc_quiet H)) fun _ =>
    elsewhere.bind (elsewhere.when fun _ => elsewhere.stop) fun _ => elsewhere.pure _

/-! ### Making a fid -/

/-- The number of a fid that the request makes is in use. -/
def World.InUse (w : World σ) (tc : Msg) : Prop := ∃ n ∈ tc.makes, w.conn.pool.lookup n ≠ none

/-- The scope in which a fid is made. A fid in the way becomes a zombie. -/
def createScope (S : Npsrv) (tc : Msg) (w : World σ) : Scope :=
  { emits := Emit S tc w, moves := fun _ => w.InUse tc }

theorem createScope_steady : (createScope S tc w).Steady := fun _ _ => id

theorem like_zombie (f : Npfid) (hm : m) : f.Like x m { f with zombie := true } :=
  ⟨rfl, rfl, rfl, rfl, fun _ => rfl, rfl, rfl, rfl, .inl, fun h => absurd hm h⟩

/-- A fid in the way is printed, and becomes a zombie or an error. -/
theorem unclunked_mild
    (hv : ∀ q g, w.conn.pool.lookup n = some (q, g) → C.emits (.op .srv [g.aux.backend]))
    (hm : w.conn.pool.lookup n ≠ none → C.moves .ok) : (unclunked S n).DoesAt (Mild C) w := by
  refine doesAt_read_bind ?_
  rcases hl : w.conn.pool.lookup n with _ | q
  · exact Mild.refl _ w
  · obtain ⟨q, g⟩ := q
    refine record_bind (hv q g hl) ?_
    refine quiet_bind (quiet_effect.when (fun _ => quiet_effect.crash) _) fun _ w₁ _ _ => ?_
    refine doesAt_ite (fun _ => ?_) fun _ => (fail_quiet EEXIST w₁).mild
    exact updateFid_mild fun f' _ _ => like_zombie f' (hm (by simp [hl]))

/-- `np_fid_create`: a fid at the next address, or an error. -/
theorem npFidCreate_cases (hC : C.Steady)
    (hv : ∀ q g, w.conn.pool.lookup n = some (q, g) → C.emits (.op .srv [g.aux.backend]))
    (hm : w.conn.pool.lookup n ≠ none → C.moves .ok) :
    (∃ w₁, Mild C .ok w w₁ ∧
      npFidCreate H S n w = (.ok w.conn.pool.next, w₁.setPool (w₁.conn.pool.create n))) ∨
    ∃ r w₁, npFidCreate H S n w = (r, w₁) ∧ r.ending ≠ .ok ∧ Mild C r.ending w w₁ := by
  have hx := unclunked_mild (C := C) S hv hm
  rcases hu : unclunked S n w with ⟨r, w₁⟩
  have hx := hx.of_eq hu
  rcases r with _ | _ | _
  · have hy := allocOr_quiet H ENOMEM w₁
    rcases ha : allocOr H ENOMEM w₁ with ⟨r, w₂⟩
    have hy := hy.of_eq ha
    have hm := (mild_effect hC).trans hx hy.mild
    rcases r with _ | _ | _
    · refine .inl ⟨w₂, hm, (bind_of_ok hu).trans ((bind_of_ok ha).trans ?_)⟩
      rw [← hm.next (by simp [End.join])]
      rfl
    · exact .inr ⟨_, w₂, (bind_of_ok hu).trans (bind_of_stop ha), fun h => (by cases h), hm⟩
    · exact .inr ⟨_, w₂, (bind_of_ok hu).trans (bind_of_crash ha), fun h => (by cases h), hm⟩
  · exact .inr ⟨_, w₁, bind_of_stop hu, fun h => (by cases h), hx⟩
  · exact .inr ⟨_, w₁, bind_of_crash hu, fun h => (by cases h), hx⟩

/-- The error of a handler that cannot make a fid. -/
theorem createFail_does (u : Npfid) :
    (do
      let w ← Prog.read
      Prog.when (w.b.ecode = EEXIST) do
        Prog.when u.user.isNone .crash
        npUerror EIO
      .stop : Prog (World σ) α).Does fun e w w' => e ≠ .ok ∧ Quiet e w w' := by
  intro w
  refine doesAt_read_bind ?_
  by_cases he : w.b.ecode = EEXIST
  · by_cases hu : u.user.isNone = true
    · simp only [Prog.when, he, hu, if_true, DoesAt, bind_apply, Prog.crash, Res.ending]
      exact ⟨by simp, quiet_effect.refl _ w⟩
    · simp only [Prog.when, he, hu, if_true, DoesAt, bind_apply, npUerror, Prog.modify, Prog.stop,
        Res.ending]
      exact ⟨by simp, rfl, rfl, rfl, id, fun h => (by cases h)⟩
  · simp only [Prog.when, he, if_false, DoesAt, bind_apply, pure_apply, Prog.stop, Res.ending]
    exact ⟨by simp, quiet_effect.refl _ w⟩

/-- **`np_fid_create` in a handler.** -/
theorem createOr_cases (u : Npfid) (hn : n ∈ tc.makes) :
    (∃ w₁, Mild (createScope S tc w) .ok w w₁ ∧
      createOr H S u n w = (.ok w.conn.pool.next, w₁.setPool (w₁.conn.pool.create n))) ∨
    ∃ r w₁, createOr H S u n w = (r, w₁) ∧ r.ending ≠ .ok ∧
      Mild (createScope S tc w) r.ending w w₁ := by
  rcases npFidCreate_cases H S (createScope_steady S : (createScope S tc w).Steady)
    (fun q g hl => .inUse hn hl) (fun hl => ⟨n, hn, hl⟩) with ⟨w₁, hm, hc⟩ | ⟨r, w₁, hc, hne, hm⟩
  · exact .inl ⟨w₁, hm, bind_of_ok (attempt_of_ok hc)⟩
  · rcases r with _ | _ | _
    · exact absurd rfl hne
    · have hx := createFail_does (α := ℕ) u w₁
      rcases ht : (do
        let w ← Prog.read
        Prog.when (w.b.ecode = EEXIST) do
          Prog.when u.user.isNone .crash
          npUerror EIO
        .stop : Prog (World σ) ℕ) w₁ with ⟨r, w₂⟩
      obtain ⟨hne', hq⟩ := hx.of_eq ht
      refine .inr ⟨r, w₂, (bind_of_ok (attempt_of_stop hc)).trans ht, hne', ?_⟩
      have h := (mild_effect (createScope_steady S)).trans hm hq.mild
      rcases r with _ | _ | _
      · exact absurd rfl hne'
      · exact h
      · exact h
    · exact .inr ⟨_, w₁, bind_of_crash (attempt_of_crash hc), hne, hm⟩

/-! ### The new fid -/

/-- **A fid that was made like another**, with what hangs on it. -/
structure Npfid.Copied (f g : Npfid) : Prop where
  user : g.user = f.user
  aname : g.aname = f.aname
  rofs : g.rofs = f.rofs
  backend : g.aux.backend = f.aux.backend
  isTmp : g.isTmp = f.isTmp
  isAuth : g.isAuth = f.isAuth
  some : g.aux ≠ .null
  pending : g.pending = false

/-- The scope in which a new fid at `p` is filled in. -/
def growScope (S : Npsrv) (tc : Msg) (w₀ : World σ) (p : ℕ) : Scope :=
  { emits := Emit S tc w₀, keeps := (· ≠ p) }

theorem growScope_steady : (growScope S tc w₀ p).Steady := fun _ _ => False.elim

/-- The new fid, with the number `n`, on its way. -/
structure Npfid.Growing (n : UInt32) (f g : Npfid) : Prop where
  fid : g.fid = n
  pending : g.pending = false
  uid : g.aux.backend = some .srv → g.uid = f.uid

/-- **The new fid at `p` is filled in** like `f`. -/
structure Grown (S : Npsrv) (tc : Msg) (w₀ : World σ) (n : UInt32) (f : Npfid) (p : ℕ)
    (e : End) (w w' : World σ) : Prop extends Mild (growScope S tc w₀ p) e w w' where
  own : e ≠ .crash → ∃ g, w'.conn.pool.get p = some g ∧ f.Growing n g ∧ (e = .ok → f.Copied g)

/-- One statement after another, where the fid is no worse for a statement that fails. -/
theorem grown_bind {x : Prog (World σ) α} {y : α → Prog (World σ) β}
    (hx : x.DoesAt (Mild (growScope S tc w₀ p)) w)
    (hn : ∀ w', x w = (.stop, w') → ∃ g, w'.conn.pool.get p = some g ∧ f.Growing n g)
    (hy : ∀ a w₁, x w = (.ok a, w₁) → (y a).DoesAt (Grown S tc w₀ n f p) w₁) :
    (x >>= y).DoesAt (Grown S tc w₀ n f p) w := by
  rcases h : x w with ⟨r, w₁⟩
  have hm := hx.of_eq h
  rcases r with a | _ | _
  · have hy := hy a w₁ h
    rw [DoesAt, bind_of_ok h]
    exact ⟨(mild_effect (growScope_steady S)).trans hm hy.toMild, hy.own⟩
  · obtain ⟨g, hg, hgr⟩ := hn w₁ h
    exact doesAt_of_eq (bind_of_stop h) ⟨hm, fun _ => ⟨g, hg, hgr, fun h => (by cases h)⟩⟩
  · exact doesAt_of_eq (bind_of_crash h) ⟨hm, fun h => absurd rfl h⟩

/-- Changes of the new fid. -/
theorem updateFid_grow (g : Npfid → Npfid) :
    (updateFid p g).DoesAt (Mild (growScope S tc w₀ p)) w :=
  updateFid_mild fun _ h => absurd rfl h

/-- What a walk copies. -/
theorem copyFid_does (tc : Msg) (w₀ : World σ) (f₁ : Npfid) (hg : w.conn.pool.get p = some g) :
    (copyFid H p f₁).DoesAt (fun e w w' => Mild (growScope S tc w₀ p) e w w' ∧
      (e ≠ .crash → ∃ n, w'.conn.pool.get p = some { g with
        user := f₁.user, type := f₁.type, rofs := f₁.rofs, zombie := f₁.zombie, aname := n } ∧
        (e = .ok → n = f₁.aname))) w := by
  have hC : (growScope S tc w₀ p).Steady := growScope_steady S
  have hu : (updateFid p fun g => { g with
      user := f₁.user, type := f₁.type, rofs := f₁.rofs, zombie := f₁.zombie }).DoesAt
      (Mild (growScope S tc w₀ p)) w := updateFid_grow S _
  rcases h₁ : updateFid p (fun g => { g with
    user := f₁.user, type := f₁.type, rofs := f₁.rofs, zombie := f₁.zombie }) w with ⟨_, w₁⟩
  have hu := hu.of_eq h₁
  obtain ⟨rfl, hw₁⟩ := Prod.mk.inj h₁
  have hg₁ : w₁.conn.pool.get p = some { g with
      user := f₁.user, type := f₁.type, rofs := f₁.rofs, zombie := f₁.zombie } := by
    rw [← hw₁]
    exact FidPool.get_update_self hg _
  rcases ha : f₁.aname with _ | aname
  · have hc : copyFid H p f₁ w = (.crash, w₁) := by
      rw [copyFid, bind_of_ok h₁, ha]
      rfl
    exact doesAt_of_eq hc ⟨(mild_effect hC).trans hu (Mild.refl .crash w₁), fun h => absurd rfl h⟩
  · have hc : copyFid H p f₁ w = (allocOr H ENOMEM >>= fun _ => updateFid p fun g =>
        { g with aname := some aname }) w₁ := by
      rw [copyFid, bind_of_ok h₁, ha]
    have hq := allocOr_quiet H ENOMEM w₁
    rcases hx : allocOr H ENOMEM w₁ with ⟨r, w₂⟩
    have hq := hq.of_eq hx
    have hg₂ := (hq.get p).trans hg₁
    have hm := (mild_effect hC).trans hu hq.mild
    rcases r with _ | _ | _
    · refine doesAt_of_eq (hc.trans (bind_of_ok hx)) ⟨(mild_effect hC).trans hm
        (updateFid_grow S _), fun _ => ⟨_, FidPool.get_update_self hg₂ _, fun _ => rfl⟩⟩
    · exact doesAt_of_eq (hc.trans (bind_of_stop hx))
        ⟨hm, fun _ => ⟨_, hg₂, fun h => (by cases h)⟩⟩
    · exact doesAt_of_eq (hc.trans (bind_of_crash hx)) ⟨hm, fun h => absurd rfl h⟩

/-- A walk on the new fid. -/
theorem Walked.grow (h : Walked S tc w₀ e w w')
    (he : Elsewhere p e w w') : Mild (growScope S tc w₀ p) e w w' where
  trace := h.trace
  believes := h.believes
  rfid := h.rfid
  sess := h.sess
  next := h.next
  refs := h.refs
  alike _ q f hq hf := ⟨f, (he q hq).trans hf, .refl f⟩
  ecode _ he _ := h.clean he

section

variable {f₁ : Npfid} {q : ℕ} (hr : w₀.rfid = some q) (hf : w₀.conn.pool.get q = some f)
  (hl : f.Like (fun _ => False) True f₁) (hauth : tc.authAware = false)
  (hf₁ : w.conn.pool.get q = some f₁)

include hr hf hl hauth hf₁

/-- What hangs on the new fid of a walk. -/
theorem walkClone_does (hne : p ≠ q) (hg : w.conn.pool.get p = some g) :
    (walkClone H q p f₁).DoesAt (fun e w w' => Mild (growScope S tc w₀ p) e w w' ∧
      (e = .stop → w'.conn.pool.get p = some g) ∧
      (e = .ok → ∃ a, w'.conn.pool.get p = some { g with aux := a } ∧
        a.backend = f₁.aux.backend ∧ a ≠ .null ∧ Npfid.pending { g with aux := a } = false)) w := by
  have hC : (growScope S tc w₀ p).Steady := growScope_steady S
  -- the operation, on the request's fid, and then the new fid
  have hstep : ∀ {F : Type} (V : AuxView F) (x : Prog (Ost σ F) F),
      (auxOp V q x).DoesAt (Mild (growScope S tc w₀ p)) w →
      x.Returns (fun d => Npfid.pending { g with aux := V.put d } = false) →
      (auxOp V q x >>= fun d => updateFid p fun g => { g with aux := V.put d }).DoesAt
        (fun e w w' => Mild (growScope S tc w₀ p) e w w' ∧
          (e = .stop → w'.conn.pool.get p = some g) ∧
          (e = .ok → ∃ a, w'.conn.pool.get p = some { g with aux := a } ∧
            a.backend = f₁.aux.backend ∧ a ≠ .null ∧
            Npfid.pending { g with aux := a } = false)) w := by
    intro F V x hm hret
    have hel := auxOp_get_of_ne V hne x w
    rcases hx : auxOp V q x w with ⟨r, w₁⟩
    have hm := hm.of_eq hx
    have hel := hel.of_eq hx
    rcases r with d | _ | _
    · obtain ⟨d₀, o, o', hd, hxo, -⟩ := auxOp_eq_ok hx
      rw [World.aux_of_get hf₁] at hd
      rw [DoesAt, bind_of_ok hx]
      refine ⟨(mild_effect hC).trans hm (updateFid_grow S _), fun h => (by cases h), fun _ =>
        ⟨V.put d, FidPool.get_update_self (hel.trans hg) _, ?_, V.put_ne_null d, hret _ _ _ hxo⟩⟩
      rw [V.put_of_get hd, V.backend_put, V.backend_put]
    · exact doesAt_of_eq (bind_of_stop hx) ⟨hm, fun _ => hel.trans hg, fun h => (by cases h)⟩
    · exact doesAt_of_eq (bind_of_crash hx) ⟨hm, fun h => (by cases h), fun h => (by cases h)⟩
  refine doesAt_ite (fun ht => ?_) fun ht => ?_
  · refine hstep ctlAux _ ?_ fun _ _ _ _ => rfl
    refine ctlOp_mild (m := fun _ => false) (L := fun _ => False) hf₁ ?_
      (Op.npCtlClone_tame H) (fun _ _ h => h.elim) fun _ h => (by cases h)
    rw [hl.backend]
    exact .ctl hr hf (hl.isTmp.symm.trans ht) (unaware hauth)
  · rw [Bool.not_eq_true] at ht
    refine hstep srvAux _ ?_ (Op.diodFidclone_pending H)
    refine srvOp_mild (m := fun _ => false) (a := false) (L := fun _ => False) hf₁ ?_
      (Op.moves.diodFidclone H) (fun _ _ h => h.elim) (fun _ h => (by cases h))
      fun h => (by cases h)
    rw [hl.backend]
    exact .srv hr hf (hl.isTmp.symm.trans ht) (unaware hauth)

/-- **The new fid of a walk.** -/
theorem walkBody_grown (wnames : List Bytes) (hne : p ≠ q) (hg : w.conn.pool.get p = some g)
    (hgn : g.fid = n) (hg0 : g.aux = .null) (hk : f.Kinded) (hbl : w₀.wt.Believes → w.wt.Believes) :
    (do
      walkClone H q p f₁
      copyFid H p f₁
      walkNames H S p wnames : Prog (World σ) Msg).DoesAt (Grown S tc w₀ n f₁ p) w := by
  have hcl := walkClone_does H S hr hf hl hauth hf₁ hne hg
  refine grown_bind S (hcl.mono fun _ _ h => h.1) (fun w' h' => ?_) fun _ w₁ h₁ => ?_
  · refine ⟨g, (hcl.of_eq h').2.1 rfl, hgn, ?_, fun h => ?_⟩
    · rw [Npfid.pending, hg0]
    · rw [hg0] at h
      cases h
  obtain ⟨hm₁, -, ho⟩ := hcl.of_eq h₁
  obtain ⟨a, hg₁, hb, hn, hp⟩ := ho rfl
  have hcp := copyFid_does H S tc w₀ f₁ hg₁
  refine grown_bind S (hcp.mono fun _ _ h => h.1) (fun w' h' => ?_) fun _ w₂ h₂ => ?_
  · obtain ⟨_, hg₂, -⟩ := (hcp.of_eq h').2 (by simp)
    exact ⟨_, hg₂, hgn, hp, fun _ => rfl⟩
  obtain ⟨hm₂, ho₂⟩ := hcp.of_eq h₂
  obtain ⟨_, hg₂, hn₂⟩ := ho₂ (by simp)
  obtain rfl := hn₂ rfl
  -- the new fid is of the kind of the other, and the walk leaves it so
  have hw := walkNames_walked H S hr hf hauth wnames hg₂ (hb.trans hl.backend) hl.isTmp hl.user
    (by
      have hk₁ := hl.kinded hk
      unfold Npfid.Kinded at hk₁ ⊢
      rw [← hb] at hk₁
      exact hk₁) fun h => hm₂.believes (hm₁.believes (hbl h))
  refine (show DoesAt (fun e w w' => Walked S tc w₀ e w w' ∧ Elsewhere p e w w') _ w₂ from
    ⟨hw, walkNames_elsewhere H S wnames w₂⟩).mono fun e w' h => ⟨h.1.grow S h.2, fun he => ?_⟩
  obtain ⟨g₃, hg₃, hl₃⟩ := h.1.alike he p _ trivial hg₂
  have hp₃ : g₃.pending = false := by
    rcases h₃ : g₃.pending with _ | _
    · rfl
    · rcases hl₃.pending h₃ with h₃ | h₃
      · exact absurd (hp.symm.trans h₃) (by simp)
      · exact h₃.elim
  refine ⟨g₃, hg₃, ⟨hl₃.fid.trans hgn, hp₃, fun _ => hl₃.uid⟩,
    fun _ => ⟨hl₃.user, hl₃.aname, hl₃.rofs,
    hl₃.backend.trans hb, hl₃.isTmp, hl₃.isAuth, fun h₀ => ?_, hp₃⟩⟩
  have hb₃ := hl₃.backend
  rw [h₀] at hb₃
  cases a <;> first | exact hn rfl | cases hb₃

omit hr hf hl hauth hf₁ in
theorem copyFid_elsewhere : (copyFid H p f₁).Does (Elsewhere p) := by
  refine elsewhere.bind (updateFid_elsewhere _) fun _ => ?_
  split
  · exact elsewhere.crash
  · exact elsewhere.bind (fun w => (allocOr_quiet H ENOMEM w).elsewhere) fun _ =>
      updateFid_elsewhere _

omit hr hf hl hauth hf₁ in
theorem dispatch_elsewhere (gid : UInt32) (e : ℕ) (op : Prog (Ost σ DiodFid) α) :
    (dispatch H S q f₁ gid (fail e) op).Does (Elsewhere q) :=
  does_ite (fun _ w => (fail_quiet e w).elsewhere) fun _ =>
    elsewhere.bind (fun w => ((npSetfsid_does H S _ _ w).mono fun _ _ h => h.toQuiet).elsewhere)
      fun _ => auxOp_elsewhere _ _

/-- **The new fid of an attribute.** -/
theorem xattrwalkBody_grown (name : Bytes) (hne : p ≠ q) (hg : w.conn.pool.get p = some g)
    (hgn : g.fid = n) (hg0 : g.aux = .null) (hbl : w₀.wt.Believes → w.wt.Believes) :
    (do
      copyFid H p f₁
      let (rc, d) ← dispatch H S q f₁ noGid (fail EPERM) (Op.diodXattrwalk H name)
      updateFid p fun g => { g with aux := .srv d }
      pure rc : Prog (World σ) Msg).DoesAt (Grown S tc w₀ n f₁ p) w := by
  have hcp := copyFid_does H S tc w₀ f₁ hg
  -- until the end nothing hangs on the new fid
  have hgr : ∀ a, f₁.Growing n { g with
      user := f₁.user, type := f₁.type, rofs := f₁.rofs, zombie := f₁.zombie, aname := a } := by
    refine fun a => ⟨hgn, ?_, fun _ => rfl⟩
    simp only [Npfid.pending, hg0]
  refine grown_bind S (hcp.mono fun _ _ h => h.1) (fun w' h' => ?_) fun _ w₁ h₁ => ?_
  · obtain ⟨a, hg₁, -⟩ := (hcp.of_eq h').2 (by simp)
    exact ⟨_, hg₁, hgr a⟩
  obtain ⟨hm₁, ho₁⟩ := hcp.of_eq h₁
  obtain ⟨a, hg₁, hn₁⟩ := ho₁ (by simp)
  obtain rfl := hn₁ rfl
  have hq₁ : w₁.conn.pool.get q = some f₁ :=
    ((copyFid_elsewhere H w).of_eq h₁ q hne.symm).trans hf₁
  have hd : (dispatch H S q f₁ noGid (fail EPERM) (Op.diodXattrwalk H name)).DoesAt
      (Mild (growScope S tc w₀ p)) w₁ := by
    refine dispatch_mild H S (m := fun _ => false) (a := false) hq₁
      (fun _ => (fail_quiet EPERM w₁).mild) (fun ht => ?_)
      (Op.moves.tame fun f => (Op.sight f).xattrwalk name)
      (fun ht k c err hk hc => ?_) (fun _ h => (by cases h)) fun h => (by cases h)
    · rw [hl.backend]
      exact .srv hr hf (hl.isTmp.symm.trans ht) (unaware hauth)
    · rw [hl.uid] at hk ⊢
      exact .call hr hf (hl.isTmp.symm.trans ht) (fun hs hb hu =>
        hk hs (hm₁.believes (hbl hb)) hu) hc.elim
  have hel : (dispatch H S q f₁ noGid (fail EPERM) (Op.diodXattrwalk H name)).DoesAt
      (Elsewhere q) w₁ := dispatch_elsewhere H S noGid EPERM _ w₁
  refine grown_bind S hd (fun w' h' => ?_) fun r w₂ h₂ => ?_
  · exact ⟨_, (hel.of_eq h' p hne).trans hg₁, hgr _⟩
  have hg₂ := (hel.of_eq h₂ p hne).trans hg₁
  obtain ⟨hp, ht, d₀, hd₀⟩ := dispatch_ok H S (Op.diodXattrwalk_pending name) hq₁ h₂
  refine ⟨updateFid_grow S _, fun _ => ⟨_, FidPool.get_update_self hg₂ _, ⟨hgn, hp, fun _ => rfl⟩,
    fun _ => ⟨rfl, rfl, rfl, by rw [hd₀]; rfl, rfl, rfl, fun h => (by cases h), hp⟩⟩⟩

end

/-! ### Requests that make a fid -/

/-- The scope of a request that makes a fid. -/
def makeScope (S : Npsrv) (tc : Msg) (w : World σ) : Scope :=
  { scope S tc w with moves := fun _ => w.InUse tc }

/-- **A request that makes a fid** with the number `n`, at the next address. -/
structure Makes (S : Npsrv) (tc : Msg) (n : UInt32) (e : End) (w w' : World σ) : Prop where
  loose : Loose (makeScope S tc w) e w w'
  rfid : e ≠ .crash → w'.rfid = w.rfid
  next : e ≠ .crash → w'.conn.pool.next ≤ w.conn.pool.next + 1
  refs : e ≠ .crash → ∀ q < w.conn.pool.next, w'.conn.pool.refs q = w.conn.pool.refs q
  /-- When the request fails, the fid is gone. -/
  made : e ≠ .crash → ∀ g, w'.conn.pool.get w.conn.pool.next = some g →
    e = .ok ∧ g.fid = n ∧ g.refcount = 1 ∧
      ∃ p f, w.rfid = some p ∧ w.conn.pool.get p = some f ∧ f.Copied g
  new : e = .ok → w'.conn.pool.get w.conn.pool.next ≠ none

theorem Makes.of_crash (h : Loose (makeScope S tc w) .crash w w') : Makes S tc n .crash w w' :=
  ⟨h, fun h => absurd rfl h, fun h => absurd rfl h, fun h => absurd rfl h, fun h => absurd rfl h,
    fun h => by cases h⟩

/-- A scope that says nothing of the next fid. -/
def Scope.sparing (C : Scope) (p : ℕ) : Scope := { C with keeps := fun q => q ≠ p ∧ C.keeps q }

theorem Loose.of_sparing (h : Loose (C.sparing w.conn.pool.next) e w w') : Loose C e w w' :=
  { h with
    alike := fun he q f f' hq hf hf' =>
      h.alike he q f f' ⟨(FidPool.lt_next hf).ne, hq⟩ hf hf' }

theorem Loose.of_not_ok (he : e ≠ .ok)
    (h : Loose { C with clean := false } e w w') : Loose C e w w' :=
  { h with ecode := fun _ h => absurd h he }

/-- A fid is made, after something mild. -/
theorem Mild.create_loose (h : Mild C .ok w w₁) :
    Loose C .ok w (w₁.setPool (w₁.conn.pool.create n)) where
  trace := h.trace
  believes := h.believes
  sess := h.sess
  next _ := by
    change w.conn.pool.next ≤ (w₁.conn.pool.create n).next
    rw [FidPool.next_create, h.next (by simp)]
    exact Nat.le_succ _
  gone _ q hq hg := by
    have hne : q ≠ w₁.conn.pool.next := by
      rw [h.next (by simp)]
      exact hq.ne
    exact (FidPool.get_create_of_ne hne n).trans
      ((FidPool.get_of_refs (h.refs (by simp)) q).mpr hg)
  alike he q f f' hq hf hf' := by
    have hne : q ≠ w₁.conn.pool.next := by
      rw [h.next (by simp)]
      exact (FidPool.lt_next hf).ne
    obtain ⟨f₁, hf₁, hl⟩ := h.alike he q f hq hf
    obtain rfl : f' = f₁ :=
      Option.some.inj (hf'.symm.trans ((FidPool.get_create_of_ne hne n).trans hf₁))
    exact hl
  ecode := h.ecode

/-- The pool, when a fid has been made. -/
theorem Mild.create_refs (h : Mild C .ok w w₁) :
    (w₁.conn.pool.create n).next = w.conn.pool.next + 1 ∧
      (∀ q < w.conn.pool.next, (w₁.conn.pool.create n).refs q = w.conn.pool.refs q) ∧
      (w₁.conn.pool.create n).get w.conn.pool.next = some { fid := n, refcount := 1 } := by
  have hn : w₁.conn.pool.next = w.conn.pool.next := h.next (by simp)
  refine ⟨by rw [FidPool.next_create, hn], fun q hq => ?_, ?_⟩
  · rw [← h.refs (by simp) q]
    exact congrArg (Option.map _) (FidPool.get_create_of_ne (by rw [hn]; exact hq.ne) n)
  · rw [← hn]
    exact FidPool.get_create_next ..

section

variable {w₁ : World σ} {f₁ : Npfid} (hr : w.rfid = some p) (hf : w.conn.pool.get p = some f)
  (hm : Mild (createScope S tc w) .ok w w₁) (hf₁ : w₁.conn.pool.get p = some f₁)

include hm

variable {e : End} {w₂ : World σ}

theorem grown_loose
    (h : Grown S tc w n f₁ w.conn.pool.next e (w₁.setPool (w₁.conn.pool.create n)) w₂) :
    Loose ((makeScope S tc w).sparing w.conn.pool.next) e w w₂ :=
  hm.create_loose.trans h.loose
    ⟨fun _ h => h, fun _ => False.elim, id, fun _ _ => trivial, False.elim, id⟩
    ⟨fun _ h => h, fun _ => False.elim, False.elim, fun _ h => h.1, False.elim, fun _ => rfl⟩

theorem grown_refs (he : e ≠ .crash)
    (h : Grown S tc w n f₁ w.conn.pool.next e (w₁.setPool (w₁.conn.pool.create n)) w₂) :
    w₂.conn.pool.next = w.conn.pool.next + 1 ∧
      (∀ q < w.conn.pool.next, w₂.conn.pool.refs q = w.conn.pool.refs q) ∧
      w₂.conn.pool.refs w.conn.pool.next = some 1 := by
  obtain ⟨hn, hrefs, hg⟩ := hm.create_refs (n := n)
  refine ⟨(h.next he).trans hn, fun q hq => (h.refs he q).trans (hrefs q hq), ?_⟩
  rw [h.refs he]
  exact FidPool.refs_of_get hg

include hr hf hf₁

/-- **A new fid is filled in, or taken back.** -/
theorem withNew_makes {body : Prog (World σ) Msg}
    (hb : body.DoesAt (Grown S tc w n f₁ w.conn.pool.next)
      (w₁.setPool (w₁.conn.pool.create n))) :
    (withNew H w.conn.pool.next body).DoesAt (fun e _ w' => Makes S tc n e w w')
      (w₁.setPool (w₁.conn.pool.create n)) := by
  obtain ⟨f', hf', hl⟩ := hm.alike (by simp) p f trivial hf
  obtain rfl : f' = f₁ := Option.some.inj (hf'.symm.trans hf₁)
  rcases hx : body (w₁.setPool (w₁.conn.pool.create n)) with ⟨r, w₂⟩
  have hg := hb.of_eq hx
  have hlo := grown_loose S hm hg
  rcases r with rc | _ | _
  · obtain ⟨hn, hrefs, h1⟩ := grown_refs S hm (by simp) hg
    obtain ⟨g, hg₂, hgr, hco⟩ := hg.own (by simp)
    have hco := hco rfl
    refine doesAt_of_eq (done_of_ok hx (by simp) rfl) ⟨hlo.of_sparing,
      fun he => (hg.rfid he).trans (hm.rfid (by simp)), fun _ => hn.le, fun _ => hrefs,
      fun _ g' hg' => ?_, fun _ h => by rw [hg₂] at h; cases h⟩
    obtain rfl : g' = g := Option.some.inj (hg'.symm.trans hg₂)
    rw [FidPool.refs_of_get hg₂] at h1
    exact ⟨rfl, hgr.fid, Option.some.inj h1, p, f, hr, hf, hco.user.trans hl.user,
      hco.aname.trans hl.aname, hco.rofs.trans hl.rofs, hco.backend.trans hl.backend,
      hco.isTmp.trans hl.isTmp, hco.isAuth.trans hl.isAuth, hco.some, hco.pending⟩
  · obtain ⟨hn, hrefs, h1⟩ := grown_refs S hm (by simp) hg
    obtain ⟨g, hg₂, hgr, -⟩ := hg.own (by simp)
    rw [FidPool.refs_of_get hg₂] at h1
    have h1 : g.refcount = 1 := Option.some.inj h1
    have hrel := npFidDecref_does H hg₂
    rcases hd : npFidDecref H w.conn.pool.next w₂ with ⟨r', w₃⟩
    have hrel := hrel.of_eq hd
    -- what the fid was made with is closed, for the same user
    have hcl := hrel.loose
      (C := { (makeScope S tc w).sparing w.conn.pool.next with clean := false })
      hg₂ (fun h => by cases h) (by
        rintro v - ⟨hsrv, c, err, rfl, hc⟩
        rw [hgr.uid hsrv, hl.uid]
        exact .close hr hf (hc.imp id fun h => absurd (hgr.pending.symm.trans h) (by simp)))
    have hj := hlo.trans hcl (D := { (makeScope S tc w).sparing w.conn.pool.next with
      clean := false }) ⟨fun _ h => h, fun _ h => h, id, fun _ h => h, id, fun h => (by cases h)⟩
      ⟨fun _ h => h, fun _ h => h, id, fun _ h => h, id, fun h => (by cases h)⟩
    rcases r' with b | _ | _
    · have hw : withNew H w.conn.pool.next body (w₁.setPool (w₁.conn.pool.create n)) =
          (.stop, w₃) := done_of_ok hx (by simp) (bind_of_ok hd)
      have hc := hrel.conn (by simp)
      refine doesAt_of_eq hw ⟨(Loose.of_not_ok (C := (makeScope S tc w).sparing _) (by simp
        [Res.ending, End.join]) hj).of_sparing, fun he => hrel.rfid.trans ((hg.rfid he).trans
        (hm.rfid (by simp))), fun _ => ?_, fun _ q hq => ?_, fun _ g' hg' => ?_,
        fun h => (by cases h)⟩
      · rw [hc]
        exact (FidPool.next_decref ..).trans_le hn.le
      · rw [hc]
        exact (FidPool.refs_decref_of_ne hq.ne).trans (hrefs q hq)
      · rw [hc] at hg'
        rw [FidPool.get_decref_last hg₂ h1] at hg'
        cases hg'
    · exact absurd rfl hrel.ne_stop
    · have hw : withNew H w.conn.pool.next body (w₁.setPool (w₁.conn.pool.create n)) =
          (.crash, w₃) := done_of_crash_after hx (by simp) (bind_of_crash hd)
      exact doesAt_of_eq hw (.of_crash S (Loose.of_not_ok (C := (makeScope S tc w).sparing _)
        (by simp [Res.ending, End.join]) hj).of_sparing)
  · exact doesAt_of_eq (done_of_crash hx) (.of_crash S hlo.of_sparing)

end

/-- A request that fails before it has made a fid. -/
theorem Mild.makes (h : Mild (createScope S tc w) e w w') (he : e ≠ .ok) : Makes S tc n e w w' where
  loose := h.loose.mono ⟨fun _ h => h, fun _ => False.elim, id, fun _ _ => trivial, False.elim, id⟩
  rfid := h.rfid
  next hc := (h.next hc).le.trans (Nat.le_succ _)
  refs hc q _ := h.refs hc q
  made hc g hg := by
    rw [← h.next hc, FidPool.get_next] at hg
    cases hg
  new h := absurd h he

/-- A request without a fid makes none. -/
theorem reqFid_makes {y : ℕ × Npfid → Prog (World σ) α}
    (hy : ∀ p f, w.rfid = some p → w.conn.pool.get p = some f →
      (y (p, f)).DoesAt (Makes S tc n) w) : (reqFid >>= y).DoesAt (Makes S tc n) w :=
  reqFid_does (fun h he => h.mild.makes S he) hy

/-- The two fids when one has been made. -/
theorem created_facts (hr : w.rfid = some p) (hf : w.conn.pool.get p = some f)
    (hm : Mild (createScope S tc w) .ok w w₁) :
    ∃ f₁, w₁.conn.pool.get p = some f₁ ∧ f.Like (fun _ => False) True f₁ ∧
      p ≠ w.conn.pool.next ∧ (w₁.setPool (w₁.conn.pool.create n)).rfid = some p ∧
      (w₁.setPool (w₁.conn.pool.create n)).conn.pool.get p = some f₁ ∧
      (w₁.setPool (w₁.conn.pool.create n)).conn.pool.get w.conn.pool.next =
        some { fid := n, refcount := 1 } := by
  obtain ⟨f₁, hf₁, hl⟩ := hm.alike (by simp) p f trivial hf
  have hp : p ≠ w.conn.pool.next := (FidPool.lt_next hf).ne
  refine ⟨f₁, hf₁, hl.mono (fun _ h => h) fun _ => trivial, hp, (hm.rfid (by simp)).trans hr,
    (FidPool.get_create_of_ne ?_ n).trans hf₁, hm.create_refs.2.2⟩
  rwa [hm.next (by simp)]

/-- What is done with a fid that a request makes, if it can be made. -/
theorem createOr_makes {y : ℕ → Prog (World σ) Msg} (hn : n ∈ tc.makes)
    (hy : ∀ w₁, Mild (createScope S tc w) .ok w w₁ → (y w.conn.pool.next).DoesAt
      (fun e _ w' => Makes S tc n e w w') (w₁.setPool (w₁.conn.pool.create n))) :
    (createOr H S f n >>= y).DoesAt (Makes S tc n) w := by
  rcases createOr_cases H S (w := w) f hn with ⟨w₁, hm, hc⟩ | ⟨r, w₁, hc, hne', hm⟩
  · rw [DoesAt, bind_of_ok hc]
    exact hy w₁ hm
  · rcases r with _ | _ | _
    · exact absurd rfl hne'
    · exact doesAt_of_eq (bind_of_stop hc) (hm.makes S hne')
    · exact doesAt_of_eq (bind_of_crash hc) (hm.makes S hne')

section

variable (hk : w.Kinded)

include hk

variable {fid : UInt32} {wnames : List Bytes}

/-- **A walk to a new fid.** -/
theorem npWalk_makes {newfid : UInt32} (hne : fid ≠ newfid) :
    (npWalk H S fid newfid wnames).DoesAt (Makes S (.twalk fid newfid wnames) newfid) w := by
  have hn : newfid ∈ Fcall.makes (.twalk fid newfid wnames) := by simp [Fcall.makes, hne]
  rw [npWalk, npWalkBegin, bind_assoc]
  refine reqFid_makes S fun p f hr hf => ?_
  change ((failIf (wnames.length > MAXWELEM) EIO >>= fun _ => if fid = newfid then pure none
    else createOr H S f newfid >>= fun p => pure (some p)) >>= npWalkEnd H S wnames).DoesAt _ w
  rw [bind_assoc]
  refine failIf_does (fun h he => h.mild.makes S he) fun hlen => ?_
  rw [if_neg hne, bind_assoc]
  refine createOr_makes H S hn fun w₁ hm => ?_
  obtain ⟨f₁, hf₁, hl, hp, hr₂, hf₂, hg₂⟩ := created_facts S (n := newfid) hr hf hm
  change (npWalkEnd H S wnames (some w.conn.pool.next)).DoesAt _ _
  rw [DoesAt, npWalkEnd, bind_of_ok (reqFid_of_get hr₂ hf₂)]
  exact withNew_makes H S hr hf hm hf₁ (walkBody_grown H S hr hf hl rfl hf₂ wnames hp.symm hg₂
    rfl rfl (hk p f hf) hm.believes)

omit hk in
/-- **A walk to an attribute.** -/
theorem npXattrwalk_makes {attrfid : UInt32} {name : Bytes} :
    (npXattrwalk H S attrfid name).DoesAt (Makes S (.txattrwalk fid attrfid name) attrfid) w := by
  have hn : attrfid ∈ Fcall.makes (.txattrwalk fid attrfid name) := by simp [Fcall.makes]
  rw [npXattrwalk, npXattrwalkBegin, bind_assoc]
  refine reqFid_makes S fun p f hr hf => ?_
  change (createOr H S f attrfid >>= fun p' => npXattrwalkEnd H S name p').DoesAt _ w
  refine createOr_makes H S hn fun w₁ hm => ?_
  obtain ⟨f₁, hf₁, hl, hp, hr₂, hf₂, hg₂⟩ := created_facts S (n := attrfid) hr hf hm
  rw [DoesAt, npXattrwalkEnd, bind_of_ok (reqFid_of_get hr₂ hf₂)]
  exact withNew_makes H S hr hf hm hf₁ (xattrwalkBody_grown H S hr hf hl rfl hf₂ name hp.symm hg₂
    rfl rfl hm.believes)

/-- **A walk in place**, in terms of `Diod.Walked`. -/
theorem npWalk_inPlace :
    (npWalk H S fid fid wnames).DoesAt (Walked S (.twalk fid fid wnames) w) w := by
  have hq : ∀ {e : End} {w' : World σ}, Quiet e w w' → e ≠ .ok →
      Walked S (.twalk fid fid wnames) w e w w' := fun h he =>
    ⟨h.mild, fun h' _ => by subst h'; exact h.mild, fun h => absurd h he⟩
  rw [npWalk, npWalkBegin, bind_assoc]
  refine reqFid_does hq fun p f hr hf => ?_
  change ((failIf (wnames.length > MAXWELEM) EIO >>= fun _ => if fid = fid then pure none
    else createOr H S f fid >>= fun p => pure (some p)) >>= npWalkEnd H S wnames).DoesAt _ w
  rw [bind_assoc]
  refine failIf_does hq fun hlen => ?_
  rw [if_pos rfl]
  change (npWalkEnd H S wnames none).DoesAt _ w
  refine doesAt_bind_of_ok (reqFid_of_get hr hf) ?_
  exact walkNames_walked H S hr hf rfl wnames hf rfl rfl rfl (hk p f hf) id

end

end Diod
