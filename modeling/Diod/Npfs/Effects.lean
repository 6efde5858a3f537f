import Diod.Npfs.Srv
import Diod.Backend.Upkeep

/-!
# What a handler can do

A request is processed by one handler, but what can go wrong with it – a wrong user, a
fid of the wrong kind, a reference too many – is the same for all. So what a part of a
handler does is summed up in one relation, `Diod.Mild`, with respect to a scope
(`Diod.Scope`) that says which events it may cause and which fids it may take to
pieces. What is not in the scope stays as it is: every fid keeps its number, its user,
its name, its kind and its references (`Diod.Npfid.Like`).

The statements of this file go up from the smallest steps to the parts that handlers
share; `Diod.Npfs.Process` puts the handlers together from them.
-/

namespace Diod

open Prog

variable {σ F α : Type}

/-! ### Fids that are alike -/

/-- An attribute waits to be stored when the fid is closed. -/
def Npfid.pending (f : Npfid) : Bool :=
  match f.aux with
  | .srv d => d.pending
  | _ => false

/-- Where a fid is: its path, or its file if it is one of the server's own. -/
def Aux.place : Aux → Option (Path ⊕ Option Npfile)
  | .srv d => some (.inl d.path)
  | .ctl c => some (.inr c.file)
  | _ => none

/-- **Two fids are alike**: the same number, user, name and kind. An attribute becomes
pending only if `x` of the flag `FID_FLAGS_ROFS`, and the fid moves only if `m`. -/
structure Npfid.Like (x : Bool → Prop) (m : Prop) (f f' : Npfid) : Prop where
  fid : f'.fid = f.fid
  user : f'.user = f.user
  aname : f'.aname = f.aname
  rofs : f'.rofs = f.rofs
  zombie : f.zombie = true → f'.zombie = true
  backend : f'.aux.backend = f.aux.backend
  isTmp : f'.isTmp = f.isTmp
  isAuth : f'.isAuth = f.isAuth
  pending : f'.pending = true → f.pending = true ∨ x f'.rofs
  still : ¬m → f'.type = f.type ∧ f'.zombie = f.zombie ∧ f'.aux.place = f.aux.place

namespace Npfid.Like

variable {x : Bool → Prop} {m m' : Prop} {f g h : Npfid}

theorem refl (f : Npfid) : f.Like x m f :=
  ⟨rfl, rfl, rfl, rfl, id, rfl, rfl, rfl, .inl, fun _ => ⟨rfl, rfl, rfl⟩⟩

theorem trans (hf : f.Like x m g) (hg : g.Like x m h) : f.Like x m h where
  fid := hg.fid.trans hf.fid
  user := hg.user.trans hf.user
  aname := hg.aname.trans hf.aname
  rofs := hg.rofs.trans hf.rofs
  zombie hz := hg.zombie (hf.zombie hz)
  backend := hg.backend.trans hf.backend
  isTmp := hg.isTmp.trans hf.isTmp
  isAuth := hg.isAuth.trans hf.isAuth
  pending hp := (hg.pending hp).elim (fun hp => hg.rofs ▸ hf.pending hp) .inr
  still hm :=
    have ⟨ht, hz, hp⟩ := hf.still hm
    have ⟨ht', hz', hp'⟩ := hg.still hm
    ⟨ht'.trans ht, hz'.trans hz, hp'.trans hp⟩

theorem uid (h : f.Like x m g) : g.uid = f.uid := by rw [Npfid.uid, Npfid.uid, h.user]

theorem mono {x' : Bool → Prop} (h : f.Like x m g) (hx : ∀ r, x r → x' r) (hm : m → m') :
    f.Like x' m' g :=
  { h with
    pending := fun hp => (h.pending hp).imp id (hx _)
    still := fun hn => h.still fun h => hn (hm h) }

/-- The count is not looked at. -/
theorem recount (h : f.Like x m g) (n k : ℕ) :
    Npfid.Like x m { f with refcount := n } { g with refcount := k } :=
  ⟨h.fid, h.user, h.aname, h.rofs, h.zombie, h.backend, h.isTmp, h.isAuth, h.pending, h.still⟩

end Npfid.Like

/-! ### Scopes -/

/-- What the thread believes its uid to be is right, or it knows that it does not know. -/
def Wthread.Believes (t : Wthread) : Prop := t.fsuid = NONUNAME ∨ t.fsuid = t.k.fsuid

/-- **What a part of a handler is there to do.** -/
structure Scope where
  /-- The events it may cause. -/
  emits : Event → Prop
  /-- Does it hang attributes on fids, writable or read-only? -/
  attr : Bool → Prop := fun _ => False
  /-- Does it move fids, when it ends like this? -/
  moves : End → Prop := fun _ => False
  /-- The fids it leaves alike. -/
  keeps : ℕ → Prop := fun _ => True
  /-- Does it change the session? -/
  sess : Prop := False
  /-- Does it leave no error number behind when it has a result? -/
  clean : Bool := true

/-- Moving fids does not depend on how it ends. -/
def Scope.Steady (C : Scope) : Prop := ∀ e e', C.moves e → C.moves e'

/-- One scope is part of another, for parts that end like this. -/
structure Scope.Le (C C' : Scope) (e e' : End) : Prop where
  emits : ∀ v, C.emits v → C'.emits v
  attr : ∀ r, C.attr r → C'.attr r
  moves : C.moves e → C'.moves e'
  keeps : ∀ q, C'.keeps q → C.keeps q
  sess : C.sess → C'.sess
  clean : C'.clean = true → C.clean = true

/-- **What a part of a handler does**: nothing beyond its scope. A crash leaves nothing
to be said but what happened before it. -/
structure Mild (C : Scope) (e : End) (w w' : World σ) : Prop where
  trace : ∃ l, w'.trace = w.trace ++ l ∧ ∀ v ∈ l, C.emits v
  believes : w.wt.Believes → w'.wt.Believes
  rfid : e ≠ .crash → w'.rfid = w.rfid
  sess : e ≠ .crash → ¬C.sess →
    w'.conn.msize = w.conn.msize ∧ w'.conn.authuser = w.conn.authuser
  next : e ≠ .crash → w'.conn.pool.next = w.conn.pool.next
  refs : e ≠ .crash → ∀ q, w'.conn.pool.refs q = w.conn.pool.refs q
  alike : e ≠ .crash → ∀ q f, C.keeps q → w.conn.pool.get q = some f →
    ∃ f', w'.conn.pool.get q = some f' ∧ f.Like C.attr (C.moves e) f'
  ecode : C.clean = true → e = .ok → w.b.ecode = 0 → w'.b.ecode = 0

variable {C C' : Scope}

theorem Scope.Le.refl (C : Scope) (e : End) : C.Le C e e :=
  ⟨fun _ h => h, fun _ h => h, id, fun _ h => h, id, id⟩

theorem Scope.Steady.le (hC : C.Steady) (e e' : End) : C.Le C e e' :=
  { Scope.Le.refl C e with moves := hC e e' }

theorem Mild.refl (e : End) (w : World σ) : Mild C e w w :=
  ⟨⟨[], by simp, by simp⟩, id, fun _ => rfl, fun _ _ => ⟨rfl, rfl⟩, fun _ => rfl,
    fun _ _ => rfl, fun _ _ f _ h => ⟨f, h, .refl f⟩, fun _ _ h => h⟩

variable {e : End} {w w' : World σ} {x : Prog (World σ) α} {u : UInt32} {v : Event} {f : Npfid}
  {m : Prop}

/-- One part after another, each in a scope of its own. -/
theorem Mild.trans {D : Scope} {e' : End} {a b c : World σ} (h : Mild C e a b)
    (h' : Mild C' e' b c) (hC : C.Le D e (e.join e')) (hC' : C'.Le D e' (e.join e')) :
    Mild D (e.join e') a c where
  trace := logged_trans h.trace h'.trace hC.emits hC'.emits
  believes hb := h'.believes (h.believes hb)
  rfid hn :=
    have ⟨he, he'⟩ := End.join_ne_crash hn
    (h'.rfid he').trans (h.rfid he)
  sess hn hs :=
    have ⟨he, he'⟩ := End.join_ne_crash hn
    have h₁ := h.sess he fun h => hs (hC.sess h)
    have h₂ := h'.sess he' fun h => hs (hC'.sess h)
    ⟨h₂.1.trans h₁.1, h₂.2.trans h₁.2⟩
  next hn :=
    have ⟨he, he'⟩ := End.join_ne_crash hn
    (h'.next he').trans (h.next he)
  refs hn q :=
    have ⟨he, he'⟩ := End.join_ne_crash hn
    (h'.refs he' q).trans (h.refs he q)
  alike hn q f hq hf := by
    obtain ⟨he, he'⟩ := End.join_ne_crash hn
    obtain ⟨g, hg, hfg⟩ := h.alike he q f (hC.keeps q hq) hf
    obtain ⟨k, hk, hgk⟩ := h'.alike he' q g (hC'.keeps q hq) hg
    exact ⟨k, hk, (hfg.mono hC.attr hC.moves).trans (hgk.mono hC'.attr hC'.moves)⟩
  ecode hc hj h0 :=
    have ⟨he, he'⟩ := End.join_eq_ok hj
    h'.ecode (hC'.clean hc) he' (h.ecode (hC.clean hc) he h0)

theorem mild_effect (hC : C.Steady) : Effect (Mild (σ := σ) C) where
  refl := Mild.refl
  trans h h' := h.trans h' (hC.le _ _) (hC.le _ _)

/-- A larger scope, or an end that says less. -/
theorem Mild.weaken {e' : End} (h : Mild C e w w') (hC : C.Le C' e e')
    (hn : e' ≠ .crash → e ≠ .crash) (ho : C'.clean = true → e' = .ok → e = .ok) :
    Mild C' e' w w' where
  trace := logged_mono h.trace hC.emits
  believes := h.believes
  rfid he := h.rfid (hn he)
  sess he hs := h.sess (hn he) fun h => hs (hC.sess h)
  next he := h.next (hn he)
  refs he := h.refs (hn he)
  alike he q f hq hf := by
    obtain ⟨g, hg, hfg⟩ := h.alike (hn he) q f (hC.keeps q hq) hf
    exact ⟨g, hg, hfg.mono hC.attr hC.moves⟩
  ecode hc he h0 := h.ecode (hC.clean hc) (ho hc he) h0

/-- A crash leaves little to be said. -/
theorem Mild.of_crash (ht : ∃ l, w'.trace = w.trace ++ l ∧ ∀ v ∈ l, C.emits v)
    (hb : w.wt.Believes → w'.wt.Believes) : Mild C .crash w w' where
  trace := ht
  believes := hb
  rfid h := absurd rfl h
  sess h := absurd rfl h
  next h := absurd rfl h
  refs h := absurd rfl h
  alike h := absurd rfl h
  ecode _ h := by cases h

/-- A larger scope. -/
theorem Mild.mono (h : Mild C e w w') (hC : C.Le C' e e) : Mild C' e w w' :=
  h.weaken hC id fun _ => id

/-- Stopping is not told from ending, where the error number does not matter. -/
theorem Mild.ok_of_stop (h : Mild C .stop w w') (hC : C.Steady)
    (hc : C.clean = false) : Mild C .ok w w' :=
  h.weaken (hC.le _ _) (fun _ => by simp) fun h => by simp [hc] at h

/-! ### Steps that leave the connection alone -/

/-- **A quiet step**: only the host, the error number and the thread's credentials
change. -/
structure Quiet (e : End) (w w' : World σ) : Prop where
  conn : w'.conn = w.conn
  rfid : w'.rfid = w.rfid
  trace : w'.trace = w.trace
  believes : w.wt.Believes → w'.wt.Believes
  ecode : e = .ok → w.b.ecode = 0 → w'.b.ecode = 0

theorem quiet_effect : Effect (Quiet (σ := σ)) where
  refl _ _ := ⟨rfl, rfl, rfl, id, fun _ h => h⟩
  trans h h' := ⟨h'.conn.trans h.conn, h'.rfid.trans h.rfid, h'.trace.trans h.trace,
    fun hb => h'.believes (h.believes hb),
    fun hj h0 => h'.ecode (End.join_eq_ok hj).2 (h.ecode (End.join_eq_ok hj).1 h0)⟩

theorem Quiet.mild (h : Quiet e w w') : Mild C e w w' where
  trace := ⟨[], by simp [h.trace], by simp⟩
  believes := h.believes
  rfid _ := h.rfid
  sess _ _ := by simp [h.conn]
  next _ := by rw [h.conn]
  refs _ q := by rw [h.conn]
  alike _ q f _ hf := ⟨f, by rwa [h.conn], .refl f⟩
  ecode _ := h.ecode

theorem Quiet.trans_mild {w₁ : World σ} (h : Quiet .ok w w₁)
    (h' : Mild C e w₁ w') : Mild C e w w' :=
  Mild.trans (C := { C with moves := fun _ => False }) h.mild h'
    { Scope.Le.refl C e with moves := False.elim } (Scope.Le.refl C e)

/-- **A quiet statement before a mild one.** -/
theorem quiet_bind {β : Type} {g : α → Prog (World σ) β} (hx : x.DoesAt Quiet w)
    (hg : ∀ a w₁, x w = (.ok a, w₁) → Quiet .ok w w₁ → (g a).DoesAt (Mild C) w₁) :
    (x >>= g).DoesAt (Mild C) w :=
  hx.bind (fun a w₁ h => hg a w₁ h (hx.of_eq h)) (fun _ _ _ h => h.mild)
    fun _ _ _ h (h' : Mild C _ _ _) => h.trans_mild h'

theorem npUerror_quiet : (npUerror 0 : Prog (World σ) Unit).Does Quiet :=
  fun _ => ⟨rfl, rfl, rfl, id, fun _ _ => rfl⟩

theorem fail_quiet (e : ℕ) : (fail e : Prog (World σ) α).Does Quiet :=
  fun _ => ⟨rfl, rfl, rfl, id, fun h => by cases h⟩

theorem failIf_quiet (c : Prop) [Decidable c] (e : ℕ) :
    (failIf c e : Prog (World σ) Unit).Does Quiet :=
  quiet_effect.when fun _ => fail_quiet e

theorem deref_quiet (p : ℕ) : (deref p : Prog (World σ) Npfid).Does Quiet := by
  intro w
  unfold DoesAt deref
  split <;> exact quiet_effect.refl _ w

variable (H : Host σ) (S : Npsrv)

theorem malloc_quiet : (malloc H).Does Quiet := fun _ => ⟨rfl, rfl, rfl, id, fun _ h => h⟩

theorem allocOr_quiet (e : ℕ) : (allocOr H e).Does Quiet :=
  quiet_effect.bind (malloc_quiet H) fun m => by
    rcases m with _ | _
    · exact fail_quiet e
    · exact quiet_effect.pure _

/-! ### Credentials -/

/-- A quiet step that does not touch the uid of the thread. -/
structure SameUid (e : End) (w w' : World σ) : Prop extends Quiet e w w' where
  fsuid : w'.wt.fsuid = w.wt.fsuid
  kernel : w'.wt.k.fsuid = w.wt.k.fsuid

theorem sameUid_effect : Effect (SameUid (σ := σ)) where
  refl e w := ⟨quiet_effect.refl e w, rfl, rfl⟩
  trans h h' := ⟨quiet_effect.trans h.toQuiet h'.toQuiet, h'.fsuid.trans h.fsuid,
    h'.kernel.trans h.kernel⟩

theorem setWthread_sameUid {g : Wthread → Wthread} (hf : ∀ t, (g t).fsuid = t.fsuid)
    (hk : ∀ t, (g t).k.fsuid = t.k.fsuid) :
    (setWthread g : Prog (World σ) Unit).Does SameUid := by
  refine fun w => ⟨⟨rfl, rfl, rfl, fun h => ?_, fun _ h => h⟩, hf _, hk _⟩
  change (g w.wt).fsuid = NONUNAME ∨ (g w.wt).fsuid = (g w.wt).k.fsuid
  rwa [hf, hk]

theorem fail_sameUid (e : ℕ) : (fail e : Prog (World σ) α).Does SameUid :=
  fun w => ⟨fail_quiet e w, rfl, rfl⟩

theorem credCall_sameUid (c : HostCall) : (credCall H c).Does SameUid :=
  fun _ => ⟨⟨rfl, rfl, rfl, id, fun _ h => h⟩, rfl, rfl⟩

theorem Kcred.setfsgid_fsuid (k : Kcred) (gid : UInt32) : (k.setfsgid gid).fsuid = k.fsuid := by
  unfold Kcred.setfsgid
  split <;> rfl

theorem switchGid_sameUid (gid : UInt32) : (switchGid H gid).Does SameUid := by
  have hl : ∀ e, (loseGid e : Prog (World σ) Unit).Does SameUid := fun e =>
    sameUid_effect.bind (setWthread_sameUid (fun _ => rfl) fun _ => rfl) fun _ => fail_sameUid e
  have hs : (setfsgid H gid).Does SameUid :=
    sameUid_effect.bind (credCall_sameUid H _) fun _ => does_ite (fun _ => sameUid_effect.pure _)
      fun _ => sameUid_effect.bind sameUid_effect.read fun _ =>
        sameUid_effect.bind
          (setWthread_sameUid (fun _ => rfl) fun t => t.k.setfsgid_fsuid gid) fun _ =>
          sameUid_effect.pure _
  refine sameUid_effect.bind sameUid_effect.read fun w =>
    sameUid_effect.when fun _ => sameUid_effect.bind hs fun r => ?_
  split
  · exact hl _
  · exact does_ite (fun _ => hl _) fun _ => setWthread_sameUid (fun _ => rfl) fun _ => rfl

theorem switchCaps_sameUid : (switchCaps H S).Does SameUid := by
  have hc : ∀ val, (chgPrivcap H val).Does SameUid := fun val =>
    sameUid_effect.bind (credCall_sameUid H _) fun r =>
    sameUid_effect.bind (sameUid_effect.when fun _ => fail_sameUid _) fun _ =>
      setWthread_sameUid (fun _ => rfl) fun _ => rfl
  exact sameUid_effect.bind sameUid_effect.read fun w => sameUid_effect.when fun _ =>
    does_ite (fun _ => hc _) fun _ => sameUid_effect.when fun _ => hc _

/-- **A switch of the uid**: the thread then runs as the user, or it knows that it may
not. -/
structure Switched (u : UInt32) (e : End) (w w' : World σ) : Prop extends Quiet e w w' where
  kernel : w'.wt.k.fsuid = w.wt.k.fsuid ∨ w'.wt.k.fsuid = u
  fsuid : e = .ok → w'.wt.fsuid = u

theorem Kcred.setfsuid_fsuid (k : Kcred) (u : UInt32) :
    (k.setfsuid u).fsuid = if u = NONUNAME then k.fsuid else u := by
  unfold Kcred.setfsuid
  split <;> rfl

/-- How `followUid` ends: the thread believes in the new uid, or in none. -/
theorem followUid_does (u : Npuser) : (followUid H S u).Does fun e w w' =>
    w'.conn = w.conn ∧ w'.rfid = w.rfid ∧ w'.trace = w.trace ∧ w'.wt.k.fsuid = w.wt.k.fsuid ∧
      (w'.wt.fsuid = NONUNAME ∨ w'.wt.fsuid = u.uid) ∧
      (e = .ok → w'.b.ecode = w.b.ecode ∧ w'.wt.fsuid = u.uid) := by
  intro w
  unfold DoesAt followUid switchGroups
  by_cases hg : S.setgroups = true
  · by_cases hr : (H.call (.setgroups u.sg) w.b.host).1.err = 0
    · simp [Prog.when, hg, bind_apply, setWthread, Prog.modify, credCall, hr]
    · simp [Prog.when, hg, bind_apply, setWthread, Prog.modify, credCall, hr, loseUid, fail,
        npUerror, Prog.stop, Res.ending]
  · simp [Prog.when, hg, bind_apply, setWthread, Prog.modify, pure_apply]

theorem switchUid_does (u : Npuser) : (switchUid H S u).Does (Switched u.uid) := by
  intro w
  refine doesAt_read_bind ?_
  by_cases hu : w.wt.fsuid = u.uid
  · rw [Prog.when, if_neg (not_not.mpr hu)]
    exact ⟨quiet_effect.refl _ w, .inl rfl, fun _ => hu⟩
  · rw [Prog.when, if_pos hu]
    have hk := Kcred.setfsuid_fsuid w.wt.k u.uid
    by_cases hr : (H.call (.setfsuid u.uid) w.b.host).1.err = 0
    · have hs : setfsuid H u.uid w = (.ok (.ok w.wt.k.fsuid), { w with
          b := { w.b with host := (H.call (.setfsuid u.uid) w.b.host).2 }
          wt := { w.wt with k := w.wt.k.setfsuid u.uid } }) := by
        simp only [setfsuid, bind_apply, credCall, hr]
        rfl
      rw [DoesAt, bind_of_ok hs]
      dsimp only
      by_cases hn : w.wt.k.fsuid = w.wt.fsuid
      · rw [if_neg (not_not.mpr hn)]
        obtain ⟨hc, hf, ht, hk', hb, ho⟩ := followUid_does H S u { w with
          b := { w.b with host := (H.call (.setfsuid u.uid) w.b.host).2 }
          wt := { w.wt with k := w.wt.k.setfsuid u.uid } }
        dsimp only at hc hf ht hk'
        rw [hk] at hk'
        refine ⟨⟨hc, hf, ht, fun _ => ?_, fun he h0 => (ho he).1.trans h0⟩, ?_, fun he => (ho he).2⟩
        · -- the kernel has the new uid, unless that is the one it does not set
          rcases hb with hb | hb
          · exact .inl hb
          · by_cases hu : u.uid = NONUNAME
            · exact .inl (hb.trans hu)
            · exact .inr (by rw [hb, hk', if_neg hu])
        · rw [hk']
          split <;> simp
      · rw [if_pos hn]
        refine ⟨⟨rfl, rfl, rfl, fun _ => .inl rfl, fun h => by cases h⟩, ?_, fun h => by cases h⟩
        change (w.wt.k.setfsuid u.uid).fsuid = _ ∨ (w.wt.k.setfsuid u.uid).fsuid = _
        rw [hk]
        split <;> simp
    · have hs : setfsuid H u.uid w = (.ok (.error (H.call (.setfsuid u.uid) w.b.host).1.err),
          { w with b := { w.b with host := (H.call (.setfsuid u.uid) w.b.host).2 } }) := by
        simp only [setfsuid, bind_apply, credCall]
        rw [if_pos hr]
        rfl
      rw [DoesAt, bind_of_ok hs]
      exact ⟨⟨rfl, rfl, rfl, fun _ => .inl rfl, fun h => by cases h⟩, .inl rfl,
        fun h => by cases h⟩

theorem SameUid.switched {w₁ w₂ : World σ} (h : SameUid .ok w w₁)
    (h' : Switched u e w₁ w₂) : Switched u e w w₂ :=
  ⟨quiet_effect.trans h.toQuiet h'.toQuiet, h.kernel ▸ h'.kernel, h'.fsuid⟩

theorem SameUid.not_ok (he : e ≠ .ok) (h : SameUid e w w') : Switched u e w w' :=
  ⟨h.toQuiet, .inl h.kernel, fun h => absurd h he⟩

theorem fsidGid_sameUid (u : Npuser) (gid : UInt32) :
    (fsidGid S u gid : Prog (World σ) UInt32).Does SameUid :=
  sameUid_effect.bind sameUid_effect.read fun _ =>
  sameUid_effect.bind (sameUid_effect.when fun _ => fail_sameUid _) fun _ => sameUid_effect.pure _

theorem switchIds_does (gid : UInt32) (u : Npuser) :
    (switchIds H S gid (some u)).Does (Switched u.uid) := fun w =>
  (fsidGid_sameUid S u gid w).bind (fun g w₁ _ =>
    (switchGid_sameUid H g w₁).bind (fun _ w₂ _ => switchUid_does H S u w₂)
      (fun _ _ he h => h.not_ok he) fun _ _ _ h h' => h.switched h')
    (fun _ _ he h => h.not_ok he) fun _ _ _ h h' => h.switched h'

/-- **What `np_setfsid` does**: where ids are switched and it succeeds, the thread believes
in the uid of the user. -/
structure Setfsid (S : Npsrv) (u : Option Npuser) (e : End) (w w' : World σ) : Prop
    extends Quiet e w w' where
  kernel : w'.wt.k.fsuid = w.wt.k.fsuid ∨ u.map (·.uid) = some w'.wt.k.fsuid
  fsuid : e = .ok → S.setfsid = true → u.map (·.uid) = some w'.wt.fsuid

theorem npSetfsid_does (u : Option Npuser) (gid : UInt32) :
    (npSetfsid H S u gid).Does (Setfsid S u) := by
  intro w
  have hs : (Prog.when (S.setfsid = true) (switchIds H S gid u)).DoesAt (Setfsid S u) w := by
    unfold Prog.when
    by_cases hs : S.setfsid = true
    · rw [if_pos hs]
      rcases u with _ | u
      · exact ⟨quiet_effect.refl _ w, .inl rfl, fun h => by cases h⟩
      · refine (switchIds_does H S gid u w).mono fun e w' h => ⟨h.toQuiet, ?_, fun he _ => ?_⟩
        · exact h.kernel.imp id fun h => congrArg some h.symm
        · exact congrArg some (h.fsuid he).symm
    · rw [if_neg hs]
      exact ⟨quiet_effect.refl _ w, .inl rfl, fun _ h => absurd h hs⟩
  refine hs.bind (fun _ w₁ _ => switchCaps_sameUid H S w₁) (fun _ _ _ h => h) fun e w₁ w₂ h h' =>
    ⟨quiet_effect.trans h.toQuiet h'.toQuiet, ?_, fun _ hs => ?_⟩
  · rw [h'.kernel]
    exact h.kernel
  · rw [h'.fsuid]
    exact h.fsuid rfl hs

/-- A thread that believes right runs as the user then. -/
theorem Setfsid.runsAs {u : Option Npuser} (h : Setfsid S u .ok w w')
    (hs : S.setfsid = true) (hb : w.wt.Believes) (hu : u.map (·.uid) ≠ some NONUNAME) :
    u.map (·.uid) = some w'.wt.k.fsuid := by
  have hf := h.fsuid rfl hs
  rcases h.believes hb with hn | hk
  · rw [hf, hn] at hu
    exact absurd rfl hu
  · rw [hf, hk]

/-! ### The server's own files, and authentication -/

namespace Op

variable {L : HostCall → Prop} {m t : Bool} (R : Ctlroot)

/-- **What may happen to one of the server's own fids**: unless `m`, it keeps its file. -/
def Keeps (m : Bool) (f f' : CtlFid) : Prop := m = false → f'.file = f.file

theorem keeps : Change (Keeps m) where
  refl _ _ := rfl
  trans h h' hm := (h' hm).trans (h hm)

theorem npCtlClone_tame : (npCtlClone H).Does (Tame L (Keeps m) t) :=
  keeps.fid_bind fun _ =>
  keeps.reply H _ _

theorem npCtlClunk_tame : (npCtlClunk H).Does (Tame L (Keeps m) t) :=
  keeps.reply H _ _

theorem npCtlLopen_tame (mode : UInt32) : (npCtlLopen H mode).Does (Tame L (Keeps m) t) :=
  keeps.fid_bind fun _ =>
  keeps.effect.bind (keeps.failIf _ _) fun _ =>
  keeps.effect.bind (keeps.failIf _ _) fun _ =>
  keeps.effect.bind (keeps.effect.when fun _ => keeps.effect.crash) fun _ =>
  keeps.reply H _ _

/-- The calls that are made for the server's own files, some of which are those of
`/proc`. -/
def OwnCall (c : HostCall) : Prop :=
  Local c ∨ ∃ name : Bytes, c = .openFile
    ([47, 112, 114, 111, 99, 47] ++ name.map fun c => if c = 46 then 47 else c) 0 0

theorem OwnCall.look {c : HostCall} (h : OwnCall c) : Look c := by
  rcases h with h | ⟨name, rfl⟩
  · exact h.look
  · exact rfl

theorem ctlGetf_tame (file : Npfile) : (ctlGetf H R file).Does (Tame OwnCall (Keeps m) t) := by
  have hg : ∀ (s : Bytes) (f : CtlFid), Keeps m f { f with data := some s } := fun _ _ _ => rfl
  have hp : (ctlGetProc H file.name).Does (Tame OwnCall (Keeps m) t) := by
    refine keeps.effect.bind (keeps.sysOr H ?_) fun _ =>
      keeps.effect.done (keeps.effect.bind (keeps.allocOr H _) fun _ =>
        keeps.effect.bind (keeps.sysOr H (.inl ⟨rfl, rfl⟩)) fun _ => keeps.effect.pure _)
        (fun _ => keeps.effect.bind (keeps.syscall H (.inl ⟨rfl, rfl⟩)) fun _ =>
          keeps.effect.pure _)
        fun _ _ h => (by cases h)
    exact .inr ⟨file.name, rfl⟩
  unfold ctlGetf
  split
  · exact keeps.effect.pure _
  · exact keeps.effect.bind hp fun s => setFid_tame (hg s)
  · exact keeps.effect.bind (keeps.allocOr H _) fun _ => setFid_tame (hg _)

theorem npCtlRead_tame (offset : UInt64) (count : UInt32) :
    (npCtlRead H R offset count).Does (Tame OwnCall (Keeps m) t) := by
  refine keeps.fid_bind fun f => does_ite
    (fun _ => keeps.reply H _ _)
    fun _ => keeps.effect.bind ?_ fun _ => keeps.fid_bind fun _ =>
      keeps.reply H _ _
  unfold ctlGet
  split
  · exact ctlGetf_tame H R _
  · exact keeps.effect.pure _

theorem npCtlReaddir_tame (offset : UInt64) (count : UInt32) :
    (npCtlReaddir H R offset count).Does (Tame L (Keeps m) t) :=
  keeps.fid_bind fun _ =>
  keeps.reply H _ _

theorem npCtlGetattr_tame (requestMask : UInt64) :
    (npCtlGetattr H R requestMask).Does (Tame L (Keeps m) t) :=
  keeps.fid_bind fun _ =>
  keeps.reply H _ _

theorem npCtlSetattr_tame : (npCtlSetattr H).Does (Tame L (Keeps m) t) :=
  keeps.reply H _ _

theorem npCtlWrite_tame (count : UInt32) : (npCtlWrite H count).Does (Tame L (Keeps m) t) :=
  keeps.fid_bind fun _ =>
  keeps.effect.bind (keeps.failIf _ _) fun _ =>
  keeps.reply H _ _

/-- A walk that fails stays where it is. -/
theorem npCtlWalk_tame (wname : Bytes) :
    (npCtlWalk R wname : Prog (Ost σ CtlFid) Npqid).Does fun e =>
      Tame L (Keeps (decide (e ≠ .stop))) t e := by
  intro o
  unfold npCtlWalk
  refine doesAt_fid_bind ?_
  split
  · exact ⟨⟨[], (List.append_nil _).symm, by simp⟩, fun _ => rfl, fun _ h => by cases h⟩
  · exact ⟨⟨[], (List.append_nil _).symm, by simp⟩, fun h => (by cases h), fun _ _ h => h⟩

theorem npCtlWalk_tmp (wname : Bytes) :
    (npCtlWalk R wname : Prog (Ost σ CtlFid) Npqid).Returns fun q =>
      q.type &&& Qttmp ≠ 0 ∧ q.type &&& Qtauth = 0 := by
  refine returns_of_last fun f => ?_
  split
  · exact returns_of_last fun _ => returns_stop
  · have hq : Qttmp &&& Qttmp ≠ 0 ∧ Qttmp &&& Qtauth = 0 := by decide
    exact returns_of_last fun _ => returns_pure hq

/-- Anything may happen to a fid that is being made, or to a credential. -/
def Free (F : Type) (_ _ : F) : Prop := True

theorem free : Change (Free F) := ⟨fun _ => trivial, fun _ _ => trivial⟩

theorem npCtlAttach_tame : (npCtlAttach H).Does (Tame L (Free CtlFid) t) :=
  free.effect.bind (free.allocOr H _) fun _ =>
  free.effect.bind (free.allocOr H _) fun _ =>
  free.effect.bind (setFid_tame fun _ => trivial) fun _ => free.effect.pure _

theorem startauth_tame : (startauth H).Does (Tame L (Free Da) t) :=
  free.effect.bind (free.allocOr H _) fun _ =>
  free.effect.bind (free.allocOr H _) fun _ => setFid_tame fun _ => trivial

theorem checkauth_tame (uid : UInt32) (munge : Bytes → Option UInt32) :
    (checkauth uid munge : Prog (Ost σ Da) Unit).Does (Tame L (Free Da) t) := by
  refine free.fid_bind fun da => ?_
  split
  · exact free.fail _
  · split
    · exact free.fail _
    · exact free.failIf _ _

theorem writeafid_tame (offset : UInt64) (data : Bytes) :
    (writeafid H offset data).Does (Tame L (Free Da) t) := by
  refine free.effect.bind (free.failIf _ _) fun _ =>
    free.fid_bind fun _ =>
    free.effect.bind (free.failIf _ _) fun _ =>
    free.effect.bind (free.malloc H) fun m => ?_
  rcases m with _ | _
  · exact free.effect.bind (setFid_tame fun _ => trivial) fun _ => free.fail _
  · exact setFid_tame fun _ => trivial

end Op

/-! ### Operations of a backend -/

theorem Mild.record (hv : C.emits v)
    (h : Mild C e { w with trace := w.trace ++ [v] } w') : Mild C e w w' :=
  have hl : ∃ l, w.trace ++ [v] = w.trace ++ l ∧ ∀ u ∈ l, C.emits u := ⟨[v], rfl, by simpa using hv⟩
  { h with trace := logged_trans hl h.trace (fun _ h => h) fun _ h => h }

theorem record_mild (hv : C.emits v) : (record v : Prog (World σ) Unit).Does (Mild C) :=
  fun _ => Mild.record hv (Mild.refl _ _)

/-- Something is recorded before a mild statement. -/
theorem record_bind (hv : C.emits v) (hx : x.DoesAt (Mild C) { w with trace := w.trace ++ [v] }) :
    (record v >>= fun _ => x).DoesAt (Mild C) w :=
  Mild.record hv hx

/-- Changes of a fid that leave it alike, or are in scope. -/
theorem updateFid_mild {p : ℕ} {g : Npfid → Npfid}
    (hg : ∀ f, C.keeps p → w.conn.pool.get p = some f →
      f.Like C.attr (C.moves .ok) { g f with fid := f.fid, refcount := f.refcount }) :
    (updateFid p g).DoesAt (Mild C) w where
  ecode _ _ h := h
  trace := ⟨[], (List.append_nil _).symm, by simp⟩
  believes h := h
  rfid _ := rfl
  sess _ _ := ⟨rfl, rfl⟩
  next _ := rfl
  refs _ q := FidPool.refs_update _ _ _ q
  alike _ q f hq hf := by
    rcases eq_or_ne q p with rfl | hne
    · exact ⟨_, FidPool.get_update_self hf g, hg f hq hf⟩
    · exact ⟨f, (FidPool.get_update_of_ne hne g).trans hf, .refl f⟩

section

variable {L : HostCall → Prop} {K : End → F → F → Prop} {w : World σ} {p : ℕ} {f : Npfid}
  {x : Prog (Ost σ F) α}

/-- **An operation of a backend** changes only what hangs on the fid. -/
theorem runAux_mild (V : AuxView F) {uids : List (Option UInt32)}
    (hf : w.conn.pool.get p = some f)
    (hx : ∀ d, V.get f.aux = some d →
      x.DoesAt (fun e => Op.Tame L (K e) C.clean e) ⟨{ w.b with log := [] }, d⟩)
    (hc : ∀ c err, L c → C.emits (.call uids w.wt.k.fsuid c err))
    (hl : C.keeps p → ∀ e d d', V.get f.aux = some d → K e d d' →
      f.Like C.attr (C.moves e) { f with aux := V.put d' }) :
    (runAux V p uids x).DoesAt (Mild C) w := by
  unfold DoesAt runAux
  rw [World.aux_of_get hf]
  rcases hd : V.get f.aux with _ | d
  · exact Mild.refl _ w
  · have hx := hx d hd
    simp only [runOp]
    rcases hr : x ⟨{ w.b with log := [] }, d⟩ with ⟨r, o⟩
    have ht := hx.of_eq hr
    obtain ⟨l, ho, hm⟩ := ht.log
    refine ⟨⟨_, rfl, fun v hv => ?_⟩, fun h => h, fun _ => rfl, fun _ _ => ⟨rfl, rfl⟩, fun _ => rfl,
      fun _ q => FidPool.refs_update _ _ _ q, fun _ q g hq hg => ?_, fun hc he => ht.ecode hc he⟩
    · obtain ⟨⟨c, err⟩, hce, rfl⟩ := List.mem_map.mp hv
      rw [ho, List.nil_append] at hce
      exact hc c err (hm _ hce)
    · rcases eq_or_ne q p with rfl | hne
      · obtain rfl : g = f := Option.some.inj (hg.symm.trans hf)
        exact ⟨_, FidPool.get_update_self hf _, hl hq _ d _ hd ht.fid⟩
      · exact ⟨g, (FidPool.get_update_of_ne hne _).trans hg, .refl g⟩

theorem auxOp_mild (V : AuxView F) (hf : w.conn.pool.get p = some f)
    (hop : C.emits (.op V.backend [f.aux.backend]))
    (hx : ∀ d, V.get f.aux = some d →
      x.DoesAt (fun e => Op.Tame L (K e) C.clean e) ⟨{ w.b with log := [] }, d⟩)
    (hc : ∀ c err, L c → C.emits (.call [f.uid] w.wt.k.fsuid c err))
    (hl : C.keeps p → ∀ e d d', V.get f.aux = some d → K e d d' →
      f.Like C.attr (C.moves e) { f with aux := V.put d' }) :
    (auxOp V p x).DoesAt (Mild C) w := by
  refine doesAt_read_bind ?_
  rw [World.aux_of_get hf, World.uid_of_get hf]
  exact record_bind hop (runAux_mild V hf hx hc hl)

end

/-- What an operation of the file server leaves alike. -/
theorem like_srv {d d' : DiodFid} {x : Bool → Prop} (hd : f.aux = .srv d)
    (hp : d'.pending = true → d.pending = true ∨ x f.rofs) (hm : ¬m → d'.path = d.path) :
    f.Like x m { f with aux := .srv d' } where
  fid := rfl
  user := rfl
  aname := rfl
  rofs := rfl
  zombie h := h
  backend := by rw [hd]; rfl
  isTmp := rfl
  isAuth := rfl
  pending h := by simpa [Npfid.pending, hd] using hp h
  still h := ⟨rfl, rfl, by simp [Aux.place, hd, hm h]⟩

/-- What any other operation leaves alike. -/
theorem like_other {a : Aux} {x : Bool → Prop}
    (hb : a.backend = f.aux.backend) (hs : a.backend ≠ some .srv)
    (hm : ¬m → a.place = f.aux.place) : f.Like x m { f with aux := a } where
  fid := rfl
  user := rfl
  aname := rfl
  rofs := rfl
  zombie h := h
  backend := hb
  isTmp := rfl
  isAuth := rfl
  pending h := by
    cases a with
    | srv d => exact absurd rfl hs
    | null => cases h
    | ctl c => cases h
    | auth d => cases h
  still h := ⟨rfl, rfl, hm h⟩

end Diod
