import Diod.Npfs.Effects

/-!
# The parts that handlers share

A handler looks at the request's fid, may look up or make another, gives the thread the
credentials of a user and calls an operation. Each of these parts is summed up here
once, in terms of `Diod.Mild` where it keeps the references as they are, and of
`Diod.Released` where it gives one back.
-/

namespace Diod

open Prog

variable {σ α β : Type} {C : Scope} (H : Host σ) (S : Npsrv) {w : World σ} {p : ℕ} {f : Npfid}

/-! ### The request's fid -/

theorem deref_of_get (hf : w.conn.pool.get p = some f) : deref p w = (.ok f, w) := by
  unfold deref
  rw [hf]

theorem deref_of_none (hf : w.conn.pool.get p = none) : deref p w = (.crash, w) := by
  unfold deref
  rw [hf]

variable {F : Type} {c : Prop} {e q : ℕ} {n : UInt32} {x : ℕ → Prog (World σ) α} {g : Npfid}
  {V : AuxView F}

theorem derefAux_of_get {d : F} (hf : w.conn.pool.get p = some f)
    (hd : V.get f.aux = some d) : derefAux V p w = (.ok d, w) := by
  rw [derefAux, World.aux_of_get hf, hd]

theorem derefAux_of_none (hf : w.conn.pool.get p = some f)
    (hd : V.get f.aux = none) : derefAux V p w = (.crash, w) := by
  rw [derefAux, World.aux_of_get hf, hd]

theorem reqPtr_of_rfid (h : w.rfid = some p) : reqPtr w = (.ok p, w) := by
  unfold reqPtr
  rw [read_bind, h]
  rfl

theorem reqPtr_of_none (h : w.rfid = none) : reqPtr w = fail EIO w := by
  unfold reqPtr
  rw [read_bind, h]

theorem reqFid_of_get (hr : w.rfid = some p) (hf : w.conn.pool.get p = some f) :
    reqFid w = (.ok (p, f), w) := by
  rw [reqFid, bind_of_ok (reqPtr_of_rfid hr), bind_of_ok (deref_of_get hf)]
  rfl

/-- A pointer is followed, which leads to a fid or is a crash. -/
theorem deref_bind {g : Npfid → Prog (World σ) β}
    (hg : ∀ f, w.conn.pool.get p = some f → (g f).DoesAt (Mild C) w) :
    (deref p >>= g).DoesAt (Mild C) w := by
  rcases hf : w.conn.pool.get p with _ | f
  · exact doesAt_of_eq (bind_of_crash (deref_of_none hf)) (Mild.refl _ w)
  · exact doesAt_bind_of_ok (deref_of_get hf) (hg f hf)

/-- A request without a fid is refused. -/
theorem reqPtr_bind {g : ℕ → Prog (World σ) β}
    (hg : ∀ p, w.rfid = some p → (g p).DoesAt (Mild C) w) :
    (reqPtr >>= g).DoesAt (Mild C) w := by
  rcases hr : w.rfid with _ | p
  · exact doesAt_of_eq (bind_of_stop (reqPtr_of_none hr)) (fail_quiet (α := ℕ) EIO w).mild
  · exact doesAt_bind_of_ok (reqPtr_of_rfid hr) (hg p hr)

theorem reqFid_does {R : End → World σ → World σ → Prop} {g : ℕ × Npfid → Prog (World σ) β}
    (hq : ∀ {e w'}, Quiet e w w' → e ≠ .ok → R e w w')
    (hg : ∀ p f, w.rfid = some p → w.conn.pool.get p = some f → (g (p, f)).DoesAt R w) :
    (reqFid >>= g).DoesAt R w := by
  rcases hr : w.rfid with _ | p
  · have h : reqFid w = fail EIO w := bind_of_stop (reqPtr_of_none hr)
    exact doesAt_of_eq (bind_of_stop h) (hq (fail_quiet (α := Unit) EIO w) End.noConfusion)
  · rcases hf : w.conn.pool.get p with _ | f
    · have h : reqFid w = (.crash, w) := by
        rw [reqFid, bind_of_ok (reqPtr_of_rfid hr), bind_of_crash (deref_of_none hf)]
      exact doesAt_of_eq (bind_of_crash h) (hq (quiet_effect.refl _ w) End.noConfusion)
    · exact doesAt_bind_of_ok (reqFid_of_get hr hf) (hg p f hr hf)

theorem reqFid_bind {g : ℕ × Npfid → Prog (World σ) β}
    (hg : ∀ p f, w.rfid = some p → w.conn.pool.get p = some f → (g (p, f)).DoesAt (Mild C) w) :
    (reqFid >>= g).DoesAt (Mild C) w :=
  reqFid_does (fun h _ => h.mild) hg

theorem failIf_of_pos [Decidable c] (hc : c) :
    failIf c e w = (.stop, { w with b := { w.b with ecode := e } }) := by
  unfold failIf Prog.when
  rw [if_pos hc]
  rfl

theorem failIf_of_neg [Decidable c] (hc : ¬c) : failIf c e w = (.ok (), w) := by
  unfold failIf Prog.when
  rw [if_neg hc]
  rfl

theorem failIf_does {R : End → World σ → World σ → Prop} [Decidable c]
    {g : Unit → Prog (World σ) β} (hq : ∀ {e w'}, Quiet e w w' → e ≠ .ok → R e w w')
    (hg : ¬c → (g ()).DoesAt R w) : (failIf c e >>= g).DoesAt R w := by
  by_cases hc : c
  · exact doesAt_of_eq (bind_of_stop (failIf_of_pos hc))
      (hq (fail_quiet (α := Unit) e w) End.noConfusion)
  · exact doesAt_bind_of_ok (failIf_of_neg hc) (hg hc)

theorem failIf_bind [Decidable c] {g : Unit → Prog (World σ) β}
    (hg : ¬c → (g ()).DoesAt (Mild C) w) : (failIf c e >>= g).DoesAt (Mild C) w :=
  failIf_does (fun h _ => h.mild) hg

/-! ### Releasing a fid -/

/-- What happens when a fid is destroyed: descriptors are closed, and an attribute that
is pending is stored. -/
def Closes (f : Npfid) (fsuid : UInt32) (v : Event) : Prop :=
  f.aux.backend = some .srv ∧
    ∃ c err, v = .call [f.uid] fsuid c err ∧ (Local c ∨ f.pending = true)

/-- **The release of a fid**, that is the pool with one reference less. -/
structure Released (f : Npfid) (p : ℕ) (e : End) (w w' : World σ) : Prop where
  trace : ∃ l, w'.trace = w.trace ++ l ∧
    ∀ v ∈ l, f.refcount = 1 ∧ Closes f w.wt.k.fsuid v
  wt : w'.wt = w.wt
  rfid : w'.rfid = w.rfid
  conn : e ≠ .crash → w'.conn = { w.conn with pool := w.conn.pool.decref p }
  ne_stop : e ≠ .stop

theorem destroyFid_does (f : Npfid) : (destroyFid H f).Does fun e w w' =>
    (∃ l, w'.trace = w.trace ++ l ∧ ∀ v ∈ l, Closes f w.wt.k.fsuid v) ∧ w'.wt = w.wt ∧
      w'.rfid = w.rfid ∧ w'.conn = w.conn ∧ e ≠ .stop := by
  intro w
  have h0 : ∀ e : End, e ≠ .stop →
      (∃ l, w.trace = w.trace ++ l ∧ ∀ v ∈ l, Closes f w.wt.k.fsuid v) ∧
      w.wt = w.wt ∧ w.rfid = w.rfid ∧ w.conn = w.conn ∧ e ≠ .stop :=
    fun _ he => ⟨⟨[], by simp, by simp⟩, rfl, rfl, rfl, he⟩
  refine doesAt_ite (fun _ => ?_) fun _ => doesAt_ite (fun _ => ?_) fun _ => ?_
  · cases f.aux <;> exact h0 _ (by simp [pure_apply, Prog.crash])
  · cases f.aux <;> exact h0 _ (by simp [pure_apply, Prog.crash])
  · cases hf : f.aux with
    | null => exact h0 _ (by simp [pure_apply])
    | ctl c => exact h0 _ (by simp [Prog.crash])
    | auth d => exact h0 _ (by simp [Prog.crash])
    | srv d =>
      have hd := Op.diodFiddestroy_tame (L := fun c => Local c ∨ f.pending = true) (t := false)
        (m := true) (a := true) (H := H) (fun _ h => .inl h) (o := ⟨{ w.b with log := [] }, d⟩)
        fun h => ⟨rfl, fun _ => .inr (by simpa [Npfid.pending, hf] using h)⟩
      rcases hr : Op.diodFiddestroy H ⟨{ w.b with log := [] }, d⟩ with ⟨r, o⟩
      obtain ⟨l, ho, hm⟩ := (hd.of_eq hr).log
      have ht : ∃ l', w.trace ++ o.log.map (fun l => Event.call [f.uid] w.wt.k.fsuid l.1 l.2) =
          w.trace ++ l' ∧ ∀ v ∈ l', Closes f w.wt.k.fsuid v := by
        refine ⟨_, rfl, fun v hv => ?_⟩
        obtain ⟨⟨c, err⟩, hc, rfl⟩ := List.mem_map.mp hv
        rw [ho, List.nil_append] at hc
        exact ⟨by rw [hf]; rfl, c, err, rfl, hm _ hc⟩
      simp only [DoesAt, runOp, hr]
      cases r <;> exact ⟨ht, rfl, rfl, rfl, by simp⟩

/-- **`np_fid_decref`**, of a fid that is there. -/
theorem npFidDecref_does {w : World σ} {p : ℕ} {f : Npfid} (hf : w.conn.pool.get p = some f) :
    (npFidDecref H p).DoesAt (Released f p) w := by
  have hm : (Prog.modify fun w : World σ => w.setPool (w.conn.pool.decref p)) w =
      (.ok (), w.setPool (w.conn.pool.decref p)) := rfl
  rw [DoesAt, npFidDecref, bind_of_ok (deref_of_get hf), bind_of_ok hm]
  by_cases h1 : f.refcount = 1
  · rw [if_pos h1]
    rcases hd : destroyFid H f (w.setPool (w.conn.pool.decref p)) with ⟨r, w'⟩
    obtain ⟨⟨l, hl, hm⟩, ht, hr, hc, hs⟩ := (destroyFid_does H f _).of_eq hd
    rcases r with _ | _ | _
    · rw [bind_of_ok hd]
      exact ⟨⟨l, hl, fun v hv => ⟨h1, hm v hv⟩⟩, ht, hr, fun _ => hc, fun h => (by cases h)⟩
    · exact absurd rfl hs
    · rw [bind_of_crash hd]
      exact ⟨⟨l, hl, fun v hv => ⟨h1, hm v hv⟩⟩, ht, hr, fun h => absurd rfl h,
        fun h => (by cases h)⟩
  · rw [if_neg h1]
    exact ⟨⟨[], (List.append_nil _).symm, by simp⟩, rfl, rfl, fun _ => rfl,
      fun h => (by cases h)⟩

/-- Whether the fid is destroyed. -/
theorem npFidDecref_ok {b : Bool} {w' : World σ} (hf : w.conn.pool.get p = some f)
    (h : npFidDecref H p w = (.ok b, w')) : b = decide (f.refcount = 1) := by
  obtain ⟨g, w₁, hg, h₁⟩ := bind_eq_ok h
  rw [deref_of_get hf] at hg
  cases hg
  obtain ⟨_, w₂, -, h₂⟩ := bind_eq_ok h₁
  split at h₂
  · rename_i h1
    obtain ⟨_, _, -, h₃⟩ := bind_eq_ok h₂
    cases h₃
    simp [h1]
  · rename_i h1
    cases h₂
    simp [h1]

/-! ### Looking up a second fid -/

theorem npFidFind_of_lookup (h : w.conn.pool.lookup n = some (p, f)) :
    npFidFind n w = (.ok (some p), { w with
      trace := w.trace ++ [.find f], conn := { w.conn with pool := w.conn.pool.incref p } }) := by
  unfold npFidFind
  rw [read_bind, h]
  rfl

theorem npFidFind_of_none (h : w.conn.pool.lookup n = none) : npFidFind n w = (.ok none, w) := by
  unfold npFidFind
  rw [read_bind, h]
  rfl

/-- A reference that is not the last. -/
theorem npFidDecref_shared (hf : w.conn.pool.get p = some f) (h1 : f.refcount ≠ 1) :
    npFidDecref H p w = (.ok false, w.setPool (w.conn.pool.decref p)) := by
  have hm : (Prog.modify fun w : World σ => w.setPool (w.conn.pool.decref p)) w =
      (.ok (), w.setPool (w.conn.pool.decref p)) := rfl
  rw [npFidDecref, bind_of_ok (deref_of_get hf), bind_of_ok hm, if_neg h1]
  rfl

/-- The state in which a fid has been found. -/
def World.found (w : World σ) (q : ℕ) (g : Npfid) : World σ :=
  { w with trace := w.trace ++ [.find g], conn := { w.conn with pool := w.conn.pool.incref q } }

section

variable {q : ℕ} {g : Npfid} {w₂ : World σ}

variable {e : End}

/-- What is done in between does not change the references. -/
theorem Mild.refs_found (hg : w.conn.pool.get q = some g)
    (h : Mild C e (w.found q g) w₂) (he : e ≠ .crash) :
    ∃ g₂, w₂.conn.pool.get q = some g₂ ∧ g₂.refcount = g.refcount + 1 ∧ g₂.refcount ≠ 1 := by
  have hr := h.refs he q
  rw [World.found, FidPool.refs_incref hg, if_pos rfl] at hr
  obtain ⟨g₂, hg₂, hr⟩ := Option.map_eq_some_iff.mp hr
  have := w.conn.pool.pos q g hg
  exact ⟨g₂, hg₂, hr, by omega⟩

/-- Finding a fid and releasing it again, around something mild. -/
theorem Mild.around (hg : w.conn.pool.get q = some g) (hv : C.emits (.find g))
    (h : Mild C e (w.found q g) w₂) : Mild C e w (w₂.setPool (w₂.conn.pool.decref q)) where
  trace := logged_trans ⟨[.find g], rfl, by simpa using hv⟩ h.trace (fun _ h => h) fun _ h => h
  believes := h.believes
  rfid := h.rfid
  sess := h.sess
  next he := (FidPool.next_decref ..).trans (h.next he)
  refs he p := by
    rcases eq_or_ne p q with rfl | hne
    · obtain ⟨g₂, hg₂, hr, h1⟩ := h.refs_found hg he
      simp [World.setPool, FidPool.refs, FidPool.get_decref_self hg₂ h1, hg, hr]
    · have hr := h.refs he p
      rw [World.found, FidPool.refs_incref hg, if_neg hne] at hr
      exact (FidPool.refs_decref_of_ne hne).trans hr
  alike he p f hp hf := by
    rcases eq_or_ne p q with rfl | hne
    · obtain rfl : f = g := Option.some.inj (hf.symm.trans hg)
      obtain ⟨g₂, hg₂, hr, h1⟩ := h.refs_found hg he
      obtain ⟨g₃, hg₃, hl⟩ := h.alike he p _ hp (FidPool.get_incref_self hg)
      obtain rfl : g₃ = g₂ := Option.some.inj (hg₃.symm.trans hg₂)
      exact ⟨_, FidPool.get_decref_self hg₂ h1, hl.recount f.refcount _⟩
    · obtain ⟨f', hf', hl⟩ := h.alike he p f hp ((FidPool.get_incref_of_ne hne).trans hf)
      exact ⟨f', (FidPool.get_decref_of_ne hne).trans hf', hl⟩
  ecode := h.ecode

end

theorem withFound_of_crash {w₂ : World σ} (hl : w.conn.pool.lookup n = some (q, g))
    (hx : x q (w.found q g) = (.crash, w₂)) : withFound H n e x w = (.crash, w₂) := by
  rw [withFound, bind_of_ok (npFidFind_of_lookup hl)]
  exact done_of_crash hx

theorem withFound_of_shared {g₂ : Npfid}
    {v : World σ} {r : Res α} (hl : w.conn.pool.lookup n = some (q, g))
    (hx : x q (w.found q g) = (r, v)) (hr : r.ending ≠ .crash)
    (hg : v.conn.pool.get q = some g₂) (h1 : g₂.refcount ≠ 1) :
    withFound H n e x w = (r, v.setPool (v.conn.pool.decref q)) := by
  rw [withFound, bind_of_ok (npFidFind_of_lookup hl)]
  refine done_of_ok hx hr ?_
  rw [bind_of_ok (npFidDecref_shared H hg h1)]
  rfl

/-- **A second fid** is released as it was found, and this is not its last reference. -/
theorem withFound_mild (hfind : ∀ q g, w.conn.pool.lookup n = some (q, g) → C.emits (.find g))
    (hx : ∀ q g, w.conn.pool.lookup n = some (q, g) → (x q).DoesAt (Mild C) (w.found q g)) :
    (withFound H n e x).DoesAt (Mild C) w := by
  rcases hl : w.conn.pool.lookup n with _ | q
  · rw [DoesAt, withFound, bind_of_ok (npFidFind_of_none hl)]
    exact (fail_quiet (α := α) e w).mild
  · obtain ⟨q, g⟩ := q
    have hg := (FidPool.get_of_lookup hl).1
    rcases hr : x q (w.found q g) with ⟨r, w₂⟩
    have hm := (hx q g hl).of_eq hr
    have hm' := hm.around hg (hfind q g hl)
    by_cases hc : r.ending = .crash
    · obtain rfl := Res.eq_crash hc
      exact doesAt_of_eq (withFound_of_crash H hl hr) (.of_crash hm'.trace hm.believes)
    · obtain ⟨g₂, hg₂, -, h1⟩ := hm.refs_found hg hc
      exact doesAt_of_eq (withFound_of_shared H hl hr hc hg₂ h1) hm'

/-! ### The last step -/

/-- A thread that runs as this user, where ids are switched and it knew who it was. -/
def RunsAs (S : Npsrv) (w : World σ) (u : Option UInt32) (k : UInt32) : Prop :=
  S.setfsid = true → w.wt.Believes → u ≠ some NONUNAME → u = some k

section

variable {L : HostCall → Prop} {m : End → Bool} {a : Bool} {gid : UInt32}
  {ctl : Prog (World σ) α} {op : Prog (Ost σ DiodFid) α}

/-- What an operation of the file server does to its fid. -/
theorem Op.Moves.like {e : End} {d d' : DiodFid} (hd : f.aux = .srv d) (h : Op.Moves (m e) a d d')
    (hm : m e = true → C.moves e) (ha : a = true → C.attr f.rofs) :
    f.Like C.attr (C.moves e) { f with aux := .srv d' } := by
  refine like_srv hd (fun hp => ?_) fun hn => h.1 ?_
  · rcases a with _ | _
    · exact .inl (h.2 rfl hp)
    · exact .inr (ha rfl)
  · rcases hme : m e with _ | _
    · rfl
    · exact absurd (hm hme) hn

/-- An operation of the file server, once the thread has its credentials. -/
theorem srvOp_mild (hf : w.conn.pool.get p = some f)
    (hop : C.emits (.op .srv [f.aux.backend]))
    (hx : op.Does fun e => Op.Tame L (Op.Moves (m e) a) C.clean e)
    (hc : ∀ c err, L c → C.emits (.call [f.uid] w.wt.k.fsuid c err))
    (hm : ∀ e, m e = true → C.moves e) (ha : a = true → C.attr f.rofs) :
    (auxOp srvAux p op).DoesAt (Mild C) w := by
  refine auxOp_mild srvAux hf hop (fun d _ => hx _) hc fun _ e d d' hd hK => ?_
  exact hK.like (srvAux.put_of_get hd) (hm e) ha

/-- **The last step of a handler.** -/
theorem dispatch_mild (hf : w.conn.pool.get p = some f)
    (hctl : f.isTmp = true → ctl.DoesAt (Mild C) w)
    (hop : f.isTmp = false → C.emits (.op .srv [f.aux.backend]))
    (hx : op.Does fun e => Op.Tame L (Op.Moves (m e) a) C.clean e)
    (hc : f.isTmp = false → ∀ k c err, RunsAs S w f.uid k → L c → C.emits (.call [f.uid] k c err))
    (hm : ∀ e, m e = true → C.moves e) (ha : a = true → C.attr f.rofs) :
    (dispatch H S p f gid ctl op).DoesAt (Mild C) w := by
  refine doesAt_ite hctl fun ht => ?_
  rw [Bool.not_eq_true] at ht
  have hs := npSetfsid_does H S f.user gid w
  refine quiet_bind (hs.mono fun _ _ h => h.toQuiet) fun _ w₁ h₁ hq => ?_
  have hs := hs.of_eq h₁
  refine srvOp_mild (hq.conn ▸ hf) (hop ht) hx (fun c err hL => ?_) hm ha
  exact hc ht _ c err (fun h hb hu => hs.runsAs S h hb hu) hL

/-- An operation of the file server on two fids. -/
theorem srvOp2_mild {q : ℕ} {g : Npfid} {x : DiodFid → Prog (Ost σ DiodFid) α}
    (hf : w.conn.pool.get p = some f) (hg : w.conn.pool.get q = some g)
    (hop : C.emits (.op .srv [f.aux.backend, g.aux.backend]))
    (hx : ∀ d, (x d).Does fun e => Op.Tame L (Op.Moves (m e) a) C.clean e)
    (hc : ∀ c err, L c → C.emits (.call [f.uid, g.uid] w.wt.k.fsuid c err))
    (hm : ∀ e, m e = true → C.moves e) (ha : a = true → C.attr f.rofs) :
    (srvOp2 p q x).DoesAt (Mild C) w := by
  refine doesAt_read_bind ?_
  rw [World.aux_of_get hf, World.aux_of_get hg, World.uid_of_get hf, World.uid_of_get hg]
  refine record_bind hop ?_
  rcases hd : srvAux.get g.aux with _ | d
  · exact doesAt_of_eq (bind_of_crash (derefAux_of_none hg hd)) (Mild.refl _ _)
  · refine doesAt_bind_of_ok (derefAux_of_get hg hd) ?_
    refine runAux_mild srvAux hf (fun d' _ => hx d _) hc fun _ e d₁ d₂ hd₁ hK => ?_
    exact hK.like (srvAux.put_of_get hd₁) (hm e) ha

/-- An operation on one of the server's own files. -/
theorem ctlOp_mild {x : Prog (Ost σ CtlFid) α} (hf : w.conn.pool.get p = some f)
    (hop : C.emits (.op .ctl [f.aux.backend]))
    (hx : x.Does fun e => Op.Tame L (Op.Keeps (m e)) C.clean e)
    (hc : ∀ c err, L c → C.emits (.call [f.uid] w.wt.k.fsuid c err))
    (hm : ∀ e, m e = true → C.moves e) : (auxOp ctlAux p x).DoesAt (Mild C) w := by
  refine auxOp_mild ctlAux hf hop (fun d _ => hx _) hc fun _ e d d' hd hK => ?_
  have hd : f.aux = .ctl d := ctlAux.put_of_get hd
  refine like_other (by rw [hd]; rfl) (by simp [ctlAux, Aux.backend]) fun hn => ?_
  have hme : m e = false := by
    rcases hme : m e with _ | _
    · rfl
    · exact absurd (hm e hme) hn
  simp [ctlAux, Aux.place, hd, hK hme]

/-- An operation on the state of an authentication. -/
theorem authOp_mild {x : Prog (Ost σ Da) α} (hf : w.conn.pool.get p = some f)
    (hop : C.emits (.op .auth [f.aux.backend]))
    (hx : x.Does (Op.Tame (fun _ => False) (Op.Free Da) C.clean)) :
    (auxOp authAux p x).DoesAt (Mild C) w := by
  refine auxOp_mild authAux hf hop (fun d _ => hx _) (fun _ _ h => h.elim) fun _ e d d' hd _ => ?_
  have hd : f.aux = .auth d := authAux.put_of_get hd
  exact like_other (by rw [hd]; rfl) (by simp [authAux, Aux.backend]) fun _ => by
    simp [authAux, Aux.place, hd]

end

end Diod
