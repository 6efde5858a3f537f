import Diod.Npfs.Serve

/-!
# What operations keep, requests keep

Some properties of the server are about what hangs on its fids, and about the calls it
makes for them: an attribute that is there when it should be, a path that does not lead
astray. Handlers have nothing to do with that. They only pass fids to operations, so
what every operation keeps is kept by every request, **whatever it is**
(`Diod.served_holds`).

A property consists of a predicate `D` on what hangs on a fid and a predicate `L` on
calls (`Diod.Holds`). What is asked of the operations is put together, by the type of
the request that leads to them, in `Diod.Fcall.Lawful`.
-/

namespace Diod

open Prog

variable {σ F α β : Type} {D : Aux → Prop} {O O' : ℕ → Aux → Prop} {L : HostCall → Prop}

/-! ### Properties of fids and calls -/

/-- **A property of all fids and of all calls so far**, and another one, `O`, that tells
the fids apart. -/
structure Holds (D : Aux → Prop) (L : HostCall → Prop) (O : ℕ → Aux → Prop) (w : World σ) :
    Prop where
  fids : ∀ p f, w.conn.pool.get p = some f → D f.aux
  calls : ∀ us k c err, Event.call us k c err ∈ w.trace → L c
  own : ∀ p f, w.conn.pool.get p = some f → O p f.aux

/-- It is kept. -/
def Kept (D : Aux → Prop) (L : HostCall → Prop) (O : ℕ → Aux → Prop) (_ : End)
    (w w' : World σ) : Prop :=
  Holds D L O w → Holds D L O w'

theorem kept : Effect (Kept (σ := σ) D L O) where
  refl _ _ h := h
  trans h h' hw := h' (h hw)

variable {x : Prog (World σ) α} {I : World σ → Prop} {y : Option α → Prog (World σ) Unit}
  {w : World σ} {f : α → Prog (World σ) β} {P : FidPool} {p q : ℕ} {u : Npfid → Npfid}
  {V : AuxView F}

theorem kept_attempt (hx : x.Does (Kept D L O)) : x.attempt.Does (Kept D L O) :=
  fun w => (hx w).attempt fun _ h => h

/-- What holds after a program holds after what comes behind its label. -/
theorem holds_done (hx : I (x w).2) (hy : ∀ r w, I w → I (y r w).2) : I (x.done y w).2 := by
  rcases h : x w with ⟨r, w₁⟩
  rw [h] at hx
  by_cases hc : r.ending = .crash
  · obtain rfl := Res.eq_crash hc
    rw [done_of_crash h]
    exact hx
  · have hy := hy r.result w₁ hx
    rw [done_apply h hc]
    rcases h' : y r.result w₁ with ⟨r', w₂⟩
    rw [h'] at hy
    cases r' <;> exact hy

/-- What holds after a statement holds after the next, which knows what it returned. -/
theorem holds_bind (hx : I (x w).2) (hf : ∀ a w₁, x w = (.ok a, w₁) → I w₁ → I (f a w₁).2) :
    I ((x >>= f) w).2 := by
  rcases h : x w with ⟨r, w₁⟩
  rw [h] at hx
  rcases r with a | _ | _
  · rw [bind_of_ok h]
    exact hf a w₁ h hx
  · rw [bind_of_stop h]
    exact hx
  · rw [bind_of_crash h]
    exact hx

theorem kept_done (hx : x.Does (Kept D L O)) (hy : ∀ r, (y r).Does (Kept D L O)) :
    (x.done y).Does (Kept D L O) :=
  fun w hw => holds_done (hx w hw) hy

theorem Quiet.kept {e : End} {w' : World σ} (h : Quiet e w w') : Kept D L O e w w' :=
  fun hw => ⟨fun p f hf => hw.fids p f (h.conn ▸ hf),
    fun us k c err hv => hw.calls us k c err (h.trace ▸ hv),
    fun p f hf => hw.own p f (h.conn ▸ hf)⟩

theorem Holds.weaken (h : Holds D L O w) (hO : ∀ p a, O p a → O' p a) : Holds D L O' w :=
  ⟨h.fids, h.calls, fun p f hf => hO p _ (h.own p f hf)⟩

/-- One statement after another, where what tells the fids apart changes with the
second. -/
theorem Holds.bind (hw : Holds D L O w) (hx : x.Does (Kept D L O)) (hO : ∀ p a, O p a → O' p a)
    (hf : ∀ a w₁, x w = (.ok a, w₁) → Holds D L O w₁ → Holds D L O' (f a w₁).2) :
    Holds D L O' ((x >>= f) w).2 := by
  have hx := hx w hw
  refine holds_bind (hx.weaken hO) fun a w₁ h _ => hf a w₁ h ?_
  rwa [h] at hx

/-- The same, where it does not matter any more. -/
theorem Holds.next (hw : Holds D L O w) (hx : x.Does (Kept D L O))
    (hf : ∀ a w₁, x w = (.ok a, w₁) → Holds D L O w₁ → Holds D L ⊤ (f a w₁).2) :
    Holds D L ⊤ ((x >>= f) w).2 :=
  hw.bind hx (fun _ _ _ => trivial) hf

/-- Forget what tells the fids apart. -/
theorem Holds.forget (h : Holds D L O w) : Holds D L ⊤ w :=
  ⟨h.fids, h.calls, fun _ _ _ => trivial⟩

/-- Every fid of a changed pool hangs on to what it, or nothing, hung on to. -/
theorem Holds.setPool (h : Holds D L O w) (hP : ∀ p f, P.get p = some f →
      (∃ g, w.conn.pool.get p = some g ∧ f.aux = g.aux) ∨ D f.aux ∧ O p f.aux) :
    Holds D L O (w.setPool P) where
  fids p f hf := by
    rcases hP p f hf with ⟨g, hg, ha⟩ | ⟨hd, -⟩
    · rw [ha]
      exact h.fids p g hg
    · exact hd
  calls := h.calls
  own p f hf := by
    rcases hP p f hf with ⟨g, hg, ha⟩ | ⟨-, ho⟩
    · rw [ha]
      exact h.own p g hg
    · exact ho

/-- What hangs on every fid is what hung on it. -/
def World.Was (w : World σ) (p : ℕ) (a : Aux) : Prop := w.aux p = a

theorem Holds.was (h : Holds D L ⊤ w) : Holds D L w.Was w :=
  ⟨h.fids, h.calls, fun _ _ hf => World.aux_of_get hf⟩

theorem FidPool.aux_incref {f : Npfid} (h : (P.incref p).get q = some f) :
    ∃ g, P.get q = some g ∧ f.aux = g.aux ∧ f.fid = g.fid := by
  obtain ⟨g, hg, rfl⟩ := Heap.get_of_get_modify h
  exact ⟨g, hg, by split <;> rfl, by split <;> rfl⟩

theorem FidPool.aux_decref {f : Npfid} (h : (P.decref p).get q = some f) :
    ∃ g, P.get q = some g ∧ f.aux = g.aux := by
  unfold decref get at h
  dsimp only at h
  split at h
  · exact ⟨f, (Heap.get_of_get_free h).2, rfl⟩
  · obtain ⟨g, hg, rfl⟩ := Heap.get_of_get_modify h
    exact ⟨g, hg, by split <;> rfl⟩

theorem FidPool.aux_update {f : Npfid} (h : (P.update p u).get q = some f) :
    ∃ g, P.get q = some g ∧ (f.aux = g.aux ∨ q = p ∧ f.aux = (u g).aux) := by
  obtain ⟨g, hg, rfl⟩ := Heap.get_of_get_modify h
  refine ⟨g, hg, ?_⟩
  split
  · exact .inr ⟨‹_›, rfl⟩
  · exact .inl rfl

/-! ### Steps that leave the auxes alone -/

theorem record_kept {v : Event}
    (hv : ∀ us k c err, v ≠ .call us k c err := by rintro _ _ _ _ ⟨⟩) :
    (record v : Prog (World σ) Unit).Does (Kept D L O) := fun _ hw => by
  refine ⟨hw.fids, fun us k c err h => ?_, hw.own⟩
  rcases List.mem_append.mp h with h | h
  · exact hw.calls us k c err h
  · rw [List.mem_singleton] at h
    exact absurd h.symm (hv us k c err)

theorem updateFid_kept (hu : ∀ g, (u g).aux = g.aux) :
    (updateFid p u : Prog (World σ) Unit).Does (Kept D L O) := fun _ hw =>
  hw.setPool fun q f hf => by
    obtain ⟨g, hg, ha | ⟨-, ha⟩⟩ := FidPool.aux_update hf
    · exact .inl ⟨g, hg, ha⟩
    · exact .inl ⟨g, hg, ha.trans (hu g)⟩

/-- Something new hangs on a fid. -/
theorem updateFid_aux_kept {a : Aux} (hd : D a) (ho : O p a) :
    (updateFid p fun g => { g with aux := a } : Prog (World σ) Unit).Does (Kept D L O) :=
  fun _ hw => hw.setPool fun q f hf => by
    obtain ⟨g, hg, ha | ⟨rfl, ha⟩⟩ := FidPool.aux_update hf
    · exact .inl ⟨g, hg, ha⟩
    · rw [ha]
      exact .inr ⟨hd, ho⟩

theorem incref_kept (p : ℕ) :
    (Prog.modify fun w : World σ => w.setPool (w.conn.pool.incref p)).Does (Kept D L O) :=
  fun _ hw => hw.setPool fun _ _ hf => by
    obtain ⟨g, hg, ha, -⟩ := FidPool.aux_incref hf
    exact .inl ⟨g, hg, ha⟩

theorem npFidFind_kept (n : UInt32) : (npFidFind n : Prog (World σ) _).Does (Kept D L O) := by
  refine kept.bind kept.read fun w => ?_
  split
  · exact kept.bind record_kept fun _ =>
      kept.bind (incref_kept _) fun _ => kept.pure _
  · exact kept.pure _

theorem deref_kept (p : ℕ) : (deref p : Prog (World σ) Npfid).Does (Kept D L O) :=
  fun w => (deref_quiet p w).kept

theorem npFidIncref_kept (p : ℕ) : (npFidIncref p : Prog (World σ) Unit).Does (Kept D L O) :=
  kept.bind (deref_kept p) fun _ => incref_kept p

variable (H : Host σ) (S : Npsrv)

theorem npFidCreate_kept (hd : D .null) (ho : ∀ p, O p .null) (n : UInt32) :
    (npFidCreate H S n).Does (Kept D L O) := by
  have hu : (unclunked S n : Prog (World σ) Unit).Does (Kept D L O) := by
    refine kept.bind kept.read fun w => ?_
    split
    · exact kept.pure _
    · refine kept.bind record_kept fun _ =>
        kept.bind (kept.when fun _ => kept.crash) fun _ => does_ite (fun _ => ?_) fun _ w =>
        (fail_quiet EEXIST w).kept
      exact updateFid_kept fun _ => rfl
  refine kept.bind hu fun _ => kept.bind (fun w => (allocOr_quiet H ENOMEM w).kept) fun _ =>
    kept.bind kept.read fun _ => kept.bind (fun w hw => ?_) fun _ => kept.pure _
  refine hw.setPool fun q f hf => ?_
  rcases eq_or_ne q w.conn.pool.next with rfl | hne
  · rw [FidPool.get_create_next] at hf
    cases hf
    exact .inr ⟨hd, ho _⟩
  · rw [FidPool.get_create_of_ne hne] at hf
    exact .inl ⟨f, hf, rfl⟩

theorem npUerror_kept (e : ℕ) : (npUerror e : Prog (World σ) Unit).Does (Kept D L O) :=
  fun _ hw => ⟨hw.fids, hw.calls, hw.own⟩

theorem createOr_kept (hd : D .null) (ho : ∀ p, O p .null) (f : Npfid) (n : UInt32) :
    (createOr H S f n).Does (Kept D L O) := by
  refine kept.bind (kept_attempt (npFidCreate_kept H S hd ho n)) fun r => ?_
  rcases r with _ | p
  · exact kept.bind kept.read fun _ => kept.bind (kept.when fun _ =>
      kept.bind (kept.when fun _ => kept.crash) fun _ => npUerror_kept EIO) fun _ => kept.stop
  · exact kept.pure p

theorem reqPtr_kept : (reqPtr : Prog (World σ) ℕ).Does (Kept D L O) := by
  refine kept.bind kept.read fun w => ?_
  split
  · exact fun w => (fail_quiet EIO w).kept
  · exact kept.pure _

theorem reqFid_kept : (reqFid : Prog (World σ) (ℕ × Npfid)).Does (Kept D L O) :=
  kept.bind reqPtr_kept fun p => kept.bind (deref_kept p) fun _ => kept.pure _

theorem failIf_kept (c : Prop) [Decidable c] (e : ℕ) :
    (failIf c e : Prog (World σ) Unit).Does (Kept D L O) :=
  fun w => (failIf_quiet c e w).kept

theorem allocOr_kept (e : ℕ) : (allocOr H e).Does (Kept D L O) :=
  fun w => (allocOr_quiet H e w).kept

theorem reply_kept (e : ℕ) (a : α) : (allocOr H e >>= fun _ => pure a).Does (Kept D L O) :=
  kept.bind (allocOr_kept H e) fun _ => kept.pure a

theorem npSetfsid_kept (u : Option Npuser) (gid : UInt32) :
    (npSetfsid H S u gid).Does (Kept D L O) :=
  fun w => ((npSetfsid_does H S u gid w).mono fun _ _ h => h.toQuiet).kept

/-! ### Operations -/

/-- **An operation keeps a property** of what hangs on the fid, and of calls. -/
def Op.Guards (D : Aux → Prop) (L : HostCall → Prop) (V : AuxView F) (x : Prog (Ost σ F) α) :
    Prop :=
  ∀ o, o.log = [] → D (V.put o.f) → (∀ c ∈ (x o).2.log, L c.1) ∧ D (V.put (x o).2.f)

/-- The same, for what hangs on one fid. -/
def Op.GuardsAt (D : Aux → Prop) (L : HostCall → Prop) (V : AuxView F) (f : F)
    (x : Prog (Ost σ F) α) : Prop :=
  ∀ o, o.log = [] → o.f = f → D (V.put f) → (∀ c ∈ (x o).2.log, L c.1) ∧ D (V.put (x o).2.f)

theorem Op.Guards.at {x : Prog (Ost σ F) α} (h : Op.Guards D L V x) (f : F) :
    Op.GuardsAt D L V f x :=
  fun o ho hf hd => h o ho (hf ▸ hd)

theorem Op.guards_of_tame {x : Prog (Ost σ F) α} {K : F → F → Prop} {t : Bool}
    (hx : ∀ o, D (V.put o.f) → x.DoesAt (Op.Tame L K t) o)
    (hK : ∀ f f', K f f' → D (V.put f) → D (V.put f')) : Op.Guards D L V x := by
  intro o ho hd
  obtain ⟨l, h, hc⟩ := (hx o hd).log
  rw [h, ho, List.nil_append]
  exact ⟨hc, hK _ _ (hx o hd).fid hd⟩

/-- What an operation returns, where the property held. -/
def Op.Yields (D : Aux → Prop) (x : Prog (Ost σ DiodFid) α) (P : α → Prop) : Prop :=
  ∀ o a o', D (.srv o.f) → x o = (.ok a, o') → P a

/-- The calls of an operation are written down. -/
theorem Holds.runOp (h : Holds D L O w) (us : List (Option UInt32)) {f : F}
    {x : Prog (Ost σ F) α} (hx : ∀ c ∈ (x ⟨{ w.b with log := [] }, f⟩).2.log, L c.1) :
    Holds D L O (runOp us f x w).2.2 where
  fids := h.fids
  calls us' k c err hv := by
    rcases List.mem_append.mp hv with hv | hv
    · exact h.calls us' k c err hv
    · obtain ⟨l, hl, he⟩ := List.mem_map.mp hv
      cases he
      exact hx l hl
  own := h.own

/-- The property of what hangs on a fid, when it is taken to be of a backend. -/
theorem Holds.aux {f : F} (h : Holds D L O w)
    (hf : V.get (w.aux p) = some f) : D (V.put f) ∧ O p (V.put f) := by
  have ha := V.put_of_get hf
  rcases hp : w.conn.pool.get p with _ | g
  · have hn : w.aux p = .null := by rw [World.aux, hp]; rfl
    have hb := V.backend_put f
    rw [← ha, hn] at hb
    cases hb
  · rw [World.aux_of_get hp] at ha
    rw [← ha]
    exact ⟨h.fids p g hp, h.own p g hp⟩

section

variable {p : ℕ} {V : AuxView F} {x : Prog (Ost σ F) α}

variable {w : World σ}

theorem runAux_holds {us : List (Option UInt32)}
    (hx : ∀ f, O p (V.put f) → Op.GuardsAt D L V f x) (hO : ∀ q a, q ≠ p → O q a → O' q a)
    (hp : ∀ a, O' p a) (hw : Holds D L O w) : Holds D L O' (runAux V p us x w).2 := by
  have hO' : ∀ q a, O q a → O' q a := fun q a h => by
    rcases eq_or_ne q p with rfl | hq
    exacts [hp a, hO q a hq h]
  unfold runAux
  split
  · exact hw.weaken hO'
  · rename_i f hf
    obtain ⟨hD, ho⟩ := hw.aux hf
    obtain ⟨hl, hd⟩ := hx f ho ⟨{ w.b with log := [] }, f⟩ rfl rfl hD
    refine ((hw.runOp us hl).weaken hO').setPool fun q g hg => ?_
    obtain ⟨g₀, hg₀, ha | ⟨rfl, ha⟩⟩ := FidPool.aux_update hg
    · exact .inl ⟨g₀, hg₀, ha⟩
    · rw [ha]
      exact .inr ⟨hd, hp _⟩

/-- **An operation of a backend** on a fid, of which something is known. -/
theorem auxOp_holds (hx : ∀ f, O p (V.put f) → Op.GuardsAt D L V f x)
    (hO : ∀ q a, q ≠ p → O q a → O' q a) (hp : ∀ a, O' p a) (hw : Holds D L O w) :
    Holds D L O' (auxOp V p x w).2 :=
  runAux_holds hx hO hp (record_kept (fun _ _ _ _ h => by cases h) w hw)

/-- **An operation of a backend** on a fid. -/
theorem auxOp_kept (hx : Op.Guards D L V x) :
    (auxOp V p x).Does (Kept D L ⊤) :=
  fun _ => auxOp_holds (fun f _ => hx.at f) (fun _ _ _ h => h) fun _ => trivial

/-- **An operation on two fids.** -/
theorem srvOp2_holds {q : ℕ} {x : DiodFid → Prog (Ost σ DiodFid) α}
    (hx : ∀ d e, O p (.srv d) → O q (.srv e) → D (.srv e) → Op.GuardsAt D L srvAux d (x e))
    (hw : Holds D L O w) : Holds D L ⊤ (srvOp2 p q x w).2 := by
  refine hw.next kept.read fun _ w₁ _ hw => hw.next record_kept fun _ w hw => ?_
  intro hw
  rcases hd : srvAux.get (w.aux q) with _ | d
  · have he : derefAux srvAux q w = (.crash, w) := by rw [derefAux, hd]
    rw [bind_of_crash he]
    exact hw.forget
  · have he : derefAux srvAux q w = (.ok d, w) := by rw [derefAux, hd]
    rw [bind_of_ok he]
    obtain ⟨hD, ho⟩ := hw.aux hd
    exact runAux_holds (fun e h => hx e d h ho hD) (fun _ _ _ _ => trivial) (fun _ => trivial) hw

/-- **What hangs on a new fid.** -/
theorem makeAux_kept {f : F} (hl : ∀ o, o.log = [] → o.f = f → ∀ c ∈ (x o).2.log, L c.1)
    (hx : ∀ o a o', o.f = f → x o = (.ok a, o') → D (V.put o'.f)) :
    (makeAux V p f x).Does (Kept D L ⊤) := by
  intro w hw
  have hw₁ : Holds D L ⊤ { w with trace := w.trace ++ [.op V.backend []] } :=
    record_kept (v := .op V.backend []) (fun _ _ _ _ h => by cases h) w hw
  have hw₂ := hw₁.runOp [({ w with trace := w.trace ++ [.op V.backend []] } : World σ).uid p]
    (hl ⟨{ w.b with log := [] }, f⟩ rfl rfl)
  unfold makeAux
  rcases h : x ⟨{ w.b with log := [] }, f⟩ with ⟨r, o⟩
  simp only [Diod.runOp, h] at hw₂ ⊢
  rcases r with a | _ | _
  · refine hw₂.setPool fun q g hg => ?_
    obtain ⟨g₀, hg₀, ha | ⟨-, ha⟩⟩ := FidPool.aux_update hg
    · exact .inl ⟨g₀, hg₀, ha⟩
    · rw [ha]
      exact .inr ⟨hx _ a o rfl h, trivial⟩
  · exact hw₂
  · exact hw₂

end

/-! ### What is asked of the operations -/

section

open Op

variable (D L)

/-- **What is asked whatever the request**: the property allows anything that is not of
the file server, and a fid can be destroyed. -/
structure Laws : Prop where
  null : D .null
  ctl : ∀ c, D (.ctl c)
  auth : ∀ d, D (.auth d)
  call : ∀ c, OwnCall c → L c
  destroy : ∀ o, o.log = [] → D (.srv o.f) → ∀ c ∈ (diodFiddestroy H o).2.log, L c.1

/-- An operation of the file server keeps the property. -/
abbrev Guarded (x : Prog (Ost σ DiodFid) α) : Prop := Guards D L srvAux x

/-- The same, on one fid. -/
abbrev GuardedAt (d : DiodFid) (x : Prog (Ost σ DiodFid) α) : Prop := GuardsAt D L srvAux d x

variable {D L} in
/-- What is so of the fid with this number, when it is one of the file server. -/
def World.Finds (w : World σ) (n : UInt32) (P : DiodFid → Prop) : Prop :=
  ∀ p f d, w.conn.pool.get p = some f → f.fid = n → f.aux = .srv d → P d

variable {D L} in
/-- The request's own fid has this number. -/
def World.Names (w : World σ) (n : UInt32) : Prop :=
  ∀ p f, w.rfid = some p → w.conn.pool.get p = some f → f.fid = n

variable {D L} in
theorem World.Finds.apply {w : World σ} {n : UInt32} {P : DiodFid → Prop} {p : ℕ} {d : DiodFid}
    (h : w.Finds n P) (hn : ∀ f, w.conn.pool.get p = some f → f.fid = n) (ha : w.Was p (.srv d)) :
    P d := by
  rcases hf : w.conn.pool.get p with _ | f
  · rw [World.Was, World.aux, hf] at ha
    cases ha
  · exact h p f d hf (hn f hf) ((World.aux_of_get hf).symm.trans ha)

/-- **What is asked for a request**, of the operations it leads to. Those that take a
name are asked about the fids that the request is for, and so is a walk to a new fid,
which copies the request's own. -/
def Fcall.Lawful (w : World σ) : Msg → Prop
  | .tstatfs _ => Guarded D L (diodStatfs H S.conf)
  | .tlopen _ flags => ∀ uid, Guarded D L (diodLopen H uid flags)
  | .tlcreate fid name flags mode _ => w.Finds fid fun d => ∀ uid,
      GuardedAt D L d (diodLcreate H uid name flags mode)
  | .tsymlink fid name symtgt _ => w.Finds fid fun d => GuardedAt D L d (diodSymlink H name symtgt)
  | .tmknod fid name mode major minor _ => w.Finds fid fun d =>
      GuardedAt D L d (diodMknod H name mode major minor)
  | .trename fid dfid name => w.Finds fid fun d => w.Finds dfid fun e =>
      D (.srv e) → GuardedAt D L d (diodRename H e name)
  | .treadlink _ => Guarded D L (diodReadlink H)
  | .tgetattr _ requestMask => Guarded D L (diodGetattr H requestMask)
  | .tsetattr a => Guarded D L (diodSetattr H a)
  | .txattrwalk _ _ name => Guarded D L (diodXattrwalk H name) ∧
      Yields D (diodXattrwalk H name) fun r => D (.srv r.2)
  | .txattrcreate _ name size flag => Guarded D L (diodXattrcreate H name size flag)
  | .treaddir _ offset count => Guarded D L (diodReaddir H offset count)
  | .tfsync _ datasync => Guarded D L (diodFsync H datasync)
  | .tlock _ type flags _ _ _ _ => Guarded D L (diodLock H type flags)
  | .tgetlock _ type start length procId clientId =>
      Guarded D L (diodGetlock H type start length procId clientId)
  | .tlink dfid fid name => w.Finds fid fun d => w.Finds dfid fun e =>
      D (.srv e) → GuardedAt D L d (diodLink H e name)
  | .tmkdir fid name mode _ => w.Finds fid fun d => GuardedAt D L d (diodMkdir H name mode)
  | .trenameat olddirfid oldname newdirfid newname => w.Finds olddirfid fun d =>
      w.Finds newdirfid fun e => D (.srv e) → GuardedAt D L d (diodRenameat H oldname e newname)
  | .tunlinkat fid name flags => w.Finds fid fun d => GuardedAt D L d (diodUnlinkat H name flags)
  | .tattach _ _ _ aname _ => ∀ uid,
      (∀ o, o.log = [] → ∀ c ∈ (diodAttach H S.conf uid aname o).2.log, L c.1) ∧
      ∀ o m o', diodAttach H S.conf uid aname o = (.ok m, o') → D (.srv o'.f)
  | .twalk fid newfid wnames => (∀ wname ∈ wnames, Guarded D L (diodWalk H wname)) ∧
      (fid ≠ newfid → w.Finds fid fun d => D (.srv { d with ioctx := none, xattr := none }))
  | .tread _ offset count => Guarded D L (diodRead H offset count)
  | .twrite _ offset _ data => Guarded D L (diodWrite H offset data)
  | .tclunk fid => w.Finds fid fun d => GuardedAt D L d (diodClunk H)
  | .tremove _ => Guarded D L (diodRemove H)
  | _ => True

end

section

variable {H S} (hl : Laws D L H)

include hl

variable {t : Bool} {p e : ℕ} {f : Npfid} {w w' : World σ} {n gid count fid newfid flags : UInt32}
  {x : ℕ → Prog (World σ) α} {ctl : ℕ → Prog (World σ) Msg} {op : Prog (Ost σ DiodFid) Msg}
  {offset : UInt64} {name aname : Bytes} {wnames : List Bytes} {tc : Msg} {rc : Option Msg}

/-- The calls of an operation of the server's own. -/
theorem Laws.own_calls {x : Prog (Ost σ F) α} {K : F → F → Prop} {o : Ost σ F}
    (hx : x.DoesAt (Op.Tame Op.OwnCall K t) o) (ho : o.log = []) : ∀ c ∈ (x o).2.log, L c.1 := by
  obtain ⟨l, h, hc⟩ := hx.log
  rw [h, ho, List.nil_append]
  exact fun c h => hl.call _ (hc c h)

theorem Laws.ctl_kept {x : Prog (Ost σ CtlFid) α} {K : CtlFid → CtlFid → Prop}
    (hx : x.Does fun e => Op.Tame Op.OwnCall K t e) :
    (auxOp ctlAux p x).Does (Kept D L ⊤) :=
  auxOp_kept fun o ho _ => ⟨hl.own_calls (hx o) ho, hl.ctl _⟩

theorem Laws.auth_kept {x : Prog (Ost σ Da) α} (hx : x.Does (Op.Tame Op.OwnCall (Op.Free Da) t)) :
    (auxOp authAux p x).Does (Kept D L ⊤) :=
  auxOp_kept fun o ho _ => ⟨hl.own_calls (hx o) ho, hl.auth _⟩

/-- A fid is destroyed. -/
theorem Laws.destroyFid_kept (hf : D f.aux) : (destroyFid H f).Does (Kept D L O) := by
  refine does_ite (fun _ => ?_) fun _ => does_ite (fun _ => ?_) fun _ => ?_
  · cases f.aux <;> first | exact kept.pure _ | exact kept.crash
  · cases f.aux <;> first | exact kept.pure _ | exact kept.crash
  · cases hd : f.aux with
    | null => exact kept.pure _
    | ctl => exact kept.crash
    | auth => exact kept.crash
    | srv d =>
      intro w hw
      have hw' := hw.runOp [f.uid] (hl.destroy ⟨{ w.b with log := [] }, d⟩ rfl (hd ▸ hf))
      rcases h : runOp [f.uid] d (Op.diodFiddestroy H) w with ⟨r, d', w'⟩
      rw [h] at hw'
      simp only [h]
      cases r <;> exact hw'

theorem Laws.npFidDecref_kept (p : ℕ) : (npFidDecref H p).Does (Kept D L O) := by
  intro w hw
  rcases hf : w.conn.pool.get p with _ | f
  · rw [npFidDecref, bind_of_crash (deref_of_none hf)]
    exact hw
  · have hm : (Prog.modify fun w : World σ => w.setPool (w.conn.pool.decref p)) w =
        (.ok (), w.setPool (w.conn.pool.decref p)) := rfl
    have hw' : Holds D L O (w.setPool (w.conn.pool.decref p)) :=
      hw.setPool fun _ _ h => .inl (FidPool.aux_decref h)
    rw [npFidDecref, bind_of_ok (deref_of_get hf), bind_of_ok hm]
    split
    · exact kept.bind (hl.destroyFid_kept (hw.fids p f hf)) (fun _ => kept.pure true) _ hw'
    · exact hw'

theorem Laws.npFidDecrefReq_kept : (npFidDecrefReq H).Does (Kept D L O) := by
  refine kept.bind kept.read fun w => ?_
  split
  · exact kept.pure _
  · exact kept.bind (hl.npFidDecref_kept _) fun _ => kept.when fun _ w hw =>
      ⟨hw.fids, hw.calls, hw.own⟩

omit hl in
theorem reqPtr_eq_ok (h : reqPtr w = (.ok p, w')) : w' = w ∧ w.rfid = some p := by
  rcases hr : w.rfid with _ | q
  · rw [reqPtr_of_none hr] at h
    cases h
  · rw [reqPtr_of_rfid hr] at h
    cases h
    exact ⟨rfl, rfl⟩

/-- A second fid, of which something is known. -/
theorem Laws.withFound_holds (hw : Holds D L O w)
    (hx : ∀ q f w₁, w.conn.pool.get q = some f → f.fid = n → Holds D L O w₁ →
      Holds D L ⊤ (x q w₁).2) :
    Holds D L ⊤ (withFound H n e x w).2 := by
  refine hw.next (npFidFind_kept n) fun r w₁ h hw₁ => ?_
  rcases hl' : w.conn.pool.lookup n with _ | q
  · rw [npFidFind_of_none hl'] at h
    cases h
    exact ((fail_quiet e w).kept hw₁).forget
  · rw [npFidFind_of_lookup hl'] at h
    cases h
    obtain ⟨hg, hn, -⟩ := FidPool.get_of_lookup hl'
    exact holds_done (hx q.1 q.2 _ hg hn hw₁) fun _ =>
      kept.bind (hl.npFidDecref_kept q.1) fun _ => kept.pure _

theorem Laws.withFound_kept
    (hx : ∀ p, (x p).Does (Kept D L ⊤)) : (withFound H n e x).Does (Kept D L ⊤) :=
  fun _ hw => hl.withFound_holds hw fun q _ w _ _ => hx q w

omit hl in
theorem dispatch_holds {ctl : Prog (World σ) α}
    {op : Prog (Ost σ DiodFid) α} (hc : ctl.Does (Kept D L ⊤))
    (hop : ∀ d, O p (.srv d) → GuardedAt D L d op) (hw : Holds D L O w) :
    Holds D L ⊤ (dispatch H S p f gid ctl op w).2 := by
  unfold dispatch
  split
  · exact hc w hw.forget
  · exact hw.next (npSetfsid_kept H S f.user gid) fun _ _ _ hw =>
      auxOp_holds hop (fun _ _ _ _ => trivial) (fun _ => trivial) hw

omit hl in
theorem dispatch_kept {ctl : Prog (World σ) α}
    {op : Prog (Ost σ DiodFid) α} (hc : ctl.Does (Kept D L ⊤))
    (hop : Guarded D L op) : (dispatch H S p f gid ctl op).Does (Kept D L ⊤) :=
  fun _ => dispatch_holds hc fun d _ => hop.at d

omit hl in
theorem fail_kept (e : ℕ) : (fail e : Prog (World σ) α).Does (Kept D L O) :=
  fun w => (fail_quiet e w).kept

/-! ### Handlers -/

omit hl in
/-- A handler, for an operation that is only asked about the request's own fid. -/
theorem npFidOp_holds
    {op : Npfid → Prog (Ost σ DiodFid) Msg} (hc : ∀ p, (ctl p).Does (Kept D L ⊤))
    (hop : w.Finds n fun d => ∀ f, GuardedAt D L d (op f)) (hn : w.Names n)
    (hw : Holds D L ⊤ w) :
    Holds D L ⊤ (npFidOp H S gid ctl op w).2 := by
  refine hw.was.next reqFid_kept fun r w₁ h hw₁ => ?_
  obtain ⟨rfl, hr, -⟩ := reqFid_eq_ok h
  exact hw₁.next (failIf_kept _ _) fun _ _ _ hw₂ =>
    dispatch_holds (hc r.1) (fun d hd => hop.apply (fun f => hn r.1 f hr) hd r.2) hw₂

omit hl in
theorem npFidOp_kept
    {op : Npfid → Prog (Ost σ DiodFid) Msg} (hc : ∀ p, (ctl p).Does (Kept D L ⊤))
    (hop : ∀ f, Guarded D L (op f)) : (npFidOp H S gid ctl op).Does (Kept D L ⊤) :=
  kept.bind reqFid_kept fun r => kept.bind (failIf_kept _ _) fun _ =>
    dispatch_kept (hc r.1) (hop r.2)

omit hl in
theorem retype_kept (rc : Msg) : (retype rc : Prog (World σ) Unit).Does (Kept D L O) := by
  unfold retype
  split
  · exact kept.bind reqPtr_kept fun _ => updateFid_kept fun _ => rfl
  · exact kept.pure _

theorem Laws.npRead_kept (hop : Guarded D L (Op.diodRead H offset count)) :
    (npRead H S offset count).Does (Kept D L ⊤) := by
  refine kept.bind reqFid_kept fun r => kept.bind kept.read fun _ =>
    kept.bind (failIf_kept _ _) fun _ => does_ite (fun _ => ?_) fun _ =>
    dispatch_kept (hl.ctl_kept (Op.npCtlRead_tame (m := false) (t := false) H _ _ _)) hop
  refine kept.bind (fun w => (malloc_quiet H w).kept) fun m =>
    kept.bind (kept.when fun _ => kept.stop) fun _ =>
    kept.bind record_kept fun _ => fail_kept _

theorem Laws.npWrite_kept {data : Bytes} (hop : Guarded D L (Op.diodWrite H offset data)) :
    (npWrite H S offset count data).Does (Kept D L ⊤) := by
  refine kept.bind reqFid_kept fun r => does_ite (fun _ => ?_) fun _ => ?_
  · exact kept.bind (failIf_kept _ _) fun _ =>
      kept.bind (hl.auth_kept (Op.writeafid_tame (t := false) H _ _)) fun _ =>
      reply_kept H _ _
  · exact kept.bind (failIf_kept _ _) fun _ => kept.bind kept.read fun _ =>
      kept.bind (failIf_kept _ _) fun _ =>
      dispatch_kept (hl.ctl_kept (Op.npCtlWrite_tame (m := false) (t := false) H _)) hop

theorem Laws.npClunk_holds
    (hop : w.Finds n fun d => GuardedAt D L d (Op.diodClunk H)) (hn : w.Names n)
    (hw : Holds D L ⊤ w) : Holds D L ⊤ (npClunk H w).2 := by
  refine holds_done ?_ fun _ => hl.npFidDecrefReq_kept
  refine hw.was.next reqFid_kept fun r w₁ h hw₁ => ?_
  obtain ⟨rfl, hr, -⟩ := reqFid_eq_ok h
  dsimp only
  split
  · exact reply_kept H _ _ w₁ hw₁.forget
  · split
    · exact hl.ctl_kept (Op.npCtlClunk_tame (m := false) (t := false) H) w₁ hw₁.forget
    · exact auxOp_holds (fun d hd => hop.apply (fun f => hn r.1 f hr) hd) (fun _ _ _ _ => trivial)
        (fun _ => trivial) hw₁

theorem Laws.npRemove_kept (hop : Guarded D L (Op.diodRemove H)) :
    (npRemove H S).Does (Kept D L ⊤) :=
  kept_done (kept.bind reqFid_kept fun _ => kept.bind (failIf_kept _ _) fun _ =>
    dispatch_kept (fail_kept _) hop) fun _ => hl.npFidDecrefReq_kept

theorem Laws.npRename_holds {dfid : UInt32} (hop : w.Finds n fun d => w.Finds dfid fun e =>
      D (.srv e) → GuardedAt D L d (Op.diodRename H e name)) (hn : w.Names n)
    (hw : Holds D L ⊤ w) :
    Holds D L ⊤ (npRename H S dfid name w).2 := by
  refine hw.was.next reqFid_kept fun r w₁ h hw₁ => ?_
  obtain ⟨rfl, hr, -⟩ := reqFid_eq_ok h
  refine hl.withFound_holds hw₁ fun q g w₂ hq hg hw₂ => ?_
  refine hw₂.next (failIf_kept _ _) fun _ _ _ hw₃ =>
    hw₃.next (failIf_kept _ _) fun _ _ _ hw₄ =>
    hw₄.next (npSetfsid_kept H S _ _) fun _ _ _ hw₅ =>
    srvOp2_holds (fun d e hd he => ?_) hw₅
  exact (hop.apply (fun f => hn r.1 f hr) hd).apply
    (fun f hf => by rw [← hg, Option.some.inj (hf.symm.trans hq)]) he

theorem Laws.npLink_holds (hop : w.Finds fid fun d => w.Finds n fun e =>
      D (.srv e) → GuardedAt D L d (Op.diodLink H e name)) (hn : w.Names n)
    (hw : Holds D L ⊤ w) :
    Holds D L ⊤ (npLink H S fid name w).2 := by
  refine hw.was.next reqPtr_kept fun p w₁ h hw₁ => ?_
  obtain ⟨rfl, hr⟩ := reqPtr_eq_ok h
  refine hl.withFound_holds hw₁ fun q g w₂ hq hg hw₂ => ?_
  refine hw₂.next (deref_kept q) fun _ _ _ hw₃ =>
    hw₃.next (failIf_kept _ _) fun _ _ _ hw₄ =>
    hw₄.next (failIf_kept _ _) fun _ _ _ hw₅ =>
    hw₅.next (npSetfsid_kept H S _ _) fun _ _ _ hw₆ =>
    srvOp2_holds (fun d e hd he => ?_) hw₆
  exact (hop.apply (fun f hf => by rw [← hg, Option.some.inj (hf.symm.trans hq)]) hd).apply
    (fun f => hn p f hr) he

theorem Laws.npRenameat_holds {newdirfid : UInt32} {oldname newname : Bytes}
    (hop : w.Finds n fun d => w.Finds newdirfid fun e =>
      D (.srv e) → GuardedAt D L d (Op.diodRenameat H oldname e newname)) (hn : w.Names n)
    (hw : Holds D L ⊤ w) :
    Holds D L ⊤ (npRenameat H S oldname newdirfid newname w).2 := by
  refine hw.was.next reqFid_kept fun r w₁ h hw₁ => ?_
  obtain ⟨rfl, hr, -⟩ := reqFid_eq_ok h
  refine hw₁.next (failIf_kept _ _) fun _ w₂ h₂ hw₂ =>
    hw₂.next (failIf_kept _ _) fun _ w₃ h₃ hw₃ =>
    hl.withFound_holds hw₃ fun q g w₄ hq hg hw₄ => ?_
  refine hw₄.next (deref_kept q) fun _ _ _ hw₅ =>
    hw₅.next (npSetfsid_kept H S _ _) fun _ _ _ hw₆ =>
    srvOp2_holds (fun d e hd he => ?_) hw₆
  have hc : w₃.conn = w₁.conn :=
    ((failIf_quiet _ _ w₂).of_eq h₃).conn.trans ((failIf_quiet _ _ w₁).of_eq h₂).conn
  rw [hc] at hq
  exact (hop.apply (fun f => hn r.1 f hr) hd).apply
    (fun f hf => by rw [← hg, Option.some.inj (hf.symm.trans hq)]) he

omit hl in
theorem npVersion_kept (msize : UInt32) (version : Bytes) :
    (npVersion H S msize version).Does (Kept D L O) :=
  kept.bind (failIf_kept _ _) fun _ => kept.bind kept.read fun _ =>
    kept.bind (kept.when fun _ _ hw => ⟨hw.fids, hw.calls, hw.own⟩) fun _ => does_ite
    (fun _ => reply_kept H _ _) fun _ => fail_kept _

omit hl in
theorem npAttach2user_kept (ans : Ans) (uname : Bytes) (nUname : UInt32) :
    (npAttach2user ans uname nUname : Prog (World σ) Npuser).Does (Kept D L O) := by
  refine kept.bind (failIf_kept _ _) fun _ => ?_
  split
  · exact kept.pure _
  · exact fail_kept _

theorem Laws.npAuth_kept (ans : Ans) (uname aname : Bytes) (nUname : UInt32) :
    (npAuth H S ans uname aname nUname).Does (Kept D L ⊤) := by
  exact does_ite (fun _ => reply_kept H _ _) fun _ =>
    kept.bind reqPtr_kept fun p => kept.bind (npFidIncref_kept p) fun _ =>
    kept.bind (npAttach2user_kept ans uname nUname) fun u =>
    kept.bind (updateFid_kept fun _ => rfl) fun _ =>
    kept.bind (updateFid_kept fun _ => rfl) fun _ =>
    kept.bind (deref_kept p) fun f =>
    kept.bind (failIf_kept _ _) fun _ => kept.bind (makeAux_kept
    (fun o ho _ => hl.own_calls (Op.startauth_tame (t := false) H o) ho) fun _ _ _ _ _ => hl.auth _)
    fun _ => reply_kept H _ _

omit hl in
theorem npConnSetAuthuser_kept (uid : UInt32) :
    (npConnSetAuthuser uid : Prog (World σ) Unit).Does (Kept D L O) :=
  fun _ hw => ⟨hw.fids, hw.calls, hw.own⟩

omit hl in
theorem npAfid2user_kept (f : Npfid) (uname : Bytes) (nUname : UInt32) :
    (npAfid2user S f uname nUname : Prog (World σ) Npuser).Does (Kept D L O) := by
  unfold npAfid2user
  split
  · exact kept.crash
  · exact kept.bind (failIf_kept _ _) fun _ => kept.pure _

theorem Laws.attachUser_kept (ans : Ans) (required : Bool) (p : ℕ) (uname : Bytes)
    (nUname : UInt32) (q : Option ℕ) :
    (attachUser S ans required p uname nUname q : Prog (World σ) Unit).Does
      (Kept D L ⊤) := by
  refine does_ite (fun _ => ?_) fun _ => ?_
  · rcases q with _ | q
    · exact kept.bind (npAttach2user_kept ans uname nUname) fun _ =>
        kept.bind (updateFid_kept fun _ => rfl) fun _ => kept.bind (failIf_kept _ _) fun _ =>
        kept.bind kept.read fun _ => kept.bind (failIf_kept _ _) fun _ => failIf_kept _ _
    · refine kept.bind (deref_kept q) fun a =>
        kept.bind (npAfid2user_kept a uname nUname) fun u =>
        kept.bind (updateFid_kept fun _ => rfl) fun _ => kept.bind ?_ fun _ =>
        npConnSetAuthuser_kept _
      exact kept.bind (deref_kept q) fun _ =>
        kept.bind (failIf_kept _ _) fun _ =>
        kept.bind (hl.auth_kept (Op.checkauth_tame (t := false) _ _)) fun _ =>
        record_kept
  · exact kept.bind (npAttach2user_kept ans uname nUname) fun _ =>
      kept.bind (updateFid_kept fun _ => rfl) fun _ => kept.when fun _ =>
      kept.bind record_kept fun _ => npConnSetAuthuser_kept _

theorem Laws.attachAux_kept (p : ℕ) (hop : ∀ uid,
      (∀ o, o.log = [] → ∀ c ∈ (Op.diodAttach H S.conf uid aname o).2.log, L c.1) ∧
      ∀ o m o', Op.diodAttach H S.conf uid aname o = (.ok m, o') → D (.srv o'.f)) :
    (attachAux H S p aname).Does (Kept D L ⊤) := by
  refine kept.bind (deref_kept p) fun f => does_ite (fun _ => ?_) fun _ => ?_
  · exact kept.bind (makeAux_kept (fun o ho _ => hl.own_calls (Op.npCtlAttach_tame (t := false) H o)
      ho) fun _ _ _ _ _ => hl.ctl _) fun rc =>
      kept.bind (updateFid_kept fun _ => rfl) fun _ => kept.pure rc
  · split
    · exact kept.crash
    · exact makeAux_kept (fun o ho _ => (hop _).1 o ho) fun o a o' _ h => (hop _).2 o a o' h

theorem Laws.npAttach_kept (ans : Ans) (afid : UInt32) {uname : Bytes} {nUname : UInt32}
    (hop : ∀ uid, (∀ o, o.log = [] → ∀ c ∈ (Op.diodAttach H S.conf uid aname o).2.log, L c.1) ∧
      ∀ o m o', Op.diodAttach H S.conf uid aname o = (.ok m, o') → D (.srv o'.f)) :
    (npAttach H S ans afid uname aname nUname).Does (Kept D L ⊤) := by
  have hr : ∀ p, (diodRemapuser S ans p : Prog (World σ) Unit).Does (Kept D L ⊤) := by
    refine fun p => kept.when fun _ => ?_
    split
    · exact updateFid_kept fun _ => rfl
    · exact fail_kept _
  have hx : ∀ p, (diodExportok S ans p : Prog (World σ) Unit).Does (Kept D L ⊤) := by
    refine fun p => kept.bind (deref_kept p) fun f =>
      kept.bind kept.read fun w => ?_
    split
    · exact fail_kept _
    · refine kept.bind (failIf_kept _ _) fun _ => ?_
      split
      · exact fail_kept _
      · exact kept.when fun _ => updateFid_kept fun _ => rfl
  have hw : ∀ p q, (npAttachWith H S ans p q uname aname nUname).Does
      (Kept D L ⊤) := fun p q =>
    kept.bind (hl.attachUser_kept ans _ p uname nUname q) fun _ =>
    kept.bind (hr p) fun _ => kept.bind (hx p) fun _ =>
    kept.bind (hl.attachAux_kept p hop) fun _ =>
    kept.bind (npFidIncref_kept p) fun _ => kept.pure _
  exact kept.bind reqPtr_kept fun p => does_ite (fun _ => hw p none) fun _ =>
    hl.withFound_kept fun q => kept.bind (deref_kept q) fun _ =>
    kept.bind (failIf_kept _ _) fun _ => hw p (some q)

/-! ### Walks -/

theorem Laws.walkLoop_kept (p : ℕ) : ∀ (wnames : List Bytes) (wqids : List Npqid),
    (∀ wname ∈ wnames, Guarded D L (Op.diodWalk H wname)) →
    (walkLoop H S p wnames wqids).Does (Kept D L ⊤)
  | [], wqids, _ => kept.pure wqids
  | wname :: wnames, wqids, hop => by
    have hs : (walkStep H S p wname).Does (Kept D L ⊤) :=
      kept.bind (deref_kept p) fun _ => does_ite
        (fun _ => hl.ctl_kept (K := fun _ _ => True) fun o => by
          have h := Op.npCtlWalk_tame (L := Op.OwnCall) (t := false) (σ := σ) S.ctlroot wname o
          exact ⟨h.log, trivial, h.ecode⟩)
        fun _ => auxOp_kept (hop wname List.mem_cons_self)
    refine kept.bind (kept_attempt hs) fun r => ?_
    rcases r with _ | q
    · exact kept.pure wqids
    · refine kept.bind (updateFid_kept fun _ => rfl) fun _ => does_ite (fun _ => kept.pure _)
        fun _ => Laws.walkLoop_kept p wnames _ fun n hn => hop n (List.mem_cons_of_mem _ hn)

theorem Laws.walkNames_kept (p : ℕ) (hop : ∀ wname ∈ wnames, Guarded D L (Op.diodWalk H wname)) :
    (walkNames H S p wnames).Does (Kept D L ⊤) :=
  kept.bind (deref_kept p) fun _ =>
    kept.bind (kept.when fun _ => npSetfsid_kept H S _ _) fun _ =>
    kept.bind (hl.walkLoop_kept p wnames [] hop) fun _ =>
    kept.bind (kept.when fun _ => kept.stop) fun _ =>
    kept.bind (npUerror_kept 0) fun _ => kept.bind (fun w => (malloc_quiet H w).kept) fun _ =>
    kept.bind (kept.when fun _ => kept.stop) fun _ => kept.pure _

omit hl in
theorem copyFid_kept (p : ℕ) (f : Npfid) : (copyFid H p f).Does (Kept D L O) := by
  refine kept.bind (updateFid_kept fun _ => rfl) fun _ => ?_
  split
  · exact kept.crash
  · exact kept.bind (allocOr_kept H _) fun _ => updateFid_kept fun _ => rfl

/-- What hangs on a clone of a fid. -/
def Cloned (D : Aux → Prop) (a : Aux) : Prop :=
  ∀ d, a = .srv d → D (.srv { d with ioctx := none, xattr := none })

omit hl in
/-- A fid is not changed by being cloned. -/
theorem guarded_diodClone : Guarded D L (Op.diodClone H) := by
  have hx : (Op.diodClone H).Does (Op.Tame L Eq false) := Op.alone.diodFidclone H
  exact Op.guards_of_tame (fun o _ => hx o) fun _ _ h => h ▸ id

/-- What hangs on the new fid of a walk. -/
theorem Laws.walkClone_holds {p' : ℕ}
    (hw : Holds D L (fun q => if q = p then Cloned D else fun _ => True) w) :
    Holds D L ⊤ (walkClone H p p' f w).2 := by
  unfold walkClone
  split
  · exact kept.bind (hl.ctl_kept (Op.npCtlClone_tame (m := false) (t := false) H)) (fun c =>
      updateFid_aux_kept (hl.ctl c) trivial) w hw.forget
  · refine holds_bind (auxOp_kept guarded_diodClone w hw.forget) fun d w₁ h hw₁ => ?_
    obtain ⟨d₀, o, o', hd, hx, -, -, -, rfl⟩ := auxOp_eq_ok h
    have ha := srvAux.put_of_get hd
    rcases hg : w.conn.pool.get p with _ | g
    · rw [World.aux, hg] at ha
      cases ha
    · rw [World.aux_of_get hg] at ha
      have hc := hw.own p g hg
      rw [if_pos rfl] at hc
      have hD := hc o.f ha
      rw [← Op.diodFidclone_eq_ok H hx] at hD
      exact updateFid_aux_kept hD trivial w₁ hw₁

omit hl in
/-- A walk to a new fid is for the same fid as before when it has made it. -/
theorem npWalkBegin_rfid
    (h : npWalkBegin H S fid newfid wnames w = (.ok (some p), w')) : w'.rfid = w.rfid := by
  obtain ⟨⟨_, f⟩, w₁, hr, h₁⟩ := bind_eq_ok h
  obtain ⟨rfl, -, -⟩ := reqFid_eq_ok hr
  obtain ⟨_, w₂, hi, h₂⟩ := bind_eq_ok h₁
  obtain ⟨-, rfl⟩ := failIf_eq_ok hi
  split at h₂
  · cases h₂
  · rename_i hne
    obtain ⟨q, w₃, hc, h₃⟩ := bind_eq_ok h₂
    cases h₃
    have hn : newfid ∈ Fcall.makes (.twalk fid newfid wnames) := by simp [Fcall.makes, hne]
    rcases createOr_cases H S (w := w₂) f hn with ⟨w₄, hm, hc'⟩ | ⟨r', w₄, hc', hne', -⟩
    · rw [hc'] at hc
      cases hc
      exact hm.rfid (by simp)
    · rw [hc'] at hc
      cases hc
      exact absurd rfl hne'

theorem Laws.npWalk_holds (hop : ∀ wname ∈ wnames, Guarded D L (Op.diodWalk H wname))
    (hc : fid ≠ newfid → w.Finds fid fun d => D (.srv { d with ioctx := none, xattr := none }))
    (hn : w.Names fid) (hw : Holds D L ⊤ w) :
    Holds D L ⊤ (npWalk H S fid newfid wnames w).2 := by
  -- what a clone of the request's own fid would be
  have hw₀ : Holds D L (fun q a => fid ≠ newfid → w.rfid = some q → Cloned D a) w :=
    ⟨hw.fids, hw.calls, fun p f hf hne hp d hd => hc hne p f d hf (hn p f hp hf) hd⟩
  have hb : (npWalkBegin H S fid newfid wnames).Does
      (Kept D L fun q a => fid ≠ newfid → w.rfid = some q → Cloned D a) :=
    kept.bind reqFid_kept fun _ => kept.bind (failIf_kept _ _) fun _ => does_ite
      (fun _ => kept.pure _) fun _ =>
      kept.bind (createOr_kept H S hl.null (fun _ _ _ _ h => by cases h) _ _) fun _ => kept.pure _
  unfold npWalk
  refine hw₀.next hb fun new w₁ h hw₁ => ?_
  refine holds_bind (reqFid_kept w₁ hw₁.forget) fun r w₂ hr hw₂ => ?_
  obtain ⟨rfl, hrf', hf⟩ := reqFid_eq_ok hr
  rcases new with _ | p'
  · exact hl.walkNames_kept _ hop _ hw₂
  · have hne : fid ≠ newfid := by
      rintro rfl
      obtain ⟨_, _, -, h⟩ := bind_eq_ok h
      obtain ⟨_, _, -, h⟩ := bind_eq_ok h
      rw [if_pos rfl] at h
      cases h
    refine holds_done ?_ fun r w hw => kept.when (fun _ => kept.bind (hl.npFidDecref_kept p')
      fun _ => kept.pure _) w hw
    have hw₃ : Holds D L (fun q => if q = r.1 then Cloned D else fun _ => True) w₂ :=
      hw₁.weaken fun q a hq => by
        split
        · rename_i hqr
          exact hq hne (by rw [hqr, ← hrf', npWalkBegin_rfid h])
        · trivial
    refine holds_bind (hl.walkClone_holds hw₃) fun _ w₃ _ hw₃ => ?_
    exact kept.bind (copyFid_kept p' _) (fun _ => hl.walkNames_kept p' hop) w₃ hw₃

theorem Laws.npXattrwalk_kept {attrfid : UInt32} (hop : Guarded D L (Op.diodXattrwalk H name))
    (hy : Op.Yields D (Op.diodXattrwalk H name) fun r => D (.srv r.2)) :
    (npXattrwalk H S attrfid name).Does (Kept D L ⊤) := by
  refine kept.bind (kept.bind reqFid_kept fun _ => createOr_kept H S hl.null (fun _ => trivial) _ _)
    fun p' => kept.bind reqFid_kept fun r => kept_done ?_ fun _ => kept.when fun _ =>
    kept.bind (hl.npFidDecref_kept p') fun _ => kept.pure _
  refine kept.bind (copyFid_kept p' _) fun _ w hw => ?_
  refine holds_bind (dispatch_kept (fail_kept EPERM) hop w hw) fun a w₁ h hw₁ => ?_
  -- the fid that the operation made is not one that was there
  have hd : D (.srv a.2) := by
    unfold dispatch at h
    split at h
    · cases h
    · obtain ⟨_, w₂, hs, h₁⟩ := bind_eq_ok h
      have hw₂ : Holds D L ⊤ w₂ := by
        have := npSetfsid_kept (D := D) (L := L) (O := ⊤) H S r.2.user noGid w hw
        rwa [hs] at this
      obtain ⟨d, o, o', hd, hx, -, -, -, rfl⟩ := auxOp_eq_ok h₁
      exact hy o a o' (hw₂.aux hd).1 hx
  exact kept.bind (updateFid_aux_kept hd trivial) (fun _ => kept.pure _) w₁ hw₁

/-! ### Requests -/

omit hl in
/-- The handlers that only leave it to the operation. -/
theorem plain_kept (hop : Guarded D L op) :
    (reqFid >>= fun r => dispatch H S r.1 r.2 gid (fail e) op).Does (Kept D L ⊤) :=
  kept.bind reqFid_kept fun _ => dispatch_kept (fail_kept _) hop

omit hl in
theorem plainFidOp_holds (hop : w.Finds n fun d => GuardedAt D L d op) (hn : w.Names n)
    (hw : Holds D L ⊤ w) :
    Holds D L ⊤ (npFidOp H S gid (fun _ => fail EPERM) (fun _ => op) w).2 :=
  npFidOp_holds (fun _ => fail_kept EPERM) (fun p f d hp hf hd _ => hop p f d hp hf hd) hn hw

omit hl in
theorem plainFidOp_kept (hop : Guarded D L op) :
    (npFidOp H S gid (fun _ => fail EPERM) fun _ => op).Does (Kept D L ⊤) :=
  npFidOp_kept (fun _ => fail_kept EPERM) fun _ => hop

theorem Laws.npLopen_kept (hop : ∀ uid, Guarded D L (Op.diodLopen H uid flags)) :
    (npLopen H S flags).Does (Kept D L ⊤) :=
  kept.bind reqFid_kept fun _ => kept.bind (failIf_kept _ _) fun _ =>
    dispatch_kept (hl.ctl_kept (Op.npCtlLopen_tame (m := false) (t := false) H _)) (hop _)

omit hl in
theorem npLcreate_holds {mode : UInt32}
    (hop : w.Finds n fun d => ∀ uid, GuardedAt D L d (Op.diodLcreate H uid name flags mode))
    (hn : w.Names n) (hw : Holds D L ⊤ w) :
    Holds D L ⊤ (npLcreate H S name flags mode gid w).2 :=
  holds_bind (npFidOp_holds (fun _ => fail_kept EPERM)
    (fun p f d hp hf hd _ => hop p f d hp hf hd _) hn hw) fun rc w₁ _ hw₁ =>
    kept.bind (retype_kept rc) (fun _ => kept.pure rc) w₁ hw₁

theorem Laws.npGetattr_kept {requestMask : UInt64}
    (hop : Guarded D L (Op.diodGetattr H requestMask)) :
    (npGetattr H S requestMask).Does (Kept D L ⊤) :=
  kept.bind reqFid_kept fun _ => dispatch_kept
    (hl.ctl_kept (Op.npCtlGetattr_tame (m := false) (t := false) H _ _)) hop

theorem Laws.npSetattr_kept {a : Nptsetattr} (hop : Guarded D L (Op.diodSetattr H a)) :
    (npSetattr H S a).Does (Kept D L ⊤) :=
  npFidOp_kept (fun _ => hl.ctl_kept (Op.npCtlSetattr_tame (m := false) (t := false) H))
    fun _ => hop

theorem Laws.npReaddir_kept (hop : Guarded D L (Op.diodReaddir H offset count)) :
    (npReaddir H S offset count).Does (Kept D L ⊤) :=
  kept.bind reqFid_kept fun _ => kept.bind kept.read fun _ => kept.bind (failIf_kept _ _) fun _ =>
    dispatch_kept (hl.ctl_kept (Op.npCtlReaddir_tame (m := false) (t := false) H _ _ _)) hop

/-- **What operations keep, handlers keep.** -/
theorem Laws.handler_holds (ans : Ans) (hop : Fcall.Lawful D L H S w tc)
    (hn : ∀ n, tc.reqFid = some n → w.Names n) (hw : Holds D L ⊤ w) :
    Holds D L ⊤ (handler H S ans tc w).2 := by
  cases tc with
  | tstatfs => exact plain_kept hop w hw
  | tlopen => exact hl.npLopen_kept hop w hw
  | tlcreate => exact npLcreate_holds hop (hn _ rfl) hw
  | tsymlink => exact plainFidOp_holds hop (hn _ rfl) hw
  | tmknod => exact plainFidOp_holds hop (hn _ rfl) hw
  | trename => exact hl.npRename_holds hop (hn _ rfl) hw
  | treadlink => exact plain_kept hop w hw
  | tgetattr => exact hl.npGetattr_kept hop w hw
  | tsetattr => exact hl.npSetattr_kept hop w hw
  | txattrwalk => exact hl.npXattrwalk_kept hop.1 hop.2 w hw
  | txattrcreate => exact plain_kept hop w hw
  | treaddir => exact hl.npReaddir_kept hop w hw
  | tfsync => exact plainFidOp_kept hop w hw
  | tlock => exact plainFidOp_kept hop w hw
  | tgetlock => exact plainFidOp_kept hop w hw
  | tlink => exact hl.npLink_holds hop (hn _ rfl) hw
  | tmkdir => exact plainFidOp_holds hop (hn _ rfl) hw
  | trenameat => exact hl.npRenameat_holds hop (hn _ rfl) hw
  | tunlinkat => exact plainFidOp_holds hop (hn _ rfl) hw
  | tversion => exact npVersion_kept _ _ w hw
  | tauth => exact hl.npAuth_kept ans _ _ _ w hw
  | tattach => exact hl.npAttach_kept ans _ hop w hw
  | twalk => exact hl.npWalk_holds hop.1 hop.2 (hn _ rfl) hw
  | tread => exact hl.npRead_kept hop w hw
  | twrite => exact hl.npWrite_kept hop w hw
  | tclunk => exact hl.npClunk_holds hop (hn _ rfl) hw
  | tremove => exact hl.npRemove_kept hop w hw
  | _ => exact hw

omit hl in
theorem setReqFid_kept (r : Option ℕ) :
    (setReqFid r : Prog (World σ) Unit).Does (Kept D L O) :=
  fun _ hw => ⟨hw.fids, hw.calls, hw.own⟩

theorem Laws.npPreprocessRequest_kept (ho : ∀ p, O p .null) (tc : Msg) :
    (npPreprocessRequest H S tc).Does (Kept D L O) := by
  have hnew : ∀ n aname, (newReqFid H S n aname).Does (Kept D L O) := by
    refine fun n aname => kept.bind (kept_attempt (npFidCreate_kept H S hl.null ho n)) fun r => ?_
    rcases r with _ | p
    · exact kept.pure _
    · refine kept.bind (fun w => (malloc_quiet H w).kept) fun m => ?_
      rcases m with _ | _
      · exact kept.bind (hl.npFidDecref_kept p) fun _ => kept.pure _
      · exact kept.bind (updateFid_kept fun _ => rfl) fun _ => setReqFid_kept _
  have hfind : ∀ r, (findReqFid r : Prog (World σ) Unit).Does (Kept D L O) := by
    intro r
    rcases r with _ | n
    · exact kept.pure _
    · exact kept.bind (npFidFind_kept n) fun _ => setReqFid_kept _
  cases tc with
  | tauth => exact hnew _ _
  | tattach => exact hnew _ _
  | _ => exact hfind _

theorem Laws.npPostprocessRequest_kept (tc : Msg) (ecode : ℕ) (rc : Option Msg) :
    (npPostprocessRequest H tc ecode rc).Does (Kept D L O) := by
  have hi : (interrupted H tc).Does (Kept D L O) := by
    unfold interrupted
    split
    · exact setReqFid_kept _
    · exact setReqFid_kept _
    · refine kept.when fun _ => kept.bind kept.read fun w => ?_
      split
      · exact kept.bind (hl.npFidDecref_kept _) fun _ => kept.pure _
      · exact kept.pure _
    · exact kept.pure _
  have hu : (npReqUnref H).Does (Kept D L O) := by
    refine kept.bind kept.read fun w => ?_
    split
    · exact kept.pure _
    · exact kept.bind (hl.npFidDecref_kept _) fun _ => setReqFid_kept _
  have ha : (answer ecode rc : Prog (World σ) _).Does (Kept D L O) := by
    unfold answer
    split
    · exact kept.pure _
    · split
      · exact kept.pure _
      · split
        · exact kept.pure _
        · exact kept.crash
  exact kept.bind (kept.when fun _ => hi) fun _ => kept.bind hu fun _ => ha

omit hl in
/-- The fids that there are when a request gets to its handler are the ones that there
were, and the fid of the request is one of them. -/
theorem Received.finds {w₁ : World σ} (h : Received tc w w₁) (hn : tc.reqFid = some n) :
    w₁.Names n ∧ ∀ m P, w.Finds m P → w₁.Finds m P := by
  cases h with
  | found hn' hl hw =>
    subst hw
    obtain ⟨hg, hm, -⟩ := FidPool.get_of_lookup hl
    obtain rfl := Option.some.inj (hn.symm.trans hn')
    refine ⟨fun p f hp hf => ?_, fun m P hP p f d hf hfid hd => ?_⟩
    · obtain ⟨g, hg', -, hfid⟩ := FidPool.aux_incref hf
      obtain rfl := Option.some.inj hp
      rw [hfid, ← hm, Option.some.inj (hg'.symm.trans hg)]
    · obtain ⟨g, hg', ha, hfid'⟩ := FidPool.aux_incref hf
      exact hP p g d hg' (hfid'.symm.trans hfid) (ha.symm.trans hd)
  | missing ho hr' hw hl =>
    refine ⟨fun p f hp => (by rw [hr'] at hp; cases hp), fun m P hP p f d hf => ?_⟩
    rw [hw] at hf
    exact hP p f d hf
  | opened ho => exact absurd (Fcall.opens_of_reqFid hn) (by rw [ho]; simp)
  | failed ho => exact absurd (Fcall.opens_of_reqFid hn) (by rw [ho]; simp)

omit hl in
theorem Received.lawful {w₁ : World σ} (h : Received tc w w₁)
    (hop : Fcall.Lawful D L H S w tc) : Fcall.Lawful D L H S w₁ tc := by
  have hf : ∀ n, tc.reqFid = some n → ∀ m P, w.Finds m P → w₁.Finds m P :=
    fun n hn => (h.finds hn).2
  have hf₂ : ∀ n, tc.reqFid = some n → ∀ m k (P : DiodFid → DiodFid → Prop),
      (w.Finds m fun d => w.Finds k (P d)) → w₁.Finds m fun d => w₁.Finds k (P d) :=
    fun n hn m k P hP => hf n hn m _ fun p f d hp hn' hd => hf n hn k _ (hP p f d hp hn' hd)
  cases tc with
  | tlcreate => exact hf _ rfl _ _ hop
  | tsymlink => exact hf _ rfl _ _ hop
  | tmknod => exact hf _ rfl _ _ hop
  | tmkdir => exact hf _ rfl _ _ hop
  | tunlinkat => exact hf _ rfl _ _ hop
  | tclunk => exact hf _ rfl _ _ hop
  | trename => exact hf₂ _ rfl _ _ _ hop
  | tlink => exact hf₂ _ rfl _ _ _ hop
  | trenameat => exact hf₂ _ rfl _ _ _ hop
  | twalk => exact ⟨hop.1, fun hne => hf _ rfl _ _ (hop.2 hne)⟩
  | _ => exact hop

omit hl in
/-- Where a handler ends. -/
theorem npProcessRequest_snd {ans : Ans} (h : npProcessRequest H S ans tc w = (.ok rc, w')) :
    w' = (handler H S ans tc { w with b := { w.b with ecode := 0 } }).2 := by
  have h : (handler H S ans tc).attempt { w with b := { w.b with ecode := 0 } } = (.ok rc, w') := h
  unfold attempt at h
  rcases hx : handler H S ans tc { w with b := { w.b with ecode := 0 } } with ⟨r, w₁⟩
  rw [hx] at h
  cases r <;> cases h <;> rfl

/-- **What operations keep, requests keep.** -/
theorem Laws.served_holds (ans : Ans) {reply : Option Msg}
    {ecode : ℕ} (hs : Served H S ans tc w rc ecode reply w') (hr : w.rfid = none)
    (hop : Fcall.Lawful D L H S w tc) (hw : Holds D L ⊤ w) :
    Holds D L ⊤ w' := by
  obtain ⟨-, -, -, rfl⟩ | ⟨-, w₁, w₂, h₁, h₂, -, h₄⟩ := hs.cases
  · exact hw
  have hw₁ := hl.npPreprocessRequest_kept (S := S) (fun _ => trivial) tc w hw
  rw [h₁] at hw₁
  have hrec := npPreprocessRequest_received H S h₁ hr
  have hw₂ : Holds D L ⊤ w₂ := by
    have hh := hl.handler_holds ans (w := { w₁ with b := { w₁.b with ecode := 0 } })
      (hrec.lawful hop) (fun n hn => (hrec.finds hn).1) (npUerror_kept 0 w₁ hw₁)
    rwa [← npProcessRequest_snd h₂] at hh
  have hw' := hl.npPostprocessRequest_kept tc ecode rc w₂ hw₂
  rwa [h₄] at hw'

end

end Diod
