import Diod.Npfs.Parts

/-!
# What the handlers do

Every handler, summed up: which events it may cause (`Diod.Emit`), and that it does
nothing beyond the scope of its request (`Diod.scope`). Most handlers keep the
references as they are. The others – those that make a fid, or give up the request's –
come last.
-/

namespace Diod

open Prog

variable {σ α : Type}

/-! ### Kinds of requests -/

namespace Fcall

/-- The requests that are told apart for a fid to authenticate with. -/
def authAware : Msg → Bool
  | .tread .. | .twrite .. | .tclunk _ => true
  | _ => false

/-- A file is truncated when it is opened. -/
def truncates : Msg → Bool
  | .tlopen _ flags => Op.remapOflags flags &&& O_TRUNC != 0
  | _ => false

/-- The request that hangs an attribute on a fid without a look at `FID_FLAGS_ROFS`. -/
def hangs : Msg → Bool
  | .txattrcreate .. => true
  | _ => false

/-- The requests that may change the session. -/
def changesSess : Msg → Bool
  | .tversion .. | .tattach .. => true
  | _ => false

end Fcall

variable {P : Prop} {C : Scope} {m : End → Bool} {gid : UInt32}
  {op : Npfid → Prog (Ost σ DiodFid) Msg} {F : Type} {q : Npqid} {g : Npfid} {x : Bool → Prop}
  {w₁ : World σ} {e : ℕ} {a : α}

theorem Look.elim {c : HostCall} (h : Look c) : c.modifies = true → P :=
  fun h' => by rw [show c.modifies = false from h] at h'; cases h'

theorem unaware {tc : Msg} (h : tc.authAware = false) : tc.authAware = true → P :=
  fun h' => by rw [h] at h'; cases h'

/-! ### Events and scopes -/

/-- **The events of a handler**, by the request and the state in which it is run. -/
inductive Emit (S : Npsrv) (tc : Msg) (w : World σ) : Event → Prop
  /-- A second fid is looked up. -/
  | find {n : UInt32} {q : ℕ} {g : Npfid} (hn : n ∈ tc.finds)
      (hl : w.conn.pool.lookup n = some (q, g)) : Emit S tc w (.find g)
  /-- The path of a fid whose number is to be used is printed. -/
  | inUse {n : UInt32} {q : ℕ} {g : Npfid} (hn : n ∈ tc.makes)
      (hl : w.conn.pool.lookup n = some (q, g)) : Emit S tc w (.op .srv [g.aux.backend])
  | srv {p : ℕ} {f : Npfid} (hr : w.rfid = some p) (hf : w.conn.pool.get p = some f)
      (ht : f.isTmp = false) (ha : tc.authAware = true → f.isAuth = false) :
      Emit S tc w (.op .srv [f.aux.backend])
  | ctl {p : ℕ} {f : Npfid} (hr : w.rfid = some p) (hf : w.conn.pool.get p = some f)
      (ht : f.isTmp = true) (ha : tc.authAware = true → f.isAuth = false) :
      Emit S tc w (.op .ctl [f.aux.backend])
  | auth {p : ℕ} {f : Npfid} (hr : w.rfid = some p) (hf : w.conn.pool.get p = some f)
      (ha : f.isAuth = true) : Emit S tc w (.op .auth [f.aux.backend])
  /-- The credential of an attach is looked at. -/
  | afid {n : UInt32} {q : ℕ} {g : Npfid} (hn : n ∈ tc.finds)
      (hl : w.conn.pool.lookup n = some (q, g)) (ha : g.isAuth = true) :
      Emit S tc w (.op .auth [g.aux.backend])
  /-- An operation on two fids, the first of which has been checked. -/
  | two {p : ℕ} {f : Npfid} {n : UInt32} {q : ℕ} {g : Npfid} {c o : Npfid}
      (hr : w.rfid = some p) (hf : w.conn.pool.get p = some f) (hn : n ∈ tc.finds)
      (hl : w.conn.pool.lookup n = some (q, g)) (hco : c = f ∧ o = g ∨ c = g ∧ o = f)
      (ht : c.isTmp = false) : Emit S tc w (.op .srv [c.aux.backend, o.aux.backend])
  /-- An operation on the request's fid, which is gone, as the second one. -/
  | dangling {p : ℕ} {c : Option Backend} (hr : w.rfid = some p) (hf : w.conn.pool.get p = none) :
      Emit S tc w (.op .srv [c, none])
  | make (k : Backend) (ho : tc.opens ≠ []) : Emit S tc w (.op k [])
  /-- A call for the request's fid, by a thread with the credentials of its user. -/
  | call {p : ℕ} {f : Npfid} {k : UInt32} {c : HostCall} {err : ℕ} (hr : w.rfid = some p)
      (hf : w.conn.pool.get p = some f) (ht : f.isTmp = false) (hk : RunsAs S w f.uid k)
      (hc : c.modifies = true → f.rofs = false ∨ tc.truncates = true) :
      Emit S tc w (.call [f.uid] k c err)
  /-- One of the server's own files is read. -/
  | look {p : ℕ} {f : Npfid} {k : UInt32} {c : HostCall} {err : ℕ} (hr : w.rfid = some p)
      (hf : w.conn.pool.get p = some f) (ht : f.isTmp = true) (hc : Look c) :
      Emit S tc w (.call [f.uid] k c err)
  /-- A fid is closed. -/
  | close {p : ℕ} {f : Npfid} {k : UInt32} {c : HostCall} {err : ℕ} (hr : w.rfid = some p)
      (hf : w.conn.pool.get p = some f) (hc : Local c ∨ f.pending = true) :
      Emit S tc w (.call [f.uid] k c err)
  /-- A call for two fids, by a thread with the credentials of one of them. -/
  | pair {p : ℕ} {f : Npfid} {n : UInt32} {q : ℕ} {g : Npfid} {a o : Npfid} {k : UInt32}
      {c : HostCall} {err : ℕ} (hr : w.rfid = some p) (hf : w.conn.pool.get p = some f)
      (hn : n ∈ tc.finds) (hl : w.conn.pool.lookup n = some (q, g))
      (hao : a = f ∧ o = g ∨ a = g ∧ o = f) (hk : RunsAs S w a.uid k ∨ RunsAs S w o.uid k)
      (hc : a.rofs = false) : Emit S tc w (.call [a.uid, o.uid] k c err)
  /-- A file is looked at to attach to it. -/
  | attach {u : Option UInt32} {k : UInt32} {c : HostCall} {err : ℕ} (ho : tc.opens ≠ [])
      (hc : Look c) : Emit S tc w (.call [u] k c err)
  | checkauth (u : UInt32) (ho : tc.opens ≠ []) : Emit S tc w (.checkauth u)
  | rootAttach (ho : tc.opens ≠ []) : Emit S tc w .rootAttach

/-- **The scope of a request.** A fid is moved only by a request that does not fail. -/
def scope (S : Npsrv) (tc : Msg) (w : World σ) : Scope where
  emits := Emit S tc w
  attr r := r = false ∨ tc.hangs = true
  moves e := e ≠ .stop
  keeps q := tc.opens = [] ∨ w.rfid ≠ some q
  sess := tc.changesSess = true

/-- What moves no fid, before something else in the same scope. -/
theorem still_bind {β : Type} {x : Prog (World σ) α} {g : α → Prog (World σ) β}
    {w : World σ} (hx : x.DoesAt (Mild { C with moves := fun _ => False }) w)
    (hg : ∀ a w₁, x w = (.ok a, w₁) → (g a).DoesAt (Mild C) w₁) :
    (x >>= g).DoesAt (Mild C) w := by
  refine hx.bind hg (fun e _ _ h => h.mono ?_) fun e _ _ h (h' : Mild C _ _ _) => h.trans h' ?_ ?_
  · exact { Scope.Le.refl C e with moves := False.elim }
  · exact { Scope.Le.refl C e with moves := False.elim }
  · exact .refl C e

variable (H : Host σ) (S : Npsrv) {tc : Msg} {w : World σ} {p : ℕ} {f : Npfid}

/-! ### The request's fid -/

section

variable (hr : w.rfid = some p) (hf : w.conn.pool.get p = some f)

include hr hf

/-- An operation on one of the server's own files. -/
theorem ctl_scope {x : Prog (Ost σ CtlFid) α}
    (hx : x.Does (Op.Tame Look (Op.Keeps false) true)) (ht : f.isTmp = true)
    (ha : tc.authAware = true → f.isAuth = false) :
    (auxOp ctlAux p x).DoesAt (Mild (scope S tc w)) w :=
  ctlOp_mild (m := fun _ => false) hf (.ctl hr hf ht ha) hx
    (fun _ _ hc => .look hr hf ht hc) fun _ h => by cases h

omit hr hf in
theorem fail_scope (e : ℕ) : (fail e : Prog (World σ) α).DoesAt (Mild (scope S tc w)) w :=
  (fail_quiet e w).mild

variable {gid : UInt32} {ctl : Prog (World σ) α} {op : Prog (Ost σ DiodFid) α}

/-- **The last step of a handler**, in the scope of a request. -/
theorem dispatch_scope {L : HostCall → Prop} {m : End → Bool} {a : Bool}
    (hctl : f.isTmp = true → ctl.DoesAt (Mild (scope S tc w)) w)
    (hx : op.Does fun e => Op.Tame L (Op.Moves (m e) a) true e)
    (hL : ∀ c, L c → c.modifies = true → f.rofs = false ∨ tc.truncates = true)
    (hm : ∀ e, m e = true → e ≠ .stop) (ha : a = true → f.rofs = false ∨ tc.hangs = true)
    (hauth : tc.authAware = true → f.isAuth = false) :
    (dispatch H S p f gid ctl op).DoesAt (Mild (scope S tc w)) w :=
  dispatch_mild H S hf hctl (fun ht => .srv hr hf ht hauth) hx
    (fun ht _ c _ hk hc => .call hr hf ht hk (hL c hc)) hm ha

/-- The same, where the fid stays where it is and nothing is modified. -/
theorem dispatch_look (hctl : f.isTmp = true → ctl.DoesAt (Mild (scope S tc w)) w)
    (hx : op.Does (Op.Tame Look (Op.Moves false false) true))
    (hauth : tc.authAware = true → f.isAuth = false) :
    (dispatch H S p f gid ctl op).DoesAt (Mild (scope S tc w)) w :=
  dispatch_scope H S hr hf (m := fun _ => false) (a := false) hctl hx
    (fun _ hc => hc.elim) (fun _ h => by cases h) (fun h => by cases h) hauth

end

/-- **A handler that needs a writable file.** -/
theorem npFidOp_scope {a : Bool} {ctl : ℕ → Prog (World σ) Msg}
    (hctl : ∀ p f, w.rfid = some p → w.conn.pool.get p = some f → f.isTmp = true →
      (ctl p).DoesAt (Mild (scope S tc w)) w)
    (hx : ∀ f, (op f).Does fun e => Op.Tame Any (Op.Moves (m e) a) true e)
    (hm : ∀ e, m e = true → e ≠ .stop) (hauth : tc.authAware = false) :
    (npFidOp H S gid ctl op).DoesAt (Mild (scope S tc w)) w := by
  refine reqFid_bind fun p f hr hf => failIf_bind fun hro => ?_
  rw [Bool.not_eq_true] at hro
  exact dispatch_scope H S hr hf (hctl p f hr hf) (hx f) (fun _ _ _ => .inl hro) hm
    (fun _ => .inl hro) (unaware hauth)

/-! ### Handlers that look -/

section

variable (hauth : tc.authAware = false)

include hauth

/-- The handlers that only leave it to the operation. -/
theorem plain_scope {op : Prog (Ost σ DiodFid) Msg}
    (hx : op.Does (Op.Tame Look (Op.Moves false false) true)) :
    (reqFid >>= fun r => dispatch H S r.1 r.2 gid (fail e) op).DoesAt (Mild (scope S tc w)) w :=
  reqFid_bind fun _ _ hr hf => dispatch_look H S hr hf (fun _ => fail_scope S _) hx (unaware hauth)

theorem npGetattr_scope (requestMask : UInt64) :
    (npGetattr H S requestMask).DoesAt (Mild (scope S tc w)) w :=
  reqFid_bind fun _ _ hr hf => dispatch_look H S hr hf
    (fun ht => ctl_scope S hr hf (Op.npCtlGetattr_tame H S.ctlroot _) ht
      (unaware hauth))
    (Op.moves.tame fun f => (Op.sight f).getattr _ fun _ _ _ => Op.peeks_look _) (unaware hauth)

theorem npReaddir_scope (offset : UInt64) (count : UInt32) :
    (npReaddir H S offset count).DoesAt (Mild (scope S tc w)) w :=
  reqFid_bind fun _ _ hr hf => doesAt_read_bind <| failIf_bind fun _ => dispatch_look H S hr hf
    (fun ht => ctl_scope S hr hf (Op.npCtlReaddir_tame H S.ctlroot _ _) ht
      (unaware hauth))
    (Op.moves.tame fun f => (Op.sight f).readdir _ _ fun _ _ _ _ _ _ _ _ _ => rfl) (unaware hauth)

/-- Opening with flags that truncate is not looked at. -/
theorem npLopen_scope (flags : UInt32)
    (hopen : Op.remapOflags flags &&& O_TRUNC ≠ 0 → tc.truncates = true) :
    (npLopen H S flags).DoesAt (Mild (scope S tc w)) w := by
  refine reqFid_bind fun p f hr hf => failIf_bind fun _ => ?_
  refine dispatch_scope H S hr hf (L := fun c => c.modifies = true → tc.truncates = true)
    (m := fun _ => false) (a := false)
    (fun ht => ctl_scope S hr hf (Op.npCtlLopen_tame H _) ht (unaware hauth))
    (Op.diodLopen_tame (fun c hc h => ?_) fun q h => hopen ?_) (fun c hc h => .inr (hc h))
    (fun _ h => by cases h) (fun h => by cases h) (unaware hauth)
  · rw [hc.2] at h
    cases h
  · have ht : ~~~O_CREAT &&& (O_CREAT ||| O_TRUNC) = O_TRUNC := by decide
    simpa [HostCall.modifies, UInt32.and_assoc, ht] using h

theorem npXattrcreate_scope (name : Bytes) (size : UInt64) (flag : UInt32)
    (hh : tc.hangs = true) :
    (npXattrcreate H S name size flag).DoesAt (Mild (scope S tc w)) w :=
  reqFid_bind fun _ _ hr hf => dispatch_scope H S hr hf (m := fun _ => false) (a := true)
    (fun _ => fail_scope S _) (Op.moves.tame fun _ =>
      Op.diodXattrcreate_leaves name size flag fun _ _ h => ⟨h.1, fun h => by cases h⟩)
    (fun _ (hc : Look _) => hc.elim) (fun _ h => by cases h) (fun _ => .inr hh) (unaware hauth)

/-! ### Handlers that modify -/

/-- The handlers that only need a writable file, and leave the rest to the operation. -/
theorem plainFidOp_scope {op : Prog (Ost σ DiodFid) Msg}
    (hx : op.Does (Op.Tame Any (Op.Moves false false) true)) :
    (npFidOp H S gid (fun _ => fail EPERM) fun _ => op).DoesAt (Mild (scope S tc w)) w :=
  npFidOp_scope H S (m := fun _ => false) (fun _ _ _ _ _ => fail_scope S _) (fun _ => hx)
    (fun _ h => by cases h) hauth

theorem npSetattr_scope (a : Nptsetattr) :
    (npSetattr H S a).DoesAt (Mild (scope S tc w)) w :=
  npFidOp_scope H S (m := fun _ => false) (a := false)
    (fun _ _ hr hf ht => ctl_scope S hr hf (Op.npCtlSetattr_tame H) ht (unaware hauth))
    (fun _ => Op.moves.tame fun f => (Op.anywhere f).setattr a) (fun _ h => by cases h) hauth

end

/-! ### Handlers of two fids -/

theorem derefAux_of_null (V : AuxView F) (hV : V.get .null = none)
    (hp : w.aux p = .null) : derefAux V p w = (.crash, w) := by
  rw [derefAux, hp, hV]

/-- A fid in the state in which another, or itself, has been found. -/
theorem World.get_found {q : ℕ} (hg : w.conn.pool.get q = some g)
    (hf : w.conn.pool.get p = some f) :
    ∃ n, (w.found q g).conn.pool.get p = some { f with refcount := n } := by
  rcases eq_or_ne p q with rfl | hne
  · obtain rfl : f = g := Option.some.inj (hf.symm.trans hg)
    exact ⟨_, FidPool.get_incref_self hf⟩
  · exact ⟨f.refcount, (FidPool.get_incref_of_ne hne).trans hf⟩

/-- The last step of a handler of two fids: the thread takes on the credentials of one of
them, and the operation is called on `a`, which has been checked, and `b`. -/
theorem two_scope {n : UInt32} {q : ℕ} {a b : Npfid} {pa pb : ℕ} {u : Option Npuser}
    {x : DiodFid → Prog (Ost σ DiodFid) α} (hr : w.rfid = some p)
    (hf : w.conn.pool.get p = some f) (hn : n ∈ tc.finds) (hl : w.conn.pool.lookup n = some (q, g))
    (hab : (a = f ∧ pa = p ∧ b = g ∧ pb = q) ∨ a = g ∧ pa = q ∧ b = f ∧ pb = p)
    (hu : u = a.user ∨ u = b.user) (hro : a.rofs = false) (ht : a.isTmp = false)
    (hx : ∀ d, (x d).Does fun e => Op.Tame Any (Op.Moves (m e) false) true e)
    (hm : ∀ e, m e = true → e ≠ .stop) :
    (npSetfsid H S u noGid >>= fun _ => srvOp2 pa pb x).DoesAt (Mild (scope S tc w))
      (w.found q g) := by
  have hg := (FidPool.get_of_lookup hl).1
  obtain ⟨⟨na, ha⟩, nb, hb⟩ :
      (∃ n, (w.found q g).conn.pool.get pa = some { a with refcount := n }) ∧
      ∃ n, (w.found q g).conn.pool.get pb = some { b with refcount := n } := by
    rcases hab with ⟨rfl, rfl, rfl, rfl⟩ | ⟨rfl, rfl, rfl, rfl⟩
    · exact ⟨World.get_found hg hf, World.get_found hg hg⟩
    · exact ⟨World.get_found hg hg, World.get_found hg hf⟩
  have hab' : a = f ∧ b = g ∨ a = g ∧ b = f :=
    hab.imp (fun h => ⟨h.1, h.2.2.1⟩) fun h => ⟨h.1, h.2.2.1⟩
  have hs := npSetfsid_does H S u noGid (w.found q g)
  refine quiet_bind (hs.mono fun _ _ h => h.toQuiet) fun _ w₁ h₁ hq => ?_
  have hs := hs.of_eq h₁
  have hk : RunsAs S w (u.map (·.uid)) w₁.wt.k.fsuid := fun h hb hu => hs.runsAs S h hb hu
  rw [← hq.conn] at ha hb
  refine srvOp2_mild ha hb (Emit.two (c := a) (o := b) hr hf hn hl hab' ht) hx
    (fun c err _ => Emit.pair (a := a) (o := b) hr hf hn hl hab' ?_ hro) hm fun h => by cases h
  rcases hu with rfl | rfl
  · exact .inl hk
  · exact .inr hk

theorem npRename_scope (dfid : UInt32) (name : Bytes) (hn : dfid ∈ tc.finds) :
    (npRename H S dfid name).DoesAt (Mild (scope S tc w)) w := by
  refine reqFid_bind fun p f hr hf => withFound_mild H (fun q g hl => .find hn hl) fun q g hl => ?_
  refine failIf_bind fun hro => failIf_bind fun ht => ?_
  exact two_scope H S hr hf hn hl (.inl ⟨rfl, rfl, rfl, rfl⟩) (.inl rfl) (by simpa using hro)
    (by simpa using ht) (fun d => Op.diodRename_undone d name) fun e h => by simpa using h

theorem npLink_scope (fid : UInt32) (name : Bytes) (hn : fid ∈ tc.finds) :
    (npLink H S fid name).DoesAt (Mild (scope S tc w)) w := by
  refine reqPtr_bind fun p hr => withFound_mild H (fun q g hl => .find hn hl) fun q g hl => ?_
  refine deref_bind fun g' hg' => failIf_bind fun hro => failIf_bind fun ht => ?_
  have hg := (FidPool.get_of_lookup hl).1
  obtain rfl : g' = { g with refcount := g.refcount + 1 } :=
    Option.some.inj (hg'.symm.trans (FidPool.get_incref_self hg))
  rcases hf : w.conn.pool.get p with _ | f
  · have hs := npSetfsid_does H S g.user noGid (w.found q g)
    refine quiet_bind (hs.mono fun _ _ h => h.toQuiet) fun _ w₁ _ hq => doesAt_read_bind ?_
    have hp : w₁.aux p = .null := by
      have hne : p ≠ q := fun h => by rw [h, hg] at hf; cases hf
      rw [World.aux, hq.conn, World.found, FidPool.get_incref_of_ne hne, hf]
      rfl
    rw [hp]
    exact record_bind (.dangling hr hf)
      (doesAt_of_eq (bind_of_crash (derefAux_of_null srvAux rfl hp)) (Mild.refl _ _))
  · rw [Bool.not_eq_true] at hro ht
    exact two_scope H S (m := fun _ => false) hr hf hn hl (.inr ⟨rfl, rfl, rfl, rfl⟩) (.inl rfl)
      hro ht (fun d => Op.moves.tame fun f => (Op.anywhere f).link Op.leads_anywhere)
      fun e h => by cases h

theorem npRenameat_scope (oldname : Bytes) (newdirfid : UInt32) (newname : Bytes)
    (hn : newdirfid ∈ tc.finds) :
    (npRenameat H S oldname newdirfid newname).DoesAt (Mild (scope S tc w)) w := by
  refine reqFid_bind fun p f hr hf => failIf_bind fun hro => failIf_bind fun ht =>
    withFound_mild H (fun q g hl => .find hn hl) fun q g hl => deref_bind fun g' hg' => ?_
  have hg := (FidPool.get_of_lookup hl).1
  obtain rfl : g' = { g with refcount := g.refcount + 1 } :=
    Option.some.inj (hg'.symm.trans (FidPool.get_incref_self hg))
  exact two_scope H S (m := fun _ => false) hr hf hn hl (.inl ⟨rfl, rfl, rfl, rfl⟩) (.inr rfl)
    (by simpa using hro) (by simpa using ht) (fun d o => Op.moves.tameAt ((Op.anywhere o.f).renameat
      (fun _ => Op.leads_anywhere) Op.leads_anywhere))
    fun e h => by cases h

/-! ### Reading and writing -/

theorem npRead_scope (offset : UInt64) (count : UInt32) :
    (npRead H S offset count).DoesAt (Mild (scope S tc w)) w := by
  refine reqFid_bind fun p f hr hf => doesAt_read_bind <| failIf_bind fun _ =>
    doesAt_ite (fun ha => ?_) fun ha => ?_
  · refine quiet_bind (malloc_quiet H w) fun m w₁ _ hq => ?_
    refine quiet_bind (quiet_effect.when (fun _ => quiet_effect.stop) w₁) fun _ w₂ _ hq' => ?_
    refine record_bind (.auth hr hf ha) (fail_quiet EIO _).mild
  · rw [Bool.not_eq_true] at ha
    exact dispatch_look H S hr hf
      (fun ht => ctl_scope S hr hf ((Op.npCtlRead_tame H S.ctlroot _ _).mono fun _ _ _ h =>
        h.mono (fun _ h => h.look) fun _ _ h => h) ht fun _ => ha)
      (Op.moves.diodRead H (fun _ h => h.look) _ _)
      fun _ => ha

theorem npWrite_scope (offset : UInt64) (count : UInt32) (data : Bytes) :
    (npWrite H S offset count data).DoesAt (Mild (scope S tc w)) w := by
  refine reqFid_bind fun p f hr hf => doesAt_ite (fun ha => ?_) fun ha => ?_
  · refine failIf_bind fun _ => still_bind ?_ fun _ w₁ _ => ?_
    · exact authOp_mild hf (.auth hr hf ha) (Op.writeafid_tame H offset data)
    · exact quiet_bind (allocOr_quiet H ENOMEM w₁) fun _ w₂ _ _ => Mild.refl _ w₂
  · rw [Bool.not_eq_true] at ha
    refine failIf_bind fun hro => doesAt_read_bind <| failIf_bind fun _ => ?_
    rw [Bool.not_eq_true] at hro
    exact dispatch_scope H S hr hf (m := fun _ => false) (a := true)
      (fun ht => ctl_scope S hr hf (Op.npCtlWrite_tame H _) ht fun _ => ha)
      (Op.moves.tame fun f => (Op.anywhere f).write _ _ fun _ _ _ h _ =>
        ⟨h.1, fun h => by cases h⟩)
      (fun _ _ _ => .inl hro) (fun _ h => by cases h) (fun _ => .inl hro) fun _ => ha

/-! ### Kinds of fids -/

/-- **A fid of one kind**: its type says who made what hangs on it. -/
def Npfid.Kinded (f : Npfid) : Prop :=
  match f.aux.backend with
  | none => True
  | some .srv => f.isTmp = false ∧ f.isAuth = false
  | some .ctl => f.isTmp = true ∧ f.isAuth = false
  | some .auth => f.isAuth = true

/-- Every fid of the connection is of one kind. -/
def World.Kinded (w : World σ) : Prop := ∀ p f, w.conn.pool.get p = some f → f.Kinded

theorem Npfid.Like.kinded {m : Prop} (h : f.Like x m g) (hf : f.Kinded) : g.Kinded := by
  unfold Npfid.Kinded at hf ⊢
  rw [h.backend, h.isTmp, h.isAuth]
  exact hf

theorem Npfid.Kinded.of_srv {d : DiodFid} (h : f.Kinded) (hd : f.aux = .srv d) :
    f.isTmp = false ∧ f.isAuth = false := by
  unfold Npfid.Kinded at h
  rwa [hd] at h

theorem isTmp_of_plain (h : Op.PlainQid q) : Npfid.isTmp { f with type := q.type } = false := by
  simp [Npfid.isTmp, h.2]

theorem isAuth_of_plain (h : Op.PlainQid q) : Npfid.isAuth { f with type := q.type } = false := by
  simp [Npfid.isAuth, h.1]

/-- A fid of the file server that gets the type of a file. -/
theorem like_plain {m : Prop} (hq : Op.PlainQid q)
    (ht : f.isTmp = false) (ha : f.isAuth = false) (hm : m) :
    f.Like x m { f with type := q.type } where
  fid := rfl
  user := rfl
  aname := rfl
  rofs := rfl
  zombie h := h
  backend := rfl
  isTmp := (isTmp_of_plain hq).trans ht.symm
  isAuth := (isAuth_of_plain hq).trans ha.symm
  pending := .inl
  still h := absurd hm h

theorem reqFid_eq_ok (h : reqFid w = (.ok (p, f), w₁)) :
    w₁ = w ∧ w.rfid = some p ∧ w.conn.pool.get p = some f := by
  rcases hr : w.rfid with _ | q
  · rw [show reqFid w = fail EIO w from bind_of_stop (reqPtr_of_none hr)] at h
    cases h
  · rcases hf : w.conn.pool.get q with _ | g
    · rw [reqFid, bind_of_ok (reqPtr_of_rfid hr), bind_of_crash (deref_of_none hf)] at h
      cases h
    · rw [reqFid_of_get hr hf] at h
      cases h
      exact ⟨rfl, rfl, hf⟩

theorem failIf_eq_ok {c : Prop} [Decidable c] {u : Unit}
    (h : failIf c e w = (.ok u, w₁)) : ¬c ∧ w₁ = w := by
  unfold failIf Prog.when at h
  split at h
  · cases h
  · rename_i hc
    cases h
    exact ⟨hc, rfl⟩

theorem auxOp_eq_ok {V : AuxView F} {x : Prog (Ost σ F) α} (h : auxOp V p x w = (.ok a, w₁)) :
    ∃ d o o', V.get (w.aux p) = some d ∧ x o = (.ok a, o') ∧
      w₁.conn = { w.conn with pool := w.conn.pool.update p fun g => { g with aux := V.put o'.f } } ∧
      w₁.wt = w.wt ∧ w₁.rfid = w.rfid ∧ o.f = d := by
  have h : runAux V p [w.uid p] x { w with
      trace := w.trace ++ [.op V.backend [(w.aux p).backend]] } = (.ok a, w₁) := h
  unfold runAux at h
  split at h
  · cases h
  · rename_i d hd
    obtain ⟨hr, rfl⟩ := Prod.mk.inj h
    exact ⟨d, _, _, hd, Prod.ext hr rfl, rfl, rfl, rfl, rfl⟩

/-- What is known when an operation of the file server has succeeded. -/
theorem dispatch_ok {op : Prog (Ost σ DiodFid) α} {P : α → Prop}
    (hop : op.Returns P) (hf : w.conn.pool.get p = some f)
    (h : dispatch H S p f gid (fail e) op w = (.ok a, w₁)) :
    P a ∧ f.isTmp = false ∧ ∃ d, f.aux = .srv d := by
  unfold dispatch at h
  split at h
  · cases h
  · rename_i ht
    obtain ⟨_, w₂, hs, h₁⟩ := bind_eq_ok h
    have hq := ((npSetfsid_does H S f.user gid _).of_eq hs).toQuiet
    obtain ⟨d, o, o', hd, hx, -⟩ := auxOp_eq_ok h₁
    rw [World.aux, hq.conn, hf] at hd
    exact ⟨hop _ _ _ hx, by simpa using ht, d, srvAux.put_of_get hd⟩

theorem npFidOp_ok {P : Msg → Prop} {rc : Msg} (hop : ∀ f, (op f).Returns P)
    (h : npFidOp H S gid (fun _ => fail EPERM) op w = (.ok rc, w₁)) :
    P rc ∧ ∃ p f d, w.rfid = some p ∧ w.conn.pool.get p = some f ∧ f.isTmp = false ∧
      f.aux = .srv d := by
  obtain ⟨⟨p, f⟩, _, hpf, h₁⟩ := bind_eq_ok h
  obtain ⟨rfl, hr, hf⟩ := reqFid_eq_ok hpf
  obtain ⟨_, _, hro, h₂⟩ := bind_eq_ok h₁
  obtain ⟨-, rfl⟩ := failIf_eq_ok hro
  obtain ⟨hP, ht, d, hd⟩ := dispatch_ok H S (hop f) hf h₂
  exact ⟨hP, p, f, d, hr, hf, ht, hd⟩

theorem retype_of_rlcreate {qid : Npqid} {iounit : UInt32} (hr : w.rfid = some p) :
    (retype (.rlcreate qid iounit) : Prog (World σ) Unit) w =
      updateFid p (fun f => { f with type := qid.type }) w :=
  bind_of_ok (reqPtr_of_rfid hr)

theorem npLcreate_scope (name : Bytes) (flags mode gid : UInt32) (hk : w.Kinded)
    (hauth : tc.authAware = false) :
    (npLcreate H S name flags mode gid).DoesAt (Mild (scope S tc w)) w := by
  have hx : (npFidOp H S gid (fun _ => fail EPERM) fun f =>
      Op.diodLcreate H ((f.uid).getD NONUNAME) name flags mode).DoesAt (Mild (scope S tc w)) w :=
    npFidOp_scope H S (a := false) (fun _ _ _ _ _ => fail_scope S _)
      (fun f => Op.diodLcreate_undone _ name flags mode) (fun e h => by simpa using h) hauth
  -- when there is a reply, the fid is one of the file server, and stays one with its new type
  have ht : ∀ rc w₁, npFidOp H S gid (fun _ => fail EPERM) (fun f =>
      Op.diodLcreate H ((f.uid).getD NONUNAME) name flags mode) w = (.ok rc, w₁) →
      (do retype rc; pure rc : Prog (World σ) Msg).DoesAt
        (fun e w₁ w' => e = .ok ∧ Mild (scope S tc w) .ok w₁ w') w₁ := by
    intro rc w₁ h₁
    have hm := hx.of_eq h₁
    obtain ⟨⟨qid, iounit, rfl, hq⟩, p, f, d, hr, hf, -, hd⟩ :=
      npFidOp_ok H S (fun f => Op.diodLcreate_plain H _ name flags mode) h₁
    obtain ⟨ht, ha⟩ := (hk p f hf).of_srv hd
    have hr₁ : w₁.rfid = some p := (hm.rfid (by simp)).trans hr
    have hu : (retype (.rlcreate qid iounit) >>= fun _ => pure (.rlcreate qid iounit) :
        Prog (World σ) Msg) w₁ = (.ok (.rlcreate qid iounit),
          w₁.setPool (w₁.conn.pool.update p fun f => { f with type := qid.type })) :=
      bind_of_ok (retype_of_rlcreate hr₁)
    refine doesAt_of_eq hu ⟨rfl, updateFid_mild fun f₁ hq₁ hf₁ => ?_⟩
    obtain ⟨f', hf', hl⟩ := hm.alike (by simp) p f hq₁ hf
    obtain rfl : f' = f₁ := Option.some.inj (hf'.symm.trans hf₁)
    exact like_plain hq (hl.isTmp.trans ht) (hl.isAuth.trans ha) (by simp [scope])
  refine hx.bind ht (fun e _ _ h => h) fun e w₁ w₂ h h' => ?_
  obtain ⟨rfl, h'⟩ := h'
  exact h.trans h' (Scope.Le.refl _ _) (Scope.Le.refl _ _)

/-! ### The session -/

/-- A change of the session. -/
theorem session_mild {g : Npconn → Npconn} (hg : ∀ c, (g c).pool = c.pool) (hs : C.sess) :
    (Prog.modify fun w : World σ => { w with conn := g w.conn }).Does (Mild C) := by
  intro w
  refine ⟨⟨[], (List.append_nil _).symm, by simp⟩, fun h => h, fun _ => rfl, fun _ h => absurd hs h,
    fun _ => ?_, fun _ q => ?_, fun _ q f _ hf => ⟨f, ?_, .refl f⟩, fun _ _ h => h⟩
  · change (g w.conn).pool.next = _
    rw [hg]
  · change (g w.conn).pool.refs q = _
    rw [hg]
  · change (g w.conn).pool.get q = _
    rwa [hg]

theorem npVersion_scope (msize : UInt32) (version : Bytes) (hs : tc.changesSess = true) :
    (npVersion H S msize version).DoesAt (Mild (scope S tc w)) w := by
  refine failIf_bind fun _ => doesAt_read_bind <| still_bind ?_ fun _ w₁ _ => ?_
  · exact Effect.whenAt (mild_effect fun _ _ => False.elim) fun _ =>
      session_mild (g := fun c => { c with
        msize := if msize > w.conn.msize then w.conn.msize else msize }) (fun _ => rfl) hs w
  · refine doesAt_ite (fun _ => ?_) fun _ => (fail_quiet EIO w₁).mild
    exact quiet_bind (allocOr_quiet H ENOMEM w₁) fun _ w₂ _ _ => Mild.refl _ w₂

end Diod
