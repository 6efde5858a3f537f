import Diod.Npfs.Walk

/-!
# One summary for all handlers

What any handler does to the connection it is run on (`Diod.Handled`), in terms of the
request and of how it ends: which events it causes, which references it takes and gives
back, and what becomes of the fids. The properties of the server are proved from this
summary, and from no other knowledge of the handlers.
-/

namespace Diod

open Prog

variable {σ α : Type} (H : Host σ) (S : Npsrv) (ans : Ans) {tc : Msg} {w : World σ}

/-! ### References -/

namespace Fcall

/-- The requests that give up their fid. -/
def drops : Msg → Bool
  | .tclunk _ | .tremove _ => true
  | _ => false

/-- A `Tauth` where authentication is not required. It is answered, with an error. -/
def refused (S : Npsrv) (ans : Ans) : Msg → Bool
  | .tauth _ _ aname _ => !S.conf.diodAuthRequired ans.mem aname
  | _ => false

/-- **The references on the request's fid** after the handler, which ended like this. -/
def recount (S : Npsrv) (ans : Ans) (tc : Msg) (e : End) (n : Option ℕ) : Option ℕ :=
  match tc with
  | .tclunk _ | .tremove _ => oneLess n
  | .tauth .. => if tc.refused S ans then n else n.map (· + 1)
  | .tattach .. => if e = .ok then n.map (· + 1) else n
  | _ => n

theorem recount_plain {S : Npsrv} {ans : Ans} {tc : Msg} (ho : tc.opens = [])
    (hd : tc.drops = false) (e : End) (n : Option ℕ) : tc.recount S ans e n = n := by
  cases tc <;> first | rfl | (cases hd; done) | cases ho

theorem recount_drops {S : Npsrv} {ans : Ans} {tc : Msg} (hd : tc.drops = true) (e : End)
    (n : Option ℕ) : tc.recount S ans e n = oneLess n := by
  cases tc <;> first | rfl | cases hd

theorem opens_of_drops {tc : Msg} (hd : tc.drops = true) : tc.opens = [] ∧ tc.makes = [] := by
  cases tc <;> first | exact ⟨rfl, rfl⟩ | cases hd

end Fcall

/-- **What a handler does.** -/
structure Handled (S : Npsrv) (ans : Ans) (tc : Msg) (e : End) (w w' : World σ) : Prop where
  /-- A request with an error moves no fid, unless it was to make one whose number is in
  use. -/
  loose : Loose { scope S tc w with
    moves := fun e => e ≠ .stop ∨ w'.b.ecode = 0 ∨ w.InUse tc, clean := !tc.drops } e w w'
  rfid : e ≠ .crash → w'.rfid =
    if tc.drops = true ∧ w.rfid.bind w'.conn.pool.get = none then none else w.rfid
  next : e ≠ .crash → w'.conn.pool.next ≤ w.conn.pool.next + 1
  refs : e ≠ .crash → ∀ q < w.conn.pool.next, w'.conn.pool.refs q =
    if w.rfid = some q then tc.recount S ans e (w.conn.pool.refs q) else w.conn.pool.refs q
  own : e ≠ .crash → tc.opens ≠ [] → ∀ p f, w.rfid = some p → w.conn.pool.get p = some f →
    f.Fresh → ∃ f', w'.conn.pool.get p = some f' ∧
      f.Open f' (e = .ok ∧ tc.refused S ans = false)
  made : e ≠ .crash → ∀ g, w'.conn.pool.get w.conn.pool.next = some g →
    e = .ok ∧ tc.makes = [g.fid] ∧ g.refcount = 1 ∧
      ∃ p f, w.rfid = some p ∧ w.conn.pool.get p = some f ∧ f.Copied g
  new : e = .ok → tc.makes ≠ [] → w'.conn.pool.get w.conn.pool.next ≠ none

section

variable {S ans} {e : End} {w' : World σ}

/-- The scope of a handler, from one in which fids move less. -/
theorem Loose.handled {m : End → Prop} {c : Bool}
    (h : Loose { scope S tc w with moves := m, clean := c } e w w')
    (hm : m e → e ≠ .stop ∨ w'.b.ecode = 0 ∨ w.InUse tc) (hc : tc.drops = false → c = true) :
    Loose { scope S tc w with
      moves := fun e => e ≠ .stop ∨ w'.b.ecode = 0 ∨ w.InUse tc, clean := !tc.drops } e w w' :=
  h.mono ⟨fun _ h => h, fun _ h => h, hm, fun _ h => h, id, fun h => hc (by simpa using h)⟩

/-- What neither opens, makes nor drops a fid. -/
theorem Loose.handled_plain (h : Loose { scope S tc w with
      moves := fun e => e ≠ .stop ∨ w'.b.ecode = 0 ∨ w.InUse tc, clean := !tc.drops } e w w')
    (hr : e ≠ .crash → w'.rfid = w.rfid) (hn : e ≠ .crash → w'.conn.pool.next = w.conn.pool.next)
    (hf : e ≠ .crash → ∀ q, w'.conn.pool.refs q = w.conn.pool.refs q) (ho : tc.opens = [])
    (hm : tc.makes = []) (hd : tc.drops = false) : Handled S ans tc e w w' where
  loose := h
  rfid he := by rw [if_neg (by simp [hd]), hr he]
  next he := (hn he).le.trans (Nat.le_succ _)
  refs he q _ := by rw [Fcall.recount_plain ho hd, ite_self, hf he]
  own _ h := absurd ho h
  made he g hg := by
    rw [← hn he, FidPool.get_next] at hg
    cases hg
  new _ h := absurd hm h

theorem handled_of_scope {x : Prog (World σ) Msg} (hx : x.DoesAt (Mild (scope S tc w)) w)
    (ho : tc.opens = [] := by rfl) (hm : tc.makes = [] := by rfl)
    (hd : tc.drops = false := by rfl) : x.DoesAt (Handled S ans tc) w :=
  hx.mono fun _ _ h =>
    (h.loose.handled .inl fun _ => rfl).handled_plain h.rfid h.next h.refs ho hm hd

theorem Walked.handled {fid : UInt32} {wnames : List Bytes}
    (h : Walked S (.twalk fid fid wnames) w e w w') :
    Handled S ans (.twalk fid fid wnames) e w w' := by
  have hle : ∀ m : End → Prop, (walkScope S (.twalk fid fid wnames) w m).Le
      { scope S (.twalk fid fid wnames) w with moves := m, clean := false } e e := fun m =>
    ⟨fun _ h => h, fun _ => False.elim, id, fun _ _ => trivial, False.elim, id⟩
  have hm : Fcall.makes (.twalk fid fid wnames) = [] := by simp [Fcall.makes]
  refine Loose.handled_plain ?_ h.rfid h.next h.refs rfl hm rfl
  by_cases hs : e = .stop ∧ w'.b.ecode ≠ 0
  · obtain ⟨rfl, h0⟩ := hs
    have hl := (h.still rfl h0).loose.mono (hle fun _ => False)
    exact { hl with
      alike := fun he q f f' hq hf hf' => (hl.alike he q f f' hq hf hf').mono (fun _ h => h)
        False.elim
      ecode := fun _ h => by cases h }
  · have hl := h.loose.mono (hle fun _ => True)
    exact { hl with
      alike := fun he q f f' hq hf hf' => (hl.alike he q f f' hq hf hf').mono (fun _ h => h)
        fun _ => (not_and_or.mp hs).imp id fun h => .inl (not_not.mp h)
      ecode := fun _ he _ => h.clean he }

variable {n : UInt32} {p : ℕ} {uname aname : Bytes}

theorem Makes.handled (h : Makes S tc n e w w') (ho : tc.opens = [])
    (hm : tc.makes = [n]) (hd : tc.drops = false) : Handled S ans tc e w w' where
  loose := h.loose.handled (fun h => .inr (.inr h)) fun _ => rfl
  rfid he := by rw [if_neg (by simp [hd]), h.rfid he]
  next := h.next
  refs he q hq := by rw [Fcall.recount_plain ho hd, ite_self, h.refs he q hq]
  own _ h := absurd ho h
  made he g hg := by
    obtain ⟨hok, hn, h1, hp⟩ := h.made he g hg
    exact ⟨hok, by rw [hm, hn], h1, hp⟩
  new he _ := h.new he

theorem Dropped.handled (h : Dropped S tc e w w') (hd : tc.drops = true) :
    Handled S ans tc e w w' where
  loose := h.loose.handled .inl fun h => by rw [hd] at h; cases h
  rfid he := by
    rw [h.rfid he]
    simp [hd]
  next he := (h.next he).le.trans (Nat.le_succ _)
  refs he q _ := by rw [Fcall.recount_drops hd, h.refs he q]
  own _ ho := absurd (Fcall.opens_of_drops hd).1 ho
  made he g hg := by
    rw [← h.next he, FidPool.get_next] at hg
    cases hg
  new _ hm := absurd (Fcall.opens_of_drops hd).2 hm

theorem Attached.handled {afid nUname : UInt32} (hr : w.rfid = some p)
    (h : Attached (scope S (.tattach n afid uname aname nUname) w) p e w w') :
    Handled S ans (.tattach n afid uname aname nUname) e w w' where
  loose := h.loose.handled .inl fun _ => rfl
  rfid he := by rw [if_neg (by simp [Fcall.drops]), h.rfid he]
  next he := (h.next he).le.trans (Nat.le_succ _)
  refs he q _ := by
    rw [h.refs he q, hr]
    by_cases hq : q = p
    · subst hq
      simp [Fcall.recount]
    · rw [if_neg fun h => hq h.1, if_neg fun h => hq (Option.some.inj h).symm]
  own he _ p' f hr' hf hfr := by
    obtain rfl : p' = p := Option.some.inj (hr'.symm.trans hr)
    obtain ⟨f', hf', ho⟩ := h.own he f hf hfr
    exact ⟨f', hf', { ho with ready := fun h => ho.ready h.1 }⟩
  made he g hg := by
    rw [← h.next he, FidPool.get_next] at hg
    cases hg
  new _ hm := absurd rfl hm

/-- A request that leaves the connection alone. -/
theorem Quiet.handled (h : Quiet e w w') (hc : tc.drops = true → w.rfid = none)
    (hr : ∀ q, w.rfid = some q → tc.recount S ans e (w.conn.pool.refs q) = w.conn.pool.refs q)
    (ho : e = .ok → tc.refused S ans = true) : Handled S ans tc e w w' where
  loose := h.mild.loose
  rfid _ := by
    split
    · rename_i hd
      rw [h.rfid, hc hd.1]
    · exact h.rfid
  next _ := by
    rw [h.conn]
    exact Nat.le_succ _
  refs _ q _ := by
    rw [h.conn]
    split
    · exact (hr q ‹_›).symm
    · rfl
  own _ _ p f _ hf hfr := by
    refine ⟨f, (h.get p).trans hf, hfr.open ⟨rfl, rfl, rfl, rfl, rfl, id⟩ fun h' => ?_⟩
    rw [ho h'.1] at h'
    exact absurd h'.2 (by simp)
  made _ g hg := by
    rw [h.get, FidPool.get_next] at hg
    cases hg
  new he hm := by
    have := ho he
    cases tc <;> first | cases this | exact absurd rfl hm

/-- A request without a fid is refused. -/
theorem handled_of_none (hr : w.rfid = none) :
    Handled S ans tc .stop w { w with b := { w.b with ecode := EIO } } :=
  (fail_quiet (α := Unit) EIO w).handled (fun _ => hr) (fun q h => by rw [hr] at h; cases h)
    fun h => by cases h

/-- What is no request is not handled. -/
theorem handled_crash : Handled S ans tc .crash w w where
  loose := (Mild.refl .crash w).loose.crash
  rfid h := absurd rfl h
  next h := absurd rfl h
  refs h := absurd rfl h
  own h := absurd rfl h
  made h := absurd rfl h
  new h := by cases h

/-- The fid of a `Tauth`, with the reference that was taken first. -/
theorem OnWay.handled {f : Npfid} {nUname : UInt32}
    (hr : w.rfid = some p) (hf : w.conn.pool.get p = some f)
    (hq : Fcall.refused S ans (.tauth n uname aname nUname) = false)
    (h : OnWay (scope S (.tauth n uname aname nUname) w).still p
      { f with refcount := f.refcount + 1 } e (w.setPool (w.conn.pool.incref p)) w') :
    Handled S ans (.tauth n uname aname nUname) e w w' where
  loose :=
    { (h.loose.mono { Scope.Le.refl _ e with moves := False.elim } :
        Loose { scope S (.tauth n uname aname nUname) w with
          moves := fun e => e ≠ .stop ∨ w'.b.ecode = 0 ∨ w.InUse (.tauth n uname aname nUname) }
          e (w.setPool (w.conn.pool.incref p)) w') with
      trace := h.trace
      gone := fun he q hq hg => by
        have hne : q ≠ p := fun hqp => by rw [hqp, hf] at hg; cases hg
        exact h.loose.gone he q hq ((FidPool.get_incref_of_ne hne).trans hg)
      alike := fun he q g g' hq hg hg' => by
        have hne : q ≠ p := fun hqp => by
          rcases hq with hq | hq
          · cases hq
          · exact hq (hqp ▸ hr)
        exact (h.loose.alike he q g g' hq ((FidPool.get_incref_of_ne hne).trans hg) hg').mono
          (fun _ h => h) False.elim }
  rfid he := by rw [if_neg (by simp [Fcall.drops])]; exact h.rfid he
  next he := (h.next he).le.trans (Nat.le_succ _)
  refs he q _ := by
    refine (h.refs he q).trans ((FidPool.refs_incref hf q).trans ?_)
    rw [hr]
    by_cases hqp : q = p
    · subst hqp
      simp [Fcall.recount, hq, FidPool.refs_of_get hf]
    · rw [if_neg hqp, if_neg fun h => hqp (Option.some.inj h).symm]
  own he _ p' g hr' hg _ := by
    obtain rfl : p' = p := Option.some.inj (hr'.symm.trans hr)
    obtain rfl : g = f := Option.some.inj (hg.symm.trans hf)
    obtain ⟨f', hf', ho⟩ := h.own he
    exact ⟨f', hf', ho.fid, ho.aname, ho.zombie, ho.kinded, ho.pending, fun h => ho.ready h.1⟩
  made he g hg := by
    have hn : w'.conn.pool.next = w.conn.pool.next := h.next he
    rw [← hn, FidPool.get_next] at hg
    cases hg
  new _ hm := absurd rfl hm

end

/-! ### Handlers -/

/-- The state in which the handler of a request may be run: fids are of one kind, and a
fid that is to be opened has just been made. -/
structure World.Prepared (w : World σ) (tc : Msg) : Prop where
  kinded : w.Kinded
  fresh : tc.opens ≠ [] → ∀ p, w.rfid = some p → ∃ f, w.conn.pool.get p = some f ∧ f.Fresh

theorem npAttach_handled (n afid nUname : UInt32) (uname aname : Bytes)
    (hw : w.Prepared (.tattach n afid uname aname nUname)) :
    (npAttach H S ans afid uname aname nUname).DoesAt
      (Handled S ans (.tattach n afid uname aname nUname)) w := by
  rcases hr : w.rfid with _ | p
  · exact doesAt_of_eq (bind_of_stop (reqPtr_of_none hr)) (handled_of_none hr)
  · obtain ⟨f, hf, hfr⟩ := hw.fresh (by simp [Fcall.opens]) p hr
    exact (npAttach_attached H S ans n afid nUname uname aname hr hf hfr).mono
      fun _ _ h => h.handled hr

theorem npAuth_handled (n nUname : UInt32) (uname aname : Bytes)
    (hw : w.Prepared (.tauth n uname aname nUname)) :
    (npAuth H S ans uname aname nUname).DoesAt (Handled S ans (.tauth n uname aname nUname)) w := by
  refine doesAt_ite (fun hq => ?_) fun hq => ?_
  · have ha := allocOr_quiet H ENOMEM w
    have hx : (allocOr H ENOMEM >>= fun _ => pure (.rlerror (.ofNat ENOENT)) :
        Prog (World σ) Msg).DoesAt Quiet w :=
      quiet_effect.bindAt ha fun _ w₁ _ => quiet_effect.pure _ w₁
    exact hx.mono fun e w' h => h.handled (fun h => by cases h)
      (fun q _ => by simp [Fcall.recount, Fcall.refused, hq]) fun _ => hq
  · have hq' : Fcall.refused S ans (.tauth n uname aname nUname) = false := by
      simpa [Fcall.refused] using hq
    rcases hr : w.rfid with _ | p
    · exact doesAt_of_eq (bind_of_stop (reqPtr_of_none hr)) (handled_of_none hr)
    · obtain ⟨f, hf, hfr⟩ := hw.fresh (by simp [Fcall.opens]) p hr
      have ho : Fcall.opens (.tauth n uname aname nUname) ≠ [] := by simp [Fcall.opens]
      have hk : ¬(scope S (.tauth n uname aname nUname) w).still.keeps p :=
        fun h => h.elim (fun h => ho h) fun h => h hr
      refine doesAt_bind_of_ok (reqPtr_of_rfid hr) ?_
      rw [DoesAt, bind_of_ok (npFidIncref_of_get hf)]
      have hx := npAuth_onWay (f := { f with refcount := f.refcount + 1 })
        (w := w.setPool (w.conn.pool.incref p)) H (Scope.still_steady _) hk
        (fun k => .make k ho) ans uname nUname (FidPool.get_incref_self hf) ⟨hfr.aux, hfr.type⟩
      exact OnWay.handled hr hf hq' hx

/-- **What the handlers do.** -/
theorem handler_does (hw : w.Prepared tc) :
    (handler H S ans tc).DoesAt (Handled S ans tc) w := by
  have hk := hw.kinded
  cases tc with
  | tstatfs =>
    exact handled_of_scope (plain_scope H S rfl (Op.moves.tame fun f => (Op.sight f).statfs _))
  | tlopen _ flags =>
    exact handled_of_scope (npLopen_scope H S rfl flags fun h => by simpa [Fcall.truncates] using h)
  | tlcreate => exact handled_of_scope (npLcreate_scope H S _ _ _ _ hk rfl)
  | tsymlink =>
    exact handled_of_scope (plainFidOp_scope H S rfl (Op.diodMake_tame (Op.allocOr_leaves _)))
  | tmknod =>
    exact handled_of_scope (plainFidOp_scope H S rfl (Op.diodMake_tame (Op.leaves.pure _)))
  | trename => exact handled_of_scope (npRename_scope H S _ _ (by simp [Fcall.finds]))
  | treadlink =>
    exact handled_of_scope (plain_scope H S rfl (Op.moves.tame fun f =>
      (Op.sight f).readlink))
  | tgetattr => exact handled_of_scope (npGetattr_scope H S rfl _)
  | tsetattr => exact handled_of_scope (npSetattr_scope H S rfl _)
  | txattrwalk => exact (npXattrwalk_makes H S).mono fun _ _ h => h.handled rfl rfl rfl
  | txattrcreate => exact handled_of_scope (npXattrcreate_scope H S rfl _ _ _ rfl)
  | treaddir => exact handled_of_scope (npReaddir_scope H S rfl _ _)
  | tfsync =>
    exact handled_of_scope (plainFidOp_scope H S rfl (Op.moves.diodFsync H (fun _ _ => trivial) _))
  | tlock =>
    exact handled_of_scope (plainFidOp_scope H S rfl (Op.moves.diodLock H (fun _ _ => trivial) _ _))
  | tgetlock =>
    exact handled_of_scope (plainFidOp_scope H S rfl
      (Op.moves.diodGetlock H (fun _ _ => trivial) _ _ _ _ _))
  | tlink => exact handled_of_scope (npLink_scope H S _ _ (by simp [Fcall.finds]))
  | tmkdir =>
    exact handled_of_scope (plainFidOp_scope H S rfl (Op.diodMake_tame (Op.leaves.pure _)))
  | trenameat => exact handled_of_scope (npRenameat_scope H S _ _ _ (by simp [Fcall.finds]))
  | tunlinkat =>
    exact handled_of_scope (plainFidOp_scope H S rfl fun o => Op.moves.tameAt
      ((Op.anywhere o.f).unlinkat fun _ => Op.leads_anywhere))
  | tversion => exact handled_of_scope (npVersion_scope H S _ _ rfl)
  | tauth => exact npAuth_handled H S ans _ _ _ _ hw
  | tattach => exact npAttach_handled H S ans _ _ _ _ _ hw
  | twalk fid newfid wnames =>
    by_cases hne : fid = newfid
    · subst hne
      exact (npWalk_inPlace H S hk).mono fun _ _ h => h.handled
    · exact (npWalk_makes H S hk hne).mono fun _ _ h =>
        h.handled rfl (by simp [Fcall.makes, hne]) rfl
  | tread => exact handled_of_scope (npRead_scope H S _ _)
  | twrite => exact handled_of_scope (npWrite_scope H S _ _ _)
  | tclunk => exact (npClunk_does H S).mono fun _ _ h => h.handled rfl
  | tremove => exact (npRemove_does H S).mono fun _ _ h => h.handled rfl
  | _ => exact handled_crash

end Diod
