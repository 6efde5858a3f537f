import Diod.Npfs.Handled

/-!
# One request at a time

What the receive thread does before a handler (`Diod.Received`) and the worker after it,
put together with what the handler does. With nothing else going on, every reference
that a request takes is given back, and the fids that are there afterwards are those
that the protocol says.
-/

namespace Diod

open Prog

variable {σ α : Type} (H : Host σ) (S : Npsrv) (ans : Ans) {tc : Msg} {w w' : World σ}

/-! ### The receive thread -/

/-- The events of the receive thread. -/
inductive Receives (tc : Msg) (w : World σ) : Event → Prop
  | find {n : UInt32} {q : ℕ} {g : Npfid} (hn : tc.reqFid = some n)
      (hl : w.conn.pool.lookup n = some (q, g)) : Receives tc w (.find g)
  | inUse {n : UInt32} {q : ℕ} {g : Npfid} (hn : n ∈ tc.opens)
      (hl : w.conn.pool.lookup n = some (q, g)) : Receives tc w (.op .srv [g.aux.backend])

/-- The scope of the receive thread. A fid in the way becomes a zombie. -/
def recvScope (tc : Msg) (w : World σ) : Scope where
  emits := Receives tc w
  moves _ := ∃ n ∈ tc.opens, w.conn.pool.lookup n ≠ none
  clean := false

theorem recvScope_steady : (recvScope tc w).Steady := fun _ _ => id

/-- **What the receive thread leaves** for the handler. -/
inductive Received (tc : Msg) (w w' : World σ) : Prop
  /-- The request's fid was found, and has another reference. -/
  | found {n : UInt32} {q : ℕ} {g : Npfid} (hn : tc.reqFid = some n)
      (hl : w.conn.pool.lookup n = some (q, g)) (hw : w' = { w.found q g with rfid := some q })
  /-- There is no fid for the request. -/
  | missing (ho : tc.opens = []) (hr : w'.rfid = none) (hw : w' = { w with rfid := w'.rfid })
      (hn : ∀ n, tc.reqFid = some n → w.conn.pool.lookup n = none)
  /-- The request's fid was made. -/
  | opened {n : UInt32} {a : Bytes} (hn : tc.opens = [n]) (hl : Loose (recvScope tc w) .ok w w')
      (hr : w'.rfid = some w.conn.pool.next) (hx : w'.conn.pool.next = w.conn.pool.next + 1)
      (hf : ∀ q < w.conn.pool.next, w'.conn.pool.refs q = w.conn.pool.refs q)
      (hg : w'.conn.pool.get w.conn.pool.next =
        some { fid := n, refcount := 1, aname := some a })
  /-- It could not be made. -/
  | failed {n : UInt32} (hn : tc.opens = [n]) (hl : Loose (recvScope tc w) .ok w w')
      (hr : w'.rfid = w.rfid) (hx : w'.conn.pool.next ≤ w.conn.pool.next + 1)
      (hf : ∀ q < w.conn.pool.next, w'.conn.pool.refs q = w.conn.pool.refs q)
      (hg : w'.conn.pool.get w.conn.pool.next = none)

variable {n : UInt32} {f : Npfid} {u : Unit} {p ecode : ℕ} {w₁ w₂ : World σ} {rc reply : Option Msg}
  {m : Msg} {x : Option (UInt32 × ℕ)} {r : Res Msg}

theorem Fcall.opens_of_reqFid (h : tc.reqFid = some n) : tc.opens = [] := by
  cases tc <;> first | rfl | cases h

/-- What the receive thread does, apart from references. -/
theorem Received.loose (h : Received tc w w') : Loose (recvScope tc w) .ok w w' := by
  cases h with
  | found hn hl hw =>
    subst hw
    have hg := (FidPool.get_of_lookup hl).1
    exact ((World.found_loose (C := recvScope tc w) hg (Receives.find hn hl)).mono
      (Scope.still_le _ _ _)).of_rfid _
  | missing ho hr hw =>
    rw [hw]
    exact (Mild.refl _ w).loose.of_rfid _
  | opened _ hl => exact hl
  | failed _ hl => exact hl

/-- The only fid that is new is the one of a request that opens one. -/
theorem Received.new (h : Received tc w w') {q : ℕ} (hq : w.conn.pool.next ≤ q)
    (hf : w'.conn.pool.get q = some f) :
    w'.rfid = some q ∧ ∃ n a, tc.opens = [n] ∧
      f = { fid := n, refcount := 1, aname := some a } := by
  have hlt := FidPool.lt_next hf
  cases h with
  | found hn hl hw =>
    subst hw
    exact absurd hlt (Nat.not_lt.mpr hq)
  | missing ho hr hw =>
    rw [hw] at hlt
    exact absurd hlt (Nat.not_lt.mpr hq)
  | @opened n a hn hl hr hx hrefs hg =>
    obtain rfl : q = w.conn.pool.next := by omega
    exact ⟨hr, n, a, hn, Option.some.inj (hf.symm.trans hg)⟩
  | failed hn hl hr hx hrefs hg =>
    obtain rfl : q = w.conn.pool.next := by omega
    rw [hg] at hf
    cases hf

/-- The fid of a `Tauth` or a `Tattach`. -/
theorem newReqFid_received {aname : Bytes} (hn : tc.opens = [n])
    (h : newReqFid H S n aname w = (.ok u, w')) : Received tc w w' := by
  have hm : n ∈ tc.opens := by simp [hn]
  rcases npFidCreate_cases H S (recvScope_steady : (recvScope tc w).Steady)
    (fun q g hl => .inUse hm hl) (fun hl => ⟨n, hm, hl⟩) with ⟨w₁, hm, hc⟩ | ⟨r, w₁, hc, hne, hm⟩
  · rw [newReqFid, bind_of_ok (attempt_of_ok hc)] at h
    obtain ⟨hnext, hrefs, hget⟩ := hm.create_refs (n := n)
    obtain ⟨m, w₂, hmal, h₁⟩ := bind_eq_ok h
    have hq := (malloc_quiet H _).of_eq hmal
    have hl₂ := hm.create_loose.trans (hq.mild (C := recvScope tc w)).loose
      (recvScope_steady.le _ _) (.refl _ _)
    have hp₂ : w₂.conn.pool = w₁.conn.pool.create n := by rw [hq.conn]; rfl
    rw [← hp₂] at hnext hrefs hget
    rcases m with _ | a
    · -- the fid goes again, and nothing hangs on it
      obtain ⟨b, w₃, hd, h₂⟩ := bind_eq_ok h₁
      obtain ⟨-, rfl⟩ := Prod.mk.inj h₂
      have hrel := (npFidDecref_does H hget).of_eq hd
      have hl := hl₂.trans (hrel.loose (C := recvScope tc w) hget (fun h => by cases h)
        fun v _ hv => by
        cases hv.1) (recvScope_steady.le _ _) (recvScope_steady.le _ _)
      have hc := hrel.conn (by simp)
      refine .failed hn hl (hrel.rfid.trans (hq.rfid.trans (hm.rfid (by simp)))) ?_ (fun q hq => ?_)
        ?_
      · rw [hc]
        exact (FidPool.next_decref ..).trans_le hnext.le
      · rw [hc]
        exact (FidPool.refs_decref_of_ne hq.ne).trans (hrefs q hq)
      · rw [hc]
        exact FidPool.get_decref_last hget rfl
    · obtain ⟨-, rfl⟩ := Prod.mk.inj h₁
      have hu : Mild ((recvScope tc w).sparing w.conn.pool.next) .ok w₂ (w₂.setPool
          (w₂.conn.pool.update w.conn.pool.next fun f => { f with aname := some (cstr aname) })) :=
        updateFid_mild fun _ h => absurd rfl h.1
      have hl := hl₂.trans hu.loose (D := (recvScope tc w).sparing w.conn.pool.next)
        ⟨fun _ h => h, fun _ h => h, id, fun _ h => h.2, id, id⟩ (.refl _ _)
      exact .opened (a := cstr aname) hn (hl.of_sparing.of_rfid _) rfl hnext
        (fun q hq => (FidPool.refs_update ..).trans (hrefs q hq)) (FidPool.get_update_self hget _)
  · rcases r with _ | _ | _
    · exact absurd rfl hne
    · rw [newReqFid, bind_of_ok (attempt_of_stop hc)] at h
      obtain ⟨-, rfl⟩ := Prod.mk.inj h
      have hm := hm.ok_of_stop recvScope_steady rfl
      refine .failed hn hm.loose (hm.rfid (by simp)) ?_ (fun q _ => hm.refs (by simp) q) ?_
      · rw [hm.next (by simp)]
        exact Nat.le_succ _
      · rw [← hm.next (by simp)]
        exact FidPool.get_next _
    · rw [newReqFid, bind_of_crash (attempt_of_crash hc)] at h
      cases h

/-- **What the receive thread does** with a request. -/
theorem npPreprocessRequest_received
    (h : npPreprocessRequest H S tc w = (.ok u, w')) (hr : w.rfid = none) : Received tc w w' := by
  by_cases ho : tc.opens = []
  · have h : findReqFid tc.reqFid w = (.ok u, w') := by
      cases tc <;> first | exact h | cases ho
    rcases hn : tc.reqFid with _ | n
    · rw [hn] at h
      obtain ⟨-, rfl⟩ := Prod.mk.inj h
      exact .missing ho hr rfl fun n h => by rw [hn] at h; cases h
    · rw [hn] at h
      rcases hl : w.conn.pool.lookup n with _ | q
      · rw [findReqFid, bind_of_ok (npFidFind_of_none hl)] at h
        obtain ⟨-, rfl⟩ := Prod.mk.inj h
        exact .missing ho rfl rfl fun n' h => by rw [hn] at h; cases h; exact hl
      · obtain ⟨q, g⟩ := q
        rw [findReqFid, bind_of_ok (npFidFind_of_lookup hl)] at h
        obtain ⟨-, rfl⟩ := Prod.mk.inj h
        exact .found hn hl rfl
  · cases tc <;> first | exact absurd rfl ho | exact newReqFid_received H S rfl h

/-! ### Counting fids -/

/-- **The census of a pool**: the number of each fid that is there, and its references. -/
def FidPool.census (P : FidPool) (p : ℕ) : Option (UInt32 × ℕ) :=
  (P.get p).map fun f => (f.fid, f.refcount)

namespace FidPool

variable {P P' : FidPool} {p q : ℕ} {f g : Npfid}

theorem census_of_get (h : P.get p = some f) : P.census p = some (f.fid, f.refcount) := by
  rw [census, h, Option.map_some]

theorem census_of_none (h : P.get p = none) : P.census p = none := by
  rw [census, h, Option.map_none]

theorem census_incref (h : P.get q = some g) :
    (P.incref q).census = Function.update P.census q (some (g.fid, g.refcount + 1)) := by
  funext p
  rcases eq_or_ne p q with rfl | hne
  · rw [Function.update_self, census_of_get (get_incref_self h)]
  · rw [Function.update_of_ne hne, census, get_incref_of_ne hne, census]

theorem census_decref (h : P.get q = some g) :
    (P.decref q).census = Function.update P.census q
      (if g.refcount = 1 then none else some (g.fid, g.refcount - 1)) := by
  funext p
  rcases eq_or_ne p q with rfl | hne
  · rw [Function.update_self]
    split
    · exact census_of_none (get_decref_last h ‹_›)
    · exact census_of_get (get_decref_self h ‹_›)
  · rw [Function.update_of_ne hne, census, get_decref_of_ne hne, census]

/-- A fid that keeps its number is counted by its references. -/
theorem census_of_refs (hg : P.get p = none → P'.get p = none)
    (hn : ∀ f f', P.get p = some f → P'.get p = some f' → f'.fid = f.fid) :
    P'.census p = (P'.refs p).bind fun k => (P.census p).map fun c => (c.1, k) := by
  unfold census refs
  rcases hp : P.get p with _ | f
  · rw [hg hp]; rfl
  · rcases hp' : P'.get p with _ | f'
    · rfl
    · simp only [Option.map_some, Option.bind_some]
      rw [hn f f' hp hp']

theorem census_eq_of_refs (hg : P.get p = none → P'.get p = none)
    (hn : ∀ f f', P.get p = some f → P'.get p = some f' → f'.fid = f.fid)
    (hr : P'.refs p = P.refs p) : P'.census p = P.census p := by
  rw [census_of_refs hg hn, hr]
  unfold census refs
  cases P.get p <;> rfl

end FidPool

section

variable {S ans} {e : End}

variable {q : ℕ}

/-- **The fids after a handler**: those that were there, the request's own fid as it was
opened, and the one that was made. -/
theorem Handled.get_cases (h : Handled S ans tc e w w') (he : e ≠ .crash) (hw : w.Prepared tc)
    {f' : Npfid} (hf' : w'.conn.pool.get q = some f') :
    (∃ f, w.conn.pool.get q = some f ∧ f.Like (fun r => r = false ∨ tc.hangs = true)
      (e ≠ .stop ∨ w'.b.ecode = 0 ∨ w.InUse tc) f') ∨
    (tc.opens ≠ [] ∧ w.rfid = some q ∧ ∃ f, w.conn.pool.get q = some f ∧ f.Fresh ∧
      f.Open f' (e = .ok ∧ tc.refused S ans = false)) ∨
    (q = w.conn.pool.next ∧ e = .ok ∧ tc.makes = [f'.fid] ∧
      ∃ p f, w.rfid = some p ∧ w.conn.pool.get p = some f ∧ f.Copied f') := by
  rcases Nat.lt_or_ge q w.conn.pool.next with hq | hq
  · rcases hf : w.conn.pool.get q with _ | f
    · rw [h.loose.gone he q hq hf] at hf'
      cases hf'
    · by_cases hk : tc.opens = [] ∨ w.rfid ≠ some q
      · exact .inl ⟨f, rfl, h.loose.alike he q f f' hk hf hf'⟩
      · obtain ⟨ho, hr⟩ := not_or.mp hk
        rw [not_not] at hr
        obtain ⟨g, hg, hfr⟩ := hw.fresh ho q hr
        obtain rfl : g = f := Option.some.inj (hg.symm.trans hf)
        obtain ⟨g', hg', hop⟩ := h.own he ho q g hr hf hfr
        obtain rfl : g' = f' := Option.some.inj (hg'.symm.trans hf')
        exact .inr (.inl ⟨ho, hr, g, rfl, hfr, hop⟩)
  · obtain rfl : q = w.conn.pool.next := by
      have := FidPool.lt_next hf'
      have := h.next he
      omega
    obtain ⟨hok, hm, -, hp⟩ := h.made he f' hf'
    exact .inr (.inr ⟨rfl, hok, hm, hp⟩)

/-- Every fid is of one kind after a handler. -/
theorem Handled.kinded (h : Handled S ans tc e w w') (he : e ≠ .crash) (hw : w.Prepared tc) :
    w'.Kinded := by
  intro q f' hf'
  rcases h.get_cases he hw hf' with ⟨f, hf, hl⟩ | ⟨-, -, f, -, -, ho⟩ | ⟨-, -, -, p, f, -, hf, hc⟩
  · exact hl.kinded (hw.kinded q f hf)
  · exact ho.kinded
  · have hk := hw.kinded p f hf
    unfold Npfid.Kinded at hk ⊢
    rwa [hc.backend, hc.isTmp, hc.isAuth]

/-- **The census after a handler**, of the fids that were there. -/
theorem Handled.census (h : Handled S ans tc e w w') (he : e ≠ .crash) (hw : w.Prepared tc)
    (hq : q < w.conn.pool.next) :
    w'.conn.pool.census q = if w.rfid = some q then
        (tc.recount S ans e (w.conn.pool.refs q)).bind fun k =>
          (w.conn.pool.census q).map fun c => (c.1, k)
      else w.conn.pool.census q := by
  have hg := h.loose.gone he q hq
  have hn : ∀ f f', w.conn.pool.get q = some f → w'.conn.pool.get q = some f' →
      f'.fid = f.fid := by
    intro f f' hf hf'
    rcases h.get_cases he hw hf' with ⟨g, hg, hl⟩ | ⟨-, -, g, hg, -, ho⟩ | ⟨rfl, -⟩
    · obtain rfl : g = f := Option.some.inj (hg.symm.trans hf)
      exact hl.fid
    · obtain rfl : g = f := Option.some.inj (hg.symm.trans hf)
      exact ho.fid
    · exact absurd hq (lt_irrefl _)
  have hr := h.refs he q hq
  split
  · rename_i hp
    rw [FidPool.census_of_refs hg hn, hr, if_pos hp]
  · rename_i hp
    rw [if_neg hp] at hr
    exact FidPool.census_eq_of_refs hg hn hr

/-- The census after a handler, of the fid that it may have made. -/
theorem Handled.census_next (h : Handled S ans tc e w w') (he : e ≠ .crash) :
    w'.conn.pool.census w.conn.pool.next =
      if e = .ok then tc.makes.head?.map fun n => (n, 1) else none := by
  rcases hg : w'.conn.pool.get w.conn.pool.next with _ | g
  · rw [FidPool.census_of_none hg]
    split
    · rename_i hok
      by_cases hm : tc.makes = []
      · rw [hm]
        rfl
      · exact absurd hg (h.new hok hm)
    · rfl
  · obtain ⟨hok, hm, h1, -⟩ := h.made he g hg
    rw [FidPool.census_of_get hg, if_pos hok, hm, h1]
    rfl

end

/-! ### After the handler -/

/-- What is done with the request's fid at the end. -/
theorem npReqUnref_eq_ok (h : npReqUnref H w = (.ok u, w')) :
    (w.rfid = none ∧ w' = w) ∨ ∃ p f w₁, w.rfid = some p ∧ w.conn.pool.get p = some f ∧
      Released f p .ok w w₁ ∧ w' = { w₁ with rfid := none } := by
  rw [npReqUnref, read_bind] at h
  rcases hr : w.rfid with _ | p
  · rw [hr] at h
    exact .inl ⟨rfl, (Prod.mk.inj h).2.symm⟩
  · rw [hr] at h
    obtain ⟨b, w₁, hd, h₁⟩ := bind_eq_ok h
    obtain ⟨-, rfl⟩ := Prod.mk.inj h₁
    rcases hf : w.conn.pool.get p with _ | f
    · rw [npFidDecref, bind_of_crash (deref_of_none hf)] at hd
      cases hd
    · exact .inr ⟨p, f, w₁, rfl, hf, (npFidDecref_does H hf).of_eq hd, rfl⟩

/-- One reference less, in the census. -/
def lessOne (c : UInt32 × ℕ) : Option (UInt32 × ℕ) := if c.2 = 1 then none else some (c.1, c.2 - 1)

/-- The census with a reference less on the request's fid. -/
def World.released (w : World σ) : ℕ → Option (UInt32 × ℕ) :=
  match w.rfid with
  | none => w.conn.pool.census
  | some p => Function.update w.conn.pool.census p ((w.conn.pool.census p).bind lessOne)

theorem npReqUnref_census (h : npReqUnref H w = (.ok u, w')) :
    w'.conn.pool.census = w.released := by
  unfold World.released
  rcases npReqUnref_eq_ok H h with ⟨hr, rfl⟩ | ⟨p, f, w₁, hr, hf, hrel, rfl⟩
  · rw [hr]
  · rw [hr]
    change w₁.conn.pool.census = _
    rw [hrel.conn (by simp)]
    refine (FidPool.census_decref hf).trans (congrArg _ ?_)
    rw [FidPool.census_of_get hf, Option.bind_some]
    rfl

/-- A call that is made when a fid is destroyed. -/
def World.Closes (w : World σ) (v : Event) : Prop :=
  ∃ p f, w.conn.pool.get p = some f ∧ Diod.Closes f w.wt.k.fsuid v

/-- The scope of what is done after the handler. -/
def postScope (w : World σ) : Scope where
  emits := w.Closes
  clean := false

/-- What is done after the handler only closes fids. -/
theorem npFidDecref_loose {b : Bool} (h : npFidDecref H p w = (.ok b, w')) :
    Loose (postScope w) .ok w w' ∧ w'.conn.pool.next = w.conn.pool.next ∧ w'.wt = w.wt := by
  rcases hf : w.conn.pool.get p with _ | f
  · rw [npFidDecref, bind_of_crash (deref_of_none hf)] at h
    cases h
  · have hr := (npFidDecref_does H hf).of_eq h
    refine ⟨hr.loose hf (fun h => by cases h) fun v _ hv => ⟨p, f, hf, hv⟩, ?_, hr.wt⟩
    rw [hr.conn (by simp)]
    exact FidPool.next_decref ..

theorem npReqUnref_loose (h : npReqUnref H w = (.ok u, w')) :
    Loose (postScope w) .ok w w' ∧ w'.conn.pool.next = w.conn.pool.next := by
  rw [npReqUnref, read_bind] at h
  rcases hr : w.rfid with _ | p
  · rw [hr] at h
    obtain ⟨-, rfl⟩ := Prod.mk.inj h
    exact ⟨(Mild.refl .ok w).loose, rfl⟩
  · rw [hr] at h
    obtain ⟨b, w₁, hd, h₁⟩ := bind_eq_ok h
    obtain ⟨-, rfl⟩ := Prod.mk.inj h₁
    obtain ⟨hl, hn, -⟩ := npFidDecref_loose H hd
    exact ⟨hl.of_rfid none, hn⟩

theorem interrupted_loose (h : interrupted H tc w = (.ok u, w')) :
    Loose (postScope w) .ok w w' ∧ w'.conn.pool.next = w.conn.pool.next ∧ w'.wt = w.wt := by
  have hrefl : Loose (postScope w) .ok w w := (Mild.refl .ok w).loose
  cases tc with
  | tclunk n =>
    obtain ⟨-, rfl⟩ := Prod.mk.inj h
    exact ⟨hrefl.of_rfid none, rfl, rfl⟩
  | tremove n =>
    obtain ⟨-, rfl⟩ := Prod.mk.inj h
    exact ⟨hrefl.of_rfid none, rfl, rfl⟩
  | twalk fid newfid wnames =>
    have h : Prog.when (fid ≠ newfid) (npFidDecrefBynum H newfid) w = (.ok u, w') := h
    by_cases hne : fid = newfid
    · rw [Prog.when, if_neg (not_not.mpr hne)] at h
      obtain ⟨-, rfl⟩ := Prod.mk.inj h
      exact ⟨hrefl, rfl, rfl⟩
    · rw [Prog.when, if_pos hne, npFidDecrefBynum, read_bind] at h
      rcases hl : w.conn.pool.lookup newfid with _ | ⟨p, f⟩
      · rw [hl] at h
        obtain ⟨-, rfl⟩ := Prod.mk.inj h
        exact ⟨hrefl, rfl, rfl⟩
      · rw [hl] at h
        obtain ⟨b, w₁, hd, h₁⟩ := bind_eq_ok h
        obtain ⟨-, rfl⟩ := Prod.mk.inj h₁
        exact npFidDecref_loose H hd
  | _ =>
    obtain ⟨-, rfl⟩ := Prod.mk.inj h
    exact ⟨hrefl, rfl, rfl⟩

/-- A call that closes a fid closes one that was there before. -/
theorem World.Closes.of_loose {C : Scope} {v : Event} (h : Loose C .ok w w₁)
    (hn : w₁.conn.pool.next = w.conn.pool.next) (ht : w₁.wt = w.wt) (hk : ∀ q, C.keeps q)
    (ha : ∀ r, ¬C.attr r) (hv : w₁.Closes v) : w.Closes v := by
  obtain ⟨p, f', hf', hb, c, err, rfl, hc⟩ := hv
  rcases hf : w.conn.pool.get p with _ | f
  · rw [h.gone (by simp) p (hn ▸ FidPool.lt_next hf') hf] at hf'
    cases hf'
  · have hl := h.alike (by simp) p f f' (hk p) hf hf'
    refine ⟨p, f, hf, hl.backend ▸ hb, c, err, ?_, hc.imp id fun hp => ?_⟩
    · rw [hl.uid, ht]
    · exact (hl.pending hp).resolve_right (ha _)

/-- What is sent does not matter to the state. -/
theorem answer_eq_ok (h : answer ecode rc w = (.ok reply, w')) :
    w' = w ∧ reply = (if ecode = EINTR then none
      else if ecode ≠ 0 then some (.rlerror (.ofNat ecode)) else rc) := by
  unfold answer at h
  split at h
  · rename_i he
    obtain ⟨hm, rfl⟩ := Prod.mk.inj h
    exact ⟨rfl, by rw [if_pos he, ← Res.ok.inj hm]⟩
  · rename_i he
    rw [if_neg he]
    split at h
    · rename_i h0
      obtain ⟨hm, rfl⟩ := Prod.mk.inj h
      exact ⟨rfl, by rw [if_pos h0, ← Res.ok.inj hm]⟩
    · rename_i h0
      rw [if_neg h0]
      rcases rc with _ | m
      · cases h
      · obtain ⟨hm, rfl⟩ := Prod.mk.inj h
        exact ⟨rfl, (Res.ok.inj hm).symm⟩

/-- **What is done after the handler**: fids are closed. -/
theorem npPostprocessRequest_loose (h : npPostprocessRequest H tc ecode rc w = (.ok reply, w')) :
    Loose (postScope w) .ok w w' ∧ w'.conn.pool.next = w.conn.pool.next ∧ w'.rfid = none := by
  obtain ⟨_, w₁, h₁, h⟩ := bind_eq_ok h
  obtain ⟨_, w₂, h₂, h₃⟩ := bind_eq_ok h
  obtain ⟨rfl, -⟩ := answer_eq_ok h₃
  have hi : Loose (postScope w) .ok w w₁ ∧ w₁.conn.pool.next = w.conn.pool.next ∧
      w₁.wt = w.wt := by
    by_cases he : ecode = EINTR
    · rw [Prog.when, if_pos he] at h₁
      exact interrupted_loose H h₁
    · rw [Prog.when, if_neg he] at h₁
      obtain ⟨-, rfl⟩ := Prod.mk.inj h₁
      exact ⟨(Mild.refl .ok w).loose, rfl, rfl⟩
  obtain ⟨hl, hn, ht⟩ := hi
  obtain ⟨hl', hn'⟩ := npReqUnref_loose H h₂
  refine ⟨hl.trans hl' (.refl _ _) ?_, hn'.trans hn, ?_⟩
  · exact ⟨fun v hv => hv.of_loose hl hn ht (fun _ => trivial) fun _ => id, fun _ => id, id,
      fun _ => id, id, id⟩
  · rcases npReqUnref_eq_ok H h₂ with ⟨hr, rfl⟩ | ⟨p, f, w₃, -, -, -, rfl⟩
    · exact hr
    · rfl

/-- How a request ends that was not interrupted, or that gives no fid back then. -/
theorem npPostprocessRequest_census (h : npPostprocessRequest H tc ecode rc w = (.ok reply, w'))
    (hw : ecode = EINTR → ∀ n ∈ tc.makes, w.conn.pool.lookup n = none) :
    w'.conn.pool.census =
      if ecode = EINTR ∧ tc.drops = true then w.conn.pool.census else w.released := by
  obtain ⟨_, w₁, h₁, h⟩ := bind_eq_ok h
  obtain ⟨_, w₂, h₂, h₃⟩ := bind_eq_ok h
  obtain ⟨rfl, -⟩ := answer_eq_ok h₃
  rw [npReqUnref_census H h₂]
  by_cases he : ecode = EINTR
  · rw [Prog.when, if_pos he] at h₁
    cases tc with
    | tclunk =>
      obtain ⟨-, rfl⟩ := Prod.mk.inj h₁
      rw [if_pos ⟨he, rfl⟩]
      rfl
    | tremove =>
      obtain ⟨-, rfl⟩ := Prod.mk.inj h₁
      rw [if_pos ⟨he, rfl⟩]
      rfl
    | twalk fid newfid wnames =>
      have hw₁ : w₁ = w := by
        have h₁ : Prog.when (fid ≠ newfid) (npFidDecrefBynum H newfid) w = _ := h₁
        by_cases hne : fid = newfid
        · rw [Prog.when, if_neg (not_not.mpr hne)] at h₁
          exact (Prod.mk.inj h₁).2.symm
        · have hl := hw he newfid (by simp [Fcall.makes, hne])
          rw [Prog.when, if_pos hne, npFidDecrefBynum, read_bind, hl] at h₁
          exact (Prod.mk.inj h₁).2.symm
      rw [if_neg (by simp [Fcall.drops]), hw₁]
    | _ =>
      obtain ⟨-, rfl⟩ := Prod.mk.inj h₁
      rw [if_neg (by simp [Fcall.drops])]
  · rw [Prog.when, if_neg he] at h₁
    obtain ⟨-, rfl⟩ := Prod.mk.inj h₁
    rw [if_neg fun h => he h.1]

/-- What `np_process_request` returns comes from the handler. -/
theorem npProcessRequest_eq_ok (hw : w.Prepared tc)
    (h : npProcessRequest H S ans tc w = (.ok rc, w')) :
    ∃ r : Res Msg, handler H S ans tc { w with b := { w.b with ecode := 0 } } = (r, w') ∧
      r.ending ≠ .crash ∧ r.result = rc ∧
      Handled S ans tc r.ending { w with b := { w.b with ecode := 0 } } w' := by
  have hd := handler_does H S ans (w := { w with b := { w.b with ecode := 0 } })
    ⟨hw.kinded, hw.fresh⟩
  have h : (handler H S ans tc).attempt { w with b := { w.b with ecode := 0 } } = (.ok rc, w') := h
  rcases attempt_eq_ok h with ⟨m, rfl, hx⟩ | ⟨rfl, hx⟩
  · exact ⟨_, hx, by simp, rfl, hd.of_eq hx⟩
  · exact ⟨_, hx, by simp, rfl, hd.of_eq hx⟩

/-- A request whose fid is not there fails. -/
theorem handler_of_none (hr : w.rfid = none) (h : tc.reqFid ≠ none ∨ tc.opens ≠ [])
    (hq : tc.refused S ans = false) : ∃ w', handler H S ans tc w = (.stop, w') := by
  have hp : (reqPtr : Prog (World σ) ℕ) w = (.stop, { w with b := { w.b with ecode := EIO } }) :=
    reqPtr_of_none hr
  have hf : (reqFid : Prog (World σ) _) w = (.stop, { w with b := { w.b with ecode := EIO } }) :=
    bind_of_stop hp
  have hd : npFidDecrefReq H { w with b := { w.b with ecode := EIO } } =
      (.ok (), { w with b := { w.b with ecode := EIO } }) := by
    rw [npFidDecrefReq, read_bind]
    simp only [hr]
    rfl
  have hx : ∀ y : ℕ × Npfid → Prog (World σ) Msg, ∃ w',
      Prog.done (reqFid >>= y) (fun _ => npFidDecrefReq H) w = (.stop, w') := fun y =>
    ⟨_, done_of_ok (y := fun _ => npFidDecrefReq H) (bind_of_stop hf) (by simp) hd⟩
  cases tc with
  | tauth n uname aname nUname =>
    have hq : ¬(!S.conf.diodAuthRequired ans.mem aname) = true := by
      simpa [Fcall.refused] using hq
    have h : handler H S ans (.tauth n uname aname nUname) w = (do
        let p ← reqPtr
        npFidIncref p
        let u ← npAttach2user ans uname nUname
        updateFid p fun f => { f with user := some u }
        updateFid p fun f => { f with type := Qtauth }
        let f ← deref p
        failIf (f.aux ≠ .null) EIO
        makeAux authAux p ⟨none⟩ (Op.startauth H)
        allocOr H ENOMEM
        pure (.rauth ⟨Qtauth, 0, 0⟩) : Prog (World σ) Msg) w := by
      rw [handler, npAuth, if_neg hq]
    exact ⟨_, h.trans (bind_of_stop hp)⟩
  | tattach => exact ⟨_, bind_of_stop hp⟩
  | tlink => exact ⟨_, bind_of_stop hp⟩
  | twalk => exact ⟨_, bind_of_stop (bind_of_stop hf)⟩
  | txattrwalk => exact ⟨_, bind_of_stop (bind_of_stop hf)⟩
  | tlcreate => exact ⟨_, bind_of_stop (bind_of_stop hf)⟩
  | tclunk => exact hx _
  | tremove => exact hx _
  | _ =>
    first
      | exact ⟨_, bind_of_stop hf⟩
      | exact absurd h (by simp [Fcall.reqFid, Fcall.opens])

/-- A `Tauth` that is refused has an error for a reply. -/
theorem handler_of_refused (hq : tc.refused S ans = true)
    (h : handler H S ans tc w = (.ok m, w')) : ∃ e, m = .rlerror e := by
  cases tc with
  | tauth n uname aname nUname =>
    have hq : (!S.conf.diodAuthRequired ans.mem aname) = true := hq
    rw [handler, npAuth, if_pos hq] at h
    obtain ⟨_, w₁, -, h₁⟩ := bind_eq_ok h
    obtain ⟨hm, -⟩ := Prod.mk.inj h₁
    exact ⟨_, (Res.ok.inj hm).symm⟩
  | _ => cases hq

/-! ### A request from its receipt to its reply -/

/-- **A request is served**, with what its handler returned and the error number at that
point. A `Tflush` is answered by the receive thread. -/
def Served (tc : Msg) (w : World σ) (rc : Option Msg) (ecode : ℕ) (reply : Option Msg)
    (w' : World σ) : Prop :=
  match tc with
  | .tflush _ => rc = some .rflush ∧ ecode = 0 ∧ reply = some .rflush ∧ w' = w
  | tc => ∃ w₁ w₂, npPreprocessRequest H S tc w = (.ok (), w₁) ∧
      npProcessRequest H S ans tc w₁ = (.ok rc, w₂) ∧ w₂.b.ecode = ecode ∧
      npPostprocessRequest H tc ecode rc w₂ = (.ok reply, w')

variable {H S ans} in
/-- A `Tflush`, or the three parts of any other request. -/
theorem Served.cases (hs : Served H S ans tc w rc ecode reply w') :
    (∃ t, tc = .tflush t) ∧ rc = some .rflush ∧ ecode = 0 ∧ w' = w ∨
      (∀ t, tc ≠ .tflush t) ∧ ∃ w₁ w₂, npPreprocessRequest H S tc w = (.ok (), w₁) ∧
        npProcessRequest H S ans tc w₁ = (.ok rc, w₂) ∧ w₂.b.ecode = ecode ∧
        npPostprocessRequest H tc ecode rc w₂ = (.ok reply, w') := by
  by_cases hf : ∃ t, tc = .tflush t
  · obtain ⟨t, rfl⟩ := hf
    obtain ⟨hrc, he, -, hw⟩ := hs
    exact .inl ⟨⟨t, rfl⟩, hrc, he, hw⟩
  · refine .inr ⟨fun t ht => hf ⟨t, ht⟩, ?_⟩
    cases tc <;> first | exact hs | exact absurd ⟨_, rfl⟩ hf

/-- The parts of `Diod.serve`. -/
theorem serve_eq_ok (h : serve H S ans tc w = (.ok reply, w')) :
    ∃ rc ecode, Served H S ans tc w rc ecode reply w' := by
  by_cases hf : ∃ t, tc = .tflush t
  · obtain ⟨t, rfl⟩ := hf
    obtain ⟨hm, rfl⟩ := Prod.mk.inj h
    exact ⟨_, _, rfl, rfl, (Res.ok.inj hm).symm, rfl⟩
  · have h : (npPreprocessRequest H S tc >>= fun _ => npProcessRequest H S ans tc >>= fun rc =>
        Prog.read >>= fun w => npPostprocessRequest H tc w.b.ecode rc) w = (.ok reply, w') := by
      cases tc <;> first | exact h | exact absurd ⟨_, rfl⟩ hf
    obtain ⟨_, w₁, h₁, h⟩ := bind_eq_ok h
    obtain ⟨rc, w₂, h₂, h⟩ := bind_eq_ok h
    refine ⟨rc, w₂.b.ecode, ?_⟩
    cases tc <;> first | exact ⟨w₁, w₂, h₁, h₂, rfl, h⟩ | exact absurd ⟨_, rfl⟩ hf

/-- Who is there: the fids of a connection, by their addresses. -/
def World.live (w : World σ) (p : ℕ) : Option UInt32 := (w.conn.pool.get p).map (·.fid)

/-- **The fids that come and go with a request that succeeds.** -/
def Fcall.Changes (tc : Msg) (l l' : ℕ → Option UInt32) : Prop :=
  let adds n := ∃ p, l p = none ∧ l' = Function.update l p (some n)
  let removes n := ∃ p, l p = some n ∧ l' = Function.update l p none
  match tc with
  | .tattach n _ _ _ _ | .tauth n _ _ _ | .txattrwalk _ n _ => adds n
  | .twalk fid n _ => if fid = n then l' = l else adds n
  | .tclunk n | .tremove n => removes n
  | _ => l' = l

section

variable (hr : w.rfid = none) (hk : w.Kinded)

variable {C : Scope} {e : End}

include hk in
theorem Loose.kinded (h : Loose C e w w') (he : e ≠ .crash) (hC : ∀ q < w.conn.pool.next, C.keeps q)
    (hn : ∀ q f, w.conn.pool.next ≤ q → w'.conn.pool.get q = some f → f.Kinded) : w'.Kinded := by
  intro q f' hf'
  rcases Nat.lt_or_ge q w.conn.pool.next with hq | hq
  · rcases hf : w.conn.pool.get q with _ | f
    · rw [h.gone he q hq hf] at hf'
      cases hf'
    · exact (h.alike he q f f' (hC q hq) hf hf').kinded (hk q f hf)
  · exact hn q f' hq hf'

include hr hk in
/-- A request that has been received can be handled. -/
theorem Received.prepared {w₁ : World σ} (h : Received tc w w₁) : w₁.Prepared tc := by
  refine ⟨h.loose.kinded hk (by simp) (fun _ _ => trivial) fun q f hq hf => ?_, fun ho p hp => ?_⟩
  · obtain ⟨-, n, a, -, rfl⟩ := h.new hq hf
    trivial
  · cases h with
    | found hn => exact absurd (Fcall.opens_of_reqFid hn) ho
    | missing ho' => exact absurd ho' ho
    | opened hn hl hr' hx hf hg =>
      rw [hr'] at hp
      cases hp
      exact ⟨_, hg, rfl, rfl⟩
    | failed hn hl hr' =>
      rw [hr', hr] at hp
      cases hp

/-- A number that is not in use is not in use afterwards, if no new fid has it. -/
theorem Loose.lookup_none {n : UInt32} (h : Loose C e w w') (he : e ≠ .crash)
    (hC : ∀ q < w.conn.pool.next, C.keeps q)
    (hn : ∀ q f, w.conn.pool.next ≤ q → w'.conn.pool.get q = some f → f.fid ≠ n)
    (hl : w.conn.pool.lookup n = none) : w'.conn.pool.lookup n = none := by
  rw [FidPool.lookup_eq_none] at hl ⊢
  intro q f' hf' hfn
  rcases Nat.lt_or_ge q w.conn.pool.next with hq | hq
  · rcases hf : w.conn.pool.get q with _ | f
    · rw [h.gone he q hq hf] at hf'
      cases hf'
    · have hlk := h.alike he q f f' (hC q hq) hf hf'
      exact hlk.zombie (hl q f hf (hlk.fid.symm.trans hfn))
  · exact absurd hfn (hn q f' hq hf')

end

theorem FidPool.census_update_next {P P' : FidPool}
    (hn : P'.next ≤ P.next + 1) (h : ∀ q < P.next, P'.census q = P.census q)
    (hx : P'.census P.next = x) : P'.census = Function.update P.census P.next x := by
  funext q
  rcases eq_or_ne q P.next with rfl | hne
  · rw [Function.update_self, hx]
  · rw [Function.update_of_ne hne]
    rcases Nat.lt_or_ge q P.next with hq | hq
    · exact h q hq
    · rw [FidPool.census_of_none (P'.heap.fresh q (by have : P'.heap.next = P'.next := rfl; omega)),
        FidPool.census_of_none (P.heap.fresh q hq)]

theorem FidPool.census_next (P : FidPool) : P.census P.next = none :=
  FidPool.census_of_none P.get_next

/-- The census when a request's fid has been made, or not. -/
theorem Received.census_new (h : Received tc w w₁) (hx : w₁.conn.pool.next ≤ w.conn.pool.next + 1)
    (hf : ∀ q < w.conn.pool.next, w₁.conn.pool.refs q = w.conn.pool.refs q)
    (hg : w₁.conn.pool.census w.conn.pool.next = x) :
    w₁.conn.pool.census = Function.update w.conn.pool.census w.conn.pool.next x :=
  FidPool.census_update_next hx (fun q hq => FidPool.census_eq_of_refs
    (h.loose.gone (by simp) q hq)
    (fun f f' hf hf' => (h.loose.alike (by simp) q f f' trivial hf hf').fid) (hf q hq)) hg

section

variable {S ans} {w₁ w₂ : World σ} {e : End} {q k : ℕ} {n : UInt32}

variable {P : FidPool}

theorem FidPool.refs_of_census (h : P.census q = some (n, k)) : P.refs q = some k := by
  unfold FidPool.census at h
  unfold FidPool.refs
  rcases hg : P.get q with _ | g
  · rw [hg] at h; cases h
  · rw [hg] at h
    cases h
    rfl

theorem FidPool.lt_next_of_census {c : UInt32 × ℕ} (h : P.census q = some c) : q < P.next := by
  obtain ⟨g, hg, -⟩ := Option.map_eq_some_iff.mp h
  exact FidPool.lt_next hg

/-- **The census after the handler of a request with a fid.** -/
theorem Handled.census_some (h : Handled S ans tc e w₁ w₂) (he : e ≠ .crash)
    (hw : w₁.Prepared tc) (hr : w₁.rfid = some q) (hc : w₁.conn.pool.census q = some (n, k)) :
    w₂.conn.pool.census = Function.update (Function.update w₁.conn.pool.census q
      ((tc.recount S ans e (some k)).map fun k => (n, k))) w₁.conn.pool.next
      (if e = .ok then tc.makes.head?.map fun n => (n, 1) else none) := by
  have hq := FidPool.lt_next_of_census hc
  funext q'
  rcases eq_or_ne q' w₁.conn.pool.next with rfl | hne
  · rw [Function.update_self, h.census_next he]
  rw [Function.update_of_ne hne]
  rcases Nat.lt_or_ge q' w₁.conn.pool.next with hq' | hq'
  · rw [h.census he hw hq', hr]
    rcases eq_or_ne q' q with rfl | hqq
    · rw [if_pos rfl, Function.update_self, hc, FidPool.refs_of_census hc]
      cases tc.recount S ans e (some k) <;> rfl
    · rw [if_neg fun h => hqq (Option.some.inj h).symm, Function.update_of_ne hqq]
  · rw [Function.update_of_ne (hq.trans_le hq').ne',
      FidPool.census_of_none (w₁.conn.pool.heap.fresh q' hq')]
    refine FidPool.census_of_none (w₂.conn.pool.heap.fresh q' ?_)
    have hn : w₂.conn.pool.heap.next ≤ w₁.conn.pool.next + 1 := h.next he
    omega

/-- The census after the handler of a request without one. -/
theorem Handled.census_none (h : Handled S ans tc e w₁ w₂) (he : e ≠ .crash)
    (hw : w₁.Prepared tc) (hr : w₁.rfid = none) : w₂.conn.pool.census = w₁.conn.pool.census := by
  refine (FidPool.census_update_next (h.next he) (fun q hq => ?_) (x := none) ?_).trans ?_
  · rw [h.census he hw hq, hr, if_neg (by simp)]
  · rcases hg : w₂.conn.pool.get w₁.conn.pool.next with _ | g
    · exact FidPool.census_of_none hg
    · obtain ⟨-, -, -, p, f, hp, -⟩ := h.made he g hg
      rw [hr] at hp
      cases hp
  · rw [← FidPool.census_next, Function.update_eq_self]

/-- The request keeps its fid, if that is still there. -/
theorem Handled.rfid_some (h : Handled S ans tc e w₁ w₂) (he : e ≠ .crash)
    (hr : w₁.rfid = some q) (hc : w₂.conn.pool.census q ≠ none) : w₂.rfid = some q := by
  rw [h.rfid he, hr, if_neg]
  rintro ⟨-, hg⟩
  exact hc (FidPool.census_of_none hg)

theorem Handled.rfid_none (h : Handled S ans tc e w₁ w₂) (he : e ≠ .crash)
    (hr : w₁.rfid = none) : w₂.rfid = none := by
  rw [h.rfid he, hr]
  split <;> rfl

end

/-! ### The fids that come and go -/

/-- **A connection on which nothing is going on**: no request has a fid, and each fid has
one reference. -/
structure World.Idle (w : World σ) : Prop where
  rfid : w.rfid = none
  kinded : w.Kinded
  one : ∀ p f, w.conn.pool.get p = some f → f.refcount = 1

theorem World.Idle.census (hw : w.Idle) (hf : w.conn.pool.get p = some f) :
    w.conn.pool.census p = some (f.fid, 1) := by
  rw [FidPool.census_of_get hf, hw.one p f hf]

namespace Fcall

theorem creates_eq (tc : Msg) : tc.creates = [] ∨ (∃ n, tc.opens = [n] ∧ tc.makes = []) ∨
    ∃ n, tc.opens = [] ∧ tc.makes = [n] := by
  cases tc with
  | twalk fid newfid wnames =>
    by_cases h : fid = newfid
    · exact .inl (by simp [creates, opens, makes, h])
    · exact .inr (.inr ⟨newfid, rfl, by simp [makes, h]⟩)
  | tauth n => exact .inr (.inl ⟨n, rfl, rfl⟩)
  | tattach n => exact .inr (.inl ⟨n, rfl, rfl⟩)
  | txattrwalk _ n => exact .inr (.inr ⟨n, rfl, rfl⟩)
  | _ => exact .inl rfl

variable {n : UInt32}

theorem drops_of_makes {tc : Msg} (h : n ∈ tc.makes) : tc.drops = false := by
  cases tc <;> first | rfl | cases h

theorem opens_of_makes {tc : Msg} (h : n ∈ tc.makes) : tc.opens = [] := by
  rcases tc.creates_eq with hc | ⟨m, -, hm⟩ | ⟨m, ho, -⟩
  · exact (List.append_eq_nil_iff.mp hc).1
  · rw [hm] at h
    cases h
  · exact ho

theorem makes_of_opens {tc : Msg} (h : tc.opens = [n]) : tc.makes = [] := by
  rcases tc.creates_eq with hc | ⟨m, -, hm⟩ | ⟨m, ho, -⟩
  · exact (List.append_eq_nil_iff.mp hc).2
  · exact hm
  · rw [ho] at h
    cases h

theorem drops_of_opens {tc : Msg} (h : tc.opens = [n]) : ¬tc.drops = true := by
  intro hd
  rw [(opens_of_drops hd).1] at h
  cases h

end Fcall

section

variable {S ans} {w₁ w₂ : World σ} {e : End}

variable {n : UInt32}

/-- A request whose fid was found. -/
theorem found_released {q : ℕ} {g : Npfid} (hw : w.Idle) (hn : tc.reqFid = some n)
    (hl : w.conn.pool.lookup n = some (q, g)) (hd : Handled S ans tc e w₁ w₂) (he : e ≠ .crash)
    (hp : w₁.Prepared tc) (hr : w₁.rfid = some q) (hc : w₁.conn.pool = w.conn.pool.incref q) :
    w.conn.pool.census q = some (n, 1) ∧
      if tc.drops = true then w₂.conn.pool.census = w.conn.pool.census ∧
        w₂.released = Function.update w.conn.pool.census q none
      else w₂.released = Function.update w.conn.pool.census w.conn.pool.next
        (if e = .ok then tc.makes.head?.map fun n => (n, 1) else none) := by
  obtain ⟨hg, hgn, -⟩ := FidPool.get_of_lookup hl
  have hcq : w.conn.pool.census q = some (n, 1) := by rw [hw.census hg, hgn]
  have hqn : q ≠ w.conn.pool.next := (FidPool.lt_next hg).ne
  have hc₁ : w₁.conn.pool.census = Function.update w.conn.pool.census q (some (n, 2)) := by
    rw [hc, FidPool.census_incref hg, hgn, hw.one q g hg]
  have hx₁ : w₁.conn.pool.next = w.conn.pool.next := by rw [hc, FidPool.next_incref]
  have hc₂ := hd.census_some he hp hr (n := n) (k := 2) (by rw [hc₁, Function.update_self])
  rw [hc₁, hx₁, Function.update_idem] at hc₂
  refine ⟨hcq, ?_⟩
  have hrel : w₂.conn.pool.census q ≠ none →
      w₂.released = Function.update w₂.conn.pool.census q ((w₂.conn.pool.census q).bind lessOne) :=
    fun h => by rw [World.released, hd.rfid_some he hr h]
  split
  · rename_i hdr
    have hm : tc.makes = [] := (Fcall.opens_of_drops hdr).2
    rw [Fcall.recount_drops hdr, hm] at hc₂
    have h₂ : w₂.conn.pool.census = w.conn.pool.census := by
      rw [hc₂]
      have : (oneLess (some 2)).map (fun k => (n, k)) = w.conn.pool.census q := by
        rw [hcq]
        rfl
      rw [this, Function.update_eq_self, List.head?_nil, Option.map_none, ite_self,
        ← FidPool.census_next, Function.update_eq_self]
    refine ⟨h₂, ?_⟩
    rw [hrel (by rw [h₂, hcq]; simp), h₂, hcq]
    rfl
  · rename_i hdr
    rw [Bool.not_eq_true] at hdr
    rw [Fcall.recount_plain (Fcall.opens_of_reqFid hn) hdr, Option.map_some] at hc₂
    have hq₂ : w₂.conn.pool.census q = some (n, 2) := by
      rw [hc₂, Function.update_of_ne hqn, Function.update_self]
    rw [hrel (by rw [hq₂]; simp), hq₂, hc₂, Function.update_comm hqn.symm,
      Function.update_idem]
    have : (some (n, 2)).bind lessOne = w.conn.pool.census q := by
      rw [hcq]
      rfl
    rw [this, Function.update_eq_self]

/-- A request whose fid was made. -/
theorem opened_released (ho : tc.opens = [n]) (hm : tc.makes = [])
    (hd : Handled S ans tc e w₁ w₂) (he : e ≠ .crash) (hp : w₁.Prepared tc)
    (hr : w₁.rfid = some w.conn.pool.next) (hx : w₁.conn.pool.next = w.conn.pool.next + 1)
    (hc : w₁.conn.pool.census =
      Function.update w.conn.pool.census w.conn.pool.next (some (n, 1))) :
    w₂.released = Function.update w.conn.pool.census w.conn.pool.next
      (if tc.recount S ans e (some 1) = some 2 then some (n, 1) else none) := by
  have hc₂ := hd.census_some he hp hr (n := n) (k := 1) (by rw [hc, Function.update_self])
  have hne : w.conn.pool.next ≠ w.conn.pool.next + 1 := by omega
  have hlast : w.conn.pool.census (w.conn.pool.next + 1) = none :=
    FidPool.census_of_none (w.conn.pool.heap.fresh _ (Nat.le_succ _))
  -- nothing is made at the next address but one
  have hc₂ : w₂.conn.pool.census = Function.update w.conn.pool.census w.conn.pool.next
      ((tc.recount S ans e (some 1)).map fun k => (n, k)) := by
    rw [hc₂, hm, hc, hx, Function.update_idem, List.head?_nil, Option.map_none, ite_self,
      Function.update_comm hne]
    congr 1
    rw [← hlast, Function.update_eq_self]
  have hrc : tc.recount S ans e (some 1) = some 1 ∨ tc.recount S ans e (some 1) = some 2 := by
    cases tc <;> first
      | exact .inl rfl
      | (cases ho; done)
      | (simp only [Fcall.recount]; split <;> simp)
  have hq₂ : w₂.conn.pool.census w.conn.pool.next =
      (tc.recount S ans e (some 1)).map fun k => (n, k) := by rw [hc₂, Function.update_self]
  rw [World.released, hd.rfid_some he hr (by rw [hq₂]; rcases hrc with h | h <;> simp [h])]
  dsimp only
  rw [hq₂, hc₂, Function.update_idem]
  rcases hrc with h | h <;> rw [h] <;> rfl

end

/-- The parts of a request that is served, with what its handler does. -/
theorem Served.handled
    (hs : Served H S ans tc w rc ecode reply w') (hf : ∀ t, tc ≠ .tflush t) (hr : w.rfid = none)
    (hk : w.Kinded) :
    ∃ (w₁ w₂ : World σ) (r : Res Msg), Received tc w w₁ ∧ w₁.Prepared tc ∧
      handler H S ans tc { w₁ with b := { w₁.b with ecode := 0 } } = (r, w₂) ∧
      r.ending ≠ .crash ∧ r.result = rc ∧
      Handled S ans tc r.ending { w₁ with b := { w₁.b with ecode := 0 } } w₂ ∧
      w₂.b.ecode = ecode ∧ npPostprocessRequest H tc ecode rc w₂ = (.ok reply, w') := by
  obtain ⟨⟨t, ht⟩, -⟩ | ⟨-, w₁, w₂, h₁, h₂, h₃, h₄⟩ := hs.cases
  · exact absurd ht (hf t)
  have hrec := npPreprocessRequest_received H S h₁ hr
  have hp := hrec.prepared hr hk
  obtain ⟨r, hx, hne, hres, hd⟩ := npProcessRequest_eq_ok H S ans hp h₂
  exact ⟨w₁, w₂, r, hrec, hp, hx, hne, hres, hd, h₃, h₄⟩

/-- A number that a request is to make a fid with is not in use after it has failed. -/
theorem lookup_of_failed (hrec : Received tc w w₁)
    (hn : n ∈ tc.makes) (hl : w.conn.pool.lookup n = none)
    (hd : Handled S ans tc .stop { w₁ with b := { w₁.b with ecode := 0 } } w₂) :
    w₂.conn.pool.lookup n = none := by
  have ho := Fcall.opens_of_makes hn
  have h₁ : w₁.conn.pool.lookup n = none :=
    hrec.loose.lookup_none (by simp) (fun _ _ => trivial) (fun q f hq hf => by
      obtain ⟨-, m, a, hm, -⟩ := hrec.new hq hf
      rw [ho] at hm
      cases hm) hl
  refine hd.loose.lookup_none (by simp) (fun _ _ => .inl ho) (fun q f hq hf => ?_) h₁
  have hlt := FidPool.lt_next hf
  have hx := hd.next (by simp)
  obtain rfl : q = w₁.conn.pool.next := by
    change w₁.conn.pool.next ≤ q at hq
    change w₂.conn.pool.next ≤ w₁.conn.pool.next + 1 at hx
    omega
  cases (hd.made (by simp) f hf).1

/-- What is left when the request is done with, in the census. A request that makes a fid has no
error when it succeeds. -/
theorem Handled.census_post {e : End}
    (hd : Handled S ans tc e { w₁ with b := { w₁.b with ecode := 0 } } w₂)
    (hne : e ≠ .crash) (hrec : Received tc w w₁)
    (h : npPostprocessRequest H tc w₂.b.ecode rc w₂ = (.ok reply, w'))
    (hn : w₂.b.ecode = EINTR → ∀ n ∈ tc.makes, w.conn.pool.lookup n = none) :
    w'.conn.pool.census =
      if w₂.b.ecode = EINTR ∧ tc.drops = true then w₂.conn.pool.census else w₂.released := by
  refine npPostprocessRequest_census H h fun he n hm => ?_
  rcases e with _ | _ | _
  · have h0 := hd.loose.ecode (by simp [Fcall.drops_of_makes hm]) rfl rfl
    exact absurd (h0.symm.trans he) (by decide)
  · exact lookup_of_failed S ans hrec hm (hn he n hm) hd
  · exact absurd rfl hne

/-- What a handler answers where it refuses the request. -/
theorem rlerror_of_refused (hq : tc.refused S ans = true)
    (h : handler H S ans tc w = (r, w')) (hm : r.result = some m) : ∃ e, m = .rlerror e := by
  rcases r with b | _ | _
  · obtain rfl := Option.some.inj hm
    exact handler_of_refused H S ans hq h
  · cases hm
  · cases hm

/-- **A request that succeeds without a fid** is one that needs none. -/
theorem handler_needs_none (h : handler H S ans tc w = (r, w'))
    (hr : w.rfid = none) (hm : r.result = some m) (hme : ∀ e, m ≠ .rlerror e) :
    tc.reqFid = none ∧ tc.opens = [] := by
  by_contra hcon
  have hq : tc.refused S ans = false := by
    by_contra hq
    obtain ⟨e, he⟩ := rlerror_of_refused H S ans (by simpa using hq) h hm
    exact hme e he
  obtain ⟨w₃, h₃⟩ := handler_of_none H S ans hr (not_and_or.mp hcon) hq
  rw [h] at h₃
  obtain ⟨rfl, -⟩ := Prod.mk.inj h₃
  cases hm

/-- **What is left of a request**, in the census. -/
theorem served_census
    (hs : Served H S ans tc w rc ecode reply w') (hf : ∀ t, tc ≠ .tflush t) (hw : w.Idle)
    (hn : ecode = EINTR → ∀ n ∈ tc.makes, w.conn.pool.lookup n = none) :
    (∃ n q, tc.reqFid = some n ∧ w.conn.pool.census q = some (n, 1) ∧
      (∃ g, w.conn.pool.lookup n = some (q, g)) ∧
      if tc.drops = true then w'.conn.pool.census =
        if ecode = EINTR then w.conn.pool.census else Function.update w.conn.pool.census q none
      else w'.conn.pool.census = Function.update w.conn.pool.census w.conn.pool.next
        (if rc.isSome = true then tc.makes.head?.map fun n => (n, 1) else none)) ∨
    (∃ n e, tc.opens = [n] ∧ tc.makes = [] ∧ (e = .ok ↔ rc.isSome = true) ∧
      (tc.refused S ans = true → ∀ m, rc = some m → ∃ e, m = .rlerror e) ∧
      w'.conn.pool.census = Function.update w.conn.pool.census w.conn.pool.next
        (if tc.recount S ans e (some 1) = some 2 then some (n, 1) else none)) ∨
    w'.conn.pool.census = w.conn.pool.census ∧
      (∀ n, tc.reqFid = some n → w.conn.pool.lookup n = none) ∧
      (∀ m, rc = some m → (∀ e, m ≠ .rlerror e) → tc.reqFid = none ∧ tc.opens = []) := by
  obtain ⟨w₁, w₂, r, hrec, hp, hx, hne, rfl, hd, rfl, h₄⟩ :=
    hs.handled H S ans hf hw.rfid hw.kinded
  have hok : r.ending = .ok ↔ r.result.isSome = true := by
    cases r <;> simp [Res.result]
  have hpost := hd.census_post H S ans hne hrec h₄ hn
  -- a request without a fid leaves the census
  have hnone : w₁.conn.pool.census = w.conn.pool.census → w₁.rfid = none →
      w'.conn.pool.census = w.conn.pool.census := by
    intro hc₁ hr₁
    have hc₂ := hd.census_none hne ⟨hp.kinded, hp.fresh⟩ hr₁
    have hc : w₂.conn.pool.census = w.conn.pool.census := hc₂.trans hc₁
    rw [hpost, World.released, hd.rfid_none hne hr₁, hc, ite_self]
  cases hrec with
  | @found n q g hn' hl hw₁ =>
    subst hw₁
    obtain ⟨hcq, hrel⟩ := found_released hw hn' hl hd hne
      ⟨hp.kinded, hp.fresh⟩ rfl rfl
    refine .inl ⟨n, q, hn', hcq, ⟨g, hl⟩, ?_⟩
    by_cases hdr : tc.drops = true
    · rw [if_pos hdr] at hrel ⊢
      simp only [hpost, hdr, and_true, hrel]
    · rw [if_neg hdr] at hrel ⊢
      rw [hpost, if_neg fun h => hdr h.2, hrel]
      simp only [hok]
  | missing ho hr' hw₁ hl =>
    exact .inr (.inr ⟨hnone (by rw [hw₁]) hr', hl, fun m => handler_needs_none H S ans hx hr'⟩)
  | failed hn' hl hr' hx' hf' hg =>
    have hc₁ : w₁.conn.pool.census = w.conn.pool.census := by
      rw [Received.census_new (.failed hn' hl hr' hx' hf' hg) hx' hf' (FidPool.census_of_none hg),
        ← FidPool.census_next, Function.update_eq_self]
    have hr₁ := hr'.trans hw.rfid
    refine .inr (.inr ⟨hnone hc₁ hr₁, fun n hn => ?_, fun m => handler_needs_none H S ans hx hr₁⟩)
    rw [Fcall.opens_of_reqFid hn] at hn'
    cases hn'
  | @opened n a hn' hl hr' hx' hf' hg =>
    have hm := Fcall.makes_of_opens hn'
    have hc₁ := Received.census_new (.opened hn' hl hr' hx' hf' hg) hx'.le hf'
      (FidPool.census_of_get hg)
    have hrel := opened_released hn' hm hd hne ⟨hp.kinded, hp.fresh⟩ hr' hx' hc₁
    refine .inr (.inl ⟨n, r.ending, hn', hm, hok, fun hq m => rlerror_of_refused H S ans hq hx, ?_⟩)
    rw [hpost, if_neg fun h => Fcall.drops_of_opens hn' h.2, hrel]

theorem World.live_eq (w : World σ) (p : ℕ) :
    w.live p = (w.conn.pool.census p).map (·.1) := by
  unfold World.live FidPool.census
  cases w.conn.pool.get p <;> rfl

/-- The census changes at one address, where a fid has one reference or there is none. -/
def World.Turns (w w' : World σ) (p : ℕ) (x : Option UInt32) : Prop :=
  w'.conn.pool.census = Function.update w.conn.pool.census p (x.map fun n => (n, 1))

theorem World.turns_of_eq (h : w'.conn.pool.census = w.conn.pool.census) :
    w.Turns w' w.conn.pool.next none := by
  rw [World.Turns, h, Option.map_none, ← FidPool.census_next, Function.update_eq_self]

section

variable {p : ℕ} {x : Option UInt32}

theorem World.Turns.live (h : w.Turns w' p x) : w'.live = Function.update w.live p x := by
  funext q
  rw [World.live_eq, h]
  rcases eq_or_ne q p with rfl | hne
  · rw [Function.update_self, Function.update_self]
    cases x <;> rfl
  · rw [Function.update_of_ne hne, Function.update_of_ne hne, World.live_eq]

theorem World.Turns.one (h : w.Turns w' p x) (hw : w.Idle) {q : ℕ} {f : Npfid}
    (hf : w'.conn.pool.get q = some f) : f.refcount = 1 := by
  have hq := congrFun h q
  rw [FidPool.census_of_get hf] at hq
  rcases eq_or_ne q p with rfl | hne
  · rw [Function.update_self] at hq
    rcases x with _ | n
    · cases hq
    · exact (Prod.mk.inj (Option.some.inj hq)).2
  · rw [Function.update_of_ne hne] at hq
    obtain ⟨g, hg, hgf⟩ := Option.map_eq_some_iff.mp hq.symm
    rw [← (Prod.mk.inj hgf).2, hw.one q g hg]

theorem World.live_next (w : World σ) : w.live w.conn.pool.next = none := by
  rw [World.live_eq, FidPool.census_next]
  rfl

theorem World.live_of_census {n : UInt32} {k : ℕ} (h : w.conn.pool.census p = some (n, k)) :
    w.live p = some n := by
  rw [World.live_eq, h]
  rfl

end

/-- A request leaves a connection on which nothing is going on. -/
theorem Served.idle_of_turns {x : Option UInt32}
    (hs : Served H S ans tc w rc ecode reply w') (hf : ∀ t, tc ≠ .tflush t) (hw : w.Idle)
    (ht : w.Turns w' p x) : w'.Idle := by
  obtain ⟨w₁, w₂, r, -, hp, -, hne, -, hd, -, h₄⟩ := hs.handled H S ans hf hw.rfid hw.kinded
  have hk : w₂.Kinded := hd.kinded hne ⟨hp.kinded, hp.fresh⟩
  obtain ⟨hl, hx, hr⟩ := npPostprocessRequest_loose H h₄
  refine ⟨hr, ?_, fun q f hf => ht.one hw hf⟩
  refine hl.kinded hk (by simp) (fun _ _ => trivial) fun q f hq hg => ?_
  exact absurd (FidPool.lt_next hg) (by omega)

/-- **However a request ends**, nothing is going on then, unless it is interrupted when it
was to make a fid with a number that is in use. -/
theorem served_idle (hs : Served H S ans tc w rc ecode reply w') (hw : w.Idle)
    (hn : ecode = EINTR → ∀ n ∈ tc.makes, w.conn.pool.lookup n = none) : w'.Idle := by
  obtain ⟨-, -, -, rfl⟩ | ⟨hf, -⟩ := hs.cases
  · exact hw
  rcases served_census H S ans hs hf hw hn with
    ⟨n, q, -, -, -, hc⟩ | ⟨n, e, -, -, -, -, hc⟩ | ⟨hc, -⟩
  · split at hc
    · split at hc
      · exact hs.idle_of_turns H S ans hf hw (World.turns_of_eq hc)
      · exact hs.idle_of_turns H S ans hf hw (x := none) hc
    · refine hs.idle_of_turns H S ans hf hw (p := w.conn.pool.next)
        (x := if rc.isSome = true then tc.makes.head? else none) ?_
      rw [World.Turns, hc]
      split <;> rfl
  · refine hs.idle_of_turns H S ans hf hw (p := w.conn.pool.next)
      (x := if tc.recount S ans e (some 1) = some 2 then some n else none) ?_
    rw [World.Turns, hc]
    split <;> rfl
  · exact hs.idle_of_turns H S ans hf hw (World.turns_of_eq hc)

/-! The fids that come and go with each kind of request. -/

namespace Fcall

variable {n : UInt32} {p : ℕ} {l : ℕ → Option UInt32}

theorem changes_of_drops (hd : tc.drops = true) (hf : tc.reqFid = some n) (hp : l p = some n) :
    tc.Changes l (Function.update l p none) := by
  cases tc with
  | tclunk k =>
    cases hf
    exact ⟨p, hp, rfl⟩
  | tremove k =>
    cases hf
    exact ⟨p, hp, rfl⟩
  | _ => cases hd

theorem changes_of_makes (hd : ¬tc.drops = true) (hf : tc.reqFid = some n) (hp : l p = none) :
    tc.Changes l (Function.update l p tc.makes.head?) := by
  have hsame : Function.update l p none = l := by rw [← hp, Function.update_eq_self]
  cases tc with
  | twalk fid newfid wnames =>
    by_cases hfn : fid = newfid
    · simp only [Changes, makes, hfn, if_true]
      exact hsame
    · simp only [Changes, makes, hfn, if_false]
      exact ⟨_, hp, rfl⟩
  | txattrwalk => exact ⟨_, hp, rfl⟩
  | tclunk => exact absurd rfl hd
  | tremove => exact absurd rfl hd
  | tauth => cases hf
  | tattach => cases hf
  | _ => exact hsame

theorem changes_of_opens (ho : tc.opens = [n]) (hp : l p = none) :
    tc.Changes l (Function.update l p (some n)) := by
  cases tc with
  | tauth =>
    cases ho
    exact ⟨p, hp, rfl⟩
  | tattach =>
    cases ho
    exact ⟨p, hp, rfl⟩
  | _ => cases ho

theorem changes_of_none (hf : tc.reqFid = none) (ho : tc.opens = []) : tc.Changes l l := by
  cases tc <;> first | rfl | (cases hf; done) | cases ho

/-- A fid that is opened is kept by a request that succeeds. -/
theorem recount_of_ok (ho : tc.opens = [n]) (hq : tc.refused S ans = false) :
    tc.recount S ans .ok (some 1) = some 2 := by
  cases tc with
  | tauth => simp [recount, hq]
  | tattach => rfl
  | _ => cases ho

/-- If it does not succeed, only a `Tauth` may keep it. -/
theorem recount_of_ne_ok {e : End} (ho : tc.opens = [n]) (he : e ≠ .ok)
    (hau : ∀ n uname aname nUname, tc ≠ .tauth n uname aname nUname) :
    tc.recount S ans e (some 1) ≠ some 2 := by
  cases tc with
  | tauth => exact absurd rfl (hau _ _ _ _)
  | tattach => simp [recount, he]
  | _ => cases ho

end Fcall

/-- **What is left of a request** that succeeds or is interrupted. -/
theorem served_turns
    (hs : Served H S ans tc w rc ecode reply w') (hf : ∀ t, tc ≠ .tflush t) (hw : w.Idle)
    (hn : ∀ n ∈ tc.creates, w.conn.pool.lookup n = none) (hb : rc.isSome = true ↔ ecode = 0) :
    ∃ p x, w.Turns w' p x ∧
      (∀ m, rc = some m → (∀ e, m ≠ .rlerror e) →
        tc.Changes w.live (Function.update w.live p x)) ∧
      (ecode = EINTR → (∀ n uname aname nUname, tc ≠ .tauth n uname aname nUname) →
        Function.update w.live p x = w.live) := by
  have hrc : ecode = EINTR → rc = none := fun he => by
    rcases rc with _ | m
    · rfl
    · exact absurd (he.symm.trans (hb.mp rfl)) (by decide)
  have hne : ∀ m, rc = some m → ecode ≠ EINTR := fun m hm he => by
    rw [hrc he] at hm
    cases hm
  have hsame : Function.update w.live w.conn.pool.next none = w.live := by
    rw [← w.live_next, Function.update_eq_self]
  rcases served_census H S ans hs hf hw fun _ n hm => hn n (List.mem_append_right _ hm) with
    ⟨n, q, hfid, hq, -, hc⟩ | ⟨n, e, ho, hm, hok, href, hc⟩ | ⟨hc, -, hsucc⟩
  · by_cases hd : tc.drops = true
    · rw [if_pos hd] at hc
      by_cases he : ecode = EINTR
      · rw [if_pos he] at hc
        exact ⟨_, _, World.turns_of_eq hc, fun m hm => absurd he (hne m hm), fun _ _ => hsame⟩
      · rw [if_neg he] at hc
        exact ⟨q, none, hc, fun _ _ _ => Fcall.changes_of_drops hd hfid (w.live_of_census hq),
          fun h => absurd h he⟩
    · rw [if_neg hd] at hc
      refine ⟨w.conn.pool.next, if rc.isSome = true then tc.makes.head? else none, ?_,
        fun m hm _ => ?_, fun he _ => ?_⟩
      · rw [World.Turns, hc]
        split <;> rfl
      · rw [hm, if_pos (by rfl)]
        exact Fcall.changes_of_makes hd hfid w.live_next
      · rw [hrc he]
        exact hsame
  · refine ⟨w.conn.pool.next, if tc.recount S ans e (some 1) = some 2 then some n else none, ?_,
      fun m hm' hme => ?_, fun he hau => ?_⟩
    · rw [World.Turns, hc]
      split <;> rfl
    · have he : e = .ok := hok.mpr (by rw [hm']; rfl)
      have hq : tc.refused S ans = false := by
        by_contra hq
        obtain ⟨e, he⟩ := href (by simpa using hq) m hm'
        exact hme e he
      rw [he, if_pos (Fcall.recount_of_ok S ans ho hq)]
      exact Fcall.changes_of_opens ho w.live_next
    · have he : e ≠ .ok := fun h => by
        have hsome := hok.mp h
        rw [hrc he] at hsome
        cases hsome
      rw [if_neg (Fcall.recount_of_ne_ok S ans ho he hau)]
      exact hsame
  · refine ⟨_, _, World.turns_of_eq hc, fun m hm hme => ?_, fun _ _ => hsame⟩
    obtain ⟨hfid, ho⟩ := hsucc m hm hme
    rw [hsame]
    exact Fcall.changes_of_none hfid ho

/-- **A request keeps the accounts.** On a connection where nothing else is going on,
what succeeds or is interrupted changes the fids that are there as it should, and leaves
each of them one reference. -/
theorem serve_keeps_accounts {rc reply : Option Msg} {ecode : ℕ}
    (hs : Served H S ans tc w rc ecode reply w') (hw : w.Idle)
    (hn : ∀ n ∈ tc.creates, w.conn.pool.lookup n = none)
    (hb : rc.isSome = true ↔ ecode = 0) :
    (∀ m, rc = some m → (∀ e, m ≠ .rlerror e) → tc.Changes w.live w'.live) ∧
    (ecode = EINTR → (∀ n uname aname nUname, tc ≠ .tauth n uname aname nUname) →
      w'.live = w.live) ∧
    w'.Idle := by
  obtain ⟨⟨t, rfl⟩, -, -, rfl⟩ | ⟨hf, -⟩ := hs.cases
  · exact ⟨fun _ _ _ => rfl, fun _ _ => rfl, hw⟩
  · obtain ⟨p, x, ht, hsucc, hint⟩ := served_turns H S ans hs hf hw hn hb
    rw [ht.live]
    exact ⟨hsucc, hint, hs.idle_of_turns H S ans hf hw ht⟩

/-- The server's own files, attached to by a user on a new connection. -/
theorem serve_keeps_accounts_ctl :
    ∃ w', Served (.steady fun _ => {})
        { conf := { authRequired := false, exports := [⟨ctlName, 0, none, none⟩] } }
        { user := .ok ⟨[], 1000, 1000, []⟩ } (.tattach 1 NOFID [97] ctlName 1000) (World.new ())
        (some (.rattach (ctlQid none))) 0 (some (.rattach (ctlQid none))) w' ∧
      Fcall.Changes (.tattach 1 NOFID [97] ctlName 1000) (World.new ()).live w'.live ∧ w'.Idle := by
  have hs : Served (.steady fun _ => {})
      { conf := { authRequired := false, exports := [⟨ctlName, 0, none, none⟩] } }
      { user := .ok ⟨[], 1000, 1000, []⟩ } (.tattach 1 NOFID [97] ctlName 1000) (World.new ())
      (some (.rattach (ctlQid none))) 0 (some (.rattach (ctlQid none))) _ :=
    ⟨_, _, rfl, rfl, rfl, rfl⟩
  have hk := serve_keeps_accounts _ _ _ hs
    ⟨rfl, fun _ _ h => (by cases h), fun _ _ h => (by cases h)⟩
    (fun _ _ => rfl) (by decide)
  exact ⟨_, hs, hk.1 _ rfl (fun _ h => by cases h), hk.2.2⟩

end Diod
