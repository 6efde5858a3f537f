import Diod.Npfs.Confined

/-!
# What a request may do

What is relied on when a request is processed, whatever it is and whatever came before it.

* It **keeps to its fids** (`Diod.process_keeps_to_fids`): the host is called as the user of one
  of them, and modified only if one of them is not read-only. A `Tlopen` that truncates does not
  look at the flag, and the attribute of a `Txattrcreate` is stored as anyone.
* If it **fails, nothing has happened** to the connection (`Diod.process_fails_cleanly`).

The requests that open a fid, `Tauth` and `Tattach`, are not among these.
-/

namespace Diod

open Prog

variable {σ : Type} {H : Host σ} {S : Npsrv} {ans : Ans} {tc : Msg} {w₀ w w' : World σ}

/-- **After any run** fids are of one kind, and the thread knows who it is, or that it does
not. -/
theorem kinded_of_reaches (hw : w₀.Blank) (hb : w₀.wt.Believes)
    (h : Reaches (serveStep H S) (fun _ _ => True) w₀ w) :
    w.rfid = none ∧ w.Kinded ∧ w.wt.Believes := by
  refine h.invariant (I := fun w => w.rfid = none ∧ w.Kinded ∧ w.wt.Believes)
    ⟨hw.rfid, fun p f hf => ?_, hb⟩ ?_
  · rw [hw.pool] at hf
    cases hf
  rintro w w' r ⟨hr, hk, hb⟩ - hs
  obtain ⟨rc, ecode, reply, hs⟩ := served_of_step hs
  obtain ⟨-, -, -, rfl⟩ | ⟨hf, -⟩ := hs.cases
  · exact ⟨hr, hk, hb⟩
  obtain ⟨w₁, w₂, r, hrec, hp, -, hne, -, hd, -, h₄⟩ := hs.handled H S _ hf hr hk
  obtain ⟨hl, hn, hr'⟩ := npPostprocessRequest_loose H h₄
  refine ⟨hr', hl.kinded (hd.kinded hne ⟨hp.kinded, hp.fresh⟩) (by simp) (fun _ _ => trivial)
    fun q f hq hf => ?_, hl.believes (hd.loose.believes (hrec.loose.believes hb))⟩
  exact absurd (FidPool.lt_next hf) (by omega)

/-- **A request is processed**: after a run on a new connection it has been received, which left
`w`. -/
def Processed (H : Host σ) (S : Npsrv) (ans : Ans) (tc : Msg) (w w' : World σ) : Prop :=
  ∃ w₀ w₁ rc, w₀.Blank ∧ w₀.wt.Believes ∧ Reaches (serveStep H S) (fun _ _ => True) w₀ w₁ ∧
    npPreprocessRequest H S tc w₁ = (.ok (), w) ∧ npProcessRequest H S ans tc w = (.ok rc, w')

theorem Processed.does (h : Processed H S ans tc w w') :
    w.wt.Believes ∧ w.Prepared tc ∧ ∃ r : Res Msg, r.ending ≠ .crash ∧
      Handled S ans tc r.ending { w with b := { w.b with ecode := 0 } } w' := by
  obtain ⟨w₀, w₁, rc, hw, hb, hr, hrec, h⟩ := h
  obtain ⟨hr, hk, hb⟩ := kinded_of_reaches hw hb hr
  have hrec := npPreprocessRequest_received H S hrec hr
  have hp := hrec.prepared hr hk
  obtain ⟨r, -, hne, -, hd⟩ := npProcessRequest_eq_ok H S ans hp h
  exact ⟨hrec.loose.believes hb, hp, r, hne, hd⟩

/-- A fid that a request is about. -/
def World.About (w : World σ) (tc : Msg) (f : Npfid) : Prop :=
  ∃ p, w.conn.pool.get p = some f ∧ (w.rfid = some p ∨ f.fid ∈ tc.finds)

/-- The export `/a`, read-only, of a server that changes its ids. -/
def readonlyA : Npsrv :=
  { setfsid := true, conf := { authRequired := false, exports := [⟨[47, 97], 1, none, none⟩] } }

/-- A directory is to be made in the export. -/
def mkdirA : Msg := .tmkdir 1 [98] 0 0

theorem processed_mkdirA : ∃ w w',
    Processed (.steady fun _ => {}) readonlyA someUser mkdirA w w' ∧ w'.b.ecode ≠ 0 ∧
      ∀ f, w.About mkdirA f → f.isTmp = false ∧ f.pending = false := by
  refine ⟨_, _, ⟨World.new (), _, _, World.blank_new (), .inr rfl,
    .tail (a := attachA) .refl trivial rfl, rfl, rfl⟩, by decide +kernel, ?_⟩
  rintro f ⟨p, hf, -⟩
  obtain rfl : p = 0 := Nat.lt_one_iff.mp (FidPool.lt_next hf)
  cases hf
  exact ⟨rfl, rfl⟩

/-- A call that a request may make: as the user of one of its fids, and modifying only if one of
them is not read-only. What needs no path may be done as anyone. -/
def World.Permits (w : World σ) (S : Npsrv) (tc : Msg) (k : UInt32) (c : HostCall) : Prop :=
  Local c ∨ (∃ f, w.About tc f ∧ (S.setfsid = true → f.uid ≠ some NONUNAME → f.uid = some k)) ∧
    (c.modifies = true → tc.truncates = true ∨ ∃ f, w.About tc f ∧ f.rofs = false)

/-- **A request keeps to its fids.** -/
theorem process_keeps_to_fids (h : Processed H S ans tc w w') (ho : tc.opens = [])
    (hf : ∀ f, w.About tc f → f.isTmp = false ∧ f.pending = false) :
    ∃ l, w'.trace = w.trace ++ l ∧ ∀ us k c err, .call us k c err ∈ l → w.Permits S tc k c := by
  obtain ⟨hb, -, r, -, hd⟩ := h.does
  obtain ⟨l, hl, hv⟩ := hd.loose.trace
  refine ⟨l, hl, fun us k c err hm => ?_⟩
  cases hv _ hm with
  | @call p f _ _ _ hr hg _ hk hc =>
    have hn : w.About tc f := ⟨p, hg, .inl hr⟩
    exact .inr ⟨⟨f, hn, fun hS => hk hS hb⟩, fun hm => (hc hm).symm.imp_right fun h => ⟨f, hn, h⟩⟩
  | look hr hg ht =>
    rw [(hf _ ⟨_, hg, .inl hr⟩).1] at ht
    cases ht
  | close hr hg hc =>
    rw [(hf _ ⟨_, hg, .inl hr⟩).2] at hc
    exact .inl (hc.resolve_right (by simp))
  | @pair p f n q g a o _ _ _ hr hg hn hl hao hk hc =>
    have hn : w.About tc a ∧ w.About tc o := by
      have h₁ : w.About tc f := ⟨p, hg, .inl hr⟩
      obtain ⟨hq, rfl, -⟩ := FidPool.get_of_lookup hl
      have h₂ : w.About tc g := ⟨q, hq, .inr hn⟩
      rcases hao with ⟨rfl, rfl⟩ | ⟨rfl, rfl⟩
      · exact ⟨h₁, h₂⟩
      · exact ⟨h₂, h₁⟩
    refine .inr ⟨?_, fun _ => .inr ⟨a, hn.1, hc⟩⟩
    rcases hk with hk | hk
    · exact ⟨a, hn.1, fun hS => hk hS hb⟩
    · exact ⟨o, hn.2, fun hS => hk hS hb⟩
  | attach ho' => exact absurd ho ho'

theorem process_keeps_to_fids_mkdir : ∃ w w',
    Processed (.steady fun _ => {}) readonlyA someUser mkdirA w w' ∧
      ∃ l, w'.trace = w.trace ++ l ∧
        ∀ us k c err, .call us k c err ∈ l → w.Permits readonlyA mkdirA k c := by
  obtain ⟨w, w', h, -, hf⟩ := processed_mkdirA
  exact ⟨w, w', h, process_keeps_to_fids h rfl hf⟩

/-- **A request that fails leaves the connection as it was**: what was negotiated, and each fid,
with its references, user, name, flags and place. `Tclunk` and `Tremove` give up their fid in any
case. -/
theorem process_fails_cleanly (h : Processed H S ans tc w w') (ho : tc.opens = [])
    (hd : tc.drops = false) (hs : tc.changesSess = false)
    (hn : ∀ n ∈ tc.makes, w.conn.pool.lookup n = none) (he : w'.b.ecode ≠ 0) :
    w'.rfid = w.rfid ∧ w'.conn.msize = w.conn.msize ∧ w'.conn.authuser = w.conn.authuser ∧
      (∀ p f, w.conn.pool.get p = some f → w'.conn.pool.refs p = some f.refcount) ∧
      ∀ p f', w'.conn.pool.get p = some f' →
        ∃ f, w.conn.pool.get p = some f ∧ f.Like (fun _ => True) False f' := by
  obtain ⟨-, hp, r, hne, hh⟩ := h.does
  -- with a result there would be no error
  have hstop : r.ending = .stop := by
    rcases r with m | _ | _
    · exact absurd (hh.loose.ecode (by simp [hd]) rfl rfl) he
    · rfl
    · exact absurd rfl hne
  rw [hstop] at hh hne
  obtain ⟨hm, ha⟩ := hh.loose.sess hne (by simp [scope, hs])
  refine ⟨?_, hm, ha, fun p f hf => ?_, fun p f' hf' => ?_⟩
  · rw [hh.rfid hne, if_neg (by simp [hd])]
  · rw [hh.refs hne p (FidPool.lt_next hf), Fcall.recount_plain ho hd, ite_self,
      FidPool.refs_of_get hf]
  · obtain ⟨f, hf, hl⟩ | ⟨h, -⟩ | ⟨-, h, -⟩ := hh.get_cases hne ⟨hp.kinded, hp.fresh⟩ hf'
    · refine ⟨f, hf, hl.mono (fun _ _ => trivial) ?_⟩
      rintro (h | h | ⟨n, hm, h⟩)
      · exact h rfl
      · exact he h
      · exact h (hn n hm)
    · exact absurd ho h
    · cases h

theorem process_fails_cleanly_mkdir : ∃ w w',
    Processed (.steady fun _ => {}) readonlyA someUser mkdirA w w' ∧
      w'.b.ecode ≠ 0 ∧ w'.rfid = w.rfid := by
  obtain ⟨w, w', h, he, -⟩ := processed_mkdirA
  exact ⟨w, w', h, he, (process_fails_cleanly h rfl rfl rfl (by rintro n ⟨⟩) he).1⟩

end Diod
