import Diod.Npfs.Confined

/-!
# Fids of attributes

A fid that is open for an extended attribute has the flag `DIOD_FID_FLAGS_XATTR`, and
`diod_read` and `diod_write` go by it alone: with the flag they use `f->xattr`, and do
not look whether it is there. The two are set together, by `diod_xattrwalk` and
`diod_xattrcreate`. But `diod_fidclone` **copies the flag and not the attribute**, so a
walk from such a fid to a new one makes a fid that crashes the server when it is read
(`Diod.serve_copies_flag`); and `xattr_close` drops the attribute and leaves the flag,
which is seen when the `Tclunk` is interrupted, since the fid then lives on.

With no such walk and no such `Tclunk` the flag is right (`Diod.serve_keeps_flag`). A
`Tclunk` that is not interrupted leaves a fid with the flag and without the attribute for
a moment, and that fid is gone when the request is: this is where the accounts of
`Diod.Npfs.Serve` come in.
-/

namespace Diod

open Prog

variable {σ : Type} {H : Host σ} {S : Npsrv}

/-- **The flag is right**: an attribute hangs on the fid if and only if the flag is set. -/
def DiodFid.Flagged (f : DiodFid) : Prop := f.isXattr = f.xattr.isSome

theorem flagged_place : Op.Place (fun _ => True) DiodFid.Flagged Any where
  call _ _ := trivial
  path _ _ := trivial
  same _ _ h _ _ hi hx := by
    rw [DiodFid.Flagged, hi, hx]
    exact h

theorem flagged_realm : Op.Realm (fun _ => True) (fun _ => True) DiodFid.Flagged Any H where
  place := flagged_place
  ok _ h := h
  move _ _ h _ := h
  hang _ _ _ _ := rfl
  mount _ _ _ := ⟨trivial, trivial, trivial, fun _ _ => trivial⟩
  list _ _ _ _ _ _ _ _ _ := trivial

theorem flagged_walk (wname : Bytes) :
    (Op.diodWalk H wname).Does (Op.Upkeep DiodFid.Flagged Any) :=
  Op.upkeep_of_leaves (flagged_place.ground.walk (fun _ _ _ => trivial)
    fun _ _ _ _ _ _ _ _ _ _ _ _ _ => ⟨fun _ _ hg => hg, fun _ =>
      ⟨⟨trivial, trivial, trivial, fun _ _ => trivial⟩, fun _ hg => ⟨hg, hg⟩⟩⟩)

/-! ### A fid that is clunked -/

/-- The laws of no law at all. -/
theorem laws_trivial : Laws (fun _ => True) Any H where
  null := trivial
  ctl _ := trivial
  auth _ := trivial
  call _ _ := trivial
  destroy _ _ _ _ _ := trivial

/-- The fids other than the one with this number. -/
def World.Others (w : World σ) (n : UInt32) (P : Aux → Prop) (q : ℕ) (a : Aux) : Prop :=
  (∀ g, w.conn.pool.lookup n ≠ some (q, g)) → P a

variable {w w' : World σ} {ans : Ans} {n : UInt32} {rc reply : Option Msg} {ecode p : ℕ}

/-- A `Tclunk` does not touch the other fids. -/
theorem npClunk_others {O : ℕ → Aux → Prop}
    (hp : ∀ p, w.rfid = some p → ∀ a, O p a) (hw : Holds (fun _ => True) Any O w) :
    Holds (fun _ => True) Any O (npClunk H w).2 := by
  refine holds_done ?_ fun _ => laws_trivial.npFidDecrefReq_kept
  refine hw.bind reqFid_kept (fun _ _ h => h) fun r w₁ h hw₁ => ?_
  obtain ⟨rfl, hr, -⟩ := reqFid_eq_ok h
  have hop : ∀ {F : Type} (V : AuxView F) (x : Prog (Ost σ F) Msg),
      Holds (fun _ => True) Any O (auxOp V r.1 x w₁).2 := fun V x =>
    auxOp_holds (fun _ _ _ _ _ _ => ⟨fun _ _ => trivial, trivial⟩) (fun _ _ _ h => h)
      (hp r.1 hr) hw₁
  dsimp only
  split
  · exact kept.bind (allocOr_kept H _) (fun _ => kept.pure _) w₁ hw₁
  · split
    · exact hop _ _
    · exact hop _ _

theorem Served.others
    {P : Aux → Prop} (hs : Served H S ans (.tclunk n) w rc ecode reply w') (hr : w.rfid = none)
    (hP : P .null) (hw : ∀ p f, w.conn.pool.get p = some f → P f.aux) {f : Npfid}
    (hf : w'.conn.pool.get p = some f) (hp : ∀ g, w.conn.pool.lookup n ≠ some (p, g)) :
    P f.aux := by
  obtain ⟨w₁, w₂, h₁, h₂, -, h₄⟩ := hs
  have hl : Laws (fun _ => True) Any H := laws_trivial
  have hw₀ : Holds (fun _ => True) Any (w.Others n P) w :=
    ⟨fun _ _ _ => trivial, fun _ _ _ _ _ => trivial, fun p f hf _ => hw p f hf⟩
  have hw₁ := hl.npPreprocessRequest_kept (S := S) (fun _ _ => hP) (.tclunk n) w hw₀
  rw [h₁] at hw₁
  have hrec := npPreprocessRequest_received H S h₁ hr
  -- the request's own fid is the one with the number
  have hown : ∀ q, w₁.rfid = some q → ∀ a, w.Others n P q a := by
    intro q hq a hn
    cases hrec with
    | found hn' hl hw =>
      subst hw
      cases hn'
      obtain rfl := Option.some.inj hq
      exact absurd hl (hn _)
    | missing _ hr' =>
      rw [hr'] at hq
      cases hq
    | opened ho => cases ho
    | failed ho => cases ho
  have hw₂ := npClunk_others (H := H) (w := { w₁ with b := { w₁.b with ecode := 0 } }) hown
    (npUerror_kept 0 w₁ hw₁)
  have hw₂ : Holds (fun _ => True) Any (w.Others n P) w₂ := npProcessRequest_snd h₂ ▸ hw₂
  have hw' := hl.npPostprocessRequest_kept (.tclunk n) ecode rc w₂ hw₂
  rw [h₄] at hw'
  exact hw'.own p f hf hp

/-- **A fid that was clunked is gone**, unless the request was interrupted. -/
theorem Served.clunked
    (hs : Served H S ans (.tclunk n) w rc ecode reply w') (hw : w.Idle) (he : ecode ≠ EINTR)
    {g : Npfid} (hl : w.conn.pool.lookup n = some (p, g)) : w'.conn.pool.get p = none := by
  rcases served_census H S ans hs (fun t h => by cases h) hw fun h => absurd h he with
    ⟨m, q, hm, -, ⟨g', hq⟩, hc⟩ | ⟨m, e, ho, -⟩ | ⟨-, hn, -⟩
  · cases hm
    obtain ⟨rfl, -⟩ := Prod.mk.inj (Option.some.inj (hl.symm.trans hq))
    rw [if_pos (show (Fcall.drops (.tclunk n)) = true from rfl), if_neg he] at hc
    have hp := congrFun hc p
    rw [Function.update_self] at hp
    exact Option.map_eq_none_iff.mp hp
  · cases ho
  · rw [hn n rfl] at hl
    cases hl

/-! ### Runs -/

/-- A request ends with `EINTR`. -/
def Interrupted (H : Host σ) (S : Npsrv) (w : World σ) (r : Ans × Msg) : Prop :=
  ∃ rc reply w', Served H S r.1 r.2 w rc EINTR reply w'

/-- **A request that the flag survives.** It does not walk from the fid of an attribute to
a new fid, and is not an interrupted `Tclunk` of such a fid. When it is interrupted, the
number of the fid that it was to make is not in use. -/
structure SparesFlag (H : Host σ) (S : Npsrv) (w : World σ) (r : Ans × Msg) : Prop where
  walk : ∀ fid newfid wnames, r.2 = .twalk fid newfid wnames → fid ≠ newfid →
    w.Finds fid fun d => d.isXattr = false
  clunk : ∀ fid, r.2 = .tclunk fid → Interrupted H S w r → w.Finds fid fun d => d.isXattr = false
  fresh : Interrupted H S w r → ∀ n ∈ r.2.makes, w.conn.pool.lookup n = none

theorem Served.flagged {r : Ans × Msg}
    (hs : Served H S r.1 r.2 w rc ecode reply w') (hr : SparesFlag H S w r) (hi : w.Idle)
    (hw : Holds (OfSrv DiodFid.Flagged) Any (fun _ _ => True) w) :
    Holds (OfSrv DiodFid.Flagged) Any (fun _ _ => True) w' := by
  have hE : ∀ {p f d}, w.conn.pool.get p = some f → f.aux = .srv d → d.Flagged :=
    fun {p f d} hf hd => by
      have h := hw.fids p f hf
      rwa [hd] at h
  by_cases hc : ecode ≠ EINTR ∧ ∃ n, r.2 = .tclunk n
  · obtain ⟨he, n, hn⟩ := hc
    rw [hn] at hs
    refine ⟨fun p f hf => ?_, fun _ _ _ _ _ => trivial, fun _ _ _ => trivial⟩
    refine hs.others hi.rfid trivial hw.fids hf fun g hl => ?_
    rw [hs.clunked hi he hl] at hf
    cases hf
  · refine (flagged_place.laws fun _ _ => trivial).served_holds r.1 hs hi.rfid
      (flagged_realm.lawful ?_) hw
    rcases r with ⟨ans, tc⟩
    cases tc with
    | tclunk n =>
      have he : ecode = EINTR := by
        by_contra he
        exact hc ⟨he, n, rfl⟩
      have hx := hr.clunk n rfl ⟨rc, reply, w', he ▸ hs⟩
      refine fun p f d hf hn hd o ho => Op.upkeepAt_of_leaves
        (flagged_place.ground.clunk fun h => ?_)
      rw [ho, hx p f d hf hn hd] at h
      cases h
    | twalk fid newfid wnames =>
      refine ⟨fun wname _ => flagged_walk wname, fun hne p f d hf hn hd => ?_⟩
      exact hr.walk fid newfid wnames rfl hne p f d hf hn hd
    | tattach => exact ⟨trivial, fun f hf => by rw [DiodFid.Flagged, hf.2.2.1, hf.2.2.2]; rfl⟩
    | tlcreate | tsymlink | tmknod | tmkdir | tunlinkat | trename | tlink =>
      exact fun _ _ _ _ _ _ => ⟨trivial, trivial⟩
    | trenameat =>
      exact ⟨fun _ _ _ _ _ _ => ⟨trivial, trivial⟩, fun _ _ _ _ _ _ => ⟨trivial, trivial⟩⟩
    | _ => trivial

/-- **The flag of an attribute is right at any time**, if no fid with the flag is cloned,
and none is left behind by an interrupted `Tclunk`. -/
theorem serve_keeps_flag {w w' : World σ} (hw : w.Blank)
    (h : Reaches (serveStep H S) (SparesFlag H S) w w') {p : ℕ} {f : Npfid} {d : DiodFid}
    (hf : w'.conn.pool.get p = some f) (hd : f.aux = .srv d) :
    (d.isXattr = true → d.xattr ≠ none) ∧ (d.isXattr = false → d.xattr = none) := by
  have hi : w.Idle := ⟨hw.rfid, fun p f hf => (by rw [hw.pool] at hf; cases hf),
    fun p f hf => by rw [hw.pool] at hf; cases hf⟩
  obtain ⟨-, hh⟩ := h.invariant
    (I := fun w => w.Idle ∧ Holds (OfSrv DiodFid.Flagged) Any (fun _ _ => True) w) ⟨hi, hw.holds⟩
    fun w w' r ⟨hi, hw⟩ hr hs => by
      obtain ⟨rc, ecode, reply, hs⟩ := served_of_step hs
      exact ⟨served_idle H S r.1 hs hi fun he => hr.fresh ⟨rc, reply, w', he ▸ hs⟩,
        hs.flagged hr hi hw⟩
  have hE := hh.fids p f hf
  rw [hd] at hE
  have hE : d.isXattr = d.xattr.isSome := hE
  rw [hE]
  cases d.xattr <;> simp

/-- A walk from the root to an attribute of it. -/
def xattrwalkA : Ans × Msg := (someUser, .txattrwalk 1 2 [120])

/-- What hangs on the fid with this number is a fid of the file server such that `b`. -/
def World.finds (w : World σ) (n : UInt32) (b : DiodFid → Bool) : Bool :=
  match w.conn.pool.lookup n with
  | some (_, f) => match f.aux with
    | .srv d => b d
    | _ => false
  | none => false

theorem World.exists_of_finds {b : DiodFid → Bool} (h : w.finds n b = true) :
    ∃ p f d, w.conn.pool.get p = some f ∧ f.aux = .srv d ∧ b d = true := by
  unfold finds at h
  split at h
  · rename_i p f hl
    split at h
    · rename_i d hd
      exact ⟨p, f, d, (FidPool.get_of_lookup hl).1, hd, h⟩
    · cases h
  · cases h

/-- A fid with an attribute. -/
theorem serve_keeps_flag_xattrwalk : ∃ w' p f d,
    Reaches (serveStep (.steady fun _ => {}) exportA) (SparesFlag (.steady fun _ => {}) exportA)
      (World.new ()) w' ∧
    w'.conn.pool.get p = some f ∧ f.aux = .srv d ∧ d.isXattr = true ∧ d.xattr ≠ none := by
  have hs : ((serveStep (.steady fun _ => {}) exportA (World.new ()) attachA).bind fun w =>
      (serveStep (.steady fun _ => {}) exportA w xattrwalkA).map fun w' =>
        ((w.conn.pool.lookup 2).isNone, w'.finds 2 (·.isXattr))) = some (true, true) := by
    decide +kernel
  obtain ⟨w, hw, hs⟩ := Option.bind_eq_some_iff.mp hs
  obtain ⟨w', hw', hs⟩ := Option.map_eq_some_iff.mp hs
  obtain ⟨hn, hf⟩ := Prod.mk.inj hs
  obtain ⟨p, f, d, hp, hd, hx⟩ := World.exists_of_finds hf
  have h : Reaches (serveStep (.steady fun _ => {}) exportA)
      (SparesFlag (.steady fun _ => {}) exportA) (World.new ()) w' := by
    refine .tail (.tail .refl ⟨?_, ?_, ?_⟩ hw) ⟨?_, ?_, ?_⟩ hw'
    · exact fun _ _ _ h => by cases h
    · exact fun _ h => by cases h
    · exact fun _ _ h => by cases h
    · exact fun _ _ _ h => by cases h
    · exact fun _ h => by cases h
    · intro _ n h
      rw [List.mem_singleton.mp h]
      exact Option.isNone_iff_eq_none.mp hn
  exact ⟨w', p, f, d, h, hp, hd, hx, (serve_keeps_flag (World.blank_new ()) h hp hd).1 hx⟩

/-- **A clone of an attribute's fid has the flag only**, and reading from it is a crash. -/
theorem serve_copies_flag : ∃ w',
    runSteps (serveStep (.steady fun _ => {}) exportA) (World.new ())
      [attachA, xattrwalkA, (someUser, .twalk 2 3 [])] = some w' ∧
    (∃ p f d, w'.conn.pool.get p = some f ∧ f.aux = .srv d ∧ d.isXattr = true ∧ d.xattr = none) ∧
    (serve (.steady fun _ => {}) exportA someUser (.tread 3 0 8) w').1.ending = .crash := by
  have hs : ((runSteps (serveStep (.steady fun _ => {}) exportA) (World.new ())
    [attachA, xattrwalkA, (someUser, .twalk 2 3 [])]).map fun w =>
      (w.finds 3 fun d => d.isXattr && d.xattr.isNone,
        (serve (.steady fun _ => {}) exportA someUser (.tread 3 0 8) w).1.ending)) =
    some (true, .crash) := by decide +kernel
  obtain ⟨w', hw, h⟩ := Option.map_eq_some_iff.mp hs
  obtain ⟨hb, hc⟩ := Prod.mk.inj h
  obtain ⟨p, f, d, hp, hd, hx⟩ := World.exists_of_finds hb
  obtain ⟨hx, hn⟩ := Bool.and_eq_true_iff.mp hx
  exact ⟨w', hw, ⟨p, f, d, hp, hd, hx, Option.isNone_iff_eq_none.mp hn⟩, hc⟩

end Diod
