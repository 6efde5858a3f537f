import Diod.Lib.Runs
import Diod.Backend.Upkeep
import Diod.Npfs.Kept

/-!
# Runs of a connection

A client sends requests, and the server serves one after the other
(`Diod.serveStep`). What holds throughout such a run is an invariant of the operations
of the file server: `Diod.Op.Upkeep` says that they keep it, `Diod.Laws.served_holds`
that requests then do, and `Diod.Reaches.holds` that it holds at any time.
-/

namespace Diod

open Prog

variable {σ α : Type} {Ok : Bytes → Prop} {E E' : DiodFid → Prop} {L : HostCall → Prop}
  {H : Host σ} {S : Npsrv}

/-! ### Requests one after the other -/

/-- **Serve a request** and be ready for the next. What the server asks others meanwhile
is answered by `r.1`. -/
def serveStep (H : Host σ) (S : Npsrv) (w : World σ) (r : Ans × Msg) : Option (World σ) :=
  match serve H S r.1 r.2 w with
  | (.ok _, w') => some w'
  | _ => none

/-- A connection on which nothing has happened yet. What the server has open for others
may be anything. -/
structure World.Blank (w : World σ) : Prop where
  pool : w.conn.pool = .empty
  rfid : w.rfid = none
  trace : w.trace = []

theorem World.blank_new (s : σ) : (World.new s).Blank := ⟨rfl, rfl, rfl⟩

variable {w : World σ} {tc : Msg} {x : Prog (Ost σ DiodFid) α}

theorem served_of_step {w' : World σ} {r : Ans × Msg} (h : serveStep H S w r = some w') :
    ∃ rc ecode reply, Served H S r.1 r.2 w rc ecode reply w' := by
  unfold serveStep at h
  split at h
  · rename_i reply w₁ hs
    cases h
    obtain ⟨rc, ecode, hs⟩ := serve_eq_ok H S r.1 hs
    exact ⟨rc, ecode, reply, hs⟩
  · cases h

theorem Served.rfid {ans : Ans} {w' : World σ} {rc reply : Option Msg} {ecode : ℕ}
    (hs : Served H S ans tc w rc ecode reply w') (hr : w.rfid = none) : w'.rfid = none := by
  obtain ⟨-, -, -, rfl⟩ | ⟨-, w₁, w₂, -, -, -, h⟩ := hs.cases
  · exact hr
  · exact (npPostprocessRequest_loose H h).2.2

section

variable {D : Aux → Prop}

variable {w : World σ}

theorem World.Blank.holds (hw : w.Blank) : Holds D L (fun _ _ => True) w where
  fids p f hf := by
    rw [hw.pool] at hf
    cases hf
  calls us k c err h := by
    rw [hw.trace] at h
    cases h
  own _ _ _ := trivial

/-- **What operations keep holds at any time**, if the requests are such that they keep
it. -/
theorem Reaches.holds (hl : Laws D L H) {cond : World σ → Ans × Msg → Prop} {w' : World σ}
    (hc : ∀ w r, Holds D L (fun _ _ => True) w → cond w r → Fcall.Lawful D L H S w r.2)
    (hw : w.Blank) (h : Reaches (serveStep H S) cond w w') : Holds D L (fun _ _ => True) w' := by
  refine (h.invariant (I := fun w => w.rfid = none ∧ Holds D L (fun _ _ => True) w)
    ⟨hw.rfid, hw.holds⟩ fun w w' r ⟨hr, hw⟩ hr' hs => ?_).2
  obtain ⟨rc, ecode, reply, hs⟩ := served_of_step hs
  exact ⟨hs.rfid hr, hl.served_holds r.1 hs hr (hc w r hw hr') hw⟩

end

/-! ### Invariants of the file server -/

/-- A property of what hangs on fids that is about the file server's. -/
def OfSrv (E : DiodFid → Prop) : Aux → Prop
  | .srv d => E d
  | _ => True

theorem guardedAt_of_upkeep {d : DiodFid} (hx : ∀ o, o.f = d → x.DoesAt (Op.Upkeep E L) o) :
    GuardedAt (OfSrv E) L d x := by
  intro o ho hf hD
  obtain ⟨he, l, hl, hc⟩ := hx o hf (hf ▸ hD)
  rw [hl, ho, List.nil_append]
  exact ⟨hc, he⟩

theorem guarded_of_upkeep (hx : x.Does (Op.Upkeep E L)) : Guarded (OfSrv E) L x :=
  fun o ho => guardedAt_of_upkeep (fun o _ => hx o) o ho rfl

theorem guarded_of_leaves (hx : x.Does (Op.Leaves E E L false)) : Guarded (OfSrv E) L x :=
  guarded_of_upkeep (Op.upkeep_of_leaves hx)

theorem guardedAt_of_leaves {d : DiodFid}
    (hx : ∀ o, o.f = d → x.DoesAt (Op.Leaves E E L false) o) : GuardedAt (OfSrv E) L d x :=
  guardedAt_of_upkeep fun o ho => Op.upkeepAt_of_leaves (hx o ho)

/-- The laws of an invariant of the file server. -/
theorem Op.Place.laws (hP : Op.Place Ok E L) (hc : ∀ c, Op.OwnCall c → L c) :
    Laws (OfSrv E) L H where
  null := trivial
  ctl _ := trivial
  auth _ := trivial
  call := hc
  destroy o ho hd := by
    have hG := hP.ground
    obtain ⟨l, hl, hc⟩ := (Op.diodFiddestroy_leaves (H := H) (E := fun g => Ok g.path.s)
      (t := false) hG.local_call (fun _ _ h => h) (fun _ h => h) (fun _ h _ => ⟨rfl, fun _ hc =>
      hG.one_path hc h⟩) o (hP.path o.f hd)).log
    rw [hl, ho, List.nil_append]
    exact hc

/-- **What is left to ask for a request**: where its names lead, what a walk does, what
becomes of a fid that is cloned or clunked. -/
def Fcall.Meets (Ok To : Bytes → Prop) (E : DiodFid → Prop) (L : HostCall → Prop) (H : Host σ)
    (w : World σ) : Msg → Prop
  | .tlcreate fid name _ _ _ => w.Finds fid fun d => Op.Leads To d.path name
  | .tsymlink fid name _ _ | .tmknod fid name _ _ _ _ | .tmkdir fid name _ _
  | .tunlinkat fid name _ => w.Finds fid fun d => Op.Leads Ok d.path name
  | .trename _ dfid name => w.Finds dfid fun d => Op.Leads To d.path name
  | .tlink dfid _ name => w.Finds dfid fun d => Op.Leads Ok d.path name
  | .trenameat olddirfid oldname newdirfid newname =>
      (w.Finds olddirfid fun d => Op.Leads Ok d.path oldname) ∧
      w.Finds newdirfid fun d => Op.Leads Ok d.path newname
  | .tattach _ _ _ aname _ => Ok (cstr aname) ∧ ∀ f, Op.Attached aname f → E f
  | .twalk fid newfid wnames =>
      (∀ wname ∈ wnames, (Op.diodWalk H wname).Does (Op.Upkeep E L)) ∧
      (fid ≠ newfid → w.Finds fid fun d => E { d with ioctx := none, xattr := none })
  | .tclunk fid => w.Finds fid fun d => ∀ o, o.f = d → (Op.diodClunk H).DoesAt (Op.Upkeep E L) o
  | _ => True

/-- **An invariant of the file server is kept by requests.** -/
theorem Op.Realm.lawful {To : Bytes → Prop} (hR : Op.Realm Ok To E L H)
    (htc : tc.Meets Ok To E L H w) : Fcall.Lawful (OfSrv E) L H S w tc := by
  have hG := hR.place.ground
  cases tc with
  | tstatfs => exact guarded_of_leaves (hG.statfs _)
  | tlopen =>
    exact fun uid => guarded_of_leaves (Op.diodLopen_leaves
      hG.local_call hG.set_ioctx fun f hf => hG.one_path rfl (hG.path f hf))
  | tlcreate =>
    exact fun p f d hp hf hd uid => guardedAt_of_leaves
      (fun o ho => hG.lcreate hR.ok hR.move fun _ => ho ▸ htc p f d hp hf hd)
  | tsymlink =>
    exact fun p f d hp hf hd => guardedAt_of_leaves (fun o ho => hG.make (Op.allocOr_leaves _)
      (fun _ => hG.one_path rfl) (fun _ => hG.one_path rfl) fun _ => ho ▸ htc p f d hp hf hd)
  | tmknod =>
    exact fun p f d hp hf hd => guardedAt_of_leaves (fun o ho => hG.make (Op.leaves.pure _)
      (fun _ => hG.one_path rfl) (fun _ => hG.one_path rfl) fun _ => ho ▸ htc p f d hp hf hd)
  | trename =>
    exact fun _ _ d _ _ _ p f e hp hf he _ => (guarded_of_leaves
      (hG.rename hR.ok hR.move (htc p f e hp hf he))).at d
  | treadlink => exact guarded_of_leaves hG.readlink
  | tgetattr => exact guarded_of_leaves (hG.getattr _ hR.mount)
  | tsetattr => exact guarded_of_leaves (hG.setattr _)
  | txattrwalk =>
    exact ⟨guarded_of_leaves (hG.xattrwalk _), fun _ _ _ => Op.xattrwalk_returns _ fun f x hf =>
      hR.hang f x none hf⟩
  | txattrcreate =>
    exact guarded_of_leaves (Op.diodXattrcreate_leaves _ _ _ fun f x hf => hR.hang f x f.ioctx hf)
  | treaddir => exact guarded_of_leaves (hG.readdir _ _ hR.list)
  | tfsync =>
    exact guarded_of_leaves (Op.leaves_of_tame
      (Op.hold.diodFsync H (fun _ => hG.no_path) _))
  | tlock =>
    exact guarded_of_leaves (Op.leaves_of_tame
      (Op.hold.diodLock H hG.local_call _ _))
  | tgetlock =>
    exact guarded_of_leaves (Op.leaves_of_tame
      (Op.hold.diodGetlock H hG.local_call _ _ _ _ _))
  | tlink =>
    exact fun _ _ d _ _ _ p f e hp hf he _ =>
      (guarded_of_leaves (hG.link (htc p f e hp hf he))).at d
  | tmkdir =>
    exact fun p f d hp hf hd => guardedAt_of_leaves (fun o ho => hG.make (Op.leaves.pure _)
      (fun _ => hG.one_path rfl) (fun _ => hG.one_path rfl) fun _ => ho ▸ htc p f d hp hf hd)
  | trenameat =>
    exact fun p f d hp hf hd q g e hq hg he _ => guardedAt_of_leaves
      (fun o ho => hG.renameat (fun _ => ho ▸ htc.1 p f d hp hf hd) (htc.2 q g e hq hg he))
  | tunlinkat =>
    exact fun p f d hp hf hd => guardedAt_of_leaves
      (fun o ho => hG.unlinkat fun _ => ho ▸ htc p f d hp hf hd)
  | tattach => exact fun uid => hG.attach _ uid htc.1 htc.2
  | twalk => exact ⟨fun n hn => guarded_of_upkeep (htc.1 n hn), htc.2⟩
  | tread =>
    exact guarded_of_leaves (Op.leaves_of_tame
      (Op.hold.diodRead H hG.local_call _ _))
  | twrite =>
    exact guarded_of_leaves (hG.write _ _ fun f x y hf hx =>
      hR.place.same f _ hf rfl rfl rfl (by rw [hx]; rfl))
  | tclunk => exact fun p f d hp hf hd => guardedAt_of_upkeep (htc p f d hp hf hd)
  | tremove => exact guarded_of_leaves hG.remove
  | _ => trivial

end Diod
