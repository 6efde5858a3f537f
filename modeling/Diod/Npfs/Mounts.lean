import Diod.Npfs.Attributes

/-!
# Mount points

An export does not go beyond its file system: what is mounted somewhere below it is not
exported with it. This is enforced by a flag. `diod_walk` sets `DIOD_FID_FLAGS_MOUNTPT`
on a fid that it moves to a directory on another device, and refuses to move it on from
there. But **no other operation looks at the flag** (apart from `diod_getattr` and
`diod_readdir`, which want it for something else), and eight of them append a name to the
path of a fid. So a client can make a directory, or create a file, in a file system that
is mounted below the export (`Diod.serve_enters_mount`).

If names are only sent along with fids that are not at a mount point, the mounted file
systems are left alone (`Diod.serve_spares_mounts`). The mounts are given by the device
that each path is on, which does not change.
-/

namespace Diod

open Prog

variable {σ : Type} {H : Host σ} {S : Npsrv} {A : Bytes} {dev : Bytes → UInt64}

/-! ### What is mounted where -/

/-- **A mount point below `A`**: a path on another device than its directory. -/
def Mounted (A : Bytes) (dev : Bytes → UInt64) (m : Bytes) : Prop :=
  ∃ p n, Under A p ∧ Component n ∧ m = p ++ 47 :: n ∧ dev m ≠ dev p

/-- **A path in a file system that is mounted** below `A`. -/
def InMount (A : Bytes) (dev : Bytes → UInt64) (s : Bytes) : Prop :=
  ∃ m r, Mounted A dev m ∧ s = m ++ 47 :: r

variable {m p n s name : Bytes}

/-- A path is cut at a slash, and another one at its last. -/
theorem slash_cases {r : Bytes} (h : m ++ 47 :: r = p ++ 47 :: n) (hn : 47 ∉ n) :
    m = p ∧ r = n ∨ ∃ r', p = m ++ 47 :: r' := by
  rcases List.append_eq_append_iff.mp h with ⟨a, rfl, ha⟩ | ⟨a, rfl, ha⟩
  · rcases a with _ | ⟨x, a⟩
    · exact .inl ⟨by simp, by simpa using ha⟩
    · cases ha
      exact .inr ⟨a, rfl⟩
  · rcases a with _ | ⟨x, a⟩
    · exact .inl ⟨by simp, by simpa using ha.symm⟩
    · simp only [List.cons_append, List.cons.injEq] at ha
      exact absurd (by rw [ha.2]; simp) hn

/-- What lies in a directory that is not a mount point, and not in one, is in none. -/
theorem not_inMount_append (hp : ¬InMount A dev p) (hm : ¬Mounted A dev p)
    (hn : 47 ∉ n) : ¬InMount A dev (p ++ 47 :: n) := by
  rintro ⟨m, r, hmt, h⟩
  rcases slash_cases h.symm hn with ⟨rfl, -⟩ | ⟨r', rfl⟩
  exacts [hm hmt, hp ⟨m, r', hmt, rfl⟩]

/-- A path on the device of its directory is not a mount point. -/
theorem not_mounted_append (hn : 47 ∉ n) (hd : dev (p ++ 47 :: n) = dev p) :
    ¬Mounted A dev (p ++ 47 :: n) := by
  rintro ⟨p', n', -, hn', h, hne⟩
  rcases slash_cases h hn'.2 with ⟨rfl, -⟩ | ⟨r, rfl⟩
  · exact hne hd
  · rw [List.append_assoc, List.append_cancel_left_eq] at h
    exact hn (by rw [(List.cons.inj h).2]; simp)

theorem Under.length_le (h : Under A s) : A.length ≤ s.length := by
  obtain ⟨names, -, rfl⟩ := h
  simp

theorem Mounted.length_lt (h : Mounted A dev m) : A.length < m.length := by
  obtain ⟨p, n, hp, -, rfl, -⟩ := h
  have := hp.length_le
  simp only [List.length_append, List.length_cons]
  omega

theorem not_mounted_root : ¬Mounted A dev A := fun h => absurd h.length_lt (lt_irrefl _)

theorem not_inMount_root : ¬InMount A dev A := by
  rintro ⟨m, r, hm, h⟩
  have := hm.length_lt
  have hl := congrArg List.length h
  simp only [List.length_append, List.length_cons] at hl
  omega

/-! ### Hosts and requests -/

/-- **A host with these devices.** There are no symbolic links, so that `stat` and `lstat`
agree on them, and no slashes in the names of directory entries. -/
structure Host.Devices (H : Host σ) (A : Bytes) (dev : Bytes → UInt64) : Prop where
  lstat : ∀ p s, Under A p → (H.call (.lstat p) s).1.err = 0 →
    (H.call (.lstat p) s).1.st.dev = dev p
  stat : ∀ p s, Under A p → (H.call (.stat p) s).1.err = 0 →
    (H.call (.stat p) s).1.st.dev = dev p
  ents : ∀ fd off s, ∀ d ∈ (H.call (.readdir fd off) s).1.ents, 47 ∉ d.name

/-- The calls that find out about a directory, by its `.` and `..`. -/
inductive Glance (m : Bytes) : HostCall → Prop
  | stat : Glance m (.stat (m ++ [47, 46, 46]))
  | opendir : Glance m (.opendir (m ++ [47, 46, 46]))
  | self : Glance m (.lstat (m ++ [47, 46]))
  | parent : Glance m (.lstat (m ++ [47, 46, 46]))

/-- **A call that leaves mounted file systems alone.** It may be about a mount point
itself, or for the server's own files. -/
def SparesMounts (A : Bytes) (dev : Bytes → UInt64) (c : HostCall) : Prop :=
  (∀ s ∈ c.paths, InMount A dev s → ∃ m, Mounted A dev m ∧ Glance m c) ∨ Op.OwnCall c

/-- A path where anything may be done. -/
structure Outside (A : Bytes) (dev : Bytes → UInt64) (s : Bytes) : Prop where
  under : Under A s
  out : ¬InMount A dev s

/-- A path that is not a mount point either. -/
structure Inner (A : Bytes) (dev : Bytes → UInt64) (s : Bytes) : Prop
    extends Outside A dev s where
  inner : ¬Mounted A dev s

/-- **The flag is set at mount points.** -/
structure Marked (A : Bytes) (dev : Bytes → UInt64) (f : DiodFid) : Prop where
  path : Outside A dev f.path.s
  flag : Mounted A dev f.path.s → f.mountpt = true

theorem Marked.inner {f : DiodFid} (h : Marked A dev f) (hm : f.mountpt = false) :
    Inner A dev f.path.s :=
  ⟨h.path, fun h' => by rw [h.flag h'] at hm; cases hm⟩

theorem Inner.append (h : Inner A dev s) (hn : Component name) : Outside A dev (s ++ 47 :: name) :=
  ⟨h.under.append hn, not_inMount_append h.out h.inner hn.2⟩

/-- A call by one path, which finds out about a directory. -/
theorem Outside.glance (h : Outside A dev p) {c : HostCall}
    (hc : c.paths = [p ++ 47 :: n]) (hn : 47 ∉ n) (hg : Glance p c) : SparesMounts A dev c := by
  refine .inl fun s hs hm => ?_
  rw [hc, List.mem_singleton] at hs
  by_cases hp : Mounted A dev p
  · exact ⟨p, hp, hg⟩
  · exact absurd (hs ▸ hm) (not_inMount_append h.out hp hn)

theorem Outside.peeks (h : Outside A dev p) : Op.Peeks (SparesMounts A dev) p where
  self := .inl fun s hs hm => absurd (List.mem_singleton.mp hs ▸ hm) h.out
  parent := h.glance rfl (by decide) .stat
  list := h.glance rfl (by decide) .opendir
  own c hc := .inr (.inl hc)

theorem Host.Devices.realm (hH : H.Devices A dev) :
    Op.Realm (Outside A dev) (Inner A dev) (Marked A dev) (SparesMounts A dev) H where
  place := {
    call := fun c h => .inl fun s hs hm => absurd hm (h s hs).out
    path := fun _ h => h.path
    same := fun f f' h hp hm _ _ => ⟨hp ▸ h.path, fun hf => by rw [hm]; exact h.flag (hp ▸ hf)⟩ }
  ok _ h := h.toOutside
  move _ _ _ hq := ⟨hq.toOutside, fun h => absurd h hq.inner⟩
  hang _ _ _ h := ⟨h.path, h.flag⟩
  mount _ h _ := h.path.peeks
  list fd off s d hd f h _ hdot := by
    by_cases hm : Mounted A dev f.path.s
    · rcases hdot (h.flag hm) with hn | hn <;> rw [hn]
      · exact h.path.glance rfl (by decide) .self
      · exact h.path.glance rfl (by decide) .parent
    · refine .inl fun s' hs' hm' => absurd (List.mem_singleton.mp hs' ▸ hm') ?_
      exact not_inMount_append h.path.out hm (hH.ents fd off s d hd)

/-- A walk that gets to a mount point sets the flag. -/
theorem Host.Devices.walk (hH : H.Devices A dev) (hn : Component (cstr name)) :
    (Op.diodWalk H name).Does (Op.Upkeep (Marked A dev) (SparesMounts A dev)) := by
  refine Op.upkeep_of_leaves (hH.realm.place.ground.walk
    (fun f hf hm => (hf.inner hm).append hn) fun f q r r₂ s s₂ hf hm hq hr he hr₂ he₂ => ?_)
  subst hr hr₂
  have hi := hf.inner hm
  have ho : Outside A dev q.s := by
    rcases hq with hq | hq <;> rw [hq]
    exacts [hf.path, hi.append hn]
  refine ⟨fun hd g _ => ⟨ho, fun h => absurd h ?_⟩, fun _ => ⟨ho.peeks, fun g hg => ?_⟩⟩
  · rcases hq with hq | hq
    · rw [hq]
      exact hi.inner
    · rw [hH.lstat _ _ ho.under he, hH.stat _ _ hf.path.under he₂, hq] at hd
      rw [hq]
      exact not_mounted_append hn.2 hd
  · exact ⟨⟨hg.path, fun _ => rfl⟩, ho, fun _ => rfl⟩

/-- **Names are sent with fids that are not at a mount point**, and are components. A file
is not created, and a file not renamed, over a mount point. -/
def Fcall.AvoidsMounts (A : Bytes) (dev : Bytes → UInt64) (w : World σ) : Msg → Prop
  | .tattach _ _ _ aname _ => cstr aname = A
  | .twalk _ _ wnames => ∀ wname ∈ wnames, Component (cstr wname)
  | .tsymlink fid name _ _ | .tmknod fid name _ _ _ _ | .tmkdir fid name _ _
  | .tunlinkat fid name _ | .tlink fid _ name => Component (cstr name) ∧
      w.Finds fid fun d => d.mountpt = false
  | .tlcreate fid name _ _ _ | .trename _ fid name => Component (cstr name) ∧
      w.Finds fid fun d => d.mountpt = false ∧ ¬Mounted A dev (d.path.s ++ 47 :: cstr name)
  | .trenameat olddirfid oldname newdirfid newname =>
      (Component (cstr oldname) ∧ w.Finds olddirfid fun d => d.mountpt = false) ∧
      Component (cstr newname) ∧ w.Finds newdirfid fun d => d.mountpt = false
  | _ => True

theorem Host.Devices.meets (hH : H.Devices A dev) {w : World σ} {tc : Msg}
    (htc : tc.AvoidsMounts A dev w)
    (hw : Holds (OfSrv (Marked A dev)) (SparesMounts A dev) (fun _ _ => True) w) :
    tc.Meets (Outside A dev) (Inner A dev) (Marked A dev) (SparesMounts A dev) H w := by
  have hE : ∀ {p f d}, w.conn.pool.get p = some f → f.aux = .srv d → Marked A dev d :=
    fun {p f d} hf hd => by
      have h := hw.fids p f hf
      rwa [hd] at h
  have hok : ∀ {n name}, Component (cstr name) ∧ (w.Finds n fun d => d.mountpt = false) →
      w.Finds n fun d => Op.Leads (Outside A dev) d.path name :=
    fun h p f d hf hn hd =>
      ⟨(hE hf hd).path, ((hE hf hd).inner (h.2 p f d hf hn hd)).append h.1⟩
  have hto : ∀ {n name}, Component (cstr name) ∧ (w.Finds n fun d => d.mountpt = false ∧
      ¬Mounted A dev (d.path.s ++ 47 :: cstr name)) →
      w.Finds n fun d => Op.Leads (Inner A dev) d.path name := fun h p f d hf hn hd => by
    obtain ⟨hm, hmt⟩ := h.2 p f d hf hn hd
    have hi := (hE hf hd).inner hm
    exact ⟨hi, hi.append h.1, hmt⟩
  cases tc with
  | tsymlink | tmknod | tmkdir | tunlinkat | tlink => exact hok htc
  | tlcreate | trename => exact hto htc
  | trenameat => exact ⟨hok htc.1, hok htc.2⟩
  | tattach _ _ _ aname _ =>
    have ha : cstr aname = A := htc
    have hr : Outside A dev A := ⟨under_self A, not_inMount_root⟩
    exact ⟨ha ▸ hr, fun f hf => ⟨hf.1.trans ha ▸ hr, fun h => absurd (hf.1.trans ha ▸ h)
      not_mounted_root⟩⟩
  | twalk => exact ⟨fun n hn => hH.walk (htc n hn), fun _ p f d hf _ hd =>
      have h : Marked A dev d := hE hf hd
      ⟨h.path, h.flag⟩⟩
  | tclunk =>
    exact fun p f d hf _ hd o ho => Op.upkeepAt_of_leaves
      (hH.realm.place.ground.clunk fun _ _ h => ⟨h.path, h.flag⟩)
  | _ => trivial

/-! ### Runs -/

/-- **What is mounted below an export is left alone**, and a fid that gets to a mount point
is marked. -/
theorem serve_spares_mounts (hH : H.Devices A dev) {w w' : World σ} (hw : w.Blank)
    (h : Reaches (serveStep H S) (fun w r => r.2.AvoidsMounts A dev w) w w') :
    (∀ us k c err, Event.call us k c err ∈ w'.trace →
      (∀ s ∈ c.paths, InMount A dev s → ∃ m, Mounted A dev m ∧ Glance m c) ∨ Op.OwnCall c) ∧
    ∀ p f d, w'.conn.pool.get p = some f → f.aux = .srv d →
      ¬InMount A dev d.path.s ∧ (Mounted A dev d.path.s → d.mountpt = true) := by
  have hh := h.holds (hH.realm.place.laws fun _ h => .inr h)
    (fun w r hw hr => hH.realm.lawful (hH.meets hr hw)) hw
  refine ⟨hh.calls, fun p f d hf hd => ?_⟩
  have := hh.fids p f hf
  rw [hd] at this
  exact ⟨this.path.out, this.flag⟩

/-! ### A file system on `/a/m` -/

/-- The device of a path, with another one for `/a/m` and what is below it. -/
def devM (s : Bytes) : UInt64 :=
  if s = [47, 97, 47, 109] ∨ [47, 97, 47, 109, 47] <+: s ∧ s ≠ [47, 97, 47, 109, 47, 46, 46]
  then 1 else 0

/-- A host with these devices, where every directory has an entry `m`. -/
def mountM : Host Unit := .steady fun
  | .stat s | .lstat s => { st := { (default : Stat) with dev := devM s } }
  | .readdir .. => { ents := [⟨1, 1, 4, [109]⟩] }
  | _ => {}

theorem mountM_devices : mountM.Devices [47, 97] devM where
  lstat _ _ _ _ := rfl
  stat _ _ _ _ := rfl
  ents _ _ _ d hd := by
    rw [List.mem_singleton.mp hd]
    decide

theorem mounted_m : Mounted [47, 97] devM [47, 97, 47, 109] :=
  ⟨[47, 97], [109], under_self _, by decide, rfl, by decide⟩

/-- A walk from the root to `m`. -/
def walkM : Ans × Msg := (someUser, .twalk 1 2 [[109]])

/-- A look at the mount point. -/
theorem serve_spares_mounts_getattr : ∃ w',
    Reaches (serveStep mountM exportA) (fun w r => r.2.AvoidsMounts [47, 97] devM w)
      (World.new ()) w' ∧
    (∀ us k c err, Event.call us k c err ∈ w'.trace →
      (∀ s ∈ c.paths, InMount [47, 97] devM s → ∃ m, Mounted [47, 97] devM m ∧ Glance m c) ∨
        Op.OwnCall c) ∧
    ∃ p f d, w'.conn.pool.get p = some f ∧ f.aux = .srv d ∧ d.mountpt = true := by
  have hs : (runSteps (serveStep mountM exportA) (World.new ())
    [attachA, walkM, (someUser, .tgetattr 2 0)]).map (·.finds 2 (·.mountpt)) = some true := by
    decide +kernel
  obtain ⟨w', hs, hm⟩ := Option.map_eq_some_iff.mp hs
  have h : Reaches (serveStep mountM exportA)
      (fun w r => r.2.AvoidsMounts [47, 97] devM w) (World.new ()) w' := by
    refine reaches_of_forall (fun _ r hr => ?_) hs
    simp only [List.mem_cons, List.not_mem_nil, or_false] at hr
    rcases hr with rfl | rfl | rfl
    · exact rfl
    · exact fun n hn => by rw [List.mem_singleton.mp hn]; decide
    · trivial
  exact ⟨w', h, (serve_spares_mounts mountM_devices (World.blank_new ()) h).1,
    World.exists_of_finds hm⟩

/-- A directory that is made in the mounted file system. -/
def makesIn : Event → Bool
  | .call _ _ (.mkdir s _) err => s == [47, 97, 47, 109, 47, 120] && err == 0
  | _ => false

/-- **A client makes a directory in a mounted file system**, by the fid of its mount
point, which is marked. -/
theorem serve_enters_mount : mountM.Devices [47, 97] devM ∧ ∃ w',
    runSteps (serveStep mountM exportA) (World.new ())
      [attachA, walkM, (someUser, .tmkdir 2 [120] 0 0)] = some w' ∧
    (∃ us k s mode, Event.call us k (.mkdir s mode) 0 ∈ w'.trace ∧ InMount [47, 97] devM s) ∧
    ∃ p f d, w'.conn.pool.get p = some f ∧ f.aux = .srv d ∧ d.mountpt = true := by
  have hs : (runSteps (serveStep mountM exportA) (World.new ())
    [attachA, walkM, (someUser, .tmkdir 2 [120] 0 0)]).map
      (fun w => (w.trace.any makesIn, w.finds 2 (·.mountpt))) = some (true, true) := by
    decide +kernel
  obtain ⟨w', hw, ht⟩ := Option.map_eq_some_iff.mp hs
  obtain ⟨ht, hm⟩ := Prod.mk.inj ht
  obtain ⟨v, hv, hl⟩ := List.any_eq_true.mp ht
  refine ⟨mountM_devices, w', hw, ?_, World.exists_of_finds hm⟩
  unfold makesIn at hl
  split at hl
  · rename_i us k s mode err
    obtain ⟨hs, he⟩ := Bool.and_eq_true_iff.mp hl
    obtain rfl := eq_of_beq hs
    obtain rfl := eq_of_beq he
    exact ⟨us, k, _, mode, hv, _, [120], mounted_m, rfl⟩
  · cases hl

end Diod
