import Mathlib.Data.Set.Defs
import Diod.Npfs.Runs

/-!
# Where requests lead

The path of a fid is the name of an export, with a component for every name that the
client sent. Nothing looks at these names: `path_append` puts a slash and the name behind
the path, whatever is in it. So a client that sends `..`, or a name with slashes, gets
out of the export (`Diod.serve_leaves_export`), and one that sends neither does not.

Neither does the server then, as far as names go. But it goes to the parent by itself
where it finds a mount point, to see what the directory is called there, and it looks at
the entries of a directory, which has an entry `..`, if the host does not say what type
they are. On a host where this does not happen (`Diod.Host.Flat`) **every path that is
passed to a call is one of an export** (`Diod.serve_stays_in_export`).
-/

namespace Diod

open Prog

variable {σ : Type} {H : Host σ} {S : Npsrv} {As : Set Bytes}

/-! ### Paths below an export -/

/-- A component of a path, which does not lead out of its directory. -/
def Component (name : Bytes) : Prop := name ≠ [46, 46] ∧ 47 ∉ name

instance (name : Bytes) : Decidable (Component name) :=
  inferInstanceAs (Decidable (_ ∧ _))

/-- **A path that is `A` followed by components.** -/
def Under (A s : Bytes) : Prop :=
  ∃ names : List Bytes, (∀ n ∈ names, Component n) ∧ s = A ++ names.flatMap (47 :: ·)

theorem under_self (A : Bytes) : Under A A := ⟨[], by simp, by simp⟩

variable {name : Bytes}

theorem Under.append {A s : Bytes} (h : Under A s) (hn : Component name) :
    Under A (s ++ 47 :: name) := by
  obtain ⟨names, hc, rfl⟩ := h
  refine ⟨names ++ [name], fun n h => ?_, by simp⟩
  rcases List.mem_append.mp h with h | h
  · exact hc n h
  · rwa [List.mem_singleton.mp h]

/-- The parent is not a path with components. -/
theorem not_under_parent (A : Bytes) : ¬Under A (A ++ [47, 46, 46]) := by
  rintro ⟨names, hc, h⟩
  rw [List.append_cancel_left_eq] at h
  rcases names with _ | ⟨n, names⟩
  · cases h
  · have hn := hc n List.mem_cons_self
    simp only [List.flatMap_cons, List.cons_append, List.cons.injEq, true_and] at h
    rcases names with _ | ⟨m, names⟩
    · exact hn.1 (by simpa using h.symm)
    · have hm : (47 : UInt8) ∈ ([46, 46] : Bytes) := h ▸ by simp
      revert hm
      decide

/-- A path below one of some exports. -/
def Below (As : Set Bytes) (s : Bytes) : Prop := ∃ A ∈ As, Under A s

theorem Below.append {s : Bytes} (h : Below As s) (hn : Component name) :
    Below As (s ++ 47 :: name) :=
  let ⟨A, hA, h⟩ := h
  ⟨A, hA, h.append hn⟩

/-! ### Requests and hosts -/

/-- **The names in a request are components**, and it attaches to one of some
exports. -/
def Fcall.Within (As : Set Bytes) : Msg → Prop
  | .tattach _ _ _ aname _ => cstr aname ∈ As
  | .twalk _ _ wnames => ∀ wname ∈ wnames, Component (cstr wname)
  | .tlcreate _ name _ _ _ | .tsymlink _ name _ _ | .tmknod _ name _ _ _ _ | .tmkdir _ name _ _
  | .trename _ _ name | .tlink _ _ name | .tunlinkat _ name _ => Component (cstr name)
  | .trenameat _ oldname _ newname => Component (cstr oldname) ∧ Component (cstr newname)
  | _ => True

/-- **A host without mounts**, where a file is on the device of its directory, that
says what type the entries of a directory are, or at least that of `..`. -/
structure Host.Flat (H : Host σ) : Prop where
  dev : ∀ p q s s', (q = p ∨ ∃ name, q = p ++ 47 :: name) →
    (H.call (.lstat q) s).1.err = 0 → (H.call (.stat p) s').1.err = 0 →
    (H.call (.lstat q) s).1.st.dev = (H.call (.stat p) s').1.st.dev
  ents : ∀ fd off s, ∀ d ∈ (H.call (.readdir fd off) s).1.ents,
    d.type = Op.DT_UNKNOWN → Component d.name

/-- A call by paths of the exports. For its own files, the server opens some of
`/proc`. -/
def Confined (As : Set Bytes) (c : HostCall) : Prop :=
  (∀ s ∈ c.paths, Below As s) ∨ Op.OwnCall c

/-- A fid of an export. -/
def Exported (As : Set Bytes) (f : DiodFid) : Prop := Below As f.path.s ∧ f.mountpt = false

theorem Exported.leads {f : DiodFid} (h : Exported As f)
    (hn : Component (cstr name)) : Op.Leads (Below As) f.path name :=
  ⟨h.1, h.1.append hn⟩

theorem Host.Flat.realm (hH : H.Flat) :
    Op.Realm (Below As) (Below As) (Exported As) (Confined As) H where
  place := {
    call := fun _ h => .inl h
    path := fun _ h => h.1
    same := fun f f' h hp hm _ _ => ⟨hp ▸ h.1, hm ▸ h.2⟩ }
  ok _ h := h
  move _ _ h hq := ⟨hq, h.2⟩
  hang _ _ _ h := h
  mount f h hm := by
    rw [h.2] at hm
    cases hm
  list fd off s d hd f h ht _ :=
    .inl (by simpa [HostCall.paths] using h.1.append (hH.ents fd off s d hd ht))

/-- A walk by such a name does not leave the exports. -/
theorem Host.Flat.walk (hH : H.Flat) (hn : Component (cstr name)) :
    (Op.diodWalk H name).Does (Op.Upkeep (Exported As) (Confined As)) := by
  refine Op.upkeep_of_leaves (hH.realm.place.ground.walk (fun f hf _ => hf.1.append hn)
    fun f q r r₂ s s₂ hf _ hq hr he hr₂ he₂ => ?_)
  subst hr hr₂
  have hb : Below As q.s := by
    rcases hq with hq | hq <;> rw [hq]
    exacts [hf.1, hf.1.append hn]
  refine ⟨fun _ g hg => ⟨hb, hg.2⟩, fun hne => absurd ?_ hne⟩
  exact hH.dev _ _ _ _ (hq.imp id fun h => ⟨_, h⟩) he he₂

theorem Host.Flat.meets (hH : H.Flat) {w : World σ} {tc : Msg} (htc : tc.Within As)
    (hw : Holds (OfSrv (Exported As)) (Confined As) (fun _ _ => True) w) :
    tc.Meets (Below As) (Below As) (Exported As) (Confined As) H w := by
  have hE : ∀ {p f d}, w.conn.pool.get p = some f → f.aux = .srv d → Exported As d :=
    fun {p f d} hf hd => by
      have h := hw.fids p f hf
      rwa [hd] at h
  cases tc with
  | tlcreate | tsymlink | tmknod | tmkdir | tunlinkat | trename | tlink =>
    exact fun p f d hf _ hd => (hE hf hd).leads htc
  | trenameat =>
    exact ⟨fun p f d hf _ hd => (hE hf hd).leads htc.1, fun p f d hf _ hd => (hE hf hd).leads htc.2⟩
  | tattach =>
    have ha : Below As (cstr _) := ⟨_, htc, under_self _⟩
    exact ⟨ha, fun f hf => ⟨hf.1 ▸ ha, hf.2.1⟩⟩
  | twalk => exact ⟨fun n hn => hH.walk (htc n hn), fun _ p f d hf _ hd =>
      show Exported As d from hE hf hd⟩
  | tclunk =>
    exact fun p f d hf _ hd o ho => Op.upkeepAt_of_leaves
      (hH.realm.place.ground.clunk fun _ _ h => h)
  | _ => trivial

/-! ### Runs -/

/-- **Requests whose names are components do not leave the exports**: every path in a
call, and every path of a fid, is the name of an export followed by components. -/
theorem serve_stays_in_export (hH : H.Flat) {w w' : World σ} (hw : w.Blank)
    (h : Reaches (serveStep H S) (fun _ r => r.2.Within As) w w') :
    (∀ us k c err, Event.call us k c err ∈ w'.trace →
      (∀ s ∈ c.paths, ∃ A ∈ As, Under A s) ∨ Op.OwnCall c) ∧
    ∀ p f d, w'.conn.pool.get p = some f → f.aux = .srv d → ∃ A ∈ As, Under A d.path.s := by
  have hh := h.holds (hH.realm.place.laws fun _ h => .inr h)
    (fun w r hw hr => hH.realm.lawful (hH.meets hr hw)) hw
  refine ⟨hh.calls, fun p f d hf hd => ?_⟩
  have := hh.fids p f hf
  rw [hd] at this
  exact this.1

/-- A server with the export `/a`, and without authentication. -/
def exportA : Npsrv := { conf := { authRequired := false, exports := [⟨[47, 97], 0, none, none⟩] } }

/-- A user that is known. -/
def someUser : Ans := { user := .ok ⟨[], 1000, 1000, []⟩ }

/-- An attach to the export. -/
def attachA : Ans × Msg := (someUser, .tattach 1 NOFID [97] [47, 97] 1000)

theorem flat_steady : (Host.steady fun _ => {}).Flat :=
  ⟨fun _ _ _ _ _ _ _ => rfl, fun _ _ _ _ h => by cases h⟩

/-- An attach to `/a` and a walk to `b`. -/
theorem serve_stays_in_export_walk : ∃ w',
    Reaches (serveStep (.steady fun _ => {}) exportA)
      (fun _ r => r.2.Within {[47, 97]}) (World.new ()) w' ∧
    (∀ us k c err, Event.call us k c err ∈ w'.trace →
      (∀ s ∈ c.paths, ∃ A ∈ ({[47, 97]} : Set Bytes), Under A s) ∨ Op.OwnCall c) ∧
    ∀ p f d, w'.conn.pool.get p = some f → f.aux = .srv d →
      ∃ A ∈ ({[47, 97]} : Set Bytes), Under A d.path.s := by
  have hs : (runSteps (serveStep (.steady fun _ => {}) exportA) (World.new ())
    [attachA, (someUser, .twalk 1 2 [[98]])]).isSome = true := by decide +kernel
  obtain ⟨w', hs⟩ := Option.isSome_iff_exists.mp hs
  have h : Reaches (serveStep (.steady fun _ => {}) exportA)
      (fun _ r => r.2.Within {[47, 97]}) (World.new ()) w' := by
    refine reaches_of_forall (fun _ r hr => ?_) hs
    simp only [List.mem_cons, List.not_mem_nil, or_false] at hr
    rcases hr with rfl | rfl
    · exact rfl
    · exact fun n hn => by rw [List.mem_singleton.mp hn]; decide
  exact ⟨w', h, serve_stays_in_export flat_steady (World.blank_new ()) h⟩

/-- A look at the parent of the export. -/
def looksOut : Event → Bool
  | .call _ _ (.lstat s) _ => s == [47, 97, 47, 46, 46]
  | _ => false

/-- **A client gets out of an export**, by walking to `..`. -/
theorem serve_leaves_export : ∃ w',
    runSteps (serveStep (.steady fun _ => {}) exportA) (World.new ())
      [attachA, (someUser, .twalk 1 2 [[46, 46]])] = some w' ∧
    ∃ us k c err, Event.call us k c err ∈ w'.trace ∧ ¬Op.OwnCall c ∧
      ∃ s ∈ c.paths, ¬Under [47, 97] s := by
  have hs : ((runSteps (serveStep (.steady fun _ => {}) exportA) (World.new ())
    [attachA, (someUser, .twalk 1 2 [[46, 46]])]).map (·.trace.any looksOut)) = some true := by
    decide +kernel
  obtain ⟨w', hw, ht⟩ := Option.map_eq_some_iff.mp hs
  obtain ⟨v, hv, hl⟩ := List.any_eq_true.mp ht
  unfold looksOut at hl
  split at hl
  · rename_i us k s err
    obtain rfl := eq_of_beq hl
    refine ⟨w', hw, us, k, _, err, hv, ?_, _, List.mem_singleton.mpr rfl, not_under_parent [47, 97]⟩
    rintro (h | ⟨_, h⟩)
    · cases h.1
    · cases h
  · cases hl

end Diod
