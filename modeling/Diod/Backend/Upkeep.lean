import Diod.Backend.Effects

/-!
# What operations keep of a fid

An operation is given a fid of the file server and may change it. Started on a fid with a
property `E`, it **leaves** one with `E₁` (`Diod.Op.Leaves`), however it ends, by calls of
a kind `L`. The calls go by the path of the fid, so the two belong together:
`Diod.Op.Site` says of which paths `E` fids are, and that `L` lets looks at such paths
pass; on a `Diod.Op.Ground` any call may be made.

What an operation needs beyond that is asked of it alone: that a name leads from a
path to one that is as good, that a fid may be moved there, that an attribute may be
hung on it. An invariant that all requests are to keep has all of these, and
`Diod.Npfs.Kept` lifts it to runs. How far a fid is from what it was is such a property
as well, and with it each operation is summed up by `Diod.Op.Tame`.

## Main results

* `Diod.Op.pathAppendOr_s`: what a name does to a path.
* `Diod.Op.Site.walk`, the operation that decides by what the host answers.
* `Diod.Op.Site.attach` and `Diod.Op.xattrwalk_returns`, of the two that make a fid.
-/

namespace Diod

namespace Op

open Prog

variable {σ α β : Type} {Ok T : Bytes → Prop} {E E₁ E₂ : DiodFid → Prop} {L : HostCall → Prop}
  {t : Bool}

/-! ### Upkeep -/

/-- From fids with `E` to fids with `E₁`, by calls of the kind `L`. -/
def Takes (E E₁ : DiodFid → Prop) (L : HostCall → Prop) (_ : End) (o o' : Ost σ DiodFid) : Prop :=
  E o.f → E₁ o'.f ∧ ∃ l, o'.log = o.log ++ l ∧ ∀ c ∈ l, L c.1

/-- **A property of the fid is kept up.** -/
abbrev Upkeep (E : DiodFid → Prop) (L : HostCall → Prop) (e : End) (o o' : Ost σ DiodFid) : Prop :=
  Takes E E L e o o'

/-- The same, with what an operation does to the error number. -/
def Leaves (E E₁ : DiodFid → Prop) (L : HostCall → Prop) (t : Bool) (e : End)
    (o o' : Ost σ DiodFid) : Prop :=
  E o.f → Tame L (fun _ => E₁) t e o o'

variable {e : End} {o o' : Ost σ DiodFid} {x : Prog (Ost σ DiodFid) α}
  {g : DiodFid → Prog (Ost σ DiodFid) α} {K : DiodFid → DiodFid → Prop}

theorem upkeepAt_of_leaves (h : x.DoesAt (Leaves E E L false) o) : x.DoesAt (Upkeep E L) o :=
  fun ho => ⟨(h ho).fid, (h ho).log⟩

theorem upkeep_of_leaves (h : x.Does (Leaves E E L false)) : x.Does (Upkeep E L) :=
  fun o => upkeepAt_of_leaves (h o)

theorem Leaves.trans {e' : End} {o₂ : Ost σ DiodFid} (h : Leaves E E₁ L t e o o')
    (h' : Leaves E₁ E₂ L t e' o' o₂) : Leaves E E₂ L t (e.join e') o o₂ :=
  fun ho => (h ho).trans (h' (h ho).fid) fun _ h => h

theorem Leaves.mono (h : Leaves E E₁ L t e o o') (hE : ∀ f, E₁ f → E₂ f) : Leaves E E₂ L t e o o' :=
  fun ho => (h ho).mono (fun _ h => h) fun _ => hE

theorem leaves : Effect (Leaves (σ := σ) E E L t) where
  refl _ _ h := ⟨⟨[], by simp, by simp⟩, h, fun _ _ h => h⟩
  trans := Leaves.trans

/-- The property may change on the way. -/
theorem leaves_bind {f : α → Prog (Ost σ DiodFid) β} (hx : x.Does (Leaves E E₁ L t))
    (hf : ∀ a, (f a).Does (Leaves E₁ E₂ L t)) (hE : ∀ f, E₁ f → E₂ f) :
    (x >>= f).Does (Leaves E E₂ L t) :=
  fun o => (hx o).bind (fun a o' _ => hf a o') (fun _ _ _ h => h.mono hE) fun _ _ _ h h' =>
    h.trans h'

/-- The changes of a fid that keep a property of it. -/
def Hold (E : DiodFid → Prop) (f f' : DiodFid) : Prop := E f → E f'

theorem hold : Change (Hold E) := ⟨fun _ h => h, fun h h' hf => h' (h hf)⟩

theorem Tame.leaves (h : Tame L (Hold E) t e o o') : Leaves E E L t e o o' :=
  fun ho => { h with fid := h.fid ho }

theorem leaves_of_tame (h : x.Does (Tame L (Hold E) t)) : x.Does (Leaves E E L t) :=
  fun o => (h o).leaves

/-- How far a fid is from what it was is a property as well. -/
theorem Change.tameAt (hK : Change K) (h : x.DoesAt (Leaves (K o.f) (K o.f) L t) o) :
    x.DoesAt (Tame L K t) o :=
  { h (hK.refl _) with }

theorem Change.tame (hK : Change K) (h : ∀ f, x.Does (Leaves (K f) (K f) L t)) :
    x.Does (Tame L K t) :=
  fun o => hK.tameAt (h o.f o)

/-- The change that is none. -/
theorem alone : Change (Eq : DiodFid → DiodFid → Prop) := ⟨fun _ => rfl, Eq.trans⟩

theorem fid_of_does {r : Res α}
    (hx : x.Does (Tame Any Eq false)) (h : x o = (r, o')) : o'.f = o.f :=
  ((hx o).of_eq h).fid.symm

/-- The fid that is read has the property. -/
theorem fid_leaves (h : ∀ f, E f → (g f).Does (Leaves E E₁ L t)) :
    (Op.fid >>= g).Does (Leaves E E₁ L t) :=
  fun o ho => h o.f ho o ho

theorem fid_leavesAt (h : E o.f → (g o.f).Does (Leaves E E₁ L t)) :
    (Op.fid >>= g).DoesAt (Leaves E E₁ L t) o :=
  fun ho => h ho o ho

theorem setFid_leaves {g : DiodFid → DiodFid} (hg : ∀ f, E f → E₁ (g f)) :
    (setFid g : Prog (Ost σ DiodFid) Unit).Does (Leaves E E₁ L t) :=
  fun o ho => ⟨⟨[], (List.append_nil _).symm, by simp⟩, hg o.f ho, fun _ _ h => h⟩

theorem setFid_bind_leaves {g : DiodFid → DiodFid} (hg : ∀ f, E f → E₁ (g f))
    (hx : x.Does (Leaves E₁ E₂ L t)) : (setFid g >>= fun _ => x).Does (Leaves E E₂ L t) :=
  fun o ho => { hx { o with f := g o.f } (hg o.f ho) with }

variable {H : Host σ}

theorem allocOr_leaves (e : ℕ) : (allocOr H e : Prog (Ost σ DiodFid) Unit).Does (Leaves E E L t) :=
  leaves_of_tame (hold.allocOr H e)

theorem malloc_leaves : (malloc H : Prog (Ost σ DiodFid) Malloc).Does (Leaves E E L t) :=
  leaves_of_tame (hold.malloc H)

theorem fail_leaves (e : ℕ) : (fail e : Prog (Ost σ DiodFid) α).Does (Leaves E E L t) :=
  leaves_of_tame (hold.fail e)

theorem failIf_leaves (c : Prop) [Decidable c] (e : ℕ) :
    (failIf c e : Prog (Ost σ DiodFid) Unit).Does (Leaves E E L t) :=
  leaves_of_tame (hold.failIf c e)

theorem pathDecref_leaves (p : Path) :
    (pathDecref p : Prog (Ost σ DiodFid) Unit).Does (Leaves E E L t) :=
  leaves_of_tame (hold.pathDecref p)

theorem npUerror_leaves (e : ℕ) :
    (npUerror e : Prog (Ost σ DiodFid) Unit).Does (Leaves E E L false) :=
  leaves_of_tame (hold.npUerror e)

theorem syscall_leaves {c : HostCall} (hc : L c) :
    (syscall H c : Prog (Ost σ DiodFid) HostReply).Does (Leaves E E L t) :=
  leaves_of_tame (hold.syscall H hc)

theorem sysOr_leaves {c : HostCall} (hc : L c) :
    (sysOr H c : Prog (Ost σ DiodFid) HostReply).Does (Leaves E E L t) :=
  leaves_of_tame (hold.sysOr H hc)

/-- An operation that ends by answering, or for want of memory does not. -/
theorem reply_leaves {e : ℕ} (m : Msg) :
    (allocOr H e >>= fun _ => pure m).Does (Leaves E E L t) :=
  leaves_of_tame (hold.reply H e m)

variable (H) in
theorem sysOr_returns (c : HostCall) : (sysOr H c : Prog (Ost σ DiodFid) HostReply).Returns
    fun r => (∃ s, (H.call c s).1 = r) ∧ r.err = 0 := by
  intro o r o' h
  obtain ⟨r₁, o₁, h₁, h⟩ := bind_eq_ok h
  cases h₁
  split at h
  · cases h
    exact ⟨⟨_, rfl⟩, ‹_›⟩
  · cases h

variable (H) in
theorem syscall_returns (c : HostCall) : (syscall H c : Prog (Ost σ DiodFid) HostReply).Returns
    fun r => ∃ s, (H.call c s).1 = r := by
  intro o r o' h
  cases h
  exact ⟨_, rfl⟩

/-! ### Paths -/

section

variable (H)

theorem pathAlloc_s (s : Bytes) : (pathAlloc H s).Returns fun q => q.s = cstr s := by
  refine returns_of_last fun o => ?_
  split
  · rename_i id x hf
    obtain ⟨-, hx⟩ := Heap.get_of_find hf
    exact returns_of_last fun _ => returns_pure (by simpa [Path.s] using hx)
  · exact returns_of_last fun _ => returns_of_last fun _ => returns_of_last fun _ =>
      returns_of_last fun _ => returns_pure rfl

theorem pathCreate_s (ns : Bytes) : (pathCreate H ns).Returns fun q => q.s = cstr ns :=
  returns_of_last fun _ => pathAlloc_s H ns

theorem cstr_append (bs cs : Bytes) : cstr (bs ++ 47 :: cs) = cstr bs ∨
    cstr (bs ++ 47 :: cs) = cstr bs ++ 47 :: cstr cs := by
  unfold cstr
  rw [List.takeWhile_append]
  split
  · right
    rename_i h
    rw [List.takeWhile_cons_of_pos (by decide), (List.takeWhile_prefix _).eq_of_length h]
  · left
    rfl

variable {H} in
theorem pathAppendOr_eq_ok {p q : Path} {ns : Bytes}
    (h : pathAppendOr H p ns o = (.ok q, o')) : pathAppend H p ns o = (.ok q, o') := by
  obtain ⟨r, o₁, ha, h⟩ := bind_eq_ok h
  rcases attempt_eq_ok ha with ⟨p', rfl, hp⟩ | ⟨rfl, -⟩
  · cases h
    exact hp
  · cases h

/-- **What a name does to a path**: it is appended, unless there is a NUL in the
way. -/
theorem pathAppendOr_s (p : Path) (ns : Bytes) : (pathAppendOr H p ns).Returns fun q =>
    q.s = p.s ∨ q.s = p.s ++ 47 :: cstr ns := by
  intro o q o' h
  obtain ⟨_, o₁, -, h⟩ := bind_eq_ok (pathAppendOr_eq_ok h)
  have hs := pathAlloc_s H _ o₁ _ _ h
  rcases cstr_append p.buf ns with h | h
  · exact .inl (hs.trans h)
  · exact .inr (hs.trans h)

end

/-! ### Places -/

/-- **Fids whose paths are `Ok`**, and the calls on such paths. What is open on the fid,
or what the attribute is, does not matter. -/
structure Place (Ok : Bytes → Prop) (E : DiodFid → Prop) (L : HostCall → Prop) : Prop where
  call : ∀ c : HostCall, (∀ s ∈ c.paths, Ok s) → L c
  path : ∀ f, E f → Ok f.path.s
  same : ∀ f f', E f → f'.path = f.path → f'.mountpt = f.mountpt → f'.isXattr = f.isXattr →
    f'.xattr.isSome = f.xattr.isSome → E f'

/-- The same, where the attribute matters and the calls only look. -/
structure Site (Ok : Bytes → Prop) (E : DiodFid → Prop) (L : HostCall → Prop) : Prop where
  look : ∀ c : HostCall, Look c → (∀ s ∈ c.paths, Ok s) → L c
  path : ∀ f, E f → Ok f.path.s
  same : ∀ f f', E f → f'.path = f.path → f'.mountpt = f.mountpt → f'.isXattr = f.isXattr →
    f'.xattr = f.xattr → E f'

/-- The same, for any call. -/
structure Ground (Ok : Bytes → Prop) (E : DiodFid → Prop) (L : HostCall → Prop) : Prop
    extends Site Ok E L where
  call : ∀ c : HostCall, (∀ s ∈ c.paths, Ok s) → L c

theorem Place.ground (hP : Place Ok E L) : Ground Ok E L where
  look c _ := hP.call c
  path := hP.path
  same f f' h hp hm hi hx := hP.same f f' h hp hm hi (by rw [hx])
  call := hP.call

variable {m a : Bool}

/-- Wherever a fid is, it may be looked there. -/
theorem sight (f : DiodFid) : Site (fun _ => True) (Moves m a f) Look where
  look _ h _ := h
  path _ _ := trivial
  same _ _ h hp _ _ hx := moves.trans h (moves_of_same hp hx)

theorem anywhere (f : DiodFid) : Ground (fun _ => True) (Moves m a f) Any where
  look _ _ _ := trivial
  path _ _ := trivial
  same _ _ h hp _ _ hx := moves.trans h (moves_of_same hp hx)
  call _ _ := trivial

/-- A name leads from a path to one that is `Ok`, also if there is a NUL in the way. -/
structure Leads (Ok : Bytes → Prop) (p : Path) (name : Bytes) : Prop where
  path : Ok p.s
  name : Ok (p.s ++ 47 :: cstr name)

variable {c : HostCall} {s name : Bytes} {p : Path} {d : DiodFid}

/-- The path that a name leads to. -/
theorem Leads.append (hn : Leads Ok p name) {f : Path → Prog (Ost σ DiodFid) α}
    (h : ∀ q, Ok q.s → (f q).Does (Leaves E E L t)) :
    (pathAppendOr H p name >>= f).Does (Leaves E E L t) :=
  leaves.bind_returns (leaves_of_tame (hold.pathAppendOr H p name)) (pathAppendOr_s H _ _)
    fun q hq => h q (by
      rcases hq with hq | hq <;> rw [hq]
      exacts [hn.path, hn.name])

theorem leads_anywhere : Leads (fun _ => True) p name := ⟨trivial, trivial⟩

/-! ### Descriptors and attributes -/

section

variable (hL : ∀ c, Local c → L c) (hi : ∀ f i, E f → E { f with ioctx := i })

include hL hi

theorem ioctxOpen_leaves {uid flags mode : UInt32}
    (ho : ∀ f, E f → L (.openFile f.path.s flags mode)) :
    (ioctxOpen H uid flags mode).Does (Leaves E E L t) :=
  fun _ h => (hold.ioctxOpen H hL hi uid flags mode (ho _ h)).leaves h

theorem ioctxClose_leaves {seterrno : Bool} (ht : seterrno = true → t = false) :
    (ioctxClose H seterrno).Does (Leaves E E L t) :=
  leaves_of_tame (hold.ioctxClose H hL hi ht)

omit hL hi in
theorem xattrClose_leaves (hd : ∀ f, E f → E { f with xattr := none }) (hp : E o.f →
      o.f.pending = true → t = false ∧ ∀ c : HostCall, c.paths = [o.f.path.s] → L c) :
    (xattrClose H).DoesAt (Leaves E E L t) o :=
  fun h => (hold.xattrClose H hd (hp h)).leaves h

/-- Destroying a fid calls the host by path only if an attribute is pending. -/
theorem diodFiddestroy_leaves (hd : ∀ f, E f → E { f with xattr := none }) (hp : ∀ f, E f →
      f.pending = true → t = false ∧ ∀ c : HostCall, c.paths = [f.path.s] → L c) :
    (diodFiddestroy H).Does (Leaves E E L t) :=
  fid_leaves fun _ _ =>
  leaves.bind (leaves.when fun _ => leaves.bind (ioctxClose_leaves hL hi fun h => by cases h)
    fun _ => leaves.pure _) fun _ =>
  leaves.bind (leaves.when fun _ => leaves.bind (fun _ => xattrClose_leaves hd (hp _))
    fun _ => leaves.pure _) fun _ => pathDecref_leaves _

/-- So does clunking it. -/
theorem diodClunk_leaves (hd : o.f.isXattr = true → ∀ f, E f → E { f with xattr := none })
    (hp : E o.f → o.f.pending = true → ∀ c : HostCall, c.paths = [o.f.path.s] → L c) :
    (diodClunk H).DoesAt (Leaves E E L false) o := by
  refine doesAt_fid_bind (leaves.bindAt ?_ fun _ o₁ _ =>
    leaves.bind (leaves.when fun _ => leaves.stop) (fun _ => reply_leaves _) o₁)
  exact doesAt_ite (fun hx => xattrClose_leaves (hd hx) fun h h' => ⟨rfl, hp h h'⟩) fun _ =>
    doesAt_ite (fun _ => ioctxClose_leaves hL hi (fun _ => rfl) o) fun _ => leaves.pure _ o

theorem diodLopen_leaves {uid flags : UInt32}
    (ho : ∀ f, E f → L (.openFile f.path.s (remapOflags flags &&& ~~~O_CREAT) 0)) :
    (diodLopen H uid flags).Does (Leaves E E L t) := by
  refine leaves.bind (failIf_leaves _ _) fun _ => fid_leaves fun f hf =>
    leaves.bind (failIf_leaves _ _) fun _ => leaves.bind (ioctxOpen_leaves hL hi ho) fun i =>
    leaves.bind (leaves_of_tame (hold.derefIoctx i)) fun x => leaves.bind malloc_leaves fun m => ?_
  rcases m with _ | _
  · exact leaves.bind (ioctxClose_leaves hL hi fun h => by cases h) fun _ => fail_leaves _
  · exact leaves.pure _

end

theorem diodFiddestroy_tame (hL : ∀ c, Local c → L c)
    (ho : o.f.pending = true → t = false ∧ ∀ c, L c) :
    (diodFiddestroy H).DoesAt (Tame L (Moves m a) t) o :=
  (moves.tameAt (diodFiddestroy_leaves hL (fun _ _ h => moves.trans h (moves_of_same rfl rfl))
    (fun _ h => moves.trans h (moves_close rfl rfl))
    (fun _ h hp => ⟨(ho (h.2 rfl hp)).1, fun c _ => (ho (h.2 rfl hp)).2 c⟩) o)).mono
    fun _ _ h => h.mono (fun _ h => h) fun _ _ h => h.mono

theorem diodClunk_tame (hL : ∀ c, Local c → L c) (ho : o.f.pending = true → ∀ c, L c) :
    (diodClunk H).DoesAt (Tame L (Moves m a) false) o :=
  moves.tameAt (diodClunk_leaves hL (fun _ _ h => moves.trans h (moves_of_same rfl rfl))
    (fun _ _ h => moves.trans h (moves_close rfl rfl)) fun _ h c _ => ho h c)

theorem diodLopen_tame (hL : ∀ c, Local c → L c) {uid flags : UInt32}
    (ho : ∀ p, L (.openFile p (remapOflags flags &&& ~~~O_CREAT) 0)) :
    (diodLopen H uid flags).Does (Tame L (Moves m a) t) :=
  moves.tame fun _ => diodLopen_leaves hL
    (fun _ _ h => moves.trans h (moves_of_same rfl rfl)) fun _ _ => ho _

/-- **An attribute to be written** is hung on the fid. -/
theorem diodXattrcreate_leaves (name : Bytes) (size : UInt64) (flags : UInt32)
    (hg : ∀ f x, E f → E { f with xattr := some x, isXattr := true }) :
    (diodXattrcreate H name size flags).Does (Leaves E E L t) := by
  rw [diodXattrcreate, xattrCreate, Prog.bind_assoc]
  refine fid_leaves fun f hf => ?_
  rw [Prog.bind_assoc]
  refine leaves.bind (leaves.when fun _ => leaves.crash) fun _ => ?_
  rw [Prog.bind_assoc]
  refine leaves.bind (leaves_of_tame (hold.xattrAlloc H _ _ _ _)) fun x => ?_
  -- between the two the flag is missing
  have hx : ∀ g, E g → (fun g => E { g with isXattr := true }) { g with xattr := some x } :=
    fun g => hg g x
  exact setFid_bind_leaves hx (setFid_bind_leaves (fun _ h => h) (reply_leaves _))

/-- What is done on another fid does not change this one. -/
theorem onFid_leaves {nf : DiodFid} (hx : x.Does (Leaves E₁ E₁ L t)) (hn : E₁ nf) :
    (onFid nf x).Does (Leaves E E L t) := by
  intro o ho
  have hx := hx { o with f := nf } hn
  unfold onFid
  rcases h : x { o with f := nf } with ⟨r, o'⟩
  rw [h] at hx
  cases r <;> exact { hx with fid := ho }

theorem onFid_returns {nf : DiodFid} (hx : x.Does (Leaves E₁ E₁ L t)) (hn : E₁ nf) :
    (onFid nf x).Returns fun r => E₁ r.2 := by
  intro o r o' h
  have hx := hx { o with f := nf } hn
  unfold onFid at h
  rcases hxo : x { o with f := nf } with ⟨r', o₁⟩
  rw [hxo] at h hx
  rcases r' with b | _ | _
  · cases h
    exact hx.fid
  · cases h
  · cases h

/-! ### Operations that look -/

section

variable (hS : Site Ok E L)

include hS

theorem Site.local_call (c : HostCall) (h : Local c) : L c := hS.look c h.2 (by simp [h.1])

theorem Site.set_ioctx (f : DiodFid) (i : Option ℕ) (h : E f) : E { f with ioctx := i } :=
  hS.same f _ h rfl rfl rfl rfl

/-- A look at one path. -/
theorem Site.at (h : c.paths = [s]) (hc : Look c) (hs : Ok s) : L c :=
  hS.look c hc (by simpa [h] using hs)

omit hS in
theorem walkStat_leaves {q : Path} {st : Stat} {dev : UInt64} {qid : Stat → Npqid}
    (he : st.dev = dev → ∀ g, E g → E { g with path := q })
    (hne : st.dev ≠ dev →
      Peeks L q.s ∧ ∀ g, E g →
        E { g with mountpt := true } ∧ E { g with mountpt := true, path := q }) :
    (Op.walkStat H q st dev >>= fun st => pathDecref p >>= fun _ =>
      setFid (fun f => { f with path := q }) >>= fun _ => pure (qid st)).Does (Leaves E E L t) := by
  unfold Op.walkStat
  by_cases hd : st.dev = dev
  · rw [if_neg (not_not.mpr hd)]
    exact leaves.bind (leaves.pure _) fun _ => leaves.bind (pathDecref_leaves _) fun _ =>
      leaves.bind (setFid_leaves (he hd)) fun _ => leaves.pure _
  · rw [if_pos hd, bind_assoc]
    obtain ⟨hL, hm⟩ := hne hd
    refine leaves.bind (leaves_of_tame (hold.statmnt H hL)) fun r => ?_
    split
    · -- the flag is set before the path, so in between the fid is at neither place
      rw [bind_assoc]
      have hs : (setFid fun g => { g with mountpt := true } : Prog (Ost σ DiodFid) Unit).Does
          (Leaves E (fun g => E g ∧ E { g with path := q }) L t) := setFid_leaves hm
      refine leaves_bind hs (fun _ => ?_) fun _ h => h.1
      refine leaves_bind (leaves.pure _) (fun _ => leaves_bind (pathDecref_leaves _) (fun _ =>
        leaves_bind (setFid_leaves fun _ h => h.2) (fun _ => leaves.pure _) fun _ h => h)
        fun _ h => h.1) fun _ h => h.1
    · rename_i e _
      exact fun o => doesAt_of_eq (bind_of_stop rfl) (fail_leaves (α := Stat) e o)

theorem Site.walk (hn : ∀ f, E f → f.mountpt = false → Ok (f.path.s ++ 47 :: cstr name))
    (hw : ∀ f q r r₂ s s₂, E f → f.mountpt = false →
      (q.s = f.path.s ∨ q.s = f.path.s ++ 47 :: cstr name) →
      (H.call (.lstat q.s) s).1 = r → r.err = 0 → (H.call (.stat f.path.s) s₂).1 = r₂ → r₂.err = 0 →
      (r.st.dev = r₂.st.dev → ∀ g, E g → E { g with path := q }) ∧
      (r.st.dev ≠ r₂.st.dev →
        Peeks L q.s ∧ ∀ g, E g →
          E { g with mountpt := true } ∧ E { g with mountpt := true, path := q })) :
    (diodWalk H name).Does (Leaves E E L t) := by
  refine fid_leaves fun f hf o => ?_
  by_cases hm : f.mountpt = true
  · rw [failIf, Prog.when, if_pos hm]
    exact doesAt_of_eq (bind_of_stop rfl) (fail_leaves (α := Unit) ENOENT o)
  rw [failIf, Prog.when, if_neg hm]
  refine leaves.bind (leaves.pure ()) (fun _ => leaves.bind_returns
    (leaves_of_tame (hold.pathAppendOr H f.path name)) (pathAppendOr_s H _ _) fun q hq => ?_) o
  have hq' : Ok q.s := by
    rcases hq with hq | hq <;> rw [hq]
    exacts [hS.path f hf, hn f hf (by simpa using hm)]
  refine leaves.done ?_ (fun _ => leaves.when fun _ => pathDecref_leaves q)
    (when_isNone_ne_stop _)
  refine leaves.bind_returns (sysOr_leaves (hS.at rfl rfl hq')) (sysOr_returns H _) ?_
  rintro r ⟨⟨s, hr⟩, he⟩
  refine leaves.bind_returns (sysOr_leaves (hS.at rfl rfl (hS.path f hf))) (sysOr_returns H _) ?_
  rintro r₂ ⟨⟨s₂, hr₂⟩, he₂⟩
  obtain ⟨h, h'⟩ := hw f q r r₂ s s₂ hf (by simpa using hm) hq hr he hr₂ he₂
  exact walkStat_leaves h h'

/-- What is done to a fid with nothing pending once it is made to attach. -/
theorem Site.attachStat (C : Conf) (uid : UInt32) (aname : Bytes) (hp : Ok p.s)
    (hs : ∀ f, E f → E { f with sharefd := true }) (hx : ∀ f, E f → E { f with xattr := none })
    (hn : ∀ f, E f → f.pending = false) : (Prog.done (Op.attachStat H C uid aname p) fun r =>
      .when r.isNone (diodFiddestroy H)).Does (Leaves E E L t) := by
  refine leaves.done ?_ (fun _ => leaves.when fun _ => diodFiddestroy_leaves hS.local_call
    hS.set_ioctx hx fun f h hp => ?_) (when_isNone_ne_stop _)
  · exact leaves.bind (failIf_leaves _ _) fun _ => leaves.bind malloc_leaves fun _ =>
      leaves.bind (leaves.when fun _ => setFid_leaves hs) fun _ =>
      leaves.bind (sysOr_leaves (hS.at rfl rfl hp)) fun _ => reply_leaves _
  · rw [hn f h] at hp
    cases hp

theorem Site.statfs (C : Conf) : (diodStatfs H C).Does (Leaves E E L t) :=
  fid_leaves fun f hf => leaves.bind (sysOr_leaves (hS.at rfl rfl (hS.path f hf))) fun _ =>
    leaves.bind (does_ite (fun _ => leaves.bind (sysOr_leaves (hS.at rfl rfl (hS.path f hf)))
      fun _ => leaves.pure _) fun _ => leaves.pure _) fun _ => reply_leaves _

theorem Site.readlink : (diodReadlink H).Does (Leaves E E L t) :=
  fid_leaves fun f hf => leaves.bind (sysOr_leaves (hS.at rfl rfl (hS.path f hf))) fun _ =>
    reply_leaves _

omit hS in
theorem onFile_leaves {path : Bytes → HostCall} {fd : ℕ → HostCall}
    (hp : ∀ f, E f → L (path f.path.s)) (hf : ∀ n, L (fd n)) :
    (onFile H path fd).Does (Leaves E E L t) := by
  refine fid_leaves fun f hE => ?_
  split
  · exact leaves.bind (leaves_of_tame (hold.derefIoctx _)) fun _ => sysOr_leaves (hf _)
  · exact sysOr_leaves (hp f hE)

/-- A mount point is looked at from its parent. -/
theorem Site.getattr (mask : UInt64) (hm : ∀ f, E f → f.mountpt = true → Peeks L f.path.s) :
    (diodGetattr H mask).Does (Leaves E E L t) := by
  refine fid_leaves fun f hf => leaves.bind (does_ite (fun h => ?_) fun _ => leaves.bind
    (onFile_leaves (fun f hf => hS.at rfl rfl (hS.path f hf)) fun _ => hS.local_call _ ⟨rfl, rfl⟩)
    fun _ => leaves.pure _) fun _ => reply_leaves _
  refine leaves.bind (leaves_of_tame (hold.statmnt H (hm f hf h))) fun r => ?_
  split
  · exact leaves.pure _
  · exact fail_leaves _

theorem Site.xattrOpen (name : Bytes)
    (hs : ∀ f x, x.set = false → E f → E { f with xattr := some x }) :
    (Op.xattrOpen H name).Does (Leaves E E L t) := by
  refine fid_leaves fun f hf => leaves.bind (leaves.when fun _ => leaves.crash) fun _ =>
    leaves.attempt_bind (leaves_of_tame (hold.xattrAlloc H name 0 false 0))
      (xattrAlloc_set H name 0 false 0) (fun x hx => ?_) leaves.crash fun _ h => by cases h
  refine leaves.bind_returns (leaves_of_tame (hold.lgetxattr H x f.path.s fun c hc hl =>
    hS.at hc hl (hS.path f hf))) (lgetxattr_set H x f.path.s) fun y hy => ?_
  exact leaves.bind (setFid_leaves fun g hg => hs g y (hy.trans hx) hg) fun _ => leaves.pure _

/-- A fid at a good path with nothing pending. -/
def Calm (Ok : Bytes → Prop) (f : DiodFid) : Prop := Ok f.path.s ∧ f.pending = false

/-- The fid of an attribute that was read, from one with nothing pending. -/
theorem Site.xattrwalkOpen (name : Bytes) :
    (Op.xattrwalkOpen H name).Does (Leaves (Calm Ok) (Calm Ok) L t) := by
  have hc : Site Ok (Calm Ok) L := ⟨hS.look, fun _ h => h.1, fun f f' h hp _ _ hx =>
    ⟨hp ▸ h.1, by rw [DiodFid.pending, hx]; exact h.2⟩⟩
  refine leaves.done (leaves.bind (hc.xattrOpen name fun f x hx h => ⟨h.1, hx⟩) fun _ =>
    leaves.bind (setFid_leaves fun _ h => h) fun _ => reply_leaves _) (fun _ => leaves.when fun _ =>
    diodFiddestroy_leaves hc.local_call hc.set_ioctx (fun _ h => ⟨h.1, rfl⟩) fun f h hp => ?_)
    (when_isNone_ne_stop _)
  rw [h.2] at hp
  cases hp

theorem Site.calm_of_clone {nf : DiodFid} (ho : E o.f) (h : diodFidclone H o = (.ok nf, o')) :
    Calm Ok nf := by
  rw [diodFidclone_eq_ok H h]
  exact ⟨hS.path o.f ho, rfl⟩

theorem Site.xattrwalk (name : Bytes) : (diodXattrwalk H name).Does (Leaves E E L t) :=
  fun _ ho => leaves.bindAt ((hold.diodFidclone H _).leaves) (fun _ o₁ h =>
    onFid_leaves (hS.xattrwalkOpen name) (hS.calm_of_clone ho h) o₁) ho

end

/-! ### Directories -/

theorem copyDirentLinux_leaves {d : Dirent} (buflen : ℕ)
    (hd : d.type = DT_UNKNOWN → L (.lstat (o.f.path.s ++ 47 :: d.name))) :
    (copyDirentLinux H d buflen).DoesAt (Leaves E E L false) o :=
  doesAt_fid_bind <| doesAt_ite
    (fun h => leaves.bind (syscall_leaves (hd h)) (fun _ => does_ite
      (fun _ => leaves.bind (npUerror_leaves _) fun _ => leaves.pure _) fun _ => leaves.pure _) o)
    fun _ => leaves.pure _ o

/-- An entry of unknown type may be looked at. In a mount point only `.` and `..` are. -/
def Lists (E : DiodFid → Prop) (L : HostCall → Prop) (d : Dirent) : Prop :=
  ∀ f, E f → d.type = DT_UNKNOWN → (f.mountpt = true → d.name = [46] ∨ d.name = [46, 46]) →
    L (.lstat (f.path.s ++ 47 :: d.name))

theorem readDirLoop_leaves (count err : ℕ) : ∀ (ds : List Dirent) (bs : Bytes),
    (∀ d ∈ ds, Lists E L d) → (readDirLoop H count err ds bs).Does (Leaves E E L false)
  | [], _, _ => leaves.bind (leaves.when fun _ => npUerror_leaves _) fun _ => leaves.pure _
  | d :: ds, bs, hds => fun o ho => by
    have ih : ∀ bs, (readDirLoop H count err ds bs).Does (Leaves E E L false) := fun bs =>
      readDirLoop_leaves count err ds bs fun d h => hds d (List.mem_cons_of_mem _ h)
    refine (show DoesAt (Leaves E E L false) _ o from
      doesAt_fid_bind (doesAt_ite (fun _ => ?_) fun h => ?_)) ho
    · exact does_ite (fun _ => ih bs) (fun _ => leaves.pure _) o
    · -- the entry is looked at by the fid that was just read
      have hd : d.type = DT_UNKNOWN → L (.lstat (o.f.path.s ++ 47 :: d.name)) := fun ht =>
        hds d List.mem_cons_self o.f ho ht fun hm => by
          by_contra hn
          exact h ⟨hm, not_or.mp hn⟩
      exact leaves.bindAt (copyDirentLinux_leaves _ hd) fun e o₁ _ => does_ite
        (fun _ => leaves.pure _) (fun _ => does_ite (fun _ => ih _) fun _ => leaves.pure _) o₁

/-- An error is found in the error number, and only there. -/
theorem ecode_leaves {r : α → β} (hx : x.Does (Leaves E E L false)) :
    (x >>= fun b => Prog.read >>= fun o => Prog.when (o.ecode ≠ 0) .stop >>= fun _ =>
      pure (r b)).Does (Leaves E E L t) := by
  intro o ho
  have hl := hx o ho
  rcases h : x o with ⟨y, o₁⟩
  rw [h] at hl
  rcases y with b | _ | _
  · by_cases he : o₁.ecode = 0
    · have hw : Prog.when (o₁.ecode ≠ 0) .stop o₁ = (.ok (), o₁) := by
        rw [Prog.when, if_neg (not_not.mpr he)]
        rfl
      rw [(bind_of_ok h).trans ((read_bind _ _).trans (bind_of_ok hw))]
      exact { hl with ecode := fun _ _ _ => he }
    · have hw : Prog.when (o₁.ecode ≠ 0) .stop o₁ = (.stop, o₁) := by
        rw [Prog.when, if_pos he]
        rfl
      rw [(bind_of_ok h).trans ((read_bind _ _).trans (bind_of_stop hw))]
      exact { hl with ecode := fun _ h => by cases h }
  · rw [bind_of_stop h]
    exact { hl with ecode := fun _ h => by cases h }
  · rw [bind_of_crash h]
    exact { hl with ecode := fun _ h => by cases h }

/-- **Listing a directory.** -/
theorem Site.readdir (hS : Site Ok E L) (offset : UInt64) (count : UInt32)
    (hl : ∀ fd off s, ∀ d ∈ (H.call (.readdir fd off) s).1.ents, Lists E L d) :
    (diodReaddir H offset count).Does (Leaves E E L t) := by
  refine leaves.bind (leaves_of_tame hold.openOr) fun x => leaves.bind (allocOr_leaves _) fun _ =>
    ecode_leaves (does_ite (fun _ => ?_) fun _ =>
      leaves.bind (npUerror_leaves _) fun _ => leaves.pure _)
  refine leaves.bind_returns (syscall_leaves (hS.local_call _ ⟨rfl, rfl⟩)) (syscall_returns H _) ?_
  rintro r ⟨s, rfl⟩
  exact readDirLoop_leaves _ _ _ _ (hl _ _ _)

/-! ### Operations that modify -/

section

variable (hG : Ground Ok E L) {uid flags mode : UInt32}

include hG

theorem Ground.no_path (h : c.paths = []) : L c :=
  hG.call c (by simp [h])

theorem Ground.one_path (h : c.paths = [s]) (hs : Ok s) : L c :=
  hG.call c (by simpa [h] using hs)

theorem Ground.two_paths {s' : Bytes} (h : c.paths = [s, s']) (hs : Ok s) (hs' : Ok s') : L c :=
  hG.call c (by simpa [h] using ⟨hs, hs'⟩)

omit hG in
/-- The attribute that is acted on is the fid's own. -/
theorem xattrOrIoctx_inl {x : Xattr}
    (h : xattrOrIoctx o = (.ok (.inl x), o')) : o' = o ∧ o.f.xattr = some x := by
  obtain ⟨f, o₁, hf, h⟩ := bind_eq_ok h
  cases hf
  split at h
  · rcases hx : o.f.xattr with _ | y
    · rw [hx] at h
      cases h
    · rw [hx] at h
      cases h
      exact ⟨rfl, rfl⟩
  · obtain ⟨_, _, -, h⟩ := bind_eq_ok h
    cases h

/-- What is written to an attribute leaves it an attribute. -/
theorem Ground.write (offset : UInt64) (data : Bytes)
    (hx : ∀ f x y, E f → f.xattr = some x → E { f with xattr := some y }) :
    (diodWrite H offset data).Does (Leaves E E L t) := by
  refine leaves.bind (leaves_of_tame hold.openOrXattr) fun _ o =>
    leaves.bindAt (leaves_of_tame hold.xattrOrIoctx o) fun x o₁ h =>
    leaves.bindAt ?_ fun n o₂ _ => reply_leaves _ o₂
  rcases x with x | x
  · obtain ⟨rfl, hf⟩ := xattrOrIoctx_inl h
    simp only [writeTo]
    rcases xattrPwrite x data offset with e | r
    · exact fail_leaves _ o₁
    · exact fun ho => ⟨⟨[], (List.append_nil _).symm, by simp⟩, hx o₁.f x _ ho hf, fun _ _ h => h⟩
  · exact leaves.bind (sysOr_leaves (hG.no_path rfl)) (fun _ => leaves.pure _) o₁

theorem Ground.clunk (hd : o.f.isXattr = true → ∀ f, E f → E { f with xattr := none }) :
    (diodClunk H).DoesAt (Leaves E E L false) o :=
  diodClunk_leaves hG.local_call hG.set_ioctx hd fun ho _ _ hc => hG.one_path hc (hG.path _ ho)

/-- Creating a file moves the fid there, and back if it fails. -/
theorem Ground.lcreate (ht : ∀ s, T s → Ok s) (hm : ∀ f q, E f → T q.s → E { f with path := q })
    (hn : E o.f → Leads T o.f.path name) :
    (diodLcreate H uid name flags mode).DoesAt (Leaves E E L t) o := by
  refine leaves.bindAt (failIf_leaves _ _ o) fun _ o₁ h => ?_
  have hf : o₁.f = o.f := fid_of_does (alone.failIf _ _) h
  refine fid_leavesAt fun ho => leaves.bind (failIf_leaves _ _) fun _ => ?_
  rw [hf] at ho ⊢
  refine (hn ho).append fun q hq => ?_
  refine leaves.bind (setFid_leaves fun f hf => hm f q hf hq) fun _ => leaves.done ?_
    (fun _ => leaves.when fun _ => leaves.bind (pathDecref_leaves q) fun _ =>
      setFid_leaves fun g hg => hm g o.f.path hg (hn ho).path) (when_isNone_ne_stop _)
  refine leaves.bind (ioctxOpen_leaves hG.local_call hG.set_ioctx fun f hf =>
    hG.one_path rfl (hG.path f hf)) fun i =>
    leaves.bind (leaves_of_tame (hold.derefIoctx i)) fun x => leaves.bind malloc_leaves fun m => ?_
  rcases m with _ | _
  · exact leaves.bind (ioctxClose_leaves hG.local_call hG.set_ioctx fun h => by cases h) fun _ =>
      leaves.bind (syscall_leaves (hG.one_path rfl (ht _ hq))) fun _ => fail_leaves _
  · exact leaves.bind (pathDecref_leaves _) fun _ => leaves.pure _

/-- What makes a file in a directory. -/
theorem Ground.make {prepare : Prog (Ost σ DiodFid) Unit}
    {make undo : Bytes → HostCall} {reply : Npqid → Msg}
    (hp : prepare.Does (Leaves E E L t)) (hm : ∀ s, Ok s → L (make s))
    (hu : ∀ s, Ok s → L (undo s)) (hn : E o.f → Leads Ok o.f.path name) :
    (diodMake H name prepare make undo reply).DoesAt (Leaves E E L t) o := by
  refine fid_leavesAt fun ho => (hn ho).append fun q hq => leaves.done ?_
    (fun _ => pathDecref_leaves q) fun _ => pathDecref_ne_stop q
  refine leaves.bind hp fun _ => leaves.bind (sysOr_leaves (hm _ hq)) fun _ =>
    leaves.bind (sysOr_leaves (hG.one_path rfl hq)) fun r => leaves.bind malloc_leaves fun m => ?_
  rcases m with _ | _
  · exact leaves.bind (syscall_leaves (hu _ hq)) fun _ => fail_leaves _
  · exact leaves.pure _

theorem Ground.link (hn : Leads Ok d.path name) : (diodLink H d name).Does (Leaves E E L t) := by
  refine fid_leaves fun f hf => hn.append fun q hq => leaves.done ?_
    (fun _ => pathDecref_leaves q) fun _ => pathDecref_ne_stop q
  refine leaves.bind (sysOr_leaves (hG.two_paths rfl (hG.path f hf) hq)) fun _ =>
    leaves.bind malloc_leaves fun m => ?_
  rcases m with _ | _
  · exact leaves.bind (syscall_leaves (hG.one_path rfl hq)) fun _ => fail_leaves _
  · exact leaves.pure _

theorem Ground.remove : (diodRemove H).Does (Leaves E E L t) :=
  fid_leaves fun f hf => leaves.bind (sysOr_leaves (hG.one_path rfl (hG.path f hf))) fun _ =>
    reply_leaves _

theorem Ground.rename (ht : ∀ s, T s → Ok s)
    (hm : ∀ f q, E f → T q.s → E { f with path := q }) (hn : Leads T d.path name) :
    (diodRename H d name).Does (Leaves E E L t) := by
  refine fid_leaves fun f hf => hn.append fun q hq => leaves.done ?_
    (fun _ => leaves.when fun _ => pathDecref_leaves q) (when_isNone_ne_stop _)
  have hq' := ht _ hq
  refine leaves.bind (sysOr_leaves (hG.two_paths rfl (hG.path f hf) hq')) fun _ =>
    leaves.bind malloc_leaves fun m => ?_
  rcases m with _ | _
  · have hc : L (.rename q.s f.path.s) := hG.two_paths rfl hq' (hG.path f hf)
    exact leaves.bind (syscall_leaves hc) fun _ => fail_leaves _
  · exact leaves.bind (pathDecref_leaves _) fun _ =>
      leaves.bind (setFid_leaves fun f hf => hm f q hf hq) fun _ => leaves.pure _

theorem Ground.renameat {oldname newname : Bytes}
    (ho : E o.f → Leads Ok o.f.path oldname) (hn : Leads Ok d.path newname) :
    (diodRenameat H oldname d newname).DoesAt (Leaves E E L t) o :=
  fid_leavesAt fun hf => (ho hf).append fun p hp => leaves.done
    (hn.append fun q hq => leaves.done
      (leaves.bind (sysOr_leaves (hG.two_paths rfl hp hq)) fun _ => reply_leaves _)
      (fun _ => pathDecref_leaves q) fun _ => pathDecref_ne_stop q)
    (fun _ => pathDecref_leaves p) fun _ => pathDecref_ne_stop p

theorem Ground.unlinkat (hn : E o.f → Leads Ok o.f.path name) :
    (diodUnlinkat H name flags).DoesAt (Leaves E E L t) o :=
  fid_leavesAt fun hf => (hn hf).append fun q hq => leaves.done
    (leaves.bind (sysOr_leaves (hG.one_path rfl hq)) fun _ =>
      leaves.bind (failIf_leaves _ _) fun _ =>
      leaves.bind (sysOr_leaves (hG.one_path (s := q.s) (by split <;> rfl) hq)) fun _ =>
      reply_leaves _)
    (fun _ => pathDecref_leaves q) fun _ => pathDecref_ne_stop q

theorem Ground.setattr (a : Nptsetattr) : (diodSetattr H a).Does (Leaves E E L t) := by
  have h : ∀ {path : Bytes → HostCall} {fd : ℕ → HostCall} {c : Prop} [Decidable c],
      (∀ s, (path s).paths = [s]) → (∀ n, (fd n).paths = []) →
      (Prog.when c (onFile H path fd >>= fun _ => pure ())).Does (Leaves E E L t) :=
    fun hp hf => leaves.when fun _ => leaves.bind (onFile_leaves (fun f h =>
      hG.one_path (hp _) (hG.path f h)) fun n => hG.no_path (hf n)) fun _ => leaves.pure _
  exact leaves.bind (h (fun _ => rfl) fun _ => rfl) fun _ =>
    leaves.bind (h (fun _ => rfl) fun _ => rfl) fun _ =>
    leaves.bind (h (fun _ => rfl) fun _ => rfl) fun _ =>
    leaves.bind (h (fun _ => rfl) fun _ => rfl) fun _ =>
    leaves.bind (h (fun _ => rfl) fun _ => rfl) fun _ => reply_leaves _

end

theorem diodMake_tame {prepare : Prog (Ost σ DiodFid) Unit} {make undo : Bytes → HostCall}
    {reply : Npqid → Msg} (hp : ∀ {f}, prepare.Does (Leaves (Moves m a f) (Moves m a f) Any t)) :
    (diodMake H name prepare make undo reply).Does (Tame Any (Moves m a) t) :=
  fun o => moves.tameAt ((anywhere o.f).make hp (fun _ _ => trivial)
    (fun _ _ => trivial) fun _ => leads_anywhere)

/-! ### Making fids -/

/-- A new fid. -/
theorem diodFidalloc_takes {ns : Bytes} (hE : ∀ p : Path, p.s = cstr ns →
    E ⟨p, none, none, false, false, false⟩) {f : Path → Prog (Ost σ DiodFid) Msg}
    (hf : ∀ p : Path, p.s = cstr ns → (f p).Does (Leaves E E L false)) (o : Ost σ DiodFid) :
    (∃ l, ((diodFidalloc H ns >>= f) o).2.log = o.log ++ l ∧ ∀ c ∈ l, L c.1) ∧
    ∀ m o', (diodFidalloc H ns >>= f) o = (.ok m, o') → E o'.f := by
  have ha := diodFidalloc_tame (L := L) (a := false) (t := false) H ns o
  rcases h : diodFidalloc H ns o with ⟨r, o₁⟩
  have ha := ha.of_eq h
  rcases r with p | _ | _
  · rw [bind_of_ok h]
    -- the fid that was made is at the path that was asked for
    obtain ⟨_, o₂, -, h⟩ := bind_eq_ok h
    obtain ⟨r, o₃, ht, h⟩ := bind_eq_ok h
    obtain ⟨hp, h₁⟩ : p.s = cstr ns ∧ o₁.f = ⟨p, none, none, false, false, false⟩ := by
      rcases attempt_eq_ok ht with ⟨p', rfl, hx⟩ | ⟨rfl, -⟩
      · cases h
        exact ⟨pathCreate_s H ns _ _ _ hx, rfl⟩
      · cases h
    have hy := ha.trans (M := fun _ => E) (hf p hp o₁ (h₁ ▸ hE p hp)) fun _ h => h
    refine ⟨hy.log, fun m o' h => ?_⟩
    have hy := hy.fid
    rwa [h] at hy
  · rw [bind_of_stop h]
    exact ⟨ha.log, fun _ _ h => by cases h⟩
  · rw [bind_of_crash h]
    exact ⟨ha.log, fun _ _ h => by cases h⟩

/-- What a fid is when it is attached. -/
def Attached (aname : Bytes) (f : DiodFid) : Prop :=
  f.path.s = cstr aname ∧ f.mountpt = false ∧ f.isXattr = false ∧ f.xattr = none

/-- **Attaching** makes a fid at the root. -/
theorem Site.attach (hS : Site Ok E L) (C : Conf) (uid : UInt32) {aname : Bytes}
    (ha : Ok (cstr aname)) (hE : ∀ f, Attached aname f → E f) :
    (∀ o, o.log = [] → ∀ c ∈ (diodAttach H C uid aname o).2.log, L c.1) ∧
    ∀ o m o', diodAttach H C uid aname o = (.ok m, o') → E o'.f := by
  have hA : Site Ok (Attached aname) L :=
    ⟨hS.look, fun f h => h.1 ▸ ha, fun f f' h hp hm hi hx =>
      ⟨hp ▸ h.1, hm ▸ h.2.1, hi ▸ h.2.2.1, hx.trans h.2.2.2⟩⟩
  have hd := fun o => diodFidalloc_takes (H := H) (E := Attached aname)
    (fun p hp => ⟨hp, rfl, rfl, rfl⟩) (fun p hp => hA.attachStat (H := H) C uid aname
      (hp ▸ ha) (fun _ h => h) (fun f h => ⟨h.1, h.2.1, h.2.2.1, rfl⟩)
      fun f h => by simp [DiodFid.pending, h.2.2.2]) o
  refine ⟨fun o ho c hc => ?_, fun o m o' h => hE _ ((hd o).2 m o' h)⟩
  obtain ⟨l, hl, hl'⟩ := (hd o).1
  rw [diodAttach, hl, ho, List.nil_append] at hc
  exact hl' c hc

/-- Attaching looks at the file, by whatever credentials the thread has. -/
theorem diodAttach_tame (C : Conf) (uid : UInt32) (aname : Bytes) (ho : o.f.pending = false) :
    (diodAttach H C uid aname).DoesAt (Tame Look (Moves true false) t) o := by
  refine moves.tameAt (leaves.bindAt ?_ fun p o₁ _ =>
    (sight o.f).attachStat C uid aname trivial ?_ ?_ ?_ o₁)
  · exact fun _ => { diodFidalloc_tame (L := Look) (a := false) (t := t) H aname o with }
  · exact fun _ h => moves.trans h (moves_of_same rfl rfl)
  · exact fun _ h => moves.trans h (moves_close rfl rfl)
  · intro f h
    by_contra hp
    rw [h.2 rfl (by simpa using hp)] at ho
    cases ho

/-- An attribute that was opened hangs on the fid. -/
theorem xattrOpen_eq_ok {n : ℕ}
    (h : Op.xattrOpen H name o = (.ok n, o')) : ∃ x, o'.f = { o.f with xattr := some x } := by
  obtain ⟨f, o₁, hf, h⟩ := bind_eq_ok h
  cases hf
  obtain ⟨_, o₁, hw, h⟩ := bind_eq_ok h
  obtain ⟨r, o₂, ha, h⟩ := bind_eq_ok h
  have h₁ := fid_of_does (alone.effect.when fun _ => alone.effect.crash) hw
  have h₂ := fid_of_does (fun o => ((alone.xattrAlloc H name 0 false 0) o).attempt fun _ h =>
    ⟨h.log, h.fid, fun h => by cases h⟩) ha
  rcases r with _ | x
  · cases h
  · obtain ⟨y, o₃, hl, h⟩ := bind_eq_ok h
    have h₃ := fid_of_does (alone.lgetxattr H x o.f.path.s fun _ _ _ => trivial) hl
    cases h
    exact ⟨y, by simp [h₁, h₂, h₃]⟩

theorem xattrwalkFill_eq_ok {m : Msg} (h : xattrwalkFill H name o = (.ok m, o')) :
    ∃ x, o'.f = { o.f with xattr := some x, isXattr := true } := by
  obtain ⟨n, o₁, hx, h⟩ := bind_eq_ok h
  obtain ⟨x, hx⟩ := xattrOpen_eq_ok hx
  obtain ⟨_, o₂, hs, h⟩ := bind_eq_ok h
  cases hs
  obtain ⟨_, o₃, ha, h⟩ := bind_eq_ok h
  have h₃ := fid_of_does (alone.allocOr H _) ha
  cases h
  exact ⟨x, by simp [h₃, hx]⟩

/-- **Walking to an attribute** makes a fid at the same place with the attribute on
it. -/
theorem xattrwalk_returns (name : Bytes)
    (hg : ∀ f x, E f → E { f with ioctx := none, xattr := some x, isXattr := true })
    {r : Msg × DiodFid} (ho : E o.f) (h : diodXattrwalk H name o = (.ok r, o')) : E r.2 := by
  obtain ⟨nf, o₁, hn, h⟩ := bind_eq_ok h
  unfold onFid at h
  rcases hx : xattrwalkOpen H name { o₁ with f := nf } with ⟨r', o₂⟩
  rw [hx] at h
  rcases r' with m | _ | _
  · cases h
    obtain ⟨o₃, r, hf, hy, -⟩ := done_eq hx (by simp)
    obtain ⟨x, hf⟩ := xattrwalkFill_eq_ok hf
    cases hy
    simp only [hf, diodFidclone_eq_ok H hn]
    exact hg o.f x ho
  · cases h
  · cases h

theorem diodXattrwalk_pending (name : Bytes) :
    (diodXattrwalk H name).Returns fun r => r.2.pending = false :=
  returns_bind (diodFidclone_pending H) fun nf hf o r o' h =>
    (onFid_returns ((sight (m := true) (a := true) nf).xattrwalkOpen (t := false) name)
      ⟨trivial, hf⟩ o r o' h).2

/-! ### Undoing a move

Three operations move the fid. When they fail, the fid is where it was. -/

/-- An operation that fails leaves the path alone. -/
def Undone (e : End) (o o' : Ost σ DiodFid) : Prop := e = .stop → o'.f.path = o.f.path

theorem Tame.undone (h : Tame L (Moves true a) t e o o')
    (hu : Undone e o o') : Tame L (Moves (decide (e ≠ .stop)) a) t e o o' :=
  ⟨h.log, ⟨fun he => hu (by simpa using he), h.fid.2⟩, h.ecode⟩

/-- What stays where it is, before what undoes itself. -/
theorem undone_bind {β : Type} {g : α → Prog (Ost σ DiodFid) β}
    (hx : x.Does (Tame Any (Moves false false) false)) (hg : ∀ b, (g b).Does Undone) :
    (x >>= g).Does Undone :=
  fun o => (hx o).bind (fun b o₁ _ => hg b o₁) (fun _ _ _ h _ => h.fid.1 rfl)
    fun _ _ _ h h' he => (h' he).trans (h.fid.1 rfl)

theorem undone_of_ne_stop (hx : ∀ o, (x o).1.ending ≠ .stop) : x.Does Undone :=
  fun o he => absurd he (hx o)

/-- What is done behind the label undoes nothing, but moves nothing either. -/
theorem undone_done {y : Option α → Prog (Ost σ DiodFid) Unit}
    (hx : x.Does Undone) (hy : ∀ r, (y r).Does (Tame Any (Moves false false) false)) :
    (x.done y).Does Undone := by
  intro o he
  rcases h : (x.done y) o with ⟨r, o'⟩
  rw [h] at he
  rcases r with _ | _ | _
  · cases he
  · obtain ⟨o₁, r, hx', hy', -⟩ := done_eq h (by simp)
    exact (((hy none o₁).of_eq hy').fid.1 rfl).trans ((hx o).of_eq hx' rfl)
  · cases he

/-- Moving the fid is the last thing an operation does, and it does not fail. -/
theorem move_ne_stop (p q : Path) (r : α) (o : Ost σ DiodFid) :
    ((do pathDecref p; setFid fun f => { f with path := q }; pure r : Prog _ α) o).1.ending ≠
      .stop := by
  have hp := pathDecref_ne_stop p o
  rcases h : pathDecref p o with ⟨r', o₁⟩
  rw [h] at hp
  rcases r' with _ | _ | _
  · rw [bind_of_ok h]
    exact fun he => by cases he
  · exact absurd rfl hp
  · rw [bind_of_crash h]
    exact fun he => by cases he

theorem walkStat_path (npath : Path) (st : Stat) (dev : UInt64) :
    (walkStat H npath st dev).Does (Tame Any (Moves false false) false) := by
  refine does_ite (fun _ => tame.bind (moves.statmnt H ⟨trivial, trivial, trivial, fun _ _ =>
    trivial⟩) fun r => ?_) fun _ => tame.pure _
  split
  · exact tame.bind (setFid_tame fun _ => moves_of_same rfl rfl) fun _ => tame.pure _
  · exact moves.fail _

theorem diodWalk_undone (wname : Bytes) :
    (diodWalk H wname).Does fun e => Tame Look (Moves (decide (e ≠ .stop)) a) t e := by
  have hu : (diodWalk H wname).Does Undone :=
    undone_bind moves.fid_does fun f =>
    undone_bind (moves.failIf _ _) fun _ =>
    undone_bind (moves.pathAppendOr H _ _) fun npath =>
    undone_done
      (undone_bind (moves.sysOr H trivial) fun _ =>
        undone_bind (moves.sysOr H trivial) fun _ =>
        undone_bind (walkStat_path npath _ _) fun _ => undone_of_ne_stop (move_ne_stop _ _ _))
      fun _ => tame.when fun _ => moves.pathDecref npath
  refine fun o => Tame.undone (moves.tame (fun f => (sight f).walk (fun _ _ _ => trivial)
    fun _ q _ _ _ _ _ _ _ _ _ _ _ => ?_) o) (hu o)
  have hg : ∀ b g, Moves true a f g → Moves true a f { g with mountpt := b, path := q } :=
    fun b g h => ⟨fun h => (by cases h), h.2⟩
  exact ⟨fun _ g => hg g.mountpt g, fun _ => ⟨peeks_look _, fun g h =>
    ⟨moves.trans h (moves_of_same rfl rfl), hg true g h⟩⟩⟩

theorem diodRename_undone (d : DiodFid) (name : Bytes) :
    (diodRename H d name).Does fun e => Tame Any (Moves (decide (e ≠ .stop)) a) t e := by
  have hu : (diodRename H d name).Does Undone :=
    undone_bind moves.fid_does fun f =>
    undone_bind (moves.pathAppendOr H _ _) fun npath =>
    undone_done
      (undone_bind (moves.sysOr H trivial) fun _ => undone_bind (moves.malloc H) fun m => by
        rcases m with _ | _
        · exact undone_bind (moves.syscall H trivial) fun _ _ _ => rfl
        · exact undone_of_ne_stop (move_ne_stop _ _ _))
      fun _ => tame.when fun _ => moves.pathDecref npath
  exact fun o => Tame.undone (moves.tame (fun f => (anywhere f).rename (T := fun _ => True)
    (fun _ h => h) (fun _ _ h _ => ⟨fun h => (by cases h), h.2⟩) leads_anywhere) o) (hu o)

theorem lcreateAt_undone (uid : UInt32) (opath npath : Path) (flags mode : UInt32) :
    (lcreateAt H uid opath npath flags mode).Does fun e _ o' =>
      e = .stop → o'.f.path = opath := by
  intro o he
  rcases h : lcreateAt H uid opath npath flags mode o with ⟨r, o'⟩
  rw [h] at he
  rcases r with _ | _ | _
  · cases he
  · have hm : setFid (fun f => { f with path := npath }) o =
        (.ok (), { o with f := { o.f with path := npath } }) := rfl
    obtain ⟨o₁, r, -, hy, hr⟩ := done_eq ((bind_of_ok hm).symm.trans h) (by simp)
    -- the way back is taken, and it does not stop half way
    have hp := pathDecref_ne_stop npath o₁
    rcases hd : pathDecref npath o₁ with ⟨r', o₂⟩
    rw [hd] at hp
    rcases r' with _ | _ | _
    · have hy := (bind_of_ok hd).symm.trans hy
      obtain ⟨-, rfl⟩ := Prod.mk.inj hy
      rfl
    · exact absurd rfl hp
    · have hy := (bind_of_crash hd).symm.trans hy
      obtain ⟨rfl, -⟩ := Prod.mk.inj hy
      exact absurd rfl hr
  · cases he

theorem diodLcreate_undone (uid : UInt32) (name : Bytes) (flags mode : UInt32) :
    (diodLcreate H uid name flags mode).Does fun e =>
      Tame Any (Moves (decide (e ≠ .stop)) a) t e := by
  have hu : (diodLcreate H uid name flags mode).Does Undone := by
    refine undone_bind (moves.failIf _ _) fun _ o => doesAt_fid_bind ?_
    -- from here on the path to come back to is known
    have hb : ∀ p, (pathAppendOr H p name >>= fun npath =>
        lcreateAt H uid p npath (remapOflags flags ||| O_CREAT) mode).Does fun e o o' =>
        o.f.path = p → e = .stop → o'.f.path = p := fun p o =>
      ((moves (m := false) (a := false)).pathAppendOr (L := Any) (t := false) H p name o).bind
        (fun npath o₁ _ => lcreateAt_undone uid p npath _ mode o₁)
        (fun _ _ _ h ho _ => (h.fid.1 rfl).trans ho) fun _ _ _ _ h _ => h
    exact ((moves (m := false) (a := false)).failIf (L := Any) (t := false) _ _ o).bind
      (fun _ o₁ _ => hb o.f.path o₁) (fun _ _ _ h _ => h.fid.1 rfl)
      fun _ _ _ h h' => h' (h.fid.1 rfl)
  exact fun o => Tame.undone (moves.tameAt ((anywhere o.f).lcreate (T := fun _ => True)
    (fun _ h => h) (fun _ _ h _ => ⟨fun h => (by cases h), h.2⟩) fun _ => leads_anywhere)) (hu o)

/-- **The fids of an invariant**, and where they may be moved: to paths that are `To`. -/
structure Realm (Ok To : Bytes → Prop) (E : DiodFid → Prop) (L : HostCall → Prop) (H : Host σ) :
    Prop where
  place : Place Ok E L
  ok : ∀ s, To s → Ok s
  move : ∀ f q, E f → To q.s → E { f with path := q }
  hang : ∀ f x i, E f → E { f with ioctx := i, xattr := some x, isXattr := true }
  /-- A mount point is looked at from its parent. -/
  mount : ∀ f, E f → f.mountpt = true → Peeks L f.path.s
  /-- Entries of a directory may be looked at. -/
  list : ∀ fd off s, ∀ d ∈ (H.call (.readdir fd off) s).1.ents, Lists E L d

end Op

end Diod
