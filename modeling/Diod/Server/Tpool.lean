import Diod.Lib.Count
import Diod.Server.Flush

/-!
# Thread pools and the requests in them

A thread pool is taken off the server's list when no fid refers to it, at the end of a
connection. As `Tflush` and the end of a connection look for requests in the pools of
the list only, a pool must stay there as long as it has a request.

What keeps a pool there is a chain of references: a request refers to its fid, and the
fid to the pool. The reference counts are at least what they should be
(`Diod.Qsrv.Pooled`), as long as a fid is clunked once. But a worker releases the fid
*before* it replies, so that the client can use the number again, and takes the request
off the work list after that. In between nothing keeps the pool, and it goes with the
request in it when some other connection ends.
-/

namespace Diod

/-! ### Pools and fids -/

namespace Tpools

variable {t t' : Tpools} {f : ℕ}

/-- The fids that refer to a pool. -/
def users (t : Tpools) (tp : ℕ) : ℕ :=
  Nat.count (fun f => (t.fid f).refcount ≠ 0 ∧ (t.fid f).tpool = some tp) t.nfid

/-- **The references on pools**: there are as many as there are fids that refer to them,
or more. -/
structure Sound (t : Tpools) : Prop where
  head : t.list.head? = some 0
  refs : ∀ tp, t.users tp + (if tp = 0 then 1 else 0) ≤ t.refs tp
  born : ∀ f, t.nfid ≤ f → (t.fid f).refcount = 0
  listed : ∀ f tp, (t.fid f).refcount ≠ 0 → (t.fid f).tpool = some tp → tp ∈ t.list

theorem Sound.lt (h : t.Sound) (hf : (t.fid f).refcount ≠ 0) : f < t.nfid :=
  Nat.lt_of_not_le fun hn => hf (h.born f hn)

theorem Sound.default_mem (h : t.Sound) : 0 ∈ t.list := List.mem_of_mem_head? h.head

variable {tp : ℕ} {g : Qfid → Qfid}

/-- The pool of a fid that is alive has a reference. -/
theorem Sound.refs_pos (h : t.Sound) (hf : (t.fid f).refcount ≠ 0)
    (htp : (t.fid f).tpool = some tp) : t.refs tp ≠ 0 := by
  have hu : 0 < t.users tp := count_pos_of_lt (h.lt hf) ⟨hf, htp⟩
  have hr := h.refs tp
  omega

/-- What happens to pools and fids while no connection ends. -/
structure Ext (t t' : Tpools) : Prop where
  list : ∀ tp ∈ t.list, tp ∈ t'.list
  nfid : t.nfid ≤ t'.nfid
  fid : ∀ f < t.nfid, (t'.fid f).conn = (t.fid f).conn ∧ (t'.fid f).tpool = (t.fid f).tpool

theorem Ext.refl (t : Tpools) : Ext t t := ⟨fun _ h => h, le_rfl, fun _ _ => ⟨rfl, rfl⟩⟩

theorem Ext.trans {t'' : Tpools} (h : Ext t t') (h' : Ext t' t'') : Ext t t'' where
  list tp htp := h'.list tp (h.list tp htp)
  nfid := h.nfid.trans h'.nfid
  fid f hf :=
    have h₁ := h.fid f hf
    have h₂ := h'.fid f (hf.trans_le h.nfid)
    ⟨h₂.1.trans h₁.1, h₂.2.trans h₁.2⟩

theorem setFid_fid (t : Tpools) (f : ℕ) (g : Qfid → Qfid) (k : ℕ) :
    (t.setFid f g).fid k = if k = f then g (t.fid k) else t.fid k := rfl

theorem setFid_ext (t : Tpools) (f : ℕ)
    (hg : ∀ x, (g x).conn = x.conn ∧ (g x).tpool = x.tpool) : Ext t (t.setFid f g) := by
  refine ⟨fun _ h => h, le_rfl, fun k _ => ?_⟩
  rw [setFid_fid]
  split
  · exact hg _
  · exact ⟨rfl, rfl⟩

/-- A fid changes, but is alive as it was. -/
theorem Sound.setFid (h : t.Sound) (f : ℕ) (hg : ∀ x, (g x).tpool = x.tpool)
    (hr : (g (t.fid f)).refcount ≠ 0 ↔ (t.fid f).refcount ≠ 0) : (t.setFid f g).Sound := by
  have hk : ∀ k, (((t.setFid f g).fid k).refcount ≠ 0 ↔ (t.fid k).refcount ≠ 0) ∧
      ((t.setFid f g).fid k).tpool = (t.fid k).tpool := fun k => by
    rw [setFid_fid]
    split
    · subst_vars
      exact ⟨hr, hg _⟩
    · exact ⟨.rfl, rfl⟩
  refine ⟨h.head, fun tp => ?_, fun k hn => ?_, fun k tp hf htp => ?_⟩
  · have hu : (t.setFid f g).users tp = t.users tp :=
      count_congr_lt fun k _ => by rw [(hk k).1, (hk k).2]
    rw [hu]
    exact h.refs tp
  · by_contra hne
    exact (hk k).1.mp hne (h.born k hn)
  · exact h.listed k tp ((hk k).1.mp hf) ((hk k).2 ▸ htp)

@[simp] theorem decref_fid (t : Tpools) (o : Option ℕ) : (t.decref o).fid = t.fid := by
  cases o <;> rfl

@[simp] theorem decref_list (t : Tpools) (o : Option ℕ) : (t.decref o).list = t.list := by
  cases o <;> rfl

@[simp] theorem decref_nfid (t : Tpools) (o : Option ℕ) : (t.decref o).nfid = t.nfid := by
  cases o <;> rfl

theorem decref_refs (t : Tpools) (o : Option ℕ) (tp : ℕ) :
    (t.decref o).refs tp = t.refs tp - if o = some tp then 1 else 0 := by
  rcases o with _ | p
  · simp [decref]
  · simp only [decref, Option.some.injEq, eq_comm (a := tp)]
    split <;> rfl

/-- A fid that is alive dies, and the reference on its pool goes with it. -/
theorem Sound.kill (h : t.Sound) (hf : (t.fid f).refcount ≠ 0)
    (hg : (g (t.fid f)).refcount = 0) : ((t.setFid f g).decref (t.fid f).tpool).Sound := by
  have hk : ∀ k, k ≠ f → (t.setFid f g).fid k = t.fid k := fun k hk => by
    rw [setFid_fid, if_neg hk]
  have hd : ((t.setFid f g).fid f).refcount = 0 := by rw [setFid_fid, if_pos rfl, hg]
  have hu : ∀ tp, (t.setFid f g).users tp + (if (t.fid f).tpool = some tp then 1 else 0) =
      t.users tp := by
    intro tp
    split
    · rename_i htp
      exact count_erase (h.lt hf) ⟨hf, htp⟩ (fun hq => hq.1 hd) fun k hne => by rw [hk k hne]
    · rename_i htp
      refine count_congr_lt fun k _ => ?_
      rcases eq_or_ne k f with rfl | hne
      · exact ⟨fun hq => absurd hd hq.1, fun hq => absurd hq.2 htp⟩
      · rw [hk k hne]
  have halive : ∀ k, ((t.setFid f g).fid k).refcount ≠ 0 → (t.setFid f g).fid k = t.fid k :=
    fun k hne => hk k fun hkf => hne (hkf ▸ hd)
  refine ⟨?_, fun tp => ?_, fun k hn => ?_, fun k tp hr htp => ?_⟩
  · rw [decref_list]
    exact h.head
  · have hr := h.refs tp
    have hu := hu tp
    have hu' : ((t.setFid f g).decref (t.fid f).tpool).users tp = (t.setFid f g).users tp := by
      simp [users]
    rw [decref_refs, hu']
    change _ ≤ t.refs tp - _
    omega
  · rw [decref_fid]
    rw [decref_nfid] at hn
    by_contra hne
    exact hne (halive k hne ▸ h.born k hn)
  · rw [decref_fid] at hr htp
    rw [decref_list]
    have he := halive k hr
    rw [he] at hr htp
    exact h.listed k tp hr htp

theorem fidDecref_fid (t : Tpools) (f k : ℕ) : (t.fidDecref f).fid k =
    if k = f then { t.fid k with refcount := (t.fid k).refcount - 1 } else t.fid k := by
  unfold fidDecref
  split
  · rw [decref_fid, setFid_fid]
  · rw [setFid_fid]

theorem fidDecref_ext (t : Tpools) (f : ℕ) : Ext t (t.fidDecref f) := by
  have h := setFid_ext t f (g := fun x => { x with refcount := x.refcount - 1 })
    fun _ => ⟨rfl, rfl⟩
  unfold fidDecref
  split
  · exact ⟨fun tp htp => by simpa using h.list tp htp, by simpa using h.nfid,
      fun k hk => by simpa using h.fid k hk⟩
  · exact h

theorem Sound.fidDecref (h : t.Sound) (f : ℕ) : (t.fidDecref f).Sound := by
  unfold Tpools.fidDecref
  split
  · rename_i h1
    exact h.kill (by omega) (by simp [h1])
  · rename_i h1
    refine h.setFid f (fun _ => rfl) ?_
    change (t.fid f).refcount - 1 ≠ 0 ↔ _
    omega

theorem decrefOpt_fid (t : Tpools) (o : Option ℕ) (k : ℕ) : (t.decrefOpt o).fid k =
    { t.fid k with refcount := (t.fid k).refcount - if o = some k then 1 else 0 } := by
  rcases o with _ | f
  · simp [decrefOpt]
  · rw [decrefOpt, fidDecref_fid]
    simp only [Option.some.injEq, eq_comm (a := k)]
    split <;> rfl

theorem decrefOpt_ext (t : Tpools) (o : Option ℕ) : Ext t (t.decrefOpt o) := by
  rcases o with _ | f
  · exact .refl t
  · exact fidDecref_ext t f

theorem Sound.decrefOpt (h : t.Sound) (o : Option ℕ) : (t.decrefOpt o).Sound := by
  rcases o with _ | f
  · exact h
  · exact h.fidDecref f

@[simp] theorem decrefOpt_list (t : Tpools) (o : Option ℕ) : (t.decrefOpt o).list = t.list := by
  rcases o with _ | f
  · rfl
  · rw [decrefOpt, fidDecref]
    split
    · exact decref_list _ _
    · rfl

theorem makeFid_refs (t : Tpools) (conn : ℕ) (o : Option ℕ) (owned : Bool) (tp : ℕ) :
    (t.makeFid conn o owned).refs tp = t.refs tp + if o = some tp then 1 else 0 := by
  rcases o with _ | p
  · simp [makeFid, incref]
  · simp only [makeFid, incref, Option.some.injEq, eq_comm (a := tp)]
    split <;> rfl

theorem makeFid_fid (t : Tpools) (conn : ℕ) (o : Option ℕ) (owned : Bool) (k : ℕ) :
    (t.makeFid conn o owned).fid k = if k = t.nfid then ⟨conn, 1, o, owned⟩ else t.fid k := rfl

theorem makeFid_list (t : Tpools) (conn : ℕ) (o : Option ℕ) (owned : Bool) :
    (t.makeFid conn o owned).list = t.list := by cases o <;> rfl

theorem makeFid_ext (t : Tpools) (conn : ℕ) (o : Option ℕ) (owned : Bool) :
    Ext t (t.makeFid conn o owned) := by
  refine ⟨fun tp htp => by rwa [makeFid_list], Nat.le_succ _, fun k hk => ?_⟩
  rw [makeFid_fid, if_neg (Nat.ne_of_lt hk)]
  exact ⟨rfl, rfl⟩

theorem Sound.makeFid (h : t.Sound) (conn : ℕ) {o : Option ℕ} (owned : Bool)
    (ho : ∀ tp, o = some tp → tp ∈ t.list) : (t.makeFid conn o owned).Sound := by
  have hnew : (t.makeFid conn o owned).fid t.nfid = ⟨conn, 1, o, owned⟩ := by
    rw [makeFid_fid, if_pos rfl]
  have hk : ∀ k, k ≠ t.nfid → (t.makeFid conn o owned).fid k = t.fid k := fun k hk => by
    rw [makeFid_fid, if_neg hk]
  refine ⟨by rw [makeFid_list]; exact h.head, fun tp => ?_, fun k hn => ?_, fun k tp hr htp => ?_⟩
  · have hu : (t.makeFid conn o owned).users tp = t.users tp + if o = some tp then 1 else 0 := by
      rw [users, show (t.makeFid conn o owned).nfid = t.nfid + 1 from rfl, Nat.count_succ]
      rw [count_congr_lt (q := fun f => (t.fid f).refcount ≠ 0 ∧ (t.fid f).tpool = some tp)
        fun k hk' => by rw [hk k (Nat.ne_of_lt hk')]]
      simp only [hnew, ne_eq, Nat.one_ne_zero, not_false_eq_true, true_and]
      rfl
    have hr := h.refs tp
    rw [hu, makeFid_refs]
    omega
  · have hn : t.nfid + 1 ≤ k := hn
    rw [hk k (by omega)]
    exact h.born k (by omega)
  · rw [makeFid_list]
    rcases eq_or_ne k t.nfid with rfl | hne
    · rw [hnew] at htp
      exact ho tp htp
    · rw [hk k hne] at hr htp
      exact h.listed k tp hr htp

theorem refEffect_ext (t : Tpools) (f : ℕ) (eff : RefEffect) : Ext t (t.refEffect f eff) := by
  cases eff with
  | nothing => exact .refl t
  | keep =>
    exact setFid_ext t f (g := fun x => { x with refcount := x.refcount + 1, owned := true })
      fun _ => ⟨rfl, rfl⟩
  | clone => exact makeFid_ext t _ _ _
  | drop =>
    exact (setFid_ext t f (g := fun x => { x with owned := false }) fun _ => ⟨rfl, rfl⟩).trans
      (fidDecref_ext _ f)

theorem mem_select (htp : tp ∈ t.list) (o : Option ℕ) : tp ∈ (t.select o).list := by
  rcases o with _ | p
  · exact htp
  · by_cases hp : p ∈ t.list
    · rw [show t.select (some p) = t from if_pos hp]
      exact htp
    · rw [show t.select (some p) = { t with list := t.list.headD 0 :: p :: t.list.tail } from
        if_neg hp]
      rcases hl : t.list with _ | ⟨a, l⟩
      · rw [hl] at htp; cases htp
      · rw [hl] at htp
        rcases List.mem_cons.mp htp with rfl | htp
        · exact List.mem_cons_self
        · exact List.mem_cons_of_mem _ (List.mem_cons_of_mem _ htp)

/-- After the selection the pool is there. -/
theorem Sound.select (h : t.Sound) (o : Option ℕ) :
    (t.select o).Sound ∧ Ext t (t.select o) ∧ ∀ tp, o = some tp → tp ∈ (t.select o).list := by
  rcases o with _ | p
  · exact ⟨h, .refl t, fun _ h => by cases h⟩
  · by_cases hp : p ∈ t.list
    · rw [show t.select (some p) = t from if_pos hp]
      exact ⟨h, .refl t, fun _ h => by cases h; exact hp⟩
    · rw [show t.select (some p) = { t with list := t.list.headD 0 :: p :: t.list.tail } from
        if_neg hp]
      obtain ⟨l, hl⟩ : ∃ l, t.list = 0 :: l := by
        have hh := h.head
        rcases hl : t.list with _ | ⟨a, l⟩
        · rw [hl] at hh; cases hh
        · rw [hl] at hh; cases hh; exact ⟨l, rfl⟩
      have hsub : ∀ tp ∈ t.list, tp ∈ t.list.headD 0 :: p :: t.list.tail := by
        intro tp htp
        have hm := mem_select htp (some p)
        rwa [show t.select (some p) = { t with list := t.list.headD 0 :: p :: t.list.tail } from
          if_neg hp] at hm
      refine ⟨⟨by simp [hl], h.refs, h.born, fun f tp hf htp => hsub tp (h.listed f tp hf htp)⟩,
        ⟨hsub, le_rfl, fun _ _ => ⟨rfl, rfl⟩⟩, fun tp htp => ?_⟩
      cases htp
      simp

/-- `np_tpool_cleanup` takes away pools without references only. -/
theorem Sound.cleanup (h : t.Sound) : t.cleanup.Sound := by
  have hkeep : ∀ tp ∈ t.list, t.refs tp ≠ 0 → tp ∈ t.cleanup.list := fun tp htp hr =>
    List.mem_filter.mpr ⟨htp, by simpa using hr⟩
  have h0 : t.refs 0 ≠ 0 := by
    have := h.refs 0
    rw [if_pos rfl] at this
    omega
  refine ⟨?_, h.refs, h.born,
    fun f tp hf htp => hkeep tp (h.listed f tp hf htp) (h.refs_pos hf htp)⟩
  have hh := h.head
  rcases hl : t.list with _ | ⟨a, l⟩
  · rw [hl] at hh; cases hh
  · rw [hl] at hh
    cases hh
    simp [Tpools.cleanup, hl, h0]

theorem Sound.destroyFid (h : t.Sound) (conn f : ℕ) : (destroyFid conn t f).Sound := by
  unfold Tpools.destroyFid
  split
  · rename_i hf
    have hc : ∀ (o : Option ℕ) (g : Qfid → Qfid),
        (t.decref o).setFid f g = (t.setFid f g).decref o := by
      intro o g
      cases o <;> rfl
    rw [hc]
    exact h.kill hf.2 rfl
  · exact h

/-- The pool of a request is on the list. It is the default one, or that of the fid. -/
theorem Sound.poolFor (h : t.Sound) (fid : Option ℕ)
    (hf : ∀ f, fid = some f → (t.fid f).refcount ≠ 0) :
    t.poolFor fid ∈ t.list ∧
      (t.poolFor fid = 0 ∨ ∃ f, fid = some f ∧ (t.fid f).tpool = some (t.poolFor fid)) := by
  unfold Tpools.poolFor
  rcases hb : fid.bind fun f => (t.fid f).tpool with _ | tp
  · rw [Option.getD_none, List.headD_eq_head?_getD, h.head]
    exact ⟨h.default_mem, .inl rfl⟩
  · obtain ⟨f, rfl, htp⟩ := Option.bind_eq_some_iff.mp hb
    exact ⟨h.listed f tp (hf f rfl) htp, .inr ⟨f, rfl, htp⟩⟩

end Tpools

/-! ### Requests and fids -/

variable {p : Place}

theorem Place.isAt_of_worksAt {tp : ℕ} (h : p.worksAt tp = true) : p.isAt tp = true := by
  cases p with
  | working tp' st => exact h
  | queued tp' => cases h
  | left | freed => cases h

theorem Place.ne_freed_of_holds (h : p.holds = true) : p ≠ .freed := by
  rintro rfl
  cases h

namespace Qsrv

variable {s s' : Qsrv} {i k f : ℕ}

/-- The requests that refer to a fid. -/
def holders (s : Qsrv) (f : ℕ) : ℕ := Nat.count (fun k => (s.req k).fid = some f) s.nreq

/-- **The references that keep pools on the list.** -/
structure Pooled (s : Qsrv) : Prop where
  sound : s.tp.Sound
  held : ∀ f, (if (s.tp.fid f).owned then 1 else 0) + s.holders f ≤ (s.tp.fid f).refcount
  unborn : ∀ k, s.nreq ≤ k → (s.req k).place = .freed
  fidOf : ∀ k f, (s.req k).fid = some f → (s.req k).place.holds = true ∧ f < s.tp.nfid ∧
    (s.tp.fid f).conn = (s.req k).conn
  /-- As long as a request refers to its fid, that is the way to its pool. -/
  bound : ∀ k tp, (s.req k).place.holds = true → (s.req k).place.isAt tp = true → tp = 0 ∨
    ∃ f, (s.req k).fid = some f ∧ (s.tp.fid f).tpool = some tp
  listed : ∀ k tp, (s.req k).place.isAt tp = true → tp ∈ s.tp.list

theorem Pooled.lt (h : s.Pooled) (hp : (s.req k).place ≠ .freed) : k < s.nreq :=
  Nat.lt_of_not_le fun hk => hp (h.unborn k hk)

/-- The fid of a request is alive. -/
theorem Pooled.alive (h : s.Pooled) (hf : (s.req k).fid = some f) :
    (s.tp.fid f).refcount ≠ 0 := by
  have hk := h.lt (Place.ne_freed_of_holds (h.fidOf k f hf).1)
  have hh : 0 < s.holders f := count_pos_of_lt hk hf
  have hr := h.held f
  omega

variable {tp conn : ℕ} {g : Qreq → Qreq} {t : Tpools} {a : Qstep}

/-- A request that refers to its fid keeps its pool. -/
theorem Pooled.refs_pos (h : s.Pooled) (hh : (s.req k).place.holds = true)
    (hat : (s.req k).place.isAt tp = true) : s.tp.refs tp ≠ 0 := by
  rcases h.bound k tp hh hat with rfl | ⟨f, hf, htp⟩
  · have hr := h.sound.refs 0
    rw [if_pos rfl] at hr
    omega
  · exact h.sound.refs_pos (h.alive hf) htp

/-- A request lets its fid go, or not. -/
theorem holders_setReq (t : Tpools) (hi : i < s.nreq) (f : ℕ) :
    ((g (s.req i)).fid = (s.req i).fid → ((s.setTp t).setReq i g).holders f = s.holders f) ∧
    ((g (s.req i)).fid = none → ((s.setTp t).setReq i g).holders f +
      (if (s.req i).fid = some f then 1 else 0) = s.holders f) := by
  have hk : ∀ k, k ≠ i → ((s.setTp t).setReq i g).req k = s.req k := fun k hk => by simp [hk]
  have hri : ((s.setTp t).setReq i g).req i = g (s.req i) := by simp
  refine ⟨fun hg => count_congr_lt fun k _ => ?_, fun hg => ?_⟩
  · rcases eq_or_ne k i with rfl | hne
    · rw [hri, hg]
    · rw [hk k hne]
  · split
    · rename_i hf
      exact count_erase hi hf (by rw [hri, hg]; simp) fun k hne => by rw [hk k hne]
    · rename_i hf
      refine count_congr_lt fun k _ => ?_
      rcases eq_or_ne k i with rfl | hne
      · rw [hri, hg]
        exact ⟨fun h => (by cases h), fun h => absurd h hf⟩
      · rw [hk k hne]

/-- A step that changes one request, and references. -/
theorem Pooled.change (h : s.Pooled) (ht : t.Sound) (hx : s.tp.Ext t) (hi : i < s.nreq)
    (hheld : ∀ f, (if (t.fid f).owned then 1 else 0) + ((s.setTp t).setReq i g).holders f ≤
      (t.fid f).refcount) (hfid : ∀ f, (g (s.req i)).fid = some f → (s.req i).fid = some f ∧
      (g (s.req i)).place.holds = true)
    (hholds : (g (s.req i)).place.holds = true → (s.req i).place.holds = true ∧
      (g (s.req i)).fid = (s.req i).fid)
    (hat : ∀ tp, (g (s.req i)).place.isAt tp = true → (s.req i).place.isAt tp = true)
    (hconn : ∀ r, (g r).conn = r.conn := by exact fun _ => rfl) :
    ((s.setTp t).setReq i g).Pooled := by
  have hk : ∀ k, k ≠ i → ((s.setTp t).setReq i g).req k = s.req k := fun k hk => by simp [hk]
  have hri : ((s.setTp t).setReq i g).req i = g (s.req i) := by simp
  have hold : ∀ k f, (s.req k).fid = some f → f < t.nfid ∧ (t.fid f).conn = (s.req k).conn := by
    intro k f hf
    obtain ⟨-, hlt, hc⟩ := h.fidOf k f hf
    exact ⟨hlt.trans_le hx.nfid, (hx.fid f hlt).1.trans hc⟩
  have hway : ∀ k tp, (tp = 0 ∨ ∃ f, (s.req k).fid = some f ∧ (s.tp.fid f).tpool = some tp) →
      tp = 0 ∨ ∃ f, (s.req k).fid = some f ∧ (t.fid f).tpool = some tp := by
    rintro k tp (htp | ⟨f, hf, htp⟩)
    · exact .inl htp
    · exact .inr ⟨f, hf, (hx.fid f (h.fidOf k f hf).2.1).2.trans htp⟩
  refine ⟨ht, hheld, fun k hn => ?_, fun k f hf => ?_, fun k tp hh hp => ?_, fun k tp hp => ?_⟩
  · rw [hk k fun hki => absurd (hki ▸ hn) (Nat.not_le.mpr hi)]
    exact h.unborn k hn
  · rcases eq_or_ne k i with rfl | hne
    · rw [hri] at hf ⊢
      obtain ⟨hf', hh⟩ := hfid f hf
      rw [hconn]
      exact ⟨hh, hold k f hf'⟩
    · rw [hk k hne] at hf ⊢
      exact ⟨(h.fidOf k f hf).1, hold k f hf⟩
  · rcases eq_or_ne k i with rfl | hne
    · rw [hri] at hh hp ⊢
      obtain ⟨hh', he⟩ := hholds hh
      rw [he]
      exact hway k tp (h.bound k tp hh' (hat tp hp))
    · rw [hk k hne] at hh hp ⊢
      exact hway k tp (h.bound k tp hh hp)
  · rcases eq_or_ne k i with rfl | hne
    · rw [hri] at hp
      exact hx.list tp (h.listed k tp (hat tp hp))
    · rw [hk k hne] at hp
      exact hx.list tp (h.listed k tp hp)

/-- A request gives its reference back. -/
theorem Pooled.letGo (h : s.Pooled) (hi : i < s.nreq)
    (hfid : (g (s.req i)).fid = none) (hholds : (g (s.req i)).place.holds = false)
    (hat : ∀ tp, (g (s.req i)).place.isAt tp = true → (s.req i).place.isAt tp = true)
    (hconn : ∀ r, (g r).conn = r.conn := by exact fun _ => rfl) :
    ((s.setTp (s.tp.decrefOpt (s.req i).fid)).setReq i g).Pooled := by
  refine h.change (h.sound.decrefOpt _) (s.tp.decrefOpt_ext _) hi (fun f => ?_)
    (fun f hf => by rw [hfid] at hf; cases hf) (fun hh => by rw [hholds] at hh; cases hh) hat hconn
  have hh := (holders_setReq (s.tp.decrefOpt (s.req i).fid) hi (g := g) f).2 hfid
  have hr := h.held f
  rw [Tpools.decrefOpt_fid]
  simp only
  omega

/-- A request moves on, and keeps its fid if it had it still. -/
theorem Pooled.move (h : s.Pooled) (hi : i < s.nreq) (hfid : (g (s.req i)).fid = (s.req i).fid)
    (hholds : (g (s.req i)).place.holds = (s.req i).place.holds)
    (hat : ∀ tp, (g (s.req i)).place.isAt tp = true → (s.req i).place.isAt tp = true)
    (hconn : ∀ r, (g r).conn = r.conn := by exact fun _ => rfl) : (s.setReq i g).Pooled := by
  refine h.change (t := s.tp) h.sound (.refl _) hi (fun f => ?_) (fun f hf => ?_)
    (fun hh => ⟨hholds ▸ hh, hfid⟩) hat hconn
  · rw [(holders_setReq s.tp hi f).1 hfid]
    exact h.held f
  · rw [hfid] at hf
    exact ⟨hf, hholds.trans (h.fidOf i f hf).1⟩

/-- A request is received. -/
theorem Pooled.addReq (h : s.Pooled) (ht : t.Sound) (hx : s.tp.Ext t) (conn : ℕ)
    (tag : UInt16) (kind : Qkind) (fid : Option ℕ)
    (hheld : ∀ f, (if (t.fid f).owned then 1 else 0) + (s.holders f +
      if fid = some f then 1 else 0) ≤ (t.fid f).refcount)
    (hfid : ∀ f, fid = some f → f < t.nfid ∧ (t.fid f).conn = conn) :
    ((s.setTp t).addReq conn tag kind fid).Pooled := by
  have hk : ∀ k, k ≠ s.nreq → ((s.setTp t).addReq conn tag kind fid).req k = s.req k :=
    fun k hk => by simp [Qsrv.addReq, setTp, hk]
  have hnew : ((s.setTp t).addReq conn tag kind fid).req s.nreq =
      ⟨conn, tag, kind, fid, false, none, .queued (t.poolFor fid)⟩ := by
    simp [Qsrv.addReq, setTp]
  obtain ⟨hl, hw⟩ := ht.poolFor fid fun f hf => by
    have hr := hheld f
    rw [if_pos hf] at hr
    omega
  refine ⟨ht, fun f => ?_, fun k hn => ?_, fun k f hf => ?_, fun k tp hh hp => ?_,
    fun k tp hp => ?_⟩
  · have hc : ((s.setTp t).addReq conn tag kind fid).holders f =
        s.holders f + if fid = some f then 1 else 0 := by
      rw [holders, show ((s.setTp t).addReq conn tag kind fid).nreq = s.nreq + 1 from rfl,
        Nat.count_succ, hnew, count_congr_lt (q := fun k => (s.req k).fid = some f)
          fun k hk' => by rw [hk k (Nat.ne_of_lt hk')]]
      rfl
    rw [hc]
    exact hheld f
  · have hn : s.nreq + 1 ≤ k := hn
    rw [hk k (by omega)]
    exact h.unborn k (by omega)
  · rcases eq_or_ne k s.nreq with rfl | hne
    · rw [hnew] at hf ⊢
      exact ⟨rfl, hfid f hf⟩
    · rw [hk k hne] at hf ⊢
      obtain ⟨hh, hlt, hc⟩ := h.fidOf k f hf
      exact ⟨hh, hlt.trans_le hx.nfid, (hx.fid f hlt).1.trans hc⟩
  · rcases eq_or_ne k s.nreq with rfl | hne
    · rw [hnew] at hp ⊢
      obtain rfl : t.poolFor fid = tp := by simpa [Place.isAt] using hp
      exact hw
    · rw [hk k hne] at hh hp ⊢
      rcases h.bound k tp hh hp with htp | ⟨f, hf, htp⟩
      · exact .inl htp
      · exact .inr ⟨f, hf, (hx.fid f (h.fidOf k f hf).2.1).2.trans htp⟩
  · rcases eq_or_ne k s.nreq with rfl | hne
    · rw [hnew] at hp
      obtain rfl : t.poolFor fid = tp := by simpa [Place.isAt] using hp
      exact hl
    · rw [hk k hne] at hp
      exact hx.list tp (h.listed k tp hp)

/-! ### Steps and runs -/

@[simp] theorem setTp_tp (s : Qsrv) (t : Tpools) : (s.setTp t).tp = t := rfl

@[simp] theorem setTp_holders (s : Qsrv) (t : Tpools) : (s.setTp t).holders = s.holders := rfl

/-- What else there is does not matter. -/
theorem Pooled.of_eq (h : s.Pooled) (htp : s'.tp = s.tp) (hreq : s'.req = s.req)
    (hn : s'.nreq = s.nreq) : s'.Pooled := by
  obtain ⟨tp, nreq, req, nflush, flush, closing, sent⟩ := s'
  cases htp
  cases hreq
  cases hn
  exact ⟨h.sound, h.held, h.unborn, h.fidOf, h.bound, h.listed⟩

theorem Pooled.holders_nfid (h : s.Pooled) : s.holders s.tp.nfid = 0 := by
  have hr := h.held s.tp.nfid
  rw [h.sound.born _ le_rfl] at hr
  omega

theorem Pooled.reqUnref (h : s.Pooled) (hi : i < s.nreq) : (s.reqUnref i).Pooled :=
  h.letGo hi rfl rfl fun _ hat => by cases hat

theorem pooled_flushReq (h : s.Pooled) (conn i : ℕ) : (flushReq conn s i).Pooled := by
  unfold flushReq
  split
  · split
    · rename_i tp hp
      split
      · exact h.reqUnref (h.lt (by simp [hp]))
      · exact h
    · rename_i tp st hp
      split
      · exact h.move (h.lt (by simp [hp])) rfl rfl fun _ hat => hat
      · exact h
    · exact h
  · exact h

theorem pooled_foldl_flushReq (conn : ℕ) : ∀ (l : List ℕ) {s : Qsrv}, s.Pooled →
    (l.foldl (flushReq conn) s).Pooled
  | [], _, h => h
  | i :: l, _, h => pooled_foldl_flushReq conn l (pooled_flushReq h conn i)

/-- A fid of a connection without requests is destroyed. -/
theorem pooled_destroyFid (h : s.Pooled)
    (hc : ∀ k, (s.req k).conn = conn → (s.req k).fid = none) (f : ℕ) :
    (s.setTp (Tpools.destroyFid conn s.tp f)).Pooled := by
  have hs := h.sound.destroyFid conn f
  unfold Tpools.destroyFid at hs ⊢
  split
  · rename_i hf
    rw [if_pos hf] at hs
    have hfid : ∀ k, (s.tp.decref (s.tp.fid f).tpool |>.setFid f fun x =>
        { x with refcount := 0, owned := false }).fid k =
        if k = f then { s.tp.fid k with refcount := 0, owned := false } else s.tp.fid k := by
      intro k
      rw [Tpools.setFid_fid, Tpools.decref_fid]
    have hno : ∀ k, (s.req k).fid ≠ some f := fun k hk => by
      have hk' := hc k ((h.fidOf k f hk).2.2 ▸ hf.1)
      rw [hk] at hk'
      cases hk'
    have hne : ∀ k f', (s.req k).fid = some f' → f' ≠ f := fun k f' hk hff => hno k (hff ▸ hk)
    refine ⟨hs, fun k => ?_, h.unborn, fun k f' hk => ?_, fun k tp hh hp => ?_, fun k tp hp => ?_⟩
    · rw [setTp_tp, setTp_holders, hfid k]
      split
      · rename_i hkf
        have h0 : s.holders k = 0 := by
          rw [holders, count_congr_lt (q := fun _ => False) fun m _ => by simp [hkf, hno m]]
          simp
        simp [h0]
      · exact h.held k
    · obtain ⟨hh, hlt, hcn⟩ := h.fidOf k f' hk
      refine ⟨hh, by simpa [Tpools.setFid, setTp] using hlt, ?_⟩
      rw [setTp_tp, hfid f', if_neg (hne k f' hk)]
      exact hcn
    · refine (h.bound k tp hh hp).imp id ?_
      rintro ⟨f', hk, htp⟩
      refine ⟨f', hk, ?_⟩
      rw [setTp_tp, hfid f', if_neg (hne k f' hk)]
      exact htp
    · rw [setTp_tp]
      simpa [Tpools.setFid] using h.listed k tp hp
  · exact h.of_eq rfl rfl rfl

theorem pooled_foldl_destroyFid : ∀ (l : List ℕ) {t : Tpools}, (s.setTp t).Pooled →
    (∀ k, (s.req k).conn = conn → (s.req k).fid = none) →
    (s.setTp (l.foldl (Tpools.destroyFid conn) t)).Pooled
  | [], _, h, _ => h
  | f :: l, _, h, hc => pooled_foldl_destroyFid l (pooled_destroyFid h hc f) hc

/-- **What keeps pools on the list**: a fid is clunked only while it is there to be
clunked, an interrupted `Twalk` has left no fid of the new number behind, and a
connection ends only when no worker is between the release of a fid and the end of its
request. -/
def poolSafe (s : Qsrv) : Qstep → Bool
  | .process i _ .drop => (s.req i).fid.all fun f => (s.tp.fid f).owned
  | .release _ bynum => bynum.isNone
  | .close _ => (List.range s.nreq).all fun i => match (s.req i).place with
    | .working _ (.released _) | .working _ .replied => false
    | _ => true
  | _ => true

/-- A connection ends. -/
theorem Pooled.close (h : s.Pooled) (hsafe : s.poolSafe (.close conn) = true)
    (hc : ∀ i ∈ List.range s.nreq, (s.req i).conn = conn → (s.req i).place = .freed) :
    (s.setTp ((List.range s.tp.nfid).foldl (Tpools.destroyFid conn) s.tp.cleanup)).Pooled := by
  refine pooled_foldl_destroyFid _ ⟨h.sound.cleanup, h.held, h.unborn, h.fidOf, h.bound,
    fun k tp hp => ?_⟩ fun k hk => ?_
  · have hlt : k < s.nreq := h.lt fun hf => by
      have hp : (s.req k).place.isAt tp = true := hp
      rw [hf] at hp
      cases hp
    have hh : (s.req k).place.holds = true := by
      have hs := List.all_eq_true.mp hsafe k (List.mem_range.mpr hlt)
      have hp : (s.req k).place.isAt tp = true := hp
      revert hs hp
      rcases (s.req k).place with tp' | ⟨tp', st⟩ | _ | _
      · exact fun _ _ => rfl
      · cases st <;> simp [Place.holds]
      · exact fun _ hp => by cases hp
      · exact fun _ hp => by cases hp
    exact List.mem_filter.mpr ⟨h.listed k tp hp, by simpa using h.refs_pos hh hp⟩
  · rcases hf : (s.req k).fid with _ | f
    · rfl
    · have hh := (h.fidOf k f hf).1
      have hlt := h.lt (Place.ne_freed_of_holds hh)
      exact absurd (hc k (List.mem_range.mpr hlt) hk) (Place.ne_freed_of_holds hh)

/-- **What a handler does with references** to the fid of a request keeps the counts high
enough. -/
theorem Pooled.refEffect (h : s.Pooled) (hf : (s.req i).fid = some f) (eff : RefEffect)
    (hdrop : eff = .drop → (s.tp.fid f).owned = true) :
    (s.tp.refEffect f eff).Sound ∧
      ∀ k, (if ((s.tp.refEffect f eff).fid k).owned then 1 else 0) + s.holders k ≤
        ((s.tp.refEffect f eff).fid k).refcount := by
  have halive := h.alive hf
  cases eff with
  | nothing => exact ⟨h.sound, h.held⟩
  | keep =>
    refine ⟨h.sound.setFid f (g := fun x => { x with refcount := x.refcount + 1, owned := true })
      (fun _ => rfl) ⟨fun _ => halive, fun _ => Nat.succ_ne_zero _⟩, fun k => ?_⟩
    have hr := h.held k
    rw [Tpools.refEffect, Tpools.setFid_fid]
    split
    · simp only [if_true]
      have hle : (if (s.tp.fid k).owned = true then 1 else 0) ≤ 1 := by split <;> simp
      omega
    · exact hr
  | clone =>
    refine ⟨h.sound.makeFid _ true fun tp' htp => h.sound.listed f tp' halive htp, fun k => ?_⟩
    rw [Tpools.refEffect, Tpools.makeFid_fid]
    split
    · rename_i hk
      rw [hk, h.holders_nfid]
      exact le_rfl
    · exact h.held k
  | drop =>
    have hs := h.sound.setFid f (g := fun x => { x with owned := false }) (fun _ => rfl) .rfl
    refine ⟨hs.fidDecref f, fun k => ?_⟩
    have hr := h.held k
    rw [Tpools.refEffect, Tpools.fidDecref_fid, Tpools.setFid_fid]
    split
    · rename_i hk
      subst hk
      rw [hdrop rfl, if_pos rfl] at hr
      simp only [Bool.false_eq_true, if_false]
      omega
    · exact hr

/-- A worker has processed a request. -/
theorem Pooled.process {ecode : ℕ} {eff : RefEffect} (h : s.Pooled)
    (hp : (s.req i).place = .working tp .picked)
    (hsafe : eff = .drop → (s.req i).fid.all (fun f => (s.tp.fid f).owned) = true) :
    ((s.setTp (match (s.req i).fid with
      | some f => s.tp.refEffect f eff
      | none => s.tp)).setReq i fun r => { r with
        fid := if eff = .drop ∧ (s.req i).fid.any (fun f => (s.tp.fid f).refcount = 1) then none
          else r.fid
        place := .working tp (.processed ecode) }).Pooled := by
  have hi : i < s.nreq := h.lt (by simp [hp])
  have hh : (s.req i).place.holds = true := by rw [hp]; rfl
  have hat : ∀ tp', (Place.working tp (.processed ecode)).isAt tp' = true →
      (s.req i).place.isAt tp' = true := fun tp' => by rw [hp]; exact id
  -- a fid that is owned, and held by this request, is not destroyed
  have hgone : ¬ (eff = .drop ∧ (s.req i).fid.any (fun f => (s.tp.fid f).refcount = 1)) := by
    rintro ⟨he, hany⟩
    obtain ⟨f, hf, h1⟩ := (Option.any_eq_true _ _).mp hany
    have ho : (s.tp.fid f).owned = true := by simpa [hf] using hsafe he
    have hpos : 0 < s.holders f := count_pos_of_lt hi hf
    have hr := h.held f
    rw [ho, if_pos rfl] at hr
    have h1 : (s.tp.fid f).refcount = 1 := by simpa using h1
    omega
  simp only [if_neg hgone]
  have hstep : ∀ {t : Tpools}, t.Sound → s.tp.Ext t →
      (∀ f, (if (t.fid f).owned then 1 else 0) + s.holders f ≤ (t.fid f).refcount) →
      ((s.setTp t).setReq i fun r =>
        { r with place := .working tp (.processed ecode) }).Pooled := by
    intro t ht hx hheld
    refine h.change ht hx hi (fun f => ?_) (fun f hf => ⟨hf, rfl⟩) (fun _ => ⟨hh, rfl⟩) hat
    rw [(holders_setReq t hi f).1 rfl]
    exact hheld f
  rcases hf : (s.req i).fid with _ | f
  · exact hstep h.sound (.refl _) h.held
  · obtain ⟨hs, hheld⟩ := h.refEffect hf eff fun he => by simpa [hf] using hsafe he
    exact hstep hs (s.tp.refEffect_ext f eff) hheld

/-- A worker releases the fid of a request. -/
theorem Pooled.postprocess {ecode : ℕ} (h : s.Pooled)
    (hp : (s.req i).place = .working tp (.processed ecode)) :
    ((if ecode = EINTR then s.interrupted i none else s).release i tp ecode).Pooled := by
  have hi : i < s.nreq := h.lt (by simp [hp])
  have hat : ∀ tp', (Place.working tp (.released ecode)).isAt tp' = true →
      (s.req i).place.isAt tp' = true := fun tp' => by rw [hp]; exact id
  have hquiet : ((s.setReq i fun r => { r with noreply := true }).release i tp ecode).Pooled := by
    have h' := h.move (g := fun r => { r with noreply := true }) hi rfl rfl fun _ hat => hat
    refine h'.letGo hi rfl rfl fun tp' hat' => ?_
    simpa using hat tp' hat'
  split
  · unfold interrupted
    split
    · -- the reference of the request becomes the one that the handler has dropped
      have hback : ∀ {t : Tpools}, t.Sound → s.tp.Ext t →
          (∀ f, (if (t.fid f).owned then 1 else 0) + s.holders f ≤ (t.fid f).refcount +
            if (s.req i).fid = some f then 1 else 0) →
          (((s.setTp t).setReq i fun r => { r with noreply := true, fid := none }).release i tp
            ecode).Pooled := by
        intro t ht hx hheld
        have heq : ((s.setTp t).setReq i fun r => { r with noreply := true, fid := none }).release i
            tp ecode = (s.setTp t).setReq i fun r =>
              { r with noreply := true, fid := none, place := .working tp (.released ecode) } := by
          simp only [Qsrv.release, setReq, setTp, if_true, Tpools.decrefOpt, Qsrv.mk.injEq,
            true_and,
            and_true]
          funext k
          split <;> rfl
        rw [heq]
        refine h.change ht hx hi (fun f => ?_) (fun f hf => by cases hf) (fun hh => by cases hh) hat
        have hh := (holders_setReq t hi (g := fun r =>
          { r with noreply := true, fid := none, place := .working tp (.released ecode) }) f).2 rfl
        have hr := hheld f
        omega
      have hle : ∀ f, (if (s.tp.fid f).owned = true then 1 else 0) ≤ 1 := fun f => by
        split <;> simp
      rcases hf : (s.req i).fid with _ | f
      · refine hback (t := s.tp) h.sound (.refl _) fun f => ?_
        have hr := h.held f
        omega
      · refine hback (t := s.tp.setFid f fun x => { x with owned := true })
          (h.sound.setFid f (fun _ => rfl) .rfl) (s.tp.setFid_ext f fun _ => ⟨rfl, rfl⟩) fun k => ?_
        have hr := h.held k
        rw [Tpools.setFid_fid, hf]
        by_cases hk : k = f
        · subst hk
          simp only [if_true]
          omega
        · rw [if_neg hk, if_neg fun hkf => hk (Option.some.inj hkf).symm]
          exact hr
    · exact hquiet
    · exact hquiet
  · exact h.letGo hi rfl rfl hat

/-- A request with a fid that is there. -/
theorem Pooled.found (h : s.Pooled) {f : ℕ} (hlt : f < s.tp.nfid)
    (hr : (s.tp.fid f).refcount ≠ 0) (tag : UInt16) (kind : Qkind) :
    ((s.setTp (s.tp.fidIncref f)).addReq (s.tp.fid f).conn tag kind (some f)).Pooled := by
  refine h.addReq (h.sound.setFid f (g := fun x => { x with refcount := x.refcount + 1 })
    (fun _ => rfl) ⟨fun _ => hr, fun _ => Nat.succ_ne_zero _⟩)
    (s.tp.setFid_ext f fun _ => ⟨rfl, rfl⟩) _ tag kind (some f) (fun k => ?_) fun k hk => ?_
  · have hr := h.held k
    rw [Tpools.setFid_fid]
    by_cases hk : k = f
    · subst hk
      simp only [if_true]
      omega
    · rw [if_neg hk, if_neg fun hkf => hk (Option.some.inj hkf).symm]
      exact hr
  · cases hk
    exact ⟨hlt, by rw [Tpools.setFid_fid, if_pos rfl]⟩

/-- A request that makes its fid. -/
theorem Pooled.made (h : s.Pooled) (conn : ℕ) (tag : UInt16) (kind : Qkind) (tp : Option ℕ) :
    ((s.setTp ((s.tp.select tp).makeFid conn tp false)).addReq conn tag kind
      (some s.tp.nfid)).Pooled := by
  obtain ⟨hsel, hx, hmem⟩ := h.sound.select tp
  have hn : (s.tp.select tp).nfid = s.tp.nfid ∧ (s.tp.select tp).fid = s.tp.fid := by
    rcases tp with _ | p
    · exact ⟨rfl, rfl⟩
    · change (ite _ _ _ : Tpools).nfid = _ ∧ (ite _ _ _ : Tpools).fid = _
      split <;> exact ⟨rfl, rfl⟩
  refine h.addReq (hsel.makeFid conn false hmem) (hx.trans (Tpools.makeFid_ext _ _ _ _)) conn tag
    kind _ (fun k => ?_) fun k hk => ?_
  · rw [Tpools.makeFid_fid, hn.1, hn.2]
    by_cases hk : k = s.tp.nfid
    · simp [hk, h.holders_nfid]
    · rw [if_neg hk, if_neg fun hkf => hk (Option.some.inj hkf).symm]
      exact h.held k
  · cases hk
    refine ⟨?_, by rw [Tpools.makeFid_fid, hn.1, if_pos rfl]⟩
    change _ < (s.tp.select tp).nfid + 1
    omega

theorem step_pooled (h : s.Pooled) (hc : s.poolSafe a = true)
    (hs : s.step a = some s') : s'.Pooled := by
  cases steps_of_step hs with
  | @receive conn tag kind _ =>
    exact h.addReq h.sound (.refl _) conn tag kind none (fun f => by simpa using h.held f)
      fun f hf => by cases hf
  | @receiveFound conn tag kind f _ hlt hcn hr =>
    subst hcn
    exact h.found hlt hr tag kind
  | @receiveMade conn tag kind tp _ => exact h.made conn tag kind tp
  | @flush conn oldtag _ =>
    have h' : ∀ x, (s.addFlush x).Pooled := fun x => h.of_eq rfl rfl rfl
    match hr : s.findReq conn oldtag with
    | none => exact h.of_eq rfl rfl rfl
    | some (i, true) => exact ((h' _).reqUnref (findReq_eq_some hr).1).of_eq rfl rfl rfl
    | some (i, false) =>
      exact (h' _).move (g := fun r => { r with flushreq := some s.nflush })
        (findReq_eq_some hr).1 rfl rfl fun _ hat => hat
  | @pick tp i _ hi =>
    obtain ⟨hi, hp⟩ := mem_reqs.mp hi
    refine h.move hi rfl ?_ fun tp' => ?_
    · rw [hp]
      rfl
    · rw [hp]
      exact id
  | @process i ecode tp eff hp _ =>
    refine h.process hp fun he => ?_
    subst he
    exact hc
  | @release i ecode tp bynum hp =>
    obtain rfl := Option.isNone_iff_eq_none.mp hc
    exact h.postprocess hp
  | @silence i ecode tp hp _ =>
    exact h.move (h.lt (by simp [hp])) rfl (by rw [hp]; rfl) fun tp' => by rw [hp]; exact id
  | @respond i ecode tp hp _ =>
    refine (h.move (i := i) (g := fun r => { r with place := .working tp .replied })
      (h.lt (by simp [hp])) rfl (by rw [hp]; rfl) fun tp' => ?_).of_eq rfl rfl rfl
    rw [hp]
    exact id
  | @leave i tp hp =>
    exact h.move (h.lt (by simp [hp])) rfl (by rw [hp]; rfl) fun _ hat => by cases hat
  | @finish i hp _ =>
    exact h.move (h.lt (by simp [hp])) rfl (by rw [hp]; rfl) fun _ hat => by cases hat
  | @finishFlush i j hp _ =>
    exact (h.move (i := i) (g := fun r => { r with place := .freed, flushreq := none })
      (h.lt (by simp [hp])) rfl (by rw [hp]; rfl) fun _ hat => by cases hat).of_eq rfl rfl rfl
  | @hangup conn _ => exact pooled_foldl_flushReq conn _ (h.of_eq rfl rfl rfl)
  | close _ hgone => exact h.close hc hgone

theorem start_pooled : start.Pooled := by
  refine ⟨⟨rfl, fun tp => ?_, fun _ _ => rfl, fun _ _ h => absurd rfl h⟩, fun f => ?_,
    fun _ _ => rfl,
    fun _ _ h => (by cases h), fun _ _ h => (by cases h), fun _ _ h => (by cases h)⟩
  · simp [start, Tpools.users]
  · simp [start, holders]

theorem foldl_flushReq_list (conn : ℕ) : ∀ (l : List ℕ) (s : Qsrv),
    (l.foldl (flushReq conn) s).tp.list = s.tp.list
  | [], _ => rfl
  | i :: l, s => by
    rw [List.foldl_cons, foldl_flushReq_list conn l]
    unfold flushReq
    split
    · split
      · split
        · exact Tpools.decrefOpt_list _ _
        · rfl
      · split <;> rfl
      · rfl
    · rfl

/-- The list of pools only grows, but at the end of a connection. -/
theorem step_list (hs : s.step a = some s') (ha : ∀ conn, a ≠ .close conn) :
    ∀ tp ∈ s.tp.list, tp ∈ s'.tp.list := by
  intro tp htp
  cases steps_of_step hs with
  | receiveMade _ =>
    change tp ∈ (Tpools.makeFid _ _ _ _).list
    rw [Tpools.makeFid_list]
    exact Tpools.mem_select htp _
  | @flush conn oldtag _ =>
    match s.findReq conn oldtag with
    | none => exact htp
    | some (i, true) => exact (Tpools.decrefOpt_ext _ _).list tp htp
    | some (i, false) => exact htp
  | @process i ecode tp' eff _ _ =>
    rcases (s.req i).fid with _ | f
    · exact htp
    · exact (s.tp.refEffect_ext f eff).list tp htp
  | @release i ecode tp' bynum _ =>
    change tp ∈ (Tpools.decrefOpt _ _).list
    rw [Tpools.decrefOpt_list]
    split
    · unfold interrupted
      split
      · cases (s.req i).fid <;> exact htp
      · change tp ∈ (Tpools.decrefOpt _ _).list
        rwa [Tpools.decrefOpt_list]
      · exact htp
    · exact htp
  | hangup _ =>
    rw [foldl_flushReq_list]
    exact htp
  | @close conn _ _ => exact absurd rfl (ha conn)
  | _ => exact htp

/-- **Pools with requests stay on the list**, as long as steps meet the condition; a pool
that is taken off has no requests, and `Tflush` finds every request that has not been
answered. -/
theorem pools_kept (h : Reaches step (fun s a => poolSafe s a = true) start s) :
    (∀ a s', poolSafe s a = true → s.step a = some s' →
      ∀ tp ∈ s.tp.list, tp ∉ s'.tp.list → s.reqs tp = [] ∧ s.workreqs tp = []) ∧
    ∀ i < s.nreq, (s.req i).place.gone = false →
      (s.findReq (s.req i).conn (s.req i).tag).isSome = true := by
  have hp : s.Pooled := h.invariant start_pooled fun t u a ht hc hs => step_pooled ht hc hs
  refine ⟨fun a s' hc hs tp htp hno => ?_, fun i hi hg => ?_⟩
  · have hp' := step_pooled hp hc hs
    by_cases ha : ∃ conn, a = .close conn
    · -- the end of a connection leaves requests alone
      obtain ⟨conn, rfl⟩ := ha
      simp only [step] at hs
      split at hs
      · cases hs
        have hempty : ∀ i, (s.req i).place.isAt tp = false := fun i =>
          Bool.eq_false_iff.mpr fun hat => hno (hp'.listed i tp hat)
        refine ⟨List.eq_nil_iff_forall_not_mem.mpr fun i hi => ?_,
          List.eq_nil_iff_forall_not_mem.mpr fun i hi => ?_⟩
        · have hat := hempty i
          rw [(mem_reqs.mp hi).2] at hat
          simp [Place.isAt] at hat
        · have hw := (mem_workreqs.mp hi).2
          have hat := hempty i
          rw [Place.isAt_of_worksAt hw] at hat
          cases hat
      · cases hs
    · exact absurd (step_list hs (fun conn hconn => ha ⟨conn, hconn⟩) tp htp) hno
  · by_contra hn
    have hf := gone_of_findReq (Option.not_isSome_iff_eq_none.mp hn) hi (isFor_iff.mpr ⟨rfl, rfl⟩)
      (hp.listed i)
    rw [hg] at hf
    cases hf

/-- Two connections, the second of which ends between the end of a `Tclunk` and the
reply to it, and then a `Tflush` for the `Tclunk`. -/
def clunkRace : List Qstep :=
  [.receive 0 1 .other (.made (some 1)), .pick 1, .process 0 0 .keep, .release 0 none, .respond 0,
    .leave 0, .finish 0,
    .receive 0 2 .drop (.found 0), .pick 1, .process 1 0 .drop, .release 1 none,
    .hangup 1, .close 1]

/-- A client that attaches to an export with a pool of its own and clunks the fid. -/
theorem pools_kept_clunk : ∃ s : Qsrv, Reaches step (fun s a => poolSafe s a = true) start s ∧
    s.tp.list = [0] ∧ (∀ a s', poolSafe s a = true → s.step a = some s' →
      ∀ tp ∈ s.tp.list, tp ∉ s'.tp.list → s.reqs tp = [] ∧ s.workreqs tp = []) ∧
    ∀ i < s.nreq, (s.req i).place.gone = false →
      (s.findReq (s.req i).conn (s.req i).tag).isSome = true := by
  have h : Reaches step (fun s a => poolSafe s a = true) start _ :=
    reaches_of_runSteps (c := poolSafe) (fun s a hc => hc)
      (l := clunkRace.take 11 ++ [.respond 1, .leave 1, .hangup 1, .close 1]) rfl rfl
  exact ⟨_, h, rfl, pools_kept h⟩

/-- **A pool goes with a request in it**: the `Tclunk` has released the fid and not yet
been replied to. A `Tflush` for it then finds nothing and is answered before it. -/
theorem pool_gone_clunk : ∃ s s' : Qsrv, runSteps step start clunkRace = some s ∧
    s.tp.list = [0] ∧ s.workreqs 1 = [1] ∧ (s.req 1).place = .working 1 (.released 0) ∧
    runSteps step s [.flush 0 2, .respond 1] = some s' ∧
    s'.sent = [.reply 0, .rflush 0, .reply 1] ∧ (s'.flush 0).meant = some 1 :=
  ⟨_, _, rfl, rfl, rfl, rfl, rfl, rfl, rfl⟩

end Qsrv

end Diod
