import Diod.Server.Queue

/-!
# Replies and flushes

Every request is replied to once, and a `Tflush` is answered so that a client can use
the tag again. Both are shown for any order in which the receive threads and the
workers take their steps, by invariants on where each request is and on what has been
sent for it.

The server decides by the error number `EINTR` that a request was flushed, and so it
keeps silent about a request that nobody flushed when the file system is interrupted for
another reason. And it looks for the request a `Tflush` is about by its tag alone, while
a request whose reply is out may still be on a work list: a client that uses the tag
again at once can find its `Tflush` answered for the old request.
-/

namespace Diod

variable {p : Place}

theorem Place.early_of_gone (h : p.gone = true) : p.early = false := by
  cases p with
  | queued tp => cases h
  | working tp st => cases h
  | left | freed => rfl

theorem Place.begun_of_worksAt {tp : ℕ} (h : p.worksAt tp = true) : p.begun = true := by
  cases p with
  | working tp' st => rfl
  | queued tp' => cases h
  | left | freed => cases h

namespace Qsrv

variable {s s' : Qsrv} {i j k : ℕ}

/-! ### What steps leave alone -/

@[simp] theorem setReq_req (s : Qsrv) (i : ℕ) (g : Qreq → Qreq) (k : ℕ) :
    (s.setReq i g).req k = if k = i then g (s.req k) else s.req k := rfl

@[simp] theorem setTp_req (s : Qsrv) (t : Tpools) : (s.setTp t).req = s.req := rfl

@[simp] theorem send_req (s : Qsrv) (m : Sent) : (s.send m).req = s.req := rfl

@[simp] theorem send_sent (s : Qsrv) (m : Sent) : (s.send m).sent = s.sent ++ [m] := rfl

/-- A `Tflush` has found the request. -/
def Flushed (s : Qsrv) (i : ℕ) : Prop := ∃ j b, j < s.nflush ∧ (s.flush j).found = some (i, b)

/-- **The reasons not to reply**: the request was flushed, or its connection is going. -/
def Excused (s : Qsrv) (i : ℕ) : Prop := s.Flushed i ∨ s.closing (s.req i).conn = true

/-- How often a request has been replied to. -/
def replies (s : Qsrv) (i : ℕ) : ℕ := s.sent.count (.reply i)

/-! ### What steps do not take back -/

/-- What steps do not take back. -/
structure Grows (s s' : Qsrv) : Prop where
  nreq : s.nreq ≤ s'.nreq
  nflush : s.nflush ≤ s'.nflush
  flush : ∀ j < s.nflush, s'.flush j = s.flush j
  closing : ∀ c, s.closing c = true → s'.closing c = true
  req : ∀ i < s.nreq, (s'.req i).conn = (s.req i).conn ∧ (s'.req i).tag = (s.req i).tag

theorem Grows.refl (s : Qsrv) : Grows s s :=
  ⟨le_rfl, le_rfl, fun _ _ => rfl, fun _ h => h, fun _ _ => ⟨rfl, rfl⟩⟩

variable {s'' : Qsrv} {g : Qreq → Qreq} {conn tp : ℕ}

theorem Grows.trans (h : Grows s s') (h' : Grows s' s'') : Grows s s'' where
  nreq := h.nreq.trans h'.nreq
  nflush := h.nflush.trans h'.nflush
  flush j hj := (h'.flush j (hj.trans_le h.nflush)).trans (h.flush j hj)
  closing c hc := h'.closing c (h.closing c hc)
  req i hi :=
    have h₁ := h.req i hi
    have h₂ := h'.req i (hi.trans_le h.nreq)
    ⟨h₂.1.trans h₁.1, h₂.2.trans h₁.2⟩

theorem Excused.grows (h : Grows s s') (hi : i < s.nreq) (he : s.Excused i) : s'.Excused i := by
  rcases he with ⟨j, b, hj, hf⟩ | hc
  · exact .inl ⟨j, b, hj.trans_le h.nflush, by rw [h.flush j hj, hf]⟩
  · exact .inr (by rw [(h.req i hi).1]; exact h.closing _ hc)

/-- The end of a connection. -/
structure HungUp (conn : ℕ) (s s' : Qsrv) : Prop extends Grows s s' where
  same : s'.nreq = s.nreq ∧ s'.nflush = s.nflush ∧ s'.sent = s.sent
  moved : ∀ k, ((s'.req k).place = (s.req k).place ∨
      (s'.req k).place = .freed ∧ (s.req k).place.early = true ∧ (s.req k).conn = conn) ∧
    ((s'.req k).noreply = true → (s.req k).noreply = true ∨ (s.req k).conn = conn)

theorem HungUp.trans (h : HungUp conn s s') (h' : HungUp conn s' s'')
    (hc : ∀ k, (s'.req k).conn = (s.req k).conn) : HungUp conn s s'' := by
  refine ⟨h.toGrows.trans h'.toGrows, ⟨h'.same.1.trans h.same.1, h'.same.2.1.trans h.same.2.1,
    h'.same.2.2.trans h.same.2.2⟩, fun k => ⟨?_, fun hn => ?_⟩⟩
  · rcases (h'.moved k).1 with h₂ | ⟨h₂, he, hk⟩
    · rw [h₂]
      exact (h.moved k).1
    · rcases (h.moved k).1 with h₁ | ⟨h₁, he', hk'⟩
      · exact .inr ⟨h₂, h₁ ▸ he, hc k ▸ hk⟩
      · rw [h₁] at he
        cases he
  · rcases (h'.moved k).2 hn with h₂ | h₂
    · exact (h.moved k).2 h₂
    · exact .inr (hc k ▸ h₂)

/-- **What has been told the client about a request**: nothing as long as a reply may
come, then one reply, or none for a reason. -/
structure Told (s : Qsrv) (i : ℕ) : Prop where
  unborn : s.nreq ≤ i → (s.req i).place = .freed ∧ s.replies i = 0
  early : (s.req i).place.early = true → s.replies i = 0
  late : i < s.nreq → (s.req i).place.early = false →
    s.replies i = 1 ∨ s.replies i = 0 ∧ s.Excused i
  noreply : i < s.nreq → (s.req i).noreply = true → s.Excused i
  eintr : i < s.nreq → ∀ tp, (s.req i).place = .working tp (.processed EINTR) → s.Excused i

/-- A step that does not concern the request. -/
theorem Told.same (h : s.Told k) (hg : Grows s s') (hn : k < s'.nreq ↔ k < s.nreq)
    (hp : (s'.req k).place = (s.req k).place)
    (hr : (s'.req k).noreply = true → (s.req k).noreply = true) (hc : s'.replies k = s.replies k) :
    s'.Told k where
  unborn hk := by
    rw [hp, hc]
    exact h.unborn (not_lt.mp fun hlt => not_lt.mpr hk (hn.mpr hlt))
  early he := hc.trans (h.early (hp ▸ he))
  late hk he := by
    rw [hc]
    exact (h.late (hn.mp hk) (hp ▸ he)).imp id (And.imp id (Excused.grows hg (hn.mp hk)))
  noreply hk hr' := (h.noreply (hn.mp hk) (hr hr')).grows hg (hn.mp hk)
  eintr hk tp he := (h.eintr (hn.mp hk) tp (hp ▸ he)).grows hg (hn.mp hk)

/-- A request that is somewhere has been received. -/
theorem Told.lt (h : s.Told i) (hp : (s.req i).place ≠ .freed) : i < s.nreq :=
  Nat.lt_of_not_le fun hi => hp (h.unborn hi).1

theorem mem_reqs : i ∈ s.reqs tp ↔ i < s.nreq ∧ (s.req i).place = .queued tp := by
  simp [reqs]

theorem mem_workreqs : i ∈ s.workreqs tp ↔ i < s.nreq ∧ (s.req i).place.worksAt tp = true := by
  simp [workreqs]

theorem isFor_iff {oldtag : UInt16} :
    s.isFor conn oldtag i = true ↔ (s.req i).conn = conn ∧ (s.req i).tag = oldtag := by
  simp [isFor]

/-- What the search of `np_flush` finds is what it looks for. -/
theorem findReq_eq_some {oldtag : UInt16} {b : Bool} (h : s.findReq conn oldtag = some (i, b)) :
    i < s.nreq ∧ (s.req i).conn = conn ∧ (s.req i).tag = oldtag ∧
      ∃ tp ∈ s.tp.list, if b then (s.req i).place = .queued tp
        else (s.req i).place.worksAt tp = true := by
  obtain ⟨tp, htp, h⟩ := List.exists_of_findSome?_eq_some h
  unfold findIn at h
  split at h
  · rename_i i' hi
    cases h
    obtain ⟨hc, ht⟩ := isFor_iff.mp (List.find?_some hi)
    obtain ⟨hlt, hp⟩ := mem_reqs.mp (List.mem_of_find?_eq_some hi)
    exact ⟨hlt, hc, ht, tp, htp, hp⟩
  · obtain ⟨i', hi, h⟩ := Option.map_eq_some_iff.mp h
    cases h
    obtain ⟨hc, ht⟩ := isFor_iff.mp (List.find?_some hi)
    obtain ⟨hlt, hp⟩ := mem_workreqs.mp (List.mem_of_find?_eq_some hi)
    exact ⟨hlt, hc, ht, tp, htp, hp⟩

/-- The server before anything is received. -/
def start : Qsrv := {}

/-- The pools stay as they are: no connection ends, and no new pool is needed. -/
def fixedPools (s : Qsrv) : Qstep → Bool
  | .receive _ _ _ (.made (some tp)) => s.tp.list.contains tp
  | .hangup _ | .close _ => false
  | _ => true

/-- A tag is used again only when the request that had it is off the work list. -/
def tagFree (s : Qsrv) : Qstep → Bool
  | .receive conn tag _ _ => (List.range s.nreq).all fun i =>
      !s.isFor conn tag i || (s.req i).place.gone
  | _ => true

end Qsrv

/-! ### Pools that stay -/

/-- The list of pools is the same, and every fid's pool is on it. -/
structure Tpools.Stays (t t' : Tpools) : Prop where
  list : t'.list = t.list
  fid : ∀ f tp, (t'.fid f).tpool = some tp → tp ∈ t'.list

namespace Tpools

variable {t : Tpools} (h : ∀ f tp, (t.fid f).tpool = some tp → tp ∈ t.list)

include h

theorem stays_setFid (f : ℕ) {g : Qfid → Qfid} (hg : ∀ x, (g x).tpool = x.tpool) :
    t.Stays (t.setFid f g) := by
  refine ⟨rfl, fun k tp hk => ?_⟩
  simp only [setFid] at hk ⊢
  split at hk
  · exact h k tp (by rwa [hg] at hk)
  · exact h k tp hk

theorem stays_decref (o : Option ℕ) : t.Stays (t.decref o) := by
  cases o <;> exact ⟨rfl, h⟩

theorem stays_fidDecref (f : ℕ) : t.Stays (t.fidDecref f) := by
  have h' := stays_setFid h f (g := fun x => { x with refcount := x.refcount - 1 }) fun _ => rfl
  unfold fidDecref
  split
  · have h'' := stays_decref h'.fid (t.fid f).tpool
    exact ⟨h''.list.trans h'.list, h''.fid⟩
  · exact h'

theorem stays_decrefOpt (o : Option ℕ) : t.Stays (t.decrefOpt o) := by
  rcases o with _ | f
  · exact ⟨rfl, h⟩
  · exact stays_fidDecref h f

theorem stays_makeFid (conn : ℕ) {tp : Option ℕ} (owned : Bool)
    (htp : ∀ p, tp = some p → p ∈ t.list) :
    t.Stays (t.makeFid conn tp owned) := by
  have hl : (t.makeFid conn tp owned).list = t.list := by cases tp <;> rfl
  refine ⟨hl, fun k p hk => ?_⟩
  rw [hl]
  simp only [makeFid] at hk
  split at hk
  · exact htp p hk
  · exact h k p hk

omit h in
theorem poolFor_mem (hl : t.list.headD 0 ∈ t.list)
    (h : ∀ f tp, (t.fid f).tpool = some tp → tp ∈ t.list) (fid : Option ℕ) :
    t.poolFor fid ∈ t.list := by
  unfold poolFor
  rcases hf : fid.bind fun f => (t.fid f).tpool with _ | tp
  · exact hl
  · obtain ⟨f, -, hf⟩ := Option.bind_eq_some_iff.mp hf
    exact h f tp hf

theorem stays_refEffect (f : ℕ) (eff : RefEffect) : t.Stays (t.refEffect f eff) := by
  cases eff with
  | nothing => exact ⟨rfl, h⟩
  | keep =>
    have h' := stays_setFid h f
      (g := fun x => { x with refcount := x.refcount + 1, owned := true }) fun _ => rfl
    exact h'
  | clone => exact stays_makeFid h _ _ fun p hp => h f p hp
  | drop =>
    have h' := stays_setFid h f (g := fun x => { x with owned := false }) fun _ => rfl
    have h'' := stays_fidDecref h'.fid f
    exact ⟨h''.list.trans h'.list, h''.fid⟩

end Tpools

namespace Qsrv

variable {s s' : Qsrv} {i j k : ℕ}

/-- **The invariant of flushes.** -/
structure Flushes (s : Qsrv) : Prop where
  pool : s.tp.list.headD 0 ∈ s.tp.list
  fidPool : ∀ f tp, (s.tp.fid f).tpool = some tp → tp ∈ s.tp.list
  unborn : ∀ i, s.nreq ≤ i → (s.req i).place = .freed
  listed : ∀ i tp, (s.req i).place.isAt tp = true → tp ∈ s.tp.list
  /-- Of the requests with one tag, only the last one can be in a list. -/
  older : ∀ i k, i < k → k < s.nreq → (s.req i).conn = (s.req k).conn →
    (s.req i).tag = (s.req k).tag → (s.req i).place.gone = true
  quiet : ∀ i, (s.req i).place.early = true → .reply i ∉ s.sent
  unheard : ∀ i, s.nreq ≤ i → .reply i ∉ s.sent
  unsent : ∀ j, s.nflush ≤ j → .rflush j ∉ s.sent
  once : ∀ j, s.sent.count (.rflush j) ≤ 1
  meant : ∀ j < s.nflush, ∀ i, (s.flush j).meant = some i → i < s.nreq
  found : ∀ j < s.nflush, ∀ i b, (s.flush j).found = some (i, b) → (s.flush j).meant = some i
  early : ∀ j < s.nflush, ∀ i, (s.flush j).found = some (i, true) →
    (s.req i).place = .freed ∧ .reply i ∉ s.sent
  /-- The `Tflush` that waits for a request. -/
  waits : ∀ i j, (s.req i).flushreq = some j → j < s.nflush ∧
    (s.flush j).found = some (i, false) ∧ .rflush j ∉ s.sent ∧ (s.req i).place.begun = true
  silent : ∀ j < s.nflush, ∀ i, (s.flush j).meant = some i → .rflush j ∈ s.sent →
    (s.req i).place.early = false
  order : ∀ j < s.nflush, ∀ i pre post, (s.flush j).meant = some i →
    s.sent = pre ++ .rflush j :: post → .reply i ∉ post

/-- A `Tflush` has been answered, or it came late, and it waits or a later one for the same
request does, or a later one has been answered. -/
def Answers (s : Qsrv) : Prop :=
  ∀ j < s.nflush, .rflush j ∈ s.sent ∨ ∃ i, (s.flush j).found = some (i, false) ∧
    ((∃ k, j ≤ k ∧ (s.req i).flushreq = some k) ∨
      ∃ k, j < k ∧ k < s.nflush ∧ (s.flush k).found = some (i, false) ∧ .rflush k ∈ s.sent)

/-- What was so of a `Tflush` is so still when a later one may wait in its place. -/
theorem Answers.at (h : s.Answers) (hj : j < s.nflush) (hn : s.nflush ≤ s'.nflush)
    (hf : ∀ k < s.nflush, s'.flush k = s.flush k) (hs : ∀ m ∈ s.sent, m ∈ s'.sent)
    (hr : ∀ i k, (s.req i).flushreq = some k → ∃ k', k ≤ k' ∧ (s'.req i).flushreq = some k') :
    .rflush j ∈ s'.sent ∨ ∃ i, (s'.flush j).found = some (i, false) ∧
      ((∃ k, j ≤ k ∧ (s'.req i).flushreq = some k) ∨
        ∃ k, j < k ∧ k < s'.nflush ∧ (s'.flush k).found = some (i, false) ∧
          .rflush k ∈ s'.sent) := by
  rw [hf j hj]
  rcases h j hj with h | ⟨i, hi, ⟨k, hk, h⟩ | ⟨k, hk, hkn, hki, h⟩⟩
  · exact .inl (hs _ h)
  · obtain ⟨k', hkk, hk'⟩ := hr i k h
    exact .inr ⟨i, hi, .inl ⟨k', hk.trans hkk, hk'⟩⟩
  · exact .inr ⟨i, hi, .inr ⟨k, hk, hkn.trans_le hn, by rw [hf k hkn, hki], hs _ h⟩⟩

theorem Answers.mono (h : s.Answers) (hn : s'.nflush = s.nflush) (hf : s'.flush = s.flush)
    (hs : ∀ m ∈ s.sent, m ∈ s'.sent)
    (hr : ∀ i k, (s.req i).flushreq = some k → (s'.req i).flushreq = some k) : s'.Answers :=
  fun _ hj => h.at (hn ▸ hj) hn.ge (fun _ _ => by rw [hf]) hs fun i k hk => ⟨k, le_rfl, hr i k hk⟩

/-- Flushes are, and have been, answered as they should. -/
def Tidy (s : Qsrv) : Prop := s.Flushes ∧ s.Answers

variable {t : Tpools} {g : Qreq → Qreq} {conn tp : ℕ} {oldtag : UInt16} {st : Stage}

/-- A step that moves one request on. -/
theorem Flushes.move (h : s.Flushes) (ht : s.tp.Stays t) (hi : i < s.nreq)
    (hp : (s.req i).place ≠ .freed)
    (hat : ∀ tp, (g (s.req i)).place.isAt tp = true → (s.req i).place.isAt tp = true)
    (hgone : (s.req i).place.gone = true → (g (s.req i)).place.gone = true)
    (hearly : (g (s.req i)).place.early = true → (s.req i).place.early = true)
    (hwait : ∀ j, (g (s.req i)).flushreq = some j → j < s.nflush ∧
      (s.flush j).found = some (i, false) ∧ .rflush j ∉ s.sent ∧ (g (s.req i)).place.begun = true)
    (hsame : ∀ r, (g r).conn = r.conn ∧ (g r).tag = r.tag := by exact fun _ => ⟨rfl, rfl⟩) :
    ((s.setTp t).setReq i g).Flushes := by
  have hr : ∀ k, k ≠ i → ((s.setTp t).setReq i g).req k = s.req k := fun k hk => by simp [hk]
  have hri : ((s.setTp t).setReq i g).req i = g (s.req i) := by simp
  have hc : ∀ k, (((s.setTp t).setReq i g).req k).conn = (s.req k).conn ∧
      (((s.setTp t).setReq i g).req k).tag = (s.req k).tag := fun k => by
    rcases eq_or_ne k i with rfl | hk
    · rw [hri]
      exact hsame _
    · rw [hr k hk]
      exact ⟨rfl, rfl⟩
  refine ⟨?_, ht.fid, fun k hk => ?_, fun k tp hk => ?_, fun k m hkm hm hck htk => ?_,
    fun k hk => ?_, h.unheard, h.unsent, h.once, h.meant, h.found, fun j hj k hf => ?_,
    fun k j hk => ?_, fun j hj k hm hs => ?_, h.order⟩
  · rw [show ((s.setTp t).setReq i g).tp = t from rfl, ht.list]
    exact h.pool
  · have hne : k ≠ i := fun hki => absurd (hki ▸ hk) (Nat.not_le.mpr hi)
    rw [hr k hne]
    exact h.unborn k hk
  · rw [show ((s.setTp t).setReq i g).tp = t from rfl, ht.list]
    rcases eq_or_ne k i with rfl | hne
    · exact h.listed k tp (hat tp (hri ▸ hk))
    · exact h.listed k tp (hr k hne ▸ hk)
  · rw [(hc k).1, (hc m).1] at hck
    rw [(hc k).2, (hc m).2] at htk
    have ho := h.older k m hkm hm hck htk
    rcases eq_or_ne k i with rfl | hne
    · rw [hri]
      exact hgone ho
    · rw [hr k hne]
      exact ho
  · rcases eq_or_ne k i with rfl | hne
    · exact h.quiet k (hearly (hri ▸ hk))
    · exact h.quiet k (hr k hne ▸ hk)
  · obtain ⟨hf', hs⟩ := h.early j hj k hf
    have hne : k ≠ i := fun hki => hp (hki ▸ hf')
    exact ⟨by rw [hr k hne]; exact hf', hs⟩
  · rcases eq_or_ne k i with rfl | hne
    · rw [hri] at hk ⊢
      exact hwait j hk
    · rw [hr k hne] at hk ⊢
      exact h.waits k j hk
  · have he := h.silent j hj k hm hs
    rcases eq_or_ne k i with rfl | hne
    · rw [hri]
      rcases hg : (g (s.req k)).place.early with _ | _
      · rfl
      · rw [hearly hg] at he; cases he
    · rw [hr k hne]
      exact he

/-- What does not come after something still does not when one more thing is sent. -/
theorem not_mem_after_snoc {l : List Sent} {a b m : Sent}
    (h : ∀ pre post, l = pre ++ a :: post → b ∉ post) (hm : m = b → a ∉ l) (pre post : List Sent)
    (hs : l ++ [m] = pre ++ a :: post) : b ∉ post := by
  rcases List.eq_nil_or_concat post with rfl | ⟨post, m', rfl⟩
  · exact List.not_mem_nil
  · rw [List.concat_eq_append, ← List.cons_append, ← List.append_assoc] at hs
    obtain ⟨hs, hmm⟩ := List.append_inj' hs rfl
    rw [List.concat_eq_append, List.mem_append, not_or]
    refine ⟨h pre post hs, fun hb => hm ?_ (hs ▸ by simp)⟩
    rw [← hmm, List.mem_singleton] at hb
    exact hb.symm

/-- A reply is sent to a request that then is replied to. -/
theorem Flushes.reply (h : s.Flushes) (hi : (s.req i).place.early = false)
    (hj : ∀ j < s.nflush, (s.flush j).meant = some i → .rflush j ∉ s.sent)
    (hf : (s.req i).place ≠ .freed) : (s.send (.reply i)).Flushes := by
  have hm : ∀ j, .rflush j ∈ (s.send (.reply i)).sent ↔ .rflush j ∈ s.sent := by simp
  have hn : ∀ k, k ≠ i → .reply k ∉ s.sent → .reply k ∉ (s.send (.reply i)).sent := by
    intro k hk hs
    simp [hk, hs]
  refine ⟨h.pool, h.fidPool, h.unborn, h.listed, h.older, fun k hk => hn k ?_ (h.quiet k hk),
    fun k hk => hn k ?_ (h.unheard k hk), fun j hj => ?_, fun j => ?_, h.meant, h.found,
    fun j hj k hk => ?_, fun k j hk => ?_, fun j hj k hk hs => ?_, fun j hj' k pre post hk => ?_⟩
  · rintro rfl
    rw [send_req, hi] at hk
    cases hk
  · rintro rfl
    exact hf (h.unborn k hk)
  · rw [hm]
    exact h.unsent j hj
  · rw [send_sent, List.count_append]
    simpa using h.once j
  · obtain ⟨hp, hs⟩ := h.early j hj k hk
    exact ⟨hp, hn k (fun hk' => hf (hk' ▸ hp)) hs⟩
  · obtain ⟨h₁, h₂, h₃, h₄⟩ := h.waits k j hk
    exact ⟨h₁, h₂, by rwa [hm], h₄⟩
  · rw [hm] at hs
    exact h.silent j hj k hk hs
  · refine not_mem_after_snoc (h.order j hj' k · · hk) (fun hk' => ?_) pre post
    cases hk'
    exact hj j hj' hk

/-- A `Tflush` is answered. -/
theorem Flushes.answer (h : s.Flushes) (hj : j < s.nflush) (hs : .rflush j ∉ s.sent)
    (hw : ∀ k, (s.req k).flushreq ≠ some j)
    (he : ∀ i, (s.flush j).meant = some i → (s.req i).place.early = false) :
    (s.send (.rflush j)).Flushes := by
  have hm : ∀ k, .reply k ∈ (s.send (.rflush j)).sent ↔ .reply k ∈ s.sent := by simp
  have hn : ∀ k, k ≠ j → (.rflush k ∈ (s.send (.rflush j)).sent ↔ .rflush k ∈ s.sent) := by
    intro k hk
    simp [hk]
  refine ⟨h.pool, h.fidPool, h.unborn, h.listed, h.older, fun k hk => ?_, fun k hk => ?_,
    fun k hk => ?_, fun k => ?_, h.meant, h.found, fun k hk i hi => ?_, fun i k hk => ?_,
    fun k hk i hi hs => ?_, fun k hk i pre post hi => ?_⟩
  · rw [hm]
    exact h.quiet k hk
  · rw [hm]
    exact h.unheard k hk
  · rw [hn k (Nat.ne_of_gt (hj.trans_le hk))]
    exact h.unsent k hk
  · rw [send_sent, List.count_append]
    rcases eq_or_ne k j with rfl | hk
    · simp [List.count_eq_zero.mpr hs]
    · simpa [List.count_singleton, hk.symm] using h.once k
  · rw [hm]
    exact h.early k hk i hi
  · obtain ⟨h₁, h₂, h₃, h₄⟩ := h.waits i k hk
    exact ⟨h₁, h₂, by rwa [hn k fun hkj => hw i (hkj ▸ hk)], h₄⟩
  · rcases eq_or_ne k j with rfl | hkj
    · exact he i hi
    · rw [hn k hkj] at hs
      exact h.silent k hk i hi hs
  · exact not_mem_after_snoc (h.order k hk i · · hi) (fun hk' => by cases hk') pre post

/-- A `Tflush` is written down, for the request that is found. -/
theorem Flushes.addFlush (h : s.Flushes) (x : Qflush) (hm : ∀ i, x.meant = some i → i < s.nreq)
    (hf : ∀ i b, x.found = some (i, b) → x.meant = some i)
    (he : ∀ i, x.found = some (i, true) → (s.req i).place = .freed ∧ .reply i ∉ s.sent) :
    (s.addFlush x).Flushes := by
  have hold : ∀ j, j < s.nflush → (s.addFlush x).flush j = s.flush j := fun j hj => by
    simp [Qsrv.addFlush, Nat.ne_of_lt hj]
  have hnew : (s.addFlush x).flush s.nflush = x := by simp [Qsrv.addFlush]
  have hu : .rflush s.nflush ∉ s.sent := h.unsent s.nflush le_rfl
  have hlt : ∀ j, j < (s.addFlush x).nflush → j < s.nflush ∨ j = s.nflush := fun j hj =>
    Nat.lt_or_eq_of_le (Nat.le_of_lt_succ hj)
  refine ⟨h.pool, h.fidPool, h.unborn, h.listed, h.older, h.quiet, h.unheard,
    fun j hj => h.unsent j (Nat.le_of_succ_le hj), h.once, fun j hj i hi => ?_,
    fun j hj i b hi => ?_, fun j hj i hi => ?_, fun i j hi => ?_, fun j hj i hi hs => ?_,
    fun j hj i pre post hi hs => ?_⟩
  · rcases hlt j hj with hj | rfl
    · exact h.meant j hj i (hold j hj ▸ hi)
    · exact hm i (hnew ▸ hi)
  · rcases hlt j hj with hj | rfl
    · rw [hold j hj] at hi ⊢
      exact h.found j hj i b hi
    · rw [hnew] at hi ⊢
      exact hf i b hi
  · rcases hlt j hj with hj | rfl
    · exact h.early j hj i (hold j hj ▸ hi)
    · exact he i (hnew ▸ hi)
  · obtain ⟨hj, h₂⟩ := h.waits i j hi
    rw [hold j hj]
    exact ⟨Nat.lt_succ_of_lt hj, h₂⟩
  · rcases hlt j hj with hj | rfl
    · exact h.silent j hj i (hold j hj ▸ hi) hs
    · exact absurd hs hu
  · rcases hlt j hj with hj | rfl
    · exact h.order j hj i pre post (hold j hj ▸ hi) hs
    · have hs : s.sent = _ := hs
      exact absurd (hs ▸ by simp) hu

/-- A request is received, with a tag that is free. -/
theorem Flushes.addReq (h : s.Flushes) (ht : s.tp.Stays t) (conn : ℕ) (tag : UInt16)
    (kind : Qkind) (fid : Option ℕ)
    (hfree : ∀ i < s.nreq, s.isFor conn tag i = true → (s.req i).place.gone = true) :
    ((s.setTp t).addReq conn tag kind fid).Flushes := by
  have hr : ∀ k, k ≠ s.nreq → ((s.setTp t).addReq conn tag kind fid).req k = s.req k :=
    fun k hk => by simp [Qsrv.addReq, setTp, hk]
  have hn : ∀ k, k < s.nreq → k ≠ s.nreq := fun k hk => Nat.ne_of_lt hk
  have hq : .reply s.nreq ∉ s.sent := h.unheard s.nreq le_rfl
  have hnew : ((s.setTp t).addReq conn tag kind fid).req s.nreq =
      ⟨conn, tag, kind, fid, false, none, .queued (t.poolFor fid)⟩ := by
    simp [Qsrv.addReq, setTp]
  refine ⟨?_, ht.fid, fun k hk => ?_, fun k tp hk => ?_, fun k m hkm hm hck htk => ?_,
    fun k hk => ?_, fun k hk => h.unheard k (Nat.le_of_succ_le hk), h.unsent, h.once,
    fun j hj k hk => Nat.lt_succ_of_lt (h.meant j hj k hk),
    h.found, fun j hj k hf => ?_, fun k j hk => ?_, fun j hj k hm hs => ?_, h.order⟩
  · change t.list.headD 0 ∈ t.list
    rw [ht.list]
    exact h.pool
  · have hk : s.nreq + 1 ≤ k := hk
    rw [hr k (by omega)]
    exact h.unborn k (by omega)
  · change tp ∈ t.list
    rcases eq_or_ne k s.nreq with rfl | hne
    · rw [hnew] at hk
      obtain rfl : t.poolFor fid = tp := by simpa [Place.isAt] using hk
      exact Tpools.poolFor_mem (ht.list ▸ h.pool) ht.fid fid
    · rw [ht.list]
      exact h.listed k tp (hr k hne ▸ hk)
  · have hm : m < s.nreq + 1 := hm
    rw [hr k (by omega)] at hck htk ⊢
    rcases eq_or_ne m s.nreq with rfl | hne
    · rw [hnew] at hck htk
      exact hfree k hkm (by simp [isFor, hck, htk])
    · rw [hr m hne] at hck htk
      exact h.older k m hkm (by omega) hck htk
  · rcases eq_or_ne k s.nreq with rfl | hne
    · exact hq
    · exact h.quiet k (hr k hne ▸ hk)
  · have hlt := h.meant j hj k (h.found j hj k true hf)
    rw [hr k (hn k hlt)]
    exact h.early j hj k hf
  · rcases eq_or_ne k s.nreq with rfl | hne
    · rw [hnew] at hk
      cases hk
    · rw [hr k hne] at hk ⊢
      exact h.waits k j hk
  · have hlt := h.meant j hj k hm
    rw [hr k (hn k hlt)]
    exact h.silent j hj k hm hs

/-! ### The search -/

/-- The last number with a property. -/
theorem find?_reverse_range (p : ℕ → Bool) (i : ℕ) : ∀ n,
    (List.range n).reverse.find? p = some i ↔
      i < n ∧ p i = true ∧ ∀ k, i < k → k < n → p k = false
  | 0 => by simp
  | n + 1 => by
    rw [List.range_succ, List.reverse_append, List.reverse_singleton, List.singleton_append,
      List.find?_cons]
    rcases hp : p n with _ | _
    · refine (find?_reverse_range p i n).trans ⟨fun ⟨hi, hpi, hk⟩ => ?_, fun ⟨hi, hpi, hk⟩ => ?_⟩
      · refine ⟨Nat.lt_succ_of_lt hi, hpi, fun k hik hkn => ?_⟩
        rcases Nat.lt_or_eq_of_le (Nat.le_of_lt_succ hkn) with hlt | rfl
        · exact hk k hik hlt
        · exact hp
      · refine ⟨lt_of_le_of_ne (Nat.le_of_lt_succ hi) ?_, hpi,
          fun k hik hkn => hk k hik (Nat.lt_succ_of_lt hkn)⟩
        rintro rfl
        rw [hp] at hpi
        cases hpi
    · refine ⟨fun h => ?_, fun ⟨hi, _, hk⟩ => ?_⟩
      · cases h
        exact ⟨Nat.lt_succ_self _, hp, fun k hk hkn => absurd hkn (by omega)⟩
      · rcases Nat.lt_or_eq_of_le (Nat.le_of_lt_succ hi) with hlt | hin
        · exact absurd (hk n hlt (Nat.lt_succ_self n)) (by simp [hp])
        · exact congrArg some hin.symm

/-- **The search finds the request that the client means.** -/
theorem Flushes.found_meant (h : s.Flushes) {b : Bool}
    (hf : s.findReq conn oldtag = some (i, b)) : s.meant conn oldtag = some i := by
  obtain ⟨hi, hc, ht, tp, -, hp⟩ := findReq_eq_some hf
  refine (find?_reverse_range _ i s.nreq).mpr ⟨hi, isFor_iff.mpr ⟨hc, ht⟩, fun k hik hk => ?_⟩
  rw [Bool.eq_false_iff]
  intro hk'
  obtain ⟨hkc, hkt⟩ := isFor_iff.mp hk'
  have hg := h.older i k hik hk (hc.trans hkc.symm) (ht.trans hkt.symm)
  rcases b with _ | _
  · cases hq : (s.req i).place with
    | working tp' st => rw [hq] at hg; cases hg
    | queued | left | freed => rw [hq] at hp; cases hp
  · rw [if_pos rfl] at hp
    rw [hp] at hg
    cases hg

/-- What the search does not find is in no list. -/
theorem gone_of_findReq (hf : s.findReq conn oldtag = none)
    (hlt : i < s.nreq) (hfor : s.isFor conn oldtag i = true)
    (hl : ∀ tp, (s.req i).place.isAt tp = true → tp ∈ s.tp.list) : (s.req i).place.gone = true := by
  have hno : ∀ tp ∈ s.tp.list, s.findIn conn oldtag tp = none := List.findSome?_eq_none_iff.mp hf
  have hskip : ∀ tp ∈ s.tp.list, i ∉ s.reqs tp ∧ i ∉ s.workreqs tp := by
    intro tp htp
    have hn := hno tp htp
    unfold findIn at hn
    split at hn
    · cases hn
    · rename_i hq
      rw [Option.map_eq_none_iff] at hn
      exact ⟨fun hm => List.find?_eq_none.mp hq i hm hfor,
        fun hm => List.find?_eq_none.mp hn i hm hfor⟩
  cases hp : (s.req i).place with
  | queued tp =>
    exact absurd (mem_reqs.mpr ⟨hlt, hp⟩) (hskip tp (hl tp (by simp [hp, Place.isAt]))).1
  | working tp st =>
    exact absurd (mem_workreqs.mpr ⟨hlt, by simp [hp, Place.worksAt]⟩)
      (hskip tp (hl tp (by simp [hp, Place.isAt]))).2
  | left => rfl
  | freed => rfl

/-! ### Steps and runs -/

/-- A step that leaves the `Tflush` of a request alone. -/
theorem tidy_move (h : s.Tidy) (ht : s.tp.Stays t) (hp : (s.req i).place ≠ .freed)
    (hat : ∀ tp, (g (s.req i)).place.isAt tp = true → (s.req i).place.isAt tp = true)
    (hgone : (s.req i).place.gone = true → (g (s.req i)).place.gone = true)
    (hbegun : (s.req i).place.begun = true → (g (s.req i)).place.begun = true)
    (hearly : (g (s.req i)).place.early = true → (s.req i).place.early = true)
    (hsame : ∀ r, (g r).conn = r.conn ∧ (g r).tag = r.tag ∧ (g r).flushreq = r.flushreq :=
      by exact fun _ => ⟨rfl, rfl, rfl⟩) :
    ((s.setTp t).setReq i g).Tidy := by
  have hi : i < s.nreq := Nat.lt_of_not_le fun hi => hp (h.1.unborn i hi)
  refine ⟨h.1.move ht hi hp hat hgone hearly (fun j hj => ?_) fun r => ⟨(hsame r).1, (hsame r).2.1⟩,
    h.2.mono rfl rfl (fun _ hm => hm) fun k j hk => ?_⟩
  · rw [(hsame _).2.2] at hj
    obtain ⟨h₁, h₂, h₃, h₄⟩ := h.1.waits i j hj
    exact ⟨h₁, h₂, h₃, hbegun h₄⟩
  · rw [setReq_req]
    split
    · rw [(hsame _).2.2]
      exact hk
    · exact hk

/-- A step on a request that is on a work list, and stays there. -/
theorem tidy_work (h : s.Tidy) (ht : s.tp.Stays t)
    {st' : Stage} (hp : (s.req i).place = .working tp st)
    (hp' : (g (s.req i)).place = .working tp st')
    (hearly : (Place.working tp st').early = true → (Place.working tp st).early = true)
    (hsame : ∀ r, (g r).conn = r.conn ∧ (g r).tag = r.tag ∧ (g r).flushreq = r.flushreq :=
      by exact fun _ => ⟨rfl, rfl, rfl⟩) :
    ((s.setTp t).setReq i g).Tidy := by
  refine tidy_move h ht (by simp [hp]) (fun tp' => ?_) (fun hg => ?_) (fun _ => ?_) ?_ hsame
  · rw [hp, hp']
    exact id
  · rw [hp] at hg
    cases hg
  · rw [hp']
    rfl
  · rw [hp, hp']
    exact hearly

theorem Flushes.stays (h : s.Flushes) : s.tp.Stays s.tp := ⟨rfl, h.fidPool⟩

/-- A `Tflush` is written down, and it waits if it is late. -/
theorem Answers.flush (h : s.Answers) {x : Qflush} (hn : s'.nflush = s.nflush + 1)
    (hf : s'.flush = (s.addFlush x).flush) (hs : ∀ m ∈ s.sent, m ∈ s'.sent)
    (hr : ∀ i k, (s.req i).flushreq = some k → ∃ k', k ≤ k' ∧ (s'.req i).flushreq = some k')
    (hx : .rflush s.nflush ∈ s'.sent ∨
      ∃ i, x.found = some (i, false) ∧ (s'.req i).flushreq = some s.nflush) : s'.Answers := by
  have hold : ∀ j, j < s.nflush → s'.flush j = s.flush j := fun j hj => by
    simp [hf, Qsrv.addFlush, Nat.ne_of_lt hj]
  intro j hj
  rw [hn] at hj
  rcases Nat.lt_or_eq_of_le (Nat.le_of_lt_succ hj) with hj | rfl
  · exact h.at hj (hn ▸ Nat.le_succ _) hold hs hr
  · refine hx.imp id fun ⟨i, hi, hr⟩ => ⟨i, ?_, .inl ⟨s.nflush, le_rfl, hr⟩⟩
    simpa [hf, Qsrv.addFlush] using hi

/-- A `Tflush` is received. -/
theorem tidy_flush (h : s.Tidy) (conn : ℕ) (oldtag : UInt16) :
    ((s.addFlush ⟨conn, oldtag, s.meant conn oldtag, s.findReq conn oldtag⟩).npFlush s.nflush
      (s.findReq conn oldtag)).Tidy := by
  have hmeant : ∀ i, s.meant conn oldtag = some i → i < s.nreq := fun i hi =>
    ((find?_reverse_range _ i s.nreq).mp hi).1
  have hu : .rflush s.nflush ∉ s.sent := h.1.unsent s.nflush le_rfl
  have hw : ∀ k, (s.req k).flushreq ≠ some s.nflush := fun k hk =>
    Nat.lt_irrefl _ (h.1.waits k _ hk).1
  match hr : s.findReq conn oldtag with
  | none =>
    have hx := h.1.addFlush ⟨conn, oldtag, s.meant conn oldtag, none⟩ hmeant
      (fun _ _ hf => by cases hf) (fun _ hf => by cases hf)
    refine ⟨hx.answer (Nat.lt_succ_self _) hu hw fun i hi => ?_, h.2.flush rfl rfl
      (fun m hm => List.mem_append_left _ hm) (fun i k hk => ⟨k, le_rfl, hk⟩)
      (.inl (by simp [npFlush]))⟩
    simp only [Qsrv.addFlush, if_true] at hi
    obtain ⟨hlt, hfor, -⟩ := (find?_reverse_range _ i s.nreq).mp hi
    exact Place.early_of_gone (gone_of_findReq hr hlt hfor (h.1.listed i))
  | some (i, true) =>
    obtain ⟨hi, -, -, tp, -, hp⟩ := findReq_eq_some hr
    rw [if_pos rfl] at hp
    have hq : .reply i ∉ s.sent := h.1.quiet i (by rw [hp]; rfl)
    obtain ⟨h₁, h₂⟩ := tidy_move (i := i) h (Tpools.stays_decrefOpt h.1.fidPool (s.req i).fid)
      (g := fun r => { r with place := .freed, fid := none }) (by simp [hp])
      (fun _ hat => by cases hat) (fun _ => rfl) (fun hb => by rw [hp] at hb; cases hb)
      (fun he => by cases he)
    have hm := h.1.found_meant hr
    have hx := h₁.addFlush ⟨conn, oldtag, s.meant conn oldtag, some (i, true)⟩ hmeant
      (fun k b hf => by cases hf; exact hm) (fun k hf => by cases hf; exact ⟨by simp, hq⟩)
    refine ⟨hx.answer (Nat.lt_succ_self _) hu (fun k => ?_) fun k hk => ?_, h₂.flush rfl rfl
      (fun m hm => List.mem_append_left _ hm) (fun i k hk => ⟨k, le_rfl, hk⟩)
      (.inl (List.mem_append_right _ (List.mem_singleton_self _)))⟩
    · simp only [Qsrv.addFlush, setReq_req, setTp_req]
      split <;> exact hw k
    · simp only [Qsrv.addFlush, setTp, setReq, if_true, hm, Option.some.injEq] at hk
      subst hk
      simp [Qsrv.addFlush, Place.early]
  | some (i, false) =>
    obtain ⟨hi, -, -, tp, -, hp⟩ := findReq_eq_some hr
    rw [if_neg (by simp)] at hp
    have hb := Place.begun_of_worksAt hp
    have hx := h.1.addFlush ⟨conn, oldtag, s.meant conn oldtag, some (i, false)⟩ hmeant
      (fun k b hf => by cases hf; exact h.1.found_meant hr) (fun k hf => by cases hf)
    refine ⟨hx.move hx.stays hi (g := fun r => { r with flushreq := some s.nflush })
      (fun hf => ?_) (fun _ hat => hat) id id (fun j hj => ?_), h.2.flush rfl rfl
      (fun m hm => hm) (fun k j hk => ?_) (.inr ⟨i, rfl, by simp [npFlush]⟩)⟩
    · have hf : (s.req i).place = .freed := hf
      rw [hf] at hb
      cases hb
    · cases hj
      exact ⟨Nat.lt_succ_self _, by simp [Qsrv.addFlush], hu, hb⟩
    · rw [npFlush, setReq_req]
      split
      · exact ⟨s.nflush, ((h.1.waits k j hk).1).le, rfl⟩
      · exact ⟨j, le_rfl, hk⟩

/-- A request is done, and the `Tflush` that waits for it is answered. -/
theorem tidy_finish (h : s.Tidy) (hp : (s.req i).place = .left)
    (hj : (s.req i).flushreq = some j) :
    ((s.setReq i fun r => { r with place := .freed, flushreq := none }).send
      (.rflush j)).Tidy := by
  obtain ⟨hlt, hf, hu, -⟩ := h.1.waits i j hj
  have hi : i < s.nreq := Nat.lt_of_not_le fun hi => by rw [h.1.unborn i hi] at hp; cases hp
  have hx := h.1.move h.1.stays hi (g := fun r => { r with place := .freed, flushreq := none })
    (by simp [hp]) (fun _ hat => by cases hat) (fun _ => rfl) (fun he => by cases he)
    (fun j hj => by cases hj)
  refine ⟨hx.answer hlt hu (fun k hk => ?_) fun k hk => ?_, fun m hm => ?_⟩
  · rw [setReq_req] at hk
    split at hk
    · cases hk
    · -- a `Tflush` waits for one request
      rename_i hne
      have hk' := (h.1.waits k j hk).2.1
      rw [show ((s.setTp s.tp).req k) = s.req k from rfl] at hk
      rw [hf] at hk'
      cases hk'
      exact hne rfl
  · have hm : (s.flush j).meant = some i := h.1.found j hlt i false hf
    have hk : (s.flush j).meant = some k := hk
    rw [hm] at hk
    cases hk
    simp [Place.early]
  · rcases h.2 m hm with h' | ⟨k, hk, ⟨n, hn, h'⟩ | ⟨n, hn, hnn, hnk, h'⟩⟩
    · exact .inl (List.mem_append_left _ h')
    · rcases eq_or_ne k i with rfl | hne
      · rw [hj] at h'
        cases h'
        rcases Nat.lt_or_eq_of_le hn with hlt' | rfl
        · exact .inr ⟨k, hk, .inr ⟨j, hlt', hlt, hf, by simp⟩⟩
        · exact .inl (by simp)
      · exact .inr ⟨k, hk, .inl ⟨n, hn, by simp [hne, h']⟩⟩
    · exact .inr ⟨k, hk, .inr ⟨n, hn, hnn, hnk, List.mem_append_left _ h'⟩⟩

theorem tidy_addReq (h : s.Tidy) (ht : s.tp.Stays t) {tag : UInt16}
    (hfree : ∀ i < s.nreq, s.isFor conn tag i = true → (s.req i).place.gone = true)
    (kind : Qkind) (fid : Option ℕ) :
    ((s.setTp t).addReq conn tag kind fid).Tidy := by
  refine ⟨h.1.addReq ht conn tag kind fid hfree,
    h.2.mono rfl rfl (fun _ hm => hm) fun i k hk => ?_⟩
  have hi : i ≠ s.nreq := by
    rintro rfl
    have hb := (h.1.waits _ k hk).2.2.2
    rw [h.1.unborn _ le_rfl] at hb
    cases hb
  simp [Qsrv.addReq, setTp, hi, hk]

/-- An operation that was interrupted stays where it is. -/
theorem tidy_interrupted (h : s.Tidy) (bynum : Option ℕ)
    (hp : (s.req i).place = .working tp st) :
    (s.interrupted i bynum).Tidy ∧ ((s.interrupted i bynum).req i).place = .working tp st := by
  unfold interrupted
  split
  · refine ⟨tidy_work h ?_ hp hp id, by simpa using hp⟩
    split
    · exact Tpools.stays_setFid h.1.fidPool _ fun _ => rfl
    · exact h.1.stays
  · exact ⟨tidy_work h (Tpools.stays_decrefOpt h.1.fidPool bynum) hp hp id, by simpa using hp⟩
  · exact ⟨tidy_work h h.1.stays hp hp id, by simpa using hp⟩

theorem step_tidy {a : Qstep} (h : s.Tidy)
    (hc : fixedPools s a = true ∧ tagFree s a = true) (hs : s.step a = some s') :
    s'.Tidy := by
  have hlive : ∀ {i}, (s.req i).place ≠ .freed → i < s.nreq := fun {i} hp =>
    Nat.lt_of_not_le fun hi => hp (h.1.unborn i hi)
  have hfree : ∀ {conn tag kind src}, tagFree s (.receive conn tag kind src) = true →
      ∀ i < s.nreq, s.isFor conn tag i = true → (s.req i).place.gone = true := by
    intro conn tag kind src hc i hi hfor
    have hi' := List.all_eq_true.mp hc i (List.mem_range.mpr hi)
    simpa [hfor] using hi'
  cases steps_of_step hs with
  | @receive conn tag kind _ => exact tidy_addReq h h.1.stays (hfree hc.2) kind none
  | @receiveFound conn tag kind f _ _ _ _ =>
    have hst : s.tp.Stays (s.tp.fidIncref f) := Tpools.stays_setFid h.1.fidPool _ fun _ => rfl
    exact tidy_addReq h hst (hfree hc.2) kind _
  | @receiveMade conn tag kind tp _ =>
    have htp : ∀ p, tp = some p → p ∈ s.tp.list := by
      rintro p rfl
      simpa [fixedPools] using hc.1
    have hsel : s.tp.select tp = s.tp := by
      rcases tp with _ | p
      · rfl
      · exact if_pos (htp p rfl)
    rw [hsel]
    exact tidy_addReq h (Tpools.stays_makeFid h.1.fidPool conn false htp) (hfree hc.2) kind _
  | @flush conn oldtag _ => exact tidy_flush h conn oldtag
  | @pick tp i _ hi =>
    obtain ⟨-, hp⟩ := mem_reqs.mp hi
    refine tidy_move h h.1.stays (by simp [hp]) (fun tp' hat => ?_) (fun hg => ?_) (fun _ => rfl)
      fun _ => ?_
    · rw [hp]
      exact hat
    · rw [hp] at hg
      cases hg
    · rw [hp]
      rfl
  | @process i ecode tp eff hp _ =>
    refine tidy_work h ?_ hp rfl fun _ => rfl
    split
    · exact Tpools.stays_refEffect h.1.fidPool _ eff
    · exact h.1.stays
  | @release i ecode tp bynum hp =>
    obtain ⟨hi, hp'⟩ : (if ecode = EINTR then s.interrupted i bynum else s).Tidy ∧
        ((if ecode = EINTR then s.interrupted i bynum else s).req i).place =
          .working tp (.processed ecode) := by
      split
      · exact tidy_interrupted h bynum hp
      · exact ⟨h, hp⟩
    exact tidy_work hi (Tpools.stays_decrefOpt hi.1.fidPool _) hp' rfl fun _ => rfl
  | @silence i ecode tp hp _ => exact tidy_work h h.1.stays hp rfl fun he => by cases he
  | @respond i ecode tp hp _ =>
    have hx := tidy_work h h.1.stays hp
      (g := fun r => { r with place := .working tp .replied }) rfl
      (fun he => by cases he)
    refine ⟨hx.1.reply (by simp [Place.early]) (fun j hj hm hs => ?_) (by simp), ?_⟩
    · have he := h.1.silent j hj i hm hs
      rw [hp] at he
      cases he
    · exact hx.2.mono rfl rfl (fun m hm => List.mem_append_left _ hm) fun i k hk => hk
  | @leave i tp hp =>
    exact tidy_move h h.1.stays (by simp [hp]) (fun _ hat => by cases hat) (fun _ => rfl)
      (fun _ => rfl) fun he => by cases he
  | @finish i hp hj =>
    refine ⟨h.1.move h.1.stays (hlive (by simp [hp])) (by simp [hp]) (fun _ hat => by cases hat)
      (fun _ => rfl) (fun he => by cases he) (fun j hj => by cases hj), h.2.mono rfl rfl
      (fun _ hm => hm) fun k n hk => ?_⟩
    have hne : k ≠ i := by
      rintro rfl
      rw [hj] at hk
      cases hk
    simp [hne, hk]
  | @finishFlush i j hp hj => exact tidy_finish h hp hj
  | hangup _ => cases hc.1
  | close _ _ => cases hc.1

/-- The server before anything is received, with some pools besides the default one. -/
def startWith (pools : List ℕ) : Qsrv := { tp := { list := 0 :: pools } }

theorem startWith_tidy (pools : List ℕ) : (startWith pools).Tidy := by
  refine ⟨⟨?_, ?_, ?_, ?_, ?_, ?_, ?_, ?_, ?_, ?_, ?_, ?_, ?_, ?_, ?_⟩, ?_⟩
  all_goals simp [startWith, Answers, Place.isAt, Place.early]

/-- **What a client may rely on about flushes.** -/
structure FlushesKept (s : Qsrv) : Prop where
  /-- A request that was flushed when it still waited is neither processed nor replied to. -/
  waiting : ∀ j < s.nflush, ∀ i, (s.flush j).found = some (i, true) →
    (∀ ecode eff, s.step (.process i ecode eff) = none) ∧ .reply i ∉ s.sent
  once : ∀ j, s.sent.count (.rflush j) ≤ 1
  /-- A `Tflush` is answered, or the request is not done yet, or a later one is answered. -/
  superseded : ∀ j < s.nflush, .rflush j ∈ s.sent ∨ ∃ i, (s.flush j).found = some (i, false) ∧
    ((s.req i).place ≠ .freed ∨
      ∃ k, j < k ∧ k < s.nflush ∧ (s.flush k).found = some (i, false) ∧ .rflush k ∈ s.sent)
  /-- After the answer there is no reply to the request that the client meant. -/
  silent : ∀ j < s.nflush, ∀ i pre post, (s.flush j).meant = some i →
    s.sent = pre ++ .rflush j :: post → .reply i ∉ post

/-- **Flushes**: with a fixed set of pools, and as long as a tag is used again only when
the request that had it is off the work list, flushes are answered as the protocol wants
it, in whatever order the threads take their steps. -/
theorem flushes_kept {pools : List ℕ}
    (h : Reaches step (fun s a => fixedPools s a = true ∧ tagFree s a = true) (startWith pools) s) :
    s.FlushesKept := by
  obtain ⟨hf, ha⟩ : s.Tidy :=
    h.invariant (startWith_tidy pools) fun t u a ht hc hs => step_tidy ht hc hs
  refine ⟨fun j hj i hi => ⟨fun ecode eff => ?_, (hf.early j hj i hi).2⟩, hf.once, fun j hj => ?_,
    hf.order⟩
  · simp [step, (hf.early j hj i hi).1]
  · refine (ha j hj).imp id ?_
    rintro ⟨i, hi, h⟩
    refine ⟨i, hi, h.imp ?_ id⟩
    -- a request that a flush still waits for is with its worker
    rintro ⟨k, -, hk⟩ hp
    have hb := (hf.waits i k hk).2.2.2
    rw [hp] at hb
    cases hb

/-- Of two flushes of a request that is worked on, the second one is answered. -/
theorem flushes_kept_twice : ∃ s : Qsrv, s.FlushesKept ∧ s.sent = [.reply 0, .rflush 1] := by
  have h : Reaches step (fun s a => fixedPools s a = true ∧ tagFree s a = true) (startWith []) _ :=
    reaches_of_runSteps (c := fun s a => fixedPools s a && tagFree s a)
      (fun s a hc => by simpa using hc)
      (l := [.receive 0 7 .other .none, .pick 0, .flush 0 7, .flush 0 7, .process 0 0 .nothing,
        .release 0 none, .respond 0, .leave 0, .finish 0]) rfl rfl
  exact ⟨_, flushes_kept h, rfl⟩

/-- A tag is used again only when the request that had it has been answered. -/
def tagAnswered (s : Qsrv) : Qstep → Bool
  | .receive conn tag _ _ => (List.range s.nreq).all fun i => !s.isFor conn tag i ||
      s.sent.contains (.reply i) || (List.range s.nflush).any fun j =>
        (s.flush j).meant == some i && s.sent.contains (.rflush j)
  | _ => true

/-- A client attaches to an export that has a pool of its own, and sends a request with
an invalid fid, which goes to the default pool. It has the reply, but the request is
still on the work list, when it sends another one with the same tag, to the fid of the
other pool, and flushes it. -/
def tagReused : List Qstep :=
  [.receive 0 1 .other (.made (some 1)), .pick 1, .process 0 0 .keep, .release 0 none, .respond 0,
    .leave 0, .finish 0,
    .receive 0 2 .other .none, .pick 0, .process 1 EIO .nothing, .release 1 none, .respond 1,
    .receive 0 2 .other (.found 0), .flush 0 2, .leave 1, .finish 1,
    .pick 1, .process 2 0 .nothing, .release 2 none, .respond 2]

/-- **A tag that is used again too soon**: the `Tflush` finds the old request, and the new
one is replied to after the `Rflush`. -/
theorem tag_reused_flush : ∃ s, runSteps step (startWith [1]) tagReused = some s ∧
    runMeets step (fun s a => fixedPools s a && tagAnswered s a) (startWith [1]) tagReused = true ∧
    s.sent = [.reply 0, .reply 1, .rflush 0, .reply 2] ∧ (s.flush 0).meant = some 2 ∧
    ¬ s.FlushesKept := by
  refine ⟨_, rfl, rfl, rfl, rfl, fun h => ?_⟩
  exact h.silent 0 (by decide) 2 [.reply 0, .reply 1] [.reply 2] rfl rfl (by decide)

end Qsrv

end Diod
