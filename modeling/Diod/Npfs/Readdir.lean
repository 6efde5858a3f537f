import Diod.Npfs.Dirent
import Diod.Npfs.Replies

/-!
# The end of a directory

A client takes an `Rreaddir` without data for the end of the directory. The two backends
fill a reply in a loop that ends when there is no entry left, and also when the next entry
does not fit into what is left of the `count` bytes the client asked for. **If that happens
at the first entry, the reply is empty and the directory has not ended**: the entry and
everything behind it is lost to the client (`Diod.readdir_empty_not_end`).

So an empty reply means the end exactly if the next entry fits into `count`, up to the
errors that the file system reports (`Diod.readdir_end_iff`). A count of `2³¹` or more is
passed on as a negative number, and nothing fits into it.
-/

namespace Diod

open Prog Op

/-- An entry with this name fits into `buflen` bytes, which are counted by an `int`. -/
def EntryFits (name : Bytes) (buflen : ℕ) : Prop :=
  ((QIDSIZE + 8 + 1 + 2 + name.length : ℕ) : ℤ) ≤ asInt buflen

instance (name : Bytes) (buflen : ℕ) : Decidable (EntryFits name buflen) :=
  inferInstanceAs (Decidable (_ ≤ _))

/-- **An answer that is right about the end of a directory**, given the name of the next
entry if there is one: without data only if there is none, and an error if it does not fit
into `count`. -/
structure EndAnswer (next : Option Bytes) (count : UInt32) (r : Res Msg) : Prop where
  empty : ∀ n, r = .ok (.rreaddir n []) → next = none
  short : ∀ name ∈ next, ¬EntryFits name count.toNat → r = .stop

theorem endAnswer_stop {next : Option Bytes} {count : UInt32} : EndAnswer next count .stop where
  empty _ h := by cases h
  short _ _ _ := rfl

/-- **A reply that has data unless the next entry does not fit** is right exactly if it
does. -/
theorem endAnswer_reply {next : Option Bytes} {count n : UInt32} {data : Bytes}
    (hd : data = [] ↔ ∀ name ∈ next, ¬EntryFits name count.toNat) :
    EndAnswer next count (.ok (.rreaddir n data)) ↔
      ∀ name ∈ next, EntryFits name count.toNat := by
  constructor
  · intro h name hn
    by_contra hf
    cases h.short name hn hf
  · intro h
    refine ⟨fun m hr => ?_, fun name hn hf => absurd (h name hn) hf⟩
    cases hr
    refine Option.eq_none_iff_forall_not_mem.mpr fun name hn => ?_
    exact hd.mp rfl name hn (h name hn)

theorem length_npSerializeP9dirent {qid : Npqid} {offset : UInt64} {type : UInt8} {name : Bytes} :
    (Npqid.codec.enc qid ++ leBytes 8 offset.toNat ++ leBytes 1 type.toNat ++
      leBytes 2 name.length ++ name).length = QIDSIZE + 8 + 1 + 2 + name.length := by
  simp [Npqid.codec, QIDSIZE]
  omega

/-- **Nothing is written exactly if the entry does not fit.** -/
theorem npSerializeP9dirent_eq_nil {qid : Npqid} {offset : UInt64} {type : UInt8} {name : Bytes}
    {buflen : ℕ} :
    npSerializeP9dirent qid offset type name buflen = [] ↔ ¬EntryFits name buflen := by
  have hlen := @length_npSerializeP9dirent qid offset type name
  rw [npSerializeP9dirent, EntryFits, ← hlen]
  split
  · rename_i h
    refine iff_of_false (fun h0 => ?_) (not_not.mpr h)
    rw [h0] at hlen
    simp [QIDSIZE] at hlen
    omega
  · rename_i h
    exact iff_of_true rfl h

/-! ### The server's own files -/

variable {σ : Type} {H : Host σ} {K : Ctlroot} {offset : UInt64} {count : UInt32}

/-- What has been written stays. -/
theorem prefix_ctlReaddirLoop (offset count off : ℕ) (ffs : List Npfile) (bs : Bytes) :
    bs <+: ctlReaddirLoop offset count off ffs bs := by
  induction ffs generalizing off bs with
  | nil => exact List.prefix_rfl
  | cons ff ffs ih =>
    simp only [ctlReaddirLoop]
    split
    · exact ih _ _
    · split
      · exact List.prefix_rfl
      · exact (List.prefix_append _ _).trans (ih _ _)

/-- The loop writes nothing exactly if the first file from `offset` on does not fit. -/
theorem ctlReaddirLoop_eq_nil (offset off : ℕ) (ffs : List Npfile) :
    ctlReaddirLoop offset count.toNat off ffs [] = [] ↔
      ∀ ff ∈ (ffs.drop (offset - off)).head?, ¬EntryFits ff.name count.toNat := by
  induction ffs generalizing off with
  | nil => simp [ctlReaddirLoop]
  | cons ff ffs ih =>
    simp only [ctlReaddirLoop]
    split
    · rename_i hlt
      obtain ⟨k, hk⟩ : ∃ k, offset - off = k + 1 := ⟨offset - off - 1, by omega⟩
      rw [ih, hk, List.drop_succ_cons, show offset - (off + 1) = k by omega]
    · rename_i hge
      rw [show offset - off = 0 by omega, List.drop_zero, List.head?_cons]
      simp only [List.length_nil, Nat.sub_zero, List.nil_append, Option.mem_some_iff, forall_eq']
      rw [← @npSerializeP9dirent_eq_nil (ctlQid (some ff)) (.ofNat (off + 1)) DT_REG]
      split
      · rename_i he
        exact iff_of_true rfl he
      · rename_i he
        refine iff_of_false (fun h => he ?_) he
        have hpre := prefix_ctlReaddirLoop offset count.toNat (off + 1) ffs (npSerializeP9dirent
          (ctlQid (some ff)) (.ofNat (off + 1)) DT_REG ff.name count.toNat)
        rw [h] at hpre
        exact List.prefix_nil.mp hpre

/-- The name of the first file at or behind an offset. -/
def ctlNext (K : Ctlroot) (f : CtlFid) (offset : UInt64) : Option Bytes :=
  ((ctlChild K f).drop offset.toNat).head?.map (·.name)

/-- **The answer of `np_ctl_readdir` is right about the end exactly if the next file fits**,
or there is no memory for it. -/
theorem ctl_end_iff (o : Ost σ CtlFid) :
    EndAnswer (ctlNext K o.f offset) count (npCtlReaddir H K offset count o).1 ↔
      (H.malloc o.host).1 = none ∨
        ∀ name ∈ ctlNext K o.f offset, EntryFits name count.toNat := by
  rcases allocOr_cases H ENOMEM o with ⟨hm, ha⟩ | ⟨hm, ha⟩
  · obtain ⟨bs, hbs⟩ : ∃ bs, bs = ctlReaddirLoop offset.toNat count.toNat 0 (ctlChild K o.f) [] :=
      ⟨_, rfl⟩
    have hr : npCtlReaddir H K offset count o = (.ok (.rreaddir (.ofNat bs.length) bs),
        { o with host := (H.malloc o.host).2 }) := by
      rw [npCtlReaddir, fid_bind, bind_of_ok ha, hbs]
      rfl
    rw [hr, or_iff_right hm]
    refine endAnswer_reply ?_
    rw [hbs, ctlReaddirLoop_eq_nil, Nat.sub_zero, ctlNext]
    simp
  · have hr : npCtlReaddir H K offset count o = (.stop,
        { o with host := (H.malloc o.host).2, ecode := ENOMEM }) := by
      rw [npCtlReaddir, fid_bind, bind_of_stop ha]
    rw [hr]
    exact iff_of_true endAnswer_stop (.inl hm)

/-! ### Exported directories -/

/-- The entries that are listed: at a mount point only the directory and its parent. -/
def Listed (f : DiodFid) (d : Dirent) : Prop :=
  ¬(f.mountpt ∧ d.name ≠ [46] ∧ d.name ≠ [46, 46])

instance (f : DiodFid) : DecidablePred (Listed f) := fun _ => instDecidableNot

variable {o o' : Ost σ DiodFid} {d : Dirent} {ds : List Dirent} {err : ℕ}

/-- The kinds of file that an entry does not say are looked up, and that can fail. -/
def LstatFails (H : Host σ) (o : Ost σ DiodFid) (d : Dirent) : Prop :=
  d.type = DT_UNKNOWN ∧ (H.call (.lstat (o.f.path.s ++ 47 :: d.name)) o.host).1.err ≠ 0

/-- What `_copy_dirent_linux` writes, and the error it leaves. -/
theorem copyDirentLinux_cases (o : Ost σ DiodFid) (d : Dirent) (buflen : ℕ) :
    ∃ e o', copyDirentLinux H d buflen o = (.ok e, o') ∧
      (LstatFails H o d ∧ e = [] ∧ o'.ecode ≠ 0 ∨
        ¬LstatFails H o d ∧ (e = [] ↔ ¬EntryFits d.name buflen) ∧ o'.ecode = o.ecode) := by
  by_cases ht : d.type = DT_UNKNOWN
  · obtain ⟨r, s, hr⟩ : ∃ r s, H.call (.lstat (o.f.path.s ++ 47 :: d.name)) o.host = (r, s) :=
      ⟨_, _, rfl⟩
    have hsys : syscall H (.lstat (o.f.path.s ++ 47 :: d.name)) o = (.ok r, { o with
        host := s, log := o.log ++ [(.lstat (o.f.path.s ++ 47 :: d.name), r.err)] }) := by
      rw [syscall, hr]
    rw [copyDirentLinux, fid_bind, if_pos ht, bind_of_ok hsys]
    by_cases he : r.err ≠ 0
    · rw [if_pos he]
      exact ⟨_, _, rfl, .inl ⟨⟨ht, by rw [hr]; exact he⟩, rfl, he⟩⟩
    · rw [if_neg he]
      refine ⟨_, _, rfl, .inr ⟨fun h => he ?_, npSerializeP9dirent_eq_nil, rfl⟩⟩
      have := h.2
      rwa [hr] at this
  · rw [copyDirentLinux, fid_bind, if_neg ht]
    exact ⟨_, _, rfl, .inr ⟨fun h => ht h.1, npSerializeP9dirent_eq_nil, rfl⟩⟩

/-- The end of the entries: the error of `readdir`, if there is one, is left. -/
theorem readDirLoop_nil (count err : ℕ) (bs : Bytes) (o : Ost σ DiodFid) :
    readDirLoop H count err [] bs o =
      (.ok bs, if err ≠ 0 then { o with ecode := err } else o) := by
  by_cases he : err ≠ 0
  · have hw : Prog.when (err ≠ 0) (Op.npUerror err) o = (.ok (), { o with ecode := err }) := by
      rw [Prog.when, if_pos he]
      rfl
    rw [readDirLoop, bind_of_ok hw, if_pos he]
    rfl
  · have hw : Prog.when (err ≠ 0) (Op.npUerror err) o = (.ok (), o) := by
      rw [Prog.when, if_neg he]
      rfl
    rw [readDirLoop, bind_of_ok hw, if_neg he]
    rfl

/-- An entry that is not listed is passed over. -/
theorem readDirLoop_of_not_listed {count : ℕ} {bs : Bytes} (h : ¬Listed o.f d) :
    readDirLoop H count err (d :: ds) bs o =
      if bs.length < count then readDirLoop H count err ds bs o else (.ok bs, o) := by
  rw [readDirLoop, fid_bind, if_pos (not_not.mp h)]
  split <;> rfl

/-- An entry that is listed is copied, and if that writes nothing the loop ends. -/
theorem readDirLoop_of_listed {count : ℕ} {bs e : Bytes} (h : Listed o.f d)
    (hc : copyDirentLinux H d (count - bs.length) o = (.ok e, o')) :
    readDirLoop H count err (d :: ds) bs o =
      if e = [] then (.ok bs, o')
      else if (bs ++ e).length < count then readDirLoop H count err ds (bs ++ e) o'
      else (.ok (bs ++ e), o') := by
  rw [readDirLoop, fid_bind, if_neg h, bind_of_ok hc]
  split
  · rfl
  · split <;> rfl

/-- What has been written stays, and the loop does not stop. -/
theorem prefix_readDirLoop (count err : ℕ) (ds : List Dirent) (bs : Bytes) (o : Ost σ DiodFid) :
    ∃ bs' o', readDirLoop H count err ds bs o = (.ok bs', o') ∧ bs <+: bs' := by
  induction ds generalizing bs o with
  | nil => exact ⟨bs, _, readDirLoop_nil count err bs o, List.prefix_rfl⟩
  | cons d ds ih =>
    by_cases h : Listed o.f d
    · obtain ⟨e, o', hc, -⟩ := copyDirentLinux_cases (H := H) o d (count - bs.length)
      rw [readDirLoop_of_listed h hc]
      split
      · exact ⟨bs, o', rfl, List.prefix_rfl⟩
      · split
        · obtain ⟨bs', o₁, hl, hpre⟩ := ih (bs ++ e) o'
          exact ⟨bs', o₁, hl, (List.prefix_append _ _).trans hpre⟩
        · exact ⟨_, o', rfl, List.prefix_append _ _⟩
    · rw [readDirLoop_of_not_listed h]
      split
      · exact ih bs o
      · exact ⟨bs, o, rfl, List.prefix_rfl⟩

/-- The next entry is looked at: with a `count` of 0 the loop ends behind the first entry,
also if that one is not listed. -/
def Reached (count : UInt32) (ds : List Dirent) (d : Dirent) : Prop :=
  count ≠ 0 ∨ ds.head? = some d

/-- Without a next entry, the reply is empty, or there is an error. -/
theorem readDirLoop_none (count : ℕ) (h : ∀ d ∈ ds, ¬Listed o.f d) :
    ∃ o', readDirLoop H count err ds [] o = (.ok [], o') := by
  induction ds with
  | nil => exact ⟨_, readDirLoop_nil count err [] o⟩
  | cons d ds ih =>
    obtain ⟨hd, hds⟩ := List.forall_mem_cons.mp h
    rw [readDirLoop_of_not_listed hd]
    split
    · exact ih hds
    · exact ⟨o, rfl⟩

/-- **What the loop does with the next entry.** If it is looked at and its kind cannot be
found out, there is an error, and otherwise something is written exactly if it fits. -/
theorem readDirLoop_next (hn : ds.find? (fun d => Listed o.f d) = some d) :
    ∃ bs o', readDirLoop H count.toNat err ds [] o = (.ok bs, o') ∧
      (Reached count ds d ∧ LstatFails H o d ∧ o'.ecode ≠ 0 ∨
        ¬(Reached count ds d ∧ LstatFails H o d) ∧ (bs = [] ↔ ¬EntryFits d.name count.toNat) ∧
          (bs = [] → o'.ecode = o.ecode)) := by
  induction ds with
  | nil => cases hn
  | cons d' ds ih =>
    by_cases hl : Listed o.f d'
    · -- the first entry is the next one
      rw [List.find?_cons_of_pos (by simpa using hl)] at hn
      cases hn
      have hreach : Reached count (d :: ds) d := .inr rfl
      obtain ⟨e, o', hc, h⟩ := copyDirentLinux_cases (H := H) o d
        (count.toNat - ([] : Bytes).length)
      rw [readDirLoop_of_listed hl hc, List.nil_append]
      rw [List.length_nil, Nat.sub_zero] at h
      rcases h with ⟨hf, rfl, hec⟩ | ⟨hf, he, hec⟩
      · exact ⟨[], o', by rw [if_pos rfl], .inl ⟨hreach, hf, hec⟩⟩
      · by_cases he0 : e = []
        · refine ⟨[], o', by rw [if_pos he0], .inr ⟨fun h => hf h.2, ?_, fun _ => hec⟩⟩
          exact iff_of_true rfl (he.mp he0)
        · -- something was written, and it stays
          obtain ⟨bs, o₁, hbs, hpre⟩ : ∃ bs o₁, (if e.length < count.toNat then
              readDirLoop H count.toNat err ds e o' else (.ok e, o')) = (.ok bs, o₁) ∧
              e <+: bs := by
            split
            · exact prefix_readDirLoop _ _ _ _ _
            · exact ⟨e, o', rfl, List.prefix_rfl⟩
          have hbs0 : bs ≠ [] := by
            rintro rfl
            exact he0 (List.prefix_nil.mp hpre)
          refine ⟨bs, o₁, by rw [if_neg he0, hbs], .inr ⟨fun h => hf h.2, ?_, ?_⟩⟩
          · exact iff_of_false hbs0 fun h => he0 (he.mpr h)
          · exact fun h => absurd h hbs0
    · rw [List.find?_cons_of_neg (by simpa using hl)] at hn
      rw [readDirLoop_of_not_listed hl]
      by_cases hc : count = 0
      · -- the loop ends behind the entry that is not listed
        have hd : Listed o.f d := by simpa using List.find?_some hn
        have hreach : ¬Reached count (d' :: ds) d := by
          rintro (h | h)
          · exact h hc
          · cases h
            exact hl hd
        refine ⟨[], o, by rw [if_neg (by simp [hc])], .inr ⟨fun h => hreach h.1, ?_, fun _ => rfl⟩⟩
        refine iff_of_true rfl ?_
        have h0 : asInt count.toNat = 0 := by rw [hc]; rfl
        rw [EntryFits, h0]
        simp only [QIDSIZE]
        omega
      · have hpos : ([] : Bytes).length < count.toNat := by
          refine Nat.pos_of_ne_zero fun h => hc ?_
          exact UInt32.toNat_inj.mp h
        have hreach : ∀ ds', Reached count ds' d ↔ True := fun _ => iff_true_intro (.inl hc)
        simp only [hreach] at ih ⊢
        rw [if_pos hpos]
        exact ih hn

/-- What a directory has at or behind an offset when a request for it has got its memory: the
reply of the file system, and its state. -/
def dirAt (H : Host σ) (o : Ost σ DiodFid) (x : IOCtx) (offset : UInt64) : HostReply × σ :=
  H.call (.readdir x.fd offset) (H.malloc o.host).2

/-- The next entry that is listed. -/
def diodNext (H : Host σ) (o : Ost σ DiodFid) (x : IOCtx) (offset : UInt64) : Option Dirent :=
  (dirAt H o x offset).1.ents.find? fun d => Listed o.f d

/-- The operation when the entries are read. -/
def dirOst (H : Host σ) (o : Ost σ DiodFid) (x : IOCtx) (offset : UInt64) : Ost σ DiodFid :=
  { o with
    host := (dirAt H o x offset).2
    log := o.log ++ [(.readdir x.fd offset, (dirAt H o x offset).1.err)] }

/-- **`diod_readdir` of an open directory**, given what its loop does. -/
theorem diodReaddir_eq {x : IOCtx} {i : ℕ} (hi : o.f.ioctx = some i)
    (hx : o.ioctxs.get i = some x) (hdir : x.dir = true) (hm : (H.malloc o.host).1 ≠ none)
    {bs : Bytes} (h : readDirLoop H count.toNat (dirAt H o x offset).1.err
      (dirAt H o x offset).1.ents [] (dirOst H o x offset) = (.ok bs, o')) :
    (diodReaddir H offset count o).1 =
      if o'.ecode ≠ 0 then .stop else .ok (.rreaddir (.ofNat bs.length) bs) := by
  obtain ⟨-, ha⟩ | ⟨hnone, -⟩ := allocOr_cases H ENOMEM o
  · have hsys : syscall H (.readdir x.fd offset) { o with host := (H.malloc o.host).2 } =
        (.ok (dirAt H o x offset).1, dirOst H o x offset) := rfl
    have hread : readDirLinux H x offset count { o with host := (H.malloc o.host).2 } =
        (.ok bs, o') := by
      rw [readDirLinux, if_pos hdir, bind_of_ok hsys]
      exact h
    rw [diodReaddir, bind_of_ok (openOr_of_get hi hx), bind_of_ok ha, bind_of_ok hread, read_bind]
    by_cases he : o'.ecode ≠ 0
    · have hw : Prog.when (o'.ecode ≠ 0) .stop o' = (.stop, o') := by
        rw [Prog.when, if_pos he]
        rfl
      rw [bind_of_stop hw, if_pos he]
    · have hw : Prog.when (o'.ecode ≠ 0) .stop o' = (.ok (), o') := by
        rw [Prog.when, if_neg he]
        rfl
      rw [bind_of_ok hw, if_neg he]
      rfl
  · exact absurd hnone hm

/-- Without memory for the reply, there is an error. -/
theorem diodReaddir_nomem {x : IOCtx} {i : ℕ} (hi : o.f.ioctx = some i)
    (hx : o.ioctxs.get i = some x) (hm : (H.malloc o.host).1 = none) :
    (diodReaddir H offset count o).1 = .stop := by
  obtain ⟨h, -⟩ | ⟨-, ha⟩ := allocOr_cases H ENOMEM o
  · exact absurd hm h
  · rw [diodReaddir, bind_of_ok (openOr_of_get hi hx), bind_of_stop ha]

/-- **The answer of `diod_readdir` is right about the end exactly if the next entry fits**, or
there is no memory, or the kind of the next entry has to be looked up and cannot. -/
theorem diod_end_iff {x : IOCtx} {i : ℕ} (hi : o.f.ioctx = some i) (hx : o.ioctxs.get i = some x)
    (hdir : x.dir = true) (he : o.ecode = 0) :
    EndAnswer ((diodNext H o x offset).map (·.name)) count (diodReaddir H offset count o).1 ↔
      (H.malloc o.host).1 = none ∨ ∀ d ∈ diodNext H o x offset,
        EntryFits d.name count.toNat ∨ Reached count (dirAt H o x offset).1.ents d ∧
          LstatFails H (dirOst H o x offset) d := by
  by_cases hm : (H.malloc o.host).1 = none
  · rw [diodReaddir_nomem hi hx hm]
    exact iff_of_true endAnswer_stop (.inl hm)
  rw [or_iff_right hm]
  rcases hn : diodNext H o x offset with _ | d
  · obtain ⟨o', hl⟩ : ∃ o', readDirLoop H count.toNat (dirAt H o x offset).1.err
        (dirAt H o x offset).1.ents [] (dirOst H o x offset) = (.ok [], o') :=
      readDirLoop_none count.toNat
        fun d hd hl => List.find?_eq_none.mp hn d hd (decide_eq_true hl)
    rw [diodReaddir_eq hi hx hdir hm hl]
    refine iff_of_true ?_ (by rintro d ⟨⟩)
    split
    · exact endAnswer_stop
    · exact ⟨fun _ _ => rfl, by rintro name ⟨⟩⟩
  · obtain ⟨bs, o', hl, h⟩ := @readDirLoop_next σ H count (dirOst H o x offset) d _
      (dirAt H o x offset).1.err hn
    rw [diodReaddir_eq hi hx hdir hm hl, Option.map_some]
    simp only [Option.mem_some_iff, forall_eq']
    rcases h with ⟨hr, hf, hec⟩ | ⟨hrf, hbs, hec⟩
    · rw [if_pos hec]
      exact iff_of_true endAnswer_stop (.inr ⟨hr, hf⟩)
    · rw [or_iff_left hrf]
      have hnext : (∀ name ∈ some d.name, EntryFits name count.toNat) ↔
          EntryFits d.name count.toNat := by simp
      by_cases hec0 : o'.ecode ≠ 0
      · -- something was written before the error
        rw [if_pos hec0]
        refine iff_of_true endAnswer_stop (not_not.mp fun hf => hec0 ?_)
        exact (hec (hbs.mpr hf)).trans he
      · rw [if_neg hec0, ← hnext]
        exact endAnswer_reply (by simpa using hbs)

/-! ### Both backends -/

/-- **An answer to a `Treaddir` is right about the end of the directory exactly if the next
entry fits into `count`**, or something else makes it an error: no memory for the reply, or
an entry whose kind has to be looked up and cannot. -/
theorem readdir_end_iff (H : Host σ) (K : Ctlroot) (offset : UInt64) (count : UInt32) :
    (∀ o : Ost σ CtlFid,
      EndAnswer (ctlNext K o.f offset) count (npCtlReaddir H K offset count o).1 ↔
        (H.malloc o.host).1 = none ∨
          ∀ name ∈ ctlNext K o.f offset, EntryFits name count.toNat) ∧
    ∀ (o : Ost σ DiodFid) (i : ℕ) (x : IOCtx),
      o.f.ioctx = some i → o.ioctxs.get i = some x → x.dir = true → o.ecode = 0 →
      (EndAnswer ((diodNext H o x offset).map (·.name)) count (diodReaddir H offset count o).1 ↔
        (H.malloc o.host).1 = none ∨ ∀ d ∈ diodNext H o x offset,
          EntryFits d.name count.toNat ∨ Reached count (dirAt H o x offset).1.ents d ∧
            LstatFails H (dirOst H o x offset) d) :=
  ⟨fun o => ctl_end_iff o, fun _ _ _ hi hx hdir he => diod_end_iff hi hx hdir he⟩

/-- A host with one entry `a` in its directories. -/
def hostWithA : Host Unit :=
  .steady fun
    | .readdir _ _ => { ents := [⟨1, 1, DT_REG, [97]⟩] }
    | _ => {}

/-- A fid on which a directory is open. -/
def openDir : Ost Unit DiodFid where
  host := ()
  paths := Heap.empty.alloc ⟨[47], 1, some 0⟩
  ioctxs := Heap.empty.alloc ⟨1, LOCK_UN, 3, true, 0, 0, 0, ⟨Qtdir, 0, 1⟩, none, none⟩
  ecode := 0
  log := []
  f := ⟨⟨0, [47]⟩, some 0, none, false, false, false⟩

/-- A count of 100 is enough for the entry `a`. -/
theorem readdir_end_hundred :
    EndAnswer (some [97]) 100 (diodReaddir hostWithA 0 100 openDir).1 := by
  refine ((readdir_end_iff hostWithA {} 0 100).2 openDir 0 _ rfl rfl rfl rfl).mpr (.inr ?_)
  rintro d ⟨⟩
  exact .inl (by decide +kernel)

/-- A server that exports its own files, of which there is one, `version`. -/
def exportVersion : Npsrv :=
  { exportCtl with ctlroot := { child := [⟨[118, 101, 114, 115, 105, 111, 110], 2, some .text,
    false, false⟩] } }

/-- A directory has been listed, and there was nothing in it. -/
def isEmptyListing : Res (Option Msg) → Bool
  | .ok (some (.rreaddir 0 [])) => true
  | _ => false

/-- **An empty reply that is not the end of the directory.** A client asks for 10 bytes of a
directory with one entry, from both backends, and is told that there is none. -/
theorem readdir_empty_not_end :
    (∃ w, runSteps (serveStep (.steady fun _ => {}) exportVersion) (World.new ())
        [(someUser, .tversion 8192 [57, 80, 50, 48, 48, 48, 46, 76]),
          (someUser, .tattach 1 NOFID [97] ctlName 1000)] = some w ∧
      isEmptyListing (serve (.steady fun _ => {}) exportVersion someUser
        (.treaddir 1 0 10) w).1 = true) ∧
    ctlNext exportVersion.ctlroot ⟨none, none⟩ 0 = some [118, 101, 114, 115, 105, 111, 110] ∧
    (diodReaddir hostWithA 0 10 openDir).1 = .ok (.rreaddir 0 []) ∧
    ¬EndAnswer (some [97]) 10 (diodReaddir hostWithA 0 10 openDir).1 := by
  have hs : (runSteps (serveStep (.steady fun _ => {}) exportVersion) (World.new ())
      [(someUser, .tversion 8192 [57, 80, 50, 48, 48, 48, 46, 76]),
        (someUser, .tattach 1 NOFID [97] ctlName 1000)]).map (fun w =>
          isEmptyListing (serve (.steady fun _ => {}) exportVersion someUser
            (.treaddir 1 0 10) w).1) = some true := by
    decide +kernel
  obtain ⟨w, hw, h⟩ := Option.map_eq_some_iff.mp hs
  have hd : (diodReaddir hostWithA 0 10 openDir).1 = .ok (.rreaddir 0 []) := rfl
  refine ⟨⟨w, hw, h⟩, rfl, hd, fun he => ?_⟩
  have := he.empty 0 hd
  cases this

end Diod
