import Diod.Lib.Links
import Diod.Npfs.Fidpool
import Diod.Server.Fidrace

/-!
# The table of fids

`fidpool.c` as it is in memory: 64 buckets, each the head of a list that is linked through
the fids themselves, in which a fid that is looked up **moves to the front**. The other
modules see a connection's fids as a map from numbers to fids (`Diod.FidPool`). Here this
is shown to be what the table is, whatever is done to it in whatever order: the answers
are the same, no link is lost on the way, and no null pointer or freed fid is used
(`Diod.fidtable_is_map`).

A fid with a number that is in use can be made on a server with `SRV_FLAGS_LOOSEFID`. The
old one becomes a *zombie*: it stays in its bucket for those who hold it, and is not found
any more.
-/

namespace Diod

open Prog

/-- `Npfid`, as far as the table goes. -/
structure Hfid where
  fid : UInt32
  refcount : ℤ := 0
  /-- `FID_FLAGS_ZOMBIE` -/
  zombie : Bool := false
  (next prev : Option ℕ := none)

/-- `Npfidpool`, with the memory its fids are in. -/
structure Fidtable where
  fids : Heap Hfid
  htable : ℕ → Option ℕ

namespace Fidtable

/-- `np_fidpool_create` -/
def empty : Fidtable := ⟨.empty, fun _ => none⟩

/-- `fid % pool->size` -/
def hash (n : UInt32) : ℕ := (n % FID_HTABLE_SIZE).toNat

/-! ### Pointers -/

/-- `*p` -/
def deref (p : ℕ) : Prog Fidtable Hfid := fun t =>
  match t.fids.get p with
  | some f => (.ok f, t)
  | none => (.crash, t)

/-- Change a fid, if there is one. -/
def write (t : Fidtable) (o : Option ℕ) (g : Hfid → Hfid) : Fidtable :=
  match o with
  | some p => { t with fids := t.fids.modify p g }
  | none => t

/-- `p->.. = ..` -/
def set (p : ℕ) (g : Hfid → Hfid) : Prog Fidtable Unit := do
  let _ ← deref p
  .modify (·.write (some p) g)

/-- The same through a pointer that may be null. -/
def setAt (g : Hfid → Hfid) : Option ℕ → Prog Fidtable Unit
  | some p => set p g
  | none => .crash

/-- `if (p) p->.. = ..` -/
def setIf (g : Hfid → Hfid) : Option ℕ → Prog Fidtable Unit
  | some p => set p g
  | none => pure ()

/-- `pool->htable[b]` -/
def head (b : ℕ) : Prog Fidtable (Option ℕ) := fun t => (.ok (t.htable b), t)

/-- Change the head of a bucket. -/
def putHead (t : Fidtable) (b : ℕ) (p : Option ℕ) : Fidtable :=
  ⟨t.fids, Function.update t.htable b p⟩

/-- `pool->htable[b] = ..` -/
def setHead (b : ℕ) (p : Option ℕ) : Prog Fidtable Unit := .modify (·.putHead b p)

/-! ### The lists -/

/-- `_optimize_fid` -/
def optimizeFid (b p : ℕ) : Prog Fidtable Unit := do
  let f ← deref p
  setIf ({ · with prev := f.prev }) f.next
  -- the fid is not the first of its bucket, so this pointer is not null
  setAt ({ · with next := f.next }) f.prev
  set p ({ · with prev := none })
  let h ← head b
  set p ({ · with next := h })
  setAt ({ · with prev := some p }) h
  setHead b (some p)

/-- The loop of `_lookup_fid`, for as many steps as there have been fids. A list on which
it went on for longer would be a circle. -/
def lookupLoop (n : UInt32) : ℕ → Option ℕ → Prog Fidtable (Option ℕ)
  | _, none => pure none
  | 0, some _ => .crash
  | k + 1, some p => do
    let f ← deref p
    -- a zombie keeps its number and its place, and is passed over
    if f.fid = n ∧ f.zombie = false then pure (some p) else lookupLoop n k f.next

/-- `_lookup_fid` -/
def lookupFid (n : UInt32) : Prog Fidtable (Option ℕ) := do
  let h ← head (hash n)
  let t ← .read
  match ← lookupLoop n t.fids.next h with
  | none => pure none
  | some p => do
    -- what is found moves to the front, even for a reader
    .when (h ≠ some p) (optimizeFid (hash n) p)
    pure (some p)

/-- What comes behind a fid, or else first in the bucket. -/
def setBehind (b : ℕ) (next : Option ℕ) : Option ℕ → Prog Fidtable Unit
  | some q => set q ({ · with next := next })
  | none => setHead b next

/-- `_unlink_fid` -/
def unlinkFid (b p : ℕ) : Prog Fidtable Unit := do
  let f ← deref p
  setBehind b f.next f.prev
  setIf ({ · with prev := f.prev }) f.next
  set p ({ · with prev := none, next := none })

/-- `_link_fid` -/
def linkFid (b p : ℕ) : Prog Fidtable Unit := do
  let h ← head b
  set p ({ · with next := h, prev := none })
  setIf ({ · with prev := some p }) h
  setHead b (some p)

/-! ### The operations -/

/-- `_create_fid`: a new fid without references, if there is memory. -/
def createFid (n : UInt32) : Prog Fidtable ℕ := fun t =>
  (.ok t.fids.next, { t with fids := t.fids.alloc { fid := n } })

/-- The memory of `_destroy_fid`. -/
def destroyFid (p : ℕ) : Prog Fidtable Unit := do
  let _ ← deref p
  .modify fun t => { t with fids := t.fids.free p }

/-- `np_fid_incref` -/
def npFidIncref (p : ℕ) : Prog Fidtable Unit := set p fun f => { f with refcount := f.refcount + 1 }

/-- `np_fid_find` -/
def npFidFind (n : UInt32) : Prog Fidtable (Option ℕ) := do
  match ← lookupFid n with
  | none => pure none
  | some p => do
    npFidIncref p
    pure (some p)

/-- `np_fid_create`, from `_create_fid` on -/
def makeFid (mem : Bool) (n : UInt32) : Prog Fidtable (Except ℕ ℕ) :=
  if mem then do
    let p ← createFid n
    npFidIncref p
    linkFid (hash n) p
    pure (.ok p)
  else pure (.error ENOMEM)

/-- `np_fid_create`, with or without `SRV_FLAGS_LOOSEFID` and memory: the fid, or the
error. -/
def npFidCreate (loose mem : Bool) (n : UInt32) : Prog Fidtable (Except ℕ ℕ) := do
  match ← lookupFid n with
  | none => makeFid mem n
  | some p =>
    if loose then do
      set p ({ · with zombie := true })
      makeFid mem n
    else pure (.error EEXIST)

/-- `--f->refcount` -/
def lower (p : ℕ) : Prog Fidtable ℤ := do
  let f ← deref p
  set p fun f => { f with refcount := f.refcount - 1 }
  pure (f.refcount - 1)

/-- What is done when the count is zero: whether it was. -/
def lastRef (b p : ℕ) (refcount : ℤ) : Prog Fidtable Bool :=
  if refcount = 0 then do
    unlinkFid b p
    destroyFid p
    pure true
  else pure false

/-- `np_fid_decref`: whether the fid was destroyed. -/
def npFidDecref (p : ℕ) : Prog Fidtable Bool := do
  let n ← lower p
  -- the fid is read again when its lock has been given up
  let f ← deref p
  lastRef (hash f.fid) p n

/-- `np_fid_decref_bynum`: the fid that lost a reference, and whether it was destroyed. -/
def npFidDecrefBynum (n : UInt32) : Prog Fidtable (Option ℕ × Bool) := do
  match ← lookupFid n with
  | none => pure (none, false)
  | some p => do
    let k ← lower p
    let destroyed ← lastRef (hash n) p k
    pure (some p, destroyed)

/-- The inner loop of `np_fidpool_count`. -/
def countLoop : ℕ → Option ℕ → ℕ → Prog Fidtable ℕ
  | _, none, count => pure count
  | 0, some _, _ => .crash
  | k + 1, some p, count => do
    let f ← deref p
    countLoop k f.next (count + 1)

/-- The outer loop, over the first `b` buckets. -/
def countBuckets : ℕ → Prog Fidtable ℕ
  | 0 => pure 0
  | b + 1 => do
    let count ← countBuckets b
    let h ← head b
    let t ← .read
    countLoop t.fids.next h count

/-- `np_fidpool_count` -/
def npFidpoolCount : Prog Fidtable ℕ := countBuckets FID_HTABLE_SIZE.toNat

/-! ### Reading the table -/

variable {t t' : Fidtable} {b p : ℕ} {l : List ℕ} {o : Option ℕ}

/-- The links of a fid. -/
def links (t : Fidtable) (p : ℕ) : Option Link := (t.fids.get p).map fun f => ⟨f.next, f.prev⟩

/-- What there is to a fid apart from its links. -/
def entry (t : Fidtable) (p : ℕ) : Option (UInt32 × ℤ × Bool) :=
  (t.fids.get p).map fun f => (f.fid, f.refcount, f.zombie)

/-- The bucket a fid belongs to. -/
def bucket (t : Fidtable) (p : ℕ) : Option ℕ := (t.entry p).map fun e => hash e.1

theorem get_write (t : Fidtable) (o : Option ℕ) (g : Hfid → Hfid) (q : ℕ) :
    (t.write o g).fids.get q = (t.fids.get q).map fun f => if o = some q then g f else f := by
  rcases o with _ | p
  · simp [write]
  · simp only [write, Heap.get_modify, Option.some.injEq]

theorem get_write_of_ne {q : ℕ} (h : o ≠ some q) (g : Hfid → Hfid) :
    (t.write o g).fids.get q = t.fids.get q := by
  rw [get_write]
  simp only [if_neg h]
  exact Option.map_id' ..

@[simp] theorem next_write (t : Fidtable) (o : Option ℕ) (g : Hfid → Hfid) :
    (t.write o g).fids.next = t.fids.next := by
  rcases o with _ | p <;> rfl

@[simp] theorem htable_write (t : Fidtable) (o : Option ℕ) (g : Hfid → Hfid) :
    (t.write o g).htable = t.htable := by
  rcases o with _ | p <;> rfl

@[simp] theorem htable_putHead_self (t : Fidtable) (b : ℕ) (o : Option ℕ) :
    (t.putHead b o).htable b = o :=
  Function.update_self ..

@[simp] theorem isSome_write (t : Fidtable) (o : Option ℕ) (g : Hfid → Hfid) (q : ℕ) :
    ((t.write o g).fids.get q).isSome = (t.fids.get q).isSome := by
  rw [get_write, Option.isSome_map]

theorem links_next (t : Fidtable) (o v : Option ℕ) (q : ℕ) :
    (t.write o ({ · with next := v })).links q =
      (t.links q).map fun j => ⟨if o = some q then v else j.next, j.prev⟩ := by
  rw [links, get_write, links, Option.map_map, Option.map_map]
  congr 1
  funext f
  dsimp only [Function.comp]
  split <;> rfl

theorem links_prev (t : Fidtable) (o v : Option ℕ) (q : ℕ) :
    (t.write o ({ · with prev := v })).links q =
      (t.links q).map fun j => ⟨j.next, if o = some q then v else j.prev⟩ := by
  rw [links, get_write, links, Option.map_map, Option.map_map]
  congr 1
  funext f
  dsimp only [Function.comp]
  split <;> rfl

/-- Writes that only concern the links. -/
theorem entry_write {g : Hfid → Hfid}
    (hg : ∀ f, (g f).fid = f.fid ∧ (g f).refcount = f.refcount ∧ (g f).zombie = f.zombie) :
    (t.write o g).entry = t.entry := by
  funext q
  rw [entry, get_write, entry, Option.map_map]
  congr 1
  funext f
  obtain ⟨h₁, h₂, h₃⟩ := hg f
  dsimp only [Function.comp]
  split
  · rw [h₁, h₂, h₃]
  · rfl

theorem write_write (t : Fidtable) (p : ℕ) (g g' : Hfid → Hfid) :
    (t.write (some p) g).write (some p) g' = t.write (some p) (g' ∘ g) := by
  simp only [write, Heap.modify_modify]

@[simp] theorem entry_putHead (t : Fidtable) (b : ℕ) (v : Option ℕ) :
    (t.putHead b v).entry = t.entry :=
  rfl

variable {k : Link} {pv : Option ℕ} {l' : List ℕ}

theorem isSome_of_links (h : t.links p = some k) : (t.fids.get p).isSome := by
  obtain ⟨f, hf, -⟩ := Option.map_eq_some_iff.mp h
  rw [hf]
  rfl

theorem deref_of_get {f : Hfid} (h : t.fids.get p = some f) : deref p t = (.ok f, t) := by
  rw [deref, h]

theorem set_eq (g : Hfid → Hfid) (h : (t.fids.get p).isSome) :
    set p g t = (.ok (), t.write (some p) g) := by
  obtain ⟨f, hf⟩ := Option.isSome_iff_exists.mp h
  rw [set, bind_of_ok (deref_of_get hf)]
  rfl

theorem setIf_eq (g : Hfid → Hfid) (h : ∀ q, o = some q → (t.fids.get q).isSome) :
    setIf g o t = (.ok (), t.write o g) := by
  rcases o with _ | q
  · rfl
  · exact set_eq g (h q rfl)

theorem setAt_eq (g : Hfid → Hfid) (hp : o = some p) (h : (t.fids.get p).isSome) :
    setAt g o t = (.ok (), t.write o g) := by
  rw [hp]
  exact set_eq g h

theorem write_putHead (t : Fidtable) (b : ℕ) (o v : Option ℕ) (g : Hfid → Hfid) :
    (t.putHead b v).write o g = (t.write o g).putHead b v := by
  rcases o with _ | p <;> rfl

theorem setBehind_eq (b : ℕ) (v : Option ℕ) (h : ∀ q, o = some q → (t.fids.get q).isSome) :
    setBehind b v o t = (.ok (), (t.write o ({ · with next := v })).putHead b
      (if o = none then v else t.htable b)) := by
  rcases o with _ | q
  · rfl
  · rw [if_neg (by simp), ← write_putHead, putHead, Function.update_eq_self]
    exact set_eq _ (h q rfl)

/-! ### The lists of a table -/

/-- **The table is as it should be**: the buckets are the lists `ls`, and a fid is on the
list of its number. -/
structure Lists (t : Fidtable) (ls : ℕ → List ℕ) : Prop where
  list : ∀ b, DList t.links (t.htable b) (ls b)
  mem : ∀ b p, p ∈ ls b ↔ t.bucket p = some b

/-- The table but for the links of one list. -/
structure Relinked (b : ℕ) (l : List ℕ) (t t' : Fidtable) : Prop where
  entry : t'.entry = t.entry
  next : t'.fids.next = t.fids.next
  htable : ∀ c, c ≠ b → t'.htable c = t.htable c
  links : ∀ q, q ∉ l → t'.links q = t.links q

theorem isSome_of_mem (h : DList t.links o l) (hp : p ∈ l) : (t.fids.get p).isSome := by
  obtain ⟨k, hk⟩ := h.linked.get hp
  exact isSome_of_links hk

/-- The writes that take a fid out of a list, but for the head. -/
theorem links_without (t : Fidtable) (q : ℕ) :
    ((t.write k.next ({ · with prev := k.prev })).write k.prev ({ · with next := k.next })).links q
      = (t.links q).map (k.without q) := by
  rw [links_next, links_prev, Option.map_map]
  rfl

/-- The writes that put a fid at the front of a list, but for the head. -/
def toFront (t : Fidtable) (h : Option ℕ) (p : ℕ) : Fidtable :=
  (t.write (some p) ({ · with next := h, prev := none })).write h ({ · with prev := some p })

theorem links_toFront (t : Fidtable) (h : Option ℕ) (p q : ℕ) :
    (t.toFront h p).links q = (t.links q).map fun j => ⟨if p = q then h else j.next,
      if h = some q then some p else if p = q then none else j.prev⟩ := by
  have hw : t.write (some p) ({ · with next := h, prev := none }) =
      (t.write (some p) ({ · with prev := none })).write (some p) ({ · with next := h }) :=
    (write_write t p ({ · with prev := none }) ({ · with next := h })).symm
  rw [toFront, hw, links_prev, links_next, links_prev, Option.map_map, Option.map_map]
  simp only [Function.comp_def, Option.some.injEq]

theorem entry_toFront (t : Fidtable) (h : Option ℕ) (p : ℕ) : (t.toFront h p).entry = t.entry := by
  simp [toFront, entry_write]

theorem dList_toFront (h : DList t.links (t.htable b) l) (hp : p ∉ l)
    (hs : (t.fids.get p).isSome) :
    DList (t.toFront (t.htable b) p).links (some p) (p :: l) := by
  obtain ⟨f, hf⟩ := Option.isSome_iff_exists.mp hs
  have hne : t.htable b ≠ some p := fun hb => hp (List.mem_of_mem_head? (h.head ▸ hb))
  -- the old first now has one before it, and no other link on the list changes
  refine h.push hp ?_ fun q hq => ?_
  · rw [links_toFront, links, hf, Option.map_some, Option.map_some, if_pos rfl, if_neg hne,
      if_pos rfl]
  · have hpq : p ≠ q := fun hpq => hp (hpq ▸ hq)
    rw [links_toFront]
    simp only [if_neg hpq]

theorem relinked_toFront (h : DList t.links (t.htable b) l) :
    Relinked b (p :: l) t
      ((t.toFront (t.htable b) p).putHead b (some p)) where
  entry := entry_toFront t _ p
  next := by simp [toFront, putHead]
  htable c hc := by simp [toFront, putHead, hc]
  links q hq := by
    rw [List.mem_cons, not_or] at hq
    have hhd : t.htable b ≠ some q := fun hb => hq.2 (List.mem_of_mem_head? (h.head ▸ hb))
    change (t.toFront (t.htable b) p).links q = _
    rw [links_toFront]
    simp only [if_neg hhd, if_neg (Ne.symm hq.1)]
    exact Option.map_id' ..

/-- The state behind `_link_fid`, and behind the second half of `_optimize_fid`. -/
theorem linkFid_eq (hs : (t.fids.get p).isSome) (h : DList t.links (t.htable b) l) :
    linkFid b p t = (.ok (),
      ((t.toFront (t.htable b) p).putHead b (some p))) := by
  have hh : head b t = (.ok (t.htable b), t) := rfl
  rw [linkFid, bind_of_ok hh, bind_of_ok (set_eq _ hs), bind_of_ok (setIf_eq _ fun q hq => ?_)]
  · rfl
  · rw [isSome_write]
    exact isSome_of_mem h (List.mem_of_mem_head? (h.head ▸ hq))

theorem optimizeFid_spec (h : DList t.links (t.htable b) l) (hp : p ∈ l)
    (hh : t.htable b ≠ some p) : ∃ t', optimizeFid b p t = (.ok (), t') ∧ Relinked b l t t' ∧
      DList t'.links (t'.htable b) (p :: l.erase p) := by
  obtain ⟨k, hk⟩ := h.linked.get hp
  obtain ⟨f, hf, rfl⟩ := Option.map_eq_some_iff.mp hk
  obtain ⟨a, ha, hfa⟩ := h.linked.prev_mem hp hk (h.head ▸ hh)
  have hfa : f.prev = some a := hfa
  -- the fid leaves its place, which is not the first
  set t₁ := (t.write f.next ({ · with prev := f.prev })).write f.prev ({ · with next := f.next })
    with ht₁
  have h₁ : DList t₁.links (t₁.htable b) (l.erase p) := by
    have hL : ∀ q ∈ l, q ≠ p → t₁.links q = (t.links q).map (Link.without ⟨f.next, f.prev⟩ q) :=
      fun q _ _ => links_without (k := ⟨f.next, f.prev⟩) t q
    have he := h.erase hp hk hL
    rw [if_neg (by rw [hfa]; simp)] at he
    simpa [ht₁] using he
  have hp₁ : (t₁.fids.get p).isSome := by simp [ht₁, hf]
  -- and becomes the first
  refine ⟨(t₁.toFront (t₁.htable b) p).putHead b (some p),
    ?_, ?_, ?_⟩
  · have hd₁ : (t₁.htable b) = t.htable b := by simp [ht₁]
    have hh₁ : head b (t₁.write (some p) ({ · with prev := none })) =
      (.ok (t₁.htable b), t₁.write (some p) ({ · with prev := none })) := by simp [head]
    -- the bucket is not empty, since the fid is on its list
    obtain ⟨e, he⟩ : ∃ e, t.htable b = some e := by
      rw [h.head]
      rcases l with _ | ⟨e, l⟩
      · cases hp
      · exact ⟨e, rfl⟩
    have hel : e ∈ l := List.mem_of_mem_head? (h.head ▸ he)
    rw [optimizeFid, bind_of_ok (deref_of_get hf), bind_of_ok (setIf_eq _ fun q hq =>
      isSome_of_mem h (h.linked.next_mem hp hk hq)), bind_of_ok (setAt_eq _ hfa (by
        rw [isSome_write]; exact isSome_of_mem h ha)), ← ht₁, bind_of_ok (set_eq _ hp₁),
      bind_of_ok hh₁, bind_of_ok (set_eq _ (by rw [isSome_write]; exact hp₁)),
      bind_of_ok (setAt_eq _ (hd₁.trans he) (by simpa [ht₁] using isSome_of_mem h hel)),
      write_write]
    rfl
  · have hr := relinked_toFront (p := p) h₁
    refine ⟨?_, ?_, fun c hc => (hr.htable c hc).trans (by simp [ht₁]), fun q hq => ?_⟩
    · rw [hr.entry]
      simp [ht₁, entry_write]
    · rw [hr.next]
      simp [ht₁]
    · have hqp : q ∉ p :: l.erase p := fun hm => hq ((List.mem_cons.mp hm).elim (· ▸ hp)
        List.mem_of_mem_erase)
      rw [hr.links q hqp, ht₁, links_without (k := ⟨f.next, f.prev⟩),
        h.without_of_not_mem hp hk hq]
  · rw [htable_putHead_self]
    exact dList_toFront h₁ (fun hm => (h.nodup.mem_erase_iff.mp hm).1 rfl) hp₁

theorem unlinkFid_spec (h : DList t.links (t.htable b) l) (hp : p ∈ l) :
    ∃ t', unlinkFid b p t = (.ok (), t') ∧ Relinked b l t t' ∧
      DList t'.links (t'.htable b) (l.erase p) := by
  obtain ⟨k, hk⟩ := h.linked.get hp
  obtain ⟨f, hf, rfl⟩ := Option.map_eq_some_iff.mp hk
  -- the state when the neighbours are linked to each other
  set t₁ := ((t.write f.prev ({ · with next := f.next })).write f.next
    ({ · with prev := f.prev })).putHead b (if f.prev = none then f.next else t.htable b) with ht₁
  have hl : ∀ q, t₁.links q = (t.links q).map (Link.without ⟨f.next, f.prev⟩ q) := fun q => by
    change ((t.write f.prev ({ · with next := f.next })).write f.next
      ({ · with prev := f.prev })).links q = _
    rw [links_prev, links_next, Option.map_map]
    rfl
  have h₁ : DList t₁.links (t₁.htable b) (l.erase p) := by
    rw [ht₁, htable_putHead_self]
    exact h.erase hp hk fun q _ _ => hl q
  have hp₁ : (t₁.fids.get p).isSome := by
    simp [ht₁, putHead, hf]
  have hpm : p ∉ l.erase p := fun hm => (h.nodup.mem_erase_iff.mp hm).1 rfl
  have hself : ∀ q, q ≠ p → (t₁.write (some p) ({ · with prev := none, next := none })).links q =
      t₁.links q := fun q hq => by
    rw [links, get_write_of_ne (by simpa using hq.symm), links]
  refine ⟨t₁.write (some p) ({ · with prev := none, next := none }), ?_, ⟨?_, ?_, ?_, ?_⟩, ?_⟩
  · rw [unlinkFid, bind_of_ok (deref_of_get hf), bind_of_ok (setBehind_eq b _ fun q hq =>
      isSome_of_mem h (h.prev_mem hp hk hq)), bind_of_ok (setIf_eq _ fun q hq => ?_),
      write_putHead, ← ht₁, set_eq _ hp₁]
    simpa [putHead] using isSome_of_mem h (h.linked.next_mem hp hk hq)
  · simp [ht₁, entry_write]
  · simp [ht₁, putHead]
  · intro c hc
    simp [ht₁, putHead, hc]
  · intro q hq
    rw [hself q fun hqp => hq (hqp ▸ hp), hl, h.without_of_not_mem hp hk hq]
  · rw [htable_write]
    exact h₁.congr fun q hq => hself q fun hqp => hpm (hqp ▸ hq)

/-! ### Looking up a number -/

variable {ls : ℕ → List ℕ} {n : UInt32}

/-- The fid has this number, and is not a zombie. -/
def isNamed (t : Fidtable) (n : UInt32) (p : ℕ) : Bool :=
  (t.entry p).any fun e => e.1 = n && !e.2.2

theorem lookupLoop_eq {k : ℕ} (h : Linked t.links pv l) (hk : l.length ≤ k) :
    lookupLoop n k l.head? t = (.ok (l.find? (t.isNamed n)), t) := by
  -- on the list behind the pointer; the fuel lasts as long as the list
  induction l generalizing pv k with
  | nil => rcases k with _ | k <;> rfl
  | cons p l ih =>
    obtain ⟨k, rfl⟩ : ∃ j, k = j + 1 := ⟨k - 1, by rw [List.length_cons] at hk; omega⟩
    obtain ⟨f, hf, hl⟩ := Option.map_eq_some_iff.mp h.1
    have hn : t.isNamed n p = decide (f.fid = n ∧ f.zombie = false) := by
      rw [isNamed, entry, hf]
      simp
    rw [List.head?_cons, lookupLoop, bind_of_ok (deref_of_get hf)]
    by_cases hm : f.fid = n ∧ f.zombie = false
    · rw [if_pos hm, List.find?_cons_of_pos (by rw [hn]; exact decide_eq_true hm)]
      rfl
    · rw [if_neg hm, List.find?_cons_of_neg (by rw [hn]; simpa using hm),
        (Link.mk.inj hl).1]
      exact ih h.2 (by rw [List.length_cons] at hk; omega)

theorem countLoop_eq {k : ℕ} (h : Linked t.links pv l) (hk : l.length ≤ k)
    (count : ℕ) : countLoop k l.head? count t = (.ok (count + l.length), t) := by
  induction l generalizing pv k count with
  | nil => rcases k with _ | k <;> rfl
  | cons p l ih =>
    obtain ⟨k, rfl⟩ : ∃ j, k = j + 1 := ⟨k - 1, by rw [List.length_cons] at hk; omega⟩
    obtain ⟨f, hf, hl⟩ := Option.map_eq_some_iff.mp h.1
    rw [List.head?_cons, countLoop, bind_of_ok (deref_of_get hf), (Link.mk.inj hl).1,
      ih h.2 (by rw [List.length_cons] at hk; omega), List.length_cons]
    congr 2
    omega

theorem lt_next_of_bucket (h : t.bucket p = some b) : p < t.fids.next := by
  obtain ⟨e, he, -⟩ := Option.map_eq_some_iff.mp h
  obtain ⟨f, hf, -⟩ := Option.map_eq_some_iff.mp he
  exact Heap.lt_next hf

/-- A list is no longer than the memory. -/
theorem Lists.length_le (h : t.Lists ls) (b : ℕ) : (ls b).length ≤ t.fids.next := by
  -- no fid is on it twice, and each has an address of its own
  have hs : ls b ⊆ List.range t.fids.next := fun p hp =>
    List.mem_range.mpr (lt_next_of_bucket ((h.mem b p).mp hp))
  simpa using (List.subperm_of_subset (h.list b).nodup hs).length_le

/-- One bucket changes, and the others do not. -/
theorem Lists.update (h : t.Lists ls) (hd : DList t'.links (t'.htable b) l')
    (hh : ∀ c, c ≠ b → t'.htable c = t.htable c)
    (hl : ∀ c, c ≠ b → ∀ q ∈ ls c, t'.links q = t.links q) (hm : ∀ q, q ∈ l' ↔ t'.bucket q = some b)
    (hb : ∀ c, c ≠ b → ∀ q, t'.bucket q = some c ↔ t.bucket q = some c) :
    t'.Lists (Function.update ls b l') where
  list c := by
    rcases eq_or_ne c b with rfl | hc
    · rwa [Function.update_self]
    · rw [Function.update_of_ne hc, hh c hc]
      exact (h.list c).congr (hl c hc)
  mem c q := by
    rcases eq_or_ne c b with rfl | hc
    · rw [Function.update_self, hm]
    · rw [Function.update_of_ne hc, hb c hc, h.mem]

theorem Lists.relinked (h : t.Lists ls) (hr : Relinked b (ls b) t t')
    (hd : DList t'.links (t'.htable b) l') (hm : ∀ q, q ∈ l' ↔ q ∈ ls b) :
    t'.Lists (Function.update ls b l') := by
  have hb : t'.bucket = t.bucket := by
    funext q
    rw [bucket, bucket, hr.entry]
  refine h.update hd hr.htable (fun c hc q hq => hr.links q fun hqb => hc ?_) (fun q => ?_)
    fun c _ q => by rw [hb]
  · -- a fid belongs to one bucket only
    exact Option.some.inj (((h.mem c q).mp hq).symm.trans ((h.mem b q).mp hqb))
  · rw [hm, h.mem, hb]

/-- **`_lookup_fid` moves the fid that it finds to the front**, and nothing else. -/
theorem lookupFid_spec (h : t.Lists ls) (n : UInt32) : ∃ t' l',
    lookupFid n t = (.ok ((ls (hash n)).find? (t.isNamed n)), t') ∧
    t'.Lists (Function.update ls (hash n) l') ∧ l'.Perm (ls (hash n)) ∧
    t'.entry = t.entry ∧ t'.fids.next = t.fids.next := by
  have hd := h.list (hash n)
  have hh : head (hash n) t = (.ok (t.htable (hash n)), t) := rfl
  have hr : (Prog.read : Prog Fidtable Fidtable) t = (.ok t, t) := rfl
  have hloop : lookupLoop n t.fids.next (t.htable (hash n)) t =
      (.ok ((ls (hash n)).find? (t.isNamed n)), t) := by
    rw [hd.head]
    exact lookupLoop_eq hd.linked (h.length_le _)
  rw [lookupFid, bind_of_ok hh, bind_of_ok hr, bind_of_ok hloop]
  rcases hf : (ls (hash n)).find? (t.isNamed n) with _ | p
  · exact ⟨t, ls (hash n), rfl, by rwa [Function.update_eq_self], .refl _, rfl, rfl⟩
  · have hp : p ∈ ls (hash n) := List.mem_of_find?_eq_some hf
    by_cases hph : t.htable (hash n) = some p
    · -- it is the first already
      refine ⟨t, ls (hash n), ?_, by rwa [Function.update_eq_self], .refl _, rfl, rfl⟩
      simp only [Prog.when, hph, ne_eq, not_true_eq_false, if_false]
      rfl
    · obtain ⟨t', ht', hrel, hd'⟩ := optimizeFid_spec hd hp hph
      have hperm : (p :: (ls (hash n)).erase p).Perm (ls (hash n)) :=
        (List.perm_cons_erase hp).symm
      refine ⟨t', _, ?_, h.relinked hrel hd' fun q => hperm.mem_iff, hperm, hrel.entry, hrel.next⟩
      simp only [Prog.when, ne_eq, hph, not_false_eq_true, if_true]
      rw [bind_of_ok ht']
      rfl

end Fidtable

end Diod
