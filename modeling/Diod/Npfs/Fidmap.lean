import Diod.Npfs.Fidtable

/-!
# The table of fids is a map

What the operations of `fidpool.c` do, and what they answer, is what they would do to
a finite map from numbers to fids (`Diod.FidPool.run`): this is how the other modules see
the fids of a connection. The table **stands for** such a map (`Diod.Fidtable.Models`) when
its buckets are lists in order and hold the fids of the map, and each operation takes a
table that stands for a map to one that stands for the map that the operation gives
(`Diod.Fidtable.Models.run`). Zombies are in the map as they are in the table: they are not
found by their number.

A run of operations (`Diod.Fidrun`) keeps a record of the references that callers have, and
of the fids that were made and destroyed. As long as a caller gives back only what it has,
the table is a map all along (`Diod.fidtable_is_map`).
-/

namespace Diod

open Prog

/-! ### The map -/

/-- An operation on the fids of a connection. -/
inductive Fidop where
  | find (n : UInt32)
  | create (n : UInt32) (mem : Bool)
  | incref (p : ℕ)
  | decref (p : ℕ)
  | decrefBynum (n : UInt32)

/-- What comes of it. -/
inductive Fidans where
  | null
  | fid (p : ℕ)
  | error (e : ℕ)
  /-- The fid lost a reference, and was destroyed or not. -/
  | dropped (p : ℕ) (destroyed : Bool)
deriving DecidableEq

/-- The answer of `np_fid_create`. -/
def Fidans.ofExcept : Except ℕ ℕ → Fidans
  | .ok p => .fid p
  | .error e => .error e

/-- The operations of `fidpool.c`. -/
def Fidtable.run (loose : Bool) : Fidop → Prog Fidtable Fidans
  | .find n => do
    let r ← npFidFind n
    pure (r.elim .null .fid)
  | .create n mem => do
    let r ← npFidCreate loose mem n
    pure (.ofExcept r)
  | .incref p => do
    npFidIncref p
    pure (.fid p)
  | .decref p => do
    let destroyed ← npFidDecref p
    pure (.dropped p destroyed)
  | .decrefBynum n => do
    let (r, destroyed) ← npFidDecrefBynum n
    pure (r.elim .null (.dropped · destroyed))

namespace FidPool

/-- A new fid in the map, if there is memory. -/
def make (P : FidPool) (mem : Bool) (n : UInt32) : Fidans × FidPool :=
  if mem then (.fid P.next, P.create n) else (.error ENOMEM, P)

/-- A reference less on a fid of the map. -/
def drop (P : FidPool) (p : ℕ) : Fidans × FidPool :=
  (.dropped p ((P.get p).any (·.refcount = 1)), P.decref p)

/-- **What the operations do to a map** from numbers to fids. -/
def run (loose : Bool) (P : FidPool) : Fidop → Fidans × FidPool
  | .find n =>
    match P.lookup n with
    | some (p, _) => (.fid p, P.incref p)
    | none => (.null, P)
  | .create n mem =>
    match P.lookup n with
    | some (p, _) =>
      -- the number is taken from the old fid, even if there is no memory for the new one
      if loose then (P.update p ({ · with zombie := true })).make mem n else (.error EEXIST, P)
    | none => P.make mem n
  | .incref p => (.fid p, P.incref p)
  | .decref p => P.drop p
  | .decrefBynum n =>
    match P.lookup n with
    | some (p, _) => P.drop p
    | none => (.null, P)

/-- **A number stands for one fid**, apart from zombies. -/
def Single (P : FidPool) : Prop :=
  ∀ p q f g, P.get p = some f → P.get q = some g → f.zombie = false → g.zombie = false →
    f.fid = g.fid → p = q

variable {P : FidPool}

theorem Single.lookup (h : P.Single) {n : UInt32} {p : ℕ} {f : Npfid}
    (hp : P.get p = some f) (hn : f.fid = n) (hz : f.zombie = false) :
    P.lookup n = some (p, f) := by
  rcases hl : P.lookup n with _ | ⟨q, g⟩
  · rw [lookup_eq_none.mp hl p f hp hn] at hz
    cases hz
  · -- the one that is found has the same number, so it is the same
    obtain ⟨hq, hg, hgz⟩ := get_of_lookup hl
    obtain rfl := h p q f g hp hq hz hgz (hn.trans hg.symm)
    rw [Option.some.inj (hp.symm.trans hq)]

/-- The fids of a map whose numbers stay, and of which none comes back to life. -/
theorem Single.mono {P' : FidPool} (h : P.Single)
    (hP : ∀ q g, P'.get q = some g → ∃ f, P.get q = some f ∧ g.fid = f.fid ∧
      (g.zombie = false → f.zombie = false)) : P'.Single := by
  intro p q f g hp hq hf hg hn
  obtain ⟨f', hp', hf', hz⟩ := hP p f hp
  obtain ⟨g', hq', hg', hz'⟩ := hP q g hq
  exact h p q f' g' hp' hq' (hz hf) (hz' hg) (by rw [← hf', ← hg', hn])

theorem get_incref (P : FidPool) (p q : ℕ) : (P.incref p).get q =
    (P.get q).map fun f => if p = q then { f with refcount := f.refcount + 1 } else f :=
  Heap.get_modify ..

theorem get_update (P : FidPool) (p q : ℕ) (g : Npfid → Npfid) : (P.update p g).get q =
    (P.get q).map fun f =>
      if p = q then { g f with fid := f.fid, refcount := f.refcount } else f :=
  Heap.get_modify ..

end FidPool

namespace Fidtable

variable {t t' : Fidtable} {b p : ℕ} {ls : ℕ → List ℕ} {n : UInt32} {P : FidPool}

/-- **The table stands for a map**: its lists are in order, and hold the fids of the map. -/
structure Models (t : Fidtable) (P : FidPool) : Prop where
  lists : ∃ ls, t.Lists ls
  next : P.next = t.fids.next
  entry : ∀ p, t.entry p = (P.get p).map fun f => (f.fid, (f.refcount : ℤ), f.zombie)
  single : P.Single

theorem Models.isNamed (h : t.Models P) (n : UInt32) (p : ℕ) : t.isNamed n p = true ↔
    ∃ f, P.get p = some f ∧ f.fid = n ∧ f.zombie = false := by
  rw [Fidtable.isNamed, h.entry]
  rcases P.get p with _ | f <;> simp

theorem Models.lookup_iff (h : t.Models P) (n : UInt32) (p : ℕ) :
    (P.lookup n).map Prod.fst = some p ↔ t.isNamed n p = true := by
  rw [h.isNamed]
  constructor
  · intro hm
    obtain ⟨⟨q, f⟩, hl, rfl⟩ := Option.map_eq_some_iff.mp hm
    exact ⟨f, FidPool.get_of_lookup hl⟩
  · rintro ⟨f, hp, hn, hz⟩
    rw [h.single.lookup hp hn hz]
    rfl

theorem Models.lookup (h : t.Models P) (n : UInt32) : ∃ t',
    lookupFid n t = (.ok ((P.lookup n).map Prod.fst), t') ∧ t'.Models P := by
  obtain ⟨ls, hls⟩ := h.lists
  obtain ⟨t', l', ht', hl', -, he, hn⟩ := lookupFid_spec hls n
  refine ⟨t', ?_, ⟨⟨_, hl'⟩, h.next.trans hn.symm, fun p => by rw [he, h.entry], h.single⟩⟩
  rw [ht']
  congr 2
  rcases hf : (ls (hash n)).find? (t.isNamed n) with _ | p
  · -- a fid with the number would be in its bucket
    rcases hl : P.lookup n with _ | ⟨q, g⟩
    · rfl
    · obtain ⟨hq, hg⟩ := FidPool.get_of_lookup hl
      have hqb : q ∈ ls (hash n) := by
        rw [hls.mem, bucket, h.entry, hq]
        simp [hg.1]
      exact absurd ((h.isNamed n q).mpr ⟨g, hq, hg⟩) (List.find?_eq_none.mp hf q hqb)
  · exact ((h.lookup_iff n p).mpr (List.find?_some hf)).symm

/-! ### Writes that leave the lists alone -/

variable {g : Hfid → Hfid} {G : UInt32 × ℤ × Bool → UInt32 × ℤ × Bool} {f : Npfid} {q : ℕ}

theorem entry_set
    (hG : ∀ f, ((g f).fid, (g f).refcount, (g f).zombie) = G (f.fid, f.refcount, f.zombie))
    (t : Fidtable) (p q : ℕ) :
    (t.write (some p) g).entry q = (t.entry q).map fun e => if p = q then G e else e := by
  rw [entry, get_write, entry, Option.map_map, Option.map_map]
  congr 1
  funext f
  simp only [Function.comp, Option.some.injEq]
  split
  · exact hG f
  · rfl

theorem Lists.write {o : Option ℕ} (h : t.Lists ls)
    (hg : ∀ f, (g f).next = f.next ∧ (g f).prev = f.prev ∧ (g f).fid = f.fid) :
    (t.write o g).Lists ls := by
  have hl : (t.write o g).links = t.links := by
    funext q
    rw [links, get_write, links, Option.map_map]
    congr 1
    funext f
    obtain ⟨h₁, h₂, -⟩ := hg f
    dsimp only [Function.comp]
    split
    · rw [h₁, h₂]
    · rfl
  have hb : (t.write o g).bucket = t.bucket := by
    funext q
    rw [bucket, entry, get_write, bucket, entry, Option.map_map, Option.map_map, Option.map_map]
    congr 1
    funext f
    dsimp only [Function.comp]
    split
    · rw [(hg f).2.2]
    · rfl
  exact ⟨fun b => by rw [hl, htable_write]; exact h.list b, fun b q => by rw [hb, h.mem]⟩

theorem Models.isSome (h : t.Models P) (hp : P.get p ≠ none) : (t.fids.get p).isSome := by
  obtain ⟨f, hf⟩ := Option.ne_none_iff_exists'.mp hp
  have he := h.entry p
  rw [hf, Option.map_some] at he
  obtain ⟨x, hx, -⟩ := Option.map_eq_some_iff.mp he
  rw [hx]
  rfl

/-- A fid of the table and of the map is changed, but for its number and its links. -/
theorem Models.change {c : Npfid → Npfid} {P' : FidPool} (h : t.Models P)
    (hg : ∀ f, (g f).next = f.next ∧ (g f).prev = f.prev ∧ (g f).fid = f.fid)
    (hG : ∀ f, ((g f).fid, (g f).refcount, (g f).zombie) = G (f.fid, f.refcount, f.zombie))
    (hn : P'.next = P.next) (hP : ∀ q, P'.get q = (P.get q).map fun f => if p = q then c f else f)
    (hc : ∀ f, P.get p = some f → ((c f).fid, ((c f).refcount : ℤ), (c f).zombie) =
      G (f.fid, (f.refcount : ℤ), f.zombie))
    (hz : ∀ f, (c f).fid = f.fid ∧ ((c f).zombie = false → f.zombie = false)) :
    (t.write (some p) g).Models P' := by
  obtain ⟨ls, hls⟩ := h.lists
  refine ⟨⟨ls, hls.write hg⟩, by rw [hn, h.next, next_write], fun q => ?_,
    h.single.mono fun q x hx => ?_⟩
  · rw [entry_set hG, h.entry, hP]
    rcases hq : P.get q with _ | f
    · rfl
    · simp only [Option.map_some, Option.some.injEq]
      split
      · rename_i hpq
        exact (hc f (hpq ▸ hq)).symm
      · rfl
  · rw [hP] at hx
    obtain ⟨f, hf, rfl⟩ := Option.map_eq_some_iff.mp hx
    refine ⟨f, hf, ?_⟩
    split
    · exact hz f
    · exact ⟨rfl, id⟩

theorem Models.incref (h : t.Models P) (hp : P.get p ≠ none) : ∃ t',
    npFidIncref p t = (.ok (), t') ∧ t'.Models (P.incref p) :=
  ⟨_, set_eq _ (h.isSome hp), h.change (G := fun e => (e.1, e.2.1 + 1, e.2.2))
    (fun _ => ⟨rfl, rfl, rfl⟩) (fun _ => rfl) rfl (P.get_incref p) (fun _ _ => by simp)
    fun _ => ⟨rfl, id⟩⟩

/-- The old fid becomes a zombie. -/
theorem Models.zombie (h : t.Models P) (hp : P.get p ≠ none) : ∃ t',
    set p ({ · with zombie := true }) t = (.ok (), t') ∧
    t'.Models (P.update p ({ · with zombie := true })) :=
  ⟨_, set_eq _ (h.isSome hp), h.change (G := fun e => (e.1, e.2.1, true))
    (fun _ => ⟨rfl, rfl, rfl⟩) (fun _ => rfl) rfl (fun q => P.get_update p q _) (fun _ _ => rfl)
    fun _ => ⟨rfl, fun h => by cases h⟩⟩

/-- One reference less, of several. -/
theorem Models.lower (h : t.Models P) (hp : P.get p = some f) (hf : f.refcount ≠ 1) :
    (t.write (some p) fun f => { f with refcount := f.refcount - 1 }).Models (P.decref p) := by
  refine h.change (c := fun f => { f with refcount := f.refcount - 1 })
    (G := fun e => (e.1, e.2.1 - 1, e.2.2)) (fun _ => ⟨rfl, rfl, rfl⟩) (fun _ => rfl)
    (FidPool.next_decref ..) (fun q => ?_) (fun g hg => ?_) fun _ => ⟨rfl, id⟩
  · rcases eq_or_ne p q with rfl | hpq
    · rw [FidPool.get_decref_self hp hf, hp, Option.map_some, if_pos rfl]
    · rw [FidPool.get_decref_of_ne hpq.symm]
      simp only [if_neg hpq]
      exact (Option.map_id' ..).symm
  · have := P.pos p g hg
    simp only [Prod.mk.injEq, and_true, true_and]
    omega

/-! ### New fids -/

/-- Memory with a new fid in it, which has one reference and is on no list yet. -/
def withNew (t : Fidtable) (n : UInt32) : Fidtable :=
  Fidtable.write ⟨t.fids.alloc { fid := n }, t.htable⟩ (some t.fids.next)
    fun f => { f with refcount := f.refcount + 1 }

theorem get_withNew_next (t : Fidtable) (n : UInt32) :
    (t.withNew n).fids.get t.fids.next = some { fid := n, refcount := 1 } := by
  rw [withNew, get_write, Heap.get_alloc_next, Option.map_some, if_pos rfl]
  rfl

theorem get_withNew_of_ne (hq : q ≠ t.fids.next) (n : UInt32) :
    (t.withNew n).fids.get q = t.fids.get q := by
  rw [withNew, get_write_of_ne (by simpa using hq.symm)]
  exact Heap.get_alloc_of_ne hq _

theorem makeFid_eq {t' : Fidtable}
    (h : linkFid (hash n) t.fids.next (t.withNew n) = (.ok (), t')) :
    makeFid true n t = (.ok (.ok t.fids.next), t') := by
  have hc : createFid n t = (.ok t.fids.next, ⟨t.fids.alloc { fid := n }, t.htable⟩) := rfl
  have hi : npFidIncref t.fids.next ⟨t.fids.alloc { fid := n }, t.htable⟩ =
      (.ok (), t.withNew n) := set_eq _ (by rw [Heap.get_alloc_next]; rfl)
  rw [makeFid, if_pos rfl, bind_of_ok hc, bind_of_ok hi, bind_of_ok h]
  rfl

theorem Lists.withNew (h : t.Lists ls) (n : UInt32) : ∃ t',
    linkFid (hash n) t.fids.next (t.withNew n) = (.ok (), t') ∧
    t'.Lists (Function.update ls (hash n) (t.fids.next :: ls (hash n))) ∧
    t'.entry = (t.withNew n).entry ∧ t'.fids.next = t.fids.next + 1 := by
  -- what is on a list has an older address
  have hlt : ∀ {c q}, q ∈ ls c → q ≠ t.fids.next := fun hq =>
    (lt_next_of_bucket ((h.mem _ _).mp hq)).ne
  have hlinks : ∀ {c q}, q ∈ ls c → (t.withNew n).links q = t.links q := fun hq => by
    rw [links, get_withNew_of_ne (hlt hq), links]
  have hd : DList (t.withNew n).links ((t.withNew n).htable (hash n)) (ls (hash n)) := by
    rw [Fidtable.withNew, htable_write]
    exact (h.list (hash n)).congr fun q hq => hlinks hq
  have hs : ((t.withNew n).fids.get t.fids.next).isSome := by
    rw [get_withNew_next]
    rfl
  have hnot : t.fids.next ∉ ls (hash n) := fun hm => hlt hm rfl
  have hr := relinked_toFront (p := t.fids.next) hd
  refine ⟨_, linkFid_eq hs hd, ?_, hr.entry, ?_⟩
  · refine h.update ?_ (fun c hc => ?_) (fun c hc q hq => ?_) (fun q => ?_) fun c hc q => ?_
    · rw [htable_putHead_self]
      exact dList_toFront hd hnot hs
    · rw [hr.htable c hc, Fidtable.withNew, htable_write]
    · -- a fid of another bucket is not on this list
      have hqb : q ∉ t.fids.next :: ls (hash n) := by
        rw [List.mem_cons, not_or]
        refine ⟨hlt hq, fun hqb => hc ?_⟩
        exact Option.some.inj (((h.mem c q).mp hq).symm.trans ((h.mem _ q).mp hqb))
      rw [hr.links q hqb, hlinks hq]
    · rw [bucket, hr.entry, entry]
      rcases eq_or_ne q t.fids.next with rfl | hq
      · simp [get_withNew_next]
      · rw [List.mem_cons, or_iff_right hq, h.mem, get_withNew_of_ne hq]
        rfl
    · rw [bucket, hr.entry, entry]
      rcases eq_or_ne q t.fids.next with rfl | hq
      · rw [get_withNew_next]
        refine ⟨fun hb => absurd (Option.some.inj hb).symm hc, fun hb => ?_⟩
        exact absurd (lt_next_of_bucket hb) (lt_irrefl _)
      · rw [get_withNew_of_ne hq]
        rfl
  · rw [hr.next, Fidtable.withNew, next_write]
    rfl

theorem Models.make (h : t.Models P) (mem : Bool) (hn : P.lookup n = none) : ∃ r t',
    makeFid mem n t = (.ok r, t') ∧ Fidans.ofExcept r = (P.make mem n).1 ∧
    t'.Models (P.make mem n).2 := by
  rcases mem with _ | _
  · exact ⟨_, t, rfl, rfl, h⟩
  · obtain ⟨ls, hls⟩ := h.lists
    obtain ⟨t', ht', hl', he, hx⟩ := hls.withNew n
    have hget : ∀ q, q ≠ P.next → (P.create n).get q = P.get q := fun q hq =>
      FidPool.get_create_of_ne hq n
    refine ⟨.ok t.fids.next, t', ?_, ?_, ⟨_, hl'⟩, ?_, fun q => ?_, ?_⟩
    · exact makeFid_eq ht'
    · rw [FidPool.make, if_pos rfl, h.next]
      rfl
    · rw [hx, ← h.next]
      rfl
    · rw [he]
      rcases eq_or_ne q t.fids.next with rfl | hq
      · rw [Fidtable.entry, get_withNew_next, ← h.next]
        simp [FidPool.make]
      · rw [Fidtable.entry, get_withNew_of_ne hq]
        exact (h.entry q).trans (by rw [FidPool.make, if_pos rfl, hget q (h.next ▸ hq)])
    · -- a fid with the same number would have been found
      intro p q f g hp hq hf hg hfg
      have hp : (P.create n).get p = some f := hp
      have hq : (P.create n).get q = some g := hq
      have hold : ∀ {q g}, q ≠ P.next → (P.create n).get q = some g → g.zombie = false →
          g.fid ≠ n := by
        intro q g hq' hq hg hgn
        rw [hget q hq'] at hq
        rw [FidPool.lookup_eq_none.mp hn q g hq hgn] at hg
        cases hg
      have hnew : ∀ {g}, (P.create n).get P.next = some g → g.fid = n := by
        intro g hg
        rw [FidPool.get_create_next] at hg
        rw [← Option.some.inj hg]
      rcases eq_or_ne p P.next with rfl | hp' <;> rcases eq_or_ne q P.next with rfl | hq'
      · rfl
      · exact absurd (hfg ▸ hnew hp) (hold hq' hq hg)
      · exact absurd (hfg.symm ▸ hnew hq) (hold hp' hp hf)
      · exact h.single p q f g (hget p hp' ▸ hp) (hget q hq' ▸ hq) hf hg hfg

/-! ### References that go -/

theorem isSome_of_entry (h : t'.entry q = t.entry q) :
    (t'.fids.get q).isSome = (t.fids.get q).isSome := by
  have := congrArg Option.isSome h
  rwa [Fidtable.entry, Fidtable.entry, Option.isSome_map, Option.isSome_map] at this

theorem Lists.unlink (h : t.Lists ls) (hp : t.bucket p = some b) : ∃ t',
    (do unlinkFid b p; destroyFid p; pure true : Prog Fidtable Bool) t = (.ok true, t') ∧
    t'.Lists (Function.update ls b ((ls b).erase p)) ∧ t'.entry p = none ∧
    (∀ q, q ≠ p → t'.entry q = t.entry q) ∧ t'.fids.next = t.fids.next := by
  have hpb : p ∈ ls b := (h.mem b p).mpr hp
  obtain ⟨t₁, ht₁, hr, hd⟩ := unlinkFid_spec (h.list b) hpb
  have hsome : (t₁.fids.get p).isSome := by
    rw [isSome_of_entry (congrFun hr.entry p)]
    exact isSome_of_mem (h.list b) hpb
  obtain ⟨f, hf⟩ := Option.isSome_iff_exists.mp hsome
  -- nothing leads to the fid when its memory is freed
  set t₂ : Fidtable := ⟨t₁.fids.free p, t₁.htable⟩ with ht₂
  have hfree : destroyFid p t₁ = (.ok (), t₂) := by
    rw [destroyFid, bind_of_ok (deref_of_get hf)]
    rfl
  have hself : t₂.fids.get p = none := Heap.get_free_self ..
  have hget : ∀ q, q ≠ p → t₂.fids.get q = t₁.fids.get q := fun q hq => Heap.get_free_of_ne hq
  have he : ∀ q, q ≠ p → t₂.entry q = t.entry q := fun q hq => by
    rw [← hr.entry, entry, hget q hq, entry]
  have hpm : p ∉ (ls b).erase p := fun hm => ((h.list b).nodup.mem_erase_iff.mp hm).1 rfl
  refine ⟨t₂, by rw [bind_of_ok ht₁, bind_of_ok hfree]; rfl, ?_, ?_, he, hr.next⟩
  · refine h.update (b := b) ?_ (fun c hc => hr.htable c hc) (fun c hc q hq => ?_) (fun q => ?_)
      fun c hc q => ?_
    · refine hd.congr fun q hq => ?_
      rw [links, hget q fun hqp => hpm (hqp ▸ hq), links]
    · have hqb : q ∉ ls b := fun hqb => hc
        (Option.some.inj (((h.mem c q).mp hq).symm.trans ((h.mem b q).mp hqb)))
      rw [links, hget q fun hqp => hqb (hqp ▸ hpb), ← links, hr.links q hqb]
    · rcases eq_or_ne q p with rfl | hq
      · simp [hpm, bucket, entry, hself]
      · rw [(h.list b).nodup.mem_erase_iff, and_iff_right hq, h.mem, bucket, bucket, he q hq]
    · rcases eq_or_ne q p with rfl | hq
      · rw [bucket, entry, hself, hp]
        exact ⟨fun hn => (by cases hn), fun hn => absurd (Option.some.inj hn).symm hc⟩
      · rw [bucket, bucket, he q hq]
  · rw [entry, hself]
    rfl

theorem Models.get (h : t.Models P) (hp : P.get p = some f) : ∃ x,
    t.fids.get p = some x ∧ x.fid = f.fid ∧ x.refcount = f.refcount := by
  have he := h.entry p
  rw [hp, Option.map_some] at he
  obtain ⟨x, hx, hk⟩ := Option.map_eq_some_iff.mp he
  obtain ⟨h₁, h₂⟩ := Prod.mk.inj hk
  exact ⟨x, hx, h₁, (Prod.mk.inj h₂).1⟩

/-- The lowered count, and the end of a fid that has lost its last reference. -/
theorem Models.drop (h : t.Models P) (hp : P.get p = some f) : ∃ t₁ t' x,
    Fidtable.lower p t = (.ok ((f.refcount : ℤ) - 1), t₁) ∧ t₁.fids.get p = some x ∧
    x.fid = f.fid ∧
    lastRef (hash f.fid) p ((f.refcount : ℤ) - 1) t₁ = (.ok (decide (f.refcount = 1)), t') ∧
    t'.Models (P.decref p) := by
  obtain ⟨x, hx, hxf, hxr⟩ := h.get hp
  set t₁ := t.write (some p) fun f => { f with refcount := f.refcount - 1 } with ht₁
  have hlow : Fidtable.lower p t = (.ok ((f.refcount : ℤ) - 1), t₁) := by
    rw [Fidtable.lower, bind_of_ok (deref_of_get hx), bind_of_ok (set_eq _ (by rw [hx]; rfl)), hxr]
    rfl
  have hx₁ : t₁.fids.get p = some { x with refcount := x.refcount - 1 } := by
    rw [ht₁, get_write, hx, Option.map_some, if_pos rfl]
  by_cases hf : f.refcount = 1
  · obtain ⟨ls, hls⟩ := h.lists
    have hls₁ : t₁.Lists ls := hls.write fun _ => ⟨rfl, rfl, rfl⟩
    obtain ⟨t', ht', hl', hself, he, hn⟩ := hls₁.unlink (p := p) (b := hash f.fid) (by
      rw [bucket, Fidtable.entry, hx₁, Option.map_some, Option.map_some, hxf])
    refine ⟨t₁, t', _, hlow, hx₁, hxf, ?_, ⟨_, hl'⟩, ?_, fun q => ?_,
      h.single.mono fun q g hg => ?_⟩
    · rw [lastRef, if_pos (by rw [hf]; rfl), ht', decide_eq_true hf]
    · rw [FidPool.next_decref, h.next, hn, ht₁, next_write]
    · rcases eq_or_ne q p with rfl | hq
      · rw [hself, FidPool.get_decref_last hp hf]
        rfl
      · rw [he q hq, FidPool.get_decref_of_ne hq, ← h.entry, Fidtable.entry, ht₁,
          get_write_of_ne (by simpa using hq.symm), Fidtable.entry]
    · rcases eq_or_ne q p with rfl | hq
      · rw [FidPool.get_decref_last hp hf] at hg
        cases hg
      · exact ⟨g, by rwa [FidPool.get_decref_of_ne hq] at hg, rfl, id⟩
  · refine ⟨t₁, t₁, _, hlow, hx₁, hxf, ?_, h.lower hp hf⟩
    have := P.pos p f hp
    rw [lastRef, if_neg (by omega), decide_eq_false hf]
    rfl

end Fidtable

/-! ### Any operation -/

/-- The operation is on fids that there are. -/
def Fidop.Live (P : FidPool) : Fidop → Prop
  | .incref p | .decref p => P.get p ≠ none
  | _ => True

namespace Fidtable

variable {t : Fidtable} {P : FidPool}

theorem Models.find (h : t.Models P) (loose : Bool) (n : UInt32) :
    ∃ r t', npFidFind n t = (.ok r, t') ∧
      r.elim .null .fid = (P.run loose (.find n)).1 ∧ t'.Models (P.run loose (.find n)).2 := by
  obtain ⟨t₁, ht₁, h₁⟩ := h.lookup n
  rw [npFidFind, bind_of_ok ht₁, FidPool.run]
  rcases hl : P.lookup n with _ | ⟨p, f⟩
  · exact ⟨none, t₁, rfl, rfl, h₁⟩
  · have hp : P.get p ≠ none := by simp [(FidPool.get_of_lookup hl).1]
    obtain ⟨t₂, ht₂, h₂⟩ := h₁.incref hp
    refine ⟨some p, t₂, ?_, rfl, h₂⟩
    rw [Option.map_some]
    exact bind_of_ok ht₂

theorem Models.create (h : t.Models P) (loose mem : Bool) (n : UInt32) : ∃ r t',
    npFidCreate loose mem n t = (.ok r, t') ∧
    Fidans.ofExcept r = (P.run loose (.create n mem)).1 ∧
    t'.Models (P.run loose (.create n mem)).2 := by
  obtain ⟨t₁, ht₁, h₁⟩ := h.lookup n
  rw [npFidCreate, bind_of_ok ht₁, FidPool.run]
  rcases hl : P.lookup n with _ | ⟨p, f⟩
  · exact h₁.make mem hl
  · have hp := FidPool.get_of_lookup hl
    rcases loose with _ | _
    · exact ⟨_, t₁, rfl, rfl, h₁⟩
    · obtain ⟨t₂, ht₂, h₂⟩ := h₁.zombie (p := p) (by simp [hp.1])
      -- the fid that had the number was the only one
      have hn : (P.update p ({ · with zombie := true })).lookup n = none := by
        rw [FidPool.lookup_eq_none]
        intro q g hq hg
        rw [FidPool.get_update] at hq
        obtain ⟨x, hx, rfl⟩ := Option.map_eq_some_iff.mp hq
        by_cases hpq : p = q
        · rw [if_pos hpq]
        · rw [if_neg hpq] at hg ⊢
          by_contra hz
          exact hpq (h.single p q f x hp.1 hx hp.2.2 (by simpa using hz) (hp.2.1.trans hg.symm))
      obtain ⟨r, t₃, ht₃, hr, h₃⟩ := h₂.make mem hn
      exact ⟨r, t₃, (bind_of_ok ht₂).trans ht₃, hr, h₃⟩

/-- **The table does what the map does**, operation by operation. -/
theorem Models.run (h : t.Models P) (loose : Bool) {a : Fidop} (ha : a.Live P) : ∃ t',
    Fidtable.run loose a t = (.ok (P.run loose a).1, t') ∧ t'.Models (P.run loose a).2 := by
  rcases a with n | ⟨n, mem⟩ | p | p | n
  · obtain ⟨r, t', ht', hr, h'⟩ := h.find loose n
    exact ⟨t', by rw [Fidtable.run, bind_of_ok ht', ← hr]; rfl, h'⟩
  · obtain ⟨r, t', ht', hr, h'⟩ := h.create loose mem n
    exact ⟨t', by rw [Fidtable.run, bind_of_ok ht', ← hr]; rfl, h'⟩
  · obtain ⟨t', ht', h'⟩ := h.incref ha
    exact ⟨t', bind_of_ok ht', h'⟩
  · obtain ⟨f, hf⟩ := Option.ne_none_iff_exists'.mp ha
    obtain ⟨t₁, t', x, hlow, hx, hxf, hlast, h'⟩ := h.drop hf
    refine ⟨t', ?_, h'⟩
    have hd : npFidDecref p t = (.ok (decide (f.refcount = 1)), t') := by
      rw [npFidDecref, bind_of_ok hlow, bind_of_ok (deref_of_get hx), hxf, hlast]
    rw [Fidtable.run, bind_of_ok hd, FidPool.run, FidPool.drop, hf]
    rfl
  · obtain ⟨t₁, ht₁, h₁⟩ := h.lookup n
    rw [Fidtable.run, FidPool.run]
    rcases hl : P.lookup n with _ | ⟨p, f⟩
    · rw [hl] at ht₁
      have hd : npFidDecrefBynum n t = (.ok (none, false), t₁) := by
        rw [npFidDecrefBynum, bind_of_ok ht₁]
        rfl
      exact ⟨t₁, by rw [bind_of_ok hd]; rfl, h₁⟩
    · rw [hl] at ht₁
      obtain ⟨hp, hn, -⟩ := FidPool.get_of_lookup hl
      obtain ⟨t₂, t', x, hlow, hx, hxf, hlast, h'⟩ := h₁.drop hp
      have hd : npFidDecrefBynum n t = (.ok (some p, decide (f.refcount = 1)), t') := by
        rw [npFidDecrefBynum, bind_of_ok ht₁]
        exact (bind_of_ok hlow).trans ((bind_of_ok (hn ▸ hlast)).trans rfl)
      refine ⟨t', ?_, h'⟩
      rw [bind_of_ok hd]
      dsimp only [FidPool.drop]
      rw [hp]
      rfl

end Fidtable

/-! ### Runs -/

/-- A table, the map it should be, and what has been done: the references that callers
have, the fids that were made, with their numbers, and those that were destroyed. -/
structure Fidrun where
  tab : Fidtable := .empty
  map : FidPool := .empty
  held : List ℕ := []
  created : List (ℕ × UInt32) := []
  destroyed : List ℕ := []

namespace Fidrun

/-- The references that callers have after an answer. -/
def heldAfter (held : List ℕ) : Fidans → List ℕ
  | .fid p => p :: held
  | .dropped p _ => held.erase p
  | _ => held

/-- The fids that were made. -/
def createdAfter (created : List (ℕ × UInt32)) : Fidop → Fidans → List (ℕ × UInt32)
  | .create n _, .fid p => (p, n) :: created
  | _, _ => created

/-- The fids that were destroyed. -/
def destroyedAfter (destroyed : List ℕ) : Fidans → List ℕ
  | .dropped p true => p :: destroyed
  | _ => destroyed

/-- One operation. There is no next state when a pointer that leads nowhere is followed. -/
def step (loose : Bool) (s : Fidrun) (a : Fidop) : Option Fidrun :=
  match Fidtable.run loose a s.tab with
  | (.ok r, t) => some
    { tab := t
      map := (s.map.run loose a).2
      held := heldAfter s.held r
      created := createdAfter s.created a r
      destroyed := destroyedAfter s.destroyed r }
  | _ => none

/-- **Callers use only references they have.** -/
def Holding (s : Fidrun) : Fidop → Prop
  | .incref p | .decref p => p ∈ s.held
  | _ => True

instance (s : Fidrun) (a : Fidop) : Decidable (s.Holding a) :=
  match a with
  | .incref p | .decref p => inferInstanceAs (Decidable (p ∈ s.held))
  | .find _ | .create .. | .decrefBynum _ => isTrue trivial

end Fidrun

/-! ### The record of a run -/

namespace FidPool

variable {P P' : FidPool} {held destroyed : List ℕ} {created : List (ℕ × UInt32)} {p : ℕ}
  {n : UInt32}

/-- The number of a fid of the map. -/
def num (P : FidPool) (p : ℕ) : Option UInt32 := (P.get p).map (·.fid)

/-- **The record is right**: a fid is referenced as often as there are references, it is there
from when it is made until it is destroyed, and those that are there are as many as were
made and not destroyed. -/
structure Recorded (P : FidPool) (held : List ℕ) (created : List (ℕ × UInt32))
    (destroyed : List ℕ) : Prop where
  refs : ∀ p, (P.refs p).getD 0 = held.count p
  num : ∀ p n, P.num p = some n ↔ (p, n) ∈ created ∧ p ∉ destroyed
  old : (∀ x ∈ created, x.1 < P.next) ∧ ∀ p ∈ destroyed, p < P.next
  total : ∃ l : List ℕ, l.Nodup ∧ (∀ p, p ∈ l ↔ P.num p ≠ none) ∧
    l.length + destroyed.length = created.length

theorem recorded_empty : empty.Recorded [] [] [] where
  refs _ := rfl
  num p n := by simp [num, get, empty, Heap.empty]
  old := by simp
  total := ⟨[], List.nodup_nil, by simp [num, get, empty, Heap.empty], rfl⟩

theorem Recorded.get_of_held (h : P.Recorded held created destroyed) (hp : p ∈ held) :
    P.get p ≠ none := by
  intro hn
  have hc := h.refs p
  rw [FidPool.refs, hn] at hc
  exact absurd (List.count_pos_iff.mpr hp) (by rw [← hc]; exact lt_irrefl 0)

variable {f : Npfid}

theorem num_of_get (h : P.get p = some f) : P.num p = some f.fid := by
  rw [num, h, Option.map_some]

/-- A fid becomes a zombie. -/
theorem Recorded.update (h : P.Recorded held created destroyed) (g : Npfid → Npfid) :
    (P.update p g).Recorded held created destroyed := by
  have hn : (P.update p g).num = P.num := by
    funext q
    rw [FidPool.num, get_update, FidPool.num, Option.map_map]
    congr 1
    funext f
    dsimp only [Function.comp]
    split <;> rfl
  exact ⟨fun q => by rw [refs_update, h.refs], fun q m => by rw [hn, h.num], h.old, hn ▸ h.total⟩

/-- Someone gets a reference. -/
theorem Recorded.incref (h : P.Recorded held created destroyed) (hp : P.get p ≠ none) :
    (P.incref p).Recorded (p :: held) created destroyed := by
  obtain ⟨f, hf⟩ := Option.ne_none_iff_exists'.mp hp
  have hn : (P.incref p).num = P.num := by
    funext q
    rw [FidPool.num, get_incref, FidPool.num, Option.map_map]
    congr 1
    funext f
    dsimp only [Function.comp]
    split <;> rfl
  refine ⟨fun q => ?_, fun q m => by rw [hn, h.num], h.old, hn ▸ h.total⟩
  rw [refs_incref hf, List.count_cons]
  rcases eq_or_ne q p with rfl | hq
  · rw [if_pos rfl, ← h.refs, FidPool.refs, hf]
    simp
  · rw [if_neg hq, h.refs]
    simp [hq.symm]

/-- A fid is made, and someone has it. -/
theorem Recorded.create (h : P.Recorded held created destroyed) (n : UInt32) :
    (P.create n).Recorded (P.next :: held) ((P.next, n) :: created) destroyed := by
  have hnew : P.num P.next = none := by rw [FidPool.num, P.get_next, Option.map_none]
  have hself : (P.create n).num P.next = some n := by
    rw [FidPool.num, get_create_next, Option.map_some]
  have hother : ∀ q, q ≠ P.next → (P.create n).num q = P.num q := fun q hq => by
    rw [FidPool.num, get_create_of_ne hq, FidPool.num]
  -- an address is used once, so the new fid is in neither list
  have hd : P.next ∉ destroyed := fun hm => absurd (h.old.2 _ hm) (lt_irrefl _)
  refine ⟨fun q => ?_, fun q m => ?_, ⟨fun x hx => ?_, fun q hq => ?_⟩, ?_⟩
  · rw [List.count_cons]
    rcases eq_or_ne q P.next with rfl | hq
    · rw [← h.refs, FidPool.refs, get_create_next, FidPool.refs, P.get_next]
      simp
    · rw [← h.refs, FidPool.refs, get_create_of_ne hq, FidPool.refs]
      simp [hq.symm]
  · rcases eq_or_ne q P.next with rfl | hq
    · have hc : (P.next, m) ∉ created := fun hm => absurd (h.old.1 _ hm) (lt_irrefl _)
      rw [hself]
      simp [hd, hc, eq_comm]
    · rw [hother q hq, h.num]
      simp [hq]
  · rw [next_create]
    rcases List.mem_cons.mp hx with rfl | hx
    · exact Nat.lt_succ_self _
    · exact Nat.lt_succ_of_lt (h.old.1 x hx)
  · exact Nat.lt_succ_of_lt (h.old.2 q hq)
  · obtain ⟨l, hl, hm, hlen⟩ := h.total
    refine ⟨P.next :: l, List.nodup_cons.mpr ⟨fun hx => (hm _).mp hx hnew, hl⟩, fun q => ?_, ?_⟩
    · rcases eq_or_ne q P.next with rfl | hq
      · simp [hself]
      · rw [List.mem_cons, or_iff_right hq, hm, hother q hq]
    · rw [List.length_cons, List.length_cons]
      omega

/-- A reference is given back, the last one or not. -/
theorem Recorded.decref (h : P.Recorded held created destroyed) (hp : P.get p = some f) :
    (P.decref p).Recorded (held.erase p) created
      (if f.refcount = 1 then p :: destroyed else destroyed) := by
  have hnum : P.num p = some f.fid := num_of_get hp
  have hpd : p ∉ destroyed := ((h.num p _).mp hnum).2
  have hlt : p < P.next := h.old.1 _ ((h.num p _).mp hnum).1
  have hother : ∀ q, q ≠ p → (P.decref p).num q = P.num q := fun q hq => by
    rw [FidPool.num, get_decref_of_ne hq, FidPool.num]
  have hcount : held.count p = f.refcount := by rw [← h.refs, FidPool.refs, hp]; rfl
  have hrefs : ∀ q, ((P.decref p).refs q).getD 0 = (held.erase p).count q := by
    intro q
    rcases eq_or_ne q p with rfl | hq
    · rw [List.count_erase_self, hcount, FidPool.refs]
      by_cases hf : f.refcount = 1
      · rw [get_decref_last hp hf, hf]
        rfl
      · rw [get_decref_self hp hf]
        rfl
    · rw [List.count_erase_of_ne hq, ← h.refs, refs_decref_of_ne hq]
  by_cases hf : f.refcount = 1
  · rw [if_pos hf]
    have hself : (P.decref p).num p = none := by
      rw [FidPool.num, get_decref_last hp hf, Option.map_none]
    refine ⟨hrefs, fun q m => ?_, ⟨fun x hx => ?_, fun q hq => ?_⟩, ?_⟩
    · rcases eq_or_ne q p with rfl | hq
      · rw [hself]
        simp
      · rw [hother q hq, h.num]
        simp [hq]
    · rw [next_decref]
      exact h.old.1 x hx
    · rw [next_decref]
      rcases List.mem_cons.mp hq with rfl | hq
      · exact hlt
      · exact h.old.2 q hq
    · obtain ⟨l, hl, hm, hlen⟩ := h.total
      refine ⟨l.erase p, hl.erase p, fun q => ?_, ?_⟩
      · rw [hl.mem_erase_iff]
        rcases eq_or_ne q p with rfl | hq
        · simp [hself]
        · rw [hm, hother q hq, and_iff_right hq]
      · -- one less is there, and one more is gone
        have hpl : p ∈ l := (hm p).mpr (by rw [hnum]; simp)
        have := List.length_pos_of_mem hpl
        rw [List.length_erase_of_mem hpl, List.length_cons]
        omega
  · rw [if_neg hf]
    have hn : (P.decref p).num = P.num := by
      funext q
      rcases eq_or_ne q p with rfl | hq
      · rw [FidPool.num, get_decref_self hp hf, hnum, Option.map_some]
      · exact hother q hq
    refine ⟨hrefs, fun q m => by rw [hn, h.num], ?_, hn ▸ h.total⟩
    rw [next_decref]
    exact h.old

theorem Recorded.drop (h : P.Recorded held created destroyed) (hp : P.get p = some f) :
    (P.drop p).2.Recorded (Fidrun.heldAfter held (P.drop p).1) created
      (Fidrun.destroyedAfter destroyed (P.drop p).1) := by
  have hd := h.decref hp
  rw [FidPool.drop, hp, Option.any_some]
  by_cases hf : f.refcount = 1
  · rw [if_pos hf] at hd
    rw [decide_eq_true hf]
    exact hd
  · rw [if_neg hf] at hd
    rw [decide_eq_false hf]
    exact hd

theorem Recorded.make (h : P.Recorded held created destroyed) (mem : Bool) (n : UInt32) :
    (P.make mem n).2.Recorded (Fidrun.heldAfter held (P.make mem n).1)
      (Fidrun.createdAfter created (.create n mem) (P.make mem n).1)
      (Fidrun.destroyedAfter destroyed (P.make mem n).1) := by
  rcases mem with _ | _
  · exact h
  · exact h.create n

/-- The record stays right, operation by operation. -/
theorem Recorded.run (h : P.Recorded held created destroyed) (loose : Bool) {a : Fidop}
    (ha : a.Live P) :
    (P.run loose a).2.Recorded (Fidrun.heldAfter held (P.run loose a).1)
      (Fidrun.createdAfter created a (P.run loose a).1)
      (Fidrun.destroyedAfter destroyed (P.run loose a).1) := by
  rcases a with n | ⟨n, mem⟩ | p | p | n
  · rw [FidPool.run]
    rcases hl : P.lookup n with _ | ⟨p, f⟩
    · exact h
    · exact h.incref (by simp [(get_of_lookup hl).1])
  · rw [FidPool.run]
    rcases hl : P.lookup n with _ | ⟨p, f⟩
    · exact h.make mem n
    · rcases loose with _ | _
      · exact h
      · exact (h.update _).make mem n
  · exact h.incref ha
  · obtain ⟨f, hf⟩ := Option.ne_none_iff_exists'.mp ha
    exact h.drop hf
  · rw [FidPool.run]
    rcases hl : P.lookup n with _ | ⟨p, f⟩
    · exact h
    · exact h.drop (get_of_lookup hl).1

end FidPool

/-! ### Counting -/

namespace Fidtable

variable {t : Fidtable} {P : FidPool} {ls : ℕ → List ℕ}

theorem countBuckets_eq (h : t.Lists ls) (b : ℕ) :
    countBuckets b t = (.ok ((List.range b).flatMap ls).length, t) := by
  induction b with
  | zero => rfl
  | succ b ih =>
    have hh : head b t = (.ok (t.htable b), t) := rfl
    have hr : (Prog.read : Prog Fidtable Fidtable) t = (.ok t, t) := rfl
    rw [countBuckets, bind_of_ok ih, bind_of_ok hh, bind_of_ok hr, (h.list b).head,
      countLoop_eq (h.list b).linked (h.length_le b), List.range_succ, List.flatMap_append,
      List.length_append]
    simp

theorem hash_lt (n : UInt32) : hash n < FID_HTABLE_SIZE.toNat := by
  rw [hash, UInt32.toNat_mod]
  exact Nat.mod_lt _ (by decide)

theorem Models.bucket (h : t.Models P) (p : ℕ) : t.bucket p = (P.num p).map hash := by
  rw [Fidtable.bucket, h.entry, FidPool.num, Option.map_map, Option.map_map]
  rfl

/-- **Each fid is counted once.** -/
theorem Models.count {l : List ℕ} (h : t.Models P) (hl : l.Nodup)
    (hm : ∀ p, p ∈ l ↔ P.num p ≠ none) : npFidpoolCount t = (.ok l.length, t) := by
  obtain ⟨ls, hls⟩ := h.lists
  rw [npFidpoolCount, countBuckets_eq hls]
  congr 2
  refine List.Perm.length_eq ((List.perm_ext_iff_of_nodup ?_ hl).mpr fun p => ?_)
  · rw [List.nodup_flatMap]
    refine ⟨fun b _ => (hls.list b).nodup, List.nodup_range.imp fun {b c} hbc p hb hc => hbc ?_⟩
    exact Option.some.inj (((hls.mem b p).mp hb).symm.trans ((hls.mem c p).mp hc))
  · rw [List.mem_flatMap, hm, ← Option.isSome_iff_ne_none]
    simp only [hls.mem, h.bucket, List.mem_range]
    rcases P.num p with _ | n
    · simp
    · simp [hash_lt]

end Fidtable

/-! ### What is so after any run -/

namespace Fidrun

variable {loose : Bool} {s : Fidrun}

/-- **What is so at any time.** -/
structure Inv (s : Fidrun) : Prop where
  models : s.tab.Models s.map
  recorded : s.map.Recorded s.held s.created s.destroyed

theorem inv_empty : Inv {} where
  models := ⟨⟨fun _ => [], fun _ => dList_nil, fun _ _ => by simp [Fidtable.bucket,
    Fidtable.entry, Fidtable.empty, Heap.empty]⟩, rfl, fun _ => rfl, fun _ _ _ _ h => by cases h⟩
  recorded := FidPool.recorded_empty

variable {a : Fidop}

theorem Inv.live (h : s.Inv) (ha : s.Holding a) : a.Live s.map := by
  rcases a with n | ⟨n, mem⟩ | p | p | n
  · trivial
  · trivial
  · exact h.recorded.get_of_held ha
  · exact h.recorded.get_of_held ha
  · trivial

theorem Inv.step {s' : Fidrun} (h : s.Inv) (ha : s.Holding a)
    (hs : s.step loose a = some s') : s'.Inv := by
  obtain ⟨t', ht', hm⟩ := h.models.run loose (h.live ha)
  rw [Fidrun.step, ht'] at hs
  obtain rfl := Option.some.inj hs
  exact ⟨hm, h.recorded.run loose (h.live ha)⟩

theorem inv_of_reaches (h : Reaches (Fidrun.step loose) Holding {} s) : s.Inv :=
  h.invariant inv_empty fun _ _ _ hi hc hs => hi.step hc hs

theorem Inv.find (h : s.Inv) (n : UInt32) : ∃ r t', Fidtable.npFidFind n s.tab = (.ok r, t') ∧
    ∀ p, r = some p ↔ s.tab.isNamed n p = true := by
  obtain ⟨t₁, ht₁, h₁⟩ := h.models.lookup n
  refine ⟨(s.map.lookup n).map Prod.fst, ?_⟩
  simp only [h.models.lookup_iff, implies_true, and_true]
  rw [Fidtable.npFidFind, bind_of_ok ht₁]
  rcases hl : s.map.lookup n with _ | ⟨p, f⟩
  · exact ⟨t₁, rfl⟩
  · have hp : s.map.get p ≠ none := by simp [(FidPool.get_of_lookup hl).1]
    obtain ⟨t₂, ht₂, -⟩ := h₁.incref hp
    exact ⟨t₂, bind_of_ok ht₂⟩

/-- The buckets, in terms of what has been done. -/
theorem Inv.mem_bucket (h : s.Inv) {ls : ℕ → List ℕ} (hls : s.tab.Lists ls) (b p : ℕ) :
    p ∈ ls b ↔ ∃ n, Fidtable.hash n = b ∧ (p, n) ∈ s.created ∧ p ∉ s.destroyed := by
  rw [hls.mem, h.models.bucket, Option.map_eq_some_iff]
  simp only [h.recorded.num]
  exact exists_congr fun n => and_comm

end Fidrun

/-- **The table of fids is a finite map**, after any operations of callers that give back only
references they have. Its buckets are doubly linked lists of the fids that were made and not
destroyed, each in the bucket of its number. A number has one fid at most that is not a
zombie, and `np_fid_find` gives that one or none. What `_lookup_fid` moves to the front is
neither lost nor doubled, and there are as many fids as were made and not destroyed. The
next operation comes back, with the answer that the map gives. -/
theorem fidtable_is_map (loose : Bool) {s : Fidrun}
    (h : Reaches (Fidrun.step loose) Fidrun.Holding {} s) :
    (∃ ls : ℕ → List ℕ, (∀ b, DList s.tab.links (s.tab.htable b) (ls b)) ∧
      (∀ b p, p ∈ ls b ↔
        ∃ n, Fidtable.hash n = b ∧ (p, n) ∈ s.created ∧ p ∉ s.destroyed) ∧
      ∀ n, ∃ r t' l', Fidtable.lookupFid n s.tab = (.ok r, t') ∧
        t'.Lists (Function.update ls (Fidtable.hash n) l') ∧ l'.Perm (ls (Fidtable.hash n))) ∧
    (∀ n p q, s.tab.isNamed n p = true → s.tab.isNamed n q = true → p = q) ∧
    (∀ n, ∃ r t', Fidtable.npFidFind n s.tab = (.ok r, t') ∧
      ∀ p, r = some p ↔ s.tab.isNamed n p = true) ∧
    (∃ k, Fidtable.npFidpoolCount s.tab = (.ok k, s.tab) ∧
      k + s.destroyed.length = s.created.length) ∧
    ∀ a, s.Holding a → ∃ t', Fidtable.run loose a s.tab = (.ok (s.map.run loose a).1, t') := by
  have hi := Fidrun.inv_of_reaches h
  refine ⟨?_, fun n p q hp hq => ?_, hi.find, ?_, fun a ha => ?_⟩
  · obtain ⟨ls, hls⟩ := hi.models.lists
    refine ⟨ls, hls.list, hi.mem_bucket hls, fun n => ?_⟩
    obtain ⟨t', l', ht', hl', hperm, -⟩ := Fidtable.lookupFid_spec hls n
    exact ⟨_, t', l', ht', hl', hperm⟩
  · have hp := (hi.models.lookup_iff n p).mpr hp
    have hq := (hi.models.lookup_iff n q).mpr hq
    exact Option.some.inj (hp.symm.trans hq)
  · obtain ⟨l, hl, hm, hlen⟩ := hi.recorded.total
    exact ⟨l.length, hi.models.count hl hm, hlen⟩
  · obtain ⟨t', ht', -⟩ := hi.models.run loose (hi.live ha)
    exact ⟨t', ht'⟩

/-- Two fids in one bucket; the one behind is looked up, and its number taken again. -/
theorem fidtable_is_map_zombie : ∃ s : Fidrun,
    Reaches (Fidrun.step true) Fidrun.Holding {} s ∧
    Fidtable.npFidpoolCount s.tab = (.ok 2, s.tab) := by
  have hrun : (runSteps (Fidrun.step true) {} [.create 1 true, .create 65 true, .find 1,
      .create 1 true, .decref 0, .decref 0]).map
        (fun s => (s.created, s.destroyed)) = some ([(2, 1), (1, 65), (0, 1)], [0]) := by
    decide +kernel
  have hmeets : runMeets (Fidrun.step true) (fun s a => decide (s.Holding a)) {}
      [.create 1 true, .create 65 true, .find 1, .create 1 true, .decref 0, .decref 0] = true := by
    decide +kernel
  obtain ⟨s, hs, he⟩ := Option.map_eq_some_iff.mp hrun
  obtain ⟨hc, hd⟩ := Prod.mk.inj he
  have hr := reaches_of_runSteps (fun _ _ => of_decide_eq_true) hs hmeets
  obtain ⟨k, hk, hlen⟩ := (fidtable_is_map true hr).2.2.2.1
  rw [hc, hd] at hlen
  obtain rfl : k = 2 := by simpa using hlen
  exact ⟨s, hr, hk⟩

end Diod
