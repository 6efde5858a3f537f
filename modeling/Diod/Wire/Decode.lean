import Mathlib.Data.List.Forall2
import Diod.Wire.Deserialize

/-!
# What the decoder accepts

The decoder is compared with the wire format. A reader that is *exact*
(`Diod.Decodes`) takes off the front of the bytes ahead of the cursor what a
decoder of the format takes, leaves the mark of an overflow where that decoder
refuses, and keeps a mark that is already there. Exactness goes through one field
after another (`Diod.Decodes.bind`), so it holds of the readers of integers,
strings and qids, of the arrays of a walk, and of lists of fields.

One reader is not exact. The count of a data block is a `u32` that is passed to
`buf_alloc` as an `int`: from `2³¹` upwards it is negative there, the check of
the size passes, and the cursor moves backwards. `Diod.Decodes` carries the bytes
on which that happens as an exception, and `Diod.Huge` is the exception for a
list of fields.
-/

namespace Diod

namespace Cbuf

/-- A packet with the cursor between `w` and `r`. -/
def mid (w r : Bytes) : Cbuf := ⟨w ++ r, w.length, (w ++ r).length⟩

/-- A packet with the mark of an overflow. -/
def past (mem : Bytes) : Cbuf := ⟨mem, mem.length + 1, mem.length⟩

end Cbuf

open Cbuf

variable {α α' β β' : Type}

/-- **Leaving by `goto error` or with the mark of an overflow.** -/
def Fails (mem : Bytes) (o : Option (α × Cbuf)) : Prop := ∀ x ∈ o, x.2 = past mem

variable {mem w r pkt : Bytes} {x : BufM α} {f : α → BufM β} {b : Cbuf} {n : ℕ}
  {V : Bytes → α → β → Prop} {c : Codec β} {ks : List Kind} {size : UInt32} {type : UInt8}
  {tag : UInt16} {t : MsgType} {fc : Npfcall}

theorem fails_bind
    (hx : Fails mem (x b)) (hf : ∀ a, Fails mem (f a (past mem))) : Fails mem ((x >>= f) b) := by
  rintro y hy
  obtain ⟨⟨a, b'⟩, ha, hy⟩ := Option.bind_eq_some_iff.mp hy
  obtain rfl : b' = past mem := hx _ ha
  exact hf a y hy

theorem fails_map {g : α → β} (hx : Fails mem (x b)) : Fails mem ((g <$> x) b) := by
  rw [map_eq_pure_bind]
  exact fails_bind hx fun _ => by rintro _ ⟨⟩; rfl

/-! ### Exact readers -/

/-- **A reader that is exact**, up to the exceptions `H`: `V` relates what it
returns, a value with pointers into the packet, to the value of the format. -/
structure Decodes (x : BufM α) (dec : Bytes → Option (β × Bytes)) (V : Bytes → α → β → Prop)
    (H : Bytes → Prop) : Prop where
  some : ∀ {w r r' v}, (w ++ r).length < 2147483648 → dec r = some (v, r') →
    ∃ a w', x (mid w r) = some (a, mid w' r') ∧ w' ++ r' = w ++ r ∧ V (w ++ r) a v
  none : ∀ {w r}, (w ++ r).length < 2147483648 → dec r = none → ¬H r →
    Fails (w ++ r) (x (mid w r))
  past : ∀ mem, Fails mem (x (past mem))

namespace Decodes

variable {x : BufM α} {dec : Bytes → Option (β × Bytes)} {V : Bytes → α → β → Prop}
  {H : Bytes → Prop}

theorem pure (a : α) (v : β) (hV : ∀ mem, V mem a v) :
    Decodes (Pure.pure a) (fun r => Option.some (v, r)) V fun _ => False where
  some {w r r' v'} _ h := by
    obtain ⟨rfl, rfl⟩ := Prod.mk.inj (Option.some.inj h)
    exact ⟨a, w, rfl, rfl, hV _⟩
  none _ h := by cases h
  past mem := by rintro _ ⟨⟩; rfl

/-- `goto error` -/
theorem failure : Decodes (failure : BufM α) (fun _ => (Option.none : Option (β × Bytes))) V H where
  some _ h := by cases h
  none _ _ _ := by rintro _ ⟨⟩
  past _ := by rintro _ ⟨⟩

/-- Saying less about the value read. -/
theorem mono {V' : Bytes → α → β → Prop} (hx : Decodes x dec V H)
    (hV : ∀ mem a v, V mem a v → V' mem a v) : Decodes x dec V' H where
  some hl h := by
    obtain ⟨a, w', hxa, hm, hV'⟩ := hx.some hl h
    exact ⟨a, w', hxa, hm, hV _ a _ hV'⟩
  none := hx.none
  past := hx.past

variable {V' : Bytes → α' → β' → Prop}

/-- **One reader after another.** -/
theorem bind {f : α → BufM α'} {d : β → Bytes → Option (β' × Bytes)}
    {G : β → Bytes → Prop} (hx : Decodes x dec V H) (hf : ∀ mem a v, V mem a v →
      Decodes (f a) (d v) (fun m c u => m = mem → V' m c u) (G v))
    (ho : ∀ mem a, Fails mem (f a (Cbuf.past mem))) :
    Decodes (x >>= f) (fun r => (dec r).bind fun p => d p.1 p.2) V'
      fun r => H r ∨ ∃ v r', dec r = Option.some (v, r') ∧ G v r' where
  some {w r r' u} hl h := by
    obtain ⟨⟨v, r₁⟩, hv, hu⟩ := Option.bind_eq_some_iff.mp h
    obtain ⟨a, w₁, hxa, hm, hV⟩ := hx.some hl hv
    obtain ⟨c, w₂, hfc, hm', hV'⟩ := (hf _ a v hV).some (by rw [hm]; exact hl) hu
    refine ⟨c, w₂, ?_, hm'.trans hm, ?_⟩
    · change (x (mid w r)).bind _ = _
      rw [hxa]
      exact hfc
    · rw [hm] at hV'
      exact hV' rfl
  none {w r} hl h hH := by
    rcases hv : dec r with _ | p
    · exact fails_bind (hx.none hl hv fun h => hH (.inl h)) (ho _)
    · obtain ⟨v, r₁⟩ := p
      rw [hv, Option.bind_some] at h
      obtain ⟨a, w₁, hxa, hm, hV⟩ := hx.some hl hv
      have hn := (hf _ a v hV).none (by rw [hm]; exact hl) h fun h => hH (.inr ⟨v, r₁, hv, h⟩)
      change Fails _ ((x (mid w r)).bind _)
      rw [hxa, ← hm]
      exact hn
  past mem := fails_bind (hx.past mem) (ho mem)

/-- Reading the same value in another form. -/
theorem conv (hx : Decodes x dec V H) (g : α → α') (g' : β → β')
    (hV : ∀ mem a v, V mem a v → V' mem (g a) (g' v)) :
    Decodes (g <$> x) (fun r => (dec r).map fun p => (g' p.1, p.2)) V' H where
  some {w r r' u} hl h := by
    obtain ⟨⟨v, r₁⟩, hv, hu⟩ := Option.map_eq_some_iff.mp h
    obtain ⟨rfl, rfl⟩ := Prod.mk.inj hu
    obtain ⟨a, w₁, hxa, hm, hV₁⟩ := hx.some hl hv
    refine ⟨g a, w₁, ?_, hm, hV _ a v hV₁⟩
    change (x (mid w r)).bind _ = _
    rw [hxa]
    rfl
  none hl h hH := fails_map (hx.none hl (Option.map_eq_none_iff.mp h) hH)
  past mem := fails_map (hx.past mem)

/-- Fewer exceptions, and the same decoder written differently. -/
theorem congr {dec' : Bytes → Option (β × Bytes)} {H' : Bytes → Prop} (hx : Decodes x dec V H)
    (hd : ∀ r, dec' r = dec r) (hH : ∀ r, H r → H' r) : Decodes x dec' V H' where
  some hl h := hx.some hl ((hd _).symm.trans h)
  none hl h hn := hx.none hl ((hd _).symm.trans h) fun h => hn (hH _ h)
  past := hx.past

end Decodes

/-! ### Fields with pointers -/

namespace Val

/-- The field that a field with pointers stands for. -/
def view (pkt : Bytes) : Val Npstr (Option ℤ) → Val Bytes Bytes :=
  map (Npstr.view pkt) fun n p => window pkt p n

/-- Every string and every block of a field lies inside the packet. -/
def Inside (size : ℕ) : Val Npstr (Option ℤ) → Prop
  | .int _ => True
  | .str s => Diod.Inside size s.str s.len.toNat
  | .data n p => Diod.Inside size p n
  | .names l => ∀ s ∈ l, Diod.Inside size s.str s.len.toNat
  | .qids _ => True

/-- A field with pointers stands for a field, and points into the packet. -/
def Shows (pkt : Bytes) (a : Val Npstr (Option ℤ)) (v : Val Bytes Bytes) : Prop :=
  a.view pkt = v ∧ a.Inside pkt.length

end Val

/-! ### The readers of one field -/

theorem bufCheckSize_mid (h : n ≤ r.length) : bufCheckSize n (mid w r) = some (true, mid w r) := by
  have hn : ¬((w.length : ℤ) + n > ((w ++ r).length : ℕ)) := by simp; omega
  exact if_neg hn

theorem bufCheckSize_mid_lt (h : r.length < n) :
    bufCheckSize n (mid w r) = some (false, past (w ++ r)) := by
  have hn : (w.length : ℤ) + n > ((w ++ r).length : ℕ) := by simp; omega
  have hp : (w.length : ℤ) ≤ ((w ++ r).length : ℕ) := by simp
  refine (if_pos hn).trans ?_
  exact congrArg (fun b => some (false, b)) (if_pos hp)

theorem bufCheckSize_past : bufCheckSize n (past mem) = some (false, past mem) := by
  have hn : (mem.length : ℤ) + 1 + n > mem.length := by omega
  have hp : ¬((mem.length : ℤ) + 1 ≤ mem.length) := by omega
  refine (if_pos hn).trans ?_
  exact congrArg (fun b => some (false, b)) (if_neg hp)

theorem bufGetInt_mid (h : n ≤ r.length) :
    bufGetInt n (mid w r) = some (leNat (r.take n), mid (w ++ r.take n) (r.drop n)) := by
  rw [bufGetInt, bufM_bind (bufCheckSize_mid h), ← orBytes_eq_leNat]
  change some (orBytes (((w ++ r).drop w.length).take n), _) = _
  simp [mid, h]

theorem bufGetInt_mid_lt (h : r.length < n) : bufGetInt n (mid w r) = some (0, past (w ++ r)) := by
  rw [bufGetInt, bufM_bind (bufCheckSize_mid_lt h)]
  rfl

theorem bufGetInt_past : bufGetInt n (past mem) = some (0, past mem) := by
  rw [bufGetInt, bufM_bind bufCheckSize_past]
  rfl

theorem decodes_bufGetInt (n : ℕ) : Decodes (bufGetInt n) (Codec.nat n).dec
    (fun _ a v => a = v ∧ v < 256 ^ n) fun _ => False where
  some {w r r' v} _ h := by
    have hv : v < 256 ^ n := ((Codec.nat n).enc_of_dec h).2
    obtain ⟨hn, rfl, rfl⟩ := Codec.nat_dec_eq_some.mp h
    exact ⟨_, _, bufGetInt_mid hn, by simp, rfl, hv⟩
  none {w r} _ h _ := by
    rw [bufGetInt_mid_lt (Codec.nat_dec_eq_none.mp h)]
    rintro _ ⟨⟩
    rfl
  past mem := by
    rw [bufGetInt_past]
    rintro _ ⟨⟩
    rfl

theorem decodes_bufAlloc (n : ℕ) : Decodes (bufAlloc n) (splitFront n)
    (fun mem a d => window mem a n = d ∧ Inside mem.length a n) fun _ => False where
  some {w r r' v} _ h := by
    obtain ⟨rfl, rfl⟩ := splitFront_eq_some h
    rw [bufAlloc, bufM_bind (bufCheckSize_mid (by simp))]
    refine ⟨some w.length, w ++ v, ?_, by simp, ?_, w.length, rfl, by omega, by simp⟩
    · change some (_, _) = _
      simp [mid]
    · simp [window]
  none {w r} _ h _ := by
    rw [bufAlloc, bufM_bind (bufCheckSize_mid_lt (splitFront_eq_none.mp h))]
    rintro _ ⟨⟩
    rfl
  past mem := by
    rw [bufAlloc, bufM_bind bufCheckSize_past]
    rintro _ ⟨⟩
    rfl

theorem decodes_bufGetInt16 : Decodes bufGetInt16 (Codec.nat 2).dec (fun _ a v => a.toNat = v)
    fun _ => False :=
  ((decodes_bufGetInt 2).conv UInt16.ofNat id fun _ a v h => by
    obtain ⟨rfl, ha⟩ := h
    exact UInt16.toNat_ofNat_of_lt' ha).congr (fun r => by simp) fun _ h => h

theorem decodes_bufGetInt32 : Decodes bufGetInt32 (Codec.nat 4).dec (fun _ a v => a.toNat = v)
    fun _ => False :=
  ((decodes_bufGetInt 4).conv UInt32.ofNat id fun _ a v h => by
    obtain ⟨rfl, ha⟩ := h
    exact UInt32.toNat_ofNat_of_lt' ha).congr (fun r => by simp) fun _ h => h

theorem decodes_bufGetStr : Decodes bufGetStr (Codec.block 2).dec
    (fun mem a v => a.view mem = v ∧ Inside mem.length a.str a.len.toNat) fun _ => False := by
  rw [show bufGetStr = bufGetInt16 >>= fun len => (Npstr.mk len) <$> bufAlloc len.toNat by
    simp [bufGetStr]]
  refine (decodes_bufGetInt16.bind (d := splitFront) (G := fun _ _ => False) ?_ ?_).congr
    (fun _ => rfl) (by simp)
  · rintro mem len _ rfl
    refine ((decodes_bufAlloc len.toNat).conv (Npstr.mk len) id ?_).congr (fun r => by simp)
      fun _ h => h
    intro m a d h _
    exact h
  · exact fun mem len => fails_map ((decodes_bufAlloc len.toNat).past mem)

/-- An exact reader is exact as the first of two that read a pair of values in a
row. -/
theorem Decodes.seq {γ γ' : Type} {y : BufM α'} {c : Bytes → Option (β × Bytes)}
    {d : Bytes → Option (β' × Bytes)} {V' : Bytes → α' → β' → Prop}
    {W : Bytes → γ → γ' → Prop} {H H' : Bytes → Prop} (hx : Decodes x c V H)
    (hy : Decodes y d V' H') (g : α → α' → γ) (g' : β → β' → γ')
    (hW : ∀ mem a a' v v', V mem a v → V' mem a' v' → W mem (g a a') (g' v v')) :
    Decodes (do let a ← x; let a' ← y; return g a a')
      (fun r => (c r).bind fun p => (d p.2).map fun q => (g' p.1 q.1, q.2)) W
      fun r => H r ∨ ∃ v r', c r = Option.some (v, r') ∧ H' r' := by
  rw [show (do let a ← x; let a' ← y; return g a a') = x >>= fun a => g a <$> y by simp]
  refine hx.bind (d := fun v r => (d r).map fun q => (g' v q.1, q.2)) (G := fun _ => H') ?_ ?_
  · intro mem a v hV
    refine hy.conv (g a) (g' v) fun m a' v' hV' hm => ?_
    exact hW m a a' v v' (hm ▸ hV) hV'
  · exact fun mem a => fails_map (hy.past mem)

theorem decodes_bufTimes (hx : Decodes x c.dec V fun _ => False) (n : ℕ) :
    Decodes (bufTimes x n) (Codec.decTimes c n) (fun mem => List.Forall₂ (V mem))
      fun _ => False := by
  induction n with
  | zero => exact Decodes.pure [] [] fun _ => .nil
  | succ n ih =>
    exact (hx.seq ih List.cons List.cons fun _ _ _ _ _ ha hl => .cons ha hl).congr
      (fun _ => rfl) (by simp)

theorem decodes_bufGetQid : Decodes bufGetQid Npqid.codec.dec (fun _ a v => a = v)
    fun _ => False := by
  have h := (decodes_bufGetInt 1).seq ((decodes_bufGetInt 4).seq (decodes_bufGetInt 8)
      (W := fun _ a v => a = v) Prod.mk Prod.mk fun _ _ _ _ _ hv hp => by rw [hv.1, hp.1])
    (W := fun _ (a v : Npqid) => a = v) (fun t p => ⟨.ofNat t, .ofNat p.1, .ofNat p.2⟩)
    (fun t p => ⟨.ofNat t, .ofNat p.1, .ofNat p.2⟩) fun _ _ _ _ _ ht hp => by rw [ht.1, hp]
  have hx : bufGetQid = (do
      let t ← bufGetInt 1
      let p ← (do let v ← bufGetInt 4; let p ← bufGetInt 8; return (v, p))
      return (⟨.ofNat t, .ofNat p.1, .ofNat p.2⟩ : Npqid)) := by
    simp [bufGetQid, bufGetInt8, bufGetInt32, bufGetInt64]
  rw [hx]
  refine h.congr (fun r => ?_) (by simp)
  simp only [Npqid.codec, Option.map_bind, Option.map_map, Function.comp_def]

theorem decodes_bufGetWalk (hx : Decodes x c.dec V fun _ => False) :
    Decodes (bufGetWalk x) (Codec.counted 2 MAXWELEM c).dec (fun mem => List.Forall₂ (V mem))
      fun _ => False := by
  refine (decodes_bufGetInt16.bind
    (d := fun n r => if n ≤ MAXWELEM then Codec.decTimes c n r else none)
    (G := fun _ _ => False) ?_ ?_).congr (fun _ => rfl) (by simp)
  · rintro mem n _ rfl
    by_cases hn : n.toNat ≤ MAXWELEM
    · simp only [if_pos hn, if_neg (Nat.not_lt.mpr hn)]
      exact (decodes_bufTimes hx n.toNat).mono fun _ _ _ h _ => h
    · simp only [if_neg hn, if_pos (Nat.lt_of_not_le hn)]
      exact Decodes.failure
  · intro mem n
    by_cases hn : n.toNat > MAXWELEM
    · simp only [if_pos hn]
      rintro _ ⟨⟩
    · simp only [if_neg hn]
      exact (decodes_bufTimes hx n.toNat).past mem

/-- **A count that turns negative** on its way to `buf_alloc`. -/
def HugeCount (r : Bytes) : Prop := 4 ≤ r.length ∧ 2147483648 ≤ leNat (r.take 4)

theorem bufGetInt32_eq {b' : Cbuf} (h : bufGetInt 4 b = some (n, b')) :
    bufGetInt32 b = some (.ofNat n, b') := by
  change (bufGetInt 4 b).bind _ = _
  rw [h]
  rfl

/-- Without a count, the block is empty and the mark stays. -/
theorem fails_bufGetData (h : bufGetInt 4 b = some (0, past mem)) : Fails mem (bufGetData b) := by
  rw [bufGetData, bufM_bind (bufGetInt32_eq h)]
  exact fails_bind ((decodes_bufAlloc 0).past mem) fun _ => by rintro _ ⟨⟩; rfl

theorem decodes_bufGetData : Decodes bufGetData (Codec.block 4).dec
    (fun mem a v => a.1.toNat = v.length ∧ window mem a.2 a.1.toNat = v ∧
      Inside mem.length a.2 a.1.toNat) HugeCount where
  some {w r r' v} hl h := by
    obtain ⟨⟨n, r₁⟩, hn, hv⟩ := Option.bind_eq_some_iff.mp h
    change splitFront n r₁ = some (v, r') at hv
    obtain ⟨count, w₁, hc, hm, rfl⟩ := decodes_bufGetInt32.some hl hn
    obtain ⟨hr₁, hlen⟩ := splitFront_eq_some hv
    have hr : r₁.length ≤ (w ++ r).length := by rw [← hm]; simp
    have hlt : count.toNat < 2147483648 := by
      have : v.length ≤ r₁.length := by rw [hr₁]; simp
      omega
    rw [← hm] at hl ⊢
    obtain ⟨a, w₂, ha, hm₂, hwin⟩ := (decodes_bufAlloc count.toNat).some hl hv
    refine ⟨(count, a), w₂, ?_, hm₂, hlen.symm, hwin⟩
    rw [bufGetData, bufM_bind hc, asInt_of_lt hlt, bufM_bind ha]
    rfl
  none {w r} hl h hH := by
    rcases hn : (Codec.nat 4).dec r with _ | p
    · exact fails_bufGetData (bufGetInt_mid_lt (Codec.nat_dec_eq_none.mp hn))
    · obtain ⟨n, r₁⟩ := p
      have hv : splitFront n r₁ = none := by
        have h' := h
        simp only [Codec.block, hn, Option.bind_some] at h'
        exact h'
      obtain ⟨count, w₁, hc, hm, rfl⟩ := decodes_bufGetInt32.some hl hn
      have hlt : count.toNat < 2147483648 := by
        obtain ⟨h4, hcount, -⟩ := Codec.nat_dec_eq_some.mp hn
        by_contra hcon
        exact hH ⟨h4, by omega⟩
      rw [bufGetData, bufM_bind hc, asInt_of_lt hlt, ← hm]
      rw [← hm] at hl
      exact fails_bind ((decodes_bufAlloc count.toNat).none hl hv id) fun _ => by rintro _ ⟨⟩; rfl
  past mem := fails_bufGetData bufGetInt_past

/-! ### Lists of fields -/

theorem map_eq_of_forall₂ {f : α → β} {P : α → Prop} {l : List α} {vs : List β}
    (h : List.Forall₂ (fun a v => f a = v ∧ P a) l vs) : l.map f = vs ∧ ∀ a ∈ l, P a := by
  induction h with
  | nil => simp
  | cons ha _ ih => simpa [ha, ih.1] using ih.2

theorem decodes_getVal_int (w : ℕ) : Decodes (getVal (.int w)) (Kind.int w).codec.dec Val.Shows
    fun _ => False := by
  have key : ∀ g : ℕ → ℕ, (∀ v < 256 ^ w, g v = v) →
      Decodes ((fun v => Val.int (g v)) <$> bufGetInt w) (Kind.int w).codec.dec Val.Shows
        fun _ => False := fun g hg =>
    (decodes_bufGetInt w).conv (fun v => Val.int (g v)) Val.int fun _ a v h => by
      obtain ⟨rfl, ha⟩ := h
      exact ⟨congrArg Val.int (hg a ha), trivial⟩
  unfold getVal
  split
  · rename_i h
    cases h
    simpa [bufGetInt8] using key (fun v => (UInt8.ofNat v).toNat) fun v => UInt8.toNat_ofNat_of_lt'
  · rename_i h
    cases h
    simpa [bufGetInt16] using
      key (fun v => (UInt16.ofNat v).toNat) fun v => UInt16.toNat_ofNat_of_lt'
  · rename_i h
    cases h
    simpa [bufGetInt32] using
      key (fun v => (UInt32.ofNat v).toNat) fun v => UInt32.toNat_ofNat_of_lt'
  · rename_i h
    cases h
    simpa [bufGetInt64] using
      key (fun v => (UInt64.ofNat v).toNat) fun v => UInt64.toNat_ofNat_of_lt'
  · rename_i h
    cases h
    simpa using key id fun _ _ => rfl
  all_goals
    rename_i h
    cases h

theorem decodes_getVal (k : Kind) : Decodes (getVal k) k.codec.dec Val.Shows
    fun r => k = .data ∧ HugeCount r := by
  cases k with
  | int w => exact (decodes_getVal_int w).congr (fun _ => rfl) (fun _ h => h.elim)
  | str =>
    rw [getVal, bind_pure_comp]
    exact (decodes_bufGetStr.conv Val.str Val.str fun _ a v h =>
      ⟨congrArg Val.str h.1, h.2⟩).congr (fun _ => rfl) (fun _ h => h.elim)
  | data =>
    rw [show getVal .data = (fun p : UInt32 × Option ℤ => Val.data p.1.toNat p.2) <$> bufGetData by
      simp [getVal]]
    exact (decodes_bufGetData.conv _ (fun d => Val.data d.length d) fun mem a v h =>
      ⟨by rw [Val.view, Val.map, h.2.1, h.1], h.2.2⟩).congr (fun _ => rfl) fun _ h => ⟨rfl, h⟩
  | names =>
    rw [getVal, bind_pure_comp]
    refine ((decodes_bufGetWalk decodes_bufGetStr).conv Val.names Val.names ?_).congr
      (fun _ => rfl) (fun _ h => h.elim)
    intro mem l vs h
    obtain ⟨rfl, hin⟩ := map_eq_of_forall₂ h
    exact ⟨rfl, hin⟩
  | qids =>
    rw [getVal, bind_pure_comp]
    exact ((decodes_bufGetWalk decodes_bufGetQid).conv Val.qids Val.qids fun _ a v h =>
      ⟨congrArg Val.qids (by rwa [List.forall₂_eq_eq_eq] at h), trivial⟩).congr (fun _ => rfl)
      (fun _ h => h.elim)

/-- **A block with a huge count** among the fields that can be read. -/
def Huge : List Kind → Bytes → Prop
  | [], _ => False
  | k :: ks, r => (k = .data ∧ HugeCount r) ∨ ∃ v r', k.codec.dec r = some (v, r') ∧ Huge ks r'

/-- **The decoder of a list of fields is exact**, up to huge counts. -/
theorem decodes_getVals (ks : List Kind) : Decodes (getVals ks)
    (Codec.decSeq (ks.map Kind.codec)) (fun pkt => List.Forall₂ (Val.Shows pkt)) (Huge ks) := by
  induction ks with
  | nil => exact Decodes.pure [] [] fun _ => .nil
  | cons k ks ih =>
    exact ((decodes_getVal k).seq ih List.cons List.cons fun _ _ _ _ _ ha hl => .cons ha hl).congr
      (fun _ => rfl) fun _ h => h

/-- A data block is the last field of its message. -/
def dataLast : List Kind → Bool
  | [] => true
  | .data :: ks => ks.isEmpty
  | _ :: ks => dataLast ks

theorem dataLast_layout (t : MsgType) : dataLast t.layout = true := by
  cases t <;> rfl

theorem dataLast_cons {k : Kind} (h : dataLast (k :: ks) = true) :
    dataLast ks = true ∧ (k = .data → ks = []) := by
  cases k <;> simp_all [dataLast]

/-- A huge count is one the format refuses. -/
theorem decSeq_eq_none_of_huge (hr : r.length < 2147483648)
    (h : Huge ks r) : Codec.decSeq (ks.map Kind.codec) r = none := by
  induction ks generalizing r with
  | nil => exact h.elim
  | cons k ks ih =>
    rcases h with ⟨rfl, h4, hc⟩ | ⟨v, r', hv, h⟩
    · have hn : (Codec.nat 4).dec r = some (leNat (r.take 4), r.drop 4) :=
        Codec.nat_dec_eq_some.mpr ⟨h4, rfl, rfl⟩
      have hs : splitFront (leNat (r.take 4)) (r.drop 4) = none :=
        splitFront_eq_none.mpr (by rw [List.length_drop]; omega)
      have hb : (Codec.block 4).dec r = none := by simp only [Codec.block, hn, Option.bind_some, hs]
      simp only [List.map_cons, Codec.decSeq, Kind.codec, Codec.emb, hb, Option.map_none,
        Option.bind_none]
    · have hr' : r'.length ≤ r.length := by
        rw [(k.codec.enc_of_dec hv).1]
        simp
      simp only [List.map_cons, Codec.decSeq, hv, Option.bind_some, ih (by omega) h,
        Option.map_none]

theorem bufAlloc_neg {n : ℤ} (h : b.p + n ≤ b.ep) :
    bufAlloc n b = some (some b.p, { b with p := b.p + n }) := by
  have hs : bufCheckSize n b = some (true, b) := if_neg (not_lt.mpr h)
  rw [bufAlloc, bufM_bind hs]
  rfl

/-- The cursor after a huge count has moved backwards. -/
theorem getVal_of_hugeCount (h : HugeCount r) :
    ∃ a b, getVal .data (mid w r) = some (a, b) ∧ b.p < b.ep := by
  obtain ⟨h4, hc⟩ := h
  have hlt : leNat (r.take 4) < 4294967296 := by
    have := leNat_lt (r.take 4)
    rwa [List.length_take, Nat.min_eq_left h4] at this
  have hcount := bufGetInt32_eq (bufGetInt_mid (w := w) h4)
  have hint : asInt (UInt32.ofNat (leNat (r.take 4))).toNat
      = (leNat (r.take 4) : ℤ) - 4294967296 := by
    rw [UInt32.toNat_ofNat_of_lt' hlt, asInt_of_ge hc hlt]
  have hp : (mid (w ++ r.take 4) (r.drop 4)).p + ((leNat (r.take 4) : ℤ) - 4294967296)
      < (mid (w ++ r.take 4) (r.drop 4)).ep := by
    simp [mid]
    omega
  refine ⟨.data (UInt32.ofNat (leNat (r.take 4))).toNat (some (mid (w ++ r.take 4) (r.drop 4)).p),
    ⟨(w ++ r.take 4) ++ r.drop 4, _, _⟩, ?_, hp⟩
  rw [getVal, bufGetData, bind_assoc, bufM_bind hcount, hint, bind_assoc,
    bufM_bind (bufAlloc_neg hp.le)]
  rfl

/-- **A huge count is accepted**: the cursor moves backwards. -/
theorem getVals_of_huge (hd : dataLast ks = true)
    (hl : (w ++ r).length < 2147483648) (h : Huge ks r) :
    ∃ vs b, getVals ks (mid w r) = some (vs, b) ∧ b.p < b.ep := by
  induction ks generalizing w r with
  | nil => exact h.elim
  | cons k ks ih =>
    obtain ⟨hks, hk⟩ := dataLast_cons hd
    rcases h with ⟨rfl, h4, hc⟩ | ⟨v, r', hv, h⟩
    · obtain rfl := hk rfl
      obtain ⟨a, b, hb, hp⟩ := getVal_of_hugeCount (w := w) ⟨h4, hc⟩
      refine ⟨[a], b, ?_, hp⟩
      rw [getVals, bufM_bind hb]
      rfl
    · obtain ⟨a, w', ha, hm, -⟩ := (decodes_getVal k).some hl hv
      obtain ⟨vs, b, hb, hp⟩ := ih hks (hm ▸ hl) h
      refine ⟨a :: vs, b, ?_, hp⟩
      rw [getVals, bufM_bind ha, bufM_bind hb]
      rfl

/-! ### Packets -/

/-- The size field of a buffer. -/
def sizeField (mem : Bytes) : UInt32 := .ofNat (leNat (mem.take 4))

/-- **The end of the area that `np_deserialize` parses**, as an offset into the buffer. -/
def parseEnd (mem : Bytes) : ℤ := 4 + asInt (sizeField mem - 4).toNat

/-- Behind the size, the decoder is on its way to that end. -/
theorem deserialize_from (mem : Bytes) : deserialize mem = (do
    let type ← bufGetInt8
    let tag ← bufGetInt16
    npDeserializeU (sizeField mem) type tag) ⟨mem, 4, parseEnd mem⟩ := by
  have hinit : bufInit 0 4 ⟨mem, 0, 0⟩ = some ((), ⟨mem, 0, 4⟩) := rfl
  have hget : bufGetInt32 ⟨mem, 0, 4⟩ = some (sizeField mem, ⟨mem, 4, 4⟩) := by
    refine bufGetInt32_eq ?_
    have hs : bufCheckSize (4 : ℕ) ⟨mem, 0, 4⟩ = some (true, ⟨mem, 0, 4⟩) := if_neg (by simp)
    rw [bufGetInt, bufM_bind hs, ← orBytes_eq_leNat]
    rfl
  have hinit' : bufInit 4 (asInt (sizeField mem - 4).toNat) ⟨mem, 4, 4⟩ =
      some ((), ⟨mem, 4, parseEnd mem⟩) := rfl
  rw [deserialize, npDeserialize, bufM_bind hinit, bufM_bind hget, bufM_bind hinit']

/-- A packet whose size field is its length, which an `int` can hold. -/
structure WellSized (pkt : Bytes) : Prop where
  header : 4 ≤ pkt.length
  int : pkt.length < 2147483648
  size : leNat (pkt.take 4) = pkt.length

/-- The message type that a packet names. -/
def pktType (pkt : Bytes) : Option MsgType := pkt[4]?.bind MsgType.ofCode

/-- **A packet of the format**: behind the header, a complete encoding of the fields
of its type; anything may follow. -/
def Encodes (pkt : Bytes) : Prop :=
  7 ≤ pkt.length ∧ ∃ t, pktType pkt = some t ∧ (t.parse (pkt.drop 7)).isSome

/-- **A packet with a data block whose count is `2³¹` or more**, the fields before it
being complete. -/
def HugeBlock (pkt : Bytes) : Prop :=
  7 ≤ pkt.length ∧ ∃ t, pktType pkt = some t ∧ Huge t.layout (pkt.drop 7)

theorem deserialize_eq (h : WellSized pkt) :
    deserialize pkt = (do
      let type ← bufGetInt8
      let tag ← bufGetInt16
      npDeserializeU (.ofNat pkt.length) type tag) (mid (pkt.take 4) (pkt.drop 4)) := by
  have h4 := h.header
  have hint := h.int
  have hn : (UInt32.ofNat pkt.length).toNat = pkt.length :=
    UInt32.toNat_ofNat_of_lt' (by change _ < 4294967296; omega)
  have hsub : (UInt32.ofNat pkt.length - 4).toNat = pkt.length - 4 := by
    rw [UInt32.toNat_sub_of_le _ _ (by rw [UInt32.le_iff_toNat_le, hn]; exact h4), hn]
    rfl
  have hend : 4 + asInt (pkt.length - 4) = pkt.length := by
    rw [asInt_of_lt (by omega)]
    omega
  rw [deserialize_from, parseEnd, sizeField, h.size, hsub, hend]
  simp [mid, Nat.min_eq_left h4]

theorem npDeserializeU_eq (h : MsgType.ofCode type = some t) (b : Cbuf) :
    npDeserializeU size type tag b = (getU t b).bind fun p =>
      if p.2.p > p.2.ep then none else some (⟨size, type, tag, p.2.mem, p.1⟩, p.2) := by
  rw [npDeserializeU, h]
  change (getU t b).bind _ = _
  congr 1
  funext ⟨u, b₁⟩
  by_cases hp : b₁.p > b₁.ep
  · have ho : bufCheckOverflow b₁ = true := decide_eq_true hp
    change (if bufCheckOverflow b₁ then failure else _ : BufM Npfcall) b₁ = _
    rw [if_pos hp, ho]
    rfl
  · have ho : bufCheckOverflow b₁ = false := decide_eq_false hp
    change (if bufCheckOverflow b₁ then failure else _ : BufM Npfcall) b₁ = _
    rw [if_neg hp, ho]
    rfl

/-- **What the decoder accepts**, in terms of the fields it reads. -/
theorem npDeserializeU_eq_some {b' : Cbuf}
    : npDeserializeU size type tag b = some (fc, b') ↔
      ∃ t, MsgType.ofCode type = some t ∧ fc.u.type = t ∧
        getVals t.layout b = some (fc.u.vals, b') ∧ b'.p ≤ b'.ep ∧
        fc = ⟨size, type, tag, b'.mem, fc.u⟩ := by
  constructor
  · intro h
    rcases hc : MsgType.ofCode type with _ | t
    · rw [npDeserializeU, hc] at h
      cases h
    · rw [npDeserializeU_eq hc] at h
      obtain ⟨⟨u, b₁⟩, hu, h⟩ := Option.bind_eq_some_iff.mp h
      by_cases hp : b₁.p > b₁.ep
      · rw [if_pos hp] at h
        cases h
      · rw [if_neg hp] at h
        cases h
        obtain ⟨ht, hv⟩ := getU_eq_some.mp hu
        exact ⟨t, rfl, ht, hv, not_lt.mp hp, rfl⟩
  · rintro ⟨t, hc, ht, hv, hp, hfc⟩
    rw [npDeserializeU_eq hc, getU_eq_some.mpr ⟨ht, hv⟩, Option.bind_some, if_neg (not_lt.mpr hp),
      ← hfc]

/-- Nothing is accepted behind the mark of an overflow. -/
theorem npDeserializeU_past (size : UInt32) (type : UInt8) (tag : UInt16) (mem : Bytes) :
    npDeserializeU size type tag (past mem) = none := by
  refine Option.eq_none_iff_forall_ne_some.mpr fun ⟨fc, b⟩ h => ?_
  obtain ⟨t, -, -, hv, hp, -⟩ := npDeserializeU_eq_some.mp h
  obtain rfl : b = past mem := (decodes_getVals t.layout).past mem _ hv
  simp [past] at hp

theorem bind_eq_none_of_fails
    (hx : Fails mem (x b)) (hf : ∀ a, f a (past mem) = none) : (x >>= f) b = none := by
  refine Option.bind_eq_none_iff.mpr fun ⟨a, b'⟩ ha => ?_
  obtain rfl : b' = past mem := hx _ ha
  exact hf a

/-- A packet without a complete header is refused. -/
theorem deserialize_of_lt (h : WellSized pkt) (h7 : pkt.length < 7) : deserialize pkt = none := by
  have hhdr := (decodes_bufGetInt 1).seq (decodes_bufGetInt 2) (W := fun _ _ _ => True)
    (fun t g => (UInt8.ofNat t, UInt16.ofNat g)) (fun _ _ => ()) fun _ _ _ _ _ _ _ => trivial
  have hnone : (((Codec.nat 1).dec (pkt.drop 4)).bind fun p =>
      ((Codec.nat 2).dec p.2).map fun q => ((), q.2)) = none := by
    refine Option.bind_eq_none_iff.mpr fun ⟨v, r⟩ hv => ?_
    obtain ⟨-, -, rfl⟩ := Codec.nat_dec_eq_some.mp hv
    rw [Option.map_eq_none_iff, Codec.nat_dec_eq_none]
    simp only [List.length_drop]
    omega
  have hf := hhdr.none (w := pkt.take 4) (by simpa using h.int) hnone (by simp)
  have hrun : (do
      let type ← bufGetInt8
      let tag ← bufGetInt16
      npDeserializeU (.ofNat pkt.length) type tag) = (do
      let p ← (do let t ← bufGetInt 1; let g ← bufGetInt 2; return (UInt8.ofNat t, UInt16.ofNat g))
      npDeserializeU (.ofNat pkt.length) p.1 p.2) := by
    simp [bufGetInt8, bufGetInt16]
  rw [deserialize_eq h, hrun]
  exact bind_eq_none_of_fails hf fun p => npDeserializeU_past _ _ _ _

theorem deserialize_of_ge (h : WellSized pkt) (h7 : 7 ≤ pkt.length) :
    deserialize pkt = npDeserializeU (.ofNat pkt.length) pkt[4]
      (.ofNat (leNat ((pkt.drop 5).take 2))) (mid (pkt.take 7) (pkt.drop 7)) := by
  have h1 : bufGetInt8 (mid (pkt.take 4) (pkt.drop 4)) =
      some (pkt[4], mid (pkt.take 5) (pkt.drop 5)) := by
    have hb : ((pkt.drop 4).take 1) = [pkt[4]] := by
      rw [List.drop_eq_getElem_cons (by omega)]
      rfl
    rw [bufGetInt8, bufM_map, bufGetInt_mid (by simp; omega), ← List.take_add, List.drop_drop, hb]
    simp [leNat_cons]
  have h2 : bufGetInt16 (mid (pkt.take 5) (pkt.drop 5)) =
      some (.ofNat (leNat ((pkt.drop 5).take 2)), mid (pkt.take 7) (pkt.drop 7)) := by
    rw [bufGetInt16, bufM_map, bufGetInt_mid (by simp; omega), ← List.take_add, List.drop_drop]
    rfl
  rw [deserialize_eq h, bufM_bind h1, bufM_bind h2]

theorem deserialize_eq_some (h : WellSized pkt) :
    deserialize pkt = some (fc, b) ↔ 7 ≤ pkt.length ∧ ∃ t, pktType pkt = some t ∧
      fc.u.type = t ∧ getVals t.layout (mid (pkt.take 7) (pkt.drop 7)) = some (fc.u.vals, b) ∧
      b.p ≤ b.ep ∧
      fc = ⟨.ofNat pkt.length, t.code, .ofNat (leNat ((pkt.drop 5).take 2)), b.mem, fc.u⟩ := by
  by_cases h7 : 7 ≤ pkt.length
  · rw [deserialize_of_ge h h7, npDeserializeU_eq_some]
    have ht : pktType pkt = MsgType.ofCode pkt[4] := by
      rw [pktType, List.getElem?_eq_getElem (by omega), Option.bind_some]
    constructor
    · rintro ⟨t, hc, hrest⟩
      have hcode := MsgType.code_of_ofCode hc
      exact ⟨h7, t, ht.trans hc, hcode ▸ hrest⟩
    · rintro ⟨-, t, hc, hrest⟩
      rw [ht] at hc
      have hcode := MsgType.code_of_ofCode hc
      exact ⟨t, hc, hcode ▸ hrest⟩
  · simp [deserialize_of_lt h (by omega), h7]

/-- Fields that can be read without an overflow make a message. -/
theorem exists_deserialize (h : WellSized pkt) (h7 : 7 ≤ pkt.length)
    (ht : pktType pkt = some t) {vs : List (Val Npstr (Option ℤ))}
    (hv : getVals t.layout (mid (pkt.take 7) (pkt.drop 7)) = some (vs, b)) (hp : b.p ≤ b.ep) :
    ∃ fc, deserialize pkt = some (fc, b) := by
  obtain ⟨u, rfl, rfl, -⟩ := exists_u hv
  exact ⟨⟨.ofNat pkt.length, u.type.code, .ofNat (leNat ((pkt.drop 5).take 2)), b.mem, u⟩,
    (deserialize_eq_some h).mpr ⟨h7, _, ht, rfl, hv, hp, rfl⟩⟩

/-- **What is accepted is a packet of the format**, unless a count is huge: its fields
are the ones the format reads, and its pointers stay inside. -/
theorem parse_of_deserialize (h : WellSized pkt) (hH : ¬HugeBlock pkt)
    (hd : deserialize pkt = some (fc, b)) :
    ∃ vs r w, fc.u.type.parse (pkt.drop 7) = some (vs, r) ∧ b = mid w r ∧ w ++ r = pkt ∧
      (fc.u.view pkt).vals = vs ∧ ∀ v ∈ fc.u.vals, v.Inside pkt.length := by
  obtain ⟨h7, t, ht, rfl, hv, hp, -⟩ := (deserialize_eq_some h).mp hd
  have hl : (pkt.take 7 ++ pkt.drop 7).length < 2147483648 := by simpa using h.int
  have hdec := decodes_getVals fc.u.type.layout
  rcases hpar : fc.u.type.parse (pkt.drop 7) with _ | p
  · have hb := hdec.none hl hpar (fun hh => hH ⟨h7, _, ht, hh⟩) _ hv
    obtain rfl : b = past _ := hb
    simp [past] at hp
  · obtain ⟨vs, r⟩ := p
    obtain ⟨as, w, has, hm, hsh⟩ := hdec.some hl hpar
    rw [hv] at has
    obtain ⟨rfl, rfl⟩ := Prod.mk.inj (Option.some.inj has)
    rw [List.take_append_drop] at hm hsh
    obtain ⟨hview, hin⟩ := map_eq_of_forall₂ hsh
    exact ⟨vs, r, w, rfl, rfl, hm, by rw [Fcall.view, Fcall.vals_map]; exact hview, hin⟩

/-- **Every packet of the format is accepted.** -/
theorem deserialize_of_encodes (h : WellSized pkt) (he : Encodes pkt) :
    ∃ fc b, deserialize pkt = some (fc, b) := by
  obtain ⟨h7, t, ht, hs⟩ := he
  obtain ⟨⟨vs, r⟩, hpar⟩ := Option.isSome_iff_exists.mp hs
  have hl : (pkt.take 7 ++ pkt.drop 7).length < 2147483648 := by simpa using h.int
  obtain ⟨as, w, has, -, -⟩ := (decodes_getVals t.layout).some hl hpar
  obtain ⟨fc, hfc⟩ := exists_deserialize h h7 ht has (by simp [mid])
  exact ⟨fc, _, hfc⟩

/-- **A packet with a huge count is accepted, and is not one of the format.** The
decoder believes that it has not reached the end. -/
theorem deserialize_of_hugeBlock (h : WellSized pkt) (hH : HugeBlock pkt) :
    (∃ fc b, deserialize pkt = some (fc, b) ∧ b.p < b.ep) ∧ ¬Encodes pkt := by
  obtain ⟨h7, t, ht, hh⟩ := hH
  have hl : (pkt.take 7 ++ pkt.drop 7).length < 2147483648 := by simpa using h.int
  refine ⟨?_, ?_⟩
  · obtain ⟨vs, b, hb, hp⟩ := getVals_of_huge (dataLast_layout t) hl hh
    obtain ⟨fc, hfc⟩ := exists_deserialize h h7 ht hb hp.le
    exact ⟨fc, b, hfc, hp⟩
  · rintro ⟨-, t', ht', hs⟩
    obtain rfl : t' = t := by rw [ht] at ht'; exact (Option.some.inj ht').symm
    have hn : t'.parse (pkt.drop 7) = none :=
      decSeq_eq_none_of_huge (by have := h.int; simp only [List.length_drop]; omega) hh
    rw [hn] at hs
    cases hs

theorem deserializeRet_eq (h : WellSized pkt) (hd : deserialize pkt = some (fc, b)) :
    deserializeRet pkt = pkt.length ∧ fc.size.toNat = pkt.length := by
  obtain ⟨-, t, -, -, -, -, hfc⟩ := (deserialize_eq_some h).mp hd
  have hint := h.int
  have hsize : fc.size.toNat = pkt.length := by
    rw [hfc]
    exact UInt32.toNat_ofNat_of_lt' (by change _ < 4294967296; omega)
  refine ⟨?_, hsize⟩
  simp only [deserializeRet, hd, Option.map_some, Option.getD_some, hsize, asInt_of_lt hint]

theorem deserializeRet_ne_zero (h : WellSized pkt) :
    deserializeRet pkt ≠ 0 ↔ ∃ fc b, deserialize pkt = some (fc, b) := by
  constructor
  · intro hne
    rcases hd : deserialize pkt with _ | x
    · simp [deserializeRet, hd] at hne
    · exact ⟨x.1, x.2, rfl⟩
  · rintro ⟨fc, b, hd⟩
    have := h.header
    rw [(deserializeRet_eq h hd).1]
    omega

/-- **Exactly the packets without a huge count are decoded as the protocol says**: the
decoder then returns non-zero exactly on the packets of the format, and every string and every
block that it returns lies inside the packet. -/
theorem decodes_exactly_iff {pkt : Bytes} (h : WellSized pkt) :
    ((deserializeRet pkt ≠ 0 ↔ Encodes pkt) ∧
      ∀ fc b, deserialize pkt = some (fc, b) → ∀ v ∈ fc.u.vals, v.Inside pkt.length) ↔
    ¬HugeBlock pkt := by
  rw [deserializeRet_ne_zero h]
  constructor
  · rintro ⟨hiff, -⟩ hH
    obtain ⟨⟨fc, b, hd, -⟩, hne⟩ := deserialize_of_hugeBlock h hH
    exact hne (hiff.mp ⟨fc, b, hd⟩)
  · intro hH
    refine ⟨⟨?_, deserialize_of_encodes h⟩, ?_⟩
    · rintro ⟨fc, b, hd⟩
      obtain ⟨h7, t, ht, rfl, -⟩ := (deserialize_eq_some h).mp hd
      obtain ⟨vs, r, -, hpar, -⟩ := parse_of_deserialize h hH hd
      exact ⟨h7, _, ht, by rw [hpar]; rfl⟩
    · intro fc b hd
      obtain ⟨-, -, -, -, -, -, -, hin⟩ := parse_of_deserialize h hH hd
      exact hin

/-- A `Tclunk` of fid 1. -/
theorem decodes_exactly_tclunk :
    (deserializeRet [11, 0, 0, 0, 120, 0, 0, 1, 0, 0, 0] ≠ 0 ↔
      Encodes [11, 0, 0, 0, 120, 0, 0, 1, 0, 0, 0]) ∧
    ∀ fc b, deserialize [11, 0, 0, 0, 120, 0, 0, 1, 0, 0, 0] = some (fc, b) →
      ∀ v ∈ fc.u.vals, v.Inside 11 := by
  refine (decodes_exactly_iff ⟨by decide, by decide, by decide⟩).mpr ?_
  rintro ⟨-, t, ht, h⟩
  obtain rfl : MsgType.tclunk = t := Option.some.inj ht
  rcases h with ⟨⟨⟩, -⟩ | ⟨_, _, -, ⟨⟩⟩

/-- **An `Rread` of eleven bytes that claims to carry `2³² - 1`** is accepted, and its
data reaches outside the packet. -/
theorem rread_huge_accepted :
    WellSized [11, 0, 0, 0, 117, 1, 0, 255, 255, 255, 255] ∧
    deserializeRet [11, 0, 0, 0, 117, 1, 0, 255, 255, 255, 255] ≠ 0 ∧
    ¬Encodes [11, 0, 0, 0, 117, 1, 0, 255, 255, 255, 255] ∧
    ∃ fc b, deserialize [11, 0, 0, 0, 117, 1, 0, 255, 255, 255, 255] = some (fc, b) ∧
      ∃ v ∈ fc.u.vals, ¬v.Inside 11 := by
  have hs : WellSized [11, 0, 0, 0, 117, 1, 0, 255, 255, 255, 255] :=
    ⟨by decide, by decide, by decide⟩
  have hH : HugeBlock [11, 0, 0, 0, 117, 1, 0, 255, 255, 255, 255] :=
    ⟨by decide, .rread, rfl, .inl ⟨rfl, by decide, by decide⟩⟩
  obtain ⟨⟨fc, b, hd, -⟩, hne⟩ := deserialize_of_hugeBlock hs hH
  refine ⟨hs, (deserializeRet_ne_zero hs).mpr ⟨fc, b, hd⟩, hne, ?_⟩
  refine ⟨⟨11, 117, 1, [11, 0, 0, 0, 117, 1, 0, 255, 255, 255, 255], .rread 4294967295 (some 11)⟩,
    ⟨[11, 0, 0, 0, 117, 1, 0, 255, 255, 255, 255], 10, 11⟩, rfl, .data 4294967295 (some 11),
    List.mem_singleton.mpr rfl, ?_⟩
  rintro ⟨off, h, -, hle⟩
  obtain rfl := Option.some.inj h
  omega

end Diod
