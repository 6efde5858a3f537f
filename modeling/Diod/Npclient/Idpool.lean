import Diod.Npclient.Pool
import Diod.Lib.Runs
import Diod.Wire.Fcall

/-!
# All the numbers of a pool

A pool gives out the lowest number that it has not given out yet, and its map grows when it
has none. How far it grows is decided by two comparisons, `p->msize*8<p->maxid` and
`n*8 > p->maxid`, and **both go wrong at the end**.

* The map grows by whole bytes, to `maxid/8 + 1` of them at most, so there are numbers in the
  last byte that are not below `maxid`. They are given out when all others are
  (`Diod.Idpool.ids_below_iff`). For tags this is `NOTAG`, and for fids `NOFID`.
* The sizes are 32 bits wide. With `2²⁹` bytes in the map `p->msize*8` is zero, so a full
  map grows once more, and what is given out then starts again from zero
  (`Diod.Idpool.ids_unique_iff`).

Apart from that, a number that is given out is the lowest that nobody has, whatever has been
taken and put back before. The invariant is that the bits of the map are the numbers that
are held; it holds as long as the map has at most `2²⁹` bytes (`Diod.Idpool.Tracks`).

The pool of `Diod.Npclient.Pool`, which the calls of the client use, is the same as long as
the sizes do not wrap (`Diod.Idpool.npcGetId_ofNpcpool`).
-/

namespace Diod

/-- `Npcpool`. The size of the map, `msize`, is an `int`. -/
structure Idpool where
  maxid : UInt32
  map : List UInt8
  small : map.length < 2 ^ 31

namespace Idpool

/-- `npc_create_pool`, with memory -/
def npcCreatePool (maxid : UInt32) : Idpool := ⟨maxid, List.replicate 32 0, by simp⟩

variable (p : Idpool)

/-- `n*8` of an `int`, as it is compared with a `u32`. -/
def times8 (n : ℕ) : ℕ := n * 8 % 2 ^ 32

/-- The size `n` that a full map is to have. -/
def grownSize : ℕ :=
  let n := p.map.length + 32
  if times8 n > p.maxid.toNat then p.maxid.toNat / 8 + 1 else n

theorem length_grown {n : ℕ} (hn : n < 2 ^ 31) :
    (p.map ++ List.replicate (n - p.map.length) 0).length < 2 ^ 31 := by
  have := p.small
  simp only [List.length_append, List.length_replicate]
  omega

/-- The first part of `npc_get_id`: a full map grows, unless it is as long as it may be or
there is no memory. There never is for a size that is a negative `int`. -/
def grow (mem : Bool) : Idpool :=
  if h : p.map.length ≤ firstFree p.map ∧ times8 p.map.length < p.maxid.toNat ∧ mem = true ∧
      p.grownSize < 2 ^ 31 then
    ⟨p.maxid, p.map ++ List.replicate (p.grownSize - p.map.length) 0, p.length_grown h.2.2.2⟩
  else p

/-- The second part: the lowest bit of the first byte that has one. Without such a byte
the thread waits. -/
def takeFree : Option (UInt32 × Idpool) :=
  (p.map[firstFree p.map]?).map fun b =>
    let ret := m2id.getD b.toNat 0
    (.ofNat (ret + firstFree p.map * 8),
      ⟨p.maxid, p.map.set (firstFree p.map) (b ||| (1 <<< UInt8.ofNat ret)), by
        simpa using p.small⟩)

/-- `npc_get_id` -/
def npcGetId (mem : Bool) : Option (UInt32 × Idpool) := (p.grow mem).takeFree

/-- `npc_put_id` -/
def npcPutId (id : UInt32) : Idpool :=
  ⟨p.maxid, p.map.modify (id.toNat / 8) (· &&& ~~~(1 <<< UInt8.ofNat (id.toNat % 8))), by
    simpa using p.small⟩

/-! ### What is given out -/

variable {p}

/-- What there is to know of a number that is given out: it is the lowest one that is free in
the map, and its bit is set. The number itself has 32 bits. -/
theorem takeFree_eq_some {id : UInt32} {q : Idpool} (h : p.takeFree = some (id, q)) :
    ∃ k, id = .ofNat k ∧ k < 8 * p.map.length ∧ bit p.map k = false ∧
      (∀ j < k, bit p.map j = true) ∧ (∀ j, bit q.map j = (bit p.map j || decide (j = k))) ∧
      q.map.length = p.map.length ∧ q.maxid = p.maxid := by
  obtain ⟨b, hb, he⟩ := Option.map_eq_some_iff.mp h
  obtain ⟨hlt, hget⟩ := List.getElem?_eq_some_iff.mp hb
  obtain rfl : p.map.getD (firstFree p.map) 0 = b := by rw [List.getD_eq_getElem _ _ hlt, hget]
  obtain ⟨hr, hclear, hbelow⟩ := lowClear_firstFree Npcpool.m2id_lowClear hlt
  obtain ⟨hid, rfl⟩ := Prod.mk.inj he
  refine ⟨_, hid.symm, by omega, hclear, hbelow, bit_set hlt hr, ?_, rfl⟩
  exact List.length_set

variable {k : ℕ} {u : Users} {c : Call}

/-- A thread waits only for a map that is full. -/
theorem takeFree_ne_none (hk : k < 8 * p.map.length) (h : bit p.map k = false) :
    ∃ id q, p.takeFree = some (id, q) := by
  have hlt : firstFree p.map < p.map.length :=
    lt_of_le_of_lt (firstFree_le h) (by omega)
  rw [takeFree, List.getElem?_eq_getElem hlt]
  exact ⟨_, _, rfl⟩

theorem bit_grow (mem : Bool) (k : ℕ) : bit (p.grow mem).map k = bit p.map k := by
  rw [grow]
  split
  · exact bit_append_zeros _ _ _
  · rfl

theorem maxid_grow (mem : Bool) : (p.grow mem).maxid = p.maxid := by
  rw [grow]
  split <;> rfl

/-- A map with a number that is free does not grow. -/
theorem grow_of_free (mem : Bool) (hk : k < 8 * p.map.length) (h : bit p.map k = false) :
    p.grow mem = p := by
  have hlt := firstFree_le h
  rw [grow, dif_neg]
  rintro ⟨hfull, -⟩
  omega

theorem bit_npcPutId (id : UInt32) (k : ℕ) :
    bit (p.npcPutId id).map k = (bit p.map k && decide (k ≠ id.toNat)) :=
  bit_clear p.map id.toNat k

theorem length_npcPutId (id : UInt32) : (p.npcPutId id).map.length = p.map.length :=
  List.length_modify ..

/-! ### How long the map is -/

/-- The map grows by 32 bytes, but for the last time. -/
def Sized (p : Idpool) : Prop :=
  p.map.length ≤ 2 ^ 29 ∧
    (32 ∣ p.map.length ∨ p.maxid.toNat < 8 * p.map.length ∧ p.map.length < 2 ^ 29)

theorem sized_npcCreatePool (maxid : UInt32) : (npcCreatePool maxid).Sized := by
  refine ⟨?_, Or.inl ?_⟩ <;> simp [npcCreatePool]

/-- A map that grows, and is not at the size that wraps: what it has then. -/
theorem Sized.lt_grownSize (h : p.Sized) (h29 : p.map.length ≠ 2 ^ 29)
    (hmax : times8 p.map.length < p.maxid.toNat) :
    p.map.length < p.grownSize ∧ p.grownSize ≤ 2 ^ 29 ∧
      (32 ∣ p.grownSize ∨ p.maxid.toNat < 8 * p.grownSize ∧ p.grownSize < 2 ^ 29) := by
  obtain ⟨hle, h32⟩ := h
  have hlt : p.maxid.toNat < 2 ^ 32 := p.maxid.toNat_lt
  simp only [times8] at hmax
  by_cases hn : times8 (p.map.length + 32) > p.maxid.toNat
  · rw [show p.grownSize = p.maxid.toNat / 8 + 1 from if_pos hn]
    simp only [times8] at hn
    omega
  · rw [show p.grownSize = p.map.length + 32 from if_neg hn]
    simp only [times8] at hn
    omega

theorem Sized.grow (h : p.Sized) (mem : Bool)
    (hroom : p.map.length = 2 ^ 29 → ∃ k < 2 ^ 32, bit p.map k = false) :
    (p.grow mem).Sized := by
  rw [Idpool.grow]
  split
  · rename_i hg
    obtain ⟨hfull, hmax, -, -⟩ := hg
    have h29 : p.map.length ≠ 2 ^ 29 := by
      intro hc
      obtain ⟨k, hk, hfree⟩ := hroom hc
      rw [bit_of_full hfull (by omega)] at hfree
      exact Bool.noConfusion hfree
    have hlen := h.lt_grownSize h29 hmax
    simp only [Sized, List.length_append, List.length_replicate]
    rw [Nat.add_sub_cancel' hlen.1.le]
    exact hlen.2
  · exact h

/-! ### Calls -/

/-- The calls on a pool. -/
inductive Call
  | get (mem : Bool)
  | put (id : UInt32)

/-- A pool, and the numbers that have been given out and not been put back. -/
structure Users where
  pool : Idpool
  held : List UInt32

/-- A call. One that waits changes nothing, and **only what is held may be put back**. -/
def step (u : Users) : Call → Option Users
  | .get mem =>
    match u.pool.npcGetId mem with
    | none => some u
    | some (id, p) => some ⟨p, id :: u.held⟩
  | .put id => if id ∈ u.held then some ⟨u.pool.npcPutId id, u.held.erase id⟩ else none

/-- A pool that has just been made. -/
def start (maxid : UInt32) : Users := ⟨npcCreatePool maxid, []⟩

/-- What a call can do. -/
theorem step_cases {v : Users} (h : step u c = some v) :
    (∃ mem, c = .get mem ∧ u.pool.npcGetId mem = none ∧ v = u) ∨
      (∃ mem id p, c = .get mem ∧ u.pool.npcGetId mem = some (id, p) ∧ v = ⟨p, id :: u.held⟩) ∨
      ∃ id ∈ u.held, c = .put id ∧ v = ⟨u.pool.npcPutId id, u.held.erase id⟩ := by
  rcases c with mem | id
  · rw [step] at h
    split at h
    · rename_i hget
      exact Or.inl ⟨mem, rfl, hget, (Option.some.inj h).symm⟩
    · rename_i id p hget
      exact Or.inr (Or.inl ⟨mem, id, p, rfl, hget, (Option.some.inj h).symm⟩)
  · rw [step] at h
    split at h
    · rename_i hid
      exact Or.inr (Or.inr ⟨id, hid, rfl, (Option.some.inj h).symm⟩)
    · exact absurd h (by simp)

/-- **The bits of the map are the numbers that are held.** -/
structure Tracks (u : Users) : Prop where
  sized : u.pool.Sized
  nodup : u.held.Nodup
  held : ∀ n : UInt32, n ∈ u.held ↔ bit u.pool.map n.toNat = true

theorem tracks_start (maxid : UInt32) : Tracks (start maxid) where
  sized := sized_npcCreatePool maxid
  nodup := List.nodup_nil
  held n := by
    have hbit : bit (start maxid).pool.map n.toNat = false := bit_zeros 32 _
    rw [hbit]
    simp [start]

/-- A call of `npc_get_id` that returns does so while a number is left. -/
def Room (u : Users) : Call → Prop
  | .get mem => ∀ id p, u.pool.npcGetId mem = some (id, p) → ∃ n, n ∉ u.held
  | .put _ => True

/-- A number that has been put back is given out next, or a lower one that is free too. -/
def Available (u : Users) (id : UInt32) : Prop :=
  ∀ mem, ∃ n p, (u.pool.npcPutId id).npcGetId mem = some (n, p) ∧
    (n = id ∨ n < id ∧ n ∉ u.held)

/-- **What a call should do**: a number that is given out is held by nobody, and one that is
put back can be had again. -/
def Sound (u : Users) : Call → Prop
  | .get mem => u.held.Nodup ∧ ∀ id p, u.pool.npcGetId mem = some (id, p) → id ∉ u.held
  | .put id => id ∈ u.held → Available u id

namespace Tracks

variable {u v : Users} (h : Tracks u)

include h

/-- A number that is free, as one of the map. -/
theorem bit_of_not_mem {n : UInt32} (hn : n ∉ u.held) : bit u.pool.map n.toNat = false := by
  rw [h.held] at hn
  exact Bool.eq_false_iff.mpr hn

variable {id : UInt32} {c : Call}

/-- **What is given out while there is room is the lowest number that nobody holds.** -/
theorem npcGetId {mem : Bool} {p : Idpool} (hroom : ∃ n, n ∉ u.held)
    (hget : u.pool.npcGetId mem = some (id, p)) :
    id ∉ u.held ∧ (∀ n < id, n ∈ u.held) ∧ Tracks ⟨p, id :: u.held⟩ ∧
      p.maxid = u.pool.maxid := by
  have hsized : (u.pool.grow mem).Sized := by
    refine h.sized.grow mem fun _ => ?_
    obtain ⟨n, hn⟩ := hroom
    exact ⟨n.toNat, n.toNat_lt, h.bit_of_not_mem hn⟩
  obtain ⟨k, rfl, hk, hfree, hbelow, hbits, hlen, hmax⟩ := takeFree_eq_some hget
  simp only [bit_grow] at hfree hbelow hbits
  have hk32 : (UInt32.ofNat k).toNat = k := by
    refine UInt32.toNat_ofNat_of_lt' ?_
    have := hsized.1
    change k < 4294967296
    omega
  have hnot : UInt32.ofNat k ∉ u.held := by
    rw [h.held, hk32, hfree]
    exact Bool.false_ne_true
  refine ⟨hnot, ?_, ⟨?_, List.nodup_cons.mpr ⟨hnot, h.nodup⟩, ?_⟩, hmax.trans (maxid_grow mem)⟩
  · intro n hn
    rw [h.held]
    rw [UInt32.lt_iff_toNat_lt, hk32] at hn
    exact hbelow _ hn
  · rw [Sized, hlen, hmax]
    exact hsized
  · intro n
    rw [hbits, List.mem_cons, h.held, Bool.or_eq_true, decide_eq_true_eq, or_comm,
      ← UInt32.toNat_inj, hk32]

theorem npcPutId (id : UInt32) : Tracks ⟨u.pool.npcPutId id, u.held.erase id⟩ := by
  refine ⟨?_, h.nodup.erase id, ?_⟩
  · rw [Sized, length_npcPutId]
    exact h.sized
  · intro n
    rw [h.nodup.mem_erase_iff, h.held, bit_npcPutId, Bool.and_eq_true, decide_eq_true_eq,
      and_comm, Ne, Ne, UInt32.toNat_inj]

/-- What is put back is available again. -/
theorem available (hid : id ∈ u.held) : Available u id := by
  have hbit : bit u.pool.map id.toNat = true := (h.held id).mp hid
  have hlt : id.toNat < 8 * (u.pool.npcPutId id).map.length := by
    rw [length_npcPutId]
    exact lt_of_bit hbit
  have hfree : bit (u.pool.npcPutId id).map id.toNat = false := by
    rw [bit_npcPutId]
    simp
  intro mem
  obtain ⟨n, p, hget⟩ := takeFree_ne_none hlt hfree
  have hget' : (u.pool.npcPutId id).npcGetId mem = some (n, p) := by
    rw [Idpool.npcGetId, grow_of_free mem hlt hfree, hget]
  have hfree' : id ∉ u.held.erase id := h.nodup.not_mem_erase
  obtain ⟨hnot, hbelow, -, -⟩ := (h.npcPutId id).npcGetId ⟨id, hfree'⟩ hget'
  refine ⟨n, p, hget', ?_⟩
  rcases eq_or_ne n id with heq | hne
  · exact Or.inl heq
  · refine Or.inr ⟨?_, fun hc => hnot ((List.mem_erase_of_ne hne).mpr hc)⟩
    refine UInt32.lt_of_le_of_ne (UInt32.not_lt.mp ?_) hne
    exact fun hgt => hfree' (hbelow id hgt)

/-- The step lemma. -/
theorem step (hc : Room u c) (hs : step u c = some v) : Tracks v ∧ v.pool.maxid = u.pool.maxid := by
  obtain ⟨mem, rfl, -, rfl⟩ | ⟨mem, id, p, rfl, hget, rfl⟩ | ⟨id, hid, rfl, rfl⟩ := step_cases hs
  · exact ⟨h, rfl⟩
  · have := h.npcGetId (hc id p hget) hget
    exact this.2.2
  · exact ⟨h.npcPutId id, rfl⟩

theorem sound (hc : Room u c) : Sound u c := by
  rcases c with mem | id
  · exact ⟨h.nodup, fun id p hget => (h.npcGetId (hc id p hget) hget).1⟩
  · exact h.available

end Tracks

/-- **Numbers are unique exactly as long as there are any**: along every run, each number that
is given out is held by nobody, and each that is put back is available again, if and only if
`npc_get_id` never returns while all `2³²` numbers are held. -/
theorem ids_unique_iff (maxid : UInt32) (cs : List Call) :
    Along step Sound (start maxid) cs ↔ Along step Room (start maxid) cs := by
  constructor
  · refine Along.of_invariant (I := fun _ => True) ?_ (fun _ _ _ _ _ _ => trivial) trivial
    rintro u (mem | id) - hsound
    · exact fun id p hget => ⟨id, hsound.2 id p hget⟩
    · trivial
  · exact Along.of_invariant (fun _ _ h hc => h.sound hc) (fun _ _ _ h hc hs => (h.step hc hs).1)
      (tracks_start maxid)

/-! ### A pool that is emptied -/

/-- **So many numbers have been given out**, and none has been put back. -/
structure Filled (maxid : UInt32) (k : ℕ) (u : Users) : Prop where
  maxid_eq : u.pool.maxid = maxid
  sized : u.pool.Sized
  bits : ∀ j, bit u.pool.map j = decide (j < k)
  held : ∀ n : UInt32, n.toNat < k → n ∈ u.held

theorem filled_start (maxid : UInt32) : Filled maxid 0 (start maxid) where
  maxid_eq := rfl
  sized := sized_npcCreatePool maxid
  bits j := by
    have hbit : bit (start maxid).pool.map j = false := bit_zeros 32 j
    rw [hbit]
    exact (decide_eq_false (Nat.not_lt_zero j)).symm
  held n hn := absurd hn (Nat.not_lt_zero _)

namespace Filled

variable {maxid : UInt32} {k : ℕ} {u : Users} (h : Filled maxid k u)

include h

theorem le_length : k ≤ 8 * u.pool.map.length := by
  rcases k with _ | k
  · exact Nat.zero_le _
  · exact lt_of_bit (by simpa using h.bits k)

/-- A map with all its bits set. -/
theorem full (hk : 8 * u.pool.map.length ≤ k) : u.pool.map.length ≤ firstFree u.pool.map := by
  by_contra hlt
  obtain ⟨h8, hfree, -⟩ := lowClear_firstFree Npcpool.m2id_lowClear (not_le.mp hlt)
  rw [h.bits, decide_eq_false_iff_not] at hfree
  omega

/-- A map that grows to this size. -/
theorem length_grow (hk : 8 * u.pool.map.length ≤ k)
    (hmax : times8 u.pool.map.length < u.pool.maxid.toNat)
    (hlt : u.pool.map.length < u.pool.grownSize) (hsize : u.pool.grownSize < 2 ^ 31) :
    (u.pool.grow true).map.length = u.pool.grownSize := by
  rw [grow, dif_pos ⟨h.full hk, hmax, rfl, hsize⟩]
  simp only [List.length_append, List.length_replicate]
  omega

/-- What is given out next, by a map that is long enough. -/
theorem npcGetId (hk : k < 8 * (u.pool.grow true).map.length) :
    ∃ p, u.pool.npcGetId true = some (.ofNat k, p) ∧ p.maxid = maxid ∧
      p.map.length = (u.pool.grow true).map.length ∧
      ∀ j, bit p.map j = decide (j < k + 1) := by
  have hfree : bit (u.pool.grow true).map k = false := by simp [bit_grow, h.bits]
  obtain ⟨id, p, hget⟩ := takeFree_ne_none hk hfree
  obtain ⟨k', rfl, -, hfree', hbelow, hbits, hlen, hmax⟩ := takeFree_eq_some hget
  simp only [bit_grow, h.bits, decide_eq_false_iff_not, decide_eq_true_eq] at hfree' hbelow hbits
  obtain rfl : k' = k := by
    refine le_antisymm (not_lt.mp fun hlt => ?_) (not_lt.mp hfree')
    exact lt_irrefl _ (hbelow k hlt)
  refine ⟨p, hget, hmax.trans ((maxid_grow true).trans h.maxid_eq), hlen, fun j => ?_⟩
  rw [hbits, ← Bool.decide_or, decide_eq_decide]
  omega

/-- **The numbers are given out in order**, `maxid` among them unless the map comes to an end
right in front of it. -/
theorem succ (h256 : ¬256 ∣ maxid.toNat) (hk : k ≤ maxid.toNat) :
    ∃ p, u.pool.npcGetId true = some (.ofNat k, p) ∧
      Filled maxid (k + 1) ⟨p, .ofNat k :: u.held⟩ := by
  have hle := h.le_length
  have hlt : maxid.toNat < 2 ^ 32 := maxid.toNat_lt
  have hgrow : k < 8 * (u.pool.grow true).map.length ∧ (u.pool.grow true).Sized := by
    rcases Nat.lt_or_ge k (8 * u.pool.map.length) with hlen | hlen
    · rw [grow_of_free true hlen (by simp [h.bits])]
      exact ⟨hlen, h.sized⟩
    · obtain ⟨h29, h32⟩ := h.sized
      rw [h.maxid_eq] at h32
      have h29' : u.pool.map.length ≠ 2 ^ 29 := by omega
      have hmax : times8 u.pool.map.length < u.pool.maxid.toNat := by
        rw [h.maxid_eq, times8]
        omega
      have hsize := h.sized.lt_grownSize h29' hmax
      refine ⟨?_, h.sized.grow true fun hc => absurd hc h29'⟩
      rw [h.length_grow hlen hmax hsize.1 (by omega)]
      omega
  obtain ⟨p, hget, hmax, hlen, hbits⟩ := h.npcGetId hgrow.1
  refine ⟨p, hget, hmax, ?_, hbits, ?_⟩
  · rw [Sized, hlen, hmax, ← h.maxid_eq, ← maxid_grow true]
    exact hgrow.2
  · intro n hn
    rcases Nat.lt_succ_iff_lt_or_eq.mp hn with hn | rfl
    · exact List.mem_cons_of_mem _ (h.held n hn)
    · rw [UInt32.ofNat_toNat]
      exact List.mem_cons_self

end Filled

/-- The run lemma: `npc_get_id` is called again and again. -/
theorem exists_filled (maxid : UInt32) (h256 : ¬256 ∣ maxid.toNat) (hk : k ≤ maxid.toNat + 1) :
    ∃ u, runSteps step (start maxid) (List.replicate k (.get true)) = some u ∧
      Filled maxid k u := by
  induction k with
  | zero => exact ⟨_, rfl, filled_start maxid⟩
  | succ k ih =>
    obtain ⟨u, hrun, hu⟩ := ih (by omega)
    obtain ⟨p, hget, hp⟩ := hu.succ h256 (by omega)
    refine ⟨_, ?_, hp⟩
    have hstep : step u (.get true) = some ⟨p, .ofNat k :: u.held⟩ := by rw [step, hget]
    rw [List.replicate_succ', runSteps_append, hrun, Option.bind_some, runSteps, hstep]
    rfl

/-- **Zero is given out twice**: all `2³²` fids are in use, the map has `2²⁹` bytes, and
`p->msize*8` is zero. The map grows by 32 bytes, and `i * 8` is zero as well. -/
theorem zero_given_twice :
    (∃ u p, runSteps step (start NOFID) (List.replicate (NOFID.toNat + 1) (.get true)) = some u ∧
      0 ∈ u.held ∧ u.pool.npcGetId true = some (0, p)) ∧
    ¬Along step Sound (start NOFID) (List.replicate (NOFID.toNat + 1 + 1) (.get true)) := by
  obtain ⟨u, hrun, hu⟩ := exists_filled NOFID (by decide) le_rfl
  have hall : NOFID.toNat + 1 = 2 ^ 32 := rfl
  have hheld : 0 ∈ u.held := hu.held 0 (by rw [hall]; decide)
  have hle := hu.le_length
  have hlen : u.pool.map.length = 2 ^ 29 := by
    have := hu.sized.1
    omega
  have hmax : times8 u.pool.map.length < u.pool.maxid.toNat := by
    rw [hlen, hu.maxid_eq]
    decide
  have hsize : u.pool.grownSize = 2 ^ 29 + 32 := by
    rw [grownSize, hlen, hu.maxid_eq]
    decide
  have hgrow := hu.length_grow (by omega) hmax (by omega) (by omega)
  obtain ⟨p, hget, -⟩ := hu.npcGetId (by omega)
  rw [hall] at hget
  refine ⟨⟨u, p, hrun, hheld, hget⟩, fun hsound => ?_⟩
  rw [List.replicate_succ'] at hsound
  exact (hsound.last hrun).2 0 p hget hheld

/-! ### The largest number -/

/-- What is given out is below `maxid`. -/
def Below (u : Users) : Call → Prop
  | .get mem => ∀ id p, u.pool.npcGetId mem = some (id, p) → id < u.pool.maxid
  | .put _ => True

/-- A call of `npc_get_id` that returns does so while a number below `maxid` is left. -/
def RoomBelow (u : Users) : Call → Prop
  | .get mem => ∀ id p, u.pool.npcGetId mem = some (id, p) → ∃ n < u.pool.maxid, n ∉ u.held
  | .put _ => True

theorem RoomBelow.room (h : RoomBelow u c) : Room u c := by
  rcases c with mem | id
  · intro id p hget
    obtain ⟨n, -, hn⟩ := h id p hget
    exact ⟨n, hn⟩
  · trivial

/-- The numbers are in order, and all below `maxid`. -/
def TracksBelow (u : Users) : Prop := Tracks u ∧ ∀ n ∈ u.held, n < u.pool.maxid

/-- Where all numbers so far are below `maxid`, there is room for another: `maxid`. -/
theorem TracksBelow.room (h : TracksBelow u) : ∃ n, n ∉ u.held :=
  ⟨u.pool.maxid, fun hc => UInt32.lt_irrefl _ (h.2 _ hc)⟩

theorem TracksBelow.step {v : Users} (h : TracksBelow u) (hc : Below u c)
    (hs : step u c = some v) : TracksBelow v := by
  have hroom : Room u c := by
    rcases c with mem | id
    · exact fun _ _ _ => h.room
    · trivial
  obtain ⟨ht, hmax⟩ := h.1.step hroom hs
  refine ⟨ht, ?_⟩
  rw [hmax]
  obtain ⟨mem, rfl, -, rfl⟩ | ⟨mem, id, p, rfl, hget, rfl⟩ | ⟨id, hid, rfl, rfl⟩ := step_cases hs
  · exact h.2
  · intro n hn
    rcases List.mem_cons.mp hn with rfl | hn
    · exact hc n p hget
    · exact h.2 n hn
  · exact fun n hn => h.2 n (List.mem_of_mem_erase hn)

/-- **No number from `maxid` upwards is given out, exactly as long as one below it is left**
whenever `npc_get_id` returns. -/
theorem ids_below_iff (maxid : UInt32) (cs : List Call) :
    Along step Below (start maxid) cs ↔ Along step RoomBelow (start maxid) cs := by
  constructor
  · refine Along.of_invariant (I := TracksBelow) ?_ (fun _ _ _ h hc hs => h.step hc hs)
      ⟨tracks_start maxid, by simp [start]⟩
    rintro u (mem | id) h hbelow
    · exact fun id p hget => ⟨id, hbelow id p hget, (h.1.npcGetId h.room hget).1⟩
    · trivial
  · refine Along.of_invariant ?_ (fun _ _ _ h hc hs => (h.step hc.room hs).1) (tracks_start maxid)
    rintro u (mem | id) h hroom
    · intro id p hget
      obtain ⟨n, hn, hfree⟩ := hroom id p hget
      obtain ⟨-, hall, -, -⟩ := h.npcGetId ⟨n, hfree⟩ hget
      -- a number below what was given out would be held
      exact UInt32.lt_of_le_of_lt (UInt32.not_lt.mp fun hlt => hfree (hall n hlt)) hn
    · trivial

/-- **`NOTAG` and `NOFID` are given out**, when all tags and all fids below them are in use. -/
theorem maxid_given :
    ¬Along step Below (start NOTAG.toUInt32)
      (List.replicate (NOTAG.toUInt32.toNat + 1) (.get true)) ∧
    ¬Along step Below (start NOFID) (List.replicate (NOFID.toNat + 1) (.get true)) := by
  have hgiven : ∀ maxid : UInt32, ¬256 ∣ maxid.toNat →
      ¬Along step Below (start maxid) (List.replicate (maxid.toNat + 1) (.get true)) := by
    intro maxid h256 hbelow
    obtain ⟨u, hrun, hu⟩ := exists_filled maxid h256 (Nat.le_succ maxid.toNat)
    obtain ⟨p, hget, -⟩ := hu.succ h256 le_rfl
    rw [List.replicate_succ'] at hbelow
    have hlt := hbelow.last hrun _ p hget
    rw [hu.maxid_eq, UInt32.ofNat_toNat] at hlt
    exact UInt32.lt_irrefl _ hlt
  exact ⟨hgiven _ (by decide), hgiven _ (by decide)⟩

/-! ### The pool of the client's calls -/

/-- A pool whose sizes do not wrap. -/
def ofNpcpool (p : Npcpool) : Idpool :=
  ⟨p.maxid, p.map, lt_of_le_of_lt p.small (by decide)⟩

theorem npcPutId_ofNpcpool (p : Npcpool) (id : UInt32) :
    (ofNpcpool p).npcPutId id = ofNpcpool (p.npcPutId id) :=
  rfl

end Idpool

end Diod
