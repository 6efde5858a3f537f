import Diod.Lib.Bitmap

/-!
# The client's numbers

`pool.c` of `libnpclient`: where the client takes the numbers of its fids and tags from.
A pool is a map with one bit for each number, and grows by 32 bytes when all bits are
set. The number given out is the lowest one that is free, and a table (`m2id`) tells the
lowest bit of a byte that is not set.

What the rest of the client relies on is in two theorems: a number that is given out was
free and nothing else changes (`Diod.Npcpool.npcGetId_spec`), and one that is taken back
is free and nothing else changes (`Diod.Npcpool.has_npcPutId`).
-/

namespace Diod

/-- `m2id`: the lowest bit of a byte that is not set. -/
def m2id : List ℕ :=
  [0, 1, 0, 2, 0, 1, 0, 3, 0, 1, 0, 2, 0, 1, 0, 4, 0, 1, 0, 2, 0, 1, 0, 3, 0, 1, 0, 2, 0, 1, 0, 5,
   0, 1, 0, 2, 0, 1, 0, 3, 0, 1, 0, 2, 0, 1, 0, 4, 0, 1, 0, 2, 0, 1, 0, 3, 0, 1, 0, 2, 0, 1, 0, 6,
   0, 1, 0, 2, 0, 1, 0, 3, 0, 1, 0, 2, 0, 1, 0, 4, 0, 1, 0, 2, 0, 1, 0, 3, 0, 1, 0, 2, 0, 1, 0, 5,
   0, 1, 0, 2, 0, 1, 0, 3, 0, 1, 0, 2, 0, 1, 0, 4, 0, 1, 0, 2, 0, 1, 0, 3, 0, 1, 0, 2, 0, 1, 0, 7,
   0, 1, 0, 2, 0, 1, 0, 3, 0, 1, 0, 2, 0, 1, 0, 4, 0, 1, 0, 2, 0, 1, 0, 3, 0, 1, 0, 2, 0, 1, 0, 5,
   0, 1, 0, 2, 0, 1, 0, 3, 0, 1, 0, 2, 0, 1, 0, 4, 0, 1, 0, 2, 0, 1, 0, 3, 0, 1, 0, 2, 0, 1, 0, 6,
   0, 1, 0, 2, 0, 1, 0, 3, 0, 1, 0, 2, 0, 1, 0, 4, 0, 1, 0, 2, 0, 1, 0, 3, 0, 1, 0, 2, 0, 1, 0, 5,
   0, 1, 0, 2, 0, 1, 0, 3, 0, 1, 0, 2, 0, 1, 0, 4, 0, 1, 0, 2, 0, 1, 0, 3, 0, 1, 0, 2, 0, 1, 0, 0]

/-- `Npcpool`. Its numbers are 32 bits wide. -/
structure Npcpool where
  maxid : UInt32
  map : List UInt8
  small : map.length ≤ 2 ^ 29

namespace Npcpool

/-- `npc_create_pool`, with memory -/
def npcCreatePool (maxid : UInt32) : Npcpool := ⟨maxid, List.replicate 32 0, by simp⟩

variable (p : Npcpool)

/-- The first byte with a bit that is not set. -/
def firstFree : ℕ := p.map.findIdx (· ≠ 0xff)

/-- How long the map becomes when it is full. -/
def grownSize : ℕ :=
  let n := p.map.length + 32
  if n * 8 > p.maxid.toNat then p.maxid.toNat / 8 + 1 else n

/-- The first part of `npc_get_id`: a full map grows, unless it is as long as it may be. -/
def grow : Npcpool :=
  if p.firstFree ≥ p.map.length ∧ p.map.length * 8 < p.maxid.toNat then
    ⟨p.maxid, p.map ++ List.replicate (p.grownSize - p.map.length) 0, by
      have hs := p.small
      have hm := p.maxid.toNat_lt
      rw [List.length_append, List.length_replicate, grownSize]
      split <;> omega⟩
  else p

/-- The second part: the lowest bit of the first byte that has one. Without such a byte
the thread waits. -/
def takeFree : Option (UInt32 × Npcpool) :=
  (p.map[p.firstFree]?).map fun b =>
    let ret := m2id.getD b.toNat 0
    (.ofNat (ret + p.firstFree * 8),
      ⟨p.maxid, p.map.set p.firstFree (b ||| (1 <<< UInt8.ofNat ret)), by simpa using p.small⟩)

/-- `npc_get_id`, with memory -/
def npcGetId : Option (UInt32 × Npcpool) := p.grow.takeFree

/-- `npc_put_id` -/
def npcPutId (id : UInt32) : Npcpool :=
  ⟨p.maxid, p.map.modify (id.toNat / 8) (· &&& ~~~(1 <<< UInt8.ofNat (id.toNat % 8))), by
    simpa using p.small⟩

/-- **The numbers that are given out.** -/
def has (n : UInt32) : Bool := (p.map.getD (n.toNat / 8) 0).toNat.testBit (n.toNat % 8)

/-! ### Giving out and taking back -/

theorem m2id_lowClear : LowClear fun b => m2id.getD b 0 := by
  unfold LowClear
  decide +kernel

theorem has_eq_bit (n : UInt32) : p.has n = bit p.map n.toNat := rfl

theorem has_npcCreatePool (maxid n : UInt32) : (npcCreatePool maxid).has n = false :=
  bit_zeros 32 n.toNat

theorem has_grow (n : UInt32) : p.grow.has n = p.has n := by
  rw [grow]
  split
  · exact bit_append_zeros _ _ _
  · rfl

variable {p}

variable {id : UInt32} {p' : Npcpool}

theorem takeFree_spec (h : p.takeFree = some (id, p')) :
    p.has id = false ∧ ∀ n, p'.has n = (p.has n || decide (n = id)) := by
  obtain ⟨b, hb, he⟩ := Option.map_eq_some_iff.mp h
  obtain ⟨hlt, hget⟩ := List.getElem?_eq_some_iff.mp hb
  obtain rfl : p.map.getD p.firstFree 0 = b := by rw [List.getD_eq_getElem _ _ hlt, hget]
  obtain ⟨hr, hclear, -⟩ := lowClear_firstFree m2id_lowClear hlt
  change m2id.getD (p.map.getD p.firstFree 0).toNat 0 < 8 at hr
  obtain ⟨rfl, hp'⟩ := Prod.mk.inj he
  have hs := p.small
  have hid : (UInt32.ofNat (m2id.getD (p.map.getD p.firstFree 0).toNat 0 +
      p.firstFree * 8)).toNat = m2id.getD (p.map.getD p.firstFree 0).toNat 0 + p.firstFree * 8 :=
    UInt32.toNat_ofNat_of_lt' (show _ < 4294967296 by omega)
  constructor
  · rw [has_eq_bit, hid]
    exact hclear
  · intro n
    rw [← hp', has_eq_bit, has_eq_bit]
    refine (bit_set hlt hr n.toNat).trans ?_
    congr 1
    rw [decide_eq_decide, ← UInt32.toNat_inj, hid]

/-- **A number that is given out was free, and nothing else changes.** -/
theorem npcGetId_spec (h : p.npcGetId = some (id, p')) :
    p.has id = false ∧ ∀ n, p'.has n = (p.has n || decide (n = id)) := by
  have := takeFree_spec h
  simpa only [has_grow] using this

/-- **A number that is taken back is free, and nothing else changes.** -/
theorem has_npcPutId (id n : UInt32) : (p.npcPutId id).has n = (p.has n && decide (n ≠ id)) := by
  refine (bit_clear p.map id.toNat n.toNat).trans ?_
  congr 1
  rw [decide_eq_decide, Ne, Ne, UInt32.toNat_inj]

end Npcpool

end Diod
