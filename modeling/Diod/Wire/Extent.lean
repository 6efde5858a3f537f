import Diod.Wire.RoundTrip

/-!
# How far the decoder reads

`np_deserialize` is given a buffer and nothing that says how much of it is filled. It takes
the size of the packet from its first four bytes and parses up to there, wherever that is
(`Diod.parseEnd`).

Two buffers that agree up to that point are decoded alike (`Diod.deserialize_alike`), so what
lies behind it does not matter; and a packet that is accepted has at least its header before
it (`Diod.deserialize_ep`). Both are proved for the fields one by one, with one exception: a
block of data whose count is `2³¹` or more moves the cursor back, possibly to before the
packet. Such a block is the last field of every message that has one, so nothing is read
from there.
-/

namespace Diod

variable {α β : Type}

/-! ### Buffers that agree -/

/-- **Two buffers that agree up to `n`**, which is not before the end. -/
structure Alike (n : ℕ) (b b' : Cbuf) : Prop where
  p : b'.p = b.p
  ep : b'.ep = b.ep
  mem : b'.mem.take n = b.mem.take n
  le : b.ep ≤ n

/-- What is left of two such buffers by a piece of the decoder: they still agree, the end is
where it was, and an overflow is not forgotten. -/
structure After (n : ℕ) (b b₁ b₁' : Cbuf) : Prop extends Alike n b₁ b₁' where
  same : b₁.ep = b.ep
  past : b.ep < b.p → b.ep < b₁.p

/-- **Code that does not look behind the end**, and does not move back. -/
def Bounded (x : BufM α) : Prop :=
  ∀ ⦃n b b' a b₁⦄, Alike n b b' → 0 ≤ b.p → x b = some (a, b₁) →
    ∃ b₁', x b' = some (a, b₁') ∧ After n b b₁ b₁' ∧ 0 ≤ b₁.p

/-- The same of the code that runs last, which may move back. -/
def BoundedLast (x : BufM α) : Prop :=
  ∀ ⦃n b b' a b₁⦄, Alike n b b' → 0 ≤ b.p → x b = some (a, b₁) →
    ∃ b₁', x b' = some (a, b₁') ∧ After n b b₁ b₁'

variable {x : BufM α} {b b' : Cbuf} {n : ℕ} {mem : Bytes} {fc : Npfcall}

theorem Bounded.last (h : Bounded x) : BoundedLast x := by
  intro n b b' a b₁ hb hp hx
  obtain ⟨b₁', hx', ha, -⟩ := h hb hp hx
  exact ⟨b₁', hx', ha⟩

theorem bufM_bind_eq_some {f : α → BufM β} {b₂ : Cbuf} {c : β} :
    (x >>= f) b = some (c, b₂) ↔ ∃ a b₁, x b = some (a, b₁) ∧ f a b₁ = some (c, b₂) := by
  constructor
  · intro h
    obtain ⟨⟨a, b₁⟩, hx, hf⟩ := Option.bind_eq_some_iff.mp h
    exact ⟨a, b₁, hx, hf⟩
  · rintro ⟨a, b₁, hx, hf⟩
    exact (bufM_bind hx).trans hf

theorem After.trans {b₁ b₁' b₂ b₂' : Cbuf} (h : After n b b₁ b₁')
    (h' : After n b₁ b₂ b₂') : After n b b₂ b₂' := by
  have hs := h.same
  have ho := h.past
  have ho' := h'.past
  exact ⟨h'.toAlike, h'.same.trans hs, fun hb => by rw [hs] at ho'; exact ho' (ho hb)⟩

namespace Bounded

theorem pure (a : α) : Bounded (pure a : BufM α) := by
  rintro n b b' _ _ hb hp ⟨⟩
  exact ⟨b', rfl, ⟨hb, rfl, id⟩, hp⟩

theorem failure : Bounded (failure : BufM α) := by
  rintro n b b' _ _ hb hp ⟨⟩

variable {x : BufM α} {f : α → BufM β}

theorem bind (hx : Bounded x) (hf : ∀ a, Bounded (f a)) : Bounded (x >>= f) := by
  intro n b b' c b₂ hb hp h
  obtain ⟨a, b₁, h₁, h₂⟩ := bufM_bind_eq_some.mp h
  obtain ⟨b₁', h₁', ha₁, hp₁⟩ := hx hb hp h₁
  obtain ⟨b₂', h₂', ha₂, hp₂⟩ := hf a ha₁.toAlike hp₁ h₂
  exact ⟨b₂', bufM_bind_eq_some.mpr ⟨a, b₁', h₁', h₂'⟩, ha₁.trans ha₂, hp₂⟩

theorem bindLast (hx : Bounded x) (hf : ∀ a, BoundedLast (f a)) : BoundedLast (x >>= f) := by
  intro n b b' c b₂ hb hp h
  obtain ⟨a, b₁, h₁, h₂⟩ := bufM_bind_eq_some.mp h
  obtain ⟨b₁', h₁', ha₁, hp₁⟩ := hx hb hp h₁
  obtain ⟨b₂', h₂', ha₂⟩ := hf a ha₁.toAlike hp₁ h₂
  exact ⟨b₂', bufM_bind_eq_some.mpr ⟨a, b₁', h₁', h₂'⟩, ha₁.trans ha₂⟩

theorem map (hx : Bounded x) (g : α → β) : Bounded (g <$> x) := by
  rw [map_eq_pure_bind]
  exact hx.bind fun a => Bounded.pure (g a)

end Bounded

theorem BoundedLast.map (hx : BoundedLast x) (g : α → β) : BoundedLast (g <$> x) := by
  intro n b b' c b₁ hb hp h
  rw [map_eq_pure_bind] at h ⊢
  obtain ⟨a, b₂, h₁, h₂⟩ := bufM_bind_eq_some.mp h
  obtain ⟨rfl, rfl⟩ := Prod.mk.inj (Option.some.inj h₂)
  obtain ⟨b₁', h₁', ha⟩ := hx hb hp h₁
  exact ⟨b₁', bufM_bind_eq_some.mpr ⟨a, b₁', h₁', rfl⟩, ha⟩

/-! ### The readers -/

theorem bufCheckSize_alike (hb : Alike n b b') (len : ℤ) :
    (bufCheckSize len b = some (true, b) ∧ bufCheckSize len b' = some (true, b') ∧
      b.p + len ≤ b.ep) ∨
    ∃ d d', bufCheckSize len b = some (false, d) ∧ bufCheckSize len b' = some (false, d') ∧
      After n b d d' ∧ b.p ≤ d.p := by
  rcases lt_or_ge b.ep (b.p + len) with h | h
  · have h' : b'.ep < b'.p + len := by rwa [hb.p, hb.ep]
    refine .inr ⟨_, _, if_pos h, if_pos h', ?_⟩
    by_cases hp : b.p ≤ b.ep
    · have hp' : b'.p ≤ b'.ep := by rwa [hb.p, hb.ep]
      rw [if_pos hp, if_pos hp']
      refine ⟨⟨⟨?_, hb.ep, hb.mem, hb.le⟩, rfl, fun ho => absurd ho (not_lt.mpr hp)⟩, ?_⟩
      · exact congrArg (· + 1) hb.ep
      · exact Int.le_add_one hp
    · have hp' : ¬b'.p ≤ b'.ep := by rwa [hb.p, hb.ep]
      rw [if_neg hp, if_neg hp']
      exact ⟨⟨hb, rfl, id⟩, le_rfl⟩
  · have h' : b'.p + len ≤ b'.ep := by rwa [hb.p, hb.ep]
    exact .inl ⟨if_neg (not_lt.mpr h), if_neg (not_lt.mpr h'), h⟩

/-- Bytes before the end are the same in both buffers. -/
theorem take_drop_alike (hb : Alike n b b') (hp : 0 ≤ b.p) {w : ℕ} (hw : b.p + w ≤ b.ep) :
    (b'.mem.drop b'.p.toNat).take w = (b.mem.drop b.p.toNat).take w := by
  have hle := hb.le
  have hcut : ∀ mem : Bytes, (mem.drop b.p.toNat).take w =
      ((mem.take n).drop b.p.toNat).take w := by
    intro mem
    rw [List.drop_take, List.take_take, Nat.min_eq_left (by omega)]
  rw [hb.p, hcut, hb.mem, ← hcut]

theorem bounded_bufGetInt (w : ℕ) : Bounded (bufGetInt w) := by
  intro n b b' a b₁ hb hp hx
  rcases bufCheckSize_alike hb w with ⟨hc, hc', hle⟩ | ⟨d, d', hc, hc', hd, hpd⟩
  · rw [bufGetInt, bufM_bind hc] at hx
    obtain ⟨rfl, rfl⟩ := Prod.mk.inj (Option.some.inj hx)
    refine ⟨{ b' with p := b'.p + w }, ?_, ⟨⟨congrArg (· + (w : ℤ)) hb.p, hb.ep, hb.mem, hb.le⟩,
      rfl, fun ho => ?_⟩, ?_⟩
    · rw [bufGetInt, bufM_bind hc']
      change some (orBytes ((b'.mem.drop b'.p.toNat).take w), _) = _
      rw [take_drop_alike hb hp hle]
    · change b.ep < b.p + w
      omega
    · change 0 ≤ b.p + w
      omega
  · rw [bufGetInt, bufM_bind hc] at hx
    obtain ⟨rfl, rfl⟩ := Prod.mk.inj (Option.some.inj hx)
    exact ⟨d', by rw [bufGetInt, bufM_bind hc']; rfl, hd, hp.trans hpd⟩

/-- The pointer that `buf_alloc` returns is the cursor, which moves by the length. -/
theorem bufAlloc_alike {b₁ : Cbuf} {a : Option ℤ} {len : ℤ} (hb : Alike n b b')
    (hx : bufAlloc len b = some (a, b₁)) : ∃ b₁', bufAlloc len b' = some (a, b₁') ∧
      Alike n b₁ b₁' ∧ b₁.ep = b.ep ∧ (0 ≤ len → b.p ≤ b₁.p) := by
  rcases bufCheckSize_alike hb len with ⟨hc, hc', hle⟩ | ⟨d, d', hc, hc', hd, hpd⟩
  · rw [bufAlloc, bufM_bind hc] at hx
    obtain ⟨rfl, rfl⟩ := Prod.mk.inj (Option.some.inj hx)
    refine ⟨{ b' with p := b'.p + len }, ?_, ⟨congrArg (· + len) hb.p, hb.ep, hb.mem, hb.le⟩, rfl,
      fun hl => ?_⟩
    · rw [bufAlloc, bufM_bind hc', ← hb.p]
      rfl
    · change b.p ≤ b.p + len
      omega
  · rw [bufAlloc, bufM_bind hc] at hx
    obtain ⟨rfl, rfl⟩ := Prod.mk.inj (Option.some.inj hx)
    exact ⟨d', by rw [bufAlloc, bufM_bind hc']; rfl, hd.toAlike, hd.same, fun _ => hpd⟩

theorem bounded_bufAlloc (w : ℕ) : Bounded (bufAlloc w) := by
  intro n b b' a b₁ hb hp hx
  obtain ⟨b₁', hx', ha, hs, hle⟩ := bufAlloc_alike hb hx
  have hpp := hle (Int.natCast_nonneg w)
  exact ⟨b₁', hx', ⟨ha, hs, fun ho => lt_of_lt_of_le ho hpp⟩, hp.trans hpp⟩

theorem bounded_bufGetInt16 : Bounded bufGetInt16 := (bounded_bufGetInt 2).map _

theorem bounded_bufGetStr : Bounded bufGetStr :=
  bounded_bufGetInt16.bind fun len => (bounded_bufAlloc len.toNat).bind fun _ => Bounded.pure _

theorem bounded_bufGetQid : Bounded bufGetQid :=
  ((bounded_bufGetInt 1).map _).bind fun _ => ((bounded_bufGetInt 4).map _).bind fun _ =>
    ((bounded_bufGetInt 8).map _).bind fun _ => Bounded.pure _

theorem bounded_bufTimes (hx : Bounded x) (n : ℕ) : Bounded (bufTimes x n) := by
  induction n with
  | zero => exact Bounded.pure []
  | succ n ih => exact hx.bind fun a => ih.bind fun l => Bounded.pure (a :: l)

theorem bounded_bufGetWalk (hx : Bounded x) : Bounded (bufGetWalk x) := by
  refine bounded_bufGetInt16.bind fun n => ?_
  by_cases h : n.toNat > MAXWELEM
  · rw [if_pos h]
    exact Bounded.failure.bind fun _ => bounded_bufTimes hx _
  · rw [if_neg h]
    exact (Bounded.pure ()).bind fun _ => bounded_bufTimes hx _

/-- **A block of data**: its count may move the cursor back, but not after an overflow, as the
count is zero then. -/
theorem boundedLast_bufGetData : BoundedLast bufGetData := by
  intro n b b' a b₂ hb hp h
  obtain ⟨count, b₁, h₁, h₂⟩ := bufM_bind_eq_some.mp h
  obtain ⟨p, b₃, h₃, h₄⟩ := bufM_bind_eq_some.mp h₂
  obtain ⟨rfl, rfl⟩ := Prod.mk.inj (Option.some.inj h₄)
  obtain ⟨b₁', h₁', ha, hp₁⟩ := (bounded_bufGetInt 4).map UInt32.ofNat hb hp h₁
  obtain ⟨b₃', h₃', ha₃, hs, hle⟩ := bufAlloc_alike ha.toAlike h₃
  refine ⟨b₃', ?_, ha₃, hs.trans ha.same, fun ho => ?_⟩
  · exact bufM_bind_eq_some.mpr ⟨count, b₁', h₁', bufM_bind_eq_some.mpr ⟨p, b₃', h₃', rfl⟩⟩
  · have hzero : count = 0 := by
      have hc : bufCheckSize (4 : ℕ) b = some (false, b) := by
        refine (if_pos (by omega)).trans ?_
        rw [if_neg (not_le.mpr ho)]
      have hg : bufGetInt 4 b = some (0, b) := by
        rw [bufGetInt, bufM_bind hc]
        rfl
      rw [bufGetInt32_eq hg] at h₁
      exact (Prod.mk.inj (Option.some.inj h₁)).1.symm
    have hpp := hle (by rw [hzero]; decide)
    exact lt_of_lt_of_le (ha.past ho) hpp

/-! ### The fields of a message -/

theorem bounded_getVal {k : Kind} (hk : k ≠ .data) : Bounded (getVal k) := by
  unfold getVal
  split
  · exact ((bounded_bufGetInt 1).map _).bind fun _ => Bounded.pure _
  · exact ((bounded_bufGetInt 2).map _).bind fun _ => Bounded.pure _
  · exact ((bounded_bufGetInt 4).map _).bind fun _ => Bounded.pure _
  · exact ((bounded_bufGetInt 8).map _).bind fun _ => Bounded.pure _
  · exact (bounded_bufGetInt _).bind fun _ => Bounded.pure _
  · exact bounded_bufGetStr.bind fun _ => Bounded.pure _
  · exact absurd rfl hk
  · exact (bounded_bufGetWalk bounded_bufGetStr).bind fun _ => Bounded.pure _
  · exact (bounded_bufGetWalk bounded_bufGetQid).bind fun _ => Bounded.pure _

/-- The fields of a message are read before the end. -/
theorem boundedLast_getVals {ks : List Kind} (h : dataLast ks = true) :
    BoundedLast (getVals ks) := by
  induction ks with
  | nil => exact (Bounded.pure []).last
  | cons k ks ih =>
    obtain ⟨hks, hk⟩ := dataLast_cons h
    by_cases hd : k = .data
    · obtain rfl := hk hd
      obtain rfl := hd
      have hget : getVals [.data] = (fun d : UInt32 × Option ℤ => [.data d.1.toNat d.2]) <$>
          bufGetData := by
        simp [getVals, getVal]
      rw [hget]
      exact boundedLast_bufGetData.map _
    · refine (bounded_getVal hd).bindLast fun v => ?_
      rw [bind_pure_comp]
      exact (ih hks).map _

/-! ### Packets -/

theorem moves_bufGetInt (n : ℕ) : Moves (bufGetInt n) n := by
  intro b
  rcases bufCheckSize_run n b with ⟨h, -⟩ | ⟨b', h, hep, hp⟩
  · exact ⟨_, { b with p := b.p + n }, by rw [bufGetInt, bufM_bind h]; rfl, rfl, .inl le_rfl⟩
  · exact ⟨0, b', by rw [bufGetInt, bufM_bind h]; rfl, hep, .inr hp⟩

/-- **How a packet is accepted**: type and tag, and then the fields of that type. -/
theorem deserialize_eq_fields (h : deserialize mem = some (fc, b)) : ∃ type tag b₁,
      (do let type ← bufGetInt8; let tag ← bufGetInt16; return (type, tag))
        ⟨mem, 4, parseEnd mem⟩ = some ((type, tag), b₁) ∧
      ∃ t, MsgType.ofCode type = some t ∧ fc.u.type = t ∧
        getVals t.layout b₁ = some (fc.u.vals, b) ∧ b.p ≤ b.ep ∧
        fc = ⟨sizeField mem, type, tag, b.mem, fc.u⟩ := by
  rw [deserialize_from] at h
  obtain ⟨type, b₀, h₀, h⟩ := bufM_bind_eq_some.mp h
  obtain ⟨tag, b₁, h₁, h⟩ := bufM_bind_eq_some.mp h
  refine ⟨type, tag, b₁, ?_, npDeserializeU_eq_some.mp h⟩
  exact bufM_bind_eq_some.mpr ⟨type, b₀, h₀, bufM_bind_eq_some.mpr ⟨tag, b₁, h₁, rfl⟩⟩

theorem bounded_header : Bounded (do
    let type ← bufGetInt8; let tag ← bufGetInt16; return (type, tag)) :=
  ((bounded_bufGetInt 1).map _).bind fun _ => bounded_bufGetInt16.bind fun _ => Bounded.pure _

/-- **The end that the decoder has used**, and before which there is a whole header. -/
theorem deserialize_ep (h : deserialize mem = some (fc, b)) : b.ep = parseEnd mem ∧ 7 ≤ b.ep := by
  obtain ⟨type, tag, b₁, hhdr, t, -, -, hvals, hp, -⟩ := deserialize_eq_fields h
  have hb : Alike (parseEnd mem).toNat ⟨mem, 4, parseEnd mem⟩ ⟨mem, 4, parseEnd mem⟩ :=
    ⟨rfl, rfl, rfl, Int.self_le_toNat _⟩
  obtain ⟨b₁', -, ha₁, hp₁⟩ := bounded_header hb (show (0 : ℤ) ≤ 4 by decide) hhdr
  obtain ⟨b', -, ha⟩ := boundedLast_getVals (dataLast_layout t) ha₁.toAlike hp₁ hvals
  have hep₁ : b₁.ep = parseEnd mem := ha₁.same
  have hmoves : Moves (do
      let type ← bufGetInt8; let tag ← bufGetInt16; return (type, tag)) 3 := by
    have h₁ : Moves bufGetInt8 1 := by
      rw [bufGetInt8, map_eq_pure_bind]
      exact (moves_bufGetInt 1).andReturn _
    have h₂ : Moves bufGetInt16 2 := by
      rw [bufGetInt16, map_eq_pure_bind]
      exact (moves_bufGetInt 2).andReturn _
    exact h₁.bind fun type => h₂.andReturn fun tag => (type, tag)
  obtain ⟨a, b₂, hrun, -, hm⟩ := hmoves ⟨mem, 4, parseEnd mem⟩
  rw [hhdr] at hrun
  obtain ⟨-, rfl⟩ := Prod.mk.inj (Option.some.inj hrun)
  have hsame := ha.same
  -- there was no overflow, as it would still be there
  have hover : ¬b₁.ep < b₁.p := fun ho => by
    have := ha.past ho
    omega
  simp only at hm
  omega

/-- **What is behind the end does not matter.** -/
theorem deserialize_alike {mem' : Bytes} (hmem : mem'.take n = mem.take n) (hn : parseEnd mem ≤ n)
    (h : deserialize mem = some (fc, b)) :
    ∃ fc' b', deserialize mem' = some (fc', b') ∧ fc'.size = fc.size ∧ fc'.type = fc.type ∧
      fc'.tag = fc.tag ∧ fc'.u = fc.u := by
  obtain ⟨hep, h7⟩ := deserialize_ep h
  have hsize : sizeField mem' = sizeField mem := by
    have hcut : ∀ mem : Bytes, mem.take 4 = (mem.take n).take 4 := by
      intro mem
      rw [List.take_take, Nat.min_eq_left (by omega)]
    rw [sizeField, sizeField, hcut, hmem, ← hcut]
  have hend : parseEnd mem' = parseEnd mem := by rw [parseEnd, parseEnd, hsize]
  obtain ⟨type, tag, b₁, hhdr, t, ht, hut, hvals, hp, hfc⟩ := deserialize_eq_fields h
  have hb : Alike n ⟨mem, 4, parseEnd mem⟩ ⟨mem', 4, parseEnd mem'⟩ := ⟨rfl, hend, hmem, hn⟩
  obtain ⟨b₁', hhdr', ha₁, hp₁⟩ := bounded_header hb (show (0 : ℤ) ≤ 4 by decide) hhdr
  obtain ⟨b', hvals', ha⟩ := boundedLast_getVals (dataLast_layout t) ha₁.toAlike hp₁ hvals
  have hp' : b'.p ≤ b'.ep := by rwa [ha.p, ha.ep]
  refine ⟨⟨sizeField mem', type, tag, b'.mem, fc.u⟩, b', ?_, ?_⟩
  · rw [deserialize_from]
    obtain ⟨type', b₀, h₀, h'⟩ := bufM_bind_eq_some.mp hhdr'
    obtain ⟨tag', b₂, h₂, h'⟩ := bufM_bind_eq_some.mp h'
    obtain ⟨hpair, rfl⟩ := Prod.mk.inj (Option.some.inj h')
    obtain ⟨rfl, rfl⟩ := Prod.mk.inj hpair
    refine bufM_bind_eq_some.mpr ⟨type', b₀, h₀, bufM_bind_eq_some.mpr ⟨tag', b₂, h₂, ?_⟩⟩
    exact npDeserializeU_eq_some.mpr ⟨t, ht, hut, hvals', hp', rfl⟩
  · rw [hfc]
    exact ⟨hsize, rfl, rfl, rfl⟩

end Diod
