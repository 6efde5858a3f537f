import Diod.Lib.LittleEndian

/-!
# Exact codecs

A `Diod.Codec` is an encoder and a decoder that undo each other *in both
directions*: what is encoded is read back, with whatever follows it left alone,
and what is decoded is the encoding of what came out. The values that can be
encoded at all are carried along as a predicate, so that a length that does not
fit its prefix is not silently cut.

The combinators are the ones a wire format is written with: a number of a fixed
width, a block behind its length, a list behind its count, and one field after
another. Each keeps both directions, so a format assembled from them needs no
proof of its own.
-/

namespace Diod

variable {α β : Type}

/-- **An exact codec**: an encoder and a decoder inverse to each other on the
values the format can carry. -/
structure Codec (α : Type) where
  /-- The bytes of a value. -/
  enc : α → Bytes
  /-- Read a value off the front of some bytes; the rest is handed back. -/
  dec : Bytes → Option (α × Bytes)
  /-- The values the format can carry. -/
  Ok : α → Prop
  /-- What is encoded is read back. -/
  dec_enc : ∀ a r, Ok a → dec (enc a ++ r) = some (a, r)
  /-- What is read is an encoding. -/
  enc_of_dec : ∀ {bs a r}, dec bs = some (a, r) → bs = enc a ++ r ∧ Ok a

/-- Split `n` bytes off the front, when there are that many. -/
def splitFront (n : ℕ) (bs : Bytes) : Option (Bytes × Bytes) :=
  if n ≤ bs.length then some (bs.take n, bs.drop n) else none

theorem splitFront_append (d r : Bytes) : splitFront d.length (d ++ r) = some (d, r) := by
  simp [splitFront]

theorem splitFront_eq_none {n : ℕ} {bs : Bytes} : splitFront n bs = none ↔ bs.length < n := by
  simp [splitFront]

theorem splitFront_eq_some {n : ℕ} {bs d r : Bytes} (h : splitFront n bs = some (d, r)) :
    bs = d ++ r ∧ d.length = n := by
  by_cases hn : n ≤ bs.length
  · rw [splitFront, if_pos hn, Option.some.injEq, Prod.mk.injEq] at h
    obtain ⟨rfl, rfl⟩ := h
    exact ⟨(List.take_append_drop n bs).symm, by simp [hn]⟩
  · rw [splitFront, if_neg hn] at h
    cases h

namespace Codec

/-! ### Numbers and blocks -/

/-- A little-endian number of `w` bytes. -/
def nat (w : ℕ) : Codec ℕ where
  enc := leBytes w
  dec bs := (splitFront w bs).map fun p => (leNat p.1, p.2)
  Ok v := v < 256 ^ w
  dec_enc v r hv := by
    have h := splitFront_append (leBytes w v) r
    rw [length_leBytes] at h
    rw [h, Option.map_some, leNat_leBytes_of_lt hv]
  enc_of_dec {bs a r} h := by
    obtain ⟨⟨d, r'⟩, hs, he⟩ := Option.map_eq_some_iff.mp h
    obtain ⟨rfl, rfl⟩ := Prod.mk.inj he
    obtain ⟨rfl, hl⟩ := splitFront_eq_some hs
    exact ⟨by rw [← hl, leBytes_leNat], by rw [← hl]; exact leNat_lt d⟩

theorem nat_dec_eq_none {w : ℕ} {bs : Bytes} : (nat w).dec bs = none ↔ bs.length < w := by
  simp [nat, splitFront]

theorem nat_dec_eq_some {w v : ℕ} {bs r : Bytes} :
    (nat w).dec bs = some (v, r) ↔ w ≤ bs.length ∧ v = leNat (bs.take w) ∧ r = bs.drop w := by
  by_cases h : w ≤ bs.length <;> simp [nat, splitFront, h, eq_comm]

/-- A block behind its length, which takes `w` bytes. -/
def block (w : ℕ) : Codec Bytes where
  enc d := leBytes w d.length ++ d
  dec bs := ((nat w).dec bs).bind fun p => splitFront p.1 p.2
  Ok d := d.length < 256 ^ w
  dec_enc d r hd := by
    have h : (nat w).dec (leBytes w d.length ++ (d ++ r)) = some (d.length, d ++ r) :=
      (nat w).dec_enc d.length (d ++ r) hd
    rw [List.append_assoc, h, Option.bind_some, splitFront_append]
  enc_of_dec {bs d r} h := by
    obtain ⟨⟨n, r'⟩, hn, hd⟩ := Option.bind_eq_some_iff.mp h
    obtain ⟨rfl, hok⟩ := (nat w).enc_of_dec hn
    obtain ⟨rfl, rfl⟩ := splitFront_eq_some hd
    exact ⟨by simp [nat], hok⟩

/-! ### Lists -/

/-- The decoder of `n` values in a row. -/
def decTimes (c : Codec α) : ℕ → Bytes → Option (List α × Bytes)
  | 0, bs => some ([], bs)
  | n + 1, bs => (c.dec bs).bind fun p => (decTimes c n p.2).map fun q => (p.1 :: q.1, q.2)

theorem decTimes_flatMap (c : Codec α) (l : List α) (r : Bytes) (hl : ∀ a ∈ l, c.Ok a) :
    decTimes c l.length (l.flatMap c.enc ++ r) = some (l, r) := by
  induction l with
  | nil => rfl
  | cons a l ih =>
    have ha := c.dec_enc a (l.flatMap c.enc ++ r) (hl a (by simp))
    simp only [List.flatMap_cons, List.append_assoc, List.length_cons, decTimes, ha,
      Option.bind_some, ih fun b hb => hl b (by simp [hb]), Option.map_some]

theorem decTimes_eq_some (c : Codec α) : ∀ {n : ℕ} {bs : Bytes} {l : List α} {r : Bytes},
    decTimes c n bs = some (l, r) →
      bs = l.flatMap c.enc ++ r ∧ l.length = n ∧ ∀ a ∈ l, c.Ok a
  | 0, bs, l, r, h => by
    obtain ⟨rfl, rfl⟩ := Prod.mk.inj (Option.some.inj h)
    simp
  | n + 1, bs, l, r, h => by
    obtain ⟨⟨a, bs'⟩, ha, h'⟩ := Option.bind_eq_some_iff.mp h
    obtain ⟨⟨l', r'⟩, hl, he⟩ := Option.map_eq_some_iff.mp h'
    obtain ⟨rfl, rfl⟩ := Prod.mk.inj he
    obtain ⟨rfl, hok⟩ := c.enc_of_dec ha
    obtain ⟨hbs, hlen, hall⟩ := decTimes_eq_some c hl
    refine ⟨?_, by simp [hlen], ?_⟩
    · change bs' = _ at hbs
      rw [hbs, List.flatMap_cons, List.append_assoc]
    · rintro b (_ | ⟨_, hb⟩)
      exacts [hok, hall b hb]

/-- A list of at most `m` values behind their number, which takes `w` bytes. -/
def counted (w m : ℕ) (c : Codec α) : Codec (List α) where
  enc l := leBytes w l.length ++ l.flatMap c.enc
  dec bs := ((nat w).dec bs).bind fun p => if p.1 ≤ m then decTimes c p.1 p.2 else none
  Ok l := l.length < 256 ^ w ∧ l.length ≤ m ∧ ∀ a ∈ l, c.Ok a
  dec_enc l r hl := by
    have h : (nat w).dec (leBytes w l.length ++ (l.flatMap c.enc ++ r)) =
        some (l.length, l.flatMap c.enc ++ r) := (nat w).dec_enc _ _ hl.1
    rw [List.append_assoc, h, Option.bind_some, if_pos hl.2.1, decTimes_flatMap c l r hl.2.2]
  enc_of_dec {bs l r} h := by
    obtain ⟨⟨n, r'⟩, hn, hl⟩ := Option.bind_eq_some_iff.mp h
    obtain ⟨rfl, hok⟩ := (nat w).enc_of_dec hn
    by_cases hm : n ≤ m
    · rw [if_pos hm] at hl
      obtain ⟨hr, rfl, hall⟩ := decTimes_eq_some c hl
      change r' = _ at hr
      exact ⟨by rw [hr, List.append_assoc]; rfl, hok, hm, hall⟩
    · rw [if_neg hm] at hl
      cases hl

/-! ### Other values, and one field after another -/

/-- Read the values of a codec as values of another type that contains them. -/
def emb (c : Codec α) (f : α → β) (g : β → Option α) (hg : ∀ a, c.Ok a → g (f a) = some a)
    (hf : ∀ {b a}, g b = some a → f a = b) : Codec β where
  enc b := ((g b).map c.enc).getD []
  dec bs := (c.dec bs).map fun p => (f p.1, p.2)
  Ok b := ∃ a, g b = some a ∧ c.Ok a
  dec_enc b r := by
    rintro ⟨a, ha, hok⟩
    rw [ha, Option.map_some, Option.getD_some, c.dec_enc a r hok, Option.map_some, hf ha]
  enc_of_dec {bs b r} h := by
    obtain ⟨⟨a, r'⟩, ha, he⟩ := Option.map_eq_some_iff.mp h
    obtain ⟨rfl, rfl⟩ := Prod.mk.inj he
    obtain ⟨rfl, hok⟩ := c.enc_of_dec ha
    exact ⟨by simp [hg a hok], a, hg a hok, hok⟩

/-- The decoder of one field after another. -/
def decSeq : List (Codec α) → Bytes → Option (List α × Bytes)
  | [], bs => some ([], bs)
  | c :: cs, bs => (c.dec bs).bind fun p => (decSeq cs p.2).map fun q => (p.1 :: q.1, q.2)

/-- The encoder of one field after another. -/
def encSeq : List (Codec α) → List α → Bytes
  | c :: cs, a :: as => c.enc a ++ encSeq cs as
  | _, _ => []

/-- Every field is one its codec can carry, and there are as many as codecs. -/
def OkSeq : List (Codec α) → List α → Prop
  | [], [] => True
  | c :: cs, a :: as => c.Ok a ∧ OkSeq cs as
  | _, _ => False

theorem decSeq_encSeq : ∀ (cs : List (Codec α)) (as : List α) (r : Bytes), OkSeq cs as →
    decSeq cs (encSeq cs as ++ r) = some (as, r)
  | [], [], r, _ => rfl
  | c :: cs, a :: as, r, h => by
    simp only [encSeq, List.append_assoc, decSeq, c.dec_enc a _ h.1, Option.bind_some,
      decSeq_encSeq cs as r h.2, Option.map_some]

theorem decSeq_eq_some : ∀ {cs : List (Codec α)} {bs : Bytes} {as : List α} {r : Bytes},
    decSeq cs bs = some (as, r) → bs = encSeq cs as ++ r ∧ OkSeq cs as
  | [], bs, as, r, h => by
    obtain ⟨rfl, rfl⟩ := Prod.mk.inj (Option.some.inj h)
    exact ⟨rfl, trivial⟩
  | c :: cs, bs, as, r, h => by
    obtain ⟨⟨a, bs'⟩, ha, h'⟩ := Option.bind_eq_some_iff.mp h
    obtain ⟨⟨as', r'⟩, has, he⟩ := Option.map_eq_some_iff.mp h'
    obtain ⟨rfl, rfl⟩ := Prod.mk.inj he
    obtain ⟨rfl, hok⟩ := c.enc_of_dec ha
    obtain ⟨hbs, hall⟩ := decSeq_eq_some has
    change bs' = _ at hbs
    exact ⟨by rw [hbs, encSeq, List.append_assoc], hok, hall⟩

end Codec

end Diod
