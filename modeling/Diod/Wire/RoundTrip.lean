import Diod.Wire.Create
import Diod.Wire.Decode

/-!
# What is built is decoded, and what is decoded can be built again

The two halves of the round trip between the constructors and the decoder.

A piece of code *writes* some bytes (`Diod.Writes`) when, on a buffer with room for
them, it puts them at the cursor and nothing else changes. Each constructor writes
the fields of its message as the format lays them out, into a packet of exactly
that size (`Diod.builds_create`); so the packet is the header followed by
`Diod.Fcall.body` – which `Diod.Wire.Decode` reads back.
-/

namespace Diod

open Cbuf

variable {α β : Type}

/-! ### Writing -/

/-- **Code that writes given bytes at the cursor**, where there is room for them. -/
def Writes (x : BufM α) (bs : Bytes) : Prop :=
  ∀ w r, bs.length ≤ r.length → (w ++ r).length < 2147483648 →
    ∃ a, x (mid w r) = some (a, mid (w ++ bs) (r.drop bs.length))

theorem writes_pure (a : α) : Writes (pure a) [] := fun w r _ _ => ⟨a, by simp; rfl⟩

variable {x : BufM α} {f : α → BufM β} {bs w r d body pkt : Bytes} {n : ℕ} {b : Cbuf}
  {count cap : UInt32} {put : BufM (Fcall Npstr (Option ℤ))} {t : MsgType} {tag : UInt16}
  {u : UInt32 → Option ℤ → Fcall Npstr (Option ℤ)} {m : Fcall (Option CStr) Bytes} {fc : Npfcall}

theorem Writes.bind {cs : Bytes} (hx : Writes x bs)
    (hf : ∀ a, Writes (f a) cs) : Writes (x >>= f) (bs ++ cs) := fun w r hr hl => by
  rw [List.length_append] at hr
  obtain ⟨a, ha⟩ := hx w r (by omega) hl
  obtain ⟨c, hc⟩ := hf a (w ++ bs) (r.drop bs.length) (by simp; omega) (by simp at hl ⊢; omega)
  refine ⟨c, ?_⟩
  rw [bufM_bind ha, hc]
  simp [List.drop_drop]

theorem storeAt_append {q : Bytes} (h : q.length = bs.length) :
    storeAt (w ++ (q ++ r)) w.length bs = w ++ (bs ++ r) := by
  simp [storeAt, ← h, List.drop_append]

theorem bufPutInt_run {v : ℕ} (h : b.p + n ≤ b.ep) : bufPutInt n v b =
    some ((), { b with mem := storeAt b.mem b.p.toNat (leBytes n v), p := b.p + n }) := by
  have hs : bufCheckSize n b = some (true, b) := if_neg (not_lt.mpr h)
  rw [bufPutInt, bufM_bind hs, shrBytes_eq_leBytes]
  rfl

theorem bufPutInt_mid {v : ℕ} (h : n ≤ r.length) :
    bufPutInt n v (mid w r) = some ((), mid (w ++ leBytes n v) (r.drop n)) := by
  have hq : (r.take n).length = (leBytes n v).length := by simp [h]
  have hst := storeAt_append (w := w) (r := r.drop n) hq
  rw [List.take_append_drop] at hst
  rw [bufPutInt_run (by simp [mid]; omega)]
  simp only [mid, Int.toNat_natCast, hst, List.append_assoc]
  simp
  omega

theorem bufAlloc_mid (h : n ≤ r.length) :
    bufAlloc n (mid w r) = some (some (w.length : ℤ), mid (w ++ r.take n) (r.drop n)) := by
  rw [bufAlloc, bufM_bind (bufCheckSize_mid h)]
  change some (_, Cbuf.mk (w ++ r) _ _) = _
  simp [mid, h]

theorem bufMove_mid {q : Bytes} (h : q.length = bs.length) :
    bufMove (some w.length) bs (mid (w ++ q) r) = some ((), mid (w ++ bs) r) := by
  change some ((), Cbuf.mk (storeAt (w ++ q ++ r) w.length bs) _ _) = _
  rw [List.append_assoc, storeAt_append h]
  simp [mid, h]

theorem bufPutInt32_mid {v : UInt32} (h : 4 ≤ r.length) :
    bufPutInt32 v (mid w r) = some (v, mid (w ++ leBytes 4 v.toNat) (r.drop 4)) := by
  rw [bufPutInt32, bufM_bind (bufPutInt_mid h)]
  rfl

theorem writes_bufPutInt (n v : ℕ) : Writes (bufPutInt n v) (leBytes n v) := fun w r hr _ => by
  rw [length_leBytes] at hr ⊢
  exact ⟨(), bufPutInt_mid hr⟩

theorem strlen0_some (s : CStr) : strlen0 (some s) = s.strlen := rfl

/-- The bytes of a string argument. -/
def argBytes (s : Option CStr) : Bytes := (s.map CStr.bytes).getD []

theorem length_argBytes (s : Option CStr) : (argBytes s).length = strlen0 s := by
  cases s <;> rfl

/-- The length prefix of a string keeps the low 16 bits of its length. -/
theorem leBytes_two_mod (n : ℕ) : leBytes 2 (n % 65536) = leBytes 2 n := by
  have h0 : UInt8.ofNat (n % 65536) = UInt8.ofNat n := by
    refine UInt8.toNat_inj.mp ?_
    rw [UInt8.toNat_ofNat', UInt8.toNat_ofNat']
    omega
  have h1 : UInt8.ofNat (n % 65536 / 256) = UInt8.ofNat (n / 256) := by
    refine UInt8.toNat_inj.mp ?_
    rw [UInt8.toNat_ofNat', UInt8.toNat_ofNat']
    omega
  rw [leBytes, leBytes, leBytes, leBytes, leBytes, h0, h1]
  rfl

/-- **A string is written as it is, behind the low 16 bits of its length.** -/
theorem writes_bufPutStr (s : Option CStr) :
    Writes (bufPutStr s) (leBytes 2 (argBytes s).length ++ argBytes s) := fun w r hr _ => by
  have hlen := length_argBytes s
  obtain ⟨n, hn⟩ : ∃ n, n = (argBytes s).length := ⟨_, rfl⟩
  simp only [List.length_append, length_leBytes, ← hn] at hlen hr ⊢
  have hmod : leBytes 2 (UInt16.ofNat n).toNat = leBytes 2 n := by
    rw [UInt16.toNat_ofNat']
    exact leBytes_two_mod n
  have hchk : bufCheckSize (2 + n) (mid w r) = some (true, mid w r) := by
    have := bufCheckSize_mid (w := w) hr
    rwa [Nat.cast_add] at this
  refine ⟨⟨.ofNat n, some (w ++ leBytes 2 n).length⟩, ?_⟩
  have hput := bufPutInt_mid (v := (UInt16.ofNat n).toNat) (w := w) (show 2 ≤ r.length by omega)
  rw [hmod] at hput
  have halloc := bufAlloc_mid (w := w ++ leBytes 2 n) (show n ≤ (r.drop 2).length by simp; omega)
  have hq : ((r.drop 2).take n).length = (argBytes s).length := by simp [← hn]; omega
  have hmove := bufMove_mid (w := w ++ leBytes 2 n) (r := (r.drop 2).drop n) hq
  rw [bufPutStr]
  simp only [← strlen0.eq_def, ← hlen]
  rw [bufM_bind hchk]
  simp only [if_true]
  rw [bufM_bind hput, bufM_bind halloc]
  rcases s with _ | s
  · obtain rfl : n = 0 := hn
    have hf : (none : Option CStr).forM (fun s => bufMove (some ((w ++ leBytes 2 0).length : ℤ))
        s.bytes) = pure () := rfl
    rw [hf, pure_bind]
    simp [argBytes]
    rfl
  · have hf : (some s).forM (fun s => bufMove (some ((w ++ leBytes 2 n).length : ℤ)) s.bytes) =
        bufMove (some ((w ++ leBytes 2 n).length : ℤ)) (argBytes (some s)) := rfl
    rw [hf, bufM_bind hmove]
    simp [List.drop_drop]
    rfl

/-! ### Fields -/

theorem Writes.andReturn (hx : Writes x bs) (g : α → β) : Writes (do return g (← x)) bs := by
  have h := hx.bind fun a => writes_pure (g a)
  rwa [List.append_nil] at h

theorem writes_int8 (v : UInt8) : Writes (bufPutInt8 v) ((Kind.int 1).codec.enc (.int v.toNat)) :=
  (writes_bufPutInt 1 v.toNat).andReturn fun _ => v

theorem writes_int16 (v : UInt16) :
    Writes (bufPutInt16 v) ((Kind.int 2).codec.enc (.int v.toNat)) :=
  (writes_bufPutInt 2 v.toNat).andReturn fun _ => v

theorem writes_int32 (v : UInt32) :
    Writes (bufPutInt32 v) ((Kind.int 4).codec.enc (.int v.toNat)) :=
  (writes_bufPutInt 4 v.toNat).andReturn fun _ => v

theorem writes_int64 (v : UInt64) :
    Writes (bufPutInt64 v) ((Kind.int 8).codec.enc (.int v.toNat)) :=
  (writes_bufPutInt 8 v.toNat).andReturn fun _ => v

theorem writes_qid (q : Npqid) : Writes (bufPutQid q) (Npqid.codec.enc q) :=
  (writes_int8 q.type).bind fun _ => (writes_int32 q.version).bind fun _ =>
    (writes_int64 q.path).andReturn fun _ => _

theorem writes_str (s : Option CStr) :
    Writes (bufPutStr s) (Kind.str.codec.enc (.str (argBytes s))) := writes_bufPutStr s

theorem enc_data (hd : d.length = n) : Kind.data.codec.enc (.data n d) = leBytes 4 n ++ d := by
  simp [Kind.codec, Codec.emb, Codec.block, hd]

theorem writes_data (hd : d.length = count.toNat) :
    Writes (bufPutData count d) (Kind.data.codec.enc (.data count.toNat d)) := fun w r hr hl => by
  rw [enc_data hd, List.length_append, length_leBytes, hd] at hr ⊢
  rw [List.length_append] at hl
  have hq : ((r.drop 4).take count.toNat).length = d.length := by simp [hd]; omega
  rw [bufPutData, bufM_bind (bufPutInt32_mid (by omega)), asInt_of_lt (by omega),
    bufM_bind (bufAlloc_mid (by simp; omega)), bufM_bind (bufMove_mid hq)]
  refine ⟨(count, some (w ++ leBytes 4 count.toNat).length), ?_⟩
  rw [List.drop_drop, List.append_assoc]
  rfl

theorem writes_each {put : α → BufM β} {enc : α → Bytes} {l : List α}
    (h : ∀ a ∈ l, Writes (put a) (enc a)) : Writes (bufPutEach put l) (l.flatMap enc) := by
  induction l with
  | nil => exact writes_pure []
  | cons a l ih =>
    have hl := ih fun b hb => h b (List.mem_cons_of_mem a hb)
    exact (h a List.mem_cons_self).bind fun b => hl.andReturn fun l => b :: l

theorem writes_names (l : List CStr) :
    Writes (bufPutWalk (fun s => bufPutStr (some s)) l)
      (Kind.names.codec.enc (.names (l.map CStr.bytes))) := by
  have hstr : ∀ s ∈ l, Writes (bufPutStr (some s)) (leBytes 2 s.bytes.length ++ s.bytes) :=
    fun s _ => writes_bufPutStr (some s)
  have he : Kind.names.codec.enc (.names (l.map CStr.bytes)) = leBytes 2 l.length ++
      l.flatMap fun s : CStr => leBytes 2 s.bytes.length ++ s.bytes := by
    simp [Kind.codec, Codec.emb, Codec.counted, Codec.block, List.flatMap_map]
  rw [he]
  exact (writes_bufPutInt 2 l.length).bind fun _ => writes_each hstr

theorem writes_qids (l : List Npqid) :
    Writes (bufPutWalk bufPutQid l) (Kind.qids.codec.enc (.qids l)) :=
  (writes_bufPutInt 2 l.length).bind fun _ => writes_each fun q _ => writes_qid q

/-- A field whose counts are right: a block as long as its count says, at most
`Diod.MAXWELEM` elements. A string may have any length. -/
def Val.Counted : Val Bytes Bytes → Prop
  | .data n d => d.length = n
  | .names l => l.length ≤ MAXWELEM
  | .qids l => l.length ≤ MAXWELEM
  | _ => True

theorem Val.Fits.counted {v : Val Bytes Bytes} (h : v.Fits) : v.Counted := by
  cases v with
  | int n => trivial
  | str s => trivial
  | data n d => exact h
  | names l => exact h.1
  | qids l => exact h

/-! ### Running out of room -/

/-- **Code that moves the cursor by `n` bytes**, or leaves it behind the end. -/
def Moves (x : BufM α) (n : ℕ) : Prop :=
  ∀ b, ∃ a b', x b = some (a, b') ∧ b'.ep = b.ep ∧ (b.p + n ≤ b'.p ∨ b.ep < b'.p)

theorem moves_pure (a : α) : Moves (pure a) 0 := fun b => ⟨a, b, rfl, rfl, .inl (by simp)⟩

theorem Moves.bind {k : ℕ} (hx : Moves x n)
    (hf : ∀ a, Moves (f a) k) : Moves (x >>= f) (n + k) := by
  intro b
  obtain ⟨a, b₁, h₁, hep₁, hp₁⟩ := hx b
  obtain ⟨c, b₂, h₂, hep₂, hp₂⟩ := hf a b₁
  refine ⟨c, b₂, (bufM_bind h₁).trans h₂, hep₂.trans hep₁, ?_⟩
  omega

theorem Moves.andReturn (hx : Moves x n) (g : α → β) :
    Moves (do return g (← x)) n := hx.bind fun a => moves_pure (g a)

/-- What does not fit leaves the cursor behind the end. -/
theorem bufCheckSize_run (n : ℕ) (b : Cbuf) :
    bufCheckSize n b = some (true, b) ∧ b.p + n ≤ b.ep ∨
      ∃ b', bufCheckSize n b = some (false, b') ∧ b'.ep = b.ep ∧ b.ep < b'.p := by
  rcases lt_or_ge b.ep (b.p + n) with h | h
  · refine .inr ⟨_, if_pos h, ?_⟩
    split
    · exact ⟨rfl, Int.lt_add_one_of_le le_rfl⟩
    · exact ⟨rfl, by omega⟩
  · exact .inl ⟨if_neg (not_lt.mpr h), h⟩

theorem moves_bufPutInt (n v : ℕ) : Moves (bufPutInt n v) n := by
  intro b
  rcases bufCheckSize_run n b with ⟨-, h⟩ | ⟨b', h, hep, hp⟩
  · exact ⟨(), _, bufPutInt_run h, rfl, .inl le_rfl⟩
  · refine ⟨(), b', ?_, hep, .inr hp⟩
    rw [bufPutInt, bufM_bind h]
    rfl

theorem moves_bufAlloc (n : ℕ) : Moves (bufAlloc n) n := by
  intro b
  rcases bufCheckSize_run n b with ⟨h, -⟩ | ⟨b', h, hep, hp⟩
  · refine ⟨some b.p, { b with p := b.p + n }, ?_, rfl, .inl le_rfl⟩
    rw [bufAlloc, bufM_bind h]
    rfl
  · refine ⟨none, b', ?_, hep, .inr hp⟩
    rw [bufAlloc, bufM_bind h]
    rfl

theorem moves_bufMove (p : Option ℤ) (bs : Bytes) : Moves (bufMove p bs) 0 := by
  intro b
  rcases p with _ | off
  · exact ⟨(), b, rfl, rfl, .inl (by simp)⟩
  · exact ⟨(), _, rfl, rfl, .inl (by simp)⟩

theorem moves_bufPutStr (s : Option CStr) : Moves (bufPutStr s) (2 + strlen0 s) := by
  intro b
  have hmove : ∀ p, Moves (s.forM fun s => bufMove p s.bytes) 0 := by
    intro p
    rcases s with _ | s
    · exact moves_pure ()
    · exact moves_bufMove p s.bytes
  rcases bufCheckSize_run (2 + strlen0 s) b with ⟨h, -⟩ | ⟨b', h, hep, hp⟩
  · have hput : bufPutStr s b = (do
        bufPutInt 2 (UInt16.ofNat (strlen0 s)).toNat
        let str ← bufAlloc (strlen0 s)
        s.forM fun s => bufMove str s.bytes
        return ⟨.ofNat (strlen0 s), str⟩ : BufM Npstr) b := by
      rw [Nat.cast_add, Nat.cast_ofNat] at h
      rw [bufPutStr]
      simp only [← strlen0.eq_def]
      rw [bufM_bind h]
      rfl
    rw [hput]
    exact ((moves_bufPutInt 2 _).bind fun _ => (moves_bufAlloc (strlen0 s)).bind fun str =>
      (hmove str).andReturn fun _ => _) b
  · refine ⟨⟨0, none⟩, b', ?_, hep, .inr hp⟩
    rw [Nat.cast_add, Nat.cast_ofNat] at h
    rw [bufPutStr]
    simp only [← strlen0.eq_def]
    rw [bufM_bind h]
    rfl

theorem moves_bufPutData (hc : count.toNat < 2147483648) (d : Bytes) :
    Moves (bufPutData count d) (4 + count.toNat) := by
  rw [bufPutData, bufPutInt32, bind_assoc]
  simp only [pure_bind, asInt_of_lt hc]
  exact (moves_bufPutInt 4 _).bind fun _ => (moves_bufAlloc count.toNat).bind fun p =>
    (moves_bufMove p d).andReturn fun _ => (count, p)

theorem moves_bufPutQid (q : Npqid) : Moves (bufPutQid q) QIDSIZE := by
  have h₁ : Moves (bufPutInt8 q.type) 1 := (moves_bufPutInt 1 _).andReturn fun _ => q.type
  have h₂ : Moves (bufPutInt32 q.version) 4 := (moves_bufPutInt 4 _).andReturn fun _ => q.version
  have h₃ : Moves (bufPutInt64 q.path) 8 := (moves_bufPutInt 8 _).andReturn fun _ => q.path
  exact h₁.bind fun _ => h₂.bind fun _ => h₃.andReturn fun _ => _

theorem moves_each {put : α → BufM β} {size : α → ℕ} (h : ∀ a, Moves (put a) (size a))
    (l : List α) : Moves (bufPutEach put l) (l.map size).sum := by
  induction l with
  | nil => exact moves_pure []
  | cons a l ih =>
    rw [List.map_cons, List.sum_cons]
    exact (h a).bind fun b => ih.andReturn fun l => b :: l

/-- The size of the fields of a message in a packet. -/
def sizeSeq : List Kind → List (Val Bytes Bytes) → ℕ
  | .int w :: ks, _ :: vs => w + sizeSeq ks vs
  | .str :: ks, .str s :: vs => 2 + s.length + sizeSeq ks vs
  | .data :: ks, .data n _ :: vs => 4 + n + sizeSeq ks vs
  | .names :: ks, .names l :: vs => 2 + (l.map fun s => 2 + s.length).sum + sizeSeq ks vs
  | .qids :: ks, .qids l :: vs => 2 + l.length * QIDSIZE + sizeSeq ks vs
  | _, _ => 0

/-- A field whose length is that of an `int`, as the code takes it for one: `count` of a block
of data, `2 + slen` of a string. -/
def Val.IntLength : Val Bytes Bytes → Prop
  | .data n _ => n < 2147483648
  | .str s => 2 + s.length < 2147483648
  | .names l => ∀ s ∈ l, 2 + s.length < 2147483648
  | _ => True

/-- **Code that puts the fields `vs`** of a message, if their counts are right, and leaves the
cursor behind the end if there is no room for all of them. -/
structure Puts (x : BufM α) (ks : List Kind) (vs : List (Val Bytes Bytes)) : Prop where
  writes : (∀ v ∈ vs, v.Counted) → Writes x (Codec.encSeq (ks.map Kind.codec) vs)
  moves : (∀ v ∈ vs, v.IntLength) → Moves x (sizeSeq ks vs)

namespace Puts

variable {ks : List Kind} {vs : List (Val Bytes Bytes)}

theorem done (a : α) : Puts (pure a) [] [] := ⟨fun _ => writes_pure a, fun _ => moves_pure a⟩

theorem field {f : α → BufM β} {x : BufM α} {k : Kind} {v : Val Bytes Bytes} {n : ℕ}
    (hx : v.Counted → Writes x (k.codec.enc v)) (hm : v.IntLength → Moves x n)
    (hn : sizeSeq (k :: ks) (v :: vs) = n + sizeSeq ks vs) (hf : ∀ a, Puts (f a) ks vs) :
    Puts (x >>= f) (k :: ks) (v :: vs) where
  writes h := (hx (h v List.mem_cons_self)).bind fun a =>
    (hf a).writes fun w hw => h w (List.mem_cons_of_mem v hw)
  moves h := by
    rw [hn]
    exact (hm (h v List.mem_cons_self)).bind fun a =>
      (hf a).moves fun w hw => h w (List.mem_cons_of_mem v hw)

theorem int8 {v : UInt8} {f : UInt8 → BufM β} (hf : ∀ a, Puts (f a) ks vs) :
    Puts (bufPutInt8 v >>= f) (.int 1 :: ks) (.int v.toNat :: vs) :=
  field (fun _ => writes_int8 v) (fun _ => (moves_bufPutInt 1 _).andReturn fun _ => v) rfl hf

theorem int16 {v : UInt16} {f : UInt16 → BufM β} (hf : ∀ a, Puts (f a) ks vs) :
    Puts (bufPutInt16 v >>= f) (.int 2 :: ks) (.int v.toNat :: vs) :=
  field (fun _ => writes_int16 v) (fun _ => (moves_bufPutInt 2 _).andReturn fun _ => v) rfl hf

theorem int32 {v : UInt32} {f : UInt32 → BufM β} (hf : ∀ a, Puts (f a) ks vs) :
    Puts (bufPutInt32 v >>= f) (.int 4 :: ks) (.int v.toNat :: vs) :=
  field (fun _ => writes_int32 v) (fun _ => (moves_bufPutInt 4 _).andReturn fun _ => v) rfl hf

theorem int64 {v : UInt64} {f : UInt64 → BufM β} (hf : ∀ a, Puts (f a) ks vs) :
    Puts (bufPutInt64 v >>= f) (.int 8 :: ks) (.int v.toNat :: vs) :=
  field (fun _ => writes_int64 v) (fun _ => (moves_bufPutInt 8 _).andReturn fun _ => v) rfl hf

theorem str {s : Option CStr} {f : Npstr → BufM β} (hf : ∀ a, Puts (f a) ks vs) :
    Puts (bufPutStr s >>= f) (.str :: ks) (.str (argBytes s) :: vs) :=
  field (fun _ => writes_str s) (fun _ => moves_bufPutStr s)
    (by rw [sizeSeq, length_argBytes]) hf

theorem qid {q : Npqid} {f : Npqid → BufM β} (hf : ∀ a, Puts (f a) ks vs) :
    Puts (bufPutQid q >>= f) (.int 1 :: .int 4 :: .int 8 :: ks)
      (.int q.type.toNat :: .int q.version.toNat :: .int q.path.toNat :: vs) := by
  simp only [bufPutQid, bind_assoc, pure_bind]
  exact int8 fun _ => int32 fun _ => int64 fun _ => hf _

theorem names {l : List CStr} {f : List Npstr → BufM β} (hf : ∀ a, Puts (f a) ks vs) :
    Puts (bufPutWalk (fun s => bufPutStr (some s)) l >>= f) (.names :: ks)
      (.names (l.map CStr.bytes) :: vs) :=
  field (fun _ => writes_names l)
    (fun _ => (moves_bufPutInt 2 _).bind fun _ => moves_each (fun s => moves_bufPutStr (some s)) l)
    (by rw [sizeSeq, List.map_map]; rfl) hf

theorem qids {l : List Npqid} {f : List Npqid → BufM β} (hf : ∀ a, Puts (f a) ks vs) :
    Puts (bufPutWalk bufPutQid l >>= f) (.qids :: ks) (.qids l :: vs) :=
  field (fun _ => writes_qids l)
    (fun _ => (moves_bufPutInt 2 _).bind fun _ => moves_each moves_bufPutQid l)
    (by rw [sizeSeq, List.map_const', List.sum_replicate_nat]) hf

theorem data {count : UInt32} {d : Bytes} {f : UInt32 × Option ℤ → BufM β}
    (hf : ∀ a, Puts (f a) ks vs) :
    Puts (bufPutData count d >>= f) (.data :: ks) (.data count.toNat d :: vs) :=
  field writes_data (fun hc => moves_bufPutData hc d) rfl hf

end Puts

/-! ### Packets -/

/-- The header of a packet. -/
def hdr (size : ℕ) (t : MsgType) (tag : UInt16) : Bytes :=
  leBytes 4 size ++ ([t.code] ++ leBytes 2 tag.toNat)

@[simp] theorem length_hdr (size : ℕ) (t : MsgType) (tag : UInt16) :
    (hdr size t tag).length = 7 := by
  simp [hdr]

/-- **A packet with given fields**, whose tag has not been set. -/
structure Built (fc : Npfcall) (t : MsgType) (body : Bytes) : Prop where
  size : fc.size = .ofNat (body.length + 7)
  type : fc.type = t.code
  pkt : fc.pkt = hdr (body.length + 7) t NOTAG ++ body

theorem npCreateCommon_eq (junk : ℕ → UInt8) (hn : n + 7 < 2147483648) (t : MsgType) :
    ∃ r : Bytes, r.length = n ∧ npCreateCommon (some junk) n t.code =
      some ((.ofNat (n + 7), t.code, NOTAG), mid (hdr (n + 7) t NOTAG) r) := by
  have hsize : (UInt32.ofNat (n + 7)).toNat = n + 7 :=
    UInt32.toNat_ofNat_of_lt' (by change _ < 4294967296; omega)
  obtain ⟨mem, hmem⟩ : ∃ mem, mem = (List.range (n + 7)).map junk := ⟨_, rfl⟩
  have hlen : mem.length = n + 7 := by simp [hmem]
  have hinit : bufInit 0 (n + 7) ⟨mem, 0, 0⟩ = some ((), mid [] mem) := by
    change some ((), Cbuf.mk mem 0 (0 + _)) = _
    simp [mid, hlen]
  have hsz : bufPutInt32 (.ofNat (n + 7)) (mid [] mem) =
      some (.ofNat (n + 7), mid (leBytes 4 (n + 7)) (mem.drop 4)) := by
    rw [bufPutInt32_mid (by omega), hsize]
    rfl
  have hid : bufPutInt8 t.code (mid (leBytes 4 (n + 7)) (mem.drop 4)) =
      some (t.code, mid (leBytes 4 (n + 7) ++ [t.code]) (mem.drop 5)) := by
    have hb : leBytes 1 t.code.toNat = [t.code] := by simp [leBytes]
    rw [bufPutInt8, bufM_bind (bufPutInt_mid (by simp; omega)), hb, List.drop_drop]
    rfl
  have htag : bufPutInt16 NOTAG (mid (leBytes 4 (n + 7) ++ [t.code]) (mem.drop 5)) =
      some (NOTAG, mid (hdr (n + 7) t NOTAG) (mem.drop 7)) := by
    rw [bufPutInt16, bufM_bind (bufPutInt_mid (by simp; omega)), List.drop_drop,
      List.append_assoc]
    rfl
  refine ⟨mem.drop 7, by simp [hlen], ?_⟩
  change (do
    bufInit 0 (asInt (UInt32.ofNat (n + 7)).toNat)
    return (← bufPutInt32 (.ofNat (n + 7)), ← bufPutInt8 t.code, ← bufPutInt16 NOTAG) : BufM _)
    ⟨(List.range (UInt32.ofNat (n + 7)).toNat).map junk, 0, 0⟩ = _
  rw [hsize, ← hmem, asInt_of_lt hn, Nat.cast_add, Nat.cast_ofNat, bufM_bind hinit,
    bufM_bind hsz, bufM_bind hid, bufM_bind htag]
  rfl

/-- A constructor whose puts all fit. -/
theorem npCreate_run {junk : ℕ → UInt8} {size : UInt32} {type : UInt8} {u : Fcall Npstr (Option ℤ)}
    (hcom : npCreateCommon (some junk) n t.code = some ((size, type, tag), b))
    (hput : put b = some (u, mid w [])) :
    npCreate (some junk) n t put = some ⟨size, type, tag, w, u⟩ := by
  rw [npCreate, hcom]
  change (put _).bind _ = _
  rw [hput]
  simp [npPostCheck, mid, bufCheckOverflow]

theorem built_npCreate
    (hput : Writes put body) (hn : n = body.length) (hl : body.length + 7 < 2147483648)
    (junk : ℕ → UInt8) : ∃ fc, npCreate (some junk) n t put = some fc ∧ Built fc t body := by
  subst hn
  obtain ⟨r, hr, hc⟩ := npCreateCommon_eq junk hl t
  obtain ⟨u, hu⟩ := hput (hdr (body.length + 7) t NOTAG) r hr.ge (by simp [hr]; omega)
  have hrest : r.drop body.length = [] := by simp [hr]
  rw [hrest] at hu
  exact ⟨_, npCreate_run hc hu, rfl, rfl, rfl⟩

/-! ### Constructors -/

/-- The message that the arguments of a constructor stand for: `NULL` is the empty
string. -/
def Fcall.ofArgs (m : Fcall (Option CStr) Bytes) : Msg := m.map argBytes fun _ d => d

/-- A field of a kind. -/
def Val.IsOf : Kind → Val Bytes Bytes → Prop
  | .int _, .int _ => True
  | .str, .str _ => True
  | .data, .data _ _ => True
  | .names, .names _ => True
  | .qids, .qids _ => True
  | _, _ => False

theorem Fcall.isOf_vals (m : Msg) : List.Forall₂ Val.IsOf m.type.layout m.vals := by
  cases m
  all_goals
    dsimp only [Fcall.type, Fcall.vals, MsgType.layout]
    repeat'
      first
      | exact List.Forall₂.nil
      | refine List.Forall₂.cons trivial ?_

theorem length_encSeq : ∀ {ks : List Kind} {vs : List (Val Bytes Bytes)},
    List.Forall₂ Val.IsOf ks vs → (∀ v ∈ vs, v.Counted) →
      (Codec.encSeq (ks.map Kind.codec) vs).length = sizeSeq ks vs
  | [], [], _, _ => rfl
  | k :: ks, v :: vs, h, hc => by
    obtain ⟨hv, hvs⟩ := List.forall₂_cons.mp h
    obtain ⟨hcv, hcs⟩ := List.forall_mem_cons.mp hc
    have ih := length_encSeq hvs hcs
    rw [List.map_cons, Codec.encSeq, List.length_append, ih]
    cases k <;> cases v
    case int.int => simp [Kind.codec, Codec.emb, Codec.nat, sizeSeq]
    case str.str => simp [Kind.codec, Codec.emb, Codec.block, sizeSeq]
    case data.data n d =>
      obtain rfl : d.length = n := hcv
      simp [Kind.codec, Codec.emb, Codec.block, sizeSeq]
    case names.names l =>
      simp [Kind.codec, Codec.emb, Codec.counted, Codec.block, sizeSeq, List.length_flatMap]
    case qids.qids l =>
      simp [Kind.codec, Codec.emb, Codec.counted, Npqid.codec, sizeSeq, QIDSIZE,
        List.length_flatMap]
    all_goals exact absurd hv not_false

/-- The size of the fields of a message. -/
theorem Fcall.length_body {m : Msg} (hC : ∀ v ∈ m.vals, v.Counted) :
    m.body.length = sizeSeq m.type.layout m.vals := length_encSeq m.isOf_vals hC

/-- The constructors that take a `NULL` for a string. -/
def nullable : List MsgType := [.rversion, .tauth, .tattach, .txattrwalk, .txattrcreate]

/-- **The arguments that a constructor may be called with**: every string is there, or
it is one that takes a `NULL`. -/
inductive Args : Fcall (Option CStr) Bytes → Prop
  | given (m : Fcall CStr Bytes) : Args (m.map some fun _ d => d)
  | null (m : Fcall (Option CStr) Bytes) : m.type ∈ nullable → Args m

/-- **A constructor that puts the fields of its message into a packet of that size.** -/
def PutsAll (m : Fcall (Option CStr) Bytes) : Prop :=
  ∃ put, (∀ M, create M m = npCreate M (sizeSeq m.ofArgs.type.layout m.ofArgs.vals)
    m.ofArgs.type put) ∧ Puts put m.ofArgs.type.layout m.ofArgs.vals

theorem putsAll_of (hc : ∀ M, create M m = npCreate M n m.ofArgs.type put)
    (hput : Puts put m.ofArgs.type.layout m.ofArgs.vals)
    (hn : n = sizeSeq m.ofArgs.type.layout m.ofArgs.vals) : PutsAll m :=
  ⟨put, fun M => hn ▸ hc M, hput⟩

/-- What `np_alloc_rread` and `np_create_rreaddir` put: a count, and room for as many bytes. -/
def putAlloc (u : UInt32 → Option ℤ → Fcall Npstr (Option ℤ)) (count : UInt32) :
    BufM (Fcall Npstr (Option ℤ)) := do
  let count ← bufPutInt32 count
  return u count (← bufAlloc (asInt count.toNat))

/-- **The packet of `np_alloc_rread` and `np_create_rreaddir`.** -/
theorem npCreate_alloc (hc : count.toNat + 11 < 2147483648) (t : MsgType)
    (u : UInt32 → Option ℤ → Fcall Npstr (Option ℤ)) (junk : ℕ → UInt8) :
    ∃ r : Bytes, r.length = count.toNat ∧
      npCreate (some junk) (4 + count.toNat) t (putAlloc u count) = some ⟨.ofNat (4 + count.toNat + 7), t.code, NOTAG, hdr (4 + count.toNat + 7) t NOTAG ++
        (leBytes 4 count.toNat ++ r), u count (some 11)⟩ := by
  obtain ⟨r, hr, hcom⟩ := npCreateCommon_eq junk (show 4 + count.toNat + 7 < 2147483648 by omega) t
  have halloc : bufAlloc count.toNat (mid (hdr (4 + count.toNat + 7) t NOTAG ++
      leBytes 4 count.toNat) (r.drop 4)) = some (some 11,
      mid (hdr (4 + count.toNat + 7) t NOTAG ++ (leBytes 4 count.toNat ++ r.drop 4)) []) := by
    have hlen : (r.drop 4).length = count.toNat := by simp [hr]
    rw [bufAlloc_mid hlen.ge, List.take_of_length_le hlen.le, List.drop_of_length_le hlen.le,
      List.append_assoc]
    simp
  refine ⟨r.drop 4, by simp [hr], ?_⟩
  have hrun : putAlloc u count (mid (hdr (4 + count.toNat + 7) t NOTAG) r) =
      some (u count (some 11), mid (hdr (4 + count.toNat + 7) t NOTAG ++ (leBytes 4 count.toNat ++ r.drop 4)) []) := by
    rw [putAlloc, bufM_bind (bufPutInt32_mid (by omega)), asInt_of_lt (by omega), bufM_bind halloc]
    rfl
  rw [npCreate_run hcom hrun]

/-- Filling in the data of a packet. -/
theorem storeAt_hdr {c : ℕ} (h : r.length = d.length) :
    storeAt (hdr n t NOTAG ++ (leBytes 4 c ++ r)) 11 d = hdr n t NOTAG ++ (leBytes 4 c ++ d) := by
  have := storeAt_append (w := hdr n t NOTAG ++ leBytes 4 c) (r := []) h
  simpa using this

/-- A packet that is allocated first and filled in afterwards. -/
theorem built_fill {data : Bytes} (hd : data.length = count.toNat)
    (hc : count.toNat + 11 < 2147483648) (t : MsgType) (junk : ℕ → UInt8)
    (hfill : ∀ size type tag pkt, (Npfcall.mk size type tag pkt (u count (some 11))).fill data =
      ⟨size, type, tag, storeAt pkt 11 data, u count (some 11)⟩) :
    ∃ fc, (npCreate (some junk) (4 + count.toNat) t (putAlloc u count)).map
      (fun fc => fc.fill data) = some fc ∧
      Built fc t (Kind.data.codec.enc (.data count.toNat data) ++ []) := by
  obtain ⟨r, hr, hfc⟩ := npCreate_alloc hc t u junk
  rw [hfc, Option.map_some, hfill, storeAt_hdr (hr.trans hd.symm), enc_data hd]
  refine ⟨_, rfl, ?_, rfl, ?_⟩ <;> simp [hd]

theorem mapM_map_some (l : List α) : (l.map some).mapM id = some l := by
  induction l with
  | nil => rfl
  | cons a l ih => simp [List.mapM_cons, ih]

theorem putsAll_twalk {fid newfid : UInt32} {wnames : List CStr}
    (hC : ∀ v ∈ (Fcall.ofArgs (.twalk fid newfid (wnames.map some))).vals, v.Counted) :
    PutsAll (.twalk fid newfid (wnames.map some)) := by
  have hb : (wnames.map some).map argBytes = wnames.map CStr.bytes := by
    rw [List.map_map]
    rfl
  have hlen : wnames.length ≤ MAXWELEM := by
    have h := hC (.names ((wnames.map some).map argBytes)) (.tail _ (.tail _ List.mem_cons_self))
    simpa [Val.Counted] using h
  have hcreate : ∀ M, create M (.twalk fid newfid (wnames.map some)) =
      npCreate M (2 * 4 + 2 + (wnames.map fun s => 2 + s.strlen).sum) .twalk (do
        return .twalk (← bufPutInt32 fid) (← bufPutInt32 newfid)
          (← bufPutWalk (fun s => bufPutStr (some s)) wnames)) := by
    intro M
    rw [create, mapM_map_some, Option.bind_some, npCreateTwalk, if_pos hlen]
  refine putsAll_of hcreate ?_ ?_
  · change Puts _ [.int 4, .int 4, .names] [.int fid.toNat, .int newfid.toNat, .names _]
    rw [hb]
    exact Puts.int32 fun _ => Puts.int32 fun _ => Puts.names fun _ => Puts.done _
  · change _ = 4 + (4 + (2 + (((wnames.map some).map argBytes).map fun s => 2 + s.length).sum + 0))
    rw [hb, List.map_map]
    change _ = 4 + (4 + (2 + (wnames.map fun s => 2 + s.strlen).sum + 0))
    omega

theorem putsAll_rwalk {wqids : List Npqid}
    (hC : ∀ v ∈ (Fcall.ofArgs (.rwalk wqids)).vals, v.Counted) : PutsAll (.rwalk wqids) := by
  have hlen : wqids.length ≤ MAXWELEM := hC (.qids wqids) List.mem_cons_self
  have hcreate : ∀ M, create M (.rwalk wqids) = npCreate M (2 + wqids.length * QIDSIZE) .rwalk (do
      return .rwalk (← bufPutWalk bufPutQid wqids)) := by
    intro M
    rw [create, npCreateRwalk, if_pos hlen]
  exact putsAll_of hcreate (Puts.qids fun _ => Puts.done _) rfl

theorem length_data_body {data : Bytes} (hd : data.length = count.toNat) :
    (Kind.data.codec.enc (.data count.toNat data) ++ []).length = count.toNat + 4 := by
  simp [enc_data hd, hd, Nat.add_comm]

section Constructors

attribute [local irreducible] bufPutInt8 bufPutInt16 bufPutInt32 bufPutInt64 bufPutStr bufPutQid
  bufPutWalk bufPutData

/-- The two messages whose data is filled in behind the constructor. -/
def filledIn : List MsgType := [.rread, .rreaddir]

/-- Every constructor puts the fields of its message, given every string. -/
theorem putsAll_given {m : Fcall CStr Bytes}
    (hC : ∀ v ∈ (Fcall.ofArgs (m.map some fun _ d => d)).vals, v.Counted)
    (hm : m.type ∉ filledIn) : PutsAll (m.map some fun _ d => d) := by
  have key := fun n put => @putsAll_of n put (m.map some fun _ d => d)
  cases m
  case twalk fid newfid wnames => exact putsAll_twalk hC
  case rwalk wqids => exact putsAll_rwalk hC
  case rread count data | rreaddir count data => simp [filledIn, Fcall.type] at hm
  all_goals
    clear hC hm
    refine key _ _ (fun M => rfl) ?_ ?_
    · dsimp only [Fcall.ofArgs, Fcall.map, Fcall.type, Fcall.vals, MsgType.layout]
      repeat'
        first
        | refine Puts.int32 fun _ => ?_
        | refine Puts.int64 fun _ => ?_
        | refine Puts.str fun _ => ?_
        | refine Puts.qid fun _ => ?_
        | refine Puts.int8 fun _ => ?_
        | refine Puts.int16 fun _ => ?_
        | refine Puts.data fun _ => ?_
        | exact Puts.done _
    · dsimp only [Fcall.ofArgs, Fcall.map, Fcall.type, Fcall.vals, MsgType.layout, sizeSeq,
        QIDSIZE] <;>
        first
        | omega
        | simp only [length_argBytes, strlen0_some]
          omega

/-- The constructors that take a `NULL` write it as an empty string. -/
theorem putsAll_null {m : Fcall (Option CStr) Bytes} (hm : m.type ∈ nullable) : PutsAll m := by
  have key := fun n put => @putsAll_of n put m
  cases m
  case rversion | tauth | tattach | txattrwalk | txattrcreate =>
    refine key _ _ (fun M => rfl) ?_ ?_
    · dsimp only [Fcall.ofArgs, Fcall.map, Fcall.type, Fcall.vals, MsgType.layout]
      repeat'
        first
        | refine Puts.int32 fun _ => ?_
        | refine Puts.int64 fun _ => ?_
        | refine Puts.str fun _ => ?_
        | exact Puts.done _
    · dsimp only [Fcall.ofArgs, Fcall.map, Fcall.type, Fcall.vals, MsgType.layout, sizeSeq]
      simp only [length_argBytes]
      omega
  all_goals simp [nullable, Fcall.type] at hm

end Constructors

/-- **Every constructor puts the fields of its message into a packet of that size**, or it
leaves the data of the packet to its caller. -/
theorem putsAll_create (hm : Args m)
    (hC : ∀ v ∈ m.ofArgs.vals, v.Counted) (hf : m.type ∉ filledIn) : PutsAll m := by
  cases hm with
  | given m => exact putsAll_given hC (by rwa [Fcall.type_map] at hf)
  | null m h => exact putsAll_null h

theorem builds_filledIn (hm : m.type ∈ filledIn)
    (junk : ℕ → UInt8) (hC : ∀ v ∈ m.ofArgs.vals, v.Counted)
    (hl : m.ofArgs.body.length + 7 < 2147483648) :
    ∃ fc, create (some junk) m = some fc ∧ Built fc m.ofArgs.type m.ofArgs.body := by
  cases m
  case rread count data | rreaddir count data =>
    have hd : data.length = count.toNat := hC (.data _ data) List.mem_cons_self
    have hlen := length_data_body hd
    change (Kind.data.codec.enc (.data count.toNat data) ++ []).length + 7 < 2147483648 at hl
    exact built_fill hd (by omega) _ junk fun _ _ _ _ => rfl
  all_goals simp [filledIn, Fcall.type] at hm

/-- **Every constructor builds the packet of its message**, whatever the length of its
strings. -/
theorem builds_create (hm : Args m) (junk : ℕ → UInt8)
    (hC : ∀ v ∈ m.ofArgs.vals, v.Counted) (hl : m.ofArgs.body.length + 7 < 2147483648) :
    ∃ fc, create (some junk) m = some fc ∧ Built fc m.ofArgs.type m.ofArgs.body := by
  by_cases hf : m.type ∈ filledIn
  · exact builds_filledIn hf junk hC hl
  · obtain ⟨put, hcreate, hput⟩ := putsAll_create hm hC hf
    rw [hcreate]
    exact built_npCreate (hput.writes hC) (Fcall.length_body hC).symm hl junk

/-! ### From the constructors to the decoder -/

/-- **A packet is decoded as a message with a tag.** -/
def DecodesAs (pkt : Bytes) (m : Msg) (tag : UInt16) : Prop :=
  ∃ fc b, deserialize pkt = some (fc, b) ∧ deserializeRet pkt = pkt.length ∧
    fc.size.toNat = pkt.length ∧ fc.type = m.type.code ∧ fc.tag = tag ∧ fc.u.view pkt = m

section Packet

variable {m : Msg} {tag : UInt16}

theorem wellSized_packet (hl : m.body.length + 7 < 2147483648) :
    WellSized (hdr (m.body.length + 7) m.type tag ++ m.body) where
  header := by simp; omega
  int := by simp; omega
  size := by
    have h : (hdr (m.body.length + 7) m.type tag ++ m.body).take 4 =
        leBytes 4 (m.body.length + 7) := by simp [hdr]
    rw [h, leNat_leBytes_of_lt (by omega)]
    simp [Nat.add_comm]

theorem pktType_packet (n : ℕ) : pktType (hdr n m.type tag ++ m.body) = some m.type := by
  have h : (hdr n m.type tag ++ m.body)[4]? = some m.type.code := by simp [hdr]
  rw [pktType, h, Option.bind_some, MsgType.ofCode_code]

theorem drop_packet (n : ℕ) : (hdr n m.type tag ++ m.body).drop 7 = m.body := by
  rw [List.drop_append_of_le_length (by simp), List.drop_of_length_le (by simp), List.nil_append]

/-- **A packet is decoded as the message that its fields begin with**, which need not be the
one that it was built from. -/
theorem view_packet {m' : Msg} {r : Bytes} (ht' : m'.type = m.type) (hF : m'.Fits)
    (hb : m.body = m'.body ++ r) (hl : m.body.length + 7 < 2147483648) :
    ∃ fc b, deserialize (hdr (m.body.length + 7) m.type tag ++ m.body) = some (fc, b) ∧
      fc.u.type = m.type ∧ fc.u.view (hdr (m.body.length + 7) m.type tag ++ m.body) = m' := by
  obtain ⟨pkt, hpkt⟩ : ∃ pkt, pkt = hdr (m.body.length + 7) m.type tag ++ m.body := ⟨_, rfl⟩
  have hs : WellSized pkt := hpkt ▸ wellSized_packet hl
  have ht : pktType pkt = some m.type := hpkt ▸ pktType_packet _
  have hd : pkt.drop 7 = m.body := hpkt ▸ drop_packet _
  have hpar : m.type.parse (pkt.drop 7) = some (m'.vals, r) := by
    rw [hd, hb, ← ht']
    exact Fcall.parse_body hF r
  have he : Encodes pkt := ⟨by simp [hpkt], m.type, ht, by rw [hpar]; rfl⟩
  have hH : ¬HugeBlock pkt := fun h => (deserialize_of_hugeBlock hs h).2 he
  obtain ⟨fc, b, hfc⟩ := deserialize_of_encodes hs he
  obtain ⟨-, t, ht₂, hut, -⟩ := (deserialize_eq_some hs).mp hfc
  obtain rfl : m.type = t := Option.some.inj (ht.symm.trans ht₂)
  obtain ⟨vs, r', w, hpar', -, -, hview, -⟩ := parse_of_deserialize hs hH hfc
  rw [hut, hpar] at hpar'
  obtain ⟨rfl, rfl⟩ := Prod.mk.inj (Option.some.inj hpar')
  rw [← hpkt]
  exact ⟨fc, b, hfc, hut, Fcall.ext_vals (by rw [Fcall.view, Fcall.type_map, hut, ht']) hview⟩

/-- **The packet of a message is decoded as that message.** -/
theorem decodesAs_packet (hF : m.Fits) (hl : m.body.length + 7 < 2147483648) :
    DecodesAs (hdr (m.body.length + 7) m.type tag ++ m.body) m tag := by
  obtain ⟨fc, b, hfc, hut, hview⟩ :=
    @view_packet m tag _ _ rfl hF (List.append_nil m.body).symm hl
  have hs := @wellSized_packet m tag hl
  have htag : ((hdr (m.body.length + 7) m.type tag ++ m.body).drop 5).take 2 =
      leBytes 2 tag.toNat := by
    rw [hdr, ← List.append_assoc, List.append_assoc, List.drop_left' (by simp),
      List.take_left' (by simp)]
  obtain ⟨-, t, -, ht, -, -, heq⟩ := (deserialize_eq_some hs).mp hfc
  refine ⟨fc, b, hfc, (deserializeRet_eq hs hfc).1, (deserializeRet_eq hs hfc).2, ?_, ?_, hview⟩
  · rw [heq, ← hut, ht]
  · rw [heq, htag, leNat_leBytes_of_lt tag.toNat_lt, UInt16.ofNat_toNat]

end Packet

/-- Setting the tag of a packet. -/
theorem storeAt_tag {tag' : UInt16} :
    storeAt (hdr n t tag ++ body) 5 (shrBytes 2 tag'.toNat) = hdr n t tag' ++ body := by
  have h := storeAt_append (w := leBytes 4 n ++ [t.code]) (q := leBytes 2 tag.toNat)
    (r := body) (show _ = (leBytes 2 tag'.toNat).length by simp)
  rw [shrBytes_eq_leBytes]
  simpa [hdr] using h

theorem packet_npSetTag {m : Msg} (hB : Built fc m.type m.body)
    (hl : m.body.length + 7 < 2147483648) (tag : UInt16) :
    (npSetTag fc tag).packet = hdr (m.body.length + 7) m.type tag ++ m.body := by
  have hsize : fc.size.toNat = m.body.length + 7 := by
    rw [hB.size]
    exact UInt32.toNat_ofNat_of_lt' (by change _ < 4294967296; omega)
  rw [Npfcall.packet, npSetTag, hB.pkt, storeAt_tag]
  exact List.take_of_length_le (by simp [hsize, Nat.add_comm])

/-- **What a constructor builds is decoded as its message.** -/
theorem create_decodesAs (hm : Args m) (junk : ℕ → UInt8)
    (hF : m.ofArgs.Fits) (hl : m.ofArgs.body.length + 7 < 2147483648) (tag : UInt16) :
    ∃ fc, create (some junk) m = some fc ∧ DecodesAs (npSetTag fc tag).packet m.ofArgs tag := by
  obtain ⟨fc, hfc, hB⟩ := builds_create hm junk (fun v hv => (hF v hv).counted) hl
  refine ⟨fc, hfc, ?_⟩
  rw [packet_npSetTag hB hl]
  exact decodesAs_packet hF hl

/-! ### Cutting the data short -/

/-- **A packet cut to its first `n` bytes of data.** -/
theorem npSetCount_eq {s : UInt32} {g : UInt16} {n : UInt32}
    {u : Fcall Npstr (Option ℤ)} {v : UInt32 → Fcall Npstr (Option ℤ)}
    (hd : d.length = cap.toNat) (hc : cap.toNat + 11 < 2147483648) (hn : n ≤ cap) (k : ℕ) :
    npSetCount ⟨s, t.code, g, hdr k t g ++ (leBytes 4 cap.toNat ++ d), u⟩ cap n v =
      some ⟨.ofNat (n.toNat + 11), t.code, g,
        hdr (n.toNat + 11) t g ++ (leBytes 4 n.toNat ++ d), v n⟩ := by
  have hle : n.toNat ≤ cap.toNat := hn
  have hsize : (UInt32.ofNat (4 + 1 + 2 + 4 + n.toNat)).toNat = n.toNat + 11 := by
    rw [UInt32.toNat_ofNat_of_lt' (by change _ < 4294967296; omega)]
    omega
  have h0 : storeAt (hdr k t g ++ (leBytes 4 cap.toNat ++ d)) 0 (leBytes 4 (n.toNat + 11)) =
      hdr (n.toNat + 11) t g ++ (leBytes 4 cap.toNat ++ d) := by
    have h := storeAt_append (w := []) (q := leBytes 4 k) (r := ([t.code] ++ leBytes 2 g.toNat) ++
      (leBytes 4 cap.toNat ++ d)) (show _ = (leBytes 4 (n.toNat + 11)).length by simp)
    simpa [hdr] using h
  have h7 : storeAt (hdr (n.toNat + 11) t g ++ (leBytes 4 cap.toNat ++ d)) 7 (leBytes 4 n.toNat) =
      hdr (n.toNat + 11) t g ++ (leBytes 4 n.toNat ++ d) := by
    have h := storeAt_append (w := hdr (n.toNat + 11) t g) (q := leBytes 4 cap.toNat) (r := d)
      (show _ = (leBytes 4 n.toNat).length by simp)
    rwa [length_hdr] at h
  obtain ⟨pkt, hpkt⟩ : ∃ pkt, pkt = hdr k t g ++ (leBytes 4 cap.toNat ++ d) := ⟨_, rfl⟩
  obtain ⟨pkt', hpkt'⟩ : ∃ p, p = hdr (n.toNat + 11) t g ++ (leBytes 4 cap.toNat ++ d) :=
    ⟨_, rfl⟩
  rw [← hpkt, ← hpkt'] at h0
  rw [← hpkt'] at h7
  have hp0 : bufPutInt32 (.ofNat (4 + 1 + 2 + 4 + n.toNat)) ⟨pkt, 0, n.toNat + 11⟩ =
      some (.ofNat (4 + 1 + 2 + 4 + n.toNat), ⟨pkt', 4, n.toNat + 11⟩) := by
    rw [bufPutInt32, bufM_bind (bufPutInt_run (by simp; omega)), hsize]
    change some (_, Cbuf.mk (storeAt pkt 0 _) _ _) = _
    rw [h0]
    rfl
  have hp7 : bufPutInt32 n ⟨pkt', 7, n.toNat + 11⟩ =
      some (n, ⟨hdr (n.toNat + 11) t g ++ (leBytes 4 n.toNat ++ d), 11, n.toNat + 11⟩) := by
    rw [bufPutInt32, bufM_bind (bufPutInt_run (by simp))]
    change some (_, Cbuf.mk (storeAt pkt' 7 _) _ _) = _
    rw [h7]
    rfl
  have hi0 : bufInit 0 (n.toNat + 11) ⟨pkt, 0, 0⟩ = some ((), ⟨pkt, 0, n.toNat + 11⟩) := by
    change some ((), Cbuf.mk pkt 0 (0 + _)) = _
    rw [zero_add]
  have hi7 : bufInit 7 ((n.toNat + 11 : ℤ) - 7) ⟨pkt', 4, n.toNat + 11⟩ =
      some ((), ⟨pkt', 7, n.toNat + 11⟩) := by
    change some ((), Cbuf.mk pkt' 7 (7 + _)) = _
    rw [add_sub_cancel]
  have hrun : bufPutCount (.ofNat (4 + 1 + 2 + 4 + n.toNat)) n ⟨pkt, 0, 0⟩ = some
      ((.ofNat (4 + 1 + 2 + 4 + n.toNat), n),
        ⟨hdr (n.toNat + 11) t g ++ (leBytes 4 n.toNat ++ d), 11, n.toNat + 11⟩) := by
    rw [bufPutCount, hsize, asInt_of_lt (by omega), Nat.cast_add, Nat.cast_ofNat, bufM_bind hi0,
      bufM_bind hp0, hsize, asInt_of_lt (by omega), Nat.cast_add, Nat.cast_ofNat, bufM_bind hi7,
      bufM_bind hp7]
    rfl
  rw [npSetCount, if_pos hn, ← hpkt, hrun, Option.map_some, Nat.add_comm (4 + 1 + 2 + 4)]

/-- The packet that is sent after the cut. -/
theorem cut_decodesAs {m : Msg} {n : UInt32} {u : Fcall Npstr (Option ℤ)}
    (hF : m.Fits) (hb : m.body = leBytes 4 n.toNat ++ d.take n.toNat) (hd : d.length = cap.toNat)
    (hn : n ≤ cap) (hc : cap.toNat + 11 < 2147483648) (tag : UInt16) :
    DecodesAs (npSetTag ⟨.ofNat (n.toNat + 11), m.type.code, NOTAG,
      hdr (n.toNat + 11) m.type NOTAG ++ (leBytes 4 n.toNat ++ d), u⟩ tag).packet m tag := by
  have hle : n.toNat ≤ cap.toNat := hn
  have hsize : (UInt32.ofNat (n.toNat + 11)).toNat = n.toNat + 11 :=
    UInt32.toNat_ofNat_of_lt' (by change _ < 4294967296; omega)
  have hlen : m.body.length = n.toNat + 4 := by
    rw [hb]
    simp [hd, hle, Nat.add_comm]
  have hpkt : (npSetTag ⟨.ofNat (n.toNat + 11), m.type.code, NOTAG,
      hdr (n.toNat + 11) m.type NOTAG ++ (leBytes 4 n.toNat ++ d), u⟩ tag).packet =
      hdr (m.body.length + 7) m.type tag ++ m.body := by
    rw [Npfcall.packet, npSetTag, storeAt_tag, hlen, hb, hsize, List.take_append,
      List.take_append, List.take_of_length_le (by simp), List.take_of_length_le (by simp)]
    simp
  rw [hpkt]
  exact decodesAs_packet hF (by omega)

/-- Allocated, filled in and cut. -/
theorem alloc_cut_decodesAs {n : UInt32} (hd : d.length = cap.toNat)
    (hc : cap.toNat + 11 < 2147483648) (hn : n ≤ cap) (junk : ℕ → UInt8) (tag : UInt16) (m : Msg)
    (hm : m.vals = [.data n.toNat (d.take n.toNat)]) (hk : m.type.layout = [.data])
    (hfill : ∀ size type tag pkt, (Npfcall.mk size type tag pkt (u cap (some 11))).fill d =
      ⟨size, type, tag, storeAt pkt 11 d, u cap (some 11)⟩) :
    ∃ fc fc', npCreate (some junk) (4 + cap.toNat) m.type (putAlloc u cap) = some fc ∧
      (fc.fill d).u = u cap (some 11) ∧
      npSetCount (fc.fill d) cap n (fun n => u n (some 11)) = some fc' ∧
      DecodesAs (npSetTag fc' tag).packet m tag := by
  obtain ⟨r, hr, hfc⟩ := npCreate_alloc hc m.type u junk
  have hle : n.toNat ≤ cap.toNat := hn
  have hlen : (d.take n.toNat).length = n.toNat := by simp [hd, hle]
  have hset := npSetCount_eq (s := .ofNat (4 + cap.toNat + 7)) (t := m.type) (g := NOTAG)
    (u := u cap (some 11)) (v := fun n => u n (some 11)) hd hc hn (4 + cap.toNat + 7)
  rw [← storeAt_hdr (hr.trans hd.symm), ← hfill] at hset
  refine ⟨_, _, hfc, by rw [hfill], hset, cut_decodesAs ?_ ?_ hd hn hc tag⟩
  · rw [Fcall.Fits, hm]
    simpa [Val.Fits] using hlen
  · rw [Fcall.body, MsgType.codecs, hk, hm]
    change Kind.data.codec.enc _ ++ [] = _
    rw [List.append_nil, enc_data hlen]

/-! ### From the decoder to the constructors -/

/-- A field whose strings are C strings. -/
def Val.NulFree : Val Bytes Bytes → Prop
  | .str s => 0 ∉ s
  | .names l => ∀ s ∈ l, 0 ∉ s
  | _ => True

/-- The C string of some bytes without a NUL. -/
def CStr.ofBytes (s : Bytes) : CStr := ⟨s.filter (· ≠ 0), by simp⟩

theorem argBytes_ofBytes {s : Bytes} (h : 0 ∉ s) : argBytes (some (CStr.ofBytes s)) = s :=
  List.filter_eq_self.mpr fun _ ha => decide_eq_true fun h0 => h (h0 ▸ ha)

/-- The arguments to build a message from. -/
def Fcall.toArgs (m : Msg) : Fcall (Option CStr) Bytes :=
  (m.map CStr.ofBytes fun _ d => d).map some fun _ d => d

theorem ofArgs_toArgs {m : Msg} (h : ∀ v ∈ m.vals, v.NulFree) : m.toArgs.ofArgs = m := by
  refine Fcall.ext_vals (by simp [Fcall.ofArgs, Fcall.toArgs]) ?_
  rw [Fcall.ofArgs, Fcall.toArgs, Fcall.vals_map, Fcall.vals_map, Fcall.vals_map, List.map_map,
    List.map_map]
  refine (List.map_congr_left fun v hv => ?_).trans (List.map_id _)
  have hv' := h v hv
  cases v with
  | int n => rfl
  | str s => exact congrArg Val.str (argBytes_ofBytes hv')
  | data n d => rfl
  | names l =>
    refine congrArg Val.names ?_
    rw [List.map_map, List.map_map]
    exact (List.map_congr_left fun s hs => argBytes_ofBytes (hv' s hs)).trans (List.map_id l)
  | qids l => rfl

theorem packet_eq_hdr (hs : WellSized pkt) (hd : deserialize pkt = some (fc, b)) :
    pkt = hdr pkt.length fc.u.type fc.tag ++ pkt.drop 7 := by
  obtain ⟨h7, t, ht, rfl, -, -, heq⟩ := (deserialize_eq_some hs).mp hd
  have h4 : pkt.take 4 = leBytes 4 pkt.length := by
    have h := leBytes_leNat (pkt.take 4)
    rw [hs.size, List.length_take, Nat.min_eq_left hs.header] at h
    exact h.symm
  have hcode : fc.u.type.code = pkt[4] := by
    rw [pktType, List.getElem?_eq_getElem (by omega), Option.bind_some] at ht
    exact MsgType.code_of_ofCode ht
  have htag : (pkt.drop 5).take 2 = leBytes 2 fc.tag.toNat := by
    have hlen : ((pkt.drop 5).take 2).length = 2 := by simp; omega
    have hlt := leNat_lt ((pkt.drop 5).take 2)
    rw [hlen] at hlt
    rw [heq, UInt16.toNat_ofNat_of_lt' hlt]
    conv_lhs => rw [← leBytes_leNat ((pkt.drop 5).take 2), hlen]
  rw [hdr, ← h4, hcode, ← htag]
  conv_lhs => rw [← List.take_append_drop 4 pkt, List.drop_eq_getElem_cons (by omega),
    ← List.take_append_drop 2 (pkt.drop 5), List.drop_drop]
  simp

/-- **What is decoded can be built again**, byte for byte. -/
theorem create_of_deserialize (hs : WellSized pkt)
    (hd : deserialize pkt = some (fc, b)) (hend : b.p = b.ep)
    (hnul : ∀ v ∈ (fc.u.view pkt).vals, v.NulFree) (junk : ℕ → UInt8) :
    ∃ fc', create (some junk) (fc.u.view pkt).toArgs = some fc' ∧
      (npSetTag fc' fc.tag).packet = pkt := by
  have hH : ¬HugeBlock pkt := fun hH => by
    obtain ⟨⟨fc', b', hd', hlt⟩, -⟩ := deserialize_of_hugeBlock hs hH
    rw [hd] at hd'
    obtain ⟨rfl, rfl⟩ := Prod.mk.inj (Option.some.inj hd')
    omega
  obtain ⟨vs, r, w, hpar, rfl, hm, hview, -⟩ := parse_of_deserialize hs hH hd
  obtain rfl : r = [] := by
    simp [mid] at hend
    exact hend
  have ht : (fc.u.view pkt).type = fc.u.type := Fcall.type_map _ _ _
  obtain ⟨hbody, hok⟩ := Codec.decSeq_eq_some hpar
  rw [← ht, ← hview] at hok hbody
  rw [List.append_nil] at hbody
  have hargs := ofArgs_toArgs hnul
  obtain ⟨m, hmdef⟩ : ∃ m, m = fc.u.view pkt := ⟨_, rfl⟩
  rw [← hmdef] at hargs hok hbody ht ⊢
  have hlen : m.body.length + 7 = pkt.length := by
    rw [Fcall.body, ← hbody]
    have := ((deserialize_eq_some hs).mp hd).1
    simp
    omega
  have hint := hs.int
  obtain ⟨fc', hfc', hB⟩ := builds_create (Args.given (m.map CStr.ofBytes fun _ d => d))
    junk (by
      rw [← Fcall.toArgs, hargs]
      exact fun v hv => (Fcall.okSeq_vals.mp hok v hv).counted)
    (by rw [← Fcall.toArgs, hargs]; omega)
  rw [← Fcall.toArgs, hargs] at hB
  refine ⟨fc', hfc', ?_⟩
  rw [packet_npSetTag hB (by omega), hlen, ht, Fcall.body, ← hbody]
  exact (packet_eq_hdr hs hd).symm

/-! ### The round trip -/

/-- **Every message survives the trip**: what a constructor builds is decoded as its
message with the tag that was set – also when the data is cut to its first `n` bytes,
and in the two constructors that use the caller's buffer – and what is decoded is
built again from its fields, byte for byte. -/
theorem wire_round_trip :
    (∀ (junk : ℕ → UInt8) (m : Fcall (Option CStr) Bytes) (tag : UInt16), Args m →
      m.ofArgs.Fits → m.ofArgs.body.length + 7 < 2147483648 →
      ∃ fc, create (some junk) m = some fc ∧ DecodesAs (npSetTag fc tag).packet m.ofArgs tag) ∧
    (∀ (junk : ℕ → UInt8) (cap n : UInt32) (d : Bytes) (tag : UInt16), d.length = cap.toNat →
      cap.toNat + 11 < 2147483648 → n ≤ cap →
      ∃ fc fc', npAllocRread (some junk) cap = some fc ∧
        npSetRreadCount (fc.fill d) n = some fc' ∧
        DecodesAs (npSetTag fc' tag).packet (.rread n (d.take n.toNat)) tag) ∧
    (∀ (junk : ℕ → UInt8) (cap n : UInt32) (d : Bytes) (tag : UInt16), d.length = cap.toNat →
      cap.toNat + 11 < 2147483648 → n ≤ cap →
      ∃ fc fc', npCreateRreaddir (some junk) cap = some fc ∧
        npFinalizeRreaddir (fc.fill d) n = some fc' ∧
        DecodesAs (npSetTag fc' tag).packet (.rreaddir n (d.take n.toNat)) tag) ∧
    (∀ (junk : ℕ → UInt8) (room : ℕ) (ecode : UInt32) (tag : UInt16), 11 ≤ room →
      (∃ fc, npCreateRflushStatic junk room = some fc ∧
        DecodesAs (npSetTag fc tag).packet .rflush tag) ∧
      ∃ fc, npCreateRlerrorStatic junk room ecode = some fc ∧
        DecodesAs (npSetTag fc tag).packet (.rlerror ecode) tag) ∧
    (∀ (junk : ℕ → UInt8) (pkt : Bytes) (fc : Npfcall) (b : Cbuf), WellSized pkt →
      deserialize pkt = some (fc, b) → b.p = b.ep → (∀ v ∈ (fc.u.view pkt).vals, v.NulFree) →
      ∃ fc', create (some junk) (fc.u.view pkt).toArgs = some fc' ∧
        (npSetTag fc' fc.tag).packet = pkt) := by
  refine ⟨fun junk m tag hm hF hl => create_decodesAs hm junk hF hl tag,
    fun junk cap n d tag hd hc hn => ?_, fun junk cap n d tag hd hc hn => ?_,
    fun junk room ecode tag hr => ⟨?_, ?_⟩,
    fun junk pkt fc b hs hd hend hnul => create_of_deserialize hs hd hend hnul junk⟩
  · obtain ⟨fc, fc', hfc, hu, hset, hdec⟩ := alloc_cut_decodesAs hd hc hn junk tag
      (.rread n (d.take n.toNat)) rfl rfl (u := .rread) fun _ _ _ _ => rfl
    refine ⟨fc, fc', hfc, ?_, hdec⟩
    simp only [npSetRreadCount, hu]
    exact hset
  · obtain ⟨fc, fc', hfc, hu, hset, hdec⟩ := alloc_cut_decodesAs hd hc hn junk tag
      (.rreaddir n (d.take n.toNat)) rfl rfl (u := .rreaddir) fun _ _ _ _ => rfl
    refine ⟨fc, fc', hfc, ?_, hdec⟩
    simp only [npFinalizeRreaddir, hu]
    exact hset
  · obtain ⟨fc, hfc, hdec⟩ := create_decodesAs (Args.given .rflush) junk
      (by rintro _ ⟨⟩) (by decide) tag
    exact ⟨fc, (if_pos (by omega)).trans hfc, hdec⟩
  · obtain ⟨fc, hfc, hdec⟩ := create_decodesAs (Args.given (.rlerror ecode)) junk
      (by rintro _ (_ | ⟨_, ⟨⟩⟩); trivial) (by change 4 + 7 < 2147483648; decide) tag
    exact ⟨fc, (if_pos (by omega)).trans hfc, hdec⟩

/-- A `Tread` and its packet. -/
theorem wire_round_trip_tread :
    ∃ fc, create (some fun _ => 0) (.tread 1 512 4096) = some fc ∧
      DecodesAs (npSetTag fc 7).packet (.tread 1 512 4096) 7 := by
  refine wire_round_trip.1 (fun _ => 0) (.tread 1 512 4096) 7 (Args.given (.tread 1 512 4096)) ?_
    (by decide)
  rintro v (_ | ⟨_, _ | ⟨_, _ | ⟨_, ⟨⟩⟩⟩⟩) <;> trivial

end Diod
