import Diod.Wire.RoundTrip

/-!
# Strings that are too long

A string is written behind a length of two bytes. The constructors add up the sizes of
their fields with the whole length of a string, and write the whole string, but of its length
only the low 16 bits. Nothing fails on the way: **a constructor returns `NULL` for want of
memory, or when the packet is as long as an `int` cannot say, and for no other reason**
(`Diod.create_eq_none_iff`). So a string of 65536 bytes or more does not make it fail. The
packet that is built is decoded with another string, or not at all
(`Diod.overlong_null_iff`).
-/

namespace Diod

open Cbuf

/-! ### When a constructor fails -/

/-- The header of a packet moves the cursor by its seven bytes, wherever the end is. -/
theorem npCreateCommon_moves (junk : ℕ → UInt8) (n : ℕ) (t : MsgType) :
    ∃ a b, npCreateCommon (some junk) n t.code = some (a, b) ∧
      b.ep = asInt (UInt32.ofNat (n + 7)).toNat ∧ (7 ≤ b.p ∨ b.ep < b.p) := by
  have h₁ : Moves (bufPutInt32 (.ofNat (n + 7))) 4 := (moves_bufPutInt 4 _).andReturn fun _ => _
  have h₂ : Moves (bufPutInt8 t.code) 1 := (moves_bufPutInt 1 _).andReturn fun _ => _
  have h₃ : Moves (bufPutInt16 NOTAG) 2 := (moves_bufPutInt 2 _).andReturn fun _ => _
  obtain ⟨a, b, hrun, hep, hp⟩ := (h₁.bind fun size => h₂.bind fun type =>
    h₃.andReturn fun tag => (size, type, tag))
      ⟨(List.range (UInt32.ofNat (n + 7)).toNat).map junk, 0,
        0 + asInt (UInt32.ofNat (n + 7)).toNat⟩
  refine ⟨a, b, hrun, hep.trans (zero_add _), ?_⟩
  rw [← hep] at hp
  simpa using hp

theorem asInt_lt (v : ℕ) : asInt v < 2147483648 := by
  simp only [asInt]
  split <;> omega

variable {n : ℕ} {t : MsgType} {put : BufM (Fcall Npstr (Option ℤ))} {m : Fcall (Option CStr) Bytes}
  {s : CStr}

/-- A packet that is too long is given up. -/
theorem npCreate_eq_none (hput : Moves put n) (hn : 2147483648 ≤ n + 7) (junk : ℕ → UInt8) :
    npCreate (some junk) n t put = none := by
  obtain ⟨⟨size, type, tag⟩, b, hcom, hep, hp⟩ := npCreateCommon_moves junk n t
  obtain ⟨u, b', hrun, hep', hp'⟩ := hput b
  have hlt := asInt_lt (UInt32.ofNat (n + 7)).toNat
  have hover : bufCheckOverflow b' = true := by
    refine decide_eq_true ?_
    omega
  rw [npCreate, hcom]
  change (put b).bind _ = none
  rw [hrun]
  change npPostCheck _ b' = none
  rw [npPostCheck, if_pos hover]

/-- Without memory nothing is built. -/
theorem npCreate_nomem : npCreate none n t put = none := rfl

/-- **A constructor fails for want of memory, or because the packet is too long.** -/
theorem create_eq_none_iff (hm : Args m)
    (hC : ∀ v ∈ m.ofArgs.vals, v.Counted) (hI : ∀ v ∈ m.ofArgs.vals, v.IntLength)
    (hf : m.type ∉ filledIn) (M : Malloc) :
    create M m = none ↔ M = none ∨ 2147483648 ≤ m.ofArgs.body.length + 7 := by
  obtain ⟨put, hcreate, hput⟩ := putsAll_create hm hC hf
  rcases M with _ | junk
  · simp [hcreate, npCreate_nomem]
  · rw [or_iff_right (by simp)]
    rcases Nat.lt_or_ge (m.ofArgs.body.length + 7) 2147483648 with hl | hl
    · obtain ⟨fc, hfc, -⟩ := builds_create hm junk hC hl
      simp [hfc, Nat.not_le.mpr hl]
    · rw [Fcall.length_body hC] at hl ⊢
      rw [hcreate, npCreate_eq_none (hput.moves hI) hl]
      exact iff_of_true rfl hl

/-! ### What is decoded -/

/-- A string that a length of two bytes cannot count, or a list with one. -/
def Val.Overlong : Val Bytes Bytes → Prop
  | .str s => 65536 ≤ s.length
  | .names l => ∃ s ∈ l, 65536 ≤ s.length
  | _ => False

theorem length_view_lt (pkt : Bytes) (s : Npstr) : (s.view pkt).length < 65536 := by
  have hlen : ∀ (p : Option ℤ) (n : ℕ), (window pkt p n).length ≤ n := by
    rintro (- | off) n
    · exact Nat.zero_le n
    · exact List.length_take_le _ _
  exact lt_of_le_of_lt (hlen s.str _) s.len.toNat_lt

/-- What is decoded has no such string. -/
theorem not_overlong_view (pkt : Bytes) (u : Fcall Npstr (Option ℤ)) :
    ∀ v ∈ (u.view pkt).vals, ¬v.Overlong := by
  intro v hv
  rw [Fcall.view, Fcall.vals_map] at hv
  obtain ⟨w, -, rfl⟩ := List.mem_map.mp hv
  cases w with
  | str s => exact Nat.not_le.mpr (length_view_lt pkt s)
  | names l =>
    rintro ⟨s, hs, hlong⟩
    obtain ⟨s', -, rfl⟩ := List.mem_map.mp hs
    exact absurd (length_view_lt pkt s') (Nat.not_lt.mpr hlong)
  | int n => exact not_false
  | data n d => exact not_false
  | qids l => exact not_false

/-- **Arguments of which one is a string that is too long.** The other conditions are those of
the code: a string is `NULL` only where that is looked for, there are at most `MAXWELEM`
names, and the lengths are those of an `int`. -/
structure OverlongArgs (m : Fcall (Option CStr) Bytes) : Prop where
  args : Args m
  counted : ∀ v ∈ m.ofArgs.vals, v.Counted
  int : ∀ v ∈ m.ofArgs.vals, v.IntLength
  long : ∃ v ∈ m.ofArgs.vals, v.Overlong

theorem OverlongArgs.not_filledIn (h : OverlongArgs m) : m.type ∉ filledIn := by
  obtain ⟨v, hv, hlong⟩ := h.long
  intro hf
  cases m
  case rread count data | rreaddir count data =>
    obtain rfl := List.mem_singleton.mp hv
    exact hlong
  all_goals simp [filledIn, Fcall.type] at hf

/-- **A string that is too long does not make a constructor fail.** It returns `NULL` exactly
if there is no memory or the packet is too long. Otherwise it returns a packet, and that is
never decoded as what it was built from. -/
theorem overlong_null_iff {m : Fcall (Option CStr) Bytes} (h : OverlongArgs m) (M : Malloc) :
    (create M m = none ↔ M = none ∨ 2147483648 ≤ m.ofArgs.body.length + 7) ∧
      ∀ fc, create M m = some fc → ∀ tag,
        ¬DecodesAs (npSetTag fc tag).packet m.ofArgs tag := by
  refine ⟨create_eq_none_iff h.args h.counted h.int h.not_filledIn M, ?_⟩
  rintro fc - tag ⟨fc', b, -, -, -, -, -, hview⟩
  obtain ⟨v, hv, hlong⟩ := h.long
  rw [← hview] at hv
  exact not_overlong_view _ _ v hv hlong

/-- The version of a `Tversion` may be too long. -/
theorem overlongArgs_tversion (msize : UInt32) (hs : 65536 ≤ s.strlen)
    (hint : 2 + s.strlen < 2147483648) : OverlongArgs (.tversion msize (some s)) where
  args := .given (.tversion msize s)
  counted := by
    rintro v (_ | ⟨_, _ | ⟨_, ⟨⟩⟩⟩) <;> trivial
  int := by
    rintro v (_ | ⟨_, _ | ⟨_, ⟨⟩⟩⟩)
    · trivial
    · exact hint
  long := ⟨.str s.bytes, .tail _ List.mem_cons_self, hs⟩

/-- The letter `a`, 65536 times. -/
def longA : CStr :=
  ⟨List.replicate 65536 97, fun h => absurd (List.eq_of_mem_replicate h) (by decide)⟩

theorem strlen_longA : longA.strlen = 65536 := List.length_replicate

/-- The constructor of a `Tversion` with such a version fails without memory. -/
theorem overlong_null_nomem : create none (.tversion 8192 (some longA)) = none := by
  have h := overlongArgs_tversion 8192 strlen_longA.ge (by rw [strlen_longA]; omega)
  exact (overlong_null_iff h none).1.mpr (.inl rfl)

/-- The fields of a `Tversion` whose version has 65536 bytes are those of one with no version,
with the bytes behind them. -/
theorem body_tversion (msize : UInt32) {s : Bytes} (hs : s.length = 65536) :
    (Fcall.tversion msize s : Msg).body = (Fcall.tversion msize [] : Msg).body ++ s := by
  have h0 : leBytes 2 s.length = leBytes 2 0 := by
    rw [hs]
    rfl
  change leBytes 4 msize.toNat ++ (leBytes 2 s.length ++ s ++ []) =
    leBytes 4 msize.toNat ++ (leBytes 2 0 ++ [] ++ []) ++ s
  rw [h0]
  simp

/-- A `Tversion` with such a version is built, and is decoded as one without. -/
theorem tversion_lost {msize : UInt32} (hs : s.strlen = 65536) :
    ∃ fc fc' b, create (some fun _ => 0) (.tversion msize (some s)) = some fc ∧
      deserialize (npSetTag fc 1).packet = some (fc', b) ∧
      fc'.u.view (npSetTag fc 1).packet = .tversion msize [] := by
  have h := overlongArgs_tversion msize hs.ge (by rw [hs]; omega)
  have hb := body_tversion msize hs
  have hl : (Fcall.tversion msize s.bytes : Msg).body.length + 7 < 2147483648 := by
    have hlen : s.bytes.length = 65536 := hs
    have h0 : (Fcall.tversion msize [] : Msg).body.length = 6 := rfl
    rw [hb, List.length_append, hlen, h0]
    omega
  have hF : (Fcall.tversion msize [] : Msg).Fits := by
    rintro v (_ | ⟨_, _ | ⟨_, ⟨⟩⟩⟩)
    · trivial
    · simp [Val.Fits]
  obtain ⟨fc, hfc, hB⟩ := builds_create h.args (fun _ => 0) h.counted hl
  have ht : (Fcall.tversion msize [] : Msg).type = (Fcall.tversion msize s.bytes : Msg).type := rfl
  obtain ⟨fc', b, hdec, -, hview⟩ := @view_packet _ 1 _ _ ht hF hb hl
  refine ⟨fc, fc', b, hfc, ?_⟩
  rw [packet_npSetTag hB hl]
  exact ⟨hdec, hview⟩

/-- **A string that is lost**: the version of a `Tversion`, if it has 65536 bytes. -/
theorem overlong_version_lost :
    ∃ fc fc' b, create (some fun _ => 0) (.tversion 8192 (some longA)) = some fc ∧
      deserialize (npSetTag fc 1).packet = some (fc', b) ∧
      fc'.u.view (npSetTag fc 1).packet = .tversion 8192 [] := tversion_lost strlen_longA

end Diod
