import Diod.Npfs.Handlers

/-!
# Strings of the protocol and strings of C

`npstring.c` compares strings of the protocol, which have a length and may have any bytes in them,
with C strings, which end with a NUL, and it prints into buffers.

**`np_strcmp`** lets `strncmp` compare as many bytes as the string has, and then looks whether
the C string ends there. But `strncmp` ends at a NUL that both have: if the string has one where
the C string ends, then the byte that is looked at lies behind that end
(`Diod.np_strcmp_exact_iff`).
-/

namespace Diod

/-! ### Comparing -/

/-- `strncmp (s, t, n)`, for the `n` bytes at `s`. There is no result if it reads behind the bytes
at `t`. -/
def strncmp : Bytes → Bytes → Option ℤ
  | [], _ => some 0
  | _ :: _, [] => none
  | a :: s, b :: t =>
    if a ≠ b then some (a.toNat - b.toNat : ℤ) else if a = 0 then some 0 else strncmp s t

/-- `np_strcmp`. There is no result if it reads behind the NUL of `cs`. -/
def npStrcmp (str : Bytes) (cs : CStr) : Option ℤ := do
  let ret ← strncmp str (cs.bytes ++ [0])
  if ret = 0 then
    let c ← (cs.bytes ++ [0])[str.length]?
    pure (if c ≠ 0 then 1 else ret)
  else pure ret

/-- **`strncmp` finds no difference** if the string is part of the other one, or has a NUL where
that ends. -/
theorem strncmp_spec (str : Bytes) {t : Bytes} (ht : 0 ∉ t) :
    ∃ r, strncmp str (t ++ [0]) = some r ∧ (r = 0 ↔ str <+: t ∨ t ++ [0] <+: str) := by
  have hdiff : ∀ a b : UInt8, a ≠ b → (a.toNat - b.toNat : ℤ) ≠ 0 := fun a b h h0 =>
    h (UInt8.toNat_inj.mp (by omega))
  induction str generalizing t with
  | nil => exact ⟨0, rfl, by simp⟩
  | cons a str ih =>
    rcases t with _ | ⟨b, t⟩
    · by_cases ha : a = 0
      · exact ⟨0, by simp [strncmp, ha], by simp [ha]⟩
      · exact ⟨_, if_pos ha, iff_of_false (hdiff a 0 ha) (by simp [Ne.symm ha])⟩
    · by_cases hab : a = b
      · subst hab
        obtain ⟨ha, ht⟩ := not_or.mp (mt List.mem_cons.mpr ht)
        obtain ⟨r, hr, hiff⟩ := ih ht
        refine ⟨r, ?_, by simpa using hiff⟩
        rw [List.cons_append, strncmp, if_neg (not_not.mpr rfl), if_neg (Ne.symm ha), hr]
      · exact ⟨_, if_pos hab, iff_of_false (hdiff a b hab) (by simp [hab, Ne.symm hab])⟩

/-- **`np_strcmp` is right just if** the string has no NUL where the C string ends: it reads
nothing behind that end, and is 0 for equal strings only. -/
theorem np_strcmp_exact_iff (str : Bytes) (cs : CStr) :
    (∃ r, npStrcmp str cs = some r ∧ (r = 0 ↔ str = cs.bytes)) ↔ ¬cs.bytes ++ [0] <+: str := by
  obtain ⟨r, hr, hiff⟩ := strncmp_spec str cs.nul
  rw [npStrcmp, hr, Option.bind_eq_bind, Option.bind_some]
  by_cases hnul : cs.bytes ++ [0] <+: str
  · have hlen := hnul.length_le
    rw [if_pos (hiff.mpr (.inr hnul)), List.getElem?_eq_none hlen]
    exact iff_of_false (by rintro ⟨r, ⟨⟩, -⟩) (not_not.mpr hnul)
  · refine iff_of_true ?_ hnul
    by_cases h0 : r = 0
    · obtain ⟨u, hu⟩ := (hiff.mp h0).resolve_right hnul
      have hnth : (cs.bytes ++ [0])[str.length]? = some (u.headD 0) := by
        rw [← hu, List.append_assoc, List.getElem?_append_right le_rfl, Nat.sub_self]
        cases u <;> rfl
      rw [if_pos h0, hnth]
      refine ⟨_, rfl, ?_⟩
      rcases u with _ | ⟨c, u⟩
      · exact iff_of_true (by simp [h0]) (by simpa using hu)
      · have hc : c ≠ 0 := fun hc => cs.nul (by simp [← hu, hc])
        exact iff_of_false (by simp [hc]) (by simp [← hu])
    · refine ⟨r, if_neg h0, iff_of_false h0 fun heq => h0 (hiff.mpr (.inl ?_))⟩
      exact heq ▸ List.prefix_rfl

/-- Then what the handlers accept are equal strings, whatever is behind the C string. -/
theorem npStrEq_iff {str : Bytes} {cs : CStr} (h : ¬cs.bytes ++ [0] <+: str) (behind : ℕ → UInt8) :
    npStrEq behind str cs.bytes = true ↔ str = cs.bytes := by
  rw [npStrEq, Bool.and_eq_true, beq_iff_eq]
  constructor
  · rintro ⟨htake, hlen⟩
    have hle : cs.bytes.length ≤ str.length := by
      rw [Bool.or_eq_true, Bool.and_eq_true, beq_iff_eq, decide_eq_true_eq] at hlen
      omega
    by_cases hnul : 0 ∈ str
    · obtain ⟨u, v, rfl, hu⟩ := List.eq_append_cons_of_mem hnul
      rw [cstr_append_nul hu, List.take_of_length_le (by simp)] at htake
      rcases hle.eq_or_lt with heq | hlt
      · rw [← heq, List.take_left] at htake
        exact absurd (htake ▸ by simp) cs.nul
      · rw [List.take_of_length_le (by simp at hlt ⊢; omega)] at htake
        exact absurd ⟨v, by simp [← htake]⟩ h
    · rw [cstr_of_not_mem hnul, List.take_left] at htake
      rcases hle.eq_or_lt with heq | hlt
      · rwa [← heq, List.take_left] at htake
      · rw [List.take_of_length_le (by simp; omega)] at htake
        exact absurd (htake ▸ by simp) hnul
  · rintro rfl
    simp [cstr_of_not_mem cs.nul]

/-- **A version that is not `9P2000.L`**, but has a NUL behind it: what is behind the C string is
read, and may be a NUL. -/
theorem np_strcmp_reads_behind : npStrcmp (versionName ++ [0]) ⟨versionName, by decide⟩ = none ∧
    npStrEq (fun _ => 0) (versionName ++ [0]) versionName = true := by
  decide

end Diod
