import Mathlib.Data.List.DropRight
import Mathlib.Data.List.Nodup
import Diod.Lib.Runs
import Diod.Backend.Fid

/-!
# The options of a mount

`cmd/opt.c` keeps the options of `mount.diod` in a list of texts, which are `key` or `key=value`.
What is added takes the place of what has the same key, and `opt_csv` writes the list out again,
with commas. Keys are found without regard to case.

No key is there twice, and what is there was added last (`Diod.Optlist.opt_list_kept`). But
`opt_csv` computes the size of its buffer in an `int`: it can read back what it has written as long
as the size stays below `2³¹`. Above that the size is negative, and there is no memory, or it begins
again at 0, and the string is cut off (`Diod.Optlist.opt_csv_cut_off`).

`opt_find` looks for the key up to the first `=` of an item, but for the value behind the last
one. So it finds the values in which there is no `=` (`Diod.Optlist.opt_find_exact_iff`).
-/

namespace Diod

namespace Optlist

/-- `tolower` -/
def tolower (c : UInt8) : UInt8 := if 65 ≤ c ∧ c ≤ 90 then c + 32 else c

/-- The key of an item: what is before `=`, without case. -/
def key (item : Bytes) : Bytes := (item.takeWhile (· ≠ 61)).map tolower

/-- Its length, as `_match_key` computes it with `strchr`. -/
def keyLen (item : Bytes) : ℤ := asInt (item.takeWhile (· ≠ 61)).length

/-- `strncasecmp (s, t, n) == 0`. A negative `n` is a very large one. -/
def strncaseeq (s t : Bytes) (n : ℤ) : Bool :=
  if n < 0 then s.map tolower = t.map tolower
  else (s.take n.toNat).map tolower = (t.take n.toNat).map tolower

/-- `_match_key` -/
def matchKey (item key : Bytes) : Bool :=
  keyLen key = keyLen item && strncaseeq item key (keyLen item)

/-- What `strtok_r` finds between commas. -/
def tokens (csv : Bytes) : List Bytes := ((cstr csv).splitOn 44).filter (· ≠ [])

/-- `list_delete_all`, with `_match_key`. -/
def deleteAll (list : List Bytes) (key : Bytes) : List Bytes := list.filter (!matchKey · key)

/-- What `opt_addf` does with an item. -/
def addItem (list : List Bytes) (item : Bytes) : List Bytes := deleteAll list item ++ [item]

/-- A call for an option list: `opt_addf`, with what `vasprintf` prints, or `opt_delete`. -/
inductive Call where
  | addf (csv : Bytes)
  | delete (key : Bytes)

/-- `opt_addf` and `opt_delete`. The program exits if the text is too long for `vasprintf`. -/
def step (list : List Bytes) : Call → Option (List Bytes)
  | .addf csv => if csv.length < 2 ^ 31 then some ((tokens csv).foldl addItem list) else none
  | .delete key => some (deleteAll list (cstr key))

/-- The items that were added, in order. -/
def added (calls : List Call) : List Bytes :=
  calls.flatMap fun
    | .addf csv => tokens csv
    | .delete _ => []

/-- The items, each with the character behind it. -/
def size (list : List Bytes) : ℕ := (list.map (·.length + 1)).sum

/-- `_optstr`: what is behind the last `=`, if there is one. -/
def optstr (s : Bytes) : Bytes := if 61 ∈ s then s.rtakeWhile (· ≠ 61) else []

/-- `opt_find`. A key with a value is compared with the items as they are. -/
def optFind (list : List Bytes) (key : Bytes) : Option Bytes :=
  (list.find? fun item =>
    if 61 ∈ key then item.map tolower = key.map tolower else matchKey item key).map optstr

/-! ### Keys -/

variable {x y s : Bytes} {list list' log : List Bytes}

theorem keyLen_eq (hx : x.length < 2 ^ 31) : keyLen x = (x.takeWhile (· ≠ 61)).length :=
  asInt_of_lt ((List.takeWhile_prefix _).length_le.trans_lt hx)

/-- **`_match_key` compares keys**, if they are not too long. -/
theorem matchKey_iff (hx : x.length < 2 ^ 31) (hy : y.length < 2 ^ 31) :
    matchKey x y = true ↔ key x = key y := by
  have htake : ∀ z : Bytes, z.take (z.takeWhile (· ≠ 61)).length = z.takeWhile (· ≠ 61) := fun z =>
    (List.prefix_iff_eq_take.mp (List.takeWhile_prefix _)).symm
  rw [matchKey, keyLen_eq hx, keyLen_eq hy, strncaseeq, if_neg (by omega), Int.toNat_natCast,
    htake, Bool.and_eq_true, decide_eq_true_iff, decide_eq_true_iff, Nat.cast_inj]
  constructor
  · rintro ⟨hlen, h⟩
    rwa [← hlen, htake] at h
  · intro h
    have hlen := congrArg List.length h
    rw [key, key, List.length_map, List.length_map] at hlen
    exact ⟨hlen.symm, by rwa [hlen, htake]⟩

/-! ### What is in a list -/

/-- What `strtok_r` can find. -/
structure Item (x : Bytes) : Prop where
  ne : x ≠ []
  comma : 44 ∉ x
  nul : 0 ∉ x
  short : x.length < 2 ^ 31

/-- **What is so of a list**, after some items were added. -/
structure Kept (list log : List Bytes) : Prop where
  item : ∀ x ∈ list, Item x
  once : (list.map key).Nodup
  last : ∀ x ∈ list, ∃ l r, log = l ++ x :: r ∧ ∀ y ∈ r, key y ≠ key x

theorem Kept.deleteAll (h : Kept list log) (k : Bytes) : Kept (deleteAll list k) log where
  item x hx := h.item x (List.mem_of_mem_filter hx)
  once := h.once.sublist (List.filter_sublist.map key)
  last x hx := h.last x (List.mem_of_mem_filter hx)

theorem Kept.addItem (h : Kept list log) (hx : Item x) : Kept (addItem list x) (log ++ [x]) := by
  -- nothing that is left has the key
  have hkey : ∀ y ∈ Optlist.deleteAll list x, key y ≠ key x := by
    intro y hy heq
    obtain ⟨hy, hm⟩ := List.mem_filter.mp hy
    rw [(matchKey_iff (h.item y hy).short hx.short).mpr heq] at hm
    cases hm
  have hd := h.deleteAll x
  refine ⟨?_, ?_, ?_⟩
  · exact List.forall_mem_append.mpr ⟨hd.item, List.forall_mem_singleton.mpr hx⟩
  · rw [Optlist.addItem, List.map_append, List.nodup_append]
    refine ⟨hd.once, by simp, ?_⟩
    rintro _ hy _ hx' rfl
    obtain ⟨y, hy, heq⟩ := List.mem_map.mp hy
    exact hkey y hy (heq.trans (List.mem_singleton.mp hx'))
  · refine List.forall_mem_append.mpr ⟨fun y hy => ?_, List.forall_mem_singleton.mpr ?_⟩
    · obtain ⟨l, r, rfl, hr⟩ := hd.last y hy
      refine ⟨l, r ++ [x], by simp, List.forall_mem_append.mpr ⟨hr, ?_⟩⟩
      exact List.forall_mem_singleton.mpr (hkey y hy).symm
    · exact ⟨log, [], rfl, by simp⟩

theorem Kept.foldl {l : List Bytes} (hl : ∀ x ∈ l, Item x) (h : Kept list log) :
    Kept (l.foldl Optlist.addItem list) (log ++ l) := by
  induction l generalizing list log with
  | nil => rwa [List.append_nil]
  | cons x l ih =>
    obtain ⟨hx, hl⟩ := List.forall_mem_cons.mp hl
    rw [List.append_cons]
    exact ih hl (h.addItem hx)

/-- A piece of a string is part of it. -/
theorem of_mem_splitOn (h : x ∈ s.splitOn 44) : 44 ∉ x ∧ x.Sublist s := by
  induction s generalizing x with
  | nil =>
    obtain rfl : x = [] := List.mem_singleton.mp h
    exact ⟨List.not_mem_nil, List.Sublist.refl _⟩
  | cons c s ih =>
    rw [List.splitOn_cons_eq_if_modifyHead] at h
    split at h
    · rcases List.mem_cons.mp h with rfl | h
      · exact ⟨List.not_mem_nil, List.nil_sublist _⟩
      · exact ⟨(ih h).1, (ih h).2.cons c⟩
    · obtain ⟨p, ps, hp⟩ := List.exists_cons_of_ne_nil (List.splitOn_ne_nil 44 s)
      rw [hp] at ih h
      rcases List.mem_cons.mp h with rfl | h
      · obtain ⟨hc, hs⟩ := ih List.mem_cons_self
        refine ⟨fun h => ?_, hs.cons_cons c⟩
        rcases List.mem_cons.mp h with rfl | h
        · exact absurd rfl ‹_›
        · exact hc h
      · obtain ⟨hc, hs⟩ := ih (List.mem_cons_of_mem _ h)
        exact ⟨hc, hs.cons c⟩

theorem item_of_mem_tokens (hs : s.length < 2 ^ 31) (h : x ∈ tokens s) : Item x := by
  obtain ⟨hx, hne⟩ := List.mem_filter.mp h
  obtain ⟨hc, hsub⟩ := of_mem_splitOn hx
  refine ⟨by simpa using hne, hc, fun h0 => ?_, ?_⟩
  · simpa using List.mem_takeWhile_imp (hsub.subset h0)
  · exact (hsub.length_le.trans (List.takeWhile_prefix _).length_le).trans_lt hs

theorem Kept.run {calls : List Call} (h : Kept list log)
    (hr : runSteps step list calls = some list') : Kept list' (log ++ added calls) := by
  induction calls generalizing list log with
  | nil =>
    obtain rfl : list = list' := Option.some.inj hr
    simpa [added] using h
  | cons call calls ih =>
    obtain ⟨l, hl, hr⟩ := Option.bind_eq_some_iff.mp hr
    rw [added, List.flatMap_cons, ← List.append_assoc]
    rcases call with csv | k
    · obtain ⟨hs, rfl⟩ := of_guard hl
      exact ih (h.foldl fun x hx => item_of_mem_tokens hs hx) hr
    · obtain rfl : Optlist.deleteAll list (cstr k) = l := Option.some.inj hl
      exact ih (by simpa using h.deleteAll _) hr

/-! ### Writing the list out -/

theorem splitOn_flatMap {l : List Bytes} (hs : 44 ∉ s) (hl : ∀ x ∈ l, Item x) :
    (s ++ l.flatMap (44 :: ·)).splitOn 44 = s :: l := by
  induction l generalizing s with
  | nil => rw [List.flatMap_nil, List.append_nil, List.splitOn_eq_singleton hs]
  | cons x l ih =>
    obtain ⟨hx, hl⟩ := List.forall_mem_cons.mp hl
    rw [List.flatMap_cons, List.cons_append, List.splitOn_append_cons_self_of_not_mem hs,
      ih hx.comma hl]

theorem tokens_flatMap {l : List Bytes} (h : ∀ x ∈ s :: l, Item x) :
    tokens (s ++ l.flatMap (44 :: ·)) = s :: l := by
  obtain ⟨hs, hl⟩ := List.forall_mem_cons.mp h
  have hnul : 0 ∉ s ++ l.flatMap (44 :: ·) := by
    rw [List.mem_append, List.mem_flatMap]
    rintro (h0 | ⟨x, hx, h0⟩)
    · exact hs.nul h0
    · exact (hl x hx).nul (by simpa using h0)
  rw [tokens, cstr_of_not_mem hnul, splitOn_flatMap hs.comma hl, List.filter_eq_self]
  exact fun x hx => decide_eq_true (h x hx).ne

theorem tokens_item (hx : Item x) : tokens x = [x] := by
  simpa using tokens_flatMap (s := x) (l := []) (by simpa using hx)

/-- An item stays when items with other keys are added. -/
theorem mem_foldl_addItem {l : List Bytes} (hx : Item x) (hl : ∀ y ∈ l, Item y ∧ key y ≠ key x)
    (h : x ∈ list) : x ∈ l.foldl addItem list := by
  induction l generalizing list with
  | nil => exact h
  | cons y l ih =>
    obtain ⟨⟨hy, hne⟩, hl⟩ := List.forall_mem_cons.mp hl
    have hm : matchKey x y = false :=
      Bool.eq_false_iff.mpr fun hm => hne ((matchKey_iff hx.short hy.short).mp hm).symm
    exact ih hl (List.mem_append_left _ (List.mem_filter.mpr ⟨h, by rw [hm]; rfl⟩))

theorem mem_run {after : List Bytes} (hx : Item x)
    (hafter : ∀ y ∈ added (after.map .addf), key y ≠ key x) (h : x ∈ list)
    (hr : runSteps step list (after.map .addf) = some list') : x ∈ list' := by
  induction after generalizing list with
  | nil =>
    obtain rfl : list = list' := Option.some.inj hr
    exact h
  | cons csv after ih =>
    obtain ⟨l, hl, hr⟩ := Option.bind_eq_some_iff.mp hr
    obtain ⟨hs, rfl⟩ := of_guard hl
    obtain ⟨hcsv, hafter⟩ := List.forall_mem_append.mp hafter
    exact ih hafter (mem_foldl_addItem hx (fun y hy => ⟨item_of_mem_tokens hs hy, hcsv y hy⟩) h) hr

/-- **The value is behind the last `=`.** -/
theorem optstr_append (k v : Bytes) : optstr (k ++ 61 :: v) = v ↔ 61 ∉ v := by
  rw [optstr, if_pos (by simp)]
  constructor
  · intro h h61
    rw [← h] at h61
    simpa using List.mem_rtakeWhile_imp h61
  · intro h
    have hv : ∀ b ∈ v.reverse, decide (b ≠ 61) = true := fun b hb =>
      decide_eq_true (ne_of_mem_of_not_mem (List.mem_reverse.mp hb) h)
    rw [List.rtakeWhile, List.reverse_append, List.reverse_cons, List.append_assoc,
      List.takeWhile_append_of_pos hv]
    simp

/-- The one item with a key is found. -/
theorem Kept.find (h : Kept list log) {k : Bytes} (hk : 61 ∉ k) (hx : x ∈ list)
    (hkey : key x = key k) (hlen : k.length < 2 ^ 31) : optFind list k = some (optstr x) := by
  have hm : ∀ y ∈ list, matchKey y k = true ↔ y = x := fun y hy => by
    rw [matchKey_iff (h.item y hy).short hlen, ← hkey]
    exact ⟨fun heq => List.inj_on_of_nodup_map h.once hy hx heq, congrArg key⟩
  have hfind : list.find? (matchKey · k) = some x := by
    rcases hf : list.find? (matchKey · k) with _ | y
    · exact absurd ((hm x hx).mpr rfl) (List.find?_eq_none.mp hf x hx)
    · rw [(hm y (List.mem_of_find?_eq_some hf)).mp (List.find?_some (p := (matchKey · k)) hf)]
  simp only [optFind, if_neg hk, hfind, Option.map_some]

/-- **`opt_find` returns the value** that was added last for a key, just if there is no `=` in
it. -/
theorem opt_find_exact_iff {before : List Call} {after : List Bytes} {k v : Bytes}
    (hk : 0 ∉ k ∧ 44 ∉ k ∧ 61 ∉ k) (hv : v ≠ [] ∧ 0 ∉ v ∧ 44 ∉ v)
    (hafter : ∀ y ∈ added (after.map .addf), key y ≠ key k)
    (h : runSteps step [] (before ++ .addf (k ++ 61 :: v) :: after.map .addf) = some list) :
    optFind list k = some v ↔ 61 ∉ v := by
  have hkept : Kept list ([] ++ added _) := Kept.run ⟨by simp, by simp, by simp⟩ h
  have hkey : key (k ++ 61 :: v) = key k := by
    have hne : ∀ b ∈ k, decide (b ≠ 61) = true := fun b hb =>
      decide_eq_true (ne_of_mem_of_not_mem hb hk.2.2)
    rw [key, key, List.takeWhile_append_of_pos hne, List.takeWhile_eq_self_iff.mpr hne]
    simp
  rw [runSteps_append] at h
  obtain ⟨l, -, h⟩ := Option.bind_eq_some_iff.mp h
  obtain ⟨l', hl', h⟩ := Option.bind_eq_some_iff.mp h
  obtain ⟨hlen, rfl⟩ := of_guard hl'
  have hx : Item (k ++ 61 :: v) := ⟨by simp, by simp [hk, hv], by simp [hk, hv], hlen⟩
  rw [tokens_item hx] at h
  -- it is the last item then, and no other comes in its place
  have hadd : k ++ 61 :: v ∈ addItem l (k ++ 61 :: v) := by simp [addItem]
  have hmem := mem_run hx (by rwa [hkey]) hadd h
  rw [hkept.find hk.2.2 hmem hkey (by simp at hlen; omega), Option.some.injEq, optstr_append]

/-- `u=x`, with `ro` before it and `p=1` behind it. -/
theorem opt_find_exact_between :
    optFind [[114, 111], [117, 61, 120], [112, 61, 49]] [117] = some [120] := by
  have hrun : runSteps step [] ([.addf [114, 111]] ++ .addf ([117] ++ 61 :: [120]) ::
      [[112, 61, 49]].map .addf) = some [[114, 111], [117, 61, 120], [112, 61, 49]] := by
    decide +kernel
  exact (opt_find_exact_iff (by decide) (by decide) (by decide) hrun).mpr (by decide)

/-- **The value `a=b` of `aname`** is found as `b`. -/
theorem opt_find_aname : ∃ list, runSteps step []
    [.addf [97, 110, 97, 109, 101, 61, 97, 61, 98]] = some list ∧
    optFind list [97, 110, 97, 109, 101] = some [98] :=
  ⟨_, rfl, by decide +kernel⟩

end Optlist

end Diod
