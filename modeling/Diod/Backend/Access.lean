import Diod.Backend.Exports
import Mathlib.Data.List.DropRight

/-!
# Who may attach

The rules by which `diod_exp.c` decides about an attach, and what they leave open.

* **Which paths an export covers.** `_match_export_path` means to let an export cover its
  own path and what lies below it. For the second it only looks at one byte of the path,
  the one behind as many bytes as the export's path has: an export of `/foo` covers
  `/bar/x` as well (`Diod.matchExportPath_unrelated`). It does what it should precisely
  where that byte is not a slash, or the bytes before it are the export's
  (`Diod.matchExportPath_iff`).
* **Which entry decides.** The first listed export that covers the path, or else, with
  `exportall`, the first mount entry. `diod_match_exports` looks for both, but
  `diod_fetch_xflags`, which the need for authentication and `sharefd` depend on, only
  looks at listed exports (`Diod.fetch_agrees_iff`).
* **What the entry asks for.** Of a listed export all restrictions are checked, of a
  mount entry none, although it has the options of `exportopts`
  (`Diod.match_exports_sound_iff`).
-/

namespace Diod

/-! ### The configuration -/

/-- `diod_conf_validate_exports`: does the server start with these exports? -/
def Conf.diodConfValidateExports (C : Conf) : Bool :=
  !(!C.exportall && C.exports.isEmpty) &&
    C.exports.all fun x => (x.path.head? == some 47 || x.path == ctlName) && !hasDotDot x.path

/-- One option of `_parse_expopt`. With an unknown one the server exits. -/
def parseItem (item : Bytes) : Option UInt32 :=
  if item = [114, 111] then some XFLAGS_RO
  else if item = [115, 117, 112, 112, 114, 101, 115, 115] then some XFLAGS_SUPPRESS
  else if item = [115, 104, 97, 114, 101, 102, 100] then some XFLAGS_SHAREFD
  else if item = [112, 114, 105, 118, 112, 111, 114, 116] then some XFLAGS_PRIVPORT
  else if item = [110, 111, 97, 117, 116, 104] then some XFLAGS_NOAUTH
  else none

/-- `_parse_expopt`. What `strtok_r` returns are the nonempty pieces between commas. -/
def parseExpopt (s : Bytes) : Option UInt32 :=
  ((s.splitOn 44).filter (· ≠ [])).foldlM (fun flags item => (parseItem item).map (flags ||| ·)) 0

/-- The buffers that `fgets` fills from a file, with `room` bytes left in the current one,
and without the newlines. -/
def fgetsLines : ℕ → Bytes → Bytes → List Bytes
  | _, buf, [] => if buf = [] then [] else [buf]
  | room, buf, b :: s =>
    if b = 10 then buf :: fgetsLines 1023 [] s
    else if room ≤ 1 then (buf ++ [b]) :: fgetsLines 1023 [] s
    else fgetsLines (room - 1) (buf ++ [b]) s

/-- The second field of a line of `/proc/mounts`, if a third one follows. -/
def mountPath (line : Bytes) : Option Bytes :=
  match line.dropWhile (· ≠ 32) with
  | [] => none
  | _ :: path => if 32 ∈ path then some (path.takeWhile (· ≠ 32)) else none

/-- `diod_conf_get_mounts`, given `exportopts` and what is in `/proc/mounts` (nothing, if it
cannot be read or memory runs out). -/
def diodConfGetMounts (exportall : Bool) (exportopts procMounts : Option Bytes) :
    Option (List Export) :=
  if exportall then do
    let text ← procMounts
    let oflags ← exportopts.elim (some 0) parseExpopt
    pure (((fgetsLines 1023 [] text).filterMap mountPath).map fun path =>
      ⟨path, oflags, none, none⟩)
  else none

/-- A configuration with the mount entries of the moment. -/
def Conf.withMounts (C : Conf) (exportopts procMounts : Option Bytes) : Conf :=
  { C with mounts := diodConfGetMounts C.exportall exportopts procMounts }

/-- All mount entries have the same options, and no lists of hosts or users. -/
theorem oflags_of_mem_mounts {exportall : Bool} {exportopts procMounts : Option Bytes}
    {l : List Export} (h : diodConfGetMounts exportall exportopts procMounts = some l) :
    ∃ oflags, exportopts.elim (some 0) parseExpopt = some oflags ∧
      ∀ x ∈ l, x.oflags = oflags ∧ x.users = none ∧ x.hosts = none := by
  unfold diodConfGetMounts at h
  split at h
  · obtain ⟨text, -, h⟩ := Option.bind_eq_some_iff.mp h
    obtain ⟨oflags, ho, h⟩ := Option.bind_eq_some_iff.mp h
    refine ⟨oflags, ho, fun x hx => ?_⟩
    rw [← Option.some.inj h] at hx
    obtain ⟨path, -, rfl⟩ := List.mem_map.mp hx
    exact ⟨rfl, rfl, rfl⟩
  · cases h

/-! ### Paths -/

/-- The path of an export without trailing slashes. -/
def Export.stem (x : Export) : Bytes := x.path.rdropWhile (· == 47)

/-- **The paths an export is for**: with `/` all but `ctl`, and otherwise its own path and
what lies below it. -/
def Export.Covers (x : Export) (path : Bytes) : Prop :=
  x.path = [47] ∧ path ≠ ctlName ∨ path = x.stem ∨ ∃ r, path = x.stem ++ 47 :: r

/-- An export that names a path exactly. -/
def Export.Names (x : Export) (path : Bytes) : Prop := path = x.path ∨ path = x.stem

variable {x : Export} {path : Bytes}

theorem stem_front (x : Export) : x.stem <+: x.path := List.rdropWhile_prefix _ _

/-- **What `_match_export_path` looks at.** -/
theorem matchExportPath_eq_true : matchExportPath x path = true ↔
    x.path = [47] ∧ path ≠ ctlName ∨ path = x.stem ∨ path[x.stem.length]? = some 47 := by
  have hlen : (x.path.reverse.dropWhile (· == 47)).length = x.stem.length := by
    rw [Export.stem, List.rdropWhile, List.length_reverse]
  have htake : x.path.take x.stem.length = x.stem :=
    (List.prefix_iff_eq_take.mp (stem_front x)).symm
  have hshort : path[x.stem.length]? = some 47 → x.stem.length < path.length := fun h =>
    (List.getElem?_eq_some_iff.mp h).1
  simp only [matchExportPath, hlen, htake, Bool.or_eq_true, Bool.and_eq_true, beq_iff_eq,
    bne_iff_ne, decide_eq_true_eq, or_assoc]
  refine or_congr Iff.rfl (or_congr ?_ ?_)
  · exact ⟨fun h => h.2.symm, fun h => ⟨by rw [h], h.symm⟩⟩
  · exact ⟨fun h => h.2, fun h => ⟨hshort h, h⟩⟩

/-- To lie below the path of an export is to have it as a prefix, with a slash behind it. -/
theorem exists_below_iff : (∃ r, path = x.stem ++ 47 :: r) ↔
    x.stem <+: path ∧ path[x.stem.length]? = some 47 := by
  constructor
  · rintro ⟨r, rfl⟩
    exact ⟨List.prefix_append _ _, by simp⟩
  · rintro ⟨⟨t, rfl⟩, h⟩
    rw [List.getElem?_append_right le_rfl, Nat.sub_self, ← List.head?_eq_getElem?] at h
    obtain ⟨r, rfl⟩ := List.head?_eq_some_iff.mp h
    exact ⟨r, rfl⟩

/-- **An export covers the right paths exactly as long as the byte behind its length does
not mislead**: where it is a slash, the path has to begin with the export's. -/
theorem matchExportPath_iff (x : Export) (path : Bytes) :
    (matchExportPath x path = true ↔ x.Covers path) ↔
      (path[x.stem.length]? = some 47 → x.stem <+: path) := by
  rw [matchExportPath_eq_true, Export.Covers, exists_below_iff]
  constructor
  · intro h hslash
    rcases h.mp (.inr (.inr hslash)) with ⟨hroot, -⟩ | rfl | ⟨hpre, -⟩
    · have hstem : x.stem = [] := by rw [Export.stem, hroot]; rfl
      rw [hstem]
      exact List.nil_prefix
    · exact List.prefix_refl _
    · exact hpre
  · intro h
    exact or_congr Iff.rfl (or_congr Iff.rfl ⟨fun hs => ⟨h hs, hs⟩, fun hs => hs.2⟩)

/-- The export `/foo`, and nothing else. -/
def exportFoo : Conf := { authRequired := false, exports := [⟨[47, 102, 111, 111], 0, none, none⟩] }

/-- **An export of `/foo` covers `/bar/x`.** The server starts with this export, and lets
everyone attach to the other path. -/
theorem matchExportPath_unrelated : exportFoo.diodConfValidateExports = true ∧
    (∀ x ∈ exportFoo.exports, matchExportPath x [47, 98, 97, 114, 47, 120] = true ∧
      ¬x.Covers [47, 98, 97, 114, 47, 120]) ∧
    exportFoo.diodMatchExports [47, 98, 97, 114, 47, 120] {} = some 0 := by
  refine ⟨by decide, fun x hx => ?_, by decide⟩
  obtain rfl := List.mem_singleton.mp hx
  refine ⟨by decide, ?_⟩
  rintro (⟨h, -⟩ | h | ⟨r, h⟩)
  · exact absurd h (by decide)
  · exact absurd h (by decide)
  · exact absurd (List.cons.inj (List.cons.inj h).2).1 (by decide)

/-- A path that an export names, it covers. -/
theorem matchExportPath_of_names (h : x.Names path) : matchExportPath x path = true := by
  rw [matchExportPath_eq_true]
  rcases h with rfl | rfl
  · -- what was cut off are slashes, so the byte behind the rest is one, or there is none
    obtain ⟨t, ht⟩ := stem_front x
    have hslash : x.path.rtakeWhile (· == 47) = t := by
      have h := List.rdropWhile_append_rtakeWhile (p := fun b : UInt8 => b == 47) (l := x.path)
      exact List.append_cancel_left (h.trans ht.symm)
    rcases t with _ | ⟨b, t⟩
    · exact .inr (.inl (by rw [← ht, List.append_nil]))
    · have hb : b = 47 := by
        have := List.mem_rtakeWhile_imp (hslash ▸ List.mem_cons_self : b ∈ _)
        exact eq_of_beq this
      refine .inr (.inr ?_)
      rw [← ht, hb]
      simp
  · exact .inr (.inl rfl)

/-! ### The entry that decides -/

namespace Conf

/-- **The entry that decides about a path**: the first listed export that covers it or
else, with `exportall`, the first mount entry. -/
def entry (C : Conf) (path : Bytes) : Option Export :=
  match C.exports.find? fun x => matchExportPath x path with
  | some x => some x
  | none =>
    if C.exportall then C.mounts.bind fun l => l.find? fun x => matchExportPath x path else none

variable {C : Conf} {client : Client} {F : UInt32}

/-- What is checked of a listed export. -/
structure Passes (C : Conf) (client : Client) (x : Export) : Prop where
  shown : x.oflags &&& XFLAGS_SUPPRESS = 0
  host : C.matchExportHosts x client = true
  user : x.users = none

theorem entry_of_listed (h : C.exports.find? (fun y => matchExportPath y path) = some x) :
    C.entry path = some x := by
  rw [entry, h]

/-- The entry of a path that is not listed is the first mount entry that covers it. -/
theorem entry_of_unlisted (h : C.exports.find? (fun y => matchExportPath y path) = none) :
    C.entry path = some x ↔ C.exportall = true ∧
      ∃ l ∈ C.mounts, l.find? (fun y => matchExportPath y path) = some x := by
  rw [entry, h]
  dsimp only
  rcases C.exportall with _ | _
  · simp
  · simp only [if_true, true_and, Option.bind_eq_some_iff, Option.mem_def]

/-- **A listed export is granted if it passes the checks.** -/
theorem diodMatchExports_of_listed (hd : hasDotDot path = false)
    (h : C.exports.find? (fun y => matchExportPath y path) = some x) :
    C.diodMatchExports path client = some F ↔ C.Passes client x ∧ x.oflags = F := by
  simp only [diodMatchExports, hd, h]
  constructor
  · intro hF
    split at hF
    · cases hF
    · split at hF
      · cases hF
      · rename_i hs
        split at hF
        · rename_i hp
          exact ⟨⟨not_not.mp hs, hp.1, Option.isNone_iff_eq_none.mp hp.2⟩, Option.some.inj hF⟩
        · cases hF
  · rintro ⟨⟨hs, hh, hu⟩, rfl⟩
    rw [if_neg (by simp), if_neg (not_not.mpr hs), if_pos ⟨hh, by rw [hu]; rfl⟩]

/-- **A mount entry is granted as it is.** -/
theorem diodMatchExports_of_unlisted (hd : hasDotDot path = false)
    (h : C.exports.find? (fun y => matchExportPath y path) = none) :
    C.diodMatchExports path client = (C.entry path).map (·.oflags) := by
  simp only [diodMatchExports, entry, matchMounts, hd, h]
  rw [if_neg (by simp)]
  split
  · rw [Option.map_bind]
    rfl
  · rfl

theorem diodMatchExports_of_dotDot (hd : hasDotDot path = true) :
    C.diodMatchExports path client = none := by
  rw [diodMatchExports, if_pos hd]

/-- A grant is one of the entry that decides. -/
theorem entry_of_granted (h : C.diodMatchExports path client = some F) :
    ∃ x, C.entry path = some x ∧ x.oflags = F := by
  rcases hd : hasDotDot path with _ | _
  · rcases hl : C.exports.find? fun y => matchExportPath y path with _ | x
    · rw [diodMatchExports_of_unlisted hd hl] at h
      exact Option.map_eq_some_iff.mp h
    · exact ⟨x, entry_of_listed hl, ((diodMatchExports_of_listed hd hl).mp h).2⟩
  · rw [diodMatchExports_of_dotDot hd] at h; cases h

/-! ### Two searches -/

/-- With memory, authentication is needed unless an export has `noauth`. -/
theorem diodAuthRequired_of_fetch {aname : Bytes} (h : C.diodFetchXflags aname = some F) :
    C.diodAuthRequired true aname = (C.authRequired && F &&& XFLAGS_NOAUTH == 0) := by
  simp [diodAuthRequired, h, bne]

/-- **The two searches find the same entry exactly where no mount entry decides.** Then the
flags of the attach and the need for authentication come from one entry. -/
theorem fetch_agrees_iff (C : Conf) (client : Client) (aname : Bytes) :
    (∀ F, C.diodMatchExports (cstr aname) client = some F →
      ∃ x, C.entry (cstr aname) = some x ∧ x.oflags = F ∧ C.diodFetchXflags aname = some F ∧
        C.diodAuthRequired true aname = (C.authRequired && F &&& XFLAGS_NOAUTH == 0)) ↔
      (hasDotDot (cstr aname) = false →
        (∀ x ∈ C.exports, matchExportPath x (cstr aname) = false) → C.exportall = true →
          C.matchMounts (cstr aname) = none) := by
  rcases hd : hasDotDot (cstr aname) with _ | _
  · rcases hl : C.exports.find? fun y => matchExportPath y (cstr aname) with _ | x
    · have hnone : C.diodFetchXflags aname = none := by
        rw [diodFetchXflags, hd, hl]
        rfl
      have hmatch := @diodMatchExports_of_unlisted _ C client hd hl
      have hun : ∀ x ∈ C.exports, matchExportPath x (cstr aname) = false := fun x hx =>
        Bool.eq_false_iff.mpr (List.find?_eq_none.mp hl x hx)
      constructor
      · intro h _ _ he
        rcases hm : C.matchMounts (cstr aname) with _ | F
        · rfl
        · -- the mount entry is granted, and the other search has nothing
          have hF : C.diodMatchExports (cstr aname) client = some F := by
            rw [diodMatchExports, hd, hl, ← hm]
            simp [he]
          obtain ⟨-, -, -, hf, -⟩ := h F hF
          rw [hnone] at hf
          cases hf
      · intro h F hF
        rw [diodMatchExports, hd, hl] at hF
        simp only [Bool.false_eq_true, if_false] at hF
        split at hF
        · rename_i he
          rw [h rfl hun he] at hF
          cases hF
        · cases hF
    · refine iff_of_true (fun F hF => ?_) fun _ h => ?_
      · have hx := ((diodMatchExports_of_listed hd hl).mp hF).2
        have hf : C.diodFetchXflags aname = some F := by
          rw [diodFetchXflags, hd, hl, ← hx]
          rfl
        exact ⟨x, entry_of_listed hl, hx, hf, diodAuthRequired_of_fetch hf⟩
      · have hx := List.find?_some hl
        rw [h x (List.mem_of_find?_eq_some hl)] at hx
        cases hx
  · refine iff_of_true (fun F hF => ?_) fun h => by cases h
    rw [diodMatchExports_of_dotDot hd] at hF
    cases hF

end Conf

/-- Everything that is mounted is exported, in general with authentication. -/
def exportAll : Conf := { authRequired := true, exports := [], exportall := true }

/-- `x / y` -/
def rootMounted : Bytes := [120, 32, 47, 32, 121, 10]

/-- `noauth` -/
def noauth : Bytes := [110, 111, 97, 117, 116, 104]

/-- **An export with `noauth` that needs authentication.** The mount of `/` has the options
of `exportopts` for the attach, and is not there for the other search. -/
theorem fetch_misses_mount :
    (exportAll.withMounts (some noauth) (some rootMounted)).diodConfValidateExports = true ∧
    (exportAll.withMounts (some noauth) (some rootMounted)).diodMatchExports [47] {} =
      some XFLAGS_NOAUTH ∧
    (exportAll.withMounts (some noauth) (some rootMounted)).diodFetchXflags [47] = none ∧
    (exportAll.withMounts (some noauth) (some rootMounted)).diodAuthRequired true [47] = true := by
  decide

/-! ### Restrictions -/

/-- **All restrictions of an entry are met**, by a client, and a user who is on the lists
`onList`. -/
structure Export.Admits (x : Export) (C : Conf) (client : Client) (onList : Bytes → Bool) :
    Prop where
  shown : x.oflags &&& XFLAGS_SUPPRESS = 0
  port : x.oflags &&& XFLAGS_PRIVPORT ≠ 0 → client.privport = true
  host : ∀ l, x.hosts = some l → C.hostlistFind l client.id = true
  user : ∀ l, x.users = some l → onList l = true

namespace Conf

variable {C : Conf} {client : Client}

/-- The checks of a listed export are those of its restrictions. -/
theorem Passes.admits (onList : Bytes → Bool) (h : C.Passes client x) :
    x.Admits C client onList := by
  have hh := h.host
  unfold matchExportHosts at hh
  split at hh
  · cases hh
  · rename_i hp
    refine ⟨h.shown, fun ho => ?_, fun l hl => ?_, fun l hl => ?_⟩
    · by_contra hc
      exact hp ⟨ho, hc⟩
    · rw [hl] at hh
      exact hh
    · rw [h.user] at hl
      cases hl

/-- **The options of the mount entries are met**, where they decide. -/
def OpenMounts (C : Conf) (client : Client) (path : Bytes) : Prop :=
  hasDotDot path = false → (∀ x ∈ C.exports, matchExportPath x path = false) →
    C.exportall = true → ∀ l ∈ C.mounts, ∀ x ∈ l, matchExportPath x path = true →
      x.oflags &&& XFLAGS_SUPPRESS = 0 ∧
        (x.oflags &&& XFLAGS_PRIVPORT ≠ 0 → client.privport = true)

/-- **An export with `suppress` comes first**, before others that cover the path and let the
client in. -/
def SuppressFirst (C : Conf) (client : Client) (path : Bytes) : Prop :=
  ∀ x ∈ C.exports, x.oflags &&& XFLAGS_SUPPRESS ≠ 0 → x.Names path → hasDotDot path = false →
    ∀ y, C.exports.find? (fun z => matchExportPath z path) = some y → ¬C.Passes client y

/-- The first half: what is granted has its restrictions met. -/
theorem granted_admits_iff (C : Conf) (client : Client) (onList : Bytes → Bool) (path : Bytes)
    (exportopts procMounts : Option Bytes) :
    (∀ F, (C.withMounts exportopts procMounts).diodMatchExports path client = some F →
      ∃ x, (C.withMounts exportopts procMounts).entry path = some x ∧ x.oflags = F ∧
        x.Admits C client onList) ↔
      (C.withMounts exportopts procMounts).OpenMounts client path := by
  obtain ⟨D, hD⟩ : ∃ D, D = C.withMounts exportopts procMounts := ⟨_, rfl⟩
  have hmounts : ∀ l ∈ D.mounts, ∃ o, ∀ x ∈ l, x.oflags = o ∧ x.users = none ∧ x.hosts = none := by
    intro l hl
    rw [hD] at hl
    obtain ⟨oflags, -, hall⟩ := oflags_of_mem_mounts hl
    exact ⟨oflags, hall⟩
  have hadm : ∀ x, D.Passes client x → x.Admits C client onList := by
    intro x hx
    rw [hD] at hx
    -- the hosts are looked up in the same lists
    obtain ⟨hs, hp, hh, hu⟩ := hx.admits onList
    exact ⟨hs, hp, hh, hu⟩
  rw [← hD]
  constructor
  · intro h hd hun he l hl x hx hm
    have hnone : D.exports.find? (fun z => matchExportPath z path) = none :=
      List.find?_eq_none.mpr fun z hz => by rw [hun z hz]; simp
    -- the first mount entry that covers the path has the same options
    obtain ⟨y, hy⟩ : ∃ y, l.find? (fun z => matchExportPath z path) = some y :=
      Option.isSome_iff_exists.mp (List.find?_isSome.mpr ⟨x, hx, hm⟩)
    have hentry : D.entry path = some y := (entry_of_unlisted hnone).mpr ⟨he, l, hl, hy⟩
    have hF : D.diodMatchExports path client = some y.oflags := by
      rw [diodMatchExports_of_unlisted hd hnone, hentry]
      rfl
    obtain ⟨z, hz, -, had⟩ := h _ hF
    obtain rfl := Option.some.inj (hentry.symm.trans hz)
    obtain ⟨o, ho⟩ := hmounts l hl
    rw [(ho x hx).1, ← (ho y (List.mem_of_find?_eq_some hy)).1]
    exact ⟨had.shown, had.port⟩
  · intro h F hF
    rcases hd : hasDotDot path with _ | _
    · rcases hl : D.exports.find? fun z => matchExportPath z path with _ | x
      · obtain ⟨x, hentry, hx⟩ := entry_of_granted hF
        have hun : ∀ z ∈ D.exports, matchExportPath z path = false := fun z hz =>
          Bool.eq_false_iff.mpr (List.find?_eq_none.mp hl z hz)
        obtain ⟨he, l, hm, hfind⟩ := (entry_of_unlisted hl).mp hentry
        have hmem := List.mem_of_find?_eq_some hfind
        obtain ⟨o, ho⟩ := hmounts l hm
        obtain ⟨-, hu, hh⟩ := ho x hmem
        have hcov : matchExportPath x path = true :=
          List.find?_some (p := fun z => matchExportPath z path) hfind
        obtain ⟨hs, hp⟩ := h hd hun he l hm x hmem hcov
        refine ⟨x, hentry, hx, hs, hp, fun l hl => ?_, fun l hl => ?_⟩
        · rw [hh] at hl
          cases hl
        · rw [hu] at hl
          cases hl
      · obtain ⟨hp, hx⟩ := (diodMatchExports_of_listed hd hl).mp hF
        exact ⟨x, entry_of_listed hl, hx, hadm x hp⟩
    · rw [diodMatchExports_of_dotDot hd] at hF; cases hF

/-- The second half: `suppress` withdraws the path of an export. -/
theorem suppress_withdraws_iff (C : Conf) (client : Client) (path : Bytes) :
    ((∃ x ∈ C.exports, x.oflags &&& XFLAGS_SUPPRESS ≠ 0 ∧ x.Names path) →
      C.diodMatchExports path client = none) ↔ C.SuppressFirst client path := by
  constructor
  · intro h x hx hs hn hd y hy hp
    have hnone := h ⟨x, hx, hs, hn⟩
    rw [(diodMatchExports_of_listed hd hy).mpr ⟨hp, rfl⟩] at hnone
    cases hnone
  · rintro h ⟨x, hx, hs, hn⟩
    rcases hd : hasDotDot path with _ | _
    · -- some listed export covers the path, so mount entries do not matter
      obtain ⟨y, hy⟩ : ∃ y, C.exports.find? (fun z => matchExportPath z path) = some y :=
        Option.isSome_iff_exists.mp (List.find?_isSome.mpr ⟨x, hx, matchExportPath_of_names hn⟩)
      refine Option.eq_none_iff_forall_ne_some.mpr fun F hF => ?_
      exact h x hx hs hn hd y hy ((diodMatchExports_of_listed hd hy).mp hF).1
    · exact diodMatchExports_of_dotDot hd

/-- **An attach is granted with all restrictions met, and `suppress` withdraws a path,
exactly where** the options of a mount entry that decides are met, and an export with
`suppress` comes before others that let the client in. -/
theorem match_exports_sound_iff (C : Conf) (client : Client) (onList : Bytes → Bool)
    (path : Bytes) (exportopts procMounts : Option Bytes) :
    ((∀ F, (C.withMounts exportopts procMounts).diodMatchExports path client = some F →
      ∃ x, (C.withMounts exportopts procMounts).entry path = some x ∧ x.oflags = F ∧
        x.Admits C client onList) ∧
      ((∃ x ∈ C.exports, x.oflags &&& XFLAGS_SUPPRESS ≠ 0 ∧ x.Names path) →
        (C.withMounts exportopts procMounts).diodMatchExports path client = none)) ↔
      (C.withMounts exportopts procMounts).OpenMounts client path ∧
        (C.withMounts exportopts procMounts).SuppressFirst client path :=
  and_congr (granted_admits_iff C client onList path exportopts procMounts)
    (suppress_withdraws_iff (C.withMounts exportopts procMounts) client path)

end Conf

/-- `privport` -/
def privport : Bytes := [112, 114, 105, 118, 112, 111, 114, 116]

/-- **A mount entry with `privport` lets everyone in**, also from other ports. -/
theorem match_exports_ignores_privport : ∃ x,
    (exportAll.withMounts (some privport) (some rootMounted)).entry [47] = some x ∧
    (exportAll.withMounts (some privport) (some rootMounted)).diodMatchExports [47]
      { privport := false } = some x.oflags ∧
    ∀ onList, ¬x.Admits exportAll { privport := false } onList := by
  refine ⟨⟨[47], XFLAGS_PRIVPORT, none, none⟩, rfl, by decide, fun onList h => ?_⟩
  exact absurd (h.port (by decide)) (by decide)

end Diod
