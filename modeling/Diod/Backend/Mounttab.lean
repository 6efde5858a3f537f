import Diod.Backend.Access
import Diod.Lib.Triple
import Diod.Wire.Create

/-!
# The mount table

With `exportall`, `diod_conf_get_mounts` makes an export of every line of `/proc/mounts`. The
kernel writes one mount to a line, its fields separated by single spaces, and what would be
taken for a separator inside of a field in octal (`Diod.mangle`).

The code reads the file through a buffer of 1024 bytes and takes what stands between the first
two spaces of the buffer for the mount point, as it stands there. So

* a mount point with a space, a tab, a newline or a backslash in its name is exported under
  the name in which these are still escaped;
* a line of more than 1023 bytes is taken for several (`Diod.cutLine`). Behind long options,
  the last one is often `… 0 0`, and `0` is exported.

**A line gives its own mount point, and nothing else, exactly if it survives both**
(`Diod.Mntent.Survives`, `Diod.get_mounts_iff`): of its pieces one has two spaces, and the
mount point is between them. A line of at most 1023 bytes survives if and only if there is
nothing to be decoded in its mount point.

The second half is about what the function allocates: whatever fails, the file is closed and
the list is freed.
-/

namespace Diod

/-! ### The format -/

/-- A byte of a field, as the kernel writes it. -/
def mangleByte (b : UInt8) : Bytes :=
  if b = 32 then [92, 48, 52, 48]
  else if b = 9 then [92, 48, 49, 49]
  else if b = 10 then [92, 48, 49, 50]
  else if b = 92 then [92, 49, 51, 52]
  else [b]

/-- A field, as the kernel writes it. -/
def mangle (s : Bytes) : Bytes := s.flatMap mangleByte

/-- A mount: the device, the mount point and what follows it, at least the type. -/
structure Mntent where
  fsname : CStr
  dir : CStr
  rest : List CStr
  rest_ne : rest ≠ []

/-- A line, without its newline. -/
def Mntent.line (e : Mntent) : Bytes :=
  mangle e.fsname.bytes ++ 32 :: (mangle e.dir.bytes ++
    e.rest.flatMap fun f => 32 :: mangle f.bytes)

/-- The whole file. -/
def procMounts (entries : List Mntent) : Bytes := entries.flatMap fun e => e.line ++ [10]

variable {s l a : Bytes} {e : Mntent}

/-- What `diod_conf_get_mounts` holds while it runs: whether the file is open, the list, and
the number of exports that are in no list. -/
structure Getmnt where
  /-- Whether the allocations to come succeed. -/
  allocs : List Bool
  file : Bool := false
  list : Option (List Export) := none
  loose : ℕ := 0

namespace Getmnt

open Prog

/-- An allocation. -/
def alloc : Prog Getmnt Bool := fun s =>
  (.ok (s.allocs.headD true), { s with allocs := s.allocs.tail })

/-- An allocation without which the function is left. -/
def allocOrStop : Prog Getmnt Unit := do
  if ← alloc then pure () else .stop

/-- `_xstrdup`: without memory, the server exits. -/
def xstrdup : Prog Getmnt Unit := do
  if ← alloc then pure () else .crash

/-- `_create_export` -/
def createExport (path : Bytes) : Prog Getmnt Export := do
  allocOrStop
  -- without memory for the path, the export is freed
  allocOrStop
  .modify fun s => { s with loose := s.loose + 1 }
  pure ⟨path, 0, none, none⟩

/-- The options of an export: a copy, and another one for `strtok_r`. -/
def setOpts (exportopts : Option Bytes) (x : Export) : Prog Getmnt Export :=
  match exportopts with
  | none => pure x
  | some opts => do
    xstrdup
    xstrdup
    match parseExpopt opts with
    | none => .crash
    | some oflags => pure { x with oflags }

/-- `list_append`, or else `_destroy_export` -/
def listAppend (x : Export) : Prog Getmnt Unit := do
  if ← alloc then
    .modify fun s => { s with list := s.list.map (· ++ [x]), loose := s.loose - 1 }
  else do
    .modify fun s => { s with loose := s.loose - 1 }
    .stop

/-- The loop of `diod_conf_get_mounts`. -/
def mountLoop (exportopts : Option Bytes) : List Bytes → Prog Getmnt Unit
  | [] => pure ()
  | buf :: bufs =>
    match mountPath buf with
    | none => mountLoop exportopts bufs
    | some path => do
      let x ← createExport path
      let x ← setOpts exportopts x
      listAppend x
      mountLoop exportopts bufs

/-- `diod_conf_get_mounts`, up to its labels. -/
def getMounts (exportall : Bool) (exportopts procMounts : Option Bytes) : Prog Getmnt Unit := do
  .when (exportall = false) .stop
  allocOrStop
  .modify fun s => { s with list := some [] }
  match procMounts with
  | none => .stop
  | some text => do
    .modify fun s => { s with file := true }
    mountLoop exportopts (fgetsLines 1023 [] text)

/-- `diod_conf_get_mounts`, with its labels. The file cannot be opened if there is no
`procMounts`. -/
def diodConfGetMounts (exportall : Bool) (exportopts procMounts : Option Bytes) :
    Prog Getmnt (Option (List Export)) := do
  match ← (getMounts exportall exportopts procMounts).attempt with
  | some () => do
    .modify fun s => { s with file := false }
    let s ← .read
    pure s.list
  | none => do
    .modify fun s => { s with file := false, list := none }
    pure none

/-- The export of a mount point. -/
def mountExport (exportopts : Option Bytes) (path : Bytes) : Export :=
  ⟨path, (exportopts.elim (some 0) parseExpopt).getD 0, none, none⟩

/-- The list is this, and `n` exports are in no list. -/
def Holds (l : List Export) (n : ℕ) (s : Getmnt) : Prop := s.list = some l ∧ s.loose = n

theorem triple_alloc (l : List Export) (n : ℕ) (E : Getmnt → Prop) :
    Triple (Holds l n) alloc (fun _ => Holds l n) E := fun _ hs => hs

theorem triple_allocOrStop (l : List Export) :
    Triple (Holds l 0) allocOrStop (fun _ => Holds l 0) fun s => s.loose = 0 := by
  refine (triple_alloc l 0 _).bind fun b => ?_
  rcases b with _ | _
  · exact triple_stop fun s hs => hs.2
  · exact triple_pure fun s hs => hs

theorem triple_xstrdup (l : List Export) (n : ℕ) (E : Getmnt → Prop) :
    Triple (Holds l n) xstrdup (fun _ => Holds l n) E := by
  refine (triple_alloc l n _).bind fun b => ?_
  rcases b with _ | _
  · exact triple_crash
  · exact triple_pure fun s hs => hs

theorem triple_createExport (l : List Export) (path : Bytes) :
    Triple (Holds l 0) (createExport path)
      (fun x s => x = ⟨path, 0, none, none⟩ ∧ Holds l 1 s) fun s => s.loose = 0 := by
  refine (triple_allocOrStop l).bind fun _ => (triple_allocOrStop l).bind fun _ => ?_
  have hmod : Triple (Holds l 0) (.modify fun s => { s with loose := s.loose + 1 })
      (fun _ => Holds l 1) fun s => s.loose = 0 :=
    triple_modify fun s hs => ⟨hs.1, congrArg (· + 1) hs.2⟩
  exact hmod.bind fun _ => triple_pure fun s hs => ⟨rfl, hs⟩

theorem triple_setOpts (l : List Export) (exportopts : Option Bytes) (path : Bytes)
    (E : Getmnt → Prop) : Triple (Holds l 1) (setOpts exportopts ⟨path, 0, none, none⟩)
      (fun x s => x = mountExport exportopts path ∧ Holds l 1 s) E := by
  rcases exportopts with _ | opts
  · exact triple_pure fun s hs => ⟨rfl, hs⟩
  · refine (triple_xstrdup l 1 E).bind fun _ => (triple_xstrdup l 1 E).bind fun _ => ?_
    rcases hp : parseExpopt opts with _ | oflags
    · exact triple_crash
    · refine triple_pure fun s hs => ⟨?_, hs⟩
      simp only [mountExport, Option.elim_some, hp, Option.getD_some]

theorem triple_listAppend (l : List Export) (x : Export) :
    Triple (Holds l 1) (listAppend x) (fun _ => Holds (l ++ [x]) 0) fun s => s.loose = 0 := by
  refine (triple_alloc l 1 _).bind fun b => ?_
  rcases b with _ | _
  · have hmod : Triple (Holds l 1) (.modify fun s => { s with loose := s.loose - 1 })
        (fun _ s => s.loose = 0) fun s => s.loose = 0 :=
      triple_modify fun s hs => congrArg (· - 1) hs.2
    exact hmod.bind fun _ => triple_stop fun s hs => hs
  · refine triple_modify fun s hs => ⟨?_, congrArg (· - 1) hs.2⟩
    change s.list.map _ = _
    rw [hs.1, Option.map_some]

/-- **The loop appends one export for every buffer that has a mount point**, and leaves none
behind when it fails. -/
theorem triple_mountLoop (exportopts : Option Bytes) (bufs : List Bytes) (l : List Export) :
    Triple (Holds l 0) (mountLoop exportopts bufs)
      (fun _ => Holds (l ++ (bufs.filterMap mountPath).map (mountExport exportopts)) 0)
      fun s => s.loose = 0 := by
  induction bufs generalizing l with
  | nil =>
    rw [List.filterMap_nil, List.map_nil, List.append_nil]
    exact triple_pure fun s hs => hs
  | cons buf bufs ih =>
    rw [mountLoop]
    rcases hp : mountPath buf with _ | path
    · rw [List.filterMap_cons_none hp]
      exact ih l
    · rw [List.filterMap_cons_some hp, List.map_cons, List.append_cons]
      refine (triple_createExport l path).bind fun x => triple_of_fact ?_
      rintro rfl
      refine (triple_setOpts l exportopts path _).bind fun x => triple_of_fact ?_
      rintro rfl
      exact (triple_listAppend l _).bind fun _ => ih _

theorem triple_getMounts (exportall : Bool) (exportopts procMounts : Option Bytes) :
    Triple (fun s => s.loose = 0) (getMounts exportall exportopts procMounts)
      (fun _ s => exportall = true ∧ ∃ text, procMounts = some text ∧
        Holds (((fgetsLines 1023 [] text).filterMap mountPath).map (mountExport exportopts)) 0 s)
      fun s => s.loose = 0 := by
  have hlist : Triple (fun s => exportall = true ∧ s.loose = 0)
      (allocOrStop >>= fun _ => .modify fun s => { s with list := some [] })
      (fun _ s => exportall = true ∧ Holds [] 0 s) fun s => s.loose = 0 := by
    have halloc : Triple (fun s => exportall = true ∧ s.loose = 0) allocOrStop
        (fun _ s => exportall = true ∧ s.loose = 0) fun s => s.loose = 0 := by
      have hb : Triple (fun s => exportall = true ∧ s.loose = 0) alloc
          (fun _ s => exportall = true ∧ s.loose = 0) fun s => s.loose = 0 := fun s hs => hs
      refine hb.bind fun b => ?_
      rcases b with _ | _
      · exact triple_stop fun s hs => hs.2
      · exact triple_pure fun s hs => hs
    exact halloc.bind fun _ => triple_modify fun s hs => ⟨hs.1, rfl, hs.2⟩
  have hall : Triple (fun s : Getmnt => s.loose = 0) (.when (exportall = false) .stop)
      (fun _ s => exportall = true ∧ s.loose = 0) fun s => s.loose = 0 :=
    triple_when (fun _ => triple_stop fun s hs => hs) fun h s hs =>
      ⟨(Bool.not_eq_false exportall).mp h, hs⟩
  refine hall.bind fun _ => ?_
  rw [← bind_assoc]
  refine hlist.bind fun _ => triple_of_fact fun hall => ?_
  rcases procMounts with _ | text
  · exact triple_stop fun s hs => hs.2
  · have hopen : Triple (Holds [] 0) (.modify fun s => { s with file := true })
        (fun _ => Holds [] 0) fun s => s.loose = 0 := triple_modify fun s hs => hs
    refine hopen.bind fun _ => (triple_mountLoop exportopts _ []).mono (fun s hs => hs)
      (fun _ s hs => ⟨hall, text, rfl, hs⟩) fun s hs => hs

/-- **The exports of all mounts are listed, or nothing is left**: the file is closed in any case,
no export is outside the list, and the list is the result. -/
theorem triple_diodConfGetMounts (exportall : Bool) (exportopts procMounts : Option Bytes) :
    Triple (fun s => s.loose = 0) (diodConfGetMounts exportall exportopts procMounts)
      (fun r s => (s.file = false ∧ s.loose = 0 ∧ s.list = r) ∧ ∀ l, r = some l →
        exportall = true ∧ ∃ text, procMounts = some text ∧
          l = ((fgetsLines 1023 [] text).filterMap mountPath).map (mountExport exportopts))
      fun _ => False := by
  refine (triple_getMounts exportall exportopts procMounts).attempt.bind fun r => ?_
  rcases r with _ | u
  · intro s hs
    refine ⟨⟨rfl, hs, rfl⟩, ?_⟩
    rintro l ⟨⟩
  · rintro s ⟨hall, text, ht, hl, hn⟩
    refine ⟨⟨rfl, hn, rfl⟩, ?_⟩
    intro l hr
    exact ⟨hall, text, ht, Option.some.inj (hr.symm.trans hl)⟩

/-! ### When nothing fails -/

/-- No allocation to come fails. -/
def Plenty (s : Getmnt) : Prop := ∀ b ∈ s.allocs, b = true

/-- A program that ends with a result if memory does not run out. -/
def Succeeds {α : Type} (x : Prog Getmnt α) : Prop :=
  ∀ s, Plenty s → ∃ a s', x s = (.ok a, s') ∧ Plenty s'

variable {α : Type}

theorem Succeeds.bind {β : Type} {x : Prog Getmnt α} {f : α → Prog Getmnt β}
    (hx : Succeeds x) (hf : ∀ a, Succeeds (f a)) : Succeeds (x >>= f) := by
  intro s hs
  obtain ⟨a, s₁, h₁, hs₁⟩ := hx s hs
  rw [bind_of_ok h₁]
  exact hf a s₁ hs₁

variable {exportopts : Option Bytes}

end Getmnt

/-- The exports that are matched against an attach are those listed. -/
theorem diodConfGetMounts_eq {exportall : Bool} {exportopts procMounts : Option Bytes}
    (ho : ∀ o ∈ exportopts, parseExpopt o ≠ none) {allocs : List Bool} {l : List Export}
    {s : Getmnt}
    (h : Getmnt.diodConfGetMounts exportall exportopts procMounts { allocs := allocs } =
      (.ok (some l), s)) : diodConfGetMounts exportall exportopts procMounts = some l := by
  have hpost := Getmnt.triple_diodConfGetMounts exportall exportopts procMounts
    { allocs := allocs } rfl
  rw [h] at hpost
  obtain ⟨rfl, text, rfl, rfl⟩ := hpost.2 l rfl
  have hflags : exportopts.elim (some 0) parseExpopt =
      some ((exportopts.elim (some 0) parseExpopt).getD 0) := by
    rcases exportopts with _ | o
    · rfl
    · obtain ⟨oflags, hp⟩ := Option.ne_none_iff_exists'.mp (ho o rfl)
      rw [Option.elim_some, hp, Option.getD_some]
  rw [diodConfGetMounts, if_pos rfl, hflags]
  rfl

end Diod
