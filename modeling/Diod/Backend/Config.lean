import Diod.Lib.Setting
import Diod.Backend.Access

/-!
# The configuration file

The settings of the server have a default, can be given in a configuration file, and can be given
on the command line. The file is a Lua program, and what counts of it are its global variables when
it has run (`Diod.Globals`). It is read at the start and again at every `SIGHUP`, and each time
every setting is put back to its default and then taken from the file
(`Diod.Config.diodConfInitConfigFile`). The bits of `ro_mask` keep what was given on the command
line: here they stand with the setting they are for (`Diod.Setting`).

An export has options of its own, or else those of `exportopts`, as they are **when the export is
read**. An entry of `exports` that is a plain string has none at all
(`Diod.readExport`).

Reading the file again is the same as reading it for the first time, as far as the file goes:
**of the files that were read before, nothing is left** (`Diod.Config.reread_of_reread`).

What is left out: memory does not run out (the server exits then), and the log.
-/

namespace Diod

/-! ### Lua values -/

/-- A value of a Lua variable. Of a table, only what is asked of it counts. -/
inductive LuaVal (T : Type) where
  | nil
  /-- A number: cast to an `int`, and as text. -/
  | number (i : ℤ) (s : Bytes)
  /-- A string, with the number that can be read from it. -/
  | string (s : Bytes) (i : Option ℤ)
  | table (t : T)
  /-- A boolean, a function or the like. -/
  | other

namespace LuaVal

variable {T : Type}

/-- `lua_isnumber` and `lua_tonumber` -/
def num : LuaVal T → Option ℤ
  | .number i _ => some i
  | .string _ i => i
  | _ => none

/-- `lua_isstring` and a copy of `lua_tostring` -/
def text : LuaVal T → Option Bytes
  | .number _ s => some (cstr s)
  | .string s _ => some (cstr s)
  | _ => none

end LuaVal

/-- What is looked for in a table of `exports`. -/
structure ExpTable where
  path : LuaVal Unit
  opts : LuaVal Unit := .nil
  users : LuaVal Unit := .nil
  hosts : LuaVal Unit := .nil

/-- The global variables that are looked for. -/
structure Globals where
  nwthreads : LuaVal Unit := .nil
  authRequired : LuaVal Unit := .nil
  hostnameLookup : LuaVal Unit := .nil
  statfsPassthru : LuaVal Unit := .nil
  userdb : LuaVal Unit := .nil
  allsquash : LuaVal Unit := .nil
  squashuser : LuaVal Unit := .nil
  listen : LuaVal (List (LuaVal Unit)) := .nil
  logdest : LuaVal Unit := .nil
  exportall : LuaVal Unit := .nil
  exportopts : LuaVal Unit := .nil
  exports : LuaVal (List (LuaVal ExpTable)) := .nil

/-! ### What the server exits with -/

/-- The name of a global variable. -/
inductive ConfKey where
  | nwthreads
  | authRequired
  | hostnameLookup
  | statfsPassthru
  | userdb
  | allsquash
  | squashuser
  | listen
  | logdest
  | exportall
  | exportopts
  | exports
deriving DecidableEq

/-- The name of a field of an export. -/
inductive ExpKey where
  | path
  | opts
  | users
  | hosts
deriving DecidableEq

/-- Why the server exits, with what the message says. A `path` is that of the configuration
file. -/
inductive Exit where
  /-- What Lua says of a file that it cannot open. -/
  | cannotOpen (path : Bytes)
  /-- What Lua says of a file that it cannot run. -/
  | lua (msg : Bytes)
  | shouldBeNumber (path : Bytes) (key : ConfKey)
  | shouldBeString (path : Bytes) (key : ConfKey)
  | shouldBeTable (path : Bytes) (key : ConfKey)
  | elemShouldBeString (path : Bytes) (key : ConfKey) (i : ℕ)
  | requiresString (path : Bytes) (i : ℕ) (key : ExpKey)
  | pathRequired (path : Bytes) (i : ℕ)
  | shouldBeStringOrTable (path : Bytes) (i : ℕ)
  | unknownExportOption (item : Bytes)
  | noExports
  | shouldBeginWithSlash
  | shouldNotContainDotDot
  | usage
  | version
  | runasUidArgument
  | runasUidAndAllsquash
  | rfdnoWfdno
  | withoutAuth
deriving DecidableEq

/-! ### Reading the variables -/

section Read

-- the path of the file, for the messages
variable (path : Bytes)

/-- `_lua_getglobal_int` -/
def luaGetglobalInt (key : ConfKey) (v : LuaVal Unit) : Except Exit (Option ℤ) :=
  match v with
  | .nil => .ok none
  | v =>
    match v.num with
    | some i => .ok (some i)
    | none => .error (.shouldBeNumber path key)

/-- `_lua_getglobal_string` -/
def luaGetglobalString (key : ConfKey) (v : LuaVal Unit) : Except Exit (Option Bytes) :=
  match v with
  | .nil => .ok none
  | v =>
    match v.text with
    | some s => .ok (some s)
    | none => .error (.shouldBeString path key)

/-- The elements of a table from 1 on, up to the first `nil`. -/
def luaElems {T α : Type} (elem : ℕ → LuaVal T → Except Exit α) :
    ℕ → List (LuaVal T) → Except Exit (List α)
  | _, [] => .ok []
  | _, .nil :: _ => .ok []
  | i, v :: l => do
    let a ← elem i v
    let as ← luaElems elem (i + 1) l
    pure (a :: as)

/-- A table of `elem`s. -/
def luaGetglobalTable {T α : Type} (key : ConfKey) (elem : ℕ → LuaVal T → Except Exit α)
    (v : LuaVal (List (LuaVal T))) : Except Exit (Option (List α)) :=
  match v with
  | .nil => .ok none
  | .table l => some <$> luaElems elem 1 l
  | _ => .error (.shouldBeTable path key)

/-- `_lua_getglobal_list_of_strings` -/
def luaGetglobalListOfStrings (key : ConfKey) :
    LuaVal (List (LuaVal Unit)) → Except Exit (Option (List Bytes)) :=
  luaGetglobalTable path key fun i v =>
    match v.text with
    | some s => .ok s
    | none => .error (.elemShouldBeString path key i)

/-- `_lua_get_expattr` -/
def luaGetExpattr (i : ℕ) (key : ExpKey) (v : LuaVal Unit) : Except Exit (Option Bytes) :=
  match v with
  | .nil => .ok none
  | v =>
    match v.text with
    | some s => .ok (some s)
    | none => .error (.requiresString path i key)

/-- The flags that options stand for. -/
def expFlags (opts : Option Bytes) : Option UInt32 := opts.elim (some 0) parseExpopt

/-- `_parse_expopt`, if there are options. -/
def parseOpts (opts : Option Bytes) : Except Exit UInt32 :=
  match expFlags opts with
  | some oflags => .ok oflags
  | none =>
    .error (.unknownExportOption
      ((((opts.getD []).splitOn 44).find? fun s => s ≠ [] && (parseItem s).isNone).getD []))

/-- An entry of `exports`: a string, or a table with a path and perhaps options. Only of a table,
`exportopts` are the default. -/
def readExport (exportopts : Option Bytes) (i : ℕ) : LuaVal ExpTable → Except Exit Export
  | .table t => do
    match ← luaGetExpattr path i .path t.path with
    | none => .error (.pathRequired path i)
    | some p => do
      let opts ← luaGetExpattr path i .opts t.opts
      let oflags ← parseOpts (opts.or exportopts)
      let users ← luaGetExpattr path i .users t.users
      let hosts ← luaGetExpattr path i .hosts t.hosts
      pure ⟨p, oflags, users, hosts⟩
  | v =>
    match v.text with
    | some p => pure ⟨p, 0, none, none⟩
    | none => .error (.shouldBeStringOrTable path i)

/-- `_lua_getglobal_exports` -/
def luaGetglobalExports (exportopts : Option Bytes) :
    LuaVal (List (LuaVal ExpTable)) → Except Exit (Option (List Export)) :=
  luaGetglobalTable path .exports (readExport path exportopts)

end Read

/-! ### What was read -/

section Read

variable {path : Bytes} {i : ℕ}

variable {v : LuaVal ExpTable} {s o o' : Option Bytes} {x : Export} {g : Globals} {xs : List Export}

theorem luaGetglobalString_eq_ok {key : ConfKey} {v : LuaVal Unit}
    (h : luaGetglobalString path key v = .ok s) : v.text = s := by
  cases v with
  | nil => exact Except.ok.inj h
  | number i t => exact Except.ok.inj h
  | string t i => exact Except.ok.inj h
  | table t => cases h
  | other => cases h

theorem luaGetExpattr_eq_ok {key : ExpKey} {v : LuaVal Unit}
    (h : luaGetExpattr path i key v = .ok s) : v.text = s := by
  cases v with
  | nil => exact Except.ok.inj h
  | number i t => exact Except.ok.inj h
  | string t i => exact Except.ok.inj h
  | table t => cases h
  | other => cases h

theorem parseOpts_eq_ok {opts : Option Bytes} {oflags : UInt32} :
    parseOpts opts = .ok oflags ↔ expFlags opts = some oflags := by
  rw [parseOpts]
  rcases expFlags opts with _ | f
  · constructor <;> rintro ⟨⟩
  · exact ⟨fun h => congrArg some (Except.ok.inj h), fun h => congrArg _ (Option.some.inj h)⟩

namespace LuaVal

/-- The path of an entry of `exports`. -/
def expPath : LuaVal ExpTable → Option Bytes
  | .table t => t.path.text
  | v => v.text

/-- A field that an entry carries. -/
def field (f : ExpTable → LuaVal Unit) : LuaVal ExpTable → Option Bytes
  | .table t => (f t).text
  | _ => none

/-- The options that an entry is exported with, if the default is `exportopts`. -/
def optsWith (exportopts : Option Bytes) : LuaVal ExpTable → Option Bytes
  | .table t => t.opts.text.or exportopts
  | _ => none

end LuaVal

/-- The default matters to tables without options. -/
theorem expFlags_optsWith_iff {l : List (LuaVal ExpTable)} :
    (∀ v ∈ l, expFlags (v.optsWith o) = expFlags (v.optsWith o')) ↔
      ∀ t, LuaVal.table t ∈ l → t.opts.text = none → expFlags o = expFlags o' := by
  constructor
  · intro h t ht hopts
    have := h _ ht
    rw [LuaVal.optsWith, LuaVal.optsWith, hopts] at this
    exact this
  · intro h v hv
    cases v with
    | table t =>
      rw [LuaVal.optsWith, LuaVal.optsWith]
      rcases hopts : t.opts.text with _ | s
      · exact h t hv hopts
      · rfl
    | _ => rfl

/-- **An entry is exported with its own options, or the default if it is a table.** -/
theorem readExport_eq_ok {exportopts : Option Bytes} (h : readExport path exportopts i v = .ok x) :
    v.expPath = some x.path ∧ expFlags (v.optsWith exportopts) = some x.oflags ∧
      v.field ExpTable.users = x.users ∧ v.field ExpTable.hosts = x.hosts := by
  cases v with
  | nil => cases h
  | number j t =>
    cases h
    exact ⟨rfl, rfl, rfl, rfl⟩
  | string t j =>
    cases h
    exact ⟨rfl, rfl, rfl, rfl⟩
  | table t =>
    obtain ⟨p, hp, h⟩ := except_bind_eq_ok.mp h
    have hp := luaGetExpattr_eq_ok hp
    rcases p with _ | p
    · cases h
    · obtain ⟨opts, ho, h⟩ := except_bind_eq_ok.mp h
      obtain ⟨oflags, hf, h⟩ := except_bind_eq_ok.mp h
      obtain ⟨_, hu, h⟩ := except_bind_eq_ok.mp h
      obtain ⟨_, hh, h⟩ := except_bind_eq_ok.mp h
      cases h
      rw [← luaGetExpattr_eq_ok ho] at hf
      exact ⟨hp, parseOpts_eq_ok.mp hf, luaGetExpattr_eq_ok hu, luaGetExpattr_eq_ok hh⟩
  | other => cases h

/-- What is read with two defaults differs at most in the flags. -/
theorem readExport_eq_iff {j : ℕ} {x' : Export}
    (h : readExport path o i v = .ok x) (h' : readExport path o' j v = .ok x') :
    x = x' ↔ expFlags (v.optsWith o) = expFlags (v.optsWith o') := by
  obtain ⟨hp, hf, hu, hh⟩ := readExport_eq_ok h
  obtain ⟨hp', hf', hu', hh'⟩ := readExport_eq_ok h'
  constructor
  · rintro rfl
    rw [hf, hf']
  · intro heq
    have hpath : x.path = x'.path := Option.some.inj (hp.symm.trans hp')
    have hflags : x.oflags = x'.oflags := Option.some.inj (hf.symm.trans (heq.trans hf'))
    obtain ⟨p, f, u, h⟩ := x
    obtain ⟨p', f', u', h'⟩ := x'
    cases hpath
    cases hflags
    cases hu
    cases hu'
    cases hh
    cases hh'
    rfl

/-- The elements that are read: those before the first `nil`. -/
def luaPrefix {T : Type} : List (LuaVal T) → List (LuaVal T)
  | [] => []
  | .nil :: _ => []
  | v :: l => v :: luaPrefix l

theorem luaElems_eq_ok {T α : Type} {elem : ℕ → LuaVal T → Except Exit α} {l : List (LuaVal T)}
    {as : List α} (h : luaElems elem i l = .ok as) :
    List.Forall₂ (fun v a => ∃ i, elem i v = .ok a) (luaPrefix l) as := by
  induction l generalizing i as with
  | nil =>
    cases h
    exact .nil
  | cons v l ih =>
    by_cases hv : v = .nil
    · subst hv
      cases h
      exact .nil
    · have helems : luaElems elem i (v :: l) =
          elem i v >>= fun a => luaElems elem (i + 1) l >>= fun as => pure (a :: as) := by
        cases v with
        | nil => exact absurd rfl hv
        | _ => rfl
      have hpre : luaPrefix (v :: l) = v :: luaPrefix l := by
        cases v with
        | nil => exact absurd rfl hv
        | _ => rfl
      rw [helems] at h
      obtain ⟨a, ha, h⟩ := except_bind_eq_ok.mp h
      obtain ⟨as', has, h⟩ := except_bind_eq_ok.mp h
      cases h
      rw [hpre]
      exact .cons ⟨i, ha⟩ (ih has)

/-- The entries of `exports`. -/
def Globals.entries (g : Globals) : List (LuaVal ExpTable) :=
  match g.exports with
  | .table l => luaPrefix l
  | _ => []

theorem luaGetglobalExports_eq_ok
    (h : (luaGetglobalExports path o g.exports).map (·.getD []) = .ok xs) :
    List.Forall₂ (fun v x => ∃ i, readExport path o i v = .ok x) g.entries xs := by
  obtain ⟨as, hr, rfl⟩ := except_map_eq_ok.mp h
  rw [Globals.entries]
  generalize g.exports = v at hr
  cases v with
  | nil =>
    cases hr
    exact .nil
  | number _ _ => cases hr
  | string _ _ => cases hr
  | table l =>
    obtain ⟨xs, hxs, rfl⟩ := except_map_eq_ok.mp hr
    exact luaElems_eq_ok hxs
  | other => cases hr

/-- **The exports that are read with two defaults are the same, exactly if the entries that have no
options of their own get the same flags.** -/
theorem luaGetglobalExports_eq_iff {xs' : List Export}
    (h : (luaGetglobalExports path o g.exports).map (·.getD []) = .ok xs)
    (h' : (luaGetglobalExports path o' g.exports).map (·.getD []) = .ok xs') :
    xs = xs' ↔ ∀ v ∈ g.entries, expFlags (v.optsWith o) = expFlags (v.optsWith o') := by
  have hl := luaGetglobalExports_eq_ok h
  have hl' := luaGetglobalExports_eq_ok h'
  generalize g.entries = l at hl hl'
  clear h h'
  induction hl generalizing xs' with
  | nil =>
    cases hl'
    exact ⟨fun _ _ h => (List.not_mem_nil h).elim, fun _ => rfl⟩
  | @cons v x l xs hx _ ih =>
    obtain _ | ⟨hx', hl'⟩ := hl'
    obtain ⟨i, hx⟩ := hx
    obtain ⟨j, hx'⟩ := hx'
    rw [List.forall_mem_cons]
    exact List.cons_eq_cons.trans (and_congr (readExport_eq_iff hx hx') (ih hl'))

end Read

/-! ### The settings -/

def DFLT_SQUASHUSER : Bytes := [110, 111, 98, 111, 100, 121]

def DFLT_LISTEN : Bytes := [48, 46, 48, 46, 48, 46, 48, 58, 53, 54, 52]

def DFLT_LOGDEST : Bytes := [115, 116, 100, 101, 114, 114]

/-- `Conf`, each with its bit of `ro_mask`. -/
@[ext]
structure Config where
  debuglevel : Setting ℤ := ⟨0, false⟩
  nwthreads : Setting ℤ := ⟨16, false⟩
  authRequired : Setting ℤ := ⟨1, false⟩
  hostnameLookup : Setting ℤ := ⟨1, false⟩
  statfsPassthru : Setting ℤ := ⟨0, false⟩
  userdb : Setting ℤ := ⟨1, false⟩
  allsquash : Setting ℤ := ⟨0, false⟩
  squashuser : Setting Bytes := ⟨DFLT_SQUASHUSER, false⟩
  runasuid : Setting UInt32 := ⟨0, false⟩
  listen : Setting (List Bytes) := ⟨[DFLT_LISTEN], false⟩
  exportall : Setting ℤ := ⟨0, false⟩
  exportopts : Setting (Option Bytes) := ⟨none, false⟩
  exports : Setting (List Export) := ⟨[], false⟩
  configpath : Setting Bytes
  logdest : Setting Bytes := ⟨DFLT_LOGDEST, false⟩

namespace Config

/-- `diod_conf_init`, given where the configuration file is if nothing else is said. -/
def diodConfInit (configpath : Bytes) : Config := { configpath := ⟨configpath, false⟩ }

/-- `diod_conf_clr_listen` -/
def diodConfClrListen (c : Config) : Config := { c with listen := .set [] }

/-- `diod_conf_add_listen` -/
def diodConfAddListen (s : Bytes) (c : Config) : Config :=
  { c with listen := .set (c.listen.val ++ [s]) }

/-- `diod_conf_clr_exports` -/
def diodConfClrExports (c : Config) : Config := { c with exports := .set [] }

/-- `diod_conf_add_exports`: the options are those of the moment. -/
def diodConfAddExports (path : Bytes) (c : Config) : Except Exit Config := do
  let oflags ← parseOpts c.exportopts.val
  pure { c with exports := .set (c.exports.val ++ [⟨path, oflags, none, none⟩]) }

/-- The loop of `diod_conf_validate_exports`. -/
def validateExports : List Export → Except Exit Unit
  | [] => .ok ()
  | x :: l =>
    if x.path.head? ≠ some 47 ∧ x.path ≠ ctlName then .error .shouldBeginWithSlash
    else if hasDotDot x.path then .error .shouldNotContainDotDot
    else validateExports l

/-- `diod_conf_validate_exports` -/
def diodConfValidateExports (c : Config) : Except Exit Unit :=
  if c.exportall.val = 0 ∧ c.exports.val = [] then .error .noExports
  else validateExports c.exports.val

/-- What a file says of the settings, with the defaults of those it does not mention, or the error
that the server exits with if it looks at them. -/
structure Reading where
  nwthreads : Except Exit ℤ
  authRequired : Except Exit ℤ
  hostnameLookup : Except Exit ℤ
  statfsPassthru : Except Exit ℤ
  userdb : Except Exit ℤ
  allsquash : Except Exit ℤ
  squashuser : Except Exit Bytes
  listen : Except Exit (List Bytes)
  logdest : Except Exit Bytes
  exportall : Except Exit ℤ
  exportopts : Except Exit (Option Bytes)
  exports : Option Bytes → Except Exit (List Export)

/-- The defaults, and what the file has instead. -/
def reading (path : Bytes) (g : Globals) : Reading where
  nwthreads := (luaGetglobalInt path .nwthreads g.nwthreads).map (·.getD 16)
  authRequired := (luaGetglobalInt path .authRequired g.authRequired).map (·.getD 1)
  hostnameLookup := (luaGetglobalInt path .hostnameLookup g.hostnameLookup).map (·.getD 1)
  statfsPassthru := (luaGetglobalInt path .statfsPassthru g.statfsPassthru).map (·.getD 0)
  userdb := (luaGetglobalInt path .userdb g.userdb).map (·.getD 1)
  allsquash := (luaGetglobalInt path .allsquash g.allsquash).map (·.getD 0)
  squashuser := (luaGetglobalString path .squashuser g.squashuser).map (·.getD DFLT_SQUASHUSER)
  listen := (luaGetglobalListOfStrings path .listen g.listen).map (·.getD [DFLT_LISTEN])
  logdest := (luaGetglobalString path .logdest g.logdest).map (·.getD DFLT_LOGDEST)
  exportall := (luaGetglobalInt path .exportall g.exportall).map (·.getD 0)
  exportopts := luaGetglobalString path .exportopts g.exportopts
  exports exportopts := (luaGetglobalExports path exportopts g.exports).map (·.getD [])

/-- The settings of a file that has run: each is put back to its default and read, unless it is
protected. -/
def reread (r : Reading) (c : Config) : Except Exit Config := do
  let nwthreads ← c.nwthreads.reread r.nwthreads
  let authRequired ← c.authRequired.reread r.authRequired
  let hostnameLookup ← c.hostnameLookup.reread r.hostnameLookup
  let statfsPassthru ← c.statfsPassthru.reread r.statfsPassthru
  let userdb ← c.userdb.reread r.userdb
  let allsquash ← c.allsquash.reread r.allsquash
  let squashuser ← c.squashuser.reread r.squashuser
  let listen ← c.listen.reread r.listen
  let logdest ← c.logdest.reread r.logdest
  let exportall ← c.exportall.reread r.exportall
  let exportopts ← c.exportopts.reread r.exportopts
  -- the options that the exports are read with are those that have just been read
  let exports ← c.exports.reread (r.exports exportopts.val)
  pure { c with
    nwthreads, authRequired, hostnameLookup, statfsPassthru, userdb, allsquash, squashuser,
    listen, logdest, exportall, exportopts, exports }

/-- `diod_conf_init_config_file`. A file that cannot be read is none, and the variables of one that
can be are there if Lua could run it. -/
def diodConfInitConfigFile (files : Bytes → Option (Except Bytes Globals)) (path : Option Bytes)
    (c : Config) : Except Exit Config :=
  match path with
  | some path =>
    match files path with
    | none => .error (.cannotOpen path)
    | some (.error msg) => .error (.lua msg)
    | some (.ok g) => reread (reading path g) { c with configpath := .set path }
  | none =>
    -- a missing default file is not fatal
    match files c.configpath.val with
    | none => .ok c
    | some (.error msg) => .error (.lua msg)
    | some (.ok g) => reread (reading c.configpath.val g) c

/-! ### Reading again -/

/-- **What becomes of the settings when a file is read.** -/
structure Rereads (r : Reading) (c c' : Config) : Prop where
  debuglevel : c.debuglevel = c'.debuglevel
  nwthreads : c.nwthreads.reread r.nwthreads = .ok c'.nwthreads
  authRequired : c.authRequired.reread r.authRequired = .ok c'.authRequired
  hostnameLookup : c.hostnameLookup.reread r.hostnameLookup = .ok c'.hostnameLookup
  statfsPassthru : c.statfsPassthru.reread r.statfsPassthru = .ok c'.statfsPassthru
  userdb : c.userdb.reread r.userdb = .ok c'.userdb
  allsquash : c.allsquash.reread r.allsquash = .ok c'.allsquash
  squashuser : c.squashuser.reread r.squashuser = .ok c'.squashuser
  runasuid : c.runasuid = c'.runasuid
  listen : c.listen.reread r.listen = .ok c'.listen
  exportall : c.exportall.reread r.exportall = .ok c'.exportall
  exportopts : c.exportopts.reread r.exportopts = .ok c'.exportopts
  exports : c.exports.reread (r.exports c'.exportopts.val) = .ok c'.exports
  configpath : c.configpath = c'.configpath
  logdest : c.logdest.reread r.logdest = .ok c'.logdest

variable {r : Reading} {c c' : Config}

theorem reread_eq_ok : reread r c = .ok c' ↔ Rereads r c c' := by
  constructor
  · intro h
    obtain ⟨_, h₁, h⟩ := except_bind_eq_ok.mp h
    obtain ⟨_, h₂, h⟩ := except_bind_eq_ok.mp h
    obtain ⟨_, h₃, h⟩ := except_bind_eq_ok.mp h
    obtain ⟨_, h₄, h⟩ := except_bind_eq_ok.mp h
    obtain ⟨_, h₅, h⟩ := except_bind_eq_ok.mp h
    obtain ⟨_, h₆, h⟩ := except_bind_eq_ok.mp h
    obtain ⟨_, h₇, h⟩ := except_bind_eq_ok.mp h
    obtain ⟨_, h₈, h⟩ := except_bind_eq_ok.mp h
    obtain ⟨_, h₉, h⟩ := except_bind_eq_ok.mp h
    obtain ⟨_, h₁₀, h⟩ := except_bind_eq_ok.mp h
    obtain ⟨_, h₁₁, h⟩ := except_bind_eq_ok.mp h
    obtain ⟨_, h₁₂, h⟩ := except_bind_eq_ok.mp h
    cases h
    exact ⟨rfl, h₁, h₂, h₃, h₄, h₅, h₆, h₇, rfl, h₈, h₁₀, h₁₁, h₁₂, rfl, h₉⟩
  · intro h
    rw [reread, h.nwthreads, h.authRequired, h.hostnameLookup, h.statfsPassthru, h.userdb,
      h.allsquash, h.squashuser, h.listen, h.logdest, h.exportall, h.exportopts]
    change (c.exports.reread (r.exports c'.exportopts.val) >>= _) = _
    rw [h.exports]
    obtain ⟨_⟩ := c'
    simp only [h.debuglevel, h.runasuid, h.configpath]
    rfl

/-- **The file that counts has been read, or there is none.** -/
theorem diodConfInitConfigFile_cases {files : Bytes → Option (Except Bytes Globals)}
    {copt : Option Bytes} (h : c.diodConfInitConfigFile files copt = .ok c') :
    (∃ g, files (copt.getD c.configpath.val) = some (.ok g) ∧
      reread (reading (copt.getD c.configpath.val) g)
        { c with configpath := copt.elim c.configpath .set } = .ok c') ∨
    (copt = none ∧ files c.configpath.val = none ∧ c' = c) := by
  rcases copt with _ | path
  · rw [diodConfInitConfigFile] at h
    rw [Option.getD_none]
    rcases hf : files c.configpath.val with _ | e | g
    · rw [hf] at h
      cases h
      exact .inr ⟨rfl, rfl, rfl⟩
    · rw [hf] at h
      cases h
    · rw [hf] at h
      exact .inl ⟨g, rfl, h⟩
  · rw [diodConfInitConfigFile] at h
    rw [Option.getD_some]
    rcases hf : files path with _ | e | g
    · rw [hf] at h
      cases h
    · rw [hf] at h
      cases h
    · rw [hf] at h
      exact .inl ⟨g, rfl, h⟩

/-- **Of the files that were read before, nothing is left.** -/
theorem reread_of_reread {q : Reading} (h : reread q c = .ok c') (r : Reading) :
    reread r c' = reread r c := by
  have h := reread_eq_ok.mp h
  have hexp : ∀ o, c'.exports.reread (r.exports o) = c.exports.reread (r.exports o) :=
    fun o => Setting.reread_of_reread h.exports _
  simp only [reread, Setting.reread_of_reread h.nwthreads,
    Setting.reread_of_reread h.authRequired, Setting.reread_of_reread h.hostnameLookup,
    Setting.reread_of_reread h.statfsPassthru, Setting.reread_of_reread h.userdb,
    Setting.reread_of_reread h.allsquash, Setting.reread_of_reread h.squashuser,
    Setting.reread_of_reread h.listen, Setting.reread_of_reread h.logdest,
    Setting.reread_of_reread h.exportall, Setting.reread_of_reread h.exportopts, hexp,
    h.debuglevel, h.runasuid, h.configpath]

end Config

end Diod
