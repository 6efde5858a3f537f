import Diod.Backend.Config

/-!
# Starting the server

The command line is gone through twice: first for the configuration file, which is then read, and
then for everything else (`Diod.main`). What is given on the command line is protected from the
file from then on. Last, a server that is not root settles who it runs as, and protects that too.
At every `SIGHUP` the file is read again (`Diod.Started.reload`).

## The options of the exports

An export that has no options of its own should have those of `exportopts`. But the options are
looked up when the export is read, and `exportopts` changes in between: an export of the command
line has what an earlier `-o` or the file says, one of the file has what the file says, and a plain
string has nothing. **Which exports are right is told by where they are given**
(`Diod.exportopts_flags_iff`).

## Start and reload

Of all the files that were read, only the first and the last one matter
(`Diod.reload_foldlM`). To compare this with a start that reads the last file only, the two starts
are taken side by side (`Diod.Config.Tracks`): what the command line sets is the same in both, and
the rest is read anew. What is left are the settings that are **derived from the first file and then
protected**, and the exports, whose options are looked up too early at a start
(`Diod.reload_eq_start_iff`).
-/

namespace Diod

/-! ### The command line -/

/-- An option as `getopt_long` returns it. A number is what `strtoul` makes of the argument. -/
inductive Opt where
  | foreground
  | rfdno (n : ℤ)
  | wfdno (n : ℤ)
  | debug (mask : ℤ)
  | listen (addr : Bytes)
  | nwthreads (n : ℤ)
  | configFile (path : Bytes)
  | exportPath (path : Bytes)
  | exportAll
  | exportOpts (opts : Bytes)
  | noAuth
  | noHostnameLookup
  | statfsPassthru
  | noUserdb
  | allsquash
  | squashuser (user : Bytes)
  /-- Nothing, if the argument is not a number. -/
  | runasUid (uid : Option UInt32)
  | socktest
  | logdest (dest : Bytes)
  | version
  | unknown

/-- `srvmode_t` -/
inductive SrvMode where
  | normal
  | filedes
  | socktest
deriving DecidableEq

/-- The variables of `main`, and the configuration. -/
structure Started where
  config : Config
  mode : SrvMode := .normal
  rfdno : ℤ := -1
  wfdno : ℤ := -1

/-- What the server finds where it is started. -/
structure Site where
  /-- `DFLT_CONFIGPATH` -/
  configpath : Bytes
  /-- Whether the server was built with `AUTH`. -/
  auth : Bool
  /-- `geteuid`, `getuid` and `_geteuser` -/
  euid : UInt32
  uid : UInt32
  euser : Bytes

/-- The files, with their variables if Lua can run them. -/
abbrev Files := Bytes → Option (Except Bytes Globals)

/-- Is this `HOST:PORT`, `[HOST]:PORT` or a path? -/
def listenOk (addr : Bytes) : Bool :=
  (addr.contains 58 || addr.head? == some 47) &&
    (addr.head? != some 91 || (addr.dropWhile (· ≠ 93)).contains 58)

/-- The first loop of `main`: the last `-c` counts. -/
def findConfigFile : List Opt → Option Bytes → Except Exit (Option Bytes)
  | [], copt => .ok copt
  | .configFile path :: opts, _ => findConfigFile opts (some path)
  | .version :: _, _ => .error .version
  | _ :: opts, copt => findConfigFile opts copt

/-- The second loop of `main`. -/
def Opt.apply (m : Started) : Opt → Except Exit Started
  | .foreground => .ok m
  | .rfdno n => .ok { m with mode := .filedes, rfdno := n }
  | .wfdno n => .ok { m with mode := .filedes, wfdno := n }
  | .debug mask => .ok { m with config.debuglevel := .set (mask % 65536) }
  | .listen addr =>
    let c := if m.config.listen.ro then m.config else m.config.diodConfClrListen
    if listenOk addr then .ok { m with config := c.diodConfAddListen addr } else .error .usage
  | .nwthreads n => .ok { m with config.nwthreads := .set n }
  | .configFile _ => .ok m
  | .exportPath path => do
    let c := if m.config.exports.ro then m.config else m.config.diodConfClrExports
    let c ← c.diodConfAddExports path
    pure { m with config := c }
  | .exportAll => .ok { m with config.exportall := .set 1 }
  | .exportOpts opts => .ok { m with config.exportopts := .set (some opts) }
  | .noAuth => .ok { m with config.authRequired := .set 0 }
  | .noHostnameLookup => .ok { m with config.hostnameLookup := .set 0 }
  | .statfsPassthru => .ok { m with config.statfsPassthru := .set 0 }
  | .noUserdb => .ok { m with config.userdb := .set 0 }
  | .allsquash => .ok { m with config.allsquash := .set 1 }
  | .squashuser user => .ok { m with config.squashuser := .set user }
  | .runasUid none => .error .runasUidArgument
  | .runasUid (some uid) => .ok { m with config.runasuid := .set uid }
  | .socktest => .ok { m with mode := .socktest }
  | .logdest dest => .ok { m with config.logdest := .set dest }
  | .version => .error .usage
  | .unknown => .error .usage

/-- The checks of `main`, given whether there are arguments that are no options. -/
def Started.check (site : Site) (operands : Bool) (m : Started) : Except Exit Unit := do
  if operands then .error .usage
  if m.config.runasuid.ro ∧ m.config.allsquash.val ≠ 0 then .error .runasUidAndAllsquash
  if m.mode = .filedes ∧ (m.rfdno = -1 ∨ m.wfdno = -1) then .error .rfdnoWfdno
  if ¬site.auth ∧ m.config.authRequired.val ≠ 0 then .error .withoutAuth
  m.config.diodConfValidateExports

/-- What `_service_run` sets: who the server runs as, if it is not root. -/
def Config.serviceRun (site : Site) (c : Config) : Config :=
  if c.allsquash.val ≠ 0 then
    if site.euid ≠ 0 ∧ c.squashuser.val = DFLT_SQUASHUSER then
      { c with squashuser := .set site.euser }
    else c
  else if c.runasuid.ro ∨ site.euid ≠ 0 then
    if site.uid ≠ 0 ∧ ¬c.runasuid.ro then { c with runasuid := .set site.euid } else c
  else c

/-- `main`, up to the loop that waits for signals and connections. -/
def main (site : Site) (opts : List Opt) (operands : Bool) (files : Files) :
    Except Exit Started := do
  let copt ← findConfigFile opts none
  let c ← (Config.diodConfInit site.configpath).diodConfInitConfigFile files copt
  let m ← opts.foldlM Opt.apply { config := c }
  m.check site operands
  pure { m with config := m.config.serviceRun site }

/-- `SIGHUP`, in `_service_loop`. -/
def Started.reload (m : Started) (files : Files) : Except Exit Started := do
  let c ← m.config.diodConfInitConfigFile files none
  pure { m with config := c }

/-- The server from its start, with the files as they are then, through one `SIGHUP` for every other
state of the files. -/
def serviceLoop (site : Site) (opts : List Opt) (operands : Bool) (files : Files)
    (later : List Files) : Except Exit Started := do
  let m ← main site opts operands files
  later.foldlM Started.reload m

/-! ### The parts of a start -/

/-- Where the configuration file is. -/
def configPath (site : Site) (opts : List Opt) : Bytes :=
  (findConfigFile opts none).toOption.join.getD site.configpath

/-- The variables of a file, none if it is not there. -/
def Files.globals (files : Files) (path : Bytes) : Globals :=
  match files path with
  | some (.ok g) => g
  | _ => {}

/-- The settings before the file is read. -/
def Config.initWith (site : Site) (opts : List Opt) : Config :=
  { Config.diodConfInit site.configpath with
    configpath := (findConfigFile opts none).toOption.join.elim ⟨site.configpath, false⟩ .set }

variable {site : Site} {opts : List Opt} {operands : Bool} {files : Files} {m m' : Started}

/-- Reading a file that says nothing. -/
theorem reread_initWith (path : Bytes) :
    Config.reread (Config.reading path {}) (.initWith site opts) = .ok (.initWith site opts) := rfl

/-- **A start reads the file, goes through the options and settles who it runs as.** -/
theorem main_eq_ok (h : main site opts operands files = .ok m) :
    ∃ c m₁, Config.reread (Config.reading (configPath site opts)
        (files.globals (configPath site opts))) (.initWith site opts) = .ok c ∧
      opts.foldlM Opt.apply { config := c } = .ok m₁ ∧
      m = { m₁ with config := m₁.config.serviceRun site } := by
  obtain ⟨copt, hcopt, h⟩ := except_bind_eq_ok.mp h
  obtain ⟨c, hc, h⟩ := except_bind_eq_ok.mp h
  obtain ⟨m₁, hm₁, h⟩ := except_bind_eq_ok.mp h
  obtain ⟨_, -, h⟩ := except_bind_eq_ok.mp h
  cases h
  refine ⟨c, m₁, ?_, hm₁, rfl⟩
  have hpath : configPath site opts = copt.getD site.configpath := by
    rw [configPath, hcopt]
    rfl
  have hinit : Config.initWith site opts = { Config.diodConfInit site.configpath with
      configpath := copt.elim ⟨site.configpath, false⟩ .set } := by
    rw [Config.initWith, hcopt]
    rfl
  rw [hpath, Files.globals]
  obtain ⟨g, hg, hread⟩ | ⟨rfl, hnone, rfl⟩ := Config.diodConfInitConfigFile_cases hc
  · change files (copt.getD site.configpath) = _ at hg
    rw [hg, hinit]
    exact hread
  · change files site.configpath = _ at hnone
    rw [Option.getD_none, hnone, reread_initWith, hinit]
    rfl

theorem apply_listen {addr : Bytes} (h : (Opt.listen addr).apply m = .ok m') :
    m' = { m with config.listen := .set (m.config.listen.kept ++ [addr]) } := by
  simp only [Opt.apply] at h
  rcases hl : listenOk addr with _ | _
  · rw [hl] at h
    cases h
  · rw [hl] at h
    cases h
    rw [Setting.kept]
    rcases m.config.listen.ro with _ | _ <;> rfl

/-- **An export of the command line has the options of the moment.** -/
theorem apply_exportPath {path : Bytes} (h : (Opt.exportPath path).apply m = .ok m') :
    ∃ oflags, expFlags m.config.exportopts.val = some oflags ∧
      m' = { m with
        config.exports := .set (m.config.exports.kept ++ [⟨path, oflags, none, none⟩]) } := by
  obtain ⟨c, hc, h⟩ := except_bind_eq_ok.mp h
  obtain ⟨oflags, hf, hc⟩ := except_bind_eq_ok.mp hc
  cases h
  cases hc
  refine ⟨oflags, ?_, ?_⟩
  · rw [← parseOpts_eq_ok, ← hf]
    rcases m.config.exports.ro with _ | _ <;> rfl
  · rw [Setting.kept]
    rcases m.config.exports.ro with _ | _ <;> rfl

variable {a : Opt} {r : Config.Reading} {o o' : Option Bytes} {c : Config} {g : Globals}
  {last : Files} {d : Started}

/-- No option says where the file is, the first loop has settled that. -/
theorem apply_configpath (h : a.apply m = .ok m') : m'.config.configpath = m.config.configpath := by
  cases a with
  | listen addr => rw [apply_listen h]
  | exportPath path =>
    obtain ⟨_, -, rfl⟩ := apply_exportPath h
    rfl
  | runasUid uid =>
    rcases uid with _ | uid
    · cases h
    · cases h
      rfl
  | version => cases h
  | unknown => cases h
  | _ =>
    cases h
    rfl

theorem configpath_foldlM (h : opts.foldlM Opt.apply m = .ok m') :
    m'.config.configpath = m.config.configpath := by
  induction opts generalizing m with
  | nil =>
    cases h
    rfl
  | cons a opts ih =>
    obtain ⟨m₁, ha, h⟩ := except_bind_eq_ok.mp h
    rw [ih h, apply_configpath ha]

/-! ### Two starts side by side -/

/-- **Two configurations that come from two files and one command line**: they agree in what the
command line has set, and the second has the rest from its file. Of the exports, this says
nothing. -/
structure Config.Tracks (r : Config.Reading) (c d : Config) : Prop where
  debuglevel : c.debuglevel = d.debuglevel
  nwthreads : Setting.Tracks r.nwthreads c.nwthreads d.nwthreads
  authRequired : Setting.Tracks r.authRequired c.authRequired d.authRequired
  hostnameLookup : Setting.Tracks r.hostnameLookup c.hostnameLookup d.hostnameLookup
  statfsPassthru : Setting.Tracks r.statfsPassthru c.statfsPassthru d.statfsPassthru
  userdb : Setting.Tracks r.userdb c.userdb d.userdb
  allsquash : Setting.Tracks r.allsquash c.allsquash d.allsquash
  squashuser : Setting.Tracks r.squashuser c.squashuser d.squashuser
  runasuid : c.runasuid = d.runasuid
  listen : Setting.Tracks r.listen c.listen d.listen
  exportall : Setting.Tracks r.exportall c.exportall d.exportall
  exportopts : Setting.Tracks r.exportopts c.exportopts d.exportopts
  configpath : c.configpath = d.configpath
  logdest : Setting.Tracks r.logdest c.logdest d.logdest

/-- An option sets both alike. -/
theorem Config.Tracks.apply {b c b' c' : Started}
    (h : Config.Tracks r b.config c.config) (hb : a.apply b = .ok b')
    (hc : a.apply c = .ok c') : Config.Tracks r b'.config c'.config := by
  cases a with
  | foreground => cases hb; cases hc; exact h
  | rfdno n => cases hb; cases hc; exact h
  | wfdno n => cases hb; cases hc; exact h
  | debug mask => cases hb; cases hc; exact { h with debuglevel := rfl }
  | listen addr =>
    rw [apply_listen hb, apply_listen hc, h.listen.kept]
    exact { h with listen := .set _ _ }
  | nwthreads n => cases hb; cases hc; exact { h with nwthreads := .set _ n }
  | configFile path => cases hb; cases hc; exact h
  | exportPath path =>
    obtain ⟨_, -, rfl⟩ := apply_exportPath hb
    obtain ⟨_, -, rfl⟩ := apply_exportPath hc
    exact { h with }
  | exportAll => cases hb; cases hc; exact { h with exportall := .set _ 1 }
  | exportOpts opts => cases hb; cases hc; exact { h with exportopts := .set _ (some opts) }
  | noAuth => cases hb; cases hc; exact { h with authRequired := .set _ 0 }
  | noHostnameLookup => cases hb; cases hc; exact { h with hostnameLookup := .set _ 0 }
  | statfsPassthru => cases hb; cases hc; exact { h with statfsPassthru := .set _ 0 }
  | noUserdb => cases hb; cases hc; exact { h with userdb := .set _ 0 }
  | allsquash => cases hb; cases hc; exact { h with allsquash := .set _ 1 }
  | squashuser user => cases hb; cases hc; exact { h with squashuser := .set _ user }
  | runasUid uid =>
    rcases uid with _ | uid
    · cases hb
    · cases hb; cases hc; exact { h with runasuid := rfl }
  | socktest => cases hb; cases hc; exact h
  | logdest dest => cases hb; cases hc; exact { h with logdest := .set _ dest }
  | version => cases hb
  | unknown => cases hb

/-! ### The exports of the command line -/

/-- The `-e` options, each with the `exportopts` of its moment. -/
def givenExports : Option Bytes → List Opt → List (Bytes × Option Bytes)
  | _, [] => []
  | o, .exportPath path :: opts => (path, o) :: givenExports o opts
  | _, .exportOpts s :: opts => givenExports (some s) opts
  | o, _ :: opts => givenExports o opts

/-- The last `-o` option. -/
def lastExportOpts : List Opt → Option Bytes
  | [] => none
  | .exportOpts s :: opts => (lastExportOpts opts).or (some s)
  | _ :: opts => lastExportOpts opts

/-- Whether there is a `-e` option without a `-o` option before it. -/
def earlyExport : List Opt → Bool
  | [] => false
  | .exportPath _ :: _ => true
  | .exportOpts _ :: _ => false
  | _ :: opts => earlyExport opts

/-- The export of a `-e` option. -/
def givenExport (e : Bytes × Option Bytes) : Export := ⟨e.1, (expFlags e.2).getD 0, none, none⟩

/-- An option that is neither `-e` nor `-o`. -/
structure Opt.Neutral (a : Opt) : Prop where
  given : ∀ o opts, givenExports o (a :: opts) = givenExports o opts
  last : ∀ opts, lastExportOpts (a :: opts) = lastExportOpts opts
  early : ∀ opts, earlyExport (a :: opts) = earlyExport opts

theorem Opt.neutral_cases (a : Opt) :
    (∃ path, a = .exportPath path) ∨ (∃ s, a = .exportOpts s) ∨ a.Neutral := by
  cases a with
  | exportPath path => exact .inl ⟨path, rfl⟩
  | exportOpts s => exact .inr (.inl ⟨s, rfl⟩)
  | _ => exact .inr (.inr ⟨fun _ _ => rfl, fun _ => rfl, fun _ => rfl⟩)

/-- **What an option does to the exports and their options.** -/
theorem apply_cases (h : a.apply m = .ok m') :
    (∃ path oflags, a = .exportPath path ∧ expFlags m.config.exportopts.val = some oflags ∧
      m' = { m with
        config.exports := .set (m.config.exports.kept ++ [⟨path, oflags, none, none⟩]) }) ∨
    (∃ s, a = .exportOpts s ∧ m' = { m with config.exportopts := .set (some s) }) ∨
    (a.Neutral ∧ m'.config.exports = m.config.exports ∧
      m'.config.exportopts = m.config.exportopts) := by
  cases a with
  | exportPath path =>
    obtain ⟨oflags, hf, rfl⟩ := apply_exportPath h
    exact .inl ⟨path, oflags, rfl, hf, rfl⟩
  | exportOpts s =>
    cases h
    exact .inr (.inl ⟨s, rfl, rfl⟩)
  | listen addr =>
    rw [apply_listen h]
    exact .inr (.inr ⟨⟨fun _ _ => rfl, fun _ => rfl, fun _ => rfl⟩, rfl, rfl⟩)
  | runasUid uid =>
    rcases uid with _ | uid
    · cases h
    · cases h
      exact .inr (.inr ⟨⟨fun _ _ => rfl, fun _ => rfl, fun _ => rfl⟩, rfl, rfl⟩)
  | version => cases h
  | unknown => cases h
  | _ =>
    cases h
    exact .inr (.inr ⟨⟨fun _ _ => rfl, fun _ => rfl, fun _ => rfl⟩, rfl, rfl⟩)

/-- The last `-o` option counts. -/
theorem exportopts_foldlM (h : opts.foldlM Opt.apply m = .ok m') :
    m'.config.exportopts =
      (lastExportOpts opts).elim m.config.exportopts fun s => .set (some s) := by
  induction opts generalizing m with
  | nil =>
    cases h
    rfl
  | cons a opts ih =>
    obtain ⟨m₁, ha, h⟩ := except_bind_eq_ok.mp h
    rw [ih h]
    rcases apply_cases ha with ⟨_, _, rfl, -, rfl⟩ | ⟨s, rfl, rfl⟩ | ⟨ha, -, ho⟩
    · rfl
    · rw [lastExportOpts]
      rcases lastExportOpts opts with _ | _ <;> rfl
    · rw [ha.last, ho]

/-- **The exports are those of the command line, if there are any, each with the options of its
moment.** -/
theorem exports_foldlM (h : opts.foldlM Opt.apply m = .ok m') :
    (∀ e ∈ givenExports m.config.exportopts.val opts, expFlags e.2 ≠ none) ∧
    m'.config.exports =
      if givenExports m.config.exportopts.val opts = [] then m.config.exports
      else .set (m.config.exports.kept ++
        (givenExports m.config.exportopts.val opts).map givenExport) := by
  induction opts generalizing m with
  | nil =>
    cases h
    exact ⟨fun _ h => (List.not_mem_nil h).elim, rfl⟩
  | cons a opts ih =>
    obtain ⟨m₁, ha, h⟩ := except_bind_eq_ok.mp h
    obtain ⟨hflags, hexp⟩ := ih h
    rcases apply_cases ha with ⟨path, f, rfl, hf, rfl⟩ | ⟨s, rfl, rfl⟩ | ⟨ha, hx, ho⟩
    · rw [givenExports]
      refine ⟨List.forall_mem_cons.mpr ⟨?_, hflags⟩, ?_⟩
      · rw [hf]
        exact Option.some_ne_none f
      · rw [if_neg (List.cons_ne_nil _ _), hexp, Setting.kept_set, List.map_cons, givenExport, hf]
        by_cases hl : givenExports m.config.exportopts.val opts = []
        · rw [if_pos hl, hl]
          rfl
        · rw [if_neg hl, List.append_assoc]
          rfl
    · rw [givenExports]
      exact ⟨hflags, hexp⟩
    · rw [ho] at hflags hexp
      rw [hx] at hexp
      rw [ha.given]
      exact ⟨hflags, hexp⟩

theorem givenExports_eq_nil (o' : Option Bytes) {opts : List Opt}
    (h : givenExports o opts = []) : givenExports o' opts = [] := by
  induction opts generalizing o o' with
  | nil => rfl
  | cons a opts ih =>
    rcases a.neutral_cases with ⟨path, rfl⟩ | ⟨s, rfl⟩ | ha
    · cases h
    · exact h
    · rw [ha.given] at h ⊢
      exact ih o' h

theorem earlyExport_of_nil {opts : List Opt} (h : givenExports o opts = []) :
    earlyExport opts = false := by
  induction opts with
  | nil => rfl
  | cons a opts ih =>
    rcases a.neutral_cases with ⟨path, rfl⟩ | ⟨s, rfl⟩ | ha
    · cases h
    · rfl
    · rw [ha.given] at h
      rw [ha.early]
      exact ih h

theorem givenExport_eq_iff {path : Bytes} (h : expFlags o ≠ none) (h' : expFlags o' ≠ none) :
    givenExport (path, o) = givenExport (path, o') ↔ expFlags o = expFlags o' := by
  obtain ⟨f, hf⟩ := Option.ne_none_iff_exists'.mp h
  obtain ⟨f', hf'⟩ := Option.ne_none_iff_exists'.mp h'
  rw [givenExport, givenExport, hf, hf']
  constructor
  · intro heq
    exact congrArg some (congrArg Export.oflags heq)
  · intro heq
    rw [heq]

/-- **With other options at the beginning, the exports are the same exactly if no `-e` comes before
the first `-o`, or if the flags are the same.** -/
theorem map_givenExport_eq_iff {opts : List Opt}
    (h : ∀ e ∈ givenExports o opts, expFlags e.2 ≠ none)
    (h' : ∀ e ∈ givenExports o' opts, expFlags e.2 ≠ none) :
    (givenExports o opts).map givenExport = (givenExports o' opts).map givenExport ↔
      (earlyExport opts = true → expFlags o = expFlags o') := by
  induction opts with
  | nil => exact iff_of_true rfl fun h => absurd h Bool.false_ne_true
  | cons a opts ih =>
    rcases a.neutral_cases with ⟨path, rfl⟩ | ⟨s, rfl⟩ | ha
    · rw [givenExports, List.forall_mem_cons] at h h'
      rw [givenExports, givenExports, List.map_cons, List.map_cons, List.cons_eq_cons,
        givenExport_eq_iff h.1 h'.1, ih h.2 h'.2]
      exact ⟨fun heq _ => heq.1, fun heq => ⟨heq rfl, fun _ => heq rfl⟩⟩
    · exact iff_of_true rfl fun h => absurd h Bool.false_ne_true
    · rw [ha.given] at h h' ⊢
      rw [ha.given, ha.early]
      exact ih h h'

/-! ### Who the server runs as -/

theorem Config.serviceRun_eq (site : Site) (c : Config) :
    c.serviceRun site = { c with
      squashuser := (c.serviceRun site).squashuser
      runasuid := (c.serviceRun site).runasuid } := by
  rw [serviceRun]
  split_ifs <;> rfl

theorem Config.serviceRun_of_root (c : Config) (h : site.euid = 0) : c.serviceRun site = c := by
  rw [serviceRun]
  split_ifs with h₁ h₂ h₃ h₄
  · exact absurd h h₂.1
  · rfl
  · exact absurd (h₃.resolve_right (not_not_intro h)) h₄.2
  · rfl
  · rfl

/-! ### What requests see -/

/-- The settings that requests look at, with the mounts of the moment. -/
def Config.conf (c : Config) (procMounts : Option Bytes) : Conf :=
  Conf.withMounts
    { authRequired := c.authRequired.val != 0
      exports := c.exports.val
      exportall := c.exportall.val != 0
      allsquash := c.allsquash.val != 0
      runasuid := if c.runasuid.ro then some c.runasuid.val else none
      statfsPassthru := c.statfsPassthru.val != 0 } c.exportopts.val procMounts

/-- The `exportopts` in force: the command line's if given, else the file's. -/
def effectiveOpts (opts : List Opt) (g : Globals) : Option Bytes :=
  (lastExportOpts opts).or g.exportopts.text

/-- **The exports after a start are those of the command line, if there are any, and else those of
the file.** Those of the file are read with the `exportopts` of the file. -/
theorem main_exports (h : main site opts operands files = .ok m)
    (hg : files.globals (configPath site opts) = g) :
    m.config.exportopts.val = effectiveOpts opts g ∧
    ((givenExports g.exportopts.text opts = [] ∧ m.config.exports.ro = false ∧
      (luaGetglobalExports (configPath site opts) g.exportopts.text g.exports).map (·.getD []) =
        .ok m.config.exports.val) ∨
    (givenExports g.exportopts.text opts ≠ [] ∧
      (∀ e ∈ givenExports g.exportopts.text opts, expFlags e.2 ≠ none) ∧
      m.config.exports = .set ((givenExports g.exportopts.text opts).map givenExport))) := by
  obtain ⟨c, m₁, hc, hm₁, rfl⟩ := main_eq_ok h
  rw [hg] at hc
  have hc := Config.reread_eq_ok.mp hc
  -- nothing is protected before the command line
  obtain ⟨hopts, -⟩ := Setting.reread_eq_ok.mp hc.exportopts
  obtain ⟨hread, hro⟩ := Setting.reread_eq_ok.mp hc.exports
  have htext : g.exportopts.text = c.exportopts.val := luaGetglobalString_eq_ok hopts
  obtain ⟨hflags, hexp⟩ := exports_foldlM hm₁
  rw [Config.serviceRun_eq, htext]
  refine ⟨?_, ?_⟩
  · change m₁.config.exportopts.val = _
    rw [exportopts_foldlM hm₁, effectiveOpts, htext]
    rcases lastExportOpts opts with _ | s <;> rfl
  · by_cases hl : givenExports c.exportopts.val opts = []
    · have hx : m₁.config.exports = c.exports := hexp.trans (if_pos hl)
      refine .inl ⟨hl, ?_, ?_⟩
      · change m₁.config.exports.ro = false
        rw [hx, hro]
      · change _ = Except.ok m₁.config.exports.val
        rw [hx]
        exact hread
    · refine .inr ⟨hl, hflags, (hexp.trans (if_neg hl)).trans ?_⟩
      rw [Setting.kept_of_not_ro hro, List.nil_append]

/-- A server that is started by root. -/
def rootSite : Site := ⟨[47, 99], true, 0, 0, []⟩

/-- The same file everywhere. -/
def anyFile (g : Globals) : Files := fun _ => some (.ok g)

/-- The options `ro` and `privport`, and the path `/x`. -/
def roOpts : Bytes := [114, 111]

@[inherit_doc roOpts]
def privportOpts : Bytes := [112, 114, 105, 118, 112, 111, 114, 116]

@[inherit_doc roOpts]
def slashX : Bytes := [47, 120]

/-- An export as it is given. -/
inductive Given where
  /-- By a `-e` option, with the `exportopts` of its moment. -/
  | option (path : Bytes) (exportopts : Option Bytes)
  /-- By an entry of the file. -/
  | entry (v : LuaVal ExpTable)

namespace Given

def path : Given → Option Bytes
  | .option path _ => some path
  | .entry v => v.expPath

/-- The options it carries itself. -/
def own : Given → Option Bytes
  | .option _ _ => none
  | .entry v => v.field ExpTable.opts

/-- The options it is exported with, given those of the file. -/
def applied (fileopts : Option Bytes) : Given → Option Bytes
  | .option _ o => o
  | .entry v => v.optsWith fileopts

/-- **An export that gets the flags of `exportopts`**: a `-e` option whose moment has flags like
that; a plain string, if they are none; and a table without options, if the file has flags like
that. -/
def Right (fileopts exportopts : Option Bytes) : Given → Prop
  | .option _ o => expFlags o = expFlags exportopts
  | .entry (.table t) => t.opts.text = none → expFlags fileopts = expFlags exportopts
  | .entry _ => some 0 = expFlags exportopts

theorem right_iff {fileopts exportopts : Option Bytes} (x : Given) :
    x.Right fileopts exportopts ↔
      (x.own = none → expFlags (x.applied fileopts) = expFlags exportopts) := by
  rcases x with ⟨_, _⟩ | _ | _ | _ | t | _
  case entry.table =>
    simp only [Right, own, applied, LuaVal.field, LuaVal.optsWith]
    constructor
    · intro h ht
      rw [ht]
      exact h ht
    · intro h ht
      have h := h ht
      rw [ht] at h
      exact h
  all_goals exact ⟨fun h _ => h, fun h => h rfl⟩

end Given

/-- The exports that are given. -/
def given (opts : List Opt) (g : Globals) : List Given :=
  if givenExports g.exportopts.text opts = [] then g.entries.map .entry
  else (givenExports g.exportopts.text opts).map fun e => .option e.1 e.2

/-- Every export is there, with the flags of the options it is exported with. -/
theorem forall₂_given (h : main site opts operands files = .ok m)
    (hg : files.globals (configPath site opts) = g) :
    List.Forall₂ (fun (x : Given) e => x.path = some e.path ∧
      expFlags (x.applied g.exportopts.text) = some e.oflags) (given opts g)
      m.config.exports.val := by
  obtain ⟨-, ⟨hl, -, hread⟩ | ⟨hl, hflags, hexp⟩⟩ := main_exports h hg
  · rw [given, if_pos hl, List.forall₂_map_left_iff]
    refine (luaGetglobalExports_eq_ok hread).imp ?_
    rintro v x ⟨i, hx⟩
    obtain ⟨hp, hf, -, -⟩ := readExport_eq_ok hx
    exact ⟨hp, hf⟩
  · rw [given, if_neg hl, hexp]
    change List.Forall₂ _ _ ((givenExports g.exportopts.text opts).map givenExport)
    rw [List.forall₂_map_left_iff, List.forall₂_map_right_iff, List.forall₂_same]
    intro e he
    obtain ⟨f, hf⟩ := Option.ne_none_iff_exists'.mp (hflags e he)
    refine ⟨rfl, ?_⟩
    rw [givenExport, hf]
    exact hf

/-- **The exports that have no options of their own get the flags of `exportopts`, exactly if they
are right.** The mounts of `exportall` always do. -/
theorem exportopts_flags_iff {g : Globals} (h : main site opts operands files = .ok m)
    (hg : files.globals (configPath site opts) = g) :
    (List.Forall₂ (fun (x : Given) e => x.path = some e.path ∧
        (x.own = none → expFlags (effectiveOpts opts g) = some e.oflags))
      (given opts g) m.config.exports.val ↔
      ∀ x ∈ given opts g, x.Right g.exportopts.text (effectiveOpts opts g)) ∧
    ∀ proc l, diodConfGetMounts (m.config.exportall.val != 0) m.config.exportopts.val proc =
      some l → ∀ x ∈ l, expFlags (effectiveOpts opts g) = some x.oflags := by
  constructor
  · have hall := forall₂_given h hg
    generalize given opts g = l at hall
    generalize m.config.exports.val = es at hall
    induction hall with
    | nil => exact iff_of_true .nil fun _ h => (List.not_mem_nil h).elim
    | @cons x e l es hx _ ih =>
      rw [List.forall₂_cons, List.forall_mem_cons, Given.right_iff, hx.2]
      refine and_congr ⟨fun h ho => (h.2 ho).symm, fun h => ⟨hx.1, fun ho => (h ho).symm⟩⟩ ih
  · intro proc l hl x hx
    rw [← (main_exports h hg).1]
    obtain ⟨oflags, ho, hall⟩ := oflags_of_mem_mounts hl
    rw [(hall x hx).1]
    exact ho

/-- With `-o ro -e /x`, `/x` is exported with `ro`. -/
theorem exportopts_flags_after :
    ∃ m, main rootSite [.exportOpts roOpts, .exportPath slashX] false (anyFile {}) = .ok m ∧
      m.config.exports.val = [⟨slashX, 1, none, none⟩] ∧
      List.Forall₂ (fun (x : Given) e => x.path = some e.path ∧
        (x.own = none → expFlags (some roOpts) = some e.oflags))
        [.option slashX (some roOpts)] m.config.exports.val := by
  obtain ⟨m, hm, hx⟩ : ∃ m, main rootSite [.exportOpts roOpts, .exportPath slashX] false
      (anyFile {}) = .ok m ∧ m.config.exports.val = [⟨slashX, 1, none, none⟩] := ⟨_, rfl, rfl⟩
  have hiff := (exportopts_flags_iff (g := {}) hm rfl).1
  exact ⟨m, hm, hx, hiff.mpr (List.forall_mem_singleton.mpr rfl)⟩

/-- **An export that is not made read-only**: with `-e /x -o ro`; as a plain string in a file with
`exportopts = "ro"`; and as a table without options in a file, with `-o ro`. -/
theorem exportopts_flags_missed :
    (∃ m, main rootSite [.exportPath slashX, .exportOpts roOpts] false (anyFile {}) = .ok m ∧
      effectiveOpts [.exportPath slashX, .exportOpts roOpts] {} = some roOpts ∧
      m.config.exports.val = [⟨slashX, 0, none, none⟩]) ∧
    (∃ m, main rootSite [] false
        (anyFile { exportopts := .string roOpts none, exports := .table [.string slashX none] }) =
          .ok m ∧
      m.config.exports.val = [⟨slashX, 0, none, none⟩]) ∧
    ∃ m, main rootSite [.exportOpts roOpts] false
        (anyFile { exports := .table [.table { path := .string slashX none }] }) = .ok m ∧
      m.config.exports.val = [⟨slashX, 0, none, none⟩] :=
  ⟨⟨_, rfl, rfl, rfl⟩, ⟨_, rfl, rfl⟩, ⟨_, rfl, rfl⟩⟩

/-! ### Reading the file again -/

theorem Started.reload_eq_ok {path : Bytes} (hpath : m.config.configpath.val = path)
    (hread : files path ≠ none) (h : m.reload files = .ok m') :
    Config.reread (Config.reading path (files.globals path)) m.config = .ok m'.config := by
  obtain ⟨c, hc, h⟩ := except_bind_eq_ok.mp h
  cases h
  obtain ⟨g, hg, hc⟩ | ⟨-, hnone, -⟩ := Config.diodConfInitConfigFile_cases hc
  · rw [Option.getD_none, hpath] at hg hc
    rw [Files.globals, hg]
    exact hc
  · rw [hpath] at hnone
    exact absurd hnone hread

/-- **Of all the files, only the first and the last one matter.** -/
theorem reload_foldlM {path : Bytes} (hpath : m.config.configpath.val = path)
    {later : List Files} (hread : ∀ f ∈ later ++ [last], f path ≠ none)
    (h : (later ++ [last]).foldlM Started.reload m = .ok m') :
    Config.reread (Config.reading path (last.globals path)) m.config = .ok m'.config := by
  induction later generalizing m with
  | nil =>
    obtain ⟨m₁, h₁, h⟩ := except_bind_eq_ok.mp h
    cases h
    exact Started.reload_eq_ok hpath (hread last List.mem_cons_self) h₁
  | cons files later ih =>
    obtain ⟨m₁, h₁, h⟩ := except_bind_eq_ok.mp h
    have h₁ := Started.reload_eq_ok hpath (hread files List.mem_cons_self) h₁
    have hpath₁ : m₁.config.configpath.val = path := by
      rw [← (Config.reread_eq_ok.mp h₁).configpath, hpath]
    rw [← Config.reread_of_reread h₁]
    exact ih hpath₁ (fun f hf => hread f (List.mem_cons_of_mem _ hf)) h

theorem Config.Tracks.of_reread {q : Config.Reading} {b d : Config}
    (hb : b = .initWith site opts) (hc : Config.reread q b = .ok c)
    (hd : Config.reread r b = .ok d) : Config.Tracks r c d := by
  have hc := Config.reread_eq_ok.mp hc
  have hd := Config.reread_eq_ok.mp hd
  subst hb
  exact
    { debuglevel := hc.debuglevel.symm.trans hd.debuglevel
      nwthreads := .of_reread rfl hc.nwthreads hd.nwthreads
      authRequired := .of_reread rfl hc.authRequired hd.authRequired
      hostnameLookup := .of_reread rfl hc.hostnameLookup hd.hostnameLookup
      statfsPassthru := .of_reread rfl hc.statfsPassthru hd.statfsPassthru
      userdb := .of_reread rfl hc.userdb hd.userdb
      allsquash := .of_reread rfl hc.allsquash hd.allsquash
      squashuser := .of_reread rfl hc.squashuser hd.squashuser
      runasuid := hc.runasuid.symm.trans hd.runasuid
      listen := .of_reread rfl hc.listen hd.listen
      exportall := .of_reread rfl hc.exportall hd.exportall
      exportopts := .of_reread rfl hc.exportopts hd.exportopts
      configpath := hc.configpath.symm.trans hd.configpath
      logdest := .of_reread rfl hc.logdest hd.logdest }

theorem main_configpath (h : main site opts operands files = .ok m) :
    m.config.configpath.val = configPath site opts := by
  obtain ⟨c, m₁, hc, hm₁, rfl⟩ := main_eq_ok h
  rw [Config.serviceRun_eq]
  change m₁.config.configpath.val = _
  rw [configpath_foldlM hm₁]
  change c.configpath.val = _
  rw [← (Config.reread_eq_ok.mp hc).configpath, Config.initWith, configPath]
  rcases (findConfigFile opts none).toOption.join with _ | path <;> rfl

/-- `_service_run` protects the squash user when it sets one. -/
theorem Config.serviceRun_squashuser (h : (c.serviceRun site).squashuser.ro = false) :
    (c.serviceRun site).squashuser = c.squashuser := by
  rw [serviceRun] at h ⊢
  split_ifs at h ⊢
  · cases h
  all_goals rfl

/-- **A configuration becomes that of another start, exactly if they agree in the exports and in who
the server runs as.** -/
theorem Config.Tracks.rereads_iff {d : Config} (h : Config.Tracks r c d) :
    Config.Rereads r (c.serviceRun site) (d.serviceRun site) ↔
      c.exports.reread (r.exports d.exportopts.val) = .ok d.exports ∧
      (c.serviceRun site).squashuser.Agrees (d.serviceRun site).squashuser ∧
      (c.serviceRun site).runasuid = (d.serviceRun site).runasuid := by
  have hread : (d.serviceRun site).squashuser.ro = false →
      r.squashuser = .ok (d.serviceRun site).squashuser.val := by
    intro hro
    have heq := Config.serviceRun_squashuser hro
    rw [heq] at hro ⊢
    exact h.squashuser.read hro
  have hsquash := Setting.reread_eq_ok_iff_agrees
    (s := (c.serviceRun site).squashuser) hread
  rw [Config.serviceRun_eq site c, Config.serviceRun_eq site d]
  constructor
  · intro hr
    exact ⟨hr.exports, hsquash.mp hr.squashuser, hr.runasuid⟩
  · rintro ⟨hexp, hs, hu⟩
    exact
      { debuglevel := h.debuglevel
        nwthreads := h.nwthreads.reread
        authRequired := h.authRequired.reread
        hostnameLookup := h.hostnameLookup.reread
        statfsPassthru := h.statfsPassthru.reread
        userdb := h.userdb.reread
        allsquash := h.allsquash.reread
        squashuser := hsquash.mpr hs
        runasuid := hu
        listen := h.listen.reread
        exportall := h.exportall.reread
        exportopts := h.exportopts.reread
        exports := hexp
        configpath := h.configpath
        logdest := h.logdest.reread }

/-- **The exports become those of another start**, if those of the command line have the flags that
they would have there, or if those of the file get the flags that they would get there. -/
theorem exports_reread_iff {g₀ : Globals} (h₀ : main site opts operands files = .ok m)
    (hg₀ : files.globals (configPath site opts) = g₀)
    (hd : main site opts operands last = .ok d) (hg : last.globals (configPath site opts) = g)
    {x : Setting (List Export)} (hx : m.config.exports.reread
      ((Config.reading (configPath site opts) g).exports (effectiveOpts opts g)) = .ok x) :
    x = d.config.exports ↔
      (earlyExport opts = true → expFlags g₀.exportopts.text = expFlags g.exportopts.text) ∧
      (givenExports none opts = [] → ∀ t, LuaVal.table t ∈ g.entries → t.opts.text = none →
        expFlags (effectiveOpts opts g) = expFlags g.exportopts.text) := by
  obtain ⟨-, ⟨hl₀, hro₀, -⟩ | ⟨hl₀, hf₀, he₀⟩⟩ := main_exports h₀ hg₀
  · have hnil : givenExports g.exportopts.text opts = [] := givenExports_eq_nil _ hl₀
    obtain ⟨-, ⟨-, hro, hread⟩ | ⟨hl, -⟩⟩ := main_exports hd hg
    · have hval := luaGetglobalExports_eq_iff (Setting.read_of_reread hx hro₀) hread
      rw [expFlags_optsWith_iff] at hval
      have hxro : x.ro = d.config.exports.ro := by rw [Setting.ro_of_reread hx, hro₀, hro]
      constructor
      · rintro rfl
        refine ⟨fun h => ?_, fun _ => hval.mp rfl⟩
        rw [earlyExport_of_nil hl₀] at h
        cases h
      · rintro ⟨-, h⟩
        exact Setting.ext (hval.mpr (h (givenExports_eq_nil none hl₀))) hxro
    · exact absurd hnil hl
  · have hne : givenExports g.exportopts.text opts ≠ [] := fun h => hl₀ (givenExports_eq_nil _ h)
    obtain ⟨-, ⟨hl, -⟩ | ⟨-, hf, he⟩⟩ := main_exports hd hg
    · exact absurd hl hne
    · rw [he₀, Setting.reread_of_ro rfl] at hx
      rw [← Except.ok.inj hx, he, ← map_givenExport_eq_iff hf₀ hf]
      constructor
      · intro h
        exact ⟨congrArg Setting.val h, fun h => absurd (givenExports_eq_nil _ h) hne⟩
      · rintro ⟨h, -⟩
        rw [h]

/-- Two starts with one command line. -/
theorem exists_tracks
    (h₀ : main site opts operands files = .ok m) (hd : main site opts operands last = .ok d) :
    ∃ c₁ d₁, Config.Tracks (Config.reading (configPath site opts)
        (last.globals (configPath site opts))) c₁ d₁ ∧
      m.config = c₁.serviceRun site ∧ d.config = d₁.serviceRun site := by
  obtain ⟨c, m₁, hc, hm₁, rfl⟩ := main_eq_ok h₀
  obtain ⟨c', d₁, hc', hd₁, rfl⟩ := main_eq_ok hd
  refine ⟨m₁.config, d₁.config, ?_, rfl, rfl⟩
  exact foldlM_lockstep (R := fun b c => Config.Tracks _ b.config c.config)
    (fun _ _ _ _ _ h => h.apply) opts (.of_reread rfl hc hc') hm₁ hd₁

/-- Who a root server runs as does not depend on the file. -/
theorem Config.Tracks.runs_as {d : Config} (h : Config.Tracks r c d) :
    ((c.serviceRun site).squashuser.Agrees (d.serviceRun site).squashuser ∧
      (c.serviceRun site).runasuid = (d.serviceRun site).runasuid) ↔
    (site.euid ≠ 0 → (c.serviceRun site).squashuser.Agrees (d.serviceRun site).squashuser ∧
      (c.serviceRun site).runasuid = (d.serviceRun site).runasuid) := by
  by_cases hroot : site.euid = 0
  · rw [Config.serviceRun_of_root c hroot, Config.serviceRun_of_root d hroot]
    exact iff_of_true ⟨h.squashuser.toAgrees, h.runasuid⟩ fun hne => absurd hroot hne
  · exact ⟨fun h _ => h, fun h => h hroot⟩

/-- The configuration of one start that reads the file of another one becomes that of the other. -/
theorem reread_eq_main_iff {g₀ : Globals} (h₀ : main site opts operands files = .ok m)
    (hg₀ : files.globals (configPath site opts) = g₀)
    (hd : main site opts operands last = .ok d) (hg : last.globals (configPath site opts) = g)
    (hc : Config.reread (Config.reading (configPath site opts) g) m.config = .ok c) :
    c = d.config ↔
      (earlyExport opts = true → expFlags g₀.exportopts.text = expFlags g.exportopts.text) ∧
      (givenExports none opts = [] → ∀ t, LuaVal.table t ∈ g.entries → t.opts.text = none →
        expFlags (effectiveOpts opts g) = expFlags g.exportopts.text) ∧
      (site.euid ≠ 0 → m.config.squashuser.Agrees d.config.squashuser ∧
        m.config.runasuid = d.config.runasuid) := by
  obtain ⟨c₁, d₁, ht, hmc, hdc⟩ := exists_tracks h₀ hd
  rw [hg] at ht
  have hr := Config.reread_eq_ok.mp hc
  have hm₁ : m.config.exportopts = c₁.exportopts ∧ m.config.exports = c₁.exports := by
    rw [hmc, Config.serviceRun_eq]
    exact ⟨rfl, rfl⟩
  have hd₁ : d.config.exportopts = d₁.exportopts ∧ d.config.exports = d₁.exports := by
    rw [hdc, Config.serviceRun_eq]
    exact ⟨rfl, rfl⟩
  have hopts : c.exportopts = d₁.exportopts :=
    Except.ok.inj (hr.exportopts.symm.trans (hm₁.1 ▸ ht.exportopts.reread))
  have hexp := hr.exports
  rw [hopts] at hexp
  have hiff : c = d.config ↔ Config.Rereads (Config.reading (configPath site opts) g)
      m.config d.config := by
    rw [← Config.reread_eq_ok, hc]
    exact ⟨fun h => congrArg _ h, Except.ok.inj⟩
  have hx : c₁.exports.reread ((Config.reading (configPath site opts) g).exports
      d₁.exportopts.val) = .ok d₁.exports ↔ c.exports = d.config.exports := by
    rw [← hm₁.2, hexp, hd₁.2]
    exact ⟨Except.ok.inj, fun h => congrArg _ h⟩
  have heff : d₁.exportopts.val = effectiveOpts opts g := by
    rw [← hd₁.1, (main_exports hd hg).1]
  rw [heff] at hexp
  rw [hiff, hmc, hdc, ht.rereads_iff, hx, exports_reread_iff h₀ hg₀ hd hg hexp, and_assoc]
  exact and_congr_right' (and_congr_right' ht.runs_as)

/-- **The configuration after `SIGHUP` is that of a start with the last file**, if a server can be
started with it, and exactly if

* the `-e` options before the first `-o` have the flags that they would have with the last file,
* the tables without options, if the exports are from the file, have the flags of the file's
  own `exportopts`, with which they would be read at the start,
* and a server that is not root has been made to run as who it would run as.

With a single file, there is nothing to compare. -/
theorem reload_eq_start_iff {later : List Files} {last : Files} {g₀ g : Globals}
    (h : serviceLoop site opts operands files later = .ok m)
    (hread : ∀ f ∈ later, f (configPath site opts) ≠ none)
    (hlast : (files :: later).getLast? = some last)
    (hg₀ : files.globals (configPath site opts) = g₀)
    (hg : last.globals (configPath site opts) = g) :
    (∃ d, main site opts operands last = .ok d ∧ m.config = d.config) ↔
      later = [] ∨
      ∃ m₀ d, main site opts operands files = .ok m₀ ∧ main site opts operands last = .ok d ∧
        (earlyExport opts = true → expFlags g₀.exportopts.text = expFlags g.exportopts.text) ∧
        (givenExports none opts = [] → ∀ t, LuaVal.table t ∈ g.entries → t.opts.text = none →
          expFlags (effectiveOpts opts g) = expFlags g.exportopts.text) ∧
        (site.euid ≠ 0 → m₀.config.squashuser.Agrees d.config.squashuser ∧
          m₀.config.runasuid = d.config.runasuid) := by
  obtain ⟨m₀, h₀, h⟩ := except_bind_eq_ok.mp h
  rcases List.eq_nil_or_concat' later with rfl | ⟨l, f, rfl⟩
  · obtain rfl : m₀ = m := Except.ok.inj h
    obtain rfl : files = last := Option.some.inj hlast
    exact iff_of_true ⟨m₀, h₀, rfl⟩ (.inl rfl)
  · rw [← List.cons_append, List.getLast?_append] at hlast
    obtain rfl : f = last := Option.some.inj hlast
    have hc := reload_foldlM (main_configpath h₀) hread h
    rw [hg] at hc
    constructor
    · rintro ⟨d, hd, heq⟩
      exact .inr ⟨m₀, d, h₀, hd, (reread_eq_main_iff h₀ hg₀ hd hg hc).mp heq⟩
    · rintro (hnil | ⟨m₀', d, h₀', hd, hcond⟩)
      · exact absurd hnil (List.append_ne_nil_of_right_ne_nil _ (List.cons_ne_nil _ _))
      · cases h₀.symm.trans h₀'
        exact ⟨d, hd, (reread_eq_main_iff h₀ hg₀ hd hg hc).mpr hcond⟩

/-- With `-o ro -e /x`, `/x` is exported with `ro` after the file has changed its `exportopts`, and
so it would be after a start. -/
theorem reload_eq_start_given :
    ∃ m d, serviceLoop rootSite [.exportOpts roOpts, .exportPath slashX] false
        (anyFile { exportopts := .string privportOpts none }) [anyFile {}] = .ok m ∧
      main rootSite [.exportOpts roOpts, .exportPath slashX] false (anyFile {}) = .ok d ∧
      m.config = d.config := by
  obtain ⟨m, hm⟩ : ∃ m, serviceLoop rootSite [.exportOpts roOpts, .exportPath slashX] false
      (anyFile { exportopts := .string privportOpts none }) [anyFile {}] = .ok m := ⟨_, rfl⟩
  have hiff := reload_eq_start_iff hm (by decide) rfl rfl rfl
  obtain ⟨d, hd, heq⟩ := hiff.mpr (.inr ⟨_, _, rfl, rfl, fun h => absurd h (by decide),
    fun h => absurd h (by decide), fun h => absurd rfl h⟩)
  exact ⟨m, d, hm, hd, heq⟩

/-- **With `-e /x` and a file that no longer says `ro`, `/x` stays `ro`; and with `-o ro`, a table
of the file becomes `ro` when the file is read for the second time.** -/
theorem reload_keeps_flags :
    (∃ m d, serviceLoop rootSite [.exportPath slashX] false
        (anyFile { exportopts := .string roOpts none }) [anyFile {}] = .ok m ∧
      main rootSite [.exportPath slashX] false (anyFile {}) = .ok d ∧
      m.config.exports.val = [⟨slashX, 1, none, none⟩] ∧
      d.config.exports.val = [⟨slashX, 0, none, none⟩]) ∧
    ∃ m d, serviceLoop rootSite [.exportOpts roOpts] false
        (anyFile { exports := .table [.table { path := .string slashX none }] })
        [anyFile { exports := .table [.table { path := .string slashX none }] }] = .ok m ∧
      main rootSite [.exportOpts roOpts] false
        (anyFile { exports := .table [.table { path := .string slashX none }] }) = .ok d ∧
      m.config.exports.val = [⟨slashX, 1, none, none⟩] ∧
      d.config.exports.val = [⟨slashX, 0, none, none⟩] :=
  ⟨⟨_, _, rfl, rfl, rfl, rfl⟩, ⟨_, _, rfl, rfl, rfl, rfl⟩⟩

end Diod
