import Diod.Backend.Fid

/-!
# Exports

`diod_exp.c`: which anames a client may attach to, and with which flags. Listed
exports come first, and with `exportall` the mounted file systems after them.

Whether a client is on a list of hosts is decided by the hostlist library, which is a
parameter of the configuration.
-/

namespace Diod

/-- `XFLAGS_RO`, `XFLAGS_SUPPRESS`, `XFLAGS_SHAREFD`, `XFLAGS_PRIVPORT` and
`XFLAGS_NOAUTH` -/
def XFLAGS_RO : UInt32 := 0x01

@[inherit_doc XFLAGS_RO] def XFLAGS_SUPPRESS : UInt32 := 0x02

@[inherit_doc XFLAGS_RO] def XFLAGS_SHAREFD : UInt32 := 0x04

@[inherit_doc XFLAGS_RO] def XFLAGS_PRIVPORT : UInt32 := 0x08

@[inherit_doc XFLAGS_RO] def XFLAGS_NOAUTH : UInt32 := 0x10

/-- `Export` of `diod_conf.h`, with its strings as C strings. -/
structure Export where
  path : Bytes
  oflags : UInt32
  users : Option Bytes := none
  hosts : Option Bytes := none

/-- The configuration, as far as requests depend on it. -/
structure Conf where
  authRequired : Bool
  exports : List Export
  exportall : Bool := false
  /-- `diod_conf_get_mounts` -/
  mounts : Option (List Export) := none
  allsquash : Bool := false
  /-- `diod_conf_opt_runasuid` and `diod_conf_get_runasuid` -/
  runasuid : Option UInt32 := none
  statfsPassthru : Bool := false
  /-- `hostlist_find`: is a client on a list of hosts? -/
  hostlistFind : Bytes → Bytes → Bool := fun _ _ => false

/-- The aname `ctl`. -/
def ctlName : Bytes := [99, 116, 108]

/-- `_match_export_path` -/
def matchExportPath (x : Export) (path : Bytes) : Bool :=
  let xlen := (x.path.reverse.dropWhile (· == 47)).length
  (x.path == [47] && path != ctlName) ||
    (path.length == xlen && x.path.take xlen == path) ||
    (decide (path.length > xlen) && path[xlen]? == some 47)

/-- `strstr (path, "/..") != NULL` -/
def hasDotDot (path : Bytes) : Bool :=
  (List.range path.length).any fun i => (path.drop i).take 3 == [47, 46, 46]

/-- The client's end of a connection. -/
structure Client where
  id : Bytes := []
  /-- `CONN_FLAGS_PRIVPORT` -/
  privport : Bool := false

namespace Conf

variable (C : Conf)

/-- `_match_export_hosts` -/
def matchExportHosts (x : Export) (client : Client) : Bool :=
  if x.oflags &&& XFLAGS_PRIVPORT ≠ 0 ∧ ¬client.privport then false
  else match x.hosts with
    | none => true
    | some hosts => C.hostlistFind hosts client.id

/-- `_match_mounts` -/
def matchMounts (path : Bytes) : Option UInt32 :=
  C.mounts.bind fun l => (l.find? fun x => matchExportPath x path).map (·.oflags)

/-- `diod_match_exports`: the first export that matches the path decides. -/
def diodMatchExports (path : Bytes) (client : Client) : Option UInt32 :=
  if hasDotDot path then none
  else match C.exports.find? fun x => matchExportPath x path with
    | some x =>
      if x.oflags &&& XFLAGS_SUPPRESS ≠ 0 then none
      else if C.matchExportHosts x client ∧ x.users.isNone then some x.oflags
      else none
    | none => if C.exportall then C.matchMounts path else none

/-- `diod_fetch_xflags` -/
def diodFetchXflags (aname : Bytes) : Option UInt32 :=
  if hasDotDot (cstr aname) then none
  else (C.exports.find? fun x => matchExportPath x (cstr aname)).map (·.oflags)

/-- `diod_auth_required`. Without the memory to look at the exports, it is. -/
def diodAuthRequired (mem : Bool) (aname : Bytes) : Bool :=
  C.authRequired && !(mem && (C.diodFetchXflags aname).any fun x => x &&& XFLAGS_NOAUTH != 0)

end Conf

end Diod
