import Diod.Host.Calls
import Diod.Lib.Ledger

/-!
# Connecting to a host

`diod_sock_connect_inet` goes through the addresses of a host. For each one it makes a socket, binds
it to a reserved port if it has to, and connects it. A socket that cannot be bound or connected is
closed. One that is connected is what the function is after, but **nothing ends the loop** then: the
next address is tried as well, and its socket takes the place of the one that is connected.

Descriptors are handles of a `Diod.Ledger`. What is still open when the loop is through are the
sockets that were connected (`Diod.Connecting.owes_connected`), however many they are, and what is
returned is the outcome of the last address. So all is well just if no address but the last one
connects (`Diod.Connecting.connect_inet_iff`).
-/

namespace Diod

/-- The port is in use. -/
def EADDRINUSE : ℕ := 98

/-- No port is left. -/
def EAGAIN : ℕ := 11

/-- `ai_family` -/
inductive Family
  | inet
  | inet6
  | other
deriving DecidableEq

/-- **An address of the host**, and how the calls end that are made for it: with an `errno`, or
without one. -/
structure Addrinfo where
  family : Family
  socket : Option ℕ
  /-- `bind` to each port. -/
  bind : ℕ → Option ℕ
  connect : Option ℕ

/-- `DIOD_SOCK_QUIET` and `DIOD_SOCK_PRIVPORT` -/
structure SockFlags where
  quiet : Bool
  privport : Bool

/-- What is written to the log. -/
inductive SockMsg
  | getaddrinfo (error : ℕ)
  | lookup
  | failed (errnum : ℕ) (errmsg : String)
deriving DecidableEq

/-! ### The code -/

/-- The loop over the ports, from `511 + n` down to 512. -/
def bindLoop (bind : ℕ → Option ℕ) : ℕ → Option ℕ
  | 0 => some EADDRINUSE
  | n + 1 =>
    match bind (512 + n) with
    | none => none
    | some e => if e = EADDRINUSE then bindLoop bind n else some e

/-- Bind to a port from 1023 down to 512. -/
def bindPriv (bind : ℕ → Option ℕ) : Option ℕ :=
  (bindLoop bind 512).map fun e => if e = EADDRINUSE then EAGAIN else e

/-- `_bind_priv_inet4` -/
def bindPrivInet4 (bind : ℕ → Option ℕ) : Option ℕ := bindPriv bind

/-- `_bind_priv_inet6` -/
def bindPrivInet6 (bind : ℕ → Option ℕ) : Option ℕ := bindPriv bind

/-- Why a socket for the address cannot be bound, if it has to be and cannot. -/
def Addrinfo.bindError (flags : SockFlags) (r : Addrinfo) : Option (ℕ × String) :=
  if flags.privport then
    match r.family with
    | .inet => (bindPrivInet4 r.bind).map (·, "_bind_resv_inet4")
    | .inet6 => (bindPrivInet6 r.bind).map (·, "_bind_resv_inet6")
    | .other => some (EINVAL, "protocol")
  else none

/-- **The variables of the loop**, and what has been done. -/
structure Connecting extends Ledger where
  fd : Option ℕ := none
  errnum : ℕ := 0
  errmsg : Option String := none
  /-- How many addresses have been tried. -/
  tried : ℕ := 0
  /-- The descriptors for which `connect` succeeded. -/
  connected : List ℕ := []
deriving DecidableEq

namespace Connecting

/-- Close a socket that is of no use. -/
def giveUp (h : ℕ) (e : ℕ × String) (c : Connecting) : Connecting :=
  { c with toLedger := c.release (some h), fd := none, errnum := e.1, errmsg := some e.2 }

/-- The body of the loop. -/
def tryAddress (flags : SockFlags) (c : Connecting) (r : Addrinfo) : Connecting :=
  match r.socket with
  | some e => { c with fd := none, errnum := e, errmsg := some "socket", tried := c.tried + 1 }
  | none =>
    let h := c.next
    let c := { c with toLedger := c.acquire, fd := some h, tried := c.tried + 1 }
    match r.bindError flags with
    | some e => c.giveUp h e
    | none =>
      match r.connect with
      | some e => c.giveUp h (e, "connect")
      | none => { c with connected := h :: c.connected }

/-- `diod_sock_connect_inet`, with what `getaddrinfo` returns. The result is `fd`. -/
def diodSockConnectInet (flags : SockFlags) :
    Except ℕ (List Addrinfo) → Option SockMsg × Connecting
  | .error e => (if flags.quiet then none else some (.getaddrinfo e), {})
  | .ok [] => (if flags.quiet then none else some .lookup, {})
  | .ok rs =>
    let c := rs.foldl (tryAddress flags) {}
    (if c.fd = none ∧ flags.quiet = false then c.errmsg.map (.failed c.errnum) else none, c)

/-! ### One address -/

variable {flags : SockFlags} {r : Addrinfo} {c : Connecting} {rs : List Addrinfo}

/-- **The address connects.** -/
def Connects (flags : SockFlags) (r : Addrinfo) : Prop :=
  r.socket = none ∧ r.bindError flags = none ∧ r.connect = none

instance (flags : SockFlags) (r : Addrinfo) : Decidable (Connects flags r) :=
  inferInstanceAs (Decidable (_ ∧ _ ∧ _))

theorem tryAddress_of_connects (h : Connects flags r) :
    tryAddress flags c r = { c with
      toLedger := c.acquire, fd := some c.next, tried := c.tried + 1,
      connected := c.next :: c.connected } := by
  unfold tryAddress
  rw [h.1, h.2.1, h.2.2]

/-- An address that does not connect leaves nothing open, and no descriptor in `fd`. -/
theorem tryAddress_of_not_connects {hs : List ℕ} (h : ¬Connects flags r) (hc : c.Owes hs) :
    (tryAddress flags c r).Owes hs ∧ (tryAddress flags c r).fd = none ∧
      (tryAddress flags c r).connected = c.connected := by
  unfold tryAddress
  rcases hsocket : r.socket with _ | e
  · rcases hbind : r.bindError flags with _ | e
    · rcases hconnect : r.connect with _ | e
      · exact absurd ⟨hsocket, hbind, hconnect⟩ h
      · exact ⟨hc.acquire.release, rfl, rfl⟩
    · exact ⟨hc.acquire.release, rfl, rfl⟩
  · exact ⟨hc, rfl, rfl⟩

theorem tryAddress_tried : (tryAddress flags c r).tried = c.tried + 1 := by
  unfold tryAddress giveUp
  dsimp only
  split
  · rfl
  · split
    · rfl
    · split <;> rfl

/-! ### All addresses -/

theorem foldl_tried : (rs.foldl (tryAddress flags) c).tried = c.tried + rs.length := by
  induction rs generalizing c with
  | nil => rfl
  | cons r rs ih =>
    rw [List.foldl_cons, ih, tryAddress_tried, List.length_cons]
    omega

/-- **What is left open** is every socket that was connected. -/
theorem owes_connected (hc : c.Owes c.connected) :
    (rs.foldl (tryAddress flags) c).Owes (rs.foldl (tryAddress flags) c).connected := by
  induction rs generalizing c with
  | nil => exact hc
  | cons r rs ih =>
    refine ih ?_
    by_cases h : Connects flags r
    · rw [tryAddress_of_connects h]
      exact hc.acquire
    · obtain ⟨howes, -, hsame⟩ := tryAddress_of_not_connects h hc
      rwa [hsame]

theorem foldl_of_not_connects (h : ∀ r ∈ rs, ¬Connects flags r) (hc : c.Owes []) :
    (rs.foldl (tryAddress flags) c).connected = c.connected := by
  induction rs generalizing c with
  | nil => rfl
  | cons r rs ih =>
    obtain ⟨howes, -, hsame⟩ := tryAddress_of_not_connects (h r List.mem_cons_self) hc
    exact (ih (fun r hr => h r (List.mem_cons_of_mem _ hr)) howes).trans hsame

theorem connectInet_snd :
    (diodSockConnectInet flags (.ok rs)).2 = rs.foldl (tryAddress flags) {} := by
  rcases rs with _ | ⟨r, rs⟩ <;> rfl

/-- **The call is right**: it returns a connected descriptor just if there is an address that
connects, all others it opened are closed, and an address that connects is the last one tried. -/
structure Right (flags : SockFlags) (rs : List Addrinfo) (c : Connecting) : Prop where
  returned : (∃ h ∈ c.connected, c.fd = some h) ↔ ∃ r ∈ rs, Connects flags r
  closed : c.Owes c.fd.toList
  stops : ∀ r ∈ rs.take (c.tried - 1), ¬Connects flags r

/-- **Connecting is right just if no address but the last one connects.** -/
theorem connect_inet_iff (flags : SockFlags) (rs : List Addrinfo) :
    Right flags rs (diodSockConnectInet flags (.ok rs)).2 ↔
      ∀ r ∈ rs.dropLast, ¬Connects flags r := by
  -- all addresses are tried, whatever happens
  have htried : rs.dropLast = rs.take ((rs.foldl (tryAddress flags) {}).tried - 1) := by
    rw [foldl_tried, Nat.zero_add, List.dropLast_eq_take]
  have hstart : ({} : Connecting).Owes [] := Ledger.owes_nil_iff.mpr Ledger.settled_empty
  rw [connectInet_snd]
  refine ⟨fun h => htried ▸ h.stops, fun hfirst => ?_⟩
  rcases List.eq_nil_or_concat rs with rfl | ⟨init, last, rfl⟩
  · exact ⟨by simp, hstart, by simp⟩
  have hstops := htried ▸ hfirst
  rw [List.concat_eq_append] at hfirst hstops ⊢
  rw [List.dropLast_concat] at hfirst
  rw [List.foldl_concat] at hstops ⊢
  have howes : (init.foldl (tryAddress flags) {}).Owes _ := owes_connected hstart
  rw [foldl_of_not_connects hfirst hstart] at howes
  have hiff : (∃ r ∈ init ++ [last], Connects flags r) ↔ Connects flags last := by
    simp only [List.mem_append, List.mem_singleton]
    constructor
    · rintro ⟨r, hr | rfl, h⟩
      · exact absurd h (hfirst r hr)
      · exact h
    · exact fun h => ⟨last, Or.inr rfl, h⟩
  by_cases h : Connects flags last
  · rw [tryAddress_of_connects h] at hstops ⊢
    exact ⟨iff_of_true ⟨_, List.mem_cons_self, rfl⟩ (hiff.mpr h), howes.acquire, hstops⟩
  · obtain ⟨hlast, hnone, -⟩ := tryAddress_of_not_connects h howes
    refine ⟨iff_of_false ?_ (mt hiff.mp h), ?_, hstops⟩
    · rintro ⟨k, -, hk⟩
      simp [hnone] at hk
    · rw [hnone]
      exact hlast

/-- **A connection is lost**: the first address connects and the second one refuses. The call fails,
and the descriptor that is connected stays open. -/
theorem connection_lost :
    ∃ r r' : Addrinfo, Connects ⟨false, false⟩ r ∧ ¬Connects ⟨false, false⟩ r' ∧
      diodSockConnectInet ⟨false, false⟩ (.ok [r, r']) =
        (some (.failed 111 "connect"),
          { next := 2, released := [1], errnum := 111, errmsg := some "connect", tried := 2,
            connected := [0] }) :=
  ⟨⟨.inet6, none, fun _ => none, none⟩, ⟨.inet, none, fun _ => none, some 111⟩,
    by decide, by decide, rfl⟩

end Connecting

end Diod
