import Diod.Npfs.Confined
import Diod.Wire.RoundTrip

/-!
# Room for a reply

`np_read` and `np_readdir` are told how many bytes of data the client wants, and compare
that, with the size of the headers, with the `msize` of the connection before anything is
allocated. The backend then writes that many bytes into the reply at most.

`np_read` adds in 64 bits. **`np_readdir` adds in 32**, and a count close to 2³² passes:
then the size of the reply wraps around as well, and a few bytes are allocated for what
the backend is told are four gigabytes (`Diod.readdir_overruns`). All other counts are
safe (`Diod.replies_fit_iff`).
-/

namespace Diod

open Prog

variable {σ : Type} {H : Host σ} {S : Npsrv} {w w' : World σ} {msize count : UInt32}

/-! ### Packets -/

/-- **There is room for a reply**: when memory can be had, the packet is made, is at most
`msize` bytes long, has an area of `count` bytes for the data, and can be cut to any part of
them. -/
def Room (msize count : UInt32) (u : UInt32 → Option ℤ → Fcall Npstr (Option ℤ))
    (create : Malloc → UInt32 → Option Npfcall) (cut : Npfcall → UInt32 → Option Npfcall) : Prop :=
  ∀ junk, ∃ fc data, create (some junk) count = some fc ∧ fc.u = u count data ∧
    fc.size.toNat = fc.pkt.length ∧ fc.pkt.length ≤ msize.toNat ∧
    Inside fc.pkt.length data count.toNat ∧
    ∀ n ≤ count, ∃ fc', cut fc n = some fc' ∧ fc'.size.toNat ≤ msize.toNat ∧
      fc'.pkt.length = fc.pkt.length

/-- Room for a reply to `Tread`. A file of the server itself may be shorter than `count`. -/
def RoomRread (msize count : UInt32) : Prop :=
  ∀ n ≤ count, Room msize n .rread npAllocRread npSetRreadCount

/-- Room for a reply to `Treaddir`. -/
def RoomRreaddir (msize count : UInt32) : Prop :=
  Room msize count .rreaddir npCreateRreaddir npFinalizeRreaddir

variable {create : Malloc → UInt32 → Option Npfcall} {cut : Npfcall → UInt32 → Option Npfcall}
  {offset : UInt64} {rc : Msg}

/-- **The constructors make room**, as long as the size of the packet is an `int`. -/
theorem room_of_le (hm : msize.toNat < 2147483648) (hc : count.toNat + 11 ≤ msize.toNat)
    (t : MsgType) (u : UInt32 → Option ℤ → Fcall Npstr (Option ℤ))
    (hcreate : ∀ M, create M count = npCreate M (4 + count.toNat) t (do
      let count ← bufPutInt32 count
      return u count (← bufAlloc (asInt count.toNat))))
    (hcut : ∀ fc n d, fc.u = u count d → cut fc n = npSetCount fc count n fun count => u count d) :
    Room msize count u create cut := by
  intro junk
  have hlt : count.toNat + 11 < 2147483648 := by omega
  obtain ⟨r, hr, hfc⟩ := npCreate_alloc hlt t u junk
  have hsize : ∀ n : ℕ, n < 2147483648 → (UInt32.ofNat n).toNat = n := fun n hn =>
    UInt32.toNat_ofNat_of_lt' (by change _ < 4294967296; omega)
  refine ⟨_, some 11, (hcreate _).trans hfc, rfl, ?_, ?_, ⟨11, rfl, by omega, ?_⟩, fun n hn => ?_⟩
  · rw [hsize _ (by omega)]
    simp [hr]
    omega
  · simp [hr]
    omega
  · simp [hr]
    omega
  · have hle : n.toNat ≤ count.toNat := hn
    refine ⟨_, (hcut _ n _ rfl).trans (npSetCount_eq hr hlt hn _), ?_, by simp⟩
    rw [hsize _ (by omega)]
    omega

theorem roomRread_of_le (hm : msize.toNat < 2147483648)
    (hc : count.toNat + IOHDRSZ ≤ msize.toNat) : RoomRread msize count := by
  intro n hn
  have hle : n.toNat ≤ count.toNat := hn
  have hio : IOHDRSZ = 24 := rfl
  refine room_of_le hm (by omega) .rread .rread (fun _ => rfl) fun fc n d hu => ?_
  rw [npSetRreadCount, hu]

theorem roomRreaddir_of_le (hm : msize.toNat < 2147483648)
    (hc : count.toNat + DIRHDRSZ ≤ msize.toNat) : RoomRreaddir msize count := by
  have hdir : DIRHDRSZ = 24 := rfl
  refine room_of_le hm (by omega) .rreaddir .rreaddir (fun _ => rfl) fun fc n d hu => ?_
  rw [npFinalizeRreaddir, hu]

/-- There is never room for more than `msize` bytes. -/
theorem not_room {u : UInt32 → Option ℤ → Fcall Npstr (Option ℤ)}
    (h : msize.toNat < count.toNat) : ¬Room msize count u create cut := by
  intro hr
  obtain ⟨fc, data, -, -, -, hle, ⟨off, -, h0, hin⟩, -⟩ := hr fun _ => 0
  omega

/-! ### The two checks -/

/-- **What `np_read` has checked** when there is a reply. -/
theorem npRead_checked (h : npRead H S offset count w = (.ok rc, w')) :
    count.toNat + IOHDRSZ ≤ w.conn.msize.toNat := by
  obtain ⟨⟨p, f⟩, w₁, hpf, h₁⟩ := bind_eq_ok h
  obtain ⟨rfl, -, -⟩ := reqFid_eq_ok hpf
  obtain ⟨_, _, hread, h₂⟩ := bind_eq_ok h₁
  cases hread
  obtain ⟨_, _, hc, -⟩ := bind_eq_ok h₂
  exact not_lt.mp (failIf_eq_ok hc).1

/-- **What `np_readdir` has checked** when there is a reply. -/
theorem npReaddir_checked (h : npReaddir H S offset count w = (.ok rc, w')) :
    count + .ofNat DIRHDRSZ ≤ w.conn.msize := by
  obtain ⟨⟨p, f⟩, w₁, hpf, h₁⟩ := bind_eq_ok h
  obtain ⟨rfl, -, -⟩ := reqFid_eq_ok hpf
  obtain ⟨_, _, hread, h₂⟩ := bind_eq_ok h₁
  cases hread
  obtain ⟨_, _, hc, -⟩ := bind_eq_ok h₂
  exact UInt32.not_lt.mp (failIf_eq_ok hc).1

/-- The sum of 32 bits. -/
theorem toNat_add_dirhdrsz (count : UInt32) :
    (count + .ofNat DIRHDRSZ).toNat = (count.toNat + DIRHDRSZ) % 4294967296 := by
  rw [UInt32.toNat_add]
  rfl

/-- A connection that is about to list the directory of the server itself. -/
def ctlDir (msize : UInt32) : World Unit :=
  { World.new () with
    conn := { msize, pool := (FidPool.empty.create 1).update 0 fun f =>
      { f with type := Qtdir ||| Qttmp, aux := .ctl ⟨none, none⟩ } }
    rfid := some 0 }

theorem npReaddir_ctlDir (hc : ¬count + .ofNat DIRHDRSZ > msize) :
    (npReaddir (.steady fun _ => {}) exportA 0 count (ctlDir msize)).1 = .ok (.rreaddir 0 []) := by
  have h : npReaddir (.steady fun _ => {}) exportA 0 count (ctlDir msize) = dispatch
      (.steady fun _ => {}) exportA 0 ⟨1, 1, Qtdir ||| Qttmp, none, none, false, false,
        .ctl ⟨none, none⟩⟩ noGid (auxOp ctlAux 0 (Op.npCtlReaddir (.steady fun _ => {})
          exportA.ctlroot 0 count)) (Op.diodReaddir (.steady fun _ => {}) 0 count) (ctlDir msize) :=
    (bind_of_ok (reqFid_of_get rfl rfl)).trans
      ((read_bind _ _).trans (bind_of_ok (failIf_of_neg hc)))
  rw [h]
  rfl

/-- **Replies have room exactly as long as the sum of `np_readdir` does not wrap around.** -/
theorem replies_fit_iff (hmin : IOHDRSZ + 1 ≤ msize.toNat) (hm : msize.toNat < 2147483648) :
    ((∀ (σ : Type) (H : Host σ) (S : Npsrv) (offset : UInt64) (w w' : World σ) (rc : Msg),
        w.conn.msize = msize → npRead H S offset count w = (.ok rc, w') →
          RoomRread msize count) ∧
      ∀ (σ : Type) (H : Host σ) (S : Npsrv) (offset : UInt64) (w w' : World σ) (rc : Msg),
        w.conn.msize = msize → npReaddir H S offset count w = (.ok rc, w') →
          RoomRreaddir msize count) ↔
      count.toNat + DIRHDRSZ < 4294967296 := by
  have hsum := toNat_add_dirhdrsz count
  have hdir : DIRHDRSZ = 24 := rfl
  have hio : IOHDRSZ = 24 := rfl
  constructor
  · rintro ⟨-, h⟩
    by_contra hwrap
    have hlt := count.toNat_lt
    have hok : ¬count + .ofNat DIRHDRSZ > msize := by
      refine UInt32.not_lt.mpr (UInt32.le_iff_toNat_le.mpr ?_)
      omega
    refine not_room (by omega) (h Unit (.steady fun _ => {}) exportA 0 (ctlDir msize) _ _ rfl
      (Prod.ext (npReaddir_ctlDir hok) rfl))
  · refine fun hwrap => ⟨?_, ?_⟩
    · rintro σ H S offset w w' rc rfl h
      exact roomRread_of_le hm (npRead_checked h)
    · rintro σ H S offset w w' rc rfl h
      have hle := UInt32.le_iff_toNat_le.mp (npReaddir_checked h)
      rw [hsum, Nat.mod_eq_of_lt hwrap] at hle
      exact roomRreaddir_of_le hm hle

/-- 4096 bytes, under an `msize` of 8192. -/
theorem replies_fit_4096 : RoomRreaddir 8192 4096 :=
  ((replies_fit_iff (show _ ≤ (8192 : UInt32).toNat by decide) (by decide)).mpr
    (show (4096 : UInt32).toNat + _ < _ by decide)).2 Unit (.steady fun _ => {}) exportA 0
      (ctlDir 8192) _ _ rfl (Prod.ext (npReaddir_ctlDir (by decide)) rfl)

/-- A server that only exports its own files. -/
def exportCtl : Npsrv :=
  { conf := { authRequired := false, exports := [⟨ctlName, 0, none, none⟩] } }

/-- A directory has been listed. -/
def isListing : Res (Option Msg) → Bool
  | .ok (some (.rreaddir ..)) => true
  | _ => false

/-- **A directory is listed into 10 bytes**, the first of which for the data is behind them,
after a client has asked for 2³² - 1. -/
theorem readdir_overruns : (∃ w,
      runSteps (serveStep (.steady fun _ => {}) exportCtl) (World.new ())
        [(someUser, .tversion 8192 [57, 80, 50, 48, 48, 48, 46, 76]),
          (someUser, .tattach 1 NOFID [97] ctlName 1000)] = some w ∧ w.conn.msize = 8192 ∧
      isListing (serve (.steady fun _ => {}) exportCtl someUser
        (.treaddir 1 0 4294967295) w).1 = true) ∧
    (∃ fc, npCreateRreaddir (some fun _ => 0) 4294967295 = some fc ∧ fc.pkt.length = 10 ∧
      fc.u = .rreaddir 4294967295 (some 11)) ∧
    ¬RoomRreaddir 8192 4294967295 := by
  have hs : (runSteps (serveStep (.steady fun _ => {}) exportCtl) (World.new ())
      [(someUser, .tversion 8192 [57, 80, 50, 48, 48, 48, 46, 76]),
        (someUser, .tattach 1 NOFID [97] ctlName 1000)]).map (fun w => (w.conn.msize,
          isListing (serve (.steady fun _ => {}) exportCtl someUser
            (.treaddir 1 0 4294967295) w).1)) = some (8192, true) := by
    decide +kernel
  obtain ⟨w, hw, h⟩ := Option.map_eq_some_iff.mp hs
  obtain ⟨hm, hl⟩ := Prod.mk.inj h
  refine ⟨⟨w, hw, hm, hl⟩, ?_, not_room (by decide)⟩
  exact ⟨_, rfl, by decide +kernel, rfl⟩

end Diod
