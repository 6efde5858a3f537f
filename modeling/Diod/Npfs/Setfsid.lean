import Diod.Lib.Runs
import Diod.Npfs.Effects

/-!
# Credentials over many calls

A worker thread serves one user after the other, and `np_setfsid` gives it the
credentials of each. It does not ask the kernel what they are: it goes by **what the thread
believes** (`wt->fsuid`, `wt->fsgid`, `wt->privcap`), makes the calls that seem needed, and
writes `NONUNAME` where a call failed.

What a thread believes is right or `NONUNAME` at any time (`Diod.Wthread.Tracks`), whatever
calls failed before. What follows from success is therefore right for every user whose ids are
not themselves `NONUNAME` (`Diod.setfsid_right`); for such a user the thread takes *not known* to
be *known to be that*. Two other things do not follow. The supplementary groups go with a
change of the uid, and are not set where the uid seems to be right (`Diod.setfsid_groups_iff`). And
a thread that has lost track of an id does not find it again, since what the kernel returns
is compared with `NONUNAME` (`Diod.setfsid_recovers_iff`).
-/

namespace Diod

open Prog

variable {σ : Type}

/-- A call of `np_setfsid`, on a connection with some auth user, and what the system calls
that it makes do. -/
structure Fscall (σ : Type) where
  host : Host σ
  user : Npuser
  gidOverride : UInt32 := 0xffffffff
  authuser : UInt32 := NONUNAME

namespace Fscall

/-- The gid to set. -/
def gid (c : Fscall σ) : UInt32 :=
  if c.gidOverride = 0xffffffff then c.user.gid else c.gidOverride

/-- **A gid is given only if it may be used**: it is one of the user's groups, or the user or
the auth user is root, or there is no user database. -/
def Permitted (S : Npsrv) (c : Fscall σ) : Prop :=
  c.gidOverride ≠ 0xffffffff → c.gidOverride ∈ c.user.sg ∨ c.user.uid = 0 ∨ c.authuser = 0 ∨
    S.nouserdb = true

/-- The call. -/
def run (S : Npsrv) (c : Fscall σ) : Prog (World σ) Unit := fun w =>
  npSetfsid c.host S (some c.user) c.gidOverride
    { w with conn := { w.conn with authuser := c.authuser } }

/-- The thread after it, whether it succeeded or not. -/
def step (S : Npsrv) (w : World σ) (c : Fscall σ) : Option (World σ) := some (c.run S w).2

end Fscall

/-- **Every system call succeeds.** -/
def Host.Works (H : Host σ) : Prop := ∀ c s, (H.call c s).1.err = 0

theorem Host.not_works {H : Host σ} {c : HostCall} {s : σ} (h : (H.call c s).1.err ≠ 0) :
    ¬ H.Works :=
  fun hw => h (hw c s)

/-! ### The kernel -/

theorem Kcred.setfsuid_fsgid (k : Kcred) (uid : UInt32) :
    (k.setfsuid uid).fsgid = k.fsgid := by
  unfold Kcred.setfsuid
  split <;> rfl

theorem Kcred.setfsuid_ne {k : Kcred} (hk : k.fsuid ≠ NONUNAME) (uid : UInt32) :
    (k.setfsuid uid).fsuid ≠ NONUNAME := by
  rw [Kcred.setfsuid_fsuid]
  split
  · exact hk
  · assumption

theorem Kcred.setfsuid_of_ne {uid : UInt32} (h : uid ≠ NONUNAME) (k : Kcred) :
    k.setfsuid uid = { k with
      fsuid := uid, caps := if uid = 0 then true else if k.fsuid = 0 then false else k.caps } :=
  if_neg h

theorem Kcred.setfsgid_of_ne {gid : UInt32} (h : gid ≠ NONUNAME) (k : Kcred) :
    k.setfsgid gid = { k with fsgid := gid } :=
  if_neg h

theorem Kcred.setfsgid_self (k : Kcred) : k.setfsgid NONUNAME = k := if_pos rfl

/-! ### What the parts do -/

section Parts

variable (H : Host σ) (S : Npsrv)

/-- **What may come of setting the gid.** -/
inductive SwitchGid (gid : UInt32) (t t' : Wthread) : End → Prop
  /-- It seems to be set. -/
  | same : t.fsgid = gid → t' = t → SwitchGid gid t t' .ok
  | set : t.fsgid ≠ gid → t.k.fsgid = t.fsgid →
      t' = { t with fsgid := gid, k := t.k.setfsgid gid } → SwitchGid gid t t' .ok
  /-- The call failed, or the gid was not what it seemed to be. -/
  | lost (k : Kcred) : t.fsgid ≠ gid →
      (t.k.fsgid ≠ t.fsgid ∨ ¬ H.Works) →
      (k = t.k ∨ k = t.k.setfsgid gid) →
      t' = { t with fsgid := NONUNAME, k } → SwitchGid gid t t' .stop

theorem switchGid_spec (gid : UInt32) : (switchGid H gid).Does fun e w w' =>
    w'.conn = w.conn ∧ SwitchGid H gid w.wt w'.wt e := by
  intro w
  refine doesAt_read_bind ?_
  -- no call is made for a gid that the thread believes it has
  by_cases hg : w.wt.fsgid = gid
  · rw [Prog.when, if_neg (not_not.mpr hg)]
    exact ⟨rfl, .same hg rfl⟩
  · rw [Prog.when, if_pos hg]
    by_cases hr : (H.call (.setfsgid gid) w.b.host).1.err = 0
    · have hs : setfsgid H gid w = (.ok (.ok (w.wt.k.fsgid,
          (H.call (.setfsgid gid) w.b.host).1.num)), { w with
          b := { w.b with host := (H.call (.setfsgid gid) w.b.host).2 }
          wt := { w.wt with k := w.wt.k.setfsgid gid } }) := by
        simp only [setfsgid, bind_apply, credCall, hr]
        rfl
      rw [DoesAt, bind_of_ok hs]
      dsimp only
      -- `setfsgid` returns the old gid, and the thread compares it with what it believed
      by_cases hn : w.wt.k.fsgid = w.wt.fsgid
      · rw [if_neg (not_not.mpr hn)]
        exact ⟨rfl, .set hg hn rfl⟩
      · -- the kernel has the new gid by then
        rw [if_pos hn]
        exact ⟨rfl, .lost _ hg (.inl hn) (.inr rfl) rfl⟩
    · have hs : setfsgid H gid w = (.ok (.error (H.call (.setfsgid gid) w.b.host).1.err),
          { w with b := { w.b with host := (H.call (.setfsgid gid) w.b.host).2 } }) := by
        simp only [setfsgid, bind_apply, credCall]
        rw [if_pos hr]
        rfl
      rw [DoesAt, bind_of_ok hs]
      exact ⟨rfl, .lost _ hg (.inr (Host.not_works hr)) (.inl rfl) rfl⟩

/-- **What may come of setting the uid.** -/
inductive SwitchUid (u : Npuser) (t t' : Wthread) : End → Prop
  /-- It seems to be set. -/
  | same : t.fsuid = u.uid → t' = t → SwitchUid u t t' .ok
  | set : t.fsuid ≠ u.uid → t.k.fsuid = t.fsuid →
      t' = { t with
        fsuid := u.uid
        privcap := if u.uid = 0 then true else if t.fsuid = 0 then false else t.privcap
        k := { t.k.setfsuid u.uid with
          groups := if S.setgroups then u.sg else t.k.groups } } →
      SwitchUid u t t' .ok
  /-- A call failed, or the uid was not what it seemed to be. -/
  | lost : t.fsuid ≠ u.uid → (t.k.fsuid ≠ t.fsuid ∨ ¬ H.Works) →
      t'.fsuid = NONUNAME → t'.fsgid = t.fsgid → t'.k.fsgid = t.k.fsgid →
      (t'.k.fsuid = t.k.fsuid ∨ t'.k.fsuid = (t.k.setfsuid u.uid).fsuid) →
      SwitchUid u t t' .stop

/-- The state behind the call of `setfsuid`. -/
theorem followUid_spec (u : Npuser) : (followUid H S u).Does fun e w w' =>
    w'.conn = w.conn ∧
    ((e = .ok ∧ w'.wt = { w.wt with
        fsuid := u.uid
        privcap := if u.uid = 0 then true else if w.wt.fsuid = 0 then false else w.wt.privcap
        k := { w.wt.k with groups := if S.setgroups then u.sg else w.wt.k.groups } }) ∨
      (e = .stop ∧ ¬ H.Works ∧ w'.wt.fsuid = NONUNAME ∧
        w'.wt.fsgid = w.wt.fsgid ∧ w'.wt.k = w.wt.k)) := by
  intro w
  unfold DoesAt followUid switchGroups
  -- the groups are set only here, behind a change of the uid
  by_cases hg : S.setgroups = true
  · by_cases hr : (H.call (.setgroups u.sg) w.b.host).1.err = 0
    · simp [Prog.when, hg, bind_apply, setWthread, Prog.modify, credCall, hr]
    · simp [Prog.when, hg, bind_apply, setWthread, Prog.modify, credCall, hr, loseUid, fail,
        npUerror, Prog.stop, Res.ending, Host.not_works hr]
  · simp [Prog.when, hg, bind_apply, setWthread, Prog.modify, pure_apply]

theorem switchUid_spec (u : Npuser) : (switchUid H S u).Does fun e w w' =>
    w'.conn = w.conn ∧ SwitchUid H S u w.wt w'.wt e := by
  intro w
  refine doesAt_read_bind ?_
  by_cases hu : w.wt.fsuid = u.uid
  · rw [Prog.when, if_neg (not_not.mpr hu)]
    exact ⟨rfl, .same hu rfl⟩
  · rw [Prog.when, if_pos hu]
    by_cases hr : (H.call (.setfsuid u.uid) w.b.host).1.err = 0
    · set w₁ : World σ := { w with
          b := { w.b with host := (H.call (.setfsuid u.uid) w.b.host).2 }
          wt := { w.wt with k := w.wt.k.setfsuid u.uid } } with hw₁
      have hs : setfsuid H u.uid w = (.ok (.ok w.wt.k.fsuid), w₁) := by
        simp only [setfsuid, bind_apply, credCall, hr]
        rfl
      rw [DoesAt, bind_of_ok hs]
      dsimp only
      by_cases hn : w.wt.k.fsuid = w.wt.fsuid
      · rw [if_neg (not_not.mpr hn)]
        -- `setfsuid` leaves the groups
        have hgroups : w₁.wt.k.groups = w.wt.k.groups := by
          rw [hw₁]
          dsimp only [Kcred.setfsuid]
          split <;> rfl
        obtain ⟨hc, ⟨he, hw⟩ | ⟨he, hf, h₁, h₂, h₃⟩⟩ := followUid_spec H S u w₁
        · rw [he]
          refine ⟨hc, .set hu hn ?_⟩
          rw [hw, hgroups]
        · rw [he]
          exact ⟨hc, .lost hu (.inr hf) h₁ h₂ (by rw [h₃, hw₁, Kcred.setfsuid_fsgid])
            (.inr (by rw [h₃]))⟩
      · rw [if_pos hn]
        exact ⟨rfl, .lost hu (.inl hn) rfl rfl (Kcred.setfsuid_fsgid ..) (.inr rfl)⟩
    · have hs : setfsuid H u.uid w = (.ok (.error (H.call (.setfsuid u.uid) w.b.host).1.err),
          { w with b := { w.b with host := (H.call (.setfsuid u.uid) w.b.host).2 } }) := by
        simp only [setfsuid, bind_apply, credCall]
        rw [if_pos hr]
        rfl
      rw [DoesAt, bind_of_ok hs]
      exact ⟨rfl, .lost hu (.inr (Host.not_works hr)) rfl rfl rfl (.inl rfl)⟩

/-- **What may come of setting the capabilities.** -/
inductive SwitchCaps (auth : UInt32) (t t' : Wthread) : End → Prop
  /-- There is nothing to do. -/
  | same : (S.dacBypass = true → t.fsuid ≠ 0 →
      (t.privcap = true ↔ auth = 0)) → t' = t → SwitchCaps auth t t' .ok
  | set (val : Bool) : t.fsuid ≠ 0 → (val = true ↔ auth = 0) →
      t' = { t with privcap := val, k := { t.k with caps := val } } → SwitchCaps auth t t' .ok
  | failed : ¬ H.Works → t' = t → SwitchCaps auth t t' .stop

theorem chgPrivcap_spec (val : Bool) : (chgPrivcap H val).Does fun e w w' => w'.conn = w.conn ∧
    ((e = .ok ∧ w'.wt = { w.wt with privcap := val, k := { w.wt.k with caps := val } }) ∨
      (e = .stop ∧ ¬ H.Works ∧ w'.wt = w.wt)) := by
  intro w
  unfold DoesAt chgPrivcap
  by_cases hr : (H.call (.chgPrivcap val) w.b.host).1.err = 0
  · simp [Prog.when, failIf, bind_apply, setWthread, Prog.modify, credCall, hr, Res.ending,
      pure_apply]
  · simp [Prog.when, failIf, bind_apply, Prog.modify, credCall, hr, fail,
      npUerror, Prog.stop, Res.ending, Host.not_works hr]

theorem switchCaps_spec : (switchCaps H S).Does fun e w w' =>
    w'.conn = w.conn ∧ SwitchCaps H S w.conn.authuser w.wt w'.wt e := by
  intro w
  have hchg : ∀ val, w.wt.fsuid ≠ 0 → (val = true ↔ w.conn.authuser = 0) →
      (chgPrivcap H val).DoesAt (fun e w w' =>
        w'.conn = w.conn ∧ SwitchCaps H S w.conn.authuser w.wt w'.wt e) w := by
    intro val hu hv
    obtain ⟨hc, ⟨he, hw⟩ | ⟨he, hf, hw⟩⟩ := chgPrivcap_spec H val w
    · exact ⟨hc, by rw [he]; exact .set val hu hv hw⟩
    · exact ⟨hc, by rw [he]; exact .failed hf hw⟩
  refine doesAt_read_bind ?_
  rw [Prog.when]
  -- the capabilities are raised, or dropped, or are what they should be
  refine doesAt_ite (fun hd => doesAt_ite (fun h => ?_) fun h => ?_) fun hd => ?_
  · exact hchg true hd.2 (by simp [h.2])
  · rw [Prog.when]
    refine doesAt_ite (fun h' => ?_) fun h' => ?_
    · exact hchg false hd.2 (by simp [h'.2])
    · refine ⟨rfl, .same (fun _ _ => ?_) rfl⟩
      rcases hp : w.wt.privcap with _ | _ <;> simp_all
  · exact ⟨rfl, .same (fun hb hu => absurd ⟨hb, hu⟩ hd) rfl⟩

variable {H S} {t t' : Wthread} {u : Npuser} {gid auth : UInt32}

/-- What a thread believes when the parts succeed. -/
theorem SwitchGid.fsgid (h : SwitchGid H gid t t' .ok) : t'.fsgid = gid := by
  rcases h with ⟨hg, rfl⟩ | ⟨-, -, rfl⟩
  · exact hg
  · rfl

/-- The gid is all that changes. -/
theorem SwitchGid.rest (h : SwitchGid H gid t t' .ok) :
    t'.fsuid = t.fsuid ∧ t'.k.fsuid = t.k.fsuid ∧ t'.k.groups = t.k.groups := by
  rcases h with ⟨-, rfl⟩ | ⟨-, -, rfl⟩
  · exact ⟨rfl, rfl, rfl⟩
  · unfold Kcred.setfsgid
    split <;> exact ⟨rfl, rfl, rfl⟩

@[inherit_doc SwitchGid.fsgid]
theorem SwitchUid.ids (h : SwitchUid H S u t t' .ok) : t'.fsuid = u.uid ∧ t'.fsgid = t.fsgid := by
  rcases h with ⟨hu, rfl⟩ | ⟨-, -, rfl⟩
  · exact ⟨hu, rfl⟩
  · exact ⟨rfl, rfl⟩

@[inherit_doc SwitchGid.fsgid]
theorem SwitchCaps.ids (h : SwitchCaps H S auth t t' .ok) :
    t'.fsuid = t.fsuid ∧ t'.fsgid = t.fsgid ∧ t'.k.groups = t.k.groups ∧
    (S.dacBypass = true → t.fsuid ≠ 0 → (t'.privcap = true ↔ auth = 0)) := by
  rcases h with ⟨hp, rfl⟩ | ⟨val, -, hv, rfl⟩
  · exact ⟨rfl, rfl, rfl, hp⟩
  · exact ⟨rfl, rfl, rfl, fun _ _ => hv⟩

end Parts

/-! ### What a thread believes -/

/-- **What a thread believes is right, or not known.** The kernel has no id that is
`NONUNAME`, and root has the capabilities. -/
structure Wthread.Tracks (t : Wthread) : Prop where
  fsgid : t.fsgid = NONUNAME ∨ t.k.fsgid = t.fsgid
  fsuid : t.fsuid = NONUNAME ∨
    t.k.fsuid = t.fsuid ∧ t.k.caps = t.privcap ∧ (t.fsuid = 0 → t.privcap = true)
  kgid : t.k.fsgid ≠ NONUNAME
  kuid : t.k.fsuid ≠ NONUNAME

namespace Wthread.Tracks

variable {H : Host σ} {S : Npsrv} {t t' : Wthread} {e : End} {u : Npuser} {gid auth : UInt32}

/-- Where only the gid may change. -/
theorem of_gid (h : t.Tracks) (hu : t'.fsuid = t.fsuid)
    (hp : t'.privcap = t.privcap) (hku : t'.k.fsuid = t.k.fsuid) (hc : t'.k.caps = t.k.caps)
    (hg : t'.fsgid = NONUNAME ∨ t'.k.fsgid = t'.fsgid) (hkg : t'.k.fsgid ≠ NONUNAME) :
    t'.Tracks where
  fsgid := hg
  fsuid := by
    rw [hu, hp, hku, hc]
    exact h.fsuid
  kgid := hkg
  kuid := hku ▸ h.kuid

theorem switchGid (h : t.Tracks) (hs : SwitchGid H gid t t' e) : t'.Tracks := by
  have hset : ∀ k, (k = t.k ∨ k = t.k.setfsgid gid) →
      k.fsuid = t.k.fsuid ∧ k.caps = t.k.caps ∧ k.fsgid ≠ NONUNAME := by
    rintro k (rfl | rfl)
    · exact ⟨rfl, rfl, h.kgid⟩
    · -- the kernel refuses this gid, and the call does not say so
      rcases eq_or_ne gid NONUNAME with rfl | hg
      · rw [Kcred.setfsgid_self]
        exact ⟨rfl, rfl, h.kgid⟩
      · rw [Kcred.setfsgid_of_ne hg]
        exact ⟨rfl, rfl, hg⟩
  rcases hs with ⟨-, hw⟩ | ⟨-, -, hw⟩ | ⟨k, -, -, hk, hw⟩
  · rw [hw]
    exact h
  · obtain ⟨h₁, h₂, h₃⟩ := hset _ (.inr rfl)
    rw [hw]
    refine h.of_gid rfl rfl h₁ h₂ ?_ h₃
    -- a gid of `NONUNAME` is taken for one that is not known
    rcases eq_or_ne gid NONUNAME with hg | hg
    · exact .inl hg
    · exact .inr (by rw [Kcred.setfsgid_of_ne hg])
  · obtain ⟨h₁, h₂, h₃⟩ := hset k hk
    rw [hw]
    exact h.of_gid rfl rfl h₁ h₂ (.inl rfl) h₃

theorem switchUid (h : t.Tracks) (hs : SwitchUid H S u t t' e) : t'.Tracks := by
  rcases hs with ⟨-, hw⟩ | ⟨hne, hk, hw⟩ | ⟨-, -, hu, hg, hkg, hku⟩
  · rw [hw]
    exact h
  · rw [hw]
    refine ⟨?_, ?_, ?_, Kcred.setfsuid_ne h.kuid _⟩
    · dsimp only
      rw [Kcred.setfsuid_fsgid]
      exact h.fsgid
    · rcases eq_or_ne u.uid NONUNAME with hn | hn
      · exact .inl hn
      · -- the thread knew the uid, and knows what becomes of the capabilities
        obtain ⟨-, hc, -⟩ := h.fsuid.resolve_left fun hw => h.kuid (hk.trans hw)
        refine .inr ⟨by rw [Kcred.setfsuid_of_ne hn], ?_, fun h0 => if_pos h0⟩
        rw [Kcred.setfsuid_of_ne hn, hk, hc]
    · dsimp only
      rw [Kcred.setfsuid_fsgid]
      exact h.kgid
  · refine ⟨by rw [hg, hkg]; exact h.fsgid, .inl hu, hkg ▸ h.kgid, ?_⟩
    rcases hku with hku | hku
    · rw [hku]
      exact h.kuid
    · rw [hku]
      exact Kcred.setfsuid_ne h.kuid _

theorem switchCaps (h : t.Tracks) (hs : SwitchCaps H S auth t t' e) : t'.Tracks := by
  rcases hs with ⟨-, hw⟩ | ⟨val, hu, -, hw⟩ | ⟨-, hw⟩
  · rw [hw]
    exact h
  · rw [hw]
    exact ⟨h.fsgid, h.fsuid.imp_right fun hf => ⟨hf.1, rfl, fun h0 => absurd h0 hu⟩, h.kgid, h.kuid⟩
  · rw [hw]
    exact h

end Wthread.Tracks

/-! ### The call as a whole -/

namespace Fscall

variable {S : Npsrv} {c : Fscall σ} {w w' : World σ} {t t' : Wthread} {e : End}

/-- **What may come of a call**: it is refused, or it comes to an end in one of its three
parts. -/
inductive Outcome (S : Npsrv) (c : Fscall σ) (t t' : Wthread) : End → Prop
  | refused : ¬ c.Permitted S → t' = t → Outcome S c t t' .stop
  | gid : c.Permitted S → SwitchGid c.host c.gid t t' .stop → Outcome S c t t' .stop
  | uid (t₁ : Wthread) : c.Permitted S → SwitchGid c.host c.gid t t₁ .ok →
      SwitchUid c.host S c.user t₁ t' .stop → Outcome S c t t' .stop
  | caps (t₁ t₂ : Wthread) (e : End) : c.Permitted S → SwitchGid c.host c.gid t t₁ .ok →
      SwitchUid c.host S c.user t₁ t₂ .ok → SwitchCaps c.host S c.authuser t₂ t' e →
      Outcome S c t t' e

theorem fsidGid_of_permitted (hp : c.Permitted S) (hw : w.conn.authuser = c.authuser) :
    fsidGid S c.user c.gidOverride w = (.ok c.gid, w) := by
  rw [fsidGid, read_bind, failIf, Prog.when, if_neg]
  · rfl
  · rintro ⟨hg, hu, ha, hn, hsg⟩
    rw [hw] at ha
    rcases hp hg with h | h | h | h
    · exact hsg h
    · exact hu h
    · exact ha h
    · exact hn h

theorem fsidGid_of_not_permitted (hp : ¬ c.Permitted S) (hw : w.conn.authuser = c.authuser) :
    ∃ w', fsidGid S c.user c.gidOverride w = (.stop, w') ∧ w'.wt = w.wt := by
  rw [fsidGid, read_bind, failIf, Prog.when, if_pos]
  · exact ⟨_, rfl, rfl⟩
  · rw [Permitted] at hp
    push Not at hp
    rw [hw]
    simpa [and_assoc, and_comm, and_left_comm] using hp

theorem run_outcome (hS : S.setfsid = true) : (c.run S).Does fun e w w' =>
    c.Outcome S w.wt w'.wt e := by
  intro w
  set w₀ : World σ := { w with conn := { w.conn with authuser := c.authuser } } with hw₀
  have hrun : c.run S w = (switchIds c.host S c.gidOverride (some c.user) >>= fun _ =>
      switchCaps c.host S) w₀ := by
    rw [run, npSetfsid, Prog.when, if_pos hS]
  rw [DoesAt, hrun]
  by_cases hp : c.Permitted S
  · have hids : switchIds c.host S c.gidOverride (some c.user) w₀ =
        (switchGid c.host c.gid >>= fun _ => switchUid c.host S c.user) w₀ :=
      bind_of_ok (fsidGid_of_permitted hp rfl)
    rcases hg : switchGid c.host c.gid w₀ with ⟨r₁, w₁⟩
    obtain ⟨hc₁, h₁⟩ := (switchGid_spec c.host c.gid w₀).of_eq hg
    rcases r₁ with _ | _ | _
    · rcases hu : switchUid c.host S c.user w₁ with ⟨r₂, w₂⟩
      obtain ⟨hc₂, h₂⟩ := (switchUid_spec c.host S c.user w₁).of_eq hu
      rw [bind_of_ok hg, hu] at hids
      rcases r₂ with _ | _ | _
      · obtain ⟨-, h₃⟩ := switchCaps_spec c.host S w₂
        rw [hc₂, hc₁] at h₃
        rw [bind_of_ok hids]
        exact .caps _ _ _ hp h₁ h₂ h₃
      · rw [bind_of_stop hids]
        exact .uid _ hp h₁ h₂
      · rcases h₂
    · rw [bind_of_stop hg] at hids
      rw [bind_of_stop hids]
      exact .gid hp h₁
    · rcases h₁
  · -- nothing is called when the gid may not be used
    obtain ⟨w', hf, hw⟩ := fsidGid_of_not_permitted (w := w₀) hp rfl
    have hids : switchIds c.host S c.gidOverride (some c.user) w₀ = (.stop, w') := bind_of_stop hf
    rw [bind_of_stop hids]
    exact .refused hp hw

theorem Outcome.tracks (h : c.Outcome S t t' e) (ht : t.Tracks) : t'.Tracks := by
  rcases h with ⟨-, rfl⟩ | ⟨-, hg⟩ | ⟨t₁, -, hg, hu⟩ | ⟨t₁, t₂, _, -, hg, hu, hc⟩
  · exact ht
  · exact ht.switchGid hg
  · exact (ht.switchGid hg).switchUid hu
  · exact ((ht.switchGid hg).switchUid hu).switchCaps hc

end Fscall

/-- **A thread as it was made**, with whatever groups the server has. -/
def Wthread.Fresh (t : Wthread) : Prop :=
  ∃ euid egid groups, euid ≠ NONUNAME ∧ egid ≠ NONUNAME ∧
    t = { Wthread.new euid egid with k := { (Wthread.new euid egid).k with groups := groups } }

theorem Wthread.Fresh.tracks {t : Wthread} (h : t.Fresh) : t.Tracks := by
  obtain ⟨euid, egid, groups, hu, hg, rfl⟩ := h
  exact ⟨.inr rfl, .inr ⟨rfl, rfl, fun h0 => beq_iff_eq.mpr h0⟩, hg, hu⟩

section Runs

variable {S : Npsrv} {w₀ w w' : World σ} {c : Fscall σ}

theorem tracks_of_reaches (hS : S.setfsid = true) (h0 : w₀.wt.Fresh)
    (h : Reaches (Fscall.step S) (fun _ _ => True) w₀ w) : w.wt.Tracks := by
  refine h.invariant (I := fun w => w.wt.Tracks) h0.tracks fun w w' c hi _ hs => ?_
  obtain rfl := Option.some.inj hs
  exact (Fscall.run_outcome hS w).tracks hi

/-- A call that succeeds, of a thread that tracks its ids. -/
theorem Fscall.right_of_ok (hS : S.setfsid = true) (ht : w.wt.Tracks)
    (hu : c.user.uid ≠ NONUNAME) (hg : c.gid ≠ NONUNAME) (hok : c.run S w = (.ok (), w')) :
    w'.wt.k.fsuid = c.user.uid ∧ w'.wt.k.fsgid = c.gid ∧ c.Permitted S ∧
    (S.dacBypass = true → (w'.wt.k.caps = true ↔ c.user.uid = 0 ∨ c.authuser = 0)) := by
  have ho := (Fscall.run_outcome hS w).of_eq hok
  have ht' := ho.tracks ht
  -- it succeeds only at the end of the last part
  rcases ho with _ | _ | _ | ⟨t₁, t₂, _, hp, hgid, huid, hcaps⟩
  obtain ⟨hu₁, hg₁, -, hc⟩ := hcaps.ids
  have hfu : w'.wt.fsuid = c.user.uid := hu₁.trans huid.ids.1
  have hfg : w'.wt.fsgid = c.gid := (hg₁.trans huid.ids.2).trans hgid.fsgid
  -- what the thread believes is known, so it is what the kernel has
  obtain ⟨hku, hkc, hroot⟩ := ht'.fsuid.resolve_left (hfu ▸ hu)
  have hkg := ht'.fsgid.resolve_left (hfg ▸ hg)
  refine ⟨hku.trans hfu, hkg.trans hfg, hp, fun hd => ?_⟩
  rw [hkc]
  by_cases hz : c.user.uid = 0
  · exact iff_of_true (hroot (hfu.trans hz)) (.inl hz)
  · rw [or_iff_right hz]
    exact hc hd (by rwa [huid.ids.1])

/-- A server that switches ids and groups. -/
def fsidSrv : Npsrv :=
  { setfsid := true, setgroups := true, dacBypass := true,
    conf := { authRequired := false, exports := [] } }

/-- The user with this uid and these groups, the first of which is its own. -/
def fsidUser (uid gid : UInt32) (sg : List UInt32) : Npuser := ⟨[], uid, gid, gid :: sg⟩

/-- A call that goes well. -/
def goodCall (u : Npuser) : Fscall Unit := { host := .steady fun _ => {}, user := u }

/-- A call in which `setfsuid` fails. -/
def badCall (u : Npuser) : Fscall Unit where
  host := .steady fun
    | .setfsuid _ => { err := EPERM }
    | _ => {}
  user := u

theorem fresh_new : (World.new ()).wt.Fresh := ⟨0, 0, [], by decide, by decide, rfl⟩

theorem reaches_one (c : Fscall Unit) : Reaches (Fscall.step fsidSrv) (fun _ _ => True)
    (World.new ()) (c.run fsidSrv (World.new ())).2 :=
  .tail .refl trivial rfl

/-- **A call that succeeds leaves the thread with the right credentials**, after any calls
on the thread, for any users and with whatever system calls failing, if the ids to set are
not themselves `NONUNAME`. -/
theorem setfsid_right (hS : S.setfsid = true) (h0 : w₀.wt.Fresh)
    (h : Reaches (Fscall.step S) (fun _ _ => True) w₀ w) (hu : c.user.uid ≠ NONUNAME)
    (hg : c.gid ≠ NONUNAME) (hok : c.run S w = (.ok (), w')) :
    w'.wt.k.fsuid = c.user.uid ∧ w'.wt.k.fsgid = c.gid ∧ c.Permitted S ∧
    (S.dacBypass = true → (w'.wt.k.caps = true ↔ c.user.uid = 0 ∨ c.authuser = 0)) :=
  Fscall.right_of_ok hS (tracks_of_reaches hS h0 h) hu hg hok

/-- A user after root. -/
theorem setfsid_right_user : ∃ w w' : World Unit,
    Reaches (Fscall.step fsidSrv) (fun _ _ => True) (World.new ()) w ∧
    (goodCall (fsidUser 1000 100 [])).run fsidSrv w = (.ok (), w') ∧
    w'.wt.k.fsuid = 1000 ∧ w'.wt.k.fsgid = 100 ∧ w'.wt.k.caps = false := by
  have hok : ((goodCall (fsidUser 1000 100 [])).run fsidSrv
      ((goodCall (fsidUser 0 0 [])).run fsidSrv (World.new ())).2).1 = .ok () := by rfl
  have h := setfsid_right (S := fsidSrv) rfl fresh_new (reaches_one (goodCall (fsidUser 0 0 [])))
    (c := goodCall (fsidUser 1000 100 [])) (by decide) (by decide) (Prod.ext hok rfl)
  refine ⟨_, _, reaches_one _, Prod.ext hok rfl, h.1, h.2.1, ?_⟩
  have := (h.2.2.2 rfl).not.mpr (by decide)
  simpa using this

/-- **Not known is taken for known**: after a failure a thread that runs as root serves a user
with the uid `NONUNAME`. -/
theorem setfsid_takes_unknown : ∃ w w' : World Unit,
    Reaches (Fscall.step fsidSrv) (fun _ _ => True) (World.new ()) w ∧
    (goodCall (fsidUser NONUNAME 0 [])).run fsidSrv w = (.ok (), w') ∧
    w'.wt.k.fsuid = 0 ∧ (fsidUser NONUNAME 0 []).uid ≠ 0 := by
  have hok : ((goodCall (fsidUser NONUNAME 0 [])).run fsidSrv
      ((badCall (fsidUser 1000 0 [])).run fsidSrv (World.new ())).2).1 = .ok () := by rfl
  exact ⟨_, _, reaches_one (badCall (fsidUser 1000 0 [])), Prod.ext hok rfl, by decide +kernel,
    by decide⟩

/-- **The groups are the user's after a call that succeeds** exactly if they were before, or
the uid did not seem to be set. -/
theorem setfsid_groups_iff (hS : S.setfsid = true) (hG : S.setgroups = true)
    (hok : c.run S w = (.ok (), w')) :
    w'.wt.k.groups = c.user.sg ↔ w.wt.fsuid ≠ c.user.uid ∨ w.wt.k.groups = c.user.sg := by
  have ho := (Fscall.run_outcome hS w).of_eq hok
  rcases ho with _ | _ | _ | ⟨t₁, t₂, _, hp, hgid, huid, hcaps⟩
  obtain ⟨-, -, hgr, -⟩ := hcaps.ids
  rw [hgr, ← hgid.rest.1, ← hgid.rest.2.2]
  -- the uid seemed to be set, and the groups are left; or they are set with it
  rcases huid with ⟨hu, rfl⟩ | ⟨hu, -, rfl⟩
  · rw [or_iff_right (not_not.mpr hu)]
  · exact iff_of_true (if_pos hG) (.inl hu)

/-- A user, after another one. -/
theorem setfsid_groups_other : ∃ w w' : World Unit,
    Reaches (Fscall.step fsidSrv) (fun _ _ => True) (World.new ()) w ∧
    (goodCall (fsidUser 1000 100 [4])).run fsidSrv w = (.ok (), w') ∧
    w'.wt.k.groups = [100, 4] := by
  have hok : ((goodCall (fsidUser 1000 100 [4])).run fsidSrv
      ((goodCall (fsidUser 1001 100 [])).run fsidSrv (World.new ())).2).1 = .ok () := by rfl
  refine ⟨_, _, reaches_one (goodCall (fsidUser 1001 100 [])), Prod.ext hok rfl, ?_⟩
  exact (setfsid_groups_iff (S := fsidSrv) rfl rfl (Prod.ext hok rfl)).mpr
    (.inl (by decide +kernel))

/-- **A group that was taken away stays**: the user is looked up again, and has one group less. -/
theorem setfsid_keeps_groups : ∃ w w' : World Unit,
    Reaches (Fscall.step fsidSrv) (fun _ _ => True) (World.new ()) w ∧
    (goodCall (fsidUser 1000 100 [])).run fsidSrv w = (.ok (), w') ∧
    w'.wt.k.groups = [100, 4] ∧ (fsidUser 1000 100 []).sg = [100] := by
  have hok : ((goodCall (fsidUser 1000 100 [])).run fsidSrv
      ((goodCall (fsidUser 1000 100 [4])).run fsidSrv (World.new ())).2).1 = .ok () := by rfl
  exact ⟨_, _, reaches_one (goodCall (fsidUser 1000 100 [4])), Prod.ext hok rfl,
    by decide +kernel, rfl⟩

/-- **A call in which every system call succeeds does what it should** exactly if the thread
has not lost track of an id. -/
theorem setfsid_recovers_iff (hS : S.setfsid = true) (h0 : w₀.wt.Fresh)
    (h : Reaches (Fscall.step S) (fun _ _ => True) w₀ w) (hu : c.user.uid ≠ NONUNAME)
    (hg : c.gid ≠ NONUNAME) (hp : c.Permitted S) (hw : c.host.Works) :
    (∃ w', c.run S w = (.ok (), w') ∧ w'.wt.k.fsuid = c.user.uid ∧ w'.wt.k.fsgid = c.gid) ↔
      w.wt.fsuid ≠ NONUNAME ∧ w.wt.fsgid ≠ NONUNAME := by
  have ht := tracks_of_reaches hS h0 h
  constructor
  · rintro ⟨w', hok, -⟩
    rcases (Fscall.run_outcome hS w).of_eq hok with _ | _ | _ | ⟨t₁, t₂, _, -, hgid, huid, -⟩
    refine ⟨fun hn => ?_, fun hn => ?_⟩
    · -- the kernel's uid is not the one expected
      rcases huid with ⟨h₁, -⟩ | ⟨-, h₁, -⟩
      · exact hu (h₁.symm.trans (hgid.rest.1.trans hn))
      · rw [hgid.rest.1, hgid.rest.2.1] at h₁
        exact ht.kuid (h₁.trans hn)
    · rcases hgid with ⟨h₁, -⟩ | ⟨-, h₁, -⟩
      · exact hg (h₁.symm.trans hn)
      · exact ht.kgid (h₁.trans hn)
  · rintro ⟨hnu, hng⟩
    rcases hok : c.run S w with ⟨r, w'⟩
    have ho := (Fscall.run_outcome hS w).of_eq hok
    have hres : r = .ok () := by
      rcases r with _ | _ | _
      · rfl
      · rcases ho with ⟨hn, -⟩ | ⟨-, hgid⟩ | ⟨t₁, -, hgid, huid⟩ | ⟨t₁, t₂, _, -, -, -, hcaps⟩
        · exact absurd hp hn
        · rcases hgid with _ | _ | ⟨k, -, hf, -⟩
          exact (hf.elim (· (ht.fsgid.resolve_left hng)) (· hw)).elim
        · -- the old uid was what was believed, and no call has failed
          rcases huid with _ | _ | ⟨-, hf, -⟩
          rw [hgid.rest.1, hgid.rest.2.1] at hf
          exact (hf.elim (· (ht.fsuid.resolve_left hnu).1) (· hw)).elim
        · rcases hcaps with _ | _ | ⟨hf, -⟩
          exact absurd hw hf
      · rcases ho with _ | _ | _ | ⟨t₁, t₂, _, -, -, -, hcaps⟩
        rcases hcaps
    subst hres
    obtain ⟨h₁, h₂, -⟩ := Fscall.right_of_ok hS ht hu hg hok
    exact ⟨w', rfl, h₁, h₂⟩

/-- No call has failed. -/
theorem setfsid_recovers_unharmed : ∃ w w' : World Unit,
    Reaches (Fscall.step fsidSrv) (fun _ _ => True) (World.new ()) w ∧
    (goodCall (fsidUser 1000 100 [])).run fsidSrv w = (.ok (), w') := by
  have hw : (goodCall (fsidUser 1000 100 [])).host.Works := fun _ _ => rfl
  obtain ⟨w', hok, -⟩ := (setfsid_recovers_iff (S := fsidSrv) rfl fresh_new
    (reaches_one (goodCall (fsidUser 1001 100 []))) (c := goodCall (fsidUser 1000 100 []))
    (by decide) (by decide) (fun h => absurd rfl h) hw).mpr (by decide +kernel)
  exact ⟨_, w', reaches_one _, hok⟩

/-- **One failure is for good**: every system call of the next call succeeds, and it fails. -/
theorem setfsid_stays_lost : ∃ w w' : World Unit,
    Reaches (Fscall.step fsidSrv) (fun _ _ => True) (World.new ()) w ∧
    (goodCall (fsidUser 1000 0 [])).host.Works ∧
    (goodCall (fsidUser 1000 0 [])).run fsidSrv w = (.stop, w') ∧ w'.b.ecode = EPERM ∧
    ((goodCall (fsidUser 1000 0 [])).run fsidSrv w').1 = .stop := by
  have hok : ((goodCall (fsidUser 1000 0 [])).run fsidSrv
      ((badCall (fsidUser 1000 0 [])).run fsidSrv (World.new ())).2).1 = .stop := by rfl
  exact ⟨_, _, reaches_one (badCall (fsidUser 1000 0 [])), fun _ _ => rfl, Prod.ext hok rfl,
    by rfl, by rfl⟩

end Runs

end Diod
