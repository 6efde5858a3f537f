import Diod.Lib.Runs
import Diod.Npfs.World

/-!
# The cache of users

`user.c` keeps the users that it has looked up for a minute, in a list that is searched by
uid or by name. What is in the list came from a lookup of either kind, so **an entry answers a
question that was not asked when it was made**. With a user database in which a uid has one
name that is right: the entry is what the database would say to either question
(`Diod.Usercache.Known`).

Without a user database (`SRV_FLAGS_NOUSERDB`) users are made up from a uid, with the uid in
decimal as their name, and by name there is only `root`. There an entry that was made up for a
uid is found by its name, which without the cache is refused (`Diod.usercache_same_iff`).
-/

namespace Diod

/-- `struct passwd` -/
structure Passwd where
  name : Bytes
  (uid gid : UInt32)

/-- The user database, as the C library shows it. -/
structure Userdb where
  /-- `getpwuid_r`: an error, no user, or the user. -/
  getpwuid : UInt32 → Except ℕ (Option Passwd)
  /-- `getpwnam_r` -/
  getpwnam : Bytes → Except ℕ (Option Passwd)
  /-- `getgrouplist` -/
  getgrouplist : Bytes → UInt32 → Option (List UInt32)

/-- **Each uid has one name**: a user is found by its uid and by its name. -/
structure Userdb.OneName (db : Userdb) : Prop where
  uid : ∀ {uid pw}, db.getpwuid uid = .ok (some pw) →
    pw.uid = uid ∧ db.getpwnam pw.name = .ok (some pw)
  name : ∀ {name pw}, db.getpwnam name = .ok (some pw) →
    pw.name = name ∧ db.getpwuid pw.uid = .ok (some pw)

/-- A user in the cache, with the time of its lookup. -/
structure Cuser extends Npuser where
  t : ℤ

/-- The list of `Npusercache`. -/
abbrev Usercache : Type := List Cuser

/-! ### New users -/

/-- `"root"` -/
def rootName : Bytes := [114, 111, 111, 116]

/-- A number in decimal. -/
def decimal (n : ℕ) : Bytes := (Nat.toDigits 10 n).map fun c => c.val.toUInt8

/-- `"%d"` of a uid, which is taken for a signed number. -/
def uidString (uid : UInt32) : Bytes :=
  if uid.toNat < 2 ^ 31 then decimal uid.toNat else 45 :: decimal (2 ^ 32 - uid.toNat)

/-- `_alloc_user`. Root has no supplementary groups. -/
def allocUser (db : Userdb) (now : ℤ) (pwd : Passwd) : Except ℕ Cuser :=
  if pwd.uid ≠ 0 then
    match db.getgrouplist pwd.name pwd.gid with
    | some sg => .ok { uname := pwd.name, uid := pwd.uid, gid := pwd.gid, sg, t := now }
    | none => .error EPERM
  else .ok { uname := pwd.name, uid := pwd.uid, gid := pwd.gid, sg := [], t := now }

/-- `_alloc_nouserdb` for a uid, from `snprintf` on. -/
def allocUid (now : ℤ) (uid : UInt32) : Cuser where
  -- the made-up name of a uid goes into the cache like any other
  uname := if uid ≠ 0 then uidString uid else rootName
  uid := uid
  gid := uid
  sg := [uid]
  t := now

/-- `_alloc_nouserdb` -/
def allocNouserdb (now : ℤ) (uid : UInt32) : Option Bytes → Except ℕ Cuser
  | none => .ok (allocUid now uid)
  | some name => if name ≠ rootName then .error EPERM else .ok (allocUid now 0)

namespace Usercache

variable (S : Npsrv) (db : Userdb)

/-- The entry of the database, if there is one. -/
def ofEntry (now : ℤ) : Except ℕ (Option Passwd) → Except ℕ Cuser
  | .error e => .error e
  | .ok none => .error EPERM
  | .ok (some pwd) => allocUser db now pwd

/-- `_real_lookup_byuid` -/
def realLookupByuid (now : ℤ) (uid : UInt32) : Except ℕ Cuser :=
  if S.nouserdb then allocNouserdb now uid none else ofEntry db now (db.getpwuid uid)

/-- `_real_lookup_byname` -/
def realLookupByname (now : ℤ) (uname : Bytes) : Except ℕ Cuser :=
  if S.nouserdb then allocNouserdb now NONUNAME (some uname)
  else ofEntry db now (db.getpwnam uname)

/-! ### The cache -/

/-- `uc->ttl` -/
def ttl : ℤ := 60

/-- `_usercache_expire` -/
def expire (now : ℤ) (uc : Usercache) : Usercache := uc.filter fun u => ¬ ttl ≤ now - u.t

/-- `_usercache_lookup`, in what is left after `_usercache_expire`. -/
def lookup (uname : Option Bytes) (uid : UInt32) (uc : Usercache) : Option Cuser :=
  uc.find? fun u => match uname with
    | none => uid = u.uid
    | some name => name = u.uname

/-- What is found, or else a new user, which is then put into the cache. -/
def orAdd (found : Option Cuser) (new : Except ℕ Cuser) (uc : Usercache) :
    Except ℕ Npuser × Usercache :=
  match found, new with
  | some u, _ => (.ok u.toNpuser, uc)
  | none, .ok u => (.ok u.toNpuser, u :: uc)
  | none, .error e => (.error e, uc)

/-- `np_uname2user` -/
def npUname2user (now : ℤ) (uname : Bytes) (uc : Usercache) : Except ℕ Npuser × Usercache :=
  orAdd (lookup (some uname) NONUNAME (expire now uc)) (realLookupByname S db now uname)
    (expire now uc)

/-- `np_uid2user` -/
def npUid2user (now : ℤ) (uid : UInt32) (uc : Usercache) : Except ℕ Npuser × Usercache :=
  orAdd (lookup none uid (expire now uc)) (realLookupByuid S db now uid) (expire now uc)

/-- `np_usercache_flush` -/
def npUsercacheFlush : Usercache := []

/-- `np_attach2user` -/
def npAttach2user (now : ℤ) (uname : Bytes) (nUname : UInt32) (uc : Usercache) :
    Except ℕ Npuser × Usercache :=
  if nUname ≠ NONUNAME then npUid2user S db now nUname uc
  else if uname.length = 0 then (.error EIO, uc)
  else npUname2user S db now (cstr uname) uc

end Usercache

/-! ### Histories -/

/-- A lookup of a user. -/
inductive Userlookup where
  | uid (uid : UInt32)
  | uname (uname : Bytes)
  | attach (uname : Bytes) (nUname : UInt32)

/-- What is done to the cache. -/
inductive Userop where
  | lookup (l : Userlookup)
  | expire
  | flush

namespace Usercache

variable (S : Npsrv) (db : Userdb)

/-- A lookup. -/
def run (now : ℤ) : Userlookup → Usercache → Except ℕ Npuser × Usercache
  | .uid uid, uc => npUid2user S db now uid uc
  | .uname uname, uc => npUname2user S db now uname uc
  | .attach uname nUname, uc => npAttach2user S db now uname nUname uc

/-- The cache after something is done at some time. -/
def step (uc : Usercache) : ℤ × Userop → Option Usercache
  | (now, .lookup l) => some (run S db now l uc).2
  | (now, .expire) => some (expire now uc)
  | (_, .flush) => some npUsercacheFlush

end Usercache

/-- The name by which a user is looked up, if it is not by its uid. -/
def Userlookup.byName : Userlookup → Option Bytes
  | .uid _ => none
  | .uname s => some s
  | .attach s n => if n ≠ NONUNAME ∨ s.length = 0 then none else some (cstr s)

/-- **What comes of a lookup**: the name, the uid and the gid of the user, or failure. -/
def outcome : Except ℕ Npuser → Option (Bytes × UInt32 × UInt32)
  | .ok u => some (u.uname, u.uid, u.gid)
  | .error _ => none

/-! ### What is in the cache -/

theorem le_of_mem_decimal {n : ℕ} {b : UInt8} (h : b ∈ decimal n) : b ≤ 57 := by
  obtain ⟨c, hc, rfl⟩ := List.mem_map.mp h
  have hd := Nat.isDigit_of_mem_toDigits (by decide) (by decide) hc
  rw [Char.isDigit, Bool.and_eq_true, decide_eq_true_eq, decide_eq_true_eq] at hd
  -- a digit is one byte, so nothing is lost
  have hc : c.val.toNat ≤ 57 := UInt32.le_iff_toNat_le.mp hd.2
  rw [UInt8.le_iff_toNat_le, UInt32.toNat_toUInt8, Nat.mod_eq_of_lt (by omega)]
  exact hc

/-- No made-up name is `root`. -/
theorem uidString_ne_root (uid : UInt32) : uidString uid ≠ rootName := by
  intro h
  -- its last letter is neither a digit nor a minus sign
  have hm : (116 : UInt8) ∈ uidString uid := h ▸ by decide
  have hn : ∀ n, (116 : UInt8) ∉ decimal n := fun n hm => absurd (le_of_mem_decimal hm) (by decide)
  rw [uidString] at hm
  split at hm
  · exact hn _ hm
  · exact hn _ ((List.mem_cons.mp hm).resolve_left (by decide))

namespace Usercache

variable {S : Npsrv} {db : Userdb} {uc uc' : Usercache} {now : ℤ} {u : Cuser}

/-- What comes of a lookup behind the cache. -/
def fresh (r : Except ℕ Cuser) : Option (Bytes × UInt32 × UInt32) := outcome (r.map (·.toNpuser))

/-- **An entry is what a lookup behind the cache would give**, by its uid, and by its name if
there is a user database. -/
structure Known (S : Npsrv) (db : Userdb) (u : Cuser) : Prop where
  byuid : ∀ now, fresh (realLookupByuid S db now u.uid) = some (u.uname, u.uid, u.gid)
  byname : S.nouserdb = false → ∀ now,
    fresh (realLookupByname S db now u.uname) = some (u.uname, u.uid, u.gid)
  root : S.nouserdb = true → u.uname = rootName → u.uid = 0

/-- The time of a lookup does not matter. -/
theorem fresh_allocUser (now now' : ℤ) (pwd : Passwd) :
    fresh (allocUser db now pwd) = fresh (allocUser db now' pwd) := by
  unfold allocUser
  split
  · split <;> rfl
  · rfl

variable {pwd : Passwd}

theorem allocUser_ok (h : allocUser db now pwd = .ok u) :
    u.uname = pwd.name ∧ u.uid = pwd.uid ∧ u.gid = pwd.gid := by
  unfold allocUser at h
  split at h
  · split at h
    · cases h
      exact ⟨rfl, rfl, rfl⟩
    · cases h
  · cases h
    exact ⟨rfl, rfl, rfl⟩

theorem known_allocUid (hS : S.nouserdb = true) (now : ℤ) (uid : UInt32) :
    Known S db (allocUid now uid) where
  byuid now' := by
    rw [realLookupByuid, if_pos hS]
    rfl
  byname hn := by
    rw [hS] at hn
    cases hn
  root _ hr := by
    by_contra h0
    have h0 : uid ≠ 0 := h0
    rw [allocUid, if_pos h0] at hr
    exact uidString_ne_root uid hr

/-- An entry of the database that was made a user. -/
theorem known_allocUser (hS : S.nouserdb = false)
    (hu : db.getpwuid pwd.uid = .ok (some pwd)) (hn : db.getpwnam pwd.name = .ok (some pwd))
    (h : allocUser db now pwd = .ok u) : Known S db u := by
  obtain ⟨h₁, h₂, h₃⟩ := allocUser_ok h
  have hf : ∀ now', fresh (allocUser db now' pwd) = some (u.uname, u.uid, u.gid) := fun now' => by
    rw [fresh_allocUser now' now, h]
    rfl
  refine ⟨fun now' => ?_, fun _ now' => ?_, fun hS' => ?_⟩
  · rw [realLookupByuid, hS, h₂, hu]
    exact h₂ ▸ hf now'
  · rw [realLookupByname, hS, h₁, hn]
    exact h₁ ▸ hf now'
  · rw [hS] at hS'
    cases hS'

variable (hdb : S.nouserdb = true ∨ db.OneName)

include hdb

theorem known_byuid {uid : UInt32} (h : realLookupByuid S db now uid = .ok u) : Known S db u := by
  rw [realLookupByuid] at h
  rcases hS : S.nouserdb with _ | _
  · -- an error of the database, no entry, and an entry
    have hone := hdb.resolve_left (by simp [hS])
    simp only [hS, Bool.false_eq_true, if_false] at h
    rcases hp : db.getpwuid uid with e | _ | pwd
    · rw [hp] at h
      cases h
    · rw [hp] at h
      cases h
    · rw [hp] at h
      obtain ⟨rfl, hn⟩ := hone.uid hp
      exact known_allocUser hS hp hn h
  · simp only [hS, if_true] at h
    cases h
    exact known_allocUid hS now uid

theorem known_byname {uname : Bytes} (h : realLookupByname S db now uname = .ok u) :
    Known S db u := by
  rw [realLookupByname] at h
  rcases hS : S.nouserdb with _ | _
  · have hone := hdb.resolve_left (by simp [hS])
    simp only [hS, Bool.false_eq_true, if_false] at h
    rcases hp : db.getpwnam uname with e | _ | pwd
    · rw [hp] at h
      cases h
    · rw [hp] at h
      cases h
    · rw [hp] at h
      obtain ⟨rfl, hu⟩ := hone.name hp
      exact known_allocUser hS hu hp h
  · simp only [hS, if_true, allocNouserdb] at h
    split at h
    · cases h
    · cases h
      exact known_allocUid hS now 0

omit hdb

/-- **All entries are so.** -/
def Sound (S : Npsrv) (db : Userdb) (uc : Usercache) : Prop := ∀ u ∈ uc, Known S db u

theorem Sound.expire (h : Sound S db uc) (now : ℤ) : Sound S db (uc.expire now) :=
  fun u hu => h u (List.mem_of_mem_filter hu)

theorem Sound.orAdd (h : Sound S db uc) (found : Option Cuser) {new : Except ℕ Cuser}
    (hn : ∀ u, new = .ok u → Known S db u) : Sound S db (orAdd found new uc).2 := by
  rcases found with _ | u
  · rcases new with e | u
    · exact h
    · exact List.forall_mem_cons.mpr ⟨hn u rfl, h⟩
  · exact h

include hdb

theorem Sound.run (h : Sound S db uc) (now : ℤ) (l : Userlookup) :
    Sound S db (run S db now l uc).2 := by
  have huid : ∀ uid, Sound S db (npUid2user S db now uid uc).2 := fun uid =>
    (h.expire now).orAdd _ fun _ => known_byuid hdb
  have hname : ∀ uname, Sound S db (npUname2user S db now uname uc).2 := fun uname =>
    (h.expire now).orAdd _ fun _ => known_byname hdb
  rcases l with uid | uname | ⟨uname, nUname⟩
  · exact huid uid
  · exact hname uname
  · -- an attach looks up the uid, or the name, or fails at once
    rw [Usercache.run, npAttach2user]
    split
    · exact huid nUname
    · split
      · exact h
      · exact hname _

theorem sound_of_reaches (h : Reaches (step S db) (fun _ _ => True) [] uc) : Sound S db uc := by
  refine h.invariant (fun u hu => by cases hu) fun uc uc' a hi _ hs => ?_
  obtain ⟨now, a⟩ := a
  rcases a with l | _ | _
  · obtain rfl := Option.some.inj hs
    exact hi.run hdb now l
  · obtain rfl := Option.some.inj hs
    exact hi.expire now
  · obtain rfl := Option.some.inj hs
    intro u hu
    cases hu

omit hdb

/-! ### With the cache and without -/

theorem outcome_orAdd_none (new : Except ℕ Cuser) (uc : Usercache) :
    outcome (orAdd none new uc).1 = fresh new := by
  rcases new with e | u <;> rfl

theorem outcome_uid (h : Sound S db uc) (now : ℤ) (uid : UInt32) :
    outcome (npUid2user S db now uid uc).1 = fresh (realLookupByuid S db now uid) := by
  rw [npUid2user]
  rcases hf : lookup none uid (uc.expire now) with _ | u
  · exact outcome_orAdd_none ..
  · -- what is found is an entry, and every entry is known by its uid
    have hk := h.expire now u (List.mem_of_find?_eq_some hf)
    obtain rfl : uid = u.uid := by simpa using List.find?_some hf
    exact (hk.byuid now).symm

theorem outcome_name_iff (h : Sound S db uc) (now : ℤ) (name : Bytes) :
    outcome (npUname2user S db now name uc).1 = fresh (realLookupByname S db now name) ↔
      ¬ (S.nouserdb = true ∧ name ≠ rootName ∧ ∃ u ∈ uc.expire now, u.uname = name) := by
  rw [npUname2user]
  rcases hf : lookup (some name) NONUNAME (uc.expire now) with _ | u
  · rw [outcome_orAdd_none]
    refine iff_of_true rfl ?_
    rintro ⟨-, -, u, hu, hn⟩
    exact List.find?_eq_none.mp hf u hu (by simp [hn])
  · have hm := List.mem_of_find?_eq_some hf
    have hk := h.expire now u hm
    obtain rfl : name = u.uname := by simpa using List.find?_some hf
    have ho : outcome (orAdd (some u) (realLookupByname S db now u.uname) (uc.expire now)).1 =
        some (u.uname, u.uid, u.gid) := rfl
    rw [ho]
    rcases hS : S.nouserdb with _ | _
    · exact iff_of_true (hk.byname hS now).symm (by simp)
    · -- without a database only root is found by name
      have hn : realLookupByname S db now u.uname =
          allocNouserdb now NONUNAME (some u.uname) := if_pos hS
      rw [hn, allocNouserdb]
      by_cases hr : u.uname = rootName
      · -- the entry for root is the one a lookup gives
        have hu := hk.byuid now
        rw [hk.root hS hr, realLookupByuid, if_pos hS] at hu
        rw [if_neg (not_not.mpr hr), hk.root hS hr]
        exact iff_of_true hu.symm fun h => h.2.1 hr
      · -- the lookup fails behind the cache, and in it there is an entry
        rw [if_pos hr]
        refine iff_of_false (fun he => ?_) fun h => h ⟨rfl, hr, u, hm, rfl⟩
        cases he

end Usercache

open Usercache

/-- **A lookup gives what it would give with an empty cache**, after anything that was done to
the cache, exactly if it is not one by a made-up name that is in the cache: on a server
without a user database, for a name that is not `root`. -/
theorem usercache_same_iff {S : Npsrv} {db : Userdb} (hdb : S.nouserdb = true ∨ db.OneName)
    {uc : Usercache} (h : Reaches (step S db) (fun _ _ => True) [] uc) (now : ℤ)
    (l : Userlookup) :
    outcome (run S db now l uc).1 = outcome (run S db now l []).1 ↔
      ¬ (S.nouserdb = true ∧ ∃ name, l.byName = some name ∧ name ≠ rootName ∧
        ∃ u ∈ expire now uc, u.uname = name) := by
  have hs := sound_of_reaches hdb h
  have h0 : Sound S db [] := fun u hu => by cases hu
  have huid : ∀ uid, outcome (npUid2user S db now uid uc).1 =
      outcome (npUid2user S db now uid []).1 := fun uid =>
    (outcome_uid hs now uid).trans (outcome_uid h0 now uid).symm
  have hname : ∀ name, outcome (npUname2user S db now name uc).1 =
      outcome (npUname2user S db now name []).1 ↔
      ¬ (S.nouserdb = true ∧ name ≠ rootName ∧ ∃ u ∈ expire now uc, u.uname = name) := by
    intro name
    rw [(outcome_name_iff h0 now name).mpr (by simp [expire]), outcome_name_iff hs]
  have hone : ∀ name : Bytes, (∃ n, some name = some n ∧ n ≠ rootName ∧
      ∃ u ∈ expire now uc, u.uname = n) ↔
      name ≠ rootName ∧ ∃ u ∈ expire now uc, u.uname = name := fun name => by
    simp only [Option.some.injEq, exists_eq_left']
  rcases l with uid | name | ⟨name, n⟩
  · exact iff_of_true (huid uid) (by simp [Userlookup.byName])
  · rw [Userlookup.byName, hone]
    exact hname name
  · rw [run, run, Usercache.npAttach2user, Usercache.npAttach2user, Userlookup.byName]
    by_cases hn : n ≠ NONUNAME
    · rw [if_pos hn, if_pos hn, if_pos (.inl hn)]
      exact iff_of_true (huid n) (by simp)
    · rw [if_neg hn, if_neg hn]
      by_cases hl : name.length = 0
      · rw [if_pos hl, if_pos hl, if_pos (.inr hl)]
        exact iff_of_true rfl (by simp)
      · rw [if_neg hl, if_neg hl, if_neg (not_or.mpr ⟨hn, hl⟩)]
        rw [hone]
        exact hname (cstr name)

/-- A server without a user database. -/
def nodbSrv : Npsrv := { nouserdb := true, conf := { authRequired := false, exports := [] } }

/-- No user at all. -/
def emptyDb : Userdb := ⟨fun _ => .ok none, fun _ => .ok none, fun _ _ => none⟩

/-- Root by its name, when a user is in the cache. -/
theorem usercache_same_root : ∃ uc : Usercache,
    Reaches (Usercache.step nodbSrv emptyDb) (fun _ _ => True) [] uc ∧ uc ≠ [] ∧
    outcome (Usercache.run nodbSrv emptyDb 10 (.uname rootName) uc).1 =
      outcome (Usercache.run nodbSrv emptyDb 10 (.uname rootName) []).1 := by
  have hr : Reaches (Usercache.step nodbSrv emptyDb) (fun _ _ => True) [] [allocUid 0 1000] :=
    .tail (a := (0, .lookup (.uid 1000))) .refl trivial rfl
  refine ⟨_, hr, by simp, (usercache_same_iff (.inl rfl) hr 10 (.uname rootName)).mpr ?_⟩
  rintro ⟨-, name, hn, hne, -⟩
  exact hne (Option.some.inj hn).symm

/-- **A made-up name is found**: after a lookup of the uid 1000 the name `1000` is that of a
user, and without it there is no such user. -/
theorem usercache_finds_number : ∃ uc : Usercache,
    Reaches (Usercache.step nodbSrv emptyDb) (fun _ _ => True) [] uc ∧
    outcome (Usercache.run nodbSrv emptyDb 10 (.uname [49, 48, 48, 48]) uc).1 =
      some ([49, 48, 48, 48], 1000, 1000) ∧
    outcome (Usercache.run nodbSrv emptyDb 10 (.uname [49, 48, 48, 48]) []).1 = none := by
  refine ⟨[allocUid 0 1000], ?_, by decide +kernel, by decide +kernel⟩
  exact .tail (a := (0, .lookup (.uid 1000))) .refl trivial rfl

end Diod
