import Diod.Npfs.Usercache
import Mathlib.Data.List.Count
import Mathlib.Data.List.Nodup

/-!
# Threads at the cache of users

A user is shared by the cache and by the fids of all connections, and is freed with its last
reference. The list of the cache is under `uc->lock`, the count of a user under a lock of its
own. `np_uid2user` and `np_uname2user` search the list under `uc->lock`, and **take the
reference for the caller after they have let go of it**. In between the user may be in the
cache with no other reference, and another thread may find that it has expired, or flush the
cache, and free it (`Diod.lookup_frees`).

As long as no thread drops the last reference to a user that another one has found and not
yet referenced, every count is the number of holders, plus one for the cache, and what a lookup
returns is not freed (`Diod.user_refs_right`).

What is done under `uc->lock` is one step here: all that other threads can do meanwhile is to
raise and to lower counts, and they can as well do so before or after.
-/

namespace Diod

/-- `Npuser`, with how often it has been freed. -/
structure Ruser where
  user : Cuser
  refcount : ℤ := 0
  freed : ℕ := 0

/-- What a thread is about to do, outside of `uc->lock`. -/
inductive Upend where
  /-- `np_user_incref` of what a lookup has found. -/
  | ref (p : ℕ)
  /-- `_free_user`, in `np_user_decref`. -/
  | free (p : ℕ)
deriving DecidableEq

/-- The users that there have been, the cache, and what threads have. -/
structure Userpool where
  users : ℕ → Ruser := fun _ => { user := ⟨⟨[], 0, 0, []⟩, 0⟩ }
  /-- How many users there have been. -/
  next : ℕ := 0
  /-- `uc->users` -/
  cache : List ℕ := []
  /-- The references of callers. -/
  held : List ℕ := []
  pend : List (ℕ × Upend) := []

/-- What a user is looked up by. -/
inductive Userkey where
  | uid (uid : UInt32)
  | uname (uname : Bytes)

/-- It is the user's. -/
def Userkey.matches (u : Cuser) : Userkey → Bool
  | .uid n => n = u.uid
  | .uname name => name = u.uname

namespace Userpool

variable (s : Userpool)

/-- Change a user. -/
def modify (p : ℕ) (g : Ruser → Ruser) : Userpool :=
  { s with users := Function.update s.users p (g (s.users p)) }

/-- The thread is not inside a call. -/
def Idle (t : ℕ) : Prop := ∀ x ∈ s.pend, x.1 ≠ t

instance (t : ℕ) : Decidable (s.Idle t) := inferInstanceAs (Decidable (∀ x ∈ s.pend, x.1 ≠ t))

/-- `now - u->t >= uc->ttl` -/
def Expired (now : ℤ) (p : ℕ) : Prop := Usercache.ttl ≤ now - (s.users p).user.t

instance (now : ℤ) (p : ℕ) : Decidable (s.Expired now p) :=
  inferInstanceAs (Decidable (Usercache.ttl ≤ now - (s.users p).user.t))

/-- `_usercache_del`, with `np_user_decref` and `_free_user` -/
def usercacheDel (p : ℕ) : Userpool :=
  { s.modify p fun u => { u with
      refcount := u.refcount - 1
      -- `uc->lock` is held, so no lookup comes between the count and `_free_user`
      freed := if 0 < u.refcount - 1 then u.freed else u.freed + 1 } with
    cache := s.cache.erase p }

/-- `_usercache_expire` -/
def usercacheExpire (now : ℤ) : Userpool :=
  (s.cache.filter fun p => s.Expired now p).foldl usercacheDel s

/-- `np_usercache_flush` -/
def npUsercacheFlush : Userpool := s.cache.foldl usercacheDel s

/-- A new user, with the reference of the cache. -/
def usercacheAdd (u : Cuser) : Userpool :=
  { s with
    users := Function.update s.users s.next { user := u, refcount := 1 }
    next := s.next + 1
    cache := s.next :: s.cache }

/-- A thread has found a user. -/
def find (t p : ℕ) : Userpool := { s with pend := (t, .ref p) :: s.pend }

/-- `np_uid2user` and `np_uname2user`, up to the end of `uc->lock`. What a lookup behind the
cache gives, if it is made, is an argument. -/
def lookup (t : ℕ) (now : ℤ) (key : Userkey) (new : Option Npuser) : Userpool :=
  -- users that are too old leave the cache before anything is found
  let s := s.usercacheExpire now
  match s.cache.find? fun p => key.matches (s.users p).user with
  | some p => s.find t p
  | none =>
    match new with
    | some u => (s.usercacheAdd ⟨u, now⟩).find t s.next
    | none => s

/-- `np_user_incref` -/
def npUserIncref (p : ℕ) : Userpool :=
  { s.modify p fun u => { u with refcount := u.refcount + 1 } with held := p :: s.held }

/-- `--u->refcount` -/
def lower (p : ℕ) : Userpool :=
  { s.modify p fun u => { u with refcount := u.refcount - 1 } with held := s.held.erase p }

/-- `np_user_decref`, up to `_free_user`. -/
def npUserDecref (t p : ℕ) : Userpool :=
  let s := s.lower p
  -- `u->lock` is given up before the user is freed
  if 0 < (s.users p).refcount then s else { s with pend := (t, .free p) :: s.pend }

end Userpool

/-- What a thread does next. -/
inductive Ustep where
  /-- `np_uid2user` or `np_uname2user`, up to the end of `uc->lock`. -/
  | lookup (now : ℤ) (key : Userkey) (new : Option Npuser)
  /-- The rest of it: the call returns this user. -/
  | ref (p : ℕ)
  | incref (p : ℕ)
  | decref (p : ℕ)
  /-- `_free_user` -/
  | free (p : ℕ)
  | expire (now : ℤ)
  | flush

/-- One section of a thread. Who calls `np_user_incref` or `np_user_decref` has a reference. -/
def Userpool.step (s : Userpool) : ℕ × Ustep → Option Userpool
  | (t, .lookup now key new) => if s.Idle t then some (s.lookup t now key new) else none
  | (t, .ref p) =>
    if (t, .ref p) ∈ s.pend then
      some { s.npUserIncref p with pend := s.pend.erase (t, .ref p) }
    else none
  | (t, .incref p) => if s.Idle t ∧ p ∈ s.held then some (s.npUserIncref p) else none
  | (t, .decref p) => if s.Idle t ∧ p ∈ s.held then some (s.npUserDecref t p) else none
  | (t, .free p) =>
    if (t, .free p) ∈ s.pend then
      some { s.modify p fun u => { u with freed := u.freed + 1 } with
        pend := s.pend.erase (t, .free p) }
    else none
  | (t, .expire now) => if s.Idle t then some (s.usercacheExpire now) else none
  | (t, .flush) => if s.Idle t then some s.npUsercacheFlush else none

/-! ### What holds in a sound pool -/

namespace Userpool

/-- Some thread has found the user and not yet referenced it. -/
def Found (s : Userpool) (p : ℕ) : Prop := ∃ t, (t, .ref p) ∈ s.pend

instance (s : Userpool) (p : ℕ) : Decidable (s.Found p) :=
  decidable_of_iff (∃ x ∈ s.pend, x.2 = .ref p) (by simp [Found])

/-- How many threads are about to free it. -/
def ending (s : Userpool) (p : ℕ) : ℕ := s.pend.countP (·.2 = .free p)

/-- **No step drops the last reference to a user that another thread has found.** -/
def Quiet (s : Userpool) : ℕ × Ustep → Prop
  | (_, .lookup now _ _) | (_, .expire now) =>
    ∀ p ∈ s.cache, s.Expired now p → s.Found p → p ∈ s.held
  | (_, .flush) => ∀ p ∈ s.cache, s.Found p → p ∈ s.held
  | (_, .decref p) => s.Found p → p ∈ s.cache ∨ 1 < s.held.count p
  | _ => True

instance (s : Userpool) : ∀ a, Decidable (s.Quiet a)
  | (_, .lookup now _ _) | (_, .expire now) =>
    inferInstanceAs (Decidable (∀ p ∈ s.cache, s.Expired now p → s.Found p → p ∈ s.held))
  | (_, .flush) => inferInstanceAs (Decidable (∀ p ∈ s.cache, s.Found p → p ∈ s.held))
  | (_, .decref p) => inferInstanceAs (Decidable (s.Found p → p ∈ s.cache ∨ 1 < s.held.count p))
  | (_, .ref _) | (_, .incref _) | (_, .free _) => .isTrue trivial

/-- How many references there are. -/
def refs (s : Userpool) (p : ℕ) : ℕ := s.held.count p + s.cache.count p

/-- **A pool whose counts are right.** -/
structure Sound (s : Userpool) : Prop where
  count : ∀ p, (s.users p).refcount = s.refs p
  nodup : s.cache.Nodup
  found : ∀ p, s.Found p → 0 < s.refs p
  ends : ∀ p < s.next, (s.users p).freed + s.ending p = if s.refs p = 0 then 1 else 0
  fresh : ∀ p, s.next ≤ p → s.refs p = 0 ∧ s.ending p = 0

variable {s s' : Userpool} {p q t : ℕ}

theorem refs_pos_of_held (h : p ∈ s.held) : 0 < s.refs p := by
  have := List.count_pos_iff.mpr h
  rw [refs]
  omega

theorem refs_pos_of_cache (h : p ∈ s.cache) : 0 < s.refs p := by
  have := List.count_pos_iff.mpr h
  rw [refs]
  omega

theorem Sound.lt_of_refs (h : s.Sound) (hp : 0 < s.refs p) : p < s.next := by
  by_contra hn
  have := (h.fresh p (Nat.le_of_not_lt hn)).1
  omega

/-- A user that ends has no references, and ends once. -/
theorem Sound.of_ending (h : s.Sound) (he : 0 < s.ending p) :
    p < s.next ∧ s.refs p = 0 ∧ (s.users p).freed = 0 ∧ s.ending p = 1 := by
  have hlt : p < s.next := by
    by_contra hn
    have := (h.fresh p (Nat.le_of_not_lt hn)).2
    omega
  have := h.ends p hlt
  split at this <;> omega

/-- A user with references has not been freed. -/
theorem Sound.alive (h : s.Sound) (hp : 0 < s.refs p) :
    (s.users p).freed = 0 ∧ s.ending p = 0 := by
  have := h.ends p (h.lt_of_refs hp)
  rw [if_neg hp.ne'] at this
  omega

/-- A step that is about one user. -/
theorem Sound.at (h : s.Sound) (hp : p < s.next) (hnext : s'.next = s.next)
    (hnodup : s'.cache.Nodup) (husers : ∀ q, q ≠ p → s'.users q = s.users q)
    (hrefs : ∀ q, q ≠ p → s'.refs q = s.refs q)
    (hend : ∀ q, q ≠ p → s'.ending q = s.ending q)
    (hfound : ∀ q, q ≠ p → s'.Found q → s.Found q)
    (hcount : (s'.users p).refcount = s'.refs p) (hfp : s'.Found p → 0 < s'.refs p)
    (hends : (s'.users p).freed + s'.ending p = if s'.refs p = 0 then 1 else 0) : s'.Sound where
  count q := by
    rcases eq_or_ne q p with rfl | hq
    · exact hcount
    · rw [husers q hq, hrefs q hq, h.count]
  nodup := hnodup
  found q hf := by
    rcases eq_or_ne q p with rfl | hq
    · exact hfp hf
    · rw [hrefs q hq]
      exact h.found q (hfound q hq hf)
  ends q hlt := by
    rcases eq_or_ne q p with rfl | hq
    · exact hends
    · rw [husers q hq, hend q hq, hrefs q hq]
      exact h.ends q (hnext ▸ hlt)
  fresh q hq := by
    have hqp : q ≠ p := by omega
    rw [hrefs q hqp, hend q hqp]
    exact h.fresh q (hnext ▸ hq)

theorem Sound.npUserIncref (h : s.Sound) (hp : 0 < s.refs p) : (s.npUserIncref p).Sound := by
  have hself : (s.npUserIncref p).users p =
      { s.users p with refcount := (s.users p).refcount + 1 } := Function.update_self ..
  have hr : (s.npUserIncref p).refs p = s.refs p + 1 := by
    rw [refs, Userpool.npUserIncref, List.count_cons_self, refs]
    exact Nat.add_right_comm ..
  refine h.at (h.lt_of_refs hp) rfl h.nodup (fun q hq => Function.update_of_ne hq ..)
    (fun q hq => ?_) (fun _ _ => rfl) (fun _ _ => id) ?_ (fun _ => by omega) ?_
  · rw [refs, Userpool.npUserIncref, List.count_cons_of_ne hq.symm, refs]
    rfl
  · rw [hself, hr, h.count]
    push_cast
    rfl
  · rw [hself, hr, if_neg (Nat.succ_ne_zero _)]
    have := h.alive hp
    exact Nat.add_eq_zero_iff.mpr this

/-- What was pending of no consequence for the counts is done. -/
theorem Sound.erase_ref (h : s.Sound) (t p : ℕ) :
    Sound { s with pend := s.pend.erase (t, .ref p) } := by
  have hend : ∀ q, ending { s with pend := s.pend.erase (t, .ref p) } q = s.ending q := fun q => by
    have := List.countP_erase (fun x : ℕ × Upend => decide (x.2 = .free q)) s.pend (t, .ref p)
    simpa [ending] using this
  refine ⟨h.count, h.nodup, fun q hq => h.found q ?_, fun q hq => ?_, fun q hq => ?_⟩
  · obtain ⟨u, hu⟩ := hq
    exact ⟨u, List.mem_of_mem_erase hu⟩
  · rw [hend]
    exact h.ends q hq
  · rw [hend]
    exact h.fresh q hq

/-! A reference to a user is dropped. -/

theorem lower_users_self : (s.lower p).users p =
    { s.users p with refcount := (s.users p).refcount - 1 } :=
  Function.update_self ..

theorem lower_users_of_ne (hq : q ≠ p) : (s.lower p).users q = s.users q :=
  Function.update_of_ne hq ..

theorem lower_refs_self (hp : p ∈ s.held) : (s.lower p).refs p = s.refs p - 1 := by
  have hheld := List.count_pos_iff.mpr hp
  have hc : (s.lower p).held.count p = s.held.count p - 1 := List.count_erase_self
  have hk : (s.lower p).cache = s.cache := rfl
  rw [refs, hc, hk, refs]
  omega

theorem lower_refs_of_ne (hq : q ≠ p) : (s.lower p).refs q = s.refs q := by
  have hc : (s.lower p).held.count q = s.held.count q := List.count_erase_of_ne hq
  rw [refs, hc, refs]
  rfl

theorem Sound.lower_count (h : s.Sound) (hp : p ∈ s.held) :
    ((s.lower p).users p).refcount = (s.lower p).refs p := by
  have hpos := refs_pos_of_held hp
  rw [lower_users_self, lower_refs_self hp, h.count]
  dsimp only
  omega

theorem Sound.npUserDecref (h : s.Sound) (hp : p ∈ s.held)
    (hf : s.Found p → p ∈ s.cache ∨ 1 < s.held.count p) : (s.npUserDecref t p).Sound := by
  have hpos := refs_pos_of_held hp
  have hheld := List.count_pos_iff.mpr hp
  have hlt := h.lt_of_refs hpos
  obtain ⟨hfreed, hend⟩ := h.alive hpos
  have hr := lower_refs_self hp
  have hcount := h.lower_count hp
  -- the cache or another holder still has it
  have hleft : s.Found p → 0 < s.refs p - 1 := fun hfp => by
    rw [refs]
    rcases hf hfp with hc | hc
    · have := List.count_pos_iff.mpr hc
      omega
    · omega
  rw [Userpool.npUserDecref]
  by_cases hz : 0 < ((s.lower p).users p).refcount
  · rw [if_pos hz]
    rw [hcount, hr] at hz
    refine h.at hlt rfl h.nodup (fun _ => lower_users_of_ne) (fun _ => lower_refs_of_ne)
      (fun _ _ => rfl) (fun _ _ => id) hcount (fun _ => by rw [hr]; omega) ?_
    have he : (s.lower p).ending p = s.ending p := rfl
    rw [lower_users_self, he, hr, if_neg (by omega)]
    exact Nat.add_eq_zero_iff.mpr ⟨hfreed, hend⟩
  · -- the last reference: no thread has found it
    rw [if_neg hz]
    rw [hcount, hr] at hz
    have hpend : (s.lower p).pend = s.pend := rfl
    have hnf : ¬ s.Found p := fun hfp => by
      have := hleft hfp
      omega
    refine h.at hlt rfl h.nodup (fun _ => lower_users_of_ne) (fun _ => lower_refs_of_ne)
      (fun q hq => ?_) (fun q hq hfq => ?_) hcount (fun hfp => ?_) ?_
    · simp [ending, hpend, hq.symm]
    · obtain ⟨u, hu⟩ := hfq
      exact ⟨u, by simpa [hpend] using hu⟩
    · obtain ⟨u, hu⟩ := hfp
      exact absurd ⟨u, by simpa [hpend] using hu⟩ hnf
    · have hz' : (s.lower p).refs p = 0 := by omega
      have he : s.pend.countP (·.2 = .free p) = 0 := hend
      have hr' : refs { s.lower p with pend := (t, .free p) :: (s.lower p).pend } p = 0 := hz'
      rw [hr', if_pos rfl, ending, hpend, List.countP_cons, he, lower_users_self]
      simpa using hfreed

theorem Sound.free (h : s.Sound) (hp : (t, .free p) ∈ s.pend) :
    Sound { s.modify p fun u => { u with freed := u.freed + 1 } with
      pend := s.pend.erase (t, .free p) } := by
  have hmem : 0 < s.ending p := List.countP_pos_iff.mpr ⟨_, hp, by simp⟩
  obtain ⟨hlt, hr, hf, he⟩ := h.of_ending hmem
  set s' : Userpool := { s.modify p fun u => { u with freed := u.freed + 1 } with
    pend := s.pend.erase (t, .free p) } with hs'
  have hself : s'.users p = { s.users p with freed := (s.users p).freed + 1 } :=
    Function.update_self ..
  have hend : ∀ q, s'.ending q = s.ending q - if p = q then 1 else 0 := fun q => by
    have := List.countP_erase (fun x : ℕ × Upend => decide (x.2 = .free q)) s.pend (t, .free p)
    simpa [ending, hp, hs'] using this
  have hfound : ∀ q, s'.Found q → s.Found q := fun q hq => by
    obtain ⟨u, hu⟩ := hq
    exact ⟨u, List.mem_of_mem_erase hu⟩
  refine h.at hlt rfl h.nodup (fun q hq => Function.update_of_ne hq ..) (fun _ _ => rfl)
    (fun q hq => by rw [hend, if_neg hq.symm, Nat.sub_zero]) (fun q _ => hfound q) ?_
    (fun hfp => h.found p (hfound p hfp)) ?_
  · rw [hself]
    exact h.count p
  · have hr' : s'.refs p = 0 := hr
    rw [hend, he, if_pos rfl, hr', if_pos rfl, hself, hf]

/-- A user leaves the cache. One that was found has another reference. -/
theorem Sound.usercacheDel (h : s.Sound) (hp : p ∈ s.cache) (hf : s.Found p → p ∈ s.held) :
    (s.usercacheDel p).Sound := by
  have hpos := refs_pos_of_cache hp
  have hlt := h.lt_of_refs hpos
  obtain ⟨hfreed, hend⟩ := h.alive hpos
  have hc : s.cache.count p = 1 := List.count_eq_one_of_mem h.nodup hp
  set s' := s.usercacheDel p with hs'
  have hself : s'.users p = { s.users p with
      refcount := (s.users p).refcount - 1
      freed := if 0 < (s.users p).refcount - 1 then (s.users p).freed
        else (s.users p).freed + 1 } := Function.update_self ..
  have hr : s'.refs p = s.held.count p := by
    have hc' : s'.cache.count p = s.cache.count p - 1 := List.count_erase_self
    have hh : s'.held = s.held := rfl
    rw [refs, hc', hc, hh]
    rfl
  -- the cache has one reference, and what is left are those of the holders
  have hrc : (s.users p).refcount - 1 = s.held.count p := by
    rw [h.count, refs, hc]
    push_cast
    omega
  refine h.at hlt rfl (h.nodup.erase p) (fun q hq => Function.update_of_ne hq ..) (fun q hq => ?_)
    (fun _ _ => rfl) (fun _ _ => id) ?_ (fun hfp => ?_) ?_
  · have hc' : s'.cache.count q = s.cache.count q := List.count_erase_of_ne hq
    rw [refs, hc', refs]
    rfl
  · rw [hself, hr]
    exact hrc
  · rw [hr]
    exact List.count_pos_iff.mpr (hf hfp)
  · have he : s'.ending p = 0 := hend
    rw [hself, hr, he, hrc, hfreed]
    by_cases hz : s.held.count p = 0
    · rw [if_pos hz, if_neg (by omega)]
    · rw [if_neg hz, if_pos (by omega)]

/-- Several users leave the cache. -/
theorem Sound.foldl_del {l : List ℕ} (hl : l.Nodup) : ∀ {s : Userpool}, s.Sound →
    (∀ p ∈ l, p ∈ s.cache) → (∀ p ∈ l, s.Found p → p ∈ s.held) →
    (l.foldl Userpool.usercacheDel s).Sound := by
  induction l with
  | nil => exact fun h _ _ => h
  | cons p l ih =>
    intro s h hc hf
    obtain ⟨hpl, hl⟩ := List.nodup_cons.mp hl
    rw [List.foldl_cons]
    -- taking one out leaves the others in, and changes neither holders nor lookups
    refine ih hl (h.usercacheDel (hc p List.mem_cons_self) (hf p List.mem_cons_self))
      (fun q hq => ?_) fun q hq hfq => hf q (List.mem_cons_of_mem _ hq) hfq
    have hqp : q ≠ p := fun he => hpl (he ▸ hq)
    exact (List.mem_erase_of_ne hqp).mpr (hc q (List.mem_cons_of_mem _ hq))

variable {now : ℤ}

theorem Sound.usercacheExpire (h : s.Sound)
    (hf : ∀ p ∈ s.cache, s.Expired now p → s.Found p → p ∈ s.held) :
    (s.usercacheExpire now).Sound := by
  refine Sound.foldl_del (h.nodup.filter _) h (fun p hp => List.mem_of_mem_filter hp) ?_
  intro p hp
  obtain ⟨hc, he⟩ := List.mem_filter.mp hp
  exact hf p hc (by simpa using he)

theorem Sound.usercacheAdd (h : s.Sound) (u : Cuser) : (s.usercacheAdd u).Sound := by
  have hself : (s.usercacheAdd u).users s.next = { user := u, refcount := 1 } :=
    Function.update_self ..
  obtain ⟨hr0, he0⟩ := h.fresh s.next le_rfl
  have hr : (s.usercacheAdd u).refs s.next = 1 := by
    rw [refs] at hr0
    rw [refs, Userpool.usercacheAdd, List.count_cons_self]
    change s.held.count s.next + _ = 1
    omega
  have hrefs : ∀ q, q ≠ s.next → (s.usercacheAdd u).refs q = s.refs q := fun q hq => by
    rw [refs, Userpool.usercacheAdd, List.count_cons_of_ne hq.symm, refs]
  have husers : ∀ q, q ≠ s.next → (s.usercacheAdd u).users q = s.users q := fun q hq =>
    Function.update_of_ne hq ..
  refine ⟨fun q => ?_, ?_, fun q hq => ?_, fun q hq => ?_, fun q hq => ?_⟩
  · rcases eq_or_ne q s.next with rfl | hq
    · rw [hself, hr]
      rfl
    · rw [husers q hq, hrefs q hq, h.count]
  · -- an address that is not in use is not in the cache
    refine List.nodup_cons.mpr ⟨fun hm => ?_, h.nodup⟩
    have := refs_pos_of_cache hm
    omega
  · -- what was found before is an older user
    have hlt := h.lt_of_refs (h.found q hq)
    rw [hrefs q hlt.ne]
    exact h.found q hq
  · have hend : (s.usercacheAdd u).ending q = s.ending q := rfl
    rw [hend]
    rcases eq_or_ne q s.next with rfl | hq'
    · rw [hself, hr, he0, if_neg one_ne_zero]
    · have hq : q < s.next + 1 := hq
      rw [husers q hq', hrefs q hq']
      exact h.ends q (by omega)
  · have hq : s.next + 1 ≤ q := hq
    rw [hrefs q (by omega)]
    exact h.fresh q (by omega)

theorem Sound.find (h : s.Sound) (hp : 0 < s.refs p) (t : ℕ) : (s.find t p).Sound := by
  have hend : ∀ q, (s.find t p).ending q = s.ending q := fun q => by simp [ending, Userpool.find]
  refine ⟨h.count, h.nodup, fun q hq => ?_, fun q hq => ?_, fun q hq => ?_⟩
  · obtain ⟨u, hu⟩ := hq
    rcases List.mem_cons.mp hu with he | hu
    · obtain rfl := Upend.ref.inj (Prod.mk.inj he).2
      exact hp
    · exact h.found q ⟨u, hu⟩
  · rw [hend]
    exact h.ends q hq
  · rw [hend]
    exact h.fresh q hq

theorem Sound.lookup (h : s.Sound)
    (hf : ∀ p ∈ s.cache, s.Expired now p → s.Found p → p ∈ s.held) (t : ℕ) (key : Userkey)
    (new : Option Npuser) : (s.lookup t now key new).Sound := by
  have h₁ := h.usercacheExpire hf
  dsimp only [Userpool.lookup]
  split
  · rename_i p hp
    exact h₁.find (refs_pos_of_cache (List.mem_of_find?_eq_some hp)) t
  · split
    · rename_i u
      exact (h₁.usercacheAdd ⟨u, now⟩).find (refs_pos_of_cache List.mem_cons_self) t
    · exact h₁

theorem Sound.step {a : ℕ × Ustep} (h : s.Sound) (hq : s.Quiet a) (hs : s.step a = some s') :
    s'.Sound := by
  obtain ⟨t, a⟩ := a
  rcases a with ⟨now, key, new⟩ | p | p | p | p | now | _
  · obtain ⟨-, rfl⟩ := of_guard hs
    exact h.lookup hq t key new
  · -- this is why a user that was found must keep a reference
    obtain ⟨hp, rfl⟩ := of_guard hs
    exact (h.npUserIncref (h.found p ⟨t, hp⟩)).erase_ref t p
  · obtain ⟨⟨-, hp⟩, rfl⟩ := of_guard hs
    exact h.npUserIncref (refs_pos_of_held hp)
  · obtain ⟨⟨-, hp⟩, rfl⟩ := of_guard hs
    exact h.npUserDecref hp hq
  · obtain ⟨hp, rfl⟩ := of_guard hs
    exact h.free hp
  · obtain ⟨-, rfl⟩ := of_guard hs
    exact h.usercacheExpire hq
  · obtain ⟨-, rfl⟩ := of_guard hs
    exact Sound.foldl_del h.nodup h (fun _ hp => hp) hq

theorem sound_empty : Sound {} where
  count _ := rfl
  nodup := List.nodup_nil
  found p hp := by
    obtain ⟨t, ht⟩ := hp
    cases ht
  ends p hp := absurd hp (Nat.not_lt_zero p)
  fresh _ _ := ⟨rfl, rfl⟩

theorem sound_of_reaches (h : Reaches step Quiet {} s) : s.Sound :=
  h.invariant sound_empty fun _ _ _ hi hq hs => hi.step hq hs

end Userpool

/-- **References to users are right**, whatever several threads do at the same time, as long as no
thread drops the last reference to a user that another one has found. The count of each user is
the number of holders, plus one while it is in the cache. What a lookup returns is a user whose
count was not zero and that is not freed, and the count then counts the caller. -/
theorem user_refs_right {s : Userpool} (h : Reaches Userpool.step Userpool.Quiet {} s) :
    (∀ p, (s.users p).refcount = s.held.count p + if p ∈ s.cache then 1 else 0) ∧
    (∀ p < s.next, (s.users p).freed + s.ending p =
      if s.held.count p = 0 ∧ p ∉ s.cache then 1 else 0) ∧
    ∀ t p s', s.step (t, .ref p) = some s' →
      1 ≤ (s.users p).refcount ∧ (s.users p).freed = 0 ∧ s.ending p = 0 ∧ p ∈ s'.held ∧
      (s'.users p).refcount = s'.held.count p + if p ∈ s'.cache then 1 else 0 := by
  have hcount : ∀ {s : Userpool}, s.Sound → ∀ p,
      (s.users p).refcount = s.held.count p + if p ∈ s.cache then 1 else 0 := by
    intro s hi p
    rw [hi.count, Userpool.refs]
    by_cases hc : p ∈ s.cache
    · rw [if_pos hc, List.count_eq_one_of_mem hi.nodup hc]
      rfl
    · rw [if_neg hc, List.count_eq_zero_of_not_mem hc]
      rfl
  have hi := Userpool.sound_of_reaches h
  refine ⟨hcount hi, fun p hp => ?_, fun t p s' hs => ?_⟩
  · rw [hi.ends p hp, Userpool.refs]
    refine if_congr ?_ rfl rfl
    rw [Nat.add_eq_zero_iff, List.count_eq_zero (l := s.cache)]
  · -- the second half of a lookup needs no condition
    have hi' := hi.step (a := (t, .ref p)) trivial hs
    obtain ⟨hp, hs⟩ := Option.ite_none_right_eq_some.mp hs
    have hpos := hi.found p ⟨t, hp⟩
    obtain ⟨hf, he⟩ := hi.alive hpos
    refine ⟨?_, hf, he, ?_, hcount hi' p⟩
    · rw [hi.count]
      omega
    · obtain rfl := Option.some.inj hs
      exact List.mem_cons_self

/-- Two threads look up one user at the same time, and the cache is flushed when both have it. -/
theorem user_refs_right_shared : ∃ s : Userpool, Reaches Userpool.step Userpool.Quiet {} s ∧
    s.held = [0, 0] ∧ s.cache = [] ∧ (s.users 0).refcount = 2 := by
  have hrun : (runSteps Userpool.step {} [(0, .lookup 0 (.uid 7) (some ⟨[97], 7, 7, []⟩)),
      (1, .lookup 9 (.uname [97]) none), (1, .ref 0), (0, .ref 0), (2, .flush)]).map
        (fun s => (s.held, s.cache)) = some ([0, 0], []) := by decide +kernel
  obtain ⟨s, hs, he⟩ := Option.map_eq_some_iff.mp hrun
  obtain ⟨hh, hc⟩ := Prod.mk.inj he
  have hr : Reaches Userpool.step Userpool.Quiet {} s :=
    reaches_of_runSteps (c := fun s a => decide (s.Quiet a)) (fun _ _ => of_decide_eq_true) hs
      (by decide +kernel)
  have hcount := (user_refs_right hr).1 0
  rw [hh, hc] at hcount
  exact ⟨s, hr, hh, hc, hcount⟩

/-- **A lookup returns a freed user**: the cache is flushed when it has found a user and has not
yet taken a reference. -/
theorem lookup_frees : ∃ s s' : Userpool, Reaches Userpool.step (fun _ _ => True) {} s ∧
    (s.users 0).refcount = 0 ∧ (s.users 0).freed = 1 ∧ s.step (0, .ref 0) = some s' ∧
    s'.held = [0] ∧ (s'.users 0).freed = 1 := by
  have hrun : (runSteps Userpool.step {} [(0, .lookup 0 (.uid 7) (some ⟨[97], 7, 7, []⟩)),
      (1, .flush)]).map (fun s => ((s.users 0).refcount, (s.users 0).freed,
        (s.step (0, .ref 0)).map fun s' => (s'.held, (s'.users 0).freed))) =
      some (0, 1, some ([0], 1)) := by decide +kernel
  obtain ⟨s, hs, he⟩ := Option.map_eq_some_iff.mp hrun
  simp only [Prod.mk.injEq] at he
  obtain ⟨hc, hf, hm⟩ := he
  obtain ⟨s', hs', he'⟩ := Option.map_eq_some_iff.mp hm
  obtain ⟨hh, hf'⟩ := Prod.mk.inj he'
  exact ⟨s, s', reaches_of_forall (fun _ _ _ => trivial) hs, hc, hf, hs', hh, hf'⟩

end Diod
