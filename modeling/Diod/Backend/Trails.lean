import Mathlib.Data.Set.Defs
import Diod.Lib.Runs
import Diod.Backend.Upkeep

/-!
# Paths that are shared

A fid gets its path by an attach, which makes one from a name, and by walks, each of which appends
a name. Names are bytes from the wire, and may have a NUL in them. A path has its length, and
`path_append` copies that many bytes of it; but the pool in which all clients share their paths is
searched by C strings, which end at the first NUL. So a name may find a path that is not its own:
the two have the same string, and go on differently when a name is appended.

**As long as no name has a NUL**, a path is what its fid attached to and walked, whatever other
paths there are, and its length is that of its string. **With a NUL this is lost**
(`Diod.Holders.paths_own_iff`), and not only for the client that sends it. A client that attaches
to `/a\0` moves every fid that attaches to `/a` meanwhile, and walks on from there, to `/a` itself.

## The runs

What the clients do is seen from the pool: a sequence of calls of `path_create`, `path_append`,
`path_incref` and `path_decref`, on behalf of fids and of operations at work
(`Diod.Holders.step`). Each call holds the lock of the pool, so every run of the server is one of
these, with any number of threads. Between two calls anything may happen to the rest of the server;
a label brings the state that the call finds. Each holder of a path is marked with the name it
attached to and the names it walked, which no call looks at.
-/

namespace Diod

open Prog

/-! ### Strings and their lengths -/

theorem not_mem_cstr (bs : Bytes) : 0 ∉ cstr bs := by
  intro h
  have := List.mem_takeWhile_imp h
  simp at this

variable {bs : Bytes} {h : Heap PathObj} {g : PathObj → PathObj}

/-- `path->len == strlen (path->s)` -/
theorem length_eq_strlen_iff : bs.length = (cstr bs).length ↔ 0 ∉ bs := by
  constructor
  · intro h
    rw [← (List.takeWhile_prefix _).eq_of_length h.symm]
    exact not_mem_cstr bs
  · intro h
    rw [cstr_of_not_mem h]

/-- A name, with the names that were walked since. -/
def trail (aname : Bytes) (names : List Bytes) : Bytes := aname ++ names.flatMap (47 :: ·)

theorem trail_concat (aname : Bytes) (names : List Bytes) (name : Bytes) :
    trail aname (names ++ [name]) = trail aname names ++ 47 :: name := by
  simp [trail]

/-! ### Pools of C strings -/

/-- The paths of the pool are C strings. -/
def Heap.Strings (h : Heap PathObj) : Prop := ∀ p x, h.get p = some x → 0 ∉ x.buf

theorem Heap.Strings.alloc (hs : h.Strings) {x : PathObj} (hx : 0 ∉ x.buf) :
    (h.alloc x).Strings := by
  intro p y hp
  rcases eq_or_ne p h.next with rfl | hne
  · rw [Heap.get_alloc_next] at hp
    cases hp
    exact hx
  · rw [Heap.get_alloc_of_ne hne] at hp
    exact hs p y hp

theorem Heap.Strings.modify (hs : h.Strings) {p : ℕ}
    (hg : ∀ x, (g x).buf = x.buf) : (h.modify p g).Strings := by
  intro q y hq
  obtain ⟨x, hx, rfl⟩ := Heap.get_of_get_modify hq
  split
  · rw [hg]
    exact hs q x hx
  · exact hs q x hx

/-- The strings of the pool are of those it had. -/
def OldStrings (paths paths' : Heap PathObj) : Prop :=
  ∀ id x', paths'.get id = some x' → ∃ x, paths.get id = some x ∧ x'.buf = x.buf

theorem oldStrings_modify (paths : Heap PathObj) (id : ℕ)
    (hg : ∀ x, (g x).buf = x.buf) : OldStrings paths (paths.modify id g) := by
  intro q y hq
  obtain ⟨x, hx, rfl⟩ := Heap.get_of_get_modify hq
  refine ⟨x, hx, ?_⟩
  split
  · exact hg x
  · rfl

theorem oldStrings_free (paths : Heap PathObj) (id : ℕ) : OldStrings paths (paths.free id) :=
  fun _ y hq => ⟨y, (Heap.get_of_get_free hq).2, rfl⟩

/-! ### Asking for a path -/

/-- **What becomes of a string that the pool is asked for**: a path with the same C string is
found, whatever lies behind it, or else the string is put in, if there is memory. -/
inductive Asked (paths : Heap PathObj) (s : Bytes) : Option Path → Heap PathObj → Prop
  | found {id : ℕ} {x : PathObj} (hx : paths.get id = some x) (hs : cstr x.buf = cstr s) :
      Asked paths s (some ⟨id, x.buf⟩)
        (paths.modify id fun x => { x with refcount := x.refcount + 1 })
  | made (hs : ∀ id x, paths.get id = some x → cstr x.buf ≠ cstr s) :
      Asked paths s (some ⟨paths.next, s⟩) (paths.alloc ⟨s, 1, none⟩)
  | nomem : Asked paths s none paths

section

variable {paths paths' : Heap PathObj} {s : Bytes} {p : Path}

theorem Asked.strings {q : Option Path} (h : Asked paths s q paths') (hp : paths.Strings)
    (hs : 0 ∉ s) : paths'.Strings := by
  cases h with
  | found hx hc => exact hp.modify fun _ => rfl
  | made hc => exact hp.alloc hs
  | nomem => exact hp

/-- **Among C strings a path is the one that was asked for.** -/
theorem Asked.buf_eq (h : Asked paths s (some p) paths') (hp : paths.Strings) (hs : 0 ∉ s) :
    p.buf = s := by
  cases h with
  | found hx hc => rwa [cstr_of_not_mem (hp _ _ hx), cstr_of_not_mem hs] at hc
  | made hc => rfl

/-- The path is in the pool. -/
theorem Asked.get (h : Asked paths s (some p) paths') :
    ∃ x, paths'.get p.id = some x ∧ x.buf = p.buf := by
  cases h with
  | @found id x hx hc =>
    refine ⟨{ x with refcount := x.refcount + 1 }, ?_, rfl⟩
    rw [Heap.get_modify_self, hx]
    rfl
  | made hc => exact ⟨_, Heap.get_alloc_next _ _, rfl⟩

/-- All paths of the pool, and there are some, have these bytes. -/
structure Only (b : Bytes) (paths : Heap PathObj) : Prop where
  buf : ∀ id x, paths.get id = some x → x.buf = b
  get : ∃ id x, paths.get id = some x

end

namespace Op

variable {σ : Type} (H : Host σ)

theorem mallocOrStop_cases {F : Type} (o : Ost σ F) :
    (∃ m host, mallocOrStop H o = (.ok m, { o with host := host })) ∨
    ∃ host, mallocOrStop H o = (.stop, { o with host := host }) := by
  rcases hm : H.malloc o.host with ⟨m, host⟩
  have h : malloc H o = (.ok m, { o with host := host }) := by rw [malloc, hm]
  rcases m with _ | m
  · exact .inr ⟨host, by rw [mallocOrStop, bind_of_ok h]; rfl⟩
  · exact .inl ⟨m, host, by rw [mallocOrStop, bind_of_ok h]; rfl⟩

variable {s : Bytes} {o o' : Ost σ DiodFid} {r : Res Path}

/-- `_path_alloc` -/
theorem pathAlloc_asked
    (h : pathAlloc H s o = (r, o')) : r.ending ≠ .crash ∧ Asked o.paths s r.result o'.paths := by
  rw [pathAlloc, read_bind] at h
  rcases hf : o.paths.find fun x => cstr x.buf == cstr s with _ | q
  · rw [hf] at h
    dsimp only at h
    have hnone : ∀ id x, o.paths.get id = some x → cstr x.buf ≠ cstr s := fun id x hx =>
      beq_eq_false_iff_ne.mp (Heap.find_eq_none.mp hf id x hx)
    rcases mallocOrStop_cases H o with ⟨m, host, hm⟩ | ⟨host, hm⟩
    · rw [bind_of_ok hm] at h
      rcases mallocOrStop_cases H { o with host := host } with ⟨m, host', hm⟩ | ⟨host', hm⟩
      · rw [bind_of_ok hm] at h
        cases h
        exact ⟨by simp, .made hnone⟩
      · rw [bind_of_stop hm] at h
        cases h
        exact ⟨by simp, .nomem⟩
    · rw [bind_of_stop hm] at h
      cases h
      exact ⟨by simp, .nomem⟩
  · obtain ⟨id, x⟩ := q
    rw [hf] at h
    cases h
    obtain ⟨hx, hs⟩ := Heap.get_of_find hf
    exact ⟨by simp, .found hx (beq_iff_eq.mp hs)⟩

/-- `path_create` and `path_append`: the string is made first. -/
theorem ask_asked (h : (mallocOrStop H >>= fun _ => pathAlloc H s) o = (r, o')) :
    r.ending ≠ .crash ∧ Asked o.paths s r.result o'.paths := by
  rcases mallocOrStop_cases H o with ⟨m, host, hm⟩ | ⟨host, hm⟩
  · rw [bind_of_ok hm] at h
    have hasked : _ ∧ Asked { o with host := host }.paths s _ _ := pathAlloc_asked H h
    exact hasked
  · rw [bind_of_stop hm] at h
    cases h
    exact ⟨by simp, .nomem⟩

/-- With memory there is always a path. -/
theorem ask_steady (reply : HostCall → HostReply) (s : Bytes) (o : Ost Unit DiodFid) :
    ∃ p o', (mallocOrStop (.steady reply) >>= fun _ => pathAlloc (.steady reply) s) o =
      (.ok p, o') := by
  change ∃ p o', pathAlloc (.steady reply) s o = (.ok p, o')
  rw [pathAlloc, read_bind]
  rcases o.paths.find fun x => cstr x.buf == cstr s with _ | q
  · exact ⟨_, _, rfl⟩
  · exact ⟨_, _, rfl⟩

end Op

/-! ### Those who hold a path -/

/-- **A fid, or an operation at work**, with its path, the name it attached to and the names it
walked since. -/
@[ext] structure Holder where
  path : Path
  aname : Bytes
  names : List Bytes

/-- The pool, and those who hold its paths. -/
structure Holders where
  paths : Heap PathObj
  held : ℕ → Option Holder

namespace Holders

open Op

variable {σ : Type} {H : Host σ}

/-- Nobody holds a path. -/
def start : Holders := ⟨.empty, fun _ => none⟩

/-- A call on the pool. -/
inductive Call where
  /-- `path_create`, for `i` -/
  | create (i : ℕ) (aname : Bytes)
  /-- `path_incref` of the path of `i`, for `j` -/
  | incref (i j : ℕ)
  /-- `path_append` to the path of `i`, for `j` -/
  | append (i j : ℕ) (name : Bytes)
  /-- `path_decref`, by `i` -/
  | decref (i : ℕ)
  /-- A change of `path->ioctx`, by `i`. -/
  | head (i : ℕ) (ioctx : Option ℕ)

/-- Another holder. -/
def give (s : Holders) (paths : Heap PathObj) (j : ℕ) (h : Holder) : Holders :=
  ⟨paths, Function.update s.held j (some h)⟩

theorem held_give_self (s : Holders) (paths : Heap PathObj) (j : ℕ) (h : Holder) :
    (s.give paths j h).held j = some h :=
  Function.update_self ..

variable {i j : ℕ} {s s' : Holders} {aname : Bytes} {names : List Bytes} {o o' : Ost σ DiodFid}
  {p : Path} {l : Ost σ DiodFid × Call}

theorem held_give_of_ne (hij : i ≠ j) (s : Holders) (paths : Heap PathObj) (h : Holder) :
    (s.give paths j h).held i = s.held i :=
  Function.update_of_ne hij ..

/-- What a call returned is held by `j`. -/
def take (s : Holders) (j : ℕ) (aname : Bytes) (names : List Bytes) :
    Res Path × Ost σ DiodFid → Option Holders
  | (.ok p, o) => some (s.give o.paths j ⟨p, aname, names⟩)
  | (.stop, o) => some ⟨o.paths, s.held⟩
  | (.crash, _) => none

/-- A call that returns nothing. -/
def leave (held : ℕ → Option Holder) : Res Unit × Ost σ DiodFid → Option Holders
  | (.ok _, o) => some ⟨o.paths, held⟩
  | _ => none

/-- **A call on the pool**, in any state of the rest of the server. -/
def step (H : Host σ) (s : Holders) (l : Ost σ DiodFid × Call) : Option Holders :=
  let o : Ost σ DiodFid := { l.1 with paths := s.paths }
  match l.2 with
  | .create i aname =>
    if (s.held i).isSome then none else s.take i aname [] (pathCreate H aname o)
  | .incref i j =>
    if (s.held j).isSome then none
    else (s.held i).bind fun h => s.take j h.aname h.names (pathIncref h.path o)
  | .append i j name =>
    if (s.held j).isSome then none
    else (s.held i).bind fun h =>
      s.take j h.aname (h.names ++ [name]) (pathAppend H h.path name o)
  | .decref i =>
    (s.held i).bind fun h => leave (Function.update s.held i none) (pathDecref h.path o)
  | .head i ioctx => (s.held i).bind fun h => leave s.held (setIoctxHead h.path ioctx o)

/-- The names in a call are of these. -/
def Uses (A N : Set Bytes) (_ : Holders) (l : Ost σ DiodFid × Call) : Prop :=
  match l.2 with
  | .create _ aname => aname ∈ A
  | .append _ _ name => name ∈ N
  | _ => True

/-- The string that a call asks for, and what it makes the new holder. -/
def Asks (s : Holders) (c : Call) (buf aname : Bytes) (names : List Bytes) : Prop :=
  match c with
  | .create _ a => buf = a ∧ aname = a ∧ names = []
  | .append i _ name => ∃ h, s.held i = some h ∧ buf = h.path.buf ++ 47 :: name ∧
      aname = h.aname ∧ names = h.names ++ [name]
  | _ => False

theorem take_eq_some {r : Res Path} (h : s.take j aname names (r, o) = some s') :
    s'.paths = o.paths ∧ ∀ i h, s'.held i = some h →
      s.held i = some h ∨ r = .ok h.path ∧ h.aname = aname ∧ h.names = names := by
  rcases r with p | _ | _
  · cases h
    refine ⟨rfl, fun i h hi => ?_⟩
    rcases eq_or_ne i j with rfl | hne
    · rw [held_give_self] at hi
      cases hi
      exact .inr ⟨rfl, rfl, rfl⟩
    · rw [held_give_of_ne hne] at hi
      exact .inl hi
  · cases h
    exact ⟨rfl, fun _ _ => .inl⟩
  · cases h

theorem leave_eq_some {held : ℕ → Option Holder} {r : Res Unit × Ost σ DiodFid}
    (h : leave held r = some s') : ∃ o, r = (.ok (), o) ∧ s' = ⟨o.paths, held⟩ := by
  obtain ⟨r, o⟩ := r
  rcases r with u | _ | _
  · cases h
    exact ⟨o, rfl, rfl⟩
  · cases h
  · cases h

theorem oldStrings_pathDecref
    (h : pathDecref p o = (.ok (), o')) : OldStrings o.paths o'.paths := by
  rcases pathDecref_cases p o with ⟨-, hd⟩ | ⟨x, -, -, hd⟩ | ⟨x, -, -, hd⟩
  · cases hd.symm.trans h
  · cases hd.symm.trans h
    exact oldStrings_free _ _
  · cases hd.symm.trans h
    exact oldStrings_modify _ _ fun _ => rfl

theorem oldStrings_setIoctxHead {i : Option ℕ}
    (h : setIoctxHead p i o = (.ok (), o')) : OldStrings o.paths o'.paths := by
  obtain ⟨x, o₁, hx, h⟩ := bind_eq_ok h
  rw [ioctxHead] at hx
  split at hx
  · cases hx
    cases h
    exact oldStrings_modify _ _ fun _ => rfl
  · cases hx

/-- **What a call can do**: ask for a string, and make a holder of what becomes of it; or leave all
strings as they are, and all holders, but for some that go, or come with the path of another. -/
theorem step_cases (h : step H s l = some s') :
    (∃ buf aname names p, s.Asks l.2 buf aname names ∧ Asked s.paths buf p s'.paths ∧
      ∀ i h, s'.held i = some h →
        s.held i = some h ∨ p = some h.path ∧ h.aname = aname ∧ h.names = names) ∨
    OldStrings s.paths s'.paths ∧ ∀ i h, s'.held i = some h → ∃ j, s.held j = some h := by
  obtain ⟨o, c⟩ := l
  cases c with
  | create i aname =>
    left
    dsimp only [step] at h
    split at h
    · cases h
    · rcases hr : pathCreate H aname { o with paths := s.paths } with ⟨r, o'⟩
      rw [hr] at h
      obtain ⟨hp, hh⟩ := take_eq_some h
      refine ⟨aname, aname, [], r.result, ⟨rfl, rfl, rfl⟩, hp ▸ (ask_asked H hr).2, ?_⟩
      exact fun i h hi => (hh i h hi).imp id fun h => ⟨by rw [h.1]; rfl, h.2⟩
  | append i j name =>
    left
    dsimp only [step] at h
    split at h
    · cases h
    · obtain ⟨k, hk, h⟩ := Option.bind_eq_some_iff.mp h
      rcases hr : pathAppend H k.path name { o with paths := s.paths } with ⟨r, o'⟩
      rw [hr] at h
      obtain ⟨hp, hh⟩ := take_eq_some h
      refine ⟨_, _, _, r.result, ⟨k, hk, rfl, rfl, rfl⟩, hp ▸ (ask_asked H hr).2, ?_⟩
      exact fun i h hi => (hh i h hi).imp id fun h => ⟨by rw [h.1]; rfl, h.2⟩
  | incref i j =>
    right
    dsimp only [step] at h
    split at h
    · cases h
    · obtain ⟨k, hk, h⟩ := Option.bind_eq_some_iff.mp h
      obtain ⟨hp, hh⟩ := take_eq_some h
      refine ⟨hp ▸ oldStrings_modify _ _ fun _ => rfl, fun i' h' hi => ?_⟩
      rcases hh i' h' hi with hi | ⟨hr, ha, hn⟩
      · exact ⟨i', hi⟩
      · -- the new holder is the old one, under another number
        exact ⟨i, hk.trans (congrArg some (Holder.ext (Res.ok.inj hr) ha.symm hn.symm))⟩
  | decref i =>
    right
    obtain ⟨k, hk, h⟩ := Option.bind_eq_some_iff.mp h
    obtain ⟨o', hr, rfl⟩ := leave_eq_some h
    refine ⟨oldStrings_pathDecref hr, fun i' h' hi => ⟨i', ?_⟩⟩
    rcases eq_or_ne i' i with rfl | hne
    · cases (Function.update_self (f := s.held) ..).symm.trans hi
    · exact (Function.update_of_ne hne ..).symm.trans hi
  | head i ioctx =>
    right
    obtain ⟨k, hk, h⟩ := Option.bind_eq_some_iff.mp h
    obtain ⟨o', hr, rfl⟩ := leave_eq_some h
    exact ⟨oldStrings_setIoctxHead hr, fun i' h' hi => ⟨i', hi⟩⟩

/-! ### Names without a NUL -/

/-- **Every path is what its holder attached to and walked**, and a C string. -/
structure Clean (A : Set Bytes) (s : Holders) : Prop where
  strings : s.paths.Strings
  aname : ∀ i h, s.held i = some h → h.aname ∈ A
  buf : ∀ i h, s.held i = some h → h.path.buf = trail h.aname h.names ∧ 0 ∉ h.path.buf

theorem clean_start (A : Set Bytes) : Clean A start where
  strings _ _ h := by cases h
  aname _ _ h := by cases h
  buf _ _ h := by cases h

variable {A N : Set Bytes}

/-- A string that is asked for has no NUL, if the names have none. -/
theorem Clean.asks (hs : s.Clean A) (hA : ∀ a ∈ A, 0 ∉ a)
    (hN : A.Nonempty → ∀ n ∈ N, 0 ∉ n) (hl : Uses A N s l)
    {buf : Bytes} (h : s.Asks l.2 buf aname names) :
    0 ∉ buf ∧ aname ∈ A ∧ buf = trail aname names := by
  obtain ⟨o, c⟩ := l
  cases c with
  | create i a =>
    obtain ⟨rfl, rfl, rfl⟩ := h
    exact ⟨hA _ hl, hl, (List.append_nil _).symm⟩
  | append i j name =>
    obtain ⟨k, hk, rfl, rfl, rfl⟩ := h
    have ha := hs.aname i k hk
    obtain ⟨hb, hk⟩ := hs.buf i k hk
    have hn : 0 ∉ name := hN ⟨_, ha⟩ name hl
    exact ⟨by simp [hk, hn], ha, by rw [trail_concat, hb]⟩
  | incref => exact h.elim
  | decref => exact h.elim
  | head => exact h.elim

theorem Clean.step (hs : s.Clean A) (hA : ∀ a ∈ A, 0 ∉ a)
    (hN : A.Nonempty → ∀ n ∈ N, 0 ∉ n) (hl : Uses A N s l)
    (h : step H s l = some s') : s'.Clean A := by
  rcases step_cases h with ⟨buf, aname, names, p, hasks, hasked, hheld⟩ | ⟨hold, hheld⟩
  · obtain ⟨h0, ha, hb⟩ := hs.asks hA hN hl hasks
    refine ⟨hasked.strings hs.strings h0, fun i h hi => ?_, fun i h hi => ?_⟩
    · rcases hheld i h hi with hi | ⟨-, rfl, -⟩
      · exact hs.aname i h hi
      · exact ha
    · rcases hheld i h hi with hi | ⟨rfl, rfl, rfl⟩
      · exact hs.buf i h hi
      · rw [hasked.buf_eq hs.strings h0]
        exact ⟨hb, h0⟩
  · refine ⟨fun id x hx => ?_, fun i h hi => ?_, fun i h hi => ?_⟩
    · obtain ⟨y, hy, hxy⟩ := hold id x hx
      rw [hxy]
      exact hs.strings id y hy
    · obtain ⟨j, hj⟩ := hheld i h hi
      exact hs.aname j h hj
    · obtain ⟨j, hj⟩ := hheld i h hi
      exact hs.buf j h hj

/-- **Names without a NUL keep the pool clean.** -/
theorem clean_of_reaches (hA : ∀ a ∈ A, 0 ∉ a) (hN : A.Nonempty → ∀ n ∈ N, 0 ∉ n)
    (h : Reaches (step H) (Uses A N) start s) : s.Clean A :=
  h.invariant (clean_start A) fun _ _ _ ht hc hs => ht.step hA hN hc hs

/-! ### Runs with enough memory -/

/-- Where calls are made that do not depend on the rest. -/
def idle : Ost Unit DiodFid :=
  ⟨⟨(), .empty, .empty, 0, []⟩, ⟨⟨0, []⟩, none, none, false, false, false⟩⟩

/-- A host that always has memory. -/
def roomy : Host Unit := .steady fun _ => {}

theorem step_create (hi : s.held i = none) (aname : Bytes) :
    ∃ p paths, Asked s.paths aname (some p) paths ∧ step roomy s (idle, .create i aname) =
      some (s.give paths i ⟨p, aname, []⟩) := by
  obtain ⟨p, o', hr⟩ := ask_steady (fun _ => {}) aname { idle with paths := s.paths }
  refine ⟨p, o'.paths, (ask_asked _ hr).2, ?_⟩
  have hr : pathCreate roomy aname { idle with paths := s.paths } = (.ok p, o') := hr
  dsimp only [step]
  rw [hi, hr]
  rfl

theorem step_append {h : Holder} (hi : s.held i = some h) (hj : s.held j = none) (name : Bytes) :
    ∃ p paths, Asked s.paths (h.path.buf ++ 47 :: name) (some p) paths ∧
      step roomy s (idle, .append i j name) =
        some (s.give paths j ⟨p, h.aname, h.names ++ [name]⟩) := by
  obtain ⟨p, o', hr⟩ := ask_steady (fun _ => {}) (h.path.buf ++ 47 :: name)
    { idle with paths := s.paths }
  refine ⟨p, o'.paths, (ask_asked _ hr).2, ?_⟩
  have hr : pathAppend roomy h.path name { idle with paths := s.paths } = (.ok p, o') := hr
  dsimp only [step]
  rw [hi, hj, Option.bind_some, hr]
  rfl

/-- An attach, when nobody else is there. -/
theorem exists_attached {a : Bytes} (ha : a ∈ A) :
    ∃ s h, Reaches (step roomy) (Uses A N) start s ∧ s.held 0 = some h ∧
      (∀ j, 0 < j → s.held j = none) ∧ h.path.buf = a ∧ Only a s.paths := by
  obtain ⟨p, paths, hp, hstep⟩ := step_create (s := start) (i := 0) rfl a
  have hs : Reaches (step roomy) (Uses A N) start _ :=
    .tail (a := (idle, Call.create 0 a)) .refl ha hstep
  cases hp with
  | found hx => cases hx
  | made =>
    refine ⟨_, _, hs, held_give_self .., fun j hj => held_give_of_ne (Nat.ne_of_gt hj) .., rfl,
      ⟨fun id x hx => ?_, _, _, Heap.get_alloc_next _ _⟩⟩
    rcases eq_or_ne id start.paths.next with rfl | hne
    · cases (Heap.get_alloc_next _ _).symm.trans hx
      rfl
    · cases (Heap.get_alloc_of_ne hne _).symm.trans hx

/-- **The string of a path is its own exactly if no name has a NUL**: for clients that use names of
`A` to attach and names of `N` to walk, what a fid passes to the host depends only on the name it
attached to and the names it walked, and the length of every path is that of its string, if and
only if none of these names has a NUL. -/
theorem paths_own_iff (A N : Set Bytes) :
    ((∃ F : Bytes → List Bytes → Bytes, ∀ (σ : Type) (H : Host σ) (s : Holders),
        Reaches (step H) (Uses A N) start s →
          ∀ i h, s.held i = some h → h.path.s = F h.aname h.names) ∧
      ∀ (σ : Type) (H : Host σ) (s : Holders), Reaches (step H) (Uses A N) start s →
        ∀ id x, s.paths.get id = some x → x.buf.length = (cstr x.buf).length) ↔
    (∀ a ∈ A, 0 ∉ a) ∧ (A.Nonempty → ∀ n ∈ N, 0 ∉ n) := by
  constructor
  · rintro ⟨-, hlen⟩
    have hA : ∀ a ∈ A, 0 ∉ a := by
      intro a ha
      obtain ⟨s, h, hs, -, -, -, honly⟩ := exists_attached (N := N) ha
      obtain ⟨id, x, hx⟩ := honly.get
      rw [← honly.buf id x hx]
      exact length_eq_strlen_iff.mp (hlen Unit roomy s hs id x hx)
    refine ⟨hA, ?_⟩
    rintro ⟨a, ha⟩ n hn
    obtain ⟨s, h, hs, h0, hfree, hh, honly⟩ := exists_attached (N := N) ha
    obtain ⟨p, paths, hp, hstep⟩ := step_append h0 (hfree 1 one_pos) n
    rw [hh] at hp
    obtain ⟨x, hx, hxp⟩ := hp.get
    have hs' := hs.tail (a := (idle, Call.append 0 1 n)) hn hstep
    have hx0 := length_eq_strlen_iff.mp (hlen Unit roomy _ hs' p.id x hx)
    -- no other path has this string, so the new one is in the pool with its NUL
    cases hp with
    | found hy hc =>
      rw [honly.buf _ _ hy, cstr_of_not_mem (hA a ha), cstr_append_of_not_mem (hA a ha)] at hc
      have := congrArg List.length hc
      simp [cstr] at this
    | made =>
      rw [hxp] at hx0
      exact fun h => hx0 (by simp [h])
  · rintro ⟨hA, hN⟩
    refine ⟨⟨trail, fun σ H s hs i h hi => ?_⟩, fun σ H s hs id x hx => ?_⟩
    · obtain ⟨hb, h0⟩ := (clean_of_reaches hA hN hs).buf i h hi
      rw [Path.s, cstr_of_not_mem h0, hb]
    · exact length_eq_strlen_iff.mpr ((clean_of_reaches hA hN hs).strings id x hx)

/-- **A fid is moved by another one**, that attached to `/a` with a NUL behind it: after an attach
to `/a` and a walk to `b` it is at `/a/b`, or at `/a`. -/
theorem path_taken_over :
    ∃ s s' h h',
      runSteps (step roomy) start
        [(idle, .create 1 [47, 97]), (idle, .append 1 2 [98])] = some s ∧
      runSteps (step roomy) start
        [(idle, .create 0 [47, 97, 0]), (idle, .create 1 [47, 97]), (idle, .append 1 2 [98])] =
          some s' ∧
      s.held 2 = some h ∧ s'.held 2 = some h' ∧
      h.aname = h'.aname ∧ h.names = h'.names ∧
      h.path.s = [47, 97, 47, 98] ∧ h'.path.s = [47, 97] ∧
      h'.path.buf.length = 3 ∧ h'.path.s.length = 2 :=
  ⟨_, _, _, _, rfl, rfl, rfl, rfl, rfl, rfl, rfl, rfl, rfl, rfl⟩

end Holders

/-! ### The operations on fids -/

namespace Op

variable {σ α : Type} {H : Host σ}

/-- Neither the pool nor the place of the fid is touched. -/
def Aside (_ : End) (o o' : Ost σ DiodFid) : Prop := o'.paths = o.paths ∧ o'.f.path = o.f.path

theorem aside : Effect (Aside (σ := σ)) where
  refl _ _ := ⟨rfl, rfl⟩
  trans h h' := ⟨h'.1.trans h.1, h'.2.trans h.2⟩

theorem aside_fail (e : ℕ) : (fail e : Prog (Ost σ DiodFid) α).Does Aside := fun _ => ⟨rfl, rfl⟩

theorem aside_failIf (c : Prop) [Decidable c] (e : ℕ) :
    (failIf c e : Prog (Ost σ DiodFid) Unit).Does Aside :=
  aside.when fun _ => aside_fail e

theorem aside_malloc : (malloc H : Prog (Ost σ DiodFid) Malloc).Does Aside := fun _ => ⟨rfl, rfl⟩

theorem aside_allocOr (e : ℕ) : (allocOr H e : Prog (Ost σ DiodFid) Unit).Does Aside :=
  aside.bind aside_malloc fun m => by
    rcases m with _ | _
    · exact aside_fail e
    · exact aside.pure _

theorem aside_syscall (c : HostCall) :
    (syscall H c : Prog (Ost σ DiodFid) HostReply).Does Aside :=
  fun _ => ⟨rfl, rfl⟩

theorem aside_sysOr (c : HostCall) : (sysOr H c : Prog (Ost σ DiodFid) HostReply).Does Aside :=
  aside.bind (aside_syscall c) fun _ => does_ite (fun _ => aside.pure _) fun _ => aside_fail _

theorem aside_statmnt (path : Bytes) : (statmnt H path).Does Aside := by
  refine aside.bind (aside_syscall _) fun r => does_ite (fun _ => aside.pure _) fun _ =>
    aside.bind aside_malloc fun _ => does_ite (fun _ => aside.pure _) fun _ =>
    aside.bind (aside_syscall _) fun rp => does_ite (fun _ => aside.pure _) fun _ =>
    aside.bind (aside_syscall _) fun d => does_ite (fun _ => aside.pure _) fun _ =>
    aside.bind (aside_syscall _) fun e => aside.bind (aside_syscall _) fun _ => ?_
  split <;> exact aside.pure _

theorem aside_walkStat (npath : Path) (st : Stat) (dev : UInt64) :
    (walkStat H npath st dev).Does Aside := by
  refine does_ite (fun _ => aside.bind (aside_statmnt _) fun r => ?_) fun _ => aside.pure _
  split
  · exact aside.bind (fun _ => ⟨rfl, rfl⟩) fun _ => aside.pure _
  · exact aside_fail _

theorem aside_attachStat (C : Conf) (uid : UInt32) (aname : Bytes) (p : Path) :
    (attachStat H C uid aname p).Does Aside :=
  aside.bind (aside_failIf _ _) fun _ =>
  aside.bind aside_malloc fun _ =>
  aside.bind (aside.when fun _ _ => ⟨rfl, rfl⟩) fun _ =>
  aside.bind (aside_sysOr _) fun _ =>
  aside.bind (aside_allocOr _) fun _ => aside.pure _

end Op

namespace Holders

open Op

variable {σ : Type} {H : Host σ} {A N : Set Bytes} {s : Holders} {o o' : Ost σ DiodFid} {i j : ℕ}
  {h : Holder}

variable {aname : Bytes} {p : Path}

theorem give_of_create (hs : s.paths = o.paths) (hi : s.held i = none)
    (ha : aname ∈ A) (hr : pathCreate H aname o = (.ok p, o')) :
    Reaches (step H) (Uses A N) s (s.give o'.paths i ⟨p, aname, []⟩) := by
  refine .tail (a := (o, Call.create i aname)) .refl ha ?_
  have ho : { o with paths := s.paths } = o := by rw [hs]
  dsimp only [step]
  rw [hi, ho, hr]
  rfl

theorem give_of_append {name : Bytes} (hs : s.paths = o.paths)
    (hi : s.held i = some h) (hj : s.held j = none) (hn : name ∈ N)
    (hr : pathAppend H h.path name o = (.ok p, o')) :
    Reaches (step H) (Uses A N) s (s.give o'.paths j ⟨p, h.aname, h.names ++ [name]⟩) := by
  refine .tail (a := (o, Call.append i j name)) .refl hn ?_
  have ho : { o with paths := s.paths } = o := by rw [hs]
  dsimp only [step]
  rw [hi, hj, ho, Option.bind_some, hr]
  rfl

/-- **`diod_attach` is a call of `path_create`**: its fid holds what is returned. -/
theorem diodAttach_calls {C : Conf} {uid : UInt32} {m : Msg}
    (hr : diodAttach H C uid aname o = (.ok m, o')) (hs : s.paths = o.paths)
    (hi : s.held i = none) (ha : aname ∈ A) :
    Reaches (step H) (Uses A N) s (s.give o'.paths i ⟨o'.f.path, aname, []⟩) := by
  obtain ⟨p, o₁, hf, hr⟩ := bind_eq_ok hr
  obtain ⟨_, o₂, hm, hf⟩ := bind_eq_ok hf
  obtain ⟨r, o₃, hc, hf⟩ := bind_eq_ok hf
  obtain ⟨o₄, r', hst, hd, -⟩ := done_eq hr (by simp)
  cases hd
  have h₂ := (aside_allocOr _ o).of_eq hm
  have h₄ := (aside_attachStat _ _ _ _ o₁).of_eq hst
  rcases attempt_eq_ok hc with ⟨p', rfl, hp⟩ | ⟨rfl, -⟩
  · cases hf
    rw [h₄.1, h₄.2]
    have hgive : Reaches (step H) (Uses A N) s (s.give o₃.paths i ⟨p, aname, []⟩) :=
      give_of_create (hs.trans h₂.1.symm) hi ha hp
    exact hgive
  · cases hf

/-- **`diod_clone` is a call of `path_incref`.** -/
theorem diodClone_calls {d : DiodFid} (hr : diodClone H o = (.ok d, o')) (hs : s.paths = o.paths)
    (hi : s.held i = some h) (hp : h.path = o.f.path) (hj : s.held j = none) :
    Reaches (step H) (Uses A N) s (s.give o'.paths j ⟨d.path, h.aname, h.names⟩) := by
  obtain ⟨f, o₁, hf, hr⟩ := bind_eq_ok hr
  cases hf
  obtain ⟨_, o₂, hm, hr⟩ := bind_eq_ok hr
  have h₂ := (aside_allocOr _ o).of_eq hm
  cases hr
  refine .tail (a := (o₂, Call.incref i j)) .refl trivial ?_
  have ho : { o₂ with paths := s.paths } = o₂ := by rw [hs, ← h₂.1]
  dsimp only [step]
  rw [hi, hj, ho, Option.bind_some, hp]
  rfl

/-- **`diod_walk` is a call of `path_append`**, and one of `path_decref` for the path the fid has
left. -/
theorem diodWalk_calls {wname : Bytes} {q : Npqid} (hr : diodWalk H wname o = (.ok q, o'))
    (hs : s.paths = o.paths) (hi : s.held i = some h) (hp : h.path = o.f.path)
    (hj : s.held j = none) (hn : wname ∈ N) :
    ∃ s', Reaches (step H) (Uses A N) s s' ∧ s'.paths = o'.paths ∧ s'.held i = none ∧
      s'.held j = some ⟨o'.f.path, h.aname, h.names ++ [wname]⟩ := by
  obtain ⟨f, o₁, hf, hr⟩ := bind_eq_ok hr
  cases hf
  obtain ⟨_, o₁, hm, hr⟩ := bind_eq_ok hr
  obtain ⟨np, o₂, hap, hr⟩ := bind_eq_ok hr
  obtain ⟨o₇, r', hr, hd, -⟩ := done_eq hr (by simp)
  cases hd
  obtain ⟨r, o₃, hl, hr⟩ := bind_eq_ok hr
  obtain ⟨r₂, o₄, hst, hr⟩ := bind_eq_ok hr
  obtain ⟨st, o₅, hw, hr⟩ := bind_eq_ok hr
  obtain ⟨_, o₆, hdec, hr⟩ := bind_eq_ok hr
  cases hr
  have h₁ := (aside_failIf _ _ o).of_eq hm
  have h₃ := (aside_sysOr _ o₂).of_eq hl
  have h₄ := (aside_sysOr _ o₃).of_eq hst
  have h₅ := (aside_walkStat _ _ _ o₄).of_eq hw
  have hij : i ≠ j := by
    rintro rfl
    rw [hi] at hj
    cases hj
  have happend := give_of_append (A := A) (hs.trans h₁.1.symm) hi hj hn
    (hp ▸ pathAppendOr_eq_ok hap)
  have hpaths : o₂.paths = o₅.paths := (h₅.1.trans (h₄.1.trans h₃.1)).symm
  let t := s.give o₂.paths j ⟨np, h.aname, h.names ++ [wname]⟩
  refine ⟨⟨o₆.paths, Function.update t.held i none⟩,
    happend.tail (a := (o₅, Call.decref i)) trivial ?_, rfl, Function.update_self .., ?_⟩
  · have ho : { o₅ with paths := o₂.paths } = o₅ := by rw [hpaths]
    dsimp only [step]
    rw [held_give_of_ne hij, hi, Option.bind_some, hp]
    exact congrArg (leave _) ((congrArg (pathDecref o.f.path) ho).trans hdec)
  · exact (Function.update_of_ne hij.symm ..).trans (held_give_self ..)

end Holders

end Diod
