import Diod.Npclient.Calls
import Diod.Backend.Ops
import Diod.Lib.Pieces
import Mathlib.Logic.Function.Basic
import Mathlib.Data.List.TakeWhile

/-!
# Walking a path

`npc_walk` cuts a path into its components and sends them in messages of at most sixteen
names: the first message makes the new fid, the others move it. On the server `np_walk`
takes one name after the other, and goes on only from a directory; **the start of a message
is not checked**.

Here both are run against each other, over a host that does not change, and the result is
compared with a walk of all components under the rule of the loop in `np_walk`. The two can
differ where one message ends and the next one begins. A file there that is not a directory,
such as a link to one, is walked through; and **when the first name of a later message cannot
be walked, `npc_walk` frees the reply to the message before it a second time**. There is no
other way (`Diod.walk_agrees_iff`).
-/

namespace Diod

/-! ### The server -/

/-- What a walk has to do with a fid: its path, the type of the file, and whether it is a
mount point. -/
structure Wfid where
  path : Bytes
  type : UInt8
  mountpt : Bool
deriving DecidableEq

/-- `fid->type & Qtdir` -/
def Wfid.isDir (f : Wfid) : Bool := f.type &&& Qtdir != 0

/-- The fids of a connection. -/
structure Wsrv where
  fids : UInt32 → Option Wfid

namespace Wsrv

variable (reply : HostCall → HostReply)

/-- `if (c < 0) { np_uerror (errno); goto error; }` -/
def ask (c : HostCall) : Except ℕ HostReply :=
  if (reply c).err = 0 then .ok (reply c) else .error (reply c).err

/-- `_statmnt` -/
def statmnt (path : Bytes) : Except ℕ Stat := do
  let r ← ask reply (.stat path)
  let rp ← ask reply (.stat (path ++ [47, 46, 46]))
  let d ← ask reply (.opendir (path ++ [47, 46, 46]))
  let e := reply (.readdir d.num 0)
  match e.ents.find? fun d => d.name == Op.basename path with
  | some dp => .ok { r.st with dev := rp.st.dev, ino := dp.ino }
  | none => .error (if e.err ≠ 0 then e.err else ENOENT)

/-- `diod_walk`, and the type that `np_walk` takes from the qid -/
def diodWalk (f : Wfid) (wname : Bytes) : Except ℕ (Wfid × Npqid) :=
  if f.mountpt then .error ENOENT
  else do
    let npath := f.path ++ 47 :: wname
    let r ← ask reply (.lstat npath)
    let r2 ← ask reply (.stat f.path)
    if r.st.dev ≠ r2.st.dev then
      let st ← statmnt reply npath
      .ok (⟨npath, (diodUstat2qid st).type, true⟩, diodUstat2qid st)
    else .ok (⟨npath, (diodUstat2qid r.st).type, false⟩, diodUstat2qid r.st)

/-- The loop of `np_walk`: the qids, and where it ends. -/
def walkLoop (f : Wfid) : List Bytes → List Npqid × Wfid
  | [] => ([], f)
  | wname :: wnames =>
    match diodWalk reply f wname with
    | .error _ => ([], f)
    | .ok (g, q) =>
      if wnames ≠ [] ∧ g.isDir = false then ([q], g)
      else (q :: (walkLoop g wnames).1, (walkLoop g wnames).2)

/-- The error of a walk that does not get anywhere. -/
def firstError (f : Wfid) : List Bytes → ℕ
  | [] => 0
  | wname :: _ =>
    match diodWalk reply f wname with
    | .error e => e
    | .ok _ => 0

/-- `np_walk` -/
def npWalk (fid newfid : UInt32) (wnames : List Bytes) (x : Wsrv) : Msg × Wsrv :=
  match x.fids fid with
  | none => (.rlerror (.ofNat EIO), x)
  | some f =>
    if wnames.length > MAXWELEM ∨ fid ≠ newfid ∧ x.fids newfid ≠ none then
      (.rlerror (.ofNat EIO), x)
    else if (walkLoop reply f wnames).1 = [] ∧ wnames ≠ [] then
      (.rlerror (.ofNat (firstError reply f wnames)), x)
    else
      (.rwalk (walkLoop reply f wnames).1,
        ⟨Function.update x.fids newfid (some (walkLoop reply f wnames).2)⟩)

/-- **The server, as far as `npc_walk` needs it.** A fid that has not been opened can be
clunked without an error. -/
def rpc : Msg → Wsrv → Msg × Wsrv
  | .twalk fid newfid wnames, x => npWalk reply fid newfid wnames x
  | .tclunk fid, x =>
    match x.fids fid with
    | none => (.rlerror (.ofNat EIO), x)
    | some _ => (.rclunk, ⟨Function.update x.fids fid none⟩)
  | _, x => (.rlerror (.ofNat ENOSYS), x)

/-- One step of a walk. -/
def step (f : Wfid) (wname : Bytes) : Option Wfid := (diodWalk reply f wname).toOption.map (·.1)

/-! ### Messages -/

variable {reply}

variable {f : Wfid} {wname : Bytes}

theorem step_of_error {e : ℕ} (h : diodWalk reply f wname = .error e) :
    step reply f wname = none := by
  rw [step, h]
  rfl

theorem step_of_ok {g : Wfid} {q : Npqid}
    (h : diodWalk reply f wname = .ok (g, q)) : step reply f wname = some g := by
  rw [step, h]
  rfl

/-- The loop of `np_walk` makes its checks before each step but the first. -/
theorem walkLoop_eq (f : Wfid) (wnames : List Bytes) :
    ((walkLoop reply f wnames).1.length, (walkLoop reply f wnames).2) =
      advance (step reply) Wfid.isDir false f wnames := by
  induction wnames generalizing f with
  | nil => rfl
  | cons wname wnames ih =>
    rw [walkLoop, advance, if_neg (by simp)]
    rcases h : diodWalk reply f wname with e | r
    · rw [step_of_error h]; rfl
    · obtain ⟨g, q⟩ := r
      rw [step_of_ok h]
      by_cases hc : wnames ≠ [] ∧ g.isDir = false
      · obtain ⟨hne, hg⟩ := hc
        obtain ⟨n, ns, rfl⟩ := List.exists_cons_of_ne_nil hne
        simp [hg, advance]
      · have hlater : advance (step reply) Wfid.isDir true g wnames =
            advance (step reply) Wfid.isDir false g wnames := by
          rcases wnames with _ | ⟨n, ns⟩
          · rfl
          · have hg : g.isDir = true := by simpa using hc
            simp [advance, hg]
        simp only [if_neg hc, hlater, ← ih, List.length_cons]

/-- **One message**: it is refused when not a single name can be walked. -/
theorem rpc_twalk {x : Wsrv} {fid newfid : UInt32} {wnames : List Bytes}
    (hf : x.fids fid = some f) (hn : fid ≠ newfid → x.fids newfid = none)
    (hlen : wnames.length ≤ MAXWELEM) : let r := advance (step reply) Wfid.isDir false f wnames
    (r.1 = 0 ∧ wnames ≠ [] ∧ ∃ e, rpc reply (.twalk fid newfid wnames) x = (.rlerror e, x)) ∨
      (¬(r.1 = 0 ∧ wnames ≠ []) ∧ ∃ qids, qids.length = r.1 ∧
        rpc reply (.twalk fid newfid wnames) x =
          (.rwalk qids, ⟨Function.update x.fids newfid (some r.2)⟩)) := by
  have hloop := @walkLoop_eq reply f wnames
  have hnew : ¬(wnames.length > MAXWELEM ∨ fid ≠ newfid ∧ x.fids newfid ≠ none) := by
    rintro (h | ⟨hne, h⟩)
    · exact absurd hlen (Nat.not_le_of_gt h)
    · exact h (hn hne)
  have hrpc : rpc reply (.twalk fid newfid wnames) x = npWalk reply fid newfid wnames x := rfl
  rw [hrpc, npWalk, hf, ← hloop]
  dsimp only
  rw [if_neg hnew, List.length_eq_zero_iff]
  by_cases h : (walkLoop reply f wnames).1 = [] ∧ wnames ≠ []
  · rw [if_pos h]
    exact .inl ⟨h.1, h.2, _, rfl⟩
  · rw [if_neg h]
    exact .inr ⟨h, _, rfl, rfl⟩

end Wsrv

/-! ### Components -/

/-- **The components of a path**: what is between its slashes, if there is anything. -/
def comps (s : Bytes) : List Bytes := (s.splitOn 47).filter (· ≠ [])

theorem comps_nil : comps [] = [] := rfl

variable {w s : Bytes}

theorem comps_append_slash (hw : ∀ c ∈ w, c ≠ 47) (s : Bytes) :
    comps (w ++ 47 :: s) = if w = [] then comps s else w :: comps s := by
  rw [comps, List.splitOn, List.splitOnP_append_cons_of_forall_mem (by simpa using hw) 47 (by rfl),
    List.filter_cons]
  by_cases h : w = []
  · simp [h, comps, List.splitOn]
  · simp [h, comps, List.splitOn]

theorem comps_slash (s : Bytes) : comps (47 :: s) = comps s :=
  comps_append_slash (w := []) (by simp) s

theorem comps_word (hw : ∀ c ∈ w, c ≠ 47) (hne : w ≠ []) : comps w = [w] := by
  rw [comps, List.splitOn, List.splitOnP_eq_singleton (by simpa using hw)]
  simp [hne]

theorem comps_dropWhile (s : Bytes) : comps (s.dropWhile (· = 47)) = comps s := by
  induction s with
  | nil => rfl
  | cons c s ih =>
    rw [List.dropWhile_cons]
    split
    · rename_i hc
      rw [of_decide_eq_true hc, comps_slash, ih]
    · rfl

theorem forall_takeWhile_ne (s : Bytes) : ∀ x ∈ s.takeWhile (· ≠ 47), x ≠ 47 := fun x hx => by
  simpa using List.mem_takeWhile_imp hx

/-- The last component. -/
theorem comps_last (hs : s ≠ []) (hd : s.dropWhile (· ≠ 47) = []) :
    s.takeWhile (· ≠ 47) = s ∧ comps s = [s] := by
  have hsplit := List.takeWhile_append_dropWhile (p := fun x : UInt8 => decide (x ≠ 47)) (l := s)
  rw [hd, List.append_nil] at hsplit
  exact ⟨hsplit, comps_word (hsplit ▸ forall_takeWhile_ne s) hs⟩

/-- The next component, and what is behind the slash. -/
theorem comps_next {c x : UInt8} {rest : Bytes} (hc : c ≠ 47)
    (hd : (c :: s).dropWhile (· ≠ 47) = x :: rest) :
    comps (c :: s) = (c :: s).takeWhile (· ≠ 47) :: comps rest ∧
      rest.length < (c :: s).length := by
  have hx : x = 47 := by
    have hne : (c :: s).dropWhile (· ≠ 47) ≠ [] := by rw [hd]; simp
    have hhead := List.head_dropWhile_not (fun x : UInt8 => decide (x ≠ 47)) hne
    simp only [hd, List.head_cons] at hhead
    simpa using hhead
  subst hx
  have hsplit := List.takeWhile_append_dropWhile (p := fun x : UInt8 => decide (x ≠ 47))
    (l := c :: s)
  rw [hd] at hsplit
  constructor
  · have hne : (c :: s).takeWhile (· ≠ 47) ≠ [] := by simp [hc]
    conv_lhs => rw [← hsplit]
    rw [comps_append_slash (forall_takeWhile_ne _), if_neg hne]
  · have hlen := congrArg List.length hsplit
    rw [List.length_append, List.length_cons] at hlen
    omega

namespace Npc

/-- **The inner loop of `npc_walk`** takes the next components of the path, and has come to
its end when there is no slash behind the last one. -/
theorem gather_spec {k m : ℕ} {s s' : Bytes} {t t' : Bool} {names : List Bytes}
    (hk : s.length ≤ k) (hm : 0 < m ∨ t = true) (h : gather k m s t = (names, s', t')) :
    names = (comps s).take m ∧ (t' = true → comps s' = (comps s).drop m) ∧
      (t' = false → (comps s).length ≤ m) ∧ s'.length ≤ s.length ∧
      (0 < m → t' = true → s ≠ [] → s'.length < s.length) := by
  induction k generalizing m s t names with
  | zero =>
    obtain rfl := List.eq_nil_of_length_eq_zero (Nat.le_zero.mp hk)
    rw [gather] at h
    obtain ⟨rfl, rfl, rfl⟩ := h
    simp [comps_nil]
  | succ k ih =>
    match m, s with
    | 0, s =>
      obtain rfl : t = true := hm.resolve_left (Nat.lt_irrefl 0)
      rw [gather] at h
      obtain ⟨rfl, rfl, rfl⟩ := h
      simp
    | m + 1, [] =>
      rw [gather] at h
      obtain ⟨rfl, rfl, rfl⟩ := h
      simp [comps_nil]
    | m + 1, c :: s =>
      have hks : s.length ≤ k := Nat.le_of_succ_le_succ hk
      by_cases hc : c = 47
      · subst hc
        rw [gather, if_pos rfl] at h
        obtain ⟨hn, ht, hf, hl, -⟩ := ih hks (.inl (Nat.succ_pos m)) h
        rw [comps_slash]
        exact ⟨hn, ht, hf, Nat.le_succ_of_le hl, fun _ _ _ => Nat.lt_succ_of_le hl⟩
      · rw [gather, if_neg hc] at h
        rcases hd : (c :: s).dropWhile (· ≠ 47) with _ | ⟨x, rest⟩
        · obtain ⟨hword, hcomps⟩ := comps_last (by simp) hd
          rw [hd, hword] at h
          obtain ⟨rfl, rfl, rfl⟩ := h
          simp [hcomps]
        · obtain ⟨hcomps, hlen⟩ := comps_next hc hd
          rw [hd] at h
          rcases hg : gather k m rest true with ⟨names', s'', t''⟩
          dsimp only at h
          rw [hg] at h
          obtain ⟨rfl, rfl, rfl⟩ := h
          obtain ⟨hn, ht, hf, hl, -⟩ := ih (by rw [List.length_cons] at hlen; omega) (.inr rfl) hg
          rw [hcomps]
          exact ⟨by rw [hn, List.take_succ_cons], fun h => by rw [ht h, List.drop_succ_cons],
            fun h => Nat.succ_le_succ (hf h), by omega, fun _ _ _ => by omega⟩

/-! ### The walk -/

section

variable {reply : HostCall → HostReply} {f : Npcfid}

variable {c : Npcfsys Wsrv} {g : Wfid} {k : ℕ} {later t t' : Bool} {nfid e : UInt32} {s s' : Bytes}
  {names : List Bytes} {x : Wsrv} {qids : List Npqid}

theorem clunkAndFail_eq {α : Type} (hg : c.peer.fids f.fid = some g) :
    (clunkAndFail (Wsrv.rpc reply) f : Prog (Npcfsys Wsrv) α) c =
      (.stop, { c with
        fidpool := c.fidpool.npcPutId f.fid
        peer := ⟨Function.update c.peer.fids f.fid none⟩ }) := by
  have hrpc : Wsrv.rpc reply (.tclunk f.fid) c.peer =
      (.rclunk, ⟨Function.update c.peer.fids f.fid none⟩) := by
    simp only [Wsrv.rpc, hg]
  have hclunk : npcClunk (Wsrv.rpc reply) f c = (.ok (), { c with
      fidpool := c.fidpool.npcPutId f.fid
      peer := ⟨Function.update c.peer.fids f.fid none⟩ }) := by
    rw [npcClunk, Prog.bind_of_ok (npcRpc_of_reply _ (by decide) hrpc)]
    rfl
  rw [clunkAndFail, Prog.read_bind, Prog.bind_of_ok (Prog.attempt_of_ok hclunk)]
  rfl

/-- A message that is refused. -/
theorem walkLoop_of_error (hs : gather s.length MAXWELEM s t = (names, s', t'))
    (hr : Wsrv.rpc reply (.twalk nfid f.fid names) c.peer = (.rlerror e, x)) :
    walkLoop (Wsrv.rpc reply) f (k + 1) later nfid s t c =
      walkError (Wsrv.rpc reply) later nfid f { c with peer := x, ecode := e.toNat } := by
  rw [walkLoop, hs]
  exact Prog.bind_of_ok (Prog.attempt_of_stop (npcRpc_of_error _ hr))

/-- A message that is answered. -/
theorem walkLoop_of_reply (hs : gather s.length MAXWELEM s t = (names, s', t'))
    (hr : Wsrv.rpc reply (.twalk nfid f.fid names) c.peer = (.rwalk qids, x)) :
    walkLoop (Wsrv.rpc reply) f (k + 1) later nfid s t c =
      if qids.length ≠ names.length then
        walkError (Wsrv.rpc reply) false f.fid f { c with peer := x, ecode := ENOENT }
      else if t' = false ∨ s' = [] then (.ok (), { c with peer := x })
      else walkLoop (Wsrv.rpc reply) f k true f.fid s' t' { c with peer := x } := by
  have hok := Prog.attempt_of_ok (npcRpc_of_reply (Wsrv.rpc reply) (by rintro ⟨⟩) hr)
  rw [walkLoop, hs]
  refine (Prog.bind_of_ok hok).trans ?_
  have hn : nwqid (.rwalk qids) = qids.length := rfl
  by_cases hq : qids.length ≠ names.length
  · rw [if_pos hq]
    exact congrFun (if_pos (hn ▸ hq)) _
  · rw [if_neg hq]
    refine (congrFun (if_neg (hn ▸ hq)) _).trans ?_
    split <;> rfl

/-- The label `error`, with a fid that the server has. -/
theorem walkError_known (hg : c.peer.fids f.fid = some g) :
    walkError (Wsrv.rpc reply) false f.fid f c =
      (.stop, { c with
        fidpool := c.fidpool.npcPutId f.fid
        peer := ⟨Function.update c.peer.fids f.fid none⟩ }) :=
  (congrFun (if_pos rfl) _).trans (clunkAndFail_eq hg)

/-- The label `error`, with a fid that the server has not. -/
theorem walkError_unknown (hne : nfid ≠ f.fid) :
    walkError (Wsrv.rpc reply) false nfid f c =
      (.stop, { c with fidpool := c.fidpool.npcPutId f.fid }) :=
  congrFun (if_neg hne) _

/-- **How the loop of `npc_walk` ends**, in terms of a walk in pieces: with the fid where the
walk arrives; with the fid clunked and its number given back; or not at all, when a later
message fails altogether. -/
def LoopEnds (f : Npcfid) (c : Npcfsys Wsrv) (r : Res Unit × Npcfsys Wsrv) : Ending Wfid → Prop
  | .arrived h => r = (.ok (), { c with peer := ⟨Function.update c.peer.fids f.fid (some h)⟩ })
  | .missed => ∃ e, r = (.stop, { c with
      fidpool := c.fidpool.npcPutId f.fid
      peer := ⟨Function.update c.peer.fids f.fid none⟩
      ecode := e })
  | .stuck => ∃ c', r = (.crash, c')

/-- Where the fid was before does not matter in the end. -/
theorem loopEnds_update {r : Res Unit × Npcfsys Wsrv} {o : Option Wfid} {x : Ending Wfid}
    (h : LoopEnds f { c with peer := ⟨Function.update c.peer.fids f.fid o⟩ } r x) :
    LoopEnds f c r x := by
  cases x with
  | arrived g => simpa only [LoopEnds, Function.update_idem] using h
  | missed => simpa only [LoopEnds, Function.update_idem] using h
  | stuck => exact h

/-- A message that gets through: the loop is over, or goes on from there. -/
theorem loopEnds_through {j : ℕ} (later : Bool) {h : Wfid}
    (hs : gather s.length MAXWELEM s t = (names, s', t'))
    (hr : Wsrv.rpc reply (.twalk nfid f.fid names) c.peer =
      (.rwalk qids, ⟨Function.update c.peer.fids f.fid (some h)⟩)) (hq : qids.length = names.length)
    (hrest : t' = true → s' ≠ [] →
      LoopEnds f { c with peer := ⟨Function.update c.peer.fids f.fid (some h)⟩ }
        (walkLoop (Wsrv.rpc reply) f k true f.fid s' t'
          { c with peer := ⟨Function.update c.peer.fids f.fid (some h)⟩ })
        (inPieces (Wsrv.step reply) Wfid.isDir MAXWELEM j true h (comps s'))) :
    LoopEnds f c (walkLoop (Wsrv.rpc reply) f (k + 1) later nfid s t c)
      (inPieces (Wsrv.step reply) Wfid.isDir MAXWELEM j true h ((comps s).drop MAXWELEM)) := by
  obtain ⟨-, hmore, hlast, -, -⟩ := gather_spec (Nat.le_refl _) (.inl (by decide)) hs
  rw [walkLoop_of_reply hs hr, if_neg (by simp [hq])]
  by_cases hend : t' = false ∨ s' = []
  · have hnil : (comps s).drop MAXWELEM = [] := by
      rcases t' with _ | _
      · exact List.drop_eq_nil_of_le (hlast rfl)
      · rw [← hmore rfl, hend.resolve_left (by simp), comps_nil]
    rw [if_pos hend, hnil]
    cases j <;> rfl
  · rw [if_neg hend]
    obtain ⟨ht, hne⟩ := not_or.mp hend
    rw [Bool.not_eq_false] at ht
    rw [← hmore ht]
    exact loopEnds_update (hrest ht hne)

/-- A message whose first name cannot be walked. -/
theorem loopEnds_refused {j : ℕ} (hs : gather s.length MAXWELEM s t = (names, s', t'))
    (hr : Wsrv.rpc reply (.twalk nfid f.fid names) c.peer = (.rlerror e, c.peer))
    (h0 : (advance (Wsrv.step reply) Wfid.isDir false g names).1 = 0) (hne : names ≠ [])
    (hf : later = false → nfid ≠ f.fid ∧ c.peer.fids f.fid = none) (hj : (comps s).length ≤ j) :
    LoopEnds f c (walkLoop (Wsrv.rpc reply) f (k + 1) later nfid s t c)
      (inPieces (Wsrv.step reply) Wfid.isDir MAXWELEM j later g (comps s)) := by
  obtain ⟨rfl, -⟩ := gather_spec (Nat.le_refl _) (.inl (by decide)) hs
  rw [walkLoop_of_error hs hr]
  obtain ⟨n, ns, hcomps⟩ := List.exists_cons_of_ne_nil
    (fun h : comps s = [] => hne (by rw [h, List.take_nil]))
  obtain ⟨j, rfl⟩ := Nat.exists_eq_succ_of_ne_zero
    (Nat.ne_of_gt (Nat.lt_of_lt_of_le (by rw [hcomps]; simp) hj))
  rw [hcomps] at h0 hne ⊢
  have hshort : ¬0 = ((n :: ns).take MAXWELEM).length := fun h =>
    hne (List.eq_nil_of_length_eq_zero h.symm)
  rw [inPieces, h0, if_neg hshort]
  rcases later with _ | _
  · obtain ⟨hnf, hfresh⟩ := hf rfl
    rw [if_neg (by simp)]
    refine ⟨e.toNat, ?_⟩
    rw [← hfresh, Function.update_eq_self]
    exact walkError_unknown hnf
  · rw [if_pos ⟨rfl, rfl⟩]
    exact ⟨_, rfl⟩

/-- **The loop of `npc_walk` is a walk in pieces.** The first message makes the fid, later
ones move it. -/
theorem walkLoop_spec (k : ℕ) (later : Bool) (nfid : UInt32) (c : Npcfsys Wsrv) (g : Wfid)
    (s : Bytes) (t : Bool) (j : ℕ) (hg : c.peer.fids nfid = some g)
    (hl : later = true → nfid = f.fid)
    (hf : later = false → nfid ≠ f.fid ∧ c.peer.fids f.fid = none) (hk : s.length < k)
    (hj : (comps s).length ≤ j) :
    LoopEnds f c (walkLoop (Wsrv.rpc reply) f k later nfid s t c)
      (inPieces (Wsrv.step reply) Wfid.isDir MAXWELEM j later g (comps s)) := by
  induction k generalizing later nfid c g s t j with
  | zero => exact absurd hk (Nat.not_lt_zero _)
  | succ k ih =>
    rcases hs : gather s.length MAXWELEM s t with ⟨names, s', t'⟩
    obtain ⟨hnames, hmore, -, hle, hlt⟩ := gather_spec (Nat.le_refl _) (.inl (by decide)) hs
    have hlen : names.length ≤ MAXWELEM := by
      rw [hnames, List.length_take]
      exact Nat.min_le_left _ _
    have hn : nfid ≠ f.fid → c.peer.fids f.fid = none := fun hne => by
      rcases later with _ | _
      · exact (hf rfl).2
      · exact absurd (hl rfl) hne
    have hmsg := @Wsrv.rpc_twalk reply _ _ _ _ _ hg hn hlen
    rcases hmsg with ⟨h0, hne, e, hrpc⟩ | ⟨hno, qids, hq, hrpc⟩
    · exact loopEnds_refused hs hrpc h0 hne hf hj
    generalize hr : advance (Wsrv.step reply) Wfid.isDir false g names = r at hno hq hrpc
    -- the rest of the path is shorter, by the message's names
    have hrest : ∀ j', ((comps s).drop MAXWELEM).length ≤ j' → t' = true → s' ≠ [] →
        LoopEnds f { c with peer := ⟨Function.update c.peer.fids f.fid (some r.2)⟩ }
          (walkLoop (Wsrv.rpc reply) f k true f.fid s' t'
            { c with peer := ⟨Function.update c.peer.fids f.fid (some r.2)⟩ })
          (inPieces (Wsrv.step reply) Wfid.isDir MAXWELEM j' true r.2 (comps s')) := by
      intro j' hj' ht hs'
      have hne : s ≠ [] := by
        rintro rfl
        exact hs' (List.eq_nil_of_length_eq_zero (Nat.le_zero.mp hle))
      exact ih true f.fid _ r.2 s' t' j' (Function.update_self ..) (fun _ => rfl) nofun
        (by have := hlt (by decide) ht hne; omega) (by rw [hmore ht]; exact hj')
    rcases hcomps : comps s with _ | ⟨n, ns⟩
    · -- a message without names
      rw [hcomps, List.take_nil] at hnames
      subst hnames
      obtain rfl : (0, g) = r := hr
      have hends := loopEnds_through later hs hrpc hq (hrest 0 (by rw [hcomps]; simp))
      rw [hcomps] at hends
      cases j <;> exact hends
    · obtain ⟨j, rfl⟩ := Nat.exists_eq_succ_of_ne_zero
        (Nat.ne_of_gt (Nat.lt_of_lt_of_le (by rw [hcomps]; simp) hj))
      have hr' := hr
      rw [hnames, hcomps] at hr'
      have hnn : names.length = ((n :: ns).take MAXWELEM).length := by rw [hnames, hcomps]
      rw [inPieces, hr']
      by_cases hthrough : r.1 = ((n :: ns).take MAXWELEM).length
      · have hdrop : ((comps s).drop MAXWELEM).length ≤ j := by
          have : 0 < MAXWELEM := by decide
          rw [List.length_drop]
          omega
        rw [if_pos hthrough, ← hcomps]
        exact loopEnds_through later hs hrpc (hq.trans (hthrough.trans hnn.symm)) (hrest j hdrop)
      · -- some names, but not all
        have hne : names ≠ [] := by
          rw [hnames, hcomps]
          simp [MAXWELEM]
        rw [if_neg hthrough, if_neg fun h => hno ⟨h.1, hne⟩, walkLoop_of_reply hs hrpc,
          if_pos (by rw [hq, hnn]; exact hthrough)]
        refine ⟨ENOENT, ?_⟩
        rw [walkError_known (Function.update_self ..)]
        simp only [Function.update_idem]

end

end Npc

/-! ### The whole path -/

namespace Wsrv

section

variable (reply : HostCall → HostReply)

/-- **A walk of all components**, one at a time, under the rule of the loop in `np_walk`. -/
def oneByOne (f : Wfid) : List Bytes → Option Wfid
  | [] => some f
  | wname :: wnames =>
    (step reply f wname).bind fun g =>
      if wnames ≠ [] ∧ g.isDir = false then none else oneByOne g wnames

/-- **A walk in messages**, where the rule does not apply between two of them. -/
def byMessages (f : Wfid) (wnames : List Bytes) : Option Wfid :=
  march (step reply) Wfid.isDir (within MAXWELEM) 0 f wnames

/-- **The messages do not show**: where a later one is reached, its first name can be
walked; and if all names can be walked, each of them begins in a directory. -/
def Seamless (f : Wfid) (wnames : List Bytes) : Prop :=
  (∀ i (hi : i < wnames.length), 0 < i → MAXWELEM ∣ i →
    ∀ g ∈ byMessages reply f (wnames.take i), step reply g wnames[i] ≠ none) ∧
  (byMessages reply f wnames ≠ none → ∀ i < wnames.length, 0 < i → MAXWELEM ∣ i →
    ∀ g ∈ byMessages reply f (wnames.take i), g.isDir = true)

instance (f : Wfid) (wnames : List Bytes) : Decidable (Seamless reply f wnames) :=
  inferInstanceAs (Decidable (_ ∧ _))

end

variable {reply : HostCall → HostReply} {f g : Wfid} {wname : Bytes} {wnames : List Bytes}

theorem march_eq_oneByOne (f : Wfid) (wnames : List Bytes) :
    march (step reply) Wfid.isDir afterFirst 0 f wnames =
      oneByOne reply f wnames := by
  have hlater : ∀ (wnames : List Bytes) (i : ℕ) (g : Wfid),
      march (step reply) Wfid.isDir afterFirst (i + 1) g wnames =
        if wnames ≠ [] ∧ g.isDir = false then none else oneByOne reply g wnames := by
    intro wnames
    induction wnames with
    | nil => intro i g; rfl
    | cons wname wnames ih =>
      intro i g
      rw [march, oneByOne]
      rcases hg : g.isDir with _ | _
      · rfl
      · simp [ih]
  rcases wnames with _ | ⟨wname, wnames⟩
  · rfl
  · simp [march, oneByOne, hlater, afterFirst]

theorem except_bind_ok {ε α β : Type} {x : Except ε α} {f : α → Except ε β} {b : β}
    (h : x >>= f = .ok b) : ∃ a, x = .ok a ∧ f a = .ok b := by
  rcases x with e | a
  · cases h
  · exact ⟨a, rfl, h⟩

theorem diodWalk_path {q : Npqid} (h : diodWalk reply f wname = .ok (g, q)) :
    g.path = f.path ++ 47 :: wname := by
  unfold diodWalk at h
  split at h
  · cases h
  · obtain ⟨r, -, h⟩ := except_bind_ok h
    obtain ⟨r2, -, h⟩ := except_bind_ok h
    split at h
    · obtain ⟨st, -, h⟩ := except_bind_ok h
      cases h
      rfl
    · cases h
      rfl

theorem step_path (h : step reply f wname = some g) : g.path = f.path ++ 47 :: wname := by
  rcases hw : diodWalk reply f wname with e | r
  · rw [step_of_error hw] at h
    cases h
  · rw [step_of_ok (g := r.1) (q := r.2) hw] at h
    cases h
    exact diodWalk_path hw

/-- Where a walk arrives is at the path of its start followed by all components. -/
theorem oneByOne_path (h : oneByOne reply f wnames = some g) :
    g.path = f.path ++ wnames.flatMap (47 :: ·) := by
  induction wnames generalizing f with
  | nil =>
    obtain rfl : f = g := Option.some_inj.mp h
    simp
  | cons wname wnames ih =>
    obtain ⟨f', hs, h⟩ := Option.bind_eq_some_iff.mp h
    split at h
    · cases h
    · rw [ih h, step_path hs]
      simp

end Wsrv

section

variable (reply : HostCall → HostReply)

/-- **`npc_walk` does what it is for**: it returns a new fid for the path of the root
followed by all components, or it returns `NULL` and neither side keeps a fid, as the walk of
one component at a time says. -/
def WalkAgrees (c : Npcfsys Wsrv) (nfid : Npcfid) (root : Wfid) (path : Bytes) : Prop :=
  match Wsrv.oneByOne reply root (comps (cstr path)) with
  | some g => g.path = root.path ++ (comps (cstr path)).flatMap (47 :: ·) ∧
      ∃ f c', Npc.npcWalk (Wsrv.rpc reply) nfid (some path) c = (.ok f, c') ∧
        c.fidpool.has f.fid = false ∧
        (∀ n, c'.fidpool.has n = (c.fidpool.has n || decide (n = f.fid))) ∧
        c'.peer.fids = Function.update c.peer.fids f.fid (some g)
  | none => ∃ c', Npc.npcWalk (Wsrv.rpc reply) nfid (some path) c = (.stop, c') ∧
      (∀ n, c'.fidpool.has n = c.fidpool.has n) ∧ c'.peer.fids = c.peer.fids

variable {reply} {c : Npcfsys Wsrv} {nfid : Npcfid} {root : Wfid} {path : Bytes}

/-- **The messages of a walk show** in two ways and no others: the first name of a later
message cannot be walked, or a walk gets through which should have stopped between two
messages. There is a fid for the root, a number that is not in use, and the server has no
fid for a number that the client has not given out. -/
theorem walk_agrees_iff (hroot : c.peer.fids nfid.fid = some root)
    (hsync : ∀ n, c.fidpool.has n = false → c.peer.fids n = none)
    (hfree : c.fidpool.npcGetId ≠ none) :
    WalkAgrees reply c nfid root path ↔ Wsrv.Seamless reply root (comps (cstr path)) := by
  obtain ⟨⟨id, p⟩, hid⟩ := Option.ne_none_iff_exists'.mp hfree
  obtain ⟨hnew, hhas⟩ := Npcpool.npcGetId_spec hid
  have hne : nfid.fid ≠ id := by
    rintro rfl
    rw [hsync _ hnew] at hroot
    cases hroot
  -- the state in which the loop begins
  have halloc : Npc.npcFidAlloc c = (.ok ⟨id, 0, 0⟩, { c with fidpool := p }) := by
    rw [Npc.npcFidAlloc, hid]
  generalize hs : (cstr path).dropWhile (· = 47) = s
  have hcomps : comps s = comps (cstr path) := by rw [← hs, comps_dropWhile]
  have hwalk : Npc.npcWalk (Wsrv.rpc reply) nfid (some path) c =
      (Npc.walkLoop (Wsrv.rpc reply) ⟨id, 0, 0⟩ (s.length + 1) false nfid.fid s false >>= fun _ =>
        pure ⟨id, 0, 0⟩) { c with fidpool := p } := by
    rw [Npc.npcWalk, hs]
    exact Prog.bind_of_ok halloc
  have hloop := @Npc.walkLoop_spec reply ⟨id, 0, 0⟩ (s.length + 1) false nfid.fid
    { c with fidpool := p } root s false _ hroot nofun (fun _ => ⟨hne, hsync id hnew⟩)
    (Nat.lt_succ_self _) (Nat.le_refl _)
  have hpieces := @inPieces_eq_iff Wfid Bytes (Wsrv.step reply) Wfid.isDir root (comps s) MAXWELEM
    (by decide)
  rw [hcomps] at hloop hpieces
  rw [Wsrv.march_eq_oneByOne] at hpieces
  refine Iff.trans ?_ hpieces
  unfold WalkAgrees
  rw [hwalk]
  cases hin : inPieces (Wsrv.step reply) Wfid.isDir MAXWELEM (comps (cstr path)).length false root
      (comps (cstr path)) with
  | arrived h =>
    rw [hin] at hloop
    rw [Prog.bind_of_ok hloop]
    rcases hone : Wsrv.oneByOne reply root (comps (cstr path)) with _ | g
    · exact iff_of_false (by rintro ⟨c', hw, -⟩; cases hw) (by rintro ⟨⟩)
    · constructor
      · rintro ⟨-, f, c', hw, -, -, hfids⟩
        obtain ⟨hf, rfl⟩ := Prod.mk.inj hw
        obtain rfl := Res.ok.inj hf
        have hup : Function.update c.peer.fids id (some h) id =
            Function.update c.peer.fids id (some g) id := congrFun hfids id
        rw [Function.update_self, Function.update_self] at hup
        exact congrArg _ (Option.some_inj.mp hup)
      · rintro ⟨⟩
        exact ⟨Wsrv.oneByOne_path hone, _, _, rfl, hnew, hhas, rfl⟩
  | missed =>
    rw [hin] at hloop
    obtain ⟨e, hloop⟩ := hloop
    rw [Prog.bind_of_stop hloop]
    rcases hone : Wsrv.oneByOne reply root (comps (cstr path)) with _ | g
    · refine iff_of_true ⟨_, rfl, fun n => ?_, ?_⟩ rfl
      · -- the number is given back
        change (p.npcPutId id).has n = _
        rw [Npcpool.has_npcPutId, hhas]
        by_cases hn : n = id
        · simp [hn, hnew]
        · simp [hn]
      · change Function.update c.peer.fids id none = _
        rw [← hsync id hnew, Function.update_eq_self]
    · exact iff_of_false (by rintro ⟨-, f, c', hw, -⟩; cases hw) (by rintro ⟨⟩)
  | stuck =>
    rw [hin] at hloop
    obtain ⟨c', hloop⟩ := hloop
    rw [Prog.bind_of_crash hloop]
    rcases hone : Wsrv.oneByOne reply root (comps (cstr path)) with _ | g
    · exact iff_of_false (by rintro ⟨c', hw, -⟩; cases hw) (by rintro ⟨⟩)
    · exact iff_of_false (by rintro ⟨-, f, c', hw, -⟩; cases hw) (by rintro ⟨⟩)

end

/-- A host with directories, some of which are links to directories. -/
def dirHost (there link : Bytes → Bool) : HostCall → HostReply
  | .lstat p =>
    if there p then { st := { (default : Stat) with mode := if link p then 0xa1ff else 0x41ed } }
    else { err := ENOENT }
  | _ => { st := { (default : Stat) with mode := 0x41ed } }

/-- A client that has attached to a directory, with fid 0. -/
def attached : Npcfsys Wsrv where
  msize := 65536
  fidpool := ⟨NOFID, 1 :: List.replicate 31 0, by simp⟩
  peer := ⟨fun n => if n = 0 then some ⟨[], Qtdir, false⟩ else none⟩

/-- A path of seventeen components, which take two messages. -/
def deepPath : Bytes := (List.replicate 17 [97, 47]).flatten

/-- Seventeen directories. -/
theorem walk_agrees_deep :
    WalkAgrees (dirHost (fun _ => true) fun _ => false) attached ⟨0, 0, 0⟩ ⟨[], Qtdir, false⟩
        deepPath ∧
      Wsrv.oneByOne (dirHost (fun _ => true) fun _ => false) ⟨[], Qtdir, false⟩
        (comps (cstr deepPath)) ≠ none := by
  refine ⟨(walk_agrees_iff rfl (fun n hn => if_neg ?_) ?_).mpr ?_, ?_⟩
  · rintro rfl
    revert hn
    decide
  · decide +kernel
  · decide +kernel
  · decide +kernel

/-- **The messages show**: where the seventeenth name is not there the program frees a reply
twice, and where the sixteenth is a link to a directory the walk does not stop there. -/
theorem walk_shows_messages :
    ¬WalkAgrees (dirHost (fun p => p.length < 34) fun _ => false) attached ⟨0, 0, 0⟩
        ⟨[], Qtdir, false⟩ deepPath ∧
      ¬WalkAgrees (dirHost (fun _ => true) fun p => p.length = 32) attached ⟨0, 0, 0⟩
        ⟨[], Qtdir, false⟩ deepPath := by
  have hmissing : (Npc.npcWalk (Wsrv.rpc (dirHost (fun p => p.length < 34) fun _ => false))
      ⟨0, 0, 0⟩ (some deepPath) attached).1.ending = .crash := by decide +kernel
  have hlink : (Npc.npcWalk (Wsrv.rpc (dirHost (fun _ => true) fun p => p.length = 32))
      ⟨0, 0, 0⟩ (some deepPath) attached).1.ending = .ok := by decide +kernel
  have hnone : Wsrv.oneByOne (dirHost (fun p => p.length < 34) fun _ => false)
      ⟨[], Qtdir, false⟩ (comps (cstr deepPath)) = none := by decide +kernel
  have hnone' : Wsrv.oneByOne (dirHost (fun _ => true) fun p => p.length = 32)
      ⟨[], Qtdir, false⟩ (comps (cstr deepPath)) = none := by decide +kernel
  unfold WalkAgrees
  rw [hnone, hnone']
  constructor
  · rintro ⟨c', hw, -⟩
    rw [hw] at hmissing
    cases hmissing
  · rintro ⟨c', hw, -⟩
    rw [hw] at hlink
    cases hlink

end Diod
