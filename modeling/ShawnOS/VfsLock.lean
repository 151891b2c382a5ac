/-
The spinlock around reference counts (`fs/vfs.c`, `kernel/kernel.h`).

One lock guards the counts of all inodes. A caller spins on it, loads the
count, stores it changed and unlocks, and every other caller may take steps
between any two of these. Seen from one inode the callers take the steps of
`vfsStep`, with the store as the step that counts: the update under the lock
is atomic.
-/
import ShawnOS.Lib.Spinlock
import ShawnOS.Vfs

namespace ShawnOS

open Word32 Spinlock Traces

/-- `vfs_inode_open` or `vfs_inode_close`. -/
inductive VfsOp where
  | inodeOpen
  | inodeClose
  deriving DecidableEq

/-- Where a caller is, and with which inode. -/
inductive LockPoint (ν : Type) where
  | idle
  | spin (op : VfsOp) (node : ν)
  | locked (op : VfsOp) (node : ν)
  | loaded (op : VfsOp) (node : ν) (refcount : Nat)
  | stored (op : VfsOp) (node : ν)
  | driver (op : VfsOp) (node : ν)

/-- `vfs_refcountLocked`, the inodes and the callers. -/
structure LockState (ι ν : Type) where
  vfsRefcountLocked : Nat
  nodes : ν → FsInode
  point : ι → LockPoint ν
  held : ι → ν → Nat
  opens : ν → Nat
  closes : ν → Nat

/-- One step of one caller. -/
inductive LockAction (ι ν : Type) where
  | call (c : ι) (op : VfsOp) (node : ν)
  | swap (c : ι)
  | load (c : ι)
  | store (c : ι)
  | unlock (c : ι)
  | ret (c : ι) (ret : KReturn)

/-- `ops && ops->open`, or `close`. -/
def FsInode.can (node : FsInode) : VfsOp → Bool
  | .inodeOpen => node.canOpen
  | .inodeClose => node.canClose

/-- `refcount++`, or `refcount--`. -/
def VfsOp.count (v : Nat) : VfsOp → Nat
  | .inodeOpen => u32 (v + 1)
  | .inodeClose => sub32 v 1

section
variable {ι ν : Type} [DecidableEq ι] [DecidableEq ν]

/-- Caller `c` has got to `p`. -/
def LockState.at (s : LockState ι ν) (c : ι) (p : LockPoint ν) : LockState ι ν :=
  { s with point := Function.update s.point c p }

/-- What a successful call leaves. -/
def LockState.finish (s : LockState ι ν) (c : ι) (n : ν) : VfsOp → LockState ι ν
  | .inodeOpen => { s with held := Function.update s.held c (Function.update (s.held c) n (s.held c n + 1)),
                           opens := Function.update s.opens n (s.opens n + 1) }
  | .inodeClose => { s with held := Function.update s.held c (Function.update (s.held c) n (s.held c n - 1)),
                            closes := Function.update s.closes n (s.closes n + 1) }

/-- `SPINLOCK_LOCK`, the update, `SPINLOCK_UNLOCK` and the driver's call. A
caller closes only what it holds. -/
def lockStep (s : LockState ι ν) : LockAction ι ν → Option (LockState ι ν)
  | .call c op n =>
    match s.point c with
    | .idle =>
      if op = .inodeClose → 0 < s.held c n then some (if (s.nodes n).can op then s.at c (.spin op n) else s) else none
    | _ => none
  | .swap c =>
    match s.point c with
    | .spin op n =>
      some (if s.vfsRefcountLocked = 0 then { s.at c (.locked op n) with vfsRefcountLocked := 1 } else s)
    | _ => none
  | .load c =>
    match s.point c with
    | .locked op n => some (s.at c (.loaded op n (s.nodes n).refcount))
    | _ => none
  | .store c =>
    match s.point c with
    | .loaded op n v =>
      some { s.at c (.stored op n) with
        nodes := Function.update s.nodes n { s.nodes n with refcount := op.count v } }
    | _ => none
  | .unlock c =>
    match s.point c with
    | .stored op n => some { s.at c (.driver op n) with vfsRefcountLocked := 0 }
    | _ => none
  | .ret c r =>
    match s.point c with
    | .driver op n => some (if r.failed then s.at c .idle else (s.at c .idle).finish c n op)
    | _ => none

/-! ## One inode's view -/

/-- Before the count changed, in the terms of `vfsStep`. -/
def VfsOp.before : VfsOp → VfsPoint
  | .inodeOpen => .openLock
  | .inodeClose => .closeLock

/-- After it. -/
def VfsOp.after : VfsOp → VfsPoint
  | .inodeOpen => .openDriver
  | .inodeClose => .closeDriver

/-- Where a caller is, for the inode `n`. -/
def LockPoint.view (n : ν) : LockPoint ν → VfsPoint
  | .idle => .idle
  | .spin op m | .locked op m | .loaded op m _ => if m = n then op.before else .idle
  | .stored op m | .driver op m => if m = n then op.after else .idle

/-- What the inode `n` sees. -/
def LockState.view (s : LockState ι ν) (n : ν) : VfsState ι where
  node := s.nodes n
  point c := (s.point c).view n
  held c := s.held c n
  opens := s.opens n
  closes := s.closes n

/-- The steps of `vfsStep` for one operation. -/
def VfsOp.callAction (c : ι) : VfsOp → VfsAction ι
  | .inodeOpen => .openCall c
  | .inodeClose => .closeCall c

def VfsOp.countAction (c : ι) : VfsOp → VfsAction ι
  | .inodeOpen => .openCount c
  | .inodeClose => .closeCount c

def VfsOp.returnAction (c : ι) (r : KReturn) : VfsOp → VfsAction ι
  | .inodeOpen => .openReturn c r
  | .inodeClose => .closeReturn c r

/-- The step of `vfsStep` that the inode `n` sees, if any. -/
def LockState.seen (s : LockState ι ν) (n : ν) : LockAction ι ν → Option (VfsAction ι)
  | .call c op m => if m = n then some (op.callAction c) else none
  | .store c =>
    match s.point c with
    | .loaded op m _ => if m = n then some (op.countAction c) else none
    | _ => none
  | .ret c r =>
    match s.point c with
    | .driver op m => if m = n then some (op.returnAction c r) else none
    | _ => none
  | _ => none

/-- The caller has the lock. -/
def LockPoint.Inside : LockPoint ν → Prop
  | .locked _ _ | .loaded _ _ _ | .stored _ _ => True
  | _ => False

/-- The lock guards the counts, and one that was loaded is still right. -/
structure LockInv (s : LockState ι ν) : Prop where
  guards : Guards s.vfsRefcountLocked fun c => (s.point c).Inside
  loaded : ∀ c op n v, s.point c = .loaded op n v → v = (s.nodes n).refcount

variable {s s' : LockState ι ν} {c d : ι} {p : LockPoint ν}

omit [DecidableEq ν] in
@[simp] theorem at_point_self : (s.at c p).point c = p := Function.update_self ..

omit [DecidableEq ν] in
theorem at_point_ne (h : d ≠ c) : (s.at c p).point d = s.point d := Function.update_of_ne h ..

omit [DecidableEq ν] in
/-- A caller moves outside of the lock. -/
theorem LockInv.outside (h : LockInv s) (hp : ¬ p.Inside) : LockInv (s.at c p) := by
  refine ⟨h.guards.stay fun d hd => ?_, fun d op n v hd => ?_⟩
  · by_cases hdc : d = c
    · rw [hdc, at_point_self] at hd
      exact absurd hd hp
    · rwa [at_point_ne hdc] at hd
  · by_cases hdc : d = c
    · rw [hdc, at_point_self] at hd
      rw [hd] at hp
      exact absurd trivial hp
    · rw [at_point_ne hdc] at hd
      exact h.loaded d op n v hd

/-- **One step** keeps the lock. -/
theorem LockInv.step (h : LockInv s) {a : LockAction ι ν} (hs : lockStep s a = some s') : LockInv s' := by
  cases a with
  | call c op n =>
    cases hp : s.point c with
    | idle =>
      simp only [lockStep, hp, Option.ite_none_right_eq_some, Option.some.injEq] at hs
      obtain ⟨-, rfl⟩ := hs
      split
      · exact h.outside (fun hf => hf)
      · exact h
    | _ => simp [lockStep, hp] at hs
  | swap c =>
    cases hp : s.point c with
    | spin op n =>
      simp only [lockStep, hp, Option.some.injEq] at hs
      subst hs
      split
      · next hfree =>
        have hg := h.guards
        rw [hfree] at hg
        refine ⟨hg.enter (c := c) fun d hdc hd => ?_, fun d op' n' v hd => ?_⟩
        · rwa [at_point_ne hdc] at hd
        · by_cases hdc : d = c
          · rw [hdc, at_point_self] at hd
            cases hd
          · rw [at_point_ne hdc] at hd
            exact h.loaded d op' n' v hd
      · exact h
    | _ => simp [lockStep, hp] at hs
  | load c =>
    cases hp : s.point c with
    | locked op n =>
      simp only [lockStep, hp, Option.some.injEq] at hs
      subst hs
      refine ⟨h.guards.stay fun d hd => ?_, fun d op' n' v hd => ?_⟩
      · by_cases hdc : d = c
        · rw [hdc, hp]
          trivial
        · rwa [at_point_ne hdc] at hd
      · by_cases hdc : d = c
        · rw [hdc, at_point_self] at hd
          cases hd
          rfl
        · rw [at_point_ne hdc] at hd
          exact h.loaded d op' n' v hd
    | _ => simp [lockStep, hp] at hs
  | store c =>
    cases hp : s.point c with
    | loaded op n v =>
      simp only [lockStep, hp, Option.some.injEq] at hs
      subst hs
      refine ⟨h.guards.stay fun d hd => ?_, fun d op' n' v' hd => ?_⟩
      · by_cases hdc : d = c
        · rw [hdc, hp]
          trivial
        · rwa [at_point_ne hdc] at hd
      · by_cases hdc : d = c
        · rw [hdc, at_point_self] at hd
          cases hd
        · rw [at_point_ne hdc] at hd
          -- Nobody else is inside while this caller stores.
          refine absurd (h.guards.alone d c ?_ ?_) hdc
          · rw [hd]
            trivial
          · rw [hp]
            trivial
    | _ => simp [lockStep, hp] at hs
  | unlock c =>
    cases hp : s.point c with
    | stored op n =>
      simp only [lockStep, hp, Option.some.injEq] at hs
      subst hs
      refine ⟨h.guards.leave (c := c) ?_ ?_ fun d hdc hd => ?_, fun d op' n' v hd => ?_⟩
      · rw [hp]
        trivial
      · rw [at_point_self]
        exact fun hf => hf
      · rwa [at_point_ne hdc] at hd
      · by_cases hdc : d = c
        · rw [hdc, at_point_self] at hd
          cases hd
        · rw [at_point_ne hdc] at hd
          exact h.loaded d op' n' v hd
    | _ => simp [lockStep, hp] at hs
  | ret c r =>
    cases hp : s.point c with
    | driver op n =>
      simp only [lockStep, hp, Option.some.injEq] at hs
      subst hs
      have hidle := h.outside (c := c) (p := .idle) fun hf => hf
      split
      · exact hidle
      · cases op
        all_goals exact ⟨hidle.guards, hidle.loaded⟩
    | _ => simp [lockStep, hp] at hs

/-! ## Refinement -/

omit [DecidableEq ν] in
theorem vfsStep_call {v : VfsState ι} {op : VfsOp} (hp : v.point c = .idle) (hheld : op = .inodeClose → 0 < v.held c) :
    vfsStep v (op.callAction c) =
      some (if v.node.can op then { v with point := Function.update v.point c op.before } else v) := by
  cases op with
  | inodeOpen => exact if_pos hp
  | inodeClose => exact if_pos ⟨hp, hheld rfl⟩

omit [DecidableEq ν] in
theorem vfsStep_count {v : VfsState ι} {op : VfsOp} (hp : v.point c = op.before) :
    vfsStep v (op.countAction c) = some { v with
      node := { v.node with refcount := op.count v.node.refcount }, point := Function.update v.point c op.after } := by
  cases op
  all_goals exact if_pos hp

/-- A successful return, seen from one inode. -/
def VfsState.finish (v : VfsState ι) (c : ι) : VfsOp → VfsState ι
  | .inodeOpen => { v with held := Function.update v.held c (v.held c + 1), opens := v.opens + 1 }
  | .inodeClose => { v with held := Function.update v.held c (v.held c - 1), closes := v.closes + 1 }

omit [DecidableEq ν] in
theorem vfsStep_return {v : VfsState ι} {op : VfsOp} (hp : v.point c = op.after) (r : KReturn) :
    vfsStep v (op.returnAction c r) = some (if r.failed then { v with point := Function.update v.point c .idle }
      else { v with point := Function.update v.point c .idle }.finish c op) := by
  cases op
  all_goals exact if_pos hp

/-- A caller moves, seen from the inode `n`. -/
theorem view_at (n : ν) : (s.at c p).view n = { s.view n with point := Function.update (s.view n).point c (p.view n) } := by
  have hpoint : ((s.at c p).view n).point = Function.update (s.view n).point c (p.view n) := by
    funext d
    by_cases hd : d = c
    · rw [hd, Function.update_self]
      exact congrArg (LockPoint.view n) at_point_self
    · rw [Function.update_of_ne hd]
      exact congrArg (LockPoint.view n) (at_point_ne hd)
  rw [← hpoint]
  rfl

/-- A move that the inode `n` does not see. -/
theorem view_at_same {n : ν} (hp : p.view n = (s.point c).view n) : (s.at c p).view n = s.view n := by
  rw [view_at, hp]
  exact congrArg (fun f => { s.view n with point := f }) (Function.update_eq_self c _)

/-- The end of a call on the inode `n`. -/
theorem view_finish (op : VfsOp) (n : ν) : (s.finish c n op).view n = (s.view n).finish c op := by
  have hheld (x : Nat) : (fun d => Function.update s.held c (Function.update (s.held c) n x) d n) =
      Function.update (fun d => s.held d n) c x := by
    funext d
    by_cases hd : d = c
    · rw [hd, Function.update_self, Function.update_self, Function.update_self]
    · rw [Function.update_of_ne hd, Function.update_of_ne hd]
  cases op
  all_goals simp only [LockState.view, LockState.finish, VfsState.finish, hheld, Function.update_self]

/-- The end of a call on another inode. -/
theorem view_finish_ne (op : VfsOp) {m n : ν} (hne : n ≠ m) : (s.finish c m op).view n = s.view n := by
  have hheld (x : Nat) : (fun d => Function.update s.held c (Function.update (s.held c) m x) d n) = fun d => s.held d n := by
    funext d
    by_cases hd : d = c
    · rw [hd, Function.update_self, Function.update_of_ne hne]
    · rw [Function.update_of_ne hd]
  cases op
  all_goals simp only [LockState.view, LockState.finish, hheld, Function.update_of_ne hne]

/-- What one inode sees of a step: a step of `vfsStep`, or nothing. -/
def SeenStep (s s' : LockState ι ν) (n : ν) (a : LockAction ι ν) : Prop :=
  match s.seen n a with
  | some b => vfsStep (s.view n) b = some (s'.view n)
  | none => s'.view n = s.view n

/-- **The update under the lock is atomic**: to every inode. -/
theorem LockInv.view_step (h : LockInv s) {a : LockAction ι ν} (hs : lockStep s a = some s') (n : ν) : SeenStep s s' n a := by
  cases a with
  | call c op m =>
    cases hp : s.point c with
    | idle =>
      simp only [lockStep, hp, Option.ite_none_right_eq_some, Option.some.injEq] at hs
      obtain ⟨hheld, rfl⟩ := hs
      by_cases hm : m = n
      · subst hm
        rw [SeenStep, LockState.seen, if_pos rfl]
        refine (vfsStep_call (congrArg (LockPoint.view m) hp) hheld).trans ?_
        show some (if (s.nodes m).can op then _ else _) = _
        split
        · rw [view_at]
          simp [LockPoint.view]
        · rfl
      · rw [SeenStep, LockState.seen, if_neg hm]
        show (if (s.nodes m).can op then _ else _ : LockState ι ν).view n = _
        split
        · exact view_at_same (by rw [hp]; exact if_neg hm)
        · rfl
    | _ => simp [lockStep, hp] at hs
  | swap c =>
    cases hp : s.point c with
    | spin op m =>
      simp only [lockStep, hp, Option.some.injEq] at hs
      subst hs
      show (if s.vfsRefcountLocked = 0 then _ else _ : LockState ι ν).view n = _
      split
      · exact view_at_same (p := .locked op m) (by rw [hp]; rfl)
      · rfl
    | _ => simp [lockStep, hp] at hs
  | load c =>
    cases hp : s.point c with
    | locked op m =>
      simp only [lockStep, hp, Option.some.injEq] at hs
      subst hs
      exact view_at_same (by rw [hp]; rfl)
    | _ => simp [lockStep, hp] at hs
  | store c =>
    cases hp : s.point c with
    | loaded op m v =>
      simp only [lockStep, hp, Option.some.injEq] at hs
      subst hs
      have hv := h.loaded c op m v hp
      by_cases hm : m = n
      · subst hm
        rw [SeenStep]
        simp only [LockState.seen, hp, if_true]
        refine (vfsStep_count ?_).trans ?_
        · show (s.point c).view m = op.before
          rw [hp]
          exact if_pos rfl
        · show _ = some { (s.at c (.stored op m)).view m with
            node := Function.update s.nodes m { s.nodes m with refcount := op.count v } m }
          rw [Function.update_self, view_at, hv]
          simp [LockPoint.view, LockState.view]
      · rw [SeenStep]
        simp only [LockState.seen, hp, if_neg hm]
        show { (s.at c (.stored op m)).view n with
          node := Function.update s.nodes m { s.nodes m with refcount := op.count v } n } = s.view n
        rw [Function.update_of_ne (Ne.symm hm), view_at_same (by rw [hp]; exact (if_neg hm).trans (if_neg hm).symm)]
        rfl
    | _ => simp [lockStep, hp] at hs
  | unlock c =>
    cases hp : s.point c with
    | stored op m =>
      simp only [lockStep, hp, Option.some.injEq] at hs
      subst hs
      exact view_at_same (p := .driver op m) (by rw [hp]; rfl)
    | _ => simp [lockStep, hp] at hs
  | ret c r =>
    cases hp : s.point c with
    | driver op m =>
      simp only [lockStep, hp, Option.some.injEq] at hs
      subst hs
      by_cases hm : m = n
      · subst hm
        rw [SeenStep]
        simp only [LockState.seen, hp, if_true]
        refine (vfsStep_return ?_ r).trans ?_
        · show (s.point c).view m = op.after
          rw [hp]
          exact if_pos rfl
        · split
          · rw [view_at]
            rfl
          · rw [view_finish, view_at]
            rfl
      · rw [SeenStep]
        simp only [LockState.seen, hp, if_neg hm]
        have hidle : (s.at c .idle).view n = s.view n := view_at_same (by rw [hp]; exact (if_neg hm).symm)
        split
        · exact hidle
        · rw [view_finish_ne op (Ne.symm hm), hidle]
    | _ => simp [lockStep, hp] at hs

/-! ## Runs -/

/-- Inodes that nobody has opened, of drivers with any operations. -/
def LockState.unopened (ι : Type) (ops : ν → Option FsInodeOps) : LockState ι ν where
  vfsRefcountLocked := 0
  nodes n := ⟨0, ops n⟩
  point _ := .idle
  held _ _ := 0
  opens _ := 0
  closes _ := 0

/-- What one inode sees of a run. -/
def LockState.seenRun (n : ν) : LockState ι ν → List (LockAction ι ν) → List (VfsAction ι)
  | _, [] => []
  | s, a :: l => (s.seen n a).toList ++ ((lockStep s a).elim [] fun s' => s'.seenRun n l)

/-- The lock is kept over a run. -/
theorem LockInv.kept : ∀ {run : List (LockAction ι ν)} {s s' : LockState ι ν}, LockInv s → run.foldlM lockStep s = some s' →
    LockInv s'
  | [], s, s', h, hrun => by
    cases hrun
    exact h
  | a :: run, s, s', h, hrun => by
    obtain ⟨s₁, hs, hrest⟩ := Option.bind_eq_some_iff.mp hrun
    exact (h.step hs).kept hrest

/-- One inode sees a run of `vfsStep`. -/
theorem LockInv.refines (n : ν) : ∀ {run : List (LockAction ι ν)} {s s' : LockState ι ν}, LockInv s →
    run.foldlM lockStep s = some s' → (s.seenRun n run).foldlM vfsStep (s.view n) = some (s'.view n)
  | [], s, s', h, hrun => by
    cases hrun
    rfl
  | a :: run, s, s', h, hrun => by
    obtain ⟨s₁, hs, hrest⟩ := Option.bind_eq_some_iff.mp hrun
    have hseen := (h.step hs).refines n hrest
    have hview := h.view_step hs n
    rw [SeenStep] at hview
    rw [LockState.seenRun, hs, Option.elim_some]
    cases hb : s.seen n a with
    | none =>
      rw [hb] at hview
      rw [← hview]
      exact hseen
    | some b =>
      rw [hb] at hview
      rw [Option.toList_some, List.singleton_append, List.foldlM_cons, hview]
      exact hseen

/-- An increment of the count loaded does not wrap. -/
def LockPoint.Fits : LockPoint ν → Prop
  | .loaded .inodeOpen _ v => v + 1 < 2 ^ 32
  | _ => True

/-- The driver succeeds, and no increment wraps. -/
def LockSucceeds (s : LockState ι ν) : LockAction ι ν → Prop
  | .ret _ r => r = .success
  | .store c => (s.point c).Fits
  | _ => True

omit [DecidableEq ι] in
/-- What the inode sees succeeds too. -/
theorem LockInv.succeeds {n : ν} {a : LockAction ι ν} {b : VfsAction ι} (h : LockInv s) (hb : s.seen n a = some b)
    (hok : LockSucceeds s a) : Succeeds (s.view n) b := by
  cases a with
  | call c op m =>
    simp only [LockState.seen, Option.ite_none_right_eq_some, Option.some.injEq] at hb
    obtain ⟨-, rfl⟩ := hb
    cases op
    all_goals trivial
  | store c =>
    cases hp : s.point c with
    | loaded op m v =>
      simp only [LockState.seen, hp, Option.ite_none_right_eq_some, Option.some.injEq] at hb
      obtain ⟨rfl, rfl⟩ := hb
      cases op with
      | inodeOpen =>
        rw [LockSucceeds, hp] at hok
        have hv := h.loaded c .inodeOpen m v hp
        show (s.nodes m).refcount + 1 < 2 ^ 32
        rw [← hv]
        exact hok
      | inodeClose => trivial
    | _ => simp [LockState.seen, hp] at hb
  | ret c r =>
    cases hp : s.point c with
    | driver op m =>
      simp only [LockState.seen, hp, Option.ite_none_right_eq_some, Option.some.injEq] at hb
      obtain ⟨-, rfl⟩ := hb
      cases op
      all_goals exact hok
    | _ => simp [LockState.seen, hp] at hb
  | _ => simp [LockState.seen] at hb

theorem LockInv.tracks [Fintype ι] (n : ν) : ∀ {run : List (LockAction ι ν)} {s s' : LockState ι ν}, LockInv s →
    VfsInv (s.view n) → EachStep lockStep LockSucceeds s run → run.foldlM lockStep s = some s' → VfsInv (s'.view n)
  | [], s, s', _, hv, _, hrun => by
    cases hrun
    exact hv
  | a :: run, s, s', h, hv, hok, hrun => by
    obtain ⟨s₁, hs, hrest⟩ := Option.bind_eq_some_iff.mp hrun
    have hview := h.view_step hs n
    rw [SeenStep] at hview
    cases hb : s.seen n a with
    | none =>
      rw [hb] at hview
      exact (h.step hs).tracks n (hview ▸ hv) (hok.2 s₁ hs) hrest
    | some b =>
      rw [hb] at hview
      exact (h.step hs).tracks n (hv.step hview (h.succeeds hb hok.1)).1 (hok.2 s₁ hs) hrest

omit [DecidableEq ι] [DecidableEq ν] in
theorem LockInv.start (ops : ν → Option FsInodeOps) : LockInv (LockState.unopened ι ops) :=
  ⟨.start fun _ hf => hf, fun _ _ _ _ he => by cases he⟩

/-- **The reference counts under their lock.** In every interleaving of the
callers' loads, stores, swaps and driver calls, on any inodes:
- one caller at most has the lock;
- each inode sees a run of the atomic `vfsStep`;
- and where all driver calls succeed and no increment wraps, the count of an
  inode on which no call is in progress is what was opened and not closed. -/
theorem vfs_lock_atomic [Fintype ι] (ops : ν → Option FsInodeOps) (run : List (LockAction ι ν)) (s : LockState ι ν)
    (hrun : run.foldlM lockStep (LockState.unopened ι ops) = some s) :
    (∀ c d, (s.point c).Inside → (s.point d).Inside → c = d) ∧
    (∀ n, ((LockState.unopened ι ops).seenRun n run).foldlM vfsStep ((LockState.unopened ι ops).view n) = some (s.view n)) ∧
    (EachStep lockStep LockSucceeds (LockState.unopened ι ops) run → ∀ n, RefcountTracks (s.view n)) := by
  have hstart : LockInv (LockState.unopened ι ops) := .start ops
  refine ⟨(hstart.kept hrun).guards.alone, fun n => hstart.refines n hrun, fun hok n => ?_⟩
  have hzero : VfsInv ((LockState.unopened ι ops).view n) := ⟨by simp [LockState.view, LockState.unopened],
    by simp [LockState.view, LockState.unopened, share, LockPoint.view], by simp [LockState.view, LockState.unopened],
    by simp [LockState.view, LockState.unopened, LockPoint.view]⟩
  exact (hstart.tracks n hzero hok hrun).tracks

end

instance {ν : Type} : ∀ p : LockPoint ν, Decidable p.Fits
  | .loaded .inodeOpen _ _ => inferInstanceAs (Decidable (_ < _))
  | .loaded .inodeClose _ _ | .idle | .spin _ _ | .locked _ _ | .stored _ _ | .driver _ _ => isTrue trivial

instance {ι ν : Type} (s : LockState ι ν) : ∀ a : LockAction ι ν, Decidable (LockSucceeds s a)
  | .ret _ _ => inferInstanceAs (Decidable (_ = _))
  | .store c => inferInstanceAs (Decidable (s.point c).Fits)
  | .call _ _ _ | .swap _ | .load _ | .unlock _ => isTrue trivial

/-- Two callers open one inode, and the second spins while the first stores. -/
def twoOpeners : List (LockAction Bool Unit) :=
  [.call false .inodeOpen (), .call true .inodeOpen (), .swap false, .load false, .swap true, .store false, .unlock false,
    .swap true, .load true, .ret false .success, .store true, .unlock true, .ret true .success]

theorem vfs_lock_atomic_twoOpeners : ∃ s : LockState Bool Unit,
    twoOpeners.foldlM lockStep (LockState.unopened Bool fun _ => some ⟨true, true⟩) = some s ∧ RefcountTracks (s.view ()) := by
  let start := LockState.unopened Bool fun _ : Unit => some ⟨true, true⟩
  have hsome : (twoOpeners.foldlM lockStep start).isSome := by decide
  refine ⟨_, (Option.some_get hsome).symm, ?_⟩
  exact (vfs_lock_atomic _ twoOpeners _ (Option.some_get hsome).symm).2.2 (by decide) ()

end ShawnOS
