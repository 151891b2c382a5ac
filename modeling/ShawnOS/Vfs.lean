/-
Opening and closing inodes (`fs/vfs.c`).

`vfs_inode_open` and `vfs_inode_close` change the reference count under the
spinlock and then call the driver, whose result they return. Several callers
run at once: each is at one of the points between its call, its locked
update and its driver's answer. The count is right whenever no call is in
progress as long as every driver call succeeds; an open that fails has been
counted, a close that fails no longer is.
-/
import ShawnOS.Kernel
import ShawnOS.Lib.Traces
import Mathlib.Algebra.BigOperators.Group.Finset.Basic
import Mathlib.Data.Fintype.Basic

namespace ShawnOS

open Word32 Traces

/-- What opening and closing use of `fs_inode_ops_t`: whether the driver
implements the operation. -/
structure FsInodeOps where
  hasOpen : Bool
  hasClose : Bool

/-- What opening and closing use of `fs_inode_t`. -/
structure FsInode where
  refcount : Nat
  ops : Option FsInodeOps

/-- `ops && ops->open`. -/
def FsInode.canOpen (node : FsInode) : Bool := node.ops.any (·.hasOpen)

/-- `ops && ops->close`. -/
def FsInode.canClose (node : FsInode) : Bool := node.ops.any (·.hasClose)

/-- Where a caller is: outside, before the locked update, or in the driver. -/
inductive VfsPoint where
  | idle
  | openLock
  | openDriver
  | closeLock
  | closeDriver
deriving DecidableEq

/-- The inode and its callers. `held` is what each caller opened and did not
close, `opens` and `closes` count the calls that returned `K_SUCCESS`. -/
structure VfsState (ι : Type) where
  node : FsInode
  point : ι → VfsPoint
  held : ι → Nat
  opens : Nat
  closes : Nat

/-- One step of one caller. The driver's result is its own. -/
inductive VfsAction (ι : Type) where
  | openCall (c : ι)
  | openCount (c : ι)
  | openReturn (c : ι) (ret : KReturn)
  | closeCall (c : ι)
  | closeCount (c : ι)
  | closeReturn (c : ι) (ret : KReturn)

section
variable {ι : Type} [DecidableEq ι]

/-- `vfs_inode_open` and `vfs_inode_close`, step by step. A caller closes
only what it holds. Without the operation the call returns `K_UNIMPL` at
once. -/
def vfsStep (s : VfsState ι) : VfsAction ι → Option (VfsState ι)
  | .openCall c =>
    if s.point c = .idle then
      some (if s.node.canOpen then { s with point := Function.update s.point c .openLock } else s)
    else none
  | .openCount c =>
    if s.point c = .openLock then
      some { s with
        node := { s.node with refcount := u32 (s.node.refcount + 1) }
        point := Function.update s.point c .openDriver }
    else none
  | .openReturn c ret =>
    if s.point c = .openDriver then
      let s := { s with point := Function.update s.point c .idle }
      some (if ret.failed then s
        else { s with held := Function.update s.held c (s.held c + 1), opens := s.opens + 1 })
    else none
  | .closeCall c =>
    if s.point c = .idle ∧ 0 < s.held c then
      some (if s.node.canClose then { s with point := Function.update s.point c .closeLock } else s)
    else none
  | .closeCount c =>
    if s.point c = .closeLock then
      some { s with
        node := { s.node with refcount := sub32 s.node.refcount 1 }
        point := Function.update s.point c .closeDriver }
    else none
  | .closeReturn c ret =>
    if s.point c = .closeDriver then
      let s := { s with point := Function.update s.point c .idle }
      some (if ret.failed then s
        else { s with held := Function.update s.held c (s.held c - 1), closes := s.closes + 1 })
    else none

/-- An inode nobody has opened, with both operations. -/
def unopened (ι : Type) : VfsState ι where
  node := ⟨0, some ⟨true, true⟩⟩
  point _ := .idle
  held _ := 0
  opens := 0
  closes := 0

/-- Whenever no call is in progress, the reference count is the number of
successful opens less that of successful closes. -/
def RefcountTracks (s : VfsState ι) : Prop :=
  (∀ c, s.point c = .idle) → s.closes ≤ s.opens ∧ s.node.refcount = s.opens - s.closes

/-- The count is not decremented below zero. -/
def NoUnderflow (s : VfsState ι) (a : VfsAction ι) : Prop := ∀ c, a = .closeCount c → 0 < s.node.refcount

/-- The caller takes the step it is at. -/
def Enabled (s : VfsState ι) (a : VfsAction ι) : Prop := (vfsStep s a).isSome

/-- The driver succeeds, and no increment wraps. -/
def Succeeds (s : VfsState ι) : VfsAction ι → Prop
  | .openReturn _ ret | .closeReturn _ ret => ret = .success
  | .openCount _ => s.node.refcount + 1 < 2 ^ 32
  | _ => True

/-! ## The invariant -/

/-- What a caller adds to the count. -/
def share (s : VfsState ι) (c : ι) : Nat :=
  match s.point c with
  | .openDriver => s.held c + 1
  | .closeDriver => s.held c - 1
  | _ => s.held c

/-- The count is the sum of the shares. -/
structure VfsInv [Fintype ι] (s : VfsState ι) : Prop where
  lt : s.node.refcount < 2 ^ 32
  count : s.node.refcount = ∑ c, share s c
  held : s.opens = (∑ c, s.held c) + s.closes
  closing : ∀ c, s.point c = .closeLock ∨ s.point c = .closeDriver → 0 < s.held c

/-- A sum of which one term changes. -/
theorem sum_one_change [Fintype ι] {f g : ι → Nat} {c : ι} (h : ∀ d, d ≠ c → g d = f d) :
    (∑ d, g d) + f c = (∑ d, f d) + g c := by
  rw [← Finset.add_sum_erase _ g (Finset.mem_univ c), ← Finset.add_sum_erase _ f (Finset.mem_univ c),
    Finset.sum_congr rfl fun d hd => h d (Finset.ne_of_mem_erase hd)]
  simp only [Nat.add_comm, Nat.add_left_comm]

omit [DecidableEq ι] in
theorem VfsInv.start [Fintype ι] : VfsInv (unopened ι) := by
  refine ⟨by simp [unopened], ?_, ?_, ?_⟩
  · simp [unopened, share]
  · simp [unopened]
  · simp [unopened]

omit [DecidableEq ι] in
theorem VfsInv.tracks [Fintype ι] {s : VfsState ι} (h : VfsInv s) : RefcountTracks s := by
  intro hidle
  have hshare : ∑ c, share s c = ∑ c, s.held c := Finset.sum_congr rfl fun c _ => by rw [share, hidle c]
  have h1 := h.count; have h2 := h.held
  omega

/-- One caller moved: its point and what it holds are new. -/
theorem VfsInv.moved [Fintype ι] {s s' : VfsState ι} (h : VfsInv s) (c : ι)
    (hpoint : ∀ d, d ≠ c → s'.point d = s.point d) (hheld : ∀ d, d ≠ c → s'.held d = s.held d)
    (hlt : s'.node.refcount < 2 ^ 32) (hcount : s'.node.refcount + share s c = s.node.refcount + share s' c)
    (hopens : s'.opens + s.held c + s.closes = s.opens + s'.held c + s'.closes)
    (hclosing : s'.point c = .closeLock ∨ s'.point c = .closeDriver → 0 < s'.held c) : VfsInv s' := by
  have hshares := @sum_one_change ι _ _ (share s) (share s') c fun d hd => by
    rw [share, share, hpoint d hd, hheld d hd]
  have hsum := @sum_one_change ι _ _ s.held s'.held c hheld
  have h1 := h.count; have h2 := h.held
  refine ⟨hlt, by omega, by omega, fun d hd => ?_⟩
  by_cases he : d = c
  · rw [he] at hd ⊢
    exact hclosing hd
  · rw [hpoint d he] at hd
    rw [hheld d he]
    exact h.closing d hd

theorem VfsInv.share_le [Fintype ι] {s : VfsState ι} (h : VfsInv s) (c : ι) : share s c ≤ s.node.refcount := by
  rw [h.count, ← Finset.add_sum_erase _ _ (Finset.mem_univ c)]
  exact Nat.le_add_right _ _

/-- **One step** keeps the invariant while the driver succeeds, and takes
nothing off a count of zero. -/
theorem VfsInv.step [Fintype ι] {s s' : VfsState ι} {a : VfsAction ι} (h : VfsInv s) (hs : vfsStep s a = some s')
    (hok : Succeeds s a) : VfsInv s' ∧ NoUnderflow s a := by
  have hlt := h.lt
  cases a with
  | openCall c =>
    simp only [vfsStep, Option.ite_none_right_eq_some, Option.some.injEq] at hs
    obtain ⟨hidle, rfl⟩ := hs
    refine ⟨?_, fun d hd => by cases hd⟩
    split
    · exact h.moved c (by simp +contextual) (by simp) hlt (by simp [share, hidle]) (by simp) (by simp)
    · exact h
  | openCount c =>
    simp only [vfsStep, Option.ite_none_right_eq_some, Option.some.injEq] at hs
    obtain ⟨hlock, rfl⟩ := hs
    have hu : u32 (s.node.refcount + 1) = s.node.refcount + 1 := u32_of_lt hok
    refine ⟨h.moved c (by simp +contextual) (by simp) (u32_lt _) ?_ (by simp) (by simp), fun d hd => by cases hd⟩
    simp only [share, hlock, hu, Function.update_self]
    omega
  | openReturn c ret =>
    simp only [vfsStep, Option.ite_none_right_eq_some, Option.some.injEq] at hs
    obtain ⟨hdriver, rfl⟩ := hs
    cases (show ret = .success from hok)
    refine ⟨?_, fun d hd => by cases hd⟩
    refine h.moved c (by simp +contextual) (by simp +contextual) (by simpa using hlt) ?_ ?_ (by simp)
    · simp [share, hdriver]
    · simp only [failed_success, Bool.false_eq_true, ite_false, Function.update_self]
      omega
  | closeCall c =>
    simp only [vfsStep, Option.ite_none_right_eq_some, Option.some.injEq] at hs
    obtain ⟨⟨hidle, hpos⟩, rfl⟩ := hs
    refine ⟨?_, fun d hd => by cases hd⟩
    split
    · exact h.moved c (by simp +contextual) (by simp) hlt (by simp [share, hidle]) (by simp) fun _ => hpos
    · exact h
  | closeCount c =>
    simp only [vfsStep, Option.ite_none_right_eq_some, Option.some.injEq] at hs
    obtain ⟨hlock, rfl⟩ := hs
    -- What the caller closes is among what is counted.
    have hpos := h.closing c (.inl hlock)
    have hle := h.share_le c
    simp only [share, hlock] at hle
    have hsub : sub32 s.node.refcount 1 = s.node.refcount - 1 := sub32_of_le hlt (by omega)
    refine ⟨h.moved c (by simp +contextual) (by simp) (sub32_lt _ _) ?_ (by simp) (by simpa using hpos), ?_⟩
    · simp only [share, hlock, hsub, Function.update_self]
      omega
    · intro d _
      omega
  | closeReturn c ret =>
    simp only [vfsStep, Option.ite_none_right_eq_some, Option.some.injEq] at hs
    obtain ⟨hdriver, rfl⟩ := hs
    cases (show ret = .success from hok)
    have hpos := h.closing c (.inr hdriver)
    refine ⟨?_, fun d hd => by cases hd⟩
    refine h.moved c (by simp +contextual) (by simp +contextual) (by simpa using hlt) ?_ ?_ (by simp)
    · simp [share, hdriver]
    · simp only [failed_success, Bool.false_eq_true, ite_false, Function.update_self]
      omega

/-- The invariant holds throughout a run whose driver calls succeed. -/
theorem VfsInv.run [Fintype ι] {s : VfsState ι} (h : VfsInv s) {run : List (VfsAction ι)}
    (hen : EachStep vfsStep Enabled s run) (hok : EachStep vfsStep Succeeds s run) :
    Throughout vfsStep RefcountTracks s run ∧ EachStep vfsStep NoUnderflow s run := by
  induction run generalizing s with
  | nil => exact ⟨trivial, trivial⟩
  | cons a run ih =>
    obtain ⟨s', hs⟩ := Option.isSome_iff_exists.mp hen.1
    obtain ⟨h', hno⟩ := h.step hs hok.1
    obtain ⟨hr, hnos⟩ := ih h' (hen.2 s' hs) (hok.2 s' hs)
    refine ⟨⟨s', hs, h'.tracks, hr⟩, hno, fun t ht => ?_⟩
    rw [hs] at ht
    cases ht
    exact hnos

/-- **The reference count tracks what is open** through every interleaving
of the callers in which each driver call succeeds. -/
theorem refcount_tracks [Fintype ι] (run : List (VfsAction ι)) (hen : EachStep vfsStep Enabled (unopened ι) run)
    (hok : EachStep vfsStep Succeeds (unopened ι) run) :
    Throughout vfsStep RefcountTracks (unopened ι) run ∧ EachStep vfsStep NoUnderflow (unopened ι) run :=
  VfsInv.start.run hen hok

end

instance {ι : Type} [DecidableEq ι] (s : VfsState ι) (a : VfsAction ι) : Decidable (Enabled s a) :=
  inferInstanceAs (Decidable (_ = true))

instance {ι : Type} (s : VfsState ι) : ∀ a : VfsAction ι, Decidable (Succeeds s a)
  | .openReturn _ _ | .closeReturn _ _ => inferInstanceAs (Decidable (_ = _))
  | .openCount _ => inferInstanceAs (Decidable (_ < _))
  | .openCall _ | .closeCall _ | .closeCount _ => isTrue trivial

instance {ι : Type} [Fintype ι] (s : VfsState ι) : Decidable (RefcountTracks s) :=
  inferInstanceAs (Decidable (_ → _))

/-- Two callers open at once, and the first closes. -/
def twoCallers : List (VfsAction (Fin 2)) :=
  [.openCall 0, .openCall 1, .openCount 1, .openCount 0, .openReturn 0 .success, .closeCall 0, .closeCount 0,
    .openReturn 1 .success, .closeReturn 0 .success]

theorem refcount_tracks_two : EachStep vfsStep Enabled (unopened (Fin 2)) twoCallers ∧
    Throughout vfsStep RefcountTracks (unopened (Fin 2)) twoCallers :=
  have hen : EachStep vfsStep Enabled (unopened (Fin 2)) twoCallers := by decide
  ⟨hen, (refcount_tracks twoCallers hen (by decide)).1⟩

/-- One caller's open fails in the driver: it stays counted. -/
theorem refcount_keeps_failed_open :
    EachStep vfsStep Enabled (unopened (Fin 1)) [.openCall 0, .openCount 0, .openReturn 0 .io] ∧
    ¬ Throughout vfsStep RefcountTracks (unopened (Fin 1)) [.openCall 0, .openCount 0, .openReturn 0 .io] := by
  decide

end ShawnOS
