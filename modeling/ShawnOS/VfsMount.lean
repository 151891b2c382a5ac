/-
Mounting (`fs/vfs.c`).

`vfs_mount` looks the driver up by its name, lets it fill a new superblock
and enters that into the table of 24. It takes the driver's answer for a
failure when it is negative, but every `K_` code is positive: a driver that
fails with one of them is entered as if it had mounted, unless the table is
full already, and then the answer is `K_OOM` whatever the driver said.

A driver's `fs_mount` is a function on memory, of which only its result is
looked at. Memory also changes between two calls.
-/
import ShawnOS.Alloc
import Mathlib.Logic.Function.Basic

namespace ShawnOS

open Word32

/-- `KALLOC_GENERAL`. -/
def kallocGeneral : Nat := 2

/-- `VFS_MAX_SUPERBLOCKS`. -/
def vfsMaxSuperblocks : Nat := 24

/-- `sizeof(vfs_superblock_t)`. -/
def sizeofVfsSuperblock : Nat := 12

section
variable {σ : Type}

/-- `fs_driver_t`. `fsMount` is given the new superblock's address, and
returns any `k_return_t`. -/
structure FsDriver (σ : Type) where
  name : String
  fsMount : (device mountPoint : Nat) → (options : String) → (res : Nat) → σ → Int × σ

/-- Memory, and the table of mounted superblocks. -/
structure VfsMounts (σ : Type) where
  mem : σ
  superblocks : Nat → Nat
  superblocksSize : Nat

/-- `vfs_get_driver`, in the list from `vfs_drivers_head` on. -/
def vfsGetDriver (driver : String) : List (FsDriver σ) → Option (FsDriver σ)
  | [] => none
  | cur :: next => if driver = cur.name then some cur else vfsGetDriver driver next

/-- `vfs_install_driver`: the new head of the list is a copy of the driver. -/
def vfsInstallDriver (driversHead : List (FsDriver σ)) (driver : FsDriver σ) : List (FsDriver σ) := driver :: driversHead

/-- What `vfs_mount` is called with, and the drivers installed then. -/
structure MountCall (σ : Type) where
  driversHead : List (FsDriver σ)
  driver : String
  device : Nat
  mountPoint : Nat
  options : String

/-- `vfs_mount`. -/
def vfsMount (ki : KallocInterface σ) (c : MountCall σ) (s : VfsMounts σ) : Option (Int × VfsMounts σ) :=
  match vfsGetDriver c.driver c.driversHead with
  | none => some (KReturn.notsup.code, s)
  | some driverInfo => do
    let (newsuper, mem) ← kmalloc ki sizeofVfsSuperblock kallocGeneral s.mem
    let (res, mem) := driverInfo.fsMount c.device c.mountPoint c.options newsuper mem
    if res < 0 then pure (res, { s with mem })
    else if u32 (s.superblocksSize + 1) > vfsMaxSuperblocks then pure (KReturn.oom.code, { s with mem })
    else
      pure (KReturn.success.code,
        { mem
          superblocks := Function.update s.superblocks s.superblocksSize newsuper
          superblocksSize := u32 (s.superblocksSize + 1) })

/-- The states of the table after calls of `vfs_mount`. -/
inductive MountReached (ki : KallocInterface σ) : VfsMounts σ → Prop
  | start (mem : σ) : MountReached ki ⟨mem, fun _ => 0, 0⟩
  | mount {s s' c r} : MountReached ki s → vfsMount ki c s = some (r, s') → MountReached ki s'
  | other {s} (mem : σ) : MountReached ki s → MountReached ki { s with mem }

/-- The superblock that the driver of that name is given, if there is one,
and what it returns. -/
def MountCall.answer (ki : KallocInterface σ) (c : MountCall σ) (s : VfsMounts σ) : Option (Nat × Int) := do
  let driverInfo ← vfsGetDriver c.driver c.driversHead
  let (newsuper, mem) ← kmalloc ki sizeofVfsSuperblock kallocGeneral s.mem
  pure (newsuper, (driverInfo.fsMount c.device c.mountPoint c.options newsuper mem).1)

/-- The call mounts exactly when the driver did and there is room; else it
returns an error, the driver's own where that failed, and leaves the table. -/
structure MountRight (ki : KallocInterface σ) (c : MountCall σ) (s : VfsMounts σ) (r : Int) (s' : VfsMounts σ) : Prop where
  success : r = 0 ↔ s.superblocksSize < vfsMaxSuperblocks ∧ ∃ newsuper, c.answer ki s = some (newsuper, 0)
  appended : r = 0 → ∃ newsuper, c.answer ki s = some (newsuper, 0) ∧
    s'.superblocks = Function.update s.superblocks s.superblocksSize newsuper ∧
    s'.superblocksSize = s.superblocksSize + 1
  unchanged : r ≠ 0 → s'.superblocks = s.superblocks ∧ s'.superblocksSize = s.superblocksSize
  code : ∀ newsuper res, c.answer ki s = some (newsuper, res) → res ≠ 0 → r = res
  bound : s'.superblocksSize ≤ vfsMaxSuperblocks

/-! ## One call -/

/-- How a call can end. -/
inductive MountCase (ki : KallocInterface σ) (c : MountCall σ) (s : VfsMounts σ) : Int → VfsMounts σ → Prop
  | noDriver : c.answer ki s = none → MountCase ki c s 5 s
  | negative {newsuper res mem} : c.answer ki s = some (newsuper, res) → res < 0 → MountCase ki c s res { s with mem }
  | full {newsuper res mem} : c.answer ki s = some (newsuper, res) → 0 ≤ res → s.superblocksSize = vfsMaxSuperblocks →
      MountCase ki c s 2 { s with mem }
  | entered {newsuper res mem} : c.answer ki s = some (newsuper, res) → 0 ≤ res →
      s.superblocksSize < vfsMaxSuperblocks →
      MountCase ki c s 0 ⟨mem, Function.update s.superblocks s.superblocksSize newsuper, s.superblocksSize + 1⟩

theorem vfsMount_cases {ki : KallocInterface σ} {c : MountCall σ} {s s' : VfsMounts σ} {r : Int}
    (hs : s.superblocksSize ≤ vfsMaxSuperblocks) (h : vfsMount ki c s = some (r, s')) : MountCase ki c s r s' := by
  have hmax : vfsMaxSuperblocks = 24 := rfl
  have hu : u32 (s.superblocksSize + 1) = s.superblocksSize + 1 := u32_of_lt (by omega)
  rw [vfsMount, hu] at h
  cases hd : vfsGetDriver c.driver c.driversHead with
  | none =>
    rw [hd] at h
    cases h
    exact .noDriver (by simp [MountCall.answer, hd])
  | some d =>
    rw [hd] at h
    simp only [bind, Option.bind_eq_some_iff, Prod.exists] at h
    obtain ⟨newsuper, mem, hk, h⟩ := h
    have hans : c.answer ki s = some (newsuper, (d.fsMount c.device c.mountPoint c.options newsuper mem).1) := by
      simp [MountCall.answer, hd, hk]
    split at h
    · next hneg =>
      cases h
      exact .negative hans hneg
    · next hneg =>
      split at h
      · next hfull =>
        cases h
        exact .full hans (Int.not_lt.mp hneg) (by omega)
      · next hroom =>
        cases h
        exact .entered hans (Int.not_lt.mp hneg) (by omega)

theorem MountReached.size_le {ki : KallocInterface σ} {s : VfsMounts σ} (h : MountReached ki s) :
    s.superblocksSize ≤ vfsMaxSuperblocks := by
  induction h with
  | start mem => exact Nat.zero_le _
  | mount _ hcall ih =>
    cases vfsMount_cases ih hcall with
    | noDriver _ => exact ih
    | negative _ _ => exact ih
    | full _ _ _ => exact ih
    | entered _ _ hlt => exact hlt
  | other mem _ ih => exact ih

/-- An installed driver answers to its name, and hides an older one. -/
theorem vfsGetDriver_install (driversHead : List (FsDriver σ)) (d : FsDriver σ) (driver : String) :
    vfsGetDriver driver (vfsInstallDriver driversHead d) =
      if driver = d.name then some d else vfsGetDriver driver driversHead := rfl

/-- **`vfs_mount`** is right exactly when the driver does not return a
positive code, or the table is full and the code is `K_OOM` itself. -/
theorem mountRight_iff {ki : KallocInterface σ} {c : MountCall σ} {s s' : VfsMounts σ} {r : Int}
    (hs : MountReached ki s) (h : vfsMount ki c s = some (r, s')) :
    MountRight ki c s r s' ↔ ∀ newsuper res, c.answer ki s = some (newsuper, res) → 0 < res →
      s.superblocksSize = vfsMaxSuperblocks ∧ res = KReturn.oom.code := by
  have hle := hs.size_le
  cases vfsMount_cases hle h with
  | noDriver hans =>
    refine iff_of_true ⟨?_, ?_, fun _ => ⟨rfl, rfl⟩, ?_, hle⟩ ?_
    · simp [hans]
    · simp
    · simp [hans]
    · simp [hans]
  | negative hans hneg =>
    have hne : r ≠ 0 := by omega
    refine iff_of_true ⟨?_, fun h0 => absurd h0 hne, fun _ => ⟨rfl, rfl⟩, ?_, hle⟩ ?_
    · simp [hans, hne]
    · simp [hans]
    · simp [hans]
      omega
  | @full newsuper res _ hans hpos hfull =>
    constructor
    · intro hright newsuper' res' hans' hres
      have hcode := hright.code newsuper' res' hans' (by omega)
      exact ⟨hfull, hcode.symm⟩
    · intro hcond
      refine ⟨?_, by simp, fun _ => ⟨rfl, rfl⟩, fun newsuper' res' hans' hres => ?_, hle⟩
      · simp [hfull]
      · rw [hans] at hans'
        cases hans'
        exact (hcond _ _ hans (by omega)).2.symm
  | @entered newsuper res _ hans hpos hlt =>
    constructor
    · intro hright newsuper' res' hans' hres
      have hcode := hright.code newsuper' res' hans' (by omega)
      omega
    · intro hcond
      have h0 : res = 0 := by
        by_contra hne
        have := (hcond _ _ hans (by omega)).1
        omega
      rw [h0] at hans
      refine ⟨?_, fun _ => ⟨newsuper, hans, rfl, rfl⟩, fun hne => absurd rfl hne, ?_, hlt⟩
      · simp [hans, hlt]
      · simp [hans]

end

/-- Memory that always has the same room. -/
def kmallocAt1000 : KallocInterface Unit where
  kallocMallocReal _ _ mem := some ((0x1000, none), mem)

/-- A mount of device 1 at the root by a driver that returns `res`. -/
def mountReturning (res : Int) : MountCall Unit where
  driversHead := [⟨"ext2", fun _ _ _ _ mem => (res, mem)⟩]
  driver := "ext2"
  device := 1
  mountPoint := 0
  options := ""

/-- The first mount succeeds. -/
theorem mountRight_first : ∃ s', vfsMount kmallocAt1000 (mountReturning 0) ⟨(), fun _ => 0, 0⟩ = some (0, s') ∧
    MountRight kmallocAt1000 (mountReturning 0) ⟨(), fun _ => 0, 0⟩ 0 s' := by
  have h : vfsMount kmallocAt1000 (mountReturning 0) ⟨(), fun _ => 0, 0⟩ =
      some (0, ⟨(), Function.update (fun _ => 0) 0 0x1000, 1⟩) := rfl
  refine ⟨_, h, (mountRight_iff (.start ()) h).mpr fun newsuper res hans hres => ?_⟩
  cases hans
  cases hres

/-- The driver fails with `K_IO`, and its superblock is entered. -/
theorem mount_enters_failed : ∃ s', MountReached kmallocAt1000 ⟨(), fun _ => 0, 0⟩ ∧
    vfsMount kmallocAt1000 (mountReturning KReturn.io.code) ⟨(), fun _ => 0, 0⟩ = some (0, s') ∧
    s'.superblocksSize = 1 ∧ ¬ MountRight kmallocAt1000 (mountReturning KReturn.io.code) ⟨(), fun _ => 0, 0⟩ 0 s' := by
  refine ⟨⟨(), Function.update (fun _ => 0) 0 0x1000, 1⟩, .start (), rfl, rfl, fun hright => ?_⟩
  have hcode := hright.code 0x1000 3 rfl (by decide)
  cases hcode

end ShawnOS
