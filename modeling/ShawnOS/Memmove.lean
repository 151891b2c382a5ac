/-
`memmove` (`libsc/string/memmove.c`).

The source is read while the destination is written, in the same memory. The
copy goes up when the destination lies below the source and down otherwise,
so that a source byte is written over only after it was read.
-/
import ShawnOS.Lib.Word
import Mathlib.Logic.Function.Basic
import Mathlib.Order.Interval.Set.Defs

namespace ShawnOS

open Word32

/-- The bytes of the address space. -/
abbrev ByteMemory := Nat → BitVec 8

/-- `dst[i] = src[i]`. -/
def copyByte (dst src i : Nat) (m : ByteMemory) : ByteMemory := Function.update m (u32 (dst + i)) (m (u32 (src + i)))

/-- `for ( size_t i = 0; i < size; i++ )`, with `rem` bytes left from the
`i`-th on. -/
def memmoveUp (dst src : Nat) : (rem i : Nat) → ByteMemory → ByteMemory
  | 0, _, m => m
  | rem + 1, i, m => memmoveUp dst src rem (i + 1) (copyByte dst src i m)

/-- `for ( size_t i = size; i != 0; i-- )`. -/
def memmoveDown (dst src : Nat) : (i : Nat) → ByteMemory → ByteMemory
  | 0, m => m
  | i + 1, m => memmoveDown dst src i (copyByte dst src i m)

/-- `memmove`: what it returns, and memory after it. -/
def memmove (dstptr srcptr size : Nat) (m : ByteMemory) : Nat × ByteMemory :=
  if dstptr < srcptr then (dstptr, memmoveUp dstptr srcptr size 0 m) else (dstptr, memmoveDown dstptr srcptr size m)

/-- Of `m`, the bytes from `src + lo` up to `src + hi` were copied, and
nothing else changed. -/
structure Copied (m m' : ByteMemory) (dst src lo hi : Nat) : Prop where
  copied : ∀ i, lo ≤ i → i < hi → m' (dst + i) = m (src + i)
  other : ∀ a, a < dst + lo ∨ dst + hi ≤ a → m' a = m a

variable {m m' : ByteMemory} {dst src lo hi : Nat}

theorem Copied.refl (m : ByteMemory) (dst src i : Nat) : Copied m m dst src i i :=
  ⟨fun _ h1 h2 => absurd h2 (Nat.not_lt.mpr h1), fun _ _ => rfl⟩

/-- A byte that is still the source's is copied, next to those that were. -/
theorem Copied.byte (h : Copied m m' dst src lo hi) {k lo' hi' : Nat} (hread : m' (src + k) = m (src + k))
    (hd : dst + k < 2 ^ 32) (hs : src + k < 2 ^ 32) (hk : lo' ≤ k ∧ k < hi') (hsub : lo' ≤ lo ∧ hi ≤ hi')
    (hrange : ∀ i, lo' ≤ i → i < hi' → i ≠ k → lo ≤ i ∧ i < hi) : Copied m (copyByte dst src k m') dst src lo' hi' := by
  rw [copyByte, u32_of_lt hd, u32_of_lt hs, hread]
  refine ⟨fun i h1 h2 => ?_, fun a ha => ?_⟩
  · by_cases hi' : i = k
    · rw [hi', Function.update_self]
    · obtain ⟨h3, h4⟩ := hrange i h1 h2 hi'
      rw [Function.update_of_ne (by omega)]
      exact h.copied i h3 h4
  · rw [Function.update_of_ne (by omega)]
    exact h.other a (by omega)

/-- Going up, the next source byte lies behind what was written. -/
theorem Copied.up (h : Copied m m' dst src lo hi) (hle : lo ≤ hi) (hlt : dst < src) (hd : dst + hi < 2 ^ 32)
    (hs : src + hi < 2 ^ 32) : Copied m (copyByte dst src hi m') dst src lo (hi + 1) := by
  have hread : m' (src + hi) = m (src + hi) := h.other _ (.inr (by omega))
  exact h.byte hread hd hs ⟨hle, Nat.lt_succ_self hi⟩ ⟨Nat.le_refl lo, Nat.le_succ hi⟩ fun i h1 h2 hne => by omega

/-- Going down, it lies in front of it. -/
theorem Copied.down (h : Copied m m' dst src (lo + 1) hi) (hlo : lo < hi) (hle : src ≤ dst) (hd : dst + lo < 2 ^ 32)
    (hs : src + lo < 2 ^ 32) : Copied m (copyByte dst src lo m') dst src lo hi := by
  have hread : m' (src + lo) = m (src + lo) := h.other _ (.inl (by omega))
  exact h.byte hread hd hs ⟨Nat.le_refl lo, hlo⟩ ⟨Nat.le_succ lo, Nat.le_refl hi⟩ fun i h1 h2 hne => by omega

theorem memmoveUp_copied (hlt : dst < src) : ∀ {rem i : Nat} {m' : ByteMemory}, Copied m m' dst src 0 i →
    dst + (i + rem) ≤ 2 ^ 32 → src + (i + rem) ≤ 2 ^ 32 → Copied m (memmoveUp dst src rem i m') dst src 0 (i + rem)
  | 0, _, _, h, _, _ => h
  | rem + 1, i, m', h, hd, hs => by
    have hnext := h.up (Nat.zero_le i) hlt (by omega) (by omega)
    have hrun := @memmoveUp_copied hlt rem _ _ hnext (by omega) (by omega)
    have hend : i + 1 + rem = i + (rem + 1) := by omega
    rw [hend] at hrun
    exact hrun

theorem memmoveDown_copied (hle : src ≤ dst) {size : Nat} (hd : dst + size ≤ 2 ^ 32) (hs : src + size ≤ 2 ^ 32) :
    ∀ {i : Nat} {m' : ByteMemory}, i ≤ size → Copied m m' dst src i size →
      Copied m (memmoveDown dst src i m') dst src 0 size
  | 0, _, _, h => h
  | i + 1, m', hi, h => by
    rw [memmoveDown]
    exact memmoveDown_copied hle hd hs (Nat.le_of_succ_le hi) (h.down hi hle (by omega) (by omega))

/-- **`memmove` copies a snapshot** of the source, wherever the two ranges
lie, and changes nothing outside the destination. -/
theorem memmove_snapshot (m : ByteMemory) {dst src size : Nat} (hd : dst + size ≤ 2 ^ 32) (hs : src + size ≤ 2 ^ 32) :
    (memmove dst src size m).1 = dst ∧
    (∀ i, i < size → (memmove dst src size m).2 (dst + i) = m (src + i)) ∧
    ∀ a, a ∉ Set.Ico dst (dst + size) → (memmove dst src size m).2 a = m a := by
  have hcopied : (memmove dst src size m).1 = dst ∧ Copied m (memmove dst src size m).2 dst src 0 size := by
    unfold memmove
    split
    · next hlt =>
      have hup := @memmoveUp_copied _ _ _ hlt size _ _ (.refl m dst src 0) (by omega) (by omega)
      rw [Nat.zero_add] at hup
      exact ⟨rfl, hup⟩
    · next hge => exact ⟨rfl, memmoveDown_copied (Nat.not_lt.mp hge) hd hs (Nat.le_refl size) (.refl m dst src size)⟩
  obtain ⟨hret, h⟩ := hcopied
  refine ⟨hret, fun i hi => h.copied i (Nat.zero_le i) hi, fun a ha => h.other a ?_⟩
  rw [Set.mem_Ico] at ha
  omega

/-- Four bytes moved up by two. -/
theorem memmove_snapshot_overlap :
    (memmove 0x1002 0x1000 4 fun a => BitVec.ofNat 8 a).1 = 0x1002 ∧
    (∀ i, i < 4 → (memmove 0x1002 0x1000 4 fun a => BitVec.ofNat 8 a).2 (0x1002 + i) = BitVec.ofNat 8 (0x1000 + i)) ∧
    ∀ a, a ∉ Set.Ico 0x1002 (0x1002 + 4) →
      (memmove 0x1002 0x1000 4 fun a => BitVec.ofNat 8 a).2 a = BitVec.ofNat 8 a :=
  memmove_snapshot (fun a => BitVec.ofNat 8 a) (by decide) (by decide)

end ShawnOS
