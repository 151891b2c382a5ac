/-
Which frames `_i386_mem_init_bitset` leaves clear, and which of them are not
usable memory.

The loop marks the frames that `i386_mem_check_reserved` calls reserved and
no others. Left clear although they are not usable are: the last frame, which
the loop does not reach when the memory ends on a page boundary; frames in a
hole of the memory map, "nonexistant" but not "reserved"; frames of an entry
of another type than the two the source knows; frames on which two entries
overlap; and frames around a kernel or multiboot range that touches neither
of their ends (`Misjudged`).
-/
import ShawnOS.Mem
import Mathlib.Order.CompletePartialOrder
import Mathlib.Order.Interval.Set.Disjoint

namespace ShawnOS

open Word32

/-- The bytes of a frame. -/
def framePage (f : Nat) : Set Nat := Set.Ico (4096 * f) (4096 * (f + 1))

/-- The bytes of an entry. -/
def MmapEntry.bytes (e : MmapEntry) : Set Nat := Set.Ico e.addr (e.addr + e.len)

/-- Memory that may be handed out. -/
structure Usable (m : MemInfo) (f : Nat) : Prop where
  available : ∃ e ∈ m.mmap, e.type = multibootMemoryAvailable ∧ framePage f ⊆ e.bytes
  others : ∀ e ∈ m.mmap, e.type ≠ multibootMemoryAvailable → Disjoint (framePage f) e.bytes
  notZero : f ≠ 0
  kernel : Disjoint (framePage f) (Set.Icc m.kernelReservedStart m.kernelReservedEnd)
  multiboot : Disjoint (framePage f) (Set.Icc m.multibootReservedStart m.multibootReservedEnd)

/-- The first or the last address of a page, or the one after, in a range. -/
def EdgeIn (lo hi f : Nat) : Prop :=
  (4096 * f ≥ lo ∧ 4096 * f ≤ hi) ∨ (4096 * (f + 1) ≥ lo ∧ 4096 * (f + 1) ≤ hi)

/-- The walk over the memory map stops at this entry. -/
def MmapEntry.covers (addr : Nat) (e : MmapEntry) : Bool := addr ≥ e.addr ∧ addr ≤ e.end32

/-- A frame that the loop reaches and whose state the memory map decides. -/
structure LookedUp (m : MemInfo) (f : Nat) : Prop where
  reached : 4096 * (f + 1) < m.highestFreeAddress
  notZero : f ≠ 0
  kernel : ¬ EdgeIn m.kernelReservedStart m.kernelReservedEnd f
  multiboot : ¬ EdgeIn m.multibootReservedStart m.multibootReservedEnd f

/-- A frame left clear that is not usable. -/
inductive Misjudged (m : MemInfo) (f : Nat) : Prop
  | unreached : m.highestFreeAddress ≤ 4096 * (f + 1) → ¬ Usable m f → Misjudged m f
  | hole : LookedUp m f → m.mmap.find? (·.covers (4096 * f)) = none → ¬ Usable m f → Misjudged m f
  | otherType {e} : LookedUp m f → m.mmap.find? (·.covers (4096 * f)) = some e → 4096 * (f + 1) ≤ e.end32 →
      e.type ≠ multibootMemoryReserved → e.type ≠ multibootMemoryAvailable → Misjudged m f
  | overlapped {e e'} : LookedUp m f → m.mmap.find? (·.covers (4096 * f)) = some e → 4096 * (f + 1) ≤ e.end32 →
      e.type = multibootMemoryAvailable → e' ∈ m.mmap → e'.type ≠ multibootMemoryAvailable →
      ¬ Disjoint (framePage f) e'.bytes → Misjudged m f
  | enclosing {e} : LookedUp m f → m.mmap.find? (·.covers (4096 * f)) = some e → 4096 * (f + 1) ≤ e.end32 →
      e.type = multibootMemoryAvailable →
      ¬ (Disjoint (framePage f) (Set.Icc m.kernelReservedStart m.kernelReservedEnd) ∧
        Disjoint (framePage f) (Set.Icc m.multibootReservedStart m.multibootReservedEnd)) → Misjudged m f

/-! ## One frame -/

theorem i386MmapCheckReserved_eq (addr : Nat) (l : List MmapEntry) :
    i386MmapCheckReserved addr l =
      match l.find? (·.covers addr) with
      | none => .nonexistant
      | some e =>
        if e.type = multibootMemoryReserved then .reserved
        else if u32 (addr + pageSize) > e.end32 then .reserved
        else .free := by
  induction l with
  | nil => rfl
  | cons e rest ih =>
    rw [i386MmapCheckReserved, List.find?_cons]
    by_cases hc : addr ≥ e.addr ∧ addr ≤ e.end32
    · have hcov : e.covers addr = true := decide_eq_true hc
      rw [if_pos hc, hcov]
    · have hcov : e.covers addr = false := decide_eq_false hc
      rw [if_neg hc, hcov, ih]

theorem MmapEntry.end32_le (e : MmapEntry) : e.end32 ≤ e.addr + e.len := Nat.mod_le _ _

/-- What the loop calls reserved, for a page below 4 GiB. -/
theorem i386MemCheckReserved_iff {m : MemInfo} {f : Nat} (hf : 4096 * (f + 1) < 2 ^ 32) :
    i386MemCheckReserved m (4096 * f) = .reserved ↔
      f = 0 ∨ EdgeIn m.kernelReservedStart m.kernelReservedEnd f ∨
      EdgeIn m.multibootReservedStart m.multibootReservedEnd f ∨
      ∃ e, m.mmap.find? (·.covers (4096 * f)) = some e ∧
        (e.type = multibootMemoryReserved ∨ e.end32 < 4096 * (f + 1)) := by
  have hend : u32 (4096 * f + pageSize) = 4096 * (f + 1) := by
    unfold pageSize
    rw [u32_of_lt (by omega)]
    omega
  simp only [i386MemCheckReserved, hend, i386MmapCheckReserved_eq, EdgeIn]
  by_cases h0 : f = 0
  · subst h0
    simp
  rw [if_neg (by omega)]
  split
  · next hk => simp [hk]
  next hk =>
  split
  · next hm => simp [hm]
  next hm =>
  simp only [h0, hk, hm, false_or]
  cases hfind : m.mmap.find? (·.covers (4096 * f)) with
  | none => simp
  | some e =>
    simp only [Option.some.injEq, exists_eq_left']
    by_cases ht : e.type = multibootMemoryReserved
    · simp [ht]
    · rw [if_neg ht]
      by_cases he : 4096 * (f + 1) > e.end32
      · rw [if_pos he]
        simp [ht, he]
      · rw [if_neg he]
        simp [ht]
        omega

/-- A page that an entry covers and has room for lies in the entry. -/
theorem framePage_subset {f : Nat} {e : MmapEntry} (hc : e.covers (4096 * f) = true) (hle : 4096 * (f + 1) ≤ e.end32) :
    framePage f ⊆ e.bytes := by
  have h1 := e.end32_le
  simp only [MmapEntry.covers, decide_eq_true_eq] at hc
  intro x hx
  simp only [framePage, MmapEntry.bytes, Set.mem_Ico] at hx ⊢
  omega

theorem framePage_self (f : Nat) : 4096 * f ∈ framePage f := by
  simp only [framePage, Set.mem_Ico]
  omega

theorem LookedUp.not_reserved_none {m : MemInfo} {f : Nat} (hl : LookedUp m f) (hf : 4096 * (f + 1) < 2 ^ 32)
    (he : m.mmap.find? (·.covers (4096 * f)) = none) : i386MemCheckReserved m (4096 * f) ≠ .reserved := by
  rw [Ne, i386MemCheckReserved_iff hf, he]
  simp [hl.notZero, hl.kernel, hl.multiboot]

theorem LookedUp.not_reserved_some {m : MemInfo} {f : Nat} {e : MmapEntry} (hl : LookedUp m f)
    (hf : 4096 * (f + 1) < 2 ^ 32) (he : m.mmap.find? (·.covers (4096 * f)) = some e)
    (ht : e.type ≠ multibootMemoryReserved) (hle : 4096 * (f + 1) ≤ e.end32) :
    i386MemCheckReserved m (4096 * f) ≠ .reserved := by
  rw [Ne, i386MemCheckReserved_iff hf, he]
  simp [hl.notZero, hl.kernel, hl.multiboot, ht, hle]

/-- **One frame**: left clear only when usable, or misjudged. -/
theorem usable_iff_not_misjudged {m : MemInfo} {f : Nat} (hf : 4096 * (f + 1) < 2 ^ 32) :
    (¬ (4096 * (f + 1) < m.highestFreeAddress ∧ i386MemCheckReserved m (4096 * f) = .reserved) → Usable m f) ↔
      ¬ Misjudged m f := by
  constructor
  · intro h hbad
    have available_ne : multibootMemoryAvailable ≠ multibootMemoryReserved := by decide
    cases hbad with
    | unreached hlast hno => exact hno (h fun ⟨h1, _⟩ => by omega)
    | hole hl hnone hno => exact hno (h fun ⟨_, h1⟩ => hl.not_reserved_none hf hnone h1)
    | otherType hl he hle hres hav =>
      have hu := h fun ⟨_, h1⟩ => hl.not_reserved_some hf he hres hle h1
      have hsub := framePage_subset (List.find?_some he) hle
      exact Set.disjoint_left.mp (hu.others _ (List.mem_of_find?_eq_some he) hav) (framePage_self f)
        (hsub (framePage_self f))
    | overlapped hl he hle hav he' hav' hmeet =>
      have hu := h fun ⟨_, h1⟩ => hl.not_reserved_some hf he (hav ▸ available_ne) hle h1
      exact hmeet (hu.others _ he' hav')
    | enclosing hl he hle hav hmeet =>
      have hu := h fun ⟨_, h1⟩ => hl.not_reserved_some hf he (hav ▸ available_ne) hle h1
      exact hmeet ⟨hu.kernel, hu.multiboot⟩
  · intro hgood hclear
    by_cases hreach : 4096 * (f + 1) < m.highestFreeAddress
    · have hno := fun h1 => hclear ⟨hreach, (i386MemCheckReserved_iff hf).mpr h1⟩
      have hl : LookedUp m f :=
        ⟨hreach, fun h0 => hno (.inl h0), fun h0 => hno (.inr (.inl h0)), fun h0 => hno (.inr (.inr (.inl h0)))⟩
      cases he : m.mmap.find? (·.covers (4096 * f)) with
      | none =>
        by_contra hnot
        exact hgood (.hole hl he hnot)
      | some e =>
        have hres : e.type ≠ multibootMemoryReserved := fun h0 =>
          hno (.inr (.inr (.inr ⟨e, he, .inl h0⟩)))
        have hle : 4096 * (f + 1) ≤ e.end32 := by
          by_contra h0
          exact hno (.inr (.inr (.inr ⟨e, he, .inr (by omega)⟩)))
        have hav : e.type = multibootMemoryAvailable := by
          by_contra h0
          exact hgood (.otherType hl he hle hres h0)
        have hranges : Disjoint (framePage f) (Set.Icc m.kernelReservedStart m.kernelReservedEnd) ∧
            Disjoint (framePage f) (Set.Icc m.multibootReservedStart m.multibootReservedEnd) := by
          by_contra h0
          exact hgood (.enclosing hl he hle hav h0)
        refine ⟨⟨e, List.mem_of_find?_eq_some he, hav, framePage_subset (List.find?_some he) hle⟩, fun e' he' hav' => ?_,
          hl.notZero, hranges.1, hranges.2⟩
        by_contra h0
        exact hgood (.overlapped hl he hle hav he' hav' h0)
    · by_contra hnot
      exact hgood (.unreached (by omega) hnot)

/-! ## The loop -/

/-- What the loop marks from frame `k` on, where it ends. -/
theorem i386MemInitBitsetLoop_ok {m : MemInfo} (hh : m.highestFreeAddress ≤ 2 ^ 32 - 4096) :
    ∀ {fuel k : Nat} {b : Bitset}, 2 ^ 20 ≤ k + fuel → k + 1 < 2 ^ 20 →
      b.length = m.highestFreeAddress / 4096 →
      ∃ b', i386MemInitBitsetLoop m fuel (4096 * k) b = .ok b' ∧ b'.length = b.length ∧
        ∀ f, b'.bit f = (b.bit f || decide (k ≤ f ∧ 4096 * (f + 1) < m.highestFreeAddress ∧
          i386MemCheckReserved m (4096 * f) = .reserved)) := by
  intro fuel
  induction fuel with
  | zero => intro k b h1 h2; omega
  | succ fuel ih =>
    intro k b h1 h2 hlen
    have hnext : u32 (4096 * k + pageSize) = 4096 * (k + 1) := by
      unfold pageSize
      rw [u32_of_lt (by omega)]
      omega
    rw [i386MemInitBitsetLoop, hnext]
    by_cases hlt : 4096 * (k + 1) < m.highestFreeAddress
    · rw [if_pos hlt]
      by_cases hres : i386MemCheckReserved m (4096 * k) = .reserved
      · rw [if_pos hres]
        have hidx : 4096 * k / pageSize = k := by unfold pageSize; omega
        obtain ⟨c, hc⟩ := bitsetSetBit_ok (b := b) (n := k) (by omega)
        have hfill := (bitsetSetBit_filled hc).2
        obtain ⟨b', hb', hl', hbit⟩ := @ih (k + 1) c (by omega) (by omega) (hfill.length.trans hlen)
        refine ⟨b', by rw [hidx, hc]; exact hb', hl'.trans hfill.length, fun f => ?_⟩
        rw [hbit f, hfill.bit f, Bool.or_assoc, ← Bool.decide_or]
        refine congrArg (b.bit f || ·) (decide_eq_decide.mpr ⟨?_, ?_⟩)
        · rintro (hf | ⟨h3, h4⟩)
          · rw [show f = k by omega]
            exact ⟨Nat.le_refl k, hlt, hres⟩
          · exact ⟨by omega, h4⟩
        · rintro ⟨h3, h4⟩
          by_cases he : f = k
          · exact .inl (by omega)
          · exact .inr ⟨by omega, h4⟩
      · rw [if_neg hres]
        obtain ⟨b', hb', hl', hbit⟩ := @ih (k + 1) b (by omega) (by omega) hlen
        refine ⟨b', hb', hl', fun f => ?_⟩
        rw [hbit f]
        refine congrArg (b.bit f || ·) (decide_eq_decide.mpr
          ⟨fun ⟨h3, h4⟩ => ⟨by omega, h4⟩, fun ⟨h3, h4⟩ => ⟨?_, h4⟩⟩)
        by_cases he : f = k
        · exact absurd (he ▸ h4.2) hres
        · omega
    · rw [if_neg hlt]
      refine ⟨b, rfl, rfl, fun f => ?_⟩
      rw [decide_eq_false (by omega), Bool.or_false]

/-- With memory up to the last page of the address space the loop wraps and
trips the bitset's assertion. -/
theorem i386MemInitBitsetLoop_abort {m : MemInfo} (hlo : 2 ^ 32 - 4096 < m.highestFreeAddress)
    (hhi : m.highestFreeAddress < 2 ^ 32) :
    ∀ {fuel k : Nat} {b : Bitset}, 2 ^ 20 ≤ k + fuel → k < 2 ^ 20 → b.length = m.highestFreeAddress / 4096 →
      i386MemInitBitsetLoop m fuel (4096 * k) b = .error .abort := by
  intro fuel
  induction fuel with
  | zero => intro k b h1 h2; omega
  | succ fuel ih =>
    intro k b h1 h2 hlen
    have hidx : 4096 * k / pageSize = k := by unfold pageSize; omega
    rw [i386MemInitBitsetLoop, hidx]
    by_cases hlast : k = 2 ^ 20 - 1
    · have hnext : u32 (4096 * k + pageSize) = 0 := by subst hlast; decide
      have hres : i386MemCheckReserved m (4096 * k) = .reserved := by
        simp only [i386MemCheckReserved, hnext]
        rfl
      have hset : bitsetSetBit b k = none := by
        unfold bitsetSetBit kassert
        rw [if_neg (by omega)]
        rfl
      rw [hnext, if_pos (by omega), if_pos hres, hset]
      rfl
    · have hnext : u32 (4096 * k + pageSize) = 4096 * (k + 1) := by
        unfold pageSize
        rw [u32_of_lt (by omega)]
        omega
      rw [hnext, if_pos (by omega)]
      split
      · obtain ⟨c, hc⟩ := bitsetSetBit_ok (b := b) (n := k) (by omega)
        rw [hc, liftM_some, ok_bind]
        exact ih (by omega) (by omega) ((bitsetSetBit_filled hc).2.length.trans hlen)
      · exact ih (by omega) (by omega) hlen

/-- **What `_i386_mem_init_bitset` leaves**: exactly the frames it reaches
and calls reserved are marked. -/
theorem i386MemInitBitset_spec {m : MemInfo} (hh : m.highestFreeAddress ≤ 2 ^ 32 - 4096) (mem : Nat → Word)
    (start : Nat) :
    ∃ b, i386MemInitBitset m (bitsetInit mem start (m.highestFreeAddress / pageSize)) = .ok b ∧
      b.length = m.highestFreeAddress / 4096 ∧ ∀ f, f < m.highestFreeAddress / 4096 →
        b.bit f = decide (4096 * (f + 1) < m.highestFreeAddress ∧
          i386MemCheckReserved m (4096 * f) = .reserved) := by
  obtain ⟨b, hb, hlen, hbit⟩ := @i386MemInitBitsetLoop_ok m hh (2 ^ 20 + 1) 0
    (bitsetInit mem start (m.highestFreeAddress / pageSize)) (by omega) (by omega) rfl
  refine ⟨b, hb, hlen, fun f hf => ?_⟩
  have hz : (bitsetInit mem start (m.highestFreeAddress / pageSize)).bit f = false :=
    bitsetInit_bit (by unfold pageSize; omega) hf
  rw [hbit f, hz, Bool.false_or]
  exact decide_eq_decide.mpr ⟨fun h => h.2, fun h => ⟨by omega, h⟩⟩

/-- **When the frames left clear are usable.** For any memory map, memory
size and reserved ranges, every frame that `_i386_mem_init_bitset` leaves
clear is usable exactly when none is misjudged (or it does not return). -/
theorem clear_frames_usable_iff (m : MemInfo) (hm : m.highestFreeAddress = u32 (m.memUpper * 1024))
    (mem : Nat → Word) (start : Nat) :
    (∀ b, i386MemInitBitset m (bitsetInit mem start (m.highestFreeAddress / pageSize)) = .ok b →
      ∀ f, f < b.length → b.bit f = false → Usable m f) ↔
    (m.highestFreeAddress ≤ 2 ^ 32 - 4096 → ∀ f, f < m.highestFreeAddress / 4096 → ¬ Misjudged m f) := by
  have hlt : m.highestFreeAddress < 2 ^ 32 := by rw [hm]; exact u32_lt _
  by_cases hh : m.highestFreeAddress ≤ 2 ^ 32 - 4096
  · obtain ⟨b, hb, hlen, hbit⟩ := i386MemInitBitset_spec hh mem start
    have hframe : ∀ f, f < m.highestFreeAddress / 4096 → ((b.bit f = false → Usable m f) ↔ ¬ Misjudged m f) := by
      intro f hf
      rw [hbit f hf, decide_eq_false_iff_not]
      exact usable_iff_not_misjudged (by omega)
    constructor
    · intro h _ f hf
      exact (hframe f hf).mp (h b hb f (by omega))
    · intro h b' hb' f hf
      rw [hb] at hb'
      cases hb'
      exact (hframe f (by omega)).mpr (h hh f (by omega))
  · have habort : i386MemInitBitset m (bitsetInit mem start (m.highestFreeAddress / pageSize)) = .error .abort :=
      i386MemInitBitsetLoop_abort (by omega) hlt (k := 0) (by omega) (by omega) rfl
    rw [habort]
    exact iff_of_true (fun b hb => by cases hb) fun h => absurd h hh

/-- Two mebibytes without a hole, of which the first is looked at. -/
def wholeMem : MemInfo where
  mmap := [⟨0, 0x200000, multibootMemoryAvailable⟩]
  kernelReservedStart := 0x100000
  kernelReservedEnd := 0x12a000
  multibootReservedStart := 0x10000
  multibootReservedEnd := 0x11e40
  kernelHeapStart := 0x12b000
  kernelHeapCurpos := 0x12b000
  memLower := 640
  memUpper := 1023
  highestFreeAddress := 1047552

/-- There no frame is misjudged. -/
theorem clear_frames_usable_whole : wholeMem.highestFreeAddress = u32 (wholeMem.memUpper * 1024) ∧
    ∀ b, i386MemInitBitset wholeMem (bitsetInit (fun _ => 0) 0x12b000 (wholeMem.highestFreeAddress / pageSize)) = .ok b →
      ∀ f, f < b.length → b.bit f = false → Usable wholeMem f := by
  refine ⟨by decide, (clear_frames_usable_iff wholeMem (by decide) _ _).mpr fun _ f hf hbad => ?_⟩
  have hhigh : wholeMem.highestFreeAddress = 1047552 := rfl
  have hmap : wholeMem.mmap = [⟨0, 0x200000, multibootMemoryAvailable⟩] := rfl
  rw [hhigh] at hf
  have hcov : wholeMem.mmap.find? (·.covers (4096 * f)) = some ⟨0, 0x200000, multibootMemoryAvailable⟩ := by
    have : MmapEntry.covers (4096 * f) ⟨0, 0x200000, multibootMemoryAvailable⟩ = true := by
      have h2 : MmapEntry.end32 ⟨0, 0x200000, multibootMemoryAvailable⟩ = 0x200000 := by decide
      simp only [MmapEntry.covers, h2, decide_eq_true_eq]
      omega
    rw [hmap, List.find?_cons, this]
  cases hbad with
  | unreached hlast => omega
  | hole _ hnone =>
    rw [hcov] at hnone
    cases hnone
  | otherType _ he _ _ hav =>
    rw [hcov] at he
    cases he
    exact hav rfl
  | overlapped _ _ _ _ he' hav' =>
    rw [hmap] at he'
    cases List.mem_singleton.mp he'
    exact hav' rfl
  | enclosing hl _ _ _ hmeet =>
    have hk := hl.kernel; have hm := hl.multiboot
    simp only [EdgeIn, wholeMem] at hk hm
    refine hmeet ⟨Set.disjoint_left.mpr fun x hx hx' => ?_, Set.disjoint_left.mpr fun x hx hx' => ?_⟩
    · simp only [framePage, Set.mem_Ico, Set.mem_Icc, wholeMem] at hx hx'
      omega
    · simp only [framePage, Set.mem_Ico, Set.mem_Icc, wholeMem] at hx hx'
      omega

/-- A PC with 128 MiB: between the 640 KiB of low memory and the ROM the map
has a hole, where the display memory lies. -/
def pcMem : MemInfo where
  mmap := [⟨0, 0x9fc00, multibootMemoryAvailable⟩, ⟨0x9fc00, 0x400, multibootMemoryReserved⟩,
    ⟨0xf0000, 0x10000, multibootMemoryReserved⟩, ⟨0x100000, 0x7ee0000, multibootMemoryAvailable⟩,
    ⟨0x7fe0000, 0x20000, multibootMemoryReserved⟩, ⟨0xfffc0000, 0x40000, multibootMemoryReserved⟩]
  kernelReservedStart := 0x100000
  kernelReservedEnd := 0x12a000
  multibootReservedStart := 0x10000
  multibootReservedEnd := 0x11e40
  kernelHeapStart := 0x12b000
  kernelHeapCurpos := 0x12b000
  memLower := 639
  memUpper := 129920
  highestFreeAddress := 133038080

/-- Frame `0xa1`, display memory, is left clear. -/
theorem clear_frame_in_hole : pcMem.highestFreeAddress = u32 (pcMem.memUpper * 1024) ∧
    ∃ b, i386MemInitBitset pcMem (bitsetInit (fun _ => 0) 0x12b000 (pcMem.highestFreeAddress / pageSize)) = .ok b ∧
      0xa1 < b.length ∧ b.bit 0xa1 = false ∧ ¬ Usable pcMem 0xa1 := by
  have hhigh : pcMem.highestFreeAddress = 133038080 := rfl
  obtain ⟨b, hb, hlen, hbit⟩ := @i386MemInitBitset_spec pcMem (by rw [hhigh]; decide) (fun _ => 0) 0x12b000
  rw [hhigh] at hlen hbit
  refine ⟨by decide, b, hb, by rw [hlen]; decide, ?_, fun hu => ?_⟩
  · rw [hbit 0xa1 (by decide)]
    decide
  · obtain ⟨e, he, -, hsub⟩ := hu.available
    have hin := hsub (framePage_self 0xa1)
    simp only [MmapEntry.bytes, Set.mem_Ico] at hin
    simp only [pcMem, List.mem_cons, List.not_mem_nil, or_false] at he
    rcases he with rfl | rfl | rfl | rfl | rfl | rfl <;> simp at hin

end ShawnOS
