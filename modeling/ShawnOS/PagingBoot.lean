/-
What boot leaves (`kernel_early` up to the end of `i386_paging_init`).

Before paging is on, addresses are physical. The early heap has room for the
frame bitset, the address space bitset, the directory and one page table
whatever the size of memory, so the table of the identity map is always
found; and the directory and that table lie below the window. `Booted` lists
what every later run starts from.
-/
import ShawnOS.AsaFacts
import ShawnOS.MemFacts
import ShawnOS.MemPlace
import ShawnOS.PagingInvariant

namespace ShawnOS

open Word32 Holders

variable {s s' : PagingState} {m m' : MemInfo}

/-! ## The early heap -/

/-- The early heap, of which at most `n` bytes are taken. -/
structure Room (m : MemInfo) (n : Nat) : Prop where
  aligned : m.kernelHeapStart % 4096 = 0
  pos : m.kernelHeapStart ≠ 0
  low : m.kernelHeapStart ≤ 2 ^ 31 + 0x2000
  ge : m.kernelHeapStart ≤ m.kernelHeapCurpos
  le : m.kernelHeapCurpos ≤ m.kernelHeapStart + n

theorem Room.limit {n : Nat} (h : Room m n) : u32 (m.kernelHeapStart + earlyHeapMaxsize) = m.kernelHeapStart + 0x50000 := by
  have h1 := h.low
  unfold earlyHeapMaxsize
  exact u32_of_lt (by omega)

theorem Room.mono {n n' : Nat} (h : Room m n) (hle : n ≤ n') : Room m n' := by
  have h1 := h.le
  exact ⟨h.aligned, h.pos, h.low, h.ge, by omega⟩

/-- A critical request that fits is placed. -/
theorem Room.place {n : Nat} (h : Room m n) (size flags : Nat) (hc : flags &&& kallocCritical ≠ 0)
    (hsize : n + size + 4096 ≤ 0x50000) :
    i386MemKmallocReal size flags m =
      ((placeAt flags m.kernelHeapCurpos, some (placeAt flags m.kernelHeapCurpos)),
        { m with kernelHeapCurpos := placeAt flags m.kernelHeapCurpos + size }) ∧
    Room { m with kernelHeapCurpos := placeAt flags m.kernelHeapCurpos + size } (n + size + 4096) := by
  have h1 := h.low; have h2 := h.ge; have h3 := h.le
  have hb := placeAt_bounds flags m.kernelHeapCurpos
  have hw : NoWrap m size := by
    unfold NoWrap
    omega
  refine ⟨?_, h.aligned, h.pos, h1, by simp only; omega, by simp only; omega⟩
  rw [i386MemKmallocReal_eq hw, h.limit, if_neg (not_or.mpr ⟨hc, by omega⟩)]

theorem Room.placed_pos {n : Nat} (h : Room m n) (flags : Nat) : placeAt flags m.kernelHeapCurpos ≠ 0 := by
  have hb := placeAt_bounds flags m.kernelHeapCurpos
  have h1 := h.pos; have h2 := h.ge
  omega

/-! ## Memory without paging -/

theorem translate_early (h : s.cr3 = none) (v : Nat) : s.translate v = some v := by
  rw [PagingState.translate, h]

theorem read_early (h : s.cr3 = none) (v : Nat) : s.read v = some (s.phys v) := by
  rw [PagingState.read, translate_early h]
  rfl

theorem write_early (h : s.cr3 = none) (v x : Nat) : s.write v x = some (s.put v x) := by
  rw [PagingState.write, translate_early h]
  rfl

theorem memset32_early {d : Nat} (hd : d < 2 ^ 20) (x : Nat) : ∀ {rem i : Nat} {s : PagingState}, s.cr3 = none →
    i + rem ≤ 1024 → ∃ phys log, memset32 (4096 * d) x rem i s = some { s with phys, log } ∧
      ∀ f j, j < 1024 → phys (4096 * f + 4 * j) =
        if f = d ∧ i ≤ j ∧ j < i + rem then x else s.phys (4096 * f + 4 * j)
  | 0, i, s, _, _ => by
    refine ⟨s.phys, s.log, rfl, fun f j _ => ?_⟩
    rw [if_neg (by omega)]
  | rem + 1, i, s, h, hle => by
    obtain ⟨phys, log, hs', hphys⟩ := @memset32_early d hd x rem (i + 1) (s.put (4096 * d + 4 * i) x) h (by omega)
    refine ⟨phys, log, ?_, fun f j hj => ?_⟩
    · rw [memset32, index32_page hd (by omega), write_early h]
      exact hs'
    · rw [hphys f j hj, put_phys]
      by_cases hji : f = d ∧ j = i
      · rw [if_neg (by omega), if_pos (by omega), if_pos (by omega)]
      · by_cases hr : f = d ∧ i + 1 ≤ j ∧ j < i + 1 + rem
        · rw [if_pos hr, if_pos (by omega)]
        · rw [if_neg hr, if_neg (by omega), if_neg (by omega)]

/-! ## The identity map -/

/-- The directory at frame `d`, its first table in the next, which maps the
pages below `i`. -/
structure EarlyMap (d i : Nat) (s : PagingState) : Prop where
  cr3 : s.cr3 = none
  early : s.earlyInitDone = false
  dir : s.pageDirectory = 4096 * d
  first : s.pde 0 = 4096 * (d + 1) + 3
  absent : ∀ t, 0 < t → t < 1024 → s.pde t = ptRw
  mapped : ∀ j < i, s.phys (4096 * (d + 1) + 4 * j) = 4096 * j + 3
  blank : ∀ j, i ≤ j → j < 1024 → s.phys (4096 * (d + 1) + 4 * j) = ptRw

theorem getVirtPtr_early (h : s.earlyInitDone = false) {a : Nat} (ha : a % 4096 = 0) :
    getVirtPtr s a = some (a, s) := by
  rw [getVirtPtr, kassert_of ha]
  simp [h]

theorem EarlyMap.pde_put {d i : Nat} (h : EarlyMap d i s) {f j x t : Nat} (hf : f ≠ d) (hj : j < 1024) (ht : t < 1024) :
    (s.put (4096 * f + 4 * j) x).pde t = s.pde t := by
  rw [PagingState.pde, put_pageDirectory, h.dir, put_phys, if_neg (by omega), PagingState.pde, h.dir]

/-- The entry of the next page. -/
theorem EarlyMap.mapEntry {d i : Nat} (h : EarlyMap d i s) (hd : d + 1 < 2 ^ 20) (hi : i < 1024) :
    identityMapEntry s (4096 * d) 0 i i (ptPresent ||| ptRw) = (bitsetSetBit s.frames i).map fun b =>
      (4096 * i + 3, { s.put (4096 * (d + 1) + 4 * i) (4096 * i + 3) with frames := b }) := by
  have hdir : tableInDir s 0 (4096 * d) = some (4096 * (d + 1)) := by
    have hfirst := h.first
    rw [PagingState.pde, h.dir] at hfirst
    rw [tableInDir, index32_page (by omega) (by decide), read_early h.cr3, hfirst, Option.bind_eq_bind, Option.bind_some,
      and_page (by omega), show (4096 * (d + 1) + 3) / 4096 = d + 1 by omega]
    rfl
  have hpage : u32 (i * pageSize) ||| (ptPresent ||| ptRw) = 4096 * i + 3 := by
    unfold pageSize
    rw [u32_of_lt (by omega), or_flags (by omega) (by decide), Nat.mul_comm]
    rfl
  rw [identityMapEntry, hdir, Option.bind_eq_bind, Option.bind_some, getVirtPtr_early h.early (by omega)]
  simp only [Option.bind_eq_bind, Option.bind_some, hpage, index32_page (show d + 1 < 2 ^ 20 by omega) hi,
    write_early h.cr3, put_frames]
  cases bitsetSetBit s.frames i <;> rfl

theorem EarlyMap.next {d i : Nat} (h : EarlyMap d i s) (hi : i < 1024) (b : Bitset) :
    EarlyMap d (i + 1) { s.put (4096 * (d + 1) + 4 * i) (4096 * i + 3) with frames := b } := by
  refine ⟨h.cr3, h.early, h.dir, ?_, fun t h0 ht => ?_, fun j hj => ?_, fun j hj hlt => ?_⟩
  · exact (h.pde_put (by omega) hi (by decide)).trans h.first
  · exact (h.pde_put (by omega) hi ht).trans (h.absent t h0 ht)
  · refine (put_phys ..).trans ?_
    by_cases he : j = i
    · rw [if_pos (by rw [he]), he]
    · rw [if_neg (by omega)]
      exact h.mapped j (by omega)
  · refine (put_phys ..).trans ?_
    rw [if_neg (by omega)]
    exact h.blank j (by omega) hlt

/-- A page of the identity map, once the table is there. -/
theorem EarlyMap.identityMapPage {d i : Nat} (h : EarlyMap d i s) (hd : d + 1 < 2 ^ 20) (hi : i < 1024) :
    i386IdentityMapPage s (i * 0x1000) (ptPresent ||| ptRw) (ptPresent ||| ptRw) =
      (bitsetSetBit s.frames i).map fun b =>
        (4096 * i + 3, { s.put (4096 * (d + 1) + 4 * i) (4096 * i + 3) with frames := b }) := by
  have hfirst := h.first
  rw [PagingState.pde, h.dir] at hfirst
  have hidx : i * 4096 / 4096 = i := by omega
  rw [i386IdentityMapPage, kassert_of (show i * 0x1000 % pageSize = 0 by unfold pageSize; omega), h.dir,
    Option.bind_eq_bind, Option.bind_some, getVirtPtr_early h.early (by omega)]
  unfold pageSize
  simp only [Option.bind_eq_bind, Option.bind_some, hidx, show i / 1024 = 0 by omega, show i % 1024 = i by omega,
    index32_page (show d < 2 ^ 20 by omega) (show 0 < 1024 by decide), read_early h.cr3, hfirst, and_present]
  rw [if_neg (by omega)]
  exact h.mapEntry hd hi

/-- The identity mapping loop, from the `i`-th page on: it ends where the
bitset has a bit for every page. -/
theorem EarlyMap.pages {d : Nat} (hd : d + 1 < 2 ^ 20) : ∀ {rem i : Nat} {s : PagingState}, EarlyMap d i s →
    i + rem ≤ 1024 → (s.frames.length < i + rem ∧ identityMapPages rem i s = none) ∨ ∃ s',
      identityMapPages rem i s = some s' ∧ EarlyMap d (i + rem) s' ∧ s.frames.Filled s'.frames i rem ∧
        s'.meminfo = s.meminfo ∧ (rem = 0 ∨ i + rem ≤ s.frames.length)
  | 0, i, s, h, _ => .inr ⟨s, rfl, h, .refl _ i, rfl, .inl rfl⟩
  | rem + 1, i, s, h, hle => by
    rw [identityMapPages, h.identityMapPage hd (by omega)]
    by_cases hlt : i < s.frames.length
    · obtain ⟨b, hb⟩ := bitsetSetBit_ok hlt
      have hfill := (bitsetSetBit_filled hb).2
      rw [hb]
      rcases @EarlyMap.pages d hd rem (i + 1) _ (h.next (by omega) b) (by omega) with ⟨hshort, hn⟩ | ⟨s', hs', hm, hf, he, hr⟩
      · refine .inl ⟨?_, hn⟩
        have hl := hfill.length
        simp only at hshort
        omega
      · refine .inr ⟨s', hs', ?_, ?_, he, .inr ?_⟩
        · rw [show i + (rem + 1) = i + 1 + rem by omega]
          exact hm
        · rw [show rem + 1 = 1 + rem by omega]
          exact hfill.append hf
        · have hl := hfill.length
          simp only at hr
          omega
    · refine .inl ⟨by omega, ?_⟩
      have hnone : bitsetSetBit s.frames i = none := by
        simp [bitsetSetBit, kassert, hlt]
      rw [hnone]
      rfl

/-! ## The directory and the first table -/

/-- The directory of a new `mmu_data`: no tables yet. -/
structure EarlyDir (d : Nat) (s : PagingState) : Prop where
  cr3 : s.cr3 = none
  early : s.earlyInitDone = false
  dir : s.pageDirectory = 4096 * d
  absent : ∀ t < 1024, s.pde t = ptRw

/-- The page an allocation aligned to one gets. -/
theorem placeAt_page {n : Nat} (h : Room m n) (hn : n + 4096 ≤ 0x50000) : ∃ d, placeAt 5 m.kernelHeapCurpos = 4096 * d ∧
    d < 2 ^ 19 + 0x100 ∧ m.kernelHeapStart ≤ 4096 * d ∧ 4096 * d ≤ m.kernelHeapStart + n + 4095 := by
  have hb := placeAt_bounds 5 m.kernelHeapCurpos
  have hal := placeAt_pageAligned (show 5 &&& kallocPageAlign ≠ 0 by decide) m.kernelHeapCurpos
  have h1 := h.low; have h2 := h.ge; have h3 := h.le
  exact ⟨placeAt 5 m.kernelHeapCurpos / 4096, by omega, by omega, by omega, by omega⟩

theorem i386MmuDataInit_eq {n : Nat} (h : Room s.meminfo n) (hn : n ≤ 0x40000) (hcr3 : s.cr3 = none)
    (hearly : s.earlyInitDone = false) {d : Nat} (hd : placeAt 5 s.meminfo.kernelHeapCurpos = 4096 * d)
    (hlt : d < 2 ^ 20) : ∃ s', i386MmuDataInit s = some (.success, s') ∧ EarlyDir d s' ∧ s'.frames = s.frames ∧
      s'.meminfo = { s.meminfo with kernelHeapCurpos := 4096 * (d + 1) } := by
  obtain ⟨he, -⟩ := h.place 4096 5 (by decide) (by omega)
  have h0 := h.placed_pos 5
  rw [hd] at he h0
  obtain ⟨phys, log, hs', hphys⟩ := @memset32_early d hlt ptRw 1024 0
    { s with meminfo := { s.meminfo with kernelHeapCurpos := 4096 * d + 4096 }, pageDirectory := 4096 * d } hcr3 (by omega)
  refine ⟨{ s with meminfo := { s.meminfo with kernelHeapCurpos := 4096 * d + 4096 }, pageDirectory := 4096 * d, phys, log },
    ?_, ⟨hcr3, hearly, rfl, fun t ht => ?_⟩, rfl, ?_⟩
  · rw [i386MmuDataInit, kmallocA, show kallocCritical ||| kallocPageAlign = 5 from rfl,
      show sizeofU32 * 1024 = 4096 from rfl]
    simp only [i386MemKalloc, he, Option.bind_eq_bind, Option.bind_some, Option.pure_def, if_neg h0, hs']
  · exact (hphys d t ht).trans (if_pos ⟨rfl, by omega, by omega⟩)
  · rw [show 4096 * (d + 1) = 4096 * d + 4096 by omega]

/-- The first page table gets the page after the directory. -/
theorem EarlyDir.newTable {d n : Nat} (h : EarlyDir d s) (hroom : Room s.meminfo n) (hn : n ≤ 0x40000)
    (hcur : s.meminfo.kernelHeapCurpos = 4096 * (d + 1)) (hd : d + 1 < 2 ^ 20) : ∃ s₀,
      allocatePageTable s = some ((.success, 4096 * (d + 1)), s₀) ∧ EarlyDir d s₀ ∧ s₀.frames = s.frames ∧
      s₀.meminfo = { s.meminfo with kernelHeapCurpos := 4096 * (d + 2) } ∧
      ∀ j < 1024, s₀.phys (4096 * (d + 1) + 4 * j) = ptRw := by
  obtain ⟨he, -⟩ := hroom.place 4096 5 (by decide) (by omega)
  have hplace : placeAt 5 s.meminfo.kernelHeapCurpos = 4096 * (d + 1) := by
    rw [placeAt, if_pos (by decide), hcur]
    omega
  rw [hplace] at he
  obtain ⟨phys, log, hs', hphys⟩ := @memset32_early (d + 1) (by omega) ptRw 1024 0
    { s with meminfo := { s.meminfo with kernelHeapCurpos := 4096 * (d + 1) + 4096 } } h.cr3 (by omega)
  refine ⟨{ s with meminfo := { s.meminfo with kernelHeapCurpos := 4096 * (d + 1) + 4096 }, phys, log }, ?_,
    ⟨h.cr3, h.early, h.dir, fun t ht => ?_⟩, rfl, ?_, fun j hj => ?_⟩
  · rw [allocatePageTable, if_neg (by simp [h.early]), kmallocAp, show kallocCritical ||| kallocPageAlign = 5 from rfl,
      show pageSize = 4096 from rfl]
    simp only [i386MemKalloc, he, Option.bind_eq_bind, Option.bind_some, Option.pure_def, hs', Option.getD_some]
    rw [if_neg (by omega)]
  · have hp := hphys d t ht
    rw [if_neg (by omega)] at hp
    have habs := h.absent t ht
    rw [PagingState.pde, h.dir] at habs
    simp only [PagingState.pde, h.dir]
    exact hp.trans habs
  · rw [show 4096 * (d + 2) = 4096 * (d + 1) + 4096 by omega]
  · exact (hphys (d + 1) j hj).trans (if_pos ⟨rfl, by omega, by omega⟩)

/-- The first page of the identity map makes the table, in the page after
the directory. -/
theorem EarlyDir.firstPage {d n : Nat} (h : EarlyDir d s) (hroom : Room s.meminfo n) (hn : n ≤ 0x40000)
    (hcur : s.meminfo.kernelHeapCurpos = 4096 * (d + 1)) (hd : d + 1 < 2 ^ 20) : ∃ s₁, EarlyMap d 0 s₁ ∧
      s₁.frames = s.frames ∧ s₁.meminfo = { s.meminfo with kernelHeapCurpos := 4096 * (d + 2) } ∧
      ∀ rem, identityMapPages (rem + 1) 0 s = identityMapPages (rem + 1) 0 s₁ := by
  obtain ⟨s₀, htable, h₀, hframes, hmem, hblank⟩ := h.newTable hroom hn hcur hd
  have hmap : EarlyMap d 0 (s₀.put (4096 * d + 4 * 0) (4096 * (d + 1) + 3)) := by
    refine ⟨h₀.cr3, h₀.early, h₀.dir, ?_, fun t h0 ht => ?_, fun j hj => by omega, fun j _ hj => ?_⟩
    · rw [PagingState.pde, put_phys, if_pos (by rw [put_pageDirectory, h₀.dir])]
    · have hp := h₀.absent t ht
      rw [PagingState.pde, h₀.dir] at hp
      rw [PagingState.pde, put_phys, put_pageDirectory, h₀.dir, if_neg (by omega)]
      exact hp
    · rw [put_phys, if_neg (by omega)]
      exact hblank j hj
  refine ⟨_, hmap, hframes, hmem, fun rem => ?_⟩
  have habs := h.absent 0 (by decide)
  rw [PagingState.pde, h.dir] at habs
  have hfirst : i386IdentityMapPage s (0 * 0x1000) (ptPresent ||| ptRw) (ptPresent ||| ptRw) =
      identityMapEntry (s₀.put (4096 * d + 4 * 0) (4096 * (d + 1) + 3)) (4096 * d) 0 0 0 (ptPresent ||| ptRw) := by
    rw [i386IdentityMapPage, kassert_of (show 0 * 0x1000 % pageSize = 0 by decide), h.dir,
      Option.bind_eq_bind, Option.bind_some, getVirtPtr_early h.early (by omega)]
    simp only [Option.bind_eq_bind, Option.bind_some, pageSize, Nat.zero_mul, Nat.zero_div, Nat.zero_mod,
      index32_page (show d < 2 ^ 20 by omega) (show 0 < 1024 by decide), read_early h.cr3, habs, and_present, htable,
      failed_success, h₀.dir, getVirtPtr_early h₀.early (show 4096 * d % 4096 = 0 by omega), write_early h₀.cr3,
      or_flags (show 4096 * (d + 1) % 4096 = 0 by omega) (show ptPresent ||| ptRw < 4096 by decide)]
    rw [if_pos (by decide)]
    rfl
  rw [identityMapPages, identityMapPages, hfirst, hmap.identityMapPage hd (by decide), hmap.mapEntry hd (by decide)]

/-! ## `i386_mem_init` -/

/-- What `i386_mem_init` takes from multiboot, before its first allocation. -/
def MultibootInfo.memInfo (mboot : MultibootInfo) : MemInfo where
  mmap := mboot.mmap
  kernelReservedStart := (i386ElfSectionsRead mboot.elfSec.toElfTable).1
  kernelReservedEnd := (i386ElfSectionsRead mboot.elfSec.toElfTable).2
  multibootReservedStart := mboot.addr
  multibootReservedEnd := u32 (mboot.addr + sizeofMultibootInfo * sizeofMultibootInfo)
  kernelHeapStart := u32 ((i386ElfSectionsRead mboot.elfSec.toElfTable).2 + 0x1000) &&& 0xFFFFF000
  kernelHeapCurpos := u32 ((i386ElfSectionsRead mboot.elfSec.toElfTable).2 + 0x1000) &&& 0xFFFFF000
  memLower := mboot.memLower
  memUpper := mboot.memUpper
  highestFreeAddress := u32 (mboot.memUpper * 1024)

theorem i386ElfSectionsEnd_low (elf : ElfSections) : ∀ {rem i e : Nat}, 1 ≤ i → i + rem ≤ sub32 elf.num 1 + 1 →
    e < 2 ^ 31 → i386ElfSectionsEnd elf.toElfTable rem i e < 2 ^ 31
  | 0, _, _, _, _, h => h
  | rem + 1, i, e, hi, hle, h => by
    rw [i386ElfSectionsEnd]
    split
    · exact i386ElfSectionsEnd_low elf (Nat.le_succ_of_le hi) (by omega) (elf.low i hi (by omega))
    · exact i386ElfSectionsEnd_low elf (Nat.le_succ_of_le hi) (by omega) h

theorem MultibootInfo.room (mboot : MultibootInfo) : Room mboot.memInfo 0 := by
  have hend := @i386ElfSectionsEnd_low mboot.elfSec (sub32 mboot.elfSec.num 1) 1 0 (Nat.le_refl 1) (by omega) (by omega)
  have hread : (i386ElfSectionsRead mboot.elfSec.toElfTable).2 < 2 ^ 31 + 0x1000 := by
    simp only [i386ElfSectionsRead]
    rw [u32_of_lt (by omega)]
    omega
  have hheap : mboot.memInfo.kernelHeapStart = 4096 * (((i386ElfSectionsRead mboot.elfSec.toElfTable).2 + 0x1000) / 4096) := by
    simp only [MultibootInfo.memInfo]
    rw [u32_of_lt (by omega), and_page (by omega)]
  have hcur : mboot.memInfo.kernelHeapCurpos = mboot.memInfo.kernelHeapStart := rfl
  refine ⟨by omega, by omega, by omega, by omega, by omega⟩

/-- What `i386_mem_init` leaves. -/
structure MemReady (mboot : MultibootInfo) (m : MemInfo) (b : Bitset) : Prop where
  info : ∃ curpos, m = { mboot.memInfo with kernelHeapCurpos := curpos }
  room : Room m 0x21000
  highest : m.highestFreeAddress ≤ 2 ^ 32 - 4096
  length : b.length = m.highestFreeAddress / 4096
  bit : ∀ f < b.length, b.bit f =
    decide (4096 * (f + 1) < m.highestFreeAddress ∧ i386MemCheckReserved m (4096 * f) = .reserved)

/-- The bitset of frames gets its memory, or there are no frames. -/
theorem MultibootInfo.placeBitset (mboot : MultibootInfo) : ∃ curpos,
    (i386MemKmallocReal (u32 (divRoundUp (mboot.memInfo.highestFreeAddress / 0x1000) 32 * sizeofU32)) kallocCritical
      mboot.memInfo).2 = { mboot.memInfo with kernelHeapCurpos := curpos } ∧
    Room { mboot.memInfo with kernelHeapCurpos := curpos } 0x21000 := by
  have hroom := mboot.room
  have hlt : mboot.memInfo.highestFreeAddress < 2 ^ 32 := u32_lt _
  by_cases h0 : mboot.memInfo.highestFreeAddress / 0x1000 = 0
  · have hw : NoWrap mboot.memInfo (2 ^ 29) := by
      have h1 := hroom.low; have h2 := hroom.le
      unfold NoWrap
      omega
    have hsize : u32 (divRoundUp 0 32 * sizeofU32) = 2 ^ 29 := by decide
    have h1 := hroom.ge
    refine ⟨mboot.memInfo.kernelHeapCurpos, ?_, hroom.mono (by omega)⟩
    rw [h0, hsize, i386MemKmallocReal_eq hw, hroom.limit, if_pos (.inr (by omega))]
  · have hdiv : divRoundUp (mboot.memInfo.highestFreeAddress / 0x1000) 32 =
        (mboot.memInfo.highestFreeAddress / 0x1000 - 1) / 32 + 1 := divRoundUp_of_pos (by omega) (by omega)
    have hsize : u32 (divRoundUp (mboot.memInfo.highestFreeAddress / 0x1000) 32 * sizeofU32) ≤ 0x20000 := by
      rw [hdiv, sizeofU32, u32_of_lt (by omega)]
      omega
    obtain ⟨size, hs⟩ : ∃ size, u32 (divRoundUp (mboot.memInfo.highestFreeAddress / 0x1000) 32 * sizeofU32) = size := ⟨_, rfl⟩
    rw [hs] at hsize ⊢
    obtain ⟨he, hr⟩ := hroom.place size kallocCritical (by decide) (by omega)
    rw [he]
    exact ⟨_, rfl, hr.mono (by omega)⟩

theorem i386MemInit_eq {mboot : MultibootInfo} (mem : Nat → Nat) (h6 : mboot.flags &&& 1 <<< 6 ≠ 0)
    (h5 : mboot.flags &&& 1 <<< 5 ≠ 0) {highest start : Nat} {phys : Option Nat} {r : Except Halt Bitset}
    (hhigh : u32 (mboot.memUpper * 1024) = highest)
    (hk : i386MemKmallocReal (u32 (divRoundUp (highest / 0x1000) 32 * sizeofU32)) kallocCritical mboot.memInfo =
      ((start, phys), m))
    (hr : i386MemInitBitset m (bitsetInit (fun i => BitVec.ofNat 32 (mem (start + 4 * i))) start (highest / 0x1000)) = r) :
    i386MemInit mboot mem = r >>= fun b => pure (m, b) := by
  -- Only how the two calls are chained matters, and nothing should try to evaluate them.
  obtain ⟨kmallocReal, hkm⟩ : ∃ f, f = i386MemKmallocReal := ⟨_, rfl⟩
  obtain ⟨initBitset, hib⟩ : ∃ f, f = i386MemInitBitset := ⟨_, rfl⟩
  obtain ⟨⟨kstart, kend⟩, hread⟩ : ∃ r, i386ElfSectionsRead mboot.elfSec.toElfTable = r := ⟨_, rfl⟩
  rw [MultibootInfo.memInfo, hhigh, hread, ← hkm] at hk
  rw [← hib] at hr
  rw [i386MemInit, kassert_of h6, kassert_of h5, liftM_some, ok_bind, ok_bind, hread, hhigh, ← hkm, ← hib]
  clear hkm hib
  dsimp only at hk ⊢
  rw [hk, ← hr]

/-- **`i386_mem_init`** returns, or memory reaches the last page. -/
theorem i386MemInit_spec (mboot : MultibootInfo) (mem : Nat → Nat) (h6 : mboot.flags &&& 1 <<< 6 ≠ 0)
    (h5 : mboot.flags &&& 1 <<< 5 ≠ 0) :
    (mboot.memInfo.highestFreeAddress ≤ 2 ^ 32 - 4096 ∧ ∃ m b, i386MemInit mboot mem = .ok (m, b) ∧ MemReady mboot m b) ∨
      (2 ^ 32 - 4096 < mboot.memInfo.highestFreeAddress ∧ i386MemInit mboot mem = .error .abort) := by
  obtain ⟨curpos, hcur, hroom⟩ := mboot.placeBitset
  have hhigh : mboot.memInfo.highestFreeAddress < 2 ^ 32 := u32_lt _
  obtain ⟨⟨⟨start, phys⟩, m⟩, hk⟩ : ∃ r, i386MemKmallocReal
      (u32 (divRoundUp (mboot.memInfo.highestFreeAddress / 0x1000) 32 * sizeofU32)) kallocCritical mboot.memInfo = r :=
    ⟨_, rfl⟩
  rw [hk] at hcur
  have hm : m = { mboot.memInfo with kernelHeapCurpos := curpos } := hcur
  have hhighest : mboot.memInfo.highestFreeAddress = m.highestFreeAddress := by rw [hm]
  have hword : u32 (mboot.memUpper * 1024) = m.highestFreeAddress := hhighest
  rw [hhighest] at hk hhigh ⊢
  by_cases hle : m.highestFreeAddress ≤ 2 ^ 32 - 4096
  · obtain ⟨b, hb, hlen, hbit⟩ := i386MemInitBitset_spec hle (fun i => BitVec.ofNat 32 (mem (start + 4 * i))) start
    refine .inl ⟨hle, m, b, i386MemInit_eq mem h6 h5 hword hk hb, ⟨curpos, hm⟩, by rw [hm]; exact hroom, hle, hlen,
      fun f hf => hbit f (by omega)⟩
  · have habort := @i386MemInitBitsetLoop_abort m (by omega) hhigh (2 ^ 20 + 1) 0
      (bitsetInit (fun i => BitVec.ofNat 32 (mem (start + 4 * i))) start (m.highestFreeAddress / pageSize)) (by omega)
      (by omega) rfl
    exact .inr ⟨by omega, i386MemInit_eq mem h6 h5 hword hk habort⟩

/-! ## `i386_paging_init` -/

/-- Paging is switched on, with the window at `w`. -/
def PagingState.enable (s : PagingState) (w : Nat) : PagingState :=
  { s with cr3 := some s.pageDirectory, windowPage := w, earlyInitDone := true }

/-- **What every later run starts from.** The pages below `KVIRT_RESERVED`
are identity mapped and their frames used; there is nothing else, and one
page table. -/
structure Booted (L : Layout) (s : PagingState) : Prop where
  tables : Tables L s
  dir_pos : L.dir ≠ 0
  table_pos : L.table ≠ 0
  window : s.windowPage = s.meminfo.kernelHeapStart + 0x51000
  absent : ∀ t, 0 < t → t < 1024 → s.pde t = ptRw
  low : ∀ p < 380, s.entry p = 4096 * p + 3
  high : ∀ p, 380 ≤ p → p < 2 ^ 20 → s.entry p = ptRw
  used : ∀ f < 380, s.frames.bit f = true
  length_ge : 380 ≤ s.frames.length
  length : s.frames.length = s.meminfo.highestFreeAddress / 4096
  highest : s.meminfo.highestFreeAddress < 2 ^ 32
  bit : ∀ f, 380 ≤ f → f < s.frames.length → s.frames.bit f =
    decide (4096 * (f + 1) < s.meminfo.highestFreeAddress ∧ i386MemCheckReserved s.meminfo (4096 * f) = .reserved)

theorem EarlyMap.entry {d : Nat} (h : EarlyMap d 380 s) (w p : Nat) (hp : p < 2 ^ 20) :
    (s.enable w).entry p = if p < 380 then 4096 * p + 3 else ptRw := by
  by_cases ht : p / 1024 = 0
  · have hfirst : (s.enable w).pde (p / 1024) = 4096 * (d + 1) + 3 := by
      rw [ht]
      exact h.first
    rw [PagingState.entry, hfirst, if_pos (by omega), show (4096 * (d + 1) + 3) / 4096 = d + 1 by omega,
      show p % 1024 = p by omega]
    split
    · next hlt => exact h.mapped p hlt
    · next hge => exact h.blank p (by omega) (by omega)
  · have habs : (s.enable w).pde (p / 1024) = ptRw := h.absent (p / 1024) (by omega) (by omega)
    rw [PagingState.entry, habs, if_neg (by decide), if_neg (by omega)]

theorem EarlyMap.tables {L : Layout} {w : Nat} (h : EarlyMap L.dir 380 s) (ht : L.table = L.dir + 1)
    (hw : w = 4096 * L.window) : Tables L (s.enable w) := by
  have hd := L.dir_lt; have htl := L.table_lt
  have hfirst : (s.enable w).pde 0 = 4096 * L.table + 3 := by
    rw [ht]
    exact h.first
  have habs : ∀ t, 0 < t → t < 1024 → (s.enable w).pde t = ptRw := h.absent
  -- Only the first table is present.
  have hzero : ∀ t < 1024, (s.enable w).pde t % 2 = 1 → t = 0 := by
    intro t ht hodd
    by_contra h0
    rw [habs t (by omega) ht] at hodd
    exact absurd hodd (by decide)
  refine ⟨by rw [PagingState.enable], rfl, hw, h.dir, hfirst, fun t ht' => ?_, fun p hp => ?_, ?_, ?_, fun t ht' hodd => ?_,
    fun t ht' t' ht'' hodd hodd' _ => ?_⟩
  · by_cases h0 : t = 0
    · rw [h0, hfirst]
      omega
    · rw [habs t (by omega) ht']
      decide
  · rw [h.entry w p hp]
    split
    · omega
    · decide
  · exact maps_of_eq (by rw [h.entry w _ (by omega), if_pos hd])
  · exact maps_of_eq (by rw [h.entry w _ (by omega), if_pos htl])
  · rw [hzero t ht' hodd, hfirst]
    omega
  · rw [hzero t ht' hodd, hzero t' ht'' hodd']

/-- What `i386_paging_init` makes of `s`. -/
structure PagingReady (s : PagingState) (L : Layout) (curpos : Nat) (s' : PagingState) : Prop where
  tables : Tables L s'
  dir_pos : L.dir ≠ 0
  table_pos : L.table ≠ 0
  length_ge : 380 ≤ s.frames.length
  window : s'.windowPage = s.meminfo.kernelHeapStart + 0x51000
  curpos_lt : curpos < 2 ^ 32
  meminfo : s'.meminfo = { s.meminfo with kernelHeapCurpos := curpos }
  filled : s.frames.Filled s'.frames 0 380
  absent : ∀ t, 0 < t → t < 1024 → s'.pde t = ptRw
  entry : ∀ p < 2 ^ 20, s'.entry p = if p < 380 then 4096 * p + 3 else ptRw

/-- **`i386_paging_init`** on an early heap with room for its two pages. -/
theorem i386PagingInit_spec (hcr3 : s.cr3 = none) (hearly : s.earlyInitDone = false) (hroom : Room s.meminfo 0x2a000) :
    (i386PagingInit s = none ∧ (s.frames.length < 380 ∨ kvirtReserved < s.meminfo.kernelHeapStart + 0x51000)) ∨
    ∃ L s' curpos, i386PagingInit s = some s' ∧ PagingReady s L curpos s' := by
  obtain ⟨d, hd, hdlt, hge, hle⟩ := placeAt_page hroom (by omega)
  have hlow := hroom.low; have hal := hroom.aligned
  obtain ⟨s₀, hs₀, hdir, hf₀, hm₀⟩ := i386MmuDataInit_eq hroom (by omega) hcr3 hearly hd (by omega)
  have hroom₀ : Room s₀.meminfo 0x2c000 := by
    rw [hm₀]
    exact ⟨hroom.aligned, hroom.pos, hroom.low, by simp only; omega, by simp only; omega⟩
  obtain ⟨s₁, hmap, hf₁, hm₁, hpages⟩ := hdir.firstPage hroom₀ (by omega) (by rw [hm₀]) (by omega)
  have hstart : s₁.meminfo.kernelHeapStart = s.meminfo.kernelHeapStart := by rw [hm₁, hm₀]
  have hinit : i386PagingInit s = (identityMapPages 380 0 s₁).bind fun s₂ => (kassert (u32 (u32 (s₂.meminfo.kernelHeapStart +
      earlyHeapMaxsize) + pageSize) ≤ kvirtReserved)).bind fun _ =>
        some (s₂.enable (u32 (u32 (s₂.meminfo.kernelHeapStart + earlyHeapMaxsize) + pageSize))) := by
    rw [i386PagingInit, hs₀]
    simp only [Option.bind_eq_bind, Option.bind_some, kassert_of]
    rw [show kvirtReserved / 0x1000 = 379 + 1 from rfl, hpages 379]
    rfl
  rw [hinit]
  rcases EarlyMap.pages (by omega) hmap (show 0 + 380 ≤ 1024 by omega) with ⟨hshort, hn⟩ | ⟨s₂, hs₂, hmap₂, hfill, hm₂, hlen⟩
  · rw [hf₁, hf₀] at hshort
    rw [hn]
    exact .inl ⟨rfl, .inl (by omega)⟩
  · have hlen' : 380 ≤ s.frames.length := by
      rw [hf₁, hf₀] at hlen
      omega
    have hwin : u32 (u32 (s₂.meminfo.kernelHeapStart + earlyHeapMaxsize) + pageSize) =
        s.meminfo.kernelHeapStart + 0x51000 := by
      rw [hm₂, hstart, hroom.limit, pageSize, u32_of_lt (by omega)]
    rw [hs₂, Option.bind_some, hwin]
    by_cases hk : s.meminfo.kernelHeapStart + 0x51000 ≤ kvirtReserved
    · have hk' : s.meminfo.kernelHeapStart + 0x51000 ≤ 0x17c000 := hk
      let L : Layout := ⟨(s.meminfo.kernelHeapStart + 0x51000) / 4096, d, d + 1, by omega, by omega, by omega, by omega,
        by omega, by omega⟩
      rw [kassert_of hk, Option.bind_some]
      have hpos := hroom.pos
      refine .inr ⟨L, _, 4096 * (d + 2), rfl, ?_, by simp only [L]; omega, by simp only [L]; omega, hlen', rfl,
        by omega, ?_, ?_, ?_, fun p hp => ?_⟩
      · exact EarlyMap.tables (L := L) hmap₂ rfl (by simp only [L]; omega)
      · exact hm₂.trans (by rw [hm₁, hm₀])
      · rw [hf₁, hf₀] at hfill
        exact hfill
      · exact hmap₂.absent
      · exact hmap₂.entry _ p hp
    · refine .inl ⟨?_, .inr (by omega)⟩
      rw [kassert, if_neg hk]
      rfl

/-! ## `kernel_early` -/

theorem i386MemInit_flags {mboot : MultibootInfo} {mem : Nat → Nat} {r : MemInfo × Bitset}
    (h : i386MemInit mboot mem = .ok r) : mboot.flags &&& 1 <<< 6 ≠ 0 ∧ mboot.flags &&& 1 <<< 5 ≠ 0 := by
  rw [i386MemInit] at h
  obtain ⟨_, h6, h⟩ := bind_eq_ok.mp h
  obtain ⟨_, h5, -⟩ := bind_eq_ok.mp h
  exact ⟨kassert_eq_some.mp (liftM_eq_ok.mp h6), kassert_eq_some.mp (liftM_eq_ok.mp h5)⟩

theorem kernelEarly_eq {mboot : MultibootInfo} {mem : Nat → Nat} {b : Bitset} {asa : Asa}
    (he : i386MemInit mboot mem = .ok (m, b))
    (hasa : asaInit i386MemKalloc (fun a => BitVec.ofNat 32 (mem a)) ⟨⟨0, 0, fun _ => 0⟩, 0⟩ 4096 m =
      some ((.success, asa), m')) :
    kernelEarly mboot mem = liftM (i386PagingInit ⟨mem, none, 0, 0, false, m', b, []⟩) >>= fun s => pure (s, asa) := by
  obtain ⟨memInit, hmi⟩ : ∃ f, f = i386MemInit := ⟨_, rfl⟩
  obtain ⟨init, hin⟩ : ∃ f, f = asaInit i386MemKalloc := ⟨_, rfl⟩
  obtain ⟨pagingInit, hpi⟩ : ∃ f, f = i386PagingInit := ⟨_, rfl⟩
  rw [← hmi] at he
  rw [← hin] at hasa
  rw [kernelEarly, ← hmi, ← hin, ← hpi, he, ok_bind, pageSize]
  clear hmi hin hpi
  dsimp only
  rw [hasa, liftM_some, ok_bind]
  dsimp only
  rw [kassert_of rfl, liftM_some, ok_bind]

theorem PagingReady.booted {mboot : MultibootInfo} {b : Bitset} {s' : PagingState} {L : Layout} {curpos cur : Nat}
    (h : PagingReady s L curpos s') (hready : MemReady mboot m b) (hframes : s.frames = b)
    (hinfo : s.meminfo = { m with kernelHeapCurpos := cur }) : Booted L s' := by
  have hfill := h.filled
  have hlen := h.length_ge
  rw [hframes] at hfill hlen
  have hmem : s'.meminfo = { m with kernelHeapCurpos := curpos } := by rw [h.meminfo, hinfo]
  have hcheck (a : Nat) : i386MemCheckReserved s'.meminfo a = i386MemCheckReserved m a := by
    rw [hmem]
    rfl
  have hhigh : s'.meminfo.highestFreeAddress = m.highestFreeAddress := by rw [hmem]
  refine ⟨h.tables, h.dir_pos, h.table_pos, by rw [h.window, h.meminfo], h.absent, fun p hp => ?_, fun p hp hlt => ?_,
    fun f hf => hfill.inside (Nat.zero_le f) (by omega), ?_, ?_, ?_, fun f hf hlt => ?_⟩
  · rw [h.entry p (by omega), if_pos hp]
  · rw [h.entry p hlt, if_neg (by omega)]
  · rw [hfill.length]
    exact hlen
  · rw [hfill.length, hhigh]
    exact hready.length
  · have h1 := hready.highest
    omega
  · rw [hfill.length] at hlt
    rw [hfill.outside (by omega), hhigh, hcheck]
    exact hready.bit f hlt

/-- **`kernel_early`** up to `i386_paging_init`: where it returns. -/
theorem kernelEarly_spec (mboot : MultibootInfo) (mem : Nat → Nat) (h6 : mboot.flags &&& 1 <<< 6 ≠ 0)
    (h5 : mboot.flags &&& 1 <<< 5 ≠ 0) :
    (∃ L s asa curpos, kernelEarly mboot mem = .ok (s, asa) ∧ Booted L s ∧ AsaUpTo asa 380 ∧ curpos < 2 ^ 32 ∧
      s.meminfo = { mboot.memInfo with kernelHeapCurpos := curpos }) ∨
    (kernelEarly mboot mem = .error .abort ∧
      (2 ^ 32 - 4096 < mboot.memInfo.highestFreeAddress ∨ mboot.memInfo.highestFreeAddress / 4096 < 380 ∨
        kvirtReserved < mboot.memInfo.kernelHeapStart + 0x51000)) := by
  rcases i386MemInit_spec mboot mem h6 h5 with ⟨hle, m, b, he, hready⟩ | ⟨hgt, he⟩
  · obtain ⟨curpos, hm⟩ := hready.info
    have hstart : m.kernelHeapStart = mboot.memInfo.kernelHeapStart := by rw [hm]
    have hhighest : m.highestFreeAddress = mboot.memInfo.highestFreeAddress := by rw [hm]
    obtain ⟨hplace, hroom⟩ := hready.room.place 32768 kallocCritical (by decide) (by omega)
    have hk : kmalloc i386MemKalloc 32768 kallocCritical m = some (placeAt kallocCritical m.kernelHeapCurpos,
        { m with kernelHeapCurpos := placeAt kallocCritical m.kernelHeapCurpos + 32768 }) := by
      simp only [kmalloc, i386MemKalloc, hplace, Option.bind_eq_bind, Option.bind_some, Option.pure_def]
    obtain ⟨asa, hasa⟩ := asaInit_ok (fun a => BitVec.ofNat 32 (mem a)) ⟨⟨0, 0, fun _ => 0⟩, 0⟩ hk (hready.room.placed_pos _)
    let s₀ : PagingState := ⟨mem, none, 0, 0, false,
      { m with kernelHeapCurpos := placeAt kallocCritical m.kernelHeapCurpos + 32768 }, b, []⟩
    have hinit := kernelEarly_eq he hasa
    rw [show (⟨mem, none, 0, 0, false, _, b, []⟩ : PagingState) = s₀ from rfl] at hinit
    rw [hinit]
    rcases i386PagingInit_spec (s := s₀) rfl rfl hroom with ⟨hn, hwhy⟩ | ⟨L, s, cur, hs, hpaging⟩
    · refine .inr ⟨by rw [hn]; rfl, ?_⟩
      have hl := hready.length
      simp only [s₀] at hwhy
      omega
    · refine .inl ⟨L, s, asa, cur, by rw [hs]; rfl, hpaging.booted hready rfl rfl, asaInit_upTo hasa, hpaging.curpos_lt, ?_⟩
      rw [hpaging.meminfo]
      simp only [s₀, hm]
  · refine .inr ⟨?_, .inl hgt⟩
    rw [kernelEarly, he]
    rfl

/-- **Boot ends in a booted state.** -/
theorem kernelEarly_placed {mboot : MultibootInfo} {mem : Nat → Nat} {asa : Asa} (h : kernelEarly mboot mem = .ok (s, asa)) :
    ∃ L, Booted L s ∧ AsaUpTo asa 380 ∧ s.meminfo.kernelHeapCurpos < 2 ^ 32 := by
  have h' := h
  rw [kernelEarly] at h'
  obtain ⟨r, hr, -⟩ := bind_eq_ok.mp h'
  obtain ⟨h6, h5⟩ := i386MemInit_flags hr
  rcases kernelEarly_spec mboot mem h6 h5 with ⟨L, s', asa', curpos, he, hb, ha, hcur, hm⟩ | ⟨he, -⟩
  · rw [h] at he
    cases he
    exact ⟨L, hb, ha, by rw [hm]; exact hcur⟩
  · rw [h] at he
    cases he

theorem kernelEarly_booted {mboot : MultibootInfo} {mem : Nat → Nat} {asa : Asa}
    (h : kernelEarly mboot mem = .ok (s, asa)) : ∃ L, Booted L s ∧ AsaUpTo asa 380 := by
  obtain ⟨L, hb, ha, -⟩ := kernelEarly_placed h
  exact ⟨L, hb, ha⟩

/-- A page present after boot lies below 380, in the frame of its number. -/
theorem Booted.page_frame {L : Layout} (h : Booted L s) {p f : Nat} (hp : s.hold L (.page p) = some f) :
    p = f ∧ f < 380 ∧ f ≠ 0 ∧ f ≠ L.dir ∧ f ≠ L.table := by
  have hd := L.dir_lt; have ht := L.table_lt
  simp only [PagingState.hold, holdOf] at hp
  split at hp
  · next hcond =>
    obtain ⟨he, h0⟩ := entryFrame_some hp
    by_cases hlow : p < 380
    · rw [h.low p hlow] at he
      omega
    · rw [h.high p (by omega) hcond.1, ptRw] at he
      omega
  · cases hp

/-- The only page table after boot is the first. -/
theorem Booted.table_frame {L : Layout} (h : Booted L s) {t f : Nat} (hp : s.hold L (.table t) = some f) :
    t = 0 ∧ f = L.table := by
  simp only [PagingState.hold, holdOf] at hp
  split at hp
  · next hcond =>
    by_cases h0 : t = 0
    · cases hp
      rw [h0]
      exact ⟨rfl, h.tables.first_frame⟩
    · rw [h.absent t (by omega) hcond.1] at hcond
      exact absurd hcond.2 (by decide)
  · cases hp

/-- The invariant holds after boot. -/
theorem Booted.inv {L : Layout} (h : Booted L s) : PagingInv L s := by
  have hd := L.dir_lt; have ht := L.table_lt
  have hlen := h.length_ge
  have inUse {f : Nat} (h0 : f ≠ 0) (hf : f < 380) : f ∈ s.frames.inUse := ⟨h0, by omega, h.used f hf⟩
  have hdir {f : Nat} (hp : s.hold L .directory = some f) : f = L.dir := by
    cases hp
    rfl
  have hne := L.apart
  refine ⟨h.tables, h.length, h.highest, ⟨fun i f hf => ?_, fun i j f hi hj => ?_⟩⟩
  · cases i with
    | page p =>
      obtain ⟨-, hlt, h0, -⟩ := h.page_frame hf
      exact inUse h0 hlt
    | table t =>
      obtain ⟨-, rfl⟩ := h.table_frame hf
      exact inUse h.table_pos ht
    | directory =>
      rw [hdir hf]
      exact inUse h.dir_pos hd
  · -- Each of the three kinds has frames of its own.
    cases i with
    | page p =>
      obtain ⟨rfl, -, -, h1, h2⟩ := h.page_frame hi
      cases j with
      | page q => rw [(h.page_frame hj).1]
      | table t => exact absurd (h.table_frame hj).2 h2
      | directory => exact absurd (hdir hj) h1
    | table t =>
      obtain ⟨rfl, rfl⟩ := h.table_frame hi
      cases j with
      | page q => exact absurd rfl (h.page_frame hj).2.2.2.2
      | table t => rw [(h.table_frame hj).1]
      | directory => exact absurd (hdir hj).symm hne
    | directory =>
      have he := hdir hi
      subst he
      cases j with
      | page q => exact absurd rfl (h.page_frame hj).2.2.2.1
      | table t => exact absurd (h.table_frame hj).2 hne
      | directory => rfl

/-! ## Some machines -/

/-- A machine with the memory map `mmap`, whose kernel ends at `kend`. -/
def bootMap (kend memUpper : Nat) (mmap : List MmapEntry) (h : kend < 2 ^ 31) : MultibootInfo where
  addr := 0x10000
  flags := 0x60
  memLower := 639
  memUpper
  mmap
  elfSec :=
    { num := 3, shAddr := fun i => if i = 1 then 0x100000 else kend,
      low := fun i _ _ => by
        split
        · omega
        · exact h }

/-- It boots, and the frames above `KVIRT_RESERVED` are reserved by its map
only. -/
theorem bootMap_ok {kend memUpper : Nat} {mmap : List MmapEntry} (h : kend < 2 ^ 31) (hal : kend % 4096 = 0)
    (hge : 0x100000 < kend) (hle : kend ≤ 0x12a000) (hlo : 1520 ≤ memUpper) (hhi : memUpper < 2 ^ 22 - 4) (mem : Nat → Nat) :
    ∃ L s asa, kernelEarly (bootMap kend memUpper mmap h) mem = .ok (s, asa) ∧ Booted L s ∧ AsaUpTo asa 380 ∧
      s.meminfo.kernelHeapStart = kend + 0x1000 ∧ s.meminfo.highestFreeAddress = memUpper * 1024 ∧
      ∀ f, 380 ≤ f → f < memUpper / 4 → s.frames.bit f =
        decide (4096 * (f + 1) < memUpper * 1024 ∧ i386MmapCheckReserved (4096 * f) mmap = .reserved) := by
  have hread : (i386ElfSectionsRead (bootMap kend memUpper mmap h).elfSec.toElfTable) = (0x100000, kend) := by
    have hend : i386ElfSectionsEnd (bootMap kend memUpper mmap h).elfSec.toElfTable 2 1 0 = kend := by
      simp [i386ElfSectionsEnd, bootMap, hge]
    have hnum : (bootMap kend memUpper mmap h).elfSec.num = 3 := rfl
    have hfirst : (bootMap kend memUpper mmap h).elfSec.shAddr 1 = 0x100000 := by simp [bootMap]
    rw [i386ElfSectionsRead, hnum, show sub32 3 1 = 2 by decide, hend, hal, Nat.add_zero, u32_of_lt (by omega), hfirst]
  have hheap : (bootMap kend memUpper mmap h).memInfo.kernelHeapStart = kend + 0x1000 := by
    simp only [MultibootInfo.memInfo, hread]
    rw [u32_of_lt (by omega), and_page (by omega)]
    omega
  have hhigh : (bootMap kend memUpper mmap h).memInfo.highestFreeAddress = memUpper * 1024 := u32_of_lt (by simp [bootMap]; omega)
  rcases kernelEarly_spec (bootMap kend memUpper mmap h) mem (by simp [bootMap]) (by simp [bootMap]) with
    ⟨L, s, asa, cur, he, hb, ha, -, hm⟩ | ⟨-, hwhy⟩
  · have hstart : s.meminfo.kernelHeapStart = kend + 0x1000 := by rw [hm]; exact hheap
    have hhighest : s.meminfo.highestFreeAddress = memUpper * 1024 := by rw [hm]; exact hhigh
    refine ⟨L, s, asa, he, hb, ha, hstart, hhighest, fun f hf hlt => ?_⟩
    have hcheck : i386MemCheckReserved s.meminfo (4096 * f) = i386MmapCheckReserved (4096 * f) mmap := by
      have haddr : u32 (4096 * f + pageSize) = 4096 * (f + 1) := by
        unfold pageSize
        exact u32_of_lt (by omega)
      rw [hm]
      simp only [i386MemCheckReserved, MultibootInfo.memInfo, hread, haddr]
      rw [if_neg (by omega), if_neg (by omega), if_neg (by simp [bootMap, sizeofMultibootInfo, u32]; omega)]
      rfl
    rw [hb.bit f hf (by rw [hb.length, hhighest]; omega), hcheck, hhighest]
  · rw [hheap, hhigh, kvirtReserved] at hwhy
    omega

/-- A machine with 128 MiB, whose kernel ends at `kend`. -/
def boot128 (kend : Nat) (h : kend < 2 ^ 31) : MultibootInfo where
  addr := 0x10000
  flags := 0x60
  memLower := 639
  memUpper := 129920
  mmap := [⟨0, 0x8000000, multibootMemoryAvailable⟩]
  elfSec :=
    { num := 3, shAddr := fun i => if i = 1 then 0x100000 else kend,
      low := fun i _ _ => by
        split
        · omega
        · exact h }

/-- It boots, and all memory above `KVIRT_RESERVED` is free. -/
theorem boot128_ok {kend : Nat} (h : kend < 2 ^ 31) (hal : kend % 4096 = 0) (hge : 0x100000 < kend)
    (hle : kend ≤ 0x12a000) (mem : Nat → Nat) : ∃ L s asa, kernelEarly (boot128 kend h) mem = .ok (s, asa) ∧ Booted L s ∧
      AsaUpTo asa 380 ∧ s.meminfo.kernelHeapStart = kend + 0x1000 ∧ s.meminfo.highestFreeAddress = 133038080 ∧
      ∀ f, 380 ≤ f → f < 32480 → s.frames.bit f = false := by
  obtain ⟨L, s, asa, he, hb, ha, hstart, hhigh, hbit⟩ := @bootMap_ok kend 129920
    [⟨0, 0x8000000, multibootMemoryAvailable⟩] h hal hge hle (by decide) (by decide) mem
  refine ⟨L, s, asa, he, hb, ha, hstart, hhigh, fun f hf hlt => ?_⟩
  have hend : MmapEntry.end32 ⟨0, 0x8000000, multibootMemoryAvailable⟩ = 0x8000000 := by decide
  have haddr : u32 (4096 * f + pageSize) = 4096 * (f + 1) := by
    unfold pageSize
    exact u32_of_lt (by omega)
  rw [hbit f hf hlt, i386MmapCheckReserved, hend, haddr, if_pos ⟨Nat.zero_le _, by omega⟩, if_neg (by decide),
    if_neg (by omega)]
  simp

/-- Its first free frame. -/
theorem Booted.next_128 {L : Layout} (hb : Booted L s) (hhigh : s.meminfo.highestFreeAddress = 133038080)
    (hclear : ∀ f, 380 ≤ f → f < 32480 → s.frames.bit f = false) : i386MemGetNextFreeFrame s.meminfo s.frames = 380 :=
  i386MemGetNextFreeFrame_eq (by rw [hhigh]; decide) (hclear 380 (by decide) (by decide)) fun g hg => hb.used g hg

end ShawnOS
