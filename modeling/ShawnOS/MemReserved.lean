/-
What `mem.c` reserves of the kernel's image, and which pages of available
memory the walk over the memory map finds.

`_i386_elf_sections_read` takes the highest section address for the end of
the kernel and never looks at `sh_size`; the rounding after it adds the
offset in the page once more, which is a round-up only at offsets 0 and
2048. `_i386_mmap_check_reserved` stops at the first entry whose bounds test
accepts the address. The test takes an entry's end in, so that an entry that
ends where the page begins hides the page, and it sees an end above 4 GiB
through its low 32 bits only.
-/
import ShawnOS.MemFacts
import Mathlib.Algebra.Order.Interval.Finset.SuccPred
import Mathlib.Data.List.Find
import Mathlib.Data.Nat.SuccPred
import Mathlib.Order.Lattice.Nat

namespace ShawnOS

open Word32

/-! ## The kernel's image -/

/-- Section headers of a loaded kernel: 32-bit words, at least one section,
the first of them lowest. -/
structure KernelImage extends ElfTable where
  shSize : Nat → Nat
  two_le : 2 ≤ num
  num_lt : num < 2 ^ 32
  addr_lt : ∀ i, shAddr i < 2 ^ 32
  size_lt : ∀ i, shSize i < 2 ^ 32
  lowest : ∀ i, 1 ≤ i → i < num → shAddr 1 ≤ shAddr i

/-- The bytes of a section. -/
def KernelImage.bytes (k : KernelImage) (i : Nat) : Set Nat := Set.Ico (k.shAddr i) (k.shAddr i + k.shSize i)

/-- The highest address at which a section starts. -/
def ElfTable.top (elf : ElfTable) : Nat := (Finset.Ico 1 elf.num).sup elf.shAddr

/-- `kernel_heap_start`, as `i386_mem_init` computes it. -/
def ElfTable.heapStart (elf : ElfTable) : Nat := u32 ((i386ElfSectionsRead elf).2 + 0x1000) &&& 0xFFFFF000

/-- The kernel's sections are reserved, up to a page boundary, and the early
heap starts after them. -/
structure KernelImage.Reserved (k : KernelImage) : Prop where
  inside : ∀ i, 1 ≤ i → i < k.num →
    k.bytes i ⊆ Set.Icc (i386ElfSectionsRead k.toElfTable).1 (i386ElfSectionsRead k.toElfTable).2
  aligned : (i386ElfSectionsRead k.toElfTable).2 % 4096 = 0
  heap : ∀ i, 1 ≤ i → i < k.num → k.shAddr i + k.shSize i ≤ k.heapStart

/-- The loop keeps a maximum. -/
theorem i386ElfSectionsEnd_eq (elf : ElfTable) :
    ∀ rem i e, i386ElfSectionsEnd elf rem i e = max e ((Finset.Ico i (i + rem)).sup elf.shAddr)
  | 0, i, e => by simp [i386ElfSectionsEnd]
  | rem + 1, i, e => by
    have hsplit : Finset.Ico i (i + (rem + 1)) = insert i (Finset.Ico (i + 1) (i + 1 + rem)) := by
      rw [Finset.insert_Ico_add_one_left_eq_Ico (show i < i + 1 + rem by omega)]
      congr 1
      omega
    have hmax : (if elf.shAddr i > e then elf.shAddr i else e) = max e (elf.shAddr i) := by
      split <;> omega
    rw [i386ElfSectionsEnd, i386ElfSectionsEnd_eq elf rem, hmax, hsplit, Finset.sup_insert]
    exact max_assoc _ _ _

theorem KernelImage.read_eq (k : KernelImage) :
    i386ElfSectionsRead k.toElfTable = (k.shAddr 1, u32 (k.top + k.top % 4096)) := by
  have h2 := k.two_le
  have hlt := k.num_lt
  have hrange : 1 + (k.num - 1) = k.num := by omega
  rw [i386ElfSectionsRead, sub32_of_le hlt (by omega), i386ElfSectionsEnd_eq, hrange]
  simp [ElfTable.top]

theorem KernelImage.le_top (k : KernelImage) {i : Nat} (h1 : 1 ≤ i) (hi : i < k.num) : k.shAddr i ≤ k.top :=
  @Finset.le_sup _ _ _ _ _ k.shAddr _ (Finset.mem_Ico.mpr ⟨h1, hi⟩)

/-- The highest address is one of them. -/
theorem KernelImage.top_mem (k : KernelImage) : ∃ i, 1 ≤ i ∧ i < k.num ∧ k.shAddr i = k.top := by
  have h2 := k.two_le
  obtain ⟨i, hi, htop⟩ := Finset.exists_mem_eq_sup (Finset.Ico 1 k.num) ⟨1, Finset.mem_Ico.mpr ⟨le_rfl, by omega⟩⟩ k.shAddr
  rw [Finset.mem_Ico] at hi
  exact ⟨i, hi.1, hi.2, htop.symm⟩

theorem KernelImage.top_lt (k : KernelImage) : k.top < 2 ^ 32 := by
  obtain ⟨i, -, -, hi⟩ := k.top_mem
  rw [← hi]
  exact k.addr_lt i

theorem KernelImage.heapStart_eq (k : KernelImage) :
    k.heapStart = 4096 * (u32 (u32 (k.top + k.top % 4096) + 4096) / 4096) := by
  rw [ElfTable.heapStart, k.read_eq, and_page (u32_lt _)]

/-- `i386_mem_init` starts the early heap there. -/
theorem i386MemInit_heapStart {mboot : MultibootInfo} {mem : Nat → Nat} {m : MemInfo} {b : Bitset}
    (h : i386MemInit mboot mem = .ok (m, b)) : m.kernelHeapStart = mboot.elfSec.heapStart := by
  have hkeep : ∀ size flags m, (i386MemKmallocReal size flags m).2.kernelHeapStart = m.kernelHeapStart := by
    intro size flags m
    rw [i386MemKmallocReal]
    split
    · rfl
    · split <;> rfl
  -- Only how the calls are chained matters, and nothing should try to evaluate them.
  obtain ⟨kmallocReal, hkm⟩ : ∃ f, f = i386MemKmallocReal := ⟨_, rfl⟩
  obtain ⟨initBitset, hib⟩ : ∃ f, f = i386MemInitBitset := ⟨_, rfl⟩
  obtain ⟨⟨kstart, kend⟩, hread⟩ : ∃ r, i386ElfSectionsRead mboot.elfSec.toElfTable = r := ⟨_, rfl⟩
  rw [i386MemInit, hread, ← hkm, ← hib] at h
  rw [← hkm] at hkeep
  clear hkm hib
  obtain ⟨-, -, h⟩ := bind_eq_ok.mp h
  obtain ⟨-, -, h⟩ := bind_eq_ok.mp h
  obtain ⟨b', -, h⟩ := bind_eq_ok.mp h
  cases h
  rw [hkeep, ElfTable.heapStart, hread]

/-- **The kernel's image is reserved** exactly when no section reaches
further than the highest section address, which lies on a page or half a
page, is taken to reach. -/
theorem kernelImage_reserved_iff (k : KernelImage) :
    k.Reserved ↔ k.top % 2048 = 0 ∧ k.top + k.top % 4096 + 4096 < 2 ^ 32 ∧
      ∀ i, 1 ≤ i → i < k.num → 0 < k.shSize i → k.shAddr i + k.shSize i ≤ k.top + k.top % 4096 + 1 := by
  have htop := k.top_lt
  have hheap := k.heapStart_eq
  constructor
  · intro h
    have hal := h.aligned
    obtain ⟨t, ht1, ht2, ht⟩ := k.top_mem
    have hover := h.heap t ht1 ht2
    rw [k.read_eq] at hal
    have hroom : k.top + k.top % 4096 + 4096 < 2 ^ 32 := by
      unfold u32 at hal hheap
      omega
    refine ⟨by unfold u32 at hal; omega, hroom, fun i h1 hi hsize => ?_⟩
    have hlast : k.shAddr i + k.shSize i - 1 ∈ k.bytes i := Set.mem_Ico.mpr ⟨by omega, by omega⟩
    have hin := (h.inside i h1 hi hlast).2
    rw [k.read_eq, u32_of_lt (by omega)] at hin
    dsimp only at hin
    omega
  · intro ⟨hal, hroom, hsize⟩
    rw [u32_of_lt (show k.top + k.top % 4096 < 2 ^ 32 by omega), u32_of_lt hroom] at hheap
    refine ⟨fun i h1 hi x hx => ?_, ?_, fun i h1 hi => ?_⟩
    · have hlow := k.lowest i h1 hi
      obtain ⟨hx1, hx2⟩ := Set.mem_Ico.mp hx
      have hle := hsize i h1 hi (by omega)
      rw [k.read_eq, u32_of_lt (by omega)]
      exact Set.mem_Icc.mpr ⟨by omega, by omega⟩
    · rw [k.read_eq, u32_of_lt (by omega)]
      dsimp only
      omega
    · have hle := k.le_top h1 hi
      by_cases h0 : k.shSize i = 0
      · omega
      · have := hsize i h1 hi (by omega)
        omega

/-- Code at 1 MiB and, above it, 12 KiB of data. -/
def dataImage : KernelImage where
  num := 3
  shAddr i := if i = 2 then 0x105000 else 0x100000
  shSize i := if i = 2 then 0x3000 else 0x5000
  two_le := by decide
  num_lt := by decide
  addr_lt i := by split <;> decide
  size_lt i := by split <;> decide
  lowest i _ _ := by
    simp only [show ¬ (1 = 2) by decide, if_false]
    split <;> decide

/-- The early heap starts in its data. -/
theorem dataImage_not_reserved : ¬ dataImage.Reserved := by
  intro h
  exact absurd (h.heap 2 (by decide) (by decide)) (by decide)

/-! ## The memory map -/

/-- The entry ends where `addr` is. -/
def MmapEntry.endsAt (addr : Nat) (e : MmapEntry) : Bool := e.addr + e.len = addr

/-- The page at `addr`, which lies in the available entry `e` of the map
`l₁ ++ e :: l₂`, is found there: no entry before hides it, and the low 32
bits of where `e` ends lie after the page. In the last page, whose own end
is 0, any entry has room, so it only matters which comes first. -/
inductive PageFound (l₁ : List MmapEntry) (e : MmapEntry) (l₂ : List MmapEntry) (addr : Nat) : Prop
  | room : (∀ e' ∈ l₁, e'.addr + e'.len ≠ addr) → addr + pageSize ≤ e.end32 → PageFound l₁ e l₂ addr
  | before {e'} : addr + pageSize = 2 ^ 32 → l₁.find? (·.endsAt addr) = some e' →
      e'.type ≠ multibootMemoryReserved → PageFound l₁ e l₂ addr
  | itself : addr + pageSize = 2 ^ 32 → (∀ e' ∈ l₁, e'.addr + e'.len ≠ addr) → addr ≤ e.end32 → PageFound l₁ e l₂ addr
  | after {e'} : addr + pageSize = 2 ^ 32 → (∀ e' ∈ l₁, e'.addr + e'.len ≠ addr) → e.end32 < addr →
      l₂.find? (·.endsAt addr) = some e' → e'.type ≠ multibootMemoryReserved → PageFound l₁ e l₂ addr

/-- Of the other entries, the bounds test accepts those that end at the page. -/
theorem covers_of_disjoint {e e' : MmapEntry} {addr : Nat} (hd : Disjoint e'.bytes e.bytes) (hmem : addr ∈ e.bytes)
    (hlt : addr < 2 ^ 32) : e'.covers addr = e'.endsAt addr := by
  have hout : ¬ (e'.addr ≤ addr ∧ addr < e'.addr + e'.len) := fun h => Set.disjoint_left.mp hd (Set.mem_Ico.mpr h) hmem
  have hend := e'.end32_le
  simp only [MmapEntry.covers, MmapEntry.endsAt, decide_eq_decide]
  constructor
  · intro h
    omega
  · intro h
    have : e'.end32 = addr := by rw [MmapEntry.end32, h, u32_of_lt hlt]
    omega

theorem find?_covers {l : List MmapEntry} {e : MmapEntry} {addr : Nat} (hd : ∀ e' ∈ l, Disjoint e'.bytes e.bytes)
    (hmem : addr ∈ e.bytes) (hlt : addr < 2 ^ 32) : l.find? (·.covers addr) = l.find? (·.endsAt addr) :=
  List.find?_congr fun e' he' => covers_of_disjoint (hd e' he') hmem hlt

/-- An entry that ends where the page begins has room for the last page only. -/
theorem check_endsAt {e' : MmapEntry} {addr : Nat} (he : e'.endsAt addr = true) (hal : addr % pageSize = 0)
    (hlt : addr < 2 ^ 32) :
    (if e'.type = multibootMemoryReserved then MemState.reserved
      else if u32 (addr + pageSize) > e'.end32 then .reserved else .free) = .free ↔
      addr + pageSize = 2 ^ 32 ∧ e'.type ≠ multibootMemoryReserved := by
  have hend : e'.end32 = addr := by
    simp only [MmapEntry.endsAt, decide_eq_true_eq] at he
    rw [MmapEntry.end32, he, u32_of_lt hlt]
  rw [hend]
  unfold pageSize u32 at *
  by_cases ht : e'.type = multibootMemoryReserved
  · simp [ht]
  · rw [if_neg ht]
    split
    · simp
      omega
    · simp [ht]
      omega

theorem none_endsAt {l : List MmapEntry} {addr : Nat} :
    l.find? (·.endsAt addr) = none ↔ ∀ e' ∈ l, e'.addr + e'.len ≠ addr := by
  simp [List.find?_eq_none, MmapEntry.endsAt]

section
variable {l₁ l₂ : List MmapEntry} {e : MmapEntry} {addr : Nat}

theorem pageFound_before {e' : MmapEntry} (hbefore : l₁.find? (·.endsAt addr) = some e') :
    PageFound l₁ e l₂ addr ↔ addr + pageSize = 2 ^ 32 ∧ e'.type ≠ multibootMemoryReserved := by
  have hno : ¬ ∀ e' ∈ l₁, e'.addr + e'.len ≠ addr := by
    rw [← none_endsAt, hbefore]
    simp
  constructor
  · intro h
    cases h with
    | room hno' _ => exact absurd hno' hno
    | before hlast hfind ht =>
      rw [hbefore] at hfind
      cases hfind
      exact ⟨hlast, ht⟩
    | itself _ hno' _ => exact absurd hno' hno
    | after _ hno' _ _ _ => exact absurd hno' hno
  · intro ⟨hlast, ht⟩
    exact .before hlast hbefore ht

theorem pageFound_itself (hno : l₁.find? (·.endsAt addr) = none) (hc : addr ≤ e.end32) :
    PageFound l₁ e l₂ addr ↔ addr + pageSize = 2 ^ 32 ∨ addr + pageSize ≤ e.end32 := by
  constructor
  · intro h
    cases h with
    | room _ hroom => exact .inr hroom
    | before hlast _ _ => exact .inl hlast
    | itself hlast _ _ => exact .inl hlast
    | after hlast _ _ _ _ => exact .inl hlast
  · intro h
    rcases h with hlast | hroom
    · exact .itself hlast (none_endsAt.mp hno) hc
    · exact .room (none_endsAt.mp hno) hroom

theorem pageFound_after (hno : l₁.find? (·.endsAt addr) = none) (hc : e.end32 < addr) :
    PageFound l₁ e l₂ addr ↔ addr + pageSize = 2 ^ 32 ∧
      ∃ e', l₂.find? (·.endsAt addr) = some e' ∧ e'.type ≠ multibootMemoryReserved := by
  constructor
  · intro h
    cases h with
    | room _ hroom => omega
    | before _ hfind _ => simp [hno] at hfind
    | itself _ _ hle => omega
    | after hlast _ _ hfind ht => exact ⟨hlast, _, hfind, ht⟩
  · intro ⟨hlast, _, hfind, ht⟩
    exact .after hlast (none_endsAt.mp hno) hc hfind ht

end

/-- **A page of available memory** is found free exactly when no entry that
the walk meets before hides it, and the entry's end keeps it in 32 bits. -/
theorem i386MmapCheckReserved_free_iff {l₁ l₂ : List MmapEntry} {e : MmapEntry} {addr : Nat}
    (hd : (l₁ ++ e :: l₂).Pairwise fun a b => Disjoint a.bytes b.bytes) (hav : e.type = multibootMemoryAvailable)
    (hpage : Set.Ico addr (addr + pageSize) ⊆ e.bytes) (hal : addr % pageSize = 0) (hlt : addr < 2 ^ 32) :
    i386MmapCheckReserved addr (l₁ ++ e :: l₂) = .free ↔ PageFound l₁ e l₂ addr := by
  have hmem : addr ∈ e.bytes := hpage (Set.mem_Ico.mpr ⟨le_rfl, by unfold pageSize; omega⟩)
  obtain ⟨hd₂, hd₁⟩ := (List.pairwise_append.mp hd).2
  have h₁ : ∀ e' ∈ l₁, Disjoint e'.bytes e.bytes := fun e' he' => hd₁ e' he' e (by simp)
  have h₂ : ∀ e' ∈ l₂, Disjoint e'.bytes e.bytes := fun e' he' => ((List.pairwise_cons.mp hd₂).1 e' he').symm
  have hstart : e.addr ≤ addr := (Set.mem_Ico.mp hmem).1
  have hres : e.type ≠ multibootMemoryReserved := by rw [hav]; decide
  rw [i386MmapCheckReserved_eq, List.find?_append, find?_covers h₁ hmem hlt, List.find?_cons]
  cases hbefore : l₁.find? (·.endsAt addr) with
  | some e' =>
    rw [pageFound_before hbefore]
    exact check_endsAt (List.find?_some hbefore) hal hlt
  | none =>
    simp only [Option.none_or]
    by_cases hc : addr ≤ e.end32
    · have hcov : e.covers addr = true := decide_eq_true ⟨hstart, hc⟩
      rw [hcov, pageFound_itself hbefore hc]
      dsimp only
      rw [if_neg hres]
      by_cases hlast : addr + pageSize = 2 ^ 32
      · rw [hlast, show u32 (2 ^ 32) = 0 by decide, if_neg (by omega)]
        simp
      · rw [u32_of_lt (show addr + pageSize < 2 ^ 32 by unfold pageSize at *; omega)]
        split
        · next hover => exact iff_of_false (by simp) (by omega)
        · next hroom => exact iff_of_true rfl (by omega)
    · have hcov : e.covers addr = false := decide_eq_false fun h => hc h.2
      rw [hcov, pageFound_after hbefore (by omega)]
      dsimp only
      rw [find?_covers h₂ hmem hlt]
      cases hafter : l₂.find? (·.endsAt addr) with
      | none => simp
      | some e' => simpa using check_endsAt (List.find?_some hafter) hal hlt

/-- The BIOS area up to 1 MiB, and the memory after it. -/
def biosMap : List MmapEntry := [⟨0x9f000, 0x61000, multibootMemoryReserved⟩, ⟨0x100000, 0x7f00000, multibootMemoryAvailable⟩]

theorem biosMap_disjoint : biosMap.Pairwise fun a b => Disjoint a.bytes b.bytes := by
  simp [biosMap, MmapEntry.bytes, Set.Ico_disjoint_Ico]

theorem biosMap_second : i386MmapCheckReserved 0x101000 biosMap = .free :=
  (@i386MmapCheckReserved_free_iff [_] [] _ 0x101000 biosMap_disjoint rfl
    (Set.Ico_subset_Ico (by decide) (by decide)) (by decide) (by decide)).mpr (.room (by decide) (by decide))

/-- The first page of available memory is lost. -/
theorem biosMap_first : biosMap.Pairwise (fun a b => Disjoint a.bytes b.bytes) ∧
    ∃ e ∈ biosMap, e.type = multibootMemoryAvailable ∧ Set.Ico 0x100000 (0x100000 + pageSize) ⊆ e.bytes ∧
      i386MmapCheckReserved 0x100000 biosMap = .reserved :=
  ⟨biosMap_disjoint, ⟨0x100000, 0x7f00000, multibootMemoryAvailable⟩, by decide, rfl,
    Set.Ico_subset_Ico (by decide) (by decide), by decide⟩

end ShawnOS
