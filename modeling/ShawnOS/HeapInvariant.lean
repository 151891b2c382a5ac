/-
The invariant of the default heap, kept by every `kheap_malloc` and by
`kheap_free` of a live address.

A live allocation owns a run of sections of one block (`Run`): all used,
apart from every other live run, and ending at a delimiter; there are no
other delimiters. The address lies in the run, not always at its start.
The blocks' pages are live ranges of the address space allocator, so the
blocks are disjoint (`AsaInv`).
-/
import ShawnOS.HeapBlock

namespace ShawnOS

open Word32 Runs

/-- The sections of an allocation: its block, by address, and where the
sections begin and how many they are. -/
structure Run where
  base : Nat
  first : Nat
  n : Nat

/-- Two runs apart. -/
def RunsApart (r t : Run) : Prop := r.base ≠ t.base ∨ r.first + r.n ≤ t.first ∨ t.first + t.n ≤ r.first

theorem RunsApart.symm {r t : Run} (h : RunsApart r t) : RunsApart t r := by
  rcases h with h | h | h
  · exact .inl (Ne.symm h)
  · exact .inr (.inr h)
  · exact .inr (.inl h)

/-- The pages of a block, as `asa_free` would be given them. -/
def blockPages (b : KheapBlock) : Nat × Nat := (b.start, b.blockSize / 4096)

/-- `addr` is an allocation of `b` with the sections `r`. -/
structure LiveIn (b : KheapBlock) (addr : Nat) (r : Run) : Prop where
  base : r.base = b.start
  pos : 0 < r.n
  low : reservedSections (b.blockSize / 4096) ≤ r.first
  high : r.first + r.n ≤ b.usedSections.length
  used : ∀ j, r.first ≤ j → j < r.first + r.n → b.usedSections.bit j = true
  addr_le : b.start + 16 * r.first ≤ addr
  addr_lt : addr < b.start + 16 * (r.first + r.n)

/-- The free sections of a list of blocks. -/
def freeSum (blocks : List KheapBlock) : Nat := (blocks.map (·.freeSections)).sum

/-- What any calls of the heap keep, whatever addresses are freed: the
blocks keep their layout and lie apart. -/
structure HeapOk {σ : Type} (s : HeapState σ) : Prop where
  sectSize : s.heap.defaultSectionSize = 16
  minSize : s.heap.minBlockSize = 0x100000
  asa : AsaInv s.asa (s.heap.blocks.map blockPages)
  shape : ∀ b ∈ s.heap.blocks, BlockShape b (b.blockSize / 4096)
  hint : ∀ b ∈ s.heap.blocks, b.firstFreeSection ≤ 256 * (b.blockSize / 4096)

/-- The invariant of the heap, for the live allocations (address and size)
and the runs they own. -/
structure HeapInv {σ : Type} (s : HeapState σ) (live : List (Nat × Nat)) (run : Nat → Run) : Prop where
  sectSize : s.heap.defaultSectionSize = 16
  minSize : s.heap.minBlockSize = 0x100000
  asa : AsaInv s.asa (s.heap.blocks.map blockPages)
  block : ∀ b ∈ s.heap.blocks, BlockInv b (b.blockSize / 4096)
  owned : ∀ x ∈ live, ∃ b ∈ s.heap.blocks, LiveIn b x.1 (run x.1)
  apart : live.Pairwise fun x y => RunsApart (run x.1) (run y.1)
  delim : ∀ b ∈ s.heap.blocks, ∀ j, j < b.delimiters.length → (b.delimiters.bit j = true ↔
    ∃ x ∈ live, (run x.1).base = b.start ∧ (run x.1).first + (run x.1).n = j + 1)
  total : s.heap.totalFreeSections = u32 (freeSum s.heap.blocks)

variable {σ : Type} {s : HeapState σ} {live : List (Nat × Nat)} {run : Nat → Run}

theorem HeapInv.ok (h : HeapInv s live run) : HeapOk s :=
  ⟨h.sectSize, h.minSize, h.asa, fun b hb => (h.block b hb).toBlockShape, fun b hb => (h.block b hb).hint⟩

/-- A byte lies in one block only. -/
theorem HeapOk.block_of_byte (h : HeapOk s) {b c : KheapBlock} {x : Nat} (hb : b ∈ s.heap.blocks)
    (hc : c ∈ s.heap.blocks) (h1 : b.start ≤ x) (h2 : x < b.start + b.blockSize) (h3 : c.start ≤ x)
    (h4 : x < c.start + c.blockSize) : c = b := by
  by_contra hne
  have hsymm : Std.Symm fun a b => PagesApart (blockPages a) (blockPages b) := ⟨fun _ _ h => PagesApart.symm h⟩
  have hap := (List.pairwise_map.mp h.asa.apart).forall hc hb hne
  have hb1 := (h.shape b hb).size; have hb2 := (h.shape b hb).aligned
  have hc1 := (h.shape c hc).size; have hc2 := (h.shape c hc).aligned
  simp only [PagesApart, blockPages] at hap
  omega

/-- Blocks with one address are one block. -/
theorem HeapOk.block_unique (h : HeapOk s) {b c : KheapBlock} (hb : b ∈ s.heap.blocks) (hc : c ∈ s.heap.blocks)
    (he : c.start = b.start) : c = b := by
  have hb1 := (h.shape b hb).size; have hb2 := (h.shape b hb).pages
  have hc1 := (h.shape c hc).size; have hc2 := (h.shape c hc).pages
  exact h.block_of_byte hb hc (Nat.le_refl b.start) (by omega) (by omega) (by omega)

/-! ## Blocks of a list -/

theorem mem_middle {α : Type} {l₁ l₂ : List α} {b c : α} :
    c ∈ l₁ ++ b :: l₂ ↔ c = b ∨ c ∈ l₁ ++ l₂ := by
  simp only [List.mem_append, List.mem_cons]
  constructor
  · rintro (h | h | h)
    · exact .inr (.inl h)
    · exact .inl h
    · exact .inr (.inr h)
  · rintro (h | h | h)
    · exact .inr (.inl h)
    · exact .inl h
    · exact .inr (.inr h)

theorem eq_singleton {α : Type} {l₁ l₂ : List α} {b c : α} (h : [b] = l₁ ++ c :: l₂) :
    l₁ = [] ∧ c = b ∧ l₂ = [] := by
  cases l₁ with
  | nil =>
    cases h
    exact ⟨rfl, rfl, rfl⟩
  | cons d l₁ =>
    have := congrArg List.length h
    simp only [List.length_cons, List.length_append, List.length_nil] at this
    omega

theorem freeSum_middle (l₁ l₂ : List KheapBlock) (b : KheapBlock) :
    freeSum (l₁ ++ b :: l₂) = freeSum (l₁ ++ l₂) + b.freeSections := by
  simp only [freeSum, List.map_append, List.map_cons, List.sum_append, List.sum_cons]
  omega

theorem BlockInv.pages_eq {b : KheapBlock} {p : Nat} (h : BlockInv b p) : b.blockSize / 4096 = p := by
  rw [h.size]; omega

/-- The other blocks of the list lie elsewhere. -/
theorem HeapInv.others {l₁ l₂ : List KheapBlock} {b c : KheapBlock} (h : HeapInv s live run)
    (hb : s.heap.blocks = l₁ ++ b :: l₂) (hc : c ∈ l₁ ++ l₂) : PagesApart (blockPages b) (blockPages c) := by
  have hp := h.asa.apart
  rw [hb] at hp
  have hperm : (l₁ ++ b :: l₂).Perm (b :: (l₁ ++ l₂)) := List.perm_middle
  have hp' := (hperm.map blockPages).pairwise_iff PagesApart.symm |>.mp hp
  rw [List.map_cons, List.pairwise_cons] at hp'
  exact hp'.1 _ (List.mem_map_of_mem hc)

theorem HeapInv.others_start {l₁ l₂ : List KheapBlock} {b c : KheapBlock} (h : HeapInv s live run)
    (hb : s.heap.blocks = l₁ ++ b :: l₂) (hc : c ∈ l₁ ++ l₂) : c.start ≠ b.start := by
  have hbm : b ∈ s.heap.blocks := by rw [hb]; exact mem_middle.mpr (.inl rfl)
  have hcm : c ∈ s.heap.blocks := by rw [hb]; exact mem_middle.mpr (.inr hc)
  have h1 := (h.block b hbm).pages; have h2 := (h.block c hcm).pages
  have := h.others hb hc
  simp only [PagesApart, blockPages] at this
  intro he
  omega

/-- A byte lies in one block only. -/
theorem HeapInv.others_byte {l₁ l₂ : List KheapBlock} {b c : KheapBlock} {x : Nat} (h : HeapInv s live run)
    (hb : s.heap.blocks = l₁ ++ b :: l₂) (hc : c ∈ l₁ ++ l₂) (h1 : b.start ≤ x)
    (h2 : x < b.start + b.blockSize) : x < c.start ∨ c.start + c.blockSize ≤ x := by
  have hbm : b ∈ s.heap.blocks := by rw [hb]; exact mem_middle.mpr (.inl rfl)
  have hcm : c ∈ s.heap.blocks := by rw [hb]; exact mem_middle.mpr (.inr hc)
  have hb1 := (h.block b hbm).size; have hb2 := (h.block b hbm).aligned
  have hc1 := (h.block c hcm).size; have hc2 := (h.block c hcm).aligned
  have := h.others hb hc
  simp only [PagesApart, blockPages] at this
  omega

theorem HeapInv.block_unique {b c : KheapBlock} (h : HeapInv s live run) (hb : b ∈ s.heap.blocks)
    (hc : c ∈ s.heap.blocks) (he : c.start = b.start) : c = b :=
  h.ok.block_unique hb hc he

theorem LiveIn.high_bytes {b : KheapBlock} {addr : Nat} {r : Run} (h : LiveIn b addr r)
    (hb : BlockInv b (b.blockSize / 4096)) : b.start + 16 * (r.first + r.n) ≤ b.start + b.blockSize := by
  have h1 := h.high
  rw [hb.usedLength] at h1
  have h2 := hb.size
  omega

/-- An allocation's address lies past its block's start, inside the block. -/
theorem LiveIn.inside {b : KheapBlock} {addr : Nat} {r : Run} (h : LiveIn b addr r)
    (hb : BlockInv b (b.blockSize / 4096)) : b.start < addr ∧ addr < b.start + b.blockSize := by
  have h1 := h.addr_le; have h2 := h.addr_lt; have h3 := h.high_bytes hb; have h4 := h.low
  unfold reservedSections at h4
  omega

/-- An allocation stays one when its block changes elsewhere. -/
theorem LiveIn.of_block {b b' : KheapBlock} {addr : Nat} {r : Run} (h : LiveIn b addr r)
    (hstart : b'.start = b.start) (hsize : b'.blockSize = b.blockSize)
    (hlen : b'.usedSections.length = b.usedSections.length)
    (hused : ∀ j, r.first ≤ j → j < r.first + r.n → b'.usedSections.bit j = true) : LiveIn b' addr r := by
  refine ⟨h.base.trans hstart.symm, h.pos, ?_, ?_, hused, ?_, ?_⟩
  · rw [hsize]; exact h.low
  · rw [hlen]; exact h.high
  · rw [hstart]; exact h.addr_le
  · rw [hstart]; exact h.addr_lt

/-! ## Allocating -/

/-- Clear sections belong to no live run. -/
theorem LiveIn.apart_of_clear {b : KheapBlock} {addr f n : Nat} {r : Run} (h : LiveIn b addr r)
    (hc : ClearRun b.usedSections.bit f n) (hn : 0 < n) : f + n ≤ r.first ∨ r.first + r.n ≤ f :=
  hc.apart h.used hn (Nat.lt_add_of_pos_right h.pos)

/-- A clear run is apart from every live one. -/
theorem HeapInv.clear_apart {b : KheapBlock} {f n : Nat} (h : HeapInv s live run) (hb : b ∈ s.heap.blocks)
    (hc : ClearRun b.usedSections.bit f n) (hn : 0 < n) {x : Nat × Nat} (hx : x ∈ live) :
    RunsApart ⟨b.start, f, n⟩ (run x.1) := by
  obtain ⟨c, hcm, hl⟩ := h.owned x hx
  by_cases he : c.start = b.start
  · have := h.block_unique hb hcm he
    subst this
    exact .inr (hl.apart_of_clear hc hn)
  · exact .inl (by rw [hl.base]; exact Ne.symm he)

/-- An address in a clear run is not live. -/
theorem HeapInv.clear_fresh {b : KheapBlock} {f n addr : Nat} (h : HeapInv s live run) (hb : b ∈ s.heap.blocks)
    (hc : ClearRun b.usedSections.bit f n) (hn : 0 < n) (hle : f + n ≤ b.usedSections.length)
    (h1 : b.start + 16 * f ≤ addr) (h2 : addr < b.start + 16 * (f + n)) {x : Nat × Nat} (hx : x ∈ live) :
    x.1 ≠ addr := by
  rintro rfl
  have hap := h.clear_apart hb hc hn hx
  obtain ⟨c, hcm, hl⟩ := h.owned x hx
  have hin := hl.inside (h.block c hcm)
  have hlo := hl.addr_le; have hhi := hl.addr_lt
  have hlen := (h.block b hb).usedLength; have hsize := (h.block b hb).size
  by_cases he : c.start = b.start
  · rcases hap with hap | hap | hap
    · exact hap (by rw [hl.base, he])
    · simp only at hap; omega
    · simp only at hap; omega
  · obtain ⟨l₁, l₂, hbl⟩ := List.append_of_mem hb
    have hcm' := hcm
    rw [hbl] at hcm'
    rcases mem_middle.mp hcm' with rfl | hc'
    · exact he rfl
    · have := h.others_byte hbl hc' (Nat.le_trans (Nat.le_add_right _ _) h1) (by omega)
      omega

/-- The heap after the `n` sections from `f` on were taken in `b`. -/
def HeapState.commit (s : HeapState σ) (blocks : List KheapBlock) (n : Nat) : HeapState σ :=
  { s with heap := { s.heap with blocks, totalFreeSections := sub32 s.heap.totalFreeSections n } }

/-- A block that keeps its address and size keeps its pages. -/
theorem blockPages_middle {l₁ l₂ : List KheapBlock} {b b' : KheapBlock} (hstart : b'.start = b.start)
    (hsize : b'.blockSize = b.blockSize) : (l₁ ++ b' :: l₂).map blockPages = (l₁ ++ b :: l₂).map blockPages := by
  simp only [List.map_append, List.map_cons, blockPages, hstart, hsize]

/-- The delimiters with one allocation more. -/
theorem HeapInv.delim_cons {run' : Nat → Run} {addr size j : Nat} {r : Run} {c : KheapBlock} (h : HeapInv s live run)
    (hself : run' addr = r) (hrun : ∀ x ∈ live, run' x.1 = run x.1) (hc : c ∈ s.heap.blocks) (hj : j < c.delimiters.length) :
    (∃ x ∈ (addr, size) :: live, (run' x.1).base = c.start ∧ (run' x.1).first + (run' x.1).n = j + 1) ↔
      (r.base = c.start ∧ r.first + r.n = j + 1) ∨ c.delimiters.bit j = true := by
  rw [h.delim c hc j hj]
  constructor
  · intro ⟨x, hx, hx'⟩
    rcases List.mem_cons.mp hx with rfl | hx
    · rw [hself] at hx'
      exact .inl hx'
    · rw [hrun x hx] at hx'
      exact .inr ⟨x, hx, hx'⟩
  · intro hx
    rcases hx with hx' | ⟨x, hx, hx'⟩
    · exact ⟨(addr, size), List.mem_cons_self, by rw [hself]; exact hx'⟩
    · exact ⟨x, List.mem_cons_of_mem _ hx, by rw [hrun x hx]; exact hx'⟩

/-- What was allocated before stays in its block. -/
theorem HeapInv.commit_owned {l₁ l₂ : List KheapBlock} {b b' : KheapBlock} {f n : Nat} {x : Nat × Nat}
    (h : HeapInv s live run) (hb : s.heap.blocks = l₁ ++ b :: l₂) (hc : Committed b b' f n) (hx : x ∈ live) :
    ∃ c ∈ l₁ ++ b' :: l₂, LiveIn c x.1 (run x.1) := by
  obtain ⟨c, hcm, hl⟩ := h.owned x hx
  rw [hb] at hcm
  rcases mem_middle.mp hcm with rfl | hcm
  · exact ⟨b', mem_middle.mpr (.inl rfl), hl.of_block hc.start hc.size hc.used.length
      fun j h3 h4 => hc.used.mono (hl.used j h3 h4)⟩
  · exact ⟨c, mem_middle.mpr (.inr hcm), hl⟩

/-- The block's delimiters end the new run too, those of the others do not. -/
theorem HeapInv.commit_delim {run' : Nat → Run} {l₁ l₂ : List KheapBlock} {b b' c : KheapBlock} {f n addr size j : Nat}
    (h : HeapInv s live run) (hb : s.heap.blocks = l₁ ++ b :: l₂) (hc : Committed b b' f n) (hn : 0 < n)
    (hself : run' addr = ⟨b.start, f, n⟩) (hrun : ∀ x ∈ live, run' x.1 = run x.1) (hcm : c ∈ l₁ ++ b' :: l₂)
    (hj : j < c.delimiters.length) :
    c.delimiters.bit j = true ↔ ∃ x ∈ (addr, size) :: live, (run' x.1).base = c.start ∧
      (run' x.1).first + (run' x.1).n = j + 1 := by
  rcases mem_middle.mp hcm with rfl | hcm
  · have hbm : b ∈ s.heap.blocks := by rw [hb]; exact mem_middle.mpr (.inl rfl)
    rw [hc.delim.length] at hj
    rw [hc.start, h.delim_cons hself hrun hbm hj, hc.delim.bit, Bool.or_eq_true, decide_eq_true_eq]
    constructor
    · intro hx
      rcases hx with hx | hx
      · exact .inr hx
      · exact .inl ⟨rfl, by dsimp only; omega⟩
    · intro hx
      rcases hx with ⟨-, hx⟩ | hx
      · exact .inr (by dsimp only at hx; omega)
      · exact .inl hx
  · have hne := h.others_start hb hcm
    rw [h.delim_cons hself hrun (by rw [hb]; exact mem_middle.mpr (.inr hcm)) hj]
    constructor
    · exact .inr
    · intro hx
      rcases hx with ⟨hx, -⟩ | hx
      · exact absurd hx.symm hne
      · exact hx

/-- The heap's counter falls with the block's. -/
theorem HeapInv.commit_total {l₁ l₂ : List KheapBlock} {b b' : KheapBlock} {f n : Nat} (h : HeapInv s live run)
    (hb : s.heap.blocks = l₁ ++ b :: l₂) (hc : Committed b b' f n) (hclear : ClearRun b.usedSections.bit f n)
    (hle : f + n ≤ b.usedSections.length) : sub32 s.heap.totalFreeSections n = u32 (freeSum (l₁ ++ b' :: l₂)) := by
  have hbi := h.block b (by rw [hb]; exact mem_middle.mpr (.inl rfl))
  have ht := h.total
  have hfree := hc.free_add hbi hclear (by rw [← hbi.usedLength]; exact hle)
  rw [hb, freeSum_middle] at ht
  rw [freeSum_middle, ht]
  have hbound : n ≤ 2 ^ 32 := by
    have := hbi.usedLength; have := hbi.pages_le
    omega
  unfold sub32 u32
  omega

/-- **Taking** a clear run of the block `b`. -/
theorem HeapInv.commit {l₁ l₂ : List KheapBlock} {b b' : KheapBlock} {f n addr size : Nat}
    (h : HeapInv s live run) (hb : s.heap.blocks = l₁ ++ b :: l₂) (hc : Committed b b' f n) (hn : 0 < n)
    (hclear : ClearRun b.usedSections.bit f n) (hlo : reservedSections (b.blockSize / 4096) ≤ f)
    (hle : f + n ≤ b.usedSections.length) (h1 : b.start + 16 * f ≤ addr) (h2 : addr < b.start + 16 * (f + n)) :
    HeapInv (s.commit (l₁ ++ b' :: l₂) n) ((addr, size) :: live)
      (Function.update run addr ⟨b.start, f, n⟩) := by
  have hbm : b ∈ s.heap.blocks := by rw [hb]; exact mem_middle.mpr (.inl rfl)
  have hbi := h.block b hbm
  have hpages : b'.blockSize / 4096 = b.blockSize / 4096 := by rw [hc.size]
  have hfresh : ∀ x ∈ live, x.1 ≠ addr := fun x hx => h.clear_fresh hbm hclear hn hle h1 h2 hx
  have hrun : ∀ x ∈ live, Function.update run addr ⟨b.start, f, n⟩ x.1 = run x.1 := fun x hx =>
    Function.update_of_ne (hfresh x hx) _ _
  have hself : Function.update run addr ⟨b.start, f, n⟩ addr = ⟨b.start, f, n⟩ := Function.update_self _ _ _
  refine ⟨h.sectSize, h.minSize, ?_, ?_, ?_, ?_, fun c hcm j hj => h.commit_delim hb hc hn hself hrun hcm hj,
    h.commit_total hb hc hclear hle⟩
  · show AsaInv s.asa ((l₁ ++ b' :: l₂).map blockPages)
    rw [blockPages_middle hc.start hc.size, ← hb]
    exact h.asa
  · intro c hcm
    rcases mem_middle.mp hcm with rfl | hcm
    · rw [hpages]
      exact hc.inv hbi hclear (by rw [← hbi.usedLength]; exact hle)
    · exact h.block c (by rw [hb]; exact mem_middle.mpr (.inr hcm))
  · intro x hx
    rcases List.mem_cons.mp hx with rfl | hx
    · refine ⟨b', mem_middle.mpr (.inl rfl), ?_⟩
      rw [hself]
      exact ⟨hc.start.symm, hn, by rw [hpages]; exact hlo, by rw [hc.used.length]; exact hle,
        fun j h3 h4 => hc.used.inside h3 h4, by rw [hc.start]; exact h1, by rw [hc.start]; exact h2⟩
    · rw [hrun x hx]
      exact h.commit_owned hb hc hx
  · refine List.pairwise_cons.mpr ⟨fun x hx => ?_, ?_⟩
    · rw [hself, hrun x hx]
      exact h.clear_apart hbm hclear hn hx
    · exact h.apart.imp_of_mem fun hx hy hap => by rw [hrun _ hx, hrun _ hy]; exact hap

/-! ## Freeing -/

theorem kheapFreeBlocks_middle {l₁ l₂ : List KheapBlock} {b b' : KheapBlock} {addr n : Nat}
    (hf : kheapFreeBlock b addr = some (b', n)) (h1 : b.start < addr)
    (h2 : addr < u32 (b.start + b.blockSize))
    (ho : ∀ c ∈ l₁, ¬ (addr > c.start ∧ addr < u32 (c.start + c.blockSize))) :
    kheapFreeBlocks addr (l₁ ++ b :: l₂) = some (some (l₁ ++ b' :: l₂, n)) := by
  induction l₁ with
  | nil =>
    simp only [List.nil_append, kheapFreeBlocks]
    rw [if_pos ⟨h1, h2⟩, hf]
    rfl
  | cons c l₁ ih =>
    simp only [List.cons_append, kheapFreeBlocks]
    rw [if_neg (ho c List.mem_cons_self), ih fun d hd => ho d (List.mem_cons_of_mem _ hd)]
    rfl

theorem BlockShape.end_eq {b : KheapBlock} {p : Nat} (h : BlockShape b p) :
    u32 (b.start + b.blockSize) = b.start + b.blockSize := by
  have h1 := h.fits; have h2 := h.size
  exact u32_of_lt (by omega)

/-- The section of a live address. -/
theorem LiveIn.section_bounds {b : KheapBlock} {addr : Nat} {r : Run} (h : LiveIn b addr r) :
    r.first ≤ (addr - b.start) / 16 ∧ (addr - b.start) / 16 < r.first + r.n := by
  have h1 := h.addr_le; have h2 := h.addr_lt
  omega

/-- Another live run ends elsewhere and has no section in common. -/
theorem HeapInv.other_run {x y : Nat × Nat} {b : KheapBlock} (h : HeapInv s live run) (hx : x ∈ live)
    (hy : y ∈ live.erase x) (hbx : (run x.1).base = b.start) (hby : (run y.1).base = b.start) :
    (run x.1).first + (run x.1).n ≤ (run y.1).first ∨ (run y.1).first + (run y.1).n ≤ (run x.1).first := by
  have hoff := (take_one (R := fun x y => RunsApart (run x.1) (run y.1)) RunsApart.symm h.apart hx).2 y hy
  rcases hoff with hoff | hoff
  · exact absurd (hbx.trans hby.symm) hoff
  · exact hoff

/-- The first delimiter from a live address on is the last section of its
own run. -/
theorem HeapInv.own_delim {x : Nat × Nat} {b : KheapBlock} (h : HeapInv s live run) (hx : x ∈ live)
    (hb : b ∈ s.heap.blocks) (hl : LiveIn b x.1 (run x.1)) :
    b.delimiters.bit ((run x.1).first + (run x.1).n - 1) = true ∧
    ∀ j, (run x.1).first ≤ j → j < (run x.1).first + (run x.1).n - 1 → b.delimiters.bit j = false := by
  have hpos := hl.pos; have hhigh := hl.high
  have hlen : b.delimiters.length = b.usedSections.length := by
    rw [(h.block b hb).delimLength, (h.block b hb).usedLength]
  refine ⟨(h.delim b hb _ (by omega)).mpr ⟨x, hx, hl.base, by omega⟩, fun j h1 h2 => ?_⟩
  by_contra hno
  obtain ⟨y, hy, hy1, hy2⟩ := (h.delim b hb j (by omega)).mp (by simpa using hno)
  obtain ⟨c, -, hlc⟩ := h.owned y hy
  have hyp := hlc.pos
  by_cases hye : y = x
  · subst hye; omega
  · have := h.other_run hx ((List.mem_erase_of_ne hye).mpr hy) hl.base hy1
    omega

/-- The delimiters left when one allocation is given up. -/
theorem HeapInv.delim_erase {x : Nat × Nat} {b d : KheapBlock} {j : Nat} (h : HeapInv s live run)
    (hx : x ∈ live) (hb : b ∈ s.heap.blocks) (hl : LiveIn b x.1 (run x.1)) (hd : d ∈ s.heap.blocks)
    (hj : j < d.delimiters.length) :
    (∃ y ∈ live.erase x, (run y.1).base = d.start ∧ (run y.1).first + (run y.1).n = j + 1) ↔
      d.delimiters.bit j = true ∧ ¬ (d = b ∧ j + 1 = (run x.1).first + (run x.1).n) := by
  rw [h.delim d hd j hj]
  constructor
  · rintro ⟨y, hy, hy1, hy2⟩
    refine ⟨⟨y, List.mem_of_mem_erase hy, hy1, hy2⟩, ?_⟩
    rintro ⟨rfl, hj'⟩
    obtain ⟨c, -, hlc⟩ := h.owned y (List.mem_of_mem_erase hy)
    have hyp := hlc.pos; have hxp := hl.pos
    have := h.other_run hx hy hl.base hy1
    omega
  · rintro ⟨⟨y, hy, hy1, hy2⟩, hno⟩
    refine ⟨y, (List.mem_erase_of_ne ?_).mpr hy, hy1, hy2⟩
    rintro rfl
    exact hno ⟨h.block_unique hb hd (hy1.symm.trans hl.base), hy2.symm⟩

/-- The heap with the freed block in place. -/
def HeapState.release (s : HeapState σ) (blocks : List KheapBlock) (n : Nat) : HeapState σ :=
  { s with heap := { s.heap with blocks, totalFreeSections := u32 (s.heap.totalFreeSections + n) } }

theorem HeapInv.release {l₁ l₂ : List KheapBlock} {b b' : KheapBlock} {x : Nat × Nat} {k n : Nat}
    (h : HeapInv s live run) (hx : x ∈ live) (hb : s.heap.blocks = l₁ ++ b :: l₂)
    (hl : LiveIn b x.1 (run x.1)) (hlo : (run x.1).first ≤ k) (hhi : k < (run x.1).first + (run x.1).n)
    (hn : k + n = (run x.1).first + (run x.1).n) (hf : Freed b b' k n) :
    HeapInv (s.release (l₁ ++ b' :: l₂) n) (live.erase x) run := by
  have hbm : b ∈ s.heap.blocks := by rw [hb]; exact mem_middle.mpr (.inl rfl)
  have hbi := h.block b hbm
  have hpages : b'.blockSize / 4096 = b.blockSize / 4096 := by rw [hf.size]
  have hlow := hl.low; have hhigh := hl.high; have hlen := hbi.usedLength
  refine ⟨h.sectSize, h.minSize, ?_, ?_, ?_, ?_, ?_, ?_⟩
  · show AsaInv s.asa ((l₁ ++ b' :: l₂).map blockPages)
    rw [blockPages_middle hf.start hf.size, ← hb]
    exact h.asa
  · intro c hcm
    rcases mem_middle.mp hcm with rfl | hcm
    · rw [hpages]
      exact hf.inv hbi (fun j h1 h2 => hl.used j (by omega) (by omega)) (by omega) (by omega)
    · exact h.block c (by rw [hb]; exact mem_middle.mpr (.inr hcm))
  · intro y hy
    obtain ⟨c, hcm, hlc⟩ := h.owned y (List.mem_of_mem_erase hy)
    rw [hb] at hcm
    rcases mem_middle.mp hcm with rfl | hcm
    · -- Another run of the same block lies outside what was freed.
      refine ⟨b', mem_middle.mpr (.inl rfl), hlc.of_block hf.start hf.size hf.used.length fun j h3 h4 => ?_⟩
      have := h.other_run hx hy hl.base hlc.base
      rw [hf.used.outside (by omega)]
      exact hlc.used j h3 h4
    · exact ⟨c, mem_middle.mpr (.inr hcm), hlc⟩
  · exact (take_one (R := fun x y => RunsApart (run x.1) (run y.1)) RunsApart.symm h.apart hx).1
  · intro c hcm j hj
    rcases mem_middle.mp hcm with rfl | hcm
    · rw [hf.delim.length] at hj
      rw [hf.start, h.delim_erase hx hbm hl hbm hj, hf.delim.bit, Bool.and_eq_true, Bool.not_eq_true',
        decide_eq_false_iff_not]
      refine and_congr_right fun _ => not_congr ⟨fun h3 => ⟨rfl, by omega⟩, fun h3 => by omega⟩
    · have hcm' : c ∈ s.heap.blocks := by rw [hb]; exact mem_middle.mpr (.inr hcm)
      rw [h.delim_erase hx hbm hl hcm' hj]
      exact ⟨fun h1 => ⟨h1, fun h2 => h.others_start hb hcm (by rw [h2.1])⟩, fun h1 => h1.1⟩
  · show u32 (s.heap.totalFreeSections + n) = u32 (freeSum (l₁ ++ b' :: l₂))
    have ht := h.total
    have hcount := hf.free
    rw [hb, freeSum_middle] at ht
    rw [freeSum_middle, ht]
    unfold u32
    omega

/-- **Freeing a live address** finds its block and its run's end; the
sections from the address on are freed. -/
theorem HeapInv.free {x : Nat × Nat} (h : HeapInv s live run) (hx : x ∈ live) :
    ∃ l₁ b l₂ b' k n, s.heap.blocks = l₁ ++ b :: l₂ ∧ LiveIn b x.1 (run x.1) ∧
      k = (x.1 - b.start) / 16 ∧ k + n = (run x.1).first + (run x.1).n ∧ Freed b b' k n ∧
      kheapFree s.heap x.1 = some (true, (s.release (l₁ ++ b' :: l₂) n).heap) ∧
      HeapInv (s.release (l₁ ++ b' :: l₂) n) (live.erase x) run := by
  obtain ⟨b, hbm, hl⟩ := h.owned x hx
  obtain ⟨l₁, l₂, hb⟩ := List.append_of_mem hbm
  have hbi := h.block b hbm
  obtain ⟨hdelim, hnone⟩ := h.own_delim hx hbm hl
  obtain ⟨hk1, hk2⟩ := hl.section_bounds
  have hlow := hl.low; have hhigh := hl.high; have hlen := hbi.usedLength
  unfold reservedSections at hlow
  obtain ⟨b', hfree, hf⟩ := kheapFreeBlock_spec x.1 hbi (by omega) (by omega) (by omega)
    (fun j h1 h2 => hl.used j (by omega) (by omega)) hdelim (fun j h1 h2 => hnone j (by omega) h2)
  generalize hne : (run x.1).first + (run x.1).n - 1 + 1 - (x.1 - b.start) / 16 = n at hfree hf
  have hin := hl.inside hbi
  have hwalk : kheapFreeBlocks x.1 (l₁ ++ b :: l₂) = some (some (l₁ ++ b' :: l₂, n)) := by
    refine kheapFreeBlocks_middle hfree hin.1 (by rw [hbi.end_eq]; exact hin.2) fun c hc => ?_
    have hcm : c ∈ l₁ ++ l₂ := List.mem_append_left _ hc
    have hci := h.block c (by rw [hb]; exact mem_middle.mpr (.inr hcm))
    have := h.others_byte hb hcm (Nat.le_of_lt hin.1) hin.2
    rw [hci.end_eq]
    omega
  have hn : (x.1 - b.start) / 16 + n = (run x.1).first + (run x.1).n := by omega
  refine ⟨l₁, b, l₂, b', _, n, hb, hl, rfl, hn, hf, ?_, h.release hx hb hl hk1 hk2 hn hf⟩
  unfold kheapFree
  rw [hb, hwalk]
  rfl

/-- Freeing in a heap of one block. -/
theorem HeapInv.free_one {x : Nat × Nat} {b : KheapBlock} (h : HeapInv s live run) (hb : s.heap.blocks = [b])
    (hx : x ∈ live) :
    ∃ b' n, (x.1 - b.start) / 16 + n = (run x.1).first + (run x.1).n ∧ Freed b b' ((x.1 - b.start) / 16) n ∧
      kheapFree s.heap x.1 = some (true, (s.release [b'] n).heap) ∧
      HeapInv (s.release [b'] n) (live.erase x) run := by
  obtain ⟨l₁, c, l₂, b', k, n, hl, -, hk, hn, hf, he, hinv⟩ := h.free hx
  obtain ⟨rfl, rfl, rfl⟩ := eq_singleton (hb.symm.trans hl)
  subst hk
  exact ⟨b', n, hn, hf, he, hinv⟩

end ShawnOS
