/-
When `kheap_free` refuses an address.

`kheapFree` says nothing of the heap when an ASSERT stops it; `kheapFreeRun`
does. The address's section being used, and any delimiter from there on,
is all the code asks for: an address inside a live allocation passes, and
frees the allocation's tail.
-/
import ShawnOS.HeapFacts
import ShawnOS.HeapGrowth

namespace ShawnOS

open Word32 Runs

/-! ## The heap as a call leaves it -/

/-- `kheap_free` in the block that contains `addr`: the number of sections
freed, or nothing when an ASSERT stops it, and the block by then. -/
def kheapFreeBlockRun (cur : KheapBlock) (addr : Nat) : Option Nat × KheapBlock :=
  let sectNum := (addr - cur.start) / cur.sectionSize
  match bitsetGetBit cur.usedSections sectNum with
  | none => (none, cur)
  | some bit =>
    if bit = 0 then (none, cur)
    else
      match kheapFindDelimiter cur.delimiters (cur.delimiters.length - sectNum) sectNum with
      | some (some lastSection) =>
        match bitsetClearBit cur.delimiters lastSection with
        | none => (none, cur)
        | some delimiters =>
          -- The delimiter is cleared before `ASSERT(last_section)`.
          if lastSection = 0 then (none, { cur with delimiters })
          else
            match bitsetClearBits cur.usedSections sectNum (lastSection + 1 - sectNum) with
            | none => (none, { cur with delimiters })
            | some usedSections =>
              let nFreed := u32 (sub32 lastSection sectNum + 1)
              (some nFreed, { cur with
                usedSections, delimiters, firstFreeSection := sectNum
                freeSections := u32 (cur.freeSections + nFreed) })
      | _ => (none, cur)

/-- The walk of `kheap_free`: `some none` when no block contains `addr`. -/
def kheapFreeBlocksRun (addr : Nat) : List KheapBlock → Option (Option Nat) × List KheapBlock
  | [] => (some none, [])
  | cur :: next =>
    if addr > cur.start ∧ addr < u32 (cur.start + cur.blockSize) then
      let (nFreed, cur) := kheapFreeBlockRun cur addr
      (nFreed.map some, cur :: next)
    else
      let (found, next) := kheapFreeBlocksRun addr next
      (found, cur :: next)

/-- `kheap_free`: what it returns, or nothing when an ASSERT stops it, and
the heap by then. -/
def kheapFreeRun (heap : Kheap) (addr : Nat) : Option Bool × Kheap :=
  match kheapFreeBlocksRun addr heap.blocks with
  | (none, blocks) => (none, { heap with blocks })
  | (some none, blocks) => (some false, { heap with blocks })
  | (some (some nFreed), blocks) =>
    (some true, { heap with blocks, totalFreeSections := u32 (heap.totalFreeSections + nFreed) })

theorem kheapFreeBlock_eq_run (cur : KheapBlock) (addr : Nat) :
    kheapFreeBlock cur addr =
      (kheapFreeBlockRun cur addr).1.map fun nFreed => ((kheapFreeBlockRun cur addr).2, nFreed) := by
  unfold kheapFreeBlock kheapFreeBlockRun
  dsimp only
  cases bitsetGetBit cur.usedSections ((addr - cur.start) / cur.sectionSize) with
  | none => rfl
  | some bit =>
    by_cases hbit : bit = 0
    · simp [hbit, kassert]
    · simp only [hbit, ite_false, kassert_of (show bit ≠ 0 from hbit), Option.bind_eq_bind, Option.bind_some]
      rcases kheapFindDelimiter cur.delimiters (cur.delimiters.length - (addr - cur.start) / cur.sectionSize)
        ((addr - cur.start) / cur.sectionSize) with _ | (_ | last)
      · rfl
      · simp [kassert]
      · simp only [Option.bind_some, Option.getD_some]
        by_cases hlast : last = 0
        · cases bitsetClearBit cur.delimiters last with
          | none => simp [hlast, kassert]
          | some delimiters => simp [hlast, kassert]
        · simp only [hlast, kassert_of (show last ≠ 0 from hlast), Option.bind_some]
          cases bitsetClearBit cur.delimiters last with
          | none => rfl
          | some delimiters =>
            cases bitsetClearBits cur.usedSections ((addr - cur.start) / cur.sectionSize)
              (last + 1 - (addr - cur.start) / cur.sectionSize) with
            | none => simp
            | some used => simp

theorem kheapFreeBlocks_eq_run (addr : Nat) : ∀ blocks : List KheapBlock,
    kheapFreeBlocks addr blocks = (kheapFreeBlocksRun addr blocks).1.map
      (fun found => found.map fun nFreed => ((kheapFreeBlocksRun addr blocks).2, nFreed)) ∧
    ((kheapFreeBlocksRun addr blocks).1 = some none → (kheapFreeBlocksRun addr blocks).2 = blocks)
  | [] => ⟨rfl, fun _ => rfl⟩
  | cur :: next => by
    obtain ⟨ih, ihsame⟩ := kheapFreeBlocks_eq_run addr next
    simp only [kheapFreeBlocks, kheapFreeBlocksRun]
    by_cases hin : addr > cur.start ∧ addr < u32 (cur.start + cur.blockSize)
    · rw [if_pos hin, if_pos hin, kheapFreeBlock_eq_run]
      cases (kheapFreeBlockRun cur addr).1 with
      | none => simp
      | some nFreed => simp
    · rw [if_neg hin, if_neg hin, ih]
      rcases hrun : (kheapFreeBlocksRun addr next).1 with _ | (_ | nFreed)
      · simp
      · simp [ihsame hrun]
      · simp

/-- The two say the same of every call that returns. -/
theorem kheapFree_eq_run (heap : Kheap) (addr : Nat) :
    kheapFree heap addr = (kheapFreeRun heap addr).1.map fun r => (r, (kheapFreeRun heap addr).2) := by
  obtain ⟨h, hsame⟩ := kheapFreeBlocks_eq_run addr heap.blocks
  rw [kheapFree, kheapFreeRun, h]
  rcases hrun : kheapFreeBlocksRun addr heap.blocks with ⟨_ | (_ | nFreed), blocks⟩
  · rfl
  · rw [hrun] at hsame
    have hb : blocks = heap.blocks := hsame rfl
    rw [hb]
    rfl
  · rfl

variable {σ : Type} {kp : KpagingInterface σ} {s s' : HeapState σ}

/-! ## One block -/

theorem kheapFindDelimiter_cases {d : Bitset} :
    ∀ {rem i : Nat}, i + rem = d.length →
      (kheapFindDelimiter d rem i = some none ∧ ∀ j, i ≤ j → j < d.length → d.bit j = false) ∨
      ∃ last, kheapFindDelimiter d rem i = some (some last) ∧ i ≤ last ∧ last < d.length ∧ d.bit last = true := by
  intro rem
  induction rem with
  | zero => intro i h; exact .inl ⟨rfl, fun j h1 h2 => by omega⟩
  | succ rem ih =>
    intro i h
    have hi : i < d.length := by omega
    have hz := (bitsetGetBit_zero (bitsetGetBit_eq hi)).2
    simp only [kheapFindDelimiter, bitsetGetBit_eq hi, bind, Option.bind_some, hz]
    cases hbit : d.bit i with
    | true => exact .inr ⟨i, rfl, Nat.le_refl i, hi, hbit⟩
    | false =>
      rw [if_pos rfl]
      rcases ih (show i + 1 + rem = d.length by omega) with ⟨he, hno⟩ | ⟨last, he, h1, h2, h3⟩
      · refine .inl ⟨he, fun j h1 h2 => ?_⟩
        rcases Nat.eq_or_lt_of_le h1 with rfl | h1
        · exact hbit
        · exact hno j h1 h2
      · exact .inr ⟨last, he, by omega, h2, h3⟩

/-- The address's section is free, or no delimiter follows it. -/
def KheapBlock.rejects (b : KheapBlock) (addr : Nat) : Prop :=
  b.usedSections.bit ((addr - b.start) / b.sectionSize) = false ∨
    ∀ j, (addr - b.start) / b.sectionSize ≤ j → j < b.delimiters.length → b.delimiters.bit j = false

/-- **One block**: it rejects the address and is left alone; or sections are
freed, or the delimiter of section 0 is cleared before the ASSERT. -/
theorem kheapFreeBlockRun_cases {b : KheapBlock} {p addr : Nat} (h : BlockShape b p) (h1 : b.start ≤ addr)
    (h2 : addr < b.start + b.blockSize) :
    (b.rejects addr ∧ kheapFreeBlockRun b addr = (none, b)) ∨
    (¬ b.rejects addr ∧ ((∃ n, (kheapFreeBlockRun b addr).1 = some n) ∨
      (b.delimiters.bit 0 = true ∧ (kheapFreeBlockRun b addr).2.delimiters.bit 0 = false))) := by
  have hsize := h.size
  unfold kheapFreeBlockRun KheapBlock.rejects
  rw [h.sectSize]
  obtain ⟨k, hk⟩ : ∃ k, k = (addr - b.start) / 16 := ⟨_, rfl⟩
  have hki : k < 256 * p := by omega
  rw [← hk]
  dsimp only
  have hbit := bitsetGetBit_eq (show k < b.usedSections.length by rw [h.usedLength]; exact hki)
  have hz := (bitsetGetBit_zero hbit).2
  rw [hbit]
  dsimp only
  cases hused : b.usedSections.bit k with
  | false => exact .inl ⟨.inl rfl, if_pos (hz.mpr hused)⟩
  | true =>
    rw [if_neg (by rw [hz, hused]; decide)]
    rcases @kheapFindDelimiter_cases b.delimiters (b.delimiters.length - k) k (by rw [h.delimLength]; omega) with
      ⟨he, hno⟩ | ⟨last, he, hle, hlt, hd⟩
    · exact .inl ⟨.inr hno, by rw [he]⟩
    · have hreject : ¬ (true = false ∨ ∀ j, k ≤ j → j < b.delimiters.length → b.delimiters.bit j = false) := by
        rintro (h0 | hno)
        · cases h0
        · rw [hno last hle hlt] at hd
          cases hd
      obtain ⟨delim, hdel⟩ := bitsetClearBit_ok hlt
      obtain ⟨used, hu⟩ := bitsetClearBits_ok (b := b.usedSections) (i := k) (n := last + 1 - k)
        (by rw [h.usedLength]; rw [h.delimLength] at hlt; omega)
      refine .inr ⟨hreject, ?_⟩
      rw [he]
      dsimp only
      rw [hdel]
      dsimp only
      by_cases h0 : last = 0
      · subst h0
        refine .inr ⟨hd, ?_⟩
        rw [if_pos rfl]
        exact (bitsetClearBit_wiped hdel).2.inside (Nat.le_refl 0) (by decide)
      · rw [if_neg h0, hu]
        exact .inl ⟨_, rfl⟩

/-! ## The block list -/

/-- What a refused call leaves of a block. -/
def KheapBlock.sections (b : KheapBlock) : Bitset × Bitset × Nat := (b.usedSections, b.delimiters, b.freeSections)

/-- `kheap_free` returns false or stops at an ASSERT, and no block's bits
and no counter have changed. -/
def RefusesFree (heap : Kheap) (addr : Nat) : Prop :=
  (kheapFreeRun heap addr).1 ≠ some true ∧
  (kheapFreeRun heap addr).2.totalFreeSections = heap.totalFreeSections ∧
  (kheapFreeRun heap addr).2.blocks.map (·.sections) = heap.blocks.map (·.sections)

/-- No block before the one that contains `addr` is looked into. -/
theorem kheapFreeBlocksRun_middle {l₁ l₂ : List KheapBlock} {b : KheapBlock} {addr : Nat} (h1 : b.start < addr)
    (h2 : addr < u32 (b.start + b.blockSize))
    (ho : ∀ c ∈ l₁, ¬ (addr > c.start ∧ addr < u32 (c.start + c.blockSize))) :
    kheapFreeBlocksRun addr (l₁ ++ b :: l₂) =
      ((kheapFreeBlockRun b addr).1.map some, l₁ ++ (kheapFreeBlockRun b addr).2 :: l₂) := by
  induction l₁ with
  | nil =>
    simp only [List.nil_append, kheapFreeBlocksRun]
    rw [if_pos ⟨h1, h2⟩]
  | cons c l₁ ih =>
    simp only [List.cons_append, kheapFreeBlocksRun]
    rw [if_neg (ho c List.mem_cons_self), ih fun d hd => ho d (List.mem_cons_of_mem _ hd)]

theorem kheapFreeBlocksRun_outside {addr : Nat} : ∀ {blocks : List KheapBlock},
    (∀ c ∈ blocks, ¬ (addr > c.start ∧ addr < u32 (c.start + c.blockSize))) →
      kheapFreeBlocksRun addr blocks = (some none, blocks)
  | [], _ => rfl
  | c :: next, h => by
    rw [kheapFreeBlocksRun, if_neg (h c List.mem_cons_self),
      kheapFreeBlocksRun_outside fun d hd => h d (List.mem_cons_of_mem _ hd)]

theorem kheapFreeRun_blocks (heap : Kheap) (addr : Nat) :
    (kheapFreeRun heap addr).2.blocks = (kheapFreeBlocksRun addr heap.blocks).2 := by
  rw [kheapFreeRun]
  split <;> simp_all

theorem kheapFreeRun_true {heap : Kheap} {addr n : Nat} (h : (kheapFreeBlocksRun addr heap.blocks).1 = some (some n)) :
    (kheapFreeRun heap addr).1 = some true := by
  rw [kheapFreeRun]
  split <;> simp_all

theorem kheapFreeRun_same {heap : Kheap} {addr : Nat} {r : Option (Option Nat)}
    (h : kheapFreeBlocksRun addr heap.blocks = (r, heap.blocks)) (hr : ∀ n, r ≠ some (some n)) :
    RefusesFree heap addr := by
  unfold RefusesFree kheapFreeRun
  rw [h]
  rcases r with _ | (_ | n)
  · simp
  · simp
  · exact absurd rfl (hr n)

theorem HeapOk.refusesFree_iff (h : HeapOk s) (addr : Nat) :
    RefusesFree s.heap addr ↔
      ∀ b ∈ s.heap.blocks, b.start < addr → addr < b.start + b.blockSize → b.rejects addr := by
  by_cases hin : ∃ b ∈ s.heap.blocks, b.start < addr ∧ addr < b.start + b.blockSize
  · obtain ⟨b, hb, h1, h2⟩ := hin
    have hshape := h.shape b hb
    obtain ⟨l₁, l₂, hl⟩ := List.append_of_mem hb
    have hap := h.asa.apart
    rw [hl, List.map_append, List.map_cons, List.pairwise_append] at hap
    have hout : ∀ c ∈ l₁, ¬ (addr > c.start ∧ addr < u32 (c.start + c.blockSize)) := by
      rintro c hc ⟨h3, h4⟩
      have hcshape := h.shape c (by rw [hl]; exact List.mem_append_left _ hc)
      have hcb := hap.2.2 _ (List.mem_map_of_mem hc) _ List.mem_cons_self
      have := hshape.size; have := hcshape.size; have := hshape.aligned; have := hcshape.aligned
      rw [hcshape.end_eq] at h4
      simp only [PagesApart, blockPages] at hcb
      omega
    have hrun := @kheapFreeBlocksRun_middle _ l₂ _ _ h1 (by rw [hshape.end_eq]; exact h2) hout
    rw [← hl] at hrun
    have hone : (∀ c ∈ s.heap.blocks, c.start < addr → addr < c.start + c.blockSize → c.rejects addr) ↔
        b.rejects addr := by
      refine ⟨fun hall => hall b hb h1 h2, fun hrej c hc h3 h4 => ?_⟩
      cases h.block_of_byte hb hc (Nat.le_of_lt h1) h2 (Nat.le_of_lt h3) h4
      exact hrej
    rw [hone]
    rcases kheapFreeBlockRun_cases hshape (Nat.le_of_lt h1) h2 with ⟨hrej, he⟩ | ⟨hrej, ⟨n, hn⟩ | ⟨hd, hd'⟩⟩
    · rw [he, ← hl] at hrun
      exact iff_of_true (kheapFreeRun_same hrun (by simp)) hrej
    · refine iff_of_false (fun hr => hr.1 (kheapFreeRun_true (n := n) ?_)) hrej
      rw [hrun, hn]
      rfl
    · refine iff_of_false (fun hr => ?_) hrej
      have hsame := hr.2.2
      rw [kheapFreeRun_blocks, hrun, hl, List.map_append, List.map_append] at hsame
      have hcons := List.append_cancel_left hsame
      rw [List.map_cons, List.map_cons, List.cons.injEq] at hcons
      have hdelim : (kheapFreeBlockRun b addr).2.delimiters = b.delimiters :=
        congrArg (fun t => t.2.1) hcons.1
      rw [hdelim, hd] at hd'
      cases hd'
  · have hout : ∀ c ∈ s.heap.blocks, ¬ (addr > c.start ∧ addr < u32 (c.start + c.blockSize)) := by
      rintro c hc ⟨h1, h2⟩
      rw [(h.shape c hc).end_eq] at h2
      exact hin ⟨c, hc, h1, h2⟩
    refine iff_of_true ?_ fun b hb h1 h2 => absurd ⟨b, hb, h1, h2⟩ hin
    exact kheapFreeRun_same (kheapFreeBlocksRun_outside hout) (by simp)

/-- **When `kheap_free` refuses an address.** After any calls, whatever the
address, it returns false or stops with the heap unchanged exactly when the
block around the address rejects it. -/
theorem heap_free_refuses_iff (kp : KpagingInterface σ) (s : HeapState σ) (hreach : HeapReachable kp s) (addr : Nat) :
    RefusesFree s.heap addr ↔
      ∀ b ∈ s.heap.blocks, b.start < addr → addr < b.start + b.blockSize →
        b.usedSections.bit ((addr - b.start) / b.sectionSize) = false ∨
        ∀ j, (addr - b.start) / b.sectionSize ≤ j → j < b.delimiters.length → b.delimiters.bit j = false :=
  hreach.ok.refusesFree_iff addr

/-- One block, with a hundred bytes allocated in its sections from 1047 on. -/
structure HundredAllocated (s : HeapState Unit) (b : KheapBlock) : Prop where
  reachable : HeapReachable mapAll s
  blocks : s.heap.blocks = [b]
  size : b.blockSize = 4096 * 261
  sectSize : b.sectionSize = 16
  delimLength : b.delimiters.length = 256 * 261
  used : ∀ j, 1047 ≤ j → j < 256 * 261 → b.usedSections.bit j = decide (j < 1054)
  delim : b.delimiters.bit 1053 = true

theorem hundredAllocated : ∃ (a₀ : Asa) (s : HeapState Unit) (b : KheapBlock),
    asaInit placeAt12b000 (fun _ => 0) ⟨⟨0, 0, fun _ => 0⟩, 0⟩ 4096 () = some ((.success, a₀), ()) ∧
    HeapStep mapAll (⟨kheapKallocInstall, a₀, ()⟩, []) (s, [(b.start + 16 * 1047, 100)]) ∧ HundredAllocated s b := by
  obtain ⟨a₀, h0⟩ := asaInit_placeAt12b000
  obtain ⟨s₁, b, b₁, hadd, ht, h1⟩ := kheapMalloc_first (asaInit_upTo h0) () mapAll_maps
    (show 0 < paddedSize kheapKallocInstall 100 0 by decide) (by decide)
  rw [alignOut_zero] at h1
  have hn : divRoundUp (paddedSize kheapKallocInstall 100 0) 16 = 7 := by decide
  have hused := ht.commit.used; have hdelim := ht.commit.delim
  rw [hn] at hused hdelim
  refine ⟨a₀, _, b₁, h0, ht.commit.start ▸ .malloc (by decide) (by decide) h1,
    ⟨⟨_, _, _, _, a₀, (), (), (), h0, .single (.malloc (by decide) (by decide) h1)⟩, rfl,
      ht.commit.size.trans hadd.fresh.size, ht.commit.sectSize.trans hadd.fresh.sectSize,
      hdelim.length.trans hadd.fresh.delimLength, fun j hlo hlt => ?_, hdelim.inside (by decide) (by decide)⟩⟩
  by_cases hj : j < 1054
  · rw [hused.inside hlo (by omega), decide_eq_true hj]
  · rw [hused.outside (by omega), hadd.fresh.used j hlt, decide_eq_false hj]
    exact decide_eq_false (by unfold reservedSections; omega)

/-- The address just behind the live allocation is refused. -/
theorem heap_free_refuses_behind : ∃ (a₀ : Asa) (s : HeapState Unit) (out : Nat),
    asaInit placeAt12b000 (fun _ => 0) ⟨⟨0, 0, fun _ => 0⟩, 0⟩ 4096 () = some ((.success, a₀), ()) ∧
    Relation.ReflTransGen (HeapStep mapAll) (⟨kheapKallocInstall, a₀, ()⟩, []) (s, [(out, 100)]) ∧
    RefusesFree s.heap (out + 112) ∧ ∃ b ∈ s.heap.blocks, b.start < out + 112 ∧ out + 112 < b.start + b.blockSize := by
  obtain ⟨a₀, s, b, h0, hstep, h⟩ := hundredAllocated
  have hsize := h.size
  refine ⟨a₀, s, _, h0, .single hstep, (heap_free_refuses_iff mapAll s h.reachable _).mpr fun c hc _ _ => .inl ?_,
    b, by rw [h.blocks]; exact List.mem_cons_self, by omega, by omega⟩
  rw [h.blocks, List.mem_singleton] at hc
  subst hc
  rw [h.sectSize, show (c.start + 16 * 1047 + 112 - c.start) / 16 = 1054 by omega, h.used 1054 (by decide) (by decide)]
  rfl

/-- With a hundred bytes allocated, the address 16 bytes on is not live, and
freeing it succeeds. -/
theorem heap_free_inside_allocation : ∃ (a₀ : Asa) (s : HeapState Unit) (out : Nat),
    asaInit placeAt12b000 (fun _ => 0) ⟨⟨0, 0, fun _ => 0⟩, 0⟩ 4096 () = some ((.success, a₀), ()) ∧
    Relation.ReflTransGen (HeapStep mapAll) (⟨kheapKallocInstall, a₀, ()⟩, []) (s, [(out, 100)]) ∧
    ¬ RefusesFree s.heap (out + 16) := by
  obtain ⟨a₀, s, b, h0, hstep, h⟩ := hundredAllocated
  have hsize := h.size
  refine ⟨a₀, s, _, h0, .single hstep, fun hr => ?_⟩
  have hrej := (h.reachable.ok.refusesFree_iff _).mp hr b (by rw [h.blocks]; exact List.mem_cons_self) (by omega) (by omega)
  rw [KheapBlock.rejects, h.sectSize, show (b.start + 16 * 1047 + 16 - b.start) / 16 = 1048 by omega] at hrej
  rcases hrej with hrej | hrej
  · rw [h.used 1048 (by decide) (by decide)] at hrej
    cases hrej
  · have hlast := hrej 1053 (by decide) (by rw [h.delimLength]; decide)
    rw [h.delim] at hlast
    cases hlast

end ShawnOS
