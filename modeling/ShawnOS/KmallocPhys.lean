/-
The physical addresses that `kmalloc_p` and `kmalloc_ap` report.

Two providers stand behind them: the placement allocator, and the heap from
`kheap_kalloc_install` on. The first reports the address it returns, and
memory is identity mapped there. The second asks `kpage_get_phys`, which
answers with the frame of the page and drops the byte's offset in it, so its
answer is right for the addresses on a page boundary only.
-/
import ShawnOS.HeapRollback
import ShawnOS.HeapServed

namespace ShawnOS

open Word32 Runs

variable {s s' : HeapState PagingState} {q q' : PagingState} {L : Layout} {m : MemInfo}

/-- `__kheap_kalloc_malloc_real`, where `phys` is whether its caller passes
that pointer. -/
def kheapKallocMallocReal (phys : Bool) (size flags : Nat) (s : HeapState PagingState) :
    Option ((Nat × Option Nat) × HeapState PagingState) :=
  match kheapMalloc i386Paging s size (if flags &&& kallocPageAlign ≠ 0 then pageSize else 0) with
  | .error _ => none
  | .ok (ret, res, s) => do
    -- `PANIC("kheap OOM!")`.
    kassert (¬ ret.failed)
    let res := res.getD 0
    if phys then
      let (found, paging) ← i386KpageGetPhys res s.paging
      pure ((res, some found), { s with paging })
    else pure ((res, none), s)

/-- Which provider `kalloc_data` holds. -/
inductive Provider where
  | early
  | heap
deriving DecidableEq

/-- The provider, as a caller that passes `phys` sees it. -/
def Provider.kalloc : Provider → KallocInterface (HeapState PagingState)
  | .early =>
    { kallocMallocReal := fun size flags s =>
        let (r, meminfo) := i386MemKmallocReal size flags s.paging.meminfo
        some (r, { s with paging := { s.paging with meminfo } }) }
  | .heap => { kallocMallocReal := kheapKallocMallocReal true }

/-- The calls that report a physical address. -/
inductive PhysCall where
  | p (size flags : Nat)
  | ap (size flags : Nat)
deriving DecidableEq

def PhysCall.size : PhysCall → Nat
  | p size _ => size
  | ap size _ => size

/-- The flags the provider is given. -/
def PhysCall.flags : PhysCall → Nat
  | p _ flags => flags
  | ap _ flags => flags ||| kallocPageAlign

def PhysCall.exec (c : PhysCall) (ki : KallocInterface (HeapState PagingState)) (s : HeapState PagingState) :
    Option ((Nat × Option Nat) × HeapState PagingState) :=
  match c with
  | p size flags => kmallocP ki size flags s
  | ap size flags => kmallocAp ki size flags s

theorem PhysCall.exec_eq (c : PhysCall) (ki : KallocInterface (HeapState PagingState)) :
    c.exec ki s = ki.kallocMallocReal c.size c.flags s := by
  cases c <;> rfl

/-- One call after `kernel_early`. Those of the paging code keep off the
pages it works through, the kernel's own and the heap's, and identity map to
what `FreeFrame` allows; no address space of a block, or below
`KVIRT_RESERVED`, is freed. -/
inductive KmemCall : Provider × HeapState PagingState → Provider × HeapState PagingState → Prop
  | early {s s' : HeapState PagingState} {size flags : Nat} {r : Nat × Option Nat} :
      Provider.early.kalloc.kallocMallocReal size flags s = some (r, s') → KmemCall (.early, s) (.early, s')
  | install {s : HeapState PagingState} : KmemCall (.early, s) (.heap, { s with heap := kheapKallocInstall })
  | heap {s s' : HeapState PagingState} {phys : Bool} {size flags : Nat} {r : Nat × Option Nat} : size < 2 ^ 32 →
      kheapKallocMallocReal phys size flags s = some (r, s') → KmemCall (.heap, s) (.heap, s')
  | free {s : HeapState PagingState} {addr : Nat} {r : Bool} {heap : Kheap} :
      kheapFree s.heap addr = some (r, heap) → KmemCall (.heap, s) (.heap, { s with heap })
  | look {s : HeapState PagingState} {v a : Nat} {paging : PagingState} : v < 2 ^ 32 →
      i386KpageGetPhys v s.paging = some (a, paging) → KmemCall (.heap, s) (.heap, { s with paging })
  | page {s : HeapState PagingState} {c : PageCall} {r : KReturn × Nat} {paging : PagingState} :
      KeepsFrames s.paging c → (∀ p ∈ c.edits, p ∉ heapPages s.heap) → c.exec s.paging = some (r, paging) →
      KmemCall (.heap, s) (.heap, { s with paging })
  | asa {s : HeapState PagingState} {asa : Asa} : AsaOffCall (heapPages s.heap) s.asa asa →
      KmemCall (.heap, s) (.heap, { s with asa })

/-- The states an allocation can be made in: paging is not yet enabled, or
calls have followed `kernel_early`, whose window is below `KVIRT_RESERVED`. -/
inductive KmemReached : Provider × HeapState PagingState → Prop
  | unpaged {s : HeapState PagingState} : s.paging.cr3 = none → KmemReached (.early, s)
  | booted {mboot : MultibootInfo} {mem : Nat → Nat} {q : PagingState} {asa : Asa} {heap : Kheap}
      {t : Provider × HeapState PagingState} : kernelEarly mboot mem = .ok (q, asa) → q.windowPage < kvirtReserved →
      Relation.ReflTransGen KmemCall (.early, ⟨heap, asa, q⟩) t → KmemReached t

/-! ## The early provider -/

theorem i386MemKmallocReal_phys {size flags v : Nat} {ph : Option Nat} {m' : MemInfo}
    (he : i386MemKmallocReal size flags m = ((v, ph), m')) :
    m'.highestFreeAddress = m.highestFreeAddress ∧ (m.kernelHeapCurpos < 2 ^ 32 → m'.kernelHeapCurpos < 2 ^ 32) ∧
      ∀ phys, ph = some phys → phys = v ∧ (m.kernelHeapCurpos < 2 ^ 32 → v < 2 ^ 32) := by
  unfold i386MemKmallocReal at he
  split at he
  · cases he
    exact ⟨rfl, id, by simp⟩
  split at he
  · cases he
    exact ⟨rfl, id, by simp⟩
  · cases he
    refine ⟨rfl, fun _ => u32_lt _, fun phys hp => ?_⟩
    cases hp
    refine ⟨rfl, fun hcur => ?_⟩
    split
    · exact u32_lt _
    · split
      · exact u32_lt _
      · exact hcur

theorem PagingInv.place (h : PagingInv L q) (hm : m.highestFreeAddress = q.meminfo.highestFreeAddress) :
    PagingInv L { q with meminfo := m } := by
  have ht := h.tables
  exact ⟨⟨ht.cr3, ht.early, ht.window, ht.dir, ht.first, ht.pde_lt, ht.entry_lt, ht.dirEntry, ht.tableEntry, ht.notDir,
    ht.distinct⟩, h.length.trans (by rw [hm]), hm ▸ h.highest, h.exclusive⟩

/-- Before the heap is installed: what is mapped is identity mapped. -/
structure EarlyInv (L : Layout) (s : HeapState PagingState) : Prop where
  kernel : KernelInv L s
  identity : ∀ v a, v < 2 ^ 32 → s.paging.translate v = some a → a = v
  curpos : s.paging.meminfo.kernelHeapCurpos < 2 ^ 32

theorem Booted.identity (hb : Booted L q) {v a : Nat} (hv : v < 2 ^ 32) (ha : q.translate v = some a) : a = v := by
  rw [hb.tables.translate hv] at ha
  by_cases hlow : v / 4096 < 380
  · rw [hb.low _ hlow, if_pos (by omega), Option.some.injEq] at ha
    omega
  · rw [hb.high _ (by omega) (by omega), if_neg (by decide)] at ha
    cases ha

theorem EarlyInv.call (h : EarlyInv L s) {size flags : Nat} {r : Nat × Option Nat}
    (he : Provider.early.kalloc.kallocMallocReal size flags s = some (r, s')) : EarlyInv L s' := by
  obtain ⟨⟨r', m'⟩, hr⟩ : ∃ x, i386MemKmallocReal size flags s.paging.meminfo = x := ⟨_, rfl⟩
  obtain ⟨hhigh, hcur, -⟩ := i386MemKmallocReal_phys hr
  simp only [Provider.kalloc, hr] at he
  cases he
  exact ⟨⟨h.kernel.inv.place hhigh, h.kernel.asa, h.kernel.window⟩, h.identity, hcur h.curpos⟩

/-! ## The heap's provider -/

theorem KernelInv.look (h : KernelInv L s) {v a : Nat} (hv : v < 2 ^ 32) (he : i386KpageGetPhys v s.paging = some (a, q)) :
    KernelInv L { s with paging := q } := by
  obtain ⟨q', hget, hf, heff⟩ := h.inv.tables.getPhys hv
  cases hget.symm.trans he
  exact ⟨h.inv.same heff (by rw [hf]) fun f => by rw [hf], h.asa, h.window⟩

/-- **The heap's provider**: where it serves from, and what it looks up. -/
theorem HeapShaped.kmalloc (h : HeapShaped s) {phys : Bool} {size flags v : Nat} {ph : Option Nat} (hs : size < 2 ^ 32)
    (he : kheapKallocMallocReal phys size flags s = some ((v, ph), s')) :
    ∃ align s₁, align = (if flags &&& kallocPageAlign ≠ 0 then pageSize else 0) ∧
      kheapMalloc i386Paging s size align = .ok (.success, some v, s₁) ∧ HeapShaped s₁ ∧
      ServedFrom (paddedSize s.heap size align) align (manualAlign s.heap align) s.heap.blocks v ∧
      if phys then ∃ a q, ph = some a ∧ i386KpageGetPhys v s₁.paging = some (a, q) ∧ s' = { s₁ with paging := q }
      else ph = none ∧ s' = s₁ := by
  unfold kheapKallocMallocReal at he
  split at he
  · cases he
  · next ret res s₁ hm =>
    obtain ⟨_, hret, hend⟩ := Option.bind_eq_some_iff.mp he
    clear he
    have hok := kassert_eq_some.mp hret
    obtain ⟨h₁, hfail | ⟨w, rfl, hfrom⟩⟩ := h.malloc hs hm
    · exact absurd hfail hok
    cases failed_eq_false.mp (Bool.not_eq_true _ ▸ hok)
    refine ⟨_, s₁, rfl, ?_⟩
    cases phys with
    | false =>
      cases hend
      exact ⟨hm, h₁, hfrom, rfl, rfl⟩
    | true =>
      obtain ⟨⟨a, q⟩, hget, hend⟩ := Option.bind_eq_some_iff.mp hend
      cases hend
      exact ⟨hm, h₁, hfrom, a, q, rfl, hget, rfl⟩

theorem kheapKallocMallocReal_served {s₁ : HeapState PagingState} {size flags v a : Nat}
    (hm : kheapMalloc i386Paging s size (if flags &&& kallocPageAlign ≠ 0 then pageSize else 0) = .ok (.success, some v, s₁))
    (hlook : i386KpageGetPhys v s₁.paging = some (a, q)) :
    kheapKallocMallocReal true size flags s = some ((v, some a), { s₁ with paging := q }) := by
  have hok : kassert (¬ KReturn.success.failed) = some () := kassert_of (by decide)
  unfold kheapKallocMallocReal
  rw [hm]
  simp only [hok, hlook, Option.bind_eq_bind, Option.bind_some, Option.getD_some, if_true, Option.pure_def]

/-- What holds in every state of a run, for each provider. -/
def KmemInv (L : Layout) : Provider × HeapState PagingState → Prop
  | (.early, s) => EarlyInv L s
  | (.heap, s) => KernelInv L s ∧ HeapShaped s

/-- **A call keeps the invariant.** -/
theorem KmemInv.call {t t' : Provider × HeapState PagingState} (h : KmemInv L t) (hc : KmemCall t t') : KmemInv L t' := by
  cases hc with
  | early he => exact EarlyInv.call h he
  | install =>
    have hk := EarlyInv.kernel h
    exact ⟨hk.withHeap _, rfl, hk.asa.toAsaSized, ⟨by simp [kheapKallocInstall, kheapInit], by simp [kheapKallocInstall, kheapInit]⟩⟩
  | @heap s s' phys size flags r hs he =>
    obtain ⟨v, ph⟩ := r
    obtain ⟨hk, hshape⟩ := h
    obtain ⟨align, s₁, -, hm, h₁, hfrom, hend⟩ := hshape.kmalloc hs he
    have hk₁ := hk.malloc hm
    cases phys with
    | false =>
      obtain ⟨-, rfl⟩ := hend
      exact ⟨hk₁, h₁⟩
    | true =>
      obtain ⟨a, q, -, hget, rfl⟩ := hend
      exact ⟨hk₁.look (hfrom.lt hshape.blocks) hget, h₁.sectSize, h₁.asa, h₁.blocks⟩
  | free hf => exact ⟨h.1.withHeap _, h.2.free hf⟩
  | look hv he => exact ⟨h.1.look hv he, h.2.sectSize, h.2.asa, h.2.blocks⟩
  | page hok _ he => exact ⟨⟨h.1.inv.call hok he, h.1.asa, h.1.window⟩, h.2.sectSize, h.2.asa, h.2.blocks⟩
  | asa ha =>
    have hasa := h.1.asa.call ha.high
    exact ⟨⟨h.1.inv, hasa, h.1.window⟩, h.2.sectSize, hasa.toAsaSized, h.2.blocks⟩

theorem KmemInv.run {t t' : Provider × HeapState PagingState} (h : KmemInv L t) (hrun : Relation.ReflTransGen KmemCall t t') :
    KmemInv L t' := by
  induction hrun with
  | refl => exact h
  | tail _ hc ih => exact ih.call hc

theorem Booted.kmemInv (hb : Booted L q) {asa : Asa} (ha : AsaUpTo asa 380) (hw : q.windowPage < kvirtReserved)
    (hcur : q.meminfo.kernelHeapCurpos < 2 ^ 32) (heap : Kheap) : KmemInv L (.early, ⟨heap, asa, q⟩) :=
  ⟨hb.kernelInv ha hw heap, fun _ _ hv h => hb.identity hv h, hcur⟩

/-! ## What is reported -/

/-- What `kpage_get_phys` answers is the address mapped, less the offset in
the page. -/
theorem Tables.getPhys_iff (h : Tables L q) {v x a : Nat} (hv : v < 2 ^ 32) (he : i386KpageGetPhys v q = some (x, q'))
    (hmap : q'.translate v = some a) : x = a ↔ v % 4096 = 0 := by
  obtain ⟨q₁, hget, -, heff⟩ := h.getPhys hv
  cases hget.symm.trans he
  rw [heff.tables.translate hv] at hmap
  unfold frameAddr
  split at hmap
  · next hodd =>
    cases hmap
    rw [if_pos hodd]
    omega
  · cases hmap

/-- The early provider reports the address it returns. -/
theorem EarlyInv.phys (h : EarlyInv L s) {size flags v phys a : Nat}
    (he : Provider.early.kalloc.kallocMallocReal size flags s = some ((v, some phys), s'))
    (hmap : s'.paging.translate v = some a) : phys = a := by
  have h' := h.call he
  obtain ⟨⟨r, m'⟩, hr⟩ : ∃ x, i386MemKmallocReal size flags s.paging.meminfo = x := ⟨_, rfl⟩
  simp only [Provider.kalloc, hr] at he
  cases he
  obtain ⟨rfl, hv⟩ := (i386MemKmallocReal_phys hr).2.2 _ rfl
  exact (h'.identity _ _ (hv h.curpos) hmap).symm

/-- The heap's provider is right about the addresses on a page boundary. -/
theorem HeapShaped.phys_iff (h : HeapShaped s) (hk : KernelInv L s) {size flags v phys a : Nat} (hs : size < 2 ^ 32)
    (he : kheapKallocMallocReal true size flags s = some ((v, some phys), s')) (hmap : s'.paging.translate v = some a) :
    phys = a ↔ flags &&& kallocPageAlign ≠ 0 ∨ ServedOnPage s.heap.blocks size := by
  obtain ⟨align, s₁, hal, hm, -, hfrom, x, q, hx, hget, rfl⟩ := h.kmalloc hs he
  cases hx
  rw [(hk.malloc hm).inv.tables.getPhys_iff (hfrom.lt h.blocks) hget hmap]
  by_cases hflag : flags &&& kallocPageAlign = 0
  · rw [if_neg (not_not.mpr hflag)] at hal
    subst hal
    have hmanual : manualAlign s.heap 0 = false := by simp [manualAlign]
    have hpad : paddedSize s.heap size 0 = size := by simp [paddedSize, hmanual]
    rw [hmanual, hpad] at hfrom
    rw [hfrom.page_iff h.blocks hs]
    simp [hflag]
  · rw [if_pos hflag] at hal
    subst hal
    have hmanual : manualAlign s.heap pageSize = true := by simp [manualAlign, h.sectSize, pageSize]
    rw [hmanual] at hfrom
    exact iff_of_true hfrom.page (.inl hflag)

/-- **What `kmalloc_p` and `kmalloc_ap` report.** In every state a call can be
made in and for every size, the address stored at `phys` is the one the
returned pointer is mapped to exactly when the early provider serves the
call, when it asks for page alignment, or when the sections it is served from
happen to start a page. -/
theorem kmalloc_phys_iff (p : Provider) (s : HeapState PagingState) (hreach : KmemReached (p, s)) (c : PhysCall)
    (hsize : c.size < 2 ^ 32) (v phys : Nat) (s' : HeapState PagingState)
    (hcall : c.exec p.kalloc s = some ((v, some phys), s')) (a : Nat) (hmap : s'.paging.translate v = some a) :
    phys = a ↔ p = .early ∨ c.flags &&& kallocPageAlign ≠ 0 ∨ ServedOnPage s.heap.blocks c.size := by
  rw [c.exec_eq] at hcall
  cases hreach with
  | unpaged hcr3 =>
    refine iff_of_true ?_ (.inl rfl)
    obtain ⟨⟨r, m'⟩, hr⟩ : ∃ x, i386MemKmallocReal c.size c.flags s.paging.meminfo = x := ⟨_, rfl⟩
    simp only [Provider.kalloc, hr] at hcall
    cases hcall
    obtain ⟨rfl, -⟩ := (i386MemKmallocReal_phys hr).2.2 _ rfl
    simpa [PagingState.translate, hcr3] using hmap
  | booted hboot hw hrun =>
    obtain ⟨L, hb, ha, hcur⟩ := kernelEarly_placed hboot
    have hinv := (hb.kmemInv ha hw hcur _).run hrun
    cases p with
    | early => exact iff_of_true (EarlyInv.phys hinv hcall hmap) (.inl rfl)
    | heap =>
      rw [hinv.2.phys_iff hinv.1 hsize hcall hmap]
      simp

/-! ## A first request -/

/-- After boot on a machine whose frames from the 380th on are free, the next
`i` pages have been mapped, each to the frame of its own number. -/
structure MappedTo (L : Layout) (q₀ q : PagingState) (i : Nat) : Prop where
  tables : Tables L q
  meminfo : q.meminfo = q₀.meminfo
  length : q.frames.length = q₀.frames.length
  used : ∀ f < 380 + i, q.frames.bit f = true
  clear : ∀ f, 380 + i ≤ f → f < 1024 → q.frames.bit f = false
  entry : ∀ p, 380 ≤ p → p < 380 + i → q.entry p = 4096 * p + 3

variable {q₀ : PagingState} {i : Nat}

theorem MappedTo.step (h : MappedTo L q₀ q i) (hw : L.window < 380) (hi : i < 600)
    (hhigh : 2 ^ 22 ≤ q₀.meminfo.highestFreeAddress) (hlen : 1024 ≤ q₀.frames.length) :
    ∃ q', i386Paging.kpageAllocate (4096 * (380 + i)) kpagePresentRw q = some (.success, q') ∧ MappedTo L q₀ q' (i + 1) := by
  have hd := L.dir_lt; have ht := L.table_lt
  obtain ⟨b, hb⟩ := bitsetSetBit_ok (b := q.frames) (n := 380 + i) (by rw [h.length]; omega)
  obtain ⟨-, hfill⟩ := bitsetSetBit_filled hb
  have hnext : i386MemGetNextFreeFrame q.meminfo q.frames = 380 + i := by
    refine i386MemGetNextFreeFrame_eq ?_ (h.clear _ (Nat.le_refl _) (by omega)) h.used
    rw [h.meminfo]
    omega
  have hframe : i386MemAllocateFrame q.meminfo q.frames = some (380 + i, b) := by
    simp [i386MemAllocateFrame, hnext, hb]
  have hpage : 4096 * (380 + i) / pageSize / 1024 = 0 ∧ 4096 * (380 + i) / pageSize % 1024 = 380 + i := by
    unfold pageSize
    omega
  have hcall := h.tables.allocatePage_present (v := 4096 * (380 + i)) (by omega) (Nat.mul_mod_right 4096 _)
    (show 3 < 4096 by decide) (by rw [hpage.1]; exact h.tables.first_present) hframe (by omega) (by omega) 3
  rw [hpage.1, hpage.2] at hcall
  obtain ⟨htab, -, hentry⟩ := h.tables.withPage (t := 0) (i := 380 + i) (x := 4096 * (380 + i) + 3) b (by decide) (by omega)
    h.tables.first_present (by omega) (ownEntry_of_ne (by omega) (by omega) _)
  refine ⟨_, by simp [i386Paging, i386KpageAllocate, kpagePresentRw, hcall], htab, h.meminfo, hfill.length.trans h.length,
    fun f hf => ?_, fun f h1 h2 => ?_, fun p h1 h2 => ?_⟩
  · show b.bit f = true
    by_cases hlast : f = 380 + i
    · exact hfill.inside (by omega) (by omega)
    · rw [hfill.outside (by omega)]
      exact h.used f (by omega)
  · show b.bit f = false
    rw [hfill.outside (by omega)]
    exact h.clear f (by omega) h2
  · rw [hentry p (by omega)]
    by_cases hlast : p = 380 + i
    · rw [if_pos (by omega), hlast]
    · rw [if_neg (by omega), if_neg (by omega)]
      exact h.entry p h1 (by omega)

theorem MappedTo.pages (hw : L.window < 380) (hhigh : 2 ^ 22 ≤ q₀.meminfo.highestFreeAddress)
    (hlen : 1024 ≤ q₀.frames.length) : ∀ {rem i : Nat} {q : PagingState}, MappedTo L q₀ q i → i + rem ≤ 600 →
    ∃ q', kheapMapPages i386Paging 0x17c000 rem i q = some (none, q') ∧ MappedTo L q₀ q' (i + rem)
  | 0, _, q, h, _ => ⟨q, rfl, h⟩
  | rem + 1, i, q, h, hle => by
    obtain ⟨q₁, he, h₁⟩ := h.step hw (by omega) hhigh hlen
    have hrest : i + 1 + rem ≤ 600 := by omega
    obtain ⟨q₂, he₂, h₂⟩ := h₁.pages hw hhigh hlen hrest
    refine ⟨q₂, ?_, by rwa [show i + (rem + 1) = i + 1 + rem by omega]⟩
    rw [kheapMapPages, show (0x17c000 : Nat) = 4096 * 380 from rfl, page_addr (by omega), he]
    exact he₂

theorem Booted.mapFirst (hb : Booted L q) (hw : L.window < 380) (hhigh : q.meminfo.highestFreeAddress = 133038080)
    (hclear : ∀ f, 380 ≤ f → f < 32480 → q.frames.bit f = false) :
    ∃ q₁, kheapMapPages i386Paging 0x17c000 261 0 q = some (none, q₁) ∧ MappedTo L q q₁ 261 := by
  have hlen : q.frames.length = 32480 := by rw [hb.length, hhigh]
  have hstart : MappedTo L q q 0 :=
    ⟨hb.tables, rfl, rfl, hb.used, fun f h1 h2 => hclear f h1 (by omega), fun p h1 h2 => by omega⟩
  exact hstart.pages hw (by rw [hhigh]; decide) (by rw [hlen]; decide) (show 0 + 261 ≤ 600 by decide)

/-- The sections of the first request start at `0x180170`. -/
theorem kheapMalloc_firstAddr {asa : Asa} (ha : AsaUpTo asa 380)
    (hmap : kheapMapPages i386Paging 0x17c000 261 0 q = some (none, q')) {size align : Nat}
    (hpos : 0 < paddedSize kheapKallocInstall size align) (hs : paddedSize kheapKallocInstall size align ≤ 2 ^ 20) {v : Nat}
    (hv : v = alignOut 0x180170 align (manualAlign kheapKallocInstall align)) :
    ∃ s₁, s₁.paging = q' ∧ kheapMalloc i386Paging ⟨kheapKallocInstall, asa, q⟩ size align = .ok (.success, some v, s₁) := by
  obtain ⟨s₁, b, b', -, hq, hstart, -, hm⟩ := kheapMalloc_firstBlock ha hmap hpos hs
  have haddr : 0x17c000 + 16 * 1047 = 0x180170 := by decide
  rw [hstart, haddr, ← hv] at hm
  exact ⟨s₁.commit [b'] (divRoundUp (paddedSize kheapKallocInstall size align) 16), hq, hm⟩

theorem MappedTo.look (h : MappedTo L q₀ q i) (hw : L.window < 380) {v : Nat} (hlow : 380 ≤ v / 4096) (hhi : v / 4096 < 380 + i)
    (hi : i < 600) : ∃ q', i386KpageGetPhys v q = some (4096 * (v / 4096), q') ∧ q'.translate v = some v := by
  obtain ⟨q', hget, -, heff⟩ := h.tables.getPhys (show v < 2 ^ 32 by omega)
  have hentry : q'.entry (v / 4096) = 4096 * (v / 4096) + 3 := by
    rw [heff.entry _ (by omega) (by omega)]
    exact h.entry _ hlow hhi
  refine ⟨q', ?_, ?_⟩
  · rw [hentry, frameAddr, if_pos (by omega), show (4096 * (v / 4096) + 3) / 4096 = v / 4096 by omega] at hget
    exact hget
  · rw [heff.tables.translate (by omega), hentry, if_pos (by omega)]
    congr 1
    omega

/-- **The first request on the heap** returns what it is mapped to. -/
theorem Booted.kmalloc_first (hb : Booted L q) {asa : Asa} (ha : AsaUpTo asa 380) (hw : L.window < 380)
    (hhigh : q.meminfo.highestFreeAddress = 133038080) (hclear : ∀ f, 380 ≤ f → f < 32480 → q.frames.bit f = false)
    (size flags : Nat) {align : Nat} (hal : align = if flags &&& kallocPageAlign ≠ 0 then pageSize else 0)
    (hpos : 0 < paddedSize kheapKallocInstall size align) (hs : paddedSize kheapKallocInstall size align ≤ 2 ^ 20) {v : Nat}
    (hv : v = alignOut 0x180170 align (manualAlign kheapKallocInstall align)) (hlow : 380 ≤ v / 4096) (hhi : v / 4096 < 641) :
    ∃ s', kheapKallocMallocReal true size flags ⟨kheapKallocInstall, asa, q⟩ = some ((v, some (4096 * (v / 4096))), s') ∧
      s'.paging.translate v = some v := by
  obtain ⟨q₁, hmap, h₁⟩ := hb.mapFirst hw hhigh hclear
  obtain ⟨s₁, hq, hm⟩ := kheapMalloc_firstAddr ha hmap hpos hs hv
  obtain ⟨q₂, hlook, htrans⟩ := h₁.look hw hlow hhi (by decide)
  rw [← hq] at hlook
  rw [hal] at hm
  exact ⟨{ s₁ with paging := q₂ }, kheapKallocMallocReal_served hm hlook, htrans⟩

theorem Booted.kmemReached {mboot : MultibootInfo} {mem : Nat → Nat} {asa : Asa} (hboot : kernelEarly mboot mem = .ok (q, asa))
    (hw : q.windowPage < kvirtReserved) : KmemReached (.heap, ⟨kheapKallocInstall, asa, q⟩) :=
  .booted hboot hw (.single (.install (s := ⟨kheapKallocInstall, asa, q⟩)))

/-- A hundred bytes on a page boundary, the first request after boot. -/
theorem kmalloc_phys_page : ∃ s s', KmemReached (.heap, s) ∧
    (PhysCall.ap 100 2).exec Provider.heap.kalloc s = some ((0x181000, some 0x181000), s') ∧
    s'.paging.translate 0x181000 = some 0x181000 ∧ 0x181000 = 0x181000 := by
  obtain ⟨L, q, asa, hboot, hb, ha, hstart, hhigh, hclear⟩ :=
    @boot128_ok 0x110000 (by decide) (by decide) (by decide) (by decide) fun _ => 0
  have hw : q.windowPage < kvirtReserved := by
    rw [hb.window, hstart]
    decide
  obtain ⟨s', hcall, hmap⟩ := hb.kmalloc_first ha (hb.kernelInv ha hw kheapKallocInstall).window hhigh hclear 100 6 rfl
    (by decide) (by decide) (show 0x181000 = _ by decide) (by decide) (by decide)
  have hreach := Booted.kmemReached hboot hw
  exact ⟨_, s', hreach, hcall, hmap, (kmalloc_phys_iff .heap _ hreach (.ap 100 2) (by decide) _ _ s' hcall _ hmap).mpr
    (.inr (.inl (by decide)))⟩

/-- A hundred bytes through `kmalloc_p`, the first request after boot: it is
served at `0x180170`, and what is reported is `0x180000`. -/
theorem kmalloc_phys_drops_offset : ∃ s s', KmemReached (.heap, s) ∧
    (PhysCall.p 100 2).exec Provider.heap.kalloc s = some ((0x180170, some 0x180000), s') ∧
    s'.paging.translate 0x180170 = some 0x180170 ∧ 0x180000 ≠ 0x180170 := by
  obtain ⟨L, q, asa, hboot, hb, ha, hstart, hhigh, hclear⟩ :=
    @boot128_ok 0x110000 (by decide) (by decide) (by decide) (by decide) fun _ => 0
  have hw : q.windowPage < kvirtReserved := by
    rw [hb.window, hstart]
    decide
  obtain ⟨s', hcall, hmap⟩ := hb.kmalloc_first ha (hb.kernelInv ha hw kheapKallocInstall).window hhigh hclear 100 2 rfl
    (by decide) (by decide) (show 0x180170 = _ by decide) (by decide) (by decide)
  exact ⟨_, s', Booted.kmemReached hboot hw, hcall, hmap, by decide⟩

end ShawnOS
