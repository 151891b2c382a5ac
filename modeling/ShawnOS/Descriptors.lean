/-
The descriptor tables (`arch/i386/descriptors/gdt.c`, `idt.c`, `isr.c`,
`irq.c`).

The kernel writes gates and segment descriptors field by field into two
packed arrays, and the processor reads them back with the fields split as
the hardware has them. All 48 stubs get a gate of the kernel's code segment;
the limit loaded with the GDT covers three of the five descriptors, so the
user segments cannot be loaded. Each gate is also copied to `idt_debug`, which
nothing reads.
-/
import ShawnOS.InterruptStubs

namespace ShawnOS

open X86

/-! ## The tables in memory -/

/-- A field of 16 bits. -/
def store16 (m : Mem) (a : BitVec 32) (x : BitVec 16) : Mem := storeBytes m a [x.extractLsb' 0 8, x.extractLsb' 8 8]

/-- The address of the entry `num`, of eight bytes. -/
def entryAddr (table : BitVec 32) (num : Nat) : BitVec 32 := table + .ofNat 32 (8 * num)

/-- What `lgdt` and `lidt` load. -/
structure TableRegister where
  limit : BitVec 16
  base : BitVec 32

/-- The operand of `lgdt` and `lidt`. -/
def tableRegisterAt (m : Mem) (a : BitVec 32) : TableRegister := ⟨m (a + 1) ++ m a, load32 m (a + 2)⟩

/-- Where the kernel's descriptor variables lie, each apart from the others. -/
structure DescriptorVars where
  gdt : BitVec 32
  gp : BitVec 32
  idt : BitVec 32
  idtp : BitVec 32
  idtDebug : BitVec 32
  apart : [(gdt, 40), (gp, 6), (idt, 2048), (idtp, 6), (idtDebug, 4096)].Pairwise Apart

/-- Their bytes. -/
def DescriptorVars.extents (v : DescriptorVars) : List Extent :=
  [(v.gdt, 40), (v.gp, 6), (v.idt, 2048), (v.idtp, 6), (v.idtDebug, 4096)]

/-- `idt_debug[num]`, of sixteen bytes: `base` has eight of them, and three
before it are unused. -/
def idtDebugGate (debug : BitVec 32) (m : Mem) (num : Nat) (base : BitVec 32) (sel : BitVec 16) (flags : BitVec 8) : Mem :=
  let d := debug + .ofNat 32 (16 * num)
  let m := storeBytes m d [.ofNat 8 num]
  let m := store32 m (d + 4) base
  let m := store32 m (d + 8) 0
  let m := store16 m (d + 12) sel
  storeBytes m (d + 14) [flags]

/-- `_idt_set_gate`. -/
def idtSetGate (v : DescriptorVars) (m : Mem) (num : Nat) (base : BitVec 32) (sel : BitVec 16) (flags : BitVec 8) : Mem :=
  let m := idtDebugGate v.idtDebug m num base sel flags
  let e := entryAddr v.idt num
  let m := store16 m e (base.setWidth 16)
  let m := store16 m (e + 6) ((base >>> 16).setWidth 16)
  let m := storeBytes m (e + 4) [0]
  let m := store16 m (e + 2) sel
  storeBytes m (e + 5) [flags]

/-- `_isr_install`. -/
def isrInstall (v : DescriptorVars) (symbols : StubLabel → BitVec 32) (m : Mem) : Mem :=
  (List.range 32).foldl (fun m n => idtSetGate v m n (symbols (.isr n)) 0x08 0x8E) m

/-- The gates of `_irq_install`. -/
def irqInstall (v : DescriptorVars) (symbols : StubLabel → BitVec 32) (m : Mem) : Mem :=
  (List.range 16).foldl (fun m n => idtSetGate v m (32 + n) (symbols (.irq n)) 0x08 0x8E) m

/-- The gates of `idt_install`, in a wiped table. -/
def idtSetGates (v : DescriptorVars) (symbols : StubLabel → BitVec 32) (m : Mem) : Mem :=
  let m := storeBytes m v.idt (List.replicate (8 * 256) 0)
  let m := isrInstall v symbols m
  irqInstall v symbols m

/-- `idt_install`: memory, and what `_idt_flush` loads. -/
def idtInstall (v : DescriptorVars) (symbols : StubLabel → BitVec 32) (m : Mem) : Mem × TableRegister :=
  let m := store16 m v.idtp (8 * 256 - 1)
  let m := store32 m (v.idtp + 2) v.idt
  let m := idtSetGates v symbols m
  (m, tableRegisterAt m v.idtp)

/-- `_gdt_set_gate`. -/
def gdtSetGate (gdt : BitVec 32) (m : Mem) (num : Nat) (base limit : BitVec 64) (access gran : BitVec 8) : Mem :=
  let e := entryAddr gdt num
  let m := store16 m (e + 2) (base.setWidth 16)
  let m := storeBytes m (e + 4) [(base >>> 16).setWidth 8]
  let m := storeBytes m (e + 7) [(base >>> 24).setWidth 8]
  let m := store16 m e (limit.setWidth 16)
  let m := storeBytes m (e + 6) [(limit >>> 16).setWidth 8 &&& 0x0F]
  let m := storeBytes m (e + 6) [m (e + 6) ||| (gran &&& 0xF0)]
  storeBytes m (e + 5) [access]

/-- The gates of `gdt_install`. -/
def gdtSetGates (gdt : BitVec 32) (m : Mem) : Mem :=
  let m := gdtSetGate gdt m 0 0 0 0 0
  let m := gdtSetGate gdt m 1 0 0xFFFFFFFF 0x9A 0xCF
  let m := gdtSetGate gdt m 2 0 0xFFFFFFFF 0x92 0xCF
  let m := gdtSetGate gdt m 3 0 0xFFFFFFFF 0xFA 0xCF
  gdtSetGate gdt m 4 0 0xFFFFFFFF 0xF2 0xCF

/-- `gdt_install`: memory, and what `_gdt_flush` loads. -/
def gdtInstall (v : DescriptorVars) (m : Mem) : Mem × TableRegister :=
  let m := store16 m v.gp (8 * 3 - 1)
  let m := store32 m (v.gp + 2) v.gdt
  let m := gdtSetGates v.gdt m
  (m, tableRegisterAt m v.gp)

/-! ## What the processor reads -/

/-- An interrupt gate. -/
structure Gate where
  offset : BitVec 32
  selector : BitVec 16
  access : BitVec 8
  deriving DecidableEq

/-- The gate at an address. -/
def gateAt (m : Mem) (e : BitVec 32) : Gate where
  offset := m (e + 7) ++ m (e + 6) ++ m (e + 1) ++ m e
  selector := m (e + 3) ++ m (e + 2)
  access := m (e + 5)

/-- The present gate of a vector. -/
def readGate (m : Mem) (idtr : TableRegister) (n : Nat) : Option Gate :=
  let g := gateAt m (entryAddr idtr.base n)
  if 8 * n + 7 ≤ idtr.limit.toNat ∧ g.access.getLsbD 7 then some g else none

/-- A segment. -/
structure Segment where
  base : BitVec 32
  limit : BitVec 20
  access : BitVec 8
  flags : BitVec 4
  deriving DecidableEq

/-- The descriptor at an address. -/
def segmentAt (m : Mem) (e : BitVec 32) : Segment where
  base := m (e + 7) ++ m (e + 4) ++ m (e + 3) ++ m (e + 2)
  limit := (m (e + 6)).extractLsb' 0 4 ++ m (e + 1) ++ m e
  access := m (e + 5)
  flags := (m (e + 6)).extractLsb' 4 4

/-- The present segment of a selector of the GDT. -/
def loadSegment (m : Mem) (gdtr : TableRegister) (selector : BitVec 16) : Option Segment :=
  let index := (selector >>> 3).toNat
  let d := segmentAt m (entryAddr gdtr.base index)
  if index ≠ 0 ∧ selector.getLsbD 2 = false ∧ 8 * index + 7 ≤ gdtr.limit.toNat ∧ d.access.getLsbD 7 then some d else none

/-! ## One entry -/

variable {m m' : Mem} {e a : BitVec 32}

theorem add_sub_add (x y : BitVec 32) : e + x - (e + y) = x - y := by bv_omega

theorem sub_add_self (x : BitVec 32) : e - (e + x) = 0 - x := by bv_omega

theorem add_self_sub (x : BitVec 32) : e + x - e = x := by bv_omega

/-- The halves of a halfword. -/
theorem halves16 (x : BitVec 16) : x.extractLsb' 8 8 ++ x.extractLsb' 0 8 = x := by
  apply BitVec.eq_of_getLsbD_eq
  intro i hi
  simp only [BitVec.getLsbD_append]
  grind

/-- The two halfwords of an offset. -/
theorem halves32 (x : BitVec 32) : ((x >>> 16).setWidth 16).extractLsb' 8 8 ++ ((x >>> 16).setWidth 16).extractLsb' 0 8 ++
    (x.setWidth 16).extractLsb' 8 8 ++ (x.setWidth 16).extractLsb' 0 8 = x := by
  apply BitVec.eq_of_getLsbD_eq
  intro i hi
  simp only [BitVec.getLsbD_append]
  grind

/-- **A gate is read as it was written.** -/
theorem gateAt_idtSetGate (v : DescriptorVars) (num : Nat) (base : BitVec 32) (sel : BitVec 16) (flags : BitVec 8) :
    gateAt (idtSetGate v m num base sel flags) (entryAddr v.idt num) = ⟨base, sel, flags⟩ := by
  simp only [gateAt, idtSetGate, store16, storeBytes, add_sub_add, add_self_sub, sub_add_self, BitVec.sub_self, Gate.mk.injEq]
  exact ⟨halves32 base, halves16 sel, by simp⟩

theorem low_nibble (i : Nat) : (0x0F : BitVec 8).getLsbD i = decide (i < 4) := by
  rcases Nat.lt_or_ge i 8 with h | h
  · revert i
    decide
  · rw [BitVec.getLsbD_of_ge _ _ h, decide_eq_false (by omega)]

theorem high_nibble (i : Nat) : (0xF0 : BitVec 8).getLsbD i = decide (4 ≤ i ∧ i < 8) := by
  rcases Nat.lt_or_ge i 8 with h | h
  · revert i
    decide
  · rw [BitVec.getLsbD_of_ge _ _ h, decide_eq_false (by omega)]

/-- The parts of a base. -/
theorem split_base (x : BitVec 64) : (x >>> 24).setWidth 8 ++ (x >>> 16).setWidth 8 ++
    (x.setWidth 16).extractLsb' 8 8 ++ (x.setWidth 16).extractLsb' 0 8 = x.setWidth 32 := by
  apply BitVec.eq_of_getLsbD_eq
  intro i hi
  simp only [BitVec.getLsbD_append]
  grind

/-- The parts of a limit, the highest beside the flags. -/
theorem split_limit (x : BitVec 64) (gran : BitVec 8) :
    (((x >>> 16).setWidth 8 &&& 0x0F) ||| (gran &&& 0xF0)).extractLsb' 0 4 ++
      (x.setWidth 16).extractLsb' 8 8 ++ (x.setWidth 16).extractLsb' 0 8 = x.setWidth 20 := by
  apply BitVec.eq_of_getLsbD_eq
  intro i hi
  simp only [BitVec.getLsbD_append, BitVec.getLsbD_extractLsb', BitVec.getLsbD_or, BitVec.getLsbD_and, low_nibble,
    high_nibble]
  grind

theorem split_flags (x gran : BitVec 8) : ((x &&& 0x0F) ||| (gran &&& 0xF0)).extractLsb' 4 4 = gran.extractLsb' 4 4 := by
  apply BitVec.eq_of_getLsbD_eq
  intro i hi
  simp only [BitVec.getLsbD_extractLsb', BitVec.getLsbD_or, BitVec.getLsbD_and, low_nibble, high_nibble]
  grind

/-- **A descriptor is read as it was written**, its base cut to 32 bits and
its limit to 20. -/
theorem segmentAt_gdtSetGate (gdt : BitVec 32) (num : Nat) (base limit : BitVec 64) (access gran : BitVec 8) :
    segmentAt (gdtSetGate gdt m num base limit access gran) (entryAddr gdt num) =
      ⟨base.setWidth 32, limit.setWidth 20, access, gran.extractLsb' 4 4⟩ := by
  simp only [segmentAt, gdtSetGate, store16, storeBytes, add_sub_add, add_self_sub, sub_add_self, BitVec.sub_self,
    Segment.mk.injEq]
  exact ⟨split_base base, split_limit limit gran, by simp, split_flags _ gran⟩

/-- The register of a limit and a base. -/
theorem tableRegisterAt_stored (limit : BitVec 16) (base : BitVec 32) :
    tableRegisterAt (store32 (store16 m a limit) (a + 2) base) a = ⟨limit, base⟩ := by
  have hlow : ¬ (a - (a + 2)).toNat < 4 := by bv_omega
  have hhigh : ¬ (a + 1 - (a + 2)).toNat < 4 := by bv_omega
  have hlimit : store32 (store16 m a limit) (a + 2) base (a + 1) ++ store32 (store16 m a limit) (a + 2) base a = limit := by
    simp only [store32, if_neg hhigh, if_neg hlow, store16, storeBytes, add_self_sub, BitVec.sub_self]
    exact halves16 limit
  rw [tableRegisterAt, hlimit, load32_store32]

/-! ## The other entries -/

/-- A store to a field of an entry. -/
theorem storeBytes_field {bs : List (BitVec 8)} {k : BitVec 32} {n : Nat} (hk : k.toNat + bs.length ≤ n) :
    SameOutside e n m (storeBytes m (e + k) bs) :=
  storeBytes_outside.mono (by rw [add_self_sub]; exact hk)

theorem storeBytes_first {bs : List (BitVec 8)} {n : Nat} (hk : bs.length ≤ n) : SameOutside e n m (storeBytes m e bs) :=
  storeBytes_outside.mono (by rw [BitVec.sub_self]; simpa using hk)

theorem store32_field {k x : BitVec 32} {n : Nat} (hk : k.toNat + 4 ≤ n) : SameOutside e n m (store32 m (e + k) x) :=
  store32_outside.mono (by rw [add_self_sub]; exact hk)

theorem idtDebugGate_outside (debug : BitVec 32) (num : Nat) (base : BitVec 32) (sel : BitVec 16) (flags : BitVec 8) :
    SameOutside (debug + .ofNat 32 (16 * num)) 16 m (idtDebugGate debug m num base sel flags) :=
  ((((storeBytes_first (by simp)).trans (store32_field (by simp))).trans (store32_field (by simp))).trans
    (storeBytes_field (by simp))).trans (storeBytes_field (by simp))

/-- `_idt_set_gate` stores to the entry and to its copy. -/
theorem idtSetGate_storesOnly (v : DescriptorVars) (num : Nat) (base : BitVec 32) (sel : BitVec 16) (flags : BitVec 8) :
    StoresOnly [(entryAddr v.idt num, 8), (v.idtDebug + .ofNat 32 (16 * num), 16)] m (idtSetGate v m num base sel flags) := by
  have hentry : SameOutside (entryAddr v.idt num) 8 (idtDebugGate v.idtDebug m num base sel flags)
      (idtSetGate v m num base sel flags) :=
    ((((storeBytes_first (by simp)).trans (storeBytes_field (by simp))).trans (storeBytes_field (by simp))).trans
      (storeBytes_field (by simp))).trans (storeBytes_field (by simp))
  have hdebug := idtDebugGate_outside v.idtDebug num base sel flags (m := m)
  exact (hdebug.storesOnly (by simp)).trans (hentry.storesOnly (by simp))

theorem gdtSetGate_outside (gdt : BitVec 32) (num : Nat) (base limit : BitVec 64) (access gran : BitVec 8) :
    SameOutside (entryAddr gdt num) 8 m (gdtSetGate gdt m num base limit access gran) :=
  ((((((storeBytes_field (by simp)).trans (storeBytes_field (by simp))).trans (storeBytes_field (by simp))).trans
    (storeBytes_first (by simp))).trans (storeBytes_field (by simp))).trans (storeBytes_field (by simp))).trans
    (storeBytes_field (by simp))

/-- A register's variable written. -/
theorem pointer_outside (limit : BitVec 16) (base : BitVec 32) :
    SameOutside a 6 m (store32 (store16 m a limit) (a + 2) base) :=
  (storeBytes_first (by simp)).trans (store32_field (by simp))

/-- The bytes of an entry that are the same. -/
theorem entry_byte (h : SameWithin e 8 m m') (k : BitVec 32) (hk : k.toNat < 8) : m' (e + k) = m (e + k) :=
  h _ (by rwa [add_self_sub])

theorem gateAt_congr (h : SameWithin e 8 m m') : gateAt m' e = gateAt m e := by
  have hfirst := h e (by rw [BitVec.sub_self]; decide)
  rw [gateAt, entry_byte h 7 (by decide), entry_byte h 6 (by decide), entry_byte h 1 (by decide), entry_byte h 3 (by decide),
    entry_byte h 2 (by decide), entry_byte h 5 (by decide), hfirst, gateAt]

theorem segmentAt_congr (h : SameWithin e 8 m m') : segmentAt m' e = segmentAt m e := by
  have hfirst := h e (by rw [BitVec.sub_self]; decide)
  rw [segmentAt, entry_byte h 7 (by decide), entry_byte h 4 (by decide), entry_byte h 3 (by decide), entry_byte h 2 (by decide),
    entry_byte h 6 (by decide), entry_byte h 1 (by decide), entry_byte h 5 (by decide), hfirst, segmentAt]

theorem tableRegisterAt_congr (h : SameWithin a 6 m m') : tableRegisterAt m' a = tableRegisterAt m a := by
  have hbase : load32 m' (a + 2) = load32 m (a + 2) := load32_congr h (by rw [add_self_sub]; decide) (by decide)
  rw [tableRegisterAt, h _ (by rw [add_self_sub]; decide), h a (by rw [BitVec.sub_self]; decide), hbase, tableRegisterAt]

/-- What was written there is loaded, whatever is stored apart from it. -/
theorem tableRegisterAt_kept {xs : List Extent} {limit : BitVec 16} {base : BitVec 32}
    (h : StoresOnly xs (store32 (store16 m a limit) (a + 2) base) m') (hapart : ∀ x ∈ xs, Apart x (a, 6)) :
    tableRegisterAt m' a = ⟨limit, base⟩ :=
  (tableRegisterAt_congr (h.within (by decide) hapart)).trans (tableRegisterAt_stored limit base)

theorem entryAddr_sub {table : BitVec 32} {i : Nat} (hi : i < 256) : (entryAddr table i - table).toNat = 8 * i := by
  unfold entryAddr
  bv_omega

/-- Two entries of a table. -/
theorem entryAddr_apart {table : BitVec 32} {i j : Nat} (hi : i < 256) (hj : j < 256) (hne : i ≠ j) :
    Apart (entryAddr table i, 8) (entryAddr table j, 8) := by
  unfold entryAddr
  rcases Nat.lt_or_gt_of_ne hne with h | h
  · constructor
    all_goals bv_omega
  · constructor
    all_goals bv_omega

/-! ## The interrupt table -/

section Gates

variable (v : DescriptorVars)

/-- The gates and their copies lie apart from the other variables. -/
theorem DescriptorVars.apart_gates : Apart (v.idt, 2048) (v.idtDebug, 4096) ∧
    (∀ x ∈ [(v.idt, 2048), (v.idtDebug, 4096)], Apart x (v.idtp, 6)) ∧
    ∀ x ∈ [(v.idtp, 6), (v.idt, 2048), (v.idtDebug, 4096)], Apart x (v.gdt, 40) := by
  have h := v.apart
  simp only [List.pairwise_cons, List.forall_mem_cons, List.not_mem_nil, false_imp_iff, implies_true, and_true] at h ⊢
  obtain ⟨⟨-, hidt, hidtp, hdebug⟩, -, ⟨hip, hid⟩, hpd, -⟩ := h
  exact ⟨hid, ⟨hip, hpd.symm⟩, hidtp.symm, hidt.symm, hdebug.symm⟩

/-- A gate leaves the other gates. -/
theorem gateAt_idtSetGate_ne {i j : Nat} (hi : i < 256) (hj : j < 256) (hne : i ≠ j) (base : BitVec 32) (sel : BitVec 16)
    (flags : BitVec 8) : gateAt (idtSetGate v m i base sel flags) (entryAddr v.idt j) = gateAt m (entryAddr v.idt j) := by
  obtain ⟨⟨hdebug, hidt⟩, -⟩ := v.apart_gates
  refine gateAt_congr ((idtSetGate_storesOnly v i base sel flags).within (by decide) ?_)
  simp only [List.forall_mem_cons, List.not_mem_nil, false_imp_iff, implies_true, and_true]
  refine ⟨entryAddr_apart hi hj hne, ?_⟩
  unfold entryAddr
  constructor
  all_goals
    dsimp only at hdebug hidt ⊢
    bv_omega

/-- The gates of `count` vectors from `start` on. -/
theorem setGates (f : Nat → BitVec 32) (start : Nat) : ∀ {count : Nat} {m m' : Mem}, start + count ≤ 256 →
    (List.range count).foldl (fun m n => idtSetGate v m (start + n) (f n) 0x08 0x8E) m = m' →
    StoresOnly [(v.idt, 2048), (v.idtDebug, 4096)] m m' ∧ ∀ j < 256, gateAt m' (entryAddr v.idt j) =
      if start ≤ j ∧ j < start + count then ⟨f (j - start), 0x08, 0x8E⟩ else gateAt m (entryAddr v.idt j)
  | 0, m, m', _, he => by
    cases he
    refine ⟨.refl, fun j _ => ?_⟩
    rw [if_neg (by omega)]
    rfl
  | count + 1, m, m', hle, he => by
    rw [List.range_succ, List.foldl_append, List.foldl_cons, List.foldl_nil] at he
    obtain ⟨m₁, hm₁⟩ : ∃ m₁, (List.range count).foldl (fun m n => idtSetGate v m (start + n) (f n) 0x08 0x8E) m = m₁ := ⟨_, rfl⟩
    obtain ⟨hout, hgate⟩ := setGates f start (show start + count ≤ 256 by omega) hm₁
    rw [hm₁] at he
    refine ⟨hout.trans ?_, fun j hj => ?_⟩
    · rw [← he]
      refine (idtSetGate_storesOnly v (start + count) (f count) 0x08 0x8E).mono ?_
      simp only [List.forall_mem_cons, List.not_mem_nil, false_imp_iff, implies_true, and_true]
      refine ⟨⟨(v.idt, 2048), by simp, ?_⟩, ⟨(v.idtDebug, 4096), by simp, ?_⟩⟩
      · have hentry := @entryAddr_sub v.idt (start + count) (by omega)
        dsimp only
        omega
      · dsimp only
        bv_omega
    · by_cases hjc : j = start + count
      · rw [if_pos (by omega), hjc, ← he, gateAt_idtSetGate, Nat.add_sub_cancel_left]
      · rw [← he, gateAt_idtSetGate_ne v (by omega) hj (Ne.symm hjc), hgate j hj]
        by_cases hin : start ≤ j ∧ j < start + count
        · rw [if_pos hin, if_pos (by omega)]
        · rw [if_neg hin, if_neg (by omega)]

end Gates

/-- The gates that `memset` leaves. -/
theorem gateAt_wiped (idt : BitVec 32) {j : Nat} (hj : j < 256) :
    gateAt (storeBytes m idt (List.replicate (8 * 256) 0)) (entryAddr idt j) = ⟨0, 0, 0⟩ := by
  have hbyte (k : BitVec 32) (hk : k.toNat < 8) :
      storeBytes m idt (List.replicate (8 * 256) 0) (entryAddr idt j + k) = 0 := by
    have hdist : (entryAddr idt j + k - idt).toNat = 8 * j + k.toNat := by
      unfold entryAddr
      bv_omega
    rw [storeBytes, hdist, List.getElem?_replicate, if_pos (by omega), Option.getD_some]
  have hfirst := hbyte 0 (by decide)
  rw [show entryAddr idt j + 0 = entryAddr idt j from BitVec.add_zero _] at hfirst
  rw [gateAt, hbyte 7 (by decide), hbyte 6 (by decide), hbyte 1 (by decide), hbyte 3 (by decide), hbyte 2 (by decide),
    hbyte 5 (by decide), hfirst]
  rfl

/-- The gates of `idt_install`. -/
theorem idtSetGates_spec (v : DescriptorVars) (symbols : StubLabel → BitVec 32) (m : Mem) :
    StoresOnly [(v.idt, 2048), (v.idtDebug, 4096)] m (idtSetGates v symbols m) ∧ ∀ j < 256,
      gateAt (idtSetGates v symbols m) (entryAddr v.idt j) =
        if j < 48 then ⟨symbols (vectorStub j), 0x08, 0x8E⟩ else ⟨0, 0, 0⟩ := by
  have hwiped : SameOutside v.idt 2048 m (storeBytes m v.idt (List.replicate (8 * 256) 0)) :=
    storeBytes_first (by rw [List.length_replicate])
  have hzero : (fun m n => idtSetGate v m (0 + n) (symbols (.isr n)) 0x08 0x8E) =
      fun m n => idtSetGate v m n (symbols (.isr n)) 0x08 0x8E := by simp only [Nat.zero_add]
  obtain ⟨hout, hisr⟩ := setGates v (fun n => symbols (.isr n)) 0
    (m := storeBytes m v.idt (List.replicate (8 * 256) 0)) (show 0 + 32 ≤ 256 by decide) rfl
  rw [hzero] at hout hisr
  obtain ⟨hout', hirq⟩ := setGates v (fun n => symbols (.irq n)) 32
    (m := isrInstall v symbols (storeBytes m v.idt (List.replicate (8 * 256) 0))) (show 32 + 16 ≤ 256 by decide) rfl
  refine ⟨((hwiped.storesOnly (by simp)).trans hout).trans hout', fun j hj => (hirq j hj).trans ?_⟩
  by_cases h32 : 32 ≤ j ∧ j < 32 + 16
  · rw [if_pos h32, if_pos (by omega), vectorStub, if_neg (by omega)]
  · rw [if_neg h32]
    refine (hisr j hj).trans ?_
    by_cases hlow : j < 32
    · rw [if_pos (by omega), if_pos (by omega), Nat.sub_zero, vectorStub, if_pos hlow]
    · rw [if_neg (by omega), if_neg (by omega), gateAt_wiped v.idt hj]

/-- What `lidt` loads. -/
theorem idtInstall_register (v : DescriptorVars) (symbols : StubLabel → BitVec 32) (m : Mem) :
    (idtInstall v symbols m).2 = ⟨8 * 256 - 1, v.idt⟩ :=
  tableRegisterAt_kept (idtSetGates_spec v symbols _).1 v.apart_gates.2.1

theorem idtInstall_storesOnly (v : DescriptorVars) (symbols : StubLabel → BitVec 32) (m : Mem) :
    StoresOnly [(v.idtp, 6), (v.idt, 2048), (v.idtDebug, 4096)] m (idtInstall v symbols m).1 := by
  have hpointer := pointer_outside (8 * 256 - 1) v.idt (m := m) (a := v.idtp)
  have hgates := (idtSetGates_spec v symbols (store32 (store16 m v.idtp (8 * 256 - 1)) (v.idtp + 2) v.idt)).1
  exact (hpointer.storesOnly List.mem_cons_self).trans (hgates.subset (List.subset_cons_self _ _))

/-- What the processor finds in the table, by its register. -/
theorem readGate_idtInstall (v : DescriptorVars) (symbols : StubLabel → BitVec 32) (m : Mem) {j : Nat} (hj : j < 256) :
    readGate (idtInstall v symbols m).1 (idtInstall v symbols m).2 j =
      if j < 48 then some ⟨symbols (vectorStub j), 0x08, 0x8E⟩ else none := by
  have hlimit : 8 * j + 7 ≤ (8 * 256 - 1 : BitVec 16).toNat := by
    rw [show (8 * 256 - 1 : BitVec 16).toNat = 2047 by decide]
    omega
  have hgate : gateAt (idtInstall v symbols m).1 (entryAddr v.idt j) = _ := (idtSetGates_spec v symbols _).2 j hj
  rw [idtInstall_register, readGate]
  dsimp only
  rw [hgate]
  by_cases h48 : j < 48
  · rw [if_pos h48, if_pos h48, if_pos ⟨hlimit, (by decide : (0x8E : BitVec 8).getLsbD 7 = true)⟩]
  · rw [if_neg h48, if_neg h48, if_neg (by simp)]

/-! ## The segments -/

/-- Another entry of the table. -/
theorem segmentAt_gdtSetGate_ne (gdt : BitVec 32) {i j : Nat} (hi : i < 256) (hj : j < 256) (hne : i ≠ j)
    (base limit : BitVec 64) (access gran : BitVec 8) :
    segmentAt (gdtSetGate gdt m i base limit access gran) (entryAddr gdt j) = segmentAt m (entryAddr gdt j) := by
  have hgate : StoresOnly [(entryAddr gdt i, 8)] m (gdtSetGate gdt m i base limit access gran) :=
    (gdtSetGate_outside gdt i base limit access gran).storesOnly List.mem_cons_self
  exact segmentAt_congr (hgate.within (by decide) (by simpa using entryAddr_apart hi hj hne))

theorem gdtSetGates_outside (gdt : BitVec 32) : SameOutside gdt 40 m (gdtSetGates gdt m) := by
  have hgate (i : Nat) (hi : i < 5) {m : Mem} (base limit : BitVec 64) (access gran : BitVec 8) :
      SameOutside gdt 40 m (gdtSetGate gdt m i base limit access gran) := by
    refine (gdtSetGate_outside gdt i base limit access gran).mono ?_
    rw [entryAddr_sub (by omega)]
    omega
  exact ((((hgate 0 (by decide) _ _ _ _).trans (hgate 1 (by decide) _ _ _ _)).trans (hgate 2 (by decide) _ _ _ _)).trans
    (hgate 3 (by decide) _ _ _ _)).trans (hgate 4 (by decide) _ _ _ _)

/-- The flat segment with the access byte `access`. -/
def flatSegment (access : BitVec 8) : Segment := ⟨0, 0xFFFFF, access, 0xC⟩

theorem gdtSetGates_code (gdt : BitVec 32) : segmentAt (gdtSetGates gdt m) (entryAddr gdt 1) = flatSegment 0x9A := by
  rw [gdtSetGates, segmentAt_gdtSetGate_ne gdt (by decide) (by decide) (by decide),
    segmentAt_gdtSetGate_ne gdt (by decide) (by decide) (by decide),
    segmentAt_gdtSetGate_ne gdt (by decide) (by decide) (by decide), segmentAt_gdtSetGate]
  rfl

theorem gdtSetGates_data (gdt : BitVec 32) : segmentAt (gdtSetGates gdt m) (entryAddr gdt 2) = flatSegment 0x92 := by
  rw [gdtSetGates, segmentAt_gdtSetGate_ne gdt (by decide) (by decide) (by decide),
    segmentAt_gdtSetGate_ne gdt (by decide) (by decide) (by decide), segmentAt_gdtSetGate]
  rfl

/-- What `lgdt` loads. -/
theorem gdtInstall_register (v : DescriptorVars) (m : Mem) : (gdtInstall v m).2 = ⟨8 * 3 - 1, v.gdt⟩ := by
  have hapart : Apart (v.gdt, 40) (v.gp, 6) := (List.pairwise_cons.mp v.apart).1 _ List.mem_cons_self
  have hgates := gdtSetGates_outside v.gdt (m := store32 (store16 m v.gp (8 * 3 - 1)) (v.gp + 2) v.gdt)
  have hstores : StoresOnly [(v.gdt, 40)] _ (gdtInstall v m).1 := hgates.storesOnly List.mem_cons_self
  exact tableRegisterAt_kept hstores (by simpa using hapart)

theorem gdtInstall_storesOnly (v : DescriptorVars) (m : Mem) :
    StoresOnly [(v.gdt, 40), (v.gp, 6)] m (gdtInstall v m).1 := by
  have hpointer := pointer_outside (8 * 3 - 1) v.gdt (m := m) (a := v.gp)
  have hgates := gdtSetGates_outside v.gdt (m := store32 (store16 m v.gp (8 * 3 - 1)) (v.gp + 2) v.gdt)
  exact (hpointer.storesOnly (by simp)).trans (hgates.storesOnly List.mem_cons_self)

/-- The segments that a selector can load. -/
def kernelSegment (selector : BitVec 16) : Option Segment :=
  if selector.getLsbD 2 then none
  else if (selector >>> 3).toNat = 1 then some (flatSegment 0x9A)
  else if (selector >>> 3).toNat = 2 then some (flatSegment 0x92)
  else none

/-- With the limit of `gdt_install` over a table that holds its segments. -/
theorem loadSegment_of_table {gdt : BitVec 32} (hcode : segmentAt m (entryAddr gdt 1) = flatSegment 0x9A)
    (hdata : segmentAt m (entryAddr gdt 2) = flatSegment 0x92) (selector : BitVec 16) :
    loadSegment m ⟨8 * 3 - 1, gdt⟩ selector = kernelSegment selector := by
  have hlimit : (8 * 3 - 1 : BitVec 16).toNat = 23 := by decide
  simp only [loadSegment, kernelSegment, hlimit]
  generalize (selector >>> 3).toNat = index
  cases hti : selector.getLsbD 2 with
  | true => simp
  | false =>
    by_cases h1 : index = 1
    · subst h1
      rw [hcode]
      simp [flatSegment]
    · by_cases h2 : index = 2
      · subst h2
        rw [hdata]
        simp [flatSegment]
      · rw [if_neg (by omega), if_neg (by simp), if_neg h1, if_neg h2]

/-- `idt_install` leaves the segments. -/
theorem segmentAt_idtInstall (v : DescriptorVars) (symbols : StubLabel → BitVec 32) (m : Mem) {i : Nat} (hi : i < 5) :
    segmentAt (idtInstall v symbols m).1 (entryAddr v.gdt i) = segmentAt m (entryAddr v.gdt i) := by
  have hsame := (idtInstall_storesOnly v symbols m).within (by decide) v.apart_gates.2.2
  have hentry := @entryAddr_sub v.gdt i (by omega)
  exact segmentAt_congr (hsame.mono (by decide) (by omega))

/-- **The descriptor tables.** After `gdt_install` and `idt_install` the
processor finds a present gate for exactly the vectors below 48: it leads to
the stub of its vector through the selector `0x08`. A selector loads the
kernel's flat code or data segment or nothing, so the user segments that
`gdt_install` writes are out of reach; and nothing but the descriptor
variables was stored to. -/
theorem descriptor_tables (v : DescriptorVars) (symbols : StubLabel → BitVec 32) (m : Mem) :
    let (m₁, gdtr) := gdtInstall v m
    let (m₂, idtr) := idtInstall v symbols m₁
    (∀ n < 256, readGate m₂ idtr n = if n < 48 then some ⟨symbols (vectorStub n), 0x08, 0x8E⟩ else none) ∧
    (∀ selector, loadSegment m₂ gdtr selector = kernelSegment selector) ∧ StoresOnly v.extents m m₂ := by
  refine ⟨fun n hn => readGate_idtInstall v symbols _ hn, fun selector => ?_, ?_⟩
  · have hsegment {i : Nat} (hi : i < 5) := segmentAt_idtInstall v symbols (gdtInstall v m).1 hi
    show loadSegment _ (gdtInstall v m).2 selector = _
    rw [gdtInstall_register]
    exact loadSegment_of_table ((hsegment (by decide)).trans (gdtSetGates_code v.gdt))
      ((hsegment (by decide)).trans (gdtSetGates_data v.gdt)) selector
  · have hgdt : StoresOnly v.extents m (gdtInstall v m).1 :=
      (gdtInstall_storesOnly v m).subset (by simp [DescriptorVars.extents])
    have hidt : StoresOnly v.extents (gdtInstall v m).1 (idtInstall v symbols (gdtInstall v m).1).1 :=
      (idtInstall_storesOnly v symbols _).subset (by simp [DescriptorVars.extents])
    exact hgdt.trans hidt

/-- The page fault's gate, and the user code segment. -/
theorem descriptor_tables_kernel : ∃ m gdtr idtr,
    readGate m idtr 14 = some ⟨0x10100E, 0x08, 0x8E⟩ ∧ loadSegment m gdtr 0x1B = none := by
  obtain ⟨hgate, hseg, -⟩ := descriptor_tables ⟨0x120000, 0x120040, 0x121000, 0x120048, 0x122000, by decide⟩
    (fun | .isr n => 0x101000 + .ofNat 32 n | _ => 0x102000) (fun _ => 0)
  exact ⟨_, _, _, hgate 14 (by decide), (hseg 0x1B).trans (by decide)⟩

end ShawnOS
