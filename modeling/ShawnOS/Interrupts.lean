/-
The way of an interrupt, from the controllers to the handler and back.

The processor takes the vector from the controllers, finds its gate in the
table that `idt_install` wrote, its code segment in that of `gdt_install`, and
runs the stub at the gate's offset. As long as the two tables stay as they
were installed, every IRQ reaches `_irq_handler` with its own number and goes
back to the interrupted program, and so does every exception but two.
-/
import ShawnOS.Descriptors
import ShawnOS.Irq

namespace ShawnOS

open X86 Pic

/-- The processor enters the vector `n`: by its gate, the segment of the
gate's selector, and the code at the gate's offset. -/
def deliver (env : Env) (code : StubLabel → List (Instr StubLabel)) (codeAt : BitVec 32 → List (Instr StubLabel))
    (gdtr idtr : TableRegister) (n : Nat) (errCode : BitVec 32) (s : State) : Option State := do
  let g ← readGate s.mem idtr n
  let _ ← loadSegment s.mem gdtr g.selector
  run code env 32 (codeAt g.offset) (s.interrupt g.selector (if pushesErrorCode n then some errCode else none))

/-- Memory after `gdt_install` and `idt_install`. -/
def installTables (v : DescriptorVars) (symbols : StubLabel → BitVec 32) (m : Mem) : Mem :=
  (idtInstall v symbols (gdtInstall v m).1).1

/-- What `lgdt` loaded. -/
def gdtRegister (gdt : BitVec 32) : TableRegister := ⟨8 * 3 - 1, gdt⟩

/-- What `lidt` loaded. -/
def idtRegister (idt : BitVec 32) : TableRegister := ⟨8 * 256 - 1, idt⟩

/-- The two tables are as they were installed. -/
structure TablesKept (v : DescriptorVars) (symbols : StubLabel → BitVec 32) (m m' : Mem) : Prop where
  segments : SameWithin v.gdt 40 (installTables v symbols m) m'
  gates : SameWithin v.idt 2048 (installTables v symbols m) m'

/-- A kernel that is linked: the stubs are where their symbols say. -/
structure Linked (symbols : StubLabel → BitVec 32) (code : StubLabel → List (Instr StubLabel))
    (codeAt : BitVec 32 → List (Instr StubLabel)) : Prop where
  stubs : ∀ n < 48, codeAt (symbols (vectorStub n)) = code (vectorStub n)

variable {v : DescriptorVars} {symbols : StubLabel → BitVec 32} {code : StubLabel → List (Instr StubLabel)}
  {codeAt : BitVec 32 → List (Instr StubLabel)} {m m' : Mem}

theorem TablesKept.gate (h : TablesKept v symbols m m') {n : Nat} (hn : n < 256) :
    readGate m' (idtRegister v.idt) n = if n < 48 then some ⟨symbols (vectorStub n), 0x08, 0x8E⟩ else none := by
  have hentry : (entryAddr v.idt n - v.idt).toNat = 8 * n := entryAddr_sub hn
  have hgate : gateAt m' (entryAddr v.idt n) = gateAt (installTables v symbols m) (entryAddr v.idt n) :=
    gateAt_congr (h.gates.mono (by decide) (by omega))
  rw [← readGate_idtInstall v symbols (gdtInstall v m).1 hn, idtInstall_register, readGate, readGate]
  simp only [idtRegister, hgate]
  rfl

theorem TablesKept.segment (h : TablesKept v symbols m m') (selector : BitVec 16) :
    loadSegment m' (gdtRegister v.gdt) selector = kernelSegment selector := by
  have hsegment {i : Nat} (hi : i < 5) :
      segmentAt m' (entryAddr v.gdt i) = segmentAt (gdtInstall v m).1 (entryAddr v.gdt i) := by
    have hentry : (entryAddr v.gdt i - v.gdt).toNat = 8 * i := entryAddr_sub (by omega)
    have hkept : segmentAt m' (entryAddr v.gdt i) = segmentAt (installTables v symbols m) (entryAddr v.gdt i) :=
      segmentAt_congr (h.segments.mono (by decide) (by omega))
    exact hkept.trans (segmentAt_idtInstall v symbols (gdtInstall v m).1 hi)
  exact loadSegment_of_table ((hsegment (by decide)).trans (gdtSetGates_code v.gdt))
    ((hsegment (by decide)).trans (gdtSetGates_data v.gdt)) selector

/-- The stub of a vector with a gate is entered, and no other. -/
theorem deliver_eq {faultHandler irqHandler : BitVec 32} {env : Env} {errCode : BitVec 32} {s : State} {n : Nat}
    (hl : Linked symbols (stubCode faultHandler irqHandler) codeAt) (h : TablesKept v symbols m s.mem)
    (hn : n < 256) :
    deliver env (stubCode faultHandler irqHandler) codeAt (gdtRegister v.gdt) (idtRegister v.idt) n errCode s =
      if n < 48 then takeInterrupt env faultHandler irqHandler n errCode s else none := by
  rw [deliver, h.gate hn]
  by_cases hgate : n < 48
  · have hsegment : loadSegment s.mem (gdtRegister v.gdt) 0x08 = some (flatSegment 0x9A) := (h.segment 0x08).trans (by decide)
    rw [if_pos hgate, if_pos hgate, Option.bind_eq_bind, Option.bind_some, hsegment, Option.bind_eq_bind, Option.bind_some,
      hl.stubs n hgate, takeInterrupt]
  · rw [if_neg hgate, if_neg hgate]
    rfl

/-- The vector `n`, taken in the state `s`, calls the handler with the
registers of `s`, and goes on in `s` once the handler returns. -/
def GoesBack (link : BitVec 32) (sumFlags : BitVec 32 → BitVec 32 → BitVec 32 → BitVec 32) (faultHandler irqHandler : BitVec 32)
    (codeAt : BitVec 32 → List (Instr StubLabel)) (v : DescriptorVars) (n : Nat) (errCode : BitVec 32) (s : State) : Prop :=
  ∃ e, HandlerEntry link s e (.ofState s (.ofNat 32 n) (if pushesErrorCode n then errCode else 0) (s.gpr .esp - 20)) ∧
    ∀ f t, f (vectorHandler faultHandler irqHandler n) e = some t → Returned 68 e t →
      deliver ⟨f, link, sumFlags⟩ (stubCode faultHandler irqHandler) codeAt (gdtRegister v.gdt) (idtRegister v.idt) n errCode s =
        some { s with mem := t.mem }

section Path

variable {link faultHandler irqHandler errCode : BitVec 32} {sumFlags : BitVec 32 → BitVec 32 → BitVec 32 → BitVec 32}
  {s : State} {n : Nat}

theorem goesBack_iff_resumes (hl : Linked symbols (stubCode faultHandler irqHandler) codeAt)
    (h : TablesKept v symbols m s.mem) (hn : n < 48) :
    GoesBack link sumFlags faultHandler irqHandler codeAt v n errCode s ↔
      Resumes link sumFlags faultHandler irqHandler n errCode s := by
  have hdeliver (env : Env) : deliver env (stubCode faultHandler irqHandler) codeAt (gdtRegister v.gdt) (idtRegister v.idt) n
      errCode s = takeInterrupt env faultHandler irqHandler n errCode s := by
    rw [deliver_eq hl h (by omega), if_pos hn]
  simp only [GoesBack, Resumes, hdeliver]

theorem goesBack_iff (hl : Linked symbols (stubCode faultHandler irqHandler) codeAt)
    (h : TablesKept v symbols m s.mem) (hn : n < 48) :
    GoesBack link sumFlags faultHandler irqHandler codeAt v n errCode s ↔ n ≠ 7 ∧ n ≠ 17 := by
  rw [goesBack_iff_resumes hl h hn]
  exact ⟨ne_of_resumes, fun ⟨h7, h17⟩ => resumes_of_reaches hn h7 h17⟩

end Path

/-- **The way of an interrupt.** In a linked kernel, in every state whose
tables are those that `gdt_install` and `idt_install` left:
- a vector from 48 up is not entered at all;
- one below calls its handler with the interrupted registers and goes back,
  unless it is 7 or 17;
- and in every interleaving after `__irq_remap`, whatever vector the
  controllers give the processor belongs to `_irq_handler`, and goes back. -/
theorem interrupt_path {v : DescriptorVars} {faultHandler irqHandler : BitVec 32} {symbols : StubLabel → BitVec 32}
    {codeAt : BitVec 32 → List (Instr StubLabel)} (hl : Linked symbols (stubCode faultHandler irqHandler) codeAt)
    (link : BitVec 32) (sumFlags : BitVec 32 → BitVec 32 → BitVec 32 → BitVec 32) (m : Mem) (s : State)
    (h : TablesKept v symbols m s.mem) (errCode : BitVec 32) :
    (∀ n, 48 ≤ n → n < 256 → ∀ env, deliver env (stubCode faultHandler irqHandler) codeAt (gdtRegister v.gdt)
      (idtRegister v.idt) n errCode s = none) ∧
    (∀ n < 48, GoesBack link sumFlags faultHandler irqHandler codeAt v n errCode s ↔ n ≠ 7 ∧ n ≠ 17) ∧
    ∀ (chips : Pair) (routines : List (Option (BitVec 32))), routines.length = 16 → ∃ p, irqRemap chips = some p ∧
      ∀ q, Relation.ReflTransGen IrqStep ⟨p, false, [], routines, [], []⟩ q →
        ∀ vector chips', q.chips.acknowledge = some (vector, chips') →
          vectorHandler faultHandler irqHandler vector.toNat = irqHandler ∧
            GoesBack link sumFlags faultHandler irqHandler codeAt v vector.toNat errCode s := by
  refine ⟨fun n hge hn env => ?_, fun n hn => goesBack_iff hl h hn, fun chips routines hlen => ?_⟩
  · rw [deliver_eq hl h hn, if_neg (by omega)]
  · obtain ⟨p, hp, hremapped, hm, hsl⟩ := irqRemap_remapped chips
    refine ⟨p, hp, fun q hrun vector chips' hack => ?_⟩
    have hinv := (IrqInv.start hremapped hm hsl hlen).run hrun
    obtain ⟨-, hacked⟩ := hinv.remapped.acknowledge hack
    have hnumber := hacked.number
    refine ⟨if_neg (by omega), (goesBack_iff hl h (by omega)).mpr (by omega)⟩

/-- The stubs from `0x101000` on, one at each address. -/
def linkedSymbols : StubLabel → BitVec 32
  | .isr n => 0x101000 + .ofNat 32 n
  | .irq n => 0x101020 + .ofNat 32 n
  | _ => 0x102000

def linkedCode (a : BitVec 32) : List (Instr StubLabel) := stubCode 0x103000 0x104000 (vectorStub (a - 0x101000).toNat)

/-- The descriptor variables from `0x120000` on. -/
def linkedVars : DescriptorVars := ⟨0x120000, 0x120040, 0x121000, 0x120048, 0x122000, by decide⟩

theorem linked_example : Linked linkedSymbols (stubCode 0x103000 0x104000) linkedCode := by
  refine ⟨fun n hn => ?_⟩
  have hplace : (linkedSymbols (vectorStub n) - 0x101000).toNat = n := by
    unfold vectorStub
    split
    · show (0x101000 + BitVec.ofNat 32 n - 0x101000).toNat = n
      bv_omega
    · show (0x101020 + BitVec.ofNat 32 (n - 32) - 0x101000).toNat = n
      bv_omega
  rw [linkedCode, hplace]

/-- The keyboard's IRQ, right after the tables were installed. -/
theorem interrupt_path_keyboard : ∃ s : State,
    GoesBack 0x100100 (fun f _ _ => f) 0x103000 0x104000 linkedCode linkedVars 33 0 s := by
  let s : State := ⟨fun _ => 0x160000, fun _ => 0x10, 0x08, 0x103000, 0x202,
    installTables linkedVars linkedSymbols fun _ => 0⟩
  have hkept : TablesKept linkedVars linkedSymbols (fun _ => 0) s.mem := ⟨fun _ _ => rfl, fun _ _ => rfl⟩
  exact ⟨s, ((interrupt_path linked_example 0x100100 (fun f _ _ => f) _ s hkept 0).2.1 33 (by decide)).mpr (by decide)⟩

end ShawnOS
