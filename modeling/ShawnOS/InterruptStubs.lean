/-
The interrupt stubs (`arch/i386/isrstub.asm`, `arch/i386/irqstub.asm`).

A stub completes the frame that the processor pushed to an
`i386_registers_t`, and a common part saves the registers, calls the C
handler with the frame's address, and puts everything back. Vector 7 jumps
away before it has pushed its number, and vector 17 pushes an error code on
top of the processor's own: these two do not come back to the interrupted
program, and all others do.
-/
import ShawnOS.Lib.X86

namespace ShawnOS

open X86

/-- The labels of the two files. -/
inductive StubLabel where
  | isr (n : Nat)
  | irq (n : Nat)
  | isrCommonStub
  | irqCommonStub

/-- A stub that pushes an error code of its own. -/
def stub (n : Nat) (common : StubLabel) : List (Instr StubLabel) :=
  [.cli, .pushByte 0, .pushByte (.ofNat 8 n), .jmp common]

/-- A stub of a vector for which the processor pushes the error code. -/
def codeStub (n : Nat) : List (Instr StubLabel) := [.cli, .pushByte (.ofNat 8 n), .jmp .isrCommonStub]

/-- A stub that leaves interrupts as they are. -/
def bareStub (n : Nat) : List (Instr StubLabel) := [.pushByte 0, .pushByte (.ofNat 8 n), .jmp .isrCommonStub]

/-- `_isr0` to `_isr31`. -/
def isrStub : Nat → List (Instr StubLabel)
  | 7 => [.cli, .pushByte 0, .jmp .isrCommonStub, .pushByte 7]
  | 8 => codeStub 8
  | 10 => codeStub 10
  | 11 => codeStub 11
  | 12 => codeStub 12
  | 13 => codeStub 13
  | 14 => codeStub 14
  | 27 => bareStub 27
  | 28 => bareStub 28
  | 29 => bareStub 29
  | 30 => bareStub 30
  | 31 => bareStub 31
  | n => stub n .isrCommonStub

/-- `_irq0` to `_irq15`. -/
def irqStub (n : Nat) : List (Instr StubLabel) := stub (n + 32) .irqCommonStub

/-- `isr_common_stub` and `irq_common_stub`, which differ in the function
they call. -/
def commonStub (handler : BitVec 32) : List (Instr StubLabel) :=
  [.pusha, .pushSeg .ds, .pushSeg .es, .pushSeg .fs, .pushSeg .gs,
    .movAx 0x10, .movSeg .ds .eax, .movSeg .es .eax, .movSeg .fs .eax, .movSeg .gs .eax,
    .mov .eax .esp, .push .eax, .movImm .eax handler, .call .eax, .pop .eax,
    .popSeg .gs, .popSeg .fs, .popSeg .es, .popSeg .ds, .popa, .addEsp 8, .iret]

/-- The code, with the addresses of `_fault_handler` and `_irq_handler`. -/
def stubCode (faultHandler irqHandler : BitVec 32) : StubLabel → List (Instr StubLabel)
  | .isr n => isrStub n
  | .irq n => irqStub n
  | .isrCommonStub => commonStub faultHandler
  | .irqCommonStub => commonStub irqHandler

/-- The stub of a vector, as `idt_install` enters them. -/
def vectorStub (n : Nat) : StubLabel := if n < 32 then .isr n else .irq (n - 32)

/-- The vectors for which the processor pushes an error code. -/
def pushesErrorCode (n : Nat) : Bool := n == 8 || n == 17 || (10 ≤ n && n ≤ 14)

/-- `struct i386_registers`, without the two words that are pushed on a change
of privilege only. -/
structure I386Registers where
  gs : BitVec 32
  fs : BitVec 32
  es : BitVec 32
  ds : BitVec 32
  edi : BitVec 32
  esi : BitVec 32
  ebp : BitVec 32
  esp : BitVec 32
  ebx : BitVec 32
  edx : BitVec 32
  ecx : BitVec 32
  eax : BitVec 32
  intNo : BitVec 32
  errCode : BitVec 32
  eip : BitVec 32
  cs : BitVec 32
  eflags : BitVec 32

namespace I386Registers

/-- The words of the struct, from its address up. -/
def words (r : I386Registers) : List (BitVec 32) :=
  [r.gs, r.fs, r.es, r.ds, r.edi, r.esi, r.ebp, r.esp, r.ebx, r.edx, r.ecx, r.eax, r.intNo, r.errCode, r.eip, r.cs, r.eflags]

/-- The registers `s`, with the vector and the error code. -/
def ofState (s : State) (intNo errCode esp : BitVec 32) : I386Registers where
  gs := (s.seg .gs).setWidth 32
  fs := (s.seg .fs).setWidth 32
  es := (s.seg .es).setWidth 32
  ds := (s.seg .ds).setWidth 32
  edi := s.gpr .edi
  esi := s.gpr .esi
  ebp := s.gpr .ebp
  esp := esp
  ebx := s.gpr .ebx
  edx := s.gpr .edx
  ecx := s.gpr .ecx
  eax := s.gpr .eax
  intNo := intNo
  errCode := errCode
  eip := s.eip
  cs := s.cs.setWidth 32
  eflags := s.eflags

end I386Registers

/-- The C function that a vector's stub calls. -/
def vectorHandler (faultHandler irqHandler : BitVec 32) (n : Nat) : BitVec 32 := if n < 32 then faultHandler else irqHandler

/-- The processor takes the interrupt `n` in the state `s`. -/
def takeInterrupt (env : Env) (faultHandler irqHandler : BitVec 32) (n : Nat) (errCode : BitVec 32) (s : State) :
    Option State :=
  run (stubCode faultHandler irqHandler) env 32 (stubCode faultHandler irqHandler (vectorStub n))
    (s.interrupt 0x08 (if pushesErrorCode n then some errCode else none))

/-- The C handler is entered in `e`: the return address and the address of
`r` are on the stack, `r` lies above, and interrupts are off. -/
structure HandlerEntry (link : BitVec 32) (s e : State) (r : I386Registers) : Prop where
  pushed : Pushed s e (link :: (e.gpr .esp + 8) :: r.words)
  seg : ∀ g, e.seg g = 0x10
  interrupts : e.eflags &&& interruptFlag = 0

/-- A C function with one argument, called in `e`, has returned in `t`, and
has not written to what lies `n` bytes above its argument. -/
structure Returned (n : Nat) (e t : State) : Prop where
  esp : t.gpr .esp = e.gpr .esp + 4
  kept : SameWithin (e.gpr .esp + 8) n e.mem t.mem

/-! ## Into the handler -/

variable {env : Env} {fuel : Nat} {s t : State} {code : StubLabel → List (Instr StubLabel)}

/-- What `isr_common_stub` has left to do after the call. -/
def afterCall : List (Instr StubLabel) :=
  [.pop .eax, .popSeg .gs, .popSeg .fs, .popSeg .es, .popSeg .ds, .popa, .addEsp 8, .iret]

/-- `pusha` and the four segment registers. -/
def saveContext (t : State) : State :=
  ((((t.pushAll (pushaOrder.map t.gpr)).push ((t.seg .ds).setWidth 32)).push ((t.seg .es).setWidth 32)).push
    ((t.seg .fs).setWidth 32)).push ((t.seg .gs).setWidth 32)

/-- The words it pushes. -/
def contextWords (t : State) : List (BitVec 32) :=
  [(t.seg .gs).setWidth 32, (t.seg .fs).setWidth 32, (t.seg .es).setWidth 32, (t.seg .ds).setWidth 32] ++
    (pushaOrder.map t.gpr).reverse

theorem contextWords_length : (contextWords t).length = 12 := by simp [contextWords, pushaOrder]

theorem run_saveContext {is : List (Instr StubLabel)} :
    run code env (fuel + 5) (.pusha :: .pushSeg .ds :: .pushSeg .es :: .pushSeg .fs :: .pushSeg .gs :: is) t =
      run code env fuel is (saveContext t) := by
  have hseg : (t.pushAll (pushaOrder.map t.gpr)).seg = t.seg := pushAll_seg
  rw [run_cons rfl, run_cons rfl, run_cons rfl, run_cons rfl, run_cons rfl, saveContext, ← hseg]
  rfl

theorem saveContext_pushed {ws : List (BitVec 32)} (ht : Pushed s t ws) (hlen : ws.length ≤ 100) :
    Pushed s (saveContext t) (contextWords t ++ ws) := by
  have hregs := ht.pushAll (show 4 * ((pushaOrder.map t.gpr).length + ws.length) ≤ 2 ^ 32 by simp [pushaOrder]; omega)
  have hle : ((pushaOrder.map t.gpr).reverse ++ ws).length ≤ 108 := by
    simp only [List.length_append, List.length_reverse, List.length_map, pushaOrder, List.length_cons, List.length_nil]
    omega
  exact (((hregs.push (by omega) _).push (by rw [List.length_cons]; omega) _).push
    (by simp only [List.length_cons]; omega) _).push (by simp only [List.length_cons]; omega) _

/-- The four segment registers are loaded with the kernel's data segment. -/
def kernelSegs (t : State) : State :=
  let u := t.set .eax ((t.gpr .eax &&& 0xFFFF0000) ||| (0x10 : BitVec 16).setWidth 32)
  let ax := (u.gpr .eax).setWidth 16
  (((u.setSeg .ds ax).setSeg .es ax).setSeg .fs ax).setSeg .gs ax

theorem run_kernelSegs {is : List (Instr StubLabel)} :
    run code env (fuel + 5) (.movAx 0x10 :: .movSeg .ds .eax :: .movSeg .es .eax :: .movSeg .fs .eax :: .movSeg .gs .eax ::
      is) t = run code env fuel is (kernelSegs t) := by
  rw [run_cons rfl, run_cons rfl, run_cons rfl, run_cons rfl, run_cons rfl]
  rfl

theorem kernelSegs_seg (g : Seg) : (kernelSegs t).seg g = 0x10 := by
  cases g
  all_goals simp [kernelSegs, State.setSeg, State.set]

theorem kernelSegs_esp : (kernelSegs t).gpr .esp = t.gpr .esp := by
  simp [kernelSegs, State.setSeg, State.set]

/-- `mov eax, esp; push eax; mov eax, handler`, and the push by `call`. -/
def pushArgument (t : State) (handler link : BitVec 32) : State :=
  (((t.set .eax (t.gpr .esp)).push (t.gpr .esp)).set .eax handler).push link

/-- The handler is called in a state that does not depend on what it does. -/
theorem commonStub_enter {ws : List (BitVec 32)} (handler link : BitVec 32) (ht : Pushed s t ws) (hlen : ws.length ≤ 100) :
    ∃ e, (∀ env fuel, env.link = link → run code env (fuel + 14) (commonStub handler) t =
        (env.function handler e).bind (run code env fuel afterCall)) ∧
      Pushed s e (link :: (e.gpr .esp + 8) :: (contextWords t ++ ws)) ∧ (∀ g, e.seg g = 0x10) ∧
      e.eflags = t.eflags := by
  have hsaved : Pushed s (kernelSegs (saveContext t)) (contextWords t ++ ws) :=
    (saveContext_pushed ht hlen).same kernelSegs_esp rfl
  generalize hk : kernelSegs (saveContext t) = k at hsaved
  have hesp : (k.set .eax (k.gpr .esp)).gpr .esp = k.gpr .esp := by simp [State.set]
  refine ⟨pushArgument k handler link, fun env fuel henv => ?_, ?_, ?_, ?_⟩
  · rw [commonStub, run_saveContext, run_kernelSegs, hk, run_cons rfl, run_cons rfl, run_cons rfl]
    have hax : (k.set .eax (k.gpr .esp)).gpr .eax = k.gpr .esp := by simp [State.set]
    have hcall : ((((k.set .eax (k.gpr .esp)).push (k.gpr .esp)).set .eax handler).gpr .eax) = handler := by
      simp [State.set]
    rw [hax, run, exec, hcall, henv]
    · rfl
    all_goals simp
  · have hlen' : (contextWords t ++ ws).length ≤ 112 := by
      rw [List.length_append, contextWords_length]
      omega
    have harg := (hsaved.same (t := k.set .eax (k.gpr .esp)) hesp rfl).push (by omega) (k.gpr .esp)
    have hmov : (((k.set .eax (k.gpr .esp)).push (k.gpr .esp)).set .eax handler).gpr .esp =
        ((k.set .eax (k.gpr .esp)).push (k.gpr .esp)).gpr .esp := by simp [State.set]
    have hlink := (harg.same hmov rfl).push (by rw [List.length_cons]; omega) link
    have hframe : (pushArgument k handler link).gpr .esp + 8 = k.gpr .esp := by
      rw [pushArgument, push_esp, hmov, push_esp, hesp]
      bv_omega
    rw [hframe]
    exact hlink
  · rw [← hk]
    exact kernelSegs_seg
  · rw [← hk]
    exact pushAll_eflags

/-! ## Out of the handler -/

/-- The state that a frame at `a` restores, the `esp` saved in it apart. -/
def I386Registers.restored (r : I386Registers) (a : BitVec 32) (m : Mem) : State where
  gpr := popaGpr r.edi r.esi r.ebp r.ebx r.edx r.ecx r.eax (a + 68)
  seg
    | .ds => r.ds.setWidth 16
    | .es => r.es.setWidth 16
    | .fs => r.fs.setWidth 16
    | .gs => r.gs.setWidth 16
  cs := r.cs.setWidth 16
  eip := r.eip
  eflags := r.eflags
  mem := m

theorem afterCall_restores {r : I386Registers} {argument : BitVec 32} (hst : OnStack t (argument :: r.words)) :
    run code env (fuel + 8) afterCall t = some (r.restored (t.gpr .esp + 4) t.mem) := by
  obtain ⟨e₁, h₁⟩ := hst.pop (r := .eax) (by decide)
  obtain ⟨e₂, h₂⟩ := h₁.popSeg (g := .gs)
  obtain ⟨e₃, h₃⟩ := h₂.popSeg (g := .fs)
  obtain ⟨e₄, h₄⟩ := h₃.popSeg (g := .es)
  obtain ⟨e₅, h₅⟩ := h₄.popSeg (g := .ds)
  obtain ⟨e₆, h₆⟩ := h₅.popa
  rw [afterCall, run_cons rfl, run_cons rfl, run_cons rfl, run_cons rfl, run_cons rfl, run_cons rfl, run_cons rfl, run_iret,
    show (8 : BitVec 8).signExtend 32 = 8 by decide, (h₆.skip).iret, e₆, e₅, e₄, e₃, e₂, e₁]
  simp only [Option.some.injEq, I386Registers.restored, State.mk.injEq]
  refine ⟨?_, ?_, trivial, trivial, trivial, rfl⟩
  · funext r
    cases r
    all_goals simp [State.set, State.setSeg, State.drop, popaGpr, BitVec.add_assoc]
  · funext g
    cases g
    all_goals simp [State.set, State.setSeg, State.drop]

/-! ## The stubs -/

/-- The words that the processor pushes on the way to a stub. -/
theorem interrupt_pushed (selector : BitVec 16) (errCode : Option (BitVec 32)) :
    Pushed s (s.interrupt selector errCode) (errCode.toList ++ [s.eip, s.cs.setWidth 32, s.eflags]) := by
  have h : Pushed s (s.pushAll ([s.eflags, s.cs.setWidth 32, s.eip] ++ errCode.toList)) _ := Pushed.refl.pushAll (by
    cases errCode
    all_goals simp)
  have h' := h.same (t := s.interrupt selector errCode) rfl rfl
  cases errCode
  all_goals exact h'

theorem interrupt_gpr (selector : BitVec 16) (errCode : Option (BitVec 32)) {r : Reg} (hr : r ≠ .esp) :
    (s.interrupt selector errCode).gpr r = s.gpr r := pushAll_gpr r hr

theorem interrupt_seg (selector : BitVec 16) (errCode : Option (BitVec 32)) :
    (s.interrupt selector errCode).seg = s.seg := pushAll_seg

theorem interrupt_off (selector : BitVec 16) (errCode : Option (BitVec 32)) :
    (s.interrupt selector errCode).eflags &&& interruptFlag = 0 := by
  show s.eflags &&& ~~~0x34300 &&& 0x200 = 0
  rw [BitVec.and_assoc]
  simp

/-- What holds in `u`, about to run the common part, after the interrupt of
`s`. -/
structure AtCommon (s u : State) (ws : List (BitVec 32)) : Prop where
  pushed : Pushed s u ws
  gpr : ∀ r, r ≠ .esp → u.gpr r = s.gpr r
  seg : u.seg = s.seg
  off : u.eflags &&& interruptFlag = 0

theorem AtCommon.push {ws : List (BitVec 32)} {u : State} (h : AtCommon s u ws) (hlen : ws.length ≤ 10) (x : BitVec 32) :
    AtCommon s (u.push x) (x :: ws) :=
  ⟨h.pushed.push (by omega) x, fun r hr => (push_gpr r x hr).trans (h.gpr r hr), h.seg, h.off⟩

theorem AtCommon.cli {ws : List (BitVec 32)} {u : State} (h : AtCommon s u ws) :
    AtCommon s { u with eflags := u.eflags &&& ~~~ interruptFlag } ws := by
  refine ⟨h.pushed.same rfl rfl, h.gpr, h.seg, ?_⟩
  show u.eflags &&& ~~~interruptFlag &&& interruptFlag = 0
  rw [BitVec.and_assoc]
  simp

theorem atCommon_interrupt (s : State) (errCode : Option (BitVec 32)) :
    AtCommon s (s.interrupt 0x08 errCode) (errCode.toList ++ [s.eip, s.cs.setWidth 32, s.eflags]) :=
  ⟨interrupt_pushed .., fun _ hr => interrupt_gpr _ _ hr, interrupt_seg .., interrupt_off ..⟩

variable {ws : List (BitVec 32)} {u : State}

theorem AtCommon.stub (h : AtCommon s u ws) (hlen : ws.length ≤ 5) (n : Nat) (common : StubLabel) :
    ∃ v, (∀ env fuel, run code env (fuel + 4) (ShawnOS.stub n common) u = run code env fuel (code common) v) ∧
      AtCommon s v ((BitVec.ofNat 8 n).signExtend 32 :: 0 :: ws) :=
  ⟨_, fun _ _ => rfl, (h.cli.push (by omega) 0).push (by rw [List.length_cons]; omega) _⟩

theorem AtCommon.codeStub (h : AtCommon s u ws) (hlen : ws.length ≤ 5) (n : Nat) :
    ∃ v, (∀ env fuel, run code env (fuel + 3) (ShawnOS.codeStub n) u = run code env fuel (code .isrCommonStub) v) ∧
      AtCommon s v ((BitVec.ofNat 8 n).signExtend 32 :: ws) :=
  ⟨_, fun _ _ => rfl, h.cli.push (by omega) _⟩

theorem AtCommon.bareStub (h : AtCommon s u ws) (hlen : ws.length ≤ 5) (n : Nat) :
    ∃ v, (∀ env fuel, run code env (fuel + 3) (ShawnOS.bareStub n) u = run code env fuel (code .isrCommonStub) v) ∧
      AtCommon s v ((BitVec.ofNat 8 n).signExtend 32 :: 0 :: ws) :=
  ⟨_, fun _ _ => rfl, (h.push (by omega) 0).push (by rw [List.length_cons]; omega) _⟩

/-- `_isr7` jumps away before its last instruction. -/
theorem AtCommon.isrSeven (h : AtCommon s u ws) (hlen : ws.length ≤ 5) :
    ∃ v, (∀ env fuel, run code env (fuel + 3) (isrStub 7) u = run code env fuel (code .isrCommonStub) v) ∧
      AtCommon s v (0 :: ws) :=
  ⟨_, fun _ _ => rfl, h.cli.push (by omega) _⟩

theorem isrStub_code {n : Nat} (h : n = 8 ∨ (10 ≤ n ∧ n ≤ 14)) : isrStub n = codeStub n := by
  obtain rfl | rfl | rfl | rfl | rfl | rfl : n = 8 ∨ n = 10 ∨ n = 11 ∨ n = 12 ∨ n = 13 ∨ n = 14 := by omega
  all_goals rfl

theorem isrStub_bare {n : Nat} (h : 27 ≤ n) (h' : n < 32) : isrStub n = bareStub n := by
  obtain rfl | rfl | rfl | rfl | rfl : n = 27 ∨ n = 28 ∨ n = 29 ∨ n = 30 ∨ n = 31 := by omega
  all_goals rfl

theorem isrStub_stub {n : Nat} (h : n < 27) (h7 : n ≠ 7) (h8 : n ≠ 8) (h10 : n < 10 ∨ 14 < n) :
    isrStub n = stub n .isrCommonStub := by
  rw [isrStub]
  all_goals omega

theorem pushesErrorCode_iff {n : Nat} : pushesErrorCode n = true ↔ n = 8 ∨ n = 17 ∨ (10 ≤ n ∧ n ≤ 14) := by
  simp [pushesErrorCode, or_assoc]

theorem vector_word {n : Nat} (h : n < 48) : (BitVec.ofNat 8 n).signExtend 32 = BitVec.ofNat 32 n := by
  revert n
  decide

/-- **Up to the common part.** All vectors but two have pushed their number
and an error code. -/
theorem vectorStub_reaches {faultHandler irqHandler errCode : BitVec 32} {n : Nat} (hn : n < 48) (h7 : n ≠ 7) (h17 : n ≠ 17) :
    ∃ v k, (∀ env, takeInterrupt env faultHandler irqHandler n errCode s =
        run (stubCode faultHandler irqHandler) env (k + 22) (commonStub (vectorHandler faultHandler irqHandler n)) v) ∧
      AtCommon s v [BitVec.ofNat 32 n, if pushesErrorCode n then errCode else 0, s.eip, s.cs.setWidth 32, s.eflags] := by
  have hstart := atCommon_interrupt s (if pushesErrorCode n then some errCode else none)
  have hcode := @pushesErrorCode_iff n
  rw [← vector_word hn]
  simp only [takeInterrupt]
  by_cases hpush : n = 8 ∨ (10 ≤ n ∧ n ≤ 14)
  · rw [if_pos (hcode.mpr (by omega))] at hstart ⊢
    rw [if_pos (hcode.mpr (by omega)), vectorStub, if_pos (by omega), vectorHandler, if_pos (by omega), stubCode,
      isrStub_code hpush]
    obtain ⟨v, hrun, hv⟩ := hstart.codeStub (by simp) n
    exact ⟨v, 7, fun env => hrun env 29, hv⟩
  · rw [if_neg (fun hp => by have := hcode.mp hp; omega)] at hstart ⊢
    rw [if_neg (fun hp => by have := hcode.mp hp; omega)]
    by_cases hirq : 32 ≤ n
    · rw [vectorStub, if_neg (by omega), vectorHandler, if_neg (by omega), stubCode, irqStub, Nat.sub_add_cancel hirq]
      obtain ⟨v, hrun, hv⟩ := hstart.stub (by simp) n .irqCommonStub
      exact ⟨v, 6, fun env => hrun env 28, hv⟩
    · rw [vectorStub, if_pos (by omega), vectorHandler, if_pos (by omega), stubCode]
      by_cases hbare : 27 ≤ n
      · rw [isrStub_bare hbare (by omega)]
        obtain ⟨v, hrun, hv⟩ := hstart.bareStub (by simp) n
        exact ⟨v, 7, fun env => hrun env 29, hv⟩
      · rw [isrStub_stub (by omega) h7 (by omega) (by omega)]
        obtain ⟨v, hrun, hv⟩ := hstart.stub (by simp) n .isrCommonStub
        exact ⟨v, 6, fun env => hrun env 28, hv⟩

/-! ## There and back -/

/-- The interrupt `n` of `s` calls its handler with the registers of `s`,
with interrupts off, and `iret` goes on in `s` once the handler has
returned. -/
def Resumes (link : BitVec 32) (sumFlags : BitVec 32 → BitVec 32 → BitVec 32 → BitVec 32)
    (faultHandler irqHandler : BitVec 32) (n : Nat) (errCode : BitVec 32) (s : State) : Prop :=
  ∃ e, HandlerEntry link s e (.ofState s (.ofNat 32 n) (if pushesErrorCode n then errCode else 0) (s.gpr .esp - 20)) ∧
    ∀ f t, f (vectorHandler faultHandler irqHandler n) e = some t → Returned 68 e t →
      takeInterrupt ⟨f, link, sumFlags⟩ faultHandler irqHandler n errCode s = some { s with mem := t.mem }

/-- The saved context and what the stub pushed make up the struct. -/
theorem AtCommon.words {intNo errCode : BitVec 32}
    (h : AtCommon s u [intNo, errCode, s.eip, s.cs.setWidth 32, s.eflags]) :
    contextWords u ++ [intNo, errCode, s.eip, s.cs.setWidth 32, s.eflags] =
      (I386Registers.ofState s intNo errCode (s.gpr .esp - 20)).words := by
  have hesp := h.pushed.esp
  simp only [List.length_cons, List.length_nil] at hesp
  simp [contextWords, pushaOrder, I386Registers.words, I386Registers.ofState, h.seg, h.gpr, hesp]

/-- The frame of `s` restores `s`. -/
theorem restored_ofState (intNo errCode esp : BitVec 32) {a : BitVec 32} (ha : a + 68 = s.gpr .esp) (m : Mem) :
    (I386Registers.ofState s intNo errCode esp).restored a m = { s with mem := m } := by
  simp only [I386Registers.restored, I386Registers.ofState, State.mk.injEq, and_true]
  refine ⟨?_, ?_, ?_⟩
  · funext r
    cases r
    all_goals first | rfl | exact ha
  · funext g
    cases g
    all_goals simp
  · simp

theorem resumes_of_reaches {link : BitVec 32} {sumFlags : BitVec 32 → BitVec 32 → BitVec 32 → BitVec 32}
    {faultHandler irqHandler errCode : BitVec 32} {n : Nat} (hn : n < 48) (h7 : n ≠ 7) (h17 : n ≠ 17) :
    Resumes link sumFlags faultHandler irqHandler n errCode s := by
  obtain ⟨v, k, hreach, hv⟩ := vectorStub_reaches
    (s := s) hn h7 h17
  obtain ⟨e, hcall, hpushed, hseg, hflags⟩ := commonStub_enter
    (vectorHandler faultHandler irqHandler n) link hv.pushed (by simp)
  rw [hv.words] at hpushed
  refine ⟨e, ⟨hpushed, hseg, by rw [hflags]; exact hv.off⟩, fun f t hf hret => ?_⟩
  have hfunction : (⟨f, link, sumFlags⟩ : Env).function (vectorHandler faultHandler irqHandler n) e = some t := hf
  have hnext : e.gpr .esp + 4 + 4 = e.gpr .esp + 8 := by bv_omega
  -- The handler has left the frame, whatever it wrote over its argument.
  have hframe := hpushed.stack.2.2
  rw [hnext] at hframe
  have hstack : OnStack t (t.top :: (I386Registers.ofState s (.ofNat 32 n) (if pushesErrorCode n then errCode else 0)
      (s.gpr .esp - 20)).words) := by
    refine ⟨rfl, ?_⟩
    rw [hret.esp, hnext]
    exact hframe.congr (by simp [I386Registers.words]) hret.kept
  have hesp := hpushed.esp
  simp only [List.length_cons, I386Registers.words, List.length_nil] at hesp
  rw [hreach, show k + 22 = k + 8 + 14 by omega, hcall _ (k + 8) rfl, hfunction, Option.bind_some,
    afterCall_restores hstack]
  refine congrArg some (restored_ofState _ _ _ ?_ _)
  rw [hret.esp, hesp]
  bv_omega

/-- The stack always holds some frame. -/
theorem exists_frame (m : Mem) (a : BitVec 32) : ∃ r : I386Registers, Stack m a r.words := by
  refine ⟨⟨_, _, _, _, _, _, _, _, _, _, _, _, _, _, _, _, _⟩, rfl, rfl, rfl, rfl, rfl, rfl, rfl, rfl, rfl, rfl, rfl, rfl, rfl,
    rfl, rfl, rfl, rfl, trivial⟩

/-- A handler that returns at once. -/
def returnAtOnce (_ : BitVec 32) (e : State) : Option State := some e.drop

theorem returned_drop (n : Nat) (e : State) : Returned n e e.drop := ⟨drop_esp, fun _ _ => rfl⟩

/-- Wherever the common part began, it ends five words further up. -/
theorem commonStub_esp (handler link : BitVec 32) (u : State) : ∃ t, ∀ sumFlags k,
    run code ⟨returnAtOnce, link, sumFlags⟩ (k + 22) (commonStub handler) u = some t ∧
      t.gpr .esp = u.gpr .esp + 20 := by
  obtain ⟨e, hcall, hpushed, -, -⟩ := commonStub_enter handler link (Pushed.refl (s := u)) (by simp)
  obtain ⟨r, hframe⟩ := exists_frame e.drop.mem (e.drop.gpr .esp + 4)
  refine ⟨r.restored (e.drop.gpr .esp + 4) e.drop.mem, fun sumFlags k => ⟨?_, ?_⟩⟩
  · have hfunction : (⟨returnAtOnce, link, sumFlags⟩ : Env).function handler e = some e.drop := rfl
    rw [show k + 22 = k + 8 + 14 by omega, hcall _ (k + 8) rfl, hfunction, Option.bind_some,
      afterCall_restores ⟨rfl, hframe⟩]
  · have hesp := hpushed.esp
    simp only [List.length_cons, List.append_nil, contextWords_length] at hesp
    have hlast : (r.restored (e.drop.gpr .esp + 4) e.drop.mem).gpr .esp = e.drop.gpr .esp + 4 + 68 := rfl
    rw [hlast, drop_esp, hesp]
    bv_omega

section Frames

variable {link faultHandler irqHandler errCode : BitVec 32} {sumFlags : BitVec 32 → BitVec 32 → BitVec 32 → BitVec 32} {n : Nat}

/-- A stub that pushed too little or too much does not come back. -/
theorem not_resumes {k : Nat} {handler : BitVec 32}
    (hreach : ∀ env, takeInterrupt env faultHandler irqHandler n errCode s =
      run (stubCode faultHandler irqHandler) env (k + 22) (commonStub handler) u) (hesp : u.gpr .esp + 20 ≠ s.gpr .esp) :
    ¬ Resumes link sumFlags faultHandler irqHandler n errCode s := by
  rintro ⟨e, -, hresume⟩
  obtain ⟨t, hend⟩ := commonStub_esp handler link u
  obtain ⟨hrun, htop⟩ := hend sumFlags k
  have hback := hresume returnAtOnce e.drop rfl (returned_drop 68 e)
  rw [hreach, hrun, Option.some.injEq] at hback
  rw [hback] at htop
  exact hesp htop.symm

/-- The stub of vector 7 has pushed the `0` only. -/
theorem not_resumes_seven : ¬ Resumes link sumFlags faultHandler irqHandler 7 errCode s := by
  obtain ⟨v, hrun, hv⟩ := (atCommon_interrupt s none).isrSeven (by simp)
  refine not_resumes (k := 7) (fun env => hrun env 29) ?_
  rw [hv.pushed.esp]
  simp only [Option.toList, List.nil_append, List.length_cons, List.length_nil]
  bv_omega

/-- The stub of vector 17 has pushed a second error code. -/
theorem not_resumes_seventeen : ¬ Resumes link sumFlags faultHandler irqHandler 17 errCode s := by
  obtain ⟨v, hrun, hv⟩ := (atCommon_interrupt s (some errCode)).stub (by simp)
    17 .isrCommonStub
  refine not_resumes (k := 6) (fun env => hrun env 28) ?_
  rw [hv.pushed.esp]
  simp only [Option.toList, List.cons_append, List.nil_append, List.length_cons, List.length_nil]
  bv_omega

/-- Only these two do not come back. -/
theorem ne_of_resumes (h : Resumes link sumFlags faultHandler irqHandler n errCode s) : n ≠ 7 ∧ n ≠ 17 := by
  constructor
  · rintro rfl
    exact not_resumes_seven h
  · rintro rfl
    exact not_resumes_seventeen h

end Frames

/-- **The interrupt stubs.** Whatever the interrupted state and whatever the
handler does to memory below its frame and elsewhere, an exception or an IRQ
calls its handler with the registers of the interrupted program and goes on
there, for exactly the vectors other than 7 and 17. -/
theorem interrupt_resumes_iff (link faultHandler irqHandler errCode : BitVec 32)
    (sumFlags : BitVec 32 → BitVec 32 → BitVec 32 → BitVec 32) (s : State) (n : Nat) (hn : n < 48) :
    Resumes link sumFlags faultHandler irqHandler n errCode s ↔ n ≠ 7 ∧ n ≠ 17 :=
  ⟨ne_of_resumes, fun ⟨h7, h17⟩ => resumes_of_reaches hn h7 h17⟩

/-- The timer's IRQ in a running kernel. -/
theorem interrupt_resumes_timer : Resumes 0x100100 (fun f _ _ => f) 0x101000 0x102000 32 0
    ⟨fun _ => 0x160000, fun _ => 0x10, 0x08, 0x103000, 0x202, fun _ => 0⟩ :=
  (interrupt_resumes_iff 0x100100 0x101000 0x102000 0 (fun f _ _ => f) _ 32 (by decide)).mpr (by decide)

end ShawnOS
