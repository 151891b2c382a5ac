/-
A stack machine of 32-bit words, as interrupt entry code sees the x86.

Memory is bytes, a word four of them with the lowest first, and the stack
grows down. `Stack m sp ws` reads the words from `sp` up as the list `ws`:
a push makes it longer, a pop shorter, and a store elsewhere leaves it. What
a called function does is a parameter, as are the return address and the
arithmetic flags.
-/
import Mathlib.Data.BitVec
import Mathlib.Logic.Function.Basic

namespace X86

/-! ## Words in memory -/

/-- Byte memory. -/
abbrev Mem := BitVec 32 → BitVec 8

/-- The word at an address. -/
def load32 (m : Mem) (a : BitVec 32) : BitVec 32 := m (a + 3) ++ m (a + 2) ++ m (a + 1) ++ m a

/-- A word stored at an address. -/
def store32 (m : Mem) (a x : BitVec 32) : Mem := fun b =>
  if (b - a).toNat < 4 then x.extractLsb' (8 * (b - a).toNat) 8 else m b

variable {m m' : Mem} {a b sp x w : BitVec 32} {ws : List (BitVec 32)}

theorem load32_store32 : load32 (store32 m a x) a = x := by
  have h (k : BitVec 32) : a + k - a = k := by
    rw [BitVec.add_comm]
    exact BitVec.add_sub_cancel k a
  simp only [load32, store32, h, BitVec.sub_self]
  apply BitVec.eq_of_getLsbD_eq
  intro i hi
  simp only [BitVec.getLsbD_append]
  grind

/-- A word apart from the one stored. -/
theorem load32_store32_ne (h : 4 ≤ (b - a).toNat) (h' : (b - a).toNat ≤ 2 ^ 32 - 4) :
    load32 (store32 m a x) b = load32 m b := by
  have h0 : ¬ (b - a).toNat < 4 := by omega
  have h1 : ¬ (b + 1 - a).toNat < 4 := by bv_omega
  have h2 : ¬ (b + 2 - a).toNat < 4 := by bv_omega
  have h3 : ¬ (b + 3 - a).toNat < 4 := by bv_omega
  simp only [load32, store32, if_neg h0, if_neg h1, if_neg h2, if_neg h3]

/-- The bytes outside the `n` from `lo` on are the same. -/
def SameOutside (lo : BitVec 32) (n : Nat) (m m' : Mem) : Prop := ∀ a, n ≤ (a - lo).toNat → m' a = m a

/-- The `n` bytes from `lo` on are the same. -/
def SameWithin (lo : BitVec 32) (n : Nat) (m m' : Mem) : Prop := ∀ a, (a - lo).toNat < n → m' a = m a

theorem load32_congr {lo : BitVec 32} {n : Nat} (h : SameWithin lo n m m') (ha : (a - lo).toNat + 4 ≤ n)
    (hn : n ≤ 2 ^ 32) : load32 m' a = load32 m a := by
  rw [load32, h a (by omega), h (a + 1) (by bv_omega), h (a + 2) (by bv_omega), h (a + 3) (by bv_omega), load32]

theorem SameOutside.refl {lo : BitVec 32} {n : Nat} : SameOutside lo n m m := fun _ _ => rfl

theorem SameOutside.trans {m'' : Mem} {lo : BitVec 32} {n : Nat} (h : SameOutside lo n m m')
    (h' : SameOutside lo n m' m'') : SameOutside lo n m m'' := fun a ha => (h' a ha).trans (h a ha)

/-- The bytes `bs` stored from the address `a` on. -/
def storeBytes (m : Mem) (a : BitVec 32) (bs : List (BitVec 8)) : Mem := fun b => (bs[(b - a).toNat]?).getD (m b)

theorem storeBytes_outside {bs : List (BitVec 8)} : SameOutside a bs.length m (storeBytes m a bs) := by
  intro b hb
  rw [storeBytes, List.getElem?_eq_none hb, Option.getD_none]

theorem SameOutside.mono {lo lo' : BitVec 32} {n n' : Nat} (h : SameOutside lo n m m')
    (hle : (lo - lo').toNat + n ≤ n') : SameOutside lo' n' m m' := by
  refine fun a ha => h a ?_
  bv_omega

theorem store32_outside : SameOutside a 4 m (store32 m a x) := fun _ hb => if_neg (Nat.not_lt.mpr hb)

theorem SameWithin.mono {lo lo' : BitVec 32} {n n' : Nat} (h : SameWithin lo n m m') (hn : n < 2 ^ 32)
    (hle : (lo' - lo).toNat + n' ≤ n) : SameWithin lo' n' m m' := by
  refine fun a ha => h a ?_
  bv_omega

/-! ## Variables in memory -/

/-- Some bytes, by their address and their number. -/
abbrev Extent := BitVec 32 × Nat

/-- Neither begins in the other. -/
def Apart (x y : Extent) : Prop := x.2 ≤ (y.1 - x.1).toNat ∧ y.2 ≤ (x.1 - y.1).toNat

instance (x y : Extent) : Decidable (Apart x y) := inferInstanceAs (Decidable (_ ∧ _))

/-- Outside the extents the bytes are the same. -/
def StoresOnly (xs : List Extent) (m m' : Mem) : Prop := ∀ a, (∀ x ∈ xs, x.2 ≤ (a - x.1).toNat) → m' a = m a

variable {xs ys : List Extent}

theorem SameOutside.storesOnly {lo : BitVec 32} {n : Nat} (h : SameOutside lo n m m') (hx : (lo, n) ∈ xs) :
    StoresOnly xs m m' := fun a ha => h a (ha _ hx)

theorem StoresOnly.refl : StoresOnly xs m m := fun _ _ => rfl

theorem StoresOnly.trans {m'' : Mem} (h : StoresOnly xs m m') (h' : StoresOnly xs m' m'') : StoresOnly xs m m'' :=
  fun a ha => (h' a ha).trans (h a ha)

/-- Each extent lies in one of the others. -/
theorem StoresOnly.mono (h : StoresOnly xs m m') (hsub : ∀ x ∈ xs, ∃ y ∈ ys, (x.1 - y.1).toNat + x.2 ≤ y.2) :
    StoresOnly ys m m' := by
  refine fun a ha => h a fun x hx => ?_
  obtain ⟨y, hy, hle⟩ := hsub x hx
  have hout := ha y hy
  bv_omega

theorem StoresOnly.subset (h : StoresOnly xs m m') (hsub : xs ⊆ ys) : StoresOnly ys m m' :=
  fun a ha => h a fun x hx => ha x (hsub hx)

/-- What lies apart from all of them is the same. -/
theorem StoresOnly.within {lo : BitVec 32} {n : Nat} (h : StoresOnly xs m m') (hn : n < 2 ^ 32)
    (hapart : ∀ x ∈ xs, Apart x (lo, n)) : SameWithin lo n m m' := by
  refine fun a ha => h a fun x hx => ?_
  obtain ⟨hge, hge'⟩ := hapart x hx
  dsimp only at hge hge'
  bv_omega

/-! ## The stack as a list -/

/-- The words from `sp` up. -/
def Stack (m : Mem) (sp : BitVec 32) : List (BitVec 32) → Prop
  | [] => True
  | w :: ws => load32 m sp = w ∧ Stack m (sp + 4) ws

/-- A store below the words leaves them. -/
theorem Stack.store_below : ∀ {ws : List (BitVec 32)} {sp : BitVec 32}, Stack m sp ws → 4 ≤ (sp - a).toNat →
    (sp - a).toNat + 4 * ws.length ≤ 2 ^ 32 → Stack (store32 m a x) sp ws
  | [], _, _, _, _ => trivial
  | w :: ws, sp, ⟨hw, hws⟩, h4, hle => by
    rw [List.length_cons] at hle
    refine ⟨(load32_store32_ne h4 (by omega)).trans hw, ?_⟩
    cases ws with
    | nil => trivial
    | cons v vs =>
      rw [List.length_cons] at hle
      have hnext : (sp + 4 - a).toNat = (sp - a).toNat + 4 := by bv_omega
      exact hws.store_below (by omega) (by rw [hnext, List.length_cons]; omega)

theorem Stack.push (h : Stack m sp ws) (hlen : 4 * (ws.length + 1) ≤ 2 ^ 32) :
    Stack (store32 m (sp - 4) x) (sp - 4) (x :: ws) := by
  have hdist : (sp - (sp - 4)).toNat = 4 := by bv_omega
  have hback : sp - 4 + 4 = sp := BitVec.sub_add_cancel sp 4
  refine ⟨load32_store32, ?_⟩
  rw [hback]
  exact h.store_below (by omega) (by omega)

/-- A stack whose words are left alone. -/
theorem Stack.congr : ∀ {ws : List (BitVec 32)} {sp : BitVec 32}, Stack m sp ws → 4 * ws.length ≤ 2 ^ 32 →
    SameWithin sp (4 * ws.length) m m' → Stack m' sp ws
  | [], _, _, _, _ => trivial
  | w :: ws, sp, ⟨hw, hws⟩, hlen, hsame => by
    rw [List.length_cons] at hlen hsame
    refine ⟨(load32_congr hsame (by simp only [BitVec.sub_self, BitVec.toNat_ofNat, Nat.zero_mod]; omega) (by omega)).trans hw, ?_⟩
    refine hws.congr (by omega) fun a ha => hsame a ?_
    bv_omega

/-! ## Machine states -/

inductive Reg where
  | eax | ecx | edx | ebx | esp | ebp | esi | edi
  deriving DecidableEq

inductive Seg where
  | ds | es | fs | gs
  deriving DecidableEq

/-- The registers, and memory. -/
structure State where
  gpr : Reg → BitVec 32
  seg : Seg → BitVec 16
  cs : BitVec 16
  eip : BitVec 32
  eflags : BitVec 32
  mem : Mem

namespace State

def set (s : State) (r : Reg) (x : BitVec 32) : State := { s with gpr := Function.update s.gpr r x }

def setSeg (s : State) (g : Seg) (x : BitVec 16) : State := { s with seg := Function.update s.seg g x }

def push (s : State) (x : BitVec 32) : State :=
  { s.set .esp (s.gpr .esp - 4) with mem := store32 s.mem (s.gpr .esp - 4) x }

/-- Push all, the first of the list first. -/
def pushAll (s : State) (xs : List (BitVec 32)) : State := xs.foldl push s

/-- The word on top of the stack. -/
def top (s : State) : BitVec 32 := load32 s.mem (s.gpr .esp)

/-- One word less. -/
def drop (s : State) : State := s.set .esp (s.gpr .esp + 4)

end State

/-- Interrupt entry code, and what surrounds it. -/
inductive Instr (label : Type) where
  | cli
  | pushByte (x : BitVec 8)
  | pusha
  | popa
  | push (r : Reg)
  | pop (r : Reg)
  | pushSeg (g : Seg)
  | popSeg (g : Seg)
  | movAx (x : BitVec 16)
  | movSeg (g : Seg) (r : Reg)
  | mov (d r : Reg)
  | movImm (d : Reg) (x : BitVec 32)
  | addEsp (x : BitVec 8)
  | call (r : Reg)
  | jmp (l : label)
  | iret

/-- What the code runs in: the functions it calls, each up to its `ret`; the
return address; and the flags that an addition leaves. -/
structure Env where
  function : BitVec 32 → State → Option State
  link : BitVec 32
  sumFlags : BitVec 32 → BitVec 32 → BitVec 32 → BitVec 32

/-- The registers in the order of `pusha`. -/
def pushaOrder : List Reg := [.eax, .ecx, .edx, .ebx, .esp, .ebp, .esi, .edi]

/-- `IF`. -/
def interruptFlag : BitVec 32 := 0x200

namespace State

/-- `pop`. -/
def pop (s : State) (r : Reg) : State := s.drop.set r s.top

/-- `popa`, which passes over the saved `esp`. -/
def popa (s : State) : State :=
  (((((((s.pop .edi).pop .esi).pop .ebp).drop).pop .ebx).pop .edx).pop .ecx).pop .eax

def popSeg (s : State) (g : Seg) : State := s.drop.setSeg g (s.top.setWidth 16)

/-- `iret`, within one privilege level. -/
def iret (s : State) : State :=
  { s.drop.drop.drop with eip := s.top, cs := s.drop.top.setWidth 16, eflags := s.drop.drop.top }

/-- The processor enters an interrupt gate of its own privilege level. -/
def interrupt (s : State) (selector : BitVec 16) (code : Option (BitVec 32)) : State :=
  { s.pushAll ([s.eflags, s.cs.setWidth 32, s.eip] ++ code.toList) with
    cs := selector
    eflags := s.eflags &&& ~~~ 0x34300 }

end State

/-- The instructions that are not jumps. -/
def exec {label : Type} (env : Env) (s : State) : Instr label → Option State
  | .cli => some { s with eflags := s.eflags &&& ~~~ interruptFlag }
  | .pushByte x => some (s.push (x.signExtend 32))
  | .pusha => some (s.pushAll (pushaOrder.map s.gpr))
  | .popa => some s.popa
  | .push r => some (s.push (s.gpr r))
  | .pop r => some (s.pop r)
  | .pushSeg g => some (s.push ((s.seg g).setWidth 32))
  | .popSeg g => some (s.popSeg g)
  | .movAx x => some (s.set .eax ((s.gpr .eax &&& 0xFFFF0000) ||| x.setWidth 32))
  | .movSeg g r => some (s.setSeg g ((s.gpr r).setWidth 16))
  | .mov d r => some (s.set d (s.gpr r))
  | .movImm d x => some (s.set d x)
  | .addEsp x => some { s.set .esp (s.gpr .esp + x.signExtend 32) with
      eflags := env.sumFlags s.eflags (s.gpr .esp) (x.signExtend 32) }
  | .call r => env.function (s.gpr r) (s.push env.link)
  | .jmp _ => none
  | .iret => none

/-- Run code up to its `iret`, for `fuel` instructions at most. -/
def run {label : Type} (code : label → List (Instr label)) (env : Env) :
    (fuel : Nat) → List (Instr label) → State → Option State
  | 0, _, _ => none
  | _ + 1, [], _ => none
  | _ + 1, .iret :: _, s => some s.iret
  | fuel + 1, .jmp l :: _, s => run code env fuel (code l) s
  | fuel + 1, i :: is, s => do
    let s ← exec env s i
    run code env fuel is s

section Rules

variable {label : Type} {code : label → List (Instr label)} {env : Env} {fuel : Nat} {is : List (Instr label)} {s s' t : State}

/-- One instruction. -/
theorem run_cons {i : Instr label} (h : exec env s i = some s') :
    run code env (fuel + 1) (i :: is) s = run code env fuel is s' := by
  cases i with
  | jmp | iret => cases h
  | _ => simp only [run, h, Option.bind_eq_bind, Option.bind_some]

theorem run_iret : run code env (fuel + 1) (.iret :: is) s = some s.iret := rfl

@[simp] theorem push_gpr (r : Reg) (x : BitVec 32) (hr : r ≠ .esp) : (s.push x).gpr r = s.gpr r :=
  Function.update_of_ne hr ..

@[simp] theorem push_esp (x : BitVec 32) : (s.push x).gpr .esp = s.gpr .esp - 4 := by
  simp [State.push, State.set]

@[simp] theorem drop_esp : s.drop.gpr .esp = s.gpr .esp + 4 := by
  simp [State.drop, State.set]

/-! ## Pushes -/

/-- Since `s`, the words `ws` were pushed, the last one first, and nothing
else was stored. -/
structure Pushed (s s' : State) (ws : List (BitVec 32)) : Prop where
  esp : s'.gpr .esp = s.gpr .esp - BitVec.ofNat 32 (4 * ws.length)
  stack : Stack s'.mem (s'.gpr .esp) ws
  mem : SameOutside (s'.gpr .esp) (4 * ws.length) s.mem s'.mem

theorem Pushed.refl : Pushed s s [] := ⟨by simp, trivial, .refl⟩

/-- Nothing more was stored or pushed. -/
theorem Pushed.same {ws : List (BitVec 32)} (h : Pushed s s' ws) (hesp : t.gpr .esp = s'.gpr .esp) (hmem : t.mem = s'.mem) :
    Pushed s t ws := by
  refine ⟨hesp.trans h.esp, ?_, ?_⟩
  · rw [hesp, hmem]
    exact h.stack
  · rw [hesp, hmem]
    exact h.mem

theorem Pushed.push {ws : List (BitVec 32)} (h : Pushed s s' ws) (hlen : 4 * (ws.length + 1) ≤ 2 ^ 32) (x : BitVec 32) :
    Pushed s (s'.push x) (x :: ws) := by
  refine ⟨?_, ?_, fun a ha => ?_⟩
  · rw [push_esp, h.esp, List.length_cons]
    bv_omega
  · rw [push_esp]
    exact h.stack.push hlen
  · rw [push_esp, List.length_cons] at ha
    have hfar : ¬ (a - (s'.gpr .esp - 4)).toNat < 4 := by omega
    have hstep : store32 s'.mem (s'.gpr .esp - 4) x a = s'.mem a := if_neg hfar
    exact hstep.trans (h.mem a (by bv_omega))

theorem Pushed.pushAll : ∀ {xs ws : List (BitVec 32)} {s' : State}, Pushed s s' ws →
    4 * (xs.length + ws.length) ≤ 2 ^ 32 → Pushed s (s'.pushAll xs) (xs.reverse ++ ws)
  | [], _, _, h, _ => h
  | x :: xs, ws, s', h, hlen => by
    rw [List.length_cons] at hlen
    have hrest : Pushed s ((s'.push x).pushAll xs) (xs.reverse ++ x :: ws) :=
      (h.push (by omega) x).pushAll (by rw [List.length_cons]; omega)
    rw [List.reverse_cons, List.append_assoc]
    exact hrest

theorem pushAll_seg : ∀ {xs : List (BitVec 32)} {s : State}, (s.pushAll xs).seg = s.seg
  | [], _ => rfl
  | x :: _, s => pushAll_seg (s := s.push x)

theorem pushAll_eflags : ∀ {xs : List (BitVec 32)} {s : State}, (s.pushAll xs).eflags = s.eflags
  | [], _ => rfl
  | x :: _, s => pushAll_eflags (s := s.push x)

theorem pushAll_gpr (r : Reg) (hr : r ≠ .esp) : ∀ {xs : List (BitVec 32)} {s : State}, (s.pushAll xs).gpr r = s.gpr r
  | [], _ => rfl
  | x :: _, s => (pushAll_gpr (s := s.push x) r hr).trans (push_gpr r x hr)

/-! ## Pops -/

theorem set_esp (r : Reg) (x : BitVec 32) (hr : r ≠ .esp) : (s.set r x).gpr .esp = s.gpr .esp :=
  Function.update_of_ne (Ne.symm hr) ..

variable {w : BitVec 32} {ws : List (BitVec 32)}

/-- The words on top of the stack of `s`. -/
def OnStack (s : State) (ws : List (BitVec 32)) : Prop := Stack s.mem (s.gpr .esp) ws

theorem OnStack.top (h : OnStack s (w :: ws)) : s.top = w := h.1

theorem OnStack.drop (h : OnStack s (w :: ws)) : OnStack s.drop ws := by
  rw [OnStack, drop_esp]
  exact h.2

theorem OnStack.set {r : Reg} (h : OnStack s ws) (hr : r ≠ .esp) (x : BitVec 32) : OnStack (s.set r x) ws := by
  rw [OnStack, set_esp r x hr]
  exact h

/-- A register takes the top word. -/
theorem OnStack.pop {r : Reg} (h : OnStack s (w :: ws)) (hr : r ≠ .esp) :
    s.pop r = s.drop.set r w ∧ OnStack (s.pop r) ws := by
  have hpop : s.pop r = s.drop.set r w := by rw [State.pop, h.top]
  exact ⟨hpop, hpop ▸ h.drop.set hr w⟩

theorem OnStack.popSeg {g : Seg} (h : OnStack s (w :: ws)) :
    s.popSeg g = s.drop.setSeg g (w.setWidth 16) ∧ OnStack (s.popSeg g) ws := by
  have hpop : s.popSeg g = s.drop.setSeg g (w.setWidth 16) := by rw [State.popSeg, h.top]
  exact ⟨hpop, hpop ▸ h.drop⟩

/-- The general registers that `popa` loads, with `esp` as it leaves it. -/
def popaGpr (edi esi ebp ebx edx ecx eax esp : BitVec 32) : Reg → BitVec 32
  | .edi => edi
  | .esi => esi
  | .ebp => ebp
  | .esp => esp
  | .ebx => ebx
  | .edx => edx
  | .ecx => ecx
  | .eax => eax

theorem OnStack.popa {edi esi ebp esp ebx edx ecx eax : BitVec 32}
    (h : OnStack s (edi :: esi :: ebp :: esp :: ebx :: edx :: ecx :: eax :: ws)) :
    s.popa = { s with gpr := popaGpr edi esi ebp ebx edx ecx eax (s.gpr .esp + 32) } ∧ OnStack s.popa ws := by
  obtain ⟨e₁, h₁⟩ := h.pop (r := .edi) (by decide)
  obtain ⟨e₂, h₂⟩ := h₁.pop (r := .esi) (by decide)
  obtain ⟨e₃, h₃⟩ := h₂.pop (r := .ebp) (by decide)
  obtain ⟨e₄, h₄⟩ := h₃.drop.pop (r := .ebx) (by decide)
  obtain ⟨e₅, h₅⟩ := h₄.pop (r := .edx) (by decide)
  obtain ⟨e₆, h₆⟩ := h₅.pop (r := .ecx) (by decide)
  obtain ⟨e₇, h₇⟩ := h₆.pop (r := .eax) (by decide)
  refine ⟨?_, h₇⟩
  rw [State.popa, e₇, e₆, e₅, e₄, e₃, e₂, e₁]
  simp only [State.set, State.drop, State.mk.injEq, and_self, and_true]
  funext r
  cases r
  all_goals simp [popaGpr, BitVec.add_assoc]

/-- `add esp, 8` takes two words off. -/
theorem OnStack.skip {v f : BitVec 32} (h : OnStack s (v :: w :: ws)) :
    OnStack { s.set .esp (s.gpr .esp + 8) with eflags := f } ws := by
  have hesp : (s.set .esp (s.gpr .esp + 8)).gpr .esp = s.gpr .esp + 4 + 4 := by
    rw [BitVec.add_assoc]
    simp [State.set]
  rw [OnStack, hesp]
  exact h.2.2

/-- What `iret` loads. -/
theorem OnStack.iret {eip cs eflags : BitVec 32} (h : OnStack s (eip :: cs :: eflags :: ws)) :
    s.iret = { s.drop.drop.drop with eip := eip, cs := cs.setWidth 16, eflags := eflags } := by
  rw [State.iret, h.top, h.drop.top, h.drop.drop.top]

end Rules

end X86
