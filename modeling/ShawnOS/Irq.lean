/-
IRQs (`arch/i386/irq.c`).

`__irq_remap` programs the two interrupt controllers, and `_irq_handler`
calls the routine of a line and ends its interrupt at one controller or at
both. Routines may turn interrupts back on, so handlers nest; an interrupt is
ended without being named, and each handler has to end its own.
-/
import ShawnOS.Lib.Pic
import Mathlib.Data.List.Perm.Basic
import Mathlib.Logic.Relation

namespace ShawnOS

open Pic

/-- `outportb`, to the ports of the controllers. -/
def picOutportb (p : Pair) (port : Nat) (value : BitVec 8) : Option Pair :=
  if port = 0x20 then (p.master.command value).map fun c => { p with master := c }
  else if port = 0x21 then (p.master.data value).map fun c => { p with master := c }
  else if port = 0xA0 then (p.slave.command value).map fun c => { p with slave := c }
  else if port = 0xA1 then (p.slave.data value).map fun c => { p with slave := c }
  else none

/-- `__irq_remap`. -/
def irqRemap (p : Pair) : Option Pair := do
  let p ← picOutportb p 0x20 0x11
  let p ← picOutportb p 0xA0 0x11
  let p ← picOutportb p 0x21 0x20
  let p ← picOutportb p 0xA1 0x28
  let p ← picOutportb p 0x21 0x04
  let p ← picOutportb p 0xA1 0x02
  let p ← picOutportb p 0x21 0x01
  let p ← picOutportb p 0xA1 0x01
  let p ← picOutportb p 0x21 0x0
  picOutportb p 0xA1 0x0

/-- How far `_irq_handler` has come. -/
inductive Progress where
  | entered | called | slaveAcked | acked
  deriving DecidableEq

/-- A running `_irq_handler`. -/
structure Handling where
  intNo : Nat
  progress : Progress
  deriving DecidableEq

/-- The controllers, the processor's `IF`, the running handlers (the innermost
first) and `irq_routines`; with the vectors taken and the routines called so
far, the last first. -/
structure IrqState (ρ : Type) where
  chips : Pair
  enabled : Bool
  active : List Handling
  routines : List (Option ρ)
  taken : List Nat
  called : List (Nat × Option ρ)

variable {ρ : Type}

/-- What the innermost handler does next, up to `iret`. -/
def IrqState.irqHandler (s : IrqState ρ) : Option (IrqState ρ) :=
  match s.active with
  | [] => none
  | ⟨n, .entered⟩ :: rest => do
    let handler ← s.routines[n - 32]?
    some { s with active := ⟨n, .called⟩ :: rest, called := (n, handler) :: s.called }
  | ⟨n, .called⟩ :: rest =>
    if 40 ≤ n then do
      let chips ← picOutportb s.chips 0xA0 0x20
      some { s with chips, active := ⟨n, .slaveAcked⟩ :: rest }
    else some { s with active := ⟨n, .slaveAcked⟩ :: rest }
  | ⟨n, .slaveAcked⟩ :: rest => do
    let chips ← picOutportb s.chips 0x20 0x20
    some { s with chips, active := ⟨n, .acked⟩ :: rest }
  | ⟨_, .acked⟩ :: rest => some { s with active := rest, enabled := true }

/-- A step of the devices, the processor or the kernel. -/
inductive IrqStep : IrqState ρ → IrqState ρ → Prop
  | raise {s : IrqState ρ} {line : Nat} : line < 16 → line ≠ 2 → IrqStep s { s with chips := s.chips.raise line }
  | take {s : IrqState ρ} {v : BitVec 8} {chips : Pair} : s.enabled = true → s.chips.acknowledge = some (v, chips) →
      IrqStep s { s with chips, enabled := false, active := ⟨v.toNat, .entered⟩ :: s.active, taken := v.toNat :: s.taken }
  | handler {s s' : IrqState ρ} : s.irqHandler = some s' → IrqStep s s'
  | flag {s : IrqState ρ} (b : Bool) : IrqStep s { s with enabled := b }
  /-- `irq_install_handler` and `irq_uninstall_handler`. -/
  | install {s : IrqState ρ} {irq : Nat} (handler : Option ρ) : irq < 16 →
      IrqStep s { s with routines := s.routines.set irq handler }

/-! ## The controllers after boot -/

/-- Programmed by `__irq_remap`. -/
structure Remapped (p : Pair) : Prop where
  cascaded : p.Cascaded
  master : p.master.offset = 0x20
  slave : p.slave.offset = 0x28
  masterMask : p.master.mask = 0
  slaveMask : p.slave.mask = 0

/-- **`__irq_remap`**, whatever state the controllers are in. -/
theorem irqRemap_remapped (p : Pair) : ∃ q, irqRemap p = some q ∧ Remapped q ∧ (∀ k, q.master.service k = false) ∧
    ∀ k, q.slave.service k = false := by
  refine ⟨_, rfl, ⟨⟨rfl, rfl, rfl, rfl⟩, rfl, rfl, rfl, rfl⟩, fun _ => rfl, fun _ => rfl⟩

/-- The line of the master that an interrupt comes by. -/
def masterLine (intNo : Nat) : Fin 8 := if intNo < 40 then ⟨(intNo - 32) % 8, Nat.mod_lt _ (by decide)⟩ else cascadeLine

/-- What an acknowledgement does: a line that comes before all in service
goes into service. -/
structure Acknowledged (p : Pair) (v : Nat) (q : Pair) : Prop where
  number : 32 ≤ v ∧ v < 48 ∧ v ≠ 34
  first : ∀ j ≤ masterLine v, p.master.service j = false
  master : q.master.service = Function.update p.master.service (masterLine v) true
  slave : ∀ j, q.slave.service j = true ↔ p.slave.service j = true ∨ v = 40 + j

theorem Remapped.acknowledge {p q : Pair} {v : BitVec 8} (hp : Remapped p) (h : p.acknowledge = some (v, q)) :
    Remapped q ∧ Acknowledged p v.toNat q := by
  have hvec (k : Fin 8) : ((0x20 : BitVec 8) + .ofNat 8 k).toNat = 32 + k ∧ ((0x28 : BitVec 8) + .ofNat 8 k).toNat = 40 + k := by
    revert k
    decide
  obtain ⟨k, hk, h⟩ := Option.bind_eq_some_iff.mp h
  obtain ⟨-, hserv⟩ := Chip.asks_spec hk
  rw [if_pos hp.cascaded] at h
  split at h
  · next h2 =>
    obtain ⟨j, hj, h⟩ := Option.bind_eq_some_iff.mp h
    cases h
    have hline : masterLine (40 + j) = cascadeLine := if_neg (by omega)
    rw [hp.slave, (hvec j).2]
    refine ⟨⟨hp.cascaded, hp.master, hp.slave, hp.masterMask, hp.slaveMask⟩, by omega, ?_, ?_, fun i => ?_⟩
    · rw [hline, ← h2]
      exact hserv
    · rw [hline]
      rfl
    · show Function.update p.slave.service j true i = true ↔ _
      rw [Function.update_apply]
      by_cases hij : i = j
      · simp [hij]
      · have hne : (i : Nat) ≠ j := fun he => hij (Fin.ext he)
        simp [hij]
        omega
  · next h2 =>
    cases h
    have hk2 : (k : Nat) ≠ 2 := fun he => h2 (Fin.ext he)
    have hline : masterLine (32 + k) = k := by
      rw [masterLine, if_pos (by omega)]
      exact Fin.ext (by show (32 + (k : Nat) - 32) % 8 = k; omega)
    rw [hp.master, (hvec k).1]
    refine ⟨⟨hp.cascaded, hp.master, hp.slave, hp.masterMask, hp.slaveMask⟩, by omega, ?_, ?_, fun i => ?_⟩
    · rw [hline]
      exact hserv
    · rw [hline]
      rfl
    · show p.slave.service i = true ↔ _
      have hne : 32 + (k : Nat) ≠ 40 + i := by omega
      simp [hne]

/-! ## The invariant -/

/-- The slave's part of the interrupt was not ended yet. -/
def Handling.AtSlave (h : Handling) : Prop := h.progress = .entered ∨ h.progress = .called

/-- The handlers that have not called their routine. -/
def uncalled (active : List Handling) : List Nat :=
  (active.filter fun h => h.progress == .entered).map Handling.intNo

structure IrqInv (s : IrqState ρ) : Prop where
  remapped : Remapped s.chips
  number : ∀ h ∈ s.active, 32 ≤ h.intNo ∧ h.intNo < 48 ∧ h.intNo ≠ 34
  nested : s.active.Pairwise fun i o => i.progress ≠ .acked → o.progress ≠ .acked → masterLine i.intNo < masterLine o.intNo
  master : ∀ k, s.chips.master.service k = true ↔ ∃ h ∈ s.active, h.progress ≠ .acked ∧ masterLine h.intNo = k
  slave : ∀ j, s.chips.slave.service j = true ↔ ∃ h ∈ s.active, h.AtSlave ∧ h.intNo = 40 + j
  routines : s.routines.length = 16
  taken : s.taken.Perm (uncalled s.active ++ s.called.map Prod.fst)

variable {s s' : IrqState ρ}

theorem IrqInv.take (h : IrqInv s) {v : Nat} {chips : Pair} (hr : Remapped chips) (ha : Acknowledged s.chips v chips) :
    IrqInv { s with chips, enabled := false, active := ⟨v, .entered⟩ :: s.active, taken := v :: s.taken } := by
  refine ⟨hr, ?_, ?_, fun k => ?_, fun j => ?_, h.routines, ?_⟩
  · rintro o (_ | ⟨_, ho⟩)
    · exact ha.number
    · exact h.number o ho
  · refine List.pairwise_cons.mpr ⟨fun o ho _ hp => ?_, h.nested⟩
    by_contra hge
    have hbusy := (h.master _).mpr ⟨o, ho, hp, rfl⟩
    rw [ha.first _ (not_lt.mp hge)] at hbusy
    cases hbusy
  · rw [ha.master, Function.update_apply, List.exists_mem_cons_iff]
    by_cases hk : k = masterLine v
    · simp [hk]
    · rw [if_neg hk, h.master k]
      simp [Ne.symm hk]
  · rw [ha.slave, h.slave j, List.exists_mem_cons_iff, or_comm]
    simp [Handling.AtSlave]
  · have huncalled : uncalled (⟨v, .entered⟩ :: s.active) = v :: uncalled s.active := by simp [uncalled]
    rw [huncalled]
    exact h.taken.cons v

/-! ## The handler -/

theorem picOutportb_slave (p : Pair) : picOutportb p 0xA0 0x20 = some { p with slave := p.slave.endOfInterrupt } := rfl

theorem picOutportb_master (p : Pair) : picOutportb p 0x20 0x20 = some { p with master := p.master.endOfInterrupt } := rfl

section Innermost

variable {n : Nat} {rest : List Handling}

/-- No other handler is as urgent as the innermost, before it is through. -/
theorem IrqInv.innermost (h : IrqInv s) {pr : Progress} (hs : s.active = ⟨n, pr⟩ :: rest) (hp : pr ≠ .acked) :
    ∀ o ∈ rest, o.progress ≠ .acked → masterLine n < masterLine o.intNo := by
  have hnested := h.nested
  rw [hs, List.pairwise_cons] at hnested
  exact fun o ho => hnested.1 o ho hp

/-- **The master's end of interrupt** ends the innermost handler's. -/
theorem IrqInv.master_ends (h : IrqInv s) {pr : Progress} (hs : s.active = ⟨n, pr⟩ :: rest) (hp : pr ≠ .acked) :
    s.chips.master.endOfInterrupt =
      { s.chips.master with service := Function.update s.chips.master.service (masterLine n) false } := by
  refine Chip.endOfInterrupt_eq ((h.master _).mpr ⟨⟨n, pr⟩, by rw [hs]; exact List.mem_cons_self, hp, rfl⟩) fun j hj => ?_
  by_contra hbusy
  obtain ⟨o, ho, hpo, hline⟩ := (h.master j).mp (by simpa using hbusy)
  rw [hs] at ho
  rcases ho with _ | ⟨_, ho⟩
  · exact absurd hline (ne_of_gt hj)
  · have hlt := h.innermost hs hp o ho hpo
    rw [hline] at hlt
    exact absurd hlt (lt_asymm hj)

/-- No other handler waits at the slave while the innermost does. -/
theorem IrqInv.slave_alone (h : IrqInv s) {pr : Progress} (hs : s.active = ⟨n, pr⟩ :: rest) (hp : pr ≠ .acked)
    (hn : 40 ≤ n) : ∀ o ∈ rest, o.AtSlave → o.intNo < 40 := by
  intro o ho hat
  by_contra hge
  have hpo : o.progress ≠ .acked := by
    rcases hat with he | he
    all_goals
      rw [he]
      decide
  have hlt := h.innermost hs hp o ho hpo
  rw [masterLine, masterLine, if_neg (by omega), if_neg (by omega)] at hlt
  exact absurd hlt (lt_irrefl _)

/-- **The slave's end of interrupt**, in the same way. -/
theorem IrqInv.slave_ends (h : IrqInv s) (hs : s.active = ⟨n, .called⟩ :: rest) {k : Fin 8} (hn : n = 40 + k) :
    s.chips.slave.endOfInterrupt = { s.chips.slave with service := Function.update s.chips.slave.service k false } := by
  have hmem : (⟨n, .called⟩ : Handling) ∈ s.active := by
    rw [hs]
    exact List.mem_cons_self
  refine Chip.endOfInterrupt_eq ((h.slave k).mpr ⟨_, hmem, .inr rfl, hn⟩) fun j hj => ?_
  by_contra hbusy
  obtain ⟨o, ho, hat, hno⟩ := (h.slave j).mp (by simpa using hbusy)
  rw [hs] at ho
  rcases ho with _ | ⟨_, ho⟩
  · have hlt : (j : Nat) < k := hj
    have hno' : n = 40 + j := hno
    omega
  · have hlow := h.slave_alone hs (by decide) (by omega) o ho hat
    omega

/-- The innermost handler gets on, with the controllers and the calls as
they are then. -/
theorem IrqInv.advance (h : IrqInv s) {pr pr' : Progress} (hs : s.active = ⟨n, pr⟩ :: rest) (hpr : pr ≠ .acked)
    {chips : Pair} {called : List (Nat × Option ρ)} (hr : Remapped chips)
    (hmaster : ∀ k, chips.master.service k = true ↔ (pr' ≠ .acked ∧ masterLine n = k) ∨
      ∃ o ∈ rest, o.progress ≠ .acked ∧ masterLine o.intNo = k)
    (hslave : ∀ j, chips.slave.service j = true ↔ ((⟨n, pr'⟩ : Handling).AtSlave ∧ n = 40 + j) ∨
      ∃ o ∈ rest, o.AtSlave ∧ o.intNo = 40 + j)
    (htaken : s.taken.Perm (uncalled (⟨n, pr'⟩ :: rest) ++ called.map Prod.fst)) :
    IrqInv { s with chips, active := ⟨n, pr'⟩ :: rest, called } := by
  have hnumber := h.number
  have hnested := h.nested
  rw [hs] at hnumber hnested
  rw [List.pairwise_cons] at hnested
  refine ⟨hr, ?_, ?_, fun k => ?_, fun j => ?_, h.routines, htaken⟩
  · rintro o (_ | ⟨_, ho⟩)
    · exact hnumber ⟨n, pr⟩ List.mem_cons_self
    · exact hnumber o (List.mem_cons_of_mem _ ho)
  · exact List.pairwise_cons.mpr ⟨fun o ho _ hp => hnested.1 o ho hpr hp, hnested.2⟩
  · rw [hmaster, List.exists_mem_cons_iff]
  · rw [hslave, List.exists_mem_cons_iff]

theorem irqHandler_entered (hs : s.active = ⟨n, .entered⟩ :: rest) {handler : Option ρ} (hr : s.routines[n - 32]? = some handler) :
    s.irqHandler = some { s with active := ⟨n, .called⟩ :: rest, called := (n, handler) :: s.called } := by
  simp only [IrqState.irqHandler, hs, hr, Option.bind_eq_bind, Option.bind_some]

theorem irqHandler_slave (hs : s.active = ⟨n, .called⟩ :: rest) (hn : 40 ≤ n) :
    s.irqHandler = some { s with chips := { s.chips with slave := s.chips.slave.endOfInterrupt },
                                 active := ⟨n, .slaveAcked⟩ :: rest } := by
  simp only [IrqState.irqHandler, hs, if_pos hn, picOutportb_slave, Option.bind_eq_bind, Option.bind_some]

theorem irqHandler_noSlave (hs : s.active = ⟨n, .called⟩ :: rest) (hn : ¬ 40 ≤ n) :
    s.irqHandler = some { s with active := ⟨n, .slaveAcked⟩ :: rest } := by
  simp only [IrqState.irqHandler, hs, if_neg hn]

theorem irqHandler_master (hs : s.active = ⟨n, .slaveAcked⟩ :: rest) :
    s.irqHandler = some { s with chips := { s.chips with master := s.chips.master.endOfInterrupt },
                                 active := ⟨n, .acked⟩ :: rest } := by
  simp only [IrqState.irqHandler, hs, picOutportb_master, Option.bind_eq_bind, Option.bind_some]

theorem irqHandler_iret (hs : s.active = ⟨n, .acked⟩ :: rest) :
    s.irqHandler = some { s with active := rest, enabled := true } := by
  simp only [IrqState.irqHandler, hs]

theorem IrqInv.call (h : IrqInv s) (hs : s.active = ⟨n, .entered⟩ :: rest) (handler : Option ρ) :
    IrqInv { s with active := ⟨n, .called⟩ :: rest, called := (n, handler) :: s.called } := by
  refine h.advance hs (by decide) h.remapped (fun k => ?_) (fun j => ?_) ?_
  · rw [h.master, hs, List.exists_mem_cons_iff]
    simp
  · rw [h.slave, hs, List.exists_mem_cons_iff]
    simp [Handling.AtSlave]
  · have hold : uncalled (⟨n, .entered⟩ :: rest) = n :: uncalled rest := by simp [uncalled]
    have hnew : uncalled (⟨n, .called⟩ :: rest) = uncalled rest := by simp [uncalled]
    have htaken := h.taken
    rw [hs, hold] at htaken
    rw [hnew, List.map_cons]
    exact htaken.trans List.perm_middle.symm

/-- The calls are not at issue any more. -/
theorem IrqInv.taken_called (h : IrqInv s) {pr pr' : Progress} (hs : s.active = ⟨n, pr⟩ :: rest) (hpr : pr ≠ .entered)
    (hpr' : pr' ≠ .entered) : s.taken.Perm (uncalled (⟨n, pr'⟩ :: rest) ++ s.called.map Prod.fst) := by
  have hskip {pr : Progress} (hp : pr ≠ .entered) : uncalled (⟨n, pr⟩ :: rest) = uncalled rest := by simp [uncalled, hp]
  have htaken := h.taken
  rw [hs, hskip hpr] at htaken
  rw [hskip hpr']
  exact htaken

theorem IrqInv.endSlave (h : IrqInv s) (hs : s.active = ⟨n, .called⟩ :: rest) (hn : 40 ≤ n) :
    IrqInv { s with chips := { s.chips with slave := s.chips.slave.endOfInterrupt }, active := ⟨n, .slaveAcked⟩ :: rest } := by
  have hnumber : 32 ≤ n ∧ n < 48 ∧ n ≠ 34 := h.number ⟨n, .called⟩ (by rw [hs]; exact List.mem_cons_self)
  have hend := h.slave_ends (k := ⟨n - 40, by omega⟩) hs (by show n = 40 + (n - 40); omega)
  rw [hend]
  have hr := h.remapped
  refine h.advance hs (by decide) ⟨hr.cascaded, hr.master, hr.slave, hr.masterMask, hr.slaveMask⟩ (fun k => ?_)
    (fun j => ?_) (h.taken_called hs (by decide) (by decide))
  · rw [h.master, hs, List.exists_mem_cons_iff]
    simp
  · show Function.update s.chips.slave.service _ false j = true ↔ _
    rw [Function.update_apply]
    split
    · next hj =>
      have hj' : (j : Nat) = n - 40 := congrArg Fin.val hj
      constructor
      · intro hf
        cases hf
      · rintro (⟨hat, -⟩ | ⟨o, ho, hat, hno⟩)
        · rcases hat with he | he
          all_goals cases he
        · have hlow := h.slave_alone hs (by decide) hn o ho hat
          omega
    · next hj =>
      rw [h.slave, hs, List.exists_mem_cons_iff]
      have hne : n ≠ 40 + j := fun he => hj (Fin.ext (by show (j : Nat) = n - 40; omega))
      simp [hne]

theorem IrqInv.skipSlave (h : IrqInv s) (hs : s.active = ⟨n, .called⟩ :: rest) (hn : ¬ 40 ≤ n) :
    IrqInv { s with active := ⟨n, .slaveAcked⟩ :: rest } := by
  refine h.advance hs (by decide) h.remapped (fun k => ?_) (fun j => ?_) (h.taken_called hs (by decide) (by decide))
  · rw [h.master, hs, List.exists_mem_cons_iff]
    simp
  · have hne : n ≠ 40 + j := by omega
    rw [h.slave, hs, List.exists_mem_cons_iff]
    simp [hne]

theorem IrqInv.endMaster (h : IrqInv s) (hs : s.active = ⟨n, .slaveAcked⟩ :: rest) :
    IrqInv { s with chips := { s.chips with master := s.chips.master.endOfInterrupt }, active := ⟨n, .acked⟩ :: rest } := by
  rw [h.master_ends hs (by decide)]
  have hr := h.remapped
  refine h.advance hs (by decide) ⟨hr.cascaded, hr.master, hr.slave, hr.masterMask, hr.slaveMask⟩ (fun k => ?_)
    (fun j => ?_) (h.taken_called hs (by decide) (by decide))
  · show Function.update s.chips.master.service (masterLine n) false k = true ↔ _
    rw [Function.update_apply]
    split
    · next hk =>
      constructor
      · intro hf
        cases hf
      · rintro (⟨hp, -⟩ | ⟨o, ho, hp, hline⟩)
        · exact absurd rfl hp
        · have hlt := h.innermost hs (by decide) o ho hp
          rw [hline, hk] at hlt
          exact absurd hlt (lt_irrefl _)
    · next hk =>
      rw [h.master, hs, List.exists_mem_cons_iff]
      simp [Ne.symm hk]
  · rw [h.slave, hs, List.exists_mem_cons_iff]
    simp [Handling.AtSlave]

theorem IrqInv.iret (h : IrqInv s) (hs : s.active = ⟨n, .acked⟩ :: rest) : IrqInv { s with active := rest, enabled := true } := by
  have hnested := h.nested
  rw [hs, List.pairwise_cons] at hnested
  refine ⟨h.remapped, fun o ho => h.number o ?_, hnested.2, fun k => ?_, fun j => ?_, h.routines, ?_⟩
  · rw [hs]
    exact List.mem_cons_of_mem _ ho
  · rw [h.master, hs, List.exists_mem_cons_iff]
    simp
  · rw [h.slave, hs, List.exists_mem_cons_iff]
    simp [Handling.AtSlave]
  · have htaken := h.taken
    rw [hs] at htaken
    exact htaken

/-- **The handler** is never stuck, and keeps the invariant. -/
theorem IrqInv.irqHandler (h : IrqInv s) {pr : Progress} (hs : s.active = ⟨n, pr⟩ :: rest) :
    ∃ s', s.irqHandler = some s' ∧ IrqInv s' := by
  cases pr with
  | entered =>
    have hn : 32 ≤ n ∧ n < 48 ∧ n ≠ 34 := h.number ⟨n, .entered⟩ (by rw [hs]; exact List.mem_cons_self)
    have hlt : n - 32 < s.routines.length := by
      rw [h.routines]
      omega
    exact ⟨_, irqHandler_entered hs (List.getElem?_eq_getElem hlt), h.call hs _⟩
  | called =>
    by_cases hn : 40 ≤ n
    · exact ⟨_, irqHandler_slave hs hn, h.endSlave hs hn⟩
    · exact ⟨_, irqHandler_noSlave hs hn, h.skipSlave hs hn⟩
  | slaveAcked => exact ⟨_, irqHandler_master hs, h.endMaster hs⟩
  | acked => exact ⟨_, irqHandler_iret hs, h.iret hs⟩

end Innermost

/-! ## Runs -/

theorem IrqInv.step (h : IrqInv s) (hs : IrqStep s s') : IrqInv s' := by
  cases hs with
  | @raise line hlt hne =>
    have hr := h.remapped
    unfold Pair.raise
    split
    all_goals exact ⟨⟨hr.cascaded, hr.master, hr.slave, hr.masterMask, hr.slaveMask⟩, h.number, h.nested, h.master, h.slave,
      h.routines, h.taken⟩
  | take _ hack =>
    obtain ⟨hr, ha⟩ := h.remapped.acknowledge hack
    exact h.take hr ha
  | handler he =>
    cases hact : s.active with
    | nil =>
      rw [IrqState.irqHandler, hact] at he
      cases he
    | cons a rest =>
      obtain ⟨s₁, he₁, h₁⟩ := h.irqHandler hact
      cases he₁.symm.trans he
      exact h₁
  | flag b => exact ⟨h.remapped, h.number, h.nested, h.master, h.slave, h.routines, h.taken⟩
  | install handler hlt =>
    exact ⟨h.remapped, h.number, h.nested, h.master, h.slave, List.length_set.trans h.routines, h.taken⟩

/-- Before the first interrupt. -/
theorem IrqInv.start {p : Pair} {routines : List (Option ρ)} (hr : Remapped p) (hm : ∀ k, p.master.service k = false)
    (hsl : ∀ j, p.slave.service j = false) (hlen : routines.length = 16) :
    IrqInv (⟨p, false, [], routines, [], []⟩ : IrqState ρ) := by
  refine ⟨hr, ?_, List.Pairwise.nil, fun k => ?_, fun j => ?_, hlen, List.Perm.refl _⟩
  · rintro h (_ | _)
  · simp [hm]
  · simp [hsl]

theorem IrqInv.run (h : IrqInv s) (hrun : Relation.ReflTransGen IrqStep s s') : IrqInv s' := by
  induction hrun with
  | refl => exact h
  | tail _ hs ih => exact ih.step hs

/-- Nothing is in service while no handler runs. -/
theorem IrqInv.idle (h : IrqInv s) (hs : s.active = []) :
    (∀ k, s.chips.master.service k = false) ∧ ∀ j, s.chips.slave.service j = false := by
  constructor
  · intro k
    by_contra hbusy
    obtain ⟨o, ho, -⟩ := (h.master k).mp (by simpa using hbusy)
    rw [hs] at ho
    cases ho
  · intro j
    by_contra hbusy
    obtain ⟨o, ho, -⟩ := (h.slave j).mp (by simpa using hbusy)
    rw [hs] at ho
    cases ho

/-- A request is waiting at the device's chip. -/
def Pending (p : Pair) : Prop := (∃ k, k ≠ cascadeLine ∧ p.master.request k = true) ∨ ∃ j, p.slave.request j = true

theorem Remapped.acknowledges {p : Pair} (hp : Remapped p) (hm : ∀ k, p.master.service k = false)
    (hsl : ∀ j, p.slave.service j = false) (hpend : Pending p) : ∃ a, p.acknowledge = some a := by
  have hmask (k : Nat) : (0 : BitVec 8).getLsbD k = false := by simp
  have hlines : ∃ k, p.lines k = true := by
    rcases hpend with ⟨k, hne, hk⟩ | ⟨j, hj⟩
    · exact ⟨k, (Function.update_of_ne hne ..).trans hk⟩
    · obtain ⟨i, hi⟩ := Chip.asks_idle hsl hj (by rw [hp.slaveMask]; exact hmask j)
      exact ⟨cascadeLine, by rw [Pair.lines, Function.update_self, hi]; rfl⟩
  obtain ⟨k, hk⟩ := hlines
  obtain ⟨i, hi⟩ := Chip.asks_idle hm hk (by rw [hp.masterMask]; exact hmask k)
  rw [Pair.acknowledge, hi, Option.bind_eq_bind, Option.bind_some, if_pos hp.cascaded]
  split
  · next h2 =>
    have hline := (Chip.asks_spec hi).1
    rw [h2, Pair.lines, Function.update_self] at hline
    obtain ⟨j, hj⟩ := Option.isSome_iff_exists.mp hline
    exact ⟨_, by rw [hj]; rfl⟩
  · exact ⟨_, rfl⟩

/-- **IRQs.** `__irq_remap` works from any state of the controllers, and in
every interleaving after it of devices, handlers that nest, changes of `IF`
and of `irq_routines`:
- a line is in service exactly while its handler has not ended it, at each of
  the controllers, and two handlers never serve one line at a time;
- a running handler can always go on, to its `iret`;
- once none runs, an interrupt that waits can be taken, so none is shut out;
- every interrupt taken calls its routine once. -/
theorem irq_protocol (chips : Pair) (routines : List (Option ρ)) (hlen : routines.length = 16) :
    ∃ p, irqRemap chips = some p ∧ ∀ s : IrqState ρ, Relation.ReflTransGen IrqStep ⟨p, false, [], routines, [], []⟩ s →
      (∀ k, s.chips.master.service k = true ↔ ∃ h ∈ s.active, h.progress ≠ .acked ∧ masterLine h.intNo = k) ∧
      (∀ j, s.chips.slave.service j = true ↔ ∃ h ∈ s.active, h.AtSlave ∧ h.intNo = 40 + j) ∧
      (s.active.Pairwise fun h h' => h.progress ≠ .acked → h'.progress ≠ .acked → h.intNo ≠ h'.intNo) ∧
      (s.active ≠ [] → ∃ s', s.irqHandler = some s') ∧
      (s.active = [] → Pending s.chips → ∃ a, s.chips.acknowledge = some a) ∧
      s.taken.Perm (uncalled s.active ++ s.called.map Prod.fst) := by
  obtain ⟨p, hp, hr, hm, hsl⟩ := irqRemap_remapped chips
  refine ⟨p, hp, fun s hrun => ?_⟩
  have h := (IrqInv.start hr hm hsl hlen).run hrun
  refine ⟨h.master, h.slave, h.nested.imp fun hlt hi ho he => ?_, fun hne => ?_, fun hidle hpend => ?_, h.taken⟩
  · have hlt' := hlt hi ho
    rw [he] at hlt'
    exact absurd hlt' (lt_irrefl _)
  · obtain ⟨o, rest, hact⟩ := List.exists_cons_of_ne_nil hne
    obtain ⟨s', he, -⟩ := h.irqHandler hact
    exact ⟨s', he⟩
  · obtain ⟨hm, hsl⟩ := h.idle hidle
    exact h.remapped.acknowledges hm hsl hpend

/-- A controller that waits for a word, with everything masked, requested and
in service. -/
def anyChip : Chip := ⟨.icw3, false, true, 0x70, 0, 0xFF, fun _ => true, fun _ => true⟩

/-- Two controllers left in the middle of their initialization. -/
theorem irq_protocol_anyChip : ∃ p, irqRemap ⟨anyChip, anyChip⟩ = some p ∧ ∀ s : IrqState Nat,
    Relation.ReflTransGen IrqStep ⟨p, false, [], List.replicate 16 none, [], []⟩ s → s.active = [] → Pending s.chips →
      ∃ a, s.chips.acknowledge = some a := by
  obtain ⟨p, hp, h⟩ := irq_protocol ⟨anyChip, anyChip⟩ (List.replicate 16 (none : Option Nat)) List.length_replicate
  exact ⟨p, hp, fun s hrun => (h s hrun).2.2.2.2.1⟩

end ShawnOS
