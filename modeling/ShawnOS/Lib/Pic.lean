/-
Two cascaded 8259A interrupt controllers, fully nested.

A chip latches a request for each of its eight lines and keeps a bit for each
line in service. It asks for the interrupt of the lowest line requested and
not masked, if that comes before every line in service; an end-of-interrupt
command that names no line ends the lowest one in service. The second chip
is wired to line 2 of the first. Programming modes other than these give
`none`.

A device holds its request until it is acknowledged: a request that is
withdrawn before, for which a chip would give the vector of its line 7, is
not part of this.
-/
import Mathlib.Data.Fin.Tuple.Basic
import Mathlib.Data.BitVec
import Mathlib.Logic.Function.Basic

namespace Pic

/-- Which initialization word a chip waits for. -/
inductive Init where
  | ready | icw2 | icw3 | icw4
  deriving DecidableEq

/-- The lines of a chip. -/
abbrev Lines := Fin 8 → Bool

/-- The line of the first chip to which the second is wired. -/
def cascadeLine : Fin 8 := 2

structure Chip where
  init : Init
  single : Bool
  needsIcw4 : Bool
  offset : BitVec 8
  cascade : BitVec 8
  mask : BitVec 8
  request : Lines
  service : Lines

namespace Chip

/-- The lowest line in service ends. -/
def endOfInterrupt (c : Chip) : Chip :=
  match Fin.find? c.service with
  | some k => { c with service := Function.update c.service k false }
  | none => c

/-- A write to the command port: the first initialization word, or an end of
interrupt. -/
def command (c : Chip) (v : BitVec 8) : Option Chip :=
  if v.getLsbD 4 then
    some { c with init := .icw2, single := v.getLsbD 1, needsIcw4 := v.getLsbD 0, mask := 0,
                  request := fun _ => false, service := fun _ => false }
  else if v &&& 0xF8 = 0x20 then some c.endOfInterrupt
  else none

/-- A write to the data port: the word it waits for, or the mask. -/
def data (c : Chip) (v : BitVec 8) : Option Chip :=
  match c.init with
  | .icw2 => some { c with offset := v &&& 0xF8,
                           init := if c.single then (if c.needsIcw4 then .icw4 else .ready) else .icw3 }
  | .icw3 => some { c with cascade := v, init := if c.needsIcw4 then .icw4 else .ready }
  | .icw4 => if v &&& 0x13 = 0x01 then some { c with init := .ready } else none
  | .ready => some { c with mask := v }

/-- The line whose interrupt a chip asks for, with `lines` requested. -/
def asks (c : Chip) (lines : Lines) : Option (Fin 8) := do
  let k ← Fin.find? fun k => lines k && !c.mask.getLsbD k
  if ∀ j ≤ k, c.service j = false then some k else none

/-- A line goes into service. -/
def accept (c : Chip) (k : Fin 8) : Chip :=
  { c with request := Function.update c.request k false, service := Function.update c.service k true }

end Chip

/-- The two chips. -/
structure Pair where
  master : Chip
  slave : Chip

namespace Pair

/-- The requests at the master. -/
def lines (p : Pair) : Lines := Function.update p.master.request cascadeLine (p.slave.asks p.slave.request).isSome

/-- A device requests an interrupt on one of the sixteen lines. -/
def raise (p : Pair) (line : Nat) : Pair :=
  if line < 8 then { p with master := { p.master with request := fun k => p.master.request k || decide (k.val = line) } }
  else { p with slave := { p.slave with request := fun k => p.slave.request k || decide (k.val + 8 = line) } }

/-- The chips are programmed for the cascade as it is wired. -/
def Cascaded (p : Pair) : Prop :=
  p.master.init = .ready ∧ p.slave.init = .ready ∧ p.master.cascade = 4 ∧ p.slave.cascade = 2

instance (p : Pair) : Decidable p.Cascaded := by unfold Cascaded; infer_instance

/-- The processor acknowledges: the vector, and the chips after it. -/
def acknowledge (p : Pair) : Option (BitVec 8 × Pair) := do
  let k ← p.master.asks p.lines
  if p.Cascaded then
    if k = cascadeLine then do
      let j ← p.slave.asks p.slave.request
      some (p.slave.offset + .ofNat 8 j, ⟨p.master.accept cascadeLine, p.slave.accept j⟩)
    else some (p.master.offset + .ofNat 8 k, ⟨p.master.accept k, p.slave⟩)
  else none

end Pair

variable {c : Chip} {lines : Lines} {k : Fin 8}

/-- The lowest line in service is the one that ends. -/
theorem Chip.endOfInterrupt_eq (hk : c.service k = true) (hlow : ∀ j < k, c.service j = false) :
    c.endOfInterrupt = { c with service := Function.update c.service k false } := by
  rw [Chip.endOfInterrupt, Fin.find?_eq_some_iff.mpr ⟨hk, hlow⟩]

theorem Chip.asks_spec (h : c.asks lines = some k) :
    lines k = true ∧ ∀ j ≤ k, c.service j = false := by
  obtain ⟨k', hfind, h⟩ := Option.bind_eq_some_iff.mp h
  split at h
  · next hserv =>
    cases h
    have hp := (Fin.find?_eq_some_iff.mp hfind).1
    simp only [Bool.and_eq_true] at hp
    exact ⟨hp.1, hserv⟩
  · cases h

/-- With nothing in service a request that is not masked is asked for, or
another one. -/
theorem Chip.asks_idle (hserv : ∀ j, c.service j = false) (hk : lines k = true) (hmask : c.mask.getLsbD k = false) :
    ∃ j, c.asks lines = some j := by
  have hex : (Fin.find? fun k => lines k && !c.mask.getLsbD k).isSome := 
    Fin.isSome_find?_iff.mpr ⟨k, by rw [hk, hmask]; rfl⟩
  obtain ⟨j, hj⟩ := Option.isSome_iff_exists.mp hex
  refine ⟨j, ?_⟩
  rw [Chip.asks, hj]
  exact if_pos fun i _ => hserv i

end Pic
