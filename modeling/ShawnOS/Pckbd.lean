/-
The PS/2 keyboard driver (`drivers/pc/pckbd.c`) and its US layout.

The handler keeps one boolean for all shift keys and toggles it on every
make and break of one. It agrees with the keys held exactly while no make
of a shift key arrives with one down already, and no break with another
still down.
-/
import ShawnOS.Kernel
import ShawnOS.Lib.Traces
import Mathlib.Data.Finset.Insert
import Mathlib.Data.Finset.Erase

namespace ShawnOS

open Word32 Traces

/-- `struct pckbd_driver`: the scancode tables, the shift keys, caps lock. -/
structure PckbdDriver where
  pckbdSc : Fin 128 → Int
  pckbdScShift : Fin 128 → Int
  pckbdShift : List Int
  pckbdScCapslock : Fin 128 → Int
  pckbdScShiftCapslock : Fin 128 → Int
  pckbdCapsSc : Int

/-- `pckbd_is_capslock` and `pckbd_is_shift`. -/
structure PckbdState where
  pckbdIsCapslock : Bool
  pckbdIsShift : Bool

/-- `set_contains_sc`. -/
def setContainsSc (scs : List Int) (i : Int) : Bool := scs.any (· = i)

theorem lt_of_make {c : BitVec 8} (h : c &&& 0x80#8 = 0) : c.toNat < 128 := by
  revert c
  decide

/-- `pckbd_irq_input_handler`, with the byte read from the PS/2 buffer; it
aborts on another interrupt than IRQ 1. The character is the one printed. -/
def pckbdIrqInputHandler (d : PckbdDriver) (intNo : Nat) (curScancode : BitVec 8) (s : PckbdState) :
    Option (PckbdState × Option Int) :=
  if sub32 intNo 32 ≠ 1 then none
  else if h : curScancode &&& 0x80#8 = 0 then
    let s :=
      if setContainsSc d.pckbdShift curScancode.toNat then { s with pckbdIsShift := !s.pckbdIsShift } else s
    let s :=
      if (curScancode.toNat : Int) = d.pckbdCapsSc then { s with pckbdIsCapslock := !s.pckbdIsCapslock } else s
    let scs :=
      if s.pckbdIsCapslock && s.pckbdIsShift then d.pckbdScShiftCapslock
      else if s.pckbdIsShift then d.pckbdScShift
      else if s.pckbdIsCapslock then d.pckbdScCapslock
      else d.pckbdSc
    let curChar := scs ⟨curScancode.toNat, lt_of_make h⟩
    some (s, if curChar ≠ 0 then some curChar else none)
  else
    -- The key has just been released.
    let s :=
      if setContainsSc d.pckbdShift (curScancode.toNat - 128) then { s with pckbdIsShift := !s.pckbdIsShift } else s
    some (s, none)

/-! ## The US layout -/

/-- A table given by its first entries; the rest are zero. -/
def scancodeTable (keys : String) (i : Fin 128) : Int :=
  if i.val = 74 then '-'.toNat else if i.val = 78 then '+'.toNat else (keys.toList.map fun c => (c.toNat : Int)).getD i 0

/-- `pckbd_us_qwerty`. The `-` and `+` of the number pad follow the keys
listed. -/
def pckbdUsQwerty : PckbdDriver where
  pckbdSc := scancodeTable "\x00\x1b1234567890-=\x08\tqwertyuiop[]\n\x00asdfghjkl;'`\x00\\zxcvbnm,./\x00*\x00 "
  pckbdScShift := scancodeTable "\x00\x1b!@#$%^&*()_+\x08\tQWERTYUIOP\x7b\x7d\n\x00ASDFGHJKL:\"~\x00|ZXCVBNM<>?\x00*\x00 "
  pckbdShift := [42, 54]
  pckbdScCapslock := scancodeTable "\x00\x1b1234567890-=\x08\tQWERTYUIOP[]\n\x00ASDFGHJKL;'`\x00\\ZXCVBNM,./\x00*\x00 "
  pckbdScShiftCapslock :=
    scancodeTable "\x00\x1b!@#$%^&*()_+\x08\tqwertyuiop\x7b\x7d\n\x00asdfghjkl:\"~\x00|zxcvbnm<>?\x00*\x00 "
  pckbdCapsSc := 58

/-! ## The keys held -/

/-- The byte is a break code. -/
def isBreak (c : BitVec 8) : Bool := ¬ c &&& 0x80#8 = 0

/-- The key a byte is of. -/
def keyOf (c : BitVec 8) : Nat := c.toNat % 128

/-- The keys held after a byte. -/
def keysAfter (held : Finset Nat) (c : BitVec 8) : Finset Nat :=
  if isBreak c then held.erase (keyOf c) else insert (keyOf c) held

/-- One byte fed to the handler from IRQ 1: the driver's state and the keys
held. -/
def feed (d : PckbdDriver) (t : PckbdState × Finset Nat) (c : BitVec 8) : Option (PckbdState × Finset Nat) :=
  (pckbdIrqInputHandler d 33 c t.1).map fun r => (r.1, keysAfter t.2 c)

/-- `pckbd_is_shift` says whether some shift key is held. -/
def ShiftAgrees (d : PckbdDriver) (t : PckbdState × Finset Nat) : Prop :=
  t.1.pckbdIsShift = true ↔ ∃ k ∈ t.2, (k : Int) ∈ d.pckbdShift

/-- A break code follows a make code of its key. -/
def BreaksHeld (t : PckbdState × Finset Nat) (c : BitVec 8) : Prop := isBreak c → keyOf c ∈ t.2

/-- A byte of a shift key comes with no shift key held, but for the one a
break code is of. -/
def OneShift (d : PckbdDriver) (t : PckbdState × Finset Nat) (c : BitVec 8) : Prop :=
  (keyOf c : Int) ∈ d.pckbdShift → ∀ k ∈ t.2, (k : Int) ∈ d.pckbdShift → isBreak c ∧ k = keyOf c

theorem setContainsSc_iff {scs : List Int} {i : Int} : setContainsSc scs i = true ↔ i ∈ scs := by
  simp [setContainsSc]

theorem keyOf_make {c : BitVec 8} (h : c &&& 0x80#8 = 0) : keyOf c = c.toNat :=
  Nat.mod_eq_of_lt (lt_of_make h)

theorem keyOf_break {c : BitVec 8} (h : ¬ c &&& 0x80#8 = 0) : (c.toNat : Int) - 128 = keyOf c := by
  revert c
  decide

/-! ## One byte -/

/-- Make or break, a byte of a shift key toggles the flag, and no other does. -/
theorem pckbdIrqInputHandler_shift (d : PckbdDriver) (c : BitVec 8) (s : PckbdState) :
    ∃ s' out, pckbdIrqInputHandler d 33 c s = some (s', out) ∧
      s'.pckbdIsShift = if (keyOf c : Int) ∈ d.pckbdShift then !s.pckbdIsShift else s.pckbdIsShift := by
  have hirq : ¬ sub32 33 32 ≠ 1 := by decide
  unfold pckbdIrqInputHandler
  rw [if_neg hirq]
  by_cases hc : c &&& 0x80#8 = 0
  · rw [dif_pos hc]
    refine ⟨_, _, rfl, ?_⟩
    simp only [setContainsSc_iff, keyOf_make hc]
    by_cases hk : (c.toNat : Int) ∈ d.pckbdShift
    · simp only [hk, ite_true]
      split <;> rfl
    · simp only [hk, ite_false]
      split <;> rfl
  · rw [dif_neg hc]
    refine ⟨_, _, rfl, ?_⟩
    simp only [setContainsSc_iff, keyOf_break hc]
    split <;> rfl

theorem keysAfter_make {held : Finset Nat} {c : BitVec 8} (h : isBreak c = false) (k : Nat) :
    k ∈ keysAfter held c ↔ k = keyOf c ∨ k ∈ held := by
  simp [keysAfter, h]

theorem keysAfter_break {held : Finset Nat} {c : BitVec 8} (h : isBreak c = true) (k : Nat) :
    k ∈ keysAfter held c ↔ k ≠ keyOf c ∧ k ∈ held := by
  simp [keysAfter, h]

/-- A byte of another key leaves the shift keys held as they were. -/
theorem keysAfter_other {d : PckbdDriver} {held : Finset Nat} {c : BitVec 8} (h : (keyOf c : Int) ∉ d.pckbdShift)
    {k : Nat} (hk : (k : Int) ∈ d.pckbdShift) : k ∈ keysAfter held c ↔ k ∈ held := by
  have hne : k ≠ keyOf c := fun he => h (he ▸ hk)
  cases hc : isBreak c with
  | true => simp [keysAfter_break hc, hne]
  | false => simp [keysAfter_make hc, hne]

/-- **One byte** keeps the flag right exactly when no second shift key is
involved. -/
theorem feed_step (d : PckbdDriver) (t : PckbdState × Finset Nat) (c : BitVec 8) (h : ShiftAgrees d t)
    (hb : BreaksHeld t c) : ∃ t', feed d t c = some t' ∧ (ShiftAgrees d t' ↔ OneShift d t c) := by
  obtain ⟨s', out, he, hshift⟩ := pckbdIrqInputHandler_shift d c t.1
  refine ⟨(s', keysAfter t.2 c), by rw [feed, he]; rfl, ?_⟩
  unfold ShiftAgrees OneShift at *
  by_cases hk : (keyOf c : Int) ∈ d.pckbdShift
  · rw [if_pos hk] at hshift
    simp only [hshift, Bool.not_eq_true', hk, forall_const]
    cases hc : isBreak c with
    | false =>
      -- The key is down now, so the flag must have been clear.
      have hnow : ∃ k ∈ keysAfter t.2 c, (k : Int) ∈ d.pckbdShift := ⟨keyOf c, by simp [keysAfter_make hc], hk⟩
      simp only [hnow, iff_true, Bool.false_eq_true, false_and]
      rw [← Bool.not_eq_true, h]
      push Not
      rfl
    | true =>
      have hbefore : t.1.pckbdIsShift = true := h.mpr ⟨keyOf c, hb hc, hk⟩
      simp only [hbefore, Bool.true_eq_false, false_iff, true_and, keysAfter_break hc]
      push Not
      constructor
      · intro hall k hmem hks
        by_contra hne
        exact hall k ⟨hne, hmem⟩ hks
      · exact fun hall k hmem hks => hmem.1 (hall k hmem.2 hks)
  · rw [if_neg hk] at hshift
    simp only [hshift, hk, false_implies, iff_true, h]
    constructor
    · rintro ⟨k, hm, hks⟩
      exact ⟨k, (keysAfter_other hk hks).mpr hm, hks⟩
    · rintro ⟨k, hm, hks⟩
      exact ⟨k, (keysAfter_other hk hks).mp hm, hks⟩

/-- No key held, `pckbd_is_shift` and `pckbd_is_capslock` clear. -/
def noKeys : PckbdState × Finset Nat := (⟨false, false⟩, ∅)

/-- **When the shift state follows the keys.** Over every stream whose break
codes follow makes of their keys, the flag is right after each byte exactly
when each byte of a shift key comes with no second one held. -/
theorem shift_follows_keys_iff (d : PckbdDriver) (stream : List (BitVec 8))
    (hb : EachStep (feed d) BreaksHeld noKeys stream) :
    Throughout (feed d) (ShiftAgrees d) noKeys stream ↔ EachStep (feed d) (OneShift d) noKeys stream :=
  throughout_iff (fun t c (_ : True) h hb => (feed_step d t c h hb).imp fun _ he => ⟨he.1, trivial, he.2⟩) trivial
    (by simp [ShiftAgrees, noKeys]) hb

theorem feed_keys {d : PckbdDriver} {t t' : PckbdState × Finset Nat} {c : BitVec 8} (h : feed d t c = some t') :
    t'.2 = keysAfter t.2 c := by
  obtain ⟨r, -, rfl⟩ := Option.map_eq_some_iff.mp h
  rfl

/-- Left shift pressed, `a` typed, left shift released. -/
theorem shift_follows_keys_one :
    EachStep (feed pckbdUsQwerty) BreaksHeld noKeys [42#8, 30#8, 170#8] ∧
    Throughout (feed pckbdUsQwerty) (ShiftAgrees pckbdUsQwerty) noKeys [42#8, 30#8, 170#8] := by
  have hb : EachStep (feed pckbdUsQwerty) BreaksHeld noKeys [42#8, 30#8, 170#8] := by
    refine ⟨by simp [BreaksHeld, isBreak], fun t₁ h₁ =>
      ⟨by simp [BreaksHeld, isBreak], fun t₂ h₂ => ⟨fun _ => ?_, fun _ _ => trivial⟩⟩⟩
    rw [feed_keys h₂, feed_keys h₁]
    decide
  refine ⟨hb, (shift_follows_keys_iff pckbdUsQwerty _ hb).mpr ?_⟩
  refine ⟨fun _ k hk => ?_, fun t₁ h₁ => ⟨fun hk => ?_, fun t₂ h₂ => ⟨fun _ k hk hks => ?_, fun _ _ => trivial⟩⟩⟩
  · cases hk
  · exact absurd hk (by decide)
  · rw [feed_keys h₂, feed_keys h₁] at hk
    revert k
    decide

/-- A repeat of left shift's make code clears the flag with the key down. -/
theorem shift_lost_by_repeat :
    EachStep (feed pckbdUsQwerty) BreaksHeld noKeys [42#8, 42#8] ∧
    ¬ Throughout (feed pckbdUsQwerty) (ShiftAgrees pckbdUsQwerty) noKeys [42#8, 42#8] := by
  have h₁ : feed pckbdUsQwerty noKeys 42#8 = some (⟨false, true⟩, {42}) := by rfl
  have h₂ : feed pckbdUsQwerty (⟨false, true⟩, {42}) 42#8 = some (⟨false, false⟩, {42}) := by rfl
  refine ⟨⟨by simp [BreaksHeld, isBreak], fun t₁ _ => ⟨by simp [BreaksHeld, isBreak], fun _ _ => trivial⟩⟩, ?_⟩
  rintro ⟨t₁, h, -, t₂, h', hagrees, -⟩
  rw [h₁] at h
  cases h
  rw [h₂] at h'
  cases h'
  have := hagrees.mpr ⟨42, by decide, by decide⟩
  cases this

end ShawnOS
