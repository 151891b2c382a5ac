/-
What the number conversions of `vprintf` do at the edges: signed numbers
below zero, and the bounds of the local buffer.

`%d` counts and stores the digits of a negative number as it does of a
positive one and never stores a sign: C's remainder is negative, so each
character lies as far below `'0'` as the digit's should lie above. The
decimal conversions keep to `buffer[size]` for every argument. The
hexadecimal ones store a NUL behind their digits, and zero's digit in a
buffer of no elements: they never keep to it.
-/
import ShawnOS.Printf
import ShawnOS.Lib.Touched

namespace ShawnOS

open Cells Touched

/-! ## Signed numbers -/

/-- `"%d"`. -/
def percentD : CString := ⟨[0x25, 0x64], by decide⟩

/-- `'-'`. -/
def minusSign : BitVec 8 := 0x2D

/-- The canonical numeral of an integer. -/
def signedNumeral (d : Int) : List (BitVec 8) :=
  if d < 0 then minusSign :: numeral 10 d.natAbs else numeral 10 d.natAbs

/-- The number a text of digits reads as. -/
def readDigits (text : List (BitVec 8)) : Option Nat :=
  text.foldlM (fun n c => if 0x30 ≤ c.toNat ∧ c.toNat ≤ 0x39 then some (10 * n + (c.toNat - 0x30)) else none) 0

/-- The integer a text reads as. -/
def readDecimal (text : List (BitVec 8)) : Option Int :=
  if text.head? = some minusSign then (readDigits text.tail).map fun n : Nat => -(n : Int)
  else (readDigits text).map fun n : Nat => (n : Int)

/-- `vprintf("%d", d)` passes the numeral of `d` to `putchar`, which reads as
`d` again. -/
def PrintsSigned (d : BitVec 32) : Prop :=
  ∃ written text, vprintf percentD [.int d] = some (written, text) ∧ text = signedNumeral d.toInt ∧
    readDecimal text = some d.toInt

theorem digitChar_toNat {d : Nat} (h : d < 10) : (digitChar d).toNat = 0x30 + d := by
  simp [digitChar, h]
  omega

theorem readDigits_digits (n : Nat) : readDigits ((Nat.digits 10 n).reverse.map digitChar) = some n := by
  induction n using Nat.strong_induction_on with
  | _ n ih =>
    by_cases hn : n = 0
    · subst hn
      rfl
    · have hdigit := digitChar_toNat (Nat.mod_lt n (show 10 > 0 by omega))
      have hrest := ih (n / 10) (by omega)
      rw [digits_step (by omega) hn, List.reverse_cons, List.map_append, readDigits, List.foldlM_append, ← readDigits,
        hrest]
      simp [hdigit]
      omega

theorem readDigits_numeral (n : Nat) : readDigits (numeral 10 n) = some n := by
  unfold numeral
  split
  · next h0 =>
    subst h0
    decide
  · exact readDigits_digits n

/-- A numeral is written with digits. -/
theorem mem_numeral {n : Nat} {c : BitVec 8} (h : c ∈ numeral 10 n) : ∃ d, d < 10 ∧ c = digitChar d := by
  unfold numeral at h
  split at h
  · exact ⟨0, by omega, List.mem_singleton.mp h⟩
  · obtain ⟨d, hd, rfl⟩ := List.mem_map.mp h
    exact ⟨d, Nat.digits_lt_base (by omega) (List.mem_reverse.mp hd), rfl⟩

theorem numeral_head (n : Nat) : (numeral 10 n).head? ≠ some minusSign := by
  intro h
  obtain ⟨d, hd, hchar⟩ := mem_numeral (List.mem_of_head? h)
  have hnat := congrArg BitVec.toNat hchar
  rw [digitChar_toNat hd] at hnat
  simp [minusSign] at hnat
  omega

/-- The numeral of an integer reads as the integer. -/
theorem readDecimal_signedNumeral (d : Int) : readDecimal (signedNumeral d) = some d := by
  unfold signedNumeral
  split
  · next hneg =>
    rw [readDecimal, if_pos List.head?_cons, List.tail_cons, readDigits_numeral, Option.map_some, Option.some.injEq]
    omega
  · next hpos =>
    rw [readDecimal, if_neg (numeral_head _), readDigits_numeral, Option.map_some, Option.some.injEq]
    omega

theorem vprintf_percentD (d : BitVec 32) :
    vprintf percentD [.int d] = (printDecimal d.toInt []).map fun text => (0, text) := by
  cases hd : printDecimal d.toInt [] with
  | none => simp [vprintf, vprintfLoop, vprintfTurn, percentD, CString.read, vaArgInt, percentSign, hd]
  | some text => simp [vprintf, vprintfLoop, vprintfTurn, percentD, CString.read, vaArgInt, percentSign, hd]

/-- A negative number is printed in as many characters as it has digits. -/
theorem printDecimal_negative {n : Nat} (hn : n ≠ 0) (hlt : n < 2 ^ 64) {out text : List (BitVec 8)}
    (h : printDecimal (-n) out = some text) : text.length = out.length + (Nat.digits 10 n).length := by
  have hprint := printDecimal_sign (.inr rfl) hn hlt out
  rw [Int.neg_one_mul] at hprint
  obtain rfl := Option.some.inj (hprint.symm.trans h)
  simp

/-- **`%d`** prints the numeral of its argument exactly when that is not
negative. -/
theorem printsSigned_iff (d : BitVec 32) : PrintsSigned d ↔ 0 ≤ d.toInt := by
  have hlo := d.le_toInt
  have hhi := d.toInt_lt
  unfold PrintsSigned
  rw [vprintf_percentD]
  constructor
  · intro ⟨written, text, hprint, htext, _⟩
    by_contra hneg
    obtain ⟨n, hn⟩ : ∃ n : Nat, d.toInt = -n := ⟨d.toInt.natAbs, by omega⟩
    obtain ⟨text', hdec, heq⟩ := Option.map_eq_some_iff.mp hprint
    cases heq
    rw [hn] at hdec htext
    have hlen := printDecimal_negative (by omega) (by omega) hdec
    have hdigits : (signedNumeral (-n)).length = (Nat.digits 10 n).length + 1 := by
      rw [signedNumeral, if_pos (by omega), Int.natAbs_neg, Int.natAbs_natCast, numeral, if_neg (by omega)]
      simp
    rw [htext, hdigits] at hlen
    simp at hlen
  · intro hpos
    obtain ⟨n, hn⟩ : ∃ n : Nat, d.toInt = n := ⟨d.toInt.toNat, by omega⟩
    have hnumeral : signedNumeral d.toInt = numeral 10 n := by
      rw [hn, signedNumeral, if_neg (by omega), Int.natAbs_natCast]
    refine ⟨0, signedNumeral d.toInt, ?_, rfl, readDecimal_signedNumeral _⟩
    rw [hnumeral, hn, printDecimal_eq (by omega)]
    rfl

/-- -5 is printed as a plus sign. -/
theorem printf_minus_five : vprintf percentD [.int (-5)] = some (0, [0x2B]) ∧ ¬ PrintsSigned (-5) := by
  have hprint : vprintf percentD [.int (-5)] = some (0, [0x2B]) := by decide
  refine ⟨hprint, fun ⟨written, text, h, htext, _⟩ => ?_⟩
  rw [hprint] at h
  cases h
  exact absurd htext (by decide)

/-! ## The buffer -/

/-- A `CharBuffer` that records where it is touched. -/
abbrev LoggedBuffer := Logged Int (Option (BitVec 8))

/-- The digit loop of `%d` and `%u`, recording. -/
def decimalFillLogged (size : Nat) : Nat → (i : Nat) → (d : Int) → LoggedBuffer → Option LoggedBuffer
  | 0, _, _, _ => none
  | n + 1, i, d, buffer =>
    if d = 0 then some buffer
    else
      decimalFillLogged size n (i + 1) (d.tdiv 10)
        (buffer.write (size - i - 1) (some (BitVec.ofInt 8 (d.tmod 10 + 0x30))))

/-- The buffer of `%d` and `%u`, with its size. -/
def decimalBuffer (d : Int) : Option (Nat × LoggedBuffer) := do
  let size ← numberSize 10 numberTurns d 0
  let buffer ← decimalFillLogged size numberTurns 0 d (.start fun _ => none)
  some (size, buffer)

/-- The digit loop of `%x` and `%lx`, recording. -/
def hexFillLogged : Nat → (loop : Nat) → (d : Nat) → LoggedBuffer → Option (Nat × LoggedBuffer)
  | 0, _, _, _ => none
  | n + 1, loop, d, buffer =>
    let remainder := d % 16
    let digit := BitVec.ofNat 8 (if remainder < 10 then remainder + 0x30 else remainder + 0x61 - 10)
    let buffer := buffer.write loop (some digit)
    if d / 16 = 0 then some (loop + 1, buffer) else hexFillLogged n (loop + 1) (d / 16) buffer

/-- The reversal loop, recording. -/
def reverseArrayLogged : Nat → («start» «end» : Int) → LoggedBuffer → Option LoggedBuffer
  | 0, _, _, _ => none
  | n + 1, «start», «end», buffer =>
    if «start» < «end» then
      let (tmp, buffer) := buffer.read «start»
      let (c, buffer) := buffer.read «end»
      let buffer := buffer.write «start» c
      reverseArrayLogged n («start» + 1) («end» - 1) (buffer.write «end» tmp)
    else some buffer

/-- The buffer of `%x` and `%lx`, with its size. -/
def hexadecimalBuffer (d : Nat) : Option (Nat × LoggedBuffer) := do
  let size ← numberSize 16 numberTurns d 0
  let (loop, buffer) ← hexFillLogged numberTurns 0 d (.start fun _ => none)
  let buffer := buffer.write loop (some 0)
  let buffer ← reverseArrayLogged numberTurns 0 (Int.bmod (size - 1) 256) buffer
  some (size, buffer)

/-- A number conversion and its argument. -/
inductive NumberArg where
  | d (v : BitVec 32)
  | u (v : BitVec 32)
  | x (v : BitVec 32)
  | lx (v : BitVec 64)

/-- The buffer it fills. -/
def NumberArg.buffer : NumberArg → Option (Nat × LoggedBuffer)
  | .d v => decimalBuffer v.toInt
  | .u v => decimalBuffer v.toNat
  | .x v => hexadecimalBuffer v.toNat
  | .lx v => hexadecimalBuffer v.toNat

/-- `%d` or `%u`. -/
def NumberArg.Decimal : NumberArg → Prop
  | .d _ | .u _ => True
  | .x _ | .lx _ => False

/-- Every element touched is one of the buffer's. -/
def NumberArg.InBuffer (a : NumberArg) : Prop :=
  ∃ size buffer, a.buffer = some (size, buffer) ∧ buffer.Within fun i => 0 ≤ i ∧ i < (size : Int)

/-! ### Recording changes nothing -/

theorem decimalFillLogged_cells (size : Nat) : ∀ (turns i : Nat) (d : Int) (buffer : LoggedBuffer),
    (decimalFillLogged size turns i d buffer).map (·.cells) = decimalFill size turns i d buffer.cells
  | 0, _, _, _ => rfl
  | turns + 1, i, d, buffer => by
    rw [decimalFillLogged, decimalFill]
    split
    · rfl
    · rw [decimalFillLogged_cells]
      rfl

theorem hexFillLogged_cells : ∀ (turns loop d : Nat) (buffer : LoggedBuffer),
    (hexFillLogged turns loop d buffer).map (fun r => (r.1, r.2.cells)) = hexFill turns loop d buffer.cells
  | 0, _, _, _ => rfl
  | turns + 1, loop, d, buffer => by
    simp only [hexFillLogged, hexFill]
    split
    · rfl
    · rw [hexFillLogged_cells]
      rfl

theorem reverseArrayLogged_cells : ∀ (turns : Nat) (i j : Int) (buffer : LoggedBuffer),
    (reverseArrayLogged turns i j buffer).map (·.cells) = reverseArray turns i j buffer.cells
  | 0, _, _, _ => rfl
  | turns + 1, i, j, buffer => by
    simp only [reverseArrayLogged, reverseArray]
    split
    · rw [reverseArrayLogged_cells]
      rfl
    · rfl

/-- What `%d` and `%u` print is what the recorded buffer holds. -/
theorem printDecimal_buffer (d : Int) (out : List (BitVec 8)) :
    printDecimal d out = (do
      let out ← if d = 0 then print (fun _ => some 0x30) 1 0 out else some out
      let (size, buffer) ← decimalBuffer d
      print (fun i => buffer.cells i) size 0 out) := by
  have hfill size := decimalFillLogged_cells size numberTurns 0 d (.start fun _ => none)
  simp only [start_cells] at hfill
  simp only [printDecimal, decimalBuffer, ← hfill, bind, Option.bind_assoc, Option.bind_map, Option.bind_some]
  rfl

/-- What `%x` and `%lx` print is what the recorded buffer holds. -/
theorem printHexadecimal_buffer (d : Nat) (out : List (BitVec 8)) :
    printHexadecimal d out = (do
      let out ← if d = 0 then print (fun _ => some 0x30) 1 0 out else some out
      let (size, buffer) ← hexadecimalBuffer d
      print (fun i => buffer.cells i) size 0 out) := by
  have hfill := hexFillLogged_cells numberTurns 0 d (.start fun _ => none)
  have hreverse (size : Nat) (loop : Nat) (buffer : LoggedBuffer) :=
    reverseArrayLogged_cells numberTurns 0 (Int.bmod (size - 1) 256) (buffer.write loop (some 0))
  simp only [start_cells] at hfill
  simp only [write_cells] at hreverse
  simp only [printHexadecimal, hexadecimalBuffer, ← hfill, bind, Option.bind_assoc, Option.bind_map, Option.bind_some,
    Function.comp_apply, ← hreverse]

/-! ### Bounds -/

theorem numberSize_le {base : Int} : ∀ {turns : Nat} {temp : Int} {size result : Nat},
    numberSize base turns temp size = some result → size ≤ result
  | 0, _, _, _, h => by cases h
  | turns + 1, temp, size, result, h => by
    rw [numberSize] at h
    split at h
    · cases h
      exact le_rfl
    · exact Nat.le_of_succ_le (numberSize_le h)

/-- The digit loop takes the turns that counted the digits. -/
theorem decimalFillLogged_within {size : Nat} : ∀ {turns i : Nat} {d : Int} {buffer : LoggedBuffer},
    numberSize 10 turns d i = some size → buffer.Within (fun j => 0 ≤ j ∧ j < (size : Int)) →
    ∃ buffer', decimalFillLogged size turns i d buffer = some buffer' ∧ buffer'.Within fun j => 0 ≤ j ∧ j < (size : Int)
  | 0, _, _, _, h, _ => by cases h
  | turns + 1, i, d, buffer, h, hw => by
    rw [numberSize] at h
    rw [decimalFillLogged]
    split at h
    · next h0 => exact ⟨buffer, if_pos h0, hw⟩
    · next h0 =>
      have hle := numberSize_le h
      rw [if_neg h0]
      exact decimalFillLogged_within h (within_write.mpr ⟨by omega, hw⟩)

theorem decimalBuffer_within {d : Int} {size : Nat} (h : numberSize 10 numberTurns d 0 = some size) :
    ∃ buffer, decimalBuffer d = some (size, buffer) ∧ buffer.Within fun i => 0 ≤ i ∧ i < (size : Int) := by
  obtain ⟨buffer, hfill, hw⟩ := decimalFillLogged_within h (within_start fun _ => none)
  exact ⟨buffer, by simp [decimalBuffer, h, hfill], hw⟩

/-- What was touched before the reversal still counts. -/
theorem reverseArrayLogged_within {P : Int → Prop} : ∀ {turns : Nat} {i j : Int} {buffer buffer' : LoggedBuffer},
    reverseArrayLogged turns i j buffer = some buffer' → buffer'.Within P → buffer.Within P
  | 0, _, _, _, _, h, _ => by cases h
  | turns + 1, i, j, buffer, buffer', h, hw => by
    rw [reverseArrayLogged] at h
    split at h
    · have hwritten := (within_write.mp (within_write.mp (reverseArrayLogged_within h hw)).2).2
      exact (within_read.mp (within_read.mp hwritten).2).2
    · cases h
      exact hw

/-- The NUL is stored at the size or behind. -/
theorem hexadecimalBuffer_outside {d size : Nat} {buffer : LoggedBuffer} (hd : d < 2 ^ 64)
    (h : hexadecimalBuffer d = some (size, buffer)) : ¬ buffer.Within fun i => 0 ≤ i ∧ i < (size : Int) := by
  intro hw
  have hturns := digits_turns (show 1 < 16 by omega) hd
  have hsize := @numberSize_digits 16 (by omega) d (by omega)
  obtain ⟨loop, cells, hfill, hle, -⟩ := @hexFill_holds numberTurns 0 d [] (fun _ => none) hturns holds_nil rfl
  rw [← start_cells fun _ => (none : Option (BitVec 8)), ← hexFillLogged_cells] at hfill
  obtain ⟨⟨loop', filled⟩, hlogged, heq⟩ := Option.map_eq_some_iff.mp hfill
  cases heq
  simp only [hexadecimalBuffer, hlogged, bind, Option.bind_eq_some_iff, Option.some.injEq, Prod.mk.injEq,
    exists_eq_left'] at h
  obtain ⟨size', hsize', ⟨buffer', hreverse, rfl, rfl⟩⟩ := h
  have hnul := (within_write.mp (reverseArrayLogged_within hreverse hw)).1
  obtain rfl : (Nat.digits 16 d).length = size' := Option.some.inj (hsize.symm.trans hsize')
  omega

theorem NumberArg.decimal_inBuffer {a : NumberArg} {d : Int} (ha : a.buffer = decimalBuffer d)
    (hd : d.natAbs < 2 ^ 64) : a.InBuffer := by
  obtain ⟨buffer, hbuffer, hw⟩ := decimalBuffer_within (@numberSize_digits 10 (by omega) d hd)
  exact ⟨_, buffer, ha.trans hbuffer, hw⟩

/-- **The conversions that keep to their buffer**: `%d` and `%u` for every
argument, `%x` and `%lx` for none. -/
theorem number_inBuffer_iff (a : NumberArg) : a.InBuffer ↔ a.Decimal := by
  cases a with
  | d v =>
    have hlo := v.le_toInt
    have hhi := v.toInt_lt
    exact iff_of_true (NumberArg.decimal_inBuffer rfl (by omega)) trivial
  | u v => exact iff_of_true (NumberArg.decimal_inBuffer rfl (by omega)) trivial
  | x v => exact iff_of_false (fun ⟨_, _, h, hw⟩ => hexadecimalBuffer_outside (by omega) h hw) id
  | lx v => exact iff_of_false (fun ⟨_, _, h, hw⟩ => hexadecimalBuffer_outside (by omega) h hw) id

/-- The NUL behind the one digit of 1. -/
theorem hexadecimal_one_outside : ¬ NumberArg.InBuffer (.x 1) := by
  intro ⟨size, buffer, h, hw⟩
  cases h
  exact absurd (hw 1 (by decide)) (by decide)

end ShawnOS
