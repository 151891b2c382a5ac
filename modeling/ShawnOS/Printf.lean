/-
Formatted output (`libsc/stdio/printf.c`).

`pieces` reads a format as literal characters and conversions, and `expand`
writes it with the values put in. `vprintf` scans it with a pointer,
jumping into the branch for literal text from three places, and fills a
buffer for each number. Both pass the same characters to `putchar`.
-/
import ShawnOS.Kernel
import ShawnOS.Lib.Cells
import Mathlib.Data.BitVec
import Mathlib.Data.Nat.Digits.Lemmas

namespace ShawnOS

open Cells

/-- A string in memory: its characters, none of them NUL. -/
structure CString where
  chars : List (BitVec 8)
  noNul : 0 ∉ chars

/-- `string[i]`. Behind the terminating NUL there is nothing to read. -/
def CString.read (string : CString) (i : Nat) : Option (BitVec 8) := (string.chars ++ [0])[i]?

/-- An argument. -/
inductive VaArg where
  | int (d : BitVec 32)
  | uint32 (d : BitVec 32)
  | uint64 (d : BitVec 64)
  | string (s : CString)

/-- `va_arg(parameters, int)`. -/
def vaArgInt : List VaArg → Option (BitVec 32 × List VaArg)
  | .int d :: parameters => some (d, parameters)
  | _ => none

/-- `va_arg(parameters, uint32_t)`. -/
def vaArgUint32 : List VaArg → Option (BitVec 32 × List VaArg)
  | .uint32 d :: parameters => some (d, parameters)
  | _ => none

/-- `va_arg(parameters, uint64_t)`. -/
def vaArgUint64 : List VaArg → Option (BitVec 64 × List VaArg)
  | .uint64 d :: parameters => some (d, parameters)
  | _ => none

/-- `va_arg(parameters, const char*)`. -/
def vaArgString : List VaArg → Option (CString × List VaArg)
  | .string s :: parameters => some (s, parameters)
  | _ => none

/-- `print`, with `rem` characters left from `i` on. `out` is what `putchar`
was passed so far. -/
def print (data : Nat → Option (BitVec 8)) : (rem i : Nat) → List (BitVec 8) → Option (List (BitVec 8))
  | 0, _, out => some out
  | rem + 1, i, out => do
    let c ← data i
    print data rem (i + 1) (out ++ [c])

/-- `strlen`, in at most the given number of turns. -/
def strlen (string : CString) : Nat → (result : Nat) → Option Nat
  | 0, _ => none
  | n + 1, result => do
    let c ← string.read result
    if c = 0 then some result else strlen string n (result + 1)

/-! ## Numbers -/

/-- `char buffer[size]` and the stack behind it. -/
abbrev CharBuffer := Int → Option (BitVec 8)

/-- `while(temp) { ++size; temp /= base; }`. -/
def numberSize (base : Int) : Nat → (temp : Int) → (size : Nat) → Option Nat
  | 0, _, _ => none
  | n + 1, temp, size => if temp = 0 then some size else numberSize base n (temp.tdiv base) (size + 1)

/-- `for(i=0; d; i++)`, from the last digit on. -/
def decimalFill (size : Nat) : Nat → (i : Nat) → (d : Int) → CharBuffer → Option CharBuffer
  | 0, _, _, _ => none
  | n + 1, i, d, buffer =>
    if d = 0 then some buffer
    else
      decimalFill size n (i + 1) (d.tdiv 10)
        (Function.update buffer (size - i - 1) (some (BitVec.ofInt 8 (d.tmod 10 + 0x30))))

/-- No number has more than 64 digits. -/
def numberTurns : Nat := 65

/-- `%d` and `%u`. -/
def printDecimal (d : Int) (out : List (BitVec 8)) : Option (List (BitVec 8)) := do
  let out ← if d = 0 then print (fun _ => some 0x30) 1 0 out else some out
  let size ← numberSize 10 numberTurns d 0
  let buffer ← decimalFill size numberTurns 0 d fun _ => none
  print (fun i => buffer i) size 0 out

/-- `do { ... } while (d /= divisor)`. -/
def hexFill : Nat → (loop : Nat) → (d : Nat) → CharBuffer → Option (Nat × CharBuffer)
  | 0, _, _, _ => none
  | n + 1, loop, d, buffer =>
    let remainder := d % 16
    let digit := BitVec.ofNat 8 (if remainder < 10 then remainder + 0x30 else remainder + 0x61 - 10)
    let buffer := Function.update buffer loop (some digit)
    if d / 16 = 0 then some (loop + 1, buffer) else hexFill n (loop + 1) (d / 16) buffer

/-- `while(start < end)`. -/
def reverseArray : Nat → («start» «end» : Int) → CharBuffer → Option CharBuffer
  | 0, _, _, _ => none
  | n + 1, «start», «end», buffer =>
    if «start» < «end» then
      let tmp := buffer «start»
      let buffer := Function.update buffer «start» (buffer «end»)
      reverseArray n («start» + 1) («end» - 1) (Function.update buffer «end» tmp)
    else some buffer

/-- `%x` and `%lx`. The NUL goes behind the array, as zero's digit does; the
array is not read there. -/
def printHexadecimal (d : Nat) (out : List (BitVec 8)) : Option (List (BitVec 8)) := do
  let out ← if d = 0 then print (fun _ => some 0x30) 1 0 out else some out
  let size ← numberSize 16 numberTurns d 0
  let (loop, buffer) ← hexFill numberTurns 0 d fun _ => none
  let buffer := Function.update buffer loop (some 0)
  -- `end` is a `char`.
  let buffer ← reverseArray numberTurns 0 (Int.bmod (size - 1) 256) buffer
  print (fun i => buffer i) size 0 out

/-! ## The scanner -/

/-- `'%'`. -/
def percentSign : BitVec 8 := 0x25

/-- The variables of `vprintf`. `format` is where in the string the pointer
is, `out` what `putchar` was passed. -/
structure Vprintf where
  format : Nat
  written : BitVec 32
  rejectedBadSpecifier : Bool
  parameters : List VaArg
  out : List (BitVec 8)

/-- `while ( format[amount] && format[amount] != '%' )`. -/
def textAmount (string : CString) (format : Nat) : Nat → (amount : Nat) → Option Nat
  | 0, _ => none
  | n + 1, amount => do
    let c ← string.read (format + amount)
    if c ≠ 0 ∧ c ≠ percentSign then textAmount string format n (amount + 1) else some amount

/-- The branch at `print_c`. -/
def printC (string : CString) (s : Vprintf) : Option Vprintf := do
  let amount ← textAmount string s.format (string.chars.length + 1) 1
  let out ← print (fun i => string.read (s.format + i)) amount 0 s.out
  some { s with format := s.format + amount, written := s.written + BitVec.ofNat 32 amount, out }

/-- The branch at `incomprehensible_conversion`. -/
def incomprehensibleConversion (string : CString) (formatBegunAt : Nat) (s : Vprintf) : Option Vprintf :=
  printC string { s with rejectedBadSpecifier := true, format := formatBegunAt }

/-- One turn of the loop in `vprintf`. -/
def vprintfTurn (string : CString) (s : Vprintf) : Option Vprintf := do
  if (← string.read s.format) ≠ percentSign then printC string s
  else
    let formatBegunAt := s.format
    let s := { s with format := s.format + 1 }
    let c ← string.read s.format
    if c = percentSign then printC string s
    else if s.rejectedBadSpecifier then incomprehensibleConversion string formatBegunAt s
    else if c = 0x63 then
      let (v, parameters) ← vaArgInt s.parameters
      let out ← print (fun _ => some (v.setWidth 8)) 1 0 s.out
      some { s with format := s.format + 1, parameters, out }
    else if c = 0x64 then
      let (d, parameters) ← vaArgInt s.parameters
      let out ← printDecimal d.toInt s.out
      some { s with format := s.format + 1, parameters, out }
    else if c = 0x75 then
      let (d, parameters) ← vaArgUint32 s.parameters
      let out ← printDecimal d.toNat s.out
      some { s with format := s.format + 1, parameters, out }
    else if c = 0x78 then
      let (d, parameters) ← vaArgUint32 s.parameters
      let out ← printHexadecimal d.toNat s.out
      some { s with format := s.format + 1, parameters, out }
    else if c = 0x6C then
      -- Only behind an `l` is the second character read.
      if (← string.read (s.format + 1)) = 0x78 then
        let (d, parameters) ← vaArgUint64 s.parameters
        let out ← printHexadecimal d.toNat s.out
        some { s with format := s.format + 2, parameters, out }
      else incomprehensibleConversion string formatBegunAt s
    else if c = 0x73 then
      let (string', parameters) ← vaArgString s.parameters
      let length ← strlen string' (string'.chars.length + 1) 0
      let out ← print string'.read length 0 s.out
      some { s with format := s.format + 1, parameters, out }
    else incomprehensibleConversion string formatBegunAt s

/-- `while ( *format != '\0' )`. -/
def vprintfLoop (string : CString) : Nat → Vprintf → Option Vprintf
  | 0, _ => none
  | n + 1, s => do
    if (← string.read s.format) = 0 then some s
    else
      let s ← vprintfTurn string s
      vprintfLoop string n s

/-- `vprintf`: what it returns, and the characters passed to `putchar`. -/
def vprintf (format : CString) (parameters : List VaArg) : Option (BitVec 32 × List (BitVec 8)) := do
  let s ← vprintfLoop format (format.chars.length + 1)
    { format := 0, written := 0, rejectedBadSpecifier := false, parameters, out := [] }
  some (s.written, s.out)

/-! ## The format language -/

/-- A conversion. -/
inductive Conversion where
  | c | d | u | x | lx | s

/-- A literal character or a conversion. -/
inductive Piece where
  | text (c : BitVec 8)
  | conversion (k : Conversion)

/-- The conversion at the head of what follows a percent sign. -/
def conversionAt : List (BitVec 8) → Option (Conversion × List (BitVec 8))
  | [] => none
  | c :: l =>
    if c = 0x63 then some (.c, l)
    else if c = 0x64 then some (.d, l)
    else if c = 0x75 then some (.u, l)
    else if c = 0x78 then some (.x, l)
    else if c = 0x73 then some (.s, l)
    else if c = 0x6C ∧ l.head? = some 0x78 then some (.lx, l.tail)
    else none

/-- What a percent sign before `l` stands for, whether conversions are
rejected from there on, and what is left. -/
def directive (rejected : Bool) (l : List (BitVec 8)) : Piece × Bool × List (BitVec 8) :=
  if l.head? = some percentSign then (.text percentSign, rejected, l.tail)
  else
    match rejected, conversionAt l with
    | false, some (k, l) => (.conversion k, false, l)
    | _, _ => (.text percentSign, true, l)

theorem conversionAt_length {l l' : List (BitVec 8)} {k : Conversion} (h : conversionAt l = some (k, l')) :
    l'.length < l.length := by
  cases l with
  | nil => cases h
  | cons c l =>
    have hrest : l' = l ∨ l' = l.tail := by
      simp only [conversionAt] at h
      grind
    rcases hrest with rfl | rfl <;> simp

theorem directive_length (rejected : Bool) (l : List (BitVec 8)) : (directive rejected l).2.2.length ≤ l.length := by
  unfold directive
  split
  · simp
  · split
    · next h => exact Nat.le_of_lt (conversionAt_length h)
    · exact Nat.le_refl _

/-- **The format, read**: the first conversion not recognised and every one
after it are text. -/
def pieces (rejected : Bool) : List (BitVec 8) → List Piece
  | [] => []
  | c :: l =>
    if c = percentSign then
      (directive rejected l).1 :: pieces (directive rejected l).2.1 (directive rejected l).2.2
    else .text c :: pieces rejected l
termination_by l => l.length
decreasing_by
  · exact Nat.lt_succ_of_le (directive_length rejected l)
  · exact Nat.lt_succ_self _

/-- A digit below sixteen. -/
def digitChar (d : Nat) : BitVec 8 := BitVec.ofNat 8 (if d < 10 then 0x30 + d else 0x61 + (d - 10))

/-- The canonical numeral. -/
def numeral (base n : Nat) : List (BitVec 8) :=
  if n = 0 then [0x30] else (Nat.digits base n).reverse.map digitChar

/-- The argument is of the conversion's type, and for `%d` not negative. -/
def Conversion.Takes : Conversion → VaArg → Prop
  | .c, .int _ => True
  | .d, .int v => 0 ≤ v.toInt
  | .u, .uint32 _ => True
  | .x, .uint32 _ => True
  | .lx, .uint64 _ => True
  | .s, .string _ => True
  | _, _ => False

/-- The argument, written. -/
def Conversion.write : Conversion → VaArg → List (BitVec 8)
  | .c, .int v => [v.setWidth 8]
  | .d, .int v => numeral 10 v.toNat
  | .u, .uint32 v => numeral 10 v.toNat
  | .x, .uint32 v => numeral 16 v.toNat
  | .lx, .uint64 v => numeral 16 v.toNat
  | .s, .string v => v.chars
  | _, _ => []

/-- Each conversion finds an argument to take. -/
def Supplies : List Piece → List VaArg → Prop
  | [], _ => True
  | .text _ :: ps, args => Supplies ps args
  | .conversion k :: ps, a :: args => k.Takes a ∧ Supplies ps args
  | .conversion _ :: _, [] => False

/-- **The expansion.** -/
def expand : List Piece → List VaArg → List (BitVec 8)
  | [], _ => []
  | .text c :: ps, args => c :: expand ps args
  | .conversion k :: ps, a :: args => k.write a ++ expand ps args
  | .conversion _ :: _, [] => []

/-- The argument is of the conversion's type. -/
def Conversion.Accepts : Conversion → VaArg → Prop
  | .c, .int _ => True
  | .d, .int _ => True
  | .u, .uint32 _ => True
  | .x, .uint32 _ => True
  | .lx, .uint64 _ => True
  | .s, .string _ => True
  | _, _ => False

/-- Each conversion finds an argument of its type. -/
def Matched : List Piece → List VaArg → Prop
  | [], _ => True
  | .text _ :: ps, args => Matched ps args
  | .conversion k :: ps, a :: args => k.Accepts a ∧ Matched ps args
  | .conversion _ :: _, [] => False

/-- The character stored for a digit of a number of that sign: below zero the
remainder is negative too. -/
def decimalChar (sign : Int) (digit : Nat) : BitVec 8 := BitVec.ofInt 8 (sign * digit + 0x30)

/-- What is passed to `putchar` for an argument. -/
def Conversion.passed : Conversion → VaArg → List (BitVec 8)
  | .d, .int v =>
    if 0 ≤ v.toInt then numeral 10 v.toNat else (Nat.digits 10 v.toInt.natAbs).reverse.map (decimalChar (-1))
  | k, a => k.write a

/-! ## Printing -/

/-- Printing what the data holds. -/
theorem print_eq {data : Nat → Option (BitVec 8)} : ∀ {l : List (BitVec 8)} {i : Nat} {out : List (BitVec 8)},
    (∀ (k : Nat) (h : k < l.length), data (i + k) = some l[k]) → print data l.length i out = some (out ++ l)
  | [], _, out, _ => by simp [print]
  | c :: l, i, out, h => by
    have hc : data i = some c := h 0 (Nat.zero_lt_succ _)
    have hl := @print_eq data l (i + 1) (out ++ [c]) fun k hk => by
      rw [Nat.add_assoc, Nat.add_comm 1 k]
      exact h (k + 1) (Nat.succ_lt_succ hk)
    simp [print, hc, hl]

theorem print_one (c : BitVec 8) (out : List (BitVec 8)) : print (fun _ => some c) 1 0 out = some (out ++ [c]) := rfl

/-- Printing a buffer. -/
theorem print_buffer {buffer : CharBuffer} {l : List (BitVec 8)} (h : Holds buffer 0 l) (out : List (BitVec 8)) :
    print (fun i => buffer i) l.length 0 out = some (out ++ l) :=
  print_eq fun k hk => by
    have := h k hk
    simpa using this

/-! ## The number loops -/

/-- What a numeral's digits are, from the first. -/
theorem digits_step {base n : Nat} (hb : 1 < base) (hn : n ≠ 0) :
    Nat.digits base n = n % base :: Nat.digits base (n / base) :=
  Nat.digits_eq_cons_digits_div hb hn

/-- Sixty-four digits are enough. -/
theorem digits_turns {base n : Nat} (hb : 1 < base) (hn : n < 2 ^ 64) :
    (Nat.digits base n).length < numberTurns := by
  have hle : (Nat.digits base n).length ≤ 64 := by
    rw [Nat.digits_length_le_iff hb]
    exact Nat.lt_of_lt_of_le hn (Nat.pow_le_pow_left hb 64)
  exact Nat.lt_succ_of_le hle

theorem numberSize_eq {base : Nat} (hb : 1 < base) : ∀ {turns n size : Nat}, (Nat.digits base n).length < turns →
    numberSize base turns n size = some (size + (Nat.digits base n).length)
  | 0, _, _, h => absurd h (Nat.not_lt_zero _)
  | turns + 1, n, size, h => by
    rw [numberSize]
    by_cases hn : n = 0
    · simp [hn]
    · rw [digits_step hb hn, List.length_cons] at h ⊢
      rw [if_neg (by exact_mod_cast hn), ← Int.ofNat_tdiv, numberSize_eq hb (Nat.lt_of_succ_lt_succ h)]
      congr 1
      omega

theorem numberSize_neg (base : Int) : ∀ (turns : Nat) (temp : Int) (size : Nat),
    numberSize base turns (-temp) size = numberSize base turns temp size
  | 0, _, _ => rfl
  | turns + 1, temp, size => by
    simp only [numberSize, Int.neg_eq_zero, Int.neg_tdiv]
    rw [numberSize_neg base turns]

/-- The size is the number of digits, whatever the sign. -/
theorem numberSize_digits {base : Nat} (hb : 1 < base) {d : Int} (hd : d.natAbs < 2 ^ 64) :
    numberSize base numberTurns d 0 = some (Nat.digits base d.natAbs).length := by
  have habs : numberSize base numberTurns d 0 = numberSize base numberTurns d.natAbs 0 := by
    rcases Int.natAbs_eq d with he | he
    · rw [← he]
    · conv_lhs => rw [he, numberSize_neg]
  rw [habs, numberSize_eq hb (digits_turns hb hd), Nat.zero_add]

theorem digitChar_decimal (n : Nat) : BitVec.ofInt 8 ((n : Int).tmod 10 + 0x30) = digitChar (n % 10) := by
  have hmod : (n : Int).tmod 10 = (n % 10 : Nat) := (Int.ofNat_tmod n 10).symm
  rw [digitChar, if_pos (Nat.mod_lt n (by omega)), hmod, Int.add_comm]
  exact BitVec.ofInt_natCast 8 (0x30 + n % 10)

theorem decimalChar_pos {digit : Nat} (h : digit < 10) : decimalChar 1 digit = digitChar digit := by
  rw [decimalChar, digitChar, if_pos h, Int.one_mul, Int.add_comm]
  exact BitVec.ofInt_natCast 8 (0x30 + digit)

theorem sign_mul_tdiv {sign : Int} (hs : sign = 1 ∨ sign = -1) (n : Nat) :
    (sign * n).tdiv 10 = sign * (n / 10 : Nat) ∧ (sign * n).tmod 10 = sign * (n % 10 : Nat) := by
  have hdiv : (n : Int).tdiv 10 = (n / 10 : Nat) := (Int.ofNat_tdiv n 10).symm
  have hmod : (n : Int).tmod 10 = (n % 10 : Nat) := (Int.ofNat_tmod n 10).symm
  rcases hs with rfl | rfl
  · rw [Int.one_mul, Int.one_mul, Int.one_mul]
    exact ⟨hdiv, hmod⟩
  · rw [Int.neg_one_mul, Int.neg_one_mul, Int.neg_one_mul, Int.neg_tdiv, Int.neg_tmod, hdiv, hmod]
    exact ⟨rfl, rfl⟩

theorem sign_mul_eq_zero {sign : Int} (hs : sign = 1 ∨ sign = -1) (n : Nat) : sign * n = 0 ↔ n = 0 := by
  rcases hs with rfl | rfl <;> omega

/-- The digits are stored from the buffer's end on, each before the last. -/
theorem decimalFill_holds {sign : Int} (hs : sign = 1 ∨ sign = -1) {size : Nat} :
    ∀ {turns i n : Nat} {l : List (BitVec 8)} {buffer : CharBuffer},
    (Nat.digits 10 n).length < turns → Holds buffer (size - i) l →
    ∃ buffer', decimalFill size turns i (sign * n) buffer = some buffer' ∧
      Holds buffer' (size - i - (Nat.digits 10 n).length) ((Nat.digits 10 n).reverse.map (decimalChar sign) ++ l)
  | 0, _, _, _, _, h, _ => absurd h (Nat.not_lt_zero _)
  | turns + 1, i, n, l, buffer, h, hl => by
    rw [decimalFill]
    by_cases hn : n = 0
    · exact ⟨buffer, by simp [hn], by simpa [hn] using hl⟩
    · rw [digits_step (by omega) hn, List.length_cons] at h ⊢
      obtain ⟨hdiv, hmod⟩ := sign_mul_tdiv hs n
      rw [if_neg (mt (sign_mul_eq_zero hs n).mp hn), hdiv, hmod, ← decimalChar]
      have hplace : (size : Int) - i - 1 = size - (i + 1 : Nat) := by omega
      have hplus : (size : Int) - i - 1 + 1 = size - i := by omega
      have hstore := Holds.store_before (hplus ▸ hl) (decimalChar sign (n % 10))
      rw [hplace] at hstore ⊢
      obtain ⟨buffer', he, hb⟩ := decimalFill_holds hs (Nat.lt_of_succ_lt_succ h) hstore
      refine ⟨buffer', he, ?_⟩
      rw [List.reverse_cons, List.map_append, List.append_assoc, List.map_singleton, List.singleton_append]
      convert hb using 1
      omega

/-- What is printed of a number that is not zero. -/
theorem printDecimal_sign {sign : Int} (hs : sign = 1 ∨ sign = -1) {n : Nat} (h0 : n ≠ 0) (hn : n < 2 ^ 64)
    (out : List (BitVec 8)) :
    printDecimal (sign * n) out = some (out ++ (Nat.digits 10 n).reverse.map (decimalChar sign)) := by
  have habs : (sign * n).natAbs = n := by rcases hs with rfl | rfl <;> omega
  have hturns := digits_turns (show 1 < 10 by omega) hn
  have hsize := @numberSize_digits 10 (by omega) (sign * n) (by omega)
  rw [habs] at hsize
  obtain ⟨buffer, hfill, hb⟩ :=
    @decimalFill_holds sign hs (Nat.digits 10 n).length numberTurns 0 n [] (fun _ => none) hturns holds_nil
  have hat : ((Nat.digits 10 n).length : Int) - (0 : Nat) - (Nat.digits 10 n).length = 0 := by omega
  rw [hat, List.append_nil] at hb
  have hprint := print_buffer hb out
  rw [List.length_map, List.length_reverse] at hprint
  have hne : ¬ sign * n = 0 := mt (sign_mul_eq_zero hs n).mp h0
  have hsize' : numberSize 10 numberTurns (sign * n) 0 = some (Nat.digits 10 n).length := hsize
  simp only [printDecimal, if_neg hne, bind, Option.bind_some, hsize', hfill, hprint]

/-- **Decimal numbers.** -/
theorem printDecimal_eq {n : Nat} (hn : n < 2 ^ 64) (out : List (BitVec 8)) :
    printDecimal n out = some (out ++ numeral 10 n) := by
  by_cases h0 : n = 0
  · subst h0
    rfl
  have hsign := printDecimal_sign (.inl rfl) h0 hn out
  rw [Int.one_mul] at hsign
  rw [hsign, numeral, if_neg h0]
  congr 2
  refine List.map_congr_left fun d hd => decimalChar_pos ?_
  exact Nat.digits_lt_base (by omega) (List.mem_reverse.mp hd)

theorem digitChar_hexadecimal (n : Nat) :
    BitVec.ofNat 8 (if n % 16 < 10 then n % 16 + 0x30 else n % 16 + 0x61 - 10) = digitChar (n % 16) := by
  unfold digitChar
  congr 1
  split <;> omega

/-- Zero's digit is stored too, where nothing is printed. -/
theorem hexFill_holds : ∀ {turns loop n : Nat} {l : List (BitVec 8)} {buffer : CharBuffer},
    (Nat.digits 16 n).length < turns → Holds buffer 0 l → l.length = loop →
    ∃ loop' buffer', hexFill turns loop n buffer = some (loop', buffer') ∧ loop + (Nat.digits 16 n).length ≤ loop' ∧
      Holds buffer' 0 (l ++ (Nat.digits 16 n).map digitChar)
  | 0, _, _, _, _, h, _, _ => absurd h (Nat.not_lt_zero _)
  | turns + 1, loop, n, l, buffer, h, hl, hloop => by
    rw [hexFill, digitChar_hexadecimal]
    have hstore := hl.store_behind (digitChar (n % 16))
    rw [hloop, Int.zero_add] at hstore
    by_cases hn : n = 0
    · subst hn
      refine ⟨loop + 1, _, rfl, by simp, ?_⟩
      have hother := @Holds.store_other _ _ _ _ hl loop (.inr (by omega)) (some (digitChar (0 % 16)))
      simpa using hother
    · rw [digits_step (by omega) hn, List.length_cons] at h ⊢
      by_cases hlast : n / 16 = 0
      · rw [if_pos hlast, hlast]
        exact ⟨loop + 1, _, rfl, by simp, by simpa using hstore⟩
      · rw [if_neg hlast]
        obtain ⟨loop', buffer', he, hle, hb⟩ := hexFill_holds (Nat.lt_of_succ_lt_succ h) hstore
          (show (l ++ [digitChar (n % 16)]).length = loop + 1 by simp [hloop])
        exact ⟨loop', buffer', he, by omega, by simpa using hb⟩

/-- Each turn mirrors two cells. -/
theorem reverseArray_eq : ∀ {turns : Nat} {i j : Int} {buffer : CharBuffer}, 0 < turns →
    j - i < 2 * turns - 1 →
    ∃ buffer', reverseArray turns i j buffer = some buffer' ∧
      (∀ k, i ≤ k → k ≤ j → buffer' k = buffer (i + j - k)) ∧ (∀ k, k < i ∨ j < k → buffer' k = buffer k)
  | 0, _, _, _, h, _ => absurd h (Nat.not_lt_zero _)
  | turns + 1, i, j, buffer, _, h => by
    rw [reverseArray]
    by_cases hij : i < j
    · rw [if_pos hij]
      obtain ⟨buffer', he, hin, hout⟩ := @reverseArray_eq turns (i + 1) (j - 1)
        (Function.update (Function.update buffer i (buffer j)) j (buffer i)) (by omega) (by omega)
      refine ⟨buffer', he, fun k hik hkj => ?_, fun k hk => ?_⟩
      · by_cases hki : k = i
        · subst hki
          rw [hout k (.inl (by omega)), Function.update_of_ne (by omega), Function.update_self]
          exact congrArg buffer (by omega)
        · by_cases hkj' : k = j
          · subst hkj'
            rw [hout k (.inr (by omega)), Function.update_self]
            exact congrArg buffer (by omega)
          · rw [hin k (by omega) (by omega), Function.update_of_ne (by omega), Function.update_of_ne (by omega)]
            exact congrArg buffer (by omega)
      · rw [hout k (by omega), Function.update_of_ne (by omega), Function.update_of_ne (by omega)]
    · rw [if_neg hij]
      refine ⟨buffer, rfl, fun k hik hkj => ?_, fun _ _ => rfl⟩
      exact congrArg buffer (by omega)

/-- **Hexadecimal numbers.** -/
theorem printHexadecimal_eq {n : Nat} (hn : n < 2 ^ 64) (out : List (BitVec 8)) :
    printHexadecimal n out = some (out ++ numeral 16 n) := by
  by_cases h0 : n = 0
  · subst h0
    rfl
  have hturns := digits_turns (show 1 < 16 by omega) hn
  have hsize : numberSize 16 numberTurns n 0 = some (Nat.digits 16 n).length := numberSize_digits (show 1 < 16 by omega) hn
  obtain ⟨loop, buffer, hfill, hle, hb⟩ := @hexFill_holds numberTurns 0 n [] (fun _ => none) hturns holds_nil rfl
  rw [List.nil_append] at hb
  have hend : ((Nat.digits 16 n).length - 1 : Int).bmod 256 = (Nat.digits 16 n).length - 1 := by
    unfold numberTurns at hturns
    rw [Int.bmod_eq_of_le (by omega) (by omega)]
  have hnul := @Holds.store_other _ _ _ _ hb loop (.inr (by rw [List.length_map]; omega)) (some 0#8)
  obtain ⟨buffer', hrev, hin, -⟩ := @reverseArray_eq numberTurns 0 ((Nat.digits 16 n).length - 1)
    (Function.update buffer loop (some 0#8)) (by decide) (by unfold numberTurns at hturns ⊢; omega)
  have hb' := @Holds.mirror _ _ buffer' _ _ hnul fun i hi hi' => by
    rw [List.length_map] at hi' ⊢
    rw [hin i hi (by omega)]
    exact congrArg (Function.update buffer loop (some 0#8)) (by omega)
  rw [← List.map_reverse] at hb'
  have hprint := print_buffer hb' out
  rw [List.length_map, List.length_reverse] at hprint
  simp [printHexadecimal, numeral, h0, hsize, hfill, hend, hrev, hprint]

/-! ## The scanner's reads -/

/-- The pointer is at index `i`, with `l` before it up to the NUL. -/
def CString.At (string : CString) (i : Nat) (l : List (BitVec 8)) : Prop :=
  ∃ before, string.chars = before ++ l ∧ before.length = i

variable {string : CString} {i : Nat} {c : BitVec 8} {l l' : List (BitVec 8)}

theorem CString.at_zero (string : CString) : string.At 0 string.chars := ⟨[], rfl, rfl⟩

theorem CString.At.skip (h : string.At i (l ++ l')) : string.At (i + l.length) l' := by
  obtain ⟨before, hb, hi⟩ := h
  exact ⟨before ++ l, by rw [hb, List.append_assoc], by rw [List.length_append, hi]⟩

theorem CString.At.next (h : string.At i (c :: l)) : string.At (i + 1) l := CString.At.skip (l := [c]) h

theorem CString.At.read_nil (h : string.At i []) : string.read i = some 0 := by
  obtain ⟨before, hb, hi⟩ := h
  rw [List.append_nil] at hb
  simp [CString.read, hb, ← hi]

theorem CString.At.read_cons (h : string.At i (c :: l)) : string.read i = some c := by
  obtain ⟨before, hb, hi⟩ := h
  simp [CString.read, hb, ← hi]

theorem CString.At.ne_nul (h : string.At i l) : ∀ c ∈ l, c ≠ 0 := by
  obtain ⟨before, hb, -⟩ := h
  rintro c hc rfl
  exact string.noNul (hb ▸ List.mem_append_right before hc)

theorem CString.At.length_le (h : string.At i l) : l.length ≤ string.chars.length := by
  obtain ⟨before, hb, -⟩ := h
  simp [hb]

/-- What is read from the pointer on. -/
theorem CString.At.read_add (h : string.At i (l ++ l')) {k : Nat} (hk : k < l.length) :
    string.read (i + k) = some l[k] := by
  obtain ⟨before, hb, rfl⟩ := h
  rw [CString.read, hb, List.append_assoc, List.getElem?_append_right (by omega), Nat.add_sub_cancel_left,
    List.append_assoc, List.getElem?_append_left hk, List.getElem?_eq_getElem hk]

/-! ## The scanner -/

theorem strlen_eq : ∀ {turns : Nat} {l : List (BitVec 8)} {i : Nat}, string.At i l → l.length < turns →
    strlen string turns i = some (i + l.length)
  | 0, _, _, _, h => absurd h (Nat.not_lt_zero _)
  | turns + 1, [], i, hat, _ => by simp [strlen, hat.read_nil]
  | turns + 1, c :: l, i, hat, h => by
    have hc : c ≠ 0#8 := hat.ne_nul c List.mem_cons_self
    have hl := strlen_eq hat.next (Nat.lt_of_succ_lt_succ h)
    simp [strlen, hat.read_cons, hc, hl, Nat.add_assoc, Nat.add_comm 1]

/-- The characters up to the next percent sign. -/
def textOf (l : List (BitVec 8)) : List (BitVec 8) := l.takeWhile (· ≠ percentSign)

theorem textAmount_eq {format : Nat} : ∀ {turns : Nat} {l : List (BitVec 8)} {amount : Nat},
    string.At (format + amount) l → l.length < turns →
    textAmount string format turns amount = some (amount + (textOf l).length)
  | 0, _, _, _, h => absurd h (Nat.not_lt_zero _)
  | turns + 1, [], amount, hat, _ => by simp [textAmount, hat.read_nil, textOf]
  | turns + 1, c :: l, amount, hat, h => by
    have hnul : c ≠ 0#8 := hat.ne_nul c List.mem_cons_self
    by_cases hc : c = percentSign
    · simp [textAmount, hat.read_cons, hc, textOf]
    · have hl := @textAmount_eq format turns l (amount + 1) hat.next (Nat.lt_of_succ_lt_succ h)
      simp [textAmount, hat.read_cons, hnul, hc, hl, textOf, Nat.add_assoc, Nat.add_comm 1]

/-- The state `s` before `l` ends with `out` passed to `putchar`. -/
structure Prints (string : CString) (s : Vprintf) (l out : List (BitVec 8)) : Prop where
  place : string.At s.format l
  supplies : Supplies (pieces s.rejectedBadSpecifier l) s.parameters
  expand_eq : s.out ++ expand (pieces s.rejectedBadSpecifier l) s.parameters = out

/-! ### Reading pieces -/

variable {rejected : Bool} {k : Conversion}

theorem pieces_char (hc : c ≠ percentSign) : pieces rejected (c :: l) = .text c :: pieces rejected l := by
  rw [pieces, if_neg hc]

theorem pieces_escaped :
    pieces rejected (percentSign :: percentSign :: l) = .text percentSign :: pieces rejected l := by
  rw [pieces, if_pos rfl]
  simp [directive]

theorem pieces_unknown (hl : l.head? ≠ some percentSign) (h : rejected = true ∨ conversionAt l = none) :
    pieces rejected (percentSign :: l) = .text percentSign :: pieces true l := by
  have hd : directive rejected l = (.text percentSign, true, l) := by
    rw [directive, if_neg hl]
    rcases h with rfl | h
    · simp
    · cases rejected <;> simp [h]
  rw [pieces, if_pos rfl, hd]

theorem pieces_conversion (hl : l.head? ≠ some percentSign) (h : conversionAt l = some (k, l')) :
    pieces false (percentSign :: l) = .conversion k :: pieces false l' := by
  have hd : directive false l = (.conversion k, false, l') := by
    rw [directive, if_neg hl]
    simp [h]
  rw [pieces, if_pos rfl, hd]

/-- The text up to the next percent sign is itself. -/
theorem pieces_textOf (rejected : Bool) : ∀ (l : List (BitVec 8)), ∃ rest, l = textOf l ++ rest ∧
    pieces rejected l = (textOf l).map .text ++ pieces rejected rest
  | [] => ⟨[], rfl, rfl⟩
  | c :: l => by
    by_cases hc : c = percentSign
    · exact ⟨c :: l, by simp [textOf, hc], by simp [textOf, hc]⟩
    · obtain ⟨rest, hl, hp⟩ := pieces_textOf rejected l
      have htext : textOf (c :: l) = c :: textOf l := by simp [textOf, hc]
      refine ⟨rest, ?_, ?_⟩
      · rw [htext, List.cons_append, ← hl]
      · rw [htext, pieces_char hc, hp, List.map_cons, List.cons_append]

@[simp] theorem expand_text (ps : List Piece) (args : List VaArg) :
    ∀ l : List (BitVec 8), expand (l.map .text ++ ps) args = l ++ expand ps args
  | [] => rfl
  | c :: l => by simp [expand, expand_text ps args l]

@[simp] theorem supplies_text (ps : List Piece) (args : List VaArg) :
    ∀ l : List (BitVec 8), Supplies (l.map .text ++ ps) args ↔ Supplies ps args
  | [] => Iff.rfl
  | c :: l => by simp [Supplies, supplies_text ps args l]

/-! ### One turn -/

/-- What a turn did to `s` before `l`, with `l'` left: it printed text, or took
an argument for a conversion. -/
inductive TurnCase (s s' : Vprintf) (l l' : List (BitVec 8)) : Prop
  | text (chars : List (BitVec 8))
      (hpieces : pieces s.rejectedBadSpecifier l = chars.map .text ++ pieces s'.rejectedBadSpecifier l')
      (hparameters : s'.parameters = s.parameters) (hout : s'.out = s.out ++ chars)
      (hwritten : s'.written = s.written + BitVec.ofNat 32 chars.length)
  | conversion (k : Conversion) (a : VaArg) (haccepts : k.Accepts a)
      (hpieces : pieces s.rejectedBadSpecifier l = .conversion k :: pieces s'.rejectedBadSpecifier l')
      (hparameters : s.parameters = a :: s'.parameters) (hout : s'.out = s.out ++ k.passed a)
      (hwritten : s'.written = s.written)

@[simp] theorem matched_text (ps : List Piece) (args : List VaArg) :
    ∀ l : List (BitVec 8), Matched (l.map .text ++ ps) args ↔ Matched ps args
  | [] => Iff.rfl
  | c :: l => by simp [Matched, matched_text ps args l]

theorem TurnCase.matched {s s' : Vprintf} (h : TurnCase s s' l l')
    (hm : Matched (pieces s.rejectedBadSpecifier l) s.parameters) :
    Matched (pieces s'.rejectedBadSpecifier l') s'.parameters := by
  cases h with
  | text chars hpieces hparameters =>
    rw [hpieces, matched_text] at hm
    rw [hparameters]
    exact hm
  | conversion k a _ hpieces hparameters =>
    rw [hpieces, hparameters] at hm
    exact hm.2

/-- A turn from `s` before `l` ends, with no more than `bound` left. -/
def TurnsTo (string : CString) (s : Vprintf) (l : List (BitVec 8)) (bound : Nat) (result : Option Vprintf) : Prop :=
  ∃ s' l', result = some s' ∧ l'.length ≤ bound ∧ string.At s'.format l' ∧ TurnCase s s' l l'

/-- **Literal text**: wherever `print_c` is entered, the character there and
the text behind it are printed. -/
theorem printC_turns {s₀ s : Vprintf} {l₀ : List (BitVec 8)} (hat : string.At s.format (c :: l))
    (hpieces : pieces s₀.rejectedBadSpecifier l₀ = .text c :: pieces s.rejectedBadSpecifier l)
    (hparameters : s.parameters = s₀.parameters) (hout : s.out = s₀.out) (hwritten : s.written = s₀.written) :
    TurnsTo string s₀ l₀ l.length (printC string s) := by
  obtain ⟨rest, hl, hp⟩ := pieces_textOf s.rejectedBadSpecifier l
  have hamount := @textAmount_eq _ s.format _ l 1 hat.next (Nat.lt_succ_of_le (Nat.le_of_lt
    (Nat.lt_of_lt_of_le (Nat.lt_succ_self _) hat.length_le)))
  have hlen : (c :: textOf l).length = 1 + (textOf l).length := by rw [List.length_cons, Nat.add_comm]
  rw [hl, ← List.cons_append] at hat
  have hprint := @print_eq _ (c :: textOf l) 0 s.out fun k hk => by
    rw [Nat.zero_add]
    exact hat.read_add hk
  have hskip := hat.skip
  rw [hlen] at hprint hskip
  refine ⟨{ s with
    format := s.format + (1 + (textOf l).length)
    written := s.written + BitVec.ofNat 32 (1 + (textOf l).length)
    out := s.out ++ c :: textOf l }, rest, ?_, ?_, hskip, .text (c :: textOf l) ?_ hparameters ?_ ?_⟩
  · simp only [printC, hamount, hprint, Option.bind_eq_bind, Option.bind_some]
  · rw [hl, List.length_append]
    exact Nat.le_add_left _ _
  · rw [hpieces, hp, List.map_cons, List.cons_append]
  · rw [hout]
  · rw [hwritten, hlen]

/-- A percent sign that begins no conversion is text. -/
theorem unknown_turns {s : Vprintf} (hat : string.At s.format (percentSign :: l)) (hl : l.head? ≠ some percentSign)
    (hk : s.rejectedBadSpecifier = true ∨ conversionAt l = none) :
    TurnsTo string s (percentSign :: l) l.length
      (incomprehensibleConversion string s.format { s with format := s.format + 1 }) :=
  @printC_turns _ _ _ _ { s with rejectedBadSpecifier := true } _ hat (pieces_unknown hl hk) rfl rfl rfl

/-! ### Conversions -/

/-- Its letters, behind the percent sign. -/
def Conversion.letters : Conversion → List (BitVec 8)
  | .c => [0x63]
  | .d => [0x64]
  | .u => [0x75]
  | .x => [0x78]
  | .lx => [0x6C, 0x78]
  | .s => [0x73]

theorem conversionAt_letters (h : conversionAt l = some (k, l')) : l = k.letters ++ l' := by
  cases l with
  | nil => cases h
  | cons c l =>
    simp only [conversionAt] at h
    by_cases hlx : c = 0x6C ∧ l.head? = some 0x78
    · obtain ⟨rfl, hx⟩ := hlx
      cases l with
      | nil => cases hx
      | cons x l =>
        cases hx
        cases h
        rfl
    · rw [if_neg hlx] at h
      split_ifs at h <;> cases h <;> subst c <;> rfl

/-- What its branch does: an argument is taken and printed. -/
def Conversion.take : Conversion → List VaArg → List (BitVec 8) → Option (List VaArg × List (BitVec 8))
  | .c, parameters, out => do
    let (v, parameters) ← vaArgInt parameters
    let out ← print (fun _ => some (v.setWidth 8)) 1 0 out
    some (parameters, out)
  | .d, parameters, out => do
    let (v, parameters) ← vaArgInt parameters
    let out ← printDecimal v.toInt out
    some (parameters, out)
  | .u, parameters, out => do
    let (v, parameters) ← vaArgUint32 parameters
    let out ← printDecimal v.toNat out
    some (parameters, out)
  | .x, parameters, out => do
    let (v, parameters) ← vaArgUint32 parameters
    let out ← printHexadecimal v.toNat out
    some (parameters, out)
  | .lx, parameters, out => do
    let (v, parameters) ← vaArgUint64 parameters
    let out ← printHexadecimal v.toNat out
    some (parameters, out)
  | .s, parameters, out => do
    let (v, parameters) ← vaArgString parameters
    let length ← strlen v (v.chars.length + 1) 0
    let out ← print v.read length 0 out
    some (parameters, out)

theorem CString.strlen_eq (v : CString) : strlen v (v.chars.length + 1) 0 = some v.chars.length := by
  rw [ShawnOS.strlen_eq v.at_zero (Nat.lt_succ_self _), Nat.zero_add]

theorem CString.print_eq (v : CString) (out : List (BitVec 8)) :
    print v.read v.chars.length 0 out = some (out ++ v.chars) :=
  ShawnOS.print_eq fun k hk => @CString.At.read_add v 0 v.chars [] (by simpa using v.at_zero) k hk

theorem printDecimal_int (v : BitVec 32) (out : List (BitVec 8)) :
    printDecimal v.toInt out = some (out ++ Conversion.passed .d (.int v)) := by
  have hlo := v.le_toInt; have hhi := v.toInt_lt
  rw [Conversion.passed]
  split
  · next hpos =>
    have hv : v.toInt = v.toNat := by
      rw [BitVec.toInt_eq_toNat_cond] at hpos ⊢
      split at hpos <;> omega
    rw [hv]
    exact printDecimal_eq (by omega) out
  · next hneg =>
    have hv : v.toInt = -1 * (v.toInt.natAbs : Int) := by omega
    conv_lhs => rw [hv]
    exact printDecimal_sign (.inr rfl) (by omega) (by omega) out

/-- Of an argument of its type it prints `passed`. -/
theorem Conversion.Accepts.take_eq {a : VaArg} (h : k.Accepts a) (ps : List VaArg) (out : List (BitVec 8)) :
    k.take (a :: ps) out = some (ps, out ++ k.passed a) := by
  cases k <;> cases a <;> try exact h.elim
  case c.int v => simp [Conversion.take, vaArgInt, print_one, Conversion.passed, Conversion.write]
  case d.int v => simp [Conversion.take, vaArgInt, printDecimal_int]
  case u.uint32 v =>
    have hprint := printDecimal_eq (n := v.toNat) (by omega) out
    simp [Conversion.take, vaArgUint32, hprint, Conversion.passed, Conversion.write]
  case x.uint32 v =>
    have hprint := printHexadecimal_eq (n := v.toNat) (by omega) out
    simp [Conversion.take, vaArgUint32, hprint, Conversion.passed, Conversion.write]
  case lx.uint64 v =>
    have hprint := printHexadecimal_eq (n := v.toNat) (by omega) out
    simp [Conversion.take, vaArgUint64, hprint, Conversion.passed, Conversion.write]
  case s.string v =>
    simp [Conversion.take, vaArgString, v.strlen_eq, v.print_eq, Conversion.passed, Conversion.write]

/-- The letters lead into the conversion's branch. -/
theorem vprintfTurn_take {s : Vprintf} (hat : string.At s.format (percentSign :: (k.letters ++ l)))
    (hrej : s.rejectedBadSpecifier = false) :
    vprintfTurn string s = (k.take s.parameters s.out).map fun (parameters, out) =>
      { s with format := s.format + 1 + k.letters.length, parameters, out } := by
  have hread := hat.read_cons
  cases k with
  | lx =>
    have hl := hat.next.read_cons
    have hx := hat.next.next.read_cons
    simp [vprintfTurn, hread, hl, hx, hrej, percentSign, Conversion.take, Conversion.letters, Option.map_bind]
  | _ =>
    have hletter := hat.next.read_cons
    simp [vprintfTurn, hread, hletter, hrej, percentSign, Conversion.take, Conversion.letters, Option.map_bind]

/-- No conversion, nor an `l` before anything but an `x`. -/
theorem vprintfTurn_unknown {s : Vprintf} (hat : string.At s.format (percentSign :: l))
    (hl : l.head? ≠ some percentSign) (hk : s.rejectedBadSpecifier = true ∨ conversionAt l = none) :
    vprintfTurn string s = incomprehensibleConversion string s.format { s with format := s.format + 1 } := by
  have hread := hat.read_cons
  cases l with
  | nil =>
    have hread' := hat.next.read_nil
    simp [vprintfTurn, hread, hread', percentSign]
  | cons d l =>
    have hread' := hat.next.read_cons
    have hd : ¬ d = percentSign := by simpa using hl
    rcases hk with hrej | hk
    · simp [vprintfTurn, hread, hread', hd, hrej]
    · simp only [conversionAt, BitVec.ofNat_eq_ofNat] at hk
      split_ifs at hk with hc hdec hu hx hs hlx
      by_cases h6 : d = 0x6C#8
      · subst h6
        cases l with
        | nil => simp [vprintfTurn, hread, hread', hat.next.next.read_nil, percentSign]
        | cons x l =>
          have hx' : x ≠ 0x78#8 := fun hx' => hlx ⟨rfl, by simp [hx']⟩
          simp [vprintfTurn, hread, hread', hat.next.next.read_cons, hx', percentSign]
      · simp [vprintfTurn, hread, hread', hd, hc, hdec, hu, hx, hs, h6]

/-- A turn at a percent sign while conversions are taken. -/
theorem conversion_turns {s : Vprintf} (hat : string.At s.format (percentSign :: l))
    (hm : Matched (pieces s.rejectedBadSpecifier (percentSign :: l)) s.parameters) (hl : l.head? ≠ some percentSign)
    (hk : conversionAt l = some (k, l')) (hrej : s.rejectedBadSpecifier = false) :
    TurnsTo string s (percentSign :: l) l.length (vprintfTurn string s) := by
  have hpieces := pieces_conversion hl hk
  have hletters := conversionAt_letters hk
  rw [hrej, hpieces] at hm
  cases hp : s.parameters with
  | nil =>
    rw [hp] at hm
    exact hm.elim
  | cons a ps =>
    rw [hp] at hm
    rw [hletters] at hat
    have hturn := vprintfTurn_take hat hrej
    rw [hp, hm.1.take_eq] at hturn
    refine ⟨_, l', hturn, Nat.le_of_lt (conversionAt_length hk), hat.next.skip, .conversion k a hm.1 ?_ hp rfl rfl⟩
    rw [hrej]
    exact hpieces

/-- **One turn** of the scanner. -/
theorem vprintfTurn_turns {s : Vprintf} (hat : string.At s.format (c :: l))
    (hm : Matched (pieces s.rejectedBadSpecifier (c :: l)) s.parameters) :
    TurnsTo string s (c :: l) l.length (vprintfTurn string s) := by
  have hread := hat.read_cons
  by_cases hc : c ≠ percentSign
  · have hturn : vprintfTurn string s = printC string s := by simp [vprintfTurn, hread, hc]
    rw [hturn]
    exact printC_turns hat (pieces_char hc) rfl rfl rfl
  rw [not_not.mp hc] at hat hread hm ⊢
  by_cases hl : l.head? = some percentSign
  · obtain ⟨l, rfl⟩ : ∃ l', l = percentSign :: l' := ⟨l.tail, List.eq_cons_of_mem_head? hl⟩
    have hturn : vprintfTurn string s = printC string { s with format := s.format + 1 } := by
      simp [vprintfTurn, hread, hat.next.read_cons]
    obtain ⟨s', l', hprint, hle, hcase⟩ :=
      @printC_turns _ _ _ s { s with format := s.format + 1 } _ hat.next pieces_escaped rfl rfl rfl
    exact ⟨s', l', hturn.trans hprint, Nat.le_succ_of_le hle, hcase⟩
  by_cases hno : s.rejectedBadSpecifier = true ∨ conversionAt l = none
  · rw [vprintfTurn_unknown hat hl hno]
    exact unknown_turns hat hl hno
  · obtain ⟨hrej, hsome⟩ := not_or.mp hno
    obtain ⟨⟨k, l'⟩, hk⟩ := Option.ne_none_iff_exists'.mp hsome
    exact conversion_turns hat hm hl hk (by simpa using hrej)

/-- **A run** of the scanner keeps what every turn keeps. -/
theorem vprintfLoop_run {I : Vprintf → List (BitVec 8) → Prop}
    (hstep : ∀ s s' l l', I s l → string.At s'.format l' → TurnCase s s' l l' → I s' l') :
    ∀ {turns : Nat} {s : Vprintf} {l : List (BitVec 8)}, I s l → string.At s.format l →
      Matched (pieces s.rejectedBadSpecifier l) s.parameters → l.length < turns →
      ∃ s', vprintfLoop string turns s = some s' ∧ I s' []
  | 0, _, _, _, _, _, h => absurd h (Nat.not_lt_zero _)
  | turns + 1, s, [], hi, hat, _, _ => ⟨s, by simp [vprintfLoop, hat.read_nil], hi⟩
  | turns + 1, s, c :: l, hi, hat, hm, hlen => by
    have hc : c ≠ 0#8 := hat.ne_nul c List.mem_cons_self
    obtain ⟨s', l', hturn, hle, hat', hcase⟩ := vprintfTurn_turns hat hm
    obtain ⟨t, hloop, ht⟩ := vprintfLoop_run hstep (hstep s s' _ _ hi hat' hcase) hat' (hcase.matched hm)
      (Nat.lt_of_le_of_lt hle (Nat.lt_of_succ_lt_succ hlen))
    exact ⟨t, by simp [vprintfLoop, hat.read_cons, hc, hturn, hloop], ht⟩

/-! ### The expansion -/

theorem Conversion.Takes.accepts {a : VaArg} (h : k.Takes a) : k.Accepts a := by
  cases k <;> cases a <;> trivial

theorem Conversion.Takes.passed_eq {a : VaArg} (h : k.Takes a) : k.passed a = k.write a := by
  cases k <;> cases a <;> try rfl
  exact if_pos h

theorem Supplies.matched : ∀ {ps : List Piece} {args : List VaArg}, Supplies ps args → Matched ps args
  | [], _, _ => trivial
  | .text _ :: ps, args, h => @Supplies.matched ps args h
  | .conversion _ :: ps, _ :: args, h => ⟨h.1.accepts, @Supplies.matched ps args h.2⟩

/-- A turn ends with the same output. -/
theorem Prints.turn {s s' : Vprintf} {out : List (BitVec 8)} (h : Prints string s l out)
    (hat : string.At s'.format l') (hcase : TurnCase s s' l l') : Prints string s' l' out := by
  have hs := h.supplies; have he := h.expand_eq
  cases hcase with
  | text chars hpieces hparameters hout =>
    rw [hpieces, supplies_text] at hs
    rw [hpieces, expand_text] at he
    exact ⟨hat, by rw [hparameters]; exact hs, by rw [hparameters, hout, List.append_assoc]; exact he⟩
  | conversion k a _ hpieces hparameters hout =>
    rw [hpieces, hparameters] at hs he
    refine ⟨hat, hs.2, ?_⟩
    rw [hout, hs.1.passed_eq, List.append_assoc]
    exact he

/-- **The format language of `vprintf`**: with an argument of the right type
for each conversion, it reads no character behind the format's NUL and
passes to `putchar` exactly the format's expansion. -/
theorem vprintf_expands (format : CString) (parameters : List VaArg)
    (hs : Supplies (pieces false format.chars) parameters) :
    ∃ written, vprintf format parameters = some (written, expand (pieces false format.chars) parameters) := by
  have h : Prints format ⟨0, 0, false, parameters, []⟩ format.chars (expand (pieces false format.chars) parameters) :=
    ⟨format.at_zero, hs, rfl⟩
  obtain ⟨s', hloop, hend⟩ := vprintfLoop_run (fun _ _ _ _ h hat hcase => Prints.turn h hat hcase) h format.at_zero
    hs.matched (Nat.lt_succ_self _)
  have hout := hend.expand_eq
  rw [pieces, expand, List.append_nil] at hout
  refine ⟨s'.written, ?_⟩
  rw [← hout]
  exact congrArg (Option.bind · fun s => some (s.written, s.out)) hloop

/-- `"%d%%%lx %q%d"`, of 42 and 2^40: behind the `%q` nothing is converted. -/
theorem vprintf_expands_rejected :
    Supplies (pieces false [0x25, 0x64, 0x25, 0x25, 0x25, 0x6C, 0x78, 0x20, 0x25, 0x71, 0x25, 0x64])
      [.int 42, .uint64 (2 ^ 40)] ∧
    ∃ written, vprintf ⟨[0x25, 0x64, 0x25, 0x25, 0x25, 0x6C, 0x78, 0x20, 0x25, 0x71, 0x25, 0x64], by decide⟩
        [.int 42, .uint64 (2 ^ 40)] =
      some (written, expand (pieces false [0x25, 0x64, 0x25, 0x25, 0x25, 0x6C, 0x78, 0x20, 0x25, 0x71, 0x25, 0x64])
        [.int 42, .uint64 (2 ^ 40)]) := by
  have hs : Supplies (pieces false [0x25, 0x64, 0x25, 0x25, 0x25, 0x6C, 0x78, 0x20, 0x25, 0x71, 0x25, 0x64])
      [.int 42, .uint64 (2 ^ 40)] := by
    simp [pieces, directive, conversionAt, percentSign, Supplies, Conversion.Takes]
  exact ⟨hs, vprintf_expands ⟨_, by decide⟩ _ hs⟩

end ShawnOS
