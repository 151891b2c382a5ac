/-
The console (`libsc/stdio`, `drivers/vga/textmode.c`, `drivers/pc/pckbd.c`).

Whatever prints, from `printf` to the keyboard's interrupt handler, passes its
characters to `vga_textmode_putchar` one by one. The screen is a window on a
roll of paper on which they are written line after line, whatever the number
of lines: `vga_textmode_scroll` moves every row up by one, and the last row
shows what lies behind the buffer until it is written over.
-/
import ShawnOS.Lib.Paper
import ShawnOS.Textmode
import ShawnOS.Pckbd
import ShawnOS.PrintfCount

namespace ShawnOS

open Paper

/-! ## What prints -/

/-- `putchar`. -/
def putchar (ic : BitVec 32) (s : VgaTextmode) : VgaTextmode := vgaTextmodePutchar (ic.setWidth 8) s

/-- What `print` passes to `putchar`, in the order it does. -/
def putchars (text : List (BitVec 8)) (s : VgaTextmode) : VgaTextmode :=
  text.foldl (fun s c => putchar (c.setWidth 32) s) s

/-- `printf`. -/
def printf (format : CString) (parameters : List VaArg) (s : VgaTextmode) : Option VgaTextmode := do
  let (_, text) ← vprintf format parameters
  some (putchars text s)

/-- `"%s\n"`. -/
def percentSNewline : CString := ⟨[0x25, 0x73, 0x0A], by decide⟩

/-- `puts`. -/
def puts (string : CString) (s : VgaTextmode) : Option VgaTextmode := printf percentSNewline [.string string] s

/-- `"%c"`. -/
def percentC : CString := ⟨[0x25, 0x63], by decide⟩

/-- The loop of `vga_textmode_writestring`, with `rem` characters left from
the `i`-th on. -/
def writestringLoop (data : CString) : (rem i : Nat) → VgaTextmode → Option VgaTextmode
  | 0, _, s => some s
  | rem + 1, i, s => do
    let c ← data.read i
    writestringLoop data rem (i + 1) (vgaTextmodePutchar c s)

/-- `vga_textmode_writestring`. -/
def vgaTextmodeWritestring (data : CString) (s : VgaTextmode) : Option VgaTextmode := do
  let datalen ← strlen data (data.chars.length + 1) 0
  writestringLoop data datalen 0 s

/-- The variables of the screen's driver and of the keyboard's. -/
structure Console where
  vga : VgaTextmode
  pckbd : PckbdState

/-- What the kernel does with its console. -/
inductive ConsoleCall where
  | putchar (ic : BitVec 32)
  | printf (format : CString) (parameters : List VaArg)
  | puts (string : CString)
  | writestring (data : CString)
  | setcolor (color : BitVec 8)
  | clear
  | input (curScancode : BitVec 8)

/-- One call. A scancode comes from IRQ 1, and its character is printed with
`"%c"`. -/
def consoleStep (d : PckbdDriver) (s : Console) : ConsoleCall → Option Console
  | .putchar ic => some { s with vga := putchar ic s.vga }
  | .printf format parameters => do
    let vga ← printf format parameters s.vga
    some { s with vga }
  | .puts string => do
    let vga ← puts string s.vga
    some { s with vga }
  | .writestring data => do
    let vga ← vgaTextmodeWritestring data s.vga
    some { s with vga }
  | .setcolor color => some { s with vga := vgaTextmodeSetcolor color s.vga }
  | .clear => some { s with vga := vgaTextmodeClear s.vga }
  | .input curScancode => do
    let (pckbd, curChar) ← pckbdIrqInputHandler d 33 curScancode s.pckbd
    match curChar with
    | some c => do
      let vga ← printf percentC [.int (.ofInt 32 c)] s.vga
      some { vga, pckbd }
    | none => some { s with pckbd }

/-! ## The paper -/

/-- Blank paper: what the buffer shows at first, and from its end on what
video memory holds behind it. -/
def blankPaper (memory : Nat → BitVec 16) : Roll (BitVec 16) :=
  ⟨0, 0, fun y x => if y < 25 then makeVgaentry space lightGrey else memory (2000 + x)⟩

/-- One character, in a colour. -/
def writeChar (color : BitVec 8) (p : Roll (BitVec 16)) (c : BitVec 8) : Roll (BitVec 16) :=
  if c = newline then p.feed else p.put 80 (makeVgaentry c color)

/-- The paper, the colour written in, and the keyboard. -/
structure Sheet where
  paper : Roll (BitVec 16)
  color : BitVec 8
  pckbd : PckbdState

def Sheet.write (text : List (BitVec 8)) (t : Sheet) : Sheet :=
  { t with paper := text.foldl (writeChar t.color) t.paper }

/-- The text of a key. -/
def keyText : Option Int → List (BitVec 8)
  | some c => [(BitVec.ofInt 32 c).setWidth 8]
  | none => []

/-- What a call writes. -/
def Sheet.call (d : PckbdDriver) (memory : Nat → BitVec 16) (t : Sheet) : ConsoleCall → Sheet
  | .putchar ic => t.write [ic.setWidth 8]
  | .printf format parameters => t.write (passedText (pieces false format.chars) parameters)
  | .puts string => t.write (string.chars ++ [newline])
  | .writestring data => t.write data.chars
  | .setcolor color => { t with color }
  | .clear => { t with paper := blankPaper memory, color := lightGrey }
  | .input curScancode =>
    match pckbdIrqInputHandler d 33 curScancode t.pckbd with
    | some (pckbd, curChar) => { t.write (keyText curChar) with pckbd }
    | none => t

/-- Each conversion of a format finds an argument of its type. -/
def ConsoleCall.Matches : ConsoleCall → Prop
  | .printf format parameters => Matched (pieces false format.chars) parameters
  | _ => True

/-- The driver shows the window on the paper. Behind the buffer nothing was
stored, nor anything written on the lines to come. -/
structure Shown (memory : Nat → BitVec 16) (s : VgaTextmode) (p : Roll (BitVec 16)) : Prop where
  row : p.top 25 + s.row = p.line
  row_lt : s.row < 25
  column : s.column = p.column
  column_lt : s.column < 80
  cell : ∀ y x, y < 25 → x < 80 → s.buffer (y * 80 + x) = p.window 25 y x
  behind : ∀ i, 2000 ≤ i → s.buffer i = memory i
  below : ∀ y x, p.line < y → 25 ≤ y → p.ink y x = memory (2000 + x)

/-! ## The loops over the cells -/

section Loops

variable {β : Type} {P : Nat → β → Prop}

theorem vgaRow_counts {body : (x : Nat) → β → β} {n : Nat} (h : ∀ x s, x < 80 → P (n + x) s → P (n + (x + 1)) (body x s)) :
    ∀ {rem x : Nat} {s : β}, x + rem = 80 → P (n + x) s → P (n + 80) (vgaRow body rem x s)
  | 0, x, s, hx, hs => by
    rw [Nat.add_zero] at hx
    rw [← hx]
    exact hs
  | rem + 1, x, s, hx, hs => vgaRow_counts (x := x + 1) h (by omega) (h x s (by omega) hs)

/-- **The cells are visited in order**: what one turn takes from `n` cells to
`n + 1`, the loops take from none to all. -/
theorem vgaRows_counts {body : (y x : Nat) → β → β}
    (h : ∀ y x s, y < 25 → x < 80 → P (y * 80 + x) s → P (y * 80 + (x + 1)) (body y x s)) :
    ∀ {rem y : Nat} {s : β}, y + rem = 25 → P (y * 80) s → P 2000 (vgaRows body rem y s)
  | 0, y, s, hy, hs => by
    rw [Nat.add_zero] at hy
    subst hy
    exact hs
  | rem + 1, y, s, hy, hs => by
    have hrow := vgaRow_counts (x := 0) (fun x s hx => h y x s (by omega) hx) (Nat.zero_add 80) hs
    rw [← Nat.succ_mul] at hrow
    exact vgaRows_counts (y := y + 1) h (by omega) hrow

end Loops

/-- The first `n` cells moved up by a row. -/
structure MovedUp (s : VgaTextmode) (n : Nat) (t : VgaTextmode) : Prop where
  color : t.color = s.color
  moved : ∀ i, i < n → t.buffer i = s.buffer (i + 80)
  rest : ∀ i, n ≤ i → t.buffer i = s.buffer i

/-- Storing the cell below. -/
theorem vgaScrollCell_eq {y : Nat} (hy : y < 25) (x : Nat) (s : VgaTextmode) : vgaScrollCell y x s =
    { s with cells := (y * 80 + x + 80) :: s.cells }.store (y * 80 + x) (s.buffer (y * 80 + x + 80)) :=
  if_neg (Nat.ne_of_lt hy)

theorem vgaTextmodeScroll_movedUp (s : VgaTextmode) : MovedUp s 2000 (vgaTextmodeScroll s) := by
  have h : MovedUp s 2000 (vgaRows vgaScrollCell vgaHeight 0 s) := by
    refine vgaRows_counts (P := MovedUp s) (fun y x t hy hx h => ?_) rfl
      ⟨rfl, fun i hi => absurd hi (Nat.not_lt_zero i), fun _ _ => rfl⟩
    rw [vgaScrollCell_eq hy]
    refine ⟨h.color, fun i hi => ?_, fun i hi => ?_⟩
    · by_cases hlast : i = y * 80 + x
      · subst hlast
        exact (Function.update_self ..).trans (h.rest _ (by omega))
      · exact (Function.update_of_ne hlast ..).trans (h.moved i (by omega))
    · exact (Function.update_of_ne (show i ≠ y * 80 + x by omega) ..).trans (h.rest i (by omega))
  rw [vgaTextmodeScroll]
  generalize vgaRows vgaScrollCell vgaHeight 0 s = t at h
  exact ⟨h.color, h.moved, h.rest⟩

/-- The first `n` cells blanked. -/
structure Wiped (s : VgaTextmode) (n : Nat) (t : VgaTextmode) : Prop where
  row : t.row = s.row
  column : t.column = s.column
  color : t.color = s.color
  wiped : ∀ i, i < n → t.buffer i = makeVgaentry space s.color
  rest : ∀ i, n ≤ i → t.buffer i = s.buffer i

theorem blankCells_wiped (s : VgaTextmode) : Wiped s 2000 (vgaRows vgaBlankCell vgaHeight 0 s) := by
  refine vgaRows_counts (P := Wiped s) (fun y x t hy hx h => ?_) rfl
    ⟨rfl, rfl, rfl, fun i hi => absurd hi (Nat.not_lt_zero i), fun _ _ => rfl⟩
  refine ⟨h.row, h.column, h.color, fun i hi => ?_, fun i hi => ?_⟩
  · by_cases hlast : i = y * 80 + x
    · subst hlast
      exact (Function.update_self ..).trans (by rw [h.color])
    · exact (Function.update_of_ne hlast ..).trans (h.wiped i (by omega))
  · exact (Function.update_of_ne (show i ≠ y * 80 + x by omega) ..).trans (h.rest i (by omega))

/-! ## One character -/

variable {memory : Nat → BitVec 16} {s t : VgaTextmode} {p : Roll (BitVec 16)}

/-- The driver's variables that the paper does not show. -/
theorem Shown.of_eq (h : Shown memory s p) (hrow : t.row = s.row) (hcolumn : t.column = s.column) (hbuffer : t.buffer = s.buffer) :
    Shown memory t p :=
  ⟨by rw [hrow]; exact h.row, by rw [hrow]; exact h.row_lt, by rw [hcolumn]; exact h.column,
    by rw [hcolumn]; exact h.column_lt, by rw [hbuffer]; exact h.cell, by rw [hbuffer]; exact h.behind, h.below⟩

/-- The next line, scrolling on the last row. -/
theorem Shown.feed (h : Shown memory s p) (hrow : t.row = s.row + 1) (hcolumn : t.column = 0) (hbuffer : t.buffer = s.buffer) :
    Shown memory (if t.row = vgaHeight then vgaTextmodeScroll t else t) p.feed := by
  have htop := h.row; have hlt := h.row_lt
  have hstart : p.top 25 = p.line + 1 - 25 := rfl
  have hbelow : ∀ y x, p.feed.line < y → 25 ≤ y → p.feed.ink y x = memory (2000 + x) :=
    fun y x hy => h.below y x (Nat.lt_of_succ_lt hy)
  split
  · next hfull =>
    have hfull' : s.row = 24 := Nat.succ.inj (hrow.symm.trans hfull)
    have hle : 25 ≤ p.line + 1 := by omega
    have hmoved := vgaTextmodeScroll_movedUp t
    refine ⟨?_, Nat.lt_succ_self 24, rfl, Nat.zero_lt_succ 79, fun y x hy hx => ?_, fun i hi => ?_, hbelow⟩
    · rw [feed_top_of_le hle, feed_line]
      show p.top 25 + 1 + 24 = p.line + 1
      omega
    · rw [hmoved.moved _ (by omega), hbuffer, feed_window_of_le hle]
      by_cases hlast : y = 24
      · subst hlast
        rw [h.behind _ (by omega), Roll.window, h.below _ _ (by omega) (by omega)]
        exact congrArg memory (by omega)
      · rw [← h.cell (y + 1) x (by omega) hx]
        exact congrArg s.buffer (by omega)
    · rw [hmoved.rest i hi, hbuffer]
      exact h.behind i hi
  · next hless =>
    have hless' : s.row + 1 < 25 := by
      rw [hrow, vgaHeight] at hless
      omega
    have hlt' : p.line + 1 < 25 := by omega
    refine ⟨?_, hrow ▸ hless', hcolumn, by rw [hcolumn]; decide, ?_, ?_, hbelow⟩
    · rw [feed_top_of_lt hlt', feed_line, hrow]
      omega
    · rw [feed_window_of_lt hlt', hbuffer]
      exact h.cell
    · rw [hbuffer]
      exact h.behind

/-- One cell. -/
theorem Shown.mark (h : Shown memory s p) (c : BitVec 8) :
    Shown memory (vgaTextmodePutentryat c s.color s.column s.row s) (p.mark (makeVgaentry c s.color)) := by
  have hlt := h.row_lt; have hcol := h.column_lt
  refine ⟨h.row, hlt, h.column, hcol, fun y x hy hx => ?_, fun i hi => ?_, fun y x hy hy' => ?_⟩
  · rw [mark_window _ h.row, ← h.column]
    by_cases hhere : y = s.row ∧ x = s.column
    · rw [if_pos hhere, hhere.1, hhere.2]
      exact Function.update_self ..
    · rw [if_neg hhere, ← h.cell y x hy hx]
      exact Function.update_of_ne (show y * 80 + x ≠ s.row * 80 + s.column by omega) ..
  · exact (Function.update_of_ne (show i ≠ s.row * 80 + s.column by omega) ..).trans (h.behind i hi)
  · exact (mark_below (p := p) _ hy x).trans (h.below y x hy hy')

/-- **One character.** -/
theorem Shown.putchar (h : Shown memory s p) (c : BitVec 8) :
    Shown memory (vgaTextmodePutchar c s) (writeChar s.color p c) := by
  rw [vgaTextmodePutchar, writeChar]
  by_cases hn : c = newline
  · rw [if_pos hn, if_pos hn]
    exact (h.feed (t := { s with row := s.row + 1, column := 0 }) rfl rfl rfl).of_eq rfl rfl rfl
  · rw [if_neg hn, if_neg hn, Roll.put, ← h.column]
    have hmark := h.mark c
    by_cases hend : s.column + 1 = 80
    · rw [if_pos hend]
      have hwrap : (vgaTextmodePutentryat c s.color s.column s.row s).column + 1 = vgaWidth := hend
      simp only [hwrap, if_true]
      exact (hmark.feed (t := { vgaTextmodePutentryat c s.color s.column s.row s with column := 0, row := s.row + 1 })
        rfl rfl rfl).of_eq rfl rfl rfl
    · rw [if_neg hend]
      have hstay : ¬ (vgaTextmodePutentryat c s.color s.column s.row s).column + 1 = vgaWidth := hend
      have hrow : ¬ (vgaTextmodePutentryat c s.color s.column s.row s).row = vgaHeight := Nat.ne_of_lt h.row_lt
      simp only [hstay, hrow, if_false]
      have hlt : s.column + 1 < 80 := Nat.lt_of_le_of_ne h.column_lt hend
      exact ⟨hmark.row, hmark.row_lt, rfl, hlt, hmark.cell, hmark.behind, hmark.below⟩

/-! ## Every call -/

/-- The driver is at what the sheet shows. -/
structure ShowsSheet (memory : Nat → BitVec 16) (s : Console) (t : Sheet) : Prop where
  shown : Shown memory s.vga t.paper
  color : s.vga.color = t.color
  pckbd : s.pckbd = t.pckbd

theorem vgaTextmodePutchar_color (c : BitVec 8) (s : VgaTextmode) : (vgaTextmodePutchar c s).color = s.color := by
  have hscroll (t : VgaTextmode) : (if t.row = vgaHeight then vgaTextmodeScroll t else t).color = t.color := by
    split
    · exact (vgaTextmodeScroll_movedUp t).color
    · rfl
  rw [vgaTextmodePutchar]
  refine (hscroll _).trans ?_
  split
  · rfl
  · dsimp only
    split
    · rfl
    · rfl

/-- **A text.** -/
theorem Shown.putchars : ∀ {s : VgaTextmode} {p : Roll (BitVec 16)}, Shown memory s p → ∀ text : List (BitVec 8),
    Shown memory (putchars text s) (text.foldl (writeChar s.color) p) ∧ (putchars text s).color = s.color
  | _, _, h, [] => ⟨h, rfl⟩
  | s, p, h, c :: text => by
    have hc : (c.setWidth 32).setWidth 8 = c := by simp
    have hcolor := vgaTextmodePutchar_color c s
    obtain ⟨hshown, hsame⟩ := (h.putchar c).putchars text
    rw [hcolor] at hshown hsame
    refine ⟨?_, ?_⟩
    all_goals
      rw [ShawnOS.putchars, List.foldl_cons, ShawnOS.putchar, hc]
      assumption

theorem writestringLoop_eq {data : CString} : ∀ {l : List (BitVec 8)} {i : Nat} {s : VgaTextmode}, data.At i l →
    writestringLoop data l.length i s = some (putchars l s)
  | [], _, _, _ => rfl
  | c :: l, i, s, h => by
    have hc : (c.setWidth 32).setWidth 8 = c := by simp
    rw [List.length_cons, writestringLoop, h.read_cons, putchars, List.foldl_cons, putchar, hc]
    exact writestringLoop_eq h.next

theorem vgaTextmodeWritestring_eq (data : CString) (s : VgaTextmode) :
    vgaTextmodeWritestring data s = some (putchars data.chars s) := by
  rw [vgaTextmodeWritestring, data.strlen_eq]
  exact writestringLoop_eq data.at_zero

theorem printf_eq {format : CString} {parameters : List VaArg} (hm : Matched (pieces false format.chars) parameters)
    (s : VgaTextmode) : printf format parameters s = some (putchars (passedText (pieces false format.chars) parameters) s) := by
  rw [printf, vprintf_counts format parameters hm]
  rfl

theorem pieces_percentC : pieces false percentC.chars = [.conversion .c] := by
  simp [percentC, pieces, directive, conversionAt, percentSign]

theorem pieces_percentSNewline : pieces false percentSNewline.chars = [.conversion .s, .text newline] := by
  simp [percentSNewline, pieces, directive, conversionAt, percentSign, newline]

theorem puts_eq (string : CString) (s : VgaTextmode) : puts string s = some (putchars (string.chars ++ [newline]) s) := by
  have hm : Matched (pieces false percentSNewline.chars) [.string string] := by
    rw [pieces_percentSNewline]
    exact ⟨trivial, trivial⟩
  rw [puts, printf_eq hm, pieces_percentSNewline]
  rfl

/-- A text written. -/
theorem ShowsSheet.write {s : Console} {t : Sheet} (h : ShowsSheet memory s t) (text : List (BitVec 8)) :
    ShowsSheet memory { s with vga := putchars text s.vga } (t.write text) := by
  obtain ⟨hshown, hcolor⟩ := h.shown.putchars text
  rw [h.color] at hshown
  exact ⟨hshown, hcolor.trans h.color, h.pckbd⟩

theorem Shown.blank {s : VgaTextmode} (hbehind : ∀ i, 2000 ≤ i → s.buffer i = memory i) (h : Wiped s 2000 t)
    (hrow : s.row = 0) (hcolumn : s.column = 0) (hcolor : s.color = lightGrey) : Shown memory t (blankPaper memory) := by
  refine ⟨?_, ?_, ?_, ?_, fun y x hy hx => ?_, fun i hi => (h.rest i hi).trans (hbehind i hi),
    fun y x _ hy => if_neg (Nat.not_lt.mpr hy)⟩
  · rw [h.row, hrow]
    rfl
  · rw [h.row, hrow]
    decide
  · exact h.column.trans hcolumn
  · rw [h.column, hcolumn]
    decide
  · rw [h.wiped _ (by omega), hcolor]
    exact (if_pos (show 0 + 1 - 25 + y < 25 by omega)).symm

theorem Shown.start (memory : Nat → BitVec 16) : Shown memory (vgaTextmodeInitialize memory) (blankPaper memory) :=
  .blank (s := ⟨0, 0, lightGrey, memory, 0, []⟩) (fun _ _ => rfl) (blankCells_wiped _) rfl rfl rfl

/-- **One call.** -/
theorem ShowsSheet.step {d : PckbdDriver} {s : Console} {t : Sheet} (h : ShowsSheet memory s t) {call : ConsoleCall}
    (hm : call.Matches) : ∃ s', consoleStep d s call = some s' ∧ ShowsSheet memory s' (t.call d memory call) := by
  cases call with
  | putchar ic =>
    have hic : (BitVec.setWidth 32 (ic.setWidth 8)).setWidth 8 = ic.setWidth 8 := by simp
    have hput : putchar ic s.vga = putchars [ic.setWidth 8] s.vga := by
      rw [putchars, List.foldl_cons, List.foldl_nil, putchar, putchar, hic]
    exact ⟨_, rfl, hput ▸ h.write [ic.setWidth 8]⟩
  | printf format parameters =>
    refine ⟨_, ?_, h.write (passedText (pieces false format.chars) parameters)⟩
    simp only [consoleStep, printf_eq hm, Option.bind_eq_bind, Option.bind_some]
  | puts string =>
    refine ⟨_, ?_, h.write (string.chars ++ [newline])⟩
    simp only [consoleStep, puts_eq, Option.bind_eq_bind, Option.bind_some]
  | writestring data =>
    refine ⟨_, ?_, h.write data.chars⟩
    simp only [consoleStep, vgaTextmodeWritestring_eq, Option.bind_eq_bind, Option.bind_some]
  | setcolor color => exact ⟨_, rfl, h.shown.of_eq rfl rfl rfl, rfl, h.pckbd⟩
  | clear =>
    have hw := blankCells_wiped { s.vga with row := 0, column := 0, color := lightGrey }
    obtain ⟨u, hu⟩ : ∃ u, u = vgaRows vgaBlankCell vgaHeight 0 { s.vga with row := 0, column := 0, color := lightGrey } := ⟨_, rfl⟩
    have hclear : vgaTextmodeClear s.vga = { u with cursor := 0 } := by rw [vgaTextmodeClear, hu]
    rw [← hu] at hw
    have hblank : Shown memory u (blankPaper memory) := Shown.blank h.shown.behind
      (s := { s.vga with row := 0, column := 0, color := lightGrey }) hw rfl rfl rfl
    exact ⟨{ s with vga := { u with cursor := 0 } }, by rw [consoleStep, hclear], hblank.of_eq rfl rfl rfl, hw.color, h.pckbd⟩
  | input curScancode =>
    obtain ⟨pckbd, curChar, hkey⟩ : ∃ pckbd curChar, pckbdIrqInputHandler d 33 curScancode t.pckbd = some (pckbd, curChar) := by
      rw [pckbdIrqInputHandler, if_neg (by decide)]
      split
      · exact ⟨_, _, rfl⟩
      · exact ⟨_, _, rfl⟩
    have hw := h.write (keyText curChar)
    simp only [consoleStep, Sheet.call, h.pckbd, hkey, Option.bind_eq_bind, Option.bind_some]
    cases curChar with
    | none => exact ⟨_, rfl, hw.shown, hw.color, rfl⟩
    | some c =>
      have hprint : printf percentC [.int (.ofInt 32 c)] s.vga = some (putchars (keyText (some c)) s.vga) := by
        rw [printf_eq (by rw [pieces_percentC]; exact ⟨trivial, trivial⟩), pieces_percentC]
        rfl
      simp only [hprint, Option.bind_some]
      exact ⟨_, rfl, hw.shown, hw.color, rfl⟩

theorem ShowsSheet.run {d : PckbdDriver} : ∀ {calls : List ConsoleCall} {s : Console} {t : Sheet}, ShowsSheet memory s t →
    (∀ call ∈ calls, call.Matches) →
    ∃ s', calls.foldlM (consoleStep d) s = some s' ∧ ShowsSheet memory s' (calls.foldl (Sheet.call d memory) t)
  | [], s, _, h, _ => ⟨s, rfl, h⟩
  | call :: calls, s, t, h, hm => by
    obtain ⟨s₁, hs, h₁⟩ := h.step (d := d) (hm call List.mem_cons_self)
    obtain ⟨s', hrun, h'⟩ := h₁.run (d := d) fun c hc => hm c (List.mem_cons_of_mem call hc)
    exact ⟨s', by rw [List.foldlM_cons, hs]; exact hrun, h'⟩

/-- **The screen is a window on the paper.** Over every run of the console
whose calls of `printf` have the arguments that their formats ask for, the
driver shows the last lines of all that was printed since it was cleared,
row by row in the colours it was printed in; the rows never written show
blanks or, once the screen has scrolled, what lay behind the buffer, where
nothing is ever stored. -/
theorem console_shows_paper (d : PckbdDriver) (memory : Nat → BitVec 16) (calls : List ConsoleCall)
    (hm : ∀ call ∈ calls, call.Matches) :
    ∃ s, calls.foldlM (consoleStep d) ⟨vgaTextmodeInitialize memory, false, false⟩ = some s ∧
      let sheet := calls.foldl (Sheet.call d memory) ⟨blankPaper memory, lightGrey, false, false⟩
      (∀ y x, y < 25 → x < 80 → s.vga.buffer (y * 80 + x) = sheet.paper.window 25 y x) ∧
      (∀ i, 2000 ≤ i → s.vga.buffer i = memory i) ∧
      s.vga.row < 25 ∧ sheet.paper.top 25 + s.vga.row = sheet.paper.line ∧
      s.vga.column < 80 ∧ s.vga.column = sheet.paper.column := by
  have hw := blankCells_wiped ⟨0, 0, lightGrey, memory, 0, []⟩
  have hstart : ShowsSheet memory ⟨vgaTextmodeInitialize memory, false, false⟩ ⟨blankPaper memory, lightGrey, false, false⟩ :=
    ⟨.start memory, hw.color, rfl⟩
  obtain ⟨s, hrun, h⟩ := hstart.run (d := d) hm
  exact ⟨s, hrun, h.shown.cell, h.shown.behind, h.shown.row_lt, h.shown.row, h.shown.column_lt, h.shown.column⟩

/-- `printf("%c", '$')`, then the key `a`. -/
theorem console_shows_paper_key : ∃ s,
    [.printf percentC [.int 0x24], .input 0x1E].foldlM (consoleStep pckbdUsQwerty)
      ⟨vgaTextmodeInitialize fun _ => 0, false, false⟩ = some s ∧ s.vga.buffer 1 = 0x0761 := by
  obtain ⟨s, hrun, hcell, -⟩ := console_shows_paper pckbdUsQwerty (fun _ => 0) [.printf percentC [.int 0x24], .input 0x1E] (by
    simp [ConsoleCall.Matches, pieces_percentC, Matched, Conversion.Accepts])
  have hkey : pckbdIrqInputHandler pckbdUsQwerty 33 0x1E ⟨false, false⟩ = some (⟨false, false⟩, some 0x61) := rfl
  refine ⟨s, hrun, (hcell 0 1 (by decide) (by decide)).trans ?_⟩
  simp only [List.foldl_cons, List.foldl_nil, Sheet.call, pieces_percentC, Sheet.write, passedText, hkey]
  decide

end ShawnOS
