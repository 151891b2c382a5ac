/-
The kernel terminal (`kernel/kernel_terminal.c`).

A character is drawn at the cursor and the cursor after it: at column 80
when the line is full, for the line wraps with the next character only. On
the last row that is the cell behind the buffer. A newline there draws the
cursor in row 25 before the terminal scrolls.
-/
import ShawnOS.Textmode

namespace ShawnOS

open Traces

/-- The terminal's variables. `indices` are the cells of `terminal_buffer`
used so far. -/
structure KernelTerminal where
  curXpos : Nat
  curYpos : Nat
  color : BitVec 8
  isAnsiEscape : Bool
  ansiEscapeLength : Nat
  terminalBuffer : Nat → BitVec 16
  vga : VgaTextmode
  indices : List Nat

/-- `kernel_terminal_escapecodes`. -/
def kernelTerminalEscapecodes : List (BitVec 8) := [0x0A, 0x08, 0, 0, 0, 0, 0, 0, 0, 0, 0, 0, 0, 0, 0]

/-- `kernel_terminal_putentry`. -/
def kernelTerminalPutentry (c color : BitVec 8) (x y : Nat) (s : KernelTerminal) : KernelTerminal :=
  let index := y * vgaWidth + x
  { s with
    vga := vgaTextmodePutentryat c color x y s.vga
    terminalBuffer := Function.update s.terminalBuffer index (makeVgaentry c color)
    indices := index :: s.indices }

/-- `kernel_terminal_update_cursor`. -/
def kernelTerminalUpdateCursor (s : KernelTerminal) : KernelTerminal :=
  kernelTerminalPutentry 0x5F s.color s.curXpos s.curYpos s

/-- One cell in `kernel_terminal_handle_scroll`. -/
def kernelTerminalScrollCell (y x : Nat) (s : KernelTerminal) : KernelTerminal :=
  let index := y * vgaWidth + x
  let nextrowIndex := index + vgaWidth
  if y = vgaHeight - 1 then kernelTerminalPutentry space s.color x y s
  else
    { s with
      terminalBuffer := Function.update s.terminalBuffer index (s.terminalBuffer nextrowIndex)
      indices := index :: nextrowIndex :: s.indices }

/-- `kernel_terminal_handle_scroll`. -/
def kernelTerminalHandleScroll (s : KernelTerminal) : KernelTerminal :=
  if s.curYpos = vgaHeight then
    let s := vgaRows kernelTerminalScrollCell vgaHeight 0 s
    { s with curYpos := s.curYpos - 1 }
  else s

/-- `kernel_terminal_handle_overflow`. -/
def kernelTerminalHandleOverflow (s : KernelTerminal) : KernelTerminal :=
  if s.curXpos ≥ vgaWidth then { s with curXpos := 0, curYpos := s.curYpos + 1 } else s

/-- `kernel_terminal_backspace`. -/
def kernelTerminalBackspace (s : KernelTerminal) : KernelTerminal :=
  let s := kernelTerminalPutentry space s.color s.curXpos s.curYpos s
  if s.curXpos = 0 ∧ s.curYpos = 0 then kernelTerminalPutentry space s.color 0 0 s
  else if s.curXpos = 0 then s
  else
    let s := kernelTerminalPutentry space s.color s.curXpos s.curYpos s
    { s with curXpos := s.curXpos - 1 }

/-- `kernel_terminal_check_escapecode`. -/
def kernelTerminalCheckEscapecode (c : BitVec 8) (s : KernelTerminal) : Bool × KernelTerminal :=
  if c ∈ kernelTerminalEscapecodes then (true, s)
  else if c = 27 then (true, { s with isAnsiEscape := true, ansiEscapeLength := 1 })
  else (false, s)

/-- `kernel_terminal_handle_escapecode`. -/
def kernelTerminalHandleEscapecode (c : BitVec 8) (s : KernelTerminal) : KernelTerminal :=
  if c = newline then
    let s := kernelTerminalPutentry space s.color s.curXpos s.curYpos s
    kernelTerminalUpdateCursor { s with curYpos := s.curYpos + 1, curXpos := 0 }
  else if c = 0x08 then kernelTerminalBackspace s
  else if s.isAnsiEscape ∧ s.ansiEscapeLength = 1 ∧ c = 27 then
    { s with ansiEscapeLength := s.ansiEscapeLength + 1 }
  else
    -- Also after a left square bracket: its case falls through to `ansi_fail`.
    { s with isAnsiEscape := false, ansiEscapeLength := 0 }

/-- One character in `kernel_terminal_update_tick`. -/
def kernelTerminalChar (s : KernelTerminal) (curChar : BitVec 8) : KernelTerminal :=
  let (escape, s) := kernelTerminalCheckEscapecode curChar s
  if escape || s.isAnsiEscape then
    kernelTerminalUpdateCursor (kernelTerminalHandleScroll (kernelTerminalHandleEscapecode curChar s))
  else
    let s := kernelTerminalHandleScroll (kernelTerminalHandleOverflow s)
    let s := kernelTerminalPutentry curChar s.color s.curXpos s.curYpos s
    kernelTerminalUpdateCursor { s with curXpos := s.curXpos + 1 }

/-- `kernel_terminal_update_tick`, on what the stdout buffer holds. -/
def kernelTerminalUpdateTick (s : KernelTerminal) (stdout : List (BitVec 8)) : KernelTerminal :=
  if stdout.isEmpty then s
  else
    let s := stdout.foldl kernelTerminalChar { s with vga := vgaTextmodeClear s.vga }
    { s with vga := vgaTextmodeWritebuffer s.terminalBuffer (vgaWidth * vgaHeight) 0 s.vga }

/-- One cell in `kernel_terminal_init`. -/
def kernelTerminalBlankCell (y x : Nat) (s : KernelTerminal) : KernelTerminal :=
  let index := y * vgaWidth + x
  { s with
    terminalBuffer := Function.update s.terminalBuffer index (makeVgaentry space s.color)
    indices := index :: s.indices }

/-- `kernel_terminal_init` up to its first tick, over what the video memory
and the terminal's own held. -/
def kernelTerminalInit (memory terminalBuffer : Nat → BitVec 16) : KernelTerminal :=
  vgaRows kernelTerminalBlankCell vgaHeight 0
    { curXpos := 0, curYpos := 0, color := lightGrey, isAnsiEscape := false, ansiEscapeLength := 0, terminalBuffer
      vga := vgaTextmodeInitialize memory, indices := [] }

/-! ## Inside the buffer -/

/-- Every index so far lies in the buffer, and the cursor in a row. -/
structure InBuffer (s : KernelTerminal) : Prop where
  indices : ∀ i ∈ s.indices, i < vgaWidth * vgaHeight
  row : s.curYpos < vgaHeight

/-- The character is handled as an escape. -/
def isEscape (s : KernelTerminal) (c : BitVec 8) : Prop :=
  c ∈ kernelTerminalEscapecodes ∨ c = 27 ∨ s.isAnsiEscape = true

instance (s : KernelTerminal) (c : BitVec 8) : Decidable (isEscape s c) := inferInstanceAs (Decidable (_ ∨ _ ∨ _))

/-- A newline comes above the last row; a character drawn, not in its last
cell; any other, not with the cursor behind that cell. -/
def StaysInside (s : KernelTerminal) (c : BitVec 8) : Prop :=
  if c = newline then s.curYpos < 24
  else if isEscape s c then ¬ (s.curYpos = 24 ∧ s.curXpos = 80)
  else ¬ (s.curYpos = 24 ∧ s.curXpos = 79)

/-- One character. -/
def kernelTerminalStep (s : KernelTerminal) (c : BitVec 8) : Option KernelTerminal := some (kernelTerminalChar s c)

/-- One tick. -/
def kernelTerminalTickStep (s : KernelTerminal) (stdout : List (BitVec 8)) : Option KernelTerminal :=
  some (kernelTerminalUpdateTick s stdout)

/-- Where a tick's loop starts. -/
def tickStart (s : KernelTerminal) : KernelTerminal := { s with vga := vgaTextmodeClear s.vga }

/-- After each character of a tick all is inside the buffer. -/
def TickInBuffer (s : KernelTerminal) (stdout : List (BitVec 8)) : Prop :=
  Throughout kernelTerminalStep InBuffer (tickStart s) stdout

/-- Each character of a tick stays inside. -/
def TickStaysInside (s : KernelTerminal) (stdout : List (BitVec 8)) : Prop :=
  EachStep kernelTerminalStep StaysInside (tickStart s) stdout

/-! ## The cells each function uses -/

/-- All indices so far are inside. -/
def Inside (s : KernelTerminal) : Prop := ∀ i ∈ s.indices, i < 2000

@[simp] theorem inside_putentry {c color : BitVec 8} {x y : Nat} {s : KernelTerminal} :
    Inside (kernelTerminalPutentry c color x y s) ↔ y * 80 + x < 2000 ∧ Inside s := by
  simp [Inside, kernelTerminalPutentry, vgaWidth]

@[simp] theorem inside_updateCursor {s : KernelTerminal} :
    Inside (kernelTerminalUpdateCursor s) ↔ s.curYpos * 80 + s.curXpos < 2000 ∧ Inside s :=
  inside_putentry

@[simp] theorem putentry_xpos (c color : BitVec 8) (x y : Nat) (s : KernelTerminal) :
    (kernelTerminalPutentry c color x y s).curXpos = s.curXpos := rfl

@[simp] theorem putentry_ypos (c color : BitVec 8) (x y : Nat) (s : KernelTerminal) :
    (kernelTerminalPutentry c color x y s).curYpos = s.curYpos := rfl

@[simp] theorem updateCursor_xpos (s : KernelTerminal) : (kernelTerminalUpdateCursor s).curXpos = s.curXpos := rfl

@[simp] theorem updateCursor_ypos (s : KernelTerminal) : (kernelTerminalUpdateCursor s).curYpos = s.curYpos := rfl

/-- Moving the cursor uses no cell. -/
@[simp] theorem inside_moved {s : KernelTerminal} {x y : Nat} :
    Inside { s with curXpos := x, curYpos := y } ↔ Inside s := Iff.rfl

/-- The rows scrolled, the cursor is where it was and all cells used are
inside. -/
structure Scrolled (s t : KernelTerminal) : Prop where
  xpos : t.curXpos = s.curXpos
  ypos : t.curYpos = s.curYpos
  inside : Inside t ↔ Inside s

theorem scrollCell_scrolled {y x : Nat} (hy : y < 25) (hx : x < 80) (s : KernelTerminal) :
    Scrolled s (kernelTerminalScrollCell y x s) := by
  unfold kernelTerminalScrollCell
  dsimp only
  split
  · exact ⟨rfl, rfl, by rw [inside_putentry]; exact and_iff_right (by omega)⟩
  · next hne =>
    have hlast : y < 24 := by
      simp only [vgaHeight] at hne
      omega
    refine ⟨rfl, rfl, ?_⟩
    simp only [Inside, List.forall_mem_cons, vgaWidth]
    exact ⟨fun h => h.2.2, fun h => ⟨by omega, by omega, h⟩⟩

theorem row_scrolled {body : (x : Nat) → KernelTerminal → KernelTerminal}
    (hbody : ∀ {x}, x < 80 → ∀ s, Scrolled s (body x s)) : ∀ {rem x : Nat} (s : KernelTerminal), x + rem ≤ 80 →
    Scrolled s (vgaRow body rem x s)
  | 0, _, _, _ => ⟨rfl, rfl, Iff.rfl⟩
  | rem + 1, x, s, h => by
    have h1 := hbody (show x < 80 by omega) s
    have h2 := row_scrolled hbody (body x s) (show x + 1 + rem ≤ 80 by omega)
    exact ⟨h2.xpos.trans h1.xpos, h2.ypos.trans h1.ypos, h2.inside.trans h1.inside⟩

theorem rows_scrolled {body : (y x : Nat) → KernelTerminal → KernelTerminal}
    (hbody : ∀ {y x}, y < 25 → x < 80 → ∀ s, Scrolled s (body y x s)) :
    ∀ {rem y : Nat} (s : KernelTerminal), y + rem ≤ 25 → Scrolled s (vgaRows body rem y s)
  | 0, _, _, _ => ⟨rfl, rfl, Iff.rfl⟩
  | rem + 1, y, s, h => by
    have h1 := row_scrolled (hbody (show y < 25 by omega)) s (show 0 + 80 ≤ 80 by omega)
    have h2 := rows_scrolled hbody (vgaRow (body y) vgaWidth 0 s) (show y + 1 + rem ≤ 25 by omega)
    exact ⟨h2.xpos.trans h1.xpos, h2.ypos.trans h1.ypos, h2.inside.trans h1.inside⟩

/-- Scrolling takes the cursor from row 25 to row 24, and uses cells inside. -/
theorem handleScroll_spec (s : KernelTerminal) :
    (kernelTerminalHandleScroll s).curXpos = s.curXpos ∧
      (kernelTerminalHandleScroll s).curYpos = (if s.curYpos = 25 then 24 else s.curYpos) ∧
      (Inside (kernelTerminalHandleScroll s) ↔ Inside s) := by
  unfold kernelTerminalHandleScroll
  have h := rows_scrolled scrollCell_scrolled s (show 0 + vgaHeight ≤ 25 by decide)
  generalize vgaRows kernelTerminalScrollCell vgaHeight 0 s = t at h
  rw [vgaHeight]
  split
  · next hy => exact ⟨h.xpos, by simp only [h.ypos, hy], h.inside⟩
  · exact ⟨rfl, rfl, Iff.rfl⟩

@[simp] theorem handleScroll_xpos (s : KernelTerminal) : (kernelTerminalHandleScroll s).curXpos = s.curXpos :=
  (handleScroll_spec s).1

@[simp] theorem handleScroll_ypos (s : KernelTerminal) :
    (kernelTerminalHandleScroll s).curYpos = if s.curYpos = 25 then 24 else s.curYpos :=
  (handleScroll_spec s).2.1

@[simp] theorem inside_handleScroll {s : KernelTerminal} : Inside (kernelTerminalHandleScroll s) ↔ Inside s :=
  (handleScroll_spec s).2.2

/-! ## One character -/

/-- Checking for an escape uses no cell and leaves the cursor. -/
theorem checkEscapecode_spec (c : BitVec 8) (s : KernelTerminal) :
    ((kernelTerminalCheckEscapecode c s).1 || (kernelTerminalCheckEscapecode c s).2.isAnsiEscape) =
        decide (isEscape s c) ∧
      (kernelTerminalCheckEscapecode c s).2.curXpos = s.curXpos ∧
      (kernelTerminalCheckEscapecode c s).2.curYpos = s.curYpos ∧
      (Inside (kernelTerminalCheckEscapecode c s).2 ↔ Inside s) := by
  unfold kernelTerminalCheckEscapecode isEscape
  split
  · next h => simp [h]
  · split
    · next h => exact ⟨by simp [h], rfl, rfl, Iff.rfl⟩
    · next h1 h2 =>
      have h27 : ¬ c = 27#8 := h2
      simp [h1, h27]

/-- Handling an escape: a newline goes to the next row, anything else stays
in its own. -/
theorem handleEscapecode_newline (s : KernelTerminal) :
    (kernelTerminalHandleEscapecode newline s).curXpos = 0 ∧
      (kernelTerminalHandleEscapecode newline s).curYpos = s.curYpos + 1 ∧
      (Inside (kernelTerminalHandleEscapecode newline s) ↔
        (s.curYpos + 1) * 80 < 2000 ∧ s.curYpos * 80 + s.curXpos < 2000 ∧ Inside s) := by
  unfold kernelTerminalHandleEscapecode
  simp

theorem handleBackspace_spec (s : KernelTerminal) :
    (kernelTerminalBackspace s).curXpos = s.curXpos - 1 ∧ (kernelTerminalBackspace s).curYpos = s.curYpos ∧
      (Inside (kernelTerminalBackspace s) ↔ s.curYpos * 80 + s.curXpos < 2000 ∧ Inside s) := by
  have hput := @inside_putentry space s.color s.curXpos s.curYpos s
  unfold kernelTerminalBackspace
  obtain ⟨t, ht⟩ : ∃ t, t = kernelTerminalPutentry space s.color s.curXpos s.curYpos s := ⟨_, rfl⟩
  have hx : t.curXpos = s.curXpos := by rw [ht, putentry_xpos]
  have hy : t.curYpos = s.curYpos := by rw [ht, putentry_ypos]
  rw [← ht] at hput ⊢
  dsimp only
  rw [hx, hy, ← hput]
  by_cases h0 : s.curXpos = 0 ∧ s.curYpos = 0
  · simp [h0, hx, hy]
  · by_cases hcol : s.curXpos = 0
    · have hrow : s.curYpos ≠ 0 := fun hrow => h0 ⟨hcol, hrow⟩
      simp [hcol, hrow, hx, hy]
    · have hin : Inside t → s.curYpos * 80 + s.curXpos < 2000 := fun h => (hput.mp h).1
      simp only [hcol, false_and, ite_false]
      refine ⟨by rw [putentry_xpos, hx], hy, ?_⟩
      have htwice := @inside_putentry space t.color s.curXpos s.curYpos t
      exact htwice.trans ⟨fun h => h.2, fun h => ⟨hin h, h⟩⟩

theorem handleEscapecode_other {c : BitVec 8} (s : KernelTerminal) (hc : c ≠ newline) :
    (kernelTerminalHandleEscapecode c s).curXpos ≤ s.curXpos ∧
      (kernelTerminalHandleEscapecode c s).curYpos = s.curYpos ∧
      s.curXpos ≤ (kernelTerminalHandleEscapecode c s).curXpos + (if c = 0x08 then 1 else 0) ∧
      (Inside (kernelTerminalHandleEscapecode c s) ↔
        (c = 0x08 → s.curYpos * 80 + s.curXpos < 2000) ∧ Inside s) := by
  unfold kernelTerminalHandleEscapecode
  rw [if_neg hc]
  by_cases hb : c = 0x08
  · obtain ⟨h1, h2, h3⟩ := handleBackspace_spec s
    rw [if_pos hb, h1, h2, h3, if_pos hb]
    exact ⟨by omega, rfl, by omega, by simp [hb]⟩
  · have hin : Inside s ↔ (c = 0x08 → s.curYpos * 80 + s.curXpos < 2000) ∧ Inside s :=
      ⟨fun h => ⟨fun h8 => absurd h8 hb, h⟩, fun h => h.2⟩
    rw [if_neg hb, if_neg hb]
    split
    · exact ⟨Nat.le_refl _, rfl, Nat.le_refl _, hin⟩
    · exact ⟨Nat.le_refl _, rfl, Nat.le_refl _, hin⟩

/-- What drawing a character does to the cursor. -/
theorem handleOverflow_spec (s : KernelTerminal) :
    (kernelTerminalHandleOverflow s).curXpos = (if s.curXpos ≥ 80 then 0 else s.curXpos) ∧
      (kernelTerminalHandleOverflow s).curYpos = (if s.curXpos ≥ 80 then s.curYpos + 1 else s.curYpos) ∧
      (Inside (kernelTerminalHandleOverflow s) ↔ Inside s) := by
  unfold kernelTerminalHandleOverflow
  rw [vgaWidth]
  split
  · exact ⟨rfl, rfl, Iff.rfl⟩
  · exact ⟨rfl, rfl, Iff.rfl⟩

/-- Drawing a character and, after it, the cursor. -/
theorem inside_drawn (c : BitVec 8) (s : KernelTerminal) :
    Inside (kernelTerminalUpdateCursor
        { kernelTerminalPutentry c s.color s.curXpos s.curYpos s with curXpos := s.curXpos + 1 }) ↔
      s.curYpos * 80 + s.curXpos + 1 < 2000 ∧ Inside s := by
  have hput := @inside_putentry c s.color s.curXpos s.curYpos s
  refine inside_updateCursor.trans ⟨fun h => ⟨?_, (hput.mp h.2).2⟩, fun h => ⟨?_, hput.mpr ⟨by omega, h.2⟩⟩⟩
  · exact Nat.add_assoc .. ▸ h.1
  · exact Nat.add_assoc .. ▸ h.1

/-- The line is at most full, and the cursor's row one of the screen. -/
structure CursorInv (s : KernelTerminal) : Prop where
  xpos : s.curXpos ≤ 80
  ypos : s.curYpos < 25

theorem newline_isEscape (s : KernelTerminal) : isEscape s newline := .inl (by decide)

theorem char_newline_ypos (s : KernelTerminal) :
    (kernelTerminalChar s newline).curYpos = if s.curYpos + 1 = 25 then 24 else s.curYpos + 1 := by
  obtain ⟨hesc, -, hy, -⟩ := checkEscapecode_spec newline s
  have hnew := (handleEscapecode_newline (kernelTerminalCheckEscapecode newline s).2).2.1
  unfold kernelTerminalChar
  dsimp only
  rw [if_pos (by simp [hesc, newline_isEscape]), updateCursor_ypos, handleScroll_ypos, hnew, hy]

/-- A newline. -/
theorem CursorInv.newlineChar {t : KernelTerminal} (h : CursorInv t) (hin : Inside t) :
    CursorInv (kernelTerminalUpdateCursor (kernelTerminalHandleScroll (kernelTerminalHandleEscapecode newline t))) ∧
      (Inside (kernelTerminalUpdateCursor (kernelTerminalHandleScroll (kernelTerminalHandleEscapecode newline t))) ↔
        t.curYpos < 24) := by
  have hxpos := h.xpos; have hypos := h.ypos
  obtain ⟨h1, h2, h3⟩ := handleEscapecode_newline t
  refine ⟨⟨?_, ?_⟩, ?_⟩
  · simp [h1]
  · simp only [updateCursor_ypos, handleScroll_ypos, h2]
    split <;> omega
  · simp only [inside_updateCursor, handleScroll_xpos, handleScroll_ypos, inside_handleScroll, h1, h2, h3, hin, and_true]
    split <;> omega

/-- Any other character that is not drawn. -/
theorem CursorInv.escapeChar {t : KernelTerminal} {c : BitVec 8} (h : CursorInv t) (hin : Inside t) (hn : c ≠ newline) :
    CursorInv (kernelTerminalUpdateCursor (kernelTerminalHandleScroll (kernelTerminalHandleEscapecode c t))) ∧
      (Inside (kernelTerminalUpdateCursor (kernelTerminalHandleScroll (kernelTerminalHandleEscapecode c t))) ↔
        ¬ (t.curYpos = 24 ∧ t.curXpos = 80)) := by
  have hxpos := h.xpos; have hypos := h.ypos
  obtain ⟨h1, h2, h3, h4⟩ := handleEscapecode_other t hn
  have hrow : ¬ t.curYpos = 25 := by omega
  refine ⟨⟨?_, ?_⟩, ?_⟩
  · simp only [updateCursor_xpos, handleScroll_xpos]
    omega
  · simp only [updateCursor_ypos, handleScroll_ypos, h2, hrow, ite_false]
    exact hypos
  · simp only [inside_updateCursor, handleScroll_xpos, handleScroll_ypos, inside_handleScroll, h2, h4, hin, hrow,
      ite_false, and_true]
    by_cases hb : c = 0x08
    · simp only [hb, ite_true, true_imp_iff] at h1 h3 ⊢
      constructor
      · rintro ⟨-, h⟩ ⟨hrow, hcol⟩
        omega
      · intro h
        omega
    · simp only [hb, ite_false, false_imp_iff, and_true] at h3 ⊢
      omega

/-- A character that is drawn. -/
theorem CursorInv.drawnChar {t o : KernelTerminal} (h : CursorInv t) (hin : Inside t) (c : BitVec 8)
    (ho : o = kernelTerminalHandleScroll (kernelTerminalHandleOverflow t)) :
    CursorInv (kernelTerminalUpdateCursor { kernelTerminalPutentry c o.color o.curXpos o.curYpos o with
      curXpos := (kernelTerminalPutentry c o.color o.curXpos o.curYpos o).curXpos + 1 }) ∧
      (Inside (kernelTerminalUpdateCursor { kernelTerminalPutentry c o.color o.curXpos o.curYpos o with
        curXpos := (kernelTerminalPutentry c o.color o.curXpos o.curYpos o).curXpos + 1 }) ↔
        ¬ (t.curYpos = 24 ∧ t.curXpos = 79)) := by
  have hxpos := h.xpos; have hypos := h.ypos
  obtain ⟨h1, h2, h3⟩ := handleOverflow_spec t
  refine ⟨⟨?_, ?_⟩, ?_⟩
  · simp only [ho, updateCursor_xpos, putentry_xpos, handleScroll_xpos, h1]
    split <;> omega
  · simp only [ho, updateCursor_ypos, putentry_ypos, handleScroll_ypos, h2]
    split <;> split <;> omega
  · refine (inside_drawn c o).trans ?_
    simp only [ho, handleScroll_xpos, handleScroll_ypos, inside_handleScroll, h1, h2, h3, hin, and_true]
    split <;> split <;> omega

/-- **One character** keeps the cursor in its rows, and stays inside the
buffer exactly where `StaysInside` says. -/
theorem CursorInv.step {s : KernelTerminal} (h : CursorInv s) (hin : Inside s) (c : BitVec 8) :
    CursorInv (kernelTerminalChar s c) ∧ (Inside (kernelTerminalChar s c) ↔ StaysInside s c) := by
  obtain ⟨hesc, hx, hy, hi⟩ := checkEscapecode_spec c s
  have hinv : CursorInv (kernelTerminalCheckEscapecode c s).2 := ⟨by rw [hx]; exact h.xpos, by rw [hy]; exact h.ypos⟩
  have hin' := hi.mpr hin
  unfold kernelTerminalChar StaysInside
  dsimp only
  rw [hesc, ← hx, ← hy]
  by_cases hn : c = newline
  · subst hn
    rw [if_pos (by simp [newline_isEscape]), if_pos rfl]
    exact hinv.newlineChar hin'
  rw [if_neg hn]
  by_cases he : isEscape s c
  · rw [if_pos (by simp [he]), if_pos he]
    exact hinv.escapeChar hin' hn
  · rw [if_neg (by simp [he]), if_neg he]
    exact hinv.drawnChar hin' c rfl

/-! ## Ticks -/

theorem inBuffer_iff {s : KernelTerminal} (h : CursorInv s) : InBuffer s ↔ Inside s :=
  ⟨fun hb => hb.indices, fun hi => ⟨hi, h.ypos⟩⟩

/-- Clearing the screen concerns the screen only. -/
theorem tickStart_scrolled (s : KernelTerminal) : Scrolled s (tickStart s) := by
  obtain ⟨screen, hscreen⟩ : ∃ screen, screen = vgaTextmodeClear s.vga := ⟨_, rfl⟩
  rw [tickStart, ← hscreen]
  exact ⟨rfl, rfl, Iff.rfl⟩

theorem CursorInv.cleared {s : KernelTerminal} (h : CursorInv s) : CursorInv (tickStart s) := by
  have hs := tickStart_scrolled s
  refine ⟨?_, ?_⟩
  · rw [hs.xpos]
    exact h.xpos
  · rw [hs.ypos]
    exact h.ypos

/-- A run of characters. -/
theorem CursorInv.chars {s : KernelTerminal} {l : List (BitVec 8)} (h : CursorInv s) (hin : Inside s)
    (hl : Throughout kernelTerminalStep InBuffer s l) :
    CursorInv (l.foldl kernelTerminalChar s) ∧ Inside (l.foldl kernelTerminalChar s) := by
  induction l generalizing s with
  | nil => exact ⟨h, hin⟩
  | cons c l ih =>
    obtain ⟨s', hs, hgood, hrest⟩ := hl
    cases hs
    exact ih (h.step hin c).1 hgood.indices hrest

theorem CursorInv.tick {s : KernelTerminal} {stdout : List (BitVec 8)} (h : CursorInv s) (hin : Inside s)
    (hl : TickInBuffer s stdout) :
    CursorInv (kernelTerminalUpdateTick s stdout) ∧ Inside (kernelTerminalUpdateTick s stdout) := by
  unfold kernelTerminalUpdateTick
  split
  · exact ⟨h, hin⟩
  · obtain ⟨hcur, hind⟩ := h.cleared.chars ((tickStart_scrolled s).inside.mpr hin) hl
    rw [tickStart] at hcur hind
    dsimp only
    generalize vgaTextmodeWritebuffer _ _ _ _ = shown
    exact ⟨⟨hcur.xpos, hcur.ypos⟩, hind⟩

/-- **One tick** stays inside the buffer exactly when each character does. -/
theorem CursorInv.tick_iff {s : KernelTerminal} (h : CursorInv s) (hin : Inside s) (stdout : List (BitVec 8)) :
    TickInBuffer s stdout ↔ TickStaysInside s stdout := by
  have hstart := (inBuffer_iff h.cleared).mpr ((tickStart_scrolled s).inside.mpr hin)
  refine throughout_iff (fun t c ht hgood _ => ?_) h.cleared hstart
    eachStep_true
  obtain ⟨hinv, hiff⟩ := ht.step hgood.indices c
  exact ⟨_, rfl, hinv, (inBuffer_iff hinv).trans hiff⟩

theorem blankCell_scrolled {y x : Nat} (hy : y < 25) (hx : x < 80) (s : KernelTerminal) :
    Scrolled s (kernelTerminalBlankCell y x s) := by
  refine ⟨rfl, rfl, ?_⟩
  simp only [Inside, kernelTerminalBlankCell, List.forall_mem_cons, vgaWidth]
  exact ⟨fun h => h.2, fun h => ⟨by omega, h⟩⟩

theorem init_scrolled (memory terminalBuffer : Nat → BitVec 16) :
    CursorInv (kernelTerminalInit memory terminalBuffer) ∧ Inside (kernelTerminalInit memory terminalBuffer) := by
  unfold kernelTerminalInit
  have h := fun s => rows_scrolled blankCell_scrolled s (show 0 + vgaHeight ≤ 25 by decide)
  refine ⟨⟨?_, ?_⟩, (h _).inside.mpr fun i hi => absurd hi List.not_mem_nil⟩
  · rw [(h _).xpos]
    exact Nat.zero_le 80
  · rw [(h _).ypos]
    exact Nat.zero_lt_succ 24

/-- **When the terminal stays in its buffer**: over every sequence of ticks,
every index used lies in the buffer, and the cursor in a row after each
character, exactly when each character stays inside. -/
theorem kernel_terminal_in_buffer_iff (memory terminalBuffer : Nat → BitVec 16) (ticks : List (List (BitVec 8))) :
    EachStep kernelTerminalTickStep TickInBuffer (kernelTerminalInit memory terminalBuffer) ticks ↔
      EachStep kernelTerminalTickStep TickStaysInside (kernelTerminalInit memory terminalBuffer) ticks := by
  refine eachStep_iff (I := fun s => CursorInv s ∧ Inside s) (fun s stdout h _ => ?_)
    (init_scrolled memory terminalBuffer) eachStep_true
  refine ⟨h.1.tick_iff h.2 stdout, fun hc s' hs => ?_⟩
  cases hs
  exact h.1.tick h.2 hc

theorem newlines_stay {n : Nat} {s : KernelTerminal}
    (h : EachStep kernelTerminalStep StaysInside s (List.replicate (n + 1) newline)) : s.curYpos + n < 24 := by
  induction n generalizing s with
  | zero => exact h.1
  | succ n ih =>
    have hrow : s.curYpos < 24 := h.1
    have hrest := ih (h.2 _ rfl)
    rw [char_newline_ypos s] at hrest
    split at hrest <;> omega

/-- A newline on the last row draws the cursor behind the buffer. -/
theorem kernel_terminal_newline_leaves :
    ¬ EachStep kernelTerminalTickStep TickInBuffer (kernelTerminalInit (fun _ => 0) (fun _ => 0))
      [List.replicate 25 newline] := by
  intro h
  have hinit := init_scrolled (fun _ => 0) (fun _ => 0)
  have hstays := newlines_stay ((hinit.1.tick_iff hinit.2 _).mp h.1)
  omega

end ShawnOS
