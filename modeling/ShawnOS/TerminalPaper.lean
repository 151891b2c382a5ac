/-
What the kernel terminal shows (`kernel/kernel_terminal.c`).

The terminal types on the roll of paper behind its window, with the cursor
drawn over the cell written next. A line wraps only with the character behind
its last one, a backspace stops at the start of its line, and the character
after an escape is swallowed. The text is what ticks take from the output
buffer: of all that was written between two of them, the final block.

Behind `terminal_buffer` lie other variables of the kernel, which are not
part of it here. So what is on the screen is said of runs that stay inside
(`CallStaysInside`).
-/
import ShawnOS.Console
import ShawnOS.KernelStdio

namespace ShawnOS

open Paper Traces

/-! ## The teletype -/

/-- A blank cell. -/
def blankEntry : BitVec 16 := makeVgaentry space lightGrey

/-- The cursor. -/
def cursorEntry : BitVec 16 := makeVgaentry 0x5F lightGrey

/-- The paper, whether the next character is swallowed, and whether anything
was typed yet. -/
structure Teletype where
  paper : Roll (BitVec 16)
  swallow : Bool
  started : Bool

/-- A character is typed, on the next line if this one is full. -/
def drawChar (c : BitVec 8) (p : Roll (BitVec 16)) : Roll (BitVec 16) :=
  let p := if p.column = 80 then p.feed else p
  { p.mark (makeVgaentry c lightGrey) with column := p.column + 1 }

/-- The character before is erased. -/
def eraseChar (p : Roll (BitVec 16)) : Roll (BitVec 16) :=
  if p.column = 0 then p else { p with column := p.column - 1 }.mark blankEntry

/-- One character. -/
def Teletype.char (t : Teletype) (c : BitVec 8) : Teletype :=
  if c = newline then { t with paper := t.paper.feed, started := true }
  else if c = 0x08 then { t with paper := eraseChar t.paper, started := true }
  else if c = 27 then { t with swallow := true, started := true }
  else if c = 0 ∨ t.swallow then { t with swallow := false, started := true }
  else { t with paper := drawChar c t.paper, started := true }

/-- The cell the cursor is drawn in, by its index. -/
def cursorIndex (p : Roll (BitVec 16)) : Nat := (p.line - p.top 25) * 80 + p.column

/-- What the window shows. -/
def Teletype.screen (t : Teletype) (i : Nat) : BitVec 16 :=
  if t.started ∧ i = cursorIndex t.paper then cursorEntry else t.paper.window 25 (i / 80) (i % 80)

/-- Blank paper. -/
def Teletype.start : Teletype := ⟨⟨0, 0, fun _ _ => blankEntry⟩, false, false⟩

/-- From the place written next on the paper is blank. -/
def BlankAhead (p : Roll (BitVec 16)) : Prop := ∀ y x, p.line < y ∨ (y = p.line ∧ p.column ≤ x) → p.ink y x = blankEntry

/-- But for the cell `k`, the cells of a buffer show the window. -/
def CellsShow (cells : Nat → BitVec 16) (p : Roll (BitVec 16)) (k : Nat) : Prop :=
  ∀ i, i < 2000 → i ≠ k → cells i = p.window 25 (i / 80) (i % 80)

/-- The terminal is where the paper is. The cell of the cursor may hold
anything. -/
structure Follows (s : KernelTerminal) (p : Roll (BitVec 16)) (swallow : Bool) : Prop where
  color : s.color = lightGrey
  escape : s.isAnsiEscape = swallow
  escapeLength : swallow = true → s.ansiEscapeLength = 2
  row : p.top 25 + s.curYpos = p.line
  row_lt : s.curYpos < 25
  column : s.curXpos = p.column
  column_le : p.column ≤ 80
  blank : BlankAhead p
  cells : CellsShow s.terminalBuffer p (s.curYpos * 80 + s.curXpos)

/-- The terminal is at what the teletype shows, with the cursor drawn once
something was typed. -/
structure Types (s : KernelTerminal) (t : Teletype) : Prop where
  follows : Follows s t.paper t.swallow
  cursor : s.curYpos * 80 + s.curXpos < 2000 →
    s.terminalBuffer (s.curYpos * 80 + s.curXpos) = if t.started then cursorEntry else blankEntry

/-! ## Cells -/

variable {cells : Nat → BitVec 16} {p : Roll (BitVec 16)} {row k j : Nat}

/-- The cell under the cursor is blank. -/
theorem BlankAhead.window (h : BlankAhead p) (hrow : p.top 25 + row = p.line) (hcol : p.column ≤ 80)
    (hk : k = row * 80 + p.column) : p.window 25 (k / 80) (k % 80) = blankEntry := by
  refine h _ _ ?_
  by_cases hfull : p.column = 80
  · exact .inl (by omega)
  · exact .inr (by omega)

theorem BlankAhead.feed (h : BlankAhead p) : BlankAhead p.feed := fun y x hy => h y x (.inl (by
  rw [feed_line] at hy
  omega))

/-- The cursor is drawn. -/
theorem CellsShow.draw (h : CellsShow cells p k) (a : BitVec 16) : CellsShow (Function.update cells k a) p k :=
  fun i hi hik => (Function.update_of_ne hik ..).trans (h i hi hik)

/-- The cursor is erased. -/
theorem CellsShow.erase (h : CellsShow cells p k) (hblank : p.window 25 (k / 80) (k % 80) = blankEntry) :
    CellsShow (Function.update cells k blankEntry) p j := by
  intro i hi _
  by_cases hik : i = k
  · rw [hik, Function.update_self, hblank]
  · rw [Function.update_of_ne hik, h i hi hik]

/-- A character is drawn over the cursor. -/
theorem CellsShow.mark (h : CellsShow cells p k) (hrow : p.top 25 + row = p.line) (hcol : p.column < 80)
    (hk : k = row * 80 + p.column) (a : BitVec 16) : CellsShow (Function.update cells k a) (p.mark a) j := by
  intro i hi _
  rw [mark_window a hrow]
  by_cases hik : i = k
  · rw [hik, Function.update_self, if_pos (by omega)]
  · rw [Function.update_of_ne hik, h i hi hik, if_neg (by omega)]

/-- The cell that the cursor goes back to. -/
theorem CellsShow.back (h : CellsShow cells p j) (hk : 2000 ≤ j ∨ j = k) (hrow : p.top 25 + row = p.line)
    (hkey : k = row * 80 + p.column) (a : BitVec 16) : CellsShow cells (p.mark a) k := by
  intro i hi hik
  rw [mark_window a hrow, h i hi (by omega), if_neg (by omega)]

/-- The next line, above the last one shown. -/
theorem CellsShow.feed (h : CellsShow cells p k) (hlt : p.line + 1 < 25) : CellsShow cells p.feed k := by
  intro i hi hik
  rw [feed_window_of_lt hlt]
  exact h i hi hik

/-- The next line, on the last one shown: the rows have moved up, and the last
one is blank. -/
theorem CellsShow.scroll {cells' : Nat → BitVec 16} (h : CellsShow cells p k) (hk : 2000 ≤ k) (hblank : BlankAhead p)
    (hrow : p.top 25 + 24 = p.line) (hmoved : ∀ i, i < 1920 → cells' i = cells (i + 80))
    (hlast : ∀ i, 1920 ≤ i → i < 2000 → cells' i = blankEntry) : CellsShow cells' p.feed j := by
  intro i hi _
  have hle : 25 ≤ p.line + 1 := by omega
  rw [feed_window_of_le hle]
  by_cases hi' : i < 1920
  · rw [hmoved i hi', h _ (by omega) (by omega), Nat.add_div_right i (by decide), Nat.add_mod_right]
  · rw [hlast i (by omega) hi]
    exact (hblank _ _ (.inl (by omega))).symm

/-! ## Scrolling -/

/-- After `n` cells the rows have moved up; the terminal is otherwise as it
was. -/
structure RolledUp (s : KernelTerminal) (n : Nat) (t : KernelTerminal) : Prop where
  same : t = { s with terminalBuffer := t.terminalBuffer, vga := t.vga, indices := t.indices }
  moved : ∀ i, i < n → i < 1920 → t.terminalBuffer i = s.terminalBuffer (i + 80)
  last : ∀ i, i < n → 1920 ≤ i → i < 2000 → t.terminalBuffer i = makeVgaentry space s.color
  rest : ∀ i, n ≤ i → t.terminalBuffer i = s.terminalBuffer i

theorem scrollCells_rolledUp (s : KernelTerminal) : RolledUp s 2000 (vgaRows kernelTerminalScrollCell vgaHeight 0 s) := by
  refine vgaRows_counts (P := RolledUp s) (fun y x t hy hx h => ?_) rfl
    ⟨rfl, fun i hi => absurd hi (Nat.not_lt_zero i), fun i hi => absurd hi (Nat.not_lt_zero i), fun _ _ => rfl⟩
  have hcolor : t.color = s.color := by rw [h.same]
  have hother {i : Nat} (hi : i ≠ y * 80 + x) (a : BitVec 16) :
      Function.update t.terminalBuffer (y * vgaWidth + x) a i = t.terminalBuffer i := Function.update_of_ne hi ..
  have hself (a : BitVec 16) : Function.update t.terminalBuffer (y * vgaWidth + x) a (y * 80 + x) = a :=
    Function.update_self ..
  unfold kernelTerminalScrollCell
  dsimp only
  split
  · next hlast =>
    have hy24 : y = 24 := hlast
    refine ⟨?_, fun i hi hi' => ?_, fun i hi hi' hi'' => ?_, fun i hi => ?_⟩
    · rw [h.same]
      rfl
    · exact (hother (by omega) _).trans (h.moved i (by omega) hi')
    · by_cases hhere : i = y * 80 + x
      · rw [hhere, ← hcolor]
        exact hself _
      · exact (hother hhere _).trans (h.last i (by omega) hi' hi'')
    · exact (hother (by omega) _).trans (h.rest i (by omega))
  · next hless =>
    have hy24 : y ≠ 24 := hless
    refine ⟨?_, fun i hi hi' => ?_, fun i hi hi' => absurd hi (by omega), fun i hi => ?_⟩
    · rw [h.same]
    · by_cases hhere : i = y * 80 + x
      · subst hhere
        exact (hself _).trans (h.rest (y * 80 + x + 80) (by omega))
      · exact (hother hhere _).trans (h.moved i (by omega) hi')
    · exact (hother (by omega) _).trans (h.rest i (by omega))

/-- **Scrolling**, with the cursor moved to the start of the next row. -/
theorem CellsShow.handleScroll {s : KernelTerminal} {swallow : Bool} (h : CellsShow s.terminalBuffer p (s.curYpos * 80))
    (hcolor : s.color = lightGrey) (hesc : s.isAnsiEscape = swallow) (hlen : swallow = true → s.ansiEscapeLength = 2)
    (hx : s.curXpos = 0) (hrow : p.top 25 + s.curYpos = p.line + 1) (hle : s.curYpos ≤ 25) (hblank : BlankAhead p) :
    Follows (kernelTerminalHandleScroll s) p.feed swallow := by
  have htop : p.top 25 = p.line + 1 - 25 := rfl
  unfold kernelTerminalHandleScroll
  split
  · next hfull =>
    have hy : s.curYpos = 25 := hfull
    have hr := scrollCells_rolledUp s
    generalize vgaRows kernelTerminalScrollCell vgaHeight 0 s = u at hr
    have hcells : CellsShow u.terminalBuffer p.feed (24 * 80 + 0) :=
      h.scroll (by omega) hblank (by omega) (fun i hi => hr.moved i (by omega) hi)
        fun i hi hi' => (hr.last i hi' hi hi').trans (by rw [hcolor]; rfl)
    have hu : u.curYpos - 1 = 24 := by rw [hr.same, hy]
    have hux : u.curXpos = 0 := by rw [hr.same, hx]
    refine ⟨by rw [hr.same]; exact hcolor, by rw [hr.same]; exact hesc, fun hs => by rw [hr.same]; exact hlen hs, ?_, ?_, hux,
      Nat.zero_le 80, hblank.feed, ?_⟩
    · show p.feed.top 25 + (u.curYpos - 1) = p.line + 1
      rw [hu, feed_top_of_le (by omega)]
      omega
    · show u.curYpos - 1 < 25
      omega
    · show CellsShow u.terminalBuffer p.feed ((u.curYpos - 1) * 80 + u.curXpos)
      rw [hu, hux]
      exact hcells
  · next hless =>
    have hy : s.curYpos ≠ 25 := hless
    refine ⟨hcolor, hesc, hlen, ?_, by omega, hx, Nat.zero_le 80, hblank.feed, ?_⟩
    · rw [feed_top_of_lt (by omega), feed_line]
      exact hrow
    · rw [hx]
      exact h.feed (by omega)

theorem handleScroll_below {s : KernelTerminal} (h : s.curYpos < 25) : kernelTerminalHandleScroll s = s :=
  if_neg (Nat.ne_of_lt h)

/-! ## One character -/

variable {s : KernelTerminal} {swallow : Bool} {t : Teletype} {c : BitVec 8}

/-- The cell under the cursor is blank on the paper. -/
theorem Follows.blankHere (h : Follows s p swallow) :
    p.window 25 ((s.curYpos * 80 + s.curXpos) / 80) ((s.curYpos * 80 + s.curXpos) % 80) = blankEntry :=
  h.blank.window h.row h.column_le (by rw [h.column])

/-- The cursor erased. -/
def putBlank (s : KernelTerminal) : KernelTerminal := kernelTerminalPutentry space s.color s.curXpos s.curYpos s

/-- The cursor is erased, and every cell shows the paper. -/
theorem Follows.blanked (h : Follows s p swallow) :
    Follows (putBlank s) p swallow ∧ ∀ k, CellsShow (putBlank s).terminalBuffer p k := by
  have hall (k : Nat) : CellsShow (putBlank s).terminalBuffer p k := by
    have herase := h.cells.erase (j := k) h.blankHere
    have hentry : makeVgaentry space s.color = blankEntry := by
      rw [h.color]
      rfl
    rw [← hentry] at herase
    exact herase
  exact ⟨⟨h.color, h.escape, h.escapeLength, h.row, h.row_lt, h.column, h.column_le, h.blank, hall _⟩, hall⟩

/-- The cursor is drawn. -/
theorem Follows.updateCursor (h : Follows s p swallow) : Types (kernelTerminalUpdateCursor s) ⟨p, swallow, true⟩ := by
  refine ⟨⟨h.color, h.escape, h.escapeLength, h.row, h.row_lt, h.column, h.column_le, h.blank, h.cells.draw _⟩, fun _ => ?_⟩
  show Function.update s.terminalBuffer (s.curYpos * 80 + s.curXpos) _ (s.curYpos * 80 + s.curXpos) = _
  rw [Function.update_self, h.color]
  rfl

/-- A newline. -/
theorem Follows.newlineChar (h : Follows s p swallow) :
    Follows (kernelTerminalHandleScroll (kernelTerminalHandleEscapecode newline s)) p.feed swallow := by
  have hrow := h.row; have hlt := h.row_lt
  have hcells := (h.blanked.2 ((s.curYpos + 1) * 80 + 0)).draw (makeVgaentry 0x5F s.color)
  exact CellsShow.handleScroll hcells h.color h.escape h.escapeLength rfl (by show p.top 25 + (s.curYpos + 1) = _; omega)
    (Nat.succ_le_of_lt hlt) h.blank

/-- What is erased is blank, and nothing else. -/
theorem BlankAhead.erased (h : BlankAhead p) : BlankAhead (eraseChar p) := by
  unfold eraseChar
  split
  · exact h
  · intro y x hy
    have hy' : p.line < y ∨ (y = p.line ∧ p.column - 1 ≤ x) := hy
    show (if y = p.line ∧ x = p.column - 1 then blankEntry else p.ink y x) = blankEntry
    split
    · rfl
    · next hne => exact h y x (by omega)

/-- A backspace. -/
theorem Follows.backspace (h : Follows s p swallow) : Follows (kernelTerminalBackspace s) (eraseChar p) swallow := by
  have hback : kernelTerminalBackspace s =
      if s.curXpos = 0 ∧ s.curYpos = 0 then kernelTerminalPutentry space (putBlank s).color 0 0 (putBlank s)
      else if s.curXpos = 0 then putBlank s
      else { putBlank (putBlank s) with curXpos := s.curXpos - 1 } := rfl
  have hcol := h.column; have hle := h.column_le
  have h₁ := h.blanked.1
  have h₂ := h₁.blanked
  have herase := h.blank.erased
  rw [hback]
  rw [eraseChar] at herase ⊢
  split
  · next hzero =>
    have hp : p.column = 0 := hcol ▸ hzero.1
    have hagain : kernelTerminalPutentry space (putBlank s).color 0 0 (putBlank s) = putBlank (putBlank s) := by
      show _ = kernelTerminalPutentry space (putBlank s).color s.curXpos s.curYpos (putBlank s)
      rw [hzero.1, hzero.2]
    rw [if_pos hp, hagain]
    exact h₂.1
  · split
    · next hx => rwa [if_pos (hcol ▸ hx)]
    · next hx =>
      have hp : p.column ≠ 0 := hcol ▸ hx
      rw [if_neg hp] at herase ⊢
      have hcells : CellsShow (putBlank (putBlank s)).terminalBuffer ({ p with column := p.column - 1 }.mark blankEntry)
          (s.curYpos * 80 + (p.column - 1)) :=
        CellsShow.back (p := { p with column := p.column - 1 }) (h₂.2 _) (.inr rfl) h.row rfl blankEntry
      rw [← hcol] at hcells hle herase ⊢
      exact ⟨h.color, h.escape, h.escapeLength, h.row, h.row_lt, rfl, Nat.le_trans (Nat.sub_le _ 1) hle, herase, hcells⟩

/-- The line is fed where it is full. -/
theorem Follows.overflow (h : Follows s p swallow) :
    Follows (kernelTerminalHandleScroll (kernelTerminalHandleOverflow s)) (if p.column = 80 then p.feed else p) swallow := by
  have hrow := h.row; have hlt := h.row_lt; have hcol := h.column; have hle := h.column_le
  split
  · next hfull =>
    have hover : kernelTerminalHandleOverflow s = { s with curXpos := 0, curYpos := s.curYpos + 1 } :=
      if_pos (show s.curXpos ≥ 80 by omega)
    have hcells := h.cells
    rw [show s.curYpos * 80 + s.curXpos = (s.curYpos + 1) * 80 by omega] at hcells
    rw [hover]
    exact CellsShow.handleScroll hcells h.color h.escape h.escapeLength rfl (by show p.top 25 + (s.curYpos + 1) = _; omega)
      (Nat.succ_le_of_lt hlt) h.blank
  · next hfull =>
    have hover : kernelTerminalHandleOverflow s = s := if_neg (show ¬ s.curXpos ≥ 80 by omega)
    rw [hover, handleScroll_below hlt]
    exact h

/-- A character is drawn over the cursor. -/
theorem Follows.typed (h : Follows s p swallow) (hlt : p.column < 80) (c : BitVec 8) :
    Follows { kernelTerminalPutentry c s.color s.curXpos s.curYpos s with curXpos := s.curXpos + 1 }
      { p.mark (makeVgaentry c lightGrey) with column := p.column + 1 } swallow := by
  have hblank : BlankAhead { p.mark (makeVgaentry c lightGrey) with column := p.column + 1 } := fun y x hy => by
    have hy' : p.line < y ∨ (y = p.line ∧ p.column + 1 ≤ x) := hy
    show (if y = p.line ∧ x = p.column then _ else p.ink y x) = blankEntry
    rw [if_neg (by omega)]
    exact h.blank y x (by omega)
  have hcells := h.cells.mark (j := s.curYpos * 80 + (s.curXpos + 1)) h.row hlt (by rw [h.column]) (makeVgaentry c lightGrey)
  rw [← h.color] at hcells hblank ⊢
  exact ⟨h.color, h.escape, h.escapeLength, h.row, h.row_lt, congrArg (· + 1) h.column, hlt, hblank, hcells⟩

theorem Follows.drawn (h : Follows s p swallow) (c : BitVec 8) :
    Follows { kernelTerminalPutentry c (kernelTerminalHandleScroll (kernelTerminalHandleOverflow s)).color
        (kernelTerminalHandleScroll (kernelTerminalHandleOverflow s)).curXpos
        (kernelTerminalHandleScroll (kernelTerminalHandleOverflow s)).curYpos
        (kernelTerminalHandleScroll (kernelTerminalHandleOverflow s)) with
      curXpos := (kernelTerminalHandleScroll (kernelTerminalHandleOverflow s)).curXpos + 1 } (drawChar c p) swallow := by
  have hle := h.column_le
  refine h.overflow.typed ?_ c
  split
  · exact Nat.zero_lt_succ 79
  · omega

/-- An escape that is swallowed. -/
theorem kernelTerminalHandleEscapecode_other {u : KernelTerminal} (hnl : c ≠ newline) (hbs : c ≠ 0x08)
    (h : ¬ (u.isAnsiEscape = true ∧ u.ansiEscapeLength = 1 ∧ c = 27)) :
    kernelTerminalHandleEscapecode c u = { u with isAnsiEscape := false, ansiEscapeLength := 0 } := by
  rw [kernelTerminalHandleEscapecode, if_neg hnl, if_neg hbs, if_neg h]

/-- **One character.** -/
theorem Follows.char (h : Follows s t.paper t.swallow) (c : BitVec 8) : Types (kernelTerminalChar s c) (t.char c) := by
  have hscroll {u : KernelTerminal} {q : Roll (BitVec 16)} {sw : Bool} (hu : Follows u q sw) :
      Types (kernelTerminalUpdateCursor (kernelTerminalHandleScroll u)) ⟨q, sw, true⟩ := by
    rw [handleScroll_below hu.row_lt]
    exact hu.updateCursor
  rw [Teletype.char]
  by_cases hnl : c = newline
  · rw [if_pos hnl, hnl]
    exact h.newlineChar.updateCursor
  rw [if_neg hnl]
  by_cases hbs : c = 0x08
  · rw [if_pos hbs, hbs]
    exact hscroll h.backspace
  rw [if_neg hbs]
  by_cases h27 : c = 27
  · rw [if_pos h27, h27]
    exact hscroll (u := { s with isAnsiEscape := true, ansiEscapeLength := 2 })
      ⟨h.color, rfl, fun _ => rfl, h.row, h.row_lt, h.column, h.column_le, h.blank, h.cells⟩
  rw [if_neg h27]
  have hquiet : Follows { s with isAnsiEscape := false, ansiEscapeLength := 0 } t.paper false :=
    ⟨h.color, rfl, fun hf => absurd hf (by decide), h.row, h.row_lt, h.column, h.column_le, h.blank, h.cells⟩
  have hother := kernelTerminalHandleEscapecode_other (u := s) hnl hbs fun hc => h27 hc.2.2
  have hcodes : c ∈ kernelTerminalEscapecodes ↔ c = 0 := by
    have hlf : c ≠ 0x0A#8 := hnl
    have hbs' : c ≠ 0x08#8 := hbs
    simp [kernelTerminalEscapecodes, hlf, hbs']
  have hcheck : kernelTerminalCheckEscapecode c s = (decide (c = 0), s) := by
    rw [kernelTerminalCheckEscapecode, if_neg h27]
    by_cases h0 : c = 0
    · rw [if_pos (hcodes.mpr h0), decide_eq_true h0]
    · rw [if_neg (fun hc => h0 (hcodes.mp hc)), decide_eq_false h0]
  rw [kernelTerminalChar, hcheck]
  by_cases hsw : c = 0 ∨ t.swallow = true
  · rw [if_pos hsw]
    have hif : (decide (c = 0) || s.isAnsiEscape) = true := by simpa [h.escape] using hsw
    simp only [hif, if_true, hother]
    exact hscroll hquiet
  · rw [if_neg hsw]
    have hif : ¬ (decide (c = 0) || s.isAnsiEscape) = true := by simpa [h.escape] using hsw
    simp only [hif]
    exact (h.drawn c).updateCursor

/-! ## Runs -/

/-- What the kernel does with its buffers and its terminal. -/
inductive TerminalCall where
  | stdinFlush
  | stdinWritechar (c : BitVec 8)
  | stdoutFlush
  | stdoutWritechar (c : BitVec 8)
  | stdoutWritestring (str : List (BitVec 8))
  | tick (stdoutBuffer : Vector (BitVec 8) stdioMaxBuffer)

/-- One call. -/
def terminalCall (s : KernelStdio × KernelTerminal) : TerminalCall → KernelStdio × KernelTerminal
  | .stdinFlush => (kernelBufferStdinFlush s.1, s.2)
  | .stdinWritechar c => (kernelBufferStdinWritechar c s.1, s.2)
  | .stdoutFlush => (kernelBufferStdoutFlush s.1, s.2)
  | .stdoutWritechar c => (kernelBufferStdoutWritechar c s.1, s.2)
  | .stdoutWritestring str => (kernelBufferStdoutWritestring str s.1, s.2)
  | .tick stdoutBuffer => kernelTerminalTick stdoutBuffer s

/-- The final block of what was written. -/
def lastBlock (l : List (BitVec 8)) : List (BitVec 8) := l.drop ((l.length - 1) / 256 * 256)

/-- One call, on what was written since the last tick and the teletype. -/
def typeCall (t : List (BitVec 8) × Teletype) : TerminalCall → List (BitVec 8) × Teletype
  | .stdinFlush | .stdinWritechar _ => t
  | .stdoutFlush => ([], t.2)
  | .stdoutWritechar c => (t.1 ++ [c], t.2)
  | .stdoutWritestring str => (t.1 ++ str, t.2)
  | .tick _ => ([], (lastBlock t.1).foldl Teletype.char t.2)

/-- A block that is full gives way to the next. -/
theorem lastBlock_append (l : List (BitVec 8)) (c : BitVec 8) :
    lastBlock (l ++ [c]) = (if (lastBlock l).length = 256 then [] else lastBlock l) ++ [c] := by
  have hlen : (lastBlock l).length = l.length - (l.length - 1) / 256 * 256 := List.length_drop
  rw [hlen, lastBlock, List.length_append, List.length_singleton, Nat.add_sub_cancel]
  split
  · have hle : l.length ≤ l.length / 256 * 256 := by omega
    rw [List.drop_append_of_le_length (by omega), List.drop_of_length_le hle]
  · have hsame : (l.length - 1) / 256 = l.length / 256 := by omega
    rw [List.drop_append_of_le_length (by omega), lastBlock, hsame]

/-- Nothing is lost of what fits the buffer. -/
theorem lastBlock_eq_iff {l : List (BitVec 8)} : lastBlock l = l ↔ l.length ≤ 256 := by
  have hlen : (lastBlock l).length = l.length - (l.length - 1) / 256 * 256 := List.length_drop
  constructor
  · intro h
    rw [h] at hlen
    omega
  · intro h
    have hzero : (l.length - 1) / 256 * 256 = 0 := by omega
    rw [lastBlock, hzero, List.drop_zero]

/-- The buffer holds the final block of what was written, and video memory
what the teletype shows. -/
structure TerminalInv (s : KernelStdio × KernelTerminal) (t : List (BitVec 8) × Teletype) : Prop where
  text : s.1.stdout.text = lastBlock t.1
  types : Types s.2 t.2
  video : ∀ i, i < 2000 → s.2.vga.buffer i = s.2.terminalBuffer i

theorem text_writestring : ∀ {str written : List (BitVec 8)} {s : KernelStdio}, s.stdout.text = lastBlock written →
    (kernelBufferStdoutWritestring str s).stdout.text = lastBlock (written ++ str)
  | [], written, s, h => by
    rw [List.append_nil]
    exact h
  | c :: str, written, s, h => by
    have hc : (kernelBufferStdoutWritechar c s).stdout.text = lastBlock (written ++ [c]) := by
      rw [lastBlock_append, ← h]
      exact text_writechar c s.stdout
    have hrest : (kernelBufferStdoutWritestring str (kernelBufferStdoutWritechar c s)).stdout.text = _ := text_writestring hc
    rw [List.append_cons, ← hrest]
    rfl

/-- The buffer shows the screen. -/
theorem Types.screen (h : Types s t) {i : Nat} (hi : i < 2000) : s.terminalBuffer i = t.screen i := by
  have hf := h.follows
  have hindex : cursorIndex t.paper = s.curYpos * 80 + s.curXpos := by
    rw [cursorIndex, ← hf.row, Nat.add_sub_cancel_left, hf.column]
  rw [Teletype.screen, hindex]
  by_cases hhere : i = s.curYpos * 80 + s.curXpos
  · subst hhere
    rw [h.cursor hi]
    cases hstarted : t.started with
    | true => rw [if_pos rfl, if_pos ⟨rfl, rfl⟩]
    | false => rw [if_neg (by decide), if_neg (fun hc => absurd hc.1 (by decide)), hf.blankHere]
  · rw [if_neg (fun hc => hhere hc.2)]
    exact hf.cells i hi hhere

/-- The text of a tick. -/
theorem Types.chars : ∀ {s : KernelTerminal} {t : Teletype}, Types s t → ∀ text : List (BitVec 8),
    Types (text.foldl kernelTerminalChar s) (text.foldl Teletype.char t)
  | _, _, h, [] => h
  | _, _, h, c :: text => (h.follows.char c).chars text

/-- Video memory is not part of what is typed. -/
theorem Types.vga (h : Types s t) (vga : VgaTextmode) : Types { s with vga } t :=
  ⟨⟨h.follows.color, h.follows.escape, h.follows.escapeLength, h.follows.row, h.follows.row_lt, h.follows.column,
    h.follows.column_le, h.follows.blank, h.follows.cells⟩, h.cursor⟩

theorem vgaTextmodeWritebuffer_buffer {newbuffer : Nat → BitVec 16} : ∀ {rem i : Nat} {v : VgaTextmode},
    (∀ j, j < i → v.buffer j = newbuffer j) → ∀ j, j < i + rem → (vgaTextmodeWritebuffer newbuffer rem i v).buffer j = newbuffer j
  | 0, _, _, h, j, hj => h j hj
  | rem + 1, i, v, h, j, hj => by
    refine vgaTextmodeWritebuffer_buffer (i := i + 1) (fun j hj => ?_) j (by omega)
    by_cases hij : j = i
    · rw [hij]
      exact Function.update_self ..
    · exact (Function.update_of_ne hij ..).trans (h j (by omega))

/-- A tick. -/
theorem Types.tick (h : Types s t) (hvideo : ∀ i, i < 2000 → s.vga.buffer i = s.terminalBuffer i) (text : List (BitVec 8)) :
    Types (kernelTerminalUpdateTick s text) (text.foldl Teletype.char t) ∧
      ∀ i, i < 2000 → (kernelTerminalUpdateTick s text).vga.buffer i = (kernelTerminalUpdateTick s text).terminalBuffer i := by
  by_cases hempty : text.isEmpty = true
  · have htick : kernelTerminalUpdateTick s text = s := if_pos hempty
    rw [htick, List.isEmpty_iff.mp hempty]
    exact ⟨h, hvideo⟩
  · have htext := (h.vga (vgaTextmodeClear s.vga)).chars text
    obtain ⟨u, hu⟩ : ∃ u, u = text.foldl kernelTerminalChar { s with vga := vgaTextmodeClear s.vga } := ⟨_, rfl⟩
    obtain ⟨v, hv⟩ : ∃ v, v = vgaTextmodeWritebuffer u.terminalBuffer (vgaWidth * vgaHeight) 0 u.vga := ⟨_, rfl⟩
    have htick : kernelTerminalUpdateTick s text = { u with vga := v } := by
      rw [hv, hu, kernelTerminalUpdateTick, if_neg hempty]
    rw [← hu] at htext
    rw [htick]
    refine ⟨htext.vga v, fun i hi => ?_⟩
    show v.buffer i = u.terminalBuffer i
    have hsize : i < 0 + vgaWidth * vgaHeight := by
      rw [vgaWidth, vgaHeight]
      omega
    rw [hv]
    exact vgaTextmodeWritebuffer_buffer (fun j hj => absurd hj (Nat.not_lt_zero j)) i hsize

/-- **One call.** -/
theorem TerminalInv.step {s : KernelStdio × KernelTerminal} {t : List (BitVec 8) × Teletype} (h : TerminalInv s t)
    (call : TerminalCall) : TerminalInv (terminalCall s call) (typeCall t call) := by
  cases call with
  | stdinFlush | stdinWritechar c => exact ⟨h.text, h.types, h.video⟩
  | stdoutFlush => exact ⟨(text_flush s.1.stdout).trans List.drop_nil.symm, h.types, h.video⟩
  | stdoutWritechar c => exact ⟨@text_writestring [c] _ _ h.text, h.types, h.video⟩
  | stdoutWritestring str => exact ⟨text_writestring h.text, h.types, h.video⟩
  | tick stdoutBuffer =>
    obtain ⟨htypes, hvideo⟩ := h.types.tick h.video s.1.stdout.text
    rw [terminalCall, kernelTerminalTick_eq]
    rw [h.text] at htypes hvideo ⊢
    exact ⟨(text_flush s.1.stdout).trans List.drop_nil.symm, htypes, hvideo⟩

theorem TerminalInv.run : ∀ {s : KernelStdio × KernelTerminal} {t : List (BitVec 8) × Teletype}, TerminalInv s t →
    ∀ calls : List TerminalCall, TerminalInv (calls.foldl terminalCall s) (calls.foldl typeCall t)
  | _, _, h, [] => h
  | _, _, h, call :: calls => (h.step call).run calls

/-- The first `n` cells of the terminal's buffer blanked. -/
structure BlankCells (s : KernelTerminal) (n : Nat) (u : KernelTerminal) : Prop where
  same : u = { s with terminalBuffer := u.terminalBuffer, indices := u.indices }
  blank : ∀ i, i < n → u.terminalBuffer i = makeVgaentry space s.color

theorem kernelTerminalInit_blank (memory terminalBuffer : Nat → BitVec 16) :
    BlankCells ⟨0, 0, lightGrey, false, 0, terminalBuffer, vgaTextmodeInitialize memory, []⟩ 2000
      (kernelTerminalInit memory terminalBuffer) := by
  refine vgaRows_counts (P := BlankCells _) (fun y x u hy hx h => ?_) rfl ⟨rfl, fun i hi => absurd hi (Nat.not_lt_zero i)⟩
  have hcolor : u.color = lightGrey := by rw [h.same]
  refine ⟨?_, fun i hi => ?_⟩
  · rw [h.same]
    rfl
  · by_cases hhere : i = y * 80 + x
    · rw [hhere]
      exact (Function.update_self ..).trans (by rw [hcolor])
    · exact (Function.update_of_ne hhere ..).trans (h.blank i (by omega))

theorem TerminalInv.start (memory terminalBuffer : Nat → BitVec 16) {stdio : KernelStdio} (h : stdio.stdout.length = 0) :
    TerminalInv (stdio, kernelTerminalInit memory terminalBuffer) ([], Teletype.start) := by
  have hblank := kernelTerminalInit_blank memory terminalBuffer
  have hvideo := (blankCells_wiped ⟨0, 0, lightGrey, memory, 0, []⟩).wiped
  have hvga : (kernelTerminalInit memory terminalBuffer).vga = vgaTextmodeInitialize memory := by rw [hblank.same]
  have hcells : ∀ i, i < 2000 → (kernelTerminalInit memory terminalBuffer).terminalBuffer i = blankEntry := hblank.blank
  refine ⟨List.length_eq_zero_iff.mp ((text_length _).trans h), ⟨⟨?_, ?_, ?_, ?_, ?_, ?_, Nat.zero_le 80, fun _ _ _ => rfl,
    fun i hi _ => hcells i hi⟩, fun hlt => hcells _ hlt⟩, fun i hi => ?_⟩
  · rw [hblank.same]
  · rw [hblank.same]
    rfl
  · exact fun hf => absurd hf (by decide)
  · rw [hblank.same]
    rfl
  · rw [hblank.same]
    exact Nat.zero_lt_succ 24
  · rw [hblank.same]
    rfl
  · rw [hvga, hcells i hi]
    exact hvideo i hi

/-! ## Inside the buffer -/

/-- One call of a run. -/
def terminalStep (s : KernelStdio × KernelTerminal) (call : TerminalCall) : Option (KernelStdio × KernelTerminal) :=
  some (terminalCall s call)

/-- A tick stays inside the terminal's buffer. No other call uses it. -/
def CallStaysInside (s : KernelStdio × KernelTerminal) : TerminalCall → Prop
  | .tick _ => TickStaysInside s.2 s.1.stdout.text
  | _ => True

/-- The cursor is on the screen, and only cells of the buffer were used. -/
structure KeptInside (s : KernelTerminal) : Prop where
  cursor : CursorInv s
  inside : Inside s

theorem KeptInside.init (memory terminalBuffer : Nat → BitVec 16) : KeptInside (kernelTerminalInit memory terminalBuffer) :=
  ⟨(init_scrolled memory terminalBuffer).1, (init_scrolled memory terminalBuffer).2⟩

/-- A call that stays inside. -/
theorem KeptInside.call {s : KernelStdio × KernelTerminal} (h : KeptInside s.2) {call : TerminalCall}
    (hcall : CallStaysInside s call) : KeptInside (terminalCall s call).2 := by
  cases call with
  | tick stdoutBuffer =>
    obtain ⟨hcursor, hinside⟩ := h.cursor.tick h.inside ((h.cursor.tick_iff h.inside s.1.stdout.text).mpr hcall)
    rw [terminalCall, kernelTerminalTick_eq]
    exact ⟨hcursor, hinside⟩
  | stdinFlush | stdinWritechar | stdoutFlush | stdoutWritechar | stdoutWritestring => exact h

theorem KeptInside.run : ∀ {calls : List TerminalCall} {s : KernelStdio × KernelTerminal}, KeptInside s.2 →
    EachStep terminalStep CallStaysInside s calls → KeptInside (calls.foldl terminalCall s).2
  | [], _, h, _ => h
  | _ :: _, _, h, ⟨hcall, hrest⟩ => (h.call hcall).run (hrest _ rfl)

theorem char_line (t : Teletype) (c : BitVec 8) : (t.char c).paper.line ≤ t.paper.line + 1 := by
  have herase : (eraseChar t.paper).line = t.paper.line := by
    unfold eraseChar
    split <;> rfl
  have hdraw : (drawChar c t.paper).line ≤ t.paper.line + 1 := by
    unfold drawChar
    split
    · exact Nat.le_of_eq (feed_line t.paper)
    · exact Nat.le_succ _
  unfold Teletype.char
  split
  · exact Nat.le_of_eq (feed_line t.paper)
  split
  · exact Nat.le_succ_of_le (Nat.le_of_eq herase)
  split
  · exact Nat.le_succ _
  split
  · exact Nat.le_succ _
  · exact hdraw

/-- A text for which there are lines enough, whatever it is. -/
theorem Types.staysInside : ∀ {text : List (BitVec 8)} {s : KernelTerminal} {t : Teletype}, Types s t →
    t.paper.line + text.length ≤ 24 → EachStep kernelTerminalStep StaysInside s text
  | [], _, _, _, _ => trivial
  | c :: text, s, t, h, hle => by
    have hrow := h.follows.row
    have hline := char_line t c
    rw [List.length_cons] at hle
    refine ⟨?_, fun s' hs => ?_⟩
    · unfold StaysInside
      split
      · omega
      split <;> omega
    · cases hs
      exact (h.follows.char c).staysInside (by omega)

/-- The first tick stays inside, with a text for which there are lines
enough. -/
theorem TerminalInv.staysInside {s : KernelStdio × KernelTerminal} (h : TerminalInv s ([], Teletype.start))
    {str : List (BitVec 8)} (hlen : str.length ≤ 24) (stdoutBuffer : Vector (BitVec 8) stdioMaxBuffer) :
    EachStep terminalStep CallStaysInside s [.stdoutWritestring str, .tick stdoutBuffer] := by
  refine ⟨trivial, fun s' hs => ?_⟩
  cases hs
  have hwritten := h.step (.stdoutWritestring str)
  have htext : (terminalCall s (.stdoutWritestring str)).1.stdout.text = str :=
    hwritten.text.trans (lastBlock_eq_iff.mpr (by show str.length ≤ 256; omega))
  refine ⟨?_, fun _ _ => trivial⟩
  show TickStaysInside _ _
  rw [htext]
  exact (hwritten.types.vga (vgaTextmodeClear s.2.vga)).staysInside (by show 0 + str.length ≤ 24; omega)

/-- **What the terminal shows.** From `kernel_terminal_init` on, over every
run of writes to the kernel's buffers and of ticks that stays inside the
terminal's buffer, only cells of the buffer are used, the output buffer holds
the final block of what was written since the last tick, and video memory
shows the window of the teletype on which the blocks were typed, with the
cursor. -/
theorem terminal_shows_paper (memory terminalBuffer : Nat → BitVec 16) (stdin stdout : Vector (BitVec 8) stdioMaxBuffer)
    (calls : List TerminalCall)
    (hcalls : EachStep terminalStep CallStaysInside
      (⟨⟨stdin, 0, Nat.zero_le _⟩, ⟨stdout, 0, Nat.zero_le _⟩⟩, kernelTerminalInit memory terminalBuffer) calls) :
    let s := calls.foldl terminalCall
      (⟨⟨stdin, 0, Nat.zero_le _⟩, ⟨stdout, 0, Nat.zero_le _⟩⟩, kernelTerminalInit memory terminalBuffer)
    let t := calls.foldl typeCall ([], Teletype.start)
    Inside s.2 ∧ s.1.stdout.text = lastBlock t.1 ∧ ∀ i, i < 2000 → s.2.vga.buffer i = t.2.screen i := by
  have hstart : TerminalInv (⟨⟨stdin, 0, Nat.zero_le _⟩, ⟨stdout, 0, Nat.zero_le _⟩⟩, kernelTerminalInit memory terminalBuffer)
      ([], Teletype.start) := .start memory terminalBuffer rfl
  obtain ⟨s₀, hs₀⟩ : ∃ s₀ : KernelStdio × KernelTerminal,
    s₀ = (⟨⟨stdin, 0, Nat.zero_le _⟩, ⟨stdout, 0, Nat.zero_le _⟩⟩, kernelTerminalInit memory terminalBuffer) := ⟨_, rfl⟩
  have hkept : KeptInside s₀.2 := by
    rw [hs₀]
    exact .init memory terminalBuffer
  rw [← hs₀] at hcalls hstart ⊢
  obtain ⟨s, hs⟩ : ∃ s, s = calls.foldl terminalCall s₀ := ⟨_, rfl⟩
  obtain ⟨t, ht⟩ : ∃ t, t = calls.foldl typeCall ([], Teletype.start) := ⟨_, rfl⟩
  have hinside := hkept.run hcalls
  have h := hstart.run calls
  rw [← hs] at hinside
  rw [← hs, ← ht] at h ⊢
  exact ⟨hinside.inside, h.text, fun i hi => (h.video i hi).trans (h.types.screen hi)⟩

/-- Two lines, written at once and shown by the tick, with the cursor behind
the second. -/
theorem terminal_shows_paper_two : ∃ s,
    s = [.stdoutWritestring [65, newline, 66], .tick (Vector.replicate 256 0)].foldl terminalCall
      (⟨⟨Vector.replicate 256 0, 0, Nat.zero_le _⟩, ⟨Vector.replicate 256 0, 0, Nat.zero_le _⟩⟩,
        kernelTerminalInit (fun _ => 0) (fun _ => 0)) ∧
    Inside s.2 ∧ s.2.vga.buffer 0 = makeVgaentry 65 lightGrey ∧ s.2.vga.buffer 80 = makeVgaentry 66 lightGrey ∧
      s.2.vga.buffer 81 = cursorEntry := by
  have hstart : TerminalInv (⟨⟨Vector.replicate 256 0, 0, Nat.zero_le _⟩, ⟨Vector.replicate 256 0, 0, Nat.zero_le _⟩⟩,
      kernelTerminalInit (fun _ => 0) (fun _ => 0)) ([], Teletype.start) := .start _ _ rfl
  have h := terminal_shows_paper (fun _ => 0) (fun _ => 0) (Vector.replicate 256 0) (Vector.replicate 256 0)
    [.stdoutWritestring [65, newline, 66], .tick (Vector.replicate 256 0)] (hstart.staysInside (by decide) _)
  obtain ⟨hinside, -, hscreen⟩ := h
  exact ⟨_, rfl, hinside, (hscreen 0 (by decide)).trans (by decide), (hscreen 80 (by decide)).trans (by decide),
    (hscreen 81 (by decide)).trans (by decide)⟩

end ShawnOS
