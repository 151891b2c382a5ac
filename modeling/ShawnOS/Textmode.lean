/-
The text-mode screen (`drivers/vga/textmode.c`).

`Screen` is what the output should look like: 25 rows of 80 cells, each a
byte under a colour. The driver shows it until a byte with the high bit is
written, which its sign extension paints over the colour, or until the
screen scrolls: the last row is filled from behind the buffer and never
blanked.
-/
import ShawnOS.Kernel
import ShawnOS.Lib.Traces
import Mathlib.Logic.Function.Basic

namespace ShawnOS

open Traces

/-- `VGA_WIDTH`. -/
def vgaWidth : Nat := 80

/-- `VGA_HEIGHT`. -/
def vgaHeight : Nat := 25

/-- The driver's variables. `cursor` is what registers 14 and 15 of the CRT
controller hold, `cells` the cells of the buffer read or written so far. -/
structure VgaTextmode where
  row : Nat
  column : Nat
  color : BitVec 8
  buffer : Nat → BitVec 16
  cursor : Nat
  cells : List Nat

/-- Writing one cell. -/
def VgaTextmode.store (s : VgaTextmode) (index : Nat) (entry : BitVec 16) : VgaTextmode :=
  { s with buffer := Function.update s.buffer index entry, cells := index :: s.cells }

/-- `make_color`. -/
def makeColor (fg bg : BitVec 8) : BitVec 8 := fg ||| bg <<< 4

/-- `COLOR_LIGHT_GREY` on `COLOR_BLACK`. -/
def lightGrey : BitVec 8 := makeColor 7 0

/-- `make_vgaentry`. `char` is signed: its sign is extended. -/
def makeVgaentry (c color : BitVec 8) : BitVec 16 := c.signExtend 16 ||| color.setWidth 16 <<< 8

/-- `' '`. -/
def space : BitVec 8 := 0x20

/-- `'\n'`. -/
def newline : BitVec 8 := 0x0A

/-- `for (x ...)` over one row, with `rem` cells left from `x` on. -/
def vgaRow {β : Type} (body : (x : Nat) → β → β) : (rem x : Nat) → β → β
  | 0, _, s => s
  | rem + 1, x, s => vgaRow body rem (x + 1) (body x s)

/-- `for (y ...) for (x ...)`, with `rem` rows left from `y` on. -/
def vgaRows {β : Type} (body : (y x : Nat) → β → β) : (rem y : Nat) → β → β
  | 0, _, s => s
  | rem + 1, y, s => vgaRows body rem (y + 1) (vgaRow (body y) vgaWidth 0 s)

/-- One cell in `vga_textmode_initialize`. -/
def vgaBlankCell (y x : Nat) (s : VgaTextmode) : VgaTextmode :=
  s.store (y * vgaWidth + x) (makeVgaentry space s.color)

/-- `vga_textmode_initialize`, over what the video memory holds. -/
def vgaTextmodeInitialize (memory : Nat → BitVec 16) : VgaTextmode :=
  vgaRows vgaBlankCell vgaHeight 0
    { row := 0, column := 0, color := lightGrey, buffer := memory, cursor := 0, cells := [] }

/-- `vga_textmode_setcolor`. -/
def vgaTextmodeSetcolor (color : BitVec 8) (s : VgaTextmode) : VgaTextmode := { s with color }

/-- `vga_textmode_putentryat`. -/
def vgaTextmodePutentryat (c color : BitVec 8) (x y : Nat) (s : VgaTextmode) : VgaTextmode :=
  s.store (y * vgaWidth + x) (makeVgaentry c color)

/-- One cell in `vga_textmode_scroll`. No row is `VGA_HEIGHT`. -/
def vgaScrollCell (y x : Nat) (s : VgaTextmode) : VgaTextmode :=
  let index := y * vgaWidth + x
  if y = vgaHeight then s.store index (makeVgaentry space s.color)
  else
    let nextrowIndex := index + vgaWidth
    { s with cells := nextrowIndex :: s.cells }.store index (s.buffer nextrowIndex)

/-- `vga_textmode_scroll`. -/
def vgaTextmodeScroll (s : VgaTextmode) : VgaTextmode :=
  { vgaRows vgaScrollCell vgaHeight 0 s with row := vgaHeight - 1, column := 0 }

/-- `vga_textmode_putchar`. -/
def vgaTextmodePutchar (c : BitVec 8) (s : VgaTextmode) : VgaTextmode :=
  let s :=
    if c = newline then { s with row := s.row + 1, column := 0 }
    else
      let s := vgaTextmodePutentryat c s.color s.column s.row s
      let s := { s with column := s.column + 1 }
      if s.column = vgaWidth then { s with column := 0, row := s.row + 1 } else s
  let s := if s.row = vgaHeight then vgaTextmodeScroll s else s
  { s with cursor := (s.row * 80 + s.column) % 2 ^ 16 }

/-- `vga_textmode_clear`. -/
def vgaTextmodeClear (s : VgaTextmode) : VgaTextmode :=
  { vgaRows vgaBlankCell vgaHeight 0 { s with row := 0, column := 0, color := lightGrey } with cursor := 0 }

/-- `vga_textmode_writebuffer`, with `rem` entries left from `i` on. -/
def vgaTextmodeWritebuffer (newbuffer : Nat → BitVec 16) : (rem i : Nat) → VgaTextmode → VgaTextmode
  | 0, _, s => s
  | rem + 1, i, s => vgaTextmodeWritebuffer newbuffer rem (i + 1) (s.store i (newbuffer i))

/-! ## The screen -/

/-- A screen, with the place of the next character and its colour. -/
structure Screen where
  row : Nat
  column : Nat
  color : BitVec 8
  cell : Nat → Nat → BitVec 16

/-- The byte in the low half, the colour in the high. -/
def Screen.entry (c color : BitVec 8) : BitVec 16 := c.setWidth 16 ||| color.setWidth 16 <<< 8

/-- The blank screen. -/
def Screen.blank : Screen := ⟨0, 0, lightGrey, fun _ _ => Screen.entry space lightGrey⟩

/-- The next line; past the last one every row moves up by one. -/
def Screen.nextLine (r : Screen) : Screen :=
  if r.row + 1 < 25 then { r with row := r.row + 1, column := 0 }
  else { r with
    column := 0
    cell := fun y x => if y + 1 < 25 then r.cell (y + 1) x else Screen.entry space r.color }

/-- One character. -/
def Screen.put (c : BitVec 8) (r : Screen) : Screen :=
  if c = newline then r.nextLine
  else
    let r := { r with
      cell := fun y x => if y = r.row ∧ x = r.column then Screen.entry c r.color else r.cell y x }
    if r.column + 1 < 80 then { r with column := r.column + 1 } else r.nextLine

/-- The driver shows the screen, and has touched nothing but its cells. -/
structure Shows (s : VgaTextmode) (r : Screen) : Prop where
  row : s.row = r.row
  column : s.column = r.column
  color : s.color = r.color
  row_lt : s.row < 25
  column_lt : s.column < 80
  cell : ∀ y x, y < 25 → x < 80 → s.buffer (y * 80 + x) = r.cell y x
  inside : ∀ i ∈ s.cells, i < 80 * 25

/-- A colour set, or a character written. -/
inductive VgaCall where
  | setcolor (color : BitVec 8)
  | putchar (c : BitVec 8)

/-- One call, on the driver and on the screen. -/
def vgaStep (t : VgaTextmode × Screen) : VgaCall → Option (VgaTextmode × Screen)
  | .setcolor color => some (vgaTextmodeSetcolor color t.1, { t.2 with color })
  | .putchar c => some (vgaTextmodePutchar c t.1, t.2.put c)

/-- The character does not move past the last row, and its sign bit is clear
or its colour all ones. -/
def NoScrollNoSign (t : VgaTextmode × Screen) : VgaCall → Prop
  | .setcolor _ => True
  | .putchar c =>
    ¬ (t.1.row = 24 ∧ (c = newline ∨ t.1.column = 79)) ∧ (c = newline ∨ c.msb = false ∨ t.1.color = 0xFF#8)

/-! ## Cells -/

/-- The sign reaches the colour byte. -/
theorem makeVgaentry_eq_iff (c color : BitVec 8) :
    makeVgaentry c color = Screen.entry c color ↔ c.msb = false ∨ color = 0xFF#8 := by
  have hones : ∀ k, k < 8 → (0xFF#8).getLsbD k = true := by decide
  unfold makeVgaentry Screen.entry
  constructor
  · intro h
    cases hc : c.msb with
    | false => exact .inl rfl
    | true =>
      refine .inr (BitVec.eq_of_getLsbD_eq fun i hi => ?_)
      have hb := congrArg (fun v => v.getLsbD (i + 8)) h
      simp [BitVec.getElem_signExtend, hc, show i + 8 < 16 by omega] at hb
      rw [hb, hones i hi]
  · intro h
    refine BitVec.eq_of_getLsbD_eq fun i hi => ?_
    by_cases h8 : i < 8
    · simp [BitVec.getElem_signExtend, h8, hi]
    · have hlow : c.getLsbD i = false := BitVec.getLsbD_of_ge c i (by omega)
      rcases h with h | rfl
      · simp [BitVec.getElem_signExtend, h8, hi, h, hlow]
      · simp only [BitVec.getLsbD_or, BitVec.getLsbD_shiftLeft, BitVec.getLsbD_setWidth, hones (i - 8) (by omega)]
        simp [hi, h8, show i - 8 < 16 by omega]

theorem vgaRows_last {β : Type} (body : (y x : Nat) → β → β) : ∀ (n y : Nat) (s : β),
    vgaRows body (n + 1) y s = vgaRow (body (y + n)) vgaWidth 0 (vgaRows body n y s)
  | 0, _, _ => rfl
  | n + 1, y, s => by
    rw [vgaRows, vgaRows_last body n (y + 1), show y + 1 + n = y + (n + 1) by omega]
    rfl

theorem vgaRow_keeps {β : Type} {body : (x : Nat) → β → β} (P : β → Prop) (h : ∀ x s, P s → P (body x s))
    {rem x : Nat} {s : β} (hs : P s) : P (vgaRow body rem x s) := by
  induction rem generalizing x s with
  | zero => exact hs
  | succ rem ih => exact ih (h _ _ hs)

/-- Scrolling reads behind the buffer. -/
theorem vgaTextmodeScroll_cells (s : VgaTextmode) : 2000 ∈ (vgaTextmodeScroll s).cells := by
  have hrow : ∀ t, 2000 ∈ (vgaRow (vgaScrollCell 24) 80 0 t).cells := by
    intro t
    -- The first cell of the last row already does.
    have hcell : 2000 ∈ (vgaScrollCell 24 0 t).cells := by
      simp [vgaScrollCell, vgaHeight, vgaWidth, VgaTextmode.store]
    show 2000 ∈ (vgaRow (vgaScrollCell 24) 79 1 (vgaScrollCell 24 0 t)).cells
    exact vgaRow_keeps (fun t : VgaTextmode => 2000 ∈ t.cells) (fun i t ht => by
      simp [vgaScrollCell, vgaHeight, VgaTextmode.store, ht]) hcell
  have hlast := vgaRows_last vgaScrollCell 24 0 s
  rw [vgaTextmodeScroll, show vgaHeight = 24 + 1 from rfl, hlast]
  exact hrow _

/-- The first `n` cells blanked, and no others touched. -/
structure Blanked (s t : VgaTextmode) (n : Nat) : Prop where
  row : t.row = s.row
  column : t.column = s.column
  color : t.color = s.color
  buffer : ∀ i, i < n → t.buffer i = makeVgaentry space s.color
  cells : ∀ i ∈ t.cells, i < n ∨ i ∈ s.cells

theorem Blanked.row_cells {s : VgaTextmode} {y : Nat} : ∀ {rem x : Nat} {t : VgaTextmode},
    Blanked s t (y * 80 + x) → Blanked s (vgaRow (vgaBlankCell y) rem x t) (y * 80 + x + rem)
  | 0, _, _, h => h
  | rem + 1, x, t, h => by
    have hcell : Blanked s (vgaBlankCell y x t) (y * 80 + (x + 1)) := by
      refine ⟨h.row, h.column, h.color, fun i hi => ?_, fun i hi => ?_⟩
      · simp only [vgaBlankCell, VgaTextmode.store, Function.update_apply, vgaWidth, h.color]
        split
        · rfl
        · exact h.buffer i (by omega)
      · simp only [vgaBlankCell, VgaTextmode.store, vgaWidth, List.mem_cons] at hi
        rcases hi with rfl | hi
        · exact .inl (by omega)
        · rcases h.cells i hi with hi | hi
          · exact .inl (by omega)
          · exact .inr hi
    rw [vgaRow, show y * 80 + x + (rem + 1) = y * 80 + (x + 1) + rem by omega]
    exact hcell.row_cells

theorem Blanked.rows {s : VgaTextmode} : ∀ {rem y : Nat} {t : VgaTextmode},
    Blanked s t (y * 80) → Blanked s (vgaRows vgaBlankCell rem y t) ((y + rem) * 80)
  | 0, _, _, h => h
  | rem + 1, y, t, h => by
    rw [vgaRows, show (y + (rem + 1)) * 80 = (y + 1 + rem) * 80 by omega]
    refine Blanked.rows ?_
    have := @Blanked.row_cells s y 80 0 t h
    rwa [show y * 80 + 0 + 80 = (y + 1) * 80 by omega] at this

theorem Blanked.refl (s : VgaTextmode) : Blanked s s 0 :=
  ⟨rfl, rfl, rfl, fun i hi => absurd hi (Nat.not_lt_zero i), fun _ hi => .inr hi⟩

theorem shows_start (memory : Nat → BitVec 16) : Shows (vgaTextmodeInitialize memory) Screen.blank := by
  have h : Blanked _ (vgaTextmodeInitialize memory) ((0 + 25) * 80) :=
    Blanked.rows (Blanked.refl ⟨0, 0, lightGrey, memory, 0, []⟩)
  refine ⟨h.row, h.column, h.color, ?_, ?_, fun y x hy hx => ?_, fun i hi => ?_⟩
  · rw [h.row]
    exact Nat.zero_lt_succ 24
  · rw [h.column]
    exact Nat.zero_lt_succ 79
  · rw [h.buffer _ (by omega)]
    exact (makeVgaentry_eq_iff _ _).mpr (.inl (by decide))
  · rcases h.cells i hi with hi | hi
    · exact hi
    · cases hi

/-! ## One call -/

/-- Writing one cell shows it where the entry comes out right. -/
theorem Shows.store {s : VgaTextmode} {r : Screen} (h : Shows s r) (c : BitVec 8) :
    (∀ y x, y < 25 → x < 80 → (vgaTextmodePutentryat c s.color s.column s.row s).buffer (y * 80 + x) =
      if y = r.row ∧ x = r.column then Screen.entry c r.color else r.cell y x) ↔
        c.msb = false ∨ s.color = 0xFF#8 := by
  have hrow := h.row_lt; have hcol := h.column_lt
  rw [← makeVgaentry_eq_iff, ← h.row, ← h.column, ← h.color]
  simp only [vgaTextmodePutentryat, VgaTextmode.store, vgaWidth, Function.update_apply]
  constructor
  · intro hall
    have := hall s.row s.column hrow hcol
    rwa [if_pos rfl, if_pos ⟨rfl, rfl⟩] at this
  · intro he y x hy hx
    by_cases hyx : y = s.row ∧ x = s.column
    · rw [if_pos (by rw [hyx.1, hyx.2]), if_pos hyx, he]
    · rw [if_neg (by omega), if_neg hyx, h.cell y x hy hx]

/-- A character that moves past the last row scrolls. -/
theorem putchar_scroll_cells {s : VgaTextmode} {c : BitVec 8} (h : s.row = 24 ∧ (c = newline ∨ s.column = 79)) :
    2000 ∈ (vgaTextmodePutchar c s).cells := by
  obtain ⟨hrow, hc⟩ := h
  unfold vgaTextmodePutchar
  by_cases hn : c = newline
  · simp only [hn, ite_true, hrow, vgaHeight]
    exact vgaTextmodeScroll_cells _
  · have hcol := hc.resolve_left hn
    simp only [hn, ite_false, vgaTextmodePutentryat, VgaTextmode.store, hcol, hrow, vgaWidth, vgaHeight, ite_true]
    exact vgaTextmodeScroll_cells _

/-- Any other character shows exactly where its entry comes out right. -/
theorem Shows.putchar {s : VgaTextmode} {r : Screen} (h : Shows s r) {c : BitVec 8}
    (hscroll : ¬ (s.row = 24 ∧ (c = newline ∨ s.column = 79))) :
    Shows (vgaTextmodePutchar c s) (r.put c) ↔ c = newline ∨ c.msb = false ∨ s.color = 0xFF#8 := by
  have hrow := h.row_lt; have hcol := h.column_lt
  unfold vgaTextmodePutchar Screen.put
  by_cases hn : c = newline
  · have hlt : s.row + 1 < 25 := by
      by_contra hno
      exact hscroll ⟨by omega, .inl hn⟩
    have hne : ¬ s.row + 1 = 25 := by omega
    simp only [hn, ite_true, vgaHeight, hne, ite_false, Screen.nextLine, ← h.row, hlt]
    exact iff_of_true ⟨rfl, rfl, h.color, hlt, Nat.zero_lt_succ 79, h.cell, h.inside⟩ (.inl trivial)
  · simp only [hn, ite_false, false_or, ← h.store c]
    have hinside : ∀ i ∈ (vgaTextmodePutentryat c s.color s.column s.row s).cells, i < 80 * 25 := by
      intro i hi
      simp only [vgaTextmodePutentryat, VgaTextmode.store, List.mem_cons, vgaWidth] at hi
      rcases hi with rfl | hi
      · omega
      · exact h.inside i hi
    have hcolumn : (vgaTextmodePutentryat c s.color s.column s.row s).column = s.column := rfl
    have hsrow : (vgaTextmodePutentryat c s.color s.column s.row s).row = s.row := rfl
    rw [hcolumn, hsrow]
    by_cases hend : s.column = 79
    · have hlt : s.row + 1 < 25 := by
        by_contra hno
        exact hscroll ⟨by omega, .inr hend⟩
      have hne : ¬ s.row + 1 = 25 := by omega
      have hr : ¬ r.column + 1 < 80 := by
        rw [← h.column]
        omega
      have hfull : s.column + 1 = 80 := by omega
      simp only [hfull, vgaWidth, vgaHeight, ite_true, hne, ite_false, hr, Screen.nextLine, ← h.row, hlt]
      exact ⟨fun hs => hs.cell, fun hcells => ⟨rfl, rfl, h.color, hlt, Nat.zero_lt_succ 79, hcells, hinside⟩⟩
    · have hne : ¬ s.column + 1 = 80 := by omega
      have hne' : ¬ s.row = 25 := by omega
      have hr : r.column + 1 < 80 := by
        rw [← h.column]
        omega
      simp only [vgaWidth, vgaHeight, hne, hne', ite_false, hr, ite_true]
      exact ⟨fun hs => hs.cell, fun hcells =>
        ⟨h.row, congrArg (· + 1) h.column, h.color, hrow, by simp only; omega, hcells, hinside⟩⟩

/-- **One call** shows the new screen exactly without a scroll and without a
sign over the colour. -/
theorem Shows.step {t : VgaTextmode × Screen} (h : Shows t.1 t.2) (c : VgaCall) :
    ∃ t', vgaStep t c = some t' ∧ (Shows t'.1 t'.2 ↔ NoScrollNoSign t c) := by
  obtain ⟨s, r⟩ := t
  have hrow := h.row_lt; have hcol := h.column_lt
  cases c with
  | setcolor color =>
    exact ⟨_, rfl, iff_of_true ⟨h.row, h.column, rfl, hrow, hcol, h.cell, h.inside⟩ trivial⟩
  | putchar c =>
    refine ⟨_, rfl, ?_⟩
    unfold NoScrollNoSign
    dsimp only at hrow hcol ⊢
    by_cases hscroll : s.row = 24 ∧ (c = newline ∨ s.column = 79)
    · refine iff_of_false (fun hs => ?_) fun hc => hc.1 hscroll
      have := hs.inside 2000 (putchar_scroll_cells hscroll)
      omega
    · simp only [hscroll, not_false_iff, true_and]
      exact h.putchar hscroll

/-- **When the output matches the screen.** After initialization, over every
sequence of characters and colours, the driver shows the screen after each
one, inside the buffer, exactly when no character moves past the last row
and none with its sign bit set is written in a colour other than `0xFF`. -/
theorem textmode_shows_iff (memory : Nat → BitVec 16) (calls : List VgaCall) :
    Throughout vgaStep (fun t => Shows t.1 t.2) (vgaTextmodeInitialize memory, Screen.blank) calls ↔
      EachStep vgaStep NoScrollNoSign (vgaTextmodeInitialize memory, Screen.blank) calls := by
  have hall : EachStep vgaStep (fun _ _ => True) (vgaTextmodeInitialize memory, Screen.blank) calls :=
    eachStep_of_forall fun _ _ => trivial
  exact throughout_iff (fun t c (_ : True) h _ => (h.step c).imp fun _ he => ⟨he.1, trivial, he.2⟩) trivial
    (shows_start memory) hall

/-- The byte `0x80` in light grey comes out as `0xFF80`. -/
theorem textmode_paints_sign :
    ¬ Throughout vgaStep (fun t => Shows t.1 t.2) (vgaTextmodeInitialize fun _ => 0, Screen.blank)
      [.putchar 0x80] := by
  have h := shows_start fun _ => 0
  generalize vgaTextmodeInitialize (fun _ => 0) = s at h
  rintro ⟨t, ht, hshows, -⟩
  obtain ⟨t', ht', hiff⟩ := @Shows.step (s, Screen.blank) h (.putchar 0x80)
  cases ht.symm.trans ht'
  rcases (hiff.mp hshows).2 with h0 | h0 | h0
  · exact absurd h0 (by decide)
  · exact absurd h0 (by decide)
  · exact absurd (h.color.symm.trans h0) (by decide)

end ShawnOS
