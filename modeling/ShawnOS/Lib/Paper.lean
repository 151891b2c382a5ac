/-
A roll of paper behind a window.

Text is written on the roll line after line. The window is `height` lines
high; it stands still until the line written on would leave it, and from then
on that line is the last one shown. Writing changes one cell of the window,
and feeding a line moves all of it up by one.
-/

namespace Paper

/-- The line and the column written next, and what is on the paper. -/
structure Roll (α : Type) where
  line : Nat
  column : Nat
  ink : Nat → Nat → α

variable {α : Type} {height : Nat}

/-- The next line. -/
def Roll.feed (p : Roll α) : Roll α := { p with line := p.line + 1, column := 0 }

/-- A cell is written. -/
def Roll.mark (a : α) (p : Roll α) : Roll α :=
  { p with ink := fun y x => if y = p.line ∧ x = p.column then a else p.ink y x }

/-- A cell is written, and the line fed behind its last one. -/
def Roll.put (width : Nat) (a : α) (p : Roll α) : Roll α :=
  if p.column + 1 = width then (p.mark a).feed else { p.mark a with column := p.column + 1 }

/-- The first line shown. -/
def Roll.top (height : Nat) (p : Roll α) : Nat := p.line + 1 - height

/-- What the window shows. -/
def Roll.window (height : Nat) (p : Roll α) (y x : Nat) : α := p.ink (p.top height + y) x

@[simp] theorem feed_line (p : Roll α) : p.feed.line = p.line + 1 := rfl

@[simp] theorem feed_ink (p : Roll α) : p.feed.ink = p.ink := rfl

@[simp] theorem mark_top (a : α) (p : Roll α) : (p.mark a).top height = p.top height := rfl

/-- Above the last line of the window it stands still. -/
theorem feed_top_of_lt {p : Roll α} (h : p.line + 1 < height) : p.feed.top height = p.top height := by
  rw [Roll.top, Roll.top, feed_line]
  omega

/-- On its last line it moves. -/
theorem feed_top_of_le {p : Roll α} (h : height ≤ p.line + 1) : p.feed.top height = p.top height + 1 := by
  rw [Roll.top, Roll.top, feed_line]
  omega

theorem feed_window_of_lt {p : Roll α} (h : p.line + 1 < height) : p.feed.window height = p.window height := by
  funext y x
  rw [Roll.window, Roll.window, feed_top_of_lt h, feed_ink]

theorem feed_window_of_le {p : Roll α} (h : height ≤ p.line + 1) (y x : Nat) :
    p.feed.window height y x = p.window height (y + 1) x := by
  rw [Roll.window, Roll.window, feed_top_of_le h, feed_ink, Nat.add_right_comm, Nat.add_assoc]

/-- Writing shows in one cell. -/
theorem mark_window (a : α) {p : Roll α} {row : Nat} (h : p.top height + row = p.line) (y x : Nat) :
    (p.mark a).window height y x = if y = row ∧ x = p.column then a else p.window height y x := by
  have hiff : p.top height + y = p.line ↔ y = row := by omega
  rw [Roll.window, mark_top, Roll.mark]
  simp only [hiff]
  rfl

/-- Below the line written on the paper is as it was. -/
theorem mark_below (a : α) {p : Roll α} {y : Nat} (h : p.line < y) (x : Nat) : (p.mark a).ink y x = p.ink y x :=
  if_neg fun hy => Nat.ne_of_gt h hy.1

end Paper
