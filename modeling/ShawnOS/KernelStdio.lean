/-
The kernel's stdio buffers (`kernel/kernel_stdio.c`).

A character that finds its buffer full begins it anew, so that of what was
written since the buffer was last read the final block of up to 256
characters is there. The terminal reads the output buffer at every tick.
-/
import ShawnOS.KernelTerminal
import Mathlib.Data.Vector.Basic

namespace ShawnOS

/-- `STDIN_MAX_BUFFER` and `STDOUT_MAX_BUFFER`. -/
def stdioMaxBuffer : Nat := 256

/-- A buffer and its length, which stays inside. -/
structure StdioBuffer where
  chars : Vector (BitVec 8) stdioMaxBuffer
  length : Nat
  length_le : length ≤ stdioMaxBuffer

namespace StdioBuffer

/-- The length set to 0. The buffer is not wiped. -/
def flush (b : StdioBuffer) : StdioBuffer := { b with length := 0, length_le := Nat.zero_le _ }

/-- The buffer, flushed if it is full. -/
def makeRoom (b : StdioBuffer) : StdioBuffer := if b.length ≥ stdioMaxBuffer then b.flush else b

theorem makeRoom_lt (b : StdioBuffer) : b.makeRoom.length < stdioMaxBuffer := by
  unfold makeRoom
  split
  · exact Nat.zero_lt_succ 255
  · next h => exact Nat.not_le.mp h

/-- A character behind the others. -/
def writechar (c : BitVec 8) (b : StdioBuffer) : StdioBuffer where
  chars := b.makeRoom.chars.set b.makeRoom.length c b.makeRoom_lt
  length := b.makeRoom.length + 1
  length_le := b.makeRoom_lt

/-- What the buffer holds. -/
def text (b : StdioBuffer) : List (BitVec 8) := b.chars.toList.take b.length

end StdioBuffer

/-- `strncpy`, with `n` characters left from the `i`-th on. A NUL is copied
like any other. -/
def strncpy {α : Type} {size size' : Nat} (src : Vector α size) : (n i : Nat) → i + n ≤ size → i + n ≤ size' →
    Vector α size' → Vector α size'
  | 0, _, _, _, dest => dest
  | n + 1, i, h, h', dest =>
    strncpy src n (i + 1) (by omega) (by omega) (dest.set i (src.get ⟨i, by omega⟩) (by omega))

/-- The two buffers. -/
structure KernelStdio where
  stdin : StdioBuffer
  stdout : StdioBuffer

/-- `kernel_buffer_stdin_flush`. -/
def kernelBufferStdinFlush (s : KernelStdio) : KernelStdio := { s with stdin := s.stdin.flush }

/-- `kernel_buffer_stdout_flush`. -/
def kernelBufferStdoutFlush (s : KernelStdio) : KernelStdio := { s with stdout := s.stdout.flush }

/-- `kernel_buffer_stdin_writechar`. -/
def kernelBufferStdinWritechar (c : BitVec 8) (s : KernelStdio) : KernelStdio := { s with stdin := s.stdin.writechar c }

/-- `kernel_buffer_stdout_writechar`. -/
def kernelBufferStdoutWritechar (c : BitVec 8) (s : KernelStdio) : KernelStdio :=
  { s with stdout := s.stdout.writechar c }

/-- `kernel_buffer_stdout_writestring`. -/
def kernelBufferStdoutWritestring (str : List (BitVec 8)) (s : KernelStdio) : KernelStdio :=
  str.foldl (fun s c => kernelBufferStdoutWritechar c s) s

/-- `kernel_buffer_stdout_get`: the size returned, the caller's buffer and the
kernel's. -/
def kernelBufferStdoutGet (buffer : Vector (BitVec 8) stdioMaxBuffer) (s : KernelStdio) :
    Nat × Vector (BitVec 8) stdioMaxBuffer × KernelStdio :=
  let h := (Nat.zero_add s.stdout.length).symm ▸ s.stdout.length_le
  (s.stdout.length, strncpy s.stdout.chars s.stdout.length 0 h h buffer, kernelBufferStdoutFlush s)

/-- `kernel_terminal_update_tick`, with what its own buffer on the stack held
before. -/
def kernelTerminalTick (stdoutBuffer : Vector (BitVec 8) stdioMaxBuffer) (s : KernelStdio × KernelTerminal) :
    KernelStdio × KernelTerminal :=
  let (stdoutBufferLength, stdoutBuffer, stdio) := kernelBufferStdoutGet stdoutBuffer s.1
  (stdio, kernelTerminalUpdateTick s.2 (stdoutBuffer.toList.take stdoutBufferLength))

/-! ## The text -/

theorem take_set_succ {α : Type} {l : List α} {i : Nat} (h : i < l.length) (c : α) : (l.set i c).take (i + 1) = l.take i ++ [c] := by
  rw [List.take_succ_eq_append_getElem (by rw [List.length_set]; exact h), List.take_set_of_le (Nat.le_refl i),
    List.getElem_set_self]

theorem strncpy_take {α : Type} {size size' : Nat} {src : Vector α size} : ∀ {n i : Nat} (h : i + n ≤ size)
    (h' : i + n ≤ size') {dest : Vector α size'}, dest.toList.take i = src.toList.take i →
    (strncpy src n i h h' dest).toList.take (i + n) = src.toList.take (i + n)
  | 0, _, _, _, _, hd => hd
  | n + 1, i, h, h', dest, hd => by
    have hsrc : i < src.toList.length := by
      rw [Vector.length_toList]
      omega
    have hdest : i < dest.toList.length := by
      rw [Vector.length_toList]
      omega
    have hstep : (dest.set i (src.get ⟨i, by omega⟩) (by omega)).toList.take (i + 1) = src.toList.take (i + 1) := by
      rw [Vector.toList_set, take_set_succ hdest, List.take_succ_eq_append_getElem hsrc, hd]
      rfl
    have hrest := strncpy_take (n := n) (i := i + 1) (by omega) (by omega) hstep
    rw [strncpy, show i + (n + 1) = i + 1 + n by omega]
    exact hrest

/-- The terminal is passed what the buffer holds. -/
theorem kernelTerminalTick_eq (stdoutBuffer : Vector (BitVec 8) stdioMaxBuffer) (s : KernelStdio × KernelTerminal) :
    kernelTerminalTick stdoutBuffer s = (kernelBufferStdoutFlush s.1, kernelTerminalUpdateTick s.2 s.1.stdout.text) := by
  have hle : 0 + s.1.stdout.length ≤ stdioMaxBuffer := by
    rw [Nat.zero_add]
    exact s.1.stdout.length_le
  have hcopy := @strncpy_take _ _ _ s.1.stdout.chars _ 0 hle hle stdoutBuffer rfl
  rw [Nat.zero_add] at hcopy
  exact congrArg (fun l => (kernelBufferStdoutFlush s.1, kernelTerminalUpdateTick s.2 l)) hcopy

theorem text_length (b : StdioBuffer) : b.text.length = b.length := by
  rw [StdioBuffer.text, List.length_take, Vector.length_toList]
  exact Nat.min_eq_left b.length_le

theorem text_flush (b : StdioBuffer) : b.flush.text = [] := List.take_zero

theorem text_writechar (c : BitVec 8) (b : StdioBuffer) :
    (b.writechar c).text = (if b.text.length = stdioMaxBuffer then [] else b.text) ++ [c] := by
  have hroom : b.makeRoom.text = if b.text.length = stdioMaxBuffer then [] else b.text := by
    have hle := b.length_le
    rw [StdioBuffer.makeRoom, text_length]
    split
    · rw [if_pos (by omega), text_flush]
    · rw [if_neg (by omega)]
  have hlt : b.makeRoom.length < b.makeRoom.chars.toList.length := by
    rw [Vector.length_toList]
    exact b.makeRoom_lt
  rw [← hroom, StdioBuffer.text, StdioBuffer.writechar, Vector.toList_set]
  exact take_set_succ hlt c

end ShawnOS
