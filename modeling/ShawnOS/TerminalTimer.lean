/-
The terminal on the timer (`kernel/kernel_terminal.c`, `drivers/pc/pit.c`).

`kernel_terminal_init` turns a refresh rate into a number of timer interrupts
and has its tick called at every multiple of it. The count of interrupts wraps
around, and 0 is a multiple too, so the screen is never older than one period.
A rate beyond 10000 makes the period 0, and the next interrupt divides by it.
-/
import ShawnOS.Pit
import ShawnOS.TerminalPaper

namespace ShawnOS

open Word32 Traces

/-- The routines that the kernel has for the timer. -/
inductive TimerRoutine where
  | kernelTask
  | kernelTerminalUpdateTick
deriving DecidableEq

/-- The timer, and what its routines work on. -/
abbrev TimedTerminal := PitState TimerRoutine × KernelStdio × KernelTerminal

/-- `kernel_terminal_init` as a whole, on what is in video memory and in the
terminal's buffer and, for its own tick, on the stack. It divides by the
refresh rate. -/
def kernelTerminalInstall (refreshRate : Nat) (memory terminalBuffer : Nat → BitVec 16)
    (stdoutBuffer : Vector (BitVec 8) stdioMaxBuffer) (pit : PitState TimerRoutine) (stdio : KernelStdio) :
    Option TimedTerminal :=
  if refreshRate = 0 then none
  else
    let (_, pit) := pitInstallSchedulerRoutine ⟨10000 / refreshRate, .kernelTerminalUpdateTick⟩ pit
    some (pit, kernelTerminalTick stdoutBuffer (stdio, kernelTerminalInit memory terminalBuffer))

/-- A routine that the timer calls. `kernel_task` does nothing. -/
def runRoutine (stdoutBuffer : Vector (BitVec 8) stdioMaxBuffer) (s : KernelStdio × KernelTerminal) :
    TimerRoutine → KernelStdio × KernelTerminal
  | .kernelTask => s
  | .kernelTerminalUpdateTick => kernelTerminalTick stdoutBuffer s

/-- What happens to the timer and the terminal. -/
inductive TimedCall where
  | interrupt (stdoutBuffer : Vector (BitVec 8) stdioMaxBuffer)
  | installTask (hz : Nat)
  | call (c : TerminalCall)

/-- One of these. -/
def timedCall (s : TimedTerminal) : TimedCall → Option TimedTerminal
  | .interrupt stdoutBuffer => do
    let (pit, called) ← pitIrqTimerHandler 32 s.1
    pure (pit, called.foldl (runRoutine stdoutBuffer) s.2)
  | .installTask hz => some ((pitInstallSchedulerRoutine ⟨hz, .kernelTask⟩ s.1).2, s.2)
  | .call c => some (s.1, terminalCall s.2 c)

/-! ## The schedule -/

/-- What was written and typed, the interrupts counted in 32 bits, and those
since the last tick. -/
structure Schedule where
  typed : List (BitVec 8) × Teletype
  interrupts : Nat
  waited : Nat

/-- One call: an interrupt whose number the period divides is a tick. -/
def Schedule.next (period : Nat) (t : Schedule) : TimedCall → Schedule
  | .interrupt stdoutBuffer =>
    if u32 (t.interrupts + 1) % period = 0 then ⟨typeCall t.typed (.tick stdoutBuffer), u32 (t.interrupts + 1), 0⟩
    else ⟨t.typed, u32 (t.interrupts + 1), t.waited + 1⟩
  | .installTask _ => t
  | .call (.tick stdoutBuffer) => ⟨typeCall t.typed (.tick stdoutBuffer), t.interrupts, 0⟩
  | .call c => { t with typed := typeCall t.typed c }

/-- The timer calls the terminal's tick, from its first slot, and else
`kernel_task`; the screen is as the schedule has it. -/
structure TimedInv (period : Nat) (s : TimedTerminal) (t : Schedule) (tasks : List (PitRoutine TimerRoutine × Bool)) :
    Prop where
  pit : PitInv ⟨s.1, (⟨period, .kernelTerminalUpdateTick⟩, true) :: tasks⟩
  tasks : ∀ e ∈ tasks, e.1.func = .kernelTask ∧ e.2 = true
  terminal : TerminalInv s.2 t.typed
  interrupts : s.1.totalTimerTicks = t.interrupts
  lt : t.interrupts < 2 ^ 32
  waited : t.waited ≤ t.interrupts % period

variable {period : Nat} {s : TimedTerminal} {t : Schedule} {tasks : List (PitRoutine TimerRoutine × Bool)}

/-- The other routines leave the terminal as it is. -/
theorem foldl_due (stdoutBuffer : Vector (BitVec 8) stdioMaxBuffer) (ticks : Nat) (k : KernelStdio × KernelTerminal) :
    ∀ {tasks : List (PitRoutine TimerRoutine × Bool)}, (∀ e ∈ tasks, e.1.func = .kernelTask ∧ e.2 = true) →
      (due tasks ticks).foldl (runRoutine stdoutBuffer) k = k
  | [], _ => rfl
  | e :: tasks, h => by
    obtain ⟨he, -⟩ := h e List.mem_cons_self
    have hrest := foldl_due stdoutBuffer ticks k fun e he => h e (List.mem_cons_of_mem _ he)
    unfold due at hrest ⊢
    rw [List.filter_cons]
    split
    · rw [List.map_cons, List.foldl_cons, he]
      exact hrest
    · exact hrest

/-- The next interrupt is a tick, or one further from the last multiple. -/
theorem succ_mod_of_ne {n d : Nat} (hn : n < 2 ^ 32) (hd : 0 < d) (h : u32 (n + 1) % d ≠ 0) :
    u32 (n + 1) % d = n % d + 1 := by
  have hlt : n + 1 < 2 ^ 32 := by
    by_contra hge
    have hzero : u32 (n + 1) = 0 := by
      unfold u32
      omega
    rw [hzero, Nat.zero_mod] at h
    exact h rfl
  rw [u32_of_lt hlt] at h ⊢
  have hmod := Nat.mod_lt n hd
  rw [← Nat.mod_add_mod] at h ⊢
  by_cases hend : n % d + 1 = d
  · rw [hend, Nat.mod_self] at h
    exact absurd rfl h
  · exact Nat.mod_eq_of_lt (by omega)

/-- **An interrupt.** -/
theorem TimedInv.interrupt (h : TimedInv period s t tasks) (stdoutBuffer : Vector (BitVec 8) stdioMaxBuffer) :
    ∃ s', timedCall s (.interrupt stdoutBuffer) = some s' ∧
      TimedInv period s' (t.next period (.interrupt stdoutBuffer)) tasks := by
  have hperiod : 0 < period := h.pit.rate _ List.mem_cons_self
  have hactive : ∀ e ∈ (⟨period, .kernelTerminalUpdateTick⟩, true) :: tasks, e.2 = true :=
    List.forall_mem_cons.mpr ⟨rfl, fun e he => (h.tasks e he).2⟩
  have hirq := pitIrqTimerHandler_eq h.pit
  rw [if_pos hactive, h.interrupts] at hirq
  have hpit : PitInv ⟨{ s.1 with totalTimerTicks := u32 (t.interrupts + 1) },
      (⟨period, .kernelTerminalUpdateTick⟩, true) :: tasks⟩ := ⟨h.pit.slots, h.pit.size, h.pit.le, h.pit.slot, h.pit.rate⟩
  have hothers (k : KernelStdio × KernelTerminal) := foldl_due stdoutBuffer (u32 (t.interrupts + 1)) k h.tasks
  rw [timedCall, hirq]
  refine ⟨_, rfl, ?_⟩
  rw [Schedule.next]
  split
  · next htick =>
    have hdue : due ((⟨period, .kernelTerminalUpdateTick⟩, true) :: tasks) (u32 (t.interrupts + 1)) =
        .kernelTerminalUpdateTick :: due tasks (u32 (t.interrupts + 1)) := by
      simp [due, htick]
    rw [hdue, List.foldl_cons, hothers]
    exact ⟨hpit, h.tasks, h.terminal.step (.tick stdoutBuffer), rfl, u32_lt _, Nat.zero_le _⟩
  · next htick =>
    have hdue : due ((⟨period, .kernelTerminalUpdateTick⟩, true) :: tasks) (u32 (t.interrupts + 1)) =
        due tasks (u32 (t.interrupts + 1)) := by
      simp [due, htick]
    rw [hdue, hothers]
    refine ⟨hpit, h.tasks, h.terminal, rfl, u32_lt _, ?_⟩
    have hwaited := h.waited
    have hnext := succ_mod_of_ne h.lt hperiod htick
    show t.waited + 1 ≤ u32 (t.interrupts + 1) % period
    omega

/-- Another routine gets a slot of its own, or none. -/
theorem TimedInv.installTask (h : TimedInv period s t tasks) {hz : Nat} (hrate : 1 ≤ hz) :
    ∃ s' tasks', timedCall s (.installTask hz) = some s' ∧ TimedInv period s' t tasks' := by
  obtain ⟨pit', hp⟩ : ∃ pit', pitInstallSchedulerRoutine ⟨hz, .kernelTask⟩ s.1 = pit' := ⟨_, rfl⟩
  have hstep : pitStep ⟨s.1, (⟨period, .kernelTerminalUpdateTick⟩, true) :: tasks⟩ (.install ⟨hz, .kernelTask⟩) =
      some ⟨pit'.2, if pit'.1 = 0xFFFF then (⟨period, .kernelTerminalUpdateTick⟩, true) :: tasks
        else (⟨period, .kernelTerminalUpdateTick⟩, true) :: tasks ++ [(⟨hz, .kernelTask⟩, true)]⟩ := by
    rw [pitStep, hp]
  have hinv := h.pit.install hrate hstep
  have hticks : pit'.2.totalTimerTicks = s.1.totalTimerTicks := by
    rw [← hp, pitInstallSchedulerRoutine]
    split <;> rfl
  have hcall : timedCall s (.installTask hz) = some (pit'.2, s.2) := by rw [timedCall, hp]
  by_cases hfull : pit'.1 = 0xFFFF
  · rw [if_pos hfull] at hinv
    exact ⟨_, tasks, hcall, hinv, h.tasks, h.terminal, hticks.trans h.interrupts, h.lt, h.waited⟩
  · rw [if_neg hfull, List.cons_append] at hinv
    refine ⟨_, tasks ++ [(⟨hz, .kernelTask⟩, true)], hcall, hinv, fun e he => ?_, h.terminal,
      hticks.trans h.interrupts, h.lt, h.waited⟩
    rcases List.mem_append.mp he with he | he
    · exact h.tasks e he
    · rw [List.mem_singleton.mp he]
      exact ⟨rfl, rfl⟩

theorem TimedInv.call (h : TimedInv period s t tasks) (c : TerminalCall) :
    TimedInv period (s.1, terminalCall s.2 c) (t.next period (.call c)) tasks := by
  have hterminal := h.terminal.step c
  cases c with
  | tick stdoutBuffer => exact ⟨h.pit, h.tasks, hterminal, h.interrupts, h.lt, Nat.zero_le _⟩
  | stdinFlush | stdinWritechar | stdoutFlush | stdoutWritechar | stdoutWritestring =>
    exact ⟨h.pit, h.tasks, hterminal, h.interrupts, h.lt, h.waited⟩

/-- Rates are not zero. -/
def TimedCall.Allowed : TimedCall → Prop
  | .installTask hz => 1 ≤ hz
  | _ => True

theorem TimedInv.step (h : TimedInv period s t tasks) {c : TimedCall} (hc : c.Allowed) :
    ∃ s' tasks', timedCall s c = some s' ∧ TimedInv period s' (t.next period c) tasks' := by
  cases c with
  | interrupt stdoutBuffer =>
    obtain ⟨s', hs, h'⟩ := h.interrupt stdoutBuffer
    exact ⟨s', tasks, hs, h'⟩
  | installTask hz => exact h.installTask hc
  | call c => exact ⟨_, tasks, rfl, h.call c⟩

theorem TimedInv.run : ∀ {calls : List TimedCall} {s : TimedTerminal} {t : Schedule}
    {tasks : List (PitRoutine TimerRoutine × Bool)}, TimedInv period s t tasks → (∀ c ∈ calls, c.Allowed) →
    ∃ s' tasks', calls.foldlM timedCall s = some s' ∧ TimedInv period s' (calls.foldl (Schedule.next period) t) tasks'
  | [], s, _, tasks, h, _ => ⟨s, tasks, rfl, h⟩
  | c :: calls, s, t, tasks, h, hc => by
    obtain ⟨s₁, tasks₁, hs, h₁⟩ := h.step (hc c List.mem_cons_self)
    obtain ⟨s', tasks', hrun, h'⟩ := h₁.run fun c hm => hc c (List.mem_cons_of_mem _ hm)
    refine ⟨s', tasks', ?_, h'⟩
    rw [List.foldlM_cons, hs]
    exact hrun

/-- In the first slot of the timer. -/
theorem TimedInv.start {refreshRate : Nat} (h1 : 1 ≤ refreshRate) (h2 : refreshRate ≤ 10000)
    (memory terminalBuffer : Nat → BitVec 16) (stdoutBuffer : Vector (BitVec 8) stdioMaxBuffer) (stdio : KernelStdio)
    (hempty : stdio.stdout.length = 0) :
    ∃ s, kernelTerminalInstall refreshRate memory terminalBuffer stdoutBuffer (pitBoot .kernelTask) stdio = some s ∧
      TimedInv (10000 / refreshRate) s ⟨([], Teletype.start), 0, 0⟩ [] := by
  have hrate : 1 ≤ 10000 / refreshRate := (Nat.one_le_div_iff (by omega)).mpr h2
  have hinv := (PitInv.start TimerRoutine.kernelTask).install
    (r := ⟨10000 / refreshRate, .kernelTerminalUpdateTick⟩) hrate rfl
  refine ⟨_, if_neg (by omega), hinv, fun e he => absurd he List.not_mem_nil, ?_, rfl, by decide, Nat.zero_le _⟩
  exact (TerminalInv.start memory terminalBuffer hempty).step (.tick stdoutBuffer)

/-! ## Inside the buffer -/

/-- A tick that the timer or the kernel calls stays inside the terminal's
buffer. -/
def TimedStaysInside (s : TimedTerminal) : TimedCall → Prop
  | .interrupt _ => ∀ pit called, pitIrqTimerHandler 32 s.1 = some (pit, called) →
      .kernelTerminalUpdateTick ∈ called → TickStaysInside s.2.2 s.2.1.stdout.text
  | .installTask _ => True
  | .call c => CallStaysInside s.2 c

/-- The routines of one interrupt. A second tick would find no text. -/
theorem KeptInside.routines (stdoutBuffer : Vector (BitVec 8) stdioMaxBuffer) : ∀ {called : List TimerRoutine}
    {k : KernelStdio × KernelTerminal}, KeptInside k.2 →
    (.kernelTerminalUpdateTick ∈ called → TickStaysInside k.2 k.1.stdout.text) →
    KeptInside (called.foldl (runRoutine stdoutBuffer) k).2
  | [], _, h, _ => h
  | .kernelTask :: called, k, h, hstays =>
    @KeptInside.routines stdoutBuffer called k h fun hmem => hstays (List.mem_cons_of_mem _ hmem)
  | .kernelTerminalUpdateTick :: _, k, h, hstays => by
    have htick : KeptInside (terminalCall k (.tick stdoutBuffer)).2 := h.call (hstays List.mem_cons_self)
    have hempty : (terminalCall k (.tick stdoutBuffer)).1.stdout.text = [] := by
      rw [terminalCall, kernelTerminalTick_eq]
      exact text_flush k.1.stdout
    refine htick.routines stdoutBuffer fun _ => ?_
    rw [hempty]
    trivial

theorem KeptInside.timed {s s' : TimedTerminal} (h : KeptInside s.2.2) {c : TimedCall} (hc : TimedStaysInside s c)
    (hs : timedCall s c = some s') : KeptInside s'.2.2 := by
  cases c with
  | interrupt stdoutBuffer =>
    cases hirq : pitIrqTimerHandler 32 s.1 with
    | none =>
      rw [timedCall, hirq] at hs
      cases hs
    | some r =>
      rw [timedCall, hirq] at hs
      cases hs
      exact h.routines stdoutBuffer (hc r.1 r.2 hirq)
  | installTask hz =>
    cases hs
    exact h
  | call c =>
    cases hs
    exact h.call hc

theorem KeptInside.timedRun : ∀ {calls : List TimedCall} {s s' : TimedTerminal}, KeptInside s.2.2 →
    EachStep timedCall TimedStaysInside s calls → calls.foldlM timedCall s = some s' → KeptInside s'.2.2
  | [], _, _, h, _, hs => by
    cases hs
    exact h
  | c :: calls, s, s', h, ⟨hc, hrest⟩, hs => by
    rw [List.foldlM_cons] at hs
    obtain ⟨s₁, h₁, hrun⟩ := Option.bind_eq_some_iff.mp hs
    exact (h.timed hc h₁).timedRun (hrest s₁ h₁) hrun

/-- After `kernel_terminal_init`, whose tick finds no text. -/
theorem KeptInside.install {refreshRate : Nat} {memory terminalBuffer : Nat → BitVec 16}
    {stdoutBuffer : Vector (BitVec 8) stdioMaxBuffer} {pit : PitState TimerRoutine} {stdio : KernelStdio} {s : TimedTerminal}
    (hempty : stdio.stdout.length = 0)
    (hs : kernelTerminalInstall refreshRate memory terminalBuffer stdoutBuffer pit stdio = some s) : KeptInside s.2.2 := by
  obtain ⟨terminal, hterminal⟩ : ∃ terminal, terminal = kernelTerminalInit memory terminalBuffer := ⟨_, rfl⟩
  have hkept : KeptInside (stdio, terminal).2 := by
    rw [hterminal]
    exact .init memory terminalBuffer
  have htext : stdio.stdout.text = [] := List.length_eq_zero_iff.mp ((text_length _).trans hempty)
  have htick : CallStaysInside (stdio, terminal) (.tick stdoutBuffer) := by
    show TickStaysInside terminal stdio.stdout.text
    rw [htext]
    trivial
  rw [kernelTerminalInstall, ← hterminal] at hs
  split at hs
  · cases hs
  · cases hs
    exact hkept.call htick

/-- **The screen is fresh.** With a refresh rate from 1 to 10000, over every
run of timer interrupts, of installations of other routines at rates that are
not zero and of calls of the terminal and its buffers, no interrupt faults,
the output buffer is as the schedule of ticks has it, and fewer interrupts
than one period lie behind the last tick, also when their count wraps around.
If every tick stays inside the terminal's buffer, only cells of the buffer
are used, and the screen is as the schedule has it. With any other rate the
first interrupt faults, if `kernel_terminal_init` returns at all. -/
theorem terminal_refreshes (refreshRate : Nat) (memory terminalBuffer : Nat → BitVec 16)
    (stdoutBuffer stdin stdout : Vector (BitVec 8) stdioMaxBuffer) :
    let start := kernelTerminalInstall refreshRate memory terminalBuffer stdoutBuffer (pitBoot .kernelTask)
      ⟨⟨stdin, 0, Nat.zero_le _⟩, ⟨stdout, 0, Nat.zero_le _⟩⟩
    (1 ≤ refreshRate ∧ refreshRate ≤ 10000 → ∀ calls : List TimedCall, (∀ c ∈ calls, c.Allowed) →
      ∃ s₀ s, start = some s₀ ∧ calls.foldlM timedCall s₀ = some s ∧
        let t := calls.foldl (Schedule.next (10000 / refreshRate)) ⟨([], Teletype.start), 0, 0⟩
        s.2.1.stdout.text = lastBlock t.typed.1 ∧ t.waited < 10000 / refreshRate ∧
          (EachStep timedCall TimedStaysInside s₀ calls →
            Inside s.2.2 ∧ ∀ i, i < 2000 → s.2.2.vga.buffer i = t.typed.2.screen i)) ∧
    (¬ (1 ≤ refreshRate ∧ refreshRate ≤ 10000) → ∀ s₀, start = some s₀ → ∀ b, timedCall s₀ (.interrupt b) = none) := by
  refine ⟨fun ⟨h1, h2⟩ calls hc => ?_, fun hrate s₀ hs b => ?_⟩
  · obtain ⟨s₀, hs₀, hstart⟩ := TimedInv.start h1 h2 memory terminalBuffer stdoutBuffer
      ⟨⟨stdin, 0, Nat.zero_le _⟩, ⟨stdout, 0, Nat.zero_le _⟩⟩ rfl
    obtain ⟨s, tasks, hrun, h⟩ := hstart.run hc
    obtain ⟨t, ht⟩ : ∃ t, t = calls.foldl (Schedule.next (10000 / refreshRate)) ⟨([], Teletype.start), 0, 0⟩ := ⟨_, rfl⟩
    rw [← ht] at h
    refine ⟨s₀, s, hs₀, hrun, ?_⟩
    rw [← ht]
    have hperiod : 0 < 10000 / refreshRate := h.pit.rate _ List.mem_cons_self
    refine ⟨h.terminal.text, Nat.lt_of_le_of_lt h.waited (Nat.mod_lt _ hperiod), fun hstays => ⟨?_, fun i hi => ?_⟩⟩
    · exact ((KeptInside.install rfl hs₀).timedRun hstays hrun).inside
    · exact (h.terminal.video i hi).trans (h.terminal.types.screen hi)
  · by_cases h0 : refreshRate = 0
    · rw [kernelTerminalInstall, if_pos h0] at hs
      cases hs
    · have hzero : 10000 / refreshRate = 0 := Nat.div_eq_of_lt (by omega)
      rw [kernelTerminalInstall, if_neg h0, hzero] at hs
      cases hs
      rfl

/-- At the rate 10000 each interrupt is a tick, and shows what was written
before it. -/
theorem terminal_refreshes_each : ∃ s₀ s,
    kernelTerminalInstall 10000 (fun _ => 0) (fun _ => 0) (Vector.replicate 256 0) (pitBoot .kernelTask)
      ⟨⟨Vector.replicate 256 0, 0, Nat.zero_le _⟩, ⟨Vector.replicate 256 0, 0, Nat.zero_le _⟩⟩ = some s₀ ∧
    [.call (.stdoutWritestring [65]), .interrupt (Vector.replicate 256 0)].foldlM timedCall s₀ = some s ∧
    s.2.1.stdout.text = [] ∧ Inside s.2.2 ∧ s.2.2.vga.buffer 0 = makeVgaentry 65 lightGrey ∧
      s.2.2.vga.buffer 1 = cursorEntry := by
  obtain ⟨s₁, hstart₁, hinv⟩ := @TimedInv.start 10000 (by decide) (by decide) (fun _ => 0) (fun _ => 0)
    (Vector.replicate 256 0) ⟨⟨Vector.replicate 256 0, 0, Nat.zero_le _⟩, ⟨Vector.replicate 256 0, 0, Nat.zero_le _⟩⟩ rfl
  obtain ⟨s₀, s, hstart, hrun, htext, -, hscreen⟩ := (terminal_refreshes 10000 (fun _ => 0) (fun _ => 0)
    (Vector.replicate 256 0) (Vector.replicate 256 0) (Vector.replicate 256 0)).1 ⟨by decide, by decide⟩
      [.call (.stdoutWritestring [65]), .interrupt (Vector.replicate 256 0)] (by simp [TimedCall.Allowed])
  have hsame : s₁ = s₀ := Option.some.inj (hstart₁.symm.trans hstart)
  have htick := (@TerminalInv.staysInside s₀.2 (hsame ▸ hinv.terminal) [65] (by decide) (Vector.replicate 256 0)).2 _ rfl
  obtain ⟨hinside, hcells⟩ := hscreen ⟨trivial, fun s' hs => ⟨fun _ _ _ _ => by cases hs; exact htick.1, fun _ _ => trivial⟩⟩
  exact ⟨s₀, s, hstart, hrun, htext.trans (by decide), hinside, (hcells 0 (by decide)).trans (by decide),
    (hcells 1 (by decide)).trans (by decide)⟩

end ShawnOS
