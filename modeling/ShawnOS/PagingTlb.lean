/-
The TLB beside a call: a set of cached entries that the hardware fills, at
any time, from present entries of the tables, and from which `invlpg` takes
those of a page.

`Interleave` runs the stores and `invlpg`s a call logged, with any fills
between them. `Quiet Y X` says of a piece of a call that, whatever the fills,
cached entries that agree with the tables but for the pages of `Y` before it
agree but for those of `X` after it; such pieces compose.
-/
import ShawnOS.PagingView

namespace ShawnOS

open Word32

variable {s s' s₁ s₂ : PagingState} {X Y Z : Set Nat}

/-- Cached entries, each with its page. -/
abbrev Tlb := Set (Nat × Nat)

/-- The entry the MMU finds for the page `p` in memory `m`. -/
def walk (dir : Nat) (m : Nat → Nat) (p : Nat) : Nat :=
  if m (dir + 4 * (p / 1024)) % 2 = 1 then m (4096 * (m (dir + 4 * (p / 1024)) / 4096) + 4 * (p % 1024)) else ptRw

/-- The logged operations on memory and TLB, with fills in between. -/
inductive Interleave (dir : Nat) : (Nat → Nat) → Tlb → List MmuOp → (Nat → Nat) → Tlb → Prop
  | done {m T} : Interleave dir m T [] m T
  | fill {m m' T T' ops p} : p < 2 ^ 20 → walk dir m p % 2 = 1 →
      Interleave dir m (insert (p, walk dir m p) T) ops m' T' → Interleave dir m T ops m' T'
  | store {m m' T T' ops a x} : Interleave dir (Function.update m a x) T ops m' T' →
      Interleave dir m T (.store a x :: ops) m' T'
  | invlpg {m m' T T' ops v} : Interleave dir m {c ∈ T | c.1 ≠ v / 4096} ops m' T' →
      Interleave dir m T (.invlpg v :: ops) m' T'

/-- Cached entries agree with the tables, but for the pages of `X`. -/
def AgreesBut (X : Set Nat) (s : PagingState) (T : Tlb) : Prop :=
  ∀ c ∈ T, c.1 < 2 ^ 20 ∧ (c.1 ∈ X ∨ c.2 = s.entry c.1 ∧ c.2 % 2 = 1)

/-- What `s'` logged after `s` takes agreement but for `Y` to agreement but
for `X`. -/
def Quiet (Y X : Set Nat) (s s' : PagingState) : Prop :=
  s'.pageDirectory = s.pageDirectory ∧ ∃ ops, s'.log = s.log ++ ops ∧
    ∀ T m' T', AgreesBut Y s T → Interleave s.pageDirectory s.phys T ops m' T' → m' = s'.phys ∧ AgreesBut X s' T'

theorem walk_eq (p : Nat) : walk s.pageDirectory s.phys p = s.entry p := rfl

theorem AgreesBut.fill {T : Tlb} {p : Nat} (h : AgreesBut X s T) (hp : p < 2 ^ 20) (he : s.entry p % 2 = 1) :
    AgreesBut X s (insert (p, s.entry p) T) := by
  intro c hc
  rcases Set.mem_insert_iff.mp hc with rfl | hc
  · exact ⟨hp, .inr ⟨rfl, he⟩⟩
  · exact h c hc

theorem AgreesBut.mono {T : Tlb} (h : AgreesBut Y s T) (hsub : ∀ p < 2 ^ 20, p ∈ Y → p ∈ X) : AgreesBut X s T := by
  intro c hc
  obtain ⟨hp, hc⟩ := h c hc
  exact ⟨hp, hc.imp_left (hsub c.1 hp)⟩

/-- Fills alone keep agreement. -/
theorem Interleave.fills {dir : Nat} {m m' : Nat → Nat} {T T' : Tlb} (h : Interleave dir m T [] m' T')
    (hdir : s.pageDirectory = dir) (hm : s.phys = m) (ha : AgreesBut X s T) : m' = s.phys ∧ AgreesBut X s T' := by
  generalize hops : ([] : List MmuOp) = ops at h
  induction h with
  | done => exact ⟨hm.symm, ha⟩
  | fill hp he _ ih =>
    subst hdir hm
    exact ih rfl (ha.fill hp he) hops
  | store => cases hops
  | invlpg => cases hops

theorem Interleave.split {dir : Nat} {m m' : Nat → Nat} {T T' : Tlb} {ops₁ ops₂ : List MmuOp}
    (h : Interleave dir m T (ops₁ ++ ops₂) m' T') :
    ∃ m₁ T₁, Interleave dir m T ops₁ m₁ T₁ ∧ Interleave dir m₁ T₁ ops₂ m' T' := by
  generalize hops : ops₁ ++ ops₂ = ops at h
  induction h generalizing ops₁ with
  | done =>
    obtain ⟨rfl, rfl⟩ := List.append_eq_nil_iff.mp hops
    exact ⟨_, _, .done, .done⟩
  | fill hp he _ ih =>
    obtain ⟨m₁, T₁, h₁, h₂⟩ := ih hops
    exact ⟨m₁, T₁, .fill hp he h₁, h₂⟩
  | @store m m' T T' ops a x hrest ih =>
    cases ops₁ with
    | nil =>
      cases hops
      exact ⟨_, _, .done, .store hrest⟩
    | cons op rest =>
      cases hops
      obtain ⟨m₁, T₁, h₁, h₂⟩ := ih rfl
      exact ⟨m₁, T₁, .store h₁, h₂⟩
  | @invlpg m m' T T' ops v hrest ih =>
    cases ops₁ with
    | nil =>
      cases hops
      exact ⟨_, _, .done, .invlpg hrest⟩
    | cons op rest =>
      cases hops
      obtain ⟨m₁, T₁, h₁, h₂⟩ := ih rfl
      exact ⟨m₁, T₁, .invlpg h₁, h₂⟩

/-! ## Pieces of a call -/

/-- What changes neither memory nor log is quiet. -/
theorem Quiet.same (hdir : s'.pageDirectory = s.pageDirectory) (hphys : s'.phys = s.phys) (hlog : s'.log = s.log) :
    Quiet X X s s' := by
  refine ⟨hdir, [], by rw [hlog, List.append_nil], fun T m' T' ha hi => ?_⟩
  have he : ∀ p, s'.entry p = s.entry p := fun p => by rw [← walk_eq, ← walk_eq, hdir, hphys]
  refine hi.fills hdir hphys fun c hc => ?_
  rw [he]
  exact ha c hc

theorem Quiet.trans (h₁ : Quiet X Y s s₁) (h₂ : Quiet Y Z s₁ s₂) : Quiet X Z s s₂ := by
  obtain ⟨hd₁, ops₁, hl₁, hq₁⟩ := h₁
  obtain ⟨hd₂, ops₂, hl₂, hq₂⟩ := h₂
  refine ⟨hd₂.trans hd₁, ops₁ ++ ops₂, by rw [hl₂, hl₁, List.append_assoc], fun T m' T' ha hi => ?_⟩
  obtain ⟨m₁, T₁, hi₁, hi₂⟩ := hi.split
  obtain ⟨rfl, ha₁⟩ := hq₁ T m₁ T₁ ha hi₁
  rw [← hd₁] at hi₂
  exact hq₂ T₁ m' T' ha₁ hi₂

theorem Quiet.mono (h : Quiet X Y s s') (hsub : ∀ p < 2 ^ 20, p ∈ Y → p ∈ Z) : Quiet X Z s s' := by
  obtain ⟨hd, ops, hl, hq⟩ := h
  refine ⟨hd, ops, hl, fun T m' T' ha hi => ?_⟩
  obtain ⟨hm, ha'⟩ := hq T m' T' ha hi
  exact ⟨hm, ha'.mono hsub⟩

/-- A store, where it replaces present entries only on pages of `X`. -/
theorem Quiet.put {a x : Nat} (hsub : ∀ p < 2 ^ 20, p ∈ Y → p ∈ X)
    (hkeep : ∀ p < 2 ^ 20, p ∉ X → s.entry p % 2 = 1 → (s.put a x).entry p = s.entry p) : Quiet Y X s (s.put a x) := by
  refine ⟨rfl, [.store a x], rfl, fun T m' T' ha hi => ?_⟩
  generalize hops : [MmuOp.store a x] = ops at hi
  generalize hm : s.phys = m at hi
  induction hi with
  | done => cases hops
  | fill hp he _ ih =>
    subst hm
    exact ih (ha.fill hp he) hops rfl
  | @store m m' T T' ops b y hrest ih =>
    cases hops
    subst hm
    refine hrest.fills (s := s.put a x) rfl rfl fun c hc => ?_
    obtain ⟨hp, hc⟩ := ha c hc
    refine ⟨hp, ?_⟩
    by_cases hX : c.1 ∈ X
    · exact .inl hX
    · rcases hc with hY | ⟨he, hodd⟩
      · exact absurd (hsub c.1 hp hY) hX
      · exact .inr ⟨by rw [hkeep c.1 hp hX (he ▸ hodd)]; exact he, hodd⟩
  | invlpg => cases hops

/-- `invlpg` mends its page. -/
theorem Quiet.invlpg {v : Nat} (hsub : ∀ p < 2 ^ 20, p ∈ Y → p = v / 4096 ∨ p ∈ X) : Quiet Y X s (s.invlpg v) := by
  refine ⟨rfl, [.invlpg v], rfl, fun T m' T' ha hi => ?_⟩
  generalize hops : [MmuOp.invlpg v] = ops at hi
  generalize hm : s.phys = m at hi
  induction hi with
  | done => cases hops
  | fill hp he _ ih =>
    subst hm
    exact ih (ha.fill hp he) hops rfl
  | store => cases hops
  | @invlpg m m' T T' ops u hrest ih =>
    cases hops
    subst hm
    refine hrest.fills (s := s.invlpg v) rfl rfl fun c hc => ?_
    obtain ⟨hcT, hne⟩ := hc
    obtain ⟨hp, hc⟩ := ha c hcT
    refine ⟨hp, ?_⟩
    rcases hc with hY | hagree
    · rcases hsub c.1 hp hY with he | hX
      · exact absurd he hne
      · exact .inl hX
    · exact .inr hagree

/-- Moving the window is quiet. -/
theorem Tables.quiet_aim {L : Layout} (h : Tables L s) (a : Nat) : Quiet X X s (s.aim L a) := by
  have hput : Quiet X (X ∪ {L.window}) s (s.put (4096 * L.table + 4 * L.window) (a + 3)) := by
    refine Quiet.put (fun p _ hp => .inl hp) fun p hp hX _ => ?_
    have he : (s.put (4096 * L.table + 4 * L.window) (a + 3)).entry p = (s.aim L a).entry p := rfl
    have hw : p ≠ L.window := fun hw => hX (.inr hw)
    rw [he, h.aim_entry hp, if_neg hw]
  refine hput.trans (Quiet.invlpg fun p _ hp => ?_)
  rcases hp with hp | hp
  · exact .inr hp
  · refine .inl ?_
    rw [show 4096 * L.window / 4096 = L.window by omega]
    exact hp

end ShawnOS
