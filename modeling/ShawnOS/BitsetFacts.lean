/-
The bitset as a set of naturals.

Over every sequence of `bitset_set_bit` and `bitset_clear_bit`,
`bitset_get_bit` answers for the set that the insertions and deletions make
of the empty one, and only the `length / 32`, rounded up, words from `start`
on are touched.
-/
import ShawnOS.Bitset
import ShawnOS.Lib.Touched
import ShawnOS.Lib.Traces
import Mathlib.Data.Set.Insert

namespace ShawnOS

open Word32 Touched Traces

/-- A `Bitset` that records which words are touched. -/
structure LoggedBitset where
  length : Nat
  start : Nat
  words : Logged Nat Word

/-- The bitset alone. -/
def LoggedBitset.bitset (b : LoggedBitset) : Bitset := ⟨b.length, b.start, b.words.cells⟩

/-- `memset(start, 0, ...)`, with `rem` words left from the `i`-th on. -/
def memsetWords : (rem i : Nat) → Logged Nat Word → Logged Nat Word
  | 0, _, words => words
  | rem + 1, i, words => memsetWords rem (i + 1) (words.write i 0)

/-- `bitset_init`, recording. -/
def bitsetInitLogged (mem : Nat → Word) (start length : Nat) : LoggedBitset where
  length
  start
  words := memsetWords (divRoundUp length 32) 0 (.start mem)

/-- `bitset_set_bit`, recording. -/
def bitsetSetBitLogged (b : LoggedBitset) (n : Nat) : Option LoggedBitset := do
  kassert (n < b.length)
  let (w, words) := b.words.read (n / 32)
  pure { b with words := words.write (n / 32) (w ||| 1#32 <<< (n % 32)) }

/-- `bitset_clear_bit`, recording. -/
def bitsetClearBitLogged (b : LoggedBitset) (n : Nat) : Option LoggedBitset := do
  kassert (n < b.length)
  let (w, words) := b.words.read (n / 32)
  pure { b with words := words.write (n / 32) (w &&& ~~~(1#32 <<< (n % 32))) }

/-- `bitset_get_bit`, recording. -/
def bitsetGetBitLogged (b : LoggedBitset) (n : Nat) : Option (Word × LoggedBitset) := do
  kassert (n < b.length)
  let (w, words) := b.words.read (n / 32)
  pure (w &&& 1#32 <<< (n % 32), { b with words })

/-- An update of the bitset. -/
inductive BitsetCall where
  | setBit (n : Nat)
  | clearBit (n : Nat)

/-- The bit it is about. -/
def BitsetCall.index : BitsetCall → Nat
  | .setBit n | .clearBit n => n

/-- The update, made on the bitset. -/
def bitsetStep (b : LoggedBitset) : BitsetCall → Option LoggedBitset
  | .setBit n => bitsetSetBitLogged b n
  | .clearBit n => bitsetClearBitLogged b n

/-- The update, made on a set. -/
def setStep (t : Set Nat) : BitsetCall → Set Nat
  | .setBit n => insert n t
  | .clearBit n => t \ {n}

/-- The words of a bitset of that length. -/
def OwnWord (length i : Nat) : Prop := i < (length + 31) / 32

/-- The bitset answers for the set `t`, and its own words are all that was or
is touched. -/
structure AnswersFor (b : LoggedBitset) (length : Nat) (t : Set Nat) : Prop where
  own : b.words.Within (OwnWord length)
  get : ∀ m, m < length → ∃ w b', bitsetGetBitLogged b m = some (w, b') ∧ (w ≠ 0 ↔ m ∈ t) ∧
    b'.words.Within (OwnWord length)

/-! ## Recording changes nothing -/

theorem memsetWords_cells : ∀ {rem i : Nat} {words : Logged Nat Word} {k : Nat},
    (memsetWords rem i words).cells k = if i ≤ k ∧ k < i + rem then 0 else words.cells k
  | 0, i, words, k => by
    rw [memsetWords, if_neg (by omega)]
  | rem + 1, i, words, k => by
    rw [memsetWords, memsetWords_cells, write_cells, Function.update_apply]
    split
    · rw [if_pos (by omega)]
    · split
      · rw [if_pos (by omega)]
      · rw [if_neg (by omega)]

theorem bitsetInitLogged_bitset (mem : Nat → Word) (start length : Nat) :
    (bitsetInitLogged mem start length).bitset = bitsetInit mem start length := by
  have hcells : (memsetWords (divRoundUp length 32) 0 (.start mem)).cells =
      fun i => if i < divRoundUp length 32 then 0 else mem i := by
    funext k
    simp only [memsetWords_cells, Nat.zero_le, true_and, Nat.zero_add, start_cells]
  simp only [LoggedBitset.bitset, bitsetInitLogged, bitsetInit, hcells]

theorem bitsetSetBitLogged_bitset (b : LoggedBitset) (n : Nat) :
    (bitsetSetBitLogged b n).map (·.bitset) = bitsetSetBit b.bitset n := by
  by_cases hn : n < b.length
  · simp [bitsetSetBitLogged, bitsetSetBit, LoggedBitset.bitset, Bitset.store, kassert, hn]
  · simp [bitsetSetBitLogged, bitsetSetBit, LoggedBitset.bitset, kassert, hn]

theorem bitsetClearBitLogged_bitset (b : LoggedBitset) (n : Nat) :
    (bitsetClearBitLogged b n).map (·.bitset) = bitsetClearBit b.bitset n := by
  by_cases hn : n < b.length
  · simp [bitsetClearBitLogged, bitsetClearBit, LoggedBitset.bitset, Bitset.store, kassert, hn]
  · simp [bitsetClearBitLogged, bitsetClearBit, LoggedBitset.bitset, kassert, hn]

theorem bitsetGetBitLogged_bitset (b : LoggedBitset) (n : Nat) :
    (bitsetGetBitLogged b n).map (·.1) = bitsetGetBit b.bitset n := by
  by_cases hn : n < b.length
  · simp [bitsetGetBitLogged, bitsetGetBit, LoggedBitset.bitset, kassert, hn]
  · simp [bitsetGetBitLogged, bitsetGetBit, LoggedBitset.bitset, kassert, hn]

/-! ## The refinement -/

/-- The bitset of that length stands for the set `t`: below the length its
bits are the members, and only its own words were touched. -/
structure StandsFor (length : Nat) (b : LoggedBitset) (t : Set Nat) : Prop where
  length_eq : b.length = length
  own : b.words.Within (OwnWord length)
  bit : ∀ m, m < length → (b.bitset.bit m = true ↔ m ∈ t)

theorem OwnWord.of_index {length n : Nat} (h : n < length) : OwnWord length (n / 32) := by
  unfold OwnWord
  omega

theorem memsetWords_within {P : Nat → Prop} : ∀ {rem i : Nat} {words : Logged Nat Word}, words.Within P →
    (∀ k, i ≤ k → k < i + rem → P k) → (memsetWords rem i words).Within P
  | 0, _, _, h, _ => h
  | rem + 1, i, words, h, hk => by
    rw [memsetWords]
    refine memsetWords_within (within_write.mpr ⟨hk i (by omega) (by omega), h⟩) fun k h1 h2 => ?_
    exact hk k (by omega) (by omega)

theorem StandsFor.init (mem : Nat → Word) (start : Nat) {length : Nat} (hpos : 1 ≤ length) (hlt : length < 2 ^ 32) :
    StandsFor length (bitsetInitLogged mem start length) ∅ := by
  refine ⟨rfl, memsetWords_within (within_start mem) fun k _ hk => ?_, fun m hm => ?_⟩
  · rw [divRoundUp_of_pos hpos hlt] at hk
    unfold OwnWord
    omega
  · rw [bitsetInitLogged_bitset, bitsetInit_bit hlt hm]
    simp

theorem bitsetSetBitLogged_ok {length : Nat} {b : LoggedBitset} {t : Set Nat} {n : Nat} (h : StandsFor length b t)
    (hn : n < length) : ∃ b', bitsetSetBitLogged b n = some b' ∧ StandsFor length b' (insert n t) := by
  have hn' : n < b.length := h.length_eq ▸ hn
  obtain ⟨c, hc⟩ := @bitsetSetBit_ok b.bitset n hn'
  have hfill := (bitsetSetBit_filled hc).2
  rw [← bitsetSetBitLogged_bitset] at hc
  obtain ⟨b', hb', rfl⟩ := Option.map_eq_some_iff.mp hc
  refine ⟨b', hb', hfill.length.trans h.length_eq, ?_, fun m hm => ?_⟩
  · simp only [bitsetSetBitLogged, kassert_of hn', bind, Option.bind_some, pure, Option.some.injEq] at hb'
    subst hb'
    exact within_write.mpr ⟨.of_index hn, within_read.mpr ⟨.of_index hn, h.own⟩⟩
  · rw [hfill.bit, Bool.or_eq_true, h.bit m hm, decide_eq_true_iff, Set.mem_insert_iff, or_comm]
    have hone : (n ≤ m ∧ m < n + 1) ↔ m = n := by omega
    rw [hone]

theorem bitsetClearBitLogged_ok {length : Nat} {b : LoggedBitset} {t : Set Nat} {n : Nat} (h : StandsFor length b t)
    (hn : n < length) : ∃ b', bitsetClearBitLogged b n = some b' ∧ StandsFor length b' (t \ {n}) := by
  have hn' : n < b.length := h.length_eq ▸ hn
  obtain ⟨c, hc⟩ := @bitsetClearBit_ok b.bitset n hn'
  have hwipe := (bitsetClearBit_wiped hc).2
  rw [← bitsetClearBitLogged_bitset] at hc
  obtain ⟨b', hb', rfl⟩ := Option.map_eq_some_iff.mp hc
  refine ⟨b', hb', hwipe.length.trans h.length_eq, ?_, fun m hm => ?_⟩
  · simp only [bitsetClearBitLogged, kassert_of hn', bind, Option.bind_some, pure, Option.some.injEq] at hb'
    subst hb'
    exact within_write.mpr ⟨.of_index hn, within_read.mpr ⟨.of_index hn, h.own⟩⟩
  · have hone : (n ≤ m ∧ m < n + 1) ↔ m = n := by omega
    rw [hwipe.bit, Bool.and_eq_true, h.bit m hm, Bool.not_eq_true', decide_eq_false_iff_not, hone, Set.mem_sdiff,
      Set.mem_singleton_iff]

/-- **One update.** -/
theorem StandsFor.step {length : Nat} {b : LoggedBitset} {t : Set Nat} {c : BitsetCall} (h : StandsFor length b t)
    (hc : c.index < length) : ∃ b', bitsetStep b c = some b' ∧ StandsFor length b' (setStep t c) := by
  cases c with
  | setBit n => exact bitsetSetBitLogged_ok h hc
  | clearBit n => exact bitsetClearBitLogged_ok h hc

theorem StandsFor.answers {length : Nat} {b : LoggedBitset} {t : Set Nat} (h : StandsFor length b t) :
    AnswersFor b length t := by
  refine ⟨h.own, fun m hm => ?_⟩
  have hm' : m < b.length := h.length_eq ▸ hm
  have hget := @bitsetGetBit_eq b.bitset m hm'
  obtain ⟨-, hzero⟩ := bitsetGetBit_zero hget
  refine ⟨_, _, by simp only [bitsetGetBitLogged, kassert_of hm', bind, Option.bind_some, pure]; rfl, ?_,
    within_read.mpr ⟨.of_index hm, h.own⟩⟩
  rw [← h.bit m hm, ← Bool.not_eq_false]
  exact not_congr hzero

/-- **The bitset refines a set of naturals**, over every sequence of updates
below its length. -/
theorem bitset_refines_set (mem : Nat → Word) (start : Nat) {length : Nat} (hpos : 1 ≤ length) (hlt : length < 2 ^ 32)
    (calls : List BitsetCall) (hcalls : ∀ c ∈ calls, c.index < length) :
    ∃ b, calls.foldlM bitsetStep (bitsetInitLogged mem start length) = some b ∧
      AnswersFor b length (calls.foldl setStep ∅) := by
  have hstep : ∀ b t c, c ∈ calls → StandsFor length b t →
      ∃ b', bitsetStep b c = some b' ∧ StandsFor length b' (setStep t c) := fun b t c hc h => h.step (hcalls c hc)
  obtain ⟨b, hrun, h⟩ := foldlM_refines hstep (StandsFor.init mem start hpos hlt)
  exact ⟨b, hrun, h.answers⟩

/-- Bits 31 and 32 of 33, the first set and cleared again. -/
theorem bitset_refines_set_thirtyThree : ∃ b,
    [BitsetCall.setBit 31, .setBit 32, .clearBit 31].foldlM bitsetStep
      (bitsetInitLogged (fun _ => 0xFFFFFFFF) 0x1000 33) = some b ∧
    AnswersFor b 33 ([BitsetCall.setBit 31, .setBit 32, .clearBit 31].foldl setStep ∅) :=
  bitset_refines_set (fun _ => 0xFFFFFFFF) 0x1000 (by decide) (by decide) _ (by decide)

end ShawnOS
