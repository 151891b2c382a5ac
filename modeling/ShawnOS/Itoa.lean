/-
`itoa` (`libsc/stdlib/itoa.c`).

The number is negated if need be and written backwards, digit by digit, the
sign behind it; then the string is reversed in place. The one number whose
negation is itself, `-2^31`, keeps its sign, and its digit loop ends after a
single, negative remainder.
-/
import ShawnOS.PrintfNumbers

namespace ShawnOS

open Cells Touched

/-- `strlen`, of a string in a buffer. -/
def strlenLogged : Nat → (result : Nat) → LoggedBuffer → Option (Nat × LoggedBuffer)
  | 0, _, _ => none
  | n + 1, result, s => do
    let (c, s) := s.read result
    let c ← c
    if c = 0 then some (result, s) else strlenLogged n (result + 1) s

/-- `reverse`. Its loop is that of `%x`. -/
def reverse (s : LoggedBuffer) : Option LoggedBuffer := do
  let (length, s) ← strlenLogged numberTurns 0 s
  reverseArrayLogged numberTurns 0 (length - 1) s

/-- `do { ... } while ((n /= 10) > 0)`. -/
def itoaDigits : Nat → (i : Nat) → (n : Int) → LoggedBuffer → Option (Nat × LoggedBuffer)
  | 0, _, _, _ => none
  | turns + 1, i, n, s =>
    let s := s.write i (some (BitVec.ofInt 8 (n.tmod 10 + 0x30)))
    if n.tdiv 10 > 0 then itoaDigits turns (i + 1) (n.tdiv 10) s else some (i + 1, s)

/-- `itoa`. -/
def itoa (n : BitVec 32) (s : LoggedBuffer) : Option LoggedBuffer := do
  let sign := n.toInt
  let n := if sign < 0 then -n else n
  let (i, s) ← itoaDigits numberTurns 0 n.toInt s
  let (i, s) := if sign < 0 then (i + 1, s.write i (some minusSign)) else (i, s)
  reverse (s.write i (some 0))

/-- Whatever the buffer held, `itoa` leaves the numeral of `n` and a NUL in
it, which reads as `n` again and takes at most 12 characters; nothing behind
the NUL is touched. -/
def ItoaRight (n : BitVec 32) : Prop :=
  ∀ buffer : CharBuffer, ∃ s text, itoa n (.start buffer) = some s ∧ text = signedNumeral n.toInt ∧
    readDecimal text = some n.toInt ∧ Holds s.cells 0 (text ++ [0]) ∧ text.length < 12 ∧
    s.Within fun i : Int => 0 ≤ i ∧ i ≤ text.length

/-! ## The loops -/

variable {s s' : LoggedBuffer} {P : Int → Prop}

/-- The last digit of a numeral, and those before it. -/
theorem numeral_last (n : Nat) : numeral 10 n = (if n / 10 = 0 then [] else numeral 10 (n / 10)) ++ [digitChar (n % 10)] := by
  by_cases hn : n = 0
  · subst hn
    rfl
  · rw [numeral, if_neg hn, digits_step (by omega) hn, List.reverse_cons, List.map_append, List.map_singleton]
    congr 1
    split
    · next h0 => simp [h0]
    · next h0 => rw [numeral, if_neg h0]

theorem numeral_length_le {n k : Nat} (hk : 1 ≤ k) (h : n < 10 ^ k) : (numeral 10 n).length ≤ k := by
  unfold numeral
  split
  · exact hk
  · rw [List.length_map, List.length_reverse, Nat.digits_length_le_iff (by omega)]
    exact h

theorem numeral_ne_nul {n : Nat} {c : BitVec 8} (h : c ∈ numeral 10 n) : c ≠ 0 := by
  obtain ⟨d, hd, rfl⟩ := mem_numeral h
  intro h0
  have hnat := congrArg BitVec.toNat h0
  rw [digitChar_toNat hd] at hnat
  simp at hnat

/-- The digits are stored behind `l`, from the last on. -/
theorem itoaDigits_holds : ∀ {turns i n : Nat} {l : List (BitVec 8)} {s : LoggedBuffer},
    (numeral 10 n).length ≤ turns → Holds s.cells 0 l → l.length = i → s.Within P →
    (∀ k : Nat, k < i + (numeral 10 n).length → P k) →
    ∃ s', itoaDigits turns i n s = some (i + (numeral 10 n).length, s') ∧
      Holds s'.cells 0 (l ++ (numeral 10 n).reverse) ∧ s'.Within P
  | 0, _, n, _, _, h, _, _, _, _ => by
    rw [numeral_last, List.length_append, List.length_singleton] at h
    omega
  | turns + 1, i, n, l, s, h, hl, hi, hw, hP => by
    have hdiv : (n : Int).tdiv 10 = (n / 10 : Nat) := (Int.ofNat_tdiv n 10).symm
    have hstore := hl.store_behind (digitChar (n % 10))
    rw [hi, Int.zero_add, ← write_cells] at hstore
    rw [numeral_last, List.length_append, List.length_singleton] at h hP ⊢
    rw [itoaDigits, digitChar_decimal, hdiv]
    have hw' : (s.write i (some (digitChar (n % 10)))).Within P := within_write.mpr ⟨hP i (by omega), hw⟩
    by_cases h0 : n / 10 = 0
    · rw [if_pos h0, if_neg (by omega)]
      exact ⟨_, rfl, hstore, hw'⟩
    · rw [if_neg h0] at h hP ⊢
      rw [if_pos (by omega)]
      obtain ⟨s', he, hs', hw''⟩ := @itoaDigits_holds turns (i + 1) (n / 10) (l ++ [digitChar (n % 10)]) _ (by omega)
        hstore (by simp [hi]) hw' fun k hk => hP k (by omega)
      refine ⟨s', ?_, ?_, hw''⟩
      · rw [he]
        congr 2
        omega
      · rw [List.reverse_append, List.reverse_singleton, ← List.append_assoc]
        exact hs'

theorem strlenLogged_eq : ∀ {turns result : Nat} {l : List (BitVec 8)} {s : LoggedBuffer}, l.length < turns →
    Holds s.cells result (l ++ [0]) → (∀ c ∈ l, c ≠ 0) → s.Within P →
    (∀ k : Nat, k ≤ result + l.length → P k) →
    ∃ s', strlenLogged turns result s = some (result + l.length, s') ∧ s'.cells = s.cells ∧ s'.Within P
  | 0, _, _, _, h, _, _, _, _ => absurd h (Nat.not_lt_zero _)
  | turns + 1, result, [], s, _, hl, _, hw, hP => by
    have hc : s.cells result = some 0 := by simpa using hl 0 (by simp)
    refine ⟨(s.read result).2, ?_, rfl, within_read.mpr ⟨hP result (by omega), hw⟩⟩
    simp [strlenLogged, Logged.read, hc]
  | turns + 1, result, c :: l, s, h, hl, hne, hw, hP => by
    have hc : s.cells result = some c := by simpa using hl 0 (by simp)
    have hc0 : ¬ c = 0#8 := hne c List.mem_cons_self
    have hrest : Holds (s.read result).2.cells (result + 1 : Nat) (l ++ [0]) := by
      rw [List.cons_append, ← List.singleton_append, holds_append] at hl
      exact hl.2
    rw [List.length_cons] at hP ⊢
    obtain ⟨s', he, hcells, hw'⟩ := strlenLogged_eq (Nat.lt_of_succ_lt_succ h) hrest
      (fun d hd => hne d (List.mem_cons_of_mem c hd)) (within_read.mpr ⟨hP result (by omega), hw⟩)
      fun k hk => hP k (by omega)
    refine ⟨s', ?_, hcells, hw'⟩
    have hend : result + (l.length + 1) = result + 1 + l.length := by omega
    simp [strlenLogged, hc, hc0, he, hend]

/-- The reversal touches what it reverses. -/
theorem reverseArrayLogged_touches : ∀ {turns : Nat} {i j : Int} {s s' : LoggedBuffer},
    reverseArrayLogged turns i j s = some s' → s.Within P → (∀ k, i ≤ k → k ≤ j → P k) → s'.Within P
  | 0, _, _, _, _, h, _, _ => by cases h
  | turns + 1, i, j, s, s', h, hw, hP => by
    rw [reverseArrayLogged] at h
    split at h
    · have hi := hP i (by omega) (by omega)
      have hj := hP j (by omega) (by omega)
      have hread := within_read.mpr ⟨hj, within_read.mpr ⟨hi, hw⟩⟩
      exact reverseArrayLogged_touches h (within_write.mpr ⟨hj, within_write.mpr ⟨hi, hread⟩⟩)
        fun k h1 h2 => hP k (by omega) (by omega)
    · cases h
      exact hw

/-- **`reverse`.** -/
theorem reverse_holds {l : List (BitVec 8)} (hlen : l.length < numberTurns) (hl : Holds s.cells 0 (l ++ [0]))
    (hne : ∀ c ∈ l, c ≠ 0) (hw : s.Within P) (hP : ∀ k : Nat, k ≤ l.length → P k) :
    ∃ s', reverse s = some s' ∧ Holds s'.cells 0 (l.reverse ++ [0]) ∧ s'.Within P := by
  obtain ⟨s₁, hstrlen, hcells, hw₁⟩ := @strlenLogged_eq P numberTurns 0 l s hlen hl hne hw
    fun k hk => hP k (by omega)
  rw [Nat.zero_add] at hstrlen
  obtain ⟨buffer, hrev, hin, hout⟩ := @reverseArray_eq numberTurns 0 (l.length - 1) s₁.cells (by decide)
    (by unfold numberTurns at hlen ⊢; omega)
  rw [← reverseArrayLogged_cells] at hrev
  obtain ⟨s', hs', rfl⟩ := Option.map_eq_some_iff.mp hrev
  rw [hcells] at hin hout
  obtain ⟨hchars, hnul⟩ := holds_append.mp hl
  have hmirror : Holds s'.cells 0 l.reverse := hchars.mirror fun k h1 h2 => by
    rw [hin k h1 (by omega)]
    exact congrArg s.cells (by omega)
  refine ⟨s', by simp [reverse, hstrlen, hs'], holds_append.mpr ⟨hmirror, fun k hk => ?_⟩,
    reverseArrayLogged_touches hs' hw₁ fun k h1 h2 => ?_⟩
  · rw [List.length_reverse, hout _ (.inr (by omega))]
    exact hnul k hk
  · obtain ⟨n, rfl⟩ := Int.eq_ofNat_of_zero_le h1
    exact hP n (by omega)

/-! ## The number -/

/-- Where the number is `m` once it was negated, its numeral with the sign is
what the reversal leaves. -/
theorem itoa_holds {n : BitVec 32} {m : Nat} (hm : (if n.toInt < 0 then -n else n).toInt = m) (hlt : m < 10 ^ 10)
    (buffer : CharBuffer) {text : List (BitVec 8)}
    (ht : text = if n.toInt < 0 then minusSign :: numeral 10 m else numeral 10 m) :
    ∃ s, itoa n (.start buffer) = some s ∧ Holds s.cells 0 (text ++ [0]) ∧ text.length < 12 ∧
      s.Within fun i : Int => 0 ≤ i ∧ i ≤ text.length := by
  have hdigits := numeral_length_le (show 1 ≤ 10 by omega) hlt
  have hlen : (numeral 10 m).length ≤ text.length ∧ text.length < 12 := by
    rw [ht]
    split
    · rw [List.length_cons]
      omega
    · omega
  have hne : ∀ c ∈ text, c ≠ 0 := by
    intro c hc
    rw [ht] at hc
    split at hc
    · rcases List.mem_cons.mp hc with rfl | hc
      · decide
      · exact numeral_ne_nul hc
    · exact numeral_ne_nul hc
  obtain ⟨s₁, hfill, hs₁, hw₁⟩ := @itoaDigits_holds (fun i : Int => 0 ≤ i ∧ i ≤ text.length) numberTurns 0 m []
    (.start buffer) (by unfold numberTurns; omega) holds_nil rfl (within_start buffer) fun k hk => by omega
  rw [List.nil_append] at hs₁
  rw [Nat.zero_add] at hfill
  -- The sign and the NUL go behind the digits.
  obtain ⟨s₂, hs₂, hcells, hw₂⟩ : ∃ s₂ : LoggedBuffer,
      (if n.toInt < 0 then ((numeral 10 m).length + 1, s₁.write (numeral 10 m).length (some minusSign))
        else ((numeral 10 m).length, s₁)) = (text.length, s₂) ∧
      Holds s₂.cells 0 text.reverse ∧ s₂.Within fun i : Int => 0 ≤ i ∧ i ≤ text.length := by
    split at ht
    · next hneg =>
      subst ht
      have hsign := hs₁.store_behind minusSign
      rw [List.length_reverse, Int.zero_add, ← write_cells] at hsign
      refine ⟨_, if_pos hneg, ?_, within_write.mpr ⟨by omega, hw₁⟩⟩
      rw [List.reverse_cons]
      exact hsign
    · next hpos =>
      subst ht
      exact ⟨_, if_neg hpos, hs₁, hw₁⟩
  have hnul := hcells.store_behind 0
  rw [List.length_reverse, Int.zero_add, ← write_cells] at hnul
  obtain ⟨s', hrev, hs', hw'⟩ := @reverse_holds _ (fun i : Int => 0 ≤ i ∧ i ≤ text.length) text.reverse
    (by rw [List.length_reverse]; unfold numberTurns; omega) hnul (fun c hc => hne c (List.mem_reverse.mp hc))
    (within_write.mpr ⟨by omega, hw₂⟩) (by rw [List.length_reverse]; omega)
  rw [List.reverse_reverse] at hs'
  refine ⟨s', ?_, hs', hlen.2, hw'⟩
  simp only [itoa, hm, hfill, bind, Option.bind_some, hs₂]
  exact hrev

/-- `-2^31` is written as `"-("`. -/
theorem itoa_cell_intMin : (itoa (BitVec.intMin 32) (.start fun _ => none)).bind (fun s => s.cells 1) = some 0x28 := by
  decide

theorem not_itoaRight_intMin : ¬ ItoaRight (BitVec.intMin 32) := by
  intro h
  obtain ⟨s, text, hitoa, htext, -, hs, -, -⟩ := h fun _ => none
  have htwo : text[1]? = some 0x32 := by
    rw [htext]
    decide
  obtain ⟨hlt, htwo⟩ := List.getElem?_eq_some_iff.mp htwo
  have hcell := itoa_cell_intMin
  have hone : s.cells 1 = some 0x32 := by
    have hholds := hs 1 (by rw [List.length_append]; omega)
    rw [List.getElem_append_left hlt, htwo] at hholds
    exact hholds
  rw [hitoa, Option.bind_some, hone] at hcell
  cases hcell

/-- **`itoa`** is right for every number but `-2^31`. -/
theorem itoa_right_iff (n : BitVec 32) : ItoaRight n ↔ n ≠ BitVec.intMin 32 := by
  constructor
  · rintro h rfl
    exact not_itoaRight_intMin h
  · intro hne buffer
    have hlo := n.le_toInt; have hhi := n.toInt_lt
    have hm : (if n.toInt < 0 then -n else n).toInt = n.toInt.natAbs := by
      split
      · rw [BitVec.toInt_neg_of_ne_intMin hne]
        omega
      · omega
    obtain ⟨s, hitoa, hs, hlen, hw⟩ := itoa_holds hm (by omega) buffer rfl
    exact ⟨s, _, hitoa, rfl, readDecimal_signedNumeral _, hs, hlen, hw⟩

/-- The digit of `-2^31` is a parenthesis. -/
theorem itoa_intMin : ¬ ItoaRight (BitVec.intMin 32) ∧
    (itoa (BitVec.intMin 32) (.start fun _ => none)).bind (fun s => s.cells 1) = some 0x28 :=
  ⟨not_itoaRight_intMin, itoa_cell_intMin⟩

end ShawnOS
