/-
What `vprintf` returns (`libsc/stdio/printf.c`).

`written` is added to at `print_c` alone, where literal text, `%%` and
rejected conversions are printed. The conversions print on their own and do
not count: the value returned is the number of characters of the literal
text, as an `int`.
-/
import ShawnOS.Printf

namespace ShawnOS

/-- The literal characters. -/
def literals : List Piece → List (BitVec 8)
  | [] => []
  | .text c :: ps => c :: literals ps
  | .conversion _ :: ps => literals ps

/-- What is passed to `putchar` for a format. -/
def passedText : List Piece → List VaArg → List (BitVec 8)
  | [], _ => []
  | .text c :: ps, args => c :: passedText ps args
  | .conversion k :: ps, a :: args => k.passed a ++ passedText ps args
  | .conversion _ :: _, [] => []

/-- An empty string, for `%s`. -/
def Conversion.Empty : Conversion → VaArg → Prop
  | .s, .string v => v.chars = []
  | _, _ => False

/-- Every conversion is a `%s` given an empty string. -/
def NothingConverted : List Piece → List VaArg → Prop
  | [], _ => True
  | .text _ :: ps, args => NothingConverted ps args
  | .conversion k :: ps, a :: args => k.Empty a ∧ NothingConverted ps args
  | .conversion _ :: _, [] => False

/-- `vprintf` returns, and returns the number of characters it passed to
`putchar`. -/
def ReturnsLength (format : CString) (parameters : List VaArg) : Prop :=
  ∃ written text, vprintf format parameters = some (written, text) ∧ written.toInt = text.length

/-! ## Lengths -/

@[simp] theorem literals_text (ps : List Piece) : ∀ l : List (BitVec 8), literals (l.map .text ++ ps) = l ++ literals ps
  | [] => rfl
  | c :: l => by simp [literals, literals_text ps l]

@[simp] theorem passedText_text (ps : List Piece) (args : List VaArg) :
    ∀ l : List (BitVec 8), passedText (l.map .text ++ ps) args = l ++ passedText ps args
  | [] => rfl
  | c :: l => by simp [passedText, passedText_text ps args l]

theorem numeral_ne_nil (base n : Nat) : numeral base n ≠ [] := by
  unfold numeral
  split
  · simp
  · next hn => simpa using Nat.digits_ne_nil_iff_ne_zero.mpr hn

/-- A conversion passes nothing only for an empty string. -/
theorem Conversion.Accepts.passed_nil {k : Conversion} {a : VaArg} (h : k.Accepts a) : k.passed a = [] ↔ k.Empty a := by
  cases k <;> cases a <;> try exact h.elim
  case c.int v => simp [Conversion.passed, Conversion.write, Conversion.Empty]
  case d.int v =>
    simp only [Conversion.passed, Conversion.Empty, iff_false]
    split
    · exact numeral_ne_nil _ _
    · next hneg =>
      have hdigits := @Nat.digits_ne_nil_iff_ne_zero 10 v.toInt.natAbs
      simpa using hdigits.mpr (by omega)
  case u.uint32 v => simp [Conversion.passed, Conversion.write, Conversion.Empty, numeral_ne_nil]
  case x.uint32 v => simp [Conversion.passed, Conversion.write, Conversion.Empty, numeral_ne_nil]
  case lx.uint64 v => simp [Conversion.passed, Conversion.write, Conversion.Empty, numeral_ne_nil]
  case s.string v => rfl

theorem literals_length_le : ∀ {ps : List Piece} {args : List VaArg}, Matched ps args →
    (literals ps).length ≤ (passedText ps args).length
  | [], _, _ => Nat.le_refl _
  | .text _ :: ps, args, h => Nat.succ_le_succ (@literals_length_le ps args h)
  | .conversion k :: ps, a :: args, h => by
    have hrest := @literals_length_le ps args h.2
    rw [literals, passedText, List.length_append]
    omega

/-- Only where nothing is converted is all of it literal. -/
theorem literals_length_iff : ∀ {ps : List Piece} {args : List VaArg}, Matched ps args →
    ((literals ps).length = (passedText ps args).length ↔ NothingConverted ps args)
  | [], _, _ => by simp [literals, passedText, NothingConverted]
  | .text _ :: ps, args, h => by
    simp only [literals, passedText, NothingConverted, List.length_cons, Nat.add_right_cancel_iff]
    exact @literals_length_iff ps args h
  | .conversion k :: ps, a :: args, h => by
    have hle := literals_length_le h.2
    have hnil := h.1.passed_nil
    rw [← List.length_eq_zero_iff] at hnil
    rw [literals, passedText, NothingConverted, List.length_append, ← literals_length_iff h.2, ← hnil]
    omega

/-- A count as an `int`, against a number no smaller. -/
theorem ofNat_toInt_eq {m n : Nat} (hle : m ≤ n) : (BitVec.ofNat 32 m).toInt = n ↔ m = n ∧ m < 2 ^ 31 := by
  have hint : m < 2 ^ 31 → (BitVec.ofNat 32 m).toInt = m := fun hm => by
    rw [BitVec.toInt_ofNat']
    exact Int.bmod_eq_of_le (by omega) (by omega)
  constructor
  · intro h
    have hlt := (BitVec.ofNat 32 m).toInt_lt
    have := hint (by omega)
    omega
  · rintro ⟨rfl, hm⟩
    exact hint hm

/-! ## The run -/

/-- From `s` on, `written` ends as `w` and the output as `out`. -/
structure EndsWith (w : BitVec 32) (out : List (BitVec 8)) (s : Vprintf) (l : List (BitVec 8)) : Prop where
  written_eq : s.written + BitVec.ofNat 32 (literals (pieces s.rejectedBadSpecifier l)).length = w
  out_eq : s.out ++ passedText (pieces s.rejectedBadSpecifier l) s.parameters = out

theorem EndsWith.turn {w : BitVec 32} {out : List (BitVec 8)} {s s' : Vprintf} {l l' : List (BitVec 8)}
    (h : EndsWith w out s l) (hcase : TurnCase s s' l l') : EndsWith w out s' l' := by
  obtain ⟨hw, hout⟩ := h
  cases hcase with
  | text chars hpieces hparameters hout' hwritten =>
    rw [hpieces, literals_text, List.length_append, BitVec.ofNat_add, ← BitVec.add_assoc, ← hwritten] at hw
    rw [hpieces, passedText_text, ← hparameters, ← List.append_assoc, ← hout'] at hout
    exact ⟨hw, hout⟩
  | conversion k a _ hpieces hparameters hout' hwritten =>
    rw [hpieces, literals, ← hwritten] at hw
    rw [hpieces, hparameters, passedText, ← List.append_assoc, ← hout'] at hout
    exact ⟨hw, hout⟩

/-- **What `vprintf` returns and prints**: it counts the literal characters
alone. -/
theorem vprintf_counts (format : CString) (parameters : List VaArg)
    (hm : Matched (pieces false format.chars) parameters) :
    vprintf format parameters = some (BitVec.ofNat 32 (literals (pieces false format.chars)).length,
      passedText (pieces false format.chars) parameters) := by
  have h : EndsWith (BitVec.ofNat 32 (literals (pieces false format.chars)).length)
      (passedText (pieces false format.chars) parameters) ⟨0, 0, false, parameters, []⟩ format.chars :=
    ⟨BitVec.zero_add _, rfl⟩
  obtain ⟨s', hloop, hend⟩ := vprintfLoop_run (fun _ _ _ _ h _ hcase => EndsWith.turn h hcase) h format.at_zero hm
    (Nat.lt_succ_self _)
  have hw := hend.written_eq
  have hout := hend.out_eq
  rw [pieces, literals, List.length_nil] at hw
  rw [pieces, passedText, List.append_nil] at hout
  replace hw := (BitVec.add_zero _).symm.trans hw
  rw [← hw, ← hout]
  exact congrArg (Option.bind · fun s => some (s.written, s.out)) hloop

/-- **`vprintf`'s result is its output length** exactly when everything it
prints is literal and the length fits an `int`. -/
theorem vprintf_returns_length_iff (format : CString) (parameters : List VaArg)
    (hm : Matched (pieces false format.chars) parameters) :
    ReturnsLength format parameters ↔
      NothingConverted (pieces false format.chars) parameters ∧ (literals (pieces false format.chars)).length < 2 ^ 31 := by
  have hle := literals_length_le hm
  have hiff := literals_length_iff hm
  have hcounts := vprintf_counts format parameters hm
  constructor
  · intro ⟨written, text, hret, hlen⟩
    obtain ⟨rfl, rfl⟩ := Prod.mk.inj (Option.some.inj (hcounts.symm.trans hret))
    obtain ⟨heq, hlt⟩ := (ofNat_toInt_eq hle).mp hlen
    exact ⟨hiff.mp heq, hlt⟩
  · intro ⟨hnothing, hlt⟩
    exact ⟨_, _, hcounts, (ofNat_toInt_eq hle).mpr ⟨hiff.mpr hnothing, hlt⟩⟩

/-- `"a%%%s"`, of an empty string: two characters. -/
theorem vprintf_returns_length_two :
    Matched (pieces false [0x61, 0x25, 0x25, 0x25, 0x73]) [.string ⟨[], by decide⟩] ∧
    ReturnsLength ⟨[0x61, 0x25, 0x25, 0x25, 0x73], by decide⟩ [.string ⟨[], by decide⟩] := by
  have hm : Matched (pieces false [0x61, 0x25, 0x25, 0x25, 0x73]) [.string ⟨[], by decide⟩] := by
    simp [pieces, directive, conversionAt, percentSign, Matched, Conversion.Accepts]
  refine ⟨hm, (vprintf_returns_length_iff ⟨_, by decide⟩ _ hm).mpr ⟨?_, ?_⟩⟩ <;>
    simp [pieces, directive, conversionAt, percentSign, NothingConverted, Conversion.Empty, literals]

/-- `"%d"` prints one character of 5 and returns 0. -/
theorem vprintf_returns_zero :
    Matched (pieces false [0x25, 0x64]) [.int 5] ∧ vprintf ⟨[0x25, 0x64], by decide⟩ [.int 5] = some (0, [0x35]) ∧
    ¬ ReturnsLength ⟨[0x25, 0x64], by decide⟩ [.int 5] := by
  have hret : vprintf ⟨[0x25, 0x64], by decide⟩ [.int 5] = some (0, [0x35]) := by decide
  refine ⟨?_, hret, fun ⟨written, text, h, hlen⟩ => ?_⟩
  · simp [pieces, directive, conversionAt, percentSign, Matched, Conversion.Accepts]
  · rw [hret] at h
    cases h
    exact absurd hlen (by decide)

end ShawnOS
