/-
`strcmp` and `memcmp` (`libsc/string`).

Both stop at the first byte that differs. `memcmp` compares it as an
`unsigned char`, `strcmp` subtracts it as a plain `char`, which is signed:
the two agree unless exactly one of the bytes is above 127.
-/
import ShawnOS.Printf

namespace ShawnOS

/-- The loop of `strcmp`, with both pointers moved on by `i`, and the
difference returned behind it. -/
def strcmpLoop (a b : CString) : Nat → (i : Nat) → Option Int
  | 0, _ => none
  | n + 1, i => do
    let x ← a.read i
    let y ← b.read i
    if x ≠ 0 ∧ x = y then strcmpLoop a b n (i + 1) else some (x.toInt - y.toInt)

/-- `strcmp`. -/
def strcmp (a b : CString) : Option Int := strcmpLoop a b (a.chars.length + 1) 0

/-- `memcmp`, with `rem` bytes left from the `i`-th on. -/
def memcmp (a b : CString) : (rem i : Nat) → Option Int
  | 0, _ => some 0
  | rem + 1, i => do
    let x ← a.read i
    let y ← b.read i
    if x.toNat < y.toNat then some (-1) else if y.toNat < x.toNat then some 1 else memcmp a b rem (i + 1)

/-- `strcmp` orders two strings as `memcmp` over the shorter and its NUL
does: by their first different bytes, unsigned. -/
structure StrcmpRight (a b : CString) : Prop where
  memcmp : ∃ la lb r s, strlen a (a.chars.length + 1) 0 = some la ∧ strlen b (b.chars.length + 1) 0 = some lb ∧
    strcmp a b = some r ∧ memcmp a b (min la lb + 1) 0 = some s ∧ r.sign = s.sign
  equal : ∀ r, strcmp a b = some r → (r = 0 ↔ a.chars = b.chars)
  order : ∀ r, strcmp a b = some r → (r < 0 ↔ a.chars < b.chars)

/-- Where the strings first differ, NUL included, the bytes are both below 128
or both not. -/
def SameHalf (a b : CString) : Prop :=
  ∀ i x y, a.read i = some x → b.read i = some y → (∀ j, j < i → a.read j = b.read j) → x ≠ y →
    (x.toNat < 128 ↔ y.toNat < 128)

/-! ## The first difference -/

/-- Two strings with their first difference: `x` and `y` behind `p`, either of
which may be the NUL. -/
structure FirstDifference (a b : CString) (p : List (BitVec 8)) (x y : BitVec 8) : Prop where
  ne : x ≠ y
  left : ∃ s, a.At p.length s ∧ a.chars = p ++ s ∧ s.headD 0 = x
  right : ∃ s, b.At p.length s ∧ b.chars = p ++ s ∧ s.headD 0 = y

theorem exists_append_ne : ∀ (l l' : List (BitVec 8)), 0 ∉ l → 0 ∉ l' → l = l' ∨
    ∃ p s s', l = p ++ s ∧ l' = p ++ s' ∧ s.headD 0 ≠ s'.headD 0
  | [], [], _, _ => .inl rfl
  | [], y :: l', _, h' => .inr ⟨[], [], y :: l', rfl, rfl, fun he => (List.ne_of_not_mem_cons h') he⟩
  | x :: l, [], h, _ => .inr ⟨[], x :: l, [], rfl, rfl, fun he => (List.ne_of_not_mem_cons h) he.symm⟩
  | x :: l, y :: l', h, h' => by
    by_cases hxy : x = y
    · subst hxy
      rcases exists_append_ne l l' (fun hm => h (List.mem_cons_of_mem x hm)) (fun hm => h' (List.mem_cons_of_mem x hm))
        with rfl | ⟨p, s, s', rfl, rfl, hne⟩
      · exact .inl rfl
      · exact .inr ⟨x :: p, s, s', rfl, rfl, hne⟩
    · exact .inr ⟨[], x :: l, y :: l', rfl, rfl, hxy⟩

theorem equal_or_firstDifference (a b : CString) : a.chars = b.chars ∨ ∃ p x y, FirstDifference a b p x y := by
  rcases exists_append_ne a.chars b.chars a.noNul b.noNul with heq | ⟨p, s, s', hl, hr, hne⟩
  · exact .inl heq
  · exact .inr ⟨p, _, _, hne, ⟨s, ⟨p, hl, rfl⟩, hl, rfl⟩, ⟨s', ⟨p, hr, rfl⟩, hr, rfl⟩⟩

/-- The byte at the pointer. -/
theorem CString.At.read_headD {string : CString} {i : Nat} {l : List (BitVec 8)} (h : string.At i l) :
    string.read i = some (l.headD 0) := by
  cases l with
  | nil => exact h.read_nil
  | cons c l => exact h.read_cons

/-- A byte in front of the pointer. -/
theorem CString.read_before {string : CString} {p s : List (BitVec 8)} (h : string.chars = p ++ s) {i : Nat}
    (hi : i < p.length) : string.read i = some p[i] ∧ p[i] ≠ 0 := by
  have hat : string.At 0 (p ++ s) := ⟨[], h, rfl⟩
  have hread := hat.read_add hi
  rw [Nat.zero_add] at hread
  exact ⟨hread, hat.ne_nul _ (List.mem_append_left s (List.getElem_mem hi))⟩

variable {a b : CString} {p : List (BitVec 8)} {x y : BitVec 8}

theorem FirstDifference.reads (h : FirstDifference a b p x y) :
    a.read p.length = some x ∧ b.read p.length = some y := by
  obtain ⟨s, hs, -, rfl⟩ := h.left
  obtain ⟨s', hs', -, rfl⟩ := h.right
  exact ⟨hs.read_headD, hs'.read_headD⟩

theorem FirstDifference.before (h : FirstDifference a b p x y) {i : Nat} (hi : i < p.length) :
    ∃ c, c ≠ 0 ∧ a.read i = some c ∧ b.read i = some c := by
  obtain ⟨s, -, hs, -⟩ := h.left
  obtain ⟨s', -, hs', -⟩ := h.right
  obtain ⟨ha, hne⟩ := CString.read_before hs hi
  exact ⟨p[i], hne, ha, (CString.read_before hs' hi).1⟩

/-- There is one first difference. -/
theorem FirstDifference.sameHalf_iff (h : FirstDifference a b p x y) :
    SameHalf a b ↔ (x.toNat < 128 ↔ y.toNat < 128) := by
  obtain ⟨ha, hb⟩ := h.reads
  constructor
  · intro hsame
    refine hsame p.length x y ha hb (fun j hj => ?_) h.ne
    obtain ⟨c, -, hca, hcb⟩ := h.before hj
    rw [hca, hcb]
  · intro hhalf i x' y' hx hy hbefore hne
    rcases Nat.lt_trichotomy i p.length with hlt | heq | hgt
    · obtain ⟨c, -, hca, hcb⟩ := h.before hlt
      rw [hca] at hx
      rw [hcb] at hy
      exact absurd (Option.some.inj (hx.symm.trans hy)) hne
    · subst heq
      rw [ha] at hx
      rw [hb] at hy
      cases hx
      cases hy
      exact hhalf
    · have heq := hbefore p.length hgt
      rw [ha, hb] at heq
      exact absurd (Option.some.inj heq) h.ne

theorem FirstDifference.ne_chars (h : FirstDifference a b p x y) : a.chars ≠ b.chars := by
  intro heq
  obtain ⟨ha, hb⟩ := h.reads
  rw [CString.read, heq, ← CString.read, hb] at ha
  exact h.ne (Option.some.inj ha).symm

theorem append_lt_append_iff {s s' : List (BitVec 8)} : ∀ p : List (BitVec 8), p ++ s < p ++ s' ↔ s < s'
  | [] => Iff.rfl
  | c :: p => by
    rw [List.cons_append, List.cons_append, List.cons_lt_cons_self]
    exact append_lt_append_iff p

/-- Which string comes first. -/
theorem FirstDifference.lt_iff (h : FirstDifference a b p x y) : a.chars < b.chars ↔ x.toNat < y.toNat := by
  obtain ⟨s, hat, hs, rfl⟩ := h.left
  obtain ⟨s', hat', hs', rfl⟩ := h.right
  have hne := h.ne
  rw [hs, hs', append_lt_append_iff]
  cases s with
  | nil =>
    cases s' with
    | nil => exact absurd rfl hne
    | cons y s' =>
      have hy : y.toNat ≠ 0 := fun h0 => hat'.ne_nul y List.mem_cons_self (BitVec.eq_of_toNat_eq h0)
      exact iff_of_true (List.nil_lt_cons y s') (Nat.pos_of_ne_zero hy)
  | cons x s =>
    cases s' with
    | nil => exact iff_of_false (List.not_lt_nil _) (Nat.not_lt_zero _)
    | cons y s' =>
      rw [List.cons_lt_cons_iff]
      exact or_iff_left fun heq => hne heq.1

/-! ## The loops -/

theorem FirstDifference.strcmpLoop (h : FirstDifference a b p x y) : ∀ {turns i : Nat}, i ≤ p.length →
    p.length - i < turns → ShawnOS.strcmpLoop a b turns i = some (x.toInt - y.toInt)
  | 0, _, _, ht => absurd ht (Nat.not_lt_zero _)
  | turns + 1, i, hi, ht => by
    rw [ShawnOS.strcmpLoop]
    by_cases hend : i = p.length
    · subst hend
      obtain ⟨ha, hb⟩ := h.reads
      simp [ha, hb, h.ne]
    · obtain ⟨c, hc, ha, hb⟩ := h.before (show i < p.length by omega)
      have hrest := @strcmpLoop h turns (i + 1) (by omega) (by omega)
      have hc' : ¬ c = 0#8 := hc
      simp [ha, hb, hc', hrest]

theorem FirstDifference.memcmp (h : FirstDifference a b p x y) : ∀ {rem i : Nat}, i ≤ p.length → p.length - i < rem →
    ShawnOS.memcmp a b rem i = some (if x.toNat < y.toNat then -1 else 1)
  | 0, _, _, ht => absurd ht (Nat.not_lt_zero _)
  | rem + 1, i, hi, ht => by
    rw [ShawnOS.memcmp]
    by_cases hend : i = p.length
    · subst hend
      obtain ⟨ha, hb⟩ := h.reads
      have hne : x.toNat ≠ y.toNat := fun he => h.ne (BitVec.eq_of_toNat_eq he)
      simp only [ha, hb, bind, Option.bind_some]
      split
      · rfl
      · rw [if_pos (by omega)]
    · obtain ⟨c, -, ha, hb⟩ := h.before (show i < p.length by omega)
      have hrest := @memcmp h rem (i + 1) (by omega) (by omega)
      simp [ha, hb, hrest]

/-- A string and itself. -/
theorem strcmpLoop_self : ∀ {turns i : Nat} {l : List (BitVec 8)}, a.At i l → l.length < turns →
    strcmpLoop a a turns i = some 0
  | 0, _, _, _, ht => absurd ht (Nat.not_lt_zero _)
  | turns + 1, i, [], hat, _ => by simp [strcmpLoop, hat.read_nil]
  | turns + 1, i, c :: l, hat, ht => by
    have hc : ¬ c = 0#8 := hat.ne_nul c List.mem_cons_self
    have hrest := strcmpLoop_self hat.next (Nat.lt_of_succ_lt_succ ht)
    simp [strcmpLoop, hat.read_cons, hc, hrest]

theorem memcmp_self : ∀ {rem i : Nat}, i + rem ≤ a.chars.length + 1 → memcmp a a rem i = some 0
  | 0, _, _ => rfl
  | rem + 1, i, h => by
    obtain ⟨c, hc⟩ : ∃ c, a.read i = some c := by
      rw [CString.read]
      exact ⟨_, List.getElem?_eq_getElem (by rw [List.length_append, List.length_singleton]; omega)⟩
    have hrest := @memcmp_self rem (i + 1) (by omega)
    simp [memcmp, hc, hrest]

/-- A plain `char` is signed. -/
theorem toInt_char (x : BitVec 8) : x.toInt = if x.toNat < 128 then (x.toNat : Int) else x.toNat - 256 := by
  have hx := x.isLt
  rw [BitVec.toInt_eq_toNat_cond]
  split <;> split <;> omega

/-- The two differences have the same sign on either side of 128 only. -/
theorem sign_sub_eq_iff {x y : BitVec 8} (hne : x ≠ y) :
    (x.toInt - y.toInt).sign = (if x.toNat < y.toNat then -1 else 1 : Int).sign ↔ (x.toNat < 128 ↔ y.toNat < 128) := by
  have hne' : x.toNat ≠ y.toNat := fun he => hne (BitVec.eq_of_toNat_eq he)
  have hx := x.isLt; have hy := y.isLt
  split
  · rw [Int.sign_neg_one, Int.sign_eq_neg_one_iff_neg, toInt_char x, toInt_char y]
    split <;> split <;> omega
  · rw [Int.sign_one, Int.sign_eq_one_iff_pos, toInt_char x, toInt_char y]
    split <;> split <;> omega

/-! ## The comparison -/

/-- By what the two return. -/
theorem strcmpRight_of_returns {r s : Int} (hr : strcmp a b = some r)
    (hs : memcmp a b (min a.chars.length b.chars.length + 1) 0 = some s) :
    StrcmpRight a b ↔ r.sign = s.sign ∧ (r = 0 ↔ a.chars = b.chars) ∧ (r < 0 ↔ a.chars < b.chars) := by
  constructor
  · intro hright
    obtain ⟨la, lb, r', s', hal, hbl, hr', hs', hsign⟩ := hright.memcmp
    rw [a.strlen_eq] at hal
    rw [b.strlen_eq] at hbl
    cases hal
    cases hbl
    rw [hr] at hr'
    rw [hs] at hs'
    cases hr'
    cases hs'
    exact ⟨hsign, hright.equal r hr, hright.order r hr⟩
  · intro ⟨hsign, hequal, horder⟩
    refine ⟨⟨_, _, r, s, a.strlen_eq, b.strlen_eq, hr, hs, hsign⟩, fun r' hr' => ?_, fun r' hr' => ?_⟩
    · obtain rfl : r = r' := Option.some.inj (hr.symm.trans hr')
      exact hequal
    · obtain rfl : r = r' := Option.some.inj (hr.symm.trans hr')
      exact horder

theorem FirstDifference.right_iff (h : FirstDifference a b p x y) : StrcmpRight a b ↔ SameHalf a b := by
  obtain ⟨s, -, hs, -⟩ := h.left
  obtain ⟨s', -, hs', -⟩ := h.right
  have hla : p.length ≤ a.chars.length := by rw [hs, List.length_append]; omega
  have hlb : p.length ≤ b.chars.length := by rw [hs', List.length_append]; omega
  have hstrcmp : strcmp a b = some (x.toInt - y.toInt) := h.strcmpLoop (Nat.zero_le _) (by omega)
  have hmemcmp := @FirstDifference.memcmp _ _ _ _ _ h (min a.chars.length b.chars.length + 1) 0 (Nat.zero_le _) (by omega)
  rw [strcmpRight_of_returns hstrcmp hmemcmp, h.sameHalf_iff, ← sign_sub_eq_iff h.ne, h.lt_iff]
  refine ⟨fun hright => hright.1, fun hsign => ⟨hsign, iff_of_false (fun h0 => ?_) h.ne_chars, ?_⟩⟩
  · rw [h0] at hsign
    split at hsign <;> cases hsign
  · rw [← Int.sign_eq_neg_one_iff_neg, hsign]
    split <;> simp_all

/-- **When `strcmp` agrees with `memcmp`**: exactly when the first different
bytes, NUL included, lie on the same side of 128. -/
theorem strcmp_right_iff (a b : CString) : StrcmpRight a b ↔ SameHalf a b := by
  rcases equal_or_firstDifference a b with heq | ⟨p, x, y, h⟩
  · obtain rfl : a = b := by
      cases a
      cases b
      cases heq
      rfl
    have hstrcmp : strcmp a a = some 0 := strcmpLoop_self a.at_zero (Nat.lt_succ_self _)
    have hmemcmp : memcmp a a (min a.chars.length a.chars.length + 1) 0 = some 0 := memcmp_self (by omega)
    rw [strcmpRight_of_returns hstrcmp hmemcmp]
    refine iff_of_true ⟨rfl, iff_of_true rfl rfl, iff_of_false (by omega) (List.lt_irrefl _)⟩ fun i x y hx hy _ hne => ?_
    rw [hx] at hy
    exact absurd (Option.some.inj hy) hne
  · exact h.right_iff

/-- `"\x80"` and `"a"`. -/
theorem strcmp_above_127 : strcmp ⟨[0x80], by decide⟩ ⟨[0x61], by decide⟩ = some (-225) ∧
    ¬ StrcmpRight ⟨[0x80], by decide⟩ ⟨[0x61], by decide⟩ := by
  have hstrcmp : strcmp ⟨[0x80], by decide⟩ ⟨[0x61], by decide⟩ = some (-225) := by decide
  exact ⟨hstrcmp, fun h => absurd ((h.order _ hstrcmp).mp (by decide)) (by decide)⟩

end ShawnOS
