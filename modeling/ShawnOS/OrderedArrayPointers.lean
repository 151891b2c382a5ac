/-
The default comparator of the ordered array (`kernel/ordered_array.c`).

`comparator_default` subtracts two addresses as words and reads the
difference as signed. Where they are less than `2^31` apart this is their
order, and the search of `ordered_array_insert` finds the first object that
is not below. Further apart the sign is the wrong one, and the order goes
round: it is neither antisymmetric nor transitive.
-/
import ShawnOS.OrderedArray

namespace ShawnOS

/-- `void *`. -/
abbrev Pointer := BitVec 32

/-- `comparator_default`. -/
def comparatorDefault (a b : Pointer) : Int := (a - b).toInt

/-- Negative, zero or positive as `a` is below, equal to or above `b`. -/
structure Compares (a b : Pointer) : Prop where
  below : comparatorDefault a b < 0 ↔ a.toNat < b.toNat
  equal : comparatorDefault a b = 0 ↔ a = b
  above : 0 < comparatorDefault a b ↔ b.toNat < a.toNat

/-- The pointers of `S` are in the total order of their addresses, and the
search of `ordered_array_insert` splits a sorted array of them. -/
structure OrdersPointers (S : Set Pointer) : Prop where
  compares : ∀ a ∈ S, ∀ b ∈ S, Compares a b
  swap : ∀ a ∈ S, ∀ b ∈ S, comparatorDefault a b < 0 ↔ 0 < comparatorDefault b a
  antisymm : ∀ a ∈ S, ∀ b ∈ S, comparatorDefault a b ≤ 0 → comparatorDefault b a ≤ 0 → a = b
  trans : ∀ a ∈ S, ∀ b ∈ S, ∀ c ∈ S, comparatorDefault a b ≤ 0 → comparatorDefault b c ≤ 0 → comparatorDefault a c ≤ 0
  search : ∀ arr : OrderedArray Pointer, arr.comparator = comparatorDefault → (∀ k, k < arr.size → arr.array k ∈ S) →
    arr.Sorted → ∀ object ∈ S, ∀ k, k < arr.size →
      (k < orderedArrayPlace arr object arr.size 0 ↔ (arr.array k).toNat < object.toNat)

/-! ## One comparison -/

/-- The difference of the addresses, brought back into an `int32_t`. -/
theorem comparatorDefault_cases (a b : Pointer) :
    (a.toNat < b.toNat + 2 ^ 31 ∧ b.toNat ≤ a.toNat + 2 ^ 31 ∧ comparatorDefault a b = a.toNat - b.toNat) ∨
    (b.toNat + 2 ^ 31 ≤ a.toNat ∧ comparatorDefault a b = a.toNat - b.toNat - 2 ^ 32) ∨
    (a.toNat + 2 ^ 31 < b.toNat ∧ comparatorDefault a b = a.toNat - b.toNat + 2 ^ 32) := by
  have ha := a.isLt; have hb := b.isLt
  rw [comparatorDefault, BitVec.toInt_eq_toNat_cond, BitVec.toNat_sub]
  split <;> omega

/-- **One comparison** is right exactly when the difference fits an
`int32_t`. -/
theorem compares_iff (a b : Pointer) : Compares a b ↔ a.toNat < b.toNat + 2 ^ 31 ∧ b.toNat ≤ a.toNat + 2 ^ 31 := by
  have ha := a.isLt; have hb := b.isLt
  have hcases := comparatorDefault_cases a b
  constructor
  · intro h
    have hbelow := h.below; have habove := h.above
    omega
  · intro h
    refine ⟨by omega, ?_, by omega⟩
    rw [← BitVec.toNat_inj]
    omega

/-- Exchanging the pointers turns the sign round, unless they are `2^31`
apart: then it is negative both ways. -/
theorem comparatorDefault_swap_iff (a b : Pointer) :
    (comparatorDefault a b < 0 ↔ 0 < comparatorDefault b a) ↔
      a.toNat ≠ b.toNat + 2 ^ 31 ∧ b.toNat ≠ a.toNat + 2 ^ 31 := by
  have ha := a.isLt; have hb := b.isLt
  have hab := comparatorDefault_cases a b
  have hba := comparatorDefault_cases b a
  constructor
  · intro h
    omega
  · intro h
    omega

theorem Compares.le_iff {a b : Pointer} (h : Compares a b) : comparatorDefault a b ≤ 0 ↔ a.toNat ≤ b.toNat := by
  have habove := h.above
  omega

/-! ## The order -/

/-- **The search** of `ordered_array_insert`: in a sorted array, the place is
behind the objects below the new one and before the others. -/
theorem orderedArrayPlace_splits {arr : OrderedArray Pointer} (hc : arr.comparator = comparatorDefault) (hs : arr.Sorted)
    {S : Set Pointer} (hS : ∀ a ∈ S, ∀ b ∈ S, Compares a b) (harr : ∀ k, k < arr.size → arr.array k ∈ S)
    {object : Pointer} (hobject : object ∈ S) {k : Nat} (hk : k < arr.size) :
    k < orderedArrayPlace arr object arr.size 0 ↔ (arr.array k).toNat < object.toNat := by
  obtain ⟨hbelow, -, hat⟩ := @orderedArrayPlace_spec Pointer arr object arr.size 0 fun k hk => absurd hk (Nat.not_lt_zero k)
  rw [hc] at hbelow hat
  generalize orderedArrayPlace arr object arr.size 0 = i at *
  constructor
  · intro hki
    exact (hS _ (harr k hk) object hobject).below.mp (hbelow k hki)
  · intro hlt
    by_contra hge
    have hi : i < arr.size := by omega
    -- The object at the place is not below the new one, nor is any behind it.
    have hplace := hat (by omega)
    have hnot := (hS _ (harr i hi) object hobject).below
    have hle : (arr.array i).toNat ≤ (arr.array k).toNat := by
      rcases Nat.eq_or_lt_of_le (Nat.not_lt.mp hge) with rfl | hik
      · exact Nat.le_refl _
      · have hsorted := hs i k hik hk
        rw [hc] at hsorted
        exact (hS _ (harr i hi) _ (harr k hk)).le_iff.mp hsorted
    omega

/-- Less than `2^31` apart, the pointers are in order. -/
theorem OrdersPointers.of_close {S : Set Pointer} (h : ∀ a ∈ S, ∀ b ∈ S, a.toNat < b.toNat + 2 ^ 31) :
    OrdersPointers S := by
  have hcompares : ∀ a ∈ S, ∀ b ∈ S, Compares a b := fun a ha b hb =>
    (compares_iff a b).mpr ⟨h a ha b hb, Nat.le_of_lt (h b hb a ha)⟩
  refine ⟨hcompares, fun a ha b hb => ?_, fun a ha b hb hab hba => ?_, fun a ha b hb c hc hab hbc => ?_,
    fun arr hdefault harr hs object hobject k hk => orderedArrayPlace_splits hdefault hs hcompares harr hobject hk⟩
  · rw [comparatorDefault_swap_iff]
    exact ⟨Nat.ne_of_lt (h a ha b hb), Nat.ne_of_lt (h b hb a ha)⟩
  · rw [(hcompares a ha b hb).le_iff] at hab
    rw [(hcompares b hb a ha).le_iff] at hba
    exact BitVec.toNat_inj.mp (Nat.le_antisymm hab hba)
  · rw [(hcompares a ha b hb).le_iff] at hab
    rw [(hcompares b hb c hc).le_iff] at hbc
    rw [(hcompares a ha c hc).le_iff]
    exact Nat.le_trans hab hbc

/-- So are all below `KVIRT_MAX`, where `asa_alloc` takes its pages from. -/
theorem ordersPointers_kvirt : OrdersPointers {p | p.toNat < kvirtMax} :=
  .of_close fun a ha b _ => by
    have hlt : a.toNat < kvirtMax := ha
    unfold kvirtMax at hlt
    omega

/-- **When `comparator_default` is a total order on pointers.** One
comparison is right exactly when the difference of the addresses fits an
`int32_t`; the comparisons of a set of pointers are, and with them the order
and the search, exactly when any two are less than `2^31` apart. -/
theorem comparator_default_orders_iff (a b : Pointer) (S : Set Pointer) :
    (Compares a b ↔ a.toNat < b.toNat + 2 ^ 31 ∧ b.toNat ≤ a.toNat + 2 ^ 31) ∧
    (OrdersPointers S ↔ ∀ a ∈ S, ∀ b ∈ S, a.toNat < b.toNat + 2 ^ 31) := by
  refine ⟨compares_iff a b, fun h a ha b hb => ?_, .of_close⟩
  exact ((compares_iff a b).mp (h.compares a ha b hb)).1

/-- A device at `0xFEE00000` comes out below the first page of the heap; two
pointers `2^31` apart are each below the other; and three less far apart each
below the next, with the first above the last. -/
theorem comparator_default_misorders :
    comparatorDefault 0xFEE00000 0x17C000 < 0 ∧
    (comparatorDefault 0 0x80000000 < 0 ∧ comparatorDefault 0x80000000 0 < 0) ∧
    (comparatorDefault 0 0x60000000 < 0 ∧ comparatorDefault 0x60000000 0xC0000000 < 0 ∧
      0 < comparatorDefault 0 0xC0000000) ∧
    ¬ OrdersPointers Set.univ := by
  have hdevice : comparatorDefault 0xFEE00000 0x17C000 < 0 := by decide
  refine ⟨hdevice, by decide, by decide, fun h => ?_⟩
  have hbelow := (h.compares 0xFEE00000 trivial 0x17C000 trivial).below.mp hdevice
  exact absurd hbelow (by decide)

end ShawnOS
