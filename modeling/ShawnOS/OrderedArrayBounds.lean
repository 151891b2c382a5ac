/-
The bounds of the ordered array: `ordered_array_get` and
`ordered_array_remove` at every index, and the slots they touch.

Both refuse an index above `size` but not `size` itself. There `get` returns
what lies behind the objects, and `remove` takes the last object off, or
makes the size of an empty array `2^32 - 1`. Inside, `remove` moves the slot
behind the objects down with them, which a full array does not have.
-/
import ShawnOS.OrderedArray
import ShawnOS.Lib.Touched

namespace ShawnOS

open Word32 Touched

variable {α : Type}

/-- `ordered_array_get`, with `0` for `NULL`. -/
def orderedArrayGet [Zero α] (a : OrderedArray α) (index : Nat) : α × Logged Nat α :=
  if index > a.size then (0, .start a.array) else (Logged.start a.array).read index

/-- The loop of `ordered_array_remove`, recording the slots. -/
def orderedArrayCloseLogged : (rem index : Nat) → Logged Nat α → Logged Nat α
  | 0, _, l => l
  | rem + 1, index, l =>
    let (object, l) := l.read (index + 1)
    orderedArrayCloseLogged rem (index + 1) (l.write index object)

/-- `ordered_array_remove`, recording the slots. -/
def orderedArrayRemoveLogged (a : OrderedArray α) (index : Nat) : Bool × OrderedArray α × Logged Nat α :=
  if index > a.size then (false, a, .start a.array)
  else
    let l := orderedArrayCloseLogged (a.size - index) index (.start a.array)
    (true, { a with array := l.cells, size := sub32 a.size 1 }, l)

/-- What a caller of `ordered_array_get` relies on. -/
structure GetRight [Zero α] (a : OrderedArray α) (index : Nat) : Prop where
  inside : index < a.size → (orderedArrayGet a index).1 = a.array index
  outside : a.size ≤ index → (orderedArrayGet a index).1 = 0
  slots : (orderedArrayGet a index).2.Within (· < a.maxSize)

/-- What a caller of `ordered_array_remove` relies on. -/
structure RemoveRight (a : OrderedArray α) (index : Nat) : Prop where
  inside : index < a.size → (orderedArrayRemove a index).1 = true ∧
    (orderedArrayRemove a index).2.objects = a.objects.eraseIdx index
  outside : a.size ≤ index → orderedArrayRemove a index = (false, a)
  slots : (orderedArrayRemoveLogged a index).2.2.Within (· < a.maxSize)
  size : (orderedArrayRemove a index).2.size ≤ a.size

theorem orderedArrayCloseLogged_cells : ∀ {rem index : Nat} (l : Logged Nat α),
    (orderedArrayCloseLogged rem index l).cells = orderedArrayClose rem index l.cells
  | 0, _, _ => rfl
  | rem + 1, index, l => by
    rw [orderedArrayCloseLogged, orderedArrayClose, orderedArrayCloseLogged_cells]
    simp

/-- Recording changes nothing. -/
theorem orderedArrayRemoveLogged_eq (a : OrderedArray α) (index : Nat) :
    ((orderedArrayRemoveLogged a index).1, (orderedArrayRemoveLogged a index).2.1) = orderedArrayRemove a index := by
  unfold orderedArrayRemoveLogged orderedArrayRemove
  split
  · rfl
  · simp [orderedArrayCloseLogged_cells]

/-- The loop touches the slots up to the one behind the last object. -/
theorem orderedArrayCloseLogged_within {n : Nat} : ∀ {rem index : Nat} {l : Logged Nat α},
    (orderedArrayCloseLogged rem index l).Within (· < n) ↔ l.Within (· < n) ∧ (rem = 0 ∨ index + rem < n)
  | 0, _, l => by simp [orderedArrayCloseLogged]
  | rem + 1, index, l => by
    rw [orderedArrayCloseLogged, orderedArrayCloseLogged_within]
    simp
    grind

/-- **`ordered_array_get`** is right except at `size`, where it is right only
if there is a slot, and `NULL` in it. -/
theorem getRight_iff [Zero α] {a : OrderedArray α} {index : Nat} (hle : a.size ≤ a.maxSize) :
    GetRight a index ↔ (index = a.size → a.size < a.maxSize ∧ a.array a.size = 0) := by
  constructor
  · intro h hindex
    subst hindex
    have hout := h.outside le_rfl
    have hslots := h.slots
    rw [orderedArrayGet, if_neg (Nat.lt_irrefl _)] at hout hslots
    simp at hout hslots
    exact ⟨hslots, hout⟩
  · intro h
    refine ⟨fun hlt => ?_, fun hge => ?_, ?_⟩
    · rw [orderedArrayGet, if_neg (by omega)]
      rfl
    · unfold orderedArrayGet
      split
      · rfl
      · have hindex : index = a.size := by omega
        rw [hindex]
        exact (h hindex).2
    · unfold orderedArrayGet
      split
      · simp
      · simp only [within_read, within_start, and_true]
        by_cases hindex : index = a.size
        · rw [hindex]
          exact (h hindex).1
        · omega

/-- **`ordered_array_remove`** is right above `size`, and inside an array
that is not full. -/
theorem removeRight_iff {a : OrderedArray α} {index : Nat} (hle : a.size ≤ a.maxSize) (hmax : a.maxSize < 2 ^ 32) :
    RemoveRight a index ↔ a.size < index ∨ (index < a.size ∧ a.size < a.maxSize) := by
  rcases Nat.lt_trichotomy index a.size with hlt | heq | hgt
  · have hsub : sub32 a.size 1 = a.size - 1 := sub32_of_le (by omega) (by omega)
    have hslots : (orderedArrayRemoveLogged a index).2.2.Within (· < a.maxSize) ↔ a.size < a.maxSize := by
      rw [orderedArrayRemoveLogged, if_neg (by omega), orderedArrayCloseLogged_within]
      simp
      omega
    constructor
    · intro h
      exact .inr ⟨hlt, hslots.mp h.slots⟩
    · intro h
      refine ⟨fun _ => ?_, fun _ => by omega, hslots.mpr (by omega), ?_⟩
      · rw [orderedArrayRemove, if_neg (by omega)]
        refine ⟨rfl, ?_⟩
        have hclose := @firstN_close α a.array (orderedArrayClose (a.size - index) index a.array) index (a.size - 1)
          (by omega) fun k hk => by
            have hcond : (index ≤ k ∧ k < index + (a.size - index)) ↔ index ≤ k := by omega
            rw [orderedArrayClose_eq]
            simp only [hcond]
        rw [Nat.sub_add_cancel (by omega)] at hclose
        simp only [OrderedArray.objects, hsub]
        exact hclose
      · rw [orderedArrayRemove, if_neg (by omega), hsub]
        dsimp only
        omega
  · subst heq
    refine iff_of_false (fun h => ?_) (by omega)
    have hout := congrArg Prod.fst (h.outside le_rfl)
    rw [orderedArrayRemove, if_neg (Nat.lt_irrefl _)] at hout
    simp at hout
  · refine iff_of_true ⟨fun _ => by omega, fun _ => ?_, ?_, ?_⟩ (.inl hgt)
    · rw [orderedArrayRemove, if_pos hgt]
    · rw [orderedArrayRemoveLogged, if_pos hgt]
      simp
    · rw [orderedArrayRemove, if_pos hgt]

/-- **Ordered array bounds**, of both. -/
theorem ordered_array_bounds_iff [Zero α] {a : OrderedArray α} {index : Nat} (hle : a.size ≤ a.maxSize)
    (hmax : a.maxSize < 2 ^ 32) :
    (GetRight a index ↔ (index = a.size → a.size < a.maxSize ∧ a.array a.size = 0)) ∧
    (RemoveRight a index ↔ a.size < index ∨ (index < a.size ∧ a.size < a.maxSize)) :=
  ⟨getRight_iff hle, removeRight_iff hle hmax⟩

/-- Two numbers in a full array, or with room behind them. -/
def twoNumbers (maxSize : Nat) : OrderedArray Nat := ⟨fun i => i + 1, 2, maxSize, byValue⟩

theorem ordered_array_bounds_first : GetRight (twoNumbers 4) 0 ∧ RemoveRight (twoNumbers 4) 0 :=
  have h := @ordered_array_bounds_iff Nat _ (twoNumbers 4) 0 (by decide) (by decide)
  ⟨h.1.mpr (by decide), h.2.mpr (by decide)⟩

/-- A full array is read behind its end, and removing from an empty one
leaves a size of `2^32 - 1`. -/
theorem ordered_array_leaves_bounds : ¬ RemoveRight (twoNumbers 2) 0 ∧ ¬ GetRight (twoNumbers 2) 2 ∧
    orderedArrayRemove { twoNumbers 2 with size := 0 } 0 = (true, { twoNumbers 2 with size := 2 ^ 32 - 1 }) := by
  refine ⟨fun h => ?_, fun h => ?_, rfl⟩
  · exact absurd (h.slots 2 (by decide)) (by decide)
  · exact absurd (h.slots 2 (by decide)) (by decide)

end ShawnOS
