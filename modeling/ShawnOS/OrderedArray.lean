/-
The ordered array (`kernel/ordered_array.c`).

Removing keeps the array sorted and loses only what it removes. Inserting
does so at the end: elsewhere the loop that should make room runs the wrong
way. Below the last element it moves nothing, and the element at the place
is overwritten; at the last element it moves the whole array up.
-/
import ShawnOS.Kernel
import ShawnOS.Lib.Traces
import Mathlib.Data.List.Perm.Basic

namespace ShawnOS

open Word32 Traces

variable {α : Type}

/-- `struct ordered_array`; `array` is the memory from its address on. -/
structure OrderedArray (α : Type) where
  array : Nat → α
  size : Nat
  maxSize : Nat
  comparator : α → α → Int

/-- The search of `ordered_array_insert`, with `rem` objects left from `i`
on: the first one not below `object`. -/
def orderedArrayPlace (a : OrderedArray α) (object : α) : (rem i : Nat) → Nat
  | 0, i => i
  | rem + 1, i => if a.comparator (a.array i) object ≥ 0 then i else orderedArrayPlace a object rem (i + 1)

/-- `for (j=array->size-1; j <= i; j--)`, from `j` on. `fuel` bounds the
rounds. -/
def orderedArrayShift (i : Nat) : (fuel j : Nat) → (Nat → α) → Option (Nat → α)
  | 0, _, _ => none
  | fuel + 1, j, array =>
    if j ≤ i then orderedArrayShift i fuel (sub32 j 1) (Function.update array (u32 (j + 1)) (array j))
    else some array

/-- `ordered_array_insert`; nothing if its loop did not end. -/
def orderedArrayInsert (a : OrderedArray α) (object : α) : Option (Bool × OrderedArray α) :=
  if a.size ≥ a.maxSize then some (false, a)
  else
    let i := orderedArrayPlace a object a.size 0
    if i ≠ a.size then do
      let array ← orderedArrayShift i (a.size + 1) (sub32 a.size 1) a.array
      pure (true, { a with array := Function.update array i object, size := u32 (a.size + 1) })
    else some (true, { a with array := Function.update a.array a.size object, size := u32 (a.size + 1) })

/-- The loop of `ordered_array_remove`, with `rem` objects left from `index`
on. -/
def orderedArrayClose : (rem index : Nat) → (Nat → α) → Nat → α
  | 0, _, array => array
  | rem + 1, index, array => orderedArrayClose rem (index + 1) (Function.update array index (array (index + 1)))

/-- `ordered_array_remove`. -/
def orderedArrayRemove (a : OrderedArray α) (index : Nat) : Bool × OrderedArray α :=
  if index > a.size then (false, a)
  else (true, { a with array := orderedArrayClose (a.size - index) index a.array, size := sub32 a.size 1 })

/-! ## Runs -/

/-- `array[0..size)`. -/
def OrderedArray.objects (a : OrderedArray α) : List α := (List.range a.size).map a.array

/-- The array, and the objects inserted and not removed. -/
structure ArrayRun (α : Type) where
  arr : OrderedArray α
  kept : List α

/-- A call. -/
inductive ArrayCall (α : Type) where
  | insert (object : α)
  | remove (index : Nat)

/-- One call. -/
def arrayStep [DecidableEq α] (t : ArrayRun α) : ArrayCall α → Option (ArrayRun α)
  | .insert object => do
    let (ok, arr) ← orderedArrayInsert t.arr object
    pure ⟨arr, if ok then object :: t.kept else t.kept⟩
  | .remove index =>
    let (ok, arr) := orderedArrayRemove t.arr index
    some ⟨arr, if ok then t.kept.erase (t.arr.array index) else t.kept⟩

/-- A comparator of a total preorder. -/
structure TotalPreorder (comparator : α → α → Int) : Prop where
  swap : ∀ a b, comparator a b ≤ 0 ↔ 0 ≤ comparator b a
  trans : ∀ a b c, comparator a b ≤ 0 → comparator b c ≤ 0 → comparator a c ≤ 0

/-- The array is sorted. -/
def OrderedArray.Sorted (a : OrderedArray α) : Prop :=
  ∀ j k, j < k → k < a.size → a.comparator (a.array j) (a.array k) ≤ 0

/-- The array is sorted and holds what was inserted and not removed. -/
def ArrayRight (t : ArrayRun α) : Prop := t.arr.Sorted ∧ t.arr.objects.Perm t.kept

/-- Only objects in the array are removed. -/
def ArrayAllowed (t : ArrayRun α) : ArrayCall α → Prop
  | .insert _ => True
  | .remove index => index < t.arr.size

/-- The array is full, or the object goes to the end; or to the last place,
with the object before it equal to the first; or further down, with the slot
behind the array equal to the object there, and not below the last. -/
def InsertRight (t : ArrayRun α) : ArrayCall α → Prop
  | .insert object =>
    let i := orderedArrayPlace t.arr object t.arr.size 0
    t.arr.maxSize ≤ t.arr.size ∨ i = t.arr.size ∨
    (i + 1 = t.arr.size ∧ t.arr.array (i - 1) = t.arr.array 0) ∨
    (i + 1 < t.arr.size ∧ t.arr.array t.arr.size = t.arr.array i ∧
      t.arr.comparator (t.arr.array (t.arr.size - 1)) (t.arr.array i) ≤ 0)
  | .remove _ => True

/-! ## The loops -/

/-- Everything before the place is below the object, and what is at the place
is not. -/
theorem orderedArrayPlace_spec (a : OrderedArray α) (object : α) :
    ∀ {rem i : Nat}, (∀ k, k < i → a.comparator (a.array k) object < 0) →
      (∀ k, k < orderedArrayPlace a object rem i → a.comparator (a.array k) object < 0) ∧
      orderedArrayPlace a object rem i ≤ i + rem ∧
      (orderedArrayPlace a object rem i < i + rem →
        0 ≤ a.comparator (a.array (orderedArrayPlace a object rem i)) object) := by
  intro rem
  induction rem with
  | zero => intro i h; exact ⟨h, Nat.le_refl i, fun h0 => absurd h0 (Nat.lt_irrefl i)⟩
  | succ rem ih =>
    intro i h
    rw [orderedArrayPlace]
    split
    · next hge => exact ⟨h, by omega, fun _ => hge⟩
    · next hlt =>
      obtain ⟨h1, h2, h3⟩ := @ih (i + 1) fun k hk => by
        rcases Nat.lt_succ_iff_lt_or_eq.mp hk with hk | rfl
        · exact h k hk
        · omega
      exact ⟨h1, by omega, fun h0 => h3 (by omega)⟩

/-- Below the last object the loop does nothing. -/
theorem orderedArrayShift_below {i j : Nat} (h : i < j) (fuel : Nat) (array : Nat → α) :
    orderedArrayShift i (fuel + 1) j array = some array := by
  rw [orderedArrayShift, if_neg (by omega)]

/-- From `j` down to 0, everything moves up by one. -/
theorem orderedArrayShift_all {i : Nat} (hi : i < 2 ^ 32 - 1) :
    ∀ {fuel j : Nat} (array : Nat → α), j ≤ i → j < fuel →
      ∃ array', orderedArrayShift i (fuel + 1) j array = some array' ∧
        ∀ k, array' k = if 1 ≤ k ∧ k ≤ j + 1 then array (k - 1) else array k := by
  intro fuel
  induction fuel with
  | zero => intro j array _ h; omega
  | succ fuel ih =>
    intro j array hj hfuel
    rw [orderedArrayShift, if_pos hj, u32_of_lt (by omega)]
    cases j with
    | zero =>
      have hwrap : sub32 0 1 = 2 ^ 32 - 1 := by decide
      rw [hwrap, orderedArrayShift_below (by omega)]
      refine ⟨_, rfl, fun k => ?_⟩
      by_cases hk : k = 1
      · subst hk
        simp
      · rw [Function.update_of_ne (by omega), if_neg (by omega)]
    | succ j =>
      have hsub : sub32 (j + 1) 1 = j := sub32_of_le (by omega) (by omega)
      rw [hsub]
      obtain ⟨array', he, hall⟩ := @ih j (Function.update array (j + 1 + 1) (array (j + 1))) (by omega) (by omega)
      refine ⟨array', he, fun k => ?_⟩
      rw [hall k]
      by_cases hk : k = j + 1 + 1
      · subst hk
        rw [if_neg (by omega), Function.update_self, if_pos (by omega)]
        rfl
      · split
        · rw [Function.update_of_ne (by omega), if_pos (by omega)]
        · rw [Function.update_of_ne hk, if_neg (by omega)]

theorem orderedArrayClose_eq : ∀ {rem index : Nat} (array : Nat → α) (k : Nat),
    orderedArrayClose rem index array k = if index ≤ k ∧ k < index + rem then array (k + 1) else array k := by
  intro rem
  induction rem with
  | zero => intro index array k; rw [orderedArrayClose, if_neg (by omega)]
  | succ rem ih =>
    intro index array k
    rw [orderedArrayClose, ih]
    by_cases hk : k = index
    · subst hk
      rw [if_neg (by omega), Function.update_self, if_pos (by omega)]
    · split
      · rw [Function.update_of_ne (by omega), if_pos (by omega)]
      · rw [Function.update_of_ne hk, if_neg (by omega)]

/-! ## The first objects of a memory -/

/-- `array[0..n)`. -/
def firstN (array : Nat → α) (n : Nat) : List α := (List.range n).map array

theorem firstN_succ (array : Nat → α) (n : Nat) : firstN array (n + 1) = firstN array n ++ [array n] := by
  simp [firstN, List.range_succ]

theorem firstN_congr {f g : Nat → α} {n : Nat} (h : ∀ k, k < n → f k = g k) : firstN f n = firstN g n :=
  List.map_congr_left fun k hk => h k (List.mem_range.mp hk)

theorem firstN_shifted {f g : Nat → α} {n : Nat} (h : ∀ k, k < n → g (k + 1) = f k) :
    firstN g (n + 1) = g 0 :: firstN f n := by
  rw [firstN, List.range_succ_eq_map, List.map_cons, List.map_map]
  congr 1
  exact List.map_congr_left fun k hk => h k (List.mem_range.mp hk)

/-- Overwriting one object exchanges it. -/
theorem firstN_update_perm (array : Nat → α) (x : α) : ∀ {n i : Nat}, i < n →
    (array i :: firstN (Function.update array i x) n).Perm (x :: firstN array n)
  | n + 1, i, h => by
    rw [firstN_succ, firstN_succ]
    by_cases hi : i = n
    · subst hi
      rw [firstN_congr fun k hk => Function.update_of_ne (Nat.ne_of_lt hk) _ _, Function.update_self]
      exact (List.perm_append_singleton _ _).symm.trans
        ((List.perm_append_comm.append_right [array i]).trans (by simp))
    · rw [Function.update_of_ne (Ne.symm hi)]
      exact (firstN_update_perm array x (show i < n by omega)).append_right [array n]

/-- Closing the gap drops the object there and keeps the others in order. -/
theorem firstN_close {array closed : Nat → α} {index : Nat} : ∀ {n : Nat}, index ≤ n →
    (∀ k, k < n → closed k = if index ≤ k then array (k + 1) else array k) →
    firstN closed n = (firstN array (n + 1)).eraseIdx index
  | 0, h, _ => by
    rw [show index = 0 by omega]
    rfl
  | n + 1, h, hc => by
    rw [firstN_succ array]
    by_cases hi : index = n + 1
    · have hlen : (firstN array (n + 1)).length = index := by simp [firstN, hi]
      rw [firstN_congr fun k hk => (hc k hk).trans (if_neg (by omega)), ← hlen, List.eraseIdx_append_of_length_le le_rfl]
      simp
    · have hlt : index < (firstN array (n + 1)).length := by
        simp [firstN]
        omega
      rw [firstN_succ closed, hc n (by omega), if_pos (by omega), List.eraseIdx_append_of_lt_length hlt,
        firstN_close (show index ≤ n by omega) fun k hk => hc k (by omega)]

theorem firstN_close_perm {array closed : Nat → α} {index n : Nat} (h : index ≤ n)
    (hc : ∀ k, k < n → closed k = if index ≤ k then array (k + 1) else array k) :
    (array index :: firstN closed n).Perm (firstN array (n + 1)) := by
  have hlt : index < (firstN array (n + 1)).length := by
    simp [firstN]
    omega
  have hobject : (firstN array (n + 1))[index] = array index := by simp [firstN]
  rw [firstN_close h hc, ← hobject]
  exact List.getElem_cons_eraseIdx_perm hlt

theorem cons_perm_iff {x y : α} {l : List α} : (x :: l).Perm (y :: l) ↔ x = y := by
  have h := @List.perm_append_right_iff α [x] [y] l
  rwa [List.singleton_perm_singleton] at h

/-! ## One call -/

/-- The comparator orders and the sizes are words. -/
structure ArrayInv (t : ArrayRun α) : Prop where
  order : TotalPreorder t.arr.comparator
  le : t.arr.size ≤ t.arr.maxSize
  max : t.arr.maxSize < 2 ^ 32

theorem TotalPreorder.refl {comparator : α → α → Int} (h : TotalPreorder comparator) (a : α) :
    comparator a a ≤ 0 := by
  have := h.swap a a
  omega

/-- A sorted array, with equal places allowed. -/
theorem OrderedArray.Sorted.le {a : OrderedArray α} (h : a.Sorted) (ho : TotalPreorder a.comparator) {j k : Nat}
    (hjk : j ≤ k) (hk : k < a.size) : a.comparator (a.array j) (a.array k) ≤ 0 := by
  rcases Nat.eq_or_lt_of_le hjk with rfl | hlt
  · exact ho.refl _
  · exact h j k hlt hk

/-- At the end the object is right. -/
theorem insert_end {t : ArrayRun α} (hr : ArrayRight t) {object : α}
    (hbelow : ∀ k, k < t.arr.size → t.arr.comparator (t.arr.array k) object < 0) :
    ArrayRight ⟨{ t.arr with array := Function.update t.arr.array t.arr.size object, size := t.arr.size + 1 },
      object :: t.kept⟩ := by
  obtain ⟨hsorted, hperm⟩ := hr
  refine ⟨fun j k hjk hk => ?_, ?_⟩
  · simp only at hk ⊢
    rw [Function.update_of_ne (show j ≠ t.arr.size by omega)]
    by_cases hlast : k = t.arr.size
    · rw [hlast, Function.update_self]
      exact Int.le_of_lt (hbelow j (by omega))
    · rw [Function.update_of_ne hlast]
      exact hsorted j k hjk (by omega)
  · show (firstN (Function.update t.arr.array t.arr.size object) (t.arr.size + 1)).Perm (object :: t.kept)
    rw [firstN_succ, Function.update_self,
      firstN_congr fun k hk => Function.update_of_ne (Nat.ne_of_lt hk) _ _]
    exact (List.perm_append_singleton _ _).trans (hperm.cons object)

/-- At the last place everything has moved up by one: the object before the
place is lost, and the first is there twice. -/
theorem insert_last_iff {t : ArrayRun α} (h : ArrayInv t) (hr : ArrayRight t) {object : α} {i : Nat}
    (hi : i + 1 = t.arr.size)
    (hbelow : ∀ k, k < i → t.arr.comparator (t.arr.array k) object < 0)
    (hat : 0 ≤ t.arr.comparator (t.arr.array i) object) {array' : Nat → α}
    (ha : ∀ k, array' k = if 1 ≤ k ∧ k ≤ i + 1 then t.arr.array (k - 1) else t.arr.array k) :
    ArrayRight ⟨{ t.arr with array := Function.update array' i object, size := t.arr.size + 1 },
      object :: t.kept⟩ ↔ t.arr.array (i - 1) = t.arr.array 0 := by
  obtain ⟨hsorted, hperm⟩ := hr
  have hmoved : ∀ k, k ≤ i + 1 → array' k = t.arr.array (k - 1) := by
    intro k hk
    rw [ha k]
    split
    · rfl
    · rw [show k = 0 by omega]
  have hsort : ({ t.arr with
      array := Function.update array' i object, size := t.arr.size + 1 } : OrderedArray α).Sorted := by
    intro j k hjk hk
    simp only at hk ⊢
    by_cases hk' : k = i
    · rw [hk', Function.update_self, Function.update_of_ne (by omega), hmoved j (by omega)]
      exact Int.le_of_lt (hbelow (j - 1) (by omega))
    · rw [Function.update_of_ne hk', hmoved k (by omega)]
      by_cases hj' : j = i
      · rw [hj', Function.update_self, show k - 1 = i by omega]
        exact (h.order.swap _ _).mpr hat
      · rw [Function.update_of_ne hj', hmoved j (by omega)]
        exact hsorted.le h.order (by omega) (by omega)
  -- As a list: the new array and what moved away are the object, the first and the old array.
  have hexchange := firstN_update_perm array' object (show i < t.arr.size + 1 by omega)
  have hshifted : firstN array' (t.arr.size + 1) = t.arr.array 0 :: firstN t.arr.array t.arr.size := by
    rw [firstN_shifted fun k hk => (hmoved (k + 1) (by omega)).trans rfl, hmoved 0 (by omega)]
    rfl
  rw [hshifted, hmoved i (by omega)] at hexchange
  have hall := hexchange.trans ((List.Perm.swap _ _ _).trans ((hperm.cons object).cons _))
  refine Iff.trans (and_iff_right hsort) ?_
  change (firstN (Function.update array' i object) (t.arr.size + 1)).Perm (object :: t.kept) ↔ _
  constructor
  · intro hp
    exact cons_perm_iff.mp ((hp.cons _).symm.trans hall)
  · intro he
    rw [he] at hall
    exact hall.cons_inv

/-- Further down nothing has moved: the object at the place is lost, and
what lay behind the array is in it. -/
theorem insert_below_iff {t : ArrayRun α} (h : ArrayInv t) (hr : ArrayRight t) {object : α} {i : Nat}
    (hi : i + 1 < t.arr.size)
    (hbelow : ∀ k, k < i → t.arr.comparator (t.arr.array k) object < 0)
    (hat : 0 ≤ t.arr.comparator (t.arr.array i) object) :
    ArrayRight ⟨{ t.arr with array := Function.update t.arr.array i object, size := t.arr.size + 1 },
      object :: t.kept⟩ ↔ t.arr.array t.arr.size = t.arr.array i ∧
        t.arr.comparator (t.arr.array (t.arr.size - 1)) (t.arr.array i) ≤ 0 := by
  obtain ⟨hsorted, hperm⟩ := hr
  have hexchange := (firstN_update_perm t.arr.array object (show i < t.arr.size by omega)).trans (hperm.cons object)
  have hlist : (firstN (Function.update t.arr.array i object) (t.arr.size + 1)).Perm (object :: t.kept) ↔
      t.arr.array t.arr.size = t.arr.array i := by
    rw [firstN_succ, Function.update_of_ne (by omega)]
    constructor
    · intro hp
      exact cons_perm_iff.mp ((List.perm_append_singleton _ _).symm.trans (hp.trans hexchange.symm))
    · intro he
      rw [he]
      exact (List.perm_append_singleton _ _).trans hexchange
  refine Iff.trans (and_congr_right fun _ => hlist) ?_
  rw [and_comm]
  refine and_congr_right fun he => ⟨fun hs => ?_, fun hlast j k hjk hk => ?_⟩
  · have := hs (t.arr.size - 1) t.arr.size (by omega) (by simp only; omega)
    simp only at this
    rwa [Function.update_of_ne (by omega), Function.update_of_ne (by omega), he] at this
  · simp only at hk ⊢
    have hobject := (h.order.swap object (t.arr.array i)).mpr hat
    by_cases hki : k = i
    · rw [hki, Function.update_self, Function.update_of_ne (by omega)]
      exact Int.le_of_lt (hbelow j (by omega))
    · rw [Function.update_of_ne hki]
      -- Everything is at most the last object, and that at most what lies behind it.
      have hbehind : ∀ m, m < t.arr.size → t.arr.comparator (t.arr.array m) (t.arr.array t.arr.size) ≤ 0 := by
        intro m hm
        rw [he]
        exact h.order.trans _ _ _ (hsorted.le h.order (show m ≤ t.arr.size - 1 by omega) (by omega)) hlast
      have hto : ∀ m, m < k → m < t.arr.size → t.arr.comparator (t.arr.array m) (t.arr.array k) ≤ 0 := by
        intro m hm hms
        by_cases hks : k = t.arr.size
        · rw [hks]
          exact hbehind m hms
        · exact hsorted m k hm (by omega)
      by_cases hji : j = i
      · rw [hji, Function.update_self]
        exact h.order.trans _ _ _ hobject (hto i (by omega) (by omega))
      · rw [Function.update_of_ne hji]
        exact hto j hjk (by omega)

/-- Removing is always right. -/
theorem remove_right [DecidableEq α] {t : ArrayRun α} (hr : ArrayRight t) {index : Nat} (hi : index < t.arr.size) :
    ArrayRight ⟨{ t.arr with
      array := orderedArrayClose (t.arr.size - index) index t.arr.array, size := t.arr.size - 1 },
      t.kept.erase (t.arr.array index)⟩ := by
  obtain ⟨hsorted, hperm⟩ := hr
  have hclose : ∀ k, k < t.arr.size - 1 → orderedArrayClose (t.arr.size - index) index t.arr.array k =
      if index ≤ k then t.arr.array (k + 1) else t.arr.array k := by
    intro k hk
    rw [orderedArrayClose_eq]
    by_cases hik : index ≤ k
    · rw [if_pos (by omega), if_pos hik]
    · rw [if_neg (by omega), if_neg hik]
  refine ⟨fun j k hjk hk => ?_, ?_⟩
  · simp only at hk ⊢
    rw [hclose j (by omega), hclose k hk]
    split
    · rw [if_pos (by omega)]
      exact hsorted _ _ (by omega) (by omega)
    · split
      · exact hsorted _ _ (by omega) (by omega)
      · exact hsorted _ _ hjk (by omega)
  · have hdrop := firstN_close_perm (show index ≤ t.arr.size - 1 by omega) hclose
    rw [Nat.sub_add_cancel (by omega)] at hdrop
    have herase := (hdrop.trans hperm).erase (t.arr.array index)
    rwa [List.erase_cons_head] at herase

theorem ArrayInv.remove_step [DecidableEq α] {t : ArrayRun α} {index : Nat} (h : ArrayInv t) (hr : ArrayRight t)
    (hin : index < t.arr.size) : ∃ t', arrayStep t (.remove index) = some t' ∧ ArrayInv t' ∧ ArrayRight t' := by
  have hle := h.le; have hmax := h.max
  have hsub : sub32 t.arr.size 1 = t.arr.size - 1 := sub32_of_le (by omega) (by omega)
  refine ⟨⟨_, t.kept.erase (t.arr.array index)⟩, ?_, ?_, remove_right hr hin⟩
  · simp only [arrayStep, orderedArrayRemove, hsub, if_neg (show ¬ index > t.arr.size by omega), ite_true]
  · exact ⟨h.order, by simp only; omega, hmax⟩

/-- What `ordered_array_insert` stores, below the maximum: the object at its
place, over what the moving has left of the array. -/
theorem arrayStep_insert [DecidableEq α] {t : ArrayRun α} {object : α} {array' : Nat → α} {i : Nat} (h : ArrayInv t)
    (hfull : ¬ t.arr.maxSize ≤ t.arr.size) (hi : orderedArrayPlace t.arr object t.arr.size 0 = i)
    (hshift : i ≠ t.arr.size →
      orderedArrayShift i (t.arr.size + 1) (sub32 t.arr.size 1) t.arr.array = some array')
    (hend : i = t.arr.size → array' = t.arr.array) :
    arrayStep t (.insert object) =
      some ⟨{ t.arr with array := Function.update array' i object, size := t.arr.size + 1 }, object :: t.kept⟩ := by
  have hmax := h.max
  have hu : u32 (t.arr.size + 1) = t.arr.size + 1 := u32_of_lt (by omega)
  by_cases he : i = t.arr.size
  · simp [arrayStep, orderedArrayInsert, hfull, hi, he, hend he, hu]
  · simp [arrayStep, orderedArrayInsert, hfull, hi, he, hshift he, hu]

theorem ArrayInv.insert_step [DecidableEq α] {t : ArrayRun α} {object : α} (h : ArrayInv t) (hr : ArrayRight t) :
    ∃ t', arrayStep t (.insert object) = some t' ∧ ArrayInv t' ∧ (ArrayRight t' ↔ InsertRight t (.insert object)) := by
  have hmax := h.max
  obtain ⟨hbelow, hplace, hat⟩ := @orderedArrayPlace_spec α t.arr object t.arr.size 0 fun k hk => by omega
  unfold InsertRight
  dsimp only
  generalize hi : orderedArrayPlace t.arr object t.arr.size 0 = i at *
  by_cases hfull : t.arr.maxSize ≤ t.arr.size
  · refine ⟨t, ?_, h, iff_of_true hr (.inl hfull)⟩
    simp only [arrayStep, orderedArrayInsert, if_pos (show t.arr.size ≥ t.arr.maxSize from hfull),
      bind, Option.bind_some, pure, Bool.false_eq_true, ite_false]
  have hinv : ∀ array kept, ArrayInv (⟨{ t.arr with array, size := t.arr.size + 1 }, kept⟩ : ArrayRun α) :=
    fun _ _ => ⟨h.order, by simp only; omega, hmax⟩
  by_cases hend : i = t.arr.size
  · refine ⟨_, arrayStep_insert h hfull hi (fun hne => absurd hend hne) fun _ => rfl, hinv _ _, ?_⟩
    subst hend
    exact iff_of_true (insert_end hr fun k hk => hbelow k hk) (.inr (.inl rfl))
  have hsub : sub32 t.arr.size 1 = t.arr.size - 1 := sub32_of_le (by omega) (by omega)
  by_cases hlast : i + 1 = t.arr.size
  · obtain ⟨array', hshift, hmoved⟩ := @orderedArrayShift_all α i (by omega) t.arr.size (t.arr.size - 1) t.arr.array
      (by omega) (by omega)
    rw [← hsub] at hshift
    refine ⟨_, arrayStep_insert h hfull hi (fun _ => hshift) fun he => absurd he hend, hinv _ _, ?_⟩
    rw [insert_last_iff h hr hlast hbelow (hat (by omega)) fun k => by
      rw [hmoved k, show t.arr.size - 1 + 1 = i + 1 by omega]]
    constructor
    · intro he
      exact .inr (.inr (.inl ⟨hlast, he⟩))
    · rintro (h1 | h1 | ⟨-, he⟩ | ⟨h1, -⟩)
      · exact absurd h1 hfull
      · exact absurd h1 hend
      · exact he
      · omega
  · have hshift : orderedArrayShift i (t.arr.size + 1) (sub32 t.arr.size 1) t.arr.array = some t.arr.array := by
      rw [hsub]
      exact orderedArrayShift_below (by omega) _ _
    refine ⟨_, arrayStep_insert h hfull hi (fun _ => hshift) fun _ => rfl, hinv _ _, ?_⟩
    rw [insert_below_iff h hr (by omega) hbelow (hat (by omega))]
    constructor
    · intro he
      exact .inr (.inr (.inr ⟨by omega, he⟩))
    · rintro (h1 | h1 | ⟨h1, -⟩ | ⟨-, he⟩)
      · exact absurd h1 hfull
      · exact absurd h1 hend
      · omega
      · exact he

/-- **One call** keeps the array right exactly when it is a removal or one of
the insertions in `InsertRight`. -/
theorem ArrayInv.step [DecidableEq α] {t : ArrayRun α} {c : ArrayCall α} (h : ArrayInv t) (hr : ArrayRight t)
    (ha : ArrayAllowed t c) :
    ∃ t', arrayStep t c = some t' ∧ ArrayInv t' ∧ (ArrayRight t' ↔ InsertRight t c) := by
  cases c with
  | remove index =>
    obtain ⟨t', hstep, hinv, hright⟩ := h.remove_step hr ha
    exact ⟨t', hstep, hinv, iff_of_true hright trivial⟩
  | insert object => exact h.insert_step hr

/-- An array that starts empty. -/
def emptyRun (array : Nat → α) (maxSize : Nat) (comparator : α → α → Int) : ArrayRun α :=
  ⟨⟨array, 0, maxSize, comparator⟩, []⟩

/-- **When the ordered array stays ordered and loses nothing**: from an empty
array, over every sequence of insertions and of removals inside the array,
exactly when each insertion is one of those in `InsertRight`. A full array
rejects an insertion and is unchanged. -/
theorem ordered_array_right_iff [DecidableEq α] (array : Nat → α) (maxSize : Nat) (comparator : α → α → Int)
    (hmax : maxSize < 2 ^ 32) (ho : TotalPreorder comparator) (calls : List (ArrayCall α))
    (ha : EachStep arrayStep ArrayAllowed (emptyRun array maxSize comparator) calls) :
    (Throughout arrayStep ArrayRight (emptyRun array maxSize comparator) calls ↔
      EachStep arrayStep InsertRight (emptyRun array maxSize comparator) calls) ∧
    ∀ (a : OrderedArray α) (object : α), a.maxSize ≤ a.size → orderedArrayInsert a object = some (false, a) := by
  have hstart : ArrayInv (emptyRun array maxSize comparator) := ⟨ho, Nat.zero_le _, hmax⟩
  have hempty : ArrayRight (emptyRun array maxSize comparator) :=
    ⟨fun j k _ hk => absurd hk (Nat.not_lt_zero k), List.Perm.refl _⟩
  refine ⟨throughout_iff (fun _ _ (hinv : ArrayInv _) hr hal => hinv.step hr hal) hstart hempty ha,
    fun a object hfull => ?_⟩
  rw [orderedArrayInsert, if_pos hfull]

instance (t : ArrayRun α) : ∀ c : ArrayCall α, Decidable (ArrayAllowed t c)
  | .insert _ => isTrue trivial
  | .remove _ => inferInstanceAs (Decidable (_ < _))

instance [DecidableEq α] (t : ArrayRun α) : ∀ c : ArrayCall α, Decidable (InsertRight t c)
  | .insert _ => inferInstanceAs (Decidable (_ ∨ _ ∨ (_ ∧ _) ∨ (_ ∧ _ ∧ _)))
  | .remove _ => isTrue trivial

/-- The comparison of two numbers. -/
def byValue (a b : Nat) : Int := a - b

theorem byValue_order : TotalPreorder byValue :=
  ⟨fun a b => by unfold byValue; omega, fun a b c h1 h2 => by unfold byValue at *; omega⟩

/-- Two numbers appended, one put between them, the first removed. -/
theorem ordered_array_right_four :
    Throughout arrayStep ArrayRight (emptyRun (fun _ => 0) 8 byValue)
      [.insert 1, .insert 3, .insert 2, .remove 0] :=
  (ordered_array_right_iff (fun _ => 0) 8 byValue (by decide) byValue_order _ (by decide)).1.mpr (by decide)

/-- 1 put before 2 and 3: 2 is lost, and the zero behind the array is in it. -/
theorem ordered_array_loses : EachStep arrayStep ArrayAllowed (emptyRun (fun _ => 0) 8 byValue)
      [.insert 2, .insert 3, .insert 1] ∧
    ¬ Throughout arrayStep ArrayRight (emptyRun (fun _ => 0) 8 byValue) [.insert 2, .insert 3, .insert 1] := by
  refine ⟨by decide, ?_⟩
  rintro ⟨t₁, h₁, -, t₂, h₂, -, t₃, h₃, hright, -⟩
  cases h₁
  cases h₂
  cases h₃
  exact absurd (hright.1 1 2 (by decide) (by decide)) (by decide)

end ShawnOS
