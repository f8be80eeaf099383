import RatingFactors.Proofs.Step

/-!
# Exact sums

Where addition is exact, zero adds nothing and subtraction undoes addition, sums
of scalars can be split, put together and sorted by a key.  `Scalar.sum` is the
sum that the program computes, from the left.

## Main definitions

* `Scalar.Lawful` — exact addition with zero and subtraction.

## Main results

* `Lawful.sum_append`, `Lawful.sum_map_add` — sums are additive.
* `Lawful.sum_fibers` — a sum is the sum of the sums over equal keys.
-/

namespace RatingFactors

namespace Scalar

variable {α : Type} [Scalar α]

/-- Addition is exact, zero adds nothing, and subtraction undoes addition. -/
structure Lawful (α : Type) [Scalar α] : Prop extends Exact α where
  add_zero : ∀ x : α, x + zero = x
  add_sub_cancel : ∀ x y : α, x + y - y = x
  sub_add_cancel : ∀ x y : α, x - y + y = x

namespace Lawful

variable (h : Lawful α)

include h

theorem zero_add (x : α) : zero + x = x := by
  rw [h.add_comm, h.add_zero]

/-- What was added to `x`. -/
theorem add_sub_self (x y : α) : x + y - x = y := by
  rw [h.add_comm, h.add_sub_cancel]

/-- A difference may be taken before or after more is added. -/
theorem sub_add_eq {x y p s : α} (heq : x + p = y + s) : x - y + p = s := by
  have hsum : x - y + p + y = s + y := by
    rw [h.add_right_comm, h.sub_add_cancel, heq, h.add_comm]
  rw [← h.add_sub_cancel (x - y + p) y, hsum, h.add_sub_cancel]

theorem add_add_add_comm (w x y z : α) : w + x + (y + z) = w + y + (x + z) := by
  rw [h.add_assoc, ← h.add_assoc x, h.add_comm x y, h.add_assoc y,
    ← h.add_assoc]

/-! ## Sums -/

theorem foldl_add (xs : List α) (x : α) :
    xs.foldl (· + ·) x = x + sum xs := by
  induction xs generalizing x with
  | nil => exact (h.add_zero x).symm
  | cons y ys ih =>
      have hsum : sum (y :: ys) = y + sum ys := by
        rw [sum, List.foldl_cons, ih, h.zero_add]
      rw [List.foldl_cons, ih, hsum, h.add_assoc]

theorem sum_cons (x : α) (xs : List α) : sum (x :: xs) = x + sum xs := by
  rw [sum, List.foldl_cons, h.foldl_add, h.zero_add]

theorem sum_append (xs ys : List α) : sum (xs ++ ys) = sum xs + sum ys := by
  rw [sum, List.foldl_append, h.foldl_add, ← sum]

variable {ι : Type}

theorem sum_map_add (items : List ι) (f f' : ι → α) :
    sum (items.map fun i => f i + f' i) =
      sum (items.map f) + sum (items.map f') := by
  induction items with
  | nil => exact (h.add_zero zero).symm
  | cons i rest ih =>
      rw [List.map_cons, List.map_cons, List.map_cons, h.sum_cons, h.sum_cons,
        h.sum_cons, ih, h.add_add_add_comm]

theorem sum_map_eq_zero {items : List ι} {f : ι → α}
    (hf : ∀ i ∈ items, f i = zero) : sum (items.map f) = zero := by
  induction items with
  | nil => rfl
  | cons i rest ih =>
      rw [List.map_cons, h.sum_cons, hf i List.mem_cons_self,
        ih fun j hj => hf j (List.mem_cons_of_mem i hj), h.zero_add]

/-- A sum with one number in it, and nothing else. -/
theorem sum_single {keys : List Nat} (hnodup : keys.Nodup) {k : Nat}
    (hk : k ∈ keys) (x : α) :
    sum (keys.map fun j => if k = j then x else zero) = x := by
  induction keys with
  | nil => exact absurd hk List.not_mem_nil
  | cons j rest ih =>
      rw [List.nodup_cons] at hnodup
      rw [List.map_cons, h.sum_cons]
      by_cases hkj : k = j
      · rw [if_pos hkj, h.sum_map_eq_zero, h.add_zero]
        intro i hi
        refine if_neg ?_
        rintro rfl
        exact hnodup.1 (hkj ▸ hi)
      · rw [if_neg hkj, h.zero_add]
        exact ih hnodup.2 ((List.mem_cons.mp hk).resolve_left hkj)

/-- A sum is the sum, over all keys, of the sums over the items with a key. -/
theorem sum_fibers {keys : List Nat} (hnodup : keys.Nodup) (key : ι → Nat)
    (value : ι → α) {items : List ι} (hmem : ∀ i ∈ items, key i ∈ keys) :
    sum (keys.map fun k =>
        sum ((items.filter fun i => key i = k).map value)) =
      sum (items.map value) := by
  induction items with
  | nil => exact h.sum_map_eq_zero fun _ _ => rfl
  | cons i rest ih =>
      have hsplit : ∀ k, sum (((i :: rest).filter fun j => key j = k).map
          value) = (if key i = k then value i else zero) +
            sum ((rest.filter fun j => key j = k).map value) := by
        intro k
        by_cases hk : key i = k
        · rw [List.filter_cons_of_pos (by simpa using hk), List.map_cons,
            h.sum_cons, if_pos hk]
        · rw [List.filter_cons_of_neg (by simpa using hk), if_neg hk,
            h.zero_add]
      simp only [hsplit]
      rw [h.sum_map_add, h.sum_single hnodup (hmem i List.mem_cons_self),
        ih fun j hj => hmem j (List.mem_cons_of_mem i hj), List.map_cons,
        h.sum_cons]

end Lawful

end Scalar

end RatingFactors
