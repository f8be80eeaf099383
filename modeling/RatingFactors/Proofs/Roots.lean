import Mathlib.Analysis.Real.Sqrt
import RatingFactors.Proofs.Scalar

/-!
# Means of squares and their roots

The errors of a report are roots of means of squares.  Where arithmetic is exact
such a mean does not depend on the order of what it is taken over, is never
below zero, and is the square of its root.  The laws leave room for results that
are no number: only sums of sizes are required to stay numbers.

## Main definitions

* `Scalar.Nonneg` — not less than zero.
* `Scalar.Averaging` — sizes can be averaged.
* `Scalar.Rooted` — roots are exact as well.
* `Scalar.rootMeanOf`, `Scalar.rootMeanOf?` — the root of a mean.
* The real numbers as scalars.

## Main results

* `Exact.sum_perm` — the order of the terms of a sum does not matter.
* `Rooted.rootMeanOf_mul_self` — a mean of squares is the square of its root.
* `Scalar.rooted_real` — the real numbers have the laws.
-/

namespace RatingFactors

namespace Scalar

variable {α : Type} [Scalar α]

/-- The number is not less than zero.  This includes what is no number. -/
def Nonneg (x : α) : Prop :=
  less x zero = false

/-- Sizes can be averaged: sums are exact, and what is made of sizes that are
numbers is one of these again. -/
structure Averaging (α : Type) [Scalar α] : Prop extends Exact α where
  add_zero : ∀ x : α, x + zero = x
  sub_mul_self_comm : ∀ x y : α, (x - y) * (x - y) = (y - x) * (y - x)
  nonneg_zero : Nonneg (zero : α)
  nonneg_mul_self : ∀ x : α, Nonneg (x * x)
  nonneg_add : ∀ x y : α, Nonneg x → Nonneg y → Nonneg (x + y)
  nonneg_div : ∀ (x : α) (n : Int), Nonneg x → 0 < n → Nonneg (x / ofInt n)
  isNaN_zero : isNaN (zero : α) = false
  isNaN_add : ∀ x y : α, Nonneg x → Nonneg y → isNaN x = false →
    isNaN y = false → isNaN (x + y) = false
  isNaN_div : ∀ (x : α) (n : Int), isNaN x = false → 0 < n →
    isNaN (x / ofInt n) = false
  isNaN_root : ∀ x : α, Nonneg x → isNaN x = false → isNaN (root x) = false

/-- Roots are exact as well. -/
structure Rooted (α : Type) [Scalar α] : Prop extends Averaging α where
  root_mul_root : ∀ x : α, Nonneg x → root x * root x = x

/-- The order of the terms of an exact sum does not matter. -/
theorem Exact.sum_perm (h : Exact α) {xs ys : List α} (hperm : xs.Perm ys) :
    sum xs = sum ys :=
  hperm.foldl_eq' (fun x _ y _ z => h.add_right_comm z x y) _

/-- The root of the mean of some numbers. -/
def rootMeanOf (xs : List α) : α :=
  root (sum xs / ofInt xs.length)

/-- The same, if there are any numbers. -/
def rootMeanOf? (xs : List α) : Option α :=
  if xs.length = 0 then none else some (rootMeanOf xs)

theorem isSome_rootMeanOf? (xs : List α) :
    (rootMeanOf? xs).isSome = true ↔ xs ≠ [] := by
  rw [rootMeanOf?]
  split <;> rename_i h
  · simp [List.length_eq_zero_iff.mp h]
  · simpa using h

namespace Averaging

variable (h : Averaging α)

include h

private theorem nonneg_foldl {xs : List α} (hxs : ∀ x ∈ xs, Nonneg x) {x : α}
    (hx : Nonneg x) : Nonneg (xs.foldl (· + ·) x) :=
  List.foldlRecOn xs (· + ·) hx fun _ hsum y hy =>
    h.nonneg_add _ y hsum (hxs y hy)

theorem nonneg_sum {xs : List α} (hxs : ∀ x ∈ xs, Nonneg x) :
    Nonneg (sum xs) :=
  h.nonneg_foldl hxs h.nonneg_zero

/-- A sum of sizes that are numbers is a number. -/
theorem isNaN_sum {xs : List α} (hxs : ∀ x ∈ xs, Nonneg x)
    (hnumbers : ∀ x ∈ xs, isNaN x = false) : isNaN (sum xs) = false := by
  have hsum : Nonneg (xs.foldl (· + ·) zero) ∧
      isNaN (xs.foldl (· + ·) zero) = false := by
    refine List.foldlRecOn xs (· + ·) (motive := fun x => Nonneg x ∧
      isNaN x = false) ⟨h.nonneg_zero, h.isNaN_zero⟩ ?_
    rintro x ⟨hsize, hnumber⟩ y hy
    exact ⟨h.nonneg_add x y hsize (hxs y hy),
      h.isNaN_add x y hsize (hxs y hy) hnumber (hnumbers y hy)⟩
  exact hsum.2

theorem nonneg_mean {xs : List α} (hxs : ∀ x ∈ xs, Nonneg x) (hne : xs ≠ []) :
    Nonneg (sum xs / ofInt xs.length) :=
  h.nonneg_div _ _ (h.nonneg_sum hxs)
    (Int.natCast_pos.mpr (List.length_pos_iff.mpr hne))

theorem isNaN_rootMeanOf {xs : List α} (hxs : ∀ x ∈ xs, Nonneg x)
    (hnumbers : ∀ x ∈ xs, isNaN x = false) (hne : xs ≠ []) :
    isNaN (rootMeanOf xs) = false :=
  h.isNaN_root _ (h.nonneg_mean hxs hne)
    (h.isNaN_div _ _ (h.isNaN_sum hxs hnumbers)
      (Int.natCast_pos.mpr (List.length_pos_iff.mpr hne)))

theorem rootMeanOf_perm {xs ys : List α} (hperm : xs.Perm ys) :
    rootMeanOf xs = rootMeanOf ys := by
  rw [rootMeanOf, rootMeanOf, h.toExact.sum_perm hperm, hperm.length_eq]

end Averaging

/-- A mean of sizes is the square of its root. -/
theorem Rooted.rootMeanOf_mul_self (h : Rooted α) {xs : List α}
    (hxs : ∀ x ∈ xs, Nonneg x) (hne : xs ≠ []) :
    rootMeanOf xs * rootMeanOf xs = sum xs / ofInt xs.length :=
  h.root_mul_root _ (h.nonneg_mean hxs hne)

/-! ## The real numbers -/

/-- The real numbers as scalars.  A real number has no shortest text, so nothing
is printed for it. -/
noncomputable instance : Scalar ℝ where
  zero := 0
  ofInt n := n
  less x y := decide (x < y)
  same x y := decide (x = y)
  isNaN _ := false
  isInfinite _ := false
  root := Real.sqrt
  text _ := ""
  fixed _ _ := ""

private theorem nonneg_real {x : ℝ} : Nonneg x ↔ 0 ≤ x := by
  rw [Nonneg, less]
  exact decide_eq_false_iff_not.trans not_lt

theorem rooted_real : Rooted ℝ where
  add_comm := add_comm
  add_assoc := add_assoc
  add_zero := add_zero
  sub_mul_self_comm x y := by
    rw [← neg_sub y x, neg_mul_neg]
  nonneg_zero := nonneg_real.mpr le_rfl
  nonneg_mul_self x := nonneg_real.mpr (mul_self_nonneg x)
  nonneg_add x y hx hy :=
    nonneg_real.mpr (add_nonneg (nonneg_real.mp hx) (nonneg_real.mp hy))
  nonneg_div x n hx hn :=
    nonneg_real.mpr (div_nonneg (nonneg_real.mp hx)
      (Int.cast_nonneg hn.le))
  isNaN_zero := rfl
  isNaN_add _ _ _ _ _ _ := rfl
  isNaN_div _ _ _ _ := rfl
  isNaN_root _ _ _ := rfl
  root_mul_root x hx := Real.mul_self_sqrt (nonneg_real.mp hx)

end Scalar

end RatingFactors
