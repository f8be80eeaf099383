import RatingFactors.Decimal.Dyadic

/-!
# Which doubles are numbers

`classify` reads the fields of a double off its bits as whole numbers; the
library of doubles cuts the same fields out of a bit vector.  Both call the same
doubles finite.

## Main results

* `isFinite_iff` — a double is finite unless the bits of its exponent are all
  set.
* `exists_classify` — a finite double is a sign with a magnitude.
-/

namespace RatingFactors.Decimal

open Float.Model

/-- The field of the exponent, from either side. -/
theorem biased_eq (x : Float) :
    x.toBits.toNat / powerOfTwo 52 % powerOfTwo 11 =
      (@UnpackedFloat.unpackExponent Format.binary64
        x.toModel.toBits.toBitVec).toNat := by
  have hbits : x.toBits = x.toModel.toBits := rfl
  rw [hbits]
  simp [UnpackedFloat.unpackExponent, powerOfTwo, Nat.shiftRight_eq_div_pow]

theorem eq_ones_iff (b : BitVec 11) : b = -1#11 ↔ b.toNat = 2047 := by
  constructor
  · rintro rfl
    rfl
  · exact fun h => BitVec.eq_of_toNat_eq h

private theorem isFinite_dite {c : Prop} [Decidable c] {x : c → UnpackedFloat}
    {y : ¬c → UnpackedFloat} (hx : ∀ h, (x h).isFinite = true)
    (hy : ∀ h, (y h).isFinite = true) : (dite c x y).isFinite = true := by
  by_cases h : c
  · rw [dif_pos h]
    exact hx h
  · rw [dif_neg h]
    exact hy h

/-- A double is finite unless the bits of its exponent are all set. -/
theorem isFinite_iff (x : Float) :
    x.isFinite = true ↔
      x.toBits.toNat / powerOfTwo 52 % powerOfTwo 11 ≠ 2047 := by
  rw [biased_eq, Float.isFinite, Float.Model.isFinite, Float.Model.unpack]
  -- branch by branch, since `split` would rewrite inside the fields of a double
  refine iteInduction (motive := fun u => UnpackedFloat.isFinite u = true ↔ _)
    (fun hones => ?_) fun hother => ?_
  · rw [eq_ones_iff] at hones
    refine iff_of_false (Bool.eq_false_iff.mp ?_) (not_not_intro hones)
    exact iteInduction (motive := fun u => UnpackedFloat.isFinite u = false)
      (fun _ => rfl) fun _ => rfl
  · rw [eq_ones_iff] at hother
    refine iff_of_true ?_ hother
    exact iteInduction (motive := fun u => UnpackedFloat.isFinite u = true)
      (fun _ => isFinite_dite (fun _ => rfl) fun _ => rfl) fun _ => rfl

theorem isNaN_of_isFinite {x : Float} (h : x.isFinite = true) :
    x.isNaN = false := by
  rw [Float.isFinite, Float.Model.isFinite] at h
  rw [Float.isNaN, Float.Model.isNaN]
  cases hx : x.toModel.unpack with
  | notANumber =>
      rw [hx] at h
      cases h
  | infinity => rfl
  | zero => rfl
  | finite => rfl

/-- A finite double is a sign with a magnitude. -/
theorem exists_classify {x : Float} (h : x.isFinite = true) :
    ∃ negative d, classify x = .finite negative d := by
  have hexponent := (isFinite_iff x).mp h
  rw [classify, if_neg hexponent]
  split
  · exact ⟨_, _, rfl⟩
  · exact ⟨_, _, rfl⟩

end RatingFactors.Decimal
