import RatingFactors.Proofs.Decimal.Layout
import RatingFactors.Proofs.Decimal.Shortest

/-!
# Numbers are read back as they were written

The text of a double that is a number has the shortest digits that are near its
magnitude, laid out with or without an exponent and behind a sign.  Reading
takes the layout apart again, and rounds the same amount to the same double.

## Main results

* `Written.value_eq` — what a written decimal near a magnitude is read as.
* `doubleOfText?_text` — every number is read back.
-/

namespace RatingFactors.Decimal

open Float.Model Float.Model.UnpackedFloat

variable {x : Float} {d : Dyadic}

private theorem neg_eq {y : Float} (hd : d.Storable)
    (hx : x.toModel.unpack = .finite .negative d.mantissa d.exponent hd.pos)
    (hy : y.toModel.unpack = .finite .positive d.mantissa d.exponent hd.pos) :
    -y = x := by
  have hmodel : Float.Model.pack y.toModel.unpack.neg = x.toModel := by
    rw [hy]
    exact pack_eq hx
  exact congrArg Float.ofModel hmodel

/-- A written decimal that is near a magnitude is read as the double with that
magnitude and the sign of the decimal. -/
theorem Written.value_eq {w : Written} (hd : d.Storable)
    (hx : x.toModel.unpack =
      .finite (signOf w.negative) d.mantissa d.exponent hd.pos)
    (hw : d.Near w.amount) : w.value = x := by
  rw [amount, amountOf, mul_assoc, ← zpow_add₀ (by norm_num), add_comm,
    ← sub_eq_add_neg] at hw
  rw [value]
  cases hnegative : w.negative with
  | false =>
      rw [hnegative] at hx
      exact nearest_eq hd hx hw
  | true =>
      rw [hnegative] at hx
      have hsize := nearest_eq (x := .ofModel (Float.Model.pack
        (.finite .positive d.mantissa d.exponent hd.pos))) hd
        (unpack_pack hd .positive) hw
      rw [hsize]
      exact neg_eq hd hx (unpack_pack hd .positive)

private theorem zero_value {negative : Bool}
    (hx : classify x = .finite negative d) (hzero : d.mantissa = 0) :
    Written.value ⟨negative, [0], [0], 0⟩ = x := by
  refine eq_of_unpack ?_
  rw [unpack_of_classify_zero hx hzero]
  cases negative with
  | false => rfl
  | true => rfl

/-- The text of a double that is a number is read as that double. -/
theorem doubleOfText?_text (h : x.isFinite = true) :
    doubleOfText? (text x) = some x := by
  obtain ⟨negative, d, hx⟩ := exists_classify h
  obtain ⟨w, hw, hvalue⟩ :
      ∃ w : Written, w.Spells (text x).toList ∧ w.value = x := by
    simp only [text, hx]
    split
    · next hzero => exact ⟨_, spells_zero negative, zero_value hx hzero⟩
    · next hsome =>
      obtain ⟨hd, hunpack⟩ := unpack_of_classify hx (Nat.pos_of_ne_zero hsome)
      obtain ⟨w, hw, rfl, hamount⟩ := d.shortest.spells_layout negative
      refine ⟨w, hw, Written.value_eq hd hunpack ?_⟩
      rw [hamount]
      exact Dyadic.near_shortest hd
  have hread := doubleOfText?_of_spells hw
  rwa [String.ofList_toList, hvalue] at hread

end RatingFactors.Decimal
