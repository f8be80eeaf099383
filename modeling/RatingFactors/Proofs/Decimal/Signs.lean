import RatingFactors.Proofs.Decimal.Nearest

/-!
# Signs of doubles

Everything but what is no number has a sign, and rounding keeps it.  So signs
are enough to follow what is no number through sums, quotients and roots of
squares: a square has the positive sign unless it is no number, and what has the
positive sign stays so under addition.

## Main definitions

* `Size` — a double with the positive sign; it may be zero or infinite.

## Main results

* `isNaN_mul_self`, `size_mul_self` — squares.
* `Size.add`, `Size.div_ofNat`, `Size.sqrt` — what is made of sizes.
* `isNaN_add_left`, `isNaN_add_right`, `isNaN_div`, `isNaN_sqrt` — what is made
  of no number is none.
-/

namespace RatingFactors.Decimal

open Float.Model Float.Model.UnpackedFloat

/-- The sign of what is stored in a double; what is no number has none. -/
def storedSign : UnpackedFloat → Option Sign
  | .notANumber => none
  | .infinity sign => some sign
  | .zero sign => some sign
  | .finite sign _ _ _ => some sign

private theorem storedSign_eq_none {u : UnpackedFloat} :
    storedSign u = none ↔ u = .notANumber := by
  cases u <;> simp [storedSign]

/-! ## Rounding and storing -/

private theorem storedSign_dite {c : Prop} [Decidable c] {x : c → UnpackedFloat}
    {y : ¬c → UnpackedFloat} {sign : Sign}
    (hx : ∀ h, storedSign (x h) = some sign)
    (hy : ∀ h, storedSign (y h) = some sign) :
    storedSign (dite c x y) = some sign := by
  by_cases h : c
  · rw [dif_pos h]
    exact hx h
  · rw [dif_neg h]
    exact hy h

private theorem storedSign_unpack {b : BitVec Format.binary64.numBits}
    (h : unpackExponent b = -1#11 → unpackMantissa b = 0#52) :
    storedSign (UnpackedFloat.unpack Format.binary64 b) =
      some (Sign.ofBitVec (unpackSign b)) := by
  rw [UnpackedFloat.unpack]
  refine iteInduction (motive := fun u => storedSign u = _) (fun hones => ?_)
    fun _ => ?_
  · rw [if_pos (h hones)]
    rfl
  · exact iteInduction (motive := fun u => storedSign u = _)
      (fun _ => storedSign_dite (fun _ => rfl) fun _ => rfl) fun _ => rfl

private theorem storedSign_packComponents {sign : Sign} {exponent : BitVec 11}
    {mantissa : BitVec 52} (h : exponent = -1#11 → mantissa = 0#52) :
    storedSign (UnpackedFloat.unpack Format.binary64
      (packComponents Format.binary64 sign exponent mantissa)) = some sign := by
  rw [storedSign_unpack
      (by rwa [unpackExponent_packComponents, unpackMantissa_packComponents]),
    unpackSign_packComponents, Sign.ofBitVec_toBitVec]

/-- What is stored in a double keeps its sign, also where it is too large. -/
theorem storedSign_pack (u : UnpackedFloat) :
    storedSign (Float.Model.pack u).unpack = storedSign u := by
  change storedSign (UnpackedFloat.unpack Format.binary64
    (UnpackedFloat.pack Format.binary64 u)) = _
  cases u with
  | notANumber => rfl
  | infinity sign => exact storedSign_packComponents fun _ => rfl
  | zero sign => exact storedSign_packComponents fun h => absurd h (by decide)
  | finite sign m e hm =>
      rw [UnpackedFloat.pack]
      dsimp only
      split
      · exact storedSign_packComponents fun _ => rfl
      · rename_i hlow
        split
        · refine storedSign_packComponents fun hones => ?_
          rw [eq_ones_iff, BitVec.toNat_ofNat] at hones
          have hle := Nat.mod_le (e + Format.binary64.exponentBias +
            Format.binary64.mantissaBitsWithoutImplicit).toNat (2 ^ 11)
          exact absurd (show 2 ^ 11 ≤ _ + 1 by omega) hlow
        · exact storedSign_packComponents fun h => absurd h (by decide)

private theorem storedSign_roundWithAccuracy (spec : Format) (sign : Sign)
    (m : ℕ) (e : ℤ) (accuracy : Accuracy) :
    storedSign (roundWithAccuracy spec sign m e accuracy) = some sign := by
  rw [roundWithAccuracy]
  dsimp only
  split
  · rfl
  · rfl

private theorem storedSign_normalize (spec : Format) {m : ℤ} (hm : 0 < m)
    (e : ℤ) (sign : Sign) :
    storedSign (normalize spec m e sign) = some .positive := by
  rw [UnpackedFloat.normalize, compare_gt_iff_gt.mpr hm]
  exact storedSign_roundWithAccuracy ..

/-! ## Operations on what is stored -/

theorem storedSign_mul_self (spec : Format) (u : UnpackedFloat) :
    storedSign (mul spec u u) = (storedSign u).map fun _ => .positive := by
  have hsign : ∀ sign : Sign, sign * sign = .positive := by
    intro sign
    cases sign <;> rfl
  cases u with
  | notANumber => rfl
  | infinity sign => exact congrArg some (hsign sign)
  | zero sign => exact congrArg some (hsign sign)
  | finite sign m e hm =>
      exact (storedSign_roundWithAccuracy ..).trans (congrArg some (hsign sign))

private theorem storedSign_add (spec : Format) {u v : UnpackedFloat}
    (hu : storedSign u = some .positive) (hv : storedSign v = some .positive) :
    storedSign (add spec u v) = some .positive := by
  cases u with
  | notANumber => cases hu
  | infinity sign =>
      obtain rfl := Option.some.inj hu
      cases v with
      | notANumber => cases hv
      | infinity sign' =>
          obtain rfl := Option.some.inj hv
          rfl
      | zero => rfl
      | finite => rfl
  | zero sign =>
      obtain rfl := Option.some.inj hu
      cases v with
      | notANumber => cases hv
      | infinity => exact hv
      | zero sign' =>
          obtain rfl := Option.some.inj hv
          rfl
      | finite => exact hv
  | finite sign m e hm =>
      obtain rfl := Option.some.inj hu
      cases v with
      | notANumber => cases hv
      | infinity => exact hv
      | zero => rfl
      | finite sign' n f hn =>
          obtain rfl := Option.some.inj hv
          refine storedSign_normalize spec ?_ _ _
          have hshift : ∀ {k : ℕ} (_ : 0 < k) (places : ℕ),
              (0 : ℤ) < (k <<< places : ℕ) := by
            intro k hk places
            rw [Nat.shiftLeft_eq]
            exact_mod_cast Nat.mul_pos hk (Nat.two_pow_pos _)
          exact Int.add_pos (hshift hm _) (hshift hn _)

private theorem storedSign_div (spec : Format) {u : UnpackedFloat} {n : ℕ}
    {f : ℤ} {hn : 0 < n} (hu : storedSign u = some .positive) :
    storedSign (div spec u (.finite .positive n f hn)) = some .positive := by
  cases u with
  | notANumber => cases hu
  | infinity sign =>
      obtain rfl := Option.some.inj hu
      rfl
  | zero sign =>
      obtain rfl := Option.some.inj hu
      rfl
  | finite sign m e hm =>
      obtain rfl := Option.some.inj hu
      exact storedSign_roundWithAccuracy ..

private theorem storedSign_sqrt (spec : Format) {u : UnpackedFloat}
    (hu : storedSign u = some .positive) :
    storedSign (sqrt spec u) = some .positive := by
  cases u with
  | notANumber => cases hu
  | infinity sign =>
      obtain rfl := Option.some.inj hu
      rfl
  | zero sign => exact hu
  | finite sign m e hm =>
      obtain rfl := Option.some.inj hu
      exact storedSign_roundWithAccuracy ..

/-! ## Doubles -/

/-- The double has the positive sign. It may be zero, and it may be infinite. -/
def Size (x : Float) : Prop :=
  storedSign x.toModel.unpack = some .positive

theorem isNaN_iff {x : Float} :
    x.isNaN = true ↔ storedSign x.toModel.unpack = none := by
  rw [Float.isNaN, Float.Model.isNaN]
  cases x.toModel.unpack <;> simp [UnpackedFloat.isNaN, storedSign]

theorem unpack_of_isNaN {x : Float} (h : x.isNaN = true) :
    x.toModel.unpack = .notANumber :=
  storedSign_eq_none.mp (isNaN_iff.mp h)

theorem Size.isNaN {x : Float} (h : Size x) : x.isNaN = false := by
  rw [← Bool.not_eq_true, isNaN_iff, h]
  exact nofun

/-- A square is no number if what is squared is none, and a size otherwise. -/
private theorem storedSign_square (x : Float) :
    storedSign (x * x).toModel.unpack =
      (storedSign x.toModel.unpack).map fun _ => .positive :=
  (storedSign_pack _).trans (storedSign_mul_self ..)

theorem isNaN_mul_self (x : Float) : (x * x).isNaN = x.isNaN := by
  rw [Bool.eq_iff_iff, isNaN_iff, isNaN_iff, storedSign_square,
    Option.map_eq_none_iff]

theorem size_mul_self {x : Float} (h : x.isNaN = false) : Size (x * x) := by
  rw [← Bool.not_eq_true, isNaN_iff] at h
  obtain ⟨sign, hsign⟩ := Option.ne_none_iff_exists'.mp h
  rw [Size, storedSign_square, hsign]
  rfl

private theorem unpack_zero_literal :
    (0.0 : Float).toModel.unpack = .zero .positive := by
  have hmodel : (0.0 : Float).toModel = Float.Model.pack (.zero .positive) := by
    decide +kernel
  rw [hmodel]
  rfl

theorem size_zero : Size 0.0 :=
  congrArg storedSign unpack_zero_literal

theorem Size.add {x y : Float} (hx : Size x) (hy : Size y) : Size (x + y) :=
  (storedSign_pack _).trans (storedSign_add _ hx hy)

theorem Size.sqrt {x : Float} (hx : Size x) : Size x.sqrt :=
  (storedSign_pack _).trans (storedSign_sqrt _ hx)

/-- Few whole numbers are so large that they are infinite as doubles. -/
theorem Size.div_ofNat {x : Float} (hx : Size x) {n : ℕ} (hpos : 0 < n)
    (hshort : n < 2 ^ 53) : Size (x / Float.ofNat n) := by
  obtain ⟨hwhole, -⟩ := Dyadic.full_ofWhole hpos.ne'
  have hunpack := unpack_toFloat hpos hshort (lt_of_lt_of_le (by decide) hwhole)
  have hlog := log2_le_of_short hshort
  have hnear : (Dyadic.ofWhole n).Near (n * 10 ^ (0 : ℤ)) := by
    rw [zpow_zero, mul_one, ← Dyadic.value_ofWhole (dvd_of_short hshort)]
    exact Dyadic.near_self _
  have hsame : Float.ofNat n = n.toUInt64.toFloat :=
    ofScientific_short (Dyadic.storable_ofWhole hpos.ne' (by omega)) hunpack
      hpos hnear ⟨hshort, by decide⟩
  rw [hsame]
  refine (storedSign_pack _).trans ?_
  rw [hunpack]
  exact storedSign_div _ hx

theorem isNaN_add_left {x : Float} (h : x.isNaN = true) (y : Float) :
    (x + y).isNaN = true := by
  rw [isNaN_iff]
  refine (storedSign_pack _).trans ?_
  rw [unpack_of_isNaN h]
  rfl

theorem isNaN_add_right (x : Float) {y : Float} (h : y.isNaN = true) :
    (x + y).isNaN = true := by
  rw [isNaN_iff]
  refine (storedSign_pack _).trans ?_
  rw [unpack_of_isNaN h]
  cases x.toModel.unpack <;> rfl

theorem isNaN_div {x : Float} (h : x.isNaN = true) (y : Float) :
    (x / y).isNaN = true := by
  rw [isNaN_iff]
  refine (storedSign_pack _).trans ?_
  rw [unpack_of_isNaN h]
  rfl

theorem isNaN_sqrt {x : Float} (h : x.isNaN = true) : x.sqrt.isNaN = true := by
  rw [isNaN_iff]
  refine (storedSign_pack _).trans ?_
  rw [unpack_of_isNaN h]
  rfl

end RatingFactors.Decimal
