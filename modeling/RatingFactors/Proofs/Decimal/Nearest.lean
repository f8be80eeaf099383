import Mathlib.Data.Nat.Cast.Field
import Mathlib.Tactic.FieldSimp
import RatingFactors.Decimal.Reading
import RatingFactors.Proofs.Decimal.Rounding

/-!
# The double nearest to a decimal

A decimal is read with one product or quotient of exact doubles where it has few
digits and a small exponent, and rounded as a whole otherwise.  Either way the
double is found whose magnitude the decimal is near.

## Main results

* `unpack_toFloat` — a whole number with few bits is a double as it is.
* `ofScientific_eq` — both ways to read a decimal find the double.
* `nearest_eq` — nothing near a magnitude is taken for too large or too small.
-/

namespace RatingFactors.Decimal

open Float.Model Float.Model.UnpackedFloat

namespace Dyadic

variable {d : Dyadic} {q : ℚ}

theorem gap_pos (d : Dyadic) : 0 < d.gap := by
  rw [gap]
  split <;> norm_num

/-- A magnitude is near itself. -/
theorem near_self (d : Dyadic) : d.Near (d.mantissa * 2 ^ d.exponent) := by
  have hunit : (0 : ℚ) < 2 ^ d.exponent := by positivity
  have hlow : ((d.mantissa : ℚ) - d.gap) * 2 ^ d.exponent <
      d.mantissa * 2 ^ d.exponent :=
    mul_lt_mul_of_pos_right (by linarith [d.gap_pos]) hunit
  have hhigh : (d.mantissa : ℚ) * 2 ^ d.exponent <
      (d.mantissa + 1 / 2) * 2 ^ d.exponent :=
    mul_lt_mul_of_pos_right (by linarith) hunit
  exact ⟨hlow.le, hhigh.le, fun _ => ⟨hlow.ne, hhigh.ne⟩⟩

theorem Near.pos (hd : d.Storable) (h : d.Near q) : 0 < q := by
  have hunit : (0 : ℚ) < 2 ^ d.exponent := by positivity
  have hmantissa : (1 : ℚ) ≤ d.mantissa := by exact_mod_cast hd.pos
  exact lt_of_lt_of_le (mul_pos (by linarith [d.gap_le]) hunit) h.low

/-- A whole number with all the bits of a mantissa. -/
def ofWhole (n : ℕ) : Dyadic :=
  ⟨n * 2 ^ 52 / 2 ^ n.log2, n.log2 - 52, n * 2 ^ 52 / 2 ^ n.log2 == 2 ^ 52⟩

theorem full_ofWhole {n : ℕ} (hn : n ≠ 0) :
    2 ^ 52 ≤ (ofWhole n).mantissa ∧ (ofWhole n).mantissa < 2 ^ 53 := by
  constructor
  · refine (Nat.le_div_iff_mul_le (Nat.two_pow_pos _)).mpr ?_
    rw [Nat.mul_comm]
    exact Nat.mul_le_mul_right _ (Nat.log2_self_le hn)
  · refine (Nat.div_lt_iff_lt_mul (Nat.two_pow_pos _)).mpr ?_
    calc n * 2 ^ 52 < 2 ^ (n.log2 + 1) * 2 ^ 52 :=
          Nat.mul_lt_mul_of_pos_right Nat.lt_log2_self (by decide)
      _ = 2 ^ 53 * 2 ^ n.log2 := by ring

theorem storable_ofWhole {n : ℕ} (hn : n ≠ 0) (hlog : n.log2 ≤ 1023) :
    (ofWhole n).Storable := by
  obtain ⟨hfull, hshort⟩ := full_ofWhole hn
  refine ⟨lt_of_lt_of_le (by decide) hfull, hshort, ?_, ?_, .inr hfull, ?_⟩
  · change (-1074 : ℤ) ≤ n.log2 - 52
    omega
  · change (n.log2 - 52 : ℤ) ≤ 971
    omega
  · change (n * 2 ^ 52 / 2 ^ n.log2 == 2 ^ 52) = true ↔
      _ ∧ (-1074 : ℤ) < n.log2 - 52
    rw [beq_iff_eq]
    exact ⟨fun h => ⟨h, by omega⟩, fun h => h.1⟩

theorem value_ofWhole {n : ℕ} (h : 2 ^ n.log2 ∣ n * 2 ^ 52) :
    ((ofWhole n).mantissa : ℚ) * 2 ^ (ofWhole n).exponent = n := by
  change ((n * 2 ^ 52 / 2 ^ n.log2 : ℕ) : ℚ) * 2 ^ ((n.log2 : ℤ) - 52) = n
  rw [Nat.cast_div h (by positivity), zpow_sub₀ two_ne_zero, zpow_natCast]
  push_cast
  field_simp

end Dyadic

/-! ## Whole numbers and powers of ten -/

/-- The powers of ten that the library of doubles knows are exact. -/
theorem classify_powerOfTen : ∀ n : Fin 23,
    classify Float.exactlyRepresentablePowersOfTen[n] =
        .finite false (Dyadic.ofWhole (10 ^ n.val)) ∧
      2 ^ (10 ^ n.val).log2 ∣ 10 ^ n.val * 2 ^ 52 := by
  decide +kernel

theorem dvd_of_short {n : ℕ} (h : n < 2 ^ 53) : 2 ^ n.log2 ∣ n * 2 ^ 52 :=
  Dvd.dvd.mul_left (pow_dvd_pow 2 (log2_le_of_short h)) n

private theorem round_whole {n : ℕ} (hpos : 0 < n) (hshort : n < 2 ^ 53) (hm) :
    UnpackedFloat.round Format.binary64 .positive n 0 =
      .finite .positive (Dyadic.ofWhole n).mantissa
        (Dyadic.ofWhole n).exponent hm := by
  have hlog := log2_le_of_short hshort
  have hshift : (0 - max ((n.log2 : ℤ) + 0 - 52) (-1074)).toNat =
      52 - n.log2 := by
    omega
  rw [UnpackedFloat.round, targetExponent_eq]
  simp only [decreaseExponent, hshift]
  refine roundWithAccuracy_eq (Dyadic.storable_ofWhole hpos.ne' (by omega))
    (Dyadic.near_self _) .positive ?_ (.inl ?_)
  · have hunit : (2 : ℚ) ^ (0 - ((52 - n.log2 : ℕ) : ℤ)) ≠ 0 := by positivity
    have hvalue : (n : ℚ) / 2 ^ (0 - ((52 - n.log2 : ℕ) : ℤ)) =
        (n <<< (52 - n.log2) : ℕ) := by
      rw [div_eq_iff hunit, Nat.shiftLeft_eq, zpow_sub₀ two_ne_zero,
        zpow_natCast]
      push_cast
      field_simp
    rw [Dyadic.value_ofWhole (dvd_of_short hshort), hvalue]
    exact standsFor_exact _
  · rw [Nat.shiftLeft_eq]
    calc 2 ^ 52 = 2 ^ n.log2 * 2 ^ (52 - n.log2) := by
          rw [← pow_add]; congr 1; omega
      _ ≤ n * 2 ^ (52 - n.log2) :=
        Nat.mul_le_mul_right _ (Nat.log2_self_le hpos.ne')

/-- A whole number with few enough bits becomes a double without rounding. -/
theorem unpack_toFloat {n : ℕ} (hpos : 0 < n) (hshort : n < 2 ^ 53) (hm) :
    n.toUInt64.toFloat.toModel.unpack =
      .finite .positive (Dyadic.ofWhole n).mantissa
        (Dyadic.ofWhole n).exponent hm := by
  have hword : n.toUInt64.toNat = n := by
    rw [Nat.toUInt64, UInt64.toNat_ofNat']
    exact Nat.mod_eq_of_lt (hshort.trans (by decide))
  have hsign : compare (n : ℤ) 0 = .gt := by
    rw [compare_gt_iff_gt]
    exact_mod_cast hpos
  have hpacked : n.toUInt64.toFloat.toModel =
      Float.Model.pack (UnpackedFloat.round Format.binary64 .positive n 0) := by
    change Float.Model.pack
      (UnpackedFloat.normalize Format.binary64 n.toUInt64.toNat 0 .positive) = _
    rw [hword, UnpackedFloat.normalize, hsign]
    rfl
  have hlog := log2_le_of_short hshort
  rw [hpacked, round_whole hpos hshort hm]
  exact unpack_pack (Dyadic.storable_ofWhole hpos.ne' (by omega)) .positive

/-! ## The double nearest to a decimal -/

section Decimals

variable {x : Float} {d : Dyadic} {c : ℕ} {k : ℤ}

private theorem mul_of_unpack {a b : Float} {m n : ℕ} {e f : ℤ} {hm : 0 < m}
    {hn : 0 < n} (hd : d.Storable)
    (hx : x.toModel.unpack = .finite .positive d.mantissa d.exponent hd.pos)
    (ha : a.toModel.unpack = .finite .positive m e hm)
    (hb : b.toModel.unpack = .finite .positive n f hn)
    (hq : d.Near (m * 2 ^ e * (n * 2 ^ f))) (hfine : 2 ^ 52 ≤ m * n) :
    a * b = x := by
  have hproduct : Float.Model.pack
      (UnpackedFloat.mul Format.binary64 a.toModel.unpack b.toModel.unpack) =
        x.toModel := by
    rw [ha, hb, mul_eq hd hm hn hq hfine]
    exact pack_eq hx
  exact congrArg Float.ofModel hproduct

private theorem div_of_unpack {a b : Float} {m n : ℕ} {e f : ℤ} {hm : 0 < m}
    {hn : 0 < n} (hd : d.Storable)
    (hx : x.toModel.unpack = .finite .positive d.mantissa d.exponent hd.pos)
    (ha : a.toModel.unpack = .finite .positive m e hm)
    (hb : b.toModel.unpack = .finite .positive n f hn)
    (hq : d.Near (m * 2 ^ e / (n * 2 ^ f))) : a / b = x := by
  have hquotient : Float.Model.pack
      (UnpackedFloat.div Format.binary64 a.toModel.unpack b.toModel.unpack) =
        x.toModel := by
    rw [ha, hb, div_eq hd hm hn hq]
    exact pack_eq hx
  exact congrArg Float.ofModel hquotient

/-- With few digits and a small exponent one product or quotient of exact
doubles is enough. -/
theorem ofScientific_short (hd : d.Storable)
    (hx : x.toModel.unpack = .finite .positive d.mantissa d.exponent hd.pos)
    (hpos : 0 < c) (hq : d.Near (c * 10 ^ k))
    (hshort : c < 2 ^ 53 ∧ k.natAbs ≤ 22) :
    Float.ofScientific c (k < 0) k.natAbs = x := by
  obtain ⟨hclass, hdvd⟩ := classify_powerOfTen ⟨k.natAbs, by omega⟩
  obtain ⟨hwhole, -⟩ := Dyadic.full_ofWhole hpos.ne'
  obtain ⟨hpower, -⟩ := @Dyadic.full_ofWhole (10 ^ k.natAbs) (by positivity)
  have hc := unpack_toFloat hpos hshort.1 (lt_of_lt_of_le (by decide) hwhole)
  have hposp : 0 < (Dyadic.ofWhole (10 ^ k.natAbs)).mantissa :=
    lt_of_lt_of_le (by decide) hpower
  obtain ⟨-, hp⟩ := unpack_of_classify hclass hposp
  have hcvalue := Dyadic.value_ofWhole (dvd_of_short hshort.1)
  have hpvalue := Dyadic.value_ofWhole hdvd
  rw [Float.ofScientific, dif_pos hshort]
  by_cases hk : k < 0
  · have hneg : (10 : ℚ) ^ k = 1 / (10 ^ k.natAbs : ℕ) := by
      obtain ⟨n, rfl⟩ : ∃ n : ℕ, k = -n := ⟨k.natAbs, by omega⟩
      simp
    rw [hneg, mul_one_div, ← hcvalue, ← hpvalue] at hq
    simp only [hk, decide_true, if_true]
    exact div_of_unpack hd hx hc hp hq
  · have hnonneg : (10 : ℚ) ^ k = (10 ^ k.natAbs : ℕ) := by
      obtain ⟨n, rfl⟩ : ∃ n : ℕ, k = n := ⟨k.natAbs, by omega⟩
      simp
    rw [hnonneg, ← hcvalue, ← hpvalue] at hq
    simp only [hk, decide_false, Bool.false_eq_true, if_false]
    exact mul_of_unpack hd hx hc hp hq
      (le_trans hwhole (Nat.le_mul_of_pos_right _ hposp))

/-- With many digits or a large exponent the decimal is rounded as a whole. -/
theorem ofScientific_long (hd : d.Storable)
    (hx : x.toModel.unpack = .finite .positive d.mantissa d.exponent hd.pos)
    (hpos : 0 < c) (hq : d.Near (c * 10 ^ k))
    (hlong : ¬ (c < 2 ^ 53 ∧ k.natAbs ≤ 22)) (hhigh : k ≤ 2048)
    (hlow : -(2048 + c.log2) ≤ k) :
    Float.ofScientific c (k < 0) k.natAbs = x := by
  have hexponent : (if decide (k < 0) = true then Int.negOfNat k.natAbs
      else Int.ofNat k.natAbs) = k := by
    by_cases hk : k < 0
    · rw [if_pos (decide_eq_true hk), Int.negOfNat_eq]
      simp only [Int.ofNat_eq_natCast]
      omega
    · rw [if_neg (by simpa using hk)]
      simp only [Int.ofNat_eq_natCast]
      omega
  have hrounded : UnpackedFloat.ofScientific Format.binary64 c k =
      .finite .positive d.mantissa d.exponent hd.pos := by
    have hnothigh : ¬ k > 2 ^ Format.binary64.exponentBits := not_lt.mpr hhigh
    have hnotlow : ¬ k < -(2 ^ Format.binary64.exponentBits + (c.log2 : ℤ)) :=
      not_lt.mpr hlow
    rw [UnpackedFloat.ofScientific, dif_neg hpos.ne', if_neg hnothigh,
      if_neg hnotlow]
    split
    · next hk =>
      obtain ⟨n, rfl⟩ := Int.eq_ofNat_of_zero_le hk
      refine mul_eq hd _ _ ?_ ?_
      · rw [Nat.shiftLeft_eq, zpow_neg, zpow_natCast]
        push_cast
        rw [mul_assoc _ (2 ^ _), mul_inv_cancel₀ (by positivity), mul_one,
          mul_one]
        exact hq
      · rw [Nat.shiftLeft_eq]
        calc 2 ^ 52 ≤ 2 ^ 53 := by decide
          _ ≤ c * 2 ^ 53 := Nat.le_mul_of_pos_left _ hpos
          _ ≤ c * 2 ^ 53 * 10 ^ n := Nat.le_mul_of_pos_right _ (by positivity)
    · next hk =>
      obtain ⟨n, rfl⟩ : ∃ n : ℕ, k = -n := ⟨k.natAbs, by omega⟩
      refine div_eq hd _ _ ?_
      rw [neg_neg, Int.toNat_natCast, zpow_zero, mul_one, mul_one, Nat.cast_pow]
      rw [zpow_neg, zpow_natCast, ← div_eq_mul_inv] at hq
      exact hq
  rw [Float.ofScientific, dif_neg hlong]
  simp only [hexponent]
  refine congrArg Float.ofModel (?_ : _ = x.toModel)
  rw [Float.Model.ofScientific, hrounded]
  exact pack_eq hx

theorem ofScientific_eq (hd : d.Storable)
    (hx : x.toModel.unpack = .finite .positive d.mantissa d.exponent hd.pos)
    (hpos : 0 < c) (hq : d.Near (c * 10 ^ k)) (hhigh : k ≤ 2048)
    (hlow : -(2048 + c.log2) ≤ k) :
    Float.ofScientific c (k < 0) k.natAbs = x := by
  by_cases hshort : c < 2 ^ 53 ∧ k.natAbs ≤ 22
  · exact ofScientific_short hd hx hpos hq hshort
  · exact ofScientific_long hd hx hpos hq hshort hhigh hlow

/-- How many digits a number has is how far it reaches among the powers of
ten. -/
theorem length_toDigits_bounds {n : ℕ} (hn : 0 < n) :
    10 ^ ((Nat.toDigits 10 n).length - 1) ≤ n ∧
    n < 10 ^ (Nat.toDigits 10 n).length := by
  have hlength : 0 < (Nat.toDigits 10 n).length := Nat.length_toDigits_pos
  constructor
  · by_contra hnot
    rcases Nat.eq_zero_or_pos ((Nat.toDigits 10 n).length - 1) with
      hzero | hsome
    · rw [hzero] at hnot
      omega
    · have hless :=
        (Nat.length_toDigits_le_iff (by decide) hsome).mpr (not_le.mp hnot)
      omega
  · exact (Nat.length_toDigits_le_iff (by decide) hlength).mp le_rfl

private theorem length_toDigits_le_log2 (n : ℕ) :
    (Nat.toDigits 10 n).length ≤ n.log2 + 1 := by
  refine (Nat.length_toDigits_le_iff (by decide) (by omega)).mpr ?_
  exact lt_of_lt_of_le Nat.lt_log2_self (Nat.pow_le_pow_left (by decide) _)

theorem Dyadic.Near.range (hd : d.Storable) {q : ℚ} (hq : d.Near q) :
    2 ^ (-1075 : ℤ) ≤ q ∧ q < 2 ^ (1024 : ℤ) := by
  have hmantissa : (1 : ℚ) ≤ d.mantissa := by exact_mod_cast hd.pos
  constructor
  · calc (2 : ℚ) ^ (-1 + -1074 : ℤ)
        = 1 / 2 * 2 ^ (-1074 : ℤ) := by
          rw [zpow_add₀ two_ne_zero, zpow_neg_one, one_div]
      _ ≤ 1 / 2 * 2 ^ d.exponent :=
          mul_le_mul_of_nonneg_left (zpow_le_zpow_right₀ one_le_two hd.low)
            (by norm_num)
      _ ≤ (d.mantissa - d.gap) * 2 ^ d.exponent :=
          mul_le_mul_of_nonneg_right (by linarith [d.gap_le]) (by positivity)
      _ ≤ q := hq.low
  · refine lt_of_lt_of_le (hq.lt hd) (zpow_le_zpow_right₀ one_le_two ?_)
    have hhigh := hd.high
    omega

/-- What is near a magnitude has its leading digit within the range of
doubles. -/
theorem Dyadic.Near.leading (hd : d.Storable) (hpos : 0 < c)
    (hq : d.Near (c * 10 ^ k)) :
    (Nat.toDigits 10 c).length + k ≤ 320 ∧
    -340 ≤ (Nat.toDigits 10 c).length + k := by
  obtain ⟨hlow, hhigh⟩ := hq.range hd
  obtain ⟨hlead, hless⟩ := length_toDigits_bounds hpos
  have hlength : 0 < (Nat.toDigits 10 c).length := Nat.length_toDigits_pos
  have hten : (0 : ℚ) < 10 ^ k := by positivity
  generalize (Nat.toDigits 10 c).length = size at *
  constructor
  · by_contra hnot
    have hlead' : (10 : ℚ) ^ (size - 1) ≤ c := by exact_mod_cast hlead
    have hpower : (10 : ℚ) ^ (320 : ℤ) ≤ c * 10 ^ k :=
      calc (10 : ℚ) ^ (320 : ℤ) ≤ 10 ^ (((size - 1 : ℕ) : ℤ) + k) :=
            zpow_le_zpow_right₀ (by norm_num) (by omega)
        _ = 10 ^ (size - 1) * 10 ^ k := by
          rw [zpow_add₀ (by norm_num), zpow_natCast]
        _ ≤ c * 10 ^ k := mul_le_mul_of_nonneg_right hlead' hten.le
    have hrange : (2 : ℚ) ^ (1024 : ℤ) < 10 ^ (320 : ℤ) := by
      exact_mod_cast (show 2 ^ 1024 < 10 ^ 320 by decide +kernel)
    exact lt_asymm hhigh (lt_of_lt_of_le hrange hpower)
  · by_contra hnot
    have hless' : (c : ℚ) < 10 ^ size := by exact_mod_cast hless
    have hpower : (c : ℚ) * 10 ^ k < 10 ^ (-340 : ℤ) :=
      calc (c : ℚ) * 10 ^ k < 10 ^ size * 10 ^ k :=
            mul_lt_mul_of_pos_right hless' hten
        _ = 10 ^ ((size : ℤ) + k) := by
          rw [zpow_add₀ (by norm_num), zpow_natCast]
        _ ≤ 10 ^ (-340 : ℤ) := zpow_le_zpow_right₀ (by norm_num) (by omega)
    have hrange : (10 : ℚ) ^ (-340 : ℤ) < 2 ^ (-1075 : ℤ) := by
      rw [zpow_neg, zpow_neg, inv_lt_inv₀ (by positivity) (by positivity)]
      exact_mod_cast (show 2 ^ 1075 < 10 ^ 340 by decide +kernel)
    exact lt_irrefl _ (lt_of_le_of_lt hlow (hpower.trans hrange))

/-- A decimal that is near a magnitude is read as the double with that
magnitude. -/
theorem nearest_eq (hd : d.Storable)
    (hx : x.toModel.unpack = .finite .positive d.mantissa d.exponent hd.pos)
    (hq : d.Near (c * 10 ^ k)) : nearest c k = x := by
  have hpos : 0 < c := by
    refine Nat.pos_of_ne_zero fun hzero => ?_
    have hpositive := hq.pos hd
    rw [hzero, Nat.cast_zero, zero_mul] at hpositive
    exact lt_irrefl _ hpositive
  obtain ⟨hhigh, hlow⟩ := hq.leading hd hpos
  have hlength : 0 < (Nat.toDigits 10 c).length := Nat.length_toDigits_pos
  have hlog := length_toDigits_le_log2 c
  rw [nearest, if_neg hpos.ne', if_neg (by omega), if_neg (by omega)]
  exact ofScientific_eq hd hx hpos hq (by omega) (by omega)

end Decimals

end RatingFactors.Decimal
