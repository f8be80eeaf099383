import Mathlib.Algebra.Order.Field.Power
import Mathlib.Tactic.Linarith
import Mathlib.Tactic.Positivity
import RatingFactors.Proofs.Decimal.Stored

/-!
# Rounding to the nearest double

The library of doubles cuts a mantissa to the bits that are kept, and remembers
the rest in a round bit and a sticky bit.  What the three stand for is not
changed by cutting, and so rounding finds the magnitude that a value is nearest
to, however many bits there were.  Where rounding carries into one more bit, it
finds the power of two that the value lies below.

## Main results

* `StandsFor.shiftRight` — cutting a mantissa loses nothing.
* `roundWithAccuracy_eq` — rounding finds the magnitude that a value is near.
* `mul_eq`, `div_eq` — so do products and quotients.
-/

namespace RatingFactors.Decimal

open Float.Model Float.Model.UnpackedFloat

/-! ## Mantissas with two bits behind them -/

/-- A mantissa stands for itself, or with its round bit and its sticky bit for
what lies below, at or above the middle between it and the next one. -/
inductive StandsFor : ExtendedMantissa → ℚ → Prop
  | exact {m : ℕ} {x : ℚ} (h : x = m) : StandsFor ⟨m, false, false⟩ x
  | below {m : ℕ} {x : ℚ} (hlow : m < x) (hhigh : x < m + 1 / 2) :
      StandsFor ⟨m, false, true⟩ x
  | middle {m : ℕ} {x : ℚ} (h : x = m + 1 / 2) : StandsFor ⟨m, true, false⟩ x
  | above {m : ℕ} {x : ℚ} (hlow : m + 1 / 2 < x) (hhigh : x < m + 1) :
      StandsFor ⟨m, true, true⟩ x

namespace StandsFor

variable {em : ExtendedMantissa} {x : ℚ}

private theorem bounds (h : StandsFor em x) :
    (em.mantissa : ℚ) ≤ x ∧ x < em.mantissa + 1 := by
  cases h with
  | exact h => constructor <;> simp [h]
  | below hlow hhigh => constructor <;> simp only <;> linarith
  | middle h => constructor <;> simp only <;> linarith
  | above hlow hhigh => constructor <;> simp only <;> linarith

private theorem shiftRightOne_even (m : ℕ) (round sticky : Bool) :
    (⟨2 * m, round, sticky⟩ : ExtendedMantissa).shiftRightOne =
      ⟨m, false, round || sticky⟩ := by
  simp [ExtendedMantissa.shiftRightOne]

private theorem shiftRightOne_odd (m : ℕ) (round sticky : Bool) :
    (⟨2 * m + 1, round, sticky⟩ : ExtendedMantissa).shiftRightOne =
      ⟨m, true, round || sticky⟩ := by
  simp only [ExtendedMantissa.shiftRightOne, show (2 * m + 1) / 2 = m by omega,
    show (2 * m + 1) % 2 = 1 by omega]
  rfl

/-- Nothing is lost when a mantissa is halved. -/
theorem shiftRightOne (h : StandsFor em x) :
    StandsFor em.shiftRightOne (x / 2) := by
  obtain ⟨n, hn⟩ : ∃ n, em.mantissa = 2 * n ∨ em.mantissa = 2 * n + 1 :=
    ⟨em.mantissa / 2, by omega⟩
  rcases hn with hn | hn
  · cases h with
    | exact h =>
        subst hn
        push_cast at h
        rw [shiftRightOne_even]
        exact .exact (by linarith)
    | below hlow hhigh =>
        subst hn
        push_cast at hlow hhigh
        rw [shiftRightOne_even]
        exact .below (by linarith) (by linarith)
    | middle h =>
        subst hn
        push_cast at h
        rw [shiftRightOne_even]
        exact .below (by linarith) (by linarith)
    | above hlow hhigh =>
        subst hn
        push_cast at hlow hhigh
        rw [shiftRightOne_even]
        exact .below (by linarith) (by linarith)
  · cases h with
    | exact h =>
        subst hn
        push_cast at h
        rw [shiftRightOne_odd]
        exact .middle (by linarith)
    | below hlow hhigh =>
        subst hn
        push_cast at hlow hhigh
        rw [shiftRightOne_odd]
        exact .above (by linarith) (by linarith)
    | middle h =>
        subst hn
        push_cast at h
        rw [shiftRightOne_odd]
        exact .above (by linarith) (by linarith)
    | above hlow hhigh =>
        subst hn
        push_cast at hlow hhigh
        rw [shiftRightOne_odd]
        exact .above (by linarith) (by linarith)

theorem shiftRight (h : StandsFor em x) (n : ℕ) :
    StandsFor (em >>> n) (x / 2 ^ n) := by
  induction n with
  | zero =>
      rw [pow_zero, div_one]
      exact h
  | succ n ih =>
      rw [pow_succ, ← div_div]
      exact ih.shiftRightOne

/-- Rounding goes to the nearest mantissa, and from the middle to the even
one. -/
private theorem roundedMantissa_eq (h : StandsFor em x) {m : ℕ}
    (hlow : (m : ℚ) - 1 / 2 ≤ x) (hhigh : x ≤ m + 1 / 2)
    (hodd : m % 2 = 1 → (m : ℚ) - 1 / 2 ≠ x ∧ x ≠ m + 1 / 2) :
    em.roundedMantissa = m := by
  cases h with
  | @exact n _ h =>
      have hle : (n : ℚ) < m + 1 := by linarith
      have hge : (m : ℚ) < n + 1 := by linarith
      norm_cast at hle hge
      exact Nat.le_antisymm (Nat.lt_succ_iff.mp hle) (Nat.lt_succ_iff.mp hge)
  | @below n _ hbelow hmiddle =>
      have hle : (n : ℚ) < m + 1 := by linarith
      have hge : (m : ℚ) < n + 1 := by linarith
      norm_cast at hle hge
      exact Nat.le_antisymm (Nat.lt_succ_iff.mp hle) (Nat.lt_succ_iff.mp hge)
  | @middle n _ h =>
      have hle : (n : ℚ) ≤ m := by linarith
      have hge : (m : ℚ) ≤ n + 1 := by linarith
      norm_cast at hle hge
      rcases Nat.eq_or_lt_of_le hle with rfl | hlt
      · have heven : n % 2 = 0 :=
          Nat.mod_two_ne_one.mp fun hodd' => (hodd hodd').2 h
        change n + n % 2 = n
        omega
      · obtain rfl : m = n + 1 := by omega
        have heven : (n + 1) % 2 = 0 := Nat.mod_two_ne_one.mp fun hodd' =>
          (hodd hodd').1 (by rw [h]; push_cast; ring)
        change n + n % 2 = n + 1
        omega
  | @above n _ hmiddle hbelow =>
      have hle : (n : ℚ) < m := by linarith
      have hge : (m : ℚ) < n + 2 := by linarith
      norm_cast at hle hge
      change n + 1 = m
      omega

end StandsFor

/-! ## Magnitudes and what rounds to them -/

namespace Dyadic

/-- How far below a magnitude lies the middle between it and the one before, in
units of its own exponent. -/
def gap (d : Dyadic) : ℚ :=
  if d.narrowBelow then 1 / 4 else 1 / 2

/-- The values nearer to this magnitude than to any other, or from the middle at
least as near if the mantissa is even. -/
structure Near (d : Dyadic) (q : ℚ) : Prop where
  low : (d.mantissa - d.gap) * 2 ^ d.exponent ≤ q
  high : q ≤ (d.mantissa + 1 / 2) * 2 ^ d.exponent
  odd : d.mantissa % 2 = 1 → (d.mantissa - d.gap) * 2 ^ d.exponent ≠ q ∧
    q ≠ (d.mantissa + 1 / 2) * 2 ^ d.exponent

end Dyadic

/-! ## Rounding -/

theorem targetExponent_eq (m : ℕ) (e : ℤ) :
    Format.binary64.targetExponent (totalExponent m e) =
      max (m.log2 + e - 52) (-1074) := by
  simp only [Format.targetExponent, totalExponent, Format.mantissaBits,
    Format.minExponent]
  norm_num
  congr 1
  ring

/-- Where a mantissa has all the bits that are kept, it is cut to those. -/
private theorem shiftToTargetExponent_eq {m : ℕ} {e : ℤ} (accuracy : Accuracy)
    (hfine : 2 ^ 52 ≤ m ∨ e ≤ -1074) :
    ∃ n : ℕ, shiftToTargetExponent Format.binary64 m e accuracy =
        (ExtendedMantissa.ofMantissaAndAccuracy m accuracy >>> n, e + n) ∧
      e + n = max (m.log2 + e - 52) (-1074) := by
  refine ⟨(max (m.log2 + e - 52) (-1074) - e).toNat, ?_, ?_⟩
  · rw [shiftToTargetExponent, targetExponent_eq]
    rfl
  · have hlog : 2 ^ 52 ≤ m → 52 ≤ m.log2 :=
      fun h => (Nat.le_log2 (by omega)).mpr h
    omega

theorem log2_le_of_short {m : ℕ} (h : m < 2 ^ 53) : m.log2 ≤ 52 := by
  rcases Nat.eq_zero_or_pos m with rfl | hpos
  · simp
  · exact Nat.lt_succ_iff.mp ((Nat.log2_lt hpos.ne').mpr h)

private theorem shiftToTargetExponent_short {m : ℕ} {e : ℤ} (hm : m < 2 ^ 53)
    (he : -1074 ≤ e) :
    shiftToTargetExponent Format.binary64 m e .exact =
      (⟨m, false, false⟩, e) := by
  have hlog := log2_le_of_short hm
  have hshift : (max ((m.log2 : ℤ) + e - 52) (-1074) - e).toNat = 0 := by omega
  rw [shiftToTargetExponent, targetExponent_eq, shiftToExponent, hshift]
  exact Prod.ext rfl (add_zero e)

private theorem shiftToTargetExponent_carry {e : ℤ} (he : -1074 ≤ e) :
    shiftToTargetExponent Format.binary64 (2 ^ 53) e .exact =
      (⟨2 ^ 52, false, false⟩, e + 1) := by
  have hshift : (max (((2 ^ 53).log2 : ℤ) + e - 52) (-1074) - e).toNat = 1 := by
    rw [Nat.log2_two_pow]
    omega
  rw [shiftToTargetExponent, targetExponent_eq, shiftToExponent, hshift]
  rfl

private theorem roundWithAccuracy_of_rounded {m r n : ℕ} {e t t' : ℤ}
    {accuracy : Accuracy} {em : ExtendedMantissa} (s : Sign)
    (hfirst : shiftToTargetExponent Format.binary64 m e accuracy = (em, t))
    (hrounded : em.roundedMantissa = r)
    (hsecond : shiftToTargetExponent Format.binary64 r t .exact =
      (⟨n, false, false⟩, t')) (hpos : 0 < n) :
    roundWithAccuracy Format.binary64 s m e accuracy = .finite s n t' hpos := by
  rw [roundWithAccuracy, hfirst]
  simp only [hrounded, hsecond]
  rw [dif_neg hpos.ne']

private theorem mantissa_ofMantissaAndAccuracy (m : ℕ) (accuracy : Accuracy) :
    (ExtendedMantissa.ofMantissaAndAccuracy m accuracy).mantissa = m := by
  cases accuracy with
  | exact => rfl
  | inexact order => cases order <;> rfl

/-- What a mantissa stands for has the same leading bit. -/
theorem StandsFor.leading {m : ℕ} {e : ℤ} {accuracy : Accuracy} {q : ℚ}
    (h : StandsFor (ExtendedMantissa.ofMantissaAndAccuracy m accuracy)
      (q / 2 ^ e)) :
    (m ≠ 0 → 2 ^ (m.log2 + e) ≤ q) ∧ q < 2 ^ (m.log2 + 1 + e) := by
  have hunit : (0 : ℚ) < 2 ^ e := by positivity
  obtain ⟨hlow, hhigh⟩ := h.bounds
  rw [mantissa_ofMantissaAndAccuracy] at hlow hhigh
  rw [le_div_iff₀ hunit] at hlow
  rw [div_lt_iff₀ hunit] at hhigh
  constructor
  · intro hm
    have hpow : (2 : ℚ) ^ m.log2 ≤ m := by exact_mod_cast Nat.log2_self_le hm
    calc (2 : ℚ) ^ (m.log2 + e)
        = 2 ^ m.log2 * 2 ^ e := by rw [zpow_add₀ two_ne_zero, zpow_natCast]
      _ ≤ m * 2 ^ e := mul_le_mul_of_nonneg_right hpow hunit.le
      _ ≤ q := hlow
  · have hpow : (m : ℚ) + 1 ≤ 2 ^ (m.log2 + 1) := by
      exact_mod_cast @Nat.lt_log2_self m
    calc q < (m + 1) * 2 ^ e := hhigh
      _ ≤ 2 ^ (m.log2 + 1) * 2 ^ e := mul_le_mul_of_nonneg_right hpow hunit.le
      _ = 2 ^ (m.log2 + 1 + e) := by
        rw [zpow_add₀ two_ne_zero, ← zpow_natCast]
        push_cast
        rfl

namespace Dyadic

variable {d : Dyadic} {q : ℚ}

theorem gap_le (d : Dyadic) : d.gap ≤ 1 / 2 := by
  rw [gap]
  split <;> norm_num

private theorem Storable.gap_of_odd (hd : d.Storable)
    (hodd : d.mantissa % 2 = 1) : d.gap = 1 / 2 := by
  rw [gap, if_neg]
  intro hnarrow
  rw [(hd.narrow.mp hnarrow).1] at hodd
  omega

/-- What is near a magnitude, in units of its own exponent. -/
theorem Near.scaled (hd : d.Storable) (h : d.Near q) :
    (d.mantissa : ℚ) - 1 / 2 ≤ q / 2 ^ d.exponent ∧
      q / 2 ^ d.exponent ≤ d.mantissa + 1 / 2 ∧
      (d.mantissa % 2 = 1 → (d.mantissa : ℚ) - 1 / 2 ≠ q / 2 ^ d.exponent ∧
        q / 2 ^ d.exponent ≠ d.mantissa + 1 / 2) := by
  have hunit : (0 : ℚ) < 2 ^ d.exponent := by positivity
  refine ⟨?_, ?_, fun hodd => ⟨?_, ?_⟩⟩
  · rw [le_div_iff₀ hunit]
    refine le_trans (mul_le_mul_of_nonneg_right ?_ hunit.le) h.low
    linarith [d.gap_le]
  · rw [div_le_iff₀ hunit]
    exact h.high
  · rw [Ne, eq_div_iff hunit.ne', ← hd.gap_of_odd hodd]
    exact (h.odd hodd).1
  · rw [Ne, div_eq_iff hunit.ne']
    exact (h.odd hodd).2

theorem Near.lt (hd : d.Storable) (h : d.Near q) :
    q < 2 ^ (53 + d.exponent) := by
  have hunit : (0 : ℚ) < 2 ^ d.exponent := by positivity
  have hshort : (d.mantissa : ℚ) + 1 ≤ 2 ^ 53 := by exact_mod_cast hd.short
  calc q ≤ (d.mantissa + 1 / 2) * 2 ^ d.exponent := h.high
    _ < 2 ^ 53 * 2 ^ d.exponent := mul_lt_mul_of_pos_right (by linarith) hunit
    _ = 2 ^ (53 + d.exponent) := by rw [zpow_add₀ two_ne_zero]; rfl

/-- What is near a magnitude but has a lower leading bit is rounded up to it. -/
theorem Near.below (hd : d.Storable) (h : d.Near q) (hlow : -1074 < d.exponent)
    (hbelow : q < 2 ^ (52 + d.exponent)) :
    d.mantissa = 2 ^ 52 ∧ (2 ^ 53 : ℚ) - 1 / 2 ≤ q / 2 ^ (d.exponent - 1) ∧
      q / 2 ^ (d.exponent - 1) ≤ 2 ^ 53 := by
  have hunit : (0 : ℚ) < 2 ^ d.exponent := by positivity
  have hhalf : (2 : ℚ) ^ (d.exponent - 1) = 2 ^ d.exponent / 2 := by
    rw [zpow_sub_one₀ two_ne_zero]
    rfl
  rw [zpow_add₀ two_ne_zero] at hbelow
  have hmantissa : d.mantissa = 2 ^ 52 := by
    have hlt : (d.mantissa : ℚ) - d.gap < 2 ^ 52 :=
      lt_of_mul_lt_mul_right (lt_of_le_of_lt h.low hbelow) hunit.le
    have hle : (d.mantissa : ℚ) < 2 ^ 52 + 1 := by linarith [d.gap_le]
    have hfull := hd.full
    norm_cast at hle
    omega
  have hgap : d.gap = 1 / 4 := if_pos (hd.narrow.mpr ⟨hmantissa, hlow⟩)
  have hnear := h.low
  rw [hmantissa, hgap] at hnear
  refine ⟨hmantissa, ?_, ?_⟩
  · rw [hhalf, le_div_iff₀ (by linarith)]
    push_cast at hnear
    linarith
  · rw [hhalf, div_le_iff₀ (by linarith)]
    norm_num at hbelow ⊢
    linarith

end Dyadic

/-- Rounding finds the magnitude that a value is near. -/
theorem roundWithAccuracy_eq {d : Dyadic} (hd : d.Storable) {q : ℚ}
    (hq : d.Near q) (s : Sign) {m : ℕ} {e : ℤ} {accuracy : Accuracy}
    (hstands : StandsFor (ExtendedMantissa.ofMantissaAndAccuracy m accuracy)
      (q / 2 ^ e)) (hfine : 2 ^ 52 ≤ m ∨ e ≤ -1074) :
    roundWithAccuracy Format.binary64 s m e accuracy =
      .finite s d.mantissa d.exponent hd.pos := by
  obtain ⟨n, hfirst, htarget⟩ := shiftToTargetExponent_eq accuracy hfine
  obtain ⟨hlow, hhigh⟩ := hstands.leading
  have hshifted := hstands.shiftRight n
  rw [div_div, ← zpow_natCast, ← zpow_add₀ two_ne_zero] at hshifted
  have hlowest := hd.low
  have hle : e + n ≤ d.exponent := by
    rcases Nat.eq_zero_or_pos m with rfl | hpos
    · rw [Nat.log2_zero] at htarget
      omega
    · have hleading : (m.log2 : ℤ) + e < 53 + d.exponent :=
        (zpow_lt_zpow_iff_right₀ one_lt_two).mp
          (lt_of_le_of_lt (hlow hpos.ne') (hq.lt hd))
      omega
  by_cases hsame : e + n = d.exponent
  · rw [hsame] at hfirst hshifted
    obtain ⟨hnear, hnear', hodd⟩ := hq.scaled hd
    exact roundWithAccuracy_of_rounded s hfirst
      (hshifted.roundedMantissa_eq hnear hnear' hodd)
      (shiftToTargetExponent_short hd.short hd.low) hd.pos
  · -- the value is cut one bit further than the magnitude, and rounding carries
    -- into it
    have hbelow : q < 2 ^ (52 + d.exponent) := by
      by_contra hnot
      have hleading : 52 + d.exponent < (m.log2 : ℤ) + 1 + e :=
        (zpow_lt_zpow_iff_right₀ one_lt_two).mp
          (lt_of_le_of_lt (not_lt.mp hnot) hhigh)
      omega
    obtain ⟨hmantissa, hnear, hnear'⟩ := hq.below hd (by omega) hbelow
    have hleast : (2 : ℚ) ^ (51 + d.exponent) ≤ q := by
      have hunit : (0 : ℚ) < 2 ^ (d.exponent - 1) := by positivity
      rw [le_div_iff₀ hunit] at hnear
      calc (2 : ℚ) ^ (51 + d.exponent)
          = 2 ^ 52 * 2 ^ (d.exponent - 1) := by
            rw [← zpow_natCast, ← zpow_add₀ two_ne_zero]
            congr 1
            push_cast
            ring
        _ ≤ (2 ^ 53 - 1 / 2) * 2 ^ (d.exponent - 1) :=
            mul_le_mul_of_nonneg_right (by norm_num) hunit.le
        _ ≤ q := hnear
    have hleading : 51 + d.exponent < (m.log2 : ℤ) + 1 + e :=
      (zpow_lt_zpow_iff_right₀ one_lt_two).mp (lt_of_le_of_lt hleast hhigh)
    have hbefore : e + n = d.exponent - 1 := by omega
    rw [hbefore] at hfirst hshifted
    have hrounded := @StandsFor.roundedMantissa_eq _ _ hshifted (2 ^ 53)
      (by push_cast; exact hnear) (by push_cast; linarith) (by norm_num)
    have hcarry := roundWithAccuracy_of_rounded s hfirst hrounded
      (shiftToTargetExponent_carry (by omega)) (by norm_num)
    rw [hcarry]
    congr 1
    · exact hmantissa.symm
    · omega

/-! ## Products and quotients -/

theorem standsFor_exact (m : ℕ) :
    StandsFor (ExtendedMantissa.ofMantissaAndAccuracy m .exact) m :=
  .exact rfl

/-- A quotient of whole numbers with what its remainder says about the rest. -/
theorem standsFor_div (m : ℕ) {n : ℕ} (hn : 0 < n) :
    StandsFor (ExtendedMantissa.ofMantissaAndAccuracy (m / n)
      (accuracyOfFraction (m % n) n)) (m / n) := by
  have hpos : (0 : ℚ) < n := by exact_mod_cast hn
  have hdivision : (m : ℚ) = n * (m / n : ℕ) + (m % n : ℕ) := by
    exact_mod_cast (Nat.div_add_mod m n).symm
  have hrest : ((m % n : ℕ) : ℚ) < n := by exact_mod_cast Nat.mod_lt m hn
  rw [accuracyOfFraction]
  split
  · next hzero =>
    rw [hzero, Nat.cast_zero] at hdivision
    exact .exact (by rw [div_eq_iff hpos.ne']; linarith)
  · next hsome =>
    have hsome' : (0 : ℚ) < (m % n : ℕ) := by
      exact_mod_cast Nat.pos_of_ne_zero hsome
    cases horder : compare (2 * (m % n)) n with
    | lt =>
        have hlt : (2 * (m % n : ℕ) : ℚ) < n := by
          exact_mod_cast Nat.compare_eq_lt.mp horder
        exact .below (by rw [lt_div_iff₀ hpos]; linarith)
          (by rw [div_lt_iff₀ hpos]; linarith)
    | eq =>
        have heq : (2 * (m % n : ℕ) : ℚ) = n := by
          exact_mod_cast Nat.compare_eq_eq.mp horder
        exact .middle (by rw [div_eq_iff hpos.ne']; linarith)
    | gt =>
        have hgt : (n : ℚ) < 2 * (m % n : ℕ) := by
          exact_mod_cast Nat.compare_eq_gt.mp horder
        exact .above (by rw [lt_div_iff₀ hpos]; linarith)
          (by rw [div_lt_iff₀ hpos]; linarith)

variable {d : Dyadic} {m n : ℕ} {e f : ℤ}

theorem mul_eq (hd : d.Storable) (hm : 0 < m) (hn : 0 < n)
    (hq : d.Near (m * 2 ^ e * (n * 2 ^ f))) (hfine : 2 ^ 52 ≤ m * n) :
    UnpackedFloat.mul Format.binary64 (.finite .positive m e hm)
      (.finite .positive n f hn) =
      .finite .positive d.mantissa d.exponent hd.pos := by
  refine roundWithAccuracy_eq hd hq .positive ?_ (.inl hfine)
  have hunit : (2 : ℚ) ^ (e + f) ≠ 0 := by positivity
  have hvalue : (m * 2 ^ e * (n * 2 ^ f) : ℚ) / 2 ^ (e + f) = (m * n : ℕ) := by
    rw [div_eq_iff hunit, zpow_add₀ two_ne_zero]
    push_cast
    ring
  rw [hvalue]
  exact standsFor_exact _

/-- A quotient is cut to at least as many bits as are kept. -/
theorem div_fine (hm : 0 < m) (hn : 0 < n) {k : ℕ}
    (hk : (n.log2 : ℤ) + 53 ≤ m.log2 + k) : 2 ^ 52 ≤ (m <<< k) / n := by
  rw [Nat.le_div_iff_mul_le hn, Nat.shiftLeft_eq]
  calc 2 ^ 52 * n
      ≤ 2 ^ 52 * 2 ^ (n.log2 + 1) := Nat.mul_le_mul_left _ Nat.lt_log2_self.le
    _ = 2 ^ (52 + (n.log2 + 1)) := (Nat.pow_add ..).symm
    _ ≤ 2 ^ (m.log2 + k) := Nat.pow_le_pow_right (by decide) (by omega)
    _ = 2 ^ m.log2 * 2 ^ k := Nat.pow_add ..
    _ ≤ m * 2 ^ k := Nat.mul_le_mul_right _ (Nat.log2_self_le hm.ne')

theorem div_eq (hd : d.Storable) (hm : 0 < m) (hn : 0 < n)
    (hq : d.Near (m * 2 ^ e / (n * 2 ^ f))) :
    UnpackedFloat.div Format.binary64 (.finite .positive m e hm)
      (.finite .positive n f hn) =
      .finite .positive d.mantissa d.exponent hd.pos := by
  have htarget : Format.binary64.targetExponent
      (totalExponent m e - totalExponent n f) =
        max ((m.log2 + e) - (n.log2 + f) - 53) (-1074) := by
    simp only [Format.targetExponent, totalExponent, Format.mantissaBits,
      Format.minExponent]
    norm_num
    congr 1
    ring
  obtain ⟨t, ht⟩ : ∃ t, t = min (e - f) (Format.binary64.targetExponent
      (totalExponent m e - totalExponent n f)) := ⟨_, rfl⟩
  obtain ⟨k, hk⟩ : ∃ k, k = (e - f - t).toNat := ⟨_, rfl⟩
  have hsum : t + k = e - f := by omega
  have hunit : (2 : ℚ) ^ t ≠ 0 := by positivity
  have hvalue : (m * 2 ^ e / (n * 2 ^ f) : ℚ) / 2 ^ t = (m <<< k : ℕ) / n := by
    have hpow : (2 : ℚ) ^ e / 2 ^ f = 2 ^ t * 2 ^ k := by
      rw [← zpow_sub₀ two_ne_zero, ← hsum, zpow_add₀ two_ne_zero, zpow_natCast]
    rw [Nat.shiftLeft_eq, mul_div_mul_comm, hpow, div_eq_iff hunit]
    push_cast
    ring
  have hrounded : roundWithAccuracy Format.binary64 .positive ((m <<< k) / n) t
      (accuracyOfFraction ((m <<< k) % n) n) =
        .finite .positive d.mantissa d.exponent hd.pos := by
    refine roundWithAccuracy_eq hd hq .positive ?_ ?_
    · rw [hvalue]
      exact standsFor_div _ hn
    · rw [htarget] at ht
      by_cases hlow : t ≤ -1074
      · exact .inr hlow
      · exact .inl (div_fine hm hn (by omega))
  rw [hk, ht] at hrounded
  exact hrounded

end RatingFactors.Decimal
