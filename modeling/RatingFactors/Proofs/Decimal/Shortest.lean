import RatingFactors.Decimal.Shortest
import RatingFactors.Proofs.Decimal.Nearest

/-!
# The shortest digits of a magnitude

The search for the shortest digits tests the two neighbours of a magnitude on
one grid after the other.  The test is done in whole numbers and decides what is
near the magnitude; the grid of seventeen digits is finer than the stretch of
values near it, so that one of the neighbours there always passes.

## Main results

* `roundsTo_iff` — the test in whole numbers.
* `onGrid?_seventeen` — seventeen digits suffice.
* `near_shortest` — the shortest digits are near the magnitude.
-/

namespace RatingFactors.Decimal

/-! ## Powers with a sign -/

theorem zpow_mul_toNat {a : ℚ} (ha : a ≠ 0) (e : ℤ) :
    a ^ e * a ^ (-e).toNat = a ^ e.toNat := by
  rcases le_total 0 e with he | he
  · rw [show (-e).toNat = 0 by omega, pow_zero, mul_one, ← zpow_natCast,
      Int.toNat_of_nonneg he]
  · rw [show e.toNat = 0 by omega, pow_zero, ← zpow_natCast, ← zpow_add₀ ha,
      Int.toNat_of_nonneg (by omega), add_neg_cancel, zpow_zero]

namespace Dyadic

variable {d : Dyadic} {c : ℕ} {k : ℤ}

private theorem cast_powerOfTwo (n : ℕ) : (powerOfTwo n : ℚ) = 2 ^ n := by
  exact_mod_cast (rfl : powerOfTwo n = 2 ^ n)

private theorem cast_powerOfTen (n : ℕ) : (powerOfTen n : ℚ) = 10 ^ n := by
  exact_mod_cast (rfl : powerOfTen n = 10 ^ n)

/-- The value as a quotient of whole numbers. -/
private theorem numerator_eq (d : Dyadic) :
    (d.numerator : ℚ) = d.mantissa * 2 ^ d.exponent * d.denominator := by
  rw [numerator, denominator, Nat.cast_mul, cast_powerOfTwo, cast_powerOfTwo,
    mul_assoc, zpow_mul_toNat two_ne_zero]

/-! ## Tests in whole numbers -/

theorem near_iff {q : ℚ} : d.Near q ↔
    if d.mantissa % 2 = 0 then (d.mantissa - d.gap) * 2 ^ d.exponent ≤ q ∧
      q ≤ (d.mantissa + 1 / 2) * 2 ^ d.exponent
    else (d.mantissa - d.gap) * 2 ^ d.exponent < q ∧
      q < (d.mantissa + 1 / 2) * 2 ^ d.exponent := by
  split
  · next heven =>
    exact ⟨fun h => ⟨h.low, h.high⟩,
      fun h => ⟨h.1, h.2, fun hodd => by omega⟩⟩
  · next hodd =>
    have hodd : d.mantissa % 2 = 1 := by omega
    exact ⟨fun h => ⟨lt_of_le_of_ne h.low (h.odd hodd).1,
        lt_of_le_of_ne h.high (h.odd hodd).2⟩,
      fun h => ⟨h.1.le, h.2.le, fun _ => ⟨h.1.ne, h.2.ne⟩⟩⟩

/-- The test in whole numbers decides what is near a magnitude. -/
theorem roundsTo_iff (hd : d.Storable) :
    d.roundsTo c k = true ↔ d.Near (c * 10 ^ k) := by
  obtain ⟨scale, hscale⟩ :
      ∃ scale : ℚ, scale = 4 * 2 ^ (-d.exponent).toNat * 10 ^ (-k).toNat :=
    ⟨_, rfl⟩
  have hpos : 0 < scale := by rw [hscale]; positivity
  have hunit :
      ((powerOfTwo d.exponent.toNat * powerOfTen (-k).toNat : ℕ) : ℚ) * 4 =
        2 ^ d.exponent * scale := by
    rw [Nat.cast_mul, cast_powerOfTwo, cast_powerOfTen,
      ← zpow_mul_toNat two_ne_zero, hscale]
    ring
  have hlow : (((4 * d.mantissa - (if d.narrowBelow then 1 else 2)) *
      (powerOfTwo d.exponent.toNat * powerOfTen (-k).toNat) : ℕ) : ℚ) =
        (d.mantissa - d.gap) * 2 ^ d.exponent * scale := by
    have hmantissa := hd.pos
    have hfour : ((4 * d.mantissa - (if d.narrowBelow then 1 else 2) : ℕ) : ℚ) =
        (d.mantissa - d.gap) * 4 := by
      rw [gap]
      split
      · rw [Nat.cast_sub (by omega)]
        push_cast
        ring
      · rw [Nat.cast_sub (by omega)]
        push_cast
        ring
    rw [Nat.cast_mul, hfour, mul_assoc _ (2 ^ d.exponent : ℚ), ← hunit]
    ring
  have hhigh : (((4 * d.mantissa + 2) *
      (powerOfTwo d.exponent.toNat * powerOfTen (-k).toNat) : ℕ) : ℚ) =
        (d.mantissa + 1 / 2) * 2 ^ d.exponent * scale := by
    rw [Nat.cast_mul, mul_assoc _ (2 ^ d.exponent : ℚ), ← hunit]
    push_cast
    ring
  have hcandidate : ((4 * c * powerOfTen k.toNat * d.denominator : ℕ) : ℚ) =
      c * 10 ^ k * scale := by
    rw [Nat.cast_mul, Nat.cast_mul, cast_powerOfTen,
      ← zpow_mul_toNat (by norm_num), denominator, cast_powerOfTwo, hscale]
    push_cast
    ring
  rw [near_iff, roundsTo]
  split
  · rw [Bool.and_eq_true, decide_eq_true_iff, decide_eq_true_iff]
    rw [← @Nat.cast_le ℚ, ← @Nat.cast_le ℚ, hlow, hhigh, hcandidate,
      mul_le_mul_iff_left₀ hpos, mul_le_mul_iff_left₀ hpos]
  · rw [Bool.and_eq_true, decide_eq_true_iff, decide_eq_true_iff]
    rw [← @Nat.cast_lt ℚ, ← @Nat.cast_lt ℚ, hlow, hhigh, hcandidate,
      mul_lt_mul_iff_left₀ hpos, mul_lt_mul_iff_left₀ hpos]

/-! ## One grid -/

theorem roundDiv_cases (num den : ℕ) :
    roundDiv num den = num / den ∨ roundDiv num den = num / den + 1 := by
  rw [roundDiv]
  split
  · exact .inl rfl
  · split
    · exact .inr rfl
    · rcases Nat.mod_two_eq_zero_or_one (num / den) with h | h
      · exact .inl (by rw [h, add_zero])
      · exact .inr (by rw [h])

private theorem roundsTo_of_onGrid? (h : d.onGrid? k = some c) :
    d.roundsTo c k = true := by
  rw [onGrid?] at h
  split at h
  · next hbelow habove =>
    rw [← Option.some.inj h]
    rcases roundDiv_cases (d.numerator * powerOfTen (-k).toNat)
      (d.denominator * powerOfTen k.toNat) with hround | hround
    · rw [hround]
      exact hbelow
    · rw [hround]
      exact habove
  · next hbelow _ =>
    rw [← Option.some.inj h]
    exact hbelow
  · next _ habove =>
    rw [← Option.some.inj h]
    exact habove
  · cases h

private theorem onGrid?_isSome
    (hc : c = d.numerator * powerOfTen (-k).toNat /
      (d.denominator * powerOfTen k.toNat))
    (h : d.roundsTo c k = true ∨ d.roundsTo (c + 1) k = true) :
    (d.onGrid? k).isSome := by
  rw [onGrid?, ← hc]
  split
  · rfl
  · rfl
  · rfl
  · next hbelow habove =>
    rcases h with h | h
    · rw [h] at hbelow
      cases hbelow
    · rw [h] at habove
      cases habove

/-- The neighbours on a grid are those around the exact value. -/
theorem grid_bounds (d : Dyadic) (k : ℤ)
    (hc : c = d.numerator * powerOfTen (-k).toNat /
      (d.denominator * powerOfTen k.toNat)) :
    c * 10 ^ k ≤ (d.mantissa * 2 ^ d.exponent : ℚ) ∧
      (d.mantissa * 2 ^ d.exponent : ℚ) < (c + 1) * 10 ^ k := by
  have hden : 0 < d.denominator * powerOfTen k.toNat :=
    Nat.mul_pos d.denominator_pos (Nat.pow_pos (by decide))
  have hfloor : c * (d.denominator * powerOfTen k.toNat) ≤
      d.numerator * powerOfTen (-k).toNat := by
    rw [hc]
    exact Nat.div_mul_le_self ..
  have hceil : d.numerator * powerOfTen (-k).toNat <
      (c + 1) * (d.denominator * powerOfTen k.toNat) := by
    rw [← Nat.div_lt_iff_lt_mul hden, ← hc]
    exact Nat.lt_succ_self c
  have hfloor' : (c : ℚ) * (d.denominator * powerOfTen k.toNat) ≤
      d.numerator * powerOfTen (-k).toNat := by exact_mod_cast hfloor
  have hceil' : (d.numerator : ℚ) * powerOfTen (-k).toNat <
      (c + 1) * (d.denominator * powerOfTen k.toNat) := by exact_mod_cast hceil
  have hscale : (0 : ℚ) < d.denominator * 10 ^ (-k).toNat :=
    mul_pos (by exact_mod_cast d.denominator_pos) (by positivity)
  rw [numerator_eq, cast_powerOfTen, cast_powerOfTen,
    ← zpow_mul_toNat (show (10 : ℚ) ≠ 0 by norm_num) k] at hfloor' hceil'
  constructor
  · refine le_of_mul_le_mul_right ?_ hscale
    linarith
  · refine lt_of_mul_lt_mul_right ?_ hscale.le
    linarith

/-- A grid with sixteen digits more than a magnitude is finer than the stretch
of values that are near it. -/
private theorem grid_lt (hd : d.Storable)
    (hfine : (10 : ℚ) ^ k * 10 ^ 16 ≤ d.mantissa * 2 ^ d.exponent) :
    (10 : ℚ) ^ k < (d.gap + 1 / 2) * 2 ^ d.exponent := by
  have hunit : (0 : ℚ) < 2 ^ d.exponent := by positivity
  rw [gap]
  split
  · next hnarrow =>
    rw [(hd.narrow.mp hnarrow).1] at hfine
    push_cast at hfine
    linarith
  · have hshort : (d.mantissa : ℚ) < 2 ^ 53 := by exact_mod_cast hd.short
    have hvalue := mul_lt_mul_of_pos_right hshort hunit
    linarith

/-- On a grid that is fine enough one of the neighbours is near. -/
private theorem near_of_fine (hd : d.Storable)
    (hfine : (10 : ℚ) ^ k * 10 ^ 16 ≤ d.mantissa * 2 ^ d.exponent)
    (hlow : c * 10 ^ k ≤ (d.mantissa * 2 ^ d.exponent : ℚ))
    (hhigh : (d.mantissa * 2 ^ d.exponent : ℚ) < (c + 1) * 10 ^ k) :
    d.Near (c * 10 ^ k) ∨ d.Near ((c + 1 : ℕ) * 10 ^ k) := by
  have hunit : (0 : ℚ) < 2 ^ d.exponent := by positivity
  have hhalf : (d.mantissa : ℚ) * 2 ^ d.exponent <
      (d.mantissa + 1 / 2) * 2 ^ d.exponent :=
    mul_lt_mul_of_pos_right (by linarith) hunit
  have hgap : ((d.mantissa : ℚ) - d.gap) * 2 ^ d.exponent <
      d.mantissa * 2 ^ d.exponent :=
    mul_lt_mul_of_pos_right (by linarith [d.gap_pos]) hunit
  push_cast
  by_cases habove : ((c : ℚ) + 1) * 10 ^ k <
    (d.mantissa + 1 / 2) * 2 ^ d.exponent
  · refine .inr ⟨(hgap.trans hhigh).le, habove.le,
      fun _ => ⟨(hgap.trans hhigh).ne, habove.ne⟩⟩
  · -- the other neighbour is then closer than the middle, since the grid is
    -- fine
    have hbelow : ((d.mantissa : ℚ) - d.gap) * 2 ^ d.exponent < c * 10 ^ k := by
      linarith [grid_lt hd hfine]
    exact .inl ⟨hbelow.le, (lt_of_le_of_lt hlow hhalf).le,
      fun _ => ⟨hbelow.ne, (lt_of_le_of_lt hlow hhalf).ne⟩⟩

/-! ## The leading digit -/

theorem leadingExponent_le {num den : ℕ} (hnum : 0 < num) (hden : 0 < den) :
    (10 : ℚ) ^ leadingExponent num den * den ≤ num := by
  rw [leadingExponent]
  split
  · next hle =>
    have hquotient : 0 < num / den := Nat.div_pos hle hden
    obtain ⟨hlead, -⟩ := length_toDigits_bounds hquotient
    have hlength : 0 < digitCount (num / den) := Nat.length_toDigits_pos
    have hexponent : ((digitCount (num / den) : ℤ) - 1) =
        (digitCount (num / den) - 1 : ℕ) := by
      omega
    have hproduct : 10 ^ (digitCount (num / den) - 1) * den ≤ num :=
      le_trans (Nat.mul_le_mul_right _ hlead) (Nat.div_mul_le_self ..)
    rw [hexponent, zpow_natCast]
    exact_mod_cast hproduct
  · next hlt =>
    have hquotient : 0 < den / num := Nat.div_pos (by omega) hnum
    obtain ⟨-, hless⟩ := length_toDigits_bounds hquotient
    have hlength : 0 < digitCount (den / num) := Nat.length_toDigits_pos
    dsimp only
    split
    · next hle =>
      have hexponent : (-((digitCount (den / num) : ℤ) - 1)) =
          -((digitCount (den / num) - 1 : ℕ) : ℤ) := by omega
      rw [hexponent, zpow_neg, zpow_natCast, inv_mul_le_iff₀ (by positivity),
        mul_comm]
      exact_mod_cast hle
    · rw [zpow_neg, zpow_natCast, inv_mul_le_iff₀ (by positivity)]
      have hproduct : den < 10 ^ digitCount (den / num) * num :=
        (Nat.div_lt_iff_lt_mul hnum).mp hless
      exact_mod_cast hproduct.le

/-! ## The shortest digits -/

theorem value_trimZeros (c : ℕ) (k : ℤ) (n : ℕ) :
    ((trimZeros c k n).digits * 10 ^ (trimZeros c k n).exponent : ℚ) =
      c * 10 ^ k := by
  induction n generalizing c k with
  | zero => rfl
  | succ n ih =>
      rw [trimZeros]
      split
      · next hzero =>
        have hc : (c : ℚ) = (c / 10 : ℕ) * 10 := by
          exact_mod_cast (Nat.div_mul_cancel
            (Nat.dvd_of_mod_eq_zero hzero)).symm
        rw [ih, zpow_add₀ (by norm_num), zpow_one, hc]
        ring
      · rfl

/-- Seventeen digits suffice. -/
theorem onGrid?_seventeen (hd : d.Storable) :
    (d.onGrid? (d.decimalExponent - 16)).isSome := by
  have hden : (0 : ℚ) < d.denominator := by exact_mod_cast d.denominator_pos
  have hnum : 0 < d.numerator := Nat.mul_pos hd.pos (Nat.two_pow_pos _)
  have hlead := leadingExponent_le hnum d.denominator_pos
  have hfine : (10 : ℚ) ^ (d.decimalExponent - 16) * 10 ^ 16 ≤
      d.mantissa * 2 ^ d.exponent := by
    rw [numerator_eq, mul_le_mul_iff_left₀ hden] at hlead
    calc (10 : ℚ) ^ (d.decimalExponent - 16) * 10 ^ 16
        = 10 ^ d.decimalExponent := by
          rw [zpow_sub₀ (by norm_num)]
          field_simp
      _ ≤ d.mantissa * 2 ^ d.exponent := hlead
  obtain ⟨hlow, hhigh⟩ := grid_bounds d (d.decimalExponent - 16) rfl
  refine onGrid?_isSome rfl ?_
  rw [roundsTo_iff hd, roundsTo_iff hd]
  exact near_of_fine hd hfine hlow hhigh

/-- The shortest digits are near the magnitude that they are chosen for. -/
theorem near_shortest (hd : d.Storable) :
    d.Near (d.shortest.digits * 10 ^ d.shortest.exponent) := by
  have hsome : ((List.range' 1 17).findSome? fun (n : Nat) =>
      (d.onGrid? (d.decimalExponent - (n : Int) + 1)).map fun c =>
        trimZeros c (d.decimalExponent - (n : Int) + 1) n).isSome := by
    rw [List.findSome?_isSome_iff]
    refine ⟨17, by decide, ?_⟩
    rw [Option.isSome_map, show d.decimalExponent - ((17 : ℕ) : ℤ) + 1 =
      d.decimalExponent - 16 by omega]
    exact onGrid?_seventeen hd
  obtain ⟨s, hs⟩ := Option.isSome_iff_exists.mp hsome
  have hshortest : d.shortest = s := by
    rw [shortest]
    dsimp only
    rw [hs, Option.getD_some]
  obtain ⟨n, -, hn⟩ := List.exists_of_findSome?_eq_some hs
  obtain ⟨c, hc, rfl⟩ := Option.map_eq_some_iff.mp hn
  rw [hshortest, value_trimZeros]
  exact (roundsTo_iff hd).mp (roundsTo_of_onGrid? hc)

end Dyadic

end RatingFactors.Decimal
