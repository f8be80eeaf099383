import Mathlib
import RatingFactors.Proofs.Decimal.Finite

/-!
# How a magnitude is stored

The fields that `classify` reads off a double are those that the library of
doubles works with, and so the magnitude of a double is its mantissa and its
exponent there too.  A double is determined by them and its sign.

The lemmas about doubles that this rests on come with the whole of Mathlib only,
and with none of its parts.

## Main results

* `unpack_of_classify` — the magnitude of a double is stored as it is.
* `pack_eq`, `eq_of_unpack` — a double is found again from what is stored.
* `unpack_pack` — what is stored is found again.
-/

namespace RatingFactors.Decimal

open Float.Model Float.Model.UnpackedFloat

namespace Dyadic

/-- The magnitudes that a double can have, zero left out. -/
structure Storable (d : Dyadic) : Prop where
  pos : 0 < d.mantissa
  short : d.mantissa < 2 ^ 53
  low : -1074 ≤ d.exponent
  high : d.exponent ≤ 971
  full : d.exponent = -1074 ∨ 2 ^ 52 ≤ d.mantissa
  narrow : d.narrowBelow = true ↔ d.mantissa = 2 ^ 52 ∧ -1074 < d.exponent

end Dyadic

/-! ## From the fields of a double to its magnitude -/

/-- A sign as the library of doubles has it. -/
def signOf (negative : Bool) : Sign :=
  if negative then .negative else .positive

private theorem fraction_eq (x : Float) :
    x.toBits.toNat % powerOfTwo 52 =
      (@unpackMantissa Format.binary64 x.toModel.toBits.toBitVec).toNat := by
  have hbits : x.toBits = x.toModel.toBits := rfl
  rw [hbits]
  simp [unpackMantissa, powerOfTwo]

private theorem signOf_toNat (b : BitVec 1) :
    signOf (b.toNat == 1) = Sign.ofBitVec b := by
  rcases BitVec.eq_zero_or_eq_one b with rfl | rfl
  · rfl
  · rfl

private theorem sign_eq (x : Float) :
    signOf (x.toBits.toNat / powerOfTwo 63 % 2 == 1) =
      Sign.ofBitVec (@unpackSign Format.binary64
        x.toModel.toBits.toBitVec) := by
  have hbits : x.toBits = x.toModel.toBits := rfl
  have hfield : x.toBits.toNat / powerOfTwo 63 % 2 =
      (@unpackSign Format.binary64 x.toModel.toBits.toBitVec).toNat := by
    rw [hbits]
    simp [unpackSign, powerOfTwo, Nat.shiftRight_eq_div_pow]
  rw [hfield]
  exact signOf_toNat _

private theorem toNat_implicit (b : BitVec 52) :
    (1#1 ++ b).toNat = 2 ^ 52 + b.toNat := by
  rw [BitVec.toNat_append, ← Nat.shiftLeft_add_eq_or_of_lt b.isLt]
  rfl

private theorem finite_congr {s s' : Sign} {m m' : ℕ} {e e' : ℤ} {hm : 0 < m}
    {hm' : 0 < m'} (hs : s = s') (hmantissa : m = m') (he : e = e') :
    UnpackedFloat.finite s m e hm = .finite s' m' e' hm' := by
  subst hs hmantissa he
  rfl

variable {b : BitVec Format.binary64.numBits}

private theorem unpack_subnormal (hzero : (unpackExponent b).toNat = 0)
    (hsome : 0 < (unpackMantissa b).toNat) :
    UnpackedFloat.unpack Format.binary64 b =
      .finite (Sign.ofBitVec (unpackSign b)) (unpackMantissa b).toNat
        (-1074) hsome := by
  have hexponent : unpackExponent b = 0#11 := BitVec.eq_of_toNat_eq hzero
  have hmantissa : unpackMantissa b ≠ 0#52 := fun h => by
    rw [h] at hsome
    exact absurd hsome (by decide)
  rw [UnpackedFloat.unpack]
  dsimp only
  rw [if_neg (by rw [hexponent]; decide), if_pos hexponent, dif_neg hmantissa]
  exact finite_congr rfl rfl (by rw [hzero]; rfl)

private theorem unpack_normal (hsome : (unpackExponent b).toNat ≠ 0)
    (hfinite : (unpackExponent b).toNat ≠ 2047)
    (hpos : 0 < 2 ^ 52 + (unpackMantissa b).toNat) :
    UnpackedFloat.unpack Format.binary64 b =
      .finite (Sign.ofBitVec (unpackSign b)) (2 ^ 52 + (unpackMantissa b).toNat)
        ((unpackExponent b).toNat - 1075) hpos := by
  rw [UnpackedFloat.unpack]
  dsimp only
  rw [if_neg fun h => hfinite ((eq_ones_iff _).mp h),
    if_neg fun h => hsome (congrArg BitVec.toNat h)]
  exact finite_congr rfl (toNat_implicit _) rfl

private theorem unpack_zero (hexponent : (unpackExponent b).toNat = 0)
    (hmantissa : (unpackMantissa b).toNat = 0) :
    UnpackedFloat.unpack Format.binary64 b =
      .zero (Sign.ofBitVec (unpackSign b)) := by
  have hexponent : unpackExponent b = 0#11 := BitVec.eq_of_toNat_eq hexponent
  have hmantissa : unpackMantissa b = 0#52 := BitVec.eq_of_toNat_eq hmantissa
  rw [UnpackedFloat.unpack]
  dsimp only
  rw [if_neg (by rw [hexponent]; decide), if_pos hexponent, dif_pos hmantissa]

theorem unpack_of_classify_zero {x : Float} {negative : Bool} {d : Dyadic}
    (hx : classify x = .finite negative d) (hzero : d.mantissa = 0) :
    x.toModel.unpack = .zero (signOf negative) := by
  have hbiased := biased_eq x
  have hfraction := fraction_eq x
  have hsign := sign_eq x
  rw [classify] at hx
  split at hx
  · split at hx <;> cases hx
  · split at hx
    · next hexponent =>
      obtain ⟨rfl, rfl⟩ := DoubleClass.finite.inj hx
      rw [hsign]
      exact unpack_zero (hbiased ▸ hexponent) (hfraction ▸ hzero)
    · obtain ⟨rfl, rfl⟩ := DoubleClass.finite.inj hx
      have hpositive : 0 < powerOfTwo 52 := by decide
      simp only at hzero
      omega

/-- The magnitude of a number is stored as it is. -/
theorem unpack_of_classify {x : Float} {negative : Bool} {d : Dyadic}
    (hx : classify x = .finite negative d) (hpos : 0 < d.mantissa) :
    d.Storable ∧ x.toModel.unpack =
      .finite (signOf negative) d.mantissa d.exponent hpos := by
  have hbiased := biased_eq x
  have hfraction := fraction_eq x
  have hsign := sign_eq x
  have hlt : x.toBits.toNat / powerOfTwo 52 % powerOfTwo 11 < 2 ^ 11 :=
    Nat.mod_lt _ (by decide)
  have hlt' : x.toBits.toNat % powerOfTwo 52 < 2 ^ 52 :=
    Nat.mod_lt _ (by decide)
  rw [classify] at hx
  split at hx
  · split at hx <;> cases hx
  · next hfinite =>
    split at hx
    · next hzero =>
      obtain ⟨rfl, rfl⟩ := DoubleClass.finite.inj hx
      refine ⟨⟨hpos, hlt'.trans (by decide), by simp, by simp, .inl rfl,
        by simp⟩, ?_⟩
      rw [hbiased] at hzero
      exact (unpack_subnormal hzero (hfraction ▸ hpos)).trans
        (finite_congr hsign.symm hfraction.symm rfl)
    · next hsome =>
      obtain ⟨rfl, rfl⟩ := DoubleClass.finite.inj hx
      have htwo : powerOfTwo 52 = 2 ^ 52 := rfl
      refine ⟨⟨hpos, ?_, ?_, ?_, .inr ?_, ?_⟩, ?_⟩
      · simp only [htwo] at *
        omega
      · simp only
        omega
      · simp only
        omega
      · simp only
        omega
      · simp only [Bool.and_eq_true, beq_iff_eq, decide_eq_true_eq]
        omega
      · rw [hbiased] at hfinite hsome
        exact (unpack_normal hsome hfinite (by omega)).trans
          (finite_congr hsign.symm (by rw [hfraction]; rfl) (by rw [hbiased]))

/-- A double is found again from what is stored in it. -/
theorem pack_eq {x : Float} {u : UnpackedFloat} (h : x.toModel.unpack = u) :
    Float.Model.pack u = x.toModel := by
  have hbits := pack_unpack_of_valid x.toModel.valid
  obtain ⟨⟨bits, hvalid⟩⟩ := x
  subst h
  simp only [Float.Model.pack, Float.Model.mk.injEq]
  exact UInt64.toBitVec_inj.mp hbits

theorem eq_of_unpack {x y : Float} (h : x.toModel.unpack = y.toModel.unpack) :
    x = y := by
  have hmodel : x.toModel = y.toModel := (pack_eq h).symm.trans (pack_eq rfl)
  cases x
  cases y
  exact congrArg _ hmodel

private theorem unpack_pack_normal {s : Sign} {m : ℕ} {e : ℤ} (hm : 0 < m)
    (hfull : 2 ^ 52 ≤ m) (hshort : m < 2 ^ 53) (hlow : -1074 ≤ e)
    (hhigh : e ≤ 971) :
    (Float.Model.pack (.finite s m e hm)).unpack = .finite s m e hm := by
  have hlog : m.log2 = 52 := (Nat.log2_eq_iff hm.ne').mpr ⟨hfull, hshort⟩
  have hpacked : UnpackedFloat.pack Format.binary64 (.finite s m e hm) =
      packComponents Format.binary64 s (BitVec.ofNat 11 (e + 1075).toNat)
        (BitVec.ofNat 52 m) := by
    have hbiased : e + (Format.binary64.exponentBias : ℤ) +
        (Format.binary64.mantissaBitsWithoutImplicit : ℤ) = e + 1075 := by
      change e + 1023 + 52 = _
      ring
    rw [UnpackedFloat.pack]
    dsimp only
    rw [hbiased,
      if_neg (not_le.mpr (show (e + 1075).toNat + 1 < 2 ^ 11 by omega)),
      if_pos (by rw [hlog]; rfl)]
  have hexponent : (unpackExponent (packComponents Format.binary64 s
      (BitVec.ofNat 11 (e + 1075).toNat) (BitVec.ofNat 52 m))).toNat =
        (e + 1075).toNat := by
    rw [unpackExponent_packComponents, BitVec.toNat_ofNat]
    exact Nat.mod_eq_of_lt (show (e + 1075).toNat < 2 ^ 11 by omega)
  have hmantissa : (unpackMantissa (packComponents Format.binary64 s
      (BitVec.ofNat 11 (e + 1075).toNat) (BitVec.ofNat 52 m))).toNat =
        m - 2 ^ 52 := by
    rw [unpackMantissa_packComponents, BitVec.toNat_ofNat]
    change m % 2 ^ 52 = _
    omega
  change UnpackedFloat.unpack Format.binary64 (UnpackedFloat.pack _ _) = _
  rw [hpacked]
  refine (unpack_normal (by omega) (by omega) (by omega)).trans
    (finite_congr ?_ ?_ ?_)
  · rw [unpackSign_packComponents, Sign.ofBitVec_toBitVec]
  · omega
  · omega

private theorem unpack_pack_subnormal {s : Sign} {m : ℕ} (hm : 0 < m)
    (hshort : m < 2 ^ 52) :
    (Float.Model.pack (.finite s m (-1074) hm)).unpack =
      .finite s m (-1074) hm := by
  have hlog : m.log2 < 52 := (Nat.log2_lt hm.ne').mpr hshort
  have hpacked : UnpackedFloat.pack Format.binary64 (.finite s m (-1074) hm) =
      packComponents Format.binary64 s 0#11 (BitVec.ofNat 52 m) := by
    rw [UnpackedFloat.pack]
    dsimp only
    rw [if_neg (by decide), if_neg]
    change m.log2 + 1 ≠ 53
    omega
  have hexponent : (unpackExponent (packComponents Format.binary64 s 0#11
      (BitVec.ofNat 52 m))).toNat = 0 := by
    rw [unpackExponent_packComponents]
    rfl
  have hmantissa : (unpackMantissa (packComponents Format.binary64 s 0#11
      (BitVec.ofNat 52 m))).toNat = m := by
    rw [unpackMantissa_packComponents, BitVec.toNat_ofNat]
    exact Nat.mod_eq_of_lt hshort
  change UnpackedFloat.unpack Format.binary64 (UnpackedFloat.pack _ _) = _
  rw [hpacked]
  refine (unpack_subnormal hexponent (by omega)).trans
    (finite_congr ?_ hmantissa rfl)
  rw [unpackSign_packComponents, Sign.ofBitVec_toBitVec]

/-- What is stored is found again. -/
theorem unpack_pack {d : Dyadic} (hd : d.Storable) (s : Sign) :
    (Float.Model.pack (.finite s d.mantissa d.exponent hd.pos)).unpack =
      .finite s d.mantissa d.exponent hd.pos := by
  by_cases hfull : 2 ^ 52 ≤ d.mantissa
  · exact unpack_pack_normal hd.pos hfull hd.short hd.low hd.high
  · have hlowest : d.exponent = -1074 := hd.full.resolve_right hfull
    simp only [hlowest]
    exact unpack_pack_subnormal hd.pos (not_le.mp hfull)

end RatingFactors.Decimal
