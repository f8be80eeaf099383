import Mathlib.Data.List.Induction
import Mathlib.Tactic.Ring
import RatingFactors.Decimal.Layout
import RatingFactors.Proofs.Decimal.Finite
import RatingFactors.Proofs.Decimal.Grammar

/-!
# The text of a number is a written decimal

Whatever digits the text of a finite double is laid out from, the layout is a
written decimal: a sign that may be missing, digits around a point, and an
exponent beyond the positional range.  It writes the amount that the digits and
their exponent make up, wherever the point is put.

## Main results

* `Scaled.spells_layout` — the layout of a decimal, and its amount.
* `spells_text` — the text of a finite double.
-/

namespace RatingFactors.Decimal

open Text

/-! ## Digits -/

theorem isDigit_of_mem_toDigits {n : Nat} {c : Char}
    (h : c ∈ Nat.toDigits 10 n) : isDigit c = true := by
  rw [isDigit, digitValue?_of_isDigit
    (Nat.isDigit_of_mem_toDigits (by decide) (by decide) h)]
  rfl

theorem isNumeral_toDigits (n : Nat) : IsNumeral (Nat.toDigits 10 n) :=
  ⟨Nat.toDigits_ne_nil, fun _ => isDigit_of_mem_toDigits⟩

private theorem valueOfDigits_of_isDigit {ds : List Char}
    (h : ∀ c ∈ ds, c.isDigit = true) :
    valueOfDigits (digitValues ds) = Nat.ofDigitChars 10 ds 0 := by
  have hfold : ∀ start,
      (digitValues ds).foldl (fun value digit => 10 * value + digit) start =
        ds.foldl (fun value c => 10 * value + (c.toNat - '0'.toNat)) start := by
    induction ds with
    | nil => exact fun _ => rfl
    | cons d ds ih =>
        intro start
        have hd : digitValue? d = some (d.toNat - '0'.toNat) :=
          digitValue?_of_isDigit (h d (by simp))
        rw [digitValues, List.filterMap_cons_some hd, List.foldl_cons,
          List.foldl_cons]
        exact ih (fun c hc => h c (by simp [hc])) _
  exact hfold 0

/-- The digits of a number write that number. -/
theorem valueOfDigits_toDigits (n : Nat) :
    valueOfDigits (digitValues (Nat.toDigits 10 n)) = n := by
  rw [valueOfDigits_of_isDigit fun _ =>
      Nat.isDigit_of_mem_toDigits (by decide) (by decide),
    Nat.ofDigitChars_ten_toDigits]

theorem digitValues_append (ds es : List Char) :
    digitValues (ds ++ es) = digitValues ds ++ digitValues es :=
  List.filterMap_append ..

theorem length_digitValues {ds : List Char} (h : ∀ c ∈ ds, isDigit c = true) :
    (digitValues ds).length = ds.length := by
  induction ds with
  | nil => rfl
  | cons d ds ih =>
      obtain ⟨v, hv⟩ := Option.isSome_iff_exists.mp (h d (by simp))
      rw [digitValues, List.filterMap_cons_some hv, List.length_cons,
        List.length_cons]
      exact congrArg (· + 1) (ih fun c hc => h c (by simp [hc]))

private theorem digitValues_zeros (n : Nat) :
    digitValues (List.replicate n '0') = List.replicate n 0 := by
  rw [digitValues,
    List.filterMap_replicate_of_some (show digitValue? '0' = some 0 by decide)]

theorem valueOfDigits_append (ds es : List Nat) :
    valueOfDigits (ds ++ es) =
      valueOfDigits ds * 10 ^ es.length + valueOfDigits es := by
  induction es using List.reverseRecOn with
  | nil => simp [valueOfDigits]
  | append_singleton es e ih =>
      rw [← List.append_assoc, valueOfDigits_append_singleton,
        valueOfDigits_append_singleton, ih, List.length_append,
        List.length_singleton, pow_succ]
      ring

private theorem valueOfDigits_zeros (n : Nat) :
    valueOfDigits (List.replicate n 0) = 0 := by
  induction n with
  | zero => rfl
  | succ n ih => rw [List.replicate_succ', valueOfDigits_append_singleton, ih]

/-- Zeros before the digits change nothing. -/
theorem valueOfDigits_zeros_append (n : Nat) (ds : List Char) :
    valueOfDigits (digitValues (List.replicate n '0' ++ ds)) =
      valueOfDigits (digitValues ds) := by
  rw [digitValues_append, digitValues_zeros, valueOfDigits_append,
    valueOfDigits_zeros, zero_mul, zero_add]

/-- Each zero behind the digits is a power of ten. -/
private theorem valueOfDigits_append_zeros (ds : List Char) (n : Nat) :
    valueOfDigits (digitValues (ds ++ List.replicate n '0')) =
      valueOfDigits (digitValues ds) * 10 ^ n := by
  rw [digitValues_append, digitValues_zeros, valueOfDigits_append,
    valueOfDigits_zeros, add_zero, List.length_replicate]

private theorem isDigit_of_mem_zeros {n : Nat} {c : Char}
    (h : c ∈ List.replicate n '0') : isDigit c = true := by
  rw [List.eq_of_mem_replicate h]
  decide

private theorem IsNumeral.append_zeros {ds : List Char} (h : IsNumeral ds)
    (n : Nat) : IsNumeral (ds ++ List.replicate n '0') := by
  refine ⟨by simp [h.1], fun c hc => ?_⟩
  rcases List.mem_append.mp hc with hc | hc
  · exact h.2 c hc
  · exact isDigit_of_mem_zeros hc

private theorem IsNumeral.zeros_append {ds : List Char} (h : IsNumeral ds)
    (n : Nat) : IsNumeral (List.replicate n '0' ++ ds) := by
  refine ⟨by simp [h.1], fun c hc => ?_⟩
  rcases List.mem_append.mp hc with hc | hc
  · exact isDigit_of_mem_zeros hc
  · exact h.2 c hc

private theorem isNumeral_padded (width n : Nat) :
    IsNumeral (padded width n).toList := by
  rw [padded, String.toList_ofList]
  exact (isNumeral_toDigits n).zeros_append _

/-! ## The two layouts -/

theorem isNumeral_zero : IsNumeral ['0'] :=
  isNumeral_toDigits 0

/-- The amount of digits around a point. -/
def amountOf (whole fraction : List Nat) : ℚ :=
  valueOfDigits (whole ++ fraction) * 10 ^ (-(fraction.length : Int))

/-- Digits with the point somewhere among or around them. -/
theorem spells_positional {ds : List Char} (h : IsNumeral ds) (point : Int) :
    ∃ whole fraction, SpellsDigits (positional ds point).toList whole fraction ∧
      amountOf whole fraction =
        valueOfDigits (digitValues ds) * 10 ^ (point - ds.length) := by
  rw [positional]
  split
  · next hpoint =>
    rw [String.toList_ofList, List.append_assoc]
    refine ⟨digitValues ['0'],
      digitValues (List.replicate (-point).toNat '0' ++ ds),
      .point isNumeral_zero (h.zeros_append _).2, ?_⟩
    have hvalue : valueOfDigits (digitValues ['0'] ++
        digitValues (List.replicate (-point).toNat '0' ++ ds)) =
          valueOfDigits (digitValues ds) := by
      rw [← digitValues_append]
      exact (valueOfDigits_zeros_append 1 _).trans
        (valueOfDigits_zeros_append _ ds)
    rw [amountOf, hvalue, length_digitValues (h.zeros_append _).2,
      List.length_append, List.length_replicate]
    congr 2
    push_cast
    omega
  · split
    · next hcount =>
      rw [String.toList_ofList]
      refine ⟨digitValues (ds ++ List.replicate (point - ds.length).toNat '0'),
        digitValues ['0'], .point (h.append_zeros _) isNumeral_zero.2, ?_⟩
      have hvalue : valueOfDigits (digitValues (ds ++
          List.replicate (point - ds.length).toNat '0') ++ digitValues ['0']) =
            valueOfDigits (digitValues ds) *
              10 ^ (point - ds.length).toNat * 10 := by
        rw [← digitValues_append, ← valueOfDigits_append_zeros]
        exact valueOfDigits_append_zeros _ 1
      have hlength : (digitValues ['0']).length = 1 := rfl
      rw [amountOf, hvalue, hlength]
      push_cast
      rw [zpow_neg_one, mul_inv_cancel_right₀ (by norm_num), ← zpow_natCast,
        Int.toNat_of_nonneg (by omega)]
    · next hpoint hcount =>
      have hwhole : IsNumeral (ds.take point.toNat) := by
        refine ⟨?_, fun c hc => h.2 c (List.mem_of_mem_take hc)⟩
        rw [Ne, List.take_eq_nil_iff]
        rintro (hzero | hds)
        · omega
        · exact h.1 hds
      have hfraction : ∀ c ∈ ds.drop point.toNat, isDigit c = true :=
        fun c hc => h.2 c (List.mem_of_mem_drop hc)
      rw [String.toList_ofList]
      refine ⟨_, _, .point hwhole hfraction, ?_⟩
      rw [amountOf, ← digitValues_append, List.take_append_drop,
        length_digitValues hfraction, List.length_drop]
      congr 2
      omega

private theorem spells_pointAfterFirst {ds : List Char} (h : IsNumeral ds) :
    ∃ whole fraction, SpellsDigits (pointAfterFirst ds).toList whole fraction ∧
      amountOf whole fraction =
        valueOfDigits (digitValues ds) * 10 ^ (1 - ds.length : Int) := by
  fun_cases pointAfterFirst ds with
  | case1 => exact absurd rfl h.1
  | case2 d =>
      rw [String.toList_ofList]
      refine ⟨_, _, .whole h, ?_⟩
      rw [amountOf, List.append_nil]
      rfl
  | case3 d ds =>
      have hfirst : IsNumeral [d] :=
        ⟨by simp, fun c hc => h.2 c (by simp [List.mem_singleton.mp hc])⟩
      have hrest : ∀ c ∈ ds, isDigit c = true :=
        fun c hc => h.2 c (List.mem_cons_of_mem _ hc)
      rw [String.toList_ofList]
      refine ⟨_, _, .point hfirst hrest, ?_⟩
      rw [amountOf, ← digitValues_append, length_digitValues hrest,
        List.length_cons]
      congr 2
      push_cast
      ring

private theorem valueOfDigits_padded (width n : Nat) :
    valueOfDigits (digitValues (padded width n).toList) = n := by
  rw [padded, String.toList_ofList, valueOfDigits_zeros_append,
    valueOfDigits_toDigits]

private theorem spells_exponentText (e : Int) :
    SpellsExponent (exponentText e).toList e := by
  have hpadded := valueOfDigits_padded 2 e.natAbs
  have hdigits := isNumeral_padded 2 e.natAbs
  rw [exponentText, String.toList_append]
  split
  · have hvalue :
        signedWhole true (digitValues (padded 2 e.natAbs).toList) = e := by
      rw [signedWhole, if_pos rfl, hpadded]
      omega
    have hspells := SpellsExponent.some (.inl rfl) .minus hdigits
    rw [hvalue] at hspells
    exact hspells
  · have hvalue :
        signedWhole false (digitValues (padded 2 e.natAbs).toList) = e := by
      rw [signedWhole, if_neg Bool.false_ne_true, hpadded]
      omega
    have hspells := SpellsExponent.some (.inl rfl) .plus hdigits
    rw [hvalue] at hspells
    exact hspells

/-! ## Texts -/

/-- The amount of a written decimal, without its sign. -/
def Written.amount (w : Written) : ℚ :=
  amountOf w.whole w.fraction * 10 ^ w.exponent

private theorem spells_signed {magnitude : String} {digits power : List Char}
    {whole fraction : List Nat} {exponent : Int} (negative : Bool)
    (hmagnitude : magnitude.toList = digits ++ power)
    (hdigits : SpellsDigits digits whole fraction)
    (hpower : SpellsExponent power exponent) :
    Written.Spells (signed negative magnitude).toList
      ⟨negative, whole, fraction, exponent⟩ := by
  cases negative with
  | true =>
      rw [signed, if_pos rfl, String.toList_append, hmagnitude]
      exact .mk .minus hdigits hpower
  | false =>
      rw [signed, if_neg Bool.false_ne_true, hmagnitude]
      exact .mk .none hdigits hpower

/-- A layout of digits is a written decimal of the same amount, with or without
a sign. -/
theorem Scaled.spells_layout (s : Scaled) (negative : Bool) :
    ∃ w : Written,
      w.Spells (signed negative s.layout).toList ∧ w.negative = negative ∧
      w.amount = s.digits * 10 ^ s.exponent := by
  have hds : IsNumeral (Nat.toDigits 10 s.digits) := isNumeral_toDigits _
  have hvalue := valueOfDigits_toDigits s.digits
  rw [layout]
  split
  · obtain ⟨whole, fraction, hdigits, hamount⟩ := spells_positional hds
      (s.exponent + (Nat.toDigits 10 s.digits).length - 1 + 1)
    refine ⟨_, spells_signed negative (List.append_nil _).symm hdigits .none,
      rfl, ?_⟩
    rw [Written.amount, hamount, hvalue, zpow_zero, mul_one]
    congr 2
    omega
  · obtain ⟨whole, fraction, hdigits, hamount⟩ := spells_pointAfterFirst hds
    refine ⟨_, spells_signed negative (String.toList_append ..) hdigits
      (spells_exponentText
        (s.exponent + (Nat.toDigits 10 s.digits).length - 1)), rfl, ?_⟩
    rw [Written.amount, hamount, hvalue, mul_assoc, ← zpow_add₀ (by norm_num)]
    congr 2
    simp only
    ring

theorem spells_zero (negative : Bool) :
    Written.Spells (signed negative "0.0").toList ⟨negative, [0], [0], 0⟩ :=
  spells_signed negative (List.append_nil _).symm
    (SpellsDigits.point isNumeral_zero isNumeral_zero.2) .none

/-- The text of a double that is a number is a written decimal. -/
theorem spells_text {x : Float} (h : x.isFinite = true) :
    ∃ w : Written, w.Spells (text x).toList := by
  obtain ⟨negative, d, hx⟩ := exists_classify h
  simp only [text, hx]
  split
  · exact ⟨_, spells_zero negative⟩
  · obtain ⟨w, hw, -⟩ := d.shortest.spells_layout negative
    exact ⟨w, hw⟩

end RatingFactors.Decimal
