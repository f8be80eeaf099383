import RatingFactors.Decimal.Written
import RatingFactors.Proofs.Text.Characters

/-!
# The grammar of written decimals

A written decimal is a sign that may be missing, digits with a point among or
around them, and an exponent that may be missing.  `Written.Spells` says so
piece by piece, and says with each piece what it contributes to the number that
is written; the reader is compared with it from both sides.

The reader takes the longest decimal at the front of a text.  Where a blank or
the end of the text follows, that is the decimal that stands there, whichever
form it has.

## Main results

* `Written.scan_of_spells` — a spelled decimal is read as what it spells.
* `Written.spells_of_scan` — whatever is read was spelled.
* `wholeOfText?_of_isNumeral`, `doubleOfText?_of_spells` — the numbers that
  whole texts write.
-/

namespace RatingFactors.Decimal

open Text

/-! ## The grammar -/

/-- A run of digits that is not empty. -/
def IsNumeral (cs : List Char) : Prop :=
  cs ≠ [] ∧ ∀ c ∈ cs, isDigit c = true

/-- A sign, and whether it is that of a negative number. -/
inductive SpellsSign : List Char → Bool → Prop
  | none : SpellsSign [] false
  | plus : SpellsSign ['+'] false
  | minus : SpellsSign ['-'] true

/-- Digits with or without a point, and the values of those before it and of
those after it. -/
inductive SpellsDigits : List Char → List Nat → List Nat → Prop
  | whole {ds : List Char} (hds : IsNumeral ds) :
      SpellsDigits ds (digitValues ds) []
  | point {ds fs : List Char} (hds : IsNumeral ds)
      (hfs : ∀ c ∈ fs, isDigit c = true) :
      SpellsDigits (ds ++ '.' :: fs) (digitValues ds) (digitValues fs)
  | fraction {fs : List Char} (hfs : IsNumeral fs) :
      SpellsDigits ('.' :: fs) [] (digitValues fs)

/-- An exponent and its value. -/
inductive SpellsExponent : List Char → Int → Prop
  | none : SpellsExponent [] 0
  | some {e : Char} {sign ds : List Char} {negative : Bool}
      (he : e = 'e' ∨ e = 'E') (hsign : SpellsSign sign negative)
      (hds : IsNumeral ds) :
      SpellsExponent (e :: (sign ++ ds))
        (signedWhole negative (digitValues ds))

/-- A written decimal and its parts. -/
inductive Written.Spells : List Char → Written → Prop
  | mk {sign digits power : List Char} {negative : Bool}
      {whole fraction : List Nat} {exponent : Int}
      (hsign : SpellsSign sign negative)
      (hdigits : SpellsDigits digits whole fraction)
      (hpower : SpellsExponent power exponent) :
      Spells (sign ++ (digits ++ power)) ⟨negative, whole, fraction, exponent⟩

/-! ## The characters of a decimal -/

/-- Is this a character that decimals are written with? -/
def isDecimalChar (c : Char) : Bool :=
  isDigit c || ['+', '-', '.', 'e', 'E'].contains c

theorem isDecimalChar_of_isDigit {c : Char} (h : isDigit c = true) :
    isDecimalChar c = true := by
  simp [isDecimalChar, h]

theorem isBlank_of_isDecimalChar {c : Char} (h : isDecimalChar c = true) :
    isBlank c = false := by
  rcases Bool.or_eq_true .. ▸ h with hdigit | hmark
  · exact isBlank_of_isDigit hdigit
  · have hmarks : (['+', '-', '.', 'e', 'E'].all
        fun c => !isBlank c) = true := by decide
    simpa using List.all_eq_true.mp hmarks c (List.contains_iff_mem.mp hmark)

theorem ne_of_isDecimalChar {c d : Char} (h : isDecimalChar c = true)
    (hd : isDecimalChar d = false) : c ≠ d := by
  rintro rfl
  rw [h] at hd
  cases hd

theorem SpellsSign.isDecimalChar {sign : List Char} {negative : Bool}
    (h : SpellsSign sign negative) :
    ∀ c ∈ sign, isDecimalChar c = true := by
  intro c hc
  cases h with
  | none => cases hc
  | plus => rw [List.mem_singleton.mp hc]; decide
  | minus => rw [List.mem_singleton.mp hc]; decide

theorem IsNumeral.isDecimalChar {ds : List Char} (h : IsNumeral ds) :
    ∀ c ∈ ds, isDecimalChar c = true :=
  fun c hc => isDecimalChar_of_isDigit (h.2 c hc)

theorem SpellsDigits.isDecimalChar {digits : List Char}
    {whole fraction : List Nat} (h : SpellsDigits digits whole fraction) :
    ∀ c ∈ digits, isDecimalChar c = true := by
  have hpoint : Decimal.isDecimalChar '.' = true := by decide
  cases h with
  | whole hds => exact hds.isDecimalChar
  | point hds hfs =>
      intro c hc
      rcases List.mem_append.mp hc with hc | hc
      · exact hds.isDecimalChar c hc
      · rcases List.mem_cons.mp hc with rfl | hc
        · exact hpoint
        · exact isDecimalChar_of_isDigit (hfs c hc)
  | fraction hfs =>
      intro c hc
      rcases List.mem_cons.mp hc with rfl | hc
      · exact hpoint
      · exact hfs.isDecimalChar c hc

theorem SpellsExponent.isDecimalChar {power : List Char} {exponent : Int}
    (h : SpellsExponent power exponent) :
    ∀ c ∈ power, isDecimalChar c = true := by
  cases h with
  | none => simp
  | some he hsign hds =>
      intro c hc
      rcases List.mem_cons.mp hc with rfl | hc
      · rcases he with rfl | rfl <;> decide
      · rcases List.mem_append.mp hc with hc | hc
        · exact hsign.isDecimalChar c hc
        · exact hds.isDecimalChar c hc

/-- A decimal's digits begin with a digit or with the point. -/
theorem SpellsDigits.head {digits : List Char} {whole fraction : List Nat}
    (h : SpellsDigits digits whole fraction) :
    ∃ d ds, digits = d :: ds ∧ (isDigit d = true ∨ d = '.') := by
  cases h with
  | whole hds =>
      obtain ⟨d, ds, rfl⟩ := List.exists_cons_of_ne_nil hds.1
      exact ⟨d, ds, rfl, .inl (hds.2 d (by simp))⟩
  | @point ds fs hds hfs =>
      obtain ⟨d, ds, rfl⟩ := List.exists_cons_of_ne_nil hds.1
      exact ⟨d, ds ++ '.' :: fs, rfl, .inl (hds.2 d (by simp))⟩
  | @fraction fs hfs => exact ⟨'.', fs, rfl, .inr rfl⟩

/-- Behind the digits stands the mark of an exponent, or what follows the whole
decimal. -/
theorem SpellsExponent.head {power rest : List Char} {exponent : Int} {c : Char}
    (h : SpellsExponent power exponent) (hc : c ∈ (power ++ rest).head?) :
    c = 'e' ∨ c = 'E' ∨ c ∈ rest.head? := by
  cases h with
  | none => exact .inr (.inr hc)
  | some he hsign hds =>
      obtain rfl := Option.mem_some_iff.mp hc
      rcases he with he | he
      · exact .inl he
      · exact .inr (.inl he)

namespace Written

theorem Spells.isDecimalChar {text : List Char} {w : Written}
    (h : Spells text w) : ∀ c ∈ text, isDecimalChar c = true := by
  cases h with
  | mk hsign hdigits hpower =>
      intro c hc
      rcases List.mem_append.mp hc with hc | hc
      · exact hsign.isDecimalChar c hc
      · rcases List.mem_append.mp hc with hc | hc
        · exact hdigits.isDecimalChar c hc
        · exact hpower.isDecimalChar c hc

/-- A decimal begins with one of its characters. -/
theorem Spells.head {text : List Char} {w : Written} (h : Spells text w) :
    ∃ c cs, text = c :: cs := by
  cases h with
  | @mk sign _ power _ _ _ _ hsign hdigits hpower =>
      obtain ⟨d, ds, rfl, -⟩ := hdigits.head
      apply List.exists_cons_of_ne_nil
      simp

end Written

/-! ## Reading each piece -/

theorem digitValues_eq_nil_iff {ds : List Char}
    (h : ∀ c ∈ ds, isDigit c = true) : digitValues ds = [] ↔ ds = [] := by
  constructor
  · intro hnil
    apply List.eq_nil_iff_forall_not_mem.mpr
    intro c hc
    have hnone := (List.filterMap_eq_nil_iff.mp hnil) c hc
    have hsome := h c hc
    rw [isDigit, hnone] at hsome
    cases hsome
  · rintro rfl
    rfl

theorem digitValues_cons {ds : List Char} (h : IsNumeral ds) :
    ∃ v vs, digitValues ds = v :: vs := by
  apply List.exists_cons_of_ne_nil
  exact fun hnil => h.1 ((digitValues_eq_nil_iff h.2).mp hnil)

/-- Digits are cut off where they end. -/
theorem splitDigits_run {ds rest : List Char}
    (hds : ∀ c ∈ ds, isDigit c = true)
    (hrest : ∀ c ∈ rest.head?, isDigit c = false) :
    splitDigits (ds ++ rest) = (digitValues ds, rest) := by
  rw [splitDigits, takeWhile_run hds hrest, dropWhile_run hds hrest]

/-- What is cut off are digits. -/
theorem digits_of_splitDigits {cs rest : List Char} {values : List Nat}
    (h : splitDigits cs = (values, rest)) :
    ∃ ds, cs = ds ++ rest ∧ (∀ c ∈ ds, isDigit c = true) ∧
      values = digitValues ds := by
  obtain ⟨hvalues, hrest⟩ := Prod.mk.inj h
  refine ⟨cs.takeWhile isDigit, ?_, fun c => of_mem_takeWhile, hvalues.symm⟩
  rw [← hrest, List.takeWhile_append_dropWhile]

theorem numeral_of_splitDigits {cs rest : List Char} {values : List Nat}
    (h : splitDigits cs = (values, rest)) (hne : values ≠ []) :
    ∃ ds, cs = ds ++ rest ∧ IsNumeral ds ∧ values = digitValues ds := by
  obtain ⟨ds, hcs, hds, hvalues⟩ := digits_of_splitDigits h
  refine ⟨ds, hcs, ⟨?_, hds⟩, hvalues⟩
  rintro rfl
  exact hne hvalues

private theorem eq_of_splitDigits_nil {cs rest : List Char}
    (h : splitDigits cs = ([], rest)) : cs = rest := by
  obtain ⟨ds, hcs, hds, hvalues⟩ := digits_of_splitDigits h
  rw [(digitValues_eq_nil_iff hds).mp hvalues.symm] at hcs
  exact hcs

private theorem signs_ne_of_isDigit {c : Char} (h : isDigit c = true) :
    c ≠ '+' ∧ c ≠ '-' := by
  constructor <;> rintro rfl <;> revert h <;> decide

private theorem splitSign_run {sign rest : List Char} {negative : Bool}
    (hsign : SpellsSign sign negative)
    (hrest : ∀ c ∈ rest.head?, c ≠ '+' ∧ c ≠ '-') :
    splitSign (sign ++ rest) = (negative, rest) := by
  cases hsign with
  | none =>
      cases rest with
      | nil => rfl
      | cons c rest =>
          obtain ⟨hplus, hminus⟩ := hrest c (by simp)
          rw [List.nil_append, splitSign]
          · rintro _ ⟨⟩
            exact hminus rfl
          · rintro _ ⟨⟩
            exact hplus rfl
  | plus => rfl
  | minus => rfl

private theorem sign_of_splitSign {cs rest : List Char} {negative : Bool}
    (h : splitSign cs = (negative, rest)) :
    ∃ sign, cs = sign ++ rest ∧ SpellsSign sign negative := by
  revert h
  fun_cases splitSign cs with
  | case1 behind =>
      rintro ⟨⟩
      exact ⟨['-'], rfl, .minus⟩
  | case2 behind =>
      rintro ⟨⟩
      exact ⟨['+'], rfl, .plus⟩
  | case3 =>
      rintro ⟨⟩
      exact ⟨[], rfl, .none⟩

namespace Written

private theorem scanDigits_run {digits rest : List Char}
    {whole fraction : List Nat} (hdigits : SpellsDigits digits whole fraction)
    (hrest : ∀ c ∈ rest.head?, isDigit c = false ∧ c ≠ '.') :
    scanDigits (digits ++ rest) = some (whole, fraction, rest) := by
  have hstop : ∀ c ∈ rest.head?, isDigit c = false :=
    fun c hc => (hrest c hc).1
  cases hdigits with
  | whole hds =>
      obtain ⟨d, ds, hvalues⟩ := digitValues_cons hds
      rw [scanDigits, splitDigits_run hds.2 hstop, hvalues]
      cases rest with
      | nil => rfl
      | cons c rest =>
          have hc : c ≠ '.' := (hrest c (by simp)).2
          simp [hc]
  | @point ds fs hds hfs =>
      obtain ⟨d, ds', hvalues⟩ := digitValues_cons hds
      have hpoint : ∀ c ∈ ('.' :: (fs ++ rest)).head?, isDigit c = false := by
        simp only [List.head?_cons, Option.mem_some_iff, forall_eq']
        decide
      rw [List.append_assoc, List.cons_append, scanDigits,
        splitDigits_run hds.2 hpoint, hvalues]
      simp [splitDigits_run hfs hstop]
  | @fraction fs hfs =>
      obtain ⟨f, fs', hvalues⟩ := digitValues_cons hfs
      have hpoint : splitDigits ('.' :: (fs ++ rest)) =
          ([], '.' :: (fs ++ rest)) :=
        @splitDigits_run [] _ (by simp) (by
          simp only [List.head?_cons, Option.mem_some_iff, forall_eq']
          decide)
      rw [List.cons_append, scanDigits, hpoint]
      simp [splitDigits_run hfs.2 hstop, hvalues]

private theorem digits_of_scanDigits {cs rest : List Char}
    {whole fraction : List Nat}
    (h : scanDigits cs = some (whole, fraction, rest)) :
    ∃ digits, cs = digits ++ rest ∧ SpellsDigits digits whole fraction := by
  revert h
  fun_cases scanDigits cs with
  | case1 => simp
  | case2 behind hsplit values rest' hne hsplit' =>
      intro h
      obtain ⟨rfl, rfl, rfl⟩ : [] = whole ∧ values = fraction ∧
          rest' = rest := by
        simpa using h
      obtain ⟨fs, rfl, hfs, rfl⟩ := numeral_of_splitDigits hsplit' hne
      refine ⟨'.' :: fs, eq_of_splitDigits_nil hsplit, .fraction hfs⟩
  | case3 => simp
  | case4 values behind hne hsplit values' rest' hsplit' =>
      intro h
      obtain ⟨rfl, rfl, rfl⟩ : values = whole ∧ values' = fraction ∧
          rest' = rest := by
        simpa using h
      obtain ⟨ds, rfl, hds, rfl⟩ := numeral_of_splitDigits hsplit hne
      obtain ⟨fs, rfl, hfs, rfl⟩ := digits_of_splitDigits hsplit'
      exact ⟨ds ++ '.' :: fs, by simp, .point hds hfs⟩
  | case5 values rest' _ hne _ hsplit =>
      intro h
      obtain ⟨rfl, rfl, rfl⟩ : values = whole ∧ [] = fraction ∧
          rest' = rest := by
        simpa using h
      obtain ⟨ds, rfl, hds, rfl⟩ := numeral_of_splitDigits hsplit hne
      exact ⟨ds, rfl, .whole hds⟩

private theorem scanExponent_run {power rest : List Char} {exponent : Int}
    (hpower : SpellsExponent power exponent)
    (hrest : ∀ c ∈ rest.head?, isDigit c = false ∧ c ≠ 'e' ∧ c ≠ 'E') :
    scanExponent (power ++ rest) = (exponent, rest) := by
  cases hpower with
  | none =>
      cases rest with
      | nil => rfl
      | cons c rest =>
          obtain ⟨-, he, hE⟩ := hrest c (by simp)
          simp [scanExponent, he, hE]
  | @some e sign ds negative he hsign hds =>
      obtain ⟨d, ds', hvalues⟩ := digitValues_cons hds
      have hmark : (decide (e = 'e') || decide (e = 'E')) = true := by
        simpa using he
      have hsplit : splitSign (sign ++ (ds ++ rest)) =
          (negative, ds ++ rest) := by
        apply splitSign_run hsign
        obtain ⟨c, ds, rfl⟩ := List.exists_cons_of_ne_nil hds.1
        simp only [List.cons_append, List.head?_cons, Option.mem_some_iff,
          forall_eq']
        exact signs_ne_of_isDigit (hds.2 c (by simp))
      rw [List.cons_append, List.append_assoc, scanExponent, if_pos hmark,
        hsplit]
      simp only [splitDigits_run hds.2 fun c hc => (hrest c hc).1, hvalues]

private theorem power_of_scanExponent {cs rest : List Char} {exponent : Int}
    (h : scanExponent cs = (exponent, rest)) :
    ∃ power, cs = power ++ rest ∧ SpellsExponent power exponent := by
  revert h
  fun_cases scanExponent cs with
  | case1 =>
      rintro ⟨⟩
      exact ⟨[], rfl, .none⟩
  | case2 e behind hmark negative behind' hsplit values rest' hne hsplit' =>
      rintro ⟨⟩
      have he : e = 'e' ∨ e = 'E' := by simpa using hmark
      obtain ⟨sign, rfl, hsign⟩ := sign_of_splitSign hsplit
      obtain ⟨ds, rfl, hds, rfl⟩ := numeral_of_splitDigits hsplit' hne
      exact ⟨e :: (sign ++ ds), by simp, .some he hsign hds⟩
  | case3 =>
      rintro ⟨⟩
      exact ⟨[], rfl, .none⟩
  | case4 =>
      rintro ⟨⟩
      exact ⟨[], rfl, .none⟩

/-! ## Reading a whole decimal -/

/-- A spelled decimal is read as what it spells, whatever stands behind the
blank that ends it. -/
theorem scan_of_spells {text rest : List Char} {w : Written}
    (h : Spells text w) (hrest : ∀ c ∈ rest.head?, isBlank c = true) :
    scan (text ++ rest) = some (w, rest) := by
  cases h with
  | @mk sign digits power negative whole fraction exponent
      hsign hdigits hpower =>
      have hafterSign : ∀ c ∈ (digits ++ (power ++ rest)).head?,
          c ≠ '+' ∧ c ≠ '-' := by
        obtain ⟨d, ds, rfl, hd⟩ := hdigits.head
        simp only [List.cons_append, List.head?_cons, Option.mem_some_iff,
          forall_eq']
        rcases hd with hd | rfl
        · exact signs_ne_of_isDigit hd
        · decide
      have hafterDigits : ∀ c ∈ (power ++ rest).head?,
          isDigit c = false ∧ c ≠ '.' := by
        intro c hc
        rcases hpower.head hc with rfl | rfl | hc
        · decide
        · decide
        · exact ⟨isDigit_of_isBlank (hrest c hc),
            ne_of_isBlank (hrest c hc) (by decide)⟩
      have hafterPower : ∀ c ∈ rest.head?,
          isDigit c = false ∧ c ≠ 'e' ∧ c ≠ 'E' := fun c hc =>
        ⟨isDigit_of_isBlank (hrest c hc),
          ne_of_isBlank (hrest c hc) (by decide),
          ne_of_isBlank (hrest c hc) (by decide)⟩
      rw [List.append_assoc, List.append_assoc, scan,
        splitSign_run hsign hafterSign]
      simp only [scanDigits_run hdigits hafterDigits, Option.map_some,
        scanExponent_run hpower hafterPower]

/-- Whatever is read was spelled. -/
theorem spells_of_scan {cs rest : List Char} {w : Written}
    (h : scan cs = some (w, rest)) :
    ∃ text, cs = text ++ rest ∧ Spells text w := by
  rw [scan] at h
  cases hsplit : splitSign cs with
  | mk negative behind =>
      simp only [hsplit] at h
      obtain ⟨⟨whole, fraction, behind'⟩, hscan, h⟩ :=
        Option.map_eq_some_iff.mp h
      cases hpower : scanExponent behind' with
      | mk exponent rest' =>
          simp only [hpower] at h
          obtain ⟨rfl, rfl⟩ := Prod.mk.inj h
          obtain ⟨sign, rfl, hsign⟩ := sign_of_splitSign hsplit
          obtain ⟨digits, rfl, hdigits⟩ := digits_of_scanDigits hscan
          obtain ⟨power, rfl, hspells⟩ := power_of_scanExponent hpower
          exact ⟨sign ++ (digits ++ power), by simp, .mk hsign hdigits hspells⟩

end Written

/-! ## Reading a whole text -/

private theorem trim_eq_self {cs : List Char}
    (h : ∀ c ∈ cs, isBlank c = false) : trim cs = cs := by
  have hkeep : ∀ ds : List Char, (∀ c ∈ ds, isBlank c = false) →
      ds.dropWhile isBlank = ds := by
    intro ds hds
    cases ds with
    | nil => rfl
    | cons d ds => simp [hds d (by simp)]
  rw [trim, trimLeft, hkeep cs h, trimRight,
    hkeep cs.reverse (by simpa using h), List.reverse_reverse]

/-- A text without underscores has none to take out. -/
private theorem ungrouped_eq_self {cs : List Char} (h : ∀ c ∈ cs, c ≠ '_') :
    ungrouped cs = some cs := by
  fun_induction ungrouped cs with
  | case1 => rfl
  | case2 c d rest hdigits ih => exact absurd rfl (h '_' (by simp))
  | case3 c d rest hdigits => exact absurd rfl (h '_' (by simp))
  | case4 c rest => exact absurd rfl (h '_' (by simp))
  | case5 c rest _ hc ih => simp [ih fun d hd => h d (by simp [hd])]

private theorem ungrouped_trim {cs : List Char}
    (h : ∀ c ∈ cs, isDecimalChar c = true) : ungrouped (trim cs) = some cs := by
  rw [trim_eq_self fun c hc => isBlank_of_isDecimalChar (h c hc)]
  exact ungrouped_eq_self fun c hc => ne_of_isDecimalChar (h c hc) (by decide)

/-- A run of digits writes the number that its digits make up. -/
theorem wholeOfText?_of_isNumeral {ds : List Char} (h : IsNumeral ds) :
    wholeOfText? (String.ofList ds) =
      some (valueOfDigits (digitValues ds) : Int) := by
  have hsign : splitSign ds = (false, ds) := by
    obtain ⟨d, ds, rfl⟩ := List.exists_cons_of_ne_nil h.1
    apply @splitSign_run [] _ _ .none
    simpa using signs_ne_of_isDigit (h.2 d (by simp))
  have hdigits : splitDigits ds = (digitValues ds, []) := by
    have := @splitDigits_run ds [] h.2 (by simp)
    rwa [List.append_nil] at this
  obtain ⟨v, vs, hvalues⟩ := digitValues_cons h
  simp [wholeOfText?, ungrouped_trim h.isDecimalChar, hsign, hdigits, hvalues,
    signedWhole]

/-- A spelled decimal writes the double nearest to what it spells. -/
theorem doubleOfText?_of_spells {text : List Char} {w : Written}
    (h : w.Spells text) :
    doubleOfText? (String.ofList text) = some w.value := by
  have hscan : Written.scan text = some (w, []) := by
    have := @Written.scan_of_spells text [] w h (by simp)
    rwa [List.append_nil] at this
  simp [doubleOfText?, ungrouped_trim h.isDecimalChar, hscan]

end RatingFactors.Decimal
