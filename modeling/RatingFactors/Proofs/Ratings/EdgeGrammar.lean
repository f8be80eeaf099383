import RatingFactors.Proofs.Decimal.Grammar
import RatingFactors.Ratings.EdgeLine

/-!
# The grammar of edge lines

An edge line is the number of a row, the number of a column and perhaps a value,
with separators between them and blanks around them.  `LineParts.Spells` is that
grammar, with nothing said about how a line is read: separators overlap with the
blanks at the end, and the value together with its separator may be missing.
The reader, which goes through the line once and never back, reads exactly the
lines of the grammar.

A line has one decomposition only, as far as the parts that carry numbers go;
which blanks belong to a separator is settled by the parts around it.

## Main results

* `LineParts.Spells.parse` — a spelled line is read as what its parts mean.
* `spells_of_parse?` — whatever is read was spelled.
* `LineParts.Spells.unique` — the parts of a line are determined by it.
* `parse?_grammar` — the reader and the grammar agree.
-/

namespace RatingFactors.Ratings

open Text Decimal

/-! ## The grammar -/

/-- What may stand between two parts: one comma with blanks around it, or blanks
alone, and then at least one. -/
inductive IsSeparator : List Char → Prop
  | comma {before after : List Char} (hbefore : ∀ c ∈ before, isBlank c = true)
      (hafter : ∀ c ∈ after, isBlank c = true) :
      IsSeparator (before ++ ',' :: after)
  | blanks {cs : List Char} (hne : cs ≠ []) (hcs : ∀ c ∈ cs, isBlank c = true) :
      IsSeparator cs

/-- What stands behind the number of the column: nothing, or a separator and a
written decimal. -/
inductive SpellsTail : List Char → Option (List Char) → Prop
  | bare : SpellsTail [] none
  | valued {separator value : List Char} {w : Written}
      (hseparator : IsSeparator separator) (hvalue : w.Spells value) :
      SpellsTail (separator ++ value) (some value)

/-- The parts of an edge line as they are written. -/
structure LineParts where
  source : List Char
  target : List Char
  value? : Option (List Char)

/-- A line that is made of the given parts. -/
inductive LineParts.Spells : List Char → LineParts → Prop
  | mk {front source separator target tail back : List Char}
      {value? : Option (List Char)}
      (hfront : ∀ c ∈ front, isBlank c = true)
      (hsource : IsNumeral source)
      (hseparator : IsSeparator separator)
      (htarget : IsNumeral target)
      (htail : SpellsTail tail value?)
      (hback : ∀ c ∈ back, isBlank c = true) :
      Spells (front ++ (source ++ (separator ++ (target ++ (tail ++ back)))))
        ⟨source, target, value?⟩

/-- The value that a part stands for; a missing one stands for zero. -/
def valueOf? : Option (List Char) → Option Float
  | none => some 0.0
  | some text => doubleOfText? (String.ofList text)

/-- The edge that parts stand for: both numbers and the value as the numbers
that these texts write. -/
structure LineParts.Means (p : LineParts) (e : EdgeLine) : Prop where
  source : wholeOfText? (String.ofList p.source) = some (e.source : Int)
  target : wholeOfText? (String.ofList p.target) = some (e.target : Int)
  value : valueOf? p.value? = some e.value

/-- Parts stand for one edge only. -/
theorem LineParts.Means.eq {p : LineParts} {e f : EdgeLine} (he : p.Means e)
    (hf : p.Means f) : e = f := by
  have hsource : e.source = f.source :=
    Int.ofNat.inj (Option.some.inj (he.source.symm.trans hf.source))
  have htarget : e.target = f.target :=
    Int.ofNat.inj (Option.some.inj (he.target.symm.trans hf.target))
  have hvalue : e.value = f.value :=
    Option.some.inj (he.value.symm.trans hf.value)
  cases e
  cases f
  simp_all

/-! ## Separators -/

/-- A separator goes on until something that is neither blank nor a comma. -/
theorem splitSeparator?_run {separator rest : List Char}
    (hseparator : IsSeparator separator)
    (hrest : ∀ c ∈ rest.head?, isBlank c = false ∧ c ≠ ',') :
    splitSeparator? (separator ++ rest) = some rest := by
  have hstop : ∀ c ∈ rest.head?, isBlank c = false := fun c hc => (hrest c hc).1
  cases hseparator with
  | @comma before after hbefore hafter =>
      have hcomma : ∀ c ∈ (',' :: (after ++ rest)).head?,
          isBlank c = false := by
        simp only [List.head?_cons, Option.mem_some_iff, forall_eq']
        decide
      rw [List.append_assoc, List.cons_append, splitSeparator?, trimLeft,
        dropWhile_run hbefore hcomma]
      simp [trimLeft, dropWhile_run hafter hstop]
  | blanks hne hcs =>
      obtain ⟨b, bs, rfl⟩ := List.exists_cons_of_ne_nil hne
      rw [splitSeparator?, trimLeft, dropWhile_run hcs hstop]
      have hb : isBlank b = true := hcs b (by simp)
      cases rest with
      | nil => simp [hb]
      | cons c rest =>
          have hc : c ≠ ',' := (hrest c (by simp)).2
          simp [hb, hc]

private theorem separator_of_splitSeparator? {cs rest : List Char}
    (h : splitSeparator? cs = some rest) :
    ∃ separator, cs = separator ++ rest ∧ IsSeparator separator := by
  have hcs : cs = cs.takeWhile isBlank ++ trimLeft cs :=
    List.takeWhile_append_dropWhile.symm
  have hblank : ∀ c ∈ cs.takeWhile isBlank, isBlank c = true :=
    fun c => of_mem_takeWhile
  revert h
  fun_cases splitSeparator? cs with
  | case1 behind hcomma =>
      rintro ⟨⟩
      refine ⟨cs.takeWhile isBlank ++ ',' :: behind.takeWhile isBlank, ?_,
        .comma hblank fun c => of_mem_takeWhile⟩
      rw [List.append_assoc, List.cons_append, trimLeft,
        List.takeWhile_append_dropWhile, ← hcomma]
      exact hcs
  | case2 hhead =>
      rintro ⟨⟩
      refine ⟨cs.takeWhile isBlank, hcs, .blanks ?_ hblank⟩
      intro hnone
      obtain ⟨c, hc, hblankc⟩ := (Option.any_eq_true ..).mp hhead
      obtain ⟨bs, rfl⟩ := List.head?_eq_some_iff.mp hc
      simp [hblankc] at hnone
  | case3 => simp

/-! ## Numbers -/

theorem splitNumber?_run {ds rest : List Char} (hds : IsNumeral ds)
    (hrest : ∀ c ∈ rest.head?, isDigit c = false) :
    splitNumber? (ds ++ rest) =
      some (valueOfDigits (digitValues ds), rest) := by
  obtain ⟨v, vs, hvalues⟩ := digitValues_cons hds
  rw [splitNumber?, splitDigits_run hds.2 hrest, hvalues]

private theorem numeral_of_splitNumber? {cs rest : List Char} {n : Nat}
    (h : splitNumber? cs = some (n, rest)) :
    ∃ ds, cs = ds ++ rest ∧ IsNumeral ds ∧
      n = valueOfDigits (digitValues ds) := by
  revert h
  fun_cases splitNumber? cs with
  | case1 => simp
  | case2 values behind hne hsplit =>
      rintro ⟨⟩
      obtain ⟨ds, hcs, hds, rfl⟩ := numeral_of_splitDigits hsplit hne
      exact ⟨ds, hcs, hds, rfl⟩

/-! ## The value at the end -/

private theorem isBlank_and_ne_comma_of_isDecimalChar {c : Char}
    (h : isDecimalChar c = true) : isBlank c = false ∧ c ≠ ',' :=
  ⟨isBlank_of_isDecimalChar h, ne_of_isDecimalChar h (by decide)⟩

namespace SpellsTail

variable {tail back : List Char} {value? : Option (List Char)}

private theorem exists_value (h : SpellsTail tail value?) :
    ∃ value, valueOf? value? = some value := by
  cases h with
  | bare => exact ⟨0.0, rfl⟩
  | valued hseparator hvalue => exact ⟨_, doubleOfText?_of_spells hvalue⟩

/-- A tail with a value is not blank, and its separator ends where the value
begins. -/
theorem split (back : List Char) {separator value : List Char} {w : Written}
    (hseparator : IsSeparator separator) (hvalue : w.Spells value) :
    (separator ++ (value ++ back)).all isBlank = false ∧
      splitSeparator? (separator ++ (value ++ back)) =
        some (value ++ back) := by
  obtain ⟨c, cs, rfl⟩ := hvalue.head
  have hc : isDecimalChar c = true := hvalue.isDecimalChar c (by simp)
  constructor
  · simp [isBlank_of_isDecimalChar hc]
  · apply splitSeparator?_run hseparator
    simpa using isBlank_and_ne_comma_of_isDecimalChar hc

theorem parse (h : SpellsTail tail value?)
    (hback : ∀ c ∈ back, isBlank c = true) :
    parseValue? (tail ++ back) = valueOf? value? := by
  cases h with
  | bare =>
      rw [List.nil_append, parseValue?, if_pos (List.all_eq_true.mpr hback),
        valueOf?]
  | @valued separator value w hseparator hvalue =>
      obtain ⟨hall, hsplit⟩ := split back hseparator hvalue
      have hend : ∀ d ∈ back.head?, isBlank d = true :=
        fun d hd => hback d (List.mem_of_mem_head? hd)
      have hblank : back.all isBlank = true := List.all_eq_true.mpr hback
      rw [List.append_assoc, parseValue?, hall, hsplit,
        if_neg Bool.false_ne_true, valueOf?, doubleOfText?_of_spells hvalue]
      simp only [Option.bind_eq_bind, Option.bind_some,
        Written.scan_of_spells hvalue hend, hblank, if_true]

end SpellsTail

private theorem tail_of_parseValue? {cs : List Char} {value : Float}
    (h : parseValue? cs = some value) :
    ∃ tail back value?, cs = tail ++ back ∧ SpellsTail tail value? ∧
      ∀ c ∈ back, isBlank c = true := by
  rw [parseValue?] at h
  split at h
  · next hall => exact ⟨[], cs, none, rfl, .bare, List.all_eq_true.mp hall⟩
  · obtain ⟨rest, hsplit, hread⟩ := Option.bind_eq_some_iff.mp h
    obtain ⟨⟨w, back⟩, hscan, hend⟩ := Option.bind_eq_some_iff.mp hread
    obtain ⟨separator, rfl, hseparator⟩ := separator_of_splitSeparator? hsplit
    obtain ⟨text, rfl, htext⟩ := Written.spells_of_scan hscan
    have hback : back.all isBlank = true := by
      dsimp only at hend
      split at hend
      · assumption
      · cases hend
    exact ⟨separator ++ text, back, some text, by simp,
      .valued hseparator htext, List.all_eq_true.mp hback⟩

/-! ## Whole lines -/

/-- A separator begins with a blank or with its comma. -/
theorem IsSeparator.head {separator : List Char} (h : IsSeparator separator) :
    ∃ c cs, separator = c :: cs ∧ isDigit c = false := by
  cases h with
  | @comma before after hbefore hafter =>
      cases before with
      | nil => exact ⟨',', after, rfl, by decide⟩
      | cons b before =>
          exact ⟨b, before ++ ',' :: after, rfl,
            isDigit_of_isBlank (hbefore b (by simp))⟩
  | blanks hne hcs =>
      obtain ⟨b, bs, rfl⟩ := List.exists_cons_of_ne_nil hne
      exact ⟨b, bs, rfl, isDigit_of_isBlank (hcs b (by simp))⟩

private theorem head_of_isNumeral {ds rest : List Char} (h : IsNumeral ds) :
    ∀ c ∈ (ds ++ rest).head?, isBlank c = false ∧ c ≠ ',' := by
  obtain ⟨d, ds, rfl⟩ := List.exists_cons_of_ne_nil h.1
  simpa using isBlank_and_ne_comma_of_isDecimalChar
    (isDecimalChar_of_isDigit (h.2 d (by simp)))

/-- The value is what stands between its separator and the next blank. -/
theorem SpellsTail.cut {tail back : List Char} {value? : Option (List Char)}
    (h : SpellsTail tail value?) (hback : ∀ c ∈ back, isBlank c = true) :
    (if (tail ++ back).all isBlank then none
      else (splitSeparator? (tail ++ back)).map fun cs =>
        cs.takeWhile fun c => !isBlank c) = value? := by
  cases h with
  | bare => rw [List.nil_append, if_pos (List.all_eq_true.mpr hback)]
  | @valued separator value w hseparator hvalue =>
      obtain ⟨hall, hsplit⟩ := split back hseparator hvalue
      have hrun : (value ++ back).takeWhile (fun c => !isBlank c) = value := by
        apply takeWhile_run
        · intro c hc
          rw [isBlank_of_isDecimalChar (hvalue.isDecimalChar c hc),
            Bool.not_false]
        · intro c hc
          rw [hback c (List.mem_of_mem_head? hc), Bool.not_true]
      rw [List.append_assoc, hall, hsplit]
      simp [hrun]

theorem SpellsTail.head {tail back : List Char} {value? : Option (List Char)}
    (h : SpellsTail tail value?) (hback : ∀ c ∈ back, isBlank c = true) :
    ∀ c ∈ (tail ++ back).head?, isDigit c = false := by
  cases h with
  | bare =>
      intro c hc
      exact isDigit_of_isBlank (hback c (List.mem_of_mem_head? hc))
  | valued hseparator hvalue =>
      obtain ⟨c, cs, rfl, hc⟩ := hseparator.head
      simpa using hc

/-- The parts of a line as the reader cuts it: where digits end, where a
separator ends, and where the blanks at the end begin. -/
def LineParts.cut? (line : List Char) : Option LineParts := do
  let front := trimLeft line
  let behind ← splitSeparator? (front.dropWhile isDigit)
  let rest := behind.dropWhile isDigit
  let value? :=
    if rest.all isBlank then none
    else (splitSeparator? rest).map fun cs => cs.takeWhile fun c => !isBlank c
  return ⟨front.takeWhile isDigit, behind.takeWhile isDigit, value?⟩

namespace LineParts

/-- A spelled line is read as what its parts mean. -/
theorem Spells.parse {line : List Char} {p : LineParts} (h : p.Spells line) :
    ∃ e, EdgeLine.parse? line = some e ∧ p.Means e := by
  cases h with
  | @mk front source separator target tail back value? hfront hsource hseparator
      htarget htail hback =>
    obtain ⟨value, hvalue⟩ := htail.exists_value
    have hbehind : ∀ c ∈ (separator ++ (target ++ (tail ++ back))).head?,
        isDigit c = false := by
      obtain ⟨c, cs, rfl, hc⟩ := hseparator.head
      simpa using hc
    refine ⟨⟨valueOfDigits (digitValues source),
        valueOfDigits (digitValues target), value⟩,
      ?_, wholeOfText?_of_isNumeral hsource, wholeOfText?_of_isNumeral htarget,
      hvalue⟩
    rw [EdgeLine.parse?, trimLeft,
      dropWhile_run hfront fun c hc => (head_of_isNumeral hsource c hc).1,
      splitNumber?_run hsource hbehind]
    simp [splitSeparator?_run hseparator (head_of_isNumeral htarget),
      splitNumber?_run htarget (htail.head hback), htail.parse hback, hvalue]

/-- The parts of a spelled line are those that it is cut into. -/
theorem Spells.cut {line : List Char} {p : LineParts} (h : p.Spells line) :
    cut? line = some p := by
  cases h with
  | @mk front source separator target tail back value? hfront hsource hseparator
      htarget htail hback =>
    have hbehind : ∀ c ∈ (separator ++ (target ++ (tail ++ back))).head?,
        isDigit c = false := by
      obtain ⟨c, cs, rfl, hc⟩ := hseparator.head
      simpa using hc
    rw [cut?, trimLeft,
      dropWhile_run hfront fun c hc => (head_of_isNumeral hsource c hc).1,
      takeWhile_run hsource.2 hbehind, dropWhile_run hsource.2 hbehind,
      splitSeparator?_run hseparator (head_of_isNumeral htarget)]
    simp only [Option.pure_def, Option.bind_eq_bind, Option.bind_some,
      takeWhile_run htarget.2 (htail.head hback),
      dropWhile_run htarget.2 (htail.head hback), htail.cut hback]

/-- The parts of a line are determined by it. -/
theorem Spells.unique {line : List Char} {p q : LineParts} (hp : p.Spells line)
    (hq : q.Spells line) : p = q :=
  Option.some.inj (hp.cut.symm.trans hq.cut)

/-- Whatever is read was spelled. -/
theorem spells_of_parse? {line : List Char} {e : EdgeLine}
    (h : EdgeLine.parse? line = some e) : ∃ p : LineParts, p.Spells line := by
  obtain ⟨⟨n, rest⟩, hfirst, h⟩ := Option.bind_eq_some_iff.mp h
  obtain ⟨rest', hbetween, h⟩ := Option.bind_eq_some_iff.mp h
  obtain ⟨⟨m, rest''⟩, hsecond, h⟩ := Option.bind_eq_some_iff.mp h
  obtain ⟨value, hvalue, -⟩ := Option.bind_eq_some_iff.mp h
  obtain ⟨source, hline, hsource, -⟩ := numeral_of_splitNumber? hfirst
  obtain ⟨separator, rfl, hseparator⟩ := separator_of_splitSeparator? hbetween
  obtain ⟨target, rfl, htarget, -⟩ := numeral_of_splitNumber? hsecond
  obtain ⟨tail, back, value?, rfl, htail, hback⟩ := tail_of_parseValue? hvalue
  refine ⟨⟨source, target, value?⟩, ?_⟩
  rw [← List.takeWhile_append_dropWhile (p := isBlank) (l := line)]
  rw [trimLeft] at hline
  rw [hline]
  exact .mk (fun c => of_mem_takeWhile) hsource hseparator htarget htail hback

end LineParts

/-! ## The reader and the grammar -/

/-- A line is read if and only if the grammar spells it, as the edge that its
parts mean; and there is only one way to spell it. -/
theorem parse?_grammar (line : List Char) :
    (∀ e, EdgeLine.parse? line = some e ↔
        ∃ p : LineParts, p.Spells line ∧ p.Means e) ∧
      (∀ p q : LineParts, p.Spells line → q.Spells line → p = q) ∧
      ((∃ e, EdgeLine.parse? line = some e) ↔
        ∃ p : LineParts, p.Spells line) ∧
      (EdgeLine.parse? line = none ↔ ¬ ∃ p : LineParts, p.Spells line) := by
  have hread : (∃ e, EdgeLine.parse? line = some e) ↔
      ∃ p : LineParts, p.Spells line := by
    constructor
    · rintro ⟨e, he⟩
      exact LineParts.spells_of_parse? he
    · rintro ⟨p, hp⟩
      obtain ⟨e, he, -⟩ := hp.parse
      exact ⟨e, he⟩
  refine ⟨fun e => ⟨fun he => ?_, ?_⟩, fun p q hp hq => hp.unique hq, hread, ?_⟩
  · obtain ⟨p, hp⟩ := LineParts.spells_of_parse? he
    obtain ⟨e', he', hmeans⟩ := hp.parse
    rw [Option.some.inj (he.symm.trans he')]
    exact ⟨p, hp, hmeans⟩
  · rintro ⟨p, hp, hmeans⟩
    obtain ⟨e', he', hmeans'⟩ := hp.parse
    rw [he', hmeans.eq hmeans']
  · rw [← hread, ← Option.isSome_iff_exists, Bool.not_eq_true,
      Option.isSome_eq_false_iff, Option.isNone_iff_eq_none]

end RatingFactors.Ratings
