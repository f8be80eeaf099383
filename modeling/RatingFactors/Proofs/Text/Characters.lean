import RatingFactors.Text.Blank
import RatingFactors.Text.Digit

/-!
# Blanks, digits, and runs of them

The two classes of characters that edge lines and written numbers are made of
have no member in common, so a text is cut where a run of one class ends and it
does not matter what follows.

## Main results

* `isBlank_of_isDigit` — no digit is blank.
* `takeWhile_run`, `dropWhile_run` — a run is cut off where it ends.
* `digitValue?_of_isDigit` — the digits of plain text and their values.
-/

namespace RatingFactors.Text

/-! ## The two classes -/

theorem isDigit_iff {c : Char} :
    isDigit c = true ↔
      ∃ first ∈ zeroCodes, first ≤ c.toNat ∧ c.toNat < first + 10 := by
  simp [isDigit, digitValue?, List.find?_isSome]

private theorem isBlank_iff {c : Char} :
    isBlank c = true ↔
      ∃ range ∈ blankRanges, range.1 ≤ c.toNat ∧ c.toNat ≤ range.2 := by
  simp [isBlank]

/-- The digits of every script lie apart from every range of blanks. -/
theorem zeroCodes_apart : ∀ first ∈ zeroCodes, ∀ range ∈ blankRanges,
    range.2 < first ∨ first + 10 ≤ range.1 := by
  decide

/-- No digit is blank. -/
theorem isBlank_of_isDigit {c : Char} (h : isDigit c = true) :
    isBlank c = false := by
  obtain ⟨first, hfirst, hlow, hhigh⟩ := isDigit_iff.mp h
  apply Bool.eq_false_iff.mpr
  intro hblank
  obtain ⟨range, hrange, hleft, hright⟩ := isBlank_iff.mp hblank
  rcases zeroCodes_apart first hfirst range hrange with hbelow | habove
  · omega
  · omega

theorem isDigit_of_isBlank {c : Char} (h : isBlank c = true) :
    isDigit c = false := by
  apply Bool.eq_false_iff.mpr
  intro hdigit
  rw [isBlank_of_isDigit hdigit] at h
  cases h

theorem ne_of_isBlank {c d : Char} (h : isBlank c = true)
    (hd : isBlank d = false) : c ≠ d := by
  rintro rfl
  rw [h] at hd
  cases hd

/-- The digits of plain text are digits, each worth its distance from zero. -/
theorem digitValue?_of_isDigit {c : Char} (h : c.isDigit = true) :
    digitValue? c = some (c.toNat - '0'.toNat) := by
  have hrange : '0'.toNat ≤ c.toNat ∧ c.toNat ≤ '9'.toNat := by
    simpa [Char.isDigit, Char.le_def, UInt32.le_iff_toNat_le] using h
  have hlow : 48 ≤ c.toNat := hrange.1
  have hhigh : c.toNat ≤ 57 := hrange.2
  have hfirst : zeroCodes.find?
      (fun first => first ≤ c.toNat && c.toNat < first + 10) = some 48 := by
    rw [zeroCodes, List.find?_cons_of_pos]
    simp only [Bool.and_eq_true, decide_eq_true_eq]
    omega
  rw [digitValue?, hfirst]
  rfl

/-! ## Runs -/

variable {α : Type} {p : α → Bool} {run rest : List α}

/-- A run ends where the first character of another kind stands. -/
theorem takeWhile_run (hrun : ∀ c ∈ run, p c = true)
    (hrest : ∀ c ∈ rest.head?, p c = false) :
    (run ++ rest).takeWhile p = run := by
  rw [List.takeWhile_append_of_pos hrun]
  cases rest with
  | nil => simp
  | cons c rest =>
      have hc : p c = false := hrest c (by simp)
      simp [hc]

theorem dropWhile_run (hrun : ∀ c ∈ run, p c = true)
    (hrest : ∀ c ∈ rest.head?, p c = false) :
    (run ++ rest).dropWhile p = rest := by
  rw [List.dropWhile_append_of_pos hrun]
  cases rest with
  | nil => rfl
  | cons c rest =>
      have hc : p c = false := hrest c (by simp)
      simp [hc]

theorem of_mem_takeWhile {p : α → Bool} {cs : List α} {c : α}
    (h : c ∈ cs.takeWhile p) : p c = true :=
  List.all_eq_true.mp List.all_takeWhile c h

end RatingFactors.Text
