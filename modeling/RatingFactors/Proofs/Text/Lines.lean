import RatingFactors.Text.Lines

/-!
# Cutting a text that was put together from lines

A text that is a line and a line feed, again and again, is cut into these lines.

## Main results

* `lines_join` — the lines of such a text.
-/

namespace RatingFactors.Text

/-- A line of a text: nothing that ends a line, then the line feed. -/
def IsLine (cs : List Char) : Prop :=
  ∃ body, cs = body ++ ['\n'] ∧ '\n' ∉ body ∧ '\r' ∉ body

private theorem unifyNewlines_eq_self {cs : List Char} (h : '\r' ∉ cs) :
    unifyNewlines cs = cs := by
  fun_induction unifyNewlines cs with
  | case1 => rfl
  | case2 rest => exact absurd (List.mem_cons_self ..) h
  | case3 rest => exact absurd (List.mem_cons_self ..) h
  | case4 c rest _ _ ih => rw [ih fun hmem => h (List.mem_cons_of_mem _ hmem)]

private theorem cutLines_line {body : List Char} (hbody : '\n' ∉ body)
    (rest : List Char) :
    cutLines (body ++ '\n' :: rest) = (body ++ ['\n']) :: cutLines rest := by
  induction body with
  | nil => rw [List.nil_append, cutLines, if_pos rfl, List.nil_append]
  | cons c body ih =>
      have hc : c ≠ '\n' := fun heq => hbody (by simp [heq])
      rw [List.cons_append, cutLines, if_neg hc,
        ih fun hmem => hbody (List.mem_cons_of_mem _ hmem)]
      rfl

/-- A text put together from lines is cut into these lines. -/
theorem lines_join {texts : List String} (h : ∀ t ∈ texts, IsLine t.toList) :
    lines (String.join texts) = texts.map String.toList := by
  have hreturn : '\r' ∉ (String.join texts).toList := by
    rw [String.toList_join, List.mem_flatMap]
    rintro ⟨t, ht, hmem⟩
    obtain ⟨body, hbody, -, hnone⟩ := h t ht
    simp [hbody, hnone] at hmem
  rw [lines, unifyNewlines_eq_self hreturn, String.toList_join]
  clear hreturn
  induction texts with
  | nil => rfl
  | cons t texts ih =>
      obtain ⟨body, hbody, hfeed, -⟩ := h t (by simp)
      rw [List.flatMap_cons, hbody, List.append_assoc, List.singleton_append,
        cutLines_line hfeed, ih fun u hu => h u (by simp [hu]), List.map_cons,
        hbody]

end RatingFactors.Text
