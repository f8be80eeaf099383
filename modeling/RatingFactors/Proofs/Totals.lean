import RatingFactors.Proofs.Roots

/-!
# Totals of steps

What a number of steps comes to, said without the order in which they are added
up: nothing if none of them has coordinates, and otherwise the sums, coordinate
by coordinate, over those that have.  There is a total unless two of them clash,
and where addition is exact the totals of two lists add up to the total of both,
or are refused because the lists clash.

## Main definitions

* `Step.Clash` — two of the steps have coordinates, and not as many.
* `Step.total` — the sums over the steps that have coordinates.
* `Step.Settles` — an answer that is refused for steps that clash, and their
  total for others.

## Main results

* `Step.total_perm` — the order of the steps does not matter.
* `Step.settles_add` — totals are added as the steps themselves are.
-/

namespace RatingFactors

namespace Step

variable {α : Type}

/-- Two of the steps have coordinates, and not as many. -/
def Clash (steps : List (Step α)) : Prop :=
  ∃ s ∈ steps, ∃ t ∈ steps, s.isEmpty = false ∧ t.isEmpty = false ∧
    s.delta.length ≠ t.delta.length

/-- The steps that have coordinates. -/
def filled (steps : List (Step α)) : List (Step α) :=
  steps.filter fun s => !s.isEmpty

theorem mem_filled {steps : List (Step α)} {s : Step α} :
    s ∈ filled steps ↔ s ∈ steps ∧ s.isEmpty = false := by
  simp [filled]

private theorem filled_append (xs ys : List (Step α)) :
    filled (xs ++ ys) = filled xs ++ filled ys :=
  List.filter_append xs ys

/-- Only steps with coordinates can clash. -/
theorem clash_iff {steps : List (Step α)} :
    Clash steps ↔ ∃ s ∈ filled steps, ∃ t ∈ filled steps,
      s.delta.length ≠ t.delta.length := by
  constructor
  · rintro ⟨s, hs, t, ht, hsfull, htfull, hne⟩
    exact ⟨s, mem_filled.mpr ⟨hs, hsfull⟩, t, mem_filled.mpr ⟨ht, htfull⟩, hne⟩
  · rintro ⟨s, hs, t, ht, hne⟩
    rw [mem_filled] at hs ht
    exact ⟨s, hs.1, t, ht.1, hs.2, ht.2, hne⟩

private theorem clash_congr {xs ys : List (Step α)}
    (h : filled xs = filled ys) : Clash xs ↔ Clash ys := by
  rw [clash_iff, clash_iff, h]

theorem Clash.of_subset {xs ys : List (Step α)} (hclash : Clash xs)
    (hsubset : xs ⊆ ys) : Clash ys := by
  obtain ⟨s, hs, t, ht, hrest⟩ := hclash
  exact ⟨s, hsubset hs, t, hsubset ht, hrest⟩

theorem clash_perm {xs ys : List (Step α)} (hperm : xs.Perm ys) :
    Clash xs ↔ Clash ys :=
  ⟨fun h => h.of_subset hperm.subset, fun h => h.of_subset hperm.symm.subset⟩

theorem not_clash_singleton (s : Step α) : ¬Clash [s] := by
  rintro ⟨t, ht, u, hu, -, -, hne⟩
  rw [List.mem_singleton.mp ht, List.mem_singleton.mp hu] at hne
  exact hne rfl

/-- Steps that do not clash have coordinates in the same number. -/
theorem length_eq_of_not_clash {steps : List (Step α)} (hfree : ¬Clash steps)
    {s t : Step α} (hs : s ∈ filled steps) (ht : t ∈ filled steps) :
    s.delta.length = t.delta.length := by
  by_contra hne
  exact hfree (clash_iff.mpr ⟨s, hs, t, ht, hne⟩)

variable [Scalar α]

/-- The sums, coordinate by coordinate, of steps with a set number of them. -/
def overlay (size : Nat) (steps : List (Step α)) : Step α where
  delta := (List.range size).map fun i =>
    Scalar.sum (steps.map fun s => s.delta.getD i Scalar.zero)
  bias := Scalar.sum (steps.map Step.bias)

/-- What the steps come to: the sums over those that have coordinates, and the
empty step if none has. -/
def total (steps : List (Step α)) : Step α :=
  match filled steps with
  | [] => empty
  | s :: rest => overlay s.delta.length (s :: rest)

/-- The answer of adding up steps: refused if two of them clash, and otherwise
what they come to. -/
structure Settles (steps : List (Step α)) (answer : Except Failure (Step α)) :
    Prop where
  refused : Clash steps → ∃ m n, m ≠ n ∧ answer = .error (.stepLengths m n)
  total : ¬Clash steps → answer = .ok (total steps)

theorem total_congr {xs ys : List (Step α)} (h : filled xs = filled ys) :
    total xs = total ys := by
  rw [total, h, ← total]

@[simp] theorem length_overlay (size : Nat) (steps : List (Step α)) :
    (overlay size steps).delta.length = size := by
  simp [overlay]

theorem total_eq_empty {steps : List (Step α)} (h : filled steps = []) :
    total steps = empty := by
  rw [total, h]

/-- Any of the steps with coordinates tells how many a total has. -/
theorem total_eq_overlay {steps : List (Step α)} (hfree : ¬Clash steps)
    {s : Step α} (hs : s ∈ filled steps) :
    total steps = overlay s.delta.length (filled steps) := by
  cases hfilled : filled steps with
  | nil => simp [hfilled] at hs
  | cons t rest =>
      have ht : t ∈ filled steps := by rw [hfilled]; exact List.mem_cons_self
      rw [total, hfilled, length_eq_of_not_clash hfree hs ht]

theorem length_total {steps : List (Step α)} (hfree : ¬Clash steps)
    {s : Step α} (hs : s ∈ filled steps) :
    (total steps).delta.length = s.delta.length := by
  rw [total_eq_overlay hfree hs, length_overlay]

theorem isEmpty_total {steps : List (Step α)} (hfree : ¬Clash steps)
    {s : Step α} (hs : s ∈ filled steps) : (total steps).isEmpty = false := by
  have hlength := length_total hfree hs
  have hfull := (mem_filled.mp hs).2
  rw [← Bool.not_eq_true, isEmpty_iff, ← List.length_eq_zero_iff] at hfull ⊢
  rwa [hlength]

theorem proper_total {steps : List (Step α)} (hfree : ¬Clash steps) :
    (total steps).Proper := by
  cases hfilled : filled steps with
  | nil =>
      rw [total_eq_empty hfilled]
      exact proper_empty
  | cons s rest =>
      have hs : s ∈ filled steps := by rw [hfilled]; exact List.mem_cons_self
      intro hempty
      rw [isEmpty_total hfree hs] at hempty
      cases hempty

/-! ## Exact addition -/

/-- The steps do not have to be added up in the order in which they are
listed. -/
theorem total_perm (hexact : Scalar.Exact α) {xs ys : List (Step α)}
    (hperm : xs.Perm ys) (hfree : ¬Clash xs) : total xs = total ys := by
  have hfilled : (filled xs).Perm (filled ys) := hperm.filter _
  cases hxs : filled xs with
  | nil =>
      rw [hxs] at hfilled
      rw [total_eq_empty hxs, total_eq_empty hfilled.nil_eq.symm]
  | cons s rest =>
      have hs : s ∈ filled xs := by rw [hxs]; exact List.mem_cons_self
      rw [total_eq_overlay hfree hs,
        total_eq_overlay (fun hclash => hfree ((clash_perm hperm).mpr hclash))
          (hfilled.subset hs)]
      simp only [overlay, hexact.sum_perm (hfilled.map _)]

section Exact

variable (h : Scalar.Lawful α)

include h

/-- A single step comes to itself. -/
theorem total_singleton {s : Step α} (hs : s.Proper) : total [s] = s := by
  cases hempty : s.isEmpty with
  | true =>
      rw [total_eq_empty (by simp [filled, hempty]), hs hempty]
  | false =>
      have hfilled : filled [s] = [s] := by simp [filled, hempty]
      have hsum : ∀ x : α, Scalar.sum [x] = x := fun x => h.zero_add x
      rw [total_eq_overlay (not_clash_singleton s)
        (mem_filled.mpr ⟨List.mem_singleton_self s, hempty⟩), hfilled]
      simp only [overlay, List.map_cons, List.map_nil, hsum]
      congr 1
      refine List.ext_getElem (by simp) fun i hi hi' => ?_
      simp [List.getElem?_eq_getElem hi']

/-- Overlays of one size are added coordinate by coordinate. -/
theorem add_overlay {size : Nat} (hsize : size ≠ 0) (xs ys : List (Step α)) :
    (overlay size xs).add (overlay size ys) =
      .ok (overlay size (xs ++ ys)) := by
  have hfull : ∀ zs : List (Step α), (overlay size zs).isEmpty = false := by
    intro zs
    rw [← Bool.not_eq_true, isEmpty_iff, ← List.length_eq_zero_iff,
      length_overlay]
    exact hsize
  rw [add, if_neg (by simp [hfull]), if_neg (by simp [hfull]), if_pos (by simp)]
  simp only [overlay, List.zipWith_map, List.zipWith_self, List.map_append,
    h.sum_append]

/-- Totals are added as the steps themselves are: refused if a step of the one
list clashes with a step of the other, and otherwise to the total of both. -/
theorem settles_add {xs ys : List (Step α)} (hxs : ¬Clash xs)
    (hys : ¬Clash ys) : Settles (xs ++ ys) ((total xs).add (total ys)) := by
  have hfilled := filled_append xs ys
  rcases hx : filled xs with _ | ⟨s, srest⟩
  · rw [hx, List.nil_append] at hfilled
    rw [total_eq_empty hx, empty_add]
    exact ⟨fun hclash => absurd ((clash_congr hfilled).mp hclash) hys,
      fun _ => by rw [total_congr hfilled]⟩
  · have hs : s ∈ filled xs := by rw [hx]; exact List.mem_cons_self
    rcases hy : filled ys with _ | ⟨t, trest⟩
    · rw [hy, List.append_nil] at hfilled
      rw [total_eq_empty hy, add_empty (isEmpty_total hxs hs) rfl]
      exact ⟨fun hclash => absurd ((clash_congr hfilled).mp hclash) hxs,
        fun _ => by rw [total_congr hfilled]⟩
    · have ht : t ∈ filled ys := by rw [hy]; exact List.mem_cons_self
      by_cases hlength : s.delta.length = t.delta.length
      · -- One length for both lists: the sums are put together.
        have hfree : ¬Clash (xs ++ ys) := by
          have hall : ∀ u ∈ filled (xs ++ ys),
              u.delta.length = s.delta.length := by
            intro u hu
            rw [hfilled, List.mem_append] at hu
            rcases hu with hu | hu
            · exact length_eq_of_not_clash hxs hu hs
            · exact (length_eq_of_not_clash hys hu ht).trans hlength.symm
          rw [clash_iff]
          rintro ⟨u, hu, v, hv, hne⟩
          exact hne ((hall u hu).trans (hall v hv).symm)
        have hsize : s.delta.length ≠ 0 := by
          rw [Ne, List.length_eq_zero_iff, ← isEmpty_iff, (mem_filled.mp hs).2]
          exact Bool.false_ne_true
        refine ⟨fun hclash => absurd hclash hfree, fun _ => ?_⟩
        rw [total_eq_overlay hxs hs, total_eq_overlay hys ht, ← hlength,
          add_overlay h hsize, ← hfilled, total_eq_overlay hfree (s := s)
            (by rw [hfilled]; exact List.mem_append_left _ hs)]
      · have hclash : Clash (xs ++ ys) := clash_iff.mpr
          ⟨s, by rw [hfilled]; exact List.mem_append_left _ hs,
            t, by rw [hfilled]; exact List.mem_append_right _ ht, hlength⟩
        refine ⟨fun _ => ⟨s.delta.length, t.delta.length, hlength, ?_⟩,
          fun hfree => absurd hclash hfree⟩
        rw [add, if_neg (by simp [isEmpty_total hxs hs]),
          if_neg (by simp [isEmpty_total hys ht]), length_total hxs hs,
          length_total hys ht, if_neg hlength]

end Exact

end Step

end RatingFactors
