import RatingFactors.Proofs.Attempt
import RatingFactors.Proofs.Descent.Flow
import RatingFactors.Proofs.Totals
import RatingFactors.Shelf

/-!
# Combining steps in any order

Steps on a shelf are combined two by two, as a tree says, or gathered one after
the other into a step that was empty at first.  Either way the steps themselves
stay as they are, the work is refused exactly if two of them clash, and what it
comes to is their total.

What carries the induction is that a subtree that went through stands on the
shelf as the total of its own steps: where its steps clash with those of the
other subtree, the two totals do.

## Main definitions

* `Combination` — a tree of steps to be combined.
* `Shelf.gather` — steps added, in order, into one that is empty at first.
* `Shelf.Evaluated` — what such work leaves on the shelf, and what it answers.

## Main results

* `Combination.evaluated_run`, `Shelf.evaluated_gather` — trees and sequences.
* `Combination.every_grouping_agrees` — every tree over every permutation of
  steps as the constructor makes them, and every sequence of them.
-/

namespace RatingFactors

namespace Step

variable {α : Type} [Scalar α]

/-- What is added in place is what `add` gives, and a refusal changes
nothing. -/
theorem perform_absorb (own other : Step α) :
    (absorb other).perform own =
      match own.add other with
      | .ok sum => (.ok (), sum)
      | .error cause => (.error cause, own) := by
  unfold absorb add
  rw [Attempt.perform_get_bind]
  split
  · rfl
  · split
    · rfl
    · split
      · rfl
      · rfl

theorem Proper.copy {s : Step α} (hs : s.Proper) : s.copy = s := by
  cases hempty : s.isEmpty with
  | true =>
      rw [hs hempty]
      rfl
  | false =>
      obtain ⟨delta, bias⟩ := s
      cases delta with
      | nil => cases hempty
      | cons x xs => rfl

end Step

namespace Shelf

variable {α : Type} [Scalar α]

/-- Adds steps of the shelf, in order, into a new one that is empty at first. -/
def gather (others : List Nat) : Attempt (Shelf α) Nat := do
  let own ← put Step.empty
  Attempt.each others (absorb own)
  return own

private theorem step_eq {shelf : Shelf α} {number : Nat} {s : Step α}
    (h : shelf[number]? = some s) : shelf.step number = s := by
  rw [step, Array.getD_eq_getD_getElem?, h, Option.getD_some]

private theorem getElem?_eq_step {shelf : Shelf α} {number : Nat}
    (h : number < shelf.size) : shelf[number]? = some (shelf.step number) := by
  rw [Array.getElem?_eq_getElem h, step_eq (Array.getElem?_eq_getElem h)]

private theorem step_congr {shelf shelf' : Shelf α} {number : Nat}
    (h : shelf[number]? = shelf'[number]?) :
    shelf.step number = shelf'.step number := by
  rw [step, step, Array.getD_eq_getD_getElem?, Array.getD_eq_getD_getElem?, h]

private theorem proper_step {shelf : Shelf α} (h : ∀ s ∈ shelf, s.Proper)
    (number : Nat) : (shelf.step number).Proper := by
  rw [step, Array.getD_eq_getD_getElem?]
  cases hfound : shelf[number]? with
  | none => exact Step.proper_empty
  | some s => exact h s (Array.mem_of_getElem? hfound)

private theorem setIfInBounds_step (shelf : Shelf α) (number : Nat) :
    shelf.setIfInBounds number (shelf.step number) = shelf := by
  refine Array.ext_getElem? fun n => ?_
  rw [Array.getElem?_setIfInBounds]
  split
  · rename_i heq
    subst heq
    split
    · rename_i hn
      exact (getElem?_eq_step hn).symm
    · rename_i hn
      exact (Array.getElem?_eq_none (Nat.le_of_not_lt hn)).symm
  · rfl

/-- Adding in place: the sum stands where the step stood, and after a refusal
the shelf is as it was. -/
theorem perform_absorb (shelf : Shelf α) (own other : Nat) :
    (absorb own other).perform shelf =
      match (shelf.step own).add (shelf.step other) with
      | .ok sum => (.ok (), shelf.setIfInBounds own sum)
      | .error cause => (.error cause, shelf) := by
  unfold absorb
  rw [Attempt.perform_get_bind, Step.perform_absorb]
  cases (shelf.step own).add (shelf.step other) with
  | ok sum => rfl
  | error cause =>
      dsimp only
      rw [Attempt.perform_set_bind, Attempt.perform_lift, setIfInBounds_step]

/-- Combining: the sum stands under a new number. A refusal leaves a copy there,
of which no one has the number. -/
private theorem perform_combine (shelf : Shelf α) (left right : Nat) :
    (combine left right).perform shelf =
      match (shelf.step left).copy.add
        (Shelf.step (shelf.push (shelf.step left).copy) right) with
      | .ok sum => (.ok shelf.size, shelf.push sum)
      | .error cause => (.error cause, shelf.push (shelf.step left).copy) := by
  have hput : (put (shelf.step left).copy).perform shelf =
      (.ok shelf.size, shelf.push (shelf.step left).copy) := rfl
  have hown : Shelf.step (shelf.push (shelf.step left).copy) shelf.size =
      (shelf.step left).copy := step_eq (by simp)
  unfold combine
  rw [Attempt.perform_get_bind, Attempt.perform_bind, hput]
  dsimp only
  rw [Attempt.perform_bind, perform_absorb, hown]
  cases (shelf.step left).copy.add
      (Shelf.step (shelf.push (shelf.step left).copy) right) with
  | error cause => rfl
  | ok sum => simp [Array.setIfInBounds, Array.set_push]

/-- Whether it is refused or not, combining changes no step of the shelf. -/
theorem combine_keeps (shelf : Shelf α) (left right : Nat) {n : Nat}
    (hn : n < shelf.size) :
    ((combine left right).perform shelf).2[n]? = shelf[n]? := by
  have hpush : ∀ s, (shelf.push s)[n]? = shelf[n]? := fun s =>
    (Array.getElem?_push_lt hn).trans (Array.getElem?_eq_getElem hn).symm
  rw [perform_combine]
  split
  · exact hpush _
  · exact hpush _

omit [Scalar α] in
private theorem lt_size_of_kept {before after : Shelf α}
    (hkept : ∀ n < before.size, after[n]? = before[n]?) {n : Nat}
    (hn : n < before.size) : n < after.size := by
  have hfound := hkept n hn
  rw [Array.getElem?_eq_getElem hn] at hfound
  exact (Array.getElem?_eq_some_iff.mp hfound).1

/-! ## What is left and answered -/

/-- Steps were added up on a shelf: what this answers, and what it leaves
there. -/
structure Evaluated (before : Shelf α) (steps : List (Step α))
    (outcome : Except Failure Nat × Shelf α) : Prop where
  /-- The work is refused exactly if two of the steps clash. -/
  fails_iff : (∃ cause, outcome.1 = .error cause) ↔ Step.Clash steps
  /-- What refuses it is a check. -/
  kind : ∀ cause, outcome.1 = .error cause → cause.kind = .refused
  /-- Otherwise the total of the steps is on the shelf. -/
  total : ¬Step.Clash steps → ∃ number,
    outcome.1 = .ok number ∧ outcome.2[number]? = some (Step.total steps)
  /-- The steps that were on the shelf are there unchanged. -/
  kept : ∀ n < before.size, outcome.2[n]? = before[n]?
  /-- No step has a bias without coordinates. -/
  proper : ∀ s ∈ outcome.2, s.Proper

theorem Evaluated.of_error {before after : Shelf α} {steps : List (Step α)}
    {cause : Failure} (hclash : Step.Clash steps)
    (hkind : cause.kind = .refused)
    (hkept : ∀ n < before.size, after[n]? = before[n]?)
    (hproper : ∀ s ∈ after, s.Proper) :
    Evaluated before steps (.error cause, after) where
  fails_iff := ⟨fun _ => hclash, fun _ => ⟨cause, rfl⟩⟩
  kind := fun _ h => Except.error.inj h ▸ hkind
  total := fun hfree => absurd hclash hfree
  kept := hkept
  proper := hproper

theorem Evaluated.of_ok {before after : Shelf α} {steps : List (Step α)}
    {number : Nat} (hfree : ¬Step.Clash steps)
    (htotal : after[number]? = some (Step.total steps))
    (hkept : ∀ n < before.size, after[n]? = before[n]?)
    (hproper : ∀ s ∈ after, s.Proper) :
    Evaluated before steps (.ok number, after) where
  fails_iff := ⟨(fun ⟨_, h⟩ => nomatch h), fun hclash => absurd hclash hfree⟩
  kind := fun _ h => nomatch h
  total := fun _ => ⟨number, rfl, htotal⟩
  kept := hkept
  proper := hproper

/-- Either two of the steps clash, or the total is there. -/
theorem Evaluated.cases {before : Shelf α} {steps : List (Step α)}
    {outcome : Except Failure Nat × Shelf α}
    (h : Evaluated before steps outcome) :
    (∃ cause, outcome = (.error cause, outcome.2) ∧ Step.Clash steps) ∨
      ∃ number, outcome = (.ok number, outcome.2) ∧ ¬Step.Clash steps ∧
        outcome.2[number]? = some (Step.total steps) := by
  by_cases hclash : Step.Clash steps
  · obtain ⟨cause, hcause⟩ := h.fails_iff.mpr hclash
    exact .inl ⟨cause, Prod.ext hcause rfl, hclash⟩
  · obtain ⟨number, hnumber, htotal⟩ := h.total hclash
    exact .inr ⟨number, Prod.ext hnumber rfl, hclash, htotal⟩

/-- What was done before, if it kept what was on the shelf, does not show. -/
theorem Evaluated.after {before middle : Shelf α} {steps : List (Step α)}
    {outcome : Except Failure Nat × Shelf α}
    (h : Evaluated middle steps outcome)
    (hkept : ∀ n < before.size, middle[n]? = before[n]?) :
    Evaluated before steps outcome :=
  { h with
    kept := fun n hn =>
      (h.kept n (lt_size_of_kept hkept hn)).trans (hkept n hn) }

/-- The steps may be listed in another order. -/
theorem Evaluated.perm (hexact : Scalar.Exact α) {before : Shelf α}
    {steps steps' : List (Step α)} {outcome : Except Failure Nat × Shelf α}
    (h : Evaluated before steps outcome) (hperm : steps.Perm steps') :
    Evaluated before steps' outcome where
  fails_iff := h.fails_iff.trans (Step.clash_perm hperm)
  kind := h.kind
  total := by
    intro hfree
    have hfree' := fun hclash => hfree ((Step.clash_perm hperm).mp hclash)
    rw [← Step.total_perm hexact hperm hfree']
    exact h.total hfree'
  kept := h.kept
  proper := h.proper

/-- Two totals on the shelf are combined as the steps behind them are added
up. -/
theorem evaluated_combine (h : Scalar.Lawful α) {shelf : Shelf α}
    (hproper : ∀ s ∈ shelf, s.Proper) {xs ys : List (Step α)}
    {first second : Nat} (hxs : ¬Step.Clash xs) (hys : ¬Step.Clash ys)
    (hfirst : shelf[first]? = some (Step.total xs))
    (hsecond : shelf[second]? = some (Step.total ys)) :
    Evaluated shelf (xs ++ ys) ((combine first second).perform shelf) := by
  have hsettles := Step.settles_add h hxs hys
  have hkept : ∀ n < shelf.size,
      ((combine first second).perform shelf).2[n]? = shelf[n]? :=
    fun n hn => combine_keeps shelf first second hn
  have hpush : ∀ s : Step α, s.Proper → ∀ t ∈ shelf.push s, t.Proper := by
    intro s hs t ht
    rcases Array.mem_push.mp ht with ht | rfl
    · exact hproper t ht
    · exact hs
  have hright : ∀ s : Step α,
      Shelf.step (shelf.push s) second = Step.total ys := fun s =>
    step_eq (hsecond ▸
      (Array.getElem?_push_lt (Array.getElem?_eq_some_iff.mp hsecond).1).trans
        (Array.getElem?_eq_getElem _).symm)
  rw [perform_combine, step_eq hfirst, (Step.proper_total hxs).copy,
    hright] at hkept ⊢
  by_cases hclash : Step.Clash (xs ++ ys)
  · obtain ⟨m, n, -, hadd⟩ := hsettles.refused hclash
    rw [hadd] at hkept ⊢
    exact .of_error hclash rfl hkept (hpush _ (Step.proper_total hxs))
  · rw [hsettles.total hclash] at hkept ⊢
    exact .of_ok hclash (by simp) hkept (hpush _ (Step.proper_total hclash))

end Shelf

/-! ## Trees -/

/-- A grouping of steps, to be combined two by two. -/
inductive Combination
  /-- The step under a number. -/
  | step (number : Nat)
  /-- What the one grouping comes to, combined with what the other does. -/
  | sum (left right : Combination)

namespace Combination

variable {α : Type} [Scalar α]

/-- The numbers of the steps, from the left. -/
def numbers : Combination → List Nat
  | step number => [number]
  | sum left right => left.numbers ++ right.numbers

/-- Combines the steps: the number of the result. -/
def run : Combination → Attempt (Shelf α) Nat
  | step number => pure number
  | sum left right => do
    let first ← left.run
    let second ← right.run
    Shelf.combine first second

/-- The steps that a grouping is made of. -/
def steps (tree : Combination) (shelf : Shelf α) : List (Step α) :=
  tree.numbers.map shelf.step

private theorem steps_sum (left right : Combination) (shelf : Shelf α) :
    (sum left right).steps shelf = left.steps shelf ++ right.steps shelf :=
  List.map_append

/-- A shelf that keeps what is on another has the same steps for a grouping. -/
private theorem steps_congr {tree : Combination} {before after : Shelf α}
    (hin : ∀ n ∈ tree.numbers, n < before.size)
    (hkept : ∀ n < before.size, after[n]? = before[n]?) :
    tree.steps after = tree.steps before :=
  List.map_congr_left fun n hn => Shelf.step_congr (hkept n (hin n hn))

/-- Evaluation of a tree of steps, by induction over the tree. -/
theorem evaluated_run (h : Scalar.Lawful α) (tree : Combination)
    {shelf : Shelf α} (hproper : ∀ s ∈ shelf, s.Proper)
    (hin : ∀ n ∈ tree.numbers, n < shelf.size) :
    Shelf.Evaluated shelf (tree.steps shelf) (tree.run.perform shelf) := by
  induction tree generalizing shelf with
  | step number =>
      have hnumber : number < shelf.size :=
        hin number (List.mem_singleton_self number)
      refine .of_ok (Step.not_clash_singleton _) ?_ (fun _ _ => rfl) hproper
      change shelf[number]? = some (Step.total [shelf.step number])
      rw [Step.total_singleton h (Shelf.proper_step hproper number)]
      exact Shelf.getElem?_eq_step hnumber
  | sum left right ihl ihr =>
      have hinl : ∀ n ∈ left.numbers, n < shelf.size := fun n hn =>
        hin n (List.mem_append_left _ hn)
      have hinr : ∀ n ∈ right.numbers, n < shelf.size := fun n hn =>
        hin n (List.mem_append_right _ hn)
      have hl := ihl hproper hinl
      rw [steps_sum, run, Attempt.perform_bind]
      rcases hl.cases with ⟨cause, hrun, hclash⟩ | ⟨first, hrun, hxs, hfirst⟩
      · rw [hrun]
        exact .of_error (hclash.of_subset (List.subset_append_left _ _))
          (hl.kind cause (congrArg Prod.fst hrun)) hl.kept hl.proper
      · have hr :=
          ihr hl.proper fun n hn => Shelf.lt_size_of_kept hl.kept (hinr n hn)
        rw [steps_congr hinr hl.kept] at hr
        have hkept := (hr.after hl.kept).kept
        rw [hrun]
        dsimp only
        rw [Attempt.perform_bind]
        rcases hr.cases with
            ⟨cause, hrun, hclash⟩ | ⟨second, hrun, hys, hsecond⟩
        · rw [hrun]
          exact .of_error (hclash.of_subset (List.subset_append_right _ _))
            (hr.kind cause (congrArg Prod.fst hrun)) hkept hr.proper
        · rw [hrun]
          have hin := (Array.getElem?_eq_some_iff.mp hfirst).1
          exact (Shelf.evaluated_combine h hr.proper hxs hys
            ((hr.kept first hin).trans hfirst) hsecond).after hkept

end Combination

/-! ## Sequences -/

namespace Shelf

variable {α : Type} [Scalar α]

/-- Adding on, in place, to the total of steps that do not clash. -/
theorem evaluated_each (h : Scalar.Lawful α) {shelf : Shelf α}
    (others : List Nat) (hin : ∀ n ∈ others, n < shelf.size)
    (hshelf : ∀ s ∈ shelf, s.Proper) {seen : List (Step α)} {reached : Shelf α}
    (hfree : ¬Step.Clash seen)
    (hseen : reached[shelf.size]? = some (Step.total seen))
    (hkept : ∀ n < shelf.size, reached[n]? = shelf[n]?)
    (hproper : ∀ s ∈ reached, s.Proper) :
    Evaluated shelf (seen ++ others.map shelf.step)
      ((Attempt.each others (absorb shelf.size) >>=
        fun _ => pure shelf.size).perform reached) := by
  induction others generalizing seen reached with
  | nil =>
      rw [List.map_nil, List.append_nil]
      exact .of_ok hfree hseen hkept hproper
  | cons n rest ih =>
      have hn : n < shelf.size := hin n List.mem_cons_self
      have hsettles :=
        Step.settles_add h hfree (Step.not_clash_singleton (shelf.step n))
      rw [Step.total_singleton h (proper_step hshelf n)] at hsettles
      rw [List.map_cons, List.append_cons, Attempt.each, bind_assoc,
        Attempt.perform_bind, perform_absorb, step_eq hseen,
        step_congr (hkept n hn)]
      by_cases hclash : Step.Clash (seen ++ [shelf.step n])
      · obtain ⟨k, l, -, hadd⟩ := hsettles.refused hclash
        rw [hadd]
        exact .of_error (hclash.of_subset (List.subset_append_left _ _)) rfl
          hkept hproper
      · rw [hsettles.total hclash]
        have hsize : shelf.size < reached.size :=
          (Array.getElem?_eq_some_iff.mp hseen).1
        refine ih (fun k hk => hin k (List.mem_cons_of_mem n hk)) hclash
          (by simp [hsize]) (fun k hk => ?_) fun s hs => ?_
        · rw [Array.getElem?_setIfInBounds_ne (Nat.ne_of_gt hk)]
          exact hkept k hk
        · rcases Array.mem_or_eq_of_mem_setIfInBounds hs with hs | rfl
          · exact hproper s hs
          · exact Step.proper_total hclash

/-- Steps gathered, in order, into one that is empty at first. -/
theorem evaluated_gather (h : Scalar.Lawful α) {shelf : Shelf α}
    {others : List Nat} (hproper : ∀ s ∈ shelf, s.Proper)
    (hin : ∀ n ∈ others, n < shelf.size) :
    Evaluated shelf (others.map shelf.step)
      ((gather others).perform shelf) := by
  have hput : (put (Step.empty : Step α)).perform shelf =
      (.ok shelf.size, shelf.push Step.empty) := rfl
  have hfree : ¬Step.Clash ([] : List (Step α)) := by
    rintro ⟨s, hs, -⟩
    exact List.not_mem_nil hs
  rw [gather, Attempt.perform_bind, hput,
    ← List.nil_append (others.map shelf.step)]
  refine evaluated_each h others hin hproper hfree
    (by simp [Step.total, Step.filled]) (fun n hn => ?_) fun s hs => ?_
  · exact (Array.getElem?_push_lt hn).trans (Array.getElem?_eq_getElem hn).symm
  · rcases Array.mem_push.mp hs with hs | rfl
    · exact hproper s hs
    · exact Step.proper_empty

end Shelf

/-! ## Every order and every grouping -/

namespace Combination

variable {α : Type} [Scalar α]

/-- Steps as the constructor makes them, on a shelf. -/
def made (built : List (List α × α)) : List (Step α) :=
  built.map fun parts => Step.of parts.1 parts.2

/-- With exact addition, steps come to the same in every order and every
grouping.  Every tree over every permutation of them, and every sequence added
in place to an empty step, is refused exactly if two of them clash, and comes to
their total otherwise; the steps stay as they are.  Nor does any other
combination change what it combines, and a step to which another cannot be added
in place stays. -/
theorem every_grouping_agrees (h : Scalar.Lawful α)
    (built : List (List α × α)) :
    (∀ tree : Combination, tree.numbers.Perm (List.range (made built).length) →
      Shelf.Evaluated (made built).toArray (made built)
        (tree.run.perform (made built).toArray)) ∧
    (∀ order : List Nat, order.Perm (List.range (made built).length) →
      Shelf.Evaluated (made built).toArray (made built)
        ((Shelf.gather order).perform (made built).toArray)) ∧
    (∀ (shelf : Shelf α) (left right n : Nat), n < shelf.size →
      ((Shelf.combine left right).perform shelf).2[n]? = shelf[n]?) ∧
    ∀ (shelf after : Shelf α) (own other : Nat) (cause : Failure),
      (Shelf.absorb own other).perform shelf = (.error cause, after) →
      after = shelf := by
  have hproper : ∀ s ∈ (made built).toArray, s.Proper := by
    intro s hs
    obtain ⟨parts, -, rfl⟩ := List.mem_map.mp (List.mem_toArray.mp hs)
    exact Step.proper_of _ _
  -- In whatever order the numbers are taken, the steps under them are the ones
  -- made.
  have hsteps : ∀ numbers : List Nat,
      numbers.Perm (List.range (made built).length) →
      (numbers.map (Shelf.step (made built).toArray)).Perm (made built) := by
    intro numbers hperm
    have hall : (List.range (made built).length).map
        (Shelf.step (made built).toArray) = made built := by
      refine List.ext_getElem (by simp) fun i hi hi' => ?_
      rw [List.getElem_map, List.getElem_range]
      exact Shelf.step_eq (by simp [List.getElem?_eq_getElem hi'])
    exact (hperm.map _).trans (.of_eq hall)
  have hin : ∀ numbers : List Nat,
      numbers.Perm (List.range (made built).length) →
      ∀ n ∈ numbers, n < (made built).toArray.size := fun numbers hperm n hn =>
    List.mem_range.mp (hperm.subset hn)
  refine ⟨fun tree hperm => ?_, fun order hperm => ?_,
    fun shelf left right n hn => Shelf.combine_keeps shelf left right hn,
    fun shelf after own other cause hrun => ?_⟩
  · exact (evaluated_run h tree hproper (hin _ hperm)).perm h.toExact
      (hsteps _ hperm)
  · exact (Shelf.evaluated_gather h hproper (hin _ hperm)).perm h.toExact
      (hsteps _ hperm)
  · rw [Shelf.perform_absorb] at hrun
    split at hrun
    · cases hrun
    · exact (congrArg Prod.snd hrun).symm

/-- Three steps on whole numbers, the first without coordinates, combined from
the last one on. -/
theorem every_grouping_agrees_three :
    Shelf.Evaluated (made [([], 7), ([1, 2], 3), ([4, 5], 1)]).toArray
        (made [([], 7), ([1, 2], 3), ([4, 5], 1)])
        ((sum (sum (step 2) (step 0)) (step 1)).run.perform
          (made [(([] : List Int), 7), ([1, 2], 3), ([4, 5], 1)]).toArray) ∧
      Step.total (made [(([] : List Int), 7), ([1, 2], 3), ([4, 5], 1)]) =
        ⟨[5, 7], 4⟩ :=
  ⟨(every_grouping_agrees Descent.lawful_int _).1 _ (by decide), by decide⟩

end Combination

end RatingFactors
