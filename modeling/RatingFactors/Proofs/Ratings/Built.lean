import RatingFactors.Proofs.Ratings.Datasets
import RatingFactors.Proofs.Ratings.Moving

/-!
# What a built graph was built from

A dataset whose graph has been built holds the kept rows of its files, moved if
its configuration says so, and the graph is that of these rows.  The
configuration is the one that was given, except that a ratings file has left a
note in it that columns are moved.

## Main results

* `perform_source` — asking for the source changes a dataset in one way only.
* `exists_of_buildGraph` — a built graph, traced back to the files.
-/

namespace RatingFactors

open RatingFactors.Configuration (Value)
open Ratings Attempt

namespace Dataset

variable {κ : Type} {files : Files κ} {path : String} {c : Configuration}

/-! ## The source -/

/-- The dataset once it has been asked for its source. -/
def asked (d : Dataset) : Dataset :=
  if namesRatingsFile d.kind then d.noted else d

/-- Asking for the source changes a dataset in one way only, whatever has been
printed. -/
theorem perform_source (d : Dataset) (printed : List String) :
    source.perform { d with printed := printed } =
      ((source.perform d).1, { d.asked with printed := printed }) := by
  unfold source
  rw [perform_get_bind, perform_get_bind, asked]
  cases hkind : namesRatingsFile d.kind with
  | true =>
      simp only [if_true]
      rw [perform_modify_bind, perform_get_bind, perform_modify_bind,
        perform_get_bind]
      simp only [← lift_bind, perform_lift]
      rfl
  | false => simp only [Bool.false_eq_true, if_false, perform_lift]

private theorem option_of_sourceNamed {kind : Value} {moved : Value}
    {given : List (String × Value)} {s : Source}
    (h : sourceNamed kind (("remap_target", moved) :: given) = .ok s) :
    s.option "remap_target" = moved := by
  unfold sourceNamed at h
  split at h
  · cases h
  · cases h
  · exact Source.option_of_make h

/-- The source of a dataset moves columns if the dataset does. -/
theorem moved_of_source {d final : Dataset} {s : Source}
    (h : source.perform d = (.ok s, final)) :
    (s.option "remap_target").isTrue = d.asked.moved := by
  unfold source at h
  rw [perform_get_bind] at h
  rw [asked]
  cases hkind : namesRatingsFile d.kind with
  | true =>
      simp only [hkind, if_true] at h
      rw [perform_modify_bind, perform_get_bind] at h
      obtain ⟨validation, -, h⟩ := perform_lift_bind_ok.mp h
      obtain ⟨prediction, -, h⟩ := perform_lift_bind_ok.mp h
      obtain ⟨seed, -, h⟩ := perform_lift_bind_ok.mp h
      rw [perform_lift, Prod.mk.injEq] at h
      rw [option_of_sourceNamed h.1]
      rfl
  | false =>
      simp only [hkind, Bool.false_eq_true, if_false, perform_lift,
        Prod.mk.injEq] at h
      rw [option_of_sourceNamed h.1]
      rfl

private theorem source_ok {d state final : Dataset} {s : Source}
    (hstate : Apart d state) (h : source.perform state = (.ok s, final)) :
    (source.perform d).1 = .ok s ∧
      (s.option "remap_target").isTrue = d.asked.moved ∧
      Apart d.asked final := by
  obtain ⟨printed, rfl⟩ := hstate
  rw [perform_source, Prod.mk.injEq] at h
  exact ⟨h.1, moved_of_source (Prod.ext h.1 rfl), printed, h.2.symm⟩

private theorem print_ok {β : Type} {work : Telling β} {result : β}
    {d state final : Dataset} (hstate : Apart d state)
    (h : (print work).perform state = (.ok result, final)) :
    (∃ lines, work.perform [] = (.ok result, lines)) ∧ Apart d final := by
  obtain ⟨printed, rfl⟩ := hstate
  obtain ⟨lines, hwork, rfl⟩ := perform_within_ok.mp h
  exact ⟨⟨lines, hwork⟩, printed ++ lines, rfl⟩

/-- The rows of a dataset's files without repeated ones, with the identifiers
that they have there. -/
def original (files : Files κ) (d : Dataset) :
    Except Failure (List (Rating Float)) := do
  let s ← (source.perform d).1
  let table ← ((s.unmoved.load files d.path).perform []).1
  return lasts table.rows

theorem original_eq {d : Dataset} {s : Source} {table : Loaded}
    {after : Dataset → Prop} (hsource : Leads (Apart d) source s after)
    (hload : (s.unmoved.load files d.path).Gives table) :
    original files d = .ok (lasts table.rows) := by
  obtain ⟨reached, hs, -⟩ := hsource d (apart_self d)
  obtain ⟨lines, htable⟩ := hload []
  rw [original, hs]
  exact congrArg (fun run => run.1 >>= fun table => .ok (lasts table.rows))
    htable

/-! ## Loading -/

/-- A loaded dataset holds the rows of its files, moved if it moves columns. -/
theorem exists_of_load {d state final : Dataset} (hstate : Apart d state)
    (h : (load files).perform state = (.ok (), final)) :
    ∃ rows, original files d = .ok rows ∧ rows ≠ [] ∧
      Apart (d.asked.holding (movedIf d.asked.moved rows)) final := by
  unfold load at h
  rw [perform_get_bind] at h
  obtain ⟨_, d₁, hhead, h⟩ := perform_bind_ok.mp h
  obtain ⟨-, hd₁⟩ := print_ok hstate hhead
  obtain ⟨s, d₂, hsource, h⟩ := perform_bind_ok.mp h
  obtain ⟨hs, hmoved, hd₂⟩ := source_ok hd₁ hsource
  obtain ⟨table, d₃, hload, h⟩ := perform_bind_ok.mp h
  obtain ⟨⟨lines, hload⟩, hd₃⟩ := print_ok hd₂ hload
  obtain ⟨table', htable, hrows⟩ := Source.exists_unmoved files hload
  rw [hmoved] at hrows
  have horiginal : original files d = .ok (lasts table'.rows) := by
    obtain ⟨printed, rfl⟩ := hstate
    rw [original, hs]
    exact congrArg (· >>= fun table => .ok (lasts table.rows)) htable
  split at h
  · cases h
  · next hsome =>
    have hne : lasts table'.rows ≠ [] := by
      refine lasts_ne_nil fun hnil => hsome ?_
      rw [hrows, hnil]
      cases d.asked.moved <;> rfl
    obtain ⟨rows, d₄, hkept, h⟩ := perform_bind_ok.mp h
    obtain ⟨⟨_, hkept⟩, hd₄⟩ := print_ok hd₃ hkept
    rw [(withoutRepeats_gives table.rows).eq hkept, hrows, lasts_movedIf] at h
    obtain ⟨_, d₅, hkeep, h⟩ := perform_bind_ok.mp h
    obtain ⟨printed, rfl⟩ := hd₄
    obtain ⟨-, rfl⟩ := Prod.mk.inj hkeep
    exact ⟨_, horiginal, hne, (print_ok ⟨printed, rfl⟩ h).2⟩

/-! ## Building -/

/-- A built graph is that of the rows of the dataset's files, moved if the
dataset moves columns. -/
theorem exists_of_buildGraph {d final : Dataset} {g : Graph Float}
    {start : Array (Vertex Float)} (hnone : d.rows = none)
    (h : (buildGraph files).perform d = (.ok (g, start), final)) :
    ∃ rows dimension, original files d = .ok rows ∧ rows ≠ [] ∧
      g = Graph.graphOf (movedIf d.asked.moved rows) dimension ∧
      Apart (d.asked.holding (movedIf d.asked.moved rows)) final := by
  unfold buildGraph at h
  rw [perform_get_bind, hnone] at h
  obtain ⟨_, d₁, hload, h⟩ := perform_bind_ok.mp h
  obtain ⟨rows, horiginal, hne, hd₁⟩ := exists_of_load (apart_self d) hload
  rw [perform_get_bind] at h
  obtain ⟨dimension, -, h⟩ := perform_lift_bind_ok.mp h
  obtain ⟨seed, -, h⟩ := perform_lift_bind_ok.mp h
  obtain ⟨⟨lines, hgraph⟩, hfinal⟩ := print_ok hd₁ h
  obtain ⟨printed, rfl⟩ := hd₁
  exact ⟨rows, dimension, horiginal, hne, (Graph.ofRatings_ok hgraph).1, hfinal⟩

/-- The configuration of a dataset that has been asked for its source says
whether columns are moved. -/
theorem asked_moved (path : String) (c : Configuration) :
    ((make path c).asked.configuration.get "remap_target"
      (.flag false)).isTrue = (make path c).asked.moved := by
  rw [asked]
  split
  · rw [noted, Configuration.get, Configuration.get?_put_self]
    rfl
  · rfl

end Dataset

end RatingFactors
