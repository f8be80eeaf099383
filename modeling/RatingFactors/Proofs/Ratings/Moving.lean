import RatingFactors.Evaluation
import RatingFactors.Proofs.Ratings.Kept
import RatingFactors.Ratings.Source

/-!
# Moving columns while loading

Moving columns is the last thing that loading a table does: a source that moves
them gives the table of the same source without moving, moved.  Moving is undone
by `unmovedId`, unless an identifier is too large to be moved.

## Main results

* `Source.load_unmoved` — what a source loads, and what it would load unmoved.
* `Source.option_of_make` — a source moves columns if it was made to.
* `unmovedId_movedId` — moved identifiers are moved back.
-/

namespace RatingFactors.Ratings

open RatingFactors.Configuration (Value)

/-! ## There and back -/

theorem unmovedId_movedId {t : Int64} (hlow : 0 ≤ t.toInt)
    (hhigh : t.toInt ≤ 2 ^ 63 - 2) :
    Evaluation.unmovedId (movedId t).toInt = t.toInt := by
  rw [Evaluation.unmovedId, toInt_movedId hlow hhigh]
  omega

/-- The table with moved columns, if asked to. -/
def movedIf {α : Type} (moved : Bool) (rows : List (Rating α)) :
    List (Rating α) :=
  if moved then moveColumns rows else rows

/-- A row with a moved column, if asked to. -/
def movedRow {α : Type} (moved : Bool) (r : Rating α) : Rating α :=
  { r with target := if moved then movedId r.target else r.target }

theorem movedIf_eq_map {α : Type} (moved : Bool) (rows : List (Rating α)) :
    movedIf moved rows = rows.map (movedRow moved) := by
  cases moved with
  | false => exact (List.map_id rows).symm
  | true => rfl

theorem movedRow_mem {α : Type} (moved : Bool) {rows : List (Rating α)}
    {r : Rating α} (h : r ∈ rows) : movedRow moved r ∈ movedIf moved rows := by
  rw [movedIf_eq_map]
  exact List.mem_map_of_mem h

theorem lasts_movedIf {α : Type} (moved : Bool) (rows : List (Rating α)) :
    lasts (movedIf moved rows) = movedIf moved (lasts rows) := by
  cases moved with
  | false => rfl
  | true => exact lasts_moveColumns rows

/-! ## Loading -/

variable {κ : Type} (files : Files κ)

private theorem loadEdges_moved (moved strict : Bool) (path : String) :
    loadEdges files moved strict path = do
      let table ← loadEdges files false strict path
      return ⟨movedIf moved table.rows, table.skipped⟩ := by
  simp only [loadEdges, bind_assoc]
  refine bind_congr fun paths => bind_congr fun found => ?_
  split
  · simp only [bind_assoc]
    rfl
  · simp only [bind_assoc]
    rfl

private theorem loadRatings_moved (moved : Bool) (shares : Shares)
    (seed : Option Int) (path : String) :
    loadRatings files moved shares seed path = do
      let rows ← loadRatings files false shares seed path
      return movedIf moved rows := by
  simp only [loadRatings, bind_assoc]
  refine bind_congr fun file => bind_congr fun text =>
    bind_congr fun table => ?_
  split
  · rfl
  · simp only [bind_assoc]
    refine bind_congr fun source => ?_
    obtain ⟨drawn, last⟩ :=
      (Twister.draws Twister.unit table.rows.length).run source
    simp only [bind_assoc]
    rfl

namespace Source

/-- The source with columns that are not moved. -/
def unmoved (s : Source) : Source :=
  ⟨s.kind, ("remap_target", .flag false) :: s.options⟩

private theorem option_unmoved (s : Source) {name : String}
    (h : name ≠ "remap_target") : s.unmoved.option name = s.option name := by
  rw [option, unmoved, List.find?_cons_of_neg (by simpa using h.symm), option]

/-- Moving columns is the last thing that loading a table does. -/
theorem load_unmoved (s : Source) (path : String) :
    s.load files path = do
      let table ← s.unmoved.load files path
      return ⟨movedIf (s.option "remap_target").isTrue table.rows,
        table.skipped⟩ := by
  have hunmoved : (s.unmoved.option "remap_target").isTrue = false := rfl
  obtain ⟨kind, options⟩ := s
  cases kind with
  | edgeFiles =>
      rw [load, load, hunmoved, option_unmoved _ (by decide)]
      exact loadEdges_moved ..
  | ratingsFile =>
      rw [load, load, hunmoved, shares, shares, seed, seed]
      simp only [
        option_unmoved _ (show "valid_ratio" ≠ "remap_target" by decide),
        option_unmoved _ (show "predict_ratio" ≠ "remap_target" by decide),
        option_unmoved _ (show "seed" ≠ "remap_target" by decide)]
      simp only [unmoved, bind_assoc,
        loadRatings_moved files (option _ "remap_target").isTrue]
      rfl

/-- A table that is loaded is a moved one, if columns are moved. -/
theorem exists_unmoved {s : Source} {path : String} {table : Loaded}
    {lines : List String}
    (h : (s.load files path).perform [] = (.ok table, lines)) :
    ∃ original, ((s.unmoved.load files path).perform []).1 = .ok original ∧
      table.rows = movedIf (s.option "remap_target").isTrue original.rows := by
  rw [load_unmoved] at h
  obtain ⟨original, reached, horiginal, hmoved⟩ := Attempt.perform_bind_ok.mp h
  rw [Attempt.perform_pure, Prod.mk.injEq, Except.ok.injEq] at hmoved
  exact ⟨original, by rw [horiginal], by rw [← hmoved.1]⟩

/-- A source moves columns if it was made to. -/
theorem option_of_make {name : String} {moved : Value}
    {given : List (String × Value)} {s : Source}
    (h : make name (("remap_target", moved) :: given) = .ok s) :
    s.option "remap_target" = moved := by
  rw [make] at h
  cases hkind : SourceKind.ofName name with
  | error cause => rw [hkind] at h; cases h
  | ok kind =>
    rw [hkind] at h
    simp only [bind, Except.bind] at h
    split at h
    · cases h
    · cases kind with
      | edgeFiles =>
          cases h
          rfl
      | ratingsFile =>
          rw [if_pos rfl] at h
          split at h
          · cases h
          · cases h
            rfl

end Source

end RatingFactors.Ratings
