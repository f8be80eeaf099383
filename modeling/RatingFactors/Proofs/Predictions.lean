import RatingFactors.Configuration.Settings
import RatingFactors.Proofs.Evaluation
import RatingFactors.Proofs.Files
import RatingFactors.Proofs.Ratings.Built

/-!
# Saved predictions

The predictions of a model are saved with the identifiers that the ratings had
in their files, one line for each rating that was kept.  The value on a line is
the prediction that learning makes for that rating, as long as the bounds of
predictions are numbers.

## Main results

* `predictionLines_graphOf` — the lines for the graph of a table.
* `saved_predictions` — what is saved for a dataset whose graph was built.
* `saved_predictions_fail` — a bound that is no number.
-/

namespace RatingFactors

open RatingFactors.Configuration (Value)
open Ratings Attempt

namespace Evaluation

variable {α : Type}

/-- The vertex with an identifier. -/
def VertexOf (g : Graph α) (vertices : Array (Vertex α)) (id : Int64)
    (v : Vertex α) : Prop :=
  ∃ place : Nat, g.ids[place]? = some id ∧ vertices[place]? = some v

/-- The vertex with an identifier that occurs stands at the place of that
identifier. -/
theorem exists_vertexOf {rows : List (Rating α)} {dimension : Int}
    {vertices : Array (Vertex α)}
    (hsize : vertices.size = (Graph.graphOf rows dimension).size) {id : Int64}
    (hid : id ∈ Graph.idsOf rows) :
    ∃ v ∈ vertices, VertexOf (Graph.graphOf rows dimension) vertices id v ∧
      vertices[Graph.placeIn (Graph.idsOf rows) id]? = some v := by
  have hlt : Graph.placeIn (Graph.idsOf rows) id < vertices.size :=
    hsize.symm ▸ Graph.placeIn_lt hid
  have hget := Array.getElem?_eq_getElem hlt
  exact ⟨_, Array.getElem_mem hlt, ⟨_, Graph.getElem?_placeIn hid, hget⟩, hget⟩

variable [Scalar α]

/-! ## One line for each row -/

/-- A line with the identifiers of a row and the prediction that learning makes
for it.  In the graph the column has the identifier that it was moved to. -/
def IsLineOf (g : Graph α) (vertices : Array (Vertex α)) (s : Settings α)
    (moved : Bool) (r : Rating α) (line : String) : Prop :=
  ∃ v w x, VertexOf g vertices r.source v ∧
    VertexOf g vertices (movedRow moved r).target w ∧
    s.predict v w = .ok x ∧
    line = predictionLine r.source.toInt r.target.toInt x

private theorem isIdentifier_toInt (id : Int64) :
    isIdentifier id.toInt = true :=
  Bool.and_eq_true_iff.mpr ⟨decide_eq_true (Int64.minValue_le_toInt id),
    decide_eq_true (Int64.toInt_le id)⟩

/-- The written table of the graph of a table whose columns are moved. -/
theorem predictionLines_eq {rows : List (Rating α)} {moved : Bool}
    {dimension : Int} {vertices : Array (Vertex α)} {s : Settings α}
    {f : Factors α}
    (htargets : ∀ r ∈ rows, 0 ≤ r.target.toInt ∧ r.target.toInt ≤ 2 ^ 63 - 2)
    (hf : Factors.ofVertices (Graph.graphOf (movedIf moved rows) dimension)
        vertices = .ok f) :
    predictionLines (Graph.graphOf (movedIf moved rows) dimension) vertices
        s moved =
      .ok (rows.map fun r => predictionLine r.source.toInt r.target.toInt
        (predictAt s f
          (Graph.placeIn (Graph.idsOf (movedIf moved rows)) r.source)
          (Graph.placeIn (Graph.idsOf (movedIf moved rows))
            (movedRow moved r).target))) := by
  have hedges : (Graph.graphOf (movedIf moved rows) dimension).edges.toList =
      rows.map fun r =>
        Graph.edgeOf (Graph.idsOf (movedIf moved rows)) (movedRow moved r) := by
    rw [Graph.graphOf]
    simp only [movedIf_eq_map, List.map_map]
    rfl
  have hsources : (rows.map fun r =>
      (Graph.graphOf (movedIf moved rows) dimension).idAt
        (Graph.placeIn (Graph.idsOf (movedIf moved rows))
          (movedRow moved r).source)) = rows.map fun r => r.source.toInt := by
    refine List.map_congr_left fun r hr => ?_
    exact Graph.idAt_placeIn
      (Graph.mem_idsOf.mpr ⟨_, movedRow_mem moved hr, .inl rfl⟩)
  have hback : (rows.map fun r =>
      if moved then
        unmovedId ((Graph.graphOf (movedIf moved rows) dimension).idAt
          (Graph.placeIn (Graph.idsOf (movedIf moved rows))
            (movedRow moved r).target))
      else (Graph.graphOf (movedIf moved rows) dimension).idAt
        (Graph.placeIn (Graph.idsOf (movedIf moved rows))
          (movedRow moved r).target)) = rows.map fun r => r.target.toInt := by
    refine List.map_congr_left fun r hr => ?_
    rw [Graph.idAt_placeIn
      (Graph.mem_idsOf.mpr ⟨_, movedRow_mem moved hr, .inr rfl⟩)]
    cases moved with
    | false => rfl
    | true => exact unmovedId_movedId (htargets r hr).1 (htargets r hr).2
  have hidentifiers :
      (rows.map fun r => r.target.toInt).all isIdentifier = true := by
    simp [isIdentifier_toInt]
  have hpredictions :
      predictions (Graph.graphOf (movedIf moved rows) dimension) vertices
          s none =
        .ok ((Graph.graphOf (movedIf moved rows) dimension).edges.toList.map
          fun e => predictAt s f e.source e.target) := by
    rw [Evaluation.predictions_eq hf (by rintro _ ⟨⟩), Evaluation.selected,
      Graph.map_edgeAt_range]
  rw [predictionLines, hpredictions, hedges]
  simp only [List.map_map, bind, Except.bind, Function.comp_def, Graph.edgeOf]
  rw [hback, hsources, hidentifiers, List.zip_map', List.zipWith_map,
    List.zipWith_self]
  rfl

/-- The predictions for the graph of a table are written with the identifiers
that its columns had before they were moved. -/
theorem predictionLines_graphOf {rows : List (Rating α)} {moved : Bool}
    {dimension : Int} {vertices : Array (Vertex α)} {width : Nat}
    {s : Settings α} (hne : rows ≠ [])
    (htargets : ∀ r ∈ rows, 0 ≤ r.target.toInt ∧ r.target.toInt ≤ 2 ^ 63 - 2)
    (hsize : vertices.size =
      (Graph.graphOf (movedIf moved rows) dimension).size)
    (hlength : ∀ v ∈ vertices, v.latent.length = width)
    (hlowest : Scalar.isNaN s.lowest = false)
    (hhighest : Scalar.isNaN s.highest = false) :
    ∃ lines,
      predictionLines (Graph.graphOf (movedIf moved rows) dimension) vertices
        s moved = .ok lines ∧
      List.Forall₂ (IsLineOf (Graph.graphOf (movedIf moved rows) dimension)
        vertices s moved) rows lines := by
  have hsome : vertices ≠ #[] := by
    obtain ⟨r, rest, rfl⟩ := List.exists_cons_of_ne_nil hne
    obtain ⟨v, hv, -⟩ := exists_vertexOf hsize
      (Graph.mem_idsOf.mpr
        ⟨_, movedRow_mem moved (List.mem_cons_self ..), .inl rfl⟩)
    exact Array.ne_empty_of_mem hv
  obtain ⟨f, hf, hcolumns⟩ :=
    exists_factors (Graph.graphOf (movedIf moved rows) dimension)
      (fun hnone => absurd hnone hsome) hlength
  refine ⟨_, predictionLines_eq htargets hf, ?_⟩
  rw [List.forall₂_map_right_iff, List.forall₂_same]
  intro r hr
  obtain ⟨v, hv, hvertex, hplace⟩ := exists_vertexOf hsize
    (Graph.mem_idsOf.mpr ⟨_, movedRow_mem moved hr, .inl rfl⟩)
  obtain ⟨w, hw, hvertex', hplace'⟩ := exists_vertexOf hsize
    (Graph.mem_idsOf.mpr ⟨_, movedRow_mem moved hr, .inr rfl⟩)
  exact ⟨v, w, _, hvertex, hvertex',
    predictAt_eq hcolumns hlowest hhighest hplace hplace'
      ((hlength v hv).trans (hlength w hw).symm), rfl⟩

private theorem parts_predictionPath (start : String) :
    Path.parts (predictionPath start) ≠ [] := by
  rw [predictionPath, Path.parts_tidy]
  refine Path.parts_ne_nil (c := 'p') ?_ (by decide) (by decide)
  rw [String.toList_append, List.mem_append]
  exact .inr (by decide)

/-- Saved predictions are read back as they were written. -/
theorem savePredictions_ok {κ : Type} {g : Graph α}
    {vertices : Array (Vertex α)} {s : Settings α} {moved : Bool}
    {lines : List String} (start : String) (files : Files κ)
    (h : predictionLines g vertices s moved = .ok lines) :
    ∃ saved said,
      savePredictions g vertices s start moved files = .ok (saved, said) ∧
      saved.readText (predictionPath start) = .ok (String.join lines) := by
  rw [savePredictions, h]
  exact ⟨_, _, rfl, Files.readText_writeText (parts_predictionPath start) _⟩

end Evaluation

/-! ## What is saved for a dataset -/

theorem TrainingOptions.moved_of_configuration {s : Settings Float}
    {c : Configuration} {o : TrainingOptions}
    (h : ofConfiguration s c = .ok o) :
    o.moved = (c.get "remap_target" (.flag false)).isTrue := by
  rw [ofConfiguration] at h
  split at h
  · cases h
  · obtain ⟨seed, -, h⟩ := bind_ok.mp h
    obtain ⟨mode, -, h⟩ := bind_ok.mp h
    obtain ⟨limit, -, h⟩ := bind_ok.mp h
    obtain ⟨folder, -, h⟩ := bind_ok.mp h
    cases h
    rfl

namespace Dataset

open Evaluation

/-- For a dataset whose graph was built and a trainer with the same
configuration, the saved predictions are one line for each row that the dataset
keeps, in the order of the rows: with the identifiers that the row has in the
input files, and with the prediction that learning makes for it.  A ratings file
always has its columns moved. -/
theorem saved_predictions {κ ι : Type} {input : Files κ} {path : String}
    {c : Configuration} {g : Graph Float}
    {vertices start : Array (Vertex Float)} {d : Dataset} {s : Settings Float}
    {o : TrainingOptions} {width : Nat}
    (hbuild : (buildGraph input).perform (make path c) = (.ok (g, start), d))
    (hoptions : TrainingOptions.ofConfiguration s d.configuration = .ok o)
    (htargets : ∀ rows, original input (make path c) = .ok rows →
      ∀ r ∈ rows, 0 ≤ r.target.toInt ∧ r.target.toInt ≤ 2 ^ 63 - 2)
    (hsize : vertices.size = g.size)
    (hlength : ∀ v ∈ vertices, v.latent.length = width)
    (hlowest : s.lowest.isNaN = false) (hhighest : s.highest.isNaN = false)
    (beginning : String) (files : Files ι) :
    ∃ rows lines saved said, original input (make path c) = .ok rows ∧
      d.rows = some (movedIf o.moved rows) ∧
      (namesRatingsFile (c.get "loader" (.text "edgelist")) = true →
        o.moved = true) ∧
      savePredictions g vertices s beginning o.moved files = .ok (saved, said) ∧
      saved.readText (predictionPath beginning) = .ok (String.join lines) ∧
      List.Forall₂ (IsLineOf g vertices s o.moved) rows lines := by
  obtain ⟨rows, dimension, horiginal, hne, rfl, printed, rfl⟩ :=
    exists_of_buildGraph rfl hbuild
  have hmoved : o.moved = (make path c).asked.moved :=
    (TrainingOptions.moved_of_configuration hoptions).trans (asked_moved path c)
  have halways : namesRatingsFile (c.get "loader" (.text "edgelist")) = true →
      (make path c).asked.moved = true := by
    intro hkind
    rw [asked,
      if_pos (show namesRatingsFile (make path c).kind = true from hkind)]
    rfl
  rw [hmoved]
  obtain ⟨lines, hlines, hrows⟩ :=
    predictionLines_graphOf hne (htargets rows horiginal) hsize hlength
      hlowest hhighest
  obtain ⟨saved, said, hsaved, htext⟩ :=
    savePredictions_ok beginning files hlines
  exact ⟨rows, lines, saved, said, horiginal, rfl, halways, hsaved, htext,
    hrows⟩

/-! ## An edge file -/

/-- A tree of files with one edge file. -/
def sampleEdges : Files Unit :=
  Files.none.writeText "ratings.train" "1\t2\t3.0\n2\t2\t4.0\n"

/-- The rows of the edge file. -/
def sampleRows : List (Rating Float) :=
  [⟨1, 2, 3.0, .train⟩, ⟨2, 2, 4.0, .train⟩]

/-- A configuration that moves columns, with a given least prediction. -/
def sampleConfiguration (lowest : Float) : Configuration :=
  ⟨[("latent_dim", .whole 1), ("debug", .flag true),
    ("remap_target", .flag true), ("max_updates", .whole 0),
    ("min_val", .real lowest), ("max_val", .real 5.0)]⟩

private theorem sampleEdges_load (moved strict : Bool) :
    (loadEdges sampleEdges moved strict (Path.tidy "ratings.train")).Gives
      ⟨movedIf moved sampleRows, 0⟩ := by
  have hrows : ∀ r ∈ sampleRows, Writable r := by
    intro r hr
    simp only [sampleRows, List.mem_cons, List.not_mem_nil, or_false] at hr
    rcases hr with rfl | rfl <;>
      exact ⟨by decide, by decide, by decide +kernel, rfl⟩
  have hpaths : edgePaths sampleEdges (Path.tidy "ratings.train") =
      .ok ["ratings.train"] := by
    decide +kernel
  have hat : rowsAt sampleRows ["ratings.train"] = sampleRows := by
    rw [rowsAt, List.flatMap_singleton,
      show roleOf "ratings.train" = .train by decide +kernel]
    rfl
  have htext : ∀ p ∈ ["ratings.train"],
      sampleEdges.readText p = .ok (roleText sampleRows (roleOf p)) := by
    intro p hp
    rw [List.mem_singleton.mp hp]
    decide +kernel
  rw [← hat]
  exact loadEdges_gives hrows hpaths htext moved strict

private theorem sampleEdges_builds (lowest : Float) :
    original sampleEdges (make "ratings.train" (sampleConfiguration lowest)) =
      .ok sampleRows ∧
      ∃ start d, (buildGraph sampleEdges).perform
          (make "ratings.train" (sampleConfiguration lowest)) =
            (.ok (Graph.graphOf (movedIf true sampleRows) 1, start), d) ∧
        d.configuration = sampleConfiguration lowest ∧
        start.size = (Graph.graphOf (movedIf true sampleRows) 1).size ∧
        ∀ v ∈ start, v = Graph.plainVertex 1 := by
  have hkept : lasts sampleRows = sampleRows :=
    lasts_eq_self (by unfold NoRepeats; decide)
  have hsource := @source_edgeFiles_leads
    (make "ratings.train" (sampleConfiguration lowest)) "edgelist" rfl
    (.inl rfl)
  have hsides :=
    @source_ne_target_of_moved Float sampleRows (by decide) (by decide)
  obtain ⟨start, hstart, hsize, hplain⟩ := @Graph.exists_starting_debug Float
    (Graph.graphOf (movedIf true sampleRows) 1) (by decide) none
    (Twister.ofWord 5489) rfl
  have hload := fun moved => sampleEdges_load moved
    ((make "ratings.train" (sampleConfiguration lowest)).configuration.get
      "strict" (.flag false)).isTrue
  rw [← Path.tidy_tidy] at hload
  have hsame := original_eq hsource (hload false)
  refine ⟨?_, start, ?_⟩
  · rw [hsame, movedIf]
    exact congrArg Except.ok hkept
  · have hasks : (sampleConfiguration lowest).Asks 1 true none :=
      ⟨rfl, rfl, rfl⟩
    have hmoved : lasts (movedIf true sampleRows) =
        movedIf true sampleRows := by
      rw [lasts_movedIf, hkept]
    rw [← hmoved] at hstart hsize ⊢
    obtain ⟨d, hd, printed, rfl⟩ :=
      buildGraph_leads rfl hsource (hload true) (by decide) hasks
        hsides (by decide) hstart _ (apart_self _)
    exact ⟨_, hd, rfl, hsize, hplain⟩

/-- The settings of the configuration. -/
def sampleBounds (lowest : Float) : Settings Float where
  dimension := 1
  regularization := 0.001
  rate := 0.001
  rateDecay := 0.9
  lowest := lowest
  highest := 5.0
  budget := some 0
  globalMean := 0.0
  interval := 0.0
  reportEvery := 2
  debug := true

/-- The options of the configuration. -/
def sampleOptions : TrainingOptions :=
  { moved := true }

theorem saved_predictions_sample :
    ∃ g start d rows lines saved said,
      (buildGraph sampleEdges).perform
        (make "ratings.train" (sampleConfiguration 0.0)) = (.ok (g, start), d) ∧
      Settings.ofConfiguration d.configuration = .ok (sampleBounds 0.0) ∧
      TrainingOptions.ofConfiguration (sampleBounds 0.0) d.configuration =
        .ok sampleOptions ∧
      original sampleEdges (make "ratings.train" (sampleConfiguration 0.0)) =
        .ok rows ∧
      d.rows = some (movedIf sampleOptions.moved rows) ∧
      savePredictions g start (sampleBounds 0.0) "run" sampleOptions.moved
        sampleEdges = .ok (saved, said) ∧
      saved.readText (predictionPath "run") = .ok (String.join lines) ∧
      List.Forall₂ (IsLineOf g start (sampleBounds 0.0) sampleOptions.moved)
        rows lines := by
  obtain ⟨horiginal, start, d, hbuild, hconfiguration, hsize, hplain⟩ :=
    sampleEdges_builds 0.0
  have hsettings : Settings.ofConfiguration d.configuration =
      .ok (sampleBounds 0.0) := by
    rw [hconfiguration]
    rfl
  have hoptions : TrainingOptions.ofConfiguration (sampleBounds 0.0)
      d.configuration = .ok sampleOptions := by
    rw [hconfiguration]
    rfl
  have htargets : ∀ rows,
      original sampleEdges (make "ratings.train" (sampleConfiguration 0.0)) =
        .ok rows →
      ∀ r ∈ rows, 0 ≤ r.target.toInt ∧ r.target.toInt ≤ 2 ^ 63 - 2 := by
    intro rows hrows
    rw [← Except.ok.inj (horiginal.symm.trans hrows)]
    decide
  obtain ⟨rows, lines, saved, said, hrows, hkept, -, hsaved, htext, hlines⟩ :=
    saved_predictions hbuild hoptions htargets hsize
      (fun v hv => by rw [hplain v hv]) (by decide +kernel) (by decide +kernel)
      "run" sampleEdges
  exact ⟨_, start, d, rows, lines, saved, said, hbuild, hsettings, hoptions,
    hrows, hkept, hsaved, htext, hlines⟩

/-- What is no number. -/
def noNumber : Float := 0.0 / 0.0

/-- With a least prediction that is no number the saved predictions are empty,
although learning has a prediction for each row. -/
theorem saved_predictions_fail :
    ∃ g start d saved said,
      (buildGraph sampleEdges).perform
        (make "ratings.train" (sampleConfiguration noNumber)) =
        (.ok (g, start), d) ∧
      Settings.ofConfiguration d.configuration = .ok (sampleBounds noNumber) ∧
      TrainingOptions.ofConfiguration (sampleBounds noNumber) d.configuration =
        .ok sampleOptions ∧
      savePredictions g start (sampleBounds noNumber) "run" sampleOptions.moved
        sampleEdges = .ok (saved, said) ∧
      saved.readText (predictionPath "run") = .ok "1\t2\t\n2\t2\t\n" ∧
      ∃ v w, VertexOf g start 1 v ∧ VertexOf g start (movedId 2) w ∧
        (sampleBounds noNumber).predict v w = .ok 1.0 ∧
        predictionLine 1 2 (1.0 : Float) = "1\t2\t1.0\n" := by
  obtain ⟨-, start, d, hbuild, hconfiguration, hsize, hplain⟩ :=
    sampleEdges_builds noNumber
  obtain ⟨v, hv, hvertex, -⟩ := exists_vertexOf hsize
    (Graph.mem_idsOf.mpr
      ⟨_, movedRow_mem true (List.mem_cons_self ..), .inl rfl⟩)
  obtain ⟨w, hw, hvertex', -⟩ := exists_vertexOf hsize
    (Graph.mem_idsOf.mpr
      ⟨_, movedRow_mem true (List.mem_cons_self ..), .inr rfl⟩)
  obtain ⟨f, hf, -⟩ :=
    exists_factors (Graph.graphOf (movedIf true sampleRows) 1)
      (fun hnone => absurd hnone (Array.ne_empty_of_mem hv))
      fun v hv => congrArg (·.latent.length) (hplain v hv)
  have hlines := @predictionLines_eq Float _ sampleRows true 1 start
    (sampleBounds noNumber) f (by decide) hf
  simp only [predictAt_of_isNaN (s := sampleBounds noNumber)
    (by decide +kernel)] at hlines
  obtain ⟨saved, said, hsaved, htext⟩ :=
    savePredictions_ok "run" sampleEdges hlines
  refine ⟨_, start, d, saved, said, hbuild, ?_, ?_, hsaved, ?_, v, w, hvertex,
    hvertex', ?_, ?_⟩
  · rw [hconfiguration]
    rfl
  · rw [hconfiguration]
    rfl
  · rw [htext]
    exact congrArg Except.ok (by decide +kernel)
  · rw [hplain v hv, hplain w hw]
    exact congrArg Except.ok (by decide +kernel)
  · decide +kernel

end Dataset

end RatingFactors
