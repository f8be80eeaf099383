import Mathlib.Data.List.Forall2
import Mathlib.Data.List.GetD
import RatingFactors.Evaluation
import RatingFactors.Proofs.Graph.Rows
import RatingFactors.Proofs.Monitor

/-!
# Evaluation agrees with learning

Evaluation reads the model column by column and predicts for many edges at once;
the monitor goes over the edges one by one and adds up as it goes.  As long as
the bounds of predictions are numbers, both predict the same for every edge, for
every selection of edges.  With exact arithmetic the errors that a report gives
are then those of the metrics: roots of means of squared residuals over exactly
the edges of a role, whatever the order of the edges.

A bound that is no number makes the two differ.  Learning leaves such a bound
out, while evaluation has no number for any edge.

## Main definitions

* `Evaluation.selected` — the numbers of the edges that a mask selects.
* `Evaluation.errorsOf` — the errors of the edges of a role.
* `Evaluation.Agree` — a report and metrics that say the same.
* `Graph.Reordered` — a graph with the same edges in another order.

## Main results

* `predictAt_eq` — the batched prediction of an edge is the one of learning.
* `predictions_ok` — predictions for a mask are those of the selected edges.
* `metrics_eq` — the metrics, as errors of the edges of either role.
* `evaluation_agrees` — evaluation against learning and against a report.
-/

namespace RatingFactors

namespace Graph

variable {α : Type}

/-- The second graph has the vertices of the first, and its edges in some
order. -/
structure Reordered (g g' : Graph α) : Prop where
  ids : g'.ids = g.ids
  dimension : g'.dimension = g.dimension
  edges : g'.edges.toList.Perm g.edges.toList

/-- The rows of a table may be given in any order. -/
theorem reordered_graphOf {rows others : List (Rating α)} (h : others.Perm rows)
    (dimension : Int) :
    (graphOf rows dimension).Reordered (graphOf others dimension) := by
  have hids : idsOf others = idsOf rows := idsOf_congr fun _ => h.mem_iff
  refine ⟨hids, rfl, ?_⟩
  rw [graphOf, graphOf, hids]
  exact h.map _

end Graph

namespace Evaluation

variable {α : Type}

/-! ## Columns -/

/-- What is learned, in columns, for vertices whose vectors agree in length. -/
structure ColumnsOf (f : Factors α) (vertices : Array (Vertex α)) : Prop where
  latent : f.latent = vertices.toList.map (·.latent)
  bias : f.bias = vertices.toList.map (·.bias)

/-- Vertices whose vectors agree in length have columns.  Without vertices the
graph must give a width. -/
theorem exists_factors (g : Graph α) {vertices : Array (Vertex α)} {width : Nat}
    (hnone : vertices = #[] → 0 ≤ g.dimension)
    (hlength : ∀ v ∈ vertices, v.latent.length = width) :
    ∃ f, Factors.ofVertices g vertices = .ok f ∧ ColumnsOf f vertices := by
  cases hvertices : vertices.toList with
  | nil =>
      have hdimension := hnone (Array.toList_eq_nil_iff.mp hvertices)
      rw [Factors.ofVertices, hvertices]
      dsimp only
      rw [if_neg (by omega)]
      exact ⟨_, rfl, by rw [hvertices], by rw [hvertices]⟩
  | cons first others =>
      have hsame : ∀ v ∈ first :: others, v.latent.length = width := by
        intro v hv
        exact hlength v (Array.mem_toList_iff.mp (hvertices ▸ hv))
      have hall : (first :: others).all
          (fun v => v.latent.length == first.latent.length) = true := by
        rw [List.all_eq_true]
        intro v hv
        rw [hsame v hv, hsame first (by simp), beq_self_eq_true]
      rw [Factors.ofVertices, hvertices]
      simp only [hall, if_true]
      exact ⟨_, rfl, by rw [hvertices], by rw [hvertices]⟩

/-- Whatever columns there are, are those of the vertices. -/
theorem columnsOf_ok {g : Graph α} {vertices : Array (Vertex α)}
    {f : Factors α} (h : Factors.ofVertices g vertices = .ok f) :
    ColumnsOf f vertices := by
  have hwide : ∀ width, Except.ok (ε := Failure)
      (⟨g.ids.toList.map Int64.toInt, vertices.toList.map (·.latent),
        vertices.toList.map (·.bias), vertices.toList.map (·.updates),
        width⟩ : Factors α) = .ok f → ColumnsOf f vertices := by
    intro width hf
    obtain rfl := Except.ok.inj hf
    exact ⟨rfl, rfl⟩
  rw [Factors.ofVertices] at h
  cases hvertices : vertices.toList with
  | nil =>
      rw [hvertices] at h hwide
      dsimp only at h
      split at h
      · cases h
      · exact hwide _ h
  | cons first others =>
      rw [hvertices] at h hwide
      dsimp only at h
      split at h
      · exact hwide _ h
      · cases h

private theorem ofVertices_congr {g g' : Graph α} (hids : g'.ids = g.ids)
    (hdimension : g'.dimension = g.dimension) (vertices : Array (Vertex α)) :
    Factors.ofVertices g' vertices = Factors.ofVertices g vertices := by
  rw [Factors.ofVertices, Factors.ofVertices, hids, hdimension]

variable [Scalar α]

namespace ColumnsOf

variable {f : Factors α} {vertices : Array (Vertex α)}

omit [Scalar α] in
/-- A field of all vertices, read at a place. -/
private theorem getD_map_toList {β : Type} (field : Vertex α → β)
    (vertices : Array (Vertex α)) (place : Nat) (v : Vertex α) :
    (vertices.toList.map field).getD place (field v) =
      field (vertices.getD place v) := by
  rw [List.getD_map, List.getD_eq_getElem?_getD, Array.getElem?_toList,
    Array.getD_eq_getD_getElem?]

private theorem latent_getD (h : ColumnsOf f vertices) (place : Nat) :
    f.latent.getD place [] =
      (vertices.getD place ⟨[], Scalar.zero, 0⟩).latent := by
  rw [h.latent]
  exact getD_map_toList (·.latent) vertices place ⟨[], Scalar.zero, 0⟩

private theorem bias_getD (h : ColumnsOf f vertices) (place : Nat) :
    f.bias.getD place Scalar.zero =
      (vertices.getD place ⟨[], Scalar.zero, 0⟩).bias := by
  rw [h.bias]
  exact getD_map_toList (·.bias) vertices place ⟨[], Scalar.zero, 0⟩

end ColumnsOf

/-! ## One prediction -/

/-- The prediction for an edge, from the vertices at its ends. -/
def predictedFor (s : Settings α) (look : Nat → Vertex α) (e : Edge α) : α :=
  s.clamp (s.globalMean + (look e.source).bias + (look e.target).bias +
    Scalar.dot (look e.source).latent (look e.target).latent)

section Bounds

variable {s : Settings α} {f : Factors α} {vertices : Array (Vertex α)}
  (hcolumns : ColumnsOf f vertices)
  (hlowest : Scalar.isNaN s.lowest = false)
  (hhighest : Scalar.isNaN s.highest = false)

include hcolumns hlowest hhighest

private theorem predictAt_eq_predictedFor (e : Edge α) :
    predictAt s f e.source e.target =
      predictedFor s (fun place => vertices.getD place ⟨[], Scalar.zero, 0⟩)
        e := by
  rw [predictAt]
  simp only [hcolumns.latent_getD, hcolumns.bias_getD, bounded, hlowest,
    hhighest]
  rfl

/-- The batched prediction of an edge is the one that learning makes, if the
bounds of predictions are numbers. -/
theorem predictAt_eq {source target : Nat} {v w : Vertex α}
    (hsource : vertices[source]? = some v)
    (htarget : vertices[target]? = some w)
    (hlength : v.latent.length = w.latent.length) :
    s.predict v w = .ok (predictAt s f source target) := by
  have hbatched := predictAt_eq_predictedFor hcolumns hlowest hhighest
    ⟨source, target, Scalar.zero, .predict⟩
  rw [Settings.predict, if_pos hlength, hbatched, predictedFor]
  simp [Array.getD_eq_getD_getElem?, hsource, htarget]

end Bounds

/-- With a bound that is no number all batched predictions are alike, whatever
has been learned. -/
theorem predictAt_of_isNaN {s : Settings α} (h : Scalar.isNaN s.lowest = true)
    (f : Factors α) (source target : Nat) :
    predictAt s f source target = s.lowest + s.highest := by
  rw [predictAt, bounded, h]
  rfl

/-! ## Selected edges -/

/-- The numbers of the edges that a mask selects; without one, of all edges. -/
def selected (g : Graph α) : Option (List Bool) → List Nat
  | none => List.range g.edgeCount
  | some mask => (List.range g.edgeCount).filter fun n => mask.getD n false

/-- Entries beside a mask, read by their numbers. -/
private theorem map_filter_zip {β : Type} (default : β) {xs : List β}
    {mask : List Bool} (h : mask.length = xs.length) :
    ((xs.zip mask).filter (·.2)).map (·.1) =
      ((List.range xs.length).filter fun n => mask.getD n false).map
        (xs.getD · default) := by
  induction xs generalizing mask with
  | nil => rfl
  | cons x rest ih =>
      cases mask with
      | nil => cases h
      | cons b others =>
          have hrest := ih (Nat.succ.inj h)
          rw [List.length_cons, List.range_succ_eq_map, List.zip_cons_cons]
          cases b <;> simp [List.filter_map, Function.comp_def, hrest]

theorem predictions_eq {g : Graph α} {vertices : Array (Vertex α)}
    {s : Settings α} {f : Factors α} {mask : Option (List Bool)}
    (hf : Factors.ofVertices g vertices = .ok f)
    (hmask : ∀ m ∈ mask, m.length = g.edgeCount) :
    predictions g vertices s mask = .ok (((selected g mask).map
      g.edgeAt).map fun e => predictAt s f e.source e.target) := by
  rw [predictions, hf]
  cases mask with
  | none =>
      rw [selected, Graph.map_edgeAt_range]
      rfl
  | some mask =>
      have hlength := hmask mask rfl
      have hedges : ((g.edges.toList.zip mask).filter (·.2)).map (·.1) =
          (selected g (some mask)).map g.edgeAt := by
        rw [map_filter_zip ⟨0, 0, Scalar.zero, .predict⟩
          (by rw [hlength]; rfl)]
        refine List.map_congr_left fun n _ => ?_
        rw [Graph.edgeAt, List.getD_eq_getElem?_getD, Array.getElem?_toList,
          Array.getD_eq_getD_getElem?]
      rw [← hedges]
      dsimp only [bind, Except.bind]
      rw [if_pos hlength]
      rfl

/-- A number is the prediction that learning makes for an edge. -/
def Predicts (scene : Scene α) (number : Nat) (x : α) : Prop :=
  ∃ v w, scene.vertices[(scene.graph.edgeAt number).source]? = some v ∧
    scene.vertices[(scene.graph.edgeAt number).target]? = some w ∧
    scene.settings.predict v w = .ok x

omit [Scalar α] in
private theorem lt_of_mem_selected {g : Graph α} {mask : Option (List Bool)}
    {n : Nat} (h : n ∈ selected g mask) : n < g.edgeCount := by
  cases mask with
  | none => exact List.mem_range.mp h
  | some mask => exact List.mem_range.mp (List.mem_filter.mp h).1

/-- The predictions for a mask are those that learning makes for the selected
edges, in order. -/
theorem predictions_ok {scene : Scene α} {width : Nat}
    (hg : scene.graph.Faithful) (hsize : scene.vertices.size = scene.graph.size)
    (hlength : ∀ v ∈ scene.vertices, v.latent.length = width)
    (hnone : scene.vertices = #[] → 0 ≤ scene.graph.dimension)
    (hlowest : Scalar.isNaN scene.settings.lowest = false)
    (hhighest : Scalar.isNaN scene.settings.highest = false)
    {mask : Option (List Bool)}
    (hmask : ∀ m ∈ mask, m.length = scene.graph.edgeCount) :
    ∃ xs, predictions scene.graph scene.vertices scene.settings mask = .ok xs ∧
      List.Forall₂ (Predicts scene) (selected scene.graph mask) xs := by
  obtain ⟨f, hf, hcolumns⟩ := exists_factors scene.graph hnone hlength
  refine ⟨_, predictions_eq hf hmask, ?_⟩
  rw [List.map_map, List.forall₂_map_right_iff, List.forall₂_same]
  intro n hn
  have hlt := lt_of_mem_selected hn
  have hsource := Array.getElem?_eq_getElem
    (hsize.symm ▸ hg.source_lt n hlt : _ < scene.vertices.size)
  have htarget := Array.getElem?_eq_getElem
    (hsize.symm ▸ hg.target_lt n hlt : _ < scene.vertices.size)
  exact ⟨_, _, hsource, htarget, predictAt_eq hcolumns hlowest hhighest hsource
    htarget ((hlength _ (Array.getElem_mem _)).trans
      (hlength _ (Array.getElem_mem _)).symm)⟩

/-! ## The errors of a role -/

/-- The edges that the mask of a role selects are the edges of that role. -/
theorem map_edgeAt_selected (g : Graph α) (role : Role) :
    (selected g (some (g.roleMask role))).map g.edgeAt =
      g.edges.toList.filter fun e => e.role = role := by
  rw [← Graph.map_edgeAt_range, List.filter_map, selected]
  congr 1
  refine List.filter_congr fun n hn => ?_
  have hlt : n < g.edges.size := List.mem_range.mp hn
  simp only [Graph.roleMask, List.getD_eq_getElem?_getD, List.getElem?_map,
    Array.getElem?_toList, Graph.edgeAt, Function.comp_apply,
    Array.getD_eq_getD_getElem?, Array.getElem?_eq_getElem hlt,
    Option.map_some, Option.getD_some]
  rfl

omit [Scalar α] in
theorem count_roleMask (g : Graph α) (role : Role) :
    (g.roleMask role).count true =
      (g.edges.toList.filter fun e => e.role = role).length := by
  rw [Graph.roleMask, List.count, List.countP_map, List.countP_eq_length_filter]
  congr 1
  refine List.filter_congr fun e _ => ?_
  rw [Function.comp_apply, beq_true]
  rfl

/-- The errors of the edges of a role, if there are any. -/
def errorsOf (s : Settings α) (look : Nat → Vertex α) (role : Role)
    (edges : List (Edge α)) : Option (RoleErrors α) :=
  let rated := edges.filter fun e => e.role = role
  if rated.length = 0 then none
  else some {
    rootMeanSquare := Scalar.rootMeanOf (squaresOf s look role edges)
    meanAbsolute := Scalar.sum (rated.map fun e =>
      magnitude (predictedFor s look e - e.value)) / Scalar.ofInt rated.length }

/-- The errors of a role do not depend on the order of the edges. -/
theorem errorsOf_perm (haverage : Scalar.Averaging α) (s : Settings α)
    (look : Nat → Vertex α) (role : Role) {edges others : List (Edge α)}
    (h : edges.Perm others) :
    errorsOf s look role edges = errorsOf s look role others := by
  have hrated := h.filter fun e => e.role = role
  rw [errorsOf, errorsOf, hrated.length_eq,
    haverage.rootMeanOf_perm (squaresOf_perm s look role h),
    haverage.toExact.sum_perm (hrated.map _)]

/-- The metrics of some edges: the errors of those of either role. -/
def metricsOf (s : Settings α) (look : Nat → Vertex α)
    (edges : List (Edge α)) : Metrics α where
  trainCount := (edges.filter fun e => e.role = .train).length
  train := errorsOf s look .train edges
  validationCount := (edges.filter fun e => e.role = .validate).length
  validation := errorsOf s look .validate edges

private theorem metricsOf_perm (haverage : Scalar.Averaging α) (s : Settings α)
    (look : Nat → Vertex α) {edges others : List (Edge α)}
    (h : edges.Perm others) :
    metricsOf s look edges = metricsOf s look others := by
  rw [metricsOf, metricsOf, errorsOf_perm haverage s look .train h,
    errorsOf_perm haverage s look .validate h, (h.filter _).length_eq,
    (h.filter _).length_eq]

section Metrics

variable {scene : Scene α} {f : Factors α} (haverage : Scalar.Averaging α)
  (hf : Factors.ofVertices scene.graph scene.vertices = .ok f)
  (hcolumns : ColumnsOf f scene.vertices)
  (hlowest : Scalar.isNaN scene.settings.lowest = false)
  (hhighest : Scalar.isNaN scene.settings.highest = false)

include haverage hf hcolumns hlowest hhighest

theorem ofRole_eq (role : Role) :
    ofRole scene.graph scene.vertices scene.settings role =
      .ok ((scene.graph.edges.toList.filter fun e => e.role = role).length,
        errorsOf scene.settings scene.vertex role
          scene.graph.edges.toList) := by
  rw [ofRole, count_roleMask, errorsOf]
  dsimp only
  by_cases hnone : (scene.graph.edges.toList.filter
      fun e => e.role = role).length = 0
  · rw [if_pos hnone, if_pos hnone, hnone]
    rfl
  · have hmask : ∀ m ∈ some (scene.graph.roleMask role),
        m.length = scene.graph.edgeCount := by
      rintro m ⟨⟩
      rw [Graph.roleMask, List.length_map]
      rfl
    have hpredicted : predictions scene.graph scene.vertices scene.settings
        (some (scene.graph.roleMask role)) =
          .ok ((scene.graph.edges.toList.filter fun e => e.role = role).map
            (predictedFor scene.settings scene.vertex)) := by
      rw [predictions_eq hf hmask, map_edgeAt_selected]
      exact congrArg Except.ok (List.map_congr_left fun e _ =>
        predictAt_eq_predictedFor hcolumns hlowest hhighest e)
    have hsquares : ((scene.graph.edges.toList.filter fun e =>
        e.role = role).map fun e =>
          (predictedFor scene.settings scene.vertex e - e.value) *
            (predictedFor scene.settings scene.vertex e - e.value)) =
        squaresOf scene.settings scene.vertex role
          scene.graph.edges.toList :=
      List.map_congr_left fun e _ => haverage.sub_mul_self_comm _ _
    rw [if_neg hnone, if_neg hnone, hpredicted]
    have hresiduals : List.zipWith (· - ·)
        ((scene.graph.edges.toList.filter fun e => e.role = role).map
          (predictedFor scene.settings scene.vertex))
        ((scene.graph.edges.toList.filter (·.role == role)).map (·.value)) =
        (scene.graph.edges.toList.filter fun e => e.role = role).map fun e =>
          predictedFor scene.settings scene.vertex e - e.value := by
      rw [List.zipWith_map]
      exact List.zipWith_self
    dsimp only [bind, Except.bind]
    rw [hresiduals, List.map_map, List.map_map, Scalar.rootMeanOf,
      ← hsquares, List.length_map]
    rfl

/-- The metrics are the errors of the edges of either role. -/
theorem metrics_eq :
    metrics scene.graph scene.vertices scene.settings =
      .ok (metricsOf scene.settings scene.vertex
        scene.graph.edges.toList) := by
  rw [metrics, ofRole_eq haverage hf hcolumns hlowest hhighest .train,
    ofRole_eq haverage hf hcolumns hlowest hhighest .validate]
  rfl

end Metrics

/-- Metrics of which some are about training come from columns. -/
theorem ofVertices_of_metrics {g : Graph α} {vertices : Array (Vertex α)}
    {s : Settings α} {x : Metrics α}
    (hsome : ∃ e ∈ g.edges.toList, e.role = .train)
    (h : metrics g vertices s = .ok x) :
    ∃ f, Factors.ofVertices g vertices = .ok f := by
  obtain ⟨_, htrain, -⟩ := Attempt.bind_ok.mp h
  have hcount : (g.roleMask .train).count true ≠ 0 := by
    rw [count_roleMask]
    obtain ⟨e, he, hrole⟩ := hsome
    exact List.length_pos_iff_exists_mem.mpr
      ⟨e, List.mem_filter.mpr ⟨he, by simpa using hrole⟩⟩ |>.ne'
  rw [ofRole] at htrain
  dsimp only at htrain
  rw [if_neg hcount] at htrain
  obtain ⟨_, hpredictions, -⟩ := Attempt.bind_ok.mp htrain
  obtain ⟨f, hf, -⟩ := Attempt.bind_ok.mp hpredictions
  exact ⟨f, hf⟩

/-! ## Agreement with reports -/

/-- A tally, a report and metrics that say the same about the vertices as they
are: roots of the mean squared residuals of exactly the edges of either role,
and the numbers of these. -/
structure Agree (scene : Scene α) (t : ErrorTally α) (r : Report α)
    (x : Metrics α) : Prop where
  train : x.train.map (·.rootMeanSquare) = some r.trainError
  validation : x.validation.map (·.rootMeanSquare) = r.validationError
  validation_isSome : r.validationError.isSome = true ↔
    ∃ e ∈ scene.graph.edges.toList, e.role = .validate
  trainCount : t.trainCount = x.trainCount ∧ x.trainCount =
    (scene.graph.edges.toList.filter fun e => e.role = .train).length
  validationCount : t.validationCount = x.validationCount ∧
    x.validationCount =
      (scene.graph.edges.toList.filter fun e => e.role = .validate).length
  trainError_mul_self : r.trainError * r.trainError =
    Scalar.sum (squaresOf scene.settings scene.vertex .train
      scene.graph.edges.toList) / Scalar.ofInt x.trainCount
  validationError_mul_self : ∀ y ∈ r.validationError, y * y =
    Scalar.sum (squaresOf scene.settings scene.vertex .validate
      scene.graph.edges.toList) / Scalar.ofInt x.validationCount

private theorem map_rootMeanSquare_errorsOf (s : Settings α)
    (look : Nat → Vertex α) (role : Role) (edges : List (Edge α)) :
    (errorsOf s look role edges).map (·.rootMeanSquare) =
      Scalar.rootMeanOf? (squaresOf s look role edges) := by
  rw [errorsOf, Scalar.rootMeanOf?, length_squaresOf]
  split <;> rfl

/-- The metrics give the errors of a report made about the same vertices. -/
theorem rootMeanSquares_ofScene {scene : Scene α}
    (hsome : ∃ e ∈ scene.graph.edges.toList, e.role = .train) :
    let x := metricsOf scene.settings scene.vertex scene.graph.edges.toList
    x.train.map (·.rootMeanSquare) = some (Report.ofScene scene).trainError ∧
      x.validation.map (·.rootMeanSquare) =
        (Report.ofScene scene).validationError := by
  have hne := (squaresOf_ne_nil scene.settings scene.vertex .train
    scene.graph.edges.toList).mpr hsome
  refine ⟨?_, map_rootMeanSquare_errorsOf ..⟩
  rw [metricsOf, map_rootMeanSquare_errorsOf, Scalar.rootMeanOf?,
    if_neg (mt List.length_eq_zero_iff.mp hne)]
  rfl

private theorem agree_ofScene (hrooted : Scalar.Rooted α) {scene : Scene α}
    (hsome : ∃ e ∈ scene.graph.edges.toList, e.role = .train) :
    Agree scene (ErrorTally.ofEdges scene.settings scene.vertex
        scene.graph.edges.toList) (Report.ofScene scene)
      (metricsOf scene.settings scene.vertex scene.graph.edges.toList) := by
  have hsizes := nonneg_squaresOf hrooted.toAveraging scene.settings
    scene.vertex
  have hlength := length_squaresOf scene.settings scene.vertex
  have hne := (squaresOf_ne_nil scene.settings scene.vertex .train
    scene.graph.edges.toList).mpr hsome
  obtain ⟨htrain, hvalidation⟩ := rootMeanSquares_ofScene hsome
  refine ⟨htrain, hvalidation, ?_, ⟨?_, rfl⟩, ⟨?_, rfl⟩, ?_, ?_⟩
  · exact (Scalar.isSome_rootMeanOf? _).trans (squaresOf_ne_nil ..)
  · exact congrArg Nat.cast (hlength .train _)
  · exact congrArg Nat.cast (hlength .validate _)
  · rw [metricsOf, ← hlength .train]
    exact hrooted.rootMeanOf_mul_self (hsizes .train _) hne
  · intro y hy
    have hheld : squaresOf scene.settings scene.vertex .validate
        scene.graph.edges.toList ≠ [] :=
      (Scalar.isSome_rootMeanOf? _).mp (Option.isSome_iff_exists.mpr ⟨y, hy⟩)
    have hy' : Scalar.rootMeanOf? (squaresOf scene.settings scene.vertex
        .validate scene.graph.edges.toList) = some y := hy
    rw [Scalar.rootMeanOf?, if_neg (mt List.length_eq_zero_iff.mp hheld)] at hy'
    rw [← Option.some.inj hy', metricsOf, ← hlength .validate]
    exact hrooted.rootMeanOf_mul_self (hsizes .validate _) hheld

/-- Evaluation agrees with learning, if the bounds of predictions are numbers.
For every mask it predicts for exactly the selected edges, in their order, and
what learning predicts.  With exact arithmetic, wherever the errors of all edges
can be added up and some are learned from, closing the total makes a report that
agrees with the metrics, and neither depends on the order of the edges. -/
theorem evaluation_agrees {ω : Type} {scene : Scene α} {width : Nat}
    (hg : scene.graph.Faithful) (hsize : scene.vertices.size = scene.graph.size)
    (hlength : ∀ v ∈ scene.vertices, v.latent.length = width)
    (hnone : scene.vertices = #[] → 0 ≤ scene.graph.dimension)
    (hlowest : Scalar.isNaN scene.settings.lowest = false)
    (hhighest : Scalar.isNaN scene.settings.highest = false) :
    (∀ mask : Option (List Bool),
      (∀ m ∈ mask, m.length = scene.graph.edgeCount) →
      ∃ xs, predictions scene.graph scene.vertices scene.settings mask =
          .ok xs ∧
        List.Forall₂ (Predicts scene) (selected scene.graph mask) xs) ∧
    (Scalar.Rooted α → ∀ (name : String) (interval : Option α) (lastRun : α)
      (m : Monitor α) (total : Option (ErrorTally α)),
      (Monitor.watching (ω := ω) name interval lastRun m).total scene =
        .ok total →
      (∃ e ∈ scene.graph.edges.toList, e.role = .train) →
      m.reportsNext = true →
      ∃ t r x, total = some t ∧
        (Monitor.close (ω := ω) scene m total).answer = .ok (some r) ∧
        metrics scene.graph scene.vertices scene.settings = .ok x ∧
        Agree scene t r x ∧
        ∀ g', scene.graph.Reordered g' →
          (Monitor.watching (ω := ω) name interval lastRun m).total
              { scene with graph := g' } = .ok total ∧
            (Monitor.close (ω := ω) { scene with graph := g' } m total).answer =
              .ok (some r) ∧
            metrics g' scene.vertices scene.settings = .ok x) := by
  refine ⟨fun mask hmask => predictions_ok hg hsize hlength hnone hlowest
    hhighest hmask, ?_⟩
  intro hrooted name interval lastRun m total htotal hsome hnext
  obtain ⟨hclear, rfl⟩ := Monitor.total_ok hrooted.add_zero htotal
  obtain ⟨f, hf, hcolumns⟩ := exists_factors scene.graph hnone hlength
  have haverage := hrooted.toAveraging
  refine ⟨_, _, _, rfl, Monitor.close_ofEdges haverage hclear hsome hnext,
    metrics_eq haverage hf hcolumns hlowest hhighest,
    agree_ofScene hrooted hsome, ?_⟩
  intro g' hreordered
  -- The other graph has the same vertices, so only sums over its edges differ.
  have hf' : Factors.ofVertices g' scene.vertices = .ok f :=
    (ofVertices_congr hreordered.ids hreordered.dimension _).trans hf
  have hclear' : ∀ e ∈ g'.edges.toList,
      ErrorTally.Clear scene.settings scene.vertex e :=
    fun e he => hclear e (hreordered.edges.mem_iff.mp he)
  have hsome' : ∃ e ∈ g'.edges.toList, e.role = .train := by
    obtain ⟨e, he, hrole⟩ := hsome
    exact ⟨e, hreordered.edges.mem_iff.mpr he, hrole⟩
  have htally : ErrorTally.ofEdges scene.settings scene.vertex
      g'.edges.toList = ErrorTally.ofEdges scene.settings scene.vertex
        scene.graph.edges.toList :=
    ErrorTally.ofEdges_perm hrooted.toExact hreordered.edges
  have hreport : Report.ofScene { scene with graph := g' } =
      Report.ofScene scene := Report.ofScene_perm haverage hreordered.edges
  have hmetrics := @metrics_eq α _ { scene with graph := g' } f haverage hf'
    hcolumns hlowest hhighest
  rw [← htally, ← hreport]
  exact ⟨Monitor.total_of_clear haverage hclear',
    Monitor.close_ofEdges haverage hclear' hsome' hnext,
    hmetrics.trans (congrArg Except.ok
      (metricsOf_perm haverage _ _ hreordered.edges))⟩

/-- Two ratings by one row; the second is held out. -/
def twoRatings (x y : α) : Graph α where
  ids := #[-3, -2, 1]
  edges := #[⟨2, 1, x, .train⟩, ⟨2, 0, y, .validate⟩]
  incoming := #[[1], [0], []]
  outgoing := #[[], [], [0, 1]]
  dimension := 1

/-- Three vertices, and settings with a range of predictions. -/
def twoScene (one zero lowest highest x y : α) : Scene α where
  graph := twoRatings x y
  vertices := #[⟨[one], zero, 0⟩, ⟨[one], zero, 0⟩, ⟨[one], zero, 0⟩]
  settings :=
    { dimension := 1, regularization := zero, rate := one, rateDecay := one
      lowest := lowest, highest := highest, budget := some 0, globalMean := x
      interval := zero, reportEvery := 1, debug := true }
  iteration := 0
  elapsed := zero

/-- Exact ratings: the first is missed by one, the second by two. -/
noncomputable def exactScene : Scene ℝ :=
  twoScene 1 0 0 5 3 2

private theorem exactScene_faithful : exactScene.graph.Faithful where
  source_lt := by decide
  target_lt := by decide
  edgesInto_eq := by decide
  edgesOutOf_eq := by decide
  placeOf_idAt := fun _ hv => Graph.placeOf_idAt_of_pairwise (by decide) hv

private theorem exactScene_clear : ∀ e ∈ exactScene.graph.edges.toList,
    ErrorTally.Clear exactScene.settings exactScene.vertex e := by
  intro e he
  have hmem : e = ⟨2, 1, 3, .train⟩ ∨ e = ⟨2, 0, 2, .validate⟩ := by
    simpa [exactScene, twoScene, twoRatings] using he
  rcases hmem with rfl | rfl <;>
    exact ⟨rfl, fun _ => rfl, fun _ => rfl, fun _ => rfl⟩

theorem evaluation_agrees_sample :
    (∃ xs, predictions exactScene.graph exactScene.vertices exactScene.settings
        (some [false, true]) = .ok xs ∧
      List.Forall₂ (Predicts exactScene) [1] xs) ∧
    ∃ t r x, (Monitor.aggregator (ω := Empty) "error"
          ⟨1, false, 0, []⟩).total exactScene = .ok (some t) ∧
      (Monitor.close (ω := Empty) exactScene ⟨1, false, 0, []⟩
        (some t)).answer = .ok (some r) ∧
      metrics exactScene.graph exactScene.vertices exactScene.settings =
        .ok x ∧
      Agree exactScene t r x := by
  have hlength : ∀ v ∈ exactScene.vertices, v.latent.length = 1 := by
    simp [exactScene, twoScene]
  obtain ⟨hpredictions, hreports⟩ := evaluation_agrees (ω := Empty)
    exactScene_faithful rfl hlength
    (fun h => absurd h (by simp [exactScene, twoScene])) rfl rfl
  refine ⟨hpredictions (some [false, true]) (by rintro m ⟨⟩; rfl), ?_⟩
  have htotal := @Monitor.total_of_clear ℝ _ Empty "error" none Scalar.zero
    ⟨1, false, 0, []⟩ exactScene Scalar.rooted_real.toAveraging exactScene_clear
  obtain ⟨t, r, x, hsum, hclosed, hmetrics, hagree, -⟩ :=
    hreports Scalar.rooted_real _ _ _ _ _ htotal
      ⟨⟨2, 1, 3, .train⟩, by simp [exactScene, twoScene, twoRatings], rfl⟩ rfl
  rw [hsum] at htotal hclosed
  exact ⟨t, r, x, htotal, hclosed, hmetrics, hagree⟩

/-- What is no number. -/
def nan : Float := 0.0 / 0.0

/-- A scene whose least prediction is no number. -/
def unboundedScene : Scene Float :=
  twoScene 1.0 0.0 nan 5.0 3.0 2.0

/-- With a least prediction that is no number evaluation has no number for any
edge, where learning predicts four and a report has errors. -/
theorem evaluation_agrees_fail :
    (predictions unboundedScene.graph unboundedScene.vertices
        unboundedScene.settings none).toOption.map
          (·.map Scalar.isNaN) = some [true, true] ∧
      (∀ n < 2, Predicts unboundedScene n 4.0) ∧
      ((metrics unboundedScene.graph unboundedScene.vertices
        unboundedScene.settings).toOption.bind (·.train)).map
          (Scalar.isNaN ·.rootMeanSquare) = some true ∧
      ((Monitor.aggregator (ω := Empty) "error" ⟨1, false, 0, []⟩).total
          unboundedScene).toOption.map (fun total =>
        ((Monitor.close (ω := Empty) unboundedScene ⟨1, false, 0, []⟩
          total).answer.toOption.bind id).map (·.trainError)) =
        some (some 1.0) := by
  refine ⟨by decide +kernel, ?_, by decide +kernel, by decide +kernel⟩
  intro n hn
  obtain rfl | rfl : n = 0 ∨ n = 1 := by omega
  · exact ⟨_, _, rfl, rfl, congrArg Except.ok (by decide +kernel)⟩
  · exact ⟨_, _, rfl, rfl, congrArg Except.ok (by decide +kernel)⟩

end Evaluation

end RatingFactors
