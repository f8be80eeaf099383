import RatingFactors.Proofs.Evaluation
import RatingFactors.Proofs.Graph.Sides
import RatingFactors.Proofs.Training

/-!
# Who is learned from

Several parts of the library pick out the ratings of a role: the mean of a
table, its summary, the masks of its graph, the mean and the count of a trainer,
the metrics, and the tally of errors, which goes by the role of each edge.  They
agree, for every table with known roles: all count the rows of the role, and
both means are the sum of the values learned from over their number.

Only exactness of addition is used, and of that only that zero adds nothing: a
trainer goes over all edges and adds a zero for those that are held out.

## Main definitions

* `Ratings.roleCount` — how many rows have a role.
* `Ratings.trainMean` — the mean of the values learned from.
* `Graph.CountsAgree` — all counts of a role are the number of its rows.

## Main results

* `roleMask_graphOf` — the mask of a role marks the rows of the role.
* `sumTrain_graphOf` — held-out edges add nothing to the sum of a trainer.
* `perform_takeMean` — what taking the mean leaves, in either case.
* `countsAgree_graphOf` — the counts of a graph are those of its table.
* `training_edges_agree` — the means and the counts.
-/

namespace RatingFactors

namespace Ratings

variable {α : Type}

/-- How many rows have a role. -/
def roleCount (role : Role) (rows : List (Rating α)) : Nat :=
  rows.countP fun r => r.role = role

/-- The values of the rows that are learned from, in order. -/
def trainValues (rows : List (Rating α)) : List α :=
  (rows.filter fun r => r.role = .train).map (·.value)

/-- The mean of the values that are learned from. -/
def trainMean [Scalar α] (rows : List (Rating α)) : α :=
  Scalar.sum (trainValues rows) / Scalar.ofInt (roleCount .train rows)

theorem length_ofRole (role : Role) (rows : List (Rating α)) :
    (ofRole role rows).length = roleCount role rows :=
  List.countP_eq_length_filter.symm

private theorem length_trainValues (rows : List (Rating α)) :
    (trainValues rows).length = roleCount .train rows := by
  rw [trainValues, List.length_map, roleCount, List.countP_eq_length_filter]

theorem roleCount_pos_iff {role : Role} {rows : List (Rating α)} :
    0 < roleCount role rows ↔ ∃ r ∈ rows, r.role = role := by
  simp [roleCount, List.countP_pos_iff]

/-- Every row with a known role has one of the three roles, and one only. -/
theorem roleCount_add_roleCount {rows : List (Rating α)}
    (h : ∀ r ∈ rows, r.role.isKnown = true) :
    roleCount .train rows + roleCount .validate rows + roleCount .predict rows =
      rows.length := by
  induction rows with
  | nil => rfl
  | cons r rest ih =>
      have hrest := ih fun q hq => h q (List.mem_cons_of_mem r hq)
      have hrole := h r List.mem_cons_self
      simp only [roleCount, List.countP_cons, List.length_cons] at hrest ⊢
      cases hr : r.role with
      | other label => rw [hr] at hrole; cases hrole
      | _ => simp; omega

variable [Scalar α] {rows : List (Rating α)}

/-- Where the values learned from are numbers, the mean of a table is their
mean. -/
theorem meanOfTraining_eq (hsome : 0 < roleCount .train rows)
    (hnumbers : ∀ r ∈ rows, r.role = .train → Scalar.isNaN r.value = false) :
    meanOfTraining rows = .ok (trainMean rows) := by
  have hvalues : (ofRole .train rows).map (·.value) = trainValues rows := rfl
  have hne : (trainValues rows).isEmpty = false := by
    rw [List.isEmpty_eq_false_iff, ← List.length_pos_iff, length_trainValues]
    exact hsome
  have hall : (trainValues rows).filter (fun x => !Scalar.isNaN x) =
      trainValues rows := by
    refine List.filter_eq_self.mpr fun x hx => ?_
    obtain ⟨r, hr, rfl⟩ := List.mem_map.mp hx
    obtain ⟨hmem, hrole⟩ := List.mem_filter.mp hr
    rw [hnumbers r hmem (of_decide_eq_true hrole)]
    rfl
  rw [meanOfTraining, hvalues, hne, hall, trainMean, ← length_trainValues]
  rfl

private theorem meanOfTraining_of_none (hnone : ¬ 0 < roleCount .train rows) :
    meanOfTraining rows = .error .noTrainingRows := by
  have hempty : ((ofRole .train rows).map (·.value)).isEmpty = true := by
    rw [List.isEmpty_iff_length_eq_zero, List.length_map, length_ofRole]
    omega
  rw [meanOfTraining, hempty]
  rfl

end Ratings

open Ratings

namespace Graph

variable {α : Type}

/-! ## The edges of a role -/

/-- The mask of a role marks the rows of the role. -/
theorem roleMask_graphOf (rows : List (Rating α)) (dimension : Int)
    (role : Role) :
    (graphOf rows dimension).roleMask role =
      rows.map fun r => r.role == role := by
  rw [roleMask, graphOf, List.map_map]
  rfl

theorem count_roleMask_graphOf (rows : List (Rating α)) (dimension : Int)
    (role : Role) :
    ((graphOf rows dimension).roleMask role).count true =
      roleCount role rows := by
  rw [roleMask_graphOf, List.count, List.countP_map, roleCount]
  refine List.countP_congr fun r _ => ?_
  simp

theorem edgeCount_graphOf (rows : List (Rating α)) (dimension : Int) :
    (graphOf rows dimension).edgeCount = rows.length :=
  List.length_map _

/-! ## Taking the mean -/

/-- Held-out edges add nothing to the sum of a trainer. -/
theorem sumTrain_graphOf [Scalar α] (hzero : ∀ x : α, x + Scalar.zero = x)
    (rows : List (Rating α)) (dimension : Int) :
    Trainer.sumTrain (graphOf rows dimension) =
      Scalar.sum (trainValues rows) := by
  rw [Trainer.sumTrain, sumEdges_masked hzero]
  congr 1
  exact (congrArg (List.map (·.value))
    (edges_ofRole rows dimension .train)).trans List.map_map

end Graph

namespace Trainer

variable {α : Type} [Scalar α] {t : Trainer α} {rows : List (Rating α)}
  {dimension : Int}

/-- With edges to learn from, taking the mean changes the mean in the settings
and the number of training edges, and prints.  Without any it fails and only
notes that there are none. -/
theorem perform_takeMean (hzero : ∀ x : α, x + Scalar.zero = x)
    (hgraph : t.engine.graph = Graph.graphOf rows dimension) :
    (0 < roleCount .train rows → ∃ notes, takeMean.perform t = (.ok (), { t with
      trainEdges := roleCount .train rows
      session := { t.session with
        engine := averaged t.session.engine (trainMean rows) notes } })) ∧
    (¬ 0 < roleCount .train rows → takeMean.perform t =
      (.error .noTrainingEdges,
        { t with trainEdges := roleCount .train rows })) := by
  have hcount : countTrain t.engine.graph = roleCount .train rows := by
    rw [hgraph, countTrain_eq, Graph.count_roleMask_graphOf]
  have hsum : sumTrain t.engine.graph = Scalar.sum (trainValues rows) := by
    rw [hgraph, Graph.sumTrain_graphOf hzero]
  rw [takeMean, Attempt.perform_get_bind]
  dsimp only
  rw [Attempt.perform_modify_bind, hcount, hsum]
  constructor
  · intro hsome
    rw [if_neg (by omega)]
    obtain ⟨notes, hsaid⟩ :=
      exists_said ["Глобальное среднее: " ++ Scalar.text (trainMean rows)]
        { t with
          trainEdges := roleCount .train rows
          session := { t.session with
            engine := averaged t.session.engine (trainMean rows)
              t.session.engine.notes } }
    refine ⟨notes, ?_⟩
    rw [Attempt.perform_bind]
    exact hsaid
  · intro hnone
    rw [if_pos (by omega)]
    rfl

end Trainer

/-! ## Metrics and totals -/

namespace Evaluation

variable {α : Type} [Scalar α] {g : Graph α} {vertices : Array (Vertex α)}
  {width : Nat}

/-- The errors of a role can be had of any vertices whose vectors agree in
length. -/
theorem exists_ofRole (hg : g.Faithful) (hsize : vertices.size = g.size)
    (hlength : ∀ v ∈ vertices, v.latent.length = width) (s : Settings α)
    (role : Role) :
    ∃ errors, ofRole g vertices s role =
      .ok ((g.roleMask role).count true, errors) := by
  rw [ofRole]
  dsimp only
  by_cases hcount : (g.roleMask role).count true = 0
  · rw [if_pos hcount, hcount]
    exact ⟨_, rfl⟩
  · have hnone : vertices = #[] → 0 ≤ g.dimension := by
      intro hempty
      -- an edge of the role would begin at a vertex
      obtain ⟨e, he⟩ :=
        List.exists_mem_of_ne_nil (g.edges.toList.filter fun e => e.role = role)
          (mt List.length_eq_zero_iff.mpr (count_roleMask g role ▸ hcount))
      obtain ⟨n, hn, -⟩ :=
        List.mem_map.mp (g.map_edgeAt_range ▸ (List.mem_filter.mp he).1)
      have hsource := hg.source_lt n (List.mem_range.mp hn)
      rw [← hsize, hempty] at hsource
      exact absurd hsource (Nat.not_lt_zero _)
    obtain ⟨f, hf, -⟩ := exists_factors g hnone hlength
    have hmask : ∀ m ∈ some (g.roleMask role), m.length = g.edgeCount := by
      rintro m ⟨⟩
      exact List.length_map _
    rw [if_neg hcount, predictions_eq hf hmask]
    exact ⟨_, rfl⟩

/-- Metrics can be had of any vertices whose vectors agree in length; their
counts are those of the masks. -/
theorem exists_metrics (hg : g.Faithful) (hsize : vertices.size = g.size)
    (hlength : ∀ v ∈ vertices, v.latent.length = width) (s : Settings α) :
    ∃ x, metrics g vertices s = .ok x ∧
      x.trainCount = (g.roleMask .train).count true ∧
      x.validationCount = (g.roleMask .validate).count true := by
  obtain ⟨train, htrain⟩ := exists_ofRole hg hsize hlength s .train
  obtain ⟨validation, hvalidation⟩ := exists_ofRole hg hsize hlength s .validate
  refine ⟨⟨_, train, _, validation⟩, ?_, rfl, rfl⟩
  rw [metrics, htrain, hvalidation]
  rfl

end Evaluation

namespace Monitor

variable {α : Type} [Scalar α] {ω : Type} {name : String} {interval : Option α}
  {lastRun : α} {m : Monitor α} {scene : Scene α}

/-- There is a total exactly if all edges are clear. -/
theorem exists_total_exact_iff (haverage : Scalar.Averaging α) :
    (∃ total,
      (watching (ω := ω) name interval lastRun m).total scene = .ok total) ↔
      ∀ e ∈ scene.graph.edges.toList,
        ErrorTally.Clear scene.settings scene.vertex e :=
  ⟨fun ⟨_, htotal⟩ => (total_ok haverage.add_zero htotal).1,
    fun hclear => ⟨_, total_of_clear haverage hclear⟩⟩

/-- A total counts what the masks count. -/
theorem counts_of_total (hzero : ∀ x : α, x + Scalar.zero = x)
    {total : Option (ErrorTally α)}
    (h : (watching (ω := ω) name interval lastRun m).total scene = .ok total) :
    ∃ tally, total = some tally ∧
      tally.trainCount = (scene.graph.roleMask .train).count true ∧
      tally.validationCount = (scene.graph.roleMask .validate).count true := by
  refine ⟨_, (total_ok hzero h).2, ?_, ?_⟩
  · exact congrArg Nat.cast
      ((length_squaresOf ..).trans (Evaluation.count_roleMask ..).symm)
  · exact congrArg Nat.cast
      ((length_squaresOf ..).trans (Evaluation.count_roleMask ..).symm)

/-- Where all there is are finite numbers, the edges between vertices whose
vectors agree in length are clear. -/
theorem clear_of_finite {width : Nat}
    (hfinite : ∀ x : α, Scalar.isNaN x = false ∧ Scalar.isInfinite x = false)
    (hg : scene.graph.Faithful)
    (hknown : ∀ e ∈ scene.graph.edges.toList, e.role.isKnown = true)
    (hsize : scene.vertices.size = scene.graph.size)
    (hlength : ∀ v ∈ scene.vertices, v.latent.length = width) :
    ∀ e ∈ scene.graph.edges.toList,
      ErrorTally.Clear scene.settings scene.vertex e := by
  have hwide : ∀ place < scene.graph.size,
      (scene.vertex place).latent.length = width := by
    intro place hplace
    have hlt : place < scene.vertices.size := hsize.symm ▸ hplace
    rw [Scene.vertex, Array.getD_eq_getD_getElem?,
      Array.getElem?_eq_getElem hlt, Option.getD_some]
    exact hlength _ (Array.getElem_mem hlt)
  intro e he
  have hrole := hknown e he
  rw [← Graph.map_edgeAt_range] at he
  obtain ⟨n, hn, rfl⟩ := List.mem_map.mp he
  have hlt := List.mem_range.mp hn
  exact ⟨hrole, fun _ => (hwide _ (hg.source_lt n hlt)).trans
      (hwide _ (hg.target_lt n hlt)).symm,
    fun _ => (hfinite _).2, fun _ => (hfinite _).1⟩

end Monitor

/-! ## Agreement -/

namespace Graph

variable {α : Type} [Scalar α]

/-- Wherever the ratings of a role are counted, their number is that of the rows
of the role, and every row is of one role. -/
structure CountsAgree (rows : List (Rating α)) (g : Graph α) : Prop where
  edges : g.edgeCount = rows.length ∧
    roleCount .train rows + roleCount .validate rows + roleCount .predict rows =
      g.edgeCount
  summary : (summarize rows).edgeCount = g.edgeCount ∧
    (summarize rows).trainCount = roleCount .train rows ∧
    (summarize rows).validateCount = roleCount .validate rows ∧
    (summarize rows).predictCount = roleCount .predict rows
  mask : ∀ role, (g.roleMask role) = (rows.map fun r => r.role == role) ∧
    (g.roleMask role).count true = roleCount role rows
  metrics : ∀ (vertices : Array (Vertex α)) (s : Settings α) (width : Nat),
    vertices.size = g.size → (∀ v ∈ vertices, v.latent.length = width) →
    ∃ x, Evaluation.metrics g vertices s = .ok x ∧
      x.trainCount = roleCount .train rows ∧
      x.validationCount = roleCount .validate rows
  /-- A total over all edges, whatever the vertices and whoever keeps the
  monitor. -/
  total : ∀ (ω : Type) (name : String) (interval : Option α) (lastRun : α)
      (m : Monitor α) (scene : Scene α), scene.graph = g →
    ((∃ total,
      (Monitor.watching (ω := ω) name interval lastRun m).total scene =
        .ok total) ↔
      ∀ e ∈ g.edges.toList, ErrorTally.Clear scene.settings scene.vertex e) ∧
    ∀ total,
      (Monitor.watching (ω := ω) name interval lastRun m).total scene =
        .ok total →
      ∃ tally, total = some tally ∧
        tally.trainCount = roleCount .train rows ∧
        tally.validationCount = roleCount .validate rows
  /-- Among finite numbers nothing stands in the way of a total. -/
  clear : (∀ x : α, Scalar.isNaN x = false ∧ Scalar.isInfinite x = false) →
    ∀ (scene : Scene α) (width : Nat), scene.graph = g →
    scene.vertices.size = g.size →
    (∀ v ∈ scene.vertices, v.latent.length = width) →
    ∀ e ∈ g.edges.toList, ErrorTally.Clear scene.settings scene.vertex e

omit [Scalar α] in
private theorem known_graphOf {rows : List (Rating α)} {dimension : Int}
    (h : ∀ r ∈ rows, r.role.isKnown = true) :
    ∀ e ∈ (graphOf rows dimension).edges.toList, e.role.isKnown = true := by
  intro e he
  obtain ⟨r, hr, rfl⟩ := List.mem_map.mp he
  exact h r hr

theorem countsAgree_graphOf (haverage : Scalar.Averaging α)
    {rows : List (Rating α)} {dimension : Int}
    (hroles : ∀ r ∈ rows, r.role.isKnown = true) :
    CountsAgree rows (graphOf rows dimension) where
  edges := by
    rw [edgeCount_graphOf]
    exact ⟨rfl, roleCount_add_roleCount hroles⟩
  summary := by
    rw [edgeCount_graphOf]
    exact ⟨rfl, length_ofRole .train rows, length_ofRole .validate rows,
      length_ofRole .predict rows⟩
  mask role :=
    ⟨roleMask_graphOf rows dimension role,
      count_roleMask_graphOf rows dimension role⟩
  metrics vertices s width hsize hlength := by
    obtain ⟨x, hx, htrain, hvalidation⟩ :=
      Evaluation.exists_metrics (faithful_graphOf rows dimension) hsize
        hlength s
    rw [count_roleMask_graphOf] at htrain hvalidation
    exact ⟨x, hx, htrain, hvalidation⟩
  total ω name interval lastRun m scene hgraph := by
    refine ⟨hgraph ▸ Monitor.exists_total_exact_iff haverage,
      fun total htotal => ?_⟩
    obtain ⟨tally, rfl, htrain, hvalidation⟩ :=
      Monitor.counts_of_total haverage.add_zero htotal
    rw [hgraph, count_roleMask_graphOf] at htrain hvalidation
    exact ⟨tally, rfl, htrain, hvalidation⟩
  clear hfinite scene width hgraph hsize hlength := by
    have hclear := @Monitor.clear_of_finite α _ scene width hfinite
    rw [hgraph] at hclear
    exact hclear (faithful_graphOf rows dimension) (known_graphOf hroles)
      hsize hlength

end Graph

/-- The rows of a table that are learned from are the training edges of its
graph.  If there are any, the mean of the table and the mean that a trainer
takes are the sum of their values over their number, and otherwise both fail and
the trainer's settings stay as they are; either way the trainer notes their
number.  The summary of the table, the masks of the graph, the metrics and the
total of the monitor count the same. -/
theorem training_edges_agree {α : Type} [Scalar α]
    (haverage : Scalar.Averaging α) {rows : List (Rating α)} {dimension : Int}
    {g : Graph α} (hroles : ∀ r ∈ rows, r.role.isKnown = true)
    (hnumbers : ∀ r ∈ rows, r.role = .train → Scalar.isNaN r.value = false)
    (hg : Graph.ofRows rows dimension = .ok g) :
    ((∃ r ∈ rows, r.role = .train) →
      meanOfTraining rows = .ok (trainMean rows) ∧
      ∀ t : Trainer α, t.engine.graph = g →
        ∃ u, Trainer.takeMean.perform t = (.ok (), u) ∧
          u.engine.settings =
            { t.engine.settings with globalMean := trainMean rows } ∧
          u.trainEdges = roleCount .train rows) ∧
    ((¬ ∃ r ∈ rows, r.role = .train) →
      meanOfTraining rows = .error .noTrainingRows ∧
      Failure.noTrainingRows.kind = .refused ∧
      Failure.noTrainingEdges.kind = .refused ∧
      ∀ t : Trainer α, t.engine.graph = g →
        ∃ u, Trainer.takeMean.perform t = (.error .noTrainingEdges, u) ∧
          u.engine = t.engine ∧ u.trainEdges = roleCount .train rows) ∧
    Graph.CountsAgree rows g := by
  obtain rfl : Graph.graphOf rows dimension = g :=
    Except.ok.inj ((Graph.ofRows_eq rows dimension).symm.trans hg)
  refine ⟨fun hsome => ?_, fun hnone => ?_,
    Graph.countsAgree_graphOf haverage hroles⟩
  · have hpos := roleCount_pos_iff.mpr hsome
    refine ⟨meanOfTraining_eq hpos hnumbers, fun t hgraph => ?_⟩
    obtain ⟨notes, hmean⟩ :=
      (Trainer.perform_takeMean haverage.add_zero hgraph).1 hpos
    exact ⟨_, hmean, rfl, rfl⟩
  · have hzero := mt roleCount_pos_iff.mp hnone
    refine ⟨meanOfTraining_of_none hzero, rfl, rfl, fun t hgraph => ?_⟩
    exact ⟨_, (Trainer.perform_takeMean haverage.add_zero hgraph).2 hzero,
      rfl, rfl⟩

/-- Four ratings of which two are learned from, with the others between them. -/
def mixedRows {α : Type} (first held unknown last : α) : List (Rating α) :=
  [⟨1, -2, first, .train⟩, ⟨1, -3, held, .validate⟩, ⟨4, -3, unknown, .predict⟩,
    ⟨4, -2, last, .train⟩]

private theorem known_mixedRows {α : Type} (first held unknown last : α) :
    ∀ r ∈ mixedRows first held unknown last, r.role.isKnown = true := by
  simp [mixedRows, Role.isKnown]

/-- A trainer at rest over the graph of a table. -/
noncomputable def restingTrainer (rows : List (Rating ℝ)) : Trainer ℝ where
  session := Session.make (Engine.make .synchronous (Graph.graphOf rows 1) #[]
    Evaluation.exactScene.settings none fun _ => 0) none none
  predictions := none
  moved := false
  checkpointFolder := none
  trainEdges := 7
  files := Files.none

/-- The mean of 3 and 5 is taken from the table and from the graph, whatever
stands between them; of the held-out ratings alone there is none. -/
theorem training_edges_agree_sample :
    let rows := mixedRows 3 9 0 (5 : ℝ)
    meanOfTraining rows = .ok 4 ∧
      (∃ u, Trainer.takeMean.perform (restingTrainer rows) = (.ok (), u) ∧
        u.engine.settings.globalMean = 4 ∧ u.trainEdges = 2) ∧
      Graph.CountsAgree rows (Graph.graphOf rows 1) ∧
      meanOfTraining (rows.filter fun r => r.role ≠ .train) =
        .error .noTrainingRows := by
  intro rows
  have hmean : trainMean rows = 4 := by
    have hsum : Scalar.sum (trainValues rows) = 0 + 3 + 5 := rfl
    have hcount :
        (Scalar.ofInt (roleCount .train rows) : ℝ) = ((2 : Int) : ℝ) := rfl
    rw [trainMean, hsum, hcount]
    norm_num
  have hknown := known_mixedRows 3 9 0 (5 : ℝ)
  obtain ⟨hsome, -, hcounts⟩ :=
    training_edges_agree Scalar.rooted_real.toAveraging
      hknown (fun _ _ _ => rfl) (Graph.ofRows_eq rows 1)
  obtain ⟨htable, htrainer⟩ := hsome ⟨_, List.mem_cons_self, rfl⟩
  obtain ⟨u, hu, hsettings, hcount⟩ := htrainer (restingTrainer rows) rfl
  obtain ⟨-, hnone, -⟩ := training_edges_agree Scalar.rooted_real.toAveraging
    (fun r hr => hknown r (List.mem_filter.mp hr).1) (fun _ _ _ => rfl)
    (Graph.ofRows_eq (rows.filter fun r => r.role ≠ .train) 1)
  refine ⟨hmean ▸ htable, ⟨u, hu, ?_, hcount⟩, hcounts, (hnone ?_).1⟩
  · rw [hsettings]
    exact hmean
  · rintro ⟨r, hr, hrole⟩
    exact of_decide_eq_true (List.mem_filter.mp hr).2 hrole

end RatingFactors
