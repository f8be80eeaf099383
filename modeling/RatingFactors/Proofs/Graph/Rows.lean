import RatingFactors.Graph.Bipartite
import RatingFactors.Proofs.Attempt
import RatingFactors.Proofs.Graph.Places
import RatingFactors.Proofs.Random.Shuffle

/-!
# The graph of a table

What the graph of a table consists of, written down: its identifiers are those
that occur in the table, its edges are the rows in their order, between the
places of their identifiers.  A table whose rows and columns have no identifier
in common and whose roles are known has a graph, for every dimension that is
not negative and every seed that the source accepts.

## Main results

* `ofRows_eq` — the graph of a table.
* `idAt_placeIn` — the ends of an edge carry the identifiers of its row.
* `idsOf_congr` — tables with the same rows have the same vertices.
* `exists_starting`, `ofRatings_gives` — a table without shared identifiers has
  a graph with starting vertices.
* `ofRatings_ok` — no other graph is built from a table.
-/

namespace RatingFactors.Graph

variable {α : Type}

/-! ## Vertices and edges -/

/-- The identifiers of a table, increasing. -/
def idsOf (rows : List (Rating α)) : Array Int64 :=
  places (rows.map (·.source) ++ rows.map (·.target))

/-- The place of an identifier that occurs. -/
def placeIn (ids : Array Int64) (id : Int64) : Nat :=
  (placeOf? ids id.toInt).getD 0

/-- A row as an edge between the places of its identifiers. -/
def edgeOf (ids : Array Int64) (r : Rating α) : Edge α :=
  ⟨placeIn ids r.source, placeIn ids r.target, r.value, r.role⟩

/-- The graph of a table. -/
def graphOf (rows : List (Rating α)) (dimension : Int) : Graph α where
  ids := idsOf rows
  edges := (rows.map (edgeOf (idsOf rows))).toArray
  incoming := incidence (idsOf rows).size
    (rows.map fun r => placeIn (idsOf rows) r.target)
  outgoing := incidence (idsOf rows).size
    (rows.map fun r => placeIn (idsOf rows) r.source)
  dimension := dimension

theorem ofRows_eq (rows : List (Rating α)) (dimension : Int) :
    ofRows rows dimension = .ok (graphOf rows dimension) := by
  have hlengths :
      ((rows.map (·.source)).length = (rows.map (·.target)).length &&
        (rows.map (·.target)).length = (rows.map (·.value)).length &&
        (rows.map (·.value)).length = (rows.map (·.role)).length) = true := by
    simp
  rw [ofRows, ofColumns, if_pos hlengths]
  simp only [graphOf, List.map_map, List.zip_map', Function.comp_def]
  rfl

theorem mem_idsOf {rows : List (Rating α)} {id : Int64} :
    id ∈ idsOf rows ↔ ∃ r ∈ rows, r.source = id ∨ r.target = id := by
  rw [idsOf, mem_places, List.mem_append, List.mem_map, List.mem_map]
  constructor
  · rintro (⟨r, hr, hid⟩ | ⟨r, hr, hid⟩)
    · exact ⟨r, hr, .inl hid⟩
    · exact ⟨r, hr, .inr hid⟩
  · rintro ⟨r, hr, hid | hid⟩
    · exact .inl ⟨r, hr, hid⟩
    · exact .inr ⟨r, hr, hid⟩

/-- Tables with the same rows, in whatever order, have the same vertices. -/
theorem idsOf_congr {rows others : List (Rating α)}
    (h : ∀ r, r ∈ rows ↔ r ∈ others) : idsOf rows = idsOf others := by
  refine places_congr fun id => ?_
  simp only [List.mem_append, List.mem_map, h]

/-- The place of an identifier that occurs carries it. -/
theorem getElem?_placeIn {rows : List (Rating α)} {id : Int64}
    (h : id ∈ idsOf rows) :
    (idsOf rows)[placeIn (idsOf rows) id]? = some id := by
  obtain ⟨place, hplace, hget⟩ := placeOf?_of_mem (pairwise_places _) h
  rw [placeIn, show placeOf? (idsOf rows) id.toInt = some place from hplace,
    Option.getD_some]
  exact hget

theorem idAt_placeIn {rows : List (Rating α)} {id : Int64} {dimension : Int}
    (h : id ∈ idsOf rows) :
    (graphOf rows dimension).idAt (placeIn (idsOf rows) id) = id.toInt := by
  rw [idAt, Array.getD_eq_getD_getElem?,
    show (graphOf rows dimension).ids = idsOf rows from rfl, getElem?_placeIn h,
    Option.getD_some]

theorem placeIn_lt {rows : List (Rating α)} {id : Int64} (h : id ∈ idsOf rows) :
    placeIn (idsOf rows) id < (idsOf rows).size :=
  (Array.getElem?_eq_some_iff.mp (getElem?_placeIn h)).1

/-- The edges of a role are the rows of that role. -/
theorem edges_ofRole (rows : List (Rating α)) (dimension : Int) (role : Role) :
    (graphOf rows dimension).edges.toList.filter (·.role == role) =
      (Ratings.ofRole role rows).map (edgeOf (idsOf rows)) := by
  rw [graphOf, List.filter_map, Ratings.ofRole]
  rfl

/-! ## The vertices before any learning -/

theorem exists_drawn {dimension : Int} (h : 0 ≤ dimension) (debug : Bool)
    (source : Twister) :
    ∃ v next,
      Attempt.perform (Vertex.drawn dimension debug) source = (.ok v, next) ∧
      v.latent.length = dimension.toNat := by
  rw [Vertex.drawn, if_neg (by omega)]
  cases debug with
  | true => exact ⟨_, _, rfl, List.length_replicate⟩
  | false => exact ⟨_, _, rfl, Twister.length_draws ..⟩

/-- Every vertex when debugging. -/
def plainVertex (dimension : Int) : Vertex Float :=
  ⟨List.replicate dimension.toNat 1.0, 0.0, 0⟩

private theorem exists_drawn_debug {dimension : Int} (h : 0 ≤ dimension)
    (source : Twister) :
    ∃ v next,
      Attempt.perform (Vertex.drawn dimension true) source = (.ok v, next) ∧
      v = plainVertex dimension := by
  rw [Vertex.drawn, if_neg (by omega)]
  exact ⟨_, _, rfl, rfl⟩

/-- What holds of each vertex that is drawn holds of all that are drawn in
turn. -/
theorem exists_drawn_all {dimension : Int} {debug : Bool}
    (motive : Vertex Float → Prop)
    (hdrawn : ∀ source, ∃ v next,
      Attempt.perform (Vertex.drawn dimension debug) source = (.ok v, next) ∧
      motive v) (n : Nat) (source : Twister) :
    ∃ vertices next, Attempt.perform
        ((List.replicate n ()).mapM fun _ => Vertex.drawn dimension debug)
        source = (.ok vertices, next) ∧
      vertices.length = n ∧ ∀ v ∈ vertices, motive v := by
  induction n generalizing source with
  | zero => exact ⟨[], source, rfl, rfl, by simp⟩
  | succ n ih =>
      obtain ⟨v, next, hv, hmotive⟩ := hdrawn source
      obtain ⟨others, last, hothers, hcount, hmotives⟩ := ih next
      refine ⟨v :: others, last, ?_, by simp [hcount], ?_⟩
      · rw [List.replicate_succ, List.mapM_cons]
        exact Attempt.perform_bind_ok.mpr ⟨v, next, hv,
          Attempt.perform_bind_ok.mpr ⟨others, last, hothers, rfl⟩⟩
      · intro w hw
        rcases List.mem_cons.mp hw with rfl | hw
        · exact hmotive
        · exact hmotives w hw

private theorem exists_starting_of_drawn {g : Graph α} {debug : Bool}
    (motive : Vertex Float → Prop)
    (hdrawn : ∀ source, ∃ v next,
      Attempt.perform (Vertex.drawn g.dimension debug) source =
        (.ok v, next) ∧ motive v)
    {seed : Option Int} {source : Twister}
    (hseed : Twister.seeded seed = .ok source) :
    ∃ vertices,
      g.startingVertices debug seed = .ok vertices ∧ vertices.size = g.size ∧
      ∀ v ∈ vertices, motive v := by
  obtain ⟨vertices, next, hvertices, hcount, hmotive⟩ :=
    exists_drawn_all motive hdrawn g.size source
  refine ⟨vertices.toArray, ?_, by simpa using hcount, by simpa using hmotive⟩
  have hanswer : (Attempt.perform ((List.replicate g.size ()).mapM fun _ =>
      Vertex.drawn g.dimension debug) source).1.bind
      (fun all => .ok all.toArray) = .ok vertices.toArray := by
    rw [hvertices]
    rfl
  rw [startingVertices, hseed]
  exact hanswer

/-- With a dimension that is not negative and an accepted seed there are
starting vertices, one for each identifier. -/
theorem exists_starting {g : Graph α} (hdimension : 0 ≤ g.dimension)
    (debug : Bool) {seed : Option Int} {source : Twister}
    (hseed : Twister.seeded seed = .ok source) :
    ∃ vertices,
      g.startingVertices debug seed = .ok vertices ∧ vertices.size = g.size ∧
      ∀ v ∈ vertices, v.latent.length = g.dimension.toNat :=
  exists_starting_of_drawn _ (exists_drawn hdimension debug) hseed

/-- When debugging all vertices start alike. -/
theorem exists_starting_debug {g : Graph α} (hdimension : 0 ≤ g.dimension)
    {seed : Option Int} {source : Twister}
    (hseed : Twister.seeded seed = .ok source) :
    ∃ vertices,
      g.startingVertices true seed = .ok vertices ∧ vertices.size = g.size ∧
      ∀ v ∈ vertices, v = plainVertex g.dimension :=
  exists_starting_of_drawn _ (exists_drawn_debug hdimension) hseed

/-- The starting vertices depend on the number of vertices and the dimension
only. -/
theorem startingVertices_congr {g h : Graph α} (hsize : g.size = h.size)
    (hdimension : g.dimension = h.dimension) (debug : Bool)
    (seed : Option Int) :
    g.startingVertices debug seed = h.startingVertices debug seed := by
  rw [startingVertices, startingVertices, hsize, hdimension]

/-! ## Building -/

theorem sharedIds_eq_nil {rows : List (Rating α)}
    (h : ∀ q ∈ rows, ∀ r ∈ rows, q.source ≠ r.target) :
    sharedIds rows = [] := by
  have hnone : (places (rows.map (·.source))).toList.filter (fun id =>
      (placeOf? (places (rows.map (·.target))) id.toInt).isSome) = [] := by
    rw [List.filter_eq_nil_iff]
    intro id hid hfound
    obtain ⟨q, hq, rfl⟩ :=
      List.mem_map.mp (mem_places.mp (Array.mem_toList_iff.mp hid))
    obtain ⟨r, hr, htarget⟩ :=
      List.mem_map.mp (isSome_placeOf?_places.mp hfound)
    exact h q hq r hr htarget.symm
  rw [sharedIds, hnone]
  rfl

/-- A table without shared identifiers and with known roles only has a graph
with starting vertices. -/
theorem ofRatings_gives {rows : List (Rating Float)} {dimension : Int}
    {debug : Bool} {seed : Option Int} {vertices : Array (Vertex Float)}
    (hsides : ∀ q ∈ rows, ∀ r ∈ rows, q.source ≠ r.target)
    (hroles : ∀ r ∈ rows, r.role.isKnown = true)
    (hvertices : (graphOf rows dimension).startingVertices debug seed =
      .ok vertices) :
    (ofRatings rows dimension debug seed).Gives
      (graphOf rows dimension, vertices) := by
  have hknown : rows.find? (fun r => !r.role.isKnown) = none := by
    rw [List.find?_eq_none]
    intro r hr
    simp [hroles r hr]
  rw [ofRatings, sharedIds_eq_nil hsides, hknown]
  exact (Attempt.gives_lift (ofRows_eq rows dimension)).bind
    ((Attempt.gives_lift hvertices).bind
      ((Attempt.gives_tell _).bind (Attempt.gives_pure _)))

/-- A graph that is built from a table is the graph of that table. -/
theorem ofRatings_ok {rows : List (Rating Float)} {dimension : Int}
    {debug : Bool} {seed : Option Int} {g : Graph Float}
    {start : Array (Vertex Float)} {lines : List String}
    (h : (ofRatings rows dimension debug seed).perform [] =
      (.ok (g, start), lines)) :
    g = graphOf rows dimension ∧ g.startingVertices debug seed = .ok start := by
  rw [ofRatings] at h
  split at h
  · split at h
    · cases h
    · obtain ⟨g', _, hgraph, h⟩ := Attempt.perform_bind_ok.mp h
      rw [Attempt.perform_lift, ofRows_eq, Prod.mk.injEq,
        Except.ok.injEq] at hgraph
      obtain ⟨vertices, hvertices, h⟩ := Attempt.perform_lift_bind_ok.mp h
      obtain ⟨_, _, -, h⟩ := Attempt.perform_bind_ok.mp h
      rw [Attempt.perform_pure, Prod.mk.injEq, Except.ok.injEq,
        Prod.mk.injEq] at h
      obtain ⟨⟨rfl, rfl⟩, -⟩ := h
      exact ⟨hgraph.1.symm, hvertices⟩
  · cases h

end RatingFactors.Graph
