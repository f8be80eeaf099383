import RatingFactors.Proofs.Graph.Faithful

/-!
# Graphs that are alike for learning

Two graphs are alike if they have the same vertices, each on the same side, and
the same training edges in the same order.  Their held-out edges may differ in
everything: their number, their ends, their ratings, and how they lie between
the training edges.  So training edges have other numbers in the two graphs, but
the edges themselves, read in the order of their numbers, are the same at every
vertex.

## Main definitions

* `Graph.training` — the training edges.
* `Graph.Alike` — graphs that differ in held-out edges only.

## Main results

* `Alike.map_trainingAt` — the same training edges at every vertex.
-/

namespace RatingFactors

namespace Graph

variable {α : Type} [Scalar α] {g g' : Graph α}

/-- The training edges, by increasing number. -/
def training (g : Graph α) : List (Edge α) :=
  g.edges.toList.filter fun e => e.role = .train

/-- Two graphs that differ in their held-out edges only. -/
structure Alike (g g' : Graph α) : Prop where
  ids : g'.ids = g.ids
  row : ∀ v, g'.IsRow v ↔ g.IsRow v
  column : ∀ v, g'.IsColumn v ↔ g.IsColumn v
  training : g'.training = g.training

omit [Scalar α] in
theorem Alike.size (h : g.Alike g') : g'.size = g.size :=
  congrArg Array.size h.ids

theorem map_edgeAt_range (g : Graph α) :
    (List.range g.edgeCount).map g.edgeAt = g.edges.toList := by
  refine List.ext_getElem (by simp [edgeCount]) fun n hn hn' => ?_
  have hlt : n < g.edges.size := by simpa using hn'
  simp [edgeAt, hlt]

/-- The training edges at a vertex: those that enter it come first. -/
theorem Faithful.map_trainingAt (hg : g.Faithful) {v : Nat}
    (hv : v < g.size) :
    (g.trainingAt v).map g.edgeAt =
      (g.training.filter fun e => e.target = v) ++
        g.training.filter fun e => e.source = v := by
  have hside : ∀ picks : Edge α → Bool,
      (((List.range g.edgeCount).filter fun n => picks (g.edgeAt n)).filter
        fun n => (g.edgeAt n).role = .train).map g.edgeAt =
      g.training.filter picks := by
    intro picks
    rw [training, ← map_edgeAt_range, List.filter_map, List.filter_map,
      List.filter_filter, List.filter_filter]
    congr 1
    exact List.filter_congr fun n _ => Bool.and_comm _ _
  rw [trainingAt, incident, List.filter_append, List.map_append,
    hg.edgesInto_eq v hv, hg.edgesOutOf_eq v hv,
    hside fun e => e.target = v, hside fun e => e.source = v]

/-- Every vertex has the same training edges in graphs that are alike. -/
theorem Alike.map_trainingAt (h : g.Alike g') (hg : g.Faithful)
    (hg' : g'.Faithful) {v : Nat} (hv : v < g.size) :
    (g'.trainingAt v).map g'.edgeAt = (g.trainingAt v).map g.edgeAt := by
  rw [hg.map_trainingAt hv, hg'.map_trainingAt (h.size.symm ▸ hv),
    h.training]

end Graph

end RatingFactors
