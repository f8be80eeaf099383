import RatingFactors.Proofs.Graph.Columns
import RatingFactors.Proofs.Graph.Rows
import RatingFactors.Proofs.Ratings.Moving

/-!
# The two sides of a table

Moving columns keeps them apart from the rows as long as their numbers leave
room for it: the largest identifier is the only one that does not come out below
zero.  A table has a graph exactly if no identifier stands on both sides, and in
its graph the degrees of a vertex tell the side of its identifier, so no vertex
has edges in both directions.

## Main definitions

* `Graph.OnBothSides` — a row of one rating and a column of another.
* `Graph.InOrder` — a table with nothing wrong in it but shared identifiers.

## Main results

* `moved_and_back_iff` — which identifiers are moved below zero and back.
* `mem_shared`, `pairwise_shared` — the shared identifiers, increasing.
* `outDegree_pos_iff`, `inDegree_pos_iff` — degrees tell the side.
* `sides_apart` — when a table has a graph, and the two sides of it.
-/

namespace RatingFactors

/-! ## Moved numbers -/

namespace Ratings

/-- The largest identifier wraps around twice and is moved to itself. -/
private theorem toInt_movedId_max {t : Int64} (h : t.toInt = 2 ^ 63 - 1) :
    (movedId t).toInt = 2 ^ 63 - 1 := by
  have htwo : (2 : Int64).toInt = 2 := rfl
  rw [movedId, Int64.toInt_neg, Int64.toInt_add, htwo, h]
  rfl

/-- An identifier is moved below zero, and back to where it was, unless it is
the largest one. -/
theorem moved_and_back_iff {t : Int64} (hlow : 0 ≤ t.toInt) :
    ((movedId t).toInt ≤ -2 ∧
        Evaluation.unmovedId (movedId t).toInt = t.toInt) ↔
      t.toInt ≤ 2 ^ 63 - 2 := by
  constructor
  · rintro ⟨hbelow, -⟩
    have hbound : t.toInt < 2 ^ 63 := Int64.toInt_lt t
    have hmax : t.toInt ≠ 2 ^ 63 - 1 := by
      intro hmax
      have := toInt_movedId_max hmax
      omega
    omega
  · intro hhigh
    refine ⟨?_, unmovedId_movedId hlow hhigh⟩
    rw [toInt_movedId hlow hhigh]
    omega

/-- Identifiers that are numbered from zero and leave room for being moved. -/
def LeavesRoom {α : Type} (rows : List (Rating α)) : Prop :=
  ∀ r ∈ rows,
    0 ≤ r.source.toInt ∧ 0 ≤ r.target.toInt ∧ r.target.toInt ≤ 2 ^ 63 - 2

end Ratings

namespace Graph

open Ratings

variable {α : Type}

/-! ## Identifiers on both sides -/

/-- The identifier is the row of one rating and the column of another. -/
def OnBothSides (rows : List (Rating α)) (id : Int64) : Prop :=
  (∃ q ∈ rows, q.source = id) ∧ ∃ r ∈ rows, r.target = id

/-- The identifiers on both sides, as identifiers. -/
def shared (rows : List (Rating α)) : List Int64 :=
  (places (rows.map (·.source))).toList.filter fun id =>
    (placeOf? (places (rows.map (·.target))) id.toInt).isSome

private theorem sharedIds_eq (rows : List (Rating α)) :
    sharedIds rows = (shared rows).map Int64.toInt :=
  rfl

theorem mem_shared {rows : List (Rating α)} {id : Int64} :
    id ∈ shared rows ↔ OnBothSides rows id := by
  rw [shared, List.mem_filter, isSome_placeOf?_places, Array.mem_toList_iff,
    mem_places, List.mem_map, List.mem_map, OnBothSides]

theorem pairwise_shared (rows : List (Rating α)) :
    (shared rows).Pairwise (· < ·) :=
  (pairwise_places _).filter _

private theorem nodup_shared (rows : List (Rating α)) : (shared rows).Nodup :=
  (pairwise_shared rows).imp fun h => Int64.ne_of_lt h

/-- The first of the shared identifiers is the least. -/
theorem eq_of_head_of_least {rows : List (Rating α)} {first least : Int64}
    (hfirst : (shared rows).head? = some first)
    (hleast : OnBothSides rows least)
    (h : ∀ id, OnBothSides rows id → least ≤ id) : first = least := by
  obtain ⟨others, hshared⟩ := List.head?_eq_some_iff.mp hfirst
  have hpairwise := pairwise_shared rows
  have hmem := mem_shared.mpr hleast
  have hle := h first (mem_shared.mp (List.mem_of_head? hfirst))
  rw [hshared] at hpairwise hmem
  rcases List.mem_cons.mp hmem with hsame | hlater
  · exact hsame.symm
  · exact absurd (Int64.lt_of_lt_of_le
      ((List.pairwise_cons.mp hpairwise).1 least hlater) hle) Int64.lt_irrefl

/-- Without an identifier on both sides nothing is shared. -/
theorem shared_eq_nil_iff {rows : List (Rating α)} :
    shared rows = [] ↔ ¬ ∃ id, OnBothSides rows id := by
  rw [List.eq_nil_iff_forall_not_mem, not_exists]
  exact forall_congr' fun id => not_congr mem_shared

/-- After columns are moved nothing is shared. -/
theorem not_onBothSides_of_moved {rows : List (Rating α)}
    (h : LeavesRoom rows) : ¬ ∃ id, OnBothSides (moveColumns rows) id := by
  rintro ⟨id, ⟨q, hq, hsource⟩, ⟨r, hr, htarget⟩⟩
  exact source_ne_target_of_moved (fun r hr => (h r hr).1)
    (fun r hr => (h r hr).2) q hq r hr (hsource.trans htarget.symm)

/-! ## Degrees and sides -/

section Degrees

variable [Scalar α]

private theorem records_graphOf (rows : List (Rating α)) (dimension : Int) :
    (graphOf rows dimension).Records (rows.map (·.source))
      (rows.map (·.target)) := by
  obtain ⟨g, hg, hrecords⟩ := @records_ofColumns _ _ (rows.map (·.source))
    (rows.map (·.target)) (rows.map (·.value)) (rows.map (·.role)) dimension
    (by simp) (by simp) (by simp)
  exact Except.ok.inj ((ofRows_eq rows dimension).symm.trans hg) ▸ hrecords

theorem faithful_graphOf (rows : List (Rating α)) (dimension : Int) :
    (graphOf rows dimension).Faithful :=
  faithful_ofColumns (ofRows_eq rows dimension)

/-- Different vertices carry different identifiers. -/
theorem Faithful.idAt_inj {g : Graph α} (hg : g.Faithful) {v w : Nat}
    (hv : v < g.size) (hw : w < g.size) (h : g.idAt v = g.idAt w) : v = w := by
  have hplace := hg.placeOf_idAt v hv
  rw [h, hg.placeOf_idAt w hw, Except.ok.injEq] at hplace
  exact hplace.symm

/-- An edge has its end at a vertex if and only if the column of such ends holds
the vertex's identifier. -/
theorem Faithful.exists_end_iff {g : Graph α} (hg : g.Faithful)
    {column : List Int64} {ending : Nat → Nat}
    (hcount : g.edgeCount = column.length)
    (hend : ∀ n < g.edgeCount, ending n < g.size ∧
      column[n]?.map Int64.toInt = some (g.idAt (ending n)))
    {v : Nat} (hv : v < g.size) :
    (∃ n < g.edgeCount, ending n = v) ↔ ∃ id ∈ column, id.toInt = g.idAt v := by
  constructor
  · rintro ⟨n, hn, rfl⟩
    obtain ⟨id, hid, hsame⟩ := Option.map_eq_some_iff.mp (hend n hn).2
    exact ⟨id, List.mem_of_getElem? hid, hsame⟩
  · rintro ⟨id, hid, hsame⟩
    obtain ⟨n, hn, rfl⟩ := List.mem_iff_getElem.mp hid
    have hn' : n < g.edgeCount := hcount ▸ hn
    refine ⟨n, hn', hg.idAt_inj (hend n hn').1 hv ?_⟩
    have hcarries := (hend n hn').2
    rw [List.getElem?_eq_getElem hn, Option.map_some,
      Option.some.injEq] at hcarries
    exact hcarries.symm.trans hsame

variable {rows : List (Rating α)} {dimension : Int} {v : Nat}

/-- Edges leave the vertices of the rows. -/
theorem outDegree_pos_iff (hv : v < (graphOf rows dimension).size) :
    0 < (graphOf rows dimension).outDegree v ↔
      ∃ r ∈ rows, r.source.toInt = (graphOf rows dimension).idAt v := by
  have hfaithful := faithful_graphOf rows dimension
  have hrecords := records_graphOf rows dimension
  refine (hfaithful.isRow_iff hv).trans ((hfaithful.exists_end_iff
    hrecords.edgeCount_eq hrecords.source hv).trans ?_)
  simp only [List.mem_map, exists_exists_and_eq_and]

/-- Edges enter the vertices of the columns. -/
theorem inDegree_pos_iff (hv : v < (graphOf rows dimension).size) :
    0 < (graphOf rows dimension).inDegree v ↔
      ∃ r ∈ rows, r.target.toInt = (graphOf rows dimension).idAt v := by
  have hfaithful := faithful_graphOf rows dimension
  have hrecords := records_graphOf rows dimension
  have hcount : (graphOf rows dimension).edgeCount =
      (rows.map (·.target)).length := by
    rw [hrecords.edgeCount_eq, List.length_map, List.length_map]
  refine (hfaithful.isColumn_iff hv).trans
    ((hfaithful.exists_end_iff hcount hrecords.target hv).trans ?_)
  simp only [List.mem_map, exists_exists_and_eq_and]

/-- Every vertex is on some side. -/
theorem degree_pos (hv : v < (graphOf rows dimension).size) :
    0 < (graphOf rows dimension).outDegree v ∨
    0 < (graphOf rows dimension).inDegree v := by
  rw [outDegree_pos_iff hv, inDegree_pos_iff hv]
  have hv' : v < (idsOf rows).size := hv
  have hget : (graphOf rows dimension).idAt v = (idsOf rows)[v].toInt := by
    rw [idAt, Array.getD_eq_getD_getElem?]
    exact congrArg (fun id => (Option.getD id 0).toInt)
      (Array.getElem?_eq_getElem hv')
  rw [hget]
  obtain ⟨r, hr, hsource | htarget⟩ := mem_idsOf.mp (Array.getElem_mem hv')
  · exact .inl ⟨r, hr, congrArg Int64.toInt hsource⟩
  · exact .inr ⟨r, hr, congrArg Int64.toInt htarget⟩

/-- A vertex without edges in both directions. -/
def OneSided (g : Graph α) (v : Nat) : Prop :=
  (g.inDegree v = 0 ∧ 0 < g.outDegree v) ∨
    (g.outDegree v = 0 ∧ 0 < g.inDegree v)

private theorem oneSided_of_apart (h : ¬ ∃ id, OnBothSides rows id)
    (hv : v < (graphOf rows dimension).size) :
    (graphOf rows dimension).OneSided v := by
  have hnot : ¬ (0 < (graphOf rows dimension).outDegree v ∧
      0 < (graphOf rows dimension).inDegree v) := by
    rw [outDegree_pos_iff hv, inDegree_pos_iff hv]
    rintro ⟨⟨q, hq, hsource⟩, ⟨r, hr, htarget⟩⟩
    exact h ⟨q.source, ⟨q, hq, rfl⟩, r, hr,
      Int64.toInt_inj.mp (htarget.trans hsource.symm)⟩
  have hsome := degree_pos hv
  unfold OneSided
  omega

end Degrees

/-- Where all vertices are on one side, rows and columns add up. -/
theorem rowCount_add_columnCount {g : Graph α}
    (h : ∀ v < g.size, g.OneSided v) : g.rowCount + g.columnCount = g.size := by
  have hcolumns : g.columnCount = (List.range g.size).countP fun v =>
      !(decide (0 < g.outDegree v) && decide (g.inDegree v = 0)) := by
    refine List.countP_congr fun v hv => ?_
    have hside := h v (List.mem_range.mp hv)
    unfold OneSided at hside
    simp only [Bool.and_eq_true, Bool.not_eq_true', Bool.and_eq_false_iff,
      decide_eq_true_eq, decide_eq_false_iff_not]
    omega
  rw [rowCount, hcolumns]
  have hall := List.length_eq_countP_add_countP
    (fun v => decide (0 < g.outDegree v) && decide (g.inDegree v = 0))
      (l := List.range g.size)
  rw [List.length_range] at hall
  simpa using hall.symm

/-! ## Building -/

/-- The line that is printed when a graph is built. -/
def sizeLine (vertices rows columns edges : Nat) : String :=
  s!"Построен bipartite граф: {vertices} вершин "
    ++ s!"({rows} строк, {columns} колонок), {edges} ребер"

/-- A table, a dimension and a seed with nothing wrong in them, shared
identifiers apart. -/
structure InOrder (rows : List (Rating α)) (dimension : Int)
    (seed : Option Int) : Prop where
  known : ∀ r ∈ rows, r.role.isKnown = true
  dimension : rows = [] ∨ 0 ≤ dimension
  seed : ∀ n ∈ seed, 0 ≤ n ∧ n < 2 ^ 32

private theorem inOrder_moveColumns {rows : List (Rating α)} {dimension : Int}
    {seed : Option Int} (h : InOrder rows dimension seed) :
    InOrder (moveColumns rows) dimension seed where
  known := by
    intro r hr
    obtain ⟨q, hq, rfl⟩ := mem_moveColumns.mp hr
    exact h.known q hq
  dimension := h.dimension.imp_left fun hnil => by rw [hnil]; rfl
  seed := h.seed

theorem InOrder.exists_starting {rows : List (Rating α)} {dimension : Int}
    {seed : Option Int} (h : InOrder rows dimension seed) (debug : Bool) :
    ∃ vertices,
      (graphOf rows dimension).startingVertices debug seed = .ok vertices := by
  obtain ⟨source, hsource⟩ : ∃ source, Twister.seeded seed = .ok source := by
    cases seed with
    | none => exact ⟨_, rfl⟩
    | some n => exact Twister.exists_seeded (h.seed n rfl).1 (h.seed n rfl).2
  rcases h.dimension with rfl | hdimension
  · -- without vertices nothing is drawn, so the dimension does not matter
    have hnone : (graphOf ([] : List (Rating α)) dimension).size = 0 := by
      simp [size, graphOf, idsOf, places, dropRepeats]
    rw [startingVertices, hsource, hnone]
    exact ⟨#[], rfl⟩
  · obtain ⟨vertices, hvertices, -⟩ :=
      Graph.exists_starting (g := graphOf rows dimension) hdimension debug
        hsource
    exact ⟨vertices, hvertices⟩

variable {rows : List (Rating Float)} {dimension : Int} {debug : Bool}
  {seed : Option Int}

/-- A table with shared identifiers is turned down; their number and the least
of them are named. -/
theorem ofRatings_of_shared (h : ∃ id, OnBothSides rows id)
    (printed : List String) :
    ∃ least, (shared rows).head? = some least ∧
      (ofRatings rows dimension debug seed).perform printed =
        (.error (.sharedIdentifiers (shared rows).length least.toInt),
          printed) := by
  obtain ⟨least, others, hshared⟩ := List.exists_cons_of_ne_nil
    (fun hnil => shared_eq_nil_iff.mp hnil h)
  refine ⟨least, by rw [hshared, List.head?_cons], ?_⟩
  rw [ofRatings, sharedIds_eq, hshared, List.map_cons, List.length_cons]
  simp only [List.length_map]
  rfl

/-- A table in order without shared identifiers has a graph. -/
theorem ofRatings_of_apart (hrows : InOrder rows dimension seed)
    (h : ¬ ∃ id, OnBothSides rows id) :
    ∃ built lines,
      (ofRatings rows dimension debug seed).perform [] =
        (.ok built, lines) := by
  obtain ⟨vertices, hvertices⟩ := hrows.exists_starting debug
  have hsides : ∀ q ∈ rows, ∀ r ∈ rows, q.source ≠ r.target :=
    fun q hq r hr hsame => h ⟨r.target, ⟨q, hq, hsame⟩, r, hr, rfl⟩
  obtain ⟨lines, hlines⟩ := ofRatings_gives hsides hrows.known hvertices []
  exact ⟨_, lines, hlines⟩

/-- Whatever table a graph is built from, nothing in it is shared, and the size
of the graph is printed. -/
theorem ofRatings_ok_apart {g : Graph Float} {vertices : Array (Vertex Float)}
    {lines : List String}
    (h : (ofRatings rows dimension debug seed).perform [] =
      (.ok (g, vertices), lines)) :
    g = graphOf rows dimension ∧ (¬ ∃ id, OnBothSides rows id) ∧
      lines = [sizeLine g.size g.rowCount g.columnCount g.edgeCount] := by
  have hapart : ¬ ∃ id, OnBothSides rows id := by
    intro hshared
    obtain ⟨least, -, hrefused⟩ := ofRatings_of_shared hshared []
    rw [hrefused] at h
    cases h
  refine ⟨(ofRatings_ok h).1, hapart, ?_⟩
  rw [ofRatings, sharedIds_eq, shared_eq_nil_iff.mpr hapart] at h
  cases hstranger : rows.find? fun r => !r.role.isKnown with
  | some r =>
      rw [hstranger] at h
      cases h
  | none =>
      rw [hstranger] at h
      obtain ⟨built, hbuilt, h⟩ := Attempt.perform_lift_bind_ok.mp h
      obtain ⟨start, -, h⟩ := Attempt.perform_lift_bind_ok.mp h
      obtain ⟨_, told, htold, h⟩ := Attempt.perform_bind_ok.mp h
      rw [Attempt.perform_pure, Prod.mk.injEq, Except.ok.injEq,
        Prod.mk.injEq] at h
      obtain ⟨⟨rfl, -⟩, rfl⟩ := h
      exact (Prod.mk.inj htold).2.symm

/-- The request is turned down: a check refuses it, or a value does not fit. -/
def TurnedDown {β : Type} (answer : Except Failure β) : Prop :=
  ∃ cause, answer = .error cause ∧ (cause.kind = .refused ∨ cause.kind = .unfit)

/-- A table in order is turned down exactly if something in it is shared. -/
theorem turnedDown_iff (h : InOrder rows dimension seed) :
    TurnedDown ((ofRatings rows dimension debug seed).perform []).1 ↔
      ∃ id, OnBothSides rows id := by
  constructor
  · rintro ⟨cause, hcause, -⟩
    by_contra hapart
    obtain ⟨built, lines, hbuilt⟩ := ofRatings_of_apart h hapart
    rw [hbuilt] at hcause
    cases hcause
  · intro hshared
    obtain ⟨least, -, hrefused⟩ := ofRatings_of_shared hshared []
    exact ⟨_, congrArg Prod.fst hrefused, .inl rfl⟩

/-- Moving columns takes the identifiers from zero up to the last but one, and
no others, below zero and back, and never two to one.  A table with such
identifiers and nothing else wrong has a graph once its columns are moved.  A
table in order is turned down exactly if some identifier is on both sides, with
their number and the least of them.  In a graph that is built the edges at a
vertex are those of its side, all in one direction, and the printed numbers of
rows and columns add up. -/
theorem sides_apart (rows : List (Rating Float)) (dimension : Int)
    (debug : Bool) (seed : Option Int) :
    (∀ t : Int64, 0 ≤ t.toInt →
      (((movedId t).toInt ≤ -2 ∧
          Evaluation.unmovedId (movedId t).toInt = t.toInt) ↔
        t.toInt ≤ 2 ^ 63 - 2)) ∧
      (∀ s t : Int64, movedId s = movedId t → s = t) ∧
      (InOrder rows dimension seed → LeavesRoom rows → ∃ built lines,
        (ofRatings (moveColumns rows) dimension debug seed).perform [] =
          (.ok built, lines)) ∧
      (InOrder rows dimension seed →
        (TurnedDown ((ofRatings rows dimension debug seed).perform []).1 ↔
          ∃ id, OnBothSides rows id) ∧
        ((∃ built lines,
            (ofRatings rows dimension debug seed).perform [] =
              (.ok built, lines)) ↔
          ¬ ∃ id, OnBothSides rows id)) ∧
      (∀ least, OnBothSides rows least →
        (∀ id, OnBothSides rows id → least ≤ id) →
        ∃ ids : List Int64, ids.Nodup ∧ (∀ id, id ∈ ids ↔ OnBothSides rows id) ∧
          (ofRatings rows dimension debug seed).perform [] =
            (.error (.sharedIdentifiers ids.length least.toInt), [])) ∧
      ∀ g vertices lines,
        (ofRatings rows dimension debug seed).perform [] =
          (.ok (g, vertices), lines) →
        (∀ v < g.size, g.OneSided v ∧
          (0 < g.outDegree v ↔ ∃ r ∈ rows, r.source.toInt = g.idAt v) ∧
          (0 < g.inDegree v ↔ ∃ r ∈ rows, r.target.toInt = g.idAt v)) ∧
        lines = [sizeLine g.size g.rowCount g.columnCount g.edgeCount] ∧
        g.rowCount + g.columnCount = g.size := by
  refine ⟨fun t hlow => moved_and_back_iff hlow, fun s t => movedId_inj.mp,
    fun hrows hroom =>
      ofRatings_of_apart (inOrder_moveColumns hrows)
        (not_onBothSides_of_moved hroom),
    fun hrows => ⟨turnedDown_iff hrows, ?_, ofRatings_of_apart hrows⟩, ?_, ?_⟩
  · rintro ⟨⟨g, vertices⟩, lines, hbuilt⟩
    exact (ofRatings_ok_apart hbuilt).2.1
  · intro least hleast hleastOf
    obtain ⟨first, hfirst, hrefused⟩ := ofRatings_of_shared ⟨least, hleast⟩ []
    have hsame : first = least := eq_of_head_of_least hfirst hleast hleastOf
    exact ⟨shared rows, nodup_shared rows, fun id => mem_shared,
      hsame ▸ hrefused⟩
  · intro g vertices lines hbuilt
    obtain ⟨rfl, hapart, hlines⟩ := ofRatings_ok_apart hbuilt
    have hsided : ∀ v < (graphOf rows dimension).size,
        (graphOf rows dimension).OneSided v :=
      fun v hv => oneSided_of_apart hapart hv
    exact ⟨fun v hv =>
        ⟨hsided v hv, outDegree_pos_iff hv, inDegree_pos_iff hv⟩,
      hlines, rowCount_add_columnCount hsided⟩

/-- Row 1 and column 1 are told apart by moving the columns, and the largest
identifier that leaves room for it is moved, too. -/
theorem sides_apart_sample :
    let rows : List (Rating Float) :=
      [⟨1, 1, 3.0, .train⟩, ⟨0, 9223372036854775806, 4.0, .predict⟩]
    InOrder rows 2 (some 7) ∧ LeavesRoom rows ∧ OnBothSides rows 1 ∧
      TurnedDown ((ofRatings rows 2 true (some 7)).perform []).1 ∧
      (movedId 9223372036854775806).toInt ≤ -2 ∧
      ∃ g vertices lines,
        (ofRatings (moveColumns rows) 2 true (some 7)).perform [] =
          (.ok (g, vertices), lines) ∧
        (∀ v < g.size, g.OneSided v) ∧ g.rowCount + g.columnCount = g.size := by
  intro rows
  have horder : InOrder rows 2 (some 7) :=
    ⟨by simp [rows, Role.isKnown], .inr (by decide), by simp⟩
  have hroom : LeavesRoom rows := by
    intro r hr
    rcases List.mem_cons.mp hr with rfl | hr
    · decide
    · obtain rfl := List.mem_singleton.mp hr
      decide
  have hshared : OnBothSides rows 1 :=
    ⟨⟨_, List.mem_cons_self, rfl⟩, _, List.mem_cons_self, rfl⟩
  obtain ⟨hmoved, -, hbuilt, hturned, -⟩ := sides_apart rows 2 true (some 7)
  obtain ⟨⟨g, vertices⟩, lines, hg⟩ := hbuilt horder hroom
  obtain ⟨-, -, -, -, -, hsides⟩ :=
    sides_apart (moveColumns rows) 2 true (some 7)
  obtain ⟨hsided, -, hcounts⟩ := hsides g vertices lines hg
  exact ⟨horder, hroom, hshared, (hturned horder).1.mpr ⟨1, hshared⟩,
    ((hmoved 9223372036854775806 (by decide)).mpr (by decide)).1, g, vertices,
    lines, hg, fun v hv => (hsided v hv).1, hcounts⟩

end Graph

end RatingFactors
