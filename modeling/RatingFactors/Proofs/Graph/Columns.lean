import Mathlib.Data.List.Nodup
import Mathlib.Data.List.Permutation
import RatingFactors.Proofs.Graph.Faithful

/-!
# Graphs of columns

A graph that is built from two columns of identifiers says of its edges exactly
what the columns say.  Nothing is asked of the columns but their lengths:
ratings may be repeated, an identifier may stand in both columns, and an edge
may end where it begins.

## Main definitions

* `Graph.Records` — the graph says what two columns of identifiers say.

## Main results

* `flatMap_fibers_perm` — lists of the edges at each end hold every edge once.
* `records_ofColumns` — the graph of two columns records them.
-/

namespace RatingFactors.Graph

/-- The edges with a given end, for all ends one after the other, are all edges,
each once. -/
theorem flatMap_fibers_perm {size count : Nat} {ending : Nat → Nat}
    (h : ∀ n < count, ending n < size) :
    ((List.range size).flatMap fun v =>
      (List.range count).filter fun n => ending n = v).Perm
        (List.range count) := by
  have hnodup : ((List.range size).flatMap fun v =>
      (List.range count).filter fun n => ending n = v).Nodup := by
    refine List.nodup_flatMap.mpr
      ⟨fun v _ => List.nodup_range.filter _, List.nodup_range.imp ?_⟩
    intro v w hne n hv hw
    rw [List.mem_filter, decide_eq_true_eq] at hv hw
    exact hne (hv.2.symm.trans hw.2)
  refine (List.perm_ext_iff_of_nodup hnodup List.nodup_range).mpr fun n => ?_
  rw [List.mem_flatMap]
  constructor
  · rintro ⟨v, -, hn⟩
    exact (List.mem_filter.mp hn).1
  · intro hn
    exact ⟨ending n, List.mem_range.mpr (h n (List.mem_range.mp hn)),
      List.mem_filter.mpr ⟨hn, decide_eq_true rfl⟩⟩

variable {α : Type} [Scalar α] {g : Graph α} {sources targets : List Int64}
  {values : List α} {roles : List Role} {dimension : Int}

/-- The graph says of its edges what two columns of identifiers say. -/
structure Records (g : Graph α) (sources targets : List Int64) : Prop where
  increasing : g.ids.toList.Pairwise (· < ·)
  mem_ids : ∀ id, id ∈ g.ids ↔ id ∈ sources ∨ id ∈ targets
  /-- An identifier that occurs is found, at a vertex that carries it. -/
  found : ∀ id : Int64, id ∈ sources ∨ id ∈ targets →
    ∃ v < g.size, g.placeOf id.toInt = .ok v ∧ g.idAt v = id.toInt
  /-- No other identifier is found. -/
  unknown : ∀ id : Int64, ¬ (id ∈ sources ∨ id ∈ targets) →
    g.placeOf id.toInt = .error (.unknownVertex id.toInt)
  edgeCount_eq : g.edgeCount = sources.length
  source : ∀ n < g.edgeCount, (g.edgeAt n).source < g.size ∧
    sources[n]?.map Int64.toInt = some (g.idAt (g.edgeAt n).source)
  target : ∀ n < g.edgeCount, (g.edgeAt n).target < g.size ∧
    targets[n]?.map Int64.toInt = some (g.idAt (g.edgeAt n).target)
  pairwise_out : ∀ v < g.size, (g.edgesOutOf v).Pairwise (· < ·)
  pairwise_in : ∀ v < g.size, (g.edgesInto v).Pairwise (· < ·)
  mem_out : ∀ v < g.size, ∀ n,
    n ∈ g.edgesOutOf v ↔ n < g.edgeCount ∧ (g.edgeAt n).source = v
  mem_in : ∀ v < g.size, ∀ n,
    n ∈ g.edgesInto v ↔ n < g.edgeCount ∧ (g.edgeAt n).target = v
  outDegree_eq : ∀ v, g.outDegree v = (g.edgesOutOf v).length
  inDegree_eq : ∀ v, g.inDegree v = (g.edgesInto v).length
  /-- Over all vertices every edge leaves once. -/
  out_perm : ((List.range g.size).flatMap g.edgesOutOf).Perm
    (List.range g.edgeCount)
  /-- Over all vertices every edge enters once. -/
  in_perm : ((List.range g.size).flatMap g.edgesInto).Perm
    (List.range g.edgeCount)
  incident_both : ∀ v, g.incident v .both = g.edgesInto v ++ g.edgesOutOf v
  /-- From either end of an edge between two vertices the other end is
  reached. -/
  opposite : ∀ n < g.edgeCount, sources[n]? ≠ targets[n]? →
    otherEnd (g.edgeAt n) (g.edgeAt n).source = (g.edgeAt n).target ∧
      otherEnd (g.edgeAt n) (g.edgeAt n).target = (g.edgeAt n).source

omit [Scalar α] in
/-- An identifier of a graph is looked up where it stands, and no other is. -/
private theorem placeOf_cases (h : g.ids.toList.Pairwise (· < ·)) (id : Int64) :
    (id ∈ g.ids ∧ ∃ v < g.size, g.placeOf id.toInt = .ok v ∧
        g.idAt v = id.toInt) ∨
      (id ∉ g.ids ∧
        g.placeOf id.toInt = .error (.unknownVertex id.toInt)) := by
  by_cases hid : id ∈ g.ids
  · obtain ⟨v, hplace, hget⟩ := placeOf?_of_mem h hid
    refine .inl ⟨hid, v, (Array.getElem?_eq_some_iff.mp hget).1, ?_, ?_⟩
    · rw [placeOf, hplace]
    · rw [idAt, Array.getD_eq_getD_getElem?, hget, Option.getD_some]
  · refine .inr ⟨hid, ?_⟩
    have hnone : placeOf? g.ids id.toInt = none :=
      Option.eq_none_iff_forall_ne_some.mpr fun _ hv => hid (mem_of_placeOf? hv)
    rw [placeOf, hnone]

/-- The ends of an edge carry the identifiers of its row. -/
theorem idAt_ofColumns
    (h : ofColumns sources targets values roles dimension = .ok g) {n : Nat}
    (hn : n < g.edgeCount) :
    sources[n]?.map Int64.toInt = some (g.idAt (g.edgeAt n).source) ∧
      targets[n]?.map Int64.toInt = some (g.idAt (g.edgeAt n).target) := by
  obtain ⟨-, hids, -, -, -⟩ := columns_of_ofColumns h
  obtain ⟨source, target, -, hs, ht, -, hsource, htarget, -⟩ :=
    edgeAt_ofColumns h hn
  have hsget := (place_of_mem_columns hids
    (List.mem_append_left targets (List.mem_of_getElem? hs))).2
  have htget := (place_of_mem_columns hids
    (List.mem_append_right sources (List.mem_of_getElem? ht))).2
  constructor
  · rw [hs, hsource, idAt, Array.getD_eq_getD_getElem?, hsget]
    rfl
  · rw [ht, htarget, idAt, Array.getD_eq_getD_getElem?, htget]
    rfl

omit [Scalar α] in
/-- From one end of an edge between two vertices the other end is reached. -/
theorem otherEnd_of_ne {e : Edge α} (h : e.source ≠ e.target) :
    otherEnd e e.source = e.target ∧ otherEnd e e.target = e.source :=
  ⟨if_pos rfl, if_neg (Ne.symm h)⟩

/-- Two columns of one length have a graph, and it records them. -/
theorem records_ofColumns (dimension : Int)
    (htargets : sources.length = targets.length)
    (hvalues : targets.length = values.length)
    (hroles : values.length = roles.length) :
    ∃ g, ofColumns sources targets values roles dimension = .ok g ∧
      g.Records sources targets := by
  obtain ⟨g, hg⟩ : ∃ g, ofColumns sources targets values roles dimension =
      .ok g := ⟨_, if_pos (by simp [htargets, hvalues, hroles])⟩
  obtain ⟨-, hids, hedges, -, -⟩ := columns_of_ofColumns hg
  have hfaithful := faithful_ofColumns hg
  have hincreasing : g.ids.toList.Pairwise (· < ·) := by
    rw [hids]
    exact pairwise_places _
  have hmem : ∀ id, id ∈ g.ids ↔ id ∈ sources ∨ id ∈ targets := by
    intro id
    rw [hids, mem_places, List.mem_append]
  have hpairwise : ∀ picks : Nat → Bool,
      ((List.range g.edgeCount).filter picks).Pairwise (· < ·) :=
    fun picks => List.pairwise_lt_range.filter picks
  refine ⟨g, hg, {
    increasing := hincreasing
    mem_ids := hmem
    found := fun id hid => ?_
    unknown := fun id hid => ?_
    edgeCount_eq := ?_
    source := fun n hn =>
      ⟨hfaithful.source_lt n hn, (idAt_ofColumns hg hn).1⟩
    target := fun n hn =>
      ⟨hfaithful.target_lt n hn, (idAt_ofColumns hg hn).2⟩
    pairwise_out := fun v hv => ?_
    pairwise_in := fun v hv => ?_
    mem_out := fun v hv n => hfaithful.mem_edgesOutOf hv
    mem_in := fun v hv n => hfaithful.mem_edgesInto hv
    outDegree_eq := fun v => rfl
    inDegree_eq := fun v => rfl
    out_perm := ?_
    in_perm := ?_
    incident_both := fun v => rfl
    opposite := fun n hn hne => otherEnd_of_ne fun hsame => hne ?_ }⟩
  · rcases placeOf_cases hincreasing id with ⟨-, hplace⟩ | ⟨hnot, -⟩
    · exact hplace
    · exact absurd ((hmem id).mpr hid) hnot
  · rcases placeOf_cases hincreasing id with ⟨hin, -⟩ | ⟨-, hplace⟩
    · exact absurd ((hmem id).mp hin) hid
    · exact hplace
  · rw [edgeCount, hedges]
    simp [htargets, hvalues, hroles]
  · rw [hfaithful.edgesOutOf_eq v hv]
    exact hpairwise _
  · rw [hfaithful.edgesInto_eq v hv]
    exact hpairwise _
  · refine .trans (.of_eq ?_) (flatMap_fibers_perm hfaithful.source_lt)
    exact List.flatMap_congr fun v hv =>
      hfaithful.edgesOutOf_eq v (List.mem_range.mp hv)
  · refine .trans (.of_eq ?_) (flatMap_fibers_perm hfaithful.target_lt)
    exact List.flatMap_congr fun v hv =>
      hfaithful.edgesInto_eq v (List.mem_range.mp hv)
  · obtain ⟨hs, ht⟩ := idAt_ofColumns hg hn
    rw [hsame, ← ht] at hs
    exact Option.map_injective (fun _ _ => Int64.toInt_inj.mp) hs

/-- Four ratings: one is repeated, one begins and ends at the same vertex, and
an identifier stands in both columns. -/
theorem records_ofColumns_sample :
    ∃ g : Graph Float,
      ofColumns [5, 5, -3, 5] [7, 5, 5, 7] [1.0, 2.0, 3.0, 4.0]
          [.train, .validate, .predict, .train] 2 = .ok g ∧
        g.Records [5, 5, -3, 5] [7, 5, 5, 7] ∧ g.ids = #[-3, 5, 7] ∧
        g.edgesOutOf 1 = [0, 1, 3] ∧ g.edgesInto 1 = [1, 2] := by
  obtain ⟨g, hg, hrecords⟩ := @records_ofColumns Float _ [5, 5, -3, 5]
    [7, 5, 5, 7] [1.0, 2.0, 3.0, 4.0] [.train, .validate, .predict, .train]
    2 rfl rfl rfl
  obtain ⟨-, hids, -, hincoming, houtgoing⟩ := columns_of_ofColumns hg
  have hids : g.ids = #[-3, 5, 7] := hids.trans (by cbv)
  refine ⟨g, hg, hrecords, hids, ?_, ?_⟩
  · rw [edgesOutOf, houtgoing, size, hids]
    decide +kernel
  · rw [edgesInto, hincoming, size, hids]
    decide +kernel

end RatingFactors.Graph
