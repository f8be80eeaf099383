import RatingFactors.Graph.Basic
import RatingFactors.Proofs.Graph.Places

/-!
# Faithful and bipartite graphs

What the phases of learning rely on in a graph: the lists of edges at a vertex
are the edges whose ends name it, in increasing order of their numbers, and an
identifier leads back to the place that carries it.  A bipartite graph has in
addition no vertex that one edge leaves and another enters, and only the three
known roles.

Both are facts about the value, not about how it was made, so they survive a
change of the rating or the role on an edge.  `faithful_ofColumns` and
`bipartite_ofColumns` show that every graph built from columns has them.

## Main definitions

* `Graph.Faithful`, `Graph.Bipartite`.
* `Graph.trainingAt` — the training edges at a vertex.
* `Graph.Meets` — a training edge joins two vertices.
-/

namespace RatingFactors

/-- Each place lists the numbers of the edges that end there, increasing. -/
private theorem getElem?_foldr_attach (count place : Nat)
    (numbered : List (Nat × Nat)) (hplace : place < count) :
    (numbered.foldr (fun (place, edge) lists => attach lists place edge)
      (Array.replicate count []))[place]? =
      some ((numbered.filter (·.1 = place)).map (·.2)) := by
  induction numbered with
  | nil => simp [hplace]
  | cons head rest ih =>
      obtain ⟨spot, edge⟩ := head
      rw [List.foldr_cons]
      unfold attach at ih ⊢
      rw [Array.getElem?_modify, ih]
      by_cases hhead : spot = place
      · simp [hhead]
      · simp [hhead]

/-- The places in a numbered list at which an element stands. -/
private theorem filter_zipIdx (ends : List Nat) (place start : Nat) :
    ((ends.zipIdx start).filter (·.1 = place)).map (·.2) =
      (List.range' start ends.length).filter
        fun n => ends[n - start]? = some place := by
  induction ends generalizing start with
  | nil => rfl
  | cons head rest ih =>
      have hshift :
          (List.range' (start + 1) rest.length).filter
              (fun n => (head :: rest)[n - start]? = some place) =
            (List.range' (start + 1) rest.length).filter
              (fun n => rest[n - (start + 1)]? = some place) := by
        apply List.filter_congr
        intro n hn
        have hle : start + 1 ≤ n := (List.mem_range'_1.mp hn).1
        rw [show n - start = (n - (start + 1)) + 1 by omega,
          List.getElem?_cons_succ]
      rw [List.zipIdx_cons, List.length_cons, List.range'_succ,
        List.filter_cons, List.filter_cons, hshift, ← ih (start + 1)]
      by_cases hhead : head = place
      · simp [hhead]
      · simp [hhead]

theorem getElem?_incidence {count place : Nat} (ends : List Nat)
    (hplace : place < count) :
    (incidence count ends)[place]? =
      some ((List.range ends.length).filter
        fun n => ends[n]? = some place) := by
  rw [incidence, getElem?_foldr_attach count place _ hplace,
    filter_zipIdx ends place 0, List.range_eq_range']
  rfl

namespace Graph

variable {α : Type} [Scalar α]

/-- The edge with a number, as the phases of a program see it. -/
def edgeAt (g : Graph α) (number : Nat) : Edge α :=
  g.edges.getD number ⟨0, 0, Scalar.zero, .predict⟩

/-- The incidence lists and the identifiers of a graph agree with its
edges. -/
structure Faithful (g : Graph α) : Prop where
  source_lt : ∀ n < g.edgeCount, (g.edgeAt n).source < g.size
  target_lt : ∀ n < g.edgeCount, (g.edgeAt n).target < g.size
  edgesInto_eq : ∀ v < g.size, g.edgesInto v =
    (List.range g.edgeCount).filter fun n => (g.edgeAt n).target = v
  edgesOutOf_eq : ∀ v < g.size, g.edgesOutOf v =
    (List.range g.edgeCount).filter fun n => (g.edgeAt n).source = v
  placeOf_idAt : ∀ v < g.size, g.placeOf (g.idAt v) = .ok v

/-- No vertex is the source of one edge and the target of another, and every
role is one of the three known ones. -/
structure Bipartite (g : Graph α) : Prop extends g.Faithful where
  source_ne_target : ∀ m < g.edgeCount, ∀ n < g.edgeCount,
    (g.edgeAt m).source ≠ (g.edgeAt n).target
  known : ∀ n < g.edgeCount, (g.edgeAt n).role.isKnown = true

/-- The training edges at a vertex, in the order in which a program goes
through them. -/
def trainingAt (g : Graph α) (v : Nat) : List Nat :=
  (g.incident v .both).filter fun n => (g.edgeAt n).role = .train

/-! ## Reading a faithful graph -/

variable {g : Graph α}

theorem Faithful.mem_edgesInto (hg : g.Faithful) {v n : Nat}
    (hv : v < g.size) :
    n ∈ g.edgesInto v ↔ n < g.edgeCount ∧ (g.edgeAt n).target = v := by
  simp [hg.edgesInto_eq v hv]

theorem Faithful.mem_edgesOutOf (hg : g.Faithful) {v n : Nat}
    (hv : v < g.size) :
    n ∈ g.edgesOutOf v ↔ n < g.edgeCount ∧ (g.edgeAt n).source = v := by
  simp [hg.edgesOutOf_eq v hv]

theorem Faithful.mem_incident_both (hg : g.Faithful) {v n : Nat}
    (hv : v < g.size) :
    n ∈ g.incident v .both ↔ n < g.edgeCount ∧
      ((g.edgeAt n).source = v ∨ (g.edgeAt n).target = v) := by
  rw [incident, List.mem_append, hg.mem_edgesInto hv, hg.mem_edgesOutOf hv]
  constructor
  · rintro (⟨hn, h⟩ | ⟨hn, h⟩)
    · exact ⟨hn, .inr h⟩
    · exact ⟨hn, .inl h⟩
  · rintro ⟨hn, h | h⟩
    · exact .inr ⟨hn, h⟩
    · exact .inl ⟨hn, h⟩

theorem Faithful.mem_trainingAt (hg : g.Faithful) {v n : Nat}
    (hv : v < g.size) :
    n ∈ g.trainingAt v ↔ n < g.edgeCount ∧ (g.edgeAt n).role = .train ∧
      ((g.edgeAt n).source = v ∨ (g.edgeAt n).target = v) := by
  rw [trainingAt, List.mem_filter, hg.mem_incident_both hv, decide_eq_true_eq]
  constructor
  · rintro ⟨⟨hn, hends⟩, hrole⟩
    exact ⟨hn, hrole, hends⟩
  · rintro ⟨hn, hrole, hends⟩
    exact ⟨⟨hn, hends⟩, hrole⟩

theorem Faithful.otherEnd_lt (hg : g.Faithful) {v n : Nat}
    (hn : n < g.edgeCount) : otherEnd (g.edgeAt n) v < g.size := by
  unfold otherEnd
  split
  · exact hg.target_lt n hn
  · exact hg.source_lt n hn

/-- A row: some edge leaves it. -/
def IsRow (g : Graph α) (v : Nat) : Prop :=
  0 < g.outDegree v

/-- A column: some edge enters it. -/
def IsColumn (g : Graph α) (v : Nat) : Prop :=
  0 < g.inDegree v

instance (g : Graph α) (v : Nat) : Decidable (g.IsRow v) :=
  inferInstanceAs (Decidable (0 < g.outDegree v))

instance (g : Graph α) (v : Nat) : Decidable (g.IsColumn v) :=
  inferInstanceAs (Decidable (0 < g.inDegree v))

theorem Faithful.isRow_iff (hg : g.Faithful) {v : Nat} (hv : v < g.size) :
    g.IsRow v ↔ ∃ n < g.edgeCount, (g.edgeAt n).source = v := by
  rw [IsRow, outDegree, List.length_pos_iff_exists_mem]
  apply exists_congr
  intro n
  exact hg.mem_edgesOutOf hv

theorem Faithful.isColumn_iff (hg : g.Faithful) {v : Nat}
    (hv : v < g.size) :
    g.IsColumn v ↔ ∃ n < g.edgeCount, (g.edgeAt n).target = v := by
  rw [IsColumn, inDegree, List.length_pos_iff_exists_mem]
  apply exists_congr
  intro n
  exact hg.mem_edgesInto hv

theorem Bipartite.not_isColumn_of_isRow (hg : g.Bipartite) {v : Nat}
    (hv : v < g.size) (h : g.IsRow v) : ¬ g.IsColumn v := by
  intro hcolumn
  obtain ⟨m, hm, hsource⟩ := (hg.isRow_iff hv).mp h
  obtain ⟨n, hn, htarget⟩ := (hg.isColumn_iff hv).mp hcolumn
  exact hg.source_ne_target m hm n hn (hsource.trans htarget.symm)

/-- The training edges that leave a vertex, by increasing number. -/
def trainingFrom (g : Graph α) (v : Nat) : List Nat :=
  (List.range g.edgeCount).filter fun n =>
    (g.edgeAt n).role = .train ∧ (g.edgeAt n).source = v

/-- Where no edge enters, the training edges are those that leave. -/
theorem Faithful.trainingAt_eq (hg : g.Faithful) {v : Nat} (hv : v < g.size)
    (hrow : ¬ g.IsColumn v) : g.trainingAt v = g.trainingFrom v := by
  have hnone : g.edgesInto v = [] := by
    rw [IsColumn, inDegree, List.length_pos_iff, Classical.not_not] at hrow
    exact hrow
  rw [trainingAt, incident, hnone, List.nil_append, hg.edgesOutOf_eq v hv,
    List.filter_filter, trainingFrom]
  apply List.filter_congr
  intro n _
  rw [← Bool.decide_and]

/-! ## Neighbours along training edges -/

/-- A training edge joins the two vertices. -/
def Meets (g : Graph α) (v w : Nat) : Prop :=
  ∃ n ∈ g.trainingAt v, otherEnd (g.edgeAt n) v = w

theorem Faithful.meets_iff (hg : g.Faithful) {v w : Nat} (hv : v < g.size) :
    g.Meets v w ↔ ∃ n < g.edgeCount, (g.edgeAt n).role = .train ∧
      (((g.edgeAt n).source = v ∧ (g.edgeAt n).target = w) ∨
        ((g.edgeAt n).target = v ∧ (g.edgeAt n).source = w)) := by
  constructor
  · rintro ⟨n, hn, hother⟩
    obtain ⟨hlt, hrole, hends⟩ := (hg.mem_trainingAt hv).mp hn
    refine ⟨n, hlt, hrole, ?_⟩
    unfold otherEnd at hother
    by_cases hsource : v = (g.edgeAt n).source
    · rw [if_pos hsource] at hother
      exact .inl ⟨hsource.symm, hother⟩
    · rw [if_neg hsource] at hother
      exact .inr ⟨hends.resolve_left (Ne.symm hsource), hother⟩
  · rintro ⟨n, hlt, hrole, hends⟩
    have hmem : n ∈ g.trainingAt v := by
      refine (hg.mem_trainingAt hv).mpr ⟨hlt, hrole, ?_⟩
      rcases hends with ⟨hsource, -⟩ | ⟨htarget, -⟩
      · exact .inl hsource
      · exact .inr htarget
    refine ⟨n, hmem, ?_⟩
    unfold otherEnd
    rcases hends with ⟨hsource, htarget⟩ | ⟨htarget, hsource⟩
    · rw [if_pos hsource.symm, htarget]
    · split
      · rename_i hloop
        rw [htarget, hloop, hsource]
      · exact hsource

theorem Faithful.meets_lt (hg : g.Faithful) {v w : Nat} (hv : v < g.size)
    (h : g.Meets v w) : w < g.size := by
  obtain ⟨n, hn, rfl⟩ := h
  exact hg.otherEnd_lt ((hg.mem_trainingAt hv).mp hn).1

theorem Faithful.meets_symm (hg : g.Faithful) {v w : Nat} (hv : v < g.size)
    (h : g.Meets v w) : g.Meets w v := by
  obtain ⟨n, hn, hrole, hends⟩ := (hg.meets_iff hv).mp h
  exact (hg.meets_iff (hg.meets_lt hv h)).mpr
    ⟨n, hn, hrole, hends.symm.imp And.symm And.symm⟩

/-- Some training edge ends at the vertex. -/
def IsTrained (g : Graph α) (v : Nat) : Prop :=
  g.trainingAt v ≠ []

instance (g : Graph α) (v : Nat) : Decidable (g.IsTrained v) :=
  inferInstanceAs (Decidable (g.trainingAt v ≠ []))

theorem isTrained_iff {v : Nat} : g.IsTrained v ↔ ∃ w, g.Meets v w := by
  constructor
  · intro h
    obtain ⟨n, hn⟩ := List.exists_mem_of_ne_nil _ h
    exact ⟨_, n, hn, rfl⟩
  · rintro ⟨w, n, hn, -⟩ hnil
    rw [hnil] at hn
    exact List.not_mem_nil hn

/-- Training edges run between a row and a column. -/
theorem Bipartite.meets_sides (hg : g.Bipartite) {v w : Nat}
    (hv : v < g.size) (h : g.Meets v w) :
    (g.IsRow v ∧ ¬ g.IsColumn v ∧ g.IsColumn w ∧ ¬ g.IsRow w) ∨
      (g.IsColumn v ∧ ¬ g.IsRow v ∧ g.IsRow w ∧ ¬ g.IsColumn w) := by
  have hw := hg.meets_lt hv h
  obtain ⟨n, hn, -, ⟨hsource, htarget⟩ | ⟨htarget, hsource⟩⟩ :=
    (hg.meets_iff hv).mp h
  · have hrow := (hg.isRow_iff hv).mpr ⟨n, hn, hsource⟩
    have hcolumn := (hg.isColumn_iff hw).mpr ⟨n, hn, htarget⟩
    exact .inl ⟨hrow, hg.not_isColumn_of_isRow hv hrow, hcolumn,
      fun hr => hg.not_isColumn_of_isRow hw hr hcolumn⟩
  · have hrow := (hg.isRow_iff hw).mpr ⟨n, hn, hsource⟩
    have hcolumn := (hg.isColumn_iff hv).mpr ⟨n, hn, htarget⟩
    exact .inr ⟨hcolumn, fun hr => hg.not_isColumn_of_isRow hv hr hcolumn,
      hrow, hg.not_isColumn_of_isRow hw hrow⟩

omit [Scalar α] in
/-- In a graph whose identifiers increase, each leads back to its place. -/
theorem placeOf_idAt_of_pairwise (h : g.ids.toList.Pairwise (· < ·)) {v : Nat}
    (hv : v < g.size) : g.placeOf (g.idAt v) = .ok v := by
  have hv' : v < g.ids.size := hv
  have hid : g.idAt v = g.ids[v].toInt := by
    rw [idAt, Array.getD_eq_getD_getElem?, Array.getElem?_eq_getElem hv',
      Option.getD_some]
  rw [placeOf, hid, placeOf?_getElem h hv']

/-! ## Graphs built from columns -/

section Columns

variable {sources targets : List Int64} {values : List α} {roles : List Role}
  {dimension : Int}

omit [Scalar α] in
/-- The columns of a built graph agree in length, its identifiers are those
that occur, and its edges and incidence lists come from the places of the
ends. -/
theorem columns_of_ofColumns
    (h : ofColumns sources targets values roles dimension = .ok g) :
    let place := fun id : Int64 => (placeOf? g.ids id.toInt).getD 0
    (sources.length = targets.length ∧ targets.length = values.length ∧
        values.length = roles.length) ∧
      g.ids = places (sources ++ targets) ∧
      g.edges = (((sources.map place).zip (targets.map place)).zip
        (values.zip roles)).toArray.map
          (fun ((source, target), (value, role)) =>
            { source, target, value, role }) ∧
      g.incoming = incidence g.size (targets.map place) ∧
      g.outgoing = incidence g.size (sources.map place) := by
  unfold ofColumns at h
  split at h
  · rename_i hlengths
    simp only [Bool.and_eq_true, decide_eq_true_eq] at hlengths
    have hg := (Except.ok.inj h).symm
    subst hg
    exact ⟨⟨hlengths.1.1, hlengths.1.2, hlengths.2⟩, rfl,
      by simp only [List.map_toArray], rfl, rfl⟩
  · cases h

omit [Scalar α] in
/-- Every identifier of a column is found, at a place that carries it. -/
theorem place_of_mem_columns
    (hids : g.ids = places (sources ++ targets)) {id : Int64}
    (hid : id ∈ sources ++ targets) :
    (placeOf? g.ids id.toInt).getD 0 < g.size ∧
      g.ids[(placeOf? g.ids id.toInt).getD 0]? = some id := by
  have hmem : id ∈ g.ids := by
    rw [hids]
    exact mem_places.mpr hid
  have hsorted : g.ids.toList.Pairwise (· < ·) := by
    rw [hids]
    exact pairwise_places _
  obtain ⟨place, hplace, hget⟩ := placeOf?_of_mem hsorted hmem
  rw [hplace, Option.getD_some]
  exact ⟨(Array.getElem?_eq_some_iff.mp hget).1, hget⟩

/-- A graph built from columns is faithful, and edge `n` runs between the
places of the `n`-th identifiers and has the `n`-th role. -/
theorem edgeAt_ofColumns
    (h : ofColumns sources targets values roles dimension = .ok g) {n : Nat}
    (hn : n < g.edgeCount) :
    ∃ source target role, sources[n]? = some source ∧
      targets[n]? = some target ∧ roles[n]? = some role ∧
      (g.edgeAt n).source = (placeOf? g.ids source.toInt).getD 0 ∧
      (g.edgeAt n).target = (placeOf? g.ids target.toInt).getD 0 ∧
      (g.edgeAt n).role = role := by
  obtain ⟨⟨hst, htv, hvr⟩, hids, hedges, -, -⟩ := columns_of_ofColumns h
  have hcount : g.edgeCount = sources.length := by
    rw [edgeCount, hedges]
    simp
    omega
  have hs : n < sources.length := hcount ▸ hn
  have ht : n < targets.length := by omega
  have hv : n < values.length := by omega
  have hr : n < roles.length := by omega
  refine ⟨sources[n], targets[n], roles[n], List.getElem?_eq_getElem hs,
    List.getElem?_eq_getElem ht, List.getElem?_eq_getElem hr, ?_⟩
  have hget : g.edgeAt n =
      { source := (placeOf? g.ids sources[n].toInt).getD 0
        target := (placeOf? g.ids targets[n].toInt).getD 0
        value := values[n]
        role := roles[n] } := by
    have hlength : n < (((sources.map fun id : Int64 =>
        (placeOf? g.ids id.toInt).getD 0).zip (targets.map fun id : Int64 =>
        (placeOf? g.ids id.toInt).getD 0)).zip (values.zip roles)).length := by
      simp
      omega
    rw [edgeAt, hedges, Array.getD_eq_getD_getElem?, Array.getElem?_map,
      List.getElem?_toArray, List.getElem?_eq_getElem hlength]
    simp
  rw [hget]
  exact ⟨rfl, rfl, rfl⟩

/-- A graph built from columns is faithful. -/
theorem faithful_ofColumns
    (h : ofColumns sources targets values roles dimension = .ok g) :
    g.Faithful := by
  obtain ⟨⟨hst, htv, hvr⟩, hids, hedges, hin, hout⟩ := columns_of_ofColumns h
  have hcount : g.edgeCount = sources.length := by
    rw [edgeCount, hedges]
    simp
    omega
  have hsorted : g.ids.toList.Pairwise (· < ·) := by
    rw [hids]
    exact pairwise_places _
  have hends : ∀ n < g.edgeCount,
      (sources.map fun id : Int64 => (placeOf? g.ids id.toInt).getD 0)[n]? =
          some (g.edgeAt n).source ∧
        (targets.map fun id : Int64 => (placeOf? g.ids id.toInt).getD 0)[n]? =
          some (g.edgeAt n).target := by
    intro n hn
    obtain ⟨source, target, role, hs, ht, -, hsource, htarget, -⟩ :=
      edgeAt_ofColumns h hn
    simp [hs, ht, hsource, htarget]
  refine
    { source_lt := ?_
      target_lt := ?_
      edgesInto_eq := ?_
      edgesOutOf_eq := ?_
      placeOf_idAt := ?_ }
  · intro n hn
    obtain ⟨source, target, role, hs, -, -, hsource, -, -⟩ :=
      edgeAt_ofColumns h hn
    rw [hsource]
    exact (place_of_mem_columns hids
      (List.mem_append_left _ (List.mem_of_getElem? hs))).1
  · intro n hn
    obtain ⟨source, target, role, -, ht, -, -, htarget, -⟩ :=
      edgeAt_ofColumns h hn
    rw [htarget]
    exact (place_of_mem_columns hids
      (List.mem_append_right _ (List.mem_of_getElem? ht))).1
  · intro v hv
    rw [edgesInto, Array.getD_eq_getD_getElem?, hin,
      getElem?_incidence _ hv, Option.getD_some, List.length_map, hcount, hst]
    apply List.filter_congr
    intro n hn
    have hn' : n < g.edgeCount := by
      rw [hcount, hst]
      exact List.mem_range.mp hn
    rw [(hends n hn').2]
    simp
  · intro v hv
    rw [edgesOutOf, Array.getD_eq_getD_getElem?, hout,
      getElem?_incidence _ hv, Option.getD_some, List.length_map, hcount]
    apply List.filter_congr
    intro n hn
    have hn' : n < g.edgeCount := by
      rw [hcount]
      exact List.mem_range.mp hn
    rw [(hends n hn').1]
    simp
  · exact fun v hv => placeOf_idAt_of_pairwise hsorted hv

/-- A graph built from columns is bipartite if the two identifier columns have
nothing in common and every role is known. -/
theorem bipartite_ofColumns
    (h : ofColumns sources targets values roles dimension = .ok g)
    (hsides : ∀ id ∈ sources, id ∉ targets)
    (hroles : ∀ role ∈ roles, role.isKnown = true) : g.Bipartite := by
  obtain ⟨-, hids, -, -, -⟩ := columns_of_ofColumns h
  refine
    { toFaithful := faithful_ofColumns h
      source_ne_target := ?_
      known := ?_ }
  · intro m hm n hn heq
    obtain ⟨source, -, -, hs, -, -, hsource, -, -⟩ := edgeAt_ofColumns h hm
    obtain ⟨-, target, -, -, ht, -, -, htarget, -⟩ := edgeAt_ofColumns h hn
    have hsmem := List.mem_of_getElem? hs
    have htmem := List.mem_of_getElem? ht
    have hsget := (place_of_mem_columns hids
      (List.mem_append_left targets hsmem)).2
    have htget := (place_of_mem_columns hids
      (List.mem_append_right sources htmem)).2
    rw [← hsource, heq, htarget, htget, Option.some.injEq] at hsget
    exact hsides source hsmem (hsget ▸ htmem)
  · intro n hn
    obtain ⟨-, -, role, -, -, hr, -, -, hrole⟩ := edgeAt_ofColumns h hn
    rw [hrole]
    exact hroles role (List.mem_of_getElem? hr)

end Columns

end Graph

end RatingFactors
