import RatingFactors.Proofs.Graph.Alike
import RatingFactors.Proofs.Roots
import RatingFactors.Proofs.Tally

/-!
# What a report says

A tally adds up the squared residuals of all edges.  Where adding zero changes
nothing, its two parts are the sums over the edges of either role, in the order
of their numbers.  Adding up goes through if and only if every edge is clear.  A
report gives the roots of the two means, and the learning rate decays at each
report whatever it says.

## Main definitions

* `ErrorTally.ofEdges` — the sums over the edges of either role.
* `Monitor.watching` — the aggregator of a monitor, at some point of a run.
* `Report.learned` — what a report says about training.
* `Monitor.Alike` — monitors that agree on that.

## Main results

* `Monitor.total_ok`, `Monitor.total_of_clear` — the total over all edges.
* `Monitor.errors_eq_ok` — when a tally has errors.
* `Monitor.close_ofEdges` — what the report of a total says.
* `Monitor.close_cases` — what closing leaves.
* `Monitor.close_alike` — closing keeps monitors alike.
-/

namespace RatingFactors

open Descent

variable {α : Type} [Scalar α]

namespace ErrorTally

/-- The training part of a tally: a sum, and how many edges it is over. -/
def training (t : ErrorTally α) : α × Int :=
  (t.train, t.trainCount)

/-- The sums of the squared residuals of either role, and the numbers of
edges. -/
def ofEdges (s : Settings α) (look : Nat → Vertex α) (edges : List (Edge α)) :
    ErrorTally α where
  train := Scalar.sum (squaresOf s look .train edges)
  validation := Scalar.sum (squaresOf s look .validate edges)
  trainCount := (squaresOf s look .train edges).length
  validationCount := (squaresOf s look .validate edges).length

theorem training_ofEdges (s : Settings α) (look : Nat → Vertex α)
    (g : Graph α) :
    (ofEdges s look g.edges.toList).training =
      (Scalar.sum (g.training.map (squaredAt s look)),
        (g.training.length : Int)) := by
  simp only [training, ofEdges, length_squaresOf]
  rfl

/-- The sums do not depend on the order of the edges. -/
theorem ofEdges_perm (hexact : Scalar.Exact α) {s : Settings α}
    {look : Nat → Vertex α} {edges others : List (Edge α)}
    (h : edges.Perm others) :
    ofEdges s look edges = ofEdges s look others := by
  have hsquares := fun role => squaresOf_perm s look role h
  simp only [ofEdges, hexact.sum_perm (hsquares _), (hsquares _).length_eq]

private theorem foldl_plus_none (hzero : ∀ x : α, x + Scalar.zero = x)
    (s : Settings α) (look : Nat → Vertex α) (edges : List (Edge α)) :
    (edges.map (ofRating s look)).foldl plus none = ofEdges s look edges := by
  rw [foldl_plus hzero]
  simp [none, ofEdges, Scalar.sum]

end ErrorTally

namespace Monitor

/-- The aggregator that keeps a monitor, at some point of a run. -/
def watching {ω : Type} (name : String) (interval : Option α) (lastRun : α)
    (m : Monitor α) : Aggregator α ω (Monitor α) (ErrorTally α)
      (Option (Report α)) :=
  { aggregator name m with interval, lastRun }

variable {ω : Type} {name : String} {interval : Option α} {lastRun : α}
  {m : Monitor α}

section Total

variable {scene : Scene α} {total : Option (ErrorTally α)}

open ErrorTally (Clear ofRating)

/-- Edges that have been added up are clear. -/
theorem totalFrom_ok {numbers : List Nat} {first : ErrorTally α}
    (h : (watching (ω := ω) name interval lastRun m).totalFrom scene numbers
      (some first) = .ok total) :
    (∀ e ∈ numbers.map scene.graph.edgeAt,
        Clear scene.settings scene.vertex e) ∧
      total = some (((numbers.map scene.graph.edgeAt).map (ofRating
        scene.settings scene.vertex)).foldl ErrorTally.plus first) := by
  induction numbers generalizing first with
  | nil => exact ⟨by simp, (Except.ok.inj h).symm⟩
  | cons number rest ih =>
      rw [Aggregator.totalFrom] at h
      obtain ⟨seen, hsee, h⟩ := Attempt.bind_ok.mp h
      obtain ⟨next, hadd, h⟩ := Attempt.bind_ok.mp h
      obtain ⟨hclear, rfl⟩ := ErrorTally.ofEdge_eq_ok.mp hsee
      obtain ⟨-, rfl⟩ := ErrorTally.add_eq_ok.mp hadd
      obtain ⟨hrest, htotal⟩ := ih h
      refine ⟨?_, htotal⟩
      rw [List.map_cons, List.forall_mem_cons]
      exact ⟨hclear, hrest⟩

/-- Clear edges can be added up, if the sums of their training errors are sound
in a sense in which only numbers are. -/
theorem totalFrom_of_clear {sound : α → Prop}
    (hnumber : ∀ x, sound x → Scalar.isNaN x = false)
    (hadd : ∀ e, Clear scene.settings scene.vertex e → ∀ x, sound x →
      sound (x + (ofRating scene.settings scene.vertex e).train))
    {numbers : List Nat} {first : ErrorTally α} (hfirst : sound first.train)
    (hclear : ∀ e ∈ numbers.map scene.graph.edgeAt,
      Clear scene.settings scene.vertex e) :
    ∃ total, (watching (ω := ω) name interval lastRun m).totalFrom scene numbers
      (some first) = .ok total := by
  induction numbers generalizing first with
  | nil => exact ⟨_, rfl⟩
  | cons number rest ih =>
      rw [List.map_cons, List.forall_mem_cons] at hclear
      obtain ⟨hedge, hrest⟩ := hclear
      have hsum := hadd _ hedge _ hfirst
      obtain ⟨total, htotal⟩ := @ih (first.plus (ofRating scene.settings
        scene.vertex (scene.graph.edgeAt number))) hsum hrest
      exact ⟨total, Attempt.bind_ok.mpr ⟨_, ErrorTally.ofEdge_eq_ok.mpr
        ⟨hedge, rfl⟩, Attempt.bind_ok.mpr ⟨_, ErrorTally.add_eq_ok.mpr
          ⟨hnumber _ hsum, rfl⟩, htotal⟩⟩⟩

/-- The total over all edges. -/
theorem total_ok (hzero : ∀ x : α, x + Scalar.zero = x)
    (h : (watching (ω := ω) name interval lastRun m).total scene =
      .ok total) :
    (∀ e ∈ scene.graph.edges.toList, Clear scene.settings scene.vertex e) ∧
      total = some (ErrorTally.ofEdges scene.settings scene.vertex
        scene.graph.edges.toList) := by
  obtain ⟨hclear, htotal⟩ := totalFrom_ok h
  rw [Graph.map_edgeAt_range] at hclear htotal
  exact ⟨hclear, htotal.trans (congrArg some
    (ErrorTally.foldl_plus_none hzero ..))⟩

/-- There is a total if all edges are clear. -/
theorem total_of_clear (haverage : Scalar.Averaging α)
    (hclear : ∀ e ∈ scene.graph.edges.toList,
      Clear scene.settings scene.vertex e) :
    (watching (ω := ω) name interval lastRun m).total scene =
      .ok (some (ErrorTally.ofEdges scene.settings scene.vertex
        scene.graph.edges.toList)) := by
  rw [← Graph.map_edgeAt_range] at hclear
  have hadd : ∀ e, Clear scene.settings scene.vertex e → ∀ x : α,
      Scalar.Nonneg x ∧ Scalar.isNaN x = false →
      Scalar.Nonneg (x + (ofRating scene.settings scene.vertex e).train) ∧
        Scalar.isNaN (x + (ofRating scene.settings scene.vertex e).train) =
          false := by
    rintro e he x ⟨hsize, hnumber⟩
    obtain ⟨hpart, hpartNumber⟩ := ErrorTally.train_ofRating haverage he
    exact ⟨haverage.nonneg_add _ _ hsize hpart,
      haverage.isNaN_add _ _ hsize hpart hnumber hpartNumber⟩
  obtain ⟨total, htotal⟩ : ∃ total,
      (watching (ω := ω) name interval lastRun m).total scene = .ok total :=
    totalFrom_of_clear (fun _ h => h.2) hadd
      ⟨haverage.nonneg_zero, haverage.isNaN_zero⟩ hclear
  rw [htotal, (total_ok haverage.add_zero htotal).2]

end Total

/-! ## The report of a total -/

/-- When a tally has errors, and what they are. -/
theorem errors_eq_ok {t : ErrorTally α} {train : α} {validation : Option α} :
    errors t = .ok (train, validation) ↔
      0 < t.trainCount ∧ rootMean t.train t.trainCount = .ok train ∧
        Scalar.isNaN train = false ∧
        ((t.validationCount ≤ 0 ∧ validation = none) ∨
          (0 < t.validationCount ∧ ∃ v, validation = some v ∧
            rootMean t.validation t.validationCount = .ok v)) := by
  unfold errors
  by_cases hcount : t.trainCount ≤ 0
  · rw [if_pos hcount]
    exact ⟨nofun, fun h => absurd h.1 (Int.not_lt.mpr hcount)⟩
  rw [if_neg hcount, Attempt.bind_ok]
  constructor
  · rintro ⟨root, hroot, h⟩
    have hpos := Int.not_le.mp hcount
    cases hnumber : Scalar.isNaN root with
    | true =>
        rw [hnumber, if_pos rfl] at h
        cases h
    | false =>
        rw [hnumber, if_neg Bool.false_ne_true] at h
        by_cases hheld : t.validationCount ≤ 0
        · rw [if_pos hheld] at h
          obtain ⟨rfl, rfl⟩ := Prod.mk.inj (Except.ok.inj h)
          exact ⟨hpos, hroot, hnumber, .inl ⟨hheld, rfl⟩⟩
        · rw [if_neg hheld] at h
          obtain ⟨v, hv, h⟩ := Attempt.bind_ok.mp h
          obtain ⟨rfl, rfl⟩ := Prod.mk.inj (Except.ok.inj h)
          exact ⟨hpos, hroot, hnumber, .inr ⟨Int.not_le.mp hheld, v, rfl, hv⟩⟩
  · rintro ⟨-, hroot, hnumber, hvalidation⟩
    refine ⟨train, hroot, ?_⟩
    rw [hnumber, if_neg Bool.false_ne_true]
    rcases hvalidation with ⟨hheld, rfl⟩ | ⟨hheld, v, rfl, hv⟩
    · rw [if_pos hheld]
      rfl
    · rw [if_neg (Int.not_le.mpr hheld)]
      exact Attempt.bind_ok.mpr ⟨v, hv, rfl⟩

private theorem rootMean_sum (haverage : Scalar.Averaging α) {xs : List α}
    (hxs : ∀ x ∈ xs, Scalar.Nonneg x) (hne : xs ≠ []) :
    rootMean (Scalar.sum xs) xs.length = .ok (Scalar.rootMeanOf xs) := by
  have hmean : Scalar.less (Scalar.sum xs / Scalar.ofInt xs.length)
      Scalar.zero = false := haverage.nonneg_mean hxs hne
  rw [rootMean, hmean]
  rfl

end Monitor

/-- What a report says about the vertices as they are. -/
def Report.ofScene (scene : Scene α) : Report α where
  elapsed := scene.elapsed
  trainError := Scalar.rootMeanOf (squaresOf scene.settings scene.vertex .train
    scene.graph.edges.toList)
  validationError := Scalar.rootMeanOf? (squaresOf scene.settings scene.vertex
    .validate scene.graph.edges.toList)
  rate := scene.settings.decayed.rate

theorem Report.ofScene_perm (haverage : Scalar.Averaging α) {scene : Scene α}
    {g : Graph α} (h : g.edges.toList.Perm scene.graph.edges.toList) :
    Report.ofScene { scene with graph := g } = Report.ofScene scene := by
  have hsquares := fun role =>
    squaresOf_perm scene.settings scene.vertex role h
  have hlook : Scene.vertex { scene with graph := g } = scene.vertex := rfl
  simp only [ofScene, hlook, Scalar.rootMeanOf?, (hsquares _).length_eq,
    haverage.rootMeanOf_perm (hsquares _)]

namespace Monitor

section Closing

variable (haverage : Scalar.Averaging α)

include haverage

/-- The errors of clear edges of which some are learned from. -/
theorem errors_ofEdges {s : Settings α} {look : Nat → Vertex α}
    {edges : List (Edge α)} (hclear : ∀ e ∈ edges, ErrorTally.Clear s look e)
    (hsome : ∃ e ∈ edges, e.role = .train) :
    errors (ErrorTally.ofEdges s look edges) =
      .ok (Scalar.rootMeanOf (squaresOf s look .train edges),
        Scalar.rootMeanOf? (squaresOf s look .validate edges)) := by
  have hne := (squaresOf_ne_nil s look .train edges).mpr hsome
  have hsizes := nonneg_squaresOf haverage s look
  have hnumbers : ∀ x ∈ squaresOf s look .train edges,
      Scalar.isNaN x = false := by
    intro x hx
    obtain ⟨e, he, rfl⟩ := List.mem_map.mp hx
    obtain ⟨hmem, hrole⟩ := List.mem_filter.mp he
    exact (hclear e hmem).number (by simpa using hrole)
  have hnumber := haverage.isNaN_rootMeanOf (hsizes .train edges) hnumbers hne
  refine errors_eq_ok.mpr ⟨Int.natCast_pos.mpr (List.length_pos_iff.mpr hne),
    rootMean_sum haverage (hsizes .train edges) hne, hnumber, ?_⟩
  rw [Scalar.rootMeanOf?]
  by_cases hheld : (squaresOf s look .validate edges).length = 0
  · rw [if_pos hheld]
    exact .inl ⟨by rw [ErrorTally.ofEdges, hheld]; rfl, rfl⟩
  · rw [if_neg hheld]
    refine .inr ⟨Int.natCast_pos.mpr (Nat.pos_of_ne_zero hheld), _, rfl, ?_⟩
    exact rootMean_sum haverage (hsizes .validate edges)
      (mt List.length_eq_zero_iff.mpr hheld)

omit haverage in
/-- There are errors only if some edges are learned from. -/
theorem exists_train_of_errors {s : Settings α} {look : Nat → Vertex α}
    {edges : List (Edge α)} {pair : α × Option α}
    (h : errors (ErrorTally.ofEdges s look edges) = .ok pair) :
    ∃ e ∈ edges, e.role = .train := by
  obtain ⟨train, validation⟩ := pair
  have hpos := (errors_eq_ok.mp h).1
  rw [← squaresOf_ne_nil s look]
  exact List.length_pos_iff.mp (Int.natCast_pos.mp hpos)

/-- Closing the total of clear edges of which some are learned from makes a
report, if one is due. -/
theorem close_ofEdges {scene : Scene α} {m : Monitor α}
    (hclear : ∀ e ∈ scene.graph.edges.toList,
      ErrorTally.Clear scene.settings scene.vertex e)
    (hsome : ∃ e ∈ scene.graph.edges.toList, e.role = .train)
    (hnext : m.reportsNext = true) :
    (close (ω := ω) scene m (some (ErrorTally.ofEdges scene.settings
      scene.vertex scene.graph.edges.toList))).answer =
        .ok (some (Report.ofScene scene)) := by
  rw [close, hnext, if_pos rfl, Option.getD_some,
    errors_ofEdges haverage hclear hsome]
  rfl

end Closing

end Monitor

/-- What a report says about training. -/
def Report.learned (r : Report α) : α × α × α :=
  (r.elapsed, r.trainError, r.rate)

namespace Monitor

variable {ω : Type} {m m' : Monitor α}

/-- Two monitors that have closed as often and agree on what they report about
training. -/
structure Alike (m m' : Monitor α) : Prop where
  reportEvery : m'.reportEvery = m.reportEvery
  calls : m'.calls = m.calls
  history : m'.history.map Report.learned = m.history.map Report.learned

/-- Closing is only counted, or it fails, or it makes a report and the learning
rate decays. -/
theorem close_cases (scene : Scene α) (m : Monitor α)
    (tally : Option (ErrorTally α)) :
    (m.reportsNext = false ∧ close (ω := ω) scene m tally =
      ⟨{ m with calls := m.calls + 1 }, scene.settings, [], .ok none⟩) ∨
    (m.reportsNext = true ∧ ∃ cause,
      errors (tally.getD ErrorTally.none) = .error cause ∧
      close (ω := ω) scene m tally =
        ⟨{ m with calls := m.calls + 1 }, scene.settings, [],
          .error cause⟩) ∨
    (m.reportsNext = true ∧ ∃ train validation notes,
      errors (tally.getD ErrorTally.none) = .ok (train, validation) ∧
      close (ω := ω) scene m tally =
        ⟨{ m with
            calls := m.calls + 1
            history := m.history ++ [⟨scene.elapsed, train, validation,
              scene.settings.decayed.rate⟩] },
          scene.settings.decayed, notes,
          .ok (some ⟨scene.elapsed, train, validation,
            scene.settings.decayed.rate⟩)⟩) := by
  unfold close
  dsimp only
  cases hnext : m.reportsNext with
  | false => exact .inl ⟨rfl, rfl⟩
  | true =>
      rw [if_pos rfl]
      cases herrors : errors (tally.getD ErrorTally.none) with
      | error cause => exact .inr (.inl ⟨rfl, cause, rfl, rfl⟩)
      | ok pair =>
          exact .inr (.inr ⟨rfl, pair.1, pair.2, _, rfl, rfl⟩)

/-- Closing that does not fail: it is only counted, or it makes a report and the
learning rate decays. -/
theorem close_ok {scene : Scene α} {t : ErrorTally α} {r : Option (Report α)}
    (h : (close (ω := ω) scene m (some t)).answer = .ok r) :
    let closing := close (ω := ω) scene m (some t)
    (m.reportsNext = false ∧ closing.state = { m with calls := m.calls + 1 } ∧
        closing.settings = scene.settings) ∨
      (m.reportsNext = true ∧ ∃ train validation,
        rootMean t.train t.trainCount = .ok train ∧
        closing.state = { m with
          calls := m.calls + 1
          history := m.history ++ [⟨scene.elapsed, train, validation,
            scene.settings.decayed.rate⟩] } ∧
        closing.settings = scene.settings.decayed) := by
  dsimp only
  rcases close_cases (ω := ω) scene m (some t) with ⟨hskip, hclose⟩ |
    ⟨-, cause, -, hclose⟩ | ⟨hreport, train, validation, _, herrors, hclose⟩
  · rw [hclose]
    exact .inl ⟨hskip, rfl, rfl⟩
  · rw [hclose] at h
    cases h
  · rw [hclose]
    exact .inr ⟨hreport, train, validation, (errors_eq_ok.mp herrors).2.1,
      rfl, rfl⟩

/-- Closing tallies with the same training part keeps monitors alike, and
changes the settings in the same way, if neither fails. -/
theorem close_alike (h : m.Alike m') {scene scene' : Scene α}
    (hsettings : scene'.settings = scene.settings)
    (helapsed : scene'.elapsed = scene.elapsed) {t t' : ErrorTally α}
    (htally : t'.training = t.training) {r r' : Option (Report α)}
    (hok : (close (ω := ω) scene m (some t)).answer = .ok r)
    (hok' : (close (ω := ω) scene' m' (some t')).answer = .ok r') :
    (close (ω := ω) scene m (some t)).state.Alike
        (close (ω := ω) scene' m' (some t')).state ∧
      (close (ω := ω) scene' m' (some t')).settings =
        (close (ω := ω) scene m (some t)).settings := by
  have hnext : m'.reportsNext = m.reportsNext := by
    rw [reportsNext, reportsNext, h.calls, h.reportEvery]
  obtain ⟨htrain, hcount⟩ := Prod.mk.inj htally
  rcases close_ok hok with ⟨hskip, hstate, hsame⟩ |
      ⟨hreport, train, validation, hroot, hstate, hsame⟩ <;>
    rcases close_ok hok' with ⟨hskip', hstate', hsame'⟩ |
      ⟨hreport', train', validation', hroot', hstate', hsame'⟩
  · rw [hstate, hstate', hsame, hsame']
    exact ⟨⟨h.reportEvery, congrArg (· + 1) h.calls, h.history⟩, hsettings⟩
  · rw [hnext, hskip] at hreport'
    cases hreport'
  · rw [hnext, hreport] at hskip'
    cases hskip'
  · rw [htrain, hcount, hroot] at hroot'
    obtain rfl := Except.ok.inj hroot'
    rw [hstate, hstate', hsame, hsame']
    refine ⟨⟨h.reportEvery, congrArg (· + 1) h.calls, ?_⟩,
      congrArg Settings.decayed hsettings⟩
    dsimp only
    rw [List.map_append, List.map_append, h.history, helapsed, hsettings]
    rfl

end Monitor

end RatingFactors
