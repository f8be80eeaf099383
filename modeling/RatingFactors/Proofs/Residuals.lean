import RatingFactors.Proofs.Closings
import RatingFactors.Proofs.Decimal.Signs
import RatingFactors.Proofs.Evaluation

/-!
# Residuals that are no number

A rating that is missing is no number, and then neither is its residual nor the
square of it.  Adding up errors over doubles finds such a residual wherever it
stands, if the rating is learned from, and an infinite square in either role:
the work fails before anything has changed.  A rating that is held out is not
looked at in this way; if its residual is no number, neither is the validation
error that a report gives.

Sums of squares over doubles are no number only if one of the squares is none:
all others have the positive sign, and the sum keeps it.

## Main definitions

* `residualAt` — the residual of an edge.
* `Edge.IsCounted` — the edge is learned from or held out.

## Main results

* `Monitor.exists_total_iff` — when errors over doubles can be added up.
* `Monitor.kind_of_totalFrom` — what it means if they cannot.
* `Monitor.isNaN_validationError` — what the validation error of a report says.
* `Session.nan_residuals_met` — all of it, for runs of the aggregator.
-/

namespace RatingFactors

open Decimal (Size)

/-- The residual of an edge. -/
def residualAt {α : Type} [Scalar α] (s : Settings α) (look : Nat → Vertex α)
    (e : Edge α) : α :=
  e.value -
    s.clamp (s.globalMean + (look e.source).bias + (look e.target).bias +
      Scalar.dot (look e.source).latent (look e.target).latent)

theorem squaredAt_eq {α : Type} [Scalar α] (s : Settings α)
    (look : Nat → Vertex α) (e : Edge α) :
    squaredAt s look e = residualAt s look e * residualAt s look e := rfl

/-- The edge is learned from or held out. -/
def Edge.IsCounted {α : Type} (e : Edge α) : Prop :=
  e.role = .train ∨ e.role = .validate

/-! ## What stands in the way of a total -/

section Faults

variable {α ω : Type} [Scalar α] {scene : Scene α} {cause : Failure}

/-- The ends of an edge have vectors of one length, if it is counted. -/
def Scene.Matches (scene : Scene α) (e : Edge α) : Prop :=
  e.IsCounted →
    (scene.vertex e.source).latent.length =
      (scene.vertex e.target).latent.length

private theorem kind_of_squaredResidual {number : Nat}
    (hlengths : (scene.vertex (scene.graph.edgeAt number).source).latent.length
        = (scene.vertex (scene.graph.edgeAt number).target).latent.length)
    (h : squaredResidual scene number = .error cause) :
    cause.kind = .assertion := by
  have hedge : scene.edge number = scene.graph.edgeAt number := rfl
  rw [squaredResidual, hedge, Settings.predict, if_pos hlengths] at h
  dsimp only [bind, Except.bind] at h
  split at h
  · rw [← Except.error.inj h]
    rfl
  · cases h

private theorem ErrorTally.kind_of_ofEdge {number : Nat}
    (hmatches : scene.Matches (scene.graph.edgeAt number))
    (h : ofEdge scene number = .error cause) : cause.kind = .assertion := by
  have hedge : scene.edge number = scene.graph.edgeAt number := rfl
  rw [ofEdge, hedge] at h
  cases hrole : (scene.graph.edgeAt number).role with
  | train =>
      rw [hrole] at h
      dsimp only at h
      cases hsquared : squaredResidual scene number with
      | error cause' =>
          rw [hsquared] at h
          obtain rfl := Except.error.inj h
          exact kind_of_squaredResidual (hmatches (.inl hrole)) hsquared
      | ok squared =>
          rw [hsquared] at h
          dsimp only [bind, Except.bind] at h
          split at h
          · rw [← Except.error.inj h]
            rfl
          · cases h
  | validate =>
      rw [hrole] at h
      dsimp only at h
      cases hsquared : squaredResidual scene number with
      | error cause' =>
          rw [hsquared] at h
          obtain rfl := Except.error.inj h
          exact kind_of_squaredResidual (hmatches (.inr hrole)) hsquared
      | ok squared =>
          rw [hsquared] at h
          cases h
  | predict =>
      rw [hrole] at h
      cases h
  | other label =>
      rw [hrole] at h
      rw [← Except.error.inj h]
      rfl

private theorem ErrorTally.kind_of_add {a b : ErrorTally α}
    (h : add a b = .error cause) : cause.kind = .assertion := by
  rw [add, absorb, Attempt.perform_modify_bind, Attempt.perform_get_bind] at h
  dsimp only at h
  cases hnumber : Scalar.isNaN (a.train + b.train) with
  | true =>
      rw [hnumber] at h
      rw [← Except.error.inj h]
      rfl
  | false =>
      rw [hnumber] at h
      cases h

/-- If errors cannot be added up some assertion is broken, or vectors differ in
length. -/
theorem Monitor.kind_of_totalFrom {name : String} {interval : Option α}
    {lastRun : α} {m : Monitor α} {numbers : List Nat} {first : ErrorTally α}
    (hmatches : ∀ e ∈ numbers.map scene.graph.edgeAt, scene.Matches e)
    (h : (watching (ω := ω) name interval lastRun m).totalFrom scene numbers
        (some first) = .error cause) : cause.kind = .assertion := by
  induction numbers generalizing first with
  | nil => cases h
  | cons number rest ih =>
      rw [List.map_cons, List.forall_mem_cons] at hmatches
      rw [Aggregator.totalFrom] at h
      cases hsee : (watching (ω := ω) name interval lastRun m).see scene
        number with
      | error cause' =>
          rw [hsee] at h
          obtain rfl := Except.error.inj h
          exact ErrorTally.kind_of_ofEdge hmatches.1 hsee
      | ok seen =>
          rw [hsee] at h
          dsimp only [bind, Except.bind] at h
          cases hadd : (watching (ω := ω) name interval lastRun m).add
            first seen with
          | error cause' =>
              rw [hadd] at h
              obtain rfl := Except.error.inj h
              exact ErrorTally.kind_of_add hadd
          | ok next =>
              rw [hadd] at h
              exact ih hmatches.2 h

end Faults

/-! ## Sums over doubles -/

section Doubles

variable {s : Settings Float} {look : Nat → Vertex Float} {e : Edge Float}

private theorem isNaN_squaredAt (s : Settings Float) (look : Nat → Vertex Float)
    (e : Edge Float) :
    (squaredAt s look e).isNaN = (residualAt s look e).isNaN := by
  rw [squaredAt_eq]
  exact Decimal.isNaN_mul_self _

private theorem size_squaredAt (h : (residualAt s look e).isNaN = false) :
    Size (squaredAt s look e) := by
  rw [squaredAt_eq]
  exact Decimal.size_mul_self h

/-- What a clear edge adds to the training errors is a size. -/
theorem ErrorTally.Clear.size_train (h : Clear s look e) :
    Size (ofRating s look e).train := by
  rw [ofRating]
  cases hrole : e.role with
  | train =>
      have hnumber : (squaredAt s look e).isNaN = false := h.number hrole
      exact size_squaredAt (by rwa [isNaN_squaredAt] at hnumber)
  | validate => exact Decimal.size_zero
  | predict => exact Decimal.size_zero
  | other label => exact Decimal.size_zero

/-- What an edge adds to the validation errors is a size, or it is held out and
its residual is no number. -/
theorem ErrorTally.size_validation
    (h : e.role = .validate → (residualAt s look e).isNaN = false) :
    Size (ofRating s look e).validation := by
  rw [ofRating]
  cases hrole : e.role with
  | train => exact Decimal.size_zero
  | validate => exact size_squaredAt (h hrole)
  | predict => exact Decimal.size_zero
  | other label => exact Decimal.size_zero

/-- Sums of sizes are sizes. -/
theorem size_foldl {xs : List Float} (hxs : ∀ x ∈ xs, Size x) {x : Float}
    (hx : Size x) : Size (xs.foldl (· + ·) x) :=
  List.foldlRecOn xs (· + ·) hx fun _ hsum y hy => hsum.add (hxs y hy)

/-- A sum of which one term is no number is none. -/
theorem isNaN_foldl {xs : List Float} {x : Float}
    (h : x.isNaN = true ∨ ∃ y ∈ xs, y.isNaN = true) :
    (xs.foldl (· + ·) x).isNaN = true := by
  induction xs generalizing x with
  | nil =>
      rcases h with h | ⟨y, hy, -⟩
      · exact h
      · exact absurd hy List.not_mem_nil
  | cons z zs ih =>
      refine ih ?_
      rcases h with h | ⟨y, hy, hnan⟩
      · exact .inl (Decimal.isNaN_add_left h z)
      · rcases List.mem_cons.mp hy with rfl | hy
        · exact .inl (Decimal.isNaN_add_right x hnan)
        · exact .inr ⟨y, hy, hnan⟩

end Doubles

namespace Monitor

variable {ω : Type} {name : String} {interval : Option Float} {lastRun : Float}
  {m : Monitor Float} {scene : Scene Float}

/-! ## Adding up -/

section Total

open ErrorTally (Clear)

/-- Errors over doubles can be added up exactly if every edge is clear. -/
theorem exists_total_iff :
    (∃ total,
      (watching (ω := ω) name interval lastRun m).total scene = .ok total) ↔
      ∀ e ∈ scene.graph.edges.toList, Clear scene.settings scene.vertex e := by
  rw [← Graph.map_edgeAt_range]
  constructor
  · rintro ⟨total, htotal⟩
    exact (totalFrom_ok htotal).1
  · exact fun hclear => totalFrom_of_clear (fun _ => Size.isNaN)
      (fun _ he _ hx => hx.add he.size_train) Decimal.size_zero hclear

end Total

/-! ## What a report says -/

section Reports

variable {α : Type} [Scalar α]

private theorem root_of_rootMean {x r : α} {n : Int}
    (h : rootMean x n = .ok r) : r = Scalar.root (x / Scalar.ofInt n) := by
  rw [rootMean] at h
  split at h
  · cases h
  · exact (Except.ok.inj h).symm

/-- The training error of a report is a number, whatever was closed; a
validation error is the root of a mean over edges that are held out. -/
theorem numbers_of_errors {t : ErrorTally α} {train : α} {validation : Option α}
    (h : errors t = .ok (train, validation)) :
    Scalar.isNaN train = false ∧ ∀ v, validation = some v →
      0 < t.validationCount ∧
        v = Scalar.root (t.validation / Scalar.ofInt t.validationCount) := by
  obtain ⟨-, -, hnumber, hvalidation⟩ := errors_eq_ok.mp h
  refine ⟨hnumber, ?_⟩
  rintro v rfl
  rcases hvalidation with ⟨-, hnone⟩ | ⟨hheld, w, hsome, hroot⟩
  · cases hnone
  · obtain rfl := Option.some.inj hsome
    exact ⟨hheld, root_of_rootMean hroot⟩

/-- Nor does a history lose that when more is closed, and whatever fails. -/
theorem isNaN_closedAll {ω : Type} {shared : Monitor α × Settings α}
    (h : ∀ r ∈ shared.1.history, Scalar.isNaN r.trainError = false)
    (calls : List (Scene α × ErrorTally α)) :
    ∀ r ∈ (closedAll (ω := ω) shared calls).1.history,
      Scalar.isNaN r.trainError = false := by
  refine List.foldlRecOn calls _
    (motive := fun reached : Monitor α × Settings α =>
      ∀ r ∈ reached.1.history, Scalar.isNaN r.trainError = false) h
    fun reached hreached call _ => ?_
  rw [closed, next]
  rcases close_cases (ω := ω) { call.1 with settings := reached.2 } reached.1
      (some call.2) with ⟨-, hclose⟩ | ⟨-, cause, -, hclose⟩ |
    ⟨-, train, validation, notes, herrors, hclose⟩
  · rw [hclose]
    exact hreached
  · rw [hclose]
    exact hreached
  · rw [hclose]
    intro r hr
    rcases List.mem_append.mp hr with hr | hr
    · exact hreached r hr
    · rw [List.mem_singleton.mp hr]
      exact (numbers_of_errors herrors).1

/-- The validation part of a sum of tallies. -/
theorem validation_foldl (tallies : List (ErrorTally α))
    (first : ErrorTally α) :
    (tallies.foldl ErrorTally.plus first).validation =
      (tallies.map (·.validation)).foldl (· + ·) first.validation := by
  induction tallies generalizing first with
  | nil => rfl
  | cons t rest ih => exact ih (first.plus t)

/-- No more edges are held out than there are. -/
theorem validationCount_foldl (s : Settings α) (look : Nat → Vertex α)
    (edges : List (Edge α)) (first : ErrorTally α) :
    ((edges.map (ErrorTally.ofRating s look)).foldl ErrorTally.plus
      first).validationCount ≤
      first.validationCount + edges.length := by
  induction edges generalizing first with
  | nil => simp
  | cons e rest ih =>
      have hone : (ErrorTally.ofRating s look e).validationCount ≤ 1 := by
        rw [ErrorTally.ofRating]
        split <;> simp [ErrorTally.none]
      refine (ih (first.plus (ErrorTally.ofRating s look e))).trans ?_
      simp only [ErrorTally.plus, List.length_cons]
      push_cast
      omega

end Reports

private theorem size_div_ofInt {x : Float} (hx : Size x) {n : Int}
    (hpos : 0 < n) (hshort : n < 2 ^ 53) : Size (x / Scalar.ofInt n) := by
  have hcount : (Scalar.ofInt n : Float) = Float.ofNat n.natAbs :=
    if_neg (by omega)
  rw [hcount]
  exact hx.div_ofNat (by omega) (by omega)

/-- The validation error of a report over fewer edges than doubles can count is
no number exactly if the residual of a held-out rating is none. -/
theorem isNaN_validationError {total : Option (ErrorTally Float)}
    {train v : Float}
    (htotal : (watching (ω := ω) name interval lastRun m).total scene =
      .ok total)
    (herrors : errors (total.getD ErrorTally.none) = .ok (train, some v))
    (hshort : scene.graph.edges.toList.length < 2 ^ 53) :
    v.isNaN = true ↔ ∃ e ∈ scene.graph.edges.toList, e.role = .validate ∧
      (residualAt scene.settings scene.vertex e).isNaN = true := by
  obtain ⟨-, rfl⟩ := totalFrom_ok htotal
  rw [Graph.map_edgeAt_range] at herrors
  obtain ⟨hpos, rfl⟩ := (numbers_of_errors herrors).2 v rfl
  rw [Option.getD_some] at hpos ⊢
  have hcount := validationCount_foldl scene.settings scene.vertex
    scene.graph.edges.toList ErrorTally.none
  have hnone : (ErrorTally.none : ErrorTally Float).validationCount = 0 := rfl
  rw [validation_foldl, List.map_map]
  constructor
  · -- Without such an edge all terms are sizes, and so are the mean and its
    -- root.
    intro hnan
    by_contra hfree
    have hsizes : ∀ e ∈ scene.graph.edges.toList,
        Size (ErrorTally.ofRating scene.settings scene.vertex e).validation :=
      fun e he => ErrorTally.size_validation fun hrole =>
        Bool.eq_false_iff.mpr fun hresidual =>
          hfree ⟨e, he, hrole, hresidual⟩
    have hsum := size_foldl (List.forall_mem_map.mpr hsizes) Decimal.size_zero
    have hmean := size_div_ofInt hsum hpos (by omega)
    exact Bool.false_ne_true (hmean.sqrt.isNaN.symm.trans hnan)
  · rintro ⟨e, he, hrole, hnan⟩
    refine Decimal.isNaN_sqrt (Decimal.isNaN_div
      (isNaN_foldl (.inr ⟨_, List.mem_map.mpr ⟨e, he, rfl⟩, ?_⟩)) _)
    rw [Function.comp, ErrorTally.ofRating, hrole]
    exact (isNaN_squaredAt ..).trans hnan

end Monitor

/-! ## Runs of the aggregator -/

namespace Session

variable {σ ω : Type}
  {s : Session Float σ ω (Monitor Float) (ErrorTally Float)
    (Option (Report Float))}
  {name : String} {interval : Option Float} {lastRun : Float}
  {m : Monitor Float}

/-- The residual of an edge, for the vertices as they are. -/
def residual (s : Session Float σ ω (Monitor Float) (ErrorTally Float)
    (Option (Report Float))) (e : Edge Float) : Float :=
  residualAt s.engine.settings s.engine.scene.vertex e

/-- If errors cannot be added up, nothing has changed. -/
theorem aggregate_of_total_error {cause : Failure}
    (hfind : s.find? name = some (Monitor.watching name interval lastRun m))
    (htotal : (Monitor.watching (ω := ω) name interval lastRun m).total
        s.engine.scene = .error cause) :
    (aggregate name).perform s = (.error cause, s) := by
  rw [aggregate, Attempt.perform_get_bind, hfind]
  dsimp only
  rw [Attempt.perform_bind, Attempt.perform_lift, htotal]

/-- Errors can be added up exactly if every edge is clear.  So no run of the
aggregator goes through over a residual that is no number, if the rating is
learned from, or over an infinite square in either role: it fails, and nothing
has changed.  The training error of a report is a number, in every history; the
validation error is one unless a residual among the ratings held out is none. -/
theorem nan_residuals_met
    (hfind : s.find? name = some (Monitor.watching name interval lastRun m)) :
    ((∃ total, (Monitor.watching (ω := ω) name interval lastRun m).total
        s.engine.scene = .ok total) ↔
      ∀ e ∈ s.engine.graph.edges.toList,
        ErrorTally.Clear s.engine.settings s.engine.scene.vertex e) ∧
    (∀ answer t, (aggregate name).perform s = (.ok answer, t) →
      ∀ e ∈ s.engine.graph.edges.toList,
        (e.role = .train → (s.residual e).isNaN = false) ∧
          (e.IsCounted → (s.residual e * s.residual e).isInf = false)) ∧
    (∀ e ∈ s.engine.graph.edges.toList,
      e.role = .train ∧ (s.residual e).isNaN = true ∨
          e.IsCounted ∧ (s.residual e * s.residual e).isInf = true →
        ∃ cause, (aggregate name).perform s = (.error cause, s) ∧
          ((∀ e' ∈ s.engine.graph.edges.toList, s.engine.scene.Matches e') →
            cause.kind = .assertion)) ∧
    (∀ report t, (aggregate name).perform s = (.ok (some report), t) →
      report.trainError.isNaN = false ∧
        (s.engine.graph.edges.toList.length < 2 ^ 53 → ∀ v,
          report.validationError = some v →
            (v.isNaN = true ↔ ∃ e ∈ s.engine.graph.edges.toList,
              e.role = .validate ∧ (s.residual e).isNaN = true))) ∧
    ∀ (k : Int) (verbose : Bool) (fresh : Monitor Float),
      Monitor.make k verbose = .ok fresh →
      ∀ (settings : Settings Float)
        (calls : List (Scene Float × ErrorTally Float)),
        ∀ r ∈ (Monitor.closedAll (ω := ω) (fresh, settings) calls).1.history,
          r.trainError.isNaN = false := by
  have hclear : ∀ answer t, (aggregate name).perform s = (.ok answer, t) →
      ∀ e ∈ s.engine.graph.edges.toList,
        ErrorTally.Clear s.engine.settings s.engine.scene.vertex e := by
    intro answer t hrun
    obtain ⟨a, total, ha, htotal, -, -⟩ := aggregate_ok hrun
    obtain rfl := Option.some.inj (hfind.symm.trans ha)
    exact Monitor.exists_total_iff.mp ⟨total, htotal⟩
  have hmet : ∀ e, ErrorTally.Clear s.engine.settings s.engine.scene.vertex e →
      (e.role = .train → (s.residual e).isNaN = false) ∧
        (e.IsCounted → (s.residual e * s.residual e).isInf = false) := by
    refine fun e h => ⟨fun hrole => ?_, fun hcounted => h.finite ?_⟩
    · exact (isNaN_squaredAt ..).symm.trans (h.number hrole)
    · rcases hcounted with hrole | hrole <;> simp [hrole]
  refine ⟨Monitor.exists_total_iff,
    fun answer t hrun e he => hmet e (hclear answer t hrun e he), ?_, ?_, ?_⟩
  · intro e he hbad
    cases htotal : (Monitor.watching (ω := ω) name interval lastRun m).total
        s.engine.scene with
    | ok total =>
        obtain ⟨hnumber, hfinite⟩ :=
          hmet e (Monitor.exists_total_iff.mp ⟨total, htotal⟩ e he)
        rcases hbad with ⟨hrole, hnan⟩ | ⟨hcounted, hinfinite⟩
        · rw [hnumber hrole] at hnan
          cases hnan
        · rw [hfinite hcounted] at hinfinite
          cases hinfinite
    | error cause =>
        refine ⟨cause, aggregate_of_total_error hfind htotal,
          fun hmatches => ?_⟩
        exact Monitor.kind_of_totalFrom (by rwa [Graph.map_edgeAt_range]) htotal
  · intro report t hrun
    obtain ⟨a, total, ha, htotal, hanswer, -⟩ := aggregate_ok hrun
    obtain rfl := Option.some.inj (hfind.symm.trans ha)
    have herrors := Monitor.errors_of_close hanswer
    refine ⟨(Monitor.numbers_of_errors herrors).1, fun hshort v hv => ?_⟩
    rw [hv] at herrors
    exact Monitor.isNaN_validationError htotal herrors hshort
  · intro k verbose fresh hmake settings calls
    rw [Monitor.make_ok hmake]
    exact Monitor.isNaN_closedAll (fun r hr => absurd hr List.not_mem_nil) calls

/-- A rating of three that is learned from, and another one that is held out, in
a session with a monitor that reports at each closing. -/
def heldOutSession (learned heldOut : Float) :
    Session Float (Descent.Slot Float) Empty (Monitor Float) (ErrorTally Float)
      (Option (Report Float)) where
  engine := Engine.make .synchronous (Evaluation.twoRatings learned heldOut)
    #[⟨[1.0], 0.0, 0⟩, ⟨[1.0], 0.0, 0⟩, ⟨[1.0], 0.0, 0⟩]
    (Evaluation.twoScene 1.0 0.0 0.0 5.0 3.0 3.0).settings none fun _ => 0.0
  aggregators := [Monitor.watching "error" none 0.0 ⟨1, false, 0, []⟩]
  limit := none
  seed := none
  sinceDue := 0

private theorem find?_heldOutSession (learned heldOut : Float) :
    (heldOutSession learned heldOut).find? "error" =
      some (Monitor.watching "error" none 0.0 ⟨1, false, 0, []⟩) :=
  find?_single rfl

private theorem edges_heldOutSession (learned heldOut : Float) :
    (heldOutSession learned heldOut).engine.graph.edges.toList =
      [⟨2, 1, learned, .train⟩, ⟨2, 0, heldOut, .validate⟩] := rfl

/-- A rating that is learned from and is no number stops the run; the training
error of a report over one that is held out is a number. -/
theorem nan_residuals_met_held_out :
    (∃ cause, (aggregate "error").perform (heldOutSession Evaluation.nan 2.0) =
        (.error cause, heldOutSession Evaluation.nan 2.0) ∧
        cause.kind = .assertion) ∧
      ∃ report t,
        (aggregate "error").perform (heldOutSession 3.0 Evaluation.nan) =
        (.ok (some report), t) ∧ report.trainError.isNaN = false := by
  obtain ⟨-, -, hmet, -⟩ :=
    nan_residuals_met (find?_heldOutSession Evaluation.nan 2.0)
  obtain ⟨-, -, -, hreport, -⟩ :=
    nan_residuals_met (find?_heldOutSession 3.0 Evaluation.nan)
  constructor
  · obtain ⟨cause, hrun, hkind⟩ := hmet _ List.mem_cons_self
      (.inl ⟨rfl, by decide +kernel⟩)
    refine ⟨cause, hrun, hkind fun e he => ?_⟩
    rw [edges_heldOutSession] at he
    rcases List.mem_pair.mp he with rfl | rfl <;> exact fun _ => rfl
  · have hsome : ((aggregate "error").perform
        (heldOutSession 3.0 Evaluation.nan)).1.toOption.join.isSome = true := by
      decide +kernel
    obtain ⟨report, hanswer⟩ := Option.isSome_iff_exists.mp hsome
    have hrun :=
      Attempt.perform_of_toOption (Option.join_eq_some_iff.mp hanswer)
    exact ⟨report, _, hrun, (hreport report _ hrun).1⟩

/-- A run over a rating that is held out and is no number goes through, and the
validation error in the history is no number. -/
theorem nan_residuals_met_fail :
    ((aggregate "error").perform
        (heldOutSession 3.0 Evaluation.nan)).1.isOk = true ∧
      ((aggregate "error").perform
          (heldOutSession 3.0 Evaluation.nan)).2.aggregators.map
          (fun a =>
            a.state.history.map fun r => r.validationError.map Float.isNaN) =
        [[some true]] ∧
      ∃ e ∈ (heldOutSession 3.0 Evaluation.nan).engine.graph.edges.toList,
        e.role = .validate ∧
          ((heldOutSession 3.0 Evaluation.nan).residual e).isNaN = true := by
  refine ⟨by decide +kernel, by decide +kernel,
    ⟨2, 0, Evaluation.nan, .validate⟩, ?_, rfl, by decide +kernel⟩
  exact List.mem_cons_of_mem _ List.mem_cons_self

end Session

end RatingFactors
