import RatingFactors.Monitor
import RatingFactors.Proofs.Attempt
import RatingFactors.Proofs.Descent.Posts
import RatingFactors.Proofs.Roots

/-!
# Adding up errors

Which edges can be added to a tally, and what they add.  An edge is clear if its
role is known, the vectors at its ends agree in length, its squared residual is
finite, and, for a training edge, is a number.  Tallies are added part by part;
the sum is refused only when its training part is no number.  Where adding zero
changes nothing, the parts of a sum of edges are the sums of the squared
residuals of either role.

## Main definitions

* `squaredAt` — the squared residual of an edge.
* `squaresOf` — the squared residuals of the edges of a role.
* `ErrorTally.Clear` — an edge that can be added.
* `ErrorTally.ofRating`, `ErrorTally.plus` — what an edge adds, and the sum of
  two tallies.

## Main results

* `ofEdge_eq_ok`, `add_eq_ok` — when the two give a result, and which.
* `foldl_plus` — the parts of a sum of edges.
-/

namespace RatingFactors

open Descent

variable {α : Type} [Scalar α]

/-- The squared residual of an edge. -/
def squaredAt (s : Settings α) (look : Nat → Vertex α) (e : Edge α) : α :=
  let prediction := s.clamp (s.globalMean + (look e.source).bias +
    (look e.target).bias + Scalar.dot (look e.source).latent
      (look e.target).latent)
  (e.value - prediction) * (e.value - prediction)

/-- The squared residuals of the edges of a role, in order. -/
def squaresOf (s : Settings α) (look : Nat → Vertex α) (role : Role)
    (edges : List (Edge α)) : List α :=
  (edges.filter fun e => e.role = role).map (squaredAt s look)

private theorem squaresOf_cons (s : Settings α) (look : Nat → Vertex α)
    (role : Role) (e : Edge α) (rest : List (Edge α)) :
    squaresOf s look role (e :: rest) = if e.role = role then
      squaredAt s look e :: squaresOf s look role rest
      else squaresOf s look role rest := by
  rw [squaresOf, List.filter_cons]
  split <;> rename_i h
  · rw [if_pos (by simpa using h)]
    rfl
  · rw [if_neg (by simpa using h)]
    rfl

theorem length_squaresOf (s : Settings α) (look : Nat → Vertex α) (role : Role)
    (edges : List (Edge α)) :
    (squaresOf s look role edges).length =
      (edges.filter fun e => e.role = role).length :=
  List.length_map _

theorem squaresOf_ne_nil (s : Settings α) (look : Nat → Vertex α) (role : Role)
    (edges : List (Edge α)) :
    squaresOf s look role edges ≠ [] ↔ ∃ e ∈ edges, e.role = role := by
  simp [squaresOf]

theorem nonneg_squaresOf (haverage : Scalar.Averaging α) (s : Settings α)
    (look : Nat → Vertex α) (role : Role) (edges : List (Edge α)) :
    ∀ x ∈ squaresOf s look role edges, Scalar.Nonneg x := by
  intro x hx
  obtain ⟨e, -, rfl⟩ := List.mem_map.mp hx
  exact haverage.nonneg_mul_self _

theorem squaresOf_perm (s : Settings α) (look : Nat → Vertex α) (role : Role)
    {edges others : List (Edge α)} (h : edges.Perm others) :
    (squaresOf s look role edges).Perm (squaresOf s look role others) :=
  (h.filter _).map _

/-- A squared residual is computed if the vectors agree in length and the result
is finite. -/
theorem squaredResidual_eq_ok {scene : Scene α} {number : Nat} {x : α} :
    squaredResidual scene number = .ok x ↔
      ((scene.vertex (scene.graph.edgeAt number).source).latent.length =
          (scene.vertex (scene.graph.edgeAt number).target).latent.length ∧
        Scalar.isInfinite (squaredAt scene.settings scene.vertex
          (scene.graph.edgeAt number)) = false) ∧
      x = squaredAt scene.settings scene.vertex
        (scene.graph.edgeAt number) := by
  have hedge : scene.edge number = scene.graph.edgeAt number := rfl
  rw [squaredResidual, hedge, Attempt.bind_ok]
  constructor
  · rintro ⟨prediction, hpredict, h⟩
    rw [Settings.predict] at hpredict
    split at hpredict
    · rename_i hlengths
      obtain rfl := Except.ok.inj hpredict
      dsimp only at h
      split at h
      · cases h
      · rename_i hfinite
        exact ⟨⟨hlengths, by simpa [squaredAt] using hfinite⟩,
          (Except.ok.inj h).symm⟩
    · cases hpredict
  · rintro ⟨⟨hlengths, hfinite⟩, rfl⟩
    refine ⟨_, by rw [Settings.predict, if_pos hlengths], ?_⟩
    dsimp only [squaredAt] at hfinite ⊢
    rw [hfinite]
    rfl

namespace ErrorTally

/-- Nothing stands in the way of adding up the edge. -/
structure Clear (s : Settings α) (look : Nat → Vertex α) (e : Edge α) :
    Prop where
  known : e.role.isKnown = true
  lengths : e.role ≠ .predict →
    (look e.source).latent.length = (look e.target).latent.length
  finite : e.role ≠ .predict → Scalar.isInfinite (squaredAt s look e) = false
  number : e.role = .train → Scalar.isNaN (squaredAt s look e) = false

/-- What an edge adds: its squared residual, to the sum of its role. -/
def ofRating (s : Settings α) (look : Nat → Vertex α) (e : Edge α) :
    ErrorTally α :=
  match e.role with
  | .train => { none with train := squaredAt s look e, trainCount := 1 }
  | .validate =>
    { none with validation := squaredAt s look e, validationCount := 1 }
  | _ => none

/-- The sum of two tallies, part by part. -/
def plus (a b : ErrorTally α) : ErrorTally α where
  train := a.train + b.train
  validation := a.validation + b.validation
  trainCount := a.trainCount + b.trainCount
  validationCount := a.validationCount + b.validationCount

section Edge

variable {scene : Scene α} {number : Nat}

theorem Clear.squaredResidual
    (h : Clear scene.settings scene.vertex (scene.graph.edgeAt number))
    (hknown : (scene.graph.edgeAt number).role ≠ .predict) :
    squaredResidual scene number =
      .ok (squaredAt scene.settings scene.vertex (scene.graph.edgeAt number)) :=
  squaredResidual_eq_ok.mpr ⟨⟨h.lengths hknown, h.finite hknown⟩, rfl⟩

private theorem clear_of_squaredResidual {x : α}
    (hx : squaredResidual scene number = .ok x)
    (hknown : (scene.graph.edgeAt number).role.isKnown = true)
    (hnumber : (scene.graph.edgeAt number).role = .train →
      Scalar.isNaN x = false) :
    Clear scene.settings scene.vertex (scene.graph.edgeAt number) := by
  obtain ⟨⟨hlengths, hfinite⟩, rfl⟩ := squaredResidual_eq_ok.mp hx
  exact ⟨hknown, fun _ => hlengths, fun _ => hfinite, hnumber⟩

/-- An edge can be looked at if it is clear. -/
theorem ofEdge_eq_ok {t : ErrorTally α} :
    ofEdge scene number = .ok t ↔
      Clear scene.settings scene.vertex (scene.graph.edgeAt number) ∧
        t = ofRating scene.settings scene.vertex
          (scene.graph.edgeAt number) := by
  have hedge : scene.edge number = scene.graph.edgeAt number := rfl
  rw [ofEdge, hedge, ofRating]
  cases hrole : (scene.graph.edgeAt number).role with
  | train =>
      dsimp only
      rw [Attempt.bind_ok]
      constructor
      · rintro ⟨x, hx, h⟩
        split at h
        · cases h
        · rename_i hnumber
          rw [← (squaredResidual_eq_ok.mp hx).2]
          exact ⟨clear_of_squaredResidual hx (by rw [hrole]; rfl)
            fun _ => by simpa using hnumber, (Except.ok.inj h).symm⟩
      · rintro ⟨hclear, rfl⟩
        refine ⟨_, hclear.squaredResidual (by rw [hrole]; decide), ?_⟩
        rw [hclear.number hrole]
        rfl
  | validate =>
      dsimp only
      rw [Attempt.bind_ok]
      constructor
      · rintro ⟨x, hx, h⟩
        rw [← (squaredResidual_eq_ok.mp hx).2]
        exact ⟨clear_of_squaredResidual hx (by rw [hrole]; rfl)
          fun htrain => absurd (hrole.symm.trans htrain) (by decide),
          (Except.ok.inj h).symm⟩
      · rintro ⟨hclear, rfl⟩
        exact ⟨_, hclear.squaredResidual (by rw [hrole]; decide), rfl⟩
  | predict =>
      constructor
      · exact fun h => ⟨⟨by rw [hrole]; rfl, fun hother => absurd hrole hother,
          fun hother => absurd hrole hother,
          fun htrain => absurd (hrole.symm.trans htrain) (by decide)⟩,
          (Except.ok.inj h).symm⟩
      · rintro ⟨-, rfl⟩
        rfl
  | other label =>
      constructor
      · intro h
        cases h
      · rintro ⟨hclear, -⟩
        have hknown := hclear.known
        rw [hrole] at hknown
        cases hknown

end Edge

/-- Tallies can be added if the sum of their training parts is a number. -/
theorem add_eq_ok {a b c : ErrorTally α} :
    add a b = .ok c ↔
      Scalar.isNaN (a.train + b.train) = false ∧ c = a.plus b := by
  rw [add, absorb, Attempt.perform_modify_bind, Attempt.perform_get_bind]
  dsimp only
  cases hnumber : Scalar.isNaN (a.train + b.train) with
  | true =>
      constructor
      · intro h
        cases h
      · rintro ⟨h, -⟩
        cases h
  | false =>
      constructor
      · exact fun h => ⟨rfl, (Except.ok.inj h).symm⟩
      · rintro ⟨-, rfl⟩
        rfl

/-- What a clear edge adds to the training part is a number, and not below
zero. -/
theorem train_ofRating (haverage : Scalar.Averaging α) {s : Settings α}
    {look : Nat → Vertex α} {e : Edge α} (h : Clear s look e) :
    Scalar.Nonneg (ofRating s look e).train ∧
      Scalar.isNaN (ofRating s look e).train = false := by
  rw [ofRating]
  cases hrole : e.role with
  | train => exact ⟨haverage.nonneg_mul_self _, h.number hrole⟩
  | validate => exact ⟨haverage.nonneg_zero, haverage.isNaN_zero⟩
  | predict => exact ⟨haverage.nonneg_zero, haverage.isNaN_zero⟩
  | other label => exact ⟨haverage.nonneg_zero, haverage.isNaN_zero⟩

/-- The parts of a sum of edges, where adding zero changes nothing. -/
theorem foldl_plus (hzero : ∀ x : α, x + Scalar.zero = x) (s : Settings α)
    (look : Nat → Vertex α) (edges : List (Edge α)) (first : ErrorTally α) :
    (edges.map (ofRating s look)).foldl plus first =
      { train := (squaresOf s look .train edges).foldl (· + ·) first.train
        validation :=
          (squaresOf s look .validate edges).foldl (· + ·) first.validation
        trainCount :=
          first.trainCount + (squaresOf s look .train edges).length
        validationCount := first.validationCount +
          (squaresOf s look .validate edges).length } := by
  induction edges generalizing first with
  | nil => simp [squaresOf]
  | cons e rest ih =>
      rw [List.map_cons, List.foldl_cons, ih, squaresOf_cons, squaresOf_cons]
      cases hrole : e.role <;>
        simp [plus, ofRating, hrole, none, hzero] <;> omega

end ErrorTally

end RatingFactors
