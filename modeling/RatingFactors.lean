import RatingFactors.Configuration.Cabinet
import RatingFactors.Graph.Bipartite
import RatingFactors.Main
import RatingFactors.Proofs.Combination
import RatingFactors.Proofs.Configuration.Precedence
import RatingFactors.Proofs.Decimal.Grammar
import RatingFactors.Proofs.Decimal.Layout
import RatingFactors.Proofs.Decimal.Nearest
import RatingFactors.Proofs.Decimal.ReadBack
import RatingFactors.Proofs.Decimal.Rounding
import RatingFactors.Proofs.Decimal.Shortest
import RatingFactors.Proofs.Decimal.Stored
import RatingFactors.Proofs.Descent.Allowance
import RatingFactors.Proofs.Descent.Budget
import RatingFactors.Proofs.Descent.Calls
import RatingFactors.Proofs.Descent.Colours
import RatingFactors.Proofs.Descent.Counts
import RatingFactors.Proofs.Descent.Faults
import RatingFactors.Proofs.Descent.Flow
import RatingFactors.Proofs.Descent.Freshness
import RatingFactors.Proofs.Descent.Gauges
import RatingFactors.Proofs.Descent.HeldOut
import RatingFactors.Proofs.Descent.Iterations
import RatingFactors.Proofs.Descent.Modes
import RatingFactors.Proofs.Descent.Setbacks
import RatingFactors.Proofs.Descent.Snapshot
import RatingFactors.Proofs.Descent.Twins
import RatingFactors.Proofs.Engine.Deeds
import RatingFactors.Proofs.Engine.Endings
import RatingFactors.Proofs.Engine.Histories
import RatingFactors.Proofs.Engine.Recorded
import RatingFactors.Proofs.Engine.Waiting
import RatingFactors.Proofs.Evaluation
import RatingFactors.Proofs.Files
import RatingFactors.Proofs.Graph.Columns
import RatingFactors.Proofs.Graph.Rows
import RatingFactors.Proofs.Graph.Sides
import RatingFactors.Proofs.Monitor
import RatingFactors.Proofs.Predictions
import RatingFactors.Proofs.Ratings.Built
import RatingFactors.Proofs.Ratings.Datasets
import RatingFactors.Proofs.Ratings.EdgeFiles
import RatingFactors.Proofs.Ratings.EdgeGrammar
import RatingFactors.Proofs.Ratings.Kept
import RatingFactors.Proofs.Ratings.RatingsFile
import RatingFactors.Proofs.Ratings.Repeats
import RatingFactors.Proofs.Ratings.Routes
import RatingFactors.Proofs.Ratings.Strictness
import RatingFactors.Proofs.Reports
import RatingFactors.Proofs.Residuals
import RatingFactors.Proofs.Roots
import RatingFactors.Proofs.Scalar
import RatingFactors.Proofs.Tally
import RatingFactors.Proofs.Text.Lines
import RatingFactors.Proofs.Training
import RatingFactors.Proofs.Training.Checkpoints
import RatingFactors.Proofs.Training.Conclusion
import RatingFactors.Proofs.Training.Roles
import RatingFactors.Proofs.Training.Schedule
