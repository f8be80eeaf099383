import RatingFactors.CommandLine.Arguments
import RatingFactors.CommandLine.Console
import RatingFactors.Configuration.Settings
import RatingFactors.Ratings.Dataset
import RatingFactors.Results

/-!
# The training command

Loads a matrix of ratings, learns its model, prints the final errors, and saves
results, figure and checkpoint in the folder for output if one is named.

What is said on the command line comes before the configuration file. A failure
while the configuration is being read ends the command at once; later failures
are reported.
-/

namespace RatingFactors.CommandLine

open RatingFactors.Configuration (Value)

/-- What the training command accepts. -/
def trainCommand : Command where
  plain := ["matrix"]
  options := [
    ⟨"--config", "config", .text⟩, ⟨"--D", "latent_dim", .whole⟩,
    ⟨"--engine", "engine", .choice ["synchronous", "asynchronous"]⟩,
    ⟨"--max_iter", "max_updates", .whole⟩, ⟨"--lambda", "lambda", .real⟩,
    ⟨"--gamma", "gamma", .real⟩, ⟨"--debug", "debug", .switch⟩,
    ⟨"--maxval", "max_val", .real⟩, ⟨"--minval", "min_val", .real⟩,
    ⟨"--step_dec", "step_dec", .real⟩, ⟨"--interval", "interval", .real⟩,
    ⟨"--report_every", "report_every", .whole⟩,
    ⟨"--predictions", "predictions", .text⟩, ⟨"--output", "output", .text⟩,
    ⟨"--loader", "loader", .text⟩, ⟨"--remap_target", "remap_target", .switch⟩,
    ⟨"--max_iterations", "max_iterations", .whole⟩, ⟨"--seed", "seed", .whole⟩,
    ⟨"--plot", "plot", .switch⟩]

/-- The options that are not about the configuration. -/
def ownOptions : List String := ["config", "output", "plot"]

/-- What a training command is to do. -/
structure TrainOrder where
  matrix : String
  configuration : Configuration
  /-- The folder for output, if there is to be any. -/
  output : Option String
  plot : Bool

/-- The order that given values make. -/
def TrainOrder.ofGiven {κ : Type} (g : Given) (files : Files κ) :
    Except Failure TrainOrder := do
  let said := g.values.filter fun (name, _) => !ownOptions.contains name
  let configuration ← Configuration.load files (g.text? "config") said
  let output := match g.text? "output" with
    | some folder => if folder == "" then none else some (Path.tidy folder)
    | none => none
  let configuration := match output with
    | some folder =>
      if (configuration.find "checkpoint_dir").isTrue then configuration
      else
        configuration.put "checkpoint_dir"
          (.text (Path.join folder "checkpoints"))
    | none => configuration
  return {
    matrix := g.plain.headD "", configuration, output, plot := g.isOn "plot" }

namespace TrainOrder

/-- Work on a tree of files that holds saved things. -/
abbrev Work (β : Type) : Type :=
  Attempt (Console (Artifact Float)) β

/-- Loads the ratings and builds their graph. -/
def prepare (o : TrainOrder) :
    Work (Dataset × Graph Float × Array (Vertex Float)) := do
  Console.say ["ШАГ 1: Загрузка графа", Console.rule '-']
  let (answer, dataset) :=
    (Dataset.buildGraph (← get).files).perform
      (Dataset.make o.matrix o.configuration)
  Console.say dataset.printed
  let (graph, vertices) ← Attempt.lift answer
  Console.say [""]
  return (dataset, graph, vertices)

/-- Learns the model of a graph. -/
def learn (configuration : Configuration) (graph : Graph Float)
    (vertices : Array (Vertex Float)) (pace : Nat → Float) :
    Work (Outcome Float) := do
  Console.say ["ШАГ 2: Обучение", Console.rule '-']
  let settings ← Attempt.lift (Settings.ofConfiguration configuration)
  let options ←
    Attempt.lift (TrainingOptions.ofConfiguration settings configuration)
  let trainer ← Attempt.lift <|
    Trainer.make graph vertices settings options pace (← get).files
  let (answer, trainer) := Trainer.train.perform trainer
  Console.say trainer.printed
  modify fun c => { c with files := trainer.files }
  Attempt.lift answer

/-- The document of the results. -/
def document (o : TrainOrder) (dataset : Dataset) (outcome : Outcome Float) :
    Document :=
  let summary :=
    (dataset.summary.map Ratings.Summary.document).getD (.object [])
  .object ([("matrix", .text o.matrix), ("stats", summary)] ++ outcome.entries)

/-- Saves the results, and the figure if asked to, in a folder. -/
def save (o : TrainOrder) (dataset : Dataset) (outcome : Outcome Float)
    (folder : String) : Work Unit := do
  let path := Path.join folder "results.json"
  modify fun c => { c with
    files := (c.files.makeFolders folder).put path
      (.thing (.results (o.document dataset outcome))) }
  Console.say ["", "✅ Результаты сохранены: " ++ path]
  if o.plot then
    let figure ← Attempt.lift <|
      Figure.ofPoints (outcome.history.map Figure.Point.ofReport) none
    let path := Path.join folder "convergence.png"
    modify fun c =>
      { c with files := c.files.put path (.thing (.figure figure)) }
    Console.say [Figure.savedLine path]

/-- The whole order. -/
def work (o : TrainOrder) (pace : Nat → Float) : Work Unit := do
  Console.say (Console.banner ("BIAS-SGD: " ++ o.matrix))
  let (dataset, graph, vertices) ← o.prepare
  let outcome ← learn dataset.configuration graph vertices pace
  Console.say ("ФИНАЛЬНЫЕ МЕТРИКИ:" :: outcome.metrics.lines)
  match o.output with
  | some folder => o.save dataset outcome folder
  | none => pure ()
  Console.say (Console.banner "ОБУЧЕНИЕ ЗАВЕРШЕНО УСПЕШНО!")

end TrainOrder

/-- What is printed about a failure of the training command. -/
def reportTraining (cause : Failure) : List String :=
  ["", "❌ ОШИБКА: " ++ cause.message]

/-- How the training command is used. -/
def trainUsage : String :=
  "train matrix [options]: " ++
    " ".intercalate (trainCommand.options.map (·.written))

/-- Runs the training command with a clock of the given pace. -/
def train (arguments : List String) (pace : Nat → Float)
    (files : Files (Artifact Float)) :
    Except Failure (Ending (Artifact Float)) :=
  match trainCommand.read arguments with
  | .help => .ok (.early 0 [trainUsage] files)
  | .mistake => .ok (.early 2 [] files)
  | .given g => do
    let order ← TrainOrder.ofGiven g files
    return Console.finish (order.work pace) reportTraining files

end RatingFactors.CommandLine
