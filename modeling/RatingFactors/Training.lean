import RatingFactors.Checkpoint
import RatingFactors.Engine.Run

/-!
# Training

A trainer learns the model of a graph: it takes the mean of the training
ratings, wakes the rows, runs the engine to its end with the monitor watching,
reports the final errors, and saves what it was asked to save.

A run ends because every activation uses up budget, or because iterations are
bounded; a trainer without either is refused. The number of iterations after
which the engine would give up is computed from the budget that is left, and is
out of reach: an iteration applies at least one total, and a vertex is only
woken while it has budget.

## Main definitions

* `Trainer` — a session of the engine with the monitor, and what is to be saved
  where.
* `Trainer.make` — a trainer for a graph.
* `Trainer.train` — a whole run, with everything that is printed.
* `Trainer.checkpoint`, `Trainer.saveCheckpoint`, `Trainer.loadCheckpoint` —
  saving and taking up again.
-/

namespace RatingFactors

/-- The session of a trainer: its programs keep the steps sent to columns, and
its aggregator keeps a monitor. -/
abbrev LearningSession (α : Type) : Type :=
  Session α (Descent.Slot α) Empty (Monitor α) (ErrorTally α)
    (Option (Report α))

/-- Learns the model of a graph. -/
structure Trainer (α : Type) where
  session : LearningSession α
  /-- The beginning of the path for predictions, if they are to be saved. -/
  predictions : Option String
  /-- Were the identifiers of columns moved? -/
  moved : Bool
  /-- The folder for checkpoints, if they are to be saved. -/
  checkpointFolder : Option String
  /-- The number of training edges, once it has been counted. -/
  trainEdges : Nat
  files : Files (Artifact α)

/-- What a run reports at its end. -/
structure Outcome (α : Type) where
  globalMean : α
  runtime : α
  updates : Nat
  iterations : Nat
  history : List (Report α)
  finalRate : α
  metrics : Metrics α

/-- How a trainer works. -/
structure TrainingOptions where
  mode : Mode := .synchronous
  limit : Option Int := none
  seed : Option Int := none
  predictions : Option String := none
  moved : Bool := false
  checkpointFolder : Option String := none

namespace Trainer

variable {α : Type} [Scalar α]

/-- The name under which the monitor is registered. -/
def monitorName : String := "error"

/-- Would nothing end a run? -/
def isEndless (s : Settings α) (limited : Bool) : Bool :=
  s.budget.isNone && !limited

/-- A trainer for a graph with given vertices. -/
def make (g : Graph α) (vertices : Array (Vertex α)) (s : Settings α)
    (o : TrainingOptions) (pace : Nat → α) (files : Files (Artifact α)) :
    Except Failure (Trainer α) := do
  if isEndless s o.limit.isSome then throw .endlessRun
  let monitor ← Monitor.make s.reportEvery true
  let engine := Engine.make o.mode g vertices s none pace
  let session : LearningSession α := Session.make engine o.limit o.seed
  let (_, session) := session.register (Monitor.aggregator monitorName monitor)
  let (accepted, session) := session.makePeriodic monitorName s.interval
  if !accepted then throw .aggregatorRefused
  return {
    session
    predictions := o.predictions
    moved := o.moved
    checkpointFolder := o.checkpointFolder
    trainEdges := 0
    files }

/-- The engine of a trainer. -/
def engine (t : Trainer α) : Engine α (Descent.Slot α) Empty :=
  t.session.engine

/-- The state of the monitor. -/
def monitor (t : Trainer α) : Monitor α :=
  match t.session.find? monitorName with
  | some a => a.state
  | none => ⟨1, false, 0, []⟩

/-- Everything printed so far, line by line. -/
def printed (t : Trainer α) : List String :=
  t.engine.notes.toList.filterMap Note.line?

/-- Work on the session of a trainer. -/
def onSession {β : Type} (work : Attempt (LearningSession α) β) :
    Attempt (Trainer α) β :=
  fun t =>
    let (answer, session) := work.perform t.session
    (answer, { t with session := session })

/-- Work on the engine of a trainer. -/
def onEngine {β : Type} (work : Attempt (Engine α (Descent.Slot α) Empty) β) :
    Attempt (Trainer α) β :=
  onSession (Session.onEngine work)

/-- Prints lines. -/
def say (lines : List String) : Attempt (Trainer α) Unit :=
  onEngine (Attempt.each lines Engine.print)

/-- A line of one repeated character. -/
def rule (c : Char) : String :=
  String.ofList (List.replicate 60 c)

/-- The number of training edges of a graph. -/
def countTrain (g : Graph α) : Nat :=
  g.sumEdges (fun e => if e.role == .train then 1 else 0) 0

omit [Scalar α] in
/-- As many edges are counted as the mask of the role selects. -/
theorem countTrain_eq (g : Graph α) :
    countTrain g = (g.roleMask .train).count true := by
  rw [countTrain, Graph.sumEdges_masked Nat.add_zero, List.foldl_map,
    List.foldl_add_const, Nat.zero_add, Nat.one_mul, Graph.roleMask, List.count,
    List.countP_map, List.countP_eq_length_filter]
  congr 1
  exact List.filter_congr fun e _ => (beq_true _).symm

/-- The sum of the ratings of training edges. -/
def sumTrain (g : Graph α) : α :=
  g.sumEdges (fun e => if e.role == .train then e.value else Scalar.zero)
    Scalar.zero

/-- Takes the mean of the training ratings into the settings. -/
def takeMean : Attempt (Trainer α) Unit := do
  let g := (← get).engine.graph
  let count := countTrain g
  modify fun t => { t with trainEdges := count }
  if count = 0 then throw .noTrainingEdges
  let mean := sumTrain g / Scalar.ofInt count
  onEngine (modify fun e =>
    { e with settings := { e.settings with globalMean := mean } })
  say ["Глобальное среднее: " ++ Scalar.text mean]

/-- Wakes the rows. -/
def wakeRows {ω : Type} : Attempt (Engine α (Descent.Slot α) ω) Unit := do
  let places := List.range (← get).graph.size
  Attempt.each places fun place => do
    let e ← get
    Engine.heed place (Descent.wake e.scene place)

/-- How many more updates the budget of a vertex allows. -/
def budgetLeft (limit : Int) (v : Vertex α) : Nat :=
  (limit - v.updates).toNat

/-- A number of iterations that a run does not reach: the budget that is left,
and for each vertex the activations that may already be under way; without a
budget, the iterations that are left. -/
def patience (session : LearningSession α) : Nat :=
  let e := session.engine
  match e.settings.budget, session.limit with
  | some limit, _ =>
    e.vertices.toList.foldr (fun v count => budgetLeft limit v + 2 + count) 1
  | none, some limit => (limit - e.iteration).toNat + 1
  | none, none => 0

/-- The lines at the head of a run. -/
def headLines (e : Engine α (Descent.Slot α) Empty) : List String :=
  let s := e.settings
  let budget := match s.budget with
    | none => "None"
    | some limit => toString limit
  ["", rule '=', "BIAS-SGD", rule '=',
    s!"Вершин: {e.graph.size}",
    s!"Ребер: {e.graph.edgeCount}",
    "Движок: " ++ e.mode.label,
    "D: " ++ toString s.dimension
      ++ " | lambda: " ++ Scalar.text s.regularization
      ++ " | gamma: " ++ Scalar.text s.rate
      ++ " | step_dec: " ++ Scalar.text s.rateDecay,
    "Бюджет обновлений вершины: " ++ budget,
    rule '=', ""]

/-- The lines about the work of the engine. -/
def workLines (runtime : α) (updates : Nat) : List String :=
  let speed :=
    if Scalar.less Scalar.zero runtime then
      ["Скорость (обновлений/сек): " ++
        Scalar.fixed 2 (Scalar.ofInt updates / runtime)]
    else []
  ["", rule '-', "Время работы (секунд): " ++ Scalar.fixed 4 runtime,
    s!"Выполнено обновлений: {updates}"] ++ speed

/-- Saves the predictions, if asked to. -/
def savePredictions : Attempt (Trainer α) Unit := do
  let t ← get
  match t.predictions with
  | none => pure ()
  | some start =>
    say ["Сохранение предсказаний"]
    let e := t.engine
    let (files, line) ← Attempt.lift <|
      Evaluation.savePredictions e.graph e.vertices e.settings start
        t.moved t.files
    modify fun t => { t with files := files }
    say [line]

/-- What has been learned. -/
def checkpoint (t : Trainer α) : Except Failure (Checkpoint α) := do
  let e := t.engine
  let factors ← Factors.ofVertices e.graph e.vertices
  return {
    factors
    rate := e.settings.rate
    globalMean := e.settings.globalMean
    history := t.monitor.history }

/-- Saves a checkpoint: at the given path, or under its usual name in the folder
for checkpoints. The result is the path. -/
def saveCheckpoint (path : Option String) : Attempt (Trainer α) String := do
  let t ← get
  let path ← match path, t.checkpointFolder with
    | some path, _ => pure (Path.tidy path)
    | none, some folder => pure (Path.join folder "biassgd.pt")
    | none, none => throw .noCheckpointFolder
  modify fun t => { t with files := t.files.makeFolders (Path.parent path) }
  let saved ← Attempt.lift t.checkpoint
  modify fun t =>
    { t with files := t.files.put path (.thing (.checkpoint saved)) }
  say ["Чекпоинт сохранен: " ++ path]
  return path

/-- The trainer with what a checkpoint holds. -/
def restore (t : Trainer α) (c : Checkpoint α) : Trainer α :=
  let settings :=
    { t.engine.settings with rate := c.rate, globalMean := c.globalMean }
  let engine := { t.engine with
    vertices := c.factors.vertices.toArray
    settings := settings }
  let aggregators := t.session.aggregators.map fun a =>
    if a.name == monitorName then
      { a with state := { a.state with history := c.history } }
    else a
  { t with
    session := { t.session with engine := engine, aggregators := aggregators } }

/-- Takes up what a checkpoint holds; it must fit the graph. -/
def loadCheckpoint (path : String) : Attempt (Trainer α) Unit := do
  let t ← get
  let c ← Attempt.lift (Checkpoint.read t.files path)
  if !c.fits t.engine.graph then throw (.foreignCheckpoint path)
  set (t.restore c)

/-- A whole run. -/
def train : Attempt (Trainer α) (Outcome α) := do
  say (headLines (← get).engine)
  takeMean
  onEngine wakeRows
  say [s!"Активировано вершин: {(← get).engine.activeCount}", "Запуск Bias-SGD"]
  let begun := (← get).engine.now
  let updates ←
    onSession (Session.start Descent.program (patience (← get).session))
  let runtime := (← get).engine.now - begun
  say (workLines runtime updates)
  say ["Финальная ошибка:"]
  discard (onSession (Session.aggregate monitorName))
  let e := (← get).engine
  let metrics ← Attempt.lift (Evaluation.metrics e.graph e.vertices e.settings)
  savePredictions
  if (← get).checkpointFolder.isSome then discard (saveCheckpoint none)
  say [rule '=', ""]
  let t ← get
  return {
    globalMean := t.engine.settings.globalMean
    runtime
    updates
    iterations := t.engine.iteration
    history := t.monitor.history
    finalRate := t.engine.settings.rate
    metrics }

end Trainer

end RatingFactors
