import RatingFactors.CommandLine.Arguments
import RatingFactors.CommandLine.Console
import RatingFactors.Ratings.Source

/-!
# The preparing command

Turns a ratings file into a folder of edge files: loads the ratings and draws
what they are used for, removes repeated ratings, and writes one file for each
use. Columns are not moved, since edge files have no negative numbers; that is
left to training.
-/

namespace RatingFactors.CommandLine

open RatingFactors.Configuration (Value)
open Ratings

/-- What the preparing command accepts. -/
def prepareCommand : Command where
  plain := ["ratings", "output_dir"]
  options := [
    ⟨"--valid_ratio", "valid_ratio", .real⟩,
    ⟨"--predict_ratio", "predict_ratio", .real⟩,
    ⟨"--seed", "seed", .whole⟩]

/-- What a preparing command is to do. -/
structure PrepareOrder where
  ratings : String
  folder : String
  /-- The options of the source that were given. -/
  options : List (String × Value)

/-- The order that given values make. -/
def PrepareOrder.ofGiven (g : Given) : PrepareOrder where
  ratings := g.plain.headD ""
  folder := g.plain.getD 1 ""
  options := ("remap_target", .flag false) :: g.values

/-- The lines at the end of the command. -/
def PrepareOrder.closingLines (o : PrepareOrder) (s : Summary Float) :
    List String :=
  Console.banner "ПОДГОТОВКА ДАННЫХ ЗАВЕРШЕНА!" ++ [
    "СТАТИСТИКА:", s!"  Строк: {s.rowCount}", s!"  Колонок: {s.columnCount}",
    s!"  Train: {s.trainCount}", s!"  Validate: {s.validateCount}",
    s!"  Predict: {s.predictCount}",
    "  Разреженность: " ++ Scalar.fixed 4 s.sparsity, "",
    "id пользователей и фильмов пересекаются, обучайте с --remap_target:",
    "  python scripts/train_biassgd.py " ++ o.folder ++ " --remap_target", ""]

/-- The whole order. -/
def PrepareOrder.work {κ : Type} (o : PrepareOrder) :
    Attempt (Console κ) Unit := do
  Console.say (Console.banner ("ПОДГОТОВКА ДАННЫХ: " ++ o.ratings))
  Console.say ["ШАГ 1: Загрузка рейтингов"]
  let source ← Attempt.lift (Source.make "movielens" o.options)
  let loaded ← Console.telling (source.load (← get).files o.ratings)
  Console.say ["", "ШАГ 2: Удаление дубликатов"]
  let rows ← Console.telling (withoutRepeats .last loaded.rows)
  Console.say ["", "ШАГ 3: Запись edge-list файлов"]
  let written := writeEdges (← get).files o.folder "ratings" rows
  modify fun c => { c with files := written.files }
  Console.say written.lines
  Console.say (o.closingLines (summarize rows))
  Console.say [" Успешно!"]

/-- What is printed about a failure of the preparing command. -/
def reportPreparing (cause : Failure) : List String :=
  [" Ошибка: " ++ cause.message]

/-- How the preparing command is used. -/
def prepareUsage : String :=
  "prepare ratings output_dir [options]: "
    ++ " ".intercalate (prepareCommand.options.map (·.written))

/-- Runs the preparing command. -/
def prepare {κ : Type} (arguments : List String) (files : Files κ) : Ending κ :=
  match prepareCommand.read arguments with
  | .help => .early 0 [prepareUsage] files
  | .mistake => .early 2 [] files
  | .given g =>
    Console.finish (PrepareOrder.ofGiven g).work reportPreparing files

end RatingFactors.CommandLine
