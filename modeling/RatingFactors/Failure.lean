import RatingFactors.Text.Blank
import RatingFactors.Text.Quoted

/-!
# Causes of failure

Everything that can go wrong, from a line that is no edge to a residual that is
no number. Each cause carries what its message mentions, and the wording stands
in one place, `Failure.message`. `Failure.kind` sorts the causes; those of kind
`assertion` say that the work itself went wrong.

The causes follow the order of the work: values of a configuration, files and
tables, the graph, the vertex programs and the engine, the monitor, training,
and what is saved.
-/

namespace RatingFactors

/-- Why a piece of work was not done. -/
inductive Failure
  /-- A text that writes no number, or a number that has no whole part. -/
  | notANumber
  /-- A value of a kind that cannot be converted. -/
  | wrongKind
  /-- A number too large for the whole numbers it is to be stored in. -/
  | tooLarge
  /-- A configuration file that is not there. -/
  | configurationMissing (path : String)
  /-- A directory where a file was expected. -/
  | isDirectory (path : String)
  /-- A file that is not there, found out by opening it. -/
  | fileMissing (path : String)
  /-- A configuration file that is not well formed. -/
  | malformedConfiguration
  /-- A configuration file whose top level is no mapping. -/
  | notAMapping
  /-- Bytes that are no text. -/
  | undecodable
  /-- A path at which edge files were expected. -/
  | dataMissing (path : String)
  /-- A directory without edge files. -/
  | noEdgeFiles (path : String)
  /-- A line that is no edge, met by a strict reader. -/
  | malformedLine (path : String) (number : Nat) (line : String)
  /-- Shares of held-out ratings that leave nothing to learn from. -/
  | badShares (validation prediction : String)
  /-- A ratings table that is not there. -/
  | ratingsMissing (path : String)
  /-- A ratings table without a needed column. -/
  | columnsMissing (file : String) (missing found : List String)
  /-- A ratings table without even a header. -/
  | emptyTable
  /-- A row of a table with more fields than those before it. -/
  | raggedRow
  /-- A quote in a table that is never closed. -/
  | openQuote
  /-- A row without an identifier. -/
  | missingIdentifier
  /-- A kind of source that is not registered. -/
  | unknownSource (name : String) (known : List String)
  /-- An option that a source does not have. -/
  | unknownOption (name : String)
  /-- A source that gave no edges. -/
  | nothingLoaded (path : String)
  /-- A rule for repeated rows that is not known. -/
  | unknownKeepRule
  /-- A table without training rows, asked for their mean. -/
  | noTrainingRows
  /-- A role that is none of the three. -/
  | notARole (label : String)
  /-- Columns of a graph's edges that differ in length. -/
  | columnLengths
  /-- Identifiers that occur as rows and as columns. -/
  | sharedIdentifiers (count : Nat) (first : Int)
  /-- A seed outside its range. -/
  | seedOutOfRange (seed : Int)
  /-- A negative number of coordinates. -/
  | negativeDimension
  /-- A vertex that is not in the graph. -/
  | unknownVertex (id : Int)
  /-- An edge number that is not in the graph. -/
  | unknownEdge (number : Int)
  /-- A direction that is none of the four. -/
  | unknownDirection (name : String)
  /-- Vectors whose lengths do not fit. -/
  | vectorLengths
  /-- Steps of different lengths added together. -/
  | stepLengths (left right : Nat)
  /-- A lower bound above the upper one. -/
  | crossedBounds (low high : String)
  /-- A reporting period below one. -/
  | reportPeriod (given : String)
  /-- A phase that a vertex program leaves out. -/
  | phaseMissing (phase program : String)
  /-- A residual that is no number. -/
  | nanResidual (source target : Int)
  /-- An edge whose role is none of the three, met while learning. -/
  | unknownRole (label : String)
  /-- A gathered step at a column. -/
  | gatherAtColumn (id : Int)
  /-- A message with a step at a row. -/
  | messageAtRow (id : Int)
  /-- A kind of engine that is not known. -/
  | unknownEngine (name : String)
  /-- A name under which no aggregator is registered. -/
  | unknownAggregator (name : String)
  /-- A queue without the vertex that should be in it. -/
  | emptyQueue
  /-- An engine still busy when its patience ran out. -/
  | stillActive
  /-- A squared residual too large for a double. -/
  | infiniteError (source target : Int)
  /-- A training edge whose squared residual is no number. -/
  | nanTrainingEdge
  /-- A sum of training errors that is no number. -/
  | nanTrainingSum
  /-- A report without training edges. -/
  | noTrainingErrors
  /-- A root of a negative mean. -/
  | negativeRoot
  /-- A training error that is no number. -/
  | nanTrainingError
  /-- A run that nothing would end. -/
  | endlessRun
  /-- An aggregator that could not be registered. -/
  | aggregatorRefused
  /-- A graph without training edges. -/
  | noTrainingEdges
  /-- A selection of edges of the wrong length. -/
  | selectionLength
  /-- No folder for checkpoints. -/
  | noCheckpointFolder
  /-- A checkpoint of another graph. -/
  | foreignCheckpoint (path : String)
  /-- A report without one of its numbers. -/
  | incompleteReport
deriving Repr, DecidableEq

/-- The sorts of causes. -/
inductive Failure.Kind
  /-- A value that an elementary operation does not accept. -/
  | unfit
  /-- A value of a kind that cannot be used. -/
  | wrongKind
  /-- A number too large for where it is to be stored. -/
  | tooLarge
  /-- A directory in place of a file. -/
  | directory
  /-- A file that cannot be opened. -/
  | unopened
  /-- A path without the expected data. -/
  | absent
  /-- A document that is not well formed. -/
  | malformed
  /-- A document that is no mapping. -/
  | notAMapping
  /-- Bytes that are no text. -/
  | undecodable
  /-- A table without anything in it. -/
  | emptyTable
  /-- A table whose rows cannot be told apart. -/
  | unreadableTable
  /-- A row without an identifier. -/
  | missingIdentifier
  /-- A line that is no edge. -/
  | badLine
  /-- A position that does not exist. -/
  | outside
  /-- An entry that does not exist. -/
  | missingEntry
  /-- A name or identifier that is not known. -/
  | unknownKey
  /-- A request that is turned down by a check. -/
  | refused
  /-- A phase that is left out. -/
  | leftOut
  /-- A broken assertion: something that the rest of the work relies on does not
  hold. -/
  | assertion
  /-- A state in which there is no going on. -/
  | stuck
deriving Repr, DecidableEq

namespace Failure

/-- The sort of a cause. -/
def kind : Failure → Kind
  | notANumber | unknownKeepRule | notARole _ | seedOutOfRange _
  | negativeDimension | vectorLengths | negativeRoot => .unfit
  | wrongKind | unknownOption _ => .wrongKind
  | tooLarge => .tooLarge
  | isDirectory _ => .directory
  | fileMissing _ => .unopened
  | configurationMissing _ | dataMissing _ | noEdgeFiles _ | ratingsMissing _ =>
    .absent
  | malformedConfiguration => .malformed
  | notAMapping => .notAMapping
  | undecodable => .undecodable
  | emptyTable => .emptyTable
  | raggedRow | openQuote => .unreadableTable
  | missingIdentifier => .missingIdentifier
  | malformedLine .. => .badLine
  | unknownEdge _ | emptyQueue | selectionLength => .outside
  | incompleteReport => .missingEntry
  | unknownVertex _ => .unknownKey
  | badShares .. | columnsMissing .. | unknownSource .. | nothingLoaded _
  | noTrainingRows | columnLengths | sharedIdentifiers .. | unknownDirection _
  | stepLengths .. | crossedBounds .. | reportPeriod _ | unknownEngine _
  | endlessRun | noTrainingEdges | noCheckpointFolder | foreignCheckpoint _
  | unknownAggregator _ => .refused
  | phaseMissing .. => .leftOut
  | nanResidual .. | unknownRole _ | gatherAtColumn _ | messageAtRow _
  | infiniteError .. | nanTrainingEdge | nanTrainingSum | noTrainingErrors
  | nanTrainingError => .assertion
  | stillActive | aggregatorRefused => .stuck

/-- The wording of a cause. -/
def message : Failure → String
  | notANumber => "число не распознано"
  | wrongKind => "значение неподходящего типа"
  | tooLarge => "число слишком велико"
  | configurationMissing path => s!"Конфигурационный файл не найден: {path}"
  | isDirectory path => s!"Это директория: {path}"
  | fileMissing path => s!"Файл не найден: {path}"
  | malformedConfiguration => "Некорректный конфигурационный файл"
  | notAMapping => "Конфигурация должна состоять из пар ключ: значение"
  | undecodable => "Файл не в кодировке UTF-8"
  | dataMissing path => s!"Данные не найдены: {path}"
  | noEdgeFiles path => s!"В директории {path} нет файлов с ребрами"
  | malformedLine path number line =>
    s!"Некорректная строка {number} в {path}: " ++
      Text.quoted (String.ofList (Text.trimRight line.toList))
  | badShares validation prediction =>
    s!"Некорректные доли: valid_ratio={validation}, predict_ratio={prediction}"
  | ratingsMissing path => s!"Файл ratings.csv не найден в {path}"
  | columnsMissing file missing found =>
    s!"В {file} нет колонок " ++ Text.quotedList missing ++
      "\nНайдены: " ++ Text.quotedList found
  | emptyTable => "Таблица пуста"
  | raggedRow => "В строке таблицы лишние поля"
  | openQuote => "В таблице не закрыта кавычка"
  | missingIdentifier => "В таблице пропущен id"
  | unknownSource name known =>
    s!"Неизвестный загрузчик: {name}\nДоступные загрузчики: " ++
      Text.quotedList known
  | unknownOption name => s!"Неизвестный параметр: {name}"
  | nothingLoaded path =>
    s!"Данные не загружены или пусты!\nПроверьте наличие файлов в: {path}"
  | unknownKeepRule => "Неизвестное правило для дубликатов"
  | noTrainingRows => "Нет обучающих ребер: глобальное среднее не определено"
  | notARole label => s!"Нет такой роли: {label}"
  | columnLengths => "Длины массивов source/target/value/role не совпадают"
  | sharedIdentifiers count first =>
    s!"{count} id встречаются и среди строк, и среди колонок (например, {first})\n" ++
      "Граф должен быть двудольным: используйте remap_target (--remap_target)"
  | seedOutOfRange seed => s!"Недопустимый seed: {seed}"
  | negativeDimension => "Отрицательная размерность"
  | unknownVertex id => s!"Вершина {id} не найдена в графе"
  | unknownEdge number => s!"Ребро {number} не найдено в графе"
  | unknownDirection name => s!"Неизвестное направление ребер: {name}"
  | vectorLengths => "Длины векторов не совпадают"
  | stepLengths left right =>
    s!"Размерности аккумуляторов не совпадают: ({left},) и ({right},)"
  | crossedBounds low high => s!"min_val ({low}) больше max_val ({high})"
  | reportPeriod given => s!"report_every должен быть >= 1, получено {given}"
  | phaseMissing phase program =>
    s!"Метод {phase}() должен быть реализован в классе {program}"
  | nanResidual source target => s!"NaN в ошибке на ребре {source} -> {target}"
  | unknownRole label => "Неизвестная роль ребра: " ++ Text.quoted label
  | gatherAtColumn id => s!"Непустой gather-аккумулятор у вершины-колонки {id}"
  | messageAtRow id => s!"Сообщение с шагом у вершины-строки {id}"
  | unknownEngine name =>
    s!"Неизвестный тип движка: {name}\nДоступные типы: " ++
      Text.quotedList ["synchronous", "asynchronous"]
  | unknownAggregator name => s!"Агрегатор не зарегистрирован: {name}"
  | emptyQueue => "Очередь движка пуста"
  | stillActive => "Движок не завершил работу"
  | infiniteError source target =>
    s!"Бесконечный квадрат ошибки на ребре {source} -> {target}"
  | nanTrainingEdge => "NaN в ошибке обучающего ребра"
  | nanTrainingSum => "NaN в сумме ошибок обучения"
  | noTrainingErrors => "Нет обучающих ребер для вычисления ошибки"
  | negativeRoot => "Корень из отрицательного числа"
  | nanTrainingError => "NaN в RMSE обучения"
  | endlessRun =>
    "Не заданы ни max_updates, ни max_iterations: обучение не завершится"
  | aggregatorRefused => "Не удалось зарегистрировать агрегатор ошибки"
  | noTrainingEdges => "В графе нет train ребер"
  | selectionLength => "Длина маски не равна числу ребер"
  | noCheckpointFolder => "Не задан checkpoint_dir"
  | foreignCheckpoint path => s!"Чекпоинт {path} построен для другого графа"
  | incompleteReport => "В отчете нет нужного числа"

end Failure

end RatingFactors
