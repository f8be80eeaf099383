import RatingFactors.Proofs.Evaluation
import RatingFactors.Proofs.Reports
import RatingFactors.Proofs.Training

/-!
# The end of training

When the engine has stopped, a trainer closes the errors once more, evaluates
the model, and saves what it was asked to save.  That last closing is one more
call of the monitor, so it makes a report if and only if the number of calls
before it is a multiple of the period; otherwise the last report is that of an
earlier iteration, and the final error is in the metrics only.  Where there is a
last report, it gives the errors of the metrics.

A trainer has one aggregator, that of its monitor, for all of its life: from the
time it is made, through runs that go through or fail, through saving and taking
up checkpoints.

## Main definitions

* `Trainer.Alive` — the trainers that come of making, training, saving and
  loading.
* `Trainer.Noted` — the session of a trainer, with other notes.

## Main results

* `alive_monitored` — a trainer keeps its monitor.
* `conclude_ok`, `train_ok` — what a run that went through comes to.
* `final_report` — the report at the end of a run, if there is one.
-/

namespace RatingFactors

/-- A part of the settings that closing leaves alone stays as it is. -/
theorem Session.kept_settings {α σ ω κ : Type} [Scalar α] (p : Program α σ ω)
    (field : Settings α → κ) (value : κ) :
    Session.Kept p field fun e => field e.settings = value where
  work := by
    intro e e' he _ hwork
    have hframe := Engine.frame_work (fun e => field e.settings)
      (fun _ _ _ _ _ _ _ => rfl) p e
    rw [hwork] at hframe
    exact hframe.trans he
  settings := fun _ _ _ he hfield => hfield.trans he

namespace Trainer

variable {α : Type} [Scalar α] {t u : Trainer α}

/-! ## The life of a trainer -/

/-- The trainers for a graph: they are made, trained, saved, and take up
checkpoints, whether that goes through or not. -/
inductive Alive (g : Graph α) : Trainer α → Prop
  | made {vertices : Array (Vertex α)} {s : Settings α} {o : TrainingOptions}
      {pace : Nat → α} {files : Files (Artifact α)} {t : Trainer α} :
      make g vertices s o pace files = .ok t → Alive g t
  | trained {t u : Trainer α} {answer : Except Failure (Outcome α)} :
      Alive g t → train.perform t = (answer, u) → Alive g u
  | saved {t u : Trainer α} {path : Option String}
      {answer : Except Failure String} :
      Alive g t → (saveCheckpoint path).perform t = (answer, u) → Alive g u
  | loaded {t u : Trainer α} {path : String}
      {answer : Except Failure Unit} :
      Alive g t → (loadCheckpoint path).perform t = (answer, u) → Alive g u

/-- The session is that of another trainer, with other notes. -/
def Noted (base t : Trainer α) : Prop :=
  ∃ notes, t.session = { base.session with
    engine := { base.session.engine with notes } }

/-- The only aggregator is that of the monitor. -/
def Monitored (t : Trainer α) : Prop :=
  t.session.Monitored monitorName

omit [Scalar α] in
theorem noted_refl (t : Trainer α) : t.Noted t :=
  ⟨t.session.engine.notes, rfl⟩

omit [Scalar α] in
theorem Noted.trans {v : Trainer α} (h : t.Noted u) (hnext : u.Noted v) :
    t.Noted v := by
  obtain ⟨before, hu⟩ := h
  obtain ⟨after, hv⟩ := hnext
  refine ⟨after, ?_⟩
  rw [hv, hu]

omit [Scalar α] in
private theorem noted_of_say {lines : List String}
    (h : (say lines).perform t = (.ok (), u)) : t.Noted u :=
  say_ok h

theorem Noted.monitored (h : t.Noted u) (ht : t.Monitored) : u.Monitored := by
  obtain ⟨notes, hu⟩ := h
  obtain ⟨interval, lastRun, m, hsingle⟩ := ht
  refine ⟨interval, lastRun, m, ?_⟩
  rw [hu]
  exact hsingle

open Attempt (Safe)

/-! ### What only adds notes -/

section Noting

variable {base : Trainer α}

omit [Scalar α] in
private theorem noted_say (lines : List String) :
    Safe (Noted base) (say lines) := by
  have hprint : ∀ first : Engine α (Descent.Slot α) Empty,
      Safe (fun e : Engine α (Descent.Slot α) Empty =>
        ∃ notes, e = { first with notes })
        (Attempt.each lines Engine.print) := by
    refine fun first => Attempt.safe_each fun line _ => ?_
    rintro e ⟨notes, rfl⟩
    exact ⟨_, rfl⟩
  rintro t ⟨notes, h⟩
  obtain ⟨notes', h'⟩ := hprint base.session.engine t.session.engine
    ⟨notes, by rw [h]⟩
  refine ⟨notes', ?_⟩
  change { t.session with engine := ((Attempt.each lines
    Engine.print).perform t.session.engine).2 } = _
  rw [← h', h]

private theorem noted_savePredictions : Safe (Noted base) savePredictions := by
  refine Attempt.safe_get.bind fun t => ?_
  cases t.predictions with
  | none => exact Attempt.safe_pure ()
  | some start =>
      refine (noted_say _).bind fun _ => (Attempt.safe_lift _).bind ?_
      rintro ⟨files, line⟩
      exact Attempt.safe_modify_bind (fun _ h => h) (noted_say _)

omit [Scalar α] in
private theorem noted_saveCheckpoint (path : Option String) :
    Safe (Noted base) (saveCheckpoint path) := by
  have hsave : ∀ (t : Trainer α) (path : String),
      Safe (Noted base) (do
        modify fun t =>
          { t with files := t.files.makeFolders (Path.parent path) }
        let saved ← Attempt.lift t.checkpoint
        modify fun t =>
          { t with files := t.files.put path (.thing (.checkpoint saved)) }
        say ["Чекпоинт сохранен: " ++ path]
        return path) := by
    refine fun t path => Attempt.safe_modify_bind (fun _ h => h) ?_
    refine (Attempt.safe_lift _).bind fun saved => ?_
    refine Attempt.safe_modify_bind (fun _ h => h) ?_
    exact (noted_say _).bind fun _ => Attempt.safe_pure _
  refine Attempt.safe_get.bind fun t => ?_
  dsimp only
  split
  · exact (Attempt.safe_pure _).bind fun path => hsave t path
  · exact (Attempt.safe_pure _).bind fun path => hsave t path
  · exact (Attempt.safe_throw _).bind fun path => hsave t path

/-- What a trainer does when it has evaluated the model. -/
def finish (runtime : α) (updates : Nat) (metrics : Metrics α) :
    Attempt (Trainer α) (Outcome α) := do
  savePredictions
  if (← get).checkpointFolder.isSome then discard (saveCheckpoint none)
  say [rule '=', ""]
  let t ← get
  return {
    globalMean := t.engine.settings.globalMean
    runtime
    updates
    iterations := t.engine.iteration
    history := t.monitor.history
    finalRate := t.engine.settings.rate
    metrics }

private theorem noted_finish (runtime : α) (updates : Nat)
    (metrics : Metrics α) :
    Safe (Noted base) (finish runtime updates metrics) := by
  refine noted_savePredictions.bind fun _ => Attempt.safe_get.bind fun t => ?_
  dsimp only
  split
  · refine ((noted_saveCheckpoint none).bind fun _ =>
      Attempt.safe_pure ()).bind fun _ => (noted_say _).bind fun _ => ?_
    exact Attempt.safe_get.bind fun _ => Attempt.safe_pure _
  · refine (noted_say _).bind fun _ => ?_
    exact Attempt.safe_get.bind fun _ => Attempt.safe_pure _

end Noting

/-! ### What keeps the monitor -/

theorem safe_of_noted {β : Type} {work : Attempt (Trainer α) β}
    (h : ∀ base, Safe (Noted base) work) : Safe Monitored work :=
  fun t ht => (h t t (noted_refl t)).monitored ht

private theorem safe_onSession {β : Type} {work : Attempt (LearningSession α) β}
    (h : Safe (Session.Monitored monitorName) work) :
    Safe Monitored (onSession work) :=
  fun t ht => h t.session ht

theorem safe_onEngine {β : Type}
    (work : Attempt (Engine α (Descent.Slot α) Empty) β) :
    Safe Monitored (onEngine work) :=
  safe_onSession (Session.safe_onEngine monitorName work)

private theorem safe_takeMean : Safe (Monitored (α := α)) takeMean := by
  refine Attempt.safe_get.bind fun t => ?_
  refine Attempt.safe_modify_bind (fun _ h => h) ?_
  dsimp only
  split
  · exact (Attempt.safe_throw _).bind fun _ =>
      (safe_onEngine _).bind fun _ => safe_onEngine _
  · exact (safe_onEngine _).bind fun _ => safe_onEngine _

private theorem safe_prepare : Safe (Monitored (α := α)) prepare := by
  refine Attempt.safe_get.bind fun t => ?_
  refine (safe_onEngine _).bind fun _ => safe_takeMean.bind fun _ => ?_
  refine (safe_onEngine _).bind fun _ => ?_
  exact Attempt.safe_get.bind fun t => safe_onEngine _

private theorem safe_conclude (begun : α) (updates : Nat) :
    Safe Monitored (conclude begun updates) := by
  refine Attempt.safe_get.bind fun t => (safe_onEngine _).bind fun _ => ?_
  refine (safe_onEngine _).bind fun _ => Safe.bind ?_ fun _ => ?_
  · exact (safe_onSession (Session.safe_aggregate monitorName monitorName)).bind
      fun _ => Attempt.safe_pure ()
  · refine Attempt.safe_get.bind fun t => (Attempt.safe_lift _).bind fun _ => ?_
    exact safe_of_noted fun _ => noted_finish _ _ _

private theorem safe_train : Safe (Monitored (α := α)) train := by
  rw [train_eq]
  refine safe_prepare.bind fun _ => Attempt.safe_get.bind fun t => ?_
  refine Attempt.safe_get.bind fun t => ?_
  exact (safe_onSession (Session.safe_start monitorName _ _)).bind fun _ =>
    safe_conclude _ _

private theorem safe_saveCheckpoint (path : Option String) :
    Safe (Monitored (α := α)) (saveCheckpoint path) :=
  safe_of_noted fun _ => noted_saveCheckpoint path

private theorem Monitored.restored (h : t.Monitored) (c : Checkpoint α) :
    (t.restore c).Monitored := by
  obtain ⟨interval, lastRun, m, hsingle⟩ := h
  refine ⟨interval, lastRun, { m with history := c.history }, ?_⟩
  rw [Trainer.restore]
  dsimp only
  rw [hsingle]
  rfl

private theorem safe_loadCheckpoint (path : String) :
    Safe (Monitored (α := α)) (loadCheckpoint path) := by
  refine Attempt.safe_get_bind fun t ht => ?_
  refine Attempt.bind_leaves Monitored (Attempt.safe_lift _ t ht) ?_
  intro c
  dsimp only
  split
  · exact (Attempt.safe_throw _).bind fun _ _ _ => ht.restored c
  · exact fun _ _ => ht.restored c

private theorem Alive.monitored {g : Graph α} (h : t.Alive g) :
    t.Monitored := by
  induction h with
  | made h =>
      obtain ⟨-, hsession⟩ := make_session h
      exact ⟨_, _, _, congrArg (·.aggregators) hsession⟩
  | trained _ hrun ih =>
      have hkept := safe_train _ ih
      rwa [hrun] at hkept
  | @saved _ _ path _ _ hrun ih =>
      have hkept := safe_saveCheckpoint path _ ih
      rwa [hrun] at hkept
  | @loaded _ _ path _ _ hrun ih =>
      have hkept := safe_loadCheckpoint path _ ih
      rwa [hrun] at hkept

/-! ## Concluding -/

section Conclude

variable {outcome : Outcome α} {begun : α} {updates : Nat}

/-- An outcome that speaks of a trainer as it is. -/
structure Tells (outcome : Outcome α) (u : Trainer α) : Prop where
  iterations : outcome.iterations = u.engine.iteration
  history : outcome.history = u.monitor.history
  finalRate : outcome.finalRate = u.engine.settings.rate

private theorem finish_ok {runtime : α} {metrics : Metrics α}
    (h : (finish runtime updates metrics).perform t = (.ok outcome, u)) :
    t.Noted u ∧ outcome.updates = updates ∧ outcome.metrics = metrics ∧
      Tells outcome u := by
  have hnoted := noted_finish runtime updates metrics t (noted_refl t)
  rw [h] at hnoted
  refine ⟨hnoted, ?_⟩
  obtain ⟨_, saved, -, h⟩ := Attempt.perform_bind_ok.mp h
  rw [Attempt.perform_get_bind] at h
  dsimp only at h
  split at h
  · obtain ⟨_, kept, -, h⟩ := Attempt.perform_bind_ok.mp h
    obtain ⟨_, ended, -, h⟩ := Attempt.perform_bind_ok.mp h
    obtain ⟨houtcome, rfl⟩ := Prod.mk.inj h
    obtain rfl := Except.ok.inj houtcome
    exact ⟨rfl, rfl, ⟨rfl, rfl, rfl⟩⟩
  · obtain ⟨_, ended, -, h⟩ := Attempt.perform_bind_ok.mp h
    obtain ⟨houtcome, rfl⟩ := Prod.mk.inj h
    obtain rfl := Except.ok.inj houtcome
    exact ⟨rfl, rfl, ⟨rfl, rfl, rfl⟩⟩

/-- Concluding closes the errors once and evaluates the model as it is then;
whatever else it does only adds notes. -/
theorem conclude_ok (h : (conclude begun updates).perform t =
    (.ok outcome, u)) :
    ∃ notes r closed, (Session.aggregate monitorName).perform
        { t.session with engine := { t.session.engine with notes } } =
          (.ok r, closed) ∧
      Evaluation.metrics closed.engine.graph closed.engine.vertices
        closed.engine.settings = .ok outcome.metrics ∧
      (∃ notes, u.session = { closed with
        engine := { closed.engine with notes } }) ∧
      outcome.updates = updates ∧ Tells outcome u := by
  rw [conclude, Attempt.perform_get_bind] at h
  obtain ⟨_, reported, hsaid, h⟩ := Attempt.perform_bind_ok.mp h
  obtain ⟨_, announced, hannounced, h⟩ := Attempt.perform_bind_ok.mp h
  obtain ⟨_, last, hlast, h⟩ := Attempt.perform_bind_ok.mp h
  obtain ⟨r, middle, hran, hmiddle⟩ := Attempt.perform_bind_ok.mp hlast
  obtain rfl := (Prod.mk.inj hmiddle).2
  obtain ⟨notes, hsession⟩ := (noted_of_say hsaid).trans
    (noted_of_say hannounced)
  rw [perform_onSession, hsession] at hran
  obtain ⟨hanswer, rfl⟩ := Prod.mk.inj hran
  rw [Attempt.perform_get_bind] at h
  obtain ⟨metrics, hmetrics, h⟩ := Attempt.perform_lift_bind_ok.mp h
  obtain ⟨hnoted, hupdates, rfl, htells⟩ := finish_ok h
  exact ⟨notes, r, _, Prod.ext hanswer rfl, hmetrics, hnoted, hupdates, htells⟩

/-- A run that goes through prepares, lets the engine run, and concludes. -/
theorem train_ok (h : train.perform t = (.ok outcome, u)) :
    ∃ ready stopped updates, prepare.perform t = (.ok (), ready) ∧
      (Session.start Descent.program (patience ready.session)).perform
        ready.session = (.ok updates, stopped) ∧
      (conclude ready.engine.now updates).perform
        { ready with session := stopped } = (.ok outcome, u) := by
  rw [train_eq] at h
  obtain ⟨_, ready, hprepare, h⟩ := Attempt.perform_bind_ok.mp h
  rw [Attempt.perform_get_bind, Attempt.perform_get_bind] at h
  obtain ⟨updates, ran, hrun, h⟩ := Attempt.perform_bind_ok.mp h
  rw [perform_onSession] at hrun
  obtain ⟨hanswer, rfl⟩ := Prod.mk.inj hrun
  exact ⟨ready, _, updates, hprepare, Prod.ext hanswer rfl, h⟩

theorem monitor_of_single {interval : Option α} {lastRun : α} {m : Monitor α}
    (h : t.session.aggregators =
      [Monitor.watching monitorName interval lastRun m]) :
    t.monitor = m := by
  rw [monitor, Session.find?_single h]
  rfl

end Conclude

/-! ## The report at the end -/

/-- The range of predictions. -/
def range (s : Settings α) : α × α :=
  (s.lowest, s.highest)

private theorem preserves_range (interval : Option α) (lastRun : α)
    (m : Monitor α) :
    (Monitor.watching (ω := Empty) monitorName interval lastRun m).Preserves
      range :=
  Descent.preserves_monitor (fun _ => rfl) monitorName m

/-- Neither preparing nor the engine's run changes the range. -/
theorem range_of_run {ready : Trainer α} {stopped : LearningSession α}
    {updates patience : Nat} (ht : t.Monitored)
    (hprepare : prepare.perform t = (.ok (), ready))
    (hstart : (Session.start Descent.program patience).perform
      ready.session = (.ok updates, stopped)) :
    range stopped.engine.settings = range t.session.engine.settings := by
  obtain ⟨-, ⟨mean, hsettings⟩, -, haggregators⟩ := prepare_frame hprepare
  obtain ⟨interval, lastRun, m, hsingle⟩ := ht
  have hkept := Session.kept_settings (ω := Empty) Descent.program range
    (range ready.session.engine.settings)
  obtain ⟨sizes, last, hreaches, hover, -⟩ := Session.start_ok hstart
  have hlast := (hkept.reaches hreaches (fun _ _ _ => rfl) (by
    intro a ha
    rw [haggregators, hsingle] at ha
    obtain rfl := List.mem_singleton.mp ha
    exact preserves_range interval lastRun m)).1
  obtain ⟨-, notes, rfl⟩ := Session.not_busy_of_isOver hover
  refine hlast.trans ?_
  rw [hsettings]
  rfl

/-- The last call of the monitor in a run: it is counted, and it makes the last
report if it is due. -/
structure LastCall (m : Monitor α) (r : Option (Report α))
    (outcome : Outcome α) (u : Trainer α) : Prop where
  calls : u.monitor.calls = m.calls + 1
  reportEvery : u.monitor.reportEvery = m.reportEvery
  history : outcome.history = m.history ++ r.toList
  due : r.isSome = true ↔ (m.calls : Int) % m.reportEvery = 0

private theorem lastCall_of_close {ω : Type} {m : Monitor α}
    {r : Option (Report α)} {scene : Scene α} {total : Option (ErrorTally α)}
    {outcome : Outcome α}
    (hanswer : (Monitor.close (ω := ω) scene m total).answer = .ok r)
    (hu : u.monitor = (Monitor.close (ω := ω) scene m total).state)
    (htells : Tells outcome u) : LastCall m r outcome u := by
  have hdue : m.reportsNext = true ↔ (m.calls : Int) % m.reportEvery = 0 :=
    beq_iff_eq
  rcases Monitor.close_cases (ω := ω) scene m total with ⟨hskip, hclose⟩ |
    ⟨-, cause, -, hclose⟩ | ⟨hnext, train, validation, notes, -, hclose⟩
  · rw [hclose] at hanswer hu
    obtain rfl := Except.ok.inj hanswer
    refine ⟨congrArg Monitor.calls hu, by rw [hu], ?_, ?_⟩
    · rw [htells.history, hu]
      exact (List.append_nil _).symm
    · rw [← hdue, hskip]
      simp
  · rw [hclose] at hanswer
    cases hanswer
  · rw [hclose] at hanswer hu
    obtain rfl := Except.ok.inj hanswer
    refine ⟨congrArg Monitor.calls hu, by rw [hu], ?_, ?_⟩
    · rw [htells.history, hu]
      rfl
    · rw [← hdue, hnext]
      simp

/-- A report and metrics that give the same errors. -/
def Matches (report : Report α) (x : Metrics α) : Prop :=
  x.train.map (·.rootMeanSquare) = some report.trainError ∧
    x.validation.map (·.rootMeanSquare) = report.validationError

private theorem matches_of_close {ω : Type} (haverage : Scalar.Averaging α)
    {scene : Scene α} {name : String} {interval : Option α} {lastRun : α}
    {m : Monitor α} {total : Option (ErrorTally α)} {report : Report α}
    {x : Metrics α}
    (hlowest : Scalar.isNaN scene.settings.lowest = false)
    (hhighest : Scalar.isNaN scene.settings.highest = false)
    (htotal : (Monitor.watching (ω := ω) name interval lastRun m).total scene =
      .ok total)
    (hanswer : (Monitor.close (ω := ω) scene m total).answer =
      .ok (some report))
    (hmetrics : Evaluation.metrics scene.graph scene.vertices
      (Monitor.close (ω := ω) scene m total).settings = .ok x) :
    Matches report x := by
  obtain ⟨hclear, rfl⟩ := Monitor.total_ok haverage.add_zero htotal
  rcases Monitor.close_cases (ω := ω) scene m
      (some (ErrorTally.ofEdges scene.settings scene.vertex
        scene.graph.edges.toList)) with ⟨-, hclose⟩ |
    ⟨-, cause, -, hclose⟩ | ⟨hnext, train, validation, notes, herrors, hclose⟩
  · rw [hclose] at hanswer
    cases hanswer
  · rw [hclose] at hanswer
    cases hanswer
  · have hsome := Monitor.exists_train_of_errors herrors
    rw [Monitor.close_ofEdges haverage hclear hsome hnext] at hanswer
    obtain rfl := Option.some.inj (Except.ok.inj hanswer)
    rw [hclose] at hmetrics
    obtain ⟨f, hf⟩ := Evaluation.ofVertices_of_metrics hsome hmetrics
    -- The decay of the learning rate does not show in predictions.
    have hsame := @Evaluation.metrics_eq α _ { scene with
      settings := scene.settings.decayed } f haverage hf
      (Evaluation.columnsOf_ok hf) hlowest hhighest
    obtain rfl := Except.ok.inj (hmetrics.symm.trans hsame)
    exact Evaluation.rootMeanSquares_ofScene hsome

/-- The end of a run that goes through.  Whatever the trainer has been through,
the engine stops, and the monitor is called once more; that call makes the last
report if the calls before it are a multiple of the period, and otherwise the
last report is an earlier one.  With exact arithmetic, and bounds of predictions
that are numbers, a report made at the end gives the errors of the metrics. -/
theorem final_report {g : Graph α} {outcome : Outcome α} (h : t.Alive g)
    (hrun : train.perform t = (.ok outcome, u)) :
    ∃ ready stopped updates notes r closed,
      prepare.perform t = (.ok (), ready) ∧
      (Session.start Descent.program (patience ready.session)).perform
        ready.session = (.ok updates, stopped) ∧
      (Session.aggregate monitorName).perform { stopped with
        engine := { stopped.engine with notes } } = (.ok r, closed) ∧
      LastCall (monitor { ready with session := stopped }) r outcome u ∧
      (Scalar.Averaging α →
        Scalar.isNaN t.session.engine.settings.lowest = false →
        Scalar.isNaN t.session.engine.settings.highest = false →
        ∀ report ∈ r, Matches report outcome.metrics) := by
  obtain ⟨ready, stopped, updates, hprepare, hstart, hconclude⟩ :=
    train_ok hrun
  obtain ⟨notes, r, closed, hran, hmetrics, ⟨after, hu⟩, -, htells⟩ :=
    conclude_ok hconclude
  have hready : ready.Monitored := by
    have hkept := safe_prepare t h.monitored
    rwa [hprepare] at hkept
  have hstopped : stopped.Monitored monitorName := by
    have hkept := Session.safe_start monitorName Descent.program
      (patience ready.session) ready.session hready
    rwa [hstart] at hkept
  refine ⟨ready, stopped, updates, notes, r, closed, hprepare, hstart, hran, ?_⟩
  obtain ⟨interval, lastRun, m, hsingle⟩ := hstopped
  obtain ⟨total, htotal, hanswer, rfl⟩ :=
    Session.aggregate_single_ok (s := { stopped with
      engine := { stopped.engine with notes } }) hsingle hran
  rw [monitor_of_single (t := { ready with session := stopped }) hsingle]
  refine ⟨lastCall_of_close hanswer (monitor_of_single
    (congrArg Session.aggregators hu)) htells, ?_⟩
  intro haverage hlowest hhighest report hreport
  obtain rfl := Option.mem_def.mp hreport
  have hrange := range_of_run h.monitored hprepare hstart
  obtain ⟨hlowest', hhighest'⟩ := Prod.mk.inj hrange
  exact matches_of_close haverage (hlowest'.symm ▸ hlowest)
    (hhighest'.symm ▸ hhighest) htotal hanswer hmetrics

/-- A trainer for the sample, before its first run. -/
def periodicTrainer (mode : Mode) (period : Int) : Trainer Int where
  session :=
    { engine := Engine.make mode sampleGraph sampleVertices
        { sampleSettings with reportEvery := period } none fun _ => 1
      aggregators := [Monitor.watching monitorName (some 0) 0
        ⟨period, true, 0, []⟩]
      limit := none
      seed := none
      sinceDue := 0 }
  predictions := none
  moved := false
  checkpointFolder := none
  trainEdges := 0
  files := .none

theorem make_periodicTrainer (mode : Mode) {period : Int} (h : 1 ≤ period) :
    make sampleGraph sampleVertices
        { sampleSettings with reportEvery := period } { mode } (fun _ => 1)
        .none = .ok (periodicTrainer mode period) := by
  have hmonitor : (Monitor.make period true : Except Failure (Monitor Int)) =
      .ok ⟨period, true, 0, []⟩ := if_neg (by omega)
  rw [make, hmonitor]
  rfl

private theorem nonneg_int {x : Int} : Scalar.Nonneg x ↔ 0 ≤ x := by
  rw [Scalar.Nonneg, Scalar.less]
  exact decide_eq_false_iff_not.trans Int.not_lt

private theorem averaging_int : Scalar.Averaging Int where
  add_comm := Int.add_comm
  add_assoc := Int.add_assoc
  add_zero := Int.add_zero
  sub_mul_self_comm x y := by
    rw [← Int.neg_sub y x, Int.neg_mul_neg]
  nonneg_zero := rfl
  nonneg_mul_self x := nonneg_int.mpr (mul_self_nonneg x)
  nonneg_add x y hx hy :=
    nonneg_int.mpr (Int.add_nonneg (nonneg_int.mp hx) (nonneg_int.mp hy))
  nonneg_div x n hx hn :=
    nonneg_int.mpr (Int.ediv_nonneg (nonneg_int.mp hx) (Int.le_of_lt hn))
  isNaN_zero := rfl
  isNaN_add _ _ _ _ _ _ := rfl
  isNaN_div _ _ _ _ := rfl
  isNaN_root _ _ _ := rfl

/-- The trainer for the sample after its first run. -/
def periodicRun (mode : Mode) (period : Int) :
    Except Failure (Outcome Int) × Trainer Int :=
  train.perform (periodicTrainer mode period)

/-- With a report at every second call the last one is due, and its errors are
those of the metrics. -/
theorem final_report_sample :
    ∃ outcome u report,
      train.perform (periodicTrainer .synchronous 2) = (.ok outcome, u) ∧
      outcome.history.getLast? = some report ∧ u.monitor.calls = 5 ∧
      Matches report outcome.metrics := by
  have hok : (periodicRun .synchronous 2).1.toOption.isSome = true := by
    decide +kernel
  have hcalls : (periodicRun .synchronous 2).2.monitor.calls = 5 := by
    decide +kernel
  have hperiod : (periodicRun .synchronous 2).2.monitor.reportEvery = 2 := by
    decide +kernel
  obtain ⟨outcome, hresult⟩ := Option.isSome_iff_exists.mp hok
  have hrun := Attempt.perform_of_toOption hresult
  obtain ⟨ready, stopped, _, _, r, _, -, -, -, hlast, hmatches⟩ :=
    final_report (.made (make_periodicTrainer .synchronous (by decide))) hrun
  have hdue : r.isSome = true := by
    have hbefore : 5 = _ := hcalls.symm.trans hlast.calls
    have hsame : (2 : Int) = _ := hperiod.symm.trans hlast.reportEvery
    rw [hlast.due, ← hsame]
    omega
  obtain ⟨report, rfl⟩ := Option.isSome_iff_exists.mp hdue
  refine ⟨outcome, _, report, hrun, ?_, hcalls,
    hmatches averaging_int rfl rfl report rfl⟩
  rw [hlast.history]
  exact List.getLast?_concat

/-- With a report at every fifth call the last call makes none: the only report
is that of the first iteration, and its error is not the final one. -/
theorem final_report_fail :
    (periodicTrainer .synchronous 5).Alive sampleGraph ∧
      (periodicRun .synchronous 5).2.monitor.calls = 5 ∧
      (periodicRun .synchronous 5).1.toOption.map (fun outcome =>
        (outcome.iterations,
          outcome.history.map fun report => (report.elapsed, report.trainError),
          outcome.metrics.train.map (·.rootMeanSquare))) =
        some (4, [(1, 3)], some 1) :=
  ⟨.made (make_periodicTrainer .synchronous (by decide)), by decide +kernel,
    by decide +kernel⟩

end Trainer

end RatingFactors
