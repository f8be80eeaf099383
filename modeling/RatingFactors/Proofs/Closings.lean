import RatingFactors.Proofs.Reports
import RatingFactors.Proofs.Sample

/-!
# Closings one after the other

A monitor closes one tally after the other, and some of the closings may fail.
Which of them make a report depends on nothing but how many there were and
whether the closing fails; one that makes none leaves the learning rate and the
history as they were.

In a session whose vertices stay, every total is the same: it depends neither on
the clock nor on the learning rate, which is all that running the aggregator
changes.  So the reports of one run after the other give the same errors.

## Main definitions

* `Monitor.next`, `Monitor.closedAll` — one closing, and any number of them, on
  settings that they share.
* `Monitor.Follows` — what one closing does after a number of others.
* `Session.aggregateAt` — runs an aggregator at some time.
* `Session.OnlyRetold` — what such runs can change.

## Main results

* `Monitor.inStep_closedAll`, `Monitor.follows_next` — the rhythm of reports.
* `Session.collect_aggregateAt` — runs of the aggregator of a monitor.
* `Monitor.rate_keeps_step` — both.
-/

namespace RatingFactors

variable {α : Type} [Scalar α]

namespace Monitor

variable {ω : Type} {k : Int} {verbose : Bool} {m : Monitor α}

/-- The next closing on shared settings, of a tally at some moment. -/
def next (shared : Monitor α × Settings α) (call : Scene α × ErrorTally α) :
    Closing α ω (Monitor α) (Option (Report α)) :=
  close { call.1 with settings := shared.2 } shared.1 (some call.2)

/-- A monitor and the settings after a closing, whether it fails or not. -/
def closed (shared : Monitor α × Settings α) (call : Scene α × ErrorTally α) :
    Monitor α × Settings α :=
  ((next (ω := ω) shared call).state, (next (ω := ω) shared call).settings)

/-- They after a number of closings. -/
def closedAll (shared : Monitor α × Settings α)
    (calls : List (Scene α × ErrorTally α)) : Monitor α × Settings α :=
  calls.foldl (closed (ω := ω)) shared

/-- What a closing does after a number of others: it is counted; if it is due
and does not fail a report is added and the learning rate decays, and otherwise
neither changes; without training edges it fails if it is due. -/
structure Follows (k : Int) (number : Nat) (shared : Monitor α × Settings α)
    (tally : ErrorTally α)
    (closing : Closing α ω (Monitor α) (Option (Report α))) : Prop where
  counted : closing.state.calls = number + 1
  reports_iff :
    (∃ report, closing.state.history = shared.1.history ++ [report]) ↔
      (number : Int) % k = 0 ∧ ∃ answer, closing.answer = .ok answer
  reported : ∀ answer, (number : Int) % k = 0 → closing.answer = .ok answer →
    ∃ report, answer = some report ∧
      closing.state.history = shared.1.history ++ [report] ∧
      closing.settings = shared.2.decayed
  unchanged :
    ¬((number : Int) % k = 0 ∧ ∃ answer, closing.answer = .ok answer) →
    closing.state.history = shared.1.history ∧ closing.settings = shared.2
  untrained : (number : Int) % k = 0 → tally.trainCount = 0 →
    closing.answer = .error .noTrainingErrors
  skipped : (number : Int) % k ≠ 0 → closing.answer = .ok none

private theorem errors_untrained {t : ErrorTally α} (h : t.trainCount = 0) :
    errors t = .error .noTrainingErrors := by
  rw [errors, if_pos (by rw [h])]
  rfl

/-- What a closing does is determined by the number of those before it. -/
theorem follows_next {number : Nat} {shared : Monitor α × Settings α}
    (hevery : shared.1.reportEvery = k) (hcalls : shared.1.calls = number)
    (call : Scene α × ErrorTally α) :
    Follows k number shared call.2 (next (ω := ω) shared call) := by
  have hdue : shared.1.reportsNext = true ↔ (number : Int) % k = 0 := by
    rw [reportsNext, hevery, hcalls, beq_iff_eq]
  have hsame : ∀ r : Report α, shared.1.history ≠ shared.1.history ++ [r] := by
    intro r h
    simpa using congrArg List.length h
  rcases close_cases (ω := ω) { call.1 with settings := shared.2 } shared.1
      (some call.2) with
    ⟨hskip, hclose⟩ | ⟨hnext, cause, herrors, hclose⟩ |
    ⟨hnext, train, validation, notes, herrors, hclose⟩
  · have hnot : ¬(number : Int) % k = 0 := fun h => by
      rw [hdue.mpr h] at hskip
      cases hskip
    rw [next, hclose]
    exact
      { counted := by rw [hcalls]
        reports_iff := ⟨fun h => h.elim fun r hr => absurd hr (hsame r),
          fun h => absurd h.1 hnot⟩
        reported := fun _ h => absurd h hnot
        unchanged := fun _ => ⟨rfl, rfl⟩
        untrained := fun h => absurd h hnot
        skipped := fun _ => rfl }
  · have hfails : ∀ answer : Option (Report α),
        Except.error cause ≠ .ok answer := by
      intro answer h
      cases h
    rw [next, hclose]
    exact
      { counted := by rw [hcalls]
        reports_iff := ⟨fun h => h.elim fun r hr => absurd hr (hsame r),
          fun h => h.2.elim fun answer hok => absurd hok (hfails answer)⟩
        reported := fun answer _ hok => absurd hok (hfails answer)
        unchanged := fun _ => ⟨rfl, rfl⟩
        untrained := fun _ hcount => by
          rw [Option.getD_some, errors_untrained hcount] at herrors
          obtain rfl := Except.error.inj herrors
          rfl
        skipped := fun h => absurd (hdue.mp hnext) h }
  · rw [next, hclose]
    exact
      { counted := by rw [hcalls]
        reports_iff := ⟨fun _ => ⟨hdue.mp hnext, _, rfl⟩, fun _ => ⟨_, rfl⟩⟩
        reported := fun _ _ h => ⟨_, (Except.ok.inj h).symm, rfl, rfl⟩
        unchanged := fun h => absurd ⟨hdue.mp hnext, _, rfl⟩ h
        untrained := fun _ hcount => by
          rw [Option.getD_some, errors_untrained hcount] at herrors
          cases herrors
        skipped := fun h => absurd (hdue.mp hnext) h }

/-- Closings never change the period, and each of them is counted. -/
theorem closedAll_counts (shared : Monitor α × Settings α)
    (calls : List (Scene α × ErrorTally α)) :
    (closedAll (ω := ω) shared calls).1.reportEvery = shared.1.reportEvery ∧
      (closedAll (ω := ω) shared calls).1.calls =
        shared.1.calls + calls.length := by
  induction calls generalizing shared with
  | nil => exact ⟨rfl, rfl⟩
  | cons call rest ih =>
      obtain ⟨hevery, hcalls⟩ := close_counts (ω := ω)
        { call.1 with settings := shared.2 } shared.1 (some call.2)
      obtain ⟨hrest, hcount⟩ := ih (closed (ω := ω) shared call)
      refine ⟨hrest.trans hevery, hcount.trans ?_⟩
      rw [closed, next, hcalls, List.length_cons]
      omega

/-- Whatever is closed, reports and the learning rate stay in step. -/
theorem inStep_closedAll {first factor : α} {shared : Monitor α × Settings α}
    (h : InStep first factor shared.1 shared.2)
    (calls : List (Scene α × ErrorTally α)) :
    InStep first factor (closedAll (ω := ω) shared calls).1
      (closedAll (ω := ω) shared calls).2 := by
  refine List.foldlRecOn calls _
    (motive := fun reached : Monitor α × Settings α =>
      InStep first factor reached.1 reached.2) h
    fun reached hreached call _ => ?_
  have hbefore : InStep first factor reached.1
      ({ call.1 with settings := reached.2 } : Scene α).settings := hreached
  exact hbefore.close (some call.2)

omit [Scalar α] in
theorem make_ok (h : make k verbose = .ok m) :
    m = { reportEvery := k, verbose, calls := 0, history := [] } := by
  rw [make] at h
  split at h
  · cases h
  · exact (Except.ok.inj h).symm

/-! ## The total of a session whose vertices stay -/

/-- A total depends neither on the clock nor on the learning rate. -/
theorem total_of_rate (scene : Scene α) (rate elapsed : α) (name : String)
    (interval interval' : Option α) (lastRun lastRun' : α) (m m' : Monitor α) :
    (watching (ω := ω) name interval' lastRun' m').total { scene with
        settings := { scene.settings with rate := rate }, elapsed := elapsed } =
      (watching (ω := ω) name interval lastRun m).total scene :=
  Aggregator.total_congr (fun _ => rfl) rfl rfl rfl

/-- All that closing notes down is printed lines, and of the settings it changes
the learning rate. -/
theorem close_leaves (scene : Scene α) (m : Monitor α)
    (tally : Option (ErrorTally α)) :
    (∃ lines : List String,
        (close (ω := ω) scene m tally).notes = lines.map Note.line) ∧
      ∃ rate, (close (ω := ω) scene m tally).settings =
        { scene.settings with rate := rate } := by
  unfold close
  dsimp only
  split
  · split
    · exact ⟨⟨[], rfl⟩, _, rfl⟩
    · dsimp only
      split
      · exact ⟨⟨[_], rfl⟩, _, rfl⟩
      · exact ⟨⟨[], rfl⟩, _, rfl⟩
  · exact ⟨⟨[], rfl⟩, _, rfl⟩

/-- A report gives the errors of the tally that was closed. -/
theorem errors_of_close {scene : Scene α} {m : Monitor α}
    {tally : Option (ErrorTally α)} {report : Report α}
    (h : (close (ω := ω) scene m tally).answer = .ok (some report)) :
    errors (tally.getD ErrorTally.none) =
      .ok (report.trainError, report.validationError) := by
  rcases close_cases (ω := ω) scene m tally with ⟨-, hclose⟩ |
    ⟨-, cause, -, hclose⟩ | ⟨-, train, validation, notes, herrors, hclose⟩
  · rw [hclose] at h
    cases h
  · rw [hclose] at h
    cases h
  · rw [hclose] at h
    obtain rfl := Option.some.inj (Except.ok.inj h)
    exact herrors

end Monitor

/-! ## Runs of the aggregator of a monitor -/

namespace Session

variable {σ ω : Type}
  {s t : Session α σ ω (Monitor α) (ErrorTally α) (Option (Report α))}
  {name : String} {interval : Option α} {lastRun : α} {m : Monitor α}
  {before after : List
    (Aggregator α ω (Monitor α) (ErrorTally α) (Option (Report α)))}

/-- The session when the clock shows a time. -/
def atTime (now : α)
    (s : Session α σ ω (Monitor α) (ErrorTally α) (Option (Report α))) :
    Session α σ ω (Monitor α) (ErrorTally α) (Option (Report α)) :=
  { s with engine := { s.engine with now := now } }

/-- Runs the aggregator with a name at a time. -/
def aggregateAt (name : String) (now : α) :
    Attempt (Session α σ ω (Monitor α) (ErrorTally α) (Option (Report α)))
      (Option (Report α)) := do
  modify (atTime now)
  aggregate name

/-- Between two states of a session nothing has changed but its aggregators, the
clock, the learning rate, and what has been printed. -/
structure OnlyRetold
    (s t : Session α σ ω (Monitor α) (ErrorTally α) (Option (Report α))) :
    Prop where
  session : t = { s with engine := t.engine, aggregators := t.aggregators }
  engine : t.engine = { s.engine with
    now := t.engine.now
    settings := { s.engine.settings with rate := t.engine.settings.rate }
    notes := t.engine.notes }
  printed : ∃ lines : List String,
    t.engine.notes = s.engine.notes ++ (lines.map Note.line).toArray

omit [Scalar α] in
theorem OnlyRetold.refl
    (s : Session α σ ω (Monitor α) (ErrorTally α) (Option (Report α))) :
    s.OnlyRetold s :=
  ⟨rfl, rfl, [], by simp⟩

omit [Scalar α] in
theorem OnlyRetold.trans
    {r s t : Session α σ ω (Monitor α) (ErrorTally α) (Option (Report α))}
    (hrs : r.OnlyRetold s) (hst : s.OnlyRetold t) : r.OnlyRetold t where
  session := by
    rw [hst.session, hrs.session]
  engine := by
    rw [hst.engine, hrs.engine]
  printed := by
    obtain ⟨lines, hlines⟩ := hrs.printed
    obtain ⟨more, hmore⟩ := hst.printed
    exact ⟨lines ++ more, by rw [hmore, hlines]; simp [Array.append_assoc]⟩

omit [Scalar α] in
theorem OnlyRetold.atTime (now : α)
    (s : Session α σ ω (Monitor α) (ErrorTally α) (Option (Report α))) :
    s.OnlyRetold (s.atTime now) :=
  ⟨rfl, rfl, [], by simp [Session.atTime]⟩

/-- The total over the edges is then the same. -/
theorem OnlyRetold.total (h : s.OnlyRetold t) (name : String)
    (interval interval' : Option α) (lastRun lastRun' : α) (m m' : Monitor α) :
    (Monitor.watching (ω := ω) name interval' lastRun' m').total
        t.engine.scene =
      (Monitor.watching (ω := ω) name interval lastRun m).total
        s.engine.scene := by
  rw [h.engine]
  exact Monitor.total_of_rate s.engine.scene t.engine.settings.rate _ name ..

private theorem find?_among
    (h : s.aggregators =
      before ++ Monitor.watching name interval lastRun m :: after)
    (hbefore : ∀ b ∈ before, b.name ≠ name) :
    s.find? name = some (Monitor.watching name interval lastRun m) := by
  rw [find?, h, List.find?_append, List.find?_eq_none.mpr fun b hb => by
    simpa using hbefore b hb, Option.none_or, List.find?_cons_of_pos]
  exact beq_self_eq_true name

/-- Replacing an aggregator leaves those of other names. -/
private theorem replace_among
    {a : Aggregator α ω (Monitor α) (ErrorTally α) (Option (Report α))}
    (ha : a.name = name)
    (h : s.aggregators =
      before ++ Monitor.watching name interval lastRun m :: after)
    (hothers : ∀ b ∈ before ++ after, b.name ≠ name) :
    (s.replace a).aggregators = before ++ a :: after := by
  have hkeep : ∀ bs : List (Aggregator α ω (Monitor α) (ErrorTally α)
      (Option (Report α))),
      (∀ b ∈ bs, b ∈ before ++ after) →
      (bs.map fun b => if b.name == a.name then a else b) = bs := by
    intro bs hbs
    refine (List.map_congr_left fun b hb => ?_).trans (List.map_id bs)
    rw [if_neg (by rw [beq_iff_eq, ha]; exact hothers b (hbs b hb)), id]
  rw [replace, h]
  dsimp only
  rw [List.map_append, List.map_cons,
    hkeep before fun b => List.mem_append_left _,
    hkeep after fun b => List.mem_append_right _,
    if_pos (by rw [ha]; exact beq_self_eq_true name)]

/-- Running the aggregator of a monitor closes the total, and leaves the
aggregators of other names as they are. -/
private theorem aggregate_among_ok {r : Option (Report α)}
    (h : s.aggregators =
      before ++ Monitor.watching name interval lastRun m :: after)
    (hothers : ∀ b ∈ before ++ after, b.name ≠ name)
    (hrun : (aggregate name).perform s = (.ok r, t)) :
    ∃ total,
      (Monitor.watching (ω := ω) name interval lastRun m).total s.engine.scene =
        .ok total ∧
      (Monitor.close (ω := ω) s.engine.scene m total).answer = .ok r ∧
      t.aggregators = before ++ Monitor.watching name interval s.engine.elapsed
        (Monitor.close (ω := ω) s.engine.scene m total).state :: after ∧
      t.engine.settings =
        (Monitor.close (ω := ω) s.engine.scene m total).settings ∧
      s.OnlyRetold t := by
  obtain ⟨a, total, ha, htotal, hanswer, ht⟩ := aggregate_ok hrun
  rw [find?_among h fun b hb => hothers b (List.mem_append_left _ hb)] at ha
  obtain rfl := Option.some.inj ha
  obtain ⟨⟨lines, hlines⟩, rate, hrate⟩ :=
    Monitor.close_leaves (ω := ω) s.engine.scene m total
  refine ⟨total, htotal, hanswer, ?_, by rw [ht]; rfl, ?_⟩
  · rw [ht]
    exact replace_among rfl h hothers
  · have hclose : (Monitor.watching (ω := ω) name interval lastRun m).close
        s.engine.scene (Monitor.watching (ω := ω) name interval lastRun m).state
        total = Monitor.close s.engine.scene m total := rfl
    rw [hclose, hlines, hrate] at ht
    rw [ht]
    exact ⟨rfl, rfl, lines, rfl⟩

/-- Runs of the aggregator of a monitor, one after the other, none of which
fails. -/
theorem collect_aggregateAt {times : List α}
    {results : List (Option (Report α))}
    (h : s.aggregators =
      before ++ Monitor.watching name interval lastRun m :: after)
    (hothers : ∀ b ∈ before ++ after, b.name ≠ name)
    (hrun : (Attempt.collect times (aggregateAt name)).perform s =
      (.ok results, t)) :
    s.OnlyRetold t ∧
      (∃ lastRun' m', t.aggregators =
          before ++ Monitor.watching name interval lastRun' m' :: after ∧
        ∀ first factor, Monitor.InStep first factor m s.engine.settings →
          Monitor.InStep first factor m' t.engine.settings) ∧
      ∀ report, some report ∈ results → ∃ total,
        (Monitor.watching (ω := ω) name interval lastRun m).total
            s.engine.scene = .ok total ∧
          Monitor.errors (total.getD ErrorTally.none) =
            .ok (report.trainError, report.validationError) := by
  refine Attempt.collect_induction
    (fun _ found reached => s.OnlyRetold reached ∧
      (∃ lastRun' m', reached.aggregators =
          before ++ Monitor.watching name interval lastRun' m' :: after ∧
        ∀ first factor, Monitor.InStep first factor m s.engine.settings →
          Monitor.InStep first factor m' reached.engine.settings) ∧
      ∀ report, some report ∈ found → ∃ total,
        (Monitor.watching (ω := ω) name interval lastRun m).total
            s.engine.scene = .ok total ∧
          Monitor.errors (total.getD ErrorTally.none) =
            .ok (report.trainError, report.validationError)) hrun
    ⟨.refl s, ⟨lastRun, m, h, fun _ _ hstep => hstep⟩, by simp⟩ ?_
  rintro seen found clock rest reached result next -
    ⟨honly, ⟨lastRun', m', hreached, hstep⟩, hfound⟩ hnext
  rw [aggregateAt, Attempt.perform_modify_bind] at hnext
  have hticked := honly.trans (.atTime clock reached)
  have hwatching : (reached.atTime clock).aggregators =
      before ++ Monitor.watching name interval lastRun' m' :: after := hreached
  obtain ⟨total, htotal, hanswer, hagg, hsettings, hlast⟩ :=
    aggregate_among_ok hwatching hothers hnext
  refine ⟨hticked.trans hlast, ⟨_, _, hagg, fun first factor hfirst => ?_⟩, ?_⟩
  · rw [hsettings]
    exact (hstep first factor hfirst).close total
  · intro report hreport
    rcases List.mem_append.mp hreport with hreport | hreport
    · exact hfound report hreport
    · rw [← List.mem_singleton.mp hreport] at hanswer
      exact ⟨total,
        (hticked.total name interval interval lastRun lastRun' m m').symm.trans
          htotal,
        Monitor.errors_of_close hanswer⟩

end Session

/-! ## Reports and the learning rate -/

namespace Monitor

/-- Reports and the learning rate keep step, whatever is closed and whatever
fails: after any closings on shared settings the rate has decayed once for each
report, and the next closing follows the rhythm of a new monitor.  Runs of its
aggregator that do not fail, over vertices that stay, report the same errors and
change nothing but the monitor, the learning rate, the clock and what is
printed. -/
theorem rate_keeps_step {σ ω : Type} :
    (∀ (k : Int) (verbose : Bool) (m : Monitor α), make k verbose = .ok m →
      ∀ (s : Settings α) (calls : List (Scene α × ErrorTally α)),
        InStep s.rate s.rateDecay (closedAll (ω := ω) (m, s) calls).1
            (closedAll (ω := ω) (m, s) calls).2 ∧
          ∀ call, Follows k calls.length
            (closedAll (ω := ω) (m, s) calls) call.2
            (next (ω := ω) (closedAll (ω := ω) (m, s) calls) call)) ∧
    ∀ (s t : Session α σ ω (Monitor α) (ErrorTally α) (Option (Report α)))
      (name : String) (interval : Option α) (lastRun : α) (m : Monitor α)
      (before after :
        List (Aggregator α ω (Monitor α) (ErrorTally α) (Option (Report α))))
      (times : List α) (results : List (Option (Report α))),
      s.aggregators = before ++ watching name interval lastRun m :: after →
      (∀ b ∈ before ++ after, b.name ≠ name) →
      (Attempt.collect times (Session.aggregateAt name)).perform s =
        (.ok results, t) →
      (∀ one other, some one ∈ results → some other ∈ results →
        one.trainError = other.trainError ∧
          one.validationError = other.validationError) ∧
      s.OnlyRetold t ∧
      ∃ lastRun' m',
        t.aggregators = before ++ watching name interval lastRun' m' :: after ∧
        ∀ first factor, InStep first factor m s.engine.settings →
          InStep first factor m' t.engine.settings := by
  refine ⟨fun k verbose m hmake s calls => ?_,
    fun s t name interval lastRun m before after times results
      h hothers hrun => ?_⟩
  · obtain rfl := make_ok hmake
    obtain ⟨hevery, hcalls⟩ := closedAll_counts (ω := ω)
      ({ reportEvery := k, verbose, calls := 0, history := [] }, s) calls
    have hnew : InStep s.rate s.rateDecay
        ({ reportEvery := k, verbose, calls := 0, history := [] } : Monitor α)
        s :=
      ⟨rfl, rfl, rfl⟩
    exact ⟨inStep_closedAll hnew calls,
      fun call => follows_next hevery (hcalls.trans (Nat.zero_add _)) call⟩
  · obtain ⟨honly, hmonitor, hreports⟩ :=
      Session.collect_aggregateAt h hothers hrun
    refine ⟨fun one other hone hother => ?_, honly, hmonitor⟩
    obtain ⟨total, htotal, herrors⟩ := hreports one hone
    obtain ⟨total', htotal', herrors'⟩ := hreports other hother
    obtain rfl := Except.ok.inj (htotal.symm.trans htotal')
    exact Prod.mk.inj (Except.ok.inj (herrors.symm.trans herrors'))

deriving instance DecidableEq for Report

/-- A session over the sample whose learning rate doubles with each report, and
whose monitor reports at every other closing. -/
def reportingSession :
    Session Int (Descent.Slot Int) Empty (Monitor Int) (ErrorTally Int)
      (Option (Report Int)) where
  engine := Engine.make .synchronous sampleGraph sampleVertices
    { sampleSettings with rateDecay := 2 } none fun _ => 1
  aggregators := [watching "rmse" none 0 ⟨2, false, 0, []⟩]
  limit := none
  seed := none
  sinceDue := 0

/-- Three runs, with two reports of the same errors; and a first closing, which
is due, without training edges. -/
theorem rate_keeps_step_reporting :
    (∃ t, (Attempt.collect [5, 6, 7] (Session.aggregateAt "rmse")).perform
        reportingSession =
          (.ok [some ⟨5, 1, some 4, 2⟩, none, some ⟨7, 1, some 4, 4⟩], t) ∧
        reportingSession.OnlyRetold t) ∧
      make 2 false = .ok (⟨2, false, 0, []⟩ : Monitor Int) ∧
      (next (ω := Empty) (⟨2, false, 0, []⟩, sampleSettings)
        (reportingSession.engine.scene, ErrorTally.none)).answer =
          .error .noTrainingErrors := by
  have hrun : (Attempt.collect [5, 6, 7] (Session.aggregateAt "rmse")).perform
      reportingSession =
        (.ok [some ⟨5, 1, some 4, 2⟩, none, some ⟨7, 1, some 4, 4⟩], _) :=
    Attempt.perform_of_toOption (by decide +kernel)
  have hmake : make 2 false = .ok (⟨2, false, 0, []⟩ : Monitor Int) := rfl
  obtain ⟨hclosings, hruns⟩ :=
    rate_keeps_step (α := Int) (σ := Descent.Slot Int) (ω := Empty)
  obtain ⟨-, honly, -⟩ :=
    hruns reportingSession _ "rmse" none 0 ⟨2, false, 0, []⟩ [] []
      _ _ rfl (by simp) hrun
  obtain ⟨-, hfollows⟩ := hclosings 2 false _ hmake sampleSettings []
  exact ⟨⟨_, hrun, honly⟩, hmake,
    (hfollows (_, ErrorTally.none)).untrained rfl rfl⟩

end Monitor

end RatingFactors
