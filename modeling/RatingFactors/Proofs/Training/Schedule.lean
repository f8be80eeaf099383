import Mathlib.Algebra.Order.Floor.Ring
import Mathlib.Data.Rat.Floor
import RatingFactors.Proofs.Training.Conclusion

/-!
# The schedule of reports

Without an interval between reports the monitor is called whenever it is its
turn: after each round, or after as many activations as there are vertices, and
once more at the end of the run.  Every so many calls make a report, and each
report multiplies the learning rate by its decay.  So the length of a history,
the learning rates in it and the one at the end are known from the number of
iterations alone.

The turn depends on the clock.  A call is due when no less than the interval has
gone by since the last one; with an interval of zero that is so as long as the
clock does not go back.

## Main definitions

* `Scalar.Timely` — what the passing of time relies on.
* `Steady` — a clock that never goes back.
* `callsDue` — how often the monitor is called in a run.
* `OnSchedule` — everything between two iterations is on schedule.

## Main results

* `OnSchedule.called`, `OnSchedule.advance` — what a call and an iteration keep.
* `OnSchedule.run` — what a run keeps.
* `reports_on_schedule` — the schedule of a whole run.
-/

namespace RatingFactors

/-! ## Time -/

namespace Scalar

variable {α : Type} [Scalar α]

/-- Is the first number less than the second, or equal to it? -/
def atMost (x y : α) : Bool :=
  less x y || same x y

/-- What the passing of time relies on. -/
structure Timely (α : Type) [Scalar α] : Prop where
  atMost_refl : ∀ x : α, isNaN x = false → atMost x x = true
  atMost_trans : ∀ x y z : α, atMost x y = true → atMost y z = true →
    atMost x z = true
  sub_zero : ∀ x : α, x - zero = x
  atMost_sub : ∀ x y : α, atMost x y = true → isInfinite x = false →
    isInfinite y = false → atMost zero (y - x) = true

end Scalar

open Scalar (atMost)

variable {α : Type} [Scalar α]

/-- What a clock shows after some iterations. -/
def clock (pace : Nat → α) : Nat → α
  | 0 => Scalar.zero
  | n + 1 => clock pace n + pace n

/-- The clock shows finite times, and it never goes back. -/
structure Steady (pace : Nat → α) : Prop where
  forward : ∀ n, atMost (clock pace n) (clock pace (n + 1)) = true
  number : ∀ n, Scalar.isNaN (clock pace n) = false
  finite : ∀ n, Scalar.isInfinite (clock pace n) = false

/-- The clock of an engine since its only start. -/
structure Engine.Clocked {σ ω : Type} (pace : Nat → α) (e : Engine α σ ω) :
    Prop where
  now : e.now = clock pace e.iteration
  startedAt : e.startedAt = Scalar.zero
  pace : e.pace = pace

theorem Engine.Clocked.elapsed {σ ω : Type} {pace : Nat → α}
    {e : Engine α σ ω} (h : e.Clocked pace) (htimely : Scalar.Timely α) :
    e.elapsed = e.now := by
  rw [Engine.elapsed, h.startedAt, htimely.sub_zero]

/-! ## Reports in order -/

namespace Monitor

variable {ω : Type} {m : Monitor α} {x y : α}

/-- Reports come one after the other, and none is from the future. -/
structure Ordered (x : α) (m : Monitor α) : Prop where
  ordered : m.history.Pairwise fun r r' => atMost r.elapsed r'.elapsed = true
  past : ∀ r ∈ m.history, atMost r.elapsed x = true

theorem Ordered.later (h : m.Ordered x) (htimely : Scalar.Timely α)
    (hxy : atMost x y = true) : m.Ordered y :=
  ⟨h.ordered, fun r hr => htimely.atMost_trans _ _ _ (h.past r hr) hxy⟩

theorem Ordered.close {scene : Scene α} (h : m.Ordered scene.elapsed)
    (hrefl : atMost scene.elapsed scene.elapsed = true)
    (tally : Option (ErrorTally α)) :
    (close (ω := ω) scene m tally).state.Ordered scene.elapsed := by
  rcases close_cases (ω := ω) scene m tally with ⟨-, hclose⟩ |
    ⟨-, cause, -, hclose⟩ | ⟨-, train, validation, notes, -, hclose⟩
  · rw [hclose]
    exact ⟨h.ordered, h.past⟩
  · rw [hclose]
    exact ⟨h.ordered, h.past⟩
  · rw [hclose]
    refine ⟨List.pairwise_append.mpr ⟨h.ordered, List.pairwise_singleton _ _,
      fun r hr r' hr' => ?_⟩, fun r hr => ?_⟩
    · obtain rfl := List.mem_singleton.mp hr'
      exact h.past r hr
    · rcases List.mem_append.mp hr with hr | hr
      · exact h.past r hr
      · obtain rfl := List.mem_singleton.mp hr
        exact hrefl

omit [Scalar α] in
/-- The number of reports, as a quotient that is rounded up. -/
theorem Complete.length_eq_ceil (h : m.Complete)
    (hperiod : 1 ≤ m.reportEvery) :
    (m.history.length : Int) = ⌈(m.calls : ℚ) / m.reportEvery⌉ := by
  have hpos : (0 : ℚ) < m.reportEvery := by exact_mod_cast hperiod
  refine (Int.ceil_eq_iff.mpr ⟨?_, ?_⟩).symm
  · rw [lt_div_iff₀ hpos]
    have := h.2
    have hlt : ((m.history.length : Int) - 1) * m.reportEvery < m.calls := by
      rw [Int.sub_mul]
      omega
    exact_mod_cast hlt
  · rw [div_le_iff₀ hpos]
    exact_mod_cast h.1

end Monitor

/-! ## Between iterations -/

/-- How often it has been the turn of the aggregators after some iterations. -/
def turns (mode : Mode) (size iterations : Nat) : Nat :=
  match mode with
  | .synchronous => iterations
  | .asynchronous => iterations / size

private theorem turns_zero (mode : Mode) (size : Nat) :
    turns mode size 0 = 0 := by
  cases mode with
  | synchronous => rfl
  | asynchronous => exact Nat.zero_div size

/-- The next iteration ends a sweep, or goes on with one. -/
theorem turns_succ {size : Nat} (hpos : 0 < size) (n : Nat) :
    (size ≤ n % size + 1 ∧ (n + 1) / size = n / size + 1 ∧
        (n + 1) % size = 0) ∨
      (¬ size ≤ n % size + 1 ∧ (n + 1) / size = n / size ∧
        (n + 1) % size = n % size + 1) := by
  have hsplit := Nat.div_add_mod n size
  have hlt := Nat.mod_lt n hpos
  by_cases hturn : size ≤ n % size + 1
  · refine .inl ⟨hturn, (Nat.div_mod_unique hpos).mpr ⟨?_, hpos⟩⟩
    rw [Nat.mul_add, Nat.mul_one]
    omega
  · refine .inr ⟨hturn, (Nat.div_mod_unique hpos).mpr ⟨?_, by omega⟩⟩
    omega

/-- After some iterations the activations since the last turn are counted. -/
structure Session.InTurn {σ ω μ τ ρ : Type} (mode : Mode) (size n : Nat)
    (s : Session α σ ω μ τ ρ) : Prop where
  mode_eq : s.engine.mode = mode
  size_eq : s.engine.graph.size = size
  sinceDue_eq : mode = .asynchronous → s.sinceDue = n % size

/-- An iteration is counted, and it is the turn of the aggregators if one more
turn is due by then. -/
theorem Session.InTurn.worked {σ ω μ τ ρ : Type} {mode : Mode} {size n : Nat}
    {s : Session α σ ω μ τ ρ} {p : Program α σ ω} {engine : Engine α σ ω}
    (h : s.InTurn mode size n) (hpos : 0 < size)
    (hwork : (Engine.work p s.engine.mode).perform s.engine =
      (.ok (), engine)) :
    (s.worked engine).InTurn mode size (n + 1) ∧
      turns mode size (n + 1) =
        if s.isAttended engine then turns mode size n + 1
        else turns mode size n := by
  have hmode := Engine.frame_work Engine.mode (fun _ _ _ _ _ _ _ => rfl) p
    s.engine
  have hgraph := Engine.frame_work Engine.graph (fun _ _ _ _ _ _ _ => rfl) p
    s.engine
  rw [hwork] at hmode hgraph
  have hsize : engine.graph.size = size := (congrArg _ hgraph).trans h.size_eq
  cases mode with
  | synchronous =>
      rw [Session.isAttended, h.mode_eq]
      exact ⟨⟨hmode.trans h.mode_eq, hsize, nofun⟩, rfl⟩
  | asynchronous =>
      have hsince := h.sinceDue_eq rfl
      rw [Session.isAttended, Session.worked, h.mode_eq]
      dsimp only
      rw [hsize, hsince]
      rcases turns_succ hpos n with ⟨hturn, hdiv, hmod⟩ | ⟨hidle, hdiv, hmod⟩
      · rw [if_pos hturn, if_pos (decide_eq_true hturn)]
        exact ⟨⟨hmode.trans h.mode_eq, hsize, fun _ => hmod.symm⟩, hdiv⟩
      · rw [if_neg hidle, if_neg (by simpa using hidle)]
        exact ⟨⟨hmode.trans h.mode_eq, hsize, fun _ => hmod.symm⟩, hdiv⟩

omit [Scalar α] in
/-- Reporting leaves the turns as they are. -/
theorem Session.InTurn.reported {σ ω μ τ ρ : Type} {mode : Mode} {size n : Nat}
    {s t : Session α σ ω μ τ ρ} (h : s.InTurn mode size n)
    (hreported : s.Reported t) : t.InTurn mode size n where
  mode_eq := by
    rw [hreported.engine]
    exact h.mode_eq
  size_eq := by
    rw [hreported.engine]
    exact h.size_eq
  sinceDue_eq := fun hmode => hreported.sinceDue.trans (h.sinceDue_eq hmode)

/-- A session whose monitor has been called so many times is on schedule: the
learning rate has decayed once for each report, none is missing, and they are in
order. -/
structure OnSchedule {σ ω : Type} (given : Settings α) (pace : Nat → α)
    (calls : Nat)
    (s : Session α σ ω (Monitor α) (ErrorTally α) (Option (Report α)))
    (lastRun : α) (m : Monitor α) : Prop where
  aggregators : s.aggregators = [Monitor.watching Trainer.monitorName
    (some given.interval) lastRun m]
  clocked : s.engine.Clocked pace
  lastRun_atMost : atMost lastRun s.engine.now = true
  lastRun_finite : Scalar.isInfinite lastRun = false
  calls_eq : m.calls = calls
  reportEvery : m.reportEvery = given.reportEvery
  inStep : m.InStep given.rate given.rateDecay s.engine.settings
  complete : m.Complete
  ordered : m.Ordered s.engine.now

namespace OnSchedule

variable {σ ω : Type} {given : Settings α} {pace : Nat → α} {calls : Nat}
  {s t : Session α σ ω (Monitor α) (ErrorTally α) (Option (Report α))}
  {lastRun : α} {m : Monitor α} {p : Program α σ ω}

/-- Notes do not matter. -/
theorem noted (h : OnSchedule given pace calls s lastRun m)
    (notes : Array (Note ω)) :
    OnSchedule given pace calls
      { s with engine := { s.engine with notes } } lastRun m :=
  ⟨h.aggregators, ⟨h.clocked.now, h.clocked.startedAt, h.clocked.pace⟩,
    h.lastRun_atMost, h.lastRun_finite, h.calls_eq, h.reportEvery, h.inStep,
    h.complete, h.ordered⟩

section Steps

variable (htimely : Scalar.Timely α) (hpace : Steady pace)

include htimely hpace

/-- A call that goes through is counted. -/
theorem called (h : OnSchedule given pace calls s lastRun m)
    {r : Option (Report α)}
    (hrun : (Session.aggregate Trainer.monitorName).perform s = (.ok r, t)) :
    ∃ lastRun' m', OnSchedule given pace (calls + 1) t lastRun' m' := by
  obtain ⟨total, -, hanswer, rfl⟩ :=
    Session.aggregate_single_ok h.aggregators hrun
  have helapsed : s.engine.scene.elapsed = s.engine.now :=
    h.clocked.elapsed htimely
  have hrefl := htimely.atMost_refl _ (h.clocked.now ▸ hpace.number _)
  obtain ⟨hperiod, hcalls⟩ := Monitor.close_counts (ω := ω) s.engine.scene m
    total
  refine ⟨s.engine.scene.elapsed, _, rfl, ⟨h.clocked.now, h.clocked.startedAt,
    h.clocked.pace⟩, ?_, ?_, hcalls.trans (congrArg (· + 1) h.calls_eq),
    hperiod.trans h.reportEvery, h.inStep.close total,
    h.complete.close hanswer, ?_⟩
  · rw [helapsed]
    exact hrefl
  · rw [helapsed, h.clocked.now]
    exact hpace.finite _
  · change Monitor.Ordered s.engine.now _
    rw [← helapsed] at hrefl ⊢
    refine Monitor.Ordered.close ?_ hrefl total
    rw [helapsed]
    exact h.ordered

/-- The clock goes on, and nothing else happens to what is on schedule. -/
theorem worked (h : OnSchedule given pace calls s lastRun m)
    {engine : Engine α σ ω}
    (hwork : (Engine.work p s.engine.mode).perform s.engine =
      (.ok (), engine)) :
    OnSchedule given pace calls (s.worked engine) lastRun m := by
  have hframe : ∀ {κ : Type} (field : Engine α σ ω → κ),
      (∀ (e : Engine α σ ω) vertices slots inboxes queue updates notes,
        field { e with vertices, slots, inboxes, queue, updates, notes } =
          field e) → field engine = field s.engine := by
    intro κ field hfield
    have hsame := Engine.frame_work field hfield p s.engine
    rwa [hwork] at hsame
  have hnow : engine.now = s.engine.now := hframe _ fun _ _ _ _ _ _ _ => rfl
  have hiteration : engine.iteration = s.engine.iteration :=
    hframe _ fun _ _ _ _ _ _ _ => rfl
  have hgiven : engine.pace = pace :=
    (hframe Engine.pace fun _ _ _ _ _ _ _ => rfl).trans h.clocked.pace
  have hlater : (s.worked engine).engine.now =
      clock pace (s.engine.iteration + 1) := by
    change engine.now + engine.pace engine.iteration = _
    rw [hnow, hgiven, hiteration, h.clocked.now]
    rfl
  have hforward : atMost s.engine.now (s.worked engine).engine.now = true := by
    rw [hlater, h.clocked.now]
    exact hpace.forward _
  refine ⟨h.aggregators, ⟨?_, ?_, hgiven⟩,
    htimely.atMost_trans _ _ _ h.lastRun_atMost hforward, h.lastRun_finite,
    h.calls_eq, h.reportEvery, ?_, h.complete, h.ordered.later htimely hforward⟩
  · rw [hlater, ← hiteration]
    rfl
  · exact (hframe Engine.startedAt fun _ _ _ _ _ _ _ => rfl).trans
      h.clocked.startedAt
  · have hsettings : (s.worked engine).engine.settings = s.engine.settings :=
      hframe Engine.settings fun _ _ _ _ _ _ _ => rfl
    rw [hsettings]
    exact h.inStep

/-- When it is the turn of the aggregators, the monitor is called. -/
theorem due (h : OnSchedule given pace calls s lastRun m)
    (hinterval : Scalar.same given.interval Scalar.zero = true)
    (hrun : Session.aggregateDue.perform s = (.ok (), t)) :
    ∃ lastRun' m', OnSchedule given pace (calls + 1) t lastRun' m' := by
  have hgone : atMost Scalar.zero (s.engine.elapsed - lastRun) = true := by
    rw [h.clocked.elapsed htimely]
    refine htimely.atMost_sub _ _ h.lastRun_atMost h.lastRun_finite ?_
    rw [h.clocked.now]
    exact hpace.finite _
  have hnone : atMost given.interval Scalar.zero = true := by
    rw [atMost, hinterval, Bool.or_true]
  have hdue : Session.isDue s.engine.elapsed (Monitor.watching (ω := ω)
      Trainer.monitorName (some given.interval) lastRun m) = true :=
    htimely.atMost_trans _ _ _ hnone hgone
  rcases Session.aggregateDue_single_ok h.aggregators hrun with
    ⟨hidle, -⟩ | ⟨-, r, hran⟩
  · rw [hdue] at hidle
    cases hidle
  · exact h.called htimely hpace hran

/-- An iteration that goes through. -/
theorem advance {mode : Mode} {size n : Nat}
    (h : OnSchedule given pace (turns mode size n) s lastRun m)
    (hinterval : Scalar.same given.interval Scalar.zero = true)
    (hturn : s.InTurn mode size n) (hpos : 0 < size)
    (hrun : (Session.advance p).perform s = (.ok (), t)) :
    (∃ lastRun' m',
        OnSchedule given pace (turns mode size (n + 1)) t lastRun' m') ∧
      t.InTurn mode size (n + 1) := by
  rw [Session.perform_advance] at hrun
  cases hwork : (Engine.work p s.engine.mode).perform s.engine with
  | mk answer engine =>
      rw [hwork] at hrun
      cases answer with
      | error cause => cases hrun
      | ok done =>
          dsimp only at hrun
          have hworked := h.worked htimely hpace hwork
          obtain ⟨hnext, hturns⟩ := hturn.worked hpos hwork
          rw [hturns]
          cases hattended : s.isAttended engine with
          | false =>
              rw [hattended, if_neg Bool.false_ne_true] at hrun
              obtain ⟨-, rfl⟩ := Prod.mk.inj hrun
              exact ⟨⟨lastRun, m, hworked⟩, hnext⟩
          | true =>
              rw [hattended, if_pos rfl] at hrun
              refine ⟨hworked.due htimely hpace hinterval hrun, ?_⟩
              have hreported := Session.aggregateDue_leaves (s.worked engine)
              rw [hrun] at hreported
              exact hnext.reported hreported

/-- A run that has gone so far. -/
theorem run {mode : Mode} {size : Nat} {sizes : List Nat}
    (h : OnSchedule given pace 0 s lastRun m)
    (hinterval : Scalar.same given.interval Scalar.zero = true)
    (hturn : s.InTurn mode size 0) (hpos : 0 < size)
    (hrun : Session.Run p s sizes t) :
    (∃ lastRun' m',
        OnSchedule given pace (turns mode size sizes.length) t lastRun' m') ∧
      t.InTurn mode size sizes.length := by
  induction hrun with
  | rest =>
      refine ⟨⟨lastRun, m, ?_⟩, hturn⟩
      rw [List.length_nil, turns_zero]
      exact h
  | advance _ _ _ hadvance ih =>
      obtain ⟨⟨lastRun', m', hscheduled⟩, hinTurn⟩ := ih
      rw [List.length_append, List.length_singleton]
      exact hscheduled.advance htimely hpace hinterval hinTurn hpos hadvance

end Steps

end OnSchedule

/-! ## A whole run -/

namespace Trainer

section First

variable {g : Graph α} {vertices : Array (Vertex α)} {s : Settings α}
  {o : TrainingOptions} {pace : Nat → α} {files : Files (Artifact α)}
  {t ready : Trainer α} {begun : LearningSession α}

/-- The first run of a trainer begins on schedule. -/
theorem onSchedule_begun (htimely : Scalar.Timely α) (hpace : Steady pace)
    (hmake : make g vertices s o pace files = .ok t)
    (hprepare : prepare.perform t = (.ok (), ready))
    (hbegun : Session.begin.perform ready.session = (.ok (), begun)) :
    OnSchedule s pace 0 begun Scalar.zero ⟨s.reportEvery, true, 0, []⟩ ∧
      begun.InTurn o.mode g.size 0 ∧ begun.engine.iteration = 0 := by
  obtain ⟨hperiod, hsession⟩ := make_session hmake
  obtain ⟨mean, before, after, woken, hwake, hready⟩ := prepare_ok hprepare
  obtain ⟨order, -, rfl⟩ := Session.begin_ok hbegun
  have hwoken := Descent.wakeRows_ok hwake
  rw [hsession] at hwoken hready
  have hframe : ∀ {κ : Type} (field : Engine α (Descent.Slot α) Empty → κ),
      (∀ e post, field (Engine.posted e post) = field e) →
      field woken = field (averaged (Engine.make o.mode g vertices s none pace)
        mean before) := by
    intro κ field hfield
    rw [hwoken]
    exact Engine.postAll_frame _ _ field hfield
  have hnow : woken.now = Scalar.zero := hframe Engine.now fun _ _ => rfl
  have hiteration : woken.iteration = 0 :=
    hframe Engine.iteration fun _ _ => rfl
  have hsettings : woken.settings = { s with globalMean := mean } :=
    hframe Engine.settings fun _ _ => rfl
  have hrefl : atMost Scalar.zero (Scalar.zero : α) = true :=
    htimely.atMost_refl _ (hpace.number 0)
  rw [hready]
  refine ⟨⟨rfl, ⟨?_, hnow, hframe Engine.pace fun _ _ => rfl⟩, ?_,
    hpace.finite 0, rfl, rfl, ?_, ?_, ⟨List.Pairwise.nil, nofun⟩⟩,
    ⟨hframe Engine.mode fun _ _ => rfl,
      congrArg Graph.size (hframe Engine.graph fun _ _ => rfl), ?_⟩,
    hiteration⟩
  · change woken.now = clock pace woken.iteration
    rw [hnow, hiteration]
    rfl
  · change atMost Scalar.zero woken.now = true
    rw [hnow]
    exact hrefl
  · change Monitor.InStep s.rate s.rateDecay _ woken.settings
    rw [hsettings]
    exact ⟨rfl, rfl, rfl⟩
  · unfold Monitor.Complete
    simp only [List.length_nil]
    omega
  · exact fun _ => (Nat.zero_mod g.size).symm

/-- A run that goes through its preparations has edges to learn from. -/
theorem exists_train_of_prepare (h : prepare.perform t = (.ok (), ready)) :
    ∃ e ∈ t.session.engine.graph.edges.toList, e.role = .train := by
  rw [prepare, Attempt.perform_get_bind] at h
  obtain ⟨_, said, hsaid, h⟩ := Attempt.perform_bind_ok.mp h
  obtain ⟨_, counted, hcounted, -⟩ := Attempt.perform_bind_ok.mp h
  obtain ⟨notes, hsession⟩ := say_ok hsaid
  have hgraph : said.engine.graph = t.session.engine.graph := by
    rw [engine, hsession]
  rw [takeMean, Attempt.perform_get_bind] at hcounted
  dsimp only at hcounted
  rw [Attempt.perform_modify_bind, hgraph] at hcounted
  split at hcounted
  · cases hcounted
  · rename_i hcount
    rw [countTrain_eq, Evaluation.count_roleMask] at hcount
    obtain ⟨e, he⟩ := List.exists_mem_of_ne_nil _
      (mt List.length_eq_zero_iff.mpr hcount)
    obtain ⟨hmem, hrole⟩ := List.mem_filter.mp he
    exact ⟨e, hmem, by simpa using hrole⟩

private theorem size_pos_of_edge {g : Graph α} (hg : g.Faithful) {e : Edge α}
    (he : e ∈ g.edges.toList) : 0 < g.size := by
  obtain ⟨n, hn, rfl⟩ := List.mem_iff_getElem.mp he
  have hlt : n < g.edgeCount := by simpa [Graph.edgeCount] using hn
  have := hg.source_lt n hlt
  omega

/-- The first run of a trainer without an interval between reports, on any clock
that does not go back.  If it goes through, the monitor has been called once for
each turn and once at the end; its reports are the calls divided by the period,
rounded up; each has multiplied the learning rate by the decay; and the times in
them never decrease. -/
theorem reports_on_schedule {outcome : Outcome α} {u : Trainer α}
    (hg : g.Faithful) (htimely : Scalar.Timely α) (hpace : Steady pace)
    (hinterval : Scalar.same s.interval Scalar.zero = true)
    (hmake : make g vertices s o pace files = .ok t)
    (hrun : train.perform t = (.ok outcome, u)) :
    u.monitor.calls = turns o.mode g.size outcome.iterations + 1 ∧
      (outcome.history.length : Int) =
        ⌈((turns o.mode g.size outcome.iterations + 1 : ℕ) : ℚ) /
          s.reportEvery⌉ ∧
      outcome.finalRate =
        (· * s.rateDecay)^[outcome.history.length] s.rate ∧
      (∀ i (hi : i < outcome.history.length),
        outcome.history[i].rate = (· * s.rateDecay)^[i + 1] s.rate) ∧
      outcome.history.Pairwise fun r r' =>
        atMost r.elapsed r'.elapsed = true := by
  obtain ⟨ready, stopped, updates, hprepare, hstart, hconclude⟩ :=
    train_ok hrun
  obtain ⟨hperiod, hsession⟩ := make_session hmake
  obtain ⟨sizes, last, ⟨begun, hbegun, hiterated⟩, hover, -⟩ :=
    Session.start_ok hstart
  obtain ⟨hscheduled, hturn, hfirst⟩ :=
    onSchedule_begun htimely hpace hmake hprepare hbegun
  have hpos : 0 < g.size := by
    obtain ⟨e, he, -⟩ := exists_train_of_prepare hprepare
    rw [hsession] at he
    exact size_pos_of_edge hg he
  obtain ⟨⟨lastRun, m, hlast⟩, -⟩ :=
    hscheduled.run htimely hpace hinterval hturn hpos hiterated
  obtain ⟨-, before, rfl⟩ := Session.not_busy_of_isOver hover
  obtain ⟨after, r, closed, hran, -, ⟨notes, hu⟩, -, htells⟩ :=
    conclude_ok hconclude
  obtain ⟨lastRun', m', hclosed⟩ :=
    (hlast.noted after).called htimely hpace hran
  have hmonitor : u.monitor = m' := monitor_of_single
    ((congrArg Session.aggregators hu).trans hclosed.aggregators)
  have hiterations : outcome.iterations = sizes.length := by
    have hreported := Session.aggregate_leaves monitorName { last with
      engine := { last.engine with notes := after } }
    rw [hran] at hreported
    rw [htells.iterations, engine, hu]
    dsimp only
    rw [hreported.engine]
    dsimp only
    rw [hiterated.iteration_eq, hfirst, Nat.zero_add]
  have hhistory : outcome.history = m'.history := htells.history.trans
    (congrArg Monitor.history hmonitor)
  have hrate : outcome.finalRate = closed.engine.settings.rate :=
    htells.finalRate.trans (congrArg (·.engine.settings.rate) hu)
  have hceil := hclosed.complete.length_eq_ceil
    (hclosed.reportEvery.symm ▸ hperiod)
  rw [hclosed.calls_eq, hclosed.reportEvery] at hceil
  rw [hmonitor, hiterations, hhistory, hrate]
  refine ⟨hclosed.calls_eq, hceil, hclosed.inStep.rate, fun i hi => ?_,
    hclosed.ordered.ordered⟩
  have hrates := congrArg (·[i]?) hclosed.inStep.rates
  simpa [hi] using hrates

end First

private theorem atMost_int {x y : Int} : atMost x y = true ↔ x ≤ y := by
  simp only [atMost, Scalar.less, Scalar.same, Bool.or_eq_true,
    decide_eq_true_eq]
  omega

private theorem timely_int : Scalar.Timely Int where
  atMost_refl x _ := atMost_int.mpr (Int.le_refl x)
  atMost_trans _ _ _ h h' :=
    atMost_int.mpr (Int.le_trans (atMost_int.mp h) (atMost_int.mp h'))
  sub_zero := Int.sub_zero
  atMost_sub _ _ h _ _ :=
    atMost_int.mpr (Int.sub_nonneg_of_le (atMost_int.mp h))

private theorem steady_one : Steady fun _ => (1 : Int) where
  forward _ := atMost_int.mpr (Int.le_add_one (Int.le_refl _))
  number _ := rfl
  finite _ := rfl

/-- In four rounds the sample is reported on twice and once more at the end; in
nine activations, that is one sweep of five and a part of the next, once and
once more at the end. -/
theorem reports_on_schedule_sample :
    (∃ outcome u,
      train.perform (periodicTrainer .synchronous 2) = (.ok outcome, u) ∧
      outcome.iterations = 4 ∧ u.monitor.calls = 5 ∧
      outcome.history.length = 3) ∧
    ∃ outcome u,
      train.perform (periodicTrainer .asynchronous 1) = (.ok outcome, u) ∧
      outcome.iterations = 9 ∧ u.monitor.calls = 2 ∧
      outcome.history.length = 2 := by
  have hcase : ∀ (mode : Mode) (period : Int) (iterations reports : Nat),
      1 ≤ period →
      (periodicRun mode period).1.toOption.map (·.iterations) =
        some iterations →
      ⌈((turns mode 5 iterations + 1 : ℕ) : ℚ) / period⌉ = reports →
      ∃ outcome u, train.perform (periodicTrainer mode period) =
          (.ok outcome, u) ∧
        outcome.iterations = iterations ∧
        u.monitor.calls = turns mode 5 iterations + 1 ∧
        outcome.history.length = reports := by
    intro mode period iterations reports hperiod hmap hreports
    obtain ⟨outcome, hresult, rfl⟩ := Option.map_eq_some_iff.mp hmap
    have hrun := Attempt.perform_of_toOption hresult
    obtain ⟨hcalls, hlength, -⟩ := reports_on_schedule
      sampleGraph_bipartite.toFaithful timely_int steady_one rfl
      (make_periodicTrainer mode hperiod) hrun
    exact ⟨outcome, _, hrun, rfl, hcalls,
      Int.ofNat_inj.mp (hlength.trans hreports)⟩
  exact ⟨hcase .synchronous 2 4 3 (by decide) (by decide +kernel)
      (by decide +kernel),
    hcase .asynchronous 1 9 2 (by decide) (by decide +kernel)
      (by decide +kernel)⟩

end Trainer

end RatingFactors
