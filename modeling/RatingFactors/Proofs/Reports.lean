import Mathlib.Logic.Function.Iterate
import RatingFactors.Proofs.Engine.Endings
import RatingFactors.Proofs.Monitor

/-!
# Reports and the learning rate

Closing a total is counted, makes a report, or fails; which of the three, and
what it leaves, is said once in `close_cases`.  Everything about the rhythm of
reports follows from it: the learning rate is multiplied once for each report,
whatever fails, and as long as nothing fails every closing that is due has its
report.

In a session whose only aggregator keeps a monitor, running that aggregator is
nothing but closing the total over all edges.

## Main definitions

* `Monitor.InStep` — the rate has decayed once for each report.
* `Monitor.Complete` — no report is missing.
* `Session.reported` — a session after its only aggregator has closed a total.
* `Session.Monitored` — the only aggregator keeps a monitor.

## Main results

* `InStep.close`, `Complete.close` — what it keeps.
* `perform_aggregate`, `aggregateDue_single_ok` — the aggregator of a monitor in
  a session.
* `safe_start` — runs leave the monitor in its place, however they end.
-/

namespace RatingFactors

variable {α : Type} [Scalar α]

namespace Monitor

variable {ω : Type} {m : Monitor α} {scene : Scene α}

/-- The learning rate is the first one, multiplied by the decay once for each
report; and each report gives the rate from there on. -/
structure InStep (first factor : α) (m : Monitor α) (s : Settings α) :
    Prop where
  decay : s.rateDecay = factor
  rate : s.rate = (· * factor)^[m.history.length] first
  rates : m.history.map (·.rate) =
    (List.range m.history.length).map fun i => (· * factor)^[i + 1] first

section InStep

variable {first factor : α}

private theorem InStep.rate_decayed {s : Settings α}
    (h : InStep first factor m s) :
    s.decayed.rate = (· * factor)^[m.history.length + 1] first := by
  rw [Function.iterate_succ_apply', ← h.rate, ← h.decay]
  rfl

/-- Whatever is closed, and whether that fails or not, reports and the learning
rate stay in step. -/
theorem InStep.close (h : InStep first factor m scene.settings)
    (tally : Option (ErrorTally α)) :
    InStep first factor (close (ω := ω) scene m tally).state
      (close (ω := ω) scene m tally).settings := by
  rcases close_cases (ω := ω) scene m tally with ⟨-, hclose⟩ |
    ⟨-, cause, -, hclose⟩ | ⟨-, train, validation, notes, -, hclose⟩
  · rw [hclose]
    exact ⟨h.decay, h.rate, h.rates⟩
  · rw [hclose]
    exact ⟨h.decay, h.rate, h.rates⟩
  · rw [hclose]
    refine ⟨h.decay, ?_, ?_⟩
    · rw [List.length_append]
      exact h.rate_decayed
    · rw [List.map_append, List.length_append, List.length_singleton,
        List.range_succ, List.map_append, h.rates]
      exact congrArg _ (congrArg (fun x => [x]) h.rate_decayed)

end InStep

/-- Each closing that was due has made its report: their number is that of the
closings divided by the period, rounded up. -/
def Complete (m : Monitor α) : Prop :=
  m.calls ≤ m.history.length * m.reportEvery ∧
    m.history.length * m.reportEvery < m.calls + m.reportEvery

omit [Scalar α] in
/-- If no report is missing, the next closing is due when the closings so far
are covered exactly by the reports so far. -/
theorem Complete.reportsNext_iff (h : m.Complete) :
    m.reportsNext = true ↔
      m.history.length * m.reportEvery = (m.calls : Int) := by
  rw [reportsNext, beq_iff_eq]
  constructor
  · intro hdue
    obtain ⟨n, hn⟩ := Int.dvd_of_emod_eq_zero hdue
    have hle : m.reportEvery * n ≤ m.reportEvery * m.history.length := by
      rw [← hn, Int.mul_comm]
      exact h.1
    have hlt : m.reportEvery * m.history.length < m.reportEvery * (n + 1) := by
      rw [Int.mul_add, Int.mul_one, ← hn, Int.mul_comm]
      exact h.2
    have hpos : 0 < m.reportEvery := by
      have := h.1
      have := h.2
      omega
    have hsame : (m.history.length : Int) = n := by
      have hle' := Int.le_of_mul_le_mul_left hle hpos
      have hlt' := Int.lt_of_mul_lt_mul_left hlt (Int.le_of_lt hpos)
      omega
    rw [hn, hsame, Int.mul_comm]
  · intro hsame
    rw [← hsame, Int.mul_emod_left]

/-- Closing that does not fail leaves no report out. -/
theorem Complete.close (h : m.Complete) {tally : Option (ErrorTally α)}
    {r : Option (Report α)}
    (hanswer : (close (ω := ω) scene m tally).answer = .ok r) :
    (close (ω := ω) scene m tally).state.Complete := by
  have hnext := h.reportsNext_iff
  obtain ⟨hle, hlt⟩ := h
  rcases close_cases (ω := ω) scene m tally with ⟨hskip, hclose⟩ |
    ⟨-, cause, -, hclose⟩ | ⟨hdue, train, validation, notes, -, hclose⟩
  · rw [hclose]
    have hne : m.history.length * m.reportEvery ≠ (m.calls : Int) := by
      intro hsame
      rw [hnext.mpr hsame] at hskip
      cases hskip
    unfold Complete
    dsimp only
    push_cast
    omega
  · rw [hclose] at hanswer
    cases hanswer
  · rw [hclose]
    have hsame := hnext.mp hdue
    unfold Complete
    dsimp only
    rw [List.length_append, List.length_singleton]
    push_cast
    rw [Int.add_mul]
    omega

/-- Closing never changes the period, and counts one more. -/
theorem close_counts (scene : Scene α) (m : Monitor α)
    (tally : Option (ErrorTally α)) :
    (close (ω := ω) scene m tally).state.reportEvery = m.reportEvery ∧
      (close (ω := ω) scene m tally).state.calls = m.calls + 1 := by
  rcases close_cases (ω := ω) scene m tally with ⟨-, hclose⟩ |
    ⟨-, cause, -, hclose⟩ | ⟨-, train, validation, notes, -, hclose⟩ <;>
  · rw [hclose]
    exact ⟨rfl, rfl⟩

end Monitor

/-! ## The monitor of a session -/

namespace Session

variable {σ ω : Type}
  {s t : Session α σ ω (Monitor α) (ErrorTally α) (Option (Report α))}
  {name : String} {interval : Option α} {lastRun : α} {m : Monitor α}

/-- The session after its only aggregator has closed a total. -/
def reported
    (s : Session α σ ω (Monitor α) (ErrorTally α) (Option (Report α)))
    (name : String) (interval : Option α)
    (closing : Closing α ω (Monitor α) (Option (Report α))) :
    Session α σ ω (Monitor α) (ErrorTally α) (Option (Report α)) :=
  { s with
    engine := { s.engine with
      settings := closing.settings
      notes := s.engine.notes ++ closing.notes.toArray }
    aggregators :=
      [Monitor.watching name interval s.engine.elapsed closing.state] }

theorem find?_single
    (h : s.aggregators = [Monitor.watching name interval lastRun m]) :
    s.find? name = some (Monitor.watching name interval lastRun m) := by
  rw [find?, h]
  exact List.find?_cons_of_pos (beq_self_eq_true name)

omit [Scalar α] in
theorem register_of_nil
    {a : Aggregator α ω (Monitor α) (ErrorTally α) (Option (Report α))}
    (h : s.aggregators = []) :
    s.register a = (true, { s with aggregators := [a] }) := by
  rw [register, find?, h]
  rfl

theorem makePeriodic_single
    (h : s.aggregators = [Monitor.watching name interval lastRun m])
    (every : α) :
    s.makePeriodic name every =
      if Scalar.less every Scalar.zero then (false, s)
      else (true, { s with aggregators :=
        [Monitor.watching name (some every) lastRun m] }) := by
  rw [makePeriodic, find?_single h]
  dsimp only
  rw [replace, h, List.map_singleton, if_pos (beq_self_eq_true _)]
  rfl

/-- Running the aggregator of a monitor closes the total over all edges, if
there is one. -/
theorem perform_aggregate
    (h : s.aggregators = [Monitor.watching name interval lastRun m]) :
    (aggregate name).perform s =
      match (Monitor.watching (ω := ω) name interval lastRun m).total
        s.engine.scene with
      | .error cause => (.error cause, s)
      | .ok total => ((Monitor.close (ω := ω) s.engine.scene m total).answer,
          s.reported name interval
            (Monitor.close s.engine.scene m total)) := by
  rw [aggregate, Attempt.perform_get_bind, find?_single h]
  dsimp only
  rw [Attempt.perform_bind, Attempt.perform_lift]
  cases (Monitor.watching (ω := ω) name interval lastRun m).total
      s.engine.scene with
  | error cause => rfl
  | ok total =>
      dsimp only
      rw [Attempt.perform_set_bind, Attempt.perform_lift, replace, h,
        List.map_singleton, if_pos (beq_self_eq_true _)]
      rfl

theorem aggregate_single_ok
    (h : s.aggregators = [Monitor.watching name interval lastRun m])
    {r : Option (Report α)} (hrun : (aggregate name).perform s = (.ok r, t)) :
    ∃ total, (Monitor.watching (ω := ω) name interval lastRun m).total
        s.engine.scene = .ok total ∧
      (Monitor.close (ω := ω) s.engine.scene m total).answer = .ok r ∧
      t = s.reported name interval (Monitor.close s.engine.scene m total) := by
  rw [perform_aggregate h] at hrun
  split at hrun
  · cases hrun
  · rename_i total htotal
    obtain ⟨hanswer, rfl⟩ := Prod.mk.inj hrun
    exact ⟨total, htotal, hanswer, rfl⟩

/-- When it is the turn of the aggregators and nothing fails, the only one has
run, if it was due. -/
theorem aggregateDue_single_ok
    (h : s.aggregators = [Monitor.watching name interval lastRun m])
    (hrun : aggregateDue.perform s = (.ok (), t)) :
    (isDue s.engine.elapsed
        (Monitor.watching (ω := ω) name interval lastRun m) = false ∧ t = s) ∨
      (isDue s.engine.elapsed
          (Monitor.watching (ω := ω) name interval lastRun m) = true ∧
        ∃ r, (aggregate name).perform s = (.ok r, t)) := by
  rw [perform_aggregateDue, h, List.map_singleton] at hrun
  rcases runIfDue_ok (Attempt.each_singleton.mp hrun) with ⟨hidle, rfl⟩ |
    ⟨a, r, ha, hdue, hran⟩
  · exact .inl ⟨hidle _ (find?_single h), rfl⟩
  · obtain rfl := Option.some.inj ((find?_single h).symm.trans ha)
    exact .inr ⟨hdue, r, hran⟩

/-! ## Sessions that keep their monitor -/

/-- The only aggregator keeps a monitor. -/
def Monitored (name : String)
    (s : Session α σ ω (Monitor α) (ErrorTally α) (Option (Report α))) :
    Prop :=
  ∃ interval lastRun m,
    s.aggregators = [Monitor.watching name interval lastRun m]

open Attempt (Safe)

theorem safe_aggregate (name other : String) :
    Safe (Monitored (σ := σ) (ω := ω) name) (aggregate (α := α) other) := by
  rintro s ⟨interval, lastRun, m, h⟩
  by_cases hname : other = name
  · subst hname
    rw [perform_aggregate h]
    split
    · exact ⟨interval, lastRun, m, h⟩
    · exact ⟨interval, _, _, rfl⟩
  · have hnone : s.find? other = none := by
      rw [find?, h]
      refine List.find?_cons_of_neg ?_
      rw [beq_iff_eq]
      exact fun hsame => hname hsame.symm
    rw [aggregate, Attempt.perform_get_bind, hnone]
    exact ⟨interval, lastRun, m, h⟩

private theorem safe_aggregateDue (name : String) :
    Safe (Monitored (α := α) (σ := σ) (ω := ω) name) aggregateDue := by
  refine Attempt.safe_get.bind fun s => Attempt.safe_each fun other _ => ?_
  refine Attempt.safe_get.bind fun s' => ?_
  cases s'.find? other with
  | none => exact Attempt.safe_pure ()
  | some a =>
      dsimp only
      split
      · exact (safe_aggregate name other).bind fun _ => Attempt.safe_pure ()
      · exact Attempt.safe_pure ()

theorem safe_onEngine {β : Type} (name : String)
    (work : Attempt (Engine α σ ω) β) :
    Safe (Monitored (α := α) (σ := σ) (ω := ω) name) (onEngine work) :=
  fun _ h => h

/-- An iteration keeps the monitor, whether it goes through or not. -/
theorem safe_advance (name : String) (p : Program α σ ω) :
    Safe (Monitored name) (advance p) := by
  intro s h
  rw [perform_advance]
  cases (Engine.work p s.engine.mode).perform s.engine with
  | mk answer engine =>
      cases answer with
      | error cause => exact h
      | ok done =>
          dsimp only
          split
          · exact safe_aggregateDue name (s.worked engine) h
          · exact h

/-- A start keeps the monitor, however it ends. -/
theorem safe_start (name : String) (p : Program α σ ω) (patience : Nat) :
    Safe (Monitored name) (start p patience) := by
  refine safe_start_of (fun _ _ h => h) (safe_advance name p) ?_ patience
  rintro s order ⟨interval, lastRun, m, h⟩ -
  refine ⟨interval, Scalar.zero, m, ?_⟩
  change s.aggregators.map (fun a => { a with lastRun := Scalar.zero }) = _
  rw [h]
  rfl

end Session

end RatingFactors
