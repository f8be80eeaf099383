import RatingFactors.Proofs.Engine.Runs

/-!
# How starts end

A start is given a number of iterations after which it gives up.  This module
says what else can become of it: its work is done, or an iteration fails.  If no
run is under way for as long as the patience of a start, the start comes to its
own end, and its patience does not matter.

Invariants of runs are stated for engines: `Kept` asks what an iteration and a
change of settings keep, and gives what runs and starts keep.

## Main definitions

* `Session.Ended` — a start that came to its own end.
* `Session.Finishes` — no run is under way for longer than a number of
  iterations.
* `Session.Kept` — a property of engines that iterations keep.

## Main results

* `start_cases` — what can become of a start.
* `ended_of_finishes` — with enough patience a start comes to its own end.
* `Kept.reaches`, `Kept.ended` — invariants of a start and of its end.
* `safe_start_of` — what a start keeps, however it ends.
-/

namespace RatingFactors

namespace Session

variable {α σ ω μ τ ρ : Type} [Scalar α] {p : Program α σ ω}
  {s t u : Session α σ ω μ τ ρ} {sizes : List Nat} {patience : Nat}

/-- A start that came to its own end: after some iterations there was nothing
more to do, or the order of the queue could not be drawn, or an iteration
failed. -/
inductive Ended (p : Program α σ ω) (s : Session α σ ω μ τ ρ) :
    Except Failure Nat → Session α σ ω μ τ ρ → Prop
  | finished {sizes : List Nat} {u t : Session α σ ω μ τ ρ} :
      Reaches p s sizes u → isOver.perform u = (.ok true, t) →
      Ended p s (.ok t.engine.updates) t
  | unbegun {cause : Failure} {t : Session α σ ω μ τ ρ} :
      begin.perform s = (.error cause, t) → Ended p s (.error cause) t
  | failed {sizes : List Nat} {cause : Failure} {u t : Session α σ ω μ τ ρ} :
      Reaches p s sizes u → u.Busy →
      (advance p).perform u = (.error cause, t) → Ended p s (.error cause) t

omit [Scalar α] in
/-- When there is nothing more to do the session is not busy, and no more than a
note is added to it. -/
theorem not_busy_of_isOver (h : isOver.perform s = (.ok true, t)) :
    ¬ s.Busy ∧ ∃ notes, t = { s with engine := { s.engine with notes } } := by
  rcases isOver_ok h with ⟨-, hactive, rfl⟩ |
    ⟨-, -, hlimit, text, rfl⟩ | ⟨hover, -⟩
  · exact ⟨fun hbusy => hbusy.1 hactive, t.engine.notes, rfl⟩
  · exact ⟨fun hbusy => hlimit hbusy.2, _, rfl⟩
  · cases hover

/-- A run was busy before each of its iterations. -/
theorem Run.busy_before (h : Run p s sizes t) {n : Nat}
    (hn : n < sizes.length) :
    ∃ u, Run p s (sizes.take n) u ∧ u.Busy := by
  induction h with
  | rest => cases hn
  | @advance sizes t _ hrun hactive hlimit _ ih =>
      rw [List.length_append, List.length_singleton] at hn
      rcases Nat.lt_succ_iff_lt_or_eq.mp hn with hlt | rfl
      · rw [List.take_append_of_le_length (Nat.le_of_lt hlt)]
        exact ih hlt
      · rw [List.take_left]
        exact ⟨t, hrun, hactive, hlimit⟩

/-! ## What becomes of a start -/

/-- A start begins, unless the order of the queue is to be drawn from a number
that is no seed. -/
theorem begin_cases (s : Session α σ ω μ τ ρ) :
    (∃ begun, begin.perform s = (.ok (), begun)) ∨
      ∃ seed cause, s.engine.mode = .asynchronous ∧ s.seed = some seed ∧
        Twister.seeded (some seed) = .error cause ∧
        begin.perform s = (.error cause, s.restarted) := by
  rw [perform_begin]
  cases hmode : s.engine.mode with
  | synchronous => exact .inl ⟨_, rfl⟩
  | asynchronous =>
      cases hseed : s.seed with
      | none => exact .inl ⟨_, rfl⟩
      | some seed =>
          dsimp only [drawnOrder]
          cases hsource : Twister.seeded (some seed) with
          | ok source => exact .inl ⟨_, rfl⟩
          | error cause =>
              exact .inr ⟨seed, cause, rfl, rfl, hsource, rfl⟩

/-- A start comes to its own end, or it gives up after as many iterations as it
has patience for. -/
theorem start_cases {answer : Except Failure Nat}
    (h : (start p patience).perform s = (answer, t)) :
    Ended p s answer t ∨ (answer = .error .stillActive ∧
      ∃ sizes, Reaches p s sizes t ∧ t.Busy ∧ sizes.length = patience) := by
  rw [start_eq, Attempt.perform_bind] at h
  cases hbegin : begin.perform s with
  | mk result begun =>
      rw [hbegin] at h
      cases result with
      | error cause =>
          obtain ⟨rfl, rfl⟩ := Prod.mk.inj h
          exact .inl (.unbegun hbegin)
      | ok done =>
          dsimp only at h
          rw [Attempt.perform_bind] at h
          cases hiterate : (iterate p patience).perform begun with
          | mk result last =>
              rw [hiterate] at h
              rcases iterate_cases .rest hiterate with
                ⟨sizes, v, hrun, hover, rfl⟩ |
                ⟨sizes, v, cause, hrun, hbusy, hadvance, rfl⟩ |
                ⟨sizes, hrun, hbusy, hlength, rfl⟩
              · obtain ⟨rfl, rfl⟩ := Prod.mk.inj h
                exact .inl (.finished ⟨begun, hbegin, hrun⟩ hover)
              · obtain ⟨rfl, rfl⟩ := Prod.mk.inj h
                exact .inl (.failed ⟨begun, hbegin, hrun⟩ hbusy hadvance)
              · obtain ⟨rfl, rfl⟩ := Prod.mk.inj h
                refine .inr ⟨rfl, sizes, ⟨begun, hbegin, hrun⟩, hbusy, ?_⟩
                simpa using hlength

/-- Where no aggregator runs periodically, none does so later. -/
theorem Reaches.idle (hreaches : Reaches p s sizes t)
    (hidle : ∀ a ∈ s.aggregators, a.interval = none) :
    ∀ a ∈ t.aggregators, a.interval = none := by
  obtain ⟨begun, hbegun, hrun⟩ := hreaches
  obtain ⟨order, -, rfl⟩ := begin_ok hbegun
  induction hrun with
  | rest =>
      intro a ha
      obtain ⟨b, hb, rfl⟩ := List.mem_map.mp ha
      exact hidle b hb
  | advance _ _ _ hadvance ih =>
      obtain ⟨engine, -, rfl⟩ := (advance_ok_of_idle ih).mp hadvance
      exact ih

/-- No run is still under way after so many iterations. -/
def Finishes (p : Program α σ ω) (s : Session α σ ω μ τ ρ) (n : Nat) : Prop :=
  ∀ sizes t, Reaches p s sizes t → t.Busy → sizes.length < n

/-- With enough patience a start comes to its own end. -/
theorem ended_of_finishes {n : Nat} {answer : Except Failure Nat}
    (hfinishes : Finishes p s n) (hpatience : n ≤ patience)
    (h : (start p patience).perform s = (answer, t)) :
    Ended p s answer t := by
  rcases start_cases h with hended | ⟨-, sizes, hreaches, hbusy, hlength⟩
  · exact hended
  · have hlt := hfinishes sizes t hreaches hbusy
    omega

/-! ## Invariants -/

/-- A property of engines that iterations keep, and that sees only part of the
settings. -/
structure Kept (p : Program α σ ω) {κ : Type} (field : Settings α → κ)
    (motive : Engine α σ ω → Prop) : Prop where
  work : ∀ e e', motive e → e.activeCount ≠ 0 →
    (Engine.work p e.mode).perform e = (.ok (), e') →
    motive (passIteration e')
  settings : ∀ e settings notes, motive e →
    field settings = field e.settings →
    motive { e with settings, notes }

variable {κ : Type} {field : Settings α → κ} {motive : Engine α σ ω → Prop}

/-- What aggregators report does not disturb an invariant. -/
theorem Kept.reported (h : Kept p field motive) (hreported : s.Reported t)
    (hs : motive s.engine) (haggregators : ∀ a ∈ s.aggregators,
      a.Preserves field) :
    motive t.engine ∧ ∀ a ∈ t.aggregators, a.Preserves field := by
  obtain ⟨hfield, hall⟩ := hreported.preserved field haggregators
  refine ⟨?_, hall⟩
  rw [hreported.engine]
  exact h.settings _ _ _ hs hfield

/-- What iterations keep, a run keeps. -/
theorem Kept.run (h : Kept p field motive) (hrun : Run p s sizes t)
    (hs : motive s.engine) (haggregators : ∀ a ∈ s.aggregators,
      a.Preserves field) :
    motive t.engine ∧ ∀ a ∈ t.aggregators, a.Preserves field := by
  induction hrun with
  | rest => exact ⟨hs, haggregators⟩
  | advance _ hactive _ hadvance ih =>
      obtain ⟨engine, hwork, hreported⟩ := advance_ok hadvance
      exact h.reported hreported (h.work _ _ ih.1 hactive hwork) ih.2

/-- What holds of an engine with its queue in any order, and is kept by
iterations, holds between any two iterations of a start. -/
theorem Kept.reaches (h : Kept p field motive)
    (hreaches : Reaches p s sizes t)
    (hbegin : ∀ order startedAt, order.Perm s.engine.queue →
      motive { s.engine with queue := order, startedAt })
    (haggregators : ∀ a ∈ s.aggregators, a.Preserves field) :
    motive t.engine ∧ ∀ a ∈ t.aggregators, a.Preserves field := by
  obtain ⟨begun, hbegun, hrun⟩ := hreaches
  obtain ⟨order, horder, rfl⟩ := begin_ok hbegun
  refine h.run hrun (hbegin order _ horder) fun a ha => ?_
  obtain ⟨b, hb, rfl⟩ := List.mem_map.mp ha
  exact haggregators b hb

/-- What holds of an engine whatever became of its work, holds of it when a
start has ended. -/
theorem Kept.ended (h : Kept p field motive)
    {after : Engine α σ ω → Prop} (hkept : ∀ e, motive e → after e)
    (hwork : ∀ e, motive e → e.activeCount ≠ 0 →
      after ((Engine.work p e.mode).perform e).2)
    (hsettings : ∀ e settings notes, after e →
      after { e with settings, notes })
    (hbegin : ∀ order startedAt, order.Perm s.engine.queue →
      motive { s.engine with queue := order, startedAt })
    (haggregators : ∀ a ∈ s.aggregators, a.Preserves field)
    {answer : Except Failure Nat} (hended : Ended p s answer t) :
    after t.engine := by
  cases hended with
  | finished hreaches hover =>
      have hu := hkept _ (h.reaches hreaches hbegin haggregators).1
      rcases isOver_ok hover with ⟨-, -, rfl⟩ | ⟨-, -, -, text, rfl⟩ | ⟨hno, -⟩
      · exact hu
      · exact hsettings _ _ _ hu
      · cases hno
  | unbegun hbegun =>
      rcases begin_cases s with ⟨_, hok⟩ | ⟨_, _, -, -, -, herror⟩
      · rw [hok] at hbegun
        cases hbegun
      · rw [herror] at hbegun
        obtain ⟨-, rfl⟩ := Prod.mk.inj hbegun
        exact hkept _ (hbegin _ _ (.refl _))
  | failed hreaches hbusy hadvance =>
      have hu := (h.reaches hreaches hbegin haggregators).1
      rcases advance_cases hadvance with ⟨_, engine, herror, -, rfl⟩ |
        ⟨engine, hok, hreported⟩
      · have hleft := hwork _ hu hbusy.1
        rwa [herror] at hleft
      · rw [hreported.engine]
        exact hsettings _ _ _ (hkept _ (h.work _ _ hu hbusy.1 hok))

/-! ## However a start ends -/

section Always

variable {always : Session α σ ω μ τ ρ → Prop}
  (hnotes : ∀ s notes, always s →
    always { s with engine := { s.engine with notes } })
  (hadvance : Attempt.Safe always (advance p))

include hnotes hadvance

/-- What notes and iterations keep, whether they go through or not, iterating
keeps. -/
theorem safe_iterate_of (patience : Nat) :
    Attempt.Safe always (iterate p patience) := by
  have hover : Attempt.Safe always isOver := by
    intro s hs
    rcases isOver_cases s with ⟨t, ht⟩ | ⟨hbusy, -⟩
    · obtain ⟨-, notes, rfl⟩ := not_busy_of_isOver ht
      rw [ht]
      exact hnotes s notes hs
    · rw [hbusy]
      exact hs
  induction patience with
  | zero =>
      refine hover.bind fun finished => ?_
      cases finished with
      | true => exact Attempt.safe_pure ()
      | false => exact Attempt.safe_throw _
  | succ patience ih =>
      refine hover.bind fun finished => ?_
      cases finished with
      | true => exact Attempt.safe_pure ()
      | false => exact hadvance.bind fun _ => ih

/-- If beginning keeps it as well, so does a start. -/
theorem safe_start_of
    (hbegin : ∀ s order, always s → order.Perm s.engine.queue →
      always { s.restarted with
        engine := { s.restarted.engine with queue := order } })
    (patience : Nat) : Attempt.Safe always (start p patience) := by
  rw [start_eq]
  refine Attempt.Safe.bind ?_ fun _ =>
    (safe_iterate_of hnotes hadvance patience).bind fun _ =>
      Attempt.safe_get.bind fun _ => Attempt.safe_pure _
  intro s hs
  rw [perform_begin]
  cases horder : drawnOrder s.engine.mode s.seed s.engine.queue with
  | error cause => exact hbegin s s.engine.queue hs (.refl _)
  | ok order => exact hbegin s order hs (drawnOrder_perm horder)

end Always

end Session

end RatingFactors
