import RatingFactors.Engine.Run
import RatingFactors.Proofs.Attempt
import RatingFactors.Proofs.Random.Shuffle

/-!
# Runs

A run is a sequence of iterations, each made because some vertex was active and
the bound on iterations was not reached.  `Run` is that sequence as a relation:
it names every state between two iterations, which is where invariants hold,
and records how many vertices were active before each.  `start` begins by
setting the clock back and putting the queue into some order; of that order it
only matters that it is one.

## Main definitions

* `Session.Run` — the states that iterations reach one after the other.
* `Session.Reaches` — the same for a whole start.
* `Session.Quiet` — nothing but the engine has a say in a session.
* `Aggregator.Preserves` — closing leaves part of the settings alone.

## Main results

* `perform_advance`, `advance_cases` — one iteration, whether it goes through
  or not.
* `advance_ok` — one that did.
* `iterate_cases` — what becomes of iterating.
* `start_ok` — a start that went through, taken apart.
* `start_of_run` — a run that comes to rest is a start.
-/

namespace RatingFactors

namespace Aggregator

variable {α ω μ τ ρ : Type} [Scalar α]

/-- Closing a total leaves part of the settings as it is. -/
def Preserves {κ : Type} (field : Settings α → κ)
    (a : Aggregator α ω μ τ ρ) : Prop :=
  ∀ scene state total, field (a.close scene state total).settings =
    field scene.settings

end Aggregator

/-- What an iteration does to the engine: a round or an activation. -/
def Engine.work {α σ ω : Type} [Scalar α] (p : Program α σ ω) :
    Mode → Attempt (Engine α σ ω) Unit
  | .synchronous => Engine.round p
  | .asynchronous => Engine.activateNext p

namespace Session

variable {α σ ω μ τ ρ : Type} [Scalar α]

/-! ## What aggregators reach -/

/-- What running aggregators can have changed: settings, notes and the
aggregators themselves. -/
structure Reported (s s' : Session α σ ω μ τ ρ) : Prop where
  engine : s'.engine = { s.engine with
    settings := s'.engine.settings, notes := s'.engine.notes }
  limit : s'.limit = s.limit
  seed : s'.seed = s.seed
  sinceDue : s'.sinceDue = s.sinceDue
  preserved : ∀ {κ : Type} (field : Settings α → κ),
    (∀ a ∈ s.aggregators, a.Preserves field) →
    field s'.engine.settings = field s.engine.settings ∧
      ∀ a ∈ s'.aggregators, a.Preserves field

omit [Scalar α] in
theorem Reported.refl (s : Session α σ ω μ τ ρ) : s.Reported s :=
  ⟨rfl, rfl, rfl, rfl, fun _ h => ⟨rfl, h⟩⟩

omit [Scalar α] in
theorem Reported.trans {s t u : Session α σ ω μ τ ρ} (hst : s.Reported t)
    (htu : t.Reported u) : s.Reported u where
  engine := by
    rw [htu.engine, hst.engine]
  limit := htu.limit.trans hst.limit
  seed := htu.seed.trans hst.seed
  sinceDue := htu.sinceDue.trans hst.sinceDue
  preserved := by
    intro κ field h
    obtain ⟨hfield, hall⟩ := hst.preserved field h
    obtain ⟨hfield', hall'⟩ := htu.preserved field hall
    exact ⟨hfield'.trans hfield, hall'⟩

/-- An aggregator that runs leaves a report behind, even if it fails. -/
theorem aggregate_leaves (name : String) (s : Session α σ ω μ τ ρ) :
    s.Reported ((aggregate name).perform s).2 := by
  rw [aggregate, Attempt.perform_get_bind]
  cases hfind : s.find? name with
  | none => exact Reported.refl s
  | some a =>
      dsimp only
      cases htotal : a.total s.engine.scene with
      | error cause =>
          rw [Attempt.perform_bind, Attempt.perform_lift]
          exact Reported.refl s
      | ok total =>
          rw [Attempt.perform_bind, Attempt.perform_lift]
          dsimp only
          rw [Attempt.perform_set_bind, Attempt.perform_lift]
          refine ⟨rfl, rfl, rfl, rfl, ?_⟩
          intro κ field hpreserves
          have ha : a ∈ s.aggregators := List.mem_of_find?_eq_some hfind
          refine ⟨hpreserves a ha _ _ _, ?_⟩
          intro b hb
          obtain ⟨c, hc, rfl⟩ := List.mem_map.mp hb
          split
          · exact hpreserves a ha
          · exact hpreserves c hc

/-- An aggregator that does not fail closes the total over all edges. -/
theorem aggregate_ok {name : String} {s t : Session α σ ω μ τ ρ} {result : ρ}
    (h : (aggregate name).perform s = (.ok result, t)) :
    ∃ a total, s.find? name = some a ∧ a.total s.engine.scene = .ok total ∧
      (a.close s.engine.scene a.state total).answer = .ok result ∧
      t = { s.replace { a with
          state := (a.close s.engine.scene a.state total).state
          lastRun := s.engine.elapsed } with
        engine := { s.engine with
          settings := (a.close s.engine.scene a.state total).settings
          notes := s.engine.notes ++
            (a.close s.engine.scene a.state total).notes.toArray } } := by
  rw [aggregate, Attempt.perform_get_bind] at h
  cases hfind : s.find? name with
  | none =>
      rw [hfind] at h
      cases h
  | some a =>
      rw [hfind] at h
      obtain ⟨total, htotal, h⟩ := Attempt.perform_lift_bind_ok.mp h
      rw [Attempt.perform_set_bind, Attempt.perform_lift] at h
      obtain ⟨hanswer, rfl⟩ := Prod.mk.inj h
      exact ⟨a, total, rfl, htotal, hanswer, rfl⟩

/-- What is done about one aggregator when it is their turn: it runs if it is
due. -/
def runIfDue (name : String) : Attempt (Session α σ ω μ τ ρ) Unit := do
  let s ← get
  match s.find? name with
  | none => pure ()
  | some a => if isDue s.engine.elapsed a then discard (aggregate name)

theorem perform_aggregateDue (s : Session α σ ω μ τ ρ) :
    aggregateDue.perform s =
      (Attempt.each (s.aggregators.map (·.name)) runIfDue).perform s := by
  rw [aggregateDue, Attempt.perform_get_bind]
  rfl

private theorem runIfDue_leaves (name : String) (s : Session α σ ω μ τ ρ) :
    s.Reported ((runIfDue name).perform s).2 := by
  rw [runIfDue, Attempt.perform_get_bind]
  cases hfind : s.find? name with
  | none => exact Reported.refl s
  | some a =>
      dsimp only
      split
      · refine Attempt.bind_leaves (fun last => s.Reported last)
          (aggregate_leaves name s) ?_
        intro _ last hlast
        exact hlast
      · exact Reported.refl s

/-- If nothing fails then either no aggregator of this name is due, or it has
run. -/
theorem runIfDue_ok {name : String} {s t : Session α σ ω μ τ ρ}
    (h : (runIfDue name).perform s = (.ok (), t)) :
    ((∀ a, s.find? name = some a → isDue s.engine.elapsed a = false) ∧
        t = s) ∨
      ∃ a result, s.find? name = some a ∧ isDue s.engine.elapsed a = true ∧
        (aggregate name).perform s = (.ok result, t) := by
  rw [runIfDue, Attempt.perform_get_bind] at h
  cases hfind : s.find? name with
  | none =>
      rw [hfind] at h
      exact .inl ⟨nofun, (Prod.mk.inj h).2.symm⟩
  | some a =>
      rw [hfind] at h
      dsimp only at h
      cases hdue : isDue s.engine.elapsed a with
      | false =>
          rw [hdue, if_neg (by simp)] at h
          refine .inl ⟨fun b hb => ?_, (Prod.mk.inj h).2.symm⟩
          rw [← Option.some.inj hb, hdue]
      | true =>
          rw [hdue, if_pos rfl] at h
          obtain ⟨result, last, hrun, hend⟩ := Attempt.perform_bind_ok.mp h
          obtain ⟨-, rfl⟩ := Prod.mk.inj hend
          exact .inr ⟨a, result, rfl, hdue, hrun⟩

/-- So do the aggregators that are due, even if one of them fails. -/
theorem aggregateDue_leaves (s : Session α σ ω μ τ ρ) :
    s.Reported (aggregateDue.perform s).2 := by
  rw [perform_aggregateDue]
  exact Attempt.each_keeps _ _ (fun reached => s.Reported reached)
    (Reported.refl s) fun name _ reached hreached =>
      hreached.trans (runIfDue_leaves name reached)

/-! ## Iterations -/

omit [Scalar α] in
theorem perform_onEngine {β : Type} (work : Attempt (Engine α σ ω) β)
    (s : Session α σ ω μ τ ρ) :
    (onEngine work).perform s =
      ((work.perform s.engine).1,
        { s with engine := (work.perform s.engine).2 }) := rfl

omit [Scalar α] in
theorem onEngine_ok {β : Type} {work : Attempt (Engine α σ ω) β}
    {s s' : Session α σ ω μ τ ρ} {result : β} :
    (onEngine work).perform s = (.ok result, s') ↔
      ∃ engine, work.perform s.engine = (.ok result, engine) ∧
        s' = { s with engine } := by
  rw [perform_onEngine]
  constructor
  · intro h
    obtain ⟨hanswer, rfl⟩ := Prod.mk.inj h
    exact ⟨_, Prod.ext hanswer rfl, rfl⟩
  · rintro ⟨engine, hwork, rfl⟩
    rw [hwork]

/-- Is it the turn of the aggregators after this work of an iteration? -/
def isAttended (s : Session α σ ω μ τ ρ) (engine : Engine α σ ω) : Bool :=
  match s.engine.mode with
  | .synchronous => true
  | .asynchronous => decide (engine.graph.size ≤ s.sinceDue + 1)

/-- The session when the work of an iteration is done and the clock has gone
on. -/
def worked (s : Session α σ ω μ τ ρ) (engine : Engine α σ ω) :
    Session α σ ω μ τ ρ :=
  { s with
    engine := passIteration engine
    sinceDue := match s.engine.mode with
      | .synchronous => s.sinceDue
      | .asynchronous =>
        if engine.graph.size ≤ s.sinceDue + 1 then 0 else s.sinceDue + 1 }

/-- One iteration: the work on the engine, and then the aggregators if it is
their turn. -/
theorem perform_advance (p : Program α σ ω) (s : Session α σ ω μ τ ρ) :
    (advance p).perform s =
      match (Engine.work p s.engine.mode).perform s.engine with
      | (.error cause, engine) => (.error cause, { s with engine })
      | (.ok (), engine) =>
        if s.isAttended engine then aggregateDue.perform (s.worked engine)
        else (.ok (), s.worked engine) := by
  rw [advance, Attempt.perform_get_bind]
  unfold isAttended worked
  cases hmode : s.engine.mode with
  | synchronous =>
      dsimp only
      rw [Attempt.perform_bind, perform_onEngine]
      cases hwork : (Engine.work p .synchronous).perform s.engine with
      | mk result engine =>
          rw [show (Engine.round p).perform s.engine = (result, engine) from
            hwork]
          cases result <;> rfl
  | asynchronous =>
      dsimp only
      rw [Attempt.perform_bind, perform_onEngine]
      cases hwork : (Engine.work p .asynchronous).perform s.engine with
      | mk result engine =>
          rw [show (Engine.activateNext p).perform s.engine =
            (result, engine) from hwork]
          cases result with
          | error cause => rfl
          | ok done =>
              dsimp only
              rw [Attempt.perform_bind, perform_onEngine,
                Attempt.perform_modify]
              dsimp only
              rw [Attempt.perform_get_bind]
              by_cases hdue : engine.graph.size ≤ s.sinceDue + 1
              · have hturn : (passIteration engine).graph.size ≤
                    s.sinceDue + 1 := hdue
                rw [if_pos hdue, if_pos hturn, if_pos (decide_eq_true hdue),
                  Attempt.perform_set_bind]
              · have hturn : ¬ (passIteration engine).graph.size ≤
                    s.sinceDue + 1 := hdue
                rw [if_neg hdue, if_neg hturn, if_neg (by simpa using hdue)]
                rfl

/-- One iteration, whether it goes through or not: either the work on the
engine fails, or it goes through and the clock with it, and whatever else goes
wrong is up to the aggregators. -/
theorem advance_cases {p : Program α σ ω} {s t : Session α σ ω μ τ ρ}
    {answer : Except Failure Unit}
    (h : (advance p).perform s = (answer, t)) :
    (∃ cause engine, (Engine.work p s.engine.mode).perform s.engine =
        (.error cause, engine) ∧ answer = .error cause ∧
        t = { s with engine }) ∨
      ∃ engine,
        (Engine.work p s.engine.mode).perform s.engine = (.ok (), engine) ∧
        Reported (s.worked engine) t := by
  rw [perform_advance] at h
  cases hwork : (Engine.work p s.engine.mode).perform s.engine with
  | mk result engine =>
      rw [hwork] at h
      cases result with
      | error cause =>
          obtain ⟨rfl, rfl⟩ := Prod.mk.inj h
          exact .inl ⟨cause, engine, rfl, rfl, rfl⟩
      | ok done =>
          refine .inr ⟨engine, rfl, ?_⟩
          dsimp only at h
          split at h
          · have hleaves := aggregateDue_leaves (s.worked engine)
            rwa [h] at hleaves
          · obtain ⟨-, rfl⟩ := Prod.mk.inj h
            exact Reported.refl _

/-- An iteration that goes through: its work did, and then the aggregators may
have reported. -/
theorem advance_ok {p : Program α σ ω} {s t : Session α σ ω μ τ ρ}
    (h : (advance p).perform s = (.ok (), t)) :
    ∃ engine,
      (Engine.work p s.engine.mode).perform s.engine = (.ok (), engine) ∧
      Reported (s.worked engine) t := by
  rcases advance_cases h with ⟨_, _, -, hanswer, -⟩ | hok
  · cases hanswer
  · exact hok

/-! ## Runs -/

/-- The sessions that iterations reach from `s`, with the number of active
vertices before each iteration. -/
inductive Run (p : Program α σ ω) (s : Session α σ ω μ τ ρ) :
    List Nat → Session α σ ω μ τ ρ → Prop
  | rest : Run p s [] s
  | advance {sizes : List Nat} {t u : Session α σ ω μ τ ρ} :
      Run p s sizes t → t.engine.activeCount ≠ 0 → t.limitReached = none →
      (Session.advance p).perform t = (.ok (), u) →
      Run p s (sizes ++ [t.engine.activeCount]) u

omit [Scalar α] in
/-- Nothing more to do: no vertex is active, or the bound on iterations is
reached and was noted down. -/
theorem isOver_ok {s s' : Session α σ ω μ τ ρ} {finished : Bool}
    (h : isOver.perform s = (.ok finished, s')) :
    (finished = true ∧ s.engine.activeCount = 0 ∧ s' = s) ∨
      (finished = true ∧ s.engine.activeCount ≠ 0 ∧ s.limitReached ≠ none ∧
        ∃ text, s' = { s with engine := { s.engine with
          notes := s.engine.notes.push (.line text) } }) ∨
      (finished = false ∧ s.engine.activeCount ≠ 0 ∧ s.limitReached = none ∧
        s' = s) := by
  rw [isOver, Attempt.perform_get_bind] at h
  split at h
  · rename_i hactive
    obtain ⟨hover, rfl⟩ := Prod.mk.inj h
    exact .inl ⟨(Except.ok.inj hover).symm, hactive, rfl⟩
  · rename_i hactive
    cases hlimit : s.limitReached with
    | none =>
        rw [hlimit] at h
        obtain ⟨hover, rfl⟩ := Prod.mk.inj h
        exact .inr (.inr ⟨(Except.ok.inj hover).symm, hactive, rfl, rfl⟩)
    | some limit =>
        rw [hlimit] at h
        obtain ⟨_, printed, hprint, hend⟩ := Attempt.perform_bind_ok.mp h
        obtain ⟨engine, hengine, rfl⟩ := onEngine_ok.mp hprint
        obtain ⟨hover, rfl⟩ := Prod.mk.inj hend
        refine .inr (.inl ⟨(Except.ok.inj hover).symm, hactive, by simp,
          s!"Достигнут лимит итераций движка: {limit}", ?_⟩)
        rw [← (Prod.mk.inj hengine).2]

/-- Some vertex is active, and the bound on iterations is not reached. -/
def Busy (s : Session α σ ω μ τ ρ) : Prop :=
  s.engine.activeCount ≠ 0 ∧ s.limitReached = none

omit [Scalar α] in
/-- When nobody is active there is nothing more to do. -/
theorem isOver_of_rest {s : Session α σ ω μ τ ρ}
    (h : s.engine.activeCount = 0) :
    isOver.perform s = (.ok true, s) := by
  rw [isOver, Attempt.perform_get_bind, if_pos h]
  rfl

omit [Scalar α] in
private theorem isOver_of_busy {s : Session α σ ω μ τ ρ} (h : s.Busy) :
    isOver.perform s = (.ok false, s) := by
  rw [isOver, Attempt.perform_get_bind, if_neg h.1, h.2]
  rfl

omit [Scalar α] in
/-- Looking whether there is more to do never fails. -/
theorem isOver_cases (s : Session α σ ω μ τ ρ) :
    (∃ t, isOver.perform s = (.ok true, t)) ∨
      (isOver.perform s = (.ok false, s) ∧ s.Busy) := by
  by_cases hactive : s.engine.activeCount = 0
  · exact .inl ⟨s, isOver_of_rest hactive⟩
  · cases hlimit : s.limitReached with
    | none => exact .inr ⟨isOver_of_busy ⟨hactive, hlimit⟩, hactive, hlimit⟩
    | some limit =>
        left
        rw [isOver, Attempt.perform_get_bind, if_neg hactive, hlimit]
        exact ⟨_, rfl⟩

/-- Iterating ends because there is nothing more to do, because an iteration
fails, or because patience runs out while the session is busy. -/
theorem iterate_cases {p : Program α σ ω} {s u t : Session α σ ω μ τ ρ}
    {sizes : List Nat} {patience : Nat} {answer : Except Failure Unit}
    (hrun : Run p s sizes u)
    (h : (iterate p patience).perform u = (answer, t)) :
    (∃ sizes v, Run p s sizes v ∧ isOver.perform v = (.ok true, t) ∧
        answer = .ok ()) ∨
      (∃ sizes v cause, Run p s sizes v ∧ v.Busy ∧
        (advance p).perform v = (.error cause, t) ∧ answer = .error cause) ∨
      ∃ sizes', Run p s sizes' t ∧ t.Busy ∧
        sizes'.length = sizes.length + patience ∧
        answer = .error .stillActive := by
  induction patience generalizing sizes u with
  | zero =>
      rw [iterate, Attempt.perform_bind] at h
      rcases isOver_cases u with ⟨v, hover⟩ | ⟨hlook, hbusy⟩
      · rw [hover] at h
        obtain ⟨rfl, rfl⟩ := Prod.mk.inj h
        exact .inl ⟨sizes, u, hrun, hover, rfl⟩
      · rw [hlook] at h
        obtain ⟨rfl, rfl⟩ := Prod.mk.inj h
        exact .inr (.inr ⟨sizes, hrun, hbusy, rfl, rfl⟩)
  | succ patience ih =>
      rw [iterate, Attempt.perform_bind] at h
      rcases isOver_cases u with ⟨v, hover⟩ | ⟨hlook, hbusy⟩
      · rw [hover] at h
        obtain ⟨rfl, rfl⟩ := Prod.mk.inj h
        exact .inl ⟨sizes, u, hrun, hover, rfl⟩
      · rw [hlook] at h
        change (advance p >>= fun _ => iterate p patience).perform u =
          (answer, t) at h
        rw [Attempt.perform_bind] at h
        cases hadvance : (advance p).perform u with
        | mk result next =>
            rw [hadvance] at h
            cases result with
            | error cause =>
                obtain ⟨rfl, rfl⟩ := Prod.mk.inj h
                exact .inr (.inl ⟨sizes, u, cause, hrun, hbusy, hadvance, rfl⟩)
            | ok done =>
                have hnext := hrun.advance hbusy.1 hbusy.2 hadvance
                rcases ih hnext h with hend | hend |
                  ⟨sizes', hlast, hstill, hlength, hanswer⟩
                · exact .inl hend
                · exact .inr (.inl hend)
                · refine .inr (.inr ⟨sizes', hlast, hstill, ?_, hanswer⟩)
                  rw [hlength, List.length_append, List.length_singleton]
                  omega

/-! ## Starting -/

/-- What a start does before the first iteration. -/
def begin : Attempt (Session α σ ω μ τ ρ) Unit := do
  modify restarted
  shuffleQueue

/-- The sessions that a start goes through between iterations. -/
def Reaches (p : Program α σ ω) (s : Session α σ ω μ τ ρ) (sizes : List Nat)
    (t : Session α σ ω μ τ ρ) : Prop :=
  ∃ begun, begin.perform s = (.ok (), begun) ∧ Run p begun sizes t

/-- The order that the queue is put into before the first iteration. -/
def drawnOrder (mode : Mode) (seed : Option Int) (queue : List Nat) :
    Except Failure (List Nat) :=
  match mode, seed with
  | .asynchronous, some seed =>
    (Twister.seeded (some seed)).map fun source =>
      ((Twister.shuffle queue).run source).1
  | _, _ => .ok queue

theorem drawnOrder_perm {mode : Mode} {seed : Option Int}
    {queue order : List Nat} (h : drawnOrder mode seed queue = .ok order) :
    order.Perm queue := by
  unfold drawnOrder at h
  split at h
  · rename_i seed
    cases hsource : Twister.seeded (some seed) with
    | error cause =>
        rw [hsource] at h
        cases h
    | ok source =>
        rw [hsource] at h
        rw [← Except.ok.inj h]
        exact Twister.shuffle_perm queue source
  · rw [← Except.ok.inj h]

/-- Before the first iteration the clock is set back and the queue put into
order. -/
theorem perform_begin (s : Session α σ ω μ τ ρ) :
    begin.perform s =
      match drawnOrder s.engine.mode s.seed s.engine.queue with
      | .error cause => (.error cause, s.restarted)
      | .ok order => (.ok (), { s.restarted with
          engine := { s.restarted.engine with queue := order } }) := by
  rw [begin, Attempt.perform_modify_bind, shuffleQueue,
    Attempt.perform_get_bind]
  cases hmode : s.engine.mode with
  | synchronous =>
      rw [show s.restarted.engine.mode = .synchronous from hmode]
      rfl
  | asynchronous =>
      rw [show s.restarted.engine.mode = .asynchronous from hmode]
      cases hseed : s.seed with
      | none =>
          rw [show s.restarted.seed = none from hseed]
          rfl
      | some seed =>
          rw [show s.restarted.seed = some seed from hseed]
          dsimp only [drawnOrder]
          rw [Attempt.perform_bind, Attempt.perform_lift]
          cases hsource : Twister.seeded (some seed) with
          | error cause => rfl
          | ok source =>
              rw [← hseed]
              rfl

/-- A start that begins has put the queue into some order. -/
theorem begin_ok {s begun : Session α σ ω μ τ ρ}
    (h : begin.perform s = (.ok (), begun)) :
    ∃ order, order.Perm s.engine.queue ∧
      begun = { s.restarted with
        engine := { s.restarted.engine with queue := order } } := by
  rw [perform_begin] at h
  cases horder : drawnOrder s.engine.mode s.seed s.engine.queue with
  | error cause =>
      rw [horder] at h
      cases h
  | ok order =>
      rw [horder] at h
      exact ⟨order, drawnOrder_perm horder, (Prod.mk.inj h).2.symm⟩

theorem start_eq (p : Program α σ ω) (patience : Nat) :
    start p patience = (begin >>= fun _ : Unit =>
      (iterate p patience >>= fun _ : Unit => do
        return (← get).engine.updates :
          Attempt (Session α σ ω μ τ ρ) Nat)) := by
  simp only [start, begin, bind_assoc]

/-- A start that went through: its iterations form a run, after which there
was nothing more to do. -/
theorem start_ok {p : Program α σ ω} {patience updates : Nat}
    {s t : Session α σ ω μ τ ρ}
    (h : (start p patience).perform s = (.ok updates, t)) :
    ∃ sizes u, Reaches p s sizes u ∧ isOver.perform u = (.ok true, t) ∧
      updates = t.engine.updates := by
  rw [start_eq] at h
  obtain ⟨_, begun, hbegin, h⟩ := Attempt.perform_bind_ok.mp h
  obtain ⟨_, iterated, hiterate, hend⟩ := Attempt.perform_bind_ok.mp h
  rw [Attempt.perform_get_bind] at hend
  obtain ⟨hupdates, rfl⟩ := Prod.mk.inj hend
  rcases iterate_cases .rest hiterate with ⟨sizes, u, hrun, hover, -⟩ |
    ⟨_, _, _, -, -, -, hanswer⟩ | ⟨_, -, -, -, hanswer⟩
  · exact ⟨sizes, u, ⟨begun, hbegin, hrun⟩, hover,
      (Except.ok.inj hupdates).symm⟩
  · cases hanswer
  · cases hanswer

omit [Scalar α] in
/-- Without a bound on iterations a start ends only when no vertex is
active. -/
theorem over_of_unlimited {u t : Session α σ ω μ τ ρ} (hlimit : u.limit = none)
    (h : isOver.perform u = (.ok true, t)) :
    t = u ∧ u.engine.activeCount = 0 := by
  have hreached : u.limitReached = none := by
    rw [limitReached, hlimit]
  rcases isOver_ok h with ⟨-, hactive, rfl⟩ | ⟨-, -, hstop, -⟩ | ⟨hover, -⟩
  · exact ⟨rfl, hactive⟩
  · exact absurd hreached hstop
  · cases hover

/-- In synchronous mode nothing is shuffled. -/
theorem begin_synchronous {s : Session α σ ω μ τ ρ}
    (hmode : s.engine.mode = .synchronous) :
    begin.perform s = (.ok (), s.restarted) := by
  rw [perform_begin, hmode]
  rfl

/-! ## From runs to starts -/

theorem Run.trans {p : Program α σ ω} {s t u : Session α σ ω μ τ ρ}
    {first second : List Nat} (hfirst : Run p s first t)
    (hsecond : Run p t second u) : Run p s (first ++ second) u := by
  induction hsecond with
  | rest => rwa [List.append_nil]
  | advance _ hactive hlimit hadvance ih =>
      rw [← List.append_assoc]
      exact ih.advance hactive hlimit hadvance

/-- A run has no iterations, or a first one. -/
theorem Run.first {p : Program α σ ω} {s u : Session α σ ω μ τ ρ}
    {sizes : List Nat} (h : Run p s sizes u) :
    (sizes = [] ∧ u = s) ∨ ∃ t rest, sizes = s.engine.activeCount :: rest ∧
      s.engine.activeCount ≠ 0 ∧ s.limitReached = none ∧
      (Session.advance p).perform s = (.ok (), t) ∧ Run p t rest u := by
  induction h with
  | rest => exact .inl ⟨rfl, rfl⟩
  | advance hrun hactive hlimit hadvance ih =>
      right
      rcases ih with ⟨rfl, rfl⟩ | ⟨t, rest, rfl, hfirst, hfree, hmove, hrest⟩
      · exact ⟨_, [], rfl, hactive, hlimit, hadvance, .rest⟩
      · exact ⟨t, _, rfl, hfirst, hfree, hmove,
          hrest.advance hactive hlimit hadvance⟩

/-- Iterations leave the bound on iterations alone. -/
theorem Run.limit_eq {p : Program α σ ω} {s u : Session α σ ω μ τ ρ}
    {sizes : List Nat} (h : Run p s sizes u) : u.limit = s.limit := by
  induction h with
  | rest => rfl
  | advance _ _ _ hadvance ih =>
      obtain ⟨engine, -, hreported⟩ := advance_ok hadvance
      exact hreported.limit.trans ih

theorem Reaches.limit_eq {p : Program α σ ω} {s t : Session α σ ω μ τ ρ}
    {sizes : List Nat} (h : Reaches p s sizes t) : t.limit = s.limit := by
  obtain ⟨begun, hbegin, hrun⟩ := h
  obtain ⟨order, -, rfl⟩ := begin_ok hbegin
  exact hrun.limit_eq

/-- One iteration, when there is something to do. -/
theorem iterate_succ {p : Program α σ ω} {t u : Session α σ ω μ τ ρ}
    (hbusy : t.Busy) (hadvance : (advance p).perform t = (.ok (), u))
    (patience : Nat) :
    (iterate p (patience + 1)).perform t = (iterate p patience).perform u := by
  rw [iterate, Attempt.perform_bind, isOver_of_busy hbusy]
  dsimp only
  rw [if_neg (by simp), Attempt.perform_bind, hadvance]

/-- Iterating goes through a run. -/
theorem iterate_of_run {p : Program α σ ω} {s t : Session α σ ω μ τ ρ}
    {sizes : List Nat} (h : Run p s sizes t) (patience : Nat) :
    (iterate p (sizes.length + patience)).perform s =
      (iterate p patience).perform t := by
  induction h generalizing patience with
  | rest => rw [List.length_nil, Nat.zero_add]
  | advance hrun hactive hlimit hadvance ih =>
      rw [List.length_append, List.length_singleton, Nat.add_assoc,
        Nat.add_comm 1, ih, iterate_succ ⟨hactive, hlimit⟩ hadvance]

/-- A run after which nobody is active is a whole start. -/
theorem start_of_run {p : Program α σ ω} {s begun t : Session α σ ω μ τ ρ}
    {sizes : List Nat} (hbegin : begin.perform s = (.ok (), begun))
    (hrun : Run p begun sizes t) (hrest : t.engine.activeCount = 0) :
    (start p sizes.length).perform s = (.ok t.engine.updates, t) := by
  have hover : (iterate p 0).perform t = (.ok (), t) := by
    rw [iterate, Attempt.perform_bind, isOver_of_rest hrest]
    rfl
  have hiterate : (iterate p sizes.length).perform begun = (.ok (), t) := by
    rw [← hover]
    exact iterate_of_run hrun 0
  rw [start_eq, Attempt.perform_bind, hbegin]
  dsimp only
  rw [Attempt.perform_bind, hiterate]
  rfl

/-! ## Quiet sessions -/

/-- No aggregator runs periodically, and nothing bounds the iterations. -/
structure Quiet (s : Session α σ ω μ τ ρ) : Prop where
  aggregators : ∀ a ∈ s.aggregators, a.interval = none
  limit : s.limit = none

/-- Where no aggregator runs periodically, none is ever due. -/
theorem aggregateDue_of_idle {s : Session α σ ω μ τ ρ}
    (h : ∀ a ∈ s.aggregators, a.interval = none) :
    Session.aggregateDue.perform s = (.ok (), s) := by
  rw [perform_aggregateDue]
  induction s.aggregators.map (·.name) with
  | nil => rfl
  | cons name rest ih =>
      refine Attempt.perform_each_cons_ok.mpr ⟨s, ?_, ih⟩
      rw [runIfDue, Attempt.perform_get_bind]
      cases hfind : s.find? name with
      | none => rfl
      | some a =>
          have hidle : isDue s.engine.elapsed a = false := by
            rw [isDue, h a (List.mem_of_find?_eq_some hfind)]
          dsimp only
          rw [hidle, if_neg (by simp)]
          rfl

/-- Then an iteration is nothing but its work. -/
theorem perform_advance_of_idle (p : Program α σ ω)
    {s : Session α σ ω μ τ ρ}
    (hidle : ∀ a ∈ s.aggregators, a.interval = none) :
    (Session.advance p).perform s =
      match (Engine.work p s.engine.mode).perform s.engine with
      | (.error cause, engine) => (.error cause, { s with engine })
      | (.ok (), engine) => (.ok (), s.worked engine) := by
  rw [perform_advance]
  cases (Engine.work p s.engine.mode).perform s.engine with
  | mk result engine =>
      cases result with
      | error cause => rfl
      | ok done =>
          dsimp only
          rw [aggregateDue_of_idle (s := s.worked engine) hidle]
          split <;> rfl

theorem advance_ok_of_idle {p : Program α σ ω} {s t : Session α σ ω μ τ ρ}
    (hidle : ∀ a ∈ s.aggregators, a.interval = none) :
    (Session.advance p).perform s = (.ok (), t) ↔
      ∃ engine, (Engine.work p s.engine.mode).perform s.engine =
        (.ok (), engine) ∧ t = s.worked engine := by
  rw [perform_advance_of_idle p hidle]
  cases (Engine.work p s.engine.mode).perform s.engine with
  | mk result engine =>
      cases result with
      | error cause => simp
      | ok done => simp [eq_comm]

theorem advance_error_of_idle {p : Program α σ ω} {s t : Session α σ ω μ τ ρ}
    (hidle : ∀ a ∈ s.aggregators, a.interval = none) {cause : Failure} :
    (Session.advance p).perform s = (.error cause, t) ↔
      ∃ engine, (Engine.work p s.engine.mode).perform s.engine =
        (.error cause, engine) ∧ t = { s with engine } := by
  rw [perform_advance_of_idle p hidle]
  cases (Engine.work p s.engine.mode).perform s.engine with
  | mk result engine =>
      cases result with
      | error cause => simp [and_assoc, eq_comm]
      | ok done => simp

/-- One iteration of a quiet session in synchronous mode. -/
theorem Quiet.advance_synchronous {p : Program α σ ω}
    {s t : Session α σ ω μ τ ρ} (h : s.Quiet)
    (hmode : s.engine.mode = .synchronous) :
    (Session.advance p).perform s = (.ok (), t) ↔
      ∃ engine, (Engine.round p).perform s.engine = (.ok (), engine) ∧
        t = { s with engine := passIteration engine } := by
  rw [advance_ok_of_idle h.aggregators, hmode]
  unfold worked
  rw [hmode]
  exact Iff.rfl

/-- One iteration of a quiet session in asynchronous mode. -/
theorem Quiet.advance_asynchronous {p : Program α σ ω}
    {s t : Session α σ ω μ τ ρ} (h : s.Quiet)
    (hmode : s.engine.mode = .asynchronous) :
    (Session.advance p).perform s = (.ok (), t) ↔
      ∃ engine,
        (Engine.activateNext p).perform s.engine = (.ok (), engine) ∧
        t = { s with
          engine := passIteration engine
          sinceDue := if engine.graph.size ≤ s.sinceDue + 1 then 0
            else s.sinceDue + 1 } := by
  rw [advance_ok_of_idle h.aggregators, hmode]
  unfold worked
  rw [hmode]
  exact Iff.rfl

/-- Starting leaves a session quiet. -/
theorem Quiet.begun {s : Session α σ ω μ τ ρ} (h : s.Quiet)
    (engine : Engine α σ ω) : Quiet { s.restarted with engine } := by
  refine ⟨fun a ha => ?_, h.limit⟩
  obtain ⟨b, hb, rfl⟩ := List.mem_map.mp ha
  exact h.aggregators b hb

omit [Scalar α] in
/-- A quiet session never reaches a bound on iterations. -/
theorem Quiet.limitReached {s : Session α σ ω μ τ ρ} (h : s.Quiet) :
    s.limitReached = none := by
  rw [Session.limitReached, h.limit]

end Session

end RatingFactors
