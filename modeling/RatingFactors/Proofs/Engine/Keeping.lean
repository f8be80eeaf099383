import RatingFactors.Proofs.Engine.Work

/-!
# What phases keep

Work on an engine can fail halfway, and then it leaves the state that it has
reached.  This module says how to show that something holds of that state as
well: what signals and the replies of a program keep, its phases keep, whether
they go through or not.

## Main definitions

* `Engine.Keeps` — signals and the reading phases of a program keep a property
  of engines.
* `Program.Reading` — only applying stores anything.

## Main results

* `Keeps.phases` — the four phases keep it, if applying does.
* `keeps_learned`, `keeps_scene` — a program that reads keeps what is learned
  and what it sees.
* `frame_work` — what no iteration touches.
* `Run.iteration_eq` — how iterations are counted.
-/

namespace RatingFactors

/-- All phases but applying leave the vertices alone. -/
structure Program.Reading {α σ ω : Type} (p : Program α σ ω) : Prop where
  init : ∀ scene place slot message,
    ∀ action ∈ (p.init scene place slot message).actions,
      ∀ vertex, action ≠ .store vertex
  gather : ∀ scene place slot number,
    ∀ action ∈ (p.gather scene place slot number).actions,
      ∀ vertex, action ≠ .store vertex
  scatter : ∀ scene place slot number,
    ∀ action ∈ (p.scatter scene place slot number).actions,
      ∀ vertex, action ≠ .store vertex

namespace Engine

variable {α σ ω : Type} [Scalar α]

/-- Whatever becomes of the work, it keeps a property of engines. -/
def Safe {β : Type} (motive : Engine α σ ω → Prop)
    (work : Attempt (Engine α σ ω) β) : Prop :=
  ∀ e, motive e → motive (work.perform e).2

/-- Signals, and everything a program does but apply, keep a property of
engines. -/
structure Keeps (p : Program α σ ω) (motive : Engine α σ ω → Prop) :
    Prop where
  signal : ∀ target message, Safe motive (Engine.signal target message)
  init : ∀ scene place slot message,
    Safe motive (heed place (p.init scene place slot message))
  gather : ∀ scene place slot number,
    Safe motive (heed place (p.gather scene place slot number))
  scatter : ∀ scene place slot number,
    Safe motive (heed place (p.scatter scene place slot number))

section Keeps

variable {p : Program α σ ω} {motive : Engine α σ ω → Prop}

omit [Scalar α] in
theorem Safe.bind {β γ : Type} {work : Attempt (Engine α σ ω) β}
    {next : β → Attempt (Engine α σ ω) γ} (h : Safe motive work)
    (hnext : ∀ result, Safe motive (next result)) :
    Safe motive (work >>= next) :=
  Attempt.Safe.bind h hnext

omit [Scalar α] in
theorem safe_lift {β : Type} (answer : Except Failure β) :
    Safe motive (Attempt.lift answer) :=
  Attempt.safe_lift answer

omit [Scalar α] in
theorem safe_get : Safe motive (get : Attempt (Engine α σ ω) _) :=
  Attempt.safe_get

omit [Scalar α] in
theorem safe_each {ι : Type} {items : List ι}
    {work : ι → Attempt (Engine α σ ω) Unit}
    (h : ∀ i ∈ items, Safe motive (work i)) :
    Safe motive (Attempt.each items work) :=
  Attempt.safe_each h

omit [Scalar α] in
theorem safe_collect {ι β : Type} {items : List ι}
    {work : ι → Attempt (Engine α σ ω) β}
    (h : ∀ i ∈ items, Safe motive (work i)) :
    Safe motive (Attempt.collect items work) :=
  Attempt.safe_collect h

/-- A reply keeps what its actions keep. -/
theorem safe_heed {β : Type} {place : Nat} {reply : Reply α σ ω β}
    (h : ∀ action ∈ reply.actions, Safe motive (carryOut place action)) :
    Safe motive (heed place reply) :=
  (safe_each h).bind fun _ => safe_lift _

variable (h : Keeps p motive)

include h

theorem Keeps.initAt (place : Nat) (waiting : Inbox α) :
    Safe motive (initAt p place waiting) := by
  unfold Engine.initAt
  cases waiting.message? with
  | none => exact fun _ he => he
  | some message => exact safe_get.bind fun e => h.init _ _ _ _

theorem Keeps.gatherOver (place : Nat) (numbers : List Nat)
    (total : Step α) : Safe motive (gatherOver p place numbers total) := by
  induction numbers generalizing total with
  | nil => exact fun _ he => he
  | cons number rest ih =>
      rw [Engine.gatherOver]
      refine safe_get.bind fun e => (h.gather _ _ _ _).bind fun c => ?_
      refine (safe_lift _).bind fun next => ?_
      cases c.outgoing with
      | none => exact ih next
      | some message => exact (h.signal _ _).bind fun _ => ih next

theorem Keeps.gatherAt (place : Nat) : Safe motive (gatherAt p place) := by
  unfold Engine.gatherAt
  exact safe_get.bind fun e => (safe_lift _).bind fun direction =>
    h.gatherOver place _ _

theorem Keeps.scatterAt (place : Nat) :
    Safe motive (scatterAt p place) := by
  unfold Engine.scatterAt
  refine safe_get.bind fun e => (safe_lift _).bind fun direction => ?_
  exact safe_each fun number _ => safe_get.bind fun e => h.scatter _ _ _ _

/-- The four phases keep what applying keeps as well. -/
theorem Keeps.phases
    (happly : ∀ place total, Safe motive (applyAt p place total))
    (waiting : Nat → Inbox α) (order : List Nat) :
    Safe motive (phases p waiting order) := by
  unfold Engine.phases
  refine (safe_each fun v _ => h.initAt v _).bind fun _ => ?_
  refine (safe_collect fun v _ => h.gatherAt v).bind fun totals => ?_
  refine (safe_each fun pair _ => happly pair.1 pair.2).bind fun _ => ?_
  exact safe_each fun v _ => h.scatterAt v

omit h in
/-- Whatever inboxes and queue do not touch, signals keep. -/
theorem safe_signal
    (h : ∀ e inboxes queue, motive e → motive { e with inboxes, queue })
    (target : Address) (message : Option (Step α)) :
    Safe motive (signal target message) := by
  intro e he
  rcases signal_cases e target message with ⟨cause, hfail⟩ |
    ⟨place, -, hsignal⟩
  · rw [hfail]
    exact he
  · rw [hsignal]
    exact h _ _ _ he

end Keeps

/-! ## What programs that read leave alone -/

/-- A program that only reads keeps whatever inboxes, queue, slots and notes do
not touch, until it applies. -/
theorem keeps_field {p : Program α σ ω} (hp : p.Reading) {κ : Type}
    (field : Engine α σ ω → κ)
    (hfield : ∀ (e : Engine α σ ω) inboxes queue slots notes,
      field { e with inboxes, queue, slots, notes } = field e) (value : κ) :
    Keeps p fun e => field e = value := by
  have hsignal : ∀ target message,
      Safe (fun e : Engine α σ ω => field e = value)
        (signal target message) :=
    safe_signal fun e inboxes queue he =>
      (hfield e inboxes queue e.slots e.notes).trans he
  have hcarry : ∀ place (action : Action α σ ω),
      (∀ vertex, action ≠ .store vertex) →
      Safe (fun e => field e = value) (carryOut place action) := by
    intro place action haction
    cases action with
    | signal target message => exact hsignal target message
    | store vertex => exact absurd rfl (haction vertex)
    | keep slot =>
        exact fun e he => (hfield e e.inboxes e.queue _ e.notes).trans he
    | note content =>
        exact fun e he => (hfield e e.inboxes e.queue e.slots _).trans he
  exact
    { signal := hsignal
      init := fun _ place _ _ => safe_heed fun action haction =>
        hcarry place action (hp.init _ _ _ _ action haction)
      gather := fun _ place _ _ => safe_heed fun action haction =>
        hcarry place action (hp.gather _ _ _ _ action haction)
      scatter := fun _ place _ _ => safe_heed fun action haction =>
        hcarry place action (hp.scatter _ _ _ _ action haction) }

/-- What is learned, about which graph, and in how many updates. -/
def learned (e : Engine α σ ω) : Graph α × Array (Vertex α) × Nat :=
  (e.graph, e.vertices, e.updates)

/-- A program that only reads keeps what is learned until it applies. -/
theorem keeps_learned {p : Program α σ ω} (hp : p.Reading)
    (value : Graph α × Array (Vertex α) × Nat) :
    Keeps p fun e => e.learned = value :=
  keeps_field hp learned (fun _ _ _ _ _ => rfl) value

/-- What programs see is the same until they apply. -/
theorem keeps_scene {p : Program α σ ω} (hp : p.Reading) (value : Scene α) :
    Keeps p fun e => e.scene = value :=
  keeps_field hp scene (fun _ _ _ _ _ => rfl) value

/-! ## What iterations leave alone -/

section Frame

variable {κ : Type} (field : Engine α σ ω → κ)
  (hfield : ∀ (e : Engine α σ ω) vertices slots inboxes queue updates notes,
    field { e with vertices, slots, inboxes, queue, updates, notes } = field e)

include hfield

/-- No action reaches the clock, the settings or the graph. -/
theorem safe_frame_heed {β : Type} (value : κ) (place : Nat)
    (reply : Reply α σ ω β) :
    Safe (fun e => field e = value) (heed place reply) := by
  refine safe_heed fun action _ => ?_
  cases action with
  | signal target message =>
      exact safe_signal (fun e inboxes queue he =>
        (hfield e e.vertices e.slots inboxes queue e.updates e.notes).trans
          he) target message
  | store vertex =>
      exact fun e he => (hfield e _ e.slots e.inboxes e.queue e.updates
        e.notes).trans he
  | keep slot =>
      exact fun e he => (hfield e e.vertices _ e.inboxes e.queue e.updates
        e.notes).trans he
  | note content =>
      exact fun e he => (hfield e e.vertices e.slots e.inboxes e.queue
        e.updates _).trans he

/-- Neither do the phases. -/
theorem safe_frame_phases (p : Program α σ ω) (value : κ)
    (waiting : Nat → Inbox α) (order : List Nat) :
    Safe (fun e => field e = value) (phases p waiting order) := by
  have hheed := @safe_frame_heed α σ ω _ κ field hfield
  refine Keeps.phases ⟨?_, ?_, ?_, ?_⟩ ?_ waiting order
  · exact safe_signal fun e inboxes queue he =>
      (hfield e e.vertices e.slots inboxes queue e.updates e.notes).trans he
  · exact fun _ _ _ _ => hheed value _ _
  · exact fun _ _ _ _ => hheed value _ _
  · exact fun _ _ _ _ => hheed value _ _
  · intro place total
    unfold applyAt
    exact safe_get.bind fun e => (hheed value _ _).bind fun _ e he =>
      (hfield e e.vertices e.slots e.inboxes e.queue _ e.notes).trans he

/-- Neither does the work of an iteration: it does not count the iteration, and
it leaves the settings alone. -/
theorem frame_work (p : Program α σ ω) (e : Engine α σ ω) :
    field ((work p e.mode).perform e).2 = field e := by
  rw [work_leaves]
  exact safe_frame_phases field hfield p (field e) e.inbox e.order e.cleared
    (e.cleared_frame field fun inboxes queue =>
      hfield e e.vertices e.slots inboxes queue e.updates e.notes)

end Frame

end Engine

/-- Each iteration of a run is counted. -/
theorem Session.Run.iteration_eq {α σ ω μ τ ρ : Type} [Scalar α]
    {p : Program α σ ω} {s t : Session α σ ω μ τ ρ} {sizes : List Nat}
    (h : Session.Run p s sizes t) :
    t.engine.iteration = s.engine.iteration + sizes.length := by
  induction h with
  | rest => rfl
  | @advance sizes t u _ _ _ hadvance ih =>
      obtain ⟨engine, hwork, hreported⟩ := Session.advance_ok hadvance
      have hsame := Engine.frame_work Engine.iteration
        (fun _ _ _ _ _ _ _ => rfl) p t.engine
      rw [hwork] at hsame
      rw [hreported.engine, List.length_append, List.length_singleton,
        ← Nat.add_assoc, ← ih, ← hsame]
      rfl

/-- A start counts its iterations from where the engine stood. -/
theorem Session.Reaches.iteration_eq {α σ ω μ τ ρ : Type} [Scalar α]
    {p : Program α σ ω} {s t : Session α σ ω μ τ ρ} {sizes : List Nat}
    (h : Session.Reaches p s sizes t) :
    t.engine.iteration = s.engine.iteration + sizes.length := by
  obtain ⟨begun, hbegin, hrun⟩ := h
  obtain ⟨order, -, rfl⟩ := Session.begin_ok hbegin
  exact hrun.iteration_eq

end RatingFactors
