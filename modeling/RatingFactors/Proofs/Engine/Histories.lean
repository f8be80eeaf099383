import RatingFactors.Proofs.Engine.Delivery
import RatingFactors.Proofs.Engine.Runs
import RatingFactors.Proofs.Sample

/-!
# Histories

A history of a session is made of signals from outside and of runs.  Serving it
with the watched version of a program does the same as serving it with the
program itself, and every event of it is accounted for: whatever the program
does, the messages sent to a vertex are delivered exactly once.

## Main definitions

* `Request`, `Session.serve`, `Session.serveWatched` — the two ways to serve a
  history.
* `Session.Follows` — watched work does the same, and keeps the account.

## Main results

* `delivered_once` — every history is accounted for.
-/

namespace RatingFactors

variable {α σ ω μ τ ρ β γ : Type} [Scalar α]

/-! ## Watched sessions -/

/-- The aggregator, noting nothing down. -/
def Aggregator.watched {ω' : Type} (a : Aggregator α ω μ τ ρ) :
    Aggregator α ω' μ τ ρ where
  name := a.name
  see := a.see
  add := a.add
  none? := a.none?
  close scene state total :=
    let closing := a.close scene state total
    ⟨closing.state, closing.settings, [], closing.answer⟩
  state := a.state
  interval := a.interval
  lastRun := a.lastRun

omit [Scalar α] in
private theorem Aggregator.total_watched {ω' : Type} (a : Aggregator α ω μ τ ρ)
    (scene : Scene α) :
    (a.watched : Aggregator α ω' μ τ ρ).total scene = a.total scene :=
  total_congr (fun _ => rfl) rfl rfl rfl

/-- What can be asked of a session. -/
inductive Request (α : Type)
  /-- A signal from outside. -/
  | signal (target : Address) (message : Option (Step α))
  /-- A run, which gives up after a number of iterations. -/
  | start (patience : Nat)

namespace Session

/-- The session, keeping other notes. -/
def watching (s : Session α σ ω μ τ ρ) (notes : Array (Note (Event α))) :
    Session α σ (Event α) μ τ ρ where
  engine := s.engine.watching notes
  aggregators := s.aggregators.map Aggregator.watched
  limit := s.limit
  seed := s.seed
  sinceDue := s.sinceDue

/-- Does what was asked. -/
def serve (p : Program α σ ω) :
    Request α → Attempt (Session α σ ω μ τ ρ) Unit
  | .signal target message => onEngine (Engine.signal target message)
  | .start patience => discard (start p patience)

/-- Does what was asked with the watched version of a program, and notes down
the signals from outside as well. -/
def serveWatched (p : Program α σ ω) :
    Request α → Attempt (Session α σ (Event α) μ τ ρ) Unit
  | .signal target message => onEngine do
    modify fun e =>
      { e with notes := e.notes.push (.entry (.sent target message)) }
    Engine.signal target message
  | .start patience => discard (start p.watched patience)

/-! ## Watched work follows -/

/-- When some work goes through from a session, watched work does the same,
and the events that it notes down keep the account. -/
def Follows (g : Graph α) (s : Session α σ ω μ τ ρ)
    (notes : Array (Note (Event α)))
    (work : Attempt (Session α σ ω μ τ ρ) β)
    (watched : Attempt (Session α σ (Event α) μ τ ρ) β) : Prop :=
  ∀ result t, work.perform s = (.ok result, t) →
    Engine.Accounted g s.engine (eventsIn notes) →
    ∃ notes', watched.perform (s.watching notes) =
        (.ok result, t.watching notes') ∧
      Engine.Accounted g t.engine (eventsIn notes')

section Follows

variable {g : Graph α} {s : Session α σ ω μ τ ρ}
  {notes : Array (Note (Event α))}

theorem follows_pure (result : β) :
    Follows g s notes (pure result) (pure result) := by
  intro given t h haccounted
  obtain ⟨hresult, rfl⟩ := Prod.mk.inj h
  rw [Except.ok.inj hresult]
  exact ⟨notes, rfl, haccounted⟩

theorem Follows.bind {work : Attempt (Session α σ ω μ τ ρ) β}
    {watched : Attempt (Session α σ (Event α) μ τ ρ) β}
    {next : β → Attempt (Session α σ ω μ τ ρ) γ}
    {next' : β → Attempt (Session α σ (Event α) μ τ ρ) γ}
    (h : Follows g s notes work watched)
    (hnext : ∀ result t notes',
      Follows g t notes' (next result) (next' result)) :
    Follows g s notes (work >>= next) (watched >>= next') := by
  intro result t hrun haccounted
  obtain ⟨middle, reached, hwork, hrest⟩ := Attempt.perform_bind_ok.mp hrun
  obtain ⟨notes', hwatched, hreached⟩ := h middle reached hwork haccounted
  obtain ⟨notes'', hend, ht⟩ :=
    hnext middle reached notes' result t hrest hreached
  exact ⟨notes'', Attempt.perform_bind_ok.mpr ⟨middle, _, hwatched, hend⟩, ht⟩

theorem follows_get {next : Session α σ ω μ τ ρ →
      Attempt (Session α σ ω μ τ ρ) γ}
    {next' : Session α σ (Event α) μ τ ρ →
      Attempt (Session α σ (Event α) μ τ ρ) γ}
    (h : Follows g s notes (next s) (next' (s.watching notes))) :
    Follows g s notes (get >>= next) (get >>= next') := by
  intro result t hrun haccounted
  rw [Attempt.perform_get_bind] at hrun
  rw [Attempt.perform_get_bind]
  exact h result t hrun haccounted

/-- Changes that inboxes, queue and graph do not see. -/
theorem follows_set {t : Session α σ ω μ τ ρ}
    {t' : Session α σ (Event α) μ τ ρ} (ht : t' = t.watching notes)
    (haccounted : Engine.Accounted g s.engine (eventsIn notes) →
      Engine.Accounted g t.engine (eventsIn notes)) :
    Follows g s notes (set t) (set t') := by
  intro result reached h hs
  obtain ⟨-, rfl⟩ := Prod.mk.inj h
  exact ⟨notes, by rw [ht]; rfl, haccounted hs⟩

private theorem follows_each {ι : Type} {items : List ι}
    {work : ι → Attempt (Session α σ ω μ τ ρ) Unit}
    {watched : ι → Attempt (Session α σ (Event α) μ τ ρ) Unit}
    (h : ∀ i s notes, Follows g s notes (work i) (watched i)) :
    Follows g s notes (Attempt.each items work)
      (Attempt.each items watched) := by
  induction items generalizing s notes with
  | nil => exact follows_pure ()
  | cons i rest ih => exact (h i s notes).bind fun _ _ _ => ih

/-- Work on the engine. -/
theorem follows_onEngine {work : Attempt (Engine α σ ω) β}
    {watched : Attempt (Engine α σ (Event α)) β}
    (h : ∀ result e', work.perform s.engine = (.ok result, e') →
      Engine.Accounted g s.engine (eventsIn notes) →
      ∃ notes', watched.perform (s.engine.watching notes) =
          (.ok result, e'.watching notes') ∧
        Engine.Accounted g e' (eventsIn notes')) :
    Follows g s notes (onEngine work) (onEngine watched) := by
  intro result t hrun haccounted
  obtain ⟨e', hwork, rfl⟩ := onEngine_ok.mp hrun
  obtain ⟨notes', hwatched, he'⟩ := h result e' hwork haccounted
  exact ⟨notes', onEngine_ok.mpr ⟨_, hwatched, rfl⟩, he'⟩

/-- A computation gives the same wherever it is done. -/
private theorem follows_lift_bind {answer : Except Failure β}
    {next : β → Attempt (Session α σ ω μ τ ρ) γ}
    {next' : β → Attempt (Session α σ (Event α) μ τ ρ) γ}
    (h : ∀ result, Follows g s notes (next result) (next' result)) :
    Follows g s notes (Attempt.lift answer >>= next)
      (Attempt.lift answer >>= next') := by
  intro result t hrun haccounted
  obtain ⟨middle, rfl, hrest⟩ := Attempt.perform_lift_bind_ok.mp hrun
  obtain ⟨notes', hend, ht⟩ := h middle result t hrest haccounted
  exact ⟨notes', Attempt.perform_lift_bind_ok.mpr ⟨middle, rfl, hend⟩, ht⟩

theorem follows_lift (answer : Except Failure β) :
    Follows g s notes (Attempt.lift answer) (Attempt.lift answer) := by
  intro result t hrun haccounted
  rw [Attempt.perform_lift] at hrun
  obtain ⟨rfl, rfl⟩ := Prod.mk.inj hrun
  exact ⟨notes, rfl, haccounted⟩

end Follows

/-! ## What sessions do -/

section Work

variable {g : Graph α} {p : Program α σ ω} {s : Session α σ ω μ τ ρ}
  {notes : Array (Note (Event α))}

private theorem follows_begin : Follows g s notes begin begin := by
  refine Follows.bind ?_ fun _ t notes' => ?_
  · intro result t hrun haccounted
    obtain ⟨-, rfl⟩ := Prod.mk.inj hrun
    refine ⟨notes, ?_, haccounted.frame rfl rfl rfl (List.Perm.refl _)⟩
    rw [Attempt.perform_modify]
    simp [restarted, watching, List.map_map, Engine.watching,
      Aggregator.watched, Function.comp_def]
  · refine follows_get ?_
    cases hmode : t.engine.mode with
    | synchronous =>
        rw [show (t.watching notes').engine.mode = .synchronous from hmode]
        exact follows_pure ()
    | asynchronous =>
        rw [show (t.watching notes').engine.mode = .asynchronous from hmode,
          show (t.watching notes').seed = t.seed from rfl]
        cases t.seed with
        | none => exact follows_pure ()
        | some seed =>
            refine follows_lift_bind fun source => ?_
            refine follows_set rfl fun haccounted => ?_
            exact haccounted.frame rfl rfl rfl
              (Twister.shuffle_perm t.engine.queue source)

omit [Scalar α] in
private theorem find?_watching (name : String) :
    (s.watching notes).find? name =
      (s.find? name).map Aggregator.watched := by
  rw [find?, find?, watching, List.find?_map]
  rfl

omit [Scalar α] in
private theorem replace_watching (a : Aggregator α ω μ τ ρ) :
    (s.watching notes).replace a.watched = (s.replace a).watching notes := by
  rw [replace, replace, watching, watching, List.map_map, List.map_map]
  congr 1
  refine List.map_congr_left fun b _ => ?_
  change (if b.name == a.name then a.watched else b.watched) =
    (if b.name == a.name then a else b).watched
  split <;> rfl

/-- An aggregator sees and changes the same. -/
theorem follows_aggregate (name : String) :
    Follows g s notes (aggregate name) (aggregate name) := by
  refine follows_get ?_
  rw [find?_watching]
  cases s.find? name with
  | none =>
      intro result t hrun
      cases (Prod.mk.inj hrun).1
  | some a =>
      rw [Option.map_some]
      dsimp only
      rw [Aggregator.total_watched]
      refine follows_lift_bind fun total => ?_
      refine Follows.bind (follows_set ?_ fun haccounted => ?_)
        fun _ _ _ => follows_lift _
      · have hreplace := @replace_watching _ _ _ _ _ _ s notes { a with
          state := (a.close s.engine.scene a.state total).state
          lastRun := s.engine.elapsed }
        have hnotes : notes ++ ([] : List (Note (Event α))).toArray = notes :=
          Array.append_empty
        refine (congrArg (fun r : Session α σ (Event α) μ τ ρ =>
          { r with engine := { s.engine.watching (notes ++ [].toArray) with
            settings := (a.close s.engine.scene a.state total).settings } })
          hreplace).trans ?_
        rw [hnotes]
        rfl
      · exact haccounted.frame rfl rfl rfl (List.Perm.refl _)

private theorem follows_aggregateDue :
    Follows g s notes aggregateDue aggregateDue := by
  refine follows_get ?_
  have hnames : (s.watching notes).aggregators.map (·.name) =
      s.aggregators.map (·.name) := by
    simp [watching, Aggregator.watched, Function.comp_def]
  rw [hnames]
  refine follows_each fun name t notes' => follows_get ?_
  rw [find?_watching]
  cases t.find? name with
  | none => exact follows_pure ()
  | some a =>
      rw [Option.map_some]
      dsimp only
      change Follows g t notes'
        (if isDue t.engine.elapsed a then discard (aggregate name) else pure ())
        (if isDue t.engine.elapsed a then discard (aggregate name) else pure ())
      split
      · exact (follows_aggregate name).bind fun _ _ _ => follows_pure ()
      · exact follows_pure ()

/-- A signal from outside goes to the open block of its vertex. -/
theorem follows_signal (target : Address) (message : Option (Step α)) :
    Follows g s notes (onEngine (Engine.signal target message)) (onEngine do
      modify fun e : Engine α σ (Event α) =>
        { e with notes := e.notes.push (.entry (.sent target message)) }
      Engine.signal target message) := by
  refine follows_onEngine fun _ e' hsignal haccounted => ?_
  obtain ⟨place, filled, hplace, hfilled, rfl⟩ := Engine.signal_ok.mp hsignal
  have hlogged := Engine.logged_posted haccounted.boxed hplace hfilled
  refine ⟨noting notes [.sent target message], ?_, ?_⟩
  · rw [Attempt.perform_modify_bind]
    exact Engine.signal_ok.mpr ⟨place, filled, hplace, hfilled, rfl⟩
  · rw [eventsIn_noting]
    exact haccounted.logged hlogged fun _ => rfl

/-- One iteration. -/
theorem follows_advance :
    Follows g s notes (advance p) (advance p.watched) := by
  have hpass : ∀ (t : Session α σ ω μ τ ρ) notes',
      Follows g t notes' (onEngine (modify passIteration))
        (onEngine (modify passIteration)) := by
    intro t notes'
    refine follows_onEngine fun _ e' hrun haccounted => ?_
    obtain ⟨-, rfl⟩ := Prod.mk.inj hrun
    exact ⟨notes', rfl, haccounted.frame rfl rfl rfl (List.Perm.refl _)⟩
  refine follows_get ?_
  cases hmode : s.engine.mode with
  | synchronous =>
      rw [show (s.watching notes).engine.mode = .synchronous from hmode]
      refine Follows.bind ?_ fun _ _ _ =>
        (hpass _ _).bind fun _ _ _ => follows_aggregateDue
      refine follows_onEngine fun _ e' hround haccounted => ?_
      obtain ⟨log, hturn⟩ := Engine.traced_round hmode haccounted.boxed
        haccounted.orderly hround
      refine ⟨noting notes log, hturn.run notes, ?_⟩
      rw [eventsIn_noting]
      exact haccounted.turn hturn
  | asynchronous =>
      rw [show (s.watching notes).engine.mode = .asynchronous from hmode]
      refine Follows.bind ?_ fun _ _ _ =>
        (hpass _ _).bind fun _ t notes' => follows_get ?_
      · refine follows_onEngine fun _ e' hactivate haccounted => ?_
        obtain ⟨v, log, hturn⟩ := Engine.traced_activateNext hmode
          haccounted.boxed haccounted.orderly hactivate
        refine ⟨noting notes log, hturn.run notes, ?_⟩
        rw [eventsIn_noting]
        exact haccounted.turn hturn
      · change Follows g t notes'
          (if t.engine.graph.size ≤ t.sinceDue + 1 then _ else _)
          (if t.engine.graph.size ≤ t.sinceDue + 1 then _ else _)
        split
        · exact (follows_set rfl fun h => h).bind fun _ _ _ =>
            follows_aggregateDue
        · exact follows_set rfl fun h => h

private theorem follows_isOver : Follows g s notes isOver isOver := by
  refine follows_get ?_
  change Follows g s notes (if s.engine.activeCount = 0 then _ else _)
    (if s.engine.activeCount = 0 then _ else _)
  split
  · exact follows_pure true
  · rw [show (s.watching notes).limitReached = s.limitReached from rfl]
    cases s.limitReached with
    | none => exact follows_pure false
    | some limit =>
        refine Follows.bind (follows_onEngine fun _ e' hrun haccounted => ?_)
          fun _ _ _ => follows_pure true
        obtain ⟨-, rfl⟩ := Prod.mk.inj hrun
        refine ⟨_, rfl, ?_⟩
        rw [eventsIn_push_line]
        exact haccounted.frame rfl rfl rfl (List.Perm.refl _)

private theorem follows_iterate (patience : Nat) :
    Follows g s notes (iterate p patience) (iterate p.watched patience) := by
  induction patience generalizing s notes with
  | zero =>
      refine follows_isOver.bind fun finished t notes' => ?_
      cases finished with
      | true => exact follows_pure ()
      | false =>
          intro result u hrun
          cases (Prod.mk.inj hrun).1
  | succ patience ih =>
      refine follows_isOver.bind fun finished t notes' => ?_
      cases finished with
      | true => exact follows_pure ()
      | false => exact follows_advance.bind fun _ _ _ => ih

private theorem follows_start (patience : Nat) :
    Follows g s notes (start p patience) (start p.watched patience) := by
  rw [start_eq, start_eq]
  refine follows_begin.bind fun _ _ _ => ?_
  refine (follows_iterate patience).bind fun _ _ _ => ?_
  exact follows_get (follows_pure _)

private theorem follows_serve (request : Request α) :
    Follows g s notes (serve p request) (serveWatched p request) := by
  cases request with
  | signal target message => exact follows_signal target message
  | start patience =>
      exact (follows_start patience).bind fun _ _ _ => follows_pure ()

/-- A run, iteration by iteration. -/
theorem run_watched {sizes : List Nat} {t : Session α σ ω μ τ ρ}
    (haccounted : Engine.Accounted g s.engine (eventsIn notes))
    (hrun : Run p s sizes t) :
    ∃ notes', Run p.watched (s.watching notes) sizes (t.watching notes') ∧
      Engine.Accounted g t.engine (eventsIn notes') := by
  induction hrun with
  | rest => exact ⟨notes, .rest, haccounted⟩
  | advance _ hactive hlimit hadvance ih =>
      obtain ⟨before, hwatched, hbefore⟩ := ih
      obtain ⟨after, hafter, haccounted⟩ :=
        follows_advance () _ hadvance hbefore
      exact ⟨after, hwatched.advance hactive hlimit hafter, haccounted⟩

end Work

end Session

/-! ## Exactly once -/

/-- For every vertex the events fall into blocks.  It has applied as many totals
as it has answered blocks, it is active if it has been signalled since, and
what waits for it is the sum of the messages that came with these signals. -/
def DeliveredOnce (g : Graph α) (e : Engine α σ ω) (log : List (Event α)) :
    Prop :=
  ∀ v, ∃ blocks tail, log = blocks.flatten ++ tail ∧
    Delivered g v blocks tail ∧
    (phasesOf v log).countP Phase.isApply = blocks.length ∧
    ((e.inbox v).isActive = true ↔ signalsTo g v tail ≠ []) ∧
    combined ((signalsTo g v tail).filterMap id) = .ok (e.inbox v).message?

private theorem Engine.Accounted.deliveredOnce {g : Graph α} {e : Engine α σ ω}
    {log : List (Event α)} (h : Engine.Accounted g e log) :
    DeliveredOnce g e log := by
  intro v
  obtain ⟨blocks, tail, rfl, hdelivered, hwaiting⟩ := h.delivered v
  exact ⟨blocks, tail, rfl, hdelivered, hdelivered.countP_isApply,
    Inbox.isActive_of_received hwaiting, Inbox.combined_of_received hwaiting⟩

/-- Messages are delivered exactly once, whatever the graph, the mode and the
program, and whatever is signalled from outside between its runs.  When a
history goes through from an engine at rest, serving it with the watched
version of the program does the same and notes down all signals and phases; and
these fall into blocks for every vertex, one for each of its activations, and a
tail.  This is so after the history, and between any two iterations of one more
run. -/
theorem delivered_once {mode : Mode} {g : Graph α}
    {vertices : Array (Vertex α)} {settings : Settings α} {fresh : σ}
    {pace : Nat → α} {p : Program α σ ω} {s t : Session α σ ω μ τ ρ}
    (hmake : s.engine = Engine.make mode g vertices settings fresh pace)
    {requests : List (Request α)}
    (h : (Attempt.each requests (Session.serve p)).perform s = (.ok (), t)) :
    ∃ notes, (Attempt.each requests (Session.serveWatched p)).perform
        (s.watching #[]) = (.ok (), t.watching notes) ∧
      DeliveredOnce g t.engine (eventsIn notes) ∧
      ∀ sizes u, t.Reaches p sizes u → ∃ more,
        (t.watching notes).Reaches p.watched sizes (u.watching more) ∧
          DeliveredOnce g u.engine (eventsIn more) := by
  have hstart : Engine.Accounted g s.engine (eventsIn (#[] : Array (Note _))) :=
    hmake ▸ Engine.accounted_make mode g vertices settings fresh pace
  obtain ⟨notes, hwatched, haccounted⟩ :=
    Session.follows_each (fun request _ _ => Session.follows_serve request)
      () t h hstart
  refine ⟨notes, hwatched, haccounted.deliveredOnce, ?_⟩
  rintro sizes u ⟨begun, hbegin, hrun⟩
  obtain ⟨before, hbefore, hbegun⟩ :=
    Session.follows_begin () begun hbegin haccounted
  obtain ⟨more, hmore, hend⟩ := Session.run_watched hbegun hrun
  exact ⟨more, ⟨_, hbefore, hmore⟩, hend.deliveredOnce⟩

/-- Two rows are sent messages and a third a signal without one; then there is a
run, and after it one row is signalled again. -/
def sampleRequests : List (Request Int) :=
  [.signal (.place 0) (some ⟨[1, 1], 1⟩), .signal (.id 2) (some ⟨[1, 2], 1⟩),
    .signal (.place 2) none, .start 9, .signal (.place 1) none]

/-- Learning on the sample serves these requests, and answers them exactly
once. -/
theorem delivered_once_sample :
    ∃ (t : Session Int (Descent.Slot Int) Empty Unit Unit Unit)
      (notes : Array (Note (Event Int))),
      (Attempt.each sampleRequests (Session.serveWatched
        (Descent.program : Program Int (Descent.Slot Int) Empty))).perform
          ((restingSession .asynchronous).watching #[]) =
            (.ok (), t.watching notes) ∧
      DeliveredOnce sampleGraph t.engine (eventsIn notes) := by
  have hresult : ((Attempt.each sampleRequests (Session.serve
      Descent.program)).perform
        (restingSession .asynchronous)).1.toOption = some () := by
    decide +kernel
  have hserved := Attempt.perform_of_toOption hresult
  obtain ⟨notes, hwatched, hdelivered, -⟩ := delivered_once rfl hserved
  exact ⟨_, notes, hwatched, hdelivered⟩

end RatingFactors
