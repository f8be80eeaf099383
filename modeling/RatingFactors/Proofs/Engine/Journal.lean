import RatingFactors.Proofs.Engine.Work

/-!
# A journal of signals

An iteration touches the inboxes and the queue only by signals, once the
vertices whose turn it is have been taken out.  Which signals go through, and in
which order, can be read off a journal: the journaled version of some work is
the same work, and it writes down every signal as soon as that has gone through.
It does the same as the work itself, whether the work goes through or fails
somewhere, and what it has written down accounts for the inboxes and the queue.

## Main definitions

* `Engine.Posted` — some posts have been made, and nothing else has touched the
  inboxes or the queue.
* `Engine.Journaling`, `Engine.Journal.phases` — work with a journal.
* `Engine.Tracks` — journaled work does the same, and its journal is right.
* `Engine.journal`, `Engine.journalOf` — the posts of an iteration and of a
  signal.

## Main results

* `tracks_phases` — the four phases keep a journal.
* `posted_work`, `posted_signal` — what becomes of inboxes and queue.
-/

namespace RatingFactors

namespace Engine

variable {α σ ω β γ : Type} [Scalar α]

/-! ## Posts and nothing else -/

/-- Posts to existing vertices have been made one after the other, and nothing
else has touched the inboxes or the queue. -/
structure Posted (e : Engine α σ ω) (posts : List (Post α))
    (e' : Engine α σ ω) : Prop where
  mode : e'.mode = e.mode
  graph : e'.graph = e.graph
  inboxes : e'.inboxes = (e.postAll posts).inboxes
  queue : e'.queue = (e.postAll posts).queue
  lt : ∀ post ∈ posts, post.1 < e.inboxes.size

/-- What posts do depends on the inboxes and the queue only. -/
theorem postAll_congr {e e' : Engine α σ ω} (hmode : e'.mode = e.mode)
    (hinboxes : e'.inboxes = e.inboxes) (hqueue : e'.queue = e.queue)
    (posts : List (Post α)) :
    (e'.postAll posts).inboxes = (e.postAll posts).inboxes ∧
      (e'.postAll posts).queue = (e.postAll posts).queue := by
  induction posts generalizing e e' with
  | nil => exact ⟨hinboxes, hqueue⟩
  | cons post rest ih =>
      refine ih hmode ?_ ?_
      · simp only [posted, inbox, hinboxes]
      · simp [posted, inbox, hinboxes, hqueue, hmode]

namespace Posted

variable {e e' e'' : Engine α σ ω} {posts more : List (Post α)}

theorem size (h : e.Posted posts e') : e'.inboxes.size = e.inboxes.size := by
  rw [h.inboxes, inboxes_size_postAll]

private theorem of_frame (hmode : e'.mode = e.mode)
    (hgraph : e'.graph = e.graph) (hinboxes : e'.inboxes = e.inboxes)
    (hqueue : e'.queue = e.queue) : e.Posted [] e' :=
  ⟨hmode, hgraph, hinboxes, hqueue, fun _ h => nomatch h⟩

theorem trans (h : e.Posted posts e') (h' : e'.Posted more e'') :
    e.Posted (posts ++ more) e'' := by
  obtain ⟨hinboxes, hqueue⟩ :=
    postAll_congr (h.mode.trans (e.mode_postAll posts).symm) h.inboxes h.queue
      more
  refine ⟨h'.mode.trans h.mode, h'.graph.trans h.graph, ?_, ?_, ?_⟩
  · rw [h'.inboxes, hinboxes, postAll_append]
  · rw [h'.queue, hqueue, postAll_append]
  · intro post hpost
    rcases List.mem_append.mp hpost with hpost | hpost
    · exact h.lt post hpost
    · exact h.size ▸ h'.lt post hpost

/-- Posts keep the books of the scheduler. -/
theorem orderly (h : e.Posted posts e') (he : e.Orderly) : e'.Orderly :=
  (he.postAll h.lt).frame (h.mode.trans (e.mode_postAll posts).symm) h.inboxes
    (h.queue ▸ .refl _)

end Posted

/-! ## Work with a journal -/

/-- Work on an engine that writes down the posts it has made. -/
abbrev Journaling (α σ ω β : Type) : Type :=
  Attempt (Engine α σ ω × List (Post α)) β

namespace Journal

/-- The engine as it is. -/
def look : Journaling α σ ω (Engine α σ ω) := do
  return (← get).1

/-- Work that makes no post. -/
def quietly (work : Attempt (Engine α σ ω) β) : Journaling α σ ω β :=
  fun (e, posts) =>
    let (answer, e') := work.perform e
    (answer, e', posts)

/-- A signal, written down when it has gone through. -/
def signal (target : Address) (message : Option (Step α)) :
    Journaling α σ ω Unit := do
  let e ← look
  quietly (Engine.signal target message)
  -- This goes through: the signal has just found the place.
  let place ← Attempt.lift (e.resolve target)
  modify fun (e, posts) => (e, posts ++ [(place, message)])

/-- One action of the vertex at a place. -/
def carryOut (place : Nat) : Action α σ ω → Journaling α σ ω Unit
  | .signal target message => signal target message
  | action => quietly (Engine.carryOut place action)

/-- The actions of a reply, and its result. -/
def heed (place : Nat) (reply : Reply α σ ω β) : Journaling α σ ω β := do
  Attempt.each reply.actions (carryOut place)
  Attempt.lift reply.answer

/-- A vertex takes in its message. -/
def initAt (p : Program α σ ω) (place : Nat) (waiting : Inbox α) :
    Journaling α σ ω Unit := do
  match waiting.message? with
  | none => pure ()
  | some message =>
    let e ← look
    heed place (p.init e.scene place (e.slot p place) message)

/-- A vertex gathers over edges. -/
def gatherOver (p : Program α σ ω) (place : Nat) :
    List Nat → Step α → Journaling α σ ω (Step α)
  | [], total => return total
  | number :: rest, total => do
    let e ← look
    let contribution ←
      heed place (p.gather e.scene place (e.slot p place) number)
    let total ← Attempt.lift (total.add contribution.step)
    match contribution.outgoing with
    | none => pure ()
    | some message => signal (.id message.target) (some message.payload)
    gatherOver p place rest total

/-- A vertex gathers. -/
def gatherAt (p : Program α σ ω) (place : Nat) : Journaling α σ ω (Step α) := do
  let e ← look
  let direction ← Attempt.lift (p.gatherEdges e.scene place)
  gatherOver p place (e.graph.incident place direction) Step.empty

/-- A vertex applies its total. -/
def applyAt (p : Program α σ ω) (place : Nat) (total : Step α) :
    Journaling α σ ω Unit := do
  let e ← look
  heed place (p.apply e.scene place (e.slot p place) total)
  quietly (modify fun e => { e with updates := e.updates + 1 })

/-- A vertex scatters. -/
def scatterAt (p : Program α σ ω) (place : Nat) : Journaling α σ ω Unit := do
  let e ← look
  let direction ← Attempt.lift (p.scatterEdges e.scene place)
  Attempt.each (e.graph.incident place direction) fun number => do
    let e ← look
    heed place (p.scatter e.scene place (e.slot p place) number)

/-- The four phases of some vertices. -/
def phases (p : Program α σ ω) (waiting : Nat → Inbox α) (order : List Nat) :
    Journaling α σ ω Unit := do
  Attempt.each order fun v => initAt p v (waiting v)
  let totals ← Attempt.collect order (gatherAt p)
  Attempt.each (order.zip totals) fun (v, total) => applyAt p v total
  Attempt.each order (scatterAt p)

end Journal

/-- The posts of the iteration that begins in an engine. -/
def journal (p : Program α σ ω) (e : Engine α σ ω) : List (Post α) :=
  ((Journal.phases p e.inbox e.order).perform (e.cleared, [])).2.2

/-- The posts of a signal: one if it goes through, and none if it fails. -/
def journalOf (e : Engine α σ ω) (target : Address)
    (message : Option (Step α)) : List (Post α) :=
  ((Journal.signal target message).perform (e, [])).2.2

/-! ## The journal is right -/

/-- Journaled work does the same as the work, whether that goes through or not,
and writes down the posts that have been made. -/
def Tracks (journaled : Journaling α σ ω β) (work : Attempt (Engine α σ ω) β) :
    Prop :=
  ∀ e before, e.inboxes.size = e.graph.size → ∃ posts,
    journaled.perform (e, before) =
        ((work.perform e).1, (work.perform e).2, before ++ posts) ∧
      e.Posted posts (work.perform e).2

section Tracks

variable {p : Program α σ ω}

omit [Scalar α] in
private theorem perform_look_bind (next : Engine α σ ω → Journaling α σ ω β)
    (e : Engine α σ ω) (before : List (Post α)) :
    (Journal.look >>= next).perform (e, before) =
      (next e).perform (e, before) :=
  rfl

omit [Scalar α] in
private theorem perform_quietly (work : Attempt (Engine α σ ω) β)
    (e : Engine α σ ω) (before : List (Post α)) :
    (Journal.quietly work).perform (e, before) =
      ((work.perform e).1, (work.perform e).2, before) :=
  rfl

private theorem tracks_quietly {work : Attempt (Engine α σ ω) β}
    (h : ∀ e : Engine α σ ω, e.Posted [] (work.perform e).2) :
    Tracks (Journal.quietly work) work :=
  fun e before _ => ⟨[], by rw [List.append_nil]; rfl, h e⟩

theorem tracks_lift (answer : Except Failure β) :
    Tracks (Attempt.lift answer : Journaling α σ ω β) (Attempt.lift answer) :=
  fun e before _ => ⟨[], by
    rw [Attempt.perform_lift, Attempt.perform_lift, List.append_nil],
    by rw [Attempt.perform_lift]; exact .of_frame rfl rfl rfl rfl⟩

theorem tracks_pure (result : β) :
    Tracks (pure result : Journaling α σ ω β)
      (pure result : Attempt (Engine α σ ω) β) :=
  tracks_lift (.ok result)

theorem Tracks.bind {journaled : Journaling α σ ω β}
    {work : Attempt (Engine α σ ω) β} {next : β → Journaling α σ ω γ}
    {next' : β → Attempt (Engine α σ ω) γ} (h : Tracks journaled work)
    (hnext : ∀ result, Tracks (next result) (next' result)) :
    Tracks (journaled >>= next) (work >>= next') := by
  intro e before hsize
  obtain ⟨posts, hrun, hposted⟩ := h e before hsize
  rw [Attempt.perform_bind, Attempt.perform_bind, hrun]
  cases hwork : work.perform e with
  | mk answer e' =>
      rw [hwork] at hposted
      cases answer with
      | error cause => exact ⟨posts, rfl, hposted⟩
      | ok result =>
          obtain ⟨more, hrest, hposted'⟩ := hnext result e' (before ++ posts)
            (by rw [hposted.size, hsize, hposted.graph])
          refine ⟨posts ++ more, ?_, hposted.trans hposted'⟩
          rw [← List.append_assoc]
          exact hrest

theorem tracks_look {next : Engine α σ ω → Journaling α σ ω β}
    {next' : Engine α σ ω → Attempt (Engine α σ ω) β}
    (h : ∀ e, Tracks (next e) (next' e)) :
    Tracks (Journal.look >>= next) (get >>= next') :=
  fun e before hsize => h e e before hsize

private theorem tracks_each {ι : Type} (items : List ι)
    {journaled : ι → Journaling α σ ω Unit}
    {work : ι → Attempt (Engine α σ ω) Unit}
    (h : ∀ i, Tracks (journaled i) (work i)) :
    Tracks (Attempt.each items journaled) (Attempt.each items work) := by
  induction items with
  | nil => exact tracks_pure ()
  | cons i rest ih => exact (h i).bind fun _ => ih

private theorem tracks_collect {ι : Type} (items : List ι)
    {journaled : ι → Journaling α σ ω β} {work : ι → Attempt (Engine α σ ω) β}
    (h : ∀ i, Tracks (journaled i) (work i)) :
    Tracks (Attempt.collect items journaled) (Attempt.collect items work) := by
  induction items with
  | nil => exact tracks_pure []
  | cons i rest ih =>
      exact (h i).bind fun _ => ih.bind fun _ => tracks_pure _

/-- A signal that fails changes nothing and leaves no post; one that goes
through leaves one. -/
theorem tracks_signal (target : Address) (message : Option (Step α)) :
    Tracks (Journal.signal target message : Journaling α σ ω Unit)
      (signal target message : Attempt (Engine α σ ω) Unit) := by
  intro e before hsize
  rw [Journal.signal, perform_look_bind, Attempt.perform_bind, perform_quietly]
  rcases signal_cases e target message with ⟨cause, hfail⟩ | ⟨_, _, hsent⟩
  · rw [hfail]
    exact ⟨[], by rw [List.append_nil], .of_frame rfl rfl rfl rfl⟩
  · obtain ⟨place, filled, hplace, -, hposted⟩ := signal_ok.mp hsent
    rw [hsent, hposted]
    refine ⟨[(place, message)], ?_, rfl, rfl, rfl, rfl, ?_⟩
    · dsimp only
      rw [hplace]
      rfl
    · intro post hpost
      obtain rfl := List.mem_singleton.mp hpost
      exact hsize ▸ resolve_lt hplace

private theorem tracks_carryOut (place : Nat) (action : Action α σ ω) :
    Tracks (Journal.carryOut place action) (carryOut place action) := by
  have hquiet : ∀ action : Action α σ ω,
      (∀ e : Engine α σ ω, e.Posted [] ((carryOut place action).perform e).2) →
      Tracks (Journal.quietly (carryOut place action))
        (carryOut place action) :=
    fun _ h => tracks_quietly h
  cases action with
  | signal target message => exact tracks_signal target message
  | store vertex =>
      exact hquiet (.store vertex) fun _ => .of_frame rfl rfl rfl rfl
  | keep slot => exact hquiet (.keep slot) fun _ => .of_frame rfl rfl rfl rfl
  | note content =>
      exact hquiet (.note content) fun _ => .of_frame rfl rfl rfl rfl

private theorem tracks_heed (place : Nat) (reply : Reply α σ ω β) :
    Tracks (Journal.heed place reply) (heed place reply) :=
  (tracks_each reply.actions fun action => tracks_carryOut place action).bind
    fun _ => tracks_lift reply.answer

private theorem tracks_initAt (place : Nat) (waiting : Inbox α) :
    Tracks (Journal.initAt p place waiting) (initAt p place waiting) := by
  unfold Journal.initAt initAt
  cases waiting.message? with
  | none => exact tracks_pure ()
  | some message => exact tracks_look fun _ => tracks_heed place _

private theorem tracks_gatherOver (place : Nat) (numbers : List Nat)
    (total : Step α) :
    Tracks (Journal.gatherOver p place numbers total)
      (gatherOver p place numbers total) := by
  induction numbers generalizing total with
  | nil => exact tracks_pure total
  | cons number rest ih =>
      rw [Journal.gatherOver, gatherOver]
      refine tracks_look fun e =>
        (tracks_heed place _).bind fun contribution => ?_
      refine (tracks_lift _).bind fun total => ?_
      cases contribution.outgoing with
      | none => exact ih total
      | some message => exact (tracks_signal _ _).bind fun _ => ih total

private theorem tracks_gatherAt (place : Nat) :
    Tracks (Journal.gatherAt p place) (gatherAt p place) :=
  tracks_look fun _ => (tracks_lift _).bind fun _ => tracks_gatherOver place _ _

private theorem tracks_applyAt (place : Nat) (total : Step α) :
    Tracks (Journal.applyAt p place total) (applyAt p place total) :=
  tracks_look fun _ => (tracks_heed place _).bind fun _ =>
    tracks_quietly fun _ => .of_frame rfl rfl rfl rfl

private theorem tracks_scatterAt (place : Nat) :
    Tracks (Journal.scatterAt p place) (scatterAt p place) :=
  tracks_look fun _ => (tracks_lift _).bind fun _ =>
    tracks_each _ fun _ => tracks_look fun _ => tracks_heed place _

/-- The four phases of some vertices keep a journal. -/
theorem tracks_phases (waiting : Nat → Inbox α) (order : List Nat) :
    Tracks (Journal.phases p waiting order) (phases p waiting order) := by
  refine (tracks_each order fun v => tracks_initAt v (waiting v)).bind
    fun _ => ?_
  refine (tracks_collect order tracks_gatherAt).bind fun totals => ?_
  refine (tracks_each (order.zip totals) fun pair =>
    tracks_applyAt pair.1 pair.2).bind fun _ => ?_
  exact tracks_each order tracks_scatterAt

end Tracks

/-! ## Iterations and signals -/

section Work

variable {e : Engine α σ ω}

omit [Scalar α] in
/-- Clearing leaves as many inboxes. -/
theorem size_cleared (e : Engine α σ ω) :
    e.cleared.inboxes.size = e.inboxes.size := by
  unfold cleared
  split
  · exact Array.size_replicate
  · rfl
  · exact Array.size_setIfInBounds

/-- An iteration, whatever becomes of it, makes the posts of its journal, after
the vertices whose turn it is have been taken out. -/
theorem posted_work (p : Program α σ ω)
    (hsize : e.inboxes.size = e.graph.size) :
    e.cleared.Posted (e.journal p) ((work p e.mode).perform e).2 := by
  obtain ⟨posts, hrun, hposted⟩ :=
    tracks_phases (p := p) e.inbox e.order e.cleared []
      (by rw [size_cleared, graph_cleared, hsize])
  rw [journal, hrun, work_leaves]
  exact hposted

/-- A signal makes the post of its journal, if it goes through. -/
theorem posted_signal (target : Address) (message : Option (Step α))
    (hsize : e.inboxes.size = e.graph.size) :
    e.Posted (e.journalOf target message)
      ((signal target message).perform e).2 := by
  obtain ⟨posts, hrun, hposted⟩ := tracks_signal target message e [] hsize
  rw [journalOf, hrun]
  exact hposted

end Work

end Engine

end RatingFactors
