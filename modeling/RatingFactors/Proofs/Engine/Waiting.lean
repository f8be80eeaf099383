import RatingFactors.Proofs.Engine.Endings
import RatingFactors.Proofs.Engine.Histories
import RatingFactors.Proofs.Engine.Journal

/-!
# Waiting for one's turn

The scheduler keeps a queue beside the inboxes.  Whatever is asked of a session,
and whatever fails on the way, nobody waits in the queue twice and exactly the
active vertices wait in it.  So who is taken from the queue has been signalled,
and who has been signalled is taken exactly once, or still waits.

What happens to the queue is a list of moves: signals that have gone through,
vertices that have been taken, and new orders drawn when a run starts.  The
moves are read off the journals of signals and iterations, which are right even
where these fail.  A vertex that waits is not moved by further signals; one that
does not goes to the end of the queue; and the first is always taken next.
Between two new orders vertices are therefore taken in the order in which they
arrived, each by the first signal since it was last taken.

## Main definitions

* `Move`, `Waits` — what happens to a queue.
* `arrivals`, `takenIn` — who joins the queue, and who leaves it.
* `Engine.Scheduled` — every vertex has an inbox, and the books are in order.
* `Engine.Proceeds` — an engine goes on to another by some moves.
* `Demand`, `Session.after`, `Session.movesAfter` — what is asked of a session,
  and what comes of it.
* `Fair` — nobody is lost, taken twice or overtaken.

## Main results

* `Waits.perm`, `Waits.inOrder` — who arrives is taken or still waits, and in
  order.
* `proceeds_signal`, `proceeds_work` — what a signal and an iteration do.
* `proceeds_after` — what any demands do.
* `scheduler_bookkeeping` — the books after everything that can be asked.
-/

namespace RatingFactors

/-! ## Queues -/

/-- Something that happens to the queue. -/
inductive Move
  /-- A signal to the vertex at a place has gone through. -/
  | sent (place : Nat)
  /-- The vertex at a place has been taken from the queue. -/
  | took (place : Nat)
  /-- The queue has been put into another order. -/
  | shuffled
deriving DecidableEq, Repr

/-- How moves lead from one queue to another: who waits is not moved by a
signal, who does not goes to the end, and only the first is taken. -/
inductive Waits : List Nat → List Move → List Nat → Prop
  | rest {queue : List Nat} : Waits queue [] queue
  | again {place : Nat} {queue last : List Nat} {moves : List Move} :
      place ∈ queue → Waits queue moves last →
      Waits queue (.sent place :: moves) last
  | woken {place : Nat} {queue last : List Nat} {moves : List Move} :
      place ∉ queue → Waits (queue ++ [place]) moves last →
      Waits queue (.sent place :: moves) last
  | took {place : Nat} {queue last : List Nat} {moves : List Move} :
      Waits queue moves last →
      Waits (place :: queue) (.took place :: moves) last
  | shuffled {queue order last : List Nat} {moves : List Move} :
      order.Perm queue → Waits order moves last →
      Waits queue (.shuffled :: moves) last

/-- The vertices that are taken, in order. -/
def takenIn (moves : List Move) : List Nat :=
  moves.filterMap fun
    | .took place => some place
    | _ => none

/-- The vertices that join a queue, in order: each by the first signal that
reaches it while it does not wait. -/
def arrivals (queue : List Nat) : List Move → List Nat
  | [] => []
  | .sent place :: moves =>
    if place ∈ queue then arrivals queue moves
    else place :: arrivals (queue ++ [place]) moves
  -- A vertex that is taken stands first.  Erasing it wherever it stands makes
  -- the arrivals independent of the order, as after `shuffled` they have to be.
  | .took place :: moves => arrivals (queue.erase place) moves
  | .shuffled :: moves => arrivals queue moves

/-- Who joins a queue does not depend on its order. -/
private theorem arrivals_perm {queue order : List Nat} (h : order.Perm queue)
    (moves : List Move) : arrivals order moves = arrivals queue moves := by
  induction moves generalizing queue order with
  | nil => rfl
  | cons move moves ih =>
      cases move with
      | sent place =>
          rw [arrivals, arrivals, ih h, ih (h.append_right [place])]
          simp only [h.mem_iff]
      | took place => exact ih (h.erase place)
      | shuffled => exact ih h

namespace Waits

variable {queue middle last : List Nat} {moves more : List Move}

theorem trans (h : Waits queue moves middle) (h' : Waits middle more last) :
    Waits queue (moves ++ more) last := by
  induction h with
  | rest => exact h'
  | again hmem _ ih => exact .again hmem (ih h')
  | woken hnew _ ih => exact .woken hnew (ih h')
  | took _ ih => exact .took (ih h')
  | shuffled hperm _ ih => exact .shuffled hperm (ih h')

/-- Moves can be interrupted anywhere. -/
theorem split (h : Waits queue (moves ++ more) last) :
    ∃ middle, Waits queue moves middle ∧ Waits middle more last := by
  induction moves generalizing queue with
  | nil => exact ⟨queue, .rest, h⟩
  | cons move moves ih =>
      cases h with
      | again hmem h =>
          obtain ⟨middle, hfirst, hrest⟩ := ih h
          exact ⟨middle, .again hmem hfirst, hrest⟩
      | woken hnew h =>
          obtain ⟨middle, hfirst, hrest⟩ := ih h
          exact ⟨middle, .woken hnew hfirst, hrest⟩
      | took h =>
          obtain ⟨middle, hfirst, hrest⟩ := ih h
          exact ⟨middle, .took hfirst, hrest⟩
      | shuffled hperm h =>
          obtain ⟨middle, hfirst, hrest⟩ := ih h
          exact ⟨middle, .shuffled hperm hfirst, hrest⟩

/-- Who waits or arrives is taken once or still waits at the end. -/
theorem perm (h : Waits queue moves last) :
    (queue ++ arrivals queue moves).Perm (takenIn moves ++ last) := by
  induction h with
  | rest => rw [arrivals, List.append_nil]; exact .refl _
  | again hmem _ ih =>
      rw [arrivals, if_pos hmem]
      exact ih
  | woken hnew _ ih =>
      rw [arrivals, if_neg hnew, List.append_cons]
      exact ih
  | took _ ih =>
      rw [arrivals, List.erase_cons_head]
      exact ih.cons _
  | shuffled hperm _ ih =>
      rw [arrivals, ← arrivals_perm hperm]
      exact (hperm.symm.append_right _).trans ih

/-- As long as the queue is not put into another order, vertices are taken in
the order of their arrival, after those that waited already. -/
theorem inOrder (h : Waits queue moves last) (hkept : Move.shuffled ∉ moves) :
    queue ++ arrivals queue moves = takenIn moves ++ last := by
  induction h with
  | rest => rw [arrivals, List.append_nil]; rfl
  | again hmem _ ih =>
      rw [arrivals, if_pos hmem]
      exact ih fun hin => hkept (List.mem_cons_of_mem _ hin)
  | woken hnew _ ih =>
      rw [arrivals, if_neg hnew, List.append_cons]
      exact ih fun hin => hkept (List.mem_cons_of_mem _ hin)
  | took _ ih =>
      rw [arrivals, List.erase_cons_head]
      exact congrArg (List.cons _)
        (ih fun hin => hkept (List.mem_cons_of_mem _ hin))
  | shuffled _ _ _ => exact absurd List.mem_cons_self hkept

end Waits

namespace Engine

variable {α σ ω : Type} [Scalar α]

/-! ## Engines -/

/-- Every vertex has an inbox, and the books of the scheduler are in order. -/
structure Scheduled (e : Engine α σ ω) : Prop where
  boxed : e.inboxes.size = e.graph.size
  orderly : e.Orderly

/-- An engine goes on to another: its books stay in order, and these moves
happen to its queue. -/
structure Proceeds (e : Engine α σ ω) (moves : List Move)
    (e' : Engine α σ ω) : Prop where
  mode : e'.mode = e.mode
  scheduled : e'.Scheduled
  waits : e.mode = .asynchronous → Waits e.queue moves e'.queue

/-- The signals of posts. -/
def sentTo (posts : List (Post α)) : List Move :=
  posts.map fun post => .sent post.1

/-- The moves of the iteration that begins in an engine with a queue: the first
vertex is taken, and then the iteration makes its posts. -/
def moves (p : Program α σ ω) (e : Engine α σ ω) : List Move :=
  (e.queue.take 1).map .took ++ sentTo (e.journal p)

section Proceeds

variable {e e' e'' : Engine α σ ω} {first more : List Move}
  {posts : List (Post α)}

omit [Scalar α] in
theorem Proceeds.trans (h : e.Proceeds first e') (h' : e'.Proceeds more e'') :
    e.Proceeds (first ++ more) e'' where
  mode := h'.mode.trans h.mode
  scheduled := h'.scheduled
  waits := fun hmode => (h.waits hmode).trans (h'.waits (h.mode.trans hmode))

omit [Scalar α] in
theorem Scheduled.frame (he : e.Scheduled) (hmode : e'.mode = e.mode)
    (hgraph : e'.graph = e.graph) (hinboxes : e'.inboxes = e.inboxes)
    (hqueue : e'.queue.Perm e.queue) : e'.Scheduled :=
  ⟨by rw [hinboxes, hgraph, he.boxed], he.orderly.frame hmode hinboxes hqueue⟩

omit [Scalar α] in
/-- What touches neither inboxes nor queue makes no move. -/
theorem Scheduled.still (he : e.Scheduled) (hmode : e'.mode = e.mode)
    (hgraph : e'.graph = e.graph) (hinboxes : e'.inboxes = e.inboxes)
    (hqueue : e'.queue = e.queue) : e.Proceeds [] e' where
  mode := hmode
  scheduled := he.frame hmode hgraph hinboxes (hqueue ▸ .refl _)
  waits := fun _ => hqueue ▸ .rest

omit [Scalar α] in
/-- The vertex whose turn it is leaves the queue and finds its inbox empty. -/
theorem Scheduled.cleared (he : e.Scheduled) :
    e.Proceeds ((e.queue.take 1).map .took) e.cleared where
  mode := e.mode_cleared
  scheduled :=
    ⟨by rw [size_cleared, graph_cleared, he.boxed], he.orderly.cleared⟩
  waits := by
    intro hmode
    unfold Engine.cleared
    rw [hmode]
    cases hqueue : e.queue with
    | nil =>
        dsimp only
        rw [hqueue]
        exact .rest
    | cons place rest => exact .took .rest

private theorem waits_postAll (he : e.Orderly) (hmode : e.mode = .asynchronous)
    (h : ∀ post ∈ posts, post.1 < e.inboxes.size) :
    Waits e.queue (sentTo posts) (e.postAll posts).queue := by
  induction posts generalizing e with
  | nil => exact .rest
  | cons post rest ih =>
      have hrest : Waits (e.posted post).queue (sentTo rest)
          (e.postAll (post :: rest)).queue := by
        refine ih (he.posted (h post (by simp))) hmode fun other hother => ?_
        rw [show (e.posted post).inboxes.size = e.inboxes.size from
          Array.size_setIfInBounds]
        exact h other (by simp [hother])
      have hmem := he.mem_queue hmode post.1
      by_cases hactive : (e.inbox post.1).isActive = true
      · have hqueue : (e.posted post).queue = e.queue := by
          simp [Engine.posted, hactive]
        exact .again (hmem.mpr hactive) (hqueue ▸ hrest)
      · have hqueue : (e.posted post).queue = e.queue ++ [post.1] := by
          simp [Engine.posted, hactive, hmode]
        exact .woken (mt hmem.mp hactive) (hqueue ▸ hrest)

/-- Posts put idle vertices at the end of the queue, in order, and move
nobody. -/
theorem Posted.proceeds (h : e.Posted posts e') (he : e.Scheduled) :
    e.Proceeds (sentTo posts) e' where
  mode := h.mode
  scheduled := ⟨by rw [h.size, h.graph, he.boxed], h.orderly he.orderly⟩
  waits := fun hmode => h.queue ▸ waits_postAll he.orderly hmode h.lt

/-- A signal, whether it goes through or not. -/
theorem proceeds_signal (he : e.Scheduled) (target : Address)
    (message : Option (Step α)) :
    e.Proceeds (sentTo (e.journalOf target message))
      ((signal target message).perform e).2 :=
  (posted_signal target message he.boxed).proceeds he

/-- A round or an activation, whether it goes through or fails midway. -/
theorem proceeds_work (p : Program α σ ω) (he : e.Scheduled) :
    e.Proceeds (e.moves p) ((work p e.mode).perform e).2 :=
  he.cleared.trans ((posted_work p he.boxed).proceeds he.cleared.scheduled)

private theorem scheduled_make (mode : Mode) (g : Graph α)
    (vertices : Array (Vertex α)) (settings : Settings α) (fresh : σ)
    (pace : Nat → α) :
    (make mode g vertices settings fresh pace : Engine α σ ω).Scheduled :=
  ⟨Array.size_replicate, orderly_make⟩

end Proceeds

end Engine

/-! ## Sessions -/

/-- What can be asked of a session, in the middle of a run as well. -/
inductive Demand (α : Type)
  /-- A signal from outside, or a run. -/
  | request (request : Request α)
  /-- One round or activation. -/
  | step

namespace Session

variable {α σ ω μ τ ρ : Type} [Scalar α]

/-- Does what is demanded. -/
def comply (p : Program α σ ω) :
    Demand α → Attempt (Session α σ ω μ τ ρ) Unit
  | .request request => serve p request
  | .step => do
    let s ← get
    onEngine (Engine.work p s.engine.mode)

/-- The session after some demands.  It goes on from whatever one that failed
has left. -/
def after (p : Program α σ ω) (s : Session α σ ω μ τ ρ) :
    List (Demand α) → Session α σ ω μ τ ρ
  | [] => s
  | demand :: rest => after p ((comply p demand).perform s).2 rest

instance (s : Session α σ ω μ τ ρ) : Decidable s.Busy :=
  inferInstanceAs (Decidable (s.engine.activeCount ≠ 0 ∧ s.limitReached = none))

/-- The moves of iterating, up to the iteration that fails. -/
def movesOver (p : Program α σ ω) (s : Session α σ ω μ τ ρ) : Nat → List Move
  | 0 => []
  | patience + 1 =>
    if s.Busy then
      s.engine.moves p ++
        match (advance p).perform s with
        | (.error _, _) => []
        | (.ok (), t) => movesOver p t patience
    else []

/-- A new order is drawn if there is a seed. -/
def shuffles (s : Session α σ ω μ τ ρ) : List Move :=
  match s.seed with
  | none => []
  | some _ => [.shuffled]

/-- The moves of a run. -/
def movesOfStart (p : Program α σ ω) (patience : Nat)
    (s : Session α σ ω μ τ ρ) : List Move :=
  match begin.perform s with
  | (.error _, _) => []
  | (.ok (), begun) => s.shuffles ++ begun.movesOver p patience

/-- The moves that come of a demand. -/
def movesOf (p : Program α σ ω) (s : Session α σ ω μ τ ρ) :
    Demand α → List Move
  | .request (.signal target message) =>
    Engine.sentTo (s.engine.journalOf target message)
  | .request (.start patience) => s.movesOfStart p patience
  | .step => s.engine.moves p

/-- The moves that come of some demands. -/
def movesAfter (p : Program α σ ω) (s : Session α σ ω μ τ ρ) :
    List (Demand α) → List Move
  | [] => []
  | demand :: rest =>
    s.movesOf p demand ++ movesAfter p ((comply p demand).perform s).2 rest

section Proceeds

variable {p : Program α σ ω} {s t : Session α σ ω μ τ ρ}

/-- One iteration, whether it goes through or not. -/
theorem proceeds_advance (hs : s.engine.Scheduled) :
    s.engine.Proceeds (s.engine.moves p) ((advance p).perform s).2.engine := by
  have hwork := Engine.proceeds_work p hs
  cases hadvance : (advance p).perform s with
  | mk answer t =>
      rcases advance_cases hadvance with ⟨_, engine, hfailed, -, rfl⟩ |
        ⟨engine, hdone, hreported⟩
      · rwa [hfailed] at hwork
      · rw [hdone] at hwork
        dsimp only
        rw [hreported.engine, ← List.append_nil (s.engine.moves p)]
        exact hwork.trans (hwork.scheduled.still rfl rfl rfl rfl)

/-- Iterating, however it ends: the induction is on the iterations that may
still be made. -/
theorem proceeds_iterate (hs : s.engine.Scheduled) (patience : Nat) :
    s.engine.Proceeds (s.movesOver p patience)
      ((iterate p patience).perform s).2.engine := by
  have hover : ∀ {s t : Session α σ ω μ τ ρ}, s.engine.Scheduled →
      isOver.perform s = (.ok true, t) →
      ¬ s.Busy ∧ s.engine.Proceeds [] t.engine := by
    intro s t hs hover
    obtain ⟨hrest, notes, rfl⟩ := not_busy_of_isOver hover
    exact ⟨hrest, hs.still rfl rfl rfl rfl⟩
  induction patience generalizing s with
  | zero =>
      rw [iterate, Attempt.perform_bind]
      rcases isOver_cases s with ⟨t, hend⟩ | ⟨hlook, -⟩
      · rw [hend]
        exact (hover hs hend).2
      · rw [hlook]
        exact hs.still rfl rfl rfl rfl
  | succ patience ih =>
      rw [iterate, Attempt.perform_bind, movesOver]
      rcases isOver_cases s with ⟨t, hend⟩ | ⟨hlook, hbusy⟩
      · obtain ⟨hrest, hstill⟩ := hover hs hend
        rw [hend, if_neg hrest]
        exact hstill
      · rw [hlook, if_pos hbusy]
        change s.engine.Proceeds _
          ((advance p >>= fun _ => iterate p patience).perform s).2.engine
        rw [Attempt.perform_bind]
        have hmoved := proceeds_advance (p := p) hs
        cases hadvance : (advance p).perform s with
        | mk answer t =>
            rw [hadvance] at hmoved
            cases answer with
            | error cause =>
                dsimp only
                rwa [List.append_nil]
            | ok done => exact hmoved.trans (ih hmoved.scheduled)

/-- Beginning puts the queue into a new order, if there is a seed. -/
theorem proceeds_begin (hs : s.engine.Scheduled)
    (h : begin.perform s = (.ok (), t)) :
    s.engine.Proceeds s.shuffles t.engine := by
  rw [perform_begin] at h
  cases horder : drawnOrder s.engine.mode s.seed s.engine.queue with
  | error cause =>
      rw [horder] at h
      cases h
  | ok order =>
      rw [horder] at h
      obtain rfl := (Prod.mk.inj h).2
      have hperm := drawnOrder_perm horder
      refine ⟨rfl, hs.frame rfl rfl rfl hperm, fun hmode => ?_⟩
      unfold shuffles
      cases hseed : s.seed with
      | none =>
          rw [hmode, hseed] at horder
          obtain rfl := Except.ok.inj horder
          exact .rest
      | some seed => exact .shuffled hperm .rest

/-- A run, however it ends. -/
theorem proceeds_start (hs : s.engine.Scheduled) (patience : Nat) :
    s.engine.Proceeds (s.movesOfStart p patience)
      ((start p patience).perform s).2.engine := by
  rw [start_eq, Attempt.perform_bind, movesOfStart]
  rcases begin_cases s with ⟨begun, hbegin⟩ | ⟨_, _, -, -, -, hfail⟩
  · rw [hbegin]
    dsimp only
    have hbegun := proceeds_begin hs hbegin
    have hiterated := proceeds_iterate (p := p) hbegun.scheduled patience
    rw [Attempt.perform_bind]
    cases hiterate : (iterate p patience).perform begun with
    | mk answer last =>
        rw [hiterate] at hiterated
        cases answer <;> exact hbegun.trans hiterated
  · rw [hfail]
    exact hs.still rfl rfl rfl rfl

/-- Whatever is demanded. -/
theorem proceeds_comply (hs : s.engine.Scheduled) (demand : Demand α) :
    s.engine.Proceeds (s.movesOf p demand)
      ((comply p demand).perform s).2.engine := by
  cases demand with
  | request request =>
      cases request with
      | signal target message => exact Engine.proceeds_signal hs target message
      | start patience =>
          exact Attempt.bind_leaves (fun last : Session α σ ω μ τ ρ =>
              s.engine.Proceeds (s.movesOfStart p patience) last.engine)
            (proceeds_start hs patience) fun _ _ hlast => hlast
  | step => exact Engine.proceeds_work p hs

/-- Whatever is demanded, one thing after the other. -/
theorem proceeds_after (hs : s.engine.Scheduled) (demands : List (Demand α)) :
    s.engine.Proceeds (s.movesAfter p demands) (s.after p demands).engine := by
  induction demands generalizing s with
  | nil => exact hs.still rfl rfl rfl rfl
  | cons demand rest ih =>
      have hfirst := proceeds_comply (p := p) hs demand
      exact hfirst.trans (ih hfirst.scheduled)

/-- Between two iterations of a run the books are in order. -/
theorem scheduled_reaches {sizes : List Nat} (hs : s.engine.Scheduled)
    (h : Reaches p s sizes t) : t.engine.Scheduled := by
  obtain ⟨begun, hbegin, hrun⟩ := h
  have hbegun := (proceeds_begin hs hbegin).scheduled
  induction hrun with
  | rest => exact hbegun
  | advance _ _ _ hadvance ih =>
      have hmoved := (proceeds_advance (p := p) ih).scheduled
      rwa [hadvance] at hmoved

end Proceeds

end Session

/-! ## The books -/

/-- Moves that lead to a queue are fair.  Who joins the queue is taken exactly
once, or still waits; and as long as no new order is drawn, those who waited and
those who joined are taken in this order. -/
structure Fair (moves : List Move) (last : List Nat) : Prop where
  once : (arrivals [] moves).Perm (takenIn moves ++ last)
  inOrder : ∀ before between later, moves = before ++ between ++ later →
    Move.shuffled ∉ between → ∃ queue queue', Waits [] before queue ∧
      queue ++ arrivals queue between = takenIn between ++ queue' ∧
      Waits queue' later last

private theorem Waits.fair {moves : List Move} {last : List Nat}
    (h : Waits [] moves last) : Fair moves last where
  once := h.perm
  inOrder := by
    rintro before between later rfl hkept
    obtain ⟨queue', hfirst, hlater⟩ := h.split
    obtain ⟨queue, hbefore, hbetween⟩ := hfirst.split
    exact ⟨queue, queue', hbefore, hbetween.inOrder hkept, hlater⟩

variable {α σ ω μ τ ρ : Type} [Scalar α]

/-- The books of the scheduler are in order whatever is demanded of a session,
whatever the program, and whatever fails on the way.  Nobody waits in the queue
twice, exactly the active vertices wait there, and without a queue it stays
empty; this is so after all demands, and between any two iterations of one more
run.  What has happened to the queue is fair.  A signal that is refused leaves
the session as it is. -/
theorem scheduler_bookkeeping {mode : Mode} {g : Graph α}
    {vertices : Array (Vertex α)} {settings : Settings α} {fresh : σ}
    {pace : Nat → α} {p : Program α σ ω} {s t : Session α σ ω μ τ ρ}
    (hmake : s.engine = Engine.make mode g vertices settings fresh pace)
    {demands : List (Demand α)} (ht : s.after p demands = t) :
    t.engine.mode = mode ∧ t.engine.Orderly ∧
      (∀ sizes u, t.Reaches p sizes u → u.engine.Orderly) ∧
      (mode = .asynchronous → Fair (s.movesAfter p demands) t.engine.queue) ∧
      ∀ target message,
        (t.engine.Refuses target message ∧ ∃ cause,
          (Session.serve p (.signal target message)).perform t =
            (.error cause, t)) ∨
        (¬ t.engine.Refuses target message ∧ ∃ u,
          (Session.serve p (.signal target message)).perform t =
            (.ok (), u)) := by
  have hs : s.engine.Scheduled :=
    hmake ▸ Engine.scheduled_make mode g vertices settings fresh pace
  have hmode : s.engine.mode = mode := by rw [hmake]; rfl
  have hqueue : s.engine.queue = [] := by rw [hmake]; rfl
  have hafter := Session.proceeds_after (p := p) hs demands
  rw [ht] at hafter
  refine ⟨hafter.mode.trans hmode, hafter.scheduled.orderly, ?_, ?_, ?_⟩
  · exact fun _ _ hreaches =>
      (Session.scheduled_reaches hafter.scheduled hreaches).orderly
  · intro hasync
    have hwaits := hafter.waits (hmode.trans hasync)
    rw [hqueue] at hwaits
    exact hwaits.fair
  · intro target message
    rw [Session.serve, Session.perform_onEngine]
    rcases t.engine.signal_refused target message with
      ⟨hrefused, cause, hfail⟩ | ⟨hsent, e', hdone⟩
    · rw [hfail]
      exact .inl ⟨hrefused, cause, rfl⟩
    · rw [hdone]
      exact .inr ⟨hsent, _, rfl⟩

/-- A column of the sample is sent a message of the wrong length, and a row is
woken.  Then two signals are refused: nobody has the first address, and the
second comes with a message of another length.  A step fails, as the column
cannot apply what it was sent; another one goes through, and a run gives up
after one iteration. -/
def sampleDemands : List (Demand Int) :=
  [.request (.signal (.place 3) (some ⟨[1, 1, 1], 1⟩)),
    .request (.signal (.place 0) none),
    .request (.signal (.id 99) none),
    .request (.signal (.id 10) (some ⟨[1, 1], 1⟩)),
    .step, .step, .request (.start 1)]

/-- What happens to the queue of the sample. -/
def sampleMoves : List Move :=
  [.sent 3, .sent 0, .took 3, .took 0, .sent 3, .sent 3, .took 3, .sent 0,
    .sent 1]

/-- The books of the sample are in order after these demands. -/
theorem scheduler_bookkeeping_sample :
    ∃ t : Session Int (Descent.Slot Int) Empty Unit Unit Unit,
      (restingSession .asynchronous).after Descent.program sampleDemands = t ∧
        t.engine.Orderly ∧ t.engine.queue = [0, 1] ∧
        (restingSession .asynchronous).movesAfter Descent.program
          sampleDemands = sampleMoves ∧
        Fair sampleMoves [0, 1] := by
  have hmake : (restingSession .asynchronous).engine =
      Engine.make .asynchronous sampleGraph sampleVertices sampleSettings none
        fun _ => 1 := rfl
  have hqueue : ((restingSession .asynchronous).after Descent.program
      sampleDemands).engine.queue = [0, 1] := by decide +kernel
  have hmoves : (restingSession .asynchronous).movesAfter Descent.program
      sampleDemands = sampleMoves := by decide +kernel
  have hafter : (restingSession .asynchronous).after Descent.program
      sampleDemands = _ := rfl
  obtain ⟨-, horderly, -, hfair, -⟩ := scheduler_bookkeeping hmake hafter
  rw [hqueue, hmoves] at hfair
  exact ⟨_, rfl, horderly, hqueue, hmoves, hfair rfl⟩

end RatingFactors
