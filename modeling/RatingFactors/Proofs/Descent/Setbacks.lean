import RatingFactors.Proofs.Descent.Faults
import RatingFactors.Proofs.Engine.Histories

/-!
# Failures and what comes after them

A round or an activation that fails leaves the model as it was.  Learning can go
on from there, with signals from outside, further iterations and further
failures in any order, and still every update that an engine has counted is one
that some vertex has counted.

## Main definitions

* `Engine.Booked` — one cell for each vertex, and the books in order.
* `Engine.History` — what can become of an engine.
* `Descent.Dropped` — what an activation has done that failed.

## Main results

* `booked_of_work` — iterations keep the books, whatever becomes of them.
* `Session.history_serve` — requests lead through histories.
* `surplus_of_history` — no update is lost in a history.
* `failures_keep_model` — what failures leave.
-/

namespace RatingFactors

/-! ## Histories -/

namespace Engine

variable {α σ ω : Type} [Scalar α]

/-- There is one cell for each vertex, and the books of the scheduler are in
order. -/
structure Booked (e : Engine α σ ω) : Prop where
  sized : e.Sized
  orderly : e.Orderly

/-- What can become of an engine: iterations and signals from outside, whether
they go through or not.  In between settings may change, something may be noted
down, iterations may be counted, time may pass, and the queue may be put into
another order. -/
inductive History (p : Program α σ ω) (first : Engine α σ ω) :
    Engine α σ ω → Prop
  | rest : History p first first
  | work {e : Engine α σ ω} : History p first e →
      History p first ((Engine.work p e.mode).perform e).2
  | signal {e : Engine α σ ω} (target : Address)
      (message : Option (Step α)) : History p first e →
      History p first ((Engine.signal target message).perform e).2
  | pause {e : Engine α σ ω} (settings : Settings α)
      (notes : Array (Note ω)) (iteration : Nat) (now startedAt : α)
      {queue : List Nat} : queue.Perm e.queue → History p first e →
      History p first
        { e with settings, notes, iteration, now, startedAt, queue }

section Booked

variable {p : Program α σ ω} {e : Engine α σ ω}

omit [Scalar α] in
theorem Booked.frame (h : e.Booked) {settings : Settings α}
    {notes : Array (Note ω)} {iteration updates : Nat} {now startedAt : α}
    {queue : List Nat} (hqueue : queue.Perm e.queue) : Booked { e with
      settings, notes, iteration, updates, now, startedAt, queue } :=
  ⟨⟨h.sized.vertices, h.sized.slots, h.sized.inboxes⟩,
    h.orderly.frame rfl rfl hqueue⟩

omit [Scalar α] in
theorem Booked.cleared (h : e.Booked) : e.cleared.Booked :=
  ⟨h.sized.cleared, h.orderly.cleared⟩

private theorem booked_signal (target : Address) (message : Option (Step α)) :
    Safe Booked (signal target message : Attempt (Engine α σ ω) Unit) := by
  intro e he
  rcases signal_cases e target message with ⟨cause, hfail⟩ |
    ⟨place, hplace, hsignal⟩
  · rw [hfail]
    exact he
  · rw [hsignal]
    exact ⟨⟨he.sized.vertices, he.sized.slots,
      Array.size_setIfInBounds.trans he.sized.inboxes⟩,
      he.orderly.posted (he.sized.inboxes ▸ hplace)⟩

/-- Whatever a program replies keeps the books. -/
theorem booked_heed {β : Type} (place : Nat) (reply : Reply α σ ω β) :
    Safe Booked (heed place reply) := by
  refine safe_heed fun action _ => ?_
  cases action with
  | signal target message => exact booked_signal target message
  | store vertex =>
      exact fun e he => ⟨⟨Array.size_setIfInBounds.trans he.sized.vertices,
        he.sized.slots, he.sized.inboxes⟩, he.orderly.frame rfl rfl (.refl _)⟩
  | keep slot =>
      exact fun e he => ⟨⟨he.sized.vertices,
        Array.size_setIfInBounds.trans he.sized.slots, he.sized.inboxes⟩,
        he.orderly.frame rfl rfl (.refl _)⟩
  | note content => exact fun e he => he.frame (.refl _)

/-- So does an iteration, whatever becomes of it. -/
theorem booked_of_work (p : Program α σ ω) (h : e.Booked) :
    ((work p e.mode).perform e).2.Booked := by
  have hkeeps : Keeps p (Booked : Engine α σ ω → Prop) :=
    ⟨booked_signal, fun _ place _ _ => booked_heed place _,
      fun _ place _ _ => booked_heed place _,
      fun _ place _ _ => booked_heed place _⟩
  rw [work_leaves]
  refine hkeeps.phases (fun place total => ?_) e.inbox e.order e.cleared
    h.cleared
  unfold applyAt
  exact safe_get.bind fun _ => (booked_heed place _).bind fun _ _ he =>
    he.frame (.refl _)

/-- And so does a history. -/
theorem History.booked {first : Engine α σ ω} (h : History p first e)
    (hfirst : first.Booked) : e.Booked := by
  induction h with
  | rest => exact hfirst
  | work _ ih => exact booked_of_work p ih
  | signal target message _ ih => exact booked_signal target message _ ih
  | pause settings notes iteration now startedAt hqueue _ ih =>
      exact ih.frame hqueue

end Booked

end Engine

/-! ## What sessions do to their engine -/

namespace Session

open Engine (History)

variable {α σ ω μ τ ρ : Type} [Scalar α] {p : Program α σ ω}
  {first : Engine α σ ω}

private theorem history_reported {s t : Session α σ ω μ τ ρ}
    (h : s.Reported t) (hs : History p first s.engine) :
    History p first t.engine := by
  rw [h.engine]
  exact hs.pause _ _ _ _ _ (.refl _)

private theorem history_advance : Attempt.Safe
    (fun s : Session α σ ω μ τ ρ => History p first s.engine) (advance p) := by
  intro s hs
  cases hrun : (advance p).perform s with
  | mk answer t =>
      have hwork := hs.work
      rcases advance_cases hrun with ⟨cause, engine, hfail, -, rfl⟩ |
        ⟨engine, hok, hreported⟩
      · rw [hfail] at hwork
        exact hwork
      · rw [hok] at hwork
        exact history_reported hreported (hwork.pause _ _ _ _ _ (.refl _))

/-- Whatever is asked of a session, and whatever becomes of it, its engine goes
through a history. -/
theorem history_serve (request : Request α) : Attempt.Safe
    (fun s : Session α σ ω μ τ ρ => History p first s.engine)
    (serve p request) := by
  cases request with
  | signal target message => exact fun s hs => hs.signal target message
  | start patience =>
      refine (safe_start_of (fun s notes hs => hs.pause _ _ _ _ _ (.refl _))
        history_advance (fun s order hs horder => ?_) patience).bind
        fun _ => Attempt.safe_pure ()
      have hbegun := hs.pause s.engine.settings s.engine.notes
        s.engine.iteration s.engine.now s.engine.now horder
      exact hbegun

end Session

/-! ## Updates are counted -/

namespace Descent

variable {α ω : Type} [Scalar α]

/-- How many updates more the engine has counted than its vertices. -/
def surplus (e : Engine α (Slot α) ω) : Int :=
  e.updates - sumCounts e.graph.size (count e)

section Surplus

variable {e e' : Engine α (Slot α) ω}

/-- It depends on nothing but what is learned. -/
theorem surplus_congr (h : e'.learned = e.learned) :
    surplus e' = surplus e := by
  obtain ⟨hgraph, h⟩ := Prod.mk.inj h
  obtain ⟨hvertices, hupdates⟩ := Prod.mk.inj h
  have hcount : count e' = count e := by
    funext v
    rw [count, count, Scene.vertex, Scene.vertex,
      show e'.scene.vertices = e.scene.vertices from hvertices]
  rw [surplus, surplus, hgraph, hupdates, hcount]

private theorem Counted.surplus_eq {done : List Nat} (h : Counted e done e')
    (hnodup : done.Nodup) (hlt : ∀ v ∈ done, v < e.graph.size) :
    surplus e' = surplus e := by
  rw [surplus, surplus, h.graph, h.updates, funext h.count,
    sumCounts_add hnodup hlt]
  omega

/-- No iteration counts an update that no vertex counts, or leaves one out. -/
theorem surplus_of_work (h : e.Booked) :
    surplus ((Engine.work program e.mode).perform e).2 = surplus e := by
  obtain ⟨done, hdone, hcounted⟩ := counted_of_work h.sized h.orderly
  exact hcounted.surplus_eq
    (h.orderly.nodup_order.sublist hdone.sublist)
    fun v hv => h.sized.lt_of_mem_order h.orderly v (hdone.subset hv)

/-- Neither does a history. -/
theorem surplus_of_history (h : Engine.History program e e')
    (hbooked : e.Booked) : e'.graph = e.graph ∧ surplus e' = surplus e := by
  induction h with
  | rest => exact ⟨rfl, rfl⟩
  | @work t ht ih =>
      have hgraph := Engine.frame_work Engine.graph
        (fun _ _ _ _ _ _ _ => rfl) program t
      exact ⟨hgraph.trans ih.1,
        (surplus_of_work (ht.booked hbooked)).trans ih.2⟩
  | @signal t target message ht ih =>
      have hkept : Engine.Safe
          (fun u : Engine α (Slot α) ω => u.learned = t.learned)
          (Engine.signal target message) :=
        Engine.safe_signal (fun _ _ _ hu => hu) target message
      have hlearned := hkept t rfl
      exact ⟨(congrArg Prod.fst hlearned).trans ih.1,
        (surplus_congr hlearned).trans ih.2⟩
  | @pause t settings notes iteration now startedAt queue hqueue ht ih =>
      exact ⟨ih.1, (surplus_congr rfl).trans ih.2⟩

end Surplus

/-! ## Activations that fail -/

/-- What an activation has done that failed.  Its vertex has left the queue, and
the others wait as they did.  What the vertex has posted over the first of its
training edges has been put into their inboxes, and whoever was idle has been
put at the end of the queue. -/
structure Dropped (e : Engine α (Slot α) ω) (v : Nat) (done : List Nat)
    (n : Nat) (cause : Failure) (e' : Engine α (Slot α) ω) : Prop where
  stumbles : Stumbles e.scene v (e.graph.trainingAt v) done n cause
  frame : e' = { e with
    inboxes := e'.inboxes, queue := e'.queue, notes := e'.notes }
  queue : ∃ rest fresh, e.queue = v :: rest ∧ e'.queue = rest ++ fresh ∧
    fresh.Nodup ∧ ∀ w, w ∈ fresh ↔ ¬ Awake e w ∧ ∃ m ∈ done,
      reaches e.graph e.settings e.scene.vertex v m = true ∧
        across e.graph v m = w
  idle : e'.inbox v = .idle
  inbox : ∀ w, w ≠ v → e'.inbox w = (((done.filter fun m =>
      across e.graph v m = w ∧
        reaches e.graph e.settings e.scene.vertex v m).map
    (sentStep e.graph e.settings e.scene.vertex v)).map some).foldl
      Inbox.put (e.inbox w)

section Activations

variable {e e' : Engine α (Slot α) ω} {size : Nat} {cause : Failure}

/-- An activation that fails has dropped its vertex. -/
theorem dropped_of_activateNext (h : Poised size e) (horderly : e.Orderly)
    (hmode : e.mode = .asynchronous) {v : Nat} {rest : List Nat}
    (hqueue : e.queue = v :: rest)
    (hactivate : (Engine.activateNext program).perform e =
      (.error cause, e')) :
    ∃ done n, Dropped e v done n cause e' := by
  obtain ⟨k, hbroken⟩ :=
    broken_of_activateNext h horderly hmode hqueue hactivate
  obtain ⟨-, rfl, notes, hafter⟩ := hbroken.single (h.sized.taken v rest)
  have hv : k.place < e.inboxes.size :=
    horderly.lt_of_mem_queue hmode (hqueue ▸ List.mem_cons_self)
  have hplace : k.place < e.graph.size := h.sized.inboxes ▸ hv
  have hstumbles : Stumbles e.scene k.place (e.graph.trainingAt k.place)
    k.done k.edge cause := hbroken.stumbles
  have hrow : ¬ e.graph.IsColumn k.place := hstumbles.row
  have htrain : ∀ m ∈ k.done, m ∈ e.graph.trainingAt k.place :=
    fun m hm => hstumbles.mem_train hm
  have hlt : ∀ post ∈ postsOver e.graph e.settings e.scene.vertex k.place
      k.done, post.1 < (e.taken k.place rest).inboxes.size := by
    rw [(h.sized.taken k.place rest).inboxes]
    exact postsOver_lt h.bipartite.toFaithful hplace htrain
  have hself : ∀ w, w ∈ (postsOver e.graph e.settings e.scene.vertex k.place
      k.done).map Prod.fst → w ≠ k.place := by
    intro w hw
    obtain ⟨-, m, hm, -, rfl⟩ := mem_targets_postsOver.mp hw
    exact across_ne h.bipartite hplace (htrain m hm)
  have hinbox : ∀ w, e'.inbox w = (Engine.postsTo w (postsOver e.graph
      e.settings e.scene.vertex k.place k.done)).foldl Inbox.put
        ((e.taken k.place rest).inbox w) := by
    intro w
    rw [hafter]
    exact Engine.inbox_postAll hlt w
  obtain ⟨fresh, hfresh, hnodup, hmem⟩ :=
    (horderly.taken hmode hqueue).queue_postAll hmode hlt
  refine ⟨k.done, k.edge, hstumbles, ?_, ⟨rest, fresh, hqueue, ?_, hnodup,
    fun w => ?_⟩, ?_, fun w hw => ?_⟩
  · rw [hafter]
    conv => lhs; rw [Engine.postAll_eq]
    rfl
  · rw [hafter]
    exact hfresh
  · rw [hmem, Engine.inbox_taken hv]
    constructor
    · rintro ⟨hidle, hposted⟩
      rw [if_neg (hself w hposted)] at hidle
      exact ⟨hidle, (mem_targets_postsOver.mp hposted).2⟩
    · rintro ⟨hidle, hends⟩
      have hposted := mem_targets_postsOver.mpr ⟨hrow, hends⟩
      rw [if_neg (hself w hposted)]
      exact ⟨hidle, hposted⟩
  · have hnone := Engine.postsTo_eq_nil_iff.mpr
      fun hposted => hself k.place hposted rfl
    rw [hinbox, hnone, Engine.inbox_taken hv, if_pos rfl]
    rfl
  · rw [hinbox, Engine.inbox_taken hv, if_neg hw, postsOver, if_neg hrow,
      postsTo_map_filter]

end Activations

/-! ## What failures leave -/

/-- Learning over a bipartite graph where all lengths match and only columns
keep steps in their slots, whatever the states, inboxes and slots are.  A round
that fails has changed inboxes, slots and notes, and nothing that is learned: it
is broken off while rows gather.  So is an activation, and it has changed no
slot either; or nobody was waiting and nothing has changed at all.  Whatever
becomes of a round or an activation, the same can be said of the engine after
it.  In a history of rounds, activations and signals, failing or not, the engine
counts as many updates as its vertices.  Sessions lead their engine through such
histories, and where a round or an activation fails they do nothing else. -/
theorem failures_keep_model {μ τ ρ : Type} {size : Nat}
    {e : Engine α (Slot α) ω} (h : Poised size e) (horderly : e.Orderly) :
    (e.mode = .synchronous → ∀ cause e',
      (Engine.round program).perform e = (.error cause, e') →
      e' = { e with
        inboxes := e'.inboxes, slots := e'.slots, notes := e'.notes } ∧
      ∃ k, BrokenOff e.emptied e.inbox e.active k cause e') ∧
    (e.mode = .asynchronous → ∀ cause e',
      (Engine.activateNext program).perform e = (.error cause, e') →
      (e.queue = [] ∧ cause = .emptyQueue ∧ e' = e) ∨
        ∃ v done n, Dropped e v done n cause e') ∧
    (Poised size ((Engine.work program e.mode).perform e).2 ∧
      ((Engine.work program e.mode).perform e).2.Orderly) ∧
    (∀ e', Engine.History program e e' →
      (e'.updates : Int) - e.updates = sumCounts e.graph.size (count e') -
        sumCounts e.graph.size (count e)) ∧
    ∀ s : Session α (Slot α) ω μ τ ρ, s.engine = e →
      (∀ cause e',
        (Engine.work program e.mode).perform e = (.error cause, e') →
        (Session.advance program).perform s =
          (.error cause, { s with engine := e' })) ∧
      ∀ requests : List (Request α), Engine.History program e
        (requests.foldl (fun t request =>
          ((Session.serve program request).perform t).2) s).engine := by
  have hbooked : e.Booked := ⟨h.sized, horderly⟩
  refine ⟨fun hmode cause e' hround => ?_, fun hmode cause e' hactivate => ?_,
    ⟨poised_of_work h horderly, (Engine.booked_of_work _ hbooked).orderly⟩,
    fun e' hhistory => ?_, ?_⟩
  · obtain ⟨k, hbroken⟩ := broken_of_round h hround
    have hqueue : e'.queue = e.queue := by
      rw [hbroken.queue_eq]
      exact @Engine.queue_postAll_of_synchronous α _ ω _ e.emptied hmode _
    have hframe := hbroken.eq_frame
    rw [hqueue] at hframe
    exact ⟨hframe, k, hbroken⟩
  · cases hqueue : e.queue with
    | nil =>
        rw [Engine.activateNext, Attempt.perform_get_bind, hqueue] at hactivate
        obtain ⟨hcause, rfl⟩ := Prod.mk.inj hactivate
        exact .inl ⟨rfl, (Except.error.inj hcause).symm, rfl⟩
    | cons v rest =>
        exact .inr ⟨v,
          dropped_of_activateNext h horderly hmode hqueue hactivate⟩
  · obtain ⟨hgraph, hsurplus⟩ := surplus_of_history hhistory hbooked
    rw [surplus, surplus, hgraph] at hsurplus
    omega
  · rintro s rfl
    refine ⟨fun cause e' hwork => ?_, fun requests => ?_⟩
    · rw [Session.perform_advance, hwork]
    · have hserved : ∀ (requests : List (Request α))
          (t : Session α (Slot α) ω μ τ ρ),
          Engine.History program s.engine t.engine →
          Engine.History program s.engine (requests.foldl (fun t request =>
            ((Session.serve program request).perform t).2) t).engine := by
        intro requests
        induction requests with
        | nil => exact fun _ ht => ht
        | cons request rest ih =>
            exact fun t ht => ih _ (Session.history_serve request t ht)
      exact hserved requests s .rest

/-- Three ratings, of which the second is no number. -/
def blurredGraph : Graph Float where
  ids := #[1, 2, 10, 11]
  edges := #[⟨0, 2, 4.0, .train⟩, ⟨0, 3, 0.0 / 0.0, .train⟩,
    ⟨1, 2, 3.0, .train⟩]
  incoming := #[[], [], [0, 2], [1]]
  outgoing := #[[0, 1], [2], [], []]
  dimension := 1

private theorem blurredGraph_bipartite : blurredGraph.Bipartite where
  source_lt := by decide
  target_lt := by decide
  edgesInto_eq := by decide
  edgesOutOf_eq := by decide
  placeOf_idAt := fun _ hv =>
    Graph.placeOf_idAt_of_pairwise (by decide) hv
  source_ne_target := by decide
  known := by decide

def blurredVertices : Array (Vertex Float) :=
  Array.replicate 4 ⟨[1.0], 0.0, 0⟩

def blurredSettings : Settings Float where
  dimension := 1
  regularization := 0.0
  rate := 1.0
  rateDecay := 1.0
  lowest := 0.0
  highest := 5.0
  budget := some 2
  globalMean := 3.0
  interval := 0.0
  reportEvery := 1
  debug := false

/-- An engine over these ratings, with its rows woken. -/
def blurredEngine (mode : Mode) : Engine Float (Slot Float) Empty :=
  (Trainer.wakeRows.perform (Engine.make mode blurredGraph blurredVertices
    blurredSettings none fun _ => 1.0)).2

private theorem intact_blurredEngine (mode : Mode) :
    Intact blurredGraph 1 (blurredEngine mode) := by
  have hlatent : ∀ v (hv : v < blurredVertices.size),
      blurredVertices[v].latent.length = 1 := by decide
  obtain ⟨e, hwake⟩ := exists_wakeRows_make (ω := Empty)
    blurredGraph_bipartite (rfl : blurredVertices.size = blurredGraph.size)
    (rfl : blurredSettings.dimension = (1 : Nat)) hlatent mode fun _ => 1.0
  have he : blurredEngine mode = e := congrArg Prod.snd hwake
  rw [he]
  exact intact_of_wakeRows blurredGraph_bipartite rfl rfl hlatent hwake

/-- A round over these ratings fails, and so does an activation. -/
theorem failures_keep_model_sample :
    (∃ e', (Engine.round program).perform (blurredEngine .synchronous) =
        (.error (.nanResidual 1 11), e') ∧
      e' = { blurredEngine .synchronous with
        inboxes := e'.inboxes, slots := e'.slots, notes := e'.notes }) ∧
    ∃ e', (Engine.activateNext program).perform
        (blurredEngine .asynchronous) = (.error (.nanResidual 1 11), e') ∧
      ∃ v done n, Dropped (blurredEngine .asynchronous) v done n
        (.nanResidual 1 11) e' := by
  have hmode : ∀ mode, (blurredEngine mode).mode = mode := by
    intro mode
    cases mode <;> rfl
  have hsync := intact_blurredEngine .synchronous
  have hasync := intact_blurredEngine .asynchronous
  have hround : ((Engine.round program).perform
      (blurredEngine .synchronous)).1 = .error (.nanResidual 1 11) := by
    decide +kernel
  have hactivate : ((Engine.activateNext program).perform
      (blurredEngine .asynchronous)).1 = .error (.nanResidual 1 11) := by
    decide +kernel
  obtain ⟨reached, hround⟩ : ∃ e', (Engine.round program).perform
      (blurredEngine .synchronous) = (.error (.nanResidual 1 11), e') :=
    ⟨_, Attempt.perform_of_answer hround⟩
  obtain ⟨left, hactivate⟩ : ∃ e', (Engine.activateNext program).perform
      (blurredEngine .asynchronous) = (.error (.nanResidual 1 11), e') :=
    ⟨_, Attempt.perform_of_answer hactivate⟩
  obtain ⟨hframe, -⟩ := (failures_keep_model (μ := Unit) (τ := Unit)
    (ρ := Unit) hsync.sound.poised hsync.orderly).1 (hmode _) _ _ hround
  have hleft := (failures_keep_model (μ := Unit) (τ := Unit) (ρ := Unit)
    hasync.sound.poised hasync.orderly).2.1 (hmode _) _ _ hactivate
  refine ⟨⟨reached, hround, hframe⟩, left, hactivate, hleft.resolve_left ?_⟩
  rintro ⟨-, hcause, -⟩
  cases hcause

end Descent

end RatingFactors
