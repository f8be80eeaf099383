import RatingFactors.Proofs.Engine.Traced

/-!
# Blocks of signals

For each vertex the events of a history fall into blocks: when the vertex is
active it answers all signals of one block together, by one activation that
takes in the sum of their messages, and what is sent to it from then on belongs
to the next block.  What waits for it is what the open block holds.

## Main definitions

* `Delivered` — blocks of events, each answered by one activation.
* `Engine.Accounted` — the invariant: all events so far fall into such blocks.

## Main results

* `Engine.Accounted.logged` — signals from outside go to the open blocks.
* `Engine.Accounted.turn` — a turn closes the blocks of its vertices.
-/

namespace RatingFactors

variable {α σ ω : Type} [Scalar α]

/-! ## What waits -/

/-- The sum of messages, added up from the left, if there are any. -/
def combined : List (Step α) → Except Failure (Option (Step α))
  | [] => .ok none
  | m :: rest => (rest.foldlM Step.add m).map some

namespace Inbox

/-- An inbox that has received signals holds the sum of their messages. -/
theorem combined_of_received {signals : List (Option (Step α))}
    {b b' : Inbox α} (h : signals.foldlM receive b = .ok b') :
    combined (b.message?.toList ++ signals.filterMap id) =
      .ok b'.message? := by
  induction signals generalizing b with
  | nil =>
      obtain rfl : b = b' := Except.ok.inj h
      cases b <;> rfl
  | cons signal rest ih =>
      rw [List.foldlM_cons] at h
      cases hreceive : b.receive signal with
      | error cause =>
          rw [hreceive] at h
          cases h
      | ok next =>
          rw [hreceive] at h
          rw [← ih h]
          cases b with
          | idle =>
              cases signal <;> (cases hreceive; rfl)
          | awake =>
              cases signal <;> (cases hreceive; rfl)
          | holds waiting =>
              cases signal with
              | none => cases hreceive; rfl
              | some m =>
                  cases hadd : waiting.add m with
                  | error cause => simp [receive, hadd, Except.map] at hreceive
                  | ok total =>
                      have hnext : next = holds total := by
                        simpa [receive, hadd, Except.map] using hreceive.symm
                      subst hnext
                      simp [message?, combined, hadd, bind, Except.bind]

private theorem eq_foldl_put_of_received {signals : List (Option (Step α))}
    {b b' : Inbox α} (h : signals.foldlM receive b = .ok b') :
    b' = signals.foldl put b := by
  induction signals generalizing b with
  | nil => exact (Except.ok.inj h).symm
  | cons signal rest ih =>
      rw [List.foldlM_cons] at h
      cases hreceive : b.receive signal with
      | error cause =>
          rw [hreceive] at h
          cases h
      | ok next =>
          rw [hreceive] at h
          rw [List.foldl_cons, ← eq_put_of_receive hreceive]
          exact ih h

/-- An inbox is active once it has received a signal. -/
theorem isActive_of_received {signals : List (Option (Step α))}
    {b : Inbox α} (h : signals.foldlM receive idle = .ok b) :
    b.isActive = true ↔ signals ≠ [] := by
  rw [eq_foldl_put_of_received h, isActive_foldl_put]
  simp [isActive]

end Inbox

/-! ## Blocks -/

/-- The events of a history, as one vertex sees them: blocks, and then the
events since its last activation.  It did nothing in the first block.  In each
block it was signalled, and what it did in the events that follow is one
activation, which takes in the sum of the messages of the block. -/
inductive Delivered (g : Graph α) (v : Nat) :
    List (List (Event α)) → List (Event α) → Prop
  | first {tail : List (Event α)} :
      phasesOf v tail = [] → Delivered g v [] tail
  | next {blocks : List (List (Event α))} {block tail : List (Event α)}
      {message : Option (Step α)} :
      Delivered g v blocks block → signalsTo g v block ≠ [] →
      combined ((signalsTo g v block).filterMap id) = .ok message →
      Engine.Response message (phasesOf v tail) →
      Delivered g v (blocks ++ [block]) tail

/-- Events in which the vertex does nothing belong to the block that is
open. -/
theorem Delivered.extend {g : Graph α} {v : Nat}
    {blocks : List (List (Event α))} {tail more : List (Event α)}
    (h : Delivered g v blocks tail) (hmore : phasesOf v more = []) :
    Delivered g v blocks (tail ++ more) := by
  have hsame : phasesOf v (tail ++ more) = phasesOf v tail := by
    rw [phasesOf_append, hmore, List.append_nil]
  cases h with
  | first hquiet => exact .first (hsame.trans hquiet)
  | next hblocks hsignals hmessage hresponse =>
      exact .next hblocks hsignals hmessage (hsame ▸ hresponse)

/-- Does the phase apply a total? -/
def Phase.isApply : Phase α → Bool
  | .applied _ => true
  | _ => false

omit [Scalar α] in
theorem Engine.Response.countP_isApply {message : Option (Step α)}
    {phases : List (Phase α)} (h : Engine.Response message phases) :
    phases.countP Phase.isApply = 1 := by
  obtain ⟨numbers, total, others, rfl⟩ := h
  simp [List.countP_append, List.countP_cons, List.countP_map,
    Function.comp_def, Phase.isApply]

/-- A vertex has applied as many totals as it has answered blocks. -/
theorem Delivered.countP_isApply {g : Graph α} {v : Nat}
    {blocks : List (List (Event α))} {tail : List (Event α)}
    (h : Delivered g v blocks tail) :
    (phasesOf v (blocks.flatten ++ tail)).countP Phase.isApply =
      blocks.length := by
  induction h with
  | first hquiet =>
      rw [List.flatten_nil, List.nil_append, hquiet]
      rfl
  | next _ _ _ hresponse ih =>
      rw [List.flatten_append, List.flatten_singleton, phasesOf_append,
        List.countP_append, ih, hresponse.countP_isApply, List.length_append]
      rfl

namespace Engine

/-- All events so far are accounted for: for each vertex they fall into
answered blocks and a tail, and what waits is what the tail has left. -/
structure Accounted (g : Graph α) (e : Engine α σ ω) (log : List (Event α)) :
    Prop where
  graph : e.graph = g
  boxed : e.Boxed
  orderly : e.Orderly
  delivered : ∀ v, ∃ blocks tail, log = blocks.flatten ++ tail ∧
    Delivered g v blocks tail ∧
    (signalsTo g v tail).foldlM Inbox.receive .idle = .ok (e.inbox v)

/-- Nothing has happened, and nothing waits. -/
theorem accounted_make (mode : Mode) (g : Graph α)
    (vertices : Array (Vertex α)) (settings : Settings α) (fresh : σ)
    (pace : Nat → α) :
    Accounted g (make mode g vertices settings fresh pace : Engine α σ ω)
      [] where
  graph := rfl
  boxed := Array.size_replicate
  orderly := orderly_make
  delivered := by
    intro v
    refine ⟨[], [], rfl, .first rfl, ?_⟩
    rw [inbox_make]
    rfl

variable {g : Graph α} {e e' : Engine α σ ω} {log more : List (Event α)}

/-- Signals from outside add to what waits. -/
theorem Accounted.logged (h : Accounted g e log) (hlogged : e.Logged e' more)
    (hquiet : ∀ v, phasesOf v more = []) :
    Accounted g e' (log ++ more) where
  graph := hlogged.graph.trans h.graph
  boxed := hlogged.boxed h.boxed
  orderly := hlogged.orderly h.orderly
  delivered := by
    intro v
    obtain ⟨blocks, tail, rfl, hdelivered, hwaiting⟩ := h.delivered v
    refine ⟨blocks, tail ++ more, List.append_assoc .., ?_, ?_⟩
    · exact hdelivered.extend (hquiet v)
    · rw [signalsTo_append, List.foldlM_append, hwaiting, ← h.graph]
      exact hlogged.inbox v

/-- A turn closes the blocks of its vertices and answers them; everybody else's
stay open. -/
theorem Accounted.turn {work : Attempt (Engine α σ (Event α)) Unit}
    {order : List Nat} (h : Accounted g e log)
    (hturn : TracedTurn work e order e' more) :
    Accounted g e' (log ++ more) where
  graph := hturn.graph.trans h.graph
  boxed := hturn.boxed
  orderly := hturn.orderly
  delivered := by
    intro v
    obtain ⟨blocks, tail, rfl, hdelivered, hwaiting⟩ := h.delivered v
    have hinbox := hturn.inbox v
    rw [h.graph] at hinbox
    by_cases hv : v ∈ order
    · rw [if_pos hv] at hinbox
      have hsignals := (Inbox.isActive_of_received hwaiting).mp
        (hturn.active v hv)
      refine ⟨blocks ++ [tail], more, ?_, ?_, hinbox⟩
      · rw [List.flatten_append, List.flatten_singleton]
      · exact .next hdelivered hsignals (Inbox.combined_of_received hwaiting)
          (hturn.response v hv)
    · rw [if_neg hv] at hinbox
      refine ⟨blocks, tail ++ more, List.append_assoc .., ?_, ?_⟩
      · exact hdelivered.extend (hturn.quiet v hv)
      · rw [signalsTo_append, List.foldlM_append, hwaiting]
        exact hinbox

/-- The clock, the settings and the order of the queue do not matter. -/
theorem Accounted.frame (h : Accounted g e log) (hmode : e'.mode = e.mode)
    (hgraph : e'.graph = e.graph) (hinboxes : e'.inboxes = e.inboxes)
    (hqueue : e'.queue.Perm e.queue) : Accounted g e' log where
  graph := hgraph.trans h.graph
  boxed := by
    rw [Boxed, hinboxes, hgraph]
    exact h.boxed
  orderly := h.orderly.frame hmode hinboxes hqueue
  delivered := by
    intro v
    rw [Engine.inbox, hinboxes]
    exact h.delivered v

end Engine

end RatingFactors
