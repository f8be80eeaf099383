import RatingFactors.Proofs.Descent.Iterations
import RatingFactors.Proofs.Descent.Success

/-!
# Turns that are broken off

When lengths match, a turn fails only where a row stumbles over a residual that
is no number.  That happens while it gathers, and gathering comes before
everything that changes the model.  What is left of such a turn are the steps
that columns had taken in and the messages that rows had posted.

## Main definitions

* `Stumble` — where a turn is broken off.
* `BrokenOff` — what a turn has done that was.

## Main results

* `phases_cases` — the phases of a turn go through or are broken off.
* `BrokenOff.eq_frame` — the model is as it was before.
* `poised_of_work` — learning can go on from there.
-/

namespace RatingFactors

namespace Descent

open Engine (Post)

variable {α ω : Type} [Scalar α]

/-- Where a turn is broken off: the vertices that have gathered, the one that
stumbles, the training edges that it has gone over, and the one that it stumbles
at. -/
structure Stumble where
  seen : List Nat
  place : Nat
  done : List Nat
  edge : Nat

/-- What has been posted by then. -/
def Stumble.posts (k : Stumble) (g : Graph α) (s : Settings α)
    (look : Nat → Vertex α) : List (Post α) :=
  k.seen.flatMap (gatherPosts g s look) ++ postsOver g s look k.place k.done

/-- What a turn has done that is broken off.  `before`, `waiting` and `order`
are as in `Turn`. -/
structure BrokenOff (before : Engine α (Slot α) ω) (waiting : Nat → Inbox α)
    (order : List Nat) (k : Stumble) (cause : Failure)
    (after : Engine α (Slot α) ω) : Prop where
  order_eq : ∃ later, order = k.seen ++ k.place :: later
  numeric : ∀ v ∈ k.seen, Numeric before.scene v
  stumbles : Stumbles before.scene k.place (before.graph.trainingAt k.place)
    k.done k.edge cause
  eq : after = (before.postAll (k.posts before.graph before.settings
      before.scene.vertex)).rewritten before.vertices after.slots
    before.updates after.notes
  slots_size : after.slots.size = before.graph.size
  slot_mem : ∀ v ∈ order, after.slots.getD v none =
    slotAfterInit before.graph v (waiting v) (before.slots.getD v none)
  slot_not_mem : ∀ v, v ∉ order →
    after.slots.getD v none = before.slots.getD v none

section Phases

variable {before after : Engine α (Slot α) ω} {waiting : Nat → Inbox α}
  {order : List Nat} {size : Nat}

/-- Gathering over a turn goes through, or it is broken off. -/
theorem collect_gatherAt_cases {scene : Scene α} (hf : Fitting size scene)
    (hlt : ∀ v ∈ order, v < scene.graph.size)
    (hshows : Shows size scene before) :
    (∃ totals gathered,
      (Attempt.collect order (Engine.gatherAt program)).perform before =
        (.ok totals, gathered)) ∨
      ∃ (k : Stumble) (cause : Failure) (notes : Array (Note ω)),
        (Attempt.collect order (Engine.gatherAt program)).perform before =
          (.error cause, (before.postAll (k.posts scene.graph scene.settings
            scene.vertex)).noted notes) ∧
        (∃ later, order = k.seen ++ k.place :: later) ∧
        (∀ v ∈ k.seen, Numeric scene v) ∧
        Stumbles scene k.place (scene.graph.trainingAt k.place) k.done k.edge
          cause := by
  have hg := hf.bipartite.toFaithful
  -- The vertices so far have posted what they gather, and nothing else.
  have hcases := @Attempt.collect_cases _ _ _ before order
    (Engine.gatherAt program)
    (fun seen reached =>
      (∃ notes, reached = (before.postAll (seen.flatMap (gatherPosts
        scene.graph scene.settings scene.vertex))).noted notes) ∧
      ∀ v ∈ seen, Numeric scene v)
    (fun seen v cause final => (∀ w ∈ seen, Numeric scene w) ∧
      ∃ done n notes, final = (before.postAll (seen.flatMap (gatherPosts
          scene.graph scene.settings scene.vertex) ++ postsOver scene.graph
            scene.settings scene.vertex v done)).noted notes ∧
        Stumbles scene v (scene.graph.trainingAt v) done n cause)
    ⟨⟨before.notes, rfl⟩, by simp⟩ ?_
  · rcases hcases with ⟨totals, gathered, hgather, -⟩ |
      ⟨seen, v, later, cause, final, hsplit, hgather, hseen, done, n, notes,
        rfl, hstumbles⟩
    · exact .inl ⟨totals, gathered, hgather⟩
    · exact .inr ⟨⟨seen, v, done, n⟩, cause, notes, hgather,
        ⟨later, hsplit⟩, hseen, hstumbles⟩
  · rintro seen v rest reached hsplit ⟨⟨notes, rfl⟩, hseen⟩
    have hv : v < scene.graph.size := hlt v (by simp [hsplit])
    have hmem : ∀ w ∈ seen, w < scene.graph.size :=
      fun w hw => hlt w (by simp [hsplit, hw])
    have hreached : Shows size scene ((before.postAll (seen.flatMap
        (gatherPosts scene.graph scene.settings scene.vertex))).noted
        notes) := by
      refine (hshows.postAll (fun post hpost => ?_)
        fun post hpost => ?_).noted notes
      · obtain ⟨w, hw, hpost⟩ := List.mem_flatMap.mp hpost
        exact gatherPosts_lt hg (hmem w hw) post hpost
      · obtain ⟨w, hw, hpost⟩ := List.mem_flatMap.mp hpost
        exact gatherPosts_fit hf.uniform hg (hmem w hw) post hpost
    rcases gatherAt_cases hf hreached hv with ⟨total, next, hgather, -⟩ |
      ⟨cause, done, n, later, hgather, hstumbles⟩
    · obtain ⟨-, ⟨later, rfl⟩, hnumber⟩ :=
        gatherAt_ok hreached.scene_eq hg hv hgather
      refine .inl ⟨total, _, hgather, ⟨later, ?_⟩, fun w hw => ?_⟩
      · rw [Engine.postAll_noted, Engine.noted_noted, ← Engine.postAll_append,
          List.flatMap_append, List.flatMap_singleton]
      · rcases List.mem_append.mp hw with hw | hw
        · exact hseen w hw
        · exact List.mem_singleton.mp hw ▸ hnumber
    · refine .inr ⟨cause, _, hgather, hseen, done, n, later, ?_, hstumbles⟩
      rw [Engine.postAll_noted, Engine.noted_noted, ← Engine.postAll_append]

/-- The four phases of a turn go through, or the turn is broken off. -/
theorem phases_cases (hs : Poised size before) (hnodup : order.Nodup)
    (hlt : ∀ v ∈ order, v < before.graph.size)
    (hwaiting : ∀ v, (waiting v).Fits size) :
    (∃ after, (Engine.phases program waiting order).perform before =
        (.ok (), after)) ∨
      ∃ k cause after, (Engine.phases program waiting order).perform before =
          (.error cause, after) ∧
        BrokenOff before waiting order k cause after := by
  have hg := hs.bipartite.toFaithful
  obtain ⟨taken, hinit⟩ := exists_each_initAt before order waiting
  obtain ⟨htaken, hsize, hslot, hother⟩ :=
    each_initAt_ok hs.sized hnodup hlt hinit
  have hshows : Shows size before.scene taken := by
    rw [htaken]
    exact ⟨rfl, hs.sized.inboxes, hs.inboxes⟩
  rcases collect_gatherAt_cases hs.fitting hlt hshows with
    ⟨totals, gathered, hgather⟩ |
    ⟨k, cause, notes, hgather, hsplit, hnumeric, hstumbles⟩
  · obtain ⟨-, -, -, -, -, hnumeric⟩ :=
      gathered_ok hs.sized hg hnodup hlt hinit hgather
    obtain ⟨taken, totals, gathered, applying, after, hinit, hgather, happly,
      hscatter⟩ := exists_phases hs hnodup hlt hwaiting hnumeric
    refine .inl ⟨after, Attempt.perform_bind_ok.mpr ⟨(), taken, hinit, ?_⟩⟩
    refine Attempt.perform_bind_ok.mpr ⟨totals, gathered, hgather, ?_⟩
    exact Attempt.perform_bind_ok.mpr ⟨(), applying, happly, hscatter⟩
  · have hslots : ((taken.postAll (k.posts before.graph before.settings
        before.scene.vertex)).noted notes).slots = taken.slots :=
      Engine.slots_postAll _ _
    refine .inr ⟨k, cause, _, ?_, hsplit, hnumeric, hstumbles, ?_,
      (congrArg Array.size hslots).trans hsize, fun v hv => ?_, fun v hv => ?_⟩
    · rw [Engine.phases, Attempt.perform_bind, hinit]
      dsimp only
      rw [Attempt.perform_bind, hgather]
      rfl
    · rw [hslots]
      conv => lhs; rw [show taken = before.rewritten before.vertices taken.slots
        before.updates before.notes from htaken, Engine.postAll_rewritten]
      rfl
    · rw [hslots, hslot v hv]
    · rw [hslots, hother v hv]

/-- Phases that fail have been broken off. -/
theorem broken_of_phases {cause : Failure} (hs : Poised size before)
    (hnodup : order.Nodup) (hlt : ∀ v ∈ order, v < before.graph.size)
    (hwaiting : ∀ v, (waiting v).Fits size)
    (h : (Engine.phases program waiting order).perform before =
      (.error cause, after)) :
    ∃ k, BrokenOff before waiting order k cause after := by
  rcases phases_cases hs hnodup hlt hwaiting with
    ⟨last, hok⟩ | ⟨k, fault, last, hfail, hbroken⟩
  · rw [hok] at h
    cases (Prod.mk.inj h).1
  · rw [hfail] at h
    obtain ⟨hsame, rfl⟩ := Prod.mk.inj h
    exact ⟨k, Except.error.inj hsame ▸ hbroken⟩

end Phases

/-! ## What is left -/

namespace BrokenOff

variable {before after : Engine α (Slot α) ω} {waiting : Nat → Inbox α}
  {order : List Nat} {k : Stumble} {cause : Failure} {size : Nat}

private theorem inboxes_eq (h : BrokenOff before waiting order k cause after) :
    after.inboxes = (before.postAll (k.posts before.graph before.settings
      before.scene.vertex)).inboxes := by
  rw [h.eq]
  rfl

theorem queue_eq (h : BrokenOff before waiting order k cause after) :
    after.queue = (before.postAll (k.posts before.graph before.settings
      before.scene.vertex)).queue := by
  rw [h.eq]
  rfl

/-- Only inboxes, queue, slots and notes can have changed. -/
theorem eq_frame (h : BrokenOff before waiting order k cause after) :
    after = { before with
      inboxes := after.inboxes, queue := after.queue
      slots := after.slots, notes := after.notes } := by
  rw [h.inboxes_eq, h.queue_eq]
  exact h.eq.trans (congrArg (fun e : Engine α (Slot α) ω =>
    e.rewritten before.vertices after.slots before.updates after.notes)
    (Engine.postAll_eq before _))

/-- Whoever has posted anything was of the turn, and gathered it. -/
theorem mem_posts (h : BrokenOff before waiting order k cause after) :
    ∀ post ∈ k.posts before.graph before.settings before.scene.vertex,
      ∃ v ∈ order, post ∈ gatherPosts before.graph before.settings
        before.scene.vertex v := by
  obtain ⟨later, rfl⟩ := h.order_eq
  intro post hpost
  rcases List.mem_append.mp hpost with hpost | hpost
  · obtain ⟨v, hv, hpost⟩ := List.mem_flatMap.mp hpost
    exact ⟨v, by simp [hv], hpost⟩
  · obtain ⟨more, hsplit⟩ := h.stumbles.split
    refine ⟨k.place, by simp, ?_⟩
    rw [gatherPosts, show before.graph.trainingAt k.place =
      k.done ++ k.edge :: more from hsplit, postsOver_append]
    exact List.mem_append_left _ hpost

theorem posts_lt (h : BrokenOff before waiting order k cause after)
    (hg : before.graph.Faithful) (hlt : ∀ v ∈ order, v < before.graph.size) :
    ∀ post ∈ k.posts before.graph before.settings before.scene.vertex,
      post.1 < before.graph.size := by
  intro post hpost
  obtain ⟨v, hv, hpost⟩ := h.mem_posts post hpost
  exact gatherPosts_lt hg (hlt v hv) post hpost

/-- What a turn has left that was broken off is as good a start as any. -/
theorem poised (h : BrokenOff before waiting order k cause after)
    (hs : Poised size before) (hlt : ∀ v ∈ order, v < before.graph.size)
    (hwaiting : ∀ v, (waiting v).Fits size) : Poised size after := by
  have hg := hs.bipartite.toFaithful
  have hgraph : after.graph = before.graph := by rw [h.eq_frame]
  have hvertices : after.vertices = before.vertices := by rw [h.eq_frame]
  refine ⟨hgraph ▸ hs.bipartite, ⟨?_, ?_, ?_⟩, ?_, fun v => ?_, fun v => ?_⟩
  · rw [hgraph, hvertices, hs.sized.vertices]
  · rw [hgraph, h.slots_size]
  · rw [hgraph, h.inboxes_eq, Engine.inboxes_size_postAll, hs.sized.inboxes]
  · rw [h.eq_frame]
    exact hs.uniform
  · have hbox : after.inbox v = (before.postAll (k.posts before.graph
        before.settings before.scene.vertex)).inbox v :=
      congrArg (fun inboxes => inboxes.getD v .idle) h.inboxes_eq
    rw [hbox]
    refine fits_inbox_postAll (hs.sized.inboxes ▸ h.posts_lt hg hlt)
      (fun post hpost => ?_) hs.inboxes v
    obtain ⟨w, hw, hpost⟩ := h.mem_posts post hpost
    exact gatherPosts_fit hs.uniform hg (hlt w hw) post hpost
  · rw [hgraph]
    by_cases hv : v ∈ order
    · rw [h.slot_mem v hv]
      exact (hs.slots v).afterInit (hwaiting v)
    · rw [h.slot_not_mem v hv]
      exact hs.slots v

/-- If it was the turn of one vertex, it is the one that stumbles, and even the
slots are as they were. -/
theorem single {v : Nat} (h : BrokenOff before waiting [v] k cause after)
    (hsized : before.Sized) :
    k.seen = [] ∧ k.place = v ∧ ∃ notes,
      after = (before.postAll (postsOver before.graph before.settings
        before.scene.vertex v k.done)).noted notes := by
  obtain ⟨later, hsplit⟩ := h.order_eq
  obtain ⟨hseen, rfl⟩ : k.seen = [] ∧ v = k.place := by
    cases hk : k.seen with
    | nil =>
        rw [hk] at hsplit
        exact ⟨rfl, (List.cons.inj hsplit).1⟩
    | cons w rest => simp [hk] at hsplit
  have hslot : ∀ w, after.slots.getD w none = before.slots.getD w none := by
    intro w
    by_cases hw : w ∈ [k.place]
    · rw [h.slot_mem w hw, slotAfterInit, if_neg]
      exact List.mem_singleton.mp hw ▸ h.stumbles.row
    · exact h.slot_not_mem w hw
  have hslots : after.slots = before.slots := by
    refine Array.ext (h.slots_size.trans hsized.slots.symm) fun i hi hi' => ?_
    have hi := hslot i
    simpa [Array.getD, *] using hi
  refine ⟨hseen, rfl, after.notes, ?_⟩
  have heq := h.eq
  rw [hslots, Stumble.posts, hseen] at heq
  refine heq.trans ?_
  conv => rhs; rw [Engine.postAll_eq]
  conv => lhs; rw [Engine.postAll_eq]
  rfl

end BrokenOff

/-! ## Rounds and activations -/

section Iterations

variable {e e' : Engine α (Slot α) ω} {size : Nat} {cause : Failure}

theorem Poised.cleared (h : Poised size e) (horderly : e.Orderly) :
    Poised size e.cleared := by
  unfold Engine.cleared
  cases hmode : e.mode with
  | synchronous => exact h.emptied
  | asynchronous =>
      cases hqueue : e.queue with
      | nil => exact h
      | cons v rest =>
          refine h.taken ?_ rest
          rw [← h.sized.inboxes]
          exact horderly.lt_of_mem_queue hmode (hqueue ▸ List.mem_cons_self)

/-- A round that fails is broken off. -/
theorem broken_of_round (h : Poised size e)
    (hround : (Engine.round program).perform e = (.error cause, e')) :
    ∃ k, BrokenOff e.emptied e.inbox e.active k cause e' :=
  broken_of_phases h.emptied (Engine.nodup_active e) h.sized.lt_of_mem_active
    h.inboxes (Engine.perform_round.symm.trans hround)

/-- So is an activation that fails. -/
theorem broken_of_activateNext (h : Poised size e) (horderly : e.Orderly)
    (hmode : e.mode = .asynchronous) {v : Nat} {rest : List Nat}
    (hqueue : e.queue = v :: rest)
    (hactivate : (Engine.activateNext program).perform e =
      (.error cause, e')) :
    ∃ k, BrokenOff (e.taken v rest) e.inbox [v] k cause e' := by
  have hv : v < e.graph.size := by
    rw [← h.sized.inboxes]
    exact horderly.lt_of_mem_queue hmode (hqueue ▸ List.mem_cons_self)
  exact broken_of_phases (h.taken hv rest) (show [v].Nodup by simp)
    (fun w hw => List.mem_singleton.mp hw ▸ hv) h.inboxes
    ((Engine.perform_activateNext hqueue).symm.trans hactivate)

/-- Whatever becomes of an iteration, the engine is poised for the next. -/
theorem poised_of_work (h : Poised size e) (horderly : e.Orderly) :
    Poised size ((Engine.work program e.mode).perform e).2 := by
  rw [Engine.work_leaves]
  have hcleared := h.cleared horderly
  have hlt : ∀ v ∈ e.order, v < e.cleared.graph.size := by
    rw [Engine.graph_cleared]
    exact h.sized.lt_of_mem_order horderly
  rcases phases_cases hcleared horderly.nodup_order hlt h.inboxes with
    ⟨after, hok⟩ | ⟨k, cause, after, hfail, hbroken⟩
  · have hturn := turn_of_performed hcleared.sized
      hcleared.bipartite.toFaithful horderly.nodup_order hlt hok
    rw [hok]
    exact hturn.poised hcleared hlt h.inboxes
  · rw [hfail]
    exact hbroken.poised hcleared hlt h.inboxes

end Iterations

end Descent

end RatingFactors
