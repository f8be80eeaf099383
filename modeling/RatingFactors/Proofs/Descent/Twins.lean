import Mathlib.Data.List.Basic
import RatingFactors.Proofs.Descent.Iterations
import RatingFactors.Proofs.Graph.Alike

/-!
# Engines that learn the same

What a vertex gathers, whom it posts to and what it becomes depends on the
training edges at it and on nothing else in the graph.  So an engine over a
graph that differs in held-out edges only does the same in every iteration that
goes through: it updates the same vertices in the same way and posts the same
messages in the same order.

## Main definitions

* `Twin` — engines that agree in everything but held-out edges and notes.

## Main results

* `gatherTotal_alike`, `gatherPosts_alike`, `scatterPosts_alike` — what a vertex
  does over graphs that are alike.
* `Twin.work` — an iteration keeps engines twins.
* `Twin.make`, `Twin.wakeRows` — fresh engines are twins, also when their rows
  are woken.
-/

namespace RatingFactors

namespace Descent

variable {α ω : Type} [Scalar α]

/-! ## Over graphs that are alike -/

section Alike

variable {g g' : Graph α} {s : Settings α} {look : Nat → Vertex α} {v : Nat}
  {numbers numbers' : List Nat}

/-- What is made of training edges is the same if the edges are. -/
private theorem map_congr_edges {β : Type} (make : Edge α → β)
    (hedges : numbers'.map g'.edgeAt = numbers.map g.edgeAt) :
    numbers'.map (fun n => make (g'.edgeAt n)) =
      numbers.map fun n => make (g.edgeAt n) := by
  have h := congrArg (List.map make) hedges
  rwa [List.map_map, List.map_map] at h

/-- The same, if only some of the edges are picked. -/
private theorem map_filter_congr_edges {β : Type} (pick : Edge α → Bool)
    (make : Edge α → β)
    (hedges : numbers'.map g'.edgeAt = numbers.map g.edgeAt) :
    (numbers'.filter fun n => pick (g'.edgeAt n)).map
        (fun n => make (g'.edgeAt n)) =
      (numbers.filter fun n => pick (g.edgeAt n)).map
        fun n => make (g.edgeAt n) := by
  have h := congrArg (fun edges => (List.filter pick edges).map make) hedges
  simp only [List.filter_map, List.map_map] at h
  exact h

section Vertex

variable (h : g.Alike g') (hg : g.Faithful) (hg' : g'.Faithful)
  (hv : v < g.size)

include h hg hg' hv

theorem gatherTotal_alike :
    gatherTotal g' s look v = gatherTotal g s look v := by
  have hsteps : (g'.trainingAt v).map (ownStep g' s look v) =
      (g.trainingAt v).map (ownStep g s look v) :=
    map_congr_edges (fun e => gradientStep s (residual s (look v)
      (look (Graph.otherEnd e v)) e.value) (look v)
      (look (Graph.otherEnd e v))) (h.map_trainingAt hg hg' hv)
  rw [gatherTotal, gatherTotal, totalOver, totalOver, hsteps]
  simp only [h.column v]

theorem gatherPosts_alike :
    gatherPosts g' s look v = gatherPosts g s look v := by
  have hposts := map_filter_congr_edges
    (fun e => s.withinBudget (look (Graph.otherEnd e v)))
    (fun e => (Graph.otherEnd e v, some (gradientStep s (residual s (look v)
      (look (Graph.otherEnd e v)) e.value) (look (Graph.otherEnd e v))
      (look v)))) (h.map_trainingAt hg hg' hv)
  unfold gatherPosts postsOver
  simp only [h.column v]
  split
  · rfl
  · exact hposts

theorem scatterPosts_alike :
    scatterPosts g' s look v = scatterPosts g s look v :=
  map_filter_congr_edges
    (fun e => s.withinBudget (look (Graph.otherEnd e v)))
    (fun e => (Graph.otherEnd e v, some (stillStep s)))
    (h.map_trainingAt hg hg' hv)

end Vertex

private theorem turnPosts_alike (h : g.Alike g') (hg : g.Faithful)
    (hg' : g'.Faithful) {later : Nat → Vertex α} {order : List Nat}
    (hlt : ∀ v ∈ order, v < g.size) :
    turnPosts g' s look later order = turnPosts g s look later order := by
  unfold turnPosts
  rw [List.flatMap_congr fun v hv => gatherPosts_alike h hg hg' (hlt v hv),
    List.flatMap_congr fun v hv => scatterPosts_alike h hg hg' (hlt v hv)]

omit [Scalar α] in
private theorem slotAfterInit_alike (h : g.Alike g') (v : Nat)
    (waiting : Inbox α) (slot : Slot α) :
    slotAfterInit g' v waiting slot = slotAfterInit g v waiting slot := by
  simp only [slotAfterInit, h.column v]

/-- What a vertex becomes depends on its own state and its side. -/
theorem applied_alike {scene scene' : Scene α}
    (h : scene.graph.Alike scene'.graph)
    (hvertex : scene'.vertex v = scene.vertex v) {sent : Slot α}
    {total : Step α} :
    applied scene' v sent total = applied scene v sent total := by
  have hcolumn : 0 < scene'.graph.inDegree v ↔ 0 < scene.graph.inDegree v :=
    h.column v
  have hrow : 0 < scene'.graph.outDegree v ↔ 0 < scene.graph.outDegree v :=
    h.row v
  have hin : scene'.graph.inDegree v ≠ 0 ↔ scene.graph.inDegree v ≠ 0 := by
    omega
  have hout : scene'.graph.outDegree v ≠ 0 ↔ scene.graph.outDegree v ≠ 0 := by
    omega
  simp only [applied, hvertex, hin, hout, Graph.idAt, h.ids]

end Alike

/-! ## Engines -/

/-- Arrays of one size with the same entries are the same. -/
private theorem array_ext_getD {β : Type} {xs ys : Array β} (default : β)
    (hsize : xs.size = ys.size)
    (h : ∀ i, xs.getD i default = ys.getD i default) : xs = ys := by
  refine Array.ext hsize fun i hi hi' => ?_
  have hentry := h i
  rwa [Array.getD_eq_getD_getElem?, Array.getD_eq_getD_getElem?,
    Array.getElem?_eq_getElem hi, Array.getElem?_eq_getElem hi'] at hentry

/-- Two engines over graphs that are alike, in the same state but for notes. -/
structure Twin (e e' : Engine α (Slot α) ω) : Prop where
  mode : e'.mode = e.mode
  graph : e.graph.Alike e'.graph
  vertices : e'.vertices = e.vertices
  settings : e'.settings = e.settings
  slots : e'.slots = e.slots
  inboxes : e'.inboxes = e.inboxes
  queue : e'.queue = e.queue
  iteration : e'.iteration = e.iteration
  updates : e'.updates = e.updates
  now : e'.now = e.now
  startedAt : e'.startedAt = e.startedAt
  pace : e'.pace = e.pace

section Twins

variable {e e' before before' after after' : Engine α (Slot α) ω}

namespace Twin

theorem look (h : Twin e e') : e'.scene.vertex = e.scene.vertex :=
  congrArg (fun vertices v => vertices.getD v ⟨[], Scalar.zero, 0⟩) h.vertices

omit [Scalar α] in
theorem inbox (h : Twin e e') : e'.inbox = e.inbox :=
  congrArg (fun inboxes v => inboxes.getD v .idle) h.inboxes

omit [Scalar α] in
theorem active (h : Twin e e') : e'.active = e.active := by
  rw [Engine.active, Engine.active, h.inboxes, h.inbox]

omit [Scalar α] in
theorem activeCount (h : Twin e e') : e'.activeCount = e.activeCount :=
  congrArg List.length h.active

omit [Scalar α] in
/-- It is the turn of the same vertices. -/
theorem order (h : Twin e e') : e'.order = e.order := by
  rw [Engine.order, Engine.order, h.mode, h.active, h.queue]

omit [Scalar α] in
theorem sized (h : Twin e e') (hsized : e.Sized) : e'.Sized where
  vertices := by rw [h.vertices, h.graph.size, hsized.vertices]
  slots := by rw [h.slots, h.graph.size, hsized.slots]
  inboxes := by rw [h.inboxes, h.graph.size, hsized.inboxes]

omit [Scalar α] in
theorem orderly (h : Twin e e') (horderly : e.Orderly) : e'.Orderly :=
  horderly.frame h.mode h.inboxes (h.queue ▸ .refl _)

/-- Posting the same keeps engines twins. -/
theorem postAll (h : Twin e e') (posts : List (Engine.Post α)) :
    Twin (e.postAll posts) (e'.postAll posts) := by
  induction posts generalizing e e' with
  | nil => exact h
  | cons post rest ih =>
      refine ih
        { h with
          inboxes := ?_
          queue := ?_ }
      · rw [Engine.posted, Engine.posted, h.inbox, h.inboxes]
      · rw [Engine.posted, Engine.posted, h.inbox, h.mode, h.queue]

omit [Scalar α] in
/-- Clearing keeps engines twins. -/
theorem cleared (h : Twin e e') : Twin e.cleared e'.cleared := by
  have hmode := h.mode
  have hqueue := h.queue
  unfold Engine.cleared
  cases hm : e.mode with
  | synchronous =>
      rw [hm] at hmode
      rw [hmode]
      exact
        { h with
          inboxes := congrArg (fun inboxes : Array (Inbox α) =>
            Array.replicate inboxes.size Inbox.idle) h.inboxes }
  | asynchronous =>
      rw [hm] at hmode
      rw [hmode]
      cases hq : e.queue with
      | nil =>
          rw [hq] at hqueue
          rw [hqueue]
          exact h
      | cons v rest =>
          rw [hq] at hqueue
          rw [hqueue]
          exact
            { h with
              inboxes := congrArg (fun inboxes : Array (Inbox α) =>
                inboxes.setIfInBounds v Inbox.idle) h.inboxes
              queue := rfl }

/-- A turn of the same vertices keeps engines twins. -/
theorem turn (h : Twin before before') (hg : before.graph.Faithful)
    (hg' : before'.graph.Faithful) {turned : List Nat}
    (hlt : ∀ v ∈ turned, v < before.graph.size) {waiting : Nat → Inbox α}
    (t : Turn before waiting turned after)
    (t' : Turn before' waiting turned after') : Twin after after' := by
  have hgraph : after.graph.Alike after'.graph := by
    rw [t.graph_eq, t'.graph_eq]
    exact h.graph
  have hlook : after'.scene.vertex = after.scene.vertex := by
    funext v
    by_cases hv : v ∈ turned
    · have hvertex := t.vertex_mem v hv
      have hvertex' := t'.vertex_mem v hv
      rw [slotAfterInit_alike h.graph, h.slots, h.settings, h.look,
        gatherTotal_alike h.graph hg hg' (hlt v hv),
        applied_alike h.graph (congrFun h.look v)] at hvertex'
      exact Except.ok.inj (hvertex'.symm.trans hvertex)
    · rw [t.vertex_not_mem v hv, t'.vertex_not_mem v hv, h.look]
  have hslot : ∀ v, after'.slots.getD v none = after.slots.getD v none := by
    intro v
    by_cases hv : v ∈ turned
    · rw [t.slot_mem v hv, t'.slot_mem v hv]
    · rw [t.slot_not_mem v hv, t'.slot_not_mem v hv, h.slots]
  have hposts : turnPosts before'.graph before.settings before.scene.vertex
      after.scene.vertex turned = turnPosts before.graph before.settings
      before.scene.vertex after.scene.vertex turned :=
    turnPosts_alike h.graph hg hg' hlt
  have heq := t.eq
  have heq' := t'.eq
  change after = (before.postAll (turnPosts before.graph before.settings
    before.scene.vertex after.scene.vertex turned)).rewritten _ _ _ _ at heq
  change after' = (before'.postAll (turnPosts before'.graph before'.settings
    before'.scene.vertex after'.scene.vertex turned)).rewritten _ _ _ _ at heq'
  rw [h.settings, h.look, hlook, hposts] at heq'
  have hposted := h.postAll (turnPosts before.graph before.settings
    before.scene.vertex after.scene.vertex turned)
  have hframe : ∀ {κ : Type} (field : Engine α (Slot α) ω → κ),
      (∀ e post, field (Engine.posted e post) = field e) →
      (∀ (e : Engine α (Slot α) ω) vertices slots updates notes,
        field (e.rewritten vertices slots updates notes) = field e) →
      field before' = field before → field after' = field after :=
    fun field hposted hrewritten hbefore =>
      (t'.frame field hposted hrewritten).trans
        (hbefore.trans (t.frame field hposted hrewritten).symm)
  exact
    { mode := hframe Engine.mode (fun _ _ => rfl)
        (fun _ _ _ _ _ => rfl) h.mode
      graph := hgraph
      vertices := array_ext_getD ⟨[], Scalar.zero, 0⟩ (by
          rw [t'.sized.vertices, t.sized.vertices, hgraph.size])
        fun v => congrFun hlook v
      settings := hframe Engine.settings (fun _ _ => rfl)
        (fun _ _ _ _ _ => rfl) h.settings
      slots := array_ext_getD none (by
          rw [t'.sized.slots, t.sized.slots, hgraph.size]) hslot
      inboxes := (congrArg Engine.inboxes heq').trans
        (hposted.inboxes.trans (congrArg Engine.inboxes heq).symm)
      queue := (congrArg Engine.queue heq').trans
        (hposted.queue.trans (congrArg Engine.queue heq).symm)
      iteration := hframe Engine.iteration (fun _ _ => rfl)
        (fun _ _ _ _ _ => rfl) h.iteration
      updates := by rw [t'.total_eq, t.total_eq, h.updates]
      now := hframe Engine.now (fun _ _ => rfl)
        (fun _ _ _ _ _ => rfl) h.now
      startedAt := hframe Engine.startedAt (fun _ _ => rfl)
        (fun _ _ _ _ _ => rfl) h.startedAt
      pace := hframe Engine.pace (fun _ _ => rfl)
        (fun _ _ _ _ _ => rfl) h.pace }

/-- An iteration that goes through on both sides keeps engines twins. -/
theorem work (h : Twin e e') (hsized : e.Sized) (hg : e.graph.Faithful)
    (hg' : e'.graph.Faithful) (horderly : e.Orderly)
    (hactive : e.activeCount ≠ 0)
    (hwork : (Engine.work program e.mode).perform e = (.ok (), after))
    (hwork' : (Engine.work program e'.mode).perform e' = (.ok (), after')) :
    Twin (Session.passIteration after) (Session.passIteration after') := by
  have t := turn_of_work hsized hg horderly hactive hwork
  have t' := turn_of_work (h.sized hsized) hg' (h.orderly horderly)
    (h.activeCount ▸ hactive) hwork'
  rw [h.order, h.inbox] at t'
  have hlt := hsized.lt_of_mem_order horderly
  rw [← e.graph_cleared] at hg hlt
  rw [← e'.graph_cleared] at hg'
  have hafter := h.cleared.turn hg hg' hlt t t'
  exact
    { hafter with
      now := congrArg₂ (· + ·) hafter.now
        (by rw [hafter.pace, hafter.iteration])
      iteration := congrArg (· + 1) hafter.iteration }

/-- Waking the rows keeps engines twins. -/
theorem wakeRows (h : Twin before before')
    (hwake : Trainer.wakeRows.perform before = (.ok (), e))
    (hwake' : Trainer.wakeRows.perform before' = (.ok (), e')) :
    Twin e e' := by
  have hposts : wakePosts before'.scene = wakePosts before.scene := by
    have hrow : ∀ v, decide (before'.scene.graph.IsRow v) =
        decide (before.scene.graph.IsRow v) :=
      fun v => decide_eq_decide.mpr (h.graph.row v)
    have hsettings : before'.scene.settings = before.scene.settings :=
      h.settings
    rw [wakePosts, wakePosts, hsettings, h.look,
      show before'.scene.graph.size = before.scene.graph.size from h.graph.size]
    simp only [hrow]
  rw [wakeRows_ok hwake, wakeRows_ok hwake', hposts]
  exact h.postAll _

/-- Fresh engines over graphs that are alike are twins. -/
theorem make {g g' : Graph α} (halike : g.Alike g') (mode : Mode)
    (vertices : Array (Vertex α)) (settings : Settings α)
    (pace : Nat → α) :
    Twin (Engine.make mode g vertices settings none pace :
        Engine α (Slot α) ω)
      (Engine.make mode g' vertices settings none pace) where
  mode := rfl
  graph := halike
  vertices := rfl
  settings := rfl
  slots := congrArg (fun size => Array.replicate size none) halike.size
  inboxes := congrArg (fun size => Array.replicate size Inbox.idle) halike.size
  queue := rfl
  iteration := rfl
  updates := rfl
  now := rfl
  startedAt := rfl
  pace := rfl

end Twin

end Twins

end Descent

end RatingFactors
