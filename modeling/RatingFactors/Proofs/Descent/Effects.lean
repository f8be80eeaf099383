import RatingFactors.Proofs.Descent.Turn

/-!
# What a turn leaves

`Turn` describes the engine after a turn by one equation.  This module reads
off it what invariants are about: each vertex of the turn has counted one
update more, a vertex is active if it was before or if a neighbour of the turn
reached it, and the queue has only grown at its end.

## Main results

* `Turn.updates_eq` — how updates are counted.
* `Turn.isActive_iff` — who is active after a turn.
* `Turn.orderly`, `Turn.queue_eq` — the queue after a turn.
-/

namespace RatingFactors

namespace Descent

open Engine (Post)

variable {α ω : Type} [Scalar α]

/-- What a turn posts: everyone's gathering messages first, looking at the
states before the turn, and then everyone's wakings, looking at the states
after it. -/
def turnPosts (g : Graph α) (s : Settings α) (look later : Nat → Vertex α)
    (order : List Nat) : List (Post α) :=
  order.flatMap (gatherPosts g s look) ++
    order.flatMap (scatterPosts g s later)

private theorem turnPosts_lt {g : Graph α} {s : Settings α}
    {look later : Nat → Vertex α} {order : List Nat} (hg : g.Faithful)
    (horder : ∀ v ∈ order, v < g.size) :
    ∀ post ∈ turnPosts g s look later order, post.1 < g.size := by
  intro post hpost
  rcases List.mem_append.mp hpost with hpost | hpost
  · obtain ⟨v, hv, hpost⟩ := List.mem_flatMap.mp hpost
    exact gatherPosts_lt hg (horder v hv) post hpost
  · obtain ⟨v, hv, hpost⟩ := List.mem_flatMap.mp hpost
    exact scatterPosts_lt hg (horder v hv) post hpost

/-- A turn posts to the neighbours that it reaches: rows look twice, columns
only afterwards. -/
theorem mem_targets_turnPosts {g : Graph α} {s : Settings α}
    {look later : Nat → Vertex α} {order : List Nat} {w : Nat} :
    w ∈ (turnPosts g s look later order).map Prod.fst ↔
      ∃ v ∈ order, g.Meets v w ∧
        ((¬ g.IsColumn v ∧ s.withinBudget (look w) = true) ∨
          s.withinBudget (later w) = true) := by
  have hmem : w ∈ (turnPosts g s look later order).map Prod.fst ↔
      ∃ v ∈ order, w ∈ (gatherPosts g s look v).map Prod.fst ∨
        w ∈ (scatterPosts g s later v).map Prod.fst := by
    simp only [turnPosts, List.map_append, List.mem_append, List.map_flatMap,
      List.mem_flatMap]
    constructor
    · rintro (⟨v, hv, h⟩ | ⟨v, hv, h⟩)
      · exact ⟨v, hv, .inl h⟩
      · exact ⟨v, hv, .inr h⟩
    · rintro ⟨v, hv, h | h⟩
      · exact .inl ⟨v, hv, h⟩
      · exact .inr ⟨v, hv, h⟩
  rw [hmem]
  constructor
  · rintro ⟨v, hv, h | h⟩
    · obtain ⟨hrow, hbudget, hmeets⟩ := mem_targets_gatherPosts.mp h
      exact ⟨v, hv, hmeets, .inl ⟨hrow, hbudget⟩⟩
    · obtain ⟨hbudget, hmeets⟩ := mem_targets_scatterPosts.mp h
      exact ⟨v, hv, hmeets, .inr hbudget⟩
  · rintro ⟨v, hv, hmeets, ⟨hrow, hbudget⟩ | hbudget⟩
    · exact ⟨v, hv, .inl (mem_targets_gatherPosts.mpr
        ⟨hrow, hbudget, hmeets⟩)⟩
    · exact ⟨v, hv, .inr (mem_targets_scatterPosts.mpr ⟨hbudget, hmeets⟩)⟩

namespace Turn

variable {before after : Engine α (Slot α) ω} {waiting : Nat → Inbox α}
  {order : List Nat}

/-! ## What a turn leaves alone -/

/-- Whatever posts leave alone, and vertices, slots, counting and notes do not
touch, a turn leaves alone. -/
theorem frame {κ : Type} (t : Turn before waiting order after)
    (field : Engine α (Slot α) ω → κ)
    (hposted : ∀ e post, field (Engine.posted e post) = field e)
    (hrewritten : ∀ (e : Engine α (Slot α) ω) vertices slots updates notes,
      field (e.rewritten vertices slots updates notes) = field e) :
    field after = field before := by
  rw [t.eq, hrewritten, Engine.postAll_frame _ _ field hposted]

theorem graph_eq (t : Turn before waiting order after) :
    after.graph = before.graph :=
  t.frame Engine.graph (fun _ _ => rfl) fun _ _ _ _ _ => rfl

theorem settings_eq (t : Turn before waiting order after) :
    after.settings = before.settings :=
  t.frame Engine.settings (fun _ _ => rfl) fun _ _ _ _ _ => rfl

theorem mode_eq (t : Turn before waiting order after) :
    after.mode = before.mode :=
  t.frame Engine.mode (fun _ _ => rfl) fun _ _ _ _ _ => rfl

theorem iteration_eq (t : Turn before waiting order after) :
    after.iteration = before.iteration :=
  t.frame Engine.iteration (fun _ _ => rfl) fun _ _ _ _ _ => rfl

private theorem inboxes_size_eq (t : Turn before waiting order after) :
    after.inboxes.size = before.inboxes.size :=
  t.frame (fun e => e.inboxes.size) (fun _ _ => Array.size_setIfInBounds)
    fun _ _ _ _ _ => rfl

/-! ## Counting -/

/-- Each vertex of a turn counts one update more, and nobody else does. -/
theorem updates_eq (t : Turn before waiting order after) (v : Nat) :
    (after.scene.vertex v).updates =
      (before.scene.vertex v).updates + if v ∈ order then 1 else 0 := by
  by_cases hv : v ∈ order
  · rw [if_pos hv, updates_of_applied (t.vertex_mem v hv)]
  · rw [if_neg hv, t.vertex_not_mem v hv, Int.add_zero]

/-- The engine counts all updates of a turn. -/
theorem total_eq (t : Turn before waiting order after) :
    after.updates = before.updates + order.length := by
  have h := congrArg Engine.updates t.eq
  exact h

/-! ## Inboxes and the queue -/

section Inboxes

variable (t : Turn before waiting order after) (hg : before.graph.Faithful)
  (horder : ∀ v ∈ order, v < before.graph.size)

include t hg horder

/-- The posts of a turn go to vertices of the engine. -/
theorem posts_lt : ∀ post ∈ turnPosts before.graph before.settings
    before.scene.vertex after.scene.vertex order,
    post.1 < before.inboxes.size := by
  have hsize : before.inboxes.size = before.graph.size := by
    rw [← t.inboxes_size_eq, t.sized.inboxes, t.graph_eq]
  rw [hsize]
  exact turnPosts_lt hg horder

/-- After a turn a vertex holds what it held before, with what the turn posted
to it put in. -/
theorem inbox_eq (w : Nat) :
    after.inbox w =
      (Engine.postsTo w (turnPosts before.graph before.settings
        before.scene.vertex after.scene.vertex order)).foldl Inbox.put
        (before.inbox w) := by
  have h := congrArg (fun e => Engine.inbox e w) t.eq
  exact h.trans (Engine.inbox_postAll (t.posts_lt hg horder) w)

/-- Who is active after a turn: those who were before it, and the neighbours
that the turn reached. -/
theorem isActive_iff (w : Nat) :
    (after.inbox w).isActive = true ↔
      (before.inbox w).isActive = true ∨ ∃ v ∈ order, before.graph.Meets v w ∧
        ((¬ before.graph.IsColumn v ∧
            before.settings.withinBudget (before.scene.vertex w) = true) ∨
          before.settings.withinBudget (after.scene.vertex w) = true) := by
  have h := congrArg (fun e => (Engine.inbox e w).isActive = true) t.eq
  rw [show ((after.inbox w).isActive = true) = _ from h,
    ← mem_targets_turnPosts]
  exact Engine.isActive_inbox_postAll (t.posts_lt hg horder) w

theorem orderly (hbefore : before.Orderly) : after.Orderly := by
  have h := hbefore.postAll (t.posts_lt hg horder)
  rw [t.eq]
  exact h.frame rfl rfl (.refl _)

omit hg horder in
/-- A turn puts those whom it wakes at the end of the queue. -/
theorem queue_eq : ∃ fresh, after.queue = before.queue ++ fresh := by
  obtain ⟨fresh, hfresh⟩ := Engine.queue_postAll before
    (turnPosts before.graph before.settings before.scene.vertex
      after.scene.vertex order)
  exact ⟨fresh, (congrArg Engine.queue t.eq).trans hfresh⟩

end Inboxes

end Turn

end Descent

end RatingFactors
