import RatingFactors.Proofs.Descent.Effects
import RatingFactors.Training

/-!
# The first activation

Learning begins by waking every row that has budget.  On an engine at rest that
leaves exactly these rows active, each with a step that moves nothing.

## Main results

* `wakeRows_ok` — what waking the rows posts.
* `isActive_of_wakeRows` — who is active afterwards.
-/

namespace RatingFactors

namespace Engine

variable {α σ ω : Type} [Scalar α] {mode : Mode} {g : Graph α}
  {vertices : Array (Vertex α)} {settings : Settings α} {fresh : σ}
  {pace : Nat → α}

theorem sized_make (h : vertices.size = g.size) :
    (make mode g vertices settings fresh pace : Engine α σ ω).Sized :=
  ⟨h, Array.size_replicate, Array.size_replicate⟩

end Engine

namespace Descent

open Engine (Post)

variable {α ω : Type} [Scalar α]

/-- What waking the rows posts. -/
def wakePosts (scene : Scene α) : List (Post α) :=
  ((List.range scene.graph.size).filter fun v =>
    decide (scene.graph.IsRow v) &&
      scene.settings.withinBudget (scene.vertex v)).map
    fun v => (v, some (stillStep scene.settings))

theorem wakePosts_lt {scene : Scene α} :
    ∀ post ∈ wakePosts scene, post.1 < scene.graph.size := by
  intro post hpost
  obtain ⟨v, hv, rfl⟩ := List.mem_map.mp hpost
  exact List.mem_range.mp (List.mem_filter.mp hv).1

/-- The rows of a fresh engine have inboxes. -/
theorem wakePosts_make_lt {mode : Mode} {g : Graph α}
    {vertices : Array (Vertex α)} {settings : Settings α}
    {pace : Nat → α} :
    ∀ post ∈ wakePosts (Engine.make mode g vertices settings none pace :
      Engine α (Slot α) ω).scene,
      post.1 < (Engine.make mode g vertices settings none pace :
        Engine α (Slot α) ω).inboxes.size := by
  intro post hpost
  rw [show (Engine.make mode g vertices settings none pace :
    Engine α (Slot α) ω).inboxes.size = g.size from Array.size_replicate]
  exact wakePosts_lt post hpost

theorem mem_targets_wakePosts {scene : Scene α} {v : Nat} :
    v ∈ (wakePosts scene).map Prod.fst ↔ v < scene.graph.size ∧
      scene.graph.IsRow v ∧
        scene.settings.withinBudget (scene.vertex v) = true := by
  simp [wakePosts]

theorem wakeRows_ok {e e' : Engine α (Slot α) ω}
    (h : Trainer.wakeRows.perform e = (.ok (), e')) :
    e' = e.postAll (wakePosts e.scene) := by
  rw [Trainer.wakeRows, Attempt.perform_get_bind] at h
  refine Attempt.each_induction (fun seen reached =>
    reached = e.postAll ((seen.filter fun v =>
      decide (e.scene.graph.IsRow v) &&
        e.scene.settings.withinBudget (e.scene.vertex v)).map
      fun v => (v, some (stillStep e.scene.settings)))) h rfl ?_
  intro seen v rest reached next _ hreached hstep
  have hscene : reached.scene = e.scene := by
    rw [hreached, Engine.scene_postAll]
  rw [Attempt.perform_get_bind, hscene] at hstep
  unfold wake at hstep
  rw [List.filter_append, List.map_append, Engine.postAll_append, ← hreached]
  by_cases hrow : e.scene.graph.IsRow v
  · rw [if_pos (show 0 < e.scene.graph.outDegree v from hrow)] at hstep
    rw [rouse_ok hstep, List.filter_cons, List.filter_nil]
    cases e.scene.settings.withinBudget (e.scene.vertex v) <;> simp [hrow]
  · rw [if_neg (show ¬ 0 < e.scene.graph.outDegree v from hrow)] at hstep
    rw [← (Prod.mk.inj (Engine.heed_ok.mp hstep).1).2]
    simp [hrow, Engine.postAll]

section Fresh

variable {mode : Mode} {g : Graph α} {vertices : Array (Vertex α)}
  {settings : Settings α} {pace : Nat → α} {e : Engine α (Slot α) ω}

/-- Exactly the rows with budget are active. -/
theorem isActive_of_wakeRows
    (h : Trainer.wakeRows.perform
      (Engine.make mode g vertices settings none pace) = (.ok (), e))
    (v : Nat) :
    (e.inbox v).isActive = true ↔ v < g.size ∧ g.IsRow v ∧
      settings.withinBudget (e.scene.vertex v) = true := by
  have he := wakeRows_ok h
  have hvertex : e.scene.vertex v = (Engine.make mode g vertices settings
      none pace : Engine α (Slot α) ω).scene.vertex v := by
    rw [he, Engine.scene_postAll]
  rw [hvertex, he, Engine.isActive_inbox_postAll wakePosts_make_lt,
    Engine.inbox_make, mem_targets_wakePosts]
  simp [Inbox.isActive, Engine.make, Engine.scene]

theorem orderly_of_wakeRows
    (h : Trainer.wakeRows.perform
      (Engine.make mode g vertices settings none pace) = (.ok (), e)) :
    e.Orderly := by
  rw [wakeRows_ok h]
  exact Engine.orderly_make.postAll wakePosts_make_lt

/-- Whatever posts leave alone is as it was made. -/
theorem frame_of_wakeRows
    (h : Trainer.wakeRows.perform
      (Engine.make mode g vertices settings none pace) = (.ok (), e))
    {κ : Type} (field : Engine α (Slot α) ω → κ)
    (hposted : ∀ e post, field (Engine.posted e post) = field e) :
    field e = field (Engine.make mode g vertices settings none pace) := by
  rw [wakeRows_ok h]
  exact Engine.postAll_frame _ _ field hposted

theorem graph_of_wakeRows
    (h : Trainer.wakeRows.perform
      (Engine.make mode g vertices settings none pace) = (.ok (), e)) :
    e.graph = g :=
  frame_of_wakeRows h Engine.graph fun _ _ => rfl

theorem settings_of_wakeRows
    (h : Trainer.wakeRows.perform
      (Engine.make mode g vertices settings none pace) = (.ok (), e)) :
    e.settings = settings :=
  frame_of_wakeRows h Engine.settings fun _ _ => rfl

theorem vertices_of_wakeRows
    (h : Trainer.wakeRows.perform
      (Engine.make mode g vertices settings none pace) = (.ok (), e)) :
    e.scene.vertices = vertices :=
  frame_of_wakeRows h Engine.vertices fun _ _ => rfl

theorem updates_of_wakeRows
    (h : Trainer.wakeRows.perform
      (Engine.make mode g vertices settings none pace) = (.ok (), e)) :
    e.updates = 0 :=
  frame_of_wakeRows h Engine.updates fun _ _ => rfl

theorem iteration_of_wakeRows
    (h : Trainer.wakeRows.perform
      (Engine.make mode g vertices settings none pace) = (.ok (), e)) :
    e.iteration = 0 :=
  frame_of_wakeRows h Engine.iteration fun _ _ => rfl

theorem vertex_of_wakeRows
    (h : Trainer.wakeRows.perform
      (Engine.make mode g vertices settings none pace) = (.ok (), e)) {v : Nat}
    (hv : v < vertices.size) : e.scene.vertex v = vertices[v] := by
  rw [Scene.vertex, vertices_of_wakeRows h,
    Array.getD_eq_getD_getElem?, Array.getElem?_eq_getElem hv,
    Option.getD_some]

theorem sized_of_wakeRows (hsize : vertices.size = g.size)
    (h : Trainer.wakeRows.perform
      (Engine.make mode g vertices settings none pace) = (.ok (), e)) :
    e.Sized := by
  have hmake : (Engine.make mode g vertices settings none pace :
      Engine α (Slot α) ω).Sized := Engine.sized_make hsize
  have hgraph := congrArg Graph.size (graph_of_wakeRows h).symm
  refine ⟨?_, ?_, ?_⟩
  · exact (frame_of_wakeRows h (fun e => e.vertices.size)
      fun _ _ => rfl).trans (hmake.vertices.trans hgraph)
  · exact (frame_of_wakeRows h (fun e => e.slots.size)
      fun _ _ => rfl).trans (hmake.slots.trans hgraph)
  · exact (frame_of_wakeRows h (fun e => e.inboxes.size)
      fun _ _ => Array.size_setIfInBounds).trans
      (hmake.inboxes.trans hgraph)

end Fresh

end Descent

end RatingFactors
