import RatingFactors.Proofs.Descent.Posts

/-!
# Turns

A synchronous round takes all active vertices through the four phases together,
an asynchronous activation takes one.  Both are a *turn* of a list of vertices:
their inboxes are emptied, and then the list goes through the phases.  This
module says once what a turn of gradient descent does; everything about rounds
and activations is read off `Turn`.

## Main definitions

* `Turn` — what a turn that raised nothing has done.

## Main results

* `turn_of_round` — a round is a turn of the active vertices.
* `turn_of_activateNext` — an activation is a turn of the head of the queue.
-/

namespace RatingFactors

namespace Engine

variable {α σ ω : Type} [Scalar α]

/-- There is one state, one slot and one inbox for each vertex of the
graph. -/
structure Sized (e : Engine α σ ω) : Prop where
  vertices : e.vertices.size = e.graph.size
  slots : e.slots.size = e.graph.size
  inboxes : e.inboxes.size = e.graph.size

omit [Scalar α] in
theorem Sized.lt_of_mem_active {e : Engine α σ ω} (h : e.Sized) :
    ∀ v ∈ e.active, v < e.graph.size :=
  fun _ hv => h.inboxes ▸ Engine.lt_of_mem_active hv

omit [Scalar α] in
theorem Sized.emptied {e : Engine α σ ω} (h : e.Sized) : e.emptied.Sized :=
  ⟨h.vertices, h.slots, Array.size_replicate.trans h.inboxes⟩

omit [Scalar α] in
theorem Sized.taken {e : Engine α σ ω} (h : e.Sized) (place : Nat)
    (rest : List Nat) : (e.taken place rest).Sized :=
  ⟨h.vertices, h.slots, Array.size_setIfInBounds.trans h.inboxes⟩

/-- The engine with other vertices, slots, number of updates and notes. -/
def rewritten (e : Engine α σ ω) (vertices : Array (Vertex α))
    (slots : Array σ) (updates : Nat) (notes : Array (Note ω)) :
    Engine α σ ω :=
  { e with vertices, slots, updates, notes }

/-- Posts see neither the vertices nor the slots. -/
theorem postAll_rewritten (e : Engine α σ ω) (vertices : Array (Vertex α))
    (slots : Array σ) (updates : Nat) (notes : Array (Note ω))
    (posts : List (Post α)) :
    (e.rewritten vertices slots updates notes).postAll posts =
      (e.postAll posts).rewritten vertices slots updates notes := by
  induction posts generalizing e with
  | nil => rfl
  | cons post rest ih => exact ih (e.posted post)

end Engine

namespace Descent

variable {α ω : Type} [Scalar α]

/-- A cell of an array is what was last stored there. -/
theorem getD_setIfInBounds {β : Type} {cells : Array β} {v w : Nat}
    {x d : β} (hv : v < cells.size) :
    (cells.setIfInBounds v x).getD w d =
      if w = v then x else cells.getD w d := by
  rw [Array.getD_eq_getD_getElem?, Array.getElem?_setIfInBounds]
  by_cases h : v = w
  · subst h
    simp [hv]
  · rw [if_neg h, if_neg (Ne.symm h), Array.getD_eq_getD_getElem?]

/-- Pairing elements with their images. -/
theorem zip_map_self {β : Type} (order : List Nat) (image : Nat → β) :
    order.zip (order.map image) = order.map fun v => (v, image v) := by
  have hpairs := @List.zip_map' _ _ _ id image order
  rw [List.map_id] at hpairs
  exact hpairs

/-- Whose turn it is has not had a turn before. -/
theorem not_mem_seen {order seen rest : List Nat} {v : Nat}
    (hnodup : order.Nodup) (horder : order = seen ++ v :: rest) :
    v ∉ seen := by
  rw [horder] at hnodup
  exact fun hmem => (List.nodup_append.mp hnodup).2.2 v hmem v (by simp) rfl

/-- What a turn has done.  `before` is the engine when the inboxes of the turn
have been emptied, `waiting` is what was in them, and `order` lists the
vertices whose turn it was. -/
structure Turn (before : Engine α (Slot α) ω) (waiting : Nat → Inbox α)
    (order : List Nat) (after : Engine α (Slot α) ω) : Prop where
  eq : after = (before.postAll
      (order.flatMap (gatherPosts before.graph before.settings
          before.scene.vertex) ++
        order.flatMap (scatterPosts before.graph before.settings
          after.scene.vertex))).rewritten
    after.vertices after.slots (before.updates + order.length) after.notes
  sized : after.Sized
  vertex_mem : ∀ v ∈ order,
    applied before.scene v
      (slotAfterInit before.graph v (waiting v) (before.slots.getD v none))
      (gatherTotal before.graph before.settings before.scene.vertex v) =
      .ok (after.scene.vertex v)
  vertex_not_mem : ∀ v, v ∉ order →
    after.scene.vertex v = before.scene.vertex v
  slot_mem : ∀ v ∈ order, after.slots.getD v none = none
  slot_not_mem : ∀ v, v ∉ order →
    after.slots.getD v none = before.slots.getD v none
  number : ∀ v ∈ order, ¬ before.graph.IsColumn v →
    ∀ n ∈ before.graph.trainingAt v, Scalar.isNaN (residualAt before.graph
      before.settings before.scene.vertex v n) = false

/-! ## The phases of a turn -/

section Phases

variable {before after : Engine α (Slot α) ω} {order : List Nat}

/-- Taking in: the slots of the turn hold what their vertices will apply. -/
theorem each_initAt_ok (hsized : before.Sized) (hnodup : order.Nodup)
    (hlt : ∀ v ∈ order, v < before.graph.size) {waiting : Nat → Inbox α}
    (h : (Attempt.each order fun v =>
      Engine.initAt program v (waiting v)).perform before = (.ok (), after)) :
    after = { before with slots := after.slots } ∧
      after.slots.size = before.graph.size ∧
      (∀ v ∈ order, after.slots.getD v none =
        slotAfterInit before.graph v (waiting v)
          (before.slots.getD v none)) ∧
      ∀ v, v ∉ order → after.slots.getD v none = before.slots.getD v none := by
  refine Attempt.each_induction (fun seen reached =>
    reached = { before with slots := reached.slots } ∧
      reached.slots.size = before.graph.size ∧
      (∀ v ∈ seen, reached.slots.getD v none =
        slotAfterInit before.graph v (waiting v)
          (before.slots.getD v none)) ∧
      ∀ v, v ∉ seen → reached.slots.getD v none = before.slots.getD v none)
    h ⟨rfl, hsized.slots, by simp, fun _ _ => rfl⟩ ?_
  intro seen v rest reached next horder ⟨heq, hsize, hseen, hother⟩ hstep
  have hv : v ∉ seen := not_mem_seen hnodup horder
  have hvsize : v < reached.slots.size := by
    rw [hsize]
    exact hlt v (by simp [horder])
  have hscene : reached.scene = before.scene := by
    rw [heq]
    rfl
  have hnext := initAt_ok hscene hvsize hstep
  have hslots : next.slots = reached.slots.setIfInBounds v
      (slotAfterInit before.graph v (waiting v)
        (before.slots.getD v none)) := by
    rw [hnext, hother v hv]
    rfl
  refine ⟨?_, ?_, ?_, ?_⟩
  · rw [hnext, heq]
  · rw [hslots, Array.size_setIfInBounds, hsize]
  · intro w hw
    rw [hslots, getD_setIfInBounds hvsize]
    by_cases hwv : w = v
    · rw [if_pos hwv, hwv]
    · rw [if_neg hwv]
      rcases List.mem_append.mp hw with hw | hw
      · exact hseen w hw
      · exact absurd (List.mem_singleton.mp hw) hwv
  · intro w hw
    have hwv : w ≠ v := fun heq => hw (by simp [heq])
    rw [hslots, getD_setIfInBounds hvsize, if_neg hwv]
    exact hother w fun hmem => hw (by simp [hmem])

/-- Gathering: everyone looks at the states before the turn. -/
theorem collect_gatherAt_ok {scene : Scene α} (hscene : before.scene = scene)
    (hg : scene.graph.Faithful) (hlt : ∀ v ∈ order, v < scene.graph.size)
    {totals : List (Step α)}
    (h : (Attempt.collect order (Engine.gatherAt program)).perform before =
      (.ok totals, after)) :
    totals = order.map (gatherTotal scene.graph scene.settings
        scene.vertex) ∧
      (∃ notes, after = (before.postAll (order.flatMap (gatherPosts
        scene.graph scene.settings scene.vertex))).noted notes) ∧
      ∀ v ∈ order, ¬ scene.graph.IsColumn v →
        ∀ n ∈ scene.graph.trainingAt v, Scalar.isNaN (residualAt scene.graph
          scene.settings scene.vertex v n) = false := by
  refine Attempt.collect_induction (fun seen found reached =>
    found = seen.map (gatherTotal scene.graph scene.settings
        scene.vertex) ∧
      (∃ notes, reached = (before.postAll (seen.flatMap (gatherPosts
        scene.graph scene.settings scene.vertex))).noted notes) ∧
      ∀ v ∈ seen, ¬ scene.graph.IsColumn v →
        ∀ n ∈ scene.graph.trainingAt v, Scalar.isNaN (residualAt scene.graph
          scene.settings scene.vertex v n) = false)
    h ⟨rfl, ⟨before.notes, rfl⟩, by simp⟩ ?_
  intro seen found v rest reached total next horder
    ⟨hfound, ⟨notes, hreached⟩, hnan⟩ hstep
  have hreachedScene : reached.scene = scene := by
    rw [hreached, Engine.scene_noted, Engine.scene_postAll, hscene]
  obtain ⟨htotal, ⟨later, hnext⟩, hnumber⟩ :=
    gatherAt_ok hreachedScene hg (hlt v (by simp [horder])) hstep
  refine ⟨?_, ⟨later, ?_⟩, ?_⟩
  · rw [hfound, htotal, List.map_append, List.map_singleton]
  · rw [hnext, hreached, Engine.postAll_noted, Engine.noted_noted,
      ← Engine.postAll_append, List.flatMap_append, List.flatMap_singleton]
  · intro w hw
    rcases List.mem_append.mp hw with hw | hw
    · exact hnan w hw
    · rw [List.mem_singleton.mp hw]
      exact hnumber

/-- What a vertex applies depends on the graph and on its own state only. -/
theorem applied_congr {scene scene' : Scene α} {v : Nat}
    (hgraph : scene.graph = scene'.graph)
    (hvertex : scene.vertex v = scene'.vertex v) (sent : Slot α)
    (total : Step α) :
    applied scene v sent total = applied scene' v sent total := by
  simp only [applied, hgraph, hvertex]

/-- The vertices seen so far have each been stored once, computed from their own
state before, and their slots have been emptied. -/
structure Stored (before : Engine α (Slot α) ω) (total : Nat → Step α)
    (seen : List Nat) (reached : Engine α (Slot α) ω) : Prop where
  eq : reached = before.rewritten reached.vertices reached.slots
    (before.updates + seen.length) before.notes
  vertices_size : reached.vertices.size = before.graph.size
  slots_size : reached.slots.size = before.graph.size
  vertex_mem : ∀ v ∈ seen, applied before.scene v (before.slots.getD v none)
    (total v) = .ok (reached.scene.vertex v)
  vertex_not_mem : ∀ v, v ∉ seen →
    reached.scene.vertex v = before.scene.vertex v
  slot_mem : ∀ v ∈ seen, reached.slots.getD v none = none
  slot_not_mem : ∀ v, v ∉ seen →
    reached.slots.getD v none = before.slots.getD v none

theorem Stored.start (total : Nat → Step α)
    (hvertices : before.vertices.size = before.graph.size)
    (hslots : before.slots.size = before.graph.size) :
    Stored before total [] before :=
  ⟨rfl, hvertices, hslots, by simp, fun _ _ => rfl, by simp, fun _ _ => rfl⟩

theorem Stored.graph_eq {total : Nat → Step α} {seen : List Nat}
    {reached : Engine α (Slot α) ω} (h : Stored before total seen reached) :
    reached.scene.graph = before.scene.graph := by
  rw [h.eq]
  rfl

theorem Stored.snoc {total : Nat → Step α} {seen : List Nat}
    {reached next : Engine α (Slot α) ω}
    (h : Stored before total seen reached) {v : Nat} (hv : v ∉ seen)
    (hvlt : v < before.graph.size)
    (hstep : (Engine.applyAt program v (total v)).perform reached =
      (.ok (), next)) :
    Stored before total (seen ++ [v]) next := by
  obtain ⟨vertex, happlied, hnext⟩ := applyAt_ok rfl hstep
  rw [applied_congr h.graph_eq (h.vertex_not_mem v hv), h.slot_not_mem v hv]
    at happlied
  have hvertex : ∀ w, next.scene.vertex w =
      if w = v then vertex else reached.scene.vertex w := by
    intro w
    rw [hnext]
    exact getD_setIfInBounds (h.vertices_size.symm ▸ hvlt)
  have hslot : ∀ w, next.slots.getD w none =
      if w = v then none else reached.slots.getD w none := by
    intro w
    rw [hnext]
    exact getD_setIfInBounds (h.slots_size.symm ▸ hvlt)
  have hmem : ∀ w, w ∈ seen ++ [v] ↔ w ∈ seen ∨ w = v := by simp
  refine ⟨?_, ?_, ?_, ?_, ?_, ?_, ?_⟩
  · rw [hnext, h.eq, List.length_append]
    rfl
  · rw [hnext, Array.size_setIfInBounds, h.vertices_size]
  · rw [hnext, Array.size_setIfInBounds, h.slots_size]
  · intro w hw
    rw [hvertex]
    by_cases hwv : w = v
    · rw [if_pos hwv, hwv]
      exact happlied
    · rw [if_neg hwv]
      exact h.vertex_mem w (((hmem w).mp hw).resolve_right hwv)
  · intro w hw
    rw [hvertex, if_neg fun heq => hw ((hmem w).mpr (.inr heq))]
    exact h.vertex_not_mem w fun hin => hw ((hmem w).mpr (.inl hin))
  · intro w hw
    rw [hslot]
    by_cases hwv : w = v
    · rw [if_pos hwv]
    · rw [if_neg hwv]
      exact h.slot_mem w (((hmem w).mp hw).resolve_right hwv)
  · intro w hw
    rw [hslot, if_neg fun heq => hw ((hmem w).mpr (.inr heq))]
    exact h.slot_not_mem w fun hin => hw ((hmem w).mpr (.inl hin))

/-- Applying: each vertex of the turn is stored once, computed from its own
state before the turn. -/
theorem each_applyAt_ok (hvertices : before.vertices.size = before.graph.size)
    (hslots : before.slots.size = before.graph.size) (hnodup : order.Nodup)
    (hlt : ∀ v ∈ order, v < before.graph.size) {total : Nat → Step α}
    (h : (Attempt.each (order.map fun v => (v, total v)) fun (v, total) =>
      Engine.applyAt program v total).perform before = (.ok (), after)) :
    Stored before total order after := by
  rw [Attempt.each_map] at h
  refine Attempt.each_induction (Stored before total) h
    (.start total hvertices hslots) ?_
  intro seen v rest reached next horder hseen hstep
  exact hseen.snoc (not_mem_seen hnodup horder) (hlt v (by simp [horder]))
    hstep

/-- Scattering: everyone looks at the states after the turn. -/
theorem each_scatterAt_ok {scene : Scene α} (hscene : before.scene = scene)
    (h : (Attempt.each order (Engine.scatterAt program)).perform before =
      (.ok (), after)) :
    after = before.postAll (order.flatMap (scatterPosts scene.graph
      scene.settings scene.vertex)) := by
  refine Attempt.each_induction (fun seen reached =>
    reached = before.postAll (seen.flatMap (scatterPosts scene.graph
      scene.settings scene.vertex))) h rfl ?_
  intro seen v rest reached next horder hreached hstep
  have hreachedScene : reached.scene = scene := by
    rw [hreached, Engine.scene_postAll, hscene]
  rw [scatterAt_ok hreachedScene hstep, hreached, ← Engine.postAll_append,
    List.flatMap_append, List.flatMap_singleton]

end Phases

/-! ## Rounds and activations are turns -/

section Turns

variable {before taken gathered applying after : Engine α (Slot α) ω}
  {order : List Nat} {waiting : Nat → Inbox α} {totals : List (Step α)}

/-- Taking in and gathering change slots and post messages, and leave the model
as it is. -/
theorem gathered_ok (hsized : before.Sized) (hg : before.graph.Faithful)
    (hnodup : order.Nodup) (hlt : ∀ v ∈ order, v < before.graph.size)
    (hinit : (Attempt.each order fun v =>
      Engine.initAt program v (waiting v)).perform before = (.ok (), taken))
    (hgather : (Attempt.collect order (Engine.gatherAt program)).perform
      taken = (.ok totals, gathered)) :
    totals = order.map (gatherTotal before.graph before.settings
        before.scene.vertex) ∧
      gathered = (before.postAll (order.flatMap (gatherPosts before.graph
        before.settings before.scene.vertex))).rewritten before.vertices
        gathered.slots before.updates gathered.notes ∧
      gathered.slots.size = before.graph.size ∧
      (∀ v ∈ order, gathered.slots.getD v none =
        slotAfterInit before.graph v (waiting v)
          (before.slots.getD v none)) ∧
      (∀ v, v ∉ order →
        gathered.slots.getD v none = before.slots.getD v none) ∧
      ∀ v ∈ order, ¬ before.graph.IsColumn v →
        ∀ n ∈ before.graph.trainingAt v, Scalar.isNaN (residualAt before.graph
          before.settings before.scene.vertex v n) = false := by
  obtain ⟨htaken, hsize, hmem, hother⟩ :=
    each_initAt_ok hsized hnodup hlt hinit
  have hscene : taken.scene = before.scene := by
    rw [htaken]
    rfl
  obtain ⟨htotals, ⟨notes, hgathered⟩, hnumber⟩ :=
    collect_gatherAt_ok hscene hg hlt hgather
  have hslots : gathered.slots = taken.slots := by
    rw [hgathered]
    exact Engine.slots_postAll _ _
  refine ⟨htotals, ?_, ?_, ?_, ?_, hnumber⟩
  · have htakenEq : taken = before.rewritten before.vertices taken.slots
        before.updates before.notes := htaken
    rw [hslots]
    rw [htakenEq, Engine.postAll_rewritten] at hgathered
    rw [hgathered]
    rfl
  · rw [hslots, hsize]
  · intro v hv
    rw [hslots, hmem v hv]
  · intro v hv
    rw [hslots, hother v hv]

/-- Four phases that went through make up a turn. -/
theorem turn_of_phases (hsized : before.Sized)
    (hg : before.graph.Faithful) (hnodup : order.Nodup)
    (hlt : ∀ v ∈ order, v < before.graph.size)
    (hinit : (Attempt.each order fun v =>
      Engine.initAt program v (waiting v)).perform before = (.ok (), taken))
    (hgather : (Attempt.collect order (Engine.gatherAt program)).perform
      taken = (.ok totals, gathered))
    (happly : (Attempt.each (order.zip totals) fun (v, total) =>
      Engine.applyAt program v total).perform gathered = (.ok (), applying))
    (hscatter : (Attempt.each order (Engine.scatterAt program)).perform
      applying = (.ok (), after)) :
    Turn before waiting order after := by
  obtain ⟨htotals, hgathered, hslotsSize, hslotMem, hslotOther, hnumber⟩ :=
    gathered_ok hsized hg hnodup hlt hinit hgather
  rw [htotals, zip_map_self] at happly
  have hgraph : gathered.graph = before.graph := by
    rw [hgathered]
    exact Engine.graph_postAll _ _
  have hscene : gathered.scene = before.scene := by
    rw [hgathered, ← Engine.postAll_rewritten, Engine.scene_postAll]
    rfl
  have hstored := each_applyAt_ok (by
      rw [hgraph, show gathered.vertices = before.vertices from
        congrArg Scene.vertices hscene]
      exact hsized.vertices) (by rw [hgraph, hslotsSize]) hnodup
    (by rw [hgraph]; exact hlt) happly
  have happlying : applying = (before.postAll (order.flatMap (gatherPosts
      before.graph before.settings before.scene.vertex))).rewritten
      applying.vertices applying.slots (before.updates + order.length)
      gathered.notes := by
    rw [hstored.eq, hgathered]
    rfl
  have hafter := each_scatterAt_ok rfl hscatter
  have hafterScene : after.scene = applying.scene := by
    rw [hafter, Engine.scene_postAll]
  have hafterSlots : after.slots = applying.slots := by
    rw [hafter, Engine.slots_postAll]
  have happlyingGraph : applying.scene.graph = before.graph :=
    hstored.graph_eq.trans hgraph
  have hafterGraph : after.graph = before.graph :=
    (congrArg Scene.graph hafterScene).trans happlyingGraph
  refine
    { eq := ?_
      sized := ?_
      vertex_mem := ?_
      vertex_not_mem := ?_
      slot_mem := ?_
      slot_not_mem := ?_
      number := hnumber }
  · have hafterVertices : after.vertices = applying.vertices :=
      congrArg Scene.vertices hafterScene
    have hafterNotes : after.notes = gathered.notes := by
      rw [hafter, happlying, Engine.postAll_rewritten]
      rfl
    have happlyingSettings : applying.scene.settings = before.settings := by
      rw [hstored.eq]
      exact congrArg Scene.settings hscene
    rw [hafterScene, hafterVertices, hafterSlots, hafterNotes,
      Engine.postAll_append, ← Engine.postAll_rewritten, ← happlying]
    rw [happlyingGraph, happlyingSettings] at hafter
    exact hafter
  · refine ⟨?_, ?_, ?_⟩
    · rw [hafterGraph, ← hgraph, ← hstored.vertices_size]
      exact congrArg (fun scene => scene.vertices.size) hafterScene
    · rw [hafterGraph, hafterSlots, hstored.slots_size, hgraph]
    · rw [hafterGraph, hafter, Engine.inboxes_size_postAll, happlying]
      exact (Engine.inboxes_size_postAll _ _).trans hsized.inboxes
  · intro v hv
    rw [hafterScene, ← hstored.vertex_mem v hv, hscene, hslotMem v hv]
  · intro v hv
    rw [hafterScene, hstored.vertex_not_mem v hv, hscene]
  · intro v hv
    rw [hafterSlots, hstored.slot_mem v hv]
  · intro v hv
    rw [hafterSlots, hstored.slot_not_mem v hv, hslotOther v hv]

end Turns

/-- A synchronous round is a turn of all active vertices, after all inboxes
have been emptied. -/
theorem turn_of_round {e e' : Engine α (Slot α) ω} (hsized : e.Sized)
    (hg : e.graph.Faithful)
    (h : (Engine.round program).perform e = (.ok (), e')) :
    Turn e.emptied e.inbox e.active e' := by
  obtain ⟨taken, totals, gathered, applying, hinit, hgather, happly,
    hscatter⟩ := Engine.round_ok.mp h
  exact turn_of_phases hsized.emptied hg (Engine.nodup_active e)
    hsized.lt_of_mem_active hinit hgather happly hscatter

/-- An asynchronous activation is a turn of the head of the queue, after its
own inbox has been emptied. -/
theorem turn_of_activateNext {e e' : Engine α (Slot α) ω}
    (hsized : e.Sized) (hg : e.graph.Faithful) (horderly : e.Orderly)
    (hmode : e.mode = .asynchronous)
    (h : (Engine.activateNext program).perform e = (.ok (), e')) :
    ∃ v rest, e.queue = v :: rest ∧ v < e.graph.size ∧
      Turn (e.taken v rest) e.inbox [v] e' := by
  obtain ⟨v, rest, taken, gathered, total, applying, hhead, hinit, hgather,
    happly, hscatter⟩ := Engine.activateNext_ok.mp h
  have hv : v < e.graph.size := by
    rw [← hsized.inboxes]
    exact horderly.lt_of_mem_queue hmode (by simp [hhead])
  refine ⟨v, rest, hhead, hv, ?_⟩
  have hlt : ∀ w ∈ [v], w < e.graph.size := by
    intro w hw
    rw [List.mem_singleton.mp hw]
    exact hv
  exact turn_of_phases (hsized.taken v rest) hg (by simp) hlt
    (Attempt.each_singleton.mpr hinit)
    (Attempt.collect_singleton.mpr ⟨total, rfl, hgather⟩)
    (Attempt.each_singleton.mpr happly) (Attempt.each_singleton.mpr hscatter)

end Descent

end RatingFactors
