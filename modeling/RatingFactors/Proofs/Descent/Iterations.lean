import RatingFactors.Proofs.Descent.Counts
import RatingFactors.Proofs.Engine.Keeping

/-!
# Iterations of gradient descent

An iteration that goes through is a turn of the vertices whose turn it is.  One
that fails is not rolled back: some of these vertices have been updated and the
others have not.  Only applying touches what is learned, and it updates a vertex
and counts the update in one go.  So whatever becomes of an iteration, the
vertices that have been updated are the first ones of its order, once each.

## Main definitions

* `Counted` — some vertices have counted one update more.

## Main results

* `turn_of_work` — an iteration that goes through is a turn.
* `counted_of_work` — an iteration, whether it goes through or not.
-/

namespace RatingFactors

namespace Engine

variable {α σ ω : Type} {e : Engine α σ ω}

/-- The vertices whose turn it is are vertices of the graph. -/
theorem Sized.lt_of_mem_order (h : e.Sized) (horderly : e.Orderly) :
    ∀ v ∈ e.order, v < e.graph.size := by
  intro v hv
  exact h.lt_of_mem_active v
    (mem_active.mpr (horderly.isActive_of_mem_order hv))

/-- Clearing leaves as many vertices, slots and inboxes. -/
theorem Sized.cleared (h : e.Sized) : e.cleared.Sized := by
  unfold Engine.cleared
  split
  · exact h.emptied
  · exact h
  · exact h.taken _ _

end Engine

namespace Descent

variable {α ω : Type} [Scalar α]

/-- Taking in a message keeps it at most. -/
theorem init_actions (scene : Scene α) (place : Nat) (slot : Slot α)
    (message : Step α) :
    ∀ action ∈ ((program : Program α (Slot α) ω).init scene place slot
      message).actions, action = .keep (some message) := by
  intro action haction
  change action ∈ (init scene place slot message).actions at haction
  unfold init at haction
  split at haction
  · exact List.mem_singleton.mp haction
  · cases haction

/-- Applying stores the vertex and empties its slot at most. -/
theorem apply_actions (scene : Scene α) (place : Nat) (slot : Slot α)
    (total : Step α) :
    ∀ action ∈ ((program : Program α (Slot α) ω).apply scene place slot
      total).actions,
      (∃ vertex, action = .store vertex) ∨ action = .keep none := by
  intro action haction
  change action ∈ (apply scene place slot total).actions at haction
  unfold apply at haction
  split at haction
  · cases haction
  · rcases List.mem_cons.mp haction with hstore | hkeep
    · exact .inl ⟨_, hstore⟩
    · exact .inr (List.mem_singleton.mp hkeep)

/-- Scattering sends a still step at most. -/
theorem scatter_actions (scene : Scene α) (place : Nat) (slot : Slot α)
    (number : Nat) :
    ∀ action ∈ ((program : Program α (Slot α) ω).scatter scene place slot
      number).actions, ∃ spot,
      action = .signal (.place spot) (some (stillStep scene.settings)) := by
  intro action haction
  change action ∈ (scatter scene place slot number).actions at haction
  unfold scatter at haction
  dsimp only at haction
  split at haction
  · cases haction
  · cases haction
  · cases haction
  · unfold rouse at haction
    split at haction
    · split at haction
      · cases haction
      · rename_i step hzeros
        rw [← zeros_ok hzeros]
        exact ⟨_, List.mem_singleton.mp haction⟩
    · cases haction

/-- Gradient descent stores nothing but what it applies. -/
theorem reading_program : (program : Program α (Slot α) ω).Reading where
  init := by
    intro scene place slot message action haction vertex hstore
    have hkeep := init_actions scene place slot message action haction
    cases hstore.symm.trans hkeep
  gather := by
    intro scene place slot number action haction vertex hstore
    obtain ⟨content, hnote⟩ :=
      gather_actions scene place slot number action haction
    cases hstore.symm.trans hnote
  scatter := by
    intro scene place slot number action haction vertex hstore
    obtain ⟨spot, hsignal⟩ :=
      scatter_actions scene place slot number action haction
    cases hstore.symm.trans hsignal

/-- Some vertices have counted one update more, and nobody else has. -/
structure Counted (before : Engine α (Slot α) ω) (done : List Nat)
    (after : Engine α (Slot α) ω) : Prop where
  graph : after.graph = before.graph
  size : after.vertices.size = before.vertices.size
  updates : after.updates = before.updates + done.length
  count : ∀ v, count after v = count before v + if v ∈ done then 1 else 0

section Counted

variable {before e after : Engine α (Slot α) ω} {order done : List Nat}

theorem Counted.refl (e : Engine α (Slot α) ω) : Counted e [] e :=
  ⟨rfl, rfl, rfl, fun _ => by simp⟩

/-- What is learned is all that counting is about. -/
theorem Counted.of_learned (h : Counted before done e)
    (hlearned : after.learned = e.learned) : Counted before done after := by
  obtain ⟨hgraph, hlearned⟩ := Prod.mk.inj hlearned
  obtain ⟨hvertices, hupdates⟩ := Prod.mk.inj hlearned
  refine ⟨hgraph.trans h.graph, (congrArg Array.size hvertices).trans h.size,
    hupdates.trans h.updates, fun v => ?_⟩
  rw [← h.count v, Descent.count, Scene.vertex,
    show after.scene.vertices = e.vertices from hvertices]
  rfl

/-- Applying either fails and changes nothing, or updates the vertex and counts
the update. -/
theorem applyAt_cases (e : Engine α (Slot α) ω) (place : Nat)
    (total : Step α) :
    (∃ cause, (Engine.applyAt program place total).perform e =
        (.error cause, e)) ∨
      ∃ e', (Engine.applyAt program place total).perform e = (.ok (), e') := by
  rw [Engine.applyAt, Attempt.perform_get_bind]
  change (∃ cause, (Engine.heed place (apply e.scene place
      (e.slot program place) total) >>= fun _ => _).perform e = _) ∨
    ∃ e', (Engine.heed place (apply e.scene place
      (e.slot program place) total) >>= fun _ => _).perform e = _
  unfold apply
  cases applied e.scene place (e.slot program place) total with
  | error cause => exact .inl ⟨cause, rfl⟩
  | ok vertex => exact .inr ⟨_, rfl⟩

/-- One more vertex of a turn has been updated. -/
theorem Counted.snoc (h : Counted before done e) {v : Nat} (hv : v ∉ done)
    (hlt : v < e.vertices.size) {total : Step α}
    (happly : (Engine.applyAt program v total).perform e = (.ok (), after)) :
    Counted before (done ++ [v]) after := by
  obtain ⟨vertex, happlied, rfl⟩ := applyAt_ok rfl happly
  refine ⟨h.graph, Array.size_setIfInBounds.trans h.size, ?_, fun w => ?_⟩
  · rw [List.length_append, List.length_singleton, ← Nat.add_assoc,
      ← h.updates]
  · have hw := h.count w
    change ((e.vertices.setIfInBounds v vertex).getD w _).updates = _
    rw [getD_setIfInBounds hlt]
    by_cases hwv : w = v
    · subst hwv
      rw [if_neg hv, Int.add_zero] at hw
      rw [if_pos rfl, updates_of_applied happlied, if_pos (by simp), ← hw]
      rfl
    · rw [if_neg hwv]
      refine Eq.trans ?_ (hw.trans ?_)
      · rfl
      · simp [hwv]

/-- Applying over a turn updates its vertices one after the other, until one
fails. -/
private theorem counted_of_each_applyAt (hnodup : order.Nodup)
    (hlt : ∀ v ∈ order, v < before.vertices.size) {totals : List (Step α)}
    (htotals : totals.length = order.length) (hbefore : Counted before [] e) :
    ∃ done, done <+: order ∧ Counted before done
      ((Attempt.each (order.zip totals) fun (v, total) =>
        Engine.applyAt program v total).perform e).2 := by
  have hplaces : (order.zip totals).map Prod.fst = order :=
    List.map_fst_zip (Nat.le_of_eq htotals.symm)
  have hsome : ∃ seen rest, order.zip totals = seen ++ rest ∧
      Counted before (seen.map Prod.fst)
        ((Attempt.each (order.zip totals) fun (v, total) =>
          Engine.applyAt program v total).perform e).2 := by
    refine Attempt.each_leaves _ _
      (fun seen reached => Counted before (seen.map Prod.fst) reached)
      hbefore ?_
    rintro seen ⟨v, total⟩ rest reached hsplit hreached
    rw [hsplit, List.map_append, List.map_cons] at hplaces
    have hnew : v ∉ seen.map Prod.fst :=
      not_mem_seen hnodup hplaces.symm
    have hmem : v ∈ order := by
      rw [← hplaces]
      simp
    rcases applyAt_cases reached v total with ⟨cause, hfail⟩ | ⟨next, hnext⟩
    · rw [hfail]
      exact hreached
    · rw [hnext, List.map_append]
      exact hreached.snoc hnew (hreached.size ▸ hlt v hmem) hnext
  obtain ⟨seen, rest, hsplit, hseen⟩ := hsome
  refine ⟨seen.map Prod.fst, ⟨rest.map Prod.fst, ?_⟩, hseen⟩
  rw [← hplaces, hsplit, List.map_append]

end Counted

/-! ## Iterations -/

section Iterations

variable {e e' : Engine α (Slot α) ω} {order : List Nat}

/-- Gathering finds one total for each vertex of a turn. -/
private theorem length_totals {totals : List (Step α)}
    {after : Engine α (Slot α) ω}
    (h : (Attempt.collect order (Engine.gatherAt program)).perform e =
      (.ok totals, after)) : totals.length = order.length := by
  refine Attempt.collect_induction
    (fun seen found _ => found.length = seen.length) h rfl ?_
  intro seen found v rest reached total next _ hfound _
  rw [List.length_append, List.length_append, hfound]
  rfl

/-- The four phases, whether they go through or not. -/
theorem counted_of_phases (hvertices : e.vertices.size = e.graph.size)
    (hnodup : order.Nodup) (hlt : ∀ v ∈ order, v < e.graph.size)
    (waiting : Nat → Inbox α) :
    ∃ done, done <+: order ∧ Counted e done
      ((Engine.phases program waiting order).perform e).2 := by
  have hreads := Engine.keeps_learned
    (reading_program : (program : Program α (Slot α) ω).Reading) e.learned
  have hstart : ∀ reached : Engine α (Slot α) ω,
      reached.learned = e.learned → Counted e [] reached :=
    fun reached h => (Counted.refl e).of_learned h
  have hinit : (((Attempt.each order fun v =>
      Engine.initAt program v (waiting v)).perform e).2).learned =
        e.learned :=
    Engine.safe_each (fun v _ => hreads.initAt v (waiting v)) e rfl
  rw [Engine.phases, Attempt.perform_bind]
  cases hrun : (Attempt.each order fun v =>
    Engine.initAt program v (waiting v)).perform e with
  | mk answer taken =>
      rw [hrun] at hinit
      cases answer with
      | error cause => exact ⟨[], List.nil_prefix, hstart taken hinit⟩
      | ok _ =>
          have hgather : (((Attempt.collect order
              (Engine.gatherAt program)).perform taken).2).learned =
                e.learned :=
            Engine.safe_collect (fun v _ => hreads.gatherAt v) taken hinit
          dsimp only
          rw [Attempt.perform_bind]
          cases hrun : (Attempt.collect order
            (Engine.gatherAt program)).perform taken with
          | mk answer gathered =>
              rw [hrun] at hgather
              cases answer with
              | error cause =>
                  exact ⟨[], List.nil_prefix, hstart gathered hgather⟩
              | ok totals =>
                  obtain ⟨done, hdone, hcounted⟩ := counted_of_each_applyAt
                    hnodup (fun v hv => hvertices ▸ hlt v hv)
                    (length_totals hrun) (hstart gathered hgather)
                  refine ⟨done, hdone, ?_⟩
                  refine Attempt.bind_leaves
                    (fun reached => Counted e done reached) hcounted ?_
                  intro _ applied happlied
                  refine happlied.of_learned ?_
                  exact Engine.safe_each (fun v _ => (Engine.keeps_learned
                    reading_program applied.learned).scatterAt v) applied rfl

/-- Phases that go through make up a turn. -/
theorem turn_of_performed {before after : Engine α (Slot α) ω}
    {waiting : Nat → Inbox α} (hsized : before.Sized)
    (hg : before.graph.Faithful) (hnodup : order.Nodup)
    (hlt : ∀ v ∈ order, v < before.graph.size)
    (h : (Engine.phases program waiting order).perform before =
      (.ok (), after)) : Turn before waiting order after := by
  rw [Engine.phases] at h
  obtain ⟨_, taken, hinit, h⟩ := Attempt.perform_bind_ok.mp h
  obtain ⟨totals, gathered, hgather, h⟩ := Attempt.perform_bind_ok.mp h
  obtain ⟨_, applying, happly, hscatter⟩ := Attempt.perform_bind_ok.mp h
  exact turn_of_phases hsized hg hnodup hlt hinit hgather happly hscatter

/-- An iteration that goes through is a turn of the vertices whose turn it
is. -/
theorem turn_of_work (hsized : e.Sized) (hg : e.graph.Faithful)
    (horderly : e.Orderly) (hactive : e.activeCount ≠ 0)
    (h : (Engine.work program e.mode).perform e = (.ok (), e')) :
    Turn e.cleared e.inbox e.order e' := by
  rw [horderly.perform_work hactive] at h
  refine turn_of_performed hsized.cleared ?_ horderly.nodup_order ?_ h
  · rw [Engine.graph_cleared]
    exact hg
  · rw [Engine.graph_cleared]
    exact hsized.lt_of_mem_order horderly

/-- The books are in order after an iteration that goes through. -/
theorem books_of_work (hsized : e.Sized) (hg : e.graph.Faithful)
    (horderly : e.Orderly) (hactive : e.activeCount ≠ 0)
    (h : (Engine.work program e.mode).perform e = (.ok (), e')) :
    (Session.passIteration e').Sized ∧ (Session.passIteration e').Orderly ∧
      (Session.passIteration e').graph = e.graph := by
  have hturn := turn_of_work hsized hg horderly hactive h
  have hlt := hsized.lt_of_mem_order horderly
  rw [← e.graph_cleared] at hg hlt
  exact ⟨⟨hturn.sized.vertices, hturn.sized.slots, hturn.sized.inboxes⟩,
    (hturn.orderly hg hlt horderly.cleared).frame rfl rfl (.refl _),
    hturn.graph_eq.trans e.graph_cleared⟩

/-- Whatever becomes of an iteration, the first of the vertices whose turn it
is have been updated. -/
theorem counted_of_work (hsized : e.Sized) (horderly : e.Orderly) :
    ∃ done, done <+: e.order ∧ Counted e done
      ((Engine.work program e.mode).perform e).2 := by
  rw [Engine.work_leaves]
  obtain ⟨done, hdone, h⟩ := counted_of_phases
    hsized.cleared.vertices horderly.nodup_order
    (by rw [Engine.graph_cleared]; exact hsized.lt_of_mem_order horderly)
    e.inbox
  refine ⟨done, hdone, h.graph.trans e.graph_cleared, ?_,
    h.updates.trans (by rw [Engine.updates_cleared]), fun v => ?_⟩
  · rw [h.size]
    exact e.cleared_frame (fun e => e.vertices.size) fun _ _ => rfl
  · rw [h.count, Descent.count, Engine.scene_cleared]
    rfl

end Iterations

end Descent

end RatingFactors
