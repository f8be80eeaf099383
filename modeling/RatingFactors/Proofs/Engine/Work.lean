import RatingFactors.Proofs.Engine.Phases
import RatingFactors.Proofs.Engine.Runs

/-!
# One iteration in both modes

A round takes all active vertices through the four phases, an activation the
head of the queue.  Apart from this choice the two modes do the same: they empty
the inboxes of the chosen vertices and go through the phases with them.

## Main definitions

* `Engine.order` — the vertices whose turn it is.
* `Engine.cleared` — the engine when their inboxes have been emptied.
* `Engine.phases` — the four phases.

## Main results

* `perform_work` — an iteration is the four phases of a cleared engine.
* `work_leaves` — the engine after it, whether it goes through or not.
* `inbox_cleared` — who finds what in a cleared engine.
-/

namespace RatingFactors

namespace Engine

variable {α σ ω : Type} [Scalar α]

/-- The vertices whose turn it is: all active ones, or the one that has waited
longest. -/
def order (e : Engine α σ ω) : List Nat :=
  match e.mode with
  | .synchronous => e.active
  | .asynchronous => e.queue.take 1

/-- The engine when the inboxes of these vertices have been emptied, and they
have left the queue. -/
def cleared (e : Engine α σ ω) : Engine α σ ω :=
  match e.mode, e.queue with
  | .synchronous, _ => e.emptied
  | .asynchronous, [] => e
  | .asynchronous, v :: rest => e.taken v rest

/-- The four phases of some vertices, given what waits for them. -/
def phases (p : Program α σ ω) (waiting : Nat → Inbox α) (order : List Nat) :
    Attempt (Engine α σ ω) Unit := do
  Attempt.each order fun v => initAt p v (waiting v)
  let totals ← Attempt.collect order (gatherAt p)
  Attempt.each (order.zip totals) fun (v, total) => applyAt p v total
  Attempt.each order (scatterAt p)

section Frame

variable (e : Engine α σ ω)

omit [Scalar α] in
/-- Whatever inboxes and queue do not touch is the same in a cleared
engine. -/
theorem cleared_frame {κ : Type} (field : Engine α σ ω → κ)
    (h : ∀ inboxes queue, field { e with inboxes, queue } = field e) :
    field e.cleared = field e := by
  unfold cleared
  split
  · exact h _ _
  · rfl
  · exact h _ _

omit [Scalar α] in
@[simp] theorem mode_cleared : e.cleared.mode = e.mode :=
  cleared_frame e Engine.mode fun _ _ => rfl

omit [Scalar α] in
@[simp] theorem graph_cleared : e.cleared.graph = e.graph :=
  cleared_frame e Engine.graph fun _ _ => rfl

omit [Scalar α] in
@[simp] theorem settings_cleared : e.cleared.settings = e.settings :=
  cleared_frame e Engine.settings fun _ _ => rfl

omit [Scalar α] in
@[simp] theorem slots_cleared : e.cleared.slots = e.slots :=
  cleared_frame e Engine.slots fun _ _ => rfl

omit [Scalar α] in
@[simp] theorem updates_cleared : e.cleared.updates = e.updates :=
  cleared_frame e Engine.updates fun _ _ => rfl

@[simp] theorem scene_cleared : e.cleared.scene = e.scene :=
  cleared_frame e Engine.scene fun _ _ => rfl

end Frame

variable {p : Program α σ ω} {e : Engine α σ ω}

/-- A round is the four phases of all active vertices. -/
theorem perform_round :
    (round p).perform e = (phases p e.inbox e.active).perform e.emptied := by
  rw [round, Attempt.perform_get_bind]
  dsimp only
  rw [Attempt.perform_set_bind]
  rfl

/-- An activation is the four phases of the head of the queue. -/
theorem perform_activateNext {v : Nat} {rest : List Nat}
    (hqueue : e.queue = v :: rest) :
    (activateNext p).perform e =
      (phases p e.inbox [v]).perform (e.taken v rest) := by
  have hphases : phases p e.inbox [v] = (do
      initAt p v (e.inbox v)
      let total ← gatherAt p v
      applyAt p v total
      scatterAt p v) := by
    simp [phases, Attempt.each, Attempt.collect]
  rw [activateNext, Attempt.perform_get_bind, hqueue, hphases]
  dsimp only
  rw [Attempt.perform_set_bind]

/-- An iteration leaves what its four phases leave.  Where nobody waits an
activation fails, and there is no phase to go through. -/
theorem work_leaves (p : Program α σ ω) (e : Engine α σ ω) :
    ((work p e.mode).perform e).2 =
      ((phases p e.inbox e.order).perform e.cleared).2 := by
  unfold work order cleared
  cases hmode : e.mode with
  | synchronous =>
      dsimp only
      rw [perform_round]
  | asynchronous =>
      cases hqueue : e.queue with
      | nil =>
          rw [activateNext, Attempt.perform_get_bind, hqueue]
          rfl
      | cons v rest =>
          dsimp only
          rw [perform_activateNext hqueue]
          rfl

/-! ## Whose turn it is -/

section Order

variable (horderly : e.Orderly)

include horderly

omit [Scalar α] in
/-- Whose turn it is has been signalled. -/
theorem Orderly.isActive_of_mem_order {v : Nat} (hv : v ∈ e.order) :
    (e.inbox v).isActive = true := by
  unfold order at hv
  split at hv
  · exact mem_active.mp hv
  · rename_i hmode
    exact (horderly.mem_queue hmode v).mp (List.mem_of_mem_take hv)

omit [Scalar α] in
theorem Orderly.nodup_order : e.order.Nodup := by
  unfold order
  split
  · exact nodup_active e
  · exact horderly.nodup.sublist (List.take_sublist _ _)

omit [Scalar α] in
/-- When somebody is active it is somebody's turn. -/
theorem Orderly.order_ne_nil (hactive : e.activeCount ≠ 0) :
    e.order ≠ [] := by
  have hne : e.active ≠ [] := fun hnil => hactive (by
    rw [activeCount, hnil]
    rfl)
  obtain ⟨v, hv⟩ := List.exists_mem_of_ne_nil _ hne
  unfold order
  split
  · exact hne
  · rename_i hmode
    have hqueue := (horderly.mem_queue hmode v).mpr (mem_active.mp hv)
    intro hnil
    rw [List.take_eq_nil_iff] at hnil
    rcases hnil with hnil | hnil
    · cases hnil
    · rw [hnil] at hqueue
      cases hqueue

omit [Scalar α] in
/-- The vertices whose turn it is find an idle inbox, and nobody else's inbox
has changed. -/
theorem Orderly.inbox_cleared (w : Nat) :
    e.cleared.inbox w = if w ∈ e.order then .idle else e.inbox w := by
  unfold cleared order
  split
  · rename_i hmode
    rw [inbox_emptied, hmode]
    dsimp only
    split
    · rfl
    · rename_i hw
      refine (Inbox.eq_idle_of_not_isActive ?_).symm
      rw [← Bool.not_eq_true]
      exact fun h => hw (mem_active.mpr h)
  · rename_i hmode hqueue
    rw [hmode, hqueue]
    rfl
  · rename_i v rest hmode hqueue
    rw [inbox_taken (horderly.lt_of_mem_queue hmode (by rw [hqueue]; simp)),
      hmode, hqueue]
    simp

omit [Scalar α] in
theorem Orderly.cleared : e.cleared.Orderly := by
  unfold Engine.cleared
  split
  · rename_i hmode
    exact horderly.emptied hmode
  · exact horderly
  · rename_i hmode hqueue
    exact horderly.taken hmode hqueue

/-- An iteration is the four phases of a cleared engine. -/
theorem Orderly.perform_work (hactive : e.activeCount ≠ 0) :
    (work p e.mode).perform e =
      (phases p e.inbox e.order).perform e.cleared := by
  have horder := horderly.order_ne_nil hactive
  unfold order at horder
  unfold work order Engine.cleared
  cases hmode : e.mode with
  | synchronous => exact perform_round
  | asynchronous =>
      rw [hmode] at horder
      cases hqueue : e.queue with
      | nil =>
          rw [hqueue] at horder
          exact absurd rfl horder
      | cons v rest => exact perform_activateNext hqueue

end Order

end Engine

end RatingFactors
