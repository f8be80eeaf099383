import Mathlib.Algebra.BigOperators.Ring.Finset
import RatingFactors.Proofs.Descent.Budget

/-!
# What a budget allows

The budget that is left when learning begins is an allowance for the whole run.
On an engine at rest, whatever counts its vertices start with, nothing has been
paid from it yet; and the rows that are woken first have budget.

## Main definitions

* `Engine.Resting` — nothing has been signalled or applied.
* `allowance` — how many updates a budget allows.

## Main results

* `thrifty_of_resting` — an engine at rest whose rows are woken is thrifty.
-/

namespace RatingFactors

/-- An engine at rest: nobody has been signalled, and nothing was applied. -/
structure Engine.Resting {α σ ω : Type} (e : Engine α σ ω) : Prop where
  sized : e.Sized
  idle : ∀ v, e.inbox v = .idle
  queue : e.queue = []
  updates : e.updates = 0

theorem Engine.resting_make {α σ ω : Type} [Scalar α] {mode : Mode}
    {g : Graph α} {vertices : Array (Vertex α)} {settings : Settings α}
    {fresh : σ} {pace : Nat → α} (h : vertices.size = g.size) :
    (make mode g vertices settings fresh pace : Engine α σ ω).Resting where
  sized := sized_make h
  idle := fun v => inbox_make v
  queue := rfl
  updates := rfl

namespace Descent

variable {α ω : Type} [Scalar α]

/-- How many updates a budget allows vertices that start with these counts. -/
def allowance (B : Int) (vertices : Array (Vertex α)) : Nat :=
  (vertices.toList.map (Trainer.budgetLeft B)).sum

/-! ## Waking the rows of an engine at rest -/

section Waking

variable {g : Graph α} {B : Int} {e woken : Engine α (Slot α) ω}

/-- What is left at first is the allowance. -/
theorem left_eq_allowance (h : e.Sized) :
    left B e = allowance B e.vertices := by
  have hplaces : (List.range e.graph.size).map (fun v =>
      Trainer.budgetLeft B (e.scene.vertex v)) =
      e.vertices.toList.map (Trainer.budgetLeft B) := by
    refine List.ext_getElem (by simp [h.vertices]) fun v hv hv' => ?_
    have hlt : v < e.vertices.size := by simpa using hv'
    simp [Scene.vertex, Engine.scene, hlt]
  rw [left, allowance, ← hplaces, sumCounts, Nat.cast_list_sum, List.map_map]
  rfl

/-- Whoever is active on an engine at rest after waking its rows is a row with
budget. -/
theorem awake_of_resting (h : e.Resting)
    (hwake : Trainer.wakeRows.perform e = (.ok (), woken)) {v : Nat}
    (hv : Awake woken v) : v < e.graph.size ∧ e.graph.IsRow v ∧
      e.settings.withinBudget (e.scene.vertex v) = true := by
  rw [wakeRows_ok hwake, Awake, Engine.isActive_inbox_postAll fun post hpost =>
    h.sized.inboxes.symm ▸ wakePosts_lt post hpost, h.idle v] at hv
  exact mem_targets_wakePosts.mp (hv.resolve_left Bool.false_ne_true)

/-- An engine at rest is thrifty once its rows have been woken, in whatever
order its queue is put. -/
theorem thrifty_of_resting (hg : g.Bipartite) (h : e.Resting)
    (hgraph : e.graph = g) (hbudget : e.settings.budget = some B)
    (hwake : Trainer.wakeRows.perform e = (.ok (), woken)) :
    Thrifty g B (count e) (allowance B e.vertices) woken := by
  have hwoken := wakeRows_ok hwake
  have hscene : woken.scene = e.scene := by
    rw [hwoken, Engine.scene_postAll]
  have hcount : count woken = count e := by
    funext v
    rw [count, hscene, count]
  have hinboxes : woken.inboxes.size = e.inboxes.size := by
    rw [hwoken, Engine.inboxes_size_postAll]
  have hsame : woken.graph = e.graph := congrArg Scene.graph hscene
  have horderly : e.Orderly :=
    { nodup := h.queue ▸ List.nodup_nil
      mem_queue := fun _ v => by simp [h.queue, h.idle v, Inbox.isActive]
      silent := fun _ => h.queue }
  exact
    { graph := hsame.trans hgraph
      total := by
        have hleft : left B woken = left B e := by
          rw [left, left, hscene, hsame]
        rw [hleft, left_eq_allowance h.sized, hwoken, Engine.updates_postAll,
          h.updates]
        exact Int.zero_add _
      capped := fun v => hcount ▸ Int.le_max_left _ _
      budget := (congrArg (fun scene => scene.settings.budget) hscene).trans
        hbudget
      sized :=
        { vertices := (congrArg (fun scene => scene.vertices.size)
            hscene).trans (h.sized.vertices.trans (congrArg _ hsame.symm))
          slots := by
            rw [hwoken, Engine.slots_postAll, Engine.graph_postAll]
            exact h.sized.slots
          inboxes := hinboxes.trans
            (h.sized.inboxes.trans (congrArg _ hsame.symm)) }
      orderly := hwoken ▸ horderly.postAll fun post hpost =>
        h.sized.inboxes.symm ▸ wakePosts_lt post hpost
      awake := fun v hv => by
        have hlow := (awake_of_resting h hwake hv).2.2
        rw [hcount]
        simpa [Settings.withinBudget, hbudget, count] using hlow
      apart := fun _ => .inl fun v hv => by
        obtain ⟨hlt, hrow, -⟩ :=
          awake_of_resting h hwake (Engine.mem_active.mp hv)
        exact hg.not_isColumn_of_isRow (hgraph ▸ hlt) (hgraph ▸ hrow) }

end Waking

end Descent

end RatingFactors
