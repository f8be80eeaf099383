import Mathlib.Algebra.Order.BigOperators.Group.List
import Mathlib.Algebra.Order.Ring.Int
import RatingFactors.Proofs.Descent.Blocks
import RatingFactors.Proofs.Descent.Iterations
import RatingFactors.Proofs.Engine.Endings

/-!
# Learning under a budget comes to rest

A vertex is woken only while its budget lasts, but it is updated later, in the
next round or after many activations.  Meanwhile its count must not move, and it
does not: nobody of an iteration is a neighbour of anybody else of it.  So every
update is paid from the budget that is left, whatever counts the vertices start
with, and a run has no more iterations than there is budget.

## Main definitions

* `left` — how many updates the budget still allows.
* `Spent` — updates have been paid from the budget; it holds of failed work too.
* `Thrifty` — besides, whoever is active still has budget.

## Main results

* `Thrifty.work` — an iteration keeps an engine thrifty.
* `finishes_of_thrifty` — a run is over before the budget is.
-/

namespace RatingFactors

namespace Descent

variable {α ω : Type} [Scalar α]

/-- How many updates the budget still allows, over all vertices. -/
def left (B : Int) (e : Engine α (Slot α) ω) : Int :=
  sumCounts e.graph.size fun v =>
    (Trainer.budgetLeft B (e.scene.vertex v) : Int)

/-- Updates have been paid from the budget: what was applied and what is left
add up to a total, and no vertex has gone beyond both the budget and its first
count. -/
structure Spent (g : Graph α) (B : Int) (first : Nat → Int) (total : Int)
    (e : Engine α (Slot α) ω) : Prop where
  graph : e.graph = g
  total : (e.updates : Int) + left B e = total
  capped : ∀ v, count e v ≤ max (first v) B

/-- Between two iterations whoever is active still has budget, and in
synchronous mode the active vertices lie on one side of the graph. -/
structure Thrifty (g : Graph α) (B : Int) (first : Nat → Int) (total : Int)
    (e : Engine α (Slot α) ω) : Prop extends Spent g B first total e where
  budget : e.settings.budget = some B
  sized : e.Sized
  orderly : e.Orderly
  awake : ∀ v, Awake e v → count e v < B
  apart : e.mode = .synchronous → OneSided g e.active

/-! ## What is left -/

section Left

variable {B : Int} {e before after : Engine α (Slot α) ω} {done : List Nat}

private theorem left_nonneg : 0 ≤ left B e := by
  refine List.sum_nonneg fun n hn => ?_
  obtain ⟨v, -, rfl⟩ := List.mem_map.mp hn
  exact Int.natCast_nonneg _

/-- As long as a vertex has budget there is some left. -/
theorem left_pos {v : Nat} (hv : v < e.graph.size) (hbudget : count e v < B) :
    0 < left B e := by
  have hone : (1 : Int) ≤ (Trainer.budgetLeft B (e.scene.vertex v) : Int) := by
    unfold Trainer.budgetLeft
    unfold count at hbudget
    omega
  refine lt_of_lt_of_le Int.one_pos (hone.trans ?_)
  refine List.single_le_sum (fun n hn => ?_) _
    (List.mem_map.mpr ⟨v, List.mem_range.mpr hv, rfl⟩)
  obtain ⟨w, -, rfl⟩ := List.mem_map.mp hn
  exact Int.natCast_nonneg _

/-- An update is paid from the budget of its vertex. -/
theorem Counted.updates_add_left (h : Counted before done after)
    (hnodup : done.Nodup) (hlt : ∀ v ∈ done, v < before.graph.size)
    (hbudget : ∀ v ∈ done, Descent.count before v < B) :
    (after.updates : Int) + left B after = before.updates + left B before := by
  have hpaid : (fun v =>
      (Trainer.budgetLeft B (before.scene.vertex v) : Int)) = fun v =>
      (Trainer.budgetLeft B (after.scene.vertex v) : Int) +
        if v ∈ done then 1 else 0 := by
    funext v
    have hcount := h.count v
    have hv := hbudget v
    unfold Descent.count at hcount hv
    unfold Trainer.budgetLeft
    by_cases hdone : v ∈ done
    · rw [if_pos hdone] at hcount ⊢
      have hlow := hv hdone
      omega
    · rw [if_neg hdone] at hcount ⊢
      omega
  rw [left, left, hpaid, sumCounts_add hnodup hlt, h.graph, h.updates]
  omega

end Left

/-! ## One iteration -/

section Steps

variable {g : Graph α} {B total : Int} {first : Nat → Int}
  {e e' before after : Engine α (Slot α) ω} {done : List Nat}

/-- Updating vertices that have budget spends it. -/
theorem Spent.counted (h : Spent g B first total before)
    (hcounted : Counted before done after) (hnodup : done.Nodup)
    (hlt : ∀ v ∈ done, v < before.graph.size)
    (hbudget : ∀ v ∈ done, count before v < B) :
    Spent g B first total after where
  graph := hcounted.graph.trans h.graph
  total := (hcounted.updates_add_left hnodup hlt hbudget).trans h.total
  capped := by
    intro v
    have hv := h.capped v
    rw [hcounted.count v]
    by_cases hdone : v ∈ done
    · have hlow := hbudget v hdone
      rw [if_pos hdone]
      omega
    · rw [if_neg hdone]
      omega

namespace Thrifty

private theorem awake_of_mem_order (h : Thrifty g B first total e) {v : Nat}
    (hv : v ∈ e.order) : count e v < B :=
  h.awake v (h.orderly.isActive_of_mem_order hv)

/-- Nobody whose turn it is is a neighbour of anybody else whose turn it is. -/
theorem oneSided_order (h : Thrifty g B first total e) :
    OneSided g e.order := by
  have hsync := h.apart
  unfold Engine.order
  cases hmode : e.mode with
  | synchronous => exact hsync hmode
  | asynchronous =>
      cases e.queue with
      | nil => exact .inl (by simp)
      | cons v rest =>
          by_cases hcolumn : g.IsColumn v
          · exact .inr (by simpa using hcolumn)
          · exact .inl (by simpa using hcolumn)

/-- Whatever becomes of an iteration, its updates are paid from the budget. -/
theorem spent_of_work (h : Thrifty g B first total e) :
    Spent g B first total ((Engine.work program e.mode).perform e).2 := by
  obtain ⟨done, hdone, hcounted⟩ := counted_of_work h.sized h.orderly
  refine h.toSpent.counted hcounted
    (h.orderly.nodup_order.sublist hdone.sublist) ?_ ?_
  · exact fun v hv =>
      h.sized.lt_of_mem_order h.orderly v (hdone.subset hv)
  · exact fun v hv => h.awake_of_mem_order (hdone.subset hv)

/-- Whoever is active after a turn was active before and has not had a turn, or
is a neighbour of somebody who had one.  Either way there is budget: the count
has not moved since it was looked at. -/
theorem awake_of_turn (hg : g.Bipartite) (h : Thrifty g B first total e)
    (hturn : Turn e.cleared e.inbox e.order e') {w : Nat}
    (hw : Awake e' w) : count e' w < B := by
  have hlt := h.sized.lt_of_mem_order h.orderly
  have hcount : count e' w = count e w + if w ∈ e.order then 1 else 0 := by
    rw [count, hturn.updates_eq, Engine.scene_cleared, count]
  have hactive := (hturn.isActive_iff
    (by rw [Engine.graph_cleared, h.graph]; exact hg.toFaithful)
    (by rw [Engine.graph_cleared]; exact hlt) w).mp hw
  rw [h.orderly.inbox_cleared, Engine.graph_cleared, Engine.settings_cleared,
    Engine.scene_cleared, h.graph] at hactive
  rcases hactive with hstill | ⟨v, hv, hmeets, ⟨-, hbefore⟩ | hafter⟩
  · by_cases hturned : w ∈ e.order
    · rw [if_pos hturned] at hstill
      cases hstill
    · rw [if_neg hturned] at hstill hcount
      rw [hcount, Int.add_zero]
      exact h.awake w hstill
  · have hnot : w ∉ e.order := fun hturned =>
      h.oneSided_order.not_meets hg (h.graph ▸ hlt v hv) hv hturned hmeets
    rw [hcount, if_neg hnot, Int.add_zero]
    simpa [Settings.withinBudget, h.budget, count] using hbefore
  · simpa [Settings.withinBudget, h.budget, count] using hafter

/-- In synchronous mode those who are active next lie on one side again. -/
theorem apart_of_turn (hg : g.Bipartite) (h : Thrifty g B first total e)
    (hturn : Turn e.cleared e.inbox e.order e')
    (hmode : e.mode = .synchronous) : OneSided g e'.active := by
  have hlt := h.sized.lt_of_mem_order h.orderly
  refine h.oneSided_order.of_meets hg
    (fun v hv => h.graph ▸ hlt v hv) fun w hw => ?_
  have hactive := (hturn.isActive_iff
    (by rw [Engine.graph_cleared, h.graph]; exact hg.toFaithful)
    (by rw [Engine.graph_cleared]; exact hlt) w).mp (Engine.mem_active.mp hw)
  rw [Engine.graph_cleared, h.graph] at hactive
  rcases hactive with hstill | ⟨v, hv, hmeets, -⟩
  · have hcleared : e.cleared = e.emptied := by
      rw [Engine.cleared, hmode]
    rw [hcleared, Engine.inbox_emptied] at hstill
    cases hstill
  · exact ⟨v, hv, hmeets⟩

/-- An iteration that goes through keeps an engine thrifty. -/
theorem work (hg : g.Bipartite) (h : Thrifty g B first total e)
    (hactive : e.activeCount ≠ 0)
    (hwork : (Engine.work program e.mode).perform e = (.ok (), e')) :
    Thrifty g B first total (Session.passIteration e') := by
  have hspent := h.spent_of_work
  rw [hwork] at hspent
  have hturn := turn_of_work h.sized (h.graph ▸ hg.toFaithful) h.orderly
    hactive hwork
  obtain ⟨hsized, horderly, -⟩ := books_of_work h.sized
    (h.graph ▸ hg.toFaithful) h.orderly hactive hwork
  exact
    { graph := hspent.graph
      total := hspent.total
      capped := hspent.capped
      budget := by
        rw [← h.budget, ← e.settings_cleared, ← hturn.settings_eq]
        rfl
      sized := hsized
      orderly := horderly
      awake := fun w hw => h.awake_of_turn hg hturn hw
      apart := fun hmode => by
        have hsync := e.mode_cleared.symm.trans
          (hturn.mode_eq.symm.trans hmode)
        exact (h.apart_of_turn hg hturn hsync : OneSided g e'.active) }

/-- Settings with the same budget, the clock, notes and the order of the queue
do not matter. -/
theorem frame (h : Thrifty g B first total e) {settings : Settings α}
    {notes : Array (Note ω)} {queue : List Nat} {startedAt : α}
    (hbudget : settings.budget = some B) (hqueue : queue.Perm e.queue) :
    Thrifty g B first total { e with settings, notes, queue, startedAt } where
  graph := h.graph
  total := h.total
  capped := h.capped
  budget := hbudget
  sized := ⟨h.sized.vertices, h.sized.slots, h.sized.inboxes⟩
  orderly := h.orderly.frame rfl rfl hqueue
  awake := h.awake
  apart := h.apart

/-- Nor does it matter in which order the queue begins, and when. -/
theorem begun (h : Thrifty g B first total e) (order : List Nat)
    (startedAt : α) (horder : order.Perm e.queue) :
    Thrifty g B first total { e with queue := order, startedAt } :=
  h.frame h.budget horder

/-- While somebody is active the budget is not used up. -/
theorem lt_total (h : Thrifty g B first total e)
    (hactive : e.activeCount ≠ 0) : (e.updates : Int) < total := by
  obtain ⟨v, hv⟩ := List.exists_mem_of_ne_nil _
    (h.orderly.order_ne_nil hactive)
  have hpos := left_pos (h.sized.lt_of_mem_order h.orderly v hv)
    (h.awake_of_mem_order hv)
  have htotal := h.total
  omega

end Thrifty

/-- Applications never exceed the total. -/
theorem Spent.le_total (h : Spent g B first total e) :
    (e.updates : Int) ≤ total := by
  have hnonneg : 0 ≤ left B e := left_nonneg
  have htotal := h.total
  omega

/-- Thrift is kept by iterations, as long as nobody changes the budget. -/
theorem kept_thrifty (hg : g.Bipartite) :
    Session.Kept (program : Program α (Slot α) ω) Settings.budget
      (Thrifty g B first total) where
  work := fun _ _ h hactive hwork => h.work hg hactive hwork
  settings := fun _ _ _ h hbudget =>
    h.frame (hbudget.trans h.budget) (.refl _)

end Steps

/-! ## Runs -/

section Runs

variable {μ τ ρ : Type} {g : Graph α} {B total : Int} {first : Nat → Int}
  {s t : Session α (Slot α) ω μ τ ρ} {sizes : List Nat}

/-- Each iteration of a run applies at least one total. -/
theorem length_le_updates (hg : g.Bipartite)
    (hs : Thrifty g B first total s.engine)
    (haggregators : ∀ a ∈ s.aggregators, a.Preserves Settings.budget)
    (hrun : Session.Run program s sizes t) :
    s.engine.updates + sizes.length ≤ t.engine.updates := by
  induction hrun with
  | rest => simp
  | @advance sizes t u hrun hactive _ hadvance ih =>
      have ht := ((kept_thrifty hg).run hrun hs haggregators).1
      obtain ⟨engine, hwork, hreported⟩ := Session.advance_ok hadvance
      have hturn := turn_of_work ht.sized (ht.graph ▸ hg.toFaithful)
        ht.orderly hactive hwork
      have hpos := List.length_pos_iff.mpr (ht.orderly.order_ne_nil hactive)
      have hupdates := hturn.total_eq
      rw [Engine.updates_cleared] at hupdates
      rw [hreported.engine, List.length_append, List.length_singleton]
      change s.engine.updates + (sizes.length + 1) ≤ engine.updates
      omega

/-- Between two iterations of a start the engine is thrifty. -/
theorem thrifty_of_reaches (hg : g.Bipartite)
    (hs : Thrifty g B first total s.engine)
    (haggregators : ∀ a ∈ s.aggregators, a.Preserves Settings.budget)
    (hreaches : s.Reaches program sizes t) :
    Thrifty g B first total t.engine :=
  ((kept_thrifty hg).reaches hreaches hs.begun haggregators).1

/-- A run is over before the budget is used up. -/
theorem finishes_of_thrifty (hg : g.Bipartite)
    (hs : Thrifty g B first total s.engine)
    (haggregators : ∀ a ∈ s.aggregators, a.Preserves Settings.budget)
    {n : Nat} (htotal : total ≤ s.engine.updates + n) :
    Session.Finishes program s n := by
  intro sizes t hreaches hbusy
  have hlt := (thrifty_of_reaches hg hs haggregators hreaches).lt_total hbusy.1
  obtain ⟨begun, hbegun, hrun⟩ := hreaches
  obtain ⟨order, horder, rfl⟩ := Session.begin_ok hbegun
  have hlength := length_le_updates hg (hs.begun order _ horder)
    (fun a ha => by
      obtain ⟨b, hb, rfl⟩ := List.mem_map.mp ha
      exact haggregators b hb) hrun
  change s.engine.updates + sizes.length ≤ t.engine.updates at hlength
  omega

/-- However a start ends, its updates were paid from the budget. -/
theorem spent_of_ended (hg : g.Bipartite)
    (hs : Thrifty g B first total s.engine)
    (haggregators : ∀ a ∈ s.aggregators, a.Preserves Settings.budget)
    {answer : Except Failure Nat} (h : Session.Ended program s answer t) :
    Spent g B first total t.engine :=
  (kept_thrifty hg).ended (fun _ he => he.toSpent)
    (fun _ he _ => he.spent_of_work)
    (fun _ _ _ he => ⟨he.graph, he.total, he.capped⟩)
    hs.begun haggregators h

end Runs

end Descent

end RatingFactors
