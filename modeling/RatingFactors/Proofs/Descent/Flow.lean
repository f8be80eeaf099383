import RatingFactors.Proofs.Descent.Calls
import RatingFactors.Proofs.Descent.Gauges

/-!
# Conservation of flow

Each call for a training edge computes a step for the row and one for the
column.  The row applies its step at once, and the other is sent.  Where
addition is exact, no step is lost, suppressed or taken twice: between any two
iterations a row stands where the steps computed for it have led, and so does a
column once what waits for it is added.  Both steps of a call change the bias by
the same amount, and so the biases of the rows have moved as far as those of
the columns and of the messages under way.

## Main definitions

* `Balanced` — a gauge shows every step that was computed, once.
* `Conserved` — this holds of all gauges, and every call was answered.
* `biasGain`, `biasPending` — the flow of biases.

## Main results

* `Balanced.work` — one iteration keeps the balance.
* `conserved_of_reaches` — so do the iterations of a start.
* `flow_conserved` — every step arrives, and the sums of biases agree.
-/

namespace RatingFactors

variable {α ω : Type} [Scalar α]

/-- The rows of a graph. -/
def Graph.rows (g : Graph α) : List Nat :=
  (List.range g.size).filter fun v => g.IsRow v

/-- The columns of a graph. -/
def Graph.columns (g : Graph α) : List Nat :=
  (List.range g.size).filter fun v => g.IsColumn v

namespace Descent

/-- What a gauge shows has come about by the steps that some calls computed.  A
column shows it when what waits for it is added. -/
structure Balanced {size : Nat} (γ : Gauge α size) (g : Graph α)
    (first : Nat → Vertex α) (e : Engine α (Slot α) ω)
    (calls : List (Call α)) : Prop where
  row : ∀ v < g.size, ¬ g.IsColumn v →
    γ.vertex (e.scene.vertex v) =
      γ.vertex (first v) + Scalar.sum ((stepsOf calls v).map γ.step)
  column : ∀ v < g.size, g.IsColumn v →
    γ.vertex (e.scene.vertex v) + γ.step (e.inbox v).pending =
      γ.vertex (first v) + Scalar.sum ((stepsInto calls v).map γ.step)

/-- Every call was answered, and every gauge is balanced. -/
structure Conserved (size : Nat) (g : Graph α) (first : Nat → Vertex α)
    (e : Engine α (Slot α) ω) (calls : List (Call α)) : Prop where
  answered : ∀ call ∈ calls, Answered g call
  balanced : ∀ γ : Gauge α size, Balanced γ g first e calls

/-! ## One iteration -/

section Iterations

variable {size : Nat} {g : Graph α} {e e' : Engine α (Slot α) ω} {v : Nat}
  (hlawful : Scalar.Lawful α) (γ : Gauge α size) (h : Intact g size e)
  (hactive : e.activeCount ≠ 0)
  (hwork : (Engine.work program e.mode).perform e = (.ok (), e'))

include hlawful h hactive hwork

/-- A vertex of the iteration shows in addition what it takes in, and nobody
else's state has changed. -/
theorem vertex_of_work (hv : v < g.size) :
    γ.vertex (e'.scene.vertex v) = γ.vertex (e.scene.vertex v) +
      if v ∈ e.order then
        γ.step (intake g e.settings e.scene.vertex (e.inbox v).message? v)
      else Scalar.zero := by
  have hgraph := h.graph
  subst hgraph
  have hturn := turn_of_work h.sound.sized h.sound.bipartite.toFaithful
    h.orderly hactive hwork
  have hcleared := h.sound.cleared h.orderly
  by_cases hmem : v ∈ e.order
  · have heq := hturn.vertex_eq hcleared.bipartite hcleared.uniform
      hcleared.slots hmem (by rwa [Engine.graph_cleared]) (h.sound.inboxes v)
    rw [Engine.graph_cleared, Engine.settings_cleared, Engine.scene_cleared]
      at heq
    rw [heq, if_pos hmem]
    exact γ.vertex_settled hlawful (h.sound.uniform.latent v hv)
      (h.sound.uniform.intake_fits h.sound.bipartite.toFaithful hv
        (h.sound.inboxes v))
  · rw [hturn.vertex_not_mem v hmem, Engine.scene_cleared, if_neg hmem,
      hlawful.add_zero]

/-- A row moves by the steps that are computed for it. -/
theorem row_of_work (hv : v < g.size) (hrow : ¬ g.IsColumn v) :
    γ.vertex (e'.scene.vertex v) = γ.vertex (e.scene.vertex v) +
      Scalar.sum ((stepsOf (e.calls program) v).map γ.step) := by
  have hgraph := h.graph
  subst hgraph
  rw [vertex_of_work hlawful γ h hactive hwork hv,
    h.calls_eq hactive hwork, stepsOf_callsOver h.orderly.nodup_order]
  by_cases hmem : v ∈ e.order
  · have hfits : ∀ step ∈ (e.graph.trainingAt v).map
        (ownStep e.graph e.settings e.scene.vertex v), step.Fits size := by
      intro step hstep
      obtain ⟨n, hn, rfl⟩ := List.mem_map.mp hstep
      exact h.sound.uniform.ownStep_fits h.sound.bipartite.toFaithful hv n hn
    rw [if_pos hmem, if_pos ⟨hmem, hrow⟩, intake, if_neg hrow, gatherTotal,
      totalOver, if_neg hrow, γ.step_sum hlawful hfits]
    rfl
  · rw [if_neg hmem, if_neg fun hboth => hmem hboth.1]
    rfl

/-- What waits for a vertex afterwards is what waited before, unless it was the
vertex's turn, and what has been sent to it; still steps do not show. -/
theorem pending_of_work (hreaching : Reaching e) (v : Nat) :
    γ.step (e'.inbox v).pending =
      (if v ∈ e.order then Scalar.zero else γ.step (e.inbox v).pending) +
        Scalar.sum ((stepsInto (e.calls program) v).map γ.step) := by
  have hgraph := h.graph
  subst hgraph
  have hg := h.sound.bipartite.toFaithful
  have hlt := h.sound.sized.lt_of_mem_order h.orderly
  have hturn := turn_of_work h.sound.sized hg h.orderly hactive hwork
  have hcleared := h.sound.cleared h.orderly
  have hboxes := hturn.inbox_messages (by rwa [Engine.graph_cleared])
    (by rwa [Engine.graph_cleared]) v
  rw [Engine.graph_cleared, Engine.settings_cleared, Engine.scene_cleared]
    at hboxes
  have hstill : Scalar.sum ((e.order.flatMap (stillTo e.graph e.settings
      e'.scene.vertex v)).map γ.step) = Scalar.zero := by
    refine hlawful.sum_map_eq_zero fun step hstep => ?_
    obtain ⟨u, -, hstep⟩ := List.mem_flatMap.mp hstep
    obtain ⟨n, -, rfl⟩ := List.mem_map.mp hstep
    rw [stillStep, h.sound.uniform.dimension, Int.toNat_natCast]
    exact γ.still
  have hsent : stepsInto ((program : Program α (Slot α) ω).callsOver e.scene
      e.order) v = e.order.flatMap (sentTo e.graph e.settings e.scene.vertex
        v) := stepsInto_callsOver hg hlt
    (fun u hu => hreaching u (h.orderly.isActive_of_mem_order hu)) v
  rw [hboxes, γ.step_pending hlawful (hcleared.inboxes v)
    (h.sound.uniform.messagesTo_fits hg hlt), messagesTo, List.map_append,
    hlawful.sum_append, hstill, hlawful.add_zero, h.calls_eq hactive hwork,
    hsent, h.orderly.inbox_cleared]
  split
  · rw [show (Inbox.idle : Inbox α).pending = .empty from rfl, γ.empty]
  · rfl

/-- A column, with what waits for it, moves by the steps that are computed for
it. -/
theorem column_of_work (hreaching : Reaching e) (hv : v < g.size)
    (hcolumn : g.IsColumn v) :
    γ.vertex (e'.scene.vertex v) + γ.step (e'.inbox v).pending =
      γ.vertex (e.scene.vertex v) + γ.step (e.inbox v).pending +
        Scalar.sum ((stepsInto (e.calls program) v).map γ.step) := by
  rw [vertex_of_work hlawful γ h hactive hwork hv,
    pending_of_work hlawful γ h hactive hwork hreaching, intake,
    if_pos hcolumn, ← hlawful.add_assoc]
  by_cases hmem : v ∈ e.order
  · rw [if_pos hmem, if_pos hmem, hlawful.add_zero]
    rfl
  · rw [if_neg hmem, if_neg hmem, hlawful.add_zero]

/-- One iteration keeps the balance. -/
theorem Balanced.work (hreaching : Reaching e) {first : Nat → Vertex α}
    {calls : List (Call α)} (hbalanced : Balanced γ g first e calls) :
    Balanced γ g first e' (calls ++ e.calls program) where
  row := by
    intro v hv hrow
    rw [row_of_work hlawful γ h hactive hwork hv hrow,
      hbalanced.row v hv hrow, stepsOf_append, List.map_append,
      hlawful.sum_append, hlawful.add_assoc]
  column := by
    intro v hv hcolumn
    rw [column_of_work hlawful γ h hactive hwork hreaching hv hcolumn,
      hbalanced.column v hv hcolumn, stepsInto_append, List.map_append,
      hlawful.sum_append, hlawful.add_assoc]

end Iterations

/-! ## Runs -/

section Runs

variable {μ τ ρ : Type} {size : Nat} {g : Graph α}
  {s t : Session α (Slot α) ω μ τ ρ} {first : Nat → Vertex α}

/-- What holds before the first iteration, and each iteration keeps, holds
between any two. -/
theorem conserved_of_reaches (hlawful : Scalar.Lawful α) (hsize : 0 < size)
    (hall : ∀ sizes t, s.Reaches program sizes t →
      Intact g size t.engine ∧ Reaching t.engine)
    (hbegin : ∀ begun, Session.begin.perform s = (.ok (), begun) →
      ∀ γ : Gauge α size, Balanced γ g first begun.engine [])
    {sizes : List Nat} (h : s.Reaches program sizes t) :
    Conserved size g first t.engine (s.callsOf program sizes.length) := by
  obtain ⟨begun, hbegun, hrun⟩ := h
  induction hrun with
  | rest =>
      exact
        { answered := fun _ hcall => absurd hcall List.not_mem_nil
          balanced := hbegin begun hbegun }
  | @advance sizes t u hrun hactive _ hadvance ih =>
      have hreaches : s.Reaches program sizes t := ⟨begun, hbegun, hrun⟩
      obtain ⟨hintact, hreaching⟩ := hall sizes t hreaches
      obtain ⟨engine, hwork, hreported⟩ := Session.advance_ok hadvance
      rw [List.length_append, List.length_singleton, Session.callsOf_succ,
        ← hreaches.eq_state, hreported.engine]
      refine ⟨fun call hcall => ?_, fun γ => ?_⟩
      · rcases List.mem_append.mp hcall with hcall | hcall
        · exact ih.answered call hcall
        · exact answered_of_work hsize hintact hreaching hactive hwork call
            hcall
      · have hbalanced := (ih.balanced γ).work hlawful γ hintact hactive hwork
          hreaching
        exact ⟨hbalanced.row, hbalanced.column⟩

end Runs

/-! ## The sums of biases -/

section Biases

/-- How far the biases of some vertices have moved, taken together. -/
def biasGain (first : Nat → Vertex α) (e : Engine α (Slot α) ω)
    (places : List Nat) : α :=
  Scalar.sum (places.map fun v => (e.scene.vertex v).bias - (first v).bias)

/-- How far the steps that wait for some vertices will move their biases. -/
def biasPending (e : Engine α (Slot α) ω) (places : List Nat) : α :=
  Scalar.sum (places.map fun v => (e.inbox v).pending.bias)

variable {g : Graph α} {call : Call α}

omit [Scalar α] in
private theorem nodup_rows : g.rows.Nodup :=
  List.nodup_range.filter _

omit [Scalar α] in
private theorem nodup_columns : g.columns.Nodup :=
  List.nodup_range.filter _

/-- A call that computes steps is made by a row. -/
theorem Answered.place_mem (hg : g.Faithful) (h : Answered g call)
    (hcomputes : call.Computes) : call.place ∈ g.rows := by
  obtain ⟨hn, hedge⟩ := List.mem_filter.mp (h.number hcomputes)
  rw [List.mem_range] at hn
  have hsource := (of_decide_eq_true hedge).2
  have hlt : call.place < g.size := hsource ▸ hg.source_lt _ hn
  exact List.mem_filter.mpr ⟨List.mem_range.mpr hlt,
    decide_eq_true ((hg.isRow_iff hlt).mpr ⟨call.number, hn, hsource⟩)⟩

/-- Its edge leads to a column. -/
theorem Answered.column_mem (hg : g.Faithful) (h : Answered g call)
    (hcomputes : call.Computes) : call.column ∈ g.columns := by
  obtain ⟨hn, -⟩ := List.mem_filter.mp (h.number hcomputes)
  rw [List.mem_range] at hn
  have htarget : (g.edgeAt call.number).target = call.column := by
    rw [← h.graph]
    rfl
  have hlt : call.column < g.size := htarget ▸ hg.target_lt _ hn
  exact List.mem_filter.mpr ⟨List.mem_range.mpr hlt,
    decide_eq_true ((hg.isColumn_iff hlt).mpr ⟨call.number, hn, htarget⟩)⟩

variable {size : Nat} {first : Nat → Vertex α} {e : Engine α (Slot α) ω}
  {calls : List (Call α)}

/-- The biases of the rows have moved as far as those of the columns will have
when what waits for them is applied. -/
theorem Conserved.biasGain_rows (hlawful : Scalar.Lawful α) (hg : g.Bipartite)
    (hsize : 0 < size) (h : Conserved size g first e calls) :
    biasGain first e g.rows =
      biasGain first e g.columns + biasPending e g.columns := by
  have hbalanced := h.balanced (Gauge.bias hsize)
  let computing := calls.filter fun call => call.Computes
  have hanswered : ∀ call ∈ computing, Answered g call ∧ call.Computes :=
    fun call hcall => ⟨h.answered call (List.mem_filter.mp hcall).1,
      of_decide_eq_true (List.mem_filter.mp hcall).2⟩
  have hrow : ∀ v ∈ g.rows, (e.scene.vertex v).bias - (first v).bias =
      Scalar.sum ((computing.filter fun call => call.place = v).map
        fun call => call.rowStep.bias) := by
    intro v hv
    obtain ⟨hv, hrow⟩ := List.mem_filter.mp hv
    rw [List.mem_range] at hv
    have hmoved := hbalanced.row v hv
      (hg.not_isColumn_of_isRow hv (of_decide_eq_true hrow))
    change (e.scene.vertex v).bias = (first v).bias + _ at hmoved
    rw [hmoved, hlawful.add_sub_self, stepsOf, List.map_map,
      List.filter_filter]
    simp only [Bool.decide_and, Bool.and_comm]
    rfl
  have hcolumn : ∀ v ∈ g.columns, (e.scene.vertex v).bias - (first v).bias +
      (e.inbox v).pending.bias =
      Scalar.sum ((computing.filter fun call => call.column = v).map
        fun call => call.columnStep.bias) := by
    intro v hv
    obtain ⟨hv, hcolumn⟩ := List.mem_filter.mp hv
    rw [List.mem_range] at hv
    have hmoved := hbalanced.column v hv (of_decide_eq_true hcolumn)
    change (e.scene.vertex v).bias + (e.inbox v).pending.bias =
      (first v).bias + _ at hmoved
    rw [hlawful.sub_add_eq hmoved, stepsInto, List.map_map,
      List.filter_filter]
    simp only [Bool.decide_and, Bool.and_comm]
    rfl
  calc biasGain first e g.rows
      = Scalar.sum (computing.map fun call => call.rowStep.bias) := by
        rw [biasGain, List.map_congr_left hrow]
        exact hlawful.sum_fibers nodup_rows Call.place _ fun call hcall =>
          (hanswered call hcall).1.place_mem hg.toFaithful
            (hanswered call hcall).2
    _ = Scalar.sum (computing.map fun call => call.columnStep.bias) :=
        congrArg Scalar.sum (List.map_congr_left fun call hcall =>
          (hanswered call hcall).1.bias (hanswered call hcall).2)
    _ = Scalar.sum (g.columns.map fun v =>
          (e.scene.vertex v).bias - (first v).bias +
            (e.inbox v).pending.bias) := by
        rw [List.map_congr_left hcolumn]
        exact (hlawful.sum_fibers nodup_columns Call.column _
          fun call hcall => (hanswered call hcall).1.column_mem hg.toFaithful
            (hanswered call hcall).2).symm
    _ = biasGain first e g.columns + biasPending e g.columns :=
        hlawful.sum_map_add _ _ _

end Biases

/-! ## From the first activation to the end -/

section Fresh

variable {mode : Mode} {g : Graph α} {vertices : Array (Vertex α)}
  {settings : Settings α} {pace : Nat → α} {e : Engine α (Slot α) ω}
  {size : Nat}

/-- Before the first iteration nothing has been computed, and nothing waits for
a column. -/
theorem balanced_of_wakeRows (hlawful : Scalar.Lawful α) (hg : g.Bipartite)
    (hwake : Trainer.wakeRows.perform
      (Engine.make mode g vertices settings none pace) = (.ok (), e))
    (γ : Gauge α size) (queue : List Nat) (startedAt : α) :
    Balanced γ g e.scene.vertex { e with queue, startedAt } [] where
  row := fun v _ _ => (hlawful.add_zero _).symm
  column := by
    intro v hv hcolumn
    have hidle : e.inbox v = .idle := by
      refine Inbox.eq_idle_of_not_isActive (Bool.eq_false_iff.mpr fun h => ?_)
      obtain ⟨-, hrow, -⟩ := (isActive_of_wakeRows hwake v).mp h
      exact hg.not_isColumn_of_isRow hv hrow hcolumn
    refine congrArg (γ.vertex (e.scene.vertex v) + ·) ?_
    change γ.step (e.inbox v).pending = Scalar.zero
    rw [hidle]
    exact γ.empty

/-- A column stands where the steps that were computed for it lead from where it
was first, once what waits for it is added. -/
structure Accounted (size : Nat) (first column : Vertex α) (waiting : Step α)
    (steps : List (Step α)) : Prop where
  length : column.latent.length = size
  latent : ∀ i < size, column.latent.getD i Scalar.zero +
      waiting.delta.getD i Scalar.zero =
    first.latent.getD i Scalar.zero +
      Scalar.sum (steps.map fun step => step.delta.getD i Scalar.zero)
  bias : column.bias + waiting.bias =
    first.bias + Scalar.sum (steps.map Step.bias)

/-- Learning conserves what flows between rows and columns, where addition is
exact.  Let the rows of a fresh engine over a bipartite graph be woken, with
latent vectors of a positive length and all counts zero, whatever the budget,
the mode and the order of the queue; aggregators may change the settings, but
for the budget and the dimension.

* Between any two iterations every call that was made for a training edge at a
  row found the column within budget, and sent it the step computed for it; all
  other calls contributed nothing.
* The latent vector and the bias of a column, with what waits for it, are those
  before the start and the sum of all steps computed for it.
* The biases of the rows, taken together, have moved as far as those of the
  columns and of the messages that wait for columns.
* When a start has ended because there was nothing more to do, nothing waits,
  and both sums of biases have moved equally far. -/
theorem flow_conserved (hlawful : Scalar.Lawful α) (hg : g.Bipartite)
    (hsize : vertices.size = g.size)
    (hfresh : ∀ v ∈ vertices, v.updates = 0) {D : Nat} (hD : 0 < D)
    (hdimension : settings.dimension = D)
    (hlatent : ∀ v (hv : v < vertices.size), vertices[v].latent.length = D)
    (hwake : Trainer.wakeRows.perform
      (Engine.make mode g vertices settings none pace) = (.ok (), e))
    {μ τ ρ : Type} {s : Session α (Slot α) ω μ τ ρ} {queue : List Nat}
    (hqueue : queue.Perm e.queue) (hengine : s.engine = { e with queue })
    (haggregators : ∀ a ∈ s.aggregators,
      a.Preserves Settings.budget ∧ a.Preserves Settings.dimension) :
    let first := s.engine.scene.vertex
    (∀ sizes t, s.Reaches program sizes t →
      let calls := s.callsOf program sizes.length
      (∀ call ∈ calls, Answered g call) ∧
      (∀ c < g.size, g.IsColumn c →
        Accounted D (first c) (t.engine.scene.vertex c)
          (t.engine.inbox c).pending (stepsInto calls c)) ∧
      biasGain first t.engine g.rows =
        biasGain first t.engine g.columns +
          biasPending t.engine g.columns) ∧
    ∀ patience updates t,
      (Session.start program patience).perform s = (.ok updates, t) →
      t.limitReached = none ∨ t.engine.activeCount = 0 →
      (∀ v, t.engine.inbox v = .idle) ∧
        biasGain first t.engine g.rows =
          biasGain first t.engine g.columns := by
  intro first
  have hfirst : first = e.scene.vertex := by
    change s.engine.scene.vertex = e.scene.vertex
    rw [hengine]
    rfl
  have hintact : ∀ sizes t, s.Reaches program sizes t →
      Intact g D t.engine := fun sizes t h =>
    intact_of_reaches hg hsize hdimension hlatent hwake hqueue hengine
      (fun a ha => (haggregators a ha).2) h
  have hreaching : ∀ sizes t, s.Reaches program sizes t →
      Reaching t.engine := fun sizes t h =>
    reaching_of_reaches hg hsize hfresh hwake hqueue hengine
      (fun a ha => (haggregators a ha).1) h
  have hbegin : ∀ begun, Session.begin.perform s = (.ok (), begun) →
      ∀ γ : Gauge α D, Balanced γ g first begun.engine [] := by
    intro begun hbegun γ
    obtain ⟨order, -, rfl⟩ := Session.begin_ok hbegun
    rw [hfirst]
    dsimp only [Session.restarted]
    rw [hengine]
    exact balanced_of_wakeRows hlawful hg hwake γ order _
  have hconserved : ∀ sizes t, s.Reaches program sizes t →
      Conserved D g first t.engine (s.callsOf program sizes.length) :=
    fun sizes t h => conserved_of_reaches hlawful hD
      (fun sizes t h => ⟨hintact sizes t h, hreaching sizes t h⟩) hbegin h
  refine ⟨fun sizes t h => ?_, fun patience updates t hstart hrest => ?_⟩
  · have hflow := hconserved sizes t h
    have hi := hintact sizes t h
    refine ⟨hflow.answered, fun c hc hcolumn => ?_,
      hflow.biasGain_rows hlawful hg hD⟩
    refine
      { length := hi.sound.uniform.latent c (hi.graph ▸ hc)
        latent := fun i hlt => ?_
        bias := ?_ }
    · have hshown := (hflow.balanced (.coordinate i hlt)).column c hc hcolumn
      exact hshown
    · have hshown := (hflow.balanced (.bias hD)).column c hc hcolumn
      exact hshown
  · obtain ⟨sizes, u, hreaches, hover, rfl⟩ := Session.start_ok hstart
    obtain ⟨hbusy, notes, rfl⟩ := Session.not_busy_of_isOver hover
    have hactive : u.engine.activeCount = 0 := by
      by_contra hactive
      exact hrest.elim (fun hlimit => hbusy ⟨hactive, hlimit⟩) hactive
    have hidle : ∀ v, u.engine.inbox v = .idle := fun v =>
      Inbox.eq_idle_of_not_isActive
        (Bool.eq_false_iff.mpr (not_awake_of_rest hactive v))
    refine ⟨hidle, ?_⟩
    have hbiases := (hconserved sizes u hreaches).biasGain_rows hlawful hg hD
    have hpending : biasPending u.engine g.columns = Scalar.zero :=
      hlawful.sum_map_eq_zero fun v _ => by rw [hidle v]; rfl
    rw [hpending, hlawful.add_zero] at hbiases
    exact hbiases

end Fresh

/-! ## On the sample -/

theorem lawful_int : Scalar.Lawful Int where
  add_comm := Int.add_comm
  add_assoc := Int.add_assoc
  add_zero := Int.add_zero
  add_sub_cancel := Int.add_sub_cancel
  sub_add_cancel := Int.sub_add_cancel

/-- An engine over the sample whose learning rate doubles with each report. -/
def doublingSample : Engine Int (Slot Int) Empty :=
  Engine.make .synchronous sampleGraph sampleVertices
    { sampleSettings with rateDecay := 2 } none fun _ => 1

/-- A session of it with its rows woken, and with a monitor that reports after
each round. -/
def doublingSession : LearningSession Int :=
  { (Session.make (Trainer.wakeRows.perform doublingSample).2 none none :
      LearningSession Int) with
    aggregators := [
      { Monitor.aggregator "rmse" ⟨1, false, 0, []⟩ with
        interval := some 0 }] }

/-- After the first round of three rows, steps wait that will lower the biases
of the columns by three, as much as those of the rows have sunk.  In the end
both sides have risen equally far. -/
theorem flow_conserved_sample :
    let first := doublingSession.engine.scene.vertex
    ∃ t u, doublingSession.Reaches program [3] t ∧
      biasPending t.engine sampleGraph.columns = -3 ∧
      biasGain first t.engine sampleGraph.rows =
        biasGain first t.engine sampleGraph.columns +
          biasPending t.engine sampleGraph.columns ∧
      (Session.start program 4).perform doublingSession = (.ok 9, u) ∧
      biasGain first u.engine sampleGraph.rows = 41 ∧
      biasGain first u.engine sampleGraph.rows =
        biasGain first u.engine sampleGraph.columns := by
  intro first
  have hwake : Trainer.wakeRows.perform doublingSample =
      (.ok (), doublingSession.engine) :=
    Attempt.perform_of_toOption (by decide +kernel)
  have hpreserves : ∀ a ∈ doublingSession.aggregators,
      a.Preserves Settings.budget ∧ a.Preserves Settings.dimension := by
    intro a ha
    obtain rfl := List.mem_singleton.mp ha
    exact ⟨preserves_budget_monitor "rmse" ⟨1, false, 0, []⟩,
      preserves_monitor (fun _ => rfl) "rmse" ⟨1, false, 0, []⟩⟩
  obtain ⟨hruns, hends⟩ := flow_conserved lawful_int sampleGraph_bipartite
    rfl (by decide) (by decide) rfl (by decide) hwake (List.Perm.refl _) rfl
    hpreserves
  have hadvance : (Session.advance program).perform
      doublingSession.restarted = (.ok (), _) :=
    Attempt.perform_of_toOption (by decide +kernel)
  have hreaches : doublingSession.Reaches program [3] _ :=
    ⟨doublingSession.restarted, Session.begin_synchronous rfl,
      Session.Run.rest.advance (by decide +kernel) rfl hadvance⟩
  have hstart : (Session.start program 4).perform doublingSession =
      (.ok 9, _) := Attempt.perform_of_toOption (by decide +kernel)
  have hends := hends 4 9 _ hstart (.inl (by decide +kernel))
  exact ⟨_, _, hreaches, by decide +kernel, (hruns [3] _ hreaches).2.2,
    hstart, by decide +kernel, hends.2⟩

end Descent

end RatingFactors
