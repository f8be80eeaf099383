import RatingFactors.Proofs.Descent.Faults
import RatingFactors.Proofs.Engine.Recorded

/-!
# The calls of gradient descent

While it gathers, an active vertex calls its program for each of its edges.
Only a call that a row makes for a training edge computes anything: a step for
the row, and one for the column that the edge leads to.  The second step is sent
only to a column with budget.  A vertex is updated in turn with its neighbours,
and so the column always has some.

## Main definitions

* `Call.Computes`, `Call.rowStep`, `Call.columnStep` — what a call computes.
* `stepsOf`, `stepsInto` — the steps that calls compute for a row or a column.
* `Answered` — what is true of a call that did not fail.
* `Reaching` — active rows find their columns within budget.

## Main results

* `reaching_of_reaches` — they do so throughout a start.
* `answered_of_work` — what becomes of the calls of an iteration.
* `stepsOf_callsOver`, `stepsInto_callsOver` — the steps that an iteration
  computes.
-/

namespace RatingFactors

open Descent (Slot ownStep sentStep)

namespace Call

variable {α : Type} [Scalar α]

/-- The vertex that the edge of a call leads to. -/
def column (call : Call α) : Nat :=
  (call.scene.edge call.number).target

/-- A call computes steps if it is made for a row and for a training edge. -/
def Computes (call : Call α) : Prop :=
  ¬ call.scene.graph.IsColumn call.place ∧
    (call.scene.edge call.number).role = .train

instance (call : Call α) : Decidable call.Computes :=
  inferInstanceAs (Decidable (_ ∧ _))

/-- The step that a call computes for the row that makes it. -/
def rowStep (call : Call α) : Step α :=
  ownStep call.scene.graph call.scene.settings call.scene.vertex call.place
    call.number

/-- The step that a call computes for the column at the other end. -/
def columnStep (call : Call α) : Step α :=
  sentStep call.scene.graph call.scene.settings call.scene.vertex call.place
    call.number

end Call

namespace Descent

variable {α ω : Type} [Scalar α]

/-- The steps that some calls compute for a row. -/
def stepsOf (calls : List (Call α)) (r : Nat) : List (Step α) :=
  (calls.filter fun call => call.Computes ∧ call.place = r).map Call.rowStep

/-- The steps that some calls compute for a column. -/
def stepsInto (calls : List (Call α)) (c : Nat) : List (Step α) :=
  (calls.filter fun call => call.Computes ∧ call.column = c).map
    Call.columnStep

theorem stepsOf_append (calls more : List (Call α)) (r : Nat) :
    stepsOf (calls ++ more) r = stepsOf calls r ++ stepsOf more r := by
  rw [stepsOf, List.filter_append, List.map_append]
  rfl

theorem stepsInto_append (calls more : List (Call α)) (c : Nat) :
    stepsInto (calls ++ more) c = stepsInto calls c ++ stepsInto more c := by
  rw [stepsInto, List.filter_append, List.map_append]
  rfl

/-- What is true of a call that did not fail.  It computes nothing and has
nothing to contribute; or it is made by a row for one of its training edges,
and contributes a step for the row and a message for the column, which has
budget.  Both steps change the bias by the same amount. -/
structure Answered (g : Graph α) (call : Call α) : Prop where
  graph : call.scene.graph = g
  nothing : ¬ call.Computes → ∀ {ω : Type} (slot : Slot α),
    ((program : Program α (Slot α) ω).gather call.scene call.place slot
      call.number).answer = .ok .nothing
  number : call.Computes → call.number ∈ g.trainingFrom call.place
  budget : call.Computes → call.scene.settings.withinBudget
    (call.scene.vertex call.column) = true
  answer : call.Computes → ∀ {ω : Type} (slot : Slot α),
    ((program : Program α (Slot α) ω).gather call.scene call.place slot
      call.number).answer =
        .ok ⟨call.rowStep, some ⟨g.idAt call.column, call.columnStep⟩⟩
  bias : call.Computes → call.rowStep.bias = call.columnStep.bias

/-- The columns at the training edges of active rows have budget. -/
def Reaching (e : Engine α (Slot α) ω) : Prop :=
  ∀ v, Awake e v → ¬ e.graph.IsColumn v → ∀ n ∈ e.graph.trainingAt v,
    reaches e.graph e.settings e.scene.vertex v n = true

/-! ## Budgets -/

section Reaching

variable {g : Graph α} {e : Engine α (Slot α) ω}

/-- In an engine in step the column at a training edge is not ahead of the
row. -/
theorem InStep.reaching {mode : Mode} {B : Int} (hg : g.Bipartite)
    (h : InStep mode g B e) : Reaching e := by
  intro v hv hcolumn n hn
  have hgraph := h.graph
  subst hgraph
  have hlt : v < e.graph.size :=
    h.sized.lt_of_mem_active v (Engine.mem_active.mpr hv)
  have hmeets : e.graph.Meets v (across e.graph v n) := ⟨n, hn, rfl⟩
  have hrow : e.graph.IsRow v := by
    rcases hg.meets_sides hlt hmeets with ⟨hrow, -⟩ | ⟨hno, -⟩
    · exact hrow
    · exact absurd hno hcolumn
  obtain ⟨k, done, hlock, -⟩ := h.block
  have hbudget := hlock.count_lt hg hlt hv hrow hmeets
  rw [reaches, Settings.withinBudget, h.budget]
  exact decide_eq_true hbudget

private theorem reaching_of_unlimited (h : e.settings.budget = none) :
    Reaching e := by
  intro v _ _ n _
  rw [reaches, Settings.withinBudget, h]

private theorem reaching_of_rest (h : e.activeCount = 0) : Reaching e :=
  fun v hv => absurd hv (not_awake_of_rest h v)

/-- A budget that is no budget stays so. -/
theorem kept_unlimited : Session.Kept (program : Program α (Slot α) ω)
    Settings.budget fun e => e.settings.budget = none where
  work := by
    intro e e' h _ hwork
    have hsettings := Engine.frame_work Engine.settings
      (fun _ _ _ _ _ _ _ => rfl) program e
    rw [hwork] at hsettings
    exact (congrArg Settings.budget hsettings).trans h
  settings := fun _ _ _ h hbudget => hbudget.trans h

/-- Where nobody is active nothing is ever done. -/
theorem kept_rest : Session.Kept (program : Program α (Slot α) ω)
    Settings.budget fun e => e.activeCount = 0 where
  work := fun _ _ h hactive => absurd h hactive
  settings := fun _ _ _ h _ => h

/-- Between any two iterations of a start from vertices that have not been
updated, active rows find their columns within budget, whatever the budget. -/
theorem reaching_of_reaches {mode : Mode} {vertices : Array (Vertex α)}
    {settings : Settings α} {pace : Nat → α} {μ τ ρ : Type}
    (hg : g.Bipartite) (hsize : vertices.size = g.size)
    (hfresh : ∀ v ∈ vertices, v.updates = 0)
    (hwake : Trainer.wakeRows.perform
      (Engine.make mode g vertices settings none pace) = (.ok (), e))
    {s t : Session α (Slot α) ω μ τ ρ} {queue : List Nat}
    (hqueue : queue.Perm e.queue) (hengine : s.engine = { e with queue })
    (haggregators : ∀ a ∈ s.aggregators, a.Preserves Settings.budget)
    {sizes : List Nat} (h : s.Reaches program sizes t) :
    Reaching t.engine := by
  have hsettings := settings_of_wakeRows hwake
  cases hbudget : settings.budget with
  | none =>
      refine reaching_of_unlimited (kept_unlimited.reaches h ?_
        haggregators).1
      intro _ _ _
      rw [hengine]
      exact (congrArg Settings.budget hsettings).trans hbudget
  | some B =>
      by_cases hB : 0 ≤ B
      · exact (inStep_of_reaches hg hsize hfresh hbudget hB hwake hqueue
          hengine haggregators h).1.reaching hg
      -- A negative budget wakes nobody.
      · refine reaching_of_rest (kept_rest.reaches h ?_ haggregators).1
        intro _ _ _
        rw [hengine]
        refine List.length_eq_zero_iff.mpr (List.eq_nil_iff_forall_not_mem.mpr
          fun v hv => ?_)
        obtain ⟨hlt, -, hwithin⟩ :=
          (isActive_of_wakeRows hwake v).mp (Engine.mem_active.mp hv)
        have hv : v < vertices.size := hsize ▸ hlt
        rw [Settings.withinBudget, hbudget, vertex_of_wakeRows hwake hv,
          hfresh _ (Array.getElem_mem hv)] at hwithin
        exact hB (Int.le_of_lt (of_decide_eq_true hwithin))

end Reaching

/-! ## The calls of one iteration -/

section Answers

variable {scene : Scene α} {size v n : Nat}

/-- The training edges of a row lead to columns. -/
theorem across_eq_target (hg : scene.graph.Faithful)
    (hv : v < scene.graph.size) (hrow : ¬ scene.graph.IsColumn v)
    (hn : n ∈ scene.graph.trainingAt v) :
    across scene.graph v n = (scene.graph.edgeAt n).target := by
  rw [hg.trainingAt_eq hv hrow] at hn
  have hsource := (of_decide_eq_true (List.mem_filter.mp hn).2).2
  rw [across, Graph.otherEnd, if_pos hsource.symm]

/-- What an edge answers to a row whose residuals are numbers. -/
theorem answer_of_numeric (hf : Fitting size scene)
    (hv : v < scene.graph.size) (hnumeric : Numeric scene v)
    (hrow : ¬ scene.graph.IsColumn v)
    (hn : n ∈ scene.graph.incident v .both) (slot : Slot α) :
    ((scene.graph.edgeAt n).role ≠ .train ∧
      ((program : Program α (Slot α) ω).gather scene v slot n).answer =
        .ok .nothing) ∨
      ((scene.graph.edgeAt n).role = .train ∧
        ((program : Program α (Slot α) ω).gather scene v slot n).answer =
          .ok ⟨ownStep scene.graph scene.settings scene.vertex v n,
            if reaches scene.graph scene.settings scene.vertex v n then
              some ⟨scene.graph.idAt (across scene.graph v n),
                sentStep scene.graph scene.settings scene.vertex v n⟩
            else none⟩) := by
  rcases gather_cases (ω := ω) hf hv hn slot with ⟨c, hanswer, -⟩ |
    ⟨cause, -, hrole, hstumbles⟩
  · rcases gather_row_ok hrow hanswer with ⟨hrole, rfl⟩ | ⟨hrole, x, hc⟩
    · exact .inl ⟨hrole, hanswer⟩
    · obtain ⟨hstep, hout, -⟩ := contribution_ok hc
      refine .inr ⟨hrole, ?_⟩
      rw [hanswer, ← hstep, ← hout]
  · refine absurd hstumbles (hnumeric.not_stumbles fun m hm => ?_)
    rw [List.mem_singleton.mp hm]
    exact List.mem_filter.mpr ⟨hn, by simp [hrole]⟩

/-- The two steps of a call that computes change the bias by the same
amount. -/
theorem bias_ownStep (hu : Uniform scene.graph scene.settings size
    scene.vertex) (hg : scene.graph.Faithful) (hsize : 0 < size)
    (hv : v < scene.graph.size) (hn : n ∈ scene.graph.trainingAt v) :
    (ownStep scene.graph scene.settings scene.vertex v n).bias =
      (sentStep scene.graph scene.settings scene.vertex v n).bias := by
  have hbias : ∀ (delta : List α) (x : α), delta.length = size →
      (Step.of delta x).bias = x := by
    intro delta x hdelta
    cases delta with
    | nil => exact absurd hdelta (Nat.ne_of_lt hsize)
    | cons y ys => rfl
  have hown := (hu.ownStep_fits hg hv n hn).length
  have hsent := (hu.sentStep_fits hg hv n hn).length
  rw [ownStep, gradientStep, Step.delta_of] at hown
  rw [sentStep, gradientStep, Step.delta_of] at hsent
  rw [ownStep, gradientStep, hbias _ _ hown, sentStep, gradientStep,
    hbias _ _ hsent]

/-- What becomes of a call, if the residuals of the vertex that makes it are
numbers and the columns at its training edges have budget. -/
theorem answered_of_numeric (hf : Fitting size scene) (hsize : 0 < size)
    (hv : v < scene.graph.size) (hnumeric : Numeric scene v)
    (hreaching : ¬ scene.graph.IsColumn v → ∀ n ∈ scene.graph.trainingAt v,
      reaches scene.graph scene.settings scene.vertex v n = true)
    (hn : n ∈ scene.graph.incident v .both) :
    Answered scene.graph ⟨scene, v, n⟩ := by
  have hg := hf.bipartite.toFaithful
  have htraining : (⟨scene, v, n⟩ : Call α).Computes →
      n ∈ scene.graph.trainingAt v := fun h =>
    List.mem_filter.mpr ⟨hn, decide_eq_true h.2⟩
  have hcolumn : ∀ h : (⟨scene, v, n⟩ : Call α).Computes,
      across scene.graph v n = (⟨scene, v, n⟩ : Call α).column := fun h =>
    across_eq_target hg hv h.1 (htraining h)
  refine
    { graph := rfl
      nothing := fun h ω slot => ?_
      number := fun h => hg.trainingAt_eq hv h.1 ▸ htraining h
      budget := fun h => ?_
      answer := fun h ω slot => ?_
      bias := fun h => bias_ownStep hf.uniform hg hsize hv (htraining h) }
  · by_cases hrow : scene.graph.IsColumn v
    · change (gather (ω := ω) scene v slot n).answer = _
      rw [gather, if_pos (show 0 < scene.graph.inDegree v from hrow)]
      rfl
    · rcases answer_of_numeric (ω := ω) hf hv hnumeric hrow hn slot with
        ⟨-, hanswer⟩ | ⟨hrole, -⟩
      · exact hanswer
      · exact absurd ⟨hrow, hrole⟩ h
  · rw [← hcolumn h]
    exact hreaching h.1 n (htraining h)
  · rcases answer_of_numeric (ω := ω) hf hv hnumeric h.1 hn slot with
      ⟨hrole, -⟩ | ⟨-, hanswer⟩
    · exact absurd h.2 hrole
    · rw [← hcolumn h]
      refine hanswer.trans ?_
      rw [if_pos (hreaching h.1 n (htraining h))]
      rfl

end Answers

section Iterations

variable {e e' : Engine α (Slot α) ω} {g : Graph α} {size : Nat}

/-- The calls of an iteration that goes through. -/
theorem Intact.calls_eq (h : Intact g size e) (hactive : e.activeCount ≠ 0)
    (hwork : (Engine.work program e.mode).perform e = (.ok (), e')) :
    e.calls program = (program : Program α (Slot α) ω).callsOver e.scene
      e.order :=
  Engine.calls_eq reading_program h.orderly hactive hwork

/-- What becomes of them. -/
theorem answered_of_work (hsize : 0 < size) (h : Intact g size e)
    (hreaching : Reaching e) (hactive : e.activeCount ≠ 0)
    (hwork : (Engine.work program e.mode).perform e = (.ok (), e')) :
    ∀ call ∈ e.calls program, Answered g call := by
  intro call hcall
  rw [h.calls_eq hactive hwork] at hcall
  obtain ⟨v, hv, hcall⟩ := List.mem_flatMap.mp hcall
  obtain ⟨n, hn, rfl⟩ := List.mem_map.mp hcall
  have hgraph := h.graph
  subst hgraph
  have hlt := h.sound.sized.lt_of_mem_order h.orderly v hv
  have hturn := turn_of_work h.sound.sized h.sound.bipartite.toFaithful
    h.orderly hactive hwork
  have hnumeric : Numeric e.scene v := by
    have hnumber := hturn.number v hv
    rwa [Engine.graph_cleared, Engine.settings_cleared, Engine.scene_cleared]
      at hnumber
  exact answered_of_numeric h.sound.poised.fitting hsize hlt hnumeric
    (hreaching v (h.orderly.isActive_of_mem_order hv)) hn

end Iterations

/-! ## The steps that are computed -/

section Steps

variable {scene : Scene α} {order : List Nat}

/-- The calls of one vertex that compute steps. -/
def computing (scene : Scene α) (v : Nat) : List (Call α) :=
  if scene.graph.IsColumn v then []
  else (scene.graph.trainingAt v).map fun n => ⟨scene, v, n⟩

/-- Those of some vertices, among all their calls. -/
theorem filter_callsOver (order : List Nat) :
    ((program : Program α (Slot α) ω).callsOver scene order).filter
        (fun call => call.Computes) = order.flatMap (computing scene) := by
  rw [Program.callsOver, List.filter_flatMap]
  refine List.flatMap_congr fun v _ => ?_
  rw [List.filter_map, computing]
  split
  · rename_i hcolumn
    rw [List.map_eq_nil_iff, List.filter_eq_nil_iff]
    intro n _
    simp [Call.Computes, hcolumn]
  · rename_i hrow
    refine congrArg _ (List.filter_congr fun n _ => ?_)
    exact decide_eq_decide.mpr (and_iff_right hrow)

private theorem place_of_mem_computing {v : Nat} {call : Call α}
    (h : call ∈ computing scene v) : call.place = v := by
  unfold computing at h
  split at h
  · exact absurd h List.not_mem_nil
  · obtain ⟨n, -, rfl⟩ := List.mem_map.mp h
    rfl

/-- The calls that one of some vertices makes. -/
theorem filter_place (scene : Scene α) (hnodup : order.Nodup) (r : Nat) :
    (order.flatMap (computing scene)).filter (fun call => call.place = r) =
      if r ∈ order then computing scene r else [] := by
  induction order with
  | nil => rfl
  | cons v rest ih =>
      rw [List.nodup_cons] at hnodup
      rw [List.flatMap_cons, List.filter_append, ih hnodup.2]
      by_cases hv : v = r
      · subst hv
        rw [List.filter_eq_self.mpr fun call hcall =>
          decide_eq_true (place_of_mem_computing hcall), if_neg hnodup.1,
          if_pos List.mem_cons_self, List.append_nil]
      · have hnone : (computing scene v).filter (fun call => call.place = r) =
            [] := by
          refine List.filter_eq_nil_iff.mpr fun call hcall => ?_
          rw [place_of_mem_computing hcall]
          simpa using hv
        rw [hnone, List.nil_append]
        simp only [List.mem_cons, Ne.symm hv, false_or]

/-- An iteration computes for a row of it what the row gathers. -/
theorem stepsOf_callsOver (hnodup : order.Nodup) (r : Nat) :
    stepsOf ((program : Program α (Slot α) ω).callsOver scene order) r =
      if r ∈ order ∧ ¬ scene.graph.IsColumn r then
        (scene.graph.trainingAt r).map
          (ownStep scene.graph scene.settings scene.vertex r)
      else [] := by
  have hfilter := filter_place scene hnodup r
  rw [← filter_callsOver (ω := ω), List.filter_filter] at hfilter
  have hsteps : stepsOf ((program : Program α (Slot α) ω).callsOver scene
      order) r = (if r ∈ order then computing scene r else []).map
        Call.rowStep := by
    rw [stepsOf, ← hfilter]
    refine congrArg _ (List.filter_congr fun call _ => ?_)
    rw [Bool.decide_and, Bool.and_comm]
  rw [hsteps]
  by_cases hr : r ∈ order
  · by_cases hcolumn : scene.graph.IsColumn r
    · rw [if_pos hr, if_neg fun h => h.2 hcolumn, computing, if_pos hcolumn]
      rfl
    · rw [if_pos hr, if_pos ⟨hr, hcolumn⟩, computing, if_neg hcolumn,
        List.map_map]
      rfl
  · rw [if_neg hr, if_neg fun h => hr h.1]
    rfl

/-- An iteration computes for a column what is sent to it, if the columns have
budget. -/
theorem stepsInto_callsOver (hg : scene.graph.Faithful)
    (hlt : ∀ v ∈ order, v < scene.graph.size)
    (hreaching : ∀ v ∈ order, ¬ scene.graph.IsColumn v →
      ∀ n ∈ scene.graph.trainingAt v,
        reaches scene.graph scene.settings scene.vertex v n = true)
    (c : Nat) :
    stepsInto ((program : Program α (Slot α) ω).callsOver scene order) c =
      order.flatMap (sentTo scene.graph scene.settings scene.vertex c) := by
  have hsteps : stepsInto ((program : Program α (Slot α) ω).callsOver scene
      order) c = ((order.flatMap (computing scene)).filter fun call =>
        call.column = c).map Call.columnStep := by
    rw [stepsInto, ← filter_callsOver (ω := ω), List.filter_filter]
    refine congrArg _ (List.filter_congr fun call _ => ?_)
    rw [Bool.decide_and, Bool.and_comm]
  rw [hsteps, List.filter_flatMap, List.map_flatMap]
  refine List.flatMap_congr fun v hv => ?_
  unfold computing sentTo
  split
  · rfl
  · rename_i hrow
    rw [List.filter_map, List.map_map]
    refine congrArg _ (List.filter_congr fun n hn => ?_)
    rw [across_eq_target hg (hlt v hv) hrow hn, hreaching v hv hrow n hn]
    exact decide_eq_decide.mpr (and_iff_left rfl).symm

end Steps

end Descent

end RatingFactors
