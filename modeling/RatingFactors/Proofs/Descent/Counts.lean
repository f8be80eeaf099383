import RatingFactors.Proofs.Descent.Lockstep
import RatingFactors.Proofs.Descent.Waking
import RatingFactors.Proofs.Engine.Endings
import RatingFactors.Proofs.Sample

/-!
# Update counts

Under a budget, and starting from vertices that have not been updated, the
engine updates every vertex with a training edge exactly as often as its budget
allows, in both modes and whatever order the queue starts in.  The ends of a
training edge are updated in turn.

The invariant of a run is `InStep`: the counts and the active vertices are in
`Lockstep`, and in asynchronous mode those who are still due in the present
block wait at the head of the queue.

## Main results

* `InStep.round`, `InStep.activate` — one iteration keeps the invariant.
* `kept_inStep`, `inStep_of_reaches` — every state between two iterations has
  it.
* `training_counts` — the counts during a run and at its end.
-/

namespace RatingFactors

namespace Descent

open Engine (Sized Orderly)

variable {α ω : Type} [Scalar α]

/-- How often a vertex has been updated. -/
def count (e : Engine α (Slot α) ω) (v : Nat) : Int :=
  (e.scene.vertex v).updates

/-- Is the vertex active? -/
def Awake (e : Engine α (Slot α) ω) (v : Nat) : Prop :=
  (e.inbox v).isActive = true

omit [Scalar α] in
theorem not_awake_of_rest {e : Engine α (Slot α) ω} (h : e.activeCount = 0)
    (v : Nat) : ¬ Awake e v := by
  intro hv
  have hmem := Engine.mem_active.mpr hv
  rw [List.length_eq_zero_iff.mp h] at hmem
  exact List.not_mem_nil hmem

/-- How often the first vertices have been updated, taken together. -/
def sumCounts (size : Nat) (count : Nat → Int) : Int :=
  ((List.range size).map count).sum

/-- The engine is in step: some block of its work is under way. -/
structure InStep (mode : Mode) (g : Graph α) (B : Int)
    (e : Engine α (Slot α) ω) : Prop where
  mode : e.mode = mode
  graph : e.graph = g
  budget : e.settings.budget = some B
  sized : e.Sized
  orderly : e.Orderly
  total : (e.updates : Int) = sumCounts g.size (count e)
  block : ∃ k done, Lockstep g B k done (count e) (Awake e) ∧
    (e.mode = .synchronous → done = [] ∧ e.iteration = k) ∧
    (e.mode = .asynchronous → ∃ due woken, e.queue = due ++ woken ∧
      ∀ v, v ∈ due ↔ Due g B k v ∧ v ∉ done)

/-! ## Counting all updates -/

/-- Counting one more for some places adds how many of them there are. -/
private theorem sum_map_add_ite (order places : List Nat) (count : Nat → Int) :
    (places.map fun v => count v + if v ∈ order then 1 else 0).sum =
      (places.map count).sum +
        ((places.filter fun v => v ∈ order).length : Int) := by
  induction places with
  | nil => rfl
  | cons v rest ih =>
      rw [List.map_cons, List.sum_cons, List.map_cons, List.sum_cons, ih]
      by_cases hv : v ∈ order
      · rw [if_pos hv, List.filter_cons_of_pos (by simpa using hv),
          List.length_cons]
        omega
      · rw [if_neg hv, List.filter_cons_of_neg (by simpa using hv)]
        omega

/-- If each vertex of a list counts one more, the sum grows by the length of
the list. -/
theorem sumCounts_add {size : Nat} {order : List Nat} (hnodup : order.Nodup)
    (hlt : ∀ v ∈ order, v < size) (count : Nat → Int) :
    sumCounts size (fun v => count v + if v ∈ order then 1 else 0) =
      sumCounts size count + order.length := by
  have hperm : ((List.range size).filter fun v => v ∈ order).Perm order := by
    refine (List.perm_ext_iff_of_nodup (List.nodup_range.filter _)
      hnodup).mpr fun v => ?_
    rw [List.mem_filter, List.mem_range, decide_eq_true_eq]
    exact ⟨And.right, fun hv => ⟨hlt v hv, hv⟩⟩
  rw [sumCounts, sum_map_add_ite, hperm.length_eq]
  rfl

/-! ## One iteration -/

section Steps

variable {mode : Mode} {g : Graph α} {B : Int}
  {e before after : Engine α (Slot α) ω} {order : List Nat}
  {waiting : Nat → Inbox α}

/-- A turn of vertices that are due in a block carries it on. -/
theorem Lockstep.turn (hg : g.Bipartite) {k : Nat} {done : List Nat}
    (h : Lockstep g B k done (count e) (Awake e))
    (hturn : Turn before waiting order after) (hgraph : before.graph = g)
    (hbudget : before.settings.budget = some B)
    (hvertices : before.vertices = e.vertices)
    (hawake : ∀ w, Awake before w ↔ Awake e w ∧ w ∉ order)
    (hdue : ∀ v ∈ order, Due g B k v) (hnew : ∀ v ∈ order, v ∉ done) :
    Lockstep g B k (done ++ order) (count after) (Awake after) := by
  have hcountBefore : ∀ v, (before.scene.vertex v).updates = count e v := by
    intro v
    rw [count, Scene.vertex, Scene.vertex]
    rw [show before.scene.vertices = e.scene.vertices from hvertices]
  refine h.extend hg hdue hnew ?_ ?_
  · intro v
    rw [count, hturn.updates_eq, hcountBefore]
  · intro w
    have hlt : ∀ v ∈ order, v < before.graph.size := by
      intro v hv
      rw [hgraph]
      exact (hdue v hv).1
    have hfaithful : before.graph.Faithful := hgraph ▸ hg.toFaithful
    have hbefore : before.settings.withinBudget (before.scene.vertex w) =
        true ↔ count e w < B := by
      rw [Settings.withinBudget, hbudget]
      dsimp only
      rw [decide_eq_true_eq, hcountBefore]
    have hafter : before.settings.withinBudget (after.scene.vertex w) =
        true ↔ count after w < B := by
      rw [Settings.withinBudget, hbudget]
      dsimp only
      rw [decide_eq_true_eq, count]
    rw [Awake, hturn.isActive_iff hfaithful hlt, hbefore, hafter, hgraph]
    exact or_congr_left (hawake w)

/-- The sum of all counts after a turn. -/
theorem total_turn (hturn : Turn before waiting order after)
    (hnodup : order.Nodup) (hlt : ∀ v ∈ order, v < g.size)
    (h : (before.updates : Int) = sumCounts g.size (count before)) :
    (after.updates : Int) = sumCounts g.size (count after) := by
  have hcount : count after = fun v =>
      count before v + if v ∈ order then 1 else 0 := by
    funext v
    exact hturn.updates_eq v
  rw [hcount, sumCounts_add hnodup hlt, ← h, hturn.total_eq, Int.natCast_add]

/-- After a turn an engine is in step again as soon as its blocks are. -/
theorem InStep.of_turn (hg : g.Bipartite)
    (hturn : Turn before waiting order after) (hmode : before.mode = mode)
    (hgraph : before.graph = g) (hbudget : before.settings.budget = some B)
    (horderly : before.Orderly) (hnodup : order.Nodup)
    (hlt : ∀ v ∈ order, v < g.size)
    (htotal : (before.updates : Int) = sumCounts g.size (count before))
    (hblock : ∃ k done, Lockstep g B k done (count after) (Awake after) ∧
      (after.mode = .synchronous → done = [] ∧ after.iteration + 1 = k) ∧
      (after.mode = .asynchronous → ∃ due woken, after.queue = due ++ woken ∧
        ∀ v, v ∈ due ↔ Due g B k v ∧ v ∉ done)) :
    InStep mode g B (Session.passIteration after) where
  mode := hturn.mode_eq.trans hmode
  graph := hturn.graph_eq.trans hgraph
  budget := (congrArg Settings.budget hturn.settings_eq).trans hbudget
  sized := ⟨hturn.sized.vertices, hturn.sized.slots, hturn.sized.inboxes⟩
  orderly := (hturn.orderly (hgraph ▸ hg.toFaithful) (hgraph ▸ hlt)
    horderly).frame rfl rfl (.refl _)
  total := by
    have hafter := total_turn hturn hnodup hlt htotal
    exact hafter
  block := hblock

/-- A round updates everybody who is due in a block, and begins the next. -/
theorem InStep.round (hg : g.Bipartite) (h : InStep mode g B e)
    (hmode : e.mode = .synchronous) (hactive : e.activeCount ≠ 0)
    (hround : (Engine.round program).perform e = (.ok (), after)) :
    InStep mode g B (Session.passIteration after) := by
  obtain ⟨k, done, hlock, hsync, -⟩ := h.block
  obtain ⟨rfl, hiteration⟩ := hsync hmode
  have hturn := turn_of_round h.sized (h.graph ▸ hg.toFaithful) hround
  have hmem : ∀ v, v ∈ e.active ↔ Due g B k v := by
    intro v
    rw [Engine.mem_active]
    exact (hlock.active_iff v).trans (by simp)
  have hidle : ∀ w, ¬ Awake e.emptied w := by
    intro w
    rw [Awake, Engine.inbox_emptied]
    simp [Inbox.isActive]
  have hextended := hlock.turn hg hturn h.graph h.budget rfl
    (fun w => iff_of_false (hidle w)
      fun h => h.2 (Engine.mem_active.mpr h.1))
    (fun v hv => (hmem v).mp hv) (by simp)
  obtain ⟨v, hv⟩ := List.exists_mem_of_ne_nil e.active
    fun hnil => hactive (by rw [Engine.activeCount, hnil]; rfl)
  have hnext := hextended.next hg
    (fun v hv => by simpa using (hmem v).mpr hv) ⟨v, (hmem v).mp hv⟩
  refine InStep.of_turn hg hturn h.mode h.graph h.budget
    (h.orderly.emptied hmode) (Engine.nodup_active e)
    (fun v hv => ((hmem v).mp hv).1) h.total ⟨k + 1, [], hnext, ?_, ?_⟩
  · intro _
    refine ⟨rfl, ?_⟩
    rw [← hiteration]
    exact congrArg (· + 1) hturn.iteration_eq
  · intro hasync
    have hsame : e.mode = .asynchronous := hturn.mode_eq.symm.trans hasync
    rw [hsame] at hmode
    cases hmode

/-- When somebody is active, the head of the queue is due in the block that is
under way, or in the next one if that is finished. -/
theorem InStep.exists_due (hg : g.Bipartite) (h : InStep mode g B e)
    (hmode : e.mode = .asynchronous) (hqueue : e.queue ≠ []) :
    ∃ k done v due woken, Lockstep g B k done (count e) (Awake e) ∧
      e.queue = v :: due ++ woken ∧
      ∀ w, w ∈ v :: due ↔ Due g B k w ∧ w ∉ done := by
  obtain ⟨k, done, hlock, -, hasync⟩ := h.block
  obtain ⟨due, woken, hsplit, hdue⟩ := hasync hmode
  cases due with
  | cons v due => exact ⟨k, done, v, due, woken, hlock, hsplit, hdue⟩
  | nil =>
      have hall : ∀ w, Due g B k w → w ∈ done := by
        intro w hw
        by_cases hdone : w ∈ done
        · exact hdone
        · exact absurd ((hdue w).mpr ⟨hw, hdone⟩) List.not_mem_nil
      have hmem : ∀ w, w ∈ e.queue ↔ Awake e w :=
        h.orderly.mem_queue hmode
      obtain ⟨v, rest, hrest⟩ := List.exists_cons_of_ne_nil hqueue
      have hv : Awake e v := (hmem v).mp (by rw [hrest]; simp)
      have hsome : ∃ u, Due g B k u := by
        rcases (hlock.active_iff v).mp hv with ⟨hv, -⟩ | ⟨-, u, hu, -⟩
        · exact ⟨v, hv⟩
        · exact ⟨u, hlock.due u hu⟩
      have hnext := hlock.next hg hall hsome
      refine ⟨k + 1, [], v, rest, [], hnext, by rw [hrest, List.append_nil],
        fun w => ?_⟩
      rw [← hrest, hmem]
      exact (hnext.active_iff w).trans (by simp)

/-- An activation updates the head of the queue, who is due. -/
theorem InStep.activate (hg : g.Bipartite) (h : InStep mode g B e)
    (hmode : e.mode = .asynchronous)
    (hactivate : (Engine.activateNext program).perform e =
      (.ok (), after)) :
    InStep mode g B (Session.passIteration after) := by
  obtain ⟨v, rest, hhead, hv, hturn⟩ := turn_of_activateNext h.sized
    (h.graph ▸ hg.toFaithful) h.orderly hmode hactivate
  obtain ⟨k, done, v', due, woken, hlock, hsplit, hdue⟩ :=
    h.exists_due hg hmode (by rw [hhead]; simp)
  rw [hhead] at hsplit
  obtain ⟨rfl, rfl⟩ := List.cons.inj hsplit
  obtain ⟨hvdue, hvnew⟩ := (hdue v).mp List.mem_cons_self
  have hlt : ∀ w ∈ [v], w < g.size := by
    intro w hw
    rw [List.mem_singleton.mp hw]
    exact hvdue.1
  have hextended := hlock.turn hg hturn h.graph h.budget rfl
    (fun w => by
      rw [Awake, Engine.inbox_taken (h.sized.inboxes ▸ hv), Awake,
        List.mem_singleton]
      by_cases hw : w = v
      · rw [if_pos hw]
        simp [hw, Inbox.isActive]
      · rw [if_neg hw]
        simp [hw])
    (fun w hw => List.mem_singleton.mp hw ▸ hvdue)
    (fun w hw => List.mem_singleton.mp hw ▸ hvnew)
  refine InStep.of_turn hg hturn h.mode h.graph h.budget
    (h.orderly.taken hmode hhead) (by simp) hlt h.total
    ⟨k, done ++ [v], hextended, ?_, ?_⟩
  · intro hsync
    have hsame : e.mode = .synchronous := hturn.mode_eq.symm.trans hsync
    rw [hsame] at hmode
    cases hmode
  · intro _
    obtain ⟨fresh, hfresh⟩ := hturn.queue_eq
    refine ⟨due, woken ++ fresh, ?_, fun w => ?_⟩
    · rw [← List.append_assoc]
      exact hfresh
    · have hnodup := h.orderly.nodup
      rw [hhead, List.nodup_cons] at hnodup
      have hvout : v ∉ due :=
        fun hmem => hnodup.1 (List.mem_append_left _ hmem)
      have hw := hdue w
      rw [List.mem_cons] at hw
      rw [List.mem_append, List.mem_singleton]
      by_cases hwv : w = v
      · subst hwv
        simp [hvout]
      · simp only [hwv, false_or, or_false] at hw ⊢
        exact hw

/-- What aggregators reach does not disturb the invariant, as long as they
leave the budget alone. -/
theorem InStep.reported (h : InStep mode g B e) {settings : Settings α}
    {notes : Array (Note ω)} (hbudget : settings.budget = some B) :
    InStep mode g B { e with settings, notes } where
  mode := h.mode
  graph := h.graph
  budget := hbudget
  sized := ⟨h.sized.vertices, h.sized.slots, h.sized.inboxes⟩
  orderly := h.orderly.frame rfl rfl (.refl _)
  total := h.total
  block := h.block

end Steps

/-! ## Runs -/

section Runs

variable {μ τ ρ : Type} {mode : Mode} {g : Graph α} {B : Int}

/-- A session in step: its aggregators keep their hands off the budget, and
nothing bounds its iterations. -/
structure SessionInStep (mode : Mode) (g : Graph α) (B : Int)
    (s : Session α (Slot α) ω μ τ ρ) : Prop where
  engine : InStep mode g B s.engine
  limit : s.limit = none
  aggregators : ∀ a ∈ s.aggregators, a.Preserves Settings.budget

/-- Iterations keep an engine in step, as long as nobody changes the budget. -/
theorem kept_inStep (hg : g.Bipartite) :
    Session.Kept (program : Program α (Slot α) ω) Settings.budget
      (InStep mode g B) where
  work := by
    intro e e' h hactive hwork
    cases hmode : e.mode with
    | synchronous =>
        rw [hmode] at hwork
        exact h.round hg hmode hactive hwork
    | asynchronous =>
        rw [hmode] at hwork
        exact h.activate hg hmode hwork
  settings := fun _ _ _ h hbudget => h.reported (hbudget.trans h.budget)

/-- A fresh engine whose rows have been woken is in step, in whatever order its
queue is put. -/
theorem inStep_of_wakeRows {vertices : Array (Vertex α)}
    {settings : Settings α} {pace : Nat → α} {e : Engine α (Slot α) ω}
    (hsize : vertices.size = g.size)
    (hfresh : ∀ v ∈ vertices, v.updates = 0)
    (hbudget : settings.budget = some B) (hB : 0 ≤ B)
    (hwake : Trainer.wakeRows.perform
      (Engine.make mode g vertices settings none pace) = (.ok (), e))
    {order : List Nat} (horder : order.Perm e.queue) (startedAt : α) :
    InStep mode g B { e with queue := order, startedAt } := by
  have hcount : ∀ v < g.size, count e v = 0 := by
    intro v hv
    have hlt : v < vertices.size := hsize ▸ hv
    rw [count, vertex_of_wakeRows hwake hlt]
    exact hfresh _ (Array.getElem_mem hlt)
  have hactive : ∀ w, Awake e w ↔ w < g.size ∧ g.IsRow w ∧ 0 < B := by
    intro w
    rw [Awake, isActive_of_wakeRows hwake]
    refine and_congr_right fun hw => and_congr_right fun _ => ?_
    have hzero : (e.scene.vertex w).updates = 0 := hcount w hw
    rw [Settings.withinBudget, hbudget]
    dsimp only
    rw [decide_eq_true_eq, hzero]
  have horderly := orderly_of_wakeRows hwake
  have hlock := Lockstep.start hB hcount hactive
  have hsized := sized_of_wakeRows hsize hwake
  have hgraph : e.graph = g := graph_of_wakeRows hwake
  have hmem : ∀ v, v ∈ order ↔ v ∈ e.queue := fun v => horder.mem_iff
  refine
    { mode := frame_of_wakeRows hwake Engine.mode fun _ _ => rfl
      graph := hgraph
      budget := ?_
      sized := ⟨hsized.vertices, hsized.slots, hsized.inboxes⟩
      orderly := horderly.frame rfl rfl horder
      total := ?_
      block := ⟨0, [], hlock, fun _ => ⟨rfl, ?_⟩, fun hmode => ?_⟩ }
  · exact (congrArg Settings.budget
      (settings_of_wakeRows hwake)).trans hbudget
  · have hupdates := updates_of_wakeRows hwake
    have hzeros : (List.range g.size).map (count e) =
        List.replicate g.size 0 := by
      rw [List.eq_replicate_iff]
      refine ⟨by simp, fun n hn => ?_⟩
      obtain ⟨v, hv, rfl⟩ := List.mem_map.mp hn
      exact hcount v (List.mem_range.mp hv)
    have hsum : sumCounts g.size (count e) = 0 := by
      rw [sumCounts, hzeros]
      simp
    exact (congrArg Int.ofNat hupdates).trans hsum.symm
  · exact frame_of_wakeRows hwake Engine.iteration fun _ _ => rfl
  · refine ⟨order, [], (List.append_nil _).symm, fun v => ?_⟩
    rw [hmem, horderly.mem_queue hmode]
    exact (hlock.active_iff v).trans (by simp)

/-- What a start goes through, from rows that have been woken on a fresh
engine. -/
theorem inStep_of_reaches {vertices : Array (Vertex α)}
    {settings : Settings α} {pace : Nat → α} {e : Engine α (Slot α) ω}
    (hg : g.Bipartite) (hsize : vertices.size = g.size)
    (hfresh : ∀ v ∈ vertices, v.updates = 0)
    (hbudget : settings.budget = some B) (hB : 0 ≤ B)
    (hwake : Trainer.wakeRows.perform
      (Engine.make mode g vertices settings none pace) = (.ok (), e))
    {s : Session α (Slot α) ω μ τ ρ} {queue : List Nat}
    (hqueue : queue.Perm e.queue) (hengine : s.engine = { e with queue })
    (haggregators : ∀ a ∈ s.aggregators, a.Preserves Settings.budget)
    {sizes : List Nat} {t : Session α (Slot α) ω μ τ ρ}
    (h : s.Reaches program sizes t) :
    InStep mode g B t.engine ∧
      ∀ a ∈ t.aggregators, a.Preserves Settings.budget := by
  refine (kept_inStep hg).reaches h ?_ haggregators
  intro order startedAt horder
  rw [hengine] at horder ⊢
  exact inStep_of_wakeRows hsize hfresh hbudget hB hwake
    (horder.trans hqueue) startedAt

/-- The same of the session, if nothing bounds its iterations. -/
theorem sessionInStep_of_reaches {vertices : Array (Vertex α)}
    {settings : Settings α} {pace : Nat → α} {e : Engine α (Slot α) ω}
    (hg : g.Bipartite) (hsize : vertices.size = g.size)
    (hfresh : ∀ v ∈ vertices, v.updates = 0)
    (hbudget : settings.budget = some B) (hB : 0 ≤ B)
    (hwake : Trainer.wakeRows.perform
      (Engine.make mode g vertices settings none pace) = (.ok (), e))
    {s : Session α (Slot α) ω μ τ ρ} {queue : List Nat}
    (hqueue : queue.Perm e.queue) (hengine : s.engine = { e with queue })
    (hlimit : s.limit = none)
    (haggregators : ∀ a ∈ s.aggregators, a.Preserves Settings.budget)
    {sizes : List Nat} {t : Session α (Slot α) ω μ τ ρ}
    (h : s.Reaches program sizes t) :
    SessionInStep mode g B t := by
  obtain ⟨hinStep, hpreserves⟩ := inStep_of_reaches hg hsize hfresh hbudget
    hB hwake hqueue hengine haggregators h
  exact ⟨hinStep, h.limit_eq.trans hlimit, hpreserves⟩

/-- The ends of a training edge in an engine in step. -/
theorem InStep.alternate (hg : g.Bipartite) {e : Engine α (Slot α) ω}
    (h : InStep mode g B e) {n : Nat} (hn : n < g.edgeCount)
    (hrole : (g.edgeAt n).role = .train) :
    count e (g.edgeAt n).target ≤ count e (g.edgeAt n).source ∧
      count e (g.edgeAt n).source ≤ count e (g.edgeAt n).target + 1 ∧
      (mode = .synchronous →
        ¬ (Awake e (g.edgeAt n).source ∧ Awake e (g.edgeAt n).target)) := by
  have hlt : (g.edgeAt n).source < g.size := hg.source_lt n hn
  have hrow : g.IsRow (g.edgeAt n).source :=
    (hg.isRow_iff hlt).mpr ⟨n, hn, rfl⟩
  have hmeets : g.Meets (g.edgeAt n).source (g.edgeAt n).target :=
    (hg.meets_iff hlt).mpr ⟨n, hn, hrole, .inl ⟨rfl, rfl⟩⟩
  obtain ⟨k, done, hlock, hsync, -⟩ := h.block
  obtain ⟨hle, hle'⟩ := hlock.alternate hg hlt hrow hmeets
  refine ⟨hle, hle', fun hmode => ?_⟩
  obtain ⟨rfl, -⟩ := hsync (h.mode.trans hmode)
  exact hlock.not_both_active hg hmeets

/-- What an engine in step has counted when nobody is active. -/
theorem InStep.counts (hg : g.Bipartite) {e : Engine α (Slot α) ω}
    (h : InStep mode g B e) (hrest : e.activeCount = 0) :
    (∀ v < g.size, count e v = allotment g B v) ∧
      (e.updates : Int) = sumCounts g.size (allotment g B) ∧
      (mode = .synchronous → (e.iteration : Int) = blockCount g B) := by
  have hidle := not_awake_of_rest hrest
  obtain ⟨k, done, hlock, hsync, -⟩ := h.block
  obtain ⟨last, hlast⟩ := hlock.settle hg hidle
  have hcounts : ∀ v < g.size, count e v = allotment g B v :=
    fun v hv => hlast.count_eq_allotment hg hidle hv
  refine ⟨hcounts, ?_, fun hmode => ?_⟩
  · rw [h.total, sumCounts, sumCounts, List.map_congr_left
      fun v hv => hcounts v (List.mem_range.mp hv)]
  · obtain ⟨rfl, hiteration⟩ := hsync (h.mode.trans hmode)
    rw [hiteration]
    exact hlock.blocks_eq_blockCount hg hidle

/-- Learning under a budget, from vertices that have not been updated: between
any two iterations the source of a training edge is level with its target or
one update ahead, and a round never updates both.  When the work is done every
vertex with a training edge has used up its budget, rows without one have been
updated once and columns without one never; so the number of updates depends
neither on the mode nor on the order in which the queue started, and a round
was made for each block. -/
theorem training_counts (hg : g.Bipartite) {vertices : Array (Vertex α)}
    {settings : Settings α} {pace : Nat → α} {e : Engine α (Slot α) ω}
    (hsize : vertices.size = g.size)
    (hfresh : ∀ v ∈ vertices, v.updates = 0)
    (hbudget : settings.budget = some B) (hB : 0 ≤ B)
    (hwake : Trainer.wakeRows.perform
      (Engine.make mode g vertices settings none pace) = (.ok (), e))
    {s : Session α (Slot α) ω μ τ ρ} {queue : List Nat}
    (hqueue : queue.Perm e.queue) (hengine : s.engine = { e with queue })
    (hlimit : s.limit = none)
    (haggregators : ∀ a ∈ s.aggregators, a.Preserves Settings.budget) :
    (∀ sizes t, s.Reaches program sizes t → ∀ n < g.edgeCount,
      (g.edgeAt n).role = .train →
      count t.engine (g.edgeAt n).target ≤
          count t.engine (g.edgeAt n).source ∧
        count t.engine (g.edgeAt n).source ≤
          count t.engine (g.edgeAt n).target + 1 ∧
        (mode = .synchronous → ¬ (Awake t.engine (g.edgeAt n).source ∧
          Awake t.engine (g.edgeAt n).target))) ∧
      ∀ patience updates t,
        (Session.start program patience).perform s = (.ok updates, t) →
        (∀ v < g.size, count t.engine v = allotment g B v) ∧
          (updates : Int) = sumCounts g.size (allotment g B) ∧
          (mode = .synchronous →
            (t.engine.iteration : Int) = blockCount g B) := by
  have hall := @sessionInStep_of_reaches α ω _ μ τ ρ mode g B vertices
    settings pace e hg hsize hfresh hbudget hB hwake s queue hqueue hengine
    hlimit haggregators
  constructor
  · intro sizes t hreaches n hn hrole
    exact (hall hreaches).engine.alternate hg hn hrole
  · intro patience updates t hstart
    obtain ⟨sizes, u, hreaches, hover, rfl⟩ := Session.start_ok hstart
    have hu := hall hreaches
    obtain ⟨rfl, hrest⟩ := Session.over_of_unlimited hu.limit hover
    exact hu.engine.counts hg hrest

/-- The monitor lets the learning rate decay and leaves all other settings
alone. -/
theorem preserves_monitor {κ : Type} {field : Settings α → κ}
    (hfield : ∀ settings : Settings α, field settings.decayed = field settings)
    (name : String) (m : Monitor α) :
    (Monitor.aggregator name m :
      Aggregator α ω (Monitor α) (ErrorTally α) (Option (Report α))).Preserves
      field := by
  intro scene state total
  change field (Monitor.close scene state total).settings =
    field scene.settings
  unfold Monitor.close
  dsimp only
  split
  · split
    · rfl
    · exact hfield scene.settings
  · rfl

theorem preserves_budget_monitor (name : String) (m : Monitor α) :
    (Monitor.aggregator name m :
      Aggregator α ω (Monitor α) (ErrorTally α) (Option (Report α))).Preserves
      Settings.budget :=
  preserves_monitor (fun _ => rfl) name m

end Runs

/-- On the sample: nine updates, two for each vertex with a training edge and
one for the row without. -/
theorem training_counts_sample :
    (∀ sizes t, (sampleSession .asynchronous).Reaches program sizes t →
      ∀ n < sampleGraph.edgeCount, (sampleGraph.edgeAt n).role = .train →
      count t.engine (sampleGraph.edgeAt n).target ≤
          count t.engine (sampleGraph.edgeAt n).source ∧
        count t.engine (sampleGraph.edgeAt n).source ≤
          count t.engine (sampleGraph.edgeAt n).target + 1) ∧
      ∃ t, (Session.start program 9).perform (sampleSession .asynchronous) =
          (.ok 9, t) ∧
        ∀ v < sampleGraph.size,
          count t.engine v = allotment sampleGraph 2 v := by
  have h := training_counts (s := sampleSession .asynchronous)
    sampleGraph_bipartite rfl (by decide) rfl (by decide)
    (wakeRows_sampleEngine .asynchronous) (List.Perm.refl _) rfl rfl
    (fun a ha => absurd ha List.not_mem_nil)
  refine ⟨fun sizes t ht n hn hrole => ?_, ?_⟩
  · obtain ⟨hle, hle', -⟩ := h.1 sizes t ht n hn hrole
    exact ⟨hle, hle'⟩
  · have hresult : ((Session.start program 9).perform
        (sampleSession .asynchronous)).1.toOption = some 9 := by
      decide +kernel
    have hstart := Attempt.perform_of_toOption hresult
    exact ⟨_, hstart, (h.2 9 9 _ hstart).1⟩

end Descent

end RatingFactors
