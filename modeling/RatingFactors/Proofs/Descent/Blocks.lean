import Mathlib.Data.List.Perm.Basic
import RatingFactors.Proofs.Descent.Success
import RatingFactors.Proofs.Engine.Runs

/-!
# Blocks of activations

The active vertices of a moment all lie on one side of the graph, so none of
them looks at or wakes another.  Activating them one after the other, in any
order, therefore amounts to a round: each finds its neighbours as they were at
the beginning, and what waits for the neighbours in the end is the same up to
the order of the messages.

## Main definitions

* `Midway` — an asynchronous engine in the midst of such a block.

## Main results

* `Midway.activate` — one activation carries a block on.
* `exists_run_of_midway` — a block is gone through if its residuals are
  numbers.
* `midway_of_run` — a run that comes to rest goes through the whole block.
-/

namespace RatingFactors

namespace Descent

variable {α ω : Type} [Scalar α]

/-- Two states of the model agree on a vertex and its neighbours. -/
def Near (g : Graph α) (v : Nat) (look look' : Nat → Vertex α) : Prop :=
  look v = look' v ∧ ∀ w, g.Meets v w → look w = look' w

/-! ## What phases look at -/

section Near

variable {g : Graph α} {s : Settings α} {look look' : Nat → Vertex α}
  {v w : Nat}

theorem Near.across_eq (h : Near g v look look') {n : Nat}
    (hn : n ∈ g.trainingAt v) :
    look (across g v n) = look' (across g v n) :=
  h.2 _ ⟨n, hn, rfl⟩

theorem Near.residualAt_eq (h : Near g v look look') {n : Nat}
    (hn : n ∈ g.trainingAt v) :
    residualAt g s look v n = residualAt g s look' v n := by
  rw [residualAt, residualAt, h.1, h.across_eq hn]

theorem Near.gatherTotal_eq (h : Near g v look look') :
    gatherTotal g s look v = gatherTotal g s look' v := by
  unfold gatherTotal totalOver
  split
  · rfl
  · congr 1
    apply List.map_congr_left
    intro n hn
    rw [ownStep, ownStep, h.residualAt_eq hn, h.1, h.across_eq hn]

private theorem Near.intake_eq (h : Near g v look look') (sent : Slot α) :
    intake g s look sent v = intake g s look' sent v := by
  rw [intake, intake, h.gatherTotal_eq]

private theorem Near.sentTo_eq (h : Near g v look look') :
    sentTo g s look w v = sentTo g s look' w v := by
  unfold sentTo
  split
  · rfl
  · have hfilter : (g.trainingAt v).filter (fun n =>
          across g v n = w ∧ reaches g s look v n) =
        (g.trainingAt v).filter fun n =>
          across g v n = w ∧ reaches g s look' v n := by
      apply List.filter_congr
      intro n hn
      rw [reaches, reaches, h.across_eq hn]
    rw [hfilter]
    apply List.map_congr_left
    intro n hn
    have hn := (List.mem_filter.mp hn).1
    rw [sentStep, sentStep, h.residualAt_eq hn, h.1, h.across_eq hn]

/-- Waking looks at the vertex that is woken only. -/
theorem stillTo_congr (h : g.Meets v w → look w = look' w) :
    stillTo g s look w v = stillTo g s look' w v := by
  unfold stillTo
  congr 1
  apply List.filter_congr
  intro n hn
  by_cases hw : across g v n = w
  · have hsame := h ⟨n, hn, hw⟩
    subst hw
    rw [reaches, reaches, hsame]
  · simp [hw]

private theorem sentTo_eq_nil (h : ¬ g.Meets v w) :
    sentTo g s look w v = [] := by
  unfold sentTo
  split
  · rfl
  · rw [List.map_eq_nil_iff, List.filter_eq_nil_iff]
    intro n hn hpasses
    exact h ⟨n, hn, (of_decide_eq_true hpasses).1⟩

private theorem stillTo_eq_nil (h : ¬ g.Meets v w) :
    stillTo g s look w v = [] := by
  unfold stillTo
  rw [List.map_eq_nil_iff, List.filter_eq_nil_iff]
  intro n hn hpasses
  exact h ⟨n, hn, (of_decide_eq_true hpasses).1⟩

theorem Near.numeric_iff {scene scene' : Scene α}
    (hgraph : scene.graph = scene'.graph)
    (hsettings : scene.settings = scene'.settings)
    (h : Near scene'.graph v scene.vertex scene'.vertex) :
    Numeric scene v ↔ Numeric scene' v := by
  unfold Numeric
  rw [hgraph, hsettings]
  refine imp_congr_right fun _ => forall_congr' fun n =>
    forall_congr' fun hn => ?_
  rw [h.residualAt_eq hn]

end Near

/-! ## Sides -/

/-- All vertices of a list lie on one side of the graph. -/
def OneSided (g : Graph α) (places : List Nat) : Prop :=
  (∀ v ∈ places, ¬ g.IsColumn v) ∨ ∀ v ∈ places, g.IsColumn v

/-- Vertices of one side do not meet. -/
theorem OneSided.not_meets {g : Graph α} {places : List Nat}
    (hg : g.Bipartite) (h : OneSided g places) {v w : Nat}
    (hlt : v < g.size) (hv : v ∈ places) (hw : w ∈ places) :
    ¬ g.Meets v w := by
  intro hmeets
  rcases hg.meets_sides hlt hmeets with ⟨-, hno, hyes, -⟩ | ⟨hyes, -, -, hno⟩
  · rcases h with h | h
    · exact h w hw hyes
    · exact hno (h v hv)
  · rcases h with h | h
    · exact h v hv hyes
    · exact hno (h w hw)

/-- The neighbours of one side lie on one side. -/
theorem OneSided.of_meets {g : Graph α} {places next : List Nat}
    (hg : g.Bipartite) (h : OneSided g places)
    (hlt : ∀ v ∈ places, v < g.size)
    (hnext : ∀ w ∈ next, ∃ v ∈ places, g.Meets v w) : OneSided g next := by
  rcases h with h | h
  · right
    intro w hw
    obtain ⟨v, hv, hmeets⟩ := hnext w hw
    rcases hg.meets_sides (hlt v hv) hmeets with ⟨-, -, hyes, -⟩ | ⟨hyes, -⟩
    · exact hyes
    · exact absurd hyes (h v hv)
  · left
    intro w hw
    obtain ⟨v, hv, hmeets⟩ := hnext w hw
    rcases hg.meets_sides (hlt v hv) hmeets with ⟨-, hno, -⟩ | ⟨-, -, -, hno⟩
    · exact absurd (h v hv) hno
    · exact hno

/-! ## The midst of a block -/

/-- The states of the model when the vertices of a list have had their turn,
all looking at the states before. -/
def settledIn (scene : Scene α) (waiting : Nat → Inbox α) (order : List Nat)
    (v : Nat) : Vertex α :=
  if v ∈ order then settled (scene.vertex v)
    (intake scene.graph scene.settings scene.vertex (waiting v).message? v)
  else scene.vertex v

/-- What one vertex of a block posts to another in its turn. -/
def postedIn (scene : Scene α) (waiting : Nat → Inbox α) (order : List Nat)
    (w v : Nat) : List (Step α) :=
  sentTo scene.graph scene.settings scene.vertex w v ++
    stillTo scene.graph scene.settings (settledIn scene waiting order) w v

/-- An asynchronous engine in the midst of a block that began at a scene with
messages waiting: of the vertices of `order`, `done` have had their turn and
`rest` are still waiting, at the head of the queue. -/
structure Midway (size : Nat) (scene : Scene α) (waiting : Nat → Inbox α)
    (order done rest : List Nat) (e : Engine α (Slot α) ω) : Prop where
  split : order = done ++ rest
  nodup : order.Nodup
  lt : ∀ v ∈ order, v < scene.graph.size
  apart : OneSided scene.graph order
  mode : e.mode = .asynchronous
  graph : e.graph = scene.graph
  settings : e.settings = scene.settings
  sound : Sound size e
  orderly : e.Orderly
  queue : ∃ woken, e.queue = rest ++ woken
  vertex : ∀ v, e.scene.vertex v =
    if v ∈ done then settledIn scene waiting order v else scene.vertex v
  inbox : ∀ w, e.inbox w = if w ∈ rest then waiting w
    else .ofSteps (done.flatMap (postedIn scene waiting order w))

section Midway

variable {size : Nat} {scene : Scene α} {waiting : Nat → Inbox α}
  {order done rest : List Nat} {v w : Nat} {e e' : Engine α (Slot α) ω}

/-- The clock does not matter to soundness. -/
theorem Sound.passed (h : Sound size e) :
    Sound size (Session.passIteration e) :=
  ⟨h.bipartite, ⟨h.sized.vertices, h.sized.slots, h.sized.inboxes⟩,
    h.uniform, h.inboxes, h.slots⟩

theorem Midway.bipartite (h : Midway size scene waiting order done rest e) :
    scene.graph.Bipartite :=
  h.graph ▸ h.sound.bipartite

private theorem Midway.head_mem
    (h : Midway size scene waiting order done (v :: rest) e) : v ∈ order := by
  rw [h.split]
  simp

private theorem Midway.head_new
    (h : Midway size scene waiting order done (v :: rest) e) :
    v ∉ done ∧ v ∉ rest := by
  have hnodup := h.nodup
  rw [h.split] at hnodup
  obtain ⟨-, hcons, -⟩ := List.nodup_append.mp hnodup
  exact ⟨not_mem_seen h.nodup h.split, (List.nodup_cons.mp hcons).1⟩

/-- A vertex whose turn it is finds itself and its neighbours as they were at
the beginning of the block. -/
theorem Midway.near
    (h : Midway size scene waiting order done (v :: rest) e) :
    Near scene.graph v e.scene.vertex scene.vertex := by
  have hv := h.head_mem
  constructor
  · rw [h.vertex, if_neg h.head_new.1]
  · intro w hmeets
    rw [h.vertex, if_neg]
    intro hdone
    have hw : w ∈ order := by
      rw [h.split]
      exact List.mem_append_left _ hdone
    exact h.apart.not_meets h.bipartite (h.lt v hv) hv hw hmeets

/-- Nobody in a block posts to anybody in it. -/
theorem Midway.postedIn_eq_nil
    (h : Midway size scene waiting order done rest e) (hv : v ∈ order)
    (hw : w ∈ order) : postedIn scene waiting order w v = [] := by
  have hmeets := h.apart.not_meets h.bipartite (h.lt v hv) hv hw
  rw [postedIn, sentTo_eq_nil hmeets, stillTo_eq_nil hmeets]
  rfl

/-- The numbers that a vertex meets in its turn are those at the beginning of
the block. -/
theorem Midway.numeric_iff
    (h : Midway size scene waiting order done (v :: rest) e) :
    Numeric e.scene v ↔ Numeric scene v :=
  Near.numeric_iff h.graph h.settings h.near

/-- What a turn of the next vertex of a block makes of the model. -/
theorem Midway.vertex_after
    (h : Midway size scene waiting order done (v :: rest) e)
    {before : Engine α (Slot α) ω} (hturn : Turn before e.inbox [v] e')
    (hbefore : before.scene = e.scene) (hslots : before.slots = e.slots)
    (u : Nat) :
    e'.scene.vertex u = if u ∈ done ++ [v] then
      settledIn scene waiting order u else scene.vertex u := by
  have hgraph : before.graph = scene.graph :=
    (congrArg Scene.graph hbefore).trans h.graph
  have hsettings : before.settings = scene.settings :=
    (congrArg Scene.settings hbefore).trans h.settings
  have hv := h.head_mem
  by_cases hu : u = v
  · subst hu
    rw [if_pos (by simp), settledIn, if_pos hv]
    have hbipartite : before.graph.Bipartite := hgraph ▸ h.bipartite
    have huniform : Uniform before.graph before.settings size
        before.scene.vertex := by
      rw [hgraph, hsettings, hbefore, ← h.graph, ← h.settings]
      exact h.sound.uniform
    have hslots' : ∀ w, before.slots.getD w none = none := by
      rw [hslots]
      exact h.sound.slots
    have hlt : u < before.graph.size := hgraph ▸ h.lt u hv
    have hwaiting : e.inbox u = waiting u := by
      rw [h.inbox, if_pos List.mem_cons_self]
    rw [hturn.vertex_eq hbipartite huniform hslots' List.mem_cons_self hlt
      (h.sound.inboxes u), hgraph, hsettings, hbefore, h.near.intake_eq,
      h.near.1, hwaiting]
  · have hmem : u ∈ done ++ [v] ↔ u ∈ done := by simp [hu]
    rw [hturn.vertex_not_mem u (by simp [hu]), hbefore, h.vertex]
    simp only [hmem]

/-- What a turn of the next vertex of a block posts. -/
theorem Midway.messages_after
    (h : Midway size scene waiting order done (v :: rest) e)
    {before : Engine α (Slot α) ω} (hturn : Turn before e.inbox [v] e')
    (hbefore : before.scene = e.scene) (hslots : before.slots = e.slots)
    (w : Nat) :
    messagesTo before.graph before.settings before.scene.vertex
      e'.scene.vertex [v] w = postedIn scene waiting order w v := by
  have hgraph : before.graph = scene.graph :=
    (congrArg Scene.graph hbefore).trans h.graph
  have hsettings : before.settings = scene.settings :=
    (congrArg Scene.settings hbefore).trans h.settings
  have hlater : scene.graph.Meets v w →
      e'.scene.vertex w = settledIn scene waiting order w := by
    intro hmeets
    rw [h.vertex_after hturn hbefore hslots]
    by_cases hw : w ∈ done ++ [v]
    · rw [if_pos hw]
    · rw [if_neg hw, settledIn, if_neg]
      intro horder
      exact h.apart.not_meets h.bipartite (h.lt v h.head_mem) h.head_mem
        horder hmeets
  rw [messagesTo, List.flatMap_singleton, List.flatMap_singleton, postedIn,
    hgraph, hsettings, hbefore, h.near.sentTo_eq, stillTo_congr hlater]

/-- What waits after a turn of the next vertex of a block. -/
theorem Midway.inbox_after
    (h : Midway size scene waiting order done (v :: rest) e)
    {before : Engine α (Slot α) ω} (hturn : Turn before e.inbox [v] e')
    (hbefore : before.scene = e.scene) (hslots : before.slots = e.slots)
    (hboxes : ∀ w, before.inbox w = if w = v then .idle else e.inbox w)
    (w : Nat) :
    e'.inbox w = if w ∈ rest then waiting w
      else .ofSteps ((done ++ [v]).flatMap
        (postedIn scene waiting order w)) := by
  have hgraph : before.graph = scene.graph :=
    (congrArg Scene.graph hbefore).trans h.graph
  have hlt : ∀ u ∈ [v], u < before.graph.size := by
    intro u hu
    rw [List.mem_singleton.mp hu, hgraph]
    exact h.lt v h.head_mem
  have hafter : e'.inbox w = ((postedIn scene waiting order w v).map
      some).foldl Inbox.put (before.inbox w) := by
    rw [hturn.inbox_messages (hgraph ▸ h.bipartite.toFaithful) hlt,
      h.messages_after hturn hbefore hslots]
  have hposted : w ∈ order → postedIn scene waiting order w v = [] :=
    fun hw => h.postedIn_eq_nil h.head_mem hw
  rw [hafter, hboxes]
  by_cases hrest : w ∈ rest
  · have hne : w ≠ v := fun heq => h.head_new.2 (heq ▸ hrest)
    have hw : w ∈ order := by
      rw [h.split]
      simp [hrest]
    rw [if_pos hrest, if_neg hne, hposted hw, h.inbox,
      if_pos (List.mem_cons_of_mem v hrest)]
    rfl
  · rw [if_neg hrest, List.flatMap_append, List.flatMap_singleton]
    by_cases hwv : w = v
    · subst hwv
      have hnone : done.flatMap (postedIn scene waiting order w) = [] := by
        rw [List.flatMap_eq_nil_iff]
        intro u hu
        refine h.postedIn_eq_nil ?_ h.head_mem
        rw [h.split]
        exact List.mem_append_left _ hu
      rw [if_pos rfl, hnone, List.nil_append, Inbox.foldl_put_idle]
    · rw [if_neg hwv, h.inbox, if_neg (by simp [hwv, hrest]),
        Inbox.foldl_put_ofSteps]

/-- One activation carries a block on by one vertex. -/
theorem Midway.activate
    (h : Midway size scene waiting order done (v :: rest) e)
    (hactivate : (Engine.activateNext program).perform e = (.ok (), e')) :
    Midway size scene waiting order (done ++ [v]) rest
        (Session.passIteration e') ∧
      e'.updates = e.updates + 1 ∧ Numeric scene v := by
  have hg : e.graph.Faithful := h.sound.bipartite.toFaithful
  obtain ⟨u, others, hhead, hu, hturn⟩ :=
    turn_of_activateNext h.sound.sized hg h.orderly h.mode hactivate
  obtain ⟨woken, hqueue⟩ := h.queue
  rw [hhead] at hqueue
  obtain ⟨rfl, rfl⟩ := List.cons.inj hqueue
  have hlt : ∀ w ∈ [u], w < e.graph.size :=
    fun w hw => List.mem_singleton.mp hw ▸ hu
  have horderly := hturn.orderly hg hlt (h.orderly.taken h.mode hhead)
  have hsoundAfter := hturn.sound (h.sound.taken hu _) hlt h.sound.inboxes
  have hboxes : ∀ w, Engine.inbox (e.taken u (rest ++ woken)) w =
      if w = u then .idle else e.inbox w :=
    fun w => Engine.inbox_taken (h.sound.sized.inboxes ▸ hu) w
  obtain ⟨fresh, hfresh⟩ := hturn.queue_eq
  refine ⟨?_, hturn.total_eq, ?_⟩
  · exact
      { split := by rw [h.split, List.append_assoc]; rfl
        nodup := h.nodup
        lt := h.lt
        apart := h.apart
        mode := hturn.mode_eq.trans h.mode
        graph := hturn.graph_eq.trans h.graph
        settings := hturn.settings_eq.trans h.settings
        sound := hsoundAfter.passed
        orderly := horderly.frame rfl rfl (.refl _)
        queue := ⟨woken ++ fresh, by
          rw [← List.append_assoc]
          exact hfresh⟩
        vertex := fun w => h.vertex_after hturn rfl rfl w
        inbox := fun w => h.inbox_after hturn rfl rfl hboxes w }
  · exact h.numeric_iff.mp (hturn.number u List.mem_cons_self)

/-- The next activation of a block goes through if the numbers that its vertex
meets are numbers. -/
theorem Midway.exists_activateNext
    (h : Midway size scene waiting order done (v :: rest) e)
    (hnumeric : Numeric scene v) :
    ∃ e', (Engine.activateNext program).perform e = (.ok (), e') := by
  obtain ⟨woken, hqueue⟩ := h.queue
  have hlt : v < e.graph.size := by
    rw [h.graph]
    exact h.lt v h.head_mem
  exact Descent.exists_activateNext h.sound hqueue hlt
    (h.numeric_iff.mpr hnumeric)

/-- As long as a block is not finished somebody is active. -/
theorem Midway.activeCount_ne_zero
    (h : Midway size scene waiting order done (v :: rest) e) :
    e.activeCount ≠ 0 := by
  obtain ⟨woken, hqueue⟩ := h.queue
  have hv : v ∈ e.active := by
    rw [Engine.mem_active, ← h.orderly.mem_queue h.mode, hqueue]
    simp
  exact Nat.ne_of_gt (List.length_pos_of_mem hv)

end Midway

/-! ## Running through a block -/

section Runs

variable {μ τ ρ : Type} {size : Nat} {scene : Scene α}
  {waiting : Nat → Inbox α} {order done rest : List Nat}

/-- A quiet session gets through a block when all numbers that it meets are
numbers. -/
theorem exists_run_of_midway {s : Session α (Slot α) ω μ τ ρ}
    (hquiet : s.Quiet)
    (h : Midway size scene waiting order done rest s.engine)
    (hnumeric : ∀ v ∈ rest, Numeric scene v) :
    ∃ sizes t, Session.Run program s sizes t ∧ sizes.length = rest.length ∧
      t.Quiet ∧ Midway size scene waiting order order [] t.engine ∧
      t.engine.updates = s.engine.updates + rest.length := by
  induction rest generalizing done s with
  | nil =>
      refine ⟨[], s, .rest, rfl, hquiet, ?_, rfl⟩
      have hdone : order = done := by rw [h.split, List.append_nil]
      subst hdone
      exact h
  | cons v rest ih =>
      obtain ⟨e', hactivate⟩ := h.exists_activateNext (hnumeric v (by simp))
      obtain ⟨hnext, hupdates, -⟩ := h.activate hactivate
      have hadvance := (hquiet.advance_asynchronous h.mode).mpr
        ⟨e', hactivate, rfl⟩
      obtain ⟨sizes, t, hrun, hlength, htquiet, hmidway, htotal⟩ :=
        ih (s := { s with
          engine := Session.passIteration e'
          sinceDue := if e'.graph.size ≤ s.sinceDue + 1 then 0
            else s.sinceDue + 1 })
          ⟨hquiet.aggregators, hquiet.limit⟩ hnext
          fun w hw => hnumeric w (by simp [hw])
      have hfirst := Session.Run.advance .rest h.activeCount_ne_zero
        hquiet.limitReached hadvance
      refine ⟨_, t, hfirst.trans hrun, ?_, htquiet, hmidway, ?_⟩
      · rw [List.length_append, hlength, List.length_cons, Nat.add_comm]
        rfl
      · rw [htotal, List.length_cons]
        change e'.updates + _ = _
        omega

/-- A run of a quiet session that comes to rest gets through the block that is
under way. -/
theorem midway_of_run {s u : Session α (Slot α) ω μ τ ρ}
    (hquiet : s.Quiet)
    (h : Midway size scene waiting order done rest s.engine)
    {sizes : List Nat} (hrun : Session.Run program s sizes u)
    (hrest : u.engine.activeCount = 0) :
    ∃ first second t, sizes = first ++ second ∧ first.length = rest.length ∧
      Session.Run program t second u ∧ t.Quiet ∧
      Midway size scene waiting order order [] t.engine ∧
      t.engine.updates = s.engine.updates + rest.length ∧
      ∀ v ∈ rest, Numeric scene v := by
  induction rest generalizing done s sizes with
  | nil =>
      have hdone : order = done := by rw [h.split, List.append_nil]
      subst hdone
      exact ⟨[], sizes, s, rfl, rfl, hrun, hquiet, h, rfl, by simp⟩
  | cons v rest ih =>
      rcases hrun.first with ⟨-, rfl⟩ | ⟨t, others, rfl, -, -, hadvance, hrun⟩
      · exact absurd hrest h.activeCount_ne_zero
      · obtain ⟨e', hactivate, rfl⟩ :=
          (hquiet.advance_asynchronous h.mode).mp hadvance
        obtain ⟨hnext, hupdates, hnumber⟩ := h.activate hactivate
        obtain ⟨first, second, t, rfl, hlength, hsecond, htquiet, hmidway,
          htotal, hnumeric⟩ :=
          ih (s := { s with
            engine := Session.passIteration e'
            sinceDue := if e'.graph.size ≤ s.sinceDue + 1 then 0
              else s.sinceDue + 1 })
            ⟨hquiet.aggregators, hquiet.limit⟩ hnext hrun
        refine ⟨_ :: first, second, t, rfl, ?_, hsecond, htquiet, hmidway, ?_,
          ?_⟩
        · rw [List.length_cons, hlength, List.length_cons]
        · rw [htotal, List.length_cons]
          change e'.updates + _ = _
          omega
        · intro w hw
          rcases List.mem_cons.mp hw with rfl | hw
          · exact hnumber
          · exact hnumeric w hw

end Runs

end Descent

end RatingFactors
