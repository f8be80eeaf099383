import Mathlib.Algebra.Ring.Nat
import RatingFactors.Proofs.Descent.Blocks
import RatingFactors.Proofs.Descent.Waking
import RatingFactors.Proofs.Sample

/-!
# The two modes agree

The queue of an asynchronous engine is made of blocks, and one block holds the
vertices that a synchronous engine takes in one round.  So an asynchronous run
passes, at the ends of its blocks, through the same states as a synchronous
run, provided that addition is exact: within a block messages arrive in the
order of the queue, and in a round by the places of their senders.

## Main definitions

* `Same` — two engines in the same state, but for queue, clock and notes.
* `Aligned` — a synchronous and an asynchronous engine in the same state.

## Main results

* `Aligned.of_block` — a round and a block keep engines aligned.
* `Aligned.follow` — an asynchronous run keeps up with a synchronous one.
* `Aligned.follow_back` — and conversely, if it comes to rest.
* `modes_agree` — both modes compute the same.
-/

namespace RatingFactors

namespace Descent

variable {α ω : Type} [Scalar α]

/-- Two engines have learned the same from as many updates, and the same waits
for each vertex: it is active in both or in neither, with the same message. -/
structure Same (e₁ e₂ : Engine α (Slot α) ω) : Prop where
  vertex : ∀ v, e₂.scene.vertex v = e₁.scene.vertex v
  inbox : ∀ v, e₂.inbox v = e₁.inbox v
  updates : e₂.updates = e₁.updates

/-- A synchronous and an asynchronous engine in the same state, at the
beginning of a round and of a block. -/
structure Aligned (size : Nat) (e₁ e₂ : Engine α (Slot α) ω) : Prop
    extends Same e₁ e₂ where
  synchronous : e₁.mode = .synchronous
  asynchronous : e₂.mode = .asynchronous
  graph : e₂.graph = e₁.graph
  settings : e₂.settings = e₁.settings
  sound₁ : Sound size e₁
  sound₂ : Sound size e₂
  orderly : e₂.Orderly
  apart : OneSided e₁.graph e₁.active

namespace Aligned

variable {size : Nat} {e₁ e₂ e₁' e₂' : Engine α (Slot α) ω}

/-! ## Rounds and blocks -/

theorem mem_active_iff (h : Aligned size e₁ e₂) (v : Nat) :
    v ∈ e₂.active ↔ v ∈ e₁.active := by
  rw [Engine.mem_active, Engine.mem_active, h.inbox]

private theorem activeCount_eq (h : Aligned size e₁ e₂) :
    e₂.activeCount = e₁.activeCount := by
  have hperm : e₂.active.Perm e₁.active :=
    (List.perm_ext_iff_of_nodup e₂.nodup_active e₁.nodup_active).mpr
      h.mem_active_iff
  exact hperm.length_eq

/-- The queue holds the vertices of the next round, in some order. -/
theorem queue_perm (h : Aligned size e₁ e₂) : e₂.queue.Perm e₁.active := by
  refine (List.perm_ext_iff_of_nodup h.orderly.nodup
    e₁.nodup_active).mpr fun v => ?_
  rw [h.orderly.mem_queue h.asynchronous, ← Engine.mem_active,
    h.mem_active_iff]

theorem lt_of_mem_active (h : Aligned size e₁ e₂) :
    ∀ v ∈ e₁.active, v < e₁.graph.size :=
  h.sound₁.sized.lt_of_mem_active

private theorem look_eq (h : Aligned size e₁ e₂) :
    e₂.scene.vertex = e₁.scene.vertex :=
  funext h.vertex

/-- The numbers that a vertex meets are the same in both engines. -/
theorem numeric_iff (h : Aligned size e₁ e₂) (v : Nat) :
    Numeric e₂.scene v ↔ Numeric e₁.scene v :=
  Near.numeric_iff h.graph h.settings
    ⟨h.vertex v, fun w _ => h.vertex w⟩

/-- The asynchronous engine stands at the beginning of a block. -/
theorem midway (h : Aligned size e₁ e₂) :
    Midway size e₂.scene e₂.inbox e₂.queue [] e₂.queue e₂ where
  split := rfl
  nodup := h.orderly.nodup
  lt := by
    intro v hv
    have hactive := h.queue_perm.mem_iff.mp hv
    rw [show e₂.scene.graph = e₁.graph from h.graph]
    exact h.lt_of_mem_active v hactive
  apart := by
    rw [show e₂.scene.graph = e₁.graph from h.graph]
    have hmem : ∀ v ∈ e₂.queue, v ∈ e₁.active :=
      fun v hv => h.queue_perm.mem_iff.mp hv
    rcases h.apart with hrows | hcolumns
    · exact .inl fun v hv => hrows v (hmem v hv)
    · exact .inr fun v hv => hcolumns v (hmem v hv)
  mode := h.asynchronous
  graph := rfl
  settings := rfl
  sound := h.sound₂
  orderly := h.orderly
  queue := ⟨[], (List.append_nil _).symm⟩
  vertex := fun v => (if_neg List.not_mem_nil).symm
  inbox := by
    intro w
    by_cases hw : w ∈ e₂.queue
    · rw [if_pos hw]
    · have hidle : (e₂.inbox w).isActive = false := by
        rw [← Bool.not_eq_true, ← h.orderly.mem_queue h.asynchronous]
        exact hw
      rw [if_neg hw, Inbox.eq_idle_of_not_isActive hidle]
      rfl

/-- What a block makes of a vertex is what a round makes of it. -/
theorem vertex_of_round (h : Aligned size e₁ e₂)
    (hround : (Engine.round program).perform e₁ = (.ok (), e₁')) (v : Nat) :
    settledIn e₂.scene e₂.inbox e₂.queue v = e₁'.scene.vertex v := by
  have hturn := turn_of_round h.sound₁.sized h.sound₁.bipartite.toFaithful
    hround
  have hmem : v ∈ e₂.queue ↔ v ∈ e₁.active := h.queue_perm.mem_iff
  unfold settledIn
  by_cases hv : v ∈ e₁.active
  · have hlt := h.lt_of_mem_active v hv
    rw [if_pos (hmem.mpr hv), hturn.vertex_eq h.sound₁.bipartite
      h.sound₁.uniform h.sound₁.slots hv hlt (h.sound₁.inboxes v), h.look_eq,
      h.inbox, show e₂.scene.graph = e₁.graph from h.graph,
      show e₂.scene.settings = e₁.settings from h.settings]
    rfl
  · rw [if_neg (mt hmem.mp hv), hturn.vertex_not_mem v hv, h.vertex]
    rfl

/-- What a block leaves for a vertex is what a round leaves for it. -/
theorem inbox_of_round (hexact : Scalar.Exact α) (h : Aligned size e₁ e₂)
    (hround : (Engine.round program).perform e₁ = (.ok (), e₁')) (w : Nat) :
    Inbox.ofSteps (e₂.queue.flatMap
      (postedIn e₂.scene e₂.inbox e₂.queue w)) = e₁'.inbox w := by
  have hg := h.sound₁.bipartite.toFaithful
  have hturn := turn_of_round h.sound₁.sized hg hround
  have hposted : ∀ v, postedIn e₂.scene e₂.inbox e₂.queue w v =
      sentTo e₁.graph e₁.settings e₁.scene.vertex w v ++
        stillTo e₁.graph e₁.settings e₁'.scene.vertex w v := by
    intro v
    rw [postedIn, h.look_eq, funext (h.vertex_of_round hround),
      show e₂.scene.graph = e₁.graph from h.graph,
      show e₂.scene.settings = e₁.settings from h.settings]
  -- a block posts vertex by vertex, a round phase by phase
  have hperm : (e₂.queue.flatMap
      (postedIn e₂.scene e₂.inbox e₂.queue w)).Perm
      (messagesTo e₁.graph e₁.settings e₁.scene.vertex e₁'.scene.vertex
        e₁.active w) := by
    rw [funext hposted]
    exact (h.queue_perm.flatMap_right _).trans
      (List.flatMap_append_perm _ _ _).symm
  have hfits : ∀ step ∈ messagesTo e₁.graph e₁.settings e₁.scene.vertex
      e₁'.scene.vertex e₁.active w, step.Fits size :=
    h.sound₁.uniform.messagesTo_fits hg h.lt_of_mem_active
  rw [hturn.inbox_ofSteps hg h.lt_of_mem_active (e₁.inbox_emptied w)]
  exact (Inbox.ofSteps_perm hexact hperm.symm hfits).symm

/-- A round of the one engine and a block of the other keep engines
aligned. -/
theorem of_block (hexact : Scalar.Exact α) (h : Aligned size e₁ e₂)
    (hround : (Engine.round program).perform e₁ = (.ok (), e₁'))
    (hblock : Midway size e₂.scene e₂.inbox e₂.queue e₂.queue [] e₂')
    (hupdates : e₂'.updates = e₂.updates + e₂.queue.length) :
    Aligned size (Session.passIteration e₁') e₂' := by
  have hg := h.sound₁.bipartite.toFaithful
  have hlt := h.lt_of_mem_active
  have hturn := turn_of_round h.sound₁.sized hg hround
  have hgraph : e₁'.graph = e₁.graph := hturn.graph_eq
  exact
    { synchronous := hturn.mode_eq.trans h.synchronous
      asynchronous := hblock.mode
      graph := hblock.graph.trans (h.graph.trans hgraph.symm)
      settings := hblock.settings.trans
        (h.settings.trans hturn.settings_eq.symm)
      sound₁ := (hturn.sound h.sound₁.emptied hlt h.sound₁.inboxes).passed
      sound₂ := hblock.sound
      orderly := hblock.orderly
      apart := by
        change OneSided e₁'.graph e₁'.active
        rw [hgraph]
        refine h.apart.of_meets h.sound₁.bipartite hlt fun w hw => ?_
        rw [Engine.mem_active, hturn.isActive_iff hg hlt,
          Engine.inbox_emptied] at hw
        rcases hw with hw | ⟨v, hv, hmeets, -⟩
        · simp [Inbox.isActive] at hw
        · exact ⟨v, hv, hmeets⟩
      vertex := by
        intro v
        change _ = e₁'.scene.vertex v
        rw [← h.vertex_of_round hround, hblock.vertex]
        by_cases hv : v ∈ e₂.queue
        · rw [if_pos hv]
        · rw [if_neg hv, settledIn, if_neg hv]
      inbox := by
        intro w
        change _ = e₁'.inbox w
        rw [hblock.inbox, if_neg List.not_mem_nil,
          h.inbox_of_round hexact hround]
      updates := by
        change _ = e₁'.updates
        rw [hupdates, hturn.total_eq, h.updates, h.queue_perm.length_eq] }

/-! ## Runs -/

section Runs

variable {μ₁ τ₁ ρ₁ μ₂ τ₂ ρ₂ : Type} {s₁ t₁ : Session α (Slot α) ω μ₁ τ₁ ρ₁}
  {s₂ t₂ : Session α (Slot α) ω μ₂ τ₂ ρ₂}

/-- An asynchronous run keeps up with a synchronous one: after the activations
of as many blocks as there were rounds the engines are aligned again. -/
theorem follow (hexact : Scalar.Exact α) (hquiet₁ : s₁.Quiet)
    (hquiet₂ : s₂.Quiet) (h : Aligned size s₁.engine s₂.engine)
    {sizes : List Nat} (hrun : Session.Run program s₁ sizes t₁) :
    ∃ steps t₂, Session.Run program s₂ steps t₂ ∧
      steps.length = sizes.sum ∧ t₁.Quiet ∧ t₂.Quiet ∧
      Aligned size t₁.engine t₂.engine := by
  induction hrun with
  | rest => exact ⟨[], s₂, .rest, rfl, hquiet₁, hquiet₂, h⟩
  | @advance sizes t u _ _ _ hadvance ih =>
      obtain ⟨steps, t₂, hrun₂, hlength, hquiet, hquiet', haligned⟩ := ih
      obtain ⟨e', hround, rfl⟩ :=
        (hquiet.advance_synchronous haligned.synchronous).mp hadvance
      have hturn := turn_of_round haligned.sound₁.sized
        haligned.sound₁.bipartite.toFaithful hround
      have hnumeric : ∀ v ∈ t₂.engine.queue, Numeric t₂.engine.scene v := by
        intro v hv
        rw [haligned.numeric_iff]
        exact hturn.number v (haligned.queue_perm.mem_iff.mp hv)
      obtain ⟨more, u₂, hmore, hmoreLength, hquiet₂', hblock, hupdates⟩ :=
        exists_run_of_midway hquiet' haligned.midway hnumeric
      refine ⟨steps ++ more, u₂, hrun₂.trans hmore, ?_,
        ⟨hquiet.aggregators, hquiet.limit⟩, hquiet₂',
        haligned.of_block hexact hround hblock hupdates⟩
      rw [List.length_append, List.sum_append, hlength, hmoreLength,
        haligned.queue_perm.length_eq, List.sum_singleton]
      rfl

/-- A synchronous run keeps up with an asynchronous one that comes to rest. -/
theorem follow_back (hexact : Scalar.Exact α) (hquiet₁ : s₁.Quiet)
    (hquiet₂ : s₂.Quiet) (h : Aligned size s₁.engine s₂.engine)
    {steps : List Nat} (hrun : Session.Run program s₂ steps t₂)
    (hrest : t₂.engine.activeCount = 0) :
    ∃ sizes t₁, Session.Run program s₁ sizes t₁ ∧
      Aligned size t₁.engine t₂.engine := by
  -- on the number of activations that are left: a block takes at least one
  induction hleft : steps.length using Nat.strongRecOn
    generalizing s₁ s₂ steps with
  | ind left ih =>
      by_cases hactive : s₁.engine.activeCount = 0
      · have hidle : s₂.engine.activeCount = 0 :=
          h.activeCount_eq.trans hactive
        rcases hrun.first with ⟨-, rfl⟩ | ⟨_, _, _, hbusy, -⟩
        · exact ⟨[], s₁, .rest, h⟩
        · exact absurd hidle hbusy
      · obtain ⟨first, second, u₂, rfl, hlength, hsecond, hquiet, hblock,
          hupdates, hnumeric⟩ := midway_of_run hquiet₂ h.midway hrun hrest
        have hnumber : ∀ v ∈ s₁.engine.active, Numeric s₁.engine.scene v := by
          intro v hv
          rw [← h.numeric_iff]
          exact hnumeric v (h.queue_perm.mem_iff.mpr hv)
        obtain ⟨e', hround⟩ := exists_round h.sound₁ hnumber
        have hadvance := (hquiet₁.advance_synchronous h.synchronous).mpr
          ⟨e', hround, rfl⟩
        have haligned := h.of_block hexact hround hblock hupdates
        have hpositive : 0 < first.length := by
          rw [hlength, h.queue_perm.length_eq]
          exact Nat.pos_of_ne_zero hactive
        have hless : second.length < left := by
          rw [← hleft, List.length_append]
          omega
        have hquiet₁' : Session.Quiet { s₁ with
            engine := Session.passIteration e' } :=
          ⟨hquiet₁.aggregators, hquiet₁.limit⟩
        obtain ⟨sizes, t₁, hrun₁, hend⟩ :=
          ih second.length hless hquiet₁' hquiet haligned hsecond rfl
        have hone := Session.Run.advance .rest hactive hquiet₁.limitReached
          hadvance
        exact ⟨_, t₁, hone.trans hrun₁, hend⟩

end Runs

/-- Starting sets the clocks back and may change the order of the queue. -/
theorem begun (h : Aligned size e₁ e₂) {queue : List Nat}
    (hqueue : queue.Perm e₂.queue) (now₁ now₂ : α) :
    Aligned size { e₁ with startedAt := now₁ }
      { e₂ with startedAt := now₂, queue := queue } where
  vertex := h.vertex
  inbox := h.inbox
  updates := h.updates
  synchronous := h.synchronous
  asynchronous := h.asynchronous
  graph := h.graph
  settings := h.settings
  sound₁ := ⟨h.sound₁.bipartite, ⟨h.sound₁.sized.vertices,
    h.sound₁.sized.slots, h.sound₁.sized.inboxes⟩, h.sound₁.uniform,
    h.sound₁.inboxes, h.sound₁.slots⟩
  sound₂ := ⟨h.sound₂.bipartite, ⟨h.sound₂.sized.vertices,
    h.sound₂.sized.slots, h.sound₂.sized.inboxes⟩, h.sound₂.uniform,
    h.sound₂.inboxes, h.sound₂.slots⟩
  orderly := h.orderly.frame rfl rfl hqueue
  apart := h.apart

end Aligned

/-! ## From the first activation to the end -/

section Fresh

variable {mode : Mode} {g : Graph α} {vertices : Array (Vertex α)}
  {settings : Settings α} {D : Nat}

/-- After the rows have been woken, everything has the right length. -/
theorem sound_of_wakeRows {pace : Nat → α} {e : Engine α (Slot α) ω}
    (hg : g.Bipartite) (hsize : vertices.size = g.size)
    (hdimension : settings.dimension = D)
    (hlatent : ∀ v (hv : v < vertices.size), vertices[v].latent.length = D)
    (hwake : Trainer.wakeRows.perform
      (Engine.make mode g vertices settings none pace) = (.ok (), e)) :
    Sound D e := by
  have hgraph := graph_of_wakeRows hwake
  have hsettings := settings_of_wakeRows hwake
  have huniform : Uniform e.graph e.settings D e.scene.vertex := by
    rw [hgraph, hsettings]
    refine ⟨hdimension, fun v hv => ?_⟩
    have hlt : v < vertices.size := hsize ▸ hv
    rw [vertex_of_wakeRows hwake hlt]
    exact hlatent v hlt
  refine ⟨hgraph ▸ hg, sized_of_wakeRows hsize hwake, huniform, ?_, ?_⟩
  · intro v
    rw [wakeRows_ok hwake]
    refine fits_inbox_postAll wakePosts_make_lt (fun post hpost => ?_)
      (fun w => ?_) v
    · obtain ⟨w, -, rfl⟩ := List.mem_map.mp hpost
      exact ⟨_, rfl, hsettings ▸ huniform.stillStep_fits⟩
    · rw [Engine.inbox_make]
      exact Inbox.fits_idle D
  · intro v
    rw [show e.slots = Array.replicate g.size none from
      frame_of_wakeRows hwake Engine.slots fun _ _ => rfl,
      Array.getD_eq_getD_getElem?, Array.getElem?_replicate]
    split <;> rfl

/-- Engines of both modes, fresh but for their rows, are aligned. -/
theorem aligned_of_wakeRows {pace₁ pace₂ : Nat → α}
    {e₁ e₂ : Engine α (Slot α) ω} (hg : g.Bipartite)
    (hsize : vertices.size = g.size) (hdimension : settings.dimension = D)
    (hlatent : ∀ v (hv : v < vertices.size), vertices[v].latent.length = D)
    (hwake₁ : Trainer.wakeRows.perform (Engine.make .synchronous g vertices
      settings none pace₁) = (.ok (), e₁))
    (hwake₂ : Trainer.wakeRows.perform (Engine.make .asynchronous g vertices
      settings none pace₂) = (.ok (), e₂)) : Aligned D e₁ e₂ where
  vertex := by
    intro v
    rw [Scene.vertex, Scene.vertex, vertices_of_wakeRows hwake₁,
      vertices_of_wakeRows hwake₂]
  inbox := by
    intro v
    rw [wakeRows_ok hwake₁, wakeRows_ok hwake₂,
      Engine.inbox_postAll wakePosts_make_lt,
      Engine.inbox_postAll wakePosts_make_lt, Engine.inbox_make,
      Engine.inbox_make]
    rfl
  updates := by
    rw [updates_of_wakeRows hwake₁, updates_of_wakeRows hwake₂]
  synchronous := frame_of_wakeRows hwake₁ Engine.mode fun _ _ => rfl
  asynchronous := frame_of_wakeRows hwake₂ Engine.mode fun _ _ => rfl
  graph := (graph_of_wakeRows hwake₂).trans (graph_of_wakeRows hwake₁).symm
  settings := by
    rw [settings_of_wakeRows hwake₁, settings_of_wakeRows hwake₂]
  sound₁ := sound_of_wakeRows hg hsize hdimension hlatent hwake₁
  sound₂ := sound_of_wakeRows hg hsize hdimension hlatent hwake₂
  orderly := orderly_of_wakeRows hwake₂
  apart := by
    left
    intro v hv
    rw [Engine.mem_active, isActive_of_wakeRows hwake₁] at hv
    rw [graph_of_wakeRows hwake₁]
    exact hg.not_isColumn_of_isRow hv.1 hv.2.1

/-- Both modes compute the same.  Take a synchronous and an asynchronous
session over the same bipartite graph, with the same vertices and settings and
latent vectors of one length, the rows woken in both and the queue of the
second in any order; nothing bounds their iterations, and no aggregator changes
the settings while they run.

* When the synchronous session has made rounds of some sizes, the asynchronous
  session is in the same state after as many activations as these sizes add up
  to.
* If the synchronous session ends, so does the asynchronous one, in the same
  state and after as many updates.
* If the asynchronous session ends, so does the synchronous one. -/
theorem modes_agree (hexact : Scalar.Exact α) (hg : g.Bipartite)
    (hsize : vertices.size = g.size) (hdimension : settings.dimension = D)
    (hlatent : ∀ v (hv : v < vertices.size), vertices[v].latent.length = D)
    {pace₁ pace₂ : Nat → α} {e₁ e₂ : Engine α (Slot α) ω}
    (hwake₁ : Trainer.wakeRows.perform (Engine.make .synchronous g vertices
      settings none pace₁) = (.ok (), e₁))
    (hwake₂ : Trainer.wakeRows.perform (Engine.make .asynchronous g vertices
      settings none pace₂) = (.ok (), e₂))
    {μ₁ τ₁ ρ₁ μ₂ τ₂ ρ₂ : Type} {s₁ : Session α (Slot α) ω μ₁ τ₁ ρ₁}
    {s₂ begun₂ : Session α (Slot α) ω μ₂ τ₂ ρ₂} {queue : List Nat}
    (hqueue : queue.Perm e₂.queue) (hs₁ : s₁.engine = e₁)
    (hs₂ : s₂.engine = { e₂ with queue }) (hquiet₁ : s₁.Quiet)
    (hquiet₂ : s₂.Quiet)
    (hbegin₂ : Session.begin.perform s₂ = (.ok (), begun₂)) :
    (∀ sizes t₁, s₁.Reaches program sizes t₁ → ∃ steps t₂,
      s₂.Reaches program steps t₂ ∧ steps.length = sizes.sum ∧
        Same t₁.engine t₂.engine) ∧
    (∀ patience updates t₁,
      (Session.start program patience).perform s₁ = (.ok updates, t₁) →
      ∃ patience' t₂, (Session.start program patience').perform s₂ =
          (.ok updates, t₂) ∧ Same t₁.engine t₂.engine) ∧
    ∀ patience updates t₂,
      (Session.start program patience).perform s₂ = (.ok updates, t₂) →
      ∃ patience' t₁, (Session.start program patience').perform s₁ =
          (.ok updates, t₁) ∧ Same t₁.engine t₂.engine := by
  have hfresh := aligned_of_wakeRows hg hsize hdimension hlatent hwake₁ hwake₂
  have hbegin₁ : Session.begin.perform s₁ = (.ok (), s₁.restarted) :=
    Session.begin_synchronous (hs₁ ▸ hfresh.synchronous)
  obtain ⟨order, horder, rfl⟩ := Session.begin_ok hbegin₂
  rw [hs₂] at horder
  have haligned : Aligned D s₁.restarted.engine
      { s₂.restarted.engine with queue := order } := by
    have hbegun := hfresh.begun (horder.trans hqueue) s₁.engine.now
      s₂.engine.now
    rw [Session.restarted, Session.restarted, hs₂, hs₁]
    rw [hs₂, hs₁] at hbegun
    exact hbegun
  have hquiet₁' : s₁.restarted.Quiet := hquiet₁.begun _
  have hquiet₂' := hquiet₂.begun { s₂.restarted.engine with queue := order }
  refine ⟨fun sizes t₁ hreaches => ?_, fun patience updates t₁ hstart => ?_,
    fun patience updates t₂ hstart => ?_⟩
  · obtain ⟨begun₁, hbegun, hrun⟩ := hreaches
    obtain ⟨-, rfl⟩ := Prod.mk.inj (hbegin₁.symm.trans hbegun)
    obtain ⟨steps, t₂, hrun₂, hlength, -, -, hend⟩ :=
      haligned.follow hexact hquiet₁' hquiet₂' hrun
    exact ⟨steps, t₂, ⟨_, hbegin₂, hrun₂⟩, hlength, hend.toSame⟩
  · obtain ⟨sizes, u, ⟨begun₁, hbegun, hrun⟩, hover, rfl⟩ :=
      Session.start_ok hstart
    obtain ⟨-, rfl⟩ := Prod.mk.inj (hbegin₁.symm.trans hbegun)
    obtain ⟨steps, t₂, hrun₂, -, hquietU, -, hend⟩ :=
      haligned.follow hexact hquiet₁' hquiet₂' hrun
    obtain ⟨rfl, hrest⟩ := Session.over_of_unlimited hquietU.limit hover
    have hstart₂ := Session.start_of_run hbegin₂ hrun₂
      (hend.activeCount_eq.trans hrest)
    rw [hend.updates] at hstart₂
    exact ⟨_, t₂, hstart₂, hend.toSame⟩
  · obtain ⟨steps, u, ⟨begun, hbegun, hrun⟩, hover, rfl⟩ :=
      Session.start_ok hstart
    obtain ⟨-, rfl⟩ := Prod.mk.inj (hbegin₂.symm.trans hbegun)
    have hlimit : u.limit = none := hrun.limit_eq.trans hquiet₂.limit
    obtain ⟨rfl, hrest⟩ := Session.over_of_unlimited hlimit hover
    obtain ⟨sizes, t₁, hrun₁, hend⟩ :=
      haligned.follow_back hexact hquiet₁' hquiet₂' hrun hrest
    have hstart₁ := Session.start_of_run hbegin₁ hrun₁
      (hend.activeCount_eq.symm.trans hrest)
    rw [← hend.updates] at hstart₁
    exact ⟨_, t₁, hstart₁, hend.toSame⟩

end Fresh

/-- On the sample, with its queue turned around: the asynchronous session comes
to the end of the synchronous one, after nine updates. -/
theorem modes_agree_sample :
    ∃ sizes t₁, (sampleSession .synchronous).Reaches program sizes t₁ ∧
      (Session.start program 4).perform (sampleSession .synchronous) =
        (.ok 9, t₁) ∧
      (∃ steps t₂, Session.Reaches program
        { sampleSession .asynchronous with
          engine := { wokenSample .asynchronous with queue := [2, 1, 0] } }
        steps t₂ ∧ steps.length = sizes.sum ∧ Same t₁.engine t₂.engine) ∧
      ∃ patience t₂, (Session.start program patience).perform
        { sampleSession .asynchronous with
          engine := { wokenSample .asynchronous with queue := [2, 1, 0] } } =
          (.ok 9, t₂) ∧ Same t₁.engine t₂.engine := by
  have hengine₁ : (sampleSession .synchronous).engine =
      wokenSample .synchronous := rfl
  have hengine₂ : Session.engine { sampleSession .asynchronous with
      engine := { wokenSample .asynchronous with queue := [2, 1, 0] } } =
      { wokenSample .asynchronous with queue := [2, 1, 0] } := rfl
  have h := modes_agree ⟨Int.add_comm, Int.add_assoc⟩ sampleGraph_bipartite
    rfl rfl (by decide) (wakeRows_sampleEngine .synchronous)
    (wakeRows_sampleEngine .asynchronous) (by decide) hengine₁ hengine₂
    ⟨fun a ha => absurd ha List.not_mem_nil, rfl⟩
    ⟨fun a ha => absurd ha List.not_mem_nil, rfl⟩ rfl
  have hresult : ((Session.start program 4).perform
      (sampleSession .synchronous)).1.toOption = some 9 := by
    decide +kernel
  have hstart := Attempt.perform_of_toOption hresult
  obtain ⟨sizes, u, hreaches, hover, -⟩ := Session.start_ok hstart
  have hlimit : u.limit = none := by
    obtain ⟨begun, hbegin, hrun⟩ := hreaches
    obtain ⟨order, -, rfl⟩ := Session.begin_ok hbegin
    exact hrun.limit_eq
  obtain ⟨hsame, -⟩ := Session.over_of_unlimited hlimit hover
  rw [← hsame] at hreaches
  exact ⟨sizes, _, hreaches, hstart, h.1 sizes _ hreaches,
    h.2.1 4 9 _ hstart⟩

end Descent

end RatingFactors
