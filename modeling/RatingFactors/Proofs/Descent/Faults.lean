import RatingFactors.Proofs.Descent.Broken
import RatingFactors.Proofs.Descent.Modes
import RatingFactors.Proofs.Engine.Endings

/-!
# What can go wrong while learning

Learning checks what it relies on: lengths, roles, addresses, who gathers and
who is sent steps.  Over a bipartite graph, with latent vectors of the length
that the settings give, no such check ever fails.  The invariant is `Intact`: it
is kept by every iteration that goes through, and an engine that has it fails
only where a residual is no number.

## Main definitions

* `Intact` — lengths match, the books are in order, every signal is a message.

## Main results

* `work_cases` — an iteration goes through or meets such a residual.
* `Intact.work` — an iteration that goes through keeps the engine intact.
* `faults_unreachable` — what runs keep, and the one failure that they can end
  with.
-/

namespace RatingFactors

namespace Inbox

variable {α : Type} [Scalar α]

/-- An inbox that has been put only messages holds one, if anything. -/
private theorem foldl_put_ne_awake {posts : List (Option (Step α))}
    (hposts : ∀ post ∈ posts, post ≠ none) {b : Inbox α} (hb : b ≠ .awake) :
    posts.foldl put b ≠ .awake := by
  induction posts generalizing b with
  | nil => exact hb
  | cons post rest ih =>
      refine ih (fun other hother => hposts other (by simp [hother])) ?_
      cases post with
      | none => exact absurd rfl (hposts none (by simp))
      | some m =>
          cases b with
          | idle => exact nofun
          | awake => exact absurd rfl hb
          | holds waiting => exact nofun

end Inbox

namespace Descent

variable {α ω : Type} [Scalar α]

/-- Everything that learning relies on between two iterations: lengths match,
the books of the scheduler are in order, and whoever is active has been sent a
message. -/
structure Intact (g : Graph α) (size : Nat) (e : Engine α (Slot α) ω) :
    Prop where
  graph : e.graph = g
  sound : Sound size e
  orderly : e.Orderly
  held : ∀ v, e.inbox v ≠ .awake

/-! ## One iteration -/

section Iterations

variable {e e' before : Engine α (Slot α) ω} {g : Graph α} {size : Nat}
  {order : List Nat} {waiting : Nat → Inbox α}

theorem Sound.cleared (h : Sound size e) (horderly : e.Orderly) :
    Sound size e.cleared :=
  (h.poised.cleared horderly).sound fun v =>
    e.slots_cleared ▸ h.slots v

/-- An iteration goes through, unless it meets a residual that is no number. -/
theorem work_cases (h : Intact g size e) (hactive : e.activeCount ≠ 0) :
    (∃ e', (Engine.work program e.mode).perform e = (.ok (), e')) ∨
      ∃ v ∈ e.order, ∃ cause e',
        (Engine.work program e.mode).perform e = (.error cause, e') ∧
          ResidualFault e.scene v cause := by
  rw [h.orderly.perform_work hactive, ← e.scene_cleared]
  have hlt : ∀ v ∈ e.order, v < e.cleared.graph.size := by
    rw [Engine.graph_cleared]
    exact h.sound.sized.lt_of_mem_order h.orderly
  refine (phases_cases (h.sound.cleared h.orderly).poised
    h.orderly.nodup_order hlt h.sound.inboxes).imp_right ?_
  rintro ⟨k, cause, after, hfail, hbroken⟩
  obtain ⟨later, horder⟩ := hbroken.order_eq
  exact ⟨k.place, by simp [horder], cause, after, hfail,
    hbroken.stumbles.fault fun _ hm => hm⟩

/-- An iteration that goes through keeps an engine intact. -/
theorem Intact.work (h : Intact g size e) (hactive : e.activeCount ≠ 0)
    (hwork : (Engine.work program e.mode).perform e = (.ok (), e')) :
    Intact g size (Session.passIteration e') := by
  have hg := h.sound.bipartite.toFaithful
  have hlt := h.sound.sized.lt_of_mem_order h.orderly
  have hturn := turn_of_work h.sound.sized hg h.orderly hactive hwork
  obtain ⟨-, horderly, hgraph⟩ :=
    books_of_work h.sound.sized hg h.orderly hactive hwork
  rw [← e.graph_cleared] at hg hlt
  have hsound := hturn.sound (h.sound.cleared h.orderly) hlt h.sound.inboxes
  refine ⟨hgraph.trans h.graph, hsound.passed, horderly, fun w => ?_⟩
  change e'.inbox w ≠ .awake
  rw [hturn.inbox_messages hg hlt]
  refine Inbox.foldl_put_ne_awake (fun post hpost => ?_) ?_
  · obtain ⟨m, -, rfl⟩ := List.mem_map.mp hpost
    exact nofun
  · rw [h.orderly.inbox_cleared]
    split
    · exact nofun
    · exact h.held w

/-- Settings with the same dimension, the clock, notes and the order of the
queue do not matter. -/
theorem Intact.frame (h : Intact g size e) {settings : Settings α}
    {notes : Array (Note ω)} {queue : List Nat} {startedAt : α}
    (hdimension : settings.dimension = e.settings.dimension)
    (hqueue : queue.Perm e.queue) :
    Intact g size { e with settings, notes, queue, startedAt } where
  graph := h.graph
  sound :=
    { bipartite := h.sound.bipartite
      sized := ⟨h.sound.sized.vertices, h.sound.sized.slots,
        h.sound.sized.inboxes⟩
      uniform := ⟨hdimension.trans h.sound.uniform.dimension,
        h.sound.uniform.latent⟩
      inboxes := h.sound.inboxes
      slots := h.sound.slots }
  orderly := h.orderly.frame rfl rfl hqueue
  held := h.held

/-- Iterations keep an engine intact, as long as nobody changes the
dimension. -/
theorem kept_intact : Session.Kept (program : Program α (Slot α) ω)
    Settings.dimension (Intact g size) where
  work := fun _ _ h hactive hwork => h.work hactive hwork
  settings := fun _ _ _ h hdimension => h.frame hdimension (.refl _)

end Iterations

/-! ## The first activation -/

section Waking

variable {g : Graph α} {vertices : Array (Vertex α)} {settings : Settings α}
  {size : Nat} {e : Engine α (Slot α) ω}

/-- Waking the rows goes through when lengths match. -/
theorem exists_wakeRows (hf : Fitting size e.scene)
    (hshows : Shows size e.scene e) :
    ∃ e', Trainer.wakeRows.perform e = (.ok (), e') := by
  obtain ⟨e', hwake, -⟩ := Attempt.exists_each (List.range e.graph.size)
    (fun place => do
      let e ← get
      Engine.heed place (wake e.scene place : Reply α (Slot α) ω Unit))
    (fun _ reached => Shows size e.scene reached) hshows
    fun seen v rest reached hplaces hreached => by
      have hv : v < e.graph.size := List.mem_range.mp (by simp [hplaces])
      rw [Attempt.perform_get_bind, hreached.scene_eq]
      unfold wake
      split
      · exact exists_rouse hf hreached hv
      · exact ⟨reached, Engine.heed_ok.mpr ⟨rfl, rfl⟩, hreached⟩
  exact ⟨e', hwake⟩

/-- On a fresh engine it does. -/
theorem exists_wakeRows_make (hg : g.Bipartite)
    (hsize : vertices.size = g.size) (hdimension : settings.dimension = size)
    (hlatent : ∀ v (hv : v < vertices.size),
      vertices[v].latent.length = size) (mode : Mode) (pace : Nat → α) :
    ∃ e : Engine α (Slot α) ω, Trainer.wakeRows.perform
      (Engine.make mode g vertices settings none pace) = (.ok (), e) := by
  have huniform : Uniform g settings size (Engine.make mode g vertices
      settings none pace : Engine α (Slot α) ω).scene.vertex := by
    refine ⟨hdimension, fun v hv => ?_⟩
    have hlt : v < vertices.size := hsize ▸ hv
    rw [← hlatent v hlt]
    simp [Scene.vertex, Engine.scene, Engine.make, hlt]
  refine exists_wakeRows ⟨hg, huniform⟩
    ⟨rfl, Array.size_replicate, fun v => ?_⟩
  rw [Engine.inbox_make]
  exact Inbox.fits_idle size

/-- A fresh engine whose rows have been woken is intact. -/
theorem intact_of_wakeRows {mode : Mode} {pace : Nat → α} (hg : g.Bipartite)
    (hsize : vertices.size = g.size) (hdimension : settings.dimension = size)
    (hlatent : ∀ v (hv : v < vertices.size),
      vertices[v].latent.length = size)
    (hwake : Trainer.wakeRows.perform
      (Engine.make mode g vertices settings none pace) = (.ok (), e)) :
    Intact g size e where
  graph := graph_of_wakeRows hwake
  sound := sound_of_wakeRows hg hsize hdimension hlatent hwake
  orderly := orderly_of_wakeRows hwake
  held := by
    intro v
    rw [wakeRows_ok hwake, Engine.inbox_postAll wakePosts_make_lt,
      Engine.inbox_make]
    refine Inbox.foldl_put_ne_awake (fun message hmessage => ?_) nofun
    obtain ⟨post, hpost, hto⟩ := List.mem_filterMap.mp hmessage
    obtain ⟨w, -, rfl⟩ := List.mem_map.mp hpost
    split at hto
    · exact Option.some.inj hto ▸ nofun
    · cases hto

end Waking

/-! ## Runs -/

section Runs

variable {μ τ ρ : Type} {g : Graph α} {vertices : Array (Vertex α)}
  {settings : Settings α} {D : Nat}

/-- A start from there goes through intact engines, as long as no aggregator
changes the dimension. -/
theorem intact_of_reaches {mode : Mode} {pace : Nat → α}
    {e : Engine α (Slot α) ω} (hg : g.Bipartite)
    (hsize : vertices.size = g.size) (hdimension : settings.dimension = D)
    (hlatent : ∀ v (hv : v < vertices.size), vertices[v].latent.length = D)
    (hwake : Trainer.wakeRows.perform
      (Engine.make mode g vertices settings none pace) = (.ok (), e))
    {s t : Session α (Slot α) ω μ τ ρ} {queue : List Nat}
    (hqueue : queue.Perm e.queue) (hengine : s.engine = { e with queue })
    (haggregators : ∀ a ∈ s.aggregators, a.Preserves Settings.dimension)
    {sizes : List Nat} (h : s.Reaches program sizes t) :
    Intact g D t.engine := by
  refine (kept_intact.reaches h (fun order startedAt horder => ?_)
    haggregators).1
  rw [hengine] at horder ⊢
  exact (intact_of_wakeRows hg hsize hdimension hlatent hwake).frame rfl
    (horder.trans hqueue)

/-- Learning over a bipartite graph with latent vectors of the length that the
settings give, without aggregators.  Waking the rows of a fresh engine goes
through, and a start from there begins with every seed of 32 bits.  Between two
iterations all lengths match, whoever is active has been sent a message, no step
waits in a slot, and in asynchronous mode exactly the active vertices wait, once
each.  A start fails only because a residual is no number; or it has made as
many iterations as it had patience for and there is more to do. -/
theorem faults_unreachable (hg : g.Bipartite) (hsize : vertices.size = g.size)
    (hdimension : settings.dimension = D)
    (hlatent : ∀ v (hv : v < vertices.size), vertices[v].latent.length = D)
    (mode : Mode) (pace : Nat → α) :
    ∃ e : Engine α (Slot α) ω, Trainer.wakeRows.perform
        (Engine.make mode g vertices settings none pace) = (.ok (), e) ∧
      ∀ (s : Session α (Slot α) ω μ τ ρ) (queue : List Nat),
        queue.Perm e.queue → s.engine = { e with queue } →
        s.aggregators = [] → (∀ seed ∈ s.seed, 0 ≤ seed ∧ seed < 2 ^ 32) →
        (∃ begun, Session.begin.perform s = (.ok (), begun)) ∧
        (∀ sizes t, s.Reaches program sizes t →
          (∀ v < g.size, (t.engine.scene.vertex v).latent.length = D) ∧
          (∀ v, Awake t.engine v →
            ∃ m, t.engine.inbox v = .holds m ∧ m.delta.length = D) ∧
          (∀ v, t.engine.slots.getD v none = none) ∧
          (t.engine.mode = .asynchronous → t.engine.queue.Nodup ∧
            ∀ v, v ∈ t.engine.queue ↔ Awake t.engine v)) ∧
        ∀ patience cause t,
          (Session.start program patience).perform s = (.error cause, t) →
          (∃ sizes u, s.Reaches program sizes u ∧
            ∃ v ∈ u.engine.order, ResidualFault u.engine.scene v cause) ∨
          (cause = .stillActive ∧ ∃ sizes, s.Reaches program sizes t ∧
            t.Busy ∧ sizes.length = patience) := by
  obtain ⟨e, hwake⟩ := exists_wakeRows_make (ω := ω) hg hsize hdimension
    hlatent mode pace
  refine ⟨e, hwake, fun s queue hqueue hengine hnone hseed => ?_⟩
  have hintact : ∀ sizes t, s.Reaches program sizes t →
      Intact g D t.engine := fun sizes t hreaches =>
    intact_of_reaches hg hsize hdimension hlatent hwake hqueue hengine
      (fun a ha => absurd (hnone ▸ ha) List.not_mem_nil) hreaches
  have hidle : ∀ a ∈ s.aggregators, a.interval = none :=
    fun a ha => absurd (hnone ▸ ha) List.not_mem_nil
  have hbegin : ∃ begun, Session.begin.perform s = (.ok (), begun) := by
    refine (Session.begin_cases s).resolve_right ?_
    rintro ⟨seed, cause, -, hsome, herror, -⟩
    obtain ⟨hlow, hhigh⟩ := hseed seed hsome
    obtain ⟨source, hsource⟩ := Twister.exists_seeded hlow hhigh
    rw [hsource] at herror
    cases herror
  refine ⟨hbegin, fun sizes t hreaches => ?_, fun patience cause t hstart => ?_⟩
  · have h := hintact sizes t hreaches
    refine ⟨fun v hv => h.sound.uniform.latent v (h.graph ▸ hv), fun v hv => ?_,
      h.sound.slots, fun hmode => ⟨h.orderly.nodup, h.orderly.mem_queue hmode⟩⟩
    cases hbox : t.engine.inbox v with
    | idle =>
        rw [Awake, hbox] at hv
        cases hv
    | awake => exact absurd hbox (h.held v)
    | holds m =>
        exact ⟨m, rfl, (h.sound.inboxes v m (by rw [hbox]; rfl)).length⟩
  · rcases Session.start_cases hstart with hended | ⟨hcause, hgiven⟩
    · left
      cases hended with
      | unbegun hfail =>
          obtain ⟨begun, hbegun⟩ := hbegin
          rw [hbegun] at hfail
          cases hfail
      | @failed sizes _ u _ hreaches hbusy hadvance =>
          obtain ⟨engine, hwork, -⟩ := (Session.advance_error_of_idle
            (hreaches.idle hidle)).mp hadvance
          rcases work_cases (hintact _ _ hreaches) hbusy.1 with
            ⟨e', hok⟩ | ⟨v, hv, fault, e', herror, hfault⟩
          · rw [hok] at hwork
            cases hwork
          · rw [herror] at hwork
            obtain ⟨hsame, -⟩ := Prod.mk.inj hwork
            obtain rfl := Except.error.inj hsame
            exact ⟨sizes, u, hreaches, v, hv, hfault⟩
    · exact .inr ⟨Except.error.inj hcause, hgiven⟩

end Runs

/-- A session over the sample whose queue is shuffled. -/
def shuffledSession : Session Int (Slot Int) Empty Unit Unit Unit :=
  { sampleSession .asynchronous with seed := some 7 }

/-- On the sample every residual is a number, so a start fails only when it
gives up. -/
theorem faults_unreachable_sample :
    (∃ begun, Session.begin.perform shuffledSession = (.ok (), begun)) ∧
      (∀ sizes t, shuffledSession.Reaches program sizes t →
        ∀ v, Awake t.engine v →
          ∃ m, t.engine.inbox v = .holds m ∧ m.delta.length = 2) ∧
      ∀ patience cause t, (Session.start program patience).perform
        shuffledSession = (.error cause, t) → cause = .stillActive := by
  obtain ⟨e, hwake, h⟩ := faults_unreachable (ω := Empty) (μ := Unit)
    (τ := Unit) (ρ := Unit) sampleGraph_bipartite
    (rfl : sampleVertices.size = sampleGraph.size)
    (rfl : sampleSettings.dimension = (2 : Nat)) (by decide) .asynchronous
    fun _ => 1
  have hwoken : wokenSample .asynchronous = e :=
    (Prod.mk.inj ((wakeRows_sampleEngine .asynchronous).symm.trans hwake)).2
  obtain ⟨hbegin, hkept, hfails⟩ := h shuffledSession e.queue (.refl _)
    hwoken rfl (by decide)
  refine ⟨hbegin, fun sizes t ht => (hkept sizes t ht).2.1,
    fun patience cause t hstart => ?_⟩
  rcases hfails patience cause t hstart with
    ⟨-, u, -, v, -, -, n, -, hnan, -⟩ | ⟨hcause, -⟩
  · cases hnan
  · exact hcause

end Descent

end RatingFactors
