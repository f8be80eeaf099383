import RatingFactors.Proofs.Descent.Allowance
import RatingFactors.Proofs.Reports

/-!
# Training ends

A trainer prepares, runs the engine with a number of iterations after which it
would give up, and concludes.  The budget that is left when the engine starts,
or the bound on iterations, is used up before that number is reached.  So the
number plays no part: the engine's run ends because its work is done or because
something has failed.

## Main definitions

* `Trainer.prepare`, `Trainer.conclude` — what training does before and after
  the engine's run.
* `Trainer.Accepted` — the trainers that training is about.
* `Trainer.Settles` — the engine's run comes to its own end.

## Main results

* `train_eq` — training is preparing, running and concluding.
* `finishes_of_patience` — a trainer has enough patience.
* `budget_respected` — budgets are respected, and every run ends.
-/

namespace RatingFactors

namespace Trainer

open Descent (allowance)

variable {α : Type} [Scalar α]

/-- What a trainer does before it runs the engine. -/
def prepare : Attempt (Trainer α) Unit := do
  say (headLines (← get).engine)
  takeMean
  onEngine wakeRows
  say [s!"Активировано вершин: {(← get).engine.activeCount}",
    "Запуск Bias-SGD"]

/-- What a trainer does when the engine has run. -/
def conclude (begun : α) (updates : Nat) :
    Attempt (Trainer α) (Outcome α) := do
  let runtime := (← get).engine.now - begun
  say (workLines runtime updates)
  say ["Финальная ошибка:"]
  discard (onSession (Session.aggregate monitorName))
  let e := (← get).engine
  let metrics ← Attempt.lift
    (Evaluation.metrics e.graph e.vertices e.settings)
  savePredictions
  if (← get).checkpointFolder.isSome then discard (saveCheckpoint none)
  say [rule '=', ""]
  let t ← get
  return {
    globalMean := t.engine.settings.globalMean
    runtime
    updates
    iterations := t.engine.iteration
    history := t.monitor.history
    finalRate := t.engine.settings.rate
    metrics }

/-- An engine whose settings know a mean, with other notes. -/
def averaged {σ ω : Type} (e : Engine α σ ω) (mean : α)
    (notes : Array (Note ω)) : Engine α σ ω :=
  { e with settings := { e.settings with globalMean := mean }, notes }

/-- A trainer at rest over a graph, whose runs are bounded by a budget or by a
number of iterations. -/
structure Accepted (g : Graph α) (vertices : Array (Vertex α))
    (t : Trainer α) : Prop where
  resting : t.session.engine.Resting
  graph : t.session.engine.graph = g
  vertices : t.session.engine.vertices = vertices
  bounded : t.session.engine.settings.budget ≠ none ∨ t.session.limit ≠ none
  aggregators : ∀ a ∈ t.session.aggregators, a.Preserves Settings.budget

/-- Training fails while it prepares, or the engine's run comes to its own end;
under a budget it applies no more updates than the budget allows, whatever the
vertices start with. -/
def Settles (vertices : Array (Vertex α)) (t : Trainer α) : Prop :=
  ∀ answer u, train.perform t = (answer, u) →
    (∃ cause, prepare.perform t = (.error cause, u) ∧
      answer = .error cause) ∨
    ∃ ready result last, prepare.perform t = (.ok (), ready) ∧
      Session.Ended Descent.program ready.session result last ∧
      (∀ B, t.session.engine.settings.budget = some B →
        last.engine.updates ≤ allowance B vertices) ∧
      match result with
      | .error cause =>
          answer = .error cause ∧ u = { ready with session := last }
      | .ok updates =>
          (conclude ready.engine.now updates).perform
            { ready with session := last } = (answer, u)

/-! ## Preparing -/

section Prepare

variable {t u : Trainer α}

/-- Training is preparing, running the engine with its patience, and
concluding. -/
theorem train_eq : (train : Attempt (Trainer α) (Outcome α)) =
    (prepare >>= fun _ : Unit => do
      let begun := (← get).engine.now
      let updates ← onSession (Session.start Descent.program
        (patience (← get).session))
      conclude begun updates) := by
  simp only [train, prepare, conclude, bind_assoc]

omit [Scalar α] in
theorem perform_onSession {β : Type} (work : Attempt (LearningSession α) β)
    (t : Trainer α) :
    (onSession work).perform t = ((work.perform t.session).1,
      { t with session := (work.perform t.session).2 }) := rfl

omit [Scalar α] in
/-- Work of a trainer on its engine is the work of the engine. -/
theorem onEngine_ok {β : Type}
    {work : Attempt (Engine α (Descent.Slot α) Empty) β} {result : β}
    (h : (onEngine work).perform t = (.ok result, u)) :
    ∃ engine, work.perform t.session.engine = (.ok result, engine) ∧
      u.session = { t.session with engine } := by
  rw [onEngine, perform_onSession] at h
  obtain ⟨hanswer, rfl⟩ := Prod.mk.inj h
  obtain ⟨engine, hwork, hsession⟩ := Session.onEngine_ok.mp
    (Prod.ext hanswer rfl :
      (Session.onEngine work).perform t.session = (.ok result, _))
  exact ⟨engine, hwork, hsession⟩

omit [Scalar α] in
/-- Printing never fails, and changes the notes only. -/
theorem exists_printed {σ ω : Type} (lines : List String) (e : Engine α σ ω) :
    ∃ notes,
      (Attempt.each lines Engine.print).perform e =
        (.ok (), { e with notes }) := by
  induction lines generalizing e with
  | nil => exact ⟨e.notes, rfl⟩
  | cons line rest ih =>
      obtain ⟨notes, hrest⟩ := ih { e with notes := e.notes.push (.line line) }
      refine ⟨notes, ?_⟩
      rw [Attempt.each, Engine.print, Attempt.perform_modify_bind]
      exact hrest

omit [Scalar α] in
theorem exists_said (lines : List String) (t : Trainer α) :
    ∃ notes, (say lines).perform t = (.ok (), { t with
      session :=
        { t.session with engine := { t.session.engine with notes } } }) := by
  obtain ⟨notes, hprint⟩ := exists_printed lines t.session.engine
  refine ⟨notes, ?_⟩
  rw [say, onEngine, perform_onSession, Session.perform_onEngine, hprint]

omit [Scalar α] in
theorem say_ok {lines : List String} (h : (say lines).perform t = (.ok (), u)) :
    ∃ notes, u.session = { t.session with
      engine := { t.session.engine with notes } } := by
  obtain ⟨notes, hsaid⟩ := exists_said lines t
  rw [hsaid, Prod.mk.injEq] at h
  exact ⟨notes, congrArg session h.2.symm⟩

/-- Taking the mean changes nothing else in the settings. -/
theorem takeMean_ok (h : takeMean.perform t = (.ok (), u)) :
    ∃ mean notes, u.session = { t.session with
      engine := averaged t.session.engine mean notes } := by
  rw [takeMean, Attempt.perform_get_bind] at h
  dsimp only at h
  rw [Attempt.perform_modify_bind] at h
  split at h
  · cases h
  · obtain ⟨_, reached, hmean, h⟩ := Attempt.perform_bind_ok.mp h
    obtain ⟨engine, hmodify, hsession⟩ := onEngine_ok hmean
    rw [Attempt.perform_modify] at hmodify
    obtain ⟨-, rfl⟩ := Prod.mk.inj hmodify
    obtain ⟨notes, hsaid⟩ := say_ok h
    rw [hsession] at hsaid
    exact ⟨_, notes, hsaid⟩

/-- What preparing comes to: the rows are woken, with a new mean in the
settings. -/
theorem prepare_ok (h : prepare.perform t = (.ok (), u)) :
    ∃ mean before after woken,
      wakeRows.perform (averaged t.session.engine mean before) =
        (.ok (), woken) ∧
      u.session = { t.session with
        engine := { woken with notes := after } } := by
  rw [prepare, Attempt.perform_get_bind] at h
  obtain ⟨_, said, hsaid, h⟩ := Attempt.perform_bind_ok.mp h
  obtain ⟨_, counted, hcounted, h⟩ := Attempt.perform_bind_ok.mp h
  obtain ⟨_, roused, hroused, h⟩ := Attempt.perform_bind_ok.mp h
  rw [Attempt.perform_get_bind] at h
  obtain ⟨_, hhead⟩ := say_ok hsaid
  obtain ⟨mean, before, hmean⟩ := takeMean_ok hcounted
  obtain ⟨woken, hwake, hwoken⟩ := onEngine_ok hroused
  obtain ⟨after, hlast⟩ := say_ok h
  rw [hhead] at hmean
  rw [hmean] at hwake hwoken
  rw [hwoken] at hlast
  exact ⟨mean, before, after, woken, hwake, hlast⟩

end Prepare

/-! ## Patience -/

section Patience

variable {g : Graph α} {vertices : Array (Vertex α)} {t ready : Trainer α}

omit [Scalar α] in
/-- The patience of a trainer covers the allowance. -/
theorem allowance_le_patience {session : LearningSession α} {B : Int}
    (hbudget : session.engine.settings.budget = some B) :
    allowance B session.engine.vertices ≤ patience session := by
  have hfold : ∀ all : List (Vertex α), (all.map (budgetLeft B)).sum ≤
      all.foldr (fun v count => budgetLeft B v + 2 + count) 1 := by
    intro all
    induction all with
    | nil => simp
    | cons v rest ih =>
        rw [List.map_cons, List.sum_cons, List.foldr_cons]
        omega
  rw [patience, hbudget]
  exact hfold _

/-- A bound on iterations is reached in time. -/
theorem finishes_of_limit {session : LearningSession α} {limit : Int}
    (hlimit : session.limit = some limit) :
    session.Finishes Descent.program
      ((limit - session.engine.iteration).toNat + 1) := by
  rintro sizes last ⟨begun, hbegun, hrun⟩ hbusy
  obtain ⟨order, -, rfl⟩ := Session.begin_ok hbegun
  have hiteration := hrun.iteration_eq
  have hbound := hrun.limit_eq
  have hfree := hbusy.2
  change last.engine.iteration =
    session.engine.iteration + sizes.length at hiteration
  change last.limit = session.limit at hbound
  rw [Session.limitReached, hbound, hlimit] at hfree
  by_cases hreached : limit ≤ last.engine.iteration
  · simp [hreached] at hfree
  · omega

/-- When a trainer has prepared, its engine is thrifty. -/
theorem Accepted.thrifty (hg : g.Bipartite) (h : t.Accepted g vertices)
    (hprepare : prepare.perform t = (.ok (), ready)) {B : Int}
    (hbudget : t.session.engine.settings.budget = some B) :
    Descent.Thrifty g B (Descent.count t.session.engine)
      (allowance B vertices) ready.session.engine := by
  obtain ⟨mean, before, after, woken, hwake, hready⟩ := prepare_ok hprepare
  have hthrifty := Descent.thrifty_of_resting hg
    (e := averaged t.session.engine mean before)
    ⟨⟨h.resting.sized.vertices, h.resting.sized.slots,
      h.resting.sized.inboxes⟩, h.resting.idle, h.resting.queue,
      h.resting.updates⟩ h.graph hbudget hwake
  rw [hready]
  exact h.vertices ▸ hthrifty.frame hthrifty.budget (.refl _)

/-- Preparing leaves the vertices, the settings but for the mean, the bound on
iterations and the aggregators alone. -/
theorem prepare_frame (h : prepare.perform t = (.ok (), ready)) :
    ready.session.engine.vertices = t.session.engine.vertices ∧
      (∃ mean, ready.session.engine.settings =
        { t.session.engine.settings with globalMean := mean }) ∧
      ready.session.limit = t.session.limit ∧
      ready.session.aggregators = t.session.aggregators := by
  obtain ⟨mean, before, after, woken, hwake, hready⟩ := prepare_ok h
  have hwoken := Descent.wakeRows_ok hwake
  have hvertices : woken.vertices = t.session.engine.vertices := by
    rw [hwoken, Engine.vertices_postAll]
    rfl
  have hsettings : woken.settings =
      { t.session.engine.settings with globalMean := mean } := by
    rw [hwoken, Engine.settings_postAll]
    rfl
  rw [hready]
  exact ⟨hvertices, ⟨mean, hsettings⟩, rfl, rfl⟩

/-- A trainer that has prepared has enough patience. -/
theorem Accepted.finishes_of_patience (hg : g.Bipartite)
    (h : t.Accepted g vertices)
    (hprepare : prepare.perform t = (.ok (), ready)) :
    ready.session.Finishes Descent.program (patience ready.session) := by
  obtain ⟨hvertices, ⟨mean, hsettings⟩, hlimits, haggregators⟩ :=
    prepare_frame hprepare
  have hbudgets : ready.session.engine.settings.budget =
      t.session.engine.settings.budget := by
    rw [hsettings]
  cases hbudget : t.session.engine.settings.budget with
  | some B =>
      refine Descent.finishes_of_thrifty hg (h.thrifty hg hprepare hbudget)
        (haggregators ▸ h.aggregators) ?_
      have hle := allowance_le_patience (hbudgets.trans hbudget)
      rw [hvertices, h.vertices] at hle
      omega
  | none =>
      obtain ⟨limit, hlimit⟩ := Option.ne_none_iff_exists'.mp
        (h.bounded.resolve_left fun hsome => hsome hbudget)
      have hfinishes := finishes_of_limit (hlimits.trans hlimit)
      rwa [patience, hbudgets.trans hbudget, hlimits.trans hlimit]

/-- However the engine's run ends, it applies no more updates than the budget
allows. -/
theorem Accepted.updates_le (hg : g.Bipartite) (h : t.Accepted g vertices)
    (hprepare : prepare.perform t = (.ok (), ready))
    {result : Except Failure Nat} {last : LearningSession α}
    (hended : Session.Ended Descent.program ready.session result last)
    {B : Int} (hbudget : t.session.engine.settings.budget = some B) :
    last.engine.updates ≤ allowance B vertices := by
  obtain ⟨-, -, -, haggregators⟩ := prepare_frame hprepare
  have hle := (Descent.spent_of_ended hg (h.thrifty hg hprepare hbudget)
    (haggregators ▸ h.aggregators) hended).le_total
  omega

/-- Training an accepted trainer does not run out of patience. -/
theorem Accepted.settles (hg : g.Bipartite) (h : t.Accepted g vertices) :
    t.Settles vertices := by
  intro answer u htrain
  rw [train_eq, Attempt.perform_bind] at htrain
  cases hprepare : prepare.perform t with
  | mk prepared ready =>
      rw [hprepare] at htrain
      cases prepared with
      | error cause =>
          obtain ⟨rfl, rfl⟩ := Prod.mk.inj htrain
          exact .inl ⟨cause, rfl, rfl⟩
      | ok done =>
          dsimp only at htrain
          rw [Attempt.perform_get_bind, Attempt.perform_get_bind,
            Attempt.perform_bind, perform_onSession] at htrain
          cases hrun : (Session.start Descent.program
              (patience ready.session)).perform ready.session with
          | mk result last =>
              have hended := Session.ended_of_finishes
                (h.finishes_of_patience hg hprepare) (Nat.le_refl _) hrun
              refine .inr ⟨ready, result, last, rfl, hended, fun B hbudget =>
                h.updates_le hg hprepare hended hbudget, ?_⟩
              rw [hrun] at htrain
              cases result with
              | error cause =>
                  obtain ⟨rfl, rfl⟩ := Prod.mk.inj htrain
                  exact ⟨rfl, rfl⟩
              | ok updates => exact htrain

end Patience

/-! ## Trainers that are accepted -/

section Made

variable {g : Graph α} {vertices : Array (Vertex α)} {t : Trainer α}

/-- Making a trainer registers the monitor in a fresh session. -/
theorem make_ok {settings : Settings α} {options : TrainingOptions}
    {pace : Nat → α} {files : Files (Artifact α)}
    (h : make g vertices settings options pace files = .ok t) :
    isEndless settings options.limit.isSome = false ∧ ∃ monitor,
      Monitor.make settings.reportEvery true = .ok monitor ∧
      Session.makePeriodic (Session.register
        (Session.make (Engine.make options.mode g vertices settings none pace)
          options.limit options.seed)
        (Monitor.aggregator monitorName monitor)).2 monitorName
        settings.interval = (true, t.session) := by
  unfold make at h
  cases hendless : isEndless settings options.limit.isSome with
  | true =>
      rw [hendless] at h
      cases h
  | false =>
      rw [hendless] at h
      cases hmonitor : (Monitor.make settings.reportEvery true :
          Except Failure (Monitor α)) with
      | error cause =>
          rw [hmonitor] at h
          cases h
      | ok monitor =>
          rw [hmonitor] at h
          refine ⟨rfl, monitor, rfl, ?_⟩
          dsimp only [bind, Except.bind] at h
          rw [if_neg Bool.false_ne_true] at h
          split at h
          · cases h
          · rename_i haccepted
            obtain rfl := Except.ok.inj h
            exact Prod.ext (by simpa using haccepted) rfl

/-- A trainer that has just been made: its engine is at rest, and its monitor
has closed nothing. -/
theorem make_session {settings : Settings α} {options : TrainingOptions}
    {pace : Nat → α} {files : Files (Artifact α)}
    (h : make g vertices settings options pace files = .ok t) :
    1 ≤ settings.reportEvery ∧ t.session =
      { engine := Engine.make options.mode g vertices settings none pace
        aggregators :=
          [Monitor.watching monitorName (some settings.interval) Scalar.zero
            ⟨settings.reportEvery, true, 0, []⟩]
        limit := options.limit
        seed := options.seed
        sinceDue := 0 } := by
  obtain ⟨-, m, hmonitor, hperiodic⟩ := make_ok h
  rw [Monitor.make] at hmonitor
  split at hmonitor
  · cases hmonitor
  · rename_i hperiod
    obtain rfl := Except.ok.inj hmonitor
    refine ⟨by omega, ?_⟩
    rw [Session.register_of_nil rfl, Session.makePeriodic_single rfl]
      at hperiodic
    split at hperiodic
    · cases hperiodic
    · exact (Prod.mk.inj hperiodic).2.symm

/-- Whatever trainer is made, is accepted. -/
theorem accepted_make (hsize : vertices.size = g.size)
    {settings : Settings α} {options : TrainingOptions} {pace : Nat → α}
    {files : Files (Artifact α)}
    (h : make g vertices settings options pace files = .ok t) :
    t.Accepted g vertices := by
  obtain ⟨hbounded, -⟩ := make_ok h
  obtain ⟨-, hsession⟩ := make_session h
  refine ⟨?_, ?_, ?_, ?_, ?_⟩ <;> rw [hsession]
  · exact Engine.resting_make hsize
  · rfl
  · rfl
  · change settings.budget ≠ none ∨ options.limit ≠ none
    rw [isEndless] at hbounded
    cases hbudget : settings.budget with
    | some B => exact .inl nofun
    | none =>
        cases hlimits : options.limit with
        | some limit => exact .inr nofun
        | none => simp [hbudget, hlimits] at hbounded
  · intro a ha
    obtain rfl := List.mem_singleton.mp ha
    exact Descent.preserves_budget_monitor monitorName
      ⟨settings.reportEvery, true, 0, []⟩

omit [Scalar α] in
/-- Taking up a checkpoint leaves a trainer accepted. -/
theorem Accepted.restore (h : t.Accepted g vertices) {c : Checkpoint α}
    (hsize : c.factors.vertices.length = g.size) :
    (t.restore c).Accepted g c.factors.vertices.toArray where
  resting :=
    { sized := ⟨by
          rw [show (t.restore c).session.engine.graph =
            t.session.engine.graph from rfl, h.graph, ← hsize]
          exact List.size_toArray,
        h.resting.sized.slots, h.resting.sized.inboxes⟩
      idle := h.resting.idle
      queue := h.resting.queue
      updates := h.resting.updates }
  graph := h.graph
  vertices := rfl
  bounded := h.bounded
  aggregators := by
    intro a ha
    obtain ⟨b, hb, rfl⟩ := List.mem_map.mp ha
    have hpreserves := h.aggregators b hb
    dsimp only
    split
    · exact hpreserves
    · exact hpreserves

end Made

end Trainer

/-! ## Budgets are respected -/

section Main

open Descent (allowance count Awake)

variable {α ω μ τ ρ : Type} [Scalar α] {g : Graph α}
  {vertices : Array (Vertex α)}

/-- Learning under a budget, whatever counts the vertices start with.  Between
two iterations whoever is active has budget left, and no vertex ever goes beyond
both the budget and its first count.  The run comes to its own end, with no more
updates than the budget allowed at first; if nothing bounds the iterations it
fails or nobody is active any more.  So whatever trainer is made, or takes up a
checkpoint afterwards, the run of its engine comes to its own end. -/
theorem budget_respected (hg : g.Bipartite) (hsize : vertices.size = g.size) :
    (∀ (mode : Mode) (settings : Settings α) (pace : Nat → α) (B : Int)
      (e : Engine α (Descent.Slot α) ω) (queue : List Nat)
      (s : Session α (Descent.Slot α) ω μ τ ρ),
      settings.budget = some B →
      Trainer.wakeRows.perform
        (Engine.make mode g vertices settings none pace) = (.ok (), e) →
      queue.Perm e.queue → s.engine = { e with queue } →
      (∀ a ∈ s.aggregators, a.Preserves Settings.budget) →
      (∀ sizes t, s.Reaches Descent.program sizes t →
        (∀ v, Awake t.engine v → count t.engine v < B) ∧
        ∀ v (hv : v < vertices.size),
          count t.engine v ≤ max vertices[v].updates B) ∧
      ∀ patience answer t, allowance B vertices ≤ patience →
        (Session.start Descent.program patience).perform s = (answer, t) →
        s.Ended Descent.program answer t ∧
        t.engine.updates ≤ allowance B vertices ∧
        (∀ v (hv : v < vertices.size),
          count t.engine v ≤ max vertices[v].updates B) ∧
        (s.limit = none → ∀ updates, answer = .ok updates →
          t.engine.activeCount = 0)) ∧
    ∀ (settings : Settings α) (options : TrainingOptions) (pace : Nat → α)
      (files : Files (Artifact α)) (made : Trainer α),
      Trainer.make g vertices settings options pace files = .ok made →
      made.Settles vertices ∧
      ∀ c : Checkpoint α, c.factors.vertices.length = g.size →
        (made.restore c).Settles c.factors.vertices.toArray := by
  refine ⟨?_, fun settings options pace files made hmade => ?_⟩
  · intro mode settings pace B e queue s hbudget hwake hqueue hengine
      haggregators
    have hwoken := Descent.thrifty_of_resting hg
      (Engine.resting_make hsize) rfl hbudget hwake
    have hs : Descent.Thrifty g B _ _ s.engine :=
      hengine ▸ hwoken.frame hwoken.budget hqueue
    have hfirst : ∀ v (hv : v < vertices.size),
        count (Engine.make mode g vertices settings none pace :
          Engine α (Descent.Slot α) ω) v = vertices[v].updates := by
      intro v hv
      simp [count, Scene.vertex, Engine.scene, Engine.make, hv]
    refine ⟨fun sizes t ht => ?_, fun patience answer t hpatience hstart => ?_⟩
    · have hthrifty := Descent.thrifty_of_reaches hg hs haggregators ht
      exact ⟨hthrifty.awake, fun v hv => hfirst v hv ▸ hthrifty.capped v⟩
    · have hfinishes := Descent.finishes_of_thrifty hg hs haggregators
        (Int.ofNat_le.mpr (Nat.le_add_left _ s.engine.updates))
      have hended := Session.ended_of_finishes hfinishes hpatience hstart
      have hspent := Descent.spent_of_ended hg hs haggregators hended
      refine ⟨hended, Int.ofNat_le.mp hspent.le_total,
        fun v hv => hfirst v hv ▸ hspent.capped v, ?_⟩
      rintro hlimit updates rfl
      obtain ⟨sizes, u, ⟨begun, hbegun, hrun⟩, hover, -⟩ :=
        Session.start_ok hstart
      obtain ⟨order, -, rfl⟩ := Session.begin_ok hbegun
      obtain ⟨rfl, hrest⟩ :=
        Session.over_of_unlimited (hrun.limit_eq.trans hlimit) hover
      exact hrest
  · have haccepted := Trainer.accepted_make hsize hmade
    exact ⟨haccepted.settles hg,
      fun c hc => (haccepted.restore hc).settles hg⟩

end Main

/-- The sample with counts from an earlier run; one is beyond the budget. -/
def wornVertices : Array (Vertex Int) :=
  #[⟨[1, 0], 0, 1⟩, ⟨[0, 1], 0, 0⟩, ⟨[1, 1], 0, 5⟩, ⟨[2, 1], 0, 2⟩,
    ⟨[1, 3], 0, -1⟩]

/-- A session over it with its rows woken. -/
def wornSession (mode : Mode) :
    Session Int (Descent.Slot Int) Empty Unit Unit Unit :=
  Session.make (Trainer.wakeRows.perform (Engine.make mode sampleGraph
    wornVertices sampleSettings none fun _ => 1)).2 none none

/-- On the sample with counts from an earlier run the budget allows six updates,
of which five are made. -/
theorem budget_respected_sample :
    (∃ t, (Session.start Descent.program
          (Descent.allowance 2 wornVertices)).perform
        (wornSession .asynchronous) = (.ok 5, t) ∧
      t.engine.updates ≤ 6 ∧ t.engine.activeCount = 0) ∧
    ∃ made, Trainer.make sampleGraph wornVertices sampleSettings {}
        (fun _ => 1) .none = .ok made ∧
      made.Settles wornVertices := by
  obtain ⟨hruns, htrainers⟩ := budget_respected (ω := Empty) (μ := Unit)
    (τ := Unit) (ρ := Unit) sampleGraph_bipartite
    (rfl : wornVertices.size = sampleGraph.size)
  have hmake : ∃ made, Trainer.make sampleGraph wornVertices sampleSettings {}
      (fun _ => 1) .none = .ok made := ⟨_, rfl⟩
  obtain ⟨made, hmade⟩ := hmake
  refine ⟨?_, made, hmade, (htrainers _ _ _ _ made hmade).1⟩
  have hwake : ((Trainer.wakeRows.perform (Engine.make .asynchronous
      sampleGraph wornVertices sampleSettings none fun _ => 1 :
      Engine Int (Descent.Slot Int) Empty)).1).toOption = some () := by
    decide +kernel
  have hresult : ((Session.start Descent.program
      (Descent.allowance 2 wornVertices)).perform
      (wornSession .asynchronous)).1.toOption = some 5 := by
    decide +kernel
  have hstart := Attempt.perform_of_toOption hresult
  obtain ⟨-, hle, -, hrest⟩ := (hruns .asynchronous sampleSettings _ 2 _ _
    (wornSession .asynchronous) rfl (Attempt.perform_of_toOption hwake)
    (.refl _) rfl (fun a ha => absurd ha List.not_mem_nil)).2 _ _ _
    (Nat.le_refl _) hstart
  exact ⟨_, hstart, hle, hrest rfl 5 rfl⟩

end RatingFactors
