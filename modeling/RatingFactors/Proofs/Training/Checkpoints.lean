import RatingFactors.Proofs.Files
import RatingFactors.Proofs.Training.Conclusion

/-!
# Checkpoints

Saving takes the vertices of a trainer apart into columns, and loading puts them
together again.  The columns give back the very vertices, so a checkpoint taken
up by another trainer carries over what has been learned, and nothing else of
that trainer changes.

A checkpoint fits a graph if it lists the same vertices in the same order.  That
is all that is compared: the width of the latent vectors is not, and a
checkpoint of another width is taken up like any other.

## Main definitions

* `Trainer.Shaped` — all latent vectors have the width that the graph gives.
* `Trainer.filed` — a trainer after a checkpoint has been saved.
* `Trainer.TakesUp` — what taking up a checkpoint changes.

## Main results

* `Factors.vertices_ofVertices` — the columns of vertices give them back.
* `perform_loadCheckpoint` — loading a checkpoint that can be read.
* `shaped_loadCheckpoint` — when a loaded model has the width of its graph.
* `load_saved` — what is saved comes back when it is loaded.
-/

namespace RatingFactors

namespace Factors

variable {α : Type} {g : Graph α} {vertices : Array (Vertex α)} {f : Factors α}

/-- The columns of vertices, and their common width. -/
theorem ofVertices_ok (h : ofVertices g vertices = .ok f) :
    f = ⟨g.ids.toList.map Int64.toInt, vertices.toList.map (·.latent),
        vertices.toList.map (·.bias), vertices.toList.map (·.updates),
        f.width⟩ ∧ ∀ v ∈ vertices, v.latent.length = f.width := by
  rw [ofVertices] at h
  cases hvertices : vertices.toList with
  | nil =>
      rw [hvertices] at h
      obtain rfl : vertices = #[] := Array.toList_eq_nil_iff.mp hvertices
      dsimp only at h
      split at h
      · cases h
      · obtain rfl := Except.ok.inj h
        exact ⟨rfl, fun v hv => absurd hv (Array.not_mem_empty v)⟩
  | cons first others =>
      rw [hvertices] at h
      dsimp only at h
      split at h
      · rename_i hall
        obtain rfl := Except.ok.inj h
        refine ⟨rfl, fun v hv => ?_⟩
        rw [← Array.mem_toList_iff, hvertices] at hv
        exact beq_iff_eq.mp (List.all_eq_true.mp hall v hv)
      · cases h

/-- The columns of vertices give them back. -/
theorem vertices_ofVertices (h : ofVertices g vertices = .ok f) :
    f.vertices = vertices.toList := by
  rw [(ofVertices_ok h).1, Factors.vertices]
  dsimp only
  rw [List.zip_map', List.zip_map', List.map_map]
  exact List.map_id _

private theorem ids_ofVertices (h : ofVertices g vertices = .ok f) :
    f.ids = g.ids.toList.map Int64.toInt := by
  rw [(ofVertices_ok h).1]

/-- The same vertices have the same columns over every graph that lists the same
identifiers; only without vertices the graph gives the width. -/
theorem ofVertices_of_ids {g' : Graph α} (hids : g'.ids = g.ids)
    (hsome : vertices ≠ #[]) :
    ofVertices g' vertices = ofVertices g vertices := by
  rw [ofVertices, ofVertices, hids]
  cases hvertices : vertices.toList with
  | nil => exact absurd (Array.toList_eq_nil_iff.mp hvertices) hsome
  | cons first others => rfl

end Factors

/-- Checkpoints of vertices fit the graphs with the same identifiers. -/
theorem Checkpoint.fits_iff {α : Type} {c : Checkpoint α} {g other : Graph α}
    (h : c.factors.ids = g.ids.toList.map Int64.toInt) :
    c.fits other = true ↔ g.ids = other.ids := by
  have hinjective : Function.Injective Int64.toInt :=
    fun _ _ => Int64.toInt_inj.mp
  rw [Checkpoint.fits, beq_iff_eq, h,
    (List.map_injective_iff.mpr hinjective).eq_iff]
  exact Array.toList_inj

private theorem Checkpoint.read_of_entry {α : Type} {files : Files (Artifact α)}
    {path : String} {c : Checkpoint α}
    (h : files.entry? (Path.tidy path) = some (.thing (.checkpoint c))) :
    Checkpoint.read files path = .ok c := by
  rw [Checkpoint.read, h]

namespace Trainer

variable {α : Type} {t u a b : Trainer α} {c : Checkpoint α}
  {path : Option String} {p q : String}

/-- All latent vectors have the width that the graph gives. -/
def Shaped (t : Trainer α) : Prop :=
  ∀ v ∈ t.engine.vertices, (v.latent.length : Int) = t.engine.graph.dimension

/-! ## Saving -/

/-- Where a checkpoint goes: to the given path, or under its usual name into the
folder for checkpoints. -/
def destination (t : Trainer α) (path : Option String) : Option String :=
  match path with
  | some path => some (Path.tidy path)
  | none => t.checkpointFolder.map fun folder => Path.join folder "biassgd.pt"

/-- The trainer after a checkpoint has been saved. -/
def filed (t : Trainer α) (p : String) (c : Checkpoint α) : Trainer α :=
  { t with
    session := { t.session with engine := { t.session.engine with
      notes := t.session.engine.notes.push
        (.line ("Чекпоинт сохранен: " ++ p)) } }
    files := (t.files.makeFolders (Path.parent p)).put p
      (.thing (.checkpoint c)) }

private theorem tidy_destination (h : t.destination path = some p) :
    Path.tidy p = p := by
  cases path with
  | some path =>
      obtain rfl := Option.some.inj h
      exact Path.tidy_tidy _
  | none =>
      obtain ⟨folder, -, rfl⟩ := Option.map_eq_some_iff.mp h
      rw [Path.join]
      split
      · exact Path.tidy_tidy _
      · exact Path.tidy_tidy _

/-- What the columns of a trainer's vertices make a checkpoint. -/
theorem checkpoint_ok (h : t.checkpoint = .ok c) :
    Factors.ofVertices t.engine.graph t.engine.vertices = .ok c.factors ∧
      c = ⟨c.factors, t.engine.settings.rate, t.engine.settings.globalMean,
        t.monitor.history⟩ := by
  obtain ⟨factors, hfactors, hc⟩ := Attempt.bind_ok.mp h
  obtain rfl := Except.ok.inj hc
  exact ⟨hfactors, rfl⟩

private theorem checkpoint_of_factors {f : Factors α}
    (h : Factors.ofVertices t.engine.graph t.engine.vertices = .ok f) :
    t.checkpoint = .ok ⟨f, t.engine.settings.rate, t.engine.settings.globalMean,
      t.monitor.history⟩ := by
  rw [checkpoint]
  exact Attempt.bind_ok.mpr ⟨f, h, rfl⟩

private theorem perform_saveCheckpoint (hp : t.destination path = some p) :
    (saveCheckpoint path).perform t =
      match t.checkpoint with
      | .ok c => (.ok p, t.filed p c)
      | .error cause => (.error cause,
          { t with files := t.files.makeFolders (Path.parent p) }) := by
  have hsave : ∀ saved, (Attempt.lift saved >>= fun saved : Checkpoint α => do
      modify fun t : Trainer α =>
        { t with files := t.files.put p (.thing (.checkpoint saved)) }
      say ["Чекпоинт сохранен: " ++ p]
      return p).perform
        { t with files := t.files.makeFolders (Path.parent p) } =
      match (saved : Except Failure (Checkpoint α)) with
      | .ok c => (.ok p, t.filed p c)
      | .error cause => (.error cause,
          { t with files := t.files.makeFolders (Path.parent p) }) := by
    intro saved
    cases saved with
    | ok c => rfl
    | error cause => rfl
  rw [saveCheckpoint, Attempt.perform_get_bind]
  cases path with
  | some path =>
      obtain rfl := Option.some.inj hp
      dsimp only
      rw [pure_bind, Attempt.perform_modify_bind]
      exact hsave t.checkpoint
  | none =>
      obtain ⟨folder, hfolder, rfl⟩ := Option.map_eq_some_iff.mp hp
      rw [hfolder]
      dsimp only
      rw [pure_bind, Attempt.perform_modify_bind, ← hfolder]
      exact hsave t.checkpoint

/-- A checkpoint that has been saved is where it was put, and holds what had
been learned. -/
theorem saveCheckpoint_ok (h : (saveCheckpoint path).perform t = (.ok p, u)) :
    t.destination path = some p ∧
    ∃ c, t.checkpoint = .ok c ∧ u = t.filed p c := by
  cases hp : t.destination path with
  | none =>
      cases path with
      | some path => cases hp
      | none =>
          rw [saveCheckpoint, Attempt.perform_get_bind,
            Option.map_eq_none_iff.mp hp] at h
          cases h
  | some p' =>
      rw [perform_saveCheckpoint hp] at h
      cases hc : t.checkpoint with
      | ok c =>
          rw [hc] at h
          obtain ⟨hpath, rfl⟩ := Prod.mk.inj h
          obtain rfl := Except.ok.inj hpath
          exact ⟨rfl, c, rfl, rfl⟩
      | error cause =>
          rw [hc] at h
          cases h

private theorem entry?_filed (hfile : Path.parts p ≠ []) :
    (t.filed p c).files.entry? p = some (.thing (.checkpoint c)) :=
  Files.entry?_put (Files.not_root_of_parts hfile)

/-- A checkpoint that can be made is saved, and can be read again. -/
theorem exists_saved (hc : t.checkpoint = .ok c)
    (hp : t.destination path = some p) (hfile : Path.parts p ≠ []) :
    ∃ u, (saveCheckpoint path).perform t = (.ok p, u) ∧
      u.files.entry? p = some (.thing (.checkpoint c)) ∧
      Checkpoint.read u.files p = .ok c := by
  have hentry := entry?_filed (t := t) (c := c) hfile
  refine ⟨t.filed p c, ?_, hentry, Checkpoint.read_of_entry ?_⟩
  · rw [perform_saveCheckpoint hp, hc]
  · rwa [tidy_destination hp]

/-! ## Loading -/

/-- Loading a checkpoint that can be read: it is refused before anything has
changed, or it is taken up. -/
theorem perform_loadCheckpoint (h : Checkpoint.read t.files q = .ok c) :
    (loadCheckpoint q).perform t =
      if c.fits t.engine.graph then (.ok (), t.restore c)
      else (.error (.foreignCheckpoint q), t) := by
  rw [loadCheckpoint, Attempt.perform_get_bind, h, Attempt.lift, pure_bind]
  cases c.fits t.engine.graph with
  | true => rfl
  | false => rfl

/-- What happens when a checkpoint of another trainer is loaded. -/
theorem load_checkpoint (hc : a.checkpoint = .ok c)
    (hread : Checkpoint.read b.files q = .ok c) :
    (a.engine.graph.ids ≠ b.engine.graph.ids ∧
        (loadCheckpoint q).perform b = (.error (.foreignCheckpoint q), b)) ∨
      (a.engine.graph.ids = b.engine.graph.ids ∧
        (loadCheckpoint q).perform b = (.ok (), b.restore c)) := by
  have hfits : c.fits b.engine.graph = true ↔
      a.engine.graph.ids = b.engine.graph.ids :=
    Checkpoint.fits_iff (Factors.ids_ofVertices (checkpoint_ok hc).1)
  rw [perform_loadCheckpoint hread]
  cases h : c.fits b.engine.graph with
  | true => exact .inr ⟨hfits.mp h, rfl⟩
  | false =>
      refine .inl ⟨fun hids => ?_, rfl⟩
      rw [hfits.mpr hids] at h
      cases h

private theorem vertices_restore (hc : a.checkpoint = .ok c) :
    (b.restore c).engine.vertices = a.engine.vertices := by
  change c.factors.vertices.toArray = _
  rw [Factors.vertices_ofVertices (checkpoint_ok hc).1]

/-- A checkpoint saved by any trainer, loaded by any other.  Either the vertices
are not those of the other's graph: then loading fails and leaves everything as
it was.  Or the saved vertices are taken up as they are.  Their width is not
compared: afterwards all vectors have the width of the graph exactly if the
saved ones had it. -/
theorem shaped_loadCheckpoint {a' : Trainer α}
    (hsave : (saveCheckpoint path).perform a = (.ok p, a'))
    (hfile : Path.parts p ≠ [])
    (hentry : b.files.entry? (Path.tidy q) = a'.files.entry? p) :
    ∃ width : Nat, (∀ v ∈ a.engine.vertices, v.latent.length = width) ∧
      ((a.engine.graph.ids ≠ b.engine.graph.ids ∧
          (loadCheckpoint q).perform b = (.error (.foreignCheckpoint q), b)) ∨
        (a.engine.graph.ids = b.engine.graph.ids ∧
          ∃ b', (loadCheckpoint q).perform b = (.ok (), b') ∧
            b'.engine.vertices = a.engine.vertices ∧
            b'.engine.graph = b.engine.graph ∧
            (b'.Shaped ↔ a.engine.vertices = #[] ∨
              (width : Int) = b.engine.graph.dimension))) := by
  obtain ⟨-, c, hc, rfl⟩ := saveCheckpoint_ok hsave
  have hwidth := (Factors.ofVertices_ok (checkpoint_ok hc).1).2
  refine ⟨c.factors.width, hwidth, ?_⟩
  rw [entry?_filed hfile] at hentry
  refine (load_checkpoint hc (Checkpoint.read_of_entry hentry)).imp_right ?_
  rintro ⟨hids, hload⟩
  have hvertices := vertices_restore (b := b) hc
  refine ⟨hids, _, hload, hvertices, rfl, ?_⟩
  rw [Shaped, hvertices]
  change (∀ v ∈ a.engine.vertices, (v.latent.length : Int) =
    b.engine.graph.dimension) ↔ _
  constructor
  · intro hshaped
    -- The saved width is only seen on a vertex: without any, every width is
    -- right.
    rcases Nat.eq_zero_or_pos a.engine.vertices.size with hnone | hsome
    · exact .inl (Array.eq_empty_of_size_eq_zero hnone)
    · have hfirst := Array.getElem_mem hsome
      rw [← hwidth _ hfirst]
      exact .inr (hshaped _ hfirst)
  · rintro (hnone | hsame) v hv
    · rw [hnone] at hv
      exact absurd hv (Array.not_mem_empty v)
    · rw [hwidth v hv, hsame]

section Samples

/-- A trainer for the sample, with vectors of a given width and with a tree of
files, before its first run. -/
def sampleTrainer (dimension : Int) (vertices : Array (Vertex Int))
    (files : Files (Artifact Int)) : Trainer Int where
  session :=
    { engine := Engine.make .synchronous { sampleGraph with dimension } vertices
        { sampleSettings with dimension } none fun _ => 1
      aggregators := [Monitor.watching monitorName (some 0) 0
        ⟨1, true, 0, []⟩]
      limit := none
      seed := none
      sinceDue := 0 }
  predictions := none
  moved := false
  checkpointFolder := none
  trainEdges := 0
  files := files

private theorem make_sampleTrainer (dimension : Int)
    (vertices : Array (Vertex Int)) (files : Files (Artifact Int)) :
    make { sampleGraph with dimension } vertices
      { sampleSettings with dimension }
      {} (fun _ => 1) files = .ok (sampleTrainer dimension vertices files) :=
  rfl

/-- Vertices of the sample with vectors of width one. -/
def narrowVertices : Array (Vertex Int) :=
  #[⟨[1], 0, 0⟩, ⟨[2], 0, 0⟩, ⟨[3], 0, 0⟩, ⟨[4], 0, 0⟩, ⟨[5], 0, 0⟩]

/-- The path of the checkpoints of this module. -/
def modelPath : String :=
  Path.tidy "model.pt"

private theorem destination_modelPath (t : Trainer Int) :
    t.destination (some "model.pt") = some modelPath :=
  rfl

private theorem parts_modelPath : Path.parts modelPath ≠ [] := by
  decide +kernel

/-- Vertices of the width of the graph come back with that width. -/
theorem shaped_loadCheckpoint_sample :
    ∃ a' b', (saveCheckpoint (some "model.pt")).perform
        (sampleTrainer 2 sampleVertices .none) = (.ok modelPath, a') ∧
      (loadCheckpoint modelPath).perform
        (sampleTrainer 2 sampleVertices.reverse a'.files) = (.ok (), b') ∧
      b'.engine.vertices = sampleVertices ∧ b'.Shaped := by
  have hall : ∀ v ∈ sampleVertices, v.latent.length = 2 := by decide
  obtain ⟨f, hf, -⟩ :=
    Evaluation.exists_factors sampleGraph (fun _ => by decide) hall
  obtain ⟨a', hsave, -, -⟩ := exists_saved
    (t := sampleTrainer 2 sampleVertices .none) (checkpoint_of_factors hf)
    (destination_modelPath _) parts_modelPath
  obtain ⟨width, hwidth,
      ⟨hdiffer, -⟩ | ⟨-, b', hload, hvertices, -, hshaped⟩⟩ :=
    shaped_loadCheckpoint (b := sampleTrainer 2 sampleVertices.reverse a'.files)
      hsave parts_modelPath (congrArg a'.files.entry? (Path.tidy_tidy _))
  · exact absurd rfl hdiffer
  · refine ⟨a', b', hsave, hload, hvertices, hshaped.mpr (.inr ?_)⟩
    have hfirst : (⟨[1, 0], 0, 0⟩ : Vertex Int) ∈ sampleVertices := by
      simp [sampleVertices]
    rw [← hwidth _ hfirst]
    rfl

/-- Loading a narrower model over the same vertices goes through, and leaves
vectors that are too short for the graph. -/
theorem shaped_loadCheckpoint_fail :
    ∃ a a' b b' : Trainer Int,
      a.Alive { sampleGraph with dimension := 1 } ∧ a.Shaped ∧
      b.Alive sampleGraph ∧ b.Shaped ∧
      (saveCheckpoint (some "model.pt")).perform a = (.ok modelPath, a') ∧
      b.files = a'.files ∧
      (loadCheckpoint modelPath).perform b = (.ok (), b') ∧ ¬ b'.Shaped := by
  have hall : ∀ v ∈ narrowVertices, v.latent.length = 1 := by decide
  obtain ⟨f, hf, -⟩ := Evaluation.exists_factors
    { sampleGraph with dimension := 1 } (fun _ => by decide) hall
  have hc :=
    checkpoint_of_factors (t := sampleTrainer 1 narrowVertices .none) hf
  obtain ⟨a', hsave, hentry, hread⟩ :=
    exists_saved hc (destination_modelPath _) parts_modelPath
  have hvertices := vertices_restore
    (b := sampleTrainer 2 sampleVertices a'.files) hc
  rcases load_checkpoint (b := sampleTrainer 2 sampleVertices a'.files) hc hread
    with ⟨hdiffer, -⟩ | ⟨-, hload⟩
  · exact absurd rfl hdiffer
  · refine ⟨_, a', _, _, .made (make_sampleTrainer 1 narrowVertices .none),
      by unfold Shaped; decide,
      .made (make_sampleTrainer 2 sampleVertices a'.files),
      ?_, hsave, rfl, hload, ?_⟩
    · change ∀ v ∈ sampleVertices, (v.latent.length : Int) = 2
      decide
    · intro hshaped
      have hfirst : (⟨[1], 0, 0⟩ : Vertex Int) ∈ narrowVertices := by
        simp [narrowVertices]
      have hlength := hshaped ⟨[1], 0, 0⟩ (by rwa [hvertices])
      exact absurd hlength (show ¬ (1 : Int) = 2 by decide)

end Samples

/-! ## What a checkpoint carries over -/

section TakesUp

variable [Scalar α]

/-- A trainer takes up what another has learned: the vertices, the learning
rate, the mean and the reports.  Everything else stays: the graph, what waits in
the inboxes and in the queue and the other parts of the engine; the other
settings; the calls of the monitor; the session; the options and the files. -/
structure TakesUp (a before after : Trainer α) : Prop where
  vertices : after.engine.vertices = a.engine.vertices
  rate : after.engine.settings.rate = a.engine.settings.rate
  globalMean : after.engine.settings.globalMean = a.engine.settings.globalMean
  history : after.monitor.history = a.monitor.history
  engine : { after.engine with
    vertices := before.engine.vertices
    settings := before.engine.settings } = before.engine
  settings : { after.engine.settings with
    rate := before.engine.settings.rate
    globalMean := before.engine.settings.globalMean } = before.engine.settings
  monitor : { after.monitor with history := before.monitor.history } =
    before.monitor
  aggregators : ∃ interval lastRun,
    before.session.aggregators =
        [Monitor.watching monitorName interval lastRun before.monitor] ∧
      after.session.aggregators =
        [Monitor.watching monitorName interval lastRun after.monitor]
  session : { after.session with
    engine := before.engine
    aggregators := before.session.aggregators } = before.session
  trainer : { after with session := before.session } = before

private theorem takesUp_restore (hc : a.checkpoint = .ok c) (hb : b.Monitored) :
    TakesUp a b (b.restore c) := by
  obtain ⟨interval, lastRun, m, hbefore⟩ := hb
  have hafter : (b.restore c).session.aggregators =
      [Monitor.watching monitorName interval lastRun
        { m with history := c.history }] := by
    rw [restore]
    dsimp only
    rw [hbefore]
    rfl
  have hm := monitor_of_single hbefore
  have hm' := monitor_of_single hafter
  have hlearned := (checkpoint_ok hc).2
  exact {
    vertices := vertices_restore hc
    rate := congrArg Checkpoint.rate hlearned
    globalMean := congrArg Checkpoint.globalMean hlearned
    history := (congrArg Monitor.history hm').trans
      (congrArg Checkpoint.history hlearned)
    engine := rfl
    settings := rfl
    monitor := by rw [hm', hm]
    aggregators := ⟨interval, lastRun, hm ▸ hbefore, hm' ▸ hafter⟩
    session := rfl
    trainer := rfl }

/-- Who has taken up what another has learned, saves the same checkpoint. -/
theorem TakesUp.checkpoint {b' : Trainer α} (h : TakesUp a b b')
    (hids : a.engine.graph.ids = b.engine.graph.ids)
    (hsome : a.engine.vertices ≠ #[]) : b'.checkpoint = a.checkpoint := by
  have hgraph : b'.engine.graph = b.engine.graph :=
    (congrArg Engine.graph h.engine :)
  rw [Trainer.checkpoint, Trainer.checkpoint, h.vertices, h.rate, h.globalMean,
    h.history, hgraph, Factors.ofVertices_of_ids hids.symm hsome]

private theorem TakesUp.destination {b' : Trainer α} (h : TakesUp a b b') :
    b'.destination path = b.destination path := by
  have hfolder : b'.checkpointFolder = b.checkpointFolder :=
    (congrArg Trainer.checkpointFolder h.trainer :)
  cases path with
  | some path => rfl
  | none => exact congrArg (Option.map _) hfolder

/-- The round trip.  The first trainer can be in any state in which its vectors
agree in length; it saves a checkpoint `c`.  The second can be in any state,
too, and has what was saved at a path of its own tree.  Over the same
identifiers it takes up everything that had been learned and nothing else, and
whatever it saves then holds the same checkpoint.  If the identifiers differ, it
refuses, and nothing has changed. -/
theorem load_saved {width : Nat} (hsome : a.engine.vertices ≠ #[])
    (hwidth : ∀ v ∈ a.engine.vertices, v.latent.length = width)
    (hp : a.destination path = some p) (hfile : Path.parts p ≠ []) :
    ∃ c a', (saveCheckpoint path).perform a = (.ok p, a') ∧
      Checkpoint.read a'.files p = .ok c ∧
      ∀ (b : Trainer α) (q : String), b.Monitored →
        b.files.entry? (Path.tidy q) = a'.files.entry? p →
        (a.engine.graph.ids = b.engine.graph.ids →
          ∃ b', (loadCheckpoint q).perform b = (.ok (), b') ∧ TakesUp a b b' ∧
            ∀ path p, b.destination path = some p → Path.parts p ≠ [] →
              ∃ b'', (saveCheckpoint path).perform b' = (.ok p, b'') ∧
                Checkpoint.read b''.files p = .ok c) ∧
        (a.engine.graph.ids ≠ b.engine.graph.ids →
          (loadCheckpoint q).perform b =
            (.error (.foreignCheckpoint q), b)) := by
  obtain ⟨f, hf, -⟩ := Evaluation.exists_factors a.engine.graph
    (fun hnone => absurd hnone hsome) hwidth
  have hc := checkpoint_of_factors hf
  obtain ⟨a', hsave, hentry, hread⟩ := exists_saved hc hp hfile
  refine ⟨_, a', hsave, hread, ?_⟩
  intro b q hb hcopy
  rw [hentry] at hcopy
  rcases load_checkpoint hc (Checkpoint.read_of_entry hcopy) with
    ⟨hdiffer, hload⟩ | ⟨hids, hload⟩
  · exact ⟨fun hids => absurd hids hdiffer, fun _ => hload⟩
  · have htakes := takesUp_restore hc hb
    refine ⟨fun _ => ⟨_, hload, htakes, ?_⟩, fun hdiffer => absurd hids hdiffer⟩
    intro path p hp hfile
    obtain ⟨b'', hsave, -, hread⟩ := exists_saved
      ((htakes.checkpoint hids hsome).trans hc) (htakes.destination.trans hp)
      hfile
    exact ⟨b'', hsave, hread⟩

/-- The sample saves its vertices, and another trainer over the same graph,
whose vertices have other numbers, takes them up and saves them again. -/
theorem load_saved_sample :
    ∃ c a' b' b'', (saveCheckpoint (some "model.pt")).perform
        (sampleTrainer 2 sampleVertices .none) = (.ok modelPath, a') ∧
      Checkpoint.read a'.files modelPath = .ok c ∧
      (loadCheckpoint modelPath).perform
        (sampleTrainer 2 sampleVertices.reverse a'.files) = (.ok (), b') ∧
      TakesUp (sampleTrainer 2 sampleVertices .none)
        (sampleTrainer 2 sampleVertices.reverse a'.files) b' ∧
      (saveCheckpoint (some "model.pt")).perform b' = (.ok modelPath, b'') ∧
      Checkpoint.read b''.files modelPath = .ok c := by
  have hall : ∀ v ∈ sampleVertices, v.latent.length = 2 := by decide
  obtain ⟨c, a', hsave, hread, hload⟩ := load_saved
    (a := sampleTrainer 2 sampleVertices .none) (by decide) hall
    (destination_modelPath _) parts_modelPath
  obtain ⟨b', hload, htakes, hagain⟩ :=
    (hload (sampleTrainer 2 sampleVertices.reverse a'.files) modelPath
      ⟨_, _, _, rfl⟩ (congrArg a'.files.entry? (Path.tidy_tidy _))).1 rfl
  obtain ⟨b'', hsaved, hsame⟩ :=
    hagain (some "model.pt") modelPath (destination_modelPath _) parts_modelPath
  exact ⟨c, a', b', b'', hsave, hread, hload, htakes, hsaved, hsame⟩

end TakesUp

end Trainer

end RatingFactors
