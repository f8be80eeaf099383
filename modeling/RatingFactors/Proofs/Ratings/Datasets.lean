import RatingFactors.Proofs.Graph.Rows
import RatingFactors.Proofs.Ratings.EdgeFiles
import RatingFactors.Proofs.Ratings.Kept
import RatingFactors.Proofs.Ratings.RatingsFile
import RatingFactors.Ratings.Dataset

/-!
# Loading a dataset and building its graph

Work on a dataset prints, and nothing else that is printed matters: two
datasets are the same here when they differ in what they have printed only.

## Main results

* `source_edgeFiles_leads`, `source_ratingsFile_leads` — the source that a
  dataset asks for.
* `load_leads` — loading leaves the rows that are kept, the last of each key.
* `buildGraph_leads` — the graph that is built is that of these rows.
-/

namespace RatingFactors

open RatingFactors.Configuration (Value)
open Ratings Attempt

namespace Configuration

/-! ## Values of names -/

variable {c : Configuration} {name other : String} {value : Value}

theorem get?_put_self : (c.put name value).get? name = some value := by
  have hmap : ∀ entries : List (String × Value),
      entries.any (·.1 == name) = true →
      (entries.map fun entry =>
        if entry.1 == name then (name, value) else entry).find?
        (·.1 == name) = some (name, value) := by
    intro entries hany
    induction entries with
    | nil => cases hany
    | cons entry entries ih =>
        rw [List.map_cons, List.find?_cons]
        by_cases hname : entry.1 = name
        · simp [hname]
        · rw [List.any_cons, beq_eq_false_iff_ne.mpr hname,
            Bool.false_or] at hany
          simp only [beq_eq_false_iff_ne.mpr hname, Bool.false_eq_true,
            if_false]
          exact ih hany
  rw [get?, put, putEntry]
  split
  · next hany => rw [hmap _ hany, Option.map_some]
  · next hnone =>
    have hnot : c.entries.find? (·.1 == name) = none := by
      rw [List.find?_eq_none]
      exact fun entry hmem hname =>
        hnone (List.any_eq_true.mpr ⟨entry, hmem, hname⟩)
    simp [List.find?_append, hnot]

theorem get?_put_ne (h : other ≠ name) :
    (c.put name value).get? other = c.get? other := by
  have hmap : ∀ entries : List (String × Value),
      (entries.map fun entry =>
        if entry.1 == name then (name, value) else entry).find?
        (·.1 == other) = entries.find? (·.1 == other) := by
    intro entries
    induction entries with
    | nil => rfl
    | cons entry entries ih =>
        rw [List.map_cons, List.find?_cons, List.find?_cons, ih]
        by_cases hname : entry.1 = name
        · simp only [hname, beq_self_eq_true, if_true,
            beq_eq_false_iff_ne.mpr h.symm]
        · rw [beq_eq_false_iff_ne.mpr hname, if_neg Bool.false_ne_true]
  rw [get?, put, putEntry, get?]
  split
  · rw [hmap]
  · rw [List.find?_append]
    simp [h.symm]

theorem get_put_ne (h : other ≠ name) (otherwise : Value) :
    (c.put name value).get other otherwise = c.get other otherwise := by
  rw [get, get?_put_ne h, get]

/-- What a configuration asks of the vertices before any learning. -/
structure Asks (c : Configuration) (dimension : Int) (debug : Bool)
    (seed : Option Int) : Prop where
  dimension : (c.get "latent_dim" (.whole 20)).toWhole = .ok dimension
  debug : (c.get "debug" (.flag false)).isTrue = debug
  seed : (c.find "seed").toWhole? = .ok seed

end Configuration

namespace Dataset

/-! ## Datasets, whatever they have printed -/

/-- The dataset, whatever has been printed about it. -/
def Apart (d : Dataset) (state : Dataset) : Prop :=
  ∃ printed, state = { d with printed := printed }

theorem apart_self (d : Dataset) : Apart d d :=
  ⟨d.printed, rfl⟩

private theorem print_leads {β : Type} {work : Telling β} {result : β}
    (h : work.Gives result) (d : Dataset) :
    Leads (Apart d) (print work) result (Apart d) := by
  refine within_leads h ?_
  rintro lines _ ⟨printed, rfl⟩
  exact ⟨printed ++ lines, rfl⟩

/-! ## Notes -/

/-- The dataset with a note that its columns are moved. -/
def noted (d : Dataset) : Dataset :=
  { d with
    moved := true,
    configuration := d.configuration.put "remap_target" (.flag true) }

theorem get_noted {name : String} (h : name ≠ "remap_target") (d : Dataset)
    (otherwise : Value) :
    d.noted.configuration.get name otherwise =
      d.configuration.get name otherwise :=
  Configuration.get_put_ne h otherwise

/-! ## Sources -/

section Sources

variable {d : Dataset} {name : String}

/-- A dataset of edge files loads them as its configuration says. -/
theorem source_edgeFiles_leads (hkind : d.kind = .text name)
    (hname : name = "edgelist" ∨ name = "edge_list") :
    Leads (Apart d) source ⟨.edgeFiles, [("remap_target", .flag d.moved),
      ("strict", .flag (d.configuration.get "strict" (.flag false)).isTrue)]⟩
        (Apart d) := by
  have hother : namesRatingsFile (.text name) = false := by
    rcases hname with rfl | rfl
    · rfl
    · rfl
  refine leads_get_bind ?_
  rintro _ ⟨printed, rfl⟩
  simp only [hkind, hother]
  exact leads_lift (make_edgeFiles hname _ _)

/-- A dataset of a ratings file always has moved columns, and notes it. -/
theorem source_ratingsFile_leads {shares : Shares} {seed : Option Int}
    (hkind : d.kind = .text name)
    (hname : name = "movie_lens" ∨ name = "movielens")
    (hvalidation : (d.configuration.get "valid_ratio" (.real 0.1)).toReal =
      .ok shares.validation)
    (hprediction : (d.configuration.get "predict_ratio" (.real 0.0)).toReal =
      .ok shares.prediction)
    (hseed : (d.configuration.find "seed").toWhole? = .ok seed)
    (hshares : Shares.ofValues (.real shares.validation)
        (.real shares.prediction) = .ok shares) :
    Leads (Apart d) source ⟨.ratingsFile, [("remap_target", .flag true),
        ("valid_ratio", .real shares.validation),
        ("predict_ratio", .real shares.prediction),
        ("seed", .whole (seed.getD 42))]⟩ (Apart d.noted) := by
  have hthis : namesRatingsFile (.text name) = true := by
    rcases hname with rfl | rfl
    · rfl
    · rfl
  have hnoted : ∀ state, Apart d state → Apart d.noted { state with
      moved := true
      configuration :=
        state.configuration.put "remap_target" (.flag true) } := by
    rintro _ ⟨printed, rfl⟩
    exact ⟨printed, rfl⟩
  refine leads_get_bind ?_
  rintro _ ⟨printed, rfl⟩
  simp only [hkind, hthis, if_true]
  refine (leads_modify hnoted).bind (leads_get_bind ?_)
  rintro _ ⟨printed', rfl⟩
  rw [← get_noted (by decide)] at hvalidation hprediction
  rw [Configuration.find, ← get_noted (by decide),
    ← Configuration.find] at hseed
  exact (leads_lift hvalidation).bind ((leads_lift hprediction).bind
    ((leads_lift hseed).bind
      (leads_lift (make_ratingsFile hname true hshares))))

end Sources

/-! ## Loading -/

variable {κ : Type} {files : Files κ} {d loaded : Dataset} {s : Source}
  {table : Loaded}

theorem withoutRepeats_gives (rows : List (Rating Float)) :
    (withoutRepeats .last rows).Gives (lasts rows) :=
  fun printed => ⟨_, perform_withoutRepeats .last rows printed⟩

/-- The dataset with loaded rows. -/
def holding (d : Dataset) (rows : List (Rating Float)) : Dataset :=
  { d with rows := some rows, summary := some (summaryOf rows) }

/-- Loading leaves the last row of each key. -/
theorem load_leads (hsource : Leads (Apart d) source s (Apart loaded))
    (hload : (s.load files d.path).Gives table) (hrows : table.rows ≠ []) :
    Leads (Apart d) (load files) ()
      (Apart (loaded.holding (lasts table.rows))) := by
  have hfull : table.rows.isEmpty = false := by simpa using hrows
  refine leads_get_bind ?_
  rintro _ ⟨printed, rfl⟩
  refine (print_leads (gives_tell _) d).bind (hsource.bind
    ((print_leads hload loaded).bind ?_))
  simp only [hfull]
  refine (print_leads (withoutRepeats_gives table.rows) loaded).bind
    ((leads_modify ?_).bind (print_leads (gives_tell _) _))
  rintro _ ⟨printed, rfl⟩
  exact ⟨printed, rfl⟩

/-- The graph that is built is that of the kept rows, if these have no
identifier in common and known roles only. -/
theorem buildGraph_leads {dimension : Int} {debug : Bool} {seed : Option Int}
    {start : Array (Vertex Float)} (hnone : d.rows = none)
    (hsource : Leads (Apart d) source s (Apart loaded))
    (hload : (s.load files d.path).Gives table) (hrows : table.rows ≠ [])
    (hasks : loaded.configuration.Asks dimension debug seed)
    (hsides : ∀ q ∈ table.rows, ∀ r ∈ table.rows, q.source ≠ r.target)
    (hroles : ∀ r ∈ table.rows, r.role.isKnown = true)
    (hstart : (Graph.graphOf (lasts table.rows) dimension).startingVertices
        debug seed = .ok start) :
    Leads (Apart d) (buildGraph files)
      (Graph.graphOf (lasts table.rows) dimension, start)
      (Apart (loaded.holding (lasts table.rows))) := by
  have hgraph := Graph.ofRatings_gives
    (fun q hq r hr => hsides q (mem_of_mem_lasts hq) r (mem_of_mem_lasts hr))
    (fun r hr => hroles r (mem_of_mem_lasts hr)) hstart
  refine leads_get_bind ?_
  rintro _ ⟨printed, rfl⟩
  simp only [hnone]
  refine (load_leads hsource hload hrows).bind (leads_get_bind ?_)
  rintro _ ⟨printed', rfl⟩
  rw [← hasks.debug] at hgraph
  exact (leads_lift hasks.dimension).bind
    ((leads_lift hasks.seed).bind (print_leads hgraph _))

end Dataset

end RatingFactors
