import RatingFactors.CommandLine.Prepare
import RatingFactors.Proofs.Ratings.Datasets

/-!
# Two routes to one graph

A ratings file can be learned from directly, or it can be prepared as a folder
of edge files first.  The direct route moves the columns, then removes repeated
rows; the other one removes them, writes files by role, reads these, moves the
columns and removes repeated rows once more.  Both end at the same vertices and,
role by role, at the same edges.

## Main results

* `prepare_leads` — what the preparing command leaves in the folder.
* `routes_agree` — both routes succeed and lead to the same learning problem.
-/

namespace RatingFactors

open RatingFactors.Configuration (Value)
open Ratings Attempt CommandLine

namespace Ratings

/-! ## Rows by role -/

theorem ofRole_append (role : Role) (rows others : List (Rating Float)) :
    ofRole role (rows ++ others) = ofRole role rows ++ ofRole role others :=
  List.filter_append ..

private theorem ofRole_ofRole (role other : Role) (rows : List (Rating Float)) :
    ofRole role (ofRole other rows) =
      if other = role then ofRole role rows else [] := by
  rw [ofRole, ofRole, List.filter_filter]
  split
  · next heq => simp [heq, ofRole]
  · next hne =>
    rw [List.filter_eq_nil_iff]
    intro r _ hboth
    simp only [Bool.and_eq_true, beq_iff_eq] at hboth
    exact hne (hboth.2.symm.trans hboth.1)

/-- The rows of one role keep their order when a table is ordered by role. -/
theorem ofRole_byRole {rows : List (Rating Float)}
    (hroles : ∀ r ∈ rows, r.role.isKnown = true) (role : Role) :
    ofRole role (byRole rows) = ofRole role rows := by
  rw [byRole, ofRole_append, ofRole_append, ofRole_ofRole, ofRole_ofRole,
    ofRole_ofRole]
  cases role with
  | train => simp
  | validate => simp
  | predict => simp
  | other label =>
      have hnone : ofRole (.other label) rows = [] := by
        rw [ofRole, List.filter_eq_nil_iff]
        intro r hr hrole
        have hknown := hroles r hr
        rw [beq_iff_eq.mp hrole] at hknown
        cases hknown
      simp [hnone]

/-- Ordering a table by role only reorders it. -/
theorem byRole_perm {rows : List (Rating Float)}
    (hroles : ∀ r ∈ rows, r.role.isKnown = true) : (byRole rows).Perm rows := by
  induction rows with
  | nil => exact List.Perm.nil
  | cons r rows ih =>
      have hrest := ih fun q hq => hroles q (by simp [hq])
      have hcons : ∀ role, ofRole role (r :: rows) =
          if r.role = role then r :: ofRole role rows
          else ofRole role rows := by
        intro role
        rw [ofRole, List.filter_cons]
        simp only [beq_iff_eq, ofRole]
      refine List.Perm.trans ?_ (hrest.cons r)
      rw [byRole, byRole, hcons, hcons, hcons]
      cases hrole : r.role with
      | predict => simp
      | train => simp
      | validate =>
          simp only [reduceCtorEq, if_false, if_true]
          exact List.perm_middle
      | other label =>
          have hknown := hroles r (by simp)
          rw [hrole] at hknown
          cases hknown

private theorem byRole_ne_nil {rows : List (Rating Float)}
    (hroles : ∀ r ∈ rows, r.role.isKnown = true) (hne : rows ≠ []) :
    byRole rows ≠ [] := fun hnil =>
  hne (List.nil_perm.mp (hnil ▸ byRole_perm hroles))

private theorem noRepeats_byRole {rows : List (Rating Float)}
    (hroles : ∀ r ∈ rows, r.role.isKnown = true) (h : NoRepeats rows) :
    NoRepeats (byRole rows) :=
  ((byRole_perm hroles).map keyOf).nodup_iff.mpr h

/-- Removing repeated rows, ordering by role, moving the columns and removing
repeated rows again removes them once. -/
theorem lasts_moveColumns_byRole {rows : List (Rating Float)}
    (hroles : ∀ r ∈ rows, r.role.isKnown = true) :
    lasts (moveColumns (byRole (lasts rows))) =
      moveColumns (byRole (lasts rows)) := by
  have hkept : ∀ r ∈ lasts rows, r.role.isKnown = true :=
    fun r hr => hroles r (mem_of_mem_lasts hr)
  rw [lasts_moveColumns,
    lasts_eq_self (noRepeats_byRole hkept (nodup_lasts rows))]

private theorem ofRole_moveColumns (role : Role) (rows : List (Rating Float)) :
    ofRole role (moveColumns rows) = moveColumns (ofRole role rows) := by
  rw [ofRole, moveColumns, List.filter_map]
  rfl

/-! ## Tables for either route -/

/-- A table that edge files can keep and whose columns can be moved. -/
structure Learnable (rows : List (Rating Float)) : Prop where
  some : rows ≠ []
  writable : ∀ r ∈ rows, Writable r
  room : ∀ r ∈ rows, r.target.toInt ≤ 2 ^ 63 - 2

namespace Learnable

variable {rows others : List (Rating Float)}

theorem known (h : Learnable rows) : ∀ r ∈ rows, r.role.isKnown = true :=
  fun r hr => (h.writable r hr).role

private theorem known_moved (h : Learnable rows) :
    ∀ r ∈ moveColumns rows, r.role.isKnown = true := by
  intro r hr
  obtain ⟨q, hq, rfl⟩ := mem_moveColumns.mp hr
  exact h.known q hq

private theorem moved_ne_nil (h : Learnable rows) : moveColumns rows ≠ [] := by
  simpa [moveColumns] using h.some

/-- The moved columns have no identifier in common with the rows. -/
theorem source_ne_target (h : Learnable rows) :
    ∀ q ∈ moveColumns rows, ∀ r ∈ moveColumns rows, q.source ≠ r.target :=
  source_ne_target_of_moved (fun r hr => (h.writable r hr).source)
    fun r hr => ⟨(h.writable r hr).target, h.room r hr⟩

theorem of_subset (h : Learnable rows) (hne : others ≠ [])
    (hsub : ∀ r ∈ others, r ∈ rows) : Learnable others where
  some := hne
  writable r hr := h.writable r (hsub r hr)
  room r hr := h.room r (hsub r hr)

theorem lasts (h : Learnable rows) : Learnable (lasts rows) :=
  h.of_subset (lasts_ne_nil h.some) fun _ => mem_of_mem_lasts

theorem byRole (h : Learnable rows) : Learnable (byRole rows) :=
  h.of_subset (byRole_ne_nil h.known h.some)
    fun _ => (byRole_perm h.known).mem_iff.mp

/-- The order by role changes nothing about the vertices. -/
theorem idsOf_byRole (h : Learnable rows) :
    Graph.idsOf (moveColumns rows) =
      Graph.idsOf (moveColumns (Ratings.byRole rows)) := by
  refine Graph.idsOf_congr fun r => ?_
  simp only [mem_moveColumns, (byRole_perm h.known).mem_iff]

end Learnable

end Ratings

/-! ## The preparing command -/

namespace CommandLine

variable {κ : Type} {files : Files κ}

/-- The tree of files of a console, whatever it has printed. -/
def Console.Holds (files : Files κ) (c : Console κ) : Prop :=
  c.files = files

private theorem Console.say_leads (lines : List String) :
    Leads (Holds files) (say lines) ⟨⟩ (Holds files) :=
  leads_modify fun _ h => h

private theorem Console.telling_leads {β : Type} {work : Telling β} {result : β}
    (h : work.Gives result) :
    Leads (Holds files) (telling work) result (Holds files) :=
  within_leads h fun _ _ hfiles => hfiles

/-- The order to prepare a ratings file with given shares and a given seed. -/
def PrepareOrder.ofShares (ratings folder : String)
    (validation prediction : Value) (seed : Int) : PrepareOrder :=
  ofGiven ⟨[ratings, folder],
    [("valid_ratio", validation), ("predict_ratio", prediction),
      ("seed", .whole seed)]⟩

/-- The preparing command leaves edge files of the last row of each key. -/
theorem prepare_leads {ratings folder : String} {validation prediction : Value}
    {seed : Int} {shares : Shares} {rows : List (Rating Float)}
    (hshares : Shares.ofValues validation prediction = .ok shares)
    (hload : (loadRatings files false shares (some seed)
      (Path.tidy ratings)).Gives rows) :
    Leads (Console.Holds files)
      (PrepareOrder.ofShares ratings folder validation prediction seed).work ()
      (Console.Holds (writeEdges files folder "ratings"
        (lasts rows)).files) := by
  have hmake :=
    @make_ratingsFile validation prediction shares seed _ (.inr rfl) false
      hshares
  have hwriting : Leads (Console.Holds files)
      (modify fun c => { c with
        files := (writeEdges files folder "ratings" (lasts rows)).files }) ⟨⟩
      (Console.Holds (writeEdges files folder "ratings"
        (lasts rows)).files) :=
    leads_modify fun _ _ => rfl
  refine (Console.say_leads _).bind ((Console.say_leads _).bind
    ((leads_lift hmake).bind (leads_get_bind ?_)))
  intro c hfiles
  rw [show c.files = files from hfiles]
  refine (Console.telling_leads (load_ratingsFile false hshares hload)).bind
    ((Console.say_leads _).bind
      ((Console.telling_leads (Dataset.withoutRepeats_gives rows)).bind
        ((Console.say_leads _).bind (leads_get_bind ?_))))
  intro c hfiles
  rw [show c.files = files from hfiles]
  exact hwriting.bind ((Console.say_leads _).bind
    ((Console.say_leads _).bind (Console.say_leads _)))

end CommandLine

/-! ## Both routes -/

namespace Dataset

/-- A configuration that learns from a ratings file directly. -/
structure Direct (c : Configuration) (shares : Shares) : Prop where
  loader : c.get "loader" (.text "edgelist") = .text "movie_lens" ∨
    c.get "loader" (.text "edgelist") = .text "movielens"
  validation : (c.get "valid_ratio" (.real 0.1)).toReal = .ok shares.validation
  prediction : (c.get "predict_ratio" (.real 0.0)).toReal =
    .ok shares.prediction

/-- A configuration that learns from edge files and moves their columns. -/
structure Prepared (c : Configuration) : Prop where
  loader : c.get "loader" (.text "edgelist") = .text "edgelist" ∨
    c.get "loader" (.text "edgelist") = .text "edge_list"
  moved : (c.get "remap_target" (.flag false)).isTrue = true

/-- Ratings that edge files can keep: there are some, their identifiers leave
room for moved columns, and their values are finite. -/
structure Ratable (sources targets : List Int64) (values : List Float) :
    Prop where
  some : sources ≠ []
  source : ∀ id ∈ sources, 0 ≤ id.toInt
  target : ∀ id ∈ targets, 0 ≤ id.toInt ∧ id.toInt ≤ 2 ^ 63 - 2
  value : ∀ x ∈ values, x.isFinite = true

section Routes

variable {κ : Type} {files : Files κ} {path : String} {c : Configuration}
  {rows : List (Rating Float)} {dimension seed : Int} {debug : Bool}
  {start : Array (Vertex Float)}

/-- The graph that is built from a ratings file directly. -/
theorem direct_leads {shares : Shares} (hdirect : Direct c shares)
    (hasks : c.Asks dimension debug (some seed))
    (hshares : Shares.ofValues (.real shares.validation)
        (.real shares.prediction) = .ok shares)
    (hload : (loadRatings files true shares (some seed) (Path.tidy path)).Gives
      (moveColumns rows)) (hrows : Learnable rows)
    (hstart : (Graph.graphOf (moveColumns (lasts rows))
      dimension).startingVertices debug (some seed) = .ok start) :
    Leads (Apart (make path c)) (buildGraph files)
      (Graph.graphOf (moveColumns (lasts rows)) dimension, start)
      (Apart ((make path c).noted.holding (moveColumns (lasts rows)))) := by
  obtain ⟨name, hkind, hname⟩ : ∃ name, (make path c).kind = .text name ∧
      (name = "movie_lens" ∨ name = "movielens") := by
    rcases hdirect.loader with h | h
    · exact ⟨_, h, .inl rfl⟩
    · exact ⟨_, h, .inr rfl⟩
  have hnoted : (make path c).noted.configuration.Asks dimension debug
      (some seed) :=
    { dimension := by rw [get_noted (by decide)]; exact hasks.dimension
      debug := by rw [get_noted (by decide)]; exact hasks.debug
      seed := by
        rw [Configuration.find, get_noted (by decide), ← Configuration.find]
        exact hasks.seed }
  rw [← Path.tidy_tidy] at hload
  have htable := load_ratingsFile true hshares hload
  rw [← lasts_moveColumns] at hstart ⊢
  exact buildGraph_leads rfl
    (source_ratingsFile_leads hkind hname hdirect.validation
      hdirect.prediction hasks.seed hshares) htable hrows.moved_ne_nil hnoted
    hrows.source_ne_target hrows.known_moved hstart

/-- The graph that is built from edge files whose columns are moved. -/
theorem prepared_leads (hprepared : Prepared c)
    (hasks : c.Asks dimension debug (some seed))
    (hload : ∀ strict, (loadEdges files true strict (Path.tidy path)).Gives
      ⟨moveColumns rows, 0⟩) (hrows : Learnable rows)
    (hnorepeats : lasts (moveColumns rows) = moveColumns rows)
    (hstart : (Graph.graphOf (moveColumns rows) dimension).startingVertices
        debug (some seed) = .ok start) :
    Leads (Apart (make path c)) (buildGraph files)
      (Graph.graphOf (moveColumns rows) dimension, start)
      (Apart ((make path c).holding (moveColumns rows))) := by
  obtain ⟨name, hkind, hname⟩ : ∃ name, (make path c).kind = .text name ∧
      (name = "edgelist" ∨ name = "edge_list") := by
    rcases hprepared.loader with h | h
    · exact ⟨_, h, .inl rfl⟩
    · exact ⟨_, h, .inr rfl⟩
  have hmoved : (make path c).moved = true := hprepared.moved
  have hsource := source_edgeFiles_leads hkind hname
  rw [hmoved] at hsource
  have htable :=
    hload ((make path c).configuration.get "strict" (.flag false)).isTrue
  rw [← Path.tidy_tidy] at htable
  have hleads := buildGraph_leads rfl hsource htable hrows.moved_ne_nil hasks
    hrows.source_ne_target hrows.known_moved (by rw [hnorepeats]; exact hstart)
  rwa [hnorepeats] at hleads

end Routes

section Both

variable {κ : Type} {files : Files κ} {ratings folder : String}
  {sources targets : List Int64} {values : List Float}
  {validation prediction : Value} {shares : Shares} {seed dimension : Int}
  {debug : Bool} {direct prepared : Configuration}

/-- Such ratings are a table for either route, whatever they are used for. -/
theorem Ratable.learnable (hratable : Ratable sources targets values)
    {roles : List Role} (hcount : sources.length = roles.length)
    (hcountTargets : targets.length = roles.length)
    (hcountValues : values.length = roles.length)
    (hroles : ∀ role ∈ roles, role.isKnown = true) :
    Learnable (rowsOf sources targets values roles) where
  some := by
    rw [← List.length_pos_iff, length_rowsOf hcount hcountTargets hcountValues]
    exact List.length_pos_iff.mpr hratable.some
  writable r hr := by
    obtain ⟨hsource, htarget, hvalue, hrole⟩ := mem_rowsOf hr
    exact ⟨hratable.source _ hsource, (hratable.target _ htarget).1,
      hratable.value _ hvalue, hroles _ hrole⟩
  room r hr := (hratable.target _ (mem_rowsOf hr).2.1).2

/-- Learning from a ratings file directly, and preparing edge files from it and
learning from these with moved columns, lead to one problem: both succeed, no
line of the edge files is skipped, and there are the same identifiers with the
same vertices before any learning and the same edges of each role in the same
order. -/
theorem routes_agree
    (hholds : HoldsRatings files (Path.tidy ratings) sources targets values)
    (hratable : Ratable sources targets values)
    (hshares : Shares.ofValues validation prediction = .ok shares)
    (hseed : 0 ≤ seed ∧ seed < 2 ^ 32) (hdimension : 0 ≤ dimension)
    (hdirect : Direct direct shares)
    (hdirectAsks : direct.Asks dimension debug (some seed))
    (hprepared : Prepared prepared)
    (hpreparedAsks : prepared.Asks dimension debug (some seed))
    (hfolder : files.exists? (Path.tidy folder) = true →
      files.isFolder (Path.tidy folder) = true)
    (hempty : files.filesIn (Path.tidy folder) = []) :
    ∃ g h start c rows d e,
      (buildGraph files).perform (make ratings direct) = (.ok (g, start), d) ∧
      (PrepareOrder.ofShares ratings folder validation prediction
        seed).work.perform ⟨files, []⟩ = (.ok (), c) ∧
      (buildGraph c.files).perform (make folder prepared) =
        (.ok (h, start), e) ∧
      (∀ strict,
        (loadEdges c.files true strict (Path.tidy folder)).Gives ⟨rows, 0⟩) ∧
      g.ids = h.ids ∧
      ∀ role, g.edges.toList.filter (·.role == role) =
        h.edges.toList.filter (·.role == role) := by
  obtain ⟨source, hsource⟩ := Twister.exists_seeded hseed.1 hseed.2
  obtain ⟨roles, hcount, hcountTargets, hcountValues, hroles, hload⟩ :=
    loadRatings_gives hholds shares hsource
  have htable := hratable.learnable hcount hcountTargets hcountValues hroles
  generalize rowsOf sources targets values roles = table at htable hload
  -- what preparing leaves are the kept rows, ordered by role
  have hids := htable.lasts.idsOf_byRole
  obtain ⟨start, hstart, -, -⟩ := @Graph.exists_starting Float
    (Graph.graphOf (moveColumns (lasts table)) dimension) hdimension debug
    _ _ hsource
  have hsize :
      (Graph.graphOf (moveColumns (byRole (lasts table))) dimension).size =
        (Graph.graphOf (moveColumns (lasts table)) dimension).size :=
    congrArg Array.size hids.symm
  have hstart' : (Graph.graphOf (moveColumns (byRole (lasts table)))
      dimension).startingVertices debug (some seed) = .ok start := by
    rw [← hstart]
    exact Graph.startingVertices_congr hsize rfl debug _
  obtain ⟨-, -, hvalidation, hprediction, hsum⟩ := Shares.ofValues_ok hshares
  obtain ⟨d, hd, -⟩ := direct_leads hdirect hdirectAsks
    (Shares.ofValues_real hvalidation hprediction hsum) (hload true) htable
    hstart (make ratings direct) (apart_self _)
  obtain ⟨c, hc, hfiles⟩ := @prepare_leads κ files ratings folder _ _ _ _ _
    hshares (hload false) ⟨files, []⟩ rfl
  have hedges : ∀ strict,
      (loadEdges c.files true strict (Path.tidy folder)).Gives
        ⟨moveColumns (byRole (lasts table)), 0⟩ := by
    intro strict
    rw [show c.files = _ from hfiles]
    exact loadEdges_writeEdges isStem_ratings htable.lasts.some
      htable.lasts.writable hfolder (by simp [hempty]) true strict
  obtain ⟨e, he, -⟩ :=
    prepared_leads hprepared hpreparedAsks hedges htable.lasts.byRole
      (lasts_moveColumns_byRole htable.known) hstart' (make folder prepared)
      (apart_self _)
  refine ⟨_, _, start, c, _, d, e, hd, hc, he, hedges, hids, fun role => ?_⟩
  rw [Graph.edges_ofRole, Graph.edges_ofRole, ofRole_moveColumns,
    ofRole_moveColumns, ofRole_byRole htable.lasts.known, hids]

/-! ## A ratings file -/

/-- A tree of files with one ratings file, in which a rating is repeated. -/
def sampleRatings : Files Unit :=
  Files.none.writeText "ratings.csv"
    "userId,movieId,rating\n1,10,3.5\n2,10,4.0\n1,10,2.0\n0,11,0.5\n"

private theorem holds_sampleRatings :
    HoldsRatings sampleRatings (Path.tidy "ratings.csv") [1, 2, 1, 0]
      [10, 10, 10, 11] [3.5, 4.0, 2.0, 0.5] where
  read := ⟨"ratings.csv", _, _, by decide +kernel, rfl, rfl,
    by decide +kernel, rfl, rfl, rfl⟩

private theorem ratable_sampleRatings :
    Ratable [1, 2, 1, 0] [10, 10, 10, 11] [3.5, 4.0, 2.0, 0.5] where
  some := by decide
  source := by simp
  target := by simp
  value := by decide +kernel

/-- The direct route for the ratings file. -/
def sampleDirect : Configuration :=
  ⟨[("loader", .text "movie_lens"), ("latent_dim", .whole 2),
    ("seed", .whole 7)]⟩

/-- The route by edge files for the ratings file. -/
def samplePrepared : Configuration :=
  ⟨[("remap_target", .flag true), ("latent_dim", .whole 2), ("seed", .whole 7)]⟩

theorem routes_agree_sample :
    ∃ g h start c rows d e,
      (buildGraph sampleRatings).perform (make "ratings.csv" sampleDirect) =
        (.ok (g, start), d) ∧
      (PrepareOrder.ofShares "ratings.csv" "edges" (.real 0.1) (.real 0.0)
        7).work.perform ⟨sampleRatings, []⟩ = (.ok (), c) ∧
      (buildGraph c.files).perform (make "edges" samplePrepared) =
        (.ok (h, start), e) ∧
      (∀ strict,
        (loadEdges c.files true strict (Path.tidy "edges")).Gives ⟨rows, 0⟩) ∧
      g.ids = h.ids ∧
      ∀ role, g.edges.toList.filter (·.role == role) =
        h.edges.toList.filter (·.role == role) :=
  routes_agree holds_sampleRatings ratable_sampleRatings
    (Shares.ofValues_real (s := ⟨0.1, 0.0⟩) (by decide +kernel)
      (by decide +kernel) (by decide +kernel))
    ⟨by decide, by decide⟩ (by decide) ⟨.inl rfl, rfl, rfl⟩ ⟨rfl, rfl, rfl⟩
    ⟨.inl rfl, rfl⟩ ⟨rfl, rfl, rfl⟩ (by decide +kernel) (by decide +kernel)

end Both

end Dataset

end RatingFactors
