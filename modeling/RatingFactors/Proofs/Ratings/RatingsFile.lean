import RatingFactors.Proofs.Attempt
import RatingFactors.Proofs.Random.Shuffle
import RatingFactors.Ratings.Source

/-!
# Loading a ratings file

A ratings file is three columns of one length.  Loading it gives a row for each
of its ratings, with the identifiers and the value that stand there and a use
that is drawn; which uses are drawn depends on the shares, the seed and the
number of ratings, and on nothing else.

## Main results

* `length_identifiers`, `length_values` — a column has an entry for each record.
* `loadRatings_gives` — the table that is loaded, with moved columns or not.
* `Shares.ofValues_ok` — which shares are accepted.
* `make_ratingsFile`, `load_ratingsFile` — the same as a source with options.
-/

namespace RatingFactors.Ratings

open RatingFactors.Configuration (Value)

/-! ## Columns -/

theorem length_of_mapM_some {ι β : Type} {f : ι → Option β} {items : List ι}
    {results : List β} (h : items.mapM f = some results) :
    results.length = items.length := by
  induction items generalizing results with
  | nil =>
      rw [List.mapM_nil] at h
      rw [← Option.some.inj h]
      rfl
  | cons i rest ih =>
      rw [List.mapM_cons] at h
      obtain ⟨first, -, h⟩ := Option.bind_eq_some_iff.mp h
      obtain ⟨others, hothers, h⟩ := Option.bind_eq_some_iff.mp h
      rw [← Option.some.inj h, List.length_cons, ih hothers, List.length_cons]

private theorem length_of_mapM_ok {ι β : Type} {f : ι → Except Failure β}
    {items : List ι} {results : List β} (h : items.mapM f = .ok results) :
    results.length = items.length := by
  induction items generalizing results with
  | nil =>
      rw [List.mapM_nil] at h
      rw [← Except.ok.inj h]
      rfl
  | cons i rest ih =>
      rw [List.mapM_cons] at h
      cases hi : f i with
      | error cause => rw [hi] at h; cases h
      | ok first =>
          cases hothers : rest.mapM f with
          | error cause => rw [hi, hothers] at h; cases h
          | ok others =>
              rw [hi, hothers] at h
              rw [← Except.ok.inj h, List.length_cons, ih hothers,
                List.length_cons]

namespace Column

/-- The number of entries of a column. -/
def count : Column → Nat
  | wholes numbers => numbers.length
  | reals numbers => numbers.length
  | truths flags => flags.length
  | texts fields => fields.length

private theorem count_ofTexts (fields : List String) :
    (ofTexts fields).count = fields.length :=
  List.length_map _

private theorem count_ofFields (fields : List String) :
    (ofFields fields).count = fields.length := by
  fun_cases ofFields fields with
  | case1 numbers h => exact length_of_mapM_some h
  | case2 => exact count_ofTexts fields
  | case3 _ numbers h => exact length_of_mapM_some h
  | case4 _ _ flags h => exact length_of_mapM_some h
  | case5 => exact count_ofTexts fields

theorem length_identifiers {c : Column} {ids : List Int64}
    (h : c.identifiers = .ok ids) : ids.length = c.count := by
  cases c with
  | wholes numbers => rw [← Except.ok.inj h, List.length_map, count]
  | reals numbers =>
      rw [identifiers] at h
      split at h
      · cases h
      · exact length_of_mapM_ok h
  | truths flags => rw [← Except.ok.inj h, List.length_map, count]
  | texts fields => exact length_of_mapM_ok h

theorem length_values {c : Column} {numbers : List Float}
    (h : c.values = .ok numbers) : numbers.length = c.count := by
  cases c with
  | wholes numbers => rw [← Except.ok.inj h, List.length_map, count]
  | reals numbers => rw [← Except.ok.inj h, count]
  | truths flags => rw [← Except.ok.inj h, List.length_map, count]
  | texts fields => exact length_of_mapM_ok h

end Column

private theorem count_columnNamed (t : Csv.Table) (names : List String)
    (name : String) : (columnNamed t names name).count = t.rows.length := by
  rw [columnNamed, Column.count_ofFields, Csv.Table.column, List.length_map]

/-! ## The table of a file -/

/-- The ratings file at a path can be read, and these are its columns. -/
structure HoldsRatings {κ : Type} (files : Files κ) (path : String)
    (sources targets : List Int64) (values : List Float) : Prop where
  read : ∃ file text table, ratingsPath files path = .ok file ∧
    files.readText file = .ok text ∧ Csv.Table.ofText text = .ok table ∧
    (∀ name ∈ neededColumns, name ∈ table.names.map renamed) ∧
    (columnNamed table (table.names.map renamed) "sourceId").identifiers =
      .ok sources ∧
    (columnNamed table (table.names.map renamed) "targetId").identifiers =
      .ok targets ∧
    (columnNamed table (table.names.map renamed) "value").values = .ok values

/-- Rows made from four columns. -/
def rowsOf (sources targets : List Int64) (values : List Float)
    (roles : List Role) : List (Rating Float) :=
  List.zipWith
    (fun (source, target) (value, role) => { source, target, value, role })
    (sources.zip targets) (values.zip roles)

theorem mem_rowsOf {sources targets : List Int64} {values : List Float}
    {roles : List Role} {r : Rating Float}
    (h : r ∈ rowsOf sources targets values roles) :
    r.source ∈ sources ∧ r.target ∈ targets ∧ r.value ∈ values ∧
    r.role ∈ roles := by
  rw [rowsOf, ← List.map_uncurry_zip_eq_zipWith] at h
  obtain ⟨⟨ids, rest⟩, hmem, rfl⟩ := List.mem_map.mp h
  obtain ⟨hids, hrest⟩ := List.of_mem_zip hmem
  obtain ⟨hsource, htarget⟩ := List.of_mem_zip hids
  obtain ⟨hvalue, hrole⟩ := List.of_mem_zip hrest
  exact ⟨hsource, htarget, hvalue, hrole⟩

theorem length_rowsOf {sources targets : List Int64} {values : List Float}
    {roles : List Role} (hsources : sources.length = roles.length)
    (htargets : targets.length = roles.length)
    (hvalues : values.length = roles.length) :
    (rowsOf sources targets values roles).length = sources.length := by
  simp [rowsOf, hsources, htargets, hvalues]

/-! ## Shares -/

/-- What accepted shares have passed. -/
theorem Shares.ofValues_ok {validation prediction : Value} {s : Shares}
    (h : Shares.ofValues validation prediction = .ok s) :
    validation.number = .ok s.validation ∧
      prediction.number = .ok s.prediction ∧
      ¬ s.validation < 0.0 ∧ ¬ s.prediction < 0.0 ∧
      ¬ 1.0 ≤ s.validation + s.prediction := by
  unfold Shares.ofValues at h
  cases hv : validation.number with
  | error cause => rw [hv] at h; cases h
  | ok v =>
    rw [hv] at h
    by_cases hlow : v < 0.0
    · simp only [bind, Except.bind, if_pos hlow] at h
      cases h
    · cases hp : prediction.number with
      | error cause =>
        simp only [bind, Except.bind, if_neg hlow, hp] at h
        cases h
      | ok p =>
        simp only [bind, Except.bind, if_neg hlow, hp] at h
        by_cases hlow' : p < 0.0
        · simp only [if_pos hlow'] at h
          cases h
        · by_cases hsum : 1.0 ≤ v + p
          · simp only [if_neg hlow', if_pos hsum] at h
            cases h
          · simp only [if_neg hlow', if_neg hsum] at h
            cases h
            exact ⟨rfl, rfl, hlow, hlow', hsum⟩

/-- Shares that pass are accepted as doubles too. -/
theorem Shares.ofValues_real {s : Shares} (hv : ¬ s.validation < 0.0)
    (hp : ¬ s.prediction < 0.0) (hsum : ¬ 1.0 ≤ s.validation + s.prediction) :
    Shares.ofValues (.real s.validation) (.real s.prediction) = .ok s := by
  simp only [Shares.ofValues, Value.number, bind, Except.bind, if_neg hv,
    if_neg hp, if_neg hsum]
  rfl

/-- Every drawn use is one of the three roles. -/
theorem isKnown_roleAt (s : Shares) (drawn : Float) :
    (s.roleAt drawn).isKnown = true := by
  rw [Shares.roleAt]
  split
  · rfl
  · split <;> rfl

variable {κ : Type} {files : Files κ} {path : String}
  {sources targets : List Int64} {values : List Float}

/-- Loading a ratings file gives its ratings with drawn uses. -/
theorem loadRatings_gives (h : HoldsRatings files path sources targets values)
    (shares : Shares) {seed : Option Int} {source : Twister}
    (hseed : Twister.seeded seed = .ok source) :
    ∃ roles : List Role,
      sources.length = roles.length ∧ targets.length = roles.length ∧
      values.length = roles.length ∧ (∀ role ∈ roles, role.isKnown = true) ∧
      ∀ moved, (loadRatings files moved shares seed path).Gives
        (if moved then moveColumns (rowsOf sources targets values roles)
          else rowsOf sources targets values roles) := by
  obtain ⟨file, text, table, hfile, htext, htable, hnames, hsources, htargets,
    hvalues⟩ := h.read
  have hmissing : neededColumns.filter
      (fun name => !(table.names.map renamed).contains name) = [] := by
    rw [List.filter_eq_nil_iff]
    intro name hname
    simpa using hnames name hname
  have hcount := Twister.length_draws Twister.unit table.rows.length source
  refine ⟨((Twister.draws Twister.unit table.rows.length).run source).1.map
    shares.roleAt, ?_, ?_, ?_, ?_, fun moved => ?_⟩
  · rw [Column.length_identifiers hsources, count_columnNamed, List.length_map,
      hcount]
  · rw [Column.length_identifiers htargets, count_columnNamed, List.length_map,
      hcount]
  · rw [Column.length_values hvalues, count_columnNamed, List.length_map,
      hcount]
  · intro role hrole
    obtain ⟨drawn, -, rfl⟩ := List.mem_map.mp hrole
    exact isKnown_roleAt shares drawn
  · refine (Attempt.gives_lift hfile).bind ((Attempt.gives_lift htext).bind
      ((Attempt.gives_lift htable).bind ?_))
    simp only [hmissing]
    exact (Attempt.gives_lift hseed).bind ((Attempt.gives_tell _).bind
      ((Attempt.gives_lift hsources).bind ((Attempt.gives_lift htargets).bind
        ((Attempt.gives_lift hvalues).bind (Attempt.gives_pure _)))))

/-! ## As a source -/

variable {validation prediction : Value} {shares : Shares} {seed : Int}

/-- The reader of a ratings file with its options. -/
theorem make_ratingsFile {name : String}
    (hname : name = "movie_lens" ∨ name = "movielens") (moved : Bool)
    (hshares : Shares.ofValues validation prediction = .ok shares) :
    Source.make name
        [("remap_target", .flag moved), ("valid_ratio", validation),
          ("predict_ratio", prediction), ("seed", .whole seed)] =
      .ok ⟨.ratingsFile,
        [("remap_target", .flag moved), ("valid_ratio", validation),
          ("predict_ratio", prediction), ("seed", .whole seed)]⟩ := by
  have hchecked : ((discard (Shares.ofValues validation prediction) :
      Except Failure PUnit).bind fun _ =>
        .ok (⟨.ratingsFile,
          [("remap_target", .flag moved), ("valid_ratio", validation),
            ("predict_ratio", prediction), ("seed", .whole seed)]⟩ : Source)) =
      .ok ⟨.ratingsFile,
        [("remap_target", .flag moved), ("valid_ratio", validation),
          ("predict_ratio", prediction), ("seed", .whole seed)]⟩ := by
    rw [hshares]
    rfl
  rcases hname with rfl | rfl
  · exact hchecked
  · exact hchecked

theorem load_ratingsFile {rows : List (Rating Float)} (moved : Bool)
    (hshares : Shares.ofValues validation prediction = .ok shares)
    (hload : (loadRatings files moved shares (some seed)
      (Path.tidy path)).Gives rows) :
    (Source.load ⟨.ratingsFile,
      [("remap_target", .flag moved), ("valid_ratio", validation),
        ("predict_ratio", prediction), ("seed", .whole seed)]⟩
      files path).Gives ⟨rows, 0⟩ :=
  (Attempt.gives_lift hshares).bind
    ((Attempt.gives_lift rfl).bind (hload.bind (Attempt.gives_pure _)))

end RatingFactors.Ratings
