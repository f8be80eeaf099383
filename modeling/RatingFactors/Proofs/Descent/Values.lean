import RatingFactors.Proofs.Descent.Effects

/-!
# What vertices become

When all latent vectors have the length that the settings give, so has every
step, and nothing that a turn computes can fail for want of matching lengths.
Then what a vertex becomes in its turn and what it is sent are plain functions
of the states before and after.

## Main definitions

* `Vertex.moved` — a vertex moved by a step of its own length.
* `Uniform` — all latent vectors have one length.
* `settled` — what a vertex becomes in its turn.
* `sentTo`, `stillTo` — the steps that one vertex posts to another.

## Main results

* `Turn.vertex_eq` — what the vertices of a turn become.
* `Turn.inbox_ofSteps` — what an idle vertex holds after a turn.
-/

namespace RatingFactors

namespace Vertex

variable {α : Type} [Scalar α]

/-- The vertex moved by a step of its own length. -/
def moved (v : Vertex α) (s : Step α) : Vertex α :=
  { v with
    latent := List.zipWith (· + ·) v.latent s.delta
    bias := v.bias + s.bias }

private theorem addVectors_of_length_eq {xs ys : List α}
    (h : xs.length = ys.length) :
    addVectors xs ys = .ok (List.zipWith (· + ·) xs ys) := by
  unfold addVectors
  split
  · rename_i x
    obtain ⟨y, rfl⟩ := List.length_eq_one_iff.mp h.symm
    rfl
  · rename_i y _
    obtain ⟨x, rfl⟩ := List.length_eq_one_iff.mp h
    rfl
  · rw [if_pos h]

private theorem move_of_length_eq {v : Vertex α} {s : Step α}
    (h : v.latent.length = s.delta.length) : v.move s = .ok (v.moved s) := by
  rw [move, addVectors_of_length_eq h]
  rfl

end Vertex

namespace Descent

open Engine (Post)

variable {α ω : Type} [Scalar α]

/-- All latent vectors, and the still step of the settings, have one
length. -/
structure Uniform (g : Graph α) (s : Settings α) (size : Nat)
    (look : Nat → Vertex α) : Prop where
  dimension : s.dimension = size
  latent : ∀ v < g.size, (look v).latent.length = size

/-- The vertex after it has applied a step and counted the update.  The empty
step moves nothing. -/
def settled (v : Vertex α) (step : Step α) : Vertex α :=
  if step.isEmpty then v.counted else (v.moved step).counted

section Functions

variable (g : Graph α) (s : Settings α) (look : Nat → Vertex α)

/-- The step that a vertex applies in its turn: a column what it was sent, and
any other vertex what it gathers. -/
def intake (sent : Slot α) (v : Nat) : Step α :=
  if g.IsColumn v then sent.getD .empty else gatherTotal g s look v

/-- The steps that a vertex posts to another while it gathers. -/
def sentTo (w v : Nat) : List (Step α) :=
  if g.IsColumn v then []
  else ((g.trainingAt v).filter fun n =>
    across g v n = w ∧ reaches g s look v n).map (sentStep g s look v)

/-- The steps that a vertex posts to another when it scatters. -/
def stillTo (w v : Nat) : List (Step α) :=
  ((g.trainingAt v).filter fun n =>
    across g v n = w ∧ reaches g s look v n).map fun _ => stillStep s

end Functions

section Lengths

variable {g : Graph α} {s : Settings α} {size : Nat} {look : Nat → Vertex α}
  {v w : Nat}

private theorem gradientStep_fits {residual : α} {own other : Vertex α}
    (hown : own.latent.length = size) (hother : other.latent.length = size) :
    (gradientStep s residual own other).Fits size := by
  refine Step.fits_of ?_ _
  rw [stepCoordinates, List.length_zipWith, hown, hother, Nat.min_self]

theorem Uniform.ownStep_fits (hu : Uniform g s size look) (hg : g.Faithful)
    (hv : v < g.size) : ∀ n ∈ g.trainingAt v,
    (ownStep g s look v n).Fits size := by
  intro n hn
  exact gradientStep_fits (hu.latent v hv)
    (hu.latent _ (across_lt hg hv hn))

theorem Uniform.sentStep_fits (hu : Uniform g s size look) (hg : g.Faithful)
    (hv : v < g.size) : ∀ n ∈ g.trainingAt v,
    (sentStep g s look v n).Fits size := by
  intro n hn
  exact gradientStep_fits (hu.latent _ (across_lt hg hv hn))
    (hu.latent v hv)

theorem Uniform.stillStep_fits (hu : Uniform g s size look) :
    (stillStep s).Fits size := by
  refine Step.fits_of ?_ _
  rw [List.length_replicate, hu.dimension, Int.toNat_natCast]

private theorem Uniform.sentTo_fits (hu : Uniform g s size look)
    (hg : g.Faithful) (hv : v < g.size) :
    ∀ step ∈ sentTo g s look w v, step.Fits size := by
  intro step hstep
  unfold sentTo at hstep
  split at hstep
  · exact absurd hstep List.not_mem_nil
  · obtain ⟨n, hn, rfl⟩ := List.mem_map.mp hstep
    exact hu.sentStep_fits hg hv n (List.mem_filter.mp hn).1

private theorem Uniform.stillTo_fits (hu : Uniform g s size look)
    {later : Nat → Vertex α} :
    ∀ step ∈ stillTo g s later w v, step.Fits size := by
  intro step hstep
  obtain ⟨n, -, rfl⟩ := List.mem_map.mp hstep
  exact hu.stillStep_fits

/-- What a row gathers has the right length, if it gathers anything. -/
theorem Uniform.gatherTotal_fits (hu : Uniform g s size look)
    (hg : g.Faithful) (hv : v < g.size) (hrow : ¬ g.IsColumn v)
    (htrained : g.IsTrained v) : (gatherTotal g s look v).Fits size := by
  rw [gatherTotal, totalOver, if_neg hrow]
  refine Step.fits_sum ?_ fun hnil => htrained (List.map_eq_nil_iff.mp hnil)
  intro step hstep
  obtain ⟨n, hn, rfl⟩ := List.mem_map.mp hstep
  exact hu.ownStep_fits hg hv n hn

theorem gatherTotal_eq_empty (h : g.IsColumn v ∨ ¬ g.IsTrained v) :
    gatherTotal g s look v = .empty := by
  rw [gatherTotal, totalOver]
  split
  · rfl
  · rename_i hrow
    rw [Classical.not_not.mp (h.resolve_left hrow)]
    rfl

/-- What a vertex takes in either is empty or has the right length. -/
theorem Uniform.intake_fits (hu : Uniform g s size look) (hg : g.Faithful)
    (hv : v < g.size) {sent : Slot α}
    (hsent : ∀ step, sent = some step → step.Fits size) :
    intake g s look sent v = .empty ∨
      (intake g s look sent v).Fits size := by
  unfold intake
  split
  · cases sent with
    | none => exact .inl rfl
    | some step => exact .inr (hsent step rfl)
  · rename_i hrow
    by_cases htrained : g.IsTrained v
    · exact .inr (hu.gatherTotal_fits hg hv hrow htrained)
    · exact .inl (gatherTotal_eq_empty (.inr htrained))

theorem length_latent_settled {vertex : Vertex α} {step : Step α}
    (hstep : step = .empty ∨ step.Fits vertex.latent.length) :
    (settled vertex step).latent.length = vertex.latent.length := by
  unfold settled
  split
  · rfl
  · rename_i hfull
    have hfits : step.Fits vertex.latent.length :=
      hstep.resolve_left fun heq => hfull (by rw [heq]; rfl)
    change (List.zipWith (· + ·) vertex.latent step.delta).length = _
    rw [List.length_zipWith, hfits.length, Nat.min_self]

end Lengths

/-! ## Applying -/

/-- With matching lengths applying cannot fail. -/
theorem applied_eq_settled {scene : Scene α} {v : Nat} {sent : Slot α}
    (hg : scene.graph.Bipartite) (hv : v < scene.graph.size)
    (hsent : ¬ scene.graph.IsColumn v → sent = none)
    (hintake : intake scene.graph scene.settings scene.vertex sent v = .empty ∨
      (intake scene.graph scene.settings scene.vertex sent v).Fits
        (scene.vertex v).latent.length) :
    applied scene v sent
        (gatherTotal scene.graph scene.settings scene.vertex v) =
      .ok (settled (scene.vertex v)
        (intake scene.graph scene.settings scene.vertex sent v)) := by
  have hmove : ∀ step : Step α, ¬ step.isEmpty = true →
      (step = .empty ∨ step.Fits (scene.vertex v).latent.length) →
      ((scene.vertex v).move step).map Vertex.counted =
        .ok (settled (scene.vertex v) step) := by
    intro step hfull hfits
    have hlength := (hfits.resolve_left fun heq =>
      hfull (by rw [heq]; rfl)).length
    rw [Vertex.move_of_length_eq hlength.symm, settled, if_neg hfull]
    rfl
  unfold applied
  dsimp only
  by_cases hcolumn : scene.graph.IsColumn v
  · have hrow : scene.graph.outDegree v = 0 := by
      apply Nat.eq_zero_of_not_pos
      exact fun hrow => hg.not_isColumn_of_isRow hv hrow hcolumn
    rw [intake, if_pos hcolumn] at hintake ⊢
    rw [gatherTotal_eq_empty (.inl hcolumn), if_neg (by
      simp [Step.empty, Step.isEmpty])]
    cases sent with
    | none => rfl
    | some step =>
        simp only [Option.getD_some] at hintake ⊢
        by_cases hfull : step.isEmpty = true
        · rw [if_pos hfull, settled, if_pos hfull]
        · rw [if_neg hfull, if_neg (by simp [hrow])]
          exact hmove step hfull hintake
  · have hdegree : scene.graph.inDegree v = 0 := by
      apply Nat.eq_zero_of_not_pos
      exact hcolumn
    rw [intake, if_neg hcolumn] at hintake ⊢
    rw [hsent hcolumn]
    by_cases hfull : (gatherTotal scene.graph scene.settings scene.vertex
        v).isEmpty = true
    · rw [if_neg (by simp [hfull]), settled, if_pos hfull]
    · rw [if_pos (by simpa using hfull), if_neg (by simp [hdegree])]
      exact hmove _ hfull hintake

/-- What a vertex applies after it has taken in what waited for it. -/
theorem applied_waiting {scene : Scene α} {size v : Nat} {b : Inbox α}
    (hg : scene.graph.Bipartite)
    (hu : Uniform scene.graph scene.settings size scene.vertex)
    (hv : v < scene.graph.size) (hb : ∀ m ∈ b.message?, m.Fits size) :
    applied scene v (slotAfterInit scene.graph v b none)
        (gatherTotal scene.graph scene.settings scene.vertex v) =
      .ok (settled (scene.vertex v)
        (intake scene.graph scene.settings scene.vertex b.message? v)) := by
  have hslot : slotAfterInit scene.graph v b none =
      if scene.graph.IsColumn v then b.message? else none := by
    rw [slotAfterInit, Option.or_none]
  have hintake : intake scene.graph scene.settings scene.vertex
      (slotAfterInit scene.graph v b none) v =
      intake scene.graph scene.settings scene.vertex b.message? v := by
    rw [hslot, intake, intake]
    split <;> rfl
  have hfits := hu.intake_fits hg.toFaithful hv hb
  rw [← hintake] at hfits ⊢
  rw [← hu.latent v hv] at hfits
  exact applied_eq_settled hg hv (fun hrow => hslot.trans (if_neg hrow)) hfits

/-! ## Posting -/

omit [Scalar α] in
/-- What one place gets of the posts along those of some edges that pass a
test. -/
theorem postsTo_map_filter (target : Nat → Nat) (passes : Nat → Bool)
    (payload : Nat → Step α) (w : Nat) (numbers : List Nat) :
    Engine.postsTo w ((numbers.filter passes).map fun n =>
        (target n, some (payload n))) =
      ((numbers.filter fun n => target n = w ∧ passes n).map payload).map
        some := by
  induction numbers with
  | nil => rfl
  | cons n rest ih =>
      by_cases hpasses : passes n = true
      · rw [List.filter_cons_of_pos hpasses, List.map_cons]
        by_cases hw : target n = w
        · rw [Engine.postsTo_cons_self hw, ih,
            List.filter_cons_of_pos (by simp [hw, hpasses])]
          rfl
        · rw [Engine.postsTo_cons_ne hw, ih,
            List.filter_cons_of_neg (by simp [hw])]
      · rw [List.filter_cons_of_neg hpasses, ih,
          List.filter_cons_of_neg (by simp [hpasses])]

/-- What a vertex posts to another while it gathers. -/
theorem postsTo_gatherPosts (g : Graph α) (s : Settings α)
    (look : Nat → Vertex α) (w v : Nat) :
    Engine.postsTo w (gatherPosts g s look v) =
      (sentTo g s look w v).map some := by
  unfold gatherPosts postsOver sentTo
  split
  · rfl
  · exact postsTo_map_filter _ _ _ w _

/-- What a vertex posts to another when it scatters. -/
theorem postsTo_scatterPosts (g : Graph α) (s : Settings α)
    (look : Nat → Vertex α) (w v : Nat) :
    Engine.postsTo w (scatterPosts g s look v) =
      (stillTo g s look w v).map some :=
  postsTo_map_filter _ _ _ w _

omit [Scalar α] in
private theorem postsTo_flatMap (w : Nat) (posts : Nat → List (Post α))
    (order : List Nat) :
    Engine.postsTo w (order.flatMap posts) =
      order.flatMap fun v => Engine.postsTo w (posts v) := by
  induction order with
  | nil => rfl
  | cons v rest ih =>
      rw [List.flatMap_cons, List.flatMap_cons, Engine.postsTo_append, ih]

/-- The messages that a turn posts to a vertex: the steps that rows send while
they gather, and then the still steps of everybody. -/
def messagesTo (g : Graph α) (s : Settings α) (look later : Nat → Vertex α)
    (order : List Nat) (w : Nat) : List (Step α) :=
  order.flatMap (sentTo g s look w) ++ order.flatMap (stillTo g s later w)

theorem Uniform.messagesTo_fits {g : Graph α} {s : Settings α} {size : Nat}
    {look later : Nat → Vertex α} {order : List Nat} {w : Nat}
    (hu : Uniform g s size look) (hg : g.Faithful)
    (hlt : ∀ v ∈ order, v < g.size) :
    ∀ step ∈ messagesTo g s look later order w, step.Fits size := by
  intro step hstep
  rcases List.mem_append.mp hstep with hstep | hstep
  · obtain ⟨v, hv, hstep⟩ := List.mem_flatMap.mp hstep
    exact hu.sentTo_fits hg (hlt v hv) step hstep
  · obtain ⟨v, -, hstep⟩ := List.mem_flatMap.mp hstep
    exact hu.stillTo_fits step hstep

private theorem postsTo_turnPosts (g : Graph α) (s : Settings α)
    (look later : Nat → Vertex α) (order : List Nat) (w : Nat) :
    Engine.postsTo w (turnPosts g s look later order) =
      (messagesTo g s look later order w).map some := by
  rw [turnPosts, Engine.postsTo_append, postsTo_flatMap, postsTo_flatMap,
    messagesTo, List.map_append, List.map_flatMap, List.map_flatMap]
  simp only [postsTo_gatherPosts, postsTo_scatterPosts]

/-! ## Turns with matching lengths -/

namespace Turn

variable {before after : Engine α (Slot α) ω} {waiting : Nat → Inbox α}
  {order : List Nat}

/-- What a vertex of the turn becomes. -/
theorem vertex_eq (t : Turn before waiting order after)
    (hg : before.graph.Bipartite) {size : Nat}
    (hu : Uniform before.graph before.settings size before.scene.vertex)
    (hslots : ∀ v, before.slots.getD v none = none)
    {v : Nat} (hv : v ∈ order) (hlt : v < before.graph.size)
    (hwaiting : ∀ m ∈ (waiting v).message?, m.Fits size) :
    after.scene.vertex v = settled (before.scene.vertex v)
      (intake before.graph before.settings before.scene.vertex
        (waiting v).message? v) := by
  have happlied := t.vertex_mem v hv
  rw [hslots] at happlied
  have hvalue := @applied_waiting α _ before.scene size v _ hg hu hlt hwaiting
  exact (Except.ok.inj (hvalue.symm.trans happlied)).symm

/-- After a turn its messages have been put into what waited before. -/
theorem inbox_messages (t : Turn before waiting order after)
    (hg : before.graph.Faithful) (horder : ∀ v ∈ order, v < before.graph.size)
    (w : Nat) :
    after.inbox w = ((messagesTo before.graph before.settings
      before.scene.vertex after.scene.vertex order w).map some).foldl
      Inbox.put (before.inbox w) := by
  rw [t.inbox_eq hg horder, postsTo_turnPosts]

/-- What waits for a vertex after a turn, if it was idle before. -/
theorem inbox_ofSteps (t : Turn before waiting order after)
    (hg : before.graph.Faithful) (horder : ∀ v ∈ order, v < before.graph.size)
    {w : Nat} (hidle : before.inbox w = .idle) :
    after.inbox w = .ofSteps (messagesTo before.graph before.settings
      before.scene.vertex after.scene.vertex order w) := by
  rw [t.inbox_messages hg horder, hidle, Inbox.foldl_put_idle]

end Turn

end Descent

end RatingFactors
