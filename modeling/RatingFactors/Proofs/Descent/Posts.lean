import RatingFactors.Descent
import RatingFactors.Proofs.Engine.Phases
import RatingFactors.Proofs.Graph.Faithful

/-!
# What an active vertex gathers and sends

The phases of gradient descent only read: what a vertex gathers over its edges
and what it sends along them is a function of the graph, the settings and the
states of the vertices it looks at.  This module writes these functions down
and shows that a phase that went through did just that.

Nothing is assumed about the lengths of latent vectors.  Where they do not fit
a phase fails, and the statements here are about phases that did not.

## Main definitions

* `Descent.residual` — the error of a prediction.
* `Descent.gatherTotal`, `Descent.gatherPosts` — what a vertex gathers for
  itself and what it posts meanwhile.
* `Descent.scatterPosts` — whom it wakes afterwards.

## Main results

* `gatherAt_ok`, `scatterAt_ok`, `initAt_ok`, `applyAt_ok` — the four phases.
-/

namespace RatingFactors

namespace Descent

open Engine (Post)

variable {α ω : Type} [Scalar α]

/-- The prediction for two vertices less the rating. -/
def residual (s : Settings α) (own opposite : Vertex α) (value : α) : α :=
  s.clamp (s.globalMean + own.bias + opposite.bias +
    Scalar.dot own.latent opposite.latent) - value

section Functions

variable (g : Graph α) (s : Settings α) (look : Nat → Vertex α) (v : Nat)

/-- The vertex across an edge. -/
def across (n : Nat) : Nat :=
  Graph.otherEnd (g.edgeAt n) v

/-- The residual on an edge, seen from one of its ends. -/
def residualAt (n : Nat) : α :=
  residual s (look v) (look (across g v n)) (g.edgeAt n).value

/-- The step that an edge gives the vertex at hand. -/
def ownStep (n : Nat) : Step α :=
  gradientStep s (residualAt g s look v n) (look v) (look (across g v n))

/-- The step that an edge gives the vertex across. -/
def sentStep (n : Nat) : Step α :=
  gradientStep s (residualAt g s look v n) (look (across g v n)) (look v)

/-- May the vertex across an edge still be woken? -/
def reaches (n : Nat) : Bool :=
  s.withinBudget (look (across g v n))

/-- The total that a vertex gathers over some edges.  A column gathers
nothing. -/
def totalOver (numbers : List Nat) : Step α :=
  if g.IsColumn v then .empty
  else Step.sum (numbers.map (ownStep g s look v))

/-- The messages that a vertex asks for while it gathers over some edges. -/
def postsOver (numbers : List Nat) : List (Post α) :=
  if g.IsColumn v then []
  else (numbers.filter (reaches g s look v)).map fun n =>
    (across g v n, some (sentStep g s look v n))

/-- What a vertex gathers for itself over its training edges. -/
def gatherTotal : Step α :=
  totalOver g s look v (g.trainingAt v)

/-- What a vertex posts while it gathers. -/
def gatherPosts : List (Post α) :=
  postsOver g s look v (g.trainingAt v)

/-- The step that wakes a vertex and moves nothing. -/
def stillStep : Step α :=
  Step.of (List.replicate s.dimension.toNat Scalar.zero) Scalar.zero

/-- What a vertex posts along some edges when it scatters. -/
def wakingOver (numbers : List Nat) : List (Post α) :=
  (numbers.filter (reaches g s look v)).map fun n =>
    (across g v n, some (stillStep s))

/-- What a vertex posts when it scatters. -/
def scatterPosts : List (Post α) :=
  wakingOver g s look v (g.trainingAt v)

end Functions

/-! ## Who is posted to -/

section Targets

variable {g : Graph α} {s : Settings α} {look : Nat → Vertex α} {v w : Nat}

/-- Over some edges a row posts to their ends that it reaches. -/
theorem mem_targets_postsOver {numbers : List Nat} :
    w ∈ (postsOver g s look v numbers).map Prod.fst ↔
      ¬ g.IsColumn v ∧ ∃ n ∈ numbers, reaches g s look v n = true ∧
        across g v n = w := by
  unfold postsOver
  split
  · rename_i hcolumn
    simp [hcolumn]
  · rename_i hrow
    simp [hrow, and_assoc]

/-- While it gathers it posts to the ends of its training edges that it
reaches. -/
theorem mem_targets_gatherPosts :
    w ∈ (gatherPosts g s look v).map Prod.fst ↔
      ¬ g.IsColumn v ∧ s.withinBudget (look w) = true ∧
        ∃ n ∈ g.trainingAt v, across g v n = w := by
  rw [gatherPosts, mem_targets_postsOver]
  refine and_congr_right fun _ => ?_
  constructor
  · rintro ⟨n, hn, hbudget, rfl⟩
    exact ⟨hbudget, n, hn, rfl⟩
  · rintro ⟨hbudget, n, hn, rfl⟩
    exact ⟨n, hn, hbudget, rfl⟩

/-- When it scatters a vertex posts to the ends of its training edges that it
reaches. -/
theorem mem_targets_scatterPosts :
    w ∈ (scatterPosts g s look v).map Prod.fst ↔
      s.withinBudget (look w) = true ∧
        ∃ n ∈ g.trainingAt v, across g v n = w := by
  unfold scatterPosts wakingOver
  simp only [List.map_map, List.mem_map, List.mem_filter, reaches,
    Function.comp_apply]
  constructor
  · rintro ⟨n, ⟨hn, hbudget⟩, rfl⟩
    exact ⟨hbudget, n, hn, rfl⟩
  · rintro ⟨hbudget, n, hn, rfl⟩
    exact ⟨n, ⟨hn, hbudget⟩, rfl⟩

theorem across_lt (hg : g.Faithful) (hv : v < g.size) {n : Nat}
    (hn : n ∈ g.trainingAt v) : across g v n < g.size :=
  hg.otherEnd_lt ((hg.mem_trainingAt hv).mp hn).1

/-- Nobody meets itself. -/
theorem across_ne (hg : g.Bipartite) (hv : v < g.size) {n : Nat}
    (hn : n ∈ g.trainingAt v) : across g v n ≠ v := by
  obtain ⟨hlt, -, hends⟩ := (hg.mem_trainingAt hv).mp hn
  have hne := hg.source_ne_target n hlt n hlt
  rw [across, Graph.otherEnd]
  split
  · rename_i hsource
    exact fun htarget => hne (hsource.symm.trans htarget.symm)
  · rename_i hsource
    exact fun h => hsource h.symm

theorem postsOver_lt (hg : g.Faithful) (hv : v < g.size) {numbers : List Nat}
    (hnumbers : ∀ n ∈ numbers, n ∈ g.trainingAt v) :
    ∀ post ∈ postsOver g s look v numbers, post.1 < g.size := by
  intro post hpost
  obtain ⟨-, n, hn, -, hacross⟩ :=
    mem_targets_postsOver.mp (List.mem_map_of_mem hpost)
  exact hacross ▸ across_lt hg hv (hnumbers n hn)

theorem gatherPosts_lt (hg : g.Faithful) (hv : v < g.size) :
    ∀ post ∈ gatherPosts g s look v, post.1 < g.size :=
  postsOver_lt hg hv fun _ hn => hn

theorem scatterPosts_lt (hg : g.Faithful) (hv : v < g.size) :
    ∀ post ∈ scatterPosts g s look v, post.1 < g.size := by
  intro post hpost
  obtain ⟨-, n, hn, hacross⟩ :=
    mem_targets_scatterPosts.mp (List.mem_map_of_mem hpost)
  exact hacross ▸ across_lt hg hv hn

end Targets

/-! ## Gathering -/

/-- Actions that only note something down change nothing but the notes. -/
theorem each_note_ok {place : Nat} {e e' : Engine α (Slot α) ω}
    {actions : List (Action α (Slot α) ω)}
    (hnotes : ∀ action ∈ actions, ∃ content, action = .note content)
    (h : (Attempt.each actions (Engine.carryOut place)).perform e =
      (.ok (), e')) :
    ∃ notes, e' = e.noted notes := by
  induction actions generalizing e with
  | nil => exact ⟨e.notes, (Prod.mk.inj h).2.symm⟩
  | cons action rest ih =>
      obtain ⟨reached, hfirst, hrest⟩ := Attempt.perform_each_cons_ok.mp h
      obtain ⟨content, rfl⟩ := hnotes action (by simp)
      obtain ⟨notes, rfl⟩ :=
        ih (fun other hother => hnotes other (by simp [hother])) hrest
      have hreached : reached = e.noted (e.notes.push content) :=
        (Prod.mk.inj hfirst).2.symm
      exact ⟨notes, by rw [hreached, Engine.noted_noted]⟩

section Gathering

variable {e e' : Engine α (Slot α) ω} {place : Nat}

private theorem predict_ok {s : Settings α} {v w : Vertex α} {x : α}
    (h : s.predict v w = .ok x) :
    x = s.clamp (s.globalMean + v.bias + w.bias +
      Scalar.dot v.latent w.latent) := by
  unfold Settings.predict at h
  split at h
  · exact (Except.ok.inj h).symm
  · cases h

/-- A training edge that contributes: its step, its message if the budget
allows one, and a residual that is a number. -/
theorem contribution_ok {scene : Scene α} {number : Nat}
    {result : Contribution α × α}
    (h : contribution scene place number = .ok result) :
    let g := scene.graph
    let s := scene.settings
    result.1.step = ownStep g s scene.vertex place number ∧
      result.1.outgoing =
        (if reaches g s scene.vertex place number then
          some ⟨g.idAt (across g place number),
            sentStep g s scene.vertex place number⟩
        else none) ∧
      Scalar.isNaN (residualAt g s scene.vertex place number) = false := by
  unfold contribution at h
  simp only [bind, Except.bind] at h
  split at h
  · cases h
  · rename_i prediction hpredict
    have hresidual : prediction - (scene.edge number).value =
        residualAt scene.graph scene.settings scene.vertex place number := by
      rw [predict_ok hpredict]
      rfl
    split at h
    · cases h
    · rename_i hnumber
      rw [← Except.ok.inj h, hresidual]
      refine ⟨rfl, rfl, ?_⟩
      rw [← hresidual]
      simpa using hnumber

/-- The answer of a row to a gathering phase over one edge, if there is one:
the edge is held out and contributes nothing, or it is a training edge. -/
theorem gather_row_ok {scene : Scene α} {slot : Slot α} {number : Nat}
    {result : Contribution α} (hrow : ¬ scene.graph.IsColumn place)
    (h : ((program : Program α (Slot α) ω).gather scene place slot
      number).answer = .ok result) :
    ((scene.graph.edgeAt number).role ≠ .train ∧ result = .nothing) ∨
      ((scene.graph.edgeAt number).role = .train ∧
        ∃ x, contribution scene place number = .ok (result, x)) := by
  have hdegree : ¬ 0 < scene.graph.inDegree place := hrow
  have hedge : scene.edge number = scene.graph.edgeAt number := rfl
  change (gather scene place slot number).answer = .ok result at h
  unfold gather at h
  rw [if_neg hdegree] at h
  simp only [hedge] at h
  cases hrole : (scene.graph.edgeAt number).role with
  | train =>
      simp only [hrole] at h
      right
      refine ⟨rfl, ?_⟩
      cases hc : contribution scene place number with
      | error cause =>
          rw [hc] at h
          cases h
      | ok found =>
          rw [hc] at h
          exact ⟨found.2, by rw [← Except.ok.inj h]⟩
  | validate =>
      simp only [hrole] at h
      exact .inl ⟨by simp, (Except.ok.inj h).symm⟩
  | predict =>
      simp only [hrole] at h
      exact .inl ⟨by simp, (Except.ok.inj h).symm⟩
  | other label =>
      simp only [hrole] at h
      cases h

/-- A gathering phase at most prints. -/
theorem gather_actions (scene : Scene α) (place : Nat) (slot : Slot α)
    (number : Nat) :
    ∀ action ∈ ((program : Program α (Slot α) ω).gather scene place slot
      number).actions, ∃ content, action = .note content := by
  intro action haction
  change action ∈ (gather scene place slot number).actions at haction
  unfold gather at haction
  split at haction
  · cases haction
  · dsimp only at haction
    split at haction
    · cases haction
    · cases haction
    · cases haction
    · split at haction
      · cases haction
      · split at haction
        · rw [List.mem_singleton] at haction
          exact ⟨_, haction⟩
        · cases haction

/-- A message that a gathering phase asks for reaches the vertex across. -/
private theorem signal_across_ok {scene : Scene α} (hscene : e.scene = scene)
    (hg : scene.graph.Faithful) {number : Nat}
    (hnumber : number < scene.graph.edgeCount) {payload : Step α}
    (h : (Engine.signal (.id (scene.graph.idAt
      (across scene.graph place number))) (some payload)).perform e =
      (.ok (), e')) :
    e' = e.posted (across scene.graph place number, some payload) := by
  subst hscene
  obtain ⟨target, filled, hresolve, -, rfl⟩ := Engine.signal_ok.mp h
  have hlt : across e.scene.graph place number < e.scene.graph.size :=
    hg.otherEnd_lt hnumber
  have hplace : e.resolve (.id (e.scene.graph.idAt
      (across e.scene.graph place number))) =
      .ok (across e.scene.graph place number) :=
    hg.placeOf_idAt _ hlt
  rw [hplace] at hresolve
  rw [← Except.ok.inj hresolve]

theorem postsOver_append {g : Graph α} {s : Settings α}
    {look : Nat → Vertex α} (first second : List Nat) :
    postsOver g s look place (first ++ second) =
      postsOver g s look place first ++ postsOver g s look place second := by
  unfold postsOver
  split
  · rfl
  · rw [List.filter_append, List.map_append]

/-- One edge of the gathering loop of a row.  A held-out edge adds nothing and
posts nothing; a training edge adds its step and posts its message. -/
theorem gather_one_ok {scene : Scene α} (hscene : e.scene = scene)
    (hg : scene.graph.Faithful) (hrow : ¬ scene.graph.IsColumn place)
    {number : Nat} (hlt : number < scene.graph.edgeCount)
    {c : Contribution α} {total next : Step α} (htotal : total.Proper)
    {heeded sent : Engine α (Slot α) ω}
    (hheed : (Engine.heed place (program.gather scene place
      (e.slot program place) number)).perform e = (.ok c, heeded))
    (hadd : total.add c.step = .ok next)
    (hsent : match c.outgoing with
      | none => sent = heeded
      | some m => (Engine.signal (.id m.target) (some m.payload)).perform
        heeded = (.ok (), sent)) :
    let train := [number].filter fun n => (scene.graph.edgeAt n).role = .train
    next = (train.map (ownStep scene.graph scene.settings scene.vertex
        place)).foldl Step.plus total ∧
      next.Proper ∧
      (∃ notes, sent = (e.postAll (postsOver scene.graph scene.settings
        scene.vertex place train)).noted notes) ∧
      ∀ n ∈ train, Scalar.isNaN (residualAt scene.graph scene.settings
        scene.vertex place n) = false := by
  obtain ⟨hactions, hanswer⟩ := Engine.heed_ok.mp hheed
  obtain ⟨notes, rfl⟩ :=
    each_note_ok (gather_actions scene place _ number) hactions
  have hnext := Step.eq_plus_of_add hadd
  intro train
  rcases gather_row_ok hrow hanswer with ⟨hrole, rfl⟩ | ⟨hrole, x, hc⟩
  · have htrain : train = [] :=
      List.filter_cons_of_neg (by simpa using hrole)
    have hsame : next = total := by
      rw [hnext]
      exact htotal.plus_empty
    have hsent' : sent = e.noted notes := hsent
    rw [htrain, hsame, hsent']
    refine ⟨rfl, htotal, ⟨notes, ?_⟩, by simp⟩
    simp [postsOver, hrow, Engine.postAll]
  · obtain ⟨hstep, hout, hnumber⟩ := contribution_ok hc
    have htrain : train = [number] :=
      List.filter_cons_of_pos (by simpa using hrole)
    have hsum : next = total.plus (ownStep scene.graph scene.settings
        scene.vertex place number) := by
      rw [hnext, hstep]
    have hproper : next.Proper := by
      rw [hsum]
      exact htotal.plus (Step.proper_of _ _)
    rw [htrain]
    refine ⟨hsum, hproper, ⟨notes, ?_⟩, by simpa using hnumber⟩
    rw [← Engine.postAll_noted]
    cases hreach : reaches scene.graph scene.settings scene.vertex place
        number with
    | false =>
        rw [hreach, if_neg (by simp)] at hout
        rw [hout] at hsent
        rw [hsent, postsOver, if_neg hrow,
          List.filter_cons_of_neg (by simp [hreach])]
        rfl
    | true =>
        have hnoted : (e.noted notes).scene = scene := hscene
        rw [hreach, if_pos rfl] at hout
        rw [hout] at hsent
        rw [signal_across_ok hnoted hg hlt hsent, postsOver,
          if_neg hrow, List.filter_cons_of_pos hreach]
        rfl

/-- A row gathers the steps of its training edges in order, and posts the
steps of the vertices across that it reaches. -/
private theorem gatherOver_row_ok {scene : Scene α} (hscene : e.scene = scene)
    (hg : scene.graph.Faithful) (hrow : ¬ scene.graph.IsColumn place)
    {numbers : List Nat} (hnumbers : ∀ n ∈ numbers, n < scene.graph.edgeCount)
    {total result : Step α} (htotal : total.Proper)
    (h : (Engine.gatherOver program place numbers total).perform e =
      (.ok result, e')) :
    let train := numbers.filter fun n => (scene.graph.edgeAt n).role = .train
    result = (train.map (ownStep scene.graph scene.settings scene.vertex
        place)).foldl Step.plus total ∧
      (∃ notes, e' = (e.postAll (postsOver scene.graph scene.settings
        scene.vertex place train)).noted notes) ∧
      ∀ n ∈ train, Scalar.isNaN (residualAt scene.graph scene.settings
        scene.vertex place n) = false := by
  induction numbers generalizing e total with
  | nil =>
      obtain ⟨hresult, rfl⟩ := Prod.mk.inj h
      refine ⟨(Except.ok.inj hresult).symm, ⟨e.notes, ?_⟩, by simp⟩
      simp [postsOver, hrow, Engine.postAll, Engine.noted]
  | cons number rest ih =>
      obtain ⟨c, heeded, next, sent, hheed, hadd, hsent, hrest⟩ :=
        Engine.gatherOver_cons_ok.mp h
      rw [hscene] at hheed
      obtain ⟨hnext, hproper, ⟨notes, hposts⟩, hnumber⟩ :=
        gather_one_ok hscene hg hrow (hnumbers number (by simp)) htotal hheed
          hadd hsent
      have hsentScene : sent.scene = scene := by
        rw [hposts, Engine.scene_noted, Engine.scene_postAll, hscene]
      obtain ⟨hresult, ⟨later, hmore⟩, hnumbers'⟩ :=
        ih hsentScene (fun n hn => hnumbers n (by simp [hn])) hproper hrest
      intro train
      have htrain : train =
          [number].filter (fun n => (scene.graph.edgeAt n).role = .train) ++
            rest.filter fun n => (scene.graph.edgeAt n).role = .train :=
        List.filter_append [number] rest
      rw [htrain]
      refine ⟨?_, ⟨later, ?_⟩, ?_⟩
      · rw [hresult, hnext, List.map_append, List.foldl_append]
      · rw [hmore, hposts, Engine.postAll_noted, Engine.noted_noted,
          ← Engine.postAll_append, postsOver_append]
      · intro n hn
        rcases List.mem_append.mp hn with hn | hn
        · exact hnumber n hn
        · exact hnumbers' n hn

/-- A column gathers nothing and posts nothing. -/
private theorem gatherOver_column_ok {scene : Scene α}
    (hscene : e.scene = scene) (hcolumn : scene.graph.IsColumn place)
    {numbers : List Nat} {result : Step α}
    (h : (Engine.gatherOver program place numbers Step.empty).perform e =
      (.ok result, e')) :
    result = Step.empty ∧ ∃ notes, e' = e.noted notes := by
  induction numbers generalizing e with
  | nil =>
      obtain ⟨hresult, rfl⟩ := Prod.mk.inj h
      exact ⟨(Except.ok.inj hresult).symm, e.notes, rfl⟩
  | cons number rest ih =>
      obtain ⟨contribution, heeded, next, sent, hheed, hadd, hsent, hrest⟩ :=
        Engine.gatherOver_cons_ok.mp h
      rw [hscene] at hheed
      obtain ⟨hactions, hanswer⟩ := Engine.heed_ok.mp hheed
      obtain ⟨notes, rfl⟩ :=
        each_note_ok (gather_actions scene place _ number) hactions
      have hcontribution : contribution = .nothing := by
        have hdegree : 0 < scene.graph.inDegree place := hcolumn
        have hanswer' : (gather (ω := ω) scene place
          (e.slot program place) number).answer = .ok contribution := hanswer
        unfold gather at hanswer'
        rw [if_pos hdegree] at hanswer'
        exact (Except.ok.inj hanswer').symm
      subst hcontribution
      have hnext : next = Step.empty := by
        rw [Step.eq_plus_of_add hadd]
        exact Step.empty_plus _
      have hsent' : sent = e.noted notes := hsent
      subst hsent' hnext
      obtain ⟨hresult, later, hposts⟩ := ih (e := e.noted notes) hscene hrest
      exact ⟨hresult, later, by rw [hposts, Engine.noted_noted]⟩

/-- What a vertex gathers, and what it posts meanwhile.  Every residual that a
row has met is a number. -/
theorem gatherAt_ok {scene : Scene α} (hscene : e.scene = scene)
    (hg : scene.graph.Faithful) (hplace : place < scene.graph.size)
    {total : Step α}
    (h : (Engine.gatherAt program place).perform e = (.ok total, e')) :
    total = gatherTotal scene.graph scene.settings scene.vertex place ∧
      (∃ notes, e' = (e.postAll (gatherPosts scene.graph scene.settings
        scene.vertex place)).noted notes) ∧
      (¬ scene.graph.IsColumn place → ∀ n ∈ scene.graph.trainingAt place,
        Scalar.isNaN (residualAt scene.graph scene.settings scene.vertex
          place n) = false) := by
  obtain ⟨direction, hdirection, hover⟩ := Engine.gatherAt_ok.mp h
  have hboth : direction = .both := (Except.ok.inj hdirection).symm
  subst hboth
  rw [show e.graph = scene.graph from congrArg Scene.graph hscene] at hover
  by_cases hcolumn : scene.graph.IsColumn place
  · obtain ⟨htotal, notes, hposts⟩ :=
      gatherOver_column_ok hscene hcolumn hover
    refine ⟨?_, ⟨notes, ?_⟩, fun hrow => absurd hcolumn hrow⟩
    · rw [htotal, gatherTotal, totalOver, if_pos hcolumn]
    · rw [hposts, gatherPosts, postsOver, if_pos hcolumn]
      rfl
  · have hnumbers : ∀ n ∈ scene.graph.incident place .both,
        n < scene.graph.edgeCount :=
      fun n hn => ((hg.mem_incident_both hplace).mp hn).1
    obtain ⟨htotal, hposts, hnan⟩ := gatherOver_row_ok hscene hg hcolumn
      hnumbers Step.proper_empty hover
    refine ⟨?_, hposts, fun _ => hnan⟩
    rw [htotal, gatherTotal, totalOver, if_neg hcolumn]
    rfl

end Gathering

/-! ## Scattering -/

section Scattering

variable {e e' : Engine α (Slot α) ω} {place : Nat}

theorem zeros_ok {s : Settings α} {step : Step α}
    (h : Step.zeros s.dimension = .ok step) : step = stillStep s := by
  unfold Step.zeros at h
  split at h
  · cases h
  · exact (Except.ok.inj h).symm

/-- Waking a vertex posts a still step to it if its budget allows. -/
theorem rouse_ok {scene : Scene α} {spot own : Nat}
    (h : (Engine.heed own (rouse scene spot : Reply α (Slot α) ω Unit)).perform
      e = (.ok (), e')) :
    e' = e.postAll (if scene.settings.withinBudget (scene.vertex spot) then
      [(spot, some (stillStep scene.settings))] else []) := by
  unfold rouse at h
  cases hbudget : scene.settings.withinBudget (scene.vertex spot) with
  | false =>
      rw [hbudget, if_neg (by simp)] at h
      rw [if_neg (by simp)]
      exact ((Prod.mk.inj (Engine.heed_ok.mp h).1).2).symm
  | true =>
      rw [hbudget, if_pos rfl] at h
      rw [if_pos rfl]
      cases hzeros : (Step.zeros scene.settings.dimension :
          Except Failure (Step α)) with
      | error cause =>
          rw [hzeros] at h
          cases (Engine.heed_ok.mp h).2
      | ok step =>
          rw [hzeros] at h
          obtain ⟨reached, hsignal, hend⟩ :=
            Attempt.perform_each_cons_ok.mp (Engine.heed_ok.mp h).1
          obtain ⟨target, -, hresolve, -, rfl⟩ := Engine.signal_ok.mp hsignal
          rw [← (Prod.mk.inj hend).2, (Engine.resolve_place_ok hresolve).1,
            zeros_ok hzeros]
          rfl

/-- One edge of a scattering loop. -/
theorem scatter_one_ok {scene : Scene α} {number : Nat}
    (h : (Engine.heed place ((program : Program α (Slot α) ω).scatter scene
      place (e.slot program place) number)).perform e = (.ok (), e')) :
    e' = e.postAll (wakingOver scene.graph scene.settings scene.vertex place
      ([number].filter fun n => (scene.graph.edgeAt n).role = .train)) := by
  have hedge : scene.edge number = scene.graph.edgeAt number := rfl
  change (Engine.heed place (scatter scene place (e.slot program place)
    number)).perform e = (.ok (), e') at h
  unfold scatter at h
  simp only [hedge] at h
  cases hrole : (scene.graph.edgeAt number).role with
  | train =>
      simp only [hrole] at h
      rw [rouse_ok h, List.filter_cons_of_pos (by simp [hrole]),
        List.filter_nil]
      congr 1
      have hreaches : reaches scene.graph scene.settings scene.vertex place
          number = scene.settings.withinBudget (scene.vertex
            (Graph.otherEnd (scene.graph.edgeAt number) place)) := rfl
      rw [wakingOver, List.filter_cons, hreaches]
      split <;> rfl
  | validate =>
      simp only [hrole] at h
      rw [List.filter_cons_of_neg (by simp [hrole])]
      exact ((Prod.mk.inj (Engine.heed_ok.mp h).1).2).symm
  | predict =>
      simp only [hrole] at h
      rw [List.filter_cons_of_neg (by simp [hrole])]
      exact ((Prod.mk.inj (Engine.heed_ok.mp h).1).2).symm
  | other label =>
      simp only [hrole] at h
      cases (Engine.heed_ok.mp h).2

/-- Whom a vertex wakes. -/
theorem scatterAt_ok {scene : Scene α} (hscene : e.scene = scene)
    (h : (Engine.scatterAt program place).perform e = (.ok (), e')) :
    e' = e.postAll (scatterPosts scene.graph scene.settings scene.vertex
      place) := by
  obtain ⟨direction, hdirection, hloop⟩ := Engine.scatterAt_ok.mp h
  have hboth : direction = .both := (Except.ok.inj hdirection).symm
  subst hboth
  rw [show e.graph = scene.graph from congrArg Scene.graph hscene] at hloop
  refine Attempt.each_induction (fun seen reached =>
    reached = e.postAll (wakingOver scene.graph scene.settings scene.vertex
      place (seen.filter fun n => (scene.graph.edgeAt n).role = .train)))
    hloop rfl ?_
  intro seen number rest reached next _ hreached hstep
  have hreachedScene : reached.scene = scene := by
    rw [hreached, Engine.scene_postAll, hscene]
  rw [Attempt.perform_get_bind, hreachedScene] at hstep
  rw [scatter_one_ok hstep, hreached, ← Engine.postAll_append]
  congr 1
  simp only [wakingOver]
  rw [← List.map_append, ← List.filter_append, ← List.filter_append]

end Scattering

/-! ## Taking in and applying -/

section Applying

variable {e e' : Engine α (Slot α) ω} {place : Nat}

/-- What a vertex will apply besides its total: a column the message that woke
it, if there was one, and otherwise what its slot holds already. -/
def slotAfterInit (g : Graph α) (place : Nat) (waiting : Inbox α)
    (slot : Slot α) : Slot α :=
  if g.IsColumn place then waiting.message?.or slot else slot

/-- Taking in a message changes the slot of a column and nothing else. -/
theorem initAt_ok {scene : Scene α} (hscene : e.scene = scene)
    {waiting : Inbox α} (hplace : place < e.slots.size)
    (h : (Engine.initAt program place waiting).perform e = (.ok (), e')) :
    e' = { e with
      slots := e.slots.setIfInBounds place (slotAfterInit scene.graph place
        waiting (e.slots.getD place none)) } := by
  have hsame : e.slots.setIfInBounds place (e.slots.getD place none) =
      e.slots := by
    apply Array.ext
    · simp
    · intro i hi _
      rw [Array.getElem_setIfInBounds]
      split
      · rename_i heq
        subst heq
        simp
      · rfl
  cases hwaiting : waiting.message? with
  | none =>
      rw [Engine.initAt_none hwaiting h]
      have hslot : slotAfterInit scene.graph place waiting
          (e.slots.getD place none) = e.slots.getD place none := by
        simp [slotAfterInit, hwaiting]
      rw [hslot, hsame]
  | some message =>
      have h := Engine.initAt_some hwaiting h
      rw [hscene] at h
      change (Engine.heed place (init scene place (e.slot program place)
        message)).perform e = (.ok (), e') at h
      unfold init at h
      by_cases hcolumn : scene.graph.IsColumn place
      · rw [if_pos (show 0 < scene.graph.inDegree place from hcolumn)] at h
        have hslot : slotAfterInit scene.graph place waiting
            (e.slots.getD place none) = some message := by
          simp [slotAfterInit, hcolumn, hwaiting]
        rw [hslot]
        exact ((Prod.mk.inj (Engine.heed_ok.mp h).1).2).symm
      · rw [if_neg (show ¬ 0 < scene.graph.inDegree place from hcolumn)] at h
        have hslot : slotAfterInit scene.graph place waiting
            (e.slots.getD place none) = e.slots.getD place none := by
          simp [slotAfterInit, hcolumn]
        rw [hslot, hsame]
        exact ((Prod.mk.inj (Engine.heed_ok.mp h).1).2).symm

/-- Applying stores the vertex that `applied` gives, empties the slot, and
counts the update. -/
theorem applyAt_ok {scene : Scene α} (hscene : e.scene = scene)
    {total : Step α}
    (h : (Engine.applyAt program place total).perform e = (.ok (), e')) :
    ∃ vertex, applied scene place (e.slots.getD place none) total =
        .ok vertex ∧
      e' = { e with
        vertices := e.vertices.setIfInBounds place vertex
        slots := e.slots.setIfInBounds place none
        updates := e.updates + 1 } := by
  obtain ⟨heeded, hheed, rfl⟩ := Engine.applyAt_ok.mp h
  rw [hscene] at hheed
  change (Engine.heed place (apply scene place (e.slots.getD place none)
    total)).perform e = (.ok (), heeded) at hheed
  unfold apply at hheed
  cases happlied : applied scene place (e.slots.getD place none) total with
  | error cause =>
      rw [happlied] at hheed
      cases (Engine.heed_ok.mp hheed).2
  | ok vertex =>
      rw [happlied] at hheed
      refine ⟨vertex, rfl, ?_⟩
      rw [← (Prod.mk.inj (Engine.heed_ok.mp hheed).1).2]

/-- Whatever is applied, the update is counted. -/
theorem updates_of_applied {scene : Scene α} {sent : Slot α} {total : Step α}
    {vertex : Vertex α} (h : applied scene place sent total = .ok vertex) :
    vertex.updates = (scene.vertex place).updates + 1 := by
  have hmove : ∀ (v : Vertex α) (step : Step α) (w : Vertex α),
      (v.move step).map Vertex.counted = .ok w →
      w.updates = v.updates + 1 := by
    intro v step w hw
    cases hlatent : Vertex.addVectors v.latent step.delta with
    | error cause =>
        simp [Vertex.move, hlatent, bind, Except.bind, Except.map] at hw
    | ok latent =>
        simp [Vertex.move, hlatent, bind, Except.bind, Except.map, pure,
          Except.pure] at hw
        rw [← hw]
        rfl
  unfold applied at h
  dsimp only at h
  split at h
  · split at h
    · cases h
    · exact hmove _ _ _ h
  · split at h
    · rw [← Except.ok.inj h]
      rfl
    · split at h
      · rw [← Except.ok.inj h]
        rfl
      · split at h
        · cases h
        · exact hmove _ _ _ h

end Applying

end Descent

end RatingFactors
