import RatingFactors.Proofs.Descent.Values

/-!
# Turns that go through

With latent vectors and messages of one length there is only one thing left
that can go wrong in a turn: a residual that is no number.  Where the residuals
of the turn are numbers, it goes through.

## Main definitions

* `Poised` — lengths match everywhere in an engine, and only columns keep steps.
* `Sound` — besides, no step waits in a slot.
* `Stumbles` — a row meets a residual that is no number.

## Main results

* `gatherAt_cases` — gathering goes through or stumbles.
* `exists_phases` — the phases go through where residuals are numbers.
* `exists_round`, `exists_activateNext` — rounds and activations that go
  through.
* `Turn.poised`, `Turn.sound` — a turn keeps an engine poised, and sound.
-/

namespace RatingFactors

namespace Descent

open Engine (Post)

variable {α ω : Type} [Scalar α]

/-- A slot holds a step only if it is the slot of a column, and the step has
the right length. -/
structure Loaded (size : Nat) (g : Graph α) (v : Nat) (slot : Slot α) :
    Prop where
  row : ¬ g.IsColumn v → slot = none
  fits : ∀ m ∈ slot, m.Fits size

/-- Lengths match everywhere, and only columns keep steps in their slots.  Work
that failed may have left some there. -/
structure Poised (size : Nat) (e : Engine α (Slot α) ω) : Prop where
  bipartite : e.graph.Bipartite
  sized : e.Sized
  uniform : Uniform e.graph e.settings size e.scene.vertex
  inboxes : ∀ v, (e.inbox v).Fits size
  slots : ∀ v, Loaded size e.graph v (e.slots.getD v none)

/-- Lengths match everywhere, and no step waits in a slot. -/
structure Sound (size : Nat) (e : Engine α (Slot α) ω) : Prop where
  bipartite : e.graph.Bipartite
  sized : e.Sized
  uniform : Uniform e.graph e.settings size e.scene.vertex
  inboxes : ∀ v, (e.inbox v).Fits size
  slots : ∀ v, e.slots.getD v none = none

private theorem loaded_none (size : Nat) (g : Graph α) (v : Nat) :
    Loaded size g v none :=
  ⟨fun _ => rfl, fun _ hm => nomatch hm⟩

theorem Sound.poised {size : Nat} {e : Engine α (Slot α) ω}
    (h : Sound size e) : Poised size e :=
  ⟨h.bipartite, h.sized, h.uniform, h.inboxes, fun v => by
    rw [h.slots v]
    exact loaded_none size e.graph v⟩

theorem Poised.sound {size : Nat} {e : Engine α (Slot α) ω}
    (h : Poised size e) (hslots : ∀ v, e.slots.getD v none = none) :
    Sound size e :=
  ⟨h.bipartite, h.sized, h.uniform, h.inboxes, hslots⟩

/-- The residuals that a vertex meets in its turn are numbers. -/
def Numeric (scene : Scene α) (v : Nat) : Prop :=
  ¬ scene.graph.IsColumn v → ∀ n ∈ scene.graph.trainingAt v,
    Scalar.isNaN (residualAt scene.graph scene.settings scene.vertex v n) =
      false

/-! ## Signals -/

section Signals

variable {e : Engine α (Slot α) ω} {size : Nat}

/-- A message of the right length to a vertex of the engine goes through. -/
theorem signal_of_fits {target : Address} {place : Nat} {m : Step α}
    (hplace : e.resolve target = .ok place) (hbox : (e.inbox place).Fits size)
    (hm : m.Fits size) :
    (Engine.signal target (some m)).perform e =
      (.ok (), e.posted (place, some m)) :=
  Engine.signal_ok.mpr ⟨place, _, hplace, hbox.receive_ok hm, rfl⟩

/-- Posts of the right length leave inboxes of the right length. -/
theorem fits_inbox_postAll {posts : List (Post α)}
    (hlt : ∀ post ∈ posts, post.1 < e.inboxes.size)
    (hposts : ∀ post ∈ posts, ∃ m : Step α, post.2 = some m ∧ m.Fits size)
    (hboxes : ∀ v, (e.inbox v).Fits size) (v : Nat) :
    ((e.postAll posts).inbox v).Fits size := by
  rw [Engine.inbox_postAll hlt]
  have hown : ∀ message ∈ Engine.postsTo v posts,
      ∃ m : Step α, message = some m ∧ m.Fits size := by
    intro message hmessage
    obtain ⟨post, hpost, heq⟩ := List.mem_filterMap.mp hmessage
    split at heq
    · exact Option.some.inj heq ▸ hposts post hpost
    · cases heq
  have hgeneral : ∀ (messages : List (Option (Step α))) (b : Inbox α),
      (∀ message ∈ messages, ∃ m, message = some m ∧ m.Fits size) →
      b.Fits size → (messages.foldl Inbox.put b).Fits size := by
    intro messages
    induction messages with
    | nil => exact fun b _ hb => hb
    | cons message rest ih =>
        intro b hmessages hb
        obtain ⟨m, rfl, hm⟩ := hmessages message (by simp)
        exact ih _ (fun other hother => hmessages other (by simp [hother]))
          (hb.put hm)
  exact hgeneral _ _ hown (hboxes v)

theorem gatherPosts_fit {g : Graph α} {s : Settings α}
    {look : Nat → Vertex α} {v : Nat} (hu : Uniform g s size look)
    (hg : g.Faithful) (hv : v < g.size) :
    ∀ post ∈ gatherPosts g s look v,
      ∃ m : Step α, post.2 = some m ∧ m.Fits size := by
  intro post hpost
  unfold gatherPosts postsOver at hpost
  split at hpost
  · exact absurd hpost List.not_mem_nil
  · obtain ⟨n, hn, rfl⟩ := List.mem_map.mp hpost
    exact ⟨_, rfl, hu.sentStep_fits hg hv n (List.mem_filter.mp hn).1⟩

private theorem scatterPosts_fit {g : Graph α} {s : Settings α}
    {look later : Nat → Vertex α} {v : Nat} (hu : Uniform g s size look) :
    ∀ post ∈ scatterPosts g s later v,
      ∃ m : Step α, post.2 = some m ∧ m.Fits size := by
  intro post hpost
  obtain ⟨n, -, rfl⟩ := List.mem_map.mp hpost
  exact ⟨_, rfl, hu.stillStep_fits⟩

end Signals

/-! ## The phases -/

section Phases

variable {e : Engine α (Slot α) ω} {size v : Nat}

/-- Taking in a message always goes through. -/
private theorem exists_initAt (e : Engine α (Slot α) ω) (v : Nat)
    (waiting : Inbox α) :
    ∃ e', (Engine.initAt program v waiting).perform e = (.ok (), e') := by
  unfold Engine.initAt
  cases waiting.message? with
  | none => exact ⟨e, rfl⟩
  | some m =>
      change ∃ e', (Engine.heed v (init e.scene v (e.slot program v)
        m)).perform e = (.ok (), e')
      unfold init
      split
      · exact ⟨_, Engine.heed_ok.mpr
          ⟨Attempt.perform_each_cons_ok.mpr ⟨_, rfl, rfl⟩, rfl⟩⟩
      · exact ⟨e, Engine.heed_ok.mpr ⟨rfl, rfl⟩⟩

/-- Actions that only note something down go through. -/
private theorem exists_each_note (place : Nat)
    {actions : List (Action α (Slot α) ω)}
    (hnotes : ∀ action ∈ actions, ∃ content, action = .note content)
    (e : Engine α (Slot α) ω) :
    ∃ e', (Attempt.each actions (Engine.carryOut place)).perform e =
      (.ok (), e') := by
  induction actions generalizing e with
  | nil => exact ⟨e, rfl⟩
  | cons action rest ih =>
      obtain ⟨content, rfl⟩ := hnotes action (by simp)
      obtain ⟨e', hrest⟩ := ih (fun other hother => hnotes other
        (by simp [hother])) (e.noted (e.notes.push content))
      exact ⟨e', Attempt.perform_each_cons_ok.mpr ⟨_, rfl, hrest⟩⟩

/-- What a training edge contributes when lengths match; a residual that is no
number is the only thing that can go wrong. -/
private theorem contribution_eq {scene : Scene α} {n : Nat}
    (hlength : (scene.vertex v).latent.length =
      (scene.vertex (across scene.graph v n)).latent.length) :
    contribution scene v n =
      if Scalar.isNaN (residualAt scene.graph scene.settings scene.vertex v n)
      then .error (.nanResidual
        (scene.graph.idAt (scene.graph.edgeAt n).source)
        (scene.graph.idAt (scene.graph.edgeAt n).target))
      else .ok (⟨ownStep scene.graph scene.settings scene.vertex v n,
        if reaches scene.graph scene.settings scene.vertex v n then
          some ⟨scene.graph.idAt (across scene.graph v n),
            sentStep scene.graph scene.settings scene.vertex v n⟩
        else none⟩,
        residualAt scene.graph scene.settings scene.vertex v n) := by
  have hpredict : scene.settings.predict (scene.vertex v)
      (scene.vertex (Graph.otherEnd (scene.edge n) v)) =
      .ok (scene.settings.clamp (scene.settings.globalMean +
        (scene.vertex v).bias + (scene.vertex (across scene.graph v n)).bias +
        Scalar.dot (scene.vertex v).latent
          (scene.vertex (across scene.graph v n)).latent)) := by
    rw [Settings.predict]
    exact if_pos hlength
  unfold contribution
  simp only [hpredict, bind, Except.bind]
  rfl

/-- What the phases see, when lengths match everywhere. -/
structure Fitting (size : Nat) (scene : Scene α) : Prop where
  bipartite : scene.graph.Bipartite
  uniform : Uniform scene.graph scene.settings size scene.vertex

/-- The engine shows a scene, and its inboxes can take messages. -/
structure Shows (size : Nat) (scene : Scene α) (e : Engine α (Slot α) ω) :
    Prop where
  scene_eq : e.scene = scene
  inboxes_size : e.inboxes.size = scene.graph.size
  inboxes : ∀ v, (e.inbox v).Fits size

theorem Shows.noted {scene : Scene α} (h : Shows size scene e)
    (notes : Array (Note ω)) : Shows size scene (e.noted notes) :=
  ⟨h.scene_eq, h.inboxes_size, h.inboxes⟩

theorem Shows.postAll {scene : Scene α} (h : Shows size scene e)
    {posts : List (Post α)} (hlt : ∀ post ∈ posts, post.1 < scene.graph.size)
    (hposts : ∀ post ∈ posts, ∃ m : Step α, post.2 = some m ∧ m.Fits size) :
    Shows size scene (e.postAll posts) where
  scene_eq := (Engine.scene_postAll e posts).trans h.scene_eq
  inboxes_size := (Engine.inboxes_size_postAll e posts).trans h.inboxes_size
  inboxes := fits_inbox_postAll (h.inboxes_size ▸ hlt) hposts h.inboxes

theorem Shows.posted {scene : Scene α} (h : Shows size scene e) {w : Nat}
    (hw : w < scene.graph.size) {m : Step α} (hm : m.Fits size) :
    Shows size scene (e.posted (w, some m)) := by
  have hsingle := @Shows.postAll α ω _ e size scene h [(w, some m)]
  apply hsingle
  · intro post hpost
    rw [List.mem_singleton.mp hpost]
    exact hw
  · intro post hpost
    rw [List.mem_singleton.mp hpost]
    exact ⟨m, rfl, hm⟩

/-- A contribution that can be added and whose message can be delivered. -/
structure Deliverable (size : Nat) (g : Graph α) (c : Contribution α) :
    Prop where
  step : c.step = .empty ∨ c.step.Fits size
  outgoing : ∀ m ∈ c.outgoing, ∃ w < g.size,
    m.target = g.idAt w ∧ m.payload.Fits size

private theorem deliverable_nothing (g : Graph α) :
    Deliverable size g .nothing :=
  ⟨.inl rfl, fun _ hm => nomatch hm⟩

/-- The failure of a row that meets a training edge whose residual is no
number. -/
def ResidualFault (scene : Scene α) (v : Nat) (cause : Failure) : Prop :=
  ¬ scene.graph.IsColumn v ∧ ∃ n ∈ scene.graph.trainingAt v,
    Scalar.isNaN (residualAt scene.graph scene.settings scene.vertex v n) =
      true ∧
    cause = .nanResidual (scene.graph.idAt (scene.graph.edgeAt n).source)
      (scene.graph.idAt (scene.graph.edgeAt n).target)

/-- Of some training edges a row has gone over the first ones, and the residual
of the next is no number. -/
structure Stumbles (scene : Scene α) (v : Nat) (train done : List Nat)
    (n : Nat) (cause : Failure) : Prop where
  row : ¬ scene.graph.IsColumn v
  split : ∃ later, train = done ++ n :: later
  number : ∀ m ∈ done, Scalar.isNaN (residualAt scene.graph scene.settings
    scene.vertex v m) = false
  nan : Scalar.isNaN (residualAt scene.graph scene.settings scene.vertex v n) =
    true
  cause_eq : cause =
    .nanResidual (scene.graph.idAt (scene.graph.edgeAt n).source)
      (scene.graph.idAt (scene.graph.edgeAt n).target)

theorem Stumbles.mem_train {scene : Scene α} {train done : List Nat}
    {n m : Nat} {cause : Failure} (h : Stumbles scene v train done n cause)
    (hm : m ∈ done) : m ∈ train := by
  obtain ⟨later, hsplit⟩ := h.split
  rw [hsplit]
  exact List.mem_append_left _ hm

theorem Stumbles.fault {scene : Scene α} {train done : List Nat} {n : Nat}
    {cause : Failure} (h : Stumbles scene v train done n cause)
    (htrain : ∀ m ∈ train, m ∈ scene.graph.trainingAt v) :
    ResidualFault scene v cause := by
  obtain ⟨later, hsplit⟩ := h.split
  exact ⟨h.row, n, htrain n (by simp [hsplit]), h.nan, h.cause_eq⟩

/-- A row that stumbles later on has gone over all edges before. -/
theorem Stumbles.after {scene : Scene α} {train done seen : List Nat} {n : Nat}
    {cause : Failure} (h : Stumbles scene v train done n cause)
    (hseen : ∀ m ∈ seen, Scalar.isNaN (residualAt scene.graph scene.settings
      scene.vertex v m) = false) :
    Stumbles scene v (seen ++ train) (seen ++ done) n cause := by
  obtain ⟨later, hsplit⟩ := h.split
  refine ⟨h.row, ⟨later, by rw [hsplit, List.append_assoc]⟩, fun m hm => ?_,
    h.nan, h.cause_eq⟩
  exact (List.mem_append.mp hm).elim (hseen m) (h.number m)

/-- What comes after the edge at which a row stumbles does not matter. -/
theorem Stumbles.before {scene : Scene α} {train done : List Nat} {n : Nat}
    {cause : Failure} (h : Stumbles scene v train done n cause)
    (more : List Nat) : Stumbles scene v (train ++ more) done n cause := by
  obtain ⟨later, hsplit⟩ := h.split
  exact ⟨h.row, ⟨later ++ more, by rw [hsplit]; simp⟩, h.number, h.nan,
    h.cause_eq⟩

/-- Where residuals are numbers nobody stumbles. -/
theorem Numeric.not_stumbles {scene : Scene α} (h : Numeric scene v)
    {train done : List Nat} {n : Nat} {cause : Failure}
    (htrain : ∀ m ∈ train, m ∈ scene.graph.trainingAt v) :
    ¬ Stumbles scene v train done n cause := by
  intro hstumbles
  obtain ⟨hrow, m, hm, hnan, -⟩ := hstumbles.fault htrain
  rw [h hrow m hm] at hnan
  cases hnan

/-- What one edge answers when lengths match. -/
theorem gather_cases {scene : Scene α} (hf : Fitting size scene)
    (hv : v < scene.graph.size) {n : Nat}
    (hn : n ∈ scene.graph.incident v .both) (slot : Slot α) :
    (∃ c, ((program : Program α (Slot α) ω).gather scene v slot n).answer =
        .ok c ∧ Deliverable size scene.graph c) ∨
      ∃ cause, (program : Program α (Slot α) ω).gather scene v slot n =
        .fail cause ∧ (scene.graph.edgeAt n).role = .train ∧
        Stumbles scene v [n] [] n cause := by
  have hg := hf.bipartite.toFaithful
  have hlt := ((hf.bipartite.mem_incident_both hv).mp hn).1
  have hedge : scene.edge n = scene.graph.edgeAt n := rfl
  change (∃ c, (gather (ω := ω) scene v slot n).answer = .ok c ∧ _) ∨
    ∃ cause, gather (ω := ω) scene v slot n = .fail cause ∧ _
  unfold gather
  by_cases hcolumn : scene.graph.IsColumn v
  · rw [if_pos (show 0 < scene.graph.inDegree v from hcolumn)]
    exact .inl ⟨.nothing, rfl, deliverable_nothing _⟩
  · rw [if_neg (show ¬ 0 < scene.graph.inDegree v from hcolumn)]
    simp only [hedge]
    cases hrole : (scene.graph.edgeAt n).role with
    | validate => exact .inl ⟨.nothing, rfl, deliverable_nothing _⟩
    | predict => exact .inl ⟨.nothing, rfl, deliverable_nothing _⟩
    | other label =>
        have hknown := hf.bipartite.known n hlt
        rw [hrole] at hknown
        cases hknown
    | train =>
        have htrain : n ∈ scene.graph.trainingAt v :=
          List.mem_filter.mpr ⟨hn, by simp [hrole]⟩
        have hw := across_lt hg hv htrain
        rw [contribution_eq
          ((hf.uniform.latent v hv).trans (hf.uniform.latent _ hw).symm)]
        cases hnan : Scalar.isNaN (residualAt scene.graph scene.settings
            scene.vertex v n) with
        | true =>
            exact .inr ⟨_, rfl, rfl, hcolumn, ⟨[], rfl⟩, by simp, hnan, rfl⟩
        | false =>
            refine .inl ⟨_, rfl, ?_, fun m hm => ?_⟩
            · exact .inr (hf.uniform.ownStep_fits hg hv n htrain)
            · split at hm
              · rw [← Option.some.inj hm]
                exact ⟨_, hw, rfl, hf.uniform.sentStep_fits hg hv n htrain⟩
              · cases hm

/-- A message that an edge asks for goes through. -/
private theorem exists_deliver {scene : Scene α} (hf : Fitting size scene)
    (hshows : Shows size scene e) {c : Contribution α}
    (hc : Deliverable size scene.graph c) :
    ∃ e', (match c.outgoing with
      | none => e' = e
      | some m => (Engine.signal (.id m.target) (some m.payload)).perform e =
          (.ok (), e')) ∧ Shows size scene e' := by
  cases hout : c.outgoing with
  | none => exact ⟨e, rfl, hshows⟩
  | some m =>
      obtain ⟨w, hw, htarget, hpayload⟩ := hc.outgoing m hout
      have hplace : e.resolve (.id m.target) = .ok w := by
        rw [htarget]
        change e.scene.graph.placeOf _ = .ok w
        rw [hshows.scene_eq]
        exact hf.bipartite.placeOf_idAt w hw
      exact ⟨_, signal_of_fits hplace (hshows.inboxes w) hpayload,
        hshows.posted hw hpayload⟩

/-- Gathering goes through when lengths match, unless the vertex stumbles.  Then
it has posted what the edges before asked for. -/
theorem gatherOver_cases {scene : Scene α} (hf : Fitting size scene)
    (hshows : Shows size scene e) (hv : v < scene.graph.size)
    {numbers : List Nat}
    (hnumbers : ∀ n ∈ numbers, n ∈ scene.graph.incident v .both)
    {total : Step α} (htotal : total = .empty ∨ total.Fits size) :
    (∃ result e', (Engine.gatherOver program v numbers total).perform e =
        (.ok result, e')) ∨
      ∃ cause done n notes,
        (Engine.gatherOver program v numbers total).perform e =
          (.error cause, (e.postAll (postsOver scene.graph scene.settings
            scene.vertex v done)).noted notes) ∧
        Stumbles scene v (numbers.filter fun n =>
          (scene.graph.edgeAt n).role = .train) done n cause := by
  have hg := hf.bipartite.toFaithful
  induction numbers generalizing e total with
  | nil => exact .inl ⟨total, e, rfl⟩
  | cons n rest ih =>
      have hn := hnumbers n (by simp)
      have hsplit : (n :: rest).filter (fun n =>
          (scene.graph.edgeAt n).role = .train) =
          [n].filter (fun n => (scene.graph.edgeAt n).role = .train) ++
            rest.filter fun n => (scene.graph.edgeAt n).role = .train :=
        List.filter_append [n] rest
      rw [hsplit]
      rcases gather_cases (ω := ω) hf hv hn (e.slot program v) with
        ⟨c, hanswer, hc⟩ | ⟨cause, hfail, hrole, hstumbles⟩
      · have hactions := gather_actions (ω := ω) scene v
          (e.slot program v) n
        obtain ⟨heeded, hnoted⟩ := exists_each_note v hactions e
        obtain ⟨notes, rfl⟩ := each_note_ok hactions hnoted
        have hproper : total.Proper := by
          rcases htotal with rfl | htotal
          · exact Step.proper_empty
          · exact htotal.proper
        have hnext : ∃ next, total.add c.step = .ok next ∧
            (next = .empty ∨ next.Fits size) := by
          rcases htotal with rfl | htotal
          · exact ⟨c.step, Step.empty_add c.step, hc.step⟩
          · rcases hc.step with hstep | hstep
            · refine ⟨total, ?_, .inr htotal⟩
              unfold Step.add
              split
              · rename_i hempty
                rw [hstep, htotal.proper hempty]
              · rw [hstep]
                rfl
            · exact ⟨_, htotal.add_ok hstep, .inr (htotal.plus hstep)⟩
        obtain ⟨next, hadd, hnextFits⟩ := hnext
        obtain ⟨sent, hsent, hsentShows⟩ :=
          exists_deliver hf (hshows.noted notes) hc
        have hheed : (Engine.heed v (program.gather scene v
            (e.slot program v) n)).perform e = (.ok c, e.noted notes) :=
          Engine.heed_ok.mpr ⟨hnoted, hanswer⟩
        rw [Engine.perform_gatherOver_cons (hshows.scene_eq.symm ▸ hheed) hadd
          hsent]
        rcases ih hsentShows (fun n hn => hnumbers n (by simp [hn]))
          hnextFits with hok | ⟨cause, done, m, later, hover, hstumbles⟩
        · exact .inl hok
        · obtain ⟨-, -, ⟨notes', hposts⟩, hnumber⟩ :=
            gather_one_ok hshows.scene_eq hg hstumbles.row
              ((hg.mem_incident_both hv).mp hn).1 hproper hheed hadd hsent
          refine .inr ⟨cause, _, m, later, ?_, hstumbles.after hnumber⟩
          rw [hover, hposts, Engine.postAll_noted, Engine.noted_noted,
            ← Engine.postAll_append, postsOver_append]
      · have hnothing : postsOver scene.graph scene.settings scene.vertex v
            [] = [] := by
          simp [postsOver]
        refine .inr ⟨cause, [], n, e.notes, ?_, ?_⟩
        · rw [Engine.gatherOver, Attempt.perform_get_bind, hshows.scene_eq,
            hfail, hnothing]
          rfl
        · rw [List.filter_cons_of_pos (by simp [hrole])]
          exact hstumbles.before _

/-- So does gathering over all edges at a vertex, and it goes on showing the
scene. -/
theorem gatherAt_cases {scene : Scene α} (hf : Fitting size scene)
    (hshows : Shows size scene e) (hv : v < scene.graph.size) :
    (∃ total e', (Engine.gatherAt program v).perform e = (.ok total, e') ∧
        Shows size scene e') ∨
      ∃ cause done n notes, (Engine.gatherAt program v).perform e =
          (.error cause, (e.postAll (postsOver scene.graph scene.settings
            scene.vertex v done)).noted notes) ∧
        Stumbles scene v (scene.graph.trainingAt v) done n cause := by
  have hg := hf.bipartite.toFaithful
  have hgraph : e.graph = scene.graph := congrArg Scene.graph hshows.scene_eq
  have hall : ∀ n ∈ scene.graph.incident v .both,
      n ∈ scene.graph.incident v .both := fun _ hn => hn
  have hgather : (Engine.gatherAt program v).perform e =
      (Engine.gatherOver program v (scene.graph.incident v .both)
        Step.empty).perform e := by
    rw [← hgraph]
    rfl
  rw [hgather]
  rcases gatherOver_cases hf hshows hv hall (.inl rfl) with
    ⟨total, e', hover⟩ | hstumbles
  · obtain ⟨-, ⟨notes, rfl⟩, -⟩ :=
      gatherAt_ok hshows.scene_eq hg hv (hgather.trans hover)
    exact .inl ⟨total, _, hover, (hshows.postAll (gatherPosts_lt hg hv)
      (gatherPosts_fit hf.uniform hg hv)).noted notes⟩
  · exact .inr hstumbles

/-- Applying goes through if what a vertex applies has a value. -/
private theorem exists_applyAt {total : Step α} {vertex : Vertex α}
    (happlied : applied e.scene v (e.slots.getD v none) total = .ok vertex) :
    ∃ e', (Engine.applyAt program v total).perform e = (.ok (), e') := by
  have hheed : ∃ e', (Engine.heed v (apply e.scene v (e.slots.getD v none)
      total)).perform e = (.ok (), e') := by
    rw [apply, happlied]
    exact ⟨_, Engine.heed_ok.mpr ⟨rfl, rfl⟩⟩
  obtain ⟨e', he⟩ := hheed
  exact ⟨_, Engine.applyAt_ok.mpr ⟨e', he, rfl⟩⟩

/-- Waking a vertex goes through. -/
theorem exists_rouse {scene : Scene α} (hf : Fitting size scene)
    (hshows : Shows size scene e) {own w : Nat} (hw : w < scene.graph.size) :
    ∃ e', (Engine.heed own (rouse scene w : Reply α (Slot α) ω Unit)).perform
        e = (.ok (), e') ∧ Shows size scene e' := by
  have hzeros : Step.zeros scene.settings.dimension =
      .ok (stillStep scene.settings) := by
    rw [Step.zeros, hf.uniform.dimension, if_neg (by omega), stillStep,
      hf.uniform.dimension]
  unfold rouse
  split
  · rw [hzeros]
    dsimp only
    have hplace : e.resolve (.place w) = .ok w := by
      change (if w < e.scene.graph.size then _ else _) = _
      rw [hshows.scene_eq, if_pos hw]
    have hsignal := signal_of_fits hplace (hshows.inboxes w)
      hf.uniform.stillStep_fits
    exact ⟨_, Engine.heed_ok.mpr ⟨Attempt.each_singleton.mpr hsignal, rfl⟩,
      hshows.posted hw hf.uniform.stillStep_fits⟩
  · exact ⟨e, Engine.heed_ok.mpr ⟨rfl, rfl⟩, hshows⟩

/-- Scattering goes through, and goes on showing the scene. -/
private theorem exists_scatterAt {scene : Scene α} (hf : Fitting size scene)
    (hshows : Shows size scene e) (hv : v < scene.graph.size) :
    ∃ e', (Engine.scatterAt program v).perform e = (.ok (), e') ∧
      Shows size scene e' := by
  have hgraph : e.graph = scene.graph := congrArg Scene.graph hshows.scene_eq
  have hloop : ∃ e', (Attempt.each (scene.graph.incident v .both)
      fun number => do
        let e ← get
        Engine.heed v ((program : Program α (Slot α) ω).scatter e.scene v
          (e.slot program v) number)).perform e = (.ok (), e') ∧
        Shows size scene e' := by
    refine Attempt.exists_each _ _
      (fun _ reached => Shows size scene reached) hshows ?_
    intro seen n rest reached hnumbers hreached
    have hn : n ∈ scene.graph.incident v .both := by simp [hnumbers]
    have hlt := ((hf.bipartite.mem_incident_both hv).mp hn).1
    have hedge : scene.edge n = scene.graph.edgeAt n := rfl
    have hdone : ∃ next, (Engine.heed v (.done () : Reply α (Slot α) ω
        Unit)).perform reached = (.ok (), next) ∧ Shows size scene next :=
      ⟨reached, Engine.heed_ok.mpr ⟨rfl, rfl⟩, hreached⟩
    rw [Attempt.perform_get_bind, hreached.scene_eq]
    change ∃ next, (Engine.heed v (scatter scene v (reached.slot program v)
      n)).perform reached = (.ok (), next) ∧ _
    unfold scatter
    simp only [hedge]
    cases hrole : (scene.graph.edgeAt n).role with
    | validate => exact hdone
    | predict => exact hdone
    | other label =>
        have hknown := hf.bipartite.known n hlt
        rw [hrole] at hknown
        cases hknown
    | train => exact exists_rouse hf hreached (hf.bipartite.otherEnd_lt hlt)
  obtain ⟨e', he, hshows'⟩ := hloop
  rw [← hgraph] at he
  exact ⟨e', Engine.scatterAt_ok.mpr ⟨.both, rfl, he⟩, hshows'⟩

end Phases

/-! ## Whole turns -/

section Turns

variable {before after : Engine α (Slot α) ω} {order : List Nat}
  {waiting : Nat → Inbox α} {size : Nat}

theorem Poised.fitting {e : Engine α (Slot α) ω} (h : Poised size e) :
    Fitting size e.scene :=
  ⟨h.bipartite, h.uniform⟩

/-- What a slot holds after its vertex has taken in what waited. -/
theorem Loaded.afterInit {g : Graph α} {v : Nat} {slot : Slot α}
    (h : Loaded size g v slot) {b : Inbox α} (hb : b.Fits size) :
    Loaded size g v (slotAfterInit g v b slot) := by
  unfold slotAfterInit
  split
  · rename_i hcolumn
    refine ⟨fun hrow => absurd hcolumn hrow, fun m hm => ?_⟩
    cases hwaiting : b.message? with
    | none =>
        rw [hwaiting] at hm
        exact h.fits m hm
    | some waiting =>
        rw [hwaiting] at hm
        exact Option.some.inj hm ▸ hb waiting (by rw [hwaiting]; rfl)
  · exact h

/-- What a vertex applies, whatever its slot may hold. -/
theorem Loaded.applied {scene : Scene α} (hf : Fitting size scene) {v : Nat}
    (hv : v < scene.graph.size) {slot : Slot α}
    (h : Loaded size scene.graph v slot) :
    applied scene v slot
        (gatherTotal scene.graph scene.settings scene.vertex v) =
      .ok (settled (scene.vertex v)
        (intake scene.graph scene.settings scene.vertex slot v)) := by
  have hintake := hf.uniform.intake_fits hf.bipartite.toFaithful hv h.fits
  rw [← hf.uniform.latent v hv] at hintake
  exact applied_eq_settled hf.bipartite hv h.row hintake

/-- What an inbox holds for a column fits. -/
theorem fits_intake {scene : Scene α} (hf : Fitting size scene) {v : Nat}
    (hv : v < scene.graph.size) {sent : Slot α}
    (hsent : ∀ m ∈ sent, m.Fits size) :
    intake scene.graph scene.settings scene.vertex sent v = .empty ∨
      (intake scene.graph scene.settings scene.vertex sent v).Fits
        (scene.vertex v).latent.length := by
  rw [hf.uniform.latent v hv]
  exact hf.uniform.intake_fits hf.bipartite.toFaithful hv hsent

/-- Settling some vertices keeps all lengths. -/
theorem Fitting.of_settled {scene scene' : Scene α} (hf : Fitting size scene)
    (hgraph : scene'.graph = scene.graph)
    (hsettings : scene'.settings = scene.settings)
    (order : List Nat) (sent : Nat → Slot α)
    (hsent : ∀ v ∈ order, ∀ m ∈ sent v, m.Fits size)
    (hmem : ∀ v ∈ order, scene'.vertex v = settled (scene.vertex v)
      (intake scene.graph scene.settings scene.vertex (sent v) v))
    (hother : ∀ v, v ∉ order → scene'.vertex v = scene.vertex v) :
    Fitting size scene' := by
  refine ⟨hgraph ▸ hf.bipartite, ?_, fun v hv => ?_⟩
  · rw [hsettings]
    exact hf.uniform.dimension
  · rw [hgraph] at hv
    by_cases hin : v ∈ order
    · rw [hmem v hin,
        length_latent_settled (fits_intake hf hv (hsent v hin)),
        hf.uniform.latent v hv]
    · rw [hother v hin, hf.uniform.latent v hv]

/-- Taking in goes through for a whole turn. -/
theorem exists_each_initAt (before : Engine α (Slot α) ω) (order : List Nat)
    (waiting : Nat → Inbox α) :
    ∃ taken, (Attempt.each order fun v =>
      Engine.initAt program v (waiting v)).perform before =
      (.ok (), taken) := by
  induction order generalizing before with
  | nil => exact ⟨before, rfl⟩
  | cons v rest ih =>
      obtain ⟨next, hnext⟩ := exists_initAt before v (waiting v)
      obtain ⟨taken, hrest⟩ := ih next
      exact ⟨taken, Attempt.perform_each_cons_ok.mpr ⟨next, hnext, hrest⟩⟩

/-- Applying goes through for a whole turn. -/
private theorem exists_each_applyAt (hf : Fitting size before.scene)
    (hvertices : before.vertices.size = before.graph.size)
    (hslotsSize : before.slots.size = before.graph.size)
    (hnodup : order.Nodup) (hlt : ∀ v ∈ order, v < before.graph.size)
    (hslots : ∀ v ∈ order,
      Loaded size before.graph v (before.slots.getD v none)) :
    ∃ after, (Attempt.each (order.map fun v => (v, gatherTotal before.graph
        before.settings before.scene.vertex v)) fun (v, total) =>
      Engine.applyAt program v total).perform before = (.ok (), after) ∧
      Stored before (gatherTotal before.graph before.settings
        before.scene.vertex) order after := by
  rw [Attempt.each_map]
  refine Attempt.exists_each order _ _ (.start _ hvertices hslotsSize) ?_
  intro seen v rest reached horder hreached
  have hv : v ∉ seen := not_mem_seen hnodup horder
  have hvorder : v ∈ order := by simp [horder]
  have hvalue : applied reached.scene v (reached.slots.getD v none)
      (gatherTotal before.graph before.settings before.scene.vertex v) =
      .ok (settled (before.scene.vertex v) (intake before.graph
        before.settings before.scene.vertex (before.slots.getD v none) v)) := by
    rw [applied_congr hreached.graph_eq (hreached.vertex_not_mem v hv),
      hreached.slot_not_mem v hv]
    exact (hslots v hvorder).applied hf (hlt v hvorder)
  obtain ⟨next, hnext⟩ := exists_applyAt hvalue
  exact ⟨next, hnext, hreached.snoc hv (hlt v hvorder) hnext⟩

/-- Taking in and gathering go through for a whole turn when the residuals of
its vertices are numbers. -/
private theorem exists_gathered (hs : Poised size before)
    (waiting : Nat → Inbox α) (hnodup : order.Nodup)
    (hlt : ∀ v ∈ order, v < before.graph.size)
    (hnumeric : ∀ v ∈ order, Numeric before.scene v) :
    ∃ taken totals gathered,
      (Attempt.each order fun v =>
        Engine.initAt program v (waiting v)).perform before =
        (.ok (), taken) ∧
      (Attempt.collect order (Engine.gatherAt program)).perform taken =
        (.ok totals, gathered) ∧
      Shows size before.scene gathered := by
  obtain ⟨taken, hinit⟩ := exists_each_initAt before order waiting
  obtain ⟨htaken, -, -, -⟩ := each_initAt_ok hs.sized hnodup hlt hinit
  have htakenShows : Shows size before.scene taken := by
    rw [htaken]
    exact ⟨rfl, hs.sized.inboxes, hs.inboxes⟩
  obtain ⟨totals, gathered, hgather, hshows⟩ := Attempt.exists_collect
    order (Engine.gatherAt program)
    (fun _ reached => Shows size before.scene reached) htakenShows
    fun seen v rest reached horder hreached => by
      have hv : v ∈ order := by simp [horder]
      refine (gatherAt_cases hs.fitting hreached (hlt v hv)).resolve_right ?_
      rintro ⟨cause, done, n, notes, -, hstumbles⟩
      exact (hnumeric v hv).not_stumbles (fun _ hm => hm) hstumbles
  exact ⟨taken, totals, gathered, hinit, hgather, hshows⟩

/-- Scattering goes through for a whole turn. -/
private theorem exists_each_scatterAt (hf : Fitting size before.scene)
    (hshows : Shows size before.scene before)
    (hlt : ∀ v ∈ order, v < before.graph.size) :
    ∃ after, (Attempt.each order (Engine.scatterAt program)).perform before =
      (.ok (), after) := by
  obtain ⟨after, hafter, -⟩ := Attempt.exists_each order
    (Engine.scatterAt program)
    (fun _ reached => Shows size before.scene reached) hshows
    fun seen v rest reached horder hreached =>
      exists_scatterAt hf hreached (hlt v (by simp [horder]))
  exact ⟨after, hafter⟩

/-- Once a whole turn has been stored, the model still fits. -/
theorem Stored.fitting {reached : Engine α (Slot α) ω}
    (h : Stored before (gatherTotal before.scene.graph before.scene.settings
      before.scene.vertex) order reached)
    (hf : Fitting size before.scene)
    (hlt : ∀ v ∈ order, v < before.graph.size)
    (hslots : ∀ v ∈ order,
      Loaded size before.graph v (before.slots.getD v none)) :
    Fitting size reached.scene := by
  refine hf.of_settled ?_ ?_ order (fun v => before.slots.getD v none)
    (fun v hv => (hslots v hv).fits) (fun v hv => ?_) h.vertex_not_mem
  · rw [h.eq]
    rfl
  · rw [h.eq]
    rfl
  · have happlied := (hslots v hv).applied hf (hlt v hv)
    exact (Except.ok.inj (happlied.symm.trans (h.vertex_mem v hv))).symm

/-- Storing leaves the inboxes alone. -/
theorem Stored.shows {scene : Scene α} {total : Nat → Step α}
    {reached : Engine α (Slot α) ω} (h : Stored before total order reached)
    (hshows : Shows size scene before) :
    Shows size reached.scene reached := by
  have hinboxes : reached.inboxes = before.inboxes := by
    rw [h.eq]
    rfl
  have hgraph : reached.scene.graph = scene.graph :=
    h.graph_eq.trans (congrArg Scene.graph hshows.scene_eq)
  refine ⟨rfl, ?_, fun v => ?_⟩
  · rw [hinboxes, hgraph, hshows.inboxes_size]
  · rw [show reached.inbox v = before.inbox v from
      congrArg (fun inboxes => inboxes.getD v .idle) hinboxes]
    exact hshows.inboxes v

/-- A turn goes through when the residuals of its vertices are numbers. -/
theorem exists_phases (hs : Poised size before) (hnodup : order.Nodup)
    (hlt : ∀ v ∈ order, v < before.graph.size)
    (hwaiting : ∀ v, (waiting v).Fits size)
    (hnumeric : ∀ v ∈ order, Numeric before.scene v) :
    ∃ taken totals gathered applying after,
      (Attempt.each order fun v =>
        Engine.initAt program v (waiting v)).perform before =
        (.ok (), taken) ∧
      (Attempt.collect order (Engine.gatherAt program)).perform taken =
        (.ok totals, gathered) ∧
      (Attempt.each (order.zip totals) fun (v, total) =>
        Engine.applyAt program v total).perform gathered =
        (.ok (), applying) ∧
      (Attempt.each order (Engine.scatterAt program)).perform applying =
        (.ok (), after) := by
  obtain ⟨taken, totals, gathered, hinit, hgather, hshows⟩ :=
    exists_gathered hs waiting hnodup hlt hnumeric
  obtain ⟨htotals, -, hslotsSize, hslotMem, -, -⟩ :=
    gathered_ok hs.sized hs.bipartite.toFaithful hnodup hlt hinit hgather
  have hscene := hshows.scene_eq
  have hgraph : gathered.graph = before.graph := congrArg Scene.graph hscene
  have hvertices : gathered.vertices.size = before.graph.size :=
    (congrArg (fun scene => scene.vertices.size) hscene).trans
      hs.sized.vertices
  have hslots : ∀ v ∈ order,
      Loaded size before.graph v (gathered.slots.getD v none) := by
    intro v hv
    rw [hslotMem v hv]
    exact (hs.slots v).afterInit (hwaiting v)
  -- From here on everything is said of the model as it was gathered from.
  have hfitting : Fitting size gathered.scene := hscene ▸ hs.fitting
  have htotals' : totals = order.map (gatherTotal gathered.graph
      gathered.settings gathered.scene.vertex) :=
    htotals.trans (congrArg (fun scene : Scene α => order.map
      (gatherTotal scene.graph scene.settings scene.vertex)) hscene.symm)
  rw [← hgraph] at hlt hslotsSize hvertices hslots
  obtain ⟨applying, happly, hstored⟩ := exists_each_applyAt hfitting hvertices
    hslotsSize hnodup hlt hslots
  have happlyingGraph : applying.graph = gathered.graph := hstored.graph_eq
  obtain ⟨after, hscatter⟩ := exists_each_scatterAt
    (hstored.fitting hfitting hlt hslots) (hstored.shows hshows)
    (happlyingGraph ▸ hlt)
  refine ⟨taken, totals, gathered, applying, after, hinit, hgather, ?_,
    hscatter⟩
  rw [htotals', zip_map_self]
  exact happly

/-- A turn posts messages of the right length. -/
theorem turnPosts_fit {g : Graph α} {s : Settings α}
    {look later : Nat → Vertex α} (hu : Uniform g s size look)
    (hg : g.Faithful) (hlt : ∀ v ∈ order, v < g.size) :
    ∀ post ∈ turnPosts g s look later order,
      ∃ m : Step α, post.2 = some m ∧ m.Fits size := by
  intro post hpost
  rcases List.mem_append.mp hpost with hpost | hpost
  · obtain ⟨v, hv, hpost⟩ := List.mem_flatMap.mp hpost
    exact gatherPosts_fit hu hg (hlt v hv) post hpost
  · obtain ⟨v, -, hpost⟩ := List.mem_flatMap.mp hpost
    exact scatterPosts_fit hu post hpost

/-- A turn keeps an engine poised. -/
theorem Turn.poised (t : Turn before waiting order after)
    (hs : Poised size before) (hlt : ∀ v ∈ order, v < before.graph.size)
    (hwaiting : ∀ v, (waiting v).Fits size) : Poised size after := by
  have hg := hs.bipartite.toFaithful
  have hloaded : ∀ v, Loaded size before.graph v (slotAfterInit before.graph v
      (waiting v) (before.slots.getD v none)) :=
    fun v => (hs.slots v).afterInit (hwaiting v)
  have hfitting : Fitting size after.scene := by
    refine hs.fitting.of_settled t.graph_eq t.settings_eq order _
      (fun v _ => (hloaded v).fits) (fun v hv => ?_) t.vertex_not_mem
    have happlied := (hloaded v).applied hs.fitting (hlt v hv)
    exact (Except.ok.inj (happlied.symm.trans (t.vertex_mem v hv))).symm
  refine ⟨hfitting.bipartite, t.sized, hfitting.uniform, fun w => ?_,
    fun v => ?_⟩
  · have hbox := congrArg (fun e => Engine.inbox e w) t.eq
    rw [show after.inbox w = _ from hbox]
    exact fits_inbox_postAll (t.posts_lt hg hlt)
      (turnPosts_fit hs.uniform hg hlt) hs.inboxes w
  · by_cases hv : v ∈ order
    · rw [t.slot_mem v hv]
      exact loaded_none size after.graph v
    · rw [t.slot_not_mem v hv, t.graph_eq]
      exact hs.slots v

/-- A turn keeps an engine sound. -/
theorem Turn.sound (t : Turn before waiting order after)
    (hs : Sound size before) (hlt : ∀ v ∈ order, v < before.graph.size)
    (hwaiting : ∀ v, (waiting v).Fits size) : Sound size after := by
  refine (t.poised hs.poised hlt hwaiting).sound fun v => ?_
  by_cases hv : v ∈ order
  · exact t.slot_mem v hv
  · exact (t.slot_not_mem v hv).trans (hs.slots v)

/-- Emptying all inboxes leaves an engine poised. -/
theorem Poised.emptied {e : Engine α (Slot α) ω} (h : Poised size e) :
    Poised size e.emptied where
  bipartite := h.bipartite
  sized := h.sized.emptied
  uniform := h.uniform
  inboxes := by
    intro v
    rw [Engine.inbox_emptied]
    exact Inbox.fits_idle size
  slots := h.slots

/-- Emptying one inbox leaves an engine poised. -/
theorem Poised.taken {e : Engine α (Slot α) ω} (h : Poised size e) {v : Nat}
    (hv : v < e.graph.size) (rest : List Nat) :
    Poised size (e.taken v rest) where
  bipartite := h.bipartite
  sized := h.sized.taken v rest
  uniform := h.uniform
  inboxes := by
    intro w
    rw [Engine.inbox_taken (h.sized.inboxes ▸ hv)]
    split
    · exact Inbox.fits_idle size
    · exact h.inboxes w
  slots := h.slots

/-- Emptying all inboxes leaves an engine sound. -/
theorem Sound.emptied {e : Engine α (Slot α) ω} (h : Sound size e) :
    Sound size e.emptied :=
  h.poised.emptied.sound h.slots

/-- Emptying one inbox leaves an engine sound. -/
theorem Sound.taken {e : Engine α (Slot α) ω} (h : Sound size e) {v : Nat}
    (hv : v < e.graph.size) (rest : List Nat) :
    Sound size (e.taken v rest) :=
  (h.poised.taken hv rest).sound h.slots

/-- A round goes through when the residuals of the active vertices are
numbers. -/
theorem exists_round {e : Engine α (Slot α) ω} (h : Sound size e)
    (hnumeric : ∀ v ∈ e.active, Numeric e.scene v) :
    ∃ e', (Engine.round program).perform e = (.ok (), e') := by
  obtain ⟨taken, totals, gathered, applying, after, hphases⟩ :=
    exists_phases h.emptied.poised (Engine.nodup_active e)
      h.sized.lt_of_mem_active h.inboxes hnumeric
  exact ⟨after, Engine.round_ok.mpr
    ⟨taken, totals, gathered, applying, hphases⟩⟩

/-- An activation goes through when the residuals of the head of the queue are
numbers. -/
theorem exists_activateNext {e : Engine α (Slot α) ω} (h : Sound size e)
    {v : Nat} {rest : List Nat} (hqueue : e.queue = v :: rest)
    (hv : v < e.graph.size) (hnumeric : Numeric e.scene v) :
    ∃ e', (Engine.activateNext program).perform e = (.ok (), e') := by
  obtain ⟨taken, totals, gathered, applying, after, hinit, hgathering, happly,
    hscatter⟩ := exists_phases (h.taken hv rest).poised (show [v].Nodup by simp)
      (fun w hw => List.mem_singleton.mp hw ▸ hv) h.inboxes
      (fun w hw => List.mem_singleton.mp hw ▸ hnumeric)
  rw [Attempt.each_singleton] at hinit hscatter
  obtain ⟨total, rfl, hgather⟩ := Attempt.collect_singleton.mp hgathering
  have happly := Attempt.each_singleton.mp happly
  exact ⟨after, Engine.activateNext_ok.mpr ⟨v, rest, taken, gathered, total,
    applying, hqueue, hinit, hgather, happly, hscatter⟩⟩

end Turns

end Descent

end RatingFactors
