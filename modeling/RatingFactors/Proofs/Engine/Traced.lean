import RatingFactors.Proofs.Engine.Watched

/-!
# Traces of activations

What the watched version of a program notes down while the program goes through
its phases.  All results have one form: when something goes through with the
program, it goes through with the watched version in the same way, and what is
noted down accounts for the inboxes and names the phases.

## Main definitions

* `Engine.Traced` — watched work does the same as some work, and notes down a
  log.
* `Engine.Response` — the phases with which a vertex answers what waited for it.
* `Engine.TracedTurn` — what is noted down in a turn of some vertices.

## Main results

* `traced_round`, `traced_activateNext` — what is noted down in a turn.
-/

namespace RatingFactors

namespace Engine

variable {α σ ω β γ : Type} [Scalar α]

/-- Watched work leads from one engine to another, whatever has been noted
down before, with a result; and what it notes down accounts for the
inboxes. -/
structure Traced (work : Attempt (Engine α σ (Event α)) β)
    (e : Engine α σ ω) (result : β) (e' : Engine α σ ω)
    (log : List (Event α)) : Prop where
  run : ∀ notes, work.perform (e.watching notes) =
    (.ok result, e'.watching (noting notes log))
  logged : e.Logged e' log

/-- There is an inbox for each vertex. -/
def Boxed (e : Engine α σ ω) : Prop :=
  e.inboxes.size = e.graph.size

theorem Logged.boxed {e e' : Engine α σ ω} {log : List (Event α)}
    (h : e.Logged e' log) (hboxed : e.Boxed) : e'.Boxed :=
  h.size.trans (hboxed.trans (congrArg Graph.size h.graph.symm))

section Actions

variable {e e' e'' : Engine α σ ω} {log more : List (Event α)} {place : Nat}

theorem traced_pure (result : β) :
    Traced (pure result : Attempt (Engine α σ (Event α)) β) e result e [] where
  run := fun _ => rfl
  logged := Logged.refl e

/-- A watched action does what the action does. -/
private theorem traced_action {action : Action α σ ω} (hboxed : e.Boxed)
    (h : (carryOut place action).perform e = (.ok (), e')) :
    ∃ log, Traced (Attempt.each action.watched (carryOut place)) e () e' log ∧
      Only place [] log := by
  cases action with
  | signal target message =>
      obtain ⟨spot, filled, hplace, hfilled, rfl⟩ := signal_ok.mp h
      have hlogged := logged_posted hboxed hplace hfilled
      refine ⟨[.sent target message], ⟨fun notes => ?_, hlogged⟩,
        only_nil place⟩
      have hsignal : (carryOut place
          (.signal target message : Action α σ (Event α))).perform
            (e.watching (notes.push (.entry (.sent target message)))) =
          (.ok (), (e.posted (spot, message)).watching
            (notes.push (.entry (.sent target message)))) :=
        signal_ok.mpr ⟨spot, filled, hplace, hfilled, rfl⟩
      exact Attempt.perform_each_cons_ok.mpr
        ⟨_, rfl, Attempt.each_singleton.mpr hsignal⟩
  | store vertex =>
      obtain ⟨-, rfl⟩ := Prod.mk.inj h
      exact ⟨[], ⟨fun _ => rfl, logged_of_frame rfl rfl rfl rfl fun _ => rfl⟩,
        only_nil place⟩
  | keep slot =>
      obtain ⟨-, rfl⟩ := Prod.mk.inj h
      exact ⟨[], ⟨fun _ => rfl, logged_of_frame rfl rfl rfl rfl fun _ => rfl⟩,
        only_nil place⟩
  | note content =>
      obtain ⟨-, rfl⟩ := Prod.mk.inj h
      exact ⟨[], ⟨fun _ => rfl, logged_of_frame rfl rfl rfl rfl fun _ => rfl⟩,
        only_nil place⟩

private theorem traced_actions {actions : List (Action α σ ω)}
    (hboxed : e.Boxed)
    (h : (Attempt.each actions (carryOut place)).perform e = (.ok (), e')) :
    ∃ log, Traced (Attempt.each (actions.flatMap Action.watched)
      (carryOut place)) e () e' log ∧ Only place [] log := by
  induction actions generalizing e with
  | nil =>
      obtain ⟨-, rfl⟩ := Prod.mk.inj h
      exact ⟨[], traced_pure (), only_nil place⟩
  | cons action rest ih =>
      obtain ⟨reached, haction, hrest⟩ := Attempt.perform_each_cons_ok.mp h
      obtain ⟨log, htraced, hnone⟩ := traced_action hboxed haction
      obtain ⟨more, hmore, hnone'⟩ := ih (htraced.logged.boxed hboxed) hrest
      refine ⟨log ++ more, ⟨fun notes => ?_,
        htraced.logged.trans hmore.logged⟩, hnone.append hnone'⟩
      rw [List.flatMap_cons, noting_append]
      exact Attempt.perform_each_append_ok.mpr
        ⟨_, htraced.run notes, hmore.run (noting notes log)⟩

/-- A watched reply does what the reply does, and notes down its phase. -/
theorem traced_heed {reply : Reply α σ ω β} (phase : Phase α) {result : β}
    (hboxed : e.Boxed)
    (h : (heed place reply).perform e = (.ok result, e')) :
    ∃ log, Traced (heed place (reply.watched place phase)) e result e' log ∧
      Only place [phase] log := by
  obtain ⟨hactions, hanswer⟩ := heed_ok.mp h
  obtain ⟨log, htraced, hnone⟩ := traced_actions hboxed hactions
  refine ⟨.did place phase :: log, ⟨fun notes => ?_, ?_⟩,
    only_did place phase hnone⟩
  · refine heed_ok.mpr ⟨?_, hanswer⟩
    exact Attempt.perform_each_cons_ok.mpr ⟨_, rfl,
      htraced.run (notes.push (.entry (.did place phase)))⟩
  · exact ⟨htraced.logged.mode, htraced.logged.graph, htraced.logged.size,
      htraced.logged.orderly, fun v => htraced.logged.inbox v⟩

end Actions

/-! ## Phases -/

section Phases

variable {p : Program α σ ω} {e e' : Engine α σ ω} {place : Nat}

/-- The message of a contribution is noted down after everything that the
program itself sent, and then sent. -/
private theorem traced_contribution {reply : Reply α σ ω (Contribution α)}
    (phase : Phase α) {c : Contribution α} {heeded sent : Engine α σ ω}
    (hboxed : e.Boxed) (h : (heed place reply).perform e = (.ok c, heeded))
    (hsent : match c.outgoing with
      | none => sent = heeded
      | some m => (signal (.id m.target) (some m.payload)).perform heeded =
        (.ok (), sent)) :
    ∃ log, (∀ notes, ∃ reached,
      (heed place (reply.watched place phase).forwarding).perform
        (e.watching notes) = (.ok c, reached) ∧
      match c.outgoing with
      | none => sent.watching (noting notes log) = reached
      | some m => (signal (.id m.target) (some m.payload)).perform reached =
        (.ok (), sent.watching (noting notes log))) ∧
      e.Logged sent log ∧ Only place [phase] log := by
  obtain ⟨log, htraced, honly⟩ := traced_heed phase hboxed h
  have hanswer : reply.answer = .ok c := (heed_ok.mp h).2
  obtain ⟨step, outgoing⟩ := c
  cases outgoing with
  | none =>
      obtain rfl : sent = heeded := hsent
      have hsame : (reply.watched place phase).forwarding =
          reply.watched place phase := by
        rw [Reply.forwarding, show (reply.watched place phase).answer =
          .ok ⟨step, none⟩ from hanswer, List.append_nil, ← hanswer]
        rfl
      refine ⟨log, fun notes => ⟨_, ?_, rfl⟩, htraced.logged, honly⟩
      rw [hsame]
      exact htraced.run notes
  | some m =>
      obtain ⟨spot, filled, hplace, hfilled, rfl⟩ := signal_ok.mp hsent
      have hlogged := logged_posted (htraced.logged.boxed hboxed) hplace hfilled
      have hforwarded : (reply.watched place phase).forwarding.actions =
          (reply.watched place phase).actions ++
            [.note (.entry (.sent (.id m.target) (some m.payload)))] := by
        rw [Reply.forwarding, show (reply.watched place phase).answer =
          .ok ⟨step, some m⟩ from hanswer]
      refine ⟨log ++ [.sent (.id m.target) (some m.payload)],
        fun notes => ⟨heeded.watching (noting notes (log ++
          [.sent (.id m.target) (some m.payload)])), ?_, ?_⟩,
        htraced.logged.trans hlogged, honly.append (only_nil place)⟩
      · refine heed_ok.mpr ⟨?_, hanswer⟩
        rw [hforwarded, noting_append]
        exact Attempt.perform_each_append_ok.mpr
          ⟨_, (heed_ok.mp (htraced.run notes)).1, rfl⟩
      · exact signal_ok.mpr ⟨spot, filled, hplace, hfilled, rfl⟩

private theorem traced_gatherOver {numbers : List Nat} {total result : Step α}
    (hboxed : e.Boxed)
    (h : (gatherOver p place numbers total).perform e = (.ok result, e')) :
    ∃ log, Traced (gatherOver p.watched place numbers total) e result e' log ∧
      Only place (numbers.map .gathered) log := by
  induction numbers generalizing total e with
  | nil =>
      obtain ⟨hresult, rfl⟩ := Prod.mk.inj h
      rw [Except.ok.inj hresult]
      exact ⟨[], traced_pure result, only_nil place⟩
  | cons number rest ih =>
      obtain ⟨c, heeded, next, sent, hheed, hadd, hsent, hrest⟩ :=
        gatherOver_cons_ok.mp h
      obtain ⟨log, hrun, hlogged, honly⟩ :=
        traced_contribution (.gathered number) hboxed hheed hsent
      obtain ⟨more, hmore, honly'⟩ := ih (hlogged.boxed hboxed) hrest
      refine ⟨log ++ more, ⟨fun notes => ?_, hlogged.trans hmore.logged⟩,
        honly.append honly'⟩
      obtain ⟨reached, hreached, hforward⟩ := hrun notes
      rw [noting_append]
      exact gatherOver_cons_ok.mpr ⟨c, reached, next, _, hreached, hadd,
        hforward, hmore.run (noting notes log)⟩

/-- Gathering is noted down edge by edge. -/
theorem traced_gatherAt {total : Step α} (hboxed : e.Boxed)
    (h : (gatherAt p place).perform e = (.ok total, e')) :
    ∃ (log : List (Event α)) (numbers : List Nat),
      Traced (gatherAt p.watched place) e total e' log ∧
      Only place (numbers.map .gathered) log := by
  obtain ⟨direction, hdirection, hgather⟩ := gatherAt_ok.mp h
  obtain ⟨log, htraced, honly⟩ := traced_gatherOver hboxed hgather
  exact ⟨log, e.graph.incident place direction,
    ⟨fun notes => gatherAt_ok.mpr ⟨direction, hdirection, htraced.run notes⟩,
      htraced.logged⟩, honly⟩

/-- Applying is noted down once. -/
theorem traced_applyAt {total : Step α} (hboxed : e.Boxed)
    (h : (applyAt p place total).perform e = (.ok (), e')) :
    ∃ log, Traced (applyAt p.watched place total) e () e' log ∧
      Only place [.applied total] log := by
  obtain ⟨heeded, hheed, rfl⟩ := applyAt_ok.mp h
  obtain ⟨log, htraced, honly⟩ :=
    traced_heed (.applied total) hboxed hheed
  refine ⟨log, ⟨fun notes => ?_, ?_⟩, honly⟩
  · exact applyAt_ok.mpr ⟨_, htraced.run notes, rfl⟩
  · exact ⟨htraced.logged.mode, htraced.logged.graph, htraced.logged.size,
      fun h => (htraced.logged.orderly h).frame rfl rfl (.refl _),
      htraced.logged.inbox⟩

private theorem traced_scatterOver {numbers : List Nat} (hboxed : e.Boxed)
    (h : (Attempt.each numbers fun number => do
      let e ← get
      heed place (p.scatter e.scene place (e.slot p place) number)).perform
        e = (.ok (), e')) :
    ∃ log, Traced (Attempt.each numbers fun number => do
      let e ← get
      heed place (p.watched.scatter e.scene place (e.slot p.watched place)
        number)) e () e' log ∧
      Only place (numbers.map .scattered) log := by
  induction numbers generalizing e with
  | nil =>
      obtain ⟨-, rfl⟩ := Prod.mk.inj h
      exact ⟨[], traced_pure (), only_nil place⟩
  | cons number rest ih =>
      obtain ⟨heeded, hheed, hrest⟩ := Attempt.perform_each_cons_ok.mp h
      rw [Attempt.perform_get_bind] at hheed
      obtain ⟨log, htraced, honly⟩ :=
        traced_heed (.scattered number) hboxed hheed
      obtain ⟨more, hmore, honly'⟩ := ih (htraced.logged.boxed hboxed) hrest
      refine ⟨log ++ more, ⟨fun notes => ?_,
        htraced.logged.trans hmore.logged⟩, honly.append honly'⟩
      rw [noting_append]
      refine Attempt.perform_each_cons_ok.mpr
        ⟨_, ?_, hmore.run (noting notes log)⟩
      rw [Attempt.perform_get_bind]
      exact htraced.run notes

/-- Scattering is noted down edge by edge. -/
theorem traced_scatterAt (hboxed : e.Boxed)
    (h : (scatterAt p place).perform e = (.ok (), e')) :
    ∃ (log : List (Event α)) (numbers : List Nat),
      Traced (scatterAt p.watched place) e () e' log ∧
      Only place (numbers.map .scattered) log := by
  obtain ⟨direction, hdirection, hscatter⟩ := scatterAt_ok.mp h
  obtain ⟨log, htraced, honly⟩ := traced_scatterOver hboxed hscatter
  exact ⟨log, e.graph.incident place direction,
    ⟨fun notes => scatterAt_ok.mpr ⟨direction, hdirection, htraced.run notes⟩,
      htraced.logged⟩, honly⟩

/-- Taking in is noted down if there was a message. -/
theorem traced_initAt {waiting : Inbox α} (hboxed : e.Boxed)
    (h : (initAt p place waiting).perform e = (.ok (), e')) :
    ∃ log, Traced (initAt p.watched place waiting) e () e' log ∧
      Only place (waiting.message?.toList.map .took) log := by
  cases hwaiting : waiting.message? with
  | none =>
      obtain rfl := initAt_none hwaiting h
      refine ⟨[], ⟨fun notes => ?_, Logged.refl _⟩, only_nil place⟩
      rw [initAt, hwaiting]
      rfl
  | some message =>
      obtain ⟨log, htraced, honly⟩ :=
        traced_heed (.took message) hboxed (initAt_some hwaiting h)
      refine ⟨log, ⟨fun notes => ?_, htraced.logged⟩, honly⟩
      rw [initAt, hwaiting]
      exact htraced.run notes

end Phases

/-! ## Loops over vertices -/

section Loops

/-- The vertices of a list have each done phases of some kind, and nobody else
has done anything. -/
structure Did (kind : Nat → List (Phase α) → Prop) (order : List Nat)
    (log : List (Event α)) : Prop where
  mem : ∀ v ∈ order, kind v (phasesOf v log)
  not_mem : ∀ v, v ∉ order → phasesOf v log = []

omit [Scalar α] in
theorem Did.cons {kind : Nat → List (Phase α) → Prop} {place : Nat}
    {rest : List Nat} {phases : List (Phase α)} {log more : List (Event α)}
    (honly : Only place phases log) (hkind : kind place phases)
    (h : Did kind rest more) (hnew : place ∉ rest) :
    Did kind (place :: rest) (log ++ more) where
  mem := by
    intro v hv
    rw [phasesOf_append, honly v]
    by_cases hplace : v = place
    · subst hplace
      rw [if_pos rfl, h.not_mem v hnew, List.append_nil]
      exact hkind
    · rw [if_neg hplace, List.nil_append]
      exact h.mem v ((List.mem_cons.mp hv).resolve_left hplace)
  not_mem := by
    intro v hv
    rw [List.mem_cons, not_or] at hv
    rw [phasesOf_append, honly v, if_neg hv.1, h.not_mem v hv.2]
    rfl

variable {e e' : Engine α σ ω} {ι : Type} (place : ι → Nat)
  (kind : Nat → List (Phase α) → Prop) {items : List ι}

/-- A loop over different vertices is traced if each round of it is. -/
theorem traced_each {work : ι → Attempt (Engine α σ ω) Unit}
    {watched : ι → Attempt (Engine α σ (Event α)) Unit}
    (hnodup : (items.map place).Nodup) (hboxed : e.Boxed)
    (h : (Attempt.each items work).perform e = (.ok (), e'))
    (hstep : ∀ (i : ι) (reached next : Engine α σ ω), reached.Boxed →
      (work i).perform reached = (.ok (), next) →
      ∃ log phases, Traced (watched i) reached () next log ∧
        Only (place i) phases log ∧ kind (place i) phases) :
    ∃ log, Traced (Attempt.each items watched) e () e' log ∧
      Did kind (items.map place) log := by
  induction items generalizing e with
  | nil =>
      obtain ⟨-, rfl⟩ := Prod.mk.inj h
      exact ⟨[], traced_pure (), fun v hv => absurd hv List.not_mem_nil,
        fun _ _ => rfl⟩
  | cons i rest ih =>
      obtain ⟨reached, hi, hrest⟩ := Attempt.perform_each_cons_ok.mp h
      rw [List.map_cons, List.nodup_cons] at hnodup
      obtain ⟨log, phases, htraced, honly, hkind⟩ := hstep i e reached hboxed hi
      obtain ⟨more, hmore, hdid⟩ :=
        ih hnodup.2 (htraced.logged.boxed hboxed) hrest
      refine ⟨log ++ more, ⟨fun notes => ?_,
        htraced.logged.trans hmore.logged⟩, .cons honly hkind hdid hnodup.1⟩
      rw [noting_append]
      exact Attempt.perform_each_cons_ok.mpr
        ⟨_, htraced.run notes, hmore.run (noting notes log)⟩

/-- The same for a loop that collects results. -/
theorem traced_collect {work : ι → Attempt (Engine α σ ω) β}
    {watched : ι → Attempt (Engine α σ (Event α)) β} {results : List β}
    (hnodup : (items.map place).Nodup) (hboxed : e.Boxed)
    (h : (Attempt.collect items work).perform e = (.ok results, e'))
    (hstep : ∀ (i : ι) (reached next : Engine α σ ω) (result : β),
      reached.Boxed → (work i).perform reached = (.ok result, next) →
      ∃ log phases, Traced (watched i) reached result next log ∧
        Only (place i) phases log ∧ kind (place i) phases) :
    ∃ log, Traced (Attempt.collect items watched) e results e' log ∧
      Did kind (items.map place) log ∧ results.length = items.length := by
  induction items generalizing e results with
  | nil =>
      obtain ⟨hresults, rfl⟩ := Prod.mk.inj h
      rw [← Except.ok.inj hresults]
      exact ⟨[], traced_pure [], ⟨fun v hv => absurd hv List.not_mem_nil,
        fun _ _ => rfl⟩, rfl⟩
  | cons i rest ih =>
      obtain ⟨result, others, reached, rfl, hi, hrest⟩ :=
        Attempt.perform_collect_cons_ok.mp h
      rw [List.map_cons, List.nodup_cons] at hnodup
      obtain ⟨log, phases, htraced, honly, hkind⟩ :=
        hstep i e reached result hboxed hi
      obtain ⟨more, hmore, hdid, hlength⟩ :=
        ih hnodup.2 (htraced.logged.boxed hboxed) hrest
      refine ⟨log ++ more, ⟨fun notes => ?_,
        htraced.logged.trans hmore.logged⟩, .cons honly hkind hdid hnodup.1,
        congrArg (· + 1) hlength⟩
      rw [noting_append]
      exact Attempt.perform_collect_cons_ok.mpr
        ⟨result, others, _, rfl, htraced.run notes,
          hmore.run (noting notes log)⟩

end Loops

/-! ## Turns -/

/-- What a vertex does in an activation: it takes in the message that waited,
if there was one, gathers, applies one total, and scatters. -/
def Response (message : Option (Step α)) (phases : List (Phase α)) : Prop :=
  ∃ (numbers : List Nat) (total : Step α) (others : List Nat),
    phases = message.toList.map .took ++ numbers.map .gathered ++
      .applied total :: others.map .scattered

section Turns

variable {p : Program α σ ω} {e e' before taken gathered applied after :
  Engine α σ ω} {order : List Nat} {totals : List (Step α)}

/-- The four phases of a turn, one after the other, and what all of them
together note down. -/
theorem traced_phases (waiting : Nat → Inbox α) (hnodup : order.Nodup)
    (hboxed : before.Boxed)
    (htaken : (Attempt.each order fun v =>
      initAt p v (waiting v)).perform before = (.ok (), taken))
    (hgathered : (Attempt.collect order (gatherAt p)).perform taken =
      (.ok totals, gathered))
    (happlied : (Attempt.each (order.zip totals) fun (v, total) =>
      applyAt p v total).perform gathered = (.ok (), applied))
    (hafter : (Attempt.each order (scatterAt p)).perform applied =
      (.ok (), after)) :
    ∃ log₁ log₂ log₃ log₄,
      Traced (Attempt.each order fun v => initAt p.watched v (waiting v))
        before () taken log₁ ∧
      Traced (Attempt.collect order (gatherAt p.watched)) taken totals gathered
        log₂ ∧
      Traced (Attempt.each (order.zip totals) fun (v, total) =>
        applyAt p.watched v total) gathered () applied log₃ ∧
      Traced (Attempt.each order (scatterAt p.watched)) applied () after
        log₄ ∧
      (∀ v ∈ order, Response (waiting v).message?
        (phasesOf v (log₁ ++ log₂ ++ log₃ ++ log₄))) ∧
      ∀ v, v ∉ order → phasesOf v (log₁ ++ log₂ ++ log₃ ++ log₄) = [] := by
  have hsame : (order.map id).Nodup := by
    rw [List.map_id]
    exact hnodup
  obtain ⟨log₁, h₁, hdid₁⟩ := traced_each id
    (fun v phases => phases = (waiting v).message?.toList.map .took)
    hsame hboxed htaken fun v reached next hreached hrun => by
      obtain ⟨log, htraced, honly⟩ := traced_initAt hreached hrun
      exact ⟨log, _, htraced, honly, rfl⟩
  have hboxed₁ := h₁.logged.boxed hboxed
  obtain ⟨log₂, h₂, hdid₂, hlength⟩ := traced_collect id
    (fun _ phases => ∃ numbers : List Nat,
      phases = numbers.map .gathered)
    hsame hboxed₁ hgathered fun v reached next total hreached hrun => by
      obtain ⟨log, numbers, htraced, honly⟩ := traced_gatherAt hreached hrun
      exact ⟨log, _, htraced, honly, numbers, rfl⟩
  have hboxed₂ := h₂.logged.boxed hboxed₁
  have hplaces : (order.zip totals).map Prod.fst = order :=
    List.map_fst_zip (Nat.le_of_eq hlength.symm)
  obtain ⟨log₃, h₃, hdid₃⟩ := traced_each Prod.fst
    (fun _ phases => ∃ total : Step α, phases = [.applied total])
    (hplaces.symm ▸ hnodup) hboxed₂ happlied
    fun pair reached next hreached hrun => by
      obtain ⟨log, htraced, honly⟩ := traced_applyAt hreached hrun
      exact ⟨log, _, htraced, honly, pair.2, rfl⟩
  have hboxed₃ := h₃.logged.boxed hboxed₂
  obtain ⟨log₄, h₄, hdid₄⟩ := traced_each id
    (fun _ phases => ∃ others : List Nat,
      phases = others.map .scattered)
    hsame hboxed₃ hafter fun v reached next hreached hrun => by
      obtain ⟨log, others, htraced, honly⟩ := traced_scatterAt hreached hrun
      exact ⟨log, _, htraced, honly, others, rfl⟩
  rw [List.map_id] at hdid₁ hdid₂ hdid₄
  rw [hplaces] at hdid₃
  refine ⟨log₁, log₂, log₃, log₄, h₁, h₂, h₃, h₄, fun v hv => ?_,
    fun v hv => ?_⟩
  · obtain ⟨numbers, hnumbers⟩ := hdid₂.mem v hv
    obtain ⟨total, htotal⟩ := hdid₃.mem v hv
    obtain ⟨others, hothers⟩ := hdid₄.mem v hv
    refine ⟨numbers, total, others, ?_⟩
    rw [phasesOf_append, phasesOf_append, phasesOf_append, hdid₁.mem v hv,
      hnumbers, htotal, hothers, List.append_assoc, List.singleton_append]
  · rw [phasesOf_append, phasesOf_append, phasesOf_append, hdid₁.not_mem v hv,
      hdid₂.not_mem v hv, hdid₃.not_mem v hv, hdid₄.not_mem v hv]
    rfl

/-- What is noted down in the turn of some active vertices.  Their inboxes are
emptied first, and afterwards everyone has received the signals of the turn. -/
structure TracedTurn (work : Attempt (Engine α σ (Event α)) Unit)
    (e : Engine α σ ω) (order : List Nat) (e' : Engine α σ ω)
    (log : List (Event α)) : Prop where
  run : ∀ notes, work.perform (e.watching notes) =
    (.ok (), e'.watching (noting notes log))
  graph : e'.graph = e.graph
  boxed : e'.Boxed
  orderly : e'.Orderly
  active : ∀ v ∈ order, (e.inbox v).isActive = true
  inbox : ∀ v, (signalsTo e.graph v log).foldlM Inbox.receive
    (if v ∈ order then .idle else e.inbox v) = .ok (e'.inbox v)
  response : ∀ v ∈ order, Response (e.inbox v).message? (phasesOf v log)
  quiet : ∀ v, v ∉ order → phasesOf v log = []

/-- A round is the turn of all active vertices. -/
theorem traced_round (hmode : e.mode = .synchronous) (hboxed : e.Boxed)
    (horderly : e.Orderly) (h : (round p).perform e = (.ok (), e')) :
    ∃ log, TracedTurn (round p.watched) e e.active e' log := by
  obtain ⟨taken, totals, gathered, applied, htaken, hgathered, happlied,
    hafter⟩ := round_ok.mp h
  have hemptied : Boxed e.emptied :=
    Array.size_replicate.trans hboxed
  obtain ⟨log₁, log₂, log₃, log₄, h₁, h₂, h₃, h₄, hresponse, hquiet⟩ :=
    traced_phases (fun v => e.inbox v) (nodup_active e) hemptied htaken
      hgathered happlied hafter
  have hlogged := ((h₁.logged.trans h₂.logged).trans h₃.logged).trans h₄.logged
  refine ⟨log₁ ++ log₂ ++ log₃ ++ log₄, ?_⟩
  exact
    { run := by
        intro notes
        rw [noting_append, noting_append, noting_append]
        exact round_ok.mpr ⟨_, totals, _, _, h₁.run notes, h₂.run _, h₃.run _,
          h₄.run _⟩
      graph := hlogged.graph
      boxed := hlogged.boxed hemptied
      orderly := hlogged.orderly (horderly.emptied hmode)
      active := fun v hv => mem_active.mp hv
      inbox := by
        intro v
        rw [← hlogged.inbox v, inbox_emptied]
        by_cases hv : v ∈ e.active
        · rw [if_pos hv]
        · rw [mem_active, Bool.not_eq_true] at hv
          rw [Inbox.eq_idle_of_not_isActive hv, ite_self]
      response := hresponse
      quiet := hquiet }

/-- An activation is the turn of the head of the queue. -/
theorem traced_activateNext (hmode : e.mode = .asynchronous)
    (hboxed : e.Boxed) (horderly : e.Orderly)
    (h : (activateNext p).perform e = (.ok (), e')) :
    ∃ v log, TracedTurn (activateNext p.watched) e [v] e' log := by
  obtain ⟨v, rest, taken, gathered, total, applied, hqueue, htaken, hgathered,
    happlied, hafter⟩ := activateNext_ok.mp h
  have hactive : (e.inbox v).isActive = true := by
    rw [← horderly.mem_queue hmode, hqueue]
    simp
  have hv : v < e.inboxes.size := lt_of_mem_active (mem_active.mpr hactive)
  have hemptied : Boxed (e.taken v rest) :=
    Array.size_setIfInBounds.trans hboxed
  obtain ⟨log₁, log₂, log₃, log₄, h₁, h₂, h₃, h₄, hresponse, hquiet⟩ :=
    traced_phases (fun v => e.inbox v) (by simp) hemptied
      (Attempt.each_singleton.mpr htaken)
      (Attempt.collect_singleton.mpr ⟨total, rfl, hgathered⟩)
      (Attempt.each_singleton.mpr happlied) (Attempt.each_singleton.mpr hafter)
  have hlogged := ((h₁.logged.trans h₂.logged).trans h₃.logged).trans h₄.logged
  refine ⟨v, log₁ ++ log₂ ++ log₃ ++ log₄, ?_⟩
  exact
    { run := by
        intro notes
        rw [noting_append, noting_append, noting_append]
        obtain ⟨result, hresult, hcollect⟩ :=
          Attempt.collect_singleton.mp (h₂.run (noting notes log₁))
        obtain rfl := List.singleton_inj.mp hresult
        exact activateNext_ok.mpr ⟨v, rest, _, _, total, _, hqueue,
          Attempt.each_singleton.mp (h₁.run notes), hcollect,
          Attempt.each_singleton.mp (h₃.run _),
          Attempt.each_singleton.mp (h₄.run _)⟩
      graph := hlogged.graph
      boxed := hlogged.boxed hemptied
      orderly := hlogged.orderly (horderly.taken hmode hqueue)
      active := by
        intro w hw
        rw [List.mem_singleton.mp hw]
        exact hactive
      inbox := by
        intro w
        rw [← hlogged.inbox w, inbox_taken hv]
        simp only [List.mem_singleton]
      response := hresponse
      quiet := hquiet }

end Turns

end Engine

end RatingFactors
