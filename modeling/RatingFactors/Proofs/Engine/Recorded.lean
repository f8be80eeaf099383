import RatingFactors.Proofs.Engine.Keeping
import RatingFactors.Proofs.Engine.Watched

/-!
# Recorded calls

A program is asked what an edge contributes once for each edge that an active
vertex gathers over.  The recorded version of a program notes down these calls
with all that can be seen when they are made, and does the same otherwise.  So
its notes say which calls an iteration makes.

## Main definitions

* `Call` — a call of the gathering phase.
* `Program.recorded` — the program that notes down its calls.
* `Engine.calls` — the calls that an iteration makes.
* `Session.callsOf` — the calls that the first iterations of a start make.

## Main results

* `calls_eq` — an iteration calls each vertex whose turn it is with each edge
  that it gathers over, and every call sees what there was before.
-/

namespace RatingFactors

/-- A call of the gathering phase: what can be seen, the place of the vertex,
and the number of the edge. -/
structure Call (α : Type) where
  scene : Scene α
  place : Nat
  number : Nat

section Recorded

variable {α σ ω ω' β : Type}

/-- The action, unless it notes something down. -/
def Action.muted : Action α σ ω → Option (Action α σ ω')
  | .signal target message => some (.signal target message)
  | .store vertex => some (.store vertex)
  | .keep slot => some (.keep slot)
  | .note _ => none

/-- The reply, without notes. -/
def Reply.muted (reply : Reply α σ ω β) : Reply α σ ω' β where
  actions := reply.actions.filterMap Action.muted
  answer := reply.answer

/-- The reply to a call, which is noted down first. -/
def Reply.recorded (reply : Reply α σ ω β) (call : Call α) :
    Reply α σ (Call α) β where
  actions := .note (.entry call) :: reply.muted.actions
  answer := reply.answer

/-- The same program, noting down the calls of its gathering phase and nothing
else. -/
def Program.recorded (p : Program α σ ω) : Program α σ (Call α) where
  fresh := p.fresh
  gatherEdges := p.gatherEdges
  scatterEdges := p.scatterEdges
  init scene place slot message := (p.init scene place slot message).muted
  gather scene place slot number :=
    (p.gather scene place slot number).recorded ⟨scene, place, number⟩
  apply scene place slot total := (p.apply scene place slot total).muted
  scatter scene place slot number :=
    (p.scatter scene place slot number).muted

/-- The calls that have been noted down. -/
def callsIn (notes : Array (Note (Call α))) : List (Call α) :=
  notes.toList.filterMap Note.entry?

/-- The notes after some calls have been noted down. -/
def recording (notes : Array (Note (Call α))) (calls : List (Call α)) :
    Array (Note (Call α)) :=
  notes ++ (calls.map Note.entry).toArray

@[simp] theorem recording_nil (notes : Array (Note (Call α))) :
    recording notes [] = notes := by
  simp [recording]

theorem recording_singleton (notes : Array (Note (Call α))) (call : Call α) :
    recording notes [call] = notes.push (.entry call) := by
  simp [recording]

theorem recording_append (notes : Array (Note (Call α)))
    (calls more : List (Call α)) :
    recording notes (calls ++ more) =
      recording (recording notes calls) more := by
  simp [recording]

private theorem callsIn_recording (notes : Array (Note (Call α)))
    (calls : List (Call α)) :
    callsIn (recording notes calls) = callsIn notes ++ calls := by
  simp [callsIn, recording, List.filterMap_map, Function.comp_def,
    Note.entry?]

end Recorded

/-- The edges that a vertex gathers over. -/
def Program.gathered {α σ ω : Type} (p : Program α σ ω) (scene : Scene α)
    (place : Nat) : List Nat :=
  match p.gatherEdges scene place with
  | .ok direction => scene.graph.incident place direction
  | .error _ => []

/-- The calls that some vertices make, when all of them see the same. -/
def Program.callsOver {α σ ω : Type} (p : Program α σ ω) (scene : Scene α)
    (order : List Nat) : List (Call α) :=
  order.flatMap fun place =>
    (p.gathered scene place).map fun number => ⟨scene, place, number⟩

namespace Engine

variable {α σ ω β γ : Type} [Scalar α]

/-- The calls that the iteration which begins in an engine makes: those that
the recorded version of the program notes down. -/
def calls (p : Program α σ ω) (e : Engine α σ ω) : List (Call α) :=
  callsIn ((work p.recorded e.mode).perform
    (e.watching (#[] : Array (Note (Call α))))).2.notes

/-! ## Doing the same -/

/-- Recorded work leads from one engine to another, whatever has been noted
down before, and notes down some calls. -/
def Recorded (work : Attempt (Engine α σ (Call α)) β) (e : Engine α σ ω)
    (result : β) (e' : Engine α σ ω) (calls : List (Call α)) : Prop :=
  ∀ notes, work.perform (e.watching notes) =
    (.ok result, e'.watching (recording notes calls))

section Phases

variable {p : Program α σ ω} {e e' e'' : Engine α σ ω} {place : Nat}
  {made more : List (Call α)}

omit [Scalar α] in
private theorem recorded_pure (result : β) :
    Recorded (pure result : Attempt (Engine α σ (Call α)) β) e result e [] := by
  intro notes
  rw [recording_nil]
  rfl

omit [Scalar α] in
theorem Recorded.bind {work : Attempt (Engine α σ (Call α)) β}
    {next : β → Attempt (Engine α σ (Call α)) γ} {middle : β} {result : γ}
    (h : Recorded work e middle e' made)
    (h' : Recorded (next middle) e' result e'' more) :
    Recorded (work >>= next) e result e'' (made ++ more) := by
  intro notes
  rw [Attempt.perform_bind, h notes, recording_append]
  exact h' (recording notes made)

/-- Actions without the notes among them. -/
theorem recorded_actions {actions : List (Action α σ ω)}
    (h : (Attempt.each actions (carryOut place)).perform e = (.ok (), e')) :
    Recorded (Attempt.each (actions.filterMap Action.muted) (carryOut place))
      e () e' [] := by
  induction actions generalizing e with
  | nil =>
      obtain ⟨-, rfl⟩ := Prod.mk.inj h
      exact recorded_pure ()
  | cons action rest ih =>
      obtain ⟨reached, haction, hrest⟩ := Attempt.perform_each_cons_ok.mp h
      have hrest' := ih hrest
      intro notes
      cases action with
      | signal target message =>
          obtain ⟨spot, filled, hplace, hfilled, rfl⟩ := signal_ok.mp haction
          exact Attempt.perform_each_cons_ok.mpr ⟨_,
            signal_ok.mpr ⟨spot, filled, hplace, hfilled, rfl⟩, hrest' notes⟩
      | store vertex =>
          obtain ⟨-, rfl⟩ := Prod.mk.inj haction
          exact Attempt.perform_each_cons_ok.mpr ⟨_, rfl, hrest' notes⟩
      | keep slot =>
          obtain ⟨-, rfl⟩ := Prod.mk.inj haction
          exact Attempt.perform_each_cons_ok.mpr ⟨_, rfl, hrest' notes⟩
      | note content =>
          obtain ⟨-, rfl⟩ := Prod.mk.inj haction
          exact hrest' notes

private theorem recorded_heed {reply : Reply α σ ω β} {result : β}
    (h : (heed place reply).perform e = (.ok result, e')) :
    Recorded (heed place reply.muted) e result e' [] := by
  obtain ⟨hactions, hanswer⟩ := heed_ok.mp h
  exact fun notes => heed_ok.mpr ⟨recorded_actions hactions notes, hanswer⟩

/-- A recorded reply notes down its call. -/
private theorem recorded_heed_call {reply : Reply α σ ω β} {result : β}
    (h : (heed place reply).perform e = (.ok result, e')) (call : Call α) :
    Recorded (heed place (reply.recorded call)) e result e' [call] := by
  obtain ⟨hactions, hanswer⟩ := heed_ok.mp h
  intro notes
  have hrest := recorded_actions hactions (notes.push (.entry call))
  rw [recording_nil] at hrest
  rw [recording_singleton]
  exact heed_ok.mpr
    ⟨Attempt.perform_each_cons_ok.mpr ⟨_, rfl, hrest⟩, hanswer⟩

private theorem recorded_initAt {waiting : Inbox α}
    (h : (initAt p place waiting).perform e = (.ok (), e')) :
    Recorded (initAt p.recorded place waiting) e () e' [] := by
  cases hwaiting : waiting.message? with
  | none =>
      obtain rfl := initAt_none hwaiting h
      rw [initAt, hwaiting]
      exact recorded_pure ()
  | some message =>
      have hheed := recorded_heed (initAt_some hwaiting h)
      intro notes
      rw [initAt, hwaiting]
      exact hheed notes

private theorem recorded_applyAt {total : Step α}
    (h : (applyAt p place total).perform e = (.ok (), e')) :
    Recorded (applyAt p.recorded place total) e () e' [] := by
  obtain ⟨heeded, hheed, rfl⟩ := applyAt_ok.mp h
  exact fun notes => applyAt_ok.mpr ⟨_, recorded_heed hheed notes, rfl⟩

private theorem recorded_scatterAt
    (h : (scatterAt p place).perform e = (.ok (), e')) :
    Recorded (scatterAt p.recorded place) e () e' [] := by
  obtain ⟨direction, hdirection, hloop⟩ := scatterAt_ok.mp h
  suffices hall : ∀ (numbers : List Nat) (e : Engine α σ ω),
      (Attempt.each numbers fun number => do
        let e ← get
        heed place (p.scatter e.scene place (e.slot p place) number)).perform
          e = (.ok (), e') →
      Recorded (Attempt.each numbers fun number => do
        let e ← get
        heed place (p.recorded.scatter e.scene place
          (e.slot p.recorded place) number)) e () e' [] from
    fun notes => scatterAt_ok.mpr ⟨direction, hdirection, hall _ _ hloop notes⟩
  intro numbers
  induction numbers with
  | nil =>
      intro e h
      obtain ⟨-, rfl⟩ := Prod.mk.inj h
      exact recorded_pure ()
  | cons number rest ih =>
      intro e h notes
      obtain ⟨heeded, hheed, hrest⟩ := Attempt.perform_each_cons_ok.mp h
      rw [Attempt.perform_get_bind] at hheed
      have hfirst := recorded_heed hheed notes
      rw [recording_nil] at hfirst
      refine Attempt.perform_each_cons_ok.mpr
        ⟨_, ?_, ih heeded hrest notes⟩
      rw [Attempt.perform_get_bind]
      exact hfirst

section Gathering

variable (hp : p.Reading)

include hp

/-- Gathering over some edges makes a call for each, and all calls see the
same. -/
theorem recorded_gatherOver {numbers : List Nat} {total result : Step α}
    (h : (gatherOver p place numbers total).perform e = (.ok result, e')) :
    Recorded (gatherOver p.recorded place numbers total) e result e'
      (numbers.map fun number => ⟨e.scene, place, number⟩) := by
  induction numbers generalizing e total with
  | nil =>
      obtain ⟨hresult, rfl⟩ := Prod.mk.inj h
      rw [Except.ok.inj hresult]
      exact recorded_pure result
  | cons number rest ih =>
      obtain ⟨c, heeded, next, sent, hheed, hadd, hsent, hrest⟩ :=
        gatherOver_cons_ok.mp h
      have hkept := keeps_scene hp e.scene
      have hheeded : heeded.scene = e.scene := by
        have hscene := hkept.gather e.scene place (e.slot p place) number e rfl
        rwa [hheed] at hscene
      have hsentScene : sent.scene = e.scene := by
        cases hout : c.outgoing with
        | none =>
            rw [hout] at hsent
            exact (congrArg scene hsent).trans hheeded
        | some m =>
            rw [hout] at hsent
            have hscene := hkept.signal (.id m.target) (some m.payload) heeded
              hheeded
            rwa [show (signal (.id m.target) (some m.payload)).perform heeded =
              (.ok (), sent) from hsent] at hscene
      have hmore := ih hrest
      rw [hsentScene] at hmore
      intro notes
      have hcall := recorded_heed_call hheed ⟨e.scene, place, number⟩ notes
      refine gatherOver_cons_ok.mpr ⟨c, _, next, sent.watching (recording notes
        [⟨e.scene, place, number⟩]), hcall, hadd, ?_, ?_⟩
      · cases hout : c.outgoing with
        | none =>
            rw [hout] at hsent
            rw [show sent = heeded from hsent]
        | some m =>
            rw [hout] at hsent
            obtain ⟨spot, filled, hplace, hfilled, rfl⟩ := signal_ok.mp hsent
            exact signal_ok.mpr ⟨spot, filled, hplace, hfilled, rfl⟩
      · have hlast := hmore (recording notes [⟨e.scene, place, number⟩])
        rw [← recording_append] at hlast
        exact hlast

private theorem recorded_gatherAt {total : Step α}
    (h : (gatherAt p place).perform e = (.ok total, e')) :
    Recorded (gatherAt p.recorded place) e total e'
      (p.callsOver e.scene [place]) := by
  obtain ⟨direction, hdirection, hover⟩ := gatherAt_ok.mp h
  have hcalls : p.callsOver e.scene [place] =
      (e.graph.incident place direction).map fun number =>
        ⟨e.scene, place, number⟩ := by
    rw [Program.callsOver, List.flatMap_singleton, Program.gathered, hdirection]
    rfl
  rw [hcalls]
  exact fun notes => gatherAt_ok.mpr
    ⟨direction, hdirection, recorded_gatherOver hp hover notes⟩

end Gathering

/-! ## Loops over vertices -/

omit [Scalar α] in
private theorem recorded_each {ι : Type} {items : List ι}
    {work : ι → Attempt (Engine α σ ω) Unit}
    {work' : ι → Attempt (Engine α σ (Call α)) Unit}
    (hstep : ∀ i (reached next : Engine α σ ω),
      (work i).perform reached = (.ok (), next) →
      Recorded (work' i) reached () next [])
    (h : (Attempt.each items work).perform e = (.ok (), e')) :
    Recorded (Attempt.each items work') e () e' [] := by
  induction items generalizing e with
  | nil =>
      obtain ⟨-, rfl⟩ := Prod.mk.inj h
      exact recorded_pure ()
  | cons i rest ih =>
      obtain ⟨reached, hi, hrest⟩ := Attempt.perform_each_cons_ok.mp h
      exact (hstep i e reached hi).bind (ih hrest)

private theorem recorded_collect_gatherAt (hp : p.Reading) {order : List Nat}
    {totals : List (Step α)}
    (h : (Attempt.collect order (gatherAt p)).perform e = (.ok totals, e')) :
    Recorded (Attempt.collect order (gatherAt p.recorded)) e totals e'
      (p.callsOver e.scene order) := by
  induction order generalizing e totals with
  | nil =>
      obtain ⟨htotals, rfl⟩ := Prod.mk.inj h
      rw [← Except.ok.inj htotals]
      exact recorded_pure []
  | cons v rest ih =>
      obtain ⟨total, others, reached, rfl, hv, hrest⟩ :=
        Attempt.perform_collect_cons_ok.mp h
      have hscene : reached.scene = e.scene := by
        have hkept := (keeps_scene hp e.scene).gatherAt v e rfl
        rwa [hv] at hkept
      have hmore := ih hrest
      rw [hscene] at hmore
      intro notes
      have hfirst := recorded_gatherAt hp hv notes
      refine Attempt.perform_collect_cons_ok.mpr
        ⟨total, others, _, rfl, hfirst, ?_⟩
      have hlast := hmore (recording notes (p.callsOver e.scene [v]))
      rw [← recording_append] at hlast
      simpa [Program.callsOver] using hlast

/-- The four phases make the calls of gathering. -/
theorem recorded_phases (hp : p.Reading) {waiting : Nat → Inbox α}
    {order : List Nat}
    (h : (phases p waiting order).perform e = (.ok (), e')) :
    Recorded (phases p.recorded waiting order) e () e'
      (p.callsOver e.scene order) := by
  obtain ⟨_, taken, hinit, h⟩ := Attempt.perform_bind_ok.mp h
  obtain ⟨totals, gathered, hgather, h⟩ := Attempt.perform_bind_ok.mp h
  obtain ⟨_, applying, happly, hscatter⟩ := Attempt.perform_bind_ok.mp h
  have hscene : taken.scene = e.scene := by
    have hkept := safe_each (fun v (_ : v ∈ order) =>
      (keeps_scene hp e.scene).initAt v (waiting v)) e rfl
    rwa [hinit] at hkept
  have hcalls := recorded_collect_gatherAt hp hgather
  rw [hscene] at hcalls
  have htaken := recorded_each (fun _ _ _ => recorded_initAt) hinit
  have happlied := recorded_each (fun _ _ _ => recorded_applyAt) happly
  have hscattered := recorded_each (fun _ _ _ => recorded_scatterAt) hscatter
  simp only [Recorded, recording_nil] at htaken happlied hscattered
  intro notes
  exact Attempt.perform_bind_ok.mpr ⟨(), _, htaken notes,
    Attempt.perform_bind_ok.mpr ⟨totals, _, hcalls notes,
      Attempt.perform_bind_ok.mpr ⟨(), _, happlied _, hscattered _⟩⟩⟩

end Phases

/-! ## Iterations -/

omit [Scalar α] in
/-- Clearing does not look at the notes. -/
theorem cleared_watching {ω' : Type} (e : Engine α σ ω)
    (notes : Array (Note ω')) :
    (e.watching notes).cleared = e.cleared.watching notes := by
  unfold cleared
  cases hmode : e.mode with
  | synchronous =>
      rw [show (e.watching notes).mode = .synchronous from hmode]
      rfl
  | asynchronous =>
      rw [show (e.watching notes).mode = .asynchronous from hmode,
        show (e.watching notes).queue = e.queue from rfl]
      cases e.queue <;> rfl

omit [Scalar α] in
theorem Orderly.watching {ω' : Type} {e : Engine α σ ω} (h : e.Orderly)
    (notes : Array (Note ω')) : (e.watching notes).Orderly :=
  ⟨h.nodup, h.mem_queue, h.silent⟩

/-- An iteration that goes through calls each vertex whose turn it is with each
edge that it gathers over. -/
theorem calls_eq {p : Program α σ ω} {e e' : Engine α σ ω} (hp : p.Reading)
    (horderly : e.Orderly) (hactive : e.activeCount ≠ 0)
    (h : (work p e.mode).perform e = (.ok (), e')) :
    e.calls p = p.callsOver e.scene e.order := by
  rw [horderly.perform_work hactive] at h
  have hrun := (horderly.watching (#[] : Array (Note (Call α)))).perform_work
    (p := p.recorded) hactive
  rw [cleared_watching] at hrun
  have hrecorded := recorded_phases hp h #[]
  rw [calls, show e.mode = (e.watching (#[] : Array (Note (Call α)))).mode
    from rfl, hrun, show (e.watching (#[] : Array (Note (Call α)))).inbox =
      e.inbox from rfl, show (e.watching
        (#[] : Array (Note (Call α)))).order = e.order from rfl, hrecorded]
  exact (callsIn_recording #[] _).trans (by rw [scene_cleared]; rfl)

end Engine

/-! ## Starts -/

namespace Session

variable {α σ ω μ τ ρ : Type} [Scalar α] {p : Program α σ ω}
  {s t : Session α σ ω μ τ ρ} {sizes : List Nat}

/-- Where a start is after some iterations. -/
def state (p : Program α σ ω) (s : Session α σ ω μ τ ρ) :
    Nat → Session α σ ω μ τ ρ
  | 0 => (begin.perform s).2
  | n + 1 => ((advance p).perform (state p s n)).2

/-- The calls that the first iterations of a start make. -/
def callsOf (p : Program α σ ω) (s : Session α σ ω μ τ ρ) (n : Nat) :
    List (Call α) :=
  (List.range n).flatMap fun i => (s.state p i).engine.calls p

theorem callsOf_succ (p : Program α σ ω) (s : Session α σ ω μ τ ρ) (n : Nat) :
    s.callsOf p (n + 1) = s.callsOf p n ++ (s.state p n).engine.calls p := by
  rw [callsOf, List.range_succ, List.flatMap_append, List.flatMap_singleton]
  rfl

/-- A start is where its iterations have led. -/
theorem Reaches.eq_state (h : Reaches p s sizes t) :
    t = s.state p sizes.length := by
  obtain ⟨begun, hbegin, hrun⟩ := h
  induction hrun with
  | rest => rw [List.length_nil, state, hbegin]
  | advance _ _ _ hadvance ih =>
      rw [List.length_append, List.length_singleton, state, ← ih, hadvance]

end Session

end RatingFactors
