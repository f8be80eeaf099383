import Mathlib.Algebra.Ring.Parity
import RatingFactors.Proofs.Descent.Blocks
import RatingFactors.Proofs.Descent.Colours
import RatingFactors.Proofs.Engine.Deeds
import RatingFactors.Proofs.Engine.Delivery
import RatingFactors.Proofs.Sample

/-!
# No step is applied to another state

A step is computed from what a call of the gathering phase has read, and it is
applied later: by a row in the same iteration, by a column in its next turn.
Nothing compares the two states.  They agree all the same, because the vertices
whose turn it is are never neighbours: nobody changes while a message to it is
being computed or waits, and nobody changes a neighbour of a row between its
gathering and its applying.

## Main definitions

* `DeedIn` — what the deeds of an iteration have in common.
* `SentFrom` — all that was sent to a vertex was computed from one state of it.
* `ColumnFresh`, `RowFresh` — what is applied was computed from these very
  states.
* `Current` — the invariant of a column between two of its turns.

## Main results

* `exhibits_coloured`, `deedIn_of_mem` — which deeds an iteration consists of.
* `Current.work` — an iteration keeps what waits for a column current.
* `two_coloured` — the colours of a start, and that it applies nothing stale.
-/

namespace RatingFactors

namespace Descent

variable {α ω : Type} [Scalar α]

/-! ## The deeds of an iteration -/

/-- A call of the gathering phase in the iteration that begins in an engine: a
vertex whose turn it is asks for the contribution of one of its edges. -/
structure GatheredIn (e : Engine α (Slot α) ω) (call : Call α)
    (answer : Except Failure (Contribution α)) : Prop where
  mem : call.place ∈ e.order
  edge : call.number ∈ e.graph.incident call.place .both
  scene : call.scene = e.scene
  answer : ∃ slot, answer = ((program : Program α (Slot α) ω).gather
    call.scene call.place slot call.number).answer

/-- A call of the applying phase in the iteration that begins in an engine.
Those who have applied before it have changed; everyone else, and the vertex
itself, is as it was. -/
structure AppliedIn (e : Engine α (Slot α) ω) (use : Use α (Slot α)) :
    Prop where
  mem : use.place ∈ e.order
  settings : use.scene.settings = e.settings
  vertex : ∀ w, (w ∈ e.order → w = use.place) →
    use.scene.vertex w = e.scene.vertex w
  slot : use.slot = slotAfterInit e.graph use.place (e.inbox use.place)
    (e.slots.getD use.place none)
  total : use.total =
    gatherTotal e.graph e.settings e.scene.vertex use.place

/-- A deed of the iteration that begins in an engine.  A signal that is not the
message of a contribution wakes somebody and moves nothing. -/
def DeedIn (e : Engine α (Slot α) ω) : Deed α (Slot α) → Prop
  | .gathers call answer => GatheredIn e call answer
  | .applies use => AppliedIn e use
  | .signals _ message => ∃ settings, message = some (stillStep settings)

/-- The signals of gradient descent are there to wake somebody. -/
theorem sends_program (e : Engine α (Slot α) ω) :
    (program : Program α (Slot α) ω).Sends (DeedIn e) where
  init := by
    intro scene place slot message target sent hsent
    cases init_actions scene place slot message _ hsent
  gather := by
    intro scene place slot number target sent hsent
    obtain ⟨content, hnote⟩ := gather_actions scene place slot number _ hsent
    cases hnote
  apply := by
    intro scene place slot total target sent hsent
    rcases apply_actions scene place slot total _ hsent with
      ⟨vertex, hstore⟩ | hkeep
    · cases hstore
    · cases hkeep
  scatter := by
    intro scene place slot number target sent hsent
    obtain ⟨spot, hsignal⟩ := scatter_actions scene place slot number _ hsent
    exact ⟨scene.settings, (Action.signal.inj hsignal).2⟩

section Applying

variable {before taken gathered reached : Engine α (Slot α) ω}
  {order : List Nat} {waiting : Nat → Inbox α} {totals : List (Step α)}

/-- When some vertices of a turn have applied, the next one applies the total of
the states before the turn and what its slot has taken in, and finds everyone
but those vertices as they were. -/
private theorem applied_in_turn (hsized : before.Sized)
    (hg : before.graph.Faithful) (hnodup : order.Nodup)
    (hlt : ∀ v ∈ order, v < before.graph.size)
    (hinit : (Attempt.each order
        fun v => Engine.initAt program v (waiting v)).perform before =
      (.ok (), taken))
    (hgather : (Attempt.collect order (Engine.gatherAt program)).perform taken =
      (.ok totals, gathered)) {seen : List (Nat × Step α)} {v : Nat}
    {total : Step α} {rest : List (Nat × Step α)}
    (hsplit : order.zip totals = seen ++ (v, total) :: rest)
    (happly : (Attempt.each seen fun (v, total) =>
        Engine.applyAt program v total).perform gathered = (.ok (), reached)) :
    v ∈ order ∧ reached.scene.settings = before.settings ∧
      (∀ w, (w ∈ order → w = v) →
        reached.scene.vertex w = before.scene.vertex w) ∧
      reached.slots.getD v none =
        slotAfterInit before.graph v (waiting v) (before.slots.getD v none) ∧
      total = gatherTotal before.graph before.settings before.scene.vertex
        v := by
  obtain ⟨htotals, hgathered, hslotsSize, hslotMem, -, -⟩ :=
    gathered_ok hsized hg hnodup hlt hinit hgather
  have hscene : gathered.scene = before.scene := by
    rw [hgathered, ← Engine.postAll_rewritten, Engine.scene_postAll]
    rfl
  have hgraph : gathered.graph = before.graph := congrArg Scene.graph hscene
  rw [htotals, zip_map_self, List.map_eq_append_iff] at hsplit
  obtain ⟨done, others, horder, rfl, hothers⟩ := hsplit
  obtain ⟨u, later, rfl, hpair, -⟩ := List.map_eq_cons_iff.mp hothers
  obtain ⟨rfl, rfl⟩ := Prod.mk.inj hpair
  have hnew : u ∉ done := not_mem_seen hnodup horder
  have hmem : u ∈ order := by simp [horder]
  have hsub : ∀ w ∈ done, w ∈ order := fun w hw => by simp [horder, hw]
  have hstored := each_applyAt_ok (by
      rw [hgraph, ← hsized.vertices]
      exact congrArg (fun scene => scene.vertices.size) hscene)
    (by rw [hgraph, hslotsSize])
    (hnodup.sublist (by rw [horder]; exact List.sublist_append_left _ _))
    (fun w hw => hgraph ▸ hlt w (hsub w hw)) happly
  refine ⟨hmem, ?_, fun w hw => ?_, ?_, rfl⟩
  · rw [hstored.eq]
    exact congrArg Scene.settings hscene
  · rw [hstored.vertex_not_mem w fun hdone =>
      hnew (hw (hsub w hdone) ▸ hdone), hscene]
  · rw [hstored.slot_not_mem u hnew, hslotMem u hmem]

end Applying

section Deeds

variable {g : Graph α} {mode : Mode} {e e' : Engine α (Slot α) ω}

/-- The deeds of an iteration of gradient descent, whether it goes through or
fails halfway. -/
theorem exhibits_coloured (hg : g.Bipartite) (h : Coloured g mode e) :
    Engine.Exhibits (DeedIn e)
      (Engine.phases (program : Program α (Slot α) ω).observed e.inbox e.order)
      (Engine.phases program e.inbox e.order) e.cleared := by
  have hcleared : e.cleared.graph = g := e.graph_cleared.trans h.graph
  refine Engine.exhibits_phases (sends_program e) reading_program
    e.scene_cleared ?_ ?_
  · intro v hv slot number hnumber
    exact ⟨hv, hnumber, rfl, slot, rfl⟩
  · intro taken totals gathered hinit hgather seen v total rest reached hsplit
      happly
    obtain ⟨hmem, hsettings, hvertex, hslot, htotal⟩ :=
      applied_in_turn h.sized.cleared (hcleared.symm ▸ hg.toFaithful)
        h.orderly.nodup_order
        (fun v hv => hcleared.symm ▸ h.lt_of_mem_order hv)
        hinit hgather hsplit happly
    rw [e.scene_cleared] at hvertex htotal
    rw [e.settings_cleared] at hsettings htotal
    rw [e.graph_cleared] at hslot htotal
    rw [e.slots_cleared] at hslot
    exact ⟨hmem, hsettings, hvertex, hslot, htotal⟩

theorem deedIn_of_mem (hg : g.Bipartite) (h : Coloured g mode e)
    {deed : Deed α (Slot α)} (hdeed : deed ∈ e.deeds program) :
    DeedIn e deed :=
  (Engine.observed_deeds (exhibits_coloured hg h)).2 deed hdeed

/-- A call that sends something to a vertex is a call over a training edge to
it. -/
theorem GatheredIn.meets (hg : g.Bipartite) (h : Coloured g mode e)
    {call : Call α} {step : Step α} {m : Message α} {c : Nat}
    (hcall : GatheredIn e call (.ok ⟨step, some m⟩))
    (hmeant : g.meant (.id m.target) = some c) : g.Meets call.place c := by
  obtain ⟨slot, hanswer⟩ := hcall.answer
  have hscene : call.scene.graph = g :=
    (congrArg Scene.graph hcall.scene).trans h.graph
  have hlt := h.lt_of_mem_order hcall.mem
  have hedge : call.number ∈ g.incident call.place .both :=
    h.graph ▸ hcall.edge
  by_cases hcolumn : call.scene.graph.IsColumn call.place
  · have hnothing : (gather call.scene call.place slot call.number :
        Reply α (Slot α) ω _) = .done .nothing := if_pos hcolumn
    rw [show ((program : Program α (Slot α) ω).gather call.scene call.place slot
      call.number) = .done .nothing from hnothing] at hanswer
    cases hanswer
  · rcases gather_row_ok hcolumn hanswer.symm with
      ⟨-, hnothing⟩ | ⟨htrain, residual, hcontribution⟩
    · cases hnothing
    · obtain ⟨-, houtgoing, -⟩ := contribution_ok hcontribution
      rw [hscene] at houtgoing htrain
      split at houtgoing
      · have htraining : call.number ∈ g.trainingAt call.place :=
          List.mem_filter.mpr ⟨hedge, by simpa using htrain⟩
        obtain rfl := Option.some.inj houtgoing
        rw [Graph.meant, hg.placeOf_idAt _
          (across_lt hg.toFaithful hlt htraining)] at hmeant
        exact ⟨call.number, htraining, Option.some.inj hmeant⟩
      · cases houtgoing

end Deeds

/-! ## What is applied -/

section Fresh

/-- Every call that has sent something to a vertex has read this state there,
and all other signals move nothing. -/
structure SentFrom (g : Graph α) (deeds : List (Deed α (Slot α))) (c : Nat)
    (state : Vertex α) : Prop where
  read : ∀ call step m, .gathers call (.ok ⟨step, some m⟩) ∈ deeds →
    g.meant (.id m.target) = some c → call.scene.vertex c = state
  still : ∀ target message, .signals target message ∈ deeds →
    ∃ settings, message = some (stillStep settings)

/-- A column applies the sum of what it has been sent in some deeds and nothing
else, and all calls that have sent something to it have read the state that it
applies this to. -/
structure ColumnFresh (g : Graph α) (deeds : List (Deed α (Slot α)))
    (use : Use α (Slot α)) : Prop where
  total : use.total = .empty
  sum : combined ((signalsTo g use.place
    (deeds.filterMap Deed.sent?)).filterMap id) = .ok use.slot
  sources : SentFrom g deeds use.place (use.scene.vertex use.place)

/-- A row applies the total that it would gather at this very moment and nothing
else, and all its calls among some deeds have read its own state, and those of
all its neighbours, as they are now. -/
structure RowFresh (g : Graph α) (deeds : List (Deed α (Slot α)))
    (use : Use α (Slot α)) : Prop where
  slot : use.slot = none
  total : use.total =
    gatherTotal g use.scene.settings use.scene.vertex use.place
  read : ∀ call answer, .gathers call answer ∈ deeds →
    call.place = use.place →
    call.scene.vertex use.place = use.scene.vertex use.place ∧
      ∀ w, g.Adjoins use.place w → call.scene.vertex w = use.scene.vertex w

variable {g : Graph α} {mode : Mode} {e : Engine α (Slot α) ω}
  {use : Use α (Slot α)}

theorem SentFrom.append {deeds more : List (Deed α (Slot α))} {c : Nat}
    {state : Vertex α} (h : SentFrom g deeds c state)
    (hmore : SentFrom g more c state) : SentFrom g (deeds ++ more) c state where
  read call step m hdeed :=
    (List.mem_append.mp hdeed).elim (h.read call step m)
      (hmore.read call step m)
  still target message hdeed :=
    (List.mem_append.mp hdeed).elim (h.still target message)
      (hmore.still target message)

/-- When a vertex applies, it and its neighbours are as they were when the
iteration began. -/
theorem AppliedIn.near (hg : g.Bipartite) (h : Coloured g mode e)
    (huse : AppliedIn e use) :
    use.scene.vertex use.place = e.scene.vertex use.place ∧
      ∀ w, g.Adjoins use.place w → use.scene.vertex w = e.scene.vertex w := by
  refine ⟨huse.vertex _ fun _ => rfl, fun w hadjoins => ?_⟩
  exact huse.vertex w fun hw =>
    absurd hadjoins (h.not_adjoins hg huse.mem hw)

theorem AppliedIn.rowFresh (hg : g.Bipartite) (h : Coloured g mode e)
    (huse : AppliedIn e use) (hrow : g.IsRow use.place) :
    RowFresh g (e.deeds program) use := by
  obtain ⟨hown, hothers⟩ := huse.near hg h
  refine ⟨?_, ?_, ?_⟩
  · rw [huse.slot, h.slots, slotAfterInit, h.graph, if_neg
      (hg.not_isColumn_of_isRow (h.lt_of_mem_order huse.mem) hrow)]
  · rw [huse.total, huse.settings, h.graph]
    refine Near.gatherTotal_eq ⟨hown.symm, fun w hmeets => ?_⟩
    exact (hothers w hmeets.adjoins).symm
  · intro call answer hdeed hplace
    have hcall : GatheredIn e call answer := deedIn_of_mem hg h hdeed
    rw [hcall.scene]
    exact ⟨hown.symm, fun w hadjoins => (hothers w hadjoins).symm⟩

end Fresh

/-! ## What waits for a column -/

/-- Between two turns of a column: what waits for it is the sum of what it has
been sent in the deeds since, and all that was sent to it has been computed from
its present state. -/
structure Current (g : Graph α) (e : Engine α (Slot α) ω) (c : Nat)
    (deeds : List (Deed α (Slot α))) : Prop where
  inbox : (signalsTo g c (deeds.filterMap Deed.sent?)).foldlM Inbox.receive
    .idle = .ok (e.inbox c)
  sources : SentFrom g deeds c (e.scene.vertex c)

namespace Current

variable {g : Graph α} {mode : Mode} {e e' : Engine α (Slot α) ω} {c : Nat}
  {deeds : List (Deed α (Slot α))}

/-- Nobody whose turn it is sends anything to anybody else whose turn it is, and
those whose turn it is not keep their states. -/
theorem sources_of_turn (hg : g.Bipartite) (hcoloured : Coloured g mode e)
    (hturn : Turn e.cleared e.inbox e.order e') :
    SentFrom g (e.deeds program) c (e'.scene.vertex c) := by
  refine ⟨fun call step m hdeed hmeant => ?_,
    fun target message hdeed => deedIn_of_mem hg hcoloured hdeed⟩
  have hcall : GatheredIn e call (.ok ⟨step, some m⟩) :=
    deedIn_of_mem hg hcoloured hdeed
  have hmeets := hcall.meets hg hcoloured hmeant
  have hc : c ∉ e.order := fun hc =>
    hcoloured.not_adjoins hg hcall.mem hc hmeets.adjoins
  rw [hturn.vertex_not_mem c hc, e.scene_cleared, hcall.scene]

/-- An iteration keeps what waits for a column current.  If it was the turn of
the column, only the deeds of this iteration count from now on. -/
theorem work (hg : g.Bipartite) (hcoloured : Coloured g mode e)
    (h : Current g e c deeds) (hactive : e.activeCount ≠ 0)
    (hwork : (Engine.work program e.mode).perform e = (.ok (), e')) :
    Current g (Session.passIteration e') c
      (if c ∈ e.order then e.deeds program
        else deeds ++ e.deeds program) := by
  have hturn := turn_of_work hcoloured.sized
    (hcoloured.graph ▸ hg.toFaithful) hcoloured.orderly hactive hwork
  have hinbox := (Engine.logged_deeds (exhibits_coloured hg hcoloured)
    hcoloured.orderly hactive hcoloured.sized.cleared.inboxes hwork).inbox c
  rw [e.graph_cleared, hcoloured.graph, hcoloured.orderly.inbox_cleared]
    at hinbox
  have hsources := sources_of_turn (c := c) hg hcoloured hturn
  by_cases hc : c ∈ e.order
  · rw [if_pos hc] at hinbox ⊢
    exact ⟨hinbox, hsources⟩
  · rw [if_neg hc] at hinbox ⊢
    have hsame : e'.scene.vertex c = e.scene.vertex c := by
      rw [hturn.vertex_not_mem c hc, e.scene_cleared]
    refine ⟨?_, (hsame ▸ h.sources).append hsources⟩
    rw [List.filterMap_append, signalsTo_append, List.foldlM_append, h.inbox]
    exact hinbox

/-- A column whose turn has come applies what waited for it, to the state from
which that was computed. -/
theorem columnFresh {use : Use α (Slot α)} (hcoloured : Coloured g mode e)
    (h : Current g e use.place deeds) (huse : AppliedIn e use)
    (hcolumn : g.IsColumn use.place) : ColumnFresh g deeds use := by
  have hslot : use.slot = (e.inbox use.place).message? := by
    rw [huse.slot, hcoloured.slots, slotAfterInit, hcoloured.graph,
      if_pos hcolumn, Option.or_none]
  refine ⟨?_, ?_, ?_⟩
  · rw [huse.total, hcoloured.graph]
    exact gatherTotal_eq_empty (.inl hcolumn)
  · rw [hslot]
    exact Inbox.combined_of_received h.inbox
  · rw [huse.vertex use.place fun _ => rfl]
    exact h.sources

end Current

/-! ## Starts -/

section Starts

variable {μ τ ρ : Type} {g : Graph α} {mode : Mode}
  {s t : Session α (Slot α) ω μ τ ρ} {sizes : List Nat}

/-- What nothing waited for at first stays current. -/
theorem current_of_reaches (hg : g.Bipartite)
    (hcoloured : ∀ queue, queue.Perm s.engine.queue →
      Coloured g mode { s.engine with queue }) {c : Nat}
    (hidle : s.engine.inbox c = .idle)
    (hreaches : s.Reaches program sizes t) :
    Current g t.engine c (s.since program c sizes.length) := by
  obtain ⟨begun, hbegin, hrun⟩ := hreaches
  induction hrun with
  | rest =>
      obtain ⟨order, -, rfl⟩ := Session.begin_ok hbegin
      refine ⟨congrArg Except.ok hidle.symm, fun call step m hdeed => ?_,
        fun target message hdeed => ?_⟩
      · exact absurd hdeed List.not_mem_nil
      · exact absurd hdeed List.not_mem_nil
  | @advance sizes t u hrun hactive _ hadvance ih =>
      have hreaches : s.Reaches program sizes t := ⟨begun, hbegin, hrun⟩
      obtain ⟨engine, hwork, hreported⟩ := Session.advance_ok hadvance
      have hnext := ih.work hg (coloured_of_reaches hg hcoloured hreaches)
        hactive hwork
      rw [List.length_append, List.length_singleton, Session.since,
        ← hreaches.eq_state]
      -- Aggregators have reached the settings and the notes at most.
      refine ⟨?_, ?_⟩
      · rw [hreported.engine]
        exact hnext.inbox
      · rw [hreported.engine]
        exact hnext.sources

variable {vertices : Array (Vertex α)} {settings : Settings α}
  {pace : Nat → α} {e : Engine α (Slot α) ω}

/-- Where rows have been woken on a fresh engine, with whatever counts and
whatever budget, and wait in whatever order: in synchronous mode only rows are
active after an even number of rounds, and only columns after an odd number; in
asynchronous mode the queue is a block of one side and then a block of the
other, before every activation.  So in the iteration that begins then, whether
it goes through or not, a column that applies what it was sent since its last
turn is as all calls have read it that have sent something to it, and a row that
applies its total is as its calls have read it, and so are its neighbours. -/
theorem two_coloured (hg : g.Bipartite) (hsize : vertices.size = g.size)
    (hwake : Trainer.wakeRows.perform
      (Engine.make mode g vertices settings none pace) = (.ok (), e))
    {queue : List Nat} (hqueue : queue.Perm e.queue)
    (hengine : s.engine = { e with queue })
    (hreaches : s.Reaches program sizes t) :
    (mode = .synchronous →
      (Even sizes.length → ∀ v ∈ t.engine.active, g.OnSide .row v) ∧
        (Odd sizes.length → ∀ v ∈ t.engine.active, g.OnSide .column v)) ∧
      (mode = .asynchronous → g.TwoBlocks t.engine.queue) ∧
      ∀ use, .applies use ∈ t.engine.deeds program →
        (g.IsColumn use.place → ColumnFresh g
          (s.since program use.place sizes.length) use) ∧
        (g.IsRow use.place → RowFresh g (t.engine.deeds program) use) := by
  have hstart : ∀ order, order.Perm s.engine.queue →
      Coloured g mode { s.engine with queue := order } := by
    intro order horder
    rw [hengine] at horder ⊢
    exact coloured_of_wakeRows hg hsize hwake (horder.trans hqueue)
  have hcoloured := coloured_of_reaches hg hstart hreaches
  have hiteration : t.engine.iteration = sizes.length := by
    rw [hreaches.iteration_eq, hengine]
    change e.iteration + sizes.length = sizes.length
    rw [iteration_of_wakeRows hwake, Nat.zero_add]
  refine ⟨fun hsync => ?_, hcoloured.line, fun use hdeed => ?_⟩
  · have hround := hcoloured.round hsync
    rw [hiteration] at hround
    constructor
    · intro heven
      rwa [sideOf, if_pos (Nat.even_iff.mp heven)] at hround
    · intro hodd
      rwa [sideOf, if_neg (by rw [Nat.odd_iff.mp hodd]; decide)] at hround
  · have huse : AppliedIn t.engine use := deedIn_of_mem hg hcoloured hdeed
    refine ⟨fun hcolumn => ?_, huse.rowFresh hg hcoloured⟩
    have hidle : s.engine.inbox use.place = .idle := by
      refine Inbox.eq_idle_of_not_isActive ?_
      rw [← Bool.not_eq_true, hengine]
      intro hactive
      obtain ⟨hlt, hrow, -⟩ := (isActive_of_wakeRows hwake _).mp hactive
      exact hg.not_isColumn_of_isRow hlt hrow hcolumn
    exact (current_of_reaches hg hstart hidle hreaches).columnFresh hcoloured
      huse hcolumn

end Starts

/-- Who applies among some deeds, and what their slots hold. -/
def appliers (deeds : List (Deed α (Slot α))) : List (Nat × Slot α) :=
  deeds.filterMap fun
    | .applies use => some (use.place, use.slot)
    | _ => none

omit [Scalar α] in
private theorem mem_appliers {deeds : List (Deed α (Slot α))} {place : Nat}
    {slot : Slot α} (h : (place, slot) ∈ appliers deeds) :
    ∃ use, .applies use ∈ deeds ∧ use.place = place ∧ use.slot = slot := by
  obtain ⟨deed, hdeed, hsome⟩ := List.mem_filterMap.mp h
  cases deed with
  | applies use =>
      obtain ⟨hplace, hslot⟩ := Prod.mk.inj (Option.some.inj hsome)
      exact ⟨use, hdeed, hplace, hslot⟩
  | gathers call answer => cases hsome
  | signals target message => cases hsome

/-- A session of the sample with its queue in another order. -/
def turnedSample : Session Int (Slot Int) Empty Unit Unit Unit :=
  { sampleSession .asynchronous with
    engine := { wokenSample .asynchronous with queue := [1, 0, 2] } }

/-- On the sample: after a round both columns are active, and the first of them
is about to apply what it was sent in it.  After an activation in the other mode
two rows wait before the columns, and a row is about to apply. -/
theorem two_coloured_sample :
    (∃ t, (sampleSession .synchronous).Reaches program [3] t ∧
      t.engine.active = [3, 4] ∧
      (∀ v ∈ t.engine.active, sampleGraph.OnSide .column v) ∧
      ∃ use, .applies use ∈ t.engine.deeds program ∧ use.place = 3 ∧
        use.slot = some ⟨[3, 0], -3⟩ ∧ ColumnFresh sampleGraph
          ((sampleSession .synchronous).since program use.place 1) use) ∧
      ∃ t, turnedSample.Reaches program [3] t ∧
        t.engine.queue = [0, 2, 3, 4] ∧
        sampleGraph.TwoBlocks t.engine.queue ∧
        ∃ use, .applies use ∈ t.engine.deeds program ∧ use.place = 0 ∧
          RowFresh sampleGraph (t.engine.deeds program) use := by
  constructor
  · have hreaches : (sampleSession .synchronous).Reaches program [3]
        ((sampleSession .synchronous).state program 1) :=
      ⟨_, rfl, Session.Run.rest.advance (by decide +kernel) rfl
        (Attempt.perform_of_toOption (by decide +kernel))⟩
    obtain ⟨hround, -, huses⟩ := two_coloured sampleGraph_bipartite rfl
      (wakeRows_sampleEngine .synchronous) (.refl _) rfl hreaches
    have happlies : (3, some ⟨[3, 0], -3⟩) ∈ appliers
        (((sampleSession .synchronous).state program 1).engine.deeds
          program) := by decide +kernel
    obtain ⟨use, hdeed, hplace, hslot⟩ := mem_appliers happlies
    exact ⟨_, hreaches, by decide +kernel, (hround rfl).2 (by decide), use,
      hdeed, hplace, hslot, (huses use hdeed).1 (hplace ▸ by decide)⟩
  · have hreaches : turnedSample.Reaches program [3]
        (turnedSample.state program 1) :=
      ⟨_, rfl, Session.Run.rest.advance (by decide +kernel) rfl
        (Attempt.perform_of_toOption (by decide +kernel))⟩
    obtain ⟨-, hline, huses⟩ := two_coloured sampleGraph_bipartite rfl
      (wakeRows_sampleEngine .asynchronous) (by decide) rfl hreaches
    have happlies : (0, none) ∈ appliers
        ((turnedSample.state program 1).engine.deeds program) := by
      decide +kernel
    obtain ⟨use, hdeed, hplace, -⟩ := mem_appliers happlies
    exact ⟨_, hreaches, by decide +kernel, hline rfl, use, hdeed, hplace,
      (huses use hdeed).2 (hplace ▸ by decide)⟩

end Descent

end RatingFactors
