import RatingFactors.Proofs.Descent.Iterations
import RatingFactors.Proofs.Descent.Waking
import RatingFactors.Proofs.Engine.Endings

/-!
# Two colours

Rows wake columns and columns wake rows, and at first only rows are woken.  So
in synchronous mode rows and columns take turns, round by round.  In
asynchronous mode the queue begins with the rest of one block, all of whose
vertices lie on one side; whom they wake goes to the end, behind vertices of the
other side only.  Nothing in the engine looks after this: it holds whatever
budget and counts there are, and in whatever order the rows have been put.

In both modes the vertices whose turn it is lie on one side, and so none of them
is a neighbour of another.

## Main definitions

* `Side`, `Graph.OnSide` — the two sides of a graph.
* `Graph.Adjoins` — an edge of whatever role joins two vertices.
* `Graph.TwoBlocks` — a block of one side, and then one of the other.
* `Coloured` — the invariant.

## Main results

* `Coloured.work` — an iteration keeps the colours.
* `coloured_of_reaches` — between iterations a start is coloured.
-/

namespace RatingFactors

/-- The two sides of a bipartite graph. -/
inductive Side
  | row
  | column

/-- The side across. -/
def Side.other : Side → Side
  | row => column
  | column => row

namespace Graph

variable {α : Type} [Scalar α] {g : Graph α} {side : Side} {v w : Nat}

/-- The vertex lies on this side, and not on the other. -/
def OnSide (g : Graph α) (side : Side) (v : Nat) : Prop :=
  match side with
  | .row => g.IsRow v ∧ ¬ g.IsColumn v
  | .column => g.IsColumn v ∧ ¬ g.IsRow v

/-- An edge joins the two vertices, whatever its role is. -/
def Adjoins (g : Graph α) (v w : Nat) : Prop :=
  ∃ n ∈ g.incident v .both, otherEnd (g.edgeAt n) v = w

/-- A block of vertices of one side, and then a block of the other.  Either may
be empty. -/
def TwoBlocks (g : Graph α) (places : List Nat) : Prop :=
  ∃ side first second, places = first ++ second ∧
    (∀ v ∈ first, g.OnSide side v) ∧ ∀ v ∈ second, g.OnSide side.other v

omit [Scalar α] in
theorem OnSide.not_other (h : g.OnSide side v) : ¬ g.OnSide side.other v := by
  cases side with
  | row => exact fun hother => h.2 hother.1
  | column => exact fun hother => h.2 hother.1

theorem Meets.adjoins (h : g.Meets v w) : g.Adjoins v w := by
  obtain ⟨n, hn, rfl⟩ := h
  exact ⟨n, (List.mem_filter.mp hn).1, rfl⟩

theorem Bipartite.onSide_row (hg : g.Bipartite) (hv : v < g.size)
    (h : g.IsRow v) : g.OnSide .row v :=
  ⟨h, hg.not_isColumn_of_isRow hv h⟩

theorem Bipartite.onSide_column (hg : g.Bipartite) (hv : v < g.size)
    (h : g.IsColumn v) : g.OnSide .column v :=
  ⟨h, fun hrow => hg.not_isColumn_of_isRow hv hrow h⟩

/-- Edges run from one side to the other. -/
theorem Bipartite.onSide_of_adjoins (hg : g.Bipartite) (hv : v < g.size)
    (h : g.Adjoins v w) (hside : g.OnSide side v) : g.OnSide side.other w := by
  obtain ⟨n, hn, rfl⟩ := h
  obtain ⟨hlt, hends⟩ := (hg.mem_incident_both hv).mp hn
  have hrow := (hg.isRow_iff (hg.source_lt n hlt)).mpr ⟨n, hlt, rfl⟩
  have hcolumn := (hg.isColumn_iff (hg.target_lt n hlt)).mpr ⟨n, hlt, rfl⟩
  unfold otherEnd
  cases side with
  | row =>
      have hsource : v = (g.edgeAt n).source :=
        (hends.resolve_right fun htarget => hside.2 (htarget ▸ hcolumn)).symm
      rw [if_pos hsource]
      exact hg.onSide_column (hg.target_lt n hlt) hcolumn
  | column =>
      have hsource : v ≠ (g.edgeAt n).source :=
        fun hsource => hside.2 (hsource ▸ hrow)
      rw [if_neg hsource]
      exact hg.onSide_row (hg.source_lt n hlt) hrow

omit [Scalar α] in
/-- A list that is not empty and consists of two blocks begins with a vertex of
one side, and the rest of its block. -/
theorem TwoBlocks.cons {rest : List Nat} (h : g.TwoBlocks (v :: rest)) :
    ∃ side first second, rest = first ++ second ∧ g.OnSide side v ∧
      (∀ w ∈ first, g.OnSide side w) ∧
      ∀ w ∈ second, g.OnSide side.other w := by
  obtain ⟨side, first, second, hsplit, hfirst, hsecond⟩ := h
  cases first with
  | nil =>
      rw [List.nil_append] at hsplit
      subst hsplit
      exact ⟨side.other, rest, [], by simp, hsecond v (by simp),
        fun w hw => hsecond w (by simp [hw]), by simp⟩
  | cons u first =>
      obtain ⟨rfl, rfl⟩ := List.cons.inj hsplit
      exact ⟨side, first, second, rfl, hfirst v (by simp),
        fun w hw => hfirst w (by simp [hw]), hsecond⟩

end Graph

namespace Descent

variable {α ω : Type} [Scalar α]

/-- The side whose turn it is in a round: rows and columns take turns. -/
def sideOf (round : Nat) : Side :=
  if round % 2 = 0 then .row else .column

theorem sideOf_succ (k : Nat) : sideOf (k + 1) = (sideOf k).other := by
  unfold sideOf
  rcases Nat.mod_two_eq_zero_or_one k with h | h
  · rw [show (k + 1) % 2 = 1 by omega, h]
    rfl
  · rw [show (k + 1) % 2 = 0 by omega, h]
    rfl

/-- Between two iterations the active vertices are coloured: in synchronous mode
they lie on the side whose turn it is, and in asynchronous mode the queue
consists of two blocks.  All slots are empty then. -/
structure Coloured (g : Graph α) (mode : Mode) (e : Engine α (Slot α) ω) :
    Prop where
  graph : e.graph = g
  mode_eq : e.mode = mode
  sized : e.Sized
  orderly : e.Orderly
  slots : ∀ v, e.slots.getD v none = none
  round : mode = .synchronous →
    ∀ v ∈ e.active, g.OnSide (sideOf e.iteration) v
  line : mode = .asynchronous → g.TwoBlocks e.queue

namespace Coloured

variable {g : Graph α} {mode : Mode} {e e' : Engine α (Slot α) ω}

omit [Scalar α] in
theorem lt_of_mem_order (h : Coloured g mode e) {v : Nat} (hv : v ∈ e.order) :
    v < g.size :=
  h.graph ▸ h.sized.lt_of_mem_order h.orderly v hv

omit [Scalar α] in
/-- The vertices whose turn it is lie on one side. -/
theorem order_onSide (h : Coloured g mode e) :
    ∃ side, ∀ v ∈ e.order, g.OnSide side v := by
  unfold Engine.order
  rw [h.mode_eq]
  cases hmode : mode with
  | synchronous => exact ⟨_, h.round hmode⟩
  | asynchronous =>
      have hline := h.line hmode
      cases hqueue : e.queue with
      | nil => exact ⟨.row, by simp⟩
      | cons v rest =>
          rw [hqueue] at hline
          obtain ⟨side, _, _, -, hv, -⟩ := hline.cons
          exact ⟨side, by simpa using hv⟩

/-- Nobody whose turn it is is a neighbour of anybody else whose turn it is. -/
theorem not_adjoins (hg : g.Bipartite) (h : Coloured g mode e) {v w : Nat}
    (hv : v ∈ e.order) (hw : w ∈ e.order) : ¬ g.Adjoins v w := by
  intro hadjoins
  obtain ⟨side, hside⟩ := h.order_onSide
  exact (hside w hw).not_other
    (hg.onSide_of_adjoins (h.lt_of_mem_order hv) hadjoins (hside v hv))

section Work

variable (hg : g.Bipartite) (h : Coloured g mode e)
  (hturn : Turn e.cleared e.inbox e.order e')

include hg h hturn

/-- Whoever is active after a turn waited before it and still does, or has been
reached by somebody whose turn it was. -/
theorem active_of_turn {w : Nat} (hw : (e'.inbox w).isActive = true) :
    (w ∉ e.order ∧ (e.inbox w).isActive = true) ∨
      ∃ v ∈ e.order, g.Meets v w := by
  have hactive := (hturn.isActive_iff
    (by rw [Engine.graph_cleared, h.graph]; exact hg.toFaithful)
    (by
      rw [Engine.graph_cleared]
      exact h.sized.lt_of_mem_order h.orderly) w).mp hw
  rw [h.orderly.inbox_cleared, Engine.graph_cleared, h.graph] at hactive
  rcases hactive with hstill | ⟨v, hv, hmeets, -⟩
  · by_cases hturned : w ∈ e.order
    · rw [if_pos hturned] at hstill
      cases hstill
    · rw [if_neg hturned] at hstill
      exact .inl ⟨hturned, hstill⟩
  · exact .inr ⟨v, hv, hmeets⟩

/-- In synchronous mode the other side is active after a turn. -/
theorem round_of_turn (hmode : mode = .synchronous) :
    ∀ w ∈ e'.active, g.OnSide (sideOf (e.iteration + 1)) w := by
  have horder : e.order = e.active := by
    rw [Engine.order, h.mode_eq, hmode]
  intro w hw
  rcases h.active_of_turn hg hturn (Engine.mem_active.mp hw) with
    ⟨hnot, hwaits⟩ | ⟨v, hv, hmeets⟩
  · rw [horder, Engine.mem_active] at hnot
    exact absurd hwaits hnot
  · rw [sideOf_succ]
    exact hg.onSide_of_adjoins (h.lt_of_mem_order hv) hmeets.adjoins
      (h.round hmode v (horder ▸ hv))

/-- In asynchronous mode those who are woken go behind vertices of their own
side. -/
theorem line_of_turn (hactive : e.activeCount ≠ 0)
    (hmode : mode = .asynchronous) (horderly : e'.Orderly) :
    g.TwoBlocks e'.queue := by
  have hline := h.line hmode
  replace hmode : e.mode = .asynchronous := h.mode_eq.trans hmode
  have horder : e.order = e.queue.take 1 := by
    rw [Engine.order, hmode]
  obtain ⟨fresh, hfresh⟩ := hturn.queue_eq
  cases hqueue : e.queue with
  | nil =>
      rw [hqueue] at horder
      exact absurd horder (h.orderly.order_ne_nil hactive)
  | cons v rest =>
      have hv : e.order = [v] := by rw [horder, hqueue]; rfl
      rw [Engine.cleared, hmode, hqueue] at hfresh
      change e'.queue = rest ++ fresh at hfresh
      rw [hqueue] at hline
      obtain ⟨side, first, second, rfl, hside, hfirst, hsecond⟩ := hline.cons
      refine ⟨side, first, second ++ fresh, ?_, hfirst, fun w hw => ?_⟩
      · rw [hfresh, List.append_assoc]
      · refine (List.mem_append.mp hw).elim (hsecond w) fun hnew => ?_
        have hactive' := (horderly.mem_queue
          (hturn.mode_eq.trans (e.mode_cleared.trans hmode)) w).mp
          (hfresh ▸ List.mem_append_right _ hnew)
        rcases h.active_of_turn hg hturn hactive' with
          ⟨hnot, hwaits⟩ | ⟨u, hu, hmeets⟩
        · -- Then it stood in the queue already, and nobody stands there twice.
          have hin := (h.orderly.mem_queue hmode w).mpr hwaits
          rw [hv, List.mem_singleton] at hnot
          rw [hqueue] at hin
          have hold := (List.mem_cons.mp hin).resolve_left hnot
          have hnodup := horderly.nodup
          rw [hfresh] at hnodup
          exact absurd rfl ((List.nodup_append.mp hnodup).2.2 w hold w hnew)
        · rw [hv, List.mem_singleton] at hu
          subst hu
          exact hg.onSide_of_adjoins (h.lt_of_mem_order (hv ▸ by simp))
            hmeets.adjoins hside

end Work

/-- An iteration that goes through keeps the colours. -/
theorem work (hg : g.Bipartite) (h : Coloured g mode e)
    (hactive : e.activeCount ≠ 0)
    (hwork : (Engine.work program e.mode).perform e = (.ok (), e')) :
    Coloured g mode (Session.passIteration e') := by
  have hfaithful : e.graph.Faithful := h.graph ▸ hg.toFaithful
  have hturn := turn_of_work h.sized hfaithful h.orderly hactive hwork
  obtain ⟨hsized, horderly, hgraph⟩ :=
    books_of_work h.sized hfaithful h.orderly hactive hwork
  have hmode : e'.mode = mode :=
    hturn.mode_eq.trans (e.mode_cleared.trans h.mode_eq)
  have hiteration : e'.iteration = e.iteration :=
    hturn.iteration_eq.trans (e.cleared_frame Engine.iteration fun _ _ => rfl)
  refine ⟨hgraph.trans h.graph, hmode, hsized, horderly, fun v => ?_,
    fun hsync w hw => ?_, fun hasync => ?_⟩
  · by_cases hv : v ∈ e.order
    · exact hturn.slot_mem v hv
    · refine (hturn.slot_not_mem v hv).trans ?_
      rw [e.slots_cleared]
      exact h.slots v
  · have hround := h.round_of_turn hg hturn hsync w hw
    rwa [← hiteration] at hround
  · have hline : g.TwoBlocks e'.queue :=
      h.line_of_turn hg hturn hactive hasync
        (horderly.frame rfl rfl (.refl _))
    exact hline

omit [Scalar α] in
/-- Settings, notes and the clock do not matter to the colours. -/
theorem frame (h : Coloured g mode e) (settings : Settings α)
    (notes : Array (Note ω)) (startedAt : α) :
    Coloured g mode { e with settings, notes, startedAt } :=
  ⟨h.graph, h.mode_eq, ⟨h.sized.vertices, h.sized.slots, h.sized.inboxes⟩,
    h.orderly.frame rfl rfl (.refl _), h.slots, h.round, h.line⟩

end Coloured

/-! ## Starts -/

section Starts

variable {μ τ ρ : Type} {g : Graph α} {vertices : Array (Vertex α)}
  {settings : Settings α} {mode : Mode} {pace : Nat → α}
  {e : Engine α (Slot α) ω}

/-- A fresh engine whose rows have been woken is coloured, in whatever order
they wait. -/
theorem coloured_of_wakeRows (hg : g.Bipartite)
    (hsize : vertices.size = g.size)
    (hwake : Trainer.wakeRows.perform
      (Engine.make mode g vertices settings none pace) = (.ok (), e))
    {queue : List Nat} (hqueue : queue.Perm e.queue) :
    Coloured g mode { e with queue } := by
  have hgraph := graph_of_wakeRows hwake
  have hsized := sized_of_wakeRows hsize hwake
  have horderly : Engine.Orderly ({ e with queue } : Engine α (Slot α) ω) :=
    (orderly_of_wakeRows hwake).frame rfl rfl hqueue
  have hrows : ∀ v, (e.inbox v).isActive = true → g.OnSide .row v :=
    fun v hv => by
      obtain ⟨hlt, hrow, -⟩ := (isActive_of_wakeRows hwake v).mp hv
      exact hg.onSide_row hlt hrow
  have hmode : e.mode = mode :=
    frame_of_wakeRows hwake Engine.mode fun _ _ => rfl
  have hslots : e.slots = Array.replicate g.size none :=
    frame_of_wakeRows hwake Engine.slots fun _ _ => rfl
  refine ⟨hgraph, hmode,
    ⟨hsized.vertices, hsized.slots, hsized.inboxes⟩, horderly, fun v => ?_,
    fun _ v hv => ?_, fun hasync => ?_⟩
  · change e.slots.getD v none = none
    rw [hslots, Array.getD_eq_getD_getElem?, Array.getElem?_replicate]
    split <;> rfl
  · change g.OnSide (sideOf e.iteration) v
    rw [iteration_of_wakeRows hwake]
    exact hrows v (Engine.mem_active.mp hv)
  · exact ⟨.row, queue, [], by simp,
      fun v hv => hrows v ((horderly.mem_queue (hmode.trans hasync) v).mp hv),
      by simp⟩

/-- Iterations keep an engine coloured, whatever the aggregators do to its
settings. -/
theorem kept_coloured (hg : g.Bipartite) :
    Session.Kept (program : Program α (Slot α) ω) (fun _ : Settings α => ())
      (Coloured g mode) where
  work _ _ h hactive hwork := h.work hg hactive hwork
  settings e settings notes h _ := h.frame settings notes e.startedAt

/-- Between iterations a start is coloured. -/
theorem coloured_of_reaches (hg : g.Bipartite)
    {s t : Session α (Slot α) ω μ τ ρ}
    (hcoloured : ∀ queue, queue.Perm s.engine.queue →
      Coloured g mode { s.engine with queue }) {sizes : List Nat}
    (hreaches : s.Reaches program sizes t) : Coloured g mode t.engine :=
  ((kept_coloured hg).reaches hreaches (fun order startedAt horder =>
    (hcoloured order horder).frame s.engine.settings s.engine.notes startedAt)
    fun _ _ _ _ _ => rfl).1

end Starts

end Descent

end RatingFactors
