import RatingFactors.Engine.Run
import RatingFactors.Proofs.Engine.Phases

/-!
# Watched programs

What a program does can be read off what it notes down, if it notes down enough.
The watched version of a program notes down every phase when it begins and every
signal just before it is sent, and nothing else.  An engine shows its notes to
nobody, so the watched version does the same as the program itself; and as every
engine runs it, so that its notes say what really happened, in which order.

## Main definitions

* `Phase`, `Event` — what is noted down.
* `Program.watched` — the watched version of a program.
* `Engine.watching` — an engine that keeps other notes.
* `signalsTo`, `phasesOf` — the events that concern one vertex.
* `Engine.Logged` — what events have done to the inboxes.
-/

namespace RatingFactors

/-- The beginning of a phase of an activation. -/
inductive Phase (α : Type)
  /-- The vertex takes in a message. -/
  | took (message : Step α)
  /-- The vertex gathers over the edge with a number. -/
  | gathered (number : Nat)
  /-- The vertex applies a total. -/
  | applied (total : Step α)
  /-- The vertex scatters along the edge with a number. -/
  | scattered (number : Nat)

/-- What a watched program notes down. -/
inductive Event (α : Type)
  /-- A signal is sent. -/
  | sent (target : Address) (message : Option (Step α))
  /-- The vertex at a place begins a phase. -/
  | did (place : Nat) (phase : Phase α)

/-! ## The watched version of a program -/

section Watched

variable {α σ ω μ τ ρ β : Type}

/-- A signal is noted down just before it is sent; other notes are not
kept. -/
def Action.watched : Action α σ ω → List (Action α σ (Event α))
  | .signal target message =>
    [.note (.entry (.sent target message)), .signal target message]
  | .store vertex => [.store vertex]
  | .keep slot => [.keep slot]
  | .note _ => []

/-- Notes down that a phase begins, and watches its actions. -/
def Reply.watched (place : Nat) (phase : Phase α) (reply : Reply α σ ω β) :
    Reply α σ (Event α) β where
  actions := .note (.entry (.did place phase)) ::
    reply.actions.flatMap Action.watched
  answer := reply.answer

/-- Notes down the message that the engine will send for a contribution. -/
def Reply.forwarding (reply : Reply α σ (Event α) (Contribution α)) :
    Reply α σ (Event α) (Contribution α) where
  actions := reply.actions ++ match reply.answer with
    | .ok ⟨_, some m⟩ =>
      [.note (.entry (.sent (.id m.target) (some m.payload)))]
    | _ => []
  answer := reply.answer

/-- The same program, noting down its phases and signals. -/
def Program.watched (p : Program α σ ω) : Program α σ (Event α) where
  fresh := p.fresh
  gatherEdges := p.gatherEdges
  scatterEdges := p.scatterEdges
  init scene place slot message :=
    (p.init scene place slot message).watched place (.took message)
  gather scene place slot number :=
    ((p.gather scene place slot number).watched place
      (.gathered number)).forwarding
  apply scene place slot total :=
    (p.apply scene place slot total).watched place (.applied total)
  scatter scene place slot number :=
    (p.scatter scene place slot number).watched place (.scattered number)

/-- The engine, keeping other notes. -/
def Engine.watching {ω' : Type} (e : Engine α σ ω) (notes : Array (Note ω')) :
    Engine α σ ω' :=
  { e with notes := notes }

/-- The events that have been noted down. -/
def eventsIn (notes : Array (Note (Event α))) : List (Event α) :=
  notes.toList.filterMap Note.entry?

/-- The notes after some events have been noted down. -/
def noting (notes : Array (Note (Event α))) (log : List (Event α)) :
    Array (Note (Event α)) :=
  log.foldl (fun notes event => notes.push (.entry event)) notes

theorem noting_append (notes : Array (Note (Event α)))
    (log more : List (Event α)) :
    noting notes (log ++ more) = noting (noting notes log) more :=
  List.foldl_append

theorem eventsIn_noting (notes : Array (Note (Event α)))
    (log : List (Event α)) :
    eventsIn (noting notes log) = eventsIn notes ++ log := by
  induction log generalizing notes with
  | nil => exact (List.append_nil _).symm
  | cons event rest ih =>
      have hpush : eventsIn (notes.push (.entry event)) =
          eventsIn notes ++ [event] := by
        rw [eventsIn, eventsIn, Array.toList_push, List.filterMap_append]
        rfl
      change eventsIn (noting (notes.push (.entry event)) rest) = _
      rw [ih, hpush, List.append_assoc]
      rfl

/-- Printed lines are no events. -/
theorem eventsIn_push_line (notes : Array (Note (Event α))) (text : String) :
    eventsIn (notes.push (.line text)) = eventsIn notes := by
  rw [eventsIn, eventsIn, Array.toList_push, List.filterMap_append]
  exact List.append_nil _

end Watched

/-! ## What concerns one vertex -/

section Events

variable {α σ ω : Type}

/-- The place of the vertex that an address means, if there is one. -/
def Graph.meant (g : Graph α) : Address → Option Nat
  | .place place => if place < g.size then some place else none
  | .id id => (g.placeOf id).toOption

private theorem meant_of_resolve {e : Engine α σ ω} {target : Address}
    {place : Nat} (h : e.resolve target = .ok place) :
    e.graph.meant target = some place := by
  cases target with
  | place spot =>
      obtain ⟨rfl, hlt⟩ := Engine.resolve_place_ok h
      rw [Graph.meant, if_pos hlt]
  | id id =>
      have hid : e.graph.placeOf id = .ok place := h
      rw [Graph.meant, hid]
      rfl

/-- The signals to a vertex among events, in order, with their messages. -/
def signalsTo (g : Graph α) (v : Nat) (log : List (Event α)) :
    List (Option (Step α)) :=
  log.filterMap fun
    | .sent target message =>
      if g.meant target = some v then some message else none
    | .did _ _ => none

/-- The phases of a vertex among events, in order. -/
def phasesOf (v : Nat) (log : List (Event α)) : List (Phase α) :=
  log.filterMap fun
    | .sent _ _ => none
    | .did place phase => if place = v then some phase else none

variable {g : Graph α} {v : Nat}

@[simp] theorem signalsTo_append (log more : List (Event α)) :
    signalsTo g v (log ++ more) = signalsTo g v log ++ signalsTo g v more :=
  List.filterMap_append

@[simp] theorem phasesOf_append (log more : List (Event α)) :
    phasesOf v (log ++ more) = phasesOf v log ++ phasesOf v more :=
  List.filterMap_append

@[simp] theorem phasesOf_sent (target : Address)
    (message : Option (Step α)) (log : List (Event α)) :
    phasesOf v (.sent target message :: log) = phasesOf v log := rfl

private theorem signalsTo_sent (target : Address) (message : Option (Step α))
    (log : List (Event α)) :
    signalsTo g v (.sent target message :: log) =
      if g.meant target = some v then message :: signalsTo g v log
      else signalsTo g v log := by
  by_cases hv : g.meant target = some v
  · simp [signalsTo, hv]
  · simp [signalsTo, hv]

private theorem phasesOf_did (place : Nat) (phase : Phase α)
    (log : List (Event α)) :
    phasesOf v (.did place phase :: log) =
      if place = v then phase :: phasesOf v log else phasesOf v log := by
  by_cases hv : place = v
  · simp [phasesOf, hv]
  · simp [phasesOf, hv]

@[simp] theorem signalsTo_did (place : Nat) (phase : Phase α)
    (log : List (Event α)) :
    signalsTo g v (.did place phase :: log) = signalsTo g v log := rfl

/-- Only one vertex does anything among events, namely these phases. -/
def Only (place : Nat) (phases : List (Phase α)) (log : List (Event α)) :
    Prop :=
  ∀ v, phasesOf v log = if v = place then phases else []

theorem only_nil (place : Nat) : Only place [] ([] : List (Event α)) := by
  intro v
  rw [ite_self]
  rfl

theorem only_did (place : Nat) (phase : Phase α) {log : List (Event α)}
    (h : Only place [] log) : Only place [phase] (.did place phase :: log) := by
  intro v
  have hlog := h v
  rw [ite_self] at hlog
  rw [phasesOf_did, hlog]
  by_cases hv : v = place
  · rw [if_pos hv.symm, if_pos hv]
  · rw [if_neg (Ne.symm hv), if_neg hv]

theorem Only.append {place : Nat} {phases more : List (Phase α)}
    {log later : List (Event α)} (h : Only place phases log)
    (hlater : Only place more later) :
    Only place (phases ++ more) (log ++ later) := by
  intro v
  rw [phasesOf_append, h, hlater]
  by_cases hv : v = place
  · simp [hv]
  · simp [hv]

end Events

/-! ## What events have done -/

namespace Engine

variable {α σ ω : Type} [Scalar α]

/-- Between two states of an engine some events have happened: every vertex has
received the signals to it among them, and nothing else has touched the inboxes,
the queue or the graph. -/
structure Logged (e e' : Engine α σ ω) (log : List (Event α)) : Prop where
  mode : e'.mode = e.mode
  graph : e'.graph = e.graph
  size : e'.inboxes.size = e.inboxes.size
  orderly : e.Orderly → e'.Orderly
  inbox : ∀ v, (signalsTo e.graph v log).foldlM Inbox.receive (e.inbox v) =
    .ok (e'.inbox v)

theorem Logged.trans {e e' e'' : Engine α σ ω} {log more : List (Event α)}
    (h : e.Logged e' log) (h' : e'.Logged e'' more) :
    e.Logged e'' (log ++ more) where
  mode := h'.mode.trans h.mode
  graph := h'.graph.trans h.graph
  size := h'.size.trans h.size
  orderly := fun horderly => h'.orderly (h.orderly horderly)
  inbox := by
    intro v
    have hmore := h'.inbox v
    rw [h.graph] at hmore
    rw [signalsTo_append, List.foldlM_append, h.inbox]
    exact hmore

/-- What touches neither inboxes nor queue nor graph. -/
theorem logged_of_frame {e e' : Engine α σ ω} {log : List (Event α)}
    (hmode : e'.mode = e.mode) (hgraph : e'.graph = e.graph)
    (hinboxes : e'.inboxes = e.inboxes) (hqueue : e'.queue = e.queue)
    (hlog : ∀ v, signalsTo e.graph v log = []) : e.Logged e' log where
  mode := hmode
  graph := hgraph
  size := congrArg Array.size hinboxes
  orderly := fun h => h.frame hmode hinboxes (hqueue ▸ .refl _)
  inbox := by
    intro v
    rw [hlog, Engine.inbox, Engine.inbox, hinboxes]
    rfl

theorem Logged.refl (e : Engine α σ ω) : e.Logged e [] :=
  logged_of_frame rfl rfl rfl rfl fun _ => rfl

/-- A signal reaches the vertex that its address means. -/
theorem logged_posted {e : Engine α σ ω} {target : Address} {place : Nat}
    {message : Option (Step α)} {filled : Inbox α}
    (hsize : e.inboxes.size = e.graph.size)
    (hplace : e.resolve target = .ok place)
    (hfilled : (e.inbox place).receive message = .ok filled) :
    e.Logged (e.posted (place, message)) [.sent target message] where
  mode := rfl
  graph := rfl
  size := Array.size_setIfInBounds
  orderly := fun h => h.posted (hsize ▸ resolve_lt hplace)
  inbox := by
    intro v
    have hlt : place < e.inboxes.size := hsize ▸ resolve_lt hplace
    have hinbox : (e.posted (place, message)).inbox v =
        if v = place then (e.inbox place).put message else e.inbox v :=
      inbox_posted hlt v
    rw [hinbox]
    rw [signalsTo_sent, meant_of_resolve hplace]
    by_cases hv : v = place
    · subst hv
      rw [if_pos rfl, if_pos rfl, ← Inbox.eq_put_of_receive hfilled]
      change ((e.inbox v).receive message >>= pure) = _
      rw [hfilled]
      rfl
    · rw [if_neg hv, if_neg fun h => hv (Option.some.inj h).symm]
      rfl

end Engine

end RatingFactors
