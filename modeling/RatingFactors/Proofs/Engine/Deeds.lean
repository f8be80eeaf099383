import RatingFactors.Proofs.Engine.Recorded
import RatingFactors.Proofs.Engine.Traced

/-!
# Deeds

What a vertex gathers or applies depends on what could be seen at that moment,
and whether that was still so later cannot be told from the states between
iterations.  The observed version of a program notes down each call of its
gathering and applying phases with all that the call was given, and each signal,
in the order in which they happen.  It does the same as the program itself, and
this includes iterations that fail halfway: what had been done by then is noted
down as well.

## Main definitions

* `Use`, `Deed` — what is noted down.
* `Program.observed` — the program that notes down its deeds.
* `Program.Sends` — which signals it asks for.
* `Engine.deeds` — the deeds of the iteration that begins in an engine.
* `Engine.Observed`, `Engine.Exhibits` — observed work does the same, and its
  deeds account for the inboxes.
* `Session.since` — the deeds since the last turn of a vertex.

## Main results

* `exhibits_phases` — which deeds the four phases consist of.
* `observed_deeds`, `logged_deeds` — which deeds an iteration consists of, and
  what everyone has received in it.
* `perform_work_observed` — the observed program does the same.
-/

namespace RatingFactors

/-- A call of the applying phase: what can be seen, the place of the vertex, its
slot, and the total. -/
structure Use (α σ : Type) where
  scene : Scene α
  place : Nat
  slot : σ
  total : Step α

/-- What a program is seen to do. -/
inductive Deed (α σ : Type)
  /-- A vertex gathers over an edge, and the program answers. -/
  | gathers (call : Call α) (answer : Except Failure (Contribution α))
  /-- A vertex applies its total or what its slot holds. -/
  | applies (use : Use α σ)
  /-- The program sends a signal. -/
  | signals (target : Address) (message : Option (Step α))

section Observed

variable {α σ ω β : Type}

/-- The signal that goes with a deed, if there is one.  The message of a
contribution is sent on behalf of the vertex that gathers. -/
def Deed.sent? : Deed α σ → Option (Event α)
  | .gathers _ (.ok ⟨_, some m⟩) => some (.sent (.id m.target) (some m.payload))
  | .signals target message => some (.sent target message)
  | _ => none

/-- A signal is noted down just before it is sent; other notes are not kept. -/
def Action.observed : Action α σ ω → List (Action α σ (Deed α σ))
  | .signal target message =>
    [.note (.entry (.signals target message)), .signal target message]
  | .store vertex => [.store vertex]
  | .keep slot => [.keep slot]
  | .note _ => []

/-- The reply, noting down its signals. -/
def Reply.observed (reply : Reply α σ ω β) : Reply α σ (Deed α σ) β where
  actions := reply.actions.flatMap Action.observed
  answer := reply.answer

/-- Notes down a deed before everything that the reply asks for. -/
def Reply.announcing (deed : Deed α σ) (reply : Reply α σ (Deed α σ) β) :
    Reply α σ (Deed α σ) β where
  actions := .note (.entry deed) :: reply.actions
  answer := reply.answer

/-- Notes down a deed after everything that the reply asks for. -/
def Reply.reporting (deed : Deed α σ) (reply : Reply α σ (Deed α σ) β) :
    Reply α σ (Deed α σ) β where
  actions := reply.actions ++ [.note (.entry deed)]
  answer := reply.answer

/-- The same program, noting down its deeds.  A call of the gathering phase is
noted down when it has sent its own signals, since the message of its
contribution is sent after them. -/
def Program.observed (p : Program α σ ω) : Program α σ (Deed α σ) where
  fresh := p.fresh
  gatherEdges := p.gatherEdges
  scatterEdges := p.scatterEdges
  init scene place slot message := (p.init scene place slot message).observed
  gather scene place slot number :=
    let reply := p.gather scene place slot number
    reply.observed.reporting (.gathers ⟨scene, place, number⟩ reply.answer)
  apply scene place slot total :=
    (p.apply scene place slot total).observed.announcing
      (.applies ⟨scene, place, slot, total⟩)
  scatter scene place slot number :=
    (p.scatter scene place slot number).observed

/-- The signals that a reply asks for are deeds of a kind. -/
def Reply.Sends (reply : Reply α σ ω β) (kind : Deed α σ → Prop) : Prop :=
  ∀ target message, .signal target message ∈ reply.actions →
    kind (.signals target message)

/-- The signals that a program asks for are deeds of a kind. -/
structure Program.Sends (p : Program α σ ω) (kind : Deed α σ → Prop) :
    Prop where
  init : ∀ scene place slot message,
    (p.init scene place slot message).Sends kind
  gather : ∀ scene place slot number,
    (p.gather scene place slot number).Sends kind
  apply : ∀ scene place slot total, (p.apply scene place slot total).Sends kind
  scatter : ∀ scene place slot number,
    (p.scatter scene place slot number).Sends kind

/-- The entries among notes, in order. -/
def entriesIn (notes : Array (Note ω)) : List ω :=
  notes.toList.filterMap Note.entry?

/-- The notes after some entries have been made. -/
def entering (notes : Array (Note ω)) (entries : List ω) : Array (Note ω) :=
  notes ++ (entries.map Note.entry).toArray

@[simp] theorem entering_nil (notes : Array (Note ω)) :
    entering notes [] = notes := by
  simp [entering]

theorem entering_append (notes : Array (Note ω)) (entries more : List ω) :
    entering notes (entries ++ more) =
      entering (entering notes entries) more := by
  simp [entering]

theorem entriesIn_entering (notes : Array (Note ω)) (entries : List ω) :
    entriesIn (entering notes entries) = entriesIn notes ++ entries := by
  simp [entriesIn, entering, List.filterMap_map, Function.comp_def,
    Note.entry?]

end Observed

namespace Engine

variable {α σ ω β γ : Type} [Scalar α]

/-- The deeds of the iteration that begins in an engine, whether it goes through
or fails halfway: those that the observed version of the program notes down. -/
def deeds (p : Program α σ ω) (e : Engine α σ ω) : List (Deed α σ) :=
  entriesIn ((work p.observed e.mode).perform (e.watching #[])).2.notes

/-! ## Doing the same -/

/-- Observed work does what some work does, whatever becomes of it and whatever
has been noted down before.  It notes down a log of deeds; if the work goes
through, every vertex has received the signals that go with these deeds. -/
structure Observed (observed : Attempt (Engine α σ (Deed α σ)) β)
    (work : Attempt (Engine α σ ω) β) (e : Engine α σ ω)
    (log : List (Deed α σ)) : Prop where
  run : ∀ notes, observed.perform (e.watching notes) =
    ((work.perform e).1, (work.perform e).2.watching (entering notes log))
  logged : ∀ result e', work.perform e = (.ok result, e') → e.Boxed →
    e.Logged e' (log.filterMap Deed.sent?)

/-- Observed work does the same as some work, and all its deeds are of a
kind. -/
def Exhibits (kind : Deed α σ → Prop)
    (observed : Attempt (Engine α σ (Deed α σ)) β)
    (work : Attempt (Engine α σ ω) β) (e : Engine α σ ω) : Prop :=
  ∃ log, Observed observed work e log ∧ ∀ deed ∈ log, kind deed

section Exhibits

variable {kind : Deed α σ → Prop} {e : Engine α σ ω}

/-- Work that sends nothing and does not look at the notes. -/
theorem exhibits_quiet {observed : Attempt (Engine α σ (Deed α σ)) β}
    {work : Attempt (Engine α σ ω) β}
    (hrun : ∀ notes, observed.perform (e.watching notes) =
      ((work.perform e).1, (work.perform e).2.watching notes))
    (hlogged : ∀ result e', work.perform e = (.ok result, e') →
      e.Logged e' []) : Exhibits kind observed work e :=
  ⟨[], ⟨fun notes => by rw [entering_nil]; exact hrun notes,
    fun result e' h _ => hlogged result e' h⟩, by simp⟩

theorem exhibits_lift (answer : Except Failure β) :
    Exhibits kind (Attempt.lift answer) (Attempt.lift answer) e := by
  refine exhibits_quiet (fun notes => ?_) fun result e' h => ?_
  · rw [Attempt.perform_lift, Attempt.perform_lift]
  · rw [Attempt.perform_lift] at h
    rw [← (Prod.mk.inj h).2]
    exact Logged.refl e

theorem exhibits_pure (result : β) :
    Exhibits kind (pure result) (pure result) e :=
  exhibits_lift (.ok result)

/-- A step that touches neither inboxes nor queue nor graph. -/
theorem exhibits_modify {change : Engine α σ ω → Engine α σ ω}
    {change' : Engine α σ (Deed α σ) → Engine α σ (Deed α σ)}
    (hrun : ∀ notes, change' (e.watching notes) = (change e).watching notes)
    (hlogged : e.Logged (change e) []) :
    Exhibits kind (modify change') (modify change) e := by
  refine exhibits_quiet (fun notes => ?_) fun result e' h => ?_
  · rw [Attempt.perform_modify, Attempt.perform_modify, hrun]
  · rw [Attempt.perform_modify] at h
    rw [← (Prod.mk.inj h).2]
    exact hlogged

/-- One thing after another: the second begins where the first has led, if that
went through. -/
theorem Exhibits.bind {observed : Attempt (Engine α σ (Deed α σ)) β}
    {work : Attempt (Engine α σ ω) β}
    {observedNext : β → Attempt (Engine α σ (Deed α σ)) γ}
    {next : β → Attempt (Engine α σ ω) γ} (h : Exhibits kind observed work e)
    (hnext : ∀ result reached, work.perform e = (.ok result, reached) →
      Exhibits kind (observedNext result) (next result) reached) :
    Exhibits kind (observed >>= observedNext) (work >>= next) e := by
  obtain ⟨log, hlog, hkind⟩ := h
  cases hwork : work.perform e with
  | mk answer reached =>
      cases answer with
      | error cause =>
          refine ⟨log, ⟨fun notes => ?_, fun result e' h _ => ?_⟩, hkind⟩
          · rw [Attempt.perform_bind, hlog.run, Attempt.perform_bind, hwork]
          · rw [Attempt.perform_bind, hwork] at h
            cases (Prod.mk.inj h).1
      | ok result =>
          obtain ⟨more, hmore, hkind'⟩ := hnext result reached hwork
          refine ⟨log ++ more, ⟨fun notes => ?_, fun last e' h hboxed => ?_⟩,
            fun deed hdeed => ?_⟩
          · rw [Attempt.perform_bind, hlog.run, Attempt.perform_bind, hwork,
              entering_append]
            exact hmore.run _
          · rw [Attempt.perform_bind, hwork] at h
            have hfirst := hlog.logged result reached hwork hboxed
            rw [List.filterMap_append]
            exact hfirst.trans (hmore.logged last e' h (hfirst.boxed hboxed))
          · exact (List.mem_append.mp hdeed).elim (hkind deed) (hkind' deed)

/-- Work that looks at the engine first. -/
theorem exhibits_get_bind {observed : Engine α σ (Deed α σ) →
      Attempt (Engine α σ (Deed α σ)) β}
    {work : Engine α σ ω → Attempt (Engine α σ ω) β}
    (hlook : ∀ notes, observed (e.watching notes) = observed (e.watching #[]))
    (h : Exhibits kind (observed (e.watching #[])) (work e) e) :
    Exhibits kind (get >>= observed) (get >>= work) e := by
  obtain ⟨log, hlog, hkind⟩ := h
  refine ⟨log, ⟨fun notes => ?_, fun result e' hrun => ?_⟩, hkind⟩
  · rw [Attempt.perform_get_bind, Attempt.perform_get_bind, hlook]
    exact hlog.run notes
  · rw [Attempt.perform_get_bind] at hrun
    exact hlog.logged result e' hrun

/-- A deed that is noted down before some work. -/
theorem Exhibits.noted {observed : Attempt (Engine α σ (Deed α σ)) β}
    {work : Attempt (Engine α σ ω) β} (h : Exhibits kind observed work e)
    {deed : Deed α σ} (hdeed : kind deed) (hsent : deed.sent? = none)
    (place : Nat) :
    Exhibits kind (carryOut place (.note (.entry deed)) >>= fun _ => observed)
      work e := by
  obtain ⟨log, hlog, hkind⟩ := h
  refine ⟨deed :: log, ⟨fun notes => ?_, fun result e' hrun hboxed => ?_⟩, ?_⟩
  · rw [← List.singleton_append, entering_append]
    exact hlog.run (entering notes [deed])
  · rw [List.filterMap_cons_none hsent]
    exact hlog.logged result e' hrun hboxed
  · exact List.forall_mem_cons.mpr ⟨hdeed, hkind⟩

/-! ## Loops -/

/-- What a loop exhibits is what its rounds exhibit, each from where the rounds
before it have led. -/
theorem exhibits_each {ι : Type} {items : List ι}
    {observed : ι → Attempt (Engine α σ (Deed α σ)) Unit}
    {work : ι → Attempt (Engine α σ ω) Unit}
    (h : ∀ seen i rest reached, items = seen ++ i :: rest →
      (Attempt.each seen work).perform e = (.ok (), reached) →
      Exhibits kind (observed i) (work i) reached) :
    Exhibits kind (Attempt.each items observed) (Attempt.each items work)
      e := by
  have general : ∀ rest seen reached, items = seen ++ rest →
      (Attempt.each seen work).perform e = (.ok (), reached) →
      Exhibits kind (Attempt.each rest observed) (Attempt.each rest work)
        reached := by
    intro rest
    induction rest with
    | nil => exact fun _ _ _ _ => exhibits_pure ()
    | cons i rest ih =>
        intro seen reached hitems hseen
        refine (h seen i rest reached hitems hseen).bind fun _ next hi => ?_
        exact ih (seen ++ [i]) next (by simpa using hitems)
          (Attempt.perform_each_append_ok.mpr
            ⟨reached, hseen, Attempt.each_singleton.mpr hi⟩)
  exact general items [] e rfl rfl

/-- The same for a loop that collects results, as far as its rounds keep what
matters to them. -/
theorem exhibits_collect {ι : Type} {items : List ι}
    {observed : ι → Attempt (Engine α σ (Deed α σ)) β}
    {work : ι → Attempt (Engine α σ ω) β} (motive : Engine α σ ω → Prop)
    (he : motive e) (hsafe : ∀ i ∈ items, Safe motive (work i))
    (h : ∀ i ∈ items, ∀ reached, motive reached →
      Exhibits kind (observed i) (work i) reached) :
    Exhibits kind (Attempt.collect items observed)
      (Attempt.collect items work) e := by
  induction items generalizing e with
  | nil => exact exhibits_pure []
  | cons i rest ih =>
      refine (h i (by simp) e he).bind fun result reached hi => ?_
      have hreached : motive reached := by
        have hkept := hsafe i (by simp) e he
        rwa [hi] at hkept
      refine Exhibits.bind ?_ fun others _ _ => exhibits_pure (result :: others)
      exact ih hreached (fun j hj => hsafe j (by simp [hj]))
        fun j hj => h j (by simp [hj])

end Exhibits

/-! ## Phases -/

section Phases

variable {kind : Deed α σ → Prop} {p : Program α σ ω} {e : Engine α σ ω}
  {place : Nat}

/-- A signal does not look at the notes. -/
theorem perform_signal_watching {ω' : Type} (target : Address)
    (message : Option (Step α)) (notes : Array (Note ω')) :
    (signal target message).perform (e.watching notes) =
      (((signal target message).perform e).1,
        ((signal target message).perform e).2.watching notes) := by
  rw [perform_signal, perform_signal,
    show (e.watching notes).resolve target = e.resolve target from rfl]
  cases e.resolve target with
  | error cause => rfl
  | ok place =>
      dsimp only
      rw [show (e.watching notes).inbox place = e.inbox place from rfl]
      cases (e.inbox place).receive message <;> rfl

/-- A signal that goes through is the one that was noted down before it. -/
theorem logged_signal {e' : Engine α σ ω} {target : Address}
    {message : Option (Step α)} (hboxed : e.Boxed)
    (h : (signal target message).perform e = (.ok (), e')) :
    e.Logged e' [.sent target message] := by
  obtain ⟨spot, filled, hplace, hfilled, rfl⟩ := signal_ok.mp h
  exact logged_posted hboxed hplace hfilled

/-- What becomes of a contribution: its step is added to the total, and then its
message is sent. -/
def forward (total : Step α) (c : Contribution α) :
    Attempt (Engine α σ ω) (Step α) := do
  let next ← Attempt.lift (total.add c.step)
  match c.outgoing with
  | none => pure ()
  | some m => signal (.id m.target) (some m.payload)
  return next

private theorem gatherOver_cons (p : Program α σ ω) (place number : Nat)
    (rest : List Nat) (total : Step α) :
    gatherOver p place (number :: rest) total = (do
      let e ← get
      let next ← heed place (p.gather e.scene place (e.slot p place) number) >>=
        forward total
      gatherOver p place rest next) := by
  rw [gatherOver]
  refine bind_congr fun e => ?_
  rw [bind_assoc]
  refine bind_congr fun c => ?_
  rw [forward, bind_assoc]
  refine bind_congr fun next => ?_
  cases c.outgoing with
  | none => rfl
  | some m => simp only [bind_assoc, pure_bind]

/-- Forwarding does not look at the notes. -/
private theorem perform_forward_watching {ω' : Type} (total : Step α)
    (c : Contribution α) (notes : Array (Note ω')) :
    (forward total c).perform (e.watching notes) =
      (((forward total c).perform e).1,
        ((forward total c).perform e).2.watching notes) := by
  rw [forward, forward, Attempt.perform_bind, Attempt.perform_lift,
    Attempt.perform_bind, Attempt.perform_lift]
  cases total.add c.step with
  | error cause => rfl
  | ok next =>
      dsimp only
      cases c.outgoing with
      | none => rfl
      | some m =>
          dsimp only
          rw [Attempt.perform_bind, perform_signal_watching,
            Attempt.perform_bind]
          cases (signal (.id m.target) (some m.payload)).perform e with
          | mk answer reached => cases answer <;> rfl

/-- Forwarding that goes through has sent the message, if there was one. -/
private theorem logged_forward {e' : Engine α σ ω} {total next : Step α}
    {c : Contribution α} (hboxed : e.Boxed)
    (h : (forward total c).perform e = (.ok next, e')) (call : Call α) :
    e.Logged e'
      (([.gathers call (.ok c)] : List (Deed α σ)).filterMap Deed.sent?) := by
  obtain ⟨_, -, h⟩ := Attempt.perform_lift_bind_ok.mp h
  obtain ⟨step, outgoing⟩ := c
  cases outgoing with
  | none =>
      rw [← (Prod.mk.inj h).2]
      exact Logged.refl e
  | some m =>
      obtain ⟨_, sent, hsent, hdone⟩ := Attempt.perform_bind_ok.mp h
      rw [← (Prod.mk.inj hdone).2]
      exact logged_signal hboxed hsent

/-- The answer of a call is noted down, and then its message is sent. -/
private theorem exhibits_forward (answer : Except Failure (Contribution α))
    (total : Step α) {call : Call α} (h : kind (.gathers call answer)) :
    Exhibits kind
      (carryOut place (.note (.entry (.gathers call answer))) >>= fun _ =>
        Attempt.lift answer >>= forward total)
      (Attempt.lift answer >>= forward total) e := by
  refine ⟨[.gathers call answer], ⟨fun notes => ?_,
    fun next e' hrun hboxed => ?_⟩, by simpa using h⟩
  · change (Attempt.lift answer >>= forward total).perform
      (e.watching (entering notes [.gathers call answer])) = _
    cases answer with
    | error cause => rfl
    | ok c => exact perform_forward_watching total c _
  · obtain ⟨c, rfl, hforward⟩ := Attempt.perform_lift_bind_ok.mp hrun
    exact logged_forward hboxed hforward call

/-- Every signal is noted down. -/
private theorem exhibits_action {action : Action α σ ω}
    (h : ∀ target message, action = .signal target message →
      kind (.signals target message)) :
    Exhibits kind (Attempt.each action.observed (carryOut place))
      (carryOut place action) e := by
  cases action with
  | signal target message =>
      refine ⟨[.signals target message], ⟨fun notes => ?_,
        fun _ e' hrun hboxed => logged_signal hboxed hrun⟩,
        by simpa using h target message rfl⟩
      change (Attempt.each [.signal target message] (carryOut place)).perform
        (e.watching (entering notes [.signals target message])) = _
      rw [Attempt.each, Attempt.each, bind_pure_unit]
      exact perform_signal_watching target message _
  | store _ | keep _ | note _ =>
      exact exhibits_quiet (fun _ => rfl) fun _ _ h =>
        (Prod.mk.inj h).2 ▸ logged_of_frame rfl rfl rfl rfl fun _ => rfl

private theorem exhibits_actions {actions : List (Action α σ ω)}
    (h : ∀ target message, .signal target message ∈ actions →
      kind (.signals target message)) :
    Exhibits kind
      (Attempt.each (actions.flatMap Action.observed) (carryOut place))
      (Attempt.each actions (carryOut place)) e := by
  induction actions generalizing e with
  | nil => exact exhibits_pure ()
  | cons action rest ih =>
      rw [List.flatMap_cons, Attempt.each_append]
      refine (exhibits_action fun target message haction =>
        h target message (by simp [haction])).bind fun _ _ _ => ?_
      exact ih fun target message hmem => h target message (by simp [hmem])

private theorem exhibits_heed {reply : Reply α σ ω β} (h : reply.Sends kind) :
    Exhibits kind (heed place reply.observed) (heed place reply) e :=
  (exhibits_actions h).bind fun _ _ _ => exhibits_lift reply.answer

/-- A deed that is noted down before a reply is heeded. -/
private theorem exhibits_announcing {reply : Reply α σ ω β}
    (h : reply.Sends kind) {deed : Deed α σ} (hdeed : kind deed)
    (hsent : deed.sent? = none) :
    Exhibits kind (heed place (reply.observed.announcing deed))
      (heed place reply) e := by
  have hnoted : (heed place (reply.observed.announcing deed) :
      Attempt (Engine α σ (Deed α σ)) β) =
      carryOut place (.note (.entry deed)) >>= fun _ =>
        heed place reply.observed := bind_assoc ..
  rw [hnoted]
  exact (exhibits_heed h).noted hdeed hsent place

/-- A call of the gathering phase is noted down with its answer before its
message is sent. -/
private theorem exhibits_contribution {reply : Reply α σ ω (Contribution α)}
    (h : reply.Sends kind) (total : Step α) {call : Call α}
    (hcall : kind (.gathers call reply.answer)) :
    Exhibits kind
      (heed place (reply.observed.reporting (.gathers call reply.answer)) >>=
        forward total) (heed place reply >>= forward total) e := by
  have hheed : (heed place
      (reply.observed.reporting (.gathers call reply.answer)) :
      Attempt (Engine α σ (Deed α σ)) (Contribution α)) =
      Attempt.each reply.observed.actions (carryOut place) >>= fun _ =>
        carryOut place (.note (.entry (.gathers call reply.answer))) >>=
          fun _ => Attempt.lift reply.answer := by
    rw [heed, Reply.reporting, Attempt.each_append, bind_assoc]
    rfl
  rw [hheed, heed]
  simp only [bind_assoc]
  refine (exhibits_actions h).bind fun _ reached _ => ?_
  exact exhibits_forward reply.answer total hcall

section Sending

variable (hsends : p.Sends kind)

include hsends

private theorem exhibits_initAt (waiting : Inbox α) :
    Exhibits kind (initAt p.observed place waiting) (initAt p place waiting)
      e := by
  unfold initAt
  cases waiting.message? with
  | none => exact exhibits_pure ()
  | some message =>
      exact exhibits_get_bind (fun _ => rfl)
        (exhibits_heed (hsends.init _ _ _ message))

/-- Applying is noted down with what it is given. -/
theorem exhibits_applyAt {total : Step α}
    (h : kind (.applies ⟨e.scene, place, e.slot p place, total⟩)) :
    Exhibits kind (applyAt p.observed place total) (applyAt p place total)
      e := by
  refine exhibits_get_bind (fun _ => rfl)
    (Exhibits.bind ?_ fun _ reached _ => ?_)
  · exact exhibits_announcing (hsends.apply _ _ _ total) h rfl
  · exact exhibits_modify (fun _ => rfl)
      (logged_of_frame rfl rfl rfl rfl fun _ => rfl)

private theorem exhibits_scatterAt :
    Exhibits kind (scatterAt p.observed place) (scatterAt p place) e := by
  refine exhibits_get_bind (fun _ => rfl) ?_
  refine (exhibits_lift _).bind fun direction reached _ => ?_
  refine exhibits_each fun _ number _ reached _ _ => ?_
  exact exhibits_get_bind (fun _ => rfl)
    (exhibits_heed (hsends.scatter reached.scene place _ number))

variable (hp : p.Reading) {scene : Scene α}

include hp

omit hsends in
/-- What can be seen stays the same when a contribution has been forwarded. -/
private theorem safe_contribution (place : Nat) (slot : σ) (number : Nat)
    (total : Step α) :
    Safe (fun e : Engine α σ ω => e.scene = scene)
      (heed place (p.gather scene place slot number) >>= forward total) := by
  have hkeeps := keeps_scene hp scene
  refine (hkeeps.gather scene place slot number).bind fun c => ?_
  refine (safe_lift _).bind fun next => ?_
  cases c.outgoing with
  | none => exact fun _ he => he
  | some m => exact (hkeeps.signal _ _).bind fun _ _ he => he

/-- Every call of the gathering phase sees the same, and is noted down with its
answer. -/
private theorem exhibits_gatherOver {numbers : List Nat} (total : Step α)
    (hscene : e.scene = scene)
    (h : ∀ slot, ∀ number ∈ numbers, kind (.gathers ⟨scene, place, number⟩
      (p.gather scene place slot number).answer)) :
    Exhibits kind (gatherOver p.observed place numbers total)
      (gatherOver p place numbers total) e := by
  induction numbers generalizing e total with
  | nil => exact exhibits_pure total
  | cons number rest ih =>
      rw [gatherOver_cons, gatherOver_cons]
      subst hscene
      refine exhibits_get_bind (fun _ => rfl) (Exhibits.bind ?_ ?_)
      · exact exhibits_contribution (hsends.gather _ _ _ number) total
          (h _ number (by simp))
      · intro next reached hreached
        have hkept := safe_contribution hp place (e.slot p place) number total
          e rfl
        rw [hreached] at hkept
        exact ih next hkept fun slot n hn => h slot n (by simp [hn])

private theorem exhibits_gatherAt (hscene : e.scene = scene)
    (h : ∀ slot, ∀ number ∈ p.gathered scene place,
      kind (.gathers ⟨scene, place, number⟩
        (p.gather scene place slot number).answer)) :
    Exhibits kind (gatherAt p.observed place) (gatherAt p place) e := by
  subst hscene
  refine exhibits_get_bind (fun _ => rfl) ?_
  refine (exhibits_lift _).bind fun direction reached hlift => ?_
  rw [Attempt.perform_lift] at hlift
  obtain ⟨hdirection, rfl⟩ := Prod.mk.inj hlift
  have hgathered : p.gathered e.scene place =
      e.graph.incident place direction := by
    rw [Program.gathered, show p.gatherEdges e.scene place = .ok direction
      from hdirection]
    rfl
  exact exhibits_gatherOver hsends hp _ rfl (hgathered ▸ h)

/-- The deeds of four phases: the vertices gather, all seeing the same, and then
apply one after the other what they have gathered. -/
theorem exhibits_phases {waiting : Nat → Inbox α} {order : List Nat}
    (hscene : e.scene = scene)
    (hgathers : ∀ v ∈ order, ∀ slot, ∀ number ∈ p.gathered scene v,
      kind (.gathers ⟨scene, v, number⟩ (p.gather scene v slot number).answer))
    (happlies : ∀ taken totals gathered,
      (Attempt.each order fun v => initAt p v (waiting v)).perform e =
        (.ok (), taken) →
      (Attempt.collect order (gatherAt p)).perform taken =
        (.ok totals, gathered) →
      ∀ seen v total rest reached,
        order.zip totals = seen ++ (v, total) :: rest →
        (Attempt.each seen fun (v, total) => applyAt p v total).perform
          gathered = (.ok (), reached) →
        kind (.applies ⟨reached.scene, v, reached.slot p v, total⟩)) :
    Exhibits kind (phases p.observed waiting order) (phases p waiting order)
      e := by
  have hkeeps := keeps_scene hp scene
  refine Exhibits.bind ?_ fun _ taken htaken => Exhibits.bind ?_
    fun totals gathered hgathered => Exhibits.bind ?_ fun _ applied _ => ?_
  · exact exhibits_each fun _ v _ _ _ _ => exhibits_initAt hsends (waiting v)
  · have htakenScene : taken.scene = scene := by
      have hkept := safe_each (fun v (_ : v ∈ order) =>
        hkeeps.initAt v (waiting v)) e hscene
      rwa [htaken] at hkept
    refine exhibits_collect (fun e => e.scene = scene) htakenScene
      (fun v _ => hkeeps.gatherAt v) fun v hv reached hreached => ?_
    exact exhibits_gatherAt hsends hp hreached (hgathers v hv)
  · refine exhibits_each fun seen pair rest reached hsplit hreached => ?_
    exact exhibits_applyAt hsends (happlies taken totals gathered htaken
      hgathered seen pair.1 pair.2 rest reached hsplit hreached)
  · exact exhibits_each fun _ v _ _ _ _ => exhibits_scatterAt hsends

end Sending

end Phases

/-! ## Iterations -/

section Work

variable {kind : Deed α σ → Prop} {p : Program α σ ω} {e : Engine α σ ω}
  (h : Exhibits kind (phases p.observed e.inbox e.order)
    (phases p e.inbox e.order) e.cleared)

include h

/-- The deeds of an iteration are those of its four phases.  Where nobody waits
there are none. -/
theorem observed_deeds :
    Observed (phases p.observed e.inbox e.order) (phases p e.inbox e.order)
        e.cleared (e.deeds p) ∧
      ∀ deed ∈ e.deeds p, kind deed := by
  obtain ⟨log, hlog, hkind⟩ := h
  have hdeeds : e.deeds p = log := by
    have hleaves := work_leaves p.observed (e.watching #[])
    rw [cleared_watching] at hleaves
    rw [deeds, show e.mode = (e.watching (#[] : Array (Note (Deed α σ)))).mode
      from rfl, hleaves]
    change entriesIn ((phases p.observed e.inbox e.order).perform
      (e.cleared.watching #[])).2.notes = log
    rw [hlog.run]
    exact entriesIn_entering #[] log
  rw [hdeeds]
  exact ⟨hlog, hkind⟩

/-- The signals that go with the deeds of an iteration that goes through are
what everyone has received in it. -/
theorem logged_deeds (horderly : e.Orderly) (hactive : e.activeCount ≠ 0)
    (hboxed : e.cleared.Boxed) {e' : Engine α σ ω}
    (hwork : (work p e.mode).perform e = (.ok (), e')) :
    e.cleared.Logged e' ((e.deeds p).filterMap Deed.sent?) := by
  rw [horderly.perform_work hactive] at hwork
  exact (observed_deeds h).1.logged () e' hwork hboxed

omit h in
/-- The observed program does the same as the program, and what it notes down
are the deeds. -/
theorem perform_work_observed (hp : p.Reading) (horderly : e.Orderly)
    (hactive : e.activeCount ≠ 0) (notes : Array (Note (Deed α σ))) :
    (work p.observed e.mode).perform (e.watching notes) =
      (((work p e.mode).perform e).1, ((work p e.mode).perform e).2.watching
        (entering notes (e.deeds p))) := by
  have hexhibits : Exhibits (fun _ => True)
      (phases p.observed e.inbox e.order) (phases p e.inbox e.order)
      e.cleared :=
    exhibits_phases ⟨fun _ _ _ _ _ _ _ => trivial, fun _ _ _ _ _ _ _ => trivial,
        fun _ _ _ _ _ _ _ => trivial, fun _ _ _ _ _ _ _ => trivial⟩ hp rfl
      (fun _ _ _ _ _ => trivial) fun _ _ _ _ _ _ _ _ _ _ _ _ => trivial
  have hwork := (horderly.watching notes).perform_work
    (p := p.observed) hactive
  rw [cleared_watching] at hwork
  rw [horderly.perform_work hactive]
  exact hwork.trans ((observed_deeds hexhibits).1.run notes)

end Work

end Engine

/-- The deeds of the first iterations of a start since the last turn of a vertex
began.  At that moment its inbox has been emptied. -/
def Session.since {α σ ω μ τ ρ : Type} [Scalar α] (p : Program α σ ω)
    (s : Session α σ ω μ τ ρ) (v : Nat) : Nat → List (Deed α σ)
  | 0 => []
  | n + 1 =>
    let e := (s.state p n).engine
    if v ∈ e.order then e.deeds p else s.since p v n ++ e.deeds p

end RatingFactors
