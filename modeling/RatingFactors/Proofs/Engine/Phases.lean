import RatingFactors.Engine.Activation
import RatingFactors.Proofs.Engine.Signals

/-!
# Phases of an activation, taken apart

The phases in which the engine drives a program are loops over replies.  This
module takes a successful run of each apart into the actions that were carried
out and the answers that were given, for every program.
-/

namespace RatingFactors

namespace Engine

variable {α σ ω : Type} [Scalar α]

/-- The engine with other notes. -/
def noted (e : Engine α σ ω) (notes : Array (Note ω)) : Engine α σ ω :=
  { e with notes := notes }

section Noted

variable (e : Engine α σ ω) (notes : Array (Note ω))

omit [Scalar α] in
@[simp] theorem noted_noted (later : Array (Note ω)) :
    (e.noted notes).noted later = e.noted later := rfl

@[simp] theorem scene_noted : (e.noted notes).scene = e.scene := rfl

/-- What has been noted down does not matter to signals. -/
@[simp] theorem postAll_noted (posts : List (Post α)) :
    (e.noted notes).postAll posts = (e.postAll posts).noted notes := by
  induction posts generalizing e with
  | nil => rfl
  | cons post rest ih => exact ih (e.posted post)

end Noted

/-- A reply that was heeded: its actions have been carried out and it had an
answer. -/
theorem heed_ok {β : Type} {place : Nat} {reply : Reply α σ ω β}
    {result : β} {e e' : Engine α σ ω} :
    (heed place reply).perform e = (.ok result, e') ↔
      (Attempt.each reply.actions (carryOut place)).perform e = (.ok (), e') ∧
        reply.answer = .ok result := by
  unfold heed
  rw [Attempt.perform_bind_ok]
  constructor
  · rintro ⟨_, reached, hactions, hanswer⟩
    rw [Attempt.perform_lift, Prod.mk.injEq] at hanswer
    exact ⟨hanswer.2 ▸ hactions, hanswer.1⟩
  · rintro ⟨hactions, hanswer⟩
    exact ⟨(), e', hactions, by rw [Attempt.perform_lift, hanswer]⟩

/-- Once an edge has contributed, the loop goes on with the next. -/
theorem perform_gatherOver_cons {p : Program α σ ω} {place number : Nat}
    {rest : List Nat} {total next : Step α} {contribution : Contribution α}
    {e heeded sent : Engine α σ ω}
    (hheed : (heed place (p.gather e.scene place (e.slot p place)
      number)).perform e = (.ok contribution, heeded))
    (hadd : total.add contribution.step = .ok next)
    (hsent : match contribution.outgoing with
      | none => sent = heeded
      | some message =>
        (signal (.id message.target) (some message.payload)).perform heeded =
          (.ok (), sent)) :
    (gatherOver p place (number :: rest) total).perform e =
      (gatherOver p place rest next).perform sent := by
  rw [gatherOver, Attempt.perform_get_bind, Attempt.perform_bind, hheed]
  dsimp only
  rw [Attempt.perform_bind, Attempt.perform_lift, hadd]
  dsimp only
  cases hout : contribution.outgoing with
  | none =>
      rw [hout] at hsent
      rw [hsent]
  | some message =>
      rw [hout] at hsent
      dsimp only at hsent ⊢
      rw [Attempt.perform_bind, hsent]

/-- One edge of a gathering loop: a contribution is asked for, added, and its
message delivered, before the rest of the edges is gone through. -/
theorem gatherOver_cons_ok {p : Program α σ ω} {place number : Nat}
    {rest : List Nat} {total result : Step α} {e e' : Engine α σ ω} :
    (gatherOver p place (number :: rest) total).perform e = (.ok result, e') ↔
    ∃ contribution heeded next sent,
      (heed place (p.gather e.scene place (e.slot p place) number)).perform e =
        (.ok contribution, heeded) ∧
      total.add contribution.step = .ok next ∧
      (match contribution.outgoing with
        | none => sent = heeded
        | some message =>
          (signal (.id message.target) (some message.payload)).perform heeded =
            (.ok (), sent)) ∧
      (gatherOver p place rest next).perform sent = (.ok result, e') := by
  constructor
  · intro h
    rw [gatherOver, Attempt.perform_get_bind] at h
    obtain ⟨contribution, heeded, hheed, h⟩ := Attempt.perform_bind_ok.mp h
    obtain ⟨next, hadd, h⟩ := Attempt.perform_lift_bind_ok.mp h
    cases hout : contribution.outgoing with
    | none =>
        rw [hout] at h
        exact ⟨contribution, heeded, next, heeded, hheed, hadd, by rw [hout],
          h⟩
    | some message =>
        rw [hout] at h
        obtain ⟨_, sent, hsent, hrest⟩ := Attempt.perform_bind_ok.mp h
        exact ⟨contribution, heeded, next, sent, hheed, hadd,
          by rw [hout]; exact hsent, hrest⟩
  · rintro ⟨contribution, heeded, next, sent, hheed, hadd, hsent, hrest⟩
    exact (perform_gatherOver_cons hheed hadd hsent).trans hrest

theorem gatherAt_ok {p : Program α σ ω} {place : Nat} {total : Step α}
    {e e' : Engine α σ ω} :
    (gatherAt p place).perform e = (.ok total, e') ↔
    ∃ direction, p.gatherEdges e.scene place = .ok direction ∧
      (gatherOver p place (e.graph.incident place direction)
        Step.empty).perform e = (.ok total, e') := by
  rw [gatherAt, Attempt.perform_get_bind]
  exact Attempt.perform_lift_bind_ok

theorem applyAt_ok {p : Program α σ ω} {place : Nat} {total : Step α}
    {e e' : Engine α σ ω} :
    (applyAt p place total).perform e = (.ok (), e') ↔
    ∃ heeded,
      (heed place (p.apply e.scene place (e.slot p place) total)).perform e =
        (.ok (), heeded) ∧
      e' = { heeded with updates := heeded.updates + 1 } := by
  rw [applyAt, Attempt.perform_get_bind, Attempt.perform_bind_ok]
  constructor
  · rintro ⟨_, heeded, hheed, h⟩
    exact ⟨heeded, hheed, (Prod.mk.inj h).2.symm⟩
  · rintro ⟨heeded, hheed, rfl⟩
    exact ⟨(), heeded, hheed, rfl⟩

theorem scatterAt_ok {p : Program α σ ω} {place : Nat}
    {e e' : Engine α σ ω} :
    (scatterAt p place).perform e = (.ok (), e') ↔
    ∃ direction, p.scatterEdges e.scene place = .ok direction ∧
      (Attempt.each (e.graph.incident place direction) fun number => do
        let e ← get
        heed place (p.scatter e.scene place (e.slot p place) number)).perform
          e = (.ok (), e') := by
  rw [scatterAt, Attempt.perform_get_bind]
  exact Attempt.perform_lift_bind_ok

theorem initAt_none {p : Program α σ ω} {place : Nat} {waiting : Inbox α}
    (hwaiting : waiting.message? = none) {e e' : Engine α σ ω}
    (h : (initAt p place waiting).perform e = (.ok (), e')) : e' = e := by
  rw [initAt, hwaiting] at h
  exact (Prod.mk.inj h).2.symm

theorem initAt_some {p : Program α σ ω} {place : Nat} {waiting : Inbox α}
    {message : Step α} (hwaiting : waiting.message? = some message)
    {e e' : Engine α σ ω}
    (h : (initAt p place waiting).perform e = (.ok (), e')) :
    (heed place (p.init e.scene place (e.slot p place) message)).perform e =
      (.ok (), e') := by
  rw [initAt, hwaiting] at h
  exact h

/-- An asynchronous activation, taken apart at its four phases. -/
theorem activateNext_ok {p : Program α σ ω} {e e' : Engine α σ ω} :
    (activateNext p).perform e = (.ok (), e') ↔
    ∃ place rest taken gathered total applied,
      e.queue = place :: rest ∧
      (initAt p place (e.inbox place)).perform
        (e.taken place rest) =
        (.ok (), taken) ∧
      (gatherAt p place).perform taken = (.ok total, gathered) ∧
      (applyAt p place total).perform gathered = (.ok (), applied) ∧
      (scatterAt p place).perform applied = (.ok (), e') := by
  rw [activateNext, Attempt.perform_get_bind]
  constructor
  · intro h
    cases hqueue : e.queue with
    | nil =>
        rw [hqueue] at h
        cases (Prod.mk.inj h).1
    | cons place rest =>
        rw [hqueue, Attempt.perform_set_bind] at h
        obtain ⟨_, taken, htaken, h⟩ := Attempt.perform_bind_ok.mp h
        obtain ⟨total, gathered, hgathered, h⟩ := Attempt.perform_bind_ok.mp h
        obtain ⟨_, applied, happlied, h⟩ := Attempt.perform_bind_ok.mp h
        exact ⟨place, rest, taken, gathered, total, applied, rfl, htaken,
          hgathered, happlied, h⟩
  · rintro ⟨place, rest, taken, gathered, total, applied, hqueue, htaken,
      hgathered, happlied, h⟩
    rw [hqueue]
    dsimp only
    rw [Attempt.perform_set_bind]
    refine Attempt.perform_bind_ok.mpr ⟨(), taken, htaken, ?_⟩
    refine Attempt.perform_bind_ok.mpr ⟨total, gathered, hgathered, ?_⟩
    exact Attempt.perform_bind_ok.mpr ⟨(), applied, happlied, h⟩

/-- A synchronous round, taken apart at its four phases. -/
theorem round_ok {p : Program α σ ω} {e e' : Engine α σ ω} :
    (round p).perform e = (.ok (), e') ↔
    ∃ taken totals gathered applied,
      (Attempt.each e.active fun place =>
        initAt p place (e.inbox place)).perform
        e.emptied =
        (.ok (), taken) ∧
      (Attempt.collect e.active (gatherAt p)).perform taken =
        (.ok totals, gathered) ∧
      (Attempt.each (e.active.zip totals) fun (place, total) =>
        applyAt p place total).perform gathered = (.ok (), applied) ∧
      (Attempt.each e.active (scatterAt p)).perform applied = (.ok (), e') := by
  rw [round, Attempt.perform_get_bind, Attempt.perform_set_bind]
  constructor
  · intro h
    obtain ⟨_, taken, htaken, h⟩ := Attempt.perform_bind_ok.mp h
    obtain ⟨totals, gathered, hgathered, h⟩ := Attempt.perform_bind_ok.mp h
    obtain ⟨_, applied, happlied, h⟩ := Attempt.perform_bind_ok.mp h
    exact ⟨taken, totals, gathered, applied, htaken, hgathered, happlied, h⟩
  · rintro ⟨taken, totals, gathered, applied, htaken, hgathered, happlied, h⟩
    refine Attempt.perform_bind_ok.mpr ⟨(), taken, htaken, ?_⟩
    refine Attempt.perform_bind_ok.mpr ⟨totals, gathered, hgathered, ?_⟩
    exact Attempt.perform_bind_ok.mpr ⟨(), applied, happlied, h⟩

end Engine

end RatingFactors
