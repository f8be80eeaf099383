import RatingFactors.Step

/-!
# Inboxes

Between two activations a vertex collects what is signalled to it. Signals
without a message only wake it; messages are added up. A vertex that has been
signalled is active until its inbox is emptied, so each signal is answered by
exactly one activation, shared with all others that arrived before it.
-/

namespace RatingFactors

/-- What waits for a vertex. -/
inductive Inbox (α : Type)
  /-- Nothing was signalled. -/
  | idle
  /-- The vertex was signalled, without a message. -/
  | awake
  /-- The sum of the messages signalled. -/
  | holds (message : Step α)
deriving Repr

namespace Inbox

variable {α : Type} [Scalar α]

/-- Is there a signal? -/
def isActive : Inbox α → Bool
  | idle => false
  | _ => true

/-- The message that waits, if there is one. -/
def message? : Inbox α → Option (Step α)
  | holds m => some m
  | _ => none

/-- The inbox after one more signal. It fails only if the message cannot be
added to the one that waits. -/
def receive : Inbox α → Option (Step α) → Except Failure (Inbox α)
  | idle, none => .ok awake
  | awake, none => .ok awake
  | holds m, none => .ok (holds m)
  | idle, some m => .ok (holds m)
  | awake, some m => .ok (holds m)
  | holds waiting, some m => (waiting.add m).map holds

/-- A signal leaves the vertex active. -/
theorem isActive_receive {b b' : Inbox α} {m : Option (Step α)}
    (h : b.receive m = .ok b') : b'.isActive = true := by
  cases b <;> cases m <;> simp only [receive, Except.ok.injEq] at h
  all_goals first
    | (subst h; rfl)
    | (rename_i waiting m
       cases hadd : waiting.add m <;> simp [hadd, Except.map] at h
       subst h; rfl)

end Inbox

end RatingFactors
