import Mathlib.Data.List.GetD
import RatingFactors.Proofs.Descent.Values
import RatingFactors.Proofs.Scalar

/-!
# Gauges

A bias is moved by the biases of steps, and each coordinate of a latent vector
by the coordinates of steps.  What is said about how much has flowed where does
not depend on which of these numbers is looked at.  A gauge is any number read
off vertices and off steps that behaves like them: what a vertex shows grows by
what the step shows that moves it.

## Main definitions

* `Gauge` — a number read off vertices and steps.
* `Gauge.bias`, `Gauge.coordinate` — the numbers that learning changes.
* `Inbox.pending` — the step that waits for a vertex.

## Main results

* `Gauge.vertex_settled` — applying a step adds what it shows.
* `Gauge.step_sum` — a sum of steps shows the sum of what they show.
* `Gauge.step_pending` — so does an inbox that has been put steps.
-/

namespace RatingFactors

namespace Step

variable {α : Type} [Scalar α]

private theorem getD_zipWith_add {xs ys : List α} {i : Nat} (hx : i < xs.length)
    (hy : i < ys.length) (d : α) :
    (List.zipWith (· + ·) xs ys).getD i d = xs.getD i d + ys.getD i d := by
  rw [List.getD_eq_getElem _ _ (by rw [List.length_zipWith]; omega),
    List.getD_eq_getElem _ _ hx, List.getD_eq_getElem _ _ hy,
    List.getElem_zipWith]

private theorem Fits.plus_eq {size : Nat} {s t : Step α} (hs : s.Fits size)
    (ht : t.Fits size) (hsize : 0 < size) :
    s.plus t = ⟨List.zipWith (· + ·) s.delta t.delta, s.bias + t.bias⟩ := by
  have hne := Nat.ne_of_gt hsize
  rw [Step.plus, if_neg (by simp [hs.isEmpty hne]),
    if_neg (by simp [ht.isEmpty hne])]

end Step

namespace Inbox

variable {α : Type} [Scalar α]

/-- The step that waits for a vertex; the empty one if none does. -/
def pending (b : Inbox α) : Step α :=
  b.message?.getD .empty

private theorem pending_put (b : Inbox α) (m : Step α) :
    (b.put (some m)).pending = b.pending.plus m := by
  cases b with
  | idle => exact (Step.empty_plus m).symm
  | awake => exact (Step.empty_plus m).symm
  | holds waiting => rfl

/-- What waits after some more steps have been put. -/
theorem pending_foldl_put (steps : List (Step α)) (b : Inbox α) :
    ((steps.map some).foldl put b).pending =
      steps.foldl Step.plus b.pending := by
  induction steps generalizing b with
  | nil => rfl
  | cons m rest ih =>
      rw [List.map_cons, List.foldl_cons, ih, pending_put, List.foldl_cons]

theorem Fits.pending {size : Nat} {b : Inbox α} (h : b.Fits size) :
    b.pending = .empty ∨ b.pending.Fits size := by
  unfold Inbox.pending
  cases hb : b.message? with
  | none => exact .inl rfl
  | some m => exact .inr (h m hb)

end Inbox

/-- A number read off vertices and steps whose latent vectors and coordinates
have a set length, such that moving a vertex by a step adds what the step
shows. -/
structure Gauge (α : Type) [Scalar α] (size : Nat) where
  vertex : Vertex α → α
  step : Step α → α
  size_pos : 0 < size
  moved : ∀ v s, v.latent.length = size → s.Fits size →
    vertex (v.moved s) = vertex v + step s
  counted : ∀ v, vertex v.counted = vertex v
  plus : ∀ s t, s.Fits size → t.Fits size →
    step (s.plus t) = step s + step t
  empty : step .empty = Scalar.zero
  still : step (.of (List.replicate size Scalar.zero) Scalar.zero) =
    Scalar.zero

namespace Gauge

variable {α : Type} [Scalar α] {size : Nat}

/-- The bias of a vertex, and what a step adds to it. -/
def bias (hsize : 0 < size) : Gauge α size where
  vertex := Vertex.bias
  step := Step.bias
  size_pos := hsize
  moved := fun _ _ _ _ => rfl
  counted := fun _ => rfl
  plus := fun s t hs ht => by rw [hs.plus_eq ht hsize]
  empty := rfl
  still := by cases size <;> rfl

/-- A coordinate of the latent vector, and what a step adds to it. -/
def coordinate (i : Nat) (hi : i < size) : Gauge α size where
  vertex v := v.latent.getD i Scalar.zero
  step s := s.delta.getD i Scalar.zero
  size_pos := Nat.zero_lt_of_lt hi
  moved := fun v s hv hs =>
    Step.getD_zipWith_add (hv.symm ▸ hi) (hs.length.symm ▸ hi) _
  counted := fun _ => rfl
  plus := fun s t hs ht => by
    rw [hs.plus_eq ht (Nat.zero_lt_of_lt hi)]
    exact Step.getD_zipWith_add (hs.length.symm ▸ hi) (ht.length.symm ▸ hi) _
  empty := by rw [Step.empty, List.getD_nil]
  still := by
    rw [Step.delta_of, List.getD_eq_getElem _ _ (by simpa using hi),
      List.getElem_replicate]

variable (γ : Gauge α size) (h : Scalar.Lawful α)

include h

theorem foldl_plus {s : Step α} (hs : s = .empty ∨ s.Fits size)
    {steps : List (Step α)} (hsteps : ∀ t ∈ steps, t.Fits size) :
    γ.step (steps.foldl Step.plus s) =
      γ.step s + Scalar.sum (steps.map γ.step) := by
  induction steps generalizing s with
  | nil => exact (h.add_zero _).symm
  | cons t rest ih =>
      have ht := hsteps t List.mem_cons_self
      have hrest : ∀ u ∈ rest, u.Fits size :=
        fun u hu => hsteps u (List.mem_cons_of_mem t hu)
      rw [List.foldl_cons, List.map_cons, h.sum_cons]
      rcases hs with rfl | hs
      · rw [Step.empty_plus, ih (.inr ht) hrest, γ.empty, h.zero_add]
      · rw [ih (.inr (hs.plus ht)) hrest, γ.plus s t hs ht, h.add_assoc]

/-- A sum of steps shows the sum of what they show. -/
theorem step_sum {steps : List (Step α)} (hsteps : ∀ t ∈ steps, t.Fits size) :
    γ.step (Step.sum steps) = Scalar.sum (steps.map γ.step) := by
  rw [Step.sum, γ.foldl_plus h (.inl rfl) hsteps, γ.empty, h.zero_add]

/-- What waits after some steps have been put shows their sum in addition. -/
theorem step_pending {b : Inbox α} (hb : b.Fits size) {steps : List (Step α)}
    (hsteps : ∀ t ∈ steps, t.Fits size) :
    γ.step ((steps.map some).foldl Inbox.put b).pending =
      γ.step b.pending + Scalar.sum (steps.map γ.step) := by
  rw [Inbox.pending_foldl_put, γ.foldl_plus h hb.pending hsteps]

/-- Applying a step adds what it shows. -/
theorem vertex_settled {v : Vertex α} (hv : v.latent.length = size)
    {s : Step α} (hs : s = .empty ∨ s.Fits size) :
    γ.vertex (Descent.settled v s) = γ.vertex v + γ.step s := by
  rcases hs with rfl | hs
  · rw [Descent.settled, if_pos (by rfl), γ.counted, γ.empty, h.add_zero]
  · have hne := Nat.ne_of_gt γ.size_pos
    rw [Descent.settled, if_neg (by simp [hs.isEmpty hne]),
      γ.counted, γ.moved v s hv hs]

end Gauge

end RatingFactors
