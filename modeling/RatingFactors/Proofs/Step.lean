import RatingFactors.Engine.Inbox

/-!
# Sums of steps

Addition of steps is partial: two steps of different lengths cannot be added.
Wherever an addition has succeeded its result is `Step.plus`, which is total,
so a run that raised nothing can be described without mentioning failure.

## Main definitions

* `Step.plus`, `Step.sum` — sums of steps.
* `Step.Proper` — no bias without coordinates; every step the library makes is
  proper, and for a proper step the empty step is neutral on both sides.
* `Step.Fits` — a proper step with a set number of coordinates.
* `Scalar.Exact` — addition without rounding; the order of the steps of a sum
  then does not matter (`Step.sum_perm`).
* `Inbox.put` — the inbox after one more signal that could be delivered.
* `Inbox.ofSteps` — what an idle inbox holds after some messages.
-/

namespace RatingFactors

/-- Addition of scalars is exact: order and grouping do not matter. -/
structure Scalar.Exact (α : Type) [Scalar α] : Prop where
  add_comm : ∀ x y : α, x + y = y + x
  add_assoc : ∀ x y z : α, x + y + z = x + (y + z)

theorem Scalar.Exact.add_right_comm {α : Type} [Scalar α]
    (h : Scalar.Exact α) (x y z : α) : x + y + z = x + z + y := by
  rw [h.add_assoc, h.add_comm y z, h.add_assoc]

namespace Step

variable {α : Type} [Scalar α]

/-- The sum of two steps; it agrees with `Step.add` where that succeeds. -/
def plus (s t : Step α) : Step α :=
  if s.isEmpty then t
  else if t.isEmpty then s
  else ⟨List.zipWith (· + ·) s.delta t.delta, s.bias + t.bias⟩

/-- The sum of a list of steps from the left. -/
def sum (steps : List (Step α)) : Step α :=
  steps.foldl plus empty

/-- A step without coordinates has no bias either. -/
def Proper (s : Step α) : Prop :=
  s.isEmpty = true → s = empty

theorem eq_plus_of_add {s t u : Step α} (h : s.add t = .ok u) :
    u = s.plus t := by
  unfold add at h
  unfold plus
  split
  · rename_i hs
    rw [if_pos hs] at h
    exact (Except.ok.inj h).symm
  · rename_i hs
    rw [if_neg hs] at h
    split
    · rename_i ht
      rw [if_pos ht] at h
      exact (Except.ok.inj h).symm
    · rename_i ht
      rw [if_neg ht] at h
      split at h
      · exact (Except.ok.inj h).symm
      · cases h

/-- Two steps cannot be added if both have coordinates, and not as many. -/
theorem add_error_iff {s t : Step α} :
    (∃ cause, s.add t = .error cause) ↔
      s.isEmpty = false ∧ t.isEmpty = false ∧
        s.delta.length ≠ t.delta.length := by
  unfold add
  cases hs : s.isEmpty with
  | true => simp
  | false =>
      cases ht : t.isEmpty with
      | true => simp
      | false =>
          by_cases hlength : s.delta.length = t.delta.length <;> simp [hlength]

omit [Scalar α] in
theorem isEmpty_iff {s : Step α} : s.isEmpty = true ↔ s.delta = [] := by
  simp [isEmpty]

theorem proper_empty : (empty : Step α).Proper := fun _ => rfl

theorem proper_of (delta : List α) (bias : α) : (of delta bias).Proper := by
  intro h
  cases delta with
  | nil => rfl
  | cons x xs => simp [of, isEmpty] at h

@[simp] theorem delta_of (delta : List α) (bias : α) :
    (of delta bias).delta = delta := by
  cases delta <;> rfl

@[simp] theorem empty_plus (s : Step α) : (empty : Step α).plus s = s := by
  simp [plus, empty, isEmpty]

theorem Proper.plus_empty {s : Step α} (h : s.Proper) : s.plus empty = s := by
  unfold plus
  split
  · rename_i hs
    exact (h hs).symm
  · rw [if_pos (by simp [empty, isEmpty])]

theorem Proper.plus {s t : Step α} (hs : s.Proper) (ht : t.Proper) :
    (s.plus t).Proper := by
  intro h
  unfold Step.plus at h ⊢
  split
  · rename_i hse
    rw [if_pos hse] at h
    exact ht h
  · rename_i hse
    rw [if_neg hse] at h
    split
    · rename_i hte
      rw [if_pos hte] at h
      exact hs h
    · rename_i hte
      rw [if_neg hte] at h
      simp only [isEmpty_iff] at hse hte h
      simp [hse, hte] at h

/-! ## Steps of one length -/

/-- The step has a set number of coordinates, and no bias without any. -/
structure Fits (size : Nat) (s : Step α) : Prop where
  length : s.delta.length = size
  proper : s.Proper

theorem fits_of {size : Nat} {delta : List α} (h : delta.length = size)
    (bias : α) : (of delta bias).Fits size :=
  ⟨by rw [delta_of, h], proper_of delta bias⟩

/-- Without coordinates there is only the empty step. -/
theorem Fits.eq_empty {s : Step α} (h : s.Fits 0) : s = empty :=
  h.proper (isEmpty_iff.mpr (List.length_eq_zero_iff.mp h.length))

theorem Fits.isEmpty {size : Nat} {s : Step α} (h : s.Fits size)
    (hsize : size ≠ 0) : s.isEmpty = false := by
  rw [← Bool.not_eq_true, isEmpty_iff, ← List.length_eq_zero_iff, h.length]
  exact hsize

theorem Fits.plus {size : Nat} {s t : Step α} (hs : s.Fits size)
    (ht : t.Fits size) : (s.plus t).Fits size := by
  refine ⟨?_, hs.proper.plus ht.proper⟩
  unfold Step.plus
  split
  · exact ht.length
  · split
    · exact hs.length
    · rw [List.length_zipWith, hs.length, ht.length, Nat.min_self]

/-- Steps of one length can be added. -/
theorem Fits.add_ok {size : Nat} {s t : Step α} (hs : s.Fits size)
    (ht : t.Fits size) : s.add t = .ok (s.plus t) := by
  unfold add Step.plus
  split
  · rfl
  · split
    · rfl
    · rw [if_pos (hs.length.trans ht.length.symm)]

/-- Adding on from a step of the right length stays there. -/
theorem Fits.foldl {size : Nat} {s : Step α} (hs : s.Fits size)
    {steps : List (Step α)} (h : ∀ t ∈ steps, t.Fits size) :
    (steps.foldl Step.plus s).Fits size := by
  induction steps generalizing s with
  | nil => exact hs
  | cons t rest ih =>
      exact ih (hs.plus (h t (by simp))) fun u hu => h u (by simp [hu])

theorem sum_cons (s : Step α) (steps : List (Step α)) :
    sum (s :: steps) = steps.foldl plus s := by
  rw [sum, List.foldl_cons, empty_plus]

/-- A sum of steps of one length has that length, unless there are none. -/
theorem fits_sum {size : Nat} {steps : List (Step α)}
    (h : ∀ t ∈ steps, t.Fits size) (hne : steps ≠ []) :
    (sum steps).Fits size := by
  cases steps with
  | nil => exact absurd rfl hne
  | cons t rest =>
      rw [sum_cons]
      exact (h t (by simp)).foldl fun u hu => h u (by simp [hu])

/-! ## Exact addition -/

section Exact

variable (hexact : Scalar.Exact α)

include hexact

private theorem zipWith_add_right_comm (zs xs ys : List α) :
    List.zipWith (· + ·) (List.zipWith (· + ·) zs xs) ys =
      List.zipWith (· + ·) (List.zipWith (· + ·) zs ys) xs := by
  induction zs generalizing xs ys with
  | nil => rfl
  | cons z zs ih =>
      cases xs with
      | nil => cases ys <;> rfl
      | cons x xs =>
          cases ys with
          | nil => rfl
          | cons y ys =>
              simp only [List.zipWith_cons_cons]
              rw [ih, hexact.add_right_comm]

private theorem zipWith_add_comm (xs ys : List α) :
    List.zipWith (· + ·) xs ys = List.zipWith (· + ·) ys xs := by
  induction xs generalizing ys with
  | nil => cases ys <;> rfl
  | cons x xs ih =>
      cases ys with
      | nil => rfl
      | cons y ys =>
          simp only [List.zipWith_cons_cons]
          rw [ih, hexact.add_comm]

/-- With exact addition it does not matter which of two steps is added
first. -/
theorem plus_right_comm {size : Nat} {x y : Step α} (hx : x.Fits size)
    (hy : y.Fits size) (z : Step α) :
    (z.plus x).plus y = (z.plus y).plus x := by
  by_cases hsize : size = 0
  · subst hsize
    rw [hx.eq_empty, hy.eq_empty]
  · have hxe := hx.isEmpty hsize
    have hye := hy.isEmpty hsize
    by_cases hz : z.isEmpty = true
    · simp only [plus, hz, hxe, hye, if_true, Bool.false_eq_true, if_false]
      rw [zipWith_add_comm hexact, hexact.add_comm]
    · have hnext : ∀ w : Step α, w.isEmpty = false →
          z.plus w = ⟨List.zipWith (· + ·) z.delta w.delta, z.bias + w.bias⟩ ∧
            (z.plus w).isEmpty = false := by
        intro w hw
        have hplus : z.plus w =
            ⟨List.zipWith (· + ·) z.delta w.delta, z.bias + w.bias⟩ := by
          rw [plus, if_neg hz, if_neg (by simp [hw])]
        have hzdelta : z.delta ≠ [] := fun hnil => hz (isEmpty_iff.mpr hnil)
        have hwdelta : w.delta ≠ [] := by
          intro hnil
          rw [isEmpty_iff.mpr hnil] at hw
          cases hw
        refine ⟨hplus, ?_⟩
        rw [← Bool.not_eq_true, isEmpty_iff, hplus]
        simp [List.zipWith_eq_nil_iff, hzdelta, hwdelta]
      obtain ⟨hzx, hzxe⟩ := hnext x hxe
      obtain ⟨hzy, hzye⟩ := hnext y hye
      rw [plus, if_neg (by simp [hzxe]), if_neg (by simp [hye]), hzx,
        plus, if_neg (by simp [hzye]), if_neg (by simp [hxe]), hzy]
      dsimp only
      rw [zipWith_add_right_comm hexact, hexact.add_right_comm]

/-- With exact addition the order of the steps of a sum does not matter. -/
theorem sum_perm {size : Nat} {steps steps' : List (Step α)}
    (h : steps.Perm steps') (hfits : ∀ t ∈ steps, t.Fits size) :
    sum steps = sum steps' :=
  h.foldl_eq' (fun x hx y hy z =>
    plus_right_comm hexact (hfits x hx) (hfits y hy) z) _

end Exact

end Step

namespace Inbox

variable {α : Type} [Scalar α]

/-- The inbox after one more signal; it agrees with `Inbox.receive` where that
succeeds. -/
def put : Inbox α → Option (Step α) → Inbox α
  | idle, none => awake
  | awake, none => awake
  | holds m, none => holds m
  | idle, some m => holds m
  | awake, some m => holds m
  | holds waiting, some m => holds (waiting.plus m)

theorem eq_put_of_receive {b b' : Inbox α} {m : Option (Step α)}
    (h : b.receive m = .ok b') : b' = b.put m := by
  cases b with
  | idle => cases m <;> exact (Except.ok.inj h).symm
  | awake => cases m <;> exact (Except.ok.inj h).symm
  | holds waiting =>
      cases m with
      | none => exact (Except.ok.inj h).symm
      | some m =>
          simp only [receive] at h
          cases hadd : waiting.add m with
          | error cause => simp [hadd, Except.map] at h
          | ok total =>
              rw [hadd] at h
              rw [← Except.ok.inj h, Step.eq_plus_of_add hadd]
              rfl

/-- An inbox refuses no more than a message that cannot be added to the one that
waits. -/
theorem receive_error_iff {b : Inbox α} {message : Option (Step α)} :
    (∃ cause, b.receive message = .error cause) ↔
      ∃ waiting ∈ b.message?, ∃ step ∈ message,
        waiting.isEmpty = false ∧ step.isEmpty = false ∧
          waiting.delta.length ≠ step.delta.length := by
  cases message with
  | none => cases b <;> simp [receive]
  | some step =>
      cases b with
      | idle => simp [receive, message?]
      | awake => simp [receive, message?]
      | holds waiting =>
          have hmap : (∃ cause, (waiting.add step).map holds = .error cause) ↔
              ∃ cause, waiting.add step = .error cause := by
            cases waiting.add step <;> simp [Except.map]
          simpa [receive, message?] using hmap.trans Step.add_error_iff

@[simp] theorem isActive_put (b : Inbox α) (m : Option (Step α)) :
    (b.put m).isActive = true := by
  cases b <;> cases m <;> rfl

omit [Scalar α] in
theorem eq_idle_of_not_isActive {b : Inbox α} (h : b.isActive = false) :
    b = idle := by
  cases b <;> simp [isActive] at h ⊢

/-- An inbox that was signalled stays active however often it is signalled. -/
theorem isActive_foldl_put (ms : List (Option (Step α))) (b : Inbox α) :
    (ms.foldl put b).isActive = (b.isActive || !ms.isEmpty) := by
  induction ms generalizing b with
  | nil => simp
  | cons m ms ih =>
      rw [List.foldl_cons, ih, isActive_put]
      simp

/-- What waits, if anything, has a set number of coordinates. -/
def Fits (size : Nat) (b : Inbox α) : Prop :=
  ∀ m ∈ b.message?, m.Fits size

theorem fits_idle (size : Nat) : (idle : Inbox α).Fits size := by
  intro m hm
  cases hm

theorem Fits.put {size : Nat} {b : Inbox α} (h : b.Fits size) {m : Step α}
    (hm : m.Fits size) : (b.put (some m)).Fits size := by
  intro n hn
  cases b with
  | idle => exact Option.some.inj hn ▸ hm
  | awake => exact Option.some.inj hn ▸ hm
  | holds waiting => exact Option.some.inj hn ▸ (h waiting rfl).plus hm

/-- A message of the right length can be received. -/
theorem Fits.receive_ok {size : Nat} {b : Inbox α} (h : b.Fits size)
    {m : Step α} (hm : m.Fits size) :
    b.receive (some m) = .ok (b.put (some m)) := by
  cases b with
  | idle => rfl
  | awake => rfl
  | holds waiting =>
      rw [receive, (h waiting rfl).add_ok hm]
      rfl

/-- What waits for a vertex that was idle and has been sent messages. -/
def ofSteps : List (Step α) → Inbox α
  | [] => idle
  | m :: rest => holds (Step.sum (m :: rest))

private theorem foldl_put_holds (steps : List (Step α)) (m : Step α) :
    (steps.map some).foldl put (holds m) = holds (steps.foldl Step.plus m) := by
  induction steps generalizing m with
  | nil => rfl
  | cons step rest ih => exact ih (m.plus step)

theorem foldl_put_idle (steps : List (Step α)) :
    (steps.map some).foldl put idle = ofSteps steps := by
  cases steps with
  | nil => rfl
  | cons m rest =>
      rw [ofSteps, Step.sum_cons, ← foldl_put_holds]
      rfl

/-- Putting more messages into what some messages have left. -/
theorem foldl_put_ofSteps (steps more : List (Step α)) :
    (more.map some).foldl put (ofSteps steps) = ofSteps (steps ++ more) := by
  rw [← foldl_put_idle, ← foldl_put_idle, List.map_append, List.foldl_append]

/-- With exact addition the order of messages does not matter. -/
theorem ofSteps_perm (hexact : Scalar.Exact α) {size : Nat}
    {steps steps' : List (Step α)} (h : steps.Perm steps')
    (hfits : ∀ t ∈ steps, t.Fits size) : ofSteps steps = ofSteps steps' := by
  have hsum := Step.sum_perm hexact h hfits
  cases steps with
  | nil => rw [h.nil_eq]
  | cons m rest =>
      cases steps' with
      | nil => exact absurd h.eq_nil (by simp)
      | cons m' rest' => rw [ofSteps, ofSteps, hsum]

end Inbox

end RatingFactors
