import Mathlib.Algebra.Ring.Int.Defs
import RatingFactors.Random.Shuffle

/-!
# A shuffle only reorders

Every step of a shuffle exchanges two elements, whatever the source draws, so
the shuffled list is a permutation of the list.  There is a source for every
seed of 32 bits, and drawing from it again and again gives as many results as
were asked for.
-/

namespace RatingFactors.Twister

variable {β : Type}

/-- Whole numbers of 32 bits are accepted as seeds. -/
theorem exists_seeded {seed : Int} (hlow : 0 ≤ seed) (hhigh : seed < 2 ^ 32) :
    ∃ source, seeded (some seed) = .ok source := by
  have hseed : ofSeed? seed = some (ofWord (UInt32.ofNat seed.toNat)) := by
    rw [ofSeed?, if_pos]
    exact Bool.and_eq_true_iff.mpr
      ⟨decide_eq_true hlow, decide_eq_true hhigh⟩
  exact ⟨_, by rw [seeded, hseed]⟩

/-- As many results as there are draws. -/
theorem length_draws (draw : StateM Twister β) (n : Nat) (source : Twister) :
    ((draws draw n).run source).1.length = n := by
  induction n generalizing source with
  | zero => rfl
  | succ n ih =>
      rw [draws, StateT.run_bind]
      exact congrArg (· + 1) (ih _)

private theorem exchange_perm (items : Array β) (i j : Nat) :
    (exchange items i j).Perm items := by
  unfold exchange
  rw [Array.swapIfInBounds_def]
  split
  · split
    · exact Array.swap_perm _ _
    · exact Array.Perm.rfl
  · exact Array.Perm.rfl

private theorem shuffleFrom_perm (last : Nat) (items : Array β)
    (source : Twister) :
    ((shuffleFrom last items).run source).1.Perm items := by
  induction last generalizing items source with
  | zero => exact Array.Perm.rfl
  | succ i ih =>
      rw [shuffleFrom, StateT.run_bind]
      exact (ih _ _).trans (exchange_perm _ _ _)

/-- A shuffled list holds the same elements. -/
theorem shuffle_perm (items : List β) (source : Twister) :
    ((shuffle items).run source).1.Perm items := by
  rw [shuffle, StateT.run_bind]
  exact (shuffleFrom_perm (items.length - 1) items.toArray source).toList

end RatingFactors.Twister
