import RatingFactors.Proofs.Graph.Faithful

/-!
# Rows and columns in lockstep

Under a budget the work of learning falls into blocks.  In even blocks rows are
updated and in odd blocks columns; who is updated in one block wakes whoever is
due in the next.  That is so for every schedule that finishes what was waiting
before it turns to what was woken since, be it a round for a whole block or one
vertex at a time.

The module states this for a bipartite graph, a number of updates for each
vertex and a set of active vertices, and knows nothing of engines.

## Main definitions

* `tally` — how many updates a vertex has when a block begins.
* `Due` — the vertices that a block updates.
* `Lockstep` — the invariant in the midst of a block.
* `allotment` — how many updates a vertex has in the end.

## Main results

* `Lockstep.extend` — updating more vertices of a block keeps it.
* `Lockstep.next` — so does passing on to the next block.
* `Lockstep.alternate` — the ends of a training edge are updated in turn.
* `Lockstep.count_eq_allotment` — what has been counted when nobody is active.
-/

namespace RatingFactors

namespace Descent

variable {α : Type} [Scalar α]

/-- How many updates a vertex has when block `k` begins.  A row without
training edges is updated in the first block only. -/
def tally (g : Graph α) (k v : Nat) : Nat :=
  if g.IsTrained v then
    if g.IsRow v then (k + 1) / 2 else k / 2
  else if g.IsRow v then min k 1 else 0

/-- Block `k` updates the vertex: its tally grows, and it has budget left. -/
def Due (g : Graph α) (B : Int) (k v : Nat) : Prop :=
  v < g.size ∧ tally g (k + 1) v = tally g k v + 1 ∧ (tally g k v : Int) < B

/-- Block `k` in its midst: `done` have been updated, and active are those who
are due and not yet done, and those whom somebody done has woken for the next
block. -/
structure Lockstep (g : Graph α) (B : Int) (k : Nat) (done : List Nat)
    (count : Nat → Int) (active : Nat → Prop) : Prop where
  early : (k : Int) ≤ 2 * B
  /-- No block before was idle. -/
  busy : ∀ j < k, ∃ v, Due g B j v
  due : ∀ v ∈ done, Due g B k v
  count_eq : ∀ v < g.size,
    count v = (tally g k v : Int) + if v ∈ done then 1 else 0
  active_iff : ∀ w, active w ↔ (Due g B k w ∧ w ∉ done) ∨
    (Due g B (k + 1) w ∧ ∃ v ∈ done, g.Meets v w)

/-- How many updates a vertex has in the end: the whole budget if it has a
training edge, one if it is a row without any, and otherwise none. -/
def allotment (g : Graph α) (B : Int) (v : Nat) : Int :=
  if g.IsTrained v then B else if g.IsRow v then min 1 B else 0

/-- How many blocks there are in the end. -/
def blockCount (g : Graph α) (B : Int) : Int :=
  if ∃ v < g.size, g.IsTrained v then 2 * B
  else if ∃ v < g.size, g.IsRow v then min 1 B else 0

section Tally

variable {g : Graph α} {v : Nat}

theorem tally_row (htrained : g.IsTrained v) (hrow : g.IsRow v) (k : Nat) :
    tally g k v = (k + 1) / 2 := by
  rw [tally, if_pos htrained, if_pos hrow]

theorem tally_column (htrained : g.IsTrained v) (hrow : ¬ g.IsRow v)
    (k : Nat) : tally g k v = k / 2 := by
  rw [tally, if_pos htrained, if_neg hrow]

theorem tally_bare_row (htrained : ¬ g.IsTrained v) (hrow : g.IsRow v)
    (k : Nat) : tally g k v = min k 1 := by
  rw [tally, if_neg htrained, if_pos hrow]

theorem tally_bare_column (htrained : ¬ g.IsTrained v) (hrow : ¬ g.IsRow v)
    (k : Nat) : tally g k v = 0 := by
  rw [tally, if_neg htrained, if_neg hrow]

end Tally

/-! ## Who is due -/

section Due

variable {g : Graph α} {B : Int} {k v w : Nat}

/-- Even blocks update rows, odd ones columns with training edges, and none is
past the budget. -/
theorem Due.side (h : Due g B k v) :
    (k : Int) < 2 * B ∧
      ((k % 2 = 0 ∧ g.IsRow v ∧ (g.IsTrained v ∨ k = 0)) ∨
        (k % 2 = 1 ∧ ¬ g.IsRow v ∧ g.IsTrained v)) := by
  obtain ⟨-, hgrows, hbudget⟩ := h
  by_cases htrained : g.IsTrained v
  · by_cases hrow : g.IsRow v
    · simp only [tally_row htrained hrow] at hgrows hbudget
      exact ⟨by omega, .inl ⟨by omega, hrow, .inl htrained⟩⟩
    · simp only [tally_column htrained hrow] at hgrows hbudget
      exact ⟨by omega, .inr ⟨by omega, hrow, htrained⟩⟩
  · by_cases hrow : g.IsRow v
    · simp only [tally_bare_row htrained hrow] at hgrows hbudget
      exact ⟨by omega, .inl ⟨by omega, hrow, .inr (by omega)⟩⟩
    · simp only [tally_bare_column htrained hrow] at hgrows
      omega

theorem Due.early (h : Due g B k v) : (k : Int) < 2 * B :=
  h.side.1

/-- Nobody is due in two blocks running. -/
theorem Due.not_succ (h : Due g B k v) : ¬ Due g B (k + 1) v := by
  intro hnext
  rcases h.side.2 with ⟨hk, hrow, -⟩ | ⟨hk, hrow, -⟩
  · rcases hnext.side.2 with ⟨hk', -⟩ | ⟨-, hrow', -⟩
    · omega
    · exact hrow' hrow
  · rcases hnext.side.2 with ⟨-, hrow', -⟩ | ⟨hk', -⟩
    · exact hrow hrow'
    · omega

/-- The vertex across a training edge from one that is due keeps its tally, and
is due next if its budget allows. -/
theorem Due.across (hg : g.Bipartite) (h : Due g B k v)
    (hmeets : g.Meets v w) :
    tally g (k + 1) w = tally g k w ∧
      (Due g B (k + 1) w ↔ (tally g k w : Int) < B) := by
  have hw : w < g.size := hg.meets_lt h.1 hmeets
  have htrained : g.IsTrained w :=
    Graph.isTrained_iff.mpr ⟨v, hg.meets_symm h.1 hmeets⟩
  rcases hg.meets_sides h.1 hmeets with ⟨hvrow, -, -, hwrow⟩ |
    ⟨-, hvrow, hwrow, -⟩
  · have hk : k % 2 = 0 := by
      rcases h.side.2 with ⟨hk, -⟩ | ⟨-, hrow, -⟩
      · exact hk
      · exact absurd hvrow hrow
    simp only [Due, tally_column htrained hwrow]
    refine ⟨by omega, fun hdue => by omega, fun hbudget => ?_⟩
    exact ⟨hw, by omega, by omega⟩
  · have hk : k % 2 = 1 := by
      rcases h.side.2 with ⟨-, hrow, -⟩ | ⟨hk, -⟩
      · exact absurd hrow hvrow
      · exact hk
    simp only [Due, tally_row htrained hwrow]
    refine ⟨by omega, fun hdue => by omega, fun hbudget => ?_⟩
    exact ⟨hw, by omega, by omega⟩

/-- As long as the budget lasts one end of every training edge is due. -/
theorem due_or_due_of_meets (hg : g.Bipartite) (hv : v < g.size)
    (hmeets : g.Meets v w) (hearly : (k : Int) < 2 * B) :
    Due g B k v ∨ Due g B k w := by
  have hw : w < g.size := hg.meets_lt hv hmeets
  have hvtrained : g.IsTrained v := Graph.isTrained_iff.mpr ⟨w, hmeets⟩
  have hwtrained : g.IsTrained w :=
    Graph.isTrained_iff.mpr ⟨v, hg.meets_symm hv hmeets⟩
  rcases Nat.mod_two_eq_zero_or_one k with hk | hk
  · rcases hg.meets_sides hv hmeets with ⟨hrow, -⟩ | ⟨-, -, hrow, -⟩
    · left
      simp only [Due, tally_row hvtrained hrow]
      exact ⟨hv, by omega, by omega⟩
    · right
      simp only [Due, tally_row hwtrained hrow]
      exact ⟨hw, by omega, by omega⟩
  · rcases hg.meets_sides hv hmeets with ⟨-, -, -, hrow⟩ | ⟨-, hrow, -⟩
    · right
      simp only [Due, tally_column hwtrained hrow]
      exact ⟨hw, by omega, by omega⟩
    · left
      simp only [Due, tally_column hvtrained hrow]
      exact ⟨hv, by omega, by omega⟩

/-- Whoever is due in a block has a neighbour that was due in the block
before. -/
theorem Due.exists_meets (hg : g.Bipartite) (h : Due g B (k + 1) w) :
    ∃ v, Due g B k v ∧ g.Meets v w := by
  have htrained : g.IsTrained w := by
    rcases h.side.2 with ⟨-, -, htrained | hk⟩ | ⟨-, -, htrained⟩
    · exact htrained
    · omega
    · exact htrained
  obtain ⟨v, hmeets⟩ := Graph.isTrained_iff.mp htrained
  have hearly : (k : Int) < 2 * B := by
    have := h.early
    omega
  refine ⟨v, ?_, hg.meets_symm h.1 hmeets⟩
  rcases due_or_due_of_meets hg h.1 hmeets hearly with hdue | hdue
  · exact absurd h hdue.not_succ
  · exact hdue

/-- A tally grows by one if the vertex is due, and not at all otherwise, as
long as the budget lasts. -/
theorem tally_succ (hv : v < g.size) (hearly : (k : Int) < 2 * B) :
    (Due g B k v ∧ tally g (k + 1) v = tally g k v + 1) ∨
      (¬ Due g B k v ∧ tally g (k + 1) v = tally g k v) := by
  by_cases hdue : Due g B k v
  · exact .inl ⟨hdue, hdue.2.1⟩
  · refine .inr ⟨hdue, ?_⟩
    unfold Due at hdue
    by_cases htrained : g.IsTrained v
    · by_cases hrow : g.IsRow v
      · simp only [tally_row htrained hrow] at hdue ⊢
        omega
      · simp only [tally_column htrained hrow] at hdue ⊢
        omega
    · by_cases hrow : g.IsRow v
      · simp only [tally_bare_row htrained hrow] at hdue ⊢
        omega
      · simp only [tally_bare_column htrained hrow]

end Due

/-! ## The invariant -/

namespace Lockstep

variable {g : Graph α} {B : Int} {k : Nat} {done : List Nat}
  {count : Nat → Int} {active : Nat → Prop}

/-- Before anything was updated exactly the rows are active, if there is any
budget. -/
theorem start (hB : 0 ≤ B) (hcount : ∀ v < g.size, count v = 0)
    (hactive : ∀ w, active w ↔ w < g.size ∧ g.IsRow w ∧ 0 < B) :
    Lockstep g B 0 [] count active where
  early := by omega
  busy := fun j hj => absurd hj (Nat.not_lt_zero j)
  due := fun v hv => absurd hv List.not_mem_nil
  count_eq := by
    intro v hv
    rw [hcount v hv, if_neg List.not_mem_nil]
    unfold tally
    split <;> split <;> rfl
  active_iff := by
    intro w
    have hdue : Due g B 0 w ↔ w < g.size ∧ g.IsRow w ∧ 0 < B := by
      unfold Due tally
      by_cases htrained : g.IsTrained w
      · by_cases hrow : g.IsRow w <;> simp [htrained, hrow]
      · by_cases hrow : g.IsRow w <;> simp [htrained, hrow]
    rw [hactive, ← hdue]
    simp

/-- A neighbour of somebody due is not due in the same block, which leaves its
count alone. -/
theorem count_across (hg : g.Bipartite)
    (h : Lockstep g B k done count active) {v w : Nat} (hv : Due g B k v)
    (hmeets : g.Meets v w) :
    ¬ Due g B k w ∧ count w = (tally g k w : Int) := by
  have hw := hg.meets_lt hv.1 hmeets
  obtain ⟨htally, -⟩ := hv.across hg hmeets
  have hnot : ¬ Due g B k w := by
    rintro ⟨-, hgrows, -⟩
    omega
  refine ⟨hnot, ?_⟩
  rw [h.count_eq w hw, if_neg fun hdone => hnot (h.due w hdone)]
  omega

/-- Updating more vertices of a block keeps the invariant.  A row looks at the
counts before and after, a column at those after. -/
theorem extend (hg : g.Bipartite) (h : Lockstep g B k done count active)
    {order : List Nat} (hdue : ∀ v ∈ order, Due g B k v)
    (hnew : ∀ v ∈ order, v ∉ done) {count' : Nat → Int}
    {active' : Nat → Prop}
    (hcount : ∀ v, count' v = count v + if v ∈ order then 1 else 0)
    (hactive : ∀ w, active' w ↔ (active w ∧ w ∉ order) ∨
      ∃ v ∈ order, g.Meets v w ∧
        ((¬ g.IsColumn v ∧ count w < B) ∨ count' w < B)) :
    Lockstep g B k (done ++ order) count' active' where
  early := h.early
  busy := h.busy
  due := by
    intro v hv
    rcases List.mem_append.mp hv with hv | hv
    · exact h.due v hv
    · exact hdue v hv
  count_eq := by
    intro v hv
    rw [hcount, h.count_eq v hv]
    by_cases horder : v ∈ order
    · rw [if_pos horder, if_neg (hnew v horder),
        if_pos (List.mem_append_right _ horder)]
      omega
    · by_cases hdone : v ∈ done
      · rw [if_neg horder, if_pos hdone, if_pos (List.mem_append_left _ hdone)]
        omega
      · rw [if_neg horder, if_neg hdone,
          if_neg fun hv => (List.mem_append.mp hv).elim hdone horder]
        omega
  active_iff := by
    intro w
    have hwoken : ∀ v ∈ order, g.Meets v w →
        (((¬ g.IsColumn v ∧ count w < B) ∨ count' w < B) ↔
          Due g B (k + 1) w) := by
      intro v hv hmeets
      obtain ⟨-, hiff⟩ := (hdue v hv).across hg hmeets
      obtain ⟨hnot, hbefore⟩ := h.count_across hg (hdue v hv) hmeets
      have hafter : count' w = (tally g k w : Int) := by
        rw [hcount, hbefore, if_neg fun horder => hnot (hdue w horder)]
        omega
      rw [hiff, hbefore, hafter]
      constructor
      · rintro (⟨-, hlt⟩ | hlt) <;> exact hlt
      · exact .inr
    rw [hactive, h.active_iff]
    constructor
    · rintro (⟨⟨hw, hdone⟩ | ⟨hw, v, hv, hmeets⟩, horder⟩ |
        ⟨v, hv, hmeets, hlt⟩)
      · exact .inl ⟨hw, fun hmem =>
          (List.mem_append.mp hmem).elim hdone horder⟩
      · exact .inr ⟨hw, v, List.mem_append_left _ hv, hmeets⟩
      · exact .inr ⟨(hwoken v hv hmeets).mp hlt, v,
          List.mem_append_right _ hv, hmeets⟩
    · rintro (⟨hw, hnone⟩ | ⟨hw, v, hv, hmeets⟩)
      · exact .inl ⟨.inl ⟨hw, fun hdone =>
          hnone (List.mem_append_left _ hdone)⟩, fun horder =>
          hnone (List.mem_append_right _ horder)⟩
      · rcases List.mem_append.mp hv with hv | hv
        · refine .inl ⟨.inr ⟨hw, v, hv, hmeets⟩, fun horder => ?_⟩
          exact (hdue w horder).not_succ hw
        · exact .inr ⟨v, hv, hmeets, (hwoken v hv hmeets).mpr hw⟩

/-- When everybody due has been updated, the next block begins. -/
theorem next (hg : g.Bipartite) (h : Lockstep g B k done count active)
    (hall : ∀ v, Due g B k v → v ∈ done) (hsome : ∃ v, Due g B k v) :
    Lockstep g B (k + 1) [] count active where
  early := by
    obtain ⟨v, hv⟩ := hsome
    have := hv.early
    omega
  busy := by
    intro j hj
    rcases Nat.lt_succ_iff_lt_or_eq.mp hj with hj | rfl
    · exact h.busy j hj
    · exact hsome
  due := fun v hv => absurd hv List.not_mem_nil
  count_eq := by
    intro v hv
    obtain ⟨u, hu⟩ := hsome
    rw [h.count_eq v hv, if_neg List.not_mem_nil]
    rcases tally_succ hv hu.early with ⟨hdue, htally⟩ | ⟨hdue, htally⟩
    · rw [if_pos (hall v hdue)]
      omega
    · rw [if_neg fun hdone => hdue (h.due v hdone)]
      omega
  active_iff := by
    intro w
    rw [h.active_iff]
    constructor
    · rintro (⟨hw, hdone⟩ | ⟨hw, -⟩)
      · exact absurd (hall w hw) hdone
      · exact .inl ⟨hw, List.not_mem_nil⟩
    · rintro (⟨hw, -⟩ | ⟨-, v, hv, -⟩)
      · obtain ⟨v, hdue, hmeets⟩ := hw.exists_meets hg
        exact .inr ⟨hw, v, hall v hdue, hmeets⟩
      · exact absurd hv List.not_mem_nil

/-! ## What the invariant says -/

/-- The ends of a training edge are updated in turn, the row first. -/
theorem alternate (hg : g.Bipartite) (h : Lockstep g B k done count active)
    {r c : Nat} (hr : r < g.size) (hrow : g.IsRow r) (hmeets : g.Meets r c) :
    count c ≤ count r ∧ count r ≤ count c + 1 := by
  have hc := hg.meets_lt hr hmeets
  have hcolumn : ¬ g.IsRow c := by
    rcases hg.meets_sides hr hmeets with ⟨-, -, -, hcolumn⟩ | ⟨-, hno, -⟩
    · exact hcolumn
    · exact absurd hrow hno
  have htrained : g.IsTrained r := Graph.isTrained_iff.mpr ⟨c, hmeets⟩
  have htrained' : g.IsTrained c :=
    Graph.isTrained_iff.mpr ⟨r, hg.meets_symm hr hmeets⟩
  have hrdone : r ∈ done → k % 2 = 0 := by
    intro hdone
    rcases (h.due r hdone).side.2 with ⟨hk, -⟩ | ⟨-, hno, -⟩
    · exact hk
    · exact absurd hrow hno
  have hcdone : c ∈ done → k % 2 = 1 := by
    intro hdone
    rcases (h.due c hdone).side.2 with ⟨-, hno, -⟩ | ⟨hk, -⟩
    · exact absurd hno hcolumn
    · exact hk
  rw [h.count_eq r hr, h.count_eq c hc, tally_row htrained hrow,
    tally_column htrained' hcolumn]
  by_cases hr' : r ∈ done
  · have := hrdone hr'
    by_cases hc' : c ∈ done
    · have := hcdone hc'
      omega
    · rw [if_pos hr', if_neg hc']
      omega
  · by_cases hc' : c ∈ done
    · have := hcdone hc'
      rw [if_neg hr', if_pos hc']
      omega
    · rw [if_neg hr', if_neg hc']
      omega

/-- The column at a training edge of an active row has budget left. -/
theorem count_lt (hg : g.Bipartite) (h : Lockstep g B k done count active)
    {r c : Nat} (hr : r < g.size) (hactive : active r) (hrow : g.IsRow r)
    (hmeets : g.Meets r c) : count c < B := by
  have hc : c < g.size := hg.meets_lt hr hmeets
  have htrained : g.IsTrained r := Graph.isTrained_iff.mpr ⟨c, hmeets⟩
  have htrained' : g.IsTrained c :=
    Graph.isTrained_iff.mpr ⟨r, hg.meets_symm hr hmeets⟩
  have hcolumn : ¬ g.IsRow c := by
    rcases hg.meets_sides hr hmeets with ⟨-, -, -, hno⟩ | ⟨-, hno, -⟩
    · exact hno
    · exact absurd hrow hno
  have hcount : count c ≤ ((k + 1) / 2 : Nat) := by
    rw [h.count_eq c hc, tally_column htrained' hcolumn]
    by_cases hdone : c ∈ done
    · have hgrows := (h.due c hdone).2.1
      rw [tally_column htrained' hcolumn, tally_column htrained' hcolumn]
        at hgrows
      rw [if_pos hdone]
      omega
    · rw [if_neg hdone]
      omega
  -- The row is due in this block or in the next; its tally is no smaller.
  rcases (h.active_iff r).mp hactive with ⟨⟨-, -, hbudget⟩, -⟩ |
    ⟨⟨-, -, hbudget⟩, -⟩
  · rw [tally_row htrained hrow] at hbudget
    omega
  · rw [tally_row htrained hrow] at hbudget
    omega

/-- Between two blocks the ends of a training edge are not both active. -/
theorem not_both_active (hg : g.Bipartite) (h : Lockstep g B k [] count active)
    {v w : Nat} (hmeets : g.Meets v w) :
    ¬ (active v ∧ active w) := by
  rintro ⟨hactive, hactive'⟩
  have hdue : ∀ u, active u → Due g B k u := by
    intro u hu
    rcases (h.active_iff u).mp hu with ⟨hu, -⟩ | ⟨-, _, hmem, -⟩
    · exact hu
    · exact absurd hmem List.not_mem_nil
  obtain ⟨htally, -⟩ := (hdue v hactive).across hg hmeets
  have hgrows := (hdue w hactive').2.1
  omega

/-- When nobody is active no block is under way. -/
theorem settle (hg : g.Bipartite) (h : Lockstep g B k done count active)
    (hrest : ∀ w, ¬ active w) : ∃ k, Lockstep g B k [] count active := by
  cases done with
  | nil => exact ⟨k, h⟩
  | cons v rest =>
      refine ⟨k + 1, h.next hg ?_ ⟨v, h.due v List.mem_cons_self⟩⟩
      intro w hw
      by_cases hdone : w ∈ v :: rest
      · exact hdone
      · exact absurd ((h.active_iff w).mpr (.inl ⟨hw, hdone⟩)) (hrest w)

/-- When nobody is active nobody is due. -/
theorem not_due (h : Lockstep g B k [] count active)
    (hrest : ∀ w, ¬ active w) (v : Nat) : ¬ Due g B k v := by
  intro hdue
  exact hrest v ((h.active_iff v).mpr (.inl ⟨hdue, List.not_mem_nil⟩))

/-- Work ends with a training edge in the graph only when the budget is used
up. -/
theorem late_of_trained (hg : g.Bipartite) (h : Lockstep g B k [] count active)
    (hrest : ∀ w, ¬ active w) {v : Nat} (hv : v < g.size)
    (htrained : g.IsTrained v) : (k : Int) = 2 * B := by
  obtain ⟨w, hmeets⟩ := Graph.isTrained_iff.mp htrained
  have hearly := h.early
  by_cases hlt : (k : Int) < 2 * B
  · rcases due_or_due_of_meets hg hv hmeets hlt with hdue | hdue
    · exact absurd hdue (h.not_due hrest v)
    · exact absurd hdue (h.not_due hrest w)
  · omega

/-- What has been counted when nobody is active any more. -/
theorem count_eq_allotment (hg : g.Bipartite)
    (h : Lockstep g B k [] count active) (hrest : ∀ w, ¬ active w) {v : Nat}
    (hv : v < g.size) : count v = allotment g B v := by
  have hnot := h.not_due hrest v
  have hearly := h.early
  rw [h.count_eq v hv, if_neg List.not_mem_nil]
  by_cases htrained : g.IsTrained v
  · have hlate := h.late_of_trained hg hrest hv htrained
    rw [allotment, if_pos htrained]
    by_cases hrow : g.IsRow v
    · rw [tally_row htrained hrow]
      omega
    · rw [tally_column htrained hrow]
      omega
  · by_cases hrow : g.IsRow v
    · simp only [Due, tally_bare_row htrained hrow] at hnot
      rw [allotment, if_neg htrained, if_pos hrow, tally_bare_row htrained hrow]
      omega
    · rw [allotment, if_neg htrained, if_neg hrow,
        tally_bare_column htrained hrow]
      omega

/-- How many blocks there were when nobody is active any more. -/
theorem blocks_eq_blockCount (hg : g.Bipartite)
    (h : Lockstep g B k [] count active) (hrest : ∀ w, ¬ active w) :
    (k : Int) = blockCount g B := by
  have hearly := h.early
  unfold blockCount
  split
  · rename_i htrained
    obtain ⟨v, hv, htrained⟩ := htrained
    exact h.late_of_trained hg hrest hv htrained
  · rename_i hbare
    have hbare : ∀ v < g.size, ¬ g.IsTrained v :=
      fun v hv htrained => hbare ⟨v, hv, htrained⟩
    have hk : k ≤ 1 := by
      apply Nat.le_of_not_lt
      intro hlt
      obtain ⟨v, hdue⟩ := h.busy 1 hlt
      rcases hdue.side.2 with ⟨hodd, -⟩ | ⟨-, -, htrained⟩
      · omega
      · exact hbare v hdue.1 htrained
    split
    · rename_i hrow
      obtain ⟨v, hv, hrow⟩ := hrow
      have hnot := h.not_due hrest v
      simp only [Due, tally_bare_row (hbare v hv) hrow] at hnot
      omega
    · rename_i hrow
      have hk0 : ¬ 0 < k := by
        intro hpos
        obtain ⟨v, hdue⟩ := h.busy 0 hpos
        rcases hdue.side.2 with ⟨-, hv, -⟩ | ⟨hodd, -⟩
        · exact hrow ⟨v, hdue.1, hv⟩
        · omega
      omega

end Lockstep

end Descent

end RatingFactors
