import RatingFactors.Attempt

/-!
# Running attempts

What `perform` does to each way of putting attempts together.  The equations
are exact: they say which state a failed attempt leaves as well.  The
inversions take a successful run apart into the runs of its pieces, which is how
most later proofs read a phase of the engine.  The `leaves` and `keeps` lemmas
are about attempts that may have failed halfway.

## Main results

* `perform_bind` — one attempt after another.
* `perform_bind_ok` — a successful sequence, taken apart at its middle state.
* `each_induction` — what each round of a loop preserves, the loop establishes.
-/

namespace RatingFactors.Attempt

variable {s β γ : Type}

@[simp] theorem perform_pure (result : β) (state : s) :
    (pure result : Attempt s β).perform state = (.ok result, state) := rfl

@[simp] theorem perform_throw (cause : Failure) (state : s) :
    (throw cause : Attempt s β).perform state = (.error cause, state) := rfl

@[simp] theorem perform_get (state : s) :
    (get : Attempt s s).perform state = (.ok state, state) := rfl

@[simp] theorem perform_set (next state : s) :
    (set next : Attempt s PUnit).perform state = (.ok ⟨⟩, next) := rfl

@[simp] theorem perform_modify (change : s → s) (state : s) :
    (modify change : Attempt s PUnit).perform state =
      (.ok ⟨⟩, change state) := rfl

@[simp] theorem perform_lift (answer : Except Failure β) (state : s) :
    (lift answer : Attempt s β).perform state = (answer, state) := by
  cases answer <;> rfl

/-- The second attempt goes on from the state the first has reached, and only
if the first has a result. -/
theorem perform_bind (work : Attempt s β) (next : β → Attempt s γ)
    (state : s) :
    (work >>= next).perform state =
      match work.perform state with
      | (.ok result, reached) => (next result).perform reached
      | (.error cause, reached) => (.error cause, reached) := by
  unfold perform ExceptT.run StateT.run
  simp only [bind, ExceptT.bind, ExceptT.mk, StateT.bind, ExceptT.bindCont]
  cases work state with
  | mk answer reached => cases answer <;> rfl

/-- A successful sequence passes through a middle state. -/
theorem perform_bind_ok {work : Attempt s β} {next : β → Attempt s γ}
    {result : γ} {state final : s} :
    (work >>= next).perform state = (.ok result, final) ↔
      ∃ middle reached, work.perform state = (.ok middle, reached) ∧
        (next middle).perform reached = (.ok result, final) := by
  rw [perform_bind]
  constructor
  · intro h
    cases hrun : work.perform state with
    | mk answer reached =>
        cases answer with
        | error cause => simp [hrun] at h
        | ok middle =>
            rw [hrun] at h
            exact ⟨middle, reached, rfl, h⟩
  · rintro ⟨middle, reached, hrun, h⟩
    rw [hrun]
    exact h

/-- Whether a sequence goes through or not, it leaves what its first attempt
leaves and its second keeps. -/
theorem bind_leaves {work : Attempt s β} {next : β → Attempt s γ} {state : s}
    (motive : s → Prop) (hwork : motive (work.perform state).2)
    (hnext : ∀ result reached, motive reached →
      motive ((next result).perform reached).2) :
    motive ((work >>= next).perform state).2 := by
  rw [perform_bind]
  cases hrun : work.perform state with
  | mk answer reached =>
      rw [hrun] at hwork
      cases answer with
      | error cause => exact hwork
      | ok result => exact hnext result reached hwork

theorem perform_get_bind (next : s → Attempt s γ) (state : s) :
    (get >>= next).perform state = (next state).perform state := by
  rw [perform_bind, perform_get]

theorem perform_set_bind (reached : s) (next : PUnit → Attempt s γ)
    (state : s) :
    (set reached >>= next).perform state = (next ⟨⟩).perform reached := by
  rw [perform_bind, perform_set]

theorem perform_modify_bind (change : s → s) (next : PUnit → Attempt s γ)
    (state : s) :
    (modify change >>= next).perform state =
      (next ⟨⟩).perform (change state) := by
  rw [perform_bind, perform_modify]

/-- A successful sequence that begins with a computation passes its result
on in the same state. -/
theorem perform_lift_bind_ok {answer : Except Failure β}
    {next : β → Attempt s γ} {result : γ} {state final : s} :
    (lift answer >>= next).perform state = (.ok result, final) ↔
      ∃ middle, answer = .ok middle ∧
        (next middle).perform state = (.ok result, final) := by
  rw [perform_bind_ok]
  constructor
  · rintro ⟨middle, reached, hlift, h⟩
    rw [perform_lift, Prod.mk.injEq] at hlift
    exact ⟨middle, hlift.1, hlift.2 ▸ h⟩
  · rintro ⟨middle, hanswer, h⟩
    exact ⟨middle, state, by rw [perform_lift, hanswer], h⟩

/-- A successful sequence of computations passes through a middle result. -/
theorem bind_ok {answer : Except Failure β} {next : β → Except Failure γ}
    {result : γ} :
    (answer >>= next) = .ok result ↔
      ∃ middle, answer = .ok middle ∧ next middle = .ok result := by
  cases answer with
  | error cause =>
      constructor
      · intro h
        cases h
      · rintro ⟨middle, h, -⟩
        cases h
  | ok found =>
      constructor
      · exact fun h => ⟨found, rfl, h⟩
      · rintro ⟨middle, h, hnext⟩
        rw [Except.ok.inj h]
        exact hnext

/-- Computations that do not need the state can be put together before they
are lifted. -/
theorem lift_bind (answer : Except Failure β) (next : β → Except Failure γ) :
    (lift (answer >>= next) : Attempt s γ) =
      lift answer >>= fun result => lift (next result) := by
  cases answer with
  | error cause => rfl
  | ok result => rfl

/-- Work that prints inside other work goes through as it does on its own. -/
theorem perform_within_ok {work : Telling β} {print : List String → s → s}
    {result : β} {state final : s} :
    (work.within print).perform state = (.ok result, final) ↔
      ∃ lines, work.perform [] = (.ok result, lines) ∧
        print lines state = final := by
  change ((work.perform []).1, print (work.perform []).2 state) = _ ↔ _
  cases hrun : work.perform [] with
  | mk answer lines =>
      simp only [Prod.mk.injEq]
      constructor
      · rintro ⟨hanswer, hprint⟩
        exact ⟨lines, ⟨hanswer, rfl⟩, hprint⟩
      · rintro ⟨_, ⟨hanswer, rfl⟩, hprint⟩
        exact ⟨hanswer, hprint⟩

/-- A run whose answer has been evaluated. -/
theorem perform_of_answer {work : Attempt s β} {state : s}
    {answer : Except Failure β} (h : (work.perform state).1 = answer) :
    work.perform state = (answer, (work.perform state).2) := by
  rw [← h]

/-- A run that has been evaluated to a result. -/
theorem perform_of_toOption {work : Attempt s β} {state : s} {result : β}
    (h : (work.perform state).1.toOption = some result) :
    work.perform state = (.ok result, (work.perform state).2) := by
  refine perform_of_answer ?_
  cases hanswer : (work.perform state).1 with
  | error cause =>
      rw [hanswer] at h
      cases h
  | ok middle =>
      rw [hanswer] at h
      rw [Option.some.inj h]

/-! ## Loops -/

section Loops

variable {ι : Type} {state final : s}

@[simp] theorem perform_each_nil (work : ι → Attempt s Unit) (state : s) :
    (each [] work).perform state = (.ok (), state) := rfl

theorem perform_each_cons_ok {i : ι} {rest : List ι}
    {work : ι → Attempt s Unit} :
    (each (i :: rest) work).perform state = (.ok (), final) ↔
      ∃ reached, (work i).perform state = (.ok (), reached) ∧
        (each rest work).perform reached = (.ok (), final) := by
  rw [each, perform_bind_ok]
  constructor
  · rintro ⟨_, reached, hi, hrest⟩
    exact ⟨reached, hi, hrest⟩
  · rintro ⟨reached, hi, hrest⟩
    exact ⟨(), reached, hi, hrest⟩

theorem perform_collect_cons_ok {i : ι} {rest : List ι}
    {work : ι → Attempt s β} {results : List β} :
    (collect (i :: rest) work).perform state = (.ok results, final) ↔
      ∃ result others reached, results = result :: others ∧
        (work i).perform state = (.ok result, reached) ∧
        (collect rest work).perform reached = (.ok others, final) := by
  rw [collect, perform_bind_ok]
  constructor
  · rintro ⟨result, reached, hi, h⟩
    obtain ⟨others, last, hrest, hpure⟩ := perform_bind_ok.mp h
    obtain ⟨hresults, rfl⟩ := Prod.mk.inj hpure
    exact ⟨result, others, reached, (Except.ok.inj hresults).symm, hi, hrest⟩
  · rintro ⟨result, others, reached, rfl, hi, hrest⟩
    exact ⟨result, reached, hi,
      perform_bind_ok.mpr ⟨others, final, hrest, rfl⟩⟩

/-- A loop over two lists is a loop over the one and then over the other. -/
theorem each_append (items more : List ι) (work : ι → Attempt s Unit) :
    each (items ++ more) work =
      each items work >>= fun _ => each more work := by
  induction items with
  | nil => rfl
  | cons i rest ih => rw [List.cons_append, each, each, ih, bind_assoc]

/-- It goes through if both do. -/
theorem perform_each_append_ok {items more : List ι}
    {work : ι → Attempt s Unit} :
    (each (items ++ more) work).perform state = (.ok (), final) ↔
      ∃ reached, (each items work).perform state = (.ok (), reached) ∧
        (each more work).perform reached = (.ok (), final) := by
  rw [each_append, perform_bind_ok]
  constructor
  · rintro ⟨_, reached, hitems, hmore⟩
    exact ⟨reached, hitems, hmore⟩
  · rintro ⟨reached, hitems, hmore⟩
    exact ⟨(), reached, hitems, hmore⟩

/-- A loop over one element is that element's work. -/
theorem each_singleton {i : ι} {work : ι → Attempt s Unit} :
    (each [i] work).perform state = (.ok (), final) ↔
      (work i).perform state = (.ok (), final) := by
  rw [perform_each_cons_ok]
  constructor
  · rintro ⟨reached, hi, hend⟩
    rw [← (Prod.mk.inj hend).2]
    exact hi
  · exact fun h => ⟨final, h, rfl⟩

theorem collect_singleton {i : ι} {work : ι → Attempt s β}
    {results : List β} :
    (collect [i] work).perform state = (.ok results, final) ↔
      ∃ result, results = [result] ∧
        (work i).perform state = (.ok result, final) := by
  rw [perform_collect_cons_ok]
  constructor
  · rintro ⟨result, others, reached, rfl, hi, hend⟩
    obtain ⟨hothers, rfl⟩ := Prod.mk.inj hend
    exact ⟨result, by rw [← Except.ok.inj hothers], hi⟩
  · rintro ⟨result, rfl, hi⟩
    exact ⟨result, [], final, rfl, hi, rfl⟩

/-- A loop over images is a loop over the originals. -/
theorem each_map {κ : Type} (image : κ → ι) (items : List κ)
    (work : ι → Attempt s Unit) :
    each (items.map image) work = each items fun i => work (image i) := by
  induction items with
  | nil => rfl
  | cons i rest ih =>
      rw [List.map_cons, each, each, ih]

/-- What every round of a loop preserves holds when the loop is through.  The
motive sees which elements have been done. -/
theorem each_induction {items : List ι} {work : ι → Attempt s Unit}
    (motive : List ι → s → Prop)
    (hrun : (each items work).perform state = (.ok (), final))
    (start : motive [] state)
    (step : ∀ seen i rest reached next, items = seen ++ i :: rest →
      motive seen reached → (work i).perform reached = (.ok (), next) →
      motive (seen ++ [i]) next) :
    motive items final := by
  have general : ∀ rest seen reached, items = seen ++ rest →
      motive seen reached →
      (each rest work).perform reached = (.ok (), final) →
      motive items final := by
    intro rest
    induction rest with
    | nil =>
        intro seen reached hitems hseen hend
        simp only [perform_each_nil, Prod.mk.injEq, true_and] at hend
        rw [hitems, List.append_nil, ← hend]
        exact hseen
    | cons i rest ih =>
        intro seen reached hitems hseen hend
        obtain ⟨next, hi, hrest⟩ := perform_each_cons_ok.mp hend
        exact ih (seen ++ [i]) next (by simpa using hitems)
          (step seen i rest reached next hitems hseen hi) hrest
  exact general items [] state rfl start hrun

/-- The same for a loop that collects results. -/
theorem collect_induction {items : List ι} {work : ι → Attempt s β}
    {results : List β} (motive : List ι → List β → s → Prop)
    (hrun : (collect items work).perform state = (.ok results, final))
    (start : motive [] [] state)
    (step : ∀ seen found i rest reached result next,
      items = seen ++ i :: rest → motive seen found reached →
      (work i).perform reached = (.ok result, next) →
      motive (seen ++ [i]) (found ++ [result]) next) :
    motive items results final := by
  have general : ∀ rest seen found others reached, items = seen ++ rest →
      results = found ++ others → motive seen found reached →
      (collect rest work).perform reached = (.ok others, final) →
      motive items results final := by
    intro rest
    induction rest with
    | nil =>
        intro seen found others reached hitems hresults hseen hend
        simp only [collect, perform_pure, Prod.mk.injEq,
          Except.ok.injEq] at hend
        rw [hitems, hresults, ← hend.1, List.append_nil, List.append_nil,
          ← hend.2]
        exact hseen
    | cons i rest ih =>
        intro seen found others reached hitems hresults hseen hend
        obtain ⟨result, later, next, rfl, hi, hrest⟩ :=
          perform_collect_cons_ok.mp hend
        exact ih (seen ++ [i]) (found ++ [result]) later next
          (by simpa using hitems) (by simpa using hresults)
          (step seen found i rest reached result next hitems hseen hi) hrest
  exact general items [] [] results state rfl rfl start hrun

/-- A loop goes through if every round of it does, from each state that the
rounds before can reach. -/
theorem exists_each (items : List ι) (work : ι → Attempt s Unit)
    (motive : List ι → s → Prop) (start : motive [] state)
    (step : ∀ seen i rest reached, items = seen ++ i :: rest →
      motive seen reached → ∃ next, (work i).perform reached = (.ok (), next) ∧
        motive (seen ++ [i]) next) :
    ∃ final, (each items work).perform state = (.ok (), final) ∧
      motive items final := by
  have general : ∀ rest seen reached, items = seen ++ rest →
      motive seen reached →
      ∃ final, (each rest work).perform reached = (.ok (), final) ∧
        motive items final := by
    intro rest
    induction rest with
    | nil =>
        intro seen reached hitems hseen
        rw [List.append_nil] at hitems
        exact ⟨reached, rfl, hitems ▸ hseen⟩
    | cons i rest ih =>
        intro seen reached hitems hseen
        obtain ⟨next, hi, hnext⟩ := step seen i rest reached hitems hseen
        obtain ⟨final, hfinal, hmotive⟩ :=
          ih (seen ++ [i]) next (by simpa using hitems) hnext
        exact ⟨final, perform_each_cons_ok.mpr ⟨next, hi, hfinal⟩, hmotive⟩
  exact general items [] state rfl start

/-- A loop that collects results goes through, or it fails as one of its rounds
does after those before it went through. -/
theorem collect_cases (items : List ι) (work : ι → Attempt s β)
    (motive : List ι → s → Prop) (fault : List ι → ι → Failure → s → Prop)
    (start : motive [] state)
    (step : ∀ seen i rest reached, items = seen ++ i :: rest →
      motive seen reached →
      (∃ result next, (work i).perform reached = (.ok result, next) ∧
        motive (seen ++ [i]) next) ∨
      ∃ cause next, (work i).perform reached = (.error cause, next) ∧
        fault seen i cause next) :
    (∃ results final,
      (collect items work).perform state = (.ok results, final) ∧
        motive items final) ∨
      ∃ seen i rest cause final, items = seen ++ i :: rest ∧
        (collect items work).perform state = (.error cause, final) ∧
          fault seen i cause final := by
  have general : ∀ rest seen reached, items = seen ++ rest →
      motive seen reached →
      (∃ results final,
        (collect rest work).perform reached = (.ok results, final) ∧
          motive items final) ∨
        ∃ seen i rest' cause final, items = seen ++ i :: rest' ∧
          (collect rest work).perform reached = (.error cause, final) ∧
            fault seen i cause final := by
    intro rest
    induction rest with
    | nil =>
        intro seen reached hitems hseen
        rw [List.append_nil] at hitems
        exact .inl ⟨[], reached, rfl, hitems ▸ hseen⟩
    | cons i rest ih =>
        intro seen reached hitems hseen
        rw [collect, perform_bind]
        rcases step seen i rest reached hitems hseen with
          ⟨result, next, hi, hnext⟩ | ⟨cause, next, hi, hfault⟩
        · rw [hi]
          dsimp only
          rw [perform_bind]
          rcases ih (seen ++ [i]) next (by simpa using hitems) hnext with
            ⟨others, final, hrest, hmotive⟩ |
            ⟨seen', j, rest', cause, final, hsplit, hrest, hfault⟩
          · rw [hrest]
            exact .inl ⟨_, _, rfl, hmotive⟩
          · rw [hrest]
            exact .inr ⟨seen', j, rest', cause, final, hsplit, rfl, hfault⟩
        · rw [hi]
          exact .inr ⟨seen, i, rest, cause, next, hitems, rfl, hfault⟩
  exact general items [] state rfl start

/-- It goes through if every round of it does. -/
theorem exists_collect (items : List ι) (work : ι → Attempt s β)
    (motive : List ι → s → Prop) (start : motive [] state)
    (step : ∀ seen i rest reached, items = seen ++ i :: rest →
      motive seen reached →
      ∃ result next, (work i).perform reached = (.ok result, next) ∧
        motive (seen ++ [i]) next) :
    ∃ results final,
      (collect items work).perform state = (.ok results, final) ∧
        motive items final := by
  refine (collect_cases items work motive (fun _ _ _ _ => False) start
    fun seen i rest reached hitems hseen =>
      .inl (step seen i rest reached hitems hseen)).resolve_right ?_
  rintro ⟨-, -, -, -, -, -, -, hno⟩
  exact hno

/-- Whether a loop goes through or not, some of its elements have been done:
all of them, or those before the one that failed. -/
theorem each_leaves (items : List ι) (work : ι → Attempt s Unit)
    (motive : List ι → s → Prop) (start : motive [] state)
    (step : ∀ seen i rest reached, items = seen ++ i :: rest →
      motive seen reached →
      match (work i).perform reached with
      | (.ok (), next) => motive (seen ++ [i]) next
      | (.error _, next) => motive seen next) :
    ∃ seen rest, items = seen ++ rest ∧
      motive seen ((each items work).perform state).2 := by
  have general : ∀ rest seen reached, items = seen ++ rest →
      motive seen reached → ∃ seen rest', items = seen ++ rest' ∧
        motive seen ((each rest work).perform reached).2 := by
    intro rest
    induction rest with
    | nil =>
        intro seen reached hitems hseen
        exact ⟨seen, [], hitems, hseen⟩
    | cons i rest ih =>
        intro seen reached hitems hseen
        have hi := step seen i rest reached hitems hseen
        rw [each, perform_bind]
        cases hrun : (work i).perform reached with
        | mk answer next =>
            rw [hrun] at hi
            cases answer with
            | error cause => exact ⟨seen, i :: rest, hitems, hi⟩
            | ok done => exact ih (seen ++ [i]) next (by simpa using hitems) hi
  exact general items [] state rfl start

/-- What every round of a loop keeps, whether it goes through or not, the loop
leaves. -/
theorem each_keeps (items : List ι) (work : ι → Attempt s Unit)
    (motive : s → Prop) (start : motive state)
    (step : ∀ i ∈ items, ∀ reached, motive reached →
      motive ((work i).perform reached).2) :
    motive ((each items work).perform state).2 := by
  have hsome : ∃ seen rest, items = seen ++ rest ∧
      motive ((each items work).perform state).2 := by
    refine each_leaves items work (fun _ => motive) start ?_
    intro seen i rest reached hitems hreached
    have hi := step i (by rw [hitems]; simp) reached hreached
    cases hrun : (work i).perform reached with
    | mk answer next =>
        rw [hrun] at hi
        cases answer <;> exact hi
  obtain ⟨_, _, -, h⟩ := hsome
  exact h

/-- The same for a loop that collects results. -/
theorem collect_keeps (items : List ι) (work : ι → Attempt s β)
    (motive : s → Prop) (start : motive state)
    (step : ∀ i ∈ items, ∀ reached, motive reached →
      motive ((work i).perform reached).2) :
    motive ((collect items work).perform state).2 := by
  induction items generalizing state with
  | nil => exact start
  | cons i rest ih =>
      refine bind_leaves motive (step i (by simp) state start) ?_
      intro result reached hreached
      refine bind_leaves motive
        (ih hreached fun j hj => step j (by simp [hj])) ?_
      intro others final hfinal
      exact hfinal

end Loops

/-! ## Work that keeps a property -/

section Safe

variable {ι : Type} {motive : s → Prop}

/-- Whatever becomes of the work, it keeps a property of states. -/
def Safe (motive : s → Prop) (work : Attempt s β) : Prop :=
  ∀ state, motive state → motive (work.perform state).2

theorem Safe.bind {work : Attempt s β} {next : β → Attempt s γ}
    (h : Safe motive work) (hnext : ∀ result, Safe motive (next result)) :
    Safe motive (work >>= next) :=
  fun state hstate => bind_leaves motive (h state hstate) hnext

theorem safe_pure (result : β) : Safe motive (pure result) :=
  fun _ hstate => hstate

theorem safe_throw (cause : Failure) :
    Safe motive (throw cause : Attempt s β) :=
  fun _ hstate => hstate

theorem safe_lift (answer : Except Failure β) : Safe motive (lift answer) := by
  intro state hstate
  rw [perform_lift]
  exact hstate

theorem safe_get : Safe motive (get : Attempt s s) :=
  fun _ hstate => hstate

theorem safe_modify_bind {change : s → s} {next : PUnit → Attempt s γ}
    (h : ∀ state, motive state → motive (change state))
    (hnext : Safe motive (next ⟨⟩)) : Safe motive (modify change >>= next) := by
  intro state hstate
  rw [perform_modify_bind]
  exact hnext _ (h state hstate)

/-- Work that looks at the state first may rely on what it sees. -/
theorem safe_get_bind {next : s → Attempt s γ}
    (h : ∀ state, motive state → motive ((next state).perform state).2) :
    Safe motive (get >>= next) := by
  intro state hstate
  rw [perform_get_bind]
  exact h state hstate

theorem safe_each {items : List ι} {work : ι → Attempt s Unit}
    (h : ∀ i ∈ items, Safe motive (work i)) : Safe motive (each items work) :=
  fun _ hstate => each_keeps items work motive hstate h

theorem safe_collect {items : List ι} {work : ι → Attempt s β}
    (h : ∀ i ∈ items, Safe motive (work i)) :
    Safe motive (collect items work) :=
  fun _ hstate => collect_keeps items work motive hstate h

end Safe

/-! ## Work with one result -/

section Gives

variable {ι : Type}

/-- The work has this result, whatever state it begins in. -/
def Gives (work : Attempt s β) (result : β) : Prop :=
  ∀ state, ∃ final, work.perform state = (.ok result, final)

theorem gives_pure (result : β) : Gives (pure result : Attempt s β) result :=
  fun state => ⟨state, rfl⟩

theorem gives_lift {answer : Except Failure β} {result : β}
    (h : answer = .ok result) : Gives (lift answer : Attempt s β) result :=
  fun state => ⟨state, by rw [perform_lift, h]⟩

theorem gives_tell (lines : List String) : Gives (tell lines) () :=
  fun printed => ⟨printed ++ lines, rfl⟩

theorem Gives.bind {work : Attempt s β} {next : β → Attempt s γ} {middle : β}
    {result : γ} (hwork : work.Gives middle)
    (hnext : (next middle).Gives result) : (work >>= next).Gives result := by
  intro state
  obtain ⟨reached, hmiddle⟩ := hwork state
  obtain ⟨final, hresult⟩ := hnext reached
  exact ⟨final, perform_bind_ok.mpr ⟨middle, reached, hmiddle, hresult⟩⟩

/-- Work with one result has no other. -/
theorem Gives.eq {work : Attempt s β} {result other : β}
    (hwork : work.Gives result) {state final : s}
    (h : work.perform state = (.ok other, final)) : other = result := by
  obtain ⟨reached, hresult⟩ := hwork state
  rw [hresult] at h
  exact (Except.ok.inj (Prod.mk.inj h).1).symm

/-- A loop collects the results of its rounds. -/
theorem gives_collect {items : List ι} {work : ι → Attempt s β} {result : ι → β}
    (h : ∀ i ∈ items, (work i).Gives (result i)) :
    (collect items work).Gives (items.map result) := by
  induction items with
  | nil => exact gives_pure []
  | cons i rest ih =>
      exact (h i (by simp)).bind
        ((ih fun j hj => h j (by simp [hj])).bind (gives_pure _))

end Gives

/-! ## Work from one kind of state to another -/

section Leads

variable {before middle after : s → Prop}

/-- From every state of the first kind the work has this result, and leaves a
state of the second kind. -/
def Leads (before : s → Prop) (work : Attempt s β) (result : β)
    (after : s → Prop) : Prop :=
  ∀ state, before state →
    ∃ final, work.perform state = (.ok result, final) ∧ after final

theorem leads_lift {answer : Except Failure β} {result : β}
    (h : answer = .ok result) :
    Leads before (lift answer : Attempt s β) result before :=
  fun state hstate => ⟨state, by rw [perform_lift, h], hstate⟩

theorem leads_modify {change : s → s}
    (h : ∀ state, before state → after (change state)) :
    Leads before (modify change : Attempt s PUnit) ⟨⟩ after :=
  fun state hstate => ⟨change state, rfl, h state hstate⟩

theorem Leads.bind {work : Attempt s β} {next : β → Attempt s γ} {result : β}
    {last : γ} (hwork : Leads before work result middle)
    (hnext : Leads middle (next result) last after) :
    Leads before (work >>= next) last after := by
  intro state hstate
  obtain ⟨reached, hresult, hreached⟩ := hwork state hstate
  obtain ⟨final, hlast, hfinal⟩ := hnext reached hreached
  exact ⟨final, perform_bind_ok.mpr ⟨result, reached, hresult, hlast⟩, hfinal⟩

/-- Work that looks at the state first. -/
theorem leads_get_bind {next : s → Attempt s γ} {last : γ}
    (h : ∀ state, before state → Leads before (next state) last after) :
    Leads before (get >>= next) last after := by
  intro state hstate
  obtain ⟨final, hlast, hfinal⟩ := h state hstate state hstate
  exact ⟨final, by rw [perform_get_bind, hlast], hfinal⟩

/-- Work that prints, inside work on a state that keeps what is printed. -/
theorem within_leads {work : Telling β} {result : β} (h : work.Gives result)
    {print : List String → s → s}
    (hprint : ∀ lines state, before state → after (print lines state)) :
    Leads before (work.within print) result after := by
  intro state hstate
  obtain ⟨lines, hwork⟩ := h []
  refine ⟨print lines state, ?_, hprint lines state hstate⟩
  change ((work.perform []).1, print (work.perform []).2 state) = _
  rw [hwork]

end Leads

end RatingFactors.Attempt
