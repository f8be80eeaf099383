import RatingFactors.Engine.Basic
import RatingFactors.Proofs.Attempt
import RatingFactors.Proofs.Step

/-!
# What signals do to an engine

A signal touches the inbox of its target and, in asynchronous mode, the end of
the queue; nothing else.  A batch of signals that all went through is therefore
a list of *posts* — a place and what it was sent — and the engine after it is
`Engine.postAll`.  This module reads the two views of that engine which later
proofs need: the inbox of each vertex is the old one with the vertex's own
posts put in, and the queue stays in step with the inboxes.

## Main results

* `perform_signal` — a signal is refused and changes nothing, or it is a post.
* `signal_ok` — a signal that goes through is a post to the resolved place.
* `inbox_postAll` — the inbox of a vertex after a batch of posts.
* `Orderly` — the scheduler invariant: no vertex waits twice, and exactly the
  active vertices wait; `Orderly.postAll` and `Orderly.taken` keep it.
-/

namespace RatingFactors

namespace Engine

variable {α σ ω : Type} [Scalar α]

/-- A signal that was delivered: the place it went to and what it carried. -/
abbrev Post (α : Type) := Nat × Option (Step α)

/-- The engine after one post. -/
def posted (e : Engine α σ ω) (post : Post α) : Engine α σ ω :=
  { e with
    inboxes := e.inboxes.setIfInBounds post.1 ((e.inbox post.1).put post.2)
    queue :=
      if e.mode == .asynchronous && !(e.inbox post.1).isActive then
        e.queue ++ [post.1] else e.queue }

/-- The engine after a batch of posts. -/
def postAll (e : Engine α σ ω) (posts : List (Post α)) : Engine α σ ω :=
  posts.foldl posted e

/-- What a batch of posts holds for one place, in order. -/
def postsTo (place : Nat) (posts : List (Post α)) : List (Option (Step α)) :=
  posts.filterMap fun post => if post.1 = place then some post.2 else none

omit [Scalar α] in
@[simp] theorem postsTo_nil (place : Nat) :
    postsTo place ([] : List (Post α)) = [] := rfl

omit [Scalar α] in
@[simp] theorem postsTo_append (place : Nat) (first second : List (Post α)) :
    postsTo place (first ++ second) =
      postsTo place first ++ postsTo place second :=
  List.filterMap_append

omit [Scalar α] in
theorem postsTo_cons_self {place : Nat} {post : Post α} (h : post.1 = place)
    (rest : List (Post α)) :
    postsTo place (post :: rest) = post.2 :: postsTo place rest := by
  rw [postsTo, List.filterMap_cons, if_pos h]
  rfl

omit [Scalar α] in
theorem postsTo_cons_ne {place : Nat} {post : Post α} (h : post.1 ≠ place)
    (rest : List (Post α)) :
    postsTo place (post :: rest) = postsTo place rest := by
  rw [postsTo, List.filterMap_cons, if_neg h]
  rfl

omit [Scalar α] in
/-- A place is among the targets of a batch exactly if something was posted
to it. -/
theorem postsTo_eq_nil_iff {place : Nat} {posts : List (Post α)} :
    postsTo place posts = [] ↔ place ∉ posts.map Prod.fst := by
  rw [postsTo, List.filterMap_eq_nil_iff, List.mem_map]
  constructor
  · rintro h ⟨post, hpost, rfl⟩
    simpa using h post hpost
  · intro h post hpost
    have hne : post.1 ≠ place := fun heq => h ⟨post, hpost, heq⟩
    simp [hne]

/-! ## What a post leaves alone -/

section Frame

variable (e : Engine α σ ω) (post : Post α) (posts : List (Post α))

theorem postAll_append (first second : List (Post α)) :
    e.postAll (first ++ second) = (e.postAll first).postAll second :=
  List.foldl_append

/-- Whatever a single post leaves alone, a batch leaves alone. -/
theorem postAll_frame {κ : Type} (field : Engine α σ ω → κ)
    (h : ∀ e post, field (posted e post) = field e) :
    field (e.postAll posts) = field e := by
  induction posts generalizing e with
  | nil => rfl
  | cons post rest ih => exact (ih (e.posted post)).trans (h e post)

/-- Posts reach inboxes and the queue, and nothing else. -/
theorem postAll_eq :
    e.postAll posts = { e with
      inboxes := (e.postAll posts).inboxes,
      queue := (e.postAll posts).queue } := by
  induction posts generalizing e with
  | nil => rfl
  | cons post rest ih =>
      rw [show e.postAll (post :: rest) = (e.posted post).postAll rest from rfl]
      exact ih (e.posted post)

@[simp] theorem mode_postAll : (e.postAll posts).mode = e.mode :=
  postAll_frame e posts Engine.mode fun _ _ => rfl

@[simp] theorem graph_postAll : (e.postAll posts).graph = e.graph :=
  postAll_frame e posts Engine.graph fun _ _ => rfl

@[simp] theorem vertices_postAll : (e.postAll posts).vertices = e.vertices :=
  postAll_frame e posts Engine.vertices fun _ _ => rfl

@[simp] theorem settings_postAll : (e.postAll posts).settings = e.settings :=
  postAll_frame e posts Engine.settings fun _ _ => rfl

@[simp] theorem slots_postAll : (e.postAll posts).slots = e.slots :=
  postAll_frame e posts Engine.slots fun _ _ => rfl

@[simp] theorem iteration_postAll :
    (e.postAll posts).iteration = e.iteration :=
  postAll_frame e posts Engine.iteration fun _ _ => rfl

@[simp] theorem updates_postAll : (e.postAll posts).updates = e.updates :=
  postAll_frame e posts Engine.updates fun _ _ => rfl

@[simp] theorem scene_postAll : (e.postAll posts).scene = e.scene :=
  postAll_frame e posts Engine.scene fun _ _ => rfl

@[simp] theorem inboxes_size_postAll :
    (e.postAll posts).inboxes.size = e.inboxes.size :=
  postAll_frame e posts (fun e => e.inboxes.size) fun _ _ =>
    Array.size_setIfInBounds

end Frame

/-! ## Inboxes -/

omit [Scalar α] in
/-- An inbox outside the engine is idle. -/
theorem inbox_of_size_le {e : Engine α σ ω} {place : Nat}
    (h : e.inboxes.size ≤ place) : e.inbox place = .idle := by
  simp [inbox, Array.getD, Nat.not_lt.mpr h]

omit [Scalar α] in
/-- Nothing waits for anybody when all inboxes have been emptied. -/
theorem inbox_of_replicate {e : Engine α σ ω} {n : Nat}
    (h : e.inboxes = Array.replicate n .idle) (place : Nat) :
    e.inbox place = .idle := by
  rw [inbox, h, Array.getD_eq_getD_getElem?, Array.getElem?_replicate]
  split <;> rfl

omit [Scalar α] in
/-- Replacing one inbox changes what waits for that vertex only. -/
theorem inbox_setIfInBounds {e e' : Engine α σ ω} {place : Nat}
    {filled : Inbox α} (hplace : place < e.inboxes.size)
    (he : e'.inboxes = e.inboxes.setIfInBounds place filled) (w : Nat) :
    e'.inbox w = if w = place then filled else e.inbox w := by
  simp only [inbox, he, Array.getD_eq_getD_getElem?]
  rw [Array.getElem?_setIfInBounds]
  by_cases hw : place = w
  · subst hw
    simp [hplace]
  · rw [if_neg hw, if_neg (Ne.symm hw)]

theorem inbox_posted {e : Engine α σ ω} {post : Post α}
    (h : post.1 < e.inboxes.size) (w : Nat) :
    (e.posted post).inbox w =
      if w = post.1 then (e.inbox post.1).put post.2 else e.inbox w :=
  inbox_setIfInBounds h rfl w

/-- After a batch of posts a vertex holds what it held before, with its own
posts put in one after the other. -/
theorem inbox_postAll {e : Engine α σ ω} {posts : List (Post α)}
    (h : ∀ post ∈ posts, post.1 < e.inboxes.size) (w : Nat) :
    (e.postAll posts).inbox w =
      (postsTo w posts).foldl Inbox.put (e.inbox w) := by
  induction posts generalizing e with
  | nil => rfl
  | cons post rest ih =>
      have hpost : post.1 < e.inboxes.size := h post (by simp)
      have hsize : (e.posted post).inboxes.size = e.inboxes.size :=
        Array.size_setIfInBounds
      have hrest : ∀ other ∈ rest, other.1 < (e.posted post).inboxes.size := by
        intro other hother
        rw [hsize]
        exact h other (by simp [hother])
      have hstep : (e.postAll (post :: rest)).inbox w =
          (postsTo w rest).foldl Inbox.put ((e.posted post).inbox w) :=
        ih hrest
      rw [hstep, inbox_posted hpost]
      by_cases hw : w = post.1
      · rw [if_pos hw, postsTo_cons_self hw.symm, List.foldl_cons, hw]
      · rw [if_neg hw, postsTo_cons_ne (Ne.symm hw)]

theorem isActive_inbox_postAll {e : Engine α σ ω} {posts : List (Post α)}
    (h : ∀ post ∈ posts, post.1 < e.inboxes.size) (w : Nat) :
    ((e.postAll posts).inbox w).isActive = true ↔
      (e.inbox w).isActive = true ∨ w ∈ posts.map Prod.fst := by
  rw [inbox_postAll h, Inbox.isActive_foldl_put, Bool.or_eq_true]
  apply or_congr_right
  rw [Bool.not_eq_true', ← Bool.not_eq_true, List.isEmpty_iff,
    postsTo_eq_nil_iff, Classical.not_not]

omit [Scalar α] in
theorem mem_active {e : Engine α σ ω} {place : Nat} :
    place ∈ e.active ↔ (e.inbox place).isActive = true := by
  rw [active, List.mem_filter, List.mem_range]
  constructor
  · exact And.right
  · intro h
    refine ⟨?_, h⟩
    apply Nat.lt_of_not_le
    intro hle
    simp [inbox_of_size_le hle, Inbox.isActive] at h

omit [Scalar α] in
theorem lt_of_mem_active {e : Engine α σ ω} {place : Nat}
    (h : place ∈ e.active) : place < e.inboxes.size :=
  List.mem_range.mp (List.mem_filter.mp h).1

omit [Scalar α] in
theorem nodup_active (e : Engine α σ ω) : e.active.Nodup :=
  List.nodup_range.filter _

/-! ## The queue -/

/-- The bookkeeping of the scheduler: in asynchronous mode no vertex stands in
the queue twice and exactly the active ones stand in it; in synchronous mode
nobody does. -/
structure Orderly (e : Engine α σ ω) : Prop where
  nodup : e.queue.Nodup
  mem_queue : e.mode = .asynchronous →
    ∀ place, place ∈ e.queue ↔ (e.inbox place).isActive = true
  silent : e.mode = .synchronous → e.queue = []

/-- A post puts an idle vertex at the end of the queue and leaves an active one
where it is. -/
theorem Orderly.posted {e : Engine α σ ω} {post : Post α} (he : e.Orderly)
    (h : post.1 < e.inboxes.size) : (e.posted post).Orderly := by
  cases hmode : e.mode with
  | synchronous =>
      have hqueue : (e.posted post).queue = e.queue := by
        simp [Engine.posted, hmode]
      refine ⟨hqueue ▸ he.nodup, ?_, fun _ => hqueue ▸ he.silent hmode⟩
      intro hasync
      rw [show (e.posted post).mode = e.mode from rfl, hmode] at hasync
      cases hasync
  | asynchronous =>
      have hsilent : (e.posted post).mode = .synchronous →
          (e.posted post).queue = [] := by
        intro hsync
        rw [show (e.posted post).mode = e.mode from rfl, hmode] at hsync
        cases hsync
      have hmem := he.mem_queue hmode
      cases hact : (e.inbox post.1).isActive with
      | true =>
          have hqueue : (e.posted post).queue = e.queue := by
            simp [Engine.posted, hact]
          refine ⟨hqueue ▸ he.nodup, ?_, hsilent⟩
          intro _ place
          rw [hqueue, inbox_posted h, hmem place]
          by_cases hp : place = post.1
          · simp [hp, hact]
          · rw [if_neg hp]
      | false =>
          have hqueue : (e.posted post).queue = e.queue ++ [post.1] := by
            simp [Engine.posted, hact, hmode]
          have hnew : post.1 ∉ e.queue := by
            rw [hmem, hact]
            simp
          refine ⟨?_, ?_, hsilent⟩
          · rw [hqueue, List.nodup_append]
            refine ⟨he.nodup, by simp, ?_⟩
            intro a ha b hb heq
            rw [List.mem_singleton.mp hb] at heq
            exact hnew (heq ▸ ha)
          · intro _ place
            rw [hqueue, inbox_posted h, List.mem_append, List.mem_singleton,
              hmem place]
            by_cases hp : place = post.1
            · simp [hp]
            · simp [hp]

theorem Orderly.postAll {e : Engine α σ ω} {posts : List (Post α)}
    (he : e.Orderly) (h : ∀ post ∈ posts, post.1 < e.inboxes.size) :
    (e.postAll posts).Orderly := by
  induction posts generalizing e with
  | nil => exact he
  | cons post rest ih =>
      apply ih (he.posted (h post (by simp)))
      intro other hother
      rw [show (e.posted post).inboxes.size = e.inboxes.size from
        Array.size_setIfInBounds]
      exact h other (by simp [hother])

/-- A batch of posts puts new vertices at the end of the queue and moves
nobody. -/
theorem queue_postAll (e : Engine α σ ω) (posts : List (Post α)) :
    ∃ fresh, (e.postAll posts).queue = e.queue ++ fresh := by
  induction posts generalizing e with
  | nil => exact ⟨[], (List.append_nil _).symm⟩
  | cons post rest ih =>
      obtain ⟨fresh, hfresh⟩ := ih (e.posted post)
      have hrest : (e.postAll (post :: rest)).queue =
          (e.posted post).queue ++ fresh := hfresh
      by_cases hgrows : (e.mode == .asynchronous &&
          !(e.inbox post.1).isActive) = true
      · refine ⟨post.1 :: fresh, ?_⟩
        rw [hrest, posted]
        dsimp only
        rw [if_pos hgrows, List.append_assoc, List.singleton_append]
      · refine ⟨fresh, ?_⟩
        rw [hrest, posted]
        dsimp only
        rw [if_neg hgrows]

/-- In synchronous mode nobody is put into the queue. -/
theorem queue_postAll_of_synchronous {e : Engine α σ ω}
    (hmode : e.mode = .synchronous) (posts : List (Post α)) :
    (e.postAll posts).queue = e.queue := by
  induction posts generalizing e with
  | nil => rfl
  | cons post rest ih =>
      have hposted : (e.posted post).queue = e.queue := by
        simp [posted, hmode]
      exact (@ih (e.posted post) hmode).trans hposted

/-- In asynchronous mode the vertices that were idle and have been posted to
are put there, once each. -/
theorem Orderly.queue_postAll {e : Engine α σ ω} (he : e.Orderly)
    (hmode : e.mode = .asynchronous) {posts : List (Post α)}
    (h : ∀ post ∈ posts, post.1 < e.inboxes.size) :
    ∃ fresh, (e.postAll posts).queue = e.queue ++ fresh ∧ fresh.Nodup ∧
      ∀ w, w ∈ fresh ↔
        ¬ (e.inbox w).isActive = true ∧ w ∈ posts.map Prod.fst := by
  obtain ⟨fresh, hfresh⟩ := Engine.queue_postAll e posts
  have hlater := he.postAll h
  have hnodup := hlater.nodup
  rw [hfresh, List.nodup_append] at hnodup
  refine ⟨fresh, hfresh, hnodup.2.1, fun w => ?_⟩
  have hmem := hlater.mem_queue (e.mode_postAll posts ▸ hmode) w
  rw [hfresh, List.mem_append, he.mem_queue hmode w,
    isActive_inbox_postAll h] at hmem
  constructor
  · intro hw
    have hidle : ¬ (e.inbox w).isActive = true := fun hactive =>
      hnodup.2.2 w ((he.mem_queue hmode w).mpr hactive) w hw rfl
    exact ⟨hidle, (hmem.mp (.inr hw)).resolve_left hidle⟩
  · rintro ⟨hidle, hposted⟩
    exact (hmem.mpr (.inr hposted)).resolve_left hidle

omit [Scalar α] in
/-- Where in the graph and on the clock an engine is does not matter to its
books, nor in which order its queue is. -/
theorem Orderly.frame {e e' : Engine α σ ω} (h : e.Orderly)
    (hmode : e'.mode = e.mode) (hinboxes : e'.inboxes = e.inboxes)
    (hqueue : e'.queue.Perm e.queue) : e'.Orderly where
  nodup := hqueue.nodup_iff.mpr h.nodup
  mem_queue := by
    intro hasync v
    rw [hqueue.mem_iff, inbox, hinboxes]
    exact h.mem_queue (hmode ▸ hasync) v
  silent := by
    intro hsync
    rw [h.silent (hmode ▸ hsync)] at hqueue
    exact hqueue.eq_nil

omit [Scalar α] in
/-- Who stands in the queue has an inbox. -/
theorem Orderly.lt_of_mem_queue {e : Engine α σ ω} (h : e.Orderly)
    (hmode : e.mode = .asynchronous) {v : Nat} (hv : v ∈ e.queue) :
    v < e.inboxes.size :=
  lt_of_mem_active (mem_active.mpr ((h.mem_queue hmode v).mp hv))

/-! ## Emptied inboxes -/

/-- The engine with all inboxes emptied, as a round begins. -/
abbrev emptied (e : Engine α σ ω) : Engine α σ ω :=
  { e with inboxes := Array.replicate e.inboxes.size .idle }

/-- The engine with one inbox emptied and another queue, as an activation
begins. -/
abbrev taken (e : Engine α σ ω) (place : Nat) (rest : List Nat) :
    Engine α σ ω :=
  { e with
    queue := rest
    inboxes := e.inboxes.setIfInBounds place .idle }

omit [Scalar α] in
theorem inbox_emptied (e : Engine α σ ω) (w : Nat) :
    e.emptied.inbox w = .idle :=
  inbox_of_replicate rfl w

omit [Scalar α] in
theorem inbox_taken {e : Engine α σ ω} {place : Nat} {rest : List Nat}
    (hplace : place < e.inboxes.size) (w : Nat) :
    (e.taken place rest).inbox w = if w = place then .idle else e.inbox w :=
  inbox_setIfInBounds hplace rfl w

omit [Scalar α] in
/-- In synchronous mode inboxes may be emptied. -/
theorem Orderly.emptied {e : Engine α σ ω} (h : e.Orderly)
    (hmode : e.mode = .synchronous) : e.emptied.Orderly where
  nodup := h.nodup
  mem_queue := by
    intro hasync
    rw [show e.mode = .asynchronous from hasync] at hmode
    cases hmode
  silent := h.silent

omit [Scalar α] in
/-- Taking the head of the queue and emptying its inbox keeps the books in
order. -/
theorem Orderly.taken {e : Engine α σ ω} (he : e.Orderly)
    (hmode : e.mode = .asynchronous) {v : Nat} {rest : List Nat}
    (hqueue : e.queue = v :: rest) : (e.taken v rest).Orderly := by
  have hv : v < e.inboxes.size :=
    he.lt_of_mem_queue hmode (hqueue ▸ List.mem_cons_self)
  have hnodup := he.nodup
  rw [hqueue, List.nodup_cons] at hnodup
  refine ⟨hnodup.2, ?_, ?_⟩
  · intro _ w
    rw [inbox_taken hv]
    have hmem := he.mem_queue hmode w
    rw [hqueue, List.mem_cons] at hmem
    by_cases hw : w = v
    · subst hw
      simp [Inbox.isActive, hnodup.1]
    · rw [if_neg hw, ← hmem]
      simp [hw]
  · intro hsync
    rw [show e.mode = .synchronous from hsync] at hmode
    cases hmode

/-! ## Engines at rest -/

section Make

variable {mode : Mode} {g : Graph α} {vertices : Array (Vertex α)}
  {settings : Settings α} {fresh : σ} {pace : Nat → α}

/-- Everybody's inbox is idle in an engine at rest. -/
theorem inbox_make (v : Nat) :
    (make mode g vertices settings fresh pace : Engine α σ ω).inbox v =
      .idle :=
  inbox_of_replicate rfl v

theorem orderly_make :
    (make mode g vertices settings fresh pace : Engine α σ ω).Orderly where
  nodup := List.nodup_nil
  mem_queue := by
    intro _ v
    rw [inbox_make]
    simp [make, Inbox.isActive]
  silent := fun _ => rfl

end Make

/-! ## Signals -/

omit [Scalar α] in
theorem resolve_place_ok {e : Engine α σ ω} {spot place : Nat}
    (h : e.resolve (.place spot) = .ok place) :
    place = spot ∧ spot < e.graph.size := by
  simp only [resolve] at h
  split at h
  · rename_i hlt
    exact ⟨(Except.ok.inj h).symm, hlt⟩
  · cases h

omit [Scalar α] in
theorem resolve_lt {e : Engine α σ ω} {target : Address} {place : Nat}
    (h : e.resolve target = .ok place) : place < e.graph.size := by
  cases target with
  | place spot =>
      obtain ⟨rfl, hlt⟩ := resolve_place_ok h
      exact hlt
  | id id =>
      simp only [resolve, Graph.placeOf] at h
      split at h
      · rename_i found hfound
        obtain ⟨_, hget, _⟩ := getElem?_of_searchBetween hfound
        rw [← Except.ok.inj h]
        exact (Array.getElem?_eq_some_iff.mp hget).1
      · cases h

/-- A signal in terms of posts: it changes nothing if nobody has its address or
the inbox there cannot take its message, and otherwise it is a post. -/
theorem perform_signal (e : Engine α σ ω) (target : Address)
    (message : Option (Step α)) :
    (signal target message).perform e =
      match e.resolve target with
      | .error cause => (.error cause, e)
      | .ok place =>
        match (e.inbox place).receive message with
        | .error cause => (.error cause, e)
        | .ok _ => (.ok (), e.posted (place, message)) := by
  rw [signal, Attempt.perform_get_bind, Attempt.perform_bind,
    Attempt.perform_lift]
  cases e.resolve target with
  | error cause => rfl
  | ok place =>
      dsimp only
      rw [Attempt.perform_bind, Attempt.perform_lift]
      cases hfilled : (e.inbox place).receive message with
      | error cause => rfl
      | ok filled =>
          rw [Inbox.eq_put_of_receive hfilled]
          rfl

/-- A signal that goes through is a post to the place its address means. -/
theorem signal_ok {e e' : Engine α σ ω} {target : Address}
    {message : Option (Step α)} :
    (signal target message).perform e = (.ok (), e') ↔
      ∃ place filled, e.resolve target = .ok place ∧
        (e.inbox place).receive message = .ok filled ∧
        e' = e.posted (place, message) := by
  rw [perform_signal]
  cases e.resolve target with
  | error cause => simp
  | ok place =>
      dsimp only
      cases hfilled : (e.inbox place).receive message with
      | error cause => simp [hfilled]
      | ok filled => simp [hfilled, eq_comm]

/-- A signal fails and changes nothing, or it is a post to some vertex. -/
theorem signal_cases (e : Engine α σ ω) (target : Address)
    (message : Option (Step α)) :
    (∃ cause, (signal target message).perform e = (.error cause, e)) ∨
      ∃ place < e.graph.size, (signal target message).perform e =
        (.ok (), e.posted (place, message)) := by
  rw [perform_signal]
  cases hplace : e.resolve target with
  | error cause => exact .inl ⟨cause, rfl⟩
  | ok place =>
      dsimp only
      cases (e.inbox place).receive message with
      | error cause => exact .inl ⟨cause, rfl⟩
      | ok filled => exact .inr ⟨place, resolve_lt hplace, rfl⟩

/-- A signal is refused: nobody has this address, or a message waits already and
this one has another length. -/
def Refuses (e : Engine α σ ω) (target : Address) (message : Option (Step α)) :
    Prop :=
  match e.resolve target with
  | .error _ => True
  | .ok place =>
    ∃ waiting ∈ (e.inbox place).message?, ∃ step ∈ message,
      waiting.isEmpty = false ∧ step.isEmpty = false ∧
        waiting.delta.length ≠ step.delta.length

/-- A refused signal fails and changes nothing; every other signal goes
through. -/
theorem signal_refused (e : Engine α σ ω) (target : Address)
    (message : Option (Step α)) :
    (e.Refuses target message ∧
        ∃ cause, (signal target message).perform e = (.error cause, e)) ∨
      (¬ e.Refuses target message ∧
        ∃ e', (signal target message).perform e = (.ok (), e')) := by
  rw [perform_signal, Refuses]
  cases e.resolve target with
  | error cause => exact .inl ⟨trivial, cause, rfl⟩
  | ok place =>
      dsimp only
      rw [← Inbox.receive_error_iff]
      cases (e.inbox place).receive message with
      | error cause => exact .inl ⟨⟨cause, rfl⟩, cause, rfl⟩
      | ok filled =>
          refine .inr ⟨?_, _, rfl⟩
          rintro ⟨_, hfails⟩
          cases hfails

end Engine

end RatingFactors
