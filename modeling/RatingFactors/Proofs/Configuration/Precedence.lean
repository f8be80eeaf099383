import Mathlib.Data.List.Basic
import RatingFactors.Configuration.Cabinet
import RatingFactors.Proofs.Ratings.Datasets

/-!
# Which value a name has

A name has the value that is said of it on the spot; if nothing is, the value of
the last place in the file that assigns one; if no place does, its usual value.
A section assigns what its entries say and nothing to its own name, and a
written null is a value like any other, while a null on the spot says nothing.

The usual values are never changed: whatever a program has loaded before, and
whatever it has done to what it loaded, loading again gives the same.

## Main definitions

* `LastTo` — the last entry that gives a name a value.
* `Assigns`, `Says` — what an entry of a file and one on the spot give.
* `Holds` — the value that a name has, by precedence.
* `Cabinet.Event`, `Cabinet.history` — loads, and changes of what was loaded.

## Main results

* `get?_putAll` — the last of several values counts.
* `get?_merged_iff` — the value of a name in a merged configuration.
* `perform_load` — loading adds a configuration and changes none.
* `load_precedence` — precedence after any history.
-/

namespace RatingFactors

open RatingFactors.Configuration (Value)

namespace Configuration

/-! ## The last entry -/

/-- What the last element that gives anything gives. -/
def lastBy {ι β : Type} (pick : ι → Option β) (items : List ι) : Option β :=
  items.reverse.findSome? pick

section LastBy

variable {ι β : Type} {pick : ι → Option β}

theorem lastBy_cons (i : ι) (rest : List ι) :
    lastBy pick (i :: rest) = (lastBy pick rest).or (pick i) := by
  rw [lastBy, List.reverse_cons, List.findSome?_append,
    List.findSome?_singleton, lastBy]

theorem lastBy_append (items more : List ι) :
    lastBy pick (items ++ more) =
      (lastBy pick more).or (lastBy pick items) := by
  rw [lastBy, List.reverse_append, List.findSome?_append, lastBy, lastBy]

/-- The last of the pieces' last. -/
theorem lastBy_flatMap {κ : Type} (piece : κ → List ι) (items : List κ) :
    lastBy pick (items.flatMap piece) =
      lastBy (fun i => lastBy pick (piece i)) items := by
  induction items with
  | nil => rfl
  | cons i rest ih => rw [List.flatMap_cons, lastBy_append, ih, lastBy_cons]

private theorem lastBy_eq_some_iff {items : List ι} {value : β} :
    lastBy pick items = some value ↔
      ∃ before i after, items = before ++ i :: after ∧ pick i = some value ∧
        ∀ later ∈ after, pick later = none := by
  rw [lastBy, List.findSome?_eq_some_iff]
  constructor
  · rintro ⟨after, i, before, hitems, hvalue, hnone⟩
    refine ⟨before.reverse, i, after.reverse, ?_, hvalue, fun later hlater =>
      hnone later (List.mem_reverse.mp hlater)⟩
    rw [← List.reverse_reverse items, hitems]
    simp
  · rintro ⟨before, i, after, rfl, hvalue, hnone⟩
    exact ⟨after.reverse, i, before.reverse, by simp, hvalue,
      fun later hlater => hnone later (List.mem_reverse.mp hlater)⟩

end LastBy

/-- The last entry that gives the name anything gives it this value. -/
def LastTo (gives : String × Value → String → Value → Prop)
    (entries : List (String × Value)) (name : String) (value : Value) : Prop :=
  ∃ before entry after,
    entries = before ++ entry :: after ∧ gives entry name value ∧
    ∀ later ∈ after, ∀ other, ¬ gives later name other

private theorem lastBy_eq_some_iff_lastTo
    {gives : String × Value → String → Value → Prop} {name : String}
    {pick : String × Value → Option Value}
    (h : ∀ entry value, pick entry = some value ↔ gives entry name value)
    {entries : List (String × Value)} {value : Value} :
    lastBy pick entries = some value ↔ LastTo gives entries name value := by
  simp only [lastBy_eq_some_iff, Option.eq_none_iff_forall_ne_some, ne_eq, h,
    LastTo]

/-! ## What an entry gives -/

/-- An entry gives its value to its name. -/
def Names (entry : String × Value) (name : String) (value : Value) : Prop :=
  entry = (name, value)

/-- An entry of a file: a section gives what the last of its entries with the
name gives, and nothing to its own name; any other entry gives its value, which
may be null, to its name. -/
inductive Assigns : String × Value → String → Value → Prop
  | single {name : String} {value : Value} (h : ∀ inner, value ≠ .table inner) :
      Assigns (name, value) name value
  | inside {title name : String} {inner : List (String × Value)} {value : Value}
      (h : LastTo Names inner name value) :
      Assigns (title, .table inner) name value

/-- What is said on the spot gives its value to its name, unless it is null. -/
def Says (entry : String × Value) (name : String) (value : Value) : Prop :=
  entry = (name, value) ∧ value ≠ .null

/-- The value that an entry gives to a name. -/
def named (name : String) (entry : String × Value) : Option Value :=
  if entry.1 = name then some entry.2 else none

private theorem named_eq_some_iff {name : String} (entry : String × Value)
    (value : Value) :
    named name entry = some value ↔ Names entry name value := by
  obtain ⟨own, given⟩ := entry
  by_cases h : own = name
  · simp [named, Names, h]
  · simp [named, Names, h]

private theorem lastBy_named_iff {entries : List (String × Value)}
    {name : String} {value : Value} :
    lastBy (named name) entries = some value ↔
      LastTo Names entries name value :=
  lastBy_eq_some_iff_lastTo named_eq_some_iff

/-! ### In a file -/

theorem flatten_eq_flatMap (entries : List (String × Value)) :
    flatten entries = entries.flatMap fun entry => flatten [entry] := by
  simp [flatten]

private theorem flatten_section (title : String)
    (inner : List (String × Value)) :
    flatten [(title, .table inner)] = inner := by
  simp [flatten]

private theorem flatten_single {name : String} {value : Value}
    (h : ∀ inner, value ≠ .table inner) :
    flatten [(name, value)] = [(name, value)] := by
  cases value with
  | table inner => exact absurd rfl (h inner)
  | _ => rfl

/-- The value that an entry of a file gives to a name. -/
theorem lastBy_opened_iff {name : String} (entry : String × Value)
    (value : Value) :
    lastBy (named name) (flatten [entry]) = some value ↔
      Assigns entry name value := by
  obtain ⟨own, given⟩ := entry
  by_cases hsection : ∃ inner, given = .table inner
  · obtain ⟨inner, rfl⟩ := hsection
    rw [flatten_section, lastBy_named_iff]
    constructor
    · exact Assigns.inside
    · intro h
      cases h with
      | single h => exact absurd rfl (h inner)
      | inside h => exact h
  · have hsingle : ∀ inner, given ≠ .table inner :=
      fun inner h => hsection ⟨inner, h⟩
    rw [flatten_single hsingle,
      show lastBy (named name) [(own, given)] = named name (own, given) from
        (lastBy_cons _ _).trans Option.none_or, named_eq_some_iff]
    constructor
    · rintro ⟨⟩
      exact .single hsingle
    · intro h
      cases h with
      | single => rfl
      | inside => exact absurd rfl (hsingle _)

private theorem lastBy_flatten_iff {entries : List (String × Value)}
    {name : String} {value : Value} :
    lastBy (named name) (flatten entries) = some value ↔
      LastTo Assigns entries name value := by
  rw [flatten_eq_flatMap, lastBy_flatMap]
  exact lastBy_eq_some_iff_lastTo lastBy_opened_iff

private theorem lastBy_flatten_eq_none_iff {entries : List (String × Value)}
    {name : String} :
    lastBy (named name) (flatten entries) = none ↔
      ∀ value, ¬ LastTo Assigns entries name value := by
  simp only [Option.eq_none_iff_forall_ne_some, ne_eq, lastBy_flatten_iff]

/-! ### On the spot -/

theorem isNull_iff {value : Value} : value.isNull = true ↔ value = .null := by
  cases value <;> simp [Value.isNull]

theorem lastBy_filter {ι β : Type} {pick : ι → Option β} (keep : ι → Bool)
    (items : List ι) :
    lastBy pick (items.filter keep) =
      lastBy (fun i => if keep i then pick i else none) items := by
  induction items with
  | nil => rfl
  | cons i rest ih =>
      rw [lastBy_cons, ← ih, List.filter_cons]
      cases keep i with
      | true => rw [if_pos rfl, if_pos rfl, lastBy_cons]
      | false => simp

private theorem lastBy_said_iff {overrides : List (String × Value)}
    {name : String} {value : Value} :
    lastBy (named name) (said overrides) = some value ↔
      LastTo Says overrides name value := by
  rw [said, lastBy_filter]
  refine lastBy_eq_some_iff_lastTo fun entry value => ?_
  obtain ⟨own, given⟩ := entry
  by_cases hnull : given.isNull = true
  · -- a null says nothing, whatever its name
    simp only [hnull, Bool.not_true, Bool.false_eq_true, if_false, reduceCtorEq,
      false_iff]
    rintro ⟨hentry, hvalue⟩
    exact hvalue ((Prod.mk.inj hentry).2 ▸ isNull_iff.mp hnull)
  · simp only [hnull, Bool.not_false, if_true]
    rw [named_eq_some_iff, Names, Says]
    refine ⟨fun hentry => ⟨hentry, fun hvalue => hnull ?_⟩, And.left⟩
    exact isNull_iff.mpr ((Prod.mk.inj hentry).2.trans hvalue)

private theorem lastBy_said_eq_none_iff {overrides : List (String × Value)}
    {name : String} :
    lastBy (named name) (said overrides) = none ↔
      ∀ value, ¬ LastTo Says overrides name value := by
  simp only [Option.eq_none_iff_forall_ne_some, ne_eq, lastBy_said_iff]

/-! ## The value of a name -/

/-- Of several values given in order the last counts. -/
theorem get?_putAll (c : Configuration) (entries : List (String × Value))
    (name : String) :
    (c.putAll entries).get? name =
      (lastBy (named name) entries).or (c.get? name) := by
  induction entries generalizing c with
  | nil => rfl
  | cons entry rest ih =>
      obtain ⟨own, given⟩ := entry
      rw [show c.putAll ((own, given) :: rest) =
          (c.put own given).putAll rest from rfl,
        ih, lastBy_cons, Option.or_assoc]
      by_cases hname : own = name
      · subst hname
        rw [get?_put_self, named, if_pos rfl, Option.some_or]
      · rw [get?_put_ne (Ne.symm hname), named, if_neg hname, Option.none_or]

/-- The usual values have different names. -/
private theorem nodup_usual : (usual.entries.map (·.1)).Nodup := by
  decide

private theorem get?_usual_iff {name : String} {value : Value} :
    usual.get? name = some value ↔ (name, value) ∈ usual.entries := by
  rw [get?, Option.map_eq_some_iff]
  constructor
  · rintro ⟨⟨own, given⟩, hfound, rfl⟩
    have hname : own = name := by simpa using List.find?_some hfound
    exact hname ▸ List.mem_of_find?_eq_some hfound
  · intro hmem
    obtain ⟨entry, hfound⟩ :
        ∃ entry, usual.entries.find? (·.1 == name) = some entry :=
      Option.isSome_iff_exists.mp (List.find?_isSome.mpr ⟨_, hmem, by simp⟩)
    have hname : entry.1 = name := by simpa using List.find?_some hfound
    have hsame : entry = (name, value) :=
      List.inj_on_of_nodup_map nodup_usual (List.mem_of_find?_eq_some hfound)
        hmem hname
    exact ⟨entry, hfound, by rw [hsame]⟩

/-- The value that a name has: what is said on the spot counts before the file,
and the file before the usual values. -/
inductive Holds (entries overrides : List (String × Value)) (name : String)
    (value : Value) : Prop
  | said (h : LastTo Says overrides name value)
  | written (hsaid : ∀ other, ¬ LastTo Says overrides name other)
      (h : LastTo Assigns entries name value)
  | usual (hsaid : ∀ other, ¬ LastTo Says overrides name other)
      (hwritten : ∀ other, ¬ LastTo Assigns entries name other)
      (h : (name, value) ∈ usual.entries)

/-- A configuration gives every name the value that it has by precedence, and no
value if there is none on the spot, in the file, or among the usual ones. -/
structure Follows (c : Configuration)
    (entries overrides : List (String × Value)) : Prop where
  value : ∀ name value,
    c.get? name = some value ↔ Holds entries overrides name value
  absent : ∀ name, c.get? name = none ↔ ∀ value,
    ¬ LastTo Says overrides name value ∧
    ¬ LastTo Assigns entries name value ∧ (name, value) ∉ usual.entries

theorem get?_merged (entries overrides : List (String × Value))
    (name : String) :
    (merged (flatten entries) overrides).get? name =
      (lastBy (named name) (said overrides)).or
        ((lastBy (named name) (flatten entries)).or (usual.get? name)) := by
  rw [merged, get?_putAll, get?_putAll]

private theorem follows_merged (entries overrides : List (String × Value)) :
    (merged (flatten entries) overrides).Follows entries overrides where
  value := by
    intro name value
    rw [get?_merged, Option.or_eq_some_iff, Option.or_eq_some_iff,
      lastBy_said_iff, lastBy_said_eq_none_iff, lastBy_flatten_iff,
      lastBy_flatten_eq_none_iff, get?_usual_iff]
    constructor
    · rintro (h | ⟨hnot, h | ⟨hnot', h⟩⟩)
      · exact .said h
      · exact .written hnot h
      · exact .usual hnot hnot' h
    · rintro (h | ⟨hnot, h⟩ | ⟨hnot, hnot', h⟩)
      · exact .inl h
      · exact .inr ⟨hnot, .inl h⟩
      · exact .inr ⟨hnot, .inr ⟨hnot', h⟩⟩
  absent := by
    intro name
    rw [get?_merged, Option.or_eq_none_iff, Option.or_eq_none_iff,
      lastBy_said_eq_none_iff, lastBy_flatten_eq_none_iff, forall_and,
      forall_and, Option.eq_none_iff_forall_ne_some]
    simp only [ne_eq, get?_usual_iff]

end Configuration

/-! ## Changes in place -/

namespace Cabinet

open RatingFactors.Configuration

variable {κ : Type}

private theorem modify_modify (cabinet : Cabinet) (number : Nat)
    (f g : Configuration → Configuration) :
    (cabinet.modify number f).modify number g =
      cabinet.modify number fun c => g (f c) := by
  refine Array.ext_getElem? fun i => ?_
  rw [Array.getElem?_modify, Array.getElem?_modify, Array.getElem?_modify]
  split
  · rw [Option.map_map]
    rfl
  · rfl

/-- Changes of one configuration, one after the other. -/
private theorem perform_each_modify {ι : Type} {number : Nat}
    {work : ι → Attempt Cabinet Unit}
    {change : ι → Configuration → Configuration}
    (h : ∀ i (cabinet : Cabinet),
      (work i).perform cabinet = (.ok (), cabinet.modify number (change i)))
    (items : List ι) (cabinet : Cabinet) :
    (Attempt.each items work).perform cabinet =
      (.ok (),
        cabinet.modify number
          fun c => items.foldl (fun c i => change i c) c) := by
  induction items generalizing cabinet with
  | nil =>
      have hsame : cabinet.modify number (fun c => c) = cabinet :=
        Array.ext_getElem? fun i => by simp [Array.getElem?_modify]
      exact congrArg (Except.ok (), ·) hsame.symm
  | cons i rest ih =>
      rw [Attempt.each, Attempt.perform_bind, h]
      dsimp only
      rw [ih, modify_modify]
      rfl

private theorem perform_assignAll (number : Nat)
    (entries : List (String × Value)) (cabinet : Cabinet) :
    (assignAll number entries).perform cabinet =
      (.ok (), cabinet.modify number (·.putAll entries)) :=
  perform_each_modify (fun _ _ => rfl) entries cabinet

/-- An entry of a file changes what it assigns. -/
private theorem perform_enter (number : Nat) (entry : String × Value)
    (cabinet : Cabinet) :
    (enter number entry).perform cabinet =
      (.ok (), cabinet.modify number (·.putAll (flatten [entry]))) := by
  obtain ⟨own, given⟩ := entry
  cases given with
  | table inner =>
      rw [flatten_section]; exact perform_assignAll number inner cabinet
  | _ => rfl

private theorem perform_enter_each (number : Nat)
    (entries : List (String × Value)) (cabinet : Cabinet) :
    (Attempt.each entries (enter number)).perform cabinet =
      (.ok (), cabinet.modify number (·.putAll (flatten entries))) := by
  have hfold : ∀ c : Configuration,
      entries.foldl (fun c entry => c.putAll (flatten [entry])) c =
        c.putAll (flatten entries) := by
    intro c
    rw [flatten_eq_flatMap, putAll, List.foldl_flatMap]
    rfl
  rw [perform_each_modify (perform_enter number)]
  simp only [hfold]

private theorem modify_push (cabinet : Cabinet) (c : Configuration)
    (f : Configuration → Configuration) :
    (cabinet.push c).modify cabinet.size f = cabinet.push (f c) := by
  refine Array.ext_getElem? fun i => ?_
  rw [Array.getElem?_modify, Array.getElem?_push, Array.getElem?_push]
  by_cases h : i = cabinet.size
  · simp [h]
  · rw [if_neg (Ne.symm h), if_neg h, if_neg h]

/-- What is written into a new copy of the usual values. -/
private theorem perform_fill (cabinet : Cabinet)
    (entries overrides : List (String × Value)) :
    (do Attempt.each entries (enter cabinet.size)
        assignAll cabinet.size (said overrides)
        return cabinet.size : Attempt Cabinet Nat).perform
        (cabinet.push usual) =
      (.ok cabinet.size,
        cabinet.push (merged (flatten entries) overrides)) := by
  rw [Attempt.perform_bind, perform_enter_each, modify_push]
  dsimp only
  rw [Attempt.perform_bind, perform_assignAll, modify_push]
  rfl

/-- Loading adds a configuration and changes none.  What it adds depends on the
usual values only, besides the file and what is said on the spot. -/
theorem perform_load {cabinet : Cabinet} (h : cabinet.configuration 0 = usual)
    (files : Files κ) (path : Option String)
    (overrides : List (String × Value)) :
    (load files path overrides).perform cabinet =
      match Configuration.load files path overrides with
      | .ok c => (.ok cabinet.size, cabinet.push c)
      | .error cause => (.error cause, cabinet.push usual) := by
  have hcopy : (copy 0).perform cabinet =
      (.ok cabinet.size, cabinet.push usual) := by
    rw [← h]
    rfl
  unfold Cabinet.load Configuration.load
  rw [Attempt.perform_bind, hcopy]
  dsimp only
  rw [Attempt.perform_bind, Attempt.perform_lift]
  cases path with
  | none => exact perform_fill cabinet [] overrides
  | some path =>
      cases hdocument : document files path with
      | error cause =>
          simp only [hdocument]
          rfl
      | ok entries =>
          simp only [hdocument]
          exact perform_fill cabinet entries overrides

/-! ## Histories -/

/-- What a program does with its configurations: it loads one, or it changes
one, in whatever way. -/
inductive Event (κ : Type)
  | load (files : Files κ) (path : Option String)
    (overrides : List (String × Value))
  | change (number : Nat) (new : Configuration → Configuration)

/-- A program changes what it has loaded; the usual values are not among
that. -/
def Event.IsOwn : Event κ → Prop
  | load .. => True
  | change number _ => number ≠ 0

/-- The cabinet after an event. -/
def Event.happen : Event κ → Cabinet → Cabinet
  | load files path overrides, cabinet =>
      ((Cabinet.load files path overrides).perform cabinet).2
  | change number new, cabinet => cabinet.modify number new

/-- The cabinet after several events. -/
def history (events : List (Event κ)) : Cabinet :=
  events.foldl (fun cabinet event => event.happen cabinet) start

/-- The usual values are where they were put. -/
def Keeps (cabinet : Cabinet) : Prop :=
  cabinet[0]? = some usual

private theorem Keeps.configuration_eq {cabinet : Cabinet} (h : Keeps cabinet) :
    cabinet.configuration 0 = usual := by
  rw [configuration, Array.getD_eq_getD_getElem?, h, Option.getD_some]

theorem Keeps.push {cabinet : Cabinet} (h : Keeps cabinet) (c : Configuration) :
    Keeps (cabinet.push c) := by
  obtain ⟨hsize, -⟩ := Array.getElem?_eq_some_iff.mp h
  rw [Keeps, Array.getElem?_push, if_neg (by omega)]
  exact h

/-- No event changes the usual values. -/
theorem Keeps.happen {cabinet : Cabinet} {event : Event κ} (h : Keeps cabinet)
    (hown : event.IsOwn) : Keeps (event.happen cabinet) := by
  cases event with
  | load files path overrides =>
      rw [Event.happen, perform_load h.configuration_eq]
      cases Configuration.load files path overrides with
      | error cause => exact h.push usual
      | ok c => exact h.push c
  | change number new =>
      rw [Event.happen, Keeps, Array.getElem?_modify, if_neg hown]
      exact h

private theorem keeps_history (events : List (Event κ))
    (hown : ∀ event ∈ events, event.IsOwn) : Keeps (history events) := by
  suffices h : ∀ cabinet : Cabinet, Keeps cabinet →
      Keeps (events.foldl (fun cabinet event => event.happen cabinet) cabinet)
    from h start rfl
  intro cabinet hkeeps
  induction events generalizing cabinet with
  | nil => exact hkeeps
  | cons event rest ih =>
      rw [List.foldl_cons]
      exact ih (fun later hlater => hown later (by simp [hlater])) _
        (hkeeps.happen (hown event (by simp)))

theorem configuration_push {cabinet : Cabinet} {c : Configuration}
    {number : Nat} (h : number < cabinet.size) :
    configuration (cabinet.push c) number = cabinet.configuration number := by
  rw [configuration, configuration, Array.getD_eq_getD_getElem?,
    Array.getD_eq_getD_getElem?, Array.getElem?_push, if_neg (by omega)]

private theorem configuration_push_self {cabinet : Cabinet}
    {c : Configuration} : configuration (cabinet.push c) cabinet.size = c := by
  rw [configuration, Array.getD_eq_getD_getElem?, Array.getElem?_push_size,
    Option.getD_some]

/-- What loading gives with the cabinet at hand. -/
def loaded (cabinet : Cabinet) (files : Files κ) (path : Option String)
    (overrides : List (String × Value)) : Except Failure Configuration :=
  let (answer, later) := (load files path overrides).perform cabinet
  answer.map later.configuration

private theorem Keeps.loaded_eq {cabinet : Cabinet} (h : Keeps cabinet)
    (files : Files κ) (path : Option String)
    (overrides : List (String × Value)) :
    loaded cabinet files path overrides =
      Configuration.load files path overrides := by
  rw [loaded, perform_load h.configuration_eq]
  cases Configuration.load files path overrides with
  | error cause => rfl
  | ok c => exact congrArg Except.ok configuration_push_self

/-- The path leads to a text that writes these entries; without a path there are
none. -/
def Provides (files : Files κ) (path : Option String)
    (entries : List (String × Value)) : Prop :=
  match path with
  | none => entries = []
  | some path => files.exists? (Path.tidy path) = true ∧ ∃ text,
      files.readText (Path.tidy path) = .ok text ∧
      readText text = .ok (.table entries)

private theorem load_of_provides {files : Files κ} {path : Option String}
    {entries : List (String × Value)} (h : Provides files path entries)
    (overrides : List (String × Value)) :
    Configuration.load files path overrides =
      .ok (merged (flatten entries) overrides) := by
  cases path with
  | none =>
      obtain rfl : entries = [] := h
      rfl
  | some path =>
      obtain ⟨hexists, text, htext, hread⟩ := h
      simp [Configuration.load, document, hexists, htext, hread, topLevel, bind,
        Except.bind, pure, Except.pure]

/-- A value without parts that could be changed on their own. -/
def IsSimple (value : Value) : Prop :=
  (∀ items, value ≠ .list items) ∧ ∀ entries, value ≠ .table entries

private theorem isSimple_usual {name : String} {value : Value}
    (h : (name, value) ∈ usual.entries) : IsSimple value := by
  have hall : ∀ entry ∈ usual.entries, IsSimple entry.2 := by
    simp [usual, IsSimple]
  exact hall _ h

/-- After any loads, and any changes of what was loaded, loading makes a new
configuration in which precedence gives every name its value: on the spot, in
the file, as usual. Loading changes no configuration that is there, least of all
the usual values, which have no parts that a copy would share, and gives what it
would have given at first. -/
theorem load_precedence (events : List (Event κ))
    (hown : ∀ event ∈ events, event.IsOwn) :
    (∀ entries overrides,
      (merged (flatten entries) overrides).Follows entries overrides) ∧
      (history events).configuration 0 = usual ∧
      (∀ name value, (name, value) ∈ usual.entries → IsSimple value) ∧
      ∀ (files : Files κ) (path : Option String)
        (overrides : List (String × Value)),
        loaded (history events) files path overrides =
          loaded start files path overrides ∧
        ∀ entries, Provides files path entries → ∃ number later,
          (load files path overrides).perform (history events) =
            (.ok number, later) ∧
          (later.configuration number).Follows entries overrides ∧
          number ≠ 0 ∧ later.configuration 0 = usual ∧
          ∀ earlier < (history events).size, number ≠ earlier ∧
            later.configuration earlier =
              (history events).configuration earlier := by
  have hkeeps := keeps_history events hown
  have hstart : Keeps start := rfl
  refine ⟨follows_merged, hkeeps.configuration_eq,
    fun name value => isSimple_usual,
    fun files path overrides => ⟨?_, fun entries hprovides => ?_⟩⟩
  · rw [hkeeps.loaded_eq, hstart.loaded_eq]
  · have hsize : 0 < (history events).size :=
      (Array.getElem?_eq_some_iff.mp hkeeps).1
    refine ⟨(history events).size,
      (history events).push (merged (flatten entries) overrides), ?_, ?_,
      by omega, (hkeeps.push _).configuration_eq, fun earlier hearlier =>
        ⟨by omega, configuration_push hearlier⟩⟩
    · rw [perform_load hkeeps.configuration_eq, load_of_provides hprovides]
    · rw [configuration_push_self]
      exact follows_merged entries overrides

/-- A section that has the name of a setting, and a setting that is given a
value in it and taken back after it. -/
def sampleText : String :=
  "seed:\n  latent_dim: 5\n  gamma: 7\nlatent_dim: ~\n"

/-- What the sample writes. -/
def sampleEntries : List (String × Value) :=
  ((readText sampleText).bind topLevel).toOption.getD []

private theorem readText_sample :
    readText sampleText = .ok (.table sampleEntries) := by
  have hlength : sampleEntries.length = 2 := by decide +kernel
  unfold sampleEntries at hlength ⊢
  cases hread : readText sampleText with
  | error cause =>
      rw [hread] at hlength
      cases hlength
  | ok value =>
      cases value with
      | table entries => rfl
      | _ =>
          -- what is no table has no entries
          rw [hread] at hlength
          simp only [Except.bind, topLevel] at hlength
          split at hlength <;> cases hlength

/-- After a first load and a change of what it gave, the sample is loaded with a
null and an engine on the spot: the null in the file counts, the one on the spot
does not, and the section gives nothing to the setting whose name it has. -/
theorem load_precedence_sample :
    let files : Files Unit := Files.none.writeText "c.yaml" sampleText
    let events : List (Event Unit) :=
      [.load files (some "c.yaml") [],
        .change 1 fun c => c.put "latent_dim" (.whole 9)]
    let overrides := [("gamma", Value.null), ("engine", .text "asynchronous")]
    (∀ event ∈ events, event.IsOwn) ∧
      Provides files (some "c.yaml") sampleEntries ∧
      ∃ number later,
        (load files (some "c.yaml") overrides).perform (history events) =
          (.ok number, later) ∧
        (∃ value, (later.configuration number).get? "latent_dim" = some value ∧
          value.isNull = true) ∧
        (∃ value, (later.configuration number).get? "gamma" = some value ∧
          value.toWhole.toOption = some 7) ∧
        (later.configuration number).get? "engine" =
          some (.text "asynchronous") ∧
        (later.configuration number).get? "seed" = some .null ∧
        (later.configuration number).get? "model" = none := by
  intro files events overrides
  have hown : ∀ event ∈ events, event.IsOwn := by
    simp [events, Event.IsOwn]
  have hprovides : Provides files (some "c.yaml") sampleEntries := by
    have hpath : Path.tidy "c.yaml" = "c.yaml" := by decide +kernel
    have htext : files.readText "c.yaml" = .ok sampleText :=
      Files.readText_writeText (by decide +kernel) sampleText
    refine ⟨?_, sampleText, ?_, readText_sample⟩
    · rw [hpath]
      decide +kernel
    · rw [hpath]
      exact htext
  obtain ⟨-, -, -, hload⟩ := load_precedence events hown
  obtain ⟨number, later, hlater, hfollows, -⟩ :=
    (hload files (some "c.yaml") overrides).2 sampleEntries hprovides
  have hsilent :
      ∀ name, name ≠ "engine" → ∀ value, ¬ LastTo Says overrides name value :=
    fun name hname => lastBy_said_eq_none_iff.mp
      (by simp [overrides, said, Value.isNull, lastBy, named, hname.symm])
  -- what the file gives to a name, looked up in the entries that were read
  have hwritten : ∀ name, name ≠ "engine" → ∀ value,
      lastBy (named name) (flatten sampleEntries) = some value →
      (later.configuration number).get? name = some value :=
    fun name hname value hvalue => (hfollows.value _ _).mpr
      (.written (hsilent name hname) (lastBy_flatten_iff.mp hvalue))
  have hunwritten : ∀ name, lastBy (named name) (flatten sampleEntries) = none →
      ∀ value, ¬ LastTo Assigns sampleEntries name value :=
    fun name => lastBy_flatten_eq_none_iff.mp
  obtain ⟨dimension, hdimension, hnull⟩ := Option.map_eq_some_iff.mp
    (show (lastBy (named "latent_dim") (flatten sampleEntries)).map (·.isNull) =
      some true by decide +kernel)
  obtain ⟨rate, hrate, hseven⟩ := Option.map_eq_some_iff.mp
    (show (lastBy (named "gamma") (flatten sampleEntries)).map
      (·.toWhole.toOption) = some (some 7) by decide +kernel)
  refine ⟨hown, hprovides, number, later, hlater,
    ⟨dimension, hwritten _ (by decide) _ hdimension, hnull⟩,
    ⟨rate, hwritten _ (by decide) _ hrate, hseven⟩, ?_, ?_, ?_⟩
  · exact (hfollows.value _ _).mpr (.said (lastBy_said_iff.mp
      (by simp [overrides, said, Value.isNull, lastBy, named])))
  · refine (hfollows.value _ _).mpr
      (.usual (hsilent _ (by decide)) (hunwritten _ ?_) (by simp [usual]))
    exact Option.isNone_iff_eq_none.mp (by decide +kernel)
  · refine (hfollows.absent _).mpr fun value =>
      ⟨hsilent _ (by decide) value, hunwritten _ ?_ value, by simp [usual]⟩
    exact Option.isNone_iff_eq_none.mp (by decide +kernel)

end Cabinet

end RatingFactors
