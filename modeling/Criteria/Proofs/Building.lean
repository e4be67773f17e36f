import Criteria.Proofs.Description
import Criteria.Proofs.Methods

/-!
# Runs of a builder

A caller drives a builder by a sequence of steps (`Builder.Step`): connectives, additions
of every kind, sub-groups that are composed by steps of their own, and builds. Any of
them may fail, and the caller may go on after a failure, with the builder that the failing
method has left. `Session.perform` calls the method of a step, and keeps the predicates
built so far.

Beside it stands what a caller is told (`Outline`): which additions succeeded, in order,
each with the connectives called since the addition before. From that alone a predicate
means the left-to-right fold of its additions (`Outline.verdict`): an addition is joined
to the verdict so far by the last of its connectives, by "and" if it has none, and the
first one is not joined to anything.

The builder keeps a pending connective and a list of entries instead. `Represents` is
the invariant that ties the two together; every step keeps it (`Represents.perform`),
and so does every run, those of nested sub-groups included.
-/

namespace Criteria

variable {T : Type}

namespace Builder

/-- **A step of building.** A sub-group is given by the steps that its compose function
performs on the child, whether or not they fail, and by the fault it ends with, if any:
a function that lets the fault of a step through performs no step after it and ends
with that fault. -/
inductive Step (T : Type) : Type 1
  /-- Calls a connective. -/
  | join (c : Connective)
  /-- Adds a built predicate. -/
  | addPredicate (p : Predicate T)
  /-- Adds a function of the caller. -/
  | addFunction (f : Callable T Bool) (label : Text)
  /-- Adds a condition on a field. -/
  | addCondition (t : FieldType) (f : Field T t) (c : Condition)
  /-- Adds a test of a field's datum. -/
  | addFieldTest (t : FieldType) (f : Field T t) (test : t.Val → Run Bool)
  /-- Adds a test of what a selector gives. -/
  | addSelectorTest (V : Type) (selector : Callable T V) (test : V → Run Bool)
  /-- Adds a sub-group. -/
  | addGroup (steps : List (Step T)) (raised : Option Fault)
  /-- Adds a sub-group whose compose function is not there. -/
  | addMissingGroup
  /-- Builds a predicate. -/
  | build

/-- **The state of a caller**: the builder, and the predicates built from it and from
the children of its sub-groups. -/
structure Session (T : Type) where
  /-- The builder. -/
  builder : Builder T := {}
  /-- The predicates built so far, first to last. -/
  built : List (Predicate T) := []

namespace Session

/-- **The session after a call of a method**, and the fault if it fails. The session goes on
with the builder that the method has left, in either case. -/
def after (s : Session T) (m : Method T Unit) : Session T × Option Fault :=
  match m.run s.builder with
  | .ok _ b => ({ s with builder := b }, none)
  | .error fault b => ({ s with builder := b }, some fault)

/-- How a compose function ends: with a fault or without. -/
def ending (raised : Option Fault) : Method T Unit :=
  match raised with
  | none => pure ()
  | some fault => throw fault

mutual

/-- **What a step does**, and the fault if it fails. -/
def perform (s : Session T) : Step T → Session T × Option Fault
  | .join .and => s.after Builder.and
  | .join .or => s.after Builder.or
  | .addPredicate p => s.after (addPredicate p)
  | .addFunction f label => s.after (addFunction f label)
  | .addCondition _ f c => s.after (addCondition f c)
  | .addFieldTest _ f test => s.after (addFieldTest f test)
  | .addSelectorTest _ selector test => s.after (addSelectorTest selector test)
  | .addGroup steps raised =>
    { s with built := (performAll { s with builder := {} } steps).built }.after
      (addGroup (some do
        let child ← get
        set (performAll { s with builder := child } steps).builder
        ending raised))
  | .addMissingGroup => s.after (addGroup none)
  | .build =>
    match s.builder.build with
    | .ok p => ({ s with built := s.built ++ [p] }, none)
    | .error fault => (s, some fault)

/-- What several steps do; a fault is caught and the next step follows. -/
def performAll (s : Session T) : List (Step T) → Session T
  | [] => s
  | step :: steps => performAll (perform s step).1 steps

end

/-- The session after some steps from the start. -/
def run (steps : List (Step T)) : Session T := performAll {} steps

end Session

/-! ## What the steps mean -/

/-- The verdict of a condition on every entity. -/
abbrev Verdict (T : Type) := T → Run Bool

end Builder

/-- **Two verdicts joined**, the second one demanded only if the first one leaves the
result open. -/
def Connective.join : Connective → Run Bool → Run Bool → Run Bool
  | .and, x, y => x >>= fun verdict => if verdict then y else .done false
  | .or, x, y => x >>= fun verdict => if verdict then .done true else y

/-- What joining demands is what a group demands of its later nodes. -/
theorem Connective.join_eq (c : Connective) (x y : Run Bool) :
    c.join x y = x >>= fun verdict => if c.demands verdict then y else .done verdict := by
  cases c with
  | and => exact congrArg (x >>= ·) (funext fun verdict => by cases verdict <;> rfl)
  | or => exact congrArg (x >>= ·) (funext fun verdict => by cases verdict <;> rfl)

namespace Builder

/-- **A successful addition.** -/
structure Addition (T : Type) where
  /-- The connectives called since the addition before, first to last. -/
  calls : List Connective
  /-- What is added. -/
  verdict : Verdict T

/-- The connective that joins an addition to those before: the last one called, and
"and" if none was. -/
def Addition.connective (a : Addition T) : Connective := a.calls.getLast?.getD .and

/-- **The fold of the additions** from left to right; without any it is true. -/
def foldAdditions (additions : List (Addition T)) (e : T) : Run Bool :=
  match additions with
  | [] => .done true
  | first :: rest =>
    rest.foldl (fun verdict a => a.connective.join verdict (a.verdict e)) (first.verdict e)

/-- **What a caller is told of a builder.** -/
structure Outline (T : Type) where
  /-- The successful additions, in order. -/
  additions : List (Addition T) := []
  /-- The connectives called since the last of them. -/
  calls : List Connective := []
  /-- The verdicts of the predicates built so far. -/
  built : List (Verdict T) := []

namespace Outline

/-- What a predicate built now decides. -/
def verdict (o : Outline T) : Verdict T := foldAdditions o.additions

/-- The outline with one more addition, which uses up the connectives. -/
def add (o : Outline T) (verdict : Verdict T) : Outline T :=
  { o with additions := o.additions ++ [⟨o.calls, verdict⟩], calls := [] }

mutual

/-- **What a step means**, and the fault if it fails. -/
def perform (o : Outline T) : Step T → Outline T × Option Fault
  | .join c => ({ o with calls := o.calls ++ [c] }, none)
  | .addPredicate p => (o.add p.test, none)
  | .addFunction none _ => (o, some (.argument .missingAddend))
  | .addFunction (some f) _ => (o.add fun e => Run.event .called >>= fun _ => f e, none)
  | .addCondition _ f c =>
    match conditionOn f c with
    | .ok p => (o.add p.test, none)
    | .error fault => (o, some fault)
  | .addFieldTest _ f test =>
    (o.add fun e => f.getter e >>= fun x => Run.event .called >>= fun _ => test x, none)
  | .addSelectorTest _ selector test =>
    (o.add fun e => Run.call selector e >>= fun x => Run.event .called >>= fun _ => test x, none)
  | .addGroup steps raised =>
    let child := performAll { built := o.built } steps
    match raised with
    | none => ({ o with built := child.built }.add child.verdict, none)
    | some fault => ({ o with built := child.built }, some fault)
  | .addMissingGroup => (o, some (.argument .missingCompose))
  | .build => ({ o with built := o.built ++ [o.verdict] }, none)

/-- What several steps mean. -/
def performAll (o : Outline T) : List (Step T) → Outline T
  | [] => o
  | step :: steps => performAll (perform o step).1 steps

end

/-- The outline of some steps from the start. -/
def run (steps : List (Step T)) : Outline T := performAll {} steps

end Outline

/-! ## The group of the entries -/

/-- The connectives and verdicts of additions as a group has them: the first one without
a connective. -/
def written : List (Addition T) → List (Option Connective × Verdict T)
  | [] => []
  | first :: rest => (none, first.verdict) :: rest.map fun a => (some a.connective, a.verdict)

theorem isEmpty_written (additions : List (Addition T)) :
    (written additions).isEmpty = additions.isEmpty := by
  cases additions <;> rfl

theorem written_append (additions : List (Addition T)) (a : Addition T) :
    written (additions ++ [a])
      = written additions
        ++ [(if additions.isEmpty then none else some a.connective, a.verdict)] := by
  cases additions with
  | nil => rfl
  | cons first rest =>
    show (none, first.verdict) :: (rest ++ [a]).map _ = _
    rw [List.map_append]
    rfl

/-- An entry with its verdict in place of its node. -/
def reading (entry : Option Connective × Node T) : Option Connective × Verdict T :=
  (entry.1, entry.2.test)

/-- Later entries that carry connectives form the later nodes of a group, whose verdict
is the fold of what they read as. -/
theorem exists_rest {entries : List (Option Connective × Node T)} {additions : List (Addition T)}
    (h : entries.map reading = additions.map fun a => (some a.connective, a.verdict)) :
    ∃ rest : List (Connective × Node T), entries = rest.map (fun x => (some x.1, x.2)) ∧
      (∀ i, Node.checkRest i (entries.map fun x => (x.1, some x.2)) = .ok rest) ∧
      ∀ (e : T) (x : Run Bool), x >>= Node.testRest rest e
        = additions.foldl (fun verdict a => a.connective.join verdict (a.verdict e)) x := by
  induction entries generalizing additions with
  | nil =>
    rw [List.map_eq_nil_iff.mp h.symm]
    refine ⟨[], rfl, fun _ => rfl, fun e x => ?_⟩
    rw [show Node.testRest [] e = Run.done from rfl, Run.bind_done]
    rfl
  | cons entry entries ih =>
    obtain ⟨a, additions, rfl, hentry, hentries⟩ := List.map_eq_cons_iff.mp h.symm
    obtain ⟨rest, hrest, hcheck, hfold⟩ := ih hentries.symm
    obtain ⟨c, n⟩ := entry
    obtain ⟨rfl, hn⟩ := Prod.mk.inj hentry
    refine ⟨(a.connective, n) :: rest, ?_, fun i => ?_, fun e x => ?_⟩
    · rw [hrest]
      rfl
    · show (Node.checkRest (i + 1) (entries.map fun x => (x.1, some x.2)) >>= _) = _
      rw [hcheck]
      rfl
    · rw [Node.bind_testRest_cons, ← Connective.join_eq, hfold, List.foldl_cons, hn]

/-- **Building succeeds with the group of the entries**, whose verdict is the fold of
the additions that the entries read as. -/
theorem exists_build {b : Builder T} {additions : List (Addition T)}
    (h : b.entries.map reading = written additions) :
    ∃ p : Predicate T, b.build = .ok p ∧
      (b.entries = [] ∧ p.root = .empty ∨
        ∃ first rest, b.entries = (none, first) :: rest.map (fun x => (some x.1, x.2)) ∧
          p.root = .group first rest) ∧
      p.test = foldAdditions additions := by
  unfold build
  cases additions with
  | nil =>
    rw [List.map_eq_nil_iff.mp h]
    exact ⟨⟨.empty⟩, rfl, .inl ⟨rfl, rfl⟩, rfl⟩
  | cons a additions =>
    obtain ⟨⟨c, first⟩, entries, hb, hfirst, hentries⟩ := List.map_eq_cons_iff.mp h
    obtain ⟨rfl, hn⟩ := Prod.mk.inj hfirst
    obtain ⟨rest, hrest, hcheck, hfold⟩ := exists_rest hentries
    refine ⟨⟨.group first rest⟩, ?_, .inr ⟨first, rest, ?_, rfl⟩, funext fun e => ?_⟩
    · rw [hb]
      show (Node.checkRest 1 (entries.map fun x => (x.1, some x.2)) >>= fun rest =>
        Except.ok (Node.group first rest)) >>= _ = _
      rw [hcheck]
      rfl
    · rw [hb, hrest]
    · show first.test e >>= Node.testRest rest e = foldAdditions (a :: additions) e
      rw [hfold, hn]
      rfl

/-! ## The invariant -/

/-- **A session is as its outline says.** -/
structure Represents (s : Session T) (o : Outline T) : Prop where
  /-- The entries read as the additions. -/
  entries : s.builder.entries.map reading = written o.additions
  /-- The last connective called since the last addition is pending. -/
  pending : s.builder.pending = o.calls.getLast?
  /-- The predicates built so far have the verdicts built so far. -/
  built : s.built.map Predicate.test = o.built

/-- **A session after an addition**: there is one more condition, or the session is as it
was. -/
theorem Session.after_addition (s : Session T) (x : Except Fault (Node T)) :
    s.after (addition x) = match x with
      | .ok n => ({ s with builder := s.builder.appended n }, none)
      | .error fault => (s, some fault) := by
  unfold after
  rw [run_addition]
  cases x <;> rfl

namespace Represents

section

variable {s : Session T} {o : Outline T}

/-- The outset of a builder, with predicates built before. -/
theorem fresh (h : s.built.map Predicate.test = o.built) :
    Represents { s with builder := {} } { built := o.built } := ⟨rfl, rfl, h⟩

/-- The builder is empty when nothing was added. -/
theorem isEmpty_entries (h : Represents s o) :
    s.builder.entries.isEmpty = o.additions.isEmpty := by
  rw [← isEmpty_written, ← h.entries, List.isEmpty_map]

/-- **Appending a node is an addition of its verdict.** -/
theorem append (h : Represents s o) {n : Node T} {v : Verdict T} (hn : n.test = v) :
    Represents { s with builder := s.builder.appended n } (o.add v) where
  entries := by
    show (s.builder.entries ++ [_]).map reading = written (o.additions ++ [_])
    rw [List.map_append, written_append, h.entries, connective?, h.isEmpty_entries, h.pending, ← hn]
    rfl
  pending := rfl
  built := h.built

/-- Calling a connective is noted. -/
theorem joined (h : Represents s o) (c : Connective) :
    Represents { s with builder := { s.builder with pending := some c } }
      { o with calls := o.calls ++ [c] } :=
  ⟨h.entries, List.getLast?_concat.symm, h.built⟩

/-- Building keeps a predicate with the verdict of the outline. -/
theorem build (h : Represents s o) :
    ∃ p, s.builder.build = .ok p ∧ p.test = o.verdict := by
  obtain ⟨p, hp, -, htest⟩ := exists_build h.entries
  exact ⟨p, hp, htest⟩

end

mutual

/-- **Every step keeps the invariant**, and fails as its meaning says. -/
theorem perform {s : Session T} {o : Outline T} (h : Represents s o) (step : Step T) :
    Represents (s.perform step).1 (o.perform step).1 ∧
      (s.perform step).2 = (o.perform step).2 := by
  match step with
  | .join c =>
    cases c with
    | and => exact ⟨h.joined .and, rfl⟩
    | or => exact ⟨h.joined .or, rfl⟩
  | .addPredicate p => exact ⟨h.append rfl, rfl⟩
  | .addFunction none label => exact ⟨h, rfl⟩
  | .addFunction (some f) label => exact ⟨h.append rfl, rfl⟩
  | .addCondition t f c =>
    unfold Session.perform Outline.perform
    rw [addCondition_eq_addition, Session.after_addition]
    cases conditionOn f c with
    | error fault => exact ⟨h, rfl⟩
    | ok p => exact ⟨h.append rfl, rfl⟩
  | .addFieldTest t f test => exact ⟨h.append rfl, rfl⟩
  | .addSelectorTest V selector test => exact ⟨h.append rfl, rfl⟩
  | .addGroup steps none =>
    -- the child starts afresh, and the parent is left alone until the child is built
    have hchild := performAll (fresh h.built) steps
    obtain ⟨p, hp, htest⟩ := hchild.build
    have hgroup : groupOf (do
        let child ← get
        set (Session.performAll { s with builder := child } steps).builder
        Session.ending none) = (Session.performAll { s with builder := {} } steps).builder.build :=
      groupOf_eq rfl
    unfold Session.perform Outline.perform
    rw [addGroup_some, hgroup, hp, Session.after_addition]
    have hparent : Represents
        { s with built := (Session.performAll { s with builder := {} } steps).built }
        { o with built := (Outline.performAll { built := o.built } steps).built } :=
      ⟨h.entries, h.pending, hchild.built⟩
    exact ⟨hparent.append htest, rfl⟩
  | .addGroup steps (some fault) =>
    have hgroup : groupOf (do
        let child ← get
        set (Session.performAll { s with builder := child } steps).builder
        Session.ending (some fault)) = .error fault := groupOf_of_error rfl
    unfold Session.perform Outline.perform
    rw [addGroup_some, hgroup, Session.after_addition]
    exact ⟨⟨h.entries, h.pending, (performAll (fresh h.built) steps).built⟩, rfl⟩
  | .addMissingGroup => exact ⟨h, rfl⟩
  | .build =>
    obtain ⟨p, hp, htest⟩ := h.build
    unfold Session.perform
    rw [hp]
    refine ⟨⟨h.entries, h.pending, ?_⟩, rfl⟩
    show (s.built ++ [p]).map Predicate.test = o.built ++ [o.verdict]
    rw [List.map_append, h.built, List.map_singleton, htest]

/-- **Every run of steps keeps the invariant.** -/
theorem performAll {s : Session T} {o : Outline T} (h : Represents s o)
    (steps : List (Step T)) : Represents (s.performAll steps) (o.performAll steps) := by
  match steps with
  | [] => exact h
  | step :: steps => exact performAll (perform h step).1 steps

end

/-- From the start on. -/
theorem run (steps : List (Step T)) : Represents (Session.run steps) (Outline.run steps) :=
  performAll ⟨rfl, rfl, rfl⟩ steps

end Represents

/-! ## Steps that fail, and predicates built earlier -/

namespace Session

theorem performAll_append (s : Session T) (steps later : List (Step T)) :
    s.performAll (steps ++ later) = (s.performAll steps).performAll later := by
  induction steps generalizing s with
  | nil => rfl
  | cons step steps ih => exact ih (s.perform step).1

/-- **An addition that fails leaves the builder as it was.** -/
theorem builder_after (s : Session T) {m : Method T Unit} {x : Except Fault (Node T)}
    (h : m = addition x) : (s.after m).2 = none ∨ (s.after m).1.builder = s.builder := by
  rw [h, after_addition]
  cases x with
  | ok n => exact .inl rfl
  | error fault => exact .inr rfl

/-- **A step that fails leaves the builder as it was.** -/
theorem builder_perform (s : Session T) (step : Step T) :
    (s.perform step).2 = none ∨ (s.perform step).1.builder = s.builder := by
  cases step with
  | join c => cases c <;> exact .inl rfl
  | addPredicate p => exact s.builder_after (addPredicate_eq p)
  | addFunction f label =>
    cases f with
    | none => exact s.builder_after (addFunction_none label)
    | some f => exact s.builder_after (addFunction_some f label)
  | addCondition t f c => exact s.builder_after (addCondition_eq_addition f c)
  | addFieldTest t f test => exact s.builder_after (addFieldTest_eq f test)
  | addSelectorTest V selector test => exact s.builder_after (addSelectorTest_eq selector test)
  | addGroup steps raised =>
    exact builder_after
      { s with built := (performAll { s with builder := {} } steps).built } (addGroup_some _)
  | addMissingGroup => exact s.builder_after addGroup_none
  | build =>
    unfold perform
    cases s.builder.build with
    | ok p => exact .inl rfl
    | error fault => exact .inr rfl

/-- A method of the builder keeps the predicates built. -/
theorem built_after (s : Session T) (m : Method T Unit) : s.built <+: (s.after m).1.built := by
  unfold after
  cases m.run s.builder <;> exact List.prefix_rfl

mutual

/-- **A step keeps the predicates built before it.** -/
theorem built_perform (s : Session T) (step : Step T) :
    s.built <+: (s.perform step).1.built := by
  match step with
  | .join .and | .join .or | .addPredicate _ | .addFunction _ _ | .addCondition _ _ _
  | .addFieldTest _ _ _ | .addSelectorTest _ _ _ | .addMissingGroup =>
    unfold perform
    exact s.built_after _
  | .addGroup steps raised =>
    unfold perform
    exact (built_performAll { s with builder := {} } steps).trans
      (built_after { s with built := (performAll { s with builder := {} } steps).built } _)
  | .build =>
    unfold perform
    cases s.builder.build with
    | ok p => exact List.prefix_append s.built [p]
    | error fault => exact List.prefix_rfl

/-- A run of steps keeps the predicates built before it. -/
theorem built_performAll (s : Session T) (steps : List (Step T)) :
    s.built <+: (s.performAll steps).built := by
  match steps with
  | [] => exact List.prefix_rfl
  | step :: steps =>
    exact (built_perform s step).trans (built_performAll (s.perform step).1 steps)

end

/-- **Runs of a builder.** After any sequence of steps:

* a further step fails exactly as its meaning says, and if it fails the builder is as it
  was, its entries, its size and its pending connective;
* there are as many entries as successful additions, and pending is the last connective
  called since the last of them, none of a sub-group's own among them;
* building succeeds with a group whose first entry has no connective and whose later
  entries have one, and its verdict is the fold of the additions;
* the predicates built so far have the verdicts they were built with, and later steps
  keep them. -/
theorem run_spec (steps : List (Step T)) :
    (∀ step, ((run steps).perform step).2 = ((Outline.run steps).perform step).2 ∧
        (((run steps).perform step).2 = none ∨
          ((run steps).perform step).1.builder = (run steps).builder)) ∧
      (run steps).builder.size = (Outline.run steps).additions.length ∧
      (run steps).builder.pending = (Outline.run steps).calls.getLast? ∧
      (∃ p : Predicate T, (run steps).builder.build = .ok p ∧
        ((run steps).builder.entries = [] ∧ p.root = .empty ∨
          ∃ first rest, (run steps).builder.entries
              = (none, first) :: rest.map (fun x => (some x.1, x.2)) ∧
            p.root = .group first rest) ∧
        p.test = (Outline.run steps).verdict) ∧
      (run steps).built.map Predicate.test = (Outline.run steps).built ∧
      ∀ later, (run steps).built <+: (run (steps ++ later)).built := by
  have h := Represents.run steps
  refine ⟨fun step => ⟨(h.perform step).2, builder_perform _ step⟩, ?_, h.pending,
    exists_build h.entries, h.built, fun later => ?_⟩
  · show (run steps).builder.entries.length = _
    rw [← List.length_map reading, h.entries]
    cases (Outline.run steps).additions with
    | nil => rfl
    | cons first rest => exact congrArg (· + 1) (List.length_map _)
  · show _ <+: (performAll {} (steps ++ later)).built
    rw [performAll_append]
    exact built_performAll _ later

end Session

end Builder

end Criteria
