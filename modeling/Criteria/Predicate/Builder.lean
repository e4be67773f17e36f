import Criteria.Condition
import Criteria.Predicate

/-!
# Building predicates

A `Builder` collects conditions and the connectives between them. `Builder.and`
and `Builder.or` set the connective for the next condition, the last one counting;
without one, conditions are joined by "and", and a connective before the first
condition is forgotten.

A builder is one object, which its methods change in place (`Builder.Method`). The
state of a method is the builder, and a fault leaves it as the statements before the
failing one have made it. A sub-group is composed in a builder of its own, of which
nothing is left if that fails, and added as one condition.
-/

namespace Criteria

/-- **The state of building a predicate.** -/
structure Builder (T : Type) where
  /-- The conditions so far, each with its connective. -/
  entries : List (Option Connective × Node T) := []
  /-- The connective for the next condition. -/
  pending : Option Connective := none

namespace Builder

variable {T : Type}

/-- **A method of a builder.** What it has changed before it fails stays changed. -/
abbrev Method (T α : Type) := EStateM Fault (Builder T) α

/-- Goes on with what has a result, and else fails. -/
def Method.check {α : Type} (x : Except Fault α) : Method T α :=
  match x with
  | .ok a => pure a
  | .error fault => throw fault

/-- The builder that a method makes of another one, if it does not fail. -/
def Method.on (m : Method T Unit) (b : Builder T) : Except Fault (Builder T) :=
  match m.run b with
  | .ok _ b => .ok b
  | .error fault _ => .error fault

/-- Joins the next condition by "and". -/
def and : Method T Unit := modify fun b => { b with pending := some .and }

/-- Joins the next condition by "or". -/
def or : Method T Unit := modify fun b => { b with pending := some .or }

/-- The connective of a condition that is added now: none for the first one. -/
def connective? (b : Builder T) : Option Connective :=
  if b.entries.isEmpty then none else some (b.pending.getD .and)

/-- **Adds a condition**, which uses up the connective. -/
def append (n : Node T) : Method T Unit := do
  let b ← get
  let entry := (b.connective?, n)
  modify fun b => { b with entries := b.entries ++ [entry] }
  modify fun b => { b with pending := none }

/-- Adds a built predicate as one condition. -/
def addPredicate (p : Predicate T) : Method T Unit := append p.root

/-- **Adds a function of the caller**, which must be there. -/
def addFunction (f : Callable T Bool) (label : Text := Predicate.defaultLabel) :
    Method T Unit :=
  match f with
  | none => throw (.argument .missingAddend)
  | some f => append (Predicate.nativeLeaf label f)

/-- **Adds a condition on a field**, which keeps its description. -/
def addCondition {t : FieldType} (f : Field T t) (c : Condition) : Method T Unit := do
  let bindings := Bindings.bind {} f
  let description ← .check (c.bindTo f.expr)
  let described ← .check (Predicate.ofDescription description bindings)
  append described.root

/-- The leaf of a test of what a selector gives. -/
def selectedLeaf {V : Type} (label : Text) (selector : T → Run V) (test : V → Run Bool) :
    Node T :=
  .leaf <| .native label fun e => do
    let v ← selector e
    Run.event .called
    test v

/-- Adds a test of a field's datum. -/
def addFieldTest {t : FieldType} (f : Field T t) (test : t.Val → Run Bool) : Method T Unit :=
  append (selectedLeaf ("entity." ++ f.name ++ " <opaque>") f.getter test)

/-- Adds a test of what a selector gives. A selector that is not there is missed
only when the condition is evaluated. -/
def addSelectorTest {V : Type} (selector : Callable T V) (test : V → Run Bool) :
    Method T Unit :=
  append (selectedLeaf "<opaque selector>" (Run.call selector) test)

/-- **The predicate of the conditions so far.** -/
def build (b : Builder T) : Except Fault (Predicate T) := do
  let root ← Node.ofEntries (b.entries.map fun entry => (entry.1, some entry.2))
  .ok ⟨root⟩

/-- **Adds a group** that a function composes in a builder of its own. -/
def addGroup (compose : Option (Method T Unit)) : Method T Unit :=
  match compose with
  | none => throw (.argument .missingCompose)
  | some compose => do
    let child ← .check (compose.on {})
    let group ← .check child.build
    append group.root

/-- Whether there are no conditions. -/
def isEmpty (b : Builder T) : Bool := b.entries.isEmpty

/-- The number of conditions. -/
def size (b : Builder T) : Nat := b.entries.length

end Builder

end Criteria
