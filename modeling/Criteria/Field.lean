import Criteria.Expr.Evaluation
import Criteria.FieldType

/-!
# Fields and bindings

A `Field` names a datum of an entity and reads it. Its name is what descriptions
mention, its getter what in-memory evaluation calls. `Bindings` tie names to
getters of values, so that the fields of a description can be looked up in an
entity; **the first getter bound to a name stays**.
-/

namespace Criteria

/-- **A named datum of an entity.** -/
structure Field (T : Type) (t : FieldType) where
  /-- The name in descriptions. -/
  name : Text
  /-- The datum of an entity. -/
  getter : T → Run t.Val
  /-- The name is not empty. -/
  named : name.isEmpty = false

namespace Field

variable {T : Type} {t : FieldType}

/-- **A field of a name that is not empty and a getter that is there.** -/
def make (name : Text) (getter : Callable T t.Val) : Except Fault (Field T t) :=
  if h : name.isEmpty = false then
    match getter with
    | none => .error (.argument (.noGetter name))
    | some getter => .ok ⟨name, getter, h⟩
  else .error (.argument .emptyFieldName)

/-- The value that stands for the field's datum. -/
def valueOf (f : Field T t) (e : T) : Run Value := do
  let x ← f.getter e
  .done (t.toValue x)

/-- The field in descriptions. -/
def expr (f : Field T t) : Expr := .field f.name

end Field

/-- **Getters of values under names.** -/
structure Bindings (T : Type) where
  /-- The names and their getters, in the order they were bound, each name once. -/
  entries : List (Text × (T → Run Value)) := []

namespace Bindings

variable {T : Type}

/-- The getter of a name. -/
def getter? (b : Bindings T) (name : Text) : Option (T → Run Value) :=
  (b.entries.find? fun entry => entry.1 = name).map (·.2)

/-- Whether a name is bound. -/
def has (b : Bindings T) (name : Text) : Bool := (b.getter? name).isSome

/-- How many names are bound. -/
def size (b : Bindings T) : Nat := b.entries.length

/-- The bindings with one more, unless the name is bound already. -/
def insert (b : Bindings T) (entry : Text × (T → Run Value)) : Bindings T :=
  if b.has entry.1 then b else ⟨b.entries ++ [entry]⟩

/-- The bindings with a field, unless its name is bound already. -/
def bind {t : FieldType} (b : Bindings T) (f : Field T t) : Bindings T :=
  b.insert (f.name, f.valueOf)

/-- The bindings with those of others whose names are not bound yet. -/
def merge (b other : Bindings T) : Bindings T := other.entries.foldl insert b

/-- The value under a name in an entity. -/
def valueOf (b : Bindings T) (e : T) (name : Text) : Run Value :=
  match b.getter? name with
  | none => .reject (.noBinding name)
  | some getter => getter e

/-- The resolver of the names for an entity. -/
def resolver (b : Bindings T) (e : T) : Expr.Resolver := some (b.valueOf e)

end Bindings

end Criteria
