import Criteria.Expr.Printer

/-!
# Queries

A `Query` says what a provider is to do, in terms that do not depend on the
entities: an operation, a source, a filter, sort keys by field name, and the
positions, fields and groups the operation needs. `Query.toValue` is the form in
which it is handed on and logged; an absent part has no member in it, except the
filter, which is null. A filter with a part missing has no such form, and a query
with text that is not UTF-8 has no text.
-/

namespace Criteria

/-- The direction of a sort key. -/
inductive Direction
  | ascending | descending
deriving DecidableEq

/-- How a direction is written. -/
def Direction.name : Direction → Text
  | .ascending => "asc"
  | .descending => "desc"

/-- The other direction. -/
def Direction.reverse : Direction → Direction
  | .ascending => .descending
  | .descending => .ascending

/-- A comparison in a direction. -/
def Direction.apply : Direction → Ordering → Ordering
  | .ascending, o => o
  | .descending, o => o.swap

/-- **A sort key** by the name of a field. -/
structure SortField where
  /-- The name of the field. -/
  field : Text
  /-- Its direction. -/
  direction : Direction
deriving DecidableEq

/-- **What a query asks for.** -/
inductive Operation
  | select | exist | count | min | max | sum | average | countByGroup
deriving DecidableEq

/-- How an operation is written. -/
def Operation.name : Operation → Text
  | .select => "select"
  | .exist => "exists"
  | .count => "count"
  | .min => "min"
  | .max => "max"
  | .sum => "sum"
  | .average => "average"
  | .countByGroup => "count_by_group"

/-- **A query.** -/
structure Query where
  /-- What is asked for. -/
  operation : Operation := .select
  /-- Where the entities are. -/
  source : Text := .empty
  /-- The condition on the entities, all of them if there is none. -/
  filter : Option Expr := none
  /-- The sort keys, the first one deciding. -/
  orderBy : List SortField := []
  /-- How many entities to skip. -/
  offset : Option UInt64 := none
  /-- How many entities to return at most. -/
  limit : Option UInt64 := none
  /-- The field by whose values entities are told apart. -/
  distinctBy : Option Text := none
  /-- The field that is reduced. -/
  targetField : Option Text := none
  /-- The field by whose values entities are grouped. -/
  groupBy : Option Text := none

/-- A sort key as a value. -/
def SortField.toValue (key : SortField) : Value :=
  .object [("direction", .string key.direction.name), ("field", .string key.field)]

namespace Query

/-- The members that are there: each key with its content, if it has one. -/
def presentMembers : List (Text × Option Value) → List (Text × Value)
  | [] => []
  | (_, none) :: rest => presentMembers rest
  | (key, some v) :: rest => (key, v) :: presentMembers rest

/-- The filter as a value, null if there is none. -/
def filterValue : Option Expr → Except Fault Value
  | none => .ok .null
  | some e => e.toValue

/-- **All parts of a query** under their keys, absent ones included, for a filter that is
a value already. -/
def parts (q : Query) (filter : Value) : List (Text × Option Value) := [
  ("distinct_by", q.distinctBy.map .string),
  ("filter", some filter),
  ("group_by", q.groupBy.map .string),
  ("limit", q.limit.map .uint),
  ("offset", q.offset.map .uint),
  ("operation", some (.string q.operation.name)),
  ("order_by", some (.array (q.orderBy.map SortField.toValue))),
  ("source", some (.string q.source)),
  ("target_field", q.targetField.map .string)]

/-- **The query as a value**, its members in the order of their keys. -/
def toValue (q : Query) : Except Fault Value := do
  let filter ← filterValue q.filter
  .ok (.object (presentMembers (q.parts filter)))

/-- **The query as text.** -/
def text (q : Query) : Except Fault Text := do
  let v ← q.toValue
  v.dump

end Query

end Criteria
