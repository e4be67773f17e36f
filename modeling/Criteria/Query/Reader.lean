import Criteria.Expr.Reader
import Criteria.FieldType
import Criteria.Query

/-!
# Reading queries from values

`Query.ofValue` reads a query from the object that `Query.toValue` writes. What is
missing is absent in the query; without an operation entities are selected, and
without a direction a sort key is ascending. A value of the wrong kind is a fault.
-/

namespace Criteria

namespace Operation

/-- All operations. -/
def all : List Operation :=
  [.select, .exist, .count, .min, .max, .sum, .average, .countByGroup]

/-- The operation of a name; entities are selected under any other. -/
def ofName (name : Text) : Operation := (all.find? fun op => op.name = name).getD .select

end Operation

/-- The direction of a name; ascending under any but that of the other. -/
def Direction.ofName (name : Text) : Direction :=
  if name = Direction.descending.name then .descending else .ascending

/-- The sort key that a value holds. -/
def SortField.ofValue (v : Value) : Except Fault SortField := do
  let field ← (v.memberOrNull "field").toText
  let direction ← (v.memberOrNull "direction").toText
  .ok ⟨field, .ofName direction⟩

namespace Query

/-- A text that may be absent. -/
def readText? (v : Value) : Except Fault (Option Text) := (FieldType.optional .text).ofValue v

/-- A position or a count that may be absent. -/
def readWord? : Value → Except Fault (Option UInt64)
  | .null => .ok none
  | v => do
    let n ← FieldType.countOfValue v
    .ok (some ⟨n.bits⟩)

/-- A filter that may be absent. -/
def readFilter (v : Value) : Except Fault (Option Expr) := do
  let filter ← Expr.ofValue v
  .ok (if filter.isAbsent then none else some filter)

/-- **The query that a value holds.** -/
def ofValue (v : Value) : Except Fault Query := do
  let operation ← (v.memberOrNull "operation").toText
  let source ← (v.memberOrNull "source").toText
  let filter ← readFilter (v.memberOrNull "filter")
  let orderBy ← (v.memberOrNull "order_by").elements.mapM SortField.ofValue
  let offset ← readWord? (v.memberOrNull "offset")
  let limit ← readWord? (v.memberOrNull "limit")
  let distinctBy ← readText? (v.memberOrNull "distinct_by")
  let targetField ← readText? (v.memberOrNull "target_field")
  let groupBy ← readText? (v.memberOrNull "group_by")
  .ok {
    operation := .ofName operation
    source := source
    filter := filter
    orderBy := orderBy
    offset := offset
    limit := limit
    distinctBy := distinctBy
    targetField := targetField
    groupBy := groupBy }

end Query

end Criteria
