import Criteria.Remote
import Criteria.SearchTree

/-!
# Queries over entities in memory

A `Table` is a list of entities with bindings for the fields that queries mention.
It executes queries as a provider does: the filter is evaluated on every entity,
sort fields are compared by `Value.compare`, and the values of a distinct field
are kept in a search tree by `Value.lt`. A message precedes each execution, and the
text of the query is made for it whether or not it is delivered: a query without a
text is not executed.
-/

namespace Criteria

/-- **Entities in memory, with bindings.** -/
structure Table (T : Type) where
  /-- The entities. -/
  rows : List T
  /-- The fields that queries may mention. -/
  bindings : Bindings T

namespace Table

variable {T : Type}

/-- **The message that precedes an execution**, with the text of the query. -/
def announce (method : Text) (q : Query) : Run Unit := do
  let text ← q.text
  Run.log .trace ("InMemoryQueryProvider " ++ method ++ ": " ++ text)

/-- Whether an entity passes the filter of a query; without one, all do. -/
def passes (b : Bindings T) (filter : Option Expr) (e : T) : Run Bool :=
  match filter with
  | none => .done true
  | some filter => filter.test (b.resolver e) none

/-- The entities that pass. -/
def filtered (table : Table T) (q : Query) : Run (List T) :=
  Run.keep (passes table.bindings q.filter) table.rows

/-! ## Entities -/

/-- Which of two entities comes first by sort fields. -/
def compareBy (b : Bindings T) : List SortField → T → T → Run Ordering
  | [], _, _ => .done .eq
  | key :: keys, x, y => do
    let u ← b.valueOf x key.field
    let w ← b.valueOf y key.field
    let o := key.direction.apply (u.compare w)
    if o = .eq then compareBy b keys x y else .done o

/-- The first entity of every value of a field, given the values so far. -/
def firstOfValues (b : Bindings T) (field : Text) (seen : SearchTree Value) :
    List T → Run (List T)
  | [] => .done []
  | e :: rest => do
    let v ← b.valueOf e field
    if seen.contains Value.lt v then firstOfValues b field seen rest
    else
      let kept ← firstOfValues b field (seen.add Value.lt v) rest
      .done (e :: kept)

/-- The entities that are distinct in a field, all of them without one. -/
def distinctBy (b : Bindings T) (field : Option Text) (rows : List T) : Run (List T) :=
  match field with
  | none => .done rows
  | some field => firstOfValues b field .leaf rows

/-- The part of a list from an offset on, and no more than a limit. -/
def window (offset limit : Option UInt64) (rows : List T) : List T :=
  let rest := rows.drop (offset.getD 0).toNat
  match limit with
  | none => rest
  | some limit => rest.take limit.toNat

/-- **The entities that a query selects.** -/
def fetch (table : Table T) (q : Query) : Run (List T) := do
  announce "fetch" q
  let passed ← table.filtered q
  let sorted ← SortOrder.sortBy (compareBy table.bindings q.orderBy) passed
  let rows ← distinctBy table.bindings q.distinctBy sorted
  .done (window q.offset q.limit rows)

/-! ## Values -/

/-- The best value so far, or another one: the next value if there is no best one
or it is null, else a value that comes before it, or after it if the greatest is
wanted. -/
def chooseValue (greatest : Bool) (best v : Value) : Value :=
  if best.isNull then v
  else
    let o := v.compare best
    if (if greatest then o == .gt else o == .lt) then v else best

/-- A sum of numbers: of integers, in words, until a floating-point number comes. -/
inductive RunningSum
  | whole (n : Int64)
  | floating (x : Double)

/-- The sum with one more value; what is not a number adds nothing. -/
def RunningSum.add (sum : RunningSum) (v : Value) : RunningSum :=
  match v with
  | .number n =>
    match sum with
    | .whole total =>
      if n.isInteger then .whole (total + n.signed)
      else .floating (Floating.add (.ofInt .double total.toInt) n.toDouble)
    | .floating total => .floating (Floating.add total n.toDouble)
  | _ => sum

/-- The sum as a value. -/
def RunningSum.toValue : RunningSum → Value
  | .whole n => .int n
  | .floating x => .float x

/-- The total with one more value; what is not a number adds nothing. -/
def addToTotal (total : Evaluator.Total) (v : Value) : Evaluator.Total :=
  match v with
  | .number n => total.add (n.toFloating .extended)
  | _ => total

/-- The mean of a total as a value, null if nothing was added. -/
def meanValue (total : Evaluator.Total) : Value :=
  if total.count = 0 then .null else .float (total.mean.convert .double)

/-- The counts of values so far, with one more value. -/
def countValue (v : Value) : List (Value × Nat) → List (Value × Nat)
  | [] => [(v, 1)]
  | (w, n) :: rest => if w.eq v then (w, n + 1) :: rest else (w, n) :: countValue v rest

/-- A group and its count as a value. -/
def groupValue (group : Value × Nat) : Value :=
  .object [("count", .size group.2), ("key", group.1)]

/-- The values of a field, first to last. -/
def column (b : Bindings T) (field : Text) (rows : List T) : Run (List Value) :=
  Run.each (fun e => b.valueOf e field) rows

/-- The field that a reduction needs. -/
def requireTarget (q : Query) : Run Text :=
  match q.targetField with
  | none => .reject (.missingTargetField q.operation.name)
  | some field => .done field

/-- The field that a grouped count needs. -/
def requireGroupBy (q : Query) : Run Text :=
  match q.groupBy with
  | none => .reject .missingGroupBy
  | some field => .done field

/-- The values of the field that a query reduces. -/
def targets (table : Table T) (q : Query) (rows : List T) : Run (List Value) := do
  let field ← requireTarget q
  column table.bindings field rows

/-- **The value that a query asks for.** -/
def scalar (table : Table T) (q : Query) : Run Value := do
  announce "scalar" q
  let rows ← table.filtered q
  match q.operation with
  | .exist => .done (.bool !rows.isEmpty)
  | .count => .done (.size rows.length)
  | .min => do
    let vs ← table.targets q rows
    .done (vs.foldl (chooseValue false) .null)
  | .max => do
    let vs ← table.targets q rows
    .done (vs.foldl (chooseValue true) .null)
  | .sum => do
    let vs ← table.targets q rows
    .done (vs.foldl RunningSum.add (.whole 0)).toValue
  | .average => do
    let vs ← table.targets q rows
    .done (meanValue (vs.foldl addToTotal {}))
  | .countByGroup => do
    let field ← requireGroupBy q
    let vs ← column table.bindings field rows
    .done (.array ((vs.foldl (fun groups v => countValue v groups) []).map groupValue))
  | .select => .reject (.notScalar q.operation.name)

/-- **The table as a provider.** -/
def provider (table : Table T) : Provider T where
  fetch := table.fetch
  scalar := table.scalar

end Table

end Criteria
